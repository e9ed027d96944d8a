/-
The settings in a YAML text: a mapping of their names, each of which may be left out, or a sequence of all of them in order.
A setting is text or absent.
-/
import CfgMembership.Configuration
import CfgMembership.Standard.Yaml.Collection

namespace CfgMembership.Standard

/-- the setting that a scalar gives: absent for a null; nothing when it is tagged as a null and is none -/
def settingOf? (s : Yaml.Scalar) : Option (Option String) :=
  let isNull := s.text = "~" ∨ s.text = "null"
  if !s.plain then some (some s.text)
  else if s.tag = none then some (if isNull then none else some s.text)
  else if s.tag = some .null then if isNull then some none else none
  else some (some s.text)

def settingNames : List String := ["grammar", "queries", "log_file", "log_level"]

/-- the setting with a name, absent when no entry has it -/
def setting? (entries : List (Yaml.Scalar × Yaml.Scalar)) (name : String) : Option (Option String) :=
  match entries.find? (·.1.text = name) with
  | none => some none
  | some (_, value) => settingOf? value

/-- the settings of a mapping whose keys are names of settings, none of them twice -/
def ofEntries? (entries : List (Yaml.Scalar × Yaml.Scalar)) : Option Configuration := do
  let names := entries.map (·.1.text)
  guard (names.all settingNames.contains && names.Nodup)
  return {
    grammar := ← setting? entries "grammar"
    queries := ← setting? entries "queries"
    logFile := ← setting? entries "log_file"
    logLevel := ← setting? entries "log_level" }

/-- the settings of a sequence with a scalar for each of them -/
def ofItems? : List Yaml.Scalar → Option Configuration
  | [grammar, queries, logFile, logLevel] => do
    return ⟨← settingOf? grammar, ← settingOf? queries, ← settingOf? logFile, ← settingOf? logLevel⟩
  | _ => none

def ofCollection? : Yaml.Collection → Option Configuration
  | .sequence items => ofItems? items
  | .mapping entries => ofEntries? entries

def settings (text : String) : Except String Configuration :=
  match (Yaml.collection? text).bind ofCollection? with
  | none => .error "not understood"
  | some configuration => .ok configuration

end CfgMembership.Standard

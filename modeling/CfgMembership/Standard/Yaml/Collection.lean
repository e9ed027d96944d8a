/-
YAML documents that are one collection of scalars.

A collection is a sequence or a mapping, in lines of their own or in brackets. A scalar may have an anchor, by which later
references stand for it, and a tag. One that is left out is a null, unless it has an anchor or a tag; then it is an empty
text. Collections within a collection, and texts that hold more than one document, are not read.
-/
import CfgMembership.Standard.Yaml.Token

namespace CfgMembership.Standard.Yaml

/-- a scalar: its text, whether it was written without quotes, and its tag -/
structure Scalar where
  text : String
  plain : Bool := true
  tag : Option Tag := none
  deriving DecidableEq, Repr

def Scalar.null : Scalar := { text := "~" }

/-- scalars in order, or scalars under keys -/
inductive Collection where
  | sequence (items : List Scalar)
  | mapping (entries : List (Scalar × Scalar))
  deriving DecidableEq, Repr

/-! ## Scalars -/

/-- the scalars that have been given names, the latest first -/
abbrev Anchors := List (String × Scalar)

/-- what may stand before a scalar or a collection -/
structure Properties where
  anchor : Option String := none
  tag : Option Tag := none
  deriving DecidableEq, Repr

/-- an anchor and a tag in any order, each once at most, and the tokens after them -/
def takeProperties : List Token → Properties × List Token
  | .anchor name :: .tag tag :: rest => (⟨some name, some tag⟩, rest)
  | .tag tag :: .anchor name :: rest => (⟨some name, some tag⟩, rest)
  | .anchor name :: rest => ({ anchor := some name }, rest)
  | .tag tag :: rest => ({ tag := some tag }, rest)
  | rest => ({}, rest)

structure ScalarRead where
  scalar : Scalar
  anchors : Anchors
  rest : List Token
  deriving DecidableEq, Repr

/-- notes a scalar under its anchor if it has one -/
def Properties.attach (p : Properties) (text : String) (plain : Bool) (anchors : Anchors) (rest : List Token) : ScalarRead :=
  let scalar := { text, plain, tag := p.tag }
  match p.anchor with
  | none => ⟨scalar, anchors, rest⟩
  | some name => ⟨scalar, (name, scalar) :: anchors, rest⟩

/-- reads a scalar, or what a reference stands for -/
def readScalar? (anchors : Anchors) (tokens : List Token) : Option ScalarRead :=
  match takeProperties tokens with
  | (p, .scalar plain text :: rest) => some (p.attach text plain anchors rest)
  | (p, rest) =>
    if p ≠ {} then some (p.attach "" true anchors rest)
    else
      match rest with
      | .reference name :: rest => (anchors.lookup name).map fun scalar => ⟨scalar, anchors, rest⟩
      | _ => none

/-- reads a scalar, or a null before a token that none begins with -/
def readOptional? (follows : List Token) (anchors : Anchors) (tokens : List Token) : Option ScalarRead :=
  if tokens.head?.any follows.contains then some ⟨.null, anchors, tokens⟩ else readScalar? anchors tokens

/-! ## Sequences -/

def readItems? : (fuel : Nat) → Array Scalar → Anchors → List Token → Option (Collection × List Token)
  | fuel + 1, items, anchors, .item :: tokens => do
    let read ← readOptional? [.item, .blockEnd] anchors tokens
    readItems? fuel (items.push read.scalar) read.anchors read.rest
  | _, items, _, .blockEnd :: rest => some (.sequence items.toList, rest)
  | _, _, _, _ => none

/-- the items in brackets, as many as `fuel` says at most; a comma may stand after the last of them -/
def readFlowItems? : (fuel : Nat) → Array Scalar → Anchors → List Token → Option (Collection × List Token)
  | _, items, _, .flowSequenceEnd :: rest => some (.sequence items.toList, rest)
  | 0, _, _, _ => none
  | fuel + 1, items, anchors, tokens => do
    let read ← readScalar? anchors tokens
    let items := items.push read.scalar
    match read.rest with
    | .comma :: rest => readFlowItems? fuel items read.anchors rest
    | .flowSequenceEnd :: rest => some (.sequence items.toList, rest)
    | _ => none

/-! ## Mappings -/

structure EntryRead where
  entry : Scalar × Scalar
  anchors : Anchors
  rest : List Token
  deriving DecidableEq, Repr

/-- reads the value after a key, a null if there is none -/
def ScalarRead.readValue? (key : ScalarRead) (follows : List Token) : Option EntryRead :=
  match key.rest with
  | .value :: tokens => do
    let value ← readOptional? follows key.anchors tokens
    return ⟨(key.scalar, value.scalar), value.anchors, value.rest⟩
  | rest => some ⟨(key.scalar, .null), key.anchors, rest⟩

/-- the entries of a block, as many as `fuel` says at most -/
def readEntries? : (fuel : Nat) → Array (Scalar × Scalar) → Anchors → List Token → Option (Collection × List Token)
  | _, entries, _, .blockEnd :: rest => some (.mapping entries.toList, rest)
  | fuel + 1, entries, anchors, .key :: tokens => do
    let key ← readOptional? [.key, .value, .blockEnd] anchors tokens
    let read ← key.readValue? [.key, .value, .blockEnd]
    readEntries? fuel (entries.push read.entry) read.anchors read.rest
  | fuel + 1, entries, anchors, .value :: tokens => do
    let read ← (ScalarRead.mk .null anchors (.value :: tokens)).readValue? [.key, .value, .blockEnd]
    readEntries? fuel (entries.push read.entry) read.anchors read.rest
  | _, _, _, _ => none

/-- reads an entry in braces; a key without a mark has no value -/
def readFlowEntry? (anchors : Anchors) : List Token → Option EntryRead
  | .key :: tokens => do
    let key ← readOptional? [.value, .comma, .flowMappingEnd] anchors tokens
    key.readValue? [.comma, .flowMappingEnd]
  | .value :: tokens => (ScalarRead.mk .null anchors (.value :: tokens)).readValue? [.comma, .flowMappingEnd]
  | tokens => do
    let key ← readScalar? anchors tokens
    return ⟨(key.scalar, .null), key.anchors, key.rest⟩

/-- the entries in braces, as many as `fuel` says at most; a comma may stand after the last of them -/
def readFlowEntries? : (fuel : Nat) → Array (Scalar × Scalar) → Anchors → List Token → Option (Collection × List Token)
  | _, entries, _, .flowMappingEnd :: rest => some (.mapping entries.toList, rest)
  | 0, _, _, _ => none
  | fuel + 1, entries, anchors, tokens => do
    let read ← readFlowEntry? anchors tokens
    let entries := entries.push read.entry
    match read.rest with
    | .comma :: rest => readFlowEntries? fuel entries read.anchors rest
    | .flowMappingEnd :: rest => some (.mapping entries.toList, rest)
    | _ => none

/-! ## Documents -/

def readCollection? (tokens : List Token) : Option (Collection × List Token) :=
  let fuel := tokens.length
  match tokens with
  | .blockSequence :: tokens => readItems? fuel #[] [] tokens
  | .flowSequence :: tokens => readFlowItems? fuel #[] [] tokens
  | .blockMapping :: tokens => readEntries? fuel #[] [] tokens
  | .flowMapping :: tokens => readFlowEntries? fuel #[] [] tokens
  | _ => none

/-- goes over the beginning of a document; after directives it has to be marked -/
def startDocument? : List Token → Option (List Token)
  | .documentStart :: tokens => some tokens
  | .directive :: tokens => do
    match tokens.dropWhile (· = .directive) with
    | .documentStart :: tokens => some tokens
    | _ => none
  | tokens => some tokens

/-- the collection that a text is. References cannot stand for it, so its own anchor does not matter, nor does its tag. -/
def collection? (text : String) : Option Collection := do
  let tokens ← startDocument? (← tokens? text)
  let (collection, rest) ← readCollection? (takeProperties tokens).2
  guard (rest.all (· = .documentEnd))
  return collection

end CfgMembership.Standard.Yaml

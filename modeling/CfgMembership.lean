import CfgMembership.Text.Blank
import CfgMembership.Text.Word
import CfgMembership.Text.Count
import CfgMembership.Text.Line
import CfgMembership.SymbolTable
import CfgMembership.Log
import CfgMembership.Grammar.Basic
import CfgMembership.Grammar.Nullable
import CfgMembership.Grammar.Derivation
import CfgMembership.Grammar.Builder
import CfgMembership.Chart.Item
import CfgMembership.Chart.Column
import CfgMembership.Chart.Basic
import CfgMembership.Recognition
import CfgMembership.Source.Basic
import CfgMembership.Source.Text
import CfgMembership.Source.File
import CfgMembership.Source.Growing
import CfgMembership.Description.Basic
import CfgMembership.Description.Reading
import CfgMembership.Query
import CfgMembership.Files
import CfgMembership.Configuration
import CfgMembership.CommandLine.Arguments
import CfgMembership.CommandLine.Libraries
import CfgMembership.CommandLine.Run
import CfgMembership.Standard.Arguments
import CfgMembership.Standard.Escape
import CfgMembership.Standard.LogFile
import CfgMembership.Standard.Yaml.Spot
import CfgMembership.Standard.Yaml.Tag
import CfgMembership.Standard.Yaml.Scalar
import CfgMembership.Standard.Yaml.Block
import CfgMembership.Standard.Yaml.Token
import CfgMembership.Standard.Yaml.Collection
import CfgMembership.Standard.Settings
import CfgMembership.Standard
import CfgMembership.Main
import CfgMembership.Proofs.SymbolTable
import CfgMembership.Proofs.Grammar.Yield
import CfgMembership.Proofs.Grammar.Nullable
import CfgMembership.Proofs.Grammar.Builder
import CfgMembership.Proofs.Grammar.Lawful
import CfgMembership.Proofs.Grammar.Declared
import CfgMembership.Proofs.Chart.Item
import CfgMembership.Proofs.Chart.Rules
import CfgMembership.Proofs.Chart.Column
import CfgMembership.Proofs.Chart.Closing
import CfgMembership.Proofs.Chart.Reading
import CfgMembership.Proofs.Chart.Contents
import CfgMembership.Proofs.Chart.Front
import CfgMembership.Proofs.Chart.Worklist
import CfgMembership.Proofs.Chart.Moment
import CfgMembership.Proofs.Chart.Run
import CfgMembership.Proofs.Recognition
import CfgMembership.Proofs.RecognitionLog
import CfgMembership.Proofs.RecognitionFront
import CfgMembership.Proofs.Text.Blank
import CfgMembership.Proofs.Text.Word
import CfgMembership.Proofs.Text.Reading
import CfgMembership.Proofs.Text.Count
import CfgMembership.Proofs.Text.Line
import CfgMembership.Proofs.Source
import CfgMembership.Proofs.Source.File
import CfgMembership.Proofs.Description.Line
import CfgMembership.Proofs.Description.Reading
import CfgMembership.Proofs.SymbolTable.Spelling
import CfgMembership.Proofs.SymbolTable.Operation
import CfgMembership.Proofs.SymbolTable.Renumbering
import CfgMembership.Proofs.Grammar.Nullability
import CfgMembership.Proofs.Grammar.Kinds
import CfgMembership.Proofs.Grammar.Declares
import CfgMembership.Proofs.Grammar.FirstFault
import CfgMembership.Proofs.Grammar.Reflects
import CfgMembership.Proofs.Grammar.Redeclared
import CfgMembership.Proofs.Redeclaration
import CfgMembership.Proofs.Grammar.Contents
import CfgMembership.Proofs.Description.Grammar
import CfgMembership.Proofs.Description.Fault
import CfgMembership.Proofs.Query
import CfgMembership.Proofs.Query.Fault
import CfgMembership.Proofs.Source.Alike
import CfgMembership.Proofs.ItemText
import CfgMembership.Proofs.Files
import CfgMembership.Proofs.Configuration
import CfgMembership.Proofs.CommandLine.Libraries
import CfgMembership.Proofs.Standard.Arguments
import CfgMembership.Proofs.Standard.LogFile
import CfgMembership.Proofs.CommandLine.Run
import CfgMembership.Proofs.CommandLine.SameTask

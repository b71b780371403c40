import PassingStyle.Alpha
import PassingStyle.Command
import PassingStyle.Command.Parameter
import PassingStyle.Command.Variable
import PassingStyle.CommandLine
import PassingStyle.Compiler
import PassingStyle.Config
import PassingStyle.Config.Document
import PassingStyle.Config.Language
import PassingStyle.Config.Mark
import PassingStyle.Config.Numeral
import PassingStyle.Config.Path
import PassingStyle.Config.Reading
import PassingStyle.Config.Schema
import PassingStyle.Conversion
import PassingStyle.Dialogue
import PassingStyle.Dialogue.Draft
import PassingStyle.Failure
import PassingStyle.Form
import PassingStyle.History
import PassingStyle.Log
import PassingStyle.Log.Flags
import PassingStyle.Log.JournalKey
import PassingStyle.Log.Record
import PassingStyle.Main
import PassingStyle.NameTable
import PassingStyle.Number
import PassingStyle.Number.Decimal
import PassingStyle.Number.Literal
import PassingStyle.Pattern
import PassingStyle.Proofs.BoundOnce
import PassingStyle.Proofs.Completable
import PassingStyle.Proofs.Composition
import PassingStyle.Proofs.CoreForm
import PassingStyle.Proofs.CoreGrammar
import PassingStyle.Proofs.Cuts
import PassingStyle.Proofs.Derivation
import PassingStyle.Proofs.Feeding
import PassingStyle.Proofs.FreshName
import PassingStyle.Proofs.Gaps
import PassingStyle.Proofs.Generated
import PassingStyle.Proofs.Grammar
import PassingStyle.Proofs.Guarded.Analysis
import PassingStyle.Proofs.Guarded.Conversion
import PassingStyle.Proofs.Hygiene
import PassingStyle.Proofs.Image
import PassingStyle.Proofs.Independence
import PassingStyle.Proofs.Instances
import PassingStyle.Proofs.Interruption
import PassingStyle.Proofs.LeastName
import PassingStyle.Proofs.Leaves
import PassingStyle.Proofs.Matches
import PassingStyle.Proofs.Meaning.Alike
import PassingStyle.Proofs.Meaning.Preservation
import PassingStyle.Proofs.Meaning.Reflection
import PassingStyle.Proofs.Meaning.Relation
import PassingStyle.Proofs.Meaning.Renaming
import PassingStyle.Proofs.Meaning.Silence
import PassingStyle.Proofs.Meaning.Simulation
import PassingStyle.Proofs.Meaning.Source
import PassingStyle.Proofs.Meaning.Store
import PassingStyle.Proofs.Meaning.Strict
import PassingStyle.Proofs.Meaning.Target
import PassingStyle.Proofs.Misbound
import PassingStyle.Proofs.Modes
import PassingStyle.Proofs.Nameless
import PassingStyle.Proofs.NextLine
import PassingStyle.Proofs.Numeral
import PassingStyle.Proofs.Operator
import PassingStyle.Proofs.Outcome
import PassingStyle.Proofs.Placement
import PassingStyle.Proofs.Precedence
import PassingStyle.Proofs.Printed
import PassingStyle.Proofs.Relabel
import PassingStyle.Proofs.Renamable
import PassingStyle.Proofs.Renamed
import PassingStyle.Proofs.Resumption
import PassingStyle.Proofs.RoundTrip
import PassingStyle.Proofs.Scanning
import PassingStyle.Proofs.Schemas
import PassingStyle.Proofs.Size
import PassingStyle.Proofs.Standalone
import PassingStyle.Proofs.Steady
import PassingStyle.Proofs.Stems
import PassingStyle.Proofs.Tables
import PassingStyle.Proofs.Unclosed
import PassingStyle.Proofs.Uses
import PassingStyle.Proofs.Values
import PassingStyle.Proofs.Variables
import PassingStyle.Proofs.Visibility
import PassingStyle.Proofs.Weighing
import PassingStyle.Reader
import PassingStyle.Renaming
import PassingStyle.Samples
import PassingStyle.Script
import PassingStyle.Script.Arguments
import PassingStyle.Script.Language
import PassingStyle.Script.Order
import PassingStyle.Script.Standard
import PassingStyle.Script.Value
import PassingStyle.Session
import PassingStyle.Settings
import PassingStyle.Sexp
import PassingStyle.Text
import PassingStyle.Text.Distance
import PassingStyle.Text.Glyph
import PassingStyle.Text.Letter
import PassingStyle.Text.Lowercase
import PassingStyle.Text.Printable
import PassingStyle.Text.Quoted
import PassingStyle.Token
import PassingStyle.Transformer

import EcmaPattern.Check
import EcmaPattern.CodePoint.IdentifierPart
import EcmaPattern.CodePoint.IdentifierStart
import EcmaPattern.CodePoint.Ranges
import EcmaPattern.CodePoint.Scalar
import EcmaPattern.CodePoint.Unprintable
import EcmaPattern.CommandLine.Arguments
import EcmaPattern.CommandLine.Session
import EcmaPattern.Diagnostic
import EcmaPattern.Evidence
import EcmaPattern.Grammar.AtomEscape
import EcmaPattern.Grammar.CharacterClass
import EcmaPattern.Grammar.CharacterEscape
import EcmaPattern.Grammar.Disjunction
import EcmaPattern.Grammar.GroupName
import EcmaPattern.Grammar.Quantifier
import EcmaPattern.Grammar.SetEscape
import EcmaPattern.Grammar.SpecialCharacter
import EcmaPattern.Grammar.Term
import EcmaPattern.Identifier
import EcmaPattern.Literal
import EcmaPattern.Main
import EcmaPattern.Options
import EcmaPattern.Proofs.Acceptance
import EcmaPattern.Proofs.Alignment
import EcmaPattern.Proofs.Alternation
import EcmaPattern.Proofs.Atomicity
import EcmaPattern.Proofs.BracedQuantifier
import EcmaPattern.Proofs.CharacterClass
import EcmaPattern.Proofs.Checked.Arithmetic
import EcmaPattern.Proofs.Checked.Failure
import EcmaPattern.Proofs.Checked.Reader
import EcmaPattern.Proofs.Checked.Recognizer
import EcmaPattern.Proofs.ClassRange
import EcmaPattern.Proofs.Closing
import EcmaPattern.Proofs.CommandLine.Arguments
import EcmaPattern.Proofs.CommandLine.Session
import EcmaPattern.Proofs.Evidence
import EcmaPattern.Proofs.Exclusion
import EcmaPattern.Proofs.GroupName
import EcmaPattern.Proofs.Language.CharacterClass
import EcmaPattern.Proofs.Language.Derivation
import EcmaPattern.Proofs.Language.Escape
import EcmaPattern.Proofs.Language.Form
import EcmaPattern.Proofs.Language.Quantifier
import EcmaPattern.Proofs.Language.Relaxation
import EcmaPattern.Proofs.Language.Tail
import EcmaPattern.Proofs.LaterGroups
import EcmaPattern.Proofs.LegacyEscape
import EcmaPattern.Proofs.Literal
import EcmaPattern.Proofs.LiteralName
import EcmaPattern.Proofs.NullEscape
import EcmaPattern.Proofs.Order
import EcmaPattern.Proofs.Overflow
import EcmaPattern.Proofs.Progress
import EcmaPattern.Proofs.PropertyEscape
import EcmaPattern.Proofs.Quotation
import EcmaPattern.Proofs.Reachable
import EcmaPattern.Proofs.Recognition.Atom
import EcmaPattern.Proofs.Recognition.AtomEscape
import EcmaPattern.Proofs.Recognition.CharacterClass
import EcmaPattern.Proofs.Recognition.Disjunction
import EcmaPattern.Proofs.Recognition.Escape
import EcmaPattern.Proofs.Recognition.Frame
import EcmaPattern.Proofs.Recognition.Group
import EcmaPattern.Proofs.Recognition.Idle
import EcmaPattern.Proofs.Recognition.Quantifier
import EcmaPattern.Proofs.Recognition.Recognizes
import EcmaPattern.Proofs.Recognition.SetEscape
import EcmaPattern.Proofs.Recognition.Term
import EcmaPattern.Proofs.Rejection
import EcmaPattern.Proofs.Relaxation
import EcmaPattern.Proofs.Run.Grammar
import EcmaPattern.Proofs.Run.Loop
import EcmaPattern.Proofs.Run.Reader
import EcmaPattern.Proofs.Run.Recognizer
import EcmaPattern.Proofs.Run.Value
import EcmaPattern.Proofs.Scan.Depth
import EcmaPattern.Proofs.Scan.Escape
import EcmaPattern.Proofs.Scan.Pattern
import EcmaPattern.Proofs.Scan.Place
import EcmaPattern.Proofs.Scan.Scanner
import EcmaPattern.Proofs.Silence
import EcmaPattern.Proofs.Snapshot
import EcmaPattern.Proofs.Termination
import EcmaPattern.Proofs.Text.Cursor
import EcmaPattern.Proofs.Text.Decoding
import EcmaPattern.Proofs.Text.Lines
import EcmaPattern.Proofs.Text.NumeralOrder
import EcmaPattern.Proofs.Text.Reading
import EcmaPattern.Proofs.UnicodeEscape
import EcmaPattern.Proofs.WellFormed
import EcmaPattern.Proofs.Writing
import EcmaPattern.Property
import EcmaPattern.Property.GeneralCategory
import EcmaPattern.Property.Names
import EcmaPattern.Property.Script
import EcmaPattern.Property.Values
import EcmaPattern.Recognizer
import EcmaPattern.Text.CodeUnit
import EcmaPattern.Text.Cursor
import EcmaPattern.Text.Lines
import EcmaPattern.Text.Numeral
import EcmaPattern.Text.Quoted
import EcmaPattern.Text.Reader

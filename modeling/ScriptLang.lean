import ScriptLang.Text.Position
import ScriptLang.Text.Quoted
import ScriptLang.Text.Blank
import ScriptLang.Text.DecimalDigit
import ScriptLang.Number.Layout
import ScriptLang.Number.Reading
import ScriptLang.Number.Integer
import ScriptLang.Grammar.Lexeme
import ScriptLang.Grammar.Table
import ScriptLang.Grammar.Derivation
import ScriptLang.Json.Writer
import ScriptLang.Json.Reader
import ScriptLang.Parse
import ScriptLang.Node.ToJson
import ScriptLang.Node.OfJson
import ScriptLang.Value.Conversion
import ScriptLang.Eval.Evaluator
import ScriptLang.Repl
import ScriptLang.CommandLine.Run
import ScriptLang.Main
import ScriptLang.Proofs.Grammar.Items
import ScriptLang.Proofs.Grammar.Lookahead
import ScriptLang.Proofs.Grammar.Stack
import ScriptLang.Proofs.Grammar.Acceptance
import ScriptLang.Proofs.Grammar.Lexing
import ScriptLang.Proofs.Grammar.Meaning
import ScriptLang.Proofs.Grammar.Lowering
import ScriptLang.Proofs.Parsing
import ScriptLang.Proofs.Number.Digits
import ScriptLang.Proofs.Syntax.Tokens
import ScriptLang.Proofs.Syntax.WellFormed
import ScriptLang.Proofs.Syntax.Rendering
import ScriptLang.Proofs.Syntax.Deriving
import ScriptLang.Proofs.Syntax.RoundTrip
import ScriptLang.Proofs.Number.Rounding
import ScriptLang.Proofs.Number.ShortestDecimal
import ScriptLang.Proofs.Eval.Discipline
import ScriptLang.Proofs.Eval.Runs
import ScriptLang.Proofs.Eval.Pieces
import ScriptLang.Proofs.Eval.Frames
import ScriptLang.Proofs.Eval.Integers
import ScriptLang.Proofs.Eval.Reachability
import ScriptLang.Proofs.Eval.Scoping
import ScriptLang.Proofs.Number.Magnitude
import ScriptLang.Proofs.Eval.Soundness
import ScriptLang.Proofs.Json.Numerals
import ScriptLang.Proofs.Node.Codec
import ScriptLang.Proofs.Json.RoundTrip
import ScriptLang.Proofs.Node.DataText
import ScriptLang.Proofs.CommandLine.Emission
import ScriptLang.Proofs.Eval.Comparison
import ScriptLang.Proofs.Eval.Unbounded
import ScriptLang.Proofs.Eval.ControlForms
import ScriptLang.Proofs.Eval.Programs
import ScriptLang.Proofs.Grammar.Relocation
import ScriptLang.Proofs.Syntax.Cutting
import ScriptLang.Proofs.Syntax.Trivia
import ScriptLang.Proofs.Syntax.Passing
import ScriptLang.Proofs.Syntax.Insertion
import ScriptLang.Proofs.Grammar.Resuming
import ScriptLang.Proofs.Syntax.Concatenation
import ScriptLang.Proofs.Eval.Sessions
import ScriptLang.Proofs.Eval.DebugLevels
import ScriptLang.Proofs.Eval.Faults
import ScriptLang.Proofs.Eval.Signals
import ScriptLang.Proofs.Repl.Endings
import ScriptLang.Proofs.Eval.Streams
import ScriptLang.Proofs.Repl.Transcript
import ScriptLang.Proofs.Eval.ScopeChain
import ScriptLang.Proofs.Grammar.Pending
import ScriptLang.Proofs.Syntax.Completion
import ScriptLang.Proofs.Syntax.Stopping
import ScriptLang.Proofs.Syntax.ErrorPositions
import ScriptLang.Proofs.Syntax.ExpectedTerminals
import ScriptLang.Proofs.Syntax.Keywords
import ScriptLang.Proofs.Syntax.NumberForms
import ScriptLang.Proofs.Syntax.StringItems
import ScriptLang.Proofs.Number.ExactValue
import ScriptLang.Proofs.Value.IntegerArithmetic
import ScriptLang.Proofs.Value.Comparisons
import ScriptLang.Proofs.Number.NearestInteger
import ScriptLang.Proofs.Number.FewestDigits
import ScriptLang.Proofs.Number.SignificantDigits
import ScriptLang.Proofs.Value.FloatText
import ScriptLang.Proofs.Value.Selection
import ScriptLang.Proofs.Value.IntegerText
import ScriptLang.Proofs.Eval.Progress
import ScriptLang.Proofs.Repl.Echo

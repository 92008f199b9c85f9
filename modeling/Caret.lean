import Caret.Main
import Caret.Proofs.Cutoff
import Caret.Proofs.Gap
import Caret.Proofs.Scan
import Caret.Proofs.Slice
import Caret.Proofs.Step
import Caret.Proofs.Lossless
import Caret.Proofs.Literal
import Caret.Proofs.Seen
import Caret.Proofs.ImportPath
import Caret.Proofs.Expression
import Caret.Proofs.Truncate
import Caret.Proofs.TextBehind
import Caret.Proofs.EnclosingBrace
import Caret.Proofs.LineEnd
import Caret.Proofs.Separator
import Caret.Proofs.Spaced
import Caret.Proofs.Selector
import Caret.Proofs.Nesting
import Caret.Proofs.Place
import Caret.Proofs.ReportedPlace
import Caret.Proofs.Checked.Cutting
import Caret.Proofs.Checked.Scanner
import Caret.Proofs.Checked.Symbol
import Caret.Proofs.Checked.Lexeme
import Caret.Proofs.Checked.Trivia
import Caret.Proofs.Checked.Lexer
import Caret.Proofs.Checked.Walk
import Caret.Proofs.Checked.Classify
import Caret.Proofs.TokensBefore
import Caret.Proofs.Typed
import Caret.Proofs.Recount
import Caret.Proofs.Restart
import Caret.Proofs.TextReport
import Caret.Proofs.InComment
import Caret.Proofs.StringEnd
import Caret.Proofs.MaximalMunch
import Caret.Proofs.NumberGrammar
import Caret.Proofs.NumberKind
import Caret.Proofs.WordOrOperator
import Caret.Proofs.CallCount
import Caret.Proofs.Headed
import Caret.Proofs.Given
import Caret.Proofs.Stages
import Caret.Proofs.Innermost
import Caret.Proofs.Moves
import Caret.Proofs.Checked.Moves
import Caret.Proofs.JsonText
import Caret.Proofs.JsonReader
import Caret.Proofs.JsonReport

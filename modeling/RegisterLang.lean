import RegisterLang.Command.Option
import RegisterLang.Command.Run
import RegisterLang.Data
import RegisterLang.Diagnostic
import RegisterLang.Diagnostic.Excerpt
import RegisterLang.Files
import RegisterLang.Grammar.Cursor
import RegisterLang.Grammar.Expression
import RegisterLang.Grammar.Framed
import RegisterLang.Grammar.ParseError
import RegisterLang.Grammar.Program
import RegisterLang.Grammar.Reader
import RegisterLang.Grammar.Statement
import RegisterLang.Interpreter
import RegisterLang.Location
import RegisterLang.Main
import RegisterLang.Node
import RegisterLang.Node.Dump
import RegisterLang.Node.Links
import RegisterLang.Node.Outline
import RegisterLang.Node.Visit
import RegisterLang.Proofs.Diagnostic.Alignment
import RegisterLang.Proofs.Diagnostic.Caret
import RegisterLang.Proofs.Diagnostic.Color
import RegisterLang.Proofs.Diagnostic.Excerpt
import RegisterLang.Proofs.Grammar.Assembly
import RegisterLang.Proofs.Grammar.Calls
import RegisterLang.Proofs.Grammar.CarriageReturn
import RegisterLang.Proofs.Grammar.Completeness
import RegisterLang.Proofs.Grammar.Completion
import RegisterLang.Proofs.Grammar.Concatenation
import RegisterLang.Proofs.Grammar.Cursor
import RegisterLang.Proofs.Grammar.Derivation
import RegisterLang.Proofs.Grammar.Ending
import RegisterLang.Proofs.Grammar.Failure
import RegisterLang.Proofs.Grammar.Frames
import RegisterLang.Proofs.Grammar.Graft
import RegisterLang.Proofs.Grammar.Height
import RegisterLang.Proofs.Grammar.Items
import RegisterLang.Proofs.Grammar.Joining
import RegisterLang.Proofs.Grammar.Layout
import RegisterLang.Proofs.Grammar.Lockstep
import RegisterLang.Proofs.Grammar.Moved
import RegisterLang.Proofs.Grammar.Open
import RegisterLang.Proofs.Grammar.Pace
import RegisterLang.Proofs.Grammar.Places
import RegisterLang.Proofs.Grammar.Precedence
import RegisterLang.Proofs.Grammar.Program
import RegisterLang.Proofs.Grammar.Recorded
import RegisterLang.Proofs.Grammar.Recording
import RegisterLang.Proofs.Grammar.Rounds
import RegisterLang.Proofs.Grammar.Safety
import RegisterLang.Proofs.Grammar.Semicolon
import RegisterLang.Proofs.Grammar.Shape
import RegisterLang.Proofs.Grammar.Soundness
import RegisterLang.Proofs.Grammar.SourceOrder
import RegisterLang.Proofs.Grammar.Spans
import RegisterLang.Proofs.Grammar.Stop
import RegisterLang.Proofs.Grammar.Trace
import RegisterLang.Proofs.Node.Branches
import RegisterLang.Proofs.Node.Dump
import RegisterLang.Proofs.Node.Faithful
import RegisterLang.Proofs.Node.Links
import RegisterLang.Proofs.Node.Numbered
import RegisterLang.Proofs.Node.Outline
import RegisterLang.Proofs.Node.Siblings
import RegisterLang.Proofs.Node.Visit
import RegisterLang.Proofs.Node.Walk
import RegisterLang.Proofs.Print.Canonical
import RegisterLang.Proofs.Print.Chain
import RegisterLang.Proofs.Print.Derivation
import RegisterLang.Proofs.Print.RoundTrip
import RegisterLang.Proofs.Print.Spelling
import RegisterLang.Proofs.Print.Text
import RegisterLang.Proofs.Renaming
import RegisterLang.Proofs.Steps
import RegisterLang.Proofs.Text.EditDistance
import RegisterLang.Proofs.Text.Integer
import RegisterLang.Proofs.Text.Markup
import RegisterLang.Proofs.Text.Quoted
import RegisterLang.Proofs.Text.ReadBack
import RegisterLang.Proofs.Token.CarriageReturn
import RegisterLang.Proofs.Token.Charwise
import RegisterLang.Proofs.Token.Completeness
import RegisterLang.Proofs.Token.Lawful
import RegisterLang.Proofs.Token.Layout
import RegisterLang.Proofs.Token.Lexeme
import RegisterLang.Proofs.Token.LineBreak
import RegisterLang.Proofs.Token.Lookahead
import RegisterLang.Proofs.Token.Malformed
import RegisterLang.Proofs.Token.Moved
import RegisterLang.Proofs.Token.OperatorOrder
import RegisterLang.Proofs.Token.Place
import RegisterLang.Proofs.Token.Progress
import RegisterLang.Proofs.Token.Run
import RegisterLang.Proofs.Token.Session
import RegisterLang.Proofs.Token.Soundness
import RegisterLang.Proofs.Token.Suggestion
import RegisterLang.Proofs.Token.Tiling
import RegisterLang.Sequence
import RegisterLang.Text.Blank
import RegisterLang.Text.ControlSequence
import RegisterLang.Text.EditDistance
import RegisterLang.Text.Hex
import RegisterLang.Text.Integer
import RegisterLang.Text.LetterCase
import RegisterLang.Text.LetterCase.Lower
import RegisterLang.Text.LetterCase.Upper
import RegisterLang.Text.Markup
import RegisterLang.Text.Printable
import RegisterLang.Text.Quoted
import RegisterLang.Text.Similarity
import RegisterLang.Text.Utf8
import RegisterLang.Token
import RegisterLang.Token.Directive
import RegisterLang.Token.Operator
import RegisterLang.Token.Scan
import RegisterLang.Token.ScanError

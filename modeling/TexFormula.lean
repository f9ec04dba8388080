import TexFormula.Command
import TexFormula.Command.Alphabet
import TexFormula.Command.Identifier
import TexFormula.Command.Space
import TexFormula.Command.Structural
import TexFormula.Context
import TexFormula.Decimal
import TexFormula.Dictionary
import TexFormula.Document
import TexFormula.Document.Session
import TexFormula.Entries
import TexFormula.Environment
import TexFormula.Error
import TexFormula.Expr
import TexFormula.Expr.Bounded
import TexFormula.Expr.Queue
import TexFormula.Formula
import TexFormula.Json
import TexFormula.Length
import TexFormula.Macro
import TexFormula.Macro.Call
import TexFormula.Macro.Declaration
import TexFormula.Macro.Definition
import TexFormula.Macro.Dependency
import TexFormula.Macro.Expansion
import TexFormula.Node
import TexFormula.Node.Letterform
import TexFormula.Node.Marks
import TexFormula.Node.Xml
import TexFormula.Options
import TexFormula.Plan
import TexFormula.Plan.Command
import TexFormula.Plan.Sideset
import TexFormula.Plan.Step
import TexFormula.Plan.Structural
import TexFormula.Proofs.Action.Alike
import TexFormula.Proofs.Action.Shape
import TexFormula.Proofs.Command.Stable
import TexFormula.Proofs.Document.Comments
import TexFormula.Proofs.Document.Defining
import TexFormula.Proofs.Document.Placing
import TexFormula.Proofs.Document.Primes
import TexFormula.Proofs.Document.Quiet
import TexFormula.Proofs.Document.Reading
import TexFormula.Proofs.Document.Session
import TexFormula.Proofs.Document.Shape
import TexFormula.Proofs.Document.Styles
import TexFormula.Proofs.Document.Table
import TexFormula.Proofs.Document.Typeset
import TexFormula.Proofs.Document.Unmentioned
import TexFormula.Proofs.Document.Vocabulary
import TexFormula.Proofs.Expr.Alike
import TexFormula.Proofs.Expr.Beside
import TexFormula.Proofs.Expr.Options
import TexFormula.Proofs.Expr.Popping
import TexFormula.Proofs.Expr.Positions
import TexFormula.Proofs.Expr.Shows
import TexFormula.Proofs.Expr.Similar
import TexFormula.Proofs.Expr.Spans
import TexFormula.Proofs.Formula.Alike
import TexFormula.Proofs.Formula.Breaks
import TexFormula.Proofs.Formula.Definitions
import TexFormula.Proofs.Formula.Endings
import TexFormula.Proofs.Formula.Idle
import TexFormula.Proofs.Formula.Invariant
import TexFormula.Proofs.Formula.Level
import TexFormula.Proofs.Formula.Limits
import TexFormula.Proofs.Formula.Machine
import TexFormula.Proofs.Formula.Sealed
import TexFormula.Proofs.Formula.Shape
import TexFormula.Proofs.Formula.Showing
import TexFormula.Proofs.Formula.Trace
import TexFormula.Proofs.Length.Eighteenths
import TexFormula.Proofs.Macro.Alike
import TexFormula.Proofs.Macro.Arguments
import TexFormula.Proofs.Macro.Completeness
import TexFormula.Proofs.Macro.Cycle
import TexFormula.Proofs.Macro.Declaration
import TexFormula.Proofs.Macro.Endless
import TexFormula.Proofs.Macro.Equivalence
import TexFormula.Proofs.Macro.Exhaustion
import TexFormula.Proofs.Macro.Flattening
import TexFormula.Proofs.Macro.Inlining
import TexFormula.Proofs.Macro.Locality
import TexFormula.Proofs.Macro.Reassembly
import TexFormula.Proofs.Macro.Restriction
import TexFormula.Proofs.Macro.Rounds
import TexFormula.Proofs.Macro.Segments
import TexFormula.Proofs.Macro.Unfolding
import TexFormula.Proofs.Node.Everywhere
import TexFormula.Proofs.Node.Shape
import TexFormula.Proofs.Node.Stable
import TexFormula.Proofs.Pairing.Enclosure
import TexFormula.Proofs.Pairing.Links
import TexFormula.Proofs.Pairing.Mixed
import TexFormula.Proofs.Pairing.Offsets
import TexFormula.Proofs.Pairing.Reading
import TexFormula.Proofs.Pairing.Slices
import TexFormula.Proofs.Pairing.Strict
import TexFormula.Proofs.Plan.Actions
import TexFormula.Proofs.Plan.Carried
import TexFormula.Proofs.Plan.Kern
import TexFormula.Proofs.Plan.Shape
import TexFormula.Proofs.Plan.Stable
import TexFormula.Proofs.Plan.Yields
import TexFormula.Proofs.Registry
import TexFormula.Proofs.Row.Cells
import TexFormula.Proofs.Row.Clusters
import TexFormula.Proofs.Row.Conservation
import TexFormula.Proofs.Row.Gaps
import TexFormula.Proofs.Row.Gathering
import TexFormula.Proofs.Row.Passes
import TexFormula.Proofs.Row.Primes
import TexFormula.Proofs.Row.Runs
import TexFormula.Proofs.Row.ScriptOrder
import TexFormula.Proofs.Row.Settling
import TexFormula.Proofs.Row.Shape
import TexFormula.Proofs.Row.Typeset
import TexFormula.Proofs.Row.Widths
import TexFormula.Proofs.Step.Alike
import TexFormula.Proofs.Step.Beside
import TexFormula.Proofs.Step.Taking
import TexFormula.Proofs.Table.Alignment
import TexFormula.Proofs.Table.Braces
import TexFormula.Proofs.Table.Coverage
import TexFormula.Proofs.Table.Cutting
import TexFormula.Proofs.Table.Division
import TexFormula.Proofs.Table.Outline
import TexFormula.Proofs.Table.Rules
import TexFormula.Proofs.Table.Shape
import TexFormula.Proofs.Table.Spacing
import TexFormula.Proofs.Table.Spans
import TexFormula.Proofs.Table.Stable
import TexFormula.Proofs.Table.Switches
import TexFormula.Proofs.Table.Trimming
import TexFormula.Proofs.Token.Acceptance
import TexFormula.Proofs.Token.Coherence
import TexFormula.Proofs.Token.Collapse
import TexFormula.Proofs.Token.Crossing
import TexFormula.Proofs.Token.Fences
import TexFormula.Proofs.Token.Inlining
import TexFormula.Proofs.Token.Lexeme
import TexFormula.Proofs.Token.Partners
import TexFormula.Proofs.Token.Preparation
import TexFormula.Proofs.Token.Rejection
import TexFormula.Proofs.Token.Repetition
import TexFormula.Proofs.Token.Respelling
import TexFormula.Proofs.Token.Settled
import TexFormula.Proofs.Token.Texts
import TexFormula.Proofs.Token.Thinning
import TexFormula.Proofs.Xml.Decoding
import TexFormula.Proofs.Xml.Layout
import TexFormula.Proofs.Xml.Markup
import TexFormula.Proofs.Xml.Reading
import TexFormula.Registry
import TexFormula.Row
import TexFormula.Row.Draft
import TexFormula.Style
import TexFormula.Symbol.Table
import TexFormula.Table.Alignment
import TexFormula.Table.Grid
import TexFormula.Text.Alphabetic
import TexFormula.Text.CharSet
import TexFormula.Text.Invisible
import TexFormula.Text.Trim
import TexFormula.Token
import TexFormula.Token.Lexer
import TexFormula.Token.Pairing
import TexFormula.Token.Sizing
import TexFormula.Token.Stream

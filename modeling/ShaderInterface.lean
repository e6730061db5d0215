import ShaderInterface.AliasTable
import ShaderInterface.Browser.Basic
import ShaderInterface.Browser.Frame
import ShaderInterface.Browser.Highlight
import ShaderInterface.Catalog
import ShaderInterface.Command.FileTree
import ShaderInterface.Command.Invocation
import ShaderInterface.Command.Run
import ShaderInterface.CompileError
import ShaderInterface.Declaration.Basic
import ShaderInterface.Declaration.Reader
import ShaderInterface.Emission
import ShaderInterface.InputLayout
import ShaderInterface.Kind
import ShaderInterface.Layout
import ShaderInterface.Lexical.Nesting
import ShaderInterface.Lexical.Piece
import ShaderInterface.Lexical.Rules
import ShaderInterface.Lexical.Tokenize
import ShaderInterface.Main
import ShaderInterface.Proofs.Catalog.Entries
import ShaderInterface.Proofs.Declaration.Completeness
import ShaderInterface.Proofs.Declaration.Grammar
import ShaderInterface.Proofs.Declaration.Soundness
import ShaderInterface.Proofs.Layout.Aggregates
import ShaderInterface.Proofs.Layout.Placement
import ShaderInterface.Proofs.Lexical.Spans
import ShaderInterface.Proofs.Session.Coherence
import ShaderInterface.Proofs.Session.Runs
import ShaderInterface.Screen.Basic
import ShaderInterface.Screen.Palette
import ShaderInterface.Semantic
import ShaderInterface.Session
import ShaderInterface.ShaderType
import ShaderInterface.Text.Basic
import ShaderInterface.Text.Letter
import ShaderInterface.Text.Lines
import ShaderInterface.Text.Location
import ShaderInterface.Text.Numeral
import ShaderInterface.Token.Basic
import ShaderInterface.Token.Integer
import ShaderInterface.Proofs.Catalog.Names
import ShaderInterface.Proofs.Browser.ErrorLine
import ShaderInterface.Proofs.Declaration.Relocation
import ShaderInterface.Proofs.Session.Splitting
import ShaderInterface.Proofs.Emission.Reading
import ShaderInterface.Proofs.Emission.RoundTrip
import ShaderInterface.Proofs.Catalog.Aliases
import ShaderInterface.Proofs.Emission.Semantics
import ShaderInterface.Proofs.Declaration.Locations
import ShaderInterface.Proofs.Lexical.Insertion
import ShaderInterface.Proofs.Declaration.Trivia
import ShaderInterface.Proofs.Browser.Views
import ShaderInterface.Proofs.Session.Commuting
import ShaderInterface.Proofs.Emission.Unambiguous
import ShaderInterface.Proofs.Command.Arguments
import ShaderInterface.Proofs.Command.AllOrNothing
import ShaderInterface.Proofs.Layout.Least
import ShaderInterface.Proofs.Layout.Slots
import ShaderInterface.Proofs.Lexical.Balance
import ShaderInterface.Proofs.Lexical.OnePass
import ShaderInterface.Proofs.Declaration.Viable
import ShaderInterface.Proofs.Emission.Conflicts
import ShaderInterface.Proofs.Catalog.History
import ShaderInterface.Proofs.Browser.Windows
import ShaderInterface.Proofs.Declaration.Resumption
import ShaderInterface.Proofs.Lexical.Escaping
import ShaderInterface.Proofs.Lexical.Punctuators
import ShaderInterface.Proofs.Text.Coordinates
import ShaderInterface.Proofs.Token.Integers
import ShaderInterface.Proofs.Text.LineIndex
import ShaderInterface.Proofs.Browser.Highlighting

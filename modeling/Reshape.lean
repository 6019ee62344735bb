import Reshape.Command.Arguments
import Reshape.Command.Help
import Reshape.Command.Run
import Reshape.Config.Basic
import Reshape.Config.Read
import Reshape.Convert.Basic
import Reshape.Convert.Declaration
import Reshape.Convert.Plan
import Reshape.Convert.Reference
import Reshape.Convert.Rewrite
import Reshape.Convert.Site
import Reshape.Data
import Reshape.Decl.Scope
import Reshape.Decl.Shape
import Reshape.Decl.Table
import Reshape.Editor.View
import Reshape.Editor.Message
import Reshape.Editor.Method
import Reshape.Editor.Params
import Reshape.Editor.Position
import Reshape.Editor.Server
import Reshape.Entries
import Reshape.Files.Basic
import Reshape.Files.Sources
import Reshape.Files.Tree
import Reshape.Grammar.Basic
import Reshape.Grammar.Expressions
import Reshape.Grammar.Fault
import Reshape.Grammar.Items
import Reshape.Grammar.Lookahead
import Reshape.Grammar.Patterns
import Reshape.Grammar.Pieces
import Reshape.Grammar.Rules
import Reshape.Grammar.Types
import Reshape.Main
import Reshape.Outline
import Reshape.Parse
import Reshape.Report
import Reshape.Resolve.Expr
import Reshape.Resolve.Local
import Reshape.Resolve.Pattern
import Reshape.Resolve.View
import Reshape.Syntax.Form
import Reshape.Syntax.Name
import Reshape.Syntax.Node
import Reshape.Syntax.Part
import Reshape.Text.Blank
import Reshape.Text.Letter
import Reshape.Text.LineIndex
import Reshape.Text.Quoted
import Reshape.Text.Reader
import Reshape.Text.Slice
import Reshape.Text.Span
import Reshape.Text.Unprintable
import Reshape.Text.Utf8
import Reshape.Token.Basic
import Reshape.Token.Keyword
import Reshape.Token.Kind
import Reshape.Token.Lexeme
import Reshape.Token.Lexer
import Reshape.Toml.Document
import Reshape.Toml.Number
import Reshape.Toml.Table
import Reshape.Toml.Text
import Reshape.Tree.Basic
import Reshape.Tree.Kind
import Reshape.Tree.Log
import Reshape.Ty.Basic
import Reshape.Ty.Prim
import Reshape.Ty.Substitution
import Reshape.Ty.Unify
import Reshape.Ty.Written
import Reshape.Url.Basic
import Reshape.Url.Host
import Reshape.Url.Path
import Reshape.Url.Percent
import Reshape.Workspace.Basic
import Reshape.Workspace.Edit
import Reshape.Workspace.Error
import Reshape.Workspace.Path
import Reshape.Proofs.Ty.Equality
import Reshape.Proofs.Ty.Knowledge
import Reshape.Proofs.Ty.Unification
import Reshape.Proofs.Convert.Atomic
import Reshape.Proofs.Convert.Accesses
import Reshape.Proofs.Ty.Sessions
import Reshape.Proofs.Workspace.Table
import Reshape.Proofs.Workspace.Clients
import Reshape.Proofs.Convert.Composition
import Reshape.Proofs.Convert.Macros
import Reshape.Proofs.Parse.Faults
import Reshape.Proofs.Token.Tiling
import Reshape.Proofs.Token.Comments
import Reshape.Proofs.Tree.Growth
import Reshape.Proofs.Convert.Consistency
import Reshape.Proofs.Parse.Termination
import Reshape.Proofs.Expr.RoundTrip
import Reshape.Proofs.Resolve.Conditions
import Reshape.Proofs.Resolve.Instantiation
import Reshape.Proofs.Resolve.WellFormed
import Reshape.Proofs.Token.Spacing
import Reshape.Proofs.Convert.Order
import Reshape.Proofs.Convert.Shadowing
import Reshape.Proofs.Convert.Slots
import Reshape.Proofs.Convert.Initializers
import Reshape.Proofs.Editor.Conversions
import Reshape.Proofs.Convert.FieldTypes
import Reshape.Proofs.Convert.FieldDocs
import Reshape.Proofs.Convert.Clauses
import Reshape.Proofs.Ty.Agreement
import Reshape.Proofs.Text.Lines
import Reshape.Proofs.Command.Carets
import Reshape.Proofs.Editor.Positions
import Reshape.Proofs.Ty.Composition
import Reshape.Proofs.Parse.Delimiters
import Reshape.Proofs.Token.Indices
import Reshape.Proofs.Parse.Heads
import Reshape.Proofs.Editor.Symbols
import Reshape.Proofs.Decl.Index
import Reshape.Proofs.Syntax.Values

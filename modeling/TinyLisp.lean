import TinyLisp.Builtin.Arguments
import TinyLisp.Builtin.Arithmetic
import TinyLisp.Builtin.Call
import TinyLisp.Builtin.Mapping
import TinyLisp.Builtin.Name
import TinyLisp.Builtin.Primitive
import TinyLisp.Builtin.Sequence
import TinyLisp.CommandLine
import TinyLisp.Engine
import TinyLisp.Eval.Application
import TinyLisp.Eval.Basic
import TinyLisp.Eval.Control
import TinyLisp.Eval.Definition
import TinyLisp.Eval.Form
import TinyLisp.Eval.Interop
import TinyLisp.Eval.Machine
import TinyLisp.Eval.Template
import TinyLisp.Failure
import TinyLisp.HashTrie.AssocList
import TinyLisp.HashTrie.Basic
import TinyLisp.HashTrie.Cursor
import TinyLisp.HashTrie.History
import TinyLisp.Host.Basic
import TinyLisp.Host.Counting
import TinyLisp.Host.Standard
import TinyLisp.Main
import TinyLisp.Number.Parts
import TinyLisp.Number.Shortest
import TinyLisp.Number.Text
import TinyLisp.Pattern.Basic
import TinyLisp.Pattern.Bind
import TinyLisp.Proofs.Builtin.Clean
import TinyLisp.Proofs.Builtin.Mapping
import TinyLisp.Proofs.Builtin.Places
import TinyLisp.Proofs.Eval.Attempt
import TinyLisp.Proofs.Eval.Clean
import TinyLisp.Proofs.Eval.Drivers
import TinyLisp.Proofs.Eval.Footprint
import TinyLisp.Proofs.Eval.Keyword
import TinyLisp.Proofs.Eval.Literal
import TinyLisp.Proofs.Eval.Location
import TinyLisp.Proofs.Eval.Parameters
import TinyLisp.Proofs.Eval.Pieces
import TinyLisp.Proofs.Eval.Places
import TinyLisp.Proofs.Eval.Rules
import TinyLisp.Proofs.Eval.Rows
import TinyLisp.Proofs.Eval.Shape
import TinyLisp.Proofs.Eval.Strategy
import TinyLisp.Proofs.Eval.Tail
import TinyLisp.Proofs.Eval.Template
import TinyLisp.Proofs.HashTrie.Alike
import TinyLisp.Proofs.HashTrie.Buckets
import TinyLisp.Proofs.HashTrie.Checked
import TinyLisp.Proofs.HashTrie.Collision
import TinyLisp.Proofs.HashTrie.Commute
import TinyLisp.Proofs.HashTrie.Extensional
import TinyLisp.Proofs.HashTrie.Invariant
import TinyLisp.Proofs.HashTrie.Members
import TinyLisp.Proofs.HashTrie.Order
import TinyLisp.Proofs.HashTrie.Refinement
import TinyLisp.Proofs.HashTrie.Safety
import TinyLisp.Proofs.HashTrie.Slots
import TinyLisp.Proofs.Number.Canonical
import TinyLisp.Proofs.Number.Equality
import TinyLisp.Proofs.Number.Whole
import TinyLisp.Proofs.Pattern.Effect
import TinyLisp.Proofs.Pattern.Order
import TinyLisp.Proofs.Pattern.Parts
import TinyLisp.Proofs.Pattern.Places
import TinyLisp.Proofs.Pattern.Sequential
import TinyLisp.Proofs.Pattern.Targets
import TinyLisp.Proofs.Pattern.Validity
import TinyLisp.Proofs.Pattern.Variables
import TinyLisp.Proofs.Reader.Atom
import TinyLisp.Proofs.Reader.Basic
import TinyLisp.Proofs.Reader.Blame
import TinyLisp.Proofs.Reader.Descent
import TinyLisp.Proofs.Reader.Grammar
import TinyLisp.Proofs.Reader.Places
import TinyLisp.Proofs.Reader.RoundTrip
import TinyLisp.Proofs.Reader.Spacing
import TinyLisp.Proofs.Reader.Spans
import TinyLisp.Proofs.Store.Agreement
import TinyLisp.Proofs.Store.Bindings
import TinyLisp.Proofs.Store.Clean
import TinyLisp.Proofs.Store.Footprint
import TinyLisp.Proofs.Store.Places
import TinyLisp.Proofs.Token.Layout
import TinyLisp.Proofs.Token.Lexer
import TinyLisp.Proofs.Token.Lines
import TinyLisp.Proofs.Token.Slices
import TinyLisp.Proofs.Value.Built
import TinyLisp.Proofs.Value.Clean
import TinyLisp.Proofs.Value.Copy
import TinyLisp.Proofs.Value.Data
import TinyLisp.Proofs.Value.Depth
import TinyLisp.Proofs.Value.Equality
import TinyLisp.Proofs.Value.Interchange
import TinyLisp.Proofs.Value.Lookup
import TinyLisp.Proofs.Value.Places
import TinyLisp.Proofs.Value.Render
import TinyLisp.Proofs.Value.SelfEquality
import TinyLisp.Reader.Atom
import TinyLisp.Reader.Basic
import TinyLisp.Reader.Program
import TinyLisp.Source.Position
import TinyLisp.Store.Action
import TinyLisp.Store.Basic
import TinyLisp.Text.Blank
import TinyLisp.Text.Case
import TinyLisp.Text.CaseTable
import TinyLisp.Text.HiddenTable
import TinyLisp.Text.Inspect
import TinyLisp.Text.Quoted
import TinyLisp.Text.Units
import TinyLisp.Token.Basic
import TinyLisp.Token.Lexer
import TinyLisp.Value.Basic
import TinyLisp.Value.Data
import TinyLisp.Value.Depth
import TinyLisp.Value.Equality
import TinyLisp.Value.Hash
import TinyLisp.Value.Items
import TinyLisp.Value.Render

import ScreenDoc.Action.Basic
import ScreenDoc.Action.Ready
import ScreenDoc.Action.Rules
import ScreenDoc.Arithmetic.Basic
import ScreenDoc.Arithmetic.Token
import ScreenDoc.Decimal.Format
import ScreenDoc.Decimal.Reader
import ScreenDoc.Decimal.Shortest
import ScreenDoc.Decimal.Whole
import ScreenDoc.Document.Layout
import ScreenDoc.Document.Origin
import ScreenDoc.Document.Reader
import ScreenDoc.Expansion.Context
import ScreenDoc.Expansion.Layout
import ScreenDoc.Expansion.Leaf
import ScreenDoc.Expansion.Rulebook
import ScreenDoc.Expr.Eval
import ScreenDoc.Expr.Scan
import ScreenDoc.Expr.Template
import ScreenDoc.Json.Basic
import ScreenDoc.Json.Number
import ScreenDoc.Json.Reader
import ScreenDoc.Json.Record
import ScreenDoc.Proofs.Action.Decoding
import ScreenDoc.Proofs.Action.Demand
import ScreenDoc.Proofs.Action.Encoding
import ScreenDoc.Proofs.Action.Inline
import ScreenDoc.Proofs.Action.Walk
import ScreenDoc.Proofs.Arithmetic.Formula
import ScreenDoc.Proofs.Arithmetic.Reduction
import ScreenDoc.Proofs.Arithmetic.Words
import ScreenDoc.Proofs.Checked.Evaluator
import ScreenDoc.Proofs.Checked.Forms
import ScreenDoc.Proofs.Checked.Parser
import ScreenDoc.Proofs.Checked.Scan
import ScreenDoc.Proofs.Checked.Slice
import ScreenDoc.Proofs.Expansion.Accounts
import ScreenDoc.Proofs.Expansion.Anchor
import ScreenDoc.Proofs.Expansion.Beside
import ScreenDoc.Proofs.Expansion.Compare
import ScreenDoc.Proofs.Expansion.Control
import ScreenDoc.Proofs.Expansion.Course
import ScreenDoc.Proofs.Expansion.Faithful
import ScreenDoc.Proofs.Expansion.Gap
import ScreenDoc.Proofs.Expansion.Handler
import ScreenDoc.Proofs.Expansion.Iteration
import ScreenDoc.Proofs.Expansion.Ledger
import ScreenDoc.Proofs.Expansion.Levels
import ScreenDoc.Proofs.Expansion.Local
import ScreenDoc.Proofs.Expansion.Occurrence
import ScreenDoc.Proofs.Expansion.Origin
import ScreenDoc.Proofs.Expansion.Planted
import ScreenDoc.Proofs.Expansion.Recorded
import ScreenDoc.Proofs.Expansion.Reference
import ScreenDoc.Proofs.Expansion.Refresh
import ScreenDoc.Proofs.Expansion.Rooted
import ScreenDoc.Proofs.Expansion.Shape
import ScreenDoc.Proofs.Expansion.Silent
import ScreenDoc.Proofs.Expansion.Sketch
import ScreenDoc.Proofs.Expansion.Trace
import ScreenDoc.Proofs.Expansion.Tracking
import ScreenDoc.Proofs.Expansion.Twin
import ScreenDoc.Proofs.Expr.Condition
import ScreenDoc.Proofs.Expr.Enclosed
import ScreenDoc.Proofs.Expr.Forms
import ScreenDoc.Proofs.Expr.Indexing
import ScreenDoc.Proofs.Expr.Operand
import ScreenDoc.Proofs.Expr.Operators
import ScreenDoc.Proofs.Expr.Outside
import ScreenDoc.Proofs.Expr.Overlay
import ScreenDoc.Proofs.Expr.Parts
import ScreenDoc.Proofs.Expr.PathWord
import ScreenDoc.Proofs.Expr.Placeholder
import ScreenDoc.Proofs.Expr.Plain
import ScreenDoc.Proofs.Expr.PlainPath
import ScreenDoc.Proofs.Expr.Quiet
import ScreenDoc.Proofs.Expr.Recorder
import ScreenDoc.Proofs.Expr.Shorter
import ScreenDoc.Proofs.Expr.Ternary
import ScreenDoc.Proofs.Expr.Within
import ScreenDoc.Proofs.History
import ScreenDoc.Proofs.Session.Agreement
import ScreenDoc.Proofs.Session.Coverage
import ScreenDoc.Proofs.Session.Handlers
import ScreenDoc.Proofs.Session.Lifetime
import ScreenDoc.Proofs.Session.Refinement
import ScreenDoc.Proofs.Session.Renewal
import ScreenDoc.Proofs.Session.Run
import ScreenDoc.Proofs.Session.WriteBack
import ScreenDoc.Proofs.Store.Fork
import ScreenDoc.Proofs.Store.Grammar
import ScreenDoc.Proofs.Store.Lengthened
import ScreenDoc.Proofs.Store.Membership
import ScreenDoc.Proofs.Store.Merge
import ScreenDoc.Proofs.Store.Mirror
import ScreenDoc.Proofs.Store.Notified
import ScreenDoc.Proofs.Store.ReadLaw
import ScreenDoc.Proofs.Store.Refusal
import ScreenDoc.Proofs.Store.Subscription
import ScreenDoc.Proofs.Store.Typed
import ScreenDoc.Proofs.Store.Unseen
import ScreenDoc.Proofs.Store.Write
import ScreenDoc.Proofs.Store.Written
import ScreenDoc.Proofs.Style.Fallback
import ScreenDoc.Proofs.Style.Layering
import ScreenDoc.Proofs.Style.Lineage
import ScreenDoc.Proofs.Text.Run
import ScreenDoc.Proofs.Value.Datum
import ScreenDoc.Proofs.Value.Fields
import ScreenDoc.Proofs.Value.Held
import ScreenDoc.Proofs.View.Growth
import ScreenDoc.Proofs.View.Held
import ScreenDoc.Proofs.View.Index
import ScreenDoc.Proofs.View.Links
import ScreenDoc.Proofs.View.Outermost
import ScreenDoc.Proofs.View.Outline
import ScreenDoc.Proofs.View.Picture
import ScreenDoc.Proofs.View.Update
import ScreenDoc.Session.Basic
import ScreenDoc.Store.Basic
import ScreenDoc.Store.Path
import ScreenDoc.Store.Reading
import ScreenDoc.Store.Scope
import ScreenDoc.Style.Chain
import ScreenDoc.Style.Final
import ScreenDoc.Style.Json
import ScreenDoc.Style.Layer
import ScreenDoc.Text.Blank
import ScreenDoc.Text.Hidden
import ScreenDoc.Text.Integer
import ScreenDoc.Text.Quoted
import ScreenDoc.Text.Split
import ScreenDoc.Value.Basic
import ScreenDoc.Value.Kind
import ScreenDoc.Value.Text
import ScreenDoc.View.Arena
import ScreenDoc.View.Basic
import ScreenDoc.View.Bound
import ScreenDoc.View.Dependency
import ScreenDoc.View.Problem
import ScreenDoc.View.Tree

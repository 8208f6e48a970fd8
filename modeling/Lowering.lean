import Lowering.Analysis.EarlyExit
import Lowering.Analysis.Thrown
import Lowering.Assoc
import Lowering.Decimal.Shortest
import Lowering.Digest.Xxh64
import Lowering.Emission.Basic
import Lowering.Emission.Body
import Lowering.Emission.Forms
import Lowering.Emission.Hoisting
import Lowering.Emission.Inlining
import Lowering.Emission.LiteralText
import Lowering.Emission.Naming
import Lowering.Failure
import Lowering.Function
import Lowering.Hierarchy.Basic
import Lowering.Hierarchy.Standard
import Lowering.Hierarchy.Subtyping
import Lowering.Host.HostType
import Lowering.Host.Primitive
import Lowering.Host.SourceName
import Lowering.Host.TypeHash
import Lowering.Settings
import Lowering.Sink.Basic
import Lowering.Sink.Entry
import Lowering.Sink.Scope
import Lowering.Text.CaseTable
import Lowering.Text.Identifier
import Lowering.Text.LowerCase
import Lowering.Text.Quoted
import Lowering.Tree.Builder
import Lowering.Tree.Descendants
import Lowering.Tree.Expr
import Lowering.Tree.Feature
import Lowering.Tree.Span
import Lowering.Tree.WrittenType
import Lowering.Typing.Context
import Lowering.Typing.Expectation
import Lowering.Typing.Infer
import Lowering.Typing.ResolvedTypes
import Lowering.Typing.States
import Lowering.Proofs.Aliases
import Lowering.Proofs.Catching
import Lowering.Proofs.Effects
import Lowering.Proofs.Emission.Bodies
import Lowering.Proofs.Emission.BodyLaws
import Lowering.Proofs.Emission.Course
import Lowering.Proofs.Emission.CourseEvents
import Lowering.Proofs.Emission.CourseOrder
import Lowering.Proofs.Emission.Entries
import Lowering.Proofs.Emission.Formulas
import Lowering.Proofs.Emission.Frames
import Lowering.Proofs.Emission.Growth
import Lowering.Proofs.Emission.Inline
import Lowering.Proofs.Emission.Inlining
import Lowering.Proofs.Emission.Lasting
import Lowering.Proofs.Emission.Laws
import Lowering.Proofs.Emission.Nodes
import Lowering.Proofs.Emission.Proposals
import Lowering.Proofs.Emission.SinkLaws
import Lowering.Proofs.Emission.StatementCourse
import Lowering.Proofs.Emission.StatementLaws
import Lowering.Proofs.Emission.Statements
import Lowering.Proofs.Emission.Steadiness
import Lowering.Proofs.Emission.ValueCourse
import Lowering.Proofs.Emission.Values
import Lowering.Proofs.Emission.Views
import Lowering.Proofs.Emission.Visibility
import Lowering.Proofs.Events
import Lowering.Proofs.Fields
import Lowering.Proofs.Framing
import Lowering.Proofs.FreshKeys
import Lowering.Proofs.GeneratedNames
import Lowering.Proofs.Hierarchy.Ancestors
import Lowering.Proofs.Hierarchy.Balance
import Lowering.Proofs.Hierarchy.Climbing
import Lowering.Proofs.Hierarchy.Join
import Lowering.Proofs.Hierarchy.Nearest
import Lowering.Proofs.Hierarchy.Order
import Lowering.Proofs.Hierarchy.UpperBound
import Lowering.Proofs.InPlace
import Lowering.Proofs.Indentation
import Lowering.Proofs.Lawful
import Lowering.Proofs.LocalTypes
import Lowering.Proofs.Locals
import Lowering.Proofs.OperandOrder
import Lowering.Proofs.Outcome
import Lowering.Proofs.Parameters
import Lowering.Proofs.Progress
import Lowering.Proofs.Regions
import Lowering.Proofs.Repetition
import Lowering.Proofs.Request
import Lowering.Proofs.Returns
import Lowering.Proofs.Running
import Lowering.Proofs.Scopes
import Lowering.Proofs.Signs
import Lowering.Proofs.Sink.Calls
import Lowering.Proofs.Sink.Declared
import Lowering.Proofs.Sink.Events
import Lowering.Proofs.Sink.Frames
import Lowering.Proofs.Sink.FreshName
import Lowering.Proofs.Sink.Growth
import Lowering.Proofs.Sink.Journal
import Lowering.Proofs.Sink.Regions
import Lowering.Proofs.Sink.Steps
import Lowering.Proofs.Text.Scanning
import Lowering.Proofs.Thrown
import Lowering.Proofs.TrailingReturn
import Lowering.Proofs.Tree.Occurrences
import Lowering.Proofs.Tree.Order
import Lowering.Proofs.Tree.Preorder
import Lowering.Proofs.Tree.Scoping
import Lowering.Proofs.Typing.Agreement
import Lowering.Proofs.Typing.Arena
import Lowering.Proofs.Typing.Branches
import Lowering.Proofs.Typing.Calls
import Lowering.Proofs.Typing.Classification
import Lowering.Proofs.Typing.Coherence
import Lowering.Proofs.Typing.Conformance
import Lowering.Proofs.Typing.Coverage
import Lowering.Proofs.Typing.Fitting
import Lowering.Proofs.Typing.Instances
import Lowering.Proofs.Typing.Invariants
import Lowering.Proofs.Typing.Judgement
import Lowering.Proofs.Typing.Locals
import Lowering.Proofs.Typing.Mentions
import Lowering.Proofs.Typing.Offers
import Lowering.Proofs.Typing.Recording
import Lowering.Proofs.Typing.Refusals
import Lowering.Proofs.Typing.Rules
import Lowering.Proofs.Typing.Scoping
import Lowering.Proofs.Typing.Soundness
import Lowering.Proofs.Typing.StateChain
import Lowering.Proofs.Typing.StateTree
import Lowering.Proofs.Typing.Strictness
import Lowering.Proofs.Wrapping

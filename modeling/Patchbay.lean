import Patchbay.Number.Sum
import Patchbay.Json.Printer
import Patchbay.Json.Reader
import Patchbay.Constraint.Wire
import Patchbay.Constraint.Intersect
import Patchbay.Pad.Wire
import Patchbay.Config
import Patchbay.Node.Builtin.Property
import Patchbay.Node.Builtin.Ticker
import Patchbay.Node.Builtin.Passthrough
import Patchbay.Node.Builtin.Join
import Patchbay.Node.Builtin.Compare
import Patchbay.Edit.Wire
import Patchbay.Library
import Patchbay.Graph.State
import Patchbay.Graph.Basic
import Patchbay.Node.Scripted
import Patchbay.Snapshot.Builder
import Patchbay.Context.Timeline
import Patchbay.Run.Event
import Patchbay.Run.DataRequest
import Patchbay.Service.Registry
import Patchbay.Service.Transport
import Patchbay.Host.Cli
import Patchbay.Pad.Table
import Patchbay.Run.Wiring
import Patchbay.Run.Lifecycle
import Patchbay.Run.DataPlane
import Patchbay.Json.Expected
import Patchbay.Run.Process
import Patchbay.Run.Control
import Patchbay.Main
import Patchbay.Proofs.Graph.LinkTable
import Patchbay.Proofs.Graph.Nesting
import Patchbay.Proofs.Graph.Orderly
import Patchbay.Proofs.Constraint.Same
import Patchbay.Proofs.Json.Fields
import Patchbay.Proofs.Node.Builtin
import Patchbay.Proofs.Graph.Passes
import Patchbay.Proofs.Graph.Narrowing
import Patchbay.Proofs.Graph.WellFormed
import Patchbay.Proofs.Graph.Operations
import Patchbay.Proofs.Graph.Atomic
import Patchbay.Proofs.Constraint.Plain
import Patchbay.Proofs.Graph.Order
import Patchbay.Proofs.Graph.Above
import Patchbay.Proofs.Graph.Lookup
import Patchbay.Proofs.Graph.NarrowingStart
import Patchbay.Proofs.Graph.Settled
import Patchbay.Proofs.Graph.Copies
import Patchbay.Proofs.Graph.Proxies
import Patchbay.Proofs.Graph.ColdStart
import Patchbay.Proofs.Graph.Storing
import Patchbay.Proofs.Graph.Reload
import Patchbay.Proofs.Graph.RoundTrip
import Patchbay.Proofs.Json.Tokens
import Patchbay.Proofs.Json.Text
import Patchbay.Proofs.Json.Reordering
import Patchbay.Proofs.Constraint.Codec
import Patchbay.Proofs.Snapshot.Codec
import Patchbay.Proofs.Snapshot.Text
import Patchbay.Proofs.Graph.Undo
import Patchbay.Proofs.Graph.Cycles
import Patchbay.Proofs.Constraint.Permits
import Patchbay.Proofs.Constraint.Laws
import Patchbay.Proofs.Graph.Groups
import Patchbay.Proofs.Constraint.Meet
import Patchbay.Proofs.Constraint.Definite
import Patchbay.Proofs.Node.Definite
import Patchbay.Proofs.Graph.FixedPoint
import Patchbay.Proofs.Graph.Mirrors
import Patchbay.Proofs.Graph.Routes
import Patchbay.Proofs.Graph.Flattening
import Patchbay.Proofs.Constraint.Slim
import Patchbay.Proofs.Node.Steady
import Patchbay.Proofs.Graph.Cascade
import Patchbay.Proofs.Graph.Memory
import Patchbay.Proofs.Graph.Settling
import Patchbay.Proofs.Graph.Memoryless
import Patchbay.Proofs.Node.Heeds
import Patchbay.Proofs.Graph.Cut
import Patchbay.Proofs.Graph.Sights
import Patchbay.Proofs.Graph.Carried
import Patchbay.Proofs.Graph.Retreat
import Patchbay.Proofs.Constraint.Under
import Patchbay.Proofs.Node.Flow
import Patchbay.Proofs.Graph.Plans
import Patchbay.Proofs.Graph.Resting
import Patchbay.Proofs.Graph.Behind
import Patchbay.Proofs.Graph.Floor
import Patchbay.Proofs.Graph.Sinks
import Patchbay.Proofs.Graph.Timetable
import Patchbay.Proofs.Graph.Pacing
import Patchbay.Proofs.Graph.Success
import Patchbay.Proofs.Graph.Ceiling
import Patchbay.Proofs.Graph.Tuning
import Patchbay.Proofs.Graph.Certainty
import Patchbay.Proofs.Graph.Loading
import Patchbay.Proofs.Graph.Forward
import Patchbay.Proofs.Graph.Between
import Patchbay.Proofs.Graph.Retracing
import Patchbay.Proofs.Graph.Disconnect
import Patchbay.Proofs.Context.Joins
import Patchbay.Proofs.Context.Firings
import Patchbay.Proofs.Context.Settled
import Patchbay.Proofs.Run.Evolution
import Patchbay.Proofs.Run.Endings
import Patchbay.Proofs.Run.Keeps
import Patchbay.Proofs.Run.Moves
import Patchbay.Proofs.Run.Serving
import Patchbay.Proofs.Run.Answers
import Patchbay.Proofs.Run.Traffic
import Patchbay.Proofs.Run.Accounts
import Patchbay.Proofs.Run.Delivery
import Patchbay.Proofs.Run.Addresses
import Patchbay.Proofs.Graph.FreshIds
import Patchbay.Proofs.Graph.Prefixes
import Patchbay.Proofs.Graph.Dissolving
import Patchbay.Proofs.Graph.Dissolved
import Patchbay.Proofs.Constraint.Finer
import Patchbay.Proofs.Graph.Honoured
import Patchbay.Proofs.Trace
import Patchbay.Proofs.Zipper
import Patchbay.Proofs.Snapshot.Reordering
import Patchbay.Proofs.Edit.Codec
import Patchbay.Proofs.Graph.Remarks
import Patchbay.Proofs.Graph.Stores
import Patchbay.Proofs.Graph.Echoes
import Patchbay.Proofs.Graph.Writing
import Patchbay.Proofs.Context.Snoozing
import Patchbay.Proofs.Snapshot.Building
import Patchbay.Proofs.Number.Rounding
import Patchbay.Proofs.Node.Comparing
import Patchbay.Proofs.Number.Shortest
import Patchbay.Proofs.Number.Layouts
import Patchbay.Proofs.Constraint.Renderings
import Patchbay.Proofs.Constraint.Canonical
import Patchbay.Proofs.Constraint.Swapping
import Patchbay.Proofs.Constraint.Absorbing
import Patchbay.Proofs.Constraint.Products
import Patchbay.Proofs.Graph.Saturation
import Patchbay.Proofs.Graph.TopologicalOrder
import Patchbay.Proofs.Number.Numerals
import Patchbay.Proofs.Run.Inputs
import Patchbay.Proofs.Run.Apart
import Patchbay.Proofs.Run.Slots

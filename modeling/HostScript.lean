import HostScript.OrderedMap
import HostScript.Number.Text
import HostScript.Number.Numeral
import HostScript.Number.Word
import HostScript.Number.Arithmetic
import HostScript.Text.Units
import HostScript.Text.Quoted
import HostScript.Syntax.Code
import HostScript.Heap.Environment
import HostScript.Value.Property
import HostScript.Value.Inspect
import HostScript.Value.Operation
import HostScript.Run.Action
import HostScript.Run.Evaluate
import HostScript.Run.Call
import HostScript.Host.Library
import HostScript.Json.Parser
import HostScript.Json.Printer
import HostScript.Tree.Reader
import HostScript.Syntax.Check
import HostScript.Script.Basic
import HostScript.Tree.Build
import HostScript.Proofs.OrderedMap
import HostScript.Proofs.Syntax.Names
import HostScript.Proofs.Value.Alike
import HostScript.Proofs.Heap.Counting
import HostScript.Proofs.Heap.Reach
import HostScript.Proofs.Heap.Cleanup
import HostScript.Proofs.Heap.Frames
import HostScript.Proofs.Heap.Growth
import HostScript.Proofs.Heap.Grounded
import HostScript.Proofs.Heap.Access
import HostScript.Proofs.Heap.HostLayer
import HostScript.Proofs.Run.Lockstep
import HostScript.Proofs.Run.Places
import HostScript.Proofs.Run.Evaluation
import HostScript.Proofs.Run.Calls
import HostScript.Proofs.Host.Locality
import HostScript.Proofs.Run.Locality
import HostScript.Proofs.Host.Frames
import HostScript.Proofs.Run.Lineage
import HostScript.Proofs.Run.Layers
import HostScript.Proofs.Run.Activations
import HostScript.Proofs.Script.Cleanup
import HostScript.Proofs.Script.Body
import HostScript.Proofs.Script.Driver
import HostScript.Proofs.Script.Naming
import HostScript.Proofs.Syntax.Grammar
import HostScript.Proofs.Run.Outcome
import HostScript.Proofs.Run.Signals
import HostScript.Proofs.Run.Steps
import HostScript.Proofs.Script.Abrupt
import HostScript.Proofs.Syntax.Mentions
import HostScript.Proofs.Value.Renaming
import HostScript.Proofs.Value.Yield
import HostScript.Proofs.Value.Resemblance
import HostScript.Proofs.Value.Nesting
import HostScript.Proofs.Run.Tandem
import HostScript.Proofs.Heap.Renaming
import HostScript.Proofs.Host.Renaming
import HostScript.Proofs.Run.Relocation
import HostScript.Proofs.Script.Ready
import HostScript.Proofs.Run.Sealed
import HostScript.Proofs.Run.Handover
import HostScript.Proofs.Script.Handover
import HostScript.Proofs.Script.Appended
import HostScript.Proofs.Number.Whole
import HostScript.Proofs.Run.Updates
import HostScript.Proofs.Tree.Format
import HostScript.Proofs.Tree.Table
import HostScript.Proofs.Tree.Leaves
import HostScript.Proofs.Tree.Reading
import HostScript.Proofs.Tree.Sameness
import HostScript.Proofs.Tree.Alike
import HostScript.Proofs.Tree.Dependence
import HostScript.Proofs.Tree.Loading
import HostScript.Proofs.Session.Handles
import HostScript.Proofs.Session.Operations
import HostScript.Proofs.Session.Invariant
import HostScript.Proofs.Session.Host
import HostScript.Proofs.Session.Runs
import HostScript.Proofs.Session.Parts
import HostScript.Proofs.Session.Events
import HostScript.Proofs.Session.Environments
import HostScript.Proofs.Session.Resolution
import HostScript.Proofs.Number.Parts
import HostScript.Proofs.Number.Rounding
import HostScript.Proofs.Number.Count
import HostScript.Proofs.Number.Shortest
import HostScript.Proofs.Number.Digits
import HostScript.Proofs.Number.Numerals
import HostScript.Proofs.Value.Writing
import HostScript.Proofs.Heap.Definitions
import HostScript.Proofs.Run.Cells
import HostScript.Proofs.Run.Compound
import HostScript.Proofs.Run.Deferred
import HostScript.Proofs.Run.Unshadowed
import HostScript.Proofs.Run.ReadBack
import HostScript.Proofs.Run.Templates
import HostScript.Proofs.Run.Loops
import HostScript.Proofs.Run.Switches
import HostScript.Proofs.Run.Blocks
import HostScript.Proofs.Run.Limits
import HostScript.Proofs.Value.Keys
import HostScript.Proofs.Run.KeyLoops
import HostScript.Proofs.Value.Indices
import HostScript.Proofs.Run.Subscripts
import HostScript.Proofs.Value.Stores
import HostScript.Proofs.Value.Enumeration
import HostScript.Proofs.Run.Growth
import HostScript.Proofs.Run.Arguments
import HostScript.Proofs.Text.Units
import HostScript.Proofs.Value.Strings
import HostScript.Proofs.Number.Order
import HostScript.Proofs.Number.Nearest
import HostScript.Proofs.Number.Literals
import HostScript.Proofs.Number.Decimals
import HostScript.Proofs.Text.Trim
import HostScript.Proofs.Number.Reading
import HostScript.Proofs.Number.Radix
import HostScript.Proofs.Number.RoundTrip
import HostScript.Proofs.Value.Numbers
import HostScript.Proofs.Value.Comparison
import HostScript.Proofs.Heap.Cells
import HostScript.Proofs.Heap.Cycles
import HostScript.Proofs.Value.Equality
import HostScript.Proofs.Value.Contents
import HostScript.Proofs.Value.StructuralEquality
import HostScript.Proofs.Run.ArrayCycles
import HostScript.Proofs.Number.Truncation
import HostScript.Proofs.Value.Words

import CilWeave.Assembler
import CilWeave.Attribute.Decoding
import CilWeave.Attribute.Encoding
import CilWeave.Attribute.Value
import CilWeave.Blob.Cursor
import CilWeave.Body.Basic
import CilWeave.Body.Layout
import CilWeave.Body.Listing
import CilWeave.Body.WellFormed
import CilWeave.Decimal.Binary
import CilWeave.Decimal.Numeral
import CilWeave.Decimal.Shortest
import CilWeave.Decimal.Stored
import CilWeave.Definition.Basic
import CilWeave.Definition.Construction
import CilWeave.Definition.Flags
import CilWeave.Definition.Module
import CilWeave.Image.Attribute
import CilWeave.Image.Basic
import CilWeave.Image.Code
import CilWeave.Image.Definition
import CilWeave.Image.Machine
import CilWeave.Image.Mixin
import CilWeave.Image.Report
import CilWeave.Image.Signature
import CilWeave.Instruction
import CilWeave.Json.Basic
import CilWeave.Json.Numeral
import CilWeave.Json.Reading
import CilWeave.Json.Writing
import CilWeave.Machine.Carrier
import CilWeave.Machine.Fault
import CilWeave.Machine.Run
import CilWeave.Machine.State
import CilWeave.Machine.Step
import CilWeave.Machine.Value
import CilWeave.Mixin.Annotations
import CilWeave.Mixin.Application
import CilWeave.Mixin.Callback
import CilWeave.Mixin.Config
import CilWeave.Mixin.Descriptor
import CilWeave.Mixin.Fault
import CilWeave.Mixin.Locating
import CilWeave.Mixin.Rehoming
import CilWeave.Mixin.Weave
import CilWeave.Opcode
import CilWeave.Proofs.Body.Position
import CilWeave.Proofs.Body.Redirection
import CilWeave.Proofs.Body.Soundness
import CilWeave.Proofs.Body.Widening
import CilWeave.Proofs.Machine.Action
import CilWeave.Proofs.Machine.Activation
import CilWeave.Proofs.Machine.StackEffect
import CilWeave.Proofs.Machine.Trace
import CilWeave.Proofs.Mixin.Cancellation
import CilWeave.Proofs.Mixin.Carriers
import CilWeave.Proofs.Mixin.Growth
import CilWeave.Proofs.Mixin.InjectedCode
import CilWeave.Proofs.Mixin.InjectedRun
import CilWeave.Proofs.Mixin.Injection
import CilWeave.Proofs.Mixin.Interposition
import CilWeave.Proofs.Mixin.Layering
import CilWeave.Proofs.Mixin.Locating
import CilWeave.Proofs.Mixin.Operations
import CilWeave.Proofs.Mixin.PointDepth
import CilWeave.Proofs.Mixin.Refinement
import CilWeave.Proofs.Mixin.Resolution
import CilWeave.Proofs.Mixin.Returning
import CilWeave.Proofs.Mixin.Simulation
import CilWeave.Proofs.Mixin.Splicing
import CilWeave.Proofs.StackDepth.Search
import CilWeave.Proofs.StackDepth.Soundness
import CilWeave.Proofs.Stateful
import CilWeave.Proofs.Store.Loading
import CilWeave.Signature.Basic
import CilWeave.Signature.Describe
import CilWeave.Signature.Names
import CilWeave.StackDepth
import CilWeave.Store.Disk
import CilWeave.Store.Module
import CilWeave.Table
import CilWeave.Text.Hexadecimal
import CilWeave.Text.Hidden
import CilWeave.Text.Quoted
import CilWeave.Text.Split
import CilWeave.Proofs.Mixin.WovenBodies
import CilWeave.Proofs.StackDepth.Assignment
import CilWeave.Proofs.StackDepth.Consistency
import CilWeave.Proofs.Mixin.WovenDepth
import CilWeave.Proofs.Signature.Names
import CilWeave.Proofs.Mixin.Failures
import CilWeave.Proofs.Mixin.Frame
import CilWeave.Proofs.Mixin.WovenVerification
import CilWeave.Proofs.Blob.Reading
import CilWeave.Proofs.Attribute.Shape
import CilWeave.Proofs.Attribute.RoundTrip
import CilWeave.Proofs.Blob.Outcome
import CilWeave.Proofs.Attribute.Normalisation
import CilWeave.Proofs.Mixin.Outline
import CilWeave.Proofs.Mixin.Accounting
import CilWeave.Proofs.Mixin.MemberNames
import CilWeave.Proofs.Mixin.Operands
import CilWeave.Proofs.Mixin.References
import CilWeave.Proofs.Signature.Alike
import CilWeave.Proofs.Signature.MovedNames
import CilWeave.Proofs.Mixin.Binding
import CilWeave.Proofs.Mixin.Interfaces
import CilWeave.Proofs.Mixin.RecordedInterfaces
import CilWeave.Proofs.Mixin.TypeReferences
import CilWeave.Proofs.Mixin.Closure
import CilWeave.Proofs.Mixin.Overwriting
import CilWeave.Proofs.Mixin.Calls
import CilWeave.Proofs.Mixin.Reinjection
import CilWeave.Proofs.Mixin.Composition
import CilWeave.Proofs.Mixin.WovenAssignment
import CilWeave.Proofs.Mixin.CancelledDepth
import CilWeave.Proofs.Mixin.ConsistentMethods
import CilWeave.Proofs.Mixin.Together
import CilWeave.Proofs.Mixin.HelperCalls
import CilWeave.Proofs.Mixin.Counters
import CilWeave.Proofs.Mixin.Resuming
import CilWeave.Proofs.Store.Reloading
import CilWeave.Proofs.StackDepth.Discipline
import CilWeave.Proofs.Body.Relaxation
import CilWeave.Proofs.Mixin.Insertion
import CilWeave.Proofs.Assembler.Labels
import CilWeave.Proofs.Body.Listing
import CilWeave.Proofs.Mixin.CapturedFields
import CilWeave.Proofs.Machine.Budget
import CilWeave.Proofs.Machine.Nesting
import CilWeave.Proofs.Machine.Sessions
import CilWeave.Proofs.Attribute.Bounds
import CilWeave.Proofs.Blob.Advancing
import CilWeave.Proofs.Machine.RaisedLimits
import CilWeave.Proofs.Machine.Slots
import CilWeave.Proofs.Machine.Addresses
import CilWeave.Proofs.Text.Ends
import CilWeave.Proofs.Signature.Legible
import CilWeave.Proofs.Mixin.FieldOrder
import CilWeave.Proofs.Mixin.Restating
import CilWeave.Proofs.Mixin.Refusals
import CilWeave.Proofs.Definition.Spelling
import CilWeave.Proofs.Machine.Reporting
import CilWeave.Proofs.Mixin.ReturnPoints

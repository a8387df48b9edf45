import JavaClass.CommandLine.Directory
import JavaClass.Main
import JavaClass.Proofs.Attribute.Dispatch
import JavaClass.Proofs.Enhancement.Atomicity
import JavaClass.Proofs.Enhancement.Completeness
import JavaClass.Proofs.Enhancement.Interfaces
import JavaClass.Proofs.Enhancement.Repetition
import JavaClass.Proofs.Format.Delimiting
import JavaClass.Proofs.Enhancement.Operations
import JavaClass.Proofs.Pool.Representation
import JavaClass.Proofs.Enhancement.Capacity
import JavaClass.Proofs.Enhancement.Integrity
import JavaClass.Proofs.Enhancement.AccessorLookup
import JavaClass.Proofs.Code.OperandStack
import JavaClass.Proofs.Enhancement.AccessorCalls
import JavaClass.Proofs.Comparison
import JavaClass.Proofs.Attribute.Coverage
import JavaClass.Proofs.Enhancement.Uniqueness
import JavaClass.Proofs.Code.Acceptance
import JavaClass.Proofs.Code.Passes
import JavaClass.Proofs.Code.Shift
import JavaClass.Proofs.Enhancement.Commutation
import JavaClass.Proofs.Code.Disassembly
import JavaClass.Proofs.Code.EditOrder
import JavaClass.Proofs.Code.Strictness
import JavaClass.Proofs.Attribute.Unedited
import JavaClass.Proofs.Code.Frames
import JavaClass.Proofs.Attribute.Debugging
import JavaClass.Proofs.Attribute.Exactness
import JavaClass.Proofs.Pool.Rollback
import JavaClass.Proofs.Pool.Contract
import JavaClass.Proofs.Enhancement.AccessorBodies
import JavaClass.Proofs.Enhancement.UnknownFields
import JavaClass.Proofs.Enhancement.Fulfilled

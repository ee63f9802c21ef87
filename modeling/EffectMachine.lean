import EffectMachine.Assembly
import EffectMachine.CoreNatives
import EffectMachine.Execution
import EffectMachine.Library
import EffectMachine.Link
import EffectMachine.Proofs.CollectionCopy
import EffectMachine.Proofs.CollectionSafety
import EffectMachine.Proofs.ContextDiscipline
import EffectMachine.Proofs.HeapRefinement
import EffectMachine.Proofs.SizeIndependence
import EffectMachine.Proofs.EffectOperations
import EffectMachine.Proofs.FrameStack
import EffectMachine.Proofs.HandlerExits
import EffectMachine.Proofs.HandlerLookup
import EffectMachine.Proofs.SlowPath
import EffectMachine.Proofs.TriggerReturns
import EffectMachine.Proofs.CallDiscipline
import EffectMachine.Proofs.ImportClosure
import EffectMachine.Proofs.LinkCompletion
import EffectMachine.Proofs.LinkAcceptance
import EffectMachine.Proofs.LinkedDispatch
import EffectMachine.Proofs.Resumption
import EffectMachine.Proofs.ImportOrder
import EffectMachine.Proofs.InstructionCodec
import EffectMachine.Proofs.InstructionStream
import EffectMachine.Proofs.LinkedCode
import EffectMachine.Proofs.PackageConfinement
import EffectMachine.Proofs.AssembledCode
import EffectMachine.Proofs.LinkedStream
import EffectMachine.Proofs.MachineSizes
import EffectMachine.Proofs.MarkerSafety
import EffectMachine.Proofs.JsonText
import EffectMachine.Proofs.ObjectRoundTrip
import EffectMachine.Proofs.PackageFiles
import EffectMachine.Proofs.StartCode
import EffectMachine.Proofs.StartUp
import EffectMachine.Proofs.PackedDispatch
import EffectMachine.Proofs.Allocation
import EffectMachine.Proofs.AppendedPackage
import EffectMachine.Proofs.SymbolicOperands
import EffectMachine.Proofs.ListingOrder
import EffectMachine.Proofs.CollectionBounds
import EffectMachine.Proofs.StringObjects
import EffectMachine.Proofs.CollectionGrowth
import EffectMachine.Proofs.HeapAccounts
import EffectMachine.Proofs.FirstFit

import CallPath.Session.Run
import CallPath.Proofs.Footprint
import CallPath.Proofs.OpenCalls
import CallPath.Proofs.Unwinding
import CallPath.Proofs.EventLog
import CallPath.Proofs.Refusals
import CallPath.Proofs.Discipline
import CallPath.Proofs.Recasting
import CallPath.Proofs.FrameRule
import CallPath.Proofs.EntryLimit
import CallPath.Proofs.LimitTransparency
import CallPath.Proofs.HandleFlow
import CallPath.Proofs.ByHand
import CallPath.Proofs.Bookkeeping
import CallPath.Proofs.HandleConservation
import CallPath.Proofs.Opacity
import CallPath.Proofs.BothEnds
import CallPath.Proofs.FullSinks
import CallPath.Proofs.Alongside
import CallPath.Proofs.Bindings
import CallPath.Proofs.Turns
import CallPath.Proofs.Copies
import CallPath.Proofs.ReadingBack
import CallPath.Proofs.GuardedRecursion
import CallPath.Proofs.CallerChain
import CallPath.Proofs.SilentExits
import CallPath.Proofs.CallSequences
import CallPath.Proofs.Brackets
import CallPath.Proofs.BracketedCalls
import CallPath.Proofs.Retargeting
import CallPath.Proofs.TracedDepths
import CallPath.Proofs.Wording
import CallPath.Proofs.MachineWords

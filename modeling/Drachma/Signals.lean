import Drachma.Scheduler
import Drachma.Specs

/-!
# The signal context

Components do not read each other's output signals.  They read the copies the
`signalContext` took of them when it was last refreshed, so every signal arrives
one cycle late, and the order in which the components of a cycle are stepped
should not matter.

`PrcOutputs`, `IcapOutputs` and `RrcOutputs` are the signals a refresh copies;
`SignalContext` holds the copies, and the bitstream and task handles it was
given when it was constructed.  A handle is a `std::shared_ptr`: it is copied at
wiring time, and whatever its owner assigns to the original later is not seen
through the copy.
-/

namespace Drachma

/-- The output signals of the PRC. -/
structure PrcOutputs (n : ℕ) where
  memoryCounter : ℕ
  icapReq : Bool
  prrStart : Bus n Bool
  prrEnqueue : Bus n Bool

/-- The output signals of the ICAP. -/
structure IcapOutputs (n : ℕ) where
  memoryCounter : ℕ
  prcAck : Bool
  prrCtrlReq : Bus n Bool
  transferring : Bool
  targetRr : ℕ

/-- The output signals of an RR controller. -/
structure RrcOutputs where
  prrExecuting : Bool
  prcAck : Bool
  icapAck : Bool
  bitstreamId : ℕ

/-- The signals of the ICAP, by name. -/
inductive IcapSignal
  | mc
  | prcAck
  | prrReq
  | transferPrr
  | targetRr
deriving DecidableEq, Repr

/-- `signalContext`. -/
structure SignalContext (n : ℕ) (Node : Type) where
  storedRrcBitstream : Bus n ℕ
  storedPrrExecuting : Bus n Bool
  storedPrrPrcAck : Bool
  storedPrrIcapAck : Bool
  storedPrcMc : ℕ
  storedPrcIcapReq : Bool
  storedPrcEnqueuePrr : Bus n Bool
  storedPrcStartPrr : Bus n Bool
  storedIcapMc : ℕ
  storedIcapPrcAck : Bool
  storedIcapPrrCtrlReq : Bus n Bool
  storedIcapTransfer : Bool
  storedIcapTargetRr : ℕ
  prcCurrentTask : Option Node
  prcScheduledBs : Option (ModuleSpec Double)
  icapTransferBs : Option (ModuleSpec Double)

namespace SignalContext

variable {n : ℕ} {Node : Type}

/-- The constructor.  `raw` is what the memory held: the memory counters and the
target RR are not initialised.  The handles are the ones the components hold at
that time. -/
def new (raw : SignalContext n Node) (prcCurrentTask : Option Node)
    (prcScheduledBs icapTransferBs : Option (ModuleSpec Double)) :
    SignalContext n Node :=
  { raw with
    storedRrcBitstream := fun _ => unsignedMinusOne
    storedPrrExecuting := fun _ => false
    storedPrrPrcAck := false
    storedPrrIcapAck := false
    storedPrcIcapReq := false
    storedPrcEnqueuePrr := fun _ => false
    storedPrcStartPrr := fun _ => false
    storedIcapPrcAck := false
    storedIcapPrrCtrlReq := fun _ => false
    storedIcapTransfer := false
    prcCurrentTask := prcCurrentTask
    prcScheduledBs := prcScheduledBs
    icapTransferBs := icapTransferBs }

/-- `accessContextSignal(icapSignal)`: what the returned pointer points at, and
`none` where it is the null pointer. -/
def accessContextSignal (ctx : SignalContext n Node) : IcapSignal → Option Bool
  | .prcAck => some ctx.storedIcapPrcAck
  | .transferPrr => some ctx.storedIcapTransfer
  | _ => none

/-- `refreshContext`: copy every output signal.  The acknowledgements of the RR
controllers are ORed onto one bus. -/
def refreshContext (ctx : SignalContext n Node) (prc : PrcOutputs n)
    (icap : IcapOutputs n) (rrc : Fin n → RrcOutputs) : SignalContext n Node :=
  { ctx with
    storedPrcMc := prc.memoryCounter
    storedPrcIcapReq := prc.icapReq
    storedPrcStartPrr := prc.prrStart
    storedPrcEnqueuePrr := prc.prrEnqueue
    storedIcapMc := icap.memoryCounter
    storedIcapPrcAck := icap.prcAck
    storedIcapTransfer := icap.transferring
    storedIcapPrrCtrlReq := icap.prrCtrlReq
    storedIcapTargetRr := icap.targetRr
    storedPrrPrcAck := decide (∃ i, (rrc i).prcAck = true)
    storedPrrIcapAck := decide (∃ i, (rrc i).icapAck = true)
    storedPrrExecuting := fun i => (rrc i).prrExecuting
    storedRrcBitstream := fun i => (rrc i).bitstreamId }

/-- A signal context before it is constructed. -/
def rawContext {n : ℕ} {Node : Type} : SignalContext n Node :=
  { storedRrcBitstream := fun _ => 0
    storedPrrExecuting := fun _ => false
    storedPrrPrcAck := false
    storedPrrIcapAck := false
    storedPrcMc := 0
    storedPrcIcapReq := false
    storedPrcEnqueuePrr := fun _ => false
    storedPrcStartPrr := fun _ => false
    storedIcapMc := 0
    storedIcapPrcAck := false
    storedIcapPrrCtrlReq := fun _ => false
    storedIcapTransfer := false
    storedIcapTargetRr := 0
    prcCurrentTask := none
    prcScheduledBs := none
    icapTransferBs := none }

end SignalContext

end Drachma

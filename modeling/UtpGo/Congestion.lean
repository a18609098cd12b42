/-
UtpGo/Congestion.lean

The congestion controller: `congestion.go`.  It keeps one record for every
sequence number transmitted, the bytes in flight (`windowSizeBytes`) and the
limit for them (`maxWindowSizeBytes`), which acknowledgements raise and
losses and timeouts lower.

The adjustment of the limit is computed in double precision.  Its operations
are those of the class `Float64`, of which nothing is assumed, so every
result holds however they round; elsewhere the source converts to floats and
back only to take a minimum or a maximum of integers below `2 ^ 53`, or to
divide one by a power of two, and the model computes with integers.
-/
import UtpGo.Basic
import UtpGo.OrdMap

namespace UtpGo

/-- The double-precision operations of `computeMaxWindowSizeAdjustment`. -/
class Float64 where
  carrier : Type
  ofInt : Int → carrier
  ofFloat32 : ℚ → carrier
  mul : carrier → carrier → carrier
  div : carrier → carrier → carrier
  toInt64 : carrier → Int

/-- Exact arithmetic, which agrees with the machine's wherever no rounding
takes place. -/
@[reducible] def exactFloat64 : Float64 where
  carrier := ℚ
  ofInt := fun x => x
  ofFloat32 := fun x => x
  mul := fun x y => x * y
  div := fun x y => x / y
  toInt64 := fun x => x.num.tdiv x.den

/-- Reduction to the range of an `int64`. -/
def int64 (x : Int) : Int := x.bmod (2 ^ 64)

inductive Transmit where
  | initial
  | retransmission
  deriving DecidableEq, Repr

structure PacketRecord where
  sizeBytes : Uint32
  numTransmissions : Uint32
  acked : Bool
  deriving DecidableEq, Repr

structure Ack where
  delay : Duration
  rtt : Int
  receivedAt : Time

structure CtrlConfig where
  targetDelayMicros : Uint32
  initialTimeout : Duration
  minTimeout : Duration
  maxTimeout : Duration
  maxPacketSizeBytes : Uint32
  maxWindowSizeIncBytes : Uint32
  gain : ℚ
  delayWindow : Duration
  windowSize : Uint32

def millisecond : Duration := 1000000
def second : Duration := 1000000000

/-- `Duration.Microseconds` and `Duration.Milliseconds` truncate. -/
def microseconds (d : Int) : Int := d.tdiv 1000
def milliseconds (d : Int) : Int := d.tdiv 1000000

def defaultMaxPacketSizeBytes : Nat := 1024

def defaultCtrlConfig : CtrlConfig where
  targetDelayMicros := 100000
  initialTimeout := 4 * second
  minTimeout := 500 * millisecond
  maxTimeout := 60 * second
  maxPacketSizeBytes := defaultMaxPacketSizeBytes
  maxWindowSizeIncBytes := defaultMaxPacketSizeBytes
  gain := 1
  delayWindow := 120 * second
  windowSize := 0

/-! ### Delays -/

structure Delay where
  value : Duration
  deadline : Time

/-- The heap of delays, as a list in increasing order of values. -/
structure DelayAccumulator where
  delays : List Delay
  window : Duration

namespace DelayAccumulator

def push (da : DelayAccumulator) (delayTime : Duration) (receivedAt : Time) : DelayAccumulator :=
  let d : Delay := { value := delayTime, deadline := receivedAt + da.window }
  { da with delays := da.delays.takeWhile (·.value < delayTime) ++
      d :: da.delays.dropWhile (·.value < delayTime) }

/-- The smallest delay that has not expired; those before it are dropped. -/
def baseDelay (da : DelayAccumulator) (now : Time) : DelayAccumulator × Duration :=
  let delays := da.delays.dropWhile fun d => d.deadline < now
  ({ da with delays }, (delays.head?.map (·.value)).getD 0)

end DelayAccumulator

/-! ### Adjustments -/

def computeMaxWindowSizeAdjustment [Float64] (targetDelayMicros baseDelayMicros packetDelayMicros
    windowSizeBytes packetSizeBytes maxWindowSizeIncBytes : Uint32) (gain : ℚ) : Int :=
  let delayMicros : Int := packetDelayMicros.toNat - baseDelayMicros.toNat
  let offTargetMicros : Int := targetDelayMicros.toNat - delayMicros
  let delayFactor := Float64.div (Float64.ofInt offTargetMicros)
    (Float64.ofInt targetDelayMicros.toNat)
  let windowFactor := Float64.div (Float64.ofInt packetSizeBytes.toNat)
    (Float64.ofInt windowSizeBytes.toNat)
  let scaledGain := Float64.mul (Float64.mul (Float64.mul (Float64.ofFloat32 gain)
    (Float64.ofInt maxWindowSizeIncBytes.toNat)) delayFactor) windowFactor
  Float64.toInt64 scaledGain

def computeRTTAdjustment (rttMicros packetRTTMicros : Int) : Int :=
  (packetRTTMicros - rttMicros).tdiv 8

def computeRTTVarianceAdjustment (rttMicros rttVarianceMicros packetRTTMicros : Int) : Int :=
  (|rttMicros - packetRTTMicros| - rttVarianceMicros).tdiv 4

/-! ### Controller -/

structure DefaultController where
  targetDelayMicros : Uint32
  timeout : Duration
  minTimeout : Duration
  maxTimeout : Duration
  windowSizeBytes : Uint32
  maxWindowSizeBytes : Uint32
  minWindowSizeBytes : Uint32
  maxWindowSizeIncBytes : Uint32
  gain : ℚ
  rtt : Duration
  rttVarianceMicros : Int
  transmissions : OrdMap Uint16 PacketRecord
  delayAcc : DelayAccumulator

def newDefaultController (config : CtrlConfig) : DefaultController where
  targetDelayMicros := config.targetDelayMicros
  timeout := config.initialTimeout
  minTimeout := config.minTimeout
  maxTimeout := config.maxTimeout
  windowSizeBytes := 0
  maxWindowSizeBytes := 2 * config.maxPacketSizeBytes
  minWindowSizeBytes := 2 * config.maxPacketSizeBytes
  maxWindowSizeIncBytes := config.maxWindowSizeIncBytes
  gain := config.gain
  rtt := 0
  rttVarianceMicros := 0
  transmissions := .empty
  delayAcc := { delays := [], window := config.delayWindow }

namespace DefaultController

def bytesAvailableInWindow (c : DefaultController) : Uint32 :=
  if c.maxWindowSizeBytes > c.windowSizeBytes then c.maxWindowSizeBytes - c.windowSizeBytes else 0

/-- The end of `OnTransmit`: a first transmission is charged to the window. -/
def charge (c : DefaultController) (packetInst : PacketRecord) :
    DefaultController × Option CtrlError :=
  if packetInst.numTransmissions = 1 then
    if c.windowSizeBytes + packetInst.sizeBytes > c.maxWindowSizeBytes then
      (c, some .errInsufficientWindowSize)
    else
      ({ c with windowSizeBytes := c.windowSizeBytes + packetInst.sizeBytes }, none)
  else (c, none)

def onTransmit (c : DefaultController) (seqNum : Uint16) (transmission : Transmit)
    (dataLen : Uint32) : DefaultController × Option CtrlError :=
  match transmission with
  | .initial =>
      if c.transmissions.contains seqNum then (c, some .errDuplicateTransmission)
      else
        let packetInst : PacketRecord :=
          { sizeBytes := dataLen, numTransmissions := 1, acked := false }
        charge { c with transmissions := c.transmissions.insert seqNum packetInst } packetInst
  | .retransmission =>
      match c.transmissions.get? seqNum with
      | none => (c, some .errUnknownSeqNum)
      | some packetInst =>
          let packetInst := { packetInst with numTransmissions := packetInst.numTransmissions + 1 }
          charge { c with transmissions := c.transmissions.insert seqNum packetInst } packetInst

def applyMaxWindowSizeAdjustment (c : DefaultController) (adjustment : Int) : DefaultController :=
  let adjMaxWindowSizeBytes := int64 (c.maxWindowSizeBytes.toNat + adjustment)
  let adjMaxWindowSizeBytes := max adjMaxWindowSizeBytes c.minWindowSizeBytes.toNat
  let limit : Int := c.maxWindowSizeBytes.toNat + c.maxWindowSizeIncBytes.toNat
  { c with maxWindowSizeBytes := BitVec.ofInt 32 (min adjMaxWindowSizeBytes limit) }

/-- The variance is counted in microseconds and added as nanoseconds, as in
the source. -/
def applyTimeoutAdjustment (c : DefaultController) : DefaultController :=
  let timeout := max (c.rtt + c.rttVarianceMicros * 4) c.minTimeout
  { c with timeout := (min timeout c.maxTimeout).toNat }

/-- The estimate of the round trip after the first acknowledgement of a
packet sent once.  The new estimate is formed from milliseconds and stored
as nanoseconds, as in the source. -/
def updateRTT (c : DefaultController) (ack : Ack) : DefaultController :=
  let rttVarAdjustment := computeRTTVarianceAdjustment (microseconds c.rtt) c.rttVarianceMicros
    (microseconds ack.rtt)
  let rttAdjustment := computeRTTAdjustment (microseconds c.rtt) (microseconds ack.rtt)
  applyTimeoutAdjustment { c with
    rttVarianceMicros := max 0 (c.rttVarianceMicros + rttVarAdjustment)
    rtt := (max (milliseconds c.rtt + rttAdjustment) 0).toNat }

def onAck [Float64] (c : DefaultController) (seqNum : Uint16) (ack : Ack) :
    DefaultController × Option CtrlError :=
  match c.transmissions.get? seqNum with
  | none => (c, some .errUnknownSeqNum)
  | some packetInst =>
      if packetInst.acked then (c, none)
      else
        let transmissions := c.transmissions.insert seqNum { packetInst with acked := true }
        let (delayAcc, baseDelay) :=
          (c.delayAcc.push ack.delay ack.receivedAt).baseDelay ack.receivedAt
        let maxWindowSizeAdjustment := computeMaxWindowSizeAdjustment c.targetDelayMicros
          (BitVec.ofInt 32 (microseconds baseDelay)) (BitVec.ofInt 32 (microseconds ack.delay))
          c.windowSizeBytes packetInst.sizeBytes c.maxWindowSizeIncBytes c.gain
        let c := { c with transmissions, delayAcc }.applyMaxWindowSizeAdjustment
          maxWindowSizeAdjustment
        let c := { c with windowSizeBytes := c.windowSizeBytes - packetInst.sizeBytes }
        if packetInst.numTransmissions = 1 then (c.updateRTT ack, none) else (c, none)

def onLostPacket (c : DefaultController) (seqNum : Uint16) (retransmitting : Bool) :
    DefaultController × Option CtrlError :=
  match c.transmissions.get? seqNum with
  | none => (c, some .errUnknownSeqNum)
  | some packetInst =>
      let c := { c with
        maxWindowSizeBytes := max (c.maxWindowSizeBytes / 2) c.minWindowSizeBytes }
      if !retransmitting then
        ({ c with windowSizeBytes := c.windowSizeBytes - packetInst.sizeBytes }, none)
      else (c, none)

def onTimeout (c : DefaultController) : DefaultController :=
  { c with
    maxWindowSizeBytes := c.minWindowSizeBytes
    timeout := min (c.timeout * 2) c.maxTimeout }

/-! ### What the calls do to the records -/

section Transmitting

variable {c : DefaultController} {seqNum : Uint16} {dataLen : Uint32}

theorem charge_later (packetInst : PacketRecord) (hn : packetInst.numTransmissions ≠ 1) :
    c.charge packetInst = (c, none) := by
  rw [charge, if_neg hn]

/-- A first transmission that fits is recorded and charged to the window. -/
theorem onTransmit_initial (hnew : c.transmissions.get? seqNum = none)
    (hfit : c.windowSizeBytes + dataLen ≤ c.maxWindowSizeBytes) :
    c.onTransmit seqNum .initial dataLen = ({ c with
      transmissions := c.transmissions.insert seqNum
        { sizeBytes := dataLen, numTransmissions := 1, acked := false }
      windowSizeBytes := c.windowSizeBytes + dataLen }, none) := by
  have hc : c.transmissions.contains seqNum = false := by simp [OrdMap.contains, hnew]
  simp only [onTransmit, hc, Bool.false_eq_true, if_false, charge, if_true]
  rw [if_neg (not_lt.mpr hfit)]

theorem onTransmit_initial_error (hnew : c.transmissions.get? seqNum = none)
    (hfit : c.maxWindowSizeBytes < c.windowSizeBytes + dataLen) :
    (c.onTransmit seqNum .initial dataLen).2 = some .errInsufficientWindowSize := by
  have hc : c.transmissions.contains seqNum = false := by simp [OrdMap.contains, hnew]
  simp only [onTransmit, hc, Bool.false_eq_true, if_false, charge, if_true]
  rw [if_pos hfit]

/-- A retransmission counts; it is charged only if the counter has come round
to one. -/
theorem onTransmit_retransmission {r : PacketRecord}
    (hold : c.transmissions.get? seqNum = some r) (hn : r.numTransmissions + 1 ≠ 1) :
    c.onTransmit seqNum .retransmission dataLen = ({ c with
      transmissions := c.transmissions.insert seqNum
        { r with numTransmissions := r.numTransmissions + 1 } }, none) := by
  simp only [onTransmit, hold]
  exact charge_later _ hn

/-- The bytes available make room for a packet, unless it is empty and the
limit has fallen below what is in flight. -/
theorem fits_of_le_available (hle : dataLen ≤ c.bytesAvailableInWindow)
    (hempty : dataLen = 0 → c.windowSizeBytes ≤ c.maxWindowSizeBytes) :
    c.windowSizeBytes + dataLen ≤ c.maxWindowSizeBytes ∧
      (c.windowSizeBytes + dataLen).toNat = c.windowSizeBytes.toNat + dataLen.toNat := by
  unfold bytesAvailableInWindow at hle
  split at hle
  · bv_omega
  · have h0 : dataLen = 0 := by bv_omega
    have := hempty h0
    subst h0
    bv_omega

end Transmitting

/-- Two controllers have records for the same numbers, sent equally often. -/
def SameCounts (c c' : DefaultController) : Prop :=
  ∀ s, (c'.transmissions.get? s).map (·.numTransmissions)
    = (c.transmissions.get? s).map (·.numTransmissions)

theorem SameCounts.refl (c : DefaultController) : c.SameCounts c := fun _ => rfl

theorem SameCounts.trans {c₁ c₂ c₃ : DefaultController} (h₁ : c₁.SameCounts c₂)
    (h₂ : c₂.SameCounts c₃) : c₁.SameCounts c₃ := fun s => (h₂ s).trans (h₁ s)

theorem SameCounts.contains {c c' : DefaultController} (h : c.SameCounts c') (s : Uint16) :
    c'.transmissions.contains s = c.transmissions.contains s := by
  have hs := congrArg Option.isSome (h s)
  rwa [Option.isSome_map, Option.isSome_map] at hs

theorem updateRTT_transmissions (c : DefaultController) (ack : Ack) :
    (c.updateRTT ack).transmissions = c.transmissions := rfl

/-- An acknowledgement of a recorded number succeeds and changes no count. -/
theorem onAck_spec [Float64] (c : DefaultController) {seqNum : Uint16} (ack : Ack)
    (h : c.transmissions.contains seqNum = true) :
    ∃ c', c.onAck seqNum ack = (c', none) ∧ c.SameCounts c' := by
  obtain ⟨r, hr⟩ := Option.isSome_iff_exists.mp h
  have hins : ∀ s, ((c.transmissions.insert seqNum { r with acked := true }).get? s).map
      (·.numTransmissions) = (c.transmissions.get? s).map (·.numTransmissions) := by
    intro s
    by_cases hs : s = seqNum
    · subst hs
      rw [OrdMap.get?_insert_self, hr]
      rfl
    · rw [OrdMap.get?_insert_of_ne hs]
  unfold onAck
  rw [hr]
  dsimp only
  split
  · exact ⟨c, rfl, .refl c⟩
  · split
    · refine ⟨_, rfl, fun s => ?_⟩
      rw [updateRTT_transmissions]
      exact hins s
    · exact ⟨_, rfl, fun s => hins s⟩

theorem onLostPacket_sameCounts (c : DefaultController) (seqNum : Uint16)
    (retransmitting : Bool) : c.SameCounts (c.onLostPacket seqNum retransmitting).1 := by
  unfold onLostPacket
  split
  · exact .refl c
  · dsimp only
    split <;> exact fun _ => rfl

theorem onTimeout_sameCounts (c : DefaultController) : c.SameCounts c.onTimeout := fun _ => rfl

end DefaultController

end UtpGo

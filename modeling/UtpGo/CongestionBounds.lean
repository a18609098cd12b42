/-
UtpGo/CongestionBounds.lean

The congestion controller over any sequence of calls.  The adjustment of the
limit is a double converted to an integer; here every acknowledgement brings
its own arithmetic (`Call.onAck`), so the adjustment may be any integer,
whatever the adjustments before it were.

Main results:

* `calls_bounded`: the limit of the window, the timeout and the variance stay
  within their bounds, only an acknowledgement raises the limit, by no more
  than the increment, and acknowledging a packet again changes nothing;
* `failed_unchanged_iff`: a call that fails leaves the controller as it was,
  if and only if it does not fail for lack of room in the window.
-/
import UtpGo.Congestion

namespace UtpGo

namespace DefaultController

/-! ### Calls -/

/-- The calls that change a controller. -/
inductive Call where
  | onTransmit (seqNum : Uint16) (transmission : Transmit) (dataLen : Uint32)
  | onAck (arith : Float64) (seqNum : Uint16) (ack : Ack)
  | onLostPacket (seqNum : Uint16) (retransmitting : Bool)
  | onTimeout

def call (c : DefaultController) : Call → DefaultController × Option CtrlError
  | .onTransmit seqNum transmission dataLen => c.onTransmit seqNum transmission dataLen
  | .onAck arith seqNum ack => @onAck arith c seqNum ack
  | .onLostPacket seqNum retransmitting => c.onLostPacket seqNum retransmitting
  | .onTimeout => (c.onTimeout, none)

/-- The controller after the calls, failed ones included. -/
def after (c : DefaultController) (calls : List Call) : DefaultController :=
  calls.foldl (fun c k => (c.call k).1) c

theorem after_append (c : DefaultController) (calls calls' : List Call) :
    c.after (calls ++ calls') = (c.after calls).after calls' := List.foldl_append

/-- What every call keeps holds after all of them. -/
theorem after_inv {I : DefaultController → Prop} (hstep : ∀ c k, I c → I (c.call k).1)
    (calls : List Call) {c : DefaultController} (h : I c) : I (c.after calls) := by
  induction calls generalizing c with
  | nil => exact h
  | cons k calls ih => exact ih (hstep c k h)

/-! ### What each call changes -/

section Frames

variable (c : DefaultController) (seqNum : Uint16)

theorem charge_frame (packetInst : PacketRecord) :
    ∃ w, (c.charge packetInst).1 = { c with windowSizeBytes := w } := by
  unfold charge
  split
  · split
    · exact ⟨c.windowSizeBytes, rfl⟩
    · exact ⟨_, rfl⟩
  · exact ⟨c.windowSizeBytes, rfl⟩

theorem onTransmit_frame (transmission : Transmit) (dataLen : Uint32) :
    ∃ t w, (c.onTransmit seqNum transmission dataLen).1
      = { c with transmissions := t, windowSizeBytes := w } := by
  cases transmission with
  | initial =>
      rw [onTransmit]
      split
      · exact ⟨c.transmissions, c.windowSizeBytes, rfl⟩
      · exact ⟨_, charge_frame _ _⟩
  | retransmission =>
      cases hr : c.transmissions.get? seqNum with
      | none =>
          simp only [onTransmit, hr]
          exact ⟨c.transmissions, c.windowSizeBytes, rfl⟩
      | some r =>
          simp only [onTransmit, hr]
          exact ⟨_, charge_frame _ _⟩

theorem onLostPacket_frame (retransmitting : Bool) :
    (c.onLostPacket seqNum retransmitting).1 = c ∨
    ∃ w, (c.onLostPacket seqNum retransmitting).1 = { c with
      maxWindowSizeBytes := max (c.maxWindowSizeBytes / 2) c.minWindowSizeBytes
      windowSizeBytes := w } := by
  cases hr : c.transmissions.get? seqNum with
  | none =>
      left
      simp only [onLostPacket, hr]
  | some r =>
      simp only [onLostPacket, hr]
      cases retransmitting with
      | true => exact .inr ⟨c.windowSizeBytes, rfl⟩
      | false => exact .inr ⟨_, rfl⟩

/-- The state in which an acknowledgement leaves the window. -/
def acknowledge (t : OrdMap Uint16 PacketRecord) (d : DelayAccumulator) (adjustment : Int)
    (w : Uint32) : DefaultController :=
  { applyMaxWindowSizeAdjustment { c with transmissions := t, delayAcc := d } adjustment with
    windowSizeBytes := w }

theorem onAck_frame [Float64] (ack : Ack) :
    (c.onAck seqNum ack).1 = c ∨
    ∃ t d adjustment w, (c.onAck seqNum ack).1 = c.acknowledge t d adjustment w ∨
      (c.onAck seqNum ack).1 = (c.acknowledge t d adjustment w).updateRTT ack := by
  cases hr : c.transmissions.get? seqNum with
  | none =>
      left
      simp only [onAck, hr]
  | some r =>
      simp only [onAck, hr]
      split
      · exact .inl rfl
      · split
        · exact .inr ⟨_, _, _, _, .inr rfl⟩
        · exact .inr ⟨_, _, _, _, .inl rfl⟩

end Frames

/-! ### Bounds -/

/-- The bounds between which the controller moves. -/
structure Bounded (c : DefaultController) : Prop where
  window : c.minWindowSizeBytes ≤ c.maxWindowSizeBytes
  timeout_ge : c.minTimeout ≤ c.timeout
  timeout_le : c.timeout ≤ c.maxTimeout
  variance : 0 ≤ c.rttVarianceMicros

/-- The limit leaves room for one increment. -/
def Fits (c : DefaultController) : Prop :=
  c.maxWindowSizeBytes.toNat + c.maxWindowSizeIncBytes.toNat < 2 ^ 32

section Steps

variable {c : DefaultController}

/-- The adjusted limit, for any adjustment: no clamp gets into the way of
another one. -/
theorem toNat_adjusted (hwin : c.minWindowSizeBytes ≤ c.maxWindowSizeBytes) (hfits : c.Fits)
    (adjustment : Int) :
    let limit := (c.applyMaxWindowSizeAdjustment adjustment).maxWindowSizeBytes.toNat
    c.minWindowSizeBytes.toNat ≤ limit ∧
      limit ≤ c.maxWindowSizeBytes.toNat + c.maxWindowSizeIncBytes.toNat := by
  rw [BitVec.le_def] at hwin
  unfold Fits at hfits
  show _ ≤ (BitVec.ofInt 32 (min (max (int64 _) _) _)).toNat ∧
    (BitVec.ofInt 32 (min (max (int64 _) _) _)).toNat ≤ _
  rw [BitVec.toNat_ofInt]
  generalize int64 (c.maxWindowSizeBytes.toNat + adjustment) = adjusted
  omega

theorem Bounded.acknowledge (h : c.Bounded) (hfits : c.Fits) (t : OrdMap Uint16 PacketRecord)
    (d : DelayAccumulator) (adjustment : Int) (w : Uint32) :
    (c.acknowledge t d adjustment w).Bounded where
  window := BitVec.le_def.mpr (toNat_adjusted
    (c := { c with transmissions := t, delayAcc := d }) h.window hfits adjustment).1
  timeout_ge := h.timeout_ge
  timeout_le := h.timeout_le
  variance := h.variance

theorem Bounded.updateRTT (h : c.Bounded) (ack : Ack) : (c.updateRTT ack).Bounded where
  window := h.window
  timeout_ge := by
    have hle : (c.minTimeout : Int) ≤ c.maxTimeout :=
      Int.ofNat_le.mpr (h.timeout_ge.trans h.timeout_le)
    show c.minTimeout ≤ (min (max _ (c.minTimeout : Int)) (c.maxTimeout : Int)).toNat
    exact Int.ofNat_le.mp ((le_min (le_max_right _ _) hle).trans (Int.self_le_toNat _))
  timeout_le := by
    refine Int.toNat_le.mpr ?_
    exact min_le_right _ _
  variance := le_max_left 0 _

/-- **One call** keeps the bounds. -/
theorem Bounded.call (h : c.Bounded) (hfits : c.Fits) (k : Call) : (c.call k).1.Bounded := by
  cases k with
  | onTransmit seqNum transmission dataLen =>
      obtain ⟨t, w, heq⟩ := c.onTransmit_frame seqNum transmission dataLen
      show (c.onTransmit seqNum transmission dataLen).1.Bounded
      rw [heq]
      exact ⟨h.window, h.timeout_ge, h.timeout_le, h.variance⟩
  | onAck arith seqNum ack =>
      show (@onAck arith c seqNum ack).1.Bounded
      rcases @onAck_frame c seqNum arith ack with heq | ⟨t, d, adjustment, w, heq | heq⟩
      · rwa [heq]
      · rw [heq]
        exact h.acknowledge hfits t d adjustment w
      · rw [heq]
        exact (h.acknowledge hfits t d adjustment w).updateRTT ack
  | onLostPacket seqNum retransmitting =>
      show (c.onLostPacket seqNum retransmitting).1.Bounded
      rcases c.onLostPacket_frame seqNum retransmitting with heq | ⟨w, heq⟩
      · rwa [heq]
      · rw [heq]
        exact ⟨le_max_right _ _, h.timeout_ge, h.timeout_le, h.variance⟩
  | onTimeout =>
      have hge := h.timeout_ge
      have hle := h.timeout_le
      refine ⟨le_refl c.minWindowSizeBytes, le_min ?_ (hge.trans hle), min_le_right _ _,
        h.variance⟩
      exact hge.trans (Nat.le_mul_of_pos_right _ (by decide))

/-- The timeout, and the one to which it may grow, are at most `bound`. -/
structure TimeoutLe (bound : Duration) (c : DefaultController) : Prop where
  timeout : c.timeout ≤ bound
  maxTimeout : c.maxTimeout ≤ bound

theorem TimeoutLe.onTransmit {bound : Duration} (h : c.TimeoutLe bound) (seqNum : Uint16)
    (transmission : Transmit) (dataLen : Uint32) :
    (c.onTransmit seqNum transmission dataLen).1.TimeoutLe bound := by
  obtain ⟨t, w, heq⟩ := c.onTransmit_frame seqNum transmission dataLen
  rw [heq]
  exact ⟨h.timeout, h.maxTimeout⟩

theorem TimeoutLe.onAck [Float64] {bound : Duration} (h : c.TimeoutLe bound) (seqNum : Uint16)
    (ack : Ack) : (c.onAck seqNum ack).1.TimeoutLe bound := by
  rcases c.onAck_frame seqNum ack with heq | ⟨t, d, adjustment, w, heq | heq⟩
  · rwa [heq]
  · rw [heq]
    exact ⟨h.timeout, h.maxTimeout⟩
  · rw [heq]
    refine ⟨le_trans (Int.toNat_le.mpr ?_) h.maxTimeout, h.maxTimeout⟩
    exact min_le_right _ _

theorem TimeoutLe.onLostPacket {bound : Duration} (h : c.TimeoutLe bound) (seqNum : Uint16)
    (retransmitting : Bool) : (c.onLostPacket seqNum retransmitting).1.TimeoutLe bound := by
  rcases c.onLostPacket_frame seqNum retransmitting with heq | ⟨w, heq⟩
  · rwa [heq]
  · rw [heq]
    exact ⟨h.timeout, h.maxTimeout⟩

theorem TimeoutLe.onTimeout {bound : Duration} (h : c.TimeoutLe bound) :
    c.onTimeout.TimeoutLe bound :=
  ⟨(min_le_right _ _).trans h.maxTimeout, h.maxTimeout⟩

/-- How much one call may raise the limit of the window. -/
def raise (c : DefaultController) : Call → Nat
  | .onAck _ _ _ => c.maxWindowSizeIncBytes.toNat
  | _ => 0

theorem call_raises (h : c.Bounded) (hfits : c.Fits) (k : Call) :
    (c.call k).1.maxWindowSizeBytes.toNat ≤ c.maxWindowSizeBytes.toNat + c.raise k := by
  have hwin := h.window
  cases k with
  | onTransmit seqNum transmission dataLen =>
      obtain ⟨t, w, heq⟩ := c.onTransmit_frame seqNum transmission dataLen
      show (c.onTransmit seqNum transmission dataLen).1.maxWindowSizeBytes.toNat ≤ _
      rw [heq]
      exact le_refl _
  | onAck arith seqNum ack =>
      show (@onAck arith c seqNum ack).1.maxWindowSizeBytes.toNat
        ≤ c.maxWindowSizeBytes.toNat + c.maxWindowSizeIncBytes.toNat
      have hadj := toNat_adjusted hwin hfits
      rcases @onAck_frame c seqNum arith ack with heq | ⟨t, d, adjustment, w, heq | heq⟩
      · rw [heq]
        exact Nat.le_add_right _ _
      · rw [heq]
        exact (hadj adjustment).2
      · -- the estimate of the round trip has no part in the limit
        rw [heq]
        exact (hadj adjustment).2
  | onLostPacket seqNum retransmitting =>
      show (c.onLostPacket seqNum retransmitting).1.maxWindowSizeBytes.toNat ≤ _
      rcases c.onLostPacket_frame seqNum retransmitting with heq | ⟨w, heq⟩
      · rw [heq]
        exact le_refl _
      · rw [heq]
        have hhalf : c.maxWindowSizeBytes / 2 ≤ c.maxWindowSizeBytes := by
          rw [BitVec.le_def, BitVec.toNat_udiv]
          exact Nat.div_le_self _ _
        exact BitVec.le_def.mp (max_le hhalf hwin)
  | onTimeout => exact BitVec.le_def.mp hwin

end Steps

/-! ### Acknowledged packets -/

/-- The packet is recorded as acknowledged. -/
def Acknowledged (c : DefaultController) (seqNum : Uint16) : Prop :=
  ∃ r, c.transmissions.get? seqNum = some r ∧ r.acked = true

section Acknowledged

variable {c : DefaultController} {seqNum : Uint16}

theorem onAck_acknowledged [Float64] (h : c.Acknowledged seqNum) (ack : Ack) :
    c.onAck seqNum ack = (c, none) := by
  obtain ⟨r, hr, hacked⟩ := h
  simp only [onAck, hr, hacked, if_true]

theorem Acknowledged.insert (h : c.Acknowledged seqNum) {s : Uint16} {r : PacketRecord}
    (hr : s = seqNum → r.acked = true) :
    ∃ r', (c.transmissions.insert s r).get? seqNum = some r' ∧ r'.acked = true := by
  by_cases hs : seqNum = s
  · subst hs
    exact ⟨r, OrdMap.get?_insert_self, hr rfl⟩
  · rw [OrdMap.get?_insert_of_ne hs]
    exact h

theorem charge_transmissions (c : DefaultController) (packetInst : PacketRecord) :
    (c.charge packetInst).1.transmissions = c.transmissions := by
  obtain ⟨w, heq⟩ := c.charge_frame packetInst
  rw [heq]

/-- The records after an acknowledgement. -/
theorem onAck_transmissions [Float64] (c : DefaultController) (s : Uint16) (ack : Ack) :
    (c.onAck s ack).1.transmissions = c.transmissions ∨
    ∃ r, c.transmissions.get? s = some r ∧
      (c.onAck s ack).1.transmissions = c.transmissions.insert s { r with acked := true } := by
  cases hr : c.transmissions.get? s with
  | none =>
      left
      simp only [onAck, hr]
  | some r =>
      simp only [onAck, hr]
      split
      · exact .inl rfl
      · split
        · exact .inr ⟨r, rfl, rfl⟩
        · exact .inr ⟨r, rfl, rfl⟩

/-- No call takes an acknowledgement back. -/
theorem Acknowledged.call (h : c.Acknowledged seqNum) (k : Call) :
    (c.call k).1.Acknowledged seqNum := by
  cases k with
  | onTransmit s transmission dataLen =>
      unfold Acknowledged
      cases transmission with
      | initial =>
          show ∃ r, (c.onTransmit s .initial dataLen).1.transmissions.get? seqNum = some r ∧ _
          rw [onTransmit]
          split
          · exact h
          · rename_i hnew
            rw [charge_transmissions]
            refine h.insert ?_
            -- a packet acknowledged is not transmitted for the first time
            rintro rfl
            obtain ⟨r, hr, -⟩ := h
            rw [OrdMap.contains, hr] at hnew
            exact absurd rfl hnew
      | retransmission =>
          show ∃ r, (c.onTransmit s .retransmission dataLen).1.transmissions.get? seqNum
            = some r ∧ _
          cases hs : c.transmissions.get? s with
          | none =>
              simp only [onTransmit, hs]
              exact h
          | some r =>
              simp only [onTransmit, hs]
              rw [charge_transmissions]
              refine h.insert ?_
              rintro rfl
              obtain ⟨r', hr', hacked⟩ := h
              cases hs.symm.trans hr'
              exact hacked
  | onAck arith s ack =>
      unfold Acknowledged
      show ∃ r, (@onAck arith c s ack).1.transmissions.get? seqNum = some r ∧ _
      rcases @onAck_transmissions arith c s ack with heq | ⟨r, -, heq⟩
      · rwa [heq]
      · rw [heq]
        exact h.insert fun _ => rfl
  | onLostPacket s retransmitting =>
      unfold Acknowledged
      show ∃ r, (c.onLostPacket s retransmitting).1.transmissions.get? seqNum = some r ∧ _
      rcases c.onLostPacket_frame s retransmitting with heq | ⟨w, heq⟩
      · rwa [heq]
      · rwa [heq]
  | onTimeout => exact h

theorem acknowledged_onAck [Float64] (ack : Ack) (hok : (c.onAck seqNum ack).2 = none) :
    (c.onAck seqNum ack).1.Acknowledged seqNum := by
  cases hr : c.transmissions.get? seqNum with
  | none =>
      simp only [onAck, hr] at hok
      cases hok
  | some r =>
      cases hacked : r.acked with
      | true =>
          rw [onAck_acknowledged ⟨r, hr, hacked⟩]
          exact ⟨r, hr, hacked⟩
      | false =>
          refine ⟨{ r with acked := true }, ?_, rfl⟩
          simp only [onAck, hr, hacked, Bool.false_eq_true, if_false]
          split
          · exact OrdMap.get?_insert_self
          · exact OrdMap.get?_insert_self

end Acknowledged

/-! ### Runs -/

/-- The arithmetic in which every adjustment is the same integer: any integer
is the adjustment of some arithmetic. -/
@[reducible] def fixedFloat64 (adjustment : Int) : Float64 where
  carrier := Unit
  ofInt := fun _ => ()
  ofFloat32 := fun _ => ()
  mul := fun _ _ => ()
  div := fun _ _ => ()
  toInt64 := fun _ => adjustment

theorem Bounded.after {calls : List Call} {c : DefaultController} (h : c.Bounded)
    (hfits : ∀ calls', calls' <+: calls → (c.after calls').Fits) : (c.after calls).Bounded := by
  induction calls generalizing c with
  | nil => exact h
  | cons k calls ih =>
      have hfirst : c.Fits := hfits [] List.nil_prefix
      refine ih (h.call hfirst k) fun calls' hcalls' => ?_
      exact hfits (k :: calls') (List.prefix_cons_inj k |>.mpr hcalls')

theorem bounded_new {config : CtrlConfig} (hmin : config.minTimeout ≤ config.initialTimeout)
    (hmax : config.initialTimeout ≤ config.maxTimeout) :
    (newDefaultController config).Bounded :=
  ⟨le_refl _, hmin, hmax, le_refl _⟩

/-- **The controller keeps its bounds.**  After any calls, whatever the
adjustments were, and as long as the limit with one increment fits 32 bits,
the limit is at least the smallest one, the timeout lies between its bounds
and the variance is not negative.  The next call raises the limit by no more
than the increment, and not at all unless it is an acknowledgement.  A packet
acknowledged with success is acknowledged again without effect. -/
theorem calls_bounded {config : CtrlConfig} (hmin : config.minTimeout ≤ config.initialTimeout)
    (hmax : config.initialTimeout ≤ config.maxTimeout) {calls : List Call}
    (hfits : ∀ calls', calls' <+: calls → ((newDefaultController config).after calls').Fits) :
    let c := (newDefaultController config).after calls
    c.Bounded ∧
    (∀ k, (c.call k).1.maxWindowSizeBytes.toNat ≤ c.maxWindowSizeBytes.toNat + c.raise k) ∧
    ∀ before arith seqNum ack later, calls = before ++ .onAck arith seqNum ack :: later →
      (((newDefaultController config).after before).call (.onAck arith seqNum ack)).2 = none →
      ∀ arith' ack', c.call (.onAck arith' seqNum ack') = (c, none) := by
  intro c
  have hbounded : c.Bounded := (bounded_new hmin hmax).after hfits
  refine ⟨hbounded, call_raises hbounded (hfits calls (List.prefix_refl calls)), ?_⟩
  intro before arith seqNum ack later hcalls hok arith' ack'
  have hacked : c.Acknowledged seqNum := by
    show ((newDefaultController config).after calls).Acknowledged seqNum
    rw [hcalls, after_append]
    refine after_inv (I := fun c => c.Acknowledged seqNum) (fun _ k h => h.call k) later ?_
    exact @acknowledged_onAck _ seqNum arith ack hok
  exact @onAck_acknowledged c seqNum arith' hacked ack'

/-- A packet is sent and acknowledged with the largest adjustment of all. -/
theorem calls_bounded_largest :
    let c := (newDefaultController defaultCtrlConfig).after
      [.onTransmit 1 .initial 1000, .onAck (fixedFloat64 (2 ^ 63 - 1 - 2048)) 1 ⟨0, 0, 0⟩]
    c.Bounded ∧ c.maxWindowSizeBytes = 3072 := by
  have hfits : ∀ calls', calls' <+: [Call.onTransmit 1 .initial 1000,
      .onAck (fixedFloat64 (2 ^ 63 - 1 - 2048)) 1 ⟨0, 0, 0⟩] →
      ((newDefaultController defaultCtrlConfig).after calls').Fits := by
    intro calls' hcalls'
    rw [← List.mem_inits] at hcalls'
    simp only [List.inits, List.map_cons, List.map_nil, List.mem_cons, List.not_mem_nil,
      or_false] at hcalls'
    rcases hcalls' with rfl | rfl | rfl
    all_goals
      unfold Fits
      decide +kernel
  exact ⟨(calls_bounded (by decide) (by decide) hfits).1, by decide +kernel⟩

/-! ### Failed calls -/

/-- The window has no room for the call: a first transmission under a new
number, or a retransmission whose counter comes round to one and which is
taken for a first one. -/
def NoRoom (c : DefaultController) : Call → Prop
  | .onTransmit seqNum .initial dataLen =>
      c.transmissions.get? seqNum = none ∧ c.maxWindowSizeBytes < c.windowSizeBytes + dataLen
  | .onTransmit seqNum .retransmission _ => ∃ r, c.transmissions.get? seqNum = some r ∧
      r.numTransmissions + 1 = 1 ∧ c.maxWindowSizeBytes < c.windowSizeBytes + r.sizeBytes
  | _ => False

section Failed

variable {c : DefaultController}

theorem charge_fails_iff (packetInst : PacketRecord) :
    (c.charge packetInst).2 ≠ none ↔ packetInst.numTransmissions = 1 ∧
      c.maxWindowSizeBytes < c.windowSizeBytes + packetInst.sizeBytes := by
  unfold charge
  split
  · rename_i hone
    split
    · rename_i hroom
      simp [hone, hroom]
    · rename_i hroom
      simp only [ne_eq, not_true_eq_false, false_iff]
      exact fun h => hroom h.2
  · rename_i hone
    exact iff_of_false (fun h => h rfl) fun h => hone h.1

/-- A new record stays in the controller, whatever becomes of the call. -/
theorem charge_changed {seqNum : Uint16} {r : PacketRecord}
    (hr : c.transmissions.get? seqNum ≠ some r) :
    (charge { c with transmissions := c.transmissions.insert seqNum r } r).1 ≠ c := by
  intro heq
  apply hr
  have ht := congrArg transmissions heq
  rw [charge_transmissions] at ht
  rw [← ht]
  exact OrdMap.get?_insert_self

theorem onTransmit_unchanged_iff (seqNum : Uint16) (transmission : Transmit) (dataLen : Uint32) :
    ((c.onTransmit seqNum transmission dataLen).2 ≠ none →
      (c.onTransmit seqNum transmission dataLen).1 = c) ↔
      ¬ c.NoRoom (.onTransmit seqNum transmission dataLen) := by
  cases transmission with
  | initial =>
      cases hr : c.transmissions.get? seqNum with
      | some r =>
          have hc : c.transmissions.contains seqNum = true := by simp [OrdMap.contains, hr]
          simp [onTransmit, hc, NoRoom, hr]
      | none =>
          have hc : c.transmissions.contains seqNum = false := by simp [OrdMap.contains, hr]
          have hne : c.transmissions.get? seqNum ≠ some ⟨dataLen, 1, false⟩ := by simp [hr]
          simp only [onTransmit, hc, Bool.false_eq_true, if_false, charge_fails_iff,
            charge_changed hne, NoRoom, hr, true_and, imp_false]
  | retransmission =>
      cases hr : c.transmissions.get? seqNum with
      | none => simp [onTransmit, hr, NoRoom]
      | some r =>
          have hne : c.transmissions.get? seqNum
              ≠ some { r with numTransmissions := r.numTransmissions + 1 } := by
            rw [hr]
            intro heq
            have hcount := congrArg (Option.map PacketRecord.numTransmissions) heq
            simp at hcount
          simp only [onTransmit, hr, charge_fails_iff, charge_changed hne, NoRoom,
            Option.some.injEq, exists_eq_left', imp_false]

/-- **A failed call changes nothing unless the window has no room for it.**
Every other call that fails leaves the controller as it was; a transmission
refused for lack of room leaves its record, or its count, behind. -/
theorem failed_unchanged_iff (c : DefaultController) (k : Call) :
    ((c.call k).2 ≠ none → (c.call k).1 = c) ↔ ¬ c.NoRoom k := by
  cases k with
  | onTransmit seqNum transmission dataLen =>
      exact onTransmit_unchanged_iff seqNum transmission dataLen
  | onAck arith seqNum ack =>
      refine iff_of_true (fun hfail => ?_) not_false
      cases hr : c.transmissions.get? seqNum with
      | none => simp only [call, onAck, hr]
      | some r =>
          obtain ⟨c', heq, -⟩ := @onAck_spec arith c seqNum ack (by simp [OrdMap.contains, hr])
          exact absurd (congrArg Prod.snd heq) hfail
  | onLostPacket seqNum retransmitting =>
      refine iff_of_true (fun hfail => ?_) not_false
      cases hr : c.transmissions.get? seqNum with
      | none => simp only [call, onLostPacket, hr]
      | some r =>
          simp only [call, onLostPacket, hr] at hfail
          cases retransmitting with
          | true => exact absurd rfl hfail
          | false => exact absurd rfl hfail
  | onTimeout => exact iff_of_true (fun hfail => absurd rfl hfail) not_false

end Failed

/-- The second packet does not fit beside the first one.  Once the first is
acknowledged there is room for it, and yet it is refused as a duplicate; and
if it is acknowledged, bytes that were never added are taken off the bytes in
flight. -/
theorem failed_leaves_record :
    let c := (newDefaultController defaultCtrlConfig).after [.onTransmit 1 .initial 2000]
    let c₁ := (c.call (.onTransmit 2 .initial 100)).1
    let c₂ := (c₁.call (.onAck (fixedFloat64 0) 1 ⟨0, 0, 0⟩)).1
    (c.call (.onTransmit 2 .initial 100)).2 = some .errInsufficientWindowSize ∧ c₁ ≠ c ∧
    c₂.bytesAvailableInWindow = 2048 ∧
    (c₂.call (.onTransmit 2 .initial 100)).2 = some .errDuplicateTransmission ∧
    (c₂.call (.onAck (fixedFloat64 0) 2 ⟨0, 0, 0⟩)).1.windowSizeBytes = BitVec.ofInt 32 (-100) := by
  refine ⟨by decide +kernel, ?_, by decide +kernel, by decide +kernel, by decide +kernel⟩
  intro heq
  have ht := congrArg (fun c => c.transmissions.contains 2) heq
  exact absurd ht (by decide +kernel)

end DefaultController

end UtpGo

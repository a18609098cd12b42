/-
UtpGo/CongestionEstimate.lean

The estimate of the round trip and the timeout taken from it.  `Estimate` is
what the estimate is meant to be: all in microseconds, an eighth of the
difference added to the mean and a quarter to the variance, and the timeout
four variances above the mean.

The controller takes the mean in milliseconds, adds microseconds and stores
the sum as nanoseconds; and it adds the variance, in microseconds, to the
mean as nanoseconds.

Main result: `estimates_iff`, over any acknowledgements of packets sent once
the controller follows the estimate, if and only if at each of them the
difference of scale does not show (`ScaleHidden`).
-/
import UtpGo.Congestion

namespace UtpGo

/-! ### The estimate in one unit -/

/-- The mean, the variance and the timeout, in microseconds. -/
structure Estimate where
  rtt : Int
  rttVariance : Int
  timeout : Int
  deriving DecidableEq

/-- The estimate after a round trip of `r` microseconds. -/
def Estimate.next (minTimeout maxTimeout : Int) (e : Estimate) (r : Int) : Estimate :=
  let rtt := max 0 (e.rtt + (r - e.rtt).tdiv 8)
  let rttVariance := max 0 (e.rttVariance + (|e.rtt - r| - e.rttVariance).tdiv 4)
  ⟨rtt, rttVariance, min (max (rtt + 4 * rttVariance) minTimeout) maxTimeout⟩

/-! ### Truncation -/

theorem microseconds_natCast (d : Nat) : microseconds d = d / 1000 :=
  Int.tdiv_eq_ediv_of_nonneg (Int.natCast_nonneg d)

theorem milliseconds_natCast (d : Nat) : milliseconds d = d / 1000000 :=
  Int.tdiv_eq_ediv_of_nonneg (Int.natCast_nonneg d)

/-- The mean comes to nothing only for a round trip well below it. -/
theorem add_eighth_nonpos_iff {u : Int} (hu : 0 ≤ u) (r : Int) :
    u + (r - u).tdiv 8 ≤ 0 ↔ u = 0 ∧ r ≤ 7 ∨ r ≤ -7 * u := by
  rcases le_total 0 (r - u) with hr | hr
  · rw [Int.tdiv_eq_ediv_of_nonneg hr]
    omega
  · rw [show r - u = -(u - r) by omega, Int.neg_tdiv, Int.tdiv_eq_ediv_of_nonneg (by omega)]
    omega

namespace DefaultController

def estimate (c : DefaultController) : Estimate :=
  ⟨microseconds c.rtt, c.rttVarianceMicros, microseconds c.timeout⟩

/-- The packet was sent exactly once and is not acknowledged yet. -/
def SentOnce (c : DefaultController) (seqNum : Uint16) : Prop :=
  ∃ r, c.transmissions.get? seqNum = some r ∧ r.acked = false ∧ r.numTransmissions = 1

/-- The difference of scale does not show: the mean is nought and stays so,
and the variance makes no difference to the timeout. -/
def ScaleHidden (c : DefaultController) (ack : Ack) : Prop :=
  let rtt := microseconds c.rtt
  let r := microseconds ack.rtt
  let v := max 0 (c.rttVarianceMicros + computeRTTVarianceAdjustment rtt c.rttVarianceMicros r)
  (rtt = 0 ∧ r ≤ 7 ∨ r ≤ -7 * rtt) ∧
    (v = 0 ∨ 4 * v ≤ microseconds c.minTimeout ∨ microseconds c.maxTimeout ≤ microseconds (4 * v) ∨
      microseconds c.maxTimeout ≤ microseconds c.minTimeout)

/-! ### One acknowledgement -/

section Step

variable {c : DefaultController}

/-- The mean comes to nothing in microseconds: then it does so as stored. -/
theorem updateRTT_rtt_zero {ack : Ack} (h : microseconds c.rtt +
    computeRTTAdjustment (microseconds c.rtt) (microseconds ack.rtt) ≤ 0) :
    (c.updateRTT ack).rtt = 0 := by
  show (max (milliseconds c.rtt + computeRTTAdjustment _ _) 0).toNat = 0
  generalize computeRTTAdjustment (microseconds c.rtt) (microseconds ack.rtt) = adjustment at h ⊢
  rw [microseconds_natCast] at h
  rw [milliseconds_natCast]
  omega

/-- The mean that is stored is right exactly if it is nought. -/
theorem updateRTT_rtt_iff (ack : Ack) :
    microseconds (c.updateRTT ack).rtt = max 0 (microseconds c.rtt +
      computeRTTAdjustment (microseconds c.rtt) (microseconds ack.rtt)) ↔
    microseconds c.rtt +
      computeRTTAdjustment (microseconds c.rtt) (microseconds ack.rtt) ≤ 0 := by
  constructor
  · show microseconds ((max (milliseconds c.rtt + computeRTTAdjustment _ _) 0).toNat : Nat) = _ → _
    generalize computeRTTAdjustment (microseconds c.rtt) (microseconds ack.rtt) = adjustment
    rw [microseconds_natCast, microseconds_natCast, milliseconds_natCast]
    omega
  · intro h
    rw [updateRTT_rtt_zero h, max_eq_left h]
    rfl

/-- With a mean of nought, a variance `v` added as nanoseconds gives the right
timeout exactly if the bounds hide it. -/
theorem timeout_iff {v : Int} (hv : 0 ≤ v) (minTimeout maxTimeout : Duration) :
    microseconds ((min (max (0 + v * 4) (minTimeout : Int)) (maxTimeout : Int)).toNat : Nat)
      = min (max (0 + 4 * v) (microseconds minTimeout)) (microseconds maxTimeout) ↔
    v = 0 ∨ 4 * v ≤ microseconds minTimeout ∨ microseconds maxTimeout ≤ microseconds (4 * v) ∨
      microseconds maxTimeout ≤ microseconds minTimeout := by
  have hfour : microseconds (4 * v) = 4 * v / 1000 := Int.tdiv_eq_ediv_of_nonneg (by omega)
  rw [hfour, microseconds_natCast, microseconds_natCast, microseconds_natCast]
  omega

theorem updateRTT_estimate_iff (c : DefaultController) (ack : Ack) :
    (c.updateRTT ack).estimate = c.estimate.next (microseconds c.minTimeout)
      (microseconds c.maxTimeout) (microseconds ack.rtt) ↔ c.ScaleHidden ack := by
  have hu : 0 ≤ microseconds c.rtt := by
    rw [microseconds_natCast]
    exact Int.ediv_nonneg (Int.natCast_nonneg _) (by decide)
  unfold ScaleHidden
  dsimp only
  rw [← add_eighth_nonpos_iff hu, estimate, Estimate.next, Estimate.mk.injEq]
  refine Iff.trans (and_congr (updateRTT_rtt_iff ack) (and_iff_right rfl)) (and_congr_right ?_)
  -- the mean is nought, so that the timeout is that of the variance
  intro hzero
  have hrtt := updateRTT_rtt_zero hzero
  have hmax : max 0 (microseconds c.rtt + (microseconds ack.rtt - microseconds c.rtt).tdiv 8) = 0 :=
    max_eq_left hzero
  show microseconds ((min (max (((c.updateRTT ack).rtt : Int) + max 0 _ * 4) (c.minTimeout : Int))
    (c.maxTimeout : Int)).toNat : Nat) = min (max (max 0 _ + 4 * max 0 _) _) _ ↔ _
  rw [hrtt, estimate, hmax]
  exact timeout_iff (le_max_left 0 _) c.minTimeout c.maxTimeout

/-- An acknowledgement of a packet sent once updates the estimate. -/
theorem onAck_sentOnce [Float64] {seqNum : Uint16} (h : c.SentOnce seqNum) (ack : Ack) :
    ∃ c₁ : DefaultController, (c.onAck seqNum ack).1 = c₁.updateRTT ack ∧ c₁.rtt = c.rtt ∧
      c₁.rttVarianceMicros = c.rttVarianceMicros ∧ c₁.timeout = c.timeout ∧
      c₁.minTimeout = c.minTimeout ∧ c₁.maxTimeout = c.maxTimeout := by
  obtain ⟨r, hr, hacked, hn⟩ := h
  simp only [onAck, hr, hacked, hn, Bool.false_eq_true, if_false, if_true]
  exact ⟨_, rfl, rfl, rfl, rfl, rfl, rfl⟩

/-- **One acknowledgement** of a packet sent once follows the estimate exactly
if the scale does not show. -/
theorem onAck_estimate_iff [Float64] {seqNum : Uint16} (h : c.SentOnce seqNum) (ack : Ack) :
    (c.onAck seqNum ack).1.estimate = c.estimate.next (microseconds c.minTimeout)
      (microseconds c.maxTimeout) (microseconds ack.rtt) ↔ c.ScaleHidden ack := by
  obtain ⟨c₁, heq, hrtt, hvar, htimeout, hmin, hmax⟩ := onAck_sentOnce h ack
  have hiff := updateRTT_estimate_iff c₁ ack
  unfold estimate ScaleHidden at hiff ⊢
  rw [hrtt, hvar, htimeout, hmin, hmax] at hiff
  rw [heq]
  exact hiff

theorem onAck_bounds [Float64] {seqNum : Uint16} (h : c.SentOnce seqNum) (ack : Ack) :
    (c.onAck seqNum ack).1.minTimeout = c.minTimeout ∧
      (c.onAck seqNum ack).1.maxTimeout = c.maxTimeout := by
  obtain ⟨c₁, heq, -, -, -, hmin, hmax⟩ := onAck_sentOnce h ack
  rw [heq]
  exact ⟨hmin, hmax⟩

end Step

/-! ### Any acknowledgements -/

variable [Float64]

def ackAll (c : DefaultController) (acks : List (Uint16 × Ack)) : DefaultController :=
  acks.foldl (fun c a => (c.onAck a.1 a.2).1) c

/-- **The round trip is estimated in one unit only where it does not
matter.**  Over any acknowledgements of packets sent once and not acknowledged
before, the mean, the variance and the timeout follow the equations of the
estimate after each of them, if and only if at each of them the scale does not
show. -/
theorem estimates_iff {c : DefaultController} {acks : List (Uint16 × Ack)}
    (honce : ∀ before a later, acks = before ++ a :: later → (c.ackAll before).SentOnce a.1) :
    (∀ before, before <+: acks → (c.ackAll before).estimate
      = (before.map fun a => microseconds a.2.rtt).foldl
        (Estimate.next (microseconds c.minTimeout) (microseconds c.maxTimeout)) c.estimate) ↔
    ∀ before a later, acks = before ++ a :: later → (c.ackAll before).ScaleHidden a.2 := by
  induction acks generalizing c with
  | nil =>
      refine iff_of_true ?_ (by simp)
      intro before hbefore
      obtain rfl := List.prefix_nil.mp hbefore
      rfl
  | cons a acks ih =>
      have hfirst : c.SentOnce a.1 := honce [] a acks rfl
      have hstep := onAck_estimate_iff hfirst a.2
      obtain ⟨hmin, hmax⟩ := onAck_bounds hfirst a.2
      have hrest := ih (c := (c.onAck a.1 a.2).1) fun before b later heq =>
        honce (a :: before) b later (by rw [heq]; rfl)
      rw [hmin, hmax] at hrest
      constructor
      · intro hall
        have hnext : (c.onAck a.1 a.2).1.estimate = _ := hall [a] (by simp)
        rw [List.map_cons, List.map_nil, List.foldl_cons, List.foldl_nil] at hnext
        have hlater := hrest.mp fun before hbefore => by
          have h := hall (a :: before) ((List.prefix_cons_inj a).mpr hbefore)
          rw [List.map_cons, List.foldl_cons, ← hnext] at h
          exact h
        intro before b later heq
        cases before with
        | nil =>
            cases heq
            exact hstep.mp hnext
        | cons a' before =>
            cases heq
            exact hlater before b later rfl
      · intro hhidden
        have hnext := hstep.mpr (hhidden [] a acks rfl)
        have hlater := hrest.mpr fun before b later heq =>
          hhidden (a :: before) b later (by rw [heq]; rfl)
        intro before hbefore
        rcases List.prefix_cons_iff.mp hbefore with rfl | ⟨before, rfl, hprefix⟩
        · rfl
        · have h := hlater before hprefix
          rw [hnext] at h
          exact h

omit [Float64] in
/-- A round trip below eight microseconds, with a variance of one that the
smallest timeout hides. -/
theorem estimates_hidden :
    let c := ((newDefaultController defaultCtrlConfig).onTransmit 1 .initial 1000).1
    (@ackAll exactFloat64 c [(1, ⟨0, 7000, 0⟩)]).estimate
      = c.estimate.next (microseconds c.minTimeout) (microseconds c.maxTimeout) 7 := by
  intro c
  let := exactFloat64
  have hacks : ∀ {before a later}, [((1 : Uint16), Ack.mk 0 7000 0)] = before ++ a :: later →
      before = [] ∧ a = (1, ⟨0, 7000, 0⟩) := by
    intro before a later heq
    cases before with
    | nil =>
        cases heq
        exact ⟨rfl, rfl⟩
    | cons b before => simp at heq
  refine (estimates_iff (c := c) ?_).mpr ?_ [(1, ⟨0, 7000, 0⟩)] (List.prefix_refl _)
  · intro before a later heq
    obtain ⟨rfl, rfl⟩ := hacks heq
    exact ⟨⟨1000, 1, false⟩, by decide +kernel, rfl, rfl⟩
  · intro before a later heq
    obtain ⟨rfl, rfl⟩ := hacks heq
    exact ⟨.inl (by decide +kernel), .inr (.inl (by decide +kernel))⟩

omit [Float64] in
/-- A round trip of four seconds: the mean should be half a second and the
timeout four and a half, and they are half a millisecond and the smallest
timeout there is. -/
theorem estimate_misscaled :
    let c := ((newDefaultController defaultCtrlConfig).onTransmit 1 .initial 1000).1
    (@ackAll exactFloat64 c [(1, ⟨0, 4000000000, 0⟩)]).estimate = ⟨500, 1000000, 500000⟩ ∧
    c.estimate.next (microseconds c.minTimeout) (microseconds c.maxTimeout) 4000000
      = ⟨500000, 1000000, 4500000⟩ := by
  decide +kernel

end DefaultController

end UtpGo

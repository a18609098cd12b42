/-
UtpGo/SocketWaiting.lean

Requests that wait for a SYN, and SYNs that wait for a request.  Each of the
two has a map and a wheel; an entry is put into both, removed from both, and
the wheel removes it from the map when its slot comes round (`Timed`).  The
wheel may keep an entry that the map has lost, as a key that was put twice
stands in two slots, but not the other way round (`Watched`): the entry of the
map is also in the wheel, with its value, at most ten slots ahead.

Main results: `run_meets`, a request and a SYN with the same id never wait at
the same time; and `run_expires`, after eleven ticks of their wheel all
requests that wait, or all SYNs, have come since.
-/
import UtpGo.DelaySetRuns
import UtpGo.SocketStreams

namespace UtpGo

open Checked

/-! ### A map with a wheel -/

/-- A map, and the wheel that removes its entries. -/
structure Timed (κ V : Type) [LinearOrder κ] where
  entries : OrdMap κ V
  wheel : TimeWheel κ V

section Timed

variable {κ V : Type} [LinearOrder κ] {fresh : κ → V → Prop} {t t' : Timed κ V} {turn : Bool}
  {key : κ} {value : V}

/-- What happens to a map with a wheel; `turn` says that it is a tick, and an
entry that is put is `fresh`. -/
inductive TimedStep (fresh : κ → V → Prop) (t : Timed κ V) : Bool → Timed κ V → Prop where
  | same : TimedStep fresh t false t
  | put (key : κ) (value : V) (hfresh : fresh key value) : TimedStep fresh t false
      ⟨t.entries.insert key value, t.wheel.put key value awaitingConnectionTimeout⟩
  | remove (key : κ) : TimedStep fresh t false ⟨t.entries.erase key, t.wheel.remove key⟩
  | tick : TimedStep fresh t true
      ⟨t.wheel.due.foldl (fun m item => m.erase item.1) t.entries, t.wheel.tick⟩

/-- What is left after the removals of a tick. -/
theorem get?_foldl_erase {items : List (κ × V)} {m : OrdMap κ V}
    (h : (items.foldl (fun m item => m.erase item.1) m).get? key = some value) :
    m.get? key = some value ∧ ∀ item ∈ items, item.1 ≠ key := by
  induction items generalizing m with
  | nil => exact ⟨h, fun item hitem => absurd hitem List.not_mem_nil⟩
  | cons item items ih =>
      obtain ⟨hget, hrest⟩ := ih h
      refine ⟨OrdMap.of_get?_erase hget, fun item' hitem' => ?_⟩
      rcases List.mem_cons.mp hitem' with rfl | hitem'
      · rintro rfl
        rw [OrdMap.get?_erase_self] at hget
        cases hget
      · exact hrest item' hitem'

/-- An entry was there before, or is fresh. -/
theorem TimedStep.origin (h : TimedStep fresh t turn t')
    (hget : t'.entries.get? key = some value) :
    t.entries.get? key = some value ∨ fresh key value := by
  cases h with
  | same => exact .inl hget
  | put key' value' hfresh =>
      rcases OrdMap.of_get?_insert hget with ⟨rfl, rfl⟩ | hget
      · exact .inr hfresh
      · exact .inl hget
  | remove key' => exact .inl (OrdMap.of_get?_erase hget)
  | tick => exact .inl (get?_foldl_erase hget).1

/-- The old entries of the map are in the wheel, fewer than `n` slots ahead. -/
structure Timed.Watched (t : Timed κ V) (old : V → Prop) (n : Nat) : Prop where
  wf : t.wheel.WF
  ahead : t.wheel.slotsAhead awaitingConnectionTimeout = 10
  rings : ∀ key value, t.entries.get? key = some value → old value →
    ∃ left < n, t.wheel.valueAt ((t.wheel.current + left) % t.wheel.slotNum) key = some value

theorem Timed.Watched.mono {old old' : V → Prop} {n n' : Nat} (h : t.Watched old n)
    (hold : ∀ value, old' value → old value) (hn : n ≤ n') : t.Watched old' n' where
  wf := h.wf
  ahead := h.ahead
  rings := fun key value hget hvalue => by
    obtain ⟨left, hleft, hat⟩ := h.rings key value hget (hold value hvalue)
    exact ⟨left, hleft.trans_le hn, hat⟩

/-- A tick brings the entries of the map a slot nearer, and removes those which
were in the current slot. -/
theorem Timed.Watched.tick {old : V → Prop} {n : Nat} (h : t.Watched old n) :
    Timed.Watched ⟨t.wheel.due.foldl (fun m item => m.erase item.1) t.entries, t.wheel.tick⟩ old
      (n - 1) where
  wf := show (t.wheel.apply .tick).WF from h.wf.apply
  ahead := h.ahead
  rings := fun key value hget hvalue => by
    obtain ⟨hget, hdue⟩ := get?_foldl_erase hget
    obtain ⟨left, hleft, hat⟩ := h.rings key value hget hvalue
    have hlater : (t.wheel.current + left) % t.wheel.slotNum ≠ t.wheel.current := by
      intro heq
      rw [heq] at hat
      exact hdue _ (TimeWheel.mem_due.mpr hat) rfl
    cases left with
    | zero => exact absurd (Nat.mod_eq_of_lt h.wf.current) hlater
    | succ left =>
        refine ⟨left, Nat.lt_sub_of_add_lt hleft, ?_⟩
        show t.wheel.tick.valueAt
          (((t.wheel.current + 1) % t.wheel.slotNum + left) % t.wheel.slotNum) key = _
        rw [Nat.mod_add_mod, Nat.add_right_comm, Nat.add_assoc, TimeWheel.valueAt_tick,
          if_neg hlater, hat]

/-- One step: what is fresh is not old, or may be as far away as the wheel puts
it. -/
theorem Timed.Watched.step {old : V → Prop} {n : Nat} (h : t.Watched old n)
    (hstep : TimedStep fresh t turn t')
    (hfresh : ∀ key value, fresh key value → ¬ old value ∨ 10 < n) :
    t'.Watched old (n - turn.toNat) := by
  cases hstep with
  | same => exact h
  | tick => exact h.tick
  | put key value hnew =>
      refine ⟨h.wf.put, h.ahead, fun key' value' hget hvalue => ?_⟩
      show ∃ left < n, (t.wheel.put key value _).valueAt
        ((t.wheel.current + left) % t.wheel.slotNum) key' = _
      by_cases hkey : key' = key
      · subst hkey
        rw [OrdMap.get?_insert_self] at hget
        obtain rfl := Option.some.inj hget
        rcases hfresh key' value hnew with hnot | hn
        · exact absurd hvalue hnot
        · refine ⟨10, hn, ?_⟩
          rw [TimeWheel.valueAt_put h.wf, if_pos]
          rw [TimeWheel.slotFor, h.ahead]
          exact ⟨rfl, rfl⟩
      · rw [OrdMap.get?_insert_of_ne hkey] at hget
        obtain ⟨left, hleft, hat⟩ := h.rings key' value' hget hvalue
        refine ⟨left, hleft, ?_⟩
        rw [TimeWheel.valueAt_put h.wf, if_neg fun heq => hkey heq.2, hat]
  | remove key =>
      have hwf : (t.wheel.apply (.remove key)).WF := h.wf.apply
      refine ⟨hwf, h.ahead, fun key' value' hget hvalue => ?_⟩
      have hkey : key' ≠ key := by
        rintro rfl
        rw [OrdMap.get?_erase_self] at hget
        cases hget
      obtain ⟨left, hleft, hat⟩ := h.rings key' value' (OrdMap.of_get?_erase hget) hvalue
      exact ⟨left, hleft, (TimeWheel.valueAt_remove_of_ne hkey).trans hat⟩

/-- A wheel of a socket. -/
theorem Timed.watched_new : Timed.Watched
    (⟨.empty, newTimeWheel (2 * second) 20⟩ : Timed κ V) (fun _ => True) 11 where
  wf := TimeWheel.wf_new (by decide) (by decide)
  ahead := by
    show min awaitingConnectionTimeout (20 * (2 * second)) / (2 * second) = 10
    decide
  rings := by
    rintro key value ⟨⟩

end Timed

/-! ### The two maps of a socket -/

namespace UtpSocket

variable {π κ : Type} [LinearOrder κ]

/-- The requests that wait for a SYN. -/
def waitingRequests (s : UtpSocket π κ) : Timed κ (Accept π) :=
  ⟨s.awaiting, s.awaitingExpirations⟩

/-- The SYNs that wait for a request. -/
def waitingSyns (s : UtpSocket π κ) : Timed κ (IncomingPacket π) :=
  ⟨s.incomingConns, s.incomingConnsExpirations⟩

/-- A tick of the wheel of requests. -/
def Op.turnsAwaiting : Op π κ → Bool
  | .expireAwaiting => true
  | _ => false

/-- A tick of the wheel of SYNs. -/
def Op.turnsIncoming : Op π κ → Bool
  | .expireIncoming => true
  | _ => false

variable [CidHash π κ] {s s' s₁ : UtpSocket π κ} {op : Op π κ} {cid : Cid π} {rnd : Uint16}
  {now : Time}

/-- What a step does to those who wait.  A request that is stored has just been
received, and there is no SYN for its id; a SYN that is stored has just
arrived, and there is no request for its id. -/
structure WaitStep (s : UtpSocket π κ) (op : Op π κ) (s' : UtpSocket π κ) : Prop where
  taken : s.taken <+: s'.taken
  requests : TimedStep (fun key req => s'.taken = s.taken ++ [req] ∧
      (∃ cid, req.cid = some cid ∧ genHash cid = key) ∧ s'.incomingConns.get? key = none)
    s.waitingRequests op.turnsAwaiting s'.waitingRequests
  syns : TimedStep (fun key incomingConn =>
      op.arrival? = some (incomingConn.pkt, incomingConn.cid.peer) ∧
      genHash incomingConn.cid = key ∧ s'.awaiting.get? key = none)
    s.waitingSyns op.turnsIncoming s'.waitingSyns

omit [CidHash π κ] in
/-- Nobody comes and nobody goes. -/
structure SameWaiting (s s' : UtpSocket π κ) : Prop where
  taken : s'.taken = s.taken
  requests : s'.waitingRequests = s.waitingRequests
  syns : s'.waitingSyns = s.waitingSyns

theorem SameWaiting.step (h : s.SameWaiting s') (hreq : op.turnsAwaiting = false)
    (hsyn : op.turnsIncoming = false) : s.WaitStep op s' where
  taken := h.taken ▸ List.prefix_rfl
  requests := by
    rw [hreq, h.requests]
    exact .same
  syns := by
    rw [hsyn, h.syns]
    exact .same

omit [LinearOrder κ] [CidHash π κ] in
theorem peer_cidFromPacket (packet : Packet) (src : π) (idType : IdType) :
    (cidFromPacket packet src idType).peer = src := by
  cases idType with
  | recvId =>
      rw [cidFromPacket]
      split <;> rfl
  | sendIdWeInitiated => rfl
  | sendIdPeerInitiated => rfl

theorem sameWaiting_selectAcceptHelper (syn : Packet) (accept : Accept π) :
    s.SameWaiting (s.selectAcceptHelper cid syn accept rnd now) := by
  unfold selectAcceptHelper
  split <;> exact ⟨rfl, rfl, rfl⟩

theorem waits_handleIncomingBuf (incomingRaw : IncomingPacketRaw π) :
    s.WaitStep (.incoming incomingRaw rnd now) (s.handleIncomingBuf incomingRaw rnd now) := by
  have hsame : ∀ s' : UtpSocket π κ, s.SameWaiting s' →
      s.WaitStep (.incoming incomingRaw rnd now) s' := fun s' h => h.step rfl rfl
  unfold handleIncomingBuf
  split
  · exact hsame s ⟨rfl, rfl, rfl⟩
  rename_i packet hpacket
  split
  · exact hsame _ ⟨rfl, rfl, rfl⟩
  unfold handleUnrouted
  split
  · split <;> exact hsame _ ⟨rfl, rfl, rfl⟩
  · dsimp only
    split
    · exact ⟨List.prefix_rfl, .remove _, .same⟩
    · rename_i hnone
      refine ⟨List.prefix_rfl, .same, .put _ _ ⟨?_, rfl, hnone⟩⟩
      rw [Op.arrival?, hpacket, peer_cidFromPacket]
      rfl

theorem waits_takeAcceptWithCid {req : Accept π} {rest : List (Accept π)}
    (hok : handleNewAcceptWithCidEvent
      { s with acceptsWithCidCh := rest, taken := s.taken ++ [req] } req rnd now = .ok s') :
    s.WaitStep (.takeAcceptWithCid rnd now) s' := by
  unfold handleNewAcceptWithCidEvent at hok
  split at hok
  · cases hok
  rename_i cid hcid
  unfold removeIncomingConn at hok
  cases hget : s.incomingConns.get? (genHash cid) with
  | some incomingConn =>
      simp only [hget] at hok
      obtain rfl := pure_eq_ok.mp hok
      -- the SYN goes with the request in hand
      let s₁ : UtpSocket π κ := { s with
        acceptsWithCidCh := rest
        taken := s.taken ++ [req]
        incomingConns := s.incomingConns.erase (genHash cid)
        incomingConnsExpirations := s.incomingConnsExpirations.remove (genHash cid) }
      have h : s₁.SameWaiting (s₁.selectAcceptHelper cid incomingConn.pkt req rnd now) :=
        sameWaiting_selectAcceptHelper incomingConn.pkt req
      refine ⟨h.taken ▸ List.prefix_append .., ?_, ?_⟩
      · rw [h.requests]
        exact .same
      · rw [h.syns]
        exact .remove _
  | none =>
      simp only [hget] at hok
      obtain rfl := pure_eq_ok.mp hok
      exact ⟨List.prefix_append .., .put _ _ ⟨rfl, ⟨cid, hcid, rfl⟩, hget⟩, .same⟩

omit [CidHash π κ] in
/-- A SYN is taken out of the map, if there is one. -/
theorem waits_nextIncomingConn (first : κ) (hnext : (s.nextIncomingConn first).2 = s') :
    s'.taken = s.taken ∧ s'.waitingRequests = s.waitingRequests ∧
      (s'.waitingSyns = s.waitingSyns ∨ ∃ key, s'.waitingSyns =
        ⟨s.incomingConns.erase key, s.incomingConnsExpirations.remove key⟩) := by
  subst hnext
  have hremove : ∀ key : κ, (s.removeIncomingConn key).2.taken = s.taken ∧
      (s.removeIncomingConn key).2.waitingRequests = s.waitingRequests ∧
      ((s.removeIncomingConn key).2.waitingSyns = s.waitingSyns ∨
        ∃ key', (s.removeIncomingConn key).2.waitingSyns =
          ⟨s.incomingConns.erase key', s.incomingConnsExpirations.remove key'⟩) := by
    intro key
    unfold removeIncomingConn
    split
    · exact ⟨rfl, rfl, .inr ⟨key, rfl⟩⟩
    · exact ⟨rfl, rfl, .inl rfl⟩
  unfold nextIncomingConn
  split
  · exact hremove first
  · split
    · exact ⟨rfl, rfl, .inl rfl⟩
    · exact hremove _

theorem waits_takeAccept {req : Accept π} {rest : List (Accept π)} (first : κ) :
    s.WaitStep (.takeAccept first rnd now)
      (handleNewAcceptEvent { s with accepts := rest } req first rnd now) := by
  have hstep : ∀ s₁ s₂ : UtpSocket π κ, (nextIncomingConn { s with accepts := rest } first).2 = s₁ →
      s₁.SameWaiting s₂ → s.WaitStep (.takeAccept first rnd now) s₂ := by
    intro s₁ s₂ hnext hsame
    obtain ⟨htaken, hrequests, hsyns⟩ := waits_nextIncomingConn first hnext
    refine ⟨(hsame.taken.trans htaken) ▸ List.prefix_rfl, ?_, ?_⟩
    · rw [hsame.requests, hrequests]
      exact .same
    · rw [hsame.syns]
      rcases hsyns with hsyns | ⟨key, hsyns⟩
      · rw [hsyns]
        exact .same
      · rw [hsyns]
        exact .remove key
  unfold handleNewAcceptEvent
  split
  · rename_i incomingAccept s₁ hs₁
    exact hstep s₁ _ (by rw [hs₁]) (sameWaiting_selectAcceptHelper incomingAccept.pkt req)
  · rename_i s₁ hs₁
    exact hstep s₁ _ (by rw [hs₁]) ⟨rfl, rfl, rfl⟩

theorem sameWaiting_connect {peer : π} {config : ConnectionConfig} {rnds : List Uint16} :
    s.SameWaiting ((s.connect peer config rnds rnd now).getD s) := by
  unfold connect
  dsimp only
  cases h : generateCid s.makeChan.1 peer true (some s.makeChan.2) rnds with
  | none => exact ⟨rfl, rfl, rfl⟩
  | some r =>
      obtain ⟨cid, s₁⟩ := r
      obtain rfl := generateCid_spec h
      exact ⟨rfl, rfl, rfl⟩

variable [Float64]

omit [CidHash π κ] in
theorem sameWaiting_serve {i : Nat} {ev : LoopEvent} {chans : List (List StreamEvent)}
    (hok : serve { s with chans } i ev = .ok s') : s.SameWaiting s' := by
  unfold serve at hok
  split at hok
  · obtain rfl := pure_eq_ok.mp hok
    exact ⟨rfl, rfl, rfl⟩
  · obtain ⟨loop, -, hok⟩ := bind_eq_ok.mp hok
    obtain rfl := pure_eq_ok.mp hok
    exact ⟨rfl, rfl, rfl⟩

omit [CidHash π κ] in
theorem sameWaiting_receive {i : Nat} {shutdown : Bool}
    (hok : s.receive i shutdown rnd now = .ok s') : s.SameWaiting s' := by
  unfold receive at hok
  split at hok
  · obtain rfl := pure_eq_ok.mp hok
    exact ⟨rfl, rfl, rfl⟩
  split at hok
  · obtain rfl := pure_eq_ok.mp hok
    exact ⟨rfl, rfl, rfl⟩
  · exact sameWaiting_serve hok

omit [CidHash π κ] [Float64] in
theorem sameWaiting_awaitConnected {i : Nat} (hok : s.awaitConnected i = .ok s') :
    s.SameWaiting s' := by
  unfold awaitConnected at hok
  split at hok
  · obtain rfl := pure_eq_ok.mp hok
    exact ⟨rfl, rfl, rfl⟩
  split at hok
  · cases hok
  · obtain rfl := pure_eq_ok.mp hok
    exact ⟨rfl, rfl, rfl⟩
  · obtain rfl := pure_eq_ok.mp hok
    exact ⟨rfl, rfl, rfl⟩

/-- What a step does to those who wait, for every operation. -/
theorem step_waits (hok : s.step op = .ok s') : s.WaitStep op s' := by
  cases op with
  | incoming incomingRaw rnd now =>
      obtain rfl := pure_eq_ok.mp hok
      exact waits_handleIncomingBuf incomingRaw
  | acceptWithCid | accept =>
      obtain rfl := pure_eq_ok.mp hok
      exact SameWaiting.step ⟨rfl, rfl, rfl⟩ rfl rfl
  | takeAcceptWithCid rnd now =>
      simp only [step] at hok
      split at hok
      · obtain rfl := pure_eq_ok.mp hok
        exact SameWaiting.step ⟨rfl, rfl, rfl⟩ rfl rfl
      · exact waits_takeAcceptWithCid hok
  | takeAccept first rnd now =>
      simp only [step] at hok
      split at hok
      · obtain rfl := pure_eq_ok.mp hok
        exact SameWaiting.step ⟨rfl, rfl, rfl⟩ rfl rfl
      · obtain rfl := pure_eq_ok.mp hok
        exact waits_takeAccept first
  | expireAwaiting =>
      obtain rfl := pure_eq_ok.mp hok
      exact ⟨List.prefix_rfl, .tick, .same⟩
  | expireIncoming =>
      obtain rfl := pure_eq_ok.mp hok
      exact ⟨List.prefix_rfl, .same, .tick⟩
  | connect peer config rnds rnd now =>
      obtain rfl := pure_eq_ok.mp hok
      exact sameWaiting_connect.step rfl rfl
  | connectWithCid cid config rnd now =>
      obtain rfl := pure_eq_ok.mp hok
      refine SameWaiting.step ?_ rfl rfl
      unfold connectWithCid
      split <;> exact ⟨rfl, rfl, rfl⟩
  | awaitConnected i => exact (sameWaiting_awaitConnected hok).step rfl rfl
  | close =>
      obtain rfl := pure_eq_ok.mp hok
      refine SameWaiting.step ?_ rfl rfl
      unfold sendShutdownEventToConns
      split <;> exact ⟨rfl, rfl, rfl⟩
  | writeLoop =>
      obtain rfl := pure_eq_ok.mp hok
      refine SameWaiting.step ?_ rfl rfl
      unfold writeLoop
      split <;> exact ⟨rfl, rfl, rfl⟩
  | receive i shutdown rnd now => exact (sameWaiting_receive hok).step rfl rfl
  | serve i ev => exact (sameWaiting_serve hok).step rfl rfl

/-! ### Runs -/

omit [Float64] in
/-- The keys are those of the ids, and no key is in both maps. -/
structure Apart (s : UtpSocket π κ) : Prop where
  requests : ∀ key req, s.awaiting.get? key = some req →
    ∃ cid, req.cid = some cid ∧ genHash cid = key
  syns : ∀ key incomingConn, s.incomingConns.get? key = some incomingConn →
    genHash incomingConn.cid = key
  apart : ∀ key req incomingConn, s.awaiting.get? key = some req →
    s.incomingConns.get? key ≠ some incomingConn

omit [Float64] in
theorem Apart.step (h : s.Apart) (hstep : s.WaitStep op s') : s'.Apart where
  requests := fun key req hget => by
    rcases hstep.requests.origin hget with hold | hnew
    · exact h.requests key req hold
    · exact hnew.2.1
  syns := fun key incomingConn hget => by
    rcases hstep.syns.origin hget with hold | hnew
    · exact h.syns key incomingConn hold
    · exact hnew.2.1
  apart := fun key req incomingConn hreq hsyn => by
    -- what is stored finds nothing in the other map
    rcases hstep.requests.origin hreq with hreq' | hnew
    · rcases hstep.syns.origin hsyn with hsyn' | hnew
      · exact h.apart key req incomingConn hreq' hsyn'
      · cases hreq.symm.trans hnew.2.2
    · cases hsyn.symm.trans hnew.2.2

omit [Float64] in
/-- Those who wait are watched, for as long as the wheels put them ahead. -/
structure AllWatched (s : UtpSocket π κ) : Prop where
  requests : s.waitingRequests.Watched (fun _ => True) 11
  syns : s.waitingSyns.Watched (fun _ => True) 11

theorem run_watched {ops : List (Op π κ)} (hrun : withSocket.run ops = .ok s) : s.AllWatched := by
  have hstart : (withSocket : UtpSocket π κ).AllWatched :=
    ⟨Timed.watched_new, Timed.watched_new⟩
  have htrue : ∀ {V : Type} (v : V), True → True := fun _ h => h
  refine foldlM_inv (fun s : UtpSocket π κ => s.AllWatched) hrun hstart fun s op s' _ h hok => ?_
  have hstep := step_waits hok
  constructor
  · exact (h.requests.step hstep.requests fun _ _ _ => .inr (by decide)).mono htrue
      (Nat.sub_le ..)
  · exact (h.syns.step hstep.syns fun _ _ _ => .inr (by decide)).mono htrue (Nat.sub_le ..)

omit [LinearOrder κ] [CidHash π κ] [Float64] in
theorem sub_turns (turn : Bool) (n k : Nat) :
    n - (k + if turn = true then 1 else 0) = n - turn.toNat - k := by
  cases turn with
  | false => rfl
  | true =>
      show n - (k + 1) = n - 1 - k
      omega

/-- What waited at the start comes nearer with every tick. -/
theorem run_nearer {ops : List (Op π κ)} {new : List (Accept π)} {arrived : List (Packet × π)}
    {n m : Nat} (hrequests : s.waitingRequests.Watched (· ∉ new) n)
    (hsyns : s.waitingSyns.Watched
      (fun incomingConn => (incomingConn.pkt, incomingConn.cid.peer) ∉ arrived) m)
    (hrun : s.run ops = .ok s') : ∃ newer, s'.taken = s.taken ++ newer ∧
      s'.waitingRequests.Watched (· ∉ new ++ newer) (n - ops.countP Op.turnsAwaiting) ∧
      s'.waitingSyns.Watched (fun incomingConn => (incomingConn.pkt, incomingConn.cid.peer) ∉
        arrived ++ ops.filterMap Op.arrival?) (m - ops.countP Op.turnsIncoming) := by
  induction ops generalizing s new arrived n m with
  | nil =>
      obtain rfl := pure_eq_ok.mp hrun
      refine ⟨[], (List.append_nil _).symm, ?_, ?_⟩
      · rw [List.append_nil]
        exact hrequests
      · rw [List.filterMap_nil, List.append_nil]
        exact hsyns
  | cons op ops ih =>
      obtain ⟨s₁, hok, hrun⟩ := bind_eq_ok.mp hrun
      have hstep := step_waits hok
      obtain ⟨taken, htaken⟩ := hstep.taken
      have hrequests₁ : s₁.waitingRequests.Watched (· ∉ new ++ taken)
          (n - op.turnsAwaiting.toNat) := by
        refine (hrequests.mono (fun _ hnot hmem => hnot (List.mem_append_left _ hmem)) le_rfl).step
          hstep.requests fun key req hfresh => .inl fun hnot => hnot ?_
        have heq := List.append_cancel_left (htaken.trans hfresh.1)
        rw [heq]
        exact List.mem_append_right _ (List.mem_singleton_self req)
      have hsyns₁ : s₁.waitingSyns.Watched (fun incomingConn =>
          (incomingConn.pkt, incomingConn.cid.peer) ∉ arrived ++ op.arrival?.toList)
          (m - op.turnsIncoming.toNat) := by
        refine (hsyns.mono (fun _ hnot hmem => hnot (List.mem_append_left _ hmem)) le_rfl).step
          hstep.syns fun key incomingConn hfresh => .inl fun hnot => hnot ?_
        rw [hfresh.1]
        exact List.mem_append_right _ (List.mem_singleton_self _)
      obtain ⟨newer, htaken', hrequests', hsyns'⟩ := ih hrequests₁ hsyns₁ hrun
      refine ⟨taken ++ newer, ?_, ?_, ?_⟩
      · rw [htaken', ← htaken, List.append_assoc]
      · rw [List.countP_cons, sub_turns, ← List.append_assoc]
        exact hrequests'
      · rw [List.append_assoc] at hsyns'
        rw [List.countP_cons, sub_turns, List.filterMap_cons]
        cases harrival : op.arrival? with
        | none =>
            rw [harrival] at hsyns'
            exact hsyns'
        | some arrival =>
            rw [harrival] at hsyns'
            exact hsyns'

/-- **Nobody waits for ever.**  Once the wheel of requests has ticked eleven
times every request that waits was received since, and once the wheel of SYNs
has, every SYN that waits arrived since. -/
theorem run_expires (ops ops' : List (Op π κ)) (s s' : UtpSocket π κ)
    (hrun : withSocket.run ops = .ok s) (hrun' : s.run ops' = .ok s') :
    (11 ≤ ops'.countP Op.turnsAwaiting → ∃ newer, s'.taken = s.taken ++ newer ∧
      ∀ key req, s'.awaiting.get? key = some req → req ∈ newer) ∧
    (11 ≤ ops'.countP Op.turnsIncoming → ∀ key incomingConn,
      s'.incomingConns.get? key = some incomingConn →
      (incomingConn.pkt, incomingConn.cid.peer) ∈ ops'.filterMap Op.arrival?) := by
  obtain ⟨hrequests, hsyns⟩ := run_watched hrun
  have hrequests₀ : s.waitingRequests.Watched (· ∉ ([] : List (Accept π))) 11 :=
    hrequests.mono (fun _ _ => trivial) le_rfl
  have hsyns₀ : s.waitingSyns.Watched (fun incomingConn =>
      (incomingConn.pkt, incomingConn.cid.peer) ∉ ([] : List (Packet × π))) 11 :=
    hsyns.mono (fun _ _ => trivial) le_rfl
  obtain ⟨newer, htaken, hrequests', hsyns'⟩ := run_nearer hrequests₀ hsyns₀ hrun'
  constructor
  · intro hticks
    refine ⟨newer, htaken, fun key req hget => ?_⟩
    by_contra hold
    obtain ⟨left, hleft, -⟩ := hrequests'.rings key req hget hold
    omega
  · intro hticks key incomingConn hget
    by_contra hold
    obtain ⟨left, hleft, -⟩ := hsyns'.rings key incomingConn hget hold
    omega

omit [LinearOrder κ] [CidHash π κ] [Float64] in
/-- A request that waits, and the ticks after which it does not. -/
theorem run_expires_request : ∃ s s',
    @run Nat Nat _ plainHash exactFloat64 withSocket
      [.acceptWithCid ⟨⟨100, 101⟩, 1⟩ newConnectionConfig, .takeAcceptWithCid 0 0] = .ok s ∧
    @run Nat Nat _ plainHash exactFloat64 s (List.replicate 11 .expireAwaiting) = .ok s' ∧
    s.awaiting.size = 1 ∧ ∀ key, s'.awaiting.get? key = none := by
  let := plainHash
  let := exactFloat64
  have hrun : ∃ s s', (withSocket : UtpSocket Nat Nat).run
        [.acceptWithCid ⟨⟨100, 101⟩, 1⟩ newConnectionConfig, .takeAcceptWithCid 0 0] = .ok s ∧
      s.run (List.replicate 11 .expireAwaiting) = .ok s' ∧ s.awaiting.size = 1 ∧
      s'.taken = s.taken := ⟨_, _, rfl, rfl, rfl, rfl⟩
  obtain ⟨s, s', hrun, hrun', hsize, htaken⟩ := hrun
  refine ⟨s, s', hrun, hrun', hsize, fun key => ?_⟩
  obtain ⟨newer, hnewer, hwait⟩ := (run_expires _ _ s s' hrun hrun').1 (by decide)
  rw [htaken, List.self_eq_append_right] at hnewer
  cases hget : s'.awaiting.get? key with
  | none => rfl
  | some req =>
      have hmem := hwait key req hget
      rw [hnewer] at hmem
      cases hmem

end UtpSocket

end UtpGo

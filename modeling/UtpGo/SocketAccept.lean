/-
UtpGo/SocketAccept.lean

What becomes of the requests to accept a connection.  A request with an id
meets its SYN through two maps: the one that arrives first is stored, and the
other takes it out.  Both maps have one entry for an id, and both let their
entries expire.

`Books` is what a socket knows about requests, and `Moves` says what a step
does to it: a request waits in its channel, is stored, is paired with a SYN,
or is refused, and a step moves it from one of these places to the next.  Two
steps are not of this kind.  A request with an id under which another one is
stored takes its place, and a request that expires is deleted; in both cases
nobody is told.

Main result: `requests_kept`, in a run without such steps every request that
the event loop has received is stored under its id, paired with one SYN, or
answered.
-/
import UtpGo.SocketDesk

namespace UtpGo

open Checked

namespace UtpSocket

variable {π κ : Type} [LinearOrder κ] [CidHash π κ]

/-! ### Requests paired and refused -/

/-- The requests that streams answer, with their SYNs. -/
def pairings (s : UtpSocket π κ) : List (Accept π × Option Packet) :=
  s.streams.filterMap fun st => st.accept.map fun req => (req, st.syn)

/-- The requests that were refused. -/
def refusals (s : UtpSocket π κ) : List Nat :=
  s.results.filterMap fun result => match result.2 with
    | .error .noIncomingConn | .error .cidUnavailable => some result.1
    | _ => none

end UtpSocket

/-! ### The books -/

/-- What a socket knows about requests. -/
structure Books (π κ : Type) [LinearOrder κ] where
  requests : List (Accept π)
  taken : List (Accept π)
  withCid : List (Accept π)
  plain : List (Accept π)
  awaiting : OrdMap κ (Accept π)
  pairings : List (Accept π × Option Packet)
  refusals : List Nat

variable {π κ : Type} [LinearOrder κ] [CidHash π κ]

/-- What a step does to the books. -/
inductive Moves (b : Books π κ) : Books π κ → Prop where
  | same : Moves b b
  | ask (config : ConnectionConfig) (cid : Cid π) : Moves b { b with
      requests := b.requests ++ [⟨b.requests.length, config, some cid⟩]
      withCid := b.withCid ++ [⟨b.requests.length, config, some cid⟩] }
  | askPlain (config : ConnectionConfig) : Moves b { b with
      requests := b.requests ++ [⟨b.requests.length, config, none⟩]
      plain := b.plain ++ [⟨b.requests.length, config, none⟩] }
  | store {req : Accept π} {rest : List (Accept π)} {cid : Cid π}
      (hreq : b.withCid = req :: rest) (hcid : req.cid = some cid)
      (hfree : b.awaiting.get? (genHash cid) = none) : Moves b { b with
        withCid := rest
        taken := b.taken ++ [req]
        awaiting := b.awaiting.insert (genHash cid) req }
  | pair {req : Accept π} {rest : List (Accept π)} (syn : Packet)
      (hreq : b.withCid = req :: rest) : Moves b { b with
        withCid := rest
        taken := b.taken ++ [req]
        pairings := b.pairings ++ [(req, some syn)] }
  | refuse {req : Accept π} {rest : List (Accept π)} (hreq : b.withCid = req :: rest) :
      Moves b { b with
        withCid := rest
        taken := b.taken ++ [req]
        refusals := b.refusals ++ [req.stream] }
  | pairStored {req : Accept π} {key : κ} (syn : Packet) (hkey : b.awaiting.get? key = some req) :
      Moves b { b with
        awaiting := b.awaiting.erase key
        pairings := b.pairings ++ [(req, some syn)] }
  | pairPlain {req : Accept π} {rest : List (Accept π)} (syn : Packet)
      (hreq : b.plain = req :: rest) : Moves b { b with
        plain := rest
        pairings := b.pairings ++ [(req, some syn)] }
  | refusePlain {req : Accept π} {rest : List (Accept π)} (hreq : b.plain = req :: rest) :
      Moves b { b with plain := rest, refusals := b.refusals ++ [req.stream] }

namespace Books

variable {b b' : Books π κ} {req : Accept π}

omit [CidHash π κ] in
/-- The numbers of the requests in each place. -/
def places (b : Books π κ) : List Nat :=
  b.withCid.map (·.stream) ++ b.plain.map (·.stream) ++ b.awaiting.values.map (·.stream)
    ++ b.pairings.map (·.1.stream) ++ b.refusals

omit [CidHash π κ] in
def Mentions (b : Books π κ) (req : Accept π) : Prop :=
  req ∈ b.withCid ∨ req ∈ b.plain ∨ req ∈ b.taken ∨ (∃ key, b.awaiting.get? key = some req) ∨
    ∃ syn, (req, syn) ∈ b.pairings

/-- Every request is in one place. -/
structure Balanced (b : Books π κ) : Prop where
  known : ∀ req, b.Mentions req → b.requests[req.stream]? = some req
  withCid : ∀ req, req ∈ b.withCid ∨ req ∈ b.taken → req.cid ≠ none
  plain : ∀ req ∈ b.plain, req.cid = none
  keyed : ∀ key req, b.awaiting.get? key = some req → ∃ cid, req.cid = some cid ∧ genHash cid = key
  paired : ∀ req syn, (req, syn) ∈ b.pairings → syn ≠ none
  once : ((b.withCid ++ b.taken).map (·.stream)).Nodup
  places : b.places.Perm (List.range b.requests.length)

omit [CidHash π κ] in
theorem count_stored_insert {key : κ} (h : b.awaiting.get? key = none) (n : Nat) :
    ((b.awaiting.insert key req).values.map (·.stream)).count n
      = (b.awaiting.values.map (·.stream)).count n + [req.stream].count n := by
  have hperm := ((OrdMap.perm_insert (v := req) h).map (·.2)).map (·.stream)
  rw [OrdMap.values, hperm.count_eq n, Nat.add_comm, ← List.count_append]
  rfl

omit [CidHash π κ] in
theorem count_stored_erase {key : κ} (h : b.awaiting.get? key = some req) (n : Nat) :
    (b.awaiting.values.map (·.stream)).count n
      = ((b.awaiting.erase key).values.map (·.stream)).count n + [req.stream].count n := by
  have hperm := ((OrdMap.perm_erase (OrdMap.get?_eq_some.mp h)).map (·.2)).map (·.stream)
  rw [OrdMap.values, hperm.count_eq n, Nat.add_comm, ← List.count_append]
  rfl

omit [CidHash π κ] in
theorem lt_of_known (h : b.requests[req.stream]? = some req) : req.stream < b.requests.length :=
  (List.getElem?_eq_some_iff.mp h).1

/-- A move that makes no request leaves each in one place. -/
theorem places_of_moves (h : b.places.Perm (List.range b.requests.length)) (hm : Moves b b') :
    b'.places.Perm (List.range b'.requests.length) := by
  have hcount : ∀ n, b.places.count n = (List.range b.requests.length).count n := h.count_eq
  refine List.perm_iff_count.mpr fun n => ?_
  specialize hcount n
  cases hm with
  | same => exact hcount
  | ask | askPlain =>
      simp only [places, List.count_append, List.map_append, List.map_cons, List.map_nil,
        List.length_append, List.length_singleton, List.range_succ] at hcount ⊢
      omega
  | store hreq _ hfree =>
      simp only [places, hreq, List.count_append, List.map_cons, List.count_cons,
        count_stored_insert hfree, List.count_nil] at hcount ⊢
      omega
  | pair _ hreq | refuse hreq | pairPlain _ hreq | refusePlain hreq =>
      simp only [places, hreq, List.count_append, List.map_append, List.map_cons, List.map_nil,
        List.count_cons, List.count_nil] at hcount ⊢
      omega
  | pairStored _ hkey =>
      have herase := count_stored_erase hkey n
      simp only [places, List.count_append, List.map_append, List.map_cons, List.map_nil,
        List.count_cons, List.count_nil] at hcount herase ⊢
      omega

/-- A request that is mentioned after a move was mentioned before, or is
new. -/
theorem mentions_of_moves (hm : Moves b b') (h : b'.Mentions req) :
    b.Mentions req ∨ b'.requests = b.requests ++ [req] ∧ req.stream = b.requests.length := by
  unfold Mentions at h ⊢
  cases hm with
  | same => exact .inl h
  | ask | askPlain =>
      simp only [List.mem_append, List.mem_singleton] at h
      grind
  | store hreq | pair _ hreq | refuse hreq =>
      simp only [List.mem_append, hreq, List.mem_cons] at h ⊢
      grind [→ OrdMap.of_get?_insert]
  | pairStored _ hkey =>
      simp only [List.mem_append, List.mem_singleton] at h
      grind [→ OrdMap.of_get?_erase]
  | pairPlain _ hreq | refusePlain hreq =>
      simp only [List.mem_append, hreq, List.mem_cons] at h ⊢
      grind

omit [LinearOrder κ] [CidHash π κ] in
/-- Receiving a request leaves the list of those asked for and received as it
is, but for the order. -/
theorem once_of_take {taken withCid rest : List (Accept π)} (hreq : withCid = req :: rest)
    (h : ((withCid ++ taken).map (·.stream)).Nodup) :
    ((rest ++ (taken ++ [req])).map (·.stream)).Nodup := by
  subst hreq
  have hperm : (req :: rest ++ taken).Perm (rest ++ (taken ++ [req])) := by
    rw [← List.append_assoc]
    exact (List.perm_append_singleton req (rest ++ taken)).symm
  exact (hperm.map _).nodup_iff.mp h

theorem once_of_moves (h : b.Balanced) (hm : Moves b b') :
    ((b'.withCid ++ b'.taken).map (·.stream)).Nodup := by
  cases hm with
  | same | askPlain | pairStored | pairPlain | refusePlain => exact h.once
  | ask config cid =>
      let new : Accept π := ⟨b.requests.length, config, some cid⟩
      have hperm : (b.withCid ++ [new] ++ b.taken).Perm (new :: (b.withCid ++ b.taken)) := by
        rw [List.append_assoc]
        exact List.perm_middle
      refine (hperm.map _).nodup_iff.mpr (List.nodup_cons.mpr ⟨fun hmem => ?_, h.once⟩)
      -- the number of the new request is larger than that of any other
      obtain ⟨req, hreq, hnum⟩ := List.mem_map.mp hmem
      have hmentions : b.Mentions req := by
        rcases List.mem_append.mp hreq with hreq | hreq
        · exact .inl hreq
        · exact .inr (.inr (.inl hreq))
      exact (lt_of_known (h.known req hmentions)).ne hnum
  | store hreq | pair _ hreq | refuse hreq => exact once_of_take hreq h.once

/-- **Moves keep the balance**. -/
theorem Balanced.moves (h : b.Balanced) (hm : Moves b b') : b'.Balanced where
  known := by
    have hgrow : ∃ new, b'.requests = b.requests ++ new := by
      cases hm with
      | ask | askPlain => exact ⟨_, rfl⟩
      | _ => exact ⟨[], (List.append_nil _).symm⟩
    intro req hreq
    rcases mentions_of_moves hm hreq with hold | ⟨hrequests, hnum⟩
    · obtain ⟨new, hnew⟩ := hgrow
      have hknown := h.known req hold
      rw [hnew, List.getElem?_append_left (lt_of_known hknown)]
      exact hknown
    · rw [hrequests, hnum, List.getElem?_concat_length]
  withCid := by
    have hold := h.withCid
    cases hm with
    | same | askPlain | pairStored | pairPlain | refusePlain => exact hold
    | ask =>
        simp only [List.mem_append, List.mem_singleton]
        grind
    | store hreq | pair _ hreq | refuse hreq =>
        simp only [hreq, List.mem_cons, List.mem_append] at hold ⊢
        grind
  plain := by
    have hold := h.plain
    cases hm with
    | askPlain =>
        simp only [List.mem_append, List.mem_singleton]
        grind
    | pairPlain _ hreq | refusePlain hreq =>
        exact fun req hmem => hold req (hreq ▸ List.mem_cons_of_mem _ hmem)
    | _ => exact hold
  keyed := by
    have hold := h.keyed
    cases hm with
    | store hreq hcid =>
        intro key req hget
        rcases OrdMap.of_get?_insert hget with ⟨rfl, rfl⟩ | hget
        · exact ⟨_, hcid, rfl⟩
        · exact hold key req hget
    | pairStored => exact fun key req hget => hold key req (OrdMap.of_get?_erase hget)
    | _ => exact hold
  paired := by
    have hold := h.paired
    cases hm with
    | pair | pairStored | pairPlain =>
        simp only [List.mem_append, List.mem_singleton]
        grind
    | _ => exact hold
  once := once_of_moves h hm
  places := places_of_moves h.places hm

/-- The request has not been lost. -/
def Keeps (b : Books π κ) (req : Accept π) : Prop :=
  (∃ cid, req.cid = some cid ∧ b.awaiting.get? (genHash cid) = some req) ∨
  (∃ syn, (req, some syn) ∈ b.pairings ∧
    b.pairings.countP (fun pairing => pairing.1.stream = req.stream) = 1) ∨
  req.stream ∈ b.refusals

/-- A request that was received is stored, paired once, or refused. -/
theorem Balanced.keeps (h : b.Balanced) (hreq : req ∈ b.taken) : b.Keeps req := by
  have hknown := h.known req (.inr (.inr (.inl hreq)))
  have hsame : ∀ req', b.Mentions req' → req'.stream = req.stream → req' = req := by
    intro req' hmentions hnum
    have hknown' := h.known req' hmentions
    rw [hnum, hknown] at hknown'
    exact (Option.some.inj hknown').symm
  have hcount : b.places.count req.stream = 1 := by
    rw [h.places.count_eq]
    exact List.count_eq_one_of_mem List.nodup_range (List.mem_range.mpr (lt_of_known hknown))
  have hplace : req.stream ∈ b.places := List.count_pos_iff.mp (by omega)
  simp only [Books.places, List.mem_append, List.mem_map] at hplace
  rcases hplace with (((⟨req', hmem, hnum⟩ | ⟨req', hmem, hnum⟩) | ⟨req', hmem, hnum⟩) |
    ⟨⟨req', syn⟩, hmem, hnum⟩) | hmem
  · -- it has left its channel
    have hdisj := (List.nodup_append.mp (List.map_append ▸ h.once)).2.2
    exact absurd hnum (hdisj _ (List.mem_map_of_mem hmem) _ (List.mem_map_of_mem hreq))
  · have heq := hsame req' (.inr (.inl hmem)) hnum
    exact absurd (h.plain req' hmem) (heq ▸ h.withCid req (.inr hreq))
  · obtain ⟨⟨key, req''⟩, hentry, rfl⟩ := List.mem_map.mp hmem
    have hget := OrdMap.get?_eq_some.mpr hentry
    obtain rfl := hsame _ (.inr (.inr (.inr (.inl ⟨key, hget⟩)))) hnum
    obtain ⟨cid, hcid, rfl⟩ := h.keyed key _ hget
    exact .inl ⟨cid, hcid, hget⟩
  · obtain rfl := hsame req' (.inr (.inr (.inr (.inr ⟨syn, hmem⟩)))) hnum
    obtain ⟨syn, rfl⟩ := Option.ne_none_iff_exists'.mp (h.paired req' syn hmem)
    refine .inr (.inl ⟨syn, hmem, ?_⟩)
    have hpos : 0 < b.pairings.countP fun pairing => pairing.1.stream = req'.stream :=
      List.countP_pos_iff.mpr ⟨_, hmem, by simp⟩
    have hle : b.pairings.countP (fun pairing => pairing.1.stream = req'.stream)
        = (b.pairings.map (·.1.stream)).count req'.stream := by
      rw [List.count, List.countP_map]
      rfl
    simp only [Books.places, List.count_append] at hcount
    omega
  · exact .inr (.inr hmem)

end Books

/-! ### What a step does to the books -/

section

variable {d d' : Desk π κ} {req : Accept π}

omit [CidHash π κ] in
def Desk.books (d : Desk π κ) : Books π κ where
  requests := d.requests
  taken := d.taken
  withCid := d.withCid
  plain := d.plain
  awaiting := d.awaiting
  pairings := d.streams.filterMap fun st => st.accept.map fun req => (req, st.syn)
  refusals := d.results.filterMap fun result => match result.2 with
    | .error .noIncomingConn | .error .cidUnavailable => some result.1
    | _ => none

omit [LinearOrder κ] [CidHash π κ] in
/-- The loop of a stream changes, and nothing else of it. -/
theorem filterMap_set {α β : Type} {f : α → Option β} {l : List α} {i : Nat} {a a' : α}
    (h : l[i]? = some a) (hf : f a' = f a) : (l.set i a').filterMap f = l.filterMap f := by
  induction l generalizing i with
  | nil => rfl
  | cons x l ih =>
      cases i with
      | zero =>
          cases h
          rw [List.set_cons_zero, List.filterMap_cons, List.filterMap_cons, hf]
      | succ i => rw [List.set_cons_succ, List.filterMap_cons, List.filterMap_cons, ih h]

omit [CidHash π κ] in
/-- A request that is handled is paired or refused. -/
theorem Handled.books (h : Handled d req d') :
    (∃ syn, d'.books = { d.books with pairings := d.books.pairings ++ [(req, some syn)] }) ∨
      d'.books = { d.books with refusals := d.books.refusals ++ [req.stream] } := by
  cases h with
  | pair cid syn =>
      refine .inl ⟨syn, ?_⟩
      rw [Desk.books, List.filterMap_append]
      rfl
  | refuse herr =>
      rename_i err
      refine .inr ?_
      rw [Desk.books, List.filterMap_append]
      cases err with
      | noIncomingConn | cidUnavailable => rfl
      | connectionFailed => exact absurd rfl herr

omit [CidHash π κ] in
/-- Keys under which nothing is stored are not erased. -/
theorem foldl_erase_of_none (keys : List κ)
    (h : ∀ key ∈ keys, d.awaiting.get? key = none) :
    keys.foldl (fun m key => m.erase key) d.awaiting = d.awaiting := by
  induction keys with
  | nil => rfl
  | cons key keys ih =>
      rw [List.foldl_cons, OrdMap.erase_of_get?_eq_none (h key List.mem_cons_self)]
      exact ih fun key' hkey' => h key' (List.mem_cons_of_mem _ hkey')

/-- **Steps are moves**: a step that loses nothing in silence moves a request
from one place to the next, or none. -/
theorem DeskStep.moves [Float64] {safe : Prop} (h : DeskStep safe d d') (hsafe : safe) :
    Moves d.books d'.books := by
  have hsame : d'.books = d.books → Moves d.books d'.books := fun h => h ▸ .same
  cases h with
  | same => exact .same
  | ask config cid => exact .ask config cid
  | askPlain config => exact .askPlain config
  | store hreq hcid hfree => exact .store hreq hcid (hfree hsafe)
  | take hreq h =>
      rcases h.books with ⟨syn, h⟩ | h
      · rw [h]
        exact .pair syn hreq
      · rw [h]
        exact .refuse hreq
  | takePlain hreq h =>
      rcases h.books with ⟨syn, h⟩ | h
      · rw [h]
        exact .pairPlain syn hreq
      · rw [h]
        exact .refusePlain hreq
  | pairStored hkey cid syn =>
      show Moves d.books { d.books with
        awaiting := _, pairings := List.filterMap _ (d.streams ++ [_]) }
      rw [List.filterMap_append]
      exact .pairStored syn hkey
  | expire keys hkeys =>
      apply hsame
      exact congrArg (fun awaiting => { d.books with awaiting })
        (foldl_erase_of_none keys (hkeys hsafe))
  | connect cid config streamEvents rnd now =>
      apply hsame
      simp [Desk.books, UtpStream.fresh]
  | answer hi hcid hresult =>
      -- neither a stream nor a failed connection is a refusal
      rename_i result
      apply hsame
      cases result with
      | ok => simp [Desk.books]
      | error err =>
          obtain rfl := hresult err rfl
          simp [Desk.books]
  | serve hst hok =>
      rename_i i st _ loop
      have hpairings : (d.streams.set i { st with loop }).filterMap
          (fun st => st.accept.map fun req => (req, st.syn)) = d.books.pairings :=
        filterMap_set hst rfl
      apply hsame
      rw [Desk.books, hpairings]
      rfl

end

namespace UtpSocket

variable {s s' : UtpSocket π κ}

omit [CidHash π κ] in
def books (s : UtpSocket π κ) : Books π κ where
  requests := s.requests
  taken := s.taken
  withCid := s.acceptsWithCidCh
  plain := s.accepts
  awaiting := s.awaiting
  pairings := s.pairings
  refusals := s.refusals

/-! ### Steps and runs -/

variable [Float64]

theorem step_moves {op : Op π κ} (hsafe : s.Safe op) (hok : s.step op = .ok s') :
    Moves s.books s'.books :=
  (step_desk hok).moves hsafe

omit [Float64] in
theorem balanced_withSocket : (withSocket : UtpSocket π κ).books.Balanced where
  known := by
    rintro req (h | h | h | ⟨key, h⟩ | ⟨syn, h⟩) <;> cases h
  withCid := by
    rintro req (h | h) <;> cases h
  plain := by
    rintro req ⟨⟩
  keyed := by
    rintro key req ⟨⟩
  paired := by
    rintro req syn ⟨⟩
  once := List.nodup_nil
  places := List.Perm.refl _

theorem run_balanced {ops : List (Op π κ)} (hsafe : Along Safe s ops) (hs : s.books.Balanced)
    (hok : s.run ops = .ok s') : s'.books.Balanced := by
  induction ops generalizing s with
  | nil => exact pure_eq_ok.mp hok ▸ hs
  | cons op ops ih =>
      obtain ⟨s₁, hstep, hok⟩ := bind_eq_ok.mp hok
      exact ih (hsafe.2 s₁ hstep) (hs.moves (step_moves hsafe.1 hstep)) hok

omit [Float64] in
/-- The request has not been lost: it is stored under its id, paired with one
SYN, or was sent a result. -/
def Kept (s : UtpSocket π κ) (req : Accept π) : Prop :=
  (∃ cid, req.cid = some cid ∧ s.awaiting.get? (genHash cid) = some req) ∨
  (∃ syn, (req, some syn) ∈ s.pairings ∧
    s.pairings.countP (fun pairing => pairing.1.stream = req.stream) = 1) ∨
  ∃ result, (req.stream, result) ∈ s.results

/-- **No request is lost unless another takes its place or it expires**: in
every run in which a request that is stored finds its place free, and none
that is stored expires, every request with an id that the event loop has
received is stored under its id, paired with exactly one SYN, or answered. -/
theorem requests_kept (ops : List (Op π κ)) (s : UtpSocket π κ)
    (hrun : withSocket.run ops = .ok s) (hsafe : Along Safe withSocket ops) (req : Accept π)
    (hreq : req ∈ s.taken) : s.Kept req := by
  rcases (run_balanced hsafe balanced_withSocket hrun).keeps hreq with h | h | h
  · exact .inl h
  · exact .inr (.inl h)
  · obtain ⟨⟨n, result⟩, hresult, hn⟩ := List.mem_filterMap.mp h
    refine .inr (.inr ⟨result, ?_⟩)
    dsimp only at hn
    split at hn
    · cases hn
      exact hresult
    · cases hn
      exact hresult
    · cases hn

omit [LinearOrder κ] [CidHash π κ] [Float64] in
/-- A request, and the SYN that it waits for. -/
theorem requests_kept_syn : ∃ s req, @run Nat Nat _ plainHash exactFloat64 withSocket
      [.acceptWithCid ⟨⟨100, 101⟩, 1⟩ newConnectionConfig, .takeAcceptWithCid 0 0,
        .incoming ⟨1, (newPacketBuilder .st_syn 100 0 1000 7).build.encode⟩ 5 0] = .ok s ∧
    req ∈ s.taken ∧ s.pairings.length = 1 ∧ @Kept Nat Nat _ plainHash s req := by
  let := plainHash
  let := exactFloat64
  let ops : List (Op Nat Nat) :=
    [.acceptWithCid ⟨⟨100, 101⟩, 1⟩ newConnectionConfig, .takeAcceptWithCid 0 0,
      .incoming ⟨1, (newPacketBuilder .st_syn 100 0 1000 7).build.encode⟩ 5 0]
  have hrun : ∃ s req rest, (withSocket : UtpSocket Nat Nat).run ops = .ok s ∧
      s.taken = req :: rest ∧ s.pairings.length = 1 := ⟨_, _, _, rfl, rfl, rfl⟩
  obtain ⟨s, req, rest, hrun, htaken, hpaired⟩ := hrun
  have hreq : req ∈ s.taken := htaken ▸ List.mem_cons_self
  have hsafe : Along Safe (withSocket : UtpSocket Nat Nat) ops := by
    refine ⟨trivial, fun s₁ h₁ => ⟨?_, fun s₂ h₂ => ⟨trivial, fun _ _ => trivial⟩⟩⟩
    obtain rfl := pure_eq_ok.mp h₁
    exact fun _ _ _ _ _ _ => rfl
  exact ⟨s, req, hrun, hreq, hpaired, requests_kept ops s hrun hsafe req hreq⟩

omit [LinearOrder κ] [CidHash π κ] [Float64] in
/-- Two requests for one id: the second takes the place of the first, which is
gone; and a request whose SYN does not arrive is gone at the eleventh tick. -/
theorem requests_lost :
    (∃ s req, @run Nat Nat _ plainHash exactFloat64 withSocket
      [.acceptWithCid ⟨⟨100, 101⟩, 1⟩ newConnectionConfig,
        .acceptWithCid ⟨⟨100, 101⟩, 1⟩ newConnectionConfig, .takeAcceptWithCid 0 0,
        .takeAcceptWithCid 0 0] = .ok s ∧ req ∈ s.taken ∧ ¬ @Kept Nat Nat _ plainHash s req) ∧
    ∃ s req, @run Nat Nat _ plainHash exactFloat64 withSocket
      (.acceptWithCid ⟨⟨100, 101⟩, 1⟩ newConnectionConfig :: .takeAcceptWithCid 0 0 ::
        List.replicate 11 .expireAwaiting) = .ok s ∧
      req ∈ s.taken ∧ ¬ @Kept Nat Nat _ plainHash s req := by
  let := plainHash
  have hgone : ∀ {s : UtpSocket Nat Nat} {req : Accept Nat},
      req.stream ∉ s.awaiting.values.map (·.stream) → s.pairings = [] → s.results = [] →
      ¬ s.Kept req := by
    rintro s req hstored hpairings hresults (⟨cid, -, hget⟩ | ⟨syn, hsyn, -⟩ | ⟨result, hresult⟩)
    · have hentry := List.mem_map_of_mem (f := (·.2)) (OrdMap.get?_eq_some.mp hget)
      exact hstored (List.mem_map_of_mem (f := Accept.stream) hentry)
    · rw [hpairings] at hsyn
      cases hsyn
    · rw [hresults] at hresult
      cases hresult
  constructor
  · have hrun : ∃ s req rest, @run Nat Nat _ plainHash exactFloat64 withSocket
        [.acceptWithCid ⟨⟨100, 101⟩, 1⟩ newConnectionConfig,
          .acceptWithCid ⟨⟨100, 101⟩, 1⟩ newConnectionConfig, .takeAcceptWithCid 0 0,
          .takeAcceptWithCid 0 0] = .ok s ∧ s.taken = req :: rest ∧ req.stream = 0 ∧
        s.awaiting.values.map (·.stream) = [1] ∧ s.pairings = [] ∧ s.results = [] :=
      ⟨_, _, _, rfl, rfl, rfl, rfl, rfl, rfl⟩
    obtain ⟨s, req, rest, hrun, htaken, hnum, hstored, hpairings, hresults⟩ := hrun
    refine ⟨s, req, hrun, htaken ▸ List.mem_cons_self, hgone ?_ hpairings hresults⟩
    rw [hstored, hnum]
    decide
  · have hrun : ∃ s req rest, @run Nat Nat _ plainHash exactFloat64 withSocket
        (.acceptWithCid ⟨⟨100, 101⟩, 1⟩ newConnectionConfig :: .takeAcceptWithCid 0 0 ::
          List.replicate 11 .expireAwaiting) = .ok s ∧ s.taken = req :: rest ∧
        s.awaiting.values.map (·.stream) = [] ∧ s.pairings = [] ∧ s.results = [] :=
      ⟨_, _, _, rfl, rfl, rfl, rfl, rfl⟩
    obtain ⟨s, req, rest, hrun, htaken, hstored, hpairings, hresults⟩ := hrun
    refine ⟨s, req, hrun, htaken ▸ List.mem_cons_self, hgone ?_ hpairings hresults⟩
    rw [hstored]
    exact List.not_mem_nil

end UtpSocket

end UtpGo

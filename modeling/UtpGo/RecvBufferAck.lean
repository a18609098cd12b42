/-
UtpGo/RecvBufferAck.lean

What the selective acknowledgement of a receive buffer says.

Main results: `selectiveAck_spec`, it has between one and sixty-three words,
so that it can be put on the wire, and a flag that is set stands for a packet
that is pending; and `length_words_le_iff`, how many words it has depends on
how far ahead the pending numbers reach.
-/
import UtpGo.RecvBufferSpec

namespace UtpGo

/-! ### Packing flags into words -/

theorem AckWord.toList_ofFragment (fragment : List Bool) :
    (AckWord.ofFragment fragment).toList = (fragment ++ List.replicate 32 false).take 32 := rfl

theorem toList_ofFragment_full {fragment : List Bool} (h : fragment.length = 32) :
    (AckWord.ofFragment fragment).toList = fragment := by
  rw [AckWord.toList_ofFragment]
  exact List.take_left' h

/-- The full words hold the flags themselves. -/
theorem flatMap_fullWords (acked : List Bool) {chunks : Nat} (h : chunks * 32 ≤ acked.length) :
    ((List.range chunks).map fun i => AckWord.ofFragment ((acked.drop (i * 32)).take 32)).flatMap
      (·.toList) = acked.take (chunks * 32) := by
  induction chunks with
  | zero => simp
  | succ n ih =>
      have hfull : ((acked.drop (n * 32)).take 32).length = 32 := by
        rw [List.length_take, List.length_drop]
        omega
      rw [List.range_succ, List.map_append, List.flatMap_append, ih (by omega), List.map_singleton,
        List.flatMap_singleton, toList_ofFragment_full hfull, Nat.succ_mul, List.take_add]

/-- The words are the flags, padded with unset ones. -/
theorem acked_newSelectiveAck (acked : List Bool) :
    ∃ n, (newSelectiveAck acked).acked = acked ++ List.replicate n false := by
  have hle : acked.length / 32 * 32 ≤ acked.length := Nat.div_mul_le_self _ _
  have hfull := flatMap_fullWords acked hle
  unfold newSelectiveAck SelectiveAck.acked
  dsimp only
  split
  · have hlen : (acked.drop (acked.length / 32 * 32)).length ≤ 32 := by
      rw [List.length_drop]
      omega
    refine ⟨32 - (acked.drop (acked.length / 32 * 32)).length, ?_⟩
    rw [List.flatMap_append, hfull, List.flatMap_singleton, AckWord.toList_ofFragment,
      List.take_append, List.take_of_length_le hlen, List.take_replicate, min_eq_left (by omega),
      ← List.append_assoc, List.take_append_drop]
  · refine ⟨0, ?_⟩
    rw [hfull, List.replicate_zero, List.append_nil, List.take_of_length_le]
    omega

theorem length_words_newSelectiveAck (acked : List Bool) :
    (newSelectiveAck acked).words.length = (acked.length + 31) / 32 := by
  unfold newSelectiveAck
  dsimp only
  split
  · simp only [List.length_append, List.length_map, List.length_range, List.length_singleton]
    omega
  · simp only [List.length_map, List.length_range]
    omega

namespace ReceiveBuffer

/-! ### The flags -/

theorem length_selectiveAckLoop_le (room : Nat) (pendingSeqs : List Uint16) (lastAck : Uint16) :
    (selectiveAckLoop room pendingSeqs lastAck).length ≤ room := by
  induction room generalizing pendingSeqs lastAck with
  | zero => exact le_refl 0
  | succ room ih =>
      unfold selectiveAckLoop
      split
      · exact Nat.zero_le _
      · split
        · exact Nat.succ_le_succ (ih _ _)
        · exact Nat.succ_le_succ (ih _ _)

/-- While a number is pending there is at least one flag. -/
theorem selectiveAckLoop_ne_nil (room : Nat) {pendingSeqs : List Uint16} (lastAck : Uint16)
    (h : pendingSeqs ≠ []) : selectiveAckLoop (room + 1) pendingSeqs lastAck ≠ [] := by
  unfold selectiveAckLoop
  rw [if_neg (by simpa using h)]
  split <;> simp

theorem selectiveAckLoop_flag {room : Nat} {pendingSeqs : List Uint16} {lastAck : Uint16} {i : Nat}
    (h : (selectiveAckLoop room pendingSeqs lastAck)[i]? = some true) :
    lastAck + BitVec.ofNat 16 i ∈ pendingSeqs := by
  induction room generalizing pendingSeqs lastAck i with
  | zero => simp [selectiveAckLoop] at h
  | succ room ih =>
      have hnext : ∀ j, lastAck + BitVec.ofNat 16 (j + 1) = lastAck + 1 + BitVec.ofNat 16 j := by
        intro j
        bv_omega
      unfold selectiveAckLoop at h
      split at h
      · simp at h
      · split at h
        · rename_i hmem
          cases i with
          | zero => simpa using hmem
          | succ j =>
              rw [hnext]
              exact List.mem_of_mem_erase (ih (by simpa using h))
        · cases i with
          | zero => simp at h
          | succ j =>
              rw [hnext]
              exact ih (by simpa using h)

/-- A number other than the one looked at is one step nearer to the next. -/
theorem ahead_succ {lastAck x : Uint16} (h : x ≠ lastAck) :
    Circular.ahead lastAck x = Circular.ahead (lastAck + 1) x + 1 := by
  unfold Circular.ahead
  bv_omega

/-- There are flags up to the last pending number, as far as there is room. -/
theorem length_selectiveAckLoop_le_iff (room : Nat) {pendingSeqs : List Uint16}
    (hnodup : pendingSeqs.Nodup) (lastAck : Uint16) (n : Nat) :
    (selectiveAckLoop room pendingSeqs lastAck).length ≤ n ↔
      room ≤ n ∨ ∀ x ∈ pendingSeqs, Circular.ahead lastAck x < n := by
  induction room generalizing pendingSeqs lastAck n with
  | zero => simp [selectiveAckLoop]
  | succ room ih =>
      rcases hp : pendingSeqs with - | ⟨first, rest⟩
      · simp [selectiveAckLoop]
      rw [← hp]
      have hne : pendingSeqs.isEmpty = false := by rw [hp]; rfl
      -- the flag for `lastAck`, and the numbers looked for after it
      have hloop : ∃ flag seqs, seqs.Nodup ∧ (∀ x, x ∈ seqs ↔ x ≠ lastAck ∧ x ∈ pendingSeqs) ∧
          selectiveAckLoop (room + 1) pendingSeqs lastAck
            = flag :: selectiveAckLoop room seqs (lastAck + 1) := by
        by_cases hmem : lastAck ∈ pendingSeqs
        · refine ⟨true, pendingSeqs.erase lastAck, hnodup.erase _,
            fun x => hnodup.mem_erase_iff, ?_⟩
          rw [selectiveAckLoop, hne, if_neg Bool.false_ne_true, if_pos hmem]
        · refine ⟨false, pendingSeqs, hnodup, fun x => ?_, ?_⟩
          · exact ⟨fun hx => ⟨fun h => hmem (h ▸ hx), hx⟩, And.right⟩
          · rw [selectiveAckLoop, hne, if_neg Bool.false_ne_true, if_neg hmem]
      obtain ⟨flag, seqs, hseqs, hmem, hloop⟩ := hloop
      rw [hloop, List.length_cons]
      rcases n with - | n
      · refine ⟨fun h => absurd h (by omega), ?_⟩
        rintro (h | h)
        · omega
        · exact absurd (h first (by simp [hp])) (by omega)
      · rw [Nat.add_le_add_iff_right, ih hseqs, Nat.add_le_add_iff_right]
        refine or_congr_right ⟨fun h x hx => ?_, fun h x hx => ?_⟩
        · by_cases heq : x = lastAck
          · subst heq
            simp [Circular.ahead]
          · rw [ahead_succ heq]
            exact Nat.succ_lt_succ (h x ((hmem x).mpr ⟨heq, hx⟩))
        · obtain ⟨hne', hx⟩ := (hmem x).mp hx
          have hlt := h x hx
          rw [ahead_succ hne'] at hlt
          omega

/-- **How many words there are**: at most `k` if and only if every pending
number is among the `32 * k` that follow the first missing one, or `k` words
are all there is room for. -/
theorem length_words_le_iff {rb : ReceiveBuffer} {s : SelectiveAck} (h : rb.selectiveAck = some s)
    (k : Nat) : s.words.length ≤ k ↔
      63 ≤ k ∨ ∀ x, rb.pending.contains x = true → Circular.ahead (rb.ackNum + 2) x < 32 * k := by
  unfold selectiveAck at h
  split at h
  · cases h
  cases h
  have hkeys : ∀ x, rb.pending.contains x = true ↔ x ∈ rb.pending.keys := by
    intro x
    rw [OrdMap.contains_iff, OrdMap.mem_keys]
  have hroom : maxSelectiveAckCount ≤ 32 * k ↔ 63 ≤ k := by
    unfold maxSelectiveAckCount
    omega
  have hiff := length_selectiveAckLoop_le_iff maxSelectiveAckCount rb.pending.nodup_keys
    (rb.ackNum + 2) (32 * k)
  simp only [hkeys]
  rw [← hroom, ← hiff, length_words_newSelectiveAck]
  omega

/-- **Selective acknowledgement**: it fits on the wire, and it flags pending
packets only. -/
theorem selectiveAck_spec {rb : ReceiveBuffer} {s : SelectiveAck} (h : rb.selectiveAck = some s) :
    (s.words ≠ [] ∧ s.words.length ≤ 63) ∧ ∀ i, s.acked[i]? = some true →
      rb.pending.contains (rb.ackNum + 2 + BitVec.ofNat 16 i) = true := by
  unfold selectiveAck at h
  split at h
  · cases h
  rename_i hsize
  cases h
  have hkeys : rb.pending.keys ≠ [] := by
    intro hnil
    refine hsize ?_
    have hlen := congrArg List.length hnil
    simpa [OrdMap.keys, OrdMap.size] using hlen
  have hle := length_selectiveAckLoop_le maxSelectiveAckCount rb.pending.keys (rb.ackNum + 2)
  have hne : selectiveAckLoop maxSelectiveAckCount rb.pending.keys (rb.ackNum + 2) ≠ [] :=
    selectiveAckLoop_ne_nil (32 * 63 - 1) _ hkeys
  have hpos := List.length_pos_iff.mpr hne
  have hwords := length_words_newSelectiveAck
    (selectiveAckLoop maxSelectiveAckCount rb.pending.keys (rb.ackNum + 2))
  refine ⟨⟨?_, ?_⟩, ?_⟩
  · rw [← List.length_pos_iff, hwords]
    omega
  · rw [hwords]
    unfold maxSelectiveAckCount at hle ⊢
    omega
  · intro i hi
    obtain ⟨n, hpad⟩ := acked_newSelectiveAck
      (selectiveAckLoop maxSelectiveAckCount rb.pending.keys (rb.ackNum + 2))
    rw [hpad] at hi
    rcases Nat.lt_or_ge i
      (selectiveAckLoop maxSelectiveAckCount rb.pending.keys (rb.ackNum + 2)).length with hlt | hge
    · rw [List.getElem?_append_left hlt] at hi
      exact OrdMap.contains_iff.mpr (OrdMap.mem_keys.mp (selectiveAckLoop_flag hi))
    · -- the padding is not set
      rw [List.getElem?_append_right hge] at hi
      exact absurd (List.eq_of_mem_replicate (List.mem_of_getElem? hi)) (by simp)

end ReceiveBuffer

end UtpGo

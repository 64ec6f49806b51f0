import Lws.TableLayout
/-!
# TableInsert — `lws_table_insert` and `lws_table_rehash` keep every entry reachable

`lws_table_insert` returns a slot that the new hash reaches, after at most one entry has moved along its own probe sequence
into a slot that was free; the contents of the order list stay as they are (`tableInsert_inserted`).  Filling the slot
(`Inserted.fill`) restores the layout, and the reinsertion loop of the rehash is that step repeated (`reinsert_spec`).
-/
namespace Lws

open Ring (IsRing Links)
open Probe (probe)

variable {b : Build} {V : Type}

/-! ## The three loops -/

theorem worstLoop_spec (t : Table b V) (hash : BitVec b.bits) : ∀ (fuel k len : Nat),
    (∀ j < k, (t.entries (t.seq hash j)).state = .set) →
    (∃ m, k ≤ m ∧ m < k + fuel ∧ (t.entries (t.seq hash m)).state ≠ .set) →
    ∃ w, k ≤ w ∧ w < k + fuel ∧ worstLoop t (t.stride hash) fuel (t.seq hash k) len = (t.seq hash w, len + (w - k)) ∧
      (t.entries (t.seq hash w)).state ≠ .set ∧ ∀ j < w, (t.entries (t.seq hash j)).state = .set
  | 0, k, len, _, ⟨m, hkm, hm, _⟩ => by omega
  | fuel + 1, k, len, hset, ⟨m, hkm, hm, hfree⟩ => by
    unfold worstLoop
    by_cases hk : (t.entries (t.seq hash k)).state = .set
    · have hne : m ≠ k := fun he => hfree (he ▸ hk)
      obtain ⟨w, hkw, hw, heq, hwf, hws⟩ := worstLoop_spec t hash fuel (k + 1) (len + 1)
        (fun j hj => by
          rcases Nat.lt_succ_iff_lt_or_eq.1 hj with hlt | rfl
          · exact hset j hlt
          · exact hk)
        ⟨m, by omega, by omega, hfree⟩
      refine ⟨w, by omega, by omega, ?_, hwf, hws⟩
      rw [if_pos hk, Table.seq_succ, heq]
      congr 1
      omega
    · exact ⟨k, le_refl _, by omega, by rw [if_neg hk, Nat.sub_self, Nat.add_zero], hk, hset⟩

/-- The move leads from a slot to the first slot not set further along the sequence of the entry in it. -/
def MoveOk (t : Table b V) (m : Move) : Prop :=
  ∃ i, 1 ≤ i ∧ m.new = probe t.alloc (t.stride (t.entries m.old).hash) m.old i ∧ (t.entries m.new).state ≠ .set ∧
    ∀ j, 1 ≤ j → j < i → (t.entries (probe t.alloc (t.stride (t.entries m.old).hash) m.old j)).state = .set

theorem moveSearch_spec (t : Table b V) (qMove o len lenWorst hMove lenMove' : Nat) : ∀ (fuel j lenMove : Nat),
    moveSearch t qMove len lenWorst fuel (probe t.alloc qMove o j) lenMove = some (hMove, lenMove') →
    ∃ i, j ≤ i ∧ lenMove' = lenMove + (i - j) ∧ hMove = probe t.alloc qMove o i ∧ (t.entries hMove).state ≠ .set ∧
      ∀ m, j ≤ m → m < i → (t.entries (probe t.alloc qMove o m)).state = .set
  | 0, _, _, h => by cases h
  | fuel + 1, j, lenMove, h => by
    unfold moveSearch at h
    split at h
    · rename_i hfree
      cases h
      exact ⟨j, le_refl _, by omega, rfl, hfree, fun m hm hmj => by omega⟩
    · rename_i hset
      have hset : (t.entries (probe t.alloc qMove o j)).state = .set := not_not.1 hset
      split at h
      · cases h
      · rw [Probe.probe_succ] at h
        obtain ⟨i, hji, hlen, hnew, hfree, hall⟩ := moveSearch_spec t qMove o len lenWorst hMove lenMove' fuel (j + 1) _ h
        refine ⟨i, by omega, by omega, hnew, hfree, fun m hm hmi => ?_⟩
        rcases Nat.eq_or_lt_of_le hm with rfl | hlt
        · exact hset
        · exact hall m hlt hmi

/-- What is known of a move when the outer loop looks at slot `k` of a sequence: it came from before, or it is sound and
starts from a slot before the worst case. -/
def MoveFrom (t : Table b V) (hash : BitVec b.bits) (lenWorst : Nat) (move : Option Move) (m : Move) : Prop :=
  move = some m ∨ ∃ j, j + 2 < lenWorst ∧ m.old = t.seq hash j ∧ MoveOk t m

theorem moveRound_spec {t : Table b V} {hash : BitVec b.bits} {lenWorst k len : Nat} {move : Option Move} {m : Move}
    (hk : k + 2 < lenWorst) (h : moveRound t lenWorst (t.seq hash k) len move = some m) :
    MoveFrom t hash lenWorst move m := by
  unfold moveRound at h
  dsimp only at h
  split at h
  · rename_i hMove lenMove hsearch
    have hone : (t.seq hash k + t.stride (t.entries (t.seq hash k)).hash) % t.alloc =
        probe t.alloc (t.stride (t.entries (t.seq hash k)).hash) (t.seq hash k) 1 := by
      rw [probe, Nat.one_mul]
    rw [hone] at hsearch
    obtain ⟨i, hi, -, hnew, hfree, hall⟩ := moveSearch_spec t _ _ _ _ _ _ _ _ _ hsearch
    cases h
    exact Or.inr ⟨k, hk, rfl, i, hi, hnew, hfree, hall⟩
  · exact Or.inl h

/-- **Every move that the outer loop returns is sound, and without one it stops one slot short of the worst case.** -/
theorem moveLoop_spec {t : Table b V} (hash : BitVec b.bits) (lenWorst : Nat) :
    ∀ (fuel k : Nat) (move : Option Move), k + 2 < lenWorst → lenWorst ≤ fuel + k + 2 →
      (∀ m, (moveLoop t (t.stride hash) lenWorst fuel (t.seq hash k) (k + 1) move).1 = some m →
        MoveFrom t hash lenWorst move m) ∧
      ((moveLoop t (t.stride hash) lenWorst fuel (t.seq hash k) (k + 1) move).1 = none →
        (moveLoop t (t.stride hash) lenWorst fuel (t.seq hash k) (k + 1) move).2 = t.seq hash (lenWorst - 2))
  | 0, k, move, hk, hf => absurd hk (by omega)
  | fuel + 1, k, move, hk, hf => by
    unfold moveLoop
    dsimp only
    rw [Table.seq_succ]
    have hround (m : Move) (h : moveRound t lenWorst (t.seq hash k) (k + 1) move = some m) :=
      moveRound_spec hk h
    generalize moveRound t lenWorst (t.seq hash k) (k + 1) move = move' at hround
    by_cases hcont : k + 1 + 1 < lenWorst - 1 ∧ ∀ m ∈ move', k + 1 + 1 < m.len
    · rw [if_pos hcont]
      obtain ⟨hsome, hnone⟩ := moveLoop_spec (t := t) hash lenWorst fuel (k + 1) move' (by omega) (by omega)
      refine ⟨fun m hm => ?_, hnone⟩
      rcases hsome m hm with hm | hm
      · exact hround m hm
      · exact Or.inr hm
    · rw [if_neg hcont]
      refine ⟨hround, fun hm => ?_⟩
      have hm : move' = none := hm
      have hlen : ¬ k + 1 + 1 < lenWorst - 1 := fun hlt => hcont ⟨hlt, by simp [hm]⟩
      rw [show lenWorst - 2 = k + 1 by omega]

/-! ## `lws_table_insert` -/

/-- **What `lws_table_insert` gives its caller**: the table `t'` and the slot `s`, where `L'` are the slots of the live
entries after a move. -/
structure Inserted (t : Table b V) (L : List Nat) (hash : BitVec b.bits) (t' : Table b V) (s : Nat) (L' : List Nat) :
    Prop where
  layout : Layout t' L'
  fresh : s ∉ L'
  reach : t'.Reaches hash s
  only : ∀ i, (t'.entries i).state = .set → i = s ∨ i ∈ L'
  contents : L'.map t'.entries = L.map t.entries
  frame : t' = { t with entries := t'.entries, order := t'.order }

theorem MoveOk.reaches {t : Table b V} {L : List Nat} (hL : Layout t L) {m : Move} (hm : MoveOk t m) (hold : m.old ∈ L)
    (hfree : ∃ i < t.alloc, (t.entries i).state ≠ .set) : t.Reaches (t.entries m.old).hash m.new := by
  obtain ⟨i, hi, hnew, hnf, hall⟩ := hm
  obtain ⟨k, hk, hseq, hu⟩ := hL.reach m.old hold
  have hset := hL.set m.old hold
  generalize (t.entries m.old).hash = hash at hnew hall hseq hu ⊢
  have hon (j : Nat) : probe t.alloc (t.stride hash) m.old j = t.seq hash (k + j) := by
    rw [← hseq]; exact Probe.probe_probe k j
  -- the walk from the old slot meets a slot that is not set before it is back
  have hia : i < t.alloc := by
    obtain ⟨f, hf, hff⟩ := hfree
    obtain ⟨j, hj, hjf⟩ := Probe.probe_surj (h := m.old) (Table.alloc_pos hL.size) (Table.stride_coprime hL.size hash) hf
    have hj0 : j ≠ 0 := fun he => by
      rw [he, Probe.probe_zero (hL.lt hold)] at hjf
      exact hff (hjf ▸ hset)
    rcases Nat.lt_or_ge j i with hlt | hge
    · exact absurd (hall j (by omega) hlt) (by rw [hjf]; exact hff)
    · omega
  rw [hon] at hnew
  rcases Nat.lt_or_ge (k + i) t.alloc with hlt | hge
  · refine ⟨k + i, hlt, hnew.symm, fun j hj hun => ?_⟩
    rcases Nat.lt_trichotomy j k with hjk | rfl | hjk
    · exact hu j hjk hun
    · rw [hseq, hset] at hun; cases hun
    · have := hall (j - k) (by omega) (by omega)
      rw [hon, show k + (j - k) = j by omega, hun] at this
      cases this
  · refine ⟨k + i - t.alloc, by omega, ?_, fun j hj => hu j (by omega)⟩
    rw [hnew]
    have := Probe.probe_add_size (n := t.alloc) (q := t.stride hash) (h := t.start hash) (k + i - t.alloc)
    rw [show k + i - t.alloc + t.alloc = k + i by omega] at this
    exact this.symm

/-- The table after a move: the entry is copied, and the links of its neighbours follow it. -/
def Table.moved (t : Table b V) (m : Move) : Table b V :=
  { t with
    entries := Function.update t.entries m.new (t.entries m.old)
    order := t.order.relocate (some m.old) (some m.new) }

@[simp] theorem Table.moved_entries (t : Table b V) (m : Move) :
    (t.moved m).entries = Function.update t.entries m.new (t.entries m.old) := rfl

/-- **What `lws_table_insert` does**: the first slot of the sequence that is not set, or a slot before it after a move. -/
theorem tableInsert_cases {t : Table b V} (hs : t.alloc ∈ b.tableSizes) (hfree : ∃ i < t.alloc, (t.entries i).state ≠ .set)
    (hash : BitVec b.bits) :
    ∃ w < t.alloc, (t.entries (t.seq hash w)).state ≠ .set ∧ (∀ j < w, (t.entries (t.seq hash j)).state = .set) ∧
      (tableInsert t hash = (t, t.seq hash w) ∨
        ∃ m j, j < w ∧ m.old = t.seq hash j ∧ MoveOk t m ∧ tableInsert t hash = (t.moved m, m.old)) := by
  obtain ⟨w, -, hw, hworst, hwf, hws⟩ := worstLoop_spec t hash t.alloc 0 1 (fun j hj => by omega) (by
    obtain ⟨i, hi, hif⟩ := hfree
    obtain ⟨k, hk, rfl⟩ := Table.seq_surj hs hash hi
    exact ⟨k, by omega, by omega, hif⟩)
  rw [Nat.zero_add] at hw
  refine ⟨w, hw, hwf, hws, ?_⟩
  unfold tableInsert
  dsimp only
  rw [← Table.seq_zero hs, hworst]
  dsimp only
  rw [Nat.sub_zero]
  by_cases hlen : 1 + w ≤ 2
  · rw [if_pos hlen]
    exact .inl rfl
  · rw [if_neg hlen]
    obtain ⟨hsome, hnomove⟩ := moveLoop_spec (t := t) hash (1 + w) (1 + w) 0 none (by omega) (by omega)
    generalize moveLoop t (t.stride hash) (1 + w) (1 + w) (t.seq hash 0) (0 + 1) none = r at hsome hnomove
    obtain ⟨res, h⟩ := r
    cases res with
    | none =>
      have hh : h = t.seq hash (1 + w - 2) := hnomove rfl
      dsimp only
      rw [hh, Table.seq_succ, show 1 + w - 2 + 1 = w by omega]
      exact .inl rfl
    | some m =>
      rcases hsome m rfl with hm | ⟨j, hj, hold, hok⟩
      · cases hm
      · exact .inr ⟨m, j, by omega, hold, hok, rfl⟩

/-- **`lws_table_insert` is sound** on a table with a slot that is not set. -/
theorem tableInsert_inserted {t : Table b V} {L : List Nat} (hL : Layout t L)
    (honly : ∀ i, (t.entries i).state = .set → i ∈ L) (hfree : ∃ i < t.alloc, (t.entries i).state ≠ .set)
    (hash : BitVec b.bits) : ∃ L', Inserted t L hash (tableInsert t hash).1 (tableInsert t hash).2 L' := by
  obtain ⟨w, hw, hwf, hws, hcase⟩ := tableInsert_cases hL.size hfree hash
  rcases hcase with heq | ⟨m, j, hj, hold, hok, heq⟩
  · rw [heq]
    refine ⟨L, hL, fun hm => hwf (hL.set _ hm), ⟨w, hw, rfl, fun j hj hun => ?_⟩, fun i hi => Or.inr (honly i hi), rfl, rfl⟩
    rw [hws j hj] at hun
    cases hun
  · rw [heq]
    have hset : (t.entries m.old).state = .set := by rw [hold]; exact hws j (by omega)
    have hmem := honly _ hset
    have hnew : m.new ∉ L := fun hn => by
      obtain ⟨i, -, -, hnf, -⟩ := hok
      exact hnf (hL.set _ hn)
    have hne : m.old ≠ m.new := fun he => hnew (he ▸ hmem)
    obtain ⟨L₁, L₂, hsplit⟩ := List.append_of_mem hmem
    have hnd := hL.nodup
    rw [hsplit] at hnd
    have hold' : m.old ∉ L₁ ++ L₂ := (List.nodup_cons.1 (List.perm_middle.nodup_iff.1 hnd)).1
    have hnew' : m.new ∉ L₁ ++ L₂ := fun hn => hnew (by
      rw [hsplit]
      simp only [List.mem_append, List.mem_cons] at hn ⊢
      tauto)
    have hmono (x : Nat) (hun : (Function.update t.entries m.new (t.entries m.old) x).state = .unused) :
        (t.entries x).state = .unused := by
      rcases eq_or_ne x m.new with rfl | hx
      · rw [Function.update_self, hset] at hun; cases hun
      · rwa [Function.update_of_ne hx] at hun
    have hsub : ∀ i ∈ L₁ ++ L₂, i ∈ L := fun i hi => by
      rw [hsplit]
      simp only [List.mem_append, List.mem_cons] at hi ⊢
      tauto
    have hupd : ∀ i ∈ L₁ ++ L₂, Function.update t.entries m.new (t.entries m.old) i = t.entries i := fun i hi =>
      Function.update_of_ne (show i ≠ m.new from fun he => hnew' (he ▸ hi)) _ _
    have hmem' {i : Nat} (hi : i ∈ L₁ ++ m.new :: L₂) : i = m.new ∨ i ∈ L₁ ++ L₂ := by
      simp only [List.mem_append, List.mem_cons] at hi ⊢
      tauto
    refine ⟨L₁ ++ m.new :: L₂, ⟨hL.size, ?_, fun i hi => ?_, fun i hi => ?_⟩, fun hn => ?_, ?_, fun i hi => ?_, ?_, rfl⟩
    · have hring := hL.ring
      rw [hsplit, List.map_append, List.map_cons] at hring
      rw [List.map_append, List.map_cons]
      refine hring.relocate ?_
      rw [← List.map_cons, ← List.map_append, ← hsplit]
      simp [hnew]
    · rcases hmem' hi with rfl | hi
      · rw [Table.moved_entries, Function.update_self]; exact hset
      · rw [Table.moved_entries, hupd i hi]; exact hL.set i (hsub i hi)
    · rcases hmem' hi with rfl | hi
      · rw [Table.moved_entries, Function.update_self]
        exact (hok.reaches hL hmem hfree).mono rfl hmono
      · rw [Table.moved_entries, hupd i hi]
        exact (hL.reach i (hsub i hi)).mono rfl hmono
    · rcases hmem' hn with he | hn
      · exact hne he
      · exact hold' hn
    · have hreach : t.Reaches hash m.old := ⟨j, by omega, hold.symm, fun j' hj' hun => by
        rw [hws j' (by omega)] at hun
        cases hun⟩
      exact hreach.mono rfl hmono
    · rcases eq_or_ne i m.new with rfl | hin
      · exact Or.inr (by simp)
      · rw [Table.moved_entries, Function.update_of_ne hin] at hi
        have := honly i hi
        rw [hsplit] at this
        simp only [List.mem_append, List.mem_cons] at this ⊢
        tauto
    · rw [Table.moved_entries, hsplit, List.map_append, List.map_append, List.map_cons, List.map_cons, Function.update_self,
        List.map_congr_left (fun i hi => hupd i (List.mem_append_left _ hi)),
        List.map_congr_left (fun i hi => hupd i (List.mem_append_right _ hi))]

/-- **Filling the slot** with an entry of the hash it was found for, linked anywhere into the ring, restores the layout. -/
theorem Inserted.fill {t : Table b V} {L : List Nat} {hash : BitVec b.bits} {t' : Table b V} {s : Nat} {L' : List Nat}
    (h : Inserted t L hash t' s L') {e : Entry b V} (hset : e.state = .set) (hhash : e.hash = hash)
    {order : Links (Option Nat)} {L'' : List Nat} (hring : IsRing order none (L''.map some))
    (hmem : ∀ i, i ∈ L'' ↔ i = s ∨ i ∈ L') :
    Layout { t' with entries := Function.update t'.entries s e, order := order } L'' ∧
      ∀ i, (Function.update t'.entries s e i).state = .set → i ∈ L'' := by
  have hmono (x : Nat) (hun : (Function.update t'.entries s e x).state = .unused) : (t'.entries x).state = .unused := by
    rcases eq_or_ne x s with rfl | hx
    · rw [Function.update_self, hset] at hun; cases hun
    · rwa [Function.update_of_ne hx] at hun
  have hne {i : Nat} (hi : i ∈ L') : i ≠ s := fun he => h.fresh (he ▸ hi)
  refine ⟨⟨h.layout.size, hring, fun i hi => ?_, fun i hi => ?_⟩, fun i hi => ?_⟩
  · rcases (hmem i).1 hi with rfl | hi
    · dsimp only; rw [Function.update_self]; exact hset
    · dsimp only; rw [Function.update_of_ne (hne hi)]; exact h.layout.set i hi
  · rcases (hmem i).1 hi with rfl | hi
    · dsimp only; rw [Function.update_self, hhash]
      exact h.reach.mono rfl hmono
    · dsimp only; rw [Function.update_of_ne (hne hi)]
      exact (h.layout.reach i hi).mono rfl hmono
  · rcases eq_or_ne i s with rfl | his
    · exact (hmem i).2 (Or.inl rfl)
    · rw [Function.update_of_ne his] at hi
      exact (hmem i).2 ((h.only i hi).imp_left (fun he => absurd he his))

theorem Inserted.map_fill {t : Table b V} {L : List Nat} {hash : BitVec b.bits} {t' : Table b V} {s : Nat} {L' : List Nat}
    (h : Inserted t L hash t' s L') (e : Entry b V) :
    L'.map (Function.update t'.entries s e) = L.map t.entries := by
  rw [← h.contents]
  exact List.map_congr_left (fun i hi => Function.update_of_ne (show i ≠ s from fun he => h.fresh (he ▸ hi)) _ _)

theorem Inserted.not_mem_ring {t : Table b V} {L : List Nat} {hash : BitVec b.bits} {t' : Table b V} {s : Nat}
    {L' : List Nat} (h : Inserted t L hash t' s L') : some s ∉ none :: L'.map some := by
  simp [h.fresh]

end Lws

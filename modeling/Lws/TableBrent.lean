import Mathlib.Algebra.BigOperators.Intervals
import Mathlib.Order.Bounds.Basic
import Lws.TableProbing
/-!
# TableBrent — which choice of Brent's method `lws_table_insert` makes (`lws_table.c`)

A new key goes into the first slot of its probe sequence that is not set, or into an earlier slot whose entry moves to the first
such slot of its own sequence.  The cost of a choice is what it adds to the sum of the probe lengths.  `lws_table_insert` looks
at the slots in order, keeps the last move it finds, and stops where `len` comes to the length of that move: `Table.Kept` says
which slot that is.  It misses a better choice in three ways: a later move overwrites a better one, the search stops before a better
one, or it passes over a slot because it takes the length of a move for what the move adds.
-/
namespace Lws

open Probe (probe)

/-! ## The first number with a property -/

def firstBelow (n : Nat) (p : Nat → Bool) : Nat := (List.range n).findIdx p

theorem firstBelow_spec {n : Nat} {p : Nat → Bool} (h : ∃ k < n, p k = true) :
    firstBelow n p < n ∧ p (firstBelow n p) = true ∧ ∀ k < firstBelow n p, p k = false := by
  obtain ⟨k, hk, hp⟩ := h
  have hlt : (List.range n).findIdx p < (List.range n).length := List.findIdx_lt_length_of_exists ⟨k, List.mem_range.2 hk, hp⟩
  have hfirst := List.findIdx_getElem (w := hlt)
  rw [List.getElem_range] at hfirst
  rw [List.length_range] at hlt
  refine ⟨hlt, hfirst, fun j hj => ?_⟩
  have hbefore := List.not_of_lt_findIdx hj
  rwa [List.getElem_range] at hbefore

theorem firstBelow_eq {n k : Nat} {p : Nat → Bool} (hk : k < n) (hp : p k = true) (hbefore : ∀ j < k, p j = false) :
    firstBelow n p = k := by
  obtain ⟨-, hfirst, hnone⟩ := firstBelow_spec ⟨k, hk, hp⟩
  rcases Nat.lt_trichotomy (firstBelow n p) k with hlt | heq | hgt
  · rw [hbefore _ hlt] at hfirst
    cases hfirst
  · exact heq
  · rw [hnone k hgt] at hp
    cases hp

variable {b : Build} {V : Type}

/-! ## Probe lengths -/

/-- The place of a slot in the probe sequence of a hash, from 0. -/
def Table.place (t : Table b V) (hash : BitVec b.bits) (i : Nat) : Nat := firstBelow t.alloc fun k => t.seq hash k = i

/-- The probe length of an entry in slot `i`: how many slots a lookup of it examines. -/
def Table.probeLength (t : Table b V) (e : Entry b V) (i : Nat) : Nat := if e.state = .set then t.place e.hash i + 1 else 0

def Table.probeTotal (t : Table b V) : Nat := ∑ i ∈ Finset.range t.alloc, t.probeLength (t.entries i) i

def Table.filled (t : Table b V) (i : Nat) (e : Entry b V) : Table b V :=
  { t with entries := Function.update t.entries i e }

theorem Table.place_seq {t : Table b V} (hs : t.alloc ∈ b.tableSizes) (hash : BitVec b.bits) {k : Nat} (hk : k < t.alloc) :
    t.place hash (t.seq hash k) = k := by
  refine firstBelow_eq hk (decide_eq_true rfl) fun j hj => decide_eq_false fun heq => ?_
  exact Nat.ne_of_lt hj (Probe.probe_inj (Table.stride_coprime hs hash) (Nat.lt_trans hj hk) hk heq)

theorem Table.probeTotal_filled (t : Table b V) {i : Nat} (hi : i < t.alloc) (e : Entry b V) :
    (t.filled i e).probeTotal + t.probeLength (t.entries i) i = t.probeTotal + t.probeLength e i := by
  have hmem : i ∈ Finset.range t.alloc := Finset.mem_range.2 hi
  have hlength (j : Nat) : (t.filled i e).probeLength ((t.filled i e).entries j) j =
      Function.update (fun j => t.probeLength (t.entries j) j) i (t.probeLength e i) j := by
    change t.probeLength (Function.update t.entries i e j) j = _
    by_cases hj : j = i
    · rw [hj, Function.update_self, Function.update_self]
    · rw [Function.update_of_ne hj, Function.update_of_ne hj]
  unfold Table.probeTotal
  rw [Finset.sum_congr rfl fun j _ => hlength j]
  change ∑ j ∈ Finset.range t.alloc, _ + _ = _
  rw [Finset.sum_update_of_mem hmem, ← Finset.add_sum_erase _ _ hmem, Finset.sdiff_singleton_eq_erase]
  omega

/-! ## The choices -/

/-- How far it is from slot `h`, by strides of `q`, to the first slot that is not set. -/
def Table.steps (t : Table b V) (q h : Nat) : Nat := firstBelow t.alloc fun k => (t.entries (probe t.alloc q h k)).state ≠ .set

section
variable (t : Table b V) (hash : BitVec b.bits)

/-- The place of the first slot of the sequence that is not set. -/
def Table.worst : Nat := t.steps (t.stride hash) (t.start hash)

/-- The move of the entry in slot `j` of the sequence to the first slot of its own sequence that is not set. -/
def Table.moveAt (j : Nat) : Move :=
  let old := t.seq hash j
  let q := t.stride (t.entries old).hash
  ⟨old, probe t.alloc q old (t.steps q old), t.steps q old⟩

/-- The table after a choice: none puts the new entry into the first slot of its sequence that is not set, `j` into slot `j` of
the sequence. -/
def Table.chosen (e : Entry b V) : Option Nat → Table b V
  | none => t.filled (t.seq hash (t.worst hash)) e
  | some j => (t.moved (t.moveAt hash j)).filled (t.seq hash j) e

/-- The table after `lws_table_insert`, with the new entry in the slot that it returns. -/
def Table.inserted (e : Entry b V) : Table b V := (tableInsert t hash).1.filled (tableInsert t hash).2 e

def Table.Choice (c : Option Nat) : Prop := ∀ j ∈ c, j < t.worst hash

/-- What a choice adds to the sum: the probe length of the new key, and the change of that of the entry moved. -/
def Table.cost : Option Nat → Int
  | none => t.worst hash + 1
  | some j =>
    let m := t.moveAt hash j
    let moved := (t.entries m.old).hash
    j + 1 + ((t.place moved m.new : Int) - t.place moved m.old)

/-- The move of the entry in slot `j` of the sequence is to a place of its own sequence before the one that it has. -/
def Table.ComesRound (j : Nat) : Prop :=
  let m := t.moveAt hash j
  t.place (t.entries m.old).hash m.new < t.place (t.entries m.old).hash m.old

/-- A slot before the first one not set whose move `lws_table_insert` takes for an improvement: the place of the slot, from 1,
and the length of the move are together below `len_worst`. -/
def Table.Candidate (j : Nat) : Prop := j + 1 + (t.moveAt hash j).len < t.worst hash + 1

/-- A candidate that the search comes to: each candidate before it has another one after it at a `len` below the length of its
move. -/
def Table.Visits (j : Nat) : Prop :=
  t.Candidate hash j ∧ ∀ i < j, t.Candidate hash i → ∃ k < j + 1, i < k ∧ t.Candidate hash k ∧ k + 1 < (t.moveAt hash i).len

/-- The candidate that `lws_table_insert` keeps: the search comes to it, and not to one after it. -/
structure Table.Kept (j : Nat) : Prop where
  visits : t.Visits hash j
  last : ∀ k, j < k → t.Candidate hash k → (t.moveAt hash j).len ≤ k + 1

/-- **A better move is overwritten**: the search comes to further candidates after one, and each of them costs more. -/
def Table.Overwrites : Prop :=
  ∃ i < t.worst hash, t.Visits hash i ∧ (∃ k < t.worst hash, i < k ∧ t.Visits hash k) ∧
    ∀ k < t.worst hash, i < k → t.Visits hash k → t.cost hash (some i) < t.cost hash (some k)

/-- **The search stops short** of a candidate, and each one that it comes to costs more. -/
def Table.StopsShort : Prop :=
  ∃ i < t.worst hash, t.Candidate hash i ∧ ¬t.Visits hash i ∧
    ∀ k < t.worst hash, t.Visits hash k → t.cost hash (some i) < t.cost hash (some k)

/-- **The search passes over a slot** whose entry's own sequence comes round to a place before its own, so that it is not a
candidate and yet costs less than the first slot that is not set and than each candidate that the search comes to. -/
def Table.PassesOver : Prop :=
  ∃ i < t.worst hash, ¬t.Candidate hash i ∧ t.ComesRound hash i ∧ t.cost hash (some i) < t.cost hash none ∧
    ∀ k < t.worst hash, t.Visits hash k → t.cost hash (some i) < t.cost hash (some k)

instance (j : Nat) : Decidable (t.Candidate hash j) := inferInstanceAs (Decidable (_ < _))

instance (j : Nat) : Decidable (t.ComesRound hash j) := inferInstanceAs (Decidable (_ < _))

instance (j : Nat) : Decidable (t.Visits hash j) := instDecidableAnd

instance : Decidable (t.Overwrites hash) := Nat.decidableExistsLT _

instance : Decidable (t.StopsShort hash) := Nat.decidableExistsLT _

instance : Decidable (t.PassesOver hash) := Nat.decidableExistsLT _

end

section
variable {t : Table b V} (hs : t.alloc ∈ b.tableSizes) (hfree : ∃ i < t.alloc, (t.entries i).state ≠ .set)
include hs hfree

theorem Table.steps_spec (hash : BitVec b.bits) (h : Nat) :
    let q := t.stride hash
    t.steps q h < t.alloc ∧ (t.entries (probe t.alloc q h (t.steps q h))).state ≠ .set ∧
      ∀ k < t.steps q h, (t.entries (probe t.alloc q h k)).state = .set := by
  obtain ⟨i, hi, hif⟩ := hfree
  obtain ⟨k, hk, rfl⟩ := Probe.probe_surj (Table.alloc_pos hs) (Table.stride_coprime hs hash) h hi
  obtain ⟨hlt, hfirst, hbefore⟩ :=
    firstBelow_spec (p := fun k => (t.entries (probe t.alloc (t.stride hash) h k)).state ≠ .set) ⟨k, hk, decide_eq_true hif⟩
  exact ⟨hlt, of_decide_eq_true hfirst, fun j hj => not_not.1 (of_decide_eq_false (hbefore j hj))⟩

theorem Table.worst_spec (hash : BitVec b.bits) : t.worst hash < t.alloc ∧
    (t.entries (t.seq hash (t.worst hash))).state ≠ .set ∧ ∀ k < t.worst hash, (t.entries (t.seq hash k)).state = .set :=
  Table.steps_spec hs hfree hash (t.start hash)

theorem Table.moveAt_len_pos {hash : BitVec b.bits} {j : Nat} (hj : j < t.worst hash) : 0 < (t.moveAt hash j).len := by
  obtain ⟨-, -, hset⟩ := Table.worst_spec hs hfree hash
  obtain ⟨-, hnew, -⟩ := Table.steps_spec hs hfree (t.entries (t.seq hash j)).hash (t.seq hash j)
  refine Nat.pos_of_ne_zero fun hzero => ?_
  have hsteps : t.steps (t.stride (t.entries (t.seq hash j)).hash) (t.seq hash j) = 0 := hzero
  rw [hsteps, Probe.probe_zero (Table.seq_lt hs hash j)] at hnew
  exact hnew (hset j hj)

/-! ## The search -/

/-- **The inner loop** finds the move of an entry where it is shorter than what is left of `len_worst`. -/
theorem moveSearch_eq (hash : BitVec b.bits) (old len lenWorst : Nat) : ∀ (fuel k : Nat),
    k ≤ t.steps (t.stride hash) old → len + k < lenWorst → lenWorst ≤ fuel + (len + k) →
      moveSearch t (t.stride hash) len lenWorst fuel (probe t.alloc (t.stride hash) old k) k =
        if len + t.steps (t.stride hash) old < lenWorst then
          some (probe t.alloc (t.stride hash) old (t.steps (t.stride hash) old), t.steps (t.stride hash) old)
        else none
  | 0, k, _, hlen, hfuel => absurd hlen (by omega)
  | fuel + 1, k, hk, hlen, hfuel => by
    obtain ⟨-, hnew, hset⟩ := Table.steps_spec hs hfree hash old
    rw [moveSearch]
    rcases Nat.eq_or_lt_of_le hk with rfl | hlt
    · rw [if_pos hnew, if_pos hlen]
    · rw [if_neg (not_not.2 (hset k hlt))]
      by_cases hstop : len + k ≥ lenWorst - 1
      · rw [if_pos hstop, if_neg (by omega)]
      · rw [if_neg hstop, Probe.probe_succ]
        exact moveSearch_eq hash old len lenWorst fuel (k + 1) hlt (by omega) (by omega)

/-- **A round of the outer loop** takes the move of a candidate, and keeps the one before otherwise. -/
theorem moveRound_eq {hash : BitVec b.bits} {j : Nat} (hj : j + 1 < t.worst hash) (move : Option Move) :
    moveRound t (t.worst hash + 1) (t.seq hash j) (j + 1) move =
      if j + 1 + (t.moveAt hash j).len < t.worst hash + 1 then some (t.moveAt hash j) else move := by
  have hpos : 0 < t.steps (t.stride (t.entries (t.seq hash j)).hash) (t.seq hash j) :=
    Table.moveAt_len_pos hs hfree (show j < t.worst hash by omega)
  have hone : (t.seq hash j + t.stride (t.entries (t.seq hash j)).hash) % t.alloc =
      probe t.alloc (t.stride (t.entries (t.seq hash j)).hash) (t.seq hash j) 1 := by
    rw [probe, Nat.one_mul]
  have hsearch := moveSearch_eq hs hfree (t.entries (t.seq hash j)).hash (t.seq hash j) (j + 1) (t.worst hash + 1)
    (t.worst hash + 1) 1 hpos (by omega) (by omega)
  rw [moveRound, hone, hsearch]
  by_cases hcandidate : j + 1 + (t.moveAt hash j).len < t.worst hash + 1
  · rw [if_pos hcandidate, if_pos (show j + 1 + t.steps _ _ < _ from hcandidate)]
    rfl
  · rw [if_neg hcandidate, if_neg (show ¬j + 1 + t.steps _ _ < _ from hcandidate)]

omit hs hfree in
/-- What the outer loop has found when it comes to slot `i`. -/
def Table.Found (t : Table b V) (hash : BitVec b.bits) (i : Nat) (move : Option Move) : Prop :=
  match move with
  | none => ∀ k < i, ¬t.Candidate hash k
  | some m => ∃ j < i, m = t.moveAt hash j ∧ t.Candidate hash j ∧ (∀ k, j < k → k < i → ¬t.Candidate hash k) ∧
      ∀ k < j, t.Candidate hash k → ∃ l < j + 1, k < l ∧ t.Candidate hash l ∧ l + 1 < (t.moveAt hash k).len

def Table.Decided (t : Table b V) (hash : BitVec b.bits) (r : Option Move × Nat) : Prop :=
  match r with
  | (some m, _) => ∃ j, m = t.moveAt hash j ∧ t.Kept hash j
  | (none, h) => (∀ j, ¬t.Candidate hash j) ∧ h = t.seq hash (t.worst hash - 1)

end

section
variable {t : Table b V} {hash : BitVec b.bits} {i : Nat} {move : Option Move}

theorem Table.Found.candidate (h : t.Found hash i move) (hreached : ∀ m ∈ move, i + 1 < m.len) (hi : t.Candidate hash i) :
    t.Found hash (i + 1) (some (t.moveAt hash i)) := by
  refine ⟨i, Nat.lt_succ_self i, rfl, hi, fun k hk hki => absurd hki (by omega), fun k hk hcandidate => ?_⟩
  cases move with
  | none => exact absurd hcandidate (h k hk)
  | some m =>
    obtain ⟨j, hj, rfl, hcj, hnone, hbefore⟩ := h
    rcases Nat.lt_trichotomy k j with hlt | rfl | hgt
    · obtain ⟨l, hl, hkl, hcl, hlen⟩ := hbefore k hlt hcandidate
      exact ⟨l, by omega, hkl, hcl, hlen⟩
    · exact ⟨i, Nat.lt_succ_self i, hk, hi, hreached _ rfl⟩
    · exact absurd hcandidate (hnone k hgt hk)

theorem Table.Found.skip (h : t.Found hash i move) (hi : ¬t.Candidate hash i) : t.Found hash (i + 1) move := by
  cases move with
  | none =>
    intro k hk
    rcases Nat.lt_succ_iff_lt_or_eq.1 hk with hlt | rfl
    · exact h k hlt
    · exact hi
  | some m =>
    obtain ⟨j, hj, rfl, hcj, hnone, hbefore⟩ := h
    refine ⟨j, by omega, rfl, hcj, fun k hk hki => ?_, hbefore⟩
    rcases Nat.lt_succ_iff_lt_or_eq.1 hki with hlt | rfl
    · exact hnone k hk hlt
    · exact hi

end

section
variable {t : Table b V} (hs : t.alloc ∈ b.tableSizes) (hfree : ∃ i < t.alloc, (t.entries i).state ≠ .set)
include hs hfree

theorem Table.Candidate.lt {hash : BitVec b.bits} {j : Nat} (h : t.Candidate hash j) : j + 1 < t.worst hash := by
  have hlen : j + 1 + (t.moveAt hash j).len < t.worst hash + 1 := h
  have hpos := Table.moveAt_len_pos hs hfree (show j < t.worst hash by omega)
  omega

/-- **The outer loop** ends with the candidate that is kept, or without a candidate. -/
theorem moveLoop_decides (hash : BitVec b.bits) : ∀ (fuel i : Nat) (move : Option Move), t.Found hash i move →
    (∀ m ∈ move, i + 1 < m.len) → i + 1 < t.worst hash → t.worst hash ≤ fuel + i + 1 →
      t.Decided hash (moveLoop t (t.stride hash) (t.worst hash + 1) fuel (t.seq hash i) (i + 1) move)
  | 0, i, _, _, _, hi, hfuel => absurd hi (by omega)
  | fuel + 1, i, move, hfound, hreached, hi, hfuel => by
    have hround := moveRound_eq hs hfree hi move
    have hnext : t.Found hash (i + 1) (moveRound t (t.worst hash + 1) (t.seq hash i) (i + 1) move) := by
      rw [hround]
      split
      · rename_i hcandidate
        exact hfound.candidate hreached hcandidate
      · rename_i hcandidate
        exact hfound.skip hcandidate
    unfold moveLoop
    dsimp only
    rw [Table.seq_succ]
    generalize moveRound t (t.worst hash + 1) (t.seq hash i) (i + 1) move = move' at hnext
    by_cases hcont : i + 1 + 1 < t.worst hash + 1 - 1 ∧ ∀ m ∈ move', i + 1 + 1 < m.len
    · rw [if_pos hcont]
      exact moveLoop_decides hash fuel (i + 1) move' hnext hcont.2 (by omega) (by omega)
    · rw [if_neg hcont]
      cases move' with
      | none =>
        have hlast : ¬i + 1 + 1 < t.worst hash + 1 - 1 := fun hlt => hcont ⟨hlt, fun m hm => absurd hm (Option.not_mem_none m)⟩
        refine ⟨fun j hcandidate => ?_, by rw [show t.worst hash - 1 = i + 1 by omega]⟩
        have hj := hcandidate.lt hs hfree
        exact hnext j (by omega) hcandidate
      | some m =>
        obtain ⟨j, hj, rfl, hcj, hnone, hbefore⟩ := hnext
        refine ⟨j, rfl, ⟨hcj, hbefore⟩, fun k hk hcandidate => ?_⟩
        have hkw := hcandidate.lt hs hfree
        have hki : i < k := Nat.lt_of_not_le fun hle => hnone k hk (by omega) hcandidate
        by_contra hlen
        exact hcont ⟨by omega, fun m hm => by
          obtain rfl := Option.some.inj hm
          omega⟩

omit hs hfree in
/-- The choice of `lws_table_insert`: the candidate that is kept, or the first slot that is not set where there is none. -/
def Table.Chooses (t : Table b V) (hash : BitVec b.bits) : Option Nat → Prop
  | some j => t.Kept hash j
  | none => ∀ j, ¬t.Candidate hash j

theorem Table.Chooses.choice {hash : BitVec b.bits} {c : Option Nat} (h : t.Chooses hash c) : t.Choice hash c := by
  rintro j rfl
  have hj := h.visits.1.lt hs hfree
  omega

theorem worstLoop_eq (hash : BitVec b.bits) :
    worstLoop t (t.stride hash) t.alloc (t.start hash) 1 = (t.seq hash (t.worst hash), t.worst hash + 1) := by
  obtain ⟨hw, hwf, hws⟩ := Table.worst_spec hs hfree hash
  obtain ⟨w, -, -, hworst, hf, hset⟩ := worstLoop_spec t hash t.alloc 0 1 (fun j hj => absurd hj (Nat.not_lt_zero j))
    ⟨t.worst hash, Nat.zero_le _, by omega, hwf⟩
  have heq : w = t.worst hash := by
    rcases Nat.lt_trichotomy w (t.worst hash) with hlt | heq | hgt
    · exact absurd (hws w hlt) hf
    · exact heq
    · exact absurd (hset _ hgt) hwf
  rw [← Table.seq_zero hs, hworst, heq, Nat.sub_zero, Nat.add_comm]

theorem Table.inserted_eq (hash : BitVec b.bits) :
    ∃ c, t.Chooses hash c ∧ ∀ e, t.inserted hash e = t.chosen hash e c := by
  unfold Table.inserted tableInsert
  dsimp only
  rw [worstLoop_eq hs hfree]
  dsimp only
  by_cases hshort : t.worst hash + 1 ≤ 2
  · rw [if_pos hshort]
    refine ⟨none, fun j hcandidate => ?_, fun e => rfl⟩
    have hj := hcandidate.lt hs hfree
    omega
  · rw [if_neg hshort, ← Table.seq_zero hs]
    have hdecided := moveLoop_decides hs hfree hash (t.worst hash + 1) 0 none (fun k hk => absurd hk (Nat.not_lt_zero k))
      (fun m hm => (nomatch hm)) (by omega) (by omega)
    rw [Nat.zero_add] at hdecided
    generalize moveLoop t (t.stride hash) (t.worst hash + 1) (t.worst hash + 1) (t.seq hash 0) 1 none = r at hdecided
    match r, hdecided with
    | (some m, _), ⟨j, hm, hkept⟩ =>
      refine ⟨some j, hkept, fun e => ?_⟩
      rw [hm]
      rfl
    | (none, h), ⟨hnone, hh⟩ =>
      refine ⟨none, hnone, fun e => ?_⟩
      dsimp only
      rw [hh, Table.seq_succ, show t.worst hash - 1 + 1 = t.worst hash by omega]
      rfl

/-! ## The cost -/

/-- **What a choice adds** to the sum of the probe lengths is its cost. -/
theorem Table.probeTotal_chosen {hash : BitVec b.bits} {c : Option Nat} (hc : t.Choice hash c) {e : Entry b V}
    (hset : e.state = .set) (hhash : e.hash = hash) :
    ((t.chosen hash e c).probeTotal : Int) - t.probeTotal = t.cost hash c := by
  obtain ⟨hw, hwf, hws⟩ := Table.worst_spec hs hfree hash
  have hlength {k : Nat} (hk : k < t.alloc) : t.probeLength e (t.seq hash k) = k + 1 := by
    rw [Table.probeLength, if_pos hset, hhash, Table.place_seq hs hash hk]
  cases c with
  | none =>
    have hfill := t.probeTotal_filled (Table.seq_lt hs hash (t.worst hash)) e
    rw [hlength hw, Table.probeLength, if_neg hwf] at hfill
    simp only [Table.chosen, Table.cost]
    omega
  | some j =>
    have hj : j < t.worst hash := hc j rfl
    obtain ⟨-, hnew, -⟩ := Table.steps_spec hs hfree (t.entries (t.seq hash j)).hash (t.seq hash j)
    have hnewlt : (t.moveAt hash j).new < t.alloc := Probe.probe_lt (Table.alloc_pos hs) _
    have hne : t.seq hash j ≠ (t.moveAt hash j).new := by
      intro he
      have hold := hws j hj
      rw [he] at hold
      exact hnew hold
    -- first the entry in the way is copied, and then its old slot is written
    have hmove := t.probeTotal_filled hnewlt (t.entries (t.seq hash j))
    have hfill := (t.moved (t.moveAt hash j)).probeTotal_filled (Table.seq_lt hs hash j) e
    have hmoved : (t.moved (t.moveAt hash j)).probeTotal =
      (t.filled (t.moveAt hash j).new (t.entries (t.seq hash j))).probeTotal := rfl
    have hold : (t.moved (t.moveAt hash j)).entries (t.seq hash j) = t.entries (t.seq hash j) := Function.update_of_ne hne _ _
    have hsame (e : Entry b V) (i : Nat) : (t.moved (t.moveAt hash j)).probeLength e i = t.probeLength e i := rfl
    have hfree : t.probeLength (t.entries (t.moveAt hash j).new) (t.moveAt hash j).new = 0 := if_neg hnew
    have hplace (i : Nat) : t.probeLength (t.entries (t.seq hash j)) i = t.place (t.entries (t.seq hash j)).hash i + 1 :=
      if_pos (hws j hj)
    rw [hfree, hplace] at hmove
    rw [hold, hsame, hsame, hlength (Nat.lt_trans hj hw), hplace, hmoved] at hfill
    simp only [Table.chosen, Table.cost]
    have hfirst : (t.moveAt hash j).old = t.seq hash j := rfl
    rw [hfirst]
    omega

theorem Table.place_moveAt (hash : BitVec b.bits) (j : Nat) :
    let m := t.moveAt hash j
    let moved := (t.entries m.old).hash
    t.place moved m.new = t.place moved m.old + m.len ∨ t.ComesRound hash j := by
  obtain ⟨p, hp, hpold⟩ := Table.seq_surj hs (t.entries (t.seq hash j)).hash (Table.seq_lt hs hash j)
  obtain ⟨hlen, -, -⟩ := Table.steps_spec hs hfree (t.entries (t.seq hash j)).hash (t.seq hash j)
  simp only [Table.ComesRound, Table.moveAt]
  generalize (t.entries (t.seq hash j)).hash = moved at hpold hlen ⊢
  rw [← hpold] at hlen ⊢
  generalize t.steps (t.stride moved) (t.seq moved p) = d at hlen ⊢
  have hnew : probe t.alloc (t.stride moved) (t.seq moved p) d = t.seq moved (p + d) := Probe.probe_probe p d
  rw [hnew, Table.place_seq hs moved hp]
  rcases Nat.lt_or_ge (p + d) t.alloc with hlt | hge
  · exact .inl (Table.place_seq hs moved hlt)
  · have hround : t.seq moved (p + d) = t.seq moved (p + d - t.alloc) := by
      have hsize := Probe.probe_add_size (n := t.alloc) (q := t.stride moved) (h := t.start moved) (p + d - t.alloc)
      rwa [Nat.sub_add_cancel hge] at hsize
    rw [hround, Table.place_seq hs moved (by omega)]
    omega

/-- **A candidate** costs less than the first slot that is not set. -/
theorem Table.Candidate.cost_lt {hash : BitVec b.bits} {j : Nat} (h : t.Candidate hash j) :
    t.cost hash (some j) < t.cost hash none := by
  have hj := h.lt hs hfree
  simp only [Table.Candidate] at h
  simp only [Table.cost]
  rcases Table.place_moveAt hs hfree hash j with hplace | hplace
  · rw [hplace]
    omega
  · simp only [Table.ComesRound] at hplace
    omega

/-- **A slot that is not a candidate** costs less than the first one not set only where its entry's sequence comes round. -/
theorem Table.comesRound {hash : BitVec b.bits} {j : Nat} (hnot : ¬t.Candidate hash j)
    (hcost : t.cost hash (some j) < t.cost hash none) : t.ComesRound hash j := by
  rcases Table.place_moveAt hs hfree hash j with hplace | hplace
  · simp only [Table.Candidate, not_lt] at hnot
    simp only [Table.cost, hplace] at hcost
    omega
  · exact hplace

/-! ## The search against the best choice -/

omit hs hfree in
theorem Table.Kept.le {hash : BitVec b.bits} {j k : Nat} (h : t.Kept hash j) (hk : t.Visits hash k) : k ≤ j := by
  by_contra hlt
  obtain ⟨l, -, hjl, hcandidate, hlen⟩ := hk.2 j (Nat.lt_of_not_le hlt) h.visits.1
  exact absurd (h.last l hjl hcandidate) (Nat.not_le_of_lt hlen)

omit hs hfree in
/-- The candidate that is kept costs no more than the visited ones, by induction on how far the search is from its end. -/
theorem Table.Kept.cost_le {hash : BitVec b.bits} {j : Nat} (h : t.Kept hash j) (hj : j < t.worst hash)
    (hoverwrites : ¬t.Overwrites hash) : ∀ (n : Nat) {i : Nat}, t.Visits hash i → j ≤ i + n →
      t.cost hash (some j) ≤ t.cost hash (some i)
  | 0, _, hi, hn => Nat.le_antisymm (h.le hi) hn ▸ le_refl _
  | n + 1, i, hi, hn => by
    by_cases heq : i = j
    · rw [heq]
    · have hij : i < j := Nat.lt_of_le_of_ne (h.le hi) heq
      by_contra hless
      refine hoverwrites ⟨i, Nat.lt_trans hij hj, hi, ⟨j, hj, hij, h.visits⟩, fun k _ hik hk => ?_⟩
      exact lt_of_lt_of_le (not_le.1 hless) (Kept.cost_le h hj hoverwrites n hk (by omega))

/-- **The candidate that is kept** against the other choices. -/
theorem Table.Kept.least_iff {hash : BitVec b.bits} {j : Nat} (h : t.Kept hash j) :
    (∀ other, t.Choice hash other → t.cost hash (some j) ≤ t.cost hash other) ↔
      ¬t.Overwrites hash ∧ ¬t.StopsShort hash ∧ ¬t.PassesOver hash := by
  have hj : j < t.worst hash := Chooses.choice hs hfree (c := some j) h j rfl
  have hworse := h.visits.1.cost_lt hs hfree
  have hslot {i : Nat} (hi : i < t.worst hash) : t.Choice hash (some i) := fun _ heq => Option.some.inj heq ▸ hi
  constructor
  · intro hleast
    refine ⟨?_, ?_, ?_⟩
    · rintro ⟨i, hi, -, ⟨k, hk, hik, hvisits⟩, hmore⟩
      have hij : i < j := Nat.lt_of_lt_of_le hik (h.le hvisits)
      exact absurd (hleast (some i) (hslot hi)) (not_le.2 (hmore j hj hij h.visits))
    · rintro ⟨i, hi, -, -, hmore⟩
      exact absurd (hleast (some i) (hslot hi)) (not_le.2 (hmore j hj h.visits))
    · rintro ⟨i, hi, -, -, -, hmore⟩
      exact absurd (hleast (some i) (hslot hi)) (not_le.2 (hmore j hj h.visits))
  · rintro ⟨hoverwrites, hstops, hpasses⟩ other hother
    have hvisited {i : Nat} (hi : t.Visits hash i) : t.cost hash (some j) ≤ t.cost hash (some i) :=
      h.cost_le hj hoverwrites j hi (Nat.le_add_left j i)
    cases other with
    | none => exact hworse.le
    | some i =>
      by_contra hless
      have hless := not_le.1 hless
      have hmore (k : Nat) (_ : k < t.worst hash) (hk : t.Visits hash k) : t.cost hash (some i) < t.cost hash (some k) :=
        lt_of_lt_of_le hless (hvisited hk)
      by_cases hcandidate : t.Candidate hash i
      · by_cases hvisits : t.Visits hash i
        · exact absurd (hvisited hvisits) (not_le.2 hless)
        · exact hstops ⟨i, hother i rfl, hcandidate, hvisits, hmore⟩
      · have hnone := hless.trans hworse
        exact hpasses ⟨i, hother i rfl, hcandidate, Table.comesRound hs hfree hcandidate hnone, hnone, hmore⟩

/-- **The search misses no better choice** if and only if it overwrites no better move, stops short of none and passes over no
better slot. -/
theorem Table.Chooses.least_iff {hash : BitVec b.bits} {c : Option Nat} (h : t.Chooses hash c) :
    (∀ other, t.Choice hash other → t.cost hash c ≤ t.cost hash other) ↔
      ¬t.Overwrites hash ∧ ¬t.StopsShort hash ∧ ¬t.PassesOver hash := by
  cases c with
  | some j => exact Kept.least_iff hs hfree h
  | none =>
    have hnone {i : Nat} (hi : t.Visits hash i) : False := h i hi.1
    constructor
    · intro hleast
      refine ⟨?_, ?_, ?_⟩
      · rintro ⟨i, -, hvisits, -⟩
        exact hnone hvisits
      · rintro ⟨i, -, hcandidate, -⟩
        exact h i hcandidate
      · rintro ⟨i, hi, -, -, hless, -⟩
        exact absurd (hleast (some i) fun _ heq => Option.some.inj heq ▸ hi) (not_le.2 hless)
    · rintro ⟨-, -, hpasses⟩ other hother
      cases other with
      | none => exact le_refl _
      | some i =>
        by_contra hless
        have hless := not_le.1 hless
        exact hpasses ⟨i, hother i rfl, h i, Table.comesRound hs hfree (h i) hless, hless, fun k _ hk => (hnone hk).elim⟩

end

def Table.increase (t t' : Table b V) : Int := t'.probeTotal - t.probeTotal

def firstByte (ci : Bool) (key : Key) : BitVec Build.b64.bits := BitVec.ofNat _ ((foldKey ci key).headD 0).toNat

theorem firstByte_hashesKeys : HashesKeys (b := .b64) firstByte := by
  intro ci key key' h
  rw [firstByte, h, firstByte]

end Lws

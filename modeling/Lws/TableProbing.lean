import Lws.Loop
import Lws.TableReach
/-!
# TableProbing — the loops of `lws_table_find` and `lws_table_insert` end (`lws_table.c`)

The loops have no counter: they end because the size of a table is a prime that the stride is prime to, and because a table has a
slot that is not set whenever `lws_table_insert` is called.  Here each loop is run round by round, and a slot and a stride are added
as the source does, in a `size_t`; `tableFind` and `tableInsert` are what the runs end with, where no such sum wraps.
-/
namespace Lws

open Probe (probe)

variable {b : Build} {V : Type}

/-! ## The probe sequence -/

/-- **A probe sequence visits every slot exactly once** and is then back at its start iff the size and the stride add up to a
`size_t`, for every size that `lws_table_size` returns and every hash. -/
theorem probe_visits_iff {s : Nat} (hs : s ∈ b.tableSizes) (hash : BitVec b.bits) :
    (let slot := Probe.walk (2 ^ b.bits) s (hash.toNat % (s - 2) + 1) (hash.toNat % s)
     slot 0 = hash.toNat % s ∧ (∀ i < s, ∃! k, k < s ∧ slot k = i) ∧ slot s = slot 0) ↔
      s + (hash.toNat % (s - 2) + 1) ≤ 2 ^ b.bits := by
  have h3 := three_le_of_mem_tableSizes hs
  have hstride := Nat.mod_lt hash.toNat (show 0 < s - 2 by omega)
  have hcoprime : Nat.Coprime (hash.toNat % (s - 2) + 1) s :=
    Probe.coprime_stride (prime_of_mem_tableSizes hs) (Nat.succ_pos _) (by omega)
  have hstart := Nat.mod_lt hash.toNat (show 0 < s by omega)
  have hsmall : s < 2 ^ b.bits := by
    have hall : ∀ s ∈ b.tableSizes, s < 2 ^ b.bits := by cases b <;> decide +kernel
    exact hall s hs
  rw [← Probe.walk_visits_iff hsmall hcoprime (by omega) hstart]
  exact and_iff_right rfl

/-- `(h + q) % t->alloc`, the sum a `size_t`. -/
def Table.advance (t : Table b V) (h q : Nat) : Nat := (h + q) % 2 ^ b.bits % t.alloc

theorem Table.advance_eq {t : Table b V} {h q : Nat} (hfits : t.alloc + q ≤ 2 ^ b.bits) (hh : h < t.alloc) :
    t.advance h q = (h + q) % t.alloc := by
  have hsum : h + q < 2 ^ b.bits := by omega
  rw [Table.advance, Nat.mod_eq_of_lt hsum]

/-- The size of the table and each stride add up to a `size_t`. -/
def Table.Fits (t : Table b V) : Prop := ∀ hash : BitVec b.bits, t.alloc + t.stride hash ≤ 2 ^ b.bits

/-- **All tables fit but those of the two largest sizes of 32 bits.** -/
theorem Table.fits_iff {t : Table b V} (hs : t.alloc ∈ b.tableSizes) : t.Fits ↔ (b = .b32 → t.alloc ≤ 2055413317) := by
  have h3 := three_le_of_mem_tableSizes hs
  have hlarge : ∀ s ∈ Build.b64.tableSizes, 2 * s ≤ 2 ^ 64 := by decide +kernel
  have hsmall : ∀ s ∈ Build.b32.tableSizes, s < 2 ^ 32 ∧ (s ≤ 2147483649 → s ≤ 2055413317) := by decide +kernel
  constructor
  · rintro hfits rfl
    have hlt := (hsmall _ hs).1
    refine (hsmall _ hs).2 ?_
    -- the hash with the longest stride
    have hlast : t.alloc + ((BitVec.ofNat 32 (t.alloc - 3)).toNat % (t.alloc - 2) + 1) ≤ 2 ^ 32 :=
      hfits (BitVec.ofNat 32 (t.alloc - 3))
    rw [BitVec.toNat_ofNat, Nat.mod_eq_of_lt (show t.alloc - 3 < 2 ^ 32 by omega), Nat.mod_eq_of_lt (by omega)] at hlast
    omega
  · intro hle hash
    have hstride : t.stride hash < t.alloc - 2 + 1 :=
      Nat.succ_lt_succ (Nat.mod_lt hash.toNat (show 0 < t.alloc - 2 by omega))
    have hdouble : 2 * t.alloc ≤ 2 ^ b.bits := by
      cases b with
      | b64 => exact hlarge _ hs
      | b32 => exact (Nat.mul_le_mul_left 2 (hle rfl)).trans (by decide)
    omega

/-! ## `lws_table_find` -/

/-- A round of the loop of `lws_table_find` at slot `s.1`; `s.2` are the slots examined before. -/
def findRound (t : Table b V) (key : Key) (hash : BitVec b.bits) (r q : Nat) (s : Nat × List Nat) :
    (Nat × List Nat) ⊕ (Option Nat × List Nat) :=
  let seen := s.2 ++ [s.1]
  if (t.entries s.1).state = .unused then .inr (none, seen)
  else if t.matches (t.entries s.1) key hash then .inr (some s.1, seen)
  else
    let h := t.advance s.1 q
    if h = r then .inr (none, seen) else .inl (h, seen)

/-- `lws_table_find` in at most so many rounds: the entry, and the slots examined. -/
def tableFindRun (t : Table b V) (key : Key) (hash : BitVec b.bits) (fuel : Nat) : Option (Option Nat × List Nat) :=
  Loop.run (findRound t key hash (t.start hash) (t.stride hash)) fuel (t.start hash, [])

theorem findLoop_run {t : Table b V} {key : Key} {hash : BitVec b.bits} {r q : Nat} (hfits : t.alloc + q ≤ 2 ^ b.bits) :
    ∀ {fuel : Nat} {s : Nat × List Nat} {x : Option Nat × List Nat}, s.1 < t.alloc →
      Loop.run (findRound t key hash r q) fuel s = some x → findLoop t key hash r q fuel s.1 = x.1
  | 0, _, _, _, h => (nomatch h)
  | fuel + 1, s, x, hlt, h => by
    unfold findLoop
    rw [Loop.run, findRound, Table.advance_eq hfits hlt] at h
    dsimp only at h ⊢
    by_cases hunused : (t.entries s.1).state = .unused
    · rw [if_pos hunused] at h ⊢
      rw [← Option.some.inj h]
    · rw [if_neg hunused] at h ⊢
      by_cases hmatch : t.matches (t.entries s.1) key hash = true
      · rw [if_pos hmatch] at h ⊢
        rw [← Option.some.inj h]
      · rw [if_neg hmatch] at h ⊢
        by_cases hback : (s.1 + q) % t.alloc = r
        · rw [if_pos hback] at h ⊢
          rw [← Option.some.inj h]
        · rw [if_neg hback] at h ⊢
          exact findLoop_run hfits (Nat.mod_lt _ (Nat.zero_lt_of_lt hlt)) h

def Table.visited (t : Table b V) (hash : BitVec b.bits) (n : Nat) : List Nat := (List.range n).map (t.seq hash)

theorem Table.visited_succ (t : Table b V) (hash : BitVec b.bits) (n : Nat) :
    t.visited hash (n + 1) = t.visited hash n ++ [t.seq hash n] := by
  rw [Table.visited, List.range_succ, List.map_append, List.map_singleton, Table.visited]

@[simp] theorem Table.visited_length (t : Table b V) (hash : BitVec b.bits) (n : Nat) : (t.visited hash n).length = n := by
  rw [Table.visited, List.length_map, List.length_range]

section
variable {t : Table b V} (hs : t.alloc ∈ b.tableSizes) (key : Key) (hash : BitVec b.bits)
include hs

theorem Table.seq_alloc : t.seq hash t.alloc = t.start hash := by
  have hround := Probe.probe_add_size (n := t.alloc) (q := t.stride hash) (h := t.start hash) 0
  rw [Nat.zero_add, Probe.probe_zero (Table.start_lt hs hash)] at hround
  exact hround

theorem Table.visited_nodup {n : Nat} (hn : n ≤ t.alloc) : (t.visited hash n).Nodup := by
  refine List.Nodup.map_on (fun k hk j hj hkj => ?_) List.nodup_range
  have hk := List.mem_range.1 hk
  have hj := List.mem_range.1 hj
  exact Probe.probe_inj (Table.stride_coprime hs hash) (by omega) (by omega) hkj

def Table.Walks (t : Table b V) (hash : BitVec b.bits) (s : Nat × List Nat) : Prop :=
  ∃ k < t.alloc, s = (t.seq hash k, t.visited hash k)

theorem findRound_walks (hfits : t.alloc + t.stride hash ≤ 2 ^ b.bits) {s s' : Nat × List Nat} (h : t.Walks hash s)
    (hround : findRound t key hash (t.start hash) (t.stride hash) s = .inl s') :
    t.Walks hash s' ∧ t.alloc - 1 - s'.2.length < t.alloc - 1 - s.2.length := by
  obtain ⟨k, hk, rfl⟩ := h
  unfold findRound at hround
  rw [Table.advance_eq hfits (Table.seq_lt hs hash k)] at hround
  dsimp only at hround
  split at hround
  · cases hround
  · split at hround
    · cases hround
    · split at hround
      · cases hround
      · rename_i hback
        obtain rfl := (Sum.inl.inj hround).symm
        rw [Table.seq_succ] at hback ⊢
        rw [← Table.visited_succ]
        have hlt : k + 1 < t.alloc := by
          refine Nat.lt_of_le_of_ne hk fun heq => hback ?_
          rw [show k + 1 = t.alloc from heq, Table.seq_alloc hs]
        refine ⟨⟨k + 1, hlt, rfl⟩, ?_⟩
        dsimp only
        rw [Table.visited_length, Table.visited_length]
        omega

/-- What `lws_table_find` has examined: the first slots of the sequence, up to one that is not used or all of them where it has
found nothing. -/
def Table.Examined (t : Table b V) (hash : BitVec b.bits) (x : Option Nat × List Nat) : Prop :=
  ∃ n ≤ t.alloc, x.2 = t.visited hash n ∧
    (x.1 = none → n = t.alloc ∨ ∃ k < n, (t.entries (t.seq hash k)).state = .unused)

theorem findRound_examined (hfits : t.alloc + t.stride hash ≤ 2 ^ b.bits) {s : Nat × List Nat} {x : Option Nat × List Nat}
    (h : t.Walks hash s)
    (hround : findRound t key hash (t.start hash) (t.stride hash) s = .inr x) : t.Examined hash x := by
  obtain ⟨k, hk, rfl⟩ := h
  unfold findRound at hround
  rw [Table.advance_eq hfits (Table.seq_lt hs hash k)] at hround
  dsimp only at hround
  rw [← Table.visited_succ] at hround
  split at hround
  · rename_i hunused
    obtain rfl := Sum.inr.inj hround
    exact ⟨k + 1, hk, rfl, fun _ => .inr ⟨k, Nat.lt_succ_self k, hunused⟩⟩
  · split at hround
    · obtain rfl := Sum.inr.inj hround
      exact ⟨k + 1, hk, rfl, fun h => (nomatch h)⟩
    · split at hround
      · rename_i hback
        obtain rfl := Sum.inr.inj hround
        rw [Table.seq_succ] at hback
        have hall := Probe.le_of_probe_eq_start (Table.stride_coprime hs hash) (Table.start_lt hs hash) (Nat.succ_pos k) hback
        exact ⟨k + 1, hk, rfl, fun _ => .inl (Nat.le_antisymm hk hall)⟩
      · cases hround

/-- **The loop of `lws_table_find` ends** within as many rounds as the table has slots. -/
theorem tableFindRun_ends (hfits : t.alloc + t.stride hash ≤ 2 ^ b.bits) :
    ∃ seen, tableFindRun t key hash t.alloc = some (tableFind t key hash, seen) ∧ t.Examined hash (tableFind t key hash, seen) := by
  have hpos := Table.alloc_pos hs
  have hwalks : t.Walks hash (t.start hash, []) := ⟨0, hpos, by rw [Table.seq_zero hs]; rfl⟩
  have hbound : t.alloc - 1 - ([] : List Nat).length < t.alloc := by
    rw [List.length_nil]
    omega
  obtain ⟨x, hx⟩ := Loop.run_ends (m := fun s => t.alloc - 1 - s.2.length) (fun _ _ => findRound_walks hs key hash hfits)
    hwalks hbound
  have hfind : tableFind t key hash = x.1 := findLoop_run hfits (Table.start_lt hs hash) hx
  have hexamined : t.Examined hash x :=
    Loop.run_result (fun _ _ h hround => (findRound_walks hs key hash hfits h hround).1)
      (fun _ _ => findRound_examined hs key hash hfits) hwalks hx
  rw [hfind]
  exact ⟨x.2, hx, hexamined⟩

end

/-! ## `lws_table_insert` -/

/-- A round of the first loop of `lws_table_insert`, at a slot and with `len_worst`. -/
def worstRound (t : Table b V) (q : Nat) (s : Nat × Nat) : (Nat × Nat) ⊕ (Nat × Nat) :=
  if (t.entries s.1).state = .set then .inl (t.advance s.1 q, s.2 + 1) else .inr s

/-- A round of the inner loop, at the slot of `entry_move` and with `len_move`. -/
def searchRound (t : Table b V) (qMove len lenWorst : Nat) (s : Nat × Nat) : (Nat × Nat) ⊕ Option (Nat × Nat) :=
  if (t.entries s.1).state ≠ .set then .inr (some s)
  else if len + s.2 ≥ lenWorst - 1 then .inr none
  else .inl (t.advance s.1 qMove, s.2 + 1)

/-- The state of the outer loop: the slot of `entry`, `len`, and the move found. -/
structure MoveState where
  h : Nat
  len : Nat
  move : Option Move := none

/-- The move after the inner loop, in at most `fuel` rounds of it. -/
def moveRun (t : Table b V) (lenWorst fuel : Nat) (s : MoveState) : Option (Option Move) :=
  let qMove := t.stride (t.entries s.h).hash
  (Loop.run (searchRound t qMove s.len lenWorst) fuel (t.advance s.h qMove, 1)).map fun
    | some (hMove, lenMove) => some ⟨s.h, hMove, lenMove⟩
    | none => s.move

/-- A round of the outer loop; none where the inner loop has not ended. -/
def moveStep (t : Table b V) (q lenWorst fuel : Nat) (s : MoveState) : MoveState ⊕ Option (Option Move × Nat) :=
  match moveRun t lenWorst fuel s with
  | none => .inr none
  | some move =>
    let h := t.advance s.h q
    let len := s.len + 1
    if len < lenWorst - 1 ∧ (∀ m ∈ move, len < m.len) then .inl ⟨h, len, move⟩ else .inr (some (move, h))

/-- `lws_table_insert` with at most `fuel` rounds of each loop. -/
def tableInsertRun (t : Table b V) (hash : BitVec b.bits) (fuel : Nat) : Option (Table b V × Nat) :=
  let q := t.stride hash
  (Loop.run (worstRound t q) fuel (t.start hash, 1)).bind fun (slot, lenWorst) =>
    if lenWorst ≤ 2 then some (t, slot)
    else
      (Loop.run (moveStep t q lenWorst fuel) fuel ⟨t.start hash, 1, none⟩).join.map fun
        | (some m, _) => (t.moved m, m.old)
        | (none, h) => (t, t.advance h q)

section
variable {t : Table b V}

theorem worstLoop_run {q : Nat} (hfits : t.alloc + q ≤ 2 ^ b.bits) : ∀ {fuel : Nat} {s x : Nat × Nat}, s.1 < t.alloc →
    Loop.run (worstRound t q) fuel s = some x → worstLoop t q fuel s.1 s.2 = x
  | 0, _, _, _, h => (nomatch h)
  | fuel + 1, s, x, hlt, h => by
    rw [Loop.run, worstRound, Table.advance_eq hfits hlt] at h
    rw [worstLoop]
    by_cases hset : (t.entries s.1).state = .set
    · rw [if_pos hset] at h ⊢
      exact worstLoop_run hfits (Nat.mod_lt _ (Nat.zero_lt_of_lt hlt)) h
    · rw [if_neg hset] at h ⊢
      exact Option.some.inj h

theorem moveSearch_run {qMove len lenWorst : Nat} (hfits : t.alloc + qMove ≤ 2 ^ b.bits) : ∀ {fuel : Nat} {s : Nat × Nat}
    {x : Option (Nat × Nat)}, s.1 < t.alloc → Loop.run (searchRound t qMove len lenWorst) fuel s = some x →
      moveSearch t qMove len lenWorst fuel s.1 s.2 = x
  | 0, _, _, _, h => (nomatch h)
  | fuel + 1, s, x, hlt, h => by
    rw [Loop.run, searchRound, Table.advance_eq hfits hlt] at h
    rw [moveSearch]
    by_cases hset : (t.entries s.1).state ≠ .set
    · rw [if_pos hset] at h ⊢
      exact Option.some.inj h
    · rw [if_neg hset] at h ⊢
      by_cases hlen : len + s.2 ≥ lenWorst - 1
      · rw [if_pos hlen] at h ⊢
        exact Option.some.inj h
      · rw [if_neg hlen] at h ⊢
        exact moveSearch_run hfits (Nat.mod_lt _ (Nat.zero_lt_of_lt hlt)) h

theorem moveLoop_lt (q : Nat) {lenWorst : Nat} : ∀ (fuel len : Nat) (move : Option Move) {h : Nat}, h < t.alloc →
    (moveLoop t q lenWorst fuel h len move).2 < t.alloc
  | 0, _, _, _, hlt => hlt
  | fuel + 1, len, move, h, hlt => by
    have hnext : (h + q) % t.alloc < t.alloc := Nat.mod_lt _ (Nat.zero_lt_of_lt hlt)
    rw [moveLoop]
    split
    · exact moveLoop_lt q fuel (len + 1) _ hnext
    · exact hnext

section
variable (hfits : t.Fits) {lenWorst fuel : Nat} (hfuel : lenWorst ≤ fuel) (hpos : 0 < lenWorst)
include hfits hfuel hpos

theorem moveRun_ends {s : MoveState} (hlt : s.h < t.alloc) :
    moveRun t lenWorst fuel s = some (moveRound t lenWorst s.h s.len s.move) := by
  have hfit := hfits (t.entries s.h).hash
  have hbound : lenWorst - 1 < lenWorst := by omega
  obtain ⟨x, hx⟩ := Loop.run_ends (P := fun _ => True) (m := fun r => lenWorst - r.2)
    (f := searchRound t (t.stride (t.entries s.h).hash) s.len lenWorst) (fun r r' _ hround => ⟨trivial, by
      unfold searchRound at hround
      split at hround
      · cases hround
      · split at hround
        · cases hround
        · obtain rfl := (Sum.inl.inj hround).symm
          dsimp only
          omega⟩) (s := ((s.h + t.stride (t.entries s.h).hash) % t.alloc, 1)) trivial hbound
  have hsearch := moveSearch_run hfit (Nat.mod_lt _ (Nat.zero_lt_of_lt hlt)) hx
  dsimp only at hsearch
  rw [moveRun, moveRound, Table.advance_eq hfit hlt, Loop.run_mono hx hfuel, hsearch]
  cases x <;> rfl

variable {hash : BitVec b.bits}

theorem moveStep_eq {s : MoveState} (hlt : s.h < t.alloc) : moveStep t (t.stride hash) lenWorst fuel s =
      let move := moveRound t lenWorst s.h s.len s.move
      let h := (s.h + t.stride hash) % t.alloc
      let len := s.len + 1
      if len < lenWorst - 1 ∧ (∀ m ∈ move, len < m.len) then .inl ⟨h, len, move⟩ else .inr (some (move, h)) := by
  rw [moveStep, moveRun_ends hfits hfuel hpos hlt, Table.advance_eq (hfits hash) hlt]

theorem moveLoop_run : ∀ {n : Nat} {s : MoveState} {x : Option (Option Move × Nat)}, s.h < t.alloc →
    Loop.run (moveStep t (t.stride hash) lenWorst fuel) n s = some x →
      x = some (moveLoop t (t.stride hash) lenWorst n s.h s.len s.move)
  | 0, _, _, _, h => (nomatch h)
  | n + 1, s, x, hlt, h => by
    rw [Loop.run, moveStep_eq hfits hfuel hpos hlt] at h
    rw [moveLoop]
    dsimp only at h ⊢
    by_cases hcont : s.len + 1 < lenWorst - 1 ∧ ∀ m ∈ moveRound t lenWorst s.h s.len s.move, s.len + 1 < m.len
    · rw [if_pos hcont] at h ⊢
      exact moveLoop_run (Nat.mod_lt _ (Nat.zero_lt_of_lt hlt)) h
    · rw [if_neg hcont] at h ⊢
      exact (Option.some.inj h).symm

theorem moveLoop_ends {h : Nat} (hlt : h < t.alloc) : Loop.run (moveStep t (t.stride hash) lenWorst fuel) fuel ⟨h, 1, none⟩ =
    some (some (moveLoop t (t.stride hash) lenWorst lenWorst h 1 none)) := by
  have hbound : lenWorst - 1 < lenWorst := by omega
  obtain ⟨x, hx⟩ := Loop.run_ends (P := fun s : MoveState => s.h < t.alloc) (m := fun s : MoveState => lenWorst - s.len)
    (f := moveStep t (t.stride hash) lenWorst fuel) (fun s s' hlt hround => by
      rw [moveStep_eq hfits hfuel hpos hlt] at hround
      dsimp only at hround
      split at hround
      · rename_i hcont
        obtain rfl := (Sum.inl.inj hround).symm
        refine ⟨Nat.mod_lt _ (Nat.zero_lt_of_lt hlt), ?_⟩
        dsimp only
        omega
      · cases hround) (s := ⟨h, 1, none⟩) hlt hbound
  rw [Loop.run_mono hx hfuel, moveLoop_run hfits hfuel hpos hlt hx]

end

variable (hs : t.alloc ∈ b.tableSizes) (hash : BitVec b.bits)
include hs

theorem worstLoop_ends (hfits : t.alloc + t.stride hash ≤ 2 ^ b.bits) {w fuel : Nat} (hw : w < fuel)
    (hfree : (t.entries (t.seq hash w)).state ≠ .set) :
    ∃ x, Loop.run (worstRound t (t.stride hash)) fuel (t.seq hash 0, 1) = some x := by
  have hbound : w - (1 - 1) < fuel := by omega
  refine Loop.run_ends (P := fun s => ∃ k ≤ w, s = (t.seq hash k, k + 1)) (m := fun s => w - (s.2 - 1)) ?_
    ⟨0, Nat.zero_le w, rfl⟩ hbound
  rintro _ s' ⟨k, hk, rfl⟩ hround
  unfold worstRound at hround
  rw [Table.advance_eq hfits (Table.seq_lt hs hash k)] at hround
  split at hround
  · rename_i hset
    obtain rfl := (Sum.inl.inj hround).symm
    have hne : k ≠ w := fun he => hfree (he ▸ hset)
    refine ⟨⟨k + 1, by omega, by rw [Table.seq_succ]⟩, ?_⟩
    dsimp only
    omega
  · cases hround

/-- **The three loops of `lws_table_insert` end** within as many rounds as the table has slots, where one is not set. -/
theorem tableInsertRun_ends (hfits : t.Fits) (hfree : ∃ i < t.alloc, (t.entries i).state ≠ .set) :
    tableInsertRun t hash t.alloc = some (tableInsert t hash) := by
  have hreach : ∃ m, 0 ≤ m ∧ m < 0 + t.alloc ∧ (t.entries (t.seq hash m)).state ≠ .set := by
    obtain ⟨i, hi, hif⟩ := hfree
    obtain ⟨k, hk, rfl⟩ := Table.seq_surj hs hash hi
    exact ⟨k, Nat.zero_le k, by omega, hif⟩
  obtain ⟨w, -, hw, hworst, hwf, -⟩ := worstLoop_spec t hash t.alloc 0 1 (fun j hj => absurd hj (Nat.not_lt_zero j)) hreach
  rw [Nat.zero_add] at hw
  obtain ⟨x, hx⟩ := worstLoop_ends hs hash (hfits hash) hw hwf
  have hloop := worstLoop_run (hfits hash) (Table.seq_lt hs hash 0) hx
  dsimp only at hloop
  unfold tableInsertRun tableInsert
  dsimp only
  rw [← Table.seq_zero hs, hx, hloop, Option.bind_some]
  have hlen : x.2 = 1 + (w - 0) := by rw [← hloop, hworst]
  by_cases hshort : x.2 ≤ 2
  · rw [if_pos hshort, if_pos hshort]
  · rw [if_neg hshort, if_neg hshort, moveLoop_ends hfits (by omega) (by omega) (Table.seq_lt hs hash 0)]
    rw [Option.join_some, Option.map_some]
    have hlt : (moveLoop t (t.stride hash) x.2 x.2 (t.seq hash 0) 1 none).2 < t.alloc :=
      moveLoop_lt (t.stride hash) x.2 1 none (Table.seq_lt hs hash 0)
    generalize moveLoop t (t.stride hash) x.2 x.2 (t.seq hash 0) 1 none = r at hlt ⊢
    obtain ⟨move, h⟩ := r
    cases move with
    | none =>
      dsimp only at hlt ⊢
      rw [Table.advance_eq (hfits hash) hlt]
    | some m => rfl

end

/-- **The slot that `lws_table_insert` returns** is not set, or is the one that a moved entry leaves for a slot that is not
set. -/
theorem tableInsert_slot {t : Table b V} (hs : t.alloc ∈ b.tableSizes) (hfree : ∃ i < t.alloc, (t.entries i).state ≠ .set)
    (hash : BitVec b.bits) :
    (t.entries (tableInsert t hash).2).state ≠ .set ∧ (tableInsert t hash).1 = t ∨
      ∃ m, (tableInsert t hash).2 = m.old ∧ (tableInsert t hash).1 = t.moved m ∧ (t.entries m.old).state = .set ∧
        (t.entries m.new).state ≠ .set := by
  obtain ⟨w, -, hwf, hws, hcase⟩ := tableInsert_cases hs hfree hash
  rcases hcase with heq | ⟨m, j, hj, hold, ⟨-, -, -, hnew, -⟩, heq⟩
  · rw [heq]
    exact .inl ⟨hwf, rfl⟩
  · rw [heq]
    exact .inr ⟨m, rfl, rfl, by rw [hold]; exact hws j hj, hnew⟩

/-! ## The calls of `lws_table_insert` -/

/-- The calls of `lws_table_insert` that the loop of `lws_table_rehash` makes, with their tables. -/
def reinsertCalls (old : Nat → Entry b V) (oldOrder : Ring.Links (Option Nat)) :
    Nat → Option Nat → Table b V → List (Table b V × BitVec b.bits)
  | fuel + 1, some i, t =>
    let (t', slot) := tableInsert t (old i).hash
    let t' := { t' with
      entries := Function.update t'.entries slot (old i)
      order := t'.order.insertHead none (some slot) }
    (t, (old i).hash) :: reinsertCalls old oldOrder fuel (oldOrder.prev (some i)) t'
  | _, _, _ => []

/-- The calls of `lws_table_insert` that `lws_table_rehash` makes. -/
def rehashCalls (t : Table b V) (alloc : Nat) (calloc : Bool) : List (Table b V × BitVec b.bits) :=
  match tableSize b alloc with
  | none => []
  | some allocNew =>
    if !calloc then []
    else
      let t' := { t with
        alloc := allocNew
        load := tableLoad allocNew
        entries := fun _ => {}
        order := (⟨fun _ => none, fun _ => none⟩ : Ring.Links (Option Nat)).init none }
      reinsertCalls t.entries t.order t.alloc (t.order.prev none) t'

/-- The calls of `lws_table_insert` that `lws_table_set` makes, also in a rehash. -/
def setCalls (hash : Bool → Key → BitVec b.bits) (t : Table b V) (key : Key) (value : Option V) (mem : SetAlloc) :
    List (Table b V × BitVec b.bits) :=
  match value, tableFind t key (hash t.ci key) with
  | some _, none =>
    let t' := tableEvict t
    (if t'.count = t'.load then rehashCalls t' (t'.alloc + 1) mem.rehash else []) ++
      match (if t'.count = t'.load then tableRehash t' (t'.alloc + 1) mem.rehash else some t') with
      | none => []
      | some t'' => if t''.dup && !mem.dup then [] else [(t'', hash t.ci key)]
  | _, _ => []

/-- A call of `lws_table_insert`: the table is laid out, and has a slot that is not set. -/
def Table.Callable (t : Table b V) : Prop := ∃ C, Fills t C ∧ C.length < t.alloc

theorem Table.Callable.size {t : Table b V} (h : t.Callable) : t.alloc ∈ b.tableSizes := by
  obtain ⟨C, ⟨L, hL, -, -⟩, -⟩ := h
  exact hL.size

theorem Table.Callable.room {t : Table b V} (h : t.Callable) : ∃ i < t.alloc, (t.entries i).state ≠ .set := by
  obtain ⟨C, hC, hlt⟩ := h
  exact hC.room hlt

section
variable {hash : Bool → Key → BitVec b.bits}

theorem reinsertCalls_callable {old : Table b V} {L₀ : List Nat} (hold : TableRep hash old L₀) :
    ∀ (fuel : Nat) (rest suf : List Nat) (t : Table b V), L₀ = rest.reverse ++ suf → Fills t (suf.map old.entries) →
      L₀.length < t.alloc → ∀ c ∈ reinsertCalls old.entries old.order fuel rest.head? t, c.1.Callable
  | fuel, [], _, _, _, _, _ => by
    intro c hc
    cases fuel <;> exact absurd hc List.not_mem_nil
  | 0, _ :: _, _, _, _, _, _ => fun c hc => absurd hc List.not_mem_nil
  | fuel + 1, i :: rest, suf, t, hsplit, hF, hlt => by
    rw [List.reverse_cons, List.append_assoc, List.singleton_append] at hsplit
    have hi : i ∈ L₀ := by
      rw [hsplit]
      exact List.mem_append_right _ List.mem_cons_self
    have hlen : (suf.map old.entries).length < t.alloc := by
      have := congrArg List.length hsplit
      simp only [List.length_append, List.length_reverse, List.length_cons] at this
      rw [List.length_map]
      omega
    have hprev := hold.prev_of hsplit
    obtain ⟨hF', hframe⟩ := hF.reinsert_step hlen (hold.set i hi)
    have hrec := reinsertCalls_callable hold fuel rest (i :: suf) _ hsplit hF' (by rw [hframe]; exact hlt)
    intro c hc
    dsimp only [List.head?_cons, reinsertCalls] at hc
    rw [hprev] at hc
    rcases List.mem_cons.1 hc with rfl | hc
    · exact ⟨_, hF, hlen⟩
    · exact hrec c hc

variable {t : Table b V} {C : List (Entry b V)}

theorem HoldsBy.callable (h : HoldsBy hash t C) : t.Callable := by
  obtain ⟨L, hL, rfl⟩ := h
  exact ⟨_, ⟨L, hL.toLayout, hL.only, rfl⟩, by rw [List.length_map]; exact hL.length_lt⟩

theorem HoldsBy.rehashCalls (h : HoldsBy hash t C) (calloc : Bool) :
    ∀ c ∈ rehashCalls t (t.alloc + 1) calloc, c.1.Callable := by
  obtain ⟨L, hL, rfl⟩ := h
  intro c hc
  unfold Lws.rehashCalls at hc
  split at hc
  · exact absurd hc List.not_mem_nil
  · rename_i allocNew hsize
    obtain ⟨hmem, hle⟩ := tableSize_mem hsize
    cases calloc with
    | false => exact absurd hc List.not_mem_nil
    | true =>
      have hlen := hL.length_lt
      rw [if_neg (by decide), hL.prev_none] at hc
      exact reinsertCalls_callable hL t.alloc L.reverse [] _ (by simp) (fills_empty t hmem) (by dsimp only; omega) c hc

/-- **Every call of `lws_table_insert` that `lws_table_set` makes**, also in a rehash, is on a table with a slot that is not
set. -/
theorem HoldsBy.setCalls (h : HoldsBy hash t C) (key : Key) (value : Option V) (mem : SetAlloc) :
    ∀ c ∈ setCalls hash t key value mem, c.1.Callable := by
  intro c hc
  unfold Lws.setCalls at hc
  split at hc
  · obtain ⟨hev, -⟩ := h.evict
    dsimp only at hc
    rcases List.mem_append.1 hc with hc | hc
    · split at hc
      · exact hev.rehashCalls mem.rehash c hc
      · exact absurd hc List.not_mem_nil
    · rcases hev.grow mem.rehash with ⟨t'', ht'', hH, -, -⟩ | ⟨hnone, -⟩
      · rw [ht''] at hc
        dsimp only at hc
        split at hc
        · exact absurd hc List.not_mem_nil
        · rw [List.mem_singleton.1 hc]
          exact hH.callable
      · rw [hnone] at hc
        exact absurd hc List.not_mem_nil
  · exact absurd hc List.not_mem_nil

/-- **Probing ends.**  The probe sequence of a hash visits every slot of a table of a listed size exactly once iff the size and the
stride add up to a `size_t`.  On every table that calls reach and that fits, `lws_table_find` ends within as many rounds as there
are slots, and has examined every entry with the hash where it finds nothing; and the loops of every call of `lws_table_insert` on a
table that fits end within as many rounds, with a slot that is not set or the slot that a moved entry leaves. -/
theorem probing_ends_iff (hh : HashesKeys hash) (h : Table.Reached hash t) :
    (∀ size s, tableSize b size = some s → ∀ hash : BitVec b.bits,
      (let slot := Probe.walk (2 ^ b.bits) s (hash.toNat % (s - 2) + 1) (hash.toNat % s)
       slot 0 = hash.toNat % s ∧ (∀ i < s, ∃! k, k < s ∧ slot k = i) ∧ slot s = slot 0) ↔
        s + (hash.toNat % (s - 2) + 1) ≤ 2 ^ b.bits) ∧
    (∀ key hash, t.alloc + t.stride hash ≤ 2 ^ b.bits →
      ∃ seen, tableFindRun t key hash t.alloc = some (tableFind t key hash, seen) ∧ seen.Nodup ∧
        seen.length ≤ t.alloc ∧ (tableFind t key hash = none →
          ∀ i, (t.entries i).state = .set → (t.entries i).hash = hash → i ∈ seen)) ∧
    ∀ key value mem, ∀ c ∈ setCalls hash t key value mem, c.1.Fits →
      tableInsertRun c.1 c.2 c.1.alloc = some (tableInsert c.1 c.2) ∧
      ((c.1.entries (tableInsert c.1 c.2).2).state ≠ .set ∧ (tableInsert c.1 c.2).1 = c.1 ∨
        ∃ m, (tableInsert c.1 c.2).2 = m.old ∧ (tableInsert c.1 c.2).1 = c.1.moved m ∧ (c.1.entries m.old).state = .set ∧
          (c.1.entries m.new).state ≠ .set) := by
  obtain ⟨⟨C, hC⟩, -⟩ := h.holds hh
  refine ⟨fun size s hsize hash => probe_visits_iff (tableSize_mem hsize).1 hash, fun key hash hfits => ?_,
    fun key value mem c hc hfits => ?_⟩
  · obtain ⟨L, hL, -⟩ := hC
    obtain ⟨seen, hrun, n, hn, rfl, hnone⟩ := tableFindRun_ends hL.size key hash hfits
    refine ⟨_, hrun, Table.visited_nodup hL.size hash hn, by rwa [Table.visited_length], fun hfind i hset hhash => ?_⟩
    obtain ⟨k, hk, hki, hu⟩ := hL.reach i (hL.only i hset)
    rw [hhash] at hki hu
    have hkn : k < n := by
      rcases hnone hfind with rfl | ⟨j, hj, hunused⟩
      · exact hk
      · exact Nat.lt_of_not_le fun hle => hu j (Nat.lt_of_lt_of_le hj hle) hunused
    exact List.mem_map.2 ⟨k, List.mem_range.2 hkn, hki⟩
  · have hcall := hC.setCalls key value mem c hc
    exact ⟨tableInsertRun_ends hcall.size c.2 hfits hcall.room, tableInsert_slot hcall.size hcall.room c.2⟩

end

/-- **A probe sequence of the largest size of 32 bits** does not visit every slot. -/
theorem probing_does_not_end : tableSize .b32 3654068141 = some 3654068141 ∧
    ¬ (let slot := Probe.walk (2 ^ 32) 3654068141 (3654068138 % (3654068141 - 2) + 1) (3654068138 % 3654068141)
       slot 0 = 3654068138 % 3654068141 ∧ (∀ i < 3654068141, ∃! k, k < 3654068141 ∧ slot k = i) ∧ slot 3654068141 = slot 0) := by
  refine ⟨by decide +kernel, fun h => ?_⟩
  have hfits := (probe_visits_iff (b := .b32) (s := 3654068141) (by decide +kernel) 3654068138#32).1 h
  revert hfits
  decide +kernel

/-- A table of three slots in which no slot is unused any more. -/
theorem probing_ends_deleted : ∃ t : Table .b64 Nat, Table.Reached (b := .b64) (fun _ key => BitVec.ofNat _ key.length) t ∧
    (∀ i < t.alloc, (t.entries i).state = .deleted) ∧
    (setCalls (b := .b64) (fun _ key => BitVec.ofNat _ key.length) t [] (some 1) {}).length = 1 ∧
    (∀ key (hash : BitVec 64), ∃ seen, tableFindRun t key hash t.alloc = some (tableFind t key hash, seen) ∧ seen.Nodup ∧
      seen.length ≤ t.alloc ∧ (tableFind t key hash = none →
        ∀ i, (t.entries i).state = .set → (t.entries i).hash = hash → i ∈ seen)) ∧
    ∀ key value mem, ∀ c ∈ setCalls (b := .b64) (fun _ key => BitVec.ofNat _ key.length) t key value mem,
      tableInsertRun c.1 c.2 c.1.alloc = some (tableInsert c.1 c.2) := by
  let hash : Bool → Key → BitVec Build.b64.bits := fun _ key => BitVec.ofNat _ key.length
  have hh : HashesKeys hash := by
    intro ci key key' h
    have hlen := congrArg List.length h
    rw [foldKey_length, foldKey_length] at hlen
    exact congrArg (BitVec.ofNat _) hlen
  let ops : List (TableOp Nat) := [.set [] (some 1) 0 {}, .set [] none 0 {}, .set [65] (some 1) 0 {}, .set [65] none 0 {},
    .set [65, 65] (some 1) 0 {}, .set [65, 65] none 0 {}]
  have hrun : (tableCreate .b64 Nat 0 true true).map (fun t =>
      let t := ops.foldl (tableOp hash) t
      decide ((∀ i < t.alloc, (t.entries i).state = .deleted) ∧ (setCalls hash t [] (some 1) {}).length = 1)) = some true := by
    decide +kernel
  obtain ⟨t, ht, hrun⟩ := Option.map_eq_some_iff.1 hrun
  have hr : Table.Reached hash (ops.foldl (tableOp hash) t) := (Table.Reached.create ht).run ops
  obtain ⟨hdeleted, hcall⟩ := of_decide_eq_true hrun
  obtain ⟨-, hfind, hinsert⟩ := probing_ends_iff hh hr
  obtain ⟨⟨C, hC⟩, -⟩ := hr.holds hh
  have hfits : ∀ {t : Table .b64 Nat}, t.alloc ∈ Build.b64.tableSizes → t.Fits := fun hs =>
    (Table.fits_iff hs).2 fun h32 => nomatch h32
  obtain ⟨L, hL, -⟩ := id hC
  exact ⟨_, hr, hdeleted, hcall, fun key hash => hfind key hash (hfits hL.size hash),
    fun key value mem c hc => (hinsert key value mem c hc (hfits (hC.setCalls key value mem c hc).size)).1⟩

end Lws

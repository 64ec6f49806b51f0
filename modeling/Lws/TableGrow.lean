import Lws.TableRep
/-!
# TableGrow — rehash, insertion of a new entry, and clearing

`lws_table_rehash` reinserts the live entries from the last to the first, each at the head of a new order list, so that the
order survives; a larger size always raises the load limit, so that an insertion after a rehash has room.
-/
namespace Lws

open Ring (IsRing Links)

variable {b : Build} {V : Type}

/-! ## Room -/

theorem tableLoad_lt_of_lt {a c : Nat} (ha : a ∈ b.tableSizes) (hc : c ∈ b.tableSizes) (h : a < c) :
    tableLoad a < tableLoad c := by
  have hodd {n : Nat} (hn : n ∈ b.tableSizes) : n % 2 = 1 := by
    have h3 := three_le_of_mem_tableSizes hn
    exact (prime_of_mem_tableSizes hn).eq_two_or_odd.resolve_left (by omega)
  have h1 := hodd ha
  have h2 := hodd hc
  rw [tableLoad_eq, tableLoad_eq]
  omega

/-! ## The reinsertion loop -/

/-- A table in the middle of a rehash: its live entries are `C`, and nothing is said of its counters. -/
def Fills (t : Table b V) (C : List (Entry b V)) : Prop :=
  ∃ L, Layout t L ∧ (∀ i, (t.entries i).state = .set → i ∈ L) ∧ L.map t.entries = C

theorem Fills.room {t : Table b V} {C : List (Entry b V)} (h : Fills t C) (hC : C.length < t.alloc) :
    ∃ i < t.alloc, (t.entries i).state ≠ .set := by
  obtain ⟨L, -, honly, rfl⟩ := h
  exact exists_not_set honly (by simpa using hC)

theorem fills_empty (t : Table b V) {alloc load : Nat} (hs : alloc ∈ b.tableSizes) :
    Fills ({ t with
      alloc := alloc
      load := load
      entries := fun _ => {}
      order := (⟨fun _ => none, fun _ => none⟩ : Links (Option Nat)).init none } : Table b V) [] :=
  ⟨[], ⟨hs, Ring.isRing_init _ _, by simp, by simp⟩, by simp, rfl⟩

theorem Fills.reinsert_step {t : Table b V} {C : List (Entry b V)} (h : Fills t C) (hC : C.length < t.alloc)
    {e : Entry b V} (he : e.state = .set) :
    let t' := (tableInsert t e.hash).1
    let slot := (tableInsert t e.hash).2
    let t'' := { t' with entries := Function.update t'.entries slot e, order := t'.order.insertHead none (some slot) }
    Fills t'' (e :: C) ∧ t'' = { t with entries := t''.entries, order := t''.order } := by
  have hroom := h.room hC
  obtain ⟨L, hL, honly, rfl⟩ := h
  obtain ⟨L', hins⟩ := tableInsert_inserted hL honly hroom e.hash
  have hring := hins.layout.ring.insertHead hins.not_mem_ring
  dsimp only
  refine ⟨⟨(tableInsert t e.hash).2 :: L', ?_⟩, ?_⟩
  · rw [← List.map_cons] at hring
    obtain ⟨hlay, hon⟩ := hins.fill he rfl hring (fun i => List.mem_cons)
    refine ⟨hlay, hon, ?_⟩
    dsimp only
    rw [List.map_cons, Function.update_self, hins.map_fill]
  · rw [hins.frame]

theorem TableRep.prev_of {hash : Bool → Key → BitVec b.bits} {t : Table b V} {rest suf : List Nat} {i : Nat} {L : List Nat}
    (h : TableRep hash t L) (hsplit : L = rest.reverse ++ i :: suf) : t.order.prev (some i) = rest.head? := by
  have hring := h.ring
  rw [hsplit, List.map_append, List.map_cons] at hring
  have := hring.split.2.2.1
  cases rest with
  | nil => simpa using this.symm
  | cons j rest =>
    rw [List.reverse_cons, List.map_append, ← List.cons_append, List.getLast?_append] at this
    simpa using this.symm

theorem TableRep.prev_none {hash : Bool → Key → BitVec b.bits} {t : Table b V} {L : List Nat} (h : TableRep hash t L) :
    t.order.prev none = L.reverse.head? := by
  have := h.ring.prev_last
  rw [List.head?_reverse]
  cases L using List.reverseRecOn with
  | nil => simpa using this.symm
  | append_singleton L i =>
    rw [List.map_append, ← List.cons_append, List.getLast?_append] at this
    simpa using this.symm

theorem TableRep.length_lt {hash : Bool → Key → BitVec b.bits} {t : Table b V} {L : List Nat} (h : TableRep hash t L) :
    L.length < t.alloc := by
  have := tableLoad_lt (Table.alloc_pos h.size)
  have := h.count_le
  rw [h.count_eq, h.load_eq] at this
  omega

theorem reinsert_spec {hash : Bool → Key → BitVec b.bits} {old : Table b V} {L₀ : List Nat} (hold : TableRep hash old L₀) :
    ∀ (fuel : Nat) (rest suf : List Nat) (t : Table b V), L₀ = rest.reverse ++ suf → rest.length ≤ fuel →
      Fills t (suf.map old.entries) → L₀.length < t.alloc →
      let t' := reinsert old.entries old.order fuel rest.head? t
      Fills t' (L₀.map old.entries) ∧ t' = { t with entries := t'.entries, order := t'.order }
  | fuel, [], suf, t, hsplit, _, hF, _ => by
    obtain rfl : L₀ = suf := by simpa using hsplit
    cases fuel <;> exact ⟨hF, rfl⟩
  | 0, _ :: _, _, _, _, hfuel, _, _ => absurd hfuel (by simp)
  | fuel + 1, i :: rest, suf, t, hsplit, hfuel, hF, hlt => by
    rw [List.reverse_cons, List.append_assoc, List.singleton_append] at hsplit
    have hi : i ∈ L₀ := by rw [hsplit]; simp
    have hlen : (suf.map old.entries).length < t.alloc := by
      have := congrArg List.length hsplit
      simp only [List.length_append, List.length_reverse, List.length_cons] at this
      rw [List.length_map]
      omega
    -- the old links lead to the entry before
    have hprev := hold.prev_of hsplit
    obtain ⟨hF', hframe⟩ := hF.reinsert_step hlen (hold.set i hi)
    have hrec := reinsert_spec hold fuel rest (i :: suf) _ hsplit (by simpa using hfuel) hF' (by rw [hframe]; exact hlt)
    dsimp only [List.head?_cons, reinsert]
    rw [hprev]
    refine ⟨hrec.1, hrec.2.trans ?_⟩
    rw [hframe]

/-- **`lws_table_rehash` keeps the live entries and their order**, and leaves room for one more. -/
theorem HoldsBy.rehash {hash : Bool → Key → BitVec b.bits} {t : Table b V} {C : List (Entry b V)} (h : HoldsBy hash t C)
    {t' : Table b V}
    {calloc : Bool} (ht : tableRehash t (t.alloc + 1) calloc = some t') :
    HoldsBy hash t' C ∧ t'.options = t.options ∧ t.load < t'.load := by
  obtain ⟨L, hL, rfl⟩ := h
  unfold tableRehash at ht
  split at ht
  · cases ht
  · rename_i alloc' hsize
    cases calloc with
    | false => simp at ht
    | true =>
      obtain ⟨hmem, hle⟩ := tableSize_mem hsize
      have hload := tableLoad_lt_of_lt hL.size hmem (by omega)
      have hlen := hL.length_lt
      rw [if_neg (by simp)] at ht
      injection ht with ht
      rw [hL.prev_none] at ht
      obtain ⟨hF, hframe⟩ := reinsert_spec hL t.alloc L.reverse [] _ (by simp) (by simpa using hlen.le) (fills_empty t hmem)
        (by dsimp only; omega)
      rw [ht] at hF hframe
      obtain ⟨L', hL', honly', hmap⟩ := hF
      have halloc : t'.alloc = alloc' := by rw [hframe]
      have hload' : t'.load = tableLoad alloc' := by rw [hframe]
      have hcount : t'.count = t.count := by rw [hframe]
      have hci : t'.ci = t.ci := by rw [hframe]
      refine ⟨⟨L', ⟨hL', by rw [hload', halloc], ?_, ?_, honly', ?_, ?_⟩, hmap⟩, by rw [hframe]; rfl, ?_⟩
      · rw [hcount, hL.count_eq]
        simpa using (congrArg List.length hmap).symm
      · rw [hcount, hload']
        have := hL.count_le
        rw [hL.load_eq] at this
        omega
      · rw [hmap, hci]; exact hL.hashed
      · rw [hmap, hci]; exact hL.distinct
      · rw [hL.load_eq, hload']; exact hload

/-! ## A new entry -/

def newEntry (timed : Bool) (e : Entry b V) (key : Key) (value : V) (hash : BitVec b.bits) (now : Int) : Entry b V :=
  { key := key, value := some value, hash := hash, state := .set, time := if timed then now else e.time }

theorem HoldsBy.fill {hash : Bool → Key → BitVec b.bits} {t : Table b V} {C : List (Entry b V)} (h : HoldsBy hash t C)
    (hroom : t.count < t.load) {key : Key}
    (hnew : ∀ e ∈ C, foldKey t.ci e.key ≠ foldKey t.ci key) (value : V) (now : Int) :
    ∃ e, HoldsBy hash (tableFill t key value (hash t.ci key) now)
        (C ++ [newEntry t.timed e key value (hash t.ci key) now]) ∧
      (tableFill t key value (hash t.ci key) now).options = t.options := by
  obtain ⟨L, hL, rfl⟩ := h
  have hlen : L.length < t.alloc := by
    have := tableLoad_lt (Table.alloc_pos hL.size)
    rw [hL.count_eq, hL.load_eq] at hroom
    omega
  obtain ⟨L', hins⟩ := tableInsert_inserted hL.toLayout hL.only (exists_not_set hL.only hlen) (hash t.ci key)
  unfold tableFill
  generalize htab : tableInsert t (hash t.ci key) = r at hins
  obtain ⟨t', slot⟩ := r
  dsimp only at hins ⊢
  have htimed : t'.timed = t.timed := by rw [hins.frame]
  have hci : t'.ci = t.ci := by rw [hins.frame]
  set e := newEntry t.timed (t'.entries slot) key value (hash t.ci key) now with he
  have hwrite : (if t'.timed then
      { ({ t'.entries slot with key := key, value := some value, hash := hash t.ci key, state := .set } : Entry b V)
        with time := now }
      else { t'.entries slot with key := key, value := some value, hash := hash t.ci key, state := .set }) = e := by
    rw [htimed, he, newEntry]
    cases t.timed <;> rfl
  rw [hwrite]
  have hring := hins.layout.ring.insertTail hins.not_mem_ring
  have hring' : IsRing (t'.order.insertTail none (some slot)) none ((L' ++ [slot]).map some) := by
    rw [List.map_append, List.map_singleton]; exact hring
  obtain ⟨hlay, honly⟩ := hins.fill (e := e) rfl rfl hring' (fun i => by simp [or_comm])
  have hmap : (L' ++ [slot]).map (Function.update t'.entries slot e) = L.map t.entries ++ [e] := by
    rw [List.map_append, hins.map_fill, List.map_singleton, Function.update_self]
  have hcount : t'.count = t.count := by rw [hins.frame]
  have hload : t'.load = t.load := by rw [hins.frame]
  have halloc : t'.alloc = t.alloc := by rw [hins.frame]
  refine ⟨t'.entries slot, ⟨L' ++ [slot], ⟨⟨hlay.size, hlay.ring, hlay.set, hlay.reach⟩, ?_, ?_, ?_, honly, ?_, ?_⟩, hmap⟩,
    by rw [hins.frame]; rfl⟩
  · dsimp only; rw [hload, halloc, hL.load_eq]
  · dsimp only
    have := congrArg List.length hmap
    simp only [List.length_map, List.length_append, List.length_singleton] at this ⊢
    rw [hcount, hL.count_eq, this]
  · dsimp only; omega
  · dsimp only
    rw [hmap, hci]
    intro e' he'
    rcases List.mem_append.1 he' with hm | hm
    · exact hL.hashed e' hm
    · rw [List.mem_singleton] at hm
      rw [hm]
      rfl
  · dsimp only
    rw [hmap, hci, List.pairwise_append]
    refine ⟨hL.distinct, List.pairwise_singleton _ _, fun e' he' e'' he'' => ?_⟩
    rw [List.mem_singleton] at he''
    rw [he'']
    exact hnew e' he'

/-! ## Clearing and creation -/

theorem removeAll_spec {hash : Bool → Key → BitVec b.bits} :
    ∀ (fuel : Nat) (t : Table b V) (C : List (Entry b V)), HoldsBy hash t C →
    C.length ≤ fuel → HoldsBy hash (removeAll fuel t) [] ∧ (removeAll fuel t).options = t.options
  | 0, t, C, h, hC => by
    obtain rfl : C = [] := List.length_eq_zero_iff.1 (by omega)
    exact ⟨h, rfl⟩
  | fuel + 1, t, C, h, hC => by
    cases C using List.reverseRecOn with
    | nil =>
      simp only [removeAll]
      rw [h.last_nil]
      exact ⟨h, rfl⟩
    | append_singleton C e =>
      obtain ⟨i, hi, rfl⟩ := h.last_concat
      simp only [removeAll]
      rw [hi]
      have hrm := h.remove
      rw [List.append_nil] at hrm
      exact removeAll_spec fuel (tableRemove t i) C hrm (by simpa using hC)

theorem HoldsBy.zero {hash : Bool → Key → BitVec b.bits} {t : Table b V} (h : HoldsBy hash t []) :
    HoldsBy hash ({ t with entries := fun _ => {} } : Table b V) [] := by
  obtain ⟨L, hL, hC⟩ := h
  obtain rfl := List.map_eq_nil_iff.1 hC
  exact ⟨[], ⟨⟨hL.size, hL.ring, by simp, by simp⟩, hL.load_eq, hL.count_eq, hL.count_le, by simp, by simp, by simp⟩, rfl⟩

theorem HoldsBy.of_empty {hash : Bool → Key → BitVec b.bits} {t t' : Table b V} (h : HoldsBy hash t []) (ha : t'.alloc = t.alloc)
    (hl : t'.load = t.load) (hc : t'.count = t.count) (he : t'.entries = t.entries) (ho : t'.order = t.order) :
    HoldsBy hash t' [] := by
  obtain ⟨L, hL, hC⟩ := h
  obtain rfl := List.map_eq_nil_iff.1 hC
  exact ⟨[], ⟨⟨ha ▸ hL.size, ho ▸ hL.ring, by simp, by simp⟩, by rw [hl, ha, hL.load_eq], hc.trans hL.count_eq,
    by rw [hc, hl]; exact hL.count_le, fun i hi => hL.only i (he ▸ hi), by simp, by simp⟩, rfl⟩

/-- **`lws_table_clear` removes every entry**, and keeps the options and the allocation. -/
theorem HoldsBy.clear {hash : Bool → Key → BitVec b.bits} {t : Table b V} {C : List (Entry b V)} (h : HoldsBy hash t C) :
    HoldsBy hash (tableClear t) [] ∧ (tableClear t).options = t.options := by
  have hlen : C.length ≤ t.alloc := by
    have h1 := h.count_le
    have h2 := h.count
    obtain ⟨L, hL, -⟩ := h
    have := tableLoad_lt (Table.alloc_pos hL.size)
    have := hL.load_eq
    omega
  unfold tableClear
  dsimp only
  split
  · obtain ⟨hH, ho⟩ := removeAll_spec t.alloc t C h hlen
    exact ⟨hH.zero, ho⟩
  · obtain ⟨L, hL, -⟩ := h
    exact ⟨⟨[], ⟨⟨hL.size, Ring.isRing_init _ _, by simp, by simp⟩, hL.load_eq, rfl, Nat.zero_le _, by simp, by simp,
      by simp⟩, rfl⟩, rfl⟩

/-- **A new table is empty** and has no option set. -/
theorem tableCreate_holdsBy (hash : Bool → Key → BitVec b.bits) {load : Nat} {c₁ c₂ : Bool} {t : Table b V}
    (h : tableCreate b V load c₁ c₂ = some t) :
    HoldsBy hash t [] ∧ t.options = ⟨0, 0, false, false, false, false, false⟩ := by
  unfold tableCreate at h
  split at h
  · cases h
  · dsimp only at h
    split at h
    · cases h
    · rename_i alloc hsize
      split at h
      · cases h
      · injection h with h
        subst h
        exact ⟨⟨[], ⟨⟨(tableSize_mem hsize).1, Ring.isRing_init _ _, by simp, by simp⟩, rfl, rfl, Nat.zero_le _, by simp,
          by simp, by simp⟩, rfl⟩, rfl⟩

end Lws

import Lws.TableReach
/-!
# TableCreate — a created table holds its load (`lws_table_create`)

`lws_table_create` adds a seventh and three to the load, so that seven eighths of the size still hold it, and adds nothing where
the load is the largest listed size or more.
-/
namespace Lws

variable {b : Build} {V : Type}

/-! ## The size -/

/-- The size that `lws_table_create` asks `lws_table_size` for, before it is a `size_t`. -/
def createSize (b : Build) (load : Nat) : Nat := load + (if load < lastSize b then load / 7 + 3 else 0)

theorem lastSize_room (b : Build) : lastSize b + lastSize b / 7 + 3 < 2 ^ b.bits := by
  cases b with
  | b64 => decide +kernel
  | b32 => decide +kernel

theorem createSize_lt {load : Nat} (h : load < 2 ^ b.bits) : createSize b load < 2 ^ b.bits := by
  have := lastSize_room b
  unfold createSize
  split
  · omega
  · omega

theorem createSize_below {load : Nat} (h : load < lastSize b) : createSize b load = load + load / 7 + 3 := by
  rw [createSize, if_pos h, Nat.add_assoc]

theorem createSize_last : createSize b (lastSize b) = lastSize b := by
  rw [createSize, if_neg (Nat.lt_irrefl _), Nat.add_zero]

theorem le_createSize (load : Nat) : load ≤ createSize b load := Nat.le_add_right load _

theorem createSize_mono {load load' : Nat} (hle : load ≤ load') (hlt : load' < lastSize b) :
    createSize b load ≤ createSize b load' := by
  rw [createSize_below hlt, createSize_below (Nat.lt_of_le_of_lt hle hlt)]
  omega

/-- **A size that is large enough for a load below the largest size holds it.** -/
theorem le_tableLoad {load s : Nat} (h : load + load / 7 + 3 ≤ s) : load ≤ tableLoad s := by
  rw [tableLoad_eq]
  omega

theorem tableCreate_eq (V : Type) {load : Nat} (h : load < 2 ^ b.bits) :
    (tableCreate b V load true true).map (fun t => (t.alloc, t.load, t.count)) =
      (tableSize b (createSize b load)).map fun alloc => (alloc, tableLoad alloc, 0) := by
  have hsize : (load + if load < b.tableSizes.getLastD 0 then load / 7 + 3 else 0) % 2 ^ b.bits = createSize b load :=
    Nat.mod_eq_of_lt (createSize_lt h)
  simp only [tableCreate, hsize, Bool.not_true, if_neg Bool.false_ne_true]
  cases tableSize b (createSize b load) with
  | none => rfl
  | some s => rfl

theorem tableCreate_some {load : Nat} (h : load < 2 ^ b.bits) {t : Table b V} (ht : tableCreate b V load true true = some t) :
    tableSize b (createSize b load) = some t.alloc ∧ t.load = tableLoad t.alloc ∧ t.count = 0 := by
  have heq := tableCreate_eq V h
  rw [ht, Option.map_some, eq_comm, Option.map_eq_some_iff] at heq
  obtain ⟨s, hs, heq⟩ := heq
  simp only [Prod.mk.injEq] at heq
  obtain ⟨rfl, hload, hcount⟩ := heq
  exact ⟨hs, hload.symm, hcount.symm⟩

theorem tableCreate_isSome (V : Type) {load : Nat} (h : load < 2 ^ b.bits) :
    (tableCreate b V load true true).isSome = true ↔ createSize b load ≤ lastSize b := by
  rw [← tableSize_isSome, ← Option.isSome_map, tableCreate_eq V h, Option.isSome_map]

/-! ## Insertions without a rehash -/

section
variable (hash : Bool → Key → BitVec b.bits)

/-- A `lws_table_set` with a value for a key that is not found. -/
def Table.misses (t : Table b V) : TableOp V → Bool
  | .set key (some _) _ _ => (tableFind t key (hash t.ci key)).isNone
  | _ => false

def Table.rehashes (t : Table b V) (op : TableOp V) : Bool := t.misses hash op && (tableEvict t).count = (tableEvict t).load

def Table.inserts (t : Table b V) : TableOp V → Bool
  | .set key (some value) now mem =>
    t.misses hash (.set key (some value) now mem) && (tableSetBy hash t key (some value) now mem).2 = 0
  | _ => false

def insertions (t : Table b V) : List (TableOp V) → Nat
  | [] => 0
  | op :: ops => (if t.inserts hash op then 1 else 0) + insertions (tableOp hash t op) ops

end

structure Table.Within (t : Table b V) (n : Nat) (t' : Table b V) : Prop where
  load : t'.load = t.load
  count : t'.count ≤ t.count + n

theorem Table.Within.refl (t : Table b V) : t.Within 0 t := ⟨rfl, Nat.le_refl _⟩

theorem Table.Within.trans {t t' t'' : Table b V} {n n' : Nat} (h : t.Within n t') (h' : t'.Within n' t'') :
    t.Within (n + n') t'' :=
  ⟨h'.load.trans h.load, by have := h.count; have := h'.count; omega⟩

theorem tableRemove_within (t : Table b V) (i : Nat) : t.Within 0 (tableRemove t i) := ⟨rfl, Nat.sub_le _ _⟩

theorem tableEvict_within (t : Table b V) : t.Within 0 (tableEvict t) := by
  unfold tableEvict
  split
  · split
    · exact tableRemove_within t _
    · exact .refl t
  · exact .refl t

theorem tableInsert_within (t : Table b V) (hash : BitVec b.bits) : t.Within 0 (tableInsert t hash).1 := by
  unfold tableInsert
  dsimp only
  split
  · exact .refl t
  · split
    · exact ⟨rfl, Nat.le_refl _⟩
    · exact .refl t

theorem tableFill_within (t : Table b V) (key : Key) (value : V) (hash : BitVec b.bits) (now : Int) :
    t.Within 1 (tableFill t key value hash now) := by
  have h := tableInsert_within t hash
  exact ⟨h.load, Nat.succ_le_succ h.count⟩

theorem tableUpdate_within (t : Table b V) (i : Nat) (value : V) (now : Int) : t.Within 0 (tableUpdate t i value now) := by
  unfold tableUpdate
  dsimp only
  split
  · exact ⟨rfl, Nat.le_refl _⟩
  · exact ⟨rfl, Nat.le_refl _⟩

theorem removeAll_within : ∀ (fuel : Nat) (t : Table b V), t.Within 0 (removeAll fuel t)
  | 0, t => .refl t
  | fuel + 1, t => by
    rw [removeAll]
    split
    · exact (tableRemove_within t _).trans (removeAll_within fuel _)
    · exact .refl t

theorem tableClear_within (t : Table b V) : t.Within 0 (tableClear t) := by
  unfold tableClear
  dsimp only
  split
  · exact ⟨(removeAll_within t.alloc t).load, (removeAll_within t.alloc t).count⟩
  · exact ⟨rfl, Nat.zero_le _⟩

theorem setOption_within {t t' : Table b V} (p : Prop) [Decidable p] (h : t.Within 0 t') :
    t.Within 0 (if p then (t, (-1 : Int)) else (t', 0)).1 := by
  split
  · exact .refl t
  · exact h

section
variable {hash : Bool → Key → BitVec b.bits} {t : Table b V}

theorem tableGetBy_within (key : Key) (now : Int) : t.Within 0 (tableGetBy hash t key now).1 := by
  unfold tableGetBy
  cases tableFind t key (hash t.ci key) with
  | none => exact .refl t
  | some i =>
    dsimp only
    split
    · exact .refl t
    · split
      · exact ⟨rfl, Nat.le_refl _⟩
      · exact .refl t

theorem tableSetBy_within (key : Key) (value : Option V) (now : Int) (mem : SetAlloc)
    (h : t.rehashes hash (.set key value now mem) = false) :
    t.Within (if t.inserts hash (.set key value now mem) then 1 else 0) (tableSetBy hash t key value now mem).1 := by
  cases value with
  | none =>
    simp only [Table.inserts, tableSetBy]
    cases tableFind t key (hash t.ci key) with
    | none => exact .refl t
    | some i => exact tableRemove_within t i
  | some value =>
    cases hfind : tableFind t key (hash t.ci key) with
    | some i =>
      simp only [Table.inserts, Table.misses, tableSetBy, hfind, Option.isNone_some, Bool.false_and, if_neg Bool.false_ne_true]
      exact tableUpdate_within t i value now
    | none =>
      have hroom : (tableEvict t).count ≠ (tableEvict t).load := by
        simpa only [Table.rehashes, Table.misses, hfind, Option.isNone_none, Bool.true_and, decide_eq_false_iff_not] using h
      have hevict := tableEvict_within t
      simp only [Table.inserts, Table.misses, tableSetBy, hfind, if_neg hroom, Option.isNone_none, Bool.true_and]
      split
      · exact hevict
      · exact hevict.trans (tableFill_within _ key value _ now)

/-- **A call without a rehash** keeps the load limit, and adds an entry only where it inserts one. -/
theorem tableOp_within (op : TableOp V) (h : t.rehashes hash op = false) :
    t.Within (if t.inserts hash op then 1 else 0) (tableOp hash t op) := by
  cases op with
  | setDup dup => exact setOption_within _ ⟨rfl, Nat.le_refl _⟩
  | setFree free => exact setOption_within _ ⟨rfl, Nat.le_refl _⟩
  | setCi ci => exact setOption_within _ ⟨rfl, Nat.le_refl _⟩
  | setTimeout timeout => exact setOption_within _ ⟨rfl, Nat.le_refl _⟩
  | setCap cap => exact setOption_within _ ⟨rfl, Nat.le_refl _⟩
  | get key now => exact tableGetBy_within key now
  | set key value now mem => exact tableSetBy_within key value now mem h
  | next key => exact .refl t
  | clear => exact tableClear_within t

theorem rehashes_below (h : t.count < t.load) (op : TableOp V) : t.rehashes hash op = false := by
  have hevict := tableEvict_within t
  have hcount := hevict.count
  have hload := hevict.load
  rw [Table.rehashes, decide_eq_false (by omega), Bool.and_false]

/-- **A run does not rehash** before it has inserted as many entries as the table has room for. -/
theorem rehashes_run : ∀ (ops : List (TableOp V)) (t : Table b V), t.count + insertions hash t ops < t.load →
    ∀ op, (ops.foldl (tableOp hash) t).rehashes hash op = false
  | [], _, h => rehashes_below h
  | op :: ops, t, h => by
    rw [insertions] at h
    have hstays : t.rehashes hash op = false := rehashes_below (by omega) op
    have hstep := tableOp_within op hstays
    have hcount := hstep.count
    have hload := hstep.load
    exact rehashes_run ops (tableOp hash t op) (by omega)

end

/-! ## What a created table holds -/

/-- A table holds a load: its load limit is at least that, below its size, and so many insertions do not rehash. -/
structure Table.HoldsLoad (hash : Bool → Key → BitVec b.bits) (t : Table b V) (load : Nat) : Prop where
  le : load ≤ t.load
  lt : t.load < t.alloc
  rehashes : ∀ ops op, insertions hash t ops < load → (ops.foldl (tableOp hash) t).rehashes hash op = false

theorem tableCreate_holdsLoad (hash : Bool → Key → BitVec b.bits) {load : Nat} (h : load < lastSize b) {t : Table b V}
    (ht : tableCreate b V load true true = some t) : t.HoldsLoad hash load := by
  have hbits : load < 2 ^ b.bits := by
    have := lastSize_room b
    omega
  obtain ⟨hsize, hload, hcount⟩ := tableCreate_some hbits ht
  obtain ⟨hmem, hle⟩ := tableSize_mem hsize
  rw [createSize_below h] at hle
  have hholds : load ≤ t.load := hload ▸ le_tableLoad hle
  refine ⟨hholds, hload ▸ tableLoad_lt (Table.alloc_pos hmem), fun ops op hops => rehashes_run ops t ?_ op⟩
  omega

/-- **A created table holds the load it has been created for if and only if that is not the largest listed size.**  The size
computation does not overflow, and `lws_table_size` returns the smallest listed size that is not smaller; a table that is created
holds the load, and any smaller load makes a table too, for all loads but the largest size. -/
theorem create_holds_load_iff (V : Type) (hash : Bool → Key → BitVec b.bits) (load : BitVec b.bits) :
    createSize b load.toNat < 2 ^ b.bits ∧
    (∀ size, match tableSize b size with
      | none => ∀ s ∈ b.tableSizes, s < size
      | some s => s ∈ b.tableSizes ∧ size ≤ s ∧ ∀ s' ∈ b.tableSizes, size ≤ s' → s ≤ s') ∧
    ((∀ t : Table b V, tableCreate b V load.toNat true true = some t → t.HoldsLoad hash load.toNat ∧
        ∀ smaller < load, (tableCreate b V smaller.toNat true true).isSome = true) ↔ load.toNat ≠ lastSize b) := by
  have hbits := load.isLt
  refine ⟨createSize_lt hbits, tableSize_spec b, fun hall hlast => ?_, fun hne t ht => ?_⟩
  · -- nothing is added to the largest size, and seven eighths of it are less
    have hsome : (tableCreate b V load.toNat true true).isSome = true := by
      rw [tableCreate_isSome V hbits, hlast, createSize_last]
    obtain ⟨t, ht⟩ := Option.isSome_iff_exists.1 hsome
    obtain ⟨hsize, hload, -⟩ := tableCreate_some hbits ht
    have halloc := le_lastSize (tableSize_mem hsize).1
    have hlt := tableLoad_lt (Table.alloc_pos (tableSize_mem hsize).1)
    have hle := (hall t ht).1.le
    omega
  · have hcreate : createSize b load.toNat ≤ lastSize b := by
      rw [← tableCreate_isSome V hbits, ht]
      rfl
    have hlt : load.toNat < lastSize b := Nat.lt_of_le_of_ne (Nat.le_trans (le_createSize _) hcreate) hne
    refine ⟨tableCreate_holdsLoad hash hlt ht, fun smaller hsmaller => ?_⟩
    rw [tableCreate_isSome V smaller.isLt]
    exact Nat.le_trans (createSize_mono (Nat.le_of_lt hsmaller) hlt) hcreate

/-- The largest listed size: the table does not hold it, and a load that is smaller by one makes no table. -/
theorem create_loses_load : ∃ t : Table .b64 Nat, tableCreate .b64 Nat 272513087380099 true true = some t ∧
    t.alloc = 272513087380099 ∧ t.load = 238448951457585 ∧ (tableCreate .b64 Nat 272513087380098 true true).isSome = false := by
  have hcreate : (tableCreate .b64 Nat 272513087380099 true true).map (fun t => (t.alloc, t.load)) =
      some (272513087380099, 238448951457585) := by decide +kernel
  obtain ⟨t, ht, hsizes⟩ := Option.map_eq_some_iff.1 hcreate
  obtain ⟨halloc, hload⟩ := Prod.mk.inj hsizes
  exact ⟨t, ht, halloc, hload, by decide +kernel⟩

end Lws

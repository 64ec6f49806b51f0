import Mathlib.Data.List.Dedup
import Lws.TableMap
import Lws.TableReach
import Lws.Ledger
/-!
# TableMemory — the keys and values that a table frees (`lws_table.c`)

An entry is followed with what its pointers point to: the block of its key, and its value.  Both go along when the entry is copied
to another slot.  A ledger says which blocks the table has taken over, which it has freed, and which its live entries point to.
-/
namespace Lws

variable {b : Build} {V : Type}

/-- A block of memory: a value, which the caller allocates; the copy of a key, by its number among the copies that `lws_table_set`
makes; or the key of a caller. -/
inductive Block (V : Type) where
  | value (value : V)
  | copy (n : Nat)
  | caller
deriving DecidableEq

/-- What an entry points to: `key.data` and `value`. -/
structure Slot (V : Type) where
  key : Block V
  value : V
deriving DecidableEq

/-! ## The calls of `ngx_free` -/

def Table.blocks (t : Table b (Slot V)) (slot : Option (Slot V)) : List (Block V) :=
  slot.toList.flatMap fun s => (if t.dup then [s.key] else []) ++ (if t.free then [.value s.value] else [])

def Table.managed (t : Table b (Slot V)) (e : Entry b (Slot V)) : List (Block V) := t.blocks e.value

def removeFrees (t : Table b (Slot V)) (i : Nat) : List (Block V) := t.managed (t.entries i)

def evictFrees (t : Table b (Slot V)) : List (Block V) :=
  if t.capped && t.count = t.cap then
    match t.order.next none with
    | some i => removeFrees t i
    | none => []
  else []

/-- The calls of the removal loop of `lws_table_clear` and `lws_table_free`. -/
def removeAllFrees : Nat → Table b (Slot V) → List (Block V)
  | fuel + 1, t =>
    match t.order.prev none with
    | some i => removeFrees t i ++ removeAllFrees fuel (tableRemove t i)
    | none => []
  | 0, _ => []

/-- The calls of `lws_table_clear`, and of `lws_table_free` for the entries. -/
def clearFrees (t : Table b (Slot V)) : List (Block V) := if t.dup || t.free then removeAllFrees t.alloc t else []

/-- A `lws_table_set`: the table and the result, the calls of `ngx_free`, and whether `ngx_alloc` has made a copy of the key. -/
structure MemorySet (b : Build) (V : Type) where
  table : Table b (Slot V)
  rc : Int
  freed : List (Block V) := []
  copied : Bool := false

section
variable [DecidableEq V] (hash : Bool → Key → BitVec b.bits)

/-- `lws_table_set`, with its calls of `ngx_alloc` and `ngx_free`; the next copy of a key has number `n`. -/
def memorySet (t : Table b (Slot V)) (n : Nat) (key : Key) (value : Option V) (now : Int) (mem : SetAlloc) : MemorySet b V :=
  let hash := hash t.ci key
  match value, tableFind t key hash with
  | some value, some i =>
    let old := (t.entries i).value
    { table := tableUpdate t i ⟨(old.map Slot.key).getD .caller, value⟩ now
      rc := 0
      freed := old.toList.flatMap fun s => if t.free && decide (value ≠ s.value) then [.value s.value] else [] }
  | some value, none =>
    let freed := evictFrees t
    let t := tableEvict t
    match (if t.count = t.load then tableRehash t (t.alloc + 1) mem.rehash else some t) with
    | none => { table := t, rc := -1, freed := freed }
    | some t =>
      if t.dup then
        if !mem.dup then { table := t, rc := -1, freed := freed }
        else { table := tableFill t key ⟨.copy n, value⟩ hash now, rc := 0, freed := freed, copied := true }
      else { table := tableFill t key ⟨.caller, value⟩ hash now, rc := 0, freed := freed }
  | none, some i => { table := tableRemove t i, rc := 0, freed := removeFrees t i }
  | none, none => { table := t, rc := 0 }

/-- A table that calls have been made on: how many copies of keys it has made, what it has freed, and the values of the sets that
have returned 0, the last one first. -/
structure TableMemory (b : Build) (V : Type) where
  table : Table b (Slot V)
  copies : Nat := 0
  freed : List (Block V) := []
  accepted : List V := []

def TableMemory.call (x : TableMemory b V) : TableCall V → TableMemory b V
  | .set key value now mem =>
    let r := memorySet hash x.table x.copies key value now mem
    { table := r.table
      copies := if r.copied then x.copies + 1 else x.copies
      freed := x.freed ++ r.freed
      accepted := if r.rc = 0 then value.toList ++ x.accepted else x.accepted }
  | .get key now => { x with table := (tableGetBy hash x.table key now).1 }
  | .next _ => x
  | .clear => { x with table := tableClear x.table, freed := x.freed ++ clearFrees x.table }

def TableMemory.run (x : TableMemory b V) (calls : List (TableCall V)) : TableMemory b V := calls.foldl (TableMemory.call hash) x

/-- The blocks that the table manages and a get or a next can still return. -/
def TableMemory.held (x : TableMemory b V) : List (Block V) := x.table.items.flatMap fun item => x.table.blocks item.2.1

/-- What has been freed once `lws_table_free` has freed the entries. -/
def TableMemory.freedAtEnd (x : TableMemory b V) : List (Block V) := x.freed ++ clearFrees x.table

def TableMemory.stored (x : TableMemory b V) (key : Key) : Option V :=
  (tableFind x.table key (hash x.table.ci key)).bind fun i => (x.table.entries i).value.map Slot.value

/-- A call hands over its value for the first time, or again what the table holds under the key. -/
def TableMemory.Hands (x : TableMemory b V) : TableCall V → Prop
  | .set key (some value) _ _ => value ∉ x.accepted ∨ x.stored hash key = some value
  | _ => True

def TableMemory.HandedOnce (x : TableMemory b V) : List (TableCall V) → Prop
  | [] => True
  | call :: calls => x.Hands hash call ∧ TableMemory.HandedOnce (x.call hash call) calls

instance TableMemory.decidableHands (x : TableMemory b V) : ∀ call : TableCall V, Decidable (x.Hands hash call)
  | .set key (some value) _ _ => inferInstanceAs (Decidable (value ∉ x.accepted ∨ x.stored hash key = some value))
  | .set _ none _ _ => isTrue trivial
  | .get _ _ => isTrue trivial
  | .next _ => isTrue trivial
  | .clear => isTrue trivial

instance TableMemory.decidableHandedOnce : ∀ (calls : List (TableCall V)) (x : TableMemory b V),
    Decidable (x.HandedOnce hash calls)
  | [], _ => isTrue trivial
  | call :: calls, x =>
    have := TableMemory.decidableHandedOnce calls (x.call hash call)
    inferInstanceAs (Decidable (x.Hands hash call ∧ (x.call hash call).HandedOnce hash calls))

end

/-! ## The keys that are compared -/

/-- The part of the test of `lws_table_find` that comes before the bytes of the keys are compared. -/
def Table.compares (entry : Entry b V) (key : Key) (hash : BitVec b.bits) : Bool :=
  entry.state = .set && entry.hash = hash && entry.key.length = key.length

/-- The slots whose keys the loop of `lws_table_find` compares. -/
def comparedLoop (t : Table b V) (key : Key) (hash : BitVec b.bits) (r q : Nat) : Nat → Nat → List Nat
  | 0, _ => []
  | fuel + 1, h =>
    if (t.entries h).state = .unused then []
    else
      let compared := if Table.compares (t.entries h) key hash then [h] else []
      if t.matches (t.entries h) key hash then compared
      else
        let h := (h + q) % t.alloc
        if h = r then compared else compared ++ comparedLoop t key hash r q fuel h

/-- The slots whose keys `lws_table_find` compares. -/
def tableCompared (t : Table b V) (key : Key) (hash : BitVec b.bits) : List Nat :=
  comparedLoop t key hash (t.start hash) (t.stride hash) t.alloc (t.start hash)

/-! ## What is freed of the live entries -/

variable {hash : Bool → Key → BitVec b.bits} {t : Table b (Slot V)} {C : List (Entry b (Slot V))}

theorem managed_options {t' : Table b (Slot V)} (h : t'.options = t.options) : t'.managed = t.managed := by
  have hfree : t'.free = t.free := congrArg Options.free h
  unfold Table.managed Table.blocks
  rw [options_dup h, hfree]

theorem HoldsBy.evictFrees_append (h : HoldsBy hash t C) :
    evictFrees t ++ (t.evicted C).flatMap t.managed = C.flatMap t.managed := by
  unfold evictFrees Table.evicted
  rw [← h.count]
  split
  · cases C with
    | nil =>
      rw [h.head_nil]
      rfl
    | cons e C =>
      obtain ⟨i, hi, rfl⟩ := h.head_cons
      rw [hi]
      rfl
  · rfl

/-- **The removal loop frees what the live entries point to.** -/
theorem removeAllFrees_perm : ∀ (fuel : Nat) {t : Table b (Slot V)} {C : List (Entry b (Slot V))}, HoldsBy hash t C →
    C.length ≤ fuel → (removeAllFrees fuel t).Perm (C.flatMap t.managed)
  | 0, t, C, _, hC => by
    obtain rfl : C = [] := List.length_eq_zero_iff.1 (by omega)
    exact List.Perm.refl _
  | fuel + 1, t, C, h, hC => by
    cases C using List.reverseRecOn with
    | nil =>
      rw [removeAllFrees, h.last_nil]
      exact List.Perm.refl _
    | append_singleton C e =>
      obtain ⟨i, hi, rfl⟩ := h.last_concat
      have hrm := h.remove
      rw [List.append_nil] at hrm
      have hrest := removeAllFrees_perm fuel hrm (by simpa using hC)
      rw [removeAllFrees, hi, List.flatMap_append, List.flatMap_singleton]
      exact List.perm_append_comm.trans (hrest.append_right _)

theorem HoldsBy.clearFrees_perm (h : HoldsBy hash t C) : (clearFrees t).Perm (C.flatMap t.managed) := by
  have hlen : C.length ≤ t.alloc := by
    have hcount := h.count
    obtain ⟨L, hL, rfl⟩ := h
    rw [List.length_map]
    exact hL.length_lt.le
  unfold clearFrees
  split_ifs with hmanaged
  · exact removeAllFrees_perm t.alloc h hlen
  · rw [Bool.or_eq_true, not_or, Bool.not_eq_true, Bool.not_eq_true] at hmanaged
    have hnone : C.flatMap t.managed = [] := by
      rw [List.flatMap_eq_nil_iff]
      intro e _
      unfold Table.managed Table.blocks
      rw [hmanaged.1, hmanaged.2]
      exact List.flatMap_eq_nil_iff.2 fun _ _ => rfl
    rw [hnone]

/-! ## The ledger -/

/-- What a table has taken over: the copies of keys, and, if it frees values, each value that it has accepted. -/
def ownedBlocks [DecidableEq V] (free : Bool) (copies : Nat) (accepted : List V) : List (Block V) :=
  (List.range copies).map .copy ++ if free then accepted.dedup.map .value else []

/-- **The ledger of a table balances**: `C` are its live entries. -/
structure TableMemory.Keeps [DecidableEq V] (hash : Bool → Key → BitVec b.bits) (x : TableMemory b V)
    (C : List (Entry b (Slot V))) : Prop where
  holds : HoldsBy hash x.table C
  slots : ∀ e ∈ C, ∃ s, e.value = some s ∧ s.value ∈ x.accepted ∧ (x.table.dup = false → s.key = .caller)
  balanced : Ledger.Balanced x.freed (C.flatMap x.table.managed) (ownedBlocks x.table.free x.copies x.accepted)

section
variable [DecidableEq V] {free : Bool} {copies : Nat} {accepted : List V}

theorem copy_mem_owned {n : Nat} : Block.copy n ∈ ownedBlocks free copies accepted ↔ n < copies := by
  unfold ownedBlocks
  rw [List.mem_append, List.mem_map]
  constructor
  · rintro (⟨m, hm, hmn⟩ | hvalue)
    · rw [← Block.copy.inj hmn]
      exact List.mem_range.1 hm
    · split_ifs at hvalue
      · obtain ⟨v, -, hv⟩ := List.mem_map.1 hvalue
        exact nomatch hv
      · exact nomatch hvalue
  · exact fun hn => .inl ⟨n, List.mem_range.2 hn, rfl⟩

theorem value_mem_owned {v : V} : Block.value v ∈ ownedBlocks free copies accepted ↔ free = true ∧ v ∈ accepted := by
  unfold ownedBlocks
  rw [List.mem_append, List.mem_map]
  constructor
  · rintro (⟨m, -, hm⟩ | hvalue)
    · exact nomatch hm
    · split_ifs at hvalue with hfree
      · obtain ⟨w, hw, hwv⟩ := List.mem_map.1 hvalue
        rw [← Block.value.inj hwv]
        exact ⟨hfree, List.mem_dedup.1 hw⟩
      · exact nomatch hvalue
  · rintro ⟨hfree, hv⟩
    rw [if_pos hfree]
    exact .inr (List.mem_map_of_mem (List.mem_dedup.2 hv))

theorem caller_not_mem_owned : Block.caller ∉ ownedBlocks free copies accepted := by
  unfold ownedBlocks
  rw [List.mem_append, List.mem_map]
  rintro (⟨m, -, hm⟩ | hvalue)
  · exact nomatch hm
  · split_ifs at hvalue
    · obtain ⟨w, -, hw⟩ := List.mem_map.1 hvalue
      exact nomatch hw
    · exact nomatch hvalue

theorem owned_copy : (ownedBlocks free (copies + 1) accepted).Perm (.copy copies :: ownedBlocks free copies accepted) := by
  unfold ownedBlocks
  rw [List.range_succ, List.map_append, List.append_assoc]
  exact List.perm_middle

theorem owned_again {v : V} (hv : v ∈ accepted) : ownedBlocks free copies (v :: accepted) = ownedBlocks free copies accepted := by
  rw [ownedBlocks, List.dedup_cons_of_mem hv, ownedBlocks]

theorem owned_value {v : V} (hfree : free = true) (hv : v ∉ accepted) :
    (ownedBlocks free copies (v :: accepted)).Perm (.value v :: ownedBlocks free copies accepted) := by
  unfold ownedBlocks
  rw [if_pos hfree, if_pos hfree, List.dedup_cons_of_notMem hv, List.map_cons]
  exact List.perm_middle

theorem owned_unmanaged (hfree : free = false) (v : V) :
    ownedBlocks free copies (v :: accepted) = ownedBlocks free copies accepted := by
  subst hfree
  rfl

end

/-! ## One call -/

theorem managed_slot (t : Table b (Slot V)) {e : Entry b (Slot V)} {s : Slot V} (h : e.value = some s) :
    t.managed e = (if t.dup then [s.key] else []) ++ (if t.free then [.value s.value] else []) := by
  rw [Table.managed, Table.blocks, h]
  exact List.append_nil _

section
variable [DecidableEq V] {x : TableMemory b V} {key : Key}

theorem TableMemory.Keeps.perm (h : x.Keeps hash C) {t' : Table b (Slot V)} {C' : List (Entry b (Slot V))}
    (hH : HoldsBy hash t' C') (ho : t'.options = x.table.options) (hp : C.Perm C') :
    TableMemory.Keeps hash { x with table := t' } C' where
  holds := hH
  slots e he := by
    dsimp only
    rw [options_dup ho]
    exact h.slots e (hp.mem_iff.2 he)
  balanced := by
    have hfree : t'.free = x.table.free := congrArg Options.free ho
    dsimp only
    rw [managed_options ho, hfree]
    exact h.balanced.held_perm (hp.flatMap_right _)

theorem TableMemory.Keeps.release (h : x.Keeps hash C) {t' : Table b (Slot V)} {C' : List (Entry b (Slot V))}
    {frees : List (Block V)} (hH : HoldsBy hash t' C') (ho : t'.options = x.table.options) (hsub : C' ⊆ C)
    (hfrees : (C.flatMap x.table.managed).Perm (frees ++ C'.flatMap x.table.managed)) :
    TableMemory.Keeps hash { x with table := t', freed := x.freed ++ frees } C' where
  holds := hH
  slots e he := by
    dsimp only
    rw [options_dup ho]
    exact h.slots e (hsub he)
  balanced := by
    have hfree : t'.free = x.table.free := congrArg Options.free ho
    dsimp only
    rw [managed_options ho, hfree]
    exact (h.balanced.held_perm hfrees).release

theorem TableMemory.Keeps.remove {C₁ C₂ : List (Entry b (Slot V))} {i : Nat} (h : x.Keeps hash (C₁ ++ x.table.entries i :: C₂)) :
    TableMemory.Keeps hash { x with table := tableRemove x.table i, freed := x.freed ++ removeFrees x.table i } (C₁ ++ C₂) := by
  have hsub : List.Sublist (C₁ ++ C₂) (C₁ ++ x.table.entries i :: C₂) :=
    List.Sublist.append_left (List.sublist_cons_self _ C₂) C₁
  exact h.release h.holds.remove rfl hsub.subset ((List.perm_middle.flatMap_right _).trans (by rw [List.flatMap_cons]; rfl))

theorem TableMemory.Keeps.evict (h : x.Keeps hash C) :
    TableMemory.Keeps hash { x with table := tableEvict x.table, freed := x.freed ++ evictFrees x.table } (x.table.evicted C) := by
  obtain ⟨hH, ho⟩ := h.holds.evict
  refine h.release hH ho (x.table.evicted_sublist C).subset ?_
  rw [h.holds.evictFrees_append]

theorem TableMemory.Keeps.clear (h : x.Keeps hash C) :
    TableMemory.Keeps hash { x with table := tableClear x.table, freed := x.freed ++ clearFrees x.table } [] := by
  obtain ⟨hH, ho⟩ := h.holds.clear
  refine h.release hH ho (List.nil_subset C) ?_
  rw [List.flatMap_nil, List.append_nil]
  exact h.holds.clearFrees_perm.symm

theorem TableMemory.Keeps.update {C₁ C₂ : List (Entry b (Slot V))} {i : Nat} {s : Slot V} {v : V}
    (h : x.Keeps hash (C₁ ++ x.table.entries i :: C₂)) (hs : (x.table.entries i).value = some s)
    (hnew : v ≠ s.value → v ∉ x.accepted) (now : Int) :
    ∃ C', TableMemory.Keeps hash { x with
      table := tableUpdate x.table i ⟨s.key, v⟩ now
      freed := x.freed ++ (if x.table.free && decide (v ≠ s.value) then [.value s.value] else [])
      accepted := v :: x.accepted } C' := by
  obtain ⟨ho, hH⟩ := h.holds.update ⟨s.key, v⟩ now
  have hfree : (tableUpdate x.table i ⟨s.key, v⟩ now).free = x.table.free := congrArg Options.free ho
  set e := x.table.updated ⟨s.key, v⟩ now (x.table.entries i) with he
  have hperm : (if x.table.capped then C₁ ++ C₂ ++ [e] else C₁ ++ e :: C₂).Perm (e :: (C₁ ++ C₂)) := by
    split_ifs
    · exact List.perm_append_singleton e _
    · exact List.perm_middle
  obtain ⟨s', hs', haccepted, hkey⟩ := h.slots (x.table.entries i) (List.mem_append_right C₁ List.mem_cons_self)
  obtain rfl := Option.some.inj (hs.symm.trans hs')
  refine ⟨_, hH, fun e' he' => ?_, ?_⟩
  · dsimp only
    rw [options_dup ho]
    rcases List.mem_cons.1 (hperm.mem_iff.1 he') with rfl | hmem
    · exact ⟨⟨s.key, v⟩, rfl, List.mem_cons_self, hkey⟩
    · obtain ⟨s', hs', haccepted, hkey⟩ := h.slots e' (by simp only [List.mem_append, List.mem_cons] at hmem ⊢; tauto)
      exact ⟨s', hs', List.mem_cons_of_mem v haccepted, hkey⟩
  · have hold := h.balanced.held_perm (List.perm_middle.flatMap_right x.table.managed)
    have hvalue : e.value = some ⟨s.key, v⟩ := rfl
    dsimp only
    rw [managed_options ho, hfree]
    refine Ledger.Balanced.held_perm ?_ (hperm.symm.flatMap_right _)
    rw [List.flatMap_cons, managed_slot _ hs] at hold
    rw [List.flatMap_cons, managed_slot _ hvalue]
    generalize (if x.table.dup then [s.key] else []) = keys at hold ⊢
    cases hf : x.table.free with
    | false =>
      rw [hf] at hold
      rw [owned_unmanaged rfl, Bool.false_and, if_neg Bool.false_ne_true, if_neg Bool.false_ne_true, List.append_nil]
      exact hold
    | true =>
      rw [hf, if_pos rfl] at hold
      rw [if_pos rfl, Bool.true_and]
      by_cases hv : v = s.value
      · rw [hv, decide_eq_false (not_not.2 rfl), if_neg Bool.false_ne_true, List.append_nil, owned_again haccepted]
        exact hold
      · -- the old value goes, and the new one is taken over
        rw [decide_eq_true hv, if_pos rfl]
        have hmiddle (v : V) (rest : List (Block V)) : (keys ++ [Block.value v] ++ rest).Perm ([Block.value v] ++ (keys ++ rest)) := by
          rw [List.append_assoc]
          exact List.perm_middle
        have hgone := (hold.held_perm (hmiddle s.value _)).release
        have htaken := hgone.take fun hmem => hnew hv (value_mem_owned.1 hmem).2
        exact (htaken.held_perm (hmiddle v _).symm).owned_perm (owned_value rfl (hnew hv)).symm

theorem TableMemory.Keeps.fill (h : x.Keeps hash C) {t' : Table b (Slot V)} {e : Entry b (Slot V)} {v : V}
    (hH : HoldsBy hash t' (C ++ [e])) (ho : t'.options = x.table.options)
    (he : e.value = some ⟨if x.table.dup then .copy x.copies else .caller, v⟩) (hnew : v ∉ x.accepted) :
    TableMemory.Keeps hash { x with
      table := t'
      copies := if x.table.dup then x.copies + 1 else x.copies
      accepted := v :: x.accepted } (C ++ [e]) where
  holds := hH
  slots e' he' := by
    dsimp only
    rw [options_dup ho]
    rcases List.mem_append.1 he' with hmem | hmem
    · obtain ⟨s, hs, haccepted, hkey⟩ := h.slots e' hmem
      exact ⟨s, hs, List.mem_cons_of_mem v haccepted, hkey⟩
    · rw [List.mem_singleton.1 hmem]
      refine ⟨_, he, List.mem_cons_self, fun hdup => ?_⟩
      rw [hdup]
      rfl
  balanced := by
    have hfree : t'.free = x.table.free := congrArg Options.free ho
    have hcopied : Ledger.Balanced x.freed ((if x.table.dup then [.copy x.copies] else []) ++ C.flatMap x.table.managed)
        (ownedBlocks x.table.free (if x.table.dup then x.copies + 1 else x.copies) x.accepted) := by
      cases x.table.dup with
      | false => exact h.balanced
      | true => exact (h.balanced.take fun hmem => Nat.lt_irrefl _ (copy_mem_owned.1 hmem)).owned_perm owned_copy.symm
    have htaken : Ledger.Balanced x.freed ((if x.table.free then [.value v] else []) ++
        ((if x.table.dup then [.copy x.copies] else []) ++ C.flatMap x.table.managed))
        (ownedBlocks x.table.free (if x.table.dup then x.copies + 1 else x.copies) (v :: x.accepted)) := by
      cases hf : x.table.free with
      | false =>
        rw [hf] at hcopied
        rw [owned_unmanaged rfl]
        exact hcopied
      | true =>
        rw [hf] at hcopied
        exact (hcopied.take fun hmem => hnew (value_mem_owned.1 hmem).2).owned_perm (owned_value rfl hnew).symm
    dsimp only
    rw [managed_options ho, hfree, List.flatMap_append, List.flatMap_singleton, managed_slot _ he]
    refine htaken.held_perm ?_
    rw [← List.append_assoc]
    refine (List.perm_append_comm.append_right _).trans (List.perm_append_comm.trans (List.Perm.of_eq ?_))
    cases x.table.dup <;> rfl

theorem memorySet_new (h : HoldsBy hash t C) (hfind : tableFind t key (hash t.ci key) = none) (n : Nat) (v : V) (now : Int)
    (mem : SetAlloc) :
    let slot : Slot V := ⟨if t.dup then .copy n else .caller, v⟩
    memorySet hash t n key (some v) now mem =
      { table := (tableSetBy hash t key (some slot) now mem).1
        rc := (tableSetBy hash t key (some slot) now mem).2
        freed := evictFrees t
        copied := t.dup && decide ((tableSetBy hash t key (some slot) now mem).2 = 0) } := by
  obtain ⟨hev, hopt⟩ := h.evict
  simp only [memorySet, tableSetBy, hfind]
  generalize tableEvict t = t₁ at hev hopt
  rcases hev.grow mem.rehash with ⟨t₂, ht₂, -, ho, -⟩ | ⟨hnone, -⟩
  · have hdup : t₂.dup = t.dup := options_dup (ho.trans hopt)
    simp only [ht₂, hdup]
    cases t.dup <;> cases mem.dup <;> rfl
  · simp only [hnone]
    cases t.dup <;> rfl

/-- **A `lws_table_set` does to the table what it does without its memory**: the slots are set in the place of their values. -/
theorem memorySet_table (h : HoldsBy hash t C) (n : Nat) (key : Key) (value : Option V) (now : Int) (mem : SetAlloc) :
    ∃ slot : Option (Slot V), slot.map Slot.value = value ∧
      ((memorySet hash t n key value now mem).table, (memorySet hash t n key value now mem).rc) =
        tableSetBy hash t key slot now mem := by
  cases hfind : tableFind t key (hash t.ci key) with
  | none =>
    cases value with
    | none => exact ⟨none, rfl, by simp only [memorySet, tableSetBy, hfind]⟩
    | some v => exact ⟨some ⟨if t.dup then .copy n else .caller, v⟩, rfl, by rw [memorySet_new h hfind]⟩
  | some i =>
    cases value with
    | none => exact ⟨none, rfl, by simp only [memorySet, tableSetBy, hfind]⟩
    | some v =>
      exact ⟨some ⟨((t.entries i).value.map Slot.key).getD .caller, v⟩, rfl, by simp only [memorySet, tableSetBy, hfind]⟩

theorem TableMemory.Keeps.set_new (h : x.Keeps hash C) (hh : HashesKeys hash)
    (hfind : tableFind x.table key (hash x.table.ci key) = none) {v : V} (hnew : v ∉ x.accepted) (now : Int) (mem : SetAlloc) :
    ∃ C', (x.call hash (.set key (some v) now mem)).Keeps hash C' := by
  have hset := memorySet_new h.holds hfind x.copies v now mem
  obtain ⟨t', rc, ht', ho, hcase⟩ := h.holds.set_new hfind (h.holds.find_none hh hfind)
    ⟨if x.table.dup then .copy x.copies else .caller, v⟩ now mem
  obtain ⟨-, hopt⟩ := h.holds.evict
  simp only [TableMemory.call]
  dsimp only at hset
  rw [hset, ht']
  rcases hcase with ⟨rfl, e, hH⟩ | ⟨rfl, hH, -⟩
  · have hfill := h.evict.fill hH (ho.trans hopt.symm) (v := v) (by dsimp only; rw [options_dup hopt]; rfl) hnew
    dsimp only at hfill
    rw [options_dup hopt] at hfill
    rw [decide_eq_true rfl, Bool.and_true, if_pos rfl]
    exact ⟨_, hfill⟩
  · have hfailed : ¬(-1 : Int) = 0 := by decide
    rw [decide_eq_false hfailed, Bool.and_false, if_neg Bool.false_ne_true, if_neg hfailed]
    exact ⟨_, h.evict.perm hH (ho.trans hopt.symm) (List.Perm.refl _)⟩

/-- **Every call keeps the ledger**, if it hands over its value for the first time or again. -/
theorem TableMemory.Keeps.call (h : x.Keeps hash C) (hh : HashesKeys hash) {call : TableCall V} (hhands : x.Hands hash call) :
    ∃ C', (x.call hash call).Keeps hash C' := by
  cases call with
  | get key now =>
    obtain ⟨C', hH, ho, hp⟩ := h.holds.get key now
    exact ⟨C', h.perm hH ho hp⟩
  | next key => exact ⟨C, h⟩
  | clear => exact ⟨[], h.clear⟩
  | set key value now mem =>
    cases hfind : tableFind x.table key (hash x.table.ci key) with
    | none =>
      cases value with
      | none =>
        refine ⟨C, ?_⟩
        simp only [TableMemory.call, memorySet, hfind, List.append_nil]
        exact h
      | some v =>
        refine h.set_new hh hfind (hhands.resolve_right ?_) now mem
        rw [TableMemory.stored, hfind]
        exact nofun
    | some i =>
      obtain ⟨C₁, C₂, rfl⟩ := h.holds.find_some hfind
      cases value with
      | none =>
        refine ⟨C₁ ++ C₂, ?_⟩
        simp only [TableMemory.call, memorySet, hfind]
        exact h.remove
      | some v =>
        obtain ⟨s, hs, -⟩ := h.slots (x.table.entries i) (List.mem_append_right C₁ List.mem_cons_self)
        have hnew : v ≠ s.value → v ∉ x.accepted := by
          intro hne
          refine hhands.resolve_right ?_
          rw [TableMemory.stored, hfind, Option.bind_some, hs, Option.map_some, Option.some.injEq]
          exact Ne.symm hne
        obtain ⟨C', hC'⟩ := h.update hs hnew now
        refine ⟨C', ?_⟩
        simp only [TableMemory.call, memorySet, hfind, hs, if_true, Bool.false_eq_true, if_false, Option.toList_some,
          List.flatMap_singleton]
        exact hC'

theorem TableMemory.Keeps.options (h : x.Keeps hash C) (hh : HashesKeys hash) (call : TableCall V) :
    (x.call hash call).table.options = x.table.options := by
  cases call with
  | get key now =>
    obtain ⟨C', -, ho, -⟩ := h.holds.get key now
    exact ho
  | next key => rfl
  | clear => exact h.holds.clear.2
  | set key value now mem =>
    obtain ⟨slot, -, hset⟩ := memorySet_table h.holds x.copies key value now mem
    obtain ⟨C', -, ho, -⟩ := h.holds.set_any hh key slot now mem
    rw [← hset] at ho
    exact ho

theorem TableMemory.Keeps.run (hh : HashesKeys hash) : ∀ (calls : List (TableCall V)) {x : TableMemory b V}
    {C : List (Entry b (Slot V))}, x.Keeps hash C → x.HandedOnce hash calls →
    (∃ C', (x.run hash calls).Keeps hash C') ∧ (x.run hash calls).table.options = x.table.options
  | [], _, C, h, _ => ⟨⟨C, h⟩, rfl⟩
  | call :: calls, _, _, h, hhanded => by
    obtain ⟨C', hC'⟩ := h.call hh hhanded.1
    obtain ⟨hkeeps, ho⟩ := TableMemory.Keeps.run hh calls hC' hhanded.2
    exact ⟨hkeeps, ho.trans (h.options hh call)⟩

theorem handedOnce_append (hash : Bool → Key → BitVec b.bits) : ∀ (before after : List (TableCall V)) {x : TableMemory b V},
    x.HandedOnce hash (before ++ after) → x.HandedOnce hash before ∧ (x.run hash before).HandedOnce hash after
  | [], _, _, h => ⟨trivial, h⟩
  | _ :: before, after, _, h => by
    obtain ⟨hbefore, hafter⟩ := handedOnce_append hash before after h.2
    exact ⟨⟨h.1, hbefore⟩, hafter⟩

end

/-! ## What a find compares -/

section
variable {t : Table b V} {key : Key} {h : BitVec b.bits} {r q : Nat}

theorem matches_compares {e : Entry b V} (hm : t.matches e key h = true) : Table.compares e key h = true :=
  (Bool.and_eq_true_iff.1 hm).1

theorem comparedLoop_set : ∀ {fuel slot i : Nat}, i ∈ comparedLoop t key h r q fuel slot → (t.entries i).state = .set
  | 0, _, _, hi => (nomatch hi)
  | fuel + 1, slot, i, hi => by
    have hslot : i ∈ (if Table.compares (t.entries slot) key h then [slot] else []) → (t.entries i).state = .set := by
      intro hmem
      split_ifs at hmem with hcompares
      · rw [List.mem_singleton.1 hmem]
        simp only [Table.compares, Bool.and_eq_true, decide_eq_true_eq] at hcompares
        exact hcompares.1.1
      · exact nomatch hmem
    rw [comparedLoop] at hi
    dsimp only at hi
    by_cases hunused : (t.entries slot).state = .unused
    · rw [if_pos hunused] at hi
      exact nomatch hi
    · rw [if_neg hunused] at hi
      by_cases hm : t.matches (t.entries slot) key h = true
      · rw [if_pos hm] at hi
        exact hslot hi
      · rw [if_neg hm] at hi
        by_cases hround : (slot + q) % t.alloc = r
        · rw [if_pos hround] at hi
          exact hslot hi
        · rw [if_neg hround] at hi
          exact (List.mem_append.1 hi).elim hslot comparedLoop_set

theorem findLoop_compared : ∀ {fuel slot i : Nat}, findLoop t key h r q fuel slot = some i → i ∈ comparedLoop t key h r q fuel slot
  | 0, _, _, hi => (nomatch hi)
  | fuel + 1, slot, i, hi => by
    rw [findLoop] at hi
    rw [comparedLoop]
    dsimp only at hi ⊢
    by_cases hunused : (t.entries slot).state = .unused
    · rw [if_pos hunused] at hi
      exact nomatch hi
    · rw [if_neg hunused] at hi ⊢
      by_cases hm : t.matches (t.entries slot) key h = true
      · rw [if_pos hm, Option.some.injEq] at hi
        rw [if_pos hm, matches_compares hm, if_pos rfl]
        exact List.mem_singleton.2 hi.symm
      · rw [if_neg hm] at hi ⊢
        by_cases hround : (slot + q) % t.alloc = r
        · rw [if_pos hround] at hi
          exact nomatch hi
        · rw [if_neg hround] at hi ⊢
          exact List.mem_append_right _ (findLoop_compared hi)

end

/-! ## What a get and a next return -/

theorem tableGet_slot {seed : BitVec b.bits} {t : Table b V} {key : Key} {now : Int} {v : V}
    (hv : (tableGet seed t key now).2 = some v) :
    ∃ i ∈ tableCompared t key (tableHash seed t.ci key), (t.entries i).value = some v := by
  unfold tableGet at hv
  cases hfind : tableFind t key (tableHash seed t.ci key) with
  | none =>
    rw [hfind] at hv
    exact nomatch hv
  | some i =>
    rw [hfind] at hv
    dsimp only at hv
    refine ⟨i, findLoop_compared hfind, ?_⟩
    split_ifs at hv
    · exact hv
    · exact hv

section
variable {t : Table b V} {C : List (Entry b V)}

theorem HoldsBy.mem_of_set (h : HoldsBy hash t C) {i : Nat} (hi : (t.entries i).state = .set) : t.entries i ∈ C := by
  obtain ⟨L, hL, rfl⟩ := h
  exact List.mem_map_of_mem (hL.only i hi)

theorem HoldsBy.next_set (h : HoldsBy hash t C) {q : Option Nat} (hq : ∀ j ∈ q, (t.entries j).state = .set) {i : Nat}
    (hi : t.order.next q = some i) : (t.entries i).state = .set := by
  cases q with
  | none =>
    cases C with
    | nil => exact nomatch hi.symm.trans h.head_nil
    | cons e C =>
      obtain ⟨j, hj, he⟩ := h.head_cons
      obtain rfl := Option.some.inj (hi.symm.trans hj)
      exact h.set _ (he ▸ List.mem_cons_self)
  | some j =>
    obtain ⟨C₁, C₂, rfl⟩ := List.append_of_mem (h.mem_of_set (hq j rfl))
    have hnext := h.next_of
    rw [hi, Option.map_some] at hnext
    exact h.set _ (List.mem_append_right C₁ (List.mem_cons_of_mem _ (List.mem_of_mem_head? hnext.symm)))

theorem tableNext_slot {seed : BitVec b.bits} (h : HoldsBy (tableHash seed) t C) {key : Option Key} {k : Key} {v : Option V}
    (hnext : tableNext seed t key = some (k, v)) :
    ∃ i, (t.entries i).state = .set ∧ (t.entries i).key = k ∧ (t.entries i).value = v := by
  -- the slot that comes next, and what is returned of it
  obtain ⟨q, hq, i, hi, hreturn⟩ : ∃ q, (∀ j ∈ q, (t.entries j).state = .set) ∧ ∃ i, t.order.next q = some i ∧
      some ((t.entries i).key, (t.entries i).value) = some (k, v) := by
    unfold tableNext at hnext
    cases key with
    | none =>
      dsimp only at hnext
      cases hi : t.order.next none with
      | none =>
        rw [hi] at hnext
        cases hnext
      | some i =>
        rw [hi] at hnext
        exact ⟨none, fun j hj => absurd hj (Option.not_mem_none j), i, hi, hnext⟩
    | some key =>
      dsimp only at hnext
      cases hfind : tableFind t key (tableHash seed t.ci key) with
      | none =>
        rw [hfind] at hnext
        cases hnext
      | some j =>
        rw [hfind, Option.map_some] at hnext
        cases hi : t.order.next (some j) with
        | none =>
          rw [hi] at hnext
          cases hnext
        | some i =>
          rw [hi] at hnext
          refine ⟨some j, ?_, i, hi, hnext⟩
          rintro _ ⟨⟩
          exact comparedLoop_set (findLoop_compared hfind)
  obtain ⟨hk, hv⟩ := Prod.mk.inj (Option.some.inj hreturn)
  exact ⟨i, h.next_set hq hi, hk, hv⟩

end

/-! ## Every run -/

section
variable [DecidableEq V]

def TableMemory.Unfreed (x : TableMemory b V) (s : Slot V) : Prop := s.key ∉ x.freed ∧ Block.value s.value ∉ x.freed

/-- Nothing is freed that a get or a next returns, and a find compares only keys that have not been freed, in slots that are set. -/
structure TableMemory.Safe (seed : BitVec b.bits) (x : TableMemory b V) : Prop where
  get : ∀ key now s, (tableGet seed x.table key now).2 = some s → x.Unfreed s
  next : ∀ key k slot, tableNext seed x.table key = some (k, slot) → ∃ s, slot = some s ∧ x.Unfreed s
  find : ∀ key, ∀ i ∈ tableCompared x.table key (tableHash seed x.table.ci key),
    (x.table.entries i).state = .set ∧ ∃ s, (x.table.entries i).value = some s ∧ x.Unfreed s

/-- A call frees what it makes unreachable, and no value that it fails to set. -/
structure TableMemory.Frees (seed : BitVec b.bits) (x : TableMemory b V) (call : TableCall V) : Prop where
  ends : ∃ frees, (x.call (tableHash seed) call).freed = x.freed ++ frees ∧
    ∀ block ∈ x.held, block ∉ (x.call (tableHash seed) call).held → block ∈ frees
  fails : ∀ key v now mem, call = .set key (some v) now mem →
    (memorySet (tableHash seed) x.table x.copies key (some v) now mem).rc = -1 →
    Block.value v ∉ (x.call (tableHash seed) call).freed

variable {x : TableMemory b V} {seed : BitVec b.bits} {C : List (Entry b (Slot V))}

theorem TableMemory.Keeps.held (h : x.Keeps hash C) : x.held = C.flatMap x.table.managed := by
  unfold TableMemory.held
  rw [h.holds.items, List.flatMap_map]
  rfl

theorem TableMemory.Keeps.unfreed (h : x.Keeps hash C) {i : Nat} (hi : (x.table.entries i).state = .set) :
    ∃ s, (x.table.entries i).value = some s ∧ x.Unfreed s := by
  obtain ⟨s, hs, haccepted, hkey⟩ := h.slots _ (h.holds.mem_of_set hi)
  have hheld {block : Block V} (hb : block ∈ x.table.managed (x.table.entries i)) : block ∉ x.freed :=
    h.balanced.not_freed (List.mem_flatMap.2 ⟨_, h.holds.mem_of_set hi, hb⟩)
  rw [managed_slot _ hs] at hheld
  refine ⟨s, hs, ?_, ?_⟩
  · cases hdup : x.table.dup with
    | true => exact hheld (List.mem_append_left _ (by rw [hdup]; exact List.mem_singleton_self _))
    | false =>
      rw [hkey hdup]
      exact fun hfreed => caller_not_mem_owned (h.balanced.owned_of_freed hfreed)
  · cases hfree : x.table.free with
    | true => exact hheld (List.mem_append_right _ (by rw [hfree]; exact List.mem_singleton_self _))
    | false =>
      intro hfreed
      have howned := (value_mem_owned.1 (h.balanced.owned_of_freed hfreed)).1
      exact nomatch hfree.symm.trans howned

theorem TableMemory.Keeps.safe (h : x.Keeps (tableHash seed) C) : x.Safe seed where
  get key now s hs := by
    obtain ⟨i, hi, hv⟩ := tableGet_slot hs
    obtain ⟨s', hs', hunfreed⟩ := h.unfreed (comparedLoop_set hi)
    obtain rfl := Option.some.inj (hv.symm.trans hs')
    exact hunfreed
  next key k slot hnext := by
    obtain ⟨i, hset, -, hv⟩ := tableNext_slot h.holds hnext
    obtain ⟨s, hs, hunfreed⟩ := h.unfreed hset
    exact ⟨s, hv.symm.trans hs, hunfreed⟩
  find key i hi := ⟨comparedLoop_set hi, h.unfreed (comparedLoop_set hi)⟩

theorem call_grows (hash : Bool → Key → BitVec b.bits) (x : TableMemory b V) (call : TableCall V) :
    (∃ frees, (x.call hash call).freed = x.freed ++ frees) ∧ x.copies ≤ (x.call hash call).copies ∧
      x.accepted ⊆ (x.call hash call).accepted := by
  cases call with
  | get key now => exact ⟨⟨[], (List.append_nil _).symm⟩, Nat.le_refl _, List.Subset.refl _⟩
  | next key => exact ⟨⟨[], (List.append_nil _).symm⟩, Nat.le_refl _, List.Subset.refl _⟩
  | clear => exact ⟨⟨_, rfl⟩, Nat.le_refl _, List.Subset.refl _⟩
  | set key value now mem =>
    refine ⟨⟨_, rfl⟩, ?_, ?_⟩
    · simp only [TableMemory.call]
      split_ifs
      · exact Nat.le_succ _
      · exact Nat.le_refl _
    · simp only [TableMemory.call]
      split_ifs
      · exact List.subset_append_right _ _
      · exact List.Subset.refl _

theorem owned_subset {free : Bool} {copies copies' : Nat} {accepted accepted' : List V} (hcopies : copies ≤ copies')
    (haccepted : accepted ⊆ accepted') : ownedBlocks free copies accepted ⊆ ownedBlocks free copies' accepted' := by
  intro block hblock
  cases block with
  | value v =>
    obtain ⟨hfree, hv⟩ := value_mem_owned.1 hblock
    exact value_mem_owned.2 ⟨hfree, haccepted hv⟩
  | copy n => exact copy_mem_owned.2 (Nat.lt_of_lt_of_le (copy_mem_owned.1 hblock) hcopies)
  | caller => exact absurd hblock caller_not_mem_owned

theorem TableMemory.Keeps.frees (h : x.Keeps (tableHash seed) C) {call : TableCall V} (hhands : x.Hands (tableHash seed) call) :
    x.Frees seed call := by
  have hh := tableHash_hashesKeys seed
  obtain ⟨C', h'⟩ := h.call hh hhands
  have hfree : (x.call (tableHash seed) call).table.free = x.table.free := congrArg Options.free (h.options hh call)
  obtain ⟨⟨frees, hfrees⟩, hcopies, haccepted⟩ := call_grows (tableHash seed) x call
  constructor
  · refine ⟨frees, hfrees, fun block hheld hgone => ?_⟩
    have hbalanced := h'.balanced
    rw [hfrees, hfree] at hbalanced
    rw [h.held] at hheld
    rw [h'.held] at hgone
    exact h.balanced.freed_between hbalanced (owned_subset hcopies haccepted) hheld hgone
  · rintro key v now mem rfl hrc hfreed
    have hfailed : ¬(-1 : Int) = 0 := by decide
    have hnew : v ∉ x.accepted := by
      refine hhands.resolve_right fun hstored => ?_
      obtain ⟨i, hi, -⟩ := Option.bind_eq_some_iff.1 hstored
      simp only [memorySet, hi] at hrc
      exact hfailed hrc.symm
    have hsame : (x.call (tableHash seed) (.set key (some v) now mem)).accepted = x.accepted := by
      simp only [TableMemory.call]
      rw [hrc, if_neg hfailed]
    have howned := (value_mem_owned.1 (h'.balanced.owned_of_freed hfreed)).2
    rw [hsame] at howned
    exact hnew howned

/-- **A table frees each copy of a key, and each value that it accepts, exactly once**: for any calls on an empty table, with any keys
and any outcomes of the allocations, that hand over each value once.  Nothing is freed that a get or a next still returns, a find
compares no key of a slot that is not set, what a call makes unreachable is freed by that call, and a value that could not be set is
not freed. -/
theorem table_frees_once (seed : BitVec b.bits) {t : Table b (Slot V)} (ht : Table.Reached (tableHash seed) t)
    (hempty : t.count = 0) (calls : List (TableCall V))
    (hhanded : TableMemory.HandedOnce (tableHash seed) { table := t } calls) :
    let run := TableMemory.run (tableHash seed) { table := t }
    let x := run calls
    (∀ n, x.freedAtEnd.count (.copy n) = if n < x.copies then 1 else 0) ∧
    (∀ v, x.freedAtEnd.count (.value v) = if t.free = true ∧ v ∈ x.accepted then 1 else 0) ∧
    x.freedAtEnd.count .caller = 0 ∧
    (∀ before after, calls = before ++ after → (run before).Safe seed) ∧
    ∀ before call after, calls = before ++ call :: after → (run before).Frees seed call := by
  intro run x
  have hh := tableHash_hashesKeys seed
  obtain ⟨⟨C, hC⟩, -⟩ := ht.holds hh
  obtain rfl : C = [] := List.length_eq_zero_iff.1 (hC.count ▸ hempty)
  have hstart : TableMemory.Keeps (tableHash seed) ({ table := t } : TableMemory b V) [] := by
    refine ⟨hC, nofun, ?_⟩
    cases t.free <;> exact Ledger.balanced_nil
  have hrun (before after : List (TableCall V)) (hcalls : calls = before ++ after) :
      (∃ C', (run before).Keeps (tableHash seed) C') ∧ (run before).HandedOnce (tableHash seed) after := by
    obtain ⟨hbefore, hafter⟩ := handedOnce_append (tableHash seed) before after (hcalls ▸ hhanded)
    exact ⟨(hstart.run hh before hbefore).1, hafter⟩
  obtain ⟨⟨C', hx⟩, ho⟩ := hstart.run hh calls hhanded
  have hfree : (tableClear x.table).free = t.free := congrArg Options.free (hx.holds.clear.2.trans ho)
  have hcount (block : Block V) :
      x.freedAtEnd.count block = if block ∈ ownedBlocks t.free x.copies x.accepted then 1 else 0 := by
    rw [← hfree]
    exact hx.clear.balanced.count_freed block
  refine ⟨fun n => ?_, fun v => ?_, ?_, fun before after hcalls => ?_, fun before call after hcalls => ?_⟩
  · rw [hcount]
    exact if_congr copy_mem_owned rfl rfl
  · rw [hcount]
    exact if_congr value_mem_owned rfl rfl
  · rw [hcount]
    exact if_neg caller_not_mem_owned
  · obtain ⟨⟨C', hC'⟩, -⟩ := hrun before after hcalls
    exact hC'.safe
  · obtain ⟨⟨C', hC'⟩, hhands⟩ := hrun before (call :: after) hcalls
    exact hC'.frees hhands.1

/-- A capped table that replaces, evicts, fails to copy a key, removes, and is freed with an entry in it. -/
theorem table_frees_once_capped : ∃ t : Table .b64 (Slot Nat), Table.Reached (tableHash 7) t ∧ t.dup = true ∧ t.free = true ∧
    let calls : List (TableCall Nat) := [.set [65] (some 1) 0 {}, .set [65] (some 1) 0 {}, .set [65] (some 2) 0 {},
      .set [66] (some 3) 0 {}, .set [67] (some 4) 0 { dup := false }, .get [66] 0, .set [66] none 0 {}, .set [68] (some 5) 0 {}]
    let x := TableMemory.run (tableHash 7) { table := t } calls
    x.freedAtEnd.count (.copy 2) = 1 ∧ x.freedAtEnd.count (.value 1) = 1 ∧ x.freedAtEnd.count (.value 4) = 0 ∧
      x.freedAtEnd.count (.value 5) = 1 := by
  let ops : List (TableOp (Slot Nat)) := [.setDup true, .setFree true, .setCap 2]
  let calls : List (TableCall Nat) := [.set [65] (some 1) 0 {}, .set [65] (some 1) 0 {}, .set [65] (some 2) 0 {},
    .set [66] (some 3) 0 {}, .set [67] (some 4) 0 { dup := false }, .get [66] 0, .set [66] none 0 {}, .set [68] (some 5) 0 {}]
  have hrun : (tableCreate .b64 (Slot Nat) 1 true true).map (fun t =>
      let t := ops.foldl (tableOp (tableHash (b := .b64) 7)) t
      let x := TableMemory.run (tableHash (b := .b64) 7) { table := t } calls
      decide ((t.dup = true ∧ t.free = true ∧ t.count = 0) ∧
        TableMemory.HandedOnce (tableHash (b := .b64) 7) { table := t } calls ∧ x.copies = 3 ∧ x.accepted = [5, 3, 2, 1, 1])) =
      some true := by decide +kernel
  obtain ⟨t, ht, hrun⟩ := Option.map_eq_some_iff.1 hrun
  obtain ⟨⟨hdup, hfree, hempty⟩, hhanded, hcopies, haccepted⟩ := of_decide_eq_true hrun
  obtain ⟨hkeys, hvalues, -⟩ := table_frees_once 7 ((Table.Reached.create ht).run ops) hempty calls hhanded
  refine ⟨_, (Table.Reached.create ht).run ops, hdup, hfree, ?_, ?_, ?_, ?_⟩
  · rw [hkeys, hcopies]
    rfl
  · rw [hvalues, hfree, haccepted]
    rfl
  · rw [hvalues, hfree, haccepted]
    rfl
  · rw [hvalues, hfree, haccepted]
    rfl

end

end Lws

import Lws.TableGrow
/-!
# TableCalls — the calls of the table for any hash function

`lws_table_get`, `lws_table_set` and `lws_table_next` with the hash function as an argument, and what they do to the live
entries whatever the keys, the options and the outcomes of the allocations.
-/
namespace Lws

variable {b : Build} {V : Type}

section
variable (hash : Bool → Key → BitVec b.bits)

def tableGetBy (t : Table b V) (key : Key) (now : Int) : Table b V × Option V :=
  match tableFind t key (hash t.ci key) with
  | none => (t, none)
  | some i =>
    if t.timed && decide (b.timeT ((t.entries i).time + t.timeout) ≤ now) then (t, none)
    else
      let t := if t.capped then { t with order := (t.order.remove (some i)).insertTail none (some i) } else t
      (t, (t.entries i).value)

def tableSetBy (t : Table b V) (key : Key) (value : Option V) (now : Int) (mem : SetAlloc) : Table b V × Int :=
  let hash := hash t.ci key
  match value, tableFind t key hash with
  | some value, some i => (tableUpdate t i value now, 0)
  | some value, none =>
    let t := tableEvict t
    match (if t.count = t.load then tableRehash t (t.alloc + 1) mem.rehash else some t) with
    | none => (t, -1)
    | some t => if t.dup && !mem.dup then (t, -1) else (tableFill t key value hash now, 0)
  | none, some i => (tableRemove t i, 0)
  | none, none => (t, 0)

end

theorem tableGet_eq (seed : BitVec b.bits) (t : Table b V) (key : Key) (now : Int) :
    tableGet seed t key now = tableGetBy (tableHash seed) t key now := rfl

theorem tableSet_eq (seed : BitVec b.bits) (t : Table b V) (key : Key) (value : Option V) (now : Int) (mem : SetAlloc) :
    tableSet seed t key value now mem = tableSetBy (tableHash seed) t key value now mem := rfl

variable {hash : Bool → Key → BitVec b.bits} {t : Table b V} {C : List (Entry b V)} {key : Key}

/-! ## Room for a new entry -/

def maxLoad (b : Build) : Nat := tableLoad (b.tableSizes.getLastD 0)

theorem tableSize_succ {a : Nat} (h : tableLoad a < maxLoad b) : ∃ s, tableSize b (a + 1) = some s := by
  have hlt : a < lastSize b := by
    by_contra hge
    exact absurd (tableLoad_mono (Nat.not_lt.1 hge)) (Nat.not_le.2 h)
  exact Option.isSome_iff_exists.1 (tableSize_isSome.2 hlt)

theorem HoldsBy.rehash_some (h : HoldsBy hash t C) (hfit : t.load < maxLoad b) :
    ∃ t', tableRehash t (t.alloc + 1) true = some t' := by
  obtain ⟨L, hL, -⟩ := h
  obtain ⟨s, hs⟩ := tableSize_succ (by rwa [← hL.load_eq])
  unfold tableRehash
  rw [hs]
  exact ⟨_, rfl⟩

theorem HoldsBy.grow (h : HoldsBy hash t C) (calloc : Bool) :
    (∃ t', (if t.count = t.load then tableRehash t (t.alloc + 1) calloc else some t) = some t' ∧
      HoldsBy hash t' C ∧ t'.options = t.options ∧ t'.count < t'.load) ∨
    ((if t.count = t.load then tableRehash t (t.alloc + 1) calloc else some t) = none ∧ t.count = t.load ∧
      (calloc = false ∨ maxLoad b ≤ C.length)) := by
  have hle := h.count_le
  have hcount := h.count
  by_cases hfull : t.count = t.load
  · rw [if_pos hfull]
    cases hre : tableRehash t (t.alloc + 1) calloc with
    | none =>
      refine .inr ⟨rfl, hfull, ?_⟩
      by_contra hno
      push Not at hno
      obtain ⟨t', ht'⟩ := h.rehash_some (by omega)
      rw [show calloc = true by simpa using hno.1, ht'] at hre
      cases hre
    | some t' =>
      obtain ⟨hH, ho, hl⟩ := h.rehash hre
      have := hH.count
      exact .inl ⟨t', rfl, hH, ho, by omega⟩
  · rw [if_neg hfull]
    exact .inl ⟨t, rfl, h, rfl, by omega⟩

/-! ## `lws_table_get` -/

/-- **A get keeps the invariant** and the entries; it may move one of them to the tail. -/
theorem HoldsBy.get (h : HoldsBy hash t C) (key : Key) (now : Int) :
    ∃ C', HoldsBy hash (tableGetBy hash t key now).1 C' ∧ (tableGetBy hash t key now).1.options = t.options ∧ C.Perm C' := by
  unfold tableGetBy
  cases hfind : tableFind t key (hash t.ci key) with
  | none => exact ⟨C, h, rfl, List.Perm.refl C⟩
  | some i =>
    obtain ⟨C₁, C₂, rfl⟩ := h.find_some hfind
    dsimp only
    split
    · exact ⟨_, h, rfl, List.Perm.refl _⟩
    · split
      · refine ⟨_, h.touch, rfl, ?_⟩
        rw [List.append_assoc]
        exact (List.perm_append_singleton (t.entries i) C₂).symm.append_left C₁
      · exact ⟨_, h, rfl, List.Perm.refl _⟩

theorem HoldsBy.get_value (h : HoldsBy hash t C) {now : Int} {v : V} (hv : (tableGetBy hash t key now).2 = some v) :
    ∃ e ∈ C, e.value = some v := by
  unfold tableGetBy at hv
  cases hfind : tableFind t key (hash t.ci key) with
  | none =>
    rw [hfind] at hv
    exact nomatch hv
  | some i =>
    obtain ⟨C₁, C₂, rfl⟩ := h.find_some hfind
    rw [hfind] at hv
    dsimp only at hv
    refine ⟨_, List.mem_append_right _ List.mem_cons_self, ?_⟩
    split_ifs at hv
    · exact hv
    · exact hv

/-! ## `lws_table_set` -/

def Table.updated (t : Table b V) (value : V) (now : Int) (e : Entry b V) : Entry b V :=
  { e with value := some value, time := if t.timed then now else e.time }

/-- **An update** rewrites the entry, and makes it the most recent one of a capped table. -/
theorem HoldsBy.update {C₁ C₂ : List (Entry b V)} {i : Nat} (h : HoldsBy hash t (C₁ ++ t.entries i :: C₂)) (value : V)
    (now : Int) : (tableUpdate t i value now).options = t.options ∧ HoldsBy hash (tableUpdate t i value now)
      (if t.capped then C₁ ++ C₂ ++ [t.updated value now (t.entries i)]
        else C₁ ++ t.updated value now (t.entries i) :: C₂) := by
  have hset : (t.entries i).state = .set := h.set _ (by simp)
  have hwrite : (if t.timed then { ({ t.entries i with value := some value } : Entry b V) with time := now }
      else { t.entries i with value := some value }) = t.updated value now (t.entries i) := by
    simp only [Table.updated]
    cases t.timed <;> rfl
  unfold tableUpdate
  by_cases hc : t.capped = true
  · rw [if_pos hc, if_pos hc]
    have hput : HoldsBy hash ((t.touch i).put i (t.updated value now (t.entries i)))
        (C₁ ++ C₂ ++ t.updated value now (t.entries i) :: []) := h.touch.put hset rfl rfl
    refine ⟨rfl, ?_⟩
    rw [← hwrite] at hput ⊢
    exact hput
  · rw [if_neg hc, if_neg hc]
    refine ⟨rfl, ?_⟩
    have hput := h.put (e := t.updated value now (t.entries i)) hset rfl rfl
    rw [← hwrite] at hput ⊢
    exact hput

/-- **A set of a new key** evicts the head of a full table and appends the new entry, or fails for want of memory. -/
theorem HoldsBy.set_new (h : HoldsBy hash t C) (hfind : tableFind t key (hash t.ci key) = none)
    (hk : ∀ e ∈ C, foldKey t.ci e.key ≠ foldKey t.ci key) (value : V) (now : Int) (mem : SetAlloc) :
    ∃ t' rc, tableSetBy hash t key (some value) now mem = (t', rc) ∧ t'.options = t.options ∧
      ((rc = 0 ∧ ∃ e, HoldsBy hash t' (t.evicted C ++ [newEntry t.timed e key value (hash t.ci key) now])) ∨
       (rc = -1 ∧ HoldsBy hash t' (t.evicted C) ∧
         ((tableEvict t).count = (tableEvict t).load ∧ (mem.rehash = false ∨ maxLoad b ≤ (t.evicted C).length) ∨
           t.dup = true ∧ mem.dup = false))) := by
  obtain ⟨hev, hopt⟩ := h.evict
  simp only [tableSetBy, hfind]
  generalize tableEvict t = t₁ at hev hopt
  have hci := options_ci hopt
  rcases hev.grow mem.rehash with ⟨t₂, ht₂, hH, ho, hroom⟩ | ⟨hnone, hwhy⟩
  · replace ho := ho.trans hopt
    rw [ht₂]
    dsimp only
    by_cases hdup : (t₂.dup && !mem.dup) = true
    · rw [if_pos hdup]
      obtain ⟨hd, hm⟩ := Bool.and_eq_true_iff.1 hdup
      exact ⟨t₂, -1, rfl, ho, .inr ⟨rfl, hH, .inr ⟨options_dup ho ▸ hd, by simpa using hm⟩⟩⟩
    · rw [if_neg hdup]
      have hnew : ∀ e ∈ t.evicted C, foldKey t₂.ci e.key ≠ foldKey t₂.ci key := fun e he => by
        rw [options_ci ho]; exact hk e ((t.evicted_sublist C).subset he)
      obtain ⟨e, hF, hFo⟩ := hH.fill hroom hnew value now
      rw [options_ci ho, options_timed ho] at hF
      rw [options_ci ho] at hFo
      exact ⟨_, 0, rfl, hFo.trans ho, .inl ⟨rfl, e, hF⟩⟩
  · rw [hnone]
    exact ⟨t₁, -1, rfl, hopt, .inr ⟨rfl, hev, .inl hwhy⟩⟩

/-- What a `lws_table_set` makes of the live entries `C`, and its result: it changes or removes the entry that it finds, and where
it finds none it appends a new one or fails, unless there is no value. -/
inductive Table.SetsTo (hash : Bool → Key → BitVec b.bits) (t : Table b V) (C : List (Entry b V)) (key : Key) (now : Int) :
    Option V → Int → List (Entry b V) → Prop
  | update {i : Nat} {C₁ C₂ : List (Entry b V)} (value : V) (hfind : tableFind t key (hash t.ci key) = some i)
      (hC : C = C₁ ++ t.entries i :: C₂) : SetsTo hash t C key now (some value) 0
        (if t.capped then C₁ ++ C₂ ++ [t.updated value now (t.entries i)] else C₁ ++ t.updated value now (t.entries i) :: C₂)
  | remove {i : Nat} {C₁ C₂ : List (Entry b V)} (hfind : tableFind t key (hash t.ci key) = some i)
      (hC : C = C₁ ++ t.entries i :: C₂) : SetsTo hash t C key now none 0 (C₁ ++ C₂)
  | miss (hfind : tableFind t key (hash t.ci key) = none) : SetsTo hash t C key now none 0 C
  | insert (e : Entry b V) (value : V) (hfind : tableFind t key (hash t.ci key) = none) : SetsTo hash t C key now (some value) 0
        (t.evicted C ++ [newEntry t.timed e key value (hash t.ci key) now])
  | fail (value : V) (hfind : tableFind t key (hash t.ci key) = none) :
      SetsTo hash t C key now (some value) (-1) (t.evicted C)

/-- **A set keeps the invariant**, whatever its value and whether it fails. -/
theorem HoldsBy.set_any (hh : HashesKeys hash) (h : HoldsBy hash t C) (key : Key) (value : Option V) (now : Int) (mem : SetAlloc) :
    ∃ C', HoldsBy hash (tableSetBy hash t key value now mem).1 C' ∧
      (tableSetBy hash t key value now mem).1.options = t.options ∧
      t.SetsTo hash C key now value (tableSetBy hash t key value now mem).2 C' := by
  cases hfind : tableFind t key (hash t.ci key) with
  | some i =>
    obtain ⟨C₁, C₂, hC⟩ := h.find_some hfind
    subst hC
    cases value with
    | some value =>
      simp only [tableSetBy, hfind]
      exact ⟨_, (h.update value now).2, (h.update value now).1, .update value hfind rfl⟩
    | none =>
      simp only [tableSetBy, hfind]
      exact ⟨_, h.remove, rfl, .remove hfind rfl⟩
  | none =>
    cases value with
    | some value =>
      obtain ⟨t', rc, hset, ho, hcase⟩ := h.set_new hfind (h.find_none hh hfind) value now mem
      rw [hset]
      rcases hcase with ⟨rfl, e, hF⟩ | ⟨rfl, hF, -⟩
      · exact ⟨_, hF, ho, .insert e value hfind⟩
      · exact ⟨_, hF, ho, .fail value hfind⟩
    | none =>
      simp only [tableSetBy, hfind]
      exact ⟨C, h, trivial, .miss hfind⟩

end Lws

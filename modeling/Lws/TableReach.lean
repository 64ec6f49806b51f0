import Lws.TableCalls
/-!
# TableReach — the tables that calls can reach (`lws_table.c`)

The representation invariant over any sequence of calls, with any hash function, any keys and any outcome of the allocations,
and what a `lws_table_set` that fails leaves behind.
-/
namespace Lws

open Ring (IsRing)

variable {b : Build} {V : Type}

/-- A call on a table, or a change of its options; `lws_table_next` changes nothing. -/
inductive TableOp (V : Type) where
  | setDup (dup : Bool)
  | setFree (free : Bool)
  | setCi (ci : Bool)
  | setTimeout (timeout : Int)
  | setCap (cap : Nat)
  | get (key : Key) (now : Int)
  | set (key : Key) (value : Option V) (now : Int) (mem : SetAlloc)
  | next (key : Option Key)
  | clear

section
variable (hash : Bool → Key → BitVec b.bits)

def tableOp (t : Table b V) : TableOp V → Table b V
  | .setDup dup => (tableSetDup t dup).1
  | .setFree free => (tableSetFree t free).1
  | .setCi ci => (tableSetCi t ci).1
  | .setTimeout timeout => (tableSetTimeout t timeout).1
  | .setCap cap => (tableSetCap t cap).1
  | .get key now => (tableGetBy hash t key now).1
  | .set key value now mem => (tableSetBy hash t key value now mem).1
  | .next _ => t
  | .clear => tableClear t

/-- A table that calls have reached from `lws_table_create`. -/
inductive Table.Reached : Table b V → Prop
  | create {load : Nat} {t : Table b V} (h : tableCreate b V load true true = some t) : Reached t
  | call {t : Table b V} (h : Reached t) (op : TableOp V) : Reached (tableOp hash t op)

end

variable {hash : Bool → Key → BitVec b.bits} {t : Table b V} {C : List (Entry b V)}

/-! ## The invariant -/

def Table.CapPos (t : Table b V) : Prop := t.capped = true → 0 < t.cap

theorem Table.CapPos.of_options {t' : Table b V} (h : t.CapPos) (ho : t'.options = t.options) : t'.CapPos := by
  intro hc
  rw [options_cap ho]
  exact h (options_capped ho ▸ hc)

inductive Table.LeadsTo (hash : Bool → Key → BitVec b.bits) (t : Table b V) (C : List (Entry b V)) : Bool → List (Entry b V) → Prop
  | perm {C' : List (Entry b V)} (h : C.Perm C') : LeadsTo hash t C t.ci C'
  | set {key : Key} {now : Int} {value : Option V} {rc : Int} {C' : List (Entry b V)} (h : t.SetsTo hash C key now value rc C') :
      LeadsTo hash t C t.ci C'
  | empty (ci : Bool) : LeadsTo hash t C ci []

theorem HoldsBy.setOption (h : HoldsBy hash t C) (t' : Table b V) (ha : t'.alloc = t.alloc) (hl : t'.load = t.load)
    (hc : t'.count = t.count) (he : t'.entries = t.entries) (ho : t'.order = t.order) :
    let r := (if t.count ≠ 0 then (t, (-1 : Int)) else (t', 0)).1
    ∃ C', HoldsBy hash r C' ∧ t.LeadsTo hash C r.ci C' := by
  dsimp only
  split
  · exact ⟨C, h, .perm (List.Perm.refl C)⟩
  · rename_i hz
    obtain rfl : C = [] := List.length_eq_zero_iff.1 (h.count ▸ not_not.1 hz)
    exact ⟨[], h.of_empty ha hl hc he ho, .empty _⟩

theorem HoldsBy.op (hh : HashesKeys hash) (h : HoldsBy hash t C) (hcap : t.CapPos) (op : TableOp V) :
    (∃ C', HoldsBy hash (tableOp hash t op) C' ∧ t.LeadsTo hash C (tableOp hash t op).ci C') ∧ (tableOp hash t op).CapPos := by
  cases op with
  | setDup dup => exact ⟨h.setOption _ rfl rfl rfl rfl rfl, by simp only [tableOp, tableSetDup]; split <;> exact hcap⟩
  | setFree free => exact ⟨h.setOption _ rfl rfl rfl rfl rfl, by simp only [tableOp, tableSetFree]; split <;> exact hcap⟩
  | setCi ci => exact ⟨h.setOption _ rfl rfl rfl rfl rfl, by simp only [tableOp, tableSetCi]; split <;> exact hcap⟩
  | setTimeout timeout =>
    exact ⟨h.setOption _ rfl rfl rfl rfl rfl, by simp only [tableOp, tableSetTimeout]; split <;> exact hcap⟩
  | setCap cap =>
    simp only [tableOp, tableSetCap]
    split
    · exact ⟨⟨C, h, .perm (List.Perm.refl C)⟩, hcap⟩
    · rename_i hz
      push Not at hz
      obtain rfl : C = [] := List.length_eq_zero_iff.1 (h.count ▸ hz.1)
      exact ⟨⟨[], h.of_empty rfl rfl rfl rfl rfl, .empty _⟩, fun _ => hz.2⟩
  | get key now =>
    obtain ⟨C', hC, ho, hperm⟩ := h.get key now
    exact ⟨⟨C', hC, options_ci ho ▸ .perm hperm⟩, hcap.of_options ho⟩
  | set key value now mem =>
    obtain ⟨C', hC, ho, hset⟩ := h.set_any hh key value now mem
    exact ⟨⟨C', hC, options_ci ho ▸ .set hset⟩, hcap.of_options ho⟩
  | next key => exact ⟨⟨C, h, .perm (List.Perm.refl C)⟩, hcap⟩
  | clear => exact ⟨⟨[], h.clear.1, .empty _⟩, hcap.of_options h.clear.2⟩

/-- **What every call keeps of the live entries holds on every table that calls reach.** -/
theorem Table.Reached.keeps (hh : HashesKeys hash) {P : Bool → List (Entry b V) → Prop} (hempty : ∀ ci, P ci [])
    (hstep : ∀ {t : Table b V} {C : List (Entry b V)} {ci : Bool} {C' : List (Entry b V)}, HoldsBy hash t C →
      t.LeadsTo hash C ci C' → P t.ci C → P ci C') (h : Table.Reached hash t) :
    (∃ C, HoldsBy hash t C ∧ P t.ci C) ∧ t.CapPos := by
  induction h with
  | create h =>
    obtain ⟨hC, ho⟩ := tableCreate_holdsBy hash h
    exact ⟨⟨[], hC, hempty _⟩, fun hc => (nomatch (congrArg Options.capped ho).symm.trans hc)⟩
  | call _ op ih =>
    obtain ⟨⟨C, hC, hP⟩, hcap⟩ := ih
    obtain ⟨⟨C', hC', hleads⟩, hcap'⟩ := hC.op hh hcap op
    exact ⟨⟨C', hC', hstep hC hleads hP⟩, hcap'⟩

theorem Table.Reached.holds (hh : HashesKeys hash) (h : Table.Reached hash t) : (∃ C, HoldsBy hash t C) ∧ t.CapPos := by
  obtain ⟨⟨C, hC, -⟩, hcap⟩ := h.keeps hh (P := fun _ _ => True) (fun _ => trivial) fun _ _ _ => trivial
  exact ⟨⟨C, hC⟩, hcap⟩

/-- **A table is well formed**: `L` are the slots in use, in the order of the order list. -/
structure Table.WellFormed (t : Table b V) (L : List Nat) : Prop where
  set : ∀ i, (t.entries i).state = .set ↔ i ∈ L
  lt : ∀ i ∈ L, i < t.alloc
  probed : ∀ i ∈ L, ∃ k < t.alloc,
    ((t.entries i).hash.toNat % t.alloc + k * ((t.entries i).hash.toNat % (t.alloc - 2) + 1)) % t.alloc = i ∧
    ∀ j < k, (t.entries (((t.entries i).hash.toNat % t.alloc + j * ((t.entries i).hash.toNat % (t.alloc - 2) + 1))
      % t.alloc)).state ≠ .unused
  keys : ∀ i ∈ L, ∀ j ∈ L, foldKey t.ci (t.entries i).key = foldKey t.ci (t.entries j).key → i = j
  order : IsRing t.order none (L.map some)
  nodup : L.Nodup
  count : t.count = L.length
  count_le : t.count ≤ t.load
  load_lt : t.load < t.alloc

theorem TableRep.wellFormed {L : List Nat} (h : TableRep hash t L) : t.WellFormed L where
  set i := ⟨h.only i, h.set i⟩
  lt _ hi := h.lt hi
  probed := h.reach
  keys i hi j hj hk := by
    by_contra hne
    obtain ⟨L₁, L₂, rfl⟩ := List.append_of_mem hi
    have hd := h.distinct
    rw [List.map_append, List.map_cons, List.pairwise_append, List.pairwise_cons] at hd
    rcases List.mem_append.1 hj with hm | hm
    · exact hd.2.2 _ (List.mem_map_of_mem hm) _ List.mem_cons_self hk.symm
    · rcases List.mem_cons.1 hm with rfl | hm
      · exact hne rfl
      · exact hd.2.1.1 _ (List.mem_map_of_mem hm) hk
  order := h.ring
  nodup := h.nodup
  count := h.count_eq
  count_le := h.count_le
  load_lt := by rw [h.load_eq]; exact tableLoad_lt (Table.alloc_pos h.size)

/-- **Every table that calls reach is well formed**, for any hash function that agrees on equal keys: each slot in use lies on
the probe sequence of its hash with no unused slot before it, no two have equal keys, the order list runs through each once,
and the counters are right. -/
theorem reached_is_well_formed (hh : HashesKeys hash) (h : Table.Reached hash t) :
    ∃ L, t.WellFormed L ∧ ∀ i ∈ L, (t.entries i).hash = hash t.ci (t.entries i).key := by
  obtain ⟨⟨C, L, hL, -⟩, -⟩ := h.holds hh
  exact ⟨L, hL.wellFormed, fun i hi => hL.hashed _ (List.mem_map_of_mem hi)⟩

theorem Table.Reached.run : ∀ (ops : List (TableOp V)) {t : Table b V}, Table.Reached hash t →
    Table.Reached hash (ops.foldl (tableOp hash) t)
  | [], _, h => h
  | op :: ops, _, h => Table.Reached.run ops (h.call op)

/-- Four keys with one hash, one of which is removed, in a table that is rehashed on the way. -/
theorem reached_is_well_formed_colliding : ∃ t : Table .b64 Nat, Table.Reached (b := .b64) (fun _ _ => 5) t ∧ t.count = 3 ∧
    ∃ L, t.WellFormed L ∧ ∀ i ∈ L, (t.entries i).hash = 5 := by
  let ops : List (TableOp Nat) := [.set [65] (some 1) 0 {}, .set [66] (some 2) 0 {}, .set [67] (some 3) 0 {},
    .set [68] (some 4) 0 {}, .set [66] none 0 {}]
  have hcount : (tableCreate .b64 Nat 1 true true).map (fun t => (ops.foldl (tableOp (b := .b64) (fun _ _ => 5)) t).count) =
      some 3 := by decide +kernel
  obtain ⟨t, ht, hcount⟩ := Option.map_eq_some_iff.1 hcount
  have hr : Table.Reached (b := .b64) (fun _ _ => 5) (ops.foldl (tableOp (fun _ _ => 5)) t) := (Table.Reached.create (b := .b64) ht).run ops
  exact ⟨_, hr, hcount, reached_is_well_formed (fun _ _ _ _ => rfl) hr⟩

/-! ## A set that fails -/

/-- The keys, values and times from slot `q` on, along the order list. -/
def itemsLoop (t : Table b V) : Nat → Option Nat → List (Key × Option V × Int)
  | fuel + 1, some i => ((t.entries i).key, (t.entries i).value, (t.entries i).time) :: itemsLoop t fuel (t.order.next (some i))
  | _, _ => []

/-- The live keys, with their values and times, in the order of an iteration. -/
def Table.items (t : Table b V) : List (Key × Option V × Int) := itemsLoop t t.alloc (t.order.next none)

def tableRemoveFrees (t : Table b V) (i : Nat) : Option V := if t.free then (t.entries i).value else none

/-- The value that `lws_table_set` frees: the old one of an update, unless it is the new one, the one of an entry evicted, or
the one of an entry removed. -/
def tableSetFrees [DecidableEq V] (hash : Bool → Key → BitVec b.bits) (t : Table b V) (key : Key) (value : Option V) : Option V :=
  match value, tableFind t key (hash t.ci key) with
  | some value, some i => if t.free && decide (some value ≠ (t.entries i).value) then (t.entries i).value else none
  | some _, none =>
    if t.capped && t.count = t.cap then
      match t.order.next none with
      | some i => tableRemoveFrees t i
      | none => none
    else none
  | none, some i => tableRemoveFrees t i
  | none, none => none

theorem itemsLoop_eq {L₂ : List Nat} : ∀ (fuel : Nat) (L₁ : List Nat), L₂.length ≤ fuel → TableRep hash t (L₁ ++ L₂) →
    itemsLoop t fuel (L₂.head?) = (L₂.map t.entries).map (fun e => (e.key, e.value, e.time))
  | fuel, L₁, hfuel, h => by
    induction L₂ generalizing fuel L₁ with
    | nil => cases fuel <;> rfl
    | cons i L₂ ih =>
      cases fuel with
      | zero => cases hfuel
      | succ fuel =>
        have hring := h.ring
        rw [List.map_append, List.map_cons] at hring
        have hnext : t.order.next (some i) = L₂.head? := by
          have := hring.split.2.2.2.1
          cases L₂ with
          | nil => simpa using this.symm
          | cons j L₂ => simpa using this.symm
        have hrec := ih fuel (L₁ ++ [i]) (by simpa using hfuel) (by rwa [List.append_assoc, List.singleton_append])
        rw [List.head?_cons, itemsLoop, hnext, hrec]
        rfl

theorem HoldsBy.items (h : HoldsBy hash t C) : t.items = C.map (fun e => (e.key, e.value, e.time)) := by
  have hcount := h.count
  have hle := h.count_le
  obtain ⟨L, hL, rfl⟩ := h
  have hlt := tableLoad_lt (Table.alloc_pos hL.size)
  rw [← hL.load_eq] at hlt
  have hfirst : t.order.next none = L.head? := by
    have := hL.ring.next_first
    cases L with
    | nil => simpa using this.symm
    | cons i L => simpa using this.symm
  rw [Table.items, hfirst]
  exact itemsLoop_eq t.alloc [] (by rw [List.length_map] at hcount; omega) hL

def Table.Evicts (hash : Bool → Key → BitVec b.bits) (t : Table b V) (key : Key) : Prop :=
  t.capped = true ∧ t.count = t.cap ∧ tableFind t key (hash t.ci key) = none

theorem HoldsBy.evicts_room (h : HoldsBy hash t C) (hcap : t.CapPos) {key : Key} (he : t.Evicts hash key) :
    (tableEvict t).count + 1 = t.count ∧ (tableEvict t).count ≠ (tableEvict t).load := by
  obtain ⟨hc, hcount, -⟩ := he
  have hpos := hcap hc
  have hle := h.count_le
  unfold tableEvict
  rw [if_pos (by simp [hc, hcount])]
  cases hnext : t.order.next none with
  | some i =>
    simp only [tableRemove]
    omega
  | none =>
    cases C with
    | nil =>
      have := h.count
      simp only [List.length_nil] at this
      omega
    | cons e C =>
      obtain ⟨i, hi, -⟩ := h.head_cons
      rw [hnext] at hi
      cases hi

theorem HoldsBy.set_evicts (h : HoldsBy hash t C) (hcap : t.CapPos) {key : Key} (he : t.Evicts hash key) (value : V) (now : Int)
    (mem : SetAlloc) : tableSetBy hash t key (some value) now mem =
      if t.dup && !mem.dup then (tableEvict t, -1) else (tableFill (tableEvict t) key value (hash t.ci key) now, 0) := by
  obtain ⟨-, hroom⟩ := h.evicts_room hcap he
  simp only [tableSetBy, he.2.2]
  rw [if_neg hroom]
  dsimp only
  rw [options_dup h.evict.2]

/-- **A set that fails changes nothing, unless it has evicted an entry**: for every table that calls reach, every key, every
value and every outcome of the allocations, a set that fails keeps the keys, values, times, order and count and frees no value,
if and only if it does not evict an entry and then fail to copy its key. -/
theorem failed_set_changes_nothing_iff [DecidableEq V] (hh : HashesKeys hash) (h : Table.Reached hash t) (key : Key) (value : V)
    (now : Int) (mem : SetAlloc) :
    let t' := (tableSetBy hash t key (some value) now mem).1
    ((tableSetBy hash t key (some value) now mem).2 = -1 →
      t'.items = t.items ∧ t'.count = t.count ∧ tableSetFrees hash t key (some value) = none) ↔
    ¬ (t.Evicts hash key ∧ t.dup = true ∧ mem.dup = false) := by
  obtain ⟨⟨C, hC⟩, hcap⟩ := h.holds hh
  dsimp only
  by_cases he : t.Evicts hash key
  · -- the head is gone, so the set must not fail
    have hcount := (hC.evicts_room hcap he).1
    rw [hC.set_evicts hcap he]
    constructor
    · rintro hsame ⟨-, hdup, hmem⟩
      rw [if_pos (by simp [hdup, hmem])] at hsame
      have := (hsame rfl).2.1
      dsimp only at this
      omega
    · intro hno hrc
      rw [if_neg fun hd => hno ⟨he, by simpa using hd⟩] at hrc
      cases hrc
  · refine ⟨fun _ hb => he hb.1, fun _ hrc => ?_⟩
    cases hfind : tableFind t key (hash t.ci key) with
    | some i =>
      simp only [tableSetBy, hfind] at hrc
      cases hrc
    | none =>
      have hno : ¬ (t.capped && decide (t.count = t.cap)) = true := fun hb => he ⟨by simp_all, by simp_all, hfind⟩
      have hkeep : t.evicted C = C := by rw [Table.evicted, ← hC.count, if_neg hno]
      obtain ⟨t', rc, hset, -, hcase⟩ := hC.set_new hfind (hC.find_none hh hfind) value now mem
      rw [hset] at hrc ⊢
      rcases hcase with ⟨rfl, -⟩ | ⟨-, hF, -⟩
      · cases hrc
      · rw [hkeep] at hF
        refine ⟨by rw [hF.items, hC.items], by rw [hF.count, hC.count], ?_⟩
        simp only [tableSetFrees, hfind]
        rw [if_neg hno]

/-- A set that cannot grow a full table leaves it as it is. -/
theorem failed_set_changes_nothing_iff_rehash : ∃ t : Table .b64 Nat, Table.Reached (tableHash 7) t ∧
    (tableSetBy (tableHash (b := .b64) 7) t [66] (some 2) 0 { rehash := false }).2 = -1 ∧
    (tableSetBy (tableHash (b := .b64) 7) t [66] (some 2) 0 { rehash := false }).1.items = t.items := by
  let ops : List (TableOp Nat) := [.setDup true, .setFree true, .set [65] (some 1) 0 {}, .set [67] (some 3) 0 {},
    .set [68] (some 4) 0 {}]
  have hrun : (tableCreate .b64 Nat 1 true true).map (fun t =>
      let t := ops.foldl (tableOp (tableHash (b := .b64) 7)) t
      (t.capped, (tableSetBy (tableHash (b := .b64) 7) t [66] (some 2) 0 { rehash := false }).2)) = some (false, -1) := by
    decide +kernel
  obtain ⟨t, ht, hrun⟩ := Option.map_eq_some_iff.1 hrun
  obtain ⟨hcapped, hrc⟩ := Prod.mk.inj hrun
  have hr : Table.Reached (tableHash (b := .b64) 7) (ops.foldl (tableOp (tableHash 7)) t) := (Table.Reached.create ht).run ops
  have hkeeps := (failed_set_changes_nothing_iff (tableHash_hashesKeys 7) hr [66] 2 0 { rehash := false }).2
    fun he => (nomatch hcapped.symm.trans he.1.1)
  exact ⟨_, hr, hrc, (hkeeps hrc).1⟩

/-- A full capped table evicts and frees its entry for a key that it then cannot copy. -/
theorem failed_set_evicts : ∃ t : Table .b64 Nat, Table.Reached (tableHash 7) t ∧
    (tableSetBy (tableHash (b := .b64) 7) t [66] (some 2) 0 { dup := false }).2 = -1 ∧
    t.items = [([65], some 1, 0)] ∧
    (tableSetBy (tableHash (b := .b64) 7) t [66] (some 2) 0 { dup := false }).1.items = [] ∧
    tableSetFrees (tableHash (b := .b64) 7) t [66] (some 2) = some 1 := by
  let ops : List (TableOp Nat) := [.setDup true, .setFree true, .setCap 1, .set [65] (some 1) 0 {}]
  have hrun : (tableCreate .b64 Nat 1 true true).map (fun t =>
      let t := ops.foldl (tableOp (tableHash (b := .b64) 7)) t
      let r := tableSetBy (tableHash (b := .b64) 7) t [66] (some 2) 0 { dup := false }
      decide (r.2 = -1 ∧ t.items = [([65], some 1, 0)] ∧ r.1.items = [] ∧
        tableSetFrees (tableHash (b := .b64) 7) t [66] (some 2) = some 1)) = some true := by decide +kernel
  obtain ⟨t, ht, hrun⟩ := Option.map_eq_some_iff.1 hrun
  exact ⟨_, (Table.Reached.create ht).run ops, of_decide_eq_true hrun⟩

end Lws

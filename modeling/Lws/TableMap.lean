import Lws.TableOps
/-!
# TableMap — the table is an insertion-ordered map

An untimed, uncapped table answers every sequence of calls as `OrdMap` does, over byte strings or, with `ci`, over byte
strings in lower case.  `Refines` is the relation between the two; each call keeps it (`Refines.call`), so each run does.
-/
namespace Lws

variable {b : Build} {V : Type}

inductive TableCall (V : Type) where
  | set (key : Key) (value : Option V) (now : Int) (mem : SetAlloc)
  | get (key : Key) (now : Int)
  | next (key : Option Key)
  | clear

/-- What a call returns; a `none` entry is the `-1` of `lws_table_next`. -/
inductive TableAnswer (V : Type) where
  | status (rc : Int)
  | value (value : Option V)
  | entry (next : Option (Key × Option V))
  | done
deriving DecidableEq

def tableCall (seed : BitVec b.bits) (t : Table b V) : TableCall V → Table b V × TableAnswer V
  | .set key value now mem => ((tableSet seed t key value now mem).1, .status (tableSet seed t key value now mem).2)
  | .get key now => ((tableGet seed t key now).1, .value (tableGet seed t key now).2)
  | .next key => (t, .entry (tableNext seed t key))
  | .clear => (tableClear t, .done)

def tableRun (seed : BitVec b.bits) (t : Table b V) : List (TableCall V) → Table b V × List (TableAnswer V)
  | [] => (t, [])
  | c :: calls =>
    let r := tableRun seed (tableCall seed t c).1 calls
    (r.1, (tableCall seed t c).2 :: r.2)

/-- `lws_table_next` from NULL, with each key fed back, until it returns `-1`. -/
def tableWalk (seed : BitVec b.bits) (t : Table b V) : Nat → Option Key → Option (List (Key × Option V))
  | 0, _ => none
  | fuel + 1, key =>
    match tableNext seed t key with
    | none => some []
    | some (key, value) => (tableWalk seed t fuel (some key)).map ((key, value) :: ·)

def tableConfigure (t : Table b V) (dup free ci : Bool) : Table b V :=
  (tableSetCi (tableSetFree (tableSetDup t dup).1 free).1 ci).1

/-! ## The reference -/

def mapCall (ci : Bool) (m : List (Key × V)) : TableCall V → List (Key × V) × TableAnswer V
  | .set key (some value) _ _ => (OrdMap.put (foldKey ci) m key value, .status 0)
  | .set key none _ _ => (OrdMap.del (foldKey ci) m key, .status 0)
  | .get key _ => (m, .value (OrdMap.get (foldKey ci) m key))
  | .next key => (m, .entry ((OrdMap.next (foldKey ci) m key).map (fun p => (p.1, some p.2))))
  | .clear => ([], .done)

def mapRun (ci : Bool) (m : List (Key × V)) : List (TableCall V) → List (Key × V) × List (TableAnswer V)
  | [] => (m, [])
  | c :: calls =>
    let r := mapRun ci (mapCall ci m c).1 calls
    (r.1, (mapCall ci m c).2 :: r.2)

def TableCall.change : TableCall V → Option (OrdMap.Change Key V)
  | .set key (some value) _ _ => some (.put key value)
  | .set key none _ _ => some (.del key)
  | .clear => some .clear
  | _ => none

def TableCall.Terminated : TableCall V → Prop
  | .set key _ _ _ => Lws.Terminated key
  | _ => True

def TableCall.Allocates : TableCall V → Prop
  | .set _ _ _ mem => mem = ⟨true, true⟩
  | _ => True

theorem mapRun_changes (ci : Bool) : ∀ (calls : List (TableCall V)) (m : List (Key × V)),
    (mapRun ci m calls).1 = (calls.filterMap TableCall.change).foldl (OrdMap.change (foldKey ci)) m
  | [], _ => rfl
  | c :: calls, m => by
    rw [mapRun, mapRun_changes ci calls, List.filterMap_cons]
    cases c with
    | set key value now mem => cases value <;> rfl
    | get key now => rfl
    | next key => rfl
    | clear => rfl

theorem mapRun_length (ci : Bool) : ∀ (calls : List (TableCall V)) (m : List (Key × V)),
    (mapRun ci m calls).1.length ≤ m.length + calls.length
  | [], _ => le_refl _
  | c :: calls, m => by
    have hrec := mapRun_length ci calls (mapCall ci m c).1
    have hone : (mapCall ci m c).1.length ≤ m.length + 1 := by
      cases c with
      | set key value now mem =>
        cases value with
        | some value =>
          simp only [mapCall, OrdMap.put]
          split
          · simp [Keyed.replace]
          · simp
        | none => exact (List.length_filter_le _ _).trans (Nat.le_succ _)
      | get key now => exact Nat.le_succ _
      | next key => exact Nat.le_succ _
      | clear => exact Nat.zero_le _
    rw [mapRun, List.length_cons]
    dsimp only
    omega

/-! ## The relation -/

/-- The keys and values of the live entries are those of the map, in order. -/
abbrev Pairs (C : List (Entry b V)) (m : List (Key × V)) : Prop :=
  Keyed.Agree (fun e : Entry b V => (e.key, e.value)) (fun p => (p.1, some p.2)) C m

/-- **A table refines a map**: its live entries are the map's pairs, in order. -/
structure Refines (seed : BitVec b.bits) (t : Table b V) (m : List (Key × V)) : Prop where
  holds : ∃ C, Holds seed t C ∧ Pairs C m
  untimed : t.timed = false
  uncapped : t.capped = false

section
variable {seed : BitVec b.bits} {t t' : Table b V} {m m' : List (Key × V)}

theorem Refines.distinct (h : Refines seed t m) : Keyed.Distinct (OrdMap.ident (foldKey t.ci)) m := by
  obtain ⟨C, hC, hm⟩ := h.holds
  exact Keyed.Agree.distinct (i := fun p : Key × Option V => foldKey t.ci p.1) hm hC.distinct

theorem Refines.terminated (h : Refines seed t m) : ∀ p ∈ m, Terminated p.1 := by
  obtain ⟨C, hC, hm⟩ := h.holds
  intro p hp
  have hmem : (p.1, some p.2) ∈ C.map fun e => (e.key, e.value) := by
    rw [show C.map _ = _ from hm]
    exact List.mem_map_of_mem hp
  obtain ⟨e, he, hep⟩ := List.mem_map.1 hmem
  rw [← congrArg Prod.fst hep]
  exact ((holds_iff.1 hC).2 e he).1

theorem Refines.of_options (h : Refines seed t m) (ho : t'.options = t.options) {C : List (Entry b V)}
    (hC : Holds seed t' C) (hm : Pairs C m') : Refines seed t' m' :=
  ⟨⟨C, hC, hm⟩, (options_timed ho).trans h.untimed, (options_capped ho).trans h.uncapped⟩

theorem Refines.cases (h : Refines seed t m) (key : Key) :
    (∃ C₁ e C₂ m₁ v m₂, Holds seed t (C₁ ++ e :: C₂) ∧ foldKey t.ci e.key = foldKey t.ci key ∧
      m = m₁ ++ (e.key, v) :: m₂ ∧ e.value = some v ∧ Pairs C₁ m₁ ∧ Pairs C₂ m₂) ∨
    (∃ C, Holds seed t C ∧ Pairs C m ∧ (∀ e ∈ C, foldKey t.ci e.key ≠ foldKey t.ci key) ∧
      ∀ p ∈ m, OrdMap.ident (foldKey t.ci) p ≠ foldKey t.ci key) := by
  obtain ⟨C, hC, hm⟩ := h.holds
  rcases Keyed.split_cases (fun e : Entry b V => foldKey t.ci e.key) (foldKey t.ci key) C with ⟨e, C₁, C₂, hk, rfl⟩ | hk
  · obtain ⟨m₁, ⟨k, v⟩, m₂, rfl, hp, h1, h2⟩ := hm.split
    obtain ⟨rfl, hv⟩ := Prod.mk.injEq .. ▸ hp
    exact .inl ⟨C₁, e, C₂, m₁, v, m₂, hC, hk, rfl, hv, h1, h2⟩
  · exact .inr ⟨C, hC, hm, hk, Keyed.Agree.forall (P := fun p : Key × Option V => foldKey t.ci p.1 ≠ foldKey t.ci key) hm hk⟩

/-- **A get answers as the map does**, and leaves the table alone. -/
theorem Refines.get (h : Refines seed t m) (key : Key) (now : Int) :
    (tableGet seed t key now).2 = OrdMap.get (foldKey t.ci) m key ∧ Refines seed (tableGet seed t key now).1 m ∧
      (tableGet seed t key now).1.options = t.options := by
  have hd := h.distinct
  rcases h.cases key with ⟨C₁, e, C₂, m₁, v, m₂, hC, hk, rfl, hv, h1, h2⟩ | ⟨C, hC, hm, hk, hk'⟩
  · have hf : t.fresh now e = true := by simp [Table.fresh, h.untimed]
    obtain ⟨t', hget, ho, hH⟩ := hC.get_hit hk hf
    rw [hget]
    rw [h.uncapped, if_neg (by simp)] at hH
    refine ⟨?_, h.of_options ho hH (h1.append (h2.cons (by rw [hv]))), ho⟩
    have hfind := Keyed.find_hit hd
    rw [show OrdMap.ident (foldKey t.ci) (e.key, v) = foldKey t.ci key from hk] at hfind
    rw [OrdMap.get, hfind, hv]
    rfl
  · rw [hC.get_miss hk, OrdMap.get, Keyed.find_miss hk']
    exact ⟨rfl, h, rfl⟩

theorem Refines.next (h : Refines seed t m) (key : Option Key) :
    tableNext seed t key = (OrdMap.next (foldKey t.ci) m key).map (fun p => (p.1, some p.2)) := by
  cases key with
  | none =>
    obtain ⟨C, hC, hm⟩ := h.holds
    rw [hC.next_start, hm.head, OrdMap.next]
  | some key =>
    have hd := h.distinct
    rcases h.cases key with ⟨C₁, e, C₂, m₁, v, m₂, hC, hk, rfl, hv, h1, h2⟩ | ⟨C, hC, hm, hk, hk'⟩
    · have hafter := Keyed.after_hit hd
      rw [show OrdMap.ident (foldKey t.ci) (e.key, v) = foldKey t.ci key from hk] at hafter
      rw [hC.next_key hk, h2.head, OrdMap.next, hafter]
    · rw [hC.next_miss hk, OrdMap.next, Keyed.after_miss hk']
      rfl

/-- **A set of a value does what the map's does**, or fails for want of memory and changes nothing. -/
theorem Refines.set_any (h : Refines seed t m) {key : Key} (hkey : Lws.Terminated key) (value : V) (now : Int) (mem : SetAlloc) :
    (tableSet seed t key (some value) now mem).1.options = t.options ∧
    (((tableSet seed t key (some value) now mem).2 = 0 ∧
        Refines seed (tableSet seed t key (some value) now mem).1 (OrdMap.put (foldKey t.ci) m key value)) ∨
      ((tableSet seed t key (some value) now mem).2 = -1 ∧ Refines seed (tableSet seed t key (some value) now mem).1 m ∧
        (mem.rehash = false ∨ mem.dup = false ∨ maxLoad b < (OrdMap.put (foldKey t.ci) m key value).length))) := by
  have hd := h.distinct
  rcases h.cases key with ⟨C₁, e, C₂, m₁, v, m₂, hC, hk, rfl, hv, h1, h2⟩ | ⟨C, hC, hm, hk, hk'⟩
  · obtain ⟨t', hset, ho, hH⟩ := hC.set_update hk value now mem
    rw [hset]
    rw [h.uncapped, if_neg (by simp)] at hH
    refine ⟨ho, .inl ⟨rfl, h.of_options ho hH ?_⟩⟩
    have hid : foldKey t.ci key = OrdMap.ident (foldKey t.ci) (e.key, v) := hk.symm
    rw [OrdMap.put, hid, Keyed.find_hit hd]
    dsimp only
    rw [Keyed.replace_hit hd]
    exact h1.append (h2.cons rfl)
  · have hev : t.evicted C = C := by rw [Table.evicted, h.uncapped]; rfl
    rw [OrdMap.put, Keyed.find_miss hk']
    have hlen := hm.length
    obtain ⟨t', rc, hset, ho, ⟨rfl, e, hH⟩ | ⟨rfl, hH, hwhy⟩⟩ := hC.set_new hk hkey value now mem
    · rw [hset]
      rw [hev] at hH
      exact ⟨ho, .inl ⟨rfl, h.of_options ho hH (hm.concat rfl)⟩⟩
    · rw [hset]
      rw [hev] at hH hwhy
      refine ⟨ho, .inr ⟨rfl, h.of_options ho hH hm, hwhy.imp_right (Or.imp_right fun hle => ?_)⟩⟩
      dsimp only
      rw [List.length_append, List.length_singleton]
      omega

theorem Refines.put (h : Refines seed t m) {key : Key} (hkey : Lws.Terminated key) (value : V) (now : Int)
    (hfit : (OrdMap.put (foldKey t.ci) m key value).length ≤ maxLoad b) :
    (tableSet seed t key (some value) now ⟨true, true⟩).2 = 0 ∧
      Refines seed (tableSet seed t key (some value) now ⟨true, true⟩).1 (OrdMap.put (foldKey t.ci) m key value) ∧
      (tableSet seed t key (some value) now ⟨true, true⟩).1.options = t.options := by
  obtain ⟨ho, ⟨hrc, hR⟩ | ⟨-, -, hwhy⟩⟩ := h.set_any hkey value now ⟨true, true⟩
  · exact ⟨hrc, hR, ho⟩
  · simp only [Bool.true_eq_false, false_or] at hwhy
    omega

theorem Refines.del (h : Refines seed t m) (key : Key) (now : Int) (mem : SetAlloc) :
    (tableSet seed t key none now mem).2 = 0 ∧
      Refines seed (tableSet seed t key none now mem).1 (OrdMap.del (foldKey t.ci) m key) ∧
      (tableSet seed t key none now mem).1.options = t.options := by
  have hd := h.distinct
  rcases h.cases key with ⟨C₁, e, C₂, m₁, v, m₂, hC, hk, rfl, hv, h1, h2⟩ | ⟨C, hC, hm, hk, hk'⟩
  · obtain ⟨t', hset, ho, hH⟩ := hC.set_remove hk now mem
    rw [hset]
    have hid : foldKey t.ci key = OrdMap.ident (foldKey t.ci) (e.key, v) := hk.symm
    rw [OrdMap.del, hid, Keyed.erase_hit hd]
    exact ⟨rfl, h.of_options ho hH (h1.append h2), ho⟩
  · rw [hC.set_absent hk, OrdMap.del, Keyed.erase_miss hk']
    exact ⟨rfl, h, rfl⟩

/-! ## Calls and runs -/

theorem Refines.call (h : Refines seed t m) (c : TableCall V) (hkey : c.Terminated) (hmem : c.Allocates)
    (hfit : (mapCall t.ci m c).1.length ≤ maxLoad b) :
    (tableCall seed t c).2 = (mapCall t.ci m c).2 ∧ Refines seed (tableCall seed t c).1 (mapCall t.ci m c).1 ∧
      (tableCall seed t c).1.options = t.options := by
  cases c with
  | set key value now mem =>
    obtain rfl : mem = ⟨true, true⟩ := hmem
    cases value with
    | some value =>
      obtain ⟨h1, h2, h3⟩ := h.put hkey value now hfit
      exact ⟨congrArg TableAnswer.status h1, h2, h3⟩
    | none =>
      obtain ⟨h1, h2, h3⟩ := h.del key now ⟨true, true⟩
      exact ⟨congrArg TableAnswer.status h1, h2, h3⟩
  | get key now =>
    obtain ⟨h1, h2, h3⟩ := h.get key now
    exact ⟨congrArg TableAnswer.value h1, h2, h3⟩
  | next key => exact ⟨congrArg TableAnswer.entry (h.next key), h, rfl⟩
  | clear =>
    obtain ⟨C, hC, -⟩ := h.holds
    obtain ⟨hH, ho⟩ := hC.clear
    exact ⟨rfl, h.of_options ho hH (Keyed.Agree.nil), ho⟩

/-- **A run**: the same answers, and the relation at its end. -/
theorem Refines.run : ∀ (calls : List (TableCall V)) {t : Table b V} {m : List (Key × V)}, Refines seed t m →
    (∀ c ∈ calls, c.Terminated) → (∀ c ∈ calls, c.Allocates) →
    (∀ pre, pre <+: calls → (mapRun t.ci m pre).1.length ≤ maxLoad b) →
    (tableRun seed t calls).2 = (mapRun t.ci m calls).2 ∧ Refines seed (tableRun seed t calls).1 (mapRun t.ci m calls).1 ∧
      (tableRun seed t calls).1.options = t.options
  | [], _, _, h, _, _, _ => ⟨rfl, h, rfl⟩
  | c :: calls, t, m, h, hkeys, hmem, hfit => by
    obtain ⟨h1, h2, h3⟩ := h.call c (hkeys c (by simp)) (hmem c (by simp)) (hfit [c] ⟨calls, rfl⟩)
    have hci := options_ci h3
    obtain ⟨r1, r2, r3⟩ := Refines.run calls h2 (fun c hc => hkeys c (by simp [hc])) (fun c hc => hmem c (by simp [hc]))
      (fun pre hpre => by
        rw [hci]
        exact hfit (c :: pre) (List.cons_prefix_cons.2 ⟨rfl, hpre⟩))
    rw [hci] at r1 r2
    exact ⟨by simp only [tableRun, mapRun]; rw [h1, r1], r2, r3.trans h3⟩

/-- **The walk from NULL yields every live key once, in order, and ends.** -/
theorem Refines.walk (h : Refines seed t m) : ∀ (fuel : Nat), m.length < fuel →
    tableWalk seed t fuel none = some (m.map (fun p => (p.1, some p.2))) := by
  have hd := h.distinct
  have hfrom : ∀ (m₂ m₁ : List (Key × V)) (p : Key × V) (fuel : Nat), m = m₁ ++ p :: m₂ → m₂.length < fuel →
      tableWalk seed t fuel (some p.1) = some (m₂.map (fun p => (p.1, some p.2))) := by
    intro m₂
    induction m₂ with
    | nil =>
      intro m₁ p fuel hm hlt
      obtain ⟨fuel, rfl⟩ := Nat.exists_eq_succ_of_ne_zero (Nat.ne_of_gt hlt)
      subst hm
      have hafter := Keyed.after_hit hd
      rw [tableWalk, h.next, OrdMap.next, show foldKey t.ci p.1 = OrdMap.ident (foldKey t.ci) p from rfl, hafter]
      rfl
    | cons p' m₂ ih =>
      intro m₁ p fuel hm hlt
      obtain ⟨fuel, rfl⟩ := Nat.exists_eq_succ_of_ne_zero (Nat.ne_of_gt (Nat.lt_of_le_of_lt (Nat.zero_le _) hlt))
      have hrec := ih (m₁ ++ [p]) p' fuel (by rw [hm]; simp) (by simpa using hlt)
      subst hm
      have hafter := Keyed.after_hit hd
      rw [tableWalk, h.next, OrdMap.next, show foldKey t.ci p.1 = OrdMap.ident (foldKey t.ci) p from rfl, hafter]
      simp only [List.head?_cons, Option.map_some]
      rw [hrec]
      rfl
  intro fuel hlt
  obtain ⟨fuel, rfl⟩ := Nat.exists_eq_succ_of_ne_zero (Nat.ne_of_gt (Nat.lt_of_le_of_lt (Nat.zero_le _) hlt))
  rw [tableWalk, h.next, OrdMap.next]
  cases m with
  | nil => rfl
  | cons p m =>
    simp only [List.head?_cons, Option.map_some]
    rw [hfrom m [] p fuel rfl (by simpa using hlt)]
    rfl

theorem Refines.count (h : Refines seed t m) : t.count = m.length := by
  obtain ⟨C, hC, hm⟩ := h.holds
  rw [hC.count, hm.length]

theorem refines_create (seed : BitVec b.bits) {load : Nat} {c₁ c₂ : Bool} (hcreate : tableCreate b V load c₁ c₂ = some t)
    (dup free ci : Bool) :
    Refines seed (tableConfigure t dup free ci) [] ∧ (tableConfigure t dup free ci).ci = ci := by
  obtain ⟨hH, ho⟩ := tableCreate_holds seed hcreate
  have hcount : t.count = 0 := hH.count
  have hconf : tableConfigure t dup free ci = { t with dup := dup, free := free, ci := ci } := by
    simp [tableConfigure, tableSetDup, tableSetFree, tableSetCi, hcount]
  rw [hconf]
  exact ⟨⟨⟨[], hH.of_empty rfl rfl rfl rfl rfl, Keyed.Agree.nil⟩, congrArg Options.timed ho, congrArg Options.capped ho⟩, rfl⟩

end

/-! ## Calls and runs in which allocations fail -/

section
variable {seed : BitVec b.bits} {t : Table b V} {m : List (Key × V)}

theorem Refines.any_call (h : Refines seed t m) {c : TableCall V} (hkey : c.Terminated) :
    ∃ m', Refines seed (tableCall seed t c).1 m' ∧ (tableCall seed t c).1.options = t.options := by
  cases c with
  | set key value now mem =>
    cases value with
    | some value =>
      obtain ⟨ho, ⟨-, h'⟩ | ⟨-, h', -⟩⟩ := h.set_any hkey value now mem
      · exact ⟨_, h', ho⟩
      · exact ⟨_, h', ho⟩
    | none => exact ⟨_, (h.del key now mem).2⟩
  | get key now => exact ⟨m, (h.get key now).2⟩
  | next key => exact ⟨m, h, rfl⟩
  | clear =>
    obtain ⟨C, hC, -⟩ := h.holds
    obtain ⟨hH, ho⟩ := hC.clear
    exact ⟨[], h.of_options ho hH Keyed.Agree.nil, ho⟩

theorem Refines.any_run : ∀ (calls : List (TableCall V)) {t : Table b V} {m : List (Key × V)}, Refines seed t m →
    (∀ c ∈ calls, c.Terminated) →
    ∃ m', Refines seed (tableRun seed t calls).1 m' ∧ (tableRun seed t calls).1.options = t.options
  | [], _, m, h, _ => ⟨m, h, rfl⟩
  | c :: calls, _, _, h, hkeys => by
    obtain ⟨m', h', ho⟩ := h.any_call (hkeys c List.mem_cons_self)
    obtain ⟨m'', h'', ho'⟩ := Refines.any_run calls h' fun c hc => hkeys c (List.mem_cons_of_mem _ hc)
    exact ⟨m'', h'', ho'.trans ho⟩

end

/-- **A table behaves as an insertion-ordered map**, for every seed, every choice of the options and every sequence of calls:
the answers are the map's; then each key has the value last set for it, a walk yields every pair once in order, and the count
is the number of keys. -/
theorem table_behaves_as_map (seed : BitVec b.bits) {load : Nat} {t : Table b V}
    (hcreate : tableCreate b V load true true = some t) (dup free ci : Bool) (calls : List (TableCall V))
    (hkeys : ∀ c ∈ calls, c.Terminated) (hmem : ∀ c ∈ calls, c.Allocates)
    (hfit : ∀ pre, pre <+: calls → (mapRun ci [] pre).1.length ≤ maxLoad b) :
    let r := tableRun seed (tableConfigure t dup free ci) calls
    let m := (mapRun ci [] calls).1
    r.2 = (mapRun ci [] calls).2 ∧
      (∀ key now, (tableGet seed r.1 key now).2 = OrdMap.lastPut (foldKey ci) (calls.filterMap TableCall.change) key) ∧
      Keyed.Distinct (OrdMap.ident (foldKey ci)) m ∧
      (∀ fuel, m.length < fuel → tableWalk seed r.1 fuel none = some (m.map (fun p => (p.1, some p.2)))) ∧
      r.1.count = m.length := by
  obtain ⟨h0, hci⟩ := refines_create seed hcreate dup free ci
  obtain ⟨hans, h, ho⟩ := Refines.run calls h0 hkeys hmem (by rw [hci]; exact hfit)
  have hci' := (options_ci ho).trans hci
  rw [hci] at hans h
  refine ⟨hans, fun key now => ?_, ?_, h.walk, h.count⟩
  · rw [(h.get key now).1, hci', mapRun_changes, OrdMap.get_run]
  · have hd := h.distinct
    rwa [hci'] at hd

/-- Two spellings of one key, with `ci`, and another key that comes and goes. -/
theorem table_behaves_as_map_spellings : ∃ t : Table .b64 Nat, tableCreate .b64 Nat 1 true true = some t ∧
    (tableRun (b := .b64) 7 (tableConfigure t true false true) [.set [65] (some 1) 0 {}, .set [98] (some 3) 0 {},
        .set [97] (some 2) 0 {}, .set [66] none 0 {}, .get [97] 0, .next none, .next (some [97])]).2 =
      [.status 0, .status 0, .status 0, .status 0, .value (some 2), .entry (some ([65], some 2)), .entry none] := by
  obtain ⟨t, ht⟩ := Option.isSome_iff_exists.1
    (show (tableCreate .b64 Nat 1 true true).isSome = true by decide +kernel)
  refine ⟨t, ht, Eq.trans (table_behaves_as_map (b := .b64) 7 ht true false true _ ?_ ?_ fun pre hpre => ?_).1 ?_⟩
  · simp [TableCall.Terminated, Terminated]
  · simp [TableCall.Allocates]
  · have hle : 7 ≤ maxLoad .b64 := by decide +kernel
    exact (mapRun_length true pre []).trans ((Nat.zero_add _).le.trans (hpre.length_le.trans hle))
  · decide +kernel

end Lws

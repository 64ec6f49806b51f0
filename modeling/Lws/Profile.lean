import Mathlib.Data.BitVec
import Mathlib.Algebra.Group.Prod
import Mathlib.Algebra.BigOperators.Group.List.Basic
import Lws.TableMap
/-!
# Profile — the profiled functions of the monitor (`lws_profiler.c`, `lws_monitor.c`)

A profiler that stops merges its functions into those of the monitor: it updates the ones that the monitor has, removes them
from its own table, and adds what is left.  Each merge and each clear runs under the mutex of the monitor, so that a run is a
sequence of them.
-/
namespace Lws

/-- `struct timespec`. -/
structure Timespec where
  sec : Int := 0
  nsec : Int := 0
deriving DecidableEq

def Timespec.nanos (t : Timespec) : Int := t.sec * 1000000000 + t.nsec

def lwsAddTimespec (base inc : Timespec) : Timespec :=
  let t : Timespec := ⟨base.sec + inc.sec, base.nsec + inc.nsec⟩
  if t.nsec > 1000000000 then ⟨t.sec + 1, t.nsec - 1000000000⟩ else t

/-- What is measured of a function: the fields that `lws_activation_record_t` and `lws_function_t` share. -/
structure Measure (w : Nat) where
  calls : BitVec w := 0
  timeSelf : Timespec := {}
  timeTotal : Timespec := {}
  memory : BitVec w := 0
deriving DecidableEq

structure LwsFunction (w : Nat) extends Measure w where
  key : Key
deriving DecidableEq

/-- The functions of `lws_monitor_t`: `functions[0..functions_n)`, `functions_alloc` and `out_of_memory`. -/
structure Functions (w : Nat) where
  functions : List (LwsFunction w) := []
  alloc : Nat := 32
  outOfMemory : Bool := false
deriving DecidableEq

/-- Which of the slab allocations of one round succeed: a larger array, and the copy of the key. -/
structure SlabAlloc where
  functions : Bool := true
  key : Bool := true

def LwsFunction.update {w : Nat} (f : LwsFunction w) (par : Measure w) : LwsFunction w :=
  { f with
    calls := f.calls + par.calls
    timeSelf := lwsAddTimespec f.timeSelf par.timeSelf
    timeTotal := lwsAddTimespec f.timeTotal par.timeTotal
    memory := f.memory + par.memory }

variable {b : Build}

section
variable (seed : BitVec b.bits) (now : Int)

/-- The first loop of `lws_stop_profiler`: what the monitor has is updated, and removed from the profile. -/
def mergeExisting : List (LwsFunction b.bits) → Table b (Measure b.bits) → List (LwsFunction b.bits) × Table b (Measure b.bits)
  | [], t => ([], t)
  | f :: functions, t =>
    match tableGet seed t f.key now with
    | (t, none) => let r := mergeExisting functions t; (f :: r.1, r.2)
    | (t, some par) =>
      let r := mergeExisting functions (tableSet seed t f.key none now {}).1
      (f.update par :: r.1, r.2)

/-- The second loop of `lws_stop_profiler`: what is left of the profile is added, until a slab allocation fails.  A NULL value
would be read as a record; `none` is that, and a walk that does not end. -/
def mergeNew (t : Table b (Measure b.bits)) (slab : Nat → SlabAlloc) :
    Nat → Option Key → Functions b.bits → Option (Functions b.bits)
  | 0, _, _ => none
  | fuel + 1, key, m =>
    match tableNext seed t key with
    | none => some m
    | some (_, none) => none
    | some (key, some par) =>
      let full := m.functions.length = m.alloc
      if full ∧ (slab fuel).functions = false then some { m with outOfMemory := true }
      else
        let m := if full then { m with alloc := m.alloc * 2 } else m
        if (slab fuel).key = false then some { m with outOfMemory := true }
        else mergeNew t slab fuel (some key) { m with functions := m.functions ++ [{ par with key := key }] }

/-- `lws_stop_profiler`, the part under the mutex. -/
def lwsStopProfiler (t : Table b (Measure b.bits)) (slab : Nat → SlabAlloc) (m : Functions b.bits) :
    Option (Functions b.bits) :=
  let (functions, t) := mergeExisting seed now m.functions t
  let m := { m with functions := functions }
  if m.outOfMemory then some m else mergeNew seed t slab (t.count + 1) none m

end

/-- The `functions` part of `lws_monitor_modification_handler`, for the value `[]`. -/
def clearFunctions {w : Nat} (m : Functions w) : Functions w := { m with functions := [], outOfMemory := false }

structure Profile (b : Build) where
  seed : BitVec b.bits
  table : Table b (Measure b.bits)

/-- A table that `lws_start_profiler` creates, and that sets and gets of keys without inner zero bytes have filled. -/
def Profile.Recorded (p : Profile b) : Prop :=
  ∃ t calls, tableCreate b (Measure b.bits) 32 true true = some t ∧ (∀ c ∈ calls, TableCall.Terminated c) ∧
    p.table = (tableRun p.seed (tableConfigure t true true false) calls).1

inductive ProfileStep (b : Build) where
  | merge (p : Profile b) (now : Int) (slab : Nat → SlabAlloc)
  | clear

def Functions.step (m : Functions b.bits) : ProfileStep b → Option (Functions b.bits)
  | .merge p now slab => lwsStopProfiler p.seed now p.table slab m
  | .clear => some (clearFunctions m)

def Functions.run (m : Functions b.bits) (steps : List (ProfileStep b)) : Option (Functions b.bits) :=
  steps.foldlM Functions.step m

def ProfileStep.since (merged : List (Profile b)) : ProfileStep b → List (Profile b)
  | .merge p _ _ => merged ++ [p]
  | .clear => []

def mergedSince (steps : List (ProfileStep b)) : List (Profile b) := steps.foldl ProfileStep.since []

/-! ## Sums -/

def Measure.totals {w : Nat} (m : Measure w) : BitVec w × BitVec w × Int × Int :=
  (m.calls, m.memory, m.timeSelf.nanos, m.timeTotal.nanos)

/-- What a profile has of a key. -/
def Profile.get (p : Profile b) (key : Key) : Option (Measure b.bits) := (tableGet p.seed p.table key 0).2

/-- What a profile adds for a key; nothing, where it has none. -/
def Profile.totals (p : Profile b) (key : Key) : BitVec b.bits × BitVec b.bits × Int × Int :=
  ((p.get key).map Measure.totals).getD 0

@[simp] theorem lwsAddTimespec_nanos (base inc : Timespec) : (lwsAddTimespec base inc).nanos = base.nanos + inc.nanos := by
  unfold lwsAddTimespec Timespec.nanos
  dsimp only
  split
  · dsimp only
    omega
  · dsimp only
    omega

theorem LwsFunction.update_totals {w : Nat} (f : LwsFunction w) (par : Measure w) :
    (f.update par).totals = f.totals + par.totals := by
  simp only [Measure.totals, LwsFunction.update, lwsAddTimespec_nanos, Prod.mk_add_mk]

/-! ## Profiles -/

theorem Profile.Recorded.refines {p : Profile b} (h : p.Recorded) : ∃ m, Refines p.seed p.table m ∧ p.table.ci = false := by
  obtain ⟨t, calls, hcreate, hkeys, htable⟩ := h
  obtain ⟨h0, hci⟩ := refines_create p.seed hcreate true true false
  obtain ⟨m, hm, ho⟩ := Refines.any_run calls h0 hkeys
  rw [htable]
  exact ⟨m, hm, (options_ci ho).trans hci⟩

/-! ## The first loop -/

section
variable {seed : BitVec b.bits} {t : Table b (Measure b.bits)} {m : List (Key × Measure b.bits)}

def LwsFunction.merge (m : List (Key × Measure b.bits)) (f : LwsFunction b.bits) : LwsFunction b.bits :=
  match OrdMap.get (foldKey false) m f.key with
  | some par => f.update par
  | none => f

@[simp] theorem LwsFunction.merge_key (m : List (Key × Measure b.bits)) (f : LwsFunction b.bits) : (f.merge m).key = f.key := by
  unfold LwsFunction.merge
  split
  · rfl
  · rfl

/-- **The first loop updates what both have, and leaves what the monitor does not have.** -/
theorem mergeExisting_spec (now : Int) : ∀ (functions : List (LwsFunction b.bits)) {t : Table b (Measure b.bits)}
    {m : List (Key × Measure b.bits)}, Refines seed t m → t.ci = false → (functions.map LwsFunction.key).Nodup →
    (mergeExisting seed now functions t).1 = functions.map (LwsFunction.merge m) ∧
    Refines seed (mergeExisting seed now functions t).2 (m.filter fun p => p.1 ∉ functions.map LwsFunction.key) ∧
    (mergeExisting seed now functions t).2.ci = false
  | [], t, m, h, hci, _ => by
    refine ⟨rfl, ?_, hci⟩
    simp only [List.map_nil, List.not_mem_nil, not_false_eq_true, decide_true, List.filter_true]
    exact h
  | f :: functions, t, m, h, hci, hd => by
    obtain ⟨hnot, hd⟩ := List.nodup_cons.1 hd
    obtain ⟨hget, hR, ho⟩ := h.get f.key now
    have hci' := (options_ci ho).trans hci
    rw [hci] at hget
    rw [mergeExisting]
    generalize tableGet seed t f.key now = g at hget hR hci' ⊢
    obtain ⟨t₁, value⟩ := g
    dsimp only at hget hR hci' ⊢
    cases value with
    | none =>
      obtain ⟨hmap, hR, hci⟩ := mergeExisting_spec now functions hR hci' hd
      have hmiss : ∀ p ∈ m, p.1 ≠ f.key := Keyed.find_none (Option.map_eq_none_iff.1 hget.symm)
      refine ⟨?_, ?_, hci⟩
      · dsimp only
        rw [hmap, List.map_cons, LwsFunction.merge, ← hget]
      · rw [List.filter_congr (q := fun p => p.1 ∉ functions.map LwsFunction.key) fun p hp => ?_]
        · exact hR
        · simp only [List.map_cons, List.mem_cons, hmiss p hp, false_or]
    | some par =>
      obtain ⟨-, hR, ho⟩ := hR.del f.key now {}
      rw [hci'] at hR
      obtain ⟨hmap, hR, hend⟩ := mergeExisting_spec now functions hR ((options_ci ho).trans hci') hd
      refine ⟨?_, ?_, hend⟩
      · dsimp only
        rw [hmap, List.map_cons, LwsFunction.merge, ← hget]
        refine congrArg (f.update par :: ·) (List.map_congr_left fun f' hf' => ?_)
        have hne : foldKey false f.key ≠ foldKey false f'.key := fun he => hnot (by
          rw [show f.key = f'.key from he]
          exact List.mem_map_of_mem hf')
        have hdistinct := h.distinct
        rw [hci] at hdistinct
        rw [LwsFunction.merge, LwsFunction.merge, OrdMap.get_del hdistinct, if_neg hne]
      · rw [OrdMap.del, Keyed.erase, List.filter_filter] at hR
        refine (List.filter_congr fun p _ => ?_) ▸ hR
        have hident : OrdMap.ident (foldKey false) p = p.1 := rfl
        simp only [hident, List.map_cons, List.mem_cons, not_or, Bool.decide_and, ne_eq, Bool.and_comm]
        rfl

/-! ## The second loop -/

def addedFunction {w : Nat} (p : Key × Measure w) : LwsFunction w := { p.2 with key := p.1 }

/-- **The second loop adds what is left, in order**, or stops at a failed allocation and says so. -/
theorem mergeNew_spec (h : Refines seed t m) (slab : Nat → SlabAlloc) :
    ∀ (rest done : List (Key × Measure b.bits)) (fuel : Nat) (x : Functions b.bits), m = done ++ rest → rest.length < fuel →
      x.functions.length ≤ x.alloc → 0 < x.alloc →
      ∃ x' pre, mergeNew seed t slab fuel (done.getLast?.map Prod.fst) x = some x' ∧ pre <+: rest ∧
        x'.functions = x.functions ++ pre.map addedFunction ∧ (x'.outOfMemory = false → pre = rest) ∧
        x'.functions.length ≤ x'.alloc ∧ 0 < x'.alloc
  | [], done, fuel, x, hm, hfuel, hle, hpos => by
    obtain ⟨fuel, rfl⟩ := Nat.exists_eq_succ_of_ne_zero (Nat.ne_of_gt hfuel)
    have hd := h.distinct
    rw [hm] at hd
    refine ⟨x, [], ?_, List.prefix_refl _, by simp only [List.map_nil, List.append_nil], fun _ => rfl, hle, hpos⟩
    rw [mergeNew, h.next, hm, OrdMap.next_last hd]
    rfl
  | p :: rest, done, fuel, x, hm, hfuel, hle, hpos => by
    obtain ⟨fuel, rfl⟩ := Nat.exists_eq_succ_of_ne_zero (Nat.ne_of_gt (Nat.lt_of_le_of_lt (Nat.zero_le _) hfuel))
    have hd := h.distinct
    rw [hm] at hd
    rw [mergeNew, h.next, hm, OrdMap.next_last hd]
    dsimp only [List.head?_cons, Option.map_some]
    have hfail (alloc : Nat) (hle : x.functions.length ≤ alloc) (hpos : 0 < alloc) : ∃ x' pre,
        some ({ x with alloc := alloc, outOfMemory := true } : Functions b.bits) = some x' ∧ pre <+: p :: rest ∧
        x'.functions = x.functions ++ pre.map addedFunction ∧ (x'.outOfMemory = false → pre = p :: rest) ∧
        x'.functions.length ≤ x'.alloc ∧ 0 < x'.alloc :=
      ⟨_, [], rfl, List.nil_prefix, by simp only [List.map_nil, List.append_nil], fun ho => (nomatch ho), hle, hpos⟩
    have hadd (alloc : Nat) (hlt : x.functions.length < alloc) := mergeNew_spec h slab rest (done ++ [p]) fuel
      { x with alloc := alloc, functions := x.functions ++ [addedFunction p] } (by rw [hm, List.append_assoc]; rfl)
      (Nat.lt_of_succ_lt_succ hfuel) (by rw [List.length_append]; exact hlt) (Nat.lt_of_le_of_lt (Nat.zero_le _) hlt)
    have hgo (alloc : Nat) (hlt : x.functions.length < alloc) : ∃ x' pre,
        (if (slab fuel).key = false then some ({ x with alloc := alloc, outOfMemory := true } : Functions b.bits)
          else mergeNew seed t slab fuel (some p.1) { x with
            alloc := alloc, functions := x.functions ++ [addedFunction p] }) = some x' ∧ pre <+: p :: rest ∧
        x'.functions = x.functions ++ pre.map addedFunction ∧ (x'.outOfMemory = false → pre = p :: rest) ∧
        x'.functions.length ≤ x'.alloc ∧ 0 < x'.alloc := by
      split
      · exact hfail alloc (Nat.le_of_lt hlt) (Nat.lt_of_le_of_lt (Nat.zero_le _) hlt)
      · obtain ⟨x', pre, hx', hpre, hfun, hall, hle, hpos⟩ := hadd alloc hlt
        rw [List.getLast?_concat, Option.map_some] at hx'
        refine ⟨x', p :: pre, hx', List.cons_prefix_cons.2 ⟨rfl, hpre⟩, ?_, fun ho => by rw [hall ho], hle, hpos⟩
        rw [hfun, List.map_cons, List.append_assoc]
        rfl
    split
    · exact hfail x.alloc hle hpos
    · by_cases hfull : x.functions.length = x.alloc
      · simp only [hfull, if_true]
        exact hgo (x.alloc * 2) (by omega)
      · simp only [hfull, if_false]
        exact hgo x.alloc (by omega)

end

/-! ## Steps -/

structure Functions.Sound {w : Nat} (x : Functions w) : Prop where
  distinct : (x.functions.map LwsFunction.key).Nodup
  fits : x.functions.length ≤ x.alloc
  alloc : 0 < x.alloc

/-- The functions of the monitor are the sums over the merged profiles. -/
structure Functions.Exact (x : Functions b.bits) (merged : List (Profile b)) : Prop where
  sums : ∀ f ∈ x.functions, f.totals = (merged.map fun p => p.totals f.key).sum
  complete : ∀ p ∈ merged, ∀ key, p.get key ≠ none → key ∈ x.functions.map LwsFunction.key

section
variable {p : Profile b} {m : List (Key × Measure b.bits)} {x : Functions b.bits}

theorem Refines.keys_nodup (h : Refines p.seed p.table m) (hci : p.table.ci = false) : (m.map Prod.fst).Nodup := by
  have hd := h.distinct
  rw [hci] at hd
  exact List.pairwise_map.2 hd

theorem Refines.profile_get (h : Refines p.seed p.table m) (hci : p.table.ci = false) (key : Key) :
    p.get key = OrdMap.get (foldKey false) m key := by
  rw [Profile.get, (h.get key 0).1, hci]

def leftOver {w : Nat} (x : Functions w) (m : List (Key × Measure w)) : List (Key × Measure w) :=
  m.filter fun p => p.1 ∉ x.functions.map LwsFunction.key

def addKey (keys : List Key) (key : Key) : List Key := if key ∈ keys then keys else keys ++ [key]

theorem leftOver_nodup (h : x.Sound) (hm : (m.map Prod.fst).Nodup) {pre : List (Key × Measure b.bits)}
    (hpre : pre <+: leftOver x m) :
    ((x.functions.map (LwsFunction.merge m) ++ pre.map addedFunction).map LwsFunction.key).Nodup := by
  have hkeys : (x.functions.map (LwsFunction.merge m)).map LwsFunction.key = x.functions.map LwsFunction.key := by
    rw [List.map_map]
    exact List.map_congr_left fun f _ => LwsFunction.merge_key m f
  have hadded : (pre.map addedFunction).map LwsFunction.key = pre.map Prod.fst := by
    rw [List.map_map]
    rfl
  rw [List.map_append, hkeys, hadded]
  refine List.nodup_append.2 ⟨h.distinct, ?_, ?_⟩
  · exact hm.sublist ((hpre.sublist.trans List.filter_sublist).map Prod.fst)
  · rintro key hold key' hnew rfl
    obtain ⟨q, hq, rfl⟩ := List.mem_map.1 hnew
    exact of_decide_eq_true (List.mem_filter.1 (hpre.subset hq)).2 hold

/-- **A merge** updates the functions, and adds those that are left unless an allocation fails. -/
theorem Functions.Sound.merge (h : x.Sound) (hR : Refines p.seed p.table m) (hci : p.table.ci = false) (now : Int)
    (slab : Nat → SlabAlloc) : ∃ x', lwsStopProfiler p.seed now p.table slab x = some x' ∧ x'.Sound ∧
      (x'.outOfMemory = false → x.outOfMemory = false ∧
        x'.functions = x.functions.map (LwsFunction.merge m) ++ (leftOver x m).map addedFunction) := by
  obtain ⟨hmap, hrest, hend⟩ := mergeExisting_spec now x.functions hR hci h.distinct
  have hnodup := hR.keys_nodup hci
  unfold lwsStopProfiler
  generalize mergeExisting p.seed now x.functions p.table = r at hmap hrest hend ⊢
  obtain ⟨functions, t⟩ := r
  dsimp only at hmap hrest hend ⊢
  subst hmap
  cases ho : x.outOfMemory with
  | true =>
    rw [if_pos rfl]
    refine ⟨_, rfl, ⟨?_, ?_, h.alloc⟩, fun hf => (nomatch hf)⟩
    · have hnone := leftOver_nodup h hnodup (List.nil_prefix (l := leftOver x m))
      simp only [List.map_nil, List.append_nil] at hnone
      exact hnone
    · dsimp only
      rw [List.length_map]
      exact h.fits
  | false =>
    rw [if_neg Bool.false_ne_true]
    obtain ⟨x', pre, hx', hpre, hfun, hall, hle, hpos⟩ := mergeNew_spec hrest slab (leftOver x m) [] (t.count + 1)
      { x with functions := x.functions.map (LwsFunction.merge m), outOfMemory := false } rfl
      (by rw [hrest.count]; exact Nat.lt_succ_self _) (by rw [List.length_map]; exact h.fits) h.alloc
    refine ⟨x', hx', ⟨?_, hle, hpos⟩, fun hf => ⟨rfl, ?_⟩⟩
    · rw [hfun]
      exact leftOver_nodup h hnodup hpre
    · rw [hfun, hall hf]

theorem LwsFunction.merge_totals (hR : Refines p.seed p.table m) (hci : p.table.ci = false) (f : LwsFunction b.bits) :
    (f.merge m).totals = f.totals + p.totals f.key := by
  rw [Profile.totals, hR.profile_get hci, LwsFunction.merge]
  cases OrdMap.get (foldKey false) m f.key with
  | none => rw [Option.map_none, Option.getD_none, add_zero]
  | some par => exact f.update_totals par

/-- **A merge adds what the profile has**, for every key. -/
theorem Functions.Exact.merge {merged : List (Profile b)} {x' : Functions b.bits} (h : x.Exact merged)
    (hR : Refines p.seed p.table m) (hci : p.table.ci = false)
    (hx' : x'.functions = x.functions.map (LwsFunction.merge m) ++ (leftOver x m).map addedFunction) :
    x'.Exact (merged ++ [p]) := by
  have hdistinct := hR.distinct
  rw [hci] at hdistinct
  refine ⟨fun f hf => ?_, fun q hq key hkey => ?_⟩
  · rw [List.map_append, List.sum_append, List.map_singleton, List.sum_singleton]
    rw [hx'] at hf
    rcases List.mem_append.1 hf with hf | hf
    · obtain ⟨f, hmem, rfl⟩ := List.mem_map.1 hf
      rw [LwsFunction.merge_totals hR hci, h.sums f hmem, LwsFunction.merge_key]
    · -- a new function is in none of the profiles before
      obtain ⟨q, hq, rfl⟩ := List.mem_map.1 hf
      obtain ⟨hmem, hnew⟩ := List.mem_filter.1 hq
      have hget := OrdMap.get_mem hdistinct hmem
      have hzero : (merged.map fun r => r.totals q.1).sum = 0 := by
        refine List.sum_eq_zero fun v hv => ?_
        obtain ⟨r, hr, rfl⟩ := List.mem_map.1 hv
        have hnone : r.get q.1 = none := by
          by_contra hne
          exact of_decide_eq_true hnew (h.complete r hr q.1 hne)
        rw [Profile.totals, hnone]
        rfl
      rw [show (addedFunction q).key = q.1 from rfl, hzero, zero_add, Profile.totals, hR.profile_get hci, hget]
      rfl
  · rw [hx', List.map_append, List.mem_append]
    by_cases hold : key ∈ x.functions.map LwsFunction.key
    · refine .inl ?_
      obtain ⟨f, hf, rfl⟩ := List.mem_map.1 hold
      exact List.mem_map.2 ⟨f.merge m, List.mem_map_of_mem hf, f.merge_key m⟩
    · rcases List.mem_append.1 hq with hq | hq
      · exact absurd (h.complete q hq key hkey) hold
      · rw [List.mem_singleton.1 hq, hR.profile_get hci] at hkey
        obtain ⟨v, hv⟩ := Option.ne_none_iff_exists'.1 hkey
        obtain ⟨r, hr, hrk, -⟩ := OrdMap.mem_of_get hv
        have hrk : r.1 = key := hrk
        refine .inr (List.mem_map.2 ⟨addedFunction r, List.mem_map_of_mem (List.mem_filter.2 ⟨hr, ?_⟩), hrk⟩)
        rw [hrk]
        exact decide_eq_true hold

end

/-! ## Runs -/

/-- What the monitor has of a key; nothing, where it has none. -/
def Functions.totals {w : Nat} (x : Functions w) (key : Key) : BitVec w × BitVec w × Int × Int :=
  ((x.functions.find? fun f => f.key = key).map fun f => f.totals).getD 0

def ProfileStep.Recorded : ProfileStep b → Prop
  | .merge p _ _ => p.Recorded
  | .clear => True

theorem Functions.Exact.totals {x : Functions b.bits} {merged : List (Profile b)} (h : x.Exact merged) (key : Key) :
    x.totals key = (merged.map fun p => p.totals key).sum := by
  unfold Functions.totals
  cases hf : x.functions.find? fun f => f.key = key with
  | some f =>
    have hkey : f.key = key := by simpa using List.find?_some hf
    rw [Option.map_some, Option.getD_some, h.sums f (List.mem_of_find?_eq_some hf), hkey]
  | none =>
    refine (List.sum_eq_zero fun v hv => ?_).symm
    obtain ⟨p, hp, rfl⟩ := List.mem_map.1 hv
    have hnone : p.get key = none := by
      by_contra hne
      obtain ⟨f, hmem, hkey⟩ := List.mem_map.1 (h.complete p hp key hne)
      exact List.find?_eq_none.1 hf f hmem (decide_eq_true hkey)
    rw [Profile.totals, hnone]
    rfl

/-- **A run keeps the functions distinct, and exact while no allocation has failed.** -/
theorem Functions.run_spec (steps : List (ProfileStep b)) (hsteps : ∀ s ∈ steps, s.Recorded) :
    ∃ x, Functions.run {} steps = some x ∧ x.Sound ∧ (x.outOfMemory = false → x.Exact (mergedSince steps)) := by
  induction steps using List.reverseRecOn with
  | nil => exact ⟨{}, rfl, ⟨List.nodup_nil, Nat.zero_le _, Nat.zero_lt_succ 31⟩,
      fun _ => ⟨fun _ hf => (nomatch hf), fun _ hp => (nomatch hp)⟩⟩
  | append_singleton steps s ih =>
    obtain ⟨x, hx, hsound, hexact⟩ := ih fun s hs => hsteps s (List.mem_append_left _ hs)
    have hrun : Functions.run {} (steps ++ [s]) = x.step s := by
      rw [Functions.run, List.foldlM_append, show steps.foldlM Functions.step {} = some x from hx]
      simp only [Option.bind_eq_bind, Option.bind_some, List.foldlM_cons, List.foldlM_nil, Option.pure_def, Option.bind_fun_some]
    have hmerged : mergedSince (steps ++ [s]) = s.since (mergedSince steps) := by
      rw [mergedSince, List.foldl_append]
      rfl
    rw [hrun, hmerged]
    cases s with
    | merge p now slab =>
      obtain ⟨m, hR, hci⟩ := (show p.Recorded from hsteps _ (List.mem_append_right _ List.mem_cons_self)).refines
      obtain ⟨x', hx', hsound', hdone⟩ := hsound.merge hR hci now slab
      refine ⟨x', hx', hsound', fun ho => ?_⟩
      obtain ⟨hbefore, hfun⟩ := hdone ho
      exact (hexact hbefore).merge hR hci hfun
    | clear =>
      exact ⟨clearFunctions x, rfl, ⟨List.nodup_nil, Nat.zero_le _, hsound.alloc⟩,
        fun _ => ⟨fun _ hf => (nomatch hf), fun _ hp => (nomatch hp)⟩⟩

/-- **Merging conserves the measurements**: for any merges of recorded profiles and any clears, in any order, and whichever slab
allocations fail, the functions of the monitor have distinct keys and fit their array; and while `out_of_memory` is 0, for every
key the calls, the memory and the times are the sums over all profiles merged since the last clear, and no key of them is
missing. -/
theorem profiles_are_conserved (steps : List (ProfileStep b)) (hsteps : ∀ s ∈ steps, s.Recorded) :
    ∃ x, Functions.run {} steps = some x ∧ (x.functions.map LwsFunction.key).Nodup ∧ x.functions.length ≤ x.alloc ∧
      (x.outOfMemory = false → ∀ key, x.totals key = ((mergedSince steps).map fun p => p.totals key).sum ∧
        ∀ p ∈ mergedSince steps, p.get key ≠ none → key ∈ x.functions.map LwsFunction.key) := by
  obtain ⟨x, hx, hsound, hexact⟩ := Functions.run_spec steps hsteps
  exact ⟨x, hx, hsound.distinct, hsound.fits, fun ho key => ⟨(hexact ho).totals key, fun p hp => (hexact ho).complete p hp key⟩⟩

/-- Two profiles with a function in common: its calls and its times add up, with a carry. -/
theorem profiles_are_conserved_two : ∃ p q : Profile .b64, p.Recorded ∧ q.Recorded ∧
    ∃ x, Functions.run {} [.merge p 0 fun _ => {}, .merge q 0 fun _ => {}] = some x ∧ x.outOfMemory = false ∧
      x.totals [65] = (5, 0, 1200000000, 0) := by
  let filled (t : Table .b64 (Measure 64)) (calls : List (TableCall (Measure 64))) : Profile .b64 :=
    ⟨7, (tableRun (b := .b64) 7 (tableConfigure t true true false) calls).1⟩
  let first : List (TableCall (Measure 64)) :=
    [.set [65] (some { calls := 2, timeSelf := ⟨0, 600000000⟩ }) 0 {}, .set [66] (some { calls := 1 }) 0 {}]
  let second : List (TableCall (Measure 64)) := [.set [65] (some { calls := 3, timeSelf := ⟨0, 600000000⟩ }) 0 {}]
  have hrun : (tableCreate .b64 (Measure 64) 32 true true).map (fun t =>
      decide ((Functions.run {} [.merge (filled t first) 0 fun _ => {}, .merge (filled t second) 0 fun _ => {}]).map
        (fun x => x.outOfMemory) = some false ∧ (filled t first).totals [65] = (2, 0, 600000000, 0) ∧
        (filled t second).totals [65] = (3, 0, 600000000, 0))) = some true := by decide +kernel
  obtain ⟨t, ht, hd⟩ := Option.map_eq_some_iff.1 hrun
  obtain ⟨hx, hp, hq⟩ := of_decide_eq_true hd
  have hrec (calls : List (TableCall (Measure 64))) (hkeys : ∀ c ∈ calls, c.Terminated) : (filled t calls).Recorded :=
    ⟨t, calls, ht, hkeys, rfl⟩
  have h₁ : (filled t first).Recorded := hrec first (by simp [first, TableCall.Terminated, Terminated])
  have h₂ : (filled t second).Recorded := hrec second (by simp [second, TableCall.Terminated, Terminated])
  refine ⟨filled t first, filled t second, h₁, h₂, ?_⟩
  obtain ⟨x, hrun, -, -, hsum⟩ := profiles_are_conserved
    [.merge (filled t first) 0 fun _ => {}, .merge (filled t second) 0 fun _ => {}] (by
      rintro s (_ | ⟨_, _ | ⟨_, hs⟩⟩)
      · exact h₁
      · exact h₂
      · cases hs)
  rw [hrun] at hx
  have ho : x.outOfMemory = false := Option.some.inj hx
  refine ⟨x, hrun, ho, ?_⟩
  have hsum := (hsum ho [65]).1
  rw [hsum]
  simp only [mergedSince, List.foldl_cons, List.foldl_nil, ProfileStep.since, List.nil_append, List.map_append, List.map_cons,
    List.map_nil, List.sum_append, List.sum_cons, List.sum_nil, hp, hq]
  decide

end Lws

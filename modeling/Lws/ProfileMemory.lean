import Lws.Ledger
import Lws.Profile
/-!
# ProfileMemory — the slab blocks of the profiled functions (`lws_init_monitor`, `lws_stop_profiler`, `functions=[]`)

The array of the functions and the copies of their keys are blocks of the slab pool of the monitor, which the workers share; the
block of `lws_monitor_t` itself is another one, which stays.  The merges are those of `Profile` (`MonitorMemory.step_functions`),
with the blocks that they allocate, write and free.
-/
namespace Lws

variable {b : Build}

/-- A block of the slab pool: its number, and the functions or the bytes that it has room for. -/
structure SlabBlock where
  id : Nat
  room : Nat
deriving DecidableEq

/-- The functions of the monitor with their array and, in the same order, the blocks of their keys; every block that has been
allocated, and the blocks in the order in which they were freed; and whether more was written to a block than it has room for. -/
structure MonitorMemory (b : Build) extends Functions b.bits where
  array : SlabBlock
  keys : List SlabBlock := []
  next : Nat := 0
  allocated : List SlabBlock := []
  freed : List SlabBlock := []
  overrun : Bool := false

def lwsInitMonitor (b : Build) : MonitorMemory b where
  array := ⟨0, 32⟩
  next := 1
  allocated := [⟨0, 32⟩]

/-- The array is replaced by one with twice the room, to which the functions are copied. -/
def MonitorMemory.grow (x : MonitorMemory b) : MonitorMemory b :=
  let array : SlabBlock := ⟨x.next, x.alloc * 2⟩
  { x with
    array := array
    alloc := x.alloc * 2
    next := x.next + 1
    allocated := array :: x.allocated
    freed := x.freed ++ [x.array]
    overrun := x.overrun || decide (array.room < x.functions.length) }

/-- The function behind the last one is written to: its key, which is NULL where there is no memory for it, comes first. -/
def MonitorMemory.touch (x : MonitorMemory b) : MonitorMemory b :=
  { x with overrun := x.overrun || decide (x.array.room ≤ x.functions.length) }

def MonitorMemory.add (x : MonitorMemory b) (key : Key) (par : Measure b.bits) : MonitorMemory b :=
  let block : SlabBlock := ⟨x.next, key.length⟩
  { x with
    functions := x.functions ++ [{ par with key := key }]
    keys := x.keys ++ [block]
    next := x.next + 1
    allocated := block :: x.allocated }

section
variable (seed : BitVec b.bits) (now : Int)

/-- The second loop of `lws_stop_profiler`. -/
def MonitorMemory.mergeNew (t : Table b (Measure b.bits)) (slab : Nat → SlabAlloc) :
    Nat → Option Key → MonitorMemory b → Option (MonitorMemory b)
  | 0, _, _ => none
  | fuel + 1, key, x =>
    match tableNext seed t key with
    | none => some x
    | some (_, none) => none
    | some (key, some par) =>
      let full := x.functions.length = x.alloc
      if full ∧ (slab fuel).functions = false then some { x with outOfMemory := true }
      else
        let x := (if full then x.grow else x).touch
        if (slab fuel).key = false then some { x with outOfMemory := true }
        else MonitorMemory.mergeNew t slab fuel (some key) (x.add key par)

def MonitorMemory.stop (t : Table b (Measure b.bits)) (slab : Nat → SlabAlloc) (x : MonitorMemory b) : Option (MonitorMemory b) :=
  let (functions, t) := mergeExisting seed now x.functions t
  let x := { x with functions := functions }
  if x.outOfMemory then some x else x.mergeNew seed t slab (t.count + 1) none

end

/-- The `functions` part of `lws_monitor_modification_handler`: the keys of `functions[0..functions_n)` are freed. -/
def MonitorMemory.clear (x : MonitorMemory b) : MonitorMemory b :=
  { x with
    functions := []
    outOfMemory := false
    keys := []
    freed := x.freed ++ x.keys }

def MonitorMemory.step (x : MonitorMemory b) : ProfileStep b → Option (MonitorMemory b)
  | .merge p now slab => x.stop p.seed now p.table slab
  | .clear => some x.clear

def MonitorMemory.run (x : MonitorMemory b) (steps : List (ProfileStep b)) : Option (MonitorMemory b) :=
  steps.foldlM MonitorMemory.step x

/-! ## The merges are those of the functions -/

theorem MonitorMemory.mergeNew_functions {seed : BitVec b.bits} (t : Table b (Measure b.bits)) (slab : Nat → SlabAlloc) :
    ∀ (fuel : Nat) (key : Option Key) (x : MonitorMemory b),
      (x.mergeNew seed t slab fuel key).map MonitorMemory.toFunctions = Lws.mergeNew seed t slab fuel key x.toFunctions
  | 0, _, _ => rfl
  | fuel + 1, key, x => by
    rw [MonitorMemory.mergeNew, Lws.mergeNew]
    cases tableNext seed t key with
    | none => rfl
    | some p =>
      obtain ⟨key, par⟩ := p
      cases par with
      | none => rfl
      | some par =>
        dsimp only
        by_cases hfail : x.functions.length = x.alloc ∧ (slab fuel).functions = false
        · rw [if_pos hfail, if_pos hfail]
          rfl
        rw [if_neg hfail, if_neg hfail]
        by_cases hfull : x.functions.length = x.alloc
        · simp only [if_pos hfull]
          split
          · rfl
          · exact MonitorMemory.mergeNew_functions t slab fuel (some key) (x.grow.touch.add key par)
        · simp only [if_neg hfull]
          split
          · rfl
          · exact MonitorMemory.mergeNew_functions t slab fuel (some key) (x.touch.add key par)

/-- **A step does to the functions what it does without their blocks.** -/
theorem MonitorMemory.step_functions (x : MonitorMemory b) (s : ProfileStep b) :
    (x.step s).map MonitorMemory.toFunctions = x.toFunctions.step s := by
  cases s with
  | clear => rfl
  | merge p now slab =>
    change (x.stop p.seed now p.table slab).map MonitorMemory.toFunctions = lwsStopProfiler p.seed now p.table slab x.toFunctions
    unfold MonitorMemory.stop lwsStopProfiler
    generalize mergeExisting p.seed now x.functions p.table = r
    dsimp only
    split
    · rfl
    · exact MonitorMemory.mergeNew_functions ..

theorem MonitorMemory.run_functions : ∀ (steps : List (ProfileStep b)) (x : MonitorMemory b),
    (x.run steps).map MonitorMemory.toFunctions = x.toFunctions.run steps
  | [], _ => rfl
  | s :: steps, x => by
    rw [MonitorMemory.run, List.foldlM_cons, Functions.run, List.foldlM_cons, ← x.step_functions s]
    cases x.step s with
    | none => rfl
    | some y => exact MonitorMemory.run_functions steps y

/-! ## What is kept -/

/-- **The blocks between the steps**: the array, with room for `functions_alloc` functions, and a block for each key. -/
structure MonitorMemory.Kept (x : MonitorMemory b) : Prop where
  ledger : Ledger.Balanced x.freed (x.array :: x.keys) x.allocated
  fresh : ∀ block ∈ x.allocated, block.id < x.next
  array : x.array.room = x.alloc
  keys : x.keys.map SlabBlock.room = x.functions.map fun f => f.key.length
  fits : x.functions.length ≤ x.alloc
  alloc : 0 < x.alloc
  within : x.overrun = false

section
variable {x : MonitorMemory b}

theorem MonitorMemory.Kept.notMem (h : x.Kept) (room : Nat) : (⟨x.next, room⟩ : SlabBlock) ∉ x.allocated := fun hmem =>
  absurd (h.fresh _ hmem) (Nat.lt_irrefl _)

theorem MonitorMemory.Kept.fresh_cons (h : x.Kept) (room : Nat) :
    ∀ block ∈ (⟨x.next, room⟩ : SlabBlock) :: x.allocated, block.id < x.next + 1 := by
  intro block hmem
  rcases List.mem_cons.1 hmem with rfl | hmem
  · exact Nat.lt_succ_self _
  · exact Nat.lt_succ_of_lt (h.fresh block hmem)

/-- **The array grows**: the old one is freed once it has been copied. -/
theorem MonitorMemory.Kept.grow (h : x.Kept) : x.grow.Kept where
  ledger := by
    have hledger := (h.ledger.take (h.notMem (x.alloc * 2))).held_perm (List.Perm.swap x.array ⟨x.next, x.alloc * 2⟩ x.keys)
    have htaken : Ledger.Balanced x.freed ([x.array] ++ x.grow.array :: x.keys) x.grow.allocated := hledger
    exact htaken.release
  fresh := h.fresh_cons (x.alloc * 2)
  array := rfl
  keys := h.keys
  fits := h.fits.trans (by change x.alloc ≤ x.alloc * 2; omega)
  alloc := Nat.mul_pos h.alloc Nat.two_pos
  within := by
    have hfits := h.fits
    change (x.overrun || decide (x.alloc * 2 < x.functions.length)) = false
    rw [h.within, Bool.false_or, decide_eq_false_iff_not]
    omega

theorem MonitorMemory.Kept.touch (h : x.Kept) (hlt : x.functions.length < x.alloc) : x.touch.Kept where
  ledger := h.ledger
  fresh := h.fresh
  array := h.array
  keys := h.keys
  fits := h.fits
  alloc := h.alloc
  within := by
    change (x.overrun || decide (x.array.room ≤ x.functions.length)) = false
    rw [h.within, Bool.false_or, decide_eq_false_iff_not, h.array]
    omega

theorem MonitorMemory.Kept.add (h : x.Kept) (hlt : x.functions.length < x.alloc) (key : Key) (par : Measure b.bits) :
    (x.add key par).Kept where
  ledger := by
    refine (h.ledger.take (h.notMem key.length)).held_perm ?_
    exact (List.Perm.swap x.array ⟨x.next, key.length⟩ x.keys).trans ((List.perm_append_singleton _ x.keys).symm.cons x.array)
  fresh := h.fresh_cons key.length
  array := h.array
  keys := by
    change (x.keys ++ [_]).map SlabBlock.room = (x.functions ++ [_]).map _
    rw [List.map_append, List.map_append, h.keys]
    rfl
  fits := by
    change (x.functions ++ [_]).length ≤ x.alloc
    rw [List.length_append]
    exact hlt
  alloc := h.alloc
  within := h.within

theorem MonitorMemory.Kept.outOfMemory (h : x.Kept) : MonitorMemory.Kept { x with outOfMemory := true } :=
  ⟨h.ledger, h.fresh, h.array, h.keys, h.fits, h.alloc, h.within⟩

theorem MonitorMemory.Kept.mergeNew {seed : BitVec b.bits} {t : Table b (Measure b.bits)} {slab : Nat → SlabAlloc} :
    ∀ {fuel : Nat} {key : Option Key} {x y : MonitorMemory b}, x.Kept → x.mergeNew seed t slab fuel key = some y → y.Kept
  | 0, _, _, _, _, hy => absurd hy.symm (Option.some_ne_none _)
  | fuel + 1, key, x, y, h, hy => by
    rw [MonitorMemory.mergeNew] at hy
    split at hy
    · exact Option.some.inj hy ▸ h
    · cases hy
    · rename_i key par _
      dsimp only at hy
      by_cases hfull : x.functions.length = x.alloc
      · simp only [hfull, true_and, if_true] at hy
        split at hy
        · exact Option.some.inj hy ▸ h.outOfMemory
        · have hpos := h.alloc
          have hlt : x.grow.functions.length < x.grow.alloc := by
            change x.functions.length < x.alloc * 2
            omega
          split at hy
          · exact Option.some.inj hy ▸ (h.grow.touch hlt).outOfMemory
          · exact MonitorMemory.Kept.mergeNew ((h.grow.touch hlt).add hlt key par) hy
      · simp only [hfull, false_and, if_false] at hy
        have hlt : x.functions.length < x.alloc := lt_of_le_of_ne h.fits hfull
        split at hy
        · exact Option.some.inj hy ▸ (h.touch hlt).outOfMemory
        · exact MonitorMemory.Kept.mergeNew ((h.touch hlt).add hlt key par) hy

theorem mergeExisting_keys (seed : BitVec b.bits) (now : Int) : ∀ (functions : List (LwsFunction b.bits))
    (t : Table b (Measure b.bits)),
    (mergeExisting seed now functions t).1.map LwsFunction.key = functions.map LwsFunction.key
  | [], _ => rfl
  | f :: functions, t => by
    rw [mergeExisting]
    split
    · exact congrArg (f.key :: ·) (mergeExisting_keys seed now functions _)
    · exact congrArg (f.key :: ·) (mergeExisting_keys seed now functions _)

theorem MonitorMemory.Kept.step (h : x.Kept) {s : ProfileStep b} {y : MonitorMemory b} (hy : x.step s = some y) : y.Kept := by
  cases s with
  | clear =>
    obtain rfl := Option.some.inj hy
    refine ⟨?_, h.fresh, h.array, rfl, Nat.zero_le _, h.alloc, h.within⟩
    exact (h.ledger.held_perm (List.perm_append_singleton x.array x.keys).symm).release
  | merge p now slab =>
    have hkeys := mergeExisting_keys p.seed now x.functions p.table
    change x.stop p.seed now p.table slab = some y at hy
    unfold MonitorMemory.stop at hy
    generalize mergeExisting p.seed now x.functions p.table = r at hkeys hy
    obtain ⟨functions, t⟩ := r
    have hupdated : MonitorMemory.Kept { x with functions := functions } := by
      have hlength := congrArg List.length hkeys
      rw [List.length_map, List.length_map] at hlength
      refine ⟨h.ledger, h.fresh, h.array, h.keys.trans ?_, hlength.le.trans h.fits, h.alloc, h.within⟩
      have hlengths := congrArg (List.map List.length) hkeys
      rw [List.map_map, List.map_map] at hlengths
      exact hlengths.symm
    dsimp only at hy
    split at hy
    · exact Option.some.inj hy ▸ hupdated
    · exact hupdated.mergeNew hy

theorem MonitorMemory.Kept.run : ∀ {steps : List (ProfileStep b)} {x y : MonitorMemory b}, x.Kept → x.run steps = some y → y.Kept
  | [], _, _, h, hy => Option.some.inj hy ▸ h
  | s :: steps, x, y, h, hy => by
    rw [MonitorMemory.run, List.foldlM_cons] at hy
    obtain ⟨z, hz, hrun⟩ := Option.bind_eq_some_iff.1 hy
    exact MonitorMemory.Kept.run (h.step hz) hrun

end

theorem lwsInitMonitor_kept : (lwsInitMonitor b).Kept where
  ledger := Ledger.balanced_nil.take List.not_mem_nil
  fresh block hmem := by
    obtain rfl := List.mem_singleton.1 hmem
    exact Nat.zero_lt_one
  array := rfl
  keys := rfl
  fits := Nat.zero_le _
  alloc := Nat.zero_lt_succ 31
  within := rfl

/-- **The slab blocks of the functions are freed exactly once**: after any merges of recorded profiles and any clears, in any order,
and whichever slab allocations fail, the blocks that have not been freed are the array, with room for `functions_alloc` functions,
and one block for the key of each function, of its length, all different; every other block has been freed exactly once; nothing
was written beyond a block; and the functions are those of `Functions.run`. -/
theorem monitor_blocks_are_freed_once (steps : List (ProfileStep b)) (hsteps : ∀ s ∈ steps, s.Recorded) :
    ∃ x, (lwsInitMonitor b).run steps = some x ∧ Functions.run {} steps = some x.toFunctions ∧ x.overrun = false ∧
      x.array.room = x.alloc ∧ (x.keys.map SlabBlock.room = x.functions.map fun f => f.key.length) ∧ (x.array :: x.keys).Nodup ∧
      ∀ block, x.freed.count block = if block ∈ x.allocated ∧ block ∉ x.array :: x.keys then 1 else 0 := by
  obtain ⟨functions, hfunctions, -⟩ := Functions.run_spec steps hsteps
  have hrun := MonitorMemory.run_functions steps (lwsInitMonitor b)
  rw [show (lwsInitMonitor b).toFunctions = {} from rfl, hfunctions] at hrun
  obtain ⟨x, hx, rfl⟩ := Option.map_eq_some_iff.1 hrun
  have h := lwsInitMonitor_kept.run hx
  have hnodup := (List.nodup_append.1 (h.ledger.perm.nodup_iff.2 h.ledger.nodup)).2.1
  exact ⟨x, hx, hfunctions, h.within, h.array, h.keys, hnodup, h.ledger.count_freed_held⟩

/-- Two merges around a clear: the key of the first is freed, and the same function has another block. -/
theorem monitor_blocks_are_freed_once_cleared : ∃ p : Profile .b64, p.Recorded ∧
    ∃ x, (lwsInitMonitor .b64).run [.merge p 0 fun _ => {}, .clear, .merge p 0 fun _ => {}] = some x ∧
      x.freed = [⟨1, 1⟩] ∧ x.keys = [⟨2, 1⟩] ∧ x.freed.count ⟨2, 1⟩ = 0 ∧ x.freed.count ⟨1, 1⟩ = 1 := by
  let filled (t : Table .b64 (Measure 64)) : Profile .b64 :=
    ⟨7, (tableRun (b := .b64) 7 (tableConfigure t true true false) [.set [65] (some { calls := 2 }) 0 {}]).1⟩
  have hrun : (tableCreate .b64 (Measure 64) 32 true true).map (fun t =>
      decide (((lwsInitMonitor .b64).run [.merge (filled t) 0 fun _ => {}, .clear, .merge (filled t) 0 fun _ => {}]).map
        (fun x => (x.array, x.freed, x.keys, x.allocated)) =
          some (⟨0, 32⟩, [⟨1, 1⟩], [⟨2, 1⟩], [⟨2, 1⟩, ⟨1, 1⟩, ⟨0, 32⟩]))) = some true := by decide +kernel
  obtain ⟨t, ht, hd⟩ := Option.map_eq_some_iff.1 hrun
  have hkeys : ∀ c ∈ ([.set [65] (some { calls := 2 }) 0 {}] : List (TableCall (Measure 64))), c.Terminated := by
    simp [TableCall.Terminated, Terminated]
  have hp : (filled t).Recorded := ⟨t, _, ht, hkeys, rfl⟩
  refine ⟨filled t, hp, ?_⟩
  obtain ⟨x, hx, -, -, -, -, -, hcount⟩ := monitor_blocks_are_freed_once
    [.merge (filled t) 0 fun _ => {}, .clear, .merge (filled t) 0 fun _ => {}] (by
      rintro s (_ | ⟨_, _ | ⟨_, _ | ⟨_, hs⟩⟩⟩)
      · exact hp
      · trivial
      · exact hp
      · cases hs)
  have hx' := of_decide_eq_true hd
  rw [hx] at hx'
  obtain ⟨harray, hfreed, hkeys, hallocated⟩ : x.array = ⟨0, 32⟩ ∧ x.freed = [⟨1, 1⟩] ∧ x.keys = [⟨2, 1⟩] ∧
      x.allocated = [⟨2, 1⟩, ⟨1, 1⟩, ⟨0, 32⟩] := by simpa only [Option.map_some, Option.some.injEq, Prod.mk.injEq] using hx'
  refine ⟨x, hx, hfreed, hkeys, (hcount _).trans ?_, (hcount _).trans ?_⟩
  · rw [hallocated, harray, hkeys]
    decide
  · rw [hallocated, harray, hkeys]
    decide

end Lws

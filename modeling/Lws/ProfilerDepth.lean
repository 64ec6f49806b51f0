import Lws.ArrayStack
import Lws.ProfilerTimes
/-!
# ProfilerDepth — the counters of the profiler and its stack (`lws_profiler.c`)

`ProfilerMemory` is the profiler with `p->stack` as an array that is replaced by one of twice the size; a hook may end with an error
anywhere.  While the clock can be read, a depth says how often a record is on the stack, whatever events come: a hook pops and
counts down together, and pushes and counts up together, with no error between.
-/
namespace Lws

open ArrayStack (Stack)

variable {b : Build}

/-! ## The hook on memory -/

/-- `sizeof` of a pointer. -/
def Build.pointerSize : Build → Nat
  | .b64 => 8
  | .b32 => 4

/-- `ngx_alloc` for an array of pointers: how many there is room for.  An object has at most `PTRDIFF_MAX` bytes. -/
def allocPointers (b : Build) (succeeds : Bool) (size : BitVec b.bits) : Option Nat :=
  if succeeds ∧ size.toNat < 2 ^ (b.bits - 1) then some (size.toNat / b.pointerSize) else none

/-- `lws_profiler_t`; `stack` is the array at `p->stack`, with `p->stack_n`. -/
structure ProfilerMemory (b : Build) where
  functions : Table b Nat
  records : List (ActivationRecord b.bits) := []
  stack : Stack Nat
  stackAlloc : BitVec b.bits := 32

/-- "process function exit"; `none` is an access outside. -/
def ProfilerMemory.exit (p : ProfilerMemory b) (event : HookEvent) (time : Timespec) (memory : BitVec b.bits) :
    Option (ProfilerMemory b) :=
  if p.stack.n > 0 then
    match p.stack.read (p.stack.n - 1) with
    | none => none
    | some par =>
      match p.records[par]? with
      | none => none
      | some record => some { p with
          records := p.records.set par (record.exit event time memory)
          stack := if event.leaves then p.stack.pop else p.stack }
  else some p

/-- "get or create activation record"; `none` is an error. -/
def ProfilerMemory.getOrCreate (seed : BitVec b.bits) (p : ProfilerMemory b) (h : Hook) : ProfilerMemory b × Option Nat :=
  match Profiler.getOrCreate seed { functions := p.functions, records := p.records } h with
  | (q, par) => ({ p with functions := q.functions, records := q.records }, par)

def ProfilerMemory.growStack (p : ProfilerMemory b) (h : Hook) : Except HookEnd (ProfilerMemory b) :=
  if p.stack.n = p.stackAlloc.toNat then
    let stackAllocNew := p.stackAlloc * 2
    match allocPointers b h.grow (stackAllocNew * BitVec.ofNat b.bits b.pointerSize) with
    | none => .error .error
    | some size =>
      match p.stack.grow size with
      | none => .error .fault
      | some stack => .ok { p with stack := stack, stackAlloc := stackAllocNew }
  else .ok p

/-- "transition", of an event that enters a function: the record that is pushed, or how the hook ends before that. -/
def ProfilerMemory.push (seed : BitVec b.bits) (p : ProfilerMemory b) (h : Hook) :
    Except (ProfilerMemory b × HookEnd) (ProfilerMemory b × Nat) :=
  match p.getOrCreate seed h with
  | (p, none) => .error (p, .error)
  | (p, some par) =>
    match p.growStack h with
    | .error e => .error (p, e)
    | .ok p =>
      match p.stack.push par with
      | none => .error (p, .fault)
      | some stack => .ok ({ p with stack := stack }, par)

/-- "process function entry". -/
def ProfilerMemory.enter (p : ProfilerMemory b) (par : Nat) (h : Hook) : ProfilerMemory b × HookEnd :=
  match h.leave with
  | none => (p, .error)
  | some time =>
    match p.records[par]? with
    | none => (p, .fault)
    | some record => ({ p with records := p.records.set par (record.enter h.event time (h.memory b.bits)) }, .done)

/-- `lws_profiler_hook`. -/
def ProfilerMemory.hook (seed : BitVec b.bits) (p : ProfilerMemory b) (h : Hook) : ProfilerMemory b × HookEnd :=
  match h.enter with
  | none => (p, .error)
  | some time =>
    match p.exit h.event time (h.memory b.bits) with
    | none => (p, .fault)
    | some p =>
      if h.event.enters then
        match p.push seed h with
        | .error r => r
        | .ok (p, par) => p.enter par h
      else if p.stack.n > 0 then
        match p.stack.read (p.stack.n - 1) with
        | none => (p, .fault)
        | some par => p.enter par h
      else (p, .done)

def ProfilerMemory.pushed (seed : BitVec b.bits) (p : ProfilerMemory b) (h : Hook) : Option Nat :=
  match h.enter with
  | none => none
  | some time =>
    match p.exit h.event time (h.memory b.bits) with
    | none => none
    | some p =>
      if h.event.enters then
        match p.push seed h with
        | .error _ => none
        | .ok (_, par) => some par
      else none

def ProfilerMemory.after (seed : BitVec b.bits) (p : ProfilerMemory b) (hooks : List Hook) : ProfilerMemory b :=
  hooks.foldl (fun p h => (p.hook seed h).1) p

def ProfilerMemory.pushes (seed : BitVec b.bits) (p : ProfilerMemory b) : List Hook → List Nat
  | [] => []
  | h :: hooks => (p.pushed seed h).toList ++ (p.hook seed h).1.pushes seed hooks

/-- The profiler that `lws_start_profiler` makes. -/
def lwsStartProfilerMemory (b : Build) (table entries stack : Bool) : Option (ProfilerMemory b) :=
  match tableCreate b Nat 32 table entries with
  | none => none
  | some t =>
    match allocPointers b stack (32 * BitVec.ofNat b.bits b.pointerSize) with
    | none => none
    | some size => some { functions := tableConfigure t true true false, stack := ⟨List.replicate size none, 0⟩ }

/-! ## The hook on memory does what the hook does -/

/-- The profiler on memory, and the profiler with a list for its stack. -/
structure ProfilerMemory.Stores (m : ProfilerMemory b) (p : Profiler b) : Prop where
  functions : m.functions = p.functions
  records : m.records = p.records
  stack : m.stack.Holds p.stack
  size : m.stack.size = p.stackAlloc
  stackAlloc : m.stackAlloc.toNat = p.stackAlloc
  limit : p.stackAlloc * b.pointerSize < 2 ^ (b.bits - 1)

def Profiler.pushed (seed : BitVec b.bits) (p : Profiler b) (h : Hook) : Option Nat :=
  match h.enter with
  | none => none
  | some time =>
    match p.exit h.event time (h.memory b.bits) with
    | none => none
    | some p =>
      if h.event.enters then
        match p.getOrCreate seed h with
        | (_, none) => none
        | (p, some par) =>
          match p.growStack h with
          | none => none
          | some p => if p.stack.length < p.stackAlloc then some par else none
      else none

/-- The hook with another answer of the allocator to a larger stack. -/
def Hook.granted (h : Hook) (grow : Bool) : Hook := { h with grow := grow }

section
variable {seed : BitVec b.bits} {m : ProfilerMemory b} {p : Profiler b}

theorem lwsProfilerHook_granted (p : Profiler b) (h : Hook) (grow : Bool) : lwsProfilerHook seed p (h.granted grow) =
    match h.enter with
    | none => (p, .error)
    | some time =>
      match p.exit h.event time (h.memory b.bits) with
      | none => (p, .fault)
      | some p => if h.event.enters then p.push seed (h.granted grow) else p.enter h := rfl

theorem Profiler.push_granted (p : Profiler b) (h : Hook) (grow : Bool) : p.push seed (h.granted grow) =
    match p.getOrCreate seed h with
    | (p, none) => (p, .error)
    | (p, some par) =>
      match p.growStack (h.granted grow) with
      | none => (p, .error)
      | some p =>
        if p.stack.length < p.stackAlloc then Profiler.enter { p with stack := par :: p.stack } h else (p, .fault) := rfl

theorem Profiler.pushed_granted (p : Profiler b) (h : Hook) (grow : Bool) : p.pushed seed (h.granted grow) =
    match h.enter with
    | none => none
    | some time =>
      match p.exit h.event time (h.memory b.bits) with
      | none => none
      | some p =>
        if h.event.enters then
          match p.getOrCreate seed h with
          | (_, none) => none
          | (p, some par) =>
            match p.growStack (h.granted grow) with
            | none => none
            | some p => if p.stack.length < p.stackAlloc then some par else none
        else none := rfl

theorem ProfilerMemory.Stores.n_pos (hs : m.Stores p) : m.stack.n > 0 ↔ p.stack ≠ [] := by
  rw [hs.stack.n, gt_iff_lt, List.length_pos_iff]

theorem ProfilerMemory.Stores.exit_none (hs : m.Stores p) {event : HookEvent} {time : Timespec} {memory : BitVec b.bits}
    (h : p.exit event time memory = none) : m.exit event time memory = none := by
  obtain ⟨functions, records, stack, stackAlloc⟩ := m
  obtain ⟨functions', records', l, alloc⟩ := p
  obtain ⟨rfl, rfl, hstack, -, -, -⟩ := hs
  cases l with
  | nil => cases h
  | cons par l =>
    have hpos : stack.n > 0 := hstack.n ▸ Nat.succ_pos _
    simp only [Profiler.exit] at h
    split at h
    · rename_i hrecord
      simp only [ProfilerMemory.exit, if_pos hpos, hstack.top, hrecord]
    · cases h

theorem ProfilerMemory.Stores.exit (hs : m.Stores p) {event : HookEvent} {time : Timespec} {memory : BitVec b.bits}
    {p' : Profiler b} (h : p.exit event time memory = some p') : ∃ m', m.exit event time memory = some m' ∧ m'.Stores p' := by
  obtain ⟨functions, records, stack, stackAlloc⟩ := m
  obtain ⟨functions', records', l, alloc⟩ := p
  obtain ⟨rfl, rfl, hstack, hsize, halloc, hlimit⟩ := hs
  cases l with
  | nil =>
    cases h
    have hn : ¬stack.n > 0 := by
      rw [hstack.n]
      exact Nat.lt_irrefl 0
    exact ⟨_, if_neg hn, rfl, rfl, hstack, hsize, halloc, hlimit⟩
  | cons par l =>
    have hpos : stack.n > 0 := hstack.n ▸ Nat.succ_pos _
    simp only [Profiler.exit] at h
    split at h
    · cases h
    · rename_i record hrecord
      cases h
      simp only [ProfilerMemory.exit, if_pos hpos, hstack.top, hrecord]
      refine ⟨_, rfl, rfl, rfl, ?_, ?_, halloc, hlimit⟩
      · dsimp only
        split
        · exact hstack.pop
        · exact hstack
      · dsimp only
        split
        · exact hsize
        · exact hsize

theorem ProfilerMemory.Stores.getOrCreate (hs : m.Stores p) (seed : BitVec b.bits) (h : Hook) :
    (m.getOrCreate seed h).2 = (p.getOrCreate seed h).2 ∧ (m.getOrCreate seed h).1.Stores (p.getOrCreate seed h).1 := by
  obtain ⟨functions, records, stack, stackAlloc⟩ := m
  obtain ⟨functions', records', l, alloc⟩ := p
  obtain ⟨rfl, rfl, hstack, hsize, halloc, hlimit⟩ := hs
  unfold ProfilerMemory.getOrCreate Profiler.getOrCreate
  dsimp only
  split
  · exact ⟨rfl, rfl, rfl, hstack, hsize, halloc, hlimit⟩
  · split
    · exact ⟨rfl, rfl, rfl, hstack, hsize, halloc, hlimit⟩
    · split
      · exact ⟨rfl, rfl, rfl, hstack, hsize, halloc, hlimit⟩
      · exact ⟨rfl, rfl, rfl, hstack, hsize, halloc, hlimit⟩

/-- **The size of an array twice as large as an object does not overflow.** -/
theorem Build.double_bytes {n : BitVec b.bits} (hlimit : n.toNat * b.pointerSize < 2 ^ (b.bits - 1)) :
    (n * 2).toNat = n.toNat * 2 ∧ (n * 2 * BitVec.ofNat b.bits b.pointerSize).toNat = n.toNat * 2 * b.pointerSize := by
  cases b with
  | b64 =>
    have hlimit : n.toNat * 8 < 2 ^ 63 := hlimit
    have htwice : (n * 2).toNat = n.toNat * 2 := BitVec.toNat_mul_of_lt (show n.toNat * 2 < 2 ^ 64 by omega)
    refine ⟨htwice, ?_⟩
    rw [BitVec.toNat_mul, htwice]
    exact Nat.mod_eq_of_lt (show n.toNat * 2 * 8 < 2 ^ 64 by omega)
  | b32 =>
    have hlimit : n.toNat * 4 < 2 ^ 31 := hlimit
    have htwice : (n * 2).toNat = n.toNat * 2 := BitVec.toNat_mul_of_lt (show n.toNat * 2 < 2 ^ 32 by omega)
    refine ⟨htwice, ?_⟩
    rw [BitVec.toNat_mul, htwice]
    exact Nat.mod_eq_of_lt (show n.toNat * 2 * 4 < 2 ^ 32 by omega)

theorem Build.pointerSize_pos : 0 < b.pointerSize := by
  cases b with
  | b64 => exact Nat.zero_lt_succ 7
  | b32 => exact Nat.zero_lt_succ 3

theorem allocPointers_double {n : BitVec b.bits} (hlimit : n.toNat * b.pointerSize < 2 ^ (b.bits - 1)) {succeeds : Bool}
    {size : Nat} (h : allocPointers b succeeds (n * 2 * BitVec.ofNat b.bits b.pointerSize) = some size) :
    size = n.toNat * 2 ∧ n.toNat * 2 * b.pointerSize < 2 ^ (b.bits - 1) := by
  unfold allocPointers at h
  rw [(Build.double_bytes hlimit).2, Nat.mul_div_cancel _ Build.pointerSize_pos] at h
  split at h
  · rename_i hfits
    exact ⟨(Option.some.inj h).symm, hfits.2⟩
  · cases h

/-- **The stack grows in memory as it grows**, for some answer of the allocator. -/
theorem ProfilerMemory.Stores.growStack (hs : m.Stores p) (h : Hook) : ∃ grow,
    (p.growStack (h.granted grow) = none ∧ m.growStack h = .error .error) ∨
    ∃ p' m', p.growStack (h.granted grow) = some p' ∧ m.growStack h = .ok m' ∧ m'.Stores p' := by
  have hn := hs.stack.n
  have hsize := hs.size
  have halloc := hs.stackAlloc
  unfold Profiler.growStack ProfilerMemory.growStack Hook.granted
  dsimp only
  by_cases hfull : p.stack.length = p.stackAlloc
  · simp only [if_pos hfull, if_pos (show m.stack.n = m.stackAlloc.toNat by omega)]
    cases hnew : allocPointers b h.grow (m.stackAlloc * 2 * BitVec.ofNat b.bits b.pointerSize) with
    | none => exact ⟨false, .inl ⟨rfl, rfl⟩⟩
    | some size =>
      have hlimit := hs.limit
      rw [← halloc] at hlimit
      have halloc' := (Build.double_bytes hlimit).1
      obtain ⟨hdouble, hlimit'⟩ := allocPointers_double hlimit hnew
      obtain ⟨stack, hgrow, hstack, hlarger⟩ := hs.stack.grow (show m.stack.n ≤ size by omega)
      rw [halloc] at hdouble halloc' hlimit'
      refine ⟨true, .inr ⟨_, { m with stack := stack, stackAlloc := m.stackAlloc * 2 }, rfl, ?_, hs.functions, hs.records,
        hstack, hlarger.trans hdouble, halloc', hlimit'⟩⟩
      dsimp only
      rw [hgrow]
  · simp only [if_neg hfull, if_neg (show ¬m.stack.n = m.stackAlloc.toNat by omega)]
    exact ⟨true, .inr ⟨p, m, rfl, rfl, hs⟩⟩

theorem ProfilerMemory.Stores.enter (hs : m.Stores p) {par : Nat} {l : List Nat} (hl : p.stack = par :: l) (h : Hook) :
    (m.enter par h).2 = (p.enter h).2 ∧ (m.enter par h).1.Stores (p.enter h).1 := by
  unfold ProfilerMemory.enter Profiler.enter
  rw [hl]
  cases h.leave with
  | none => exact ⟨rfl, hs⟩
  | some time =>
    dsimp only
    rw [hs.records]
    cases p.records[par]? with
    | none => exact ⟨rfl, hs⟩
    | some record => exact ⟨rfl, hs.functions, rfl, hl ▸ hs.stack, hs.size, hs.stackAlloc, hs.limit⟩

/-- **The hook on memory does what the hook does**, for some answer of the allocator to a larger stack. -/
theorem ProfilerMemory.Stores.hook (hs : m.Stores p) (seed : BitVec b.bits) (h : Hook) : ∃ grow,
    (m.hook seed h).2 = (lwsProfilerHook seed p (h.granted grow)).2 ∧
      (m.hook seed h).1.Stores (lwsProfilerHook seed p (h.granted grow)).1 ∧
      m.pushed seed h = p.pushed seed (h.granted grow) := by
  simp only [lwsProfilerHook_granted, Profiler.pushed_granted]
  unfold ProfilerMemory.hook ProfilerMemory.pushed
  cases h.enter with
  | none => exact ⟨h.grow, rfl, hs, rfl⟩
  | some time =>
    dsimp only
    cases hexit : p.exit h.event time (h.memory b.bits) with
    | none =>
      rw [hs.exit_none hexit]
      exact ⟨h.grow, rfl, hs, rfl⟩
    | some p₁ =>
      obtain ⟨m₁, hexit', hs₁⟩ := hs.exit hexit
      rw [hexit']
      dsimp only
      by_cases henters : h.event.enters = true
      · simp only [if_pos henters, Profiler.push_granted]
        unfold ProfilerMemory.push
        obtain ⟨hpar, hs₂⟩ := hs₁.getOrCreate seed h
        generalize m₁.getOrCreate seed h = r at hpar hs₂
        generalize p₁.getOrCreate seed h = r' at hpar hs₂
        obtain ⟨m₂, par⟩ := r
        obtain ⟨p₂, par'⟩ := r'
        dsimp only at hpar hs₂
        subst hpar
        cases par with
        | none => exact ⟨h.grow, rfl, hs₂, rfl⟩
        | some par =>
          dsimp only
          obtain ⟨grow, ⟨hgrow, hgrow'⟩ | ⟨p₃, m₃, hgrow, hgrow', hs₃⟩⟩ := hs₂.growStack h
          · refine ⟨grow, ?_⟩
            rw [hgrow, hgrow']
            exact ⟨rfl, hs₂, rfl⟩
          · refine ⟨grow, ?_⟩
            rw [hgrow, hgrow']
            dsimp only
            have hn := hs₃.stack.n
            have hsize := hs₃.size
            by_cases hroom : p₃.stack.length < p₃.stackAlloc
            · obtain ⟨stack, hpush, hstack, hsame⟩ := hs₃.stack.push (by omega) par
              rw [hpush, if_pos hroom, if_pos hroom]
              have hs₄ : ProfilerMemory.Stores { m₃ with stack := stack } { p₃ with stack := par :: p₃.stack } :=
                ⟨hs₃.functions, hs₃.records, hstack, hsame.trans hsize, hs₃.stackAlloc, hs₃.limit⟩
              obtain ⟨hend, hs₅⟩ := hs₄.enter rfl h
              exact ⟨hend, hs₅, rfl⟩
            · rw [ArrayStack.Stack.push_full (by omega), if_neg hroom, if_neg hroom]
              exact ⟨rfl, hs₃, rfl⟩
      · simp only [if_neg henters]
        refine ⟨h.grow, ?_⟩
        by_cases hempty : p₁.stack = []
        · rw [if_neg (mt hs₁.n_pos.1 (not_not.2 hempty)), Profiler.enter, hempty]
          exact ⟨rfl, hs₁, trivial⟩
        · obtain ⟨par, l, hl⟩ := List.exists_cons_of_ne_nil hempty
          have hstack := hs₁.stack
          rw [hl] at hstack
          rw [if_pos (hs₁.n_pos.2 hempty), hstack.top]
          obtain ⟨hend, hs₂⟩ := hs₁.enter hl h
          exact ⟨hend, hs₂, trivial⟩

end

/-! ## A hook counts what it pushes and pops -/

/-- **The counters of a profiler and its stack**: a depth says how often a record is on the stack, and `calls` how often it has been
pushed; what the table and the stack hold are records. -/
structure Profiler.Counted (seed : BitVec b.bits) (p : Profiler b) (pushes : List Nat) : Prop where
  table : ∃ C, HoldsBy (tableHash seed) p.functions C ∧ ∀ e ∈ C, ∃ par < p.records.length, e.value = some par
  depth : ∀ par (record : ActivationRecord b.bits), p.records[par]? = some record → record.depth = p.stack.count par
  calls : ∀ par (record : ActivationRecord b.bits), p.records[par]? = some record →
    record.calls = BitVec.ofNat b.bits (pushes.count par)
  stack : ∀ par ∈ p.stack, par < p.records.length
  pushes : ∀ par ∈ pushes, par < p.records.length
  room : p.stack.length ≤ p.stackAlloc
  alloc : 0 < p.stackAlloc

section
variable {seed : BitVec b.bits} {p : Profiler b} {pushes : List Nat}

theorem ActivationRecord.exit_calls {w : Nat} (record : ActivationRecord w) (event : HookEvent) (time : Timespec)
    (memory : BitVec w) : (record.exit event time memory).calls = record.calls :=
  (congrArg Prod.fst (record.exit_totals event time memory)).trans (BitVec.add_zero record.calls)

theorem ActivationRecord.enter_calls {w : Nat} (record : ActivationRecord w) (event : HookEvent) (time : Timespec)
    (memory : BitVec w) : (record.enter event time memory).calls = record.calls + if event.enters then 1 else 0 :=
  congrArg Prod.fst (record.enter_totals event time memory)

/-- **A record is written, and the stack changed with it**: the other records are on the stack as often as before. -/
theorem Profiler.Counted.write (h : p.Counted seed pushes) {par : Nat} {record : ActivationRecord b.bits} {stack new : List Nat}
    (hpar : par < p.records.length) (hdepth : record.depth = stack.count par)
    (hcalls : record.calls = BitVec.ofNat b.bits ((pushes ++ new).count par))
    (hothers : ∀ q ≠ par, stack.count q = p.stack.count q ∧ new.count q = 0) (hstack : ∀ q ∈ stack, q < p.records.length)
    (hroom : stack.length ≤ p.stackAlloc) :
    Profiler.Counted seed { p with records := p.records.set par record, stack := stack } (pushes ++ new) := by
  have hlen : (p.records.set par record).length = p.records.length := List.length_set
  have hcases (q : Nat) (r : ActivationRecord b.bits) (hr : (p.records.set par record)[q]? = some r) :
      q = par ∧ r = record ∨ q ≠ par ∧ p.records[q]? = some r := by
    by_cases hq : q = par
    · subst hq
      rw [List.getElem?_set_self hpar] at hr
      exact .inl ⟨rfl, (Option.some.inj hr).symm⟩
    · rw [List.getElem?_set_ne (Ne.symm hq)] at hr
      exact .inr ⟨hq, hr⟩
  refine ⟨?_, fun q r hr => ?_, fun q r hr => ?_, ?_, fun q hq => ?_, hroom, h.alloc⟩
  · dsimp only
    rw [hlen]
    exact h.table
  · rcases hcases q r hr with ⟨rfl, rfl⟩ | ⟨hne, hr⟩
    · exact hdepth
    · dsimp only
      rw [(hothers q hne).1]
      exact h.depth q r hr
  · rcases hcases q r hr with ⟨rfl, rfl⟩ | ⟨hne, hr⟩
    · exact hcalls
    · rw [List.count_append, (hothers q hne).2, Nat.add_zero]
      exact h.calls q r hr
  · dsimp only
    rw [hlen]
    exact hstack
  · dsimp only
    rw [hlen]
    rcases List.mem_append.1 hq with hm | hm
    · exact h.pushes q hm
    · by_cases hne : q = par
      · exact hne ▸ hpar
      · exact absurd (hothers q hne).2 (Nat.pos_iff_ne_zero.1 (List.count_pos_iff.2 hm))

theorem Profiler.Counted.exit (h : p.Counted seed pushes) (event : HookEvent) (time : Timespec) (memory : BitVec b.bits) :
    ∃ p', p.exit event time memory = some p' ∧ p'.Counted seed pushes := by
  unfold Profiler.exit
  cases hl : p.stack with
  | nil => exact ⟨p, rfl, h⟩
  | cons par l =>
    have hpar : par < p.records.length := h.stack par (by rw [hl]; exact List.mem_cons_self)
    have hrecord := List.getElem?_eq_getElem hpar
    have hdepth := h.depth par _ hrecord
    have hcalls := h.calls par _ hrecord
    rw [hl, List.count_cons_self] at hdepth
    have hroom := h.room
    rw [hl, List.length_cons] at hroom
    dsimp only
    rw [hrecord]
    refine ⟨_, rfl, ?_⟩
    rw [← List.append_nil pushes]
    refine h.write hpar ?_ ?_ (fun q hq => ⟨?_, rfl⟩) (fun q hq => ?_) ?_
    · rw [ActivationRecord.exit_depth, hdepth]
      split
      · omega
      · rw [List.count_cons_self]
    · rw [ActivationRecord.exit_calls, hcalls, List.append_nil]
    · rw [hl, List.count_cons_of_ne (Ne.symm hq)]
      split
      · rfl
      · rw [List.count_cons_of_ne (Ne.symm hq)]
    · refine h.stack q ?_
      rw [hl]
      split at hq
      · exact List.mem_cons_of_mem _ hq
      · exact hq
    · split
      · omega
      · exact hroom

theorem Table.SetsTo.value {V : Type} {hash : Bool → Key → BitVec b.bits} {t : Table b V} {C C' : List (Entry b V)} {key : Key}
    {now : Int} {value : V} {rc : Int} (h : t.SetsTo hash C key now (some value) rc C') {e : Entry b V} (he : e ∈ C') :
    (∃ e' ∈ C, e.value = e'.value) ∨ rc = 0 ∧ e.value = some value := by
  have hevicted := t.evicted_sublist C
  cases h with
  | @update i C₁ C₂ value hfind hC =>
    subst hC
    have hcases : e ∈ C₁ ++ C₂ ∨ e = t.updated value now (t.entries i) := by
      split at he
      · simpa only [List.mem_append, List.mem_singleton] using he
      · simp only [List.mem_append, List.mem_cons] at he ⊢
        tauto
    rcases hcases with hm | rfl
    · exact .inl ⟨e, (List.Sublist.append_left (List.sublist_cons_self _ C₂) C₁).subset hm, rfl⟩
    · exact .inr ⟨rfl, rfl⟩
  | insert e' value hfind =>
    rcases List.mem_append.1 he with hm | hm
    · exact .inl ⟨e, hevicted.subset hm, rfl⟩
    · rw [List.mem_singleton.1 hm]
      exact .inr ⟨rfl, rfl⟩
  | fail value hfind => exact .inl ⟨e, hevicted.subset he, rfl⟩

theorem Profiler.Counted.withTable (h : p.Counted seed pushes) {functions : Table b Nat} {C : List (Entry b Nat)}
    (hC : HoldsBy (tableHash seed) functions C) (hvalues : ∀ e ∈ C, ∃ par < p.records.length, e.value = some par) :
    Profiler.Counted seed { p with functions := functions } pushes :=
  ⟨⟨C, hC, hvalues⟩, h.depth, h.calls, h.stack, h.pushes, h.room, h.alloc⟩

theorem Profiler.Counted.create (h : p.Counted seed pushes) :
    Profiler.Counted seed { p with records := p.records ++ [{}] } pushes := by
  have hlen : (p.records ++ [({} : ActivationRecord b.bits)]).length = p.records.length + 1 := List.length_append
  have hold (q : Nat) (r : ActivationRecord b.bits) (hr : (p.records ++ [({} : ActivationRecord b.bits)])[q]? = some r) :
      p.records[q]? = some r ∨ q = p.records.length ∧ r = ({} : ActivationRecord b.bits) := by
    rcases Nat.lt_or_ge q p.records.length with hlt | hge
    · rw [List.getElem?_append_left hlt] at hr
      exact .inl hr
    · rw [List.getElem?_append_right hge, List.getElem?_singleton] at hr
      split at hr
      · exact .inr ⟨by omega, (Option.some.inj hr).symm⟩
      · cases hr
  have hfresh {l : List Nat} (hl : ∀ q ∈ l, q < p.records.length) : l.count p.records.length = 0 :=
    List.count_eq_zero.2 fun hm => Nat.lt_irrefl _ (hl _ hm)
  have hmore {q : Nat} (hq : q < p.records.length) : q < (p.records ++ [({} : ActivationRecord b.bits)]).length := by
    rw [hlen]
    exact Nat.lt_succ_of_lt hq
  refine ⟨?_, fun q r hr => ?_, fun q r hr => ?_, fun q hq => hmore (h.stack q hq), fun q hq => hmore (h.pushes q hq), h.room,
    h.alloc⟩
  · obtain ⟨C, hC, hvalues⟩ := h.table
    refine ⟨C, hC, fun e he => ?_⟩
    obtain ⟨par, hlt, hpar⟩ := hvalues e he
    exact ⟨par, hmore hlt, hpar⟩
  · rcases hold q r hr with hr | ⟨rfl, rfl⟩
    · exact h.depth q r hr
    · dsimp only
      rw [hfresh h.stack]
      rfl
  · rcases hold q r hr with hr | ⟨rfl, rfl⟩
    · exact h.calls q r hr
    · rw [hfresh h.pushes]
      rfl

/-- **The record of a key is found or created**; where that fails, only the table may have changed. -/
theorem Profiler.Counted.getOrCreate (h : p.Counted seed pushes) (hook : Hook) :
    (p.getOrCreate seed hook).1.Counted seed pushes ∧
      ∀ par, (p.getOrCreate seed hook).2 = some par → par < (p.getOrCreate seed hook).1.records.length := by
  obtain ⟨C, hC, hvalues⟩ := h.table
  obtain ⟨C', hC', -, hperm⟩ := hC.get (functionKey hook.info) hook.now
  have hvalue (v : Nat) (hv : (tableGet seed p.functions (functionKey hook.info) hook.now).2 = some v) :
      ∃ e ∈ C, e.value = some v := hC.get_value hv
  rw [← tableGet_eq] at hC'
  unfold Profiler.getOrCreate
  generalize tableGet seed p.functions (functionKey hook.info) hook.now = g at hC' hvalue
  obtain ⟨functions, found⟩ := g
  dsimp only at hC'
  have hvalues' : ∀ e ∈ C', ∃ par < p.records.length, e.value = some par := fun e he => hvalues e (hperm.symm.subset he)
  cases found with
  | some par =>
    refine ⟨h.withTable hC' hvalues', fun par' hpar => ?_⟩
    obtain ⟨e, he, hev⟩ := hvalue par rfl
    obtain ⟨par₁, hlt, hpar₁⟩ := hvalues e he
    cases hpar
    cases hev.symm.trans hpar₁
    exact hlt
  | none =>
    dsimp only
    split
    · exact ⟨h.withTable hC' hvalues', fun par hpar => nomatch hpar⟩
    · obtain ⟨C'', hC'', -, hset⟩ := hC'.set_any (tableHash_hashesKeys seed) (functionKey hook.info) (some p.records.length)
        hook.now hook.set
      rw [← tableSet_eq] at hC'' hset
      split
      · rename_i hfailed
        refine ⟨h.withTable hC'' fun e he => ?_, fun par hpar => nomatch hpar⟩
        rcases hset.value he with ⟨e', he', hev⟩ | ⟨hrc, -⟩
        · rw [hev]
          exact hvalues' e' he'
        · exact absurd hrc hfailed
      · have hnew : p.records.length < (p.records ++ [({} : ActivationRecord b.bits)]).length := by
          rw [List.length_append]
          exact Nat.lt_succ_self _
        refine ⟨h.create.withTable hC'' fun e he => ?_, fun par hpar => ?_⟩
        · rcases hset.value he with ⟨e', he', hev⟩ | ⟨-, hev⟩
          · obtain ⟨par, hlt, hpar⟩ := hvalues' e' he'
            exact ⟨par, Nat.lt_trans hlt hnew, hev.trans hpar⟩
          · exact ⟨p.records.length, hnew, hev⟩
        · cases hpar
          exact hnew

theorem Profiler.Counted.growStack (h : p.Counted seed pushes) {hook : Hook} {p' : Profiler b}
    (hgrow : p.growStack hook = some p') :
    p'.Counted seed pushes ∧ p'.records = p.records ∧ p'.stack.length < p'.stackAlloc := by
  have hroom := h.room
  have halloc := h.alloc
  unfold Profiler.growStack at hgrow
  split at hgrow
  · split at hgrow
    · cases hgrow
      have hlarger : p.stack.length < p.stackAlloc * 2 := by omega
      exact ⟨⟨h.table, h.depth, h.calls, h.stack, h.pushes, Nat.le_of_lt hlarger, Nat.mul_pos halloc Nat.zero_lt_two⟩, rfl,
        hlarger⟩
    · cases hgrow
  · cases hgrow
    exact ⟨h, rfl, by omega⟩

theorem Profiler.Counted.push (h : p.Counted seed pushes) {par : Nat} (hpar : par < p.records.length)
    (hroom : p.stack.length < p.stackAlloc) {hook : Hook} (henters : hook.event.enters = true) (hleave : hook.leave.isSome = true) :
    ∃ p', Profiler.enter { p with stack := par :: p.stack } hook = (p', .done) ∧ p'.Counted seed (pushes ++ [par]) := by
  obtain ⟨time, htime⟩ := Option.isSome_iff_exists.1 hleave
  have hrecord := List.getElem?_eq_getElem hpar
  unfold Profiler.enter
  rw [htime]
  dsimp only
  rw [hrecord]
  refine ⟨_, rfl, h.write hpar ?_ ?_ (fun q hq => ⟨?_, ?_⟩) (fun q hq => ?_) hroom⟩
  · rw [ActivationRecord.enter_depth, if_pos henters, h.depth par _ hrecord, List.count_cons_self]
    exact (Int.natCast_succ _).symm
  · rw [ActivationRecord.enter_calls, if_pos henters, h.calls par _ hrecord, List.count_append, List.count_singleton_self]
    exact (BitVec.ofNat_add _ _).symm
  · exact List.count_cons_of_ne (Ne.symm hq)
  · rw [List.count_singleton, if_neg (by simpa using Ne.symm hq)]
  · rcases List.mem_cons.1 hq with rfl | hm
    · exact hpar
    · exact h.stack q hm

theorem Profiler.Counted.return (h : p.Counted seed pushes) {hook : Hook} (henters : hook.event.enters = false)
    (hleave : hook.leave.isSome = true) : ∃ p', p.enter hook = (p', .done) ∧ p'.Counted seed pushes := by
  obtain ⟨time, htime⟩ := Option.isSome_iff_exists.1 hleave
  unfold Profiler.enter
  cases hl : p.stack with
  | nil => exact ⟨p, rfl, h⟩
  | cons par l =>
    have hpar : par < p.records.length := h.stack par (by rw [hl]; exact List.mem_cons_self)
    have hrecord := List.getElem?_eq_getElem hpar
    rw [htime]
    dsimp only
    rw [hrecord, ← hl, ← List.append_nil pushes]
    refine ⟨_, rfl, h.write hpar ?_ ?_ (fun q hq => ⟨rfl, rfl⟩) h.stack h.room⟩
    · rw [ActivationRecord.enter_depth, henters, if_neg Bool.false_ne_true, h.depth par _ hrecord]
    · rw [ActivationRecord.enter_calls, henters, if_neg Bool.false_ne_true, h.calls par _ hrecord, List.append_nil]
      exact BitVec.add_zero _

/-- A hook that can read the clock; its allocations may fail. -/
structure Hook.Clocked (h : Hook) : Prop where
  enter : h.enter.isSome = true
  leave : h.leave.isSome = true

theorem Hook.Clocked.granted {h : Hook} (hclock : h.Clocked) (grow : Bool) : (h.granted grow).Clocked :=
  ⟨hclock.enter, hclock.leave⟩

/-- **A hook counts what it pushes and pops**, also where it ends with an error. -/
theorem Profiler.Counted.hook (h : p.Counted seed pushes) {hook : Hook} (hclock : hook.Clocked) :
    (lwsProfilerHook seed p hook).1.Counted seed (pushes ++ (p.pushed seed hook).toList) ∧
      (lwsProfilerHook seed p hook).2 ≠ .fault := by
  obtain ⟨time, htime⟩ := Option.isSome_iff_exists.1 hclock.enter
  unfold lwsProfilerHook Profiler.pushed
  rw [htime]
  obtain ⟨p₁, hexit, h₁⟩ := h.exit hook.event time (hook.memory b.bits)
  dsimp only
  rw [hexit]
  dsimp only
  cases henters : hook.event.enters with
  | false =>
    obtain ⟨p₂, henter, h₂⟩ := h₁.return henters hclock.leave
    rw [if_neg Bool.false_ne_true, if_neg Bool.false_ne_true, henter]
    exact ⟨(List.append_nil pushes).symm ▸ h₂, HookEnd.noConfusion⟩
  | true =>
    rw [if_pos rfl, if_pos rfl]
    unfold Profiler.push
    obtain ⟨h₂, hpar⟩ := h₁.getOrCreate hook
    generalize p₁.getOrCreate seed hook = r at h₂ hpar
    obtain ⟨p₂, found⟩ := r
    cases found with
    | none => exact ⟨(List.append_nil pushes).symm ▸ h₂, HookEnd.noConfusion⟩
    | some par =>
      dsimp only
      cases hgrow : p₂.growStack hook with
      | none => exact ⟨(List.append_nil pushes).symm ▸ h₂, HookEnd.noConfusion⟩
      | some p₃ =>
        obtain ⟨h₃, hrecords, hroom⟩ := h₂.growStack hgrow
        obtain ⟨p₄, henter, h₄⟩ := h₃.push (hrecords ▸ hpar par rfl) hroom henters hclock.leave
        dsimp only
        rw [if_pos hroom, if_pos hroom, henter]
        exact ⟨h₄, HookEnd.noConfusion⟩

end

/-! ## Runs -/

/-- The profiler on memory counts what has been pushed. -/
def ProfilerMemory.Counted (seed : BitVec b.bits) (m : ProfilerMemory b) (pushes : List Nat) : Prop :=
  ∃ p, m.Stores p ∧ p.Counted seed pushes

section
variable {seed : BitVec b.bits} {m : ProfilerMemory b} {pushes : List Nat}

theorem ProfilerMemory.Counted.hook (h : m.Counted seed pushes) {hook : Hook} (hclock : hook.Clocked) :
    (m.hook seed hook).1.Counted seed (pushes ++ (m.pushed seed hook).toList) ∧ (m.hook seed hook).2 ≠ .fault := by
  obtain ⟨p, hs, hp⟩ := h
  obtain ⟨grow, hend, hs', hpushed⟩ := hs.hook seed hook
  obtain ⟨hp', hfault⟩ := hp.hook (hclock.granted grow)
  rw [hend, hpushed]
  exact ⟨⟨_, hs', hp'⟩, hfault⟩

theorem ProfilerMemory.Counted.after : ∀ (hooks : List Hook) {m : ProfilerMemory b} {pushes : List Nat}, m.Counted seed pushes →
    (∀ hook ∈ hooks, hook.Clocked) → (m.after seed hooks).Counted seed (pushes ++ m.pushes seed hooks)
  | [], _, pushes, h, _ => (List.append_nil pushes).symm ▸ h
  | hook :: hooks, m, pushes, h, hclock => by
    have hrest := ProfilerMemory.Counted.after hooks (h.hook (hclock hook List.mem_cons_self)).1 fun hook' hh =>
      hclock hook' (List.mem_cons_of_mem _ hh)
    rw [List.append_assoc] at hrest
    exact hrest

theorem allocPointers_start {succeeds : Bool} {size : Nat}
    (h : allocPointers b succeeds (32 * BitVec.ofNat b.bits b.pointerSize) = some size) : size = 32 := by
  unfold allocPointers at h
  split at h
  · cases b with
    | b64 => exact (Option.some.inj h).symm
    | b32 => exact (Option.some.inj h).symm
  · cases h

theorem counted_start (seed : BitVec b.bits) {table entries stack : Bool}
    (h : lwsStartProfilerMemory b table entries stack = some m) : m.Counted seed [] := by
  unfold lwsStartProfilerMemory at h
  split at h
  · cases h
  · rename_i t ht
    split at h
    · cases h
    · rename_i size hsize
      cases h
      obtain ⟨⟨⟨C, hH, hagree⟩, -, -⟩, -⟩ := refines_create seed ht true true false
      have hC : C = [] := List.length_eq_zero_iff.1 hagree.length
      subst hC
      rw [allocPointers_start hsize]
      refine ⟨{ functions := tableConfigure t true true false }, ⟨rfl, rfl, ArrayStack.holds_new 32, rfl, ?_, ?_⟩,
        ⟨[], hH.by, fun e he => (nomatch he)⟩, fun par record hr => (nomatch hr), fun par record hr => (nomatch hr),
        fun par hpar => (nomatch hpar), fun par hpar => (nomatch hpar), Nat.zero_le 32, Nat.zero_lt_succ 31⟩
      · cases b with
        | b64 => rfl
        | b32 => rfl
      · cases b with
        | b64 => exact (by decide : 32 * 8 < 2 ^ 63)
        | b32 => exact (by decide : 32 * 4 < 2 ^ 31)

/-- **The depth counters match the stack**: a depth is how often the record is among the cells in use, and an `ngx_uint_t`; what is
pushed are records, and `calls` counts the pushes; the array has `stack_alloc` cells, those in use are among them, and each has a
record that is active. -/
structure ProfilerMemory.DepthsMatch (m : ProfilerMemory b) (pushes : List Nat) : Prop where
  depth : ∀ par (record : ActivationRecord b.bits), m.records[par]? = some record →
    record.depth = (m.stack.cells.take m.stack.n).count (some par) ∧ record.depth < 2 ^ b.bits
  calls : ∀ par (record : ActivationRecord b.bits), m.records[par]? = some record →
    record.calls = BitVec.ofNat b.bits (pushes.count par)
  pushed : ∀ par ∈ pushes, par < m.records.length
  room : m.stack.n ≤ m.stackAlloc.toNat
  array : m.stack.size = m.stackAlloc.toNat
  active : ∀ i < m.stack.n, ∃ par, ∃ record : ActivationRecord b.bits,
    m.stack.read i = some par ∧ m.records[par]? = some record ∧ record.depth > 0

theorem ProfilerMemory.Counted.depthsMatch (h : m.Counted seed pushes) : m.DepthsMatch pushes := by
  obtain ⟨p, hs, hp⟩ := h
  have hsize : m.stack.size = m.stackAlloc.toNat := hs.size.trans hs.stackAlloc.symm
  have hroom : m.stack.n ≤ m.stackAlloc.toNat := hsize ▸ hs.stack.le
  have hcount (par : Nat) : (m.stack.cells.take m.stack.n).count (some par) = p.stack.count par := by
    rw [hs.stack.cells, List.count_reverse, List.count_map_of_injective p.stack some (Option.some_injective Nat)]
  have hdepth (par : Nat) (record : ActivationRecord b.bits) (hr : m.records[par]? = some record) :
      record.depth = p.stack.count par := hp.depth par record (hs.records ▸ hr)
  refine ⟨fun par record hr => ⟨?_, ?_⟩, fun par record hr => hp.calls par record (hs.records ▸ hr),
    fun par hpar => hs.records ▸ hp.pushes par hpar, hroom, hsize, fun i hi => ?_⟩
  · rw [hcount, hdepth par record hr]
  · have hlen : p.stack.count par ≤ m.stack.n := hs.stack.n ▸ List.count_le_length
    have hlt := m.stackAlloc.isLt
    rw [hdepth par record hr]
    exact_mod_cast Nat.lt_of_le_of_lt (Nat.le_trans hlen hroom) hlt
  · obtain ⟨par, hpar, hread⟩ := hs.stack.read hi
    have hlt : par < m.records.length := hs.records ▸ hp.stack par hpar
    refine ⟨par, m.records[par], hread, List.getElem?_eq_getElem hlt, ?_⟩
    rw [hdepth par _ (List.getElem?_eq_getElem hlt)]
    exact_mod_cast List.count_pos_iff.2 hpar

/-- **The depth counters match the stack after any events**, and no hook then goes outside the stack or the records. -/
theorem depth_counts_occurrences (seed : BitVec b.bits) {table entries stack : Bool}
    (hstart : lwsStartProfilerMemory b table entries stack = some m) (hooks : List Hook)
    (hclock : ∀ hook ∈ hooks, hook.Clocked) :
    (m.after seed hooks).DepthsMatch (m.pushes seed hooks) ∧
      ∀ hook : Hook, hook.Clocked → ((m.after seed hooks).hook seed hook).2 ≠ .fault := by
  have h := (counted_start seed hstart).after hooks hclock
  rw [List.nil_append] at h
  exact ⟨h.depthsMatch, fun hook hh => (h.hook hh).2⟩

/-- A return without a call, a recursive call, a tail call that has no memory for a record after it has left, and a call. -/
theorem depth_counts_occurrences_error : ∃ p, lwsStartProfilerMemory .b64 true true true = some p ∧
    (p.after 7 [
      { event := .ret },
      { event := .call, info := { name := some [102] } },
      { event := .call, info := { name := some [102] } },
      { event := .tailCall, info := { name := some [103] }, record := false },
      { event := .call, info := { name := some [104] } }]).DepthsMatch [0, 0, 1] := by
  have hpushes : (lwsStartProfilerMemory .b64 true true true).map (fun p => p.pushes 7 [
      { event := .ret },
      { event := .call, info := { name := some [102] } },
      { event := .call, info := { name := some [102] } },
      { event := .tailCall, info := { name := some [103] }, record := false },
      { event := .call, info := { name := some [104] } }]) = some [0, 0, 1] := by decide +kernel
  obtain ⟨p, hp, hpushes⟩ := Option.map_eq_some_iff.1 hpushes
  refine ⟨p, hp, ?_⟩
  rw [← hpushes]
  refine (depth_counts_occurrences 7 hp _ ?_).1
  intro hook hhook
  fin_cases hhook <;> exact ⟨rfl, rfl⟩

end

end Lws

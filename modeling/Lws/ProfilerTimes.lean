import Lws.Profiler
/-!
# ProfilerTimes — what the profiler measures

A run of hooks has a stack of frames after each hook.  Between two hooks the time and the memory go to the key of the innermost
frame; a frame that leaves has run from its entry on, and counts in the total time where no frame below it has its key.
`measure_is_exact` says that the records of the profiler are these sums.
-/
namespace Lws

/-! ## Frames, intervals, activations -/

/-- An active frame: its key, and the clock at the end of the hook that entered it. -/
structure Frame where
  key : Key
  entered : Timespec

def Hook.frames (frames : List Frame) (h : Hook) : List Frame :=
  match h.event with
  | .call => ⟨h.key, h.ended⟩ :: frames
  | .ret => frames.tail
  | .tailCall => ⟨h.key, h.ended⟩ :: frames.tail

/-- What lies between the end of one hook and the start of the next: the frames, the time, and by how much the memory grew. -/
structure Interval where
  frames : List Frame
  time : Int
  growth : Nat

def Interval.within (i : Interval) (key : Key) : Bool := i.frames.head?.map Frame.key = some key

def intervalsFrom (w : Nat) (frames : List Frame) (last : Hook) : List Hook → List Interval
  | [] => []
  | h :: hooks =>
    ⟨frames, h.started.nanos - last.ended.nanos, (h.memory w).toNat - (last.memory w).toNat⟩ ::
      intervalsFrom w (h.frames frames) h hooks

def intervals (w : Nat) : List Hook → List Interval
  | [] => []
  | h :: hooks => intervalsFrom w (h.frames []) h hooks

/-- An activation that is over: its frame, the frames below it, and the clock at the start of the hook that left it. -/
structure Activation where
  frame : Frame
  below : List Frame
  left : Timespec

def Activation.time (a : Activation) : Int := a.left.nanos - a.frame.entered.nanos

/-- An activation of the key, with no frame of the same key below it. -/
def Activation.outermost (a : Activation) (key : Key) : Bool := a.frame.key = key && !(a.below.map Frame.key).contains key

/-- The activation that a hook ends: a return or a tail call ends the innermost. -/
def Hook.completes (frames : List Frame) (h : Hook) : List Activation :=
  match frames with
  | [] => []
  | frame :: below => if h.event.leaves then [⟨frame, below, h.started⟩] else []

def activations (frames : List Frame) : List Hook → List Activation
  | [] => []
  | h :: hooks => h.completes frames ++ activations (h.frames frames) hooks

def selfTime (key : Key) (is : List Interval) : Int := ((is.filter fun i => i.within key).map Interval.time).sum

def memoryGrowth (key : Key) (is : List Interval) : Nat := ((is.filter fun i => i.within key).map Interval.growth).sum

def totalTime (key : Key) (as : List Activation) : Int := ((as.filter fun a => a.outermost key).map Activation.time).sum

/-! ## What a hook adds to a record -/

section
variable {w : Nat}

theorem lwsAddMemoryDelta_eq (base start stop : BitVec w) :
    lwsAddMemoryDelta base start stop = base + BitVec.ofNat w (stop.toNat - start.toNat) := by
  unfold lwsAddMemoryDelta
  split
  · rename_i h
    have hlt : start.toNat < stop.toNat := h
    congr 1
    apply BitVec.eq_of_toNat_eq
    rw [BitVec.toNat_sub_of_le (Nat.le_of_lt hlt), BitVec.toNat_ofNat, Nat.mod_eq_of_lt]
    omega
  · rename_i h
    have hle : stop.toNat ≤ start.toNat := Nat.le_of_not_lt h
    rw [Nat.sub_eq_zero_of_le hle]
    exact (BitVec.add_zero base).symm

section
variable (par : ActivationRecord w) (event : HookEvent) (time : Timespec) (memory : BitVec w)

theorem ActivationRecord.exit_depth : (par.exit event time memory).depth = if event.leaves then par.depth - 1 else par.depth := by
  unfold ActivationRecord.exit
  dsimp only
  split
  · split <;> rfl
  · rfl

theorem ActivationRecord.exit_timeTotalStart : (par.exit event time memory).timeTotalStart = par.timeTotalStart := by
  unfold ActivationRecord.exit
  dsimp only
  split
  · split <;> rfl
  · rfl

theorem ActivationRecord.exit_totals : (par.exit event time memory).totals = par.totals +
    (0, BitVec.ofNat w (memory.toNat - par.memoryStart.toNat), time.nanos - par.timeSelfStart.nanos,
      if event.leaves ∧ par.depth = 1 then time.nanos - par.timeTotalStart.nanos else 0) := by
  have hdepth : par.depth - 1 = 0 ↔ par.depth = 1 := by omega
  unfold ActivationRecord.exit
  dsimp only
  cases event.leaves with
  | true =>
    simp only [if_true, hdepth, true_and]
    by_cases h : par.depth = 1
    · simp only [h, if_true, Measure.totals, lwsAddTimespecDelta_nanos, lwsAddMemoryDelta_eq, Prod.mk_add_mk, add_zero]
    · simp only [h, if_false, Measure.totals, lwsAddTimespecDelta_nanos, lwsAddMemoryDelta_eq, Prod.mk_add_mk, add_zero]
  | false =>
    simp only [Bool.false_eq_true, if_false, false_and, Measure.totals, lwsAddTimespecDelta_nanos, lwsAddMemoryDelta_eq,
      Prod.mk_add_mk, add_zero]

theorem ActivationRecord.enter_depth : (par.enter event time memory).depth = if event.enters then par.depth + 1 else par.depth := by
  unfold ActivationRecord.enter
  dsimp only
  split
  · split <;> rfl
  · rfl

theorem ActivationRecord.enter_starts :
    (par.enter event time memory).timeSelfStart = time ∧ (par.enter event time memory).memoryStart = memory := by
  unfold ActivationRecord.enter
  dsimp only
  split
  · split <;> exact ⟨rfl, rfl⟩
  · exact ⟨rfl, rfl⟩

theorem ActivationRecord.enter_timeTotalStart : (par.enter event time memory).timeTotalStart =
    if event.enters ∧ par.depth = 0 then time else par.timeTotalStart := by
  unfold ActivationRecord.enter
  dsimp only
  cases event.enters with
  | true =>
    simp only [if_true, true_and]
    split <;> rfl
  | false => rfl

theorem ActivationRecord.enter_totals : (par.enter event time memory).totals =
    par.totals + (if event.enters then 1 else 0, 0, 0, 0) := by
  unfold ActivationRecord.enter
  dsimp only
  cases event.enters with
  | true =>
    simp only [if_true]
    split <;> simp only [Measure.totals, Prod.mk_add_mk, add_zero]
  | false => simp only [Bool.false_eq_true, if_false, Measure.totals, Prod.mk_add_mk, add_zero]

end

/-! ## What a hook adds to a profiler -/

/-- The records count the frames of their keys, and know when the outermost of them was entered. -/
structure Active (k : KeyProfiler w) (frames : List Frame) : Prop where
  stack : k.stack = frames.map Frame.key
  depth : ∀ key, (k.recs key).depth = ((frames.map Frame.key).count key : Nat)
  entered : ∀ inner frame outer, frames = inner ++ frame :: outer → frame.key ∉ outer.map Frame.key →
    (k.recs frame.key).timeTotalStart = frame.entered

/-- The record of the innermost frame knows the end of the last hook. -/
structure Timed (k : KeyProfiler w) (frames : List Frame) (last : Hook) : Prop extends Active k frames where
  resumed : ∀ frame ∈ frames.head?, (k.recs frame.key).timeSelfStart = last.ended ∧
    (k.recs frame.key).memoryStart = last.memory w

variable {k : KeyProfiler w} {frames : List Frame}

theorem Active.exit (h : Active k frames) (event : HookEvent) (time : Timespec) (memory : BitVec w) :
    Active (k.exit event time memory) (if event.leaves then frames.tail else frames) := by
  cases frames with
  | nil =>
    rw [KeyProfiler.exit_nil h.stack, List.tail_nil, ite_self]
    exact h
  | cons top rest =>
    have hrecs := KeyProfiler.exit_recs (show k.stack = top.key :: rest.map Frame.key from h.stack) event time memory
    rw [List.tail_cons]
    refine ⟨?_, fun key => ?_, fun inner frame outer hsplit hout => ?_⟩
    · rw [KeyProfiler.exit_stack, h.stack]
      split <;> rfl
    · have hkey := h.depth key
      rw [List.map_cons, List.count_cons] at hkey
      rw [hrecs]
      by_cases hne : key = top.key
      · subst hne
        rw [if_pos (beq_self_eq_true _)] at hkey
        rw [Function.update_self, ActivationRecord.exit_depth, hkey]
        split
        · omega
        · rw [List.map_cons, List.count_cons_self]
      · rw [if_neg (by simpa using Ne.symm hne), Nat.add_zero] at hkey
        rw [Function.update_of_ne hne, hkey]
        split
        · rfl
        · rw [List.map_cons, List.count_cons_of_ne (Ne.symm hne)]
    · have hstart : (k.recs frame.key).timeTotalStart = frame.entered := by
        split at hsplit
        · exact h.entered (top :: inner) frame outer (congrArg (top :: ·) hsplit) hout
        · exact h.entered inner frame outer hsplit hout
      rw [hrecs]
      by_cases hne : frame.key = top.key
      · rw [hne, Function.update_self, ActivationRecord.exit_timeTotalStart, ← hne]
        exact hstart
      · rw [Function.update_of_ne hne]
        exact hstart

theorem Active.resume (h : Active k frames) {hook : Hook} (hevent : hook.event.enters = false) :
    Timed (k.enter hook.event hook.ended (hook.memory w)) frames hook := by
  cases frames with
  | nil =>
    rw [KeyProfiler.enter_nil h.stack]
    exact ⟨h, fun _ hf => (nomatch hf)⟩
  | cons top rest =>
    have hrecs := KeyProfiler.enter_recs (show k.stack = top.key :: rest.map Frame.key from h.stack) hook.event hook.ended
      (hook.memory w)
    have hkept (key : Key) : ((k.enter hook.event hook.ended (hook.memory w)).recs key).depth = (k.recs key).depth ∧
        ((k.enter hook.event hook.ended (hook.memory w)).recs key).timeTotalStart = (k.recs key).timeTotalStart := by
      rw [hrecs]
      by_cases hne : key = top.key
      · subst hne
        rw [Function.update_self, ActivationRecord.enter_depth, ActivationRecord.enter_timeTotalStart, hevent]
        exact ⟨rfl, if_neg fun hboth => Bool.false_ne_true hboth.1⟩
      · rw [Function.update_of_ne hne]
        exact ⟨rfl, rfl⟩
    refine ⟨⟨?_, fun key => ?_, fun inner frame outer hsplit hout => ?_⟩, fun frame hframe => ?_⟩
    · rw [KeyProfiler.enter_stack, h.stack]
    · exact (hkept key).1.trans (h.depth key)
    · exact (hkept frame.key).2.trans (h.entered inner frame outer hsplit hout)
    · obtain rfl : top = frame := Option.some.inj hframe
      rw [hrecs, Function.update_self]
      exact ActivationRecord.enter_starts _ _ _ _

theorem Active.start (h : Active k frames) {hook : Hook} (hevent : hook.event.enters = true) :
    Timed ((k.push hook).enter hook.event hook.ended (hook.memory w)) (⟨hook.key, hook.ended⟩ :: frames) hook := by
  have hpush : k.push hook = ⟨k.recs, hook.key :: k.stack⟩ := if_pos hevent
  have hrecs := @KeyProfiler.enter_recs w (k.push hook) hook.key k.stack (by rw [hpush]) hook.event hook.ended (hook.memory w)
  have hsame : (k.push hook).recs = k.recs := by rw [hpush]
  rw [hsame] at hrecs
  refine ⟨⟨?_, fun key => ?_, fun inner frame outer hsplit hout => ?_⟩, fun frame hframe => ?_⟩
  · rw [KeyProfiler.enter_stack, hpush, List.map_cons, h.stack]
  · rw [hrecs, List.map_cons, List.count_cons]
    by_cases hne : key = hook.key
    · subst hne
      rw [Function.update_self, ActivationRecord.enter_depth, if_pos hevent, h.depth, if_pos (beq_self_eq_true _),
        Nat.cast_succ]
    · rw [Function.update_of_ne hne, if_neg (by simpa using Ne.symm hne), h.depth, Nat.add_zero]
  · rw [hrecs]
    cases inner with
    | nil =>
      -- the new frame is the outermost of its key
      obtain ⟨rfl, rfl⟩ := List.cons.inj hsplit
      have hzero : (k.recs hook.key).depth = 0 := by rw [h.depth, List.count_eq_zero.2 hout, Nat.cast_zero]
      rw [Function.update_self, ActivationRecord.enter_timeTotalStart, if_pos ⟨hevent, hzero⟩]
    | cons first inner =>
      obtain ⟨rfl, hrest⟩ := List.cons.inj hsplit
      have hstart := h.entered inner frame outer hrest hout
      by_cases hne : frame.key = hook.key
      · have hmem : hook.key ∈ frames.map Frame.key := by
          rw [← hne, hrest]
          exact List.mem_map_of_mem (List.mem_append_right _ List.mem_cons_self)
        have hpos : ¬ (k.recs hook.key).depth = 0 := by
          have := List.count_pos_iff.2 hmem
          rw [h.depth]
          omega
        rw [hne, Function.update_self, ActivationRecord.enter_timeTotalStart, if_neg fun hboth => hpos hboth.2, ← hne]
        exact hstart
      · rw [Function.update_of_ne hne]
        exact hstart
  · obtain rfl : ⟨hook.key, hook.ended⟩ = frame := Option.some.inj hframe
    rw [hrecs, Function.update_self]
    exact ActivationRecord.enter_starts _ _ _ _

theorem Hook.frames_eq (frames : List Frame) (hook : Hook) : hook.frames frames =
    if hook.event.enters then ⟨hook.key, hook.ended⟩ :: (if hook.event.leaves then frames.tail else frames)
    else if hook.event.leaves then frames.tail else frames := by
  unfold Hook.frames
  cases hook.event <;> rfl

/-- **One hook** keeps the relation of the records to the frames. -/
theorem Active.hook (h : Active k frames) (hook : Hook) : Timed (k.hook hook) (hook.frames frames) hook := by
  have hexit := h.exit hook.event hook.started (hook.memory w)
  rw [KeyProfiler.hook, Hook.frames_eq]
  cases hevent : hook.event.enters with
  | true => exact hexit.start hevent
  | false =>
    have hpush (k : KeyProfiler w) : k.push hook = k := if_neg (by rw [hevent]; exact Bool.false_ne_true)
    rw [hpush]
    exact hexit.resume hevent

theorem selfTime_cons (key : Key) (i : Interval) (is : List Interval) :
    selfTime key (i :: is) = (if i.within key then i.time else 0) + selfTime key is := by
  unfold selfTime
  rw [List.filter_cons]
  split
  · rw [List.map_cons, List.sum_cons]
  · rw [zero_add]

theorem memoryGrowth_cons (key : Key) (i : Interval) (is : List Interval) :
    memoryGrowth key (i :: is) = (if i.within key then i.growth else 0) + memoryGrowth key is := by
  unfold memoryGrowth
  rw [List.filter_cons]
  split
  · rw [List.map_cons, List.sum_cons]
  · rw [zero_add]

theorem totalTime_append (key : Key) (as as' : List Activation) :
    totalTime key (as ++ as') = totalTime key as + totalTime key as' := by
  rw [totalTime, List.filter_append, List.map_append, List.sum_append]
  rfl

theorem Active.outermost_time {top : Frame} {rest : List Frame} (h : Active k (top :: rest)) (hook : Hook) :
    (if hook.event.leaves ∧ (k.recs top.key).depth = 1 then hook.started.nanos - (k.recs top.key).timeTotalStart.nanos else 0) =
      totalTime top.key (hook.completes (top :: rest)) := by
  have hdepth : (k.recs top.key).depth = 1 ↔ top.key ∉ rest.map Frame.key := by
    rw [h.depth, List.map_cons, List.count_cons_self, ← List.count_eq_zero]
    omega
  rw [Hook.completes, totalTime]
  by_cases hout : top.key ∉ rest.map Frame.key
  · have houter (left : Timespec) : (⟨top, rest, left⟩ : Activation).outermost top.key = true := by
      simp [Activation.outermost, List.contains_eq_mem, hout]
    rw [h.entered [] top rest rfl hout]
    cases hook.event.leaves with
    | true =>
      rw [if_pos rfl, if_pos ⟨rfl, hdepth.2 hout⟩, List.filter_cons, if_pos (houter _)]
      exact (add_zero _).symm
    | false => rfl
  · have hinner (left : Timespec) : (⟨top, rest, left⟩ : Activation).outermost top.key = false := by
      simp [Activation.outermost, List.contains_eq_mem, Classical.not_not.1 hout]
    rw [if_neg fun hboth => hout (hdepth.1 hboth.2)]
    split
    · rw [List.filter_cons, hinner]
      rfl
    · rfl

theorem Timed.exit_totals {last : Hook} (h : Timed k frames last) (hook : Hook) (key : Key) :
    ((k.exit hook.event hook.started (hook.memory w)).recs key).totals = (k.recs key).totals +
      (0, BitVec.ofNat w (if frames.head?.map Frame.key = some key then (hook.memory w).toNat - (last.memory w).toNat else 0),
        if frames.head?.map Frame.key = some key then hook.started.nanos - last.ended.nanos else 0,
        totalTime key (hook.completes frames)) := by
  cases frames with
  | nil =>
    rw [KeyProfiler.exit_nil h.stack]
    exact (add_zero _).symm
  | cons top rest =>
    rw [KeyProfiler.exit_recs (show k.stack = top.key :: rest.map Frame.key from h.stack)]
    obtain ⟨hself, hmemory⟩ := h.resumed top rfl
    by_cases hkey : key = top.key
    · subst hkey
      rw [Function.update_self, ActivationRecord.exit_totals, hself, hmemory, h.outermost_time, List.head?_cons, Option.map_some,
        if_pos rfl, if_pos rfl]
    · have hother : totalTime key (hook.completes (top :: rest)) = 0 := by
        rw [Hook.completes, totalTime]
        split
        · rw [List.filter_cons, Activation.outermost, decide_eq_false (Ne.symm hkey)]
          rfl
        · rfl
      have hne : ¬ (top :: rest).head?.map Frame.key = some key := fun he => hkey (Option.some.inj he).symm
      rw [Function.update_of_ne hkey, hother, if_neg hne, if_neg hne]
      exact (add_zero _).symm

theorem KeyProfiler.enter_totals (k : KeyProfiler w) (hook : Hook) (key : Key) :
    (((k.push hook).enter hook.event hook.ended (hook.memory w)).recs key).totals = (k.recs key).totals +
      (BitVec.ofNat w ((calledKeys [hook]).count key), 0, 0, 0) := by
  cases hevent : hook.event.enters with
  | true =>
    have hpush : k.push hook = ⟨k.recs, hook.key :: k.stack⟩ := if_pos hevent
    have hcalled : calledKeys [hook] = [hook.key] := by
      rw [calledKeys, List.filter_cons, if_pos hevent]
      rfl
    rw [KeyProfiler.enter_recs (show (k.push hook).stack = hook.key :: k.stack by rw [hpush]), hpush, hcalled]
    dsimp only
    by_cases hkey : key = hook.key
    · subst hkey
      rw [Function.update_self, ActivationRecord.enter_totals, if_pos hevent, List.count_singleton_self]
      rfl
    · rw [Function.update_of_ne hkey, List.count_eq_zero.2 fun hmem => hkey (List.mem_singleton.1 hmem)]
      exact (add_zero _).symm
  | false =>
    have hpush : k.push hook = k := if_neg (by rw [hevent]; exact Bool.false_ne_true)
    have hcalled : calledKeys [hook] = [] := by
      rw [calledKeys, List.filter_cons, if_neg (by rw [hevent]; exact Bool.false_ne_true)]
      rfl
    rw [hpush, hcalled]
    cases hs : k.stack with
    | nil =>
      rw [KeyProfiler.enter_nil hs]
      exact (add_zero _).symm
    | cons top stack =>
      rw [KeyProfiler.enter_recs hs]
      by_cases hkey : key = top
      · subst hkey
        rw [Function.update_self, ActivationRecord.enter_totals, hevent]
        rfl
      · rw [Function.update_of_ne hkey]
        exact (add_zero _).symm

/-- **One hook** adds its call, the interval before it, and the activation that it ends. -/
theorem Timed.hook_totals {last : Hook} (h : Timed k frames last) (hook : Hook) (key : Key) :
    ((k.hook hook).recs key).totals = (k.recs key).totals +
      (BitVec.ofNat w ((calledKeys [hook]).count key),
        BitVec.ofNat w (if frames.head?.map Frame.key = some key then (hook.memory w).toNat - (last.memory w).toNat else 0),
        if frames.head?.map Frame.key = some key then hook.started.nanos - last.ended.nanos else 0,
        totalTime key (hook.completes frames)) := by
  rw [KeyProfiler.hook, KeyProfiler.enter_totals, h.exit_totals, add_assoc]
  simp only [Prod.mk_add_mk, zero_add, add_zero]

/-- **A run** adds its calls, its intervals and its activations. -/
theorem Timed.run_totals (key : Key) : ∀ (hooks : List Hook) {k : KeyProfiler w} {frames : List Frame} {last : Hook},
    Timed k frames last → ((hooks.foldl KeyProfiler.hook k).recs key).totals = (k.recs key).totals +
      (BitVec.ofNat w ((calledKeys hooks).count key), BitVec.ofNat w (memoryGrowth key (intervalsFrom w frames last hooks)),
        selfTime key (intervalsFrom w frames last hooks), totalTime key (activations frames hooks))
  | [], k, _, _, _ => (add_zero _).symm
  | hook :: hooks, k, frames, last, h => by
    have hcalled : (calledKeys (hook :: hooks)).count key = (calledKeys [hook]).count key + (calledKeys hooks).count key := by
      rw [← List.count_append, calledKeys, calledKeys, calledKeys, ← List.map_append, ← List.filter_append,
        List.singleton_append]
    rw [List.foldl_cons, Timed.run_totals key hooks (h.toActive.hook hook), h.hook_totals, intervalsFrom, activations,
      selfTime_cons, memoryGrowth_cons, totalTime_append, hcalled, BitVec.ofNat_add, BitVec.ofNat_add, add_assoc]
    simp only [Prod.mk_add_mk, Interval.within, decide_eq_true_eq]

end

/-! ## From the start -/

theorem active_start {w : Nat} : Active ({} : KeyProfiler w) [] :=
  ⟨rfl, fun _ => rfl, fun inner _ _ hsplit => by cases inner <;> cases hsplit⟩

theorem run_totals {w : Nat} (key : Key) (hooks : List Hook) :
    ((hooks.foldl KeyProfiler.hook ({} : KeyProfiler w)).recs key).totals =
      (BitVec.ofNat w ((calledKeys hooks).count key), BitVec.ofNat w (memoryGrowth key (intervals w hooks)),
        selfTime key (intervals w hooks), totalTime key (activations [] hooks)) := by
  cases hooks with
  | nil => rfl
  | cons hook hooks =>
    have hstart : Timed ({} : KeyProfiler w) [] hook := ⟨active_start, fun _ hf => (nomatch hf)⟩
    have hrun := Timed.run_totals key (hook :: hooks) hstart
    rw [intervalsFrom, selfTime_cons, memoryGrowth_cons] at hrun
    have hwithin (time : Int) (growth : Nat) : (⟨[], time, growth⟩ : Interval).within key = false := rfl
    rw [hwithin, if_neg Bool.false_ne_true, if_neg Bool.false_ne_true, Nat.zero_add, zero_add] at hrun
    exact hrun.trans (zero_add _)

variable {b : Build}

/-- **The profiler measures what it says**: for any run of calls, tail calls and returns from the start of the profiler, whatever
the keys, and while the clock, the allocations and the table succeed, no hook raises an error, and for every key the calls are
those of functions of the key, the memory is the growth between hooks within the key, the self time is the time between hooks
within the key, and the total time is that of the outermost activations of the key. -/
theorem measure_is_exact (seed : BitVec b.bits) {table entries stack : Bool} {p : Profiler b}
    (hstart : lwsStartProfiler b table entries stack = some p) (hooks : List Hook) (hok : ∀ hook ∈ hooks, hook.Succeeds)
    (hfit : (calledKeys hooks).dedup.length ≤ maxLoad b) :
    ∃ p', p.run seed hooks = some p' ∧ ∀ key, p'.totals seed key =
      (BitVec.ofNat b.bits ((calledKeys hooks).count key), BitVec.ofNat b.bits (memoryGrowth key (intervals b.bits hooks)),
        selfTime key (intervals b.bits hooks), totalTime key (activations [] hooks)) := by
  obtain ⟨p', keys, hrun, h⟩ := @profiled_run b seed p _ _ _ hstart hooks hok hfit
  exact ⟨p', hrun, fun key => (h.totals key).trans (run_totals key hooks)⟩

/-- An unmatched return, then a function that calls itself, and then another in a tail call: three intervals are in the first,
and its outer activation ends at the tail call. -/
theorem measure_is_exact_recursion : ∃ p, lwsStartProfiler .b64 true true true = some p ∧
    (p.run 7 [
      { event := .ret, leave := some ⟨0, 3⟩ },
      { event := .call, info := { name := some [102] }, enter := some ⟨0, 10⟩, leave := some ⟨0, 13⟩, gcCountB := 100 },
      { event := .call, info := { name := some [102] }, enter := some ⟨0, 20⟩, leave := some ⟨0, 23⟩, gcCountB := 300 },
      { event := .ret, enter := some ⟨0, 30⟩, leave := some ⟨0, 33⟩, gcCountB := 250 },
      { event := .tailCall, info := { name := some [103] }, enter := some ⟨0, 40⟩, leave := some ⟨0, 43⟩, gcCountB := 260 },
      { event := .ret, enter := some ⟨0, 50⟩, leave := some ⟨0, 53⟩, gcCountB := 300 }]).map
      (fun p' => (p'.totals 7 (literal ": f"), p'.totals 7 (literal ": g"))) = some ((2, 210, 21, 27), (1, 40, 7, 7)) := by
  obtain ⟨p, hp⟩ := Option.isSome_iff_exists.1
    (show (lwsStartProfiler .b64 true true true).isSome = true by decide +kernel)
  refine ⟨p, hp, ?_⟩
  obtain ⟨p', hrun, htotals⟩ := measure_is_exact (b := .b64) 7 hp [
    { event := .ret, leave := some ⟨0, 3⟩ },
    { event := .call, info := { name := some [102] }, enter := some ⟨0, 10⟩, leave := some ⟨0, 13⟩, gcCountB := 100 },
    { event := .call, info := { name := some [102] }, enter := some ⟨0, 20⟩, leave := some ⟨0, 23⟩, gcCountB := 300 },
    { event := .ret, enter := some ⟨0, 30⟩, leave := some ⟨0, 33⟩, gcCountB := 250 },
    { event := .tailCall, info := { name := some [103] }, enter := some ⟨0, 40⟩, leave := some ⟨0, 43⟩, gcCountB := 260 },
    { event := .ret, enter := some ⟨0, 50⟩, leave := some ⟨0, 53⟩, gcCountB := 300 }]
    (by
      intro hook hhook
      fin_cases hhook <;> exact ⟨rfl, rfl, rfl, rfl, rfl⟩)
    (by decide +kernel)
  rw [hrun, Option.map_some, htotals, htotals]
  decide +kernel

end Lws

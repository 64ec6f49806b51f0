import Lws.ProfilerTimes
/-!
# ProfilerStack — the stack of the profiler against that of Lua

The hook sees calls and returns.  An error that `pcall` catches unwinds frames that do not return, so that their records stay on
the stack of the profiler (`stack_follows_iff`).  Under Lua 5.1 a tail call is a call, and each frame that tail calls replaced
has a `LUA_HOOKTAILRET` of its own after the return, which the hook takes for a tail call (`stack_returns_iff`).
-/
namespace Lws

variable {b : Build}

/-! ## The stack of a run -/

def stackAfter (stack : List Key) (hooks : List Hook) : List Key := hooks.foldl Hook.stack stack

theorem stackAfter_append (stack : List Key) (hooks hooks' : List Hook) :
    stackAfter stack (hooks ++ hooks') = stackAfter (stackAfter stack hooks) hooks' := List.foldl_append

theorem hooks_stack {w : Nat} (hooks : List Hook) : ∀ k : KeyProfiler w,
    (hooks.foldl KeyProfiler.hook k).stack = stackAfter k.stack hooks := by
  induction hooks with
  | nil => exact fun k => rfl
  | cons hook hooks ih =>
    intro k
    rw [List.foldl_cons, ih, k.hook_stack]
    rfl

section
variable {seed : BitVec b.bits} {p : Profiler b} {keys : List Key} {k : KeyProfiler b.bits}

theorem Profiled.stack_places (h : Profiled seed p keys k) : p.stack = k.stack.map keys.idxOf := by
  have hplace (par : Nat) (key : Key) (hpar : keys[par]? = some key) : par = keys.idxOf key := by
    obtain ⟨hlt, rfl⟩ := List.getElem?_eq_some_iff.1 hpar
    exact (h.nodup.idxOf_getElem par hlt).symm
  have hstack := h.stack
  generalize p.stack = stack, k.stack = stack' at hstack
  induction hstack with
  | nil => rfl
  | cons hpar _ ih => rw [List.map_cons, ← ih, ← hplace _ _ hpar]

theorem Profiled.stack_mem (h : Profiled seed p keys k) : ∀ key ∈ k.stack, key ∈ keys := by
  have hstack := h.stack
  generalize p.stack = stack, k.stack = stack' at hstack
  induction hstack with
  | nil => exact fun key hkey => (nomatch hkey)
  | cons hpar _ ih =>
    intro key hkey
    rcases List.mem_cons.1 hkey with rfl | hkey
    · exact List.mem_of_getElem? hpar
    · exact ih key hkey

end

/-! ## Caught errors -/

/-- A step of Lua code: an event, or an error that `pcall` catches.  The error unwinds the frames above that of `pcall` without
an event, and then `pcall` returns. -/
inductive LuaStep where
  | event (hook : Hook)
  | caught (unwound : Nat) (hook : Hook)

def LuaStep.hook : LuaStep → Hook
  | .event hook => hook
  | .caught _ hook => { hook with event := .ret }

/-- The keys of the active frames of Lua after a step, the innermost first; `none` where there is no frame of `pcall`. -/
def LuaStep.active (frames : List Key) : LuaStep → Option (List Key)
  | .event hook => some (hook.stack frames)
  | .caught unwound _ => if unwound < frames.length then some (frames.drop (unwound + 1)) else none

def luaRun (steps : List LuaStep) : Option (List Key) := steps.foldlM LuaStep.active []

/-- The stack of the profiler lists the keys of the frames: each pointer is that of the record of its key. -/
def Profiler.Lists (seed : BitVec b.bits) (p : Profiler b) (frames : List Key) : Prop :=
  p.stack.map some = frames.map fun key => (tableGet seed p.functions key 0).2

/-- After every step of a run, no error was raised and the stack of the profiler lists the active frames of Lua. -/
def Profiler.Follows (seed : BitVec b.bits) (p : Profiler b) (steps : List LuaStep) : Prop :=
  ∀ done, done <+: steps → ∀ frames, luaRun done = some frames →
    ∃ p', p.run seed (done.map LuaStep.hook) = some p' ∧ p'.Lists seed frames

theorem luaRun_concat (steps : List LuaStep) (step : LuaStep) :
    luaRun (steps ++ [step]) = (luaRun steps).bind fun frames => step.active frames := by
  rw [luaRun, List.foldlM_append]
  simp only [List.foldlM_cons, List.foldlM_nil, Option.bind_eq_bind, Option.pure_def, Option.bind_fun_some]
  rfl

theorem luaRun_initial {steps done : List LuaStep} (hdone : done <+: steps) (h : (luaRun steps).isSome = true) :
    (luaRun done).isSome = true := by
  obtain ⟨rest, rfl⟩ := hdone
  induction rest using List.reverseRecOn with
  | nil => rwa [List.append_nil] at h
  | append_singleton rest step ih =>
    apply ih
    rw [← List.append_assoc, luaRun_concat] at h
    obtain ⟨frames, hframes⟩ := Option.isSome_iff_exists.1 h
    obtain ⟨frames', hframes', -⟩ := Option.bind_eq_some_iff.1 hframes
    rw [hframes']
    rfl

theorem stack_follows {steps : List LuaStep} (h : ∀ unwound hook, .caught unwound hook ∈ steps → unwound = 0)
    {frames : List Key} (hrun : luaRun steps = some frames) : stackAfter [] (steps.map LuaStep.hook) = frames := by
  induction steps using List.reverseRecOn generalizing frames with
  | nil => exact Option.some.inj hrun
  | append_singleton steps step ih =>
    rw [luaRun_concat] at hrun
    obtain ⟨frames', hframes', hactive⟩ := Option.bind_eq_some_iff.1 hrun
    have hbefore := ih (fun unwound hook hmem => h unwound hook (List.mem_append_left _ hmem)) hframes'
    rw [List.map_append, stackAfter_append, hbefore]
    cases step with
    | event hook => exact Option.some.inj hactive
    | caught unwound hook =>
      obtain rfl := h unwound hook (List.mem_append_right _ List.mem_cons_self)
      rw [LuaStep.active] at hactive
      split at hactive
      · rw [← Option.some.inj hactive, Nat.zero_add, List.drop_one]
        rfl
      · cases hactive

section
variable {seed : BitVec b.bits} {p : Profiler b}

theorem Profiled.lists_length {p' : Profiler b} {keys : List Key} {k : KeyProfiler b.bits} (h : Profiled seed p' keys k)
    {frames : List Key} (hlists : p'.Lists seed frames) : k.stack.length = frames.length := by
  have hlen := congrArg List.length hlists
  rw [List.length_map, List.length_map] at hlen
  rw [← h.stack.length_eq, hlen]

/-- **The stack follows that of Lua exactly where caught errors unwind nothing**: for any run of calls, tail calls, returns and
caught errors from the start of the profiler, while the clock, the allocations and the table succeed. -/
theorem stack_follows_iff {table entries stack : Bool} (hstart : lwsStartProfiler b table entries stack = some p)
    (steps : List LuaStep) (hvalid : (luaRun steps).isSome = true) (hok : ∀ step ∈ steps, step.hook.Succeeds)
    (hfit : (calledKeys (steps.map LuaStep.hook)).dedup.length ≤ maxLoad b) :
    p.Follows seed steps ↔ ∀ unwound hook, .caught unwound hook ∈ steps → unwound = 0 := by
  have hrun {done : List LuaStep} (hdone : done <+: steps) : ∃ p' keys, p.run seed (done.map LuaStep.hook) = some p' ∧
      Profiled seed p' keys ((done.map LuaStep.hook).foldl KeyProfiler.hook {}) := by
    obtain ⟨rest, rfl⟩ := hdone
    refine profiled_run hstart ?_ (Nat.le_trans ?_ hfit)
    · intro hook hhook
      obtain ⟨step, hstep, rfl⟩ := List.mem_map.1 hhook
      exact hok step (List.mem_append_left _ hstep)
    · have hsub : calledKeys (done.map LuaStep.hook) ⊆ calledKeys ((done ++ rest).map LuaStep.hook) := by
        rw [calledKeys, calledKeys, List.map_append, List.filter_append, List.map_append]
        exact List.subset_append_left _ _
      exact (List.subperm_of_subset (List.nodup_dedup _) fun key hkey =>
        List.mem_dedup.2 (hsub (List.mem_dedup.1 hkey))).length_le
  constructor
  · intro hfollows unwound hook hmem
    obtain ⟨done, rest, hsplit⟩ := List.append_of_mem hmem
    have hbefore : done <+: steps := ⟨_, hsplit.symm⟩
    have hafter : done ++ [.caught unwound hook] <+: steps := ⟨rest, by rw [hsplit, List.append_assoc]; rfl⟩
    obtain ⟨frames, hframes⟩ := Option.isSome_iff_exists.1 (luaRun_initial hbefore hvalid)
    obtain ⟨frames', hframes'⟩ := Option.isSome_iff_exists.1 (luaRun_initial hafter hvalid)
    have hactive : LuaStep.active frames (.caught unwound hook) = some frames' := by
      rw [luaRun_concat, hframes] at hframes'
      exact hframes'
    rw [LuaStep.active] at hactive
    split at hactive
    · rename_i hlt
      -- one record is popped, and `unwound + 1` frames are
      have hlen {done : List LuaStep} (hdone : done <+: steps) {frames : List Key} (hframes : luaRun done = some frames) :
          (stackAfter [] (done.map LuaStep.hook)).length = frames.length := by
        obtain ⟨p', keys, hp', hprofiled⟩ := hrun hdone
        obtain ⟨p'', hp'', hlists⟩ := hfollows done hdone frames hframes
        obtain rfl : p' = p'' := Option.some.inj (hp'.symm.trans hp'')
        rw [← hprofiled.lists_length hlists, hooks_stack]
      have h₁ := hlen hbefore hframes
      have h₂ := hlen hafter hframes'
      rw [List.map_append, stackAfter_append, ← Option.some.inj hactive, List.length_drop] at h₂
      have hpop (stack : List Key) : stackAfter stack ([LuaStep.caught unwound hook].map LuaStep.hook) = stack.tail := rfl
      rw [hpop, List.length_tail, h₁] at h₂
      omega
    · cases hactive
  · intro hzero done hdone frames hframes
    obtain ⟨p', keys, hp', hprofiled⟩ := hrun hdone
    refine ⟨p', hp', ?_⟩
    have hstack := stack_follows (fun unwound hook hmem => hzero unwound hook (hdone.subset hmem)) hframes
    have hlists := hprofiled.stack_eq
    rw [hooks_stack, hstack] at hlists
    exact hlists

end

/-- A `pcall` whose function cannot be called unwinds nothing. -/
theorem stack_follows_iff_uncallable : ∃ p, lwsStartProfiler .b64 true true true = some p ∧ p.Follows 7 [
    .event { event := .call, info := { name := some [102] } },
    .event { event := .call, info := { name := some [112] } },
    .caught 0 { event := .ret }] := by
  obtain ⟨p, hp⟩ := Option.isSome_iff_exists.1
    (show (lwsStartProfiler .b64 true true true).isSome = true by decide +kernel)
  refine ⟨p, hp, (stack_follows_iff (b := .b64) hp _ rfl ?_ (by decide +kernel)).2 ?_⟩
  · intro step hstep
    fin_cases hstep <;> exact ⟨rfl, rfl, rfl, rfl, rfl⟩
  · intro unwound hook hmem
    simp only [List.mem_cons, reduceCtorEq, LuaStep.caught.injEq, false_or, List.not_mem_nil, or_false] at hmem
    exact hmem.1

/-- A function calls `pcall`, which calls a function that raises an error: the record of `pcall` stays. -/
theorem caught_error_leaves_record : ∃ p, lwsStartProfiler .b64 true true true = some p ∧ ¬ p.Follows 7 [
    .event { event := .call, info := { name := some [102] } },
    .event { event := .call, info := { name := some [112] } },
    .event { event := .call, info := { name := some [101] } },
    .caught 1 { event := .ret }] := by
  let hooks : List Hook := [{ event := .call, info := { name := some [102] } }, { event := .call, info := { name := some [112] } },
    { event := .call, info := { name := some [101] } }, { event := .ret }]
  have hrun : (lwsStartProfiler .b64 true true true).map (fun p => (p.run 7 hooks).map Profiler.stack) =
      some (some [1, 0]) := by decide +kernel
  obtain ⟨p, hp, hstack⟩ := Option.map_eq_some_iff.1 hrun
  refine ⟨p, hp, fun hfollows => ?_⟩
  obtain ⟨p', hp', hlists⟩ := hfollows _ (List.prefix_refl _) [functionKey { name := some [102] }] rfl
  have hp' : p.run 7 hooks = some p' := hp'
  rw [hp', Option.map_some] at hstack
  have hlen := congrArg List.length hlists
  rw [Option.some.inj hstack] at hlen
  cases hlen

/-! ## Tail calls under Lua 5.1 -/

/-- What an activation still does under Lua 5.1: it returns, it calls a function and goes on, or its function is replaced by
another in a tail call. -/
inductive LuaBody where
  | ret (hook : Hook) (tails : Nat → Hook)
  | call (hook : Hook) (callee rest : LuaBody)
  | tail (hook : Hook) (callee : LuaBody)

def Hook.on (hook : Hook) (event : HookEvent) : Hook := { hook with event := event }

/-- The calls of the hook by an activation that replaced others: the return is followed by a `LUA_HOOKTAILRET` for each. -/
def LuaBody.hooks : LuaBody → Nat → List Hook
  | .ret hook tails, replaced => hook.on .ret :: (List.range replaced).map fun i => (tails i).on .tailCall
  | .call hook callee rest, replaced => hook.on .call :: callee.hooks 0 ++ rest.hooks replaced
  | .tail hook callee, replaced => hook.on .call :: callee.hooks (replaced + 1)

def callHooks (hook : Hook) (body : LuaBody) : List Hook := hook.on .call :: body.hooks 0

def LuaBody.tailCalls : LuaBody → Nat
  | .ret _ _ => 0
  | .call _ callee rest => callee.tailCalls + rest.tailCalls
  | .tail _ callee => callee.tailCalls + 1

def Profiler.calls (seed : BitVec b.bits) (p : Profiler b) (key : Key) : BitVec b.bits := (p.totals seed key).1

def callEvents (key : Key) (hooks : List Hook) : Nat := ((hooks.filter fun h => h.event = .call).map Hook.key).count key

/-- **What a profiled call should leave**: the stack as it was, and the call events recorded as calls, and nothing else. -/
def Profiler.Returns (seed : BitVec b.bits) (p p' : Profiler b) (hooks : List Hook) : Prop :=
  p'.stack = p.stack ∧ ∀ key, p'.calls seed key = p.calls seed key + BitVec.ofNat b.bits (callEvents key hooks)

theorem tails_stack (tails : Nat → Hook) (n : Nat) : ∀ stack : List Key, (n = 0 ∨ stack ≠ []) →
    (stackAfter stack ((List.range n).map fun i => (tails i).on .tailCall)).length = stack.length := by
  induction n with
  | zero => exact fun stack _ => rfl
  | succ n ih =>
    intro stack hne
    have hne : stack ≠ [] := hne.resolve_left (Nat.succ_ne_zero n)
    have hlen := ih stack (.inr hne)
    rw [List.range_succ, List.map_append, stackAfter_append]
    generalize stackAfter stack ((List.range n).map fun i => (tails i).on .tailCall) = stack' at hlen
    have hpos : 0 < stack.length := List.length_pos_iff.2 hne
    change (((tails n).on .tailCall).key :: stack'.tail).length = stack.length
    rw [List.length_cons, List.length_tail]
    omega

theorem LuaBody.hooks_length (body : LuaBody) : ∀ (replaced : Nat) (top : Key) (stack : List Key), replaced ≤ stack.length →
    (stackAfter (top :: stack) (body.hooks replaced)).length = stack.length + body.tailCalls := by
  induction body with
  | ret hook tails =>
    intro replaced top stack hle
    exact tails_stack tails replaced stack (by
      rcases stack with _ | ⟨key, stack⟩
      · exact .inl (Nat.le_zero.1 hle)
      · exact .inr (List.cons_ne_nil _ _))
  | call hook callee rest ihcallee ihrest =>
    intro replaced top stack hle
    have hcallee := ihcallee 0 (hook.on .call).key (top :: stack) (Nat.zero_le _)
    rw [LuaBody.hooks, stackAfter_append]
    change (stackAfter (stackAfter ((hook.on .call).key :: top :: stack) (callee.hooks 0)) (rest.hooks replaced)).length = _
    rw [List.length_cons] at hcallee
    generalize stackAfter ((hook.on .call).key :: top :: stack) (callee.hooks 0) = stack' at hcallee ⊢
    cases stack' with
    | nil => rw [List.length_nil] at hcallee; omega
    | cons top' stack' =>
      rw [List.length_cons] at hcallee
      rw [ihrest replaced top' stack' (by omega), LuaBody.tailCalls]
      omega
  | tail hook callee ih =>
    intro replaced top stack hle
    have hcallee := ih (replaced + 1) (hook.on .call).key (top :: stack) (Nat.succ_le_succ hle)
    rw [List.length_cons] at hcallee
    rw [LuaBody.tailCalls, ← Nat.add_assoc, Nat.add_right_comm]
    exact hcallee

theorem LuaBody.hooks_stack (body : LuaBody) (h : body.tailCalls = 0) : ∀ (top : Key) (stack : List Key),
    stackAfter (top :: stack) (body.hooks 0) = stack := by
  induction body with
  | ret hook tails => exact fun top stack => rfl
  | call hook callee rest ihcallee ihrest =>
    obtain ⟨hcallee, hrest⟩ := Nat.add_eq_zero_iff.1 h
    intro top stack
    rw [LuaBody.hooks, stackAfter_append]
    change stackAfter (stackAfter ((hook.on .call).key :: top :: stack) (callee.hooks 0)) (rest.hooks 0) = stack
    rw [ihcallee hcallee, ihrest hrest]
  | tail hook callee ih => exact absurd h (Nat.succ_ne_zero _)

theorem LuaBody.hooks_plain (body : LuaBody) (h : body.tailCalls = 0) : ∀ hook ∈ body.hooks 0, hook.event ≠ .tailCall := by
  induction body with
  | ret hook tails =>
    intro hook' hmem
    obtain rfl := List.mem_singleton.1 hmem
    exact HookEvent.noConfusion
  | call hook callee rest ihcallee ihrest =>
    obtain ⟨hcallee, hrest⟩ := Nat.add_eq_zero_iff.1 h
    intro hook' hmem
    rcases List.mem_append.1 hmem with hmem | hmem
    · rcases List.mem_cons.1 hmem with rfl | hmem
      · exact HookEvent.noConfusion
      · exact ihcallee hcallee hook' hmem
    · exact ihrest hrest hook' hmem
  | tail hook callee ih => exact absurd h (Nat.succ_ne_zero _)

theorem calledKeys_plain (key : Key) {hooks : List Hook} (h : ∀ hook ∈ hooks, hook.event ≠ .tailCall) :
    (calledKeys hooks).count key = callEvents key hooks := by
  have hplain : ∀ hook ∈ hooks, hook.event.enters = decide (hook.event = .call) := by
    intro hook hmem
    rw [HookEvent.enters, decide_eq_false (h hook hmem), Bool.or_false]
  rw [calledKeys, callEvents, List.filter_congr hplain]

theorem addTo_extends (hooks : List Hook) : ∀ keys : List Key, keys <+: hooks.foldl Hook.addTo keys := by
  induction hooks with
  | nil => exact fun keys => List.prefix_refl _
  | cons hook hooks ih =>
    intro keys
    have hone : keys <+: hook.addTo keys := by
      unfold Hook.addTo addKey
      split
      · split
        · exact List.prefix_refl _
        · exact List.prefix_append _ _
      · exact List.prefix_refl _
    exact hone.trans (ih _)

theorem calledKeys_append (hooks hooks' : List Hook) : calledKeys (hooks ++ hooks') = calledKeys hooks ++ calledKeys hooks' := by
  rw [calledKeys, List.filter_append, List.map_append]
  rfl

section
variable {seed : BitVec b.bits} {p : Profiler b}

/-- **Under Lua 5.1 a profiled call leaves the profiler as it should exactly where it makes no tail call**, itself or in what it
calls: for any run before it, while the clock, the allocations and the table succeed. -/
theorem stack_returns_iff {table entries stack : Bool} (hstart : lwsStartProfiler b table entries stack = some p)
    (before : List Hook) (hook : Hook) (body : LuaBody) (hok : ∀ h ∈ before ++ callHooks hook body, h.Succeeds)
    (hfit : (calledKeys (before ++ callHooks hook body)).dedup.length ≤ maxLoad b) :
    ∃ p₁ p₂, p.run seed before = some p₁ ∧ p₁.run seed (callHooks hook body) = some p₂ ∧
      (p₁.Returns seed p₂ (callHooks hook body) ↔ body.tailCalls = 0) := by
  have hkeys := Nat.le_trans (keys_called (before ++ callHooks hook body)) hfit
  rw [List.foldl_append] at hkeys
  have h₀ : Profiled seed p [] {} := profiled_start hstart
  obtain ⟨p₁, hrun₁, h₁⟩ := h₀.run before
    (fun h hmem => hok h (List.mem_append_left _ hmem)) (Nat.le_trans (keys_length _ _) hkeys)
  obtain ⟨p₂, hrun₂, h₂⟩ := h₁.run (callHooks hook body) (fun h hmem => hok h (List.mem_append_right _ hmem)) hkeys
  refine ⟨p₁, p₂, hrun₁, hrun₂, ?_, ?_⟩
  · rintro ⟨hstack, -⟩
    have hlen := congrArg List.length hstack
    rw [h₁.stack.length_eq, h₂.stack.length_eq, hooks_stack] at hlen
    have hbody := body.hooks_length 0 (hook.on .call).key (before.foldl KeyProfiler.hook ({} : KeyProfiler b.bits)).stack
      (Nat.zero_le _)
    have hcall (stack : List Key) : stackAfter stack (callHooks hook body) =
        stackAfter ((hook.on .call).key :: stack) (body.hooks 0) := rfl
    rw [hcall, hbody] at hlen
    omega
  · intro hzero
    constructor
    · have hsame : ((callHooks hook body).foldl KeyProfiler.hook (before.foldl KeyProfiler.hook ({} : KeyProfiler b.bits))).stack =
          (before.foldl KeyProfiler.hook ({} : KeyProfiler b.bits)).stack := by
        rw [hooks_stack]
        exact body.hooks_stack hzero _ _
      rw [h₁.stack_places, h₂.stack_places, hsame]
      apply List.map_congr_left
      intro key hkey
      exact ((addTo_extends _ _).idxOf_eq_of_mem (h₁.stack_mem key hkey)).symm
    · intro key
      have hplain : ∀ h ∈ callHooks hook body, h.event ≠ .tailCall := by
        intro h hmem
        rcases List.mem_cons.1 hmem with rfl | hmem
        · exact HookEvent.noConfusion
        · exact body.hooks_plain hzero h hmem
      rw [Profiler.calls, Profiler.calls, h₁.totals, h₂.totals, ← List.foldl_append, run_totals, run_totals, calledKeys_append,
        List.count_append, calledKeys_plain key hplain, BitVec.ofNat_add]

end

/-- A function that calls another. -/
theorem stack_returns_iff_call : ∃ p p₁ p₂, lwsStartProfiler .b64 true true true = some p ∧ p.run 7 [] = some p₁ ∧
    p₁.Returns 7 p₂ (callHooks { event := .call, info := { name := some [102] } }
      (.call { event := .call, info := { name := some [103] } } (.ret { event := .ret } fun _ => { event := .tailCall })
        (.ret { event := .ret } fun _ => { event := .tailCall }))) := by
  obtain ⟨p, hp⟩ := Option.isSome_iff_exists.1
    (show (lwsStartProfiler .b64 true true true).isSome = true by decide +kernel)
  obtain ⟨p₁, p₂, hrun, -, hiff⟩ := @stack_returns_iff .b64 7 p true true true hp []
    { event := .call, info := { name := some [102] } }
    (.call { event := .call, info := { name := some [103] } } (.ret { event := .ret } fun _ => { event := .tailCall })
      (.ret { event := .ret } fun _ => { event := .tailCall }))
    (by
      intro hook hhook
      simp only [callHooks, LuaBody.hooks, List.range_zero, List.map_nil, List.nil_append, List.cons_append, List.mem_cons,
        List.not_mem_nil, or_false] at hhook
      rcases hhook with rfl | rfl | rfl | rfl <;> exact ⟨rfl, rfl, rfl, rfl, rfl⟩)
    (by decide +kernel)
  exact ⟨p, p₁, p₂, hp, hrun, hiff.2 rfl⟩

/-- The hooks of a function that returns another's result in a tail call; Lua tells this of a tail return. -/
def tailCallingHooks : List Hook :=
  let tailReturn : Hook :=
    { event := .tailCall
      info := { name := some [], what := literal "tail", shortSrc := literal "(tail call)", linedefined := -1 } }
  callHooks { event := .call, info := { name := some [102] } }
    (.tail { event := .call, info := { name := some [103] } } (.ret { event := .ret } fun _ => tailReturn))

/-- A function that returns another's result in a tail call: the tail return is taken for a call, and its record stays. -/
theorem tail_return_leaves_record : ∃ p p₁ p₂, lwsStartProfiler .b64 true true true = some p ∧ p.run 7 [] = some p₁ ∧
    p₁.run 7 tailCallingHooks = some p₂ ∧ ¬ p₁.Returns 7 p₂ tailCallingHooks := by
  have hrun : (lwsStartProfiler .b64 true true true).map (fun p => (p.run 7 tailCallingHooks).map Profiler.stack) =
      some (some [2]) := by decide +kernel
  have hempty : (lwsStartProfiler .b64 true true true).map Profiler.stack = some [] := by decide +kernel
  obtain ⟨p, hp, hstack⟩ := Option.map_eq_some_iff.1 hrun
  obtain ⟨p₂, hp₂, hstack₂⟩ := Option.map_eq_some_iff.1 hstack
  rw [hp, Option.map_some] at hempty
  refine ⟨p, p, p₂, hp, rfl, hp₂, fun hreturns => ?_⟩
  have hsame := hreturns.1
  rw [hstack₂, Option.some.inj hempty] at hsame
  cases hsame

end Lws

import Lws.Chunks
/-!
# ChunkSequence — the documented sequence, and the response it selects

The sequence is a list of steps, each with whether it succeeds; a run takes them until one fails.  `lwsRunState` and `respond`
compute, through `lctx->complete`, the result register, `ctx->redirect` and `ctx->rc`, what the list says.
-/
namespace Lws

/-! ## The documented sequence -/

def Behaviour.fails (beh : Behaviour) : Bool :=
  match beh.result with
  | .error | .other => true
  | .nil => false
  | .integer n => decide (n < 0)

def Behaviour.status (beh : Behaviour) : Int :=
  match beh.result with
  | .integer n => n
  | _ => 0

def ChunkCall.location : ChunkCall → Option Key
  | .redirect path _ _ _ => if redirectValid path then some path else none
  | _ => none

def ChunkCall.completes (c : ChunkCall) : Bool := c = .setcomplete || c.location.isSome

/-- The pre chunk completes the request: by a positive result, or by a call. -/
def Behaviour.completes (beh : Behaviour) : Bool := decide (beh.status > 0) || beh.calls.any ChunkCall.completes

/-- A step of the sequence: a chunk, or the module's own work, and whether it succeeds. -/
abbrev ChunkStep := Option Chunk × Bool

def initSteps (conf : ChunkConf) (beh : Chunk → Behaviour) (initialised : Bool) : List ChunkStep :=
  if !initialised && conf.init then [(some .init, !(beh .init).fails)] else []

def mainSteps (conf : ChunkConf) (beh : Chunk → Behaviour) : List ChunkStep :=
  (if conf.pre then [(some .pre, !(beh .pre).fails)] else []) ++
    if conf.pre && (beh .pre).completes then [] else [(some .main, !(beh .main).fails)]

def postSteps (conf : ChunkConf) (beh : Chunk → Behaviour) : List ChunkStep :=
  if conf.post then [(some .post, !(beh .post).fails)] else []

/-- **The documented sequence**: init if needed, pre, main unless the pre chunk completes the request, post. -/
def sequence (conf : ChunkConf) (env : RunEnv) (beh : Chunk → Behaviour) (initialised : Bool) : List ChunkStep :=
  [(none, env.setup)] ++ (initSteps conf beh initialised ++ ([(none, env.pushEnv)] ++
    (mainSteps conf beh ++ (postSteps conf beh ++ [(none, env.finish)]))))

def documentedResult (conf : ChunkConf) (beh : Chunk → Behaviour) : Int :=
  if conf.pre && (beh .pre).completes then (beh .pre).status else (beh .main).status

def taken : List ChunkStep → List ChunkStep
  | [] => []
  | s :: steps => s :: if s.2 then taken steps else []

def chunksOf (steps : List ChunkStep) : List (Chunk × Bool) := steps.filterMap (fun s => s.1.map (·, s.2))

def succeeds (steps : List ChunkStep) : Bool := steps.all Prod.snd

/-- The redirects that some chunks schedule; only the pre and main chunks can. -/
def redirects (beh : Chunk → Behaviour) (called : List (Chunk × Bool)) : List Key :=
  called.flatMap (fun c => if c.1 = .pre ∨ c.1 = .main then (beh c.1).calls.filterMap ChunkCall.location else [])

def ChunkCall.closes : ChunkCall → Bool
  | .setclose => true
  | _ => false

def closes (beh : Chunk → Behaviour) (called : List (Chunk × Bool)) : Bool :=
  called.any (fun c => (beh c.1).calls.any ChunkCall.closes)

def errorStatus (r : Int) : Int := if 100 ≤ r ∧ r ≤ 599 then r else 500

/-- The response after a run without a failure: the last redirect; else the error that the pre chunk, if it completed the
request, or the main chunk asks for; else the page. -/
def selectResponse (redirect : Option Key) (result status : Int) (headers : Bool) (args : NgxStr) : Response :=
  match redirect with
  | some (c :: name) => if c = 0x40 then .namedLocation name else .internalRedirect (c :: name) args
  | _ => if !headers then .finalize 500 else if result > 0 then .error (errorStatus result) else .page status

/-- **The documented response**: 500 after a failure, else the one that is selected. -/
def documentedResponse (conf : ChunkConf) (env : RunEnv) (beh : Chunk → Behaviour) (initialised headers : Bool) (status : Int)
    (args : NgxStr) : Response :=
  let steps := sequence conf env beh initialised
  if !succeeds steps then .error 500
  else selectResponse (redirects beh (chunksOf (taken steps))).getLast? (documentedResult conf beh) status headers args

def ChunkCall.Allocates : ChunkCall → Prop
  | .redirect _ _ memArgs mem => memArgs = true ∧ mem = true
  | _ => True

def LuaResult.FitsInt : LuaResult → Prop
  | .integer n => -2 ^ 31 ≤ n ∧ n < 2 ^ 31
  | _ => True

/-! ## The calls of a chunk -/

def scheduled (paths : List Key) (redirect : NgxStr) : NgxStr :=
  match paths.getLast? with
  | some path => ⟨some path, path.length⟩
  | none => redirect

theorem scheduled_append (p p' : List Key) (r : NgxStr) : scheduled (p ++ p') r = scheduled p' (scheduled p r) := by
  simp only [scheduled, List.getLast?_append]
  cases p'.getLast? <;> rfl

section
variable {lctx : LuaCtx} (ctx : RequestCtx) {path : Key} (args : Option Key)

theorem lwsRedirect_refused (memArgs mem : Bool)
    (h : ¬((lctx.chunk = .pre ∨ lctx.chunk = .main) ∧ lctx.sealed = false ∧ redirectValid path = true)) :
    lwsRedirect path args memArgs mem lctx ctx = (lctx, ctx, .error) := by
  unfold lwsRedirect
  by_cases hc : lctx.chunk ≠ .pre ∧ lctx.chunk ≠ .main
  · rw [if_pos hc]
  · rw [if_neg hc]
    cases hs : lctx.sealed with
    | true => rfl
    | false =>
      cases hv : redirectValid path with
      | false => rfl
      | true => exact absurd ⟨by tauto, hs, hv⟩ h

theorem lwsRedirect_ok (hc : lctx.chunk = .pre ∨ lctx.chunk = .main) (hs : lctx.sealed = false)
    (hv : redirectValid path = true) : ∃ args', lwsRedirect path args true true lctx ctx =
      ({ lctx with complete := lctx.complete || decide (lctx.chunk = .pre) },
        { ctx with redirect := ⟨some path, path.length⟩, redirectArgs := args' }, .ok) := by
  have hargs : (storeRedirectArgs path args true ctx.redirectArgs).2 = .ok := by
    unfold storeRedirectArgs
    cases args with
    | none => rfl
    | some args => dsimp only; split <;> rfl
  refine ⟨(storeRedirectArgs path args true ctx.redirectArgs).1, ?_⟩
  unfold lwsRedirect
  rw [if_neg (by tauto), if_neg (by rw [hs]; simp), if_neg (by rw [hv]; simp)]
  simp only [hargs, lwsStrdup]
  by_cases hp : lctx.chunk = .pre <;> simp [hp]

end

/-- **The calls of a chunk**: what they complete, close and schedule. -/
theorem foldl_call : ∀ (calls : List ChunkCall) (x : Run), x.lctx.sealed = false → (∀ c ∈ calls, c.Allocates) →
    ∃ args', calls.foldl Run.call x =
      { x with
        lctx := { x.lctx with
          complete := x.lctx.complete || (decide (x.lctx.chunk = .pre) && calls.any ChunkCall.completes) }
        ctx := { x.ctx with
          redirect := scheduled (if x.lctx.chunk = .pre ∨ x.lctx.chunk = .main then calls.filterMap ChunkCall.location else [])
            x.ctx.redirect
          redirectArgs := args' }
        close := x.close || calls.any ChunkCall.closes }
  | [], x, _, _ => ⟨x.ctx.redirectArgs, by simp [scheduled]⟩
  | c :: calls, x, hs, hmem => by
    have hone : ∃ args', x.call c =
        { x with
          lctx := { x.lctx with complete := x.lctx.complete || (decide (x.lctx.chunk = .pre) && c.completes) }
          ctx := { x.ctx with
            redirect := scheduled (if x.lctx.chunk = .pre ∨ x.lctx.chunk = .main then c.location.toList else [])
              x.ctx.redirect
            redirectArgs := args' }
          close := x.close || c.closes } := by
      cases c with
      | setcomplete =>
        refine ⟨x.ctx.redirectArgs, ?_⟩
        by_cases hp : x.lctx.chunk = .pre <;>
          simp [Run.call, lwsSetcomplete, hp, ChunkCall.completes, ChunkCall.location, scheduled, ChunkCall.closes]
      | setclose =>
        refine ⟨x.ctx.redirectArgs, ?_⟩
        simp [Run.call, ChunkCall.completes, ChunkCall.location, scheduled, ChunkCall.closes]
      | redirect path args memArgs mem =>
        obtain ⟨rfl, rfl⟩ := hmem (.redirect path args memArgs mem) (by simp)
        by_cases h : (x.lctx.chunk = .pre ∨ x.lctx.chunk = .main) ∧ redirectValid path = true
        · obtain ⟨args', hr⟩ := lwsRedirect_ok x.ctx args h.1 hs h.2
          refine ⟨args', ?_⟩
          simp only [Run.call, hr]
          simp [h.1, h.2, ChunkCall.completes, ChunkCall.location, scheduled, ChunkCall.closes]
        · refine ⟨x.ctx.redirectArgs, ?_⟩
          simp only [Run.call, lwsRedirect_refused x.ctx args true true fun h' => h ⟨h'.1, h'.2.2⟩]
          cases hv : redirectValid path with
          | false => simp [ChunkCall.completes, ChunkCall.location, hv, scheduled, ChunkCall.closes]
          | true =>
            have hp : x.lctx.chunk ≠ .pre := fun hp => h ⟨.inl hp, hv⟩
            have hm : x.lctx.chunk ≠ .main := fun hm => h ⟨.inr hm, hv⟩
            simp [hp, hm, scheduled, ChunkCall.closes]
    obtain ⟨args₁, h1⟩ := hone
    obtain ⟨args₂, h2⟩ := foldl_call calls (x.call c) (by rw [h1]; exact hs) (fun c hc => hmem c (by simp [hc]))
    refine ⟨args₂, ?_⟩
    rw [List.foldl_cons, h2, h1]
    have hsched : scheduled (if x.lctx.chunk = .pre ∨ x.lctx.chunk = .main then calls.filterMap ChunkCall.location else [])
        (scheduled (if x.lctx.chunk = .pre ∨ x.lctx.chunk = .main then c.location.toList else []) x.ctx.redirect) =
        scheduled (if x.lctx.chunk = .pre ∨ x.lctx.chunk = .main then (c :: calls).filterMap ChunkCall.location else [])
          x.ctx.redirect := by
      split
      · rw [← scheduled_append]
        cases hl : c.location <;> simp [hl]
      · rfl
    dsimp only
    rw [hsched]
    cases x.lctx.complete <;> cases x.close <;> cases decide (x.lctx.chunk = .pre) <;> simp

/-! ## The stages of a run -/

/-- **From `x` to `y` by the chunks `called`**: the log, the closing mark and the redirect are those of the calls. -/
structure Reached (beh : Chunk → Behaviour) (x y : Run) (called : List (Chunk × Bool)) : Prop where
  log : y.log = x.log ++ called
  close : y.close = (x.close || closes beh called)
  redirect : y.ctx.redirect = scheduled (redirects beh called) x.ctx.redirect
  status : y.ctx.status = x.ctx.status
  sealed_eq : y.lctx.sealed = x.lctx.sealed

section
variable {beh : Chunk → Behaviour} {x y z : Run} {called called' : List (Chunk × Bool)}

theorem Reached.refl (x : Run) : Reached beh x x [] :=
  ⟨by simp, by simp [closes], rfl, rfl, rfl⟩

theorem Reached.trans (h : Reached beh x y called) (h' : Reached beh y z called') : Reached beh x z (called ++ called') where
  log := by rw [h'.log, h.log, List.append_assoc]
  close := by rw [h'.close, h.close, closes, closes, closes, List.any_append, Bool.or_assoc]
  redirect := by rw [h'.redirect, h.redirect, redirects, redirects, redirects, List.flatMap_append, scheduled_append]
  status := h'.status.trans h.status
  sealed_eq := h'.sealed_eq.trans h.sealed_eq

theorem status_nonneg {beh : Behaviour} (h : beh.fails = false) : 0 ≤ beh.status := by
  unfold Behaviour.fails at h
  unfold Behaviour.status
  split at h <;> simp_all

theorem bmod_int {n : Int} (h1 : -2 ^ 31 ≤ n) (h2 : n < 2 ^ 31) : n.bmod (2 ^ 32) = n :=
  Int.bmod_eq_of_le (by omega) (by omega)

theorem toInt_fails {beh : Behaviour} (hint : beh.result.FitsInt) (h : beh.fails = true) : ∀ n ∈ beh.result.toInt, n < 0 := by
  unfold Behaviour.fails at h
  intro n hn
  cases hr : beh.result with
  | error => rw [hr] at hn; cases hn
  | nil => rw [hr] at h; cases h
  | other =>
    rw [hr] at hn
    simp only [LuaResult.toInt, Option.mem_some_iff] at hn
    omega
  | integer m =>
    rw [hr] at h hn hint
    simp only [LuaResult.toInt, bmod_int hint.1 hint.2, Option.mem_some_iff] at hn
    have : m < 0 := by simpa using h
    omega

theorem toInt_ok {beh : Behaviour} (hint : beh.result.FitsInt) (h : beh.fails = false) :
    beh.result.toInt = some beh.status := by
  unfold Behaviour.fails at h
  unfold Behaviour.status
  cases hr : beh.result with
  | error => rw [hr] at h; cases h
  | nil => rfl
  | other => rw [hr] at h; cases h
  | integer m =>
    rw [hr] at hint
    simp only [LuaResult.toInt, bmod_int hint.1 hint.2]

variable (hmem : ∀ chunk, ∀ c ∈ (beh chunk).calls, c.Allocates) (hint : ∀ chunk, (beh chunk).result.FitsInt)
include hint hmem

theorem lwsCall_reached (chunk : Chunk) (hs : x.lctx.sealed = false) :
    Reached beh x (lwsCall chunk (beh chunk) x).1 [(chunk, !(beh chunk).fails)] ∧
      (lwsCall chunk (beh chunk) x).2 = (if (beh chunk).fails then none else some (beh chunk).status) ∧
      (lwsCall chunk (beh chunk) x).1.init = x.init ∧
      ((beh chunk).fails = false → (lwsCall chunk (beh chunk) x).1.lctx.complete =
        (x.lctx.complete || (decide (chunk = .pre) && (beh chunk).completes))) := by
  obtain ⟨args', hf⟩ := foldl_call (beh chunk).calls { x with lctx := { x.lctx with chunk := chunk } } hs (hmem chunk)
  have hclose : closes beh [(chunk, !(beh chunk).fails)] = (beh chunk).calls.any ChunkCall.closes := by simp [closes]
  have hred : redirects beh [(chunk, !(beh chunk).fails)] =
      if chunk = .pre ∨ chunk = .main then (beh chunk).calls.filterMap ChunkCall.location else [] := by simp [redirects]
  unfold lwsCall
  rw [hf]
  dsimp only
  cases hfail : (beh chunk).fails with
  | true =>
    have hneg := toInt_fails (hint chunk) hfail
    rw [hfail] at hclose hred
    cases hn : (beh chunk).result.toInt with
    | none => exact ⟨⟨rfl, by rw [hclose], by rw [hred], rfl, rfl⟩, rfl, rfl, fun h => by cases h⟩
    | some n =>
      dsimp only
      rw [if_pos (hneg n hn)]
      exact ⟨⟨rfl, by rw [hclose], by rw [hred], rfl, rfl⟩, rfl, rfl, fun h => by cases h⟩
  | false =>
    have hnn := status_nonneg hfail
    rw [hfail] at hclose hred
    rw [toInt_ok (hint chunk) hfail]
    dsimp only
    rw [if_neg (by omega)]
    refine ⟨⟨rfl, by rw [hclose], by rw [hred], rfl, rfl⟩, rfl, rfl, fun _ => ?_⟩
    simp only [Behaviour.completes]
    cases x.lctx.complete <;> by_cases hp : chunk = .pre <;> simp [hp, Bool.or_comm]

omit hint hmem

@[simp] theorem succeeds_append (s s' : List ChunkStep) : succeeds (s ++ s') = (succeeds s && succeeds s') := List.all_append

theorem taken_append : ∀ (s s' : List ChunkStep), taken (s ++ s') = taken s ++ if succeeds s then taken s' else []
  | [], s' => rfl
  | (c, true) :: s, s' => by
    rw [List.cons_append, taken, if_pos rfl, taken_append s s', taken, if_pos rfl]
    rfl
  | (c, false) :: s, s' => rfl

theorem chunksOf_append (s s' : List ChunkStep) : chunksOf (s ++ s') = chunksOf s ++ chunksOf s' := List.filterMap_append

theorem taken_singleton (s : ChunkStep) : taken [s] = [s] := by
  cases s with
  | mk c ok => cases ok <;> rfl

theorem taken_fail {s : List ChunkStep} (h : succeeds s = false) (s' : List ChunkStep) : taken (s ++ s') = taken s := by
  rw [taken_append, h, if_neg (by simp), List.append_nil]

theorem taken_ok {s : List ChunkStep} (h : succeeds s = true) (s' : List ChunkStep) : taken (s ++ s') = taken s ++ taken s' := by
  rw [taken_append, h, if_pos rfl]

include hint hmem

theorem runInit_reached (conf : ChunkConf) (hs : x.lctx.sealed = false) :
    Reached beh x (runInit conf (beh .init) x).1 (chunksOf (taken (initSteps conf beh x.init))) ∧
      ((runInit conf (beh .init) x).2 = if succeeds (initSteps conf beh x.init) then .ok else .error) ∧
      (runInit conf (beh .init) x).1.init = (x.init || succeeds (initSteps conf beh x.init)) ∧
      (succeeds (initSteps conf beh x.init) = true → (runInit conf (beh .init) x).1.lctx.complete = x.lctx.complete) := by
  unfold runInit initSteps
  cases hi : x.init with
  | true => exact ⟨Reached.refl x, rfl, hi, fun _ => rfl⟩
  | false =>
    cases hc : conf.init with
    | false => exact ⟨⟨by simp [chunksOf, taken], by simp [closes, chunksOf, taken], rfl, rfl, rfl⟩, rfl, rfl, fun _ => rfl⟩
    | true =>
      obtain ⟨hr, hres, hinit, hcomp⟩ := lwsCall_reached hmem hint .init hs
      generalize lwsCall .init (beh .init) x = r at hr hres hinit hcomp
      obtain ⟨y, res⟩ := r
      dsimp only at hr hres hinit hcomp ⊢
      cases hf : (beh .init).fails with
      | true =>
        rw [hf] at hr hres
        rw [if_pos rfl] at hres
        subst hres
        exact ⟨hr, rfl, hinit.trans hi, fun h => by simp [succeeds] at h⟩
      | false =>
        rw [hf] at hr hres
        rw [if_neg (by simp)] at hres
        subst hres
        exact ⟨⟨hr.log, hr.close, hr.redirect, hr.status, hr.sealed_eq⟩, rfl, rfl, fun _ => by simpa using hcomp hf⟩

theorem runMain_reached (conf : ChunkConf) (hs : x.lctx.sealed = false) (hx : x.lctx.complete = false) :
    Reached beh x (runMain conf (beh .pre) (beh .main) x).1 (chunksOf (taken (mainSteps conf beh))) ∧
      ((runMain conf (beh .pre) (beh .main) x).2 =
        if succeeds (mainSteps conf beh) then some (documentedResult conf beh) else none) ∧
      (runMain conf (beh .pre) (beh .main) x).1.init = x.init := by
  have hmain : ∀ y : Run, y.lctx.sealed = false →
      Reached beh y (lwsCall .main (beh .main) y).1 (chunksOf (taken [(some .main, !(beh .main).fails)])) ∧
        ((lwsCall .main (beh .main) y).2 = if (beh .main).fails then none else some (beh .main).status) ∧
        (lwsCall .main (beh .main) y).1.init = y.init := fun y hy => by
    obtain ⟨hr, hres, hinit, -⟩ := lwsCall_reached hmem hint .main hy
    rw [taken_singleton]
    exact ⟨hr, hres, hinit⟩
  unfold runMain mainSteps documentedResult
  cases hp : conf.pre with
  | false =>
    obtain ⟨hr, hres, hinit⟩ := hmain x hs
    refine ⟨hr, hres.trans ?_, hinit⟩
    cases (beh .main).fails <;> simp [succeeds]
  | true =>
    obtain ⟨hr, hres, hinit, hcomp⟩ := lwsCall_reached hmem hint .pre hs
    generalize lwsCall .pre (beh .pre) x = r at hr hres hinit hcomp
    obtain ⟨y, res⟩ := r
    dsimp only at hr hres hinit hcomp
    rw [if_pos rfl, if_pos rfl]
    cases hf : (beh .pre).fails with
    | true =>
      rw [hf] at hr hres
      rw [if_pos rfl] at hres
      subst hres
      refine ⟨hr, ?_, hinit⟩
      simp [succeeds]
    | false =>
      rw [hf] at hr hres
      rw [if_neg (by simp)] at hres
      subst hres
      have hyc : y.lctx.complete = (beh .pre).completes := by simpa [hx] using hcomp hf
      dsimp only
      rw [hyc]
      cases hc : (beh .pre).completes with
      | true => exact ⟨hr, rfl, hinit⟩
      | false =>
        obtain ⟨hr', hres', hinit'⟩ := hmain y (hr.sealed_eq.trans hs)
        refine ⟨hr.trans hr', hres'.trans ?_, hinit'.trans hinit⟩
        cases (beh .main).fails <;> simp [succeeds]

theorem runPost_reached (conf : ChunkConf) (hs : x.lctx.sealed = false) :
    Reached beh x (runPost conf (beh .post) x).1 (chunksOf (taken (postSteps conf beh))) ∧
      ((runPost conf (beh .post) x).2 = if succeeds (postSteps conf beh) then .ok else .error) ∧
      (runPost conf (beh .post) x).1.init = x.init := by
  unfold runPost postSteps
  cases hp : conf.post with
  | false => exact ⟨Reached.refl x, rfl, rfl⟩
  | true =>
    obtain ⟨hr, hres, hinit, -⟩ := lwsCall_reached hmem hint .post hs
    generalize lwsCall .post (beh .post) x = r at hr hres hinit
    obtain ⟨y, res⟩ := r
    dsimp only at hr hres hinit ⊢
    cases hf : (beh .post).fails with
    | true =>
      rw [hf] at hr hres
      rw [if_pos rfl] at hres
      subst hres
      exact ⟨hr, rfl, hinit⟩
    | false =>
      rw [hf] at hr hres
      rw [if_neg (by simp)] at hres
      subst hres
      exact ⟨hr, rfl, hinit⟩

/-- **`lws_run`** takes the documented sequence up to the first failure. -/
theorem lwsRun_reached (conf : ChunkConf) (env : RunEnv) (x : Run) :
    Reached beh { x with lctx := {} } (lwsRun conf env beh x).1 (chunksOf (taken (sequence conf env beh x.init))) ∧
      ((lwsRun conf env beh x).2 =
        if succeeds (sequence conf env beh x.init) then some (documentedResult conf beh) else none) ∧
      (lwsRun conf env beh x).1.init = (x.init || (env.setup && succeeds (initSteps conf beh x.init))) := by
  unfold lwsRun sequence
  dsimp only
  cases env.setup with
  | false => exact ⟨Reached.refl _, rfl, by simp⟩
  | true =>
    obtain ⟨hr, hres, hinit, hcomp⟩ := runInit_reached hmem hint conf (x := { x with lctx := {} }) rfl
    rw [if_neg (by simp), taken_ok (s := [(none, true)]) rfl, chunksOf_append, succeeds_append]
    generalize runInit conf (beh .init) { x with lctx := {} } = r₁ at hr hres hinit hcomp
    obtain ⟨x₁, o₁⟩ := r₁
    dsimp only at hr hres hinit hcomp
    cases h₁ : succeeds (initSteps conf beh x.init) with
    | false =>
      rw [h₁, if_neg (by simp)] at hres
      subst hres
      rw [h₁] at hinit
      rw [taken_fail h₁, succeeds_append, h₁]
      exact ⟨hr, by simp, by simpa using hinit⟩
    | true =>
      rw [h₁, if_pos rfl] at hres
      subst hres
      rw [h₁] at hinit
      rw [taken_ok h₁, chunksOf_append, succeeds_append, h₁]
      dsimp only
      cases env.pushEnv with
      | false => exact ⟨hr.trans (Reached.refl _), by simp [succeeds], by simpa using hinit⟩
      | true =>
        obtain ⟨hr₂, hres₂, hinit₂⟩ := runMain_reached hmem hint conf (x := x₁) hr.sealed_eq (hcomp h₁)
        rw [if_neg (by simp), taken_ok (s := [(none, true)]) rfl, chunksOf_append, succeeds_append]
        generalize runMain conf (beh .pre) (beh .main) x₁ = r₂ at hr₂ hres₂ hinit₂
        obtain ⟨x₂, o₂⟩ := r₂
        dsimp only at hr₂ hres₂ hinit₂
        cases h₂ : succeeds (mainSteps conf beh) with
        | false =>
          rw [h₂, if_neg (by simp)] at hres₂
          subst hres₂
          rw [taken_fail h₂, succeeds_append, h₂]
          exact ⟨hr.trans hr₂, by simp, by rw [hinit₂]; simpa using hinit⟩
        | true =>
          rw [h₂, if_pos rfl] at hres₂
          subst hres₂
          rw [taken_ok h₂, chunksOf_append, succeeds_append, h₂]
          obtain ⟨hr₃, hres₃, hinit₃⟩ := runPost_reached hmem hint conf (x := x₂) ((hr₂.sealed_eq).trans hr.sealed_eq)
          dsimp only
          generalize runPost conf (beh .post) x₂ = r₃ at hr₃ hres₃ hinit₃
          obtain ⟨x₃, o₃⟩ := r₃
          dsimp only at hr₃ hres₃ hinit₃
          cases h₃ : succeeds (postSteps conf beh) with
          | false =>
            rw [h₃, if_neg (by simp)] at hres₃
            subst hres₃
            rw [taken_fail h₃, succeeds_append, h₃]
            exact ⟨hr.trans (hr₂.trans hr₃), by simp, by rw [hinit₃, hinit₂]; simpa using hinit⟩
          | true =>
            rw [h₃, if_pos rfl] at hres₃
            subst hres₃
            rw [taken_ok h₃, chunksOf_append, succeeds_append, h₃]
            cases env.finish with
            | false =>
              exact ⟨hr.trans (hr₂.trans (hr₃.trans (Reached.refl _))), by simp [succeeds],
                by simpa using hinit₃.trans (hinit₂.trans hinit)⟩
            | true =>
              exact ⟨hr.trans (hr₂.trans (hr₃.trans (Reached.refl _))), by simp [succeeds],
                by simpa using hinit₃.trans (hinit₂.trans hinit)⟩

end

theorem redirects_valid (beh : Chunk → Behaviour) (called : List (Chunk × Bool)) :
    ∀ path ∈ redirects beh called, redirectValid path = true := by
  intro path hp
  obtain ⟨c, -, hc⟩ := List.mem_flatMap.1 hp
  split at hc
  · obtain ⟨call, -, hcall⟩ := List.mem_filterMap.1 hc
    unfold ChunkCall.location at hcall
    split at hcall
    · split at hcall
      · rename_i hv
        obtain rfl := Option.some.inj hcall
        exact hv
      · cases hcall
    · cases hcall
  · cases hc

theorem documentedResult_nonneg {conf : ChunkConf} {beh : Chunk → Behaviour} (h : succeeds (mainSteps conf beh) = true) :
    0 ≤ documentedResult conf beh := by
  rw [mainSteps, succeeds_append] at h
  obtain ⟨h1, h2⟩ := Bool.and_eq_true_iff.1 h
  unfold documentedResult
  split
  · rename_i hc
    rw [if_pos (Bool.and_eq_true_iff.1 hc).1] at h1
    exact status_nonneg (by simpa [succeeds] using h1)
  · rename_i hc
    rw [if_neg hc] at h2
    exact status_nonneg (by simpa [succeeds] using h2)

/-- **The response of the finalization handler**, after a run without a failure. -/
theorem respond_select {ctx : RequestCtx} {paths : List Key} (hrc : 0 ≤ ctx.rc) (hred : ctx.redirect = scheduled paths {})
    (hv : ∀ path ∈ paths, redirectValid path = true) (headers : Bool) :
    respond headers ctx = selectResponse paths.getLast? ctx.rc ctx.status headers ctx.redirectArgs := by
  have hstatus : (if ctx.rc ≥ 100 ∧ ctx.rc < 600 then ctx.rc else 500) = errorStatus ctx.rc := by
    unfold errorStatus
    by_cases h : 100 ≤ ctx.rc ∧ ctx.rc ≤ 599
    · rw [if_pos h, if_pos (by omega)]
    · rw [if_neg h, if_neg (by omega)]
  unfold respond selectResponse
  rw [if_neg (by omega), hred, hstatus]
  cases hl : paths.getLast? with
  | none => simp [scheduled, hl]
  | some path =>
    have hval := hv path (List.mem_of_getLast? hl)
    cases path with
    | nil => cases hval
    | cons c name =>
      simp only [scheduled, hl, List.length_cons]
      rw [if_pos (Nat.succ_ne_zero _)]
      by_cases hc : c = 0x40
      · rw [if_neg (not_not.2 hc), if_pos hc]
      · rw [if_pos hc, if_neg hc]

/-- **Chunk sequencing and response selection**: the chunks called, the flags of the state, and the response are the documented
ones, for every configuration and every behaviour of the chunks. -/
theorem run_is_documented (conf : ChunkConf) (env : RunEnv) (beh : Chunk → Behaviour) (initialised close headers : Bool)
    (status : Int) (hint : ∀ chunk, (beh chunk).result.FitsInt) (hmem : ∀ chunk, ∀ c ∈ (beh chunk).calls, c.Allocates) :
    let x := lwsRunState conf env beh { init := initialised, close := close, ctx := { status := status } }
    let steps := sequence conf env beh initialised
    x.log = chunksOf (taken steps) ∧
      x.init = (initialised || (env.setup && succeeds (initSteps conf beh initialised))) ∧
      x.close = (close || closes beh (chunksOf (taken steps)) || !succeeds steps) ∧
      respond headers x.ctx = documentedResponse conf env beh initialised headers status x.ctx.redirectArgs := by
  obtain ⟨hr, hres, hinit⟩ := lwsRun_reached hmem hint conf env
    { init := initialised, close := close, ctx := { status := status } }
  unfold lwsRunState documentedResponse
  generalize lwsRun conf env beh { init := initialised, close := close, ctx := { status := status } } = r at hr hres hinit
  obtain ⟨x, res⟩ := r
  dsimp only at hr hres hinit ⊢
  have hstatus : x.ctx.status = status := hr.status
  cases hs : succeeds (sequence conf env beh initialised) with
  | false =>
    rw [hs, if_neg (by simp)] at hres
    subst hres
    exact ⟨hr.log, hinit, by simp, rfl⟩
  | true =>
    rw [hs, if_pos rfl] at hres
    subst hres
    have hmain : succeeds (mainSteps conf beh) = true := by
      simp only [sequence, succeeds_append, Bool.and_eq_true] at hs
      exact hs.2.2.2.1
    refine ⟨hr.log, hinit, by simpa using hr.close, ?_⟩
    rw [if_neg (by simp)]
    let ctx : RequestCtx := { x.ctx with rc := documentedResult conf beh }
    have hrc : 0 ≤ ctx.rc := documentedResult_nonneg hmain
    rw [show respond headers ctx = _ from respond_select hrc hr.redirect (redirects_valid _ _) headers,
      show ctx.status = status from hstatus]

/-- The pre chunk redirects with a result, the main chunk is not run, and the post chunk asks for closing. -/
theorem run_is_documented_redirect :
    let beh : Chunk → Behaviour := fun c => match c with
      | .pre => ⟨[.redirect [0x2f] none true true, .setcomplete], .integer 404⟩
      | .post => ⟨[.setclose, .setcomplete], .integer 7⟩
      | _ => {}
    let x := lwsRunState ⟨true, true, true⟩ {} beh { ctx := { status := 200 } }
    x.log = [(.init, true), (.pre, true), (.post, true)] ∧ x.close = true ∧
      respond true x.ctx = .internalRedirect [0x2f] {} := by
  intro beh
  obtain ⟨h1, -, h3, h4⟩ := run_is_documented ⟨true, true, true⟩ {} beh false false true 200
    (fun c => by cases c <;> simp [beh, LuaResult.FitsInt])
    (fun c => by cases c <;> simp [beh, ChunkCall.Allocates])
  exact ⟨h1.trans (by decide), h3.trans (by decide), h4.trans (by decide)⟩

end Lws

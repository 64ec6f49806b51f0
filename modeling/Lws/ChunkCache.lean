import Mathlib.Logic.Function.Basic
import Lws.ChunkResult
/-!
# ChunkCache — the chunk functions that a Lua state keeps (`lws_call`, `lws_clear_env`, `lws_run`)

A Lua state keeps the function of each filename, for the chunks of all requests.  `lws_call` sets its `_ENV`, and the end of
`lws_run` puts the global environment back for the functions that it has called with that of the request.  Lua code may assign
`_ENV` too, while a chunk runs, to the function of that chunk or to another one that it has a closure of.  `lwsRunCached` is
`lwsRun` with this table (`lwsRunCached_run`).
-/
namespace Lws

/-- The `_ENV` of a chunk function: the global environment, that of a request, or what else Lua code has assigned. -/
inductive ChunkEnv where
  | global
  | request (n : Nat)
  | other
deriving DecidableEq, Repr

/-- `LWS_CHUNKS`: the functions by filename, each with its `_ENV`, which is its first upvalue. -/
abbrev ChunkCache := Key → Option ChunkEnv

structure ChunkFiles where
  init : Key := []
  pre : Key := []
  post : Key := []

def ChunkFiles.conf (files : ChunkFiles) : ChunkConf := ⟨files.init ≠ [], files.pre ≠ [], files.post ≠ []⟩

/-! ## What a chunk does -/

/-- What the program takes notice of: a call of the library, an assignment to `response.status`, and a flush of the response body,
which seals the response. -/
inductive LuaAction where
  | call (c : ChunkCall)
  | status (n : Int)
  | flush
deriving DecidableEq, Repr

def Run.step (x : Run) : LuaAction → Run
  | .call c => x.call c
  | .status n => if x.lctx.sealed then x else { x with ctx := { x.ctx with status := n.bmod (2 ^ 32) } }
  | .flush => { x with lctx := { x.lctx with sealed := true } }

/-- What the Lua code of a chunk does: its steps, the functions whose `_ENV` it assigns, and how it ends. -/
structure LuaBehaviour where
  steps : List LuaAction := []
  assigns : List (Key × ChunkEnv) := []
  result : LuaResult := .nil
deriving DecidableEq, Repr

/-! ## The run -/

/-- A run with the cache of its Lua state, and the environments that its chunks were called with. -/
structure CachedRun where
  run : Run := {}
  cache : ChunkCache := fun _ => none
  entered : List (Chunk × ChunkEnv) := []

/-- "get, or load and store, the function"; a new function has the global environment, and `none` is a file that does not
load. -/
def loadChunk (filename : Key) (loads : Bool) (cache : ChunkCache) : Option ChunkCache :=
  match cache filename with
  | some _ => some cache
  | none => if loads then some (Function.update cache filename (some .global)) else none

def setChunkEnv (filename : Key) (env : ChunkEnv) (cache : ChunkCache) : ChunkCache := Function.update cache filename (some env)

/-- An assignment to the `_ENV` of a function, if there is one. -/
def assignEnv (cache : ChunkCache) (p : Key × ChunkEnv) : ChunkCache :=
  match cache p.1 with
  | none => cache
  | some _ => setChunkEnv p.1 p.2 cache

/-- `lws_call`, for the request `n`; a file that does not load is an error of the chunk. -/
def CachedRun.call (n : Nat) (filename : Key) (chunk : Chunk) (loads : Bool) (beh : LuaBehaviour) (x : CachedRun) :
    CachedRun × Option Int :=
  match loadChunk filename loads x.cache with
  | none => (⟨(lwsCall chunk { result := .error } x.run).1, x.cache, x.entered⟩, none)
  | some cache =>
    let env : ChunkEnv := if chunk ≠ .init then .request n else .global
    let run := beh.steps.foldl Run.step { x.run with lctx := { x.run.lctx with chunk := chunk } }
    let r := lwsCall chunk { result := beh.result } run
    (⟨r.1, beh.assigns.foldl assignEnv (setChunkEnv filename env cache), x.entered ++ [(chunk, env)]⟩, r.2)

def lwsClearEnv (filename : Key) (cache : ChunkCache) : ChunkCache :=
  match cache filename with
  | none => cache
  | some _ => setChunkEnv filename .global cache

section
variable (files : ChunkFiles) (main : Key) (n : Nat) (loads : Chunk → Bool)

def CachedRun.runInit (beh : LuaBehaviour) (x : CachedRun) : CachedRun × Outcome :=
  if !x.run.init then
    if files.conf.init then
      match x.call n files.init .init (loads .init) beh with
      | (x, none) => (x, .error)
      | (x, some _) => (⟨{ x.run with init := true }, x.cache, x.entered⟩, .ok)
    else (⟨{ x.run with init := true }, x.cache, x.entered⟩, .ok)
  else (x, .ok)

/-- The pre and main part of `lws_run`, with its `result`. -/
def CachedRun.runMain (pre beh : LuaBehaviour) (x : CachedRun) : CachedRun × Option Int :=
  if files.conf.pre then
    match x.call n files.pre .pre (loads .pre) pre with
    | (x, none) => (x, none)
    | (x, some result) => if x.run.lctx.complete then (x, some result) else x.call n main .main (loads .main) beh
  else x.call n main .main (loads .main) beh

def CachedRun.runPost (beh : LuaBehaviour) (x : CachedRun) : CachedRun × Outcome :=
  if files.conf.post then
    match x.call n files.post .post (loads .post) beh with
    | (x, none) => (x, .error)
    | (x, some _) => (x, .ok)
  else (x, .ok)

def CachedRun.clear (x : CachedRun) : CachedRun :=
  let cache := if files.conf.pre then lwsClearEnv files.pre x.cache else x.cache
  let cache := if !x.run.lctx.complete then lwsClearEnv main cache else cache
  let cache := if files.conf.post then lwsClearEnv files.post cache else cache
  ⟨x.run, cache, x.entered⟩

def lwsRunCached (env : RunEnv) (beh : Chunk → LuaBehaviour) (x : CachedRun) : CachedRun × Option Int :=
  let x : CachedRun := ⟨{ x.run with lctx := {} }, x.cache, x.entered⟩
  if !env.setup then (x, none)
  else
    match x.runInit files n loads (beh .init) with
    | (x, .error) => (x, none)
    | (x, .ok) =>
      if !env.pushEnv then (x, none)
      else
        match x.runMain files main n loads (beh .pre) (beh .main) with
        | (x, none) => (x, none)
        | (x, some result) =>
          match x.runPost files n loads (beh .post) with
          | (x, .error) => (x, none)
          | (x, .ok) =>
            let x := x.clear files main
            if !env.finish then (x, none) else (x, some result)

end

/-! ## The requests of a Lua state -/

structure ServedRequest where
  main : Key
  loads : Chunk → Bool
  env : RunEnv
  beh : Chunk → LuaBehaviour

/-- A Lua state between two requests: how many it has served, `state->init`, and its cache. -/
structure ServingState where
  served : Nat := 0
  init : Bool := false
  cache : ChunkCache := fun _ => none

def ServingState.run (files : ChunkFiles) (s : ServingState) (r : ServedRequest) : CachedRun × Option Int :=
  lwsRunCached files r.main s.served r.loads r.env r.beh ⟨{ init := s.init }, s.cache, []⟩

/-- A Lua state serves a request; after an error it serves no other. -/
def ServingState.serve (files : ChunkFiles) (s : ServingState) (r : ServedRequest) : Option ServingState :=
  match s.run files r with
  | (x, some _) => some ⟨s.served + 1, x.run.init, x.cache⟩
  | (_, none) => none

def ChunkCache.Clean (cache : ChunkCache) : Prop := ∀ filename env, cache filename = some env → env = .global

/-- The init chunk is called with the global environment, and each other chunk with that of its own request. -/
def EntersRight (n : Nat) (entered : List (Chunk × ChunkEnv)) : Prop :=
  ∀ e ∈ entered, e.2 = if e.1 = .init then .global else .request n

def clearedFiles (files : ChunkFiles) (main : Key) (complete : Bool) : List Key :=
  (if files.conf.pre then [files.pre] else []) ++
    ((if complete then [] else [main]) ++ if files.conf.post then [files.post] else [])

/-- In one of the requests, Lua code has assigned the environment to the function of a file that the run does not clear. -/
def Assigned (files : ChunkFiles) (requests : List ServedRequest) (filename : Key) (env : ChunkEnv) : Prop :=
  ∃ before request after s x result, requests = before ++ request :: after ∧
    before.foldlM (ServingState.serve files) {} = some s ∧ s.run files request = (x, some result) ∧
    filename ∉ clearedFiles files request.main x.run.lctx.complete ∧
    ∃ p ∈ x.entered, (filename, env) ∈ (request.beh p.1).assigns

/-! ## The run without the cache -/

/-- The chunk does no more than the other one, as far as `Chunks` goes. -/
def LuaBehaviour.Plain (beh : LuaBehaviour) (plain : Behaviour) : Prop :=
  beh.steps = plain.calls.map .call ∧ beh.result = plain.result

theorem run_pair {V : Type} {r : CachedRun × V} {r' : Run × V} (h : (r.1.run, r.2) = r') :
    ∃ x v, r = (x, v) ∧ r' = (x.run, v) := ⟨r.1, r.2, rfl, h.symm⟩

theorem lwsRedirect_chunk (path : Key) (args : Option Key) (memArgs mem : Bool) (lctx : LuaCtx) (ctx : RequestCtx) :
    (lwsRedirect path args memArgs mem lctx ctx).1.chunk = lctx.chunk := by
  simp only [lwsRedirect]
  split
  · rfl
  · split
    · rfl
    · split
      · rfl
      · split
        · rfl
        · split
          · rfl
          · split <;> rfl

theorem foldl_call_chunk : ∀ (calls : List ChunkCall) (x : Run), (calls.foldl Run.call x).lctx.chunk = x.lctx.chunk
  | [], _ => rfl
  | c :: calls, x => by
    have hone : (x.call c).lctx.chunk = x.lctx.chunk := by
      cases c with
      | setcomplete =>
        simp only [Run.call, lwsSetcomplete]
        split <;> rfl
      | setclose => rfl
      | redirect path args memArgs mem => exact lwsRedirect_chunk path args memArgs mem x.lctx x.ctx
    rw [List.foldl_cons, foldl_call_chunk calls, hone]

theorem step_chunk (x : Run) (step : LuaAction) : (x.step step).lctx.chunk = x.lctx.chunk := by
  cases step with
  | call c => exact foldl_call_chunk [c] x
  | status n =>
    rw [Run.step]
    split
    · rfl
    · rfl
  | flush => rfl

theorem foldl_step_chunk : ∀ (steps : List LuaAction) (x : Run), (steps.foldl Run.step x).lctx.chunk = x.lctx.chunk
  | [], _ => rfl
  | step :: steps, x => by rw [List.foldl_cons, foldl_step_chunk steps, step_chunk]

theorem lwsCall_steps {beh : LuaBehaviour} {plain : Behaviour} (h : beh.Plain plain) (chunk : Chunk) (x : Run) :
    lwsCall chunk { result := beh.result } (beh.steps.foldl Run.step { x with lctx := { x.lctx with chunk := chunk } }) =
      lwsCall chunk plain x := by
  have hchunk : _ = chunk := foldl_call_chunk plain.calls { x with lctx := { x.lctx with chunk := chunk } }
  rw [h.1, h.2, List.foldl_map]
  change lwsCall chunk _ (plain.calls.foldl Run.call _) = _
  unfold lwsCall
  generalize plain.calls.foldl Run.call { x with lctx := { x.lctx with chunk := chunk } } = y at hchunk
  have hy : { y with lctx := { y.lctx with chunk := chunk } } = y := by rw [← hchunk]
  rw [List.foldl_nil, hy]

section
variable (files : ChunkFiles) (main : Key) (n : Nat) {loads : Chunk → Bool} (hloads : ∀ chunk, loads chunk = true)
include hloads

theorem call_run (filename : Key) (chunk : Chunk) {beh : LuaBehaviour} {plain : Behaviour} (h : beh.Plain plain) (x : CachedRun) :
    ((x.call n filename chunk (loads chunk) beh).1.run, (x.call n filename chunk (loads chunk) beh).2) =
      lwsCall chunk plain x.run := by
  have hload : ∃ cache, loadChunk filename (loads chunk) x.cache = some cache := by
    rw [loadChunk, hloads]
    split
    · exact ⟨_, rfl⟩
    · exact ⟨_, rfl⟩
  obtain ⟨cache, hload⟩ := hload
  rw [CachedRun.call, hload, ← lwsCall_steps h]

theorem runInit_run {beh : LuaBehaviour} {plain : Behaviour} (h : beh.Plain plain) (x : CachedRun) :
    ((x.runInit files n loads beh).1.run, (x.runInit files n loads beh).2) = runInit files.conf plain x.run := by
  obtain ⟨y, r, hcached, hcall⟩ := run_pair (call_run n hloads files.init .init h x)
  unfold CachedRun.runInit runInit
  rw [hcached, hcall]
  split
  · split
    · cases r with
      | none => rfl
      | some result => rfl
    · rfl
  · rfl

theorem runMain_run {pre beh : LuaBehaviour} {plainPre plain : Behaviour} (hpre : pre.Plain plainPre) (h : beh.Plain plain)
    (x : CachedRun) : ((x.runMain files main n loads pre beh).1.run, (x.runMain files main n loads pre beh).2) =
      runMain files.conf plainPre plain x.run := by
  obtain ⟨y, r, hcached, hcall⟩ := run_pair (call_run n hloads files.pre .pre hpre x)
  unfold CachedRun.runMain runMain
  rw [hcached, hcall]
  split
  · cases r with
    | none => rfl
    | some result =>
      dsimp only
      split
      · rfl
      · exact call_run n hloads main .main h y
  · exact call_run n hloads main .main h x

theorem runPost_run {beh : LuaBehaviour} {plain : Behaviour} (h : beh.Plain plain) (x : CachedRun) :
    ((x.runPost files n loads beh).1.run, (x.runPost files n loads beh).2) = runPost files.conf plain x.run := by
  obtain ⟨y, r, hcached, hcall⟩ := run_pair (call_run n hloads files.post .post h x)
  unfold CachedRun.runPost runPost
  rw [hcached, hcall]
  split
  · cases r with
    | none => rfl
    | some result => rfl
  · rfl

/-- **The cache is invisible to a run whose files load.** -/
theorem lwsRunCached_run (env : RunEnv) {beh : Chunk → LuaBehaviour} {plain : Chunk → Behaviour}
    (h : ∀ chunk, (beh chunk).Plain (plain chunk)) (x : CachedRun) :
    ((lwsRunCached files main n loads env beh x).1.run, (lwsRunCached files main n loads env beh x).2) =
      lwsRun files.conf env plain x.run := by
  unfold lwsRunCached lwsRun
  dsimp only
  split
  · rfl
  · obtain ⟨y, o, hcached, hinit⟩ :=
      run_pair (runInit_run files n hloads (h .init) ⟨{ x.run with lctx := {} }, x.cache, x.entered⟩)
    dsimp only at hinit
    rw [hcached, hinit]
    cases o with
    | error => rfl
    | ok =>
      dsimp only
      split
      · rfl
      · obtain ⟨z, r, hcached, hmain⟩ := run_pair (runMain_run files main n hloads (h .pre) (h .main) y)
        rw [hcached, hmain]
        cases r with
        | none => rfl
        | some result =>
          obtain ⟨u, o, hcached, hpost⟩ := run_pair (runPost_run files n hloads (h .post) z)
          dsimp only
          rw [hcached, hpost]
          cases o with
          | error => rfl
          | ok =>
            dsimp only
            split
            · rfl
            · rfl

end

/-! ## The environments of a run -/

section
variable {files : ChunkFiles} {main : Key} {n : Nat} {loads : Chunk → Bool} {x y : CachedRun}

theorem EntersRight.call (h : EntersRight n x.entered) (filename : Key) (chunk : Chunk) (b : Bool) (beh : LuaBehaviour) :
    EntersRight n (x.call n filename chunk b beh).1.entered := by
  unfold CachedRun.call
  split
  · exact h
  · intro e he
    rcases List.mem_append.1 he with he | he
    · exact h e he
    · obtain rfl := List.mem_singleton.1 he
      by_cases hinit : chunk = .init
      · rw [if_neg (not_not.2 hinit), if_pos hinit]
      · rw [if_pos hinit, if_neg hinit]

theorem EntersRight.runInit (h : EntersRight n x.entered) (beh : LuaBehaviour) :
    EntersRight n (x.runInit files n loads beh).1.entered := by
  have hcall := h.call files.init .init (loads .init) beh
  unfold CachedRun.runInit
  split
  · split
    · split
      · rename_i hr
        rwa [hr] at hcall
      · rename_i hr
        rwa [hr] at hcall
    · exact h
  · exact h

theorem EntersRight.runMain (h : EntersRight n x.entered) (pre beh : LuaBehaviour) :
    EntersRight n (x.runMain files main n loads pre beh).1.entered := by
  have hcall := h.call files.pre .pre (loads .pre) pre
  unfold CachedRun.runMain
  split
  · split
    · rename_i hr
      rwa [hr] at hcall
    · rename_i hr
      rw [hr] at hcall
      split
      · exact hcall
      · exact EntersRight.call hcall main .main (loads .main) beh
  · exact h.call main .main (loads .main) beh

theorem EntersRight.runPost (h : EntersRight n x.entered) (beh : LuaBehaviour) :
    EntersRight n (x.runPost files n loads beh).1.entered := by
  have hcall := h.call files.post .post (loads .post) beh
  unfold CachedRun.runPost
  split
  · split
    · rename_i hr
      rwa [hr] at hcall
    · rename_i hr
      rwa [hr] at hcall
  · exact h

/-- **A run calls each chunk with its environment**, also where it ends in an error. -/
theorem EntersRight.of_run (env : RunEnv) (beh : Chunk → LuaBehaviour) (h : EntersRight n x.entered) :
    EntersRight n (lwsRunCached files main n loads env beh x).1.entered := by
  let start : CachedRun := ⟨{ x.run with lctx := {} }, x.cache, x.entered⟩
  have hstart : EntersRight n start.entered := h
  have hinit : EntersRight n (start.runInit files n loads (beh .init)).1.entered := hstart.runInit (beh .init)
  unfold lwsRunCached
  dsimp only
  split
  · exact h
  · split
    · rename_i hr
      rwa [hr] at hinit
    · rename_i y hr
      rw [hr] at hinit
      split
      · exact hinit
      · have hmain : EntersRight n (y.runMain files main n loads (beh .pre) (beh .main)).1.entered :=
          hinit.runMain (beh .pre) (beh .main)
        split
        · rename_i hr
          rwa [hr] at hmain
        · rename_i z result hr
          rw [hr] at hmain
          have hpost : EntersRight n (z.runPost files n loads (beh .post)).1.entered := hmain.runPost (beh .post)
          split
          · rename_i hr
            rwa [hr] at hpost
          · rename_i hr
            rw [hr] at hpost
            split
            · exact hpost
            · exact hpost

/-! ## The cache of a run -/

/-- Outside `touched` the functions have environments as `P` says. -/
def CleanOutside (P : Key → ChunkEnv → Prop) (touched : List Key) (cache : ChunkCache) : Prop :=
  ∀ filename env, cache filename = some env → P filename env ∨ filename ∈ touched

section
variable {P : Key → ChunkEnv → Prop} {touched : List Key} {cache : ChunkCache}

theorem CleanOutside.set (h : CleanOutside P touched cache) (filename : Key) {env : ChunkEnv}
    (henv : P filename env ∨ filename ∈ touched) : CleanOutside P touched (setChunkEnv filename env cache) := by
  intro filename' env' hset
  by_cases hf : filename' = filename
  · subst hf
    rw [setChunkEnv, Function.update_self] at hset
    rwa [← Option.some.inj hset]
  · rw [setChunkEnv, Function.update_of_ne hf] at hset
    exact h filename' env' hset

theorem CleanOutside.assign : ∀ (assigns : List (Key × ChunkEnv)) {cache : ChunkCache}, CleanOutside P touched cache →
    (∀ p ∈ assigns, P p.1 p.2 ∨ p.1 ∈ touched) → CleanOutside P touched (assigns.foldl assignEnv cache)
  | [], _, h, _ => h
  | p :: assigns, cache, h, hassigns => by
    refine CleanOutside.assign assigns ?_ fun q hq => hassigns q (List.mem_cons_of_mem _ hq)
    unfold assignEnv
    split
    · exact h
    · exact h.set p.1 (hassigns p List.mem_cons_self)

theorem CleanOutside.clear {filename : Key} (hglobal : ∀ filename, P filename .global)
    (h : CleanOutside P (filename :: touched) cache) : CleanOutside P touched (lwsClearEnv filename cache) := by
  have hother (filename' : Key) (env : ChunkEnv) (hne : filename' ≠ filename) (hf : cache filename' = some env) :
      P filename' env ∨ filename' ∈ touched :=
    (h filename' env hf).imp_right fun hmem => (List.mem_cons.1 hmem).resolve_left hne
  unfold lwsClearEnv
  split
  · rename_i hnone
    intro filename' env hf
    refine hother filename' env ?_ hf
    rintro rfl
    rw [hnone] at hf
    cases hf
  · intro filename' env hf
    by_cases hne : filename' = filename
    · subst hne
      rw [setChunkEnv, Function.update_self] at hf
      obtain rfl := Option.some.inj hf
      exact .inl (hglobal filename')
    · rw [setChunkEnv, Function.update_of_ne hne] at hf
      exact hother filename' env hne hf

end

section
variable {P : Key → ChunkEnv → Prop} (hglobal : ∀ filename, P filename .global) {touched : List Key}
include hglobal

theorem CleanOutside.load {cache cache' : ChunkCache} (h : CleanOutside P touched cache) {filename : Key} {b : Bool}
    (hload : loadChunk filename b cache = some cache') : CleanOutside P touched cache' := by
  unfold loadChunk at hload
  split at hload
  · rw [← Option.some.inj hload]
    exact h
  · split at hload
    · rw [← Option.some.inj hload]
      exact h.set filename (.inl (hglobal filename))
    · cases hload

theorem CleanOutside.call (h : CleanOutside P touched x.cache) (filename : Key) (chunk : Chunk) (b : Bool)
    (beh : Chunk → LuaBehaviour) (htouched : chunk = .init ∨ filename ∈ touched)
    (hassigns : ∀ p ∈ (x.call n filename chunk b (beh chunk)).1.entered, ∀ q ∈ (beh p.1).assigns, P q.1 q.2 ∨ q.1 ∈ touched) :
    CleanOutside P touched (x.call n filename chunk b (beh chunk)).1.cache := by
  unfold CachedRun.call at hassigns ⊢
  split
  · exact h
  · rename_i cache hload
    rw [hload] at hassigns
    refine CleanOutside.assign (beh chunk).assigns ((h.load hglobal hload).set filename ?_) ?_
    · rcases htouched with rfl | hmem
      · exact .inl (hglobal filename)
      · exact .inr hmem
    · exact hassigns _ (List.mem_append_right _ List.mem_cons_self)

end

theorem call_entered (filename : Key) (chunk : Chunk) (b : Bool) (beh : LuaBehaviour) (x : CachedRun) :
    x.entered ⊆ (x.call n filename chunk b beh).1.entered := by
  unfold CachedRun.call
  split
  · exact List.Subset.refl _
  · exact List.subset_append_left _ _

/-! ### What completes a request -/

theorem lwsRedirect_lctx {lctx : LuaCtx} (h : lctx.chunk ≠ .pre) (path : Key) (args : Option Key) (memArgs mem : Bool)
    (ctx : RequestCtx) : (lwsRedirect path args memArgs mem lctx ctx).1 = lctx := by
  simp only [lwsRedirect, if_neg h]
  split
  · rfl
  · split
    · rfl
    · split
      · rfl
      · split
        · rfl
        · split <;> rfl

theorem foldl_step_complete : ∀ (steps : List LuaAction) {x : Run}, x.lctx.chunk ≠ .pre →
    (steps.foldl Run.step x).lctx.complete = x.lctx.complete
  | [], _, _ => rfl
  | c :: steps, x, hchunk => by
    have hone : (x.step c).lctx.complete = x.lctx.complete := by
      cases c with
      | call c =>
        have hsame : (x.call c).lctx = x.lctx := by
          cases c with
          | setcomplete => simp only [Run.call, lwsSetcomplete, if_pos hchunk]
          | setclose => rfl
          | redirect path args memArgs mem => exact lwsRedirect_lctx hchunk path args memArgs mem x.ctx
        rw [Run.step, hsame]
      | status n =>
        rw [Run.step]
        split
        · rfl
        · rfl
      | flush => rfl
    rw [List.foldl_cons, foldl_step_complete steps (by rw [step_chunk]; exact hchunk), hone]

theorem lwsCall_complete {chunk : Chunk} (hchunk : chunk ≠ .pre) (result : LuaResult) (x : Run) :
    (lwsCall chunk { result := result } x).1.lctx.complete = x.lctx.complete := by
  unfold lwsCall
  dsimp only
  split
  · rfl
  · split
    · rfl
    · dsimp only
      rw [decide_eq_false hchunk, Bool.and_false, Bool.or_false]
      rfl

theorem call_complete {chunk : Chunk} (hchunk : chunk ≠ .pre) (filename : Key) (b : Bool) (beh : LuaBehaviour) (x : CachedRun) :
    (x.call n filename chunk b beh).1.run.lctx.complete = x.run.lctx.complete := by
  unfold CachedRun.call
  split
  · exact lwsCall_complete hchunk _ _
  · exact (lwsCall_complete hchunk _ _).trans (foldl_step_complete beh.steps hchunk)

theorem runInit_complete (beh : LuaBehaviour) (x : CachedRun) :
    (x.runInit files n loads beh).1.run.lctx.complete = x.run.lctx.complete := by
  have hsame := @call_complete n .init (by decide) files.init (loads .init) beh x
  unfold CachedRun.runInit
  split
  · split
    · split
      · rename_i hr
        rwa [hr] at hsame
      · rename_i hr
        rwa [hr] at hsame
    · rfl
  · rfl

theorem runPost_complete (beh : LuaBehaviour) (x : CachedRun) :
    (x.runPost files n loads beh).1.run.lctx.complete = x.run.lctx.complete := by
  have hsame := @call_complete n .post (by decide) files.post (loads .post) beh x
  unfold CachedRun.runPost
  split
  · split
    · rename_i hr
      rwa [hr] at hsame
    · rename_i hr
      rwa [hr] at hsame
  · rfl

/-! ### The parts of a run -/

section
variable {P : Key → ChunkEnv → Prop} (hglobal : ∀ filename, P filename .global) {touched : List Key} {beh : Chunk → LuaBehaviour}
  (hassigns : ∀ p ∈ y.entered, ∀ q ∈ (beh p.1).assigns, P q.1 q.2 ∨ q.1 ∈ touched)
include hglobal hassigns

theorem CleanOutside.runInit (h : CleanOutside P touched x.cache) (hr : x.runInit files n loads (beh .init) = (y, .ok)) :
    CleanOutside P touched y.cache := by
  unfold CachedRun.runInit at hr
  split at hr
  · split at hr
    · have hcall := CleanOutside.call (n := n) hglobal h files.init .init (loads .init) beh (.inl rfl)
      split at hr
      · cases hr
      · rename_i hz
        rw [hz] at hcall
        obtain ⟨rfl, -⟩ := Prod.mk.inj hr
        exact hcall hassigns
    · obtain ⟨rfl, -⟩ := Prod.mk.inj hr
      exact h
  · obtain ⟨rfl, -⟩ := Prod.mk.inj hr
    exact h

/-- **The pre and main part** leaves its environment in the functions that are cleared for it. -/
theorem CleanOutside.runMain (h : CleanOutside P touched x.cache) (hcomplete : x.run.lctx.complete = false) {result : Int}
    (hr : x.runMain files main n loads (beh .pre) (beh .main) = (y, some result))
    (hsub : clearedFiles files main y.run.lctx.complete ⊆ touched) : CleanOutside P touched y.cache := by
  have hmain {z : CachedRun} (hz : CleanOutside P touched z.cache) (hincomplete : z.run.lctx.complete = false)
      (hcall : z.call n main .main (loads .main) (beh .main) = (y, some result)) : CleanOutside P touched y.cache := by
    have hsame := @call_complete n .main (by decide) main (loads .main) (beh .main) z
    rw [hcall] at hsame
    have hfalse : y.run.lctx.complete = false := hsame.trans hincomplete
    have htouched : main ∈ touched := hsub (by simp [clearedFiles, hfalse])
    have hclean := CleanOutside.call (n := n) hglobal hz main .main (loads .main) beh (.inr htouched)
    rw [hcall] at hclean
    exact hclean hassigns
  unfold CachedRun.runMain at hr
  split at hr
  · rename_i hpre
    have htouched : files.pre ∈ touched := hsub (by simp [clearedFiles, hpre])
    have hcall := CleanOutside.call (n := n) hglobal h files.pre .pre (loads .pre) beh (.inr htouched)
    split at hr
    · cases hr
    · rename_i z result' hz
      rw [hz] at hcall
      split at hr
      · obtain ⟨rfl, -⟩ := Prod.mk.inj hr
        exact hcall hassigns
      · rename_i hincomplete
        refine hmain (hcall fun p hp => hassigns p ?_) (Bool.eq_false_of_not_eq_true hincomplete) hr
        have hentered := call_entered (n := n) main .main (loads .main) (beh .main) z
        rw [hr] at hentered
        exact hentered hp
  · exact hmain h hcomplete hr

theorem CleanOutside.runPost (h : CleanOutside P touched x.cache) (hr : x.runPost files n loads (beh .post) = (y, .ok))
    (hsub : clearedFiles files main y.run.lctx.complete ⊆ touched) : CleanOutside P touched y.cache := by
  unfold CachedRun.runPost at hr
  split at hr
  · rename_i hpost
    have htouched : files.post ∈ touched := hsub (by simp [clearedFiles, hpost])
    have hcall := CleanOutside.call (n := n) hglobal h files.post .post (loads .post) beh (.inr htouched)
    split at hr
    · cases hr
    · rename_i z result hz
      rw [hz] at hcall
      obtain ⟨rfl, -⟩ := Prod.mk.inj hr
      exact hcall hassigns
  · obtain ⟨rfl, -⟩ := Prod.mk.inj hr
    exact h

end

theorem CleanOutside.clearRun {P : Key → ChunkEnv → Prop} (hglobal : ∀ filename, P filename .global)
    (h : CleanOutside P (clearedFiles files main x.run.lctx.complete) x.cache) : CleanOutside P [] (x.clear files main).cache := by
  have hone (b : Bool) (filename : Key) {touched : List Key} {cache : ChunkCache}
      (h : CleanOutside P ((if b then [filename] else []) ++ touched) cache) :
      CleanOutside P touched (if b then lwsClearEnv filename cache else cache) := by
    cases b with
    | true => exact h.clear hglobal
    | false => exact h
  have hpre := hone _ files.pre h
  have hflip : (if x.run.lctx.complete then [] else [main]) = if !x.run.lctx.complete then [main] else [] := by
    cases x.run.lctx.complete <;> rfl
  rw [hflip] at hpre
  have hmain := hone _ main hpre
  rw [← List.append_nil (if files.conf.post then [files.post] else [])] at hmain
  exact hone _ files.post hmain

theorem runMain_entered (pre beh : LuaBehaviour) (x : CachedRun) :
    x.entered ⊆ (x.runMain files main n loads pre beh).1.entered := by
  have hcall := call_entered (n := n) files.pre .pre (loads .pre) pre x
  unfold CachedRun.runMain
  split
  · split
    · rename_i hr
      rwa [hr] at hcall
    · rename_i y result hr
      rw [hr] at hcall
      split
      · exact hcall
      · exact List.Subset.trans hcall (call_entered main .main (loads .main) beh y)
  · exact call_entered main .main (loads .main) beh x

theorem runPost_entered (beh : LuaBehaviour) (x : CachedRun) : x.entered ⊆ (x.runPost files n loads beh).1.entered := by
  have hcall := call_entered (n := n) files.post .post (loads .post) beh x
  unfold CachedRun.runPost
  split
  · split
    · rename_i hr
      rwa [hr] at hcall
    · rename_i hr
      rwa [hr] at hcall
  · exact List.Subset.refl _

/-- **A run that returns** leaves the environments as `P` says, if Lua code assigns no other one but to functions that the run
clears. -/
theorem CleanOutside.of_run {P : Key → ChunkEnv → Prop} (hglobal : ∀ filename, P filename .global) (env : RunEnv)
    {beh : Chunk → LuaBehaviour} (h : CleanOutside P [] x.cache) {result : Int}
    (hr : lwsRunCached files main n loads env beh x = (y, some result))
    (hassigns : ∀ p ∈ y.entered, ∀ q ∈ (beh p.1).assigns,
      P q.1 q.2 ∨ q.1 ∈ clearedFiles files main y.run.lctx.complete) : CleanOutside P [] y.cache := by
  have hstart : CleanOutside P (clearedFiles files main y.run.lctx.complete) x.cache :=
    fun filename env hf => .inl ((h filename env hf).resolve_right List.not_mem_nil)
  have hcomplete : (CachedRun.runInit files n loads (beh .init)
      ⟨{ x.run with lctx := {} }, x.cache, x.entered⟩).1.run.lctx.complete = false := runInit_complete (beh .init) _
  unfold lwsRunCached at hr
  dsimp only at hr
  split at hr
  · cases hr
  · split at hr
    · cases hr
    · rename_i z hinit
      rw [hinit] at hcomplete
      split at hr
      · cases hr
      · split at hr
        · cases hr
        · rename_i u result' hmain
          have hu : z.entered ⊆ (z.runMain files main n loads (beh .pre) (beh .main)).1.entered :=
            runMain_entered (beh .pre) (beh .main) z
          rw [hmain] at hu
          split at hr
          · cases hr
          · rename_i v hpost
            have hv : u.entered ⊆ (u.runPost files n loads (beh .post)).1.entered := runPost_entered (beh .post) u
            rw [hpost] at hv
            split at hr
            · cases hr
            · obtain ⟨rfl, -⟩ := Prod.mk.inj hr
              have hsame : (u.runPost files n loads (beh .post)).1.run.lctx.complete = u.run.lctx.complete :=
                runPost_complete (beh .post) u
              rw [hpost] at hsame
              have hclean := CleanOutside.runInit (x := ⟨{ x.run with lctx := {} }, x.cache, x.entered⟩) hglobal
                (fun p hp => hassigns p (hv (hu hp))) hstart hinit
              have hclean := CleanOutside.runMain hglobal (fun p hp => hassigns p (hv hp)) hclean hcomplete hmain
                (by rw [← show v.run.lctx.complete = u.run.lctx.complete from hsame]; exact List.Subset.refl _)
              have hclean := CleanOutside.runPost (y := v) hglobal hassigns hclean hpost (List.Subset.refl _)
              exact hclean.clearRun hglobal

end

/-! ## The requests of a Lua state -/

section
variable {files : ChunkFiles} {s s' : ServingState} {request : ServedRequest} {requests : List ServedRequest} {filename : Key}
  {env : ChunkEnv}

theorem ServingState.serve_eq (h : s.serve files request = some s') :
    ∃ x result, s.run files request = (x, some result) ∧ s' = ⟨s.served + 1, x.run.init, x.cache⟩ := by
  unfold ServingState.serve at h
  split at h
  · rename_i x result hr
    exact ⟨x, result, hr, (Option.some.inj h).symm⟩
  · cases h

theorem Assigned.append (h : Assigned files requests filename env) (more : List ServedRequest) :
    Assigned files (requests ++ more) filename env := by
  obtain ⟨before, request, after, s, x, result, rfl, hs⟩ := h
  exact ⟨before, request, after ++ more, s, x, result, by simp, hs⟩

/-- **After any requests** a function has the global environment, or one that Lua code has assigned to it. -/
theorem serve_all_clean : ∀ (requests : List ServedRequest) {s : ServingState},
    requests.foldlM (ServingState.serve files) {} = some s →
    CleanOutside (fun filename env => env = .global ∨ Assigned files requests filename env) [] s.cache := by
  intro requests
  induction requests using List.reverseRecOn with
  | nil =>
    intro s hs
    obtain rfl := Option.some.inj hs
    intro filename env hf
    cases hf
  | append_singleton before request ih =>
    intro s' hs'
    rw [List.foldlM_append, Option.bind_eq_bind, Option.bind_eq_some_iff] at hs'
    obtain ⟨s, hs, hserve⟩ := hs'
    have hserve : s.serve files request = some s' := by simpa using hserve
    obtain ⟨x, result, hr, rfl⟩ := ServingState.serve_eq hserve
    have hbefore : CleanOutside (fun filename env => env = .global ∨ Assigned files (before ++ [request]) filename env) []
        s.cache := fun filename env hf => (ih hs filename env hf).imp_left fun h => h.imp_right fun h => h.append [request]
    refine hbefore.of_run (fun _ => .inl rfl) request.env hr fun p hp q hq => ?_
    by_cases hcleared : q.1 ∈ clearedFiles files request.main x.run.lctx.complete
    · exact .inr hcleared
    · exact .inl (.inr ⟨before, request, [], s, x, result, rfl, hs, hr, hcleared, p, hp, hq⟩)

theorem ServingState.serve_served : ∀ (requests : List ServedRequest) {s s' : ServingState},
    requests.foldlM (ServingState.serve files) s = some s' → s'.served = s.served + requests.length
  | [], _, _, hs => by
    obtain rfl := Option.some.inj hs
    rfl
  | request :: requests, s, s', hs => by
    rw [List.foldlM_cons, Option.bind_eq_bind, Option.bind_eq_some_iff] at hs
    obtain ⟨t, ht, hs⟩ := hs
    obtain ⟨x, result, -, rfl⟩ := ServingState.serve_eq ht
    rw [serve_served requests hs, List.length_cons, add_assoc, add_comm 1]

/-- **The cache of a Lua state keeps no environment of a request** but one that Lua code has itself assigned to a function that the
run does not clear, and each chunk is called with its own. -/
theorem chunk_cache_is_clean (files : ChunkFiles) (requests : List ServedRequest) (s : ServingState)
    (hs : requests.foldlM (ServingState.serve files) {} = some s) :
    (∀ filename env, s.cache filename = some env → env = .global ∨ Assigned files requests filename env) ∧
      s.served = requests.length ∧ ∀ request, EntersRight s.served (s.run files request).1.entered := by
  refine ⟨fun filename env hf => (serve_all_clean requests hs filename env hf).resolve_right List.not_mem_nil, ?_, ?_⟩
  · rw [ServingState.serve_served requests hs, Nat.zero_add]
  · intro request
    refine EntersRight.of_run request.env request.beh ?_
    intro e he
    cases he

end

/-- One file for all chunks: a full request, and then one whose pre chunk assigns its `_ENV` and completes it. -/
theorem chunk_cache_is_clean_two : ∃ s,
    [ServedRequest.mk [97] (fun _ => true) {} fun _ => {}, ⟨[98], fun _ => true, {}, fun chunk =>
        if chunk = .pre then { steps := [.call .setcomplete], assigns := [([97], .other)] } else {}⟩].foldlM
      (ServingState.serve ⟨[97], [97], [97]⟩) {} = some s ∧ s.cache [97] = some .global ∧ s.cache [98] = none ∧
    ∀ request, EntersRight 2 (s.run ⟨[97], [97], [97]⟩ request).1.entered := by
  obtain ⟨s, hs⟩ := Option.isSome_iff_exists.1
    (show ([ServedRequest.mk [97] (fun _ => true) {} fun _ => {}, ⟨[98], fun _ => true, {}, fun chunk =>
        if chunk = .pre then { steps := [.call .setcomplete], assigns := [([97], .other)] } else {}⟩].foldlM
      (ServingState.serve ⟨[97], [97], [97]⟩) {}).isSome = true by decide)
  obtain ⟨-, hserved, hright⟩ := chunk_cache_is_clean _ _ s hs
  rw [show s.served = 2 from hserved] at hright
  refine ⟨s, hs, ?_, ?_, hright⟩
  · obtain rfl := Option.some.inj hs
    decide
  · obtain rfl := Option.some.inj hs
    decide

/-- The init chunk assigns its `_ENV`; the request is answered, and the function keeps what the chunk has assigned. -/
theorem chunk_cache_is_not_clean : ∃ s,
    [ServedRequest.mk [97] (fun _ => true) {} fun chunk => if chunk = .init then { assigns := [([98], .other)] } else {}].foldlM
        (ServingState.serve ⟨[98], [], []⟩) {} = some s ∧ s.cache [98] = some .other ∧ ¬s.cache.Clean := by
  obtain ⟨s, hs⟩ := Option.isSome_iff_exists.1
    (show ([ServedRequest.mk [97] (fun _ => true) {} fun chunk =>
      if chunk = .init then { assigns := [([98], .other)] } else {}].foldlM (ServingState.serve ⟨[98], [], []⟩) {}).isSome = true
        by decide)
  have hother : s.cache [98] = some .other := by
    obtain rfl := Option.some.inj hs
    decide
  exact ⟨s, hs, hother, fun hclean => absurd (hclean [98] .other hother) (by decide)⟩

end Lws

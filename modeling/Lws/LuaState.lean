import Lws.LuaServe
/-!
# LuaState — the requests of a Lua state (`lws_run_state`)

`lws_run_state` calls `lws_run` with a message handler.  It returns whatever happens: neither the handler, nor the hook, which may
still be set after an error, uses the stack in a wrong way or raises an error that nothing catches.  A state that is not marked for
closing is idle again, and serves the next request as that of `ChunkCache` does.
-/
namespace Lws

/-! ## The result of a run -/

theorem LuaResult.toInt_bmod {v : LuaResult} {result : Int} (h : v.toInt = some result) : result.bmod (2 ^ 32) = result := by
  cases v with
  | error => cases h
  | nil =>
    obtain rfl := Option.some.inj h
    rfl
  | integer n =>
    obtain rfl := Option.some.inj h
    exact Int.bmod_bmod
  | other =>
    obtain rfl := Option.some.inj h
    rfl

section
variable {chunk : Chunk} {beh pre : LuaBehaviour} {x : Run} {result : Int} {n : Nat} {filename main : Key} {loads : Chunk → Bool}
  {files : ChunkFiles} {env : RunEnv} {behs : Chunk → LuaBehaviour} {y z : CachedRun}

theorem lwsCall_bmod {plain : Behaviour} (h : (lwsCall chunk plain x).2 = some result) : result.bmod (2 ^ 32) = result := by
  unfold lwsCall at h
  split at h
  · cases h
  · rename_i hr
    split at h
    · cases h
    · obtain rfl := Option.some.inj h
      exact LuaResult.toInt_bmod hr

theorem CachedRun.call_bmod {load : Bool} (h : y.call n filename chunk load beh = (z, some result)) :
    result.bmod (2 ^ 32) = result := by
  unfold CachedRun.call at h
  split at h
  · cases h
  · exact lwsCall_bmod (congrArg Prod.snd h)

theorem CachedRun.runMain_bmod (h : y.runMain files main n loads pre beh = (z, some result)) : result.bmod (2 ^ 32) = result := by
  unfold CachedRun.runMain at h
  split at h
  · split at h
    · cases h
    · rename_i hcall
      split at h
      · obtain ⟨-, heq⟩ := Prod.mk.inj h
        obtain rfl := Option.some.inj heq
        exact call_bmod hcall
      · exact call_bmod h
  · exact call_bmod h

theorem lwsRunCached_bmod (h : lwsRunCached files main n loads env behs y = (z, some result)) : result.bmod (2 ^ 32) = result := by
  unfold lwsRunCached at h
  dsimp only at h
  split at h
  · cases h
  · split at h
    · cases h
    · split at h
      · cases h
      · split at h
        · cases h
        · rename_i hmain
          split at h
          · cases h
          · split at h
            · cases h
            · obtain ⟨-, heq⟩ := Prod.mk.inj h
              obtain rfl := Option.some.inj heq
              exact CachedRun.runMain_bmod hmain

end

/-- A run that has returned with a result, which is stored in `ctx->rc`. -/
def CachedRun.stored (y : CachedRun) (result : Int) : CachedRun :=
  { y with run := { y.run with ctx := { y.run.ctx with rc := result } } }

def LuaHost.closed (h : LuaHost) (diagnostic : NgxStr) : LuaHost :=
  { h with run := { h.run with ctx := { h.run.ctx with rc := -1 }, close := true }, diagnostic := diagnostic }

/-- `lws_acquire_state` for a request: the profiler is that of the monitor, if there is one, and the contexts are new. -/
def LuaHost.acquired (monitor : Bool) (profiler : Nat) (h : LuaHost) : LuaHost :=
  { run := { init := h.run.init }, profiler := if monitor then profiler else 0, merged := h.merged }

namespace OnStack

open LuaApi LuaApi.Api

variable {R : Runtime CFunction Content LuaHost} {E : Option (Value CFunction) → LuaRealm → Prop} {limit : Nat}
  {frame : Slots CFunction} {w w₀ w' : LuaRealm} {g m c e n : Nat} {b : Base} {cache : ChunkCache} {text : LuaText} {r : LuaRequest}
  {files : ChunkFiles} {h₀ : LuaHost} {x : CachedRun} {diagnostic : Bool}

/-! ## After an error -/

theorem lwsProfilerHook_any {P : Unit → Slots CFunction → LuaRealm → Prop} (hE : ∀ err w', w'.host = w.host → E err w')
    (h : ∀ frame w', w'.host = w.host → P () frame w') : lwsProfilerHook.wp P E minStack [] w := by
  simp only [lwsProfilerHook, wp_bind]
  refine wp_getregistry (by decide) (hE _ _ rfl) (wp_testudata_any rfl fun u => ?_)
  cases u with
  | none => exact wp_luaLError fun err => hE err _ rfl
  | some u =>
    simp only [wp_bind]
    rw [wp_pop_one, wp_attempt]
    split
    · exact wp_luaLError fun err => hE err _ rfl
    · exact h _ _ rfl

theorem hooked_any {P : Unit → Slots CFunction → LuaRealm → Prop} (hR : ∀ f, R.hook f = lwsProfilerHook)
    (hE : ∀ err w', w'.host = w.host → E err w') (h : ∀ w', w'.host = w.host → P () frame w') :
    R.hooked.wp P E limit frame w := by
  refine wp_hooked (I := fun w' => w'.host = w.host) (fun f w' hw' _ => ?_) rfl h
  rw [hR]
  exact lwsProfilerHook_any (fun err w'' hw'' => hE err w'' (hw''.trans hw')) fun _ w'' hw'' => hw''.trans hw'

theorem lwsGetMsg_wp {P : Key → Slots CFunction → LuaRealm → Prop} {i : Int} (hE : E none w.tried)
    (h : ∀ msg w', w'.host = w.host → P msg frame w') : (lwsGetMsg text i).wp P E limit frame w := by
  simp only [lwsGetMsg, wp_bind, wp_valueOrNone]
  split
  · exact h _ _ rfl
  · exact h _ _ rfl
  · split
    · simp only [wp_bind]
      exact wp_alloc hE (h _ _ rfl)
    · exact h _ _ rfl

/-- **The message handler** leaves a string for an error, or raises another. -/
theorem traceback_wp {v : Value CFunction} {P : Slots CFunction → Slots CFunction → LuaRealm → Prop}
    (hhook : ∀ f, R.hook f = lwsProfilerHook) (htraceback : R.body (.cfunction .traceback) = some (lwsTraceback text))
    (hE : ∀ err w', w'.host = w.host → E err w') (h : ∀ msg w', w'.host = w.host → P [.string msg] frame w') :
    (R.invoke (.cfunction .traceback) [v]).wp P E limit frame w := by
  refine wp_invoke htraceback (hooked_any hhook hE fun w₁ h₁ => ?_)
  simp only [lwsTraceback, wp_bind]
  refine lwsGetMsg_wp (hE _ _ h₁) fun msg w₂ h₂ => ?_
  have h₂ := h₂.trans h₁
  refine wp_pushlstring (by simp [minStack]) (hE _ _ h₂) ⟨by simp, ?_⟩
  exact hooked_any hhook (fun err w' hw' => hE err w' (hw'.trans h₂)) fun w' hw' => h _ w' (hw'.trans h₂)

/-! ## A request -/

/-- **What a request does to a Lua state**: its run is one of `ChunkCache` that returns, with an environment `e` that was not in use
before, and the state is idle again; or its run ends in an error, and the state is marked for closing. -/
inductive Serves (g m n : Nat) (monitor : Bool) (text : LuaText) (files : ChunkFiles) (diagnostic : Bool) (r : LuaRequest)
    (x : CachedRun) (w w' : LuaRealm) : Prop where
  | returns (e : Nat) (y : CachedRun) (result : Int)
      (run : lwsRunCached files r.main n (fun _ => true) {} (r.beh text) x = (y, some result)) (new : w.next ≤ e ∧ e < w'.next)
      (idle : Idle g m ⟨w.next, monitor⟩ w' y.cache)
      (host : HostIs g e { w.host with merged := w.host.merged + if w.host.profiler = 0 then 0 else 1 } w'.host
        (y.stored result))
      (entered : ∀ p ∈ w'.host.entered, p.2 = some (.table (if p.1 = .init then g else e)))
  | error (h : LuaHost) (d : NgxStr) (fails : Fails g n text files r w.host x h) (host : w'.host = h.closed d)
      (stored : d = h.diagnostic ∨ diagnostic = true ∧ ∃ msg, d = ⟨some msg, msg.length⟩)

theorem clearResult_wp {P : Unit → Slots CFunction → LuaRealm → Prop} {v : Value CFunction} {result : Int}
    (h : P () frame { w with host := { w.host with run := { w.host.run with ctx := { w.host.run.ctx with rc := result } } } }) :
    (clearResult result).wp P E limit (v :: frame) w := by
  simp only [clearResult, wp_bind, wp_pop_one]
  exact h

/-- **An error marks the state for closing**; its message is kept as the diagnostic, where there is memory for it. -/
theorem runError_wp {P : Int → Slots CFunction → LuaRealm → Prop} {msg : Key}
    (h : ∀ w' d, w'.host = { w.host with run := { w.host.run with close := true }, diagnostic := d } →
      (d = w.host.diagnostic ∨ diagnostic = true ∧ ∃ msg, d = ⟨some msg, msg.length⟩) → P (-1) (.string msg :: frame) w') :
    (runError text diagnostic).wp P E limit (.string msg :: frame) w := by
  have hmsg : Slots.index (.string msg :: frame) (-1) = some (.string msg) := rfl
  simp only [runError, modifyHost, wp_bind, wp_modify, lwsGetMsg, wp_valueOrNone, hmsg, wp_pure]
  cases diagnostic with
  | false => exact h _ _ rfl (.inl rfl)
  | true =>
    simp only [if_true, wp_bind, wp_attempt]
    split
    · exact h _ _ rfl (.inr ⟨rfl, msg, rfl⟩)
    · exact h _ _ rfl (.inl rfl)

theorem lwsRunState_wp (hidle : Idle g m b w x.cache) (hrun : w.host.run = x.run.unlogged) (hlctx : x.run.lctx = {})
    (hentered : x.entered = []) (hhost : w.host.entered = [])
    (hmonitor : w.host.profiler ≠ 0 → b.monitor = true) :
    (lwsRunState text files diagnostic r).wp
      (fun _ frame w' => frame = [.cfunction .traceback] ∧ Serves g m n b.monitor text files diagnostic r x w w')
      (fun _ _ => False) minStack [.cfunction .traceback] w := by
  have hhook : ∀ f, (stateRuntime text files r).hook f = lwsProfilerHook := fun _ => rfl
  have hfails {err : Option (Value CFunction)} {w₁ : LuaRealm} (hw₁ : Fails g n text files r w.host x w₁.host) :
      (handled (stateRuntime text files r) (.cfunction .traceback) (stateRuntime text files r).handlers err).wp
        (fun v inner w₂ => inner = [.cfunction .traceback] ∧ (runError text diagnostic >>= clearResult).wp
          (fun _ frame w' => frame = [.cfunction .traceback] ∧ Serves g m n b.monitor text files diagnostic r x w w')
          (fun _ _ => False) minStack [v, .cfunction .traceback] w₂)
        (fun _ _ => False) minStack [.cfunction .traceback] w₁ := by
    have hclosed (msg : Key) (w₂ : LuaRealm) (hw₂ : w₂.host = w₁.host) : (runError text diagnostic >>= clearResult).wp
        (fun _ frame w' => frame = [.cfunction .traceback] ∧ Serves g m n b.monitor text files diagnostic r x w w')
        (fun _ _ => False) minStack [.string msg, .cfunction .traceback] w₂ := by
      rw [wp_bind]
      refine runError_wp fun w₃ d hw₃ hd => clearResult_wp ⟨rfl, .error w₁.host d hw₁ ?_ ?_⟩
      · rw [hw₃, hw₂]
        rfl
      · rwa [hw₂] at hd
    refine wp_handled (I := fun w₂ => w₂.host = w₁.host) (fun w₂ hw₂ => ⟨rfl, hclosed _ w₂ hw₂⟩)
      (fun w₂ hw₂ => ⟨rfl, hclosed _ w₂ hw₂⟩) (fun v w₂ hw₂ => ?_) _ err rfl
    refine traceback_wp hhook rfl (fun _ w₃ hw₃ => hw₃.trans hw₂) fun msg w₃ hw₃ => ⟨rfl, ?_⟩
    exact hclosed msg w₃ (hw₃.trans hw₂)
  simp only [lwsRunState, wp_bind, pushcfunction, pushlightuserdata]
  rw [wp_push (by decide), wp_push (by decide)]
  refine wp_pcall [.lightuserdata 0] [.cfunction .traceback] rfl rfl rfl (by decide) (by decide) ?_
  refine wp_invoke rfl ?_
  rw [wp_hooked_none hidle.hook]
  refine wp_mono (lwsRun_wp (n := n) hidle hrun hlctx hentered hhost hmonitor) ?_ fun err w₁ hw₁ => hfails hw₁
  rintro _ inner w₁ ⟨rfl, result, rest, e, y, rfl, hrunCached, hnew, hused, hidle₁, hhost₁⟩
  refine ⟨by simp, (wp_hooked_none hidle₁.hook).2 ⟨rfl, ?_⟩⟩
  have hresult : ((text.tointegerx (.integer result)).getD 0).bmod (2 ^ 32) = result := by
    rw [text.tointegerx_integer, Option.getD_some, lwsRunCached_bmod hrunCached]
  change (value (-1) >>= fun v => clearResult (((text.tointegerx v).getD 0).bmod (2 ^ 32))).wp _ _ _
    [.integer result, .cfunction .traceback] w₁
  rw [wp_bind, wp_value (v := .integer result) rfl, hresult]
  have hright : EntersRight n y.entered := by
    have hall : EntersRight n (lwsRunCached files r.main n (fun _ => true) {} (r.beh text) x).1.entered :=
      EntersRight.of_run {} (r.beh text) (by simp [EntersRight, hentered])
    rwa [hrunCached] at hall
  refine clearResult_wp ⟨rfl, .returns e y result hrunCached ⟨hnew, hused⟩ (hidle₁.congr rfl rfl rfl rfl)
    ⟨?_, hhost₁.entered, hhost₁.profiler, hhost₁.diagnostic, hhost₁.merged⟩ ?_⟩
  · simp only [hhost₁.run]
    rfl
  · intro p hp
    rw [show _ = w₁.host.entered from rfl, hhost₁.entered] at hp
    obtain ⟨q, hq, rfl⟩ := List.mem_map.1 hp
    simp only [hright q hq]
    split
    · rfl
    · rfl

/-! ## The requests of a Lua state -/

/-- A Lua state serves a request, from `lws_acquire_state` to the end of `lws_run_state`. -/
def serve (text : LuaText) (files : ChunkFiles) (diagnostic monitor : Bool) (r : LuaRequest) : Lua Unit := do
  modifyHost (LuaHost.acquired monitor r.profiler)
  lwsRunState text files diagnostic r

/-- **A Lua state between two requests**: as it has been set up, or after a request that has not marked it for closing. -/
inductive Between (text : LuaText) (files : ChunkFiles) (diagnostic monitor : Bool) (w₀ : LuaRealm) :
    List LuaRequest → LuaRealm → Prop where
  | setUp : Between text files diagnostic monitor w₀ [] w₀
  | served {rs : List LuaRequest} {r : LuaRequest} {w w' : LuaRealm} {frame : Slots CFunction}
      (before : Between text files diagnostic monitor w₀ rs w)
      (run : serve text files diagnostic monitor r minStack [.cfunction .traceback] w = .returns () frame w')
      (kept : w'.host.run.close = false) : Between text files diagnostic monitor w₀ (rs ++ [r]) w'

def LuaRequest.served (text : LuaText) (r : LuaRequest) : ServedRequest := ⟨r.main, fun _ => true, {}, r.beh text⟩

def LuaRequest.profiled (monitor : Bool) (r : LuaRequest) : Bool := monitor && decide (r.profiler ≠ 0)

variable {monitor : Bool} {s : ServingState} {rs : List LuaRequest}

theorem serve_wp (text : LuaText) (files : ChunkFiles) (diagnostic : Bool) (r : LuaRequest) (h : Idle g m b w s.cache)
    (hinit : w.host.run.init = s.init) :
    (serve text files diagnostic b.monitor r).wp
      (fun _ frame w' => frame = [.cfunction .traceback] ∧ Serves g m s.served b.monitor text files diagnostic r
        ⟨{ init := s.init }, s.cache, []⟩ { w with host := w.host.acquired b.monitor r.profiler } w')
      (fun _ _ => False) minStack [.cfunction .traceback] w := by
  simp only [serve, wp_bind, modifyHost, wp_modify]
  refine lwsRunState_wp (x := ⟨{ init := s.init }, s.cache, []⟩) (h.congr rfl rfl rfl rfl) ?_ rfl rfl rfl fun hprofiler => ?_
  · simp only [LuaHost.acquired, hinit]
    rfl
  · by_contra hmonitor
    exact hprofiler (if_neg hmonitor)

/-- **A request that does not mark the state for closing** is a step of `ChunkCache`. -/
theorem Serves.step {w : LuaRealm} (h : Serves g m s.served monitor text files diagnostic r ⟨{ init := s.init }, s.cache, []⟩
      { w with host := w.host.acquired monitor r.profiler } w') (hkept : w'.host.run.close = false) :
    ∃ s', s.serve files (r.served text) = some s' ∧ Idle g m ⟨w.next, monitor⟩ w' s'.cache ∧ w'.host.run.init = s'.init ∧
      w'.host.merged = w.host.merged + if r.profiled monitor then 1 else 0 := by
  cases h with
  | returns e y result run new idle host entered =>
    have hrun : s.run files (r.served text) = (y, some result) := run
    refine ⟨⟨s.served + 1, y.run.init, y.cache⟩, ?_, idle, ?_, ?_⟩
    · rw [ServingState.serve, hrun]
    · rw [host.run]
      rfl
    · rw [host.merged]
      simp only [LuaHost.acquired, LuaRequest.profiled]
      cases monitor with
      | false => rfl
      | true =>
        by_cases hp : r.profiler = 0
        · simp [hp]
        · simp [hp]
  | error h d fails host stored =>
    rw [host] at hkept
    cases hkept

/-- **Between two requests a Lua state is idle**, and is that of `ChunkCache` after the same requests. -/
theorem Between.agrees (h₀ : Idle g m ⟨0, monitor⟩ w₀ fun _ => none) (hinit : w₀.host.run.init = false)
    (h : Between text files diagnostic monitor w₀ rs w) :
    ∃ s, (rs.map (LuaRequest.served text)).foldlM (ServingState.serve files) {} = some s ∧ Idle g m ⟨0, monitor⟩ w s.cache ∧
      w.host.run.init = s.init ∧ w.host.merged = w₀.host.merged + rs.countP (LuaRequest.profiled monitor) := by
  induction h with
  | setUp => exact ⟨{}, rfl, h₀, hinit, rfl⟩
  | served before run kept ih =>
    rename_i rs r w w' frame
    obtain ⟨s, hs, hidle, hinit, hmerged⟩ := ih
    have hserves := serve_wp text files diagnostic r hidle hinit
    rw [Api.wp, run] at hserves
    obtain ⟨s', hs', hidle', hinit', hmerged'⟩ := hserves.2.step kept
    refine ⟨s', ?_, hidle'.rebase (Nat.zero_le _), hinit', ?_⟩
    · rw [List.map_append, List.foldlM_append, hs]
      simp [hs']
    · rw [hmerged', hmerged, List.countP_append, List.countP_singleton, Nat.add_assoc]

/-- **A Lua state is idle between two requests, and serves each of them on a stack that is used right.**  Its chunks leave alone
what `KeptByLua` says, as Lua code does without the debug library and `getmetatable` of a response.  After any requests that have
not marked it for closing its hook is not set, its registry has no request and no profiler, and no stored function has the
environment of a request, as in `ChunkCache`; each profiled request has been merged once.  Whatever such chunks the next request
has, and wherever Lua or nginx run out of memory, `lws_run_state` returns, with only the message handler on the stack: either its
chunks have run as in `ChunkCache`, with an `_ENV` that was not in use before, or the state is marked for closing. -/
theorem lua_state_is_idle_between_requests (text : LuaText) (files : ChunkFiles) (diagnostic monitor : Bool) (g m : Nat)
    (w₀ w : LuaRealm) (rs : List LuaRequest) (h₀ : Idle g m ⟨0, monitor⟩ w₀ fun _ => none) (hinit : w₀.host.run.init = false)
    (h : Between text files diagnostic monitor w₀ rs w) :
    ∃ s, (rs.map (LuaRequest.served text)).foldlM (ServingState.serve files) {} = some s ∧ s.served = rs.length ∧
      Idle g m ⟨0, monitor⟩ w s.cache ∧ w.host.run.init = s.init ∧
      w.host.merged = w₀.host.merged + rs.countP (LuaRequest.profiled monitor) ∧
      ∀ r, (serve text files diagnostic monitor r).wp
        (fun _ frame w' => frame = [.cfunction .traceback] ∧ Serves g m s.served monitor text files diagnostic r
          ⟨{ init := s.init }, s.cache, []⟩ { w with host := w.host.acquired monitor r.profiler } w')
        (fun _ _ => False) minStack [.cfunction .traceback] w := by
  obtain ⟨s, hs, hidle, hinit, hmerged⟩ := Between.agrees h₀ hinit h
  refine ⟨s, hs, ?_, hidle, hinit, hmerged, fun r => serve_wp text files diagnostic r hidle hinit⟩
  rw [ServingState.serve_served _ hs, List.length_map, Nat.zero_add]

/-- A state of a server with a monitor, as `lws_init` sets it up: the globals, and the metatables. -/
def openedState : LuaRealm where
  tables ref :=
    if ref = 0 then
      { get := fun key => ([(.integer ridxGlobals, .table 1), (.string lwsRequestCtx, .table 2), (.string lwsTable, .table 3),
          (.string lwsResponse, .table 4), (.string luaFilehandle, .table 5),
          (.string lwsProfiler, .table 6)].lookup key).getD .nil }
    else if ref = 4 then { get := fun key => if key = .string LuaApi.newindex then .cfunction .responseNewindex else .nil }
    else {}
  next := 7
  host := {}

theorem openedState_idle : Idle 1 4 ⟨0, true⟩ openedState fun _ => none where
  ready := {
    globals := by decide
    metatables := by
      intro name hname _
      simp only [fixedNames, List.mem_cons, List.not_mem_nil, or_false] at hname
      rcases hname with rfl | rfl | rfl | rfl | rfl
      · exact ⟨2, by decide⟩
      · exact ⟨3, by decide⟩
      · exact ⟨4, by decide⟩
      · exact ⟨5, by decide⟩
      · exact ⟨6, by decide⟩
    response := by decide
    newindex := by decide
    apart := by decide
    used := by decide }
  hook := rfl
  request := by decide
  profiler := by decide
  settled := by
    intro filename n h
    cases h
  chunks := .inr ⟨by decide, fun _ => rfl⟩

theorem KeptByLua.refl (assigned : List Key) (w : LuaRealm) : KeptByLua assigned w w where
  next := Nat.le_refl _
  hook := rfl
  host := rfl
  globals := rfl
  registry _ _ := rfl
  response _ _ := rfl
  chunks _ _ := ⟨rfl, fun _ _ _ => .inl rfl⟩
  metatables _ _ := rfl

def plainFiles : ChunkFiles where
  init := literal "init.lua"

def plainText : LuaText where
  tointegerx
    | .integer n => some n
    | _ => none
  tointegerx_integer _ := rfl
  tolstring _ := none
  traceback msg := msg
  handlers := 0
  callError := literal "attempt to call a value"
  memoryError := literal "not enough memory"
  handlerError := literal "error in error handling"

/-- A profiled request, whose main chunk sets the status, flushes, and may have set the `_ENV` of the init chunk. -/
def plainRequest : LuaRequest where
  main := literal "main.lua"
  load _ := .chunk true
  body chunk := {
    steps := if chunk = .main then [.status 404, .flush] else []
    assigned := if chunk = .main then [literal "init.lua"] else []
    kept := KeptByLua.refl _ }
  profiler := 1

def leftOpen : LuaApi.Exit CFunction Content LuaHost Unit → Bool
  | .returns _ _ w => !w.host.run.close
  | _ => false

theorem plainRequest_leftOpen :
    leftOpen (serve plainText plainFiles false true plainRequest minStack [.cfunction .traceback] openedState) =
      true := by decide +kernel

/-- One request, with an init chunk. -/
theorem lua_state_is_idle_between_requests_one : ∃ w s,
    Between plainText plainFiles false true openedState [plainRequest] w ∧ s.served = 1 ∧
      Idle 1 4 ⟨0, true⟩ w (ServingState.cache s) ∧ w.host.merged = 1 := by
  have hopen := plainRequest_leftOpen
  cases hrun : serve plainText plainFiles false true plainRequest minStack [.cfunction .traceback] openedState with
  | returns a frame w =>
    rw [hrun] at hopen
    have hkept : w.host.run.close = false := by simpa [leftOpen] using hopen
    have hbetween : Between plainText plainFiles false true openedState ([] ++ [plainRequest]) w :=
      .served .setUp hrun hkept
    obtain ⟨s, -, hserved, hidle, -, hmerged, -⟩ :=
      lua_state_is_idle_between_requests _ _ _ _ 1 4 _ w _ openedState_idle rfl hbetween
    exact ⟨w, s, hbetween, hserved, hidle, hmerged⟩
  | error e w =>
    rw [hrun] at hopen
    cases hopen
  | fault =>
    rw [hrun] at hopen
    cases hopen

end OnStack
end Lws

import Lws.LuaCall
/-!
# LuaServe — a run on the stack (`lws_run`) against that of `ChunkCache`

The parts of `lws_run` on the stack, each against that of `lwsRunCached`, and then the run: from an idle state to an idle state, or
to an error.
-/
namespace Lws
namespace OnStack

open LuaApi LuaApi.Api

def Settled (cache : ChunkCache) : Prop := ∀ filename n, cache filename ≠ some (.request n)

/-- **A Lua state between two requests**: no hook, no request and no profiler in the registry, and no stored function with the
environment of a request. -/
structure Idle (g m : Nat) (b : Base) (w : LuaRealm) (cache : ChunkCache) : Prop where
  ready : Ready g m b w
  hook : w.hook = none
  request : inRegistry w lwsRequestCtxCurrent = .nil
  profiler : inRegistry w lwsProfilerCurrent = .nil
  settled : Settled cache
  chunks : (∃ c e, Cached g m b c e w cache) ∨ (inRegistry w lwsChunks = .nil ∧ ∀ filename, cache filename = none)

variable {R : Runtime CFunction Content LuaHost} {E : Option (Value CFunction) → LuaRealm → Prop} {limit : Nat}
  {frame : Slots CFunction} {w w₀ w' : LuaRealm} {g m c e n : Nat} {b : Base} {cache : ChunkCache} {text : LuaText} {r : LuaRequest}
  {files : ChunkFiles} {h₀ : LuaHost} {x : CachedRun}

theorem Settled.of_outside (h : CleanOutside (fun _ env => ∀ n, env ≠ .request n) [] cache) : Settled cache :=
  fun filename n hf => (h filename _ hf).elim (fun hne => hne n rfl) fun hmem => absurd hmem List.not_mem_nil

theorem Settled.outside (h : Settled cache) : CleanOutside (fun _ env => ∀ n, env ≠ .request n) [] cache := by
  rintro filename env hf
  refine .inl fun n hn => ?_
  subst hn
  exact h filename n hf

theorem Cached.of_settled (h : Cached g m b c e w cache) (hsettled : Settled cache) {e' : Nat} (he' : e' < w.next) :
    Cached g m b c e' w cache :=
  { h with
    used := ⟨h.used.1, he'⟩
    present := fun filename env henv => by
      obtain ⟨f, v, hf, hlt, hup, hv⟩ := h.present filename env henv
      refine ⟨f, v, hf, hlt, hup, ?_⟩
      cases env with
      | global => exact hv
      | request n => exact absurd henv (hsettled filename n)
      | other => exact hv }

theorem Cached.new (hready : Ready g m b w') (hready₀ : Ready g m b w) (hnew : w.next ≤ c) (hused : c < w'.next)
    (hempty : w'.tables c = {}) (hnone : ∀ filename, cache filename = none) :
    Cached g m b c c (w'.setEntry 0 (.string lwsChunks) (.table c)) cache := by
  have hc0 : c ≠ 0 := by
    have := hready₀.used.1
    omega
  have hcm : c ≠ m := by
    have := hready₀.used.2.1
    omega
  have htable : (w'.setEntry 0 (.string lwsChunks) (.table c)).tables c = {} := by rw [tables_setEntry_of_ne hc0, hempty]
  refine ⟨hready.setRegistry (by decide) _, get_setEntry_self 0 _ _, ⟨hc0, hcm⟩, ⟨hused, hused⟩, ?_, ?_, ?_⟩
  · intro filename _
    rw [htable]
  · intro filename env henv
    rw [hnone] at henv
    cases henv
  · intro filename filename' f hf
    rw [HasFunction, htable] at hf
    cases hf

/-! ## The start of a run -/

theorem HookReady.of_none (h : w.hook = none) : HookReady w := fun f hf => by
  rw [h] at hf
  cases hf

/-- **`lws_start_profiler`** leaves its profiler in the registry, and sets the hook. -/
theorem lwsStartProfiler_wp {P : Nat → Slots CFunction → LuaRealm → Prop} {R' : Runtime CFunction Content LuaHost}
    {ctx : Value CFunction} (h : Cached g m b c e w cache) (hprofiler : w.host.profiler ≠ 0) (hmonitor : b.monitor = true)
    (hE : ∀ err w', w'.host = w.host → E err w')
    (hok : ∀ w', Cached g m b c e w' cache → Profiling w' → w'.host = w.host → P 0 [ctx] w') :
    (lwsStartProfiler R').wp P E (1 + minStack) [ctx] w := by
  simp only [lwsStartProfiler, wp_bind]
  refine newuserdata_wp h.ready (by decide) (fun _ => hmonitor) (by simp [minStack]) hE fun k w₁ hk hgrown hused hcontent => ?_
  have h₁ := h.grown hgrown
  have hE₁ := raises_of_grown hgrown hE
  refine wp_setregistry (hE₁ _ _ rfl) ?_
  rw [wp_value (v := ctx) rfl]
  simp only [wp_attempt]
  have h₂ : Cached g m b c e (w₁.tried.setEntry 0 (.string lwsProfilerCurrent) (.userdata w.next)) cache :=
    Cached.setRegistry (w := w₁.tried) (h₁.congr rfl rfl rfl) (by decide) (by decide) _
  split
  · simp only [wp_bind]
    exact wp_luaLError fun err => hE₁ err _ rfl
  simp only [wp_bind, wp_attempt]
  split
  · simp only [wp_bind]
    exact wp_luaLError fun err => hE₁ err _ rfl
  simp only [wp_bind, wp_sethook, wp_pure]
  refine hok _ (h₂.congr rfl rfl rfl) ⟨fun h0 => ?_, fun _ => Option.some_ne_none _, fun f _ => ?_⟩ hgrown.host
  · exact absurd ((congrArg LuaHost.profiler hgrown.host).symm.trans h0) hprofiler
  · refine ⟨w.next, k, hused, get_setEntry_self 0 _ _, ?_, ?_⟩
    · have hregistry : inRegistry (w₁.tried.setEntry 0 (.string lwsProfilerCurrent) (.userdata w.next)) lwsProfiler =
          inRegistry w₁.tried lwsProfiler := inRegistry_set_of_ne (by decide) 0 _
      refine hregistry.trans ?_
      rw [inRegistry, Realm.tried_tables, hgrown.tables 0 h.ready.used.1]
      exact hk
    · exact (congrArg (Option.bind · Userdata.metatable) hcontent).trans rfl

theorem resetLctx (h : w.host.run.lctx = {}) :
    { w with host := { w.host with run := { w.host.run with lctx := {} } } } = w := by rw [← h]

theorem setRequestCtx_wp {P : Unit → Slots CFunction → LuaRealm → Prop} {ctx : Value CFunction} (h : Idle g m b w cache)
    (hlctx : w.host.run.lctx = {}) (hE : ∀ err w', w'.host = w.host → E err w')
    (hok : ∀ w', Ready g m b w' → w'.host = w.host → w'.hook = none → inRegistry w' lwsProfilerCurrent = .nil →
      inRegistry w' lwsChunks = inRegistry w lwsChunks → ((∃ c e, Cached g m b c e w cache) → ∃ c e, Cached g m b c e w' cache) →
      P () [ctx] w') : (setRequestCtx R).wp P E (1 + minStack) [ctx] w := by
  simp only [setRequestCtx, wp_bind]
  rw [wp_value (v := ctx) rfl]
  simp only [lwsCreateLuaRequestCtx, wp_bind, modifyHost, wp_modify]
  refine newuserdata_wp h.ready (by decide) (fun h => absurd h (by decide)) (by simp [minStack]) hE
    fun k w₁ _ hgrown _ _ => ?_
  rw [resetLctx (by rw [hgrown.host]; exact hlctx)]
  have hready := h.ready.grown hgrown
  refine wp_setregistry (hE _ _ hgrown.host) ?_
  have hregistry {name : Key} (hne : name ≠ lwsRequestCtxCurrent) :
      inRegistry (w₁.tried.setEntry 0 (.string lwsRequestCtxCurrent) (.userdata w.next)) name = inRegistry w name := by
    rw [inRegistry_set_of_ne hne, inRegistry, Realm.tried_tables, hgrown.tables 0 h.ready.used.1, inRegistry]
  refine hok _ ?_ hgrown.host (hgrown.hook.trans h.hook) ?_ (hregistry (by decide)) ?_
  · exact Ready.setRegistry (w := w₁.tried) (hready.congr rfl rfl) (by decide) _
  · rw [hregistry (by decide)]
    exact h.profiler
  · rintro ⟨c, e, hc⟩
    exact ⟨c, e, Cached.setRegistry (w := w₁.tried) ((hc.grown hgrown).congr rfl rfl rfl) (by decide) (by decide) _⟩

theorem getChunks_wp {P : Unit → Slots CFunction → LuaRealm → Prop} (hready : Ready g m b w) (hhook : w.hook = none)
    (hprofiler : inRegistry w lwsProfilerCurrent = .nil)
    (hchunks : (∃ c e, Cached g m b c e w cache) ∨ (inRegistry w lwsChunks = .nil ∧ ∀ filename, cache filename = none))
    (hlimit : frame.length + 2 ≤ limit) (hE : ∀ err w', w'.host = w.host → E err w')
    (hok : ∀ c e w', Cached g m b c e w' cache → w'.host = w.host → w'.hook = none → inRegistry w' lwsProfilerCurrent = .nil →
      P () (.table c :: frame) w') : (getChunks R).wp P E limit frame w := by
  simp only [getChunks, wp_bind]
  refine wp_getregistry (by omega) (hE _ _ rfl) ?_
  rcases hchunks with ⟨c, e, hc⟩ | ⟨hnil, hnone⟩
  · rw [show (w.tables 0).get (.string lwsChunks) = .table c from hc.chunks]
    simp only [isTable, Bool.not_true, Bool.false_eq_true, if_false, wp_pure]
    exact hok c e _ (hc.congr rfl rfl rfl) rfl hhook hprofiler
  · rw [show (w.tables 0).get (.string lwsChunks) = .nil from hnil]
    simp only [isTable, Bool.not_false, if_true, wp_bind, wp_pop_one]
    refine newtable_wp (by omega) hE fun w₁ h₁ hempty => ?_
    have hgrown : w.Grown w₁ := (Realm.Grown.refl w).tried.trans h₁.grown
    rw [wp_pushvalue (v := .table w.next) rfl (by simpa using by omega)]
    refine wp_setregistry (hE _ _ hgrown.host) ?_
    have hready₁ : Ready g m b w₁.tried := (hready.grown hgrown).congr rfl rfl
    refine hok w.next w.next _ (Cached.new hready₁ hready (Nat.le_refl _) h₁.used hempty hnone) hgrown.host
      (hgrown.hook.trans hhook) ?_
    rw [inRegistry_set_of_ne (by decide), inRegistry, Realm.tried_tables, hgrown.tables 0 hready.used.1]
    exact hprofiler

theorem startProfiler_wp {P : Unit → Slots CFunction → LuaRealm → Prop} {R' : Runtime CFunction Content LuaHost}
    (hhook : ∀ f, R.hook f = lwsProfilerHook) (hstart : R.body (.cfunction .startProfiler) = some (lwsStartProfiler R'))
    (h : Cached g m b c e w cache) (hmonitor : w.host.profiler ≠ 0 → b.monitor = true) (hnone : w.hook = none)
    (hprofiler : inRegistry w lwsProfilerCurrent = .nil) (hlimit : frame.length + 2 ≤ limit)
    (hE : ∀ err w', w'.host = w.host → E err w')
    (hok : ∀ w', Cached g m b c e w' cache → Profiling w' → w'.host = w.host → P () frame w') :
    (startProfiler R).wp P E limit frame w := by
  simp only [startProfiler, wp_bind, wp_realm]
  by_cases hoff : w.host.profiler = 0
  · simp only [hoff, ne_eq, not_true_eq_false, if_false, wp_pure]
    exact hok w h ⟨fun _ => ⟨hnone, hprofiler⟩, fun hon => absurd hoff hon, .of_none hnone⟩ rfl
  · simp only [ne_eq, hoff, not_false_eq_true, if_true, wp_bind, pushcfunction, pushlightuserdata]
    rw [wp_push (by omega), wp_push (by simpa using by omega)]
    refine wp_call [.lightuserdata 0] frame rfl rfl (by omega) ?_
    refine wp_invoke hstart (hooked_wp hhook (.of_none hnone) hE fun k => ?_)
    refine lwsStartProfiler_wp (w := w.atTick k) (h.congr rfl rfl rfl) hoff (hmonitor hoff) hE
      fun w₁ h₁ hp₁ hhost₁ => ⟨Nat.zero_le _, ?_⟩
    refine hooked_wp hhook hp₁.hooked (fun err w' hw' => hE err w' (hw'.trans hhost₁)) fun k' => ⟨rfl, ?_⟩
    exact hok _ (h₁.congr rfl rfl rfl) (hp₁.atTick k') hhost₁

/-! ## The end of a run -/

theorem lwsClearEnv_wp {P : Unit → Slots CFunction → LuaRealm → Prop} {filename : Key} (h : Cached g m b c e w cache)
    (hp : Profiling w) (hc : ∀ extra, Slots.index (extra ++ frame) 2 = some (.table c)) (hlimit : frame.length + 2 ≤ limit)
    (hE : ∀ err w', w'.host = w.host → E err w')
    (hok : ∀ w', Cached g m b c e w' (Lws.lwsClearEnv filename cache) → Profiling w' → w'.host = w.host → P () frame w') :
    (lwsClearEnv filename).wp P E limit frame w := by
  have hget : Slots.index (.string filename :: frame) 2 = some (.table c) := hc [.string filename]
  simp only [lwsClearEnv, wp_bind]
  refine wp_pushlstring (by omega) (hE _ _ rfl) ?_
  rw [wp_rawget hget (by omega), Realm.tried_tables]
  cases hcache : cache filename with
  | none =>
    rw [h.absent filename hcache]
    simp only [isFunction, Bool.not_false, if_true, wp_pop_one]
    refine hok _ ?_ (hp.atTick _) rfl
    rw [Lws.lwsClearEnv, hcache]
    exact h.congr rfl rfl rfl
  | some env =>
    obtain ⟨f, v, hf, -, hup, -⟩ := h.present filename env hcache
    rw [show (w.tables c).get (.string filename) = .function f from hf]
    simp only [isFunction, Bool.not_true, Bool.false_eq_true, if_false, wp_bind]
    rw [wp_rawgeti rfl (by simpa using by omega), wp_setupvalue (w := w.tried) rfl hup, wp_pop_one, Realm.tried_tables,
      h.ready.globals]
    refine hok _ ?_ ⟨hp.off, hp.on, hp.hooked⟩ rfl
    rw [Lws.lwsClearEnv, hcache]
    exact Cached.setEnv (w := w.tried) (h.congr rfl rfl rfl) hf rfl

theorem clearIf_wp {P : Unit → Slots CFunction → LuaRealm → Prop} {cond : Bool} {filename : Key} (h : Cached g m b c e w cache)
    (hp : Profiling w) (hc : ∀ extra, Slots.index (extra ++ frame) 2 = some (.table c)) (hlimit : frame.length + 2 ≤ limit)
    (hE : ∀ err w', w'.host = w.host → E err w')
    (hok : ∀ w', Cached g m b c e w' (if cond then Lws.lwsClearEnv filename cache else cache) → Profiling w' → w'.host = w.host →
      P () frame w') : (clearIf cond filename).wp P E limit frame w := by
  cases cond with
  | true => exact lwsClearEnv_wp h hp hc hlimit hE hok
  | false => exact hok w h hp rfl

theorem clear_wp {P : Unit → Slots CFunction → LuaRealm → Prop} (h : Cached g m b c e w x.cache) (hp : Profiling w)
    (hcomplete : w.host.run.lctx.complete = x.run.lctx.complete)
    (hc : ∀ extra, Slots.index (extra ++ frame) 2 = some (.table c)) (hlimit : frame.length + 2 ≤ limit)
    (hE : ∀ err w', w'.host = w.host → E err w')
    (hok : ∀ w', Cached g m b c e w' (x.clear files r.main).cache → Profiling w' → w'.host = w.host → P () frame w') :
    (clear files r).wp P E limit frame w := by
  simp only [clear, wp_bind, wp_realm]
  refine clearIf_wp h hp hc hlimit hE fun w₁ h₁ hp₁ hhost₁ => ?_
  have hE₁ (err : Option (Value CFunction)) (w' : LuaRealm) (hw' : w'.host = w₁.host) : E err w' := hE err w' (hw'.trans hhost₁)
  refine clearIf_wp h₁ hp₁ hc hlimit hE₁ fun w₂ h₂ hp₂ hhost₂ => ?_
  have hE₂ (err : Option (Value CFunction)) (w' : LuaRealm) (hw' : w'.host = w₂.host) : E err w' := hE₁ err w' (hw'.trans hhost₂)
  refine clearIf_wp h₂ hp₂ hc hlimit hE₂ fun w₃ h₃ hp₃ hhost₃ => ?_
  refine hok w₃ ?_ hp₃ (hhost₃.trans (hhost₂.trans hhost₁))
  rw [hhost₁, hcomplete] at h₃
  exact h₃

/-- **`lws_stop_profiler`** finds its profiler, and takes it from the registry. -/
theorem lwsStopProfiler_wp {P : Nat → Slots CFunction → LuaRealm → Prop} {R' : Runtime CFunction Content LuaHost}
    (h : Cached g m b c e w cache) (hp : Profiling w) (hprofiler : w.host.profiler ≠ 0)
    (hE : ∀ err w', (w'.host = w.host ∨ w'.host = { w.host with merged := w.host.merged + 1 }) → E err w')
    (hok : ∀ inner w', Cached g m b c e w' cache → w'.hook = none → inRegistry w' lwsProfilerCurrent = .nil →
      w'.host = { w.host with merged := w.host.merged + 1 } → P 0 inner w') :
    (lwsStopProfiler R').wp P E minStack [] w := by
  obtain ⟨f, hf⟩ := Option.ne_none_iff_exists'.1 (hp.on hprofiler)
  obtain ⟨u, k, -, hcurrent, hk, hmeta⟩ := hp.hooked f hf
  simp only [lwsStopProfiler, wp_bind]
  refine wp_getregistry (by decide) (hE _ _ (.inl rfl)) ?_
  rw [show (w.tables 0).get (.string lwsProfilerCurrent) = .userdata u from hcurrent,
    wp_testudata (w := w.tried) rfl hk, Realm.tried_userdata, if_pos hmeta]
  simp only [wp_bind, modifyHost, wp_modify, wp_sethook, pushnil]
  rw [wp_push (by simp [minStack])]
  refine wp_setregistry (hE _ _ (.inr rfl)) ?_
  rw [wp_pure]
  have hname : lwsProfilerCurrent ∉ fixedNames := by decide
  refine hok _ _ (Cached.setRegistry (w := Realm.tried _) ?_ hname (by decide) _) rfl (get_setEntry_self 0 _ _) rfl
  exact h.congr rfl rfl rfl

theorem stopProfiler_wp {P : Unit → Slots CFunction → LuaRealm → Prop} {R' : Runtime CFunction Content LuaHost}
    (hhook : ∀ f, R.hook f = lwsProfilerHook) (hstop : R.body (.cfunction .stopProfiler) = some (lwsStopProfiler R'))
    (h : Cached g m b c e w cache) (hp : Profiling w) (hlimit : frame.length + 1 ≤ limit)
    (hE : ∀ err w', (w'.host = w.host ∨ w'.host = { w.host with merged := w.host.merged + 1 }) → E err w')
    (hok : ∀ w', Cached g m b c e w' cache → w'.hook = none → inRegistry w' lwsProfilerCurrent = .nil →
      w'.host = { w.host with merged := w.host.merged + if w.host.profiler = 0 then 0 else 1 } → P () frame w') :
    (stopProfiler R).wp P E limit frame w := by
  simp only [stopProfiler, wp_bind, wp_realm]
  by_cases hoff : w.host.profiler = 0
  · simp only [hoff, ne_eq, not_true_eq_false, if_false, wp_pure]
    refine hok w h (hp.off hoff).1 (hp.off hoff).2 ?_
    rw [if_pos hoff]
    rfl
  · simp only [ne_eq, hoff, not_false_eq_true, if_true, wp_bind, pushcfunction]
    rw [wp_push (by omega)]
    refine wp_call [] frame rfl rfl (by omega) ?_
    refine wp_invoke hstop (hooked_wp hhook hp.hooked (fun err w' hw' => hE err w' (.inl hw')) fun k => ?_)
    refine lwsStopProfiler_wp (w := w.atTick k) (h.congr rfl rfl rfl) (hp.atTick k) hoff hE
      fun inner w₁ h₁ hnone₁ hprofiler₁ hhost₁ => ⟨Nat.zero_le _, ?_⟩
    refine hooked_wp hhook (.of_none hnone₁) (fun err w' hw' => hE err w' (.inr (hw'.trans hhost₁)))
      fun k' => ⟨rfl, ?_⟩
    refine hok _ (h₁.congr rfl rfl rfl) hnone₁ hprofiler₁ ?_
    rw [if_neg hoff]
    exact hhost₁

theorem clearRequestCtx_wp {P : Unit → Slots CFunction → LuaRealm → Prop} (h : Cached g m b c e w cache) (hhook : w.hook = none)
    (hprofiler : inRegistry w lwsProfilerCurrent = .nil) (hsettled : Settled cache) (hlimit : frame.length + 1 ≤ limit)
    (hE : ∀ err w', w'.host = w.host → E err w')
    (hok : ∀ w', Idle g m b w' cache → e < w'.next → w'.host = w.host → P () frame w') :
    (clearRequestCtx R).wp P E limit frame w := by
  simp only [clearRequestCtx, wp_bind, pushnil]
  rw [wp_push (by omega)]
  refine wp_setregistry (hE _ _ rfl) ?_
  have hset : Cached g m b c e (w.tried.setEntry 0 (.string lwsRequestCtxCurrent) .nil) cache :=
    Cached.setRegistry (w := w.tried) (h.congr rfl rfl rfl) (by decide) (by decide) _
  refine hok _ ⟨hset.ready, hhook, get_setEntry_self 0 _ _, ?_, hsettled, .inl ⟨c, e, hset⟩⟩ hset.used.2 rfl
  rw [inRegistry_set_of_ne (by decide)]
  exact hprofiler

/-! ## The chunks of a run -/

section
variable (ctx : Value CFunction) (extra : Slots CFunction)

theorem index_chunks (c : Nat) : Slots.index (extra ++ [.table c, ctx]) 2 = some (.table c) :=
  (Slots.index_append (by decide) (by simp) extra).trans rfl

theorem index_chunks_env (c e : Nat) : Slots.index (extra ++ [.table e, .table c, ctx]) 2 = some (.table c) :=
  (Slots.index_append (by decide) (by simp) extra).trans rfl

theorem index_env (c e : Nat) : Slots.index (extra ++ [.table e, .table c, ctx]) 3 = some (.table e) :=
  (Slots.index_append (by decide) (by simp) extra).trans rfl

end

theorem runInit_wp {P : Unit → Slots CFunction → LuaRealm → Prop} {ctx : Value CFunction} (h : Cached g m b c e w x.cache)
    (hp : Profiling w) (hh : HostIs g e h₀ w.host x)
    (hE : ∀ err w' load beh y, Does text (r.body .init) beh → x.runInit files n (fun _ => load) beh = (y, .error) →
      FailedIs g e h₀ w'.host y → E err w')
    (hok : ∀ w' y, x.runInit files n (fun _ => true) (ChunkBody.behaviour text (r.body .init)) = (y, .ok) →
      Cached g m b c e w' y.cache → Profiling w' → HostIs g e h₀ w'.host y → P () [.table c, ctx] w') :
    (runInit (runRuntime text r) text files r).wp P E (1 + minStack) [.table c, ctx] w := by
  have hinit : w.host.run.init = x.run.init := by rw [hh.run]; rfl
  simp only [runInit, wp_bind, wp_realm, hinit]
  by_cases hdone : x.run.init = true
  · simp only [hdone, Bool.not_true, Bool.false_eq_true, if_false, wp_pure]
    refine hok w x ?_ h hp hh
    simp only [CachedRun.runInit, hdone, Bool.not_true, Bool.false_eq_true, if_false]
  · have hnot : x.run.init = false := Bool.eq_false_of_not_eq_true hdone
    simp only [hnot, Bool.not_false, if_true]
    by_cases hfile : files.init = []
    · have hconf : files.conf.init = false := by simp [ChunkFiles.conf, hfile]
      simp only [hfile, ne_eq, not_true_eq_false, if_false, modifyHost, wp_modify]
      refine hok _ ⟨{ x.run with init := true }, x.cache, x.entered⟩ ?_ (h.congr rfl rfl rfl) ⟨hp.off, hp.on, hp.hooked⟩
        ⟨?_, hh.entered, hh.profiler, hh.diagnostic, hh.merged⟩
      · simp only [CachedRun.runInit, hnot, hconf, Bool.not_false, if_true, Bool.false_eq_true, if_false]
      · rw [hh.run]
        rfl
    · have hconf : files.conf.init = true := by simp [ChunkFiles.conf, hfile]
      simp only [ne_eq, hfile, not_false_eq_true, if_true, wp_bind, modifyHost, wp_modify]
      refine lwsCall_wp (n := n) (fun _ => rfl) (fun _ => rfl) (fun _ => rfl) h hp hh (fun extra => index_chunks ctx extra c)
        (fun hne => absurd rfl hne) (by simp [minStack]) ?_ ?_
      · intro err w' load beh y hdoes hcall hfailed
        refine hE err w' load beh y hdoes ?_ hfailed
        simp only [CachedRun.runInit, hnot, hconf, Bool.not_false, if_true, hcall]
      · intro w' y result hcall hcached hprofiling hhost
        refine hok _ ⟨{ y.run with init := true }, y.cache, y.entered⟩ ?_ (hcached.congr rfl rfl rfl)
          ⟨hprofiling.off, hprofiling.on, hprofiling.hooked⟩ ⟨?_, hhost.entered, hhost.profiler, hhost.diagnostic, hhost.merged⟩
        · simp only [CachedRun.runInit, hnot, hconf, Bool.not_false, if_true, hcall]
        · rw [hhost.run]
          rfl

theorem runMain_wp {P : Int → Slots CFunction → LuaRealm → Prop} {ctx : Value CFunction} (h : Cached g m b c e w x.cache)
    (hp : Profiling w) (hh : HostIs g e h₀ w.host x)
    (hE : ∀ err w' loads pre beh y, Does text (r.body .pre) pre → Does text (r.body .main) beh →
      x.runMain files r.main n loads pre beh = (y, none) → FailedIs g e h₀ w'.host y → E err w')
    (hok : ∀ w' y result, x.runMain files r.main n (fun _ => true) (ChunkBody.behaviour text (r.body .pre))
      (ChunkBody.behaviour text (r.body .main)) = (y, some result) →
      Cached g m b c e w' y.cache → Profiling w' → HostIs g e h₀ w'.host y → P result [.table e, .table c, ctx] w') :
    (runMain (runRuntime text r) text files r).wp P E (1 + minStack) [.table e, .table c, ctx] w := by
  have hmain {w₁ : LuaRealm} {x₁ : CachedRun} {P : Int → Slots CFunction → LuaRealm → Prop} (h₁ : Cached g m b c e w₁ x₁.cache)
      (hp₁ : Profiling w₁) (hh₁ : HostIs g e h₀ w₁.host x₁)
      (hE₁ : ∀ err w' load beh y, Does text (r.body .main) beh → x₁.call n r.main .main load beh = (y, none) →
        FailedIs g e h₀ w'.host y → E err w')
      (hok₁ : ∀ w' y result, x₁.call n r.main .main true (ChunkBody.behaviour text (r.body .main)) = (y, some result) →
        Cached g m b c e w' y.cache → Profiling w' → HostIs g e h₀ w'.host y → P result [.table e, .table c, ctx] w') :
      (lwsCall (runRuntime text r) text (r.load .main) r.main .main).wp P E (1 + minStack) [.table e, .table c, ctx] w₁ :=
    lwsCall_wp (n := n) (fun _ => rfl) (fun _ => rfl) (fun _ => rfl) h₁ hp₁ hh₁ (fun extra => index_chunks_env ctx extra c e)
      (fun _ extra => index_env ctx extra c e) (by simp [minStack]) hE₁ hok₁
  simp only [runMain]
  by_cases hfile : files.pre = []
  · have hconf : files.conf.pre = false := by simp [ChunkFiles.conf, hfile]
    simp only [hfile, ne_eq, not_true_eq_false, if_false]
    refine hmain h hp hh (fun err w' load beh y hdoes hcall => ?_) fun w' y result hcall => ?_
    · refine hE err w' (fun _ => load) (ChunkBody.behaviour text (r.body .pre)) beh y (.inl rfl) hdoes ?_
      simpa only [CachedRun.runMain, hconf, Bool.false_eq_true, if_false] using hcall
    · refine hok w' y result ?_
      simpa only [CachedRun.runMain, hconf, Bool.false_eq_true, if_false] using hcall
  · have hconf : files.conf.pre = true := by simp [ChunkFiles.conf, hfile]
    simp only [ne_eq, hfile, not_false_eq_true, if_true, wp_bind, wp_realm]
    refine lwsCall_wp (n := n) (fun _ => rfl) (fun _ => rfl) (fun _ => rfl) h hp hh (fun extra => index_chunks_env ctx extra c e)
      (fun _ extra => index_env ctx extra c e) (by simp [minStack]) ?_ ?_
    · intro err w' load pre y hdoes hcall hfailed
      refine hE err w' (fun _ => load) pre (ChunkBody.behaviour text (r.body .main)) y hdoes (.inl rfl) ?_ hfailed
      simp only [CachedRun.runMain, hconf, if_true, hcall]
    · intro w₁ y result hcall hcached hprofiling hhost
      have hcomplete : w₁.host.run.lctx.complete = y.run.lctx.complete := by rw [hhost.run]; rfl
      by_cases hc : y.run.lctx.complete = true
      · simp only [hcomplete, hc, if_true, wp_pure]
        refine hok w₁ y result ?_ hcached hprofiling hhost
        simp only [CachedRun.runMain, hconf, if_true, hcall, hc]
      · simp only [hcomplete, hc, Bool.false_eq_true, if_false]
        refine hmain hcached hprofiling hhost (fun err w' load beh z hdoes hcall' => ?_) fun w' z result' hcall' => ?_
        · refine hE err w' (fun chunk => if chunk = .pre then true else load) (ChunkBody.behaviour text (r.body .pre)) beh z
            (.inl rfl) hdoes ?_
          simp only [CachedRun.runMain, hconf, if_true, hcall, hc, Bool.false_eq_true, if_false, reduceCtorEq, hcall']
        · refine hok w' z result' ?_
          simp only [CachedRun.runMain, hconf, if_true, hcall, hc, Bool.false_eq_true, if_false, hcall']

theorem runPost_wp {P : Unit → Slots CFunction → LuaRealm → Prop} {ctx : Value CFunction} (h : Cached g m b c e w x.cache)
    (hp : Profiling w) (hh : HostIs g e h₀ w.host x)
    (hE : ∀ err w' load beh y, Does text (r.body .post) beh → x.runPost files n (fun _ => load) beh = (y, .error) →
      FailedIs g e h₀ w'.host y → E err w')
    (hok : ∀ w' y, x.runPost files n (fun _ => true) (ChunkBody.behaviour text (r.body .post)) = (y, .ok) →
      Cached g m b c e w' y.cache → Profiling w' → HostIs g e h₀ w'.host y → P () [.table e, .table c, ctx] w') :
    (runPost (runRuntime text r) text files r).wp P E (1 + minStack) [.table e, .table c, ctx] w := by
  simp only [runPost]
  by_cases hfile : files.post = []
  · have hconf : files.conf.post = false := by simp [ChunkFiles.conf, hfile]
    simp only [hfile, ne_eq, not_true_eq_false, if_false, wp_pure]
    refine hok w x ?_ h hp hh
    simp only [CachedRun.runPost, hconf, Bool.false_eq_true, if_false]
  · have hconf : files.conf.post = true := by simp [ChunkFiles.conf, hfile]
    simp only [ne_eq, hfile, not_false_eq_true, if_true, wp_bind, wp_pure]
    refine lwsCall_wp (n := n) (fun _ => rfl) (fun _ => rfl) (fun _ => rfl) h hp hh (fun extra => index_chunks_env ctx extra c e)
      (fun _ extra => index_env ctx extra c e) (by simp [minStack]) ?_ ?_
    · intro err w' load beh y hdoes hcall hfailed
      refine hE err w' load beh y hdoes ?_ hfailed
      simp only [CachedRun.runPost, hconf, if_true, hcall]
    · intro w' y result hcall hcached hprofiling hhost
      refine hok w' y ?_ hcached hprofiling hhost
      simp only [CachedRun.runPost, hconf, if_true, hcall]

/-! ## The run -/

theorem HostIs.of_global {h : LuaHost} (hh : HostIs g e h₀ h x) (hglobal : ∀ p ∈ x.entered, p.2 = .global) (e' : Nat) :
    HostIs g e' h₀ h x :=
  { hh with
    entered := hh.entered.trans (List.map_congr_left fun p hp => by rw [hglobal p hp]; rfl) }

theorem HostIs.failed {h : LuaHost} (hh : HostIs g e h₀ h x) : FailedIs g e h₀ h x :=
  ⟨hh.run, hh.entered ▸ List.prefix_refl _, hh.profiler, hh.diagnostic, hh.merged.ge, hh.merged.le.trans (Nat.le_succ _)⟩

theorem Idle.rebase (h : Idle g m b w cache) {next : Nat} (hnext : next ≤ w.next) : Idle g m ⟨next, b.monitor⟩ w cache := by
  have hready (hr : Ready g m b w) : Ready g m ⟨next, b.monitor⟩ w :=
    { hr with used := ⟨hr.used.1, hr.used.2.1, hr.used.2.2.1, hnext⟩ }
  refine { h with ready := hready h.ready, chunks := h.chunks.imp ?_ id }
  rintro ⟨c, e, hc⟩
  exact ⟨c, e, { hc with ready := hready hc.ready }⟩

theorem Idle.congr (h : Idle g m b w cache) (htables : w'.tables = w.tables) (hup : w'.upvalue = w.upvalue)
    (hnext : w'.next = w.next) (hhook : w'.hook = w.hook) : Idle g m b w' cache where
  ready := h.ready.congr htables hnext
  hook := hhook.trans h.hook
  request := by rw [inRegistry, htables]; exact h.request
  profiler := by rw [inRegistry, htables]; exact h.profiler
  settled := h.settled
  chunks := by
    rcases h.chunks with ⟨c, e, hc⟩ | ⟨hnil, hnone⟩
    · exact .inl ⟨c, e, hc.congr htables hup hnext⟩
    · exact .inr ⟨by rw [inRegistry, htables]; exact hnil, hnone⟩

theorem runInit_global {loads : Chunk → Bool} {beh : LuaBehaviour} (hentered : x.entered = []) :
    ∀ p ∈ (x.runInit files n loads beh).1.entered, p.2 = .global := by
  have hcall : ∀ p ∈ (x.call n files.init .init (loads .init) beh).1.entered, p.2 = .global := by
    unfold CachedRun.call
    split
    · simp [hentered]
    · simp [hentered]
  unfold CachedRun.runInit
  split
  · split
    · split
      · rename_i hr
        rwa [hr] at hcall
      · rename_i hr
        rwa [hr] at hcall
    · simp [hentered]
  · simp [hentered]

def LuaRequest.beh (text : LuaText) (r : LuaRequest) (chunk : Chunk) : LuaBehaviour := ChunkBody.behaviour text (r.body chunk)

theorem does_update {f : Chunk → LuaBehaviour} (hf : ∀ chunk, Does text (r.body chunk) (f chunk)) {chunk : Chunk}
    {beh : LuaBehaviour} (h : Does text (r.body chunk) beh) (chunk' : Chunk) :
    Does text (r.body chunk') (Function.update f chunk beh chunk') := by
  by_cases hc : chunk' = chunk
  · subst hc
    rwa [Function.update_self]
  · rw [Function.update_of_ne hc]
    exact hf chunk'

theorem beh_assigns (chunk : Chunk) {touched : List Key} :
    ∀ q ∈ (r.beh text chunk).assigns, (∀ n, q.2 ≠ .request n) ∨ q.1 ∈ touched := by
  intro q hq
  obtain ⟨filename, -, rfl⟩ := List.mem_map.1 hq
  exact .inl fun n => ChunkEnv.noConfusion

theorem does_beh (chunk : Chunk) : Does text (r.body chunk) (r.beh text chunk) := .inl rfl

section
variable (loads : Chunk → Bool) {loads' : Chunk → Bool} {pre beh : LuaBehaviour}

theorem runInit_loads (h : loads .init = loads' .init) : x.runInit files n loads beh = x.runInit files n loads' beh := by
  simp only [CachedRun.runInit, h]

theorem runMain_loads {main : Key} (h : loads .pre = loads' .pre) (h' : loads .main = loads' .main) :
    x.runMain files main n loads pre beh = x.runMain files main n loads' pre beh := by
  simp only [CachedRun.runMain, h, h']

theorem runPost_loads (h : loads .post = loads' .post) : x.runPost files n loads beh = x.runPost files n loads' beh := by
  simp only [CachedRun.runPost, h]

end

/-- **The errors of a run**: some run of `ChunkCache`, whose chunks do what the bodies do until an error cuts one short, ends in an
error, and the program holds what it does. -/
def Fails (g n : Nat) (text : LuaText) (files : ChunkFiles) (r : LuaRequest) (h₀ : LuaHost) (x : CachedRun) (h : LuaHost) : Prop :=
  ∃ e loads env beh y, (∀ chunk, Does text (r.body chunk) (beh chunk)) ∧
    lwsRunCached files r.main n loads env beh x = (y, none) ∧ FailedIs g e h₀ h y

/-- **A run on the stack is a run of `ChunkCache`**: where it returns, every file has loaded, the chunks have done what their bodies
do, and the state is idle again, with an environment that was not in use before; where it raises an error, that run ends in one. -/
theorem lwsRun_wp {ctx : Value CFunction} (hidle : Idle g m b w x.cache) (hrun : w.host.run = x.run.unlogged)
    (hlctx : x.run.lctx = {}) (hentered : x.entered = []) (hhost : w.host.entered = [])
    (hmonitor : w.host.profiler ≠ 0 → b.monitor = true) :
    (lwsRun (runRuntime text r) text files r).wp
      (fun k inner w' => k = 1 ∧ ∃ result rest e y, inner = .integer result :: rest ∧
        lwsRunCached files r.main n (fun _ => true) {} (LuaRequest.beh text r) x = (y, some result) ∧
        w.next ≤ e ∧ e < w'.next ∧ Idle g m ⟨w.next, b.monitor⟩ w' y.cache ∧
        HostIs g e { w.host with merged := w.host.merged + if w.host.profiler = 0 then 0 else 1 } w'.host y)
      (fun _ w' => Fails g n text files r w.host x w'.host) (1 + minStack) [ctx] w := by
  have hx : (⟨{ x.run with lctx := {} }, x.cache, x.entered⟩ : CachedRun) = x := by rw [← hlctx]
  have hstart : HostIs g 0 w.host w.host x := ⟨hrun, by rw [hhost, hentered]; rfl, rfl, rfl, rfl⟩
  have hsetup (err : Option (Value CFunction)) (w' : LuaRealm) (hw' : w'.host = w.host) :
      Fails g n text files r w.host x w'.host := by
    refine ⟨0, fun _ => true, { setup := false }, r.beh text, x, does_beh, ?_, ?_⟩
    · simp only [lwsRunCached, hx, Bool.not_false, if_true]
    · rw [hw']
      exact hstart.failed
  simp only [lwsRun, wp_bind]
  have hbased := hidle.rebase (Nat.le_refl w.next)
  refine setRequestCtx_wp hbased (by rw [hrun]; exact hlctx) hsetup
    fun w₁ hready₁ hhost₁ hnone₁ hprofiler₁ hchunks₁ hcached₁ => ?_
  refine getChunks_wp hready₁ hnone₁ hprofiler₁ (hbased.chunks.imp hcached₁ fun h => ⟨hchunks₁.trans h.1, h.2⟩)
    (by simp [minStack]) (fun err w' hw' => hsetup err w' (hw'.trans hhost₁)) fun c e₀ w₂ h₂ hhost₂ hnone₂ hprofiler₂ => ?_
  have hhost₂ := hhost₂.trans hhost₁
  refine startProfiler_wp (fun _ => rfl) rfl h₂ (by rwa [hhost₂]) hnone₂ hprofiler₂ (by simp [minStack])
    (fun err w' hw' => hsetup err w' (hw'.trans hhost₂)) fun w₃ h₃ hp₃ hhost₃ => ?_
  have hh₃ : HostIs g e₀ w.host w₃.host x := by
    rw [hhost₃, hhost₂]
    exact hstart.of_global (by simp [hentered]) e₀
  refine runInit_wp (n := n) h₃ hp₃ hh₃ ?_ fun w₄ y hinit h₄ hp₄ hh₄ => ?_
  · intro err w' load beh y hdoes hinit hfailed
    refine ⟨e₀, fun _ => load, {}, Function.update (r.beh text) .init beh, y, does_update does_beh hdoes, ?_, hfailed⟩
    simp only [lwsRunCached, hx, Bool.not_true, Bool.false_eq_true, if_false, Function.update_self, hinit]
  have hinit' : x.runInit files n (fun _ => true) (r.beh text .init) = (y, .ok) := hinit
  have hsettled : Settled y.cache := .of_outside
    (CleanOutside.runInit (by simp) (fun p _ => beh_assigns p.1) hidle.settled.outside hinit')
  have hglobal : ∀ p ∈ y.entered, p.2 = .global := by
    have hinit' : ∀ p ∈ (x.runInit files n (fun _ => true) (ChunkBody.behaviour text (r.body .init))).1.entered,
        p.2 = .global := runInit_global hentered
    rwa [hinit] at hinit'
  have hpush (err : Option (Value CFunction)) (w' : LuaRealm) (hw' : w'.host = w₄.host) :
      Fails g n text files r w.host x w'.host := by
    refine ⟨e₀, fun _ => true, { pushEnv := false }, r.beh text, y, does_beh, ?_, hw' ▸ hh₄.failed⟩
    simp only [lwsRunCached, hx, Bool.not_true, Bool.false_eq_true, if_false, LuaRequest.beh, hinit, Bool.not_false, if_true]
  refine lwsPushEnv_wp (fun _ => rfl) rfl h₄.ready hp₄.hooked (by simp [minStack]) hpush fun w₅ hgrown hused => ?_
  have h₅ : Cached g m ⟨w.next, b.monitor⟩ c w₄.next w₅ y.cache := (h₄.grown hgrown).of_settled hsettled hused
  have hh₅ : HostIs g w₄.next w.host w₅.host y := hgrown.host ▸ hh₄.of_global hglobal w₄.next
  refine runMain_wp (n := n) h₅ (hp₄.grown h₄.ready.used.1 hgrown) hh₅ ?_ fun w₆ z result hmain h₆ hp₆ hh₆ => ?_
  · intro err w' loads pre beh z hpre hbeh hmain hfailed
    have hinit' := (runInit_loads (Function.update loads .init true) (by simp)).trans hinit
    have hmain' := (runMain_loads (Function.update loads .init true) (by simp) (by simp)).trans hmain
    refine ⟨w₄.next, Function.update loads .init true, {}, Function.update (Function.update (r.beh text) .pre pre) .main beh, z,
      does_update (does_update does_beh hpre) hbeh, ?_, hfailed⟩
    simp only [lwsRunCached, hx, Bool.not_true, Bool.false_eq_true, if_false, ne_eq, reduceCtorEq, not_false_eq_true,
      Function.update_self, Function.update_of_ne, LuaRequest.beh, hinit', hmain']
  refine runPost_wp (n := n) h₆ hp₆ hh₆ ?_ fun w₇ u hpost h₇ hp₇ hh₇ => ?_
  · intro err w' load beh u hdoes hpost hfailed
    have hinit' := (runInit_loads (Function.update (fun _ => true) .post load) (by simp)).trans hinit
    have hmain' := (runMain_loads (Function.update (fun _ => true) .post load) (by simp) (by simp)).trans hmain
    have hpost' := (runPost_loads (Function.update (fun _ => true) .post load) (by simp)).trans hpost
    refine ⟨w₄.next, Function.update (fun _ => true) .post load, {}, Function.update (r.beh text) .post beh, u,
      does_update does_beh hdoes, ?_, hfailed⟩
    simp only [lwsRunCached, hx, Bool.not_true, Bool.false_eq_true, if_false, ne_eq, reduceCtorEq, not_false_eq_true,
      Function.update_self, Function.update_of_ne, LuaRequest.beh, hinit', hmain', hpost']
  have hfinal (finish : Bool) : lwsRunCached files r.main n (fun _ => true) { finish := finish } (r.beh text) x =
      if !finish then (u.clear files r.main, none) else (u.clear files r.main, some result) := by
    simp only [lwsRunCached, hx, Bool.not_true, Bool.false_eq_true, if_false, LuaRequest.beh, hinit, hmain, hpost]
  have hcleared : HostIs g w₄.next w.host w₇.host (u.clear files r.main) :=
    ⟨hh₇.run, hh₇.entered, hh₇.profiler, hh₇.diagnostic, hh₇.merged⟩
  have hfinish (err : Option (Value CFunction)) (w' : LuaRealm)
      (hw' : w'.host = w₇.host ∨ w'.host = { w₇.host with merged := w₇.host.merged + 1 }) :
      Fails g n text files r w.host x w'.host := by
    refine ⟨w₄.next, fun _ => true, { finish := false }, r.beh text, _, does_beh, hfinal false, ?_⟩
    rcases hw' with hw' | hw'
    · rw [hw']
      exact hcleared.failed
    · rw [hw']
      exact ⟨hcleared.run, hcleared.failed.entered, hcleared.profiler, hcleared.diagnostic,
        hcleared.merged.ge.trans (Nat.le_succ _), Nat.succ_le_succ hcleared.merged.le⟩
  have hsettledEnd : Settled (u.clear files r.main).cache := .of_outside
    (CleanOutside.of_run (by simp) {} hidle.settled.outside (hfinal true) fun p _ => beh_assigns p.1)
  refine clear_wp (x := u) h₇ hp₇ (by rw [hh₇.run]; rfl) (fun extra => index_chunks_env ctx extra c w₄.next) (by simp [minStack])
    (fun err w' hw' => hfinish err w' (.inl hw')) fun w₈ h₈ hp₈ hhost₈ => ?_
  refine stopProfiler_wp (fun _ => rfl) rfl h₈ hp₈ (by simp [minStack]) (fun err w' hw' => hfinish err w' (by rwa [hhost₈] at hw'))
    fun w₉ h₉ hnone₉ hprofiler₉ hhost₉ => ?_
  rw [hhost₈] at hhost₉
  refine clearRequestCtx_wp h₉ hnone₉ hprofiler₉ hsettledEnd (by simp [minStack]) (fun err w' hw' => hfinish err w' ?_)
    fun w₁₀ hidle₁₀ hused₁₀ hhost₁₀ => ?_
  · rw [hw', hhost₉]
    split
    · exact .inl rfl
    · exact .inr rfl
  simp only [pushinteger]
  rw [wp_push (by simp [minStack]), wp_pure]
  refine ⟨rfl, result, _, w₄.next, _, rfl, hfinal true, h₄.ready.used.2.2.2, hused₁₀, hidle₁₀, ?_⟩
  rw [hhost₁₀, hhost₉]
  refine ⟨hcleared.run, hcleared.entered, hcleared.profiler, hcleared.diagnostic, ?_⟩
  rw [hcleared.merged, hcleared.profiler]

end OnStack
end Lws

import Lws.LuaStack
/-!
# LuaCall — a chunk on the stack (`lws_call`) against that of `ChunkCache`

The function is got, or loaded and stored; its `_ENV` is set; it is called; its result is checked.  Where `lws_call` returns, it is
`CachedRun.call`; where it raises an error, it is a call that fails.
-/
namespace Lws

def Run.unlogged (x : Run) : Run := { x with log := [] }

namespace OnStack

open LuaApi LuaApi.Api

/-- What the program holds, for a run of `ChunkCache`; the rest of it is as in `h₀`. -/
structure HostIs (g e : Nat) (h₀ h : LuaHost) (x : CachedRun) : Prop where
  run : h.run = x.run.unlogged
  entered : h.entered = x.entered.map fun p => (p.1, envValue g e p.2)
  profiler : h.profiler = h₀.profiler
  diagnostic : h.diagnostic = h₀.diagnostic
  merged : h.merged = h₀.merged

def ChunkBody.behaviour (text : LuaText) (body : ChunkBody) : LuaBehaviour where
  steps := body.steps
  assigns := body.assigned.map fun filename => (filename, .other)
  result :=
    match body.result with
    | .error _ => .error
    | .ok results =>
      match results.headD .nil with
      | .nil => .nil
      | v =>
        match text.tointegerx v with
        | some n => .integer n
        | none => .other

/-- A chunk does what its body does, or an error, such as one of memory or of the hook, cuts it short. -/
def Does (text : LuaText) (body : ChunkBody) (beh : LuaBehaviour) : Prop :=
  beh = ChunkBody.behaviour text body ∨ (beh.steps <+: body.steps ∧ beh.result = .error)

/-- What the program holds after an error, for a run of `ChunkCache` that ends in one; the last chunk may not have been entered. -/
structure FailedIs (g e : Nat) (h₀ h : LuaHost) (x : CachedRun) : Prop where
  run : h.run = x.run.unlogged
  entered : h.entered <+: x.entered.map fun p => (p.1, envValue g e p.2)
  profiler : h.profiler = h₀.profiler
  diagnostic : h.diagnostic = h₀.diagnostic
  merged : h₀.merged ≤ h.merged ∧ h.merged ≤ h₀.merged + 1

variable {R : Runtime CFunction Content LuaHost} {E : Option (Value CFunction) → LuaRealm → Prop} {limit : Nat}
  {frame : Slots CFunction} {w w₀ w' : LuaRealm} {g m c e n : Nat} {b : Base} {cache : ChunkCache} {text : LuaText} {r : LuaRequest}
  {h₀ : LuaHost} {x : CachedRun}

/-! ## The function of a chunk -/

/-- **The function is that of the cache**, which is new where there was none; a function without upvalues is of no use. -/
theorem getFunction_wp {P : Unit → Slots CFunction → LuaRealm → Prop} {file : Api.FileLoad CFunction} {filename : Key}
    (h : Cached g m b c e w cache) (hp : Profiling w) (hc : ∀ extra, Slots.index (extra ++ frame) 2 = some (.table c))
    (hlimit : frame.length + 4 ≤ limit) (hE : ∀ err w', w'.host = w.host → E err w')
    (hok : ∀ f w' cache', loadChunk filename true cache = some cache' → Cached g m b c e w' cache' → HasFunction c w' filename f →
      w'.host = w.host → Profiling w' → P () (.function f :: .string filename :: frame) w')
    (hnone : ∀ f w', w'.upvalue f = none → (w'.tables 0).get (.integer ridxGlobals) = .table g → w'.host = w.host →
      P () (.function f :: .string filename :: frame) w') :
    (getFunction R file filename).wp P E limit frame w := by
  have hget : Slots.index (.string filename :: .string filename :: frame) 2 = some (.table c) :=
    hc [.string filename, .string filename]
  have hset (f : Nat) :
      Slots.index (.function f :: .string filename :: .function f :: .string filename :: frame) 2 = some (.table c) :=
    hc [.function f, .string filename, .function f, .string filename]
  simp only [getFunction, wp_bind]
  refine wp_pushlstring (by omega) (hE _ _ rfl) ?_
  rw [wp_pushvalue (v := .string filename) rfl (by simpa using by omega), wp_rawget hget (by simpa using by omega),
    Realm.tried_tables]
  cases hcache : cache filename with
  | some env =>
    obtain ⟨f, -, hf, -⟩ := h.present filename env hcache
    rw [show (w.tables c).get (.string filename) = .function f from hf]
    simp only [isFunction, Bool.not_true, Bool.false_eq_true, if_false, wp_pure]
    refine hok f w.tried cache ?_ (h.congr rfl rfl rfl) hf rfl (hp.atTick _)
    rw [loadChunk, hcache]
  | none =>
    rw [h.absent filename hcache]
    simp only [isFunction, Bool.not_false, if_true, wp_bind]
    rw [wp_pop_one]
    refine wp_loadfilex (by simpa using by omega) (hE _ _ rfl) (fun err => ?_) fun upvalues _ => ?_
    · simp only [Bool.not_false, if_true, wp_bind, wp_luaError]
      exact hE _ _ rfl
    · simp only [Bool.not_true, Bool.false_eq_true, if_false, wp_bind, Realm.tried_next, Realm.tried_tables]
      rw [wp_pushvalue (v := .string filename) rfl (by simpa using by omega),
        wp_pushvalue (v := .function w.next) rfl (by simpa using by omega)]
      refine wp_rawset (hset w.next) (hE _ _ rfl) ?_
      cases upvalues with
      | false =>
        refine hnone _ _ ?_ ?_ rfl
        · simp [Realm.setUpvalue, Realm.taken, Realm.setEntry, Realm.setTable]
        · rw [tables_setEntry_of_ne h.apart.1.symm]
          exact h.ready.globals
      | true =>
        simp only [if_true, h.ready.globals]
        have hgrown : w.Grown (w.tried.tried.tried.setUpvalue w.next (some (.table g))).taken.tried :=
          ((Realm.Grown.refl w).tried.tried.tried.setUpvalue (Nat.le_refl _) _).taken.tried
        have hup : (w.tried.tried.tried.setUpvalue w.next (some (.table g))).taken.tried.upvalue w.next = some (.table g) := by
          simp [Realm.setUpvalue, Realm.taken]
        refine hok w.next _ _ ?_ (h.load hgrown hcache (Nat.le_refl _) (Nat.lt_succ_self _) hup) (get_setEntry_self c _ _) rfl ?_
        · rw [loadChunk, hcache]
          rfl
        · exact (hp.grown h.ready.used.1 hgrown).setEntry h.apart.1 _ _

def chunkEnv (n : Nat) (chunk : Chunk) : ChunkEnv := if chunk ≠ .init then .request n else .global

def chunkEnvTable (g e : Nat) (chunk : Chunk) : Value CFunction := .table (if chunk ≠ .init then e else g)

theorem envValue_chunkEnv (g e n : Nat) (chunk : Chunk) : envValue g e (chunkEnv n chunk) = some (chunkEnvTable g e chunk) := by
  unfold chunkEnv chunkEnvTable
  split <;> rfl

/-- **`_ENV` is set**: to the globals for the init chunk, and else to the environment that is in the frame. -/
theorem setEnv_wp {P : Unit → Slots CFunction → LuaRealm → Prop} {filename : Key} {chunk : Chunk} {f : Nat}
    (h : Cached g m b c e w cache) (hf : HasFunction c w filename f)
    (he : chunk ≠ .init → ∀ extra, Slots.index (extra ++ frame) 3 = some (.table e)) (hlimit : frame.length + 3 ≤ limit)
    (hok : P () (.function f :: .string filename :: frame) (w.setUpvalue f (some (chunkEnvTable g e chunk)))) :
    (setEnv chunk).wp P E limit (.function f :: .string filename :: frame) w := by
  have hup : ∃ old, w.upvalue f = some old := by
    cases hcache : cache filename with
    | none =>
      rw [HasFunction, h.absent filename hcache] at hf
      cases hf
    | some env =>
      obtain ⟨f', v, hf', -, hup, -⟩ := h.present filename env hcache
      exact ⟨v, Value.function.inj (hf'.symm.trans hf) ▸ hup⟩
  obtain ⟨old, hup⟩ := hup
  simp only [setEnv]
  by_cases hchunk : chunk = .init
  · simp only [hchunk, ne_eq, not_true_eq_false, if_false, wp_bind]
    rw [wp_rawgeti rfl (by simpa using by omega), wp_setupvalue rfl hup, h.ready.globals]
    simpa only [chunkEnvTable, hchunk, ne_eq, not_true_eq_false, if_false] using hok
  · have henv : Slots.index (.function f :: .string filename :: frame) 3 = some (.table e) :=
      he hchunk [.function f, .string filename]
    simp only [ne_eq, hchunk, not_false_eq_true, if_true, wp_bind]
    rw [wp_pushvalue henv (by simpa using by omega), wp_setupvalue rfl hup]
    simpa only [chunkEnvTable, ne_eq, hchunk, not_false_eq_true, if_true] using hok

theorem setEnv_none_wp {P : Unit → Slots CFunction → LuaRealm → Prop} {v : Value CFunction} {chunk : Chunk} {f : Nat}
    (hup : w.upvalue f = none) (hglobals : (w.tables 0).get (.integer ridxGlobals) = .table g)
    (he : chunk ≠ .init → ∀ extra, Slots.index (extra ++ frame) 3 = some (.table e)) (hlimit : frame.length + 3 ≤ limit)
    (h : ∀ env, P () (.table env :: .function f :: v :: frame) w) :
    (setEnv chunk).wp P E limit (.function f :: v :: frame) w := by
  simp only [setEnv]
  by_cases hchunk : chunk = .init
  · simp only [hchunk, ne_eq, not_true_eq_false, if_false, wp_bind]
    rw [wp_rawgeti rfl (by simpa using by omega), wp_setupvalue_none rfl hup, hglobals]
    exact h g
  · have henv : Slots.index (.function f :: v :: frame) 3 = some (.table e) := he hchunk [.function f, v]
    simp only [ne_eq, hchunk, not_false_eq_true, if_true, wp_bind]
    rw [wp_pushvalue henv (by simpa using by omega), wp_setupvalue_none rfl hup]
    exact h e

/-! ## A chunk -/

theorem call_unlogged (x : Run) (call : ChunkCall) : (x.call call).unlogged = x.unlogged.call call := by
  cases call <;> rfl

theorem step_unlogged (x : Run) (step : LuaAction) : (x.step step).unlogged = x.unlogged.step step := by
  cases step with
  | call call => exact call_unlogged x call
  | status n =>
    change (if x.lctx.sealed then x else _ : Run).unlogged = if x.lctx.sealed then x.unlogged else _
    split <;> rfl
  | flush => rfl

theorem foldl_step_unlogged : ∀ (steps : List LuaAction) (x : Run),
    (steps.foldl Run.step x).unlogged = steps.foldl Run.step x.unlogged
  | [], _ => rfl
  | step :: steps, x => by rw [List.foldl_cons, foldl_step_unlogged steps, step_unlogged, List.foldl_cons]

def called (r : LuaRequest) (chunk : Chunk) (env : Option (Value CFunction)) (h : LuaHost) : LuaHost :=
  { h with run := (r.body chunk).steps.foldl Run.step h.run, entered := h.entered ++ [(chunk, env)] }

theorem chunkFunction_wp {P : Nat → Slots CFunction → LuaRealm → Prop} {f : Nat} {chunk : Chunk}
    (hchunk : w.host.run.lctx.chunk = chunk) {env : Option (Value CFunction)} (henv : w.upvalue f = env)
    (hE : ∀ err w', (r.body chunk).result = .error err → w'.host = called r chunk env w.host → E err w')
    (h : ∀ results w', (r.body chunk).result = .ok results → w'.host = called r chunk env w.host →
      KeptByLua (r.body chunk).assigned { w with host := called r chunk env w.host } w' → P results.length results.reverse w') :
    (chunkFunction r f).wp P E limit frame w := by
  have hkept := (r.body chunk).kept { w with host := called r chunk env w.host }
  simp only [chunkFunction, wp_bind, wp_realm, modifyHost, wp_modify, hchunk, henv]
  cases hr : (r.body chunk).result with
  | error err => exact hE err _ hr hkept.host
  | ok results => exact h results _ hr hkept.host hkept

/-- **A chunk is called**: what is left is its first result. -/
theorem callChunk_wp {P : Unit → Slots CFunction → LuaRealm → Prop} {v : Value CFunction} {f : Nat} {chunk : Chunk}
    (hhook : ∀ f, R.hook f = lwsProfilerHook) (hbody : R.body (.function f) = some (chunkFunction r f))
    (h : Cached g m b c e w cache) (hp : Profiling w) (hchunk : w.host.run.lctx.chunk = chunk) {env : Option (Value CFunction)}
    (henv : w.upvalue f = env) (hlimit : frame.length + 2 ≤ limit)
    (hbefore : ∀ err w', w'.host = w.host → E err w')
    (herror : ∀ err err' w', (r.body chunk).result = .error err → w'.host = called r chunk env w.host → E err' w')
    (hafter : ∀ err w', w'.host = called r chunk env w.host → E err w')
    (hok : ∀ results w', (r.body chunk).result = .ok results → w'.host = called r chunk env w.host →
      Cached g m b c e w' (assignAll (r.body chunk).assigned cache) → Profiling w' →
      P () (results.headD .nil :: v :: frame) w') :
    (call R 0 1).wp P E limit (.function f :: v :: frame) w := by
  refine wp_call [] (v :: frame) rfl rfl (by simpa using by omega) ?_
  refine wp_invoke hbody (hooked_wp hhook hp.hooked hbefore fun k => ?_)
  refine chunkFunction_wp (w := w.atTick k) hchunk henv (fun err w' hr hw' => herror err err w' hr hw')
    fun results w' hr hw' hkept => ?_
  have hcalled : Cached g m b c e { w.atTick k with host := called r chunk env w.host } cache := h.congr rfl rfl rfl
  have hcached := hcalled.kept hkept
  have hprofiling : Profiling w' :=
    Profiling.kept (w := { w.atTick k with host := called r chunk env w.host }) ⟨hp.off, hp.on, hp.hooked⟩ hkept
  refine ⟨by simp, hooked_wp hhook hprofiling.hooked (fun err w'' hw'' => hafter err w'' (hw''.trans hw'))
    fun k' => ⟨rfl, ?_⟩⟩
  rw [← List.length_reverse, List.take_length, adjust_one_reverse]
  exact hok results _ hr hw' (hcached.congr rfl rfl rfl) (hprofiling.atTick k')

theorem toInt_of_option : ∀ o : Option Int, (match o with | some n => LuaResult.integer n | none => .other).toInt =
    some (match o with | some n => n.bmod (2 ^ 32) | none => -1)
  | some _ => rfl
  | none => rfl

theorem behaviour_toInt {body : ChunkBody} {results : List (Value CFunction)} (hr : body.result = .ok results) :
    (ChunkBody.behaviour text body).result.toInt = some (resultOf text (results.headD .nil)) := by
  simp only [ChunkBody.behaviour, hr, resultOf]
  cases results.headD .nil with
  | nil => rfl
  | _ => exact toInt_of_option _

def checked (chunk : Chunk) (result : Int) (h : LuaHost) : LuaHost :=
  if 0 < result ∧ chunk = .pre then { h with run := { h.run with lctx := { h.run.lctx with complete := true } } } else h

theorem checked_run (chunk : Chunk) (result : Int) (h : LuaHost) : (checked chunk result h).run =
    { h.run with lctx := { h.run.lctx with complete := h.run.lctx.complete || (decide (result > 0) && chunk = .pre) } } := by
  unfold checked
  split
  · rename_i hpre
    simp [hpre]
  · rename_i hpre
    have hfalse : (decide (result > 0) && decide (chunk = .pre)) = false := by
      rw [Bool.and_eq_false_iff, decide_eq_false_iff_not, decide_eq_false_iff_not]
      exact not_and_or.1 hpre
    rw [hfalse, Bool.or_false]

theorem checked_rest (chunk : Chunk) (result : Int) (h : LuaHost) :
    { checked chunk result h with run := h.run } = h := by
  unfold checked
  split
  · rfl
  · rfl

theorem checkResult_wp {P : Int → Slots CFunction → LuaRealm → Prop} {filename : Key} {chunk : Chunk} {v v' : Value CFunction}
    (hE : ∀ err w', w'.host = w.host → resultOf text v < 0 → E err w')
    (h : ¬resultOf text v < 0 → P (resultOf text v) frame { w with host := checked chunk (resultOf text v) w.host }) :
    (checkResult text filename chunk).wp P E limit (v :: v' :: frame) w := by
  simp only [checkResult, wp_bind]
  rw [wp_value (v := v) rfl]
  by_cases hneg : resultOf text v < 0
  · simp only [if_pos hneg, wp_bind]
    rw [wp_value (v := v') rfl]
    exact wp_luaLError fun err => hE err _ rfl hneg
  · have hP := h hneg
    unfold checked at hP
    simp only [if_neg hneg]
    split
    · rename_i hpre
      rw [if_pos hpre] at hP
      simp only [wp_bind, modifyHost, wp_modify, wp_pop_two, wp_pure]
      exact hP
    · rename_i hpre
      rw [if_neg hpre] at hP
      simp only [wp_bind, wp_pop_two, wp_pure]
      exact hP

theorem call_failed (x : CachedRun) (filename : Key) (chunk : Chunk) :
    ∃ cache extra, x.call n filename chunk false { result := .error } =
      (⟨(Lws.lwsCall chunk { result := .error } { x.run with lctx := { x.run.lctx with chunk := chunk } }).1, cache,
        x.entered ++ extra⟩, none) := by
  unfold CachedRun.call
  split
  · exact ⟨_, [], by rw [List.append_nil]; rfl⟩
  · exact ⟨_, _, rfl⟩

theorem call_loaded {cache' : ChunkCache} {filename : Key} (hload : loadChunk filename true x.cache = some cache') (chunk : Chunk)
    (beh : LuaBehaviour) : x.call n filename chunk true beh =
      let run := beh.steps.foldl Run.step { x.run with lctx := { x.run.lctx with chunk := chunk } }
      (⟨(Lws.lwsCall chunk { result := beh.result } run).1,
        beh.assigns.foldl assignEnv (setChunkEnv filename (chunkEnv n chunk) cache'), x.entered ++ [(chunk, chunkEnv n chunk)]⟩,
        (Lws.lwsCall chunk { result := beh.result } run).2) := by
  rw [CachedRun.call, hload]
  rfl

theorem lwsCall_toInt (chunk : Chunk) {v : LuaResult} {run : Run} (hchunk : run.lctx.chunk = chunk) {result : Int}
    (hr : v.toInt = some result) :
    (result < 0 → Lws.lwsCall chunk { result := v } run = ({ run with log := run.log ++ [(chunk, false)] }, none)) ∧
      (¬result < 0 → Lws.lwsCall chunk { result := v } run =
        ({ run with lctx := { run.lctx with complete := run.lctx.complete || (decide (result > 0) && chunk = .pre) },
                    log := run.log ++ [(chunk, true)] }, some result)) := by
  subst hchunk
  refine ⟨fun hneg => ?_, fun hneg => ?_⟩
  · simp only [Lws.lwsCall, hr, if_pos hneg, List.foldl_nil]
  · simp only [Lws.lwsCall, hr, if_neg hneg, List.foldl_nil]

theorem lwsCall_error {chunk : Chunk} {run : Run} (hchunk : run.lctx.chunk = chunk) :
    Lws.lwsCall chunk { result := .error } run = ({ run with log := run.log ++ [(chunk, false)] }, none) := by
  subst hchunk
  simp only [Lws.lwsCall, LuaResult.toInt, List.foldl_nil]

/-- **`lws_call` is the call of `ChunkCache`**: where it returns, its file has loaded and the chunk has done what its body does. -/
theorem lwsCall_wp {P : Int → Slots CFunction → LuaRealm → Prop} {filename : Key} {chunk : Chunk}
    (hhook : ∀ f, R.hook f = lwsProfilerHook) (hbody : ∀ f, R.body (.function f) = some (chunkFunction r f))
    (htable : ∀ t, R.body (.table t) = none) (h : Cached g m b c e w x.cache) (hp : Profiling w) (hh : HostIs g e h₀ w.host x)
    (hc : ∀ extra, Slots.index (extra ++ frame) 2 = some (.table c))
    (he : chunk ≠ .init → ∀ extra, Slots.index (extra ++ frame) 3 = some (.table e)) (hlimit : frame.length + 4 ≤ limit)
    (hE : ∀ err w' load beh y, Does text (r.body chunk) beh → x.call n filename chunk load beh = (y, none) →
      FailedIs g e h₀ w'.host y → E err w')
    (hok : ∀ w' y result, x.call n filename chunk true (ChunkBody.behaviour text (r.body chunk)) = (y, some result) →
      Cached g m b c e w' y.cache → Profiling w' → HostIs g e h₀ w'.host y → P result frame w') :
    (lwsCall R text (r.load chunk) filename chunk).wp P E limit frame w := by
  have hstart : w.host.run = x.run.unlogged := hh.run
  let host : LuaHost := { w.host with run := { w.host.run with lctx := { w.host.run.lctx with chunk := chunk } } }
  let env := some (chunkEnvTable g e chunk)
  let run' := (r.body chunk).steps.foldl Run.step { x.run with lctx := { x.run.lctx with chunk := chunk } }
  have hchunk' : run'.lctx.chunk = chunk := foldl_step_chunk _ _
  have hbefore (err : Option (Value CFunction)) (w' : LuaRealm) (hw' : w'.host = host) : E err w' := by
    obtain ⟨cache', extra, hcall⟩ := call_failed (n := n) x filename chunk
    refine hE err w' false { result := .error } _ (.inr ⟨List.nil_prefix, rfl⟩) hcall ?_
    rw [hw', show Lws.lwsCall chunk { result := .error } { x.run with lctx := { x.run.lctx with chunk := chunk } } = _ from
      lwsCall_error rfl]
    refine ⟨?_, ?_, hh.profiler, hh.diagnostic, hh.merged.ge, hh.merged.le.trans (Nat.le_succ _)⟩
    · simp only [host, hstart]
      rfl
    · simp only [host, hh.entered, List.map_append]
      exact List.prefix_append _ _
  have hcalled : (called r chunk env host).run = run'.unlogged ∧
      (called r chunk env host).entered =
        (x.entered ++ [(chunk, chunkEnv n chunk)]).map fun p => (p.1, envValue g e p.2) := by
    refine ⟨?_, ?_⟩
    · simp only [called, host, run', foldl_step_unlogged, hstart]
      rfl
    · simp only [called, host, env, hh.entered, List.map_append, List.map_cons, List.map_nil, envValue_chunkEnv]
  have hfailed (err : Option (Value CFunction)) (w' : LuaRealm) {cache' : ChunkCache}
      (hload : loadChunk filename true x.cache = some cache') (hw' : w'.host = called r chunk env host) {beh : LuaBehaviour}
      (hdoes : Does text (r.body chunk) beh) (hsteps : beh.steps = (r.body chunk).steps) {log : List (Chunk × Bool)}
      (hcall : Lws.lwsCall chunk { result := beh.result } run' = ({ run' with log := log }, none)) : E err w' := by
    have hall := call_loaded (n := n) hload chunk beh
    rw [hsteps] at hall
    dsimp only at hall
    rw [hcall] at hall
    refine hE err w' true beh _ hdoes hall ?_
    rw [hw']
    exact ⟨hcalled.1, hcalled.2 ▸ List.prefix_refl _, hh.profiler, hh.diagnostic, hh.merged.ge, hh.merged.le.trans (Nat.le_succ _)⟩
  simp only [lwsCall, wp_bind, modifyHost, wp_modify]
  refine getFunction_wp (h.congr rfl rfl rfl) ⟨hp.off, hp.on, hp.hooked⟩ hc hlimit hbefore
    (fun f w₂ cache' hload h₂ hf hh₂ hp₂ => ?_) fun f w₂ hup hglobals hh₂ => ?_
  · refine setEnv_wp h₂ hf he (by omega) ?_
    have hcalled₂ {w' : LuaRealm} (hw' : w'.host = called r chunk env w₂.host) : w'.host = called r chunk env host :=
      hw'.trans (congrArg (called r chunk env) hh₂)
    have hchunk : w₂.host.run.lctx.chunk = chunk := by rw [hh₂]
    have henv : (w₂.setUpvalue f env).upvalue f = env := by simp only [Realm.setUpvalue, Function.update_self]
    refine callChunk_wp hhook (hbody f) (h₂.setEnv hf (envValue_chunkEnv g e n chunk)) ⟨hp₂.off, hp₂.on, hp₂.hooked⟩ hchunk henv
      (by omega) (fun err w' hw' => hbefore err w' (hw'.trans hh₂)) ?_ ?_ ?_
    · intro err err' w' hr hw'
      have hresult : (ChunkBody.behaviour text (r.body chunk)).result = .error := by simp only [ChunkBody.behaviour, hr]
      exact hfailed err' w' hload (hcalled₂ hw') (.inl rfl) rfl (by rw [hresult]; exact lwsCall_error hchunk')
    · intro err w' hw'
      have hdoes : Does text (r.body chunk) { steps := (r.body chunk).steps, result := .error } :=
        .inr ⟨List.prefix_refl _, rfl⟩
      exact hfailed err w' hload (hcalled₂ hw') hdoes rfl (lwsCall_error hchunk')
    · intro results w' hr hw' hcached hprofiling
      have hint : (ChunkBody.behaviour text (r.body chunk)).result.toInt = some (resultOf text (results.headD .nil)) :=
        behaviour_toInt hr
      obtain ⟨hneg, hnonneg⟩ := lwsCall_toInt chunk hchunk' hint
      refine checkResult_wp (fun err w'' hw'' hlt => ?_) fun hge => ?_
      · exact hfailed err w'' hload (hw''.trans (hcalled₂ hw')) (.inl rfl) rfl (hneg hlt)
      · have hall := call_loaded (n := n) hload chunk (ChunkBody.behaviour text (r.body chunk))
        dsimp only at hall
        rw [show (ChunkBody.behaviour text (r.body chunk)).steps = (r.body chunk).steps from rfl, hnonneg hge] at hall
        have hrest := checked_rest chunk (resultOf text (results.headD .nil)) w'.host
        have hprofiler := congrArg LuaHost.profiler hrest
        have hhost := hcalled₂ hw'
        refine hok _ _ _ hall (hcached.congr rfl rfl rfl) ⟨?_, ?_, hprofiling.hooked⟩ ⟨?_, ?_, ?_, ?_, ?_⟩
        · exact fun h0 => hprofiling.off (hprofiler.symm.trans h0)
        · exact fun h0 => hprofiling.on fun h0' => h0 (hprofiler.trans h0')
        · change (checked _ _ w'.host).run = _
          rw [checked_run, hhost, hcalled.1]
          rfl
        · exact (congrArg LuaHost.entered hrest).trans ((congrArg LuaHost.entered hhost).trans hcalled.2)
        · exact hprofiler.trans ((congrArg LuaHost.profiler hhost).trans hh.profiler)
        · exact (congrArg LuaHost.diagnostic hrest).trans ((congrArg LuaHost.diagnostic hhost).trans hh.diagnostic)
        · exact (congrArg LuaHost.merged hrest).trans ((congrArg LuaHost.merged hhost).trans hh.merged)
  · refine setEnv_none_wp hup hglobals he (by omega) fun env => ?_
    exact wp_call [] (.function f :: .string filename :: frame) rfl rfl (by simpa using by omega)
      (wp_invoke_none (htable env) fun err => hbefore err _ hh₂)

end OnStack
end Lws

import Lws.ChunkFlags
/-!
# ChunkResult — what becomes of the integer that a chunk returns

The result of a chunk is a `lua_Integer`, and `lws_call` stores it in an `int`: from there it goes through `lws_run`,
`lws_run_state` and `ctx->rc` to the finalization handler.  It is taken for what it is exactly where it fits in an `int`.
-/
namespace Lws

/-! ## A run that returns -/

section
variable {conf : ChunkConf} {env : RunEnv} {beh : Chunk → Behaviour} {x w : Run} {result : Int}

theorem lwsRun_stages (h : lwsRun conf env beh x = (w, some result)) : ∃ y z,
    runInit conf (beh .init) { x with lctx := {} } = (y, .ok) ∧ runMain conf (beh .pre) (beh .main) y = (z, some result) ∧
      runPost conf (beh .post) z = (w, .ok) := by
  unfold lwsRun at h
  by_cases hsetup : (!env.setup) = true
  · rw [if_pos hsetup] at h
    cases h
  rw [if_neg hsetup] at h
  obtain ⟨y, hinit⟩ : ∃ y, runInit conf (beh .init) { x with lctx := {} } = y := ⟨_, rfl⟩
  obtain ⟨y, o⟩ := y
  cases o with
  | error =>
    rw [hinit] at h
    cases h
  | ok =>
    rw [hinit] at h
    dsimp only at h
    by_cases hpush : (!env.pushEnv) = true
    · rw [if_pos hpush] at h
      cases h
    rw [if_neg hpush] at h
    obtain ⟨z, hmain⟩ : ∃ z, runMain conf (beh .pre) (beh .main) y = z := ⟨_, rfl⟩
    obtain ⟨z, r⟩ := z
    cases r with
    | none =>
      rw [hmain] at h
      cases h
    | some r =>
      rw [hmain] at h
      dsimp only at h
      obtain ⟨w', hpost⟩ : ∃ w', runPost conf (beh .post) z = w' := ⟨_, rfl⟩
      obtain ⟨w', o⟩ := w'
      cases o with
      | error =>
        rw [hpost] at h
        cases h
      | ok =>
        rw [hpost] at h
        dsimp only at h
        by_cases hfinish : (!env.finish) = true
        · rw [if_pos hfinish] at h
          cases h
        rw [if_neg hfinish] at h
        cases h
        exact ⟨y, z, hinit, hmain, hpost⟩

theorem runInit_ok {beh : Behaviour} (h : runInit conf beh x = (w, .ok)) :
    (x.init = true ∧ w = x) ∨ (conf.init = false ∧ w = { x with init := true }) ∨
      ∃ y result, lwsCall .init beh x = (y, some result) ∧ w = { y with init := true } := by
  unfold runInit at h
  by_cases hinit : (!x.init) = true
  · rw [if_pos hinit] at h
    by_cases hconf : conf.init = true
    · rw [if_pos hconf] at h
      obtain ⟨y, hcall⟩ : ∃ y, lwsCall .init beh x = y := ⟨_, rfl⟩
      obtain ⟨y, r⟩ := y
      cases r with
      | none =>
        rw [hcall] at h
        cases h
      | some r =>
        rw [hcall] at h
        cases h
        exact .inr (.inr ⟨y, r, hcall, rfl⟩)
    · rw [if_neg hconf] at h
      cases h
      exact .inr (.inl ⟨Bool.eq_false_of_not_eq_true hconf, rfl⟩)
  · rw [if_neg hinit] at h
    cases h
    exact .inl ⟨by simpa using hinit, rfl⟩

theorem runMain_some {pre main : Behaviour} (h : runMain conf pre main x = (w, some result)) :
    (conf.pre = true ∧ lwsCall .pre pre x = (w, some result) ∧ w.lctx.complete = true) ∨
      ∃ y, lwsCall .main main y = (w, some result) ∧ ((conf.pre = false ∧ y = x) ∨
        (conf.pre = true ∧ y.lctx.complete = false ∧ ∃ r, lwsCall .pre pre x = (y, some r))) := by
  unfold runMain at h
  by_cases hpre : conf.pre = true
  · rw [if_pos hpre] at h
    obtain ⟨y, hcall⟩ : ∃ y, lwsCall .pre pre x = y := ⟨_, rfl⟩
    obtain ⟨y, r⟩ := y
    rw [hcall] at h
    cases r with
    | none => cases h
    | some r =>
      dsimp only at h
      by_cases hcomplete : y.lctx.complete = true
      · rw [if_pos hcomplete] at h
        cases h
        exact .inl ⟨hpre, hcall, hcomplete⟩
      · rw [if_neg hcomplete] at h
        exact .inr ⟨y, h, .inr ⟨hpre, Bool.eq_false_of_not_eq_true hcomplete, r, hcall⟩⟩
  · rw [if_neg hpre] at h
    exact .inr ⟨x, h, .inl ⟨Bool.eq_false_of_not_eq_true hpre, rfl⟩⟩

theorem runPost_ok {beh : Behaviour} (h : runPost conf beh x = (w, .ok)) :
    w = x ∨ ∃ result, lwsCall .post beh x = (w, some result) := by
  unfold runPost at h
  split at h
  · obtain ⟨y, hcall⟩ : ∃ y, lwsCall .post beh x = y := ⟨_, rfl⟩
    obtain ⟨y, r⟩ := y
    cases r with
    | none =>
      rw [hcall] at h
      cases h
    | some r =>
      rw [hcall] at h
      cases h
      exact .inr ⟨r, hcall⟩
  · cases h
    exact .inl rfl

theorem lwsRunState_result (h : 0 ≤ (lwsRunState conf env beh x).ctx.rc) : ∃ w, lwsRun conf env beh x =
    (w, some (lwsRunState conf env beh x).ctx.rc) ∧
      lwsRunState conf env beh x = { w with ctx := { w.ctx with rc := (lwsRunState conf env beh x).ctx.rc } } := by
  unfold lwsRunState at h ⊢
  obtain ⟨y, hrun⟩ : ∃ y, lwsRun conf env beh x = y := ⟨_, rfl⟩
  obtain ⟨y, r⟩ := y
  rw [hrun] at h ⊢
  cases r with
  | none => exact absurd (show (0 : Int) ≤ -1 from h) (by decide)
  | some r => exact ⟨y, rfl, rfl⟩

end

/-! ## The value of a result -/

/-- An integer result is taken for what it is, all the way: a negative one is a Lua error, zero is success, and a positive one
of the pre or main chunk selects the error response, and completes the request where it is that of the pre chunk. -/
structure TakenAsIs (n : Int) : Prop where
  value : (LuaResult.integer n).toInt = some n
  call : ∀ chunk calls x, (lwsCall chunk ⟨calls, .integer n⟩ x).2 = if n < 0 then none else some n
  pre : ∀ conf env beh init close ctx, conf.pre = true → (beh .pre).result = .integer n → 0 < n →
    let run := lwsRunState conf env beh { init := init, close := close, ctx := ctx }
    0 ≤ run.ctx.rc → (∀ ok, (.main, ok) ∉ run.log) ∧ run.ctx.rc = n ∧
      (run.ctx.redirect.len = 0 → respond true run.ctx = .error (errorStatus n))
  main : ∀ conf env beh init close ctx ok, (beh .main).result = .integer n → 0 < n →
    let run := lwsRunState conf env beh { init := init, close := close, ctx := ctx }
    0 ≤ run.ctx.rc → (.main, ok) ∈ run.log → run.ctx.rc = n ∧
      (run.ctx.redirect.len = 0 → respond true run.ctx = .error (errorStatus n))

theorem lwsCall_integer {n : Int} (hfits : (LuaResult.integer n).FitsInt) (chunk : Chunk) {beh : Behaviour}
    (hbeh : beh.result = .integer n) (x : Run) : (lwsCall chunk beh x).2 = if n < 0 then none else some n := by
  have hvalue : beh.result.toInt = some n := by rw [hbeh, LuaResult.toInt, bmod_int hfits.1 hfits.2]
  unfold lwsCall
  rw [hvalue]
  dsimp only
  split <;> rfl

theorem lwsCall_completes {n : Int} (hfits : (LuaResult.integer n).FitsInt) (hpos : 0 < n) {beh : Behaviour}
    (hbeh : beh.result = .integer n) (x : Run) : (lwsCall .pre beh x).1.lctx.complete = true := by
  have hvalue : beh.result.toInt = some n := by rw [hbeh, LuaResult.toInt, bmod_int hfits.1 hfits.2]
  unfold lwsCall
  rw [hvalue]
  dsimp only
  rw [if_neg (by omega), decide_eq_true hpos, decide_eq_true rfl]
  simp

theorem lwsCall_log (chunk : Chunk) (beh : Behaviour) (x : Run) :
    ∃ ok, (lwsCall chunk beh x).1.log = x.log ++ [(chunk, ok)] := by
  obtain ⟨ok, hcalls, -⟩ := lwsCall_calls (fun _ => beh) x chunk
  exact ⟨ok, hcalls.log⟩

theorem respond_positive {ctx : RequestCtx} (hrc : 0 < ctx.rc) (hredirect : ctx.redirect.len = 0) :
    respond true ctx = .error (errorStatus ctx.rc) := by
  rw [respond, if_neg (by omega), if_neg (not_not.2 hredirect), if_neg (by decide), if_pos hrc, errorStatus]
  by_cases hrange : 100 ≤ ctx.rc ∧ ctx.rc < 600
  · rw [if_pos hrange, if_pos (by omega)]
  · rw [if_neg hrange, if_neg (by omega)]

/-- **Whose result a run returns**: that of a pre chunk that completes the request, without the main chunk, or that of the main
chunk, after a pre chunk that does not. -/
theorem lwsRun_decided {conf : ChunkConf} {env : RunEnv} {beh : Chunk → Behaviour} {x w : Run} {result : Int} (hlog : x.log = [])
    (h : lwsRun conf env beh x = (w, some result)) :
    (∃ y z, lwsCall .pre (beh .pre) y = (z, some result) ∧ ∀ ok, (.main, ok) ∉ w.log) ∨
      ∃ y z, lwsCall .main (beh .main) y = (z, some result) ∧
        (conf.pre = true → y.lctx.complete = false ∧ ∃ u r, lwsCall .pre (beh .pre) u = (y, some r)) := by
  obtain ⟨y, z, hinit, hmain, hpost⟩ := lwsRun_stages h
  have hcalled (chunk : Chunk) (hne : chunk ≠ .main) (u : Run) (hu : ∀ ok, (.main, ok) ∉ u.log) :
      ∀ ok, (.main, ok) ∉ (lwsCall chunk (beh chunk) u).1.log := by
    obtain ⟨ok', hl⟩ := lwsCall_log chunk (beh chunk) u
    intro ok hm
    rw [hl] at hm
    rcases List.mem_append.1 hm with hm | hm
    · exact hu ok hm
    · exact hne (congrArg Prod.fst (List.mem_singleton.1 hm)).symm
  have hx : ∀ ok, ((.main : Chunk), ok) ∉ x.log := by simp [hlog]
  have hy : ∀ ok, (.main, ok) ∉ y.log := by
    rcases runInit_ok hinit with ⟨-, rfl⟩ | ⟨-, rfl⟩ | ⟨u, r, hcall, rfl⟩
    · exact hx
    · exact hx
    · have hu := hcalled .init (by simp) { x with lctx := {} } hx
      rw [hcall] at hu
      exact hu
  rcases runMain_some hmain with ⟨-, hz, -⟩ | ⟨u, hz, hu⟩
  · refine .inl ⟨y, z, hz, ?_⟩
    have hzlog := hcalled .pre (by simp) y hy
    rw [hz] at hzlog
    rcases runPost_ok hpost with rfl | ⟨r, hcall⟩
    · exact hzlog
    · have hwlog := hcalled .post (by simp) z hzlog
      rw [hcall] at hwlog
      exact hwlog
  · refine .inr ⟨u, z, hz, fun hpre => ?_⟩
    rcases hu with ⟨hnone, -⟩ | ⟨-, hincomplete, r, hcall⟩
    · rw [hpre] at hnone
      cases hnone
    · exact ⟨hincomplete, y, r, hcall⟩

/-- **A result that fits in an `int` is taken for what it is.** -/
theorem TakenAsIs.of_fits {n : Int} (hfits : (LuaResult.integer n).FitsInt) : TakenAsIs n where
  value := by rw [LuaResult.toInt, bmod_int hfits.1 hfits.2]
  call chunk calls x := lwsCall_integer hfits chunk rfl x
  pre conf env beh init close ctx hpre hbeh hpos := by
    intro run hrc
    obtain ⟨w, hrun, hw⟩ := lwsRunState_result hrc
    have hresult : (∀ ok, (.main, ok) ∉ run.log) ∧ run.ctx.rc = n := by
      rcases lwsRun_decided rfl hrun with ⟨y, z, hcall, hlog⟩ | ⟨y, z, -, hincomplete⟩
      · have hint := lwsCall_integer hfits .pre hbeh y
        rw [hcall, if_neg (by omega)] at hint
        exact ⟨by rw [show run = _ from hw]; exact hlog, Option.some.inj hint⟩
      · obtain ⟨hfalse, u, r, hcall⟩ := hincomplete hpre
        have hcomplete := lwsCall_completes hfits hpos hbeh u
        rw [hcall, hfalse] at hcomplete
        cases hcomplete
    exact ⟨hresult.1, hresult.2, fun hredirect => hresult.2 ▸ respond_positive (hresult.2 ▸ hpos) hredirect⟩
  main conf env beh init close ctx ok hbeh hpos := by
    intro run hrc hlog
    obtain ⟨w, hrun, hw⟩ := lwsRunState_result hrc
    have hresult : run.ctx.rc = n := by
      rcases lwsRun_decided rfl hrun with ⟨y, z, -, hno⟩ | ⟨y, z, hcall, -⟩
      · rw [show run = _ from hw] at hlog
        exact absurd hlog (hno ok)
      · have hint := lwsCall_integer hfits .main hbeh y
        rw [hcall, if_neg (by omega)] at hint
        exact Option.some.inj hint
    exact ⟨hresult, fun hredirect => hresult ▸ respond_positive (hresult ▸ hpos) hredirect⟩

/-- **When a result is taken for what it is**: exactly where it fits in an `int`. -/
theorem result_is_taken_iff (n : Int) : TakenAsIs n ↔ -2 ^ 31 ≤ n ∧ n < 2 ^ 31 := by
  constructor
  · intro h
    have hvalue : n.bmod (2 ^ 32) = n := Option.some.inj h.value
    have hle := @Int.le_bmod n (2 ^ 32) (by decide)
    have hlt := @Int.bmod_lt n (2 ^ 32) (by decide)
    rw [hvalue] at hle hlt
    exact ⟨hle, hlt⟩
  · exact TakenAsIs.of_fits

/-- 2^32 + 404 from the main chunk is taken for 404, 2^32 for success, and -2^32 does not fail. -/
theorem wide_result_is_truncated :
    let run (n : Int) := lwsRunState {} {} (fun chunk => if chunk = .main then ⟨[], .integer n⟩ else {}) {}
    respond true (run 4294967700).ctx = .error 404 ∧ respond true (run 4294967296).ctx = .page 200 ∧
      respond true (run (-4294967296)).ctx = .page 200 ∧ ¬TakenAsIs 4294967296 := by
  refine ⟨by decide, by decide, by decide, fun h => ?_⟩
  exact absurd h.value (by decide)

end Lws

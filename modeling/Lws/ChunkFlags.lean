import Lws.ChunkSequence
/-!
# ChunkFlags — what any run leaves in the flags of its Lua state

Whatever the chunks return and whatever fails, the init chunk is called only on a state that is not initialised, first, and the
state is initialised when it succeeds; a run with an error, or that calls `lws.setclose`, marks its state for closing.
-/
namespace Lws

def NoInit (called : List (Chunk × Bool)) : Prop := ∀ c ∈ called, c.1 ≠ .init

theorem NoInit.append {called called' : List (Chunk × Bool)} (h : NoInit called) (h' : NoInit called') :
    NoInit (called ++ called') := fun c hc => (List.mem_append.1 hc).elim (h c) (h' c)

theorem noInit_nil : NoInit [] := fun _ hc => nomatch hc

theorem noInit_cons {chunk : Chunk} (h : chunk ≠ .init) (ok : Bool) : NoInit [(chunk, ok)] := fun c hc => by
  rw [List.mem_singleton.1 hc]
  exact h

/-- A part of a run appends the chunks it calls to the log, and marks the state for closing if one of them asks for it. -/
structure Calls (beh : Chunk → Behaviour) (x y : Run) (called : List (Chunk × Bool)) : Prop where
  log : y.log = x.log ++ called
  close : y.close = (x.close || closes beh called)
  init : y.init = x.init

section
variable {beh : Chunk → Behaviour} {x y z : Run} {called called' : List (Chunk × Bool)}

theorem Calls.refl (x : Run) : Calls beh x x [] := ⟨by simp, by simp [closes], rfl⟩

theorem Calls.trans (h : Calls beh x y called) (h' : Calls beh y z called') : Calls beh x z (called ++ called') where
  log := by rw [h'.log, h.log, List.append_assoc]
  close := by rw [h'.close, h.close, closes, closes, closes, List.any_append, Bool.or_assoc]
  init := h'.init.trans h.init

theorem foldl_call_flags : ∀ (calls : List ChunkCall) (x : Run), (calls.foldl Run.call x).log = x.log ∧
    (calls.foldl Run.call x).close = (x.close || calls.any ChunkCall.closes) ∧ (calls.foldl Run.call x).init = x.init
  | [], x => ⟨rfl, by simp, rfl⟩
  | c :: calls, x => by
    obtain ⟨hl, hc, hi⟩ := foldl_call_flags calls (x.call c)
    rw [List.foldl_cons, hl, hc, hi, List.any_cons]
    cases c with
    | setclose => exact ⟨rfl, by simp [Run.call, ChunkCall.closes], rfl⟩
    | setcomplete => exact ⟨rfl, rfl, rfl⟩
    | redirect path args memArgs mem => exact ⟨rfl, rfl, rfl⟩

/-- **`lws_call`** logs the chunk with its outcome; a result is not negative. -/
theorem lwsCall_calls (beh : Chunk → Behaviour) (x : Run) (chunk : Chunk) :
    ∃ ok, Calls beh x (lwsCall chunk (beh chunk) x).1 [(chunk, ok)] ∧
    (lwsCall chunk (beh chunk) x).2.isSome = ok ∧ ∀ result, (lwsCall chunk (beh chunk) x).2 = some result → 0 ≤ result := by
  obtain ⟨hl, hc, hi⟩ := foldl_call_flags (beh chunk).calls { x with lctx := { x.lctx with chunk := chunk } }
  unfold lwsCall
  dsimp only
  generalize (beh chunk).calls.foldl Run.call { x with lctx := { x.lctx with chunk := chunk } } = y at hl hc hi
  have hcalls (ok : Bool) : closes beh [(chunk, ok)] = (beh chunk).calls.any ChunkCall.closes := by simp [closes]
  cases (beh chunk).result.toInt with
  | none => exact ⟨false, ⟨by rw [hl], by rw [hcalls]; exact hc, hi⟩, rfl, fun _ hr => by cases hr⟩
  | some result =>
    dsimp only
    by_cases hneg : result < 0
    · rw [if_pos hneg]
      exact ⟨false, ⟨by rw [hl], by rw [hcalls]; exact hc, hi⟩, rfl, fun _ hr => by cases hr⟩
    · rw [if_neg hneg]
      exact ⟨true, ⟨by rw [hl], by rw [hcalls]; exact hc, hi⟩, rfl, fun r hr => by cases hr; omega⟩

theorem runMain_calls (beh : Chunk → Behaviour) (x : Run) (conf : ChunkConf) :
    ∃ called, Calls beh x (runMain conf (beh .pre) (beh .main) x).1 called ∧
    NoInit called ∧ ∀ result, (runMain conf (beh .pre) (beh .main) x).2 = some result → 0 ≤ result := by
  have hmain (x : Run) : ∃ called, Calls beh x (lwsCall .main (beh .main) x).1 called ∧ NoInit called ∧
      ∀ result, (lwsCall .main (beh .main) x).2 = some result → 0 ≤ result := by
    obtain ⟨ok, hc, -, hr⟩ := lwsCall_calls beh x .main
    exact ⟨_, hc, noInit_cons (by simp) ok, hr⟩
  unfold runMain
  by_cases hpre : conf.pre = true
  · rw [if_pos hpre]
    obtain ⟨ok, hc, -, hr⟩ := lwsCall_calls beh x .pre
    have hn : NoInit [(Chunk.pre, ok)] := noInit_cons (by simp) ok
    cases hcall : lwsCall .pre (beh .pre) x with
    | mk y result =>
      rw [hcall] at hc hr
      cases result with
      | none => exact ⟨_, hc, hn, hr⟩
      | some result =>
        dsimp only
        split
        · exact ⟨_, hc, hn, hr⟩
        · obtain ⟨called, hc', hn', hr'⟩ := hmain y
          exact ⟨_, hc.trans hc', hn.append hn', hr'⟩
  · rw [if_neg hpre]
    exact hmain x

theorem runPost_calls (beh : Chunk → Behaviour) (x : Run) (conf : ChunkConf) :
    ∃ called, Calls beh x (runPost conf (beh .post) x).1 called ∧ NoInit called := by
  unfold runPost
  split
  · obtain ⟨ok, hc, -⟩ := lwsCall_calls beh x .post
    cases hcall : lwsCall .post (beh .post) x with
    | mk y result =>
      rw [hcall] at hc
      cases result with
      | none => exact ⟨_, hc, noInit_cons (by simp) ok⟩
      | some result => exact ⟨_, hc, noInit_cons (by simp) ok⟩
  · exact ⟨_, Calls.refl x, noInit_nil⟩

end

/-- The chunks called by a run on a state that is or is not initialised, before and after it. -/
inductive InitCalls (conf : ChunkConf) : Bool → Bool → List (Chunk × Bool) → Prop
  /-- The state is initialised. -/
  | again (called : List (Chunk × Bool)) (h : NoInit called) : InitCalls conf true true called
  /-- The module's own work fails before the init chunk. -/
  | early : InitCalls conf false false []
  | failed (h : conf.init = true) : InitCalls conf false false [(.init, false)]
  | first (called : List (Chunk × Bool)) (h : conf.init = true) (hn : NoInit called) :
      InitCalls conf false true ((.init, true) :: called)
  | none (called : List (Chunk × Bool)) (h : conf.init = false) (hn : NoInit called) : InitCalls conf false true called

theorem InitCalls.append {conf : ChunkConf} {init : Bool} {called called' : List (Chunk × Bool)} (h : InitCalls conf init true called)
    (h' : NoInit called') : InitCalls conf init true (called ++ called') := by
  cases h with
  | again _ h => exact .again _ (h.append h')
  | first called h hn => exact .first _ h (hn.append h')
  | none _ h hn => exact .none _ h (hn.append h')

theorem InitCalls.of_init {conf : ChunkConf} {init' : Bool} {called : List (Chunk × Bool)} (h : InitCalls conf true init' called) :
    init' = true ∧ NoInit called := by
  generalize hi : true = init at h
  cases h with
  | again _ hn => exact ⟨rfl, hn⟩
  | early | failed | first | none => cases hi

theorem NoInit.count {called : List (Chunk × Bool)} (h : NoInit called) (ok : Bool) : called.count (.init, ok) = 0 :=
  List.count_eq_zero.2 fun hm => h _ hm rfl

theorem InitCalls.split {conf : ChunkConf} {init : Bool} {called before after : List (Chunk × Bool)} {k : Chunk} {ok : Bool}
    (h : InitCalls conf false init called) (he : called = before ++ (k, ok) :: after) (hk : k ≠ .init) :
    (conf.init = true → before.count (.init, true) = 1) ∧ NoInit after := by
  have hafter {called : List (Chunk × Bool)} (hn : NoInit called) {before : List (Chunk × Bool)}
      (he : called = before ++ (k, ok) :: after) : NoInit before ∧ NoInit after := by
    rw [he] at hn
    exact ⟨fun c hc => hn c (List.mem_append_left _ hc),
      fun c hc => hn c (List.mem_append_right _ (List.mem_cons_of_mem _ hc))⟩
  cases h with
  | early => simp at he
  | failed h =>
    cases before with
    | nil =>
      cases he
      exact absurd rfl hk
    | cons b before => simp at he
  | first called h hn =>
    cases before with
    | nil =>
      cases he
      exact absurd rfl hk
    | cons b before =>
      obtain ⟨rfl, htail⟩ := List.cons.inj he
      obtain ⟨hb, ha⟩ := hafter hn htail
      exact ⟨fun _ => by rw [List.count_cons_self, hb.count], ha⟩
  | none _ h hn => exact ⟨fun hc => (by rw [h] at hc; cases hc), (hafter hn he).2⟩

theorem InitCalls.once {conf : ChunkConf} {init : Bool} {called : List (Chunk × Bool)} (h : InitCalls conf false init called) :
    (called.filter fun c => c.1 = .init).length ≤ 1 := by
  have hnone {called : List (Chunk × Bool)} (hn : NoInit called) : called.filter (fun c => c.1 = .init) = [] :=
    List.filter_eq_nil_iff.2 fun c hc he => hn c hc (by simpa using he)
  cases h with
  | early => simp
  | failed h => simp
  | first called h hn => rw [List.filter_cons_of_pos (by simp), hnone hn, List.length_singleton]
  | none _ h hn => rw [hnone hn]; exact Nat.zero_le _

theorem runInit_calls (beh : Chunk → Behaviour) (conf : ChunkConf) (x : Run) : ∃ called,
    (runInit conf (beh .init) x).1.log = x.log ++ called ∧
    (runInit conf (beh .init) x).1.close = (x.close || closes beh called) ∧
    InitCalls conf x.init (runInit conf (beh .init) x).1.init called ∧
    ((runInit conf (beh .init) x).2 = .ok ↔ (runInit conf (beh .init) x).1.init = true) := by
  unfold runInit
  by_cases hx : x.init = true
  · rw [if_neg (by simp [hx])]
    exact ⟨[], by simp, by simp [closes], hx ▸ .again [] noInit_nil, by simp [hx]⟩
  · have hx' : x.init = false := by simpa using hx
    rw [if_pos (by simp [hx'])]
    by_cases hconf : conf.init = true
    · rw [if_pos hconf]
      obtain ⟨ok, hc, hok, -⟩ := lwsCall_calls beh x .init
      cases hcall : lwsCall .init (beh .init) x with
      | mk y result =>
        rw [hcall] at hc hok
        cases result with
        | none =>
          cases hok
          have hy : y.init = false := hc.init.trans hx'
          exact ⟨_, hc.log, hc.close, by rw [hx', hy]; exact .failed hconf, by simp [hy]⟩
        | some result =>
          cases hok
          exact ⟨_, hc.log, hc.close, by rw [hx']; exact .first [] hconf noInit_nil, by simp⟩
    · rw [if_neg hconf]
      exact ⟨[], by simp, by simp [closes], by rw [hx']; exact .none [] (by simpa using hconf) noInit_nil, by simp⟩

theorem lwsRun_calls (beh : Chunk → Behaviour) (conf : ChunkConf) (env : RunEnv) (x : Run) : ∃ called,
    (lwsRun conf env beh x).1.log = x.log ++ called ∧
    (lwsRun conf env beh x).1.close = (x.close || closes beh called) ∧
    InitCalls conf x.init (lwsRun conf env beh x).1.init called ∧
    ((lwsRun conf env beh x).1.init = false → (lwsRun conf env beh x).2 = none) ∧
    ∀ result, (lwsRun conf env beh x).2 = some result → 0 ≤ result := by
  unfold lwsRun
  dsimp only
  by_cases hsetup : env.setup = true
  · rw [if_neg (by simp [hsetup])]
    obtain ⟨called, hl, hc, hi, ho⟩ := runInit_calls beh conf { x with lctx := {} }
    cases hinit : runInit conf (beh .init) { x with lctx := {} } with
    | mk y o =>
      rw [hinit] at hl hc hi ho
      cases o with
      | error => exact ⟨called, hl, hc, hi, fun _ => rfl, fun _ h => by cases h⟩
      | ok =>
        have hy : y.init = true := ho.1 rfl
        rw [hy] at hi
        dsimp only at hl hc hi ⊢
        -- whatever is called after the init chunk
        have hrest {z : Run} {called' : List (Chunk × Bool)} (hcalls : Calls beh y z called') (hn : NoInit called') :
            z.log = x.log ++ (called ++ called') ∧ z.close = (x.close || closes beh (called ++ called')) ∧
              InitCalls conf x.init z.init (called ++ called') ∧ z.init = true := by
          have hz : z.init = true := hcalls.init.trans hy
          refine ⟨?_, ?_, hz ▸ hi.append hn, hz⟩
          · rw [hcalls.log, hl, List.append_assoc]
          · rw [hcalls.close, hc, closes, closes, closes, List.any_append, Bool.or_assoc]
        by_cases hpush : env.pushEnv = true
        · rw [if_neg (by simp [hpush])]
          obtain ⟨called₁, hc₁, hn₁, hr₁⟩ := runMain_calls beh y conf
          cases hm : runMain conf (beh .pre) (beh .main) y with
          | mk z result =>
            rw [hm] at hc₁ hr₁
            cases result with
            | none =>
              obtain ⟨h1, h2, h3, -⟩ := hrest hc₁ hn₁
              exact ⟨_, h1, h2, h3, fun _ => rfl, fun _ h => by cases h⟩
            | some result =>
              dsimp only
              obtain ⟨called₂, hc₂, hn₂⟩ := runPost_calls beh z conf
              cases hp : runPost conf (beh .post) z with
              | mk z' o =>
                rw [hp] at hc₂
                obtain ⟨h1, h2, h3, h4⟩ := hrest (hc₁.trans hc₂) (hn₁.append hn₂)
                cases o with
                | error => exact ⟨_, h1, h2, h3, fun _ => rfl, fun _ h => by cases h⟩
                | ok =>
                  dsimp only
                  split
                  · exact ⟨_, h1, h2, h3, fun _ => rfl, fun _ h => by cases h⟩
                  · exact ⟨_, h1, h2, h3, fun hz => absurd h4 (by simpa using hz), hr₁⟩
        · rw [if_pos (by simp [hpush])]
          obtain ⟨h1, h2, h3, -⟩ := hrest (Calls.refl y) noInit_nil
          exact ⟨_, h1, h2, h3, fun _ => rfl, fun _ h => by cases h⟩
  · rw [if_pos (by simp [hsetup])]
    refine ⟨[], by simp, by simp [closes], ?_, fun _ => rfl, fun _ h => by cases h⟩
    dsimp only
    cases x.init with
    | true => exact .again [] noInit_nil
    | false => exact .early

/-- **A run of `lws_run_state`**: what it calls, and that its state is to be closed when it was before, ends in an error, or is
asked to. -/
theorem lwsRunState_calls (beh : Chunk → Behaviour) (conf : ChunkConf) (env : RunEnv) (init close : Bool) :
    let run := lwsRunState conf env beh { init := init, close := close }
    InitCalls conf init run.init run.log ∧ run.close = (close || decide (run.ctx.rc < 0) || closes beh run.log) ∧
      (run.init = false → run.close = true) := by
  obtain ⟨called, hl, hc, hi, hnone, hr⟩ := lwsRun_calls beh conf env { init := init, close := close }
  unfold lwsRunState
  cases hrun : lwsRun conf env beh { init := init, close := close } with
  | mk x result =>
    rw [hrun] at hl hc hi hnone hr
    dsimp only [List.nil_append] at hl hc hi hnone
    cases result with
    | none => exact ⟨hl ▸ hi, by simp, fun _ => rfl⟩
    | some result =>
      have hpos : ¬ result < 0 := Int.not_lt.2 (hr result rfl)
      refine ⟨hl ▸ hi, ?_, fun hx => nomatch hnone hx⟩
      dsimp only
      rw [hc, hl]
      simp [hpos]

end Lws

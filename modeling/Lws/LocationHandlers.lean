import Lws.LocationMoves
/-!
# LocationHandlers — the handlers are sequences of moves

On a location whose states are owned as `Own` says, every handler runs to its end, never touches a freed state, and does what
some moves do.  An invariant that every move keeps therefore holds after every run (`Reachable.inv`).
-/
namespace Lws

variable {w : Nat} {c : LocConf w} {I : Prop}

abbrev Moves (c : LocConf w) (I : Prop) : World w → World w → Prop := Relation.ReflTransGen (LocMove c I)

theorem Own.moves {x x' : World w} (h : Own x.loc) (hm : Moves c I x x') : Own x'.loc := by
  induction hm with
  | refl => exact h
  | tail _ hm ih => exact ih.move hm

structure Quiet (l l' : Loc w) : Prop where
  requests : l'.requests = l.requests
  qev : l'.qev = l.qev
  arrived : l'.arrived = l.arrived

theorem Quiet.refl (l : Loc w) : Quiet l l := ⟨rfl, rfl, rfl⟩

theorem Quiet.trans {l l' l'' : Loc w} (h : Quiet l l') (h' : Quiet l' l'') : Quiet l l'' :=
  ⟨h'.requests.trans h.requests, h'.qev.trans h.qev, h'.arrived.trans h.arrived⟩

/-! ## `lws_state.c` -/

section
variable {x : World w}

theorem closeState_eq (now : BitVec w) {p : Nat} {state : LuaState w} {x : World w}
    (h : p ∈ x.loc.timers ↔ state.tev.timerSet = true) : closeState now p state x =
      { loc := { x.loc with
          timers := x.loc.timers.erase p
          statesN := x.loc.statesN - 1
          heap := Function.update x.loc.heap p none
          trace := .closed p (x.loc.running p) :: x.loc.trace }
        monitor := x.monitor.map fun m => { m with
          statesN := m.statesN - 1, memoryUsed := m.memoryUsed - state.memoryMonitor } } := by
  obtain ⟨key, he⟩ := setStateTimer_eq now { state with timeMax := timerInfinite w, timeout := timerInfinite w } h
  have hfin : LuaState.finite { state with timeMax := timerInfinite w, timeout := timerInfinite w } = false := by
    simp [LuaState.finite]
  unfold closeState
  dsimp only at he hfin ⊢
  rw [he, hfin]
  dsimp only
  congr 1
  congr 1
  funext m
  rw [show (0 : BitVec w) - state.memoryMonitor = -state.memoryMonitor from BitVec.zero_sub _, ← BitVec.sub_eq_add_neg]

theorem Own.rearmed (h : Own x.loc) {p : Nat} {state state' : LuaState w} (hp : x.loc.heap p = some state)
    (htd : state.tev.timedout = false) (htev : state'.tev = state.tev) (hfin : state'.finite = state.finite) :
    Rearmed p state' x.loc.timers x.loc.timers := by
  have harm := h.armed p state hp htd
  refine ⟨h.timersNodup, fun q => ?_, by rw [htev, hfin, harm]⟩
  by_cases hq : q = p
  · subst hq
    rw [h.timer_iff hp, harm, hfin]
    simp
  · simp [hq]

/-- **`lws_create_state`** creates no state, or fails in `lws_init` and closes it, or creates one with no history. -/
theorem createState_cases (h : Own x.loc) (a : Attempt w) :
    createState c a x = (x, none) ∨
    a.create = .init ∧ createState c a x =
      ({ loc := { x.loc with
          next := x.loc.next + 1
          statesN := x.loc.statesN - 1
          trace := .closed x.loc.next false :: .initFailed :: x.loc.trace }
         monitor := x.monitor.map fun m => { m with statesN := m.statesN - 1 } }, none) ∨
    x.loc.places.length + 1 < 2 ^ w ∧ ∃ state : LuaState w, ∃ timers,
      state.init = false ∧ state.close = false ∧ state.tev.timedout = false ∧ state.requestCount = 0 ∧
        state.memoryMonitor = 0 ∧ Rearmed x.loc.next state x.loc.timers timers ∧
      createState c a x =
        ({ loc := { x.loc with
            heap := Function.update x.loc.heap x.loc.next (some state)
            next := x.loc.next + 1
            statesN := x.loc.statesN + 1
            timers := timers
            trace := .created x.loc.next :: x.loc.trace }
           monitor := x.monitor.map fun m => { m with statesN := m.statesN + 1 } }, some x.loc.next) := by
  have hnt : x.loc.next ∉ x.loc.timers := h.next_timers
  unfold createState
  dsimp only
  by_cases h1 : a.create = .calloc ∨ 2 ^ w ≤ x.loc.places.length + 1
  · exact .inl (if_pos h1)
  rw [if_neg h1]
  by_cases h2 : a.create = .newstate
  · exact .inl (if_pos h2)
  rw [if_neg h2]
  by_cases h3 : a.create = .init
  · refine .inr (.inl ⟨h3, ?_⟩)
    have hrun : x.loc.running x.loc.next = false :=
      not_running (fun hm => h.next_places (List.mem_append_right _ hm))
    rw [if_pos h3, closeState_eq a.now (by simp [Loc.note, hnt])]
    have hheap : Function.update (Function.update x.loc.heap x.loc.next
        (some ({ memoryUsed := a.memory } : LuaState w))) x.loc.next none = x.loc.heap := by
      rw [Function.update_idem, ← h.next_heap, Function.update_eq_self]
    have herase : x.loc.timers.erase x.loc.next = x.loc.timers := List.erase_of_not_mem hnt
    have hzero (b : BitVec w) : b - 0 = b := BitVec.sub_zero b
    simp only [Loc.running] at hrun
    simp only [Loc.note, Loc.running, hheap, herase, hrun, hzero]
  · rw [if_neg h3]
    obtain ⟨hre, key, hs⟩ := setStateTimer_rearmed a.now (p := x.loc.next)
      { memoryUsed := a.memory, timeMax := if c.stateTimeMax ≠ 0 then a.now + c.stateTimeMax else timerInfinite w,
        timeout := timerInfinite w } h.timersNodup (by simp [hnt])
    refine .inr (.inr ⟨by omega, _, _, ?_, ?_, ?_, ?_, ?_, hre, by rw [Function.update_idem]⟩) <;> rw [hs]

theorem Own.retimed (h : Own x.loc) {p : Nat} {state : LuaState w} (mid : LuaState w) (hp : x.loc.heap p = some state)
    (htd : state.tev.timedout = false) (htev : mid.tev = state.tev) (hfin : mid.finite = state.finite)
    (now timeout : BitVec w) : ∃ timeout' tev timers,
      (if c.stateTimeout > 0 then setStateTimer now p { mid with timeout := timeout } x.loc.timers
        else (mid, x.loc.timers)) = ({ mid with timeout := timeout', tev := tev }, timers) ∧
      tev.timedout = false ∧ Rearmed p { mid with timeout := timeout', tev := tev } x.loc.timers timers := by
  by_cases hto : c.stateTimeout > 0
  · rw [if_pos hto]
    have htimer : p ∈ x.loc.timers ↔ ({ mid with timeout := timeout } : LuaState w).tev.timerSet = true := by
      rw [show ({ mid with timeout := timeout } : LuaState w).tev = state.tev from htev]
      exact h.timer_iff hp
    obtain ⟨hre, key, hs⟩ := setStateTimer_rearmed now { mid with timeout := timeout } h.timersNodup htimer
    refine ⟨timeout, _, _, Prod.ext hs rfl, ?_, hs ▸ hre⟩
    rw [← htd, ← htev]
  · rw [if_neg hto]
    exact ⟨mid.timeout, mid.tev, x.loc.timers, rfl, by rw [htev, htd], h.rearmed hp htd htev hfin⟩

/-- **`lws_acquire_state`** hands out an idle state or a new one, or none when it cannot create one. -/
theorem acquireState_moves (h : Own x.loc) (hadm : x.loc.admits c = true) {r : Nat} (hr : Loose x.loc r) (a : Attempt w)
    (hi : a.create = .init → I) :
    ∃ x' o, acquireState c r a x = some (x', o) ∧ Moves c I x x' ∧ Quiet x.loc x'.loc ∧
      ∀ p, o = some p → ∃ t ∈ x'.loc.tasks, t.request = r ∧ t.phase = .unposted := by
  unfold acquireState
  cases hst : x.loc.states with
  | cons p states =>
    obtain ⟨state, hp⟩ := h.get (p := p) (List.mem_append_left _ (by rw [hst]; exact List.mem_cons_self))
    have hidle := h.idle p (by rw [hst]; exact List.mem_cons_self) state hp
    simp only [hp]
    obtain ⟨timeout, tev, timers, he, htd, hre⟩ := h.retimed (c := c) state hp hidle.2 rfl rfl a.now (timerInfinite w)
    rw [he]
    have hm := LocMove.reuse (c := c) (I := I) x r p states state { state with timeout := timeout, tev := tev, inUse := true } timers
      hst hp hr ⟨rfl, rfl, htd.trans hidle.2.symm⟩ rfl rfl rfl ⟨hre.nodup, hre.mem, hre.timerSet⟩
    exact ⟨_, _, rfl, .single hm, ⟨rfl, rfl, rfl⟩, fun q _ => ⟨_, List.mem_cons_self, rfl, rfl⟩⟩
  | nil =>
    rcases createState_cases (c := c) h a with he | ⟨hinit, he⟩ | ⟨hroom, state, timers, h1, h2, h3, h4, h5, hre, he⟩
    · rw [he]
      exact ⟨x, none, rfl, .refl, Quiet.refl _, fun p hp => by cases hp⟩
    · rw [he]
      exact ⟨_, none, rfl, .single (.initFailed x (hi hinit) hst hadm), ⟨rfl, rfl, rfl⟩, fun p hp => by cases hp⟩
    · rw [he]
      dsimp only
      rw [Function.update_self]
      have hm := LocMove.create (c := c) (I := I) x r { state with inUse := true } timers hst hadm hroom hr ⟨h1, h2, h3, h4, h5, rfl⟩
        ⟨hre.nodup, hre.mem, hre.timerSet⟩
      refine ⟨_, _, rfl, ?_, ⟨rfl, rfl, rfl⟩, fun q _ => ⟨_, List.mem_cons_self, rfl, rfl⟩⟩
      simp only [attach, Function.update_idem]
      exact .single hm

/-- **`lws_release_state`** closes the state of a request or makes it idle. -/
theorem releaseState_moves (h : Own x.loc) {t : Task} (ht : t ∈ x.loc.tasks) (hph : t.phase ≠ .posted) (e : Release w) :
    ∃ x', releaseState c t.request e x = some x' ∧ LocMove c I x x' ∧ Quiet x.loc x'.loc ∧
      x'.loc.tasks = x.loc.tasks.filter (fun t' => t'.request ≠ t.request) := by
  obtain ⟨state, hp⟩ := h.get (List.mem_append_right _ (List.mem_map_of_mem ht))
  have hrun : x.loc.running t.state = false := by
    rw [Bool.eq_false_iff]
    exact fun hr => hph ((h.running_iff ht).1 hr)
  have htimer := h.timer_iff hp
  simp only [Loc.running] at hrun
  unfold releaseState
  rw [h.find_task ht]
  dsimp only
  rw [hp]
  dsimp only
  by_cases hc : state.close ∨ state.tev.timedout ∨
      (c.stateRequestsMax > 0 ∧ state.requestCount + 1 ≥ c.stateRequestsMax)
  · rw [if_pos hc, closeState_eq e.now (by exact htimer)]
    have hm := LocMove.giveUp (c := c) (I := I) x t state ht hph hp
    refine ⟨_, rfl, ?_, ⟨rfl, rfl, rfl⟩, rfl⟩
    simp only [Loc.note, Loc.running, hrun, Option.map_map]
    exact hm
  · rw [if_neg hc]
    have hclose : state.close = false ∧ state.tev.timedout = false ∧
        (c.stateRequestsMax > 0 → state.requestCount + 1 < c.stateRequestsMax) := by
      simpa using hc
    generalize releaseMemory c _ e _ = used
    generalize hmid : (if Option.isSome _ = true then _ else _ : LuaState w) = mid
    have hmid' : mid.init = state.init ∧ mid.close = state.close ∧ mid.requestCount = state.requestCount + 1 ∧
        mid.tev = state.tev ∧ mid.finite = state.finite := by
      rw [← hmid]
      split <;> exact ⟨rfl, rfl, rfl, rfl, rfl⟩
    obtain ⟨hinit, hcl, hcount, htev, hfin⟩ := hmid'
    obtain ⟨timeout, tev, timers, he, htd, hre⟩ := h.retimed (c := c) mid hp hclose.2.1 htev hfin e.now (e.now + c.stateTimeout)
    have hm := LocMove.giveBack (c := c) (I := I) x t state { mid with timeout := timeout, tev := tev, inUse := false }
      timers ht hph hp
      ⟨hinit, hcl, htd.trans hclose.2.1.symm⟩ hcount ⟨hcl.trans hclose.1, htd, fun hpos => hcount ▸ hclose.2.2 hpos⟩
      (fun hmon => by rw [← hmid, hmon]; rfl) rfl ⟨hre.nodup, hre.mem, hre.timerSet⟩
    simp only [Loc.note, he]
    refine ⟨_, rfl, ?_, ⟨rfl, rfl, rfl⟩, rfl⟩
    cases hmon : x.monitor with
    | none =>
      rw [hmon] at hm
      exact hm
    | some m =>
      rw [hmon] at hm hmid
      have hmem : mid.memoryMonitor = used := by rw [← hmid]; rfl
      simp only [Option.map_some, hmem] at hm ⊢
      exact hm

/-- **`lws_state_timer_handler`** closes an idle state, and leaves one in use to its request. -/
theorem stateTimerHandler_moves (h : Own x.loc) {p : Nat} (hp : p ∈ x.loc.timers) (now : BitVec w) :
    ∃ x', stateTimerHandler p now x = some x' ∧ LocMove c I x x' ∧ Quiet x.loc x'.loc ∧
      (x.loc.states = [] → x'.loc.states = x.loc.states ∧ x'.loc.statesN = x.loc.statesN) := by
  obtain ⟨state, hs, hset⟩ := (h.timer p).1 hp
  unfold stateTimerHandler
  rw [hs]
  dsimp only
  by_cases huse : state.inUse = true
  · rw [if_neg (by simp [huse])]
    exact ⟨_, rfl, .expireBusy x p state hs huse, ⟨rfl, rfl, rfl⟩, fun _ => ⟨rfl, rfl⟩⟩
  · have hst : p ∈ x.loc.states := by
      rcases List.mem_append.1 (h.mem_places hs) with hm | hm
      · exact hm
      · obtain ⟨t, ht, rfl⟩ := List.mem_map.1 hm
        exact absurd (h.busy t ht state hs) huse
    have hrun : x.loc.running p = false := not_running (h.idle_not_task hst)
    have herase : p ∉ x.loc.timers.erase p := fun hm => (h.timersNodup.mem_erase_iff.1 hm).1 rfl
    simp only [Loc.running] at hrun
    rw [if_pos (by simp [huse]), if_pos hst, closeState_eq now (by simp [herase])]
    have hm := LocMove.expireIdle (c := c) (I := I) x p state hst hs
    refine ⟨_, rfl, ?_, ⟨rfl, rfl, rfl⟩, fun hnil => by rw [hnil] at hst; cases hst⟩
    simp only [Loc.running, hrun, Function.update_idem, List.erase_of_not_mem herase]
    exact hm

theorem cleanupLoop_moves (now : BitVec w) : ∀ fuel (x : World w), Own x.loc → x.loc.states.length ≤ fuel →
    ∃ x', cleanupLoop now fuel x = some x' ∧ Moves c I x x' ∧ Quiet x.loc x'.loc ∧
      (x.loc.states = [] → x' = x)
  | 0, x, _, _ => ⟨x, rfl, .refl, Quiet.refl _, fun _ => rfl⟩
  | fuel + 1, x, h, hf => by
    unfold cleanupLoop
    cases hst : x.loc.states with
    | nil => exact ⟨x, rfl, .refl, Quiet.refl _, fun _ => rfl⟩
    | cons p states =>
      have hmem : p ∈ x.loc.states := by rw [hst]; exact List.mem_cons_self
      obtain ⟨state, hp⟩ := h.get (p := p) (List.mem_append_left _ hmem)
      have hrun : x.loc.running p = false := not_running (h.idle_not_task hmem)
      have hm := LocMove.cleanup (c := c) (I := I) x p states state hst hp
      have htimer := h.timer_iff hp
      simp only [Loc.running] at hrun
      simp only [hp]
      rw [closeState_eq now (by exact htimer)]
      simp only [Loc.running, hrun]
      obtain ⟨x', he, hms, hq, -⟩ := cleanupLoop_moves now fuel _ (h.move hm)
        (by rw [hst] at hf; exact Nat.le_of_succ_le_succ hf)
      exact ⟨x', he, .head hm hms, ⟨hq.requests, hq.qev, hq.arrived⟩, fun hnil => by cases hnil⟩

/-! ## `lws_module.c` -/

theorem stateHandler_moves (h : Own x.loc) (hadm : x.loc.admits c = true) {r : Nat} (hr : Loose x.loc r) (a : Attempt w)
    (hi : a.create = .init → I) :
    ∃ x', stateHandler c r a x = some x' ∧ Moves c I x x' ∧ Quiet x.loc x'.loc := by
  obtain ⟨x₁, o, he, hm, hq, hpost⟩ := acquireState_moves h hadm hr a hi
  unfold stateHandler
  rw [he]
  cases o with
  | none => exact ⟨_, rfl, hm.tail (.finalize x₁ r 500 (hq.arrived ▸ hr.arrived)), hq.trans ⟨rfl, rfl, rfl⟩⟩
  | some p =>
    obtain ⟨t, ht, rfl, hph⟩ := hpost p rfl
    -- the task cannot be allocated or posted, and the state goes back unused
    have hback : ∃ x', (releaseState c t.request a.release x₁).map (fun x => x.finalize t.request 500) = some x' ∧
        Moves c I x x' ∧ Quiet x.loc x'.loc := by
      obtain ⟨x₂, he₂, hm₂, hq₂, -⟩ := releaseState_moves (c := c) (h.moves hm) ht (by rw [hph]; simp) a.release
      rw [he₂]
      exact ⟨_, rfl, (hm.tail hm₂).tail (.finalize x₂ t.request 500 ((hq.trans hq₂).arrived ▸ hr.arrived)),
        (hq.trans hq₂).trans ⟨rfl, rfl, rfl⟩⟩
    dsimp only
    split
    · exact hback
    · split
      · exact hback
      · exact ⟨_, rfl, hm.tail (.post x₁ t ht hph), hq.trans ⟨rfl, rfl, rfl⟩⟩

/-- **No wake-up is lost**: a request that waits while the location would admit it has the event of the queue coming. -/
def Wake (c : LocConf w) (l : Loc w) : Prop := l.requests ≠ [] → l.admits c = true → l.qev = true

theorem Wake.quiet {l l' : Loc w} (h : Wake c l) (hq : Quiet l l') (hadm : l.requests ≠ [] → l'.admits c = true → l.admits c = true) :
    Wake c l' := fun hne ha => by
  rw [hq.requests] at hne
  rw [hq.qev]
  exact h hne (hadm hne ha)

theorem bodyHandler_moves (h : Own x.loc) (hroom : x.loc.requests.length + 1 < 2 ^ w) (opened : Bool) (a : Attempt w)
    (hi : a.create = .init → I) :
    ∃ x', bodyHandler c opened a x = some x' ∧ Moves c I x x' ∧ (Wake c x.loc → Wake c x'.loc) := by
  have hm := LocMove.arrive (c := c) (I := I) x
  have hnew {r : Nat} (hr : r ∈ x.loc.requests ++ x.loc.tasks.map Task.request) : r ≠ x.loc.arrived :=
    Nat.ne_of_lt (h.arrived r hr)
  have hpast : ∀ a ∈ x.loc.trace, a.request ≠ some x.loc.arrived := fun a ha hr =>
    Nat.lt_irrefl _ (h.past a ha _ hr)
  have hr : Loose { x.loc with arrived := x.loc.arrived + 1 } x.loc.arrived :=
    ⟨Nat.lt_succ_self _, fun hm => hnew (List.mem_append_left _ hm) rfl, fun hm => hnew (List.mem_append_right _ hm) rfl,
      fun p hm => hpast _ hm rfl⟩
  unfold bodyHandler
  dsimp only
  by_cases hopen : opened = true
  · rw [if_neg (by simp [hopen])]
    by_cases hadm : x.loc.admits c = true
    · have hadm' : Loc.admits c { x.loc with arrived := x.loc.arrived + 1 } = true := hadm
      rw [if_pos hadm']
      obtain ⟨x', he, hms, hq⟩ := stateHandler_moves (x := { x with loc := { x.loc with arrived := x.loc.arrived + 1 } })
        (h.move hm) hadm' hr a hi
      refine ⟨x', he, .head hm hms, fun hw => ?_⟩
      have hw' : Wake c { x.loc with arrived := x.loc.arrived + 1 } := hw
      exact hw'.quiet hq (fun _ _ => hadm)
    · have hadm' : ¬ Loc.admits c { x.loc with arrived := x.loc.arrived + 1 } = true := hadm
      rw [if_neg hadm']
      by_cases hmax : c.requestsMax = 0 ∨ x.loc.requestsN < c.requestsMax
      · rw [if_pos hmax]
        exact ⟨_, rfl, .head hm (.single (.queue { x with loc := { x.loc with arrived := x.loc.arrived + 1 } } _ hr hpast hroom hmax)),
          fun _ _ ha => absurd ha hadm⟩
      · rw [if_neg hmax]
        exact ⟨_, rfl, .head hm (.single (.finalize _ _ _ (Nat.lt_succ_self _))), fun hw => hw⟩
  · rw [if_pos (by simp [hopen])]
    exact ⟨_, rfl, .head hm (.single (.finalize _ _ _ (Nat.lt_succ_self _))), fun hw => hw⟩

theorem drainLoop_moves (attempts : Nat → Attempt w) (hi : ∀ n, (attempts n).create = .init → I) :
    ∀ fuel (x : World w), Own x.loc → x.loc.requests.length ≤ fuel →
    ∃ x', drainLoop c attempts fuel x = some x' ∧ Moves c I x x' ∧ (x'.loc.requests = [] ∨ x'.loc.admits c = false)
  | 0, x, _, hf => ⟨x, rfl, .refl, .inl (List.length_eq_zero_iff.1 (Nat.le_zero.1 hf))⟩
  | fuel + 1, x, h, hf => by
    unfold drainLoop
    cases hreq : x.loc.requests with
    | nil => exact ⟨x, rfl, .refl, .inl hreq⟩
    | cons r requests =>
      dsimp only
      by_cases hadm : x.loc.admits c = true
      · rw [if_pos hadm]
        have hm := LocMove.dequeue (c := c) (I := I) x r requests hreq
        have hids := h.ids
        have harr := h.arrived
        rw [hreq] at hids harr hf
        have hnot := (List.nodup_cons.1 hids).1
        have hserved (p : Nat) (hm : .released r p ∈ x.loc.trace) : False :=
          h.served r p hm (by rw [hreq]; exact List.mem_cons_self)
        have hr : Loose { x.loc with
            requestsN := x.loc.requestsN - 1, requests := requests, trace := .dequeued r :: x.loc.trace } r :=
          ⟨harr r List.mem_cons_self, fun hm => hnot (List.mem_append_left _ hm), fun hm => hnot (List.mem_append_right _ hm),
            fun p hm => hserved p ((List.mem_cons.1 hm).resolve_left (by simp))⟩
        obtain ⟨x₁, he, hms, hq⟩ := stateHandler_moves (h.move hm) hadm hr (attempts fuel) (hi fuel)
        rw [he]
        obtain ⟨x', he', hms', hend⟩ := drainLoop_moves attempts hi fuel x₁ ((h.move hm).moves hms)
          (by rw [hq.requests]; exact Nat.le_of_succ_le_succ hf)
        exact ⟨x', he', (Relation.ReflTransGen.head hm hms).trans hms', hend⟩
      · rw [if_neg hadm]
        exact ⟨x, rfl, .refl, .inr (Bool.eq_false_iff.2 hadm)⟩

theorem queueHandler_moves (h : Own x.loc) (attempts : Nat → Attempt w) (hi : ∀ n, (attempts n).create = .init → I) :
    ∃ x', queueHandler c attempts x = some x' ∧ Moves c I x x' ∧ Wake c x'.loc := by
  have hm := LocMove.setQev (c := c) (I := I) x false
  obtain ⟨x', he, hms, hend⟩ := drainLoop_moves attempts hi x.loc.requests.length _ (h.move hm) (le_refl _)
  refine ⟨x', he, .head hm hms, fun hne ha => ?_⟩
  rcases hend with hnil | hadm
  · exact absurd hnil hne
  · rw [hadm] at ha
    cases ha

theorem threadHandler_moves (h : Own x.loc) {t : Task} (ht : t ∈ x.loc.tasks) (hph : t.phase = .posted) (env : RunEnv)
    (beh : Chunk → Behaviour) (memory : BitVec w) : ∃ x', threadHandler c t.request env beh memory x = some x' ∧
      LocMove c I x x' ∧ (Wake c x.loc → Wake c x'.loc) := by
  obtain ⟨state, hp⟩ := h.get (List.mem_append_right _ (List.mem_map_of_mem ht))
  unfold threadHandler
  rw [h.find_task ht]
  dsimp only
  rw [hp]
  exact ⟨_, rfl, .run x t state _ _ _ _ ht hph hp ⟨⟨env, beh, rfl, rfl, rfl, rfl, rfl⟩, rfl, rfl, rfl, rfl, rfl, rfl⟩, fun hw => hw⟩

theorem finalizationHandler_moves (h : Own x.loc) {t : Task} (ht : t ∈ x.loc.tasks) (hph : t.phase = .done) (e : Release w) :
    ∃ x', finalizationHandler c t.request e x = some x' ∧ Moves c I x x' ∧ Wake c x'.loc := by
  obtain ⟨x₁, he, hm, hq, -⟩ := releaseState_moves (c := c) h ht (by rw [hph]; simp) e
  unfold finalizationHandler
  rw [he]
  dsimp only
  split
  · exact ⟨_, rfl, .tail (.single hm) (.setQev x₁ true), fun _ _ => rfl⟩
  · rename_i hqev
    refine ⟨x₁, rfl, .single hm, fun hne _ => ?_⟩
    by_contra hfalse
    exact hqev (by simp [hne, hfalse])

end

/-! ## Runs -/

/-- **Every event that can happen is handled to its end**, by moves that keep the ownership, and loses no wake-up. -/
theorem handle_moves {x : World w} (h : Own x.loc) {e : Event w} (he : Enabled x.loc e)
    (hi : e.failsInit → I) :
    ∃ x', handle c x e = some x' ∧ Moves c I x x' ∧ (Wake c x.loc → Wake c x'.loc) := by
  cases e with
  | body opened a => exact bodyHandler_moves h he opened a hi
  | thread request env beh memory =>
    obtain ⟨t, ht, rfl, hph⟩ := he
    obtain ⟨x', hx, hm, hw⟩ := threadHandler_moves h ht hph env beh memory
    exact ⟨x', hx, .single hm, hw⟩
  | finalization request e =>
    obtain ⟨t, ht, rfl, hph⟩ := he
    obtain ⟨x', hx, hm, hw⟩ := finalizationHandler_moves (c := c) h ht hph e
    exact ⟨x', hx, hm, fun _ => hw⟩
  | queue attempts =>
    obtain ⟨x', hx, hm, hw⟩ := queueHandler_moves (c := c) h attempts fun n hn => hi ⟨n, hn⟩
    exact ⟨x', hx, hm, fun _ => hw⟩
  | stateTimer p now =>
    obtain ⟨x', hx, hm, hq, hsame⟩ := stateTimerHandler_moves (c := c) h he now
    refine ⟨x', hx, .single hm, fun hw => hw.quiet hq fun _ ha => ?_⟩
    cases hst : x.loc.states with
    | nil =>
      obtain ⟨hs, hn⟩ := hsame hst
      rwa [Loc.admits, hs, hn] at ha
    | cons q states => simp [Loc.admits, hst]
  | cleanup now =>
    obtain ⟨x', hx, hm, hq, hsame⟩ := cleanupLoop_moves (c := c) now x.loc.states.length x h (le_refl _)
    refine ⟨x', hx, hm, fun hw => hw.quiet hq fun _ ha => ?_⟩
    cases hst : x.loc.states with
    | nil => rwa [hsame hst] at ha
    | cons q states => simp [Loc.admits, hst]

section
variable {ok : Event w → Prop} {x : World w}

theorem Step.moves {x' : World w} (h : Own x.loc) (hs : Step c ok x x') (hok : ∀ e, ok e → e.failsInit → I) :
    Moves c I x x' ∧ (Wake c x.loc → Wake c x'.loc) := by
  obtain ⟨e, hoke, he, hx⟩ := hs
  obtain ⟨x₁, hx₁, hm, hw⟩ := handle_moves (c := c) h he (hok e hoke)
  rw [hx] at hx₁
  cases hx₁
  exact ⟨hm, hw⟩

theorem Own.invariant {P : World w → Prop} (hmove : ∀ x x', Own x.loc → P x → LocMove c I x x' → P x') (ho : Own x.loc)
    (hp : P x) {x' : World w} (hms : Moves c I x x') : P x' := by
  induction hms with
  | refl => exact hp
  | tail hms hm ih => exact hmove _ _ (ho.moves hms) ih hm

theorem ReachableBy.invariant {P : World w → Prop} (h : ReachableBy c ok x) (hok : ∀ e, ok e → e.failsInit → I)
    (hinit : ∀ monitor, P { monitor := monitor }) (hmove : ∀ x x', Own x.loc → P x → LocMove c I x x' → P x') :
    Own x.loc ∧ P x := by
  obtain ⟨monitored, hs⟩ := h
  induction hs with
  | refl => exact ⟨own_empty, hinit _⟩
  | tail _ hs ih =>
    have hms := (hs.moves ih.1 hok).1
    exact ⟨ih.1.moves hms, ih.1.invariant hmove ih.2 hms⟩

theorem ReachableBy.own (h : ReachableBy c ok x) : Own x.loc :=
  (h.invariant (I := True) (P := fun _ => True) (fun _ _ _ => trivial) (fun _ => trivial) fun _ _ _ _ _ => trivial).1

theorem ReachableBy.wake (h : ReachableBy c ok x) : Wake c x.loc := by
  obtain ⟨monitored, hs⟩ := h
  induction hs with
  | refl => exact fun hne => absurd rfl hne
  | tail hms hs ih => exact (hs.moves (I := True) (ReachableBy.own ⟨monitored, hms⟩) fun _ _ _ => trivial).2 ih

end

/-! ## Runs of given events -/

instance (l : Loc w) (e : Event w) : Decidable (Enabled l e) :=
  match e with
  | .body _ _ => inferInstanceAs (Decidable (_ < _))
  | .thread _ _ _ _ => inferInstanceAs (Decidable (∃ t ∈ l.tasks, _ ∧ _))
  | .finalization _ _ => inferInstanceAs (Decidable (∃ t ∈ l.tasks, _ ∧ _))
  | .queue _ => inferInstanceAs (Decidable (_ = _))
  | .stateTimer _ _ => inferInstanceAs (Decidable (_ ∈ _))
  | .cleanup _ => inferInstanceAs (Decidable True)

theorem reachable_empty {ok : Event w → Prop} : ReachableBy c ok {} := ⟨false, .refl⟩

def execute (c : LocConf w) : List (Event w) → World w → World w
  | [], x => x
  | e :: es, x => execute c es (if Enabled x.loc e then (handle c x e).getD x else x)

theorem execute_reachable {ok : Event w → Prop} : ∀ (es : List (Event w)) {x : World w}, ReachableBy c ok x → (∀ e ∈ es, ok e) →
    ReachableBy c ok (execute c es x)
  | [], _, h, _ => h
  | e :: es, x, h, hok => by
    refine execute_reachable es ?_ fun e he => hok e (List.mem_cons_of_mem _ he)
    split
    · rename_i he
      obtain ⟨x', hx, -⟩ := handle_moves (c := c) (I := True) h.own he fun _ => trivial
      rw [hx]
      obtain ⟨monitored, hs⟩ := h
      exact ⟨monitored, hs.tail ⟨e, hok e List.mem_cons_self, he, hx⟩⟩
    · exact h

end Lws

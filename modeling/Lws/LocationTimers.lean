import Lws.LocationHandlers
/-!
# LocationTimers — the deadlines of the Lua states in real time

`ngx_current_msec` is the real time modulo `2 ^ w`.  A state is due at its creation plus `lws_max_time`, and, while it is idle, at
its release plus `lws_timeout`; `Clocked` is a location with these real times.  The timer of a state has the earlier deadline
exactly where the clock does not wrap between the two, and where the deadline is not `NGX_TIMER_INFINITE` (`timer_is_right_iff`).
-/
namespace Lws

variable {w : Nat} {c : LocConf w}

/-! ## The timer of a state -/

/-- The timer is what `lws_set_state_timer` makes of the deadlines. -/
structure LuaState.Armed (state : LuaState w) : Prop where
  timerSet : state.tev.timerSet = state.finite
  key : state.finite = true → state.tev.key = if state.timeout < state.timeMax then state.timeout else state.timeMax

/-- **`lws_set_state_timer`** changes the timer alone, and makes it that of the deadlines. -/
theorem setStateTimer_armed (now : BitVec w) (p : Nat) (state : LuaState w) (timers : List Nat) :
    ∃ tev, (setStateTimer now p state timers).1 = { state with tev := tev } ∧ tev.timedout = state.tev.timedout ∧
      ({ state with tev := tev } : LuaState w).Armed := by
  have hkey (next : BitVec w) : now + (next - now) = next := by rw [BitVec.add_comm, BitVec.sub_add_cancel]
  have hset (tev : Timer w) (hset : tev.timerSet = false) (timers : List Nat) : ∃ tev',
      (if state.timeMax ≠ timerInfinite w ∨ state.timeout ≠ timerInfinite w then
        (({ state with tev := { tev with timerSet := true, key := now +
          ((if state.timeout < state.timeMax then state.timeout else state.timeMax) - now) } } : LuaState w), p :: timers)
        else ({ state with tev := tev }, timers)).1 = { state with tev := tev' } ∧ tev'.timedout = tev.timedout ∧
      ({ state with tev := tev' } : LuaState w).Armed := by
    by_cases hf : state.timeMax ≠ timerInfinite w ∨ state.timeout ≠ timerInfinite w
    · rw [if_pos hf]
      refine ⟨_, rfl, rfl, ⟨?_, fun _ => hkey _⟩⟩
      exact Eq.symm (by simpa [LuaState.finite] using hf)
    · rw [if_neg hf]
      have hfin : ({ state with tev := tev } : LuaState w).finite = false := by simpa [LuaState.finite] using hf
      exact ⟨tev, rfl, rfl, ⟨hset.trans hfin.symm, fun h => by rw [hfin] at h; cases h⟩⟩
  unfold setStateTimer
  cases hs : state.tev.timerSet with
  | true => exact hset { state.tev with timerSet := false } rfl (timers.erase p)
  | false => exact hset state.tev hs timers

/-! ## Real times -/

/-- A location, and when its states were created and last released, in milliseconds of real time. -/
structure Clocked (w : Nat) where
  world : World w := {}
  created : Nat → Nat := fun _ => 0
  released : Nat → Nat := fun _ => 0

/-- The states of a location have the deadlines and timers that they had. -/
def TimersKept (x y : World w) : Prop :=
  ∀ p state', y.loc.heap p = some state' → ∃ state, x.loc.heap p = some state ∧ state'.timeMax = state.timeMax ∧
    state'.timeout = state.timeout ∧ state'.tev = state.tev ∧ state'.inUse = state.inUse

/-- **A step in real time**: a request takes a state, which may be new, or gives it back, with the clock at the time; a timer
expires; or anything else happens that leaves the timers alone. -/
inductive Clocked.Step (c : LocConf w) : Clocked w → Clocked w → Prop
  | acquire (x : Clocked w) (t request : Nat) (a : Attempt w) (world : World w) (got : Option Nat)
      (hadm : x.world.loc.admits c = true) (hr : Loose x.world.loc request) (hnow : a.now = BitVec.ofNat w t)
      (h : acquireState c request a x.world = some (world, got)) :
      Step c x ⟨world, if x.world.loc.states = [] then Function.update x.created x.world.loc.next t else x.created, x.released⟩
  | release (x : Clocked w) (t : Nat) (task : Task) (e : Release w) (world : World w) (ht : task ∈ x.world.loc.tasks)
      (hph : task.phase ≠ .posted) (hnow : e.now = BitVec.ofNat w t) (h : releaseState c task.request e x.world = some world) :
      Step c x ⟨world, x.created, Function.update x.released task.state t⟩
  | expire (x : Clocked w) (p : Nat) (now : BitVec w) (world : World w) (hp : p ∈ x.world.loc.timers)
      (h : stateTimerHandler p now x.world = some world) : Step c x ⟨world, x.created, x.released⟩
  | other (x : Clocked w) (world : World w) (hm : LocMove c True x.world world) (hkept : TimersKept x.world world) :
      Step c x ⟨world, x.created, x.released⟩

def Clocked.Reached (c : LocConf w) (x : Clocked w) : Prop :=
  ∃ monitor, Relation.ReflTransGen (Clocked.Step c) { world := { monitor := monitor } } x

def Clocked.deadlines (c : LocConf w) (x : Clocked w) (p : Nat) (state : LuaState w) : List Nat :=
  (if c.stateTimeMax ≠ 0 then [x.created p + c.stateTimeMax.toNat] else []) ++
    if state.inUse = false ∧ c.stateTimeout ≠ 0 then [x.released p + c.stateTimeout.toNat] else []

/-- **What the timer should be**: armed where a deadline applies, for the first. -/
structure TimerRight (timer : Timer w) (deadlines : List Nat) : Prop where
  armed : timer.timerSet = true ↔ deadlines ≠ []
  first : ∀ first ∈ deadlines.min?, timer.key = BitVec.ofNat w first

/-- The clock does not wrap from the first deadline to another, and is not `NGX_TIMER_INFINITE` at the first. -/
def NoWrap (w : Nat) (deadlines : List Nat) : Prop :=
  ∀ first ∈ deadlines.min?, first % 2 ^ w ≠ 2 ^ w - 1 ∧ ∀ d ∈ deadlines, first % 2 ^ w ≤ d % 2 ^ w

/-! ## What the clock makes of the deadlines -/

theorem counter_infinite (d : Nat) : BitVec.ofNat w d = timerInfinite w ↔ d % 2 ^ w = 2 ^ w - 1 := by
  rw [← BitVec.toNat_inj, BitVec.toNat_ofNat, timerInfinite, BitVec.toNat_allOnes]

theorem not_infinite_lt (o : BitVec w) : ¬ timerInfinite w < o := by
  have hlt := o.isLt
  have hle : ¬ 2 ^ w - 1 < o.toNat := by omega
  intro h
  have h : (timerInfinite w).toNat < o.toNat := h
  rw [timerInfinite, BitVec.toNat_allOnes] at h
  exact hle h

theorem single_right (d : Nat) (timer : Timer w) (hset : timer.timerSet = decide (BitVec.ofNat w d ≠ timerInfinite w))
    (hkey : BitVec.ofNat w d ≠ timerInfinite w → timer.key = BitVec.ofNat w d) : TimerRight timer [d] ↔ NoWrap w [d] := by
  constructor
  · intro h first hfirst
    obtain rfl : d = first := Option.some.inj hfirst
    have harmed := h.armed.2 (List.cons_ne_nil _ _)
    rw [hset, decide_eq_true_eq, ne_eq, counter_infinite] at harmed
    exact ⟨harmed, fun d' hd' => by rw [List.mem_singleton.1 hd']⟩
  · intro h
    have hne : BitVec.ofNat w d ≠ timerInfinite w := fun he => (h d rfl).1 ((counter_infinite d).1 he)
    constructor
    · rw [hset, decide_eq_true hne]
      exact ⟨fun _ => List.cons_ne_nil _ _, fun _ => rfl⟩
    · intro first hfirst
      obtain rfl : d = first := Option.some.inj hfirst
      exact hkey hne

theorem pair_right (m o : Nat) (timer : Timer w)
    (hset : timer.timerSet = decide (BitVec.ofNat w m ≠ timerInfinite w ∨ BitVec.ofNat w o ≠ timerInfinite w))
    (hkey : BitVec.ofNat w m ≠ timerInfinite w ∨ BitVec.ofNat w o ≠ timerInfinite w →
      timer.key = if BitVec.ofNat w o < BitVec.ofNat w m then BitVec.ofNat w o else BitVec.ofNat w m) :
    TimerRight timer [m, o] ↔ NoWrap w [m, o] := by
  have hmin : [m, o].min? = some (min m o) := rfl
  have hlt : BitVec.ofNat w o < BitVec.ofNat w m ↔ o % 2 ^ w < m % 2 ^ w := by
    rw [BitVec.lt_def, BitVec.toNat_ofNat, BitVec.toNat_ofNat]
  have heq (a b : Nat) : BitVec.ofNat w a = BitVec.ofNat w b ↔ a % 2 ^ w = b % 2 ^ w := by
    rw [← BitVec.toNat_inj, BitVec.toNat_ofNat, BitVec.toNat_ofNat]
  have hm := Nat.mod_lt m (Nat.two_pow_pos w)
  have ho := Nat.mod_lt o (Nat.two_pow_pos w)
  have hnowrap : NoWrap w [m, o] ↔ min m o % 2 ^ w ≠ 2 ^ w - 1 ∧ min m o % 2 ^ w ≤ m % 2 ^ w ∧ min m o % 2 ^ w ≤ o % 2 ^ w := by
    rw [NoWrap, hmin]
    simp
  have hright : TimerRight timer [m, o] ↔ (m % 2 ^ w ≠ 2 ^ w - 1 ∨ o % 2 ^ w ≠ 2 ^ w - 1) ∧
      (if o % 2 ^ w < m % 2 ^ w then o % 2 ^ w else m % 2 ^ w) = min m o % 2 ^ w := by
    constructor
    · intro h
      have harmed := h.armed.2 (List.cons_ne_nil _ _)
      rw [hset, decide_eq_true_eq] at harmed
      have hfirst := h.first _ (show min m o ∈ [m, o].min? from hmin)
      rw [hkey harmed] at hfirst
      simp only [ne_eq, counter_infinite] at harmed
      refine ⟨harmed, ?_⟩
      split at hfirst
      · rename_i hlt'
        rw [if_pos (hlt.1 hlt'), (heq _ _).1 hfirst]
      · rename_i hlt'
        rw [if_neg fun h => hlt' (hlt.2 h), (heq _ _).1 hfirst]
    · rintro ⟨hne, hres⟩
      have harmed : BitVec.ofNat w m ≠ timerInfinite w ∨ BitVec.ofNat w o ≠ timerInfinite w := by
        simpa only [ne_eq, counter_infinite] using hne
      refine ⟨?_, fun first hfirst => ?_⟩
      · rw [hset, decide_eq_true harmed]
        exact ⟨fun _ => List.cons_ne_nil _ _, fun _ => rfl⟩
      · rw [hmin] at hfirst
        obtain rfl : min m o = first := Option.some.inj hfirst
        rw [hkey harmed]
        split
        · rename_i hlt'
          rw [if_pos (hlt.1 hlt')] at hres
          exact (heq _ _).2 hres
        · rename_i hlt'
          rw [if_neg fun h => hlt' (hlt.2 h)] at hres
          exact (heq _ _).2 hres
  rw [hright, hnowrap]
  rcases Nat.le_total m o with h | h
  · rw [Nat.min_eq_left h]
    split <;> omega
  · rw [Nat.min_eq_right h]
    split <;> omega

/-! ## The fields of a state -/

/-- **What the fields of a state say** of its creation and its last release. -/
structure Dated (c : LocConf w) (created released : Nat) (state : LuaState w) : Prop where
  timeMax : state.timeMax = if c.stateTimeMax ≠ 0 then BitVec.ofNat w created + c.stateTimeMax else timerInfinite w
  timeout : state.timeout =
    if state.inUse = false ∧ c.stateTimeout ≠ 0 then BitVec.ofNat w released + c.stateTimeout else timerInfinite w
  armed : state.tev.timedout = false → state.Armed

theorem ofNat_add_toNat (t : Nat) (d : BitVec w) : BitVec.ofNat w t + d = BitVec.ofNat w (t + d.toNat) := by
  rw [BitVec.ofNat_add, BitVec.ofNat_toNat, BitVec.setWidth_eq]

/-- **The timer of a state is right exactly where the clock does not wrap.** -/
theorem Dated.right {x : Clocked w} {p : Nat} {state : LuaState w} (h : Dated c (x.created p) (x.released p) state)
    (hlive : state.tev.timedout = false) :
    TimerRight state.tev (x.deadlines c p state) ↔ NoWrap w (x.deadlines c p state) := by
  obtain ⟨htimer, hkey⟩ := h.armed hlive
  have hmax := h.timeMax
  have hout := h.timeout
  unfold Clocked.deadlines
  simp only [LuaState.finite, Bool.or_eq_true, decide_eq_true_eq] at htimer hkey
  by_cases h₁ : c.stateTimeMax ≠ 0
  · rw [if_pos h₁, ofNat_add_toNat] at hmax
    rw [if_pos h₁]
    by_cases h₂ : state.inUse = false ∧ c.stateTimeout ≠ 0
    · rw [if_pos h₂, ofNat_add_toNat] at hout
      rw [if_pos h₂]
      rw [hmax, hout] at htimer hkey
      exact pair_right _ _ _ (by rw [htimer, Bool.decide_or]) hkey
    · rw [if_neg h₂] at hout
      rw [if_neg h₂]
      rw [hmax, hout] at htimer hkey
      refine single_right _ _ ?_ fun hne => ?_
      · rw [htimer]
        simp
      · rw [hkey (.inl hne), if_neg (not_infinite_lt _)]
  · rw [if_neg h₁] at hmax
    rw [if_neg h₁]
    by_cases h₂ : state.inUse = false ∧ c.stateTimeout ≠ 0
    · rw [if_pos h₂, ofNat_add_toNat] at hout
      rw [if_pos h₂]
      rw [hmax, hout] at htimer hkey
      refine single_right _ _ ?_ fun hne => ?_
      · rw [htimer]
        simp
      · rw [hkey (.inr hne)]
        split
        · rfl
        · rename_i hge
          -- a counter that is not below the infinite one is the infinite one
          exact absurd (BitVec.toNat_inj.1 (Nat.le_antisymm
            (by rw [timerInfinite, BitVec.toNat_allOnes]; exact Nat.le_pred_of_lt (BitVec.isLt _))
            (Nat.le_of_not_lt fun hlt => hge hlt))) hne
    · rw [if_neg h₂] at hout
      rw [if_neg h₂]
      rw [hmax, hout] at htimer
      refine ⟨fun _ _ hfirst => (by cases hfirst), fun _ => ⟨?_, fun _ hfirst => (by cases hfirst)⟩⟩
      rw [htimer]
      simp

/-! ## Steps -/

/-- A state that has changed hands, or is new, has not timed out. -/
def Untimed (x : World w) (p : Nat) (state : LuaState w) : Prop :=
  (x.loc.heap p).map LuaState.inUse = some state.inUse ∨ state.tev.timedout = false

section
variable {x : World w}

theorem Untimed.same {p : Nat} {state : LuaState w} (hp : x.loc.heap p = some state) : Untimed x p state :=
  .inl (by rw [hp, Option.map_some])

theorem retimed_armed (now timeout : BitVec w) (p : Nat) {state mid : LuaState w} (timers : List Nat)
    (hmid : mid.timeMax = state.timeMax ∧ mid.timeout = state.timeout ∧ mid.tev = state.tev)
    (harmed : state.tev.timedout = false → state.Armed) :
    ∃ tev timers', (if c.stateTimeout > 0 then setStateTimer now p { mid with timeout := timeout } timers else (mid, timers)) =
      ({ mid with timeout := if c.stateTimeout > 0 then timeout else state.timeout, tev := tev }, timers') ∧
      tev.timedout = state.tev.timedout ∧ (tev.timedout = false → ({ mid with
        timeout := if c.stateTimeout > 0 then timeout else state.timeout, tev := tev } : LuaState w).Armed) := by
  obtain ⟨hmax, hout, htev⟩ := hmid
  by_cases hpos : c.stateTimeout > 0
  · rw [if_pos hpos, if_pos hpos]
    obtain ⟨tev, hset, htd, ha⟩ := setStateTimer_armed now p { mid with timeout := timeout } timers
    exact ⟨tev, _, Prod.ext hset rfl, htd.trans (congrArg Timer.timedout htev), fun _ => ha⟩
  · rw [if_neg hpos, if_neg hpos]
    refine ⟨mid.tev, timers, by rw [← hout], by rw [htev], fun htd => ?_⟩
    rw [htev] at htd ⊢
    obtain ⟨h₁, h₂⟩ := harmed htd
    have hfin : ({ mid with timeout := state.timeout, tev := state.tev } : LuaState w).finite = state.finite := by
      rw [LuaState.finite, LuaState.finite, hmax]
    refine ⟨h₁.trans hfin.symm, fun hf => ?_⟩
    rw [hfin] at hf
    dsimp only
    rw [h₂ hf, hmax]

theorem Dated.in_use {created released : Nat} {state : LuaState w} (h : Dated c created released state)
    (hnone : state.inUse = true ∨ c.stateTimeout = 0) : state.timeout = timerInfinite w := by
  rw [h.timeout, if_neg]
  rintro ⟨huse, hpos⟩
  rcases hnone with hnone | hnone
  · rw [huse] at hnone
    cases hnone
  · exact hpos hnone

theorem stateTimeout_pos : c.stateTimeout > 0 ↔ c.stateTimeout ≠ 0 := by
  constructor
  · intro hpos hzero
    rw [hzero] at hpos
    exact absurd hpos (Nat.lt_irrefl _)
  · intro hne
    simpa [BitVec.lt_def, ← BitVec.toNat_inj, Nat.pos_iff_ne_zero] using hne

/-- **`lws_create_state`** arms the timer of the state that it creates, and leaves the others. -/
theorem createState_dated (ho : Own x.loc) {a : Attempt w} {world : World w} {got : Option Nat}
    (h : createState c a x = (world, got)) :
    (∀ p, p ≠ x.loc.next → world.loc.heap p = x.loc.heap p) ∧
      ((got = none ∧ world.loc.heap x.loc.next = none) ∨
        (got = some x.loc.next ∧ ∃ state, world.loc.heap x.loc.next = some state ∧ state.tev.timedout = false ∧
          state.timeMax = (if c.stateTimeMax ≠ 0 then a.now + c.stateTimeMax else timerInfinite w) ∧
          state.timeout = timerInfinite w ∧ state.Armed)) := by
  unfold createState at h
  dsimp only at h
  by_cases h1 : a.create = .calloc ∨ 2 ^ w ≤ x.loc.places.length + 1
  · rw [if_pos h1] at h
    obtain ⟨rfl, rfl⟩ := Prod.mk.inj h
    exact ⟨fun _ _ => rfl, .inl ⟨rfl, ho.next_heap⟩⟩
  rw [if_neg h1] at h
  by_cases h2 : a.create = .newstate
  · rw [if_pos h2] at h
    obtain ⟨rfl, rfl⟩ := Prod.mk.inj h
    exact ⟨fun _ _ => rfl, .inl ⟨rfl, ho.next_heap⟩⟩
  rw [if_neg h2] at h
  by_cases h3 : a.create = .init
  · rw [if_pos h3] at h
    obtain ⟨rfl, rfl⟩ := Prod.mk.inj h
    refine ⟨fun p hp => ?_, .inl ⟨rfl, Function.update_self _ _ _⟩⟩
    simp only [closeState, Loc.note, Function.update_idem]
    exact Function.update_of_ne hp _ _
  · rw [if_neg h3] at h
    obtain ⟨tev, hset, htd, ha⟩ := setStateTimer_armed a.now x.loc.next
      { memoryUsed := a.memory, timeMax := if c.stateTimeMax ≠ 0 then a.now + c.stateTimeMax else timerInfinite w,
        timeout := timerInfinite w } x.loc.timers
    rw [hset, Function.update_idem] at h
    obtain ⟨rfl, rfl⟩ := Prod.mk.inj h
    exact ⟨fun p hp => Function.update_of_ne hp _ _, .inr ⟨rfl, _, Function.update_self _ _ _, htd, rfl, rfl, ha⟩⟩

/-- **`lws_acquire_state`** dates the state that it creates, keeps the dates of the one that it takes, and leaves the others. -/
theorem acquireState_dated (ho : Own x.loc) {created released : Nat → Nat} (t request : Nat) {a : Attempt w}
    (hnow : a.now = BitVec.ofNat w t) {world : World w} {got : Option Nat} (h : acquireState c request a x = some (world, got))
    (hdated : ∀ p state, x.loc.heap p = some state → Dated c (created p) (released p) state) :
    ∀ p state, world.loc.heap p = some state → Untimed x p state ∧
      Dated c ((if x.loc.states = [] then Function.update created x.loc.next t else created) p) (released p) state := by
  unfold acquireState at h
  cases hst : x.loc.states with
  | cons q states =>
    have hmem : q ∈ x.loc.states := by rw [hst]; exact List.mem_cons_self
    obtain ⟨old, hold⟩ := ho.get (p := q) (List.mem_append_left _ hmem)
    simp only [hst, hold] at h
    have hq := hdated q old hold
    obtain ⟨tev, timers, he, htd, ha⟩ := @retimed_armed w c a.now (timerInfinite w) q old old x.loc.timers ⟨rfl, rfl, rfl⟩ hq.armed
    have hout : (if c.stateTimeout > 0 then timerInfinite w else old.timeout) = timerInfinite w := by
      split
      · rfl
      · rename_i hpos
        exact hq.in_use (.inr (Classical.not_not.1 fun hne => hpos (stateTimeout_pos.2 hne)))
    rw [hout] at he ha
    rw [he] at h
    obtain ⟨rfl, -⟩ := Prod.mk.inj (Option.some.inj h)
    rw [if_neg (List.cons_ne_nil q states)]
    intro p state hp
    simp only [attach] at hp
    by_cases hpq : p = q
    · subst hpq
      rw [Function.update_self] at hp
      obtain rfl := Option.some.inj hp
      exact ⟨.inr (htd.trans (ho.idle p hmem old hold).2), hq.timeMax, by simp,
        fun hlive => ⟨(ha hlive).timerSet, (ha hlive).key⟩⟩
    · rw [Function.update_of_ne hpq] at hp
      exact ⟨.same hp, hdated p state hp⟩
  | nil =>
    simp only [hst] at h
    rw [if_pos rfl]
    cases hcreate : createState c a x with
    | mk y created' =>
      obtain ⟨hsame, hnew⟩ := createState_dated ho hcreate
      have hother {p : Nat} {state : LuaState w} (hp : p ≠ x.loc.next) (hstate : y.loc.heap p = some state) :
          Untimed x p state ∧ Dated c (Function.update created x.loc.next t p) (released p) state := by
        rw [hsame p hp] at hstate
        rw [Function.update_of_ne hp]
        exact ⟨.same hstate, hdated p state hstate⟩
      rw [hcreate] at h
      rcases hnew with ⟨rfl, hnone⟩ | ⟨rfl, new, hnew, htd, hmax, hout, ha⟩
      · obtain ⟨rfl, -⟩ := Prod.mk.inj (Option.some.inj h)
        intro p state hp
        refine hother ?_ hp
        rintro rfl
        rw [hnone] at hp
        cases hp
      · dsimp only at h
        rw [hnew] at h
        obtain ⟨rfl, -⟩ := Prod.mk.inj (Option.some.inj h)
        intro p state hp
        simp only [attach] at hp
        by_cases hpn : p = x.loc.next
        · subst hpn
          rw [Function.update_self] at hp ⊢
          obtain rfl := Option.some.inj hp
          refine ⟨.inr htd, ?_, by simpa using hout, fun _ => ⟨ha.timerSet, ha.key⟩⟩
          rw [← hnow]
          exact hmax
        · rw [Function.update_of_ne hpn] at hp
          exact hother hpn hp

/-- **`lws_release_state`** dates the state that it makes idle, and leaves the others. -/
theorem releaseState_dated (ho : Own x.loc) {created released : Nat → Nat} (t : Nat) {task : Task} (ht : task ∈ x.loc.tasks)
    {e : Release w} (hnow : e.now = BitVec.ofNat w t) {world : World w} (h : releaseState c task.request e x = some world)
    (hdated : ∀ p state, x.loc.heap p = some state → Dated c (created p) (released p) state) :
    ∀ p state, world.loc.heap p = some state → Untimed x p state ∧
      Dated c (created p) (Function.update released task.state t p) state := by
  obtain ⟨old, hold⟩ := ho.get (List.mem_append_right _ (List.mem_map_of_mem ht))
  have hq := hdated _ old hold
  have huse := ho.busy task ht old hold
  have hother {p : Nat} (hp : p ≠ task.state) {state : LuaState w} (hstate : x.loc.heap p = some state) :
      Untimed x p state ∧ Dated c (created p) (Function.update released task.state t p) state := by
    rw [Function.update_of_ne hp]
    exact ⟨.same hstate, hdated p state hstate⟩
  unfold releaseState at h
  rw [ho.find_task ht] at h
  dsimp only at h
  rw [hold] at h
  dsimp only at h
  by_cases hc : old.close ∨ old.tev.timedout ∨ (c.stateRequestsMax > 0 ∧ old.requestCount + 1 ≥ c.stateRequestsMax)
  · rw [if_pos hc] at h
    obtain rfl := Option.some.inj h
    intro p state hp
    simp only [closeState, Loc.note] at hp
    by_cases hpq : p = task.state
    · subst hpq
      rw [Function.update_self] at hp
      cases hp
    · rw [Function.update_of_ne hpq] at hp
      exact hother hpq hp
  · rw [if_neg hc] at h
    generalize releaseMemory c _ e _ = used at h
    generalize hmid : (if Option.isSome _ = true then _ else _ : LuaState w) = mid at h
    have hmid' : mid.timeMax = old.timeMax ∧ mid.timeout = old.timeout ∧ mid.tev = old.tev := by
      rw [← hmid]
      split <;> exact ⟨rfl, rfl, rfl⟩
    have hused := hq.in_use (.inl huse)
    obtain ⟨tev, timers, he, htd, ha⟩ := @retimed_armed w c e.now (e.now + c.stateTimeout) task.state old mid x.loc.timers hmid' hq.armed
    simp only [Loc.note] at h
    rw [he] at h
    obtain rfl := Option.some.inj h
    intro p state hp
    by_cases hpq : p = task.state
    · subst hpq
      dsimp only at hp
      rw [Function.update_self] at hp ⊢
      obtain rfl := Option.some.inj hp
      have hlive : old.tev.timedout = false := Bool.eq_false_iff.2 fun htimedout => hc (.inr (.inl htimedout))
      refine ⟨.inr (htd.trans hlive), hmid'.1.trans hq.timeMax, ?_, fun hlive => ⟨(ha hlive).timerSet, (ha hlive).key⟩⟩
      dsimp only
      rw [hused, hnow]
      by_cases hpos : c.stateTimeout > 0
      · rw [if_pos hpos, if_pos ⟨rfl, stateTimeout_pos.1 hpos⟩]
      · rw [if_neg hpos, if_neg fun hboth => hpos (stateTimeout_pos.2 hboth.2)]
    · dsimp only at hp
      rw [Function.update_of_ne hpq] at hp
      exact hother hpq hp

theorem stateTimerHandler_dated {created released : Nat → Nat} {q : Nat} {now : BitVec w} {world : World w}
    (h : stateTimerHandler q now x = some world)
    (hdated : ∀ p state, x.loc.heap p = some state → Dated c (created p) (released p) state) :
    ∀ p state, world.loc.heap p = some state → Untimed x p state ∧ Dated c (created p) (released p) state := by
  unfold stateTimerHandler at h
  cases hold : x.loc.heap q with
  | none => rw [hold] at h; cases h
  | some old =>
    rw [hold] at h
    dsimp only at h
    have hq := hdated q old hold
    split at h
    · split at h
      · obtain rfl := Option.some.inj h
        intro p state hp
        simp only [closeState, Function.update_idem] at hp
        by_cases hpq : p = q
        · subst hpq
          rw [Function.update_self] at hp
          cases hp
        · rw [Function.update_of_ne hpq] at hp
          exact ⟨.same hp, hdated p state hp⟩
      · cases h
    · obtain rfl := Option.some.inj h
      intro p state hp
      dsimp only at hp
      by_cases hpq : p = q
      · subst hpq
        rw [Function.update_self] at hp
        obtain rfl := Option.some.inj hp
        exact ⟨.inl (by rw [hold, Option.map_some]), hq.timeMax, hq.timeout, fun hlive => (nomatch hlive)⟩
      · rw [Function.update_of_ne hpq] at hp
        exact ⟨.same hp, hdated p state hp⟩

end

theorem Clocked.Step.dated {x y : Clocked w} (hs : Clocked.Step c x y) (ho : Own x.world.loc)
    (hdated : ∀ p state, x.world.loc.heap p = some state → Dated c (x.created p) (x.released p) state) :
    Own y.world.loc ∧ ∀ p state, y.world.loc.heap p = some state →
      Untimed x.world p state ∧ Dated c (y.created p) (y.released p) state := by
  cases hs with
  | acquire t request a world got hadm hr hnow h =>
    obtain ⟨world', got', h', hm, -⟩ := acquireState_moves (I := True) ho hadm hr a fun _ => trivial
    obtain ⟨rfl, -⟩ := Prod.mk.inj (Option.some.inj (h.symm.trans h'))
    exact ⟨ho.moves hm, acquireState_dated ho t request hnow h hdated⟩
  | release t task e world ht hph hnow h =>
    obtain ⟨world', h', hm, -⟩ := releaseState_moves (c := c) (I := True) ho ht hph e
    obtain rfl := Option.some.inj (h.symm.trans h')
    exact ⟨ho.move hm, releaseState_dated ho t ht hnow h hdated⟩
  | expire p now world hp h =>
    obtain ⟨world', h', hm, -⟩ := stateTimerHandler_moves (c := c) (I := True) ho hp now
    obtain rfl := Option.some.inj (h.symm.trans h')
    exact ⟨ho.move hm, stateTimerHandler_dated h hdated⟩
  | other world hm hkept =>
    refine ⟨ho.move hm, fun p state' hp => ?_⟩
    obtain ⟨state, hold, hmax, hout, htev, huse⟩ := hkept p state' hp
    obtain ⟨h₁, h₂, h₃⟩ := hdated p state hold
    refine ⟨.inl (by rw [hold, Option.map_some, huse]), hmax.trans h₁, by rw [hout, huse]; exact h₂, fun hlive => ?_⟩
    rw [htev] at hlive
    have hfin : state'.finite = state.finite := by rw [LuaState.finite, LuaState.finite, hmax, hout]
    refine ⟨by rw [htev, hfin]; exact (h₃ hlive).timerSet, fun hf => ?_⟩
    rw [hfin] at hf
    rw [htev, hmax, hout]
    exact (h₃ hlive).key hf

theorem Clocked.Reached.step {x y : Clocked w} (h : x.Reached c) (hs : Clocked.Step c x y) : y.Reached c := by
  obtain ⟨monitor, hrun⟩ := h
  exact ⟨monitor, hrun.tail hs⟩

theorem Clocked.Reached.dated {x : Clocked w} (h : x.Reached c) : Own x.world.loc ∧
    ∀ p state, x.world.loc.heap p = some state → Dated c (x.created p) (x.released p) state := by
  obtain ⟨monitor, hs⟩ := h
  induction hs with
  | refl => exact ⟨own_empty, fun p state hp => (nomatch hp)⟩
  | tail _ hs ih =>
    obtain ⟨ho, hdated⟩ := hs.dated ih.1 ih.2
    exact ⟨ho, fun p state hp => (hdated p state hp).2⟩

/-- **The timer of a state is right exactly where the clock does not wrap between its deadlines**: after any run, when a request
has taken the state, new or idle, or has given it back. -/
theorem timer_is_right_iff {x y : Clocked w} (h : x.Reached c) (hs : Clocked.Step c x y) {p : Nat} {state : LuaState w}
    (hp : y.world.loc.heap p = some state) (hhands : (x.world.loc.heap p).map LuaState.inUse ≠ some state.inUse) :
    TimerRight state.tev (y.deadlines c p state) ↔ NoWrap w (y.deadlines c p state) := by
  obtain ⟨ho, hdated⟩ := h.dated
  obtain ⟨huntimed, hnew⟩ := (hs.dated ho hdated).2 p state hp
  exact hnew.right (huntimed.resolve_left hhands)

theorem reached_arrived (c : LocConf w) : Clocked.Reached c { world := { loc := { arrived := 1 } } } :=
  ⟨none, .single (.other _ _ (.arrive _) fun _ state' hp => ⟨state', hp, rfl, rfl, rfl, rfl⟩)⟩

theorem arrived_loose : Loose ({ arrived := 1 } : Loc w) 0 :=
  ⟨Nat.zero_lt_one, List.not_mem_nil, List.not_mem_nil, fun _ => List.not_mem_nil⟩

/-- A new state with a maximum time, on a clock that does not wrap soon. -/
theorem timer_is_right_iff_new : ∃ (x y : Clocked 32) (state : LuaState 32),
    x.Reached { stateTimeMax := 1500 } ∧ Clocked.Step { stateTimeMax := 1500 } x y ∧ y.world.loc.heap 0 = some state ∧
    TimerRight state.tev [2500] := by
  let c : LocConf 32 := { stateTimeMax := 1500 }
  let x : Clocked 32 := { world := { loc := { arrived := 1 } } }
  have hx : Clocked.Reached c x := reached_arrived c
  have hget : (acquireState c 0 { now := 1000 } x.world).isSome = true := rfl
  obtain ⟨⟨world, got⟩, hworld⟩ := Option.isSome_iff_exists.1 hget
  have hheap : (acquireState c 0 { now := 1000 } x.world).map (fun r => r.1.loc.heap 0) =
      some (some { timeMax := 2500, timeout := timerInfinite 32, inUse := true, tev := { timerSet := true, key := 2500 } }) := by
    decide +kernel
  rw [hworld] at hheap
  have hp := Option.some.inj hheap
  have hstep := Clocked.Step.acquire (c := c) x 1000 0 { now := 1000 } world got rfl arrived_loose rfl hworld
  refine ⟨x, _, _, hx, hstep, hp, (timer_is_right_iff hx hstep hp ?_).2 ?_⟩
  · exact fun h => nomatch h
  · change NoWrap 32 [2500]
    intro first hfirst
    obtain rfl : 2500 = first := Option.some.inj hfirst
    exact ⟨by decide, fun d hd => by rw [List.mem_singleton.1 hd]⟩

/-- A state that is due at its idle deadline, just before the clock wraps, has its timer at its last one, just after. -/
theorem wrapped_timer_is_late : ∃ (x y : Clocked 32) (state : LuaState 32),
    x.Reached { stateTimeMax := 1500, stateTimeout := 200 } ∧
    Clocked.Step { stateTimeMax := 1500, stateTimeout := 200 } x y ∧ y.world.loc.heap 0 = some state ∧
    (x.world.loc.heap 0).map LuaState.inUse ≠ some state.inUse ∧
    y.deadlines { stateTimeMax := 1500, stateTimeout := 200 } 0 state = [2 ^ 32 + 500, 2 ^ 32 - 300] ∧ state.tev.key = 500 ∧
    ¬ TimerRight state.tev (y.deadlines { stateTimeMax := 1500, stateTimeout := 200 } 0 state) := by
  let c : LocConf 32 := { stateTimeMax := 1500, stateTimeout := 200 }
  let x : Clocked 32 := { world := { loc := { arrived := 1 } } }
  have hx : Clocked.Reached c x := reached_arrived c
  let a : Attempt 32 := { now := BitVec.ofNat 32 (2 ^ 32 - 1000) }
  let e : Release 32 := { now := BitVec.ofNat 32 (2 ^ 32 - 500) }
  have hruns : (acquireState c 0 a x.world).map (fun r => (r.1.loc.tasks, (r.1.loc.heap 0).map LuaState.inUse,
      (releaseState c 0 e r.1).map fun y => y.loc.heap 0)) = some ([⟨0, 0, .unposted⟩], some true, some (some
      { requestCount := 1, timeMax := 500, timeout := BitVec.ofNat 32 (2 ^ 32 - 300),
        tev := { timerSet := true, key := 500 } })) := by
    decide +kernel
  obtain ⟨⟨world, got⟩, hworld, hrun⟩ := Option.map_eq_some_iff.1 hruns
  obtain ⟨htasks, hrun⟩ := Prod.mk.inj hrun
  obtain ⟨huse, hrun⟩ := Prod.mk.inj hrun
  obtain ⟨world', hworld', hp⟩ := Option.map_eq_some_iff.1 hrun
  let y : Clocked 32 := ⟨world, Function.update x.created 0 (2 ^ 32 - 1000), x.released⟩
  have hstep : Clocked.Step c x y := .acquire x (2 ^ 32 - 1000) 0 a world got rfl arrived_loose rfl hworld
  have htask : ⟨0, 0, .unposted⟩ ∈ y.world.loc.tasks := by
    rw [show y.world.loc.tasks = _ from htasks]
    exact List.mem_cons_self
  have hback := Clocked.Step.release (c := c) y (2 ^ 32 - 500) ⟨0, 0, .unposted⟩ e world' htask Phase.noConfusion rfl hworld'
  have hdeadlines : (⟨world', y.created, Function.update y.released 0 (2 ^ 32 - 500)⟩ : Clocked 32).deadlines c 0
      { requestCount := 1, timeMax := 500, timeout := BitVec.ofNat 32 (2 ^ 32 - 300),
        tev := { timerSet := true, key := 500 } } = [2 ^ 32 + 500, 2 ^ 32 - 300] := by
    simp only [Clocked.deadlines, y, c, Function.update_self]
    decide
  refine ⟨_, _, _, hx.step hstep, hback, hp, ?_, hdeadlines, rfl, fun hright => ?_⟩
  · rw [show (y.world.loc.heap 0).map LuaState.inUse = some true from huse]
    decide
  · have hkey := (hdeadlines ▸ hright).first (2 ^ 32 - 300) (by decide)
    exact absurd hkey (by decide)

end Lws

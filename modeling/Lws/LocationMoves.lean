import Mathlib.Data.List.Nodup
import Lws.Location
/-!
# LocationMoves — what the handlers of a location do, one move at a time

A handler is a sequence of moves: a state is created, handed out, run on, given back or closed; a request is queued or
dequeued.  `Own` says who owns each Lua state; it is what the handlers rely on to never touch a freed one, and each move keeps
it (`Own.move`).
-/
namespace Lws

variable {w : Nat}

def LuaState.finite (state : LuaState w) : Bool :=
  state.timeMax ≠ timerInfinite w || state.timeout ≠ timerInfinite w

/-! ## Timers -/

/-- The timer of `p` is armed exactly if its state has a deadline; the other timers are as before. -/
structure Rearmed (p : Nat) (state : LuaState w) (timers timers' : List Nat) : Prop where
  nodup : timers'.Nodup
  mem : ∀ q, q ∈ timers' ↔ q = p ∧ state.finite = true ∨ q ≠ p ∧ q ∈ timers
  timerSet : state.tev.timerSet = state.finite

/-- **`lws_set_state_timer`** arms the timer of a state exactly if it has a deadline. -/
theorem setStateTimer_eq (now : BitVec w) {p : Nat} (state : LuaState w) {timers : List Nat}
    (h : p ∈ timers ↔ state.tev.timerSet = true) : ∃ key, setStateTimer now p state timers =
      ({ state with tev := { state.tev with timerSet := state.finite, key := key } },
        if state.finite then p :: timers.erase p else timers.erase p) := by
  unfold setStateTimer
  have herase : (if state.tev.timerSet then
      ({ state with tev := { state.tev with timerSet := false } }, timers.erase p) else (state, timers)) =
      ({ state with tev := { state.tev with timerSet := false } }, timers.erase p) := by
    cases hs : state.tev.timerSet with
    | true => rfl
    | false =>
      have hp : p ∉ timers := fun hp => by rw [h.1 hp] at hs; cases hs
      rw [List.erase_of_not_mem hp, ← hs]
      split <;> rfl
  rw [herase]
  dsimp only
  by_cases hf : state.timeMax ≠ timerInfinite w ∨ state.timeout ≠ timerInfinite w
  · have hfin : state.finite = true := by simpa [LuaState.finite] using hf
    rw [if_pos hf, hfin]
    exact ⟨_, rfl⟩
  · have hfin : state.finite = false := by simpa [LuaState.finite] using hf
    rw [if_neg hf, hfin]
    exact ⟨state.tev.key, rfl⟩

theorem setStateTimer_rearmed (now : BitVec w) {p : Nat} (state : LuaState w) {timers : List Nat} (hn : timers.Nodup)
    (h : p ∈ timers ↔ state.tev.timerSet = true) :
    Rearmed p (setStateTimer now p state timers).1 timers (setStateTimer now p state timers).2 ∧
      ∃ key, (setStateTimer now p state timers).1 =
        { state with tev := { state.tev with timerSet := state.finite, key := key } } := by
  obtain ⟨key, he⟩ := setStateTimer_eq now state h
  rw [he]
  refine ⟨⟨?_, fun q => ?_, rfl⟩, key, rfl⟩
  · dsimp only
    split
    · exact List.nodup_cons.2 ⟨fun hm => (hn.mem_erase_iff.1 hm).1 rfl, hn.erase p⟩
    · exact hn.erase p
  · have hfin : LuaState.finite { state with tev := { state.tev with timerSet := state.finite, key := key } } =
        state.finite := rfl
    rw [hfin]
    dsimp only
    split
    · rename_i hf
      rw [List.mem_cons, hn.mem_erase_iff]
      tauto
    · rename_i hf
      rw [hn.mem_erase_iff]
      tauto

/-! ## Ownership -/

def Act.request : Act w → Option Nat
  | .acquired r _ _ | .ran r _ _ _ _ | .released r _ | .queued r | .dequeued r | .finalized r _ => some r
  | .initFailed | .created _ | .closed _ _ | .expired _ => none

/-- **Where the requests are**: those that wait or have a state are distinct, have arrived, and have not given a state back. -/
structure Named (l : Loc w) : Prop where
  ids : (l.requests ++ l.tasks.map Task.request).Nodup
  arrived : ∀ r ∈ l.requests ++ l.tasks.map Task.request, r < l.arrived
  past : ∀ a ∈ l.trace, ∀ r, a.request = some r → r < l.arrived
  served : ∀ r p, .released r p ∈ l.trace → r ∉ l.requests ++ l.tasks.map Task.request

/-- **Who owns the Lua states**: every live state is idle or has one request; a timer is armed only for a live state, and for
one that has not expired exactly if it has a deadline. -/
structure Own (l : Loc w) : Prop extends Named l where
  nodup : l.places.Nodup
  live : ∀ p, (l.heap p).isSome = true ↔ p ∈ l.places
  fresh : ∀ p ∈ l.places, p < l.next
  idle : ∀ p ∈ l.states, ∀ state, l.heap p = some state → state.inUse = false ∧ state.tev.timedout = false
  busy : ∀ t ∈ l.tasks, ∀ state, l.heap t.state = some state → state.inUse = true
  timersNodup : l.timers.Nodup
  timer : ∀ p, p ∈ l.timers ↔ ∃ state, l.heap p = some state ∧ state.tev.timerSet = true
  armed : ∀ p state, l.heap p = some state → state.tev.timedout = false → state.tev.timerSet = state.finite

/-- A request that has arrived, is neither queued nor has a state, and has not given one back. -/
structure Loose (l : Loc w) (r : Nat) : Prop where
  arrived : r < l.arrived
  queue : r ∉ l.requests
  task : r ∉ l.tasks.map Task.request
  fresh : ∀ p, .released r p ∉ l.trace

theorem own_empty : Own ({} : Loc w) :=
  ⟨⟨by simp, by simp, by simp, by simp⟩, List.nodup_nil, fun p => by simp [Loc.places], by simp [Loc.places], by simp,
    by simp, List.nodup_nil, by simp, by simp⟩

section
variable {l : Loc w} (h : Own l)
include h

theorem Own.get {p : Nat} (hp : p ∈ l.places) : ∃ state, l.heap p = some state :=
  Option.isSome_iff_exists.1 ((h.live p).2 hp)

theorem Own.mem_places {p : Nat} {state : LuaState w} (hp : l.heap p = some state) : p ∈ l.places :=
  (h.live p).1 (by rw [hp]; rfl)

theorem Own.timer_iff {p : Nat} {state : LuaState w} (hp : l.heap p = some state) :
    p ∈ l.timers ↔ state.tev.timerSet = true := by
  rw [h.timer]
  constructor
  · rintro ⟨state', hp', hs⟩
    rw [hp] at hp'
    rwa [Option.some.inj hp']
  · exact fun hs => ⟨state, hp, hs⟩

theorem Own.next_heap : l.heap l.next = none := by
  by_contra hne
  obtain ⟨state, hp⟩ := Option.ne_none_iff_exists'.1 hne
  exact absurd (h.fresh _ (h.mem_places hp)) (Nat.lt_irrefl _)

theorem Own.next_timers : l.next ∉ l.timers := by
  rw [h.timer, h.next_heap]
  rintro ⟨state, hp, -⟩
  cases hp

theorem Own.next_places : l.next ∉ l.places := fun hp => Nat.lt_irrefl _ (h.fresh _ hp)

theorem Own.task_unique {t t' : Task} (ht : t ∈ l.tasks) (ht' : t' ∈ l.tasks) (hr : t'.request = t.request) : t' = t :=
  List.inj_on_of_nodup_map ((List.nodup_append.1 h.ids).2.1) ht' ht hr

theorem Own.find_task {t : Task} (ht : t ∈ l.tasks) : l.tasks.find? (fun t' => t'.request = t.request) = some t := by
  cases hf : l.tasks.find? (fun t' => t'.request = t.request) with
  | none => exact absurd (List.find?_eq_none.1 hf t ht) (by simp)
  | some t' =>
    have hr : t'.request = t.request := by simpa using List.find?_some hf
    rw [h.task_unique ht (List.mem_of_find?_eq_some hf) hr]

theorem Own.state_unique {t t' : Task} (ht : t ∈ l.tasks) (ht' : t' ∈ l.tasks) (hs : t'.state = t.state) : t' = t :=
  List.inj_on_of_nodup_map ((List.nodup_append.1 h.nodup).2.1) ht' ht hs

theorem Own.idle_not_task {p : Nat} (hp : p ∈ l.states) : p ∉ l.tasks.map Task.state := fun hm =>
  (List.nodup_append.1 h.nodup).2.2 p hp p hm rfl

theorem Own.running_iff {t : Task} (ht : t ∈ l.tasks) : l.running t.state = true ↔ t.phase = .posted := by
  simp only [Loc.running, List.any_eq_true, Bool.and_eq_true, decide_eq_true_eq]
  constructor
  · rintro ⟨t', ht', hs, hp⟩
    rwa [← h.state_unique ht ht' hs]
  · exact fun hp => ⟨t, ht, rfl, hp⟩

omit h in
theorem not_running {p : Nat} (hp : p ∉ l.tasks.map Task.state) : l.running p = false := by
  rw [Bool.eq_false_iff]
  intro hr
  simp only [Loc.running, List.any_eq_true, Bool.and_eq_true, decide_eq_true_eq] at hr
  obtain ⟨t, ht, hs, -⟩ := hr
  exact hp (List.mem_map.2 ⟨t, ht, hs⟩)

end

/-! ## Moves -/

/-- What a run leaves in the flags of its state and in the log. -/
structure Ran (c : ChunkConf) (state state' : LuaState w) (log : List (Chunk × Bool)) (error setclose : Bool) : Prop where
  run : ∃ env beh, let run := lwsRunState c env beh { init := state.init, close := state.close }
    state'.init = run.init ∧ state'.close = run.close ∧ log = run.log ∧ error = decide (run.ctx.rc < 0) ∧
      setclose = closes beh run.log
  same : state'.requestCount = state.requestCount ∧ state'.memoryMonitor = state.memoryMonitor ∧
    state'.timeMax = state.timeMax ∧ state'.timeout = state.timeout ∧ state'.tev = state.tev ∧ state'.inUse = state.inUse

/-- The states before and after they change hands: what neither the request nor the timer has done. -/
structure Handed (state state' : LuaState w) : Prop where
  init : state'.init = state.init
  close : state'.close = state.close
  timedout : state'.tev.timedout = state.tev.timedout

def Reusable (c : LocConf w) (state : LuaState w) : Prop :=
  state.close = false ∧ state.tev.timedout = false ∧
    (c.stateRequestsMax > 0 → state.requestCount < c.stateRequestsMax)

/-- **One move of a location**; `I` says whether `lws_init` may fail in it. -/
inductive LocMove (c : LocConf w) (I : Prop) : World w → World w → Prop
  /-- `lws_init` fails: the new state is closed before it is counted. -/
  | initFailed (x : World w) (hf : I) (h : x.loc.states = []) (hadm : x.loc.admits c = true) : LocMove c I x
      { loc := { x.loc with
          next := x.loc.next + 1
          statesN := x.loc.statesN - 1
          trace := .closed x.loc.next false :: .initFailed :: x.loc.trace }
        monitor := x.monitor.map fun m => { m with statesN := m.statesN - 1 } }
  /-- A new state, for a request. -/
  | create (x : World w) (r : Nat) (state : LuaState w) (timers : List Nat) (h : x.loc.states = [])
      (hadm : x.loc.admits c = true) (hroom : x.loc.places.length + 1 < 2 ^ w) (hr : Loose x.loc r)
      (hnew : state.init = false ∧ state.close = false ∧ state.tev.timedout = false ∧ state.requestCount = 0 ∧
        state.memoryMonitor = 0 ∧ state.inUse = true)
      (ht : Rearmed x.loc.next state x.loc.timers timers) : LocMove c I x
      { loc := { x.loc with
          heap := Function.update x.loc.heap x.loc.next (some state)
          next := x.loc.next + 1
          statesN := x.loc.statesN + 1
          timers := timers
          tasks := ⟨r, x.loc.next, .unposted⟩ :: x.loc.tasks
          trace := .acquired r x.loc.next none :: .created x.loc.next :: x.loc.trace }
        monitor := x.monitor.map fun m => { m with statesN := m.statesN + 1 } }
  /-- The head of the idle states, for a request. -/
  | reuse (x : World w) (r p : Nat) (states : List Nat) (state state' : LuaState w) (timers : List Nat)
      (h : x.loc.states = p :: states) (hp : x.loc.heap p = some state) (hr : Loose x.loc r)
      (hh : Handed state state') (hcount : state'.requestCount = state.requestCount)
      (hmem : state'.memoryMonitor = state.memoryMonitor) (huse : state'.inUse = true)
      (ht : Rearmed p state' x.loc.timers timers) : LocMove c I x
      { x with loc := { x.loc with
          heap := Function.update x.loc.heap p (some state')
          states := states
          timers := timers
          tasks := ⟨r, p, .unposted⟩ :: x.loc.tasks
          trace := .acquired r p (some (state, decide (p ∈ x.loc.timers))) :: x.loc.trace } }
  | post (x : World w) (t : Task) (ht : t ∈ x.loc.tasks) (hph : t.phase = .unposted) : LocMove c I x (postTask t.request x)
  | run (x : World w) (t : Task) (state state' : LuaState w) (log : List (Chunk × Bool)) (error setclose : Bool)
      (ht : t ∈ x.loc.tasks) (hph : t.phase = .posted) (hp : x.loc.heap t.state = some state)
      (hran : Ran c.chunks state state' log error setclose) : LocMove c I x
      { x with loc := { x.loc with
          heap := Function.update x.loc.heap t.state (some state')
          tasks := x.loc.tasks.map fun t' => if t'.request = t.request then { t' with phase := .done } else t'
          trace := .ran t.request t.state log error setclose :: x.loc.trace } }
  /-- A request gives its state back, and the state is closed. -/
  | giveUp (x : World w) (t : Task) (state : LuaState w) (ht : t ∈ x.loc.tasks) (hph : t.phase ≠ .posted)
      (hp : x.loc.heap t.state = some state) : LocMove c I x
      { loc := { x.loc with
          heap := Function.update x.loc.heap t.state none
          statesN := x.loc.statesN - 1
          timers := x.loc.timers.erase t.state
          tasks := x.loc.tasks.filter (fun t' => t'.request ≠ t.request)
          trace := .closed t.state false :: .released t.request t.state :: x.loc.trace }
        monitor := x.monitor.map fun m => { m with
          requestCount := m.requestCount + 1
          statesN := m.statesN - 1
          memoryUsed := m.memoryUsed - state.memoryMonitor } }
  /-- A request gives its state back, and the state is idle. -/
  | giveBack (x : World w) (t : Task) (state state' : LuaState w) (timers : List Nat) (ht : t ∈ x.loc.tasks)
      (hph : t.phase ≠ .posted) (hp : x.loc.heap t.state = some state) (hh : Handed state state')
      (hcount : state'.requestCount = state.requestCount + 1) (hreuse : Reusable c state')
      (hmem : x.monitor = none → state'.memoryMonitor = state.memoryMonitor) (huse : state'.inUse = false)
      (htm : Rearmed t.state state' x.loc.timers timers) : LocMove c I x
      { loc := { x.loc with
          heap := Function.update x.loc.heap t.state (some state')
          states := t.state :: x.loc.states
          timers := timers
          tasks := x.loc.tasks.filter (fun t' => t'.request ≠ t.request)
          trace := .released t.request t.state :: x.loc.trace }
        monitor := x.monitor.map fun m => { m with
          requestCount := m.requestCount + 1
          memoryUsed := m.memoryUsed + (state'.memoryMonitor - state.memoryMonitor) } }
  /-- The timer of a state in use expires. -/
  | expireBusy (x : World w) (p : Nat) (state : LuaState w) (hp : x.loc.heap p = some state) (huse : state.inUse = true) :
      LocMove c I x
      { x with loc := { x.loc with
          heap := Function.update x.loc.heap p
            (some { state with tev := { state.tev with timerSet := false, timedout := true } })
          timers := x.loc.timers.erase p
          trace := .expired p :: x.loc.trace } }
  /-- The timer of an idle state expires, and the state is closed. -/
  | expireIdle (x : World w) (p : Nat) (state : LuaState w) (hm : p ∈ x.loc.states) (hp : x.loc.heap p = some state) :
      LocMove c I x
      { loc := { x.loc with
          heap := Function.update x.loc.heap p none
          statesN := x.loc.statesN - 1
          states := x.loc.states.erase p
          timers := x.loc.timers.erase p
          trace := .closed p false :: .expired p :: x.loc.trace }
        monitor := x.monitor.map fun m => { m with
          statesN := m.statesN - 1, memoryUsed := m.memoryUsed - state.memoryMonitor } }
  /-- The configuration goes, and an idle state with it. -/
  | cleanup (x : World w) (p : Nat) (states : List Nat) (state : LuaState w) (h : x.loc.states = p :: states)
      (hp : x.loc.heap p = some state) : LocMove c I x
      { loc := { x.loc with
          heap := Function.update x.loc.heap p none
          statesN := x.loc.statesN - 1
          states := states
          timers := x.loc.timers.erase p
          trace := .closed p false :: x.loc.trace }
        monitor := x.monitor.map fun m => { m with
          statesN := m.statesN - 1, memoryUsed := m.memoryUsed - state.memoryMonitor } }
  | arrive (x : World w) : LocMove c I x { x with loc := { x.loc with arrived := x.loc.arrived + 1 } }
  | finalize (x : World w) (r : Nat) (rc : Int) (hr : r < x.loc.arrived) : LocMove c I x (x.finalize r rc)
  | queue (x : World w) (r : Nat) (hr : Loose x.loc r) (hnew : ∀ a ∈ x.loc.trace, a.request ≠ some r) (hroom : x.loc.requests.length + 1 < 2 ^ w)
      (hmax : c.requestsMax = 0 ∨ x.loc.requestsN < c.requestsMax) : LocMove c I x
      { loc := { x.loc with
          requestsN := x.loc.requestsN + 1
          requests := x.loc.requests ++ [r]
          trace := .queued r :: x.loc.trace }
        monitor := x.monitor.map fun m => { m with requestsN := m.requestsN + 1 } }
  | dequeue (x : World w) (r : Nat) (requests : List Nat) (h : x.loc.requests = r :: requests) : LocMove c I x
      { loc := { x.loc with
          requestsN := x.loc.requestsN - 1
          requests := requests
          trace := .dequeued r :: x.loc.trace }
        monitor := x.monitor.map fun m => { m with requestsN := m.requestsN - 1 } }
  | setQev (x : World w) (qev : Bool) : LocMove c I x { x with loc := { x.loc with qev := qev } }

/-! ## Each move keeps the ownership -/

section
variable {l l' : Loc w} {p : Nat}

theorem Own.write (h : Own l) {state : LuaState w} (hheap : l'.heap = Function.update l.heap p (some state))
    (hnodup : l'.places.Nodup) (hmem : ∀ q, q ∈ l'.places ↔ q = p ∨ q ∈ l.places) (hnext : l.next ≤ l'.next)
    (hp : p < l'.next) (hidle : ∀ q ∈ l'.states, q = p ∧ state.inUse = false ∧ state.tev.timedout = false ∨ q ≠ p ∧ q ∈ l.states)
    (hbusy : ∀ t ∈ l'.tasks, t.state = p ∧ state.inUse = true ∨ t.state ≠ p ∧ t.state ∈ l.tasks.map Task.state)
    (htimersNodup : l'.timers.Nodup)
    (htimers : ∀ q, q ∈ l'.timers ↔ q = p ∧ state.tev.timerSet = true ∨ q ≠ p ∧ q ∈ l.timers)
    (harmed : state.tev.timedout = false → state.tev.timerSet = state.finite)
    (hnamed : Named l') : Own l' := by
  have hself : l'.heap p = some state := by rw [hheap, Function.update_self]
  have hother {q : Nat} (hq : q ≠ p) : l'.heap q = l.heap q := by rw [hheap, Function.update_of_ne hq]
  refine ⟨hnamed, hnodup, fun q => ?_, fun q hq => ?_, fun q hq st hst => ?_, fun t ht st hst => ?_, htimersNodup,
    fun q => ?_, fun q st hst => ?_⟩
  · rw [hmem]
    rcases eq_or_ne q p with rfl | hq
    · simp [hself]
    · rw [hother hq, h.live]
      simp [hq]
  · rcases (hmem q).1 hq with rfl | hq
    · exact hp
    · exact Nat.lt_of_lt_of_le (h.fresh q hq) hnext
  · rcases hidle q hq with ⟨rfl, hs⟩ | ⟨hne, hm⟩
    · rw [hself] at hst
      rw [← Option.some.inj hst]
      exact hs
    · rw [hother hne] at hst
      exact h.idle q hm st hst
  · rcases hbusy t ht with ⟨rfl, hs⟩ | ⟨hne, hm⟩
    · rw [hself] at hst
      rw [← Option.some.inj hst]
      exact hs
    · rw [hother hne] at hst
      obtain ⟨t', ht', hs⟩ := List.mem_map.1 hm
      exact h.busy t' ht' st (hs ▸ hst)
  · rw [htimers]
    rcases eq_or_ne q p with rfl | hq
    · rw [hself]
      simp
    · rw [hother hq, h.timer]
      simp [hq]
  · rcases eq_or_ne q p with rfl | hq
    · rw [hself] at hst
      rw [← Option.some.inj hst]
      exact harmed
    · rw [hother hq] at hst
      exact h.armed q st hst

theorem Own.free (h : Own l) (hheap : l'.heap = Function.update l.heap p none) (hnodup : l'.places.Nodup)
    (hmem : ∀ q, q ∈ l'.places ↔ q ≠ p ∧ q ∈ l.places) (hnext : l'.next = l.next)
    (hidle : ∀ q ∈ l'.states, q ∈ l.states) (hbusy : ∀ t ∈ l'.tasks, t ∈ l.tasks) (htimers : l'.timers = l.timers.erase p)
    (hnamed : Named l') : Own l' := by
  have hself : l'.heap p = none := by rw [hheap, Function.update_self]
  have hother {q : Nat} (hq : q ≠ p) : l'.heap q = l.heap q := by rw [hheap, Function.update_of_ne hq]
  have hsome {q : Nat} {st : LuaState w} (hst : l'.heap q = some st) : q ≠ p ∧ l.heap q = some st := by
    rcases eq_or_ne q p with rfl | hq
    · rw [hself] at hst
      cases hst
    · exact ⟨hq, by rwa [hother hq] at hst⟩
  refine ⟨hnamed, hnodup, fun q => ?_, fun q hq => ?_, fun q hq st hst => ?_, fun t ht st hst => ?_, ?_, fun q => ?_,
    fun q st hst => ?_⟩
  · rw [hmem]
    rcases eq_or_ne q p with rfl | hq
    · simp [hself]
    · rw [hother hq, h.live]
      simp [hq]
  · rw [hnext]
    exact h.fresh q ((hmem q).1 hq).2
  · exact h.idle q (hidle q hq) st (hsome hst).2
  · exact h.busy t (hbusy t ht) st (hsome hst).2
  · rw [htimers]
    exact h.timersNodup.erase p
  · rw [htimers, h.timersNodup.mem_erase_iff, h.timer]
    constructor
    · rintro ⟨hq, st, hst, hs⟩
      exact ⟨st, by rwa [hother hq], hs⟩
    · rintro ⟨st, hst, hs⟩
      exact ⟨(hsome hst).1, st, (hsome hst).2, hs⟩
  · exact h.armed q st (hsome hst).2

theorem Own.requests (h : Own l) (hheap : l'.heap = l.heap) (hstates : l'.states = l.states) (htasks : l'.tasks = l.tasks)
    (htimers : l'.timers = l.timers) (hnext : l.next ≤ l'.next)
    (hnamed : Named l') : Own l' := by
  have hplaces : l'.places = l.places := by rw [Loc.places, hstates, htasks]; rfl
  exact ⟨hnamed, hplaces ▸ h.nodup, by rw [hheap, hplaces]; exact h.live,
    fun p hp => Nat.lt_of_lt_of_le (h.fresh p (hplaces ▸ hp)) hnext, by rw [hstates, hheap]; exact h.idle,
    by rw [htasks, hheap]; exact h.busy, htimers ▸ h.timersNodup, by rw [htimers, hheap]; exact h.timer,
    by rw [hheap]; exact h.armed⟩

theorem Own.mem_drop_task (h : Own l) {t : Task} (ht : t ∈ l.tasks) (q : Nat) :
    q ∈ (l.tasks.filter (fun t' => t'.request ≠ t.request)).map Task.state ↔ q ≠ t.state ∧ q ∈ l.tasks.map Task.state := by
  simp only [List.mem_map, List.mem_filter, decide_eq_true_eq]
  constructor
  · rintro ⟨t', ⟨ht', hne⟩, rfl⟩
    exact ⟨fun hs => hne (by rw [h.state_unique ht ht' hs]), t', ht', rfl⟩
  · rintro ⟨hne, t', ht', rfl⟩
    exact ⟨t', ⟨ht', fun hr => hne (by rw [h.task_unique ht ht' hr])⟩, rfl⟩

theorem map_phase_state (tasks : List Task) (r : Nat) (phase : Phase) :
    (tasks.map fun t => if t.request = r then { t with phase := phase } else t).map Task.state = tasks.map Task.state := by
  rw [List.map_map]
  exact List.map_congr_left fun t _ => by simp only [Function.comp]; split <;> rfl

theorem map_phase_request (tasks : List Task) (r : Nat) (phase : Phase) :
    (tasks.map fun t => if t.request = r then { t with phase := phase } else t).map Task.request =
      tasks.map Task.request := by
  rw [List.map_map]
  exact List.map_congr_left fun t _ => by simp only [Function.comp]; split <;> rfl

def Kept (l : Loc w) (acts : List (Act w)) : Prop :=
  ∀ a ∈ acts, (∀ r, a.request = some r → r < l.arrived) ∧ ∀ r p, a ≠ .released r p

theorem Named.past_append (h : Named l) {acts : List (Act w)} (hacts : Kept l' acts) (harr : l.arrived ≤ l'.arrived) :
    ∀ a ∈ acts ++ l.trace, ∀ r, a.request = some r → r < l'.arrived := fun a ha r hr => by
  rcases List.mem_append.1 ha with ha | ha
  · exact (hacts a ha).1 r hr
  · exact Nat.lt_of_lt_of_le (h.past a ha r hr) harr

theorem Kept.released {acts : List (Act w)} (hacts : Kept l' acts) {r q : Nat} (hm : .released r q ∈ acts ++ l.trace) :
    .released r q ∈ l.trace := by
  rcases List.mem_append.1 hm with hm | hm
  · exact absurd rfl ((hacts _ hm).2 r q)
  · exact hm

theorem Named.pop (h : Named l) {r : Nat} {requests : List Nat} (hreq : l.requests = r :: requests) :
    Named { l with requestsN := l.requestsN - 1, requests := requests, trace := .dequeued r :: l.trace } := by
  have hids := h.ids
  have harr := h.arrived
  rw [hreq] at hids harr
  refine ⟨(List.nodup_cons.1 hids).2, fun q hq => harr q (List.mem_cons_of_mem _ hq), fun a ha q hq => ?_, fun q p hm hq => ?_⟩
  · rcases List.mem_cons.1 ha with rfl | ha
    · rw [← Option.some.inj hq]
      exact harr r List.mem_cons_self
    · exact h.past a ha q hq
  · rcases List.mem_cons.1 hm with he | hm
    · cases he
    · refine h.served q p hm ?_
      rw [hreq]
      exact List.mem_cons_of_mem _ hq

theorem Named.same (h : Named l) (acts : List (Act w)) (htrace : l'.trace = acts ++ l.trace) (hacts : Kept l' acts)
    (harr : l.arrived ≤ l'.arrived) (hrequests : l'.requests = l.requests)
    (htasks : l'.tasks.map Task.request = l.tasks.map Task.request) : Named l' := by
  refine ⟨?_, ?_, htrace ▸ h.past_append hacts harr, ?_⟩
  · rw [hrequests, htasks]
    exact h.ids
  · rw [hrequests, htasks]
    exact fun r hr => Nat.lt_of_lt_of_le (h.arrived r hr) harr
  · rw [hrequests, htasks, htrace]
    exact fun r q hm => h.served r q (hacts.released hm)

theorem Named.take (h : Named l) (l' : Loc w) {r : Nat} (hr : Loose l r) (acts : List (Act w)) (htrace : l'.trace = acts ++ l.trace)
    (hacts : Kept l' acts) (harr : l'.arrived = l.arrived)
    (hperm : (l'.requests ++ l'.tasks.map Task.request).Perm (r :: (l.requests ++ l.tasks.map Task.request))) : Named l' := by
  have hnot : r ∉ l.requests ++ l.tasks.map Task.request := fun hm => (List.mem_append.1 hm).elim hr.queue hr.task
  refine ⟨hperm.nodup_iff.2 (List.nodup_cons.2 ⟨hnot, h.ids⟩), fun q hq => ?_, htrace ▸ h.past_append hacts harr.ge, ?_⟩
  · rw [harr]
    rcases List.mem_cons.1 (hperm.subset hq) with rfl | hq
    · exact hr.arrived
    · exact h.arrived q hq
  · rw [htrace]
    intro q p hm hq
    rcases List.mem_cons.1 (hperm.subset hq) with rfl | hq
    · exact hr.fresh p (hacts.released hm)
    · exact h.served q p (hacts.released hm) hq

theorem Named.drop (h : Named l) {t : Task} (ht : t ∈ l.tasks) (acts : List (Act w))
    (htrace : l'.trace = acts ++ .released t.request t.state :: l.trace) (hacts : Kept l' acts) (harr : l'.arrived = l.arrived)
    (hrequests : l'.requests = l.requests) (htasks : l'.tasks = l.tasks.filter (fun t' => t'.request ≠ t.request)) :
    Named l' := by
  have hsub : List.Sublist (l'.requests ++ l'.tasks.map Task.request) (l.requests ++ l.tasks.map Task.request) := by
    rw [hrequests, htasks]
    exact List.Sublist.append_left (List.filter_sublist.map Task.request) l.requests
  have hr : t.request ∈ l.tasks.map Task.request := List.mem_map_of_mem ht
  have hgone : t.request ∉ l'.requests ++ l'.tasks.map Task.request := fun hm => by
    rcases List.mem_append.1 hm with hm | hm
    · exact (List.nodup_append.1 h.ids).2.2 _ (hrequests ▸ hm) _ hr rfl
    · rw [htasks] at hm
      obtain ⟨t', ht', he⟩ := List.mem_map.1 hm
      simp [he] at ht'
  refine ⟨h.ids.sublist hsub, fun q hq => harr ▸ h.arrived q (hsub.subset hq), ?_, ?_⟩
  · rw [htrace, harr]
    intro a ha r har
    rcases List.mem_append.1 ha with ha | ha
    · rw [← harr]
      exact (hacts a ha).1 r har
    · rcases List.mem_cons.1 ha with rfl | ha
      · rw [← Option.some.inj har]
        exact h.arrived _ (List.mem_append_right _ hr)
      · exact h.past a ha r har
  · rw [htrace]
    intro q p hm hq
    rcases List.mem_cons.1 (List.mem_append.1 hm |>.resolve_left fun hm => (hacts _ hm).2 q p rfl) with he | hm
    · cases he
      exact hgone hq
    · exact h.served q p hm (hsub.subset hq)

end

theorem Own.move {c : LocConf w} {I : Prop} {x x' : World w} (h : Own x.loc) (hm : LocMove c I x x') : Own x'.loc := by
  have hplaces : ∀ q, q ∈ x.loc.places ↔ q ∈ x.loc.states ∨ q ∈ x.loc.tasks.map Task.state := fun q => List.mem_append
  cases hm with
  | initFailed hf hst hadm =>
    exact h.requests rfl rfl rfl rfl (Nat.le_succ _)
      (h.toNamed.same [.closed x.loc.next false, .initFailed] rfl (by simp [Kept, Act.request]) (le_refl _) rfl rfl)
  | create r state timers hst hadm hroom hr hnew ht =>
    have hnamed := h.toNamed.take { x.loc with
        heap := Function.update x.loc.heap x.loc.next (some state), next := x.loc.next + 1, statesN := x.loc.statesN + 1
        timers := timers, tasks := ⟨r, x.loc.next, .unposted⟩ :: x.loc.tasks
        trace := .acquired r x.loc.next none :: .created x.loc.next :: x.loc.trace } hr
      [.acquired r x.loc.next none, .created x.loc.next] rfl (by simp [Kept, Act.request, hr.arrived]) rfl List.perm_middle
    have hnp := h.next_places
    have hnd := h.nodup
    simp only [Loc.places, hst, List.nil_append] at hnp hnd hplaces
    refine h.write rfl ?_ (fun q => ?_) (Nat.le_succ _) (Nat.lt_succ_self _) ?_ (fun t htm => ?_) ht.nodup (fun q => ?_)
      (fun _ => ht.timerSet) hnamed
    · simp only [Loc.places, hst, List.nil_append, List.map_cons]
      exact List.nodup_cons.2 ⟨hnp, hnd⟩
    · simp only [Loc.places, hst, List.nil_append, List.map_cons, List.mem_cons]
    · simp only [hst]
      simp
    · rcases List.mem_cons.1 htm with rfl | htm
      · exact .inl ⟨rfl, hnew.2.2.2.2.2⟩
      · have hm := List.mem_map_of_mem (f := Task.state) htm
        exact .inr ⟨fun he => hnp (he ▸ hm), hm⟩
    · rw [ht.mem, ht.timerSet]
  | reuse r p states state state' timers hst hp hr hh hcount hmem huse ht =>
    have hnamed := h.toNamed.take { x.loc with
        heap := Function.update x.loc.heap p (some state'), states := states, timers := timers
        tasks := ⟨r, p, .unposted⟩ :: x.loc.tasks
        trace := .acquired r p (some (state, decide (p ∈ x.loc.timers))) :: x.loc.trace } hr
      [.acquired r p (some (state, decide (p ∈ x.loc.timers)))] rfl (by simp [Kept, Act.request, hr.arrived]) rfl
      List.perm_middle
    have hnd := h.nodup
    have hpm : p ∈ x.loc.places := h.mem_places hp
    simp only [Loc.places, hst, List.cons_append] at hnd
    obtain ⟨hpn, hnd⟩ := List.nodup_cons.1 hnd
    refine h.write rfl ?_ (fun q => ?_) (le_refl _) (h.fresh p hpm) (fun q hq => ?_) (fun t htm => ?_) ht.nodup (fun q => ?_)
      (fun _ => ht.timerSet) hnamed
    · simp only [Loc.places, List.map_cons]
      exact List.perm_middle.nodup_iff.2 (List.nodup_cons.2 ⟨hpn, hnd⟩)
    · rw [hplaces, hst]
      simp only [Loc.places, List.map_cons, List.mem_append, List.mem_cons]
      tauto
    · refine .inr ⟨fun he => hpn (he ▸ List.mem_append_left _ hq), ?_⟩
      rw [hst]
      exact List.mem_cons_of_mem _ hq
    · rcases List.mem_cons.1 htm with rfl | htm
      · exact .inl ⟨rfl, huse⟩
      · have hm := List.mem_map_of_mem (f := Task.state) htm
        exact .inr ⟨fun he => hpn (he ▸ List.mem_append_right _ hm), hm⟩
    · rw [ht.mem, ht.timerSet]
  | post t htm hph =>
    have hs := map_phase_state x.loc.tasks t.request .posted
    have hr := map_phase_request x.loc.tasks t.request .posted
    refine ⟨h.toNamed.same [] rfl (by simp [Kept]) (le_refl _) rfl hr, ?_, ?_, ?_, h.idle, fun t' ht' st hst => ?_,
      h.timersNodup, h.timer, h.armed⟩
    · simp only [postTask, Loc.places, hs]
      exact h.nodup
    · simp only [postTask, Loc.places, hs]
      exact h.live
    · simp only [postTask, Loc.places, hs]
      exact h.fresh
    · have hm := List.mem_map_of_mem (f := Task.state) ht'
      simp only [postTask, hs] at hm
      obtain ⟨t₀, ht₀, hs₀⟩ := List.mem_map.1 hm
      exact h.busy t₀ ht₀ st (hs₀ ▸ hst)
  | run t state state' log error setclose htm hph hp hran =>
    have hs := map_phase_state x.loc.tasks t.request .done
    have hr := map_phase_request x.loc.tasks t.request .done
    have htp : t.state ∈ x.loc.tasks.map Task.state := List.mem_map_of_mem htm
    have hpm : t.state ∈ x.loc.places := List.mem_append_right _ htp
    obtain ⟨-, -, hmax, hto, htev, hus⟩ := hran.same
    have hfin : state'.finite = state.finite := by simp only [LuaState.finite, hmax, hto]
    refine h.write rfl ?_ (fun q => ?_) (le_refl _) (h.fresh _ hpm) (fun q hq => ?_) (fun t' ht' => ?_) h.timersNodup
      (fun q => ?_) (fun htd => ?_) ?_
    · simp only [Loc.places, hs]
      exact h.nodup
    · simp only [Loc.places, hs]
      rw [show q ∈ x.loc.states ++ x.loc.tasks.map Task.state ↔ q ∈ x.loc.places from Iff.rfl]
      constructor
      · exact Or.inr
      · rintro (rfl | hq)
        · exact hpm
        · exact hq
    · exact .inr ⟨fun he => h.idle_not_task (he ▸ hq) htp, hq⟩
    · have hm := List.mem_map_of_mem (f := Task.state) ht'
      simp only [hs] at hm
      by_cases he : t'.state = t.state
      · exact .inl ⟨he, by rw [hus]; exact h.busy t htm state hp⟩
      · exact .inr ⟨he, hm⟩
    · dsimp only
      by_cases he : q = t.state
      · subst he
        rw [h.timer_iff hp, htev]
        simp
      · simp [he]
    · rw [htev] at htd ⊢
      rw [hfin]
      exact h.armed _ state hp htd
    · refine h.toNamed.same [.ran t.request t.state log error setclose] rfl ?_ (le_refl _) rfl hr
      simpa [Kept, Act.request] using h.arrived _ (List.mem_append_right _ (List.mem_map_of_mem htm))
  | giveUp t state htm hph hp =>
    have htp : t.state ∈ x.loc.tasks.map Task.state := List.mem_map_of_mem htm
    refine h.free rfl ?_ (fun q => ?_) rfl (fun q hq => hq) (fun t' ht' => List.mem_of_mem_filter ht') rfl
      (h.toNamed.drop htm [.closed t.state false] rfl (by simp [Kept, Act.request]) rfl rfl rfl)
    · exact h.nodup.sublist (List.Sublist.append_left (List.filter_sublist.map Task.state) _)
    · rw [Loc.places, List.mem_append, h.mem_drop_task htm, hplaces]
      constructor
      · rintro (hq | hq)
        · exact ⟨fun he => h.idle_not_task (he ▸ hq) htp, .inl hq⟩
        · exact ⟨hq.1, .inr hq.2⟩
      · rintro ⟨hne, hq | hq⟩
        · exact .inl hq
        · exact .inr ⟨hne, hq⟩
  | giveBack t state state' timers htm hph hp hh hcount hreuse hmem huse ht =>
    have htp : t.state ∈ x.loc.tasks.map Task.state := List.mem_map_of_mem htm
    have hsub : List.Sublist ((x.loc.tasks.filter (fun t' => t'.request ≠ t.request)).map Task.state)
        (x.loc.tasks.map Task.state) := List.filter_sublist.map Task.state
    refine h.write rfl ?_ (fun q => ?_) (le_refl _) (h.fresh _ (List.mem_append_right _ htp)) (fun q hq => ?_)
      (fun t' ht' => ?_) ht.nodup (fun q => ?_) (fun _ => ht.timerSet)
      (h.toNamed.drop htm [] rfl (by simp [Kept]) rfl rfl rfl)
    · simp only [Loc.places, List.cons_append]
      refine List.nodup_cons.2 ⟨fun hm => ?_, h.nodup.sublist (List.Sublist.append_left hsub _)⟩
      rcases List.mem_append.1 hm with hm | hm
      · exact h.idle_not_task hm htp
      · exact ((h.mem_drop_task htm _).1 hm).1 rfl
    · rw [hplaces, Loc.places, List.cons_append, List.mem_cons, List.mem_append, h.mem_drop_task htm]
      constructor
      · rintro (rfl | hq | hq)
        · exact .inl rfl
        · exact .inr (.inl hq)
        · exact .inr (.inr hq.2)
      · rintro (rfl | hq | hq)
        · exact .inl rfl
        · exact .inr (.inl hq)
        · by_cases he : q = t.state
          · exact .inl he
          · exact .inr (.inr ⟨he, hq⟩)
    · rcases List.mem_cons.1 hq with rfl | hq
      · exact .inl ⟨rfl, huse, hreuse.2.1⟩
      · exact .inr ⟨fun he => h.idle_not_task (he ▸ hq) htp, hq⟩
    · have hm := List.mem_map_of_mem (f := Task.state) ht'
      exact .inr ((h.mem_drop_task htm _).1 hm)
    · rw [ht.mem, ht.timerSet]
  | expireBusy p state hp huse =>
    have hpm := h.mem_places hp
    refine h.write rfl h.nodup (fun q => ⟨.inr, ?_⟩) (le_refl _) (h.fresh p hpm) (fun q hq => .inr ⟨?_, hq⟩) (fun t ht => ?_)
      (h.timersNodup.erase p) (fun q => ?_) (fun htd => by cases htd)
      (h.toNamed.same [.expired p] rfl (by simp [Kept, Act.request]) (le_refl _) rfl rfl)
    · rintro (rfl | hq)
      · exact hpm
      · exact hq
    · rintro rfl
      have := (h.idle q hq state hp).1
      rw [huse] at this
      cases this
    · by_cases he : t.state = p
      · exact .inl ⟨he, huse⟩
      · exact .inr ⟨he, List.mem_map_of_mem ht⟩
    · rw [h.timersNodup.mem_erase_iff]
      simp
  | expireIdle p state hmem hp =>
    refine h.free rfl ?_ (fun q => ?_) rfl (fun q hq => List.mem_of_mem_erase hq) (fun t ht => ht) rfl
      (h.toNamed.same [.closed p false, .expired p] rfl (by simp [Kept, Act.request]) (le_refl _) rfl rfl)
    · exact h.nodup.sublist (List.Sublist.append_right List.erase_sublist _)
    · rw [Loc.places, List.mem_append, (List.nodup_append.1 h.nodup).1.mem_erase_iff, hplaces]
      constructor
      · rintro (hq | hq)
        · exact ⟨hq.1, .inl hq.2⟩
        · exact ⟨fun he => h.idle_not_task hmem (he ▸ hq), .inr hq⟩
      · rintro ⟨hne, hq | hq⟩
        · exact .inl ⟨hne, hq⟩
        · exact .inr hq
  | cleanup p states state hst hp =>
    have hnd := h.nodup
    simp only [Loc.places, hst, List.cons_append] at hnd
    obtain ⟨hpn, hnd⟩ := List.nodup_cons.1 hnd
    refine h.free rfl hnd (fun q => ?_) rfl (fun q hq => by rw [hst]; exact List.mem_cons_of_mem _ hq) (fun t ht => ht) rfl
      (h.toNamed.same [.closed p false] rfl (by simp [Kept, Act.request]) (le_refl _) rfl rfl)
    · rw [hplaces, hst, Loc.places, List.mem_append, List.mem_cons]
      constructor
      · rintro hq
        exact ⟨fun he => hpn (he ▸ List.mem_append.2 hq), hq.imp_left .inr⟩
      · rintro ⟨hne, (rfl | hq) | hq⟩
        · exact absurd rfl hne
        · exact .inl hq
        · exact .inr hq
  | arrive =>
    exact h.requests rfl rfl rfl rfl (le_refl _) (h.toNamed.same [] rfl (by simp [Kept]) (Nat.le_succ _) rfl rfl)
  | finalize r rc hr =>
    exact h.requests rfl rfl rfl rfl (le_refl _)
      (h.toNamed.same [.finalized r rc] rfl (by simpa [Kept, Act.request, World.finalize, Loc.note] using hr) (le_refl _) rfl
        rfl)
  | queue r hr hnew hroom hmax =>
    refine h.requests rfl rfl rfl rfl (le_refl _)
      (h.toNamed.take _ hr [.queued r] rfl (by simp [Kept, Act.request, hr.arrived]) rfl ?_)
    simp only [List.append_assoc, List.singleton_append]
    exact List.perm_middle
  | dequeue r requests hreq => exact h.requests rfl rfl rfl rfl (le_refl _) (h.toNamed.pop hreq)
  | setQev qev =>
    exact h.requests rfl rfl rfl rfl (le_refl _) (h.toNamed.same [] rfl (by simp [Kept]) (le_refl _) rfl rfl)

end Lws

import Mathlib.Logic.Relation
import Lws.ChunkSequence
/-!
# Location — Lua states, requests and the handlers of one location (`lws_state.c`, `lws_module.c`)

The state of one location in one worker: its idle Lua states, its queued requests, the memory its Lua states live in, and the
timers armed for them.  A handler takes the outcomes of what it calls (allocations, Lua, the clock) as arguments; `none` is the
use of a state that is freed or not linked.  The trace, latest first, is a record that no handler reads.
-/
namespace Lws

variable {w : Nat}

/-- `ngx_event_t`, as a timer. -/
structure Timer (w : Nat) where
  timerSet : Bool := false
  timedout : Bool := false
  key : BitVec w := 0
deriving DecidableEq

def timerInfinite (w : Nat) : BitVec w := BitVec.allOnes w

/-- `lws_state_t`. -/
structure LuaState (w : Nat) where
  memoryUsed : BitVec w := 0
  memoryMonitor : BitVec w := 0
  requestCount : Int := 0
  timeMax : BitVec w := 0
  timeout : BitVec w := 0
  tev : Timer w := {}
  inUse : Bool := false
  init : Bool := false
  close : Bool := false
deriving DecidableEq

structure LocConf (w : Nat) where
  statesMax : BitVec w := 0
  requestsMax : BitVec w := 0
  stateMemoryMax : BitVec w := 0
  stateGc : BitVec w := 0
  stateRequestsMax : Int := 0
  stateTimeMax : BitVec w := 0
  stateTimeout : BitVec w := 0
  chunks : ChunkConf := {}

/-- `lws_monitor_t`, its counters. -/
structure Monitor (w : Nat) where
  statesN : BitVec w := 0
  requestsN : BitVec w := 0
  memoryUsed : BitVec w := 0
  requestCount : BitVec w := 0
deriving DecidableEq

inductive Phase where
  | unposted
  | posted
  | done
deriving DecidableEq, Repr

/-- A request that has a Lua state: `ctx->state`, and its task. -/
structure Task where
  request : Nat
  state : Nat
  phase : Phase
deriving DecidableEq, Repr

inductive Act (w : Nat) where
  | initFailed
  | created (state : Nat)
  /-- A request takes a state; an idle one as it was, with whether a timer was armed for it. -/
  | acquired (request state : Nat) (idle : Option (LuaState w × Bool))
  | ran (request state : Nat) (log : List (Chunk × Bool)) (error setclose : Bool)
  | released (request state : Nat)
  /-- `lws_close_state`, with whether a task was running on the state. -/
  | closed (state : Nat) (running : Bool)
  | expired (state : Nat)
  | queued (request : Nat)
  | dequeued (request : Nat)
  | finalized (request : Nat) (rc : Int)

/-- One location: `llcf->states_n`, `requests_n`, `states`, `requests` and `qev.timer_set`, the Lua states by address, the
states that a timer is armed for, and the requests that have a state. -/
structure Loc (w : Nat) where
  statesN : BitVec w := 0
  requestsN : BitVec w := 0
  states : List Nat := []
  requests : List Nat := []
  qev : Bool := false
  heap : Nat → Option (LuaState w) := fun _ => none
  next : Nat := 0
  timers : List Nat := []
  tasks : List Task := []
  arrived : Nat := 0
  trace : List (Act w) := []

structure World (w : Nat) where
  loc : Loc w := {}
  monitor : Option (Monitor w) := none

/-- The outcome of `lws_create_state`: no memory, `lua_newstate` fails, `lws_init` fails, or none of these. -/
inductive Creation where
  | calloc
  | newstate
  | init
  | ok
deriving DecidableEq, Repr

/-- What `lws_release_state` reads: the memory in use, the memory in use after a collection, and the clock. -/
structure Release (w : Nat) where
  used : BitVec w := 0
  collected : BitVec w := 0
  now : BitVec w := 0

/-- What one `lws_state_handler` meets. -/
structure Attempt (w : Nat) where
  create : Creation := .ok
  memory : BitVec w := 0
  now : BitVec w := 0
  task : Bool := true
  post : Bool := true
  release : Release w := {}

def Loc.note (l : Loc w) (a : Act w) : Loc w := { l with trace := a :: l.trace }

def Loc.places (l : Loc w) : List Nat := l.states ++ l.tasks.map Task.state

def Loc.running (l : Loc w) (p : Nat) : Bool := l.tasks.any (fun t => t.state = p && t.phase = .posted)

/-! ## `lws_state.c` -/

/-- `lws_set_state_timer`: the state and the armed timers afterwards. -/
def setStateTimer (now : BitVec w) (p : Nat) (state : LuaState w) (timers : List Nat) : LuaState w × List Nat :=
  let (state, timers) :=
    if state.tev.timerSet then ({ state with tev := { state.tev with timerSet := false } }, timers.erase p)
    else (state, timers)
  if state.timeMax ≠ timerInfinite w ∨ state.timeout ≠ timerInfinite w then
    let next := if state.timeout < state.timeMax then state.timeout else state.timeMax
    ({ state with tev := { state.tev with timerSet := true, key := now + (next - now) } }, p :: timers)
  else (state, timers)

def closeState (now : BitVec w) (p : Nat) (state : LuaState w) (x : World w) : World w :=
  let state := { state with timeMax := timerInfinite w, timeout := timerInfinite w }
  let (state, timers) := setStateTimer now p state x.loc.timers
  { loc := { x.loc with
      timers := timers
      statesN := x.loc.statesN - 1
      heap := Function.update x.loc.heap p none
      trace := .closed p (x.loc.running p) :: x.loc.trace }
    monitor := x.monitor.map fun m =>
      { m with statesN := m.statesN - 1, memoryUsed := m.memoryUsed + (0 - state.memoryMonitor) } }

/-- `lws_create_state`: the new state, if there is one.  There are no more states than addresses. -/
def createState (c : LocConf w) (a : Attempt w) (x : World w) : World w × Option Nat :=
  let p := x.loc.next
  let state : LuaState w := { memoryUsed := a.memory }
  if a.create = .calloc ∨ 2 ^ w ≤ x.loc.places.length + 1 then (x, none)
  else if a.create = .newstate then (x, none)
  else
    let x := { x with loc := { x.loc with heap := Function.update x.loc.heap p (some state), next := p + 1 } }
    if a.create = .init then (closeState a.now p state { x with loc := x.loc.note .initFailed }, none)
    else
      let state := { state with
        timeMax := if c.stateTimeMax ≠ 0 then a.now + c.stateTimeMax else timerInfinite w
        timeout := timerInfinite w }
      let (state, timers) := setStateTimer a.now p state x.loc.timers
      ({ loc := { x.loc with
          heap := Function.update x.loc.heap p (some state)
          timers := timers
          statesN := x.loc.statesN + 1
          trace := .created p :: x.loc.trace }
         monitor := x.monitor.map fun m => { m with statesN := m.statesN + 1 } }, some p)

/-- The end of `lws_acquire_state`: the state is in use by the request. -/
def attach (request p : Nat) (state : LuaState w) (idle : Option (LuaState w × Bool)) (x : World w) : World w :=
  { x with loc := { x.loc with
      heap := Function.update x.loc.heap p (some { state with inUse := true })
      tasks := ⟨request, p, .unposted⟩ :: x.loc.tasks
      trace := .acquired request p idle :: x.loc.trace } }

/-- `lws_acquire_state`; the inner `none` is its failure. -/
def acquireState (c : LocConf w) (request : Nat) (a : Attempt w) (x : World w) : Option (World w × Option Nat) :=
  match x.loc.states with
  | p :: states =>
    match x.loc.heap p with
    | none => none
    | some state =>
      let idle := (state, decide (p ∈ x.loc.timers))
      let (state, timers) :=
        if c.stateTimeout > 0 then setStateTimer a.now p { state with timeout := timerInfinite w } x.loc.timers
        else (state, x.loc.timers)
      some (attach request p state (some idle) { x with loc := { x.loc with states := states, timers := timers } }, some p)
  | [] =>
    match createState c a x with
    | (x, none) => some (x, none)
    | (x, some p) =>
      match x.loc.heap p with
      | none => none
      | some state => some (attach request p state none x, some p)

/-- The memory part of `lws_release_state`: `memory_used` after it. -/
def releaseMemory (c : LocConf w) (monitored : Bool) (e : Release w) (used : BitVec w) : BitVec w :=
  let used := if c.stateMemoryMax = 0 ∧ (c.stateGc > 0 ∨ monitored) then e.used else used
  if c.stateGc > 0 ∧ used > c.stateGc then e.collected else used

def releaseState (c : LocConf w) (request : Nat) (e : Release w) (x : World w) : Option (World w) :=
  match x.loc.tasks.find? (fun t => t.request = request) with
  | none => none
  | some t =>
    match x.loc.heap t.state with
    | none => none
    | some state =>
      let p := t.state
      let tasks := x.loc.tasks.filter (fun t => t.request ≠ request)
      let state := { state with requestCount := state.requestCount + 1 }
      let x := { loc := x.loc.note (.released request p)
                 monitor := x.monitor.map fun m => { m with requestCount := m.requestCount + 1 } }
      if state.close ∨ state.tev.timedout ∨ (c.stateRequestsMax > 0 ∧ state.requestCount ≥ c.stateRequestsMax) then
        let x := closeState e.now p state x
        some { x with loc := { x.loc with tasks := tasks } }
      else
        let state := { state with memoryUsed := releaseMemory c x.monitor.isSome e state.memoryUsed }
        let monitor := x.monitor.map fun m => { m with memoryUsed := m.memoryUsed + (state.memoryUsed - state.memoryMonitor) }
        let state := if x.monitor.isSome then { state with memoryMonitor := state.memoryUsed } else state
        let (state, timers) :=
          if c.stateTimeout > 0 then setStateTimer e.now p { state with timeout := e.now + c.stateTimeout } x.loc.timers
          else (state, x.loc.timers)
        some { loc := { x.loc with
                 heap := Function.update x.loc.heap p (some { state with inUse := false })
                 timers := timers
                 tasks := tasks
                 states := p :: x.loc.states }
               monitor := monitor }

/-- `lws_state_timer_handler`, when the timer of a state expires. -/
def stateTimerHandler (p : Nat) (now : BitVec w) (x : World w) : Option (World w) :=
  match x.loc.heap p with
  | none => none
  | some state =>
    let state := { state with tev := { state.tev with timerSet := false, timedout := true } }
    let x := { x with loc := { x.loc with
      timers := x.loc.timers.erase p
      heap := Function.update x.loc.heap p (some state)
      trace := .expired p :: x.loc.trace } }
    if !state.inUse then
      if p ∈ x.loc.states then some (closeState now p state { x with loc := { x.loc with states := x.loc.states.erase p } })
      else none
    else some x

/-! ## `lws_module.c` -/

def cleanupLoop (now : BitVec w) : Nat → World w → Option (World w)
  | 0, x => some x
  | fuel + 1, x =>
    match x.loc.states with
    | [] => some x
    | p :: states =>
      match x.loc.heap p with
      | none => none
      | some state => cleanupLoop now fuel (closeState now p state { x with loc := { x.loc with states := states } })

def cleanupLocConf (now : BitVec w) (x : World w) : Option (World w) := cleanupLoop now x.loc.states.length x

/-- `ngx_http_finalize_request` of a request that a handler gives up. -/
def World.finalize (x : World w) (request : Nat) (rc : Int) : World w :=
  { x with loc := x.loc.note (.finalized request rc) }

def postTask (request : Nat) (x : World w) : World w :=
  { x with loc := { x.loc with
      tasks := x.loc.tasks.map fun t => if t.request = request then { t with phase := .posted } else t } }

def stateHandler (c : LocConf w) (request : Nat) (a : Attempt w) (x : World w) : Option (World w) :=
  match acquireState c request a x with
  | none => none
  | some (x, none) => some (x.finalize request 500)
  | some (x, some _) =>
    if !a.task then (releaseState c request a.release x).map (fun x => x.finalize request 500)
    else if !a.post then (releaseState c request a.release x).map (fun x => x.finalize request 500)
    else some (postTask request x)

/-- The admission test of `lws_body_handler` and `lws_queue_handler`. -/
def Loc.admits (c : LocConf w) (l : Loc w) : Bool :=
  !l.states.isEmpty || c.statesMax = 0 || decide (l.statesN < c.statesMax)

/-- `lws_body_handler`, for the next request; `opened` says whether its body could be opened. -/
def bodyHandler (c : LocConf w) (opened : Bool) (a : Attempt w) (x : World w) : Option (World w) :=
  let request := x.loc.arrived
  let x := { x with loc := { x.loc with arrived := request + 1 } }
  if !opened then some (x.finalize request 500)
  else if x.loc.admits c then stateHandler c request a x
  else if c.requestsMax = 0 ∨ x.loc.requestsN < c.requestsMax then
    some { loc := { x.loc with
             requestsN := x.loc.requestsN + 1
             requests := x.loc.requests ++ [request]
             trace := .queued request :: x.loc.trace }
           monitor := x.monitor.map fun m => { m with requestsN := m.requestsN + 1 } }
  else some (x.finalize request 503)

def drainLoop (c : LocConf w) (attempts : Nat → Attempt w) : Nat → World w → Option (World w)
  | 0, x => some x
  | fuel + 1, x =>
    match x.loc.requests with
    | [] => some x
    | request :: requests =>
      if x.loc.admits c then
        let x := { loc := { x.loc with
                     requests := requests
                     requestsN := x.loc.requestsN - 1
                     trace := .dequeued request :: x.loc.trace }
                   monitor := x.monitor.map fun m => { m with requestsN := m.requestsN - 1 } }
        match stateHandler c request (attempts fuel) x with
        | none => none
        | some x => drainLoop c attempts fuel x
      else some x

/-- `lws_queue_handler`, when the timer of `qev` expires. -/
def queueHandler (c : LocConf w) (attempts : Nat → Attempt w) (x : World w) : Option (World w) :=
  let x := { x with loc := { x.loc with qev := false } }
  drainLoop c attempts x.loc.requests.length x

/-- `lws_thread_handler`: the run of a task on its state, and its completion. -/
def threadHandler (c : LocConf w) (request : Nat) (env : RunEnv) (beh : Chunk → Behaviour) (memory : BitVec w)
    (x : World w) : Option (World w) :=
  match x.loc.tasks.find? (fun t => t.request = request) with
  | none => none
  | some t =>
    match x.loc.heap t.state with
    | none => none
    | some state =>
      let run := lwsRunState c.chunks env beh { init := state.init, close := state.close }
      let state := { state with init := run.init, close := run.close, memoryUsed := memory }
      some { x with loc := { x.loc with
        heap := Function.update x.loc.heap t.state (some state)
        tasks := x.loc.tasks.map fun t => if t.request = request then { t with phase := .done } else t
        trace := .ran request t.state run.log (decide (run.ctx.rc < 0)) (closes beh run.log) :: x.loc.trace } }

/-- `lws_finalization_handler`, up to its response. -/
def finalizationHandler (c : LocConf w) (request : Nat) (e : Release w) (x : World w) : Option (World w) :=
  match releaseState c request e x with
  | none => none
  | some x => if !x.loc.requests.isEmpty && !x.loc.qev then some { x with loc := { x.loc with qev := true } } else some x

/-! ## Runs -/

inductive Event (w : Nat) where
  | body (opened : Bool) (a : Attempt w)
  | thread (request : Nat) (env : RunEnv) (beh : Chunk → Behaviour) (memory : BitVec w)
  | finalization (request : Nat) (e : Release w)
  | queue (attempts : Nat → Attempt w)
  | stateTimer (p : Nat) (now : BitVec w)
  | cleanup (now : BitVec w)

/-- When an event can happen: a timer expires that is armed, a task runs that is posted, and completes once; there are no more
queued requests than addresses. -/
def Enabled (l : Loc w) : Event w → Prop
  | .body _ _ => l.requests.length + 1 < 2 ^ w
  | .thread request _ _ _ => ∃ t ∈ l.tasks, t.request = request ∧ t.phase = .posted
  | .finalization request _ => ∃ t ∈ l.tasks, t.request = request ∧ t.phase = .done
  | .queue _ => l.qev = true
  | .stateTimer p _ => p ∈ l.timers
  | .cleanup _ => True

def handle (c : LocConf w) (x : World w) : Event w → Option (World w)
  | .body opened a => bodyHandler c opened a x
  | .thread request env beh memory => threadHandler c request env beh memory x
  | .finalization request e => finalizationHandler c request e x
  | .queue attempts => queueHandler c attempts x
  | .stateTimer p now => stateTimerHandler p now x
  | .cleanup now => cleanupLocConf now x

/-- An attempt of the event to create a state would fail in `lws_init`. -/
def Event.failsInit : Event w → Prop
  | .body _ a => a.create = .init
  | .queue attempts => ∃ n, (attempts n).create = .init
  | _ => False

/-- One event of a location, of the events `ok`. -/
def Step (c : LocConf w) (ok : Event w → Prop) (x x' : World w) : Prop :=
  ∃ e, ok e ∧ Enabled x.loc e ∧ handle c x e = some x'

/-- A location after a run of the events `ok`, with or without a monitor. -/
def ReachableBy (c : LocConf w) (ok : Event w → Prop) (x : World w) : Prop :=
  ∃ monitored : Bool, Relation.ReflTransGen (Step c ok) { monitor := if monitored then some {} else none } x

abbrev Reachable (c : LocConf w) (x : World w) : Prop := ReachableBy c (fun _ => True) x

end Lws

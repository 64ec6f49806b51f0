import Lws.Inherit
import Lws.ErrorResponse
/-!
# Conf — the directives of the configuration (`lws_module.c`, `lws_monitor.c`)

A block of the configuration is a list of directives.  Each has a setter, which changes the configuration of the block, the
content handler of the location or the main configuration, or refuses the directive.  What the setters call of nginx is `NgxConf`.
An unset value is `none`; the numbers that stand for it in the source are not results of the parsers of nginx.
-/
namespace Lws

inductive Command where
  | lwsThreadPool
  | lwsStatCache
  | lws
  | lwsInit
  | lwsPre
  | lwsPost
  | lwsPath
  | lwsCpath
  | lwsMaxStates
  | lwsMaxMemory
  | lwsGc
  | lwsMaxRequests
  | lwsMaxTime
  | lwsTimeout
  | lwsVariable
  | lwsErrorResponse
  | lwsStreaming
  | lwsMonitor
deriving DecidableEq, Repr

inductive ConfContext where
  | main
  | srv
  | loc
deriving DecidableEq, Repr

def Command.contexts : Command → List ConfContext
  | .lwsThreadPool | .lwsStatCache => [.main]
  | .lws | .lwsMonitor => [.loc]
  | _ => [.srv, .loc]

/-- The numbers of arguments in the `type` of a command. -/
def Command.takes : Command → List Nat
  | .lwsMonitor => [0]
  | .lwsStatCache => [2]
  | .lws | .lwsMaxStates | .lwsErrorResponse => [1, 2]
  | _ => [1]

/-- A directive and its arguments: `cf->args`, without the name. -/
structure Directive where
  command : Command
  args : List Key
deriving DecidableEq

def Directive.value (d : Directive) (i : Nat) : Key := d.args.getD (i - 1) []

/-- `cf->args->nelts`. -/
def Directive.nelts (d : Directive) : Nat := d.args.length + 1

structure LwsVariable where
  name : Key
  index : Nat
deriving DecidableEq, Repr

inductive ContentHandler where
  | lwsHandler
  | lwsMonitorHandler
deriving DecidableEq, Repr

/-- What the setters call of nginx: `ngx_parse_size`, `ngx_parse_time` in seconds and in milliseconds, `ngx_atoi`,
`ngx_http_compile_complex_value`, with its flag for a zero byte after the value, and `ngx_http_get_variable_index`.  None is
`NGX_ERROR`. -/
structure NgxConf (CV : Type) where
  parseSize : Key → Option Nat
  parseSec : Key → Option Nat
  parseMsec : Key → Option Nat
  atoi : Key → Option Nat
  compile (zero : Bool) : Key → Option CV
  variableIndex : Key → Option Nat

/-- `lws_loc_conf_t`, what is configured of it; `vars` are its `variables`. -/
@[ext]
structure LwsLocConf (CV : Type) where
  main : Option CV := none
  pathInfo : Option CV := none
  init : Option Key := none
  pre : Option Key := none
  post : Option Key := none
  path : Option Key := none
  cpath : Option Key := none
  statesMax : Option Nat := none
  requestsMax : Option Nat := none
  stateMemoryMax : Option Nat := none
  stateGc : Option Nat := none
  stateRequestsMax : Option Nat := none
  stateTimeMax : Option Nat := none
  stateTimeout : Option Nat := none
  errorResponse : Option LwsErrorResponse := none
  diagnostic : Option Bool := none
  streaming : Option Bool := none
  monitor : Bool := false
  vars : List LwsVariable := []
deriving DecidableEq

/-- `lws_main_conf_t`, what is configured of it; `monitorShm` is that the zone has been added. -/
structure LwsMainConf where
  threadPoolName : Option Key := none
  statCacheCap : Option Nat := none
  statCacheTimeout : Option Nat := none
  monitorShm : Bool := false
deriving DecidableEq

/-- What a setter changes: the configuration of the block, `clcf->handler`, and the main configuration. -/
structure ConfState (CV : Type) where
  llcf : LwsLocConf CV := {}
  handler : Option ContentHandler := none
  lmcf : LwsMainConf := {}
deriving DecidableEq

/-- A setter returns `NGX_CONF_OK`, a text, or `NGX_CONF_ERROR`, which is no text. -/
abbrev ConfResult (α : Type) := Except (Option String) α

/-! ## The slots of nginx -/

/-- `ngx_conf_set_str_slot`, `ngx_conf_set_size_slot` and so on: a field that is set is a duplicate, and a value may be invalid. -/
def ngxConfSetSlot {α : Type} (field : Option α) (parsed : Option α) (invalid : Option String) : ConfResult α :=
  if field.isSome then .error (some "is duplicate")
  else
    match parsed with
    | none => .error invalid
    | some v => .ok v

/-- `ngx_strcasecmp(..) == 0` with a literal in lower case. -/
def isWord (arg : Key) (word : String) : Bool := arg.map ngxTolower = literal word

/-- The values of `ngx_conf_set_flag_slot`. -/
def parseFlag (arg : Key) : Option Bool :=
  if isWord arg "on" then some true else if isWord arg "off" then some false else none

def parseErrorResponse (arg : Key) : Option LwsErrorResponse :=
  if isWord arg "json" then some .json else if isWord arg "html" then some .html else none

/-! ## The setters -/

section
variable {CV : Type} (ngx : NgxConf CV) (d : Directive) (s : ConfState CV)

def lwsStatCache : ConfResult (ConfState CV) :=
  if s.lmcf.statCacheCap.isSome then .error (some "is duplicate")
  else
    match ngx.parseSize (d.value 1) with
    | none => .error (some "has invalid cap value")
    | some cap =>
      match ngx.parseSec (d.value 2) with
      | none => .error (some "has invalid timeout value")
      | some timeout => .ok { s with lmcf := { s.lmcf with statCacheCap := some cap, statCacheTimeout := some timeout } }

def lws : ConfResult (ConfState CV) :=
  if s.llcf.main.isSome then .error (some "is duplicate")
  else if s.llcf.monitor then .error (some "is exclusive with lws_monitor directive")
  else
    match ngx.compile true (d.value 1) with
    | none => .error none
    | some main =>
      let llcf := { s.llcf with main := some main }
      if d.nelts ≥ 3 then
        match ngx.compile false (d.value 2) with
        | none => .error none
        | some pathInfo => .ok { s with llcf := { llcf with pathInfo := some pathInfo }, handler := some .lwsHandler }
      else .ok { s with llcf := llcf, handler := some .lwsHandler }

def lwsMaxStates : ConfResult (ConfState CV) :=
  if s.llcf.statesMax.isSome then .error (some "is duplicate")
  else
    match ngx.parseSize (d.value 1) with
    | none => .error (some "has invalid max_states value")
    | some statesMax =>
      let llcf := { s.llcf with statesMax := some statesMax }
      if d.nelts ≥ 3 then
        match ngx.parseSize (d.value 2) with
        | none => .error (some "has invalid max_requests value")
        | some requestsMax => .ok { s with llcf := { llcf with requestsMax := some requestsMax } }
      else .ok { s with llcf := llcf }

def lwsVariable : ConfResult (ConfState CV) :=
  match ngx.variableIndex (d.value 1) with
  | none => .error (some "has invalid variable name")
  | some index => .ok { s with llcf := { s.llcf with vars := s.llcf.vars ++ [⟨d.value 1, index⟩] } }

def errorResponseLoop : List Key → Bool → ConfResult Bool
  | [], diagnostic => .ok diagnostic
  | value :: values, _ => if isWord value "diagnostic" then errorResponseLoop values true else .error none

def lwsErrorResponse : ConfResult (ConfState CV) :=
  match ngxConfSetSlot s.llcf.errorResponse (parseErrorResponse (d.value 1)) none with
  | .error e => .error e
  | .ok errorResponse =>
    match errorResponseLoop (d.args.drop 1) false with
    | .error e => .error e
    | .ok diagnostic => .ok { s with llcf := { s.llcf with errorResponse := some errorResponse, diagnostic := some diagnostic } }

def lwsMonitor : ConfResult (ConfState CV) :=
  if s.llcf.monitor then .error (some "is duplicate")
  else if s.llcf.main.isSome then .error (some "is exclusive with lws directive")
  else .ok { s with
    llcf := { s.llcf with monitor := true }
    lmcf := { s.lmcf with monitorShm := true }
    handler := some .lwsMonitorHandler }

/-- The setter of a directive, as `lws_commands` has it. -/
def setDirective : ConfResult (ConfState CV) :=
  match d.command with
  | .lwsThreadPool => (ngxConfSetSlot s.lmcf.threadPoolName (some (d.value 1)) none).map
      fun v => { s with lmcf := { s.lmcf with threadPoolName := some v } }
  | .lwsStatCache => lwsStatCache ngx d s
  | .lws => lws ngx d s
  | .lwsInit => (ngxConfSetSlot s.llcf.init (some (d.value 1)) none).map
      fun v => { s with llcf := { s.llcf with init := some v } }
  | .lwsPre => (ngxConfSetSlot s.llcf.pre (some (d.value 1)) none).map
      fun v => { s with llcf := { s.llcf with pre := some v } }
  | .lwsPost => (ngxConfSetSlot s.llcf.post (some (d.value 1)) none).map
      fun v => { s with llcf := { s.llcf with post := some v } }
  | .lwsPath => (ngxConfSetSlot s.llcf.path (some (d.value 1)) none).map
      fun v => { s with llcf := { s.llcf with path := some v } }
  | .lwsCpath => (ngxConfSetSlot s.llcf.cpath (some (d.value 1)) none).map
      fun v => { s with llcf := { s.llcf with cpath := some v } }
  | .lwsMaxStates => lwsMaxStates ngx d s
  | .lwsMaxMemory => (ngxConfSetSlot s.llcf.stateMemoryMax (ngx.parseSize (d.value 1)) (some "invalid value")).map
      fun v => { s with llcf := { s.llcf with stateMemoryMax := some v } }
  | .lwsGc => (ngxConfSetSlot s.llcf.stateGc (ngx.parseSize (d.value 1)) (some "invalid value")).map
      fun v => { s with llcf := { s.llcf with stateGc := some v } }
  | .lwsMaxRequests => (ngxConfSetSlot s.llcf.stateRequestsMax (ngx.atoi (d.value 1)) (some "invalid number")).map
      fun v => { s with llcf := { s.llcf with stateRequestsMax := some v } }
  | .lwsMaxTime => (ngxConfSetSlot s.llcf.stateTimeMax (ngx.parseMsec (d.value 1)) (some "invalid value")).map
      fun v => { s with llcf := { s.llcf with stateTimeMax := some v } }
  | .lwsTimeout => (ngxConfSetSlot s.llcf.stateTimeout (ngx.parseMsec (d.value 1)) (some "invalid value")).map
      fun v => { s with llcf := { s.llcf with stateTimeout := some v } }
  | .lwsVariable => lwsVariable ngx d s
  | .lwsErrorResponse => lwsErrorResponse d s
  | .lwsStreaming => (ngxConfSetSlot s.llcf.streaming (parseFlag (d.value 1)) none).map
      fun v => { s with llcf := { s.llcf with streaming := some v } }
  | .lwsMonitor => lwsMonitor s

end

/-- `ngx_conf_handler`: a directive stands where it may, with as many arguments as it may have. -/
def ngxConfHandler {CV : Type} (ngx : NgxConf CV) (context : ConfContext) (s : ConfState CV) (d : Directive) :
    ConfResult (ConfState CV) :=
  if context ∉ d.command.contexts then .error (some "directive is not allowed here")
  else if d.args.length ∉ d.command.takes then .error (some "invalid number of arguments")
  else setDirective ngx d s

structure ConfBlock where
  context : ConfContext
  directives : List Directive
deriving DecidableEq

def ngxConfParse {CV : Type} (ngx : NgxConf CV) (block : ConfBlock) (lmcf : LwsMainConf) : ConfResult (ConfState CV) :=
  block.directives.foldlM (ngxConfHandler ngx block.context) { lmcf := lmcf }

/-! ## What a directive sets -/

section
variable {CV : Type} {ngx : NgxConf CV} {d : Directive} {s s' : ConfState CV}

def said {α : Type} (command : Command) (parse : Key → Option α) (d : Directive) : Option α :=
  if d.command = command then parse (d.value 1) else none

/-- What a directive of a command says by its second argument, if it has one. -/
def saidSecond {α : Type} (command : Command) (parse : Key → Option α) (d : Directive) : Option α :=
  if d.command = command ∧ d.nelts ≥ 3 then parse (d.value 2) else none

/-- What `lws_error_response` says of diagnostics: they are included if it has the attribute. -/
def saidDiagnostic (d : Directive) : Option Bool :=
  if d.command = .lwsErrorResponse then some (decide (d.nelts ≥ 3)) else none

def saidVariable (ngx : NgxConf CV) (d : Directive) : Option LwsVariable :=
  if d.command = .lwsVariable then (ngx.variableIndex (d.value 1)).map fun index => ⟨d.value 1, index⟩ else none

/-- **What holds of the configuration of a block after any directives**: what the second argument of a directive sets is not set
without the first, and the content handler is that of `lws` or of `lws_monitor`, which exclude each other. -/
structure ConfState.Sound (s : ConfState CV) : Prop where
  pathInfo : s.llcf.main = none → s.llcf.pathInfo = none
  requestsMax : s.llcf.statesMax = none → s.llcf.requestsMax = none
  diagnostic : s.llcf.errorResponse = none → s.llcf.diagnostic = none
  exclusive : s.llcf.main.isSome → s.llcf.monitor = false
  handler : s.handler =
    if s.llcf.main.isSome then some .lwsHandler else if s.llcf.monitor then some .lwsMonitorHandler else none
  zone : s.llcf.monitor → s.lmcf.monitorShm

open Inherit (Sets)

structure TakesEffect (ngx : NgxConf CV) (d : Directive) (s s' : ConfState CV) : Prop where
  main : Sets (said .lws (ngx.compile true) d) s.llcf.main s'.llcf.main
  pathInfo : Sets (saidSecond .lws (ngx.compile false) d) s.llcf.pathInfo s'.llcf.pathInfo
  init : Sets (said .lwsInit some d) s.llcf.init s'.llcf.init
  pre : Sets (said .lwsPre some d) s.llcf.pre s'.llcf.pre
  post : Sets (said .lwsPost some d) s.llcf.post s'.llcf.post
  path : Sets (said .lwsPath some d) s.llcf.path s'.llcf.path
  cpath : Sets (said .lwsCpath some d) s.llcf.cpath s'.llcf.cpath
  statesMax : Sets (said .lwsMaxStates ngx.parseSize d) s.llcf.statesMax s'.llcf.statesMax
  requestsMax : Sets (saidSecond .lwsMaxStates ngx.parseSize d) s.llcf.requestsMax s'.llcf.requestsMax
  stateMemoryMax : Sets (said .lwsMaxMemory ngx.parseSize d) s.llcf.stateMemoryMax s'.llcf.stateMemoryMax
  stateGc : Sets (said .lwsGc ngx.parseSize d) s.llcf.stateGc s'.llcf.stateGc
  stateRequestsMax : Sets (said .lwsMaxRequests ngx.atoi d) s.llcf.stateRequestsMax s'.llcf.stateRequestsMax
  stateTimeMax : Sets (said .lwsMaxTime ngx.parseMsec d) s.llcf.stateTimeMax s'.llcf.stateTimeMax
  stateTimeout : Sets (said .lwsTimeout ngx.parseMsec d) s.llcf.stateTimeout s'.llcf.stateTimeout
  errorResponse : Sets (said .lwsErrorResponse parseErrorResponse d) s.llcf.errorResponse s'.llcf.errorResponse
  diagnostic : Sets (saidDiagnostic d) s.llcf.diagnostic s'.llcf.diagnostic
  streaming : Sets (said .lwsStreaming parseFlag d) s.llcf.streaming s'.llcf.streaming
  monitor : s'.llcf.monitor = (decide (d.command = .lwsMonitor) || s.llcf.monitor)
  vars : s'.llcf.vars = s.llcf.vars ++ (saidVariable ngx d).toList
  compiled : s'.llcf.main.isSome = (decide (d.command = .lws) || s.llcf.main.isSome)

theorem ngxConfSetSlot_ok {α β : Type} {field parsed : Option α} {invalid : Option String} {g : α → β} {y : β}
    (h : (ngxConfSetSlot field parsed invalid).map g = .ok y) : ∃ v, field = none ∧ parsed = some v ∧ y = g v := by
  unfold ngxConfSetSlot at h
  cases field with
  | some v => cases h
  | none =>
    cases parsed with
    | none => cases h
    | some v => cases h; exact ⟨v, rfl, rfl, rfl⟩

theorem errorResponseLoop_ok : ∀ {values : List Key} {diagnostic diagnostic' : Bool},
    errorResponseLoop values diagnostic = .ok diagnostic' → diagnostic' = (!values.isEmpty || diagnostic)
  | [], _, _, h => by cases h; rfl
  | value :: values, _, _, h => by
    rw [errorResponseLoop] at h
    split at h
    · rw [errorResponseLoop_ok h, Bool.or_true]
      rfl
    · cases h

/-- **`lws` that is taken** is the first in its block, beside no `lws_monitor`. -/
theorem lws_ok {args : List Key} (h : lws ngx ⟨.lws, args⟩ s = .ok s') : ∃ main pathInfo, s.llcf.main = none ∧
    s.llcf.monitor = false ∧ ngx.compile true (Directive.value ⟨.lws, args⟩ 1) = some main ∧
    pathInfo = (saidSecond .lws (ngx.compile false) ⟨.lws, args⟩).or s.llcf.pathInfo ∧
    s' = { s with llcf := { s.llcf with main := some main, pathInfo := pathInfo }, handler := some .lwsHandler } := by
  unfold lws at h
  split at h
  · cases h
  · rename_i hmain
    split at h
    · cases h
    · rename_i hmonitor
      split at h
      · cases h
      · rename_i main hcompile
        dsimp only at h
        refine ⟨main, _, by simpa using hmain, by simpa using hmonitor, hcompile, rfl, ?_⟩
        unfold saidSecond
        split at h
        · rename_i hn
          split at h
          · cases h
          · rename_i pathInfo hinfo
            cases h
            rw [if_pos ⟨rfl, hn⟩, hinfo]
            rfl
        · rename_i hn
          cases h
          rw [if_neg fun h => hn h.2]
          rfl

theorem lws_effect {args : List Key} (hs : s.Sound) (h : lws ngx ⟨.lws, args⟩ s = .ok s') :
    s'.Sound ∧ TakesEffect ngx ⟨.lws, args⟩ s s' := by
  obtain ⟨main, pathInfo, hmain, hmonitor, hcompile, hinfo, rfl⟩ := lws_ok h
  refine ⟨⟨fun h => absurd h (Option.some_ne_none _), hs.requestsMax, hs.diagnostic, fun _ => hmonitor, rfl, hs.zone⟩, ?_⟩
  constructor <;> first
    | exact .keep
    | exact .of_none hmain hcompile
    | exact ⟨hinfo, fun _ => hs.pathInfo hmain⟩
    | rfl
    | exact (List.append_nil _).symm

/-- **`lws_max_states` that is taken** is the first in its block. -/
theorem lwsMaxStates_ok {args : List Key} (h : lwsMaxStates ngx ⟨.lwsMaxStates, args⟩ s = .ok s') : ∃ statesMax requestsMax,
    s.llcf.statesMax = none ∧ ngx.parseSize (Directive.value ⟨.lwsMaxStates, args⟩ 1) = some statesMax ∧
    requestsMax = (saidSecond .lwsMaxStates ngx.parseSize ⟨.lwsMaxStates, args⟩).or s.llcf.requestsMax ∧
    s' = { s with llcf := { s.llcf with statesMax := some statesMax, requestsMax := requestsMax } } := by
  unfold lwsMaxStates at h
  split at h
  · cases h
  · rename_i hmax
    split at h
    · cases h
    · rename_i statesMax hparse
      dsimp only at h
      refine ⟨statesMax, _, by simpa using hmax, hparse, rfl, ?_⟩
      unfold saidSecond
      split at h
      · rename_i hn
        split at h
        · cases h
        · rename_i requestsMax hrequests
          cases h
          rw [if_pos ⟨rfl, hn⟩, hrequests]
          rfl
      · rename_i hn
        cases h
        rw [if_neg fun h => hn h.2]
        rfl

theorem lwsMaxStates_effect {args : List Key} (hs : s.Sound) (h : lwsMaxStates ngx ⟨.lwsMaxStates, args⟩ s = .ok s') :
    s'.Sound ∧ TakesEffect ngx ⟨.lwsMaxStates, args⟩ s s' := by
  obtain ⟨statesMax, requestsMax, hmax, hparse, hrequests, rfl⟩ := lwsMaxStates_ok h
  refine ⟨⟨hs.pathInfo, fun h => absurd h (Option.some_ne_none _), hs.diagnostic, hs.exclusive, hs.handler, hs.zone⟩, ?_⟩
  constructor <;> first
    | exact .keep
    | exact .of_none hmax hparse
    | exact ⟨hrequests, fun _ => hs.requestsMax hmax⟩
    | rfl
    | exact (List.append_nil _).symm

theorem lwsVariable_effect {args : List Key} (hs : s.Sound) (h : lwsVariable ngx ⟨.lwsVariable, args⟩ s = .ok s') :
    s'.Sound ∧ TakesEffect ngx ⟨.lwsVariable, args⟩ s s' := by
  unfold lwsVariable at h
  split at h
  · cases h
  · rename_i index hindex
    cases h
    refine ⟨⟨hs.pathInfo, hs.requestsMax, hs.diagnostic, hs.exclusive, hs.handler, hs.zone⟩, ?_⟩
    have hsaid : saidVariable ngx ⟨.lwsVariable, args⟩ = some ⟨Directive.value ⟨.lwsVariable, args⟩ 1, index⟩ :=
      (if_pos rfl).trans (by rw [hindex]; rfl)
    constructor <;> first
      | exact .keep
      | rfl
      | (rw [hsaid]; rfl)

theorem lwsErrorResponse_effect {args : List Key} (hs : s.Sound) (h : lwsErrorResponse ⟨.lwsErrorResponse, args⟩ s = .ok s') :
    s'.Sound ∧ TakesEffect ngx ⟨.lwsErrorResponse, args⟩ s s' := by
  unfold lwsErrorResponse at h
  split at h
  · cases h
  · rename_i errorResponse hslot
    split at h
    · cases h
    · rename_i diagnostic hloop
      cases h
      obtain ⟨v, hnone, hv, rfl⟩ := ngxConfSetSlot_ok (g := id) (congrArg (Except.map id) hslot)
      have hdiagnostic : saidDiagnostic ⟨.lwsErrorResponse, args⟩ = some diagnostic := by
        rw [saidDiagnostic, if_pos rfl, errorResponseLoop_ok hloop, Bool.or_false]
        rcases args with - | ⟨code, - | ⟨arg, args⟩⟩
        · rfl
        · rfl
        · simp [Directive.nelts]
      refine ⟨⟨hs.pathInfo, hs.requestsMax, fun h => absurd h (Option.some_ne_none _), hs.exclusive, hs.handler, hs.zone⟩, ?_⟩
      constructor <;> first
        | exact .keep
        | exact .of_none hnone hv
        | exact .of_none (hs.diagnostic hnone) hdiagnostic
        | rfl
        | exact (List.append_nil _).symm

theorem lwsMonitor_effect {args : List Key} (hs : s.Sound) (h : lwsMonitor s = .ok s') :
    s'.Sound ∧ TakesEffect ngx ⟨.lwsMonitor, args⟩ s s' := by
  unfold lwsMonitor at h
  split at h
  · cases h
  · split at h
    · cases h
    · rename_i hmain
      have hmain : s.llcf.main = none := by simpa using hmain
      cases h
      refine ⟨⟨hs.pathInfo, hs.requestsMax, hs.diagnostic, fun h => ?_, ?_, fun _ => rfl⟩, ?_⟩
      · rw [hmain] at h
        cases h
      · rw [hmain]
        rfl
      · constructor <;> first
          | exact .keep
          | rfl
          | exact (List.append_nil _).symm

theorem lwsStatCache_effect {args : List Key} (hs : s.Sound) (h : lwsStatCache ngx ⟨.lwsStatCache, args⟩ s = .ok s') :
    s'.Sound ∧ TakesEffect ngx ⟨.lwsStatCache, args⟩ s s' := by
  unfold lwsStatCache at h
  split at h
  · cases h
  · split at h
    · cases h
    · split at h
      · cases h
      · cases h
        refine ⟨⟨hs.pathInfo, hs.requestsMax, hs.diagnostic, hs.exclusive, hs.handler, hs.zone⟩, ?_⟩
        constructor <;> first
          | exact .keep
          | rfl
          | exact (List.append_nil _).symm

/-- **A directive that is taken** leaves the configuration sound, and sets what it says. -/
theorem setDirective_effect (hs : s.Sound) (h : setDirective ngx d s = .ok s') : s'.Sound ∧ TakesEffect ngx d s s' := by
  obtain ⟨command, args⟩ := d
  cases command with
  | lwsThreadPool =>
    obtain ⟨v, -, -, rfl⟩ := ngxConfSetSlot_ok h
    refine ⟨⟨hs.pathInfo, hs.requestsMax, hs.diagnostic, hs.exclusive, hs.handler, hs.zone⟩, ?_⟩
    constructor <;> first | exact .keep | rfl | exact (List.append_nil _).symm
  | lwsStatCache => exact lwsStatCache_effect hs h
  | lws => exact lws_effect hs h
  | lwsMaxStates => exact lwsMaxStates_effect hs h
  | lwsVariable => exact lwsVariable_effect hs h
  | lwsErrorResponse => exact lwsErrorResponse_effect hs h
  | lwsMonitor => exact lwsMonitor_effect hs h
  | _ =>
    obtain ⟨v, hnone, hv, rfl⟩ := ngxConfSetSlot_ok h
    refine ⟨⟨hs.pathInfo, hs.requestsMax, hs.diagnostic, hs.exclusive, hs.handler, hs.zone⟩, ?_⟩
    constructor <;> first | exact .keep | exact .of_none hnone hv | rfl | exact (List.append_nil _).symm

/-- **A directive that stands where it may** leaves the configuration sound, and sets what it says. -/
theorem ngxConfHandler_effect {context : ConfContext} (hs : s.Sound) (h : ngxConfHandler ngx context s d = .ok s') :
    s'.Sound ∧ TakesEffect ngx d s s' := by
  unfold ngxConfHandler at h
  split at h
  · cases h
  · split at h
    · cases h
    · exact setDirective_effect hs h

/-! ## Blocks -/

variable {block : ConfBlock} {lmcf : LwsMainConf}

theorem sound_created (lmcf : LwsMainConf) : ConfState.Sound ({ lmcf := lmcf } : ConfState CV) :=
  ⟨fun _ => rfl, fun _ => rfl, fun _ => rfl, fun h => (by cases h), rfl, fun h => (by cases h)⟩

theorem ngxConfParse_sound (h : ngxConfParse ngx block lmcf = .ok s) : s.Sound := by
  have hlawful : Inherit.Lawful ConfState.Sound (fun s : ConfState CV => s.llcf.main) _ (ngxConfHandler ngx block.context) :=
    fun hs h => (ngxConfHandler_effect hs h).imp_right (·.main)
  exact (hlawful.block block.directives (sound_created lmcf) h).1

/-- **A block that is taken** has of a setting what its directives say. -/
theorem ngxConfParse_setting {α : Type} {get : LwsLocConf CV → Option α} {value : Directive → Option α} (hnone : get {} = none)
    (hget : ∀ {s s' d}, TakesEffect ngx d s s' → Sets (value d) (get s.llcf) (get s'.llcf))
    (h : ngxConfParse ngx block lmcf = .ok s) : get s.llcf = block.directives.findSome? value := by
  have hlawful : Inherit.Lawful ConfState.Sound (fun s : ConfState CV => get s.llcf) value (ngxConfHandler ngx block.context) :=
    fun hs h => (ngxConfHandler_effect hs h).imp_right hget
  have hsets := (hlawful.block block.directives (sound_created lmcf) h).2
  rw [hsets.eq, hnone, Option.or_none]

/-- **A block that is taken** has the variables that its directives declare, in order. -/
theorem ngxConfParse_vars (h : ngxConfParse ngx block lmcf = .ok s) :
    s.llcf.vars = block.directives.filterMap (saidVariable ngx) :=
  Inherit.collection_block (fun s : ConfState CV => s.llcf.vars)
    (fun hs h => (ngxConfHandler_effect hs h).imp_right (·.vars)) block.directives (sound_created lmcf) h

/-- **A block that is taken** has a main chunk if it has the directive. -/
theorem ngxConfParse_main (h : ngxConfParse ngx block lmcf = .ok s) :
    s.llcf.main.isSome = block.directives.any fun d => d.command = .lws :=
  (Inherit.flag_block (fun s : ConfState CV => s.llcf.main.isSome)
    (fun hs h => (ngxConfHandler_effect hs h).imp_right (·.compiled)) block.directives (sound_created lmcf) h).trans
    (Bool.or_false _)

/-- **A block that is taken** is that of the monitor if it has the directive. -/
theorem ngxConfParse_monitor (h : ngxConfParse ngx block lmcf = .ok s) :
    s.llcf.monitor = block.directives.any fun d => d.command = .lwsMonitor :=
  (Inherit.flag_block (fun s : ConfState CV => s.llcf.monitor)
    (fun hs h => (ngxConfHandler_effect hs h).imp_right (·.monitor)) block.directives (sound_created lmcf) h).trans
    (Bool.or_false _)

end

end Lws

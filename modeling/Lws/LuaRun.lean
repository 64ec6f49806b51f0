import Lws.ChunkCache
import Lws.LuaApi
import Lws.TableLayout
/-!
# LuaRun — a run on the stack of its Lua state (`lws_run_state`, `lws_run`, `lws_call`, `lws_push_env`)

The run of `ChunkCache`, as the source has it: with the values on the stack, their indexes, the registry, the metatables, the hook
of the profiler, and a failure wherever Lua or nginx may run out of memory.
-/
namespace Lws

open LuaApi (Value Slots Realm Runtime Api registryIndex ridxGlobals)

inductive CFunction where
  | traceback
  | run
  | startProfiler
  | stopProfiler
  | profilerHook
  | responseNewindex
  | openLws
  | openProfiler
  | log
  | getvariable
  | redirect
  | setcomplete
  | setclose
  | parseargs
  | strictIndex
  | requestCtxTostring
  | tableIndex
  | tableNewindex
  | tablePairs
  | tableTostring
  | tableGc
  | responseIndex
  | fileFlushHook
  | profilerTostring
  | profilerGc
  | lua (n : Nat)
deriving DecidableEq

/-- What a userdata holds: `lws_lua_request_ctx_t`, whose fields are in the run; `lws_lua_table_t`, where `t` tells the request
headers from the response headers; `luaL_Stream`, where `f` tells the bodies; `lws_profiler_t`. -/
inductive Content where
  | requestCtx
  | table (t : Option Bool) (readonly external : Bool)
  | file (f : Option Bool)
  | profiler
deriving DecidableEq

/-- What the program holds: the contexts of the request and the flags of the state (in `run`), `state->profiler`, `ctx->diagnostic`,
the profiles merged into the monitor, and the chunks entered so far, each with its `_ENV`. -/
structure LuaHost where
  run : Run := {}
  profiler : Nat := 0
  diagnostic : NgxStr := {}
  merged : Nat := 0
  entered : List (Chunk × Option (Value CFunction)) := []

abbrev LuaRealm := Realm CFunction Content LuaHost

abbrev Lua (A : Type) := Api CFunction Content LuaHost A

/-! ## Names -/

def lwsRequestCtx : Key := literal "lws.request_ctx"
def lwsRequestCtxCurrent : Key := literal "lws.request_ctx_current"
def lwsTable : Key := literal "lws.table"
def lwsResponse : Key := literal "lws.response"
def lwsChunks : Key := literal "lws.chunks"
def lwsProfiler : Key := literal "lws.profiler"
def lwsProfilerCurrent : Key := literal "lws.profiler_current"
def luaFilehandle : Key := literal "FILE*"

def chunkName : Chunk → Key
  | .init => literal "init"
  | .pre => literal "pre"
  | .main => literal "main"
  | .post => literal "post"

namespace OnStack

/-! ## What is given -/

def registryNames : List Key :=
  [lwsRequestCtx, lwsTable, lwsResponse, luaFilehandle, lwsProfiler, lwsRequestCtxCurrent, lwsProfilerCurrent, lwsChunks]

/-- **What a chunk leaves alone**: the hook, what a run reads of the registry, the stored functions, `__newindex` of the metatable
of responses, and the metatables of userdata, for which Lua code needs the debug library or `getmetatable` of a response.  It may
assign an `_ENV` to the functions of the files `assigned`; what it does to what the program holds is in its steps. -/
structure KeptByLua (assigned : List Key) (w w' : LuaRealm) : Prop where
  next : w.next ≤ w'.next
  hook : w'.hook = w.hook
  host : w'.host = w.host
  globals : (w'.tables 0).get (.integer ridxGlobals) = (w.tables 0).get (.integer ridxGlobals)
  registry : ∀ name ∈ registryNames, (w'.tables 0).get (.string name) = (w.tables 0).get (.string name)
  response : ∀ m, (w.tables 0).get (.string lwsResponse) = .table m →
    (w'.tables m).get (.string LuaApi.newindex) = (w.tables m).get (.string LuaApi.newindex)
  chunks : ∀ c, (w.tables 0).get (.string lwsChunks) = .table c → w'.tables c = w.tables c ∧
    ∀ filename f, (w.tables c).get (.string filename) = .function f →
      w'.upvalue f = w.upvalue f ∨ filename ∈ assigned ∧ ∃ v, w'.upvalue f = some v
  metatables : ∀ u < w.next, (w'.userdata u).bind LuaApi.Userdata.metatable = (w.userdata u).bind LuaApi.Userdata.metatable

/-- What a chunk does: its steps, the files of the functions whose `_ENV` it assigns, what it does to Lua's own values, and its
results or its error. -/
structure ChunkBody where
  steps : List LuaAction := []
  assigned : List Key := []
  effect : LuaRealm → LuaRealm := id
  result : Except (Option (Value CFunction)) (List (Value CFunction)) := .ok []
  kept : ∀ w, KeptByLua assigned w (effect w)

/-- A request: the fields of `ngx_http_request_t` and of the context that `lws_push_env` reads, with `ip` where the address is one
of the internet; what its files hold, what its chunks do, and `lmcf->monitor->profiler`. -/
structure LuaRequest where
  methodName : Key := []
  unparsedUri : Key := []
  uri : Key := []
  args : Key := []
  pathInfo : Key := []
  ip : Option Key := none
  main : Key
  load : Chunk → Api.FileLoad CFunction
  body : Chunk → ChunkBody
  profiler : Nat := 0

/-- What Lua makes of values: `lua_tointegerx`, `lua_tolstring` of what is no string, `luaL_traceback`; how many errors of a message
handler it handles; and its own messages. -/
structure LuaText where
  tointegerx : Value CFunction → Option Int
  tointegerx_integer : ∀ n, tointegerx (.integer n) = some n
  tolstring : Value CFunction → Option Key
  traceback : Key → Key
  handlers : Nat
  callError : Key
  memoryError : Key
  handlerError : Key

def modifyHost (f : LuaHost → LuaHost) : Lua Unit := Api.modify fun w => { w with host := f w.host }

/-- `luaL_getmetatable`, `lws_getmetatable`. -/
def getmetatable (name : Key) : Lua Unit := do
  let _ ← Api.getfield registryIndex name

def isFunction : Value CFunction → Bool
  | .function _ => true
  | .cfunction _ => true
  | _ => false

def isTable : Value CFunction → Bool
  | .table _ => true
  | _ => false

/-! ## The profiler -/

/-- `lws_profiler_hook`; what it measures is in `Profiler`, here it only may fail. -/
def lwsProfilerHook : Lua Unit := do
  let _ ← Api.getfield registryIndex lwsProfilerCurrent
  match ← Api.testudata (-1) lwsProfiler with
  | none => Api.luaLError (literal "failed to get profiler")
  | some _ =>
    Api.pop 1
    if !(← Api.attempt) then Api.luaLError (literal "failed to measure")

def lwsStartProfiler (R : Runtime CFunction Content LuaHost) : Lua Nat := do
  let _ ← Api.newuserdata .profiler
  getmetatable lwsProfiler
  Api.setmetatable (-2)
  Api.setfield R registryIndex lwsProfilerCurrent
  let _ ← Api.value 1
  if !(← Api.attempt) then Api.luaLError (literal "failed to create profiler functions")
  if !(← Api.attempt) then Api.luaLError (literal "faild to allocate profiler stack")
  Api.sethook (some .profilerHook)
  pure 0

/-- `lws_stop_profiler`; what it merges is in `Profile`. -/
def lwsStopProfiler (R : Runtime CFunction Content LuaHost) : Lua Nat := do
  let _ ← Api.getfield registryIndex lwsProfilerCurrent
  match ← Api.testudata (-1) lwsProfiler with
  | none => Api.luaLError (literal "failed to get profiler")
  | some _ =>
    modifyHost fun h => { h with merged := h.merged + 1 }
    Api.sethook none
    Api.pushnil
    Api.setfield R registryIndex lwsProfilerCurrent
    pure 0

/-! ## The other functions that a run calls -/

def lwsGetMsg (text : LuaText) (i : Int) : Lua Key := do
  match ← Api.valueOrNone i with
  | none => pure (literal "(no error value)")
  | some (.string msg) => pure msg
  | some v =>
    match text.tolstring v with
    | some msg =>
      Api.alloc
      pure msg
    | none => pure (literal "(error value is not a string)")

def lwsTraceback (text : LuaText) : Lua Nat := do
  let msg ← lwsGetMsg text 1
  Api.pushlstring (text.traceback (cString msg))
  pure 1

def lwsGetLuaRequestCtx : Lua Unit := do
  let _ ← Api.getfield registryIndex lwsRequestCtxCurrent
  match ← Api.testudata (-1) lwsRequestCtx with
  | none => Api.luaLError (literal "no request context")
  | some _ => Api.pop 1

def lwsLuaResponseNewindex (text : LuaText) : Lua Nat := do
  match ← Api.value 1, ← Api.value 2 with
  | .table _, .string key =>
    if key = literal "status" then
      match text.tointegerx (← Api.value 3) with
      | none => Api.luaLError (literal "bad argument")
      | some status =>
        lwsGetLuaRequestCtx
        if (← Api.realm).host.run.lctx.sealed then Api.luaLError (literal "response header sealed")
        else
          modifyHost fun h => { h with run := { h.run with ctx := { h.run.ctx with status := status.bmod (2 ^ 32) } } }
          pure 0
    else
      Api.rawset 1
      pure 0
  | _, _ => Api.luaLError (literal "bad argument")

def chunkFunction (r : LuaRequest) (f : Nat) : Lua Nat := do
  let w ← Api.realm
  let chunk := w.host.run.lctx.chunk
  let body := r.body chunk
  modifyHost fun h => { h with run := body.steps.foldl Run.step h.run, entered := h.entered ++ [(chunk, w.upvalue f)] }
  Api.modify body.effect
  match body.result with
  | .error e => Api.raise e
  | .ok results => fun _ _ w => .returns results.length results.reverse w

/-- What the functions of a run may call: nothing but the hook. -/
def innerRuntime (text : LuaText) : Runtime CFunction Content LuaHost where
  body _ := none
  hook _ := lwsProfilerHook
  handlers := text.handlers
  callError := text.callError
  memoryError := text.memoryError
  handlerError := text.handlerError

def runRuntime (text : LuaText) (r : LuaRequest) : Runtime CFunction Content LuaHost :=
  { innerRuntime text with
    body := fun
      | .function f => some (chunkFunction r f)
      | .cfunction .startProfiler => some (lwsStartProfiler (innerRuntime text))
      | .cfunction .stopProfiler => some (lwsStopProfiler (innerRuntime text))
      | .cfunction .responseNewindex => some (lwsLuaResponseNewindex text)
      | .cfunction .traceback => some (lwsTraceback text)
      | _ => none }

/-! ## The environment -/

section
variable (R : Runtime CFunction Content LuaHost)

def stringField (name value : Key) : Lua Unit := do
  Api.pushlstring value
  Api.setfield R (-2) name

def lwsCreateLuaRequestCtx : Lua Unit := do
  let _ ← Api.newuserdata .requestCtx
  getmetatable lwsRequestCtx
  Api.setmetatable (-2)

/-- `lws_create_lua_table`, with the fields that are assigned to it. -/
def lwsCreateLuaTable (content : Content) : Lua Unit := do
  let lt ← Api.newuserdata (.table none false false)
  getmetatable lwsTable
  Api.setmetatable (-2)
  Api.modify fun w => w.setUserdata lt ((w.userdata lt).map fun u => { u with content := content })

/-- `lws_create_file`, with the file that is assigned to it. -/
def lwsCreateFile (content : Content) : Lua Unit := do
  let s ← Api.newuserdata (.file none)
  getmetatable luaFilehandle
  Api.setmetatable (-2)
  Api.modify fun w => w.setUserdata s ((w.userdata s).map fun u => { u with content := content })

/-- The environment of `lws_push_env`, before it has a request and a response. -/
def pushGlobals : Lua Unit := do
  Api.newtable
  Api.newtable
  Api.rawgeti registryIndex ridxGlobals
  Api.setfield R (-2) (literal "__index")
  Api.setmetatable (-2)

def pushRequest (r : LuaRequest) : Lua Unit := do
  Api.newtable
  stringField R (literal "method") r.methodName
  stringField R (literal "uri") r.unparsedUri
  stringField R (literal "path") r.uri
  stringField R (literal "args") r.args
  lwsCreateLuaTable (.table (some true) true true)
  Api.setfield R (-2) (literal "headers")
  lwsCreateFile (.file (some true))
  Api.setfield R (-2) (literal "body")
  stringField R (literal "path_info") r.pathInfo
  match r.ip with
  | some ip => stringField R (literal "ip") ip
  | none => pure ()
  Api.setfield R (-2) (literal "request")

def pushResponse : Lua Unit := do
  Api.newtable
  getmetatable lwsResponse
  Api.setmetatable (-2)
  lwsCreateLuaTable (.table (some false) false true)
  Api.setfield R (-2) (literal "headers")
  lwsCreateFile (.file (some false))
  Api.setfield R (-2) (literal "body")
  Api.setfield R (-2) (literal "response")

def lwsPushEnv (r : LuaRequest) : Lua Unit := do
  pushGlobals R
  pushRequest R r
  pushResponse R

/-! ## The chunks -/

/-- "get, or load and store, the function". -/
def getFunction (file : Api.FileLoad CFunction) (filename : Key) : Lua Unit := do
  Api.pushlstring filename
  Api.pushvalue (-1)
  if !isFunction (← Api.rawget 2) then
    Api.pop 1
    if !(← Api.loadfilex R file) then Api.luaError
    Api.pushvalue (-2)
    Api.pushvalue (-2)
    Api.rawset 2

def setEnv (chunk : Chunk) : Lua Unit := do
  if chunk ≠ .init then Api.pushvalue 3 else Api.rawgeti registryIndex ridxGlobals
  Api.setupvalue (-2)

variable (text : LuaText)

/-- The message of a chunk that has failed; `%s` takes the filename up to a zero byte. -/
def chunkFailed (filename : Key) (chunk : Chunk) (result : Int) : Key :=
  cString filename ++ literal ": " ++ chunkName chunk ++ literal " chunk failed (" ++ literal (toString result) ++ literal ")"

/-- The result of a chunk as an `int`. -/
def resultOf (v : Value CFunction) : Int :=
  match v with
  | .nil => 0
  | v =>
    match text.tointegerx v with
    | some n => n.bmod (2 ^ 32)
    | none => -1

def checkResult (filename : Key) (chunk : Chunk) : Lua Int := do
  let result := resultOf text (← Api.value (-1))
  if result < 0 then
    let _ ← Api.value (-2)
    Api.luaLError (chunkFailed filename chunk result)
  else
    if 0 < result ∧ chunk = .pre then
      modifyHost fun h => { h with run := { h.run with lctx := { h.run.lctx with complete := true } } }
    Api.pop 2
    pure result

def lwsCall (file : Api.FileLoad CFunction) (filename : Key) (chunk : Chunk) : Lua Int := do
  modifyHost fun h => { h with run := { h.run with lctx := { h.run.lctx with chunk := chunk } } }
  getFunction R file filename
  setEnv chunk
  Api.call R 0 1
  checkResult text filename chunk

def lwsClearEnv (filename : Key) : Lua Unit := do
  Api.pushlstring filename
  if !isFunction (← Api.rawget 2) then Api.pop 1
  else
    Api.rawgeti registryIndex ridxGlobals
    Api.setupvalue (-2)
    Api.pop 1

/-! ## The run

The parts of `lws_run` have the names of their comments. -/

variable (files : ChunkFiles) (r : LuaRequest)

def setRequestCtx : Lua Unit := do
  let _ ← Api.value 1
  lwsCreateLuaRequestCtx
  modifyHost fun h => { h with run := { h.run with lctx := {} } }
  Api.setfield R registryIndex lwsRequestCtxCurrent

def getChunks : Lua Unit := do
  if !isTable (← Api.getfield registryIndex lwsChunks) then
    Api.pop 1
    Api.newtable
    Api.pushvalue (-1)
    Api.setfield R registryIndex lwsChunks

def startProfiler : Lua Unit := do
  if (← Api.realm).host.profiler ≠ 0 then
    Api.pushcfunction .startProfiler
    Api.pushlightuserdata 0
    Api.call R 1 0

def runInit : Lua Unit := do
  if !(← Api.realm).host.run.init then
    if files.init ≠ [] then
      let _ ← lwsCall R text (r.load .init) files.init .init
    modifyHost fun h => { h with run := { h.run with init := true } }

/-- "pre chunk" and "main chunk". -/
def runMain : Lua Int := do
  if files.pre ≠ [] then
    let result ← lwsCall R text (r.load .pre) files.pre .pre
    if (← Api.realm).host.run.lctx.complete then pure result
    else lwsCall R text (r.load .main) r.main .main
  else lwsCall R text (r.load .main) r.main .main

def runPost : Lua Unit := do
  if files.post ≠ [] then
    let _ ← lwsCall R text (r.load .post) files.post .post

def clearIf (b : Bool) (filename : Key) : Lua Unit := if b then lwsClearEnv filename else pure ()

def clear : Lua Unit := do
  clearIf (files.pre ≠ []) files.pre
  clearIf (!(← Api.realm).host.run.lctx.complete) r.main
  clearIf (files.post ≠ []) files.post

def stopProfiler : Lua Unit := do
  if (← Api.realm).host.profiler ≠ 0 then
    Api.pushcfunction .stopProfiler
    Api.call R 0 0

def clearRequestCtx : Lua Unit := do
  Api.pushnil
  Api.setfield R registryIndex lwsRequestCtxCurrent

def lwsRun : Lua Nat := do
  setRequestCtx R
  getChunks R
  startProfiler R
  runInit R text files r
  lwsPushEnv R r
  let result ← runMain R text files r
  runPost R text files r
  clear files r
  stopProfiler R
  clearRequestCtx R
  Api.pushinteger result
  pure 1

end

def stateRuntime (text : LuaText) (files : ChunkFiles) (r : LuaRequest) : Runtime CFunction Content LuaHost :=
  { runRuntime text r with
    body := fun
      | .cfunction .run => some (lwsRun (runRuntime text r) text files r)
      | v => (runRuntime text r).body v }

/-- The part of `lws_run_state` for an error. -/
def runError (text : LuaText) (diagnostic : Bool) : Lua Int := do
  modifyHost fun h => { h with run := { h.run with close := true } }
  let msg ← lwsGetMsg text (-1)
  if diagnostic then
    if ← Api.attempt then
      modifyHost fun h => { h with diagnostic := ⟨some msg, msg.length⟩ }
  pure (-1)

/-- "clear result"; `lws_thread_handler` stores the result. -/
def clearResult (result : Int) : Lua Unit := do
  Api.pop 1
  modifyHost fun h => { h with run := { h.run with ctx := { h.run.ctx with rc := result } } }

def lwsRunState (text : LuaText) (files : ChunkFiles) (diagnostic : Bool) (r : LuaRequest) : Lua Unit := do
  Api.pushcfunction .run
  Api.pushlightuserdata 0
  if ← Api.pcall (stateRuntime text files r) 1 1 1 then
    clearResult (((text.tointegerx (← Api.value (-1))).getD 0).bmod (2 ^ 32))
  else
    clearResult (← runError text diagnostic)

end OnStack
end Lws

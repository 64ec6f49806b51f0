import Lws.Table
/-!
# Chunks — one run of the chunks of a request (`lws_run`, `lws_run_state`)

A chunk is what it does to the server: the calls of the library it makes, with their errors caught, and how it ends.  The run
calls the chunks in sequence until one of them fails, on the Lua thread; `respond` is what the finalization handler makes of
the request afterwards.
-/
namespace Lws

/-- `lws_lua_chunk_e`. -/
inductive Chunk where
  | init
  | pre
  | main
  | post
deriving DecidableEq, Repr

/-- An `ngx_str_t` of the request context: `data` is none for NULL. -/
structure NgxStr where
  data : Option Key := none
  len : Nat := 0
deriving DecidableEq, Repr

/-- `lws_lua_request_ctx_t`: the chunk that runs, and what it has decided. -/
structure LuaCtx where
  chunk : Chunk := .init
  complete : Bool := false
  sealed : Bool := false
deriving DecidableEq, Repr

/-- The fields of `lws_request_ctx_t` that a run and its response go by. -/
structure RequestCtx where
  rc : Int := 0
  status : Int := 200
  redirect : NgxStr := {}
  redirectArgs : NgxStr := {}
deriving DecidableEq, Repr

/-- A run: the contexts, the flags of the Lua state, and the chunks called so far, each with whether it succeeded. -/
structure Run where
  lctx : LuaCtx := {}
  ctx : RequestCtx := {}
  init : Bool := false
  close : Bool := false
  log : List (Chunk × Bool) := []
deriving DecidableEq, Repr

inductive Outcome where
  | error
  | ok
deriving DecidableEq, Repr

/-! ## The library -/

/-- `lws_strdup`; without memory it clears `data`, leaves `len`, and raises an error. -/
def lwsStrdup (src : Key) (mem : Bool) (dst : NgxStr) : NgxStr × Outcome :=
  if mem then (⟨some src, src.length⟩, .ok) else ({ dst with data := none }, .error)

/-- The argument check of `lws_redirect`: a path, or a name after `@`. -/
def redirectValid (path : Key) : Bool := decide (path.length > if path.head? ≠ some 0x40 then 0 else 1)

/-- The part of `lws_redirect` that copies the arguments; a named location has none. -/
def storeRedirectArgs (path : Key) (args : Option Key) (mem : Bool) (dst : NgxStr) : NgxStr × Outcome :=
  match args with
  | some args => if path.head? ≠ some 0x40 then lwsStrdup args mem dst else (dst, .ok)
  | none => (dst, .ok)

def lwsRedirect (path : Key) (args : Option Key) (memArgs mem : Bool) (lctx : LuaCtx) (ctx : RequestCtx) :
    LuaCtx × RequestCtx × Outcome :=
  if lctx.chunk ≠ .pre ∧ lctx.chunk ≠ .main then (lctx, ctx, .error)
  else if lctx.sealed then (lctx, ctx, .error)
  else if !redirectValid path then (lctx, ctx, .error)
  else
    let (redirectArgs, r) := storeRedirectArgs path args memArgs ctx.redirectArgs
    let ctx := { ctx with redirectArgs := redirectArgs }
    if r = .error then (lctx, ctx, .error)
    else
      let (redirect, r) := lwsStrdup path mem ctx.redirect
      let ctx := { ctx with redirect := redirect }
      if r = .error then (lctx, ctx, .error)
      else (if lctx.chunk = .pre then { lctx with complete := true } else lctx, ctx, .ok)

def lwsSetcomplete (lctx : LuaCtx) : LuaCtx × Outcome :=
  if lctx.chunk ≠ .pre then (lctx, .error) else ({ lctx with complete := true }, .ok)

inductive ChunkCall where
  | setcomplete
  | setclose
  | redirect (path : Key) (args : Option Key) (memArgs mem : Bool)
deriving DecidableEq, Repr

def Run.call (x : Run) : ChunkCall → Run
  | .setcomplete => { x with lctx := (lwsSetcomplete x.lctx).1 }
  | .setclose => { x with close := true }
  | .redirect path args memArgs mem =>
    let (lctx, ctx, _) := lwsRedirect path args memArgs mem x.lctx x.ctx
    { x with lctx := lctx, ctx := ctx }

/-! ## The run -/

/-- How a chunk ends: in an error, or with a result; `integer` is a value that converts to an integer. -/
inductive LuaResult where
  | error
  | nil
  | integer (n : Int)
  | other
deriving DecidableEq, Repr

structure Behaviour where
  calls : List ChunkCall := []
  result : LuaResult := .nil
deriving DecidableEq, Repr

/-- The `result` of `lws_call`: a `lua_Integer` is stored in an `int`. -/
def LuaResult.toInt : LuaResult → Option Int
  | .error => none
  | .nil => some 0
  | .integer n => some (n.bmod (2 ^ 32))
  | .other => some (-1)

def lwsCall (chunk : Chunk) (beh : Behaviour) (x : Run) : Run × Option Int :=
  let x := beh.calls.foldl Run.call { x with lctx := { x.lctx with chunk := chunk } }
  match beh.result.toInt with
  | none => ({ x with log := x.log ++ [(chunk, false)] }, none)
  | some result =>
    if result < 0 then ({ x with log := x.log ++ [(chunk, false)] }, none)
    else
      let complete := x.lctx.complete || (decide (result > 0) && chunk = .pre)
      ({ x with lctx := { x.lctx with complete := complete }, log := x.log ++ [(chunk, true)] }, some result)

structure ChunkConf where
  init : Bool := false
  pre : Bool := false
  post : Bool := false
deriving DecidableEq, Repr

/-- Whether the module's own Lua work succeeds: the request context and the profiler before the chunks, the environment, and
the profiler and the cleanup after them. -/
structure RunEnv where
  setup : Bool := true
  pushEnv : Bool := true
  finish : Bool := true
deriving DecidableEq, Repr

def runInit (conf : ChunkConf) (beh : Behaviour) (x : Run) : Run × Outcome :=
  if !x.init then
    if conf.init then
      match lwsCall .init beh x with
      | (x, none) => (x, .error)
      | (x, some _) => ({ x with init := true }, .ok)
    else ({ x with init := true }, .ok)
  else (x, .ok)

/-- The pre and main part of `lws_run`, with its `result`. -/
def runMain (conf : ChunkConf) (pre main : Behaviour) (x : Run) : Run × Option Int :=
  if conf.pre then
    match lwsCall .pre pre x with
    | (x, none) => (x, none)
    | (x, some result) => if x.lctx.complete then (x, some result) else lwsCall .main main x
  else lwsCall .main main x

def runPost (conf : ChunkConf) (beh : Behaviour) (x : Run) : Run × Outcome :=
  if conf.post then
    match lwsCall .post beh x with
    | (x, none) => (x, .error)
    | (x, some _) => (x, .ok)
  else (x, .ok)

def lwsRun (conf : ChunkConf) (env : RunEnv) (beh : Chunk → Behaviour) (x : Run) : Run × Option Int :=
  let x := { x with lctx := {} }
  if !env.setup then (x, none)
  else
    match runInit conf (beh .init) x with
    | (x, .error) => (x, none)
    | (x, .ok) =>
      if !env.pushEnv then (x, none)
      else
        match runMain conf (beh .pre) (beh .main) x with
        | (x, none) => (x, none)
        | (x, some result) =>
          match runPost conf (beh .post) x with
          | (x, .error) => (x, none)
          | (x, .ok) => if !env.finish then (x, none) else (x, some result)

/-- `lws_run_state` and `lws_thread_handler`: the result goes to `ctx->rc`; an error marks the state for closing. -/
def lwsRunState (conf : ChunkConf) (env : RunEnv) (beh : Chunk → Behaviour) (x : Run) : Run :=
  match lwsRun conf env beh x with
  | (x, some result) => { x with ctx := { x.ctx with rc := result } }
  | (x, none) => { x with ctx := { x.ctx with rc := -1 }, close := true }

/-! ## The response -/

/-- What the finalization handler answers a request with; `finalize` is the bare `ngx_http_finalize_request`, and `fault` a
NULL string read. -/
inductive Response where
  | error (status : Int)
  | internalRedirect (path : Key) (args : NgxStr)
  | namedLocation (name : Key)
  | page (status : Int)
  | finalize (rc : Int)
  | fault
deriving DecidableEq, Repr

/-- The response part of `lws_finalization_handler`, in a request that does not stream; `headers` says whether
`lws_set_response_header` has memory. -/
def respond (headers : Bool) (ctx : RequestCtx) : Response :=
  if ctx.rc < 0 then .error 500
  else if ctx.redirect.len ≠ 0 then
    match ctx.redirect.data with
    | some (c :: name) => if c ≠ 0x40 then .internalRedirect (c :: name) ctx.redirectArgs else .namedLocation name
    | _ => .fault
  else if !headers then .finalize 500
  else if ctx.rc > 0 then .error (if ctx.rc ≥ 100 ∧ ctx.rc < 600 then ctx.rc else 500)
  else .page ctx.status

end Lws

import Mathlib.Logic.Relation
import Lws.Chunks
import Lws.TableMap
/-!
# Stream — a streaming request: the Lua thread, the pipe and the event loop (`lws_lib.c`, `lws_module.c`)

The Lua thread flushes the response body into a pipe, and the event loop sends what it reads from it.  A step is what one of
them does between two points where the other can interfere: for the event loop, up to the next read of the pipe or of what the
thread writes.  The outcomes of the calls of nginx and of the system are arguments.  The trace, latest first, and the fields
`flushed`, `handed` and `sealedAs` are records that no function reads.
-/
namespace Lws

def ngxOk : Int := 0

def ngxError : Int := -1

def ngxAgain : Int := -2

def streamingReadsMax : Nat := 16

/-- A list of response headers: `ctx->response_headers` is a table, which is a map that ignores the case of its keys. -/
abbrev Headers := List (Key × Key)

/-- The fields of `ngx_http_request_t` that streaming goes by: `r == r->main`, `method == NGX_HTTP_HEAD`, `header_sent`,
`header_only`, `headers_out`, and whether `write_event_handler` is `lws_stream_write_handler`. -/
structure Request where
  main : Bool := true
  head : Bool := false
  headerSent : Bool := false
  headerOnly : Bool := false
  status : Int := 0
  headers : Headers := []
  streamWrite : Bool := false
deriving DecidableEq, Repr

/-- `ctx->response_body`, a memory stream, with its position. -/
structure Body where
  data : List UInt8 := []
  pos : Nat := 0
deriving DecidableEq, Repr

/-- Where the Lua thread is: in Lua, in `lws_file_flush_hook` with bytes left to write, or at its end. -/
inductive LuaThread where
  | lua
  | flush (rest : List UInt8)
  | finished
deriving DecidableEq, Repr

/-- Where the event loop is: outside of `lws_stream_handler`, before a read of the pipe, or after it with the bytes read. -/
inductive LoopPc where
  | idle
  | read (reads : Nat)
  | received (reads : Nat) (bytes : List UInt8)
  | headed (reads : Nat) (bytes : List UInt8)
  | send (reads : Nat) (bytes : List UInt8)
deriving DecidableEq, Repr

inductive StreamAct where
  | handler
  | sendHeader (status : Int) (headers : Headers)
  | outputFilter (bytes : List UInt8)
  | sendLast
  | respond (response : Response)
  | finalize (rc : Int)
deriving DecidableEq, Repr

/-- A streaming request: `conn` and `pipeWrite` say whether `streaming_conn` and `streaming_pipe[1]` are set. -/
structure Stream where
  request : Request := {}
  conn : Bool := true
  pipeWrite : Bool := true
  streamingRc : Int := ngxOk
  busy : List (List UInt8) := []
  ctx : RequestCtx := {}
  headers : Headers := []
  lctx : LuaCtx := {}
  readonly : Bool := false
  body : Body := {}
  pipe : List UInt8 := []
  thread : LuaThread := .lua
  loop : LoopPc := .idle
  completed : Bool := false
  flushed : List UInt8 := []
  handed : List UInt8 := []
  sealedAs : Option (Int × Headers) := none
  trace : List StreamAct := []
deriving DecidableEq, Repr

def Stream.note (s : Stream) (a : StreamAct) : Stream := { s with trace := a :: s.trace }

def Stream.finalize (s : Stream) (rc : Int) : Stream := s.note (.finalize rc)

/-! ## The Lua thread -/

def Body.write (b : Body) (bytes : List UInt8) : Body :=
  { data := b.data.take b.pos ++ bytes ++ b.data.drop (b.pos + bytes.length), pos := b.pos + bytes.length }

/-- `lws_lua_response_newindex` of the status; the value is none if it is not an integer. -/
def responseNewindex (status : Option Int) (s : Stream) : Stream × Outcome :=
  match status with
  | none => (s, .error)
  | some status =>
    if s.lctx.sealed then (s, .error) else ({ s with ctx := { s.ctx with status := status.bmod (2 ^ 32) } }, .ok)

def headerNameChar (ch : UInt8) : Bool :=
  (0x30 ≤ ch && ch ≤ 0x39) || (0x41 ≤ ch && ch ≤ 0x5a) || (0x61 ≤ ch && ch ≤ 0x7a) ||
    [0x21, 0x23, 0x24, 0x25, 0x26, 0x27, 0x2a, 0x2b, 0x2d, 0x2e, 0x5e, 0x5f, 0x60, 0x7c, 0x7e].contains ch

def headerValueBad (ch : UInt8) : Bool := (ch < 0x20 && ch ≠ 0x09) || ch = 0x7f

/-- `lws_lua_table_newindex` of the response headers; an argument is none if it is not a string, and `mem` says whether the
value can be allocated and set. -/
def tableNewindex (key value : Option Key) (mem : Bool) (s : Stream) : Stream × Outcome :=
  if s.readonly then (s, .error)
  else
    match key, value with
    | some key, some value =>
      if key.length = 0 then (s, .error)
      else if !key.all headerNameChar then (s, .error)
      else if value.any headerValueBad then (s, .error)
      else if !mem then (s, .error)
      else ({ s with headers := OrdMap.put (foldKey true) s.headers key value }, .ok)
    | _, _ => (s, .error)

/-- `lws_file_flush_hook`, up to its first write: `tell` and `flush` say whether `ftell` and `fflush` succeed, and `fits` whether
the body fits an `ssize_t`. -/
def fileFlushHook (tell fits flush : Bool) (s : Stream) : Stream × Outcome :=
  if s.ctx.redirect.len ≠ 0 then (s, .error)
  else if !s.pipeWrite then (s, .error)
  else if !tell then (s, .error)
  else if !fits then (s, .error)
  else
    let s := { s with
      lctx := { s.lctx with sealed := true }
      readonly := true
      sealedAs := s.sealedAs <|> some (s.ctx.status, s.headers) }
    if s.body.pos > 0 then
      if !flush then (s, .error)
      else
        let bytes := s.body.data.take s.body.pos
        ({ s with thread := .flush bytes, flushed := s.flushed ++ bytes }, .ok)
    else (s, .ok)

/-- What Lua does, with its errors caught; `chunk` is `lws_call` going on to the next chunk. -/
inductive LuaOp where
  | chunk (chunk : Chunk)
  | status (value : Option Int)
  | header (key value : Option Key) (mem : Bool)
  | redirect (path : Key) (args : Option Key) (memArgs mem : Bool)
  | write (bytes : List UInt8)
  | flush (tell fits flush : Bool)
deriving DecidableEq, Repr

def luaOp : LuaOp → Stream → Stream × Outcome
  | .chunk chunk, s => ({ s with lctx := { s.lctx with chunk := chunk } }, .ok)
  | .status value, s => responseNewindex value s
  | .header key value mem, s => tableNewindex key value mem s
  | .redirect path args memArgs mem, s =>
    let (lctx, ctx, r) := lwsRedirect path args memArgs mem s.lctx s.ctx
    ({ s with lctx := lctx, ctx := ctx }, r)
  | .write bytes, s => ({ s with body := s.body.write bytes }, .ok)
  | .flush tell fits flush, s => fileFlushHook tell fits flush s

/-! ## The event loop -/

/-- What a step of the event loop meets: the write event, the outcome of `ngx_http_output_filter` or `ngx_http_send_special`,
the buffers that `ngx_chain_update_chains` frees, whether output is still buffered or postponed, the outcome of an allocation,
of `read` and of `ngx_socket_nread`, and whether events can be removed and added. -/
structure Pass where
  timedout : Bool := false
  delayed : Bool := false
  ready : Bool := true
  rc : Int := ngxOk
  freed : Nat := 1
  backlog : Bool := false
  alloc : Bool := true
  readable : Bool := true
  count : Nat := 4096
  nread : Bool := true
  headers : Bool := true
  delEvent : Bool := true
  readEvent : Bool := true
  writeEvent : Bool := true
deriving DecidableEq, Repr

/-- The end of `lws_stream_handler` that aborts streaming. -/
def streamError (rc : Int) (s : Stream) : Stream :=
  let s := { s with
    streamingRc := rc
    conn := false
    request := { s.request with streamWrite := false }
    loop := .idle }
  if !s.pipeWrite then s.finalize s.streamingRc else s

/-- The end of `lws_stream_handler` that waits for the client. -/
def streamBlocked (a : Pass) (s : Stream) : Stream :=
  if !a.delEvent then streamError ngxError s
  else
    let s := { s with request := { s.request with streamWrite := true } }
    if a.ready && a.delayed then { s with loop := .idle }
    else if !a.writeEvent then streamError ngxError s
    else { s with loop := .idle }

/-- `lws_stream_handler`, up to its first read: the flush of pending output. -/
def streamHandler (a : Pass) (s : Stream) : Stream :=
  let s := s.note .handler
  if s.request.streamWrite then
    if a.timedout then streamError 408 s
    else if !a.delayed then
      if a.rc = ngxError then streamError ngxError s
      else
        let s := { s with busy := s.busy.drop a.freed }
        if !(a.rc = ngxAgain || !s.busy.isEmpty || a.backlog) then
          let s := { s with request := { s.request with streamWrite := false } }
          if !a.readEvent then streamError ngxError s else { s with loop := .idle }
        else streamBlocked a s
    else streamBlocked a s
  else { s with loop := .read 0 }

/-- A read of the pipe in `lws_stream_handler`, which returns some bytes, nothing yet, an error, or the end. -/
def streamRead (a : Pass) (reads : Nat) (s : Stream) : Stream :=
  if !s.busy.isEmpty then streamBlocked a s
  else if !a.alloc then streamError ngxError s
  else if !a.readable then streamError ngxError s
  else if !s.pipe.isEmpty then
    { s with pipe := s.pipe.drop (a.count + 1), loop := .received reads (s.pipe.take (a.count + 1)) }
  else if s.pipeWrite then
    if !a.readEvent then streamError ngxError s else { s with loop := .idle }
  else
    let s := { s with conn := false, loop := .idle }
    if !s.request.headerSent then s.finalize 500
    else if s.request.main then (s.note .sendLast).finalize a.rc
    else s.finalize ngxOk

/-- The header part of `lws_stream_handler`, up to the header list; `a.headers` is the outcome of `lws_set_response_header`. -/
def streamHeader (a : Pass) (reads : Nat) (bytes : List UInt8) (s : Stream) : Stream :=
  if !s.request.headerSent then
    let s :=
      if s.request.main && (s.request.head || s.request.status = 204 || s.request.status = 304) then
        { s with request := { s.request with headerOnly := true } }
      else s
    if !a.headers then streamError 500 s
    else { s with request := { s.request with headers := s.headers }, loop := .headed reads bytes }
  else { s with loop := .send reads bytes }

/-- The header part of `lws_stream_handler`, from the status on.  A filter may set `header_only`; `ngx_http_send_header` sets
`header_sent` unless it fails, and then `sent` says whether it did. -/
def streamSendHeader (rc : Int) (only sent : Bool) (reads : Nat) (bytes : List UInt8) (s : Stream) : Stream :=
  let s := s.note (.sendHeader s.ctx.status s.request.headers)
  let failed := rc = ngxError ∨ rc > ngxOk
  let s := { s with request := { s.request with
    status := s.ctx.status
    headerSent := if failed then sent else true
    headerOnly := s.request.headerOnly || only } }
  if failed ∨ s.request.headerOnly then streamError rc s else { s with loop := .send reads bytes }

/-- The end of the loop of `lws_stream_handler`: the bytes are handed to `ngx_http_output_filter`. -/
def streamSend (a : Pass) (reads : Nat) (bytes : List UInt8) (s : Stream) : Stream :=
  let s := { s.note (.outputFilter bytes) with handed := s.handed ++ bytes }
  if a.rc = ngxError then streamError ngxError s
  else
    let s := { s with busy := (s.busy ++ [bytes]).drop a.freed }
    if a.rc = ngxAgain || !s.busy.isEmpty || a.backlog then streamBlocked a s
    else if reads + 1 = streamingReadsMax then
      if !a.delEvent then streamError ngxError s
      else if !a.readEvent then streamError ngxError s
      else { s with loop := .idle }
    else { s with loop := .read (reads + 1) }

def streamWriteHandler (a : Pass) (s : Stream) : Stream := if s.conn then streamHandler a s else s

/-- The part of `lws_finalization_handler` that closes the pipe, and closes its connection too if streaming was not used. -/
def closePipe (a : Pass) (s : Stream) : Stream :=
  let s := { s with pipeWrite := false }
  if s.conn && !s.request.headerSent && s.streamingRc = ngxOk then
    let s := if !a.nread then { s with streamingRc := ngxError } else s
    if s.streamingRc ≠ ngxOk || s.pipe.isEmpty then { s with conn := false } else s
  else s

/-- `lws_finalization_handler`, from its streaming part on. -/
def streamFinalizationHandler (a : Pass) (s : Stream) : Stream :=
  let s := closePipe a { s with completed := true }
  if s.request.headerSent || s.conn || s.streamingRc ≠ ngxOk then
    if s.conn && s.streamingRc = ngxOk && !s.request.headerOnly then s
    else if !(s.streamingRc = ngxError || s.streamingRc > ngxOk || s.request.headerOnly) && s.request.main then
      (s.note .sendLast).finalize a.rc
    else s.finalize s.streamingRc
  else (s.note (.respond (respond a.headers s.ctx))).finalize a.rc

/-! ## Runs -/

/-- The steps of a streaming request: an operation of Lua; a write of some bytes to the pipe, an interrupted or failed one, and
the end of a flush; the end of the task; an event of the pipe, or of the client; the steps of `lws_stream_handler`; and the
completion of the task. -/
inductive StreamEvent where
  | op (o : LuaOp)
  | write (count : Nat)
  | eintr
  | epipe
  | rewind
  | finish (rc : Int)
  | pipeEvent (a : Pass)
  | clientEvent (a : Pass)
  | pass (a : Pass)
  | sendHeader (rc : Int) (only sent : Bool)
  | completion (a : Pass)
deriving DecidableEq, Repr

def Stream.handle (s : Stream) : StreamEvent → Option Stream
  | .op o => if s.thread = .lua then some (luaOp o s).1 else none
  | .write count =>
    match s.thread with
    | .flush (c :: rest) =>
      if s.conn then some { s with
        pipe := s.pipe ++ (c :: rest).take (count + 1), thread := .flush ((c :: rest).drop (count + 1)) }
      else none
    | _ => none
  | .eintr =>
    match s.thread with
    | .flush (_ :: _) => some s
    | _ => none
  | .epipe =>
    match s.thread with
    | .flush (_ :: _) => if s.conn then none else some { s with thread := .lua }
    | _ => none
  | .rewind => if s.thread = .flush [] then some { s with thread := .lua, body := { s.body with pos := 0 } } else none
  | .finish rc => if s.thread = .lua then some { s with thread := .finished, ctx := { s.ctx with rc := rc } } else none
  | .pipeEvent a => if s.loop = .idle ∧ s.conn = true then some (streamHandler a s) else none
  | .clientEvent a => if s.loop = .idle ∧ s.request.streamWrite = true then some (streamWriteHandler a s) else none
  | .pass a =>
    match s.loop with
    | .read reads => some (streamRead a reads s)
    | .received reads bytes => some (streamHeader a reads bytes s)
    | .send reads bytes => some (streamSend a reads bytes s)
    | _ => none
  | .sendHeader rc only sent =>
    match s.loop with
    | .headed reads bytes => some (streamSendHeader rc only sent reads bytes s)
    | _ => none
  | .completion a =>
    if s.loop = .idle ∧ s.thread = .finished ∧ s.completed = false then some (streamFinalizationHandler a s) else none

def Stream.Step (ok : Stream → StreamEvent → Prop) (s s' : Stream) : Prop := ∃ e, ok s e ∧ s.handle e = some s'

/-- A request when its task starts; without `lws_streaming` it has no pipe. -/
def Stream.start (streaming main head headerOnly : Bool) (status : Int) : Stream :=
  { request := { main := main, head := head, headerOnly := headerOnly, status := status }
    conn := streaming
    pipeWrite := streaming }

/-- What a run of the steps `ok` reaches. -/
def Stream.ReachableBy (ok : Stream → StreamEvent → Prop) (s₀ s : Stream) : Prop := Relation.ReflTransGen (Stream.Step ok) s₀ s

abbrev Stream.Reachable (s₀ s : Stream) : Prop := Stream.ReachableBy (fun _ _ => True) s₀ s

end Lws

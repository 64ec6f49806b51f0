import Lws.Ledger
import Lws.Redirect
/-!
# RequestCustody — what a request takes, and gives back (`lws_handler` .. `lws_cleanup_request_ctx`)

A request takes tables, streams, descriptors, a connection and memory, step by step, and any step may be the last.  Its context
points to what it has taken, and a field here is what is held through a pointer of it; the cleanup of its pool gives back what the
context holds then.  A pointer that is overwritten is recorded in `dropped`, which no function reads, and so is what is used while
it is not held in `misused`.  What the handlers decide about the response is in `Stream` and `Chunks`; here each decision is an
argument.
-/
namespace Lws

inductive ResourceKind where
  | table
  | stream
  | memory
  | descriptor
  | connection
deriving DecidableEq, Repr

/-- Something that is taken and has to be given back, by its number. -/
structure Resource where
  kind : ResourceKind
  id : Nat
deriving DecidableEq, Repr

/-- The fields of `lws_request_ctx_t` that hold something: `streaming_pipe` is `pipe0` and `pipe1`, which hold nothing at -1. -/
inductive CtxField where
  | vars
  | requestHeaders
  | requestBody
  | responseHeaders
  | responseBody
  | responseBodyStr
  | streamingConn
  | pipe0
  | pipe1
  | redirect
  | redirectArgs
  | diagnostic
deriving DecidableEq, Repr

def CtxField.all : List CtxField :=
  [.vars, .requestHeaders, .requestBody, .responseHeaders, .responseBody, .responseBodyStr, .streamingConn, .pipe0, .pipe1,
    .redirect, .redirectArgs, .diagnostic]

/-- Where a request is: in `lws_handler`, reading its body, with a task for it, with the task completed, or beyond. -/
inductive RequestPhase where
  | handler
  | reading
  | running
  | completed
  | over
deriving DecidableEq, Repr

/-- A request: its context, `streaming_conn->fd`, the descriptor that `request_body` is open on, and that of the temporary file of
the body, which nginx has opened; whether the cleanup is registered; and what has been taken and given back. -/
structure RequestHolds where
  ctx : CtxField → Option Resource := fun _ => none
  connFd : Option Resource := none
  bodyFd : Option Resource := none
  tempFile : Option Resource := none
  cleanup : Bool := false
  phase : RequestPhase := .handler
  next : Nat := 0
  acquired : List Resource := []
  released : List Resource := []
  dropped : List Resource := []
  misused : List (Option Resource) := []

namespace RequestHolds

def take (kind : ResourceKind) (x : RequestHolds) : Resource × RequestHolds :=
  (⟨kind, x.next⟩, { x with next := x.next + 1, acquired := ⟨kind, x.next⟩ :: x.acquired })

def assign (f : CtxField) (r : Option Resource) (x : RequestHolds) : RequestHolds :=
  { x with ctx := Function.update x.ctx f r, dropped := x.dropped ++ (x.ctx f).toList }

def store (f : CtxField) (kind : ResourceKind) (x : RequestHolds) : RequestHolds := (x.take kind).2.assign f (some (x.take kind).1)

/-- What a field holds is given back, and the field is cleared. -/
def release (f : CtxField) (x : RequestHolds) : RequestHolds :=
  { x with ctx := Function.update x.ctx f none, released := x.released ++ (x.ctx f).toList }

def use (r : Option Resource) (x : RequestHolds) : RequestHolds :=
  if r.any (fun r => r ∈ x.acquired ∧ r ∉ x.released) then x else { x with misused := x.misused ++ [r] }

@[simp] theorem assign_ctx (f g : CtxField) (r : Option Resource) (x : RequestHolds) :
    (x.assign f r).ctx g = if g = f then r else x.ctx g := Function.update_apply ..

@[simp] theorem store_ctx (f g : CtxField) (kind : ResourceKind) (x : RequestHolds) :
    (x.store f kind).ctx g = if g = f then some (x.take kind).1 else x.ctx g := Function.update_apply ..

@[simp] theorem store_connFd (f : CtxField) (kind : ResourceKind) (x : RequestHolds) : (x.store f kind).connFd = x.connFd := rfl

@[simp] theorem release_ctx (f g : CtxField) (x : RequestHolds) : (x.release f).ctx g = if g = f then none else x.ctx g :=
  Function.update_apply ..

@[simp] theorem release_connFd (f : CtxField) (x : RequestHolds) : (x.release f).connFd = x.connFd := rfl

@[simp] theorem release_bodyFd (f : CtxField) (x : RequestHolds) : (x.release f).bodyFd = x.bodyFd := rfl

@[simp] theorem release_tempFile (f : CtxField) (x : RequestHolds) : (x.release f).tempFile = x.tempFile := rfl

/-! ## The handlers -/

/-- `ngx_close_connection` of the streaming connection, which closes its descriptor, and the two assignments after it. -/
def closeConn (x : RequestHolds) : RequestHolds :=
  { x with
    released := x.released ++ (x.ctx .streamingConn).toList ++ x.connFd.toList
    connFd := none
    ctx := Function.update (Function.update x.ctx .streamingConn none) .pipe0 none }

/-- `fclose` of the request body, which closes the descriptor that the stream is open on. -/
def closeBody (x : RequestHolds) : RequestHolds :=
  { x.release .requestBody with released := (x.release .requestBody).released ++ x.bodyFd.toList }

theorem closeConn_ctx_of_ne {g : CtxField} (hconn : g ≠ .streamingConn) (hpipe : g ≠ .pipe0) (x : RequestHolds) :
    x.closeConn.ctx g = x.ctx g :=
  (Function.update_of_ne hpipe _ _).trans (Function.update_of_ne hconn _ _)

end RequestHolds

open RequestHolds

/-- What the steps of `lws_handler` meet. -/
structure HandlerEnv where
  main : Bool := true
  mainValue : Bool := true
  found : Bool := true
  ctx : Bool := true
  cleanup : Bool := true
  pathInfo : Bool := true
  vars : Bool := true
  values : Bool := true
  requestHeaders : Bool := true
  folding : Bool := true
  responseHeaders : Bool := true
  memstream : Bool := true
  streaming : Bool := false
  pipe : Bool := true
  nonblocking : Bool := true
  connection : Bool := true
  readEvent : Bool := true
  readBody : Int := 0
deriving DecidableEq

/-- A step of `lws_handler`: whether it succeeds, what is returned if it does not, and what it takes if it does. -/
structure HandlerStep where
  ok : Bool
  rc : Int
  effect : RequestHolds → RequestHolds

def ngxDone : Int := -4

def ngxDeclined : Int := -5

/-- The steps of `lws_handler` before the body is read, in order. -/
def handlerSteps (e : HandlerEnv) : List HandlerStep := [
  ⟨e.main, ngxDeclined, id⟩,
  ⟨e.mainValue, 500, id⟩,
  ⟨e.found, 404, id⟩,
  ⟨e.ctx, 500, id⟩,
  ⟨e.cleanup, 500, fun x => { x with cleanup := true }⟩,
  ⟨e.pathInfo, 500, id⟩,
  ⟨e.vars, 500, store .vars .table⟩,
  ⟨e.values, 500, id⟩,
  ⟨e.requestHeaders, 500, store .requestHeaders .table⟩,
  ⟨e.folding, 500, id⟩,
  ⟨e.responseHeaders, 500, store .responseHeaders .table⟩,
  ⟨e.memstream, 500, fun x => store .responseBodyStr .memory (store .responseBody .stream x)⟩] ++
  if e.streaming then [
    ⟨e.pipe, 500, fun x => store .pipe1 .descriptor (store .pipe0 .descriptor x)⟩,
    ⟨e.nonblocking, 500, id⟩,
    ⟨e.connection, 500, fun x => { store .streamingConn .connection x with connFd := x.ctx .pipe0 }⟩,
    ⟨e.readEvent, 500, id⟩]
  else []

/-- The steps up to the first that fails, and what that returns. -/
def runSteps : List HandlerStep → RequestHolds → RequestHolds × Option Int
  | [], x => (x, none)
  | s :: steps, x => if s.ok then runSteps steps (s.effect x) else (x, some s.rc)

def lwsHandler (e : HandlerEnv) (x : RequestHolds) : RequestHolds × Int :=
  match runSteps (handlerSteps e) x with
  | (x, some rc) => ({ x with phase := .over }, rc)
  | (x, none) => if e.readBody ≥ 300 then ({ x with phase := .over }, e.readBody) else ({ x with phase := .reading }, ngxDone)

def spillBody (x : RequestHolds) : RequestHolds :=
  if x.tempFile.isSome then x else { (x.take .descriptor).2 with tempFile := some (x.take .descriptor).1 }

/-- `lws_body_handler`: whether the body stream is opened, and whether a task for the request is posted, then or from the queue. -/
def bodyHolds (opened posted : Bool) (x : RequestHolds) : RequestHolds :=
  if !opened then { x with phase := .over }
  else { store .requestBody .stream x with bodyFd := x.tempFile, phase := if posted then .running else .over }

/-- A string that `lws_strdup` or `lws_run_state` allocates for a field; without memory the field is NULL. -/
def storeString (f : CtxField) (mem : Bool) (x : RequestHolds) : RequestHolds :=
  if mem then store f .memory x else x.assign f none

def redirectHolds (c : RedirectCall) (x : RequestHolds) : RequestHolds :=
  if !c.accepted then x
  else
    let x := if c.givenArgs.isSome then storeString .redirectArgs c.memArgs x else x
    if c.losesArgs then x else storeString .redirect c.mem x

/-- `lws_file_flush_hook`, for the response body. -/
def flushHolds (x : RequestHolds) : RequestHolds :=
  if (x.ctx .pipe1).isNone then x
  else ((x.use (x.ctx .responseBody)).use (x.ctx .responseBodyStr)).use (x.ctx .pipe1)

/-- Lua reads the variables or the request headers, or reads or writes the request body, the response headers or the response
body, through what `lws_push_env` hands to it. -/
def accessHolds (f : CtxField) (x : RequestHolds) : RequestHolds := x.use (x.ctx f)

/-- The end of `lws_run_state`: a diagnostic is stored after an error, if it is configured. -/
def runStateHolds (diagnostic mem : Bool) (x : RequestHolds) : RequestHolds :=
  { (if diagnostic then storeString .diagnostic mem x else x) with phase := .completed }

/-- A pass of `lws_stream_handler`, which may send the header, and may end the streaming. -/
def streamHolds (header closes : Bool) (x : RequestHolds) : RequestHolds :=
  let x := (x.use (x.ctx .streamingConn)).use x.connFd
  let x := if header then x.use (x.ctx .responseHeaders) else x
  if closes then closeConn x else x

/-- `lws_finalization_handler`: whether it inspects the pipe, and finds it unused, and whether it sends a buffered response. -/
def finalizationHolds (inspects unused buffered : Bool) (x : RequestHolds) : RequestHolds :=
  let x := x.release .pipe1
  let x :=
    if (x.ctx .streamingConn).isSome && inspects then
      let x := x.use (x.ctx .pipe0)
      if unused then closeConn x else x
    else x
  let x :=
    if buffered then ((x.use (x.ctx .responseHeaders)).use (x.ctx .responseBody)).use (x.ctx .responseBodyStr) else x
  { x with phase := .over }

/-- `lws_cleanup_request_ctx`: what a field holds is given back; the pointers of the context, which goes with its pool, stay. -/
def lwsCleanupRequestCtx (x : RequestHolds) : RequestHolds :=
  let x := (x.release .vars).release .requestHeaders
  let x := if (x.ctx .requestBody).isSome then closeBody x else x
  let x := x.release .responseHeaders
  let x := if (x.ctx .responseBody).isSome then (x.release .responseBody).release .responseBodyStr else x
  let x := if (x.ctx .streamingConn).isSome then closeConn x else x.release .pipe0
  let x := x.release .pipe1
  ((x.release .redirect).release .redirectArgs).release .diagnostic

/-- The pool of the request is destroyed: its cleanups run, the latest first, so that nginx closes the temporary file before. -/
def destroyPool (x : RequestHolds) : RequestHolds :=
  let x := { x with released := x.released ++ x.tempFile.toList, tempFile := none }
  if x.cleanup then lwsCleanupRequestCtx x else x

/-! ## Runs -/

inductive RequestEvent where
  | spill
  | body (opened posted : Bool)
  | access (f : CtxField)
  | redirect (c : RedirectCall)
  | flush
  | runState (diagnostic mem : Bool)
  | stream (header closes : Bool)
  | finalization (inspects unused buffered : Bool)

def luaFields : List CtxField := [.vars, .requestHeaders, .requestBody, .responseHeaders, .responseBody]

def RequestHolds.step (x : RequestHolds) : RequestEvent → Option RequestHolds
  | .spill => if x.phase = .reading then some (spillBody x) else none
  | .body opened posted => if x.phase = .reading then some (bodyHolds opened posted x) else none
  | .access f => if x.phase = .running ∧ f ∈ luaFields then some (accessHolds f x) else none
  | .redirect c => if x.phase = .running then some (redirectHolds c x) else none
  | .flush => if x.phase = .running then some (flushHolds x) else none
  | .runState diagnostic mem => if x.phase = .running then some (runStateHolds diagnostic mem x) else none
  | .stream header closes => if (x.ctx .streamingConn).isSome then some (streamHolds header closes x) else none
  | .finalization inspects unused buffered =>
    if x.phase = .completed then some (finalizationHolds inspects unused buffered x) else none

/-! ## What is held -/

def heldBy (ctx : CtxField → Option Resource) : List Resource := CtxField.all.flatMap fun f => (ctx f).toList

def RequestHolds.held (x : RequestHolds) : List Resource := heldBy x.ctx ++ x.tempFile.toList

def heldByOthers (f : CtxField) (ctx : CtxField → Option Resource) : List Resource :=
  (CtxField.all.erase f).flatMap fun f => (ctx f).toList

theorem CtxField.mem_all (f : CtxField) : f ∈ CtxField.all := by cases f <;> decide

theorem heldBy_split (f : CtxField) (ctx : CtxField → Option Resource) :
    (heldBy ctx).Perm ((ctx f).toList ++ heldByOthers f ctx) :=
  (List.perm_cons_erase f.mem_all).flatMap_right fun f => (ctx f).toList

theorem heldByOthers_update (f : CtxField) (r : Option Resource) (ctx : CtxField → Option Resource) :
    heldByOthers f (Function.update ctx f r) = heldByOthers f ctx := by
  refine List.flatMap_congr fun g hg => ?_
  have hne : g ≠ f := fun h => by
    subst h
    revert hg
    cases g <;> decide
  rw [Function.update_of_ne hne]

/-- **An assignment changes what is held** by what the field held and what it holds. -/
theorem count_heldBy_update (f : CtxField) (r : Option Resource) (ctx : CtxField → Option Resource) (a : Resource) :
    (heldBy (Function.update ctx f r)).count a + (ctx f).toList.count a = r.toList.count a + (heldBy ctx).count a := by
  rw [(heldBy_split f _).count_eq, (heldBy_split f ctx).count_eq, heldByOthers_update, Function.update_self, List.count_append,
    List.count_append]
  omega

/-- **What has been taken is held, dropped or given back**, each once, and `extra` is given back besides. -/
structure Ledgered (extra : List Resource) (x : RequestHolds) : Prop where
  balanced : ∃ freed, x.released.Perm (freed ++ extra) ∧ Ledger.Balanced freed (x.held ++ x.dropped) x.acquired
  fresh : ∀ r ∈ x.acquired, r.id < x.next

section
variable {extra : List Resource} {x : RequestHolds}

theorem Ledgered.acquired (h : Ledgered extra x) {r : Resource} (hr : r ∈ x.held) : r ∈ x.acquired := by
  obtain ⟨freed, -, hb⟩ := h.balanced
  exact hb.perm.subset (List.mem_append_right freed (List.mem_append_left x.dropped hr))

theorem Ledgered.not_released (h : Ledgered [] x) {r : Resource} (hr : r ∈ x.held) : r ∉ x.released := by
  obtain ⟨freed, hperm, hb⟩ := h.balanced
  rw [List.append_nil] at hperm
  rw [hperm.mem_iff]
  exact hb.not_freed (List.mem_append_left x.dropped hr)

theorem Ledgered.take_notMem (h : Ledgered extra x) (kind : ResourceKind) : (x.take kind).1 ∉ x.acquired := fun hr =>
  absurd (h.fresh _ hr) (Nat.lt_irrefl _)

theorem Ledgered.fresh_take (h : Ledgered extra x) (kind : ResourceKind) :
    ∀ r ∈ (x.take kind).2.acquired, r.id < (x.take kind).2.next := by
  intro r hr
  rcases List.mem_cons.1 hr with rfl | hr
  · exact Nat.lt_succ_self _
  · exact (h.fresh r hr).trans (Nat.lt_succ_self _)

/-- **Something new in a field**: what the field held is dropped. -/
theorem Ledgered.store (h : Ledgered extra x) (f : CtxField) (kind : ResourceKind) : Ledgered extra (x.store f kind) := by
  obtain ⟨freed, hperm, hb⟩ := h.balanced
  refine ⟨⟨freed, hperm, (hb.take (h.take_notMem kind)).held_perm (List.perm_iff_count.2 fun a => ?_)⟩, h.fresh_take kind⟩
  have hcount := count_heldBy_update f (some (x.take kind).1) x.ctx a
  simp only [RequestHolds.store, RequestHolds.assign, RequestHolds.held, RequestHolds.take, List.count_append, List.count_cons,
    Option.toList_some, List.count_nil] at hcount ⊢
  omega

/-- **A field is set to NULL**: what it held is dropped. -/
theorem Ledgered.assign_none (h : Ledgered extra x) (f : CtxField) : Ledgered extra (x.assign f none) := by
  obtain ⟨freed, hperm, hb⟩ := h.balanced
  refine ⟨⟨freed, hperm, hb.held_perm (List.perm_iff_count.2 fun a => ?_)⟩, h.fresh⟩
  have hcount := count_heldBy_update f none x.ctx a
  simp only [RequestHolds.assign, RequestHolds.held, List.count_append, Option.toList_none, List.count_nil] at hcount ⊢
  omega

theorem Ledgered.release (h : Ledgered extra x) (f : CtxField) : Ledgered extra (x.release f) := by
  obtain ⟨freed, hperm, hb⟩ := h.balanced
  refine ⟨⟨freed ++ (x.ctx f).toList, List.perm_iff_count.2 fun a => ?_, (hb.held_perm (List.perm_iff_count.2 fun a => ?_)).release⟩,
    h.fresh⟩
  · have hcount := hperm.count_eq a
    simp only [RequestHolds.release, List.count_append] at hcount ⊢
    omega
  · have hcount := count_heldBy_update f none x.ctx a
    simp only [RequestHolds.release, RequestHolds.held, List.count_append, Option.toList_none, List.count_nil] at hcount ⊢
    omega

/-- **The connection is closed**, and with it its descriptor, which is that of the pipe. -/
theorem Ledgered.closeConn (h : Ledgered extra x) (hconn : x.connFd = x.ctx .pipe0) : Ledgered extra (x.closeConn) := by
  have hclose := (h.release .streamingConn).release .pipe0
  have hne : CtxField.pipe0 ≠ .streamingConn := by decide
  have hpipe : (x.release .streamingConn).ctx .pipe0 = x.connFd := (Function.update_of_ne hne none x.ctx).trans hconn.symm
  obtain ⟨freed, hperm, hb⟩ := hclose.balanced
  refine ⟨⟨freed, ?_, hb⟩, hclose.fresh⟩
  rw [RequestHolds.release, hpipe] at hperm
  exact hperm

/-- **The body stream is closed**, and with it the descriptor it is open on, once more. -/
theorem Ledgered.closeBody (h : Ledgered [] x) : Ledgered x.bodyFd.toList x.closeBody := by
  obtain ⟨freed, hperm, hb⟩ := (h.release .requestBody).balanced
  rw [List.append_nil] at hperm
  exact ⟨⟨freed, hperm.append_right _, hb⟩, h.fresh⟩

theorem Ledgered.use (h : Ledgered [] x) {r : Option Resource} (hsome : r.isSome = true) (hr : ∀ a, r = some a → a ∈ x.held) :
    x.use r = x := by
  obtain ⟨a, rfl⟩ := Option.isSome_iff_exists.1 hsome
  have ha := hr a rfl
  refine if_pos ?_
  rw [Option.any_some]
  exact decide_eq_true ⟨h.acquired ha, h.not_released ha⟩

theorem mem_held (f : CtxField) {a : Resource} (h : x.ctx f = some a) : a ∈ x.held :=
  List.mem_append_left _ (List.mem_flatMap.2 ⟨f, f.mem_all, by rw [h]; exact List.mem_singleton_self a⟩)

theorem Ledgered.use_field (h : Ledgered [] x) {f : CtxField} (hsome : (x.ctx f).isSome = true) : x.use (x.ctx f) = x :=
  h.use hsome fun _ ha => mem_held f ha

end

/-! ## The handler -/

/-- What holds after any number of the steps of `lws_handler`. -/
def Prepared (x : RequestHolds) : Prop :=
  x.dropped = [] ∧ x.misused = [] ∧ x.tempFile = none ∧ x.bodyFd = none ∧
    (∀ f ∈ [.requestBody, .redirect, .redirectArgs, .diagnostic], x.ctx f = none) ∧
    (x.ctx .responseBody).isSome = (x.ctx .responseBodyStr).isSome ∧
    ((x.ctx .streamingConn).isSome = true → x.connFd = x.ctx .pipe0 ∧ x.connFd.isSome = true ∧
      (x.ctx .responseHeaders).isSome = true) ∧
    (x.cleanup = false → ∀ f ∈ CtxField.all, x.ctx f = none)

instance (x : RequestHolds) : Decidable (Prepared x) := by
  unfold Prepared
  infer_instance

def handlerState (streaming : Bool) (k : Nat) : RequestHolds :=
  ((handlerSteps { streaming := streaming }).take k).foldl (fun x s => s.effect x) {}

theorem runSteps_take : ∀ (steps : List HandlerStep) (x : RequestHolds),
    ∃ k, (runSteps steps x).1 = (steps.take k).foldl (fun x s => s.effect x) x ∧
      ((runSteps steps x).2 = none → k = steps.length) ∧ k ≤ steps.length
  | [], x => ⟨0, rfl, fun _ => rfl, le_rfl⟩
  | s :: steps, x => by
    rw [runSteps]
    split
    · obtain ⟨k, hk, hall, hle⟩ := runSteps_take steps (s.effect x)
      exact ⟨k + 1, hk, fun h => congrArg (· + 1) (hall h), Nat.succ_le_succ hle⟩
    · exact ⟨0, rfl, fun h => absurd h (Option.some_ne_none _), Nat.zero_le _⟩

theorem prepared_handlerState : ∀ streaming, ∀ k ≤ 16, Prepared (handlerState streaming k) := by decide +kernel

theorem handlerState_complete : ∀ streaming, ∀ f ∈ [CtxField.vars, .requestHeaders, .responseHeaders, .responseBody],
    ((handlerState streaming (handlerSteps { streaming := streaming }).length).ctx f).isSome = true := by decide +kernel

theorem ledgered_steps : ∀ {steps : List HandlerStep}, (∀ s ∈ steps, ∀ x, Ledgered [] x → Ledgered [] (s.effect x)) →
    ∀ {x : RequestHolds}, Ledgered [] x → Ledgered [] (steps.foldl (fun x s => s.effect x) x)
  | [], _, _, h => h
  | s :: _, hsteps, x, h => ledgered_steps (fun s hs => hsteps s (List.mem_cons_of_mem _ hs)) (hsteps s List.mem_cons_self x h)

theorem ledgered_handlerState (streaming : Bool) (k : Nat) : Ledgered [] (handlerState streaming k) := by
  have hkeep (e : HandlerEnv) : ∀ s ∈ handlerSteps e, ∀ x, Ledgered [] x → Ledgered [] (s.effect x) := by
    intro s hs x h
    have hstore (f : CtxField) (kind : ResourceKind) : Ledgered [] (x.store f kind) := h.store f kind
    rcases List.mem_append.1 hs with hs | hs
    · simp only [List.mem_cons, List.not_mem_nil, or_false] at hs
      obtain rfl | rfl | rfl | rfl | rfl | rfl | rfl | rfl | rfl | rfl | rfl | rfl := hs
      all_goals first | exact h | exact hstore _ _ | exact (hstore _ _).store _ _ | exact ⟨h.balanced, h.fresh⟩
    · split at hs
      · simp only [List.mem_cons, List.not_mem_nil, or_false] at hs
        obtain rfl | rfl | rfl | rfl := hs
        · exact (hstore _ _).store _ _
        · exact h
        · have hconn := hstore .streamingConn .connection
          exact ⟨hconn.balanced, hconn.fresh⟩
        · exact h
      · cases hs
  refine ledgered_steps (fun s hs => hkeep _ s (List.mem_of_mem_take hs)) ⟨⟨[], List.Perm.refl [], ?_⟩, fun r hr => ?_⟩
  · exact Ledger.balanced_nil
  · cases hr

/-- **What holds of a request after any events**, whatever its strings. -/
structure RequestHolds.Custody (x : RequestHolds) : Prop where
  ledger : Ledgered [] x
  conn : (x.ctx .streamingConn).isSome = true → x.connFd = x.ctx .pipe0 ∧ x.connFd.isSome = true ∧
    (x.ctx .responseHeaders).isSome = true
  bodyFd : x.bodyFd = none ∨ (x.ctx .requestBody).isSome = true ∧ x.bodyFd = x.tempFile
  str : (x.ctx .responseBody).isSome = (x.ctx .responseBodyStr).isSome
  misused : x.misused = []
  cleanup : x.cleanup = false → x.held = []
  started : x.phase ≠ .over → ∀ f ∈ [CtxField.vars, .requestHeaders, .responseHeaders, .responseBody], (x.ctx f).isSome = true
  reading : x.phase = .reading → x.ctx .requestBody = none
  body : x.phase = .running ∨ x.phase = .completed → (x.ctx .requestBody).isSome = true

/-- **What holds of a request after any events**, of which `n` were redirects. -/
structure RequestHolds.Sound (n : Nat) (x : RequestHolds) : Prop extends x.Custody where
  diagnostic : x.phase = .reading ∨ x.phase = .running → x.ctx .diagnostic = none
  strings : n = 0 → x.ctx .redirect = none ∧ x.ctx .redirectArgs = none
  memory : ∀ f ∈ [CtxField.redirect, .redirectArgs], ∀ r, x.ctx f = some r → r.kind = .memory
  dropped : ∀ r ∈ x.dropped, r.kind = .memory
  once : n ≤ 1 → x.dropped = []

theorem foldl_effect (steps : List HandlerStep) (x : RequestHolds) :
    steps.foldl (fun x s => s.effect x) x = (steps.map HandlerStep.effect).foldl (fun x f => f x) x := by
  rw [List.foldl_map]

/-- **Whatever `lws_handler` meets**, it leaves the request after some of its steps; after all of them, if it goes on. -/
theorem lwsHandler_state (e : HandlerEnv) : ∃ k ≤ 16, ∃ phase,
    (lwsHandler e {}).1 = { handlerState e.streaming k with phase := phase } ∧
      (phase = .over ∨ phase = .reading ∧ k = (handlerSteps { streaming := e.streaming }).length) := by
  have heffects : (handlerSteps e).map HandlerStep.effect = (handlerSteps { streaming := e.streaming }).map HandlerStep.effect := by
    cases h : e.streaming with
    | true => simp only [handlerSteps, h]; rfl
    | false => simp only [handlerSteps, h]; rfl
  have hlen : (handlerSteps e).length = (handlerSteps { streaming := e.streaming }).length := by
    have := congrArg List.length heffects
    rwa [List.length_map, List.length_map] at this
  have hle16 : ∀ streaming, (handlerSteps { streaming := streaming }).length ≤ 16 := by decide
  obtain ⟨k, hk, hall, hle⟩ := runSteps_take (handlerSteps e) {}
  have hstate : (runSteps (handlerSteps e) {}).1 = handlerState e.streaming k := by
    rw [hk, handlerState, foldl_effect, foldl_effect, List.map_take, List.map_take, heffects]
  refine ⟨k, (hlen ▸ hle).trans (hle16 _), ?_⟩
  unfold lwsHandler
  generalize runSteps (handlerSteps e) {} = r at hstate hall
  obtain ⟨x, rc⟩ := r
  obtain rfl : x = handlerState e.streaming k := hstate
  cases rc with
  | some rc => exact ⟨.over, rfl, .inl rfl⟩
  | none =>
    dsimp only
    split
    · exact ⟨.over, rfl, .inl rfl⟩
    · exact ⟨.reading, rfl, .inr ⟨rfl, (hall rfl).trans hlen⟩⟩

theorem lwsHandler_sound (e : HandlerEnv) : (lwsHandler e {}).1.Sound 0 := by
  obtain ⟨k, hk, phase, hx, hphase⟩ := lwsHandler_state e
  obtain ⟨hdropped, hmisused, htemp, hbodyFd, hnone, hstr, hconn, hcleanup⟩ := prepared_handlerState e.streaming k hk
  have hledger := ledgered_handlerState e.streaming k
  rw [hx]
  refine ⟨⟨⟨hledger.balanced, hledger.fresh⟩, hconn, .inl hbodyFd, hstr, hmisused, fun h => ?_, fun h => ?_, fun h => ?_, fun h => ?_⟩,
    fun _ => hnone _ (by decide), fun _ => ⟨hnone _ (by decide), hnone _ (by decide)⟩, fun f hf r hr => ?_, fun r hr => ?_,
    fun _ => hdropped⟩
  · refine List.append_eq_nil_iff.2 ⟨List.flatMap_eq_nil_iff.2 fun f hf => ?_, by rw [htemp]; rfl⟩
    rw [hcleanup h f hf]
    rfl
  · obtain ⟨-, rfl⟩ := hphase.resolve_left h
    exact handlerState_complete e.streaming
  · obtain rfl | ⟨-, rfl⟩ := hphase
    · cases h
    · exact hnone _ (by decide)
  · obtain rfl | ⟨rfl, -⟩ := hphase
    · rcases h with h | h <;> cases h
    · rcases h with h | h <;> cases h
  · have hsub : ∀ f ∈ [CtxField.redirect, .redirectArgs], f ∈ [CtxField.requestBody, .redirect, .redirectArgs, .diagnostic] := by
      decide
    exact absurd ((hnone f (hsub f hf)).symm.trans hr) (Option.some_ne_none r).symm
  · have hr' : r ∈ (handlerState e.streaming k).dropped := hr
    rw [hdropped] at hr'
    cases hr'

/-! ## The events -/

section
variable {n : Nat} {x : RequestHolds}

theorem RequestHolds.Custody.registered (h : x.Custody) {f : CtxField} (hf : (x.ctx f).isSome = true) : x.cleanup = true := by
  obtain ⟨r, hr⟩ := Option.isSome_iff_exists.1 hf
  refine Bool.of_not_eq_false fun hc => ?_
  have hheld := mem_held f hr
  rw [h.cleanup hc] at hheld
  cases hheld

theorem RequestHolds.Custody.registered_of_phase (h : x.Custody) (hphase : x.phase ≠ .over) : x.cleanup = true :=
  h.registered (h.started hphase .vars List.mem_cons_self)

theorem RequestHolds.Sound.over (h : x.Sound n) : RequestHolds.Sound n { x with phase := .over } :=
  { h with
    ledger := ⟨h.ledger.balanced, h.ledger.fresh⟩
    started := fun hne => absurd rfl hne
    reading := fun hphase => by cases hphase
    body := fun hphase => by rcases hphase with hphase | hphase <;> cases hphase
    diagnostic := fun hphase => by rcases hphase with hphase | hphase <;> cases hphase }

theorem RequestHolds.Sound.spill (h : x.Sound n) (hphase : x.phase = .reading) : (spillBody x).Sound n := by
  have hbody := h.reading hphase
  have hcleanup := h.registered_of_phase (by rw [hphase]; decide)
  unfold spillBody
  split
  · exact h
  · next htemp =>
    have hnone : x.tempFile = none := by simpa using htemp
    have hbodyFd : x.bodyFd = none := h.bodyFd.resolve_right fun hb => by
      rw [hbody] at hb
      exact absurd hb.1 Bool.false_ne_true
    obtain ⟨freed, hperm, hb⟩ := h.ledger.balanced
    refine { h with
      ledger := ⟨⟨freed, hperm, (hb.take (h.ledger.take_notMem .descriptor)).held_perm (List.perm_iff_count.2 fun a => ?_)⟩,
        h.ledger.fresh_take .descriptor⟩
      bodyFd := .inl hbodyFd
      cleanup := fun hc => absurd (hcleanup.symm.trans hc) Bool.noConfusion }
    simp only [RequestHolds.held, RequestHolds.take, List.count_append, List.count_cons, Option.toList_some, List.count_nil, hnone,
      Option.toList_none]
    omega

/-- **The body has been read**: a stream is opened for it. -/
theorem RequestHolds.Sound.bodyHandler (h : x.Sound n) (hphase : x.phase = .reading) (opened posted : Bool) :
    (bodyHolds opened posted x).Sound n := by
  have hne : x.phase ≠ .over := by rw [hphase]; decide
  have hcleanup := h.registered_of_phase hne
  have hdropped : (x.store .requestBody .stream).dropped = x.dropped := by
    change x.dropped ++ (x.ctx .requestBody).toList = x.dropped
    rw [h.reading hphase, Option.toList_none, List.append_nil]
  have hopen : RequestHolds.Sound n { x.store .requestBody .stream with bodyFd := x.tempFile, phase := .running } := by
    have hstore := h.ledger.store .requestBody .stream
    exact
      { ledger := ⟨hstore.balanced, hstore.fresh⟩
        conn := by simpa using h.conn
        bodyFd := .inr ⟨by simp, rfl⟩
        str := by simpa using h.str
        misused := h.misused
        cleanup := fun hc => absurd (hcleanup.symm.trans hc) Bool.noConfusion
        started := fun _ => by simpa using h.started hne
        reading := fun hp => by cases hp
        body := fun _ => by simp
        diagnostic := fun _ => by simpa using h.diagnostic (.inl hphase)
        strings := by simpa using h.strings
        memory := by simpa using h.memory
        dropped := fun r hr => h.dropped r (by rwa [hdropped] at hr)
        once := fun hn => hdropped.trans (h.once hn) }
  unfold bodyHolds
  cases opened with
  | false => exact h.over
  | true =>
    cases posted with
    | true => exact hopen
    | false => exact hopen.over

theorem storeString_dropped (f : CtxField) (mem : Bool) (x : RequestHolds) :
    (storeString f mem x).dropped = x.dropped ++ (x.ctx f).toList := by
  cases mem <;> rfl

theorem storeString_phase (f : CtxField) (mem : Bool) (x : RequestHolds) : (storeString f mem x).phase = x.phase := by
  cases mem <;> rfl

theorem storeString_ctx_of_ne {f g : CtxField} (hne : g ≠ f) (mem : Bool) (x : RequestHolds) :
    (storeString f mem x).ctx g = x.ctx g := by
  cases mem <;> exact Function.update_of_ne hne _ _

theorem storeString_kind {f : CtxField} {mem : Bool} {r : Resource} (h : (storeString f mem x).ctx f = some r) : r.kind = .memory := by
  cases mem with
  | true =>
    have hr : some (x.take .memory).1 = some r := by simpa [storeString] using h
    exact Option.some.inj hr ▸ rfl
  | false => simp [storeString] at h

/-- **A string is stored**: what its field held is dropped. -/
theorem RequestHolds.Custody.stored (h : x.Custody) (hphase : x.phase = .running) {f : CtxField}
    (hf : f ∈ [CtxField.redirect, .redirectArgs, .diagnostic]) (mem : Bool) : (storeString f mem x).Custody := by
  have hne : x.phase ≠ .over := by rw [hphase]; decide
  have hcleanup := h.registered_of_phase hne
  have hframe {g : CtxField} (hg : g ∉ [CtxField.redirect, .redirectArgs, .diagnostic]) :
      (storeString f mem x).ctx g = x.ctx g := storeString_ctx_of_ne (ne_of_mem_of_not_mem hf hg).symm mem x
  have hrest : (storeString f mem x).connFd = x.connFd ∧ (storeString f mem x).bodyFd = x.bodyFd ∧
      (storeString f mem x).tempFile = x.tempFile ∧ (storeString f mem x).cleanup = x.cleanup ∧
      (storeString f mem x).misused = x.misused := by
    cases mem <;> exact ⟨rfl, rfl, rfl, rfl, rfl⟩
  obtain ⟨hconnFd, hbodyFd, htemp, hclean, hmisused⟩ := hrest
  refine ⟨?_, ?_, ?_, ?_, ?_, ?_, ?_, ?_, ?_⟩
  · cases mem with
    | true => exact h.ledger.store f .memory
    | false => exact h.ledger.assign_none f
  · rw [hframe (by decide), hframe (by decide), hframe (by decide), hconnFd]
    exact h.conn
  · rw [hframe (by decide), hbodyFd, htemp]
    exact h.bodyFd
  · rw [hframe (by decide), hframe (by decide)]
    exact h.str
  · exact hmisused.trans h.misused
  · exact fun hc => absurd (hcleanup.symm.trans (hclean.symm.trans hc)) Bool.noConfusion
  · intro _ g hg
    rw [hframe (by revert g; decide)]
    exact h.started hne g hg
  · rw [storeString_phase, hphase]
    exact fun hp => by cases hp
  · rw [hframe (by decide)]
    exact fun _ => h.body (.inl hphase)

theorem RequestHolds.Sound.stored (h : x.Sound n) (hphase : x.phase = .running) {f : CtxField}
    (hf : f ∈ [CtxField.redirect, .redirectArgs]) (mem : Bool) : (storeString f mem x).Sound 2 := by
  have hcustody := h.toCustody.stored hphase (List.mem_append_left [CtxField.diagnostic] hf) mem
  refine ⟨hcustody, fun _ => ?_, (fun hz => by cases hz), fun g hg r hr => ?_, fun r hr => ?_, fun hle => by omega⟩
  · have hne : CtxField.diagnostic ≠ f := fun heq => by
      subst heq
      revert hf
      decide
    rw [storeString_ctx_of_ne hne]
    exact h.diagnostic (.inr hphase)
  · by_cases hgf : g = f
    · subst hgf
      exact storeString_kind hr
    · rw [storeString_ctx_of_ne hgf] at hr
      exact h.memory g hg r hr
  · rw [storeString_dropped] at hr
    rcases List.mem_append.1 hr with hr | hr
    · exact h.dropped r hr
    · exact h.memory f hf r (Option.mem_toList.1 hr)

theorem RequestHolds.Sound.redirect (h : x.Sound n) (hphase : x.phase = .running) (c : RedirectCall) :
    (redirectHolds c x).Sound (n + if c.accepted then 1 else 0) := by
  unfold redirectHolds
  cases c.accepted with
  | false => exact h
  | true =>
    simp only [Bool.not_true, Bool.false_eq_true, if_false, if_true]
    have hmany : x.Sound 2 := { h with strings := (fun hz => by cases hz), once := (fun hle => by omega) }
    have hargs : (if c.givenArgs.isSome then storeString .redirectArgs c.memArgs x else x).Sound 2 := by
      split
      · exact h.stored hphase (by decide) c.memArgs
      · exact hmany
    have hargsPhase : (if c.givenArgs.isSome then storeString .redirectArgs c.memArgs x else x).phase = .running := by
      split
      · rw [storeString_phase, hphase]
      · exact hphase
    have hargsDropped : n = 0 → (if c.givenArgs.isSome then storeString .redirectArgs c.memArgs x else x).dropped = [] ∧
        (if c.givenArgs.isSome then storeString .redirectArgs c.memArgs x else x).ctx .redirect = none := by
      intro hn
      obtain ⟨hredirect, hredirectArgs⟩ := h.strings hn
      have hnone := h.once (hn ▸ Nat.zero_le 1)
      split
      · rw [storeString_dropped, storeString_ctx_of_ne (by decide), hnone, hredirectArgs]
        exact ⟨rfl, hredirect⟩
      · exact ⟨hnone, hredirect⟩
    generalize (if c.givenArgs.isSome then storeString .redirectArgs c.memArgs x else x) = y at hargs hargsPhase hargsDropped ⊢
    split
    · exact { hargs with
        strings := fun hz => by cases hz
        once := fun hle => (hargsDropped (by omega)).1 }
    · exact { hargs.stored hargsPhase (by decide) c.mem with
        strings := fun hz => by cases hz
        once := fun hle => by
          obtain ⟨hdropped, hredirect⟩ := hargsDropped (by omega)
          rw [storeString_dropped, hdropped, hredirect]
          rfl }

theorem RequestHolds.Sound.runState (h : x.Sound n) (hphase : x.phase = .running) (diagnostic mem : Bool) :
    (runStateHolds diagnostic mem x).Sound n := by
  have hcompleted {y : RequestHolds} (hy : y.Custody) (hyphase : y.phase = .running) :
      RequestHolds.Custody { y with phase := .completed } :=
    { hy with
      ledger := ⟨hy.ledger.balanced, hy.ledger.fresh⟩
      started := fun _ => hy.started (by rw [hyphase]; decide)
      reading := fun hp => by cases hp
      body := fun _ => hy.body (.inl hyphase) }
  unfold runStateHolds
  cases diagnostic with
  | false =>
    exact { hcompleted h.toCustody hphase, h with
      diagnostic := fun hp => by rcases hp with hp | hp <;> cases hp }
  | true =>
    have hdropped : (storeString .diagnostic mem x).dropped = x.dropped := by
      rw [storeString_dropped, h.diagnostic (.inr hphase), Option.toList_none, List.append_nil]
    have hctx {g : CtxField} (hg : g ∈ [CtxField.redirect, .redirectArgs]) :
        (storeString .diagnostic mem x).ctx g = x.ctx g := storeString_ctx_of_ne (by revert g; decide) mem x
    refine ⟨hcompleted (h.toCustody.stored hphase (by decide) mem) ((storeString_phase _ _ _).trans hphase), ?_, ?_, ?_, ?_, ?_⟩
    · exact fun hp => by rcases hp with hp | hp <;> cases hp
    · exact fun hz => ⟨(hctx (by decide)).trans (h.strings hz).1, (hctx (by decide)).trans (h.strings hz).2⟩
    · exact fun g hg r hr => h.memory g hg r ((hctx hg).symm.trans hr)
    · exact fun r hr => h.dropped r (hdropped ▸ hr)
    · exact fun hle => hdropped.trans (h.once hle)

theorem RequestHolds.Sound.access (h : x.Sound n) (hphase : x.phase = .running) {f : CtxField} (hf : f ∈ luaFields) :
    accessHolds f x = x := by
  refine h.ledger.use_field ?_
  have hstarted := h.started (by rw [hphase]; decide)
  simp only [luaFields, List.mem_cons, List.not_mem_nil, or_false] at hf
  obtain rfl | rfl | rfl | rfl | rfl := hf
  · exact hstarted _ (by decide)
  · exact hstarted _ (by decide)
  · exact h.body (.inl hphase)
  · exact hstarted _ (by decide)
  · exact hstarted _ (by decide)

/-- **The flush hook** writes the response body to the pipe. -/
theorem RequestHolds.Sound.flush (h : x.Sound n) (hphase : x.phase = .running) : flushHolds x = x := by
  have hbody := h.started (by rw [hphase]; decide) .responseBody (by decide)
  unfold flushHolds
  split
  · rfl
  · next hpipe =>
    rw [h.ledger.use_field hbody, h.ledger.use_field (h.str ▸ hbody),
      h.ledger.use_field (by rwa [Bool.not_eq_true, Option.isNone_eq_false_iff] at hpipe)]

theorem RequestHolds.Sound.closeConn (h : x.Sound n) (hopen : (x.ctx .streamingConn).isSome = true) : x.closeConn.Sound n := by
  obtain ⟨hconnFd, -, -⟩ := h.conn hopen
  have hctx {g : CtxField} (hg : g ∉ [CtxField.streamingConn, .pipe0]) : x.closeConn.ctx g = x.ctx g :=
    closeConn_ctx_of_ne (fun heq => hg (by rw [heq]; decide)) (fun heq => hg (by rw [heq]; decide)) x
  exact
    { ledger := h.ledger.closeConn hconnFd
      conn := fun hsome => Bool.noConfusion hsome
      bodyFd := by
        rw [hctx (by decide)]
        exact h.bodyFd
      str := by
        rw [hctx (by decide), hctx (by decide)]
        exact h.str
      misused := h.misused
      cleanup := fun hc => absurd ((h.registered hopen).symm.trans hc) Bool.noConfusion
      started := fun hne f hf => by
        rw [hctx (by revert f; decide)]
        exact h.started hne f hf
      reading := fun hp => (hctx (by decide)).trans (h.reading hp)
      body := fun hp => by
        rw [hctx (by decide)]
        exact h.body hp
      diagnostic := fun hp => (hctx (by decide)).trans (h.diagnostic hp)
      strings := fun hz => ⟨(hctx (by decide)).trans (h.strings hz).1, (hctx (by decide)).trans (h.strings hz).2⟩
      memory := fun f hf r hr => by
        have hg : f ∉ [CtxField.streamingConn, .pipe0] := by
          clear hr
          revert f
          decide
        exact h.memory f hf r ((hctx hg).symm.trans hr)
      dropped := h.dropped
      once := h.once }

theorem RequestHolds.Sound.stream (h : x.Sound n) (hopen : (x.ctx .streamingConn).isSome = true) (header closes : Bool) :
    (streamHolds header closes x).Sound n := by
  obtain ⟨hconnFd, hfd, hheaders⟩ := h.conn hopen
  have huse : (x.use (x.ctx .streamingConn)).use x.connFd = x := by
    rw [h.ledger.use_field hopen, hconnFd, h.ledger.use_field (hconnFd ▸ hfd)]
  have hused : (if header then x.use (x.ctx .responseHeaders) else x) = x := by
    rw [h.ledger.use_field hheaders, ite_self]
  unfold streamHolds
  simp only [huse, hused]
  split
  · exact h.closeConn hopen
  · exact h

theorem RequestHolds.Sound.release_pipe1 (h : x.Sound n) : (x.release .pipe1).Sound n := by
  have hctx {g : CtxField} (hg : g ≠ .pipe1) : (x.release .pipe1).ctx g = x.ctx g := by rw [release_ctx, if_neg hg]
  have hheld (hc : x.cleanup = false) : (x.release .pipe1).held = [] := by
    have hnone (f : CtxField) : x.ctx f = none := by
      refine Option.eq_none_iff_forall_ne_some.2 fun r hr => ?_
      exact absurd ((h.registered (Option.isSome_iff_exists.2 ⟨r, hr⟩)).symm.trans hc) Bool.noConfusion
    have hsame : (x.release .pipe1).held = x.held := by
      change heldBy (Function.update x.ctx .pipe1 none) ++ _ = _
      rw [← hnone .pipe1, Function.update_eq_self]
      rfl
    exact hsame.trans (h.cleanup hc)
  exact
    { ledger := h.ledger.release .pipe1
      conn := by simpa using h.conn
      bodyFd := by simpa using h.bodyFd
      str := by simpa using h.str
      misused := h.misused
      cleanup := hheld
      started := fun hne => by simpa using h.started hne
      reading := fun hp => (hctx (by decide)).trans (h.reading hp)
      body := fun hp => by simpa using h.body hp
      diagnostic := fun hp => (hctx (by decide)).trans (h.diagnostic hp)
      strings := by simpa using h.strings
      memory := by simpa using h.memory
      dropped := h.dropped
      once := h.once }

theorem RequestHolds.Sound.finalization (h : x.Sound n) (hphase : x.phase = .completed) (inspects unused buffered : Bool) :
    (finalizationHolds inspects unused buffered x).Sound n := by
  have hclosed := h.release_pipe1
  have hcompleted : (x.release .pipe1).phase = .completed := hphase
  unfold finalizationHolds
  generalize x.release .pipe1 = y at hclosed hcompleted
  have hstarted := hclosed.started (by rw [hcompleted]; decide)
  -- the pipe is inspected only while its connection is open
  have hpipe (hopen : ((y.ctx .streamingConn).isSome && inspects) = true) : y.use (y.ctx .pipe0) = y := by
    obtain ⟨hconnFd, hfd, -⟩ := hclosed.conn (Bool.and_eq_true_iff.1 hopen).1
    exact hclosed.ledger.use_field (hconnFd ▸ hfd)
  have hinspected : ∃ z, (if ((y.ctx .streamingConn).isSome && inspects) = true then
        if unused = true then (y.use (y.ctx .pipe0)).closeConn else y.use (y.ctx .pipe0) else y) = z ∧ z.Sound n ∧
      z.phase = .completed := by
    refine ⟨_, rfl, ?_⟩
    split
    · next hopen =>
      rw [hpipe hopen]
      split
      · exact ⟨hclosed.closeConn (Bool.and_eq_true_iff.1 hopen).1, hcompleted⟩
      · exact ⟨hclosed, hcompleted⟩
    · exact ⟨hclosed, hcompleted⟩
  obtain ⟨z, hz, hsound, hzphase⟩ := hinspected
  have hbody := hsound.started (by rw [hzphase]; decide)
  have huse : ((z.use (z.ctx .responseHeaders)).use (z.ctx .responseBody)).use (z.ctx .responseBodyStr) = z := by
    rw [hsound.ledger.use_field (hbody _ (by decide)), hsound.ledger.use_field (hbody _ (by decide)),
      hsound.ledger.use_field (hsound.str ▸ hbody .responseBody (by decide))]
  simp only [hz, huse, ite_self]
  exact hsound.over

/-- `lws_redirect` accepts the event. -/
def RequestEvent.redirects : RequestEvent → Bool
  | .redirect c => c.accepted
  | _ => false

theorem RequestHolds.Sound.step (h : x.Sound n) {ev : RequestEvent} {y : RequestHolds} (hy : x.step ev = some y) :
    y.Sound (n + if ev.redirects then 1 else 0) := by
  cases ev with
  | redirect c =>
    simp only [RequestHolds.step, Option.ite_none_right_eq_some, Option.some.injEq] at hy
    obtain ⟨hphase, rfl⟩ := hy
    exact h.redirect hphase c
  | spill =>
    simp only [RequestHolds.step, Option.ite_none_right_eq_some, Option.some.injEq] at hy
    obtain ⟨hphase, rfl⟩ := hy
    exact h.spill hphase
  | body opened posted =>
    simp only [RequestHolds.step, Option.ite_none_right_eq_some, Option.some.injEq] at hy
    obtain ⟨hphase, rfl⟩ := hy
    exact h.bodyHandler hphase opened posted
  | access f =>
    simp only [RequestHolds.step, Option.ite_none_right_eq_some, Option.some.injEq] at hy
    obtain ⟨⟨hphase, hf⟩, rfl⟩ := hy
    rw [h.access hphase hf]
    exact h
  | flush =>
    simp only [RequestHolds.step, Option.ite_none_right_eq_some, Option.some.injEq] at hy
    obtain ⟨hphase, rfl⟩ := hy
    rw [h.flush hphase]
    exact h
  | runState diagnostic mem =>
    simp only [RequestHolds.step, Option.ite_none_right_eq_some, Option.some.injEq] at hy
    obtain ⟨hphase, rfl⟩ := hy
    exact h.runState hphase diagnostic mem
  | stream header closes =>
    simp only [RequestHolds.step, Option.ite_none_right_eq_some, Option.some.injEq] at hy
    obtain ⟨hopen, rfl⟩ := hy
    exact h.stream hopen header closes
  | finalization inspects unused buffered =>
    simp only [RequestHolds.step, Option.ite_none_right_eq_some, Option.some.injEq] at hy
    obtain ⟨hphase, rfl⟩ := hy
    exact h.finalization hphase inspects unused buffered

theorem RequestHolds.Sound.run : ∀ {events : List RequestEvent} {n : Nat} {x y : RequestHolds}, x.Sound n →
    events.foldlM RequestHolds.step x = some y → y.Sound (n + events.countP RequestEvent.redirects)
  | [], n, x, y, h, hy => by
    obtain rfl := Option.some.inj hy
    exact h
  | ev :: events, n, x, y, h, hy => by
    rw [List.foldlM_cons] at hy
    obtain ⟨z, hz, hrun⟩ := Option.bind_eq_some_iff.1 hy
    have hstep := RequestHolds.Sound.run (h.step hz) hrun
    rw [List.countP_cons, Nat.add_comm (events.countP _), ← Nat.add_assoc]
    exact hstep

/-! ## The pool is destroyed -/

theorem lwsCleanupRequestCtx_ctx (hstr : (x.ctx .responseBody).isSome = (x.ctx .responseBodyStr).isSome) (f : CtxField) :
    (lwsCleanupRequestCtx x).ctx f = none := by
  unfold lwsCleanupRequestCtx
  cases hb : x.ctx .requestBody <;> cases hr : x.ctx .responseBody <;> cases hc : x.ctx .streamingConn <;> cases f <;>
    simp_all [closeBody, closeConn]

/-- **The cleanup gives back what is held**, and closes the body's descriptor besides. -/
theorem Ledgered.cleanup (h : Ledgered [] x) (hconn : (x.ctx .streamingConn).isSome = true → x.connFd = x.ctx .pipe0)
    (hbodyFd : x.bodyFd = none ∨ (x.ctx .requestBody).isSome = true) : Ledgered x.bodyFd.toList (lwsCleanupRequestCtx x) := by
  -- what precedes the connection leaves it and the pipe as they are
  have hbody : ∃ y, (if (((x.release .vars).release .requestHeaders).ctx .requestBody).isSome
        then ((x.release .vars).release .requestHeaders).closeBody else (x.release .vars).release .requestHeaders) = y ∧
      Ledgered x.bodyFd.toList y ∧ y.connFd = x.connFd ∧ ∀ f ∈ [CtxField.streamingConn, .pipe0], y.ctx f = x.ctx f := by
    have htables := (h.release .vars).release .requestHeaders
    refine ⟨_, rfl, ?_⟩
    split
    · exact ⟨htables.closeBody, rfl, by simp [RequestHolds.closeBody]⟩
    · next hnone =>
      rw [release_ctx, release_ctx] at hnone
      rw [hbodyFd.resolve_right hnone]
      exact ⟨htables, rfl, by simp⟩
  obtain ⟨y, hy, hledger, hfd, hctx⟩ := hbody
  have hresponse : ∃ z, (if ((y.release .responseHeaders).ctx .responseBody).isSome
        then ((y.release .responseHeaders).release .responseBody).release .responseBodyStr else y.release .responseHeaders) = z ∧
      Ledgered x.bodyFd.toList z ∧ z.connFd = x.connFd ∧ ∀ f ∈ [CtxField.streamingConn, .pipe0], z.ctx f = x.ctx f := by
    have hheaders := hledger.release .responseHeaders
    refine ⟨_, rfl, ?_⟩
    split
    · exact ⟨(hheaders.release .responseBody).release .responseBodyStr, hfd, by simpa using hctx⟩
    · exact ⟨hheaders, hfd, by simpa using hctx⟩
  obtain ⟨z, hz, hledger, hfd, hctx⟩ := hresponse
  have hclosed : Ledgered x.bodyFd.toList (if (z.ctx .streamingConn).isSome then z.closeConn else z.release .pipe0) := by
    split
    · next hopen =>
      rw [hctx _ (by decide)] at hopen
      exact hledger.closeConn (hfd.trans ((hconn hopen).trans (hctx _ (by decide)).symm))
    · exact hledger.release .pipe0
  unfold lwsCleanupRequestCtx
  simp only [hy, hz]
  exact (((hclosed.release .pipe1).release .redirect).release .redirectArgs).release .diagnostic

theorem lwsCleanupRequestCtx_frame (x : RequestHolds) : (lwsCleanupRequestCtx x).acquired = x.acquired ∧
    (lwsCleanupRequestCtx x).dropped = x.dropped ∧ (lwsCleanupRequestCtx x).tempFile = x.tempFile := by
  unfold lwsCleanupRequestCtx
  dsimp only
  split <;> split <;> split <;> exact ⟨rfl, rfl, rfl⟩

theorem Ledgered.closeTempFile (h : Ledgered [] x) :
    Ledgered [] { x with released := x.released ++ x.tempFile.toList, tempFile := none } := by
  obtain ⟨freed, hperm, hb⟩ := h.balanced
  refine ⟨⟨freed ++ x.tempFile.toList, ?_, (hb.held_perm (List.perm_iff_count.2 fun a => ?_)).release⟩, h.fresh⟩
  · rw [List.append_nil] at hperm ⊢
    exact hperm.append_right _
  · simp only [RequestHolds.held, List.count_append, Option.toList_none, List.count_nil]
    omega

/-- **Once its pool is destroyed, a request holds nothing**: what it took has been given back, save what was dropped; and the
descriptor that the body's stream is open on has been closed once more. -/
theorem RequestHolds.Sound.destroyed (h : x.Sound n) : (∀ f, (destroyPool x).ctx f = none) ∧ ∀ r, (destroyPool x).released.count r =
    (if r ∈ x.acquired ∧ r ∉ x.dropped then 1 else 0) + if x.bodyFd = some r then 1 else 0 := by
  have hledger := h.ledger.closeTempFile
  have hconn (hopen : (x.ctx .streamingConn).isSome = true) : x.connFd = x.ctx .pipe0 := (h.conn hopen).1
  have hpool : Ledgered x.bodyFd.toList (destroyPool x) ∧ (∀ f, (destroyPool x).ctx f = none) ∧
      (destroyPool x).acquired = x.acquired ∧ (destroyPool x).dropped = x.dropped ∧ (destroyPool x).tempFile = none := by
    unfold destroyPool
    dsimp only
    split
    · exact ⟨hledger.cleanup hconn (h.bodyFd.imp_right And.left), lwsCleanupRequestCtx_ctx h.str, lwsCleanupRequestCtx_frame _⟩
    · next hc =>
      have hnone (f : CtxField) : x.ctx f = none := Option.not_isSome_iff_eq_none.1 fun hf => hc (h.registered hf)
      have hbodyFd : x.bodyFd = none := h.bodyFd.resolve_right fun hb => by
        rw [hnone] at hb
        exact Bool.noConfusion hb.1
      refine ⟨?_, hnone, rfl, rfl, rfl⟩
      rw [hbodyFd]
      exact ⟨hledger.balanced, hledger.fresh⟩
  obtain ⟨⟨⟨freed, hperm, hb⟩, -⟩, hnone, hacquired, hdropped, htemp⟩ := hpool
  refine ⟨hnone, fun r => ?_⟩
  have hheld : (destroyPool x).held = [] := by
    rw [RequestHolds.held, htemp]
    exact List.append_eq_nil_iff.2 ⟨List.flatMap_eq_nil_iff.2 fun f _ => by rw [hnone f]; rfl, rfl⟩
  rw [hheld, List.nil_append, hdropped, hacquired] at hb
  rw [hperm.count_eq, List.count_append, hb.count_freed_held r]
  cases x.bodyFd with
  | none => simp
  | some fd => simp [List.count_singleton, Bool.beq_eq_decide_eq]

end

/-- **Whatever a request meets on its way, its end gives back what it took**: nothing is used while it is not held, and once the
pool is destroyed, everything taken has been given back exactly once.  There are two exceptions.  The descriptor of a body that nginx
keeps in a temporary file is closed twice, as the stream that was opened on it closes it too; and of several redirects, the strings
of all but the last are lost. -/
theorem request_is_given_back (e : HandlerEnv) (events : List RequestEvent) {x : RequestHolds}
    (hrun : events.foldlM RequestHolds.step (lwsHandler e {}).1 = some x) :
    x.misused = [] ∧ (∀ f, (destroyPool x).ctx f = none) ∧
      (∀ r, (destroyPool x).released.count r =
        (if r ∈ x.acquired ∧ r ∉ x.dropped then 1 else 0) + if x.bodyFd = some r then 1 else 0) ∧
      (∀ r, x.bodyFd = some r → x.tempFile = some r) ∧ (∀ r ∈ x.dropped, r.kind = .memory) ∧
      (events.countP RequestEvent.redirects ≤ 1 → x.dropped = []) := by
  have hsound := (lwsHandler_sound e).run hrun
  rw [Nat.zero_add] at hsound
  refine ⟨hsound.misused, hsound.destroyed.1, hsound.destroyed.2, fun r hr => ?_, hsound.dropped, hsound.once⟩
  obtain hnone | ⟨-, htemp⟩ := hsound.bodyFd
  · rw [hnone] at hr
    cases hr
  · exact htemp.symm.trans hr

def spilledRun : List RequestEvent :=
  let c : RedirectCall := { lctx := { chunk := .main }, path := [0x2F] }
  [.spill, .body true true, .redirect c, .redirect c, .runState true true, .finalization true true false]

/-- The descriptor is closed twice, and a path is lost. -/
theorem request_is_given_back_spilled : ∃ x, spilledRun.foldlM RequestHolds.step (lwsHandler { streaming := true } {}).1 = some x ∧
    x.acquired.length = 13 ∧ x.dropped = [⟨.memory, 10⟩] ∧ (destroyPool x).released.count ⟨.memory, 10⟩ = 0 ∧
    x.bodyFd = some ⟨.descriptor, 8⟩ ∧ (destroyPool x).released.count ⟨.descriptor, 8⟩ = 2 := by
  have hrun : spilledRun.foldlM RequestHolds.step (lwsHandler { streaming := true } {}).1 = some _ := rfl
  have hcount := (request_is_given_back { streaming := true } spilledRun hrun).2.2.1
  exact ⟨_, hrun, rfl, rfl, hcount _, rfl, hcount _⟩

end Lws

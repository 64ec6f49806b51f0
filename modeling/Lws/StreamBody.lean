import Lws.StreamSeal
/-!
# StreamBody — what a streamed response delivers (`lws_lib.c`, `lws_module.c`)

What Lua writes is in the memory stream until a flush copies it to the pipe and rewinds the stream.  The completion of the task
reads what the pipe still holds, not the memory stream.
-/
namespace Lws

/-! ## What Lua has written -/

/-- The bytes that a step writes to `response.body`. -/
def StreamEvent.written : StreamEvent → List UInt8
  | .op (.write bytes) => bytes
  | _ => []

/-- A request, with all that Lua has written to `response.body`, and all it had written when the last flush returned. -/
structure Recorded where
  stream : Stream
  written : List UInt8 := []
  returned : List UInt8 := []
deriving DecidableEq

/-- One step, if it can happen; a flush returns as it rewinds the body. -/
def Recorded.handle (x : Recorded) (e : StreamEvent) : Option Recorded :=
  (x.stream.handle e).map fun s =>
    ⟨s, x.written ++ e.written, if e = .rewind then x.written else x.returned⟩

def Recorded.run (x : Recorded) (es : List StreamEvent) : Option Recorded := es.foldlM Recorded.handle x

/-- A request at a location with `lws_streaming`, when its task starts. -/
def Recorded.start (main head : Bool) (status : Int) : Recorded := { stream := Stream.start true main head false status }

def Stream.Sound (s : Stream) : Prop := s.streamingRc = ngxOk ∧ s.request.headerOnly = false

def Stream.pending (s : Stream) : List UInt8 := if s.thread.flushing then [] else s.body.data.take s.body.pos

def Stream.Drained (s : Stream) : Prop := s.loop.bytes = [] ∧ s.pipe = [] ∧ s.thread = .finished

section
variable {s s' t : Stream}

/-! ## The event loop -/

/-- What a step of the event loop leaves as it is while streaming does not fail: what Lua has written, and, unless it ends
streaming or starts the response, what is handed over. -/
structure LoopKeeps (s t : Stream) : Prop where
  body : t.body = s.body
  thread : t.thread = s.thread
  flushed : t.flushed = s.flushed
  sound : t.Sound → s.Sound
  conn : t.Sound → t.conn = false → s.Drained ∧ t.handed = s.handed
  fresh : t.Sound → t.request.headerSent = false → s.request.headerSent = false ∧ t.handed = s.handed
  respond : ∀ r, .respond r ∈ t.trace → .respond r ∈ s.trace ∨ (s.Drained ∧ s.request.headerSent = false)

theorem LoopKeeps.refl (hconn : s.conn = true) : LoopKeeps s s :=
  ⟨rfl, rfl, rfl, id, fun _ hc => (nomatch hconn.symm.trans hc), fun _ hf => ⟨hf, rfl⟩, fun _ hm => .inl hm⟩

theorem LoopKeeps.with (h : LoopKeeps s t) (request : Request) (pipeWrite : Bool) (busy : List (List UInt8)) (headers : Headers)
    (pipe : List UInt8) (pc : LoopPc) (completed : Bool) (honly : request.headerOnly = false → t.request.headerOnly = false)
    (hsent : request.headerSent = false → t.request.headerSent = false) : LoopKeeps s { t with
      request := request, pipeWrite := pipeWrite, busy := busy, headers := headers, pipe := pipe, loop := pc
      completed := completed } := by
  have hsound (ht : Stream.Sound { t with
      request := request, pipeWrite := pipeWrite, busy := busy, headers := headers, pipe := pipe, loop := pc
      completed := completed }) : t.Sound := ⟨ht.1, honly ht.2⟩
  exact ⟨h.body, h.thread, h.flushed, fun ht => h.sound (hsound ht), fun ht => h.conn (hsound ht),
    fun ht hf => h.fresh (hsound ht) (hsent hf), h.respond⟩

theorem LoopKeeps.note (h : LoopKeeps s t) {a : StreamAct} (ha : ∀ r, a ≠ .respond r) : LoopKeeps s (t.note a) := by
  refine ⟨h.body, h.thread, h.flushed, h.sound, h.conn, h.fresh, fun r hm => ?_⟩
  rcases List.mem_cons.1 hm with he | hm
  · exact absurd he.symm (ha r)
  · exact h.respond r hm

theorem LoopKeeps.finalize (h : LoopKeeps s t) (rc : Int) : LoopKeeps s (t.finalize rc) := h.note fun _ he => (nomatch he)

theorem LoopKeeps.fails (h : LoopKeeps s t) (hbody : s'.body = t.body) (hthread : s'.thread = t.thread)
    (hflushed : s'.flushed = t.flushed) (hsound : ¬s'.Sound) (hrespond : ∀ r, .respond r ∈ s'.trace → .respond r ∈ t.trace) :
    LoopKeeps s s' :=
  ⟨hbody.trans h.body, hthread.trans h.thread, hflushed.trans h.flushed, fun ht => absurd ht hsound, fun ht => absurd ht hsound,
    fun ht => absurd ht hsound, fun r hm => h.respond r (hrespond r hm)⟩

theorem LoopKeeps.abort (h : LoopKeeps s t) {rc : Int} {request : Request} (hrc : rc ≠ ngxOk ∨ request.headerOnly = true) :
    LoopKeeps s (streamError rc { t with request := request }) := by
  unfold streamError
  dsimp only
  split
  · refine h.fails rfl rfl rfl ?_ fun r hm => ?_
    · rintro ⟨hok, ho⟩
      rcases hrc with hrc | hrc
      · exact hrc hok
      · exact nomatch hrc.symm.trans ho
    · rcases List.mem_cons.1 hm with he | hm
      · cases he
      · exact hm
  · refine h.fails rfl rfl rfl ?_ fun r hm => hm
    rintro ⟨hok, ho⟩
    rcases hrc with hrc | hrc
    · exact hrc hok
    · exact nomatch hrc.symm.trans ho

theorem LoopKeeps.error (h : LoopKeeps s t) {rc : Int} (hrc : rc ≠ ngxOk) : LoopKeeps s (streamError rc t) :=
  h.abort (.inl hrc)

theorem LoopKeeps.fail (h : LoopKeeps s t) : LoopKeeps s (streamError ngxError t) := h.error (by decide)

theorem LoopKeeps.goto (h : LoopKeeps s t) (pc : LoopPc) : LoopKeeps s { t with loop := pc } :=
  h.with t.request t.pipeWrite t.busy t.headers t.pipe pc t.completed id id

theorem LoopKeeps.streamWrite (h : LoopKeeps s t) (b : Bool) :
    LoopKeeps s { t with request := { t.request with streamWrite := b } } :=
  h.with _ t.pipeWrite t.busy t.headers t.pipe t.loop t.completed id id

theorem LoopKeeps.blocked (h : LoopKeeps s t) (a : Pass) : LoopKeeps s (streamBlocked a t) := by
  have hw := h.streamWrite true
  unfold streamBlocked
  split
  · exact h.fail
  · dsimp only
    split
    · exact hw.goto .idle
    · split
      · exact hw.fail
      · exact hw.goto .idle

theorem streamHandler_keeps (hconn : s.conn = true) (a : Pass) : LoopKeeps s (streamHandler a s) := by
  have hn : LoopKeeps s (s.note .handler) := (LoopKeeps.refl hconn).note fun _ he => (nomatch he)
  unfold streamHandler
  dsimp only
  split
  · split
    · exact hn.error (by decide)
    · split
      · split
        · exact hn.fail
        · have hfree : LoopKeeps s { s.note .handler with busy := (s.note .handler).busy.drop a.freed } :=
            hn.with _ _ _ _ _ _ _ id id
          split
          · split
            · exact (hfree.streamWrite false).fail
            · exact (hfree.streamWrite false).goto .idle
          · exact hfree.blocked a
      · exact hn.blocked a
  · exact hn.goto _

theorem streamRead_keeps (h : Running [] s) (hloop : s.loop.bytes = []) (a : Pass) (reads : Nat) :
    LoopKeeps s (streamRead a reads s) := by
  have hr : LoopKeeps s s := .refl h.conn
  unfold streamRead
  split
  · exact hr.blocked a
  · split
    · exact hr.fail
    · split
      · exact hr.fail
      · split
        · exact hr.with s.request s.pipeWrite s.busy s.headers _ _ s.completed id id
        · rename_i hpipe
          split
          · split
            · exact hr.fail
            · exact hr.goto .idle
          · rename_i hw
            -- the end of the pipe
            have hpipe : s.pipe = [] := by simpa using hpipe
            obtain ⟨hc, -⟩ := h.eof hpipe (by simpa using hw)
            have hclosed : LoopKeeps s { s with conn := false, loop := .idle } :=
              ⟨rfl, rfl, rfl, id, fun _ _ => ⟨⟨hloop, hpipe, h.thread hc⟩, rfl⟩, fun _ hf => ⟨hf, rfl⟩, fun _ hm => .inl hm⟩
            dsimp only
            split
            · exact hclosed.finalize _
            · split
              · exact (hclosed.note (a := .sendLast) fun _ he => (nomatch he)).finalize _
              · exact hclosed.finalize _

theorem streamHeader_keeps (hconn : s.conn = true) (a : Pass) (reads : Nat) (bytes : List UInt8) :
    LoopKeeps s (streamHeader a reads bytes s) := by
  have hr : LoopKeeps s s := .refl hconn
  unfold streamHeader
  split
  · dsimp only
    generalize ht : (if (s.request.main && _) = true then _ else s : Stream) = t
    have h : LoopKeeps s t := by
      rw [← ht]
      split
      · exact hr.with _ s.pipeWrite s.busy s.headers s.pipe s.loop s.completed (fun ho => (nomatch ho)) id
      · exact hr
    split
    · exact h.error (by decide)
    · exact h.with _ t.pipeWrite t.busy t.headers t.pipe _ t.completed id id
  · exact hr.goto _

theorem streamSendHeader_keeps (hconn : s.conn = true) (rc : Int) (only sent : Bool) (reads : Nat) (bytes : List UInt8) :
    LoopKeeps s (streamSendHeader rc only sent reads bytes s) := by
  have hn : LoopKeeps s (s.note (.sendHeader s.ctx.status s.request.headers)) :=
    (LoopKeeps.refl hconn).note fun _ he => (nomatch he)
  unfold streamSendHeader
  dsimp only
  split
  · rename_i hbad
    refine hn.abort ?_
    rcases hbad with (hbad | hbad) | hbad
    · exact .inl (by rw [hbad]; decide)
    · exact .inl (ne_of_gt hbad)
    · exact .inr hbad
  · rename_i hok
    have hgood : ¬(rc = ngxError ∨ rc > ngxOk) := fun hf => hok (.inl hf)
    refine hn.with _ s.pipeWrite s.busy s.headers s.pipe _ s.completed (fun ho => ?_) (fun hf => ?_)
    · exact (Bool.or_eq_false_iff.1 ho).1
    · dsimp only at hf
      rw [if_neg hgood] at hf
      cases hf

theorem streamSend_keeps (hconn : s.conn = true) (hsent : s.request.headerSent = true) (a : Pass) (reads : Nat)
    (bytes : List UInt8) : LoopKeeps s (streamSend a reads bytes s) := by
  have hn : LoopKeeps s { s.note (.outputFilter bytes) with handed := s.handed ++ bytes } := by
    refine ⟨rfl, rfl, rfl, id, fun _ hc => (nomatch hconn.symm.trans hc), fun _ hf => (nomatch hsent.symm.trans hf), fun r hm => ?_⟩
    rcases List.mem_cons.1 hm with he | hm
    · cases he
    · exact .inl hm
  have hb : LoopKeeps s { s.note (.outputFilter bytes) with
      handed := s.handed ++ bytes, busy := (s.busy ++ [bytes]).drop a.freed } :=
    hn.with s.request s.pipeWrite _ s.headers s.pipe s.loop s.completed id id
  unfold streamSend
  dsimp only
  split
  · exact hn.fail
  · split
    · exact hb.blocked a
    · split
      · split
        · exact hb.fail
        · split
          · exact hb.fail
          · exact hb.goto .idle
      · exact hb.goto _

theorem streamFinalizationHandler_keeps (h : Running [] s) (hloop : s.loop = .idle) (hthread : s.thread = .finished) (a : Pass) :
    LoopKeeps s (streamFinalizationHandler a s) := by
  have hconn := h.conn
  have hrc := h.rc
  have hr : LoopKeeps s { s with completed := true, pipeWrite := false } :=
    (LoopKeeps.refl hconn).with s.request false s.busy s.headers s.pipe s.loop true id id
  unfold streamFinalizationHandler closePipe
  by_cases hsent : s.request.headerSent = true
  · simpa [hconn, hrc, hsent, h.committed hsent] using hr
  · have hsent : s.request.headerSent = false := by simpa using hsent
    by_cases hn : a.nread = true
    · by_cases hp : s.pipe = []
      · have hdrained : s.Drained := ⟨by rw [hloop]; rfl, hp, hthread⟩
        have hclosed : LoopKeeps s { s with
            completed := true, pipeWrite := false, conn := false
            trace := .finalize a.rc :: .respond (respond a.headers s.ctx) :: s.trace } :=
          ⟨rfl, rfl, rfl, id, fun _ _ => ⟨hdrained, rfl⟩, fun _ hf => ⟨hf, rfl⟩, fun _ _ => .inr ⟨hdrained, hsent⟩⟩
        simpa [hconn, hrc, hsent, hn, hp, Stream.finalize, Stream.note] using hclosed
      · cases ho : s.request.headerOnly with
        | false => simpa [hconn, hrc, hsent, hn, hp, ho] using hr
        | true =>
          have hend := hr.finalize ngxOk
          simpa [hconn, hrc, hsent, hn, hp, ho] using hend
    · have hfail : LoopKeeps s { s with
          completed := true, pipeWrite := false, conn := false, streamingRc := ngxError, trace := .finalize ngxError :: s.trace } := by
        refine (LoopKeeps.refl hconn).fails rfl rfl rfl (fun ht => (by cases ht.1)) fun r hm => ?_
        rcases List.mem_cons.1 hm with he | hm
        · cases he
        · exact hm
      simpa [hconn, hrc, hsent, hn, Stream.finalize, Stream.note, ngxError, ngxOk] using hfail

/-! ## What is delivered -/

/-- While streaming does not fail, Lua has written what is flushed and what is pending, and what is flushed is handed over by
the time the pipe is closed. -/
structure Streamed (x : Recorded) : Prop where
  written : x.written = x.stream.flushed ++ x.stream.pending
  returned : x.stream.thread.flushing = false → x.returned = x.stream.flushed
  pos : x.stream.body.pos ≤ x.stream.body.data.length
  fresh : x.stream.request.headerSent = false → x.stream.handed = []
  closed : x.stream.conn = false → x.stream.handed = x.stream.flushed
  respond : ∀ r, .respond r ∈ x.stream.trace → x.stream.flushed = [] ∧ x.stream.thread = .finished

variable {written returned : List UInt8}

theorem Streamed.loop (h : Streamed ⟨s, written, returned⟩) (hs : Running s.loop.bytes s) (ht : LoopKeeps s t) (hsound : t.Sound) :
    Streamed ⟨t, written, returned⟩ := by
  have hdrained (hd : s.Drained) : s.handed = s.flushed := by
    have hflow := hs.flow
    rw [hd.1, hd.2.1, hd.2.2] at hflow
    simpa [LuaThread.rest] using hflow
  refine ⟨?_, fun hf => ?_, ?_, fun hf => ?_, fun hc => ?_, fun r hm => ?_⟩
  · dsimp only
    rw [ht.flushed, Stream.pending, ht.thread, ht.body]
    exact h.written
  · dsimp only at hf ⊢
    rw [ht.flushed]
    exact h.returned (ht.thread ▸ hf)
  · dsimp only
    rw [ht.body]
    exact h.pos
  · obtain ⟨hsent, hh⟩ := ht.fresh hsound hf
    exact hh.trans (h.fresh hsent)
  · obtain ⟨hd, hh⟩ := ht.conn hsound hc
    exact hh.trans ((hdrained hd).trans ht.flushed.symm)
  · dsimp only
    rw [ht.flushed, ht.thread]
    rcases ht.respond r hm with hm | ⟨hd, hsent⟩
    · exact h.respond r hm
    · exact ⟨(hdrained hd).symm.trans (h.fresh hsent), hd.2.2⟩

theorem Body.write_take {b : Body} (bytes : List UInt8) (h : b.pos ≤ b.data.length) :
    (b.write bytes).data.take (b.write bytes).pos = b.data.take b.pos ++ bytes := by
  have hlen : (b.data.take b.pos ++ bytes).length = b.pos + bytes.length := by
    rw [List.length_append, List.length_take, Nat.min_eq_left h]
  rw [Body.write, List.take_append_of_le_length (Nat.le_of_eq hlen.symm), List.take_of_length_le (Nat.le_of_eq hlen)]

theorem Body.write_pos {b : Body} (bytes : List UInt8) (h : b.pos ≤ b.data.length) :
    (b.write bytes).pos ≤ (b.write bytes).data.length := by
  rw [Body.write, List.length_append, List.length_append, List.length_take, Nat.min_eq_left h]
  exact Nat.le_add_right _ _

theorem Streamed.same (h : Streamed ⟨s, written, returned⟩) (ctx : RequestCtx) (headers : Headers) (lctx : LuaCtx)
    (readonly : Bool) (sealedAs : Option (Int × Headers)) : Streamed ⟨{ s with
      ctx := ctx, headers := headers, lctx := lctx, readonly := readonly, sealedAs := sealedAs }, written, returned⟩ :=
  ⟨h.written, h.returned, h.pos, h.fresh, h.closed, h.respond⟩

theorem fileFlushHook_flushes {tell fits : Bool} (h : s.FlushPasses tell fits) (flush : Bool) :
    (fileFlushHook tell fits flush s).1 = { s with
      lctx := { s.lctx with sealed := true }, readonly := true, sealedAs := s.sealedAs <|> some (s.ctx.status, s.headers) } ∨
    (fileFlushHook tell fits flush s).1 = { s with
      lctx := { s.lctx with sealed := true }, readonly := true, sealedAs := s.sealedAs <|> some (s.ctx.status, s.headers)
      thread := .flush (s.body.data.take s.body.pos), flushed := s.flushed ++ s.body.data.take s.body.pos } := by
  obtain ⟨hr, hw, rfl, rfl⟩ := h
  unfold fileFlushHook
  rw [if_neg (by simp [hr]), if_neg (by simp [hw]), if_neg (by simp), if_neg (by simp)]
  dsimp only
  split
  · split
    · exact .inl rfl
    · exact .inr rfl
  · exact .inl rfl

theorem Streamed.luaOp (h : Streamed ⟨s, written, returned⟩) (hconn : s.conn = true) (hlua : s.thread = .lua) (o : LuaOp) :
    Streamed ⟨(luaOp o s).1, written ++ StreamEvent.written (.op o), returned⟩ := by
  have hsame : Streamed ⟨s, written ++ [], returned⟩ := by
    rw [List.append_nil]
    exact h
  have hopen (r : Response) (hm : .respond r ∈ s.trace) : False := by
    have hfin := (h.respond r hm).2
    dsimp only at hfin
    rw [hlua] at hfin
    cases hfin
  have hpending : s.pending = s.body.data.take s.body.pos := by
    rw [Stream.pending, hlua]
    rfl
  cases o with
  | chunk chunk => exact hsame.same s.ctx s.headers _ s.readonly s.sealedAs
  | status value =>
    simp only [Lws.luaOp, responseNewindex]
    repeat' split
    all_goals first | exact hsame | exact hsame.same _ s.headers s.lctx s.readonly s.sealedAs
  | header key value mem =>
    simp only [Lws.luaOp, tableNewindex]
    repeat' split
    all_goals first | exact hsame | exact hsame.same s.ctx _ s.lctx s.readonly s.sealedAs
  | redirect path args memArgs mem => exact hsame.same _ s.headers _ s.readonly s.sealedAs
  | write bytes =>
    have hwritten := h.written
    dsimp only at hwritten
    refine ⟨?_, h.returned, Body.write_pos bytes h.pos, h.fresh, h.closed, h.respond⟩
    simp only [Lws.luaOp, StreamEvent.written, Stream.pending, hlua, LuaThread.flushing, Bool.false_eq_true, if_false]
    rw [Body.write_take bytes h.pos, hwritten, hpending, List.append_assoc]
  | flush tell fits flush =>
    by_cases hpass : s.FlushPasses tell fits
    · have hf := fileFlushHook_flushes hpass flush
      simp only [Lws.luaOp]
      rcases hf with hf | hf
      · rw [hf]
        exact hsame.same s.ctx s.headers _ _ _
      · rw [hf]
        refine ⟨?_, fun hf => (by cases hf), h.pos, h.fresh, fun hc => (by cases hconn.symm.trans hc),
          fun r hm => (hopen r hm).elim⟩
        have hwritten := hsame.written
        dsimp only at hwritten
        rw [hpending] at hwritten
        simp only [Stream.pending, LuaThread.flushing, if_true, List.append_nil, StreamEvent.written] at hwritten ⊢
        exact hwritten
    · simp only [Lws.luaOp, fileFlushHook_fails hpass]
      exact hsame

theorem Streamed.goto (h : Streamed ⟨s, written, returned⟩) (hrun : s.thread ≠ .finished) (hconn : s.conn = true)
    (ctx : RequestCtx) (pipe : List UInt8) (thread : LuaThread) (hthread : thread.flushing = s.thread.flushing) :
    Streamed ⟨{ s with ctx := ctx, pipe := pipe, thread := thread }, written, returned⟩ := by
  refine ⟨?_, fun hf => h.returned (hthread ▸ hf), h.pos, h.fresh, fun hc => (nomatch hconn.symm.trans hc),
    fun r hm => absurd (h.respond r hm).2 hrun⟩
  have hwritten := h.written
  simp only [Stream.pending] at hwritten ⊢
  rw [hthread]
  exact hwritten

theorem Streamed.rewind (h : Streamed ⟨s, written, returned⟩) (hconn : s.conn = true) (hflush : s.thread = .flush []) :
    Streamed ⟨{ s with thread := .lua, body := { s.body with pos := 0 } }, written, written⟩ := by
  have hwritten : written = s.flushed := by
    have hw := h.written
    simp only [Stream.pending, hflush, LuaThread.flushing, if_true, List.append_nil] at hw
    exact hw
  refine ⟨?_, fun _ => hwritten, Nat.zero_le _, h.fresh, fun hc => (by cases hconn.symm.trans hc), fun r hm => ?_⟩
  · simp only [Stream.pending, LuaThread.flushing, Bool.false_eq_true, if_false, List.take_zero, List.append_nil]
    exact hwritten
  · have hfin := (h.respond r hm).2
    dsimp only at hfin
    rw [hflush] at hfin
    cases hfin

theorem Recorded.handle_some {x y : Recorded} {e : StreamEvent} (h : x.handle e = some y) :
    ∃ s, x.stream.handle e = some s ∧ y = ⟨s, x.written ++ e.written, if e = .rewind then x.written else x.returned⟩ := by
  unfold Recorded.handle at h
  obtain ⟨s, hs, rfl⟩ := Option.map_eq_some_iff.1 h
  exact ⟨s, hs, rfl⟩

theorem loopKeeps_of_handle {e : StreamEvent} (h : Running s.loop.bytes s)
    (hsent : s.loop.sends = true → s.request.headerSent = true) (he : e.ofThread = false) (hs : s.handle e = some t) :
    LoopKeeps s t := by
  unfold Stream.handle at hs
  cases e with
  | pipeEvent a =>
    dsimp only at hs
    split at hs
    · cases hs
      exact streamHandler_keeps h.conn a
    · cases hs
  | clientEvent a =>
    dsimp only at hs
    split at hs
    · cases hs
      unfold streamWriteHandler
      rw [if_pos h.conn]
      exact streamHandler_keeps h.conn a
    · cases hs
  | pass a =>
    dsimp only at hs
    split at hs
    · rename_i reads hpc
      cases hs
      have hbytes : s.loop.bytes = [] := by rw [hpc]; rfl
      exact streamRead_keeps (hbytes ▸ h) hbytes a reads
    · cases hs
      exact streamHeader_keeps h.conn a _ _
    · rename_i reads bytes hpc
      cases hs
      exact streamSend_keeps h.conn (hsent (by rw [hpc]; rfl)) a reads bytes
    · cases hs
  | sendHeader rc only sent =>
    dsimp only at hs
    split at hs
    · cases hs
      exact streamSendHeader_keeps h.conn rc only sent _ _
    · cases hs
  | completion a =>
    dsimp only at hs
    split at hs
    · rename_i hev
      cases hs
      have hbytes : s.loop.bytes = [] := by rw [hev.1]; rfl
      exact streamFinalizationHandler_keeps (hbytes ▸ h) hev.1 hev.2.1 a
    · cases hs
  | op | write | eintr | epipe | rewind | finish => cases he

theorem streamFinalizationHandler_sound (hconn : s.conn = false) (a : Pass) (h : (streamFinalizationHandler a s).Sound) :
    s.Sound := by
  unfold streamFinalizationHandler closePipe at h
  simp only [hconn, Bool.false_and, Bool.false_eq_true, if_false] at h
  split at h
  · split at h
    · exact h
    · exact h
  · exact h

theorem Phased.streams {e : StreamEvent} (h : Phased s) (hs : s.handle e = some t) (ht : t.Sound) :
    Running s.loop.bytes s ∧ (s.loop.sends = true → s.request.headerSent = true) := by
  cases h with
  | running h hbusy hwrite hsent => exact ⟨h, hsent⟩
  | aborted h =>
    have hfail (hok : s.Sound) : False := by
      rcases h.rc with hrc | hrc | hrc
      · exact nomatch hrc.symm.trans hok.1
      · exact absurd hok.1 (ne_of_gt hrc)
      · exact nomatch hrc.symm.trans hok.2
    refine (hfail ?_).elim
    by_cases he : e.ofThread = true
    · obtain ⟨-, ctx, headers, lctx, readonly, body, sealedAs, thread, out, more, rfl, -⟩ := threadStep_of_handle he hs
      exact ht
    · cases e with
      | completion a =>
        simp only [Stream.handle] at hs
        split at hs
        · cases hs
          exact streamFinalizationHandler_sound h.conn a ht
        · cases hs
      | pipeEvent | clientEvent | pass | sendHeader =>
        simp [Stream.handle, h.conn, h.loop, h.write] at hs
      | op | write | eintr | epipe | rewind | finish => exact absurd rfl he
  | finalized h =>
    cases e <;> simp [Stream.handle, h.conn, h.loop, h.write, h.thread, h.completed] at hs

theorem Streamed.quiet (h : Streamed ⟨s, written, returned⟩) {e : StreamEvent} (hw : e.written = []) (hr : e ≠ .rewind) :
    Streamed ⟨s, written ++ e.written, if e = .rewind then written else returned⟩ := by
  rw [hw, List.append_nil, if_neg hr]
  exact h

theorem Streamed.step {x y : Recorded} {e : StreamEvent} (hp : Phased x.stream) (hx : x.stream.Sound → Streamed x)
    (hy : x.handle e = some y) : y.stream.Sound → Streamed y := by
  obtain ⟨s, written, returned⟩ := x
  obtain ⟨t, hs, rfl⟩ := Recorded.handle_some hy
  intro hsound
  dsimp only at hs hp hx hsound ⊢
  obtain ⟨hrunning, hsent⟩ := hp.streams hs hsound
  have hconn := hrunning.conn
  by_cases he : e.ofThread = true
  · obtain ⟨hrun, hstep⟩ := threadStep_of_handle he hs
    have h : Streamed ⟨s, written, returned⟩ := by
      obtain ⟨ctx, headers, lctx, readonly, body, sealedAs, thread, out, more, rfl, -⟩ := hstep
      exact hx hsound
    unfold Stream.handle at hs
    cases e with
    | op o =>
      dsimp only at hs
      split at hs
      · rename_i hlua
        cases hs
        exact h.luaOp hconn hlua o
      · cases hs
    | write count =>
      dsimp only at hs
      split at hs
      · rename_i c rest hflush
        rw [if_pos hconn] at hs
        cases hs
        exact (h.goto hrun hconn s.ctx _ _ (by rw [hflush]; rfl)).quiet rfl fun hr => (nomatch hr)
      · cases hs
    | eintr =>
      dsimp only at hs
      split at hs
      · cases hs
        exact h.quiet rfl fun hr => (nomatch hr)
      · cases hs
    | epipe =>
      dsimp only at hs
      split at hs
      · rw [if_pos hconn] at hs
        cases hs
      · cases hs
    | rewind =>
      dsimp only at hs
      split at hs
      · rename_i hflush
        cases hs
        rw [StreamEvent.written.eq_def, List.append_nil, if_pos rfl]
        exact h.rewind hconn hflush
      · cases hs
    | finish rc =>
      dsimp only at hs
      split at hs
      · rename_i hlua
        cases hs
        exact (h.goto hrun hconn _ s.pipe .finished (by rw [hlua]; rfl)).quiet rfl fun hr => (nomatch hr)
      · cases hs
    | pipeEvent | clientEvent | pass | sendHeader | completion => cases he
  · have he : e.ofThread = false := by simpa using he
    have hk := loopKeeps_of_handle hrunning hsent he hs
    have h := (hx (hk.sound hsound)).loop hrunning hk hsound
    refine h.quiet ?_ (by rintro rfl; cases he)
    cases e with
    | op => cases he
    | _ => rfl

end

/-! ## Runs -/

section
variable {main head : Bool} {status : Int}

theorem Recorded.start_streamed : Streamed (Recorded.start main head status) :=
  ⟨rfl, fun _ => rfl, Nat.le_refl _, fun _ => rfl, fun hc => (nomatch hc), fun _ hm => (nomatch hm)⟩

/-- **A run delivers what is flushed**, while streaming does not fail. -/
theorem Recorded.run_streamed {x y : Recorded} {es : List StreamEvent} (h : x.run es = some y) (hp : Phased x.stream)
    (hb : BodyStreamed x.stream) (hx : x.stream.Sound → Streamed x) :
    Phased y.stream ∧ (y.stream.Sound → Streamed y) := by
  induction es generalizing x with
  | nil =>
    cases h
    exact ⟨hp, hx⟩
  | cons e es ih =>
    rw [Recorded.run, List.foldlM_cons] at h
    obtain ⟨x', hstep, h⟩ := Option.bind_eq_some_iff.1 h
    obtain ⟨s, hs, rfl⟩ := Recorded.handle_some hstep
    exact ih h (hp.step (hb.wanted hs) hs) (hb.step hs) (Streamed.step hp hx hstep)

/-- **A streamed response delivers what is flushed**: once the request is finalized, if streaming has not failed and the response
is not header-only, the bytes handed over are all that Lua had written when its last flush returned, in order.  What it has
written since is not delivered, and a request that has flushed anything is not answered in another way. -/
theorem streamed_bytes_are_flushed {x : Recorded} {es : List StreamEvent} (h : (Recorded.start main head status).run es = some x)
    (hsound : x.stream.Sound) {rc : Int} (hend : .finalize rc ∈ x.stream.trace) :
    x.stream.handed = x.returned ∧ x.written = x.returned ++ x.stream.body.data.take x.stream.body.pos ∧
    (x.returned ≠ [] → ∀ r, .respond r ∉ x.stream.trace) := by
  obtain ⟨hp, hx⟩ := Recorded.run_streamed h (phased_start main head false status) (fun _ _ => rfl) fun _ => Recorded.start_streamed
  obtain ⟨pre, post, hpost⟩ := List.append_of_mem hend
  obtain ⟨hf, -, -⟩ := hp.last hpost
  have hx := hx hsound
  have hreturned := hx.returned (by rw [hf.thread]; rfl)
  have hwritten := hx.written
  rw [Stream.pending, hf.thread] at hwritten
  refine ⟨(hx.closed hf.conn).trans hreturned.symm, hreturned ▸ hwritten, fun hne r hm => ?_⟩
  exact hne (hreturned.trans (hx.respond r hm).1)

/-- Everything written is flushed, and delivered. -/
theorem streamed_bytes_are_flushed_all : ∃ es x, (Recorded.start true false 0).run es = some x ∧ x.written = [65, 66] ∧
    x.returned = x.written ∧ x.stream.handed = x.returned := by
  have hrun : ((Recorded.start true false 0).run [.op (.write [65]), .op (.flush true true true), .write 0, .rewind,
      .pipeEvent {}, .pass {}, .pass {}, .sendHeader 0 false true, .pass {}, .pass {}, .op (.write [66]),
      .op (.flush true true true), .write 0, .rewind, .finish 0, .completion {}, .pipeEvent {}, .pass {}, .pass {}, .pass {},
      .pass {}]).map (fun x => decide (x.written = [65, 66] ∧ x.returned = x.written ∧ x.stream.streamingRc = ngxOk ∧
      x.stream.request.headerOnly = false ∧ .finalize 0 ∈ x.stream.trace)) = some true := by decide
  obtain ⟨x, hx, hd⟩ := Option.map_eq_some_iff.1 hrun
  obtain ⟨hwritten, hreturned, hrc, honly, hend⟩ := of_decide_eq_true hd
  exact ⟨_, x, hx, hwritten, hreturned, (streamed_bytes_are_flushed hx ⟨hrc, honly⟩ hend).1⟩

/-- A byte that is written after the last flush is not delivered, and for a HEAD request no byte is. -/
theorem unflushed_bytes_are_lost :
    (∃ x, (Recorded.start true false 0).run [.op (.write [65]), .op (.flush true true true), .write 0, .rewind,
      .op (.write [66]), .finish 0, .completion {}, .pipeEvent {}, .pass {}, .pass {}, .sendHeader 0 false true, .pass {},
      .pass {}] = some x ∧ x.written = [65, 66] ∧ x.stream.handed = [65] ∧
      x.stream.trace = [.finalize 0, .sendLast, .outputFilter [65], .sendHeader 200 [], .handler]) ∧
    (∃ x, (Recorded.start true true 0).run [.op (.write [65]), .op (.flush true true true), .write 0, .rewind, .finish 0,
      .pipeEvent {}, .pass {}, .pass {}, .sendHeader 0 true true, .completion {}] = some x ∧ x.written = [65] ∧
      x.stream.handed = [] ∧ x.stream.trace = [.finalize 0, .sendHeader 200 [], .handler]) :=
  ⟨⟨_, rfl, by decide⟩, ⟨_, rfl, by decide⟩⟩

end

end Lws

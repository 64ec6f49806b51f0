import Lws.StreamSafety
/-!
# StreamFinal — a streaming request over any run (`lws_lib.c`, `lws_module.c`)

The steps of the Lua thread and the completion of its task keep to the phases of `StreamSafety`, and so does a run.  The one
exception is a completion that finds unread data for a request whose response has no body: it finalizes the request and leaves
the pipe connected (`completion_leaves_pipe`).
-/
namespace Lws

section
variable {s s' : Stream}

/-! ## Steps of the phases -/

theorem Phased.thread (h : Phased s) (hrun : s.thread ≠ .finished) (hs : ThreadStep s s') : Phased s' := by
  obtain ⟨ctx, headers, lctx, readonly, body, sealedAs, thread, out, more, rfl, hflow⟩ := hs
  cases h with
  | running h hbusy hwrite hsent =>
    refine .running ⟨⟨h.conn, h.rc, ?_, h.busy, h.pipeWrite, fun hc => absurd (h.thread hc) hrun, h.trace⟩, h.committed, h.fresh⟩
      hbusy hwrite hsent
    have hflow := hflow h.conn
    rw [← h.flow]
    simp only [List.append_assoc, hflow]
  | aborted h =>
    exact .aborted ⟨h.conn, h.loop, h.write, h.rc, h.handed.trans (List.prefix_append _ _), h.busy, h.completed, h.pipeWrite,
      h.trace⟩
  | finalized h => exact absurd h.thread hrun

/-! ## The completion of the task -/

/-- A completion is to go on streaming only for a request whose response has a body. -/
def Stream.BodyWanted (s : Stream) : StreamEvent → Prop
  | .completion a => ¬ (s.conn = true ∧ s.request.headerOnly = true ∧ s.pipe ≠ [] ∧ a.nread = true)
  | _ => True

theorem Running.close (h : Running [] s) (hloop : s.loop = .idle) (hthread : s.thread = .finished)
    (hsent : s.request.headerSent = false) (streamingRc rc : Int) {pre : List StreamAct} (hpre : ∀ a ∈ pre, a.ends = false) :
    Phased { s with
      completed := true, pipeWrite := false, conn := false, streamingRc := streamingRc, trace := .finalize rc :: pre } := by
  obtain ⟨hwrite, -⟩ := h.fresh hsent
  obtain ⟨hfin, hlast⟩ := unended hpre
  exact .finalized ⟨rfl, hloop, hwrite, h.handed, h.busy, rfl, hthread, rc, pre, rfl, hfin, fun hm => absurd hm hlast⟩

theorem Running.continue (h : Running [] s) (hloop : s.loop = .idle) (hthread : s.thread = .finished) :
    Phased { s with completed := true, pipeWrite := false } := by
  refine .running ⟨⟨h.conn, h.rc, ?_, h.busy, rfl, fun _ => hthread, h.trace⟩, h.committed, h.fresh⟩ ?_ (.inl hloop) ?_
  all_goals
    dsimp only
    rw [hloop]
  · exact h.flow
  · exact fun he => (nomatch he)
  · exact fun he => (nomatch he)

theorem Running.completion (h : Running [] s) (hloop : s.loop = .idle) (hthread : s.thread = .finished) (a : Pass)
    (hbody : s.BodyWanted (.completion a)) : Phased (streamFinalizationHandler a s) := by
  have hconn := h.conn
  have hrc := h.rc
  unfold streamFinalizationHandler closePipe
  by_cases hsent : s.request.headerSent = true
  · simpa [hconn, hrc, hsent, h.committed hsent] using h.continue hloop hthread
  · have hsent : s.request.headerSent = false := by simpa using hsent
    by_cases hn : a.nread = true
    · by_cases hp : s.pipe = []
      · have hpre : ∀ b ∈ .respond (respond a.headers s.ctx) :: s.trace, b.ends = false :=
          List.forall_mem_cons.2 ⟨rfl, h.trace⟩
        have hclose := h.close hloop hthread hsent ngxOk a.rc hpre
        simpa [hconn, hrc, hsent, hn, hp, Stream.finalize, Stream.note] using hclose
      · have ho : s.request.headerOnly = false := by
          by_contra ho
          exact hbody ⟨hconn, by simpa using ho, hp, hn⟩
        simpa [hconn, hrc, hsent, hn, hp, ho] using h.continue hloop hthread
    · have hclose := h.close hloop hthread hsent ngxError ngxError h.trace
      simpa [hconn, hrc, hsent, hn, Stream.finalize, Stream.note, ngxError, ngxOk] using hclose

theorem Aborted.completion (h : Aborted s) (hthread : s.thread = .finished) (a : Pass) :
    Phased (streamFinalizationHandler a s) := by
  have hend (rc : Int) (pre : List StreamAct) (hpre : ∀ a ∈ pre, a.ends = false) :
      Phased { s with completed := true, pipeWrite := false, trace := .finalize rc :: pre } := by
    obtain ⟨hfin, hlast⟩ := unended hpre
    exact .finalized ⟨h.conn, h.loop, h.write, h.handed, h.busy, rfl, hthread, rc, pre, rfl, hfin, fun hm => absurd hm hlast⟩
  have hconn := h.conn
  -- an aborted response has no last marker
  have hno : ¬ ((s.streamingRc ≠ ngxError ∧ s.streamingRc ≤ ngxOk) ∧ s.request.headerOnly = false) := by
    rintro ⟨⟨hne, hle⟩, ho⟩
    rcases h.rc with hrc | hrc | hrc
    · exact hne hrc
    · omega
    · rw [ho] at hrc
      cases hrc
  have hlast : ¬ (((s.streamingRc ≠ ngxError ∧ s.streamingRc ≤ ngxOk) ∧ s.request.headerOnly = false) ∧ s.request.main = true) :=
    fun hm => hno hm.1
  unfold streamFinalizationHandler closePipe
  by_cases hsel : s.request.headerSent = true ∨ s.streamingRc ≠ ngxOk
  · simpa [hconn, hsel, hlast, Stream.finalize, Stream.note] using hend s.streamingRc s.trace h.trace
  · have hrespond := hend a.rc (.respond (respond a.headers s.ctx) :: s.trace) (List.forall_mem_cons.2 ⟨rfl, h.trace⟩)
    simpa [hconn, hsel, Stream.finalize, Stream.note] using hrespond

/-! ## Steps -/

theorem Phased.completion (h : Phased s) (hloop : s.loop = .idle) (hthread : s.thread = .finished) (hc : s.completed = false)
    (a : Pass) (hbody : s.BodyWanted (.completion a)) : Phased (streamFinalizationHandler a s) := by
  cases h with
  | running h =>
    rw [hloop] at h
    exact h.completion hloop hthread a hbody
  | aborted h => exact h.completion hthread a
  | finalized h => rw [h.completed] at hc; cases hc

theorem Phased.event (h : Phased s) (a : Pass) (hloop : s.loop = .idle) (hconn : s.conn = true) : Phased (streamHandler a s) := by
  cases h with
  | running h =>
    rw [hloop] at h
    exact h.handler a
  | aborted h => exact absurd hconn (by simp [h.conn])
  | finalized h => exact absurd hconn (by simp [h.conn])

theorem Phased.clientEvent (h : Phased s) (a : Pass) (hloop : s.loop = .idle) : Phased (streamWriteHandler a s) := by
  unfold streamWriteHandler
  split
  · rename_i hconn
    exact h.event a hloop hconn
  · exact h

theorem Phased.within (h : Phased s) (hloop : s.loop ≠ .idle) :
    Running s.loop.bytes s ∧ (s.loop.empty = false → s.busy = []) ∧ s.request.streamWrite = false ∧
    (s.loop.sends = true → s.request.headerSent = true) := by
  cases h with
  | running h hbusy hwrite hsent => exact ⟨h, hbusy, hwrite.resolve_left hloop, hsent⟩
  | aborted h => exact absurd h.loop hloop
  | finalized h => exact absurd h.loop hloop

/-- **A step keeps to the phases**, unless it completes the task while the pipe has data for a response without a body. -/
theorem Phased.step (h : Phased s) {e : StreamEvent} (hbody : s.BodyWanted e) (hs : s.handle e = some s') : Phased s' := by
  by_cases he : e.ofThread = true
  · obtain ⟨hrun, hstep⟩ := threadStep_of_handle he hs
    exact h.thread hrun hstep
  unfold Stream.handle at hs
  cases e with
  | pipeEvent a =>
    dsimp only at hs
    split at hs
    · rename_i hev
      cases hs
      exact h.event a hev.1 hev.2
    · cases hs
  | clientEvent a =>
    dsimp only at hs
    split at hs
    · rename_i hev
      cases hs
      exact h.clientEvent a hev.1
    · cases hs
  | pass a =>
    dsimp only at hs
    split at hs
    · rename_i reads hpc
      cases hs
      obtain ⟨hr, -, hwrite, -⟩ := h.within (by rw [hpc]; exact fun he => (nomatch he))
      rw [hpc] at hr
      exact hr.read hwrite a reads
    · rename_i reads bytes hpc
      cases hs
      obtain ⟨hr, hbusy, hwrite, -⟩ := h.within (by rw [hpc]; exact fun he => (nomatch he))
      rw [hpc] at hr hbusy
      exact hr.header (hbusy rfl) hwrite a reads
    · rename_i reads bytes hpc
      cases hs
      obtain ⟨hr, hbusy, hwrite, hsent⟩ := h.within (by rw [hpc]; exact fun he => (nomatch he))
      rw [hpc] at hr hbusy hsent
      exact hr.send (hbusy rfl) hwrite (hsent rfl) a reads
    · cases hs
  | sendHeader rc only sent =>
    dsimp only at hs
    split at hs
    · rename_i reads bytes hpc
      cases hs
      obtain ⟨hr, hbusy, hwrite, -⟩ := h.within (by rw [hpc]; exact fun he => (nomatch he))
      rw [hpc] at hr hbusy
      exact hr.sendHeader (hbusy rfl) hwrite rc only sent reads
    · cases hs
  | completion a =>
    dsimp only at hs
    split at hs
    · rename_i hev
      cases hs
      exact h.completion hev.1 hev.2.1 hev.2.2 a hbody
    · cases hs
  | op | write | eintr | epipe | rewind | finish => exact absurd rfl he

/-! ## Responses without a body -/

def LoopPc.heading : LoopPc → Bool
  | .headed _ _ => true
  | _ => false

/-- A response without a body is aborted as soon as its header is sent. -/
def BodyStreamed (s : Stream) : Prop := s.conn = true → s.loop.heading = false → s.request.headerOnly = false

/-- A step that aborts streaming or leaves `header_only` alone. -/
def HeaderOnlyKept (s s' : Stream) : Prop := s'.conn = true → s.conn = true ∧ s'.request.headerOnly = s.request.headerOnly

theorem streamError_conn (rc : Int) (t : Stream) : (streamError rc t).conn = false := by
  unfold streamError
  dsimp only
  split <;> rfl

theorem streamError_kept (rc : Int) (t : Stream) : HeaderOnlyKept s (streamError rc t) := fun hc => by
  rw [streamError_conn] at hc
  cases hc

theorem streamBlocked_kept (a : Pass) (t : Stream) (ht : HeaderOnlyKept s t) : HeaderOnlyKept s (streamBlocked a t) := by
  unfold streamBlocked
  repeat' split
  all_goals first | exact streamError_kept _ _ | exact ht

theorem streamHandler_kept (a : Pass) : HeaderOnlyKept s (streamHandler a s) := by
  have hs : HeaderOnlyKept s (s.note .handler) := fun hc => ⟨hc, rfl⟩
  unfold streamHandler
  dsimp only
  repeat' split
  all_goals first | exact streamError_kept _ _ | exact streamBlocked_kept a _ hs | exact hs

theorem streamRead_kept (a : Pass) (reads : Nat) : HeaderOnlyKept s (streamRead a reads s) := by
  have hs : HeaderOnlyKept s s := fun hc => ⟨hc, rfl⟩
  unfold streamRead
  dsimp only
  repeat' split
  all_goals first | exact streamError_kept _ _ | exact streamBlocked_kept a _ hs | exact hs | exact fun hc => (nomatch hc)

theorem streamSend_kept (a : Pass) (reads : Nat) (bytes : List UInt8) : HeaderOnlyKept s (streamSend a reads bytes s) := by
  have hs : HeaderOnlyKept s { s.note (.outputFilter bytes) with handed := s.handed ++ bytes } := fun hc => ⟨hc, rfl⟩
  unfold streamSend
  dsimp only
  repeat' split
  all_goals first | exact streamError_kept _ _ | exact streamBlocked_kept a _ hs | exact hs

theorem closePipe_kept (a : Pass) : HeaderOnlyKept s (closePipe a s) := by
  unfold closePipe
  dsimp only
  repeat' split
  all_goals first | exact fun hc => ⟨hc, rfl⟩ | exact fun hc => (nomatch hc)

theorem streamFinalizationHandler_kept (a : Pass) : HeaderOnlyKept s (streamFinalizationHandler a s) := by
  have hs : HeaderOnlyKept s (closePipe a { s with completed := true }) := closePipe_kept a
  unfold streamFinalizationHandler
  dsimp only
  repeat' split
  all_goals exact hs

theorem HeaderOnlyKept.streamed (h : HeaderOnlyKept s s') (hs : BodyStreamed s) (hloop : s.loop.heading = false) :
    BodyStreamed s' := fun hc _ => by
  obtain ⟨hc, ho⟩ := h hc
  rw [ho]
  exact hs hc hloop

theorem streamHeader_streamed (hs : BodyStreamed s) (hloop : s.loop.heading = false) (a : Pass) (reads : Nat)
    (bytes : List UInt8) : BodyStreamed (streamHeader a reads bytes s) := by
  unfold streamHeader
  split
  · dsimp only
    split
    · exact fun hc => absurd hc (by simp [streamError_conn])
    · exact fun _ he => (nomatch he)
  · exact fun hc _ => hs hc hloop

theorem streamSendHeader_streamed (rc : Int) (only sent : Bool) (reads : Nat) (bytes : List UInt8) :
    BodyStreamed (streamSendHeader rc only sent reads bytes s) := by
  unfold streamSendHeader
  dsimp only
  split
  · exact fun hc => absurd hc (by simp [streamError_conn])
  · rename_i hok
    exact fun _ _ => Bool.eq_false_iff.2 fun ho => hok (.inr ho)

theorem BodyStreamed.step (h : BodyStreamed s) {e : StreamEvent} (hs : s.handle e = some s') : BodyStreamed s' := by
  by_cases he : e.ofThread = true
  · obtain ⟨-, ctx, headers, lctx, readonly, body, sealedAs, thread, out, more, rfl, -⟩ := threadStep_of_handle he hs
    exact h
  unfold Stream.handle at hs
  cases e with
  | pipeEvent a =>
    dsimp only at hs
    split at hs
    · rename_i hev
      cases hs
      exact (streamHandler_kept a).streamed h (by rw [hev.1]; rfl)
    · cases hs
  | clientEvent a =>
    dsimp only at hs
    split at hs
    · rename_i hev
      cases hs
      unfold streamWriteHandler
      split
      · exact (streamHandler_kept a).streamed h (by rw [hev.1]; rfl)
      · exact h
    · cases hs
  | pass a =>
    dsimp only at hs
    split at hs
    · rename_i reads hpc
      cases hs
      exact (streamRead_kept a reads).streamed h (by rw [hpc]; rfl)
    · rename_i reads bytes hpc
      cases hs
      exact streamHeader_streamed h (by rw [hpc]; rfl) a reads bytes
    · rename_i reads bytes hpc
      cases hs
      exact (streamSend_kept a reads bytes).streamed h (by rw [hpc]; rfl)
    · cases hs
  | sendHeader rc only sent =>
    dsimp only at hs
    split at hs
    · cases hs
      exact streamSendHeader_streamed rc only sent _ _
    · cases hs
  | completion a =>
    dsimp only at hs
    split at hs
    · rename_i hev
      cases hs
      exact (streamFinalizationHandler_kept a).streamed h (by rw [hev.1]; rfl)
    · cases hs
  | op | write | eintr | epipe | rewind | finish => exact absurd rfl he

theorem BodyStreamed.wanted (h : BodyStreamed s) {e : StreamEvent} (hs : s.handle e = some s') : s.BodyWanted e := by
  cases e with
  | completion a =>
    rintro ⟨hc, ho, -, -⟩
    simp only [Stream.handle] at hs
    split at hs
    · rename_i hev
      rw [h hc (by rw [hev.1]; rfl)] at ho
      cases ho
    · cases hs
  | _ => trivial

/-! ## Runs -/

/-- The condition on the steps of a run: none, unless the request starts as one without a body. -/
def Stream.Wanted (headerOnly : Bool) (s : Stream) (e : StreamEvent) : Prop := headerOnly = true → s.BodyWanted e

theorem phased_start (main head headerOnly : Bool) (status : Int) : Phased (Stream.start true main head headerOnly status) :=
  .running ⟨⟨rfl, rfl, rfl, Nat.zero_le 1, rfl, fun hc => (nomatch hc), fun _ ha => (nomatch ha)⟩, fun hs => (nomatch hs),
    fun _ => ⟨rfl, rfl⟩⟩ (fun he => (nomatch he)) (.inl rfl) (fun hs => (nomatch hs))

theorem Stream.ReachableBy.phased {main head headerOnly : Bool} {status : Int}
    (h : Stream.ReachableBy (Stream.Wanted headerOnly) (Stream.start true main head headerOnly status) s) : Phased s := by
  have hboth : Phased s ∧ (headerOnly = false → BodyStreamed s) := by
    induction h with
    | refl => exact ⟨phased_start main head headerOnly status, fun ho _ _ => ho⟩
    | tail _ hstep ih =>
      obtain ⟨e, hok, hs⟩ := hstep
      refine ⟨ih.1.step ?_ hs, fun ho => (ih.2 ho).step hs⟩
      cases headerOnly with
      | false => exact (ih.2 rfl).wanted hs
      | true => exact hok rfl
  exact hboth.1

theorem Phased.last (h : Phased s) {post pre : List StreamAct} {rc : Int} (ht : s.trace = post ++ .finalize rc :: pre) :
    Finalized s ∧ post = [] ∧ ∀ rc', .finalize rc' ∉ pre := by
  have hunended (hu : ∀ a ∈ s.trace, a.ends = false) : False :=
    (unended hu).1 rc (by rw [ht]; exact List.mem_append_right _ List.mem_cons_self)
  cases h with
  | running h => exact (hunended h.trace).elim
  | aborted h => exact (hunended h.trace).elim
  | finalized h =>
    obtain ⟨rc₀, pre₀, ht₀, hfin, -⟩ := h.trace
    rw [ht₀] at ht
    cases post with
    | nil =>
      cases ht
      exact ⟨h, rfl, hfin⟩
    | cons a post =>
      obtain ⟨-, rfl⟩ := List.cons.inj ht
      exact absurd (List.mem_append_right _ List.mem_cons_self) (hfin rc)

theorem Phased.handed (h : Phased s) : s.handed <+: s.flushed ∧ s.busy.length ≤ 1 := by
  cases h with
  | running h => exact ⟨h.toFlowing.handed, h.busy⟩
  | aborted h => exact ⟨h.handed, h.busy⟩
  | finalized h => exact ⟨h.handed, h.busy⟩

theorem Phased.complete (h : Phased s) (hlast : .sendLast ∈ s.trace) : s.handed = s.flushed := by
  cases h with
  | running h => exact absurd hlast (unended h.trace).2
  | aborted h => exact absurd hlast (unended h.trace).2
  | finalized h =>
    obtain ⟨rc, pre, ht, -, hall⟩ := h.trace
    rw [ht] at hlast
    rcases List.mem_cons.1 hlast with he | hm
    · cases he
    · exact hall hm

/-- **Streaming is safe**: in a run in which no completion of a request that started without a body finds unread data, the
request is finalized at most once, after its task, and nothing acts on it afterwards; what is handed over is always a prefix
of what was flushed, with at most one buffer outstanding; and the last marker comes after all of it. -/
theorem streaming_is_safe {main head headerOnly : Bool} {status : Int}
    (h : Stream.ReachableBy (Stream.Wanted headerOnly) (Stream.start true main head headerOnly status) s) :
    (∀ post rc pre, s.trace = post ++ .finalize rc :: pre →
      post = [] ∧ (∀ rc', .finalize rc' ∉ pre) ∧ s.thread = .finished ∧ s.completed = true ∧
      s.conn = false ∧ s.request.streamWrite = false ∧ s.loop = .idle) ∧
    (s.handed <+: s.flushed ∧ s.busy.length ≤ 1) ∧
    (.sendLast ∈ s.trace → s.handed = s.flushed) := by
  have hp := h.phased
  refine ⟨fun post rc pre ht => ?_, hp.handed, hp.complete⟩
  obtain ⟨hf, hpost, hpre⟩ := hp.last ht
  exact ⟨hpost, hpre, hf.thread, hf.completed, hf.conn, hf.write, hf.loop⟩

def Stream.execute : List StreamEvent → Stream → Stream
  | [], s => s
  | e :: es, s => Stream.execute es ((s.handle e).getD s)

theorem Stream.execute_reachable {ok : Stream → StreamEvent → Prop} (hok : ∀ s e, ok s e) {s₀ : Stream} :
    ∀ (es : List StreamEvent) {s : Stream}, Stream.ReachableBy ok s₀ s → Stream.ReachableBy ok s₀ (Stream.execute es s)
  | [], _, h => h
  | e :: es, s, h => by
    refine Stream.execute_reachable hok es ?_
    cases hs : s.handle e with
    | none => exact h
    | some s' => exact h.tail ⟨e, hok s e, hs⟩

/-- Two bytes, written and sent one after the other. -/
theorem streaming_is_safe_bytes :
    let s := Stream.execute [.op (.write [65, 66]), .op (.flush true true true), .write 0, .pipeEvent {}, .pass {}, .pass {},
      .sendHeader 0 false true, .pass {}, .pass {}, .eintr, .write 0, .rewind, .finish 0, .completion {}, .pipeEvent {}, .pass {},
      .pass {}, .pass {}, .pass {}] (Stream.start true true false false 0)
    s.trace = [.finalize 0, .sendLast, .outputFilter [66], .handler, .outputFilter [65], .sendHeader 200 [], .handler] ∧
    s.handed = s.flushed := by
  refine ⟨by decide, ?_⟩
  have hok (s : Stream) (e : StreamEvent) : Stream.Wanted false s e := fun ho => (nomatch ho)
  have hstart : Stream.ReachableBy (Stream.Wanted false) (Stream.start true true false false 0) _ := .refl
  obtain ⟨-, -, hall⟩ := streaming_is_safe (Stream.execute_reachable hok _ hstart)
  exact hall (by decide)

/-- A subrequest without a body completes while the pipe has unread data: the request is finalized, and the next event of the
pipe finalizes it again. -/
theorem completion_leaves_pipe :
    let s := Stream.execute [.op (.write [65]), .op (.flush true true true), .write 0, .rewind, .finish 0, .completion {},
      .pipeEvent {}, .pass {}, .pass {}, .sendHeader 0 false true] (Stream.start true false false true 0)
    Stream.Reachable (Stream.start true false false true 0) s ∧
    s.trace = [.finalize 0, .sendHeader 200 [], .handler, .finalize 0] ∧ s.trace.count (.finalize 0) = 2 :=
  ⟨Stream.execute_reachable (fun _ _ => trivial) _ .refl, by decide⟩

end

end Lws

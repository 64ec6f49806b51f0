import Lws.StreamFinal
import Lws.ChunkSequence
/-!
# StreamSeal — the response header of a streaming request is sealed by its first flush (`lws_lib.c`, `lws_module.c`)

The event loop reads the status and the headers while the Lua thread is running.  The first flush that passes its checks seals
them before it writes to the pipe, so that they are the ones in force at that flush (`sealedAs`) from then on.
-/
namespace Lws

/-- The event loop has read bytes, which it has not handed over. -/
def LoopPc.carries (pc : LoopPc) : Bool := !pc.empty

def LuaThread.flushing : LuaThread → Bool
  | .flush _ => true
  | _ => false

/-- What holds of the response header in every state: it is as the first flush that passed its checks found it, and the event
loop uses it only after that. -/
structure HeaderSealed (s : Stream) : Prop where
  readonly : s.readonly = s.lctx.sealed
  snapshot : s.lctx.sealed = s.sealedAs.isSome
  inForce : ∀ st hs, s.sealedAs = some (st, hs) → s.ctx.status = st ∧ s.headers = hs
  redirect : s.lctx.sealed = true → s.ctx.redirect.len = 0
  used : s.thread.flushing = true ∨ s.pipe ≠ [] ∨ s.loop.carries = true → s.lctx.sealed = true
  headed : s.loop.heading = true → s.request.headers = s.headers
  sent : ∀ st hs, .sendHeader st hs ∈ s.trace → s.sealedAs = some (st, hs)

section
variable {s s' t : Stream}

theorem HeaderSealed.start (streaming main head headerOnly : Bool) (status : Int) :
    HeaderSealed (Stream.start streaming main head headerOnly status) :=
  ⟨rfl, rfl, fun _ _ h => (nomatch h), fun h => (nomatch h), by simp [Stream.start, LuaThread.flushing, LoopPc.carries, LoopPc.empty],
    fun h => (nomatch h), fun _ _ h => (nomatch h)⟩

/-! ## The event loop -/

/-- What a step of the event loop leaves as it is: all that Lua changes, and the header unless it is being sent. -/
structure LoopStep (s s' : Stream) : Prop where
  ctx : s'.ctx = s.ctx
  headers : s'.headers = s.headers
  lctx : s'.lctx = s.lctx
  readonly : s'.readonly = s.readonly
  sealedAs : s'.sealedAs = s.sealedAs
  thread : s'.thread = s.thread
  used : s'.pipe ≠ [] ∨ s'.loop.carries = true → s.pipe ≠ [] ∨ s.loop.carries = true
  headed : s'.loop.heading = true → s'.request.headers = s'.headers
  sent : ∀ st hs, .sendHeader st hs ∈ s'.trace →
    .sendHeader st hs ∈ s.trace ∨ (s.loop.heading = true ∧ st = s.ctx.status ∧ hs = s.request.headers)

theorem LoopPc.carries_of_heading {pc : LoopPc} (h : pc.heading = true) : pc.carries = true := by
  cases pc with
  | headed => rfl
  | _ => cases h

theorem HeaderSealed.loop (h : HeaderSealed s) (hs : LoopStep s s') : HeaderSealed s' := by
  have hused : s.pipe ≠ [] ∨ s.loop.carries = true → s.lctx.sealed = true := fun hu => h.used (.inr hu)
  refine ⟨by rw [hs.readonly, hs.lctx, h.readonly], by rw [hs.lctx, hs.sealedAs, h.snapshot], ?_, ?_, ?_, hs.headed, ?_⟩
  · intro st hd hseal
    rw [hs.ctx, hs.headers]
    exact h.inForce st hd (hs.sealedAs ▸ hseal)
  · rw [hs.lctx, hs.ctx]
    exact h.redirect
  · rintro (ht | hu)
    · rw [hs.lctx]
      exact h.used (.inl (hs.thread ▸ ht))
    · rw [hs.lctx]
      exact hused (hs.used hu)
  · intro st hd hm
    rw [hs.sealedAs]
    rcases hs.sent st hd hm with hm | ⟨hpc, rfl, rfl⟩
    · exact h.sent st hd hm
    · -- the header sent is the one in force, and the bytes read have sealed it
      have hseal := hused (.inr (LoopPc.carries_of_heading hpc))
      rw [h.snapshot, Option.isSome_iff_exists] at hseal
      obtain ⟨⟨st₀, hd₀⟩, hseal⟩ := hseal
      obtain ⟨hst, hhd⟩ := h.inForce st₀ hd₀ hseal
      rw [hseal, hst, h.headed hpc, hhd]

theorem LoopStep.refl (hheaded : s.loop.heading = true → s.request.headers = s.headers) : LoopStep s s :=
  ⟨rfl, rfl, rfl, rfl, rfl, rfl, id, hheaded, fun _ _ hm => .inl hm⟩

theorem LoopStep.with (h : LoopStep s t) (request : Request) (conn pipeWrite : Bool) (streamingRc : Int)
    (busy : List (List UInt8)) {pc : LoopPc} (completed : Bool) (handed : List UInt8)
    (hpc : (pc = t.loop ∧ request.headers = t.request.headers) ∨ pc.empty = true) :
    LoopStep s { t with
      request := request, conn := conn, pipeWrite := pipeWrite, streamingRc := streamingRc, busy := busy, loop := pc
      completed := completed, handed := handed } := by
  rcases hpc with ⟨rfl, hreq⟩ | hpc
  · exact ⟨h.ctx, h.headers, h.lctx, h.readonly, h.sealedAs, h.thread, h.used, fun he => hreq.trans (h.headed he), h.sent⟩
  · have hcarries : pc.carries = false := by simp [LoopPc.carries, hpc]
    refine ⟨h.ctx, h.headers, h.lctx, h.readonly, h.sealedAs, h.thread, fun hu => h.used ?_, fun he => ?_, h.sent⟩
    · rcases hu with hu | hu
      · exact .inl hu
      · exact absurd hu (by simp [hcarries])
    · exact absurd (LoopPc.carries_of_heading he) (by simp [hcarries])

theorem LoopStep.note (h : LoopStep s t) {a : StreamAct} (ha : ∀ st hs, a ≠ .sendHeader st hs) : LoopStep s (t.note a) := by
  refine ⟨h.ctx, h.headers, h.lctx, h.readonly, h.sealedAs, h.thread, h.used, h.headed, fun st hs hm => ?_⟩
  rcases List.mem_cons.1 hm with he | hm
  · exact absurd he.symm (ha st hs)
  · exact h.sent st hs hm

theorem LoopStep.finalize (h : LoopStep s t) (rc : Int) : LoopStep s (t.finalize rc) := h.note fun _ _ he => (nomatch he)

theorem LoopStep.error (h : LoopStep s t) (rc : Int) : LoopStep s (streamError rc t) := by
  unfold streamError
  have hg : LoopStep s { t with
      request := { t.request with streamWrite := false }, conn := false, streamingRc := rc, loop := .idle } :=
    h.with _ _ _ _ _ _ _ (.inr rfl)
  dsimp only
  split
  · exact hg.finalize rc
  · exact hg

theorem LoopStep.idle (h : LoopStep s t) : LoopStep s { t with loop := .idle } := h.with _ _ _ _ _ _ _ (.inr rfl)

theorem LoopStep.streamWrite (h : LoopStep s t) (b : Bool) : LoopStep s { t with request := { t.request with streamWrite := b } } :=
  h.with _ _ _ _ _ _ _ (.inl ⟨rfl, rfl⟩)

theorem LoopStep.blocked (h : LoopStep s t) (a : Pass) : LoopStep s (streamBlocked a t) := by
  have hw := h.streamWrite true
  unfold streamBlocked
  split
  · exact h.error _
  · dsimp only
    split
    · exact hw.idle
    · split
      · exact hw.error _
      · exact hw.idle

theorem streamHandler_loop (h : LoopStep s s) (a : Pass) : LoopStep s (streamHandler a s) := by
  have hn : LoopStep s (s.note .handler) := h.note fun _ _ he => (nomatch he)
  unfold streamHandler
  dsimp only
  split
  · split
    · exact hn.error _
    · split
      · split
        · exact hn.error _
        · have hfree : LoopStep s { s.note .handler with busy := (s.note .handler).busy.drop a.freed } :=
            hn.with _ _ _ _ _ _ _ (.inl ⟨rfl, rfl⟩)
          split
          · split
            · exact (hfree.streamWrite false).error _
            · exact (hfree.streamWrite false).idle
          · exact hfree.blocked a
      · exact hn.blocked a
  · exact hn.with _ _ _ _ _ _ _ (.inr rfl)

theorem streamRead_loop (h : LoopStep s s) (a : Pass) (reads : Nat) : LoopStep s (streamRead a reads s) := by
  have hclosed : LoopStep s { s with conn := false, loop := .idle } := h.with _ _ _ _ _ _ _ (.inr rfl)
  unfold streamRead
  split
  · exact h.blocked a
  · split
    · exact h.error _
    · split
      · exact h.error _
      · split
        · rename_i hpipe
          exact ⟨rfl, rfl, rfl, rfl, rfl, rfl, fun _ => .inl (by simpa using hpipe), fun he => (nomatch he), fun _ _ hm => .inl hm⟩
        · split
          · split
            · exact h.error _
            · exact h.idle
          · dsimp only
            split
            · exact hclosed.finalize _
            · split
              · exact (hclosed.note (a := .sendLast) fun _ _ he => (nomatch he)).finalize _
              · exact hclosed.finalize _

theorem streamHeader_loop (a : Pass) (reads : Nat) (bytes : List UInt8) (hloop : s.loop = .received reads bytes) :
    LoopStep s (streamHeader a reads bytes s) := by
  have hcarries : s.loop.carries = true := by rw [hloop]; rfl
  have h : LoopStep s s := .refl (by rw [hloop]; exact fun he => (nomatch he))
  unfold streamHeader
  split
  · dsimp only
    generalize ht : (if (s.request.main && _) = true then _ else s : Stream) = t
    have h : LoopStep s t := by
      rw [← ht]
      split
      · exact h.with _ _ _ _ _ _ _ (.inl ⟨rfl, rfl⟩)
      · exact h
    split
    · exact h.error _
    · exact ⟨h.ctx, h.headers, h.lctx, h.readonly, h.sealedAs, h.thread, fun _ => .inr hcarries, fun _ => rfl, h.sent⟩
  · exact ⟨rfl, rfl, rfl, rfl, rfl, rfl, fun _ => .inr hcarries, fun he => (nomatch he), fun _ _ hm => .inl hm⟩

theorem streamSendHeader_loop (h : LoopStep s s) (rc : Int) (only sent : Bool) (reads : Nat) (bytes : List UInt8)
    (hloop : s.loop = .headed reads bytes) : LoopStep s (streamSendHeader rc only sent reads bytes s) := by
  have hn : LoopStep s (s.note (.sendHeader s.ctx.status s.request.headers)) := by
    refine ⟨rfl, rfl, rfl, rfl, rfl, rfl, h.used, h.headed, fun st hs hm => ?_⟩
    rcases List.mem_cons.1 hm with he | hm
    · cases he
      exact .inr ⟨by rw [hloop]; rfl, rfl, rfl⟩
    · exact .inl hm
  unfold streamSendHeader
  dsimp only
  split
  · refine LoopStep.error ?_ _
    exact hn.with _ _ _ _ _ _ _ (.inl ⟨rfl, rfl⟩)
  · exact ⟨rfl, rfl, rfl, rfl, rfl, rfl, fun _ => .inr (by rw [hloop]; rfl), fun he => (nomatch he), hn.sent⟩

theorem streamSend_loop (h : LoopStep s s) (a : Pass) (reads : Nat) (bytes : List UInt8) :
    LoopStep s (streamSend a reads bytes s) := by
  have hn : LoopStep s (s.note (.outputFilter bytes)) := h.note fun _ _ he => (nomatch he)
  have hh : LoopStep s { s.note (.outputFilter bytes) with handed := s.handed ++ bytes } :=
    hn.with _ _ _ _ _ _ _ (.inl ⟨rfl, rfl⟩)
  have hb : LoopStep s { s.note (.outputFilter bytes) with
      handed := s.handed ++ bytes, busy := (s.busy ++ [bytes]).drop a.freed } := hn.with _ _ _ _ _ _ _ (.inl ⟨rfl, rfl⟩)
  unfold streamSend
  dsimp only
  split
  · exact hh.error _
  · split
    · exact hb.blocked a
    · split
      · split
        · exact hb.error _
        · split
          · exact hb.error _
          · exact hb.idle
      · exact hb.with _ _ _ _ _ _ _ (.inr rfl)

theorem closePipe_loop (h : LoopStep s t) (a : Pass) : LoopStep s (closePipe a t) := by
  unfold closePipe
  dsimp only
  repeat' split
  all_goals exact h.with _ _ _ _ _ _ _ (.inl ⟨rfl, rfl⟩)

theorem streamFinalizationHandler_loop (h : LoopStep s s) (a : Pass) : LoopStep s (streamFinalizationHandler a s) := by
  have hc : LoopStep s (closePipe a { s with completed := true }) := closePipe_loop (h.with _ _ _ _ _ _ _ (.inl ⟨rfl, rfl⟩)) a
  unfold streamFinalizationHandler
  dsimp only
  split
  · split
    · exact hc
    · split
      · exact (hc.note (a := .sendLast) fun _ _ he => (nomatch he)).finalize _
      · exact hc.finalize _
  · exact (hc.note (a := .respond _) fun _ _ he => (nomatch he)).finalize _

theorem loopStep_of_handle (h : HeaderSealed s) {e : StreamEvent} (he : e.ofThread = false) (hs : s.handle e = some s') :
    LoopStep s s' := by
  have hr : LoopStep s s := .refl h.headed
  unfold Stream.handle at hs
  cases e with
  | pipeEvent a =>
    dsimp only at hs
    split at hs
    · cases hs
      exact streamHandler_loop hr a
    · cases hs
  | clientEvent a =>
    dsimp only at hs
    split at hs
    · cases hs
      unfold streamWriteHandler
      split
      · exact streamHandler_loop hr a
      · exact hr
    · cases hs
  | pass a =>
    dsimp only at hs
    split at hs
    · cases hs
      exact streamRead_loop hr a _
    · rename_i reads bytes hpc
      cases hs
      exact streamHeader_loop a reads bytes hpc
    · cases hs
      exact streamSend_loop hr a _ _
    · cases hs
  | sendHeader rc only sent =>
    dsimp only at hs
    split at hs
    · rename_i reads bytes hpc
      cases hs
      exact streamSendHeader_loop hr rc only sent reads bytes hpc
    · cases hs
  | completion a =>
    dsimp only at hs
    split at hs
    · cases hs
      exact streamFinalizationHandler_loop hr a
    · cases hs
  | op | write | eintr | epipe | rewind | finish => cases he

/-! ## The Lua thread -/

theorem HeaderSealed.unsealed (h : HeaderSealed s) (hs : s.lctx.sealed = false) (ctx : RequestCtx) (headers : Headers)
    {lctx : LuaCtx} (hl : lctx.sealed = false) : HeaderSealed { s with ctx := ctx, headers := headers, lctx := lctx } := by
  have hnone : s.sealedAs = none := by simpa [h.snapshot] using hs
  have hunused (hu : s.thread.flushing = true ∨ s.pipe ≠ [] ∨ s.loop.carries = true) : False := by
    have hsealed := h.used hu
    rw [hs] at hsealed
    cases hsealed
  refine ⟨h.readonly.trans (hs.trans hl.symm), by simp [hl, hnone], fun st hd he => ?_, fun he => ?_, fun hu => (hunused hu).elim,
    fun he => (hunused (.inr (.inr (LoopPc.carries_of_heading he)))).elim, h.sent⟩
  · exact absurd he (by simp [hnone])
  · exact absurd he (by simp [hl])

theorem HeaderSealed.same (h : HeaderSealed s) (rc : Int) (chunk : Chunk) (body : Body) {thread : LuaThread}
    (hthread : thread.flushing = true → s.thread.flushing = true) : HeaderSealed { s with
      ctx := { s.ctx with rc := rc }, lctx := { s.lctx with chunk := chunk }, body := body, thread := thread } :=
  ⟨h.readonly, h.snapshot, h.inForce, h.redirect, fun hu => h.used (hu.imp_left hthread), h.headed, h.sent⟩

theorem lwsRedirect_sealed (path : Key) (args : Option Key) (memArgs mem : Bool) (lctx : LuaCtx) (ctx : RequestCtx) :
    (lwsRedirect path args memArgs mem lctx ctx).1.sealed = lctx.sealed := by
  unfold lwsRedirect
  dsimp only
  repeat' split
  all_goals rfl

def Stream.FlushPasses (s : Stream) (tell fits : Bool) : Prop :=
  s.ctx.redirect.len = 0 ∧ s.pipeWrite = true ∧ tell = true ∧ fits = true

theorem fileFlushHook_fails {tell fits : Bool} (h : ¬ s.FlushPasses tell fits) (flush : Bool) :
    fileFlushHook tell fits flush s = (s, .error) := by
  unfold fileFlushHook
  by_cases hr : s.ctx.redirect.len = 0
  · rw [if_neg (by simp [hr])]
    cases hw : s.pipeWrite with
    | false => rfl
    | true =>
      cases tell with
      | false => rfl
      | true =>
        cases fits with
        | false => rfl
        | true => exact absurd ⟨hr, hw, rfl, rfl⟩ h
  · rw [if_pos hr]

theorem fileFlushHook_passes {tell fits : Bool} (h : s.FlushPasses tell fits) (flush : Bool) :
    ∃ thread flushed, (fileFlushHook tell fits flush s).1 = { s with
      lctx := { s.lctx with sealed := true }, readonly := true, sealedAs := s.sealedAs <|> some (s.ctx.status, s.headers)
      thread := thread, flushed := flushed } := by
  obtain ⟨hr, hw, rfl, rfl⟩ := h
  unfold fileFlushHook
  rw [if_neg (by simp [hr]), if_neg (by simp [hw]), if_neg (by simp), if_neg (by simp)]
  dsimp only
  split
  · split
    · exact ⟨_, _, rfl⟩
    · exact ⟨_, _, rfl⟩
  · exact ⟨_, _, rfl⟩

theorem HeaderSealed.flush (h : HeaderSealed s) (tell fits flush : Bool) : HeaderSealed (fileFlushHook tell fits flush s).1 := by
  by_cases hpass : s.FlushPasses tell fits
  · obtain ⟨thread, flushed, hf⟩ := fileFlushHook_passes hpass flush
    rw [hf]
    refine ⟨rfl, ?_, fun st hd he => ?_, fun _ => hpass.1, fun _ => rfl, h.headed, fun st hd hm => ?_⟩
    · cases hs : s.sealedAs <;> rfl
    · dsimp only at he
      cases hs : s.sealedAs with
      | none =>
        rw [hs] at he
        cases he
        exact ⟨rfl, rfl⟩
      | some x =>
        rw [hs] at he
        exact h.inForce st hd (hs.trans he)
    · dsimp only
      rw [h.sent st hd hm]
      rfl
  · rw [fileFlushHook_fails hpass]
    exact h

def LuaOp.changesHeader : LuaOp → Bool
  | .status _ | .header _ _ _ | .redirect _ _ _ _ => true
  | _ => false

theorem HeaderSealed.refused (h : HeaderSealed s) (hs : s.lctx.sealed = true) {o : LuaOp} (ho : o.changesHeader = true) :
    luaOp o s = (s, .error) := by
  cases o with
  | status value =>
    unfold luaOp responseNewindex
    cases value with
    | none => rfl
    | some value => exact if_pos hs
  | header key value mem => exact if_pos (h.readonly.trans hs)
  | redirect path args memArgs mem =>
    have hno : ¬ ((s.lctx.chunk = .pre ∨ s.lctx.chunk = .main) ∧ s.lctx.sealed = false ∧ redirectValid path = true) :=
      fun hr => absurd hr.2.1 (by simp [hs])
    simp only [luaOp, lwsRedirect_refused _ _ memArgs mem hno]
  | chunk | write | flush => cases ho

theorem HeaderSealed.luaOp (h : HeaderSealed s) (o : LuaOp) : HeaderSealed (luaOp o s).1 := by
  by_cases hs : o.changesHeader = true ∧ s.lctx.sealed = true
  · rw [h.refused hs.2 hs.1]
    exact h
  have hopen (ho : o.changesHeader = true) : s.lctx.sealed = false := by simpa [ho] using hs
  cases o with
  | chunk chunk => exact h.same s.ctx.rc chunk s.body id
  | status value =>
    simp only [Lws.luaOp, responseNewindex]
    repeat' split
    all_goals first | exact h | exact h.unsealed (hopen rfl) _ s.headers (hopen rfl)
  | header key value mem =>
    simp only [Lws.luaOp, tableNewindex]
    repeat' split
    all_goals first | exact h | exact h.unsealed (hopen rfl) s.ctx _ (hopen rfl)
  | redirect path args memArgs mem =>
    exact h.unsealed (hopen rfl) _ s.headers ((lwsRedirect_sealed path args memArgs mem s.lctx s.ctx).trans (hopen rfl))
  | write bytes => exact h.same s.ctx.rc s.lctx.chunk _ id
  | flush tell fits flush => exact h.flush tell fits flush

/-! ## Steps and runs -/

theorem HeaderSealed.step (h : HeaderSealed s) {e : StreamEvent} (hs : s.handle e = some s') : HeaderSealed s' := by
  by_cases he : e.ofThread = false
  · exact h.loop (loopStep_of_handle h he hs)
  unfold Stream.handle at hs
  cases e with
  | op o =>
    dsimp only at hs
    split at hs
    · cases hs
      exact h.luaOp o
    · cases hs
  | write count =>
    dsimp only at hs
    split at hs
    · rename_i hflush
      split at hs
      · cases hs
        have hsealed := h.used (.inl (by rw [hflush]; rfl))
        exact ⟨h.readonly, h.snapshot, h.inForce, h.redirect, fun _ => hsealed, h.headed, h.sent⟩
      · cases hs
    · cases hs
  | eintr =>
    dsimp only at hs
    split at hs
    · cases hs
      exact h
    · cases hs
  | epipe =>
    dsimp only at hs
    split at hs
    · split at hs
      · cases hs
      · cases hs
        exact h.same s.ctx.rc s.lctx.chunk s.body fun he => (nomatch he)
    · cases hs
  | rewind =>
    dsimp only at hs
    split at hs
    · cases hs
      exact h.same s.ctx.rc s.lctx.chunk _ fun he => (nomatch he)
    · cases hs
  | finish rc =>
    dsimp only at hs
    split at hs
    · cases hs
      exact h.same rc s.lctx.chunk s.body fun he => (nomatch he)
    · cases hs
  | pipeEvent | clientEvent | pass | sendHeader | completion => exact absurd rfl he

def Stream.Seals (s : Stream) (e : StreamEvent) : Prop :=
  ∃ tell fits flush, e = .op (.flush tell fits flush) ∧ s.FlushPasses tell fits

theorem not_seals {e : StreamEvent} (h : ∀ tell fits flush, e ≠ .op (.flush tell fits flush)) : ¬ s.Seals e := by
  rintro ⟨tell, fits, flush, he, -⟩
  exact h tell fits flush he

theorem luaOp_sealedAs (o : LuaOp) :
    (¬ s.Seals (.op o) ∧ (luaOp o s).1.sealedAs = s.sealedAs) ∨
    (s.Seals (.op o) ∧ (luaOp o s).1.sealedAs = (s.sealedAs <|> some (s.ctx.status, s.headers))) := by
  cases o with
  | flush tell fits flush =>
    by_cases hpass : s.FlushPasses tell fits
    · obtain ⟨thread, flushed, hf⟩ := fileFlushHook_passes hpass flush
      exact .inr ⟨⟨tell, fits, flush, rfl, hpass⟩, by rw [luaOp, hf]⟩
    · refine .inl ⟨?_, by rw [luaOp, fileFlushHook_fails hpass]⟩
      rintro ⟨_, _, _, he, hp⟩
      cases he
      exact hpass hp
  | status value =>
    refine .inl ⟨not_seals fun _ _ _ he => (by cases he), ?_⟩
    simp only [luaOp, responseNewindex]
    repeat' split
    all_goals rfl
  | header key value mem =>
    refine .inl ⟨not_seals fun _ _ _ he => (by cases he), ?_⟩
    simp only [luaOp, tableNewindex]
    repeat' split
    all_goals rfl
  | chunk | redirect | write => exact .inl ⟨not_seals fun _ _ _ he => (by cases he), rfl⟩

/-- **Only a flush that passes its checks seals the header**, and it seals the one in force. -/
theorem sealedAs_step (h : HeaderSealed s) {e : StreamEvent} (hs : s.handle e = some s') :
    (¬ s.Seals e ∧ s'.sealedAs = s.sealedAs) ∨
    (s.Seals e ∧ s'.sealedAs = (s.sealedAs <|> some (s.ctx.status, s.headers))) := by
  by_cases he : e.ofThread = false
  · refine .inl ⟨?_, (loopStep_of_handle h he hs).sealedAs⟩
    rintro ⟨_, _, _, rfl, -⟩
    cases he
  unfold Stream.handle at hs
  cases e with
  | op o =>
    dsimp only at hs
    split at hs
    · cases hs
      exact luaOp_sealedAs o
    · cases hs
  | write | eintr | epipe | rewind | finish =>
    refine .inl ⟨not_seals fun _ _ _ he => (by cases he), ?_⟩
    dsimp only at hs
    repeat' split at hs
    all_goals first | cases hs; rfl | cases hs
  | pipeEvent | clientEvent | pass | sendHeader | completion => exact absurd rfl he

theorem HeaderSealed.persists (h : HeaderSealed s) {x : Int × Headers} (hx : s.sealedAs = some x) {ok : Stream → StreamEvent → Prop}
    (hr : Stream.ReachableBy ok s s') : HeaderSealed s' ∧ s'.sealedAs = some x := by
  induction hr with
  | refl => exact ⟨h, hx⟩
  | tail _ hstep ih =>
    obtain ⟨e, -, hs⟩ := hstep
    refine ⟨ih.1.step hs, ?_⟩
    rcases sealedAs_step ih.1 hs with ⟨-, hsame⟩ | ⟨-, hsame⟩
    · rw [hsame, ih.2]
    · rw [hsame, ih.2]
      rfl

theorem Stream.Reachable.headerSealed {streaming main head headerOnly : Bool} {status : Int}
    (h : Stream.Reachable (Stream.start streaming main head headerOnly status) s) : HeaderSealed s := by
  induction h with
  | refl => exact .start streaming main head headerOnly status
  | tail _ hstep ih =>
    obtain ⟨e, -, hs⟩ := hstep
    exact ih.step hs

/-- **The response header is sealed by the first flush that passes its checks**: until then it is not sent; from then on, what
would change the status, the headers or the redirect fails and changes nothing, and the header that is sent is the one in force
at that flush.  A sealed response has no redirect. -/
theorem response_header_is_sealed {streaming main head headerOnly : Bool} {status : Int}
    (h : Stream.Reachable (Stream.start streaming main head headerOnly status) s) :
    ¬ (s.lctx.sealed = true ∧ s.ctx.redirect.len ≠ 0) ∧
    (∀ e s', s.handle e = some s' → (s'.lctx.sealed = true ↔ s.lctx.sealed = true ∨ s.Seals e)) ∧
    (s.lctx.sealed = false → ∀ st hs, .sendHeader st hs ∉ s.trace) ∧
    (∀ e s₁, s.lctx.sealed = false → s.Seals e → s.handle e = some s₁ → ∀ s₂, Stream.Reachable s₁ s₂ →
      (∀ o : LuaOp, o.changesHeader = true → luaOp o s₂ = (s₂, .error)) ∧
      s₂.ctx.status = s.ctx.status ∧ s₂.headers = s.headers ∧ s₂.ctx.redirect.len = 0 ∧
      ∀ st hs, .sendHeader st hs ∈ s₂.trace → st = s.ctx.status ∧ hs = s.headers) := by
  have hi := h.headerSealed
  refine ⟨fun hb => hb.2 (hi.redirect hb.1), fun e s' hs => ?_, fun hopen st hd hm => ?_, fun e s₁ hopen hseals hs s₂ hr => ?_⟩
  · rw [(hi.step hs).snapshot, hi.snapshot]
    rcases sealedAs_step hi hs with ⟨hno, hsame⟩ | ⟨hyes, hsame⟩
    · rw [hsame]
      exact ⟨.inl, fun hor => hor.resolve_right hno⟩
    · rw [hsame]
      refine ⟨fun _ => .inr hyes, fun _ => ?_⟩
      cases s.sealedAs <;> rfl
  · have hsome := hi.sent st hd hm
    rw [hi.snapshot, hsome] at hopen
    cases hopen
  · have hnone : s.sealedAs = none := by simpa [hi.snapshot] using hopen
    have hx : s₁.sealedAs = some (s.ctx.status, s.headers) := by
      rcases sealedAs_step hi hs with ⟨hno, -⟩ | ⟨-, hsame⟩
      · exact absurd hseals hno
      · rw [hsame, hnone]
        rfl
    obtain ⟨hi₂, hx₂⟩ := (hi.step hs).persists hx hr
    have hsealed : s₂.lctx.sealed = true := by rw [hi₂.snapshot, hx₂]; rfl
    obtain ⟨hst, hhd⟩ := hi₂.inForce _ _ hx₂
    refine ⟨fun o ho => hi₂.refused hsealed ho, hst, hhd, hi₂.redirect hsealed, fun st hd hm => ?_⟩
    have hsent := hi₂.sent st hd hm
    rw [hx₂] at hsent
    cases hsent
    exact ⟨rfl, rfl⟩

/-- A status and a header are set, the body is flushed, and the header is sent while Lua goes on to try to change it. -/
theorem response_header_is_sealed_sent :
    let s := Stream.execute [.op (.status (some 201)), .op (.header (some [0x41]) (some [0x31]) true), .op (.write [65])]
      (Stream.start true true false false 0)
    let s₂ := Stream.execute [.op (.flush true true true), .write 0, .rewind, .op (.status (some 500)), .pipeEvent {}, .pass {},
      .op (.header (some [0x41]) (some [0x32]) true), .pass {}, .sendHeader 0 false true] s
    s₂.trace = [.sendHeader 201 [([0x41], [0x31])], .handler] ∧ s₂.ctx.status = 201 ∧ s₂.headers = s.headers := by
  refine ⟨by decide, ?_⟩
  have hstart : Stream.Reachable (Stream.start true true false false 0) _ := .refl
  obtain ⟨-, -, -, h⟩ := response_header_is_sealed (Stream.execute_reachable (fun _ _ => trivial) [.op (.status (some 201)),
    .op (.header (some [0x41]) (some [0x31]) true), .op (.write [65])] hstart)
  obtain ⟨-, hst, hhd, -⟩ := h (.op (.flush true true true)) _ rfl ⟨true, true, true, rfl, rfl, rfl, rfl, rfl⟩ rfl _
    (Stream.execute_reachable (fun _ _ => trivial) [.write 0, .rewind, .op (.status (some 500)), .pipeEvent {}, .pass {},
      .op (.header (some [0x41]) (some [0x32]) true), .pass {}, .sendHeader 0 false true] .refl)
  exact ⟨hst, hhd⟩

end

end Lws

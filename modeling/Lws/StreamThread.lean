import Lws.Stream
/-!
# StreamThread — the steps of the Lua thread of a streaming request (`lws_lib.c`)

Whatever the Lua thread does leaves to the event loop what is the event loop's: a step writes bytes of the flush to the pipe,
or starts a flush (`threadStep_of_handle`).
-/
namespace Lws

/-- The bytes of a flush that are not yet in the pipe. -/
def LuaThread.rest : LuaThread → List UInt8
  | .flush rest => rest
  | _ => []

section
variable {s s' : Stream}

/-- A step of the Lua thread writes `out` to the pipe, and adds `more` to what is flushed. -/
def ThreadStep (s s' : Stream) : Prop :=
  ∃ ctx headers lctx readonly body sealedAs thread out more,
    s' = { s with
      ctx := ctx, headers := headers, lctx := lctx, readonly := readonly, body := body, sealedAs := sealedAs
      thread := thread, pipe := s.pipe ++ out, flushed := s.flushed ++ more } ∧
    (s.conn = true → out ++ thread.rest = s.thread.rest ++ more)

theorem ThreadStep.same (ctx : RequestCtx) (headers : Headers) (lctx : LuaCtx) (readonly : Bool) (body : Body)
    (sealedAs : Option (Int × Headers)) (thread : LuaThread) (hthread : s.conn = true → thread.rest = s.thread.rest) :
    ThreadStep s { s with
      ctx := ctx, headers := headers, lctx := lctx, readonly := readonly, body := body, sealedAs := sealedAs, thread := thread } :=
  ⟨ctx, headers, lctx, readonly, body, sealedAs, thread, [], [], by simp only [List.append_nil],
    fun hc => by rw [List.nil_append, List.append_nil, hthread hc]⟩

theorem ThreadStep.writes {thread : LuaThread} {out : List UInt8} (hflow : out ++ thread.rest = s.thread.rest) :
    ThreadStep s { s with pipe := s.pipe ++ out, thread := thread } :=
  ⟨s.ctx, s.headers, s.lctx, s.readonly, s.body, s.sealedAs, thread, out, [], by simp only [List.append_nil],
    fun _ => by rw [hflow, List.append_nil]⟩

theorem fileFlushHook_step (tell fits flush : Bool) (hlua : s.thread = .lua) :
    ThreadStep s (fileFlushHook tell fits flush s).1 := by
  have hsame := ThreadStep.same (s := s) s.ctx s.headers s.lctx s.readonly s.body s.sealedAs s.thread (fun _ => rfl)
  have hsealed := ThreadStep.same (s := s) s.ctx s.headers { s.lctx with sealed := true } true s.body
    (s.sealedAs <|> some (s.ctx.status, s.headers)) s.thread (fun _ => rfl)
  unfold fileFlushHook
  split
  · exact hsame
  · split
    · exact hsame
    · split
      · exact hsame
      · split
        · exact hsame
        · dsimp only
          split
          · split
            · exact hsealed
            · refine ⟨_, _, _, _, _, _, .flush (s.body.data.take s.body.pos), [], s.body.data.take s.body.pos,
                by rw [List.append_nil], fun _ => ?_⟩
              rw [hlua]
              rfl
          · exact hsealed

theorem luaOp_step (o : LuaOp) (hlua : s.thread = .lua) : ThreadStep s (luaOp o s).1 := by
  have hsame := ThreadStep.same (s := s) s.ctx s.headers s.lctx s.readonly s.body s.sealedAs s.thread (fun _ => rfl)
  cases o with
  | chunk chunk => exact .same _ _ _ _ _ _ _ (fun _ => rfl)
  | status value =>
    simp only [luaOp, responseNewindex]
    split
    · exact hsame
    · split
      · exact hsame
      · exact .same _ _ _ _ _ _ _ (fun _ => rfl)
  | header key value mem =>
    simp only [luaOp, tableNewindex]
    repeat' split
    all_goals first | exact hsame | exact .same _ _ _ _ _ _ _ (fun _ => rfl)
  | redirect path args memArgs mem => exact .same _ _ _ _ _ _ _ (fun _ => rfl)
  | write bytes => exact .same _ _ _ _ _ _ _ (fun _ => rfl)
  | flush tell fits flush => exact fileFlushHook_step tell fits flush hlua

def StreamEvent.ofThread : StreamEvent → Bool
  | .op _ | .write _ | .eintr | .epipe | .rewind | .finish _ => true
  | _ => false

theorem threadStep_of_handle {e : StreamEvent} (he : e.ofThread = true) (hs : s.handle e = some s') :
    s.thread ≠ .finished ∧ ThreadStep s s' := by
  unfold Stream.handle at hs
  cases e with
  | op o =>
    dsimp only at hs
    split at hs
    · rename_i hlua
      cases hs
      exact ⟨by rw [hlua]; exact fun he => (nomatch he), luaOp_step o hlua⟩
    · cases hs
  | write count =>
    dsimp only at hs
    split at hs
    · rename_i c rest hflush
      split at hs
      · cases hs
        refine ⟨by rw [hflush]; exact fun he => (nomatch he), .writes ?_⟩
        rw [hflush]
        exact List.take_append_drop _ _
      · cases hs
    · cases hs
  | eintr =>
    dsimp only at hs
    split at hs
    · rename_i hflush
      cases hs
      exact ⟨by rw [hflush]; exact fun he => (nomatch he), .same _ _ _ _ _ _ _ (fun _ => rfl)⟩
    · cases hs
  | epipe =>
    dsimp only at hs
    split at hs
    · rename_i hflush
      split at hs
      · cases hs
      · rename_i hconn
        cases hs
        exact ⟨by rw [hflush]; exact fun he => (nomatch he), .same _ _ _ _ _ _ _ (fun hc => absurd hc hconn)⟩
    · cases hs
  | rewind =>
    dsimp only at hs
    split at hs
    · rename_i hflush
      cases hs
      exact ⟨by rw [hflush]; exact fun he => (nomatch he), .same _ _ _ _ _ _ _ (fun _ => by rw [hflush]; rfl)⟩
    · cases hs
  | finish rc =>
    dsimp only at hs
    split at hs
    · rename_i hlua
      cases hs
      exact ⟨by rw [hlua]; exact fun he => (nomatch he), .same _ _ _ _ _ _ _ (fun _ => by rw [hlua]; rfl)⟩
    · cases hs
  | pipeEvent | clientEvent | pass | sendHeader | completion => cases he

end

end Lws

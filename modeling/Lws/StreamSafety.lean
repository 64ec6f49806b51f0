import Lws.StreamThread
/-!
# StreamSafety — a streaming request is finalized once, and its body is handed over in order

A streaming request runs, then is aborted by the event loop or completed by its task, then finalized.  `Running`, `Aborted` and
`Finalized` are what holds in each phase; every step leads from one phase to the same or a later one (`Phased.step`).
-/
namespace Lws

def LoopPc.bytes : LoopPc → List UInt8
  | .idle | .read _ => []
  | .received _ bytes | .headed _ bytes | .send _ bytes => bytes

def LoopPc.empty : LoopPc → Bool
  | .idle | .read _ => true
  | _ => false

def LoopPc.sends : LoopPc → Bool
  | .send _ _ => true
  | _ => false

/-- The last marker of the response, or the end of the request. -/
def StreamAct.ends : StreamAct → Bool
  | .sendLast | .finalize _ => true
  | _ => false

/-- The pipe is connected: what was flushed is handed over, read, in the pipe, or about to be written. -/
structure Flowing (bytes : List UInt8) (s : Stream) : Prop where
  conn : s.conn = true
  rc : s.streamingRc = ngxOk
  flow : s.handed ++ bytes ++ s.pipe ++ s.thread.rest = s.flushed
  busy : s.busy.length ≤ 1
  pipeWrite : s.pipeWrite = !s.completed
  thread : s.completed = true → s.thread = .finished
  trace : ∀ a ∈ s.trace, a.ends = false

/-- Streaming goes on: a header that is sent is followed by a body, and the client is waited for only after it. -/
structure Running (bytes : List UInt8) (s : Stream) : Prop extends Flowing bytes s where
  committed : s.request.headerSent = true → s.request.headerOnly = false
  fresh : s.request.headerSent = false → s.request.streamWrite = false ∧ s.busy = []

/-- The event loop has aborted streaming, for an error or a response without a body, before the task completes. -/
structure Aborted (s : Stream) : Prop where
  conn : s.conn = false
  loop : s.loop = .idle
  write : s.request.streamWrite = false
  rc : s.streamingRc = ngxError ∨ s.streamingRc > ngxOk ∨ s.request.headerOnly = true
  handed : s.handed <+: s.flushed
  busy : s.busy.length ≤ 1
  completed : s.completed = false
  pipeWrite : s.pipeWrite = true
  trace : ∀ a ∈ s.trace, a.ends = false

structure Finalized (s : Stream) : Prop where
  conn : s.conn = false
  loop : s.loop = .idle
  write : s.request.streamWrite = false
  handed : s.handed <+: s.flushed
  busy : s.busy.length ≤ 1
  completed : s.completed = true
  thread : s.thread = .finished
  trace : ∃ rc pre, s.trace = .finalize rc :: pre ∧ (∀ rc', .finalize rc' ∉ pre) ∧ (.sendLast ∈ pre → s.handed = s.flushed)

inductive Phased (s : Stream) : Prop
  | running (h : Running s.loop.bytes s) (hbusy : s.loop.empty = false → s.busy = [])
      (hwrite : s.loop = .idle ∨ s.request.streamWrite = false) (hsent : s.loop.sends = true → s.request.headerSent = true)
  | aborted (h : Aborted s)
  | finalized (h : Finalized s)

section
variable {s : Stream} {bytes : List UInt8}

theorem Flowing.handed (h : Flowing bytes s) : s.handed <+: s.flushed :=
  ⟨bytes ++ s.pipe ++ s.thread.rest, by rw [← h.flow]; simp only [List.append_assoc]⟩

theorem unended {trace : List StreamAct} (h : ∀ a ∈ trace, a.ends = false) : (∀ rc, .finalize rc ∉ trace) ∧ .sendLast ∉ trace :=
  ⟨fun _ hm => (nomatch h _ hm), fun hm => (nomatch h _ hm)⟩

/-! ## The ends of `lws_stream_handler` -/

theorem Flowing.error (h : Flowing bytes s) {rc : Int} (hrc : rc = ngxError ∨ rc > ngxOk ∨ s.request.headerOnly = true) :
    Phased (streamError rc s) := by
  unfold streamError
  by_cases hc : s.completed = true
  · have hw : s.pipeWrite = false := by rw [h.pipeWrite, hc]; rfl
    obtain ⟨hfin, hlast⟩ := unended h.trace
    rw [if_pos (by simp [hw])]
    exact .finalized ⟨rfl, rfl, rfl, h.handed, h.busy, hc, h.thread hc,
      ⟨rc, s.trace, rfl, hfin, fun hm => absurd hm hlast⟩⟩
  · have hc' : s.completed = false := by simpa using hc
    have hw : s.pipeWrite = true := by rw [h.pipeWrite, hc']; rfl
    rw [if_neg (by simp [hw])]
    exact .aborted ⟨rfl, rfl, rfl, hrc, h.handed, h.busy, hc', hw, h.trace⟩

theorem Flowing.fail (h : Flowing bytes s) : Phased (streamError ngxError s) := h.error (.inl rfl)

theorem Flowing.with (h : Flowing bytes s) (request : Request) (headers : Headers) (pc : LoopPc) :
    Flowing bytes { s with request := request, headers := headers, loop := pc } :=
  ⟨h.conn, h.rc, h.flow, h.busy, h.pipeWrite, h.thread, h.trace⟩

theorem Running.goto (h : Running bytes s) (pc : LoopPc) : Running bytes { s with loop := pc } :=
  ⟨h.toFlowing.with s.request s.headers pc, h.committed, h.fresh⟩

theorem Running.return (h : Running [] s) : Phased { s with loop := .idle } :=
  .running (h.goto .idle) (fun he => (nomatch he)) (.inl rfl) (fun he => (nomatch he))

theorem Running.blocked (h : Running [] s) (hsent : s.request.headerSent = true) (a : Pass) : Phased (streamBlocked a s) := by
  have hw : Running [] { s with request := { s.request with streamWrite := true } } :=
    ⟨h.toFlowing.with _ s.headers s.loop, h.committed, fun hf => absurd hsent (by simp [show s.request.headerSent = false from hf])⟩
  unfold streamBlocked
  split
  · exact h.fail
  · dsimp only
    split
    · exact hw.return
    · split
      · exact hw.fail
      · exact hw.return

theorem Running.free (h : Running bytes s) (n : Nat) : Running bytes { s with busy := s.busy.drop n } := by
  have hbusy : (s.busy.drop n).length ≤ 1 := by
    rw [List.length_drop]
    have := h.busy
    omega
  refine ⟨⟨h.conn, h.rc, h.flow, hbusy, h.pipeWrite, h.thread, h.trace⟩, h.committed, fun hf => ?_⟩
  obtain ⟨hwrite, hb⟩ := h.fresh hf
  exact ⟨hwrite, by rw [hb, List.drop_nil]⟩

theorem Running.note (h : Running bytes s) {a : StreamAct} (ha : a.ends = false) : Running bytes (s.note a) := by
  refine ⟨⟨h.conn, h.rc, h.flow, h.busy, h.pipeWrite, h.thread, fun b hb => ?_⟩, h.committed, h.fresh⟩
  rcases List.mem_cons.1 hb with rfl | hb
  · exact ha
  · exact h.trace b hb

theorem Running.sent (h : Running bytes s) (hblocked : s.request.streamWrite = true ∨ s.busy ≠ []) :
    s.request.headerSent = true := by
  by_contra hs
  obtain ⟨hwrite, hbusy⟩ := h.fresh (by simpa using hs)
  rcases hblocked with hb | hb
  · rw [hwrite] at hb
    cases hb
  · exact hb hbusy

/-! ## `lws_stream_handler` -/

theorem Running.handler (h : Running [] s) (a : Pass) : Phased (streamHandler a s) := by
  have hn := h.note (a := .handler) rfl
  unfold streamHandler
  dsimp only
  split
  · rename_i hwrite
    have hsent := hn.sent (.inl hwrite)
    split
    · exact hn.error (.inr (.inl (by decide)))
    · split
      · split
        · exact hn.fail
        · have hfree := hn.free a.freed
          split
          · have hw : Running [] { s.note .handler with
                busy := (s.note .handler).busy.drop a.freed
                request := { (s.note .handler).request with streamWrite := false } } :=
              ⟨hfree.toFlowing.with _ _ _, hfree.committed, fun hf => ⟨rfl, (hfree.fresh hf).2⟩⟩
            split
            · exact hw.fail
            · exact hw.return
          · exact hfree.blocked hsent a
      · exact hn.blocked hsent a
  · rename_i hwrite
    exact .running (hn.goto _) (fun he => (nomatch he)) (.inr (by simpa using hwrite)) (fun he => (nomatch he))

theorem Running.eof (h : Running [] s) (hpipe : s.pipe = []) (hw : s.pipeWrite = false) :
    s.completed = true ∧ s.handed = s.flushed := by
  have hc : s.completed = true := by simpa [h.pipeWrite] using hw
  have hflow := h.flow
  rw [hpipe, h.thread hc] at hflow
  exact ⟨hc, by simpa [LuaThread.rest] using hflow⟩

theorem Running.read (h : Running [] s) (hwrite : s.request.streamWrite = false) (a : Pass) (reads : Nat) :
    Phased (streamRead a reads s) := by
  unfold streamRead
  by_cases hbusy : s.busy = []
  · rw [if_neg (by simp [hbusy])]
    split
    · exact h.fail
    · split
      · exact h.fail
      · by_cases hpipe : s.pipe = []
        · rw [if_neg (by simp [hpipe])]
          by_cases hw : s.pipeWrite = true
          · rw [if_pos hw]
            split
            · exact h.fail
            · exact h.return
          · rw [if_neg hw]
            obtain ⟨hc, hall⟩ := h.eof hpipe (by simpa using hw)
            obtain ⟨hfin, -⟩ := unended h.trace
            have hend (rc : Int) (pre : List StreamAct) (hpre : ∀ rc', .finalize rc' ∉ pre) : Phased { s with
                conn := false, loop := .idle, trace := .finalize rc :: pre } :=
              .finalized ⟨rfl, rfl, hwrite, h.handed, h.busy, hc, h.thread hc, rc, pre, rfl, hpre, fun _ => hall⟩
            dsimp only
            split
            · exact hend _ _ hfin
            · split
              · refine hend a.rc (.sendLast :: s.trace) fun rc' hm => ?_
                rcases List.mem_cons.1 hm with he | hm
                · cases he
                · exact hfin rc' hm
              · exact hend _ _ hfin
        · rw [if_pos (by simp [hpipe])]
          refine .running ⟨⟨h.conn, h.rc, ?_, h.busy, h.pipeWrite, h.thread, h.trace⟩, h.committed, h.fresh⟩ (fun _ => hbusy)
            (.inr hwrite) (fun he => (nomatch he))
          rw [← h.flow]
          simp only [LoopPc.bytes, List.append_nil, List.append_assoc]
          rw [← List.append_assoc (List.take _ _), List.take_append_drop]
  · rw [if_pos (by simp [hbusy])]
    exact h.blocked (h.sent (.inr hbusy)) a

theorem Running.header (h : Running bytes s) (hbusy : s.busy = []) (hwrite : s.request.streamWrite = false) (a : Pass)
    (reads : Nat) : Phased (streamHeader a reads bytes s) := by
  unfold streamHeader
  by_cases hsent : s.request.headerSent = true
  · rw [if_neg (by simp [hsent])]
    exact .running (h.goto _) (fun _ => hbusy) (.inr hwrite) (fun _ => hsent)
  · rw [if_pos (by simp [hsent])]
    have honly : Running bytes { s with request := { s.request with headerOnly := true } } :=
      ⟨h.toFlowing.with _ s.headers s.loop, fun hs => absurd hs hsent, h.fresh⟩
    dsimp only
    generalize ht : (if (s.request.main && _) = true then _ else s : Stream) = t
    have hsame : Running bytes t ∧ t.busy = [] ∧ t.request.streamWrite = false ∧ ¬ t.request.headerSent = true := by
      rw [← ht]
      split
      · exact ⟨honly, hbusy, hwrite, hsent⟩
      · exact ⟨h, hbusy, hwrite, hsent⟩
    obtain ⟨h, hbusy, hwrite, hsent⟩ := hsame
    split
    · exact h.error (.inr (.inl (by decide)))
    · exact .running ⟨h.toFlowing.with _ t.headers _, fun hs => absurd hs hsent, h.fresh⟩ (fun _ => hbusy) (.inr hwrite)
        (fun he => (nomatch he))

theorem Running.sendHeader (h : Running bytes s) (hbusy : s.busy = []) (hwrite : s.request.streamWrite = false) (rc : Int)
    (only sent : Bool) (reads : Nat) : Phased (streamSendHeader rc only sent reads bytes s) := by
  have hn := h.note (a := .sendHeader s.ctx.status s.request.headers) rfl
  unfold streamSendHeader
  dsimp only
  split
  · rename_i hbad
    refine (hn.toFlowing.with _ _ _).error ?_
    rcases hbad with (hbad | hbad) | hbad
    · exact .inl hbad
    · exact .inr (.inl hbad)
    · exact .inr (.inr hbad)
  · rename_i hok
    have hgood : ¬ (rc = ngxError ∨ rc > ngxOk) := fun hf => hok (.inl hf)
    refine .running ⟨hn.toFlowing.with _ _ _, fun _ => Bool.eq_false_iff.2 fun ho => hok (.inr ho), fun _ => ⟨hwrite, hbusy⟩⟩
      (fun _ => hbusy) (.inr hwrite) fun _ => ?_
    dsimp only
    rw [if_neg hgood]

theorem Running.send (h : Running bytes s) (hbusy : s.busy = []) (hwrite : s.request.streamWrite = false)
    (hsent : s.request.headerSent = true) (a : Pass) (reads : Nat) : Phased (streamSend a reads bytes s) := by
  have hn := h.note (a := .outputFilter bytes) rfl
  have hh : Running [] { s.note (.outputFilter bytes) with handed := s.handed ++ bytes } :=
    ⟨⟨hn.conn, hn.rc, by rw [← hn.flow]; simp [Stream.note], hn.busy, hn.pipeWrite, hn.thread, hn.trace⟩, hn.committed, hn.fresh⟩
  have hb : Running [] { s.note (.outputFilter bytes) with
      handed := s.handed ++ bytes, busy := (s.busy ++ [bytes]).drop a.freed } :=
    ⟨⟨hh.conn, hh.rc, hh.flow, by simp [hbusy], hh.pipeWrite, hh.thread, hh.trace⟩, hh.committed,
      fun hf => absurd hsent (by simp [show s.request.headerSent = false from hf])⟩
  unfold streamSend
  dsimp only
  split
  · exact hh.fail
  · split
    · exact hb.blocked hsent a
    · split
      · split
        · exact hb.fail
        · split
          · exact hb.fail
          · exact hb.return
      · exact .running (hb.goto _) (fun he => (nomatch he)) (.inr hwrite) (fun he => (nomatch he))

end

end Lws

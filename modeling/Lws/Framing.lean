import Mathlib
import Lws.Stream
/-!
# Framing — the buffered response (`lws_finalization_handler`)

What the finalization handler hands to nginx for a request that did not stream: the header, with its length, and the body.
-/
namespace Lws

variable {w : Nat}

def ngxHttpHead : Nat := 4

/-- The fields of `ngx_http_request_t` that the framing goes by; `main` says whether `r == r->main`. -/
structure PageRequest (w : Nat) where
  main : Bool
  method : Nat
  headerOnly : Bool := false
  status : BitVec w := 0
  contentLengthN : Int := -1
  disableNotModified : Bool := false
deriving DecidableEq

structure PageBuf where
  bytes : List UInt8
  lastBuf : Bool
  lastInChain : Bool
deriving DecidableEq

/-- nginx: `header_only` after `ngx_http_send_header`, and what `ngx_http_output_filter` returns for a buffer. -/
structure Nginx (w : Nat) where
  sendHeader : PageRequest w → Bool
  outputFilter : PageBuf → Int

/-- The outcomes of the calls of `lws_finalization_handler`: of `lws_set_response_header`, `fflush`, `ngx_http_send_header` and
`ngx_calloc_buf`. -/
structure PageCalls where
  headers : Bool := true
  flush : Bool := true
  rc : Int := ngxOk
  alloc : Bool := true
deriving DecidableEq

/-- A finished request: the buffers handed to `ngx_http_output_filter`, and the result it is finalized with. -/
structure PageEnd (w : Nat) where
  request : PageRequest w
  output : List PageBuf
  rc : Int
deriving DecidableEq

/-- `r->method == NGX_HTTP_HEAD`, or a status without a body: 204 or 304. -/
def PageRequest.bodiless (r : PageRequest w) : Bool := r.method = ngxHttpHead || r.status = 204 || r.status = 304

/-- The length in the header, or none for a response of which only the header is sent. -/
def pageLength (body : List UInt8) (r : PageRequest w) : PageRequest w :=
  if body.length > 0 then
    if r.main && r.bodiless then { r with headerOnly := true } else { r with contentLengthN := body.length }
  else if r.main && (!r.bodiless && r.status ≥ 200) then { r with contentLengthN := 0, headerOnly := true }
  else r

/-- `lws_finalization_handler`, from the status on. -/
def sendPage (n : Nginx w) (a : PageCalls) (status : Int) (body : List UInt8) (r : PageRequest w) : PageEnd w :=
  let r := { r with status := BitVec.ofInt w status, disableNotModified := true }
  if !a.flush then ⟨r, [], 500⟩
  else
    let r := pageLength body r
    let r := { r with headerOnly := n.sendHeader r }
    if a.rc = ngxError ∨ a.rc > ngxOk ∨ r.headerOnly = true then ⟨r, [], a.rc⟩
    else if !a.alloc then ⟨r, [], a.rc⟩
    else
      let b := ⟨body, r.main, true⟩
      ⟨r, [b], n.outputFilter b⟩

/-- `lws_finalization_handler` for a request that does not stream, where it answers with a page or only finalizes. -/
def finalizePage (n : Nginx w) (a : PageCalls) (ctx : RequestCtx) (body : List UInt8) (r : PageRequest w) :
    Option (PageEnd w) :=
  match respond a.headers ctx with
  | .page status => some (sendPage n a status body r)
  | .finalize rc => some ⟨r, [], rc⟩
  | _ => none

/-- What `ngx_http_send_header` makes of `header_only`. -/
def Nginx.SetsHeaderOnly (n : Nginx w) : Prop := ∀ r, n.sendHeader r = (r.headerOnly || (r.main && r.bodiless))

/-- A framed response: only its header, or its body in one buffer, which is not empty, of the length in the header. -/
def PageEnd.Framed (x : PageEnd w) (body : List UInt8) : Prop :=
  (x.request.headerOnly = true ∧ x.output = []) ∨
    ∃ b, x.output = [b] ∧ b.bytes ≠ [] ∧ b.bytes = body ∧ x.request.contentLengthN = body.length

/-! ## The header -/

section
variable (body : List UInt8) (r : PageRequest w)

/-- A response without a body: by its method or status, or because Lua wrote none and nginx would send it in chunks. -/
def PageRequest.pageless (r : PageRequest w) (body : List UInt8) : Prop :=
  r.main = true ∧ (r.bodiless = true ∨ (body = [] ∧ r.status ≥ 200))

theorem pageLength_cons (c : UInt8) : pageLength (c :: body) r = if r.main && r.bodiless then { r with headerOnly := true }
    else { r with contentLengthN := (c :: body).length } := by
  unfold pageLength
  rw [if_pos (by rw [List.length_cons]; exact Nat.succ_pos _)]

theorem pageLength_nil : pageLength [] r = if r.main && (!r.bodiless && r.status ≥ 200) then
    { r with contentLengthN := 0, headerOnly := true } else r := by
  unfold pageLength
  rw [if_neg (by rw [List.length_nil]; exact Nat.not_lt_zero _)]

@[simp] theorem pageLength_main : (pageLength body r).main = r.main := by
  cases body with
  | nil => rw [pageLength_nil]; split <;> rfl
  | cons c body => rw [pageLength_cons]; split <;> rfl

@[simp] theorem pageLength_bodiless : (pageLength body r).bodiless = r.bodiless := by
  cases body with
  | nil => rw [pageLength_nil]; split <;> rfl
  | cons c body => rw [pageLength_cons]; split <;> rfl

theorem sendHeader_headerOnly {n : Nginx w} (h : n.SetsHeaderOnly) :
    n.sendHeader (pageLength body r) = true ↔ r.headerOnly = true ∨ r.pageless body := by
  rw [h, pageLength_main, pageLength_bodiless, PageRequest.pageless]
  cases body with
  | nil =>
    rw [pageLength_nil]
    split
    · rename_i hc
      simp only [Bool.and_eq_true, decide_eq_true_eq] at hc
      simp only [Bool.true_or, hc.1, hc.2.2, and_self, or_true]
    · rename_i hc
      simp only [Bool.and_eq_true, decide_eq_true_eq, not_and, Bool.not_eq_true'] at hc
      simp only [Bool.or_eq_true, Bool.and_eq_true, true_and]
      cases hb : r.bodiless with
      | true => simp only [and_true, true_or]
      | false =>
        simp only [Bool.false_eq_true, and_false, or_false, false_or]
        refine ⟨.inl, ?_⟩
        rintro (ho | ⟨hm, hs⟩)
        · exact ho
        · exact absurd hs (hc hm hb)
  | cons c body =>
    simp only [reduceCtorEq, false_and, or_false, pageLength_cons]
    split
    · rename_i hc
      simp only [Bool.and_eq_true] at hc
      simp only [Bool.true_or, hc, and_self, or_true]
    · simp only [Bool.or_eq_true, Bool.and_eq_true]

theorem pageLength_contentLengthN {body : List UInt8} (hbody : body ≠ []) (h : ¬r.pageless body) :
    (pageLength body r).contentLengthN = body.length := by
  cases body with
  | nil => exact absurd rfl hbody
  | cons c body =>
    rw [pageLength_cons, if_neg]
    simp only [Bool.and_eq_true]
    exact fun hc => h ⟨hc.1, .inl hc.2⟩

end

/-! ## The response -/

section
variable {n : Nginx w} {a : PageCalls} {status : Int} {body : List UInt8} {r : PageRequest w}

theorem framed_nil (r : PageRequest w) (rc : Int) : PageEnd.Framed ⟨r, [], rc⟩ body ↔ r.headerOnly = true := by
  constructor
  · rintro (⟨ho, -⟩ | ⟨b, hb, -⟩)
    · exact ho
    · cases hb
  · intro ho
    exact .inl ⟨ho, rfl⟩

/-- **A page is framed exactly where** only its header is sent, or where its body is not empty and reaches nginx. -/
theorem sendPage_framed (h : n.SetsHeaderOnly) (hflush : a.flush = true) : (sendPage n a status body r).Framed body ↔
    (r.headerOnly = true ∨ PageRequest.pageless { r with status := BitVec.ofInt w status } body) ∨
      (body ≠ [] ∧ a.rc ≠ ngxError ∧ a.rc ≤ ngxOk ∧ a.alloc = true) := by
  have honly := sendHeader_headerOnly body { r with status := BitVec.ofInt w status, disableNotModified := true } h
  have hlen := @pageLength_contentLengthN w { r with status := BitVec.ofInt w status, disableNotModified := true } body
  unfold sendPage
  rw [hflush, Bool.not_true, if_neg Bool.false_ne_true]
  dsimp only
  by_cases ho : r.headerOnly = true ∨ PageRequest.pageless { r with status := BitVec.ofInt w status } body
  · rw [if_pos (.inr (.inr (honly.2 ho))), framed_nil]
    exact ⟨fun _ => .inl ho, fun _ => honly.2 ho⟩
  · have hno : ¬n.sendHeader (pageLength body { r with status := BitVec.ofInt w status, disableNotModified := true }) = true :=
      fun hs => ho (honly.1 hs)
    by_cases hfail : a.rc = ngxError ∨ a.rc > ngxOk
    · rw [if_pos (or_assoc.1 (.inl hfail)), framed_nil]
      refine ⟨fun hs => absurd hs hno, ?_⟩
      rintro (hs | ⟨-, herr, hok, -⟩)
      · exact absurd hs ho
      · exact (hfail.elim herr (not_lt.2 hok)).elim
    · rw [if_neg (fun hs => (or_assoc.2 hs).elim hfail hno)]
      cases ha : a.alloc with
      | false =>
        rw [Bool.not_false, if_pos rfl, framed_nil]
        refine ⟨fun hs => absurd hs hno, ?_⟩
        rintro (hs | ⟨-, -, -, halloc⟩)
        · exact absurd hs ho
        · cases halloc
      | true =>
        rw [Bool.not_true, if_neg Bool.false_ne_true]
        constructor
        · rintro (⟨hs, -⟩ | ⟨b, -, hne, hbytes, -⟩)
          · exact absurd hs hno
          · exact .inr ⟨hbytes ▸ hne, fun he => hfail (.inl he), not_lt.1 fun hgt => hfail (.inr hgt), rfl⟩
        · rintro (hs | ⟨hne, -⟩)
          · exact absurd hs ho
          · exact .inr ⟨_, rfl, hne, rfl, hlen hne fun hp => ho (.inr hp)⟩

theorem respond_zero (headers : Bool) {ctx : RequestCtx} (hrc : ctx.rc = 0) (hredirect : ctx.redirect.len = 0) :
    respond headers ctx = if headers then .page ctx.status else .finalize 500 := by
  unfold respond
  rw [hrc, hredirect, if_neg (by decide), if_neg (by decide)]
  cases headers with
  | false => rfl
  | true => rfl

theorem finalizePage_redirect (n : Nginx w) (a : PageCalls) {ctx : RequestCtx} (body : List UInt8) (r : PageRequest w)
    (hrc : ctx.rc = 0) (hredirect : ctx.redirect.len ≠ 0) : finalizePage n a ctx body r = none := by
  unfold finalizePage respond
  rw [hrc, if_neg (by decide), if_pos hredirect]
  cases hdata : ctx.redirect.data with
  | none => rfl
  | some data =>
    cases data with
    | nil => rfl
    | cons c name =>
      dsimp only
      by_cases hc : c ≠ 0x40
      · rw [if_pos hc]
      · rw [if_neg hc]

theorem finalizePage_framed (h : n.SetsHeaderOnly) {ctx : RequestCtx} (hrc : ctx.rc = 0) (hredirect : ctx.redirect.len = 0) :
    (∃ x, finalizePage n a ctx body r = some x ∧ x.Framed body) ↔ r.headerOnly = true ∨ (a.headers = true ∧ a.flush = true ∧
      (PageRequest.pageless { r with status := BitVec.ofInt w ctx.status } body ∨
        (body ≠ [] ∧ a.rc ≠ ngxError ∧ a.rc ≤ ngxOk ∧ a.alloc = true))) := by
  unfold finalizePage
  rw [respond_zero a.headers hrc hredirect]
  cases a.headers with
  | false =>
    simp only [Bool.false_eq_true, if_false, false_and, or_false, Option.some.injEq, exists_eq_left', framed_nil]
  | true =>
    simp only [if_true, true_and, Option.some.injEq, exists_eq_left']
    cases hflush : a.flush with
    | false => simp only [sendPage, hflush, Bool.not_false, if_true, framed_nil, Bool.false_eq_true, false_and, or_false]
    | true =>
      rw [sendPage_framed h hflush]
      simp only [true_and, or_assoc]

/-- **When a buffered response is framed**: the request is not redirected, and its body is not empty and nginx takes it, or only
its header is sent, because `header_only` was set at the start, because of the method or the status, or because a main request
of a status from 200 on has no body. -/
theorem buffered_response_is_framed_iff (h : n.SetsHeaderOnly) (ctx : RequestCtx) (hrc : ctx.rc = 0) :
    (∃ x, finalizePage n a ctx body r = some x ∧ x.Framed body) ↔
    ctx.redirect.len = 0 ∧ (r.headerOnly = true ∨ (a.headers = true ∧ a.flush = true ∧
      (PageRequest.pageless { r with status := BitVec.ofInt w ctx.status } body ∨
        (body ≠ [] ∧ a.rc ≠ ngxError ∧ a.rc ≤ ngxOk ∧ a.alloc = true)))) := by
  by_cases hredirect : ctx.redirect.len = 0
  · rw [finalizePage_framed h hrc hredirect]
    exact (and_iff_right hredirect).symm
  · rw [finalizePage_redirect n a body r hrc hredirect]
    constructor
    · rintro ⟨x, hx, -⟩
      cases hx
    · intro hframed
      exact absurd hframed.1 hredirect

end

def Nginx.writer : Nginx w := ⟨fun r => r.headerOnly || (r.main && r.bodiless), fun b => if b.bytes = [] then ngxError else ngxOk⟩

theorem Nginx.writer_setsHeaderOnly : (Nginx.writer : Nginx w).SetsHeaderOnly := fun _ => rfl

theorem buffered_response_is_framed_iff_body :
    ∃ x, finalizePage (Nginx.writer : Nginx 64) {} {} [104, 105] { main := true, method := 2 } = some x ∧ x.Framed [104, 105] :=
  (buffered_response_is_framed_iff Nginx.writer_setsHeaderOnly {} rfl).2
    ⟨rfl, .inr ⟨rfl, rfl, .inr ⟨by decide, by decide, by decide, rfl⟩⟩⟩

/-- A subrequest without a body: a buffer of no bytes is handed over, and the writer rejects it. -/
theorem empty_subrequest_is_unframed : ∃ x : PageEnd 64,
    finalizePage Nginx.writer {} {} [] { main := false, method := 2 } = some x ∧ ¬x.Framed [] ∧
      x.request.headerOnly = false ∧ x.output = [⟨[], false, true⟩] ∧ x.rc = ngxError := by
  refine ⟨_, rfl, ?_, by decide, by decide, by decide⟩
  rintro (⟨ho, -⟩ | ⟨b, -, hne, hbytes, -⟩)
  · exact absurd ho (by decide)
  · exact hne hbytes

end Lws

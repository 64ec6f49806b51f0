import Mathlib.Data.List.Basic
/-!
# RequestBody — the request body as Lua reads it (`lws_module.c`)

`lws_body_handler` opens the buffers of the request as a stream, and `lws_read_handler` reads them by moving their own `pos`.
-/
namespace Lws

/-- `ngx_buf_t` in memory: what is between `pos` and `last` is unread. -/
structure NgxBuf where
  start : List UInt8
  pos : Nat := 0
  last : Nat
  pos_le : pos ≤ last
  last_le : last ≤ start.length
deriving DecidableEq

/-- The bytes from `pos` to `last`. -/
def NgxBuf.content (b : NgxBuf) : List UInt8 := (b.start.take b.last).drop b.pos

/-- The `lws_request_ctx_t` of a body in memory: `r->request_body->bufs`, and the link that `cl` points to. -/
structure BodyReader where
  bufs : List NgxBuf
  cl : Nat
deriving DecidableEq

/-- `lws_body_handler`, the stream over `r->request_body->bufs`. -/
def lwsBodyHandler (bufs : List NgxBuf) : BodyReader := ⟨bufs, 0⟩

def lwsReadHandler (x : BodyReader) (size : Nat) : List UInt8 × BodyReader :=
  match x.bufs[x.cl]? with
  | none => ([], x)
  | some b =>
    let count := min (b.last - b.pos) size
    let b' := { b with pos := b.pos + count, pos_le := by have := b.pos_le; omega }
    (b.content.take count, ⟨x.bufs.set x.cl b', if b'.pos = b'.last then x.cl + 1 else x.cl⟩)

/-- The reads of `sizes`, one after the other, and the bytes they give. -/
def readBody (x : BodyReader) : List Nat → List UInt8 × BodyReader
  | [] => ([], x)
  | size :: sizes =>
    let (bytes, x) := lwsReadHandler x size
    let (more, x) := readBody x sizes
    (bytes ++ more, x)

def requestBody (bufs : List NgxBuf) : List UInt8 := (bufs.map NgxBuf.content).flatten

/-! ## One read -/

theorem NgxBuf.content_length (b : NgxBuf) : b.content.length = b.last - b.pos := by
  rw [NgxBuf.content, List.length_drop, List.length_take, Nat.min_eq_left b.last_le]

theorem NgxBuf.content_eq_nil (b : NgxBuf) : b.content = [] ↔ b.pos = b.last := by
  have h := b.pos_le
  rw [← List.length_eq_zero_iff, b.content_length]
  omega

/-- A buffer after `count` bytes of it are read. -/
def NgxBuf.advance (b : NgxBuf) (count : Nat) (h : count ≤ b.last - b.pos) : NgxBuf :=
  { b with pos := b.pos + count, pos_le := by have := b.pos_le; omega }

theorem NgxBuf.advance_content (b : NgxBuf) {count : Nat} (h : count ≤ b.last - b.pos) :
    (b.advance count h).content = b.content.drop count := by
  rw [NgxBuf.content, NgxBuf.content, List.drop_drop]
  rfl

theorem NgxBuf.advance_zero (b : NgxBuf) (h : 0 ≤ b.last - b.pos) : b.advance 0 h = b := rfl

section
variable {x : BodyReader} {b : NgxBuf}

theorem lwsReadHandler_done (size : Nat) (h : x.bufs[x.cl]? = none) : lwsReadHandler x size = ([], x) := by
  unfold lwsReadHandler
  rw [h]

theorem lwsReadHandler_some (size : Nat) (h : x.bufs[x.cl]? = some b) :
    ∃ (count : Nat) (hle : count ≤ b.last - b.pos), count = min (b.last - b.pos) size ∧ lwsReadHandler x size =
      (b.content.take count,
        ⟨x.bufs.set x.cl (b.advance count hle), if b.pos + count = b.last then x.cl + 1 else x.cl⟩) := by
  refine ⟨_, Nat.min_le_left _ size, rfl, ?_⟩
  unfold lwsReadHandler
  rw [h]
  rfl

theorem lwsReadHandler_nil (size : Nat) (h : x.bufs[x.cl]? = some b) (hcount : min (b.last - b.pos) size = 0) :
    lwsReadHandler x size = ([], ⟨x.bufs, if b.content = [] then x.cl + 1 else x.cl⟩) := by
  obtain ⟨count, hle, heq, hread⟩ := lwsReadHandler_some size h
  obtain rfl : count = 0 := heq.trans hcount
  rw [hread, b.advance_zero, Nat.add_zero, List.take_zero, ← (List.getElem?_eq_some_iff.1 h).2, List.set_getElem_self]
  simp only [NgxBuf.content_eq_nil]

end

theorem requestBody_append (l₁ l₂ : List NgxBuf) : requestBody (l₁ ++ l₂) = requestBody l₁ ++ requestBody l₂ := by
  rw [requestBody, List.map_append, List.flatten_append, requestBody, requestBody]

theorem requestBody_cons (b : NgxBuf) (l : List NgxBuf) : requestBody (b :: l) = b.content ++ requestBody l := rfl

def BodyReader.Behind (x : BodyReader) : Prop := requestBody (x.bufs.take x.cl) = []

/-- **A read gives the next bytes** of the body, and leaves the others. -/
theorem lwsReadHandler_append {x : BodyReader} (size : Nat) (h : x.Behind) :
    (lwsReadHandler x size).1 ++ requestBody (lwsReadHandler x size).2.bufs = requestBody x.bufs ∧
      (lwsReadHandler x size).2.Behind := by
  cases hb : x.bufs[x.cl]? with
  | none =>
    rw [lwsReadHandler_done size hb]
    exact ⟨rfl, h⟩
  | some b =>
    obtain ⟨hi, hget⟩ := List.getElem?_eq_some_iff.1 hb
    obtain ⟨count, hle, -, hread⟩ := lwsReadHandler_some size hb
    have hlen : (x.bufs.take x.cl).length = x.cl := List.length_take_of_le (Nat.le_of_lt hi)
    have hsplit : x.bufs = x.bufs.take x.cl ++ b :: x.bufs.drop (x.cl + 1) := by
      rw [← hget, ← List.drop_eq_getElem_cons hi, List.take_append_drop]
    have hset : x.bufs.set x.cl (b.advance count hle) =
        x.bufs.take x.cl ++ b.advance count hle :: x.bufs.drop (x.cl + 1) := by
      rw [List.set_eq_take_append_cons_drop, if_pos hi]
    rw [hread]
    refine ⟨?_, ?_⟩
    · conv_rhs => rw [hsplit]
      dsimp only
      rw [hset, requestBody_append, requestBody_append, requestBody_cons, requestBody_cons, b.advance_content hle, h,
        List.nil_append, List.nil_append, ← List.append_assoc, List.take_append_drop]
    · unfold BodyReader.Behind
      dsimp only
      rw [hset]
      split
      · rename_i hlast
        rw [List.take_append, hlen, Nat.add_sub_cancel_left, List.take_succ_cons, List.take_zero, requestBody_append,
          List.take_of_length_le (by omega), h, requestBody_cons, (b.advance count hle).content_eq_nil.2 hlast]
        rfl
      · rw [List.take_append_of_le_length (Nat.le_of_eq hlen.symm), List.take_of_length_le (Nat.le_of_eq hlen)]
        exact h

/-! ## Reads -/

/-- **Reads give the body in order**: their bytes are followed by what the buffers still hold. -/
theorem readBody_append {x : BodyReader} (h : x.Behind) (sizes : List Nat) :
    (readBody x sizes).1 ++ requestBody (readBody x sizes).2.bufs = requestBody x.bufs := by
  induction sizes generalizing x with
  | nil => rfl
  | cons size sizes ih =>
    obtain ⟨hread, hbehind⟩ := lwsReadHandler_append size h
    rw [readBody, List.append_assoc, ih hbehind, hread]

def leadingEmpty (bufs : List NgxBuf) : Nat := (bufs.takeWhile fun b => b.content = []).length

theorem leadingEmpty_cons_nil {b : NgxBuf} (bufs : List NgxBuf) (h : b.content = []) :
    leadingEmpty (b :: bufs) = leadingEmpty bufs + 1 := by
  rw [leadingEmpty, List.takeWhile_cons, if_pos (decide_eq_true h), List.length_cons, leadingEmpty]

theorem leadingEmpty_cons {b : NgxBuf} (bufs : List NgxBuf) (h : b.content ≠ []) : leadingEmpty (b :: bufs) = 0 := by
  rw [leadingEmpty, List.takeWhile_cons, if_neg (by rw [decide_eq_true_eq]; exact h), List.length_nil]

theorem lwsReadHandler_eq_nil {x : BodyReader} {b : NgxBuf} (size : Nat) (h : x.bufs[x.cl]? = some b) :
    (lwsReadHandler x size).1 = [] ↔ b.content = [] ∨ size = 0 := by
  obtain ⟨count, hle, hcount, hread⟩ := lwsReadHandler_some size h
  have hlen := b.content_length
  rw [hread, List.take_eq_nil_iff, hcount, Nat.min_eq_zero_iff, ← hlen, List.length_eq_zero_iff]
  tauto

theorem lwsReadHandler_bufs {x : BodyReader} (size : Nat) (h : (lwsReadHandler x size).1 = []) :
    (lwsReadHandler x size).2.bufs = x.bufs := by
  cases hb : x.bufs[x.cl]? with
  | none => rw [lwsReadHandler_done size hb]
  | some b =>
    have hlen := b.content_length
    rw [lwsReadHandler_eq_nil size hb, ← List.length_eq_zero_iff] at h
    rw [lwsReadHandler_nil size hb (by omega)]

theorem readBody_bufs {x : BodyReader} {sizes : List Nat} (h : (readBody x sizes).1 = []) :
    (readBody x sizes).2.bufs = x.bufs := by
  induction sizes generalizing x with
  | nil => rfl
  | cons size sizes ih =>
    obtain ⟨hread, hmore⟩ := List.append_eq_nil_iff.1 h
    exact (ih hmore).trans (lwsReadHandler_bufs size hread)

theorem readBody_eq_nil (x : BodyReader) (sizes : List Nat) : (readBody x sizes).1 = [] ↔
    (∀ b ∈ x.bufs.drop x.cl, b.content = []) ∨ ∀ size ∈ sizes.drop (leadingEmpty (x.bufs.drop x.cl)), size = 0 := by
  induction sizes generalizing x with
  | nil => simp only [readBody, List.drop_nil, List.not_mem_nil, false_imp_iff, implies_true, or_true]
  | cons size sizes ih =>
    rw [readBody, List.append_eq_nil_iff, ih]
    cases hb : x.bufs[x.cl]? with
    | none =>
      have hdrop : x.bufs.drop x.cl = [] := List.drop_eq_nil_iff.2 (List.getElem?_eq_none_iff.1 hb)
      rw [lwsReadHandler_done size hb, hdrop]
      simp only [List.not_mem_nil, false_imp_iff, implies_true, true_or, and_self]
    | some b =>
      obtain ⟨hi, hget⟩ := List.getElem?_eq_some_iff.1 hb
      have hdrop : x.bufs.drop x.cl = b :: x.bufs.drop (x.cl + 1) := by rw [← hget, ← List.drop_eq_getElem_cons hi]
      have hlen := b.content_length
      by_cases hc : b.content = []
      · have hzero : min (b.last - b.pos) size = 0 := by rw [← hlen, hc, List.length_nil, Nat.zero_min]
        rw [lwsReadHandler_nil size hb hzero, if_pos hc, hdrop, leadingEmpty_cons_nil _ hc, List.drop_succ_cons]
        simp only [List.mem_cons, forall_eq_or_imp, hc, true_and]
      · rw [lwsReadHandler_eq_nil size hb, hdrop, leadingEmpty_cons _ hc]
        simp only [List.mem_cons, forall_eq_or_imp, hc, false_and, false_or, List.drop_zero]
        constructor
        · rintro ⟨rfl, hmore⟩
          rw [lwsReadHandler_nil 0 hb (Nat.min_zero _), if_neg hc, hdrop, leadingEmpty_cons _ hc] at hmore
          refine ⟨rfl, hmore.resolve_left fun hall => hc (hall b List.mem_cons_self)⟩
        · rintro ⟨rfl, hmore⟩
          rw [lwsReadHandler_nil 0 hb (Nat.min_zero _), if_neg hc, hdrop, leadingEmpty_cons _ hc]
          exact ⟨rfl, .inr hmore⟩

/-- **Reads keep the body for a redirect exactly where they take nothing**: the buffers hold what they held, and a handler
that opens them again reads the same, just when all buffers are empty or no read of a positive size reaches the first buffer
that is not. -/
theorem reads_keep_request_body_iff (bufs : List NgxBuf) (sizes : List Nat) :
    ((readBody (lwsBodyHandler bufs) sizes).2.bufs.map NgxBuf.content = bufs.map NgxBuf.content ∧
      ∀ later, (readBody (lwsBodyHandler (readBody (lwsBodyHandler bufs) sizes).2.bufs) later).1 =
        (readBody (lwsBodyHandler bufs) later).1) ↔
    (∀ b ∈ bufs, b.content = []) ∨ ∀ size ∈ sizes.drop (leadingEmpty bufs), size = 0 := by
  have hnil : (readBody (lwsBodyHandler bufs) sizes).1 = [] ↔ (∀ b ∈ bufs, b.content = []) ∨
    ∀ size ∈ sizes.drop (leadingEmpty bufs), size = 0 := readBody_eq_nil (lwsBodyHandler bufs) sizes
  have happend := readBody_append (x := lwsBodyHandler bufs) rfl sizes
  rw [← hnil]
  constructor
  · rintro ⟨hcontent, -⟩
    rw [requestBody, hcontent] at happend
    exact List.append_left_eq_self.1 happend
  · intro h
    rw [readBody_bufs h]
    exact ⟨rfl, fun later => rfl⟩

/-- One byte, read before the redirect: the next handler reads nothing. -/
theorem read_takes_request_body :
    let bufs : List NgxBuf := [⟨[97], 0, 1, by decide, by decide⟩]
    let after := (readBody (lwsBodyHandler bufs) [1]).2.bufs
    after.map NgxBuf.content ≠ bufs.map NgxBuf.content ∧ (readBody (lwsBodyHandler after) [1]).1 = [] ∧
      (readBody (lwsBodyHandler bufs) [1]).1 = [97] := by
  decide

/-! ## Reading to the end -/

def nextRead (x : BodyReader) (sizes : Nat → Nat) (n : Nat) : List UInt8 :=
  (lwsReadHandler (readBody x ((List.range n).map sizes)).2 (sizes n)).1

def fullBuffers (bufs : List NgxBuf) : List NgxBuf := bufs.takeWhile fun b => b.content ≠ []

theorem readBody_succ (x : BodyReader) (sizes : Nat → Nat) (n : Nat) :
    readBody x ((List.range (n + 1)).map sizes) =
      let read := lwsReadHandler x (sizes 0)
      let more := readBody read.2 ((List.range n).map fun k => sizes (k + 1))
      (read.1 ++ more.1, more.2) := by
  rw [List.range_succ_eq_map, List.map_cons, List.map_map]
  rfl

theorem nextRead_succ (x : BodyReader) (sizes : Nat → Nat) (n : Nat) :
    nextRead x sizes (n + 1) = nextRead (lwsReadHandler x (sizes 0)).2 (fun k => sizes (k + 1)) n := by
  rw [nextRead, readBody_succ]
  rfl

theorem lwsReadHandler_length (x : BodyReader) (size : Nat) : (lwsReadHandler x size).1.length ≤ size := by
  cases hb : x.bufs[x.cl]? with
  | none =>
    rw [lwsReadHandler_done size hb]
    exact Nat.zero_le _
  | some b =>
    obtain ⟨count, hle, hcount, hread⟩ := lwsReadHandler_some size hb
    rw [hread, List.length_take, hcount]
    omega

theorem fullBuffers_nil {b : NgxBuf} (bufs : List NgxBuf) (h : b.content = []) : fullBuffers (b :: bufs) = [] := by
  rw [fullBuffers, List.takeWhile_cons_of_neg]
  simpa using h

theorem fullBuffers_cons {b : NgxBuf} (bufs : List NgxBuf) (h : b.content ≠ []) : fullBuffers (b :: bufs) = b :: fullBuffers bufs := by
  rw [fullBuffers, List.takeWhile_cons_of_pos (by simpa using h), fullBuffers]

/-- What is ahead of the cursor, up to the first empty buffer. -/
def BodyReader.ahead (x : BodyReader) : List UInt8 := requestBody (fullBuffers (x.bufs.drop x.cl))

theorem ahead_eq_nil {x : BodyReader} {size : Nat} (hsize : 0 < size) : (lwsReadHandler x size).1 = [] ↔ x.ahead = [] := by
  cases hb : x.bufs[x.cl]? with
  | none =>
    rw [lwsReadHandler_done size hb, BodyReader.ahead, List.drop_eq_nil_iff.2 (List.getElem?_eq_none_iff.1 hb)]
    exact iff_of_true rfl rfl
  | some b =>
    obtain ⟨hi, hget⟩ := List.getElem?_eq_some_iff.1 hb
    rw [lwsReadHandler_eq_nil size hb, or_iff_left (Nat.ne_of_gt hsize), BodyReader.ahead, List.drop_eq_getElem_cons hi, hget]
    by_cases hc : b.content = []
    · rw [fullBuffers_nil _ hc]
      exact iff_of_true hc rfl
    · rw [fullBuffers_cons _ hc, requestBody_cons, List.append_eq_nil_iff]
      exact iff_of_false hc fun h => hc h.1

theorem ahead_read {x : BodyReader} {size : Nat} (h : (lwsReadHandler x size).1 ≠ []) :
    x.ahead = (lwsReadHandler x size).1 ++ (lwsReadHandler x size).2.ahead := by
  cases hb : x.bufs[x.cl]? with
  | none => exact absurd (congrArg Prod.fst (lwsReadHandler_done size hb)) h
  | some b =>
    obtain ⟨hi, hget⟩ := List.getElem?_eq_some_iff.1 hb
    rw [ne_eq, lwsReadHandler_eq_nil size hb, not_or] at h
    obtain ⟨count, hle, -, hread⟩ := lwsReadHandler_some size hb
    have hlen := b.content_length
    rw [hread, BodyReader.ahead, List.drop_eq_getElem_cons hi, hget, fullBuffers_cons _ h.1, requestBody_cons, BodyReader.ahead]
    dsimp only
    by_cases hlast : b.pos + count = b.last
    · rw [if_pos hlast, List.take_of_length_le (by omega), List.drop_set_of_lt (Nat.lt_succ_self _)]
    · have hi' : x.cl < (x.bufs.set x.cl (b.advance count hle)).length := by rwa [List.length_set]
      have hrest : (b.advance count hle).content ≠ [] := by
        rw [ne_eq, NgxBuf.content_eq_nil]
        exact hlast
      rw [if_neg hlast, List.drop_eq_getElem_cons hi', List.getElem_set_self, fullBuffers_cons _ hrest, requestBody_cons,
        b.advance_content, ← List.append_assoc, List.take_append_drop, List.drop_set_of_lt (Nat.lt_succ_self _)]

/-- **Reading ends**, and gives what is before the first empty buffer. -/
theorem reading_ends : ∀ (fuel : Nat) (x : BodyReader) (sizes : Nat → Nat), (∀ k, 0 < sizes k) → x.ahead.length ≤ fuel →
    ∃ n, nextRead x sizes n = [] ∧ (∀ k < n, nextRead x sizes k ≠ []) ∧
      (readBody x ((List.range n).map sizes)).1 = x.ahead := by
  intro fuel
  induction fuel with
  | zero =>
    intro x sizes hsizes hfuel
    have hahead := List.length_eq_zero_iff.1 (Nat.le_zero.1 hfuel)
    exact ⟨0, (ahead_eq_nil (hsizes 0)).2 hahead, fun k hk => absurd hk (Nat.not_lt_zero k), hahead.symm⟩
  | succ fuel ih =>
    intro x sizes hsizes hfuel
    by_cases hread : (lwsReadHandler x (sizes 0)).1 = []
    · exact ⟨0, hread, fun k hk => absurd hk (Nat.not_lt_zero k), ((ahead_eq_nil (hsizes 0)).1 hread).symm⟩
    · have hahead := ahead_read hread
      have hpositive := List.length_pos_iff.2 hread
      rw [hahead, List.length_append] at hfuel
      obtain ⟨n, hend, hbefore, hbytes⟩ := ih (lwsReadHandler x (sizes 0)).2 (fun k => sizes (k + 1)) (fun k => hsizes (k + 1)) (by omega)
      refine ⟨n + 1, (nextRead_succ x sizes n).trans hend, fun k hk => ?_, ?_⟩
      · cases k with
        | zero => exact hread
        | succ k =>
          rw [nextRead_succ]
          exact hbefore k (Nat.lt_of_succ_lt_succ hk)
      · rw [readBody_succ, hahead, ← hbytes]

/-- **The stream gives the whole body if and only if no empty buffer is before one that is not**: no read gives more than it is
asked for, and some read is the first one that gives nothing. -/
theorem stream_delivers_iff (bufs : List NgxBuf) {sizes : Nat → Nat} (hsizes : ∀ k, 0 < sizes k) :
    (∀ k, (nextRead (lwsBodyHandler bufs) sizes k).length ≤ sizes k) ∧
      ∃ n, nextRead (lwsBodyHandler bufs) sizes n = [] ∧ (∀ k < n, nextRead (lwsBodyHandler bufs) sizes k ≠ []) ∧
        ((readBody (lwsBodyHandler bufs) ((List.range n).map sizes)).1 = requestBody bufs ↔
          requestBody (bufs.dropWhile fun b => b.content ≠ []) = []) := by
  refine ⟨fun k => lwsReadHandler_length _ _, ?_⟩
  obtain ⟨n, hend, hbefore, hread⟩ := reading_ends _ (lwsBodyHandler bufs) sizes hsizes (Nat.le_refl _)
  refine ⟨n, hend, hbefore, ?_⟩
  have hbody : requestBody bufs =
      (lwsBodyHandler bufs).ahead ++ requestBody (bufs.dropWhile fun b => b.content ≠ []) := by
    rw [BodyReader.ahead, ← requestBody_append]
    exact congrArg requestBody List.takeWhile_append_dropWhile.symm
  rw [hread, hbody]
  exact List.self_eq_append_right

/-- An empty buffer before a byte: the first read gives nothing. -/
theorem stream_ends_early :
    let bufs : List NgxBuf := [⟨[], 0, 0, Nat.le_refl _, Nat.le_refl _⟩, ⟨[97], 0, 1, Nat.zero_le _, Nat.le_refl _⟩]
    nextRead (lwsBodyHandler bufs) (fun _ => 4096) 0 = [] ∧ requestBody bufs = [97] := by
  decide

/-- A byte, and then an empty buffer. -/
theorem stream_delivers_one :
    let bufs : List NgxBuf := [⟨[97], 0, 1, Nat.zero_le _, Nat.le_refl _⟩, ⟨[], 0, 0, Nat.le_refl _, Nat.le_refl _⟩]
    (∀ k, (nextRead (lwsBodyHandler bufs) (fun _ => 1) k).length ≤ 1) ∧
      ∃ n, nextRead (lwsBodyHandler bufs) (fun _ => 1) n = [] ∧ (∀ k < n, nextRead (lwsBodyHandler bufs) (fun _ => 1) k ≠ []) ∧
        ((readBody (lwsBodyHandler bufs) ((List.range n).map fun _ => 1)).1 = requestBody bufs ↔
          requestBody (bufs.dropWhile fun b => b.content ≠ []) = []) :=
  stream_delivers_iff _ fun _ => Nat.one_pos

end Lws

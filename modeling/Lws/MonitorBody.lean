import Lws.MonitorPost
/-!
# MonitorBody — the block that a POST to the monitor is parsed in (`lws_monitor_body_handler`)

The length of the block is the sum of `ngx_buf_size`, which for a buffer in a file is its length in the file; what is copied
is from `pos` to `last`, which such a buffer has nothing of.
-/
namespace Lws

def BodyBuf.bytes : BodyBuf → Key
  | .memory b => b.content
  | .file bytes => bytes

def PostRequest.bytes (r : PostRequest) : Key := (r.body.getD []).flatMap BodyBuf.bytes

/-- The first part of `lws_monitor_body_handler`, up to "process request body": the status of a request that is rejected, or
the block and `body.len`. -/
def monitorBlock (r : PostRequest) (old : Nat → Option UInt8) : Except Int ((Nat → Option UInt8) × Nat) :=
  match r.body with
  | none => .error 500
  | some [] => .error 400
  | some bufs =>
    if !r.palloc then .error 500
    else .ok (copiedMemory (bufs.flatMap BodyBuf.copied) old, (bufs.map BodyBuf.size).sum)

/-- The second part of `lws_monitor_body_handler`. -/
def parseBlock {w : Nat} (mem : Nat → Option UInt8) (last : Nat) (content : ContentAlloc) (m : LwsMonitor w) :
    Option (LwsMonitor w × Int) :=
  (postLoop mem (lwsMonitorModificationHandler mem) last (last + 1) { target := m }).map fun (m, rc) =>
    if rc ≠ ngxOk then (m, rc) else (m, contentStatus content)

/-- **The handler** parses the block, unless it rejects the request before. -/
theorem lwsMonitorBodyHandler_block {w : Nat} (r : PostRequest) (old : Nat → Option UInt8) (m : LwsMonitor w) :
    lwsMonitorBodyHandler r old m =
      match monitorBlock r old with
      | .error rc => some (m, rc)
      | .ok (mem, last) => parseBlock mem last r.content m := by
  obtain ⟨body, palloc, content⟩ := r
  rcases body with _ | _ | ⟨b, bufs⟩
  · rfl
  · rfl
  · cases palloc <;> rfl

theorem monitorBlock_ok {r : PostRequest} {old mem : Nat → Option UInt8} {last : Nat} :
    monitorBlock r old = .ok (mem, last) ↔ r.body.getD [] ≠ [] ∧ r.palloc = true ∧
      mem = copiedMemory ((r.body.getD []).flatMap BodyBuf.copied) old ∧ last = ((r.body.getD []).map BodyBuf.size).sum := by
  obtain ⟨body, palloc, content⟩ := r
  rcases body with _ | _ | ⟨b, bufs⟩
  · simp [monitorBlock]
  · simp [monitorBlock]
  · cases palloc <;> simp [monitorBlock, eq_comm]

theorem monitorBlock_error {r : PostRequest} (h : r.body.getD [] = [] ∨ r.palloc = false) :
    ∃ rc, ∀ old, monitorBlock r old = .error rc := by
  obtain ⟨body, palloc, content⟩ := r
  rcases body with _ | _ | ⟨b, bufs⟩
  · exact ⟨500, fun _ => rfl⟩
  · exact ⟨400, fun _ => rfl⟩
  · obtain rfl : palloc = false := h.resolve_left (List.cons_ne_nil b bufs)
    exact ⟨500, fun _ => rfl⟩

theorem BodyBuf.bytes_length (b : BodyBuf) : b.bytes.length = b.size := by
  cases b with
  | memory b => exact b.content_length
  | file bytes => rfl

theorem bytes_length (bufs : List BodyBuf) : (bufs.flatMap BodyBuf.bytes).length = (bufs.map BodyBuf.size).sum := by
  rw [List.length_flatMap]
  exact congrArg List.sum (List.map_congr_left fun b _ => b.bytes_length)

def BodyBuf.Spilled (b : BodyBuf) : Prop := ∃ c bytes, b = .file (c :: bytes)

theorem BodyBuf.copied_eq {b : BodyBuf} (h : ¬b.Spilled) : b.copied = b.bytes := by
  cases b with
  | memory b => rfl
  | file bytes =>
    cases bytes with
    | nil => rfl
    | cons c bytes => exact absurd ⟨c, bytes, rfl⟩ h

theorem BodyBuf.copied_length_lt {b : BodyBuf} (h : b.Spilled) : b.copied.length < b.size := by
  obtain ⟨c, bytes, rfl⟩ := h
  exact Nat.zero_lt_succ _

theorem BodyBuf.copied_length_le (b : BodyBuf) : b.copied.length ≤ b.size := by
  by_cases h : b.Spilled
  · exact Nat.le_of_lt (b.copied_length_lt h)
  · rw [b.copied_eq h, b.bytes_length]

theorem copied_eq {bufs : List BodyBuf} (h : ∀ b ∈ bufs, ¬b.Spilled) : bufs.flatMap BodyBuf.copied = bufs.flatMap BodyBuf.bytes := by
  rw [List.flatMap_def, List.map_congr_left fun b hb => b.copied_eq (h b hb), ← List.flatMap_def]

theorem copied_length_le (bufs : List BodyBuf) : (bufs.flatMap BodyBuf.copied).length ≤ (bufs.map BodyBuf.size).sum := by
  rw [List.length_flatMap]
  exact List.sum_le_sum fun b _ => b.copied_length_le

theorem copied_length_lt {bufs : List BodyBuf} {b : BodyBuf} (hb : b ∈ bufs) (h : b.Spilled) :
    (bufs.flatMap BodyBuf.copied).length < (bufs.map BodyBuf.size).sum := by
  obtain ⟨before, after, rfl⟩ := List.append_of_mem hb
  have hbefore := copied_length_le before
  have hafter := copied_length_le after
  have hlt := b.copied_length_lt h
  simp only [List.flatMap_append, List.flatMap_cons, List.length_append, List.map_append, List.map_cons, List.sum_append,
    List.sum_cons]
  omega

def BlockHolds (mem : Nat → Option UInt8) (last : Nat) (bytes : Key) : Prop :=
  last = bytes.length ∧ ∀ p < last, mem p = bytes[p]?

theorem blockHolds_iff (bufs : List BodyBuf) :
    BlockHolds (copiedMemory (bufs.flatMap BodyBuf.copied) fun _ => none) (bufs.map BodyBuf.size).sum
      (bufs.flatMap BodyBuf.bytes) ↔ ∀ b ∈ bufs, ¬b.Spilled := by
  constructor
  · rintro ⟨hlen, hread⟩ b hb hspilled
    -- the first byte that is not copied is in the body
    have hlt := copied_length_lt hb hspilled
    have hnone := hread _ hlt
    rw [copiedMemory, List.getElem?_eq_none (Nat.le_refl _), eq_comm, Option.none_or, List.getElem?_eq_none_iff, ← hlen] at hnone
    omega
  · intro h
    refine ⟨(bytes_length bufs).symm, fun p hp => ?_⟩
    rw [copiedMemory, copied_eq h, Option.or_none]

/-- **What is parsed is the body if and only if nothing of it is in a file**: where the request is not rejected before parsing,
all bytes of the block are initialised and are those of the body, just when no buffer that is in a file only has bytes. -/
theorem monitor_parses_body_iff (r : PostRequest) :
    (∀ mem last, monitorBlock r (fun _ => none) = .ok (mem, last) → BlockHolds mem last r.bytes) ↔
      r.body.getD [] = [] ∨ r.palloc = false ∨ ∀ b ∈ r.body.getD [], ¬b.Spilled := by
  constructor
  · intro h
    by_cases hbufs : r.body.getD [] = []
    · exact .inl hbufs
    · cases hpalloc : r.palloc with
      | false => exact .inr (.inl rfl)
      | true => exact .inr (.inr ((blockHolds_iff _).1 (h _ _ (monitorBlock_ok.2 ⟨hbufs, hpalloc, rfl, rfl⟩))))
  · intro h mem last hblock
    obtain ⟨hbufs, hpalloc, rfl, rfl⟩ := monitorBlock_ok.1 hblock
    rcases h with h | h | h
    · exact absurd h hbufs
    · exact absurd (hpalloc.symm.trans h) (by decide)
    · exact (blockHolds_iff _).2 h

/-- A body in a file: of the 10 bytes of the block none is initialised. -/
theorem spilled_body_not_parsed :
    let r : PostRequest := ⟨some [.file (literal "profiler=1")], true, {}⟩
    ∃ mem, monitorBlock r (fun _ => none) = .ok (mem, 10) ∧ mem 0 = none ∧ ¬BlockHolds mem 10 r.bytes :=
  ⟨_, rfl, rfl, fun h => absurd (h.2 0 (by decide)) (by decide)⟩

end Lws

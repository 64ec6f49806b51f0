import Mathlib.Data.BitVec
import Mathlib.Data.List.AList
import Mathlib.Algebra.Order.BigOperators.Group.List
/-!
# Alloc — the memory limit of a Lua state (`lws_state.c`)

`lws_alloc_checked` and the C heap below it.  What `realloc` answers is an argument of the call: the address of the block, or
`none` where it fails.
-/
namespace Lws

variable {w : Nat}

/-! ## The heap -/

abbrev Heap (w : Nat) := AList fun _ : Nat => BitVec w

def Heap.total (h : Heap w) : Nat := (h.entries.map fun b => b.2.toNat).sum

def Heap.free (h : Heap w) : Option Nat → Heap w
  | none => h
  | some p => h.erase p

/-- `realloc`, where it gives the block at `q`. -/
def Heap.realloc (h : Heap w) (ptr : Option Nat) (nsize : BitVec w) (q : Nat) : Heap w := (h.free ptr).insert q nsize

theorem Heap.total_insert {h : Heap w} {q : Nat} (n : BitVec w) (hq : q ∉ h) :
    Heap.total (h.insert q n) = n.toNat + h.total := by
  rw [Heap.total, AList.entries_insert_of_notMem hq, List.map_cons, List.sum_cons, Heap.total]

theorem Heap.total_erase {h : Heap w} {p : Nat} {n : BitVec w} (hp : h.lookup p = some n) :
    n.toNat + Heap.total (h.erase p) = h.total := by
  have hk : p ∈ h.entries.keys := AList.mem_keys.1 (AList.lookup_isSome.1 (by rw [hp, Option.isSome_some]))
  obtain ⟨b, l₁, l₂, hl₁, heq, herase⟩ := List.exists_of_kerase hk
  have hb : b = n := by
    have hmem : ⟨p, b⟩ ∈ h.entries := by rw [heq]; exact List.mem_append_right _ List.mem_cons_self
    exact Option.some.inj (((List.mem_dlookup_iff h.nodupKeys).2 hmem).symm.trans hp)
  have hentries : (h.erase p).entries = l₁ ++ l₂ := herase
  rw [Heap.total, hentries, Heap.total, heq, hb]
  simp only [List.map_append, List.map_cons, List.sum_append, List.sum_cons]
  omega

/-! ## The allocator -/

/-- `lws_state_t`, the fields of the allocator, and the heap. -/
structure LuaHeap (w : Nat) where
  memoryUsed : BitVec w := 0
  memoryMax : BitVec w
  blocks : Heap w := ∅

/-- A call of the allocator: its arguments, and what `realloc` answers if it is reached. -/
structure AllocCall (w : Nat) where
  ptr : Option Nat
  osize : BitVec w
  nsize : BitVec w
  realloc : Option Nat

def lwsAllocChecked (luaVersion : Nat) (x : LuaHeap w) (c : AllocCall w) : Option Nat × LuaHeap w :=
  let osize := if 502 ≤ luaVersion ∧ c.ptr = none then 0 else c.osize
  if c.nsize = 0 then (none, { x with blocks := x.blocks.free c.ptr, memoryUsed := x.memoryUsed - osize })
  else
    let memoryUsed := x.memoryUsed - osize + c.nsize
    if memoryUsed > x.memoryMax then (none, x)
    else
      match c.realloc with
      | none => (none, x)
      | some q => (some q, { x with blocks := x.blocks.realloc c.ptr c.nsize q, memoryUsed := memoryUsed })

/-- What Lua promises of a call, and the C library of `realloc`: before 5.2 `osize` is 0 for a fresh block, later it is a
type tag; `realloc` gives an address that no other block has, and only while the total live size stays below `2 ^ w`. -/
structure AllocCall.Legal (luaVersion : Nat) (h : Heap w) (c : AllocCall w) : Prop where
  fresh : c.ptr = none → luaVersion < 502 → c.osize = 0
  live : ∀ p, c.ptr = some p → h.lookup p = some c.osize
  apart : ∀ q, c.realloc = some q → q ∉ h.free c.ptr
  room : ∀ q, c.realloc = some q → Heap.total (h.realloc c.ptr c.nsize q) < 2 ^ w

inductive LuaHeap.Reached (luaVersion : Nat) (memoryMax : BitVec w) : LuaHeap w → Prop
  | new : Reached luaVersion memoryMax { memoryMax }
  | call {x : LuaHeap w} (c : AllocCall w) (hx : Reached luaVersion memoryMax x) (hc : c.Legal luaVersion x.blocks) :
      Reached luaVersion memoryMax (lwsAllocChecked luaVersion x c).2

/-- `memory_used` is the total live size, and within the limit. -/
structure LuaHeap.Accounted (x : LuaHeap w) : Prop where
  used : x.memoryUsed.toNat = x.blocks.total
  limit : x.memoryUsed ≤ x.memoryMax

/-! ## One call -/

section
variable {luaVersion : Nat} {x : LuaHeap w} {c : AllocCall w}

def AllocCall.released (luaVersion : Nat) (c : AllocCall w) : BitVec w :=
  if 502 ≤ luaVersion ∧ c.ptr = none then 0 else c.osize

theorem AllocCall.Legal.released (hc : c.Legal luaVersion x.blocks) :
    (c.released luaVersion).toNat + Heap.total (x.blocks.free c.ptr) = x.blocks.total := by
  unfold AllocCall.released
  cases hp : c.ptr with
  | none =>
    split
    · simp only [BitVec.ofNat_eq_ofNat, BitVec.toNat_ofNat, Nat.zero_mod, Nat.zero_add, Heap.free]
    · rename_i h
      rw [hc.fresh hp (by simp only [and_true] at h; omega)]
      simp only [BitVec.ofNat_eq_ofNat, BitVec.toNat_ofNat, Nat.zero_mod, Nat.zero_add, Heap.free]
  | some p =>
    rw [if_neg (by simp only [reduceCtorEq, and_false, not_false_eq_true])]
    exact Heap.total_erase (hc.live p hp)

theorem AllocCall.Legal.shrunk (hc : c.Legal luaVersion x.blocks) (hx : x.Accounted) :
    (x.memoryUsed - c.released luaVersion).toNat = Heap.total (x.blocks.free c.ptr) := by
  have hr := hc.released
  have hu := hx.used
  rw [BitVec.toNat_sub_of_le (by rw [BitVec.le_def]; omega)]
  omega

theorem AllocCall.Legal.total (hc : c.Legal luaVersion x.blocks) (hx : x.Accounted)
    (h : Heap.total (x.blocks.free c.ptr) + c.nsize.toNat < 2 ^ w) :
    (x.memoryUsed - c.released luaVersion + c.nsize).toNat = Heap.total (x.blocks.free c.ptr) + c.nsize.toNat := by
  rw [BitVec.toNat_add, hc.shrunk hx, Nat.mod_eq_of_lt h]

theorem lwsAllocChecked_free (luaVersion : Nat) (x : LuaHeap w) (hn : c.nsize = 0) :
    lwsAllocChecked luaVersion x c =
      (none, { x with blocks := x.blocks.free c.ptr, memoryUsed := x.memoryUsed - c.released luaVersion }) := by
  unfold lwsAllocChecked AllocCall.released
  rw [if_pos hn]

theorem lwsAllocChecked_alloc (luaVersion : Nat) (x : LuaHeap w) (hn : c.nsize ≠ 0) :
    lwsAllocChecked luaVersion x c = if x.memoryUsed - c.released luaVersion + c.nsize > x.memoryMax then (none, x)
      else match c.realloc with
        | none => (none, x)
        | some q => (some q, { x with
            blocks := x.blocks.realloc c.ptr c.nsize q, memoryUsed := x.memoryUsed - c.released luaVersion + c.nsize }) := by
  unfold lwsAllocChecked AllocCall.released
  rw [if_neg hn]

theorem lwsAllocChecked_refused (hn : c.nsize ≠ 0)
    (hlimit : x.memoryUsed - c.released luaVersion + c.nsize > x.memoryMax) : lwsAllocChecked luaVersion x c = (none, x) := by
  rw [lwsAllocChecked_alloc luaVersion x hn, if_pos hlimit]

theorem lwsAllocChecked_failed (luaVersion : Nat) (x : LuaHeap w) (hn : c.nsize ≠ 0) (hr : c.realloc = none) :
    lwsAllocChecked luaVersion x c = (none, x) := by
  rw [lwsAllocChecked_alloc luaVersion x hn, hr]
  split
  · rfl
  · rfl

theorem lwsAllocChecked_moved {q : Nat} (hn : c.nsize ≠ 0)
    (hlimit : ¬x.memoryUsed - c.released luaVersion + c.nsize > x.memoryMax) (hr : c.realloc = some q) :
    lwsAllocChecked luaVersion x c = (some q, { x with
      blocks := x.blocks.realloc c.ptr c.nsize q, memoryUsed := x.memoryUsed - c.released luaVersion + c.nsize }) := by
  rw [lwsAllocChecked_alloc luaVersion x hn, if_neg hlimit, hr]

theorem lwsAllocChecked_none (hn : c.nsize ≠ 0) (h : (lwsAllocChecked luaVersion x c).1 = none) :
    (lwsAllocChecked luaVersion x c).2 = x := by
  by_cases hlimit : x.memoryUsed - c.released luaVersion + c.nsize > x.memoryMax
  · rw [lwsAllocChecked_refused hn hlimit]
  · cases hr : c.realloc with
    | none => rw [lwsAllocChecked_failed luaVersion x hn hr]
    | some q =>
      rw [lwsAllocChecked_moved hn hlimit hr] at h
      cases h

@[simp] theorem lwsAllocChecked_memoryMax (luaVersion : Nat) (x : LuaHeap w) (c : AllocCall w) :
    (lwsAllocChecked luaVersion x c).2.memoryMax = x.memoryMax := by
  by_cases hn : c.nsize = 0
  · rw [lwsAllocChecked_free luaVersion x hn]
  · rw [lwsAllocChecked_alloc luaVersion x hn]
    split
    · rfl
    · cases c.realloc with
      | none => rfl
      | some q => rfl

theorem LuaHeap.Accounted.call (hx : x.Accounted) (hc : c.Legal luaVersion x.blocks) :
    (lwsAllocChecked luaVersion x c).2.Accounted := by
  by_cases hn : c.nsize = 0
  · rw [lwsAllocChecked_free luaVersion x hn]
    refine ⟨hc.shrunk hx, ?_⟩
    have hs := hc.shrunk hx
    have hr := hc.released
    have hu := hx.used
    have hl := hx.limit
    rw [BitVec.le_def] at hl ⊢
    dsimp only
    omega
  · by_cases hlimit : x.memoryUsed - c.released luaVersion + c.nsize > x.memoryMax
    · rw [lwsAllocChecked_refused hn hlimit]
      exact hx
    · cases hr : c.realloc with
      | none =>
        rw [lwsAllocChecked_failed luaVersion x hn hr]
        exact hx
      | some q =>
        have hsum : Heap.total (x.blocks.realloc c.ptr c.nsize q) = c.nsize.toNat + Heap.total (x.blocks.free c.ptr) :=
          Heap.total_insert c.nsize (hc.apart q hr)
        have hroom := hc.room q hr
        rw [lwsAllocChecked_moved hn hlimit hr]
        refine ⟨?_, BitVec.not_lt.1 hlimit⟩
        dsimp only
        rw [hc.total hx (by omega), hsum, Nat.add_comm]

theorem LuaHeap.Accounted.shrink (hx : x.Accounted) (hc : c.Legal luaVersion x.blocks) (hp : c.ptr ≠ none)
    (hle : c.nsize ≤ c.osize) : ¬x.memoryUsed - c.released luaVersion + c.nsize > x.memoryMax := by
  have hrel : c.released luaVersion = c.osize := if_neg fun h => hp h.2
  have hr := hc.released
  have hu := hx.used
  have hl := hx.limit
  have hlt := x.memoryUsed.isLt
  rw [hrel] at hr
  rw [BitVec.le_def] at hle hl
  rw [gt_iff_lt, BitVec.lt_def, hc.total hx (by omega)]
  omega

end

/-! ## Runs -/

section
variable {luaVersion : Nat} {memoryMax : BitVec w} {x : LuaHeap w}

theorem LuaHeap.Reached.memoryMax_eq (h : x.Reached luaVersion memoryMax) : x.memoryMax = memoryMax := by
  induction h with
  | new => rfl
  | call c hx hc ih => rw [lwsAllocChecked_memoryMax, ih]

theorem LuaHeap.Reached.accounted (h : x.Reached luaVersion memoryMax) : x.Accounted := by
  induction h with
  | new =>
    have hzero : (0 : BitVec w).toNat = 0 := by rw [BitVec.ofNat_eq_ofNat, BitVec.toNat_ofNat, Nat.zero_mod]
    refine ⟨hzero, ?_⟩
    rw [BitVec.le_def, hzero]
    exact Nat.zero_le _
  | call c hx hc ih => exact ih.call hc

/-- **The memory limit of a Lua state is exact**: after any legal calls `memory_used` is the total size of the live blocks
and within the limit; a call for a block that gives none changes nothing, a call that does not grow its block gives what
`realloc` gives, and a free frees. -/
theorem memory_used_is_live_memory (h : x.Reached luaVersion memoryMax) :
    x.memoryUsed.toNat = x.blocks.total ∧ x.memoryUsed ≤ memoryMax ∧ ∀ c : AllocCall w, c.Legal luaVersion x.blocks →
      (c.nsize ≠ 0 → (lwsAllocChecked luaVersion x c).1 = none → (lwsAllocChecked luaVersion x c).2 = x) ∧
      (c.nsize ≠ 0 → c.ptr ≠ none → c.nsize ≤ c.osize → (lwsAllocChecked luaVersion x c).1 = c.realloc) ∧
      (c.nsize = 0 → (lwsAllocChecked luaVersion x c).2.blocks = x.blocks.free c.ptr) := by
  have hx := h.accounted
  refine ⟨hx.used, h.memoryMax_eq ▸ hx.limit, fun c hc => ⟨lwsAllocChecked_none, fun hn hp hle => ?_, fun hn => ?_⟩⟩
  · have hlimit := hx.shrink hc hp hle
    cases hr : c.realloc with
    | none => rw [lwsAllocChecked_failed luaVersion x hn hr]
    | some q => rw [lwsAllocChecked_moved hn hlimit hr]
  · rw [lwsAllocChecked_free luaVersion x hn]

end

/-- A block that moves as it grows, one that is refused, and one that is freed. -/
theorem memory_used_is_live_memory_moved : ∃ x : LuaHeap 64, x.Reached 503 100 ∧ x.memoryUsed = 20 ∧
    x.memoryUsed.toNat = x.blocks.total := by
  have h₁ := LuaHeap.Reached.call (⟨none, 5, 60, some 8⟩ : AllocCall 64) (.new : LuaHeap.Reached 503 100 _)
    ⟨by decide, by decide, by decide, by decide⟩
  have h₂ := h₁.call ⟨some 8, 60, 80, some 24⟩ ⟨by decide, by decide, by decide, by decide⟩
  have h₃ := h₂.call ⟨none, 5, 60, some 8⟩ ⟨by decide, by decide, by decide, by decide⟩
  have h₄ := h₃.call ⟨none, 5, 20, some 8⟩ ⟨by decide, by decide, by decide, by decide⟩
  have h₅ := h₄.call ⟨some 24, 80, 0, none⟩ ⟨by decide, by decide, by decide, by decide⟩
  exact ⟨_, h₅, by decide, (memory_used_is_live_memory h₅).1⟩

end Lws

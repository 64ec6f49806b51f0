import Lws.ParseArgs
/-!
# Unescape — `lws_unescape_url` on memory (`lws_lib.c`)

The loop with its pointers: `s` walks over the source, back by one byte after a bad second digit, and the destination has room
for as many bytes as the source.  A read outside the source and a write outside the destination are faults.
-/
namespace Lws

/-- The memory in which `src` is at `s`, and no other byte can be read. -/
def source (s : Nat) (src : Key) (p : Nat) : Option UInt8 := if s ≤ p then src[p - s]? else none

/-- The variables of `lws_unescape_url`; `d` has the bytes written so far. -/
structure Unescape where
  s : Nat
  state : UnescapeState := .plain
  c : UInt8 := 0
  d : Key := []

section
variable (mem : Nat → Option UInt8) (room : Nat)

/-- `*d++ = byte`, within the room of the destination. -/
def Unescape.put (byte : UInt8) (x : Unescape) : Option Unescape :=
  if x.d.length < room then some { x with d := x.d ++ [byte] } else none

def unescapeRound (x : Unescape) : Option Unescape :=
  match mem x.s with
  | none => none
  | some ch =>
    match x.state with
    | .plain =>
      if ch = 0x2b then (x.put room 0x20).map fun x => { x with s := x.s + 1 }
      else if ch = 0x25 then some { x with s := x.s + 1, state := .first }
      else (x.put room ch).map fun x => { x with s := x.s + 1 }
    | .first =>
      match hexDigit ch with
      | some v => some { x with s := x.s + 1, state := .second, c := v * 16 }
      | none => (x.put room 0x25).map fun x => { x with state := .plain }
    | .second =>
      match hexDigit ch with
      | some v => (x.put room (x.c + v)).map fun x => { x with s := x.s + 1, state := .plain }
      | none => (x.put room 0x25).map fun x => { x with s := x.s - 1, state := .plain }

def unescapeEnd (x : Unescape) : Option Unescape :=
  match x.state with
  | .plain => some x
  | .first => x.put room 0x25
  | .second => (x.put room 0x25).bind fun x => (mem (x.s - 1)).bind fun ch => x.put room ch

/-- The loop, with what follows it: the bytes written, and `s` at the end. -/
def unescapeWhile (last : Nat) : Nat → Unescape → Option (Key × Nat)
  | 0, _ => none
  | fuel + 1, x =>
    if x.s < last then (unescapeRound mem room x).bind (unescapeWhile last fuel)
    else (unescapeEnd mem room x).map fun x => (x.d, x.s)

/-- `lws_unescape_url`, for `n` bytes at `s`; none is a fault, or a loop that does not end. -/
def lwsUnescapeUrlAt (s n : Nat) : Option (Key × Nat) := unescapeWhile mem room (s + n) (3 * n + 1) { s := s }

end

/-- A percent-encoding: `%` and `+` are encoded, and any other byte or not, with hex digits of either case. -/
inductive Encoded : Key → Key → Prop
  | nil : Encoded [] []
  | literal {c : UInt8} {key e : Key} (hpercent : c ≠ 0x25) (hplus : c ≠ 0x2b) (h : Encoded key e) : Encoded (c :: key) (c :: e)
  | escaped {c hi lo : UInt8} {key e : Key} (hc : hexPair hi lo = some c) (h : Encoded key e) :
      Encoded (c :: key) (0x25 :: hi :: lo :: e)

theorem Encoded.decode {key e : Key} (h : Encoded key e) : decode e = key := by
  induction h with
  | nil => rfl
  | literal hpercent hplus _ ih => rw [decode_plain hpercent, ih, plusToSpace, if_neg hplus]
  | escaped hc _ ih => rw [decode_pair hc, ih]

/-! ## The loop stays inside -/

def UnescapeState.pending : UnescapeState → Nat
  | .plain => 0
  | .first => 1
  | .second => 2

section
variable (s : Nat) {before rest : Key} {x : Unescape}

theorem source_head (ch : UInt8) : source s (before.reverse ++ ch :: rest) (s + before.length) = some ch := by
  rw [source, if_pos (Nat.le_add_right _ _), Nat.add_sub_cancel_left, ← List.length_reverse, List.getElem?_append_right le_rfl,
    Nat.sub_self, List.getElem?_cons_zero]

theorem source_prev (ch : UInt8) : source s ((ch :: before).reverse ++ rest) (s + (ch :: before).length - 1) = some ch := by
  rw [List.reverse_cons, List.append_assoc, List.singleton_append, List.length_cons, Nat.add_succ_sub_one]
  exact source_head s ch

theorem put_room {room : Nat} (h : x.d.length < room) (byte : UInt8) : x.put room byte = some { x with d := x.d ++ [byte] } :=
  if_pos h

theorem unescapeEnd_eq (fuel : Nat) (hs : x.s = s + before.length) (hd : x.d.length + x.state.pending ≤ before.length) :
    (unescapeEnd (source s before.reverse) before.length x).map (fun x => (x.d, x.s)) =
      (unescapeLoop (fuel + 1) x.state x.c before [] x.d).map fun d => (d, s + before.length) := by
  obtain ⟨_, state, c, d⟩ := x
  obtain rfl : _ = s + before.length := hs
  cases state with
  | plain => rfl
  | first =>
    have hroom : d.length < before.length := hd
    rw [unescapeEnd, put_room hroom]
    rfl
  | second =>
    cases before with
    | nil => exact absurd hd (by simp [UnescapeState.pending])
    | cons ch before =>
      have hroom : d.length + 1 < (ch :: before).length := hd
      have hprev := @source_prev s before [] ch
      rw [List.append_nil] at hprev
      rw [unescapeEnd]
      dsimp only
      rw [put_room (Nat.lt_of_succ_lt hroom), Option.bind_some]
      dsimp only
      rw [hprev, Option.bind_some, put_room (by simpa using hroom)]
      rfl

/-- **The loop on memory is the loop on lists**: what is before the pointer, and what is from it on.  No more bytes are written
than read, so that each write is inside. -/
theorem unescapeWhile_eq : ∀ (fuel : Nat) (before rest : Key) (x : Unescape), x.s = s + before.length →
    x.d.length + x.state.pending ≤ before.length →
    unescapeWhile (source s (before.reverse ++ rest)) (before.length + rest.length) (s + (before.length + rest.length)) fuel x =
      (unescapeLoop fuel x.state x.c before rest x.d).map fun d => (d, s + (before.length + rest.length))
  | 0, _, _, _, _, _ => rfl
  | fuel + 1, before, [], ⟨_, state, c, d⟩, hs, hd => by
    rw [unescapeWhile, List.length_nil, Nat.add_zero, if_neg (by rw [hs]; exact Nat.lt_irrefl _), List.append_nil]
    exact unescapeEnd_eq s fuel hs hd
  | fuel + 1, before, ch :: rest, ⟨_, state, c, d⟩, hs, hd => by
    obtain rfl : _ = s + before.length := hs
    have hlength : (ch :: before).length + rest.length = before.length + (ch :: rest).length := by
      simp only [List.length_cons]
      omega
    -- the round that reads `ch` and goes on
    have hnext (x : Unescape) (hx : x.s = s + before.length + 1) (hd : x.d.length + x.state.pending ≤ before.length + 1) :
        unescapeWhile (source s (before.reverse ++ ch :: rest)) (before.length + (ch :: rest).length)
          (s + (before.length + (ch :: rest).length)) fuel x =
        (unescapeLoop fuel x.state x.c (ch :: before) rest x.d).map
          fun d => (d, s + (before.length + (ch :: rest).length)) := by
      have h := unescapeWhile_eq fuel (ch :: before) rest x hx hd
      rw [List.reverse_cons, List.append_assoc, List.singleton_append, hlength] at h
      exact h
    have hroom {n : Nat} (h : n ≤ before.length) : n < before.length + (ch :: rest).length := by
      rw [List.length_cons]
      omega
    have hlast : s + before.length < s + (before.length + (ch :: rest).length) := Nat.add_lt_add_left (hroom le_rfl) s
    rw [unescapeWhile, if_pos hlast, unescapeRound, source_head]
    dsimp only
    cases state with
    | plain =>
      have hput := @put_room ⟨s + before.length, .plain, c, d⟩ _ (hroom hd)
      rw [unescapeLoop]
      by_cases hplus : ch = 0x2b
      · rw [if_pos hplus, if_pos hplus, hput, Option.map_some, Option.bind_some]
        exact hnext _ rfl (by simpa [UnescapeState.pending] using hd)
      · rw [if_neg hplus, if_neg hplus]
        by_cases hpercent : ch = 0x25
        · rw [if_pos hpercent, if_pos hpercent, Option.bind_some]
          exact hnext _ rfl (Nat.succ_le_succ hd)
        · rw [if_neg hpercent, if_neg hpercent, hput, Option.map_some, Option.bind_some]
          exact hnext _ rfl (by simpa [UnescapeState.pending] using hd)
    | first =>
      have hput := @put_room ⟨s + before.length, .first, c, d⟩ _ (hroom (Nat.le_of_succ_le hd))
      rw [unescapeLoop]
      cases hexDigit ch with
      | some v =>
        dsimp only
        rw [Option.bind_some]
        exact hnext _ rfl (Nat.succ_le_succ hd)
      | none =>
        dsimp only
        rw [hput, Option.map_some, Option.bind_some]
        exact unescapeWhile_eq fuel before (ch :: rest) _ rfl (by simpa [UnescapeState.pending] using hd)
    | second =>
      have hd2 : d.length + 2 ≤ before.length := hd
      cases before with
      | nil => exact absurd hd2 (by simp)
      | cons prev before =>
        have hput := @put_room ⟨s + (prev :: before).length, .second, c, d⟩ _ (hroom (by dsimp only; omega))
        rw [unescapeLoop]
        cases hexDigit ch with
        | some v =>
          dsimp only
          rw [hput, Option.map_some, Option.bind_some]
          exact hnext _ rfl (by simp only [UnescapeState.pending, List.length_append, List.length_singleton]; omega)
        | none =>
          dsimp only
          rw [hput, Option.map_some, Option.bind_some]
          -- the pointer goes back to the first digit
          have h := unescapeWhile_eq fuel before (prev :: ch :: rest) ⟨s + before.length, .plain, c, d ++ [0x25]⟩ rfl (by
            simp only [UnescapeState.pending, List.length_append, List.length_cons, List.length_nil] at hd2 ⊢
            omega)
          have hback : before.length + (prev :: ch :: rest).length = (prev :: before).length + (ch :: rest).length := by
            simp only [List.length_cons]
            omega
          rw [hback] at h
          rw [List.reverse_cons, List.append_assoc, List.singleton_append]
          exact h

end

/-- **`lws_unescape_url` decodes**: it ends, reads only the source, writes no more bytes than there are, and writes the decoding;
and so undoes every encoding. -/
theorem unescape_url_decodes (s : Nat) (src : Key) :
    lwsUnescapeUrlAt (source s src) src.length s src.length = some (decode src, s + src.length) ∧
      (decode src).length ≤ src.length ∧ ∀ key, Encoded key src → decode src = key := by
  refine ⟨?_, decode_length src, fun key h => h.decode⟩
  have h := unescapeWhile_eq s (3 * src.length + 1) [] src { s := s } rfl (Nat.le_refl 0)
  rw [List.length_nil, Nat.zero_add, List.reverse_nil, List.nil_append] at h
  rw [lwsUnescapeUrlAt, h, ← lwsUnescapeUrl, lwsUnescapeUrl_eq, Option.map_some]

/-- A bad second digit, an escape within an escape, and one that is cut off. -/
example : lwsUnescapeUrlAt (source 7 [0x25, 0x34, 0x25, 0x34, 0x31, 0x2b, 0x25, 0x34]) 8 7 8 =
    some ([0x25, 0x34, 0x41, 0x20, 0x25, 0x34], 15) := by decide

end Lws

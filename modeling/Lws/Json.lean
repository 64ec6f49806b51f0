import Mathlib.Data.Nat.Digits.Lemmas
/-!
# Json — JSON texts and what they denote

`parse` reads a text of bytes.  What a piece of a text denotes is said wherever the piece stands (`IsString`, `IsValue`,
`IsElements`, `IsMembers`), so that a text that is written piece by piece is read by one rule for each piece.  A string is a
string of bytes: whether it is UTF-8 is not looked at.
-/
namespace Json

abbrev Bytes := List UInt8

/-- A number is a mantissa and a power of ten. -/
inductive Value where
  | null
  | bool (b : Bool)
  | number (mantissa exponent : Int)
  | string (s : Bytes)
  | array (elements : List Value)
  | object (members : List (Bytes × Value))

/-! ## Reading -/

def isSpace (c : UInt8) : Bool := c == 0x20 || c == 0x09 || c == 0x0a || c == 0x0d

def isDigit (c : UInt8) : Bool := 0x30 ≤ c && c ≤ 0x39

def skipSpace (s : Bytes) : Bytes := s.dropWhile isSpace

def hexDigit (c : UInt8) : Option Nat :=
  if 0x30 ≤ c ∧ c ≤ 0x39 then some (c.toNat - 0x30)
  else if 0x41 ≤ c ∧ c ≤ 0x46 then some (c.toNat - 0x41 + 10)
  else if 0x61 ≤ c ∧ c ≤ 0x66 then some (c.toNat - 0x61 + 10)
  else none

def hex4 : Bytes → Option (Nat × Bytes)
  | a :: b :: c :: d :: s => do
    let a ← hexDigit a
    let b ← hexDigit b
    let c ← hexDigit c
    let d ← hexDigit d
    some (((a * 16 + b) * 16 + c) * 16 + d, s)
  | _ => none

/-- The bytes of a character that `\u` names; a pair of surrogates names one character. -/
def unicode (s : Bytes) : Option (Bytes × Bytes) := do
  let (u, s) ← hex4 s
  if 0xd800 ≤ u ∧ u < 0xdc00 then
    match s with
    | 0x5c :: 0x75 :: s => do
      let (v, s) ← hex4 s
      if 0xdc00 ≤ v ∧ v < 0xe000 then
        some (String.utf8EncodeChar (Char.ofNat (0x10000 + (u - 0xd800) * 0x400 + (v - 0xdc00))), s)
      else none
    | _ => none
  else if 0xdc00 ≤ u ∧ u < 0xe000 then none
  else some (String.utf8EncodeChar (Char.ofNat u), s)

def character : Bytes → Option (Bytes × Bytes)
  | 0x5c :: 0x22 :: s => some ([0x22], s)
  | 0x5c :: 0x5c :: s => some ([0x5c], s)
  | 0x5c :: 0x2f :: s => some ([0x2f], s)
  | 0x5c :: 0x62 :: s => some ([0x08], s)
  | 0x5c :: 0x66 :: s => some ([0x0c], s)
  | 0x5c :: 0x6e :: s => some ([0x0a], s)
  | 0x5c :: 0x72 :: s => some ([0x0d], s)
  | 0x5c :: 0x74 :: s => some ([0x09], s)
  | 0x5c :: 0x75 :: s => unicode s
  | c :: s => if c = 0x5c ∨ c < 0x20 then none else some ([c], s)
  | [] => none

def characters : Nat → Bytes → Option (Bytes × Bytes)
  | 0, _ => none
  | fuel + 1, s =>
    if s.head? = some 0x22 then some ([], s.tail)
    else do
      let (c, s) ← character s
      let (cs, s) ← characters fuel s
      some (c ++ cs, s)

def natOf (digits : Bytes) : Nat := digits.foldl (fun n c => 10 * n + (c.toNat - 0x30)) 0

def digits (s : Bytes) : Option (Bytes × Bytes) :=
  if s.takeWhile isDigit = [] then none else some (s.takeWhile isDigit, s.dropWhile isDigit)

def fraction : Bytes → Option (Bytes × Bytes)
  | 0x2e :: s => digits s
  | s => some ([], s)

def signedDigits : Bytes → Option (Int × Bytes)
  | 0x2d :: s => (digits s).map fun (ds, s) => (-(natOf ds : Int), s)
  | 0x2b :: s => (digits s).map fun (ds, s) => ((natOf ds : Int), s)
  | s => (digits s).map fun (ds, s) => ((natOf ds : Int), s)

def exponent : Bytes → Option (Int × Bytes)
  | c :: s => if c = 0x65 ∨ c = 0x45 then signedDigits s else some (0, c :: s)
  | [] => some (0, [])

def magnitude (s : Bytes) : Option (Nat × Int × Bytes) := do
  let (int, s) ← digits s
  if int.head? = some 0x30 ∧ int ≠ [0x30] then none
  else
    let (frac, s) ← fraction s
    let (exp, s) ← exponent s
    some (natOf (int ++ frac), exp - frac.length, s)

def number : Bytes → Option (Value × Bytes)
  | 0x2d :: s => (magnitude s).map fun (m, e, s) => (.number (-(m : Int)) e, s)
  | s => (magnitude s).map fun (m, e, s) => (.number m e, s)

mutual

def value : Nat → Bytes → Option (Value × Bytes)
  | 0, _ => none
  | fuel + 1, s =>
    match skipSpace s with
    | 0x22 :: s => (characters fuel s).map fun (cs, s) => (.string cs, s)
    | 0x5b :: s =>
      if (skipSpace s).head? = some 0x5d then some (.array [], (skipSpace s).tail)
      else (elements fuel s).map fun (vs, s) => (.array vs, s)
    | 0x7b :: s =>
      if (skipSpace s).head? = some 0x7d then some (.object [], (skipSpace s).tail)
      else (members fuel s).map fun (ms, s) => (.object ms, s)
    | 0x6e :: 0x75 :: 0x6c :: 0x6c :: s => some (.null, s)
    | 0x74 :: 0x72 :: 0x75 :: 0x65 :: s => some (.bool true, s)
    | 0x66 :: 0x61 :: 0x6c :: 0x73 :: 0x65 :: s => some (.bool false, s)
    | s => number s

def elements : Nat → Bytes → Option (List Value × Bytes)
  | 0, _ => none
  | fuel + 1, s => do
    let (v, s) ← value fuel s
    match skipSpace s with
    | 0x2c :: s => (elements fuel s).map fun (vs, s) => (v :: vs, s)
    | 0x5d :: s => some ([v], s)
    | _ => none

def members : Nat → Bytes → Option (List (Bytes × Value) × Bytes)
  | 0, _ => none
  | fuel + 1, s =>
    match skipSpace s with
    | 0x22 :: s => do
      let (name, s) ← characters fuel s
      match skipSpace s with
      | 0x3a :: s => do
        let (v, s) ← value fuel s
        match skipSpace s with
        | 0x2c :: s => (members fuel s).map fun (ms, s) => ((name, v) :: ms, s)
        | 0x7d :: s => some ([(name, v)], s)
        | _ => none
      | _ => none
    | _ => none

end

def parse (s : Bytes) : Option Value := do
  let (v, s) ← value s.length s
  if skipSpace s = [] then some v else none

/-! ## What pieces denote -/

def Ends (rest : Bytes) : Prop := ∀ c ∈ rest.head?, isDigit c = false ∧ c ≠ 0x2e ∧ c ≠ 0x65 ∧ c ≠ 0x45

/-- `text` is one character of a string, and stands for the bytes `c`. -/
def IsCharacter (text c : Bytes) : Prop :=
  text ≠ [] ∧ text.head? ≠ some 0x22 ∧ ∀ rest, character (text ++ rest) = some (c, rest)

/-- `text` is what stands between the quotation marks of the string `s`. -/
def IsString (text s : Bytes) : Prop :=
  ∀ rest fuel, text.length < fuel → characters fuel (text ++ 0x22 :: rest) = some (s, rest)

/-- `text` is the value `v`, wherever it stands. -/
def IsValue (text : Bytes) (v : Value) : Prop :=
  ∀ rest fuel, Ends rest → text.length ≤ fuel → value fuel (text ++ rest) = some (v, rest)

def First (text : Bytes) (c : UInt8) : Prop := ∃ s, skipSpace text = c :: s

/-- `text` is what stands after the bracket that begins an array of these elements. -/
def IsElements (text : Bytes) (vs : List Value) : Prop :=
  (∃ c, First text c ∧ c ≠ 0x5d) ∧ ∀ rest fuel, text.length ≤ fuel → elements fuel (text ++ rest) = some (vs, rest)

/-- `text` is what stands after the brace that begins an object of these members. -/
def IsMembers (text : Bytes) (ms : List (Bytes × Value)) : Prop :=
  First text 0x22 ∧ ∀ rest fuel, text.length ≤ fuel → members fuel (text ++ rest) = some (ms, rest)

def Spaces (s : Bytes) : Prop := ∀ c ∈ s, isSpace c = true

instance (s : Bytes) : Decidable (Spaces s) := decidable_of_iff (s.all isSpace = true) List.all_eq_true

theorem spaces_nil : Spaces [] := nofun

theorem skipSpace_append {s : Bytes} (h : Spaces s) (rest : Bytes) : skipSpace (s ++ rest) = skipSpace rest :=
  List.dropWhile_append_of_pos h

theorem skipSpace_spaces {s : Bytes} (h : Spaces s) : skipSpace s = [] := by
  rw [← List.append_nil s, skipSpace_append h]
  rfl

theorem skipSpace_cons {c : UInt8} (h : isSpace c = false) (s : Bytes) : skipSpace (c :: s) = c :: s := by
  rw [skipSpace, List.dropWhile_cons_of_neg (by rw [h]; exact Bool.false_ne_true)]

theorem First.append {text : Bytes} {c : UInt8} (h : First text c) (rest : Bytes) : First (text ++ rest) c := by
  obtain ⟨s, hs⟩ := h
  refine ⟨s ++ rest, ?_⟩
  rw [skipSpace] at hs
  rw [skipSpace, List.dropWhile_append, hs]
  rfl

theorem first_spaces {ws : Bytes} (hws : Spaces ws) {c : UInt8} (hc : isSpace c = false) (s : Bytes) : First (ws ++ c :: s) c :=
  ⟨s, by rw [skipSpace_append hws, skipSpace_cons hc]⟩

theorem ends_cons {c : UInt8} (h : isDigit c = false ∧ c ≠ 0x2e ∧ c ≠ 0x65 ∧ c ≠ 0x45) (rest : Bytes) : Ends (c :: rest) := by
  rintro _ ⟨⟩
  exact h

theorem ends_spaces {ws rest : Bytes} (hws : Spaces ws) (h : Ends rest) : Ends (ws ++ rest) := by
  cases ws with
  | nil => exact h
  | cons c ws =>
    refine ends_cons ?_ _
    have hc := hws c List.mem_cons_self
    simp only [isSpace, Bool.or_eq_true, beq_iff_eq] at hc
    obtain ((rfl | rfl) | rfl) | rfl := hc <;> decide

/-! ### Strings -/

theorem isString_nil : IsString [] [] := by
  intro rest fuel hfuel
  obtain ⟨fuel, rfl⟩ := Nat.exists_eq_add_of_lt hfuel
  rw [List.length_nil, Nat.zero_add, characters]
  rfl

theorem IsString.cons {text c texts s : Bytes} (h : IsCharacter text c) (hs : IsString texts s) :
    IsString (text ++ texts) (c ++ s) := by
  intro rest fuel hfuel
  obtain ⟨hne, hhead, hread⟩ := h
  obtain ⟨a, text, rfl⟩ := List.exists_cons_of_ne_nil hne
  rw [List.length_append, List.length_cons] at hfuel
  obtain ⟨fuel, rfl⟩ := Nat.exists_eq_add_of_lt (Nat.zero_lt_of_lt hfuel)
  have hfirst : (a :: text ++ (texts ++ 0x22 :: rest)).head? ≠ some 0x22 := hhead
  rw [Nat.zero_add, characters, List.append_assoc, if_neg hfirst, hread]
  simp only [Option.bind_eq_bind, Option.bind_some]
  rw [hs rest fuel (by omega)]
  rfl

theorem isString_flatMap {f : UInt8 → Bytes} (h : ∀ c, IsCharacter (f c) [c]) : ∀ s : Bytes, IsString (s.flatMap f) s
  | [] => isString_nil
  | c :: s => by
    rw [List.flatMap_cons]
    exact IsString.cons (h c) (isString_flatMap h s)

def isPlain (c : UInt8) : Bool := c != 0x22 && c != 0x5c && 0x20 ≤ c

theorem isCharacter_plain {c : UInt8} (h : isPlain c = true) : IsCharacter [c] [c] := by
  simp only [isPlain, Bool.and_eq_true, bne_iff_ne, decide_eq_true_eq] at h
  obtain ⟨⟨hquote, hbackslash⟩, hcontrol⟩ := h
  refine ⟨List.cons_ne_nil c [], fun h => hquote (Option.some.inj h), fun rest => ?_⟩
  rw [List.singleton_append, character]
  · exact if_neg (not_or.2 ⟨hbackslash, UInt8.not_lt.2 hcontrol⟩)
  all_goals exact fun _ h => absurd h hbackslash

theorem isString_plain : ∀ {s : Bytes}, s.all isPlain = true → IsString s s
  | [], _ => isString_nil
  | c :: s, h => by
    rw [List.all_cons, Bool.and_eq_true] at h
    exact IsString.cons (isCharacter_plain h.1) (isString_plain h.2)

/-! ### Numbers -/

def decimal (n : Nat) : Bytes := if n = 0 then [0x30] else (Nat.digits 10 n).reverse.map fun d => UInt8.ofNat (0x30 + d)

def signed : Int → Bytes
  | .ofNat n => decimal n
  | .negSucc n => 0x2d :: decimal (n + 1)

theorem toNat_digit {d : Nat} (h : d < 10) : (UInt8.ofNat (0x30 + d)).toNat = 0x30 + d := by
  rw [UInt8.toNat_ofNat']
  omega

theorem decimal_pos {n : Nat} (h : 0 < n) : decimal n = (Nat.digits 10 n).reverse.map fun d => UInt8.ofNat (0x30 + d) :=
  if_neg (Nat.ne_of_gt h)

theorem decimal_length_le {n k : Nat} (hk : 0 < k) (h : n < 10 ^ k) : (decimal n).length ≤ k := by
  rcases Nat.eq_zero_or_pos n with rfl | hn
  · exact hk
  · rw [decimal_pos hn, List.length_map, List.length_reverse]
    exact (Nat.digits_length_le_iff (by decide) n).2 h

theorem lt_decimal_length {n k : Nat} (h : 10 ^ k ≤ n) : k < (decimal n).length := by
  have hn : 0 < n := Nat.lt_of_lt_of_le (Nat.pow_pos (by decide)) h
  rw [decimal_pos hn, List.length_map, List.length_reverse]
  exact (Nat.lt_digits_length_iff (by decide) n).2 h

theorem isDigit_decimal (n : Nat) : ∀ c ∈ decimal n, isDigit c = true := by
  intro c hc
  rcases Nat.eq_zero_or_pos n with rfl | hn
  · rw [List.mem_singleton.1 hc]
    decide
  · rw [decimal_pos hn, List.mem_map] at hc
    obtain ⟨d, hd, rfl⟩ := hc
    have hlt : d < 10 := Nat.digits_lt_base (by decide) (List.mem_reverse.1 hd)
    have hall : ∀ d < 10, isDigit (UInt8.ofNat (0x30 + d)) = true := by decide
    exact hall d hlt

theorem foldr_digits : ∀ {ds : List Nat}, (∀ d ∈ ds, d < 10) →
    (ds.map fun d => UInt8.ofNat (0x30 + d)).foldr (fun c n => 10 * n + (c.toNat - 0x30)) 0 = Nat.ofDigits 10 ds
  | [], _ => rfl
  | d :: ds, h => by
    rw [List.map_cons, List.foldr_cons, foldr_digits fun e he => h e (List.mem_cons_of_mem d he), Nat.ofDigits_cons,
      toNat_digit (h d List.mem_cons_self), Nat.add_sub_cancel_left, Nat.add_comm]

theorem natOf_decimal (n : Nat) : natOf (decimal n) = n := by
  rcases Nat.eq_zero_or_pos n with rfl | hn
  · rfl
  · rw [decimal_pos hn, natOf, List.map_reverse, List.foldl_reverse,
      foldr_digits fun d hd => Nat.digits_lt_base (by decide) hd, Nat.ofDigits_digits]

theorem head_decimal (n : Nat) : ¬((decimal n).head? = some 0x30 ∧ decimal n ≠ [0x30]) := by
  rintro ⟨hhead, hne⟩
  rcases Nat.eq_zero_or_pos n with rfl | hn
  · exact hne rfl
  · have hlast := Nat.getLast_digit_ne_zero 10 (Nat.ne_of_gt hn)
    have hdigits : Nat.digits 10 n ≠ [] := Nat.digits_ne_nil_iff_ne_zero.2 (Nat.ne_of_gt hn)
    have hlt : (Nat.digits 10 n).getLast hdigits < 10 := Nat.digits_lt_base (by decide) (List.getLast_mem hdigits)
    rw [decimal_pos hn, List.head?_map, List.head?_reverse, List.getLast?_eq_some_getLast hdigits, Option.map_some,
      Option.some.injEq] at hhead
    have hbyte := congrArg UInt8.toNat hhead
    rw [toNat_digit hlt] at hbyte
    exact hlast (Nat.add_left_cancel hbyte)

theorem decimal_ne_nil (n : Nat) : decimal n ≠ [] := by
  rcases Nat.eq_zero_or_pos n with rfl | hn
  · exact List.cons_ne_nil _ _
  · rw [decimal_pos hn, Ne, List.map_eq_nil_iff, List.reverse_eq_nil_iff]
    exact Nat.digits_ne_nil_iff_ne_zero.2 (Nat.ne_of_gt hn)

theorem digits_append {ds rest : Bytes} (hne : ds ≠ []) (hds : ∀ c ∈ ds, isDigit c = true) (hrest : Ends rest) :
    digits (ds ++ rest) = some (ds, rest) := by
  have htake : rest.takeWhile isDigit = [] := by
    cases rest with
    | nil => rfl
    | cons c rest => exact List.takeWhile_cons_of_neg (by rw [(hrest c rfl).1]; exact Bool.false_ne_true)
  have hdrop : rest.dropWhile isDigit = rest := by
    cases rest with
    | nil => rfl
    | cons c rest => exact List.dropWhile_cons_of_neg (by rw [(hrest c rfl).1]; exact Bool.false_ne_true)
  rw [digits, List.takeWhile_append_of_pos hds, List.dropWhile_append_of_pos hds, htake, hdrop, List.append_nil, if_neg hne]

theorem fraction_ends {rest : Bytes} (h : Ends rest) : fraction rest = some ([], rest) := by
  cases rest with
  | nil => rfl
  | cons c rest =>
    rw [fraction]
    exact fun _ hc => (h c rfl).2.1 (List.cons.inj hc).1

theorem exponent_ends {rest : Bytes} (h : Ends rest) : exponent rest = some (0, rest) := by
  cases rest with
  | nil => rfl
  | cons c rest => rw [exponent, if_neg (not_or.2 (h c rfl).2.2)]

theorem magnitude_decimal (n : Nat) {rest : Bytes} (h : Ends rest) : magnitude (decimal n ++ rest) = some (n, 0, rest) := by
  rw [magnitude, digits_append (decimal_ne_nil n) (isDigit_decimal n) h]
  simp only [Option.bind_eq_bind, Option.bind_some]
  rw [if_neg (head_decimal n), fraction_ends h, Option.bind_some, exponent_ends h, Option.bind_some, List.append_nil, natOf_decimal]
  rfl

theorem number_signed (i : Int) {rest : Bytes} (h : Ends rest) : number (signed i ++ rest) = some (.number i 0, rest) := by
  cases i with
  | negSucc n =>
    rw [signed, List.cons_append, number, magnitude_decimal (n + 1) h]
    rfl
  | ofNat n =>
    rw [signed, number, magnitude_decimal n h]
    · rfl
    · intro s hs
      obtain ⟨c, ds, hds⟩ := List.exists_cons_of_ne_nil (decimal_ne_nil n)
      have hc := isDigit_decimal n c (by rw [hds]; exact List.mem_cons_self)
      rw [hds, List.cons_append] at hs
      rw [(List.cons.inj hs).1] at hc
      exact absurd hc (by decide)

theorem signed_length_le {i : Int} (hlo : -2 ^ 63 ≤ i) (hhi : i < 2 ^ 64) : (signed i).length ≤ 20 := by
  cases i with
  | ofNat n => exact decimal_length_le (by decide) (by rw [Int.ofNat_eq_natCast] at hhi; omega)
  | negSucc n =>
    rw [signed, List.length_cons]
    have := decimal_length_le (n := n + 1) (k := 19) (by decide) (by rw [Int.negSucc_eq] at hlo; omega)
    omega

/-! ### Values -/

variable {ws ws' text texts : Bytes} {v : Value} {vs : List Value}

theorem IsValue.space (h : IsValue text v) (hws : Spaces ws) : IsValue (ws ++ text) v := by
  intro rest fuel hrest hfuel
  have hread := h rest fuel hrest ((List.length_append ▸ Nat.le_add_left text.length ws.length).trans hfuel)
  cases fuel with
  | zero => exact absurd hread (by rw [value]; exact nofun)
  | succ fuel =>
    rw [value] at hread ⊢
    rw [List.append_assoc, skipSpace_append hws]
    exact hread

theorem not_space {c : UInt8} (h : isDigit c = true ∨ c = 0x2d) : isSpace c = false := by
  rw [Bool.eq_false_iff]
  intro hc
  simp only [isSpace, Bool.or_eq_true, beq_iff_eq] at hc
  obtain ((rfl | rfl) | rfl) | rfl := hc <;> exact absurd h (by decide)

theorem value_number {c : UInt8} (h : isDigit c = true ∨ c = 0x2d) (fuel : Nat) (s : Bytes) :
    value (fuel + 1) (c :: s) = number (c :: s) := by
  rw [value, skipSpace_cons (not_space h)]
  split
  case h_7 => rfl
  all_goals
    rename_i hs
    rw [(List.cons.inj hs).1] at h
    exact absurd h (by decide)

theorem signed_cons (i : Int) : ∃ c s, signed i = c :: s ∧ (isDigit c = true ∨ c = 0x2d) := by
  cases i with
  | negSucc n => exact ⟨_, _, rfl, .inr rfl⟩
  | ofNat n =>
    obtain ⟨c, s, hs⟩ := List.exists_cons_of_ne_nil (decimal_ne_nil n)
    exact ⟨c, s, hs, .inl (isDigit_decimal n c (by rw [hs]; exact List.mem_cons_self))⟩

theorem isValue_int (i : Int) : IsValue (signed i) (.number i 0) := by
  intro rest fuel hrest hfuel
  have hnumber := number_signed i hrest
  obtain ⟨c, s, hs, hc⟩ := signed_cons i
  rw [hs] at hnumber hfuel ⊢
  obtain ⟨fuel, rfl⟩ := Nat.exists_eq_add_of_le' (Nat.le_of_add_left_le (List.length_cons ▸ hfuel))
  rw [← hnumber]
  exact value_number hc fuel _

theorem isValue_string {s : Bytes} (h : IsString text s) : IsValue (0x22 :: (text ++ [0x22])) (.string s) := by
  intro rest fuel _ hfuel
  rw [List.length_cons, List.length_append, List.length_singleton] at hfuel
  obtain ⟨fuel, rfl⟩ := Nat.exists_eq_add_of_le' (Nat.le_of_add_left_le hfuel)
  rw [List.cons_append, List.append_assoc, List.singleton_append, value, skipSpace_cons (by decide)]
  simp only
  rw [h rest fuel (by omega)]
  rfl

theorem isValue_array_nil (hws : Spaces ws) : IsValue (0x5b :: (ws ++ [0x5d])) (.array []) := by
  intro rest fuel _ hfuel
  obtain ⟨fuel, rfl⟩ := Nat.exists_eq_add_of_le' (Nat.le_of_add_left_le (List.length_cons ▸ hfuel))
  rw [List.cons_append, List.append_assoc, List.singleton_append, value, skipSpace_cons (by decide)]
  simp only
  rw [skipSpace_append hws, skipSpace_cons (by decide)]
  rfl

theorem isValue_array (h : IsElements text vs) : IsValue (0x5b :: text) (.array vs) := by
  intro rest fuel _ hfuel
  obtain ⟨⟨c, hfirst, hc⟩, hread⟩ := h
  obtain ⟨s, hs⟩ := hfirst.append rest
  rw [List.length_cons] at hfuel
  obtain ⟨fuel, rfl⟩ := Nat.exists_eq_add_of_le' (Nat.le_of_add_left_le hfuel)
  rw [List.cons_append, value, skipSpace_cons (by decide)]
  simp only
  rw [hs, List.head?_cons, if_neg fun h => hc (Option.some.inj h), hread rest fuel (by omega)]
  rfl

theorem isValue_object {ms : List (Bytes × Value)} (h : IsMembers text ms) : IsValue (0x7b :: text) (.object ms) := by
  intro rest fuel _ hfuel
  obtain ⟨hfirst, hread⟩ := h
  obtain ⟨s, hs⟩ := hfirst.append rest
  rw [List.length_cons] at hfuel
  obtain ⟨fuel, rfl⟩ := Nat.exists_eq_add_of_le' (Nat.le_of_add_left_le hfuel)
  rw [List.cons_append, value, skipSpace_cons (by decide)]
  simp only
  rw [hs, List.head?_cons, if_neg (by decide), hread rest fuel (by omega)]
  rfl

theorem IsValue.first (h : IsValue text v) : ∃ c, First text c ∧ c ≠ 0x5d := by
  have hread := h [] text.length nofun (Nat.le_refl _)
  rw [List.append_nil] at hread
  cases hlen : text.length with
  | zero =>
    rw [hlen, value] at hread
    exact nomatch hread
  | succ fuel =>
    rw [hlen, value] at hread
    cases hs : skipSpace text with
    | nil =>
      rw [hs] at hread
      exact nomatch hread
    | cons c s =>
      refine ⟨c, ⟨s, hs⟩, ?_⟩
      rintro rfl
      rw [hs] at hread
      exact nomatch hread

theorem isElements_last (h : IsValue text v) (hws : Spaces ws) : IsElements (text ++ (ws ++ [0x5d])) [v] := by
  obtain ⟨c, hfirst, hc⟩ := h.first
  refine ⟨⟨c, hfirst.append _, hc⟩, fun rest fuel hfuel => ?_⟩
  rw [List.length_append, List.length_append, List.length_singleton] at hfuel
  obtain ⟨fuel, rfl⟩ := Nat.exists_eq_add_of_le' (Nat.le_of_add_left_le (Nat.le_of_add_left_le hfuel))
  rw [List.append_assoc, List.append_assoc, List.singleton_append, elements,
    h _ fuel (ends_spaces hws (ends_cons (by decide) rest)) (by omega), Option.bind_eq_bind, Option.bind_some]
  simp only
  rw [skipSpace_append hws, skipSpace_cons (by decide)]
  rfl

theorem IsElements.cons (h : IsValue text v) (hws : Spaces ws) (hvs : IsElements texts vs) :
    IsElements (text ++ (ws ++ 0x2c :: texts)) (v :: vs) := by
  obtain ⟨c, hfirst, hc⟩ := h.first
  refine ⟨⟨c, hfirst.append _, hc⟩, fun rest fuel hfuel => ?_⟩
  rw [List.length_append, List.length_append, List.length_cons] at hfuel
  obtain ⟨fuel, rfl⟩ := Nat.exists_eq_add_of_le' (show 1 ≤ fuel by omega)
  rw [List.append_assoc, List.append_assoc, List.cons_append, elements,
    h _ fuel (ends_spaces hws (ends_cons (by decide) _)) (by omega), Option.bind_eq_bind, Option.bind_some]
  simp only
  rw [skipSpace_append hws, skipSpace_cons (by decide)]
  simp only
  rw [hvs.2 rest fuel (by omega)]
  rfl

section
variable {name names : Bytes} {ms : List (Bytes × Value)}

theorem members_name (hws : Spaces ws) (hname : IsString names name) (h : IsValue text v) (hws' : Spaces ws') {after : Bytes}
    {c : UInt8} (hends : isDigit c = false ∧ c ≠ 0x2e ∧ c ≠ 0x65 ∧ c ≠ 0x45) (hspace : isSpace c = false) {fuel : Nat}
    (hnames : names.length < fuel) (htext : text.length ≤ fuel) :
    members (fuel + 1) (ws ++ 0x22 :: (names ++ 0x22 :: 0x3a :: (text ++ (ws' ++ c :: after)))) =
      match c :: after with
      | 0x2c :: s => (members fuel s).map fun (ms, s) => ((name, v) :: ms, s)
      | 0x7d :: s => some ([(name, v)], s)
      | _ => none := by
  rw [members, skipSpace_append hws, skipSpace_cons (by decide)]
  simp only
  rw [hname _ fuel hnames, Option.bind_eq_bind, Option.bind_some]
  simp only
  rw [skipSpace_cons (by decide)]
  simp only
  rw [h _ fuel (ends_spaces hws' (ends_cons hends after)) htext, Option.bind_eq_bind, Option.bind_some]
  simp only
  rw [skipSpace_append hws', skipSpace_cons hspace]
  rfl

theorem isMembers_last (hws : Spaces ws) (hname : IsString names name) (h : IsValue text v) (hws' : Spaces ws') :
    IsMembers (ws ++ 0x22 :: (names ++ 0x22 :: 0x3a :: (text ++ (ws' ++ [0x7d])))) [(name, v)] := by
  refine ⟨first_spaces hws (by decide) _, fun rest fuel hfuel => ?_⟩
  simp only [List.length_append, List.length_cons, List.length_nil] at hfuel
  obtain ⟨fuel, rfl⟩ := Nat.exists_eq_add_of_le' (show 1 ≤ fuel by omega)
  simp only [List.append_assoc, List.cons_append, List.nil_append]
  exact members_name hws hname h hws' (by decide) (by decide) (by omega) (by omega)

theorem IsMembers.cons (hws : Spaces ws) (hname : IsString names name) (h : IsValue text v) (hws' : Spaces ws')
    (hms : IsMembers texts ms) :
    IsMembers (ws ++ 0x22 :: (names ++ 0x22 :: 0x3a :: (text ++ (ws' ++ 0x2c :: texts)))) ((name, v) :: ms) := by
  refine ⟨first_spaces hws (by decide) _, fun rest fuel hfuel => ?_⟩
  simp only [List.length_append, List.length_cons] at hfuel
  obtain ⟨fuel, rfl⟩ := Nat.exists_eq_add_of_le' (show 1 ≤ fuel by omega)
  simp only [List.append_assoc, List.cons_append]
  rw [members_name hws hname h hws' (by decide) (by decide) (by omega) (by omega)]
  simp only
  rw [hms.2 rest fuel (by omega)]
  rfl

end

/-! ### Pieces with commas between them -/

def IsMember (text : Bytes) (m : Bytes × Value) : Prop :=
  ∃ ws names value, Spaces ws ∧ IsString names m.1 ∧ IsValue value m.2 ∧ text = ws ++ 0x22 :: (names ++ 0x22 :: 0x3a :: value)

theorem isElements_pieces (hws : Spaces ws) : ∀ (p : Bytes × Value) (ps : List (Bytes × Value)), (∀ q ∈ p :: ps, IsValue q.1 q.2) →
    IsElements (p.1 ++ (ps.flatMap (fun q => 0x2c :: q.1) ++ (ws ++ [0x5d]))) ((p :: ps).map Prod.snd)
  | p, [], h => isElements_last (h p List.mem_cons_self) hws
  | p, q :: ps, h => by
    have hrest := isElements_pieces hws q ps fun r hr => h r (List.mem_cons_of_mem p hr)
    rw [List.flatMap_cons, List.cons_append, List.cons_append, List.append_assoc]
    exact IsElements.cons (h p List.mem_cons_self) spaces_nil hrest

theorem isMembers_pieces (hws : Spaces ws) : ∀ (p : Bytes × (Bytes × Value)) (ps : List (Bytes × (Bytes × Value))),
    (∀ q ∈ p :: ps, IsMember q.1 q.2) →
    IsMembers (p.1 ++ (ps.flatMap (fun q => 0x2c :: q.1) ++ (ws ++ [0x7d]))) ((p :: ps).map Prod.snd)
  | p, [], h => by
    obtain ⟨before, names, value, hbefore, hnames, hvalue, htext⟩ := h p List.mem_cons_self
    rw [htext]
    simp only [List.append_assoc, List.cons_append]
    exact isMembers_last hbefore hnames hvalue hws
  | p, q :: ps, h => by
    obtain ⟨before, names, value, hbefore, hnames, hvalue, htext⟩ := h p List.mem_cons_self
    have hrest := isMembers_pieces hws q ps fun r hr => h r (List.mem_cons_of_mem p hr)
    rw [htext, List.flatMap_cons]
    simp only [List.append_assoc, List.cons_append]
    exact IsMembers.cons hbefore hnames hvalue spaces_nil hrest

/-- **The text of a value is read as that value**, with any white space after it. -/
theorem IsValue.parse_append (h : IsValue text v) (hws : Spaces ws) : parse (text ++ ws) = some v := by
  have hends : Ends ws := by
    rw [← List.append_nil ws]
    exact ends_spaces hws nofun
  rw [Json.parse, h ws _ hends (List.length_append ▸ Nat.le_add_right text.length ws.length), Option.bind_eq_bind, Option.bind_some]
  simp only
  rw [if_pos (skipSpace_spaces hws)]

theorem IsValue.parse (h : IsValue text v) : parse text = some v := by
  have hparse := h.parse_append spaces_nil
  rwa [List.append_nil] at hparse

/-! ## What a value holds -/

def Value.field (name : Bytes) : Value → Option Value
  | .object ms => ms.lookup name
  | _ => none

def Value.int : Value → Option Int
  | .number i 0 => some i
  | _ => none

def Value.bytes : Value → Option Bytes
  | .string s => some s
  | _ => none

def Value.items : Value → Option (List Value)
  | .array vs => some vs
  | _ => none

end Json

import Lws.Table
import Mathlib.Logic.Function.Basic
/-!
# ParseArgs — the parser of form-urlencoded arguments (`lws_lib.c`)

`lws_parseargs` scans keys and values with one loop, decodes them with `lws_unescape_url` and stores them through the Lua stack.
`decode` and `argsTable` say what it computes by splitting at `&` and at the first `=`; an encoder of a finite map is its
inverse.
-/
namespace Lws

/-! ## Escapes -/

def hexDigit (c : UInt8) : Option UInt8 :=
  if 0x30 ≤ c ∧ c ≤ 0x39 then some (c - 0x30)
  else if 0x61 ≤ c ∧ c ≤ 0x66 then some (c - 0x61 + 10)
  else if 0x41 ≤ c ∧ c ≤ 0x46 then some (c - 0x41 + 10)
  else none

/-- The states of `lws_unescape_url`: outside an escape, at its first digit, at its second digit. -/
inductive UnescapeState where
  | plain
  | first
  | second

/-- The loop of `lws_unescape_url`; `before` has the bytes before `s`, the last one first. -/
def unescapeLoop : Nat → UnescapeState → UInt8 → Key → Key → Key → Option Key
  | 0, _, _, _, _, _ => none
  | _ + 1, .plain, _, _, [], d => some d
  | _ + 1, .first, _, _, [], d => some (d ++ [0x25])
  | _ + 1, .second, _, before, [], d => some (d ++ [0x25] ++ before.head?.toList)
  | fuel + 1, .plain, c, before, ch :: s, d =>
    if ch = 0x2b then unescapeLoop fuel .plain c (ch :: before) s (d ++ [0x20])
    else if ch = 0x25 then unescapeLoop fuel .first c (ch :: before) s d
    else unescapeLoop fuel .plain c (ch :: before) s (d ++ [ch])
  | fuel + 1, .first, c, before, ch :: s, d =>
    match hexDigit ch with
    | some x => unescapeLoop fuel .second (x * 16) (ch :: before) s d
    | none => unescapeLoop fuel .plain c before (ch :: s) (d ++ [0x25])
  | fuel + 1, .second, c, before, ch :: s, d =>
    match hexDigit ch with
    | some x => unescapeLoop fuel .plain c (ch :: before) s (d ++ [c + x])
    | none =>
      match before with
      | prev :: before => unescapeLoop fuel .plain c before (prev :: ch :: s) (d ++ [0x25])
      | [] => none

def lwsUnescapeUrl (src : Key) : Option Key := unescapeLoop (3 * src.length + 1) .plain 0 [] src []

/-! ## The parser -/

/-- The table that is built, as `lua_rawset` leaves it. -/
abbrev ArgTable := Key → Option Key

inductive LuaError where
  | argument (arg : Nat) (message : String)
  | error (message : String)
deriving DecidableEq

/-- `lua_rawset(L, -3)`, for a stack with the table below the strings of the list, the topmost first. -/
def luaRawset : List Key → ArgTable → Option (List Key × ArgTable)
  | [value, key], t => some ([], Function.update t key (some value))
  | _, _ => none

/-- The states of `lws_parseargs`: 0 in a key, and 1 in a value. -/
inductive ArgState where
  | key
  | value
deriving DecidableEq

/-- What `lws_parseargs` does with a token of length `n` on the stack, `c` being the byte after it. -/
def storeToken (n : Nat) (c : UInt8) : ArgState → List Key → ArgTable → Option (ArgState × List Key × ArgTable)
  | .key, stack, t =>
    if c = 0x3d then some (.value, stack, t)
    else if n > 0 then (luaRawset ([] :: stack) t).map fun r => (.key, r.1, r.2)
    else some (.key, stack.tail, t)
  | .value, stack, t => (luaRawset stack t).map fun r => (.key, r.1, r.2)

def tokenChar (state : ArgState) (c : UInt8) : Bool := c ≠ 0x26 && (state ≠ .key || c ≠ 0x3d)

/-- The second loop of `lws_parseargs`; the byte after the last one is zero, and the table is returned from the top of the
stack. -/
def parseLoop : Nat → ArgState → Key → List Key → ArgTable → Option ArgTable
  | 0, _, _, _, _ => none
  | fuel + 1, state, start, stack, t =>
    let token := start.takeWhile (tokenChar state)
    let pos := start.drop token.length
    match (if token.length > 0 then lwsUnescapeUrl token else some []) with
    | none => none
    | some s =>
      match storeToken token.length (pos.head?.getD 0) state (s :: stack) t with
      | none => none
      | some (state, stack, t) =>
        match pos with
        | [] => if stack = [] then some t else none
        | _ :: pos => parseLoop fuel state pos stack t

/-- The first loop of `lws_parseargs`: the number of fields, unless it exceeds `max_fields`. -/
def countFields (maxFields : Nat) : Nat → Key → Option Nat
  | nrec, [] => some nrec
  | nrec, c :: pos =>
    if c = 0x26 then (if nrec = maxFields then none else countFields maxFields (nrec + 1) pos)
    else countFields maxFields nrec pos

def lwsParseargsMaxFieldsDefault : Int := 255

def intMax : Int := 2147483647

/-- `lws_parseargs`, with its optional limit; none stands for a misuse of the stack. -/
def lwsParseargs (args : Key) (limit : Option Int) : Option (Except LuaError ArgTable) :=
  let limit := limit.getD lwsParseargsMaxFieldsDefault
  if ¬(limit > 0 ∧ limit ≤ intMax) then some (.error (.argument 2 "out of range"))
  else if args = [] then some (.ok fun _ => none)
  else
    match countFields limit.toNat 1 args with
    | none => some (.error (.error "too many fields"))
    | some _ => (parseLoop (args.length + 1) .key args [] fun _ => none).map .ok

/-! ## The format -/

def hexPair (h l : UInt8) : Option UInt8 := (hexDigit h).bind fun x => (hexDigit l).map fun y => x * 16 + y

def plusToSpace (c : UInt8) : UInt8 := if c = 0x2b then 0x20 else c

/-- A plus is a space, an escape with two hex digits is a byte, and anything else is itself. -/
def decode : Key → Key
  | c :: h :: l :: s =>
    match if c = 0x25 then hexPair h l else none with
    | some byte => byte :: decode s
    | none => plusToSpace c :: decode (h :: l :: s)
  | c :: s => plusToSpace c :: decode s
  | [] => []

def fieldPair (field : Key) : Option (Key × Key) :=
  if 0x3d ∈ field then
    some (decode (field.takeWhile fun c => c ≠ 0x3d), decode (field.dropWhile fun c => c ≠ 0x3d).tail)
  else if field ≠ [] then some (decode field, [])
  else none

def addField (t : ArgTable) (field : Key) : ArgTable :=
  match fieldPair field with
  | some (key, value) => Function.update t key (some value)
  | none => t

def argsTable (args : Key) : ArgTable := (args.splitOn 0x26).foldl addField fun _ => none

/-! ## An encoder -/

/-- The bytes with a meaning of their own: `%`, `&`, `+` and `=`. -/
def reserved : List UInt8 := [0x25, 0x26, 0x2b, 0x3d]

def hexChar (upper : Bool) (x : UInt8) : UInt8 := if x < 10 then 0x30 + x else if upper then 0x41 + (x - 10) else 0x61 + (x - 10)

def encodeByte (plain : UInt8 → Bool) (upper : Bool) (c : UInt8) : Key :=
  if plain c then [c] else [0x25, hexChar upper (c / 16), hexChar upper (c % 16)]

def encodeKey (plain : UInt8 → Bool) (upper : Bool) (key : Key) : Key := key.flatMap (encodeByte plain upper)

def encodePair (plain : UInt8 → Bool) (upper : Bool) (p : Key × Key) : Key :=
  encodeKey plain upper p.1 ++ 0x3d :: encodeKey plain upper p.2

def encodeArgs (plain : UInt8 → Bool) (upper : Bool) (pairs : List (Key × Key)) : Key :=
  [0x26].intercalate (pairs.map (encodePair plain upper))

/-! ## Decoding -/

theorem decode_plain {c : UInt8} (h : c ≠ 0x25) (s : Key) : decode (c :: s) = plusToSpace c :: decode s := by
  match s with
  | [] => rfl
  | [_] => rfl
  | _ :: _ :: _ => rw [decode, if_neg h]

theorem decode_pair {h l byte : UInt8} (hb : hexPair h l = some byte) (s : Key) :
    decode (0x25 :: h :: l :: s) = byte :: decode s := by
  rw [decode, if_pos rfl, hb]

theorem decode_incomplete {s : Key} (hs : ∀ h l rest, s = h :: l :: rest → hexPair h l = none) :
    decode (0x25 :: s) = 0x25 :: decode s := by
  match s with
  | [] => rfl
  | [_] => rfl
  | h :: l :: rest =>
    rw [decode, if_pos rfl, hs h l rest rfl]
    rfl

theorem hexDigit_literal {c x : UInt8} (h : hexDigit c = some x) : c ≠ 0x25 ∧ plusToSpace c = c := by
  refine ⟨?_, ?_⟩
  · rintro rfl
    exact absurd (h.symm.trans (by decide : hexDigit 0x25 = none)) (Option.some_ne_none x)
  · refine if_neg ?_
    rintro rfl
    exact absurd (h.symm.trans (by decide : hexDigit 0x2b = none)) (Option.some_ne_none x)

theorem decode_length (s : Key) : (decode s).length ≤ s.length := by
  fun_induction decode s with
  | case1 c h l s byte _ ih =>
    simp only [List.length_cons]
    omega
  | case2 c h l s _ ih =>
    simp only [List.length_cons] at ih ⊢
    omega
  | case3 c s _ ih =>
    simp only [List.length_cons]
    omega
  | case4 => exact le_rfl

theorem fieldPair_append {key : Key} (h : 0x3d ∉ key) (value : Key) :
    fieldPair (key ++ 0x3d :: value) = some (decode key, decode value) := by
  have hne : ∀ c ∈ key, decide (c ≠ 0x3d) = true := fun c hc => decide_eq_true fun he => h (he ▸ hc)
  rw [fieldPair, if_pos (List.mem_append_right _ List.mem_cons_self), List.takeWhile_append_of_pos hne,
    List.takeWhile_cons_of_neg (by decide), List.append_nil, List.dropWhile_append_of_pos hne,
    List.dropWhile_cons_of_neg (by decide), List.tail_cons]

/-- **The loop of `lws_unescape_url` decodes**, from each of its states. -/
theorem unescapeLoop_eq : ∀ fuel : Nat,
    (∀ c before s d, 3 * s.length < fuel → unescapeLoop fuel .plain c before s d = some (d ++ decode s)) ∧
    (∀ c before s d, 3 * s.length + 2 < fuel → unescapeLoop fuel .first c before s d = some (d ++ decode (0x25 :: s))) ∧
    ∀ h x before s d, hexDigit h = some x → 3 * s.length + 4 < fuel →
      unescapeLoop fuel .second (x * 16) (h :: before) s d = some (d ++ decode (0x25 :: h :: s))
  | 0 => ⟨fun _ _ _ _ h => absurd h (Nat.not_lt_zero _), fun _ _ _ _ h => absurd h (Nat.not_lt_zero _),
      fun _ _ _ _ _ _ h => absurd h (Nat.not_lt_zero _)⟩
  | fuel + 1 => by
    obtain ⟨hplain, hfirst, hsecond⟩ := unescapeLoop_eq fuel
    refine ⟨fun c before s d hfuel => ?_, fun c before s d hfuel => ?_, fun h x before s d hx hfuel => ?_⟩
    · cases s with
      | nil => rw [unescapeLoop, decode, List.append_nil]
      | cons ch s =>
        rw [List.length_cons] at hfuel
        rw [unescapeLoop]
        split
        · rename_i hplus
          rw [hplain _ _ _ _ (by omega), hplus, decode_plain (by decide), List.append_assoc]
          rfl
        · rename_i hplus
          split
          · rename_i hpercent
            rw [hfirst _ _ _ _ (by omega), hpercent]
          · rename_i hpercent
            rw [hplain _ _ _ _ (by omega), decode_plain hpercent, plusToSpace, if_neg hplus, List.append_assoc]
            rfl
    · cases s with
      | nil => rw [unescapeLoop]; rfl
      | cons ch s =>
        rw [List.length_cons] at hfuel
        rw [unescapeLoop]
        cases hch : hexDigit ch with
        | some x => exact hsecond ch x before s d hch (by omega)
        | none =>
          dsimp only
          rw [hplain _ _ _ _ (by rw [List.length_cons]; omega), decode_incomplete, List.append_assoc]
          · rfl
          · rintro _ l rest ⟨rfl, rfl⟩
            rw [hexPair, hch]
            rfl
    · obtain ⟨hpercent, hliteral⟩ := hexDigit_literal hx
      cases s with
      | nil =>
        rw [unescapeLoop, decode_incomplete (fun _ _ _ he => absurd he (by simp)), decode_plain hpercent, hliteral,
          List.append_assoc]
        rfl
      | cons ch s =>
        rw [List.length_cons] at hfuel
        rw [unescapeLoop]
        cases hch : hexDigit ch with
        | some y =>
          dsimp only
          rw [hplain _ _ _ _ (by omega), decode_pair (by rw [hexPair, hx, hch]; rfl), List.append_assoc]
          rfl
        | none =>
          dsimp only
          rw [hplain _ _ _ _ (by simp only [List.length_cons]; omega), decode_incomplete, List.append_assoc]
          · rfl
          · rintro _ _ rest ⟨rfl, rfl, rfl⟩
            rw [hexPair, hx, hch]
            rfl

theorem lwsUnescapeUrl_eq (src : Key) : lwsUnescapeUrl src = some (decode src) := by
  rw [lwsUnescapeUrl, (unescapeLoop_eq _).1 _ _ _ _ (Nat.lt_succ_self _), List.nil_append]

/-! ## Counting -/

theorem splitOn_length (a : UInt8) (args : Key) : (args.splitOn a).length = args.count a + 1 := by
  induction args with
  | nil => rfl
  | cons c args ih =>
    rw [List.splitOn_cons_eq_if_modifyHead, List.count_cons]
    by_cases hc : (c == a) = true
    · rw [if_pos hc, if_pos hc, List.length_cons, ih]
    · rw [if_neg hc, if_neg hc, List.length_modifyHead, ih, Nat.add_zero]

/-- **The first loop fails iff there are too many fields.** -/
theorem countFields_eq (maxFields : Nat) : ∀ (args : Key) (nrec : Nat), nrec ≤ maxFields →
    countFields maxFields nrec args = if maxFields < nrec + args.count 0x26 then none else some (nrec + args.count 0x26)
  | [], nrec, h => by
    rw [countFields, List.count_nil, Nat.add_zero, if_neg (Nat.not_lt.2 h)]
  | c :: args, nrec, h => by
    rw [countFields]
    by_cases hc : c = 0x26
    · rw [if_pos hc, hc, List.count_cons_self]
      by_cases hmax : nrec = maxFields
      · rw [if_pos hmax, if_pos (by omega)]
      · rw [if_neg hmax, countFields_eq maxFields args (nrec + 1) (by omega), Nat.add_right_comm, Nat.add_assoc]
    · rw [if_neg hc, countFields_eq maxFields args nrec h, List.count_cons_of_ne hc]

/-! ## Parsing -/

theorem token_decode (token : Key) : (if token.length > 0 then lwsUnescapeUrl token else some []) = some (decode token) := by
  split
  · exact lwsUnescapeUrl_eq token
  · rename_i h
    obtain rfl := List.length_eq_zero_iff.1 (Nat.eq_zero_of_not_pos h)
    rfl

theorem takeWhile_token {state : ArgState} {token after : Key} (htoken : ∀ c ∈ token, tokenChar state c = true)
    (hafter : after.takeWhile (tokenChar state) = []) : (token ++ after).takeWhile (tokenChar state) = token := by
  rw [List.takeWhile_append_of_pos htoken, hafter, List.append_nil]

def parseRest (fuel : Nat) (after : Key) (state : ArgState) (stack : List Key) (t : ArgTable) : Option ArgTable :=
  match after with
  | [] => if stack = [] then some t else none
  | _ :: pos => parseLoop fuel state pos stack t

theorem parseLoop_token {state : ArgState} {token after : Key} (htoken : ∀ c ∈ token, tokenChar state c = true)
    (hafter : after.takeWhile (tokenChar state) = []) (fuel : Nat) (stack : List Key) (t : ArgTable) :
    parseLoop (fuel + 1) state (token ++ after) stack t =
      (storeToken token.length (after.head?.getD 0) state (decode token :: stack) t).bind
        fun r => parseRest fuel after r.1 r.2.1 r.2.2 := by
  rw [parseLoop, takeWhile_token htoken hafter, List.drop_left, token_decode]
  dsimp only
  cases storeToken token.length (after.head?.getD 0) state (decode token :: stack) t with
  | none => rfl
  | some r => cases after <;> rfl

/-- What remains after a field: nothing, or `&` and the other fields. -/
def FieldEnd (after : Key) : Prop := after = [] ∨ ∃ rest, after = 0x26 :: rest

theorem FieldEnd.takeWhile {after : Key} (h : FieldEnd after) (state : ArgState) : after.takeWhile (tokenChar state) = [] := by
  obtain rfl | ⟨rest, rfl⟩ := h
  · rfl
  · exact List.takeWhile_cons_of_neg (by simp [tokenChar])

theorem FieldEnd.head {after : Key} (h : FieldEnd after) : after.head?.getD 0 ≠ 0x3d := by
  obtain rfl | ⟨rest, rfl⟩ := h
  · decide
  · exact (by decide : (0x26 : UInt8) ≠ 0x3d)

theorem tokenChar_key {token : Key} (hamp : 0x26 ∉ token) (heq : 0x3d ∉ token) : ∀ c ∈ token, tokenChar .key c = true := by
  intro c hc
  have h1 : c ≠ 0x26 := fun h => hamp (h ▸ hc)
  have h2 : c ≠ 0x3d := fun h => heq (h ▸ hc)
  simp [tokenChar, h1, h2]

theorem tokenChar_value {token : Key} (hamp : 0x26 ∉ token) : ∀ c ∈ token, tokenChar .value c = true := by
  intro c hc
  have h1 : c ≠ 0x26 := fun h => hamp (h ▸ hc)
  simp [tokenChar, h1]

/-- **A field without `=`** is a key with an empty value, or nothing. -/
theorem parseLoop_key {field after : Key} (hamp : 0x26 ∉ field) (heq : 0x3d ∉ field) (hafter : FieldEnd after) (fuel : Nat)
    (t : ArgTable) : parseLoop (fuel + 1) .key (field ++ after) [] t = parseRest fuel after .key [] (addField t field) := by
  rw [parseLoop_token (tokenChar_key hamp heq) (hafter.takeWhile _), storeToken, if_neg hafter.head, addField, fieldPair,
    if_neg heq]
  by_cases hfield : field = []
  · rw [if_neg (by rw [hfield]; exact Nat.lt_irrefl 0), if_neg (not_not.2 hfield)]
    rfl
  · rw [if_pos (List.length_pos_iff.2 hfield), if_pos hfield]
    rfl

/-- **A field with `=`** is a key and a value, from the first `=` on. -/
theorem parseLoop_pair {key value after : Key} (hkey : 0x26 ∉ key) (heq : 0x3d ∉ key) (hvalue : 0x26 ∉ value)
    (hafter : FieldEnd after) (fuel : Nat) (t : ArgTable) :
    parseLoop (fuel + 2) .key (key ++ 0x3d :: (value ++ after)) [] t =
      parseRest fuel after .key [] (addField t (key ++ 0x3d :: value)) := by
  rw [parseLoop_token (tokenChar_key hkey heq) (List.takeWhile_cons_of_neg (by decide)), List.head?_cons, Option.getD_some,
    storeToken, if_pos rfl, Option.bind_some]
  dsimp only [parseRest]
  rw [parseLoop_token (tokenChar_value hvalue) (hafter.takeWhile _), addField, fieldPair_append heq]
  rfl

theorem parseLoop_eq : ∀ (fuel : Nat) (args : Key) (t : ArgTable), args.length < fuel →
    parseLoop fuel .key args [] t = some ((args.splitOn 0x26).foldl addField t) := by
  intro fuel
  induction fuel using Nat.strong_induction_on with
  | _ fuel ih =>
    intro args t hfuel
    obtain ⟨field, after, rfl, hamp, hafter, hsplit⟩ : ∃ field after, args = field ++ after ∧ 0x26 ∉ field ∧ FieldEnd after ∧
        (args.splitOn 0x26 = field :: match after with
          | [] => []
          | _ :: rest => rest.splitOn 0x26) := by
      by_cases hmem : 0x26 ∈ args
      · obtain ⟨field, rest, rfl, hamp⟩ := List.eq_append_cons_of_mem hmem
        exact ⟨field, 0x26 :: rest, rfl, hamp, .inr ⟨rest, rfl⟩, List.splitOn_append_cons_self_of_not_mem hamp rest⟩
      · exact ⟨args, [], (List.append_nil args).symm, hmem, .inl rfl, List.splitOn_eq_singleton hmem⟩
    have hrest (fuel' : Nat) (hlt : fuel' < fuel) (hlen : after.length ≤ fuel') (t' : ArgTable) (ht' : t' = addField t field) :
        parseRest fuel' after .key [] t' = some (((field ++ after).splitOn 0x26).foldl addField t) := by
      rw [hsplit, List.foldl_cons, ← ht']
      cases after with
      | nil => rfl
      | cons c rest => exact ih fuel' hlt rest t' hlen
    rw [List.length_append] at hfuel
    by_cases heq : 0x3d ∈ field
    · obtain ⟨key, value, rfl, hkey⟩ := List.eq_append_cons_of_mem heq
      rw [List.length_append, List.length_cons] at hfuel
      obtain ⟨fuel, rfl⟩ : ∃ n, fuel = n + 2 := ⟨fuel - 2, by omega⟩
      rw [List.append_assoc, List.cons_append, parseLoop_pair (fun h => hamp (List.mem_append_left _ h)) hkey
        (fun h => hamp (List.mem_append_right _ (List.mem_cons_of_mem _ h))) hafter, ← List.cons_append, ← List.append_assoc]
      exact hrest fuel (by omega) (by omega) _ rfl
    · obtain ⟨fuel, rfl⟩ : ∃ n, fuel = n + 1 := ⟨fuel - 1, by omega⟩
      rw [parseLoop_key hamp heq hafter]
      exact hrest fuel (by omega) (by omega) _ rfl

/-- **`lws_parseargs` builds the table of the arguments**, unless there are too many fields. -/
theorem lwsParseargs_eq (args : Key) {limit : Option Int} (h1 : 0 < limit.getD lwsParseargsMaxFieldsDefault)
    (h2 : limit.getD lwsParseargsMaxFieldsDefault ≤ intMax) :
    lwsParseargs args limit = some
      (if args = [] then .ok fun _ => none
      else if limit.getD lwsParseargsMaxFieldsDefault < (args.splitOn 0x26).length then .error (.error "too many fields")
      else .ok (argsTable args)) := by
  rw [lwsParseargs]
  generalize limit.getD lwsParseargsMaxFieldsDefault = maxFields at h1 h2 ⊢
  rw [if_neg (not_not.2 ⟨h1, h2⟩)]
  by_cases hargs : args = []
  · rw [if_pos hargs, if_pos hargs]
  · rw [if_neg hargs, if_neg hargs, countFields_eq _ _ _ (by omega), splitOn_length]
    by_cases hmany : maxFields < ((args.count 0x26 + 1 : Nat) : Int)
    · rw [if_pos hmany, if_pos (by omega)]
    · rw [if_neg hmany, if_neg (by omega)]
      dsimp only
      rw [parseLoop_eq _ _ _ (Nat.lt_succ_self _)]
      rfl

/-! ## Encoding -/

theorem hexPair_hexChar (upper : Bool) (c : UInt8) : hexPair (hexChar upper (c / 16)) (hexChar upper (c % 16)) = some c := by
  have h : ∀ (upper : Bool) (n : Fin 256),
      hexPair (hexChar upper (UInt8.ofFin n / 16)) (hexChar upper (UInt8.ofFin n % 16)) = some (UInt8.ofFin n) := by
    decide +kernel
  exact h upper c.toFin

theorem hexChar_not_reserved (upper : Bool) (c : UInt8) :
    hexChar upper (c / 16) ∉ reserved ∧ hexChar upper (c % 16) ∉ reserved := by
  have h : ∀ (upper : Bool) (n : Fin 256),
      hexChar upper (UInt8.ofFin n / 16) ∉ reserved ∧ hexChar upper (UInt8.ofFin n % 16) ∉ reserved := by
    decide +kernel
  exact h upper c.toFin

section
variable {plain : UInt8 → Bool} (hplain : ∀ c ∈ reserved, plain c = false) (upper : Bool)
include hplain

theorem decode_encodeByte (c : UInt8) (s : Key) : decode (encodeByte plain upper c ++ s) = c :: decode s := by
  rw [encodeByte]
  split
  · rename_i hc
    have hne : ∀ c' ∈ reserved, c ≠ c' := fun c' hc' he => by
      rw [he, hplain c' hc'] at hc
      exact absurd hc (by decide)
    rw [List.singleton_append, decode_plain (hne 0x25 (by decide)), plusToSpace, if_neg (hne 0x2b (by decide))]
  · exact decode_pair (hexPair_hexChar upper c) s

theorem decode_encodeKey (key : Key) : decode (encodeKey plain upper key) = key := by
  induction key with
  | nil => rfl
  | cons c key ih =>
    rw [encodeKey, List.flatMap_cons, decode_encodeByte hplain]
    exact congrArg (c :: ·) ih

theorem encodeKey_separator {c : UInt8} (hc : c ∈ [0x26, 0x3d]) (key : Key) : c ∉ encodeKey plain upper key := by
  intro hmem
  obtain ⟨c', -, hmem⟩ := List.mem_flatMap.1 hmem
  have hreserved : c ∈ reserved := by
    rcases List.mem_pair.1 hc with rfl | rfl
    · decide
    · decide
  obtain ⟨hhigh, hlow⟩ := hexChar_not_reserved upper c'
  rw [encodeByte] at hmem
  split at hmem
  · rename_i hp
    rw [← List.mem_singleton.1 hmem, hplain c hreserved] at hp
    exact absurd hp (by decide)
  · simp only [List.mem_cons, List.not_mem_nil, or_false] at hmem
    rcases hmem with rfl | rfl | rfl
    · exact absurd hc (by decide)
    · exact hhigh hreserved
    · exact hlow hreserved

theorem fieldPair_encodePair (p : Key × Key) : fieldPair (encodePair plain upper p) = some p := by
  rw [encodePair, fieldPair_append (encodeKey_separator hplain upper (by decide) p.1), decode_encodeKey hplain,
    decode_encodeKey hplain]

theorem encodePair_separator (p : Key × Key) : 0x26 ∉ encodePair plain upper p := by
  have hsep := encodeKey_separator hplain upper (c := 0x26) (by decide)
  rw [encodePair, List.mem_append, List.mem_cons]
  rintro (h | h | h)
  · exact hsep p.1 h
  · exact absurd h (by decide)
  · exact hsep p.2 h

/-- **The fields of distinct keys** are a table of the pairs. -/
theorem addField_encodePairs : ∀ (pairs : List (Key × Key)) (t : ArgTable), (pairs.map Prod.fst).Nodup →
    (pairs.map (encodePair plain upper)).foldl addField t = fun key => (pairs.lookup key).or (t key)
  | [], t, _ => rfl
  | (key, value) :: pairs, t, hd => by
    rw [List.map_cons, List.nodup_cons] at hd
    rw [List.map_cons, List.foldl_cons, addField, fieldPair_encodePair hplain]
    dsimp only
    rw [addField_encodePairs pairs _ hd.2]
    funext key'
    rw [List.lookup_cons]
    by_cases hk : key' = key
    · subst hk
      have hnone : pairs.lookup key' = none := List.lookup_eq_none_iff.2 fun p hp => by
        simpa using fun he : key' = p.1 => hd.1 (List.mem_map.2 ⟨p, hp, he.symm⟩)
      rw [hnone, Function.update_self, beq_self_eq_true]
      rfl
    · rw [Function.update_of_ne hk, beq_false_of_ne hk]

theorem argsTable_encodeArgs {pairs : List (Key × Key)} (hd : (pairs.map Prod.fst).Nodup) (hne : pairs ≠ []) :
    ((encodeArgs plain upper pairs).splitOn 0x26).length = pairs.length ∧
      argsTable (encodeArgs plain upper pairs) = fun key => pairs.lookup key := by
  have hsplit : (encodeArgs plain upper pairs).splitOn 0x26 = pairs.map (encodePair plain upper) := by
    refine List.splitOn_intercalate 0x26 (fun field hfield => ?_) (by simpa using hne)
    obtain ⟨p, -, rfl⟩ := List.mem_map.1 hfield
    exact encodePair_separator hplain upper p
  refine ⟨by rw [hsplit, List.length_map], ?_⟩
  rw [argsTable, hsplit, addField_encodePairs hplain upper pairs _ hd]
  funext key
  exact Option.or_none

end

/-- **`lws.parseargs` decodes form-urlencoded arguments**: the table of the arguments, or an error iff they have too many fields;
and a finite map, encoded in any way that escapes the reserved bytes, comes back. -/
theorem parseargs_decodes (limit : Option Int) (h1 : 0 < limit.getD lwsParseargsMaxFieldsDefault)
    (h2 : limit.getD lwsParseargsMaxFieldsDefault ≤ intMax) :
    (∀ args, lwsParseargs args limit = some
      (if args = [] then .ok fun _ => none
      else if limit.getD lwsParseargsMaxFieldsDefault < (args.splitOn 0x26).length then .error (.error "too many fields")
      else .ok (argsTable args))) ∧
    ∀ (plain : UInt8 → Bool) (upper : Bool) (pairs : List (Key × Key)), (∀ c ∈ reserved, plain c = false) →
      (pairs.map Prod.fst).Nodup → pairs.length ≤ limit.getD lwsParseargsMaxFieldsDefault →
      lwsParseargs (encodeArgs plain upper pairs) limit = some (.ok fun key => pairs.lookup key) := by
  refine ⟨fun args => lwsParseargs_eq args h1 h2, fun plain upper pairs hplain hd hlen => ?_⟩
  rw [lwsParseargs_eq _ h1 h2]
  cases pairs with
  | nil => rfl
  | cons p pairs =>
    obtain ⟨hlength, htable⟩ := argsTable_encodeArgs hplain upper hd (List.cons_ne_nil p pairs)
    have hne : encodeArgs plain upper (p :: pairs) ≠ [] := by
      intro he
      have hmem := congrFun htable p.1
      rw [he, List.lookup_cons, beq_self_eq_true] at hmem
      exact absurd hmem (by simp [argsTable, addField, fieldPair])
    rw [if_neg hne, hlength, if_neg (by omega), htable]

/-- A repeated key, an empty key, a value with a further `=`, and one field too many. -/
theorem parseargs_decodes_repeated :
    let args : Key := "k=1&=%2b+%&k=a=b".toList.map fun c => c.toNat.toUInt8
    (∃ t, lwsParseargs args (some 3) = some (.ok t) ∧ t [0x6b] = some [0x61, 0x3d, 0x62] ∧ t [] = some [0x2b, 0x20, 0x25] ∧
      t [0x61] = none) ∧
    lwsParseargs args (some 2) = some (.error (.error "too many fields")) := by
  intro args
  refine ⟨⟨argsTable args, ?_, by decide +kernel, by decide +kernel, by decide +kernel⟩, ?_⟩
  · rw [(parseargs_decodes (some 3) (by decide) (by decide)).1, if_neg (by decide), if_neg (by decide +kernel)]
  · rw [(parseargs_decodes (some 2) (by decide) (by decide)).1, if_neg (by decide), if_pos (by decide +kernel)]

end Lws

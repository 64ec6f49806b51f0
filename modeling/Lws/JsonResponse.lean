import Lws.Framing
import Lws.Json
/-!
# JsonResponse — the JSON responses (`lws_monitor_content_handler`, `lws_send_json_error_response`)

`ngx_escape_json` is nginx's: what the responses rely on is that a call without a destination returns by how much the text is
longer than the bytes, and that the text stands for the bytes.  A buffer of the length that has been calculated is written, and
sent with a header that announces a length.
-/
namespace Lws

/-- What `ngx_escape_json` returns without a destination, and what it writes to one. -/
structure EscapesJson (extra : Key → Nat) (escape : Key → Key) : Prop where
  length (s : Key) : (escape s).length = s.length + extra s
  denotes (s : Key) : Json.IsString (escape s) s

/-! ## As nginx escapes -/

def escapedDigit (d : UInt8) : UInt8 := if d < 10 then 0x30 + d else 0x41 + (d - 10)

def escapedByte (c : UInt8) : Key :=
  if c ≤ 0x1f then
    if c = 0x0a then [0x5c, 0x6e]
    else if c = 0x0d then [0x5c, 0x72]
    else if c = 0x09 then [0x5c, 0x74]
    else if c = 0x08 then [0x5c, 0x62]
    else if c = 0x0c then [0x5c, 0x66]
    else [0x5c, 0x75, 0x30, 0x30, c / 16 + 0x30, escapedDigit (c % 16)]
  else if c = 0x5c ∨ c = 0x22 then [0x5c, c]
  else [c]

def escapedExtra (c : UInt8) : Nat :=
  if c = 0x5c ∨ c = 0x22 then 1
  else if c ≤ 0x1f then if c = 0x0a ∨ c = 0x0d ∨ c = 0x09 ∨ c = 0x08 ∨ c = 0x0c then 1 else 5
  else 0

def ngxEscapeJson (s : Key) : Key := s.flatMap escapedByte

def ngxEscapeJsonExtra (s : Key) : Nat := (s.map escapedExtra).sum

theorem escapedByte_length (c : UInt8) : (escapedByte c).length = 1 + escapedExtra c := by
  unfold escapedByte escapedExtra
  split_ifs <;> first | rfl | grind

theorem unicode_control : ∀ n < 0x20, Json.hexDigit (UInt8.ofNat n / 16 + 0x30) = some (n / 16) ∧
    Json.hexDigit (escapedDigit (UInt8.ofNat n % 16)) = some (n % 16) ∧
    String.utf8EncodeChar (Char.ofNat n) = [UInt8.ofNat n] := by
  decide

theorem character_control {c : UInt8} (h : c ≤ 0x1f) (rest : Key) :
    Json.character (0x5c :: 0x75 :: 0x30 :: 0x30 :: (c / 16 + 0x30) :: escapedDigit (c % 16) :: rest) = some ([c], rest) := by
  have hlt : c.toNat < 0x20 := Nat.lt_succ_of_le (UInt8.le_iff_toNat_le.1 h)
  obtain ⟨hhigh, hlow, hchar⟩ := unicode_control c.toNat hlt
  rw [UInt8.ofNat_toNat] at hhigh hlow hchar
  have hzero : Json.hexDigit 0x30 = some 0 := by decide
  have hcode : ((0 * 16 + 0) * 16 + c.toNat / 16) * 16 + c.toNat % 16 = c.toNat := by omega
  rw [Json.character, Json.unicode, Json.hex4, hzero, hhigh, hlow]
  simp only [Option.bind_eq_bind, Option.bind_some]
  rw [hcode, if_neg (by omega), if_neg (by omega), hchar]

theorem isCharacter_escaped (c : UInt8) : Json.IsCharacter (escapedByte c) [c] := by
  unfold escapedByte
  split_ifs with hcontrol h h h h h hquoted
  any_goals
    subst h
    exact ⟨List.cons_ne_nil _ _, by decide, fun rest => rfl⟩
  · exact ⟨List.cons_ne_nil _ _, by rw [List.head?_cons]; decide, character_control hcontrol⟩
  · refine ⟨List.cons_ne_nil _ _, by rw [List.head?_cons]; decide, fun rest => ?_⟩
    rcases hquoted with rfl | rfl <;> rfl
  · refine Json.isCharacter_plain ?_
    simp only [Json.isPlain, Bool.and_eq_true, bne_iff_ne, decide_eq_true_eq]
    have hlow : 0x1f < c := UInt8.not_le.1 hcontrol
    rw [not_or] at hquoted
    exact ⟨⟨hquoted.2, hquoted.1⟩, UInt8.le_iff_toNat_le.2 (UInt8.lt_iff_toNat_lt.1 hlow)⟩

theorem ngxEscapeJson_escapes : EscapesJson ngxEscapeJsonExtra ngxEscapeJson where
  length s := by
    induction s with
    | nil => rfl
    | cons c s ih =>
      rw [ngxEscapeJson, List.flatMap_cons, List.length_append, ← ngxEscapeJson, ih, escapedByte_length, ngxEscapeJsonExtra,
        ngxEscapeJsonExtra, List.map_cons, List.sum_cons, List.length_cons]
      omega
  denotes := Json.isString_flatMap isCharacter_escaped

def jsonLine (indent name value : Key) : Key := indent ++ 0x22 :: (name ++ 0x22 :: 0x3a :: 0x20 :: value)

theorem isMember_line {indent name value : Key} {v : Json.Value} (hindent : Json.Spaces indent) (hname : name.all Json.isPlain = true)
    (h : Json.IsValue value v) : Json.IsMember (jsonLine indent name value) (name, v) :=
  ⟨indent, name, 0x20 :: value, hindent, Json.isString_plain hname, h.space (by decide : Json.Spaces [0x20]), rfl⟩

/-! ## Sending -/

/-- The outcomes of `ngx_alloc_chain_link`, `ngx_calloc_buf`, `ngx_palloc`, `ngx_list_push`, `ngx_http_send_header` with the
`header_only` it leaves, and `ngx_http_output_filter`. -/
structure JsonCalls where
  chain : Bool := true
  buf : Bool := true
  palloc : Bool := true
  push : Bool := true
  sendHeader : Int := ngxOk
  headerOnly : Bool := false
  outputFilter : Int := ngxOk

structure JsonBuf where
  size : Nat
  bytes : Key
deriving DecidableEq

/-- The fields of `headers_out` that are set, and `Cache-Control`. -/
structure JsonHeader where
  status : Int
  contentType : Key
  cacheControl : Key
  contentLengthN : Nat
deriving DecidableEq

/-- A request that has been answered: the buffer that was written, the header and the buffer that were sent, and the result. -/
structure JsonEnd where
  buf : Option JsonBuf := none
  header : Option JsonHeader := none
  output : Option PageBuf := none
  rc : Int
deriving DecidableEq

/-- The parts of the two handlers that send the header and the body; `failed` is the result where the header has no memory. -/
def sendJson (a : JsonCalls) (main : Bool) (b : JsonBuf) (status : Int) (length : Nat) (failed : Int) : JsonEnd :=
  if a.push = false then { buf := some b, rc := failed }
  else
    let header : JsonHeader := ⟨status, literal "application/json", literal "private, no-store", length⟩
    if a.sendHeader = ngxError ∨ a.sendHeader > ngxOk ∨ a.headerOnly = true then
      { buf := some b, header := some header, rc := a.sendHeader }
    else { buf := some b, header := some header, output := some ⟨b.bytes, main, true⟩, rc := a.outputFilter }

/-- What has been written fits the buffer, and is what is announced and sent. -/
structure JsonEnd.Announced (x : JsonEnd) (b : JsonBuf) (status : Int) : Prop where
  fits : b.bytes.length ≤ b.size
  status : ∀ header, x.header = some header → header.status = status
  length : ∀ header, x.header = some header → header.contentLengthN = b.bytes.length
  sent : ∀ output, x.output = some output → output.bytes = b.bytes

theorem sendJson_buf (a : JsonCalls) (main : Bool) (b : JsonBuf) (status : Int) (length : Nat) (failed : Int) :
    (sendJson a main b status length failed).buf = some b := by
  unfold sendJson
  split_ifs <;> rfl

theorem sendJson_announced (a : JsonCalls) (main : Bool) {b : JsonBuf} (status : Int) {length : Nat} (failed : Int)
    (hfits : b.bytes.length ≤ b.size) (hlength : length = b.bytes.length) :
    (sendJson a main b status length failed).Announced b status := by
  unfold sendJson
  split_ifs
  · exact ⟨hfits, nofun, nofun, nofun⟩
  · refine ⟨hfits, ?_, ?_, nofun⟩ <;> rintro _ ⟨⟩
    · rfl
    · exact hlength
  · refine ⟨hfits, ?_, ?_, ?_⟩ <;> rintro _ ⟨⟩
    · rfl
    · exact hlength
    · rfl

end Lws

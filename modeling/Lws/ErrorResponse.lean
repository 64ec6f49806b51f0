import Lws.JsonResponse
/-!
# ErrorResponse — the JSON error response (`lws_send_error_response`, `lws_find_http_status`)

The length is added up from one list of templates and the text is written from another; the status has three digits because the
finalization handler sends no other (`respond_error`).
-/
namespace Lws

/-- `lws_http_status_t`, what an error response reads of it. -/
structure LwsHttpStatus where
  code : Nat
  message : Key
deriving DecidableEq

def lwsHttpStatus : List LwsHttpStatus := [
  ⟨100, literal "Continue"⟩, ⟨101, literal "Switching Protocols"⟩, ⟨102, literal "Processing"⟩,
  ⟨200, literal "OK"⟩, ⟨201, literal "Created"⟩, ⟨202, literal "Accepted"⟩, ⟨203, literal "Non-Authoritative Information"⟩,
  ⟨204, literal "No Content"⟩, ⟨205, literal "Reset Content"⟩, ⟨206, literal "Partial Content"⟩,
  ⟨300, literal "Multiple Choices"⟩, ⟨301, literal "Moved Permanently"⟩, ⟨302, literal "Found"⟩, ⟨303, literal "See Other"⟩,
  ⟨304, literal "Not Modified"⟩, ⟨305, literal "Use Proxy"⟩, ⟨307, literal "Temporary Redirect"⟩,
  ⟨308, literal "Permanent Redirect"⟩,
  ⟨400, literal "Bad Request"⟩, ⟨401, literal "Unauthorized"⟩, ⟨402, literal "Payment Required"⟩, ⟨403, literal "Forbidden"⟩,
  ⟨404, literal "Not Found"⟩, ⟨405, literal "Method Not Allowed"⟩, ⟨406, literal "Not Acceptable"⟩,
  ⟨407, literal "Proxy Authentication Required"⟩, ⟨408, literal "Request Timeout"⟩, ⟨409, literal "Conflict"⟩,
  ⟨410, literal "Gone"⟩, ⟨411, literal "Length Required"⟩, ⟨412, literal "Precondition Failed"⟩,
  ⟨413, literal "Content Too Large"⟩, ⟨413, literal "Request Entity Too Large"⟩, ⟨414, literal "URI Too Long"⟩,
  ⟨414, literal "Request URI Too Large"⟩, ⟨415, literal "Unsupported Media Type"⟩, ⟨416, literal "Range Not Satisfiable"⟩,
  ⟨417, literal "Expectation Failed"⟩, ⟨421, literal "Misdirected Request"⟩, ⟨422, literal "Unprocessable Content"⟩,
  ⟨426, literal "Upgrade Required"⟩, ⟨429, literal "Too Many Requests"⟩,
  ⟨500, literal "Internal Server Error"⟩, ⟨501, literal "Not Implemented"⟩, ⟨502, literal "Bad Gateway"⟩,
  ⟨503, literal "Service Unavailable"⟩, ⟨504, literal "Gateway Timeout"⟩, ⟨505, literal "HTTP Version Not Supported"⟩,
  ⟨507, literal "Insufficient Storage"⟩]

/-- `lws_find_http_status`; its loop is that of `lws_table_size`, over the codes. -/
def lwsFindHttpStatus (code : Int) : Option LwsHttpStatus :=
  let n := lwsHttpStatus.length
  let lower := sizeLoop (lwsHttpStatus.map LwsHttpStatus.code) code.toNat (n + 1) 0 (n - 1)
  lwsHttpStatus[lower.toNat]?.filter fun s => lower < n && (s.code : Int) = code

/-- `LWS_ER_JSON`, `LWS_ER_HTML`. -/
inductive LwsErrorResponse where
  | json
  | html
deriving DecidableEq

/-- The outcomes of the calls of `lws_send_json_error_response`; `diagnostic` is the copy of the diagnostic. -/
structure ErrorCalls extends JsonCalls where
  diagnostic : Bool := true

inductive ErrorEnd where
  | headerOnly (status : Int)
  | json (x : JsonEnd)
  | html (status : Int)
deriving DecidableEq

section
variable (extra : Key → Nat) (escape : Key → Key)

/-- `len` in `lws_send_json_error_response`. -/
def errorLength (status : Option LwsHttpStatus) (diaLen : Nat) : Nat :=
  let len := (literal "\x7b\n\t\"error\": \x7b\n\t\t\"code\": 100\n\t\x7d\n\x7d").length
  let len := match status with
    | some status => len + ((literal ",\n\t\t\"message\": \"\"").length + status.message.length)
    | none => len
  if diaLen ≠ 0 then len + ((literal ",\n\t\t\"diagnostic\": \"\"").length + diaLen) else len

/-- The text that `lws_send_json_error_response` writes; `%ui` of a status that is not negative. -/
def errorText (status : Option LwsHttpStatus) (dia : Key) (rc : Int) : Key :=
  literal "\x7b\n\t\"error\": \x7b" ++ (literal "\n\t\t\"code\": " ++ Json.decimal rc.toNat) ++
    (match status with
      | some status => literal ",\n\t\t\"message\": \"" ++ status.message ++ literal "\""
      | none => []) ++
    (if dia.length ≠ 0 then literal ",\n\t\t\"diagnostic\": \"" ++ dia ++ literal "\"" else []) ++
    literal "\n\t\x7d\n\x7d"

def lwsSendJsonErrorResponse (a : ErrorCalls) (main : Bool) (diagnostic : Key) (rc : Int) : JsonEnd :=
  let status := lwsFindHttpStatus rc
  let diaLen := if diagnostic.length ≠ 0 then diagnostic.length + extra diagnostic else 0
  if diagnostic.length ≠ 0 ∧ a.diagnostic = false then { rc := rc }
  else
    let dia := if diagnostic.length ≠ 0 then (escape diagnostic).take diaLen else []
    let len := errorLength status diaLen
    if a.chain = false ∨ a.buf = false ∨ a.palloc = false then { rc := rc }
    else sendJson a.toJsonCalls main ⟨len, errorText status dia rc⟩ rc len rc

def lwsSendErrorResponse (a : ErrorCalls) (main : Bool) (method : Nat) (conf : LwsErrorResponse) (diagnostic : Key) (rc : Int) :
    ErrorEnd :=
  if main = true ∧ (method = ngxHttpHead ∨ rc = 204 ∨ rc = 304) then .headerOnly rc
  else
    match conf with
    | .json => .json (lwsSendJsonErrorResponse extra escape a main diagnostic rc)
    | .html => .html rc

end

/-! ## The status -/

theorem respond_error {headers : Bool} {ctx : RequestCtx} {status : Int} (h : respond headers ctx = .error status) :
    100 ≤ status ∧ status < 600 := by
  unfold respond at h
  split_ifs at h with hneg hredirect hheaders hrc hrange
  · obtain rfl : 500 = status := Response.error.inj h
    decide
  · split at h
    · split at h <;> exact nomatch h
    · exact nomatch h
  · obtain rfl : ctx.rc = status := Response.error.inj h
    exact hrange
  · obtain rfl : 500 = status := Response.error.inj h
    decide

theorem lwsHttpStatus_sorted : (lwsHttpStatus.map LwsHttpStatus.code).Pairwise (· ≤ ·) := by decide

theorem lwsHttpStatus_plain : ∀ s ∈ lwsHttpStatus, s.message.all Json.isPlain = true := by decide +kernel

theorem code_getD {i : Nat} (hi : i < lwsHttpStatus.length) :
    (lwsHttpStatus.map LwsHttpStatus.code).getD i 0 = (lwsHttpStatus[i]).code := by
  rw [List.getD_eq_getElem _ _ (List.length_map LwsHttpStatus.code ▸ hi), List.getElem_map]

/-- **`lws_find_http_status` finds the first entry of the code**, and none only if there is none. -/
theorem lwsFindHttpStatus_eq (code : Int) : lwsFindHttpStatus code = lwsHttpStatus.find? fun s => (s.code : Int) = code := by
  have h := sizeLoop_search lwsHttpStatus_sorted (by decide) code.toNat
  unfold lwsFindHttpStatus
  dsimp only at h ⊢
  rw [List.length_map] at h
  generalize sizeLoop (lwsHttpStatus.map LwsHttpStatus.code) code.toNat (lwsHttpStatus.length + 1) 0 (lwsHttpStatus.length - 1) =
    lower at h ⊢
  have hsmall (i : Nat) (hi : i < lwsHttpStatus.length) (hlow : i < lower) : ((lwsHttpStatus[i]).code : Int) < code := by
    have := h.small i hlow
    rw [code_getD hi] at this
    omega
  by_cases hfound : ∃ hk : lower.toNat < lwsHttpStatus.length, ((lwsHttpStatus[lower.toNat]).code : Int) = code
  · obtain ⟨hk, hcode⟩ := hfound
    have hlt : lower < lwsHttpStatus.length := by omega
    rw [List.getElem?_eq_getElem hk, Option.filter_some, hcode, decide_eq_true hlt, decide_eq_true rfl, Bool.true_and, if_pos rfl,
      eq_comm, List.find?_eq_some_iff_getElem]
    refine ⟨decide_eq_true hcode, lower.toNat, hk, rfl, fun j hj => ?_⟩
    rw [Bool.not_eq_true', decide_eq_false_iff_not]
    exact ne_of_lt (hsmall j (hj.trans hk) (by omega))
  · have hnone : lwsHttpStatus.find? (fun s => (s.code : Int) = code) = none := by
      rw [List.find?_eq_none]
      intro s hs hcode
      obtain ⟨i, hi, rfl⟩ := List.getElem_of_mem hs
      rw [decide_eq_true_eq] at hcode
      have hle : lower ≤ i := Int.not_lt.1 fun hlow => ne_of_lt (hsmall i hi hlow) hcode
      have hk : lower.toNat < lwsHttpStatus.length := by omega
      have hlarge := h.large lower.toNat (by omega) (by rwa [List.length_map])
      have hmono := getD_le_of_sorted lwsHttpStatus_sorted (i := lower.toNat) (j := i) (by omega) (by rwa [List.length_map])
      rw [code_getD hk] at hlarge hmono
      rw [code_getD hi] at hmono
      exact hfound ⟨hk, by omega⟩
    rw [hnone, Option.filter_eq_none_iff]
    intro s hs hcode
    obtain ⟨hk, rfl⟩ := List.getElem?_eq_some_iff.1 hs
    rw [Bool.and_eq_true, decide_eq_true_eq, decide_eq_true_eq] at hcode
    exact hfound ⟨hk, hcode.2⟩

/-! ## The text -/

section
variable (status : Option LwsHttpStatus) (diagnostic dia : Key) (rc : Int)

/-- A member of `error`, with the line it is written as. -/
def errorPiece (name text : Key) (v : Json.Value) : Key × (Key × Json.Value) :=
  (jsonLine [0x0a, 0x09, 0x09] name text, (name, v))

def codePiece : Key × (Key × Json.Value) := errorPiece (literal "code") (Json.decimal rc.toNat) (.number rc 0)

def messagePieces : List (Key × (Key × Json.Value)) :=
  match status with
  | some status => [errorPiece (literal "message") (0x22 :: (status.message ++ [0x22])) (.string status.message)]
  | none => []

def diagnosticPieces : List (Key × (Key × Json.Value)) :=
  if dia.length ≠ 0 then [errorPiece (literal "diagnostic") (0x22 :: (dia ++ [0x22])) (.string diagnostic)] else []

theorem messagePieces_text : (messagePieces status).flatMap (fun q => 0x2c :: q.1) =
    match status with
    | some status => literal ",\n\t\t\"message\": \"" ++ status.message ++ literal "\""
    | none => [] := by
  cases status with
  | none => rfl
  | some status =>
    simp only [List.append_assoc]
    exact List.append_nil _

theorem diagnosticPieces_text : (diagnosticPieces diagnostic dia).flatMap (fun q => 0x2c :: q.1) =
    if dia.length ≠ 0 then literal ",\n\t\t\"diagnostic\": \"" ++ dia ++ literal "\"" else [] := by
  unfold diagnosticPieces
  split
  · rw [List.append_assoc]
    exact List.append_nil _
  · rfl

theorem errorText_eq :
    errorText status dia rc =
      0x7b :: (jsonLine [0x0a, 0x09] (literal "error") (0x7b :: ((codePiece rc).1 ++
        ((messagePieces status ++ diagnosticPieces diagnostic dia).flatMap (fun q => 0x2c :: q.1) ++ ([0x0a, 0x09] ++ [0x7d])))) ++
          ([0x0a] ++ [0x7d])) := by
  rw [List.flatMap_append, messagePieces_text, diagnosticPieces_text]
  unfold errorText
  simp only [jsonLine, codePiece, errorPiece, List.append_assoc, List.cons_append]
  rfl

/-- **The text has the length that has been added up**, for a status of three digits. -/
theorem errorText_length (hlo : 100 ≤ rc) (hhi : rc < 1000) : (errorText status dia rc).length = errorLength status dia.length := by
  have hcode : (Json.decimal rc.toNat).length = 3 :=
    le_antisymm (Json.decimal_length_le (by decide) (by omega)) (Json.lt_decimal_length (by omega))
  have hmessage : (literal ",\n\t\t\"message\": \"\"").length =
      (literal ",\n\t\t\"message\": \"").length + (literal "\"").length := by decide
  have hdiagnostic : (literal ",\n\t\t\"diagnostic\": \"\"").length =
      (literal ",\n\t\t\"diagnostic\": \"").length + (literal "\"").length := by decide
  have hrest : (literal "\x7b\n\t\"error\": \x7b\n\t\t\"code\": 100\n\t\x7d\n\x7d").length =
      (literal "\x7b\n\t\"error\": \x7b").length + ((literal "\n\t\t\"code\": ").length + 3) +
        (literal "\n\t\x7d\n\x7d").length := by decide
  unfold errorText errorLength
  simp only [List.length_append, hcode, hmessage, hdiagnostic, hrest]
  cases status <;> split_ifs <;> simp only [List.length_append, List.length_nil] <;> omega

def errorDocument : Json.Value :=
  .object [(literal "error", .object ((codePiece rc :: (messagePieces status ++ diagnosticPieces diagnostic dia)).map Prod.snd))]

variable {status diagnostic dia rc}

theorem isMember_errorPiece {name text : Key} {v : Json.Value} (hname : name.all Json.isPlain = true) (h : Json.IsValue text v) :
    Json.IsMember (errorPiece name text v).1 (errorPiece name text v).2 :=
  isMember_line (by decide) hname h

/-- **The text is read as the status, the message and the diagnostic.** -/
theorem parse_errorText (hrc : 0 ≤ rc) (hmessage : ∀ s, status = some s → s.message.all Json.isPlain = true)
    (hdia : Json.IsString dia diagnostic) : Json.parse (errorText status dia rc) = some (errorDocument status diagnostic dia rc) := by
  have hcode : Json.IsValue (Json.decimal rc.toNat) (.number rc 0) := by
    obtain ⟨n, rfl⟩ := Int.eq_ofNat_of_zero_le hrc
    exact Json.isValue_int n
  have hpieces : ∀ q ∈ codePiece rc :: (messagePieces status ++ diagnosticPieces diagnostic dia), Json.IsMember q.1 q.2 := by
    intro q hq
    rw [List.mem_cons, List.mem_append] at hq
    obtain rfl | hq | hq := hq
    · exact isMember_errorPiece (by decide) hcode
    · cases status with
      | none => exact nomatch hq
      | some s =>
        obtain rfl := List.mem_singleton.1 hq
        exact isMember_errorPiece (by decide) (Json.isValue_string (Json.isString_plain (hmessage s rfl)))
    · unfold diagnosticPieces at hq
      split_ifs at hq
      · obtain rfl := List.mem_singleton.1 hq
        exact isMember_errorPiece (by decide) (Json.isValue_string hdia)
      · exact nomatch hq
  have herror := Json.isValue_object (Json.isMembers_pieces (by decide : Json.Spaces [0x0a, 0x09]) _ _ hpieces)
  have hline := isMember_line (by decide : Json.Spaces [0x0a, 0x09]) (by decide : (literal "error").all Json.isPlain = true) herror
  have hdoc := Json.isValue_object (Json.isMembers_pieces (by decide : Json.Spaces [0x0a]) (_, (_, _)) []
    (fun q hq => by rw [List.mem_singleton.1 hq]; exact hline))
  rw [errorText_eq status diagnostic]
  exact hdoc.parse

theorem errorDocument_fields : ∃ error,
    (errorDocument status diagnostic dia rc).field (literal "error") = some error ∧
    error.field (literal "code") = some (.number rc 0) ∧
    error.field (literal "message") = status.map (fun status => .string status.message) ∧
    error.field (literal "diagnostic") = if dia.length ≠ 0 then some (.string diagnostic) else none := by
  refine ⟨_, rfl, rfl, ?_, ?_⟩
  · cases status with
    | none =>
      unfold messagePieces diagnosticPieces
      split_ifs <;> rfl
    | some status => rfl
  · unfold messagePieces diagnosticPieces
    cases status <;> split_ifs <;> rfl

end

/-! ## The response -/

theorem lwsSendJsonErrorResponse_eq {extra : Key → Nat} {escape : Key → Key} (h : EscapesJson extra escape) {a : ErrorCalls}
    (halloc : a.chain = true ∧ a.buf = true ∧ a.palloc = true ∧ a.diagnostic = true) (main : Bool) (diagnostic : Key) (rc : Int) :
    ∃ dia, (dia.length = 0 ↔ diagnostic = []) ∧ Json.IsString dia diagnostic ∧
      lwsSendJsonErrorResponse extra escape a main diagnostic rc =
        sendJson a.toJsonCalls main ⟨errorLength (lwsFindHttpStatus rc) dia.length, errorText (lwsFindHttpStatus rc) dia rc⟩ rc
          (errorLength (lwsFindHttpStatus rc) dia.length) rc := by
  obtain ⟨hchain, hbuf, hpalloc, hdiagnostic⟩ := halloc
  unfold lwsSendJsonErrorResponse
  dsimp only
  rw [hchain, hbuf, hpalloc, hdiagnostic]
  by_cases hempty : diagnostic = []
  · subst hempty
    exact ⟨[], iff_of_true rfl rfl, Json.isString_nil, rfl⟩
  · have hlen : diagnostic.length ≠ 0 := fun h => hempty (List.length_eq_zero_iff.1 h)
    refine ⟨escape diagnostic, iff_of_false ?_ hempty, h.denotes diagnostic, ?_⟩
    · rw [h.length]
      omega
    · rw [if_pos hlen, if_pos hlen, ← h.length, List.take_length, if_neg (by simp), if_neg (by simp)]

/-- **The JSON error response has the length that is allocated and announced, and is read as the status, the first message of the
status table for it, and the diagnostic.** -/
theorem json_error_response {extra : Key → Nat} {escape : Key → Key} (hescape : EscapesJson extra escape) {headers : Bool}
    {ctx : RequestCtx} {status : Int} (hrespond : respond headers ctx = .error status) {a : ErrorCalls}
    (halloc : a.chain = true ∧ a.buf = true ∧ a.palloc = true ∧ a.diagnostic = true) (main : Bool) (method : Nat)
    (conf : LwsErrorResponse) (diagnostic : Key) {x : JsonEnd}
    (hx : lwsSendErrorResponse extra escape a main method conf diagnostic status = .json x) :
    ∃ b, x.buf = some b ∧ b.bytes.length = b.size ∧ x.Announced b status ∧
      ∃ doc error, Json.parse b.bytes = some doc ∧ doc.field (literal "error") = some error ∧
        error.field (literal "code") = some (.number status 0) ∧
        error.field (literal "message") =
          (lwsHttpStatus.find? fun s => (s.code : Int) = status).map (fun s => .string s.message) ∧
        error.field (literal "diagnostic") = if diagnostic = [] then none else some (.string diagnostic) := by
  obtain ⟨hlo, hhi⟩ := respond_error hrespond
  obtain ⟨dia, hdia, hstring, heq⟩ := lwsSendJsonErrorResponse_eq hescape halloc main diagnostic status
  have hplain : ∀ s, lwsFindHttpStatus status = some s → s.message.all Json.isPlain = true := by
    intro s hs
    rw [lwsFindHttpStatus_eq] at hs
    exact lwsHttpStatus_plain s (List.mem_of_find?_eq_some hs)
  obtain rfl : lwsSendJsonErrorResponse extra escape a main diagnostic status = x := by
    unfold lwsSendErrorResponse at hx
    split_ifs at hx
    cases conf with
    | json => exact ErrorEnd.json.inj hx
    | html => exact nomatch hx
  have hlength := errorText_length (lwsFindHttpStatus status) dia status hlo (by omega)
  obtain ⟨error, herror, hcode, hmessage, hdiagnostic⟩ :=
    @errorDocument_fields (lwsFindHttpStatus status) diagnostic dia status
  rw [heq]
  refine ⟨_, sendJson_buf .., hlength, sendJson_announced _ _ _ _ (Nat.le_of_eq hlength) hlength.symm, _, error,
    parse_errorText (by omega) hplain hstring, herror, hcode, ?_, ?_⟩
  · rw [hmessage, lwsFindHttpStatus_eq]
  · rw [hdiagnostic]
    by_cases hempty : diagnostic = []
    · rw [if_neg (not_not.2 (hdia.2 hempty)), if_pos hempty]
    · rw [if_pos fun h => hempty (hdia.1 h), if_neg hempty]

/-- A status with two entries, and a diagnostic that is escaped. -/
theorem json_error_response_413 :
    ∃ x b doc error,
      lwsSendErrorResponse ngxEscapeJsonExtra ngxEscapeJson {} true 2 .json [0x22, 0x0a, 0x01] 413 = .json x ∧
      x.buf = some b ∧ b.bytes.length = b.size ∧ Json.parse b.bytes = some doc ∧ doc.field (literal "error") = some error ∧
      error.field (literal "message") = some (.string (literal "Content Too Large")) ∧
      error.field (literal "diagnostic") = some (.string [0x22, 0x0a, 0x01]) := by
  obtain ⟨b, hbuf, hlength, -, doc, error, hparse, herror, -, hmessage, hdiagnostic⟩ :=
    json_error_response (a := {}) ngxEscapeJson_escapes (rfl : respond true { rc := 413 } = .error 413) ⟨rfl, rfl, rfl, rfl⟩ true 2
      .json [0x22, 0x0a, 0x01] rfl
  exact ⟨_, b, doc, error, rfl, hbuf, hlength, hparse, herror, hmessage, hdiagnostic⟩

end Lws

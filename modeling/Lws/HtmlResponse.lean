import Lws.ErrorResponse
import Lws.Html
/-!
# HtmlResponse — the HTML error response (`lws_send_html_error_response`)

The page is sent from three buffers: a preamble, the diagnostic as `ngx_escape_html` writes it, and an epilogue.  What is relied on
of `ngx_escape_html` is that a call without a destination returns by how much the text is longer, and that the text stands for the
bytes.
-/
namespace Lws

/-- What `ngx_escape_html` returns without a destination, and what it writes to one. -/
structure EscapesHtml (extra : Key → Nat) (escape : Key → Key) : Prop where
  length (s : Key) : (escape s).length = s.length + extra s
  denotes (s : Key) : Html.IsText (escape s) s

/-! ## As nginx escapes -/

def escapedHtml (c : UInt8) : Key :=
  if c = 0x3c then literal "&lt;"
  else if c = 0x3e then literal "&gt;"
  else if c = 0x26 then literal "&amp;"
  else if c = 0x22 then literal "&quot;"
  else [c]

def escapedHtmlExtra (c : UInt8) : Nat :=
  if c = 0x3c then 3 else if c = 0x3e then 3 else if c = 0x26 then 4 else if c = 0x22 then 5 else 0

def ngxEscapeHtml (s : Key) : Key := s.flatMap escapedHtml

def ngxEscapeHtmlExtra (s : Key) : Nat := (s.map escapedHtmlExtra).sum

theorem escapedHtml_length (c : UInt8) : (escapedHtml c).length = 1 + escapedHtmlExtra c := by
  unfold escapedHtml escapedHtmlExtra
  split_ifs <;> rfl

theorem isText_escaped (c : UInt8) : Html.IsText (escapedHtml c) [c] := by
  unfold escapedHtml
  split_ifs with hlt hgt hamp hquot
  · subst hlt; decide
  · subst hgt; decide
  · subst hamp; decide
  · subst hquot; decide
  · exact Html.isText_plain fun c' hc => by
      obtain rfl := List.mem_singleton.1 hc
      exact ⟨hlt, hamp⟩

theorem ngxEscapeHtml_escapes : EscapesHtml ngxEscapeHtmlExtra ngxEscapeHtml where
  length s := by
    induction s with
    | nil => rfl
    | cons c s ih =>
      rw [ngxEscapeHtml, List.flatMap_cons, List.length_append, ← ngxEscapeHtml, ih, escapedHtml_length, ngxEscapeHtmlExtra,
        ngxEscapeHtmlExtra, List.map_cons, List.sum_cons, List.length_cons]
      omega
  denotes := Html.isText_flatMap isText_escaped

/-! ## The response -/

/-- The outcomes of the calls of `lws_send_html_error_response`: `ngx_palloc` of the diagnostic, `ngx_list_push`,
`ngx_http_send_header` with the `header_only` it leaves, the six allocations of the chain, and `ngx_http_output_filter`. -/
structure HtmlCalls where
  diagnostic : Bool := true
  push : Bool := true
  sendHeader : Int := ngxOk
  headerOnly : Bool := false
  chain : Bool := true
  outputFilter : Int := ngxOk

/-- The fields of `headers_out` that are set, and `Cache-Control`. -/
structure HtmlHeader where
  status : Int
  contentType : Key
  charset : Key
  cacheControl : Key
  contentLengthN : Nat
deriving DecidableEq

/-- A request that has been answered: the header and the buffers that were sent, and what the request is finalized with. -/
structure HtmlEnd where
  header : Option HtmlHeader := none
  output : Option (List PageBuf) := none
  rc : Int
deriving DecidableEq

def htmlHead : Key := literal "<!DOCTYPE HTML>\n<html>\n\t<head>\n\t\t<title>LWS "

def htmlStyle : Key :=
  literal " Error</title>\n\t\t<style>\n\t\t\thtml \x7b\n\t\t\t\tfont-family: system-ui, \"Segoe UI\", -apple-system, " ++
    literal "\"Liberation Sans\", Roboto, \"Helvetica Neue\", Arial, sans-serif;\n\t\t\t\x7d\n" ++
    literal "\t\t\tbody \x7b\n\t\t\t\tmax-width: 600px;\n\t\t\t\tmargin: 0 auto;\n\t\t\t\x7d\n\t\t</style>\n" ++
    literal "\t</head>\n\t<body>\n\t\t<h2>LWS "

/-- The preamble; `version` is `LUA_VERSION`. -/
def htmlPre (version : Key) : Key := htmlHead ++ version ++ htmlStyle ++ version ++ literal " Error</h2>\n\t\t<pre>"

def htmlEpi : Key := literal "</pre>\n\t</body>\n</html>"

def lwsSendHtmlErrorResponse (extra : Key → Nat) (escape : Key → Key) (version : Key) (a : HtmlCalls) (main : Bool)
    (diagnostic : Key) (rc : Int) : HtmlEnd :=
  if diagnostic.length = 0 then { rc := rc }
  else
    let pre := htmlPre version
    let epi := htmlEpi
    let len := diagnostic.length + extra diagnostic
    if a.diagnostic = false then { rc := rc }
    else
      let dia := (escape diagnostic).take len
      if a.push = false then { rc := rc }
      else
        let header : HtmlHeader :=
          ⟨rc, literal "text/html", literal "UTF-8", literal "private, no-store", pre.length + len + epi.length⟩
        if a.sendHeader = ngxError ∨ a.sendHeader > ngxOk ∨ a.headerOnly = true then { header := some header, rc := a.sendHeader }
        else if a.chain = false then { header := some header, rc := a.sendHeader }
        else
          { header := some header
            output := some [⟨pre, false, false⟩, ⟨dia, false, false⟩, ⟨epi, main, true⟩]
            rc := a.outputFilter }

/-! ## The page -/

def htmlTags : List Key :=
  ["!DOCTYPE HTML", "html", "head", "title", "/title", "style", "/style", "/head", "body", "h2", "/h2", "pre", "/pre", "/body",
    "/html"].map literal

theorem htmlHead_closed : (Html.scan .text htmlHead).1 = .text ∧ Html.Token.tag Html.pre ∉ (Html.scan .text htmlHead).2 ∧
    Html.tags (Html.scan .text htmlHead).2 = htmlTags.take 4 := by decide +kernel

theorem htmlStyle_closed : (Html.scan .text htmlStyle).1 = .text ∧ Html.Token.tag Html.pre ∉ (Html.scan .text htmlStyle).2 ∧
    Html.tags (Html.scan .text htmlStyle).2 = (htmlTags.drop 4).take 6 := by decide +kernel

/-- **The preamble is read as its tags and their text**, and opens `pre` last. -/
theorem htmlPre_markup {version : Key} (hversion : ∀ c ∈ version, c ≠ 0x3c ∧ c ≠ 0x26) : ∃ before,
    Html.IsMarkup (htmlPre version) (before ++ [.tag Html.pre]) ∧ Html.Token.tag Html.pre ∉ before ∧
      Html.tags before = htmlTags.take 11 := by
  have hversion := (Html.isText_plain hversion).markup
  obtain ⟨hhead, hheadPre, hheadTags⟩ := htmlHead_closed
  obtain ⟨hstyle, hstylePre, hstyleTags⟩ := htmlStyle_closed
  have hopen : Html.IsMarkup (literal " Error</h2>\n\t\t<pre>") ((Html.scan .text (literal " Error</h2>\n\t\t")).2 ++
    [.tag Html.pre]) := by decide
  have hpre := (((Html.isMarkup_of_closed hhead).append hversion).append (Html.isMarkup_of_closed hstyle)).append hversion
  have hpre := hpre.append hopen
  rw [← List.append_assoc] at hpre
  refine ⟨_, hpre, ?_, ?_⟩
  · have htext : Html.Token.tag Html.pre ∉ version.map .text := fun h => by
      obtain ⟨c, -, hc⟩ := List.mem_map.1 h
      cases hc
    simp only [List.mem_append, not_or]
    exact ⟨⟨⟨⟨hheadPre, htext⟩, hstylePre⟩, htext⟩, by decide⟩
  · simp only [Html.tags_append, Html.tags_text, List.append_nil, hheadTags, hstyleTags]
    decide

theorem htmlPre_plain {version : Key} (hversion : 0x0d ∉ version) : 0x0d ∉ htmlPre version := by
  have hhead : 0x0d ∉ htmlHead := by decide +kernel
  have hstyle : 0x0d ∉ htmlStyle := by decide +kernel
  simp only [htmlPre, List.mem_append, not_or]
  exact ⟨⟨⟨⟨hhead, hversion⟩, hstyle⟩, hversion⟩, by decide⟩

/-- **The page is read as the frame, with the diagnostic as the text of `pre`.** -/
theorem html_page {version dia diagnostic : Key} (hversion : ∀ c ∈ version, c ≠ 0x3c ∧ c ≠ 0x26 ∧ c ≠ 0x0d)
    (hdia : Html.IsText dia diagnostic) :
    Html.tags (Html.read (htmlPre version ++ dia ++ htmlEpi)) = htmlTags ∧
      Html.inside Html.pre (Html.read (htmlPre version ++ dia ++ htmlEpi)) = (Html.preText diagnostic).map .text := by
  obtain ⟨before, hpre, hnot, htags⟩ := htmlPre_markup fun c hc => ⟨(hversion c hc).1, (hversion c hc).2.1⟩
  have hepi : Html.IsMarkup htmlEpi (.tag (literal "/pre") :: (Html.scan .text (htmlEpi.drop 6)).2) := by decide
  have hplain : 0x0d ∉ htmlPre version := htmlPre_plain fun hmem => (hversion _ hmem).2.2 rfl
  have hnormalise : Html.normalise false (htmlPre version ++ dia ++ htmlEpi) =
      htmlPre version ++ Html.normalise false dia ++ htmlEpi := by
    rw [List.append_assoc, Html.normalise_append _ hplain, Html.normalise_append_of_head (by decide),
      Html.normalise_self (s := htmlEpi) (by decide), List.append_assoc]
  have htokens : Html.tokens (Html.normalise false (htmlPre version ++ dia ++ htmlEpi)) =
      before ++ .tag Html.pre :: ((Html.normalise false diagnostic).map .text ++
        .tag (literal "/pre") :: (Html.scan .text (htmlEpi.drop 6)).2) := by
    rw [hnormalise, ((hpre.append hdia.normalise.markup).append hepi).tokens]
    simp only [List.append_assoc, List.cons_append, List.nil_append]
  obtain ⟨hread, hinside⟩ := Html.read_pre hnot htokens
  refine ⟨?_, hinside⟩
  rw [hread, htags]
  decide

/-- **The HTML error response has the length that is announced, and a diagnostic is never markup**: for every diagnostic of a
request that ends in an error, without one the error is left to nginx; and the page that is sent for one has the tags of the frame
and no others, and as the text of `pre` what the diagnostic comes to there, which is the diagnostic itself where it has no CR and
no NUL and does not start with a line feed. -/
theorem html_error_response {extra : Key → Nat} {escape : Key → Key} (hescape : EscapesHtml extra escape) {version : Key}
    (hversion : ∀ c ∈ version, c ≠ 0x3c ∧ c ≠ 0x26 ∧ c ≠ 0x0d) {headers : Bool} {ctx : RequestCtx} {status : Int}
    (hrespond : respond headers ctx = .error status) {jsonExtra : Key → Nat} {jsonEscape : Key → Key} {json : ErrorCalls}
    {main : Bool} {method : Nat} {conf : LwsErrorResponse} {diagnostic : Key} {rc : Int}
    (hsend : lwsSendErrorResponse jsonExtra jsonEscape json main method conf diagnostic status = .html rc) (a : HtmlCalls) :
    let x := lwsSendHtmlErrorResponse extra escape version a main diagnostic rc
    (diagnostic = [] → x = { rc := status }) ∧
      (∀ header, x.header = some header → header.status = status ∧ 100 ≤ status ∧ status < 600) ∧
      ∀ bufs, x.output = some bufs → ∃ header, x.header = some header ∧
        header.contentLengthN = (bufs.map PageBuf.bytes).flatten.length ∧
        bufs.map PageBuf.lastBuf = [false, false, main] ∧ bufs.map PageBuf.lastInChain = [false, false, true] ∧
        Html.tags (Html.read (bufs.map PageBuf.bytes).flatten) = htmlTags ∧
        Html.inside Html.pre (Html.read (bufs.map PageBuf.bytes).flatten) = (Html.preText diagnostic).map .text ∧
        (0x0d ∉ diagnostic → 0 ∉ diagnostic → diagnostic.head? ≠ some 0x0a → Html.preText diagnostic = diagnostic) := by
  intro x
  obtain rfl : rc = status := by
    unfold lwsSendErrorResponse at hsend
    split_ifs at hsend
    cases conf with
    | json => cases hsend
    | html => exact (ErrorEnd.html.inj hsend).symm
  have hstatus := respond_error hrespond
  have hlen := hescape.length diagnostic
  have hpage := html_page hversion (hescape.denotes diagnostic)
  have hx : x = lwsSendHtmlErrorResponse extra escape version a main diagnostic rc := rfl
  clear_value x
  unfold lwsSendHtmlErrorResponse at hx
  dsimp only at hx
  rw [← hlen, List.take_length] at hx
  have hne : diagnostic.length ≠ 0 → ∀ {p : Prop}, diagnostic = [] → p := fun hlen _ h => absurd (h ▸ rfl) hlen
  split_ifs at hx with hempty hdiagnostic hpush hheader hchain
  · subst hx
    exact ⟨fun _ => rfl, fun _ h => (by cases h), fun _ h => (by cases h)⟩
  · subst hx
    exact ⟨hne hempty, fun _ h => (by cases h), fun _ h => (by cases h)⟩
  · subst hx
    exact ⟨hne hempty, fun _ h => (by cases h), fun _ h => (by cases h)⟩
  · subst hx
    exact ⟨hne hempty, fun _ h => (Option.some.inj h ▸ ⟨rfl, hstatus⟩), fun _ h => (by cases h)⟩
  · subst hx
    exact ⟨hne hempty, fun _ h => (Option.some.inj h ▸ ⟨rfl, hstatus⟩), fun _ h => (by cases h)⟩
  · subst hx
    refine ⟨hne hempty, fun _ h => (Option.some.inj h ▸ ⟨rfl, hstatus⟩), fun bufs h => ?_⟩
    obtain rfl := Option.some.inj h
    have hbytes : htmlPre version ++ (escape diagnostic ++ (htmlEpi ++ [])) = htmlPre version ++ escape diagnostic ++ htmlEpi := by
      rw [List.append_nil, List.append_assoc]
    refine ⟨_, rfl, ?_, rfl, rfl, ?_⟩
    · simp only [List.map_cons, List.map_nil, List.flatten_cons, List.flatten_nil, List.length_append, List.length_nil]
      omega
    · simp only [List.map_cons, List.map_nil, List.flatten_cons, List.flatten_nil]
      rw [hbytes]
      exact ⟨hpage.1, hpage.2, Html.preText_self⟩

/-- A diagnostic that would be a script, on its second line; the line feed before it is not shown. -/
theorem html_error_response_script : ∃ bufs,
    (lwsSendHtmlErrorResponse ngxEscapeHtmlExtra ngxEscapeHtml (literal "Lua 5.4") {} true (literal "\n<script>&lt;") 500).output =
      some bufs ∧
    Html.tags (Html.read (bufs.map PageBuf.bytes).flatten) = htmlTags ∧
    Html.inside Html.pre (Html.read (bufs.map PageBuf.bytes).flatten) = (literal "<script>&lt;").map .text := by
  have hsome : (lwsSendHtmlErrorResponse ngxEscapeHtmlExtra ngxEscapeHtml (literal "Lua 5.4") {} true (literal "\n<script>&lt;")
    500).output.isSome = true := by decide +kernel
  obtain ⟨bufs, hbufs⟩ := Option.isSome_iff_exists.1 hsome
  obtain ⟨header, -, -, -, -, htags, hinside, -⟩ := (html_error_response ngxEscapeHtml_escapes
    (by decide +kernel : ∀ c ∈ literal "Lua 5.4", c ≠ 0x3c ∧ c ≠ 0x26 ∧ c ≠ 0x0d)
    (rfl : respond true { rc := -1 } = .error 500)
    (rfl : lwsSendErrorResponse (fun _ => 0) id {} true 2 .html (literal "\n<script>&lt;") 500 = .html 500) {}).2.2 bufs hbufs
  have hpre : Html.preText (literal "\n<script>&lt;") = literal "<script>&lt;" := by decide +kernel
  exact ⟨bufs, hbufs, htags, hpre ▸ hinside⟩

end Lws

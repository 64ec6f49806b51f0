import Lws.TableMap
import Lws.Stream
/-!
# ResponseHeader — the response headers from Lua to nginx (`lws_lib.c`, `lws_module.c`)

Lua assigns to the table of the response headers, which ignores the case of names, and `lws_set_response_header` pushes its
entries onto the list of nginx.  `Sent` says what becomes of one name; the list is what becomes of the accepted names, in the
order in which each was first accepted.
-/
namespace Lws

variable {b : Build}

/-! ## Assignments -/

/-- `lws_lua_table_t`, over a table of strings. -/
structure LuaTable (b : Build) where
  t : Table b Key
  readonly : Bool := false

/-- An assignment to the table: a name or value is none if it is not a string, `alloc` says whether the value can be copied, and
`mem` whether the table can grow and copy the name. -/
structure HeaderAssign where
  key : Option Key
  value : Option Key
  now : Int := 0
  alloc : Bool := true
  mem : SetAlloc := {}

def lwsLuaTableNewindex (seed : BitVec b.bits) (a : HeaderAssign) (lt : LuaTable b) : LuaTable b × Outcome :=
  if lt.readonly then (lt, .error)
  else
    match a.key, a.value with
    | some key, some value =>
      if key.length = 0 then (lt, .error)
      else if !key.all headerNameChar then (lt, .error)
      else if value.any headerValueBad then (lt, .error)
      else if !a.alloc then (lt, .error)
      else
        let (t, rc) := tableSet seed lt.t key (some value) a.now a.mem
        if rc ≠ 0 then ({ lt with t := t }, .error) else ({ lt with t := t }, .ok)
    | _, _ => (lt, .error)

/-- What Lua does to the table; a flush of a streaming response makes it read-only. -/
inductive HeaderStep where
  | assign (a : HeaderAssign)
  | seal

/-- The steps one after the other, with the names and values of the assignments that raise no error. -/
def LuaTable.run (seed : BitVec b.bits) (lt : LuaTable b) : List HeaderStep → LuaTable b × List (Key × Key)
  | [] => (lt, [])
  | .assign a :: steps =>
    let (lt, outcome) := lwsLuaTableNewindex seed a lt
    let (lt, accepted) := LuaTable.run seed lt steps
    match outcome, a.key, a.value with
    | .ok, some key, some value => (lt, (key, value) :: accepted)
    | _, _, _ => (lt, accepted)
  | .seal :: steps => LuaTable.run seed { lt with readonly := true } steps

/-! ## Headers of nginx -/

/-- `lws_is_header`, for a key of the length of the literal. -/
def lwsIsHeader (key : Key) (s : String) : Bool :=
  key.length = (literal s).length && ngxStrncasecmp key (literal s) (literal s).length = 0

/-- The fields of `ngx_http_headers_out_t` that point to a header of the list. -/
inductive HeaderField where
  | date
  | etag
  | server
  | refresh
  | expires
  | location
  | lastModified
  | contentRange
  | acceptRanges
  | contentEncoding
  | wwwAuthenticate
deriving DecidableEq

/-- The field that `lws_set_response_header` sets for a header. -/
def headerField (key : Key) : Option HeaderField :=
  if lwsIsHeader key "Date" then some .date
  else if lwsIsHeader key "ETag" then some .etag
  else if lwsIsHeader key "Server" then some .server
  else if lwsIsHeader key "Refresh" then some .refresh
  else if lwsIsHeader key "Expires" then some .expires
  else if lwsIsHeader key "Location" then some .location
  else if lwsIsHeader key "Last-Modified" then some .lastModified
  else if lwsIsHeader key "Content-Range" then some .contentRange
  else if lwsIsHeader key "Accept-Ranges" then some .acceptRanges
  else if lwsIsHeader key "Content-Encoding" then some .contentEncoding
  else if lwsIsHeader key "WWW-Authenticate" then some .wwwAuthenticate
  else none

/-- `r->headers_out`: the list of headers, `content_type`, and the fields that are set, each with the index of its header. -/
structure HeadersOut where
  headers : List (Key × Key) := []
  contentType : Option Key := none
  fields : List (HeaderField × Nat) := []
deriving DecidableEq

/-- The inner loop for a folded `Set-Cookie`: how many bytes there are before the comma that ends a cookie. -/
def cookieLength : Bool → Key → Nat
  | _, [] => 0
  | expires, c :: rest =>
    if c = 0x3b then
      let vattr := rest.dropWhile fun c => c = 0x20 || c = 0x09
      cookieLength (vattr.length ≥ (literal "Expires=").length &&
        ngxStrncasecmp vattr (literal "Expires=") (literal "Expires=").length = 0) rest + 1
    else if c = 0x2c then if expires then cookieLength false rest + 1 else 0
    else cookieLength expires rest + 1

/-- The loop that unfolds a `Set-Cookie`, from `vstart` on; `push` says whether `ngx_list_push` succeeds for a list of a length.
`none` is `NGX_ERROR`. -/
def unfoldCookie (push : Nat → Bool) (key : Key) : Nat → Key → HeadersOut → Option HeadersOut
  | 0, _, _ => none
  | fuel + 1, vstart, out =>
    let n := cookieLength false vstart
    let out := { out with headers := out.headers ++ [(key, vstart.take n)] }
    if n = vstart.length then some out
    else
      let vstart := (vstart.drop (n + 1)).dropWhile fun c => c = 0x20
      if vstart = [] then some out
      else if !push out.headers.length then none
      else unfoldCookie push key fuel vstart out

/-- The loop of `lws_set_response_header`, for one entry. -/
def setHeader (push : Nat → Bool) (out : HeadersOut) (key value : Key) : Option HeadersOut :=
  if lwsIsHeader key "Content-Type" then some { out with contentType := some value }
  else if lwsIsHeader key "Content-Length" then some out
  else if lwsIsHeader key "Transfer-Encoding" then some out
  else if !push out.headers.length then none
  else
    let out := match headerField key with
      | some field => { out with fields := out.fields ++ [(field, out.headers.length)] }
      | none => out
    if lwsIsHeader key "Set-Cookie" then unfoldCookie push key (value.length + 1) value out
    else some { out with headers := out.headers ++ [(key, value)] }

/-- `lws_set_response_header`: a walk over the table; `none` is `NGX_ERROR`, or a NULL value. -/
def lwsSetResponseHeader (seed : BitVec b.bits) (push : Nat → Bool) (t : Table b Key) : Option HeadersOut :=
  match tableWalk seed t (t.count + 1) none with
  | none => none
  | some entries => entries.foldlM (fun out e => match e with
    | (_, none) => none
    | (key, some value) => setHeader push out key value) {}

/-! ## What is sent -/

abbrev SameName (key key' : Key) : Prop := foldKey true key = foldKey true key'

abbrev firstSpellings (names : List Key) : List Key := Keyed.firsts (foldKey true) names

def lastAccepted (accepted : List (Key × Key)) (key : Key) : Option Key :=
  (accepted.reverse.find? fun p => SameName p.1 key).map Prod.snd

def Sent (key value : Key) (headers : List (Key × Key)) : Prop :=
  if SameName key (literal "Content-Type") ∨ SameName key (literal "Content-Length") ∨
      SameName key (literal "Transfer-Encoding") then headers = []
  else if SameName key (literal "Set-Cookie") then
    ∃ slices : List Key, slices ≠ [] ∧ (∀ s ∈ slices, s <:+: value) ∧ headers = slices.map fun s => (key, s)
  else headers = [(key, value)]

/-- A name that `lws_lua_table_newindex` accepts. -/
def NameOk (key : Key) : Prop := key ≠ [] ∧ ∀ c ∈ key, headerNameChar c = true

def ValueOk (value : Key) : Prop := ∀ c ∈ value, (0x20 ≤ c ∨ c = 0x09) ∧ c ≠ 0x7f

/-! ## Accepted assignments -/

theorem NameOk.terminated {key : Key} (h : NameOk key) : Terminated key := fun h0 =>
  absurd (h.2 0 (List.dropLast_subset key h0)) (by decide)

theorem valueOk_iff (value : Key) : ValueOk value ↔ value.any headerValueBad = false := by
  simp only [ValueOk, headerValueBad, List.any_eq_false, Bool.or_eq_true, Bool.and_eq_true, decide_eq_true_eq, not_or, not_and,
    not_not]
  refine forall₂_congr fun c _ => and_congr_left fun _ => ?_
  rw [← UInt8.not_lt]
  tauto

section
variable {seed : BitVec b.bits} {lt : LuaTable b} {m : List (Key × Key)}

abbrev putHeader (m : List (Key × Key)) (p : Key × Key) : List (Key × Key) := OrdMap.put (foldKey true) m p.1 p.2

/-- **An assignment** raises an error and changes nothing, or its name and value are well-formed and put into the map. -/
theorem lwsLuaTableNewindex_spec (h : Refines seed lt.t m) (hci : lt.t.ci = true) (a : HeaderAssign) :
    (lwsLuaTableNewindex seed a lt).1.t.ci = true ∧ (lwsLuaTableNewindex seed a lt).1.readonly = lt.readonly ∧
    (((lwsLuaTableNewindex seed a lt).2 = .error ∧ Refines seed (lwsLuaTableNewindex seed a lt).1.t m) ∨
      ∃ key value, a.key = some key ∧ a.value = some value ∧ lt.readonly = false ∧ (lwsLuaTableNewindex seed a lt).2 = .ok ∧
        (NameOk key ∧ ValueOk value) ∧ Refines seed (lwsLuaTableNewindex seed a lt).1.t (putHeader m (key, value))) := by
  unfold lwsLuaTableNewindex
  by_cases hreadonly : lt.readonly = true
  · rw [if_pos hreadonly]
    exact ⟨hci, rfl, .inl ⟨rfl, h⟩⟩
  rw [if_neg hreadonly]
  split
  · rename_i key value hkey hvalue
    by_cases hlen : key.length = 0
    · rw [if_pos hlen]
      exact ⟨hci, rfl, .inl ⟨rfl, h⟩⟩
    rw [if_neg hlen]
    by_cases hname : (!key.all headerNameChar) = true
    · rw [if_pos hname]
      exact ⟨hci, rfl, .inl ⟨rfl, h⟩⟩
    rw [if_neg hname]
    by_cases hbad : value.any headerValueBad = true
    · rw [if_pos hbad]
      exact ⟨hci, rfl, .inl ⟨rfl, h⟩⟩
    rw [if_neg hbad]
    by_cases halloc : (!a.alloc) = true
    · rw [if_pos halloc]
      exact ⟨hci, rfl, .inl ⟨rfl, h⟩⟩
    rw [if_neg halloc]
    have hok : NameOk key := ⟨fun he => hlen (by rw [he]; rfl), by simpa using hname⟩
    have hvok : ValueOk value := (valueOk_iff value).2 (by simpa using hbad)
    obtain ⟨ho, hcase⟩ := h.set_any hok.terminated value a.now a.mem
    rw [hci] at hcase
    have hci' := (options_ci ho).trans hci
    generalize tableSet seed lt.t key (some value) a.now a.mem = r at hcase hci' ⊢
    obtain ⟨t, rc⟩ := r
    rcases hcase with ⟨hrc, hR⟩ | ⟨hrc, hR, -⟩
    · obtain rfl : rc = 0 := hrc
      exact ⟨hci', rfl, .inr ⟨key, value, hkey, hvalue, Bool.eq_false_of_not_eq_true hreadonly, rfl, ⟨hok, hvok⟩, hR⟩⟩
    · obtain rfl : rc = -1 := hrc
      dsimp only
      rw [if_pos (by decide)]
      exact ⟨hci', rfl, .inl ⟨rfl, hR⟩⟩
  · exact ⟨hci, rfl, .inl ⟨rfl, h⟩⟩

/-- **The headers of a streaming response are the map of such a table**: each assignment is a `tableNewindex`, with memory or
without. -/
theorem lwsLuaTableNewindex_streams {s : Stream} (h : Refines seed lt.t s.headers) (hci : lt.t.ci = true)
    (hreadonly : lt.readonly = s.readonly) (a : HeaderAssign) :
    ∃ mem, (tableNewindex a.key a.value mem s).2 = (lwsLuaTableNewindex seed a lt).2 ∧
      Refines seed (lwsLuaTableNewindex seed a lt).1.t (tableNewindex a.key a.value mem s).1.headers ∧
      (lwsLuaTableNewindex seed a lt).1.readonly = (tableNewindex a.key a.value mem s).1.readonly := by
  obtain ⟨-, hro, ⟨herror, hR⟩ | ⟨key, value, hkey, hvalue, hunsealed, hok, ⟨⟨hname, hchars⟩, hvalueOk⟩, hR⟩⟩ :=
    lwsLuaTableNewindex_spec h hci a
  · have hfails : tableNewindex a.key a.value false s = (s, .error) := by
      unfold tableNewindex
      split
      · rfl
      · split
        · simp
        · rfl
    refine ⟨false, ?_⟩
    rw [hfails, herror, hro, hreadonly]
    exact ⟨rfl, hR, rfl⟩
  · have hputs : tableNewindex a.key a.value true s = ({ s with headers := putHeader s.headers (key, value) }, .ok) := by
      unfold tableNewindex
      rw [hkey, hvalue, ← hreadonly, hunsealed, if_neg Bool.false_ne_true]
      dsimp only
      rw [if_neg (fun hlen => hname (List.length_eq_zero_iff.1 hlen)), if_neg (by simpa using hchars),
        if_neg (by rw [(valueOk_iff value).1 hvalueOk]; decide), if_neg (by decide)]
    refine ⟨true, ?_⟩
    rw [hputs, hok, hro, hreadonly]
    exact ⟨rfl, hR, rfl⟩

/-- **A run** puts what it accepts into the map, and accepts only well-formed names and values. -/
theorem LuaTable.run_spec : ∀ (steps : List HeaderStep) {lt : LuaTable b} {m : List (Key × Key)}, Refines seed lt.t m →
    lt.t.ci = true → (LuaTable.run seed lt steps).1.t.ci = true ∧
      (∀ p ∈ (LuaTable.run seed lt steps).2, NameOk p.1 ∧ ValueOk p.2) ∧
      Refines seed (LuaTable.run seed lt steps).1.t ((LuaTable.run seed lt steps).2.foldl putHeader m)
  | [], _, _, h, hci => ⟨hci, fun _ hp => (nomatch hp), h⟩
  | .seal :: steps, lt, m, h, hci => by
    rw [LuaTable.run]
    exact @LuaTable.run_spec steps { lt with readonly := true } m h hci
  | .assign a :: steps, lt, m, h, hci => by
    obtain ⟨hci', -, hcase⟩ := lwsLuaTableNewindex_spec h hci a
    rw [LuaTable.run]
    generalize lwsLuaTableNewindex seed a lt = r at hci' hcase ⊢
    obtain ⟨lt', outcome⟩ := r
    dsimp only at hci' hcase ⊢
    rcases hcase with ⟨rfl, hR⟩ | ⟨key, value, hkey, hvalue, -, rfl, hok, hR⟩
    · exact LuaTable.run_spec steps hR hci'
    · obtain ⟨hend, hall, hR⟩ := LuaTable.run_spec steps hR hci'
      rw [hkey, hvalue]
      exact ⟨hend, List.forall_mem_cons.2 ⟨hok, hall⟩, hR⟩

end

/-! ## The map of the headers -/

def headerMap (accepted : List (Key × Key)) : List (Key × Key) := accepted.foldl putHeader []

theorem headerMap_concat (accepted : List (Key × Key)) (p : Key × Key) :
    headerMap (accepted ++ [p]) = putHeader (headerMap accepted) p := by
  rw [headerMap, List.foldl_append]
  rfl

theorem headerMap_distinct (accepted : List (Key × Key)) : Keyed.Distinct (OrdMap.ident (foldKey true)) (headerMap accepted) := by
  induction accepted using List.reverseRecOn with
  | nil => exact List.Pairwise.nil
  | append_singleton accepted p ih =>
    rw [headerMap_concat]
    exact OrdMap.put_distinct ih p.1 p.2

theorem headerMap_get (accepted : List (Key × Key)) (key : Key) :
    OrdMap.get (foldKey true) (headerMap accepted) key = lastAccepted accepted key := by
  induction accepted using List.reverseRecOn with
  | nil => rfl
  | append_singleton accepted p ih =>
    rw [headerMap_concat, OrdMap.get_put (headerMap_distinct accepted), ih, lastAccepted, lastAccepted, List.reverse_append,
      List.reverse_singleton, List.singleton_append, List.find?_cons]
    by_cases hk : SameName p.1 key
    · rw [if_pos hk, decide_eq_true hk]
      rfl
    · rw [if_neg hk, decide_eq_false hk]

/-- **The map has the first spelling of each name, in order.** -/
theorem headerMap_keys (accepted : List (Key × Key)) :
    (headerMap accepted).map Prod.fst = firstSpellings (accepted.map Prod.fst) := by
  induction accepted using List.reverseRecOn with
  | nil => rfl
  | append_singleton accepted p ih =>
    rw [headerMap_concat, putHeader, OrdMap.put_keys, ih, List.map_append, List.map_singleton]
    exact (Keyed.firsts_concat _ _).symm

/-! ## The headers pushed for a name -/

/-- **The comparison with a literal** ignores the case of letters and nothing else. -/
theorem lwsIsHeader_iff {key : Key} (hkey : Terminated key) (s : String) : lwsIsHeader key s = true ↔ SameName key (literal s) := by
  rw [lwsIsHeader, Bool.and_eq_true, decide_eq_true_eq, decide_eq_true_eq]
  constructor
  · rintro ⟨hlen, hcmp⟩
    exact (ngxStrncasecmp_eq_zero hkey hlen).1 hcmp
  · intro hsame
    have hlen : key.length = (literal s).length := by
      have := congrArg List.length hsame
      simpa [foldKey] using this
    exact ⟨hlen, (ngxStrncasecmp_eq_zero hkey hlen).2 hsame⟩

/-- **A folded cookie** is pushed as slices of it, and at least one. -/
theorem unfoldCookie_spec (key : Key) : ∀ (fuel : Nat) (vstart : Key) (out : HeadersOut), vstart.length < fuel →
    ∃ slices : List Key, slices ≠ [] ∧ (∀ s ∈ slices, s <:+: vstart) ∧
      unfoldCookie (fun _ => true) key fuel vstart out =
        some { out with headers := out.headers ++ slices.map fun s => (key, s) }
  | 0, _, _, h => absurd h (Nat.not_lt_zero _)
  | fuel + 1, vstart, out, h => by
    rw [unfoldCookie]
    generalize cookieLength false vstart = n
    have hfirst : vstart.take n <:+: vstart := (List.take_prefix n vstart).isInfix
    have hsuffix : (vstart.drop (n + 1)).dropWhile (fun c => c = 0x20) <:+ vstart :=
      (List.dropWhile_suffix _).trans (List.drop_suffix _ _)
    dsimp only
    split
    · exact ⟨[vstart.take n], List.cons_ne_nil _ _, by simpa using hfirst, rfl⟩
    · split
      · exact ⟨[vstart.take n], List.cons_ne_nil _ _, by simpa using hfirst, rfl⟩
      · rename_i hne
        have hlt : ((vstart.drop (n + 1)).dropWhile fun c => c = 0x20).length < fuel := by
          have h1 := (List.dropWhile_suffix (fun c => decide (c = 0x20)) (l := vstart.drop (n + 1))).length_le
          have h2 := List.length_pos_iff.2 hne
          rw [List.length_drop] at h1
          omega
        obtain ⟨slices, -, hslices, heq⟩ := unfoldCookie_spec key fuel _
          { out with headers := out.headers ++ [(key, vstart.take n)] } hlt
        refine ⟨vstart.take n :: slices, List.cons_ne_nil _ _, ?_, ?_⟩
        · rw [List.forall_mem_cons]
          exact ⟨hfirst, fun s hs => (hslices s hs).trans hsuffix.isInfix⟩
        · rw [if_neg (by decide), heq, List.map_cons, List.append_assoc, List.singleton_append]

theorem cookie_pushed {key : Key} (h : SameName key (literal "Set-Cookie")) {s : String}
    (hs : (literal s).length ≠ (literal "Set-Cookie").length) : ¬SameName key (literal s) := by
  intro h'
  have hl := congrArg List.length (h'.symm.trans h)
  simp only [foldKey, if_true, List.length_map] at hl
  exact hs hl

theorem setHeader_cookie {key : Key} (hkey : Terminated key) (h : SameName key (literal "Set-Cookie")) (out : HeadersOut)
    (value : Key) : ∃ fields, setHeader (fun _ => true) out key value =
      unfoldCookie (fun _ => true) key (value.length + 1) value { out with fields := fields } := by
  have his := lwsIsHeader_iff hkey
  unfold setHeader
  simp only [his]
  rw [if_neg (cookie_pushed h (by decide)), if_neg (cookie_pushed h (by decide)), if_neg (cookie_pushed h (by decide)),
    if_neg (by decide), if_pos h]
  cases headerField key with
  | some field => exact ⟨_, rfl⟩
  | none => exact ⟨out.fields, rfl⟩

/-- **One entry of the table** adds what is sent for its name, and only `Content-Type` sets `content_type`. -/
theorem setHeader_spec {key : Key} (hkey : Terminated key) (out : HeadersOut) (value : Key) :
    ∃ headers fields, Sent key value headers ∧
      setHeader (fun _ => true) out key value = some { out with
        headers := out.headers ++ headers
        contentType := if SameName key (literal "Content-Type") then some value else out.contentType
        fields := fields } := by
  by_cases hcookie : SameName key (literal "Set-Cookie")
  · have htype := cookie_pushed hcookie (show (literal "Content-Type").length ≠ _ by decide)
    have hown : ¬(SameName key (literal "Content-Type") ∨ SameName key (literal "Content-Length") ∨
        SameName key (literal "Transfer-Encoding")) := by
      rw [not_or, not_or]
      exact ⟨htype, cookie_pushed hcookie (by decide), cookie_pushed hcookie (by decide)⟩
    obtain ⟨fields, hset⟩ := setHeader_cookie hkey hcookie out value
    obtain ⟨slices, hne, hslices, heq⟩ := unfoldCookie_spec key (value.length + 1) value { out with fields := fields }
      (Nat.lt_succ_self _)
    refine ⟨slices.map fun s => (key, s), fields, ?_, ?_⟩
    · rw [Sent, if_neg hown, if_pos hcookie]
      exact ⟨slices, hne, hslices, rfl⟩
    · rw [hset, heq, if_neg htype]
  have his := lwsIsHeader_iff hkey
  unfold setHeader Sent
  simp only [his]
  by_cases htype : SameName key (literal "Content-Type")
  · exact ⟨[], out.fields, by rw [if_pos (.inl htype)], by rw [if_pos htype, if_pos htype, List.append_nil]⟩
  rw [if_neg htype, if_neg htype]
  by_cases hlength : SameName key (literal "Content-Length")
  · exact ⟨[], out.fields, by rw [if_pos (.inr (.inl hlength))], by rw [if_pos hlength, List.append_nil]⟩
  rw [if_neg hlength]
  by_cases hencoding : SameName key (literal "Transfer-Encoding")
  · exact ⟨[], out.fields, by rw [if_pos (.inr (.inr hencoding))], by rw [if_pos hencoding, List.append_nil]⟩
  have hown : ¬(SameName key (literal "Content-Type") ∨ SameName key (literal "Content-Length") ∨
      SameName key (literal "Transfer-Encoding")) := by
    rw [not_or, not_or]
    exact ⟨htype, hlength, hencoding⟩
  rw [if_neg hencoding, if_neg (by decide)]
  simp only [if_neg hown, if_neg hcookie]
  obtain ⟨fields, hout⟩ : ∃ fields, (match headerField key with
      | some field => { out with fields := out.fields ++ [(field, out.headers.length)] }
      | none => out) = { out with fields := fields } := by
    cases headerField key with
    | some field => exact ⟨_, rfl⟩
    | none => exact ⟨out.fields, rfl⟩
  rw [hout]
  exact ⟨[(key, value)], fields, rfl, rfl⟩

theorem Sent.slice {key value : Key} {headers : List (Key × Key)} (h : Sent key value headers) :
    ∀ p ∈ headers, p.1 = key ∧ p.2 <:+: value ∧ ¬SameName key (literal "Content-Type") ∧
      ¬SameName key (literal "Content-Length") ∧ ¬SameName key (literal "Transfer-Encoding") := by
  unfold Sent at h
  by_cases hown : SameName key (literal "Content-Type") ∨ SameName key (literal "Content-Length") ∨
      SameName key (literal "Transfer-Encoding")
  · rw [if_pos hown] at h
    subst h
    exact fun _ hp => (nomatch hp)
  rw [if_neg hown] at h
  rw [not_or, not_or] at hown
  by_cases hcookie : SameName key (literal "Set-Cookie")
  · rw [if_pos hcookie] at h
    obtain ⟨slices, -, hslices, rfl⟩ := h
    intro p hp
    obtain ⟨s, hs, rfl⟩ := List.mem_map.1 hp
    exact ⟨rfl, hslices s hs, hown⟩
  · rw [if_neg hcookie] at h
    subst h
    intro p hp
    rw [List.mem_singleton.1 hp]
    exact ⟨rfl, List.infix_rfl, hown⟩

theorem Sent.of_parts {m : List (Key × Key)} {parts : List (List (Key × Key))}
    (h : List.Forall₂ (fun p headers => Sent p.1 p.2 headers) m parts) {header : Key × Key} (hh : header ∈ parts.flatten) :
    ∃ p ∈ m, ∃ headers, header ∈ headers ∧ Sent p.1 p.2 headers := by
  obtain ⟨headers, hheaders, hh⟩ := List.mem_flatten.1 hh
  obtain ⟨i, hi, rfl⟩ := List.getElem_of_mem hheaders
  have hlt : i < m.length := h.length_eq ▸ hi
  exact ⟨_, List.getElem_mem hlt, _, hh, h.get hlt hi⟩

/-! ## The headers of a table -/

/-- **The entries of a map** each add what is sent for them, in order. -/
theorem setHeaders_spec : ∀ (m : List (Key × Key)) (out : HeadersOut), (∀ p ∈ m, Terminated p.1) →
    Keyed.Distinct (OrdMap.ident (foldKey true)) m →
    ∃ parts fields, List.Forall₂ (fun p headers => Sent p.1 p.2 headers) m parts ∧
      m.foldlM (fun out p => setHeader (fun _ => true) out p.1 p.2) out = some { out with
        headers := out.headers ++ parts.flatten
        contentType := (OrdMap.get (foldKey true) m (literal "Content-Type")).or out.contentType
        fields := fields }
  | [], out, _, _ => ⟨[], out.fields, .nil, by rw [List.flatten_nil, List.append_nil]; rfl⟩
  | (key, value) :: m, out, hkeys, hd => by
    obtain ⟨hkey, hkeys⟩ := List.forall_mem_cons.1 hkeys
    obtain ⟨hfirst, hd⟩ := List.pairwise_cons.1 hd
    obtain ⟨headers, fields, hsent, hset⟩ := setHeader_spec hkey out value
    obtain ⟨parts, fields', hparts, hfold⟩ := setHeaders_spec m { out with
      headers := out.headers ++ headers
      contentType := if SameName key (literal "Content-Type") then some value else out.contentType
      fields := fields } hkeys hd
    refine ⟨headers :: parts, fields', .cons hsent hparts, ?_⟩
    rw [List.foldlM_cons, hset, Option.bind_eq_bind, Option.bind_some, hfold, List.flatten_cons, List.append_assoc]
    have htype : (OrdMap.get (foldKey true) m (literal "Content-Type")).or
        (if SameName key (literal "Content-Type") then some value else out.contentType) =
        (OrdMap.get (foldKey true) ((key, value) :: m) (literal "Content-Type")).or out.contentType := by
      unfold OrdMap.get Keyed.find
      rw [List.find?_cons]
      by_cases hk : SameName key (literal "Content-Type")
      · have hrest : m.find? (fun e => OrdMap.ident (foldKey true) e = foldKey true (literal "Content-Type")) = none :=
          Keyed.find_miss fun e he => hk ▸ (hfirst e he).symm
        rw [if_pos hk, hrest, show decide (OrdMap.ident (foldKey true) (key, value) = _) = true from decide_eq_true hk]
        rfl
      · rw [if_neg hk, show decide (OrdMap.ident (foldKey true) (key, value) = _) = false from decide_eq_false hk]
    rw [htype]

theorem Refines.setResponseHeader {seed : BitVec b.bits} {t : Table b Key} {m : List (Key × Key)} (h : Refines seed t m)
    (push : Nat → Bool) :
    lwsSetResponseHeader seed push t = m.foldlM (fun out p => setHeader push out p.1 p.2) {} := by
  rw [lwsSetResponseHeader, h.walk (t.count + 1) (by rw [h.count]; exact Nat.lt_succ_self _)]
  dsimp only
  rw [List.foldlM_map]

theorem headerMap_ok {accepted : List (Key × Key)} (h : ∀ p ∈ accepted, NameOk p.1 ∧ ValueOk p.2) :
    ∀ p ∈ headerMap accepted, NameOk p.1 ∧ ValueOk p.2 := by
  intro p hp
  have hkey : p.1 ∈ accepted.map Prod.fst :=
    Keyed.firsts_subset _ (headerMap_keys accepted ▸ List.mem_map_of_mem hp)
  have hvalue : lastAccepted accepted p.1 = some p.2 := by
    rw [← headerMap_get]
    exact OrdMap.get_mem (headerMap_distinct accepted) hp
  obtain ⟨q, hq, hqkey⟩ := List.mem_map.1 hkey
  obtain ⟨q', hfind, hqvalue⟩ := Option.map_eq_some_iff.1 hvalue
  have hq' : q' ∈ accepted := List.mem_reverse.1 (List.mem_of_find?_eq_some hfind)
  exact ⟨hqkey ▸ (h q hq).1, hqvalue ▸ (h q' hq').2⟩

theorem headerMap_sent {accepted : List (Key × Key)} {parts : List (List (Key × Key))}
    (h : List.Forall₂ (fun p headers => Sent p.1 p.2 headers) (headerMap accepted) parts) :
    List.Forall₂ (fun key headers => ∃ value, lastAccepted accepted key = some value ∧ Sent key value headers)
      (firstSpellings (accepted.map Prod.fst)) parts := by
  rw [← headerMap_keys, List.forall₂_map_left_iff]
  rw [List.forall₂_iff_zip] at h ⊢
  refine ⟨h.1, fun {p headers} hp => ⟨p.2, ?_, h.2 hp⟩⟩
  rw [← headerMap_get]
  exact OrdMap.get_mem (headerMap_distinct accepted) (List.of_mem_zip hp).1

/-- **Response headers are not injected**: after any assignments, the headers pushed are well-formed and none of the three that
nginx sends itself; `content_type` is the last one accepted; every other name is sent in order of first acceptance, in its first
spelling and with the value last accepted, once, or for a cookie in slices; and a rejected assignment changes none of it. -/
theorem response_headers_are_not_injected (seed : BitVec b.bits) {t : Table b Key}
    (hcreate : tableCreate b Key 8 true true = some t) (steps : List HeaderStep) :
    let r := LuaTable.run seed { t := tableConfigure t true true true } steps
    let names := r.2.map Prod.fst
    (∃ out parts, lwsSetResponseHeader seed (fun _ => true) r.1.t = some out ∧
      (∀ h ∈ out.headers, NameOk h.1 ∧ ValueOk h.2 ∧ ¬SameName h.1 (literal "Content-Type") ∧
        ¬SameName h.1 (literal "Content-Length") ∧ ¬SameName h.1 (literal "Transfer-Encoding")) ∧
      out.contentType = lastAccepted r.2 (literal "Content-Type") ∧
      out.headers = parts.flatten ∧
      List.Forall₂ (fun key headers => ∃ value, lastAccepted r.2 key = some value ∧ Sent key value headers)
        (firstSpellings names) parts) ∧
    (firstSpellings names).Pairwise (fun key key' => ¬SameName key key') ∧
    (∀ key ∈ names, ∃ key' ∈ firstSpellings names, SameName key' key) ∧
    ∀ a, (lwsLuaTableNewindex seed a r.1).2 = .error →
      lwsSetResponseHeader seed (fun _ => true) (lwsLuaTableNewindex seed a r.1).1.t =
        lwsSetResponseHeader seed (fun _ => true) r.1.t := by
  intro r names
  obtain ⟨h0, hci0⟩ := refines_create seed hcreate true true true
  obtain ⟨hci, haccepted, hR⟩ := @LuaTable.run_spec b seed steps { t := tableConfigure t true true true } [] h0 hci0
  have hok := headerMap_ok haccepted
  obtain ⟨parts, fields, hparts, hset⟩ :=
    setHeaders_spec (headerMap r.2) {} (fun p hp => (hok p hp).1.terminated) (headerMap_distinct r.2)
  rw [List.nil_append, Option.or_none, headerMap_get] at hset
  refine ⟨⟨_, parts, (hR.setResponseHeader _).trans hset, ?_, rfl, rfl, headerMap_sent hparts⟩, Keyed.firsts_distinct names,
    Keyed.firsts_covers names, fun a herror => ?_⟩
  · intro h hh
    obtain ⟨p, hp, headers, hh, hsent⟩ := Sent.of_parts hparts hh
    obtain ⟨hname, hslice, hown⟩ := hsent.slice h hh
    rw [hname]
    exact ⟨(hok p hp).1, fun c hc => (hok p hp).2 c (hslice.subset hc), hown⟩
  · rcases (lwsLuaTableNewindex_spec hR hci a).2.2 with ⟨-, hR'⟩ | ⟨_, _, -, -, -, hok, -⟩
    · rw [hR'.setResponseHeader, hR.setResponseHeader]
    · rw [herror] at hok
      exact absurd hok (by decide)

/-- A value with a line feed is rejected; one name in two spellings, a folded cookie, and two names that are not pushed. -/
theorem response_headers_are_not_injected_folded :
    let steps := [("A", "1\nB: 2"), ("X", "1"), ("Set-Cookie", "a=1, b=2; Expires=Mon, 1"), ("x", "2"), ("content-length", "5"),
      ("CONTENT-TYPE", "t")].map fun p => HeaderStep.assign { key := some (literal p.1), value := some (literal p.2) }
    ∃ t out, tableCreate .b64 Key 8 true true = some t ∧
      lwsSetResponseHeader (b := .b64) 7 (fun _ => true)
        (LuaTable.run 7 { t := tableConfigure t true true true } steps).1.t = some out ∧
      out.headers = [("X", "2"), ("Set-Cookie", "a=1"), ("Set-Cookie", "b=2; Expires=Mon, 1")].map
        (fun p => (literal p.1, literal p.2)) ∧
      out.contentType = some (literal "t") ∧ ∀ h ∈ out.headers, NameOk h.1 ∧ ValueOk h.2 := by
  intro steps
  have hrun : (tableCreate .b64 Key 8 true true).map (fun t =>
      (lwsSetResponseHeader (b := .b64) 7 (fun _ => true)
        (LuaTable.run 7 { t := tableConfigure t true true true } steps).1.t).map fun out => (out.headers, out.contentType)) =
      some (some ([("X", "2"), ("Set-Cookie", "a=1"), ("Set-Cookie", "b=2; Expires=Mon, 1")].map
        (fun p => (literal p.1, literal p.2)), some (literal "t"))) := by
    decide +kernel
  obtain ⟨t, ht, hrun⟩ := Option.map_eq_some_iff.1 hrun
  obtain ⟨⟨out, parts, hout, hok, -⟩, -⟩ := response_headers_are_not_injected (b := .b64) 7 ht steps
  rw [hout, Option.map_some, Option.some_inj, Prod.mk.injEq] at hrun
  exact ⟨t, out, ht, hout, hrun.1, hrun.2, fun h hh => ⟨(hok h hh).1, (hok h hh).2.1⟩⟩

end Lws

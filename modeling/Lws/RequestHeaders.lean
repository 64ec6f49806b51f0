import Lws.ResponseHeader
/-!
# RequestHeaders — the folding of the request headers (`lws_handler`, `lws_module.c`)

Three passes over the headers of a request: the first counts the headers of each name and adds up their lengths, the second
allocates a buffer for each name that has several, and the third copies the values into the buffers.  `Folded` says what the
records are at each step; at the end each name has its values, joined, and each buffer is full.
-/
namespace Lws

variable {b : Build}

/-! ## The passes -/

/-- Where the bytes of a value are: in a header of the request, or in a buffer, whose bytes are none until they are written. -/
inductive HeaderData where
  | header (value : Key)
  | buffer (bytes : List (Option UInt8))
deriving DecidableEq

/-- `lws_request_header_t`; `last` is an offset into the data. -/
structure RequestHeader where
  data : HeaderData
  len : Nat
  last : Option Nat := none
  count : Nat := 1
deriving DecidableEq

/-- `ctx->request_headers` and the records that it points to. -/
structure RequestHeaders (b : Build) where
  table : Table b Nat
  records : List RequestHeader := []

/-- Which allocations succeed for a record: its own, those of `lws_table_set`, and that of its buffer. -/
structure HeaderAlloc where
  record : Bool := true
  set : SetAlloc := {}
  buffer : Bool := true

inductive HeaderFault where
  | internalServerError
  | nullPointer
  | overflow
deriving DecidableEq

/-- `ngx_cpymem` to an offset of a buffer; the headers of the request are not written. -/
def HeaderData.write (data : HeaderData) (last : Nat) (src : Key) : Except HeaderFault HeaderData :=
  match data with
  | .header _ => .error .overflow
  | .buffer bytes =>
    if last + src.length ≤ bytes.length then
      .ok (.buffer (bytes.take last ++ src.map some ++ bytes.drop (last + src.length)))
    else .error .overflow

/-- The literal `", "`. -/
def comma : Key := [0x2c, 0x20]

def eachHeader (pass : RequestHeaders b → Key × Key → Except HeaderFault (RequestHeaders b)) (parts : List (List (Key × Key)))
    (x : RequestHeaders b) : Except HeaderFault (RequestHeaders b) :=
  parts.foldlM (fun x part => List.foldlM pass x part) x

section
variable (seed : BitVec b.bits) (now : Int) (alloc : Nat → HeaderAlloc)

def countHeader (x : RequestHeaders b) (h : Key × Key) : Except HeaderFault (RequestHeaders b) :=
  match tableGet seed x.table h.1 now with
  | (table, none) =>
    let p := x.records.length
    if !(alloc p).record then .error .internalServerError
    else
      match tableSet seed table h.1 (some p) now (alloc p).set with
      | (table, rc) =>
        if rc ≠ 0 then .error .internalServerError
        else .ok { table := table, records := x.records ++ [{ data := .header h.2, len := h.2.length }] }
  | (table, some p) =>
    match x.records[p]? with
    | none => .error .nullPointer
    | some r =>
      .ok { table := table, records := x.records.set p { r with len := r.len + (2 + h.2.length), count := r.count + 1 } }

def allocHeader (x : RequestHeaders b) (e : Key × Option Nat) : Except HeaderFault (RequestHeaders b) :=
  match e.2 with
  | none => .error .nullPointer
  | some p =>
    match x.records[p]? with
    | none => .error .nullPointer
    | some r =>
      if r.count > 1 then
        if !(alloc p).buffer then .error .internalServerError
        else .ok { x with records := x.records.set p { r with data := .buffer (List.replicate r.len none) } }
      else .ok x

/-- The separator before a value, if one has been copied: the data, and where the value goes. -/
def copyComma (r : RequestHeader) : Except HeaderFault (HeaderData × Nat) :=
  match r.last with
  | some last => (r.data.write last comma).map fun data => (data, last + comma.length)
  | none => .ok (r.data, 0)

def copyHeader (x : RequestHeaders b) (h : Key × Key) : Except HeaderFault (RequestHeaders b) :=
  match tableGet seed x.table h.1 now with
  | (_, none) => .error .nullPointer
  | (table, some p) =>
    match x.records[p]? with
    | none => .error .nullPointer
    | some r =>
      if r.count = 1 then .ok { x with table := table }
      else
        (copyComma r).bind fun (data, last) => (data.write last h.2).map fun data =>
          { table := table, records := x.records.set p { r with data := data, last := some (last + h.2.length) } }

def allocHeaders (x : RequestHeaders b) : Except HeaderFault (RequestHeaders b) :=
  match tableWalk seed x.table (x.table.count + 1) none with
  | none => .error .nullPointer
  | some entries => entries.foldlM (allocHeader alloc) x

/-- The request headers in `lws_handler`: the three passes over a new table. -/
def prepareRequestHeaders (t : Table b Nat) (parts : List (List (Key × Key))) : Except HeaderFault (RequestHeaders b) :=
  (eachHeader (countHeader seed now alloc) parts { table := (tableSetCi t true).1 }).bind fun x =>
    (allocHeaders seed alloc x).bind (eachHeader (copyHeader seed now) parts)

def RequestHeader.read (r : RequestHeader) : Option Key :=
  match r.data with
  | .header value => if r.len ≤ value.length then some (value.take r.len) else none
  | .buffer bytes => if r.len ≤ bytes.length then (bytes.take r.len).mapM id else none

/-- A lookup of a name: none is a fault. -/
def RequestHeaders.get (x : RequestHeaders b) (name : Key) : Option (Option Key) :=
  match (tableGet seed x.table name now).2 with
  | none => some none
  | some p => (x.records[p]?).bind fun r => r.read.map some

end

/-! ## The values of a name -/

def sameValues (headers : List (Key × Key)) (name : Key) : List Key :=
  (headers.filter fun h => SameName h.1 name).map Prod.snd

def joined (values : List Key) : Key := comma.intercalate values

theorem joined_concat {values : List Key} (h : values ≠ []) (value : Key) :
    joined (values ++ [value]) = joined values ++ comma ++ value := by
  unfold joined
  induction values with
  | nil => exact absurd rfl h
  | cons v values ih =>
    cases values with
    | nil => rw [List.singleton_append, List.intercalate_cons_cons, List.intercalate_singleton, List.intercalate_singleton]
    | cons v' values =>
      rw [List.cons_append, List.cons_append, List.intercalate_cons_cons, List.intercalate_cons_cons, ← List.cons_append,
        ih (List.cons_ne_nil _ _)]
      simp only [List.append_assoc]

theorem joined_singleton (value : Key) : joined [value] = value := List.intercalate_singleton

theorem joined_initial (values rest : List Key) : joined values <+: joined (values ++ rest) := by
  induction rest using List.reverseRecOn with
  | nil => simp
  | append_singleton rest value ih =>
    rw [← List.append_assoc]
    by_cases h : values ++ rest = []
    · rw [(List.append_eq_nil_iff.1 h).1]
      exact List.nil_prefix
    · rw [joined_concat h, List.append_assoc]
      exact ih.trans (List.prefix_append _ _)

theorem sameValues_concat (headers : List (Key × Key)) (h : Key × Key) (name : Key) :
    sameValues (headers ++ [h]) name =
      if SameName h.1 name then sameValues headers name ++ [h.2] else sameValues headers name := by
  rw [sameValues, List.filter_append, List.map_append]
  by_cases hn : SameName h.1 name
  · rw [if_pos hn, List.filter_cons_of_pos (by simpa using hn)]
    rfl
  · rw [if_neg hn, List.filter_cons_of_neg (by simpa using hn), List.filter_nil, List.map_nil, List.append_nil]
    rfl

theorem sameValues_append (headers rest : List (Key × Key)) (name : Key) :
    sameValues (headers ++ rest) name = sameValues headers name ++ sameValues rest name := by
  rw [sameValues, List.filter_append, List.map_append]
  rfl

theorem sameValues_same (headers : List (Key × Key)) {name name' : Key} (h : SameName name name') :
    sameValues headers name = sameValues headers name' := by
  unfold sameValues SameName
  rw [h]

theorem sameValues_eq_nil (headers : List (Key × Key)) (name : Key) :
    sameValues headers name = [] ↔ ∀ h ∈ headers, ¬SameName h.1 name := by
  rw [sameValues, List.map_eq_nil_iff, List.filter_eq_nil_iff]
  simp only [decide_eq_true_eq]

abbrev headerNames (headers : List (Key × Key)) : List Key := firstSpellings (headers.map Prod.fst)

theorem headerNames_concat (headers : List (Key × Key)) (h : Key × Key) : headerNames (headers ++ [h]) =
    if ∃ k ∈ headerNames headers, SameName k h.1 then headerNames headers else headerNames headers ++ [h.1] := by
  rw [headerNames, firstSpellings, List.map_append, List.map_singleton, Keyed.firsts_concat]

theorem headerNames_covers {headers : List (Key × Key)} {header : Key × Key} (h : header ∈ headers) :
    ∃ k ∈ headerNames headers, SameName k header.1 :=
  Keyed.firsts_covers (headers.map Prod.fst) header.1 (List.mem_map_of_mem h)

theorem headerNames_values {headers : List (Key × Key)} {name : Key} (h : name ∈ headerNames headers) :
    sameValues headers name ≠ [] := by
  obtain ⟨header, hheader, rfl⟩ := List.mem_map.1 (Keyed.firsts_subset _ h)
  exact fun hnil => (sameValues_eq_nil headers header.1).1 hnil header hheader rfl

theorem headerNames_new {headers : List (Key × Key)} {name : Key} (h : ∀ k ∈ headerNames headers, ¬SameName k name) :
    sameValues headers name = [] := by
  rw [sameValues_eq_nil]
  intro header hheader hsame
  obtain ⟨k, hk, hid⟩ := headerNames_covers hheader
  exact h k hk (hid.trans hsame)

/-! ## Records by index -/

/-- The table has the names with their indices, and the records are a function of the names. -/
structure Folded (seed : BitVec b.bits) (x : RequestHeaders b) (names : List Key) (record : Key → RequestHeader) : Prop where
  table : Refines seed x.table names.zipIdx
  ci : x.table.ci = true
  records : x.records = names.map record

section
variable {seed : BitVec b.bits} {x : RequestHeaders b} {names : List Key} {record : Key → RequestHeader}

/-- **A lookup** finds the record of the name, or there is none; the table is as good as before. -/
theorem Folded.lookup (h : Folded seed x names record) (hd : Keyed.Distinct (foldKey true) names) (name : Key) (now : Int) :
    ∃ table found, tableGet seed x.table name now = (table, found) ∧ Refines seed table names.zipIdx ∧ table.ci = true ∧
      ((∃ l₁ k l₂, names = l₁ ++ k :: l₂ ∧ SameName k name ∧ found = some l₁.length ∧ x.records[l₁.length]? = some (record k)) ∨
        (∀ k ∈ names, ¬SameName k name) ∧ found = none) := by
  obtain ⟨hfound, hR, ho⟩ := h.table.get name now
  have hci := (options_ci ho).trans h.ci
  generalize tableGet seed x.table name now = r at hfound hR hci ⊢
  refine ⟨r.1, r.2, rfl, hR, hci, ?_⟩
  rw [hfound, h.ci, h.records]
  rcases Keyed.split_cases (foldKey true) (foldKey true name) names with ⟨k, l₁, l₂, hk, rfl⟩ | hk
  · refine .inl ⟨l₁, k, l₂, rfl, hk, ?_, ?_⟩
    · rw [← OrdMap.get_same _ hk, OrdMap.get_zipIdx hd]
    · rw [List.map_append, List.map_cons, List.getElem?_append_right (by rw [List.length_map]), List.length_map, Nat.sub_self]
      rfl
  · exact .inr ⟨hk, OrdMap.get_zipIdx_none hk⟩

theorem Folded.update {l₁ l₂ : List Key} {k : Key} (hd : Keyed.Distinct (foldKey true) (l₁ ++ k :: l₂))
    {table : Table b Nat} (hR : Refines seed table (l₁ ++ k :: l₂).zipIdx) (hci : table.ci = true)
    {records : List RequestHeader} (hrecords : records = (l₁ ++ k :: l₂).map record) {r : RequestHeader}
    {record' : Key → RequestHeader} (hr : record' k = r)
    (hother : ∀ k' ∈ l₁ ++ k :: l₂, ¬SameName k' k → record' k' = record k') :
    Folded seed { table := table, records := records.set l₁.length r } (l₁ ++ k :: l₂) record' :=
  ⟨hR, hci, by rw [hrecords, ← hr]; exact Keyed.map_set hd hother⟩

/-! ## The first pass -/

def countRecord (headers : List (Key × Key)) (name : Key) : RequestHeader where
  data := .header ((sameValues headers name).headD [])
  len := (joined (sameValues headers name)).length
  count := (sameValues headers name).length

theorem countRecord_same {headers : List (Key × Key)} {name : Key} (hname : name ∈ headerNames headers) {header : Key × Key}
    (hsame : SameName name header.1) : countRecord (headers ++ [header]) name =
      { countRecord headers name with
        len := (countRecord headers name).len + (2 + header.2.length), count := (countRecord headers name).count + 1 } := by
  have hne := headerNames_values hname
  unfold countRecord
  dsimp only
  rw [sameValues_concat, if_pos hsame.symm, joined_concat hne, List.length_append, List.length_append, List.length_append,
    Nat.add_assoc]
  cases hv : sameValues headers name with
  | nil => exact absurd hv hne
  | cons v values => rfl

theorem countRecord_other (headers : List (Key × Key)) {name : Key} {header : Key × Key} (hname : ¬SameName name header.1) :
    countRecord (headers ++ [header]) name = countRecord headers name := by
  rw [countRecord, sameValues_concat, if_neg fun h => hname h.symm]
  rfl

theorem countHeader_spec {headers : List (Key × Key)} (h : Folded seed x (headerNames headers) (countRecord headers)) (now : Int)
    (header : Key × Key) (hkey : Terminated header.1) (hfit : (headerNames (headers ++ [header])).length ≤ maxLoad b) :
    ∃ x', countHeader seed now (fun _ => {}) x header = .ok x' ∧
      Folded seed x' (headerNames (headers ++ [header])) (countRecord (headers ++ [header])) := by
  have hd : Keyed.Distinct (foldKey true) (headerNames headers) := Keyed.firsts_distinct _
  obtain ⟨table, found, hget, hR, hci, ⟨l₁, k, l₂, hnames, hk, rfl, hrec⟩ | ⟨hmiss, rfl⟩⟩ := h.lookup hd header.1 now
  · have hmem : k ∈ headerNames headers := hnames ▸ List.mem_append_right _ List.mem_cons_self
    have hcount : countHeader seed now (fun _ => {}) x header =
        .ok { table := table, records := x.records.set l₁.length (countRecord (headers ++ [header]) k) } := by
      rw [countHeader, hget]
      dsimp only
      rw [hrec, countRecord_same hmem hk]
    refine ⟨_, hcount, ?_⟩
    rw [headerNames_concat, if_pos ⟨k, hmem, hk⟩]
    have hrecords := h.records
    rw [hnames] at hd hR hrecords ⊢
    refine Folded.update hd hR hci hrecords rfl fun k' _ hk' => ?_
    exact countRecord_other headers fun hsame => hk' (hsame.trans hk.symm)
  · have hnone : Keyed.find (OrdMap.ident (foldKey true)) (foldKey true header.1) (headerNames headers).zipIdx = none :=
      Keyed.find_miss fun p hp => hmiss p.1 (List.fst_mem_of_mem_zipIdx hp)
    have hnames : headerNames (headers ++ [header]) = headerNames headers ++ [header.1] := by
      rw [headerNames_concat, if_neg fun ⟨k, hk, hsame⟩ => hmiss k hk hsame]
    have hlen : x.records.length = (headerNames headers).length := by rw [h.records, List.length_map]
    have hput : OrdMap.put (foldKey table.ci) (headerNames headers).zipIdx header.1 x.records.length =
        (headerNames (headers ++ [header])).zipIdx := by
      rw [hci, OrdMap.put, hnone, hnames, List.zipIdx_append, hlen, Nat.zero_add]
      rfl
    obtain ⟨hrc, hR', ho⟩ := hR.put hkey x.records.length now (by rw [hput, List.length_zipIdx]; exact hfit)
    rw [hput] at hR'
    have hci' := (options_ci ho).trans hci
    have hset : tableSet seed table header.1 (some x.records.length) now {} =
        ((tableSet seed table header.1 (some x.records.length) now {}).1, 0) := Prod.ext rfl hrc
    generalize (tableSet seed table header.1 (some x.records.length) now {}).1 = table' at hset hR' hci'
    have hcount : countHeader seed now (fun _ => {}) x header =
        .ok { table := table', records := x.records ++ [{ data := .header header.2, len := header.2.length }] } := by
      rw [countHeader, hget]
      dsimp only
      rw [if_neg (by decide), hset]
      rfl
    refine ⟨_, hcount, hR', hci', ?_⟩
    have hnew : sameValues (headers ++ [header]) header.1 = [header.2] := by
      rw [sameValues_concat, if_pos rfl, headerNames_new hmiss, List.nil_append]
    dsimp only
    rw [h.records, hnames, List.map_append, List.map_singleton, countRecord, hnew, joined_singleton]
    exact congrArg (· ++ _) (List.map_congr_left fun k hk => (countRecord_other headers (hmiss k hk)).symm)

theorem countHeaders_spec (h : Folded seed x [] (countRecord [])) (now : Int) (headers : List (Key × Key))
    (hkeys : ∀ h ∈ headers, Terminated h.1) (hfit : (headerNames headers).length ≤ maxLoad b) :
    ∃ x', headers.foldlM (countHeader seed now fun _ => {}) x = .ok x' ∧
      Folded seed x' (headerNames headers) (countRecord headers) := by
  induction headers using List.reverseRecOn with
  | nil => exact ⟨x, rfl, h⟩
  | append_singleton headers header ih =>
    have hpre : headerNames headers <+: headerNames (headers ++ [header]) := by
      rw [headerNames, headerNames, List.map_append]
      exact Keyed.firsts_append _ _
    obtain ⟨x₁, hfold, h₁⟩ := ih (fun h hh => hkeys h (List.mem_append_left _ hh)) (hpre.length_le.trans hfit)
    obtain ⟨x₂, hstep, h₂⟩ := countHeader_spec h₁ now header (hkeys header (List.mem_append_right _ List.mem_cons_self)) hfit
    refine ⟨x₂, ?_, h₂⟩
    rw [List.foldlM_append, hfold]
    exact (congrArg (· >>= pure) hstep).trans (bind_pure _)

/-! ## The second pass -/

/-- The record of a name from the second pass on, when the third has copied the headers of `done`. -/
def fillRecord (headers done : List (Key × Key)) (name : Key) : RequestHeader :=
  let r := countRecord headers name
  let written := joined (sameValues done name)
  if r.count > 1 then
    { r with
      data := .buffer (written.map some ++ List.replicate (r.len - written.length) none)
      last := if sameValues done name = [] then none else some written.length }
  else r

theorem allocHeader_spec (headers : List (Key × Key)) : ∀ (rest done : List Key) (x : RequestHeaders b),
    x.records = done.map (fillRecord headers []) ++ rest.map (countRecord headers) →
    ((rest.zipIdx done.length).map fun p => (p.1, some p.2)).foldlM (allocHeader fun _ => {}) x =
      .ok { x with records := (done ++ rest).map (fillRecord headers []) }
  | [], done, x, hx => by
    rw [List.map_nil, List.append_nil] at hx
    rw [List.append_nil, ← hx]
    rfl
  | k :: rest, done, x, hx => by
    have hlen : (done.map (fillRecord headers [])).length = done.length := List.length_map _
    have hrec : x.records[done.length]? = some (countRecord headers k) := by
      rw [hx, List.getElem?_append_right (by rw [hlen]), hlen, Nat.sub_self]
      rfl
    have hstep : allocHeader (fun _ => {}) x (k, some done.length) =
        .ok { x with records := (done ++ [k]).map (fillRecord headers []) ++ rest.map (countRecord headers) } := by
      rw [allocHeader]
      dsimp only
      rw [hrec, List.map_append, List.map_singleton, List.append_assoc, List.singleton_append]
      dsimp only [fillRecord]
      split
      · rw [if_neg (by decide), hx, List.set_append_right _ _ (by rw [hlen]), hlen, Nat.sub_self]
        rfl
      · rw [← List.map_cons, ← hx]
    rw [List.zipIdx_cons, List.map_cons, List.foldlM_cons, hstep]
    have hrest := allocHeader_spec headers rest (done ++ [k])
      { x with records := (done ++ [k]).map (fillRecord headers []) ++ rest.map (countRecord headers) } rfl
    rw [List.length_append, List.length_singleton, List.append_assoc, List.singleton_append] at hrest
    exact hrest

theorem allocHeaders_spec {headers : List (Key × Key)} (h : Folded seed x names (countRecord headers)) :
    ∃ x', allocHeaders seed (fun _ => {}) x = .ok x' ∧ Folded seed x' names (fillRecord headers []) := by
  have hwalk := h.table.walk (x.table.count + 1) (by rw [h.table.count]; exact Nat.lt_succ_self _)
  refine ⟨{ x with records := names.map (fillRecord headers []) }, ?_, h.table, h.ci, rfl⟩
  rw [allocHeaders, hwalk]
  exact allocHeader_spec headers names [] x h.records

/-! ## The third pass -/

/-- **A copy to the end of what is written**, if it fits. -/
theorem write_filled (written src : Key) {room : Nat} (h : src.length ≤ room) :
    (HeaderData.buffer (written.map some ++ List.replicate room none)).write written.length src =
      .ok (.buffer ((written ++ src).map some ++ List.replicate (room - src.length) none)) := by
  have hlen : (written.map some).length = written.length := List.length_map _
  rw [HeaderData.write, if_pos (by rw [List.length_append, hlen, List.length_replicate]; omega)]
  have htake := @List.take_left _ (written.map some) (List.replicate room none)
  have hdrop := @List.drop_left _ (written.map some) (List.replicate room none)
  rw [hlen] at htake hdrop
  rw [htake, ← List.drop_drop, hdrop, List.drop_replicate, List.map_append]

theorem fillRecord_other (headers done : List (Key × Key)) {name : Key} {header : Key × Key} (hname : ¬SameName name header.1) :
    fillRecord headers (done ++ [header]) name = fillRecord headers done name := by
  have hvalues : sameValues (done ++ [header]) name = sameValues done name := by
    rw [sameValues_concat, if_neg fun h => hname h.symm]
  rw [fillRecord, hvalues]
  rfl

theorem copyComma_spec {r : RequestHeader} {values : List Key}
    (hdata : r.data = .buffer ((joined values).map some ++ List.replicate (r.len - (joined values).length) none))
    (hlast : r.last = if values = [] then none else some (joined values).length) (value : Key)
    (hfits : (joined (values ++ [value])).length ≤ r.len) :
    ∃ written, joined (values ++ [value]) = written ++ value ∧
      copyComma r = .ok (.buffer (written.map some ++ List.replicate (r.len - written.length) none), written.length) := by
  by_cases h : values = []
  · subst h
    refine ⟨[], joined_singleton value, ?_⟩
    rw [copyComma, hlast, if_pos rfl, hdata]
    rfl
  · refine ⟨joined values ++ comma, joined_concat h value, ?_⟩
    rw [joined_concat h, List.length_append, List.length_append] at hfits
    rw [copyComma, hlast, if_neg h, hdata]
    dsimp only
    rw [write_filled _ _ (by omega), List.length_append, Nat.sub_sub]
    rfl

theorem copyHeader_spec {headers done rest : List (Key × Key)} {header : Key × Key} (hheaders : headers = done ++ header :: rest)
    (h : Folded seed x (headerNames headers) (fillRecord headers done)) (now : Int) :
    ∃ x', copyHeader seed now x header = .ok x' ∧
      Folded seed x' (headerNames headers) (fillRecord headers (done ++ [header])) := by
  have hd : Keyed.Distinct (foldKey true) (headerNames headers) := Keyed.firsts_distinct _
  have hmem : header ∈ headers := hheaders ▸ List.mem_append_right _ List.mem_cons_self
  obtain ⟨table, found, hget, hR, hci, ⟨l₁, k, l₂, hnames, hk, rfl, hrec⟩ | ⟨hmiss, -⟩⟩ := h.lookup hd header.1 now
  · have hkmem : k ∈ headerNames headers := hnames ▸ List.mem_append_right _ List.mem_cons_self
    have hother : ∀ k', ¬SameName k' k → fillRecord headers (done ++ [header]) k' = fillRecord headers done k' := fun k' hk' =>
      fillRecord_other headers done fun hsame => hk' (hsame.trans hk.symm)
    by_cases hcount : (countRecord headers k).count > 1
    · have hvalues : sameValues (done ++ [header]) k = sameValues done k ++ [header.2] := by
        rw [sameValues_concat, if_pos hk.symm]
      have hfits : (joined (sameValues done k ++ [header.2])).length ≤ (countRecord headers k).len := by
        have hall : headers = done ++ [header] ++ rest := by rw [hheaders, List.append_cons]
        rw [countRecord, hall]
        dsimp only
        rw [sameValues_append, hvalues]
        exact (joined_initial _ _).length_le
      have hfilled (done : List (Key × Key)) : fillRecord headers done k = { countRecord headers k with
          data := .buffer ((joined (sameValues done k)).map some ++
            List.replicate ((countRecord headers k).len - (joined (sameValues done k)).length) none)
          last := if sameValues done k = [] then none else some (joined (sameValues done k)).length } := if_pos hcount
      obtain ⟨written, hwritten, hcomma⟩ := copyComma_spec (r := fillRecord headers done k) (by rw [hfilled]) (by rw [hfilled])
        header.2 (by rw [hfilled]; exact hfits)
      have hcopy : copyHeader seed now x header =
          .ok { table := table, records := x.records.set l₁.length (fillRecord headers (done ++ [header]) k) } := by
        have hroom : header.2.length ≤ (fillRecord headers done k).len - written.length := by
          rw [hwritten, List.length_append] at hfits
          rw [hfilled]
          dsimp only
          omega
        rw [copyHeader, hget]
        dsimp only
        rw [hrec]
        dsimp only
        rw [if_neg (by rw [hfilled]; exact Nat.ne_of_gt hcount), hcomma]
        dsimp only [Except.bind]
        rw [write_filled written header.2 hroom, hfilled (done ++ [header]), hvalues, hwritten,
          if_neg (List.append_ne_nil_of_right_ne_nil _ (List.cons_ne_nil _ _)), hfilled done, List.length_append, Nat.sub_sub]
        rfl
      refine ⟨_, hcopy, ?_⟩
      have hrecords := h.records
      rw [hnames] at hd hR hrecords ⊢
      exact Folded.update hd hR hci hrecords rfl fun k' _ hk' => hother k' hk'
    · have hone : (countRecord headers k).count = 1 := by
        have hpos := List.length_pos_iff.2 (headerNames_values hkmem)
        rw [countRecord] at hcount ⊢
        dsimp only at hcount ⊢
        omega
      have hsame (done : List (Key × Key)) : fillRecord headers done k = countRecord headers k := if_neg hcount
      refine ⟨{ x with table := table }, ?_, hR, hci, ?_⟩
      · rw [copyHeader, hget]
        dsimp only
        rw [hrec, hsame]
        dsimp only
        rw [if_pos hone]
      · rw [h.records]
        refine List.map_congr_left fun k' hk' => ?_
        by_cases hkk : SameName k' k
        · rw [hd.eq_of hkmem hk' hkk, hsame, hsame]
        · exact (hother k' hkk).symm
  · obtain ⟨k, hk, hsame⟩ := headerNames_covers hmem
    exact absurd hsame (hmiss k hk)

theorem copyHeaders_spec {headers : List (Key × Key)} (now : Int) : ∀ (rest done : List (Key × Key)) {x : RequestHeaders b},
    headers = done ++ rest → Folded seed x (headerNames headers) (fillRecord headers done) →
    ∃ x', rest.foldlM (copyHeader seed now) x = .ok x' ∧ Folded seed x' (headerNames headers) (fillRecord headers headers)
  | [], done, x, hheaders, h => by
    obtain rfl : headers = done := by rw [hheaders, List.append_nil]
    exact ⟨x, rfl, h⟩
  | header :: rest, done, x, hheaders, h => by
    obtain ⟨x₁, hstep, h₁⟩ := copyHeader_spec hheaders h now
    obtain ⟨x₂, hrest, h₂⟩ := copyHeaders_spec now rest (done ++ [header]) (hheaders.trans (List.append_cons ..)) h₁
    refine ⟨x₂, ?_, h₂⟩
    rw [List.foldlM_cons, hstep]
    exact hrest

end

/-! ## The folded headers -/

theorem eachHeader_eq (pass : RequestHeaders b → Key × Key → Except HeaderFault (RequestHeaders b)) :
    ∀ (parts : List (List (Key × Key))) (x : RequestHeaders b), eachHeader pass parts x = parts.flatten.foldlM pass x
  | [], _ => rfl
  | part :: parts, x => by
    rw [eachHeader, List.foldlM_cons, List.flatten_cons, List.foldlM_append]
    exact congrArg _ (funext fun x => eachHeader_eq pass parts x)

theorem mapM_some (bytes : Key) : (bytes.map some).mapM id = some bytes := by
  induction bytes with
  | nil => rfl
  | cons c bytes ih =>
    rw [List.map_cons, List.mapM_cons, ih]
    rfl

theorem fillRecord_done (headers : List (Key × Key)) {name : Key} (hcount : (countRecord headers name).count > 1) :
    fillRecord headers headers name = { countRecord headers name with
      data := .buffer ((joined (sameValues headers name)).map some)
      last := some (joined (sameValues headers name)).length } := by
  have hne : sameValues headers name ≠ [] := fun hnil => by
    rw [countRecord, hnil] at hcount
    exact absurd hcount (by decide)
  have hlen : (countRecord headers name).len = (joined (sameValues headers name)).length := rfl
  rw [fillRecord, if_pos hcount, hlen, Nat.sub_self, List.replicate_zero, List.append_nil, if_neg hne]
  rfl

theorem read_full {r : RequestHeader} {bytes : Key} (hdata : r.data = .buffer (bytes.map some)) (hlen : r.len = bytes.length) :
    r.read = some bytes := by
  rw [RequestHeader.read, hdata]
  dsimp only
  rw [hlen, List.length_map, if_pos le_rfl, List.take_of_length_le (by rw [List.length_map]), mapM_some]

/-- **A name reads as its values, joined**, when all is copied. -/
theorem fillRecord_read {headers : List (Key × Key)} {name : Key} (hname : name ∈ headerNames headers) :
    (fillRecord headers headers name).read = some (joined (sameValues headers name)) := by
  by_cases hcount : (countRecord headers name).count > 1
  · rw [fillRecord_done headers hcount]
    exact read_full rfl rfl
  · rw [fillRecord, if_neg hcount, RequestHeader.read, countRecord]
    rw [countRecord] at hcount
    dsimp only at hcount ⊢
    cases hv : sameValues headers name with
    | nil => exact absurd hv (headerNames_values hname)
    | cons value values =>
      rw [hv] at hcount
      obtain rfl : values = [] := List.length_eq_zero_iff.1 (by rw [List.length_cons] at hcount; omega)
      rw [joined_singleton, List.headD_cons, if_pos le_rfl, List.take_length]

theorem fillRecord_full (headers : List (Key × Key)) {name : Key} (hmany : (fillRecord headers headers name).count > 1) :
    ∃ bytes, (fillRecord headers headers name).data = .buffer bytes ∧ bytes.length = (fillRecord headers headers name).len ∧
      (fillRecord headers headers name).last = some (fillRecord headers headers name).len := by
  by_cases hcount : (countRecord headers name).count > 1
  · rw [fillRecord_done headers hcount]
    exact ⟨_, rfl, List.length_map _, rfl⟩
  · rw [fillRecord, if_neg hcount] at hmany
    exact absurd hmany hcount

theorem refines_create_ci (seed : BitVec b.bits) {V : Type} {t : Table b V} {load : Nat} {c₁ c₂ : Bool}
    (hcreate : tableCreate b V load c₁ c₂ = some t) :
    Refines seed (tableSetCi t true).1 [] ∧ (tableSetCi t true).1.ci = true := by
  have hcount : t.count = 0 := (tableCreate_holds seed hcreate).1.count
  have hconf : (tableSetCi t true).1 = tableConfigure t t.dup t.free true := by
    simp [tableConfigure, tableSetDup, tableSetFree, tableSetCi, hcount]
  rw [hconf]
  exact refines_create seed hcreate t.dup t.free true

/-- **The request headers are folded**: the passes succeed; then a name has the values of the headers with it, ignoring case,
joined in order, or none; a walk yields each name once, in order of first occurrence and in its first spelling; and each buffer
has been filled to its length. -/
theorem request_headers_are_folded (seed : BitVec b.bits) (now : Int) {t : Table b Nat}
    (hcreate : tableCreate b Nat 32 true true = some t) (parts : List (List (Key × Key)))
    (hnames : ∀ h ∈ parts.flatten, 0 ∉ h.1) (hfit : (headerNames parts.flatten).length ≤ maxLoad b) :
    ∃ x, prepareRequestHeaders seed now (fun _ => {}) t parts = .ok x ∧
      (∀ name now', x.get seed now' name = some
        (if sameValues parts.flatten name = [] then none else some (joined (sameValues parts.flatten name)))) ∧
      (tableWalk seed x.table (x.table.count + 1) none).map (fun entries => entries.map Prod.fst) =
        some (headerNames parts.flatten) ∧
      (headerNames parts.flatten).Pairwise (fun name name' => ¬SameName name name') ∧
      ∀ r ∈ x.records, r.count > 1 → ∃ bytes, r.data = .buffer bytes ∧ bytes.length = r.len ∧ r.last = some r.len := by
  generalize hheaders : parts.flatten = headers at hnames hfit ⊢
  obtain ⟨h0, hci0⟩ := refines_create_ci seed hcreate
  have hd : Keyed.Distinct (foldKey true) (headerNames headers) := Keyed.firsts_distinct _
  obtain ⟨x₁, hcount, h₁⟩ := countHeaders_spec (x := { table := (tableSetCi t true).1 }) ⟨h0, hci0, rfl⟩ now headers
    (fun h hh h0 => hnames h hh (List.dropLast_subset _ h0)) hfit
  obtain ⟨x₂, halloc, h₂⟩ := allocHeaders_spec h₁
  obtain ⟨x₃, hcopy, h₃⟩ := copyHeaders_spec now headers [] (List.nil_append headers).symm h₂
  refine ⟨x₃, ?_, fun name now' => ?_, ?_, hd, fun r hr hmany => ?_⟩
  · rw [prepareRequestHeaders, eachHeader_eq, hheaders, hcount]
    dsimp only [Except.bind]
    rw [halloc]
    dsimp only
    rw [eachHeader_eq, hheaders, hcopy]
  · obtain ⟨table, found, hget, -, -, ⟨l₁, k, l₂, hk, hsame, rfl, hrec⟩ | ⟨hmiss, rfl⟩⟩ := h₃.lookup hd name now'
    · have hkmem : k ∈ headerNames headers := hk ▸ List.mem_append_right _ List.mem_cons_self
      rw [RequestHeaders.get, hget]
      dsimp only
      rw [hrec, Option.bind_some, fillRecord_read hkmem, ← sameValues_same headers hsame, if_neg (headerNames_values hkmem)]
      rfl
    · rw [RequestHeaders.get, hget, if_pos (headerNames_new hmiss)]
  · rw [h₃.table.walk _ (by rw [h₃.table.count]; exact Nat.lt_succ_self _), Option.map_some, List.map_map]
    exact congrArg some (List.zipIdx_map_fst 0 _)
  · rw [h₃.records] at hr
    obtain ⟨name, -, rfl⟩ := List.mem_map.1 hr
    exact fillRecord_full headers hmany

/-- Two parts, a name in two spellings with an empty value among its values, and one name that is not folded. -/
theorem request_headers_are_folded_parts :
    let parts := [[("A", "1"), ("b", "2")], [("a", "3"), ("A", "")]].map fun part =>
      part.map fun (h : String × String) => (literal h.1, literal h.2)
    ∃ t x, tableCreate .b64 Nat 32 true true = some t ∧ prepareRequestHeaders (b := .b64) 7 0 (fun _ => {}) t parts = .ok x ∧
      x.get 7 0 (literal "a") = some (some (literal "1, 3, ")) ∧ x.get 7 0 (literal "B") = some (some (literal "2")) ∧
      x.get 7 0 (literal "c") = some none := by
  intro parts
  obtain ⟨t, ht⟩ := Option.isSome_iff_exists.1
    (show (tableCreate .b64 Nat 32 true true).isSome = true by decide +kernel)
  have hle : 2 ≤ maxLoad .b64 := by decide +kernel
  have hlen : (headerNames parts.flatten).length = 2 := by decide +kernel
  obtain ⟨x, hx, hget, -⟩ := request_headers_are_folded (b := .b64) 7 0 ht parts (by decide +kernel) (hlen.trans_le hle)
  refine ⟨t, x, ht, hx, (hget _ 0).trans ?_, (hget _ 0).trans ?_, (hget _ 0).trans ?_⟩
  · decide +kernel
  · decide +kernel
  · decide +kernel

end Lws

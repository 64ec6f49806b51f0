import Lws.MonitorBody
import Lws.ParseArgs
/-!
# MonitorForm — the two parsers of a form (`lws_monitor_body_handler`, `lws_parseargs`)

Both scan keys and values with one loop.  `lws_parseargs` ends a value at `&` only; `lws_monitor_body_handler` ends it at `=` as
well, and goes on with a key.
-/
namespace Lws

/-! ## The pairs that are passed -/

def readBytes (mem : Nat → Option UInt8) : Nat → Nat → Option Key
  | _, 0 => some []
  | pos, n + 1 => (mem pos).bind fun c => (readBytes mem (pos + 1) n).map fun s => c :: s

def BodyStr.bytes (mem : Nat → Option UInt8) (s : BodyStr) : Option Key := readBytes mem s.data s.len

section
variable {σ : Type}

/-- A modification that also notes the pair it is called with. -/
def noteModification (mem : Nat → Option UInt8) (modification : BodyStr → BodyStr → σ → Option (σ × Int))
    (key value : BodyStr) (x : σ × List (Key × Key)) : Option ((σ × List (Key × Key)) × Int) :=
  (key.bytes mem).bind fun k => (value.bytes mem).bind fun v =>
    (modification key value x.1).map fun r => ((r.1, x.2 ++ [(k, v)]), r.2)

/-- The pairs that the loop of `lws_monitor_body_handler` passes to a modification handler. -/
def pairsPassed (mem : Nat → Option UInt8) (modification : BodyStr → BodyStr → σ → Option (σ × Int)) (last : Nat) (x : σ) :
    Option (List (Key × Key)) :=
  (postLoop mem (noteModification mem modification) last (last + 1) { target := (x, []) }).map fun r => r.1.2

def monitorPairs {w : Nat} (bufs : List BodyBuf) (old : Nat → Option UInt8) (m : LwsMonitor w) : Option (List (Key × Key)) :=
  let mem := copiedMemory (bufs.flatMap BodyBuf.copied) old
  pairsPassed mem (lwsMonitorModificationHandler mem) (bufs.map BodyBuf.size).sum m

def formPairs (bufs : List BodyBuf) (old : Nat → Option UInt8) : Option (List (Key × Key)) :=
  pairsPassed (copiedMemory (bufs.flatMap BodyBuf.copied) old) (fun _ _ x => some (x, ngxOk)) (bufs.map BodyBuf.size).sum ()

def untilRejected (act : Key → Key → σ → σ × Int) : List (Key × Key) → σ → List (Key × Key)
  | [], _ => []
  | (key, value) :: pairs, x =>
    (key, value) :: if (act key value x).2 ≠ ngxOk then [] else untilRejected act pairs (act key value x).1

theorem readBytes_eq {mem : Nat → Option UInt8} : ∀ (bytes : Key) {pos : Nat}, (∀ i < bytes.length, mem (pos + i) = bytes[i]?) →
    readBytes mem pos bytes.length = some bytes
  | [], _, _ => rfl
  | c :: bytes, pos, hread => by
    have hc : mem pos = some c := hread 0 (Nat.zero_lt_succ _)
    have hnext : ∀ i < bytes.length, mem (pos + 1 + i) = bytes[i]? := by
      intro i hi
      rw [Nat.add_assoc, Nat.add_comm 1]
      exact hread (i + 1) (Nat.succ_lt_succ hi)
    rw [List.length_cons, readBytes, hc, Option.bind_some, readBytes_eq bytes hnext]
    rfl

theorem BodyStr.Holds.bytes {mem : Nat → Option UInt8} {s : BodyStr} {bytes : Key} (h : s.Holds mem bytes) :
    s.bytes mem = some bytes := by
  rw [BodyStr.bytes, h.len]
  exact readBytes_eq bytes h.read

def noteAct (act : Key → Key → σ → σ × Int) (key value : Key) (x : σ × List (Key × Key)) : (σ × List (Key × Key)) × Int :=
  (((act key value x.1).1, x.2 ++ [(key, value)]), (act key value x.1).2)

theorem noteModification_eq {mem : Nat → Option UInt8} {modification : BodyStr → BodyStr → σ → Option (σ × Int)}
    {act : Key → Key → σ → σ × Int}
    (hact : ∀ {key value : BodyStr} {k v : Key} (x : σ), key.Holds mem k → value.Holds mem v →
      modification key value x = some (act k v x))
    {key value : BodyStr} {k v : Key} (x : σ × List (Key × Key)) (hk : key.Holds mem k) (hv : value.Holds mem v) :
    noteModification mem modification key value x = some (noteAct act k v x) := by
  rw [noteModification, hk.bytes, hv.bytes, hact x.1 hk hv]
  rfl

theorem applyPairs_note (act : Key → Key → σ → σ × Int) : ∀ (pairs : List (Key × Key)) (x : σ) (noted : List (Key × Key)),
    applyPairs (noteAct act) pairs (x, noted) =
      (((applyPairs act pairs x).1, noted ++ untilRejected act pairs x), (applyPairs act pairs x).2)
  | [], x, noted => by
    rw [applyPairs, applyPairs, untilRejected, List.append_nil]
  | (key, value) :: pairs, x, noted => by
    rw [applyPairs, applyPairs, untilRejected]
    by_cases hr : (act key value x).2 ≠ ngxOk
    · rw [if_pos hr, if_pos hr, if_pos (by exact hr)]
      rfl
    · rw [if_neg hr, if_neg hr, if_neg (by exact hr)]
      have ih := applyPairs_note act pairs (act key value x).1 (noted ++ [(key, value)])
      rw [List.append_assoc] at ih
      exact ih

theorem untilRejected_accept {pairs : List (Key × Key)} (x : σ) : untilRejected (fun _ _ x => (x, ngxOk)) pairs x = pairs := by
  induction pairs with
  | nil => rfl
  | cons p pairs ih =>
    rw [untilRejected, ih]
    rfl

/-- **The pairs that are passed** are those that are found, up to the first one that is rejected. -/
theorem pairsPassed_eq {mem : Nat → Option UInt8} {body : Key} {after : UInt8} (h : BodyAt mem body (some after))
    {modification : BodyStr → BodyStr → σ → Option (σ × Int)} {f : Key → Key → σ → σ × Int}
    (hact : ∀ {key value : BodyStr} {k v : Key} (x : σ), key.Holds mem k → value.Holds mem v →
      modification key value x = some (f k v x)) (x : σ) :
    pairsPassed mem modification body.length x = some (untilRejected f (foundPairs after body) x) := by
  have hloop := (postLoop_eq h (noteModification_eq hact) (body.length + 1) body { target := (x, []) } (Nat.lt_succ_self _) rfl
    (Nat.zero_add _) rfl).1 rfl
  rw [pairsPassed, hloop, applyFound, Option.map_some, applyPairs_note, List.nil_append]

theorem untilRejected_filter {act : Key → Key → σ → σ × Int} {shown : Key × Key → Bool}
    (hhidden : ∀ key value x, shown (key, value) = false → act key value x = (x, ngxOk)) :
    ∀ (pairs : List (Key × Key)) (x : σ),
      (untilRejected act pairs x).filter shown = untilRejected act (pairs.filter shown) x
  | [], _ => rfl
  | (key, value) :: pairs, x => by
    have ih := untilRejected_filter hhidden pairs (act key value x).1
    rw [untilRejected, List.filter_cons, List.filter_cons]
    cases hs : shown (key, value) with
    | false =>
      rw [hhidden key value x hs] at ih ⊢
      exact ih
    | true =>
      rw [if_pos rfl, if_pos rfl, untilRejected, ← ih]
      by_cases hr : (act key value x).2 ≠ ngxOk
      · rw [if_pos hr, if_pos hr]
        rfl
      · rw [if_neg hr, if_neg hr]

end

/-! ## The fields -/

def keyed (pairs : List (Key × Key)) : List (Key × Key) := pairs.filter fun p => p.1 ≠ []

theorem keyed_nil (value : Key) (pairs : List (Key × Key)) : keyed (([], value) :: pairs) = keyed pairs := rfl

theorem keyed_cons {key : Key} (h : key ≠ []) (value : Key) (pairs : List (Key × Key)) :
    keyed ((key, value) :: pairs) = (key, value) :: keyed pairs :=
  List.filter_cons_of_pos (decide_eq_true h)

theorem keyed_eq_nil {pairs : List (Key × Key)} : keyed pairs = [] ↔ ∀ p ∈ pairs, p.1 = [] := by
  simp only [keyed, List.filter_eq_nil_iff, decide_not, Bool.not_eq_true', decide_eq_false_iff_not, not_not]

theorem decode_self : ∀ s : Key, (∀ c ∈ s, c ≠ 0x25 ∧ c ≠ 0x2b) → decode s = s
  | [], _ => rfl
  | c :: s, h => by
    obtain ⟨hpercent, hplus⟩ := h c List.mem_cons_self
    rw [decode_plain hpercent, plusToSpace, if_neg hplus, decode_self s fun c hc => h c (List.mem_cons_of_mem _ hc)]

/-- What the two parsers make of the field, apart from pairs without a key: of `lws_parseargs`. -/
def argsField (field : Key) : List (Key × Key) := keyed (fieldPair field).toList

section
variable {field : Key} (hplain : ∀ c ∈ field, c ≠ 0x25 ∧ c ≠ 0x2b)
include hplain

theorem argsField_key (h : 0x3d ∉ field) : argsField field = keyed [(field, [])] := by
  rw [argsField, fieldPair, if_neg h]
  by_cases hnil : field = []
  · rw [hnil]
    rfl
  · rw [if_pos hnil, decode_self field hplain]
    rfl

omit hplain in
theorem argsField_value {key value : Key} (hkey : 0x3d ∉ key) (hplain : ∀ c ∈ key ++ 0x3d :: value, c ≠ 0x25 ∧ c ≠ 0x2b) :
    argsField (key ++ 0x3d :: value) = keyed [(key, value)] := by
  rw [argsField, fieldPair_append hkey, decode_self key fun c hc => hplain c (List.mem_append_left _ hc),
    decode_self value fun c hc => hplain c (List.mem_append_right _ (List.mem_cons_of_mem _ hc))]
  rfl

theorem field_agrees_iff : keyed (fieldPairs field) = argsField field ↔
    field.count 0x3d ≤ 1 ∨ ∀ p ∈ fieldPairs field, p.1 = [] := by
  by_cases hmem : (0x3d : UInt8) ∈ field
  · obtain ⟨key, value, rfl, hkey⟩ := List.eq_append_cons_of_mem hmem
    rw [argsField_value hkey hplain, List.count_append, List.count_cons_self, List.count_eq_zero_of_not_mem hkey]
    by_cases hvalue : (0x3d : UInt8) ∈ value
    · obtain ⟨v, rest, rfl, hv⟩ := List.eq_append_cons_of_mem hvalue
      have hcount : ¬(0 + ((v ++ 0x3d :: rest).count 0x3d + 1) ≤ 1) := by
        rw [List.count_append, List.count_cons_self]
        omega
      rw [or_iff_right hcount, fieldPairs_more hkey hv, ← keyed_eq_nil]
      by_cases hnil : key = []
      · rw [hnil, keyed_nil, keyed_nil]
        exact Iff.rfl
      · rw [keyed_cons hnil, keyed_cons hnil]
        constructor
        · -- the value of the one has an `=`, that of the other none
          intro heq
          have hpair := (Prod.mk.inj (List.cons.inj heq).1).2
          rw [hpair] at hv
          exact absurd (List.mem_append_right _ List.mem_cons_self) hv
        · intro heq
          cases heq
    · rw [fieldPairs_value hkey hvalue, List.count_eq_zero_of_not_mem hvalue]
      exact ⟨fun _ => .inl (Nat.le_refl 1), fun _ => rfl⟩
  · rw [argsField_key hplain hmem, fieldPairs_key hmem, List.count_eq_zero_of_not_mem hmem]
    exact ⟨fun _ => .inl (Nat.zero_le 1), fun _ => rfl⟩

theorem field_length_le : (argsField field).length ≤ (keyed (fieldPairs field)).length := by
  by_cases hmem : (0x3d : UInt8) ∈ field
  · obtain ⟨key, value, rfl, hkey⟩ := List.eq_append_cons_of_mem hmem
    obtain ⟨v, others, hpairs⟩ : ∃ v others, fieldPairs (key ++ 0x3d :: value) = (key, v) :: others := by
      rw [fieldPairs, List.splitOn_append_cons_self_of_not_mem hkey]
      obtain ⟨piece, pieces, hpieces⟩ := List.exists_cons_of_ne_nil (List.splitOn_ne_nil 0x3d value)
      rw [hpieces]
      exact ⟨piece, pairUp pieces, rfl⟩
    rw [argsField_value hkey hplain, hpairs]
    by_cases hnil : key = []
    · rw [hnil, keyed_nil]
      exact Nat.zero_le _
    · rw [keyed_cons hnil, keyed_cons hnil]
      exact Nat.succ_le_succ (Nat.zero_le _)
  · rw [argsField_key hplain hmem, fieldPairs_key hmem]

end

theorem flatMap_length_le {α β : Type} {f g : α → List β} {l : List α} (h : ∀ a ∈ l, (g a).length ≤ (f a).length) :
    (l.flatMap g).length ≤ (l.flatMap f).length := by
  induction l with
  | nil => exact Nat.le_refl _
  | cons a l ih =>
    obtain ⟨ha, hl⟩ := List.forall_mem_cons.1 h
    rw [List.flatMap_cons, List.flatMap_cons, List.length_append, List.length_append]
    exact Nat.add_le_add ha (ih hl)

theorem flatMap_eq_iff {α β : Type} {f g : α → List β} {l : List α} (h : ∀ a ∈ l, (g a).length ≤ (f a).length) :
    l.flatMap f = l.flatMap g ↔ ∀ a ∈ l, f a = g a := by
  constructor
  · intro heq
    induction l with
    | nil => exact fun _ ha => absurd ha List.not_mem_nil
    | cons a l ih =>
      obtain ⟨ha, hl⟩ := List.forall_mem_cons.1 h
      have hlength := congrArg List.length heq
      rw [List.flatMap_cons, List.flatMap_cons] at heq hlength
      rw [List.length_append, List.length_append] at hlength
      have hrest := flatMap_length_le hl
      obtain ⟨hfirst, htail⟩ := List.append_inj heq (by omega)
      exact List.forall_mem_cons.2 ⟨hfirst, ih hl htail⟩
  · intro heq
    rw [List.flatMap_def, List.map_congr_left heq, ← List.flatMap_def]

theorem keyed_postPairs (body : Key) : keyed (postPairs body) = (body.splitOn 0x26).flatMap fun field => keyed (fieldPairs field) :=
  List.filter_flatMap

theorem keyed_fields (fields : List Key) : keyed (fields.filterMap fieldPair) = fields.flatMap argsField := by
  rw [List.filterMap_eq_flatMap_toList]
  exact List.filter_flatMap

theorem mem_of_mem_splitOn {a c : UInt8} : ∀ {s field : Key}, field ∈ s.splitOn a → c ∈ field → c ∈ s
  | [], field, hfield, hc => by
    rw [List.splitOn_nil] at hfield
    rwa [List.mem_singleton.1 hfield] at hc
  | b :: s, field, hfield, hc => by
    rw [List.splitOn_cons_eq_if_modifyHead] at hfield
    split at hfield
    · rcases List.mem_cons.1 hfield with rfl | hfield
      · exact absurd hc List.not_mem_nil
      · exact List.mem_cons_of_mem b (mem_of_mem_splitOn hfield hc)
    · obtain ⟨first, fields, hs⟩ := List.exists_cons_of_ne_nil (List.splitOn_ne_nil a s)
      rw [hs, List.modifyHead_cons] at hfield
      rcases List.mem_cons.1 hfield with rfl | hfield
      · rcases List.mem_cons.1 hc with rfl | hc
        · exact List.mem_cons_self
        · exact List.mem_cons_of_mem b (mem_of_mem_splitOn (hs ▸ List.mem_cons_self) hc)
      · exact List.mem_cons_of_mem b (mem_of_mem_splitOn (hs ▸ List.mem_cons_of_mem first hfield) hc)

theorem modifyMonitor_unkeyed {w : Nat} (value : Key) (m : LwsMonitor w) : modifyMonitor [] value m = (m, ngxOk) := by
  unfold modifyMonitor
  rw [if_neg (by decide), if_neg (by decide)]

/-- **The two parsers agree if and only if no value has an `=`** after a key: every field has at most one `=`, or nothing in
the places where `lws_monitor_body_handler` finds keys. -/
theorem monitor_form_iff {w : Nat} (bufs : List NgxBuf) (old : Nat → UInt8)
    (hplain : ∀ c ∈ requestBody bufs, c ≠ 0x25 ∧ c ≠ 0x2b) (hafter : old (requestBody bufs).length ≠ 0x3d) :
    let fields := (requestBody bufs).splitOn 0x26
    let agrees := ∀ field ∈ fields, field.count 0x3d ≤ 1 ∨ ∀ p ∈ fieldPairs field, p.1 = []
    ∃ pairs, formPairs (bufs.map .memory) (fun p => some (old p)) = some pairs ∧
      (keyed pairs = keyed (fields.filterMap fieldPair) ↔ agrees) ∧
      ∀ m : LwsMonitor w, ∃ passed, monitorPairs (bufs.map .memory) (fun p => some (old p)) m = some passed ∧
        passed = untilRejected modifyMonitor pairs m ∧
        (agrees → keyed passed = untilRejected modifyMonitor (keyed (fields.filterMap fieldPair)) m) := by
  intro fields agrees
  have hbody := copied_memory bufs fun p => some (old p)
  have hfound : foundPairs (old (requestBody bufs).length) (requestBody bufs) = postPairs (requestBody bufs) :=
    if_neg fun h => hafter h.1
  have hfields : keyed (postPairs (requestBody bufs)) = keyed (fields.filterMap fieldPair) ↔ agrees := by
    have hfield (field : Key) (hmem : field ∈ fields) (c : UInt8) (hc : c ∈ field) := hplain c (mem_of_mem_splitOn hmem hc)
    rw [keyed_postPairs, keyed_fields, flatMap_eq_iff fun field hmem => field_length_le (hfield field hmem)]
    exact forall₂_congr fun field hmem => field_agrees_iff (hfield field hmem)
  refine ⟨postPairs (requestBody bufs), ?_, hfields, fun m => ⟨_, ?_, rfl, fun hagrees => ?_⟩⟩
  · rw [formPairs, size_sum, pairsPassed_eq hbody (f := fun _ _ x => (x, ngxOk)) fun _ _ _ => rfl, untilRejected_accept, hfound]
  · rw [monitorPairs, size_sum, pairsPassed_eq hbody fun x hkey hvalue => modification_eq hkey hvalue x, hfound]
  · rw [← hfields.2 hagrees]
    refine untilRejected_filter (fun key value m hkey => ?_) _ m
    obtain rfl : key = [] := by simpa using hkey
    exact modifyMonitor_unkeyed value m

/-- A value with an `=`, for the monitor a value and another key. -/
theorem monitor_form_splits :
    let body := literal "a=b=c"
    let bufs : List NgxBuf := [⟨body, 0, body.length, Nat.zero_le _, Nat.le_refl _⟩]
    monitorPairs (bufs.map .memory) (fun _ => some 0) ({} : LwsMonitor 64) =
        some [(literal "a", literal "b"), (literal "c", [])] ∧
      keyed (((requestBody bufs).splitOn 0x26).filterMap fieldPair) = [(literal "a", literal "b=c")] := by
  decide +kernel

/-- A form whose second pair is rejected. -/
theorem monitor_form_two :
    let body := literal "=&profiler=9&functions"
    let bufs : List NgxBuf := [⟨body, 0, body.length, Nat.zero_le _, Nat.le_refl _⟩]
    let fields := (requestBody bufs).splitOn 0x26
    let agrees := ∀ field ∈ fields, field.count 0x3d ≤ 1 ∨ ∀ p ∈ fieldPairs field, p.1 = []
    ∃ pairs, formPairs (bufs.map .memory) (fun _ => some 0) = some pairs ∧
      (keyed pairs = keyed (fields.filterMap fieldPair) ↔ agrees) ∧
      ∀ m : LwsMonitor 64, ∃ passed, monitorPairs (bufs.map .memory) (fun _ => some 0) m = some passed ∧
        passed = untilRejected modifyMonitor pairs m ∧
        (agrees → keyed passed = untilRejected modifyMonitor (keyed (fields.filterMap fieldPair)) m) :=
  monitor_form_iff _ (fun _ => 0) (by decide +kernel) (by decide)

/-! ## The end of the body -/

/-- The block with `body.len` bytes: what is copied, and what the memory held. -/
def blockBytes (bufs : List BodyBuf) (fill : Nat → UInt8) : Key :=
  (List.range (bufs.map BodyBuf.size).sum).map fun p => (bufs.flatMap BodyBuf.copied)[p]?.getD (fill p)

/-- The memory of the block: `fill` in the block, and `after` from its end on. -/
def fillBlock (bufs : List BodyBuf) (fill : Nat → UInt8) (after : Nat → Option UInt8) (p : Nat) : Option UInt8 :=
  if p < (bufs.map BodyBuf.size).sum then some (fill p) else after p

def PostRequest.pairs {w : Nat} (r : PostRequest) (old : Nat → Option UInt8) (m : LwsMonitor w) : Option (List (Key × Key)) :=
  match monitorBlock r old with
  | .error _ => some []
  | .ok _ => monitorPairs (r.body.getD []) old m

theorem blockBytes_length (bufs : List BodyBuf) (fill : Nat → UInt8) :
    (blockBytes bufs fill).length = (bufs.map BodyBuf.size).sum := by
  rw [blockBytes, List.length_map, List.length_range]

theorem fillBlock_bodyAt (bufs : List BodyBuf) (fill : Nat → UInt8) (after : Nat → Option UInt8) :
    BodyAt (copiedMemory (bufs.flatMap BodyBuf.copied) (fillBlock bufs fill after)) (blockBytes bufs fill)
      (after (bufs.map BodyBuf.size).sum) := by
  have hlen := blockBytes_length bufs fill
  constructor
  · intro p hp
    rw [hlen] at hp
    rw [copiedMemory, fillBlock, if_pos hp, blockBytes, List.getElem?_map, List.getElem?_range hp, Option.map_some]
    cases (bufs.flatMap BodyBuf.copied)[p]? <;> rfl
  · rw [hlen, copiedMemory, List.getElem?_eq_none (copied_length_le bufs), fillBlock, if_neg (Nat.lt_irrefl _), Option.none_or]

section
variable {σ : Type} {act : Key → Key → σ → σ × Int}

theorem applyPairs_append : ∀ (pairs others : List (Key × Key)) {x : σ}, (applyPairs act pairs x).2 ≠ ngxOk →
    applyPairs act (pairs ++ others) x = applyPairs act pairs x
  | [], _, _, h => absurd rfl h
  | (key, value) :: pairs, others, x, h => by
    rw [List.cons_append, applyPairs, applyPairs]
    rw [applyPairs] at h
    by_cases hr : (act key value x).2 ≠ ngxOk
    · rw [if_pos hr, if_pos hr]
    · rw [if_neg hr] at h
      rw [if_neg hr, if_neg hr, applyPairs_append pairs others h]

theorem applyFound_outside {body : Key} {x : σ} (h : EndsInKey body ∧ (applyPairs act (postPairs body).dropLast x).2 = ngxOk) :
    applyFound act none body x = none :=
  if_pos h

theorem applyFound_inside {body : Key} {x : σ} (h : ¬(EndsInKey body ∧ (applyPairs act (postPairs body).dropLast x).2 = ngxOk))
    (after : Option UInt8) : applyFound act after body x = some (applyPairs act (postPairs body) x) := by
  cases after with
  | none => exact if_neg h
  | some after =>
    rw [applyFound, foundPairs]
    split
    · rename_i hends
      have hrejected : (applyPairs act (postPairs body).dropLast x).2 ≠ ngxOk := fun hok => h ⟨hends.2, hok⟩
      rw [← applyPairs_append _ [(postPairs body).getLast (postPairs_ne_nil body)] hrejected, List.dropLast_append_getLast]
    · rfl

end

section
variable {w : Nat} (bufs : List BodyBuf) (fill : Nat → UInt8) (m : LwsMonitor w)

/-- The loop reads the byte after the block: the block ends in a key, and all pairs before the last are accepted. -/
def ReadsAfter : Prop :=
  EndsInKey (blockBytes bufs fill) ∧ (applyPairs modifyMonitor (postPairs (blockBytes bufs fill)).dropLast m).2 = ngxOk

instance : Decidable (ReadsAfter bufs fill m) := inferInstanceAs (Decidable (_ ∧ _))

theorem parseBlock_eq (content : ContentAlloc) (after : Nat → Option UInt8) :
    parseBlock (copiedMemory (bufs.flatMap BodyBuf.copied) (fillBlock bufs fill after)) (bufs.map BodyBuf.size).sum content m =
      (applyFound modifyMonitor (after (bufs.map BodyBuf.size).sum) (blockBytes bufs fill) m).map fun r =>
        if r.2 ≠ ngxOk then r else (r.1, contentStatus content) := by
  have hloop := (postLoop_eq (fillBlock_bodyAt bufs fill after) (fun x hkey hvalue => modification_eq hkey hvalue x)
    ((blockBytes bufs fill).length + 1) (blockBytes bufs fill) { target := m } (Nat.lt_succ_self _) rfl (Nat.zero_add _) rfl).1 rfl
  rw [blockBytes_length] at hloop
  rw [parseBlock, hloop]

theorem monitorPairs_eq (after : Nat → Option UInt8) : monitorPairs bufs (fillBlock bufs fill after) m =
    (applyFound (noteAct modifyMonitor) (after (bufs.map BodyBuf.size).sum) (blockBytes bufs fill) (m, [])).map fun r => r.1.2 := by
  have hloop := (postLoop_eq (fillBlock_bodyAt bufs fill after)
    (noteModification_eq fun x hkey hvalue => modification_eq hkey hvalue x)
    ((blockBytes bufs fill).length + 1) (blockBytes bufs fill) { target := (m, []) } (Nat.lt_succ_self _) rfl (Nat.zero_add _)
    rfl).1 rfl
  rw [blockBytes_length] at hloop
  rw [monitorPairs, pairsPassed, hloop]

theorem parseBlock_inside (content : ContentAlloc) :
    (∃ result passed, ∀ after,
      parseBlock (copiedMemory (bufs.flatMap BodyBuf.copied) (fillBlock bufs fill after)) (bufs.map BodyBuf.size).sum content m =
        some result ∧ monitorPairs bufs (fillBlock bufs fill after) m = some passed) ↔ ¬ReadsAfter bufs fill m := by
  constructor
  · rintro ⟨result, passed, hrun⟩ hreads
    obtain ⟨hnone, -⟩ := hrun fun _ => none
    rw [parseBlock_eq, applyFound_outside hreads] at hnone
    cases hnone
  · intro hreads
    have hpairs : ¬(EndsInKey (blockBytes bufs fill) ∧
        (applyPairs (noteAct modifyMonitor) (postPairs (blockBytes bufs fill)).dropLast (m, [])).2 = ngxOk) := by
      rw [applyPairs_note]
      exact hreads
    let r := applyPairs modifyMonitor (postPairs (blockBytes bufs fill)) m
    let noted := applyPairs (noteAct modifyMonitor) (postPairs (blockBytes bufs fill)) (m, [])
    refine ⟨if r.2 ≠ ngxOk then r else (r.1, contentStatus content), noted.1.2, fun after => ⟨?_, ?_⟩⟩
    · rw [parseBlock_eq, applyFound_inside hreads, Option.map_some]
    · rw [monitorPairs_eq, applyFound_inside hpairs, Option.map_some]

end

/-- **A POST is parsed inside its body if and only if it does not end in a key**, or is rejected before: whatever the memory
after the block is, also where it cannot be read, the pairs that are passed, the monitor and the status are the same. -/
theorem monitor_stays_inside_iff {w : Nat} (r : PostRequest) (fill : Nat → UInt8) (m : LwsMonitor w) :
    let bufs := r.body.getD []
    (∃ result passed, ∀ after, lwsMonitorBodyHandler r (fillBlock bufs fill after) m = some result ∧
        r.pairs (fillBlock bufs fill after) m = some passed) ↔
      bufs = [] ∨ r.palloc = false ∨ ¬ReadsAfter bufs fill m := by
  intro bufs
  by_cases hrejected : bufs = [] ∨ r.palloc = false
  · obtain ⟨rc, hrc⟩ := monitorBlock_error hrejected
    refine iff_of_true ⟨(m, rc), [], fun after => ⟨?_, ?_⟩⟩ (by rwa [← or_assoc, or_iff_left_of_imp fun _ => hrejected])
    · rw [lwsMonitorBodyHandler_block, hrc]
    · rw [PostRequest.pairs, hrc]
  · obtain ⟨hbufs, hpalloc⟩ := not_or.1 hrejected
    rw [← or_assoc, or_iff_right hrejected, ← parseBlock_inside bufs fill m r.content]
    have hblock (old : Nat → Option UInt8) : monitorBlock r old = .ok _ :=
      monitorBlock_ok.2 ⟨hbufs, eq_true_of_ne_false hpalloc, rfl, rfl⟩
    simp only [lwsMonitorBodyHandler_block, PostRequest.pairs, hblock]
    rfl

/-- A body that is a key: the byte after it is read, and where it is `=` the pair is not passed. -/
theorem monitor_reads_after :
    let body := literal "a"
    let bufs : List BodyBuf := [.memory ⟨body, 0, body.length, Nat.zero_le _, Nat.le_refl _⟩]
    let r : PostRequest := ⟨some bufs, true, {}⟩
    let m : LwsMonitor 64 := {}
    lwsMonitorBodyHandler r (fillBlock bufs (fun _ => 0) fun _ => none) m = none ∧
      r.pairs (fillBlock bufs (fun _ => 0) fun _ => some 0) m = some [(body, [])] ∧
      r.pairs (fillBlock bufs (fun _ => 0) fun _ => some 0x3d) m = some [] := by
  decide +kernel

end Lws

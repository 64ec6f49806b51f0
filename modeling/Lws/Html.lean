import Mathlib.Data.List.Basic
/-!
# Html — what a page of bytes is read as

`read` reads line ends, tags, text and character references, as far as a page without comments and scripts needs it.  A text
stands for bytes wherever it is written between tags (`IsText`), so that a page that is put together from a frame and an escaped
text is read as the frame with the bytes as text, and no tag besides.
-/
namespace Html

abbrev Bytes := List UInt8

/-- A tag, by what stands between its brackets, or a byte of text. -/
inductive Token where
  | tag (name : Bytes)
  | text (c : UInt8)
deriving DecidableEq

inductive Mode where
  | text
  | tag (name : Bytes)
  | reference (name : Bytes)
deriving DecidableEq

/-- The character references `lt`, `gt`, `amp` and `quot`. -/
def references : List (Bytes × UInt8) :=
  [([0x6c, 0x74], 0x3c), ([0x67, 0x74], 0x3e), ([0x61, 0x6d, 0x70], 0x26), ([0x71, 0x75, 0x6f, 0x74], 0x22)]

def unread (name : Bytes) : List Token := .text 0x26 :: name.map .text

def isLetter (c : UInt8) : Bool := (0x61 ≤ c && c ≤ 0x7a) || (0x41 ≤ c && c ≤ 0x5a) || (0x30 ≤ c && c ≤ 0x39)

def readText (c : UInt8) : Mode × List Token :=
  if c = 0x3c then (.tag [], []) else if c = 0x26 then (.reference [], []) else (.text, [.text c])

/-- One byte is read: the mode, and the tokens that are complete. -/
def readByte : Mode → UInt8 → Mode × List Token
  | .text, c => readText c
  | .tag name, c => if c = 0x3e then (.text, [.tag name]) else (.tag (name ++ [c]), [])
  | .reference name, c =>
    if c = 0x3b then (.text, match references.lookup name with
      | some c => [.text c]
      | none => unread name ++ [.text 0x3b])
    else if isLetter c then (.reference (name ++ [c]), [])
    else ((readText c).1, unread name ++ (readText c).2)

/-- The tokens of some bytes, with the mode they leave. -/
def scan : Mode → Bytes → Mode × List Token
  | mode, [] => (mode, [])
  | mode, c :: s => ((scan (readByte mode c).1 s).1, (readByte mode c).2 ++ (scan (readByte mode c).1 s).2)

/-- The tokens of some bytes; a tag that is not closed is none. -/
def tokens (s : Bytes) : List Token :=
  (scan .text s).2 ++ match (scan .text s).1 with
    | .reference name => unread name
    | _ => []

/-- CR LF and CR are line feeds; the flag is whether the byte before was a CR. -/
def normalise : Bool → Bytes → Bytes
  | _, [] => []
  | cr, c :: s =>
    if c = 0x0d then 0x0a :: normalise true s
    else if cr ∧ c = 0x0a then normalise false s
    else c :: normalise false s

def pre : Bytes := [0x70, 0x72, 0x65]

/-- A NUL is dropped, and so is a line feed that comes next after `pre`; the flag is whether the token before was that tag. -/
def construct : Bool → List Token → List Token
  | _, [] => []
  | _, .tag name :: ts => .tag name :: construct (name = pre) ts
  | start, .text c :: ts =>
    if c = 0 ∨ (start ∧ c = 0x0a) then construct false ts else .text c :: construct false ts

def read (page : Bytes) : List Token := construct false (tokens (normalise false page))

theorem scan_append : ∀ (mode : Mode) (s s' : Bytes),
    scan mode (s ++ s') = ((scan (scan mode s).1 s').1, (scan mode s).2 ++ (scan (scan mode s).1 s').2)
  | mode, [], s' => rfl
  | mode, c :: s, s' => by
    rw [List.cons_append, scan, scan_append _ s s', scan, List.append_assoc]

def IsText (bytes text : Bytes) : Prop := scan .text bytes = (.text, text.map .text)

instance (bytes text : Bytes) : Decidable (IsText bytes text) := inferInstanceAs (Decidable (scan .text bytes = (.text, text.map .text)))

theorem isText_nil : IsText [] [] := rfl

theorem IsText.append {bytes bytes' text text' : Bytes} (h : IsText bytes text) (h' : IsText bytes' text') :
    IsText (bytes ++ bytes') (text ++ text') := by
  rw [IsText, scan_append, h, h', List.map_append]

/-- **A text that is escaped byte by byte** stands for the bytes. -/
theorem isText_flatMap {f : UInt8 → Bytes} (h : ∀ c, IsText (f c) [c]) : ∀ text : Bytes, IsText (text.flatMap f) text
  | [] => isText_nil
  | c :: text => by
    rw [List.flatMap_cons]
    exact (h c).append (isText_flatMap h text)

theorem isText_plain : ∀ {text : Bytes}, (∀ c ∈ text, c ≠ 0x3c ∧ c ≠ 0x26) → IsText text text
  | [], _ => isText_nil
  | c :: text, h => by
    obtain ⟨hlt, hamp⟩ := h c List.mem_cons_self
    have hc : IsText [c] [c] := by
      change ((readText c).1, (readText c).2 ++ []) = _
      rw [readText, if_neg hlt, if_neg hamp]
      rfl
    exact hc.append (isText_plain fun c' hc' => h c' (List.mem_cons_of_mem c hc'))

def IsMarkup (bytes : Bytes) (tokens : List Token) : Prop := scan .text bytes = (.text, tokens)

instance (bytes : Bytes) (tokens : List Token) : Decidable (IsMarkup bytes tokens) :=
  inferInstanceAs (Decidable (scan .text bytes = (.text, tokens)))

theorem isMarkup_of_closed {bytes : Bytes} (h : (scan .text bytes).1 = .text) : IsMarkup bytes (scan .text bytes).2 := Prod.ext h rfl

theorem IsText.markup {bytes text : Bytes} (h : IsText bytes text) : IsMarkup bytes (text.map .text) := h

theorem IsMarkup.append {bytes bytes' : Bytes} {tokens tokens' : List Token} (h : IsMarkup bytes tokens)
    (h' : IsMarkup bytes' tokens') : IsMarkup (bytes ++ bytes') (tokens ++ tokens') := by
  rw [IsMarkup, scan_append, h, h']

theorem IsMarkup.tokens {page : Bytes} {tokens : List Token} (h : IsMarkup page tokens) : Html.tokens page = tokens := by
  rw [Html.tokens, h]
  exact List.append_nil tokens

/-! ## Line ends -/

theorem normalise_append : ∀ {s : Bytes} (s' : Bytes), 0x0d ∉ s → normalise false (s ++ s') = s ++ normalise false s'
  | [], _, _ => rfl
  | c :: s, s', h => by
    have hc : c ≠ 0x0d := fun hc => h (hc ▸ List.mem_cons_self)
    rw [List.cons_append, normalise, if_neg hc, if_neg (fun h => Bool.false_ne_true h.1),
      normalise_append s' fun hmem => h (List.mem_cons_of_mem c hmem), List.cons_append]

theorem normalise_self {s : Bytes} (h : 0x0d ∉ s) : normalise false s = s := by
  have happend := normalise_append [] h
  rwa [List.append_nil, normalise, List.append_nil] at happend

theorem normalise_append_of_head {s' : Bytes} (h : s'.head? ≠ some 0x0a) : ∀ (cr : Bool) (s : Bytes),
    normalise cr (s ++ s') = normalise cr s ++ normalise false s'
  | cr, [] => by
    cases s' with
    | nil => rfl
    | cons c s' =>
      have hc : c ≠ 0x0a := fun hc => h (congrArg some hc)
      simp only [List.nil_append, normalise, hc, and_false, if_false]
  | cr, c :: s => by
    simp only [List.cons_append, normalise, normalise_append_of_head h]
    split
    · rfl
    · split
      · rfl
      · rfl

theorem tag_mem_scan : ∀ (s : Bytes) {name : Bytes} {ts : List Token}, scan (.tag name) s = (.text, ts) → ∃ name, .tag name ∈ ts
  | [], _, _, h => by cases h
  | c :: s, name, ts, h => by
    rw [scan, readByte] at h
    split at h
    · obtain ⟨-, rfl⟩ := Prod.mk.inj h
      exact ⟨name, List.mem_cons_self⟩
    · exact tag_mem_scan s h

theorem scan_tag_ne {s name text : Bytes} : scan (.tag name) s ≠ (.text, text.map .text) := fun h => by
  obtain ⟨name, hmem⟩ := tag_mem_scan s h
  obtain ⟨c, -, hc⟩ := List.mem_map.1 hmem
  cases hc

theorem scan_reference {c : UInt8} (hc : c ≠ 0x3b) (hletter : isLetter c = false) (name s : Bytes) :
    scan (.reference name) (c :: s) = ((scan .text (c :: s)).1, unread name ++ (scan .text (c :: s)).2) := by
  simp only [scan, readByte, if_neg hc, hletter, Bool.false_eq_true, if_false, List.append_assoc]

theorem scan_plain {c : UInt8} (hlt : c ≠ 0x3c) (hamp : c ≠ 0x26) (s : Bytes) :
    scan .text (c :: s) = ((scan .text s).1, .text c :: (scan .text s).2) := by
  simp only [scan, readByte, readText, if_neg hlt, if_neg hamp, List.singleton_append]

theorem normalise_cons {c : UInt8} (hcr : c ≠ 0x0d) (hlf : c ≠ 0x0a) (cr : Bool) (s : Bytes) :
    normalise cr (c :: s) = c :: normalise false s := by rw [normalise, if_neg hcr, if_neg fun h => hlf h.2]

theorem references_lookup {name : Bytes} {c : UInt8} (h : references.lookup name = some c) : c ≠ 0x0d ∧ c ≠ 0x0a := by
  have hall : ∀ p ∈ references, p.2 ≠ 0x0d ∧ p.2 ≠ 0x0a := by decide
  obtain ⟨before, after, hsplit, -⟩ := List.lookup_eq_some_iff.1 h
  exact hall (name, c) (hsplit ▸ List.mem_append_right before List.mem_cons_self)

theorem text_after {c : UInt8} {emitted text : Bytes} {rest : List Token} (hcr : c ≠ 0x0d) (hlf : c ≠ 0x0a)
    (hemitted : 0x0d ∉ emitted) (h : (c :: emitted).map .text ++ rest = text.map .text) :
    ∃ text', rest = text'.map .text ∧
      ∀ cr, (normalise cr text).map Token.text = (c :: emitted).map .text ++ (normalise false text').map .text := by
  obtain ⟨before, after, rfl, hbefore, hafter⟩ := List.map_eq_append_iff.1 h.symm
  obtain rfl := List.map_injective_iff.2 (fun _ _ => Token.text.inj) hbefore
  refine ⟨after, hafter.symm, fun cr => ?_⟩
  rw [List.cons_append, normalise_cons hcr hlf, normalise_append after hemitted, ← List.map_append, List.cons_append]

/-- Bytes of which line ends are read the same way in the text that they stand for. -/
def Normal (s : Bytes) : Prop :=
  ∀ {cr : Bool} {text : Bytes}, scan .text s = (.text, text.map .text) →
    scan .text (normalise cr s) = (.text, (normalise cr text).map .text)

/-- The same of bytes after the start of a reference, which is no line end. -/
def NormalAfter (s : Bytes) : Prop :=
  ∀ {cr : Bool} {name text : Bytes}, (∀ c ∈ name, isLetter c = true) → scan (.reference name) s = (.text, text.map .text) →
    scan (.reference name) (normalise false s) = (.text, (normalise cr text).map .text)

/-- **A byte of text**, or the start of a reference. -/
theorem Normal.cons {s : Bytes} (h : Normal s) (hafter : NormalAfter s) (c : UInt8) : Normal (c :: s) := by
  intro cr text hscan
  by_cases hlt : c = 0x3c
  · rw [scan, readByte, readText, if_pos hlt] at hscan
    exact absurd hscan scan_tag_ne
  by_cases hamp : c = 0x26
  · subst hamp
    rw [normalise_cons (by decide) (by decide)]
    exact hafter (by simp) hscan
  rw [scan_plain hlt hamp] at hscan
  obtain ⟨hend, hcons⟩ := Prod.mk.inj hscan
  obtain ⟨c', text', rfl, hc', hrest⟩ := List.map_eq_cons_iff.1 hcons.symm
  obtain rfl := Token.text.inj hc'
  have hs (cr : Bool) : scan .text (normalise cr s) = (.text, (normalise cr text').map .text) := h (Prod.ext hend hrest.symm)
  rw [normalise, normalise]
  split
  · rw [scan_plain (by decide) (by decide), hs]
    rfl
  · split
    · exact hs false
    · rw [scan_plain hlt hamp, hs]
      rfl

/-- The end of a reference. -/
theorem Normal.semicolon {s : Bytes} (h : Normal s) {cr : Bool} {name text : Bytes} (hname : 0x0d ∉ name)
    (hscan : scan (.reference name) (0x3b :: s) = (.text, text.map .text)) :
    scan (.reference name) (normalise false (0x3b :: s)) = (.text, (normalise cr text).map .text) := by
  rw [scan, readByte, if_pos rfl] at hscan
  rw [normalise_cons (by decide) (by decide), scan, readByte, if_pos rfl]
  obtain ⟨hmode, htokens⟩ := Prod.mk.inj hscan
  cases hlookup : references.lookup name with
  | some c =>
    rw [hlookup] at htokens
    obtain ⟨hcr, hlf⟩ := references_lookup hlookup
    have htokens : [c].map Token.text ++ (scan .text s).2 = text.map .text := htokens
    obtain ⟨text', hrest, hnormalise⟩ := text_after hcr hlf List.not_mem_nil htokens
    rw [hnormalise, h (Prod.ext hmode hrest)]
    rfl
  | none =>
    have hunread : unread name ++ [.text 0x3b] = (0x26 :: (name ++ [0x3b])).map .text := by rw [unread]; simp
    rw [hlookup, hunread] at htokens
    obtain ⟨text', hrest, hnormalise⟩ := text_after (by decide) (by decide) (by simpa using hname) htokens
    rw [hnormalise, h (Prod.ext hmode hrest), ← hunread]

/-- **A byte in a reference**: another one than a letter and a semicolon ends it, and is read as text. -/
theorem NormalAfter.cons {s : Bytes} {c : UInt8} (h : Normal s) (hafter : NormalAfter s) (htext : Normal (c :: s)) :
    NormalAfter (c :: s) := by
  intro cr name text hletters hscan
  have hname : 0x0d ∉ name := fun hmem => absurd (hletters _ hmem) (by decide)
  by_cases hend : c = 0x3b
  · subst hend
    exact h.semicolon hname hscan
  by_cases hletter : isLetter c = true
  · have hcr : c ≠ 0x0d := fun hc => absurd (hc ▸ hletter) (by decide)
    have hlf : c ≠ 0x0a := fun hc => absurd (hc ▸ hletter) (by decide)
    rw [scan, readByte, if_neg hend, if_pos hletter] at hscan
    rw [normalise_cons hcr hlf, scan, readByte, if_neg hend, if_pos hletter]
    refine hafter (fun c' hc' => ?_) hscan
    rcases List.mem_append.1 hc' with hc' | hc'
    · exact hletters c' hc'
    · rwa [List.mem_singleton.1 hc']
  have hletter : isLetter c = false := by simpa using hletter
  have hnormal : scan (.reference name) (normalise false (c :: s)) =
      ((scan .text (normalise false (c :: s))).1, unread name ++ (scan .text (normalise false (c :: s))).2) := by
    simp only [normalise, Bool.false_eq_true, false_and, if_false]
    split
    · exact scan_reference (c := 0x0a) (by decide) (by decide) name _
    · exact scan_reference hend hletter name _
  rw [scan_reference hend hletter] at hscan
  obtain ⟨hmode, htokens⟩ := Prod.mk.inj hscan
  obtain ⟨text', hrest, hnormalise⟩ := text_after (c := 0x26) (by decide) (by decide) hname htokens
  rw [hnormal, hnormalise, htext (Prod.ext hmode hrest)]
  rfl

theorem normal : ∀ s : Bytes, Normal s ∧ NormalAfter s
  | [] => by
    refine ⟨fun h => ?_, fun _ h => (nomatch h)⟩
    obtain rfl := List.map_eq_nil_iff.1 (Prod.mk.inj h).2.symm
    rfl
  | c :: s => by
    obtain ⟨h, hafter⟩ := normal s
    have htext : Normal (c :: s) := h.cons hafter c
    exact ⟨htext, NormalAfter.cons h hafter htext⟩

/-- **A text is normalised** as the bytes are that stand for it. -/
theorem IsText.normalise {bytes text : Bytes} (h : IsText bytes text) :
    IsText (Html.normalise false bytes) (Html.normalise false text) := (normal bytes).1 h

/-! ## What a page has -/

def tags (tokens : List Token) : List Bytes :=
  tokens.filterMap fun
    | .tag name => some name
    | .text _ => none

def Token.isText : Token → Bool
  | .tag _ => false
  | .text _ => true

def inside (name : Bytes) (tokens : List Token) : List Token := ((tokens.dropWhile (· ≠ .tag name)).tail).takeWhile Token.isText

theorem tags_append (tokens tokens' : List Token) : tags (tokens ++ tokens') = tags tokens ++ tags tokens' := List.filterMap_append

@[simp] theorem tags_text (text : Bytes) : tags (text.map .text) = [] := by
  rw [tags, List.filterMap_map]
  exact List.filterMap_none text

/-! ## What comes of the tokens -/

/-- What text right after `pre` comes to. -/
def preText (text : Bytes) : Bytes :=
  (if (normalise false text).head? = some 0x0a then (normalise false text).tail else normalise false text).filter (· ≠ 0)

theorem preText_self {text : Bytes} (hcr : 0x0d ∉ text) (hnul : 0 ∉ text) (hlf : text.head? ≠ some 0x0a) : preText text = text := by
  rw [preText, normalise_self hcr, if_neg hlf, List.filter_eq_self]
  exact fun c hc => decide_eq_true fun h => hnul (h ▸ hc)

theorem construct_append (name : Bytes) (after : List Token) : ∀ (start : Bool) (before : List Token),
    construct start (before ++ .tag name :: after) = construct start before ++ .tag name :: construct (name = pre) after
  | _, [] => rfl
  | start, .tag name' :: before => by
    rw [List.cons_append, construct, construct, construct_append name after, List.cons_append]
  | start, .text c :: before => by
    rw [List.cons_append, construct, construct, construct_append name after]
    split
    · rfl
    · rfl

theorem construct_sublist : ∀ (start : Bool) (ts : List Token), (construct start ts).Sublist ts
  | _, [] => .slnil
  | _, .tag _ :: ts => (construct_sublist _ ts).cons_cons _
  | start, .text c :: ts => by
    rw [construct]
    split
    · exact (construct_sublist false ts).cons _
    · exact (construct_sublist false ts).cons_cons _

theorem tags_construct : ∀ (start : Bool) (ts : List Token), tags (construct start ts) = tags ts
  | _, [] => rfl
  | _, .tag name :: ts => congrArg (name :: ·) (tags_construct _ ts)
  | start, .text c :: ts => by
    rw [construct]
    split
    · exact tags_construct false ts
    · exact tags_construct false ts

theorem construct_text : ∀ text : Bytes, construct false (text.map .text) = (text.filter (· ≠ 0)).map .text
  | [] => rfl
  | c :: text => by
    rw [List.map_cons, construct, construct_text text, List.filter_cons]
    by_cases hc : c = 0
    · simp [hc]
    · simp [hc]

theorem construct_pre (text : Bytes) : construct true ((normalise false text).map .text) = (preText text).map .text := by
  unfold preText
  generalize normalise false text = text
  cases text with
  | nil => rfl
  | cons c text =>
    by_cases hc : c = 0x0a
    · subst hc
      exact construct_text text
    · have hhead : (c :: text).head? ≠ some 0x0a := fun h => hc (Option.some.inj h)
      rw [if_neg hhead, ← construct_text]
      simp only [List.map_cons, construct, hc, and_false, or_false]

theorem inside_eq {name : Bytes} {before after : List Token} {text name' : Bytes} (h : .tag name ∉ before) :
    inside name (before ++ .tag name :: (text.map .text ++ .tag name' :: after)) = text.map .text := by
  have hbefore : ∀ t ∈ before, decide (t ≠ .tag name) = true := fun t ht => decide_eq_true fun heq => h (heq ▸ ht)
  have htext : ∀ t ∈ text.map Token.text, t.isText = true := fun t ht => by
    obtain ⟨c, -, rfl⟩ := List.mem_map.1 ht
    rfl
  rw [inside, List.dropWhile_append_of_pos hbefore, List.dropWhile_cons_of_neg (by simp), List.tail_cons,
    List.takeWhile_append_of_pos htext, List.takeWhile_cons_of_neg (by simp [Token.isText]), List.append_nil]

/-- **A page of a frame and a text in `pre`** is read as the tags of the frame, with what the text comes to. -/
theorem read_pre {before after : List Token} {name text bytes : Bytes} (hnot : .tag pre ∉ before)
    (h : tokens (normalise false bytes) = before ++ .tag pre :: ((normalise false text).map .text ++ .tag name :: after)) :
    tags (read bytes) = tags before ++ pre :: name :: tags after ∧ inside pre (read bytes) = (preText text).map .text := by
  have hread : read bytes = construct false before ++ .tag pre :: ((preText text).map .text ++ .tag name ::
      construct (name = pre) after) := by
    rw [read, h, construct_append, construct_append, decide_eq_true rfl, construct_pre]
  refine ⟨?_, ?_⟩
  · rw [read, tags_construct, h, tags_append, ← List.singleton_append, tags_append, tags_append, tags_text]
    rfl
  · rw [hread]
    exact inside_eq fun hmem => hnot ((construct_sublist false before).subset hmem)

end Html

import Lws.ResponseHeader
/-!
# SetCookie — the unfolding of a `Set-Cookie` header (`lws_set_response_header`, `lws_module.c`)

A value with several cookies is cut at the commas that are not in an `Expires` attribute, and a header is pushed for each slice
before it is filled in.  Any value is cut into slices and separators that make it up again; and cookies that have a comma only
in their `Expires` attributes are cut apart where they were joined.
-/
namespace Lws

variable {b : Build}

/-! ## The loop on the value -/

abbrev Slice := Nat × Nat

def slice (value : Key) (s : Slice) : Key := (value.drop s.1).take s.2

/-- The loop that unfolds a cookie, over offsets into the value.  The headers pushed for it are slots, none until they are filled
in; the last one is `h`, and `push` says whether `ngx_list_push` succeeds. -/
def cookieLoop (push : Nat → Bool) (value : Key) : Nat → Nat → List (Option Slice) → Option (List (Option Slice))
  | 0, _, _ => none
  | fuel + 1, vstart, slots =>
    let vpos := vstart + cookieLength false (value.drop vstart)
    let slots := slots.set (slots.length - 1) (some (vstart, vpos - vstart))
    if vpos = value.length then some slots
    else
      let vstart := vpos + 1 + ((value.drop (vpos + 1)).takeWhile fun c => c = 0x20).length
      if vstart = value.length then some slots
      else if !push slots.length then none
      else cookieLoop push value fuel vstart (slots ++ [none])

def IsSeparator (sep : Key) : Prop := ∃ n, sep = 0x2c :: List.replicate n 0x20

/-- Slices of a value and the separators after them: all but the last one are separators, and the last one is one or empty. -/
structure Cut (value : Key) (vstart : Nat) (slices : List Slice) (seps : List Key) : Prop where
  inside : ∀ s ∈ slices, s.1 + s.2 ≤ value.length
  length : seps.length = slices.length
  whole : value.drop vstart = ((slices.map (slice value)).zip seps).flatMap fun p => p.1 ++ p.2
  between : ∀ sep ∈ seps.dropLast, IsSeparator sep
  last : ∀ sep ∈ seps.getLast?, sep = [] ∨ IsSeparator sep

theorem cookieLength_le : ∀ (expires : Bool) (value : Key), cookieLength expires value ≤ value.length
  | _, [] => Nat.le_refl 0
  | expires, c :: rest => by
    rw [cookieLength, List.length_cons]
    split
    · exact Nat.succ_le_succ (cookieLength_le _ rest)
    · split
      · split
        · exact Nat.succ_le_succ (cookieLength_le _ rest)
        · exact Nat.zero_le _
      · exact Nat.succ_le_succ (cookieLength_le _ rest)

theorem cookieLength_comma : ∀ (expires : Bool) (value : Key), cookieLength expires value ≠ value.length →
    ∃ rest, value.drop (cookieLength expires value) = 0x2c :: rest
  | _, [], h => absurd rfl h
  | expires, c :: rest, h => by
    rw [cookieLength, List.length_cons] at h
    rw [cookieLength]
    split at h
    · rename_i hc
      rw [if_pos hc, List.drop_succ_cons]
      exact cookieLength_comma _ rest fun he => h (congrArg (· + 1) he)
    · rename_i hc
      rw [if_neg hc]
      split at h
      · rename_i hcomma
        rw [if_pos hcomma]
        split at h
        · rename_i hexpires
          rw [if_pos hexpires, List.drop_succ_cons]
          exact cookieLength_comma _ rest fun he => h (congrArg (· + 1) he)
        · rename_i hexpires
          rw [if_neg hexpires, hcomma]
          exact ⟨rest, rfl⟩
      · rename_i hcomma
        rw [if_neg hcomma, List.drop_succ_cons]
        exact cookieLength_comma _ rest fun he => h (congrArg (· + 1) he)

theorem Cut.one {value : Key} {vstart : Nat} {n : Nat} {sep : Key} (hle : vstart + n ≤ value.length)
    (hwhole : value.drop vstart = slice value (vstart, n) ++ sep) (hsep : sep = [] ∨ IsSeparator sep) :
    Cut value vstart [(vstart, n)] [sep] where
  inside s hs := by
    rw [List.mem_singleton.1 hs]
    exact hle
  length := rfl
  whole := by
    rw [hwhole, List.map_singleton, List.zip_cons_cons, List.flatMap_cons, List.zip_nil_right, List.flatMap_nil, List.append_nil]
  between _ hs := nomatch hs
  last s hs := by
    obtain rfl : sep = s := Option.some.inj hs
    exact hsep

theorem Cut.cons {value : Key} {vstart next n : Nat} {sep : Key} {slices : List Slice} {seps : List Key}
    (hle : vstart + n ≤ value.length) (hwhole : value.drop vstart = slice value (vstart, n) ++ (sep ++ value.drop next))
    (hsep : IsSeparator sep) (hne : seps ≠ []) (h : Cut value next slices seps) :
    Cut value vstart ((vstart, n) :: slices) (sep :: seps) where
  inside := List.forall_mem_cons.2 ⟨hle, h.inside⟩
  length := congrArg (· + 1) h.length
  whole := by
    rw [hwhole, h.whole, List.map_cons, List.zip_cons_cons, List.flatMap_cons, List.append_assoc]
  between := by
    rw [List.dropLast_cons_of_ne_nil hne]
    exact List.forall_mem_cons.2 ⟨hsep, h.between⟩
  last := by
    rw [List.getLast?_cons_of_ne_nil hne]
    exact h.last

/-- **A slice that ends before the value does** is followed by a separator. -/
theorem cookieLength_cut {value : Key} {vstart n : Nat} (hn : cookieLength false (value.drop vstart) = n)
    (hle : vstart + n < value.length) : ∃ k, vstart + n + 1 + k ≤ value.length ∧
      ((value.drop (vstart + n + 1)).takeWhile fun c => c = 0x20).length = k ∧
      ((value.drop (vstart + n + 1)).dropWhile fun c => c = 0x20) = value.drop (vstart + n + 1 + k) ∧
      value.drop vstart = slice value (vstart, n) ++ (0x2c :: List.replicate k 0x20 ++ value.drop (vstart + n + 1 + k)) := by
  obtain ⟨rest, hrest⟩ := cookieLength_comma false (value.drop vstart) (by rw [hn, List.length_drop]; omega)
  rw [hn, List.drop_drop] at hrest
  have hafter : value.drop (vstart + n + 1) = rest := by rw [← List.drop_drop, hrest, List.drop_one, List.tail_cons]
  obtain ⟨spaces, hspaces⟩ : ∃ spaces, rest.takeWhile (fun c => c = 0x20) = spaces := ⟨_, rfl⟩
  have happend := @List.takeWhile_append_dropWhile _ (fun c : UInt8 => decide (c = 0x20)) rest
  rw [hspaces] at happend
  have hreplicate : spaces = List.replicate spaces.length 0x20 := by
    refine List.eq_replicate_length.2 fun c hc => ?_
    rw [← hspaces] at hc
    have hspace := List.mem_takeWhile_imp hc
    exact of_decide_eq_true hspace
  have hdrop : value.drop (vstart + n + 1 + spaces.length) = rest.dropWhile fun c => c = 0x20 := by
    rw [← List.drop_drop, hafter]
    conv_lhs => rw [← happend, List.drop_left]
  have hlength : spaces.length ≤ rest.length := by
    rw [← hspaces]
    exact (List.takeWhile_prefix _).length_le
  refine ⟨spaces.length, ?_, by rw [hafter, hspaces], by rw [hafter, hdrop], ?_⟩
  · rw [← hafter, List.length_drop] at hlength
    omega
  · rw [hdrop, ← hreplicate, List.cons_append, happend, ← hrest, slice, ← List.drop_drop]
    exact (List.take_append_drop n _).symm

/-- **The loop ends**, with every header that it pushed filled in, and has cut the value; the loop over the bytes pushes the same
slices. -/
theorem cookieLoop_spec (value : Key) : ∀ (fuel vstart : Nat) (slots : List (Option Slice)), vstart ≤ value.length →
    value.length - vstart < fuel → ∃ slices seps, Cut value vstart slices seps ∧ slices ≠ [] ∧
      cookieLoop (fun _ => true) value fuel vstart (slots ++ [none]) = some (slots ++ slices.map some) ∧
      ∀ key out, unfoldCookie (fun _ => true) key fuel (value.drop vstart) out =
        some { out with headers := out.headers ++ slices.map fun s => (key, slice value s) }
  | 0, _, _, _, h => absurd h (Nat.not_lt_zero _)
  | fuel + 1, vstart, slots, hle, hfuel => by
    obtain ⟨n, hn⟩ : ∃ n, cookieLength false (value.drop vstart) = n := ⟨_, rfl⟩
    have hnle : n ≤ value.length - vstart := by
      rw [← hn, ← List.length_drop]
      exact cookieLength_le _ _
    have hset : (slots ++ [none]).set ((slots ++ [none]).length - 1) (some (vstart, vstart + n - vstart)) =
        slots ++ [some (vstart, n)] := by
      rw [List.length_append, List.length_singleton, Nat.add_sub_cancel, Nat.add_sub_cancel_left,
        List.set_append_right _ _ le_rfl, Nat.sub_self, List.set_cons_zero]
    simp only [cookieLoop, unfoldCookie, hn, hset]
    by_cases hend : vstart + n = value.length
    · -- the slice reaches to the end
      refine ⟨[(vstart, n)], [[]], Cut.one (le_of_eq hend) ?_ (.inl rfl), List.cons_ne_nil _ _, by rw [if_pos hend]; rfl,
        fun key out => ?_⟩
      · rw [List.append_nil, slice, List.take_of_length_le (by rw [List.length_drop]; dsimp only; omega)]
      · rw [if_pos (by rw [List.length_drop]; omega)]
        rfl
    · obtain ⟨k, hnext, htake, hdrop, hwhole⟩ := cookieLength_cut hn (by omega)
      have hunfold : ¬n = (value.drop vstart).length := by
        rw [List.length_drop]
        omega
      simp only [if_neg hend, htake, if_neg hunfold, List.drop_drop, ← Nat.add_assoc, hdrop]
      by_cases hlast : vstart + n + 1 + k = value.length
      · -- nothing follows the separator
        have hnil : value.drop (vstart + n + 1 + k) = [] := List.drop_eq_nil_of_le hlast.ge
        rw [hnil, List.append_nil] at hwhole
        refine ⟨[(vstart, n)], [0x2c :: List.replicate k 0x20], Cut.one (by omega) hwhole (.inr ⟨k, rfl⟩),
          List.cons_ne_nil _ _, by rw [if_pos hlast]; rfl, fun key out => ?_⟩
        rw [if_pos hnil]
        rfl
      · have hmore : value.drop (vstart + n + 1 + k) ≠ [] := fun he => hlast (le_antisymm hnext (List.drop_eq_nil_iff.1 he))
        obtain ⟨slices, seps, hcut, hne, hloop, hbytes⟩ := cookieLoop_spec value fuel (vstart + n + 1 + k)
          (slots ++ [some (vstart, n)]) hnext (by omega)
        have hseps : seps ≠ [] := fun he => hne (List.length_eq_zero_iff.1 (by rw [← hcut.length, he]; rfl))
        refine ⟨(vstart, n) :: slices, (0x2c :: List.replicate k 0x20) :: seps,
          Cut.cons (by omega) hwhole ⟨k, rfl⟩ hseps hcut, List.cons_ne_nil _ _, ?_, fun key out => ?_⟩
        · rw [if_neg hlast, if_neg (by decide), hloop, List.map_cons, List.append_assoc, List.singleton_append]
        · rw [if_neg hmore, if_neg (by decide), hbytes, List.map_cons, List.append_assoc, List.singleton_append]
          rfl

/-! ## Cookies that are joined -/

/-- An `Expires` attribute, from behind its semicolon on: blanks, and `Expires=` in letters of either case. -/
def ExpiresAttr (attr : Key) : Prop := SameName ((attr.dropWhile fun c => c = 0x20 || c = 0x09).take 8) (literal "Expires=")

instance (attr : Key) : Decidable (ExpiresAttr attr) := inferInstanceAs (Decidable (_ = _))

/-- A cookie: not empty and without a space at its start, a pair and attributes, each behind a semicolon, with no comma but one in
each `Expires` attribute. -/
structure CookieOk (cookie : Key) : Prop where
  nonempty : cookie ≠ []
  unspaced : cookie.head? ≠ some 0x20
  commas : ∃ (pair : Key) (attrs : List Key), cookie = pair ++ attrs.flatMap (0x3b :: ·) ∧ 0x3b ∉ pair ∧ 0x2c ∉ pair ∧
    ∀ attr ∈ attrs, 0x3b ∉ attr ∧ attr.count 0x2c = if ExpiresAttr attr then 1 else 0

def foldCookies (first : Key) (rest : List (Nat × Key)) : Key :=
  first ++ rest.flatMap fun p => 0x2c :: (List.replicate p.1 0x20 ++ p.2)

/-- The test for an `Expires` attribute behind a semicolon, up to the end of the value. -/
def expiresAhead (rest : Key) : Bool :=
  let vattr := rest.dropWhile fun c => c = 0x20 || c = 0x09
  vattr.length ≥ (literal "Expires=").length && ngxStrncasecmp vattr (literal "Expires=") (literal "Expires=").length = 0

theorem cookieLength_semicolon (expires : Bool) (rest : Key) :
    cookieLength expires (0x3b :: rest) = cookieLength (expiresAhead rest) rest + 1 := by
  rw [cookieLength, if_pos rfl]
  rfl

def Ends (rest : Key) : Prop := rest = [] ∨ ∃ c tail, rest = c :: tail ∧ (c = 0x3b ∨ c = 0x2c)

theorem ngxStrncasecmp_literal : ∀ (lit s : Key), 0 ∉ lit → lit.length ≤ s.length →
    (ngxStrncasecmp s lit lit.length = 0 ↔ SameName (s.take lit.length) lit)
  | [], s, _, _ => by
    have hzero : ngxStrncasecmp s [] 0 = 0 := by
      cases s <;> rfl
    simp [hzero, SameName, foldKey]
  | c :: lit, [], _, h => absurd h (by simp)
  | c :: lit, c' :: s, h0, h => by
    rw [List.length_cons, List.take_succ_cons, ngxStrncasecmp]
    have ih := ngxStrncasecmp_literal lit s (fun hm => h0 (List.mem_cons_of_mem _ hm)) (Nat.le_of_succ_le_succ h)
    have hsame : SameName (c' :: s.take lit.length) (c :: lit) ↔
        ngxTolower c' = ngxTolower c ∧ SameName (s.take lit.length) lit := by
      simp [SameName, foldKey]
    rw [hsame, ← ih]
    by_cases hc : ngxTolower c' = ngxTolower c
    · have hne : ngxTolower c' ≠ 0 := fun he => h0 (List.mem_cons.2 (.inl ((ngxTolower_eq_zero c).1 (hc ▸ he)).symm))
      rw [if_pos hc, if_pos hne, and_iff_right hc]
    · have hne : (ngxTolower c').toNat ≠ (ngxTolower c).toNat := fun he => hc (UInt8.toNat_inj.1 he)
      rw [if_neg hc]
      simp only [hc, false_and, iff_false]
      omega

theorem dropWhile_blank {attr rest : Key} (h : Ends rest) : (attr ++ rest).dropWhile (fun c => c = 0x20 || c = 0x09) =
    attr.dropWhile (fun c => c = 0x20 || c = 0x09) ++ rest := by
  rw [List.dropWhile_append]
  split
  · rename_i hblank
    rw [List.isEmpty_iff.1 hblank, List.nil_append]
    rcases h with rfl | ⟨c, tail, rfl, rfl | rfl⟩ <;> rfl
  · rfl

/-- **The test looks at its attribute only**: it cannot see past the end of it. -/
theorem expiresAhead_eq (attr : Key) {rest : Key} (h : Ends rest) : expiresAhead (attr ++ rest) = decide (ExpiresAttr attr) := by
  obtain ⟨v, hv⟩ : ∃ v, attr.dropWhile (fun c => c = 0x20 || c = 0x09) = v := ⟨_, rfl⟩
  have hlit : (literal "Expires=").length = 8 := by decide
  have h0 : 0 ∉ literal "Expires=" := by decide
  have hattr : ExpiresAttr attr ↔ SameName (v.take 8) (literal "Expires=") := by rw [← hv]; exact Iff.rfl
  rw [expiresAhead, dropWhile_blank h, hv, hlit, Bool.eq_iff_iff, Bool.and_eq_true, decide_eq_true_eq, decide_eq_true_eq,
    decide_eq_true_eq, hattr]
  by_cases hlen : 8 ≤ v.length
  · have hle : (literal "Expires=").length ≤ (v ++ rest).length := by
      rw [hlit, List.length_append]
      omega
    have hcmp := ngxStrncasecmp_literal (literal "Expires=") (v ++ rest) h0 hle
    rw [hlit, List.take_append_of_le_length hlen] at hcmp
    rw [hlit] at hle
    exact ⟨fun hs => hcmp.1 hs.2, fun hs => ⟨hle, hcmp.2 hs⟩⟩
  · have hno : ¬SameName (v.take 8) (literal "Expires=") := by
      intro hs
      have hl := congrArg List.length hs
      simp only [foldKey, if_true, List.length_map, List.length_take, hlit] at hl
      omega
    refine iff_of_false ?_ hno
    rintro ⟨hle, hcmp⟩
    rcases h with rfl | ⟨c, tail, rfl, hc⟩
    · rw [List.append_nil] at hle
      exact hlen hle
    · -- the byte at the end of the attribute is none of the literal
      have hsame := (ngxStrncasecmp_literal (literal "Expires=") (v ++ c :: tail) h0 (by rw [hlit]; exact hle)).1
        (by rw [hlit]; exact hcmp)
      rw [hlit] at hsame
      have hmem : c ∈ (v ++ c :: tail).take 8 := by
        rw [List.mem_take_iff_getElem]
        exact ⟨v.length, by rw [List.length_append, List.length_cons]; omega, by
          rw [List.getElem_append_right le_rfl]; simp⟩
      have hfold : ngxTolower c ∈ foldKey true (literal "Expires=") := by
        rw [← show foldKey true _ = _ from hsame]
        exact List.mem_map_of_mem hmem
      rcases hc with rfl | rfl
      · exact absurd hfold (by decide)
      · exact absurd hfold (by decide)

theorem cookieLength_attr : ∀ (attr : Key) (expires : Bool) (rest : Key), 0x3b ∉ attr →
    attr.count 0x2c = (if expires then 1 else 0) →
    cookieLength expires (attr ++ rest) = attr.length + cookieLength false rest
  | [], expires, rest, _, hcount => by
    cases expires with
    | false => rw [List.nil_append, List.length_nil, Nat.zero_add]
    | true => exact absurd hcount (by simp)
  | c :: attr, expires, rest, hsemi, hcount => by
    rw [List.mem_cons, not_or] at hsemi
    rw [List.cons_append, cookieLength, if_neg (Ne.symm hsemi.1), List.length_cons]
    by_cases hc : c = 0x2c
    · rw [hc, List.count_cons_self] at hcount
      cases expires with
      | false => exact absurd hcount (by simp)
      | true =>
        rw [if_pos hc, if_pos rfl, cookieLength_attr attr false rest hsemi.2 (Nat.succ.inj hcount)]
        omega
    · rw [List.count_cons_of_ne hc] at hcount
      rw [if_neg hc, cookieLength_attr attr expires rest hsemi.2 hcount]
      omega

theorem cookieLength_attrs : ∀ (attrs : List Key) (rest : Key), (rest = [] ∨ ∃ tail, rest = 0x2c :: tail) →
    (∀ attr ∈ attrs, 0x3b ∉ attr ∧ attr.count 0x2c = if ExpiresAttr attr then 1 else 0) →
    cookieLength false (attrs.flatMap (0x3b :: ·) ++ rest) = (attrs.flatMap (0x3b :: ·)).length
  | [], rest, hrest, _ => by
    rcases hrest with rfl | ⟨tail, rfl⟩
    · rfl
    · rw [List.flatMap_nil, List.nil_append, cookieLength, if_neg (by decide), if_pos rfl]
      rfl
  | attr :: attrs, rest, hrest, hattrs => by
    obtain ⟨⟨hsemi, hcount⟩, hattrs⟩ := List.forall_mem_cons.1 hattrs
    have hends : Ends (attrs.flatMap (0x3b :: ·) ++ rest) := by
      cases attrs with
      | nil =>
        rcases hrest with rfl | ⟨tail, rfl⟩
        · exact .inl rfl
        · exact .inr ⟨_, tail, rfl, .inr rfl⟩
      | cons attr attrs => exact .inr ⟨_, _, rfl, .inl rfl⟩
    rw [List.flatMap_cons, List.cons_append, List.cons_append, List.append_assoc, cookieLength_semicolon,
      expiresAhead_eq attr hends, cookieLength_attr attr _ _ hsemi (by simpa using hcount),
      cookieLength_attrs attrs rest hrest hattrs, List.length_cons, List.length_append]

theorem CookieOk.cookieLength {cookie rest : Key} (h : CookieOk cookie) (hrest : rest = [] ∨ ∃ tail, rest = 0x2c :: tail) :
    cookieLength false (cookie ++ rest) = cookie.length := by
  obtain ⟨pair, attrs, rfl, hsemi, hcomma, hattrs⟩ := h.commas
  rw [List.append_assoc, cookieLength_attr pair false _ hsemi (List.count_eq_zero.2 hcomma), cookieLength_attrs attrs rest hrest hattrs,
    List.length_append]

theorem unfoldCookie_fold (key : Key) : ∀ (rest : List (Nat × Key)) (first : Key) (fuel : Nat) (out : HeadersOut),
    (∀ cookie ∈ first :: rest.map Prod.snd, CookieOk cookie) → rest.length < fuel →
    unfoldCookie (fun _ => true) key fuel (foldCookies first rest) out =
      some { out with headers := out.headers ++ (first :: rest.map Prod.snd).map fun cookie => (key, cookie) }
  | _, _, 0, _, _, hfuel => absurd hfuel (Nat.not_lt_zero _)
  | [], first, fuel + 1, out, hok, _ => by
    have hlen := (hok first List.mem_cons_self).cookieLength (.inl rfl)
    rw [List.append_nil] at hlen
    rw [foldCookies, List.flatMap_nil, List.append_nil, unfoldCookie, hlen]
    dsimp only
    rw [if_pos rfl, List.take_length]
    rfl
  | (k, cookie) :: rest, first, fuel + 1, out, hok, hfuel => by
    have hfold : foldCookies first ((k, cookie) :: rest) =
        first ++ 0x2c :: (List.replicate k 0x20 ++ foldCookies cookie rest) := by
      rw [foldCookies, List.flatMap_cons, foldCookies]
      simp only [List.cons_append, List.append_assoc]
    have hlen := (hok first List.mem_cons_self).cookieLength
      (.inr ⟨List.replicate k 0x20 ++ foldCookies cookie rest, rfl⟩)
    have hcookie : CookieOk cookie := (List.forall_mem_cons.1 (List.forall_mem_cons.1 hok).2).1
    obtain ⟨c, tail, hcons⟩ : ∃ c tail, foldCookies cookie rest = c :: tail := by
      obtain ⟨c, tail, hc⟩ := List.exists_cons_of_ne_nil hcookie.nonempty
      exact ⟨c, _, by rw [foldCookies, hc]; rfl⟩
    have hc : c ≠ 0x20 := by
      have hhead : (foldCookies cookie rest).head? = cookie.head? := by
        rw [foldCookies, List.head?_append_of_ne_nil _ hcookie.nonempty]
      rw [hcons, List.head?_cons] at hhead
      rintro rfl
      exact hcookie.unspaced hhead.symm
    have hskip : (List.replicate k 0x20 ++ foldCookies cookie rest).dropWhile (fun c => c = 0x20) = foldCookies cookie rest := by
      rw [List.dropWhile_append_of_pos (by simp), hcons, List.dropWhile_cons_of_neg (by simpa using hc)]
    have hdrop : (foldCookies first ((k, cookie) :: rest)).drop (first.length + 1) =
        List.replicate k 0x20 ++ foldCookies cookie rest := by
      rw [hfold, ← List.drop_drop, List.drop_left]
      rfl
    have htake : (foldCookies first ((k, cookie) :: rest)).take first.length = first := by
      rw [hfold, List.take_left]
    have hmore : ¬first.length = (foldCookies first ((k, cookie) :: rest)).length := by
      rw [hfold, List.length_append, List.length_cons]
      omega
    rw [← hfold] at hlen
    rw [unfoldCookie, hlen, htake, hdrop, hskip]
    dsimp only
    rw [if_neg hmore, if_neg (by rw [hcons]; exact List.cons_ne_nil _ _), if_neg (by decide),
      unfoldCookie_fold key rest cookie fuel _ (List.forall_mem_cons.1 hok).2 (by simpa using hfuel)]
    simp only [List.map_cons, List.append_assoc, List.singleton_append]

/-! ## The headers of a table -/

section
variable {seed : BitVec b.bits} {t : Table b Key} {m : List (Key × Key)}

theorem length_le_foldCookies (first : Key) (rest : List (Nat × Key)) : rest.length ≤ (foldCookies first rest).length := by
  rw [foldCookies, List.length_append, List.length_flatMap]
  refine le_trans ?_ (Nat.le_add_left _ _)
  rw [← List.length_map (f := fun p : Nat × Key => (0x2c :: (List.replicate p.1 0x20 ++ p.2)).length)]
  exact List.length_le_sum_of_one_le _ fun n hn => by
    obtain ⟨p, -, rfl⟩ := List.mem_map.1 hn
    exact Nat.succ_pos _

/-- **The headers pushed for a table** that has a `Set-Cookie` with joined cookies: these, among those of other names. -/
theorem Refines.setCookies (h : Refines seed t m) (hci : t.ci = true) {key : Key} (hkey : SameName key (literal "Set-Cookie"))
    {first : Key} {rest : List (Nat × Key)} (hm : (key, foldCookies first rest) ∈ m)
    (hok : ∀ cookie ∈ first :: rest.map Prod.snd, CookieOk cookie) :
    ∃ out, lwsSetResponseHeader seed (fun _ => true) t = some out ∧
      out.headers.filter (fun p => SameName p.1 (literal "Set-Cookie")) =
        (first :: rest.map Prod.snd).map fun cookie => (key, cookie) := by
  have hd := h.distinct
  rw [hci] at hd
  have hkeys := h.terminated
  obtain ⟨m₁, m₂, rfl⟩ := List.append_of_mem hm
  obtain ⟨hd₁, hd₂, hcross⟩ := List.pairwise_append.1 hd
  obtain ⟨hfirst, hd₂⟩ := List.pairwise_cons.1 hd₂
  have hother {m' : List (Key × Key)} {parts : List (List (Key × Key))}
      (hparts : List.Forall₂ (fun p headers => Sent p.1 p.2 headers) m' parts) (hne : ∀ p ∈ m', ¬SameName p.1 key) :
      parts.flatten.filter (fun p => SameName p.1 (literal "Set-Cookie")) = [] := by
    rw [List.filter_eq_nil_iff]
    intro header hheader
    obtain ⟨p, hp, headers, hmem, hsent⟩ := Sent.of_parts hparts hheader
    rw [(hsent.slice header hmem).1, decide_eq_true_eq]
    exact fun hs => hne p hp (hs.trans hkey.symm)
  obtain ⟨parts₁, fields₁, hparts₁, hset₁⟩ :=
    setHeaders_spec m₁ {} (fun p hp => hkeys p (List.mem_append_left _ hp)) hd₁
  rw [List.nil_append] at hset₁
  obtain ⟨fields, hset⟩ := setHeader_cookie (hkeys (key, foldCookies first rest) (List.mem_append_right _ List.mem_cons_self)) hkey
    { headers := parts₁.flatten, contentType := (OrdMap.get (foldKey true) m₁ (literal "Content-Type")).or none, fields := fields₁ }
    (foldCookies first rest)
  rw [unfoldCookie_fold key rest first _ _ hok (Nat.lt_succ_of_le (length_le_foldCookies first rest))] at hset
  obtain ⟨parts₂, fields₂, hparts₂, hset₂⟩ := setHeaders_spec m₂
    { headers := parts₁.flatten ++ (first :: rest.map Prod.snd).map fun cookie => (key, cookie),
      contentType := (OrdMap.get (foldKey true) m₁ (literal "Content-Type")).or none, fields := fields }
    (fun p hp => hkeys p (List.mem_append_right _ (List.mem_cons_of_mem _ hp))) hd₂
  have hall := h.setResponseHeader fun _ => true
  rw [List.foldlM_append, hset₁, Option.bind_eq_bind, Option.bind_some, List.foldlM_cons, hset, Option.bind_eq_bind,
    Option.bind_some, hset₂] at hall
  refine ⟨_, hall, ?_⟩
  rw [List.filter_append, List.filter_append, hother hparts₁ fun p hp hs => hcross p hp _ List.mem_cons_self hs,
    hother hparts₂ fun p hp hs => hfirst p hp hs.symm, List.nil_append, List.append_nil, List.filter_eq_self]
  intro header hheader
  obtain ⟨cookie, -, rfl⟩ := List.mem_map.1 hheader
  exact decide_eq_true hkey

end

/-- **Unfolding undoes folding**: cookies that are joined are pushed one by one, in order; and any value is cut into slices and
separators, with a header filled in for each slice. -/
theorem cookies_are_unfolded {seed : BitVec b.bits} {t : Table b Key} {m : List (Key × Key)} (h : Refines seed t m)
    (hci : t.ci = true) :
    (∀ key first rest, (key, foldCookies first rest) ∈ m → SameName key (literal "Set-Cookie") →
      (∀ cookie ∈ first :: rest.map Prod.snd, CookieOk cookie) →
      ∃ out, lwsSetResponseHeader seed (fun _ => true) t = some out ∧
        out.headers.filter (fun p => SameName p.1 (literal "Set-Cookie")) =
          (first :: rest.map Prod.snd).map fun cookie => (key, cookie)) ∧
    ∀ value, ∃ slices seps, Cut value 0 slices seps ∧
      cookieLoop (fun _ => true) value (value.length + 1) 0 [none] = some (slices.map some) ∧
      ∀ key out, unfoldCookie (fun _ => true) key (value.length + 1) value out =
        some { out with headers := out.headers ++ slices.map fun s => (key, slice value s) } := by
  refine ⟨fun key first rest hm hkey hok => h.setCookies hci hkey hm hok, fun value => ?_⟩
  obtain ⟨slices, seps, hcut, -, hloop, hbytes⟩ :=
    cookieLoop_spec value (value.length + 1) 0 [] (Nat.zero_le _) (Nat.lt_succ_self _)
  exact ⟨slices, seps, hcut, hloop, hbytes⟩

/-- Two cookies, the first one with an `Expires` attribute. -/
theorem cookies_are_unfolded_two :
    let steps := [HeaderStep.assign { key := some (literal "set-cookie"), value := some (literal "a; Expires=M, 1,  b=2") }]
    ∃ t out, tableCreate .b64 Key 8 true true = some t ∧ lwsSetResponseHeader (b := .b64) 7 (fun _ => true)
      (LuaTable.run 7 { t := tableConfigure t true true true } steps).1.t = some out ∧
    out.headers.filter (fun p => SameName p.1 (literal "Set-Cookie")) =
      [(literal "set-cookie", literal "a; Expires=M, 1"), (literal "set-cookie", literal "b=2")] := by
  intro steps
  have hrun : (tableCreate .b64 Key 8 true true).map (fun t =>
      (LuaTable.run (b := .b64) 7 { t := tableConfigure t true true true } steps).2) =
      some [(literal "set-cookie", literal "a; Expires=M, 1,  b=2")] := by
    decide +kernel
  obtain ⟨t, ht, haccepted⟩ := Option.map_eq_some_iff.1 hrun
  obtain ⟨h0, hci0⟩ := refines_create (b := .b64) 7 ht true true true
  obtain ⟨hci, -, hR⟩ := @LuaTable.run_spec .b64 7 steps { t := tableConfigure t true true true } [] h0 hci0
  rw [haccepted] at hR
  obtain ⟨out, hout, hcookies⟩ := (cookies_are_unfolded hR hci).1 (literal "set-cookie") (literal "a; Expires=M, 1")
    [(2, literal "b=2")] (by decide) (by decide) (by
      intro cookie hcookie
      simp only [List.map_cons, List.map_nil, List.mem_cons, List.not_mem_nil, or_false] at hcookie
      rcases hcookie with rfl | rfl
      · exact ⟨by decide, by decide, literal "a", [literal " Expires=M, 1"], by decide, by decide, by decide, by decide⟩
      · exact ⟨by decide, by decide, literal "b=2", [], by decide, by decide, by decide, by decide⟩)
  exact ⟨t, out, ht, hout, hcookies⟩

end Lws

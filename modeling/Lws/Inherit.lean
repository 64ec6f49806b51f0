import Mathlib.Data.List.Induction
/-!
# Inherit — blocks of directives, and what nested blocks inherit

A block is a list of directives that a parser takes one after the other, each of which may fail; the configuration of a block is
merged with that of the block around it.  A setting is set by at most one directive of a block (`Lawful`), and a nested block that
does not set it has the value of the nearest block around it that does (`innermost`).  A collection grows with each directive, and a
nested block has what the blocks around it have first.
-/
namespace Inherit

variable {δ σ ε α β : Type}

/-- The value in the innermost of some nested blocks, given from the outermost one, that has one. -/
def innermost (value : β → Option α) (blocks : List β) : Option α := blocks.reverse.findSome? value

theorem innermost_nil (value : β → Option α) : innermost value [] = none := rfl

theorem innermost_cons (value : β → Option α) (block : β) (blocks : List β) :
    innermost value (block :: blocks) = (innermost value blocks).or (value block) := by
  rw [innermost, List.reverse_cons, List.findSome?_append, List.findSome?_singleton]
  rfl

theorem innermost_concat (value : β → Option α) (blocks : List β) (block : β) :
    innermost value (blocks ++ [block]) = (value block).or (innermost value blocks) := by
  rw [innermost, List.reverse_append, List.findSome?_append, List.reverse_singleton, List.findSome?_singleton]
  rfl

theorem innermost_map {γ : Type} (f : γ → β) (value : β → Option α) (blocks : List γ) :
    innermost value (blocks.map f) = innermost (fun block => value (f block)) blocks := by
  rw [innermost, ← List.map_reverse, List.findSome?_map]
  rfl

theorem innermost_eq_some {value : β → Option α} {blocks : List β} {v : α} : innermost value blocks = some v ↔
    ∃ outer block inner, blocks = outer ++ block :: inner ∧ value block = some v ∧ ∀ block' ∈ inner, value block' = none := by
  rw [innermost, List.findSome?_eq_some_iff]
  constructor
  · rintro ⟨l₁, block, l₂, h, hv, hnone⟩
    refine ⟨l₂.reverse, block, l₁.reverse, ?_, hv, fun block' hb => hnone block' (List.mem_reverse.1 hb)⟩
    rw [← List.reverse_reverse blocks, h]
    simp only [List.reverse_append, List.reverse_cons, List.append_assoc, List.singleton_append]
  · rintro ⟨outer, block, inner, rfl, hv, hnone⟩
    refine ⟨inner.reverse, block, outer.reverse, ?_, hv, fun block' hb => hnone block' (List.mem_reverse.1 hb)⟩
    simp only [List.reverse_append, List.reverse_cons, List.append_assoc, List.singleton_append]

theorem innermost_isSome {value : β → Option α} {blocks : List β} :
    (innermost value blocks).isSome = true ↔ ∃ block ∈ blocks, (value block).isSome = true := by
  rw [innermost, List.findSome?_isSome_iff]
  simp only [List.mem_reverse]

/-! ## Settings -/

/-- **What is said of a setting sets it**, if it was not set; nothing leaves it as it is. -/
structure Sets (said old new : Option α) : Prop where
  eq : new = said.or old
  fresh : said.isSome → old = none

theorem Sets.keep {old : Option α} : Sets none old old := ⟨rfl, fun h => by cases h⟩

theorem Sets.set {v : α} : Sets (some v) none (some v) := ⟨rfl, fun _ => rfl⟩

theorem Sets.trans {said said' old mid new : Option α} (h : Sets said old mid) (h' : Sets said' mid new) :
    Sets (said.or said') old new := by
  cases said with
  | none =>
    obtain rfl : mid = old := h.eq
    rw [Option.none_or]
    exact h'
  | some v =>
    have hmid : mid = some v := h.eq
    cases said' with
    | none => exact ⟨h'.eq.trans hmid, h.fresh⟩
    | some v' => exact absurd (h'.fresh rfl) (by rw [hmid]; exact Option.some_ne_none v)

theorem Sets.of_none {said old : Option α} {v : α} (hold : old = none) (hsaid : said = some v) : Sets said old (some v) := by
  rw [hold, hsaid]
  exact .set

/-- A directive that is taken keeps an invariant, and sets a setting as `value` says. -/
def Lawful (inv : σ → Prop) (get : σ → Option α) (value : δ → Option α) (step : σ → δ → Except ε σ) : Prop :=
  ∀ {s s' d}, inv s → step s d = .ok s' → inv s' ∧ Sets (value d) (get s) (get s')

section
variable {inv : σ → Prop} {get : σ → Option α} {value : δ → Option α} {step : σ → δ → Except ε σ}

theorem foldlM_cons_ok {s s' : σ} {d : δ} {directives : List δ} (h : (d :: directives).foldlM step s = .ok s') :
    ∃ s₁, step s d = .ok s₁ ∧ directives.foldlM step s₁ = .ok s' := by
  rw [List.foldlM_cons] at h
  cases hd : step s d with
  | error e => rw [hd] at h; cases h
  | ok s₁ => rw [hd] at h; exact ⟨s₁, rfl, h⟩

/-- **A block that is taken** sets a setting as the one directive of it does that says something of it. -/
theorem Lawful.block (h : Lawful inv get value step) : ∀ (directives : List δ) {s s' : σ}, inv s →
    directives.foldlM step s = .ok s' → inv s' ∧ Sets (directives.findSome? value) (get s) (get s')
  | [], s, s', hinv, hs => by
    cases hs
    exact ⟨hinv, .keep⟩
  | d :: directives, s, s', hinv, hs => by
    obtain ⟨s₁, hd, hs⟩ := foldlM_cons_ok hs
    obtain ⟨hinv, hfirst⟩ := h hinv hd
    obtain ⟨hinv, hrest⟩ := h.block directives hinv hs
    replace hrest := hfirst.trans hrest
    refine ⟨hinv, ?_⟩
    rw [List.findSome?_cons]
    cases hv : value d with
    | none => rwa [hv, Option.none_or] at hrest
    | some v => rwa [hv, Option.some_or] at hrest

/-- **A block that is taken** adds to a collection what each directive adds. -/
theorem collection_block (get : σ → List α)
    (h : ∀ {s s' d}, inv s → step s d = .ok s' → inv s' ∧ get s' = get s ++ (value d).toList) :
    ∀ (directives : List δ) {s s' : σ}, inv s → directives.foldlM step s = .ok s' →
      get s' = get s ++ directives.filterMap value
  | [], s, s', _, hs => by
    cases hs
    rw [List.filterMap_nil, List.append_nil]
  | d :: directives, s, s', hinv, hs => by
    obtain ⟨s₁, hd, hs⟩ := foldlM_cons_ok hs
    obtain ⟨hinv, hadd⟩ := h hinv hd
    rw [collection_block get h directives hinv hs, hadd, List.filterMap_cons, List.append_assoc]
    cases value d with
    | none => rfl
    | some v => rfl

/-- **A block that is taken** has a flag if one of the directives sets it. -/
theorem flag_block (flag : σ → Bool) {sets : δ → Bool}
    (h : ∀ {s s' d}, inv s → step s d = .ok s' → inv s' ∧ flag s' = (sets d || flag s)) :
    ∀ (directives : List δ) {s s' : σ}, inv s → directives.foldlM step s = .ok s' → flag s' = (directives.any sets || flag s)
  | [], s, s', _, hs => by
    cases hs
    rfl
  | d :: directives, s, s', hinv, hs => by
    obtain ⟨s₁, hd, hs⟩ := foldlM_cons_ok hs
    obtain ⟨hinv, hflag⟩ := h hinv hd
    rw [flag_block flag h directives hinv hs, hflag, List.any_cons, ← Bool.or_assoc, Bool.or_comm (sets d)]

end

/-! ## Nesting -/

/-- The configuration of the innermost of some nested blocks: each is merged with the one around it, from the outermost. -/
def nested (merge : σ → σ → σ) (top : σ) (confs : List σ) : σ := confs.foldl merge top

section
variable {get : σ → Option α} {merge : σ → σ → σ}

/-- **A setting without a default is that of the innermost block** that has it. -/
theorem nested_get (h : ∀ prev conf, get (merge prev conf) = (get conf).or (get prev)) : ∀ (confs : List σ) (top : σ),
    get (nested merge top confs) = innermost get (top :: confs)
  | [], top => by rw [innermost_cons, innermost_nil, Option.none_or]; rfl
  | conf :: confs, top => by
    rw [nested, List.foldl_cons, ← nested, nested_get h confs, innermost_cons, h, innermost_cons, innermost_cons,
      Option.or_assoc]

/-- **A setting with a default** is that of the innermost block that has it, or else the default. -/
theorem nested_default {default : α} (h : ∀ prev conf, get (merge prev conf) = some (((get conf).or (get prev)).getD default))
    (confs : List σ) (hne : confs ≠ []) (top : σ) :
    get (nested merge top confs) = some ((innermost get (top :: confs)).getD default) := by
  induction confs using List.reverseRecOn with
  | nil => exact absurd rfl hne
  | append_singleton confs conf ih =>
    rw [nested, List.foldl_append, List.foldl_cons, List.foldl_nil, h, ← nested, ← List.cons_append, innermost_concat]
    by_cases hnil : confs = []
    · rw [hnil, innermost_cons, innermost_nil, Option.none_or]
      rfl
    · rw [ih hnil]
      cases get conf with
      | none => rfl
      | some v => rfl

/-- **A collection of a nested block** is what the blocks around it have, from the outermost, and then its own. -/
theorem nested_collection {get : σ → List α} (h : ∀ prev conf, get (merge prev conf) = get prev ++ get conf) :
    ∀ (confs : List σ) (top : σ), get (nested merge top confs) = (top :: confs).flatMap get
  | [], top => by simp only [nested, List.foldl_nil, List.flatMap_cons, List.flatMap_nil, List.append_nil]
  | conf :: confs, top => by
    rw [nested, List.foldl_cons, ← nested, nested_collection h confs]
    simp only [List.flatMap_cons, h, List.append_assoc]

end

end Inherit

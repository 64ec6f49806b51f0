import Mathlib.Data.List.Induction
import Mathlib.Data.List.TakeWhile
/-!
# OrdMap — lists keyed by an identity, and the ordered map

A list of elements, each with an identity, no two alike: the order of the list is the order of the map.  `Keyed` has the
operations on such lists and what they do at a split around the element with a given identity.  `OrdMap` is the finite map
that remembers the order of insertion and the first spelling of each key; `get_run` says that it holds what was put last.
-/
namespace Keyed

variable {E I : Type} (ident : E → I)

def Distinct (l : List E) : Prop := l.Pairwise (fun e e' => ident e ≠ ident e')

variable {ident}

theorem Distinct.left {l₁ l₂ : List E} {e : E} (h : Distinct ident (l₁ ++ e :: l₂)) : ∀ e' ∈ l₁, ident e' ≠ ident e :=
  fun e' he' => (List.pairwise_append.1 h).2.2 e' he' e List.mem_cons_self

theorem Distinct.right {l₁ l₂ : List E} {e : E} (h : Distinct ident (l₁ ++ e :: l₂)) : ∀ e' ∈ l₂, ident e' ≠ ident e :=
  fun e' he' => ((List.pairwise_cons.1 (List.pairwise_append.1 h).2.1).1 e' he').symm

theorem Distinct.concat {l : List E} {e : E} (h : Distinct ident l) (hn : ∀ e' ∈ l, ident e' ≠ ident e) :
    Distinct ident (l ++ [e]) :=
  List.pairwise_append.2 ⟨h, List.pairwise_singleton _ _, fun e' he' e'' he'' => by
    rw [List.mem_singleton.1 he'']; exact hn e' he'⟩

theorem Distinct.eq_of {l : List E} {e e' : E} (h : Distinct ident l) (he : e ∈ l) (he' : e' ∈ l) (hid : ident e' = ident e) :
    e' = e := by
  obtain ⟨l₁, l₂, rfl⟩ := List.append_of_mem he
  rcases List.mem_append.1 he' with he' | he'
  · exact absurd hid (h.left e' he')
  · rcases List.mem_cons.1 he' with rfl | he'
    · rfl
    · exact absurd hid (h.right e' he')

variable (ident) [DecidableEq I]

def find (i : I) (l : List E) : Option E := l.find? (fun e => ident e = i)

def replace (i : I) (f : E → E) (l : List E) : List E := l.map (fun e => if ident e = i then f e else e)

def erase (i : I) (l : List E) : List E := l.filter (fun e => ident e ≠ i)

/-- The element moves to the end of the list, changed by `f`. -/
def toTail (i : I) (f : E → E) (l : List E) : List E :=
  match find ident i l with
  | some e => erase ident i l ++ [f e]
  | none => l

/-- The element after the one with identity `i`. -/
def after (i : I) (l : List E) : Option E := (l.dropWhile (fun e => ident e ≠ i)).tail.head?

variable {ident}

/-! ## An identity that is not there -/

section
variable {i : I} {l : List E} (h : ∀ e ∈ l, ident e ≠ i)
include h

theorem find_miss : find ident i l = none := by
  rw [find, List.find?_eq_none]
  exact fun e he => by simpa using h e he

theorem replace_miss (f : E → E) : replace ident i f l = l := by
  rw [replace, List.map_congr_left fun e he => if_neg (h e he), List.map_id']

theorem erase_miss : erase ident i l = l := by
  rw [erase, List.filter_eq_self]
  exact fun e he => by simpa using h e he

theorem after_miss : after ident i l = none := by
  have : l.dropWhile (fun e => decide (ident e ≠ i)) = [] := by
    rw [List.dropWhile_eq_nil_iff]
    exact fun e he => by simpa using h e he
  rw [after, this]
  rfl

end

/-! ## A split around the identity -/

theorem find_split {i : I} {l : List E} {e : E} (h : find ident i l = some e) :
    ident e = i ∧ ∃ l₁ l₂, l = l₁ ++ e :: l₂ := by
  obtain ⟨hi, l₁, l₂, hl, -⟩ := List.find?_eq_some_iff_append.1 h
  exact ⟨by simpa using hi, l₁, l₂, hl⟩

theorem find_none {i : I} {l : List E} (h : find ident i l = none) : ∀ e ∈ l, ident e ≠ i := by
  intro e he
  simpa using List.find?_eq_none.1 h e he

section
variable {l₁ l₂ : List E} {e : E} (h : Distinct ident (l₁ ++ e :: l₂))
include h

theorem find_hit : find ident (ident e) (l₁ ++ e :: l₂) = some e := by
  rw [find, List.find?_eq_some_iff_append]
  exact ⟨by simp, l₁, l₂, rfl, fun e' he' => by simpa using h.left e' he'⟩

theorem replace_hit (f : E → E) : replace ident (ident e) f (l₁ ++ e :: l₂) = l₁ ++ f e :: l₂ := by
  have h1 := replace_miss h.left f
  have h2 := replace_miss h.right f
  simp only [replace] at h1 h2 ⊢
  rw [List.map_append, List.map_cons, h1, h2, if_pos rfl]

theorem erase_hit : erase ident (ident e) (l₁ ++ e :: l₂) = l₁ ++ l₂ := by
  have h1 := erase_miss h.left
  have h2 := erase_miss h.right
  simp only [erase] at h1 h2 ⊢
  rw [List.filter_append, List.filter_cons_of_neg (by simp), h1, h2]

theorem toTail_hit (f : E → E) : toTail ident (ident e) f (l₁ ++ e :: l₂) = l₁ ++ l₂ ++ [f e] := by
  rw [toTail, find_hit h, erase_hit h]

theorem after_hit : after ident (ident e) (l₁ ++ e :: l₂) = l₂.head? := by
  have h1 : l₁.dropWhile (fun e' => decide (ident e' ≠ ident e)) = [] := by
    rw [List.dropWhile_eq_nil_iff]
    exact fun e' he' => by simpa using h.left e' he'
  rw [after, List.dropWhile_append, h1]
  simp

end

/-! ## Distinctness is kept -/

theorem Distinct.replace {i : I} {f : E → E} {l : List E} (h : Distinct ident l) (hf : ∀ e, ident (f e) = ident e) :
    Distinct ident (replace ident i f l) := by
  have hid (e : E) : ident (if ident e = i then f e else e) = ident e := by split; exacts [hf e, rfl]
  rw [Distinct, Keyed.replace, List.pairwise_map]
  exact h.imp fun hne => by rwa [hid, hid]

theorem Distinct.erase {i : I} {l : List E} (h : Distinct ident l) : Distinct ident (erase ident i l) := h.filter _

theorem mem_erase {i : I} {l : List E} {e : E} : e ∈ erase ident i l ↔ e ∈ l ∧ ident e ≠ i := by
  simp [erase]

/-- **A list with an identity in it splits around one element.** -/
theorem split_cases (ident : E → I) (i : I) (l : List E) :
    (∃ e l₁ l₂, ident e = i ∧ l = l₁ ++ e :: l₂) ∨ ∀ e ∈ l, ident e ≠ i := by
  cases hf : find ident i l with
  | none => exact .inr (find_none hf)
  | some e =>
    obtain ⟨hi, l₁, l₂, hl⟩ := find_split hf
    exact .inl ⟨e, l₁, l₂, hi, hl⟩

/-! ## The first of each identity -/

/-- The elements of a list, less those whose identity has come before. -/
def firsts (ident : E → I) (l : List E) : List E :=
  l.foldl (fun firsts e => if ∃ e' ∈ firsts, ident e' = ident e then firsts else firsts ++ [e]) []

theorem firsts_concat (l : List E) (e : E) :
    firsts ident (l ++ [e]) =
      if ∃ e' ∈ firsts ident l, ident e' = ident e then firsts ident l else firsts ident l ++ [e] := by
  rw [firsts, List.foldl_append]
  rfl

theorem firsts_subset (l : List E) : firsts ident l ⊆ l := by
  induction l using List.reverseRecOn with
  | nil => exact List.Subset.refl _
  | append_singleton l e ih =>
    have hl : firsts ident l ⊆ l ++ [e] := List.Subset.trans ih (List.subset_append_left _ _)
    rw [firsts_concat]
    split
    · exact hl
    · exact List.append_subset.2 ⟨hl, List.subset_append_right _ _⟩

theorem firsts_covers (l : List E) : ∀ e ∈ l, ∃ e' ∈ firsts ident l, ident e' = ident e := by
  induction l using List.reverseRecOn with
  | nil => exact fun _ h => (nomatch h)
  | append_singleton l last ih =>
    intro e he
    rw [firsts_concat]
    rcases List.mem_append.1 he with he | he
    · obtain ⟨e', he', hid⟩ := ih e he
      split
      · exact ⟨e', he', hid⟩
      · exact ⟨e', List.mem_append_left _ he', hid⟩
    · obtain rfl := List.mem_singleton.1 he
      split
      · assumption
      · exact ⟨e, List.mem_append_right _ List.mem_cons_self, rfl⟩

theorem firsts_distinct (l : List E) : Distinct ident (firsts ident l) := by
  induction l using List.reverseRecOn with
  | nil => exact List.Pairwise.nil
  | append_singleton l e ih =>
    rw [firsts_concat]
    split
    · exact ih
    · rename_i hnew
      exact ih.concat fun e' he' hid => hnew ⟨e', he', hid⟩

theorem firsts_append (l l' : List E) : firsts ident l <+: firsts ident (l ++ l') := by
  induction l' using List.reverseRecOn with
  | nil => simp
  | append_singleton l' e ih =>
    rw [← List.append_assoc, firsts_concat]
    split
    · exact ih
    · exact ih.trans (List.prefix_append _ _)

omit [DecidableEq I] in
theorem map_set {X : Type} {l₁ l₂ : List E} {e : E} {f g : E → X} (h : Distinct ident (l₁ ++ e :: l₂))
    (hother : ∀ e' ∈ l₁ ++ e :: l₂, ident e' ≠ ident e → g e' = f e') :
    ((l₁ ++ e :: l₂).map f).set l₁.length (g e) = (l₁ ++ e :: l₂).map g := by
  have h₁ : l₁.map f = l₁.map g := List.map_congr_left fun e' he' =>
    (hother e' (List.mem_append_left _ he') (h.left e' he')).symm
  have h₂ : l₂.map f = l₂.map g := List.map_congr_left fun e' he' =>
    (hother e' (List.mem_append_right _ (List.mem_cons_of_mem _ he')) (h.right e' he')).symm
  rw [List.map_append, List.map_cons, List.set_append_right _ _ (by rw [List.length_map]), List.length_map, Nat.sub_self,
    List.set_cons_zero, h₁, h₂, List.map_append, List.map_cons]

/-! ## Lists that agree -/

section
variable {E' X : Type} {f : E → X} {g : E' → X} {l l₁ l₂ : List E} {m m₁ m₂ : List E'}

/-- Two lists with the same views of their elements, in order. -/
def Agree (f : E → X) (g : E' → X) (l : List E) (m : List E') : Prop := l.map f = m.map g

theorem Agree.nil : Agree f g [] [] := rfl

theorem Agree.length (h : Agree f g l m) : l.length = m.length := by simpa using congrArg List.length h

theorem Agree.append (h₁ : Agree f g l₁ m₁) (h₂ : Agree f g l₂ m₂) : Agree f g (l₁ ++ l₂) (m₁ ++ m₂) := by
  rw [Agree, List.map_append, List.map_append, h₁, h₂]

theorem Agree.cons {e : E} {p : E'} (he : f e = g p) (h : Agree f g l m) : Agree f g (e :: l) (p :: m) := by
  rw [Agree, List.map_cons, List.map_cons, h, he]

theorem Agree.concat {e : E} {p : E'} (h : Agree f g l m) (he : f e = g p) : Agree f g (l ++ [e]) (m ++ [p]) :=
  h.append (Agree.nil.cons he)

theorem Agree.tail (h : Agree f g l m) : Agree f g l.tail m.tail := by
  rw [Agree, List.map_tail, List.map_tail, h]

theorem Agree.head (h : Agree f g l m) : l.head?.map f = m.head?.map g := by
  rw [← List.head?_map, ← List.head?_map, h]

theorem Agree.split {e : E} (h : Agree f g (l₁ ++ e :: l₂) m) :
    ∃ m₁ p m₂, m = m₁ ++ p :: m₂ ∧ f e = g p ∧ Agree f g l₁ m₁ ∧ Agree f g l₂ m₂ := by
  rw [Agree, List.map_append, List.map_cons] at h
  obtain ⟨m₁, m', rfl, h1, h2⟩ := List.map_eq_append_iff.1 h.symm
  obtain ⟨p, m₂, rfl, hp, h3⟩ := List.map_eq_cons_iff.1 h2
  exact ⟨m₁, p, m₂, rfl, hp.symm, h1.symm, h3.symm⟩

theorem Agree.forall {P : X → Prop} (h : Agree f g l m) (hl : ∀ e ∈ l, P (f e)) : ∀ p ∈ m, P (g p) := by
  intro p hp
  have hmem : g p ∈ l.map f := by rw [h]; exact List.mem_map_of_mem hp
  obtain ⟨e, he, hep⟩ := List.mem_map.1 hmem
  rw [← hep]
  exact hl e he

omit [DecidableEq I] in
theorem Agree.distinct {i : X → I} (h : Agree f g l m) (hl : Distinct (fun e => i (f e)) l) :
    Distinct (fun p => i (g p)) m := by
  have hp : (l.map f).Pairwise (fun x x' => i x ≠ i x') := List.pairwise_map.2 hl
  rw [h, List.pairwise_map] at hp
  exact hp

end

end Keyed

namespace OrdMap

variable {K I V : Type} [DecidableEq I] (fold : K → I)

def ident (p : K × V) : I := fold p.1

def get (m : List (K × V)) (k : K) : Option V := (Keyed.find (ident fold) (fold k) m).map Prod.snd

/-- An update keeps the position and the first spelling of the key; a new key goes to the end. -/
def put (m : List (K × V)) (k : K) (v : V) : List (K × V) :=
  match Keyed.find (ident fold) (fold k) m with
  | some _ => Keyed.replace (ident fold) (fold k) (fun p => (p.1, v)) m
  | none => m ++ [(k, v)]

def del (m : List (K × V)) (k : K) : List (K × V) := Keyed.erase (ident fold) (fold k) m

def next (m : List (K × V)) : Option K → Option (K × V)
  | none => m.head?
  | some k => Keyed.after (ident fold) (fold k) m

/-- What changes a map. -/
inductive Change (K V : Type) where
  | put (k : K) (v : V)
  | del (k : K)
  | clear

def change (m : List (K × V)) : Change K V → List (K × V)
  | .put k v => put fold m k v
  | .del k => del fold m k
  | .clear => []

/-- The value last put under a key equal to `k`, unless it was deleted or cleared since. -/
def lastPut (changes : List (Change K V)) (k : K) : Option V :=
  changes.foldl (fun last c => match c with
    | .put k' v => if fold k' = fold k then some v else last
    | .del k' => if fold k' = fold k then none else last
    | .clear => none) none

variable {fold} {m : List (K × V)} (hd : Keyed.Distinct (ident fold) m)
include hd

theorem put_distinct (k : K) (v : V) : Keyed.Distinct (ident fold) (put fold m k v) := by
  unfold put
  split
  · exact hd.replace fun _ => rfl
  · rename_i hf
    exact hd.concat (Keyed.find_none hf)

omit hd in
theorem put_length_le (k : K) (v : V) : (put fold m k v).length ≤ m.length + 1 := by
  unfold put
  split
  · rw [Keyed.replace, List.length_map]
    exact Nat.le_succ _
  · rw [List.length_append, List.length_singleton]

theorem get_put (k k' : K) (v : V) :
    get fold (put fold m k v) k' = if fold k = fold k' then some v else get fold m k' := by
  rcases Keyed.split_cases (ident fold) (fold k) m with ⟨e, l₁, l₂, hk, rfl⟩ | hk
  · rw [put, ← hk, Keyed.find_hit hd]
    dsimp only
    rw [Keyed.replace_hit hd]
    by_cases hkk : fold k = fold k'
    · have hr := hd.replace (i := fold k) (f := fun p => (p.1, v)) fun _ => rfl
      rw [← hk, Keyed.replace_hit hd] at hr
      have hfind := Keyed.find_hit hr
      rw [show ident fold (e.1, v) = fold k' from hk.trans hkk] at hfind
      rw [get, hfind, hk, if_pos hkk]
      rfl
    · have hne : ident fold e ≠ fold k' := fun he => hkk (hk.symm.trans he)
      rw [hk, if_neg hkk, get, get, Keyed.find, Keyed.find, List.find?_append, List.find?_append,
        List.find?_cons_of_neg (by simpa using show ident fold (e.1, v) ≠ fold k' from hne),
        List.find?_cons_of_neg (by simpa using hne)]
  · rw [put, Keyed.find_miss hk]
    dsimp only
    rw [get, Keyed.find, List.find?_append]
    by_cases hkk : fold k = fold k'
    · have hnone : m.find? (fun e => decide (ident fold e = fold k')) = none := by rw [← hkk]; exact Keyed.find_miss hk
      rw [if_pos hkk, hnone]
      simp [ident, hkk]
    · rw [if_neg hkk, get, Keyed.find]
      simp [ident, hkk]

omit hd in
theorem put_keys (m : List (K × V)) (k : K) (v : V) : (put fold m k v).map Prod.fst =
    if ∃ k' ∈ m.map Prod.fst, fold k' = fold k then m.map Prod.fst else m.map Prod.fst ++ [k] := by
  rw [put]
  cases hf : Keyed.find (ident fold) (fold k) m with
  | none =>
    rw [if_neg, List.map_append, List.map_singleton]
    rintro ⟨k', hk', hid⟩
    obtain ⟨p, hp, rfl⟩ := List.mem_map.1 hk'
    exact Keyed.find_none hf p hp hid
  | some p =>
    obtain ⟨hid, l₁, l₂, rfl⟩ := Keyed.find_split hf
    rw [if_pos ⟨p.1, List.mem_map_of_mem (List.mem_append_right _ List.mem_cons_self), hid⟩]
    dsimp only [Keyed.replace]
    rw [List.map_map]
    refine List.map_congr_left fun e _ => ?_
    dsimp only [Function.comp_apply]
    split <;> rfl

theorem get_del (k k' : K) : get fold (del fold m k) k' = if fold k = fold k' then none else get fold m k' := by
  rw [del]
  by_cases hkk : fold k = fold k'
  · rw [if_pos hkk, get, ← hkk, Keyed.find_miss fun e he => (Keyed.mem_erase.1 he).2]
    rfl
  · rw [if_neg hkk]
    rcases Keyed.split_cases (ident fold) (fold k) m with ⟨e, l₁, l₂, hk, rfl⟩ | hk
    · have hne : ident fold e ≠ fold k' := fun he => hkk (hk.symm.trans he)
      rw [← hk, Keyed.erase_hit hd, get, get, Keyed.find, Keyed.find, List.find?_append, List.find?_append,
        List.find?_cons_of_neg (by simpa using hne)]
    · rw [Keyed.erase_miss hk]

theorem change_distinct (c : Change K V) : Keyed.Distinct (ident fold) (change fold m c) := by
  cases c with
  | put k v => exact put_distinct hd k v
  | del k => exact hd.erase
  | clear => exact List.Pairwise.nil

theorem get_mem {p : K × V} (hp : p ∈ m) : get fold m p.1 = some p.2 := by
  obtain ⟨l₁, l₂, rfl⟩ := List.append_of_mem hp
  have hfind := Keyed.find_hit hd
  rw [show ident fold p = fold p.1 from rfl] at hfind
  rw [get, hfind, Option.map_some]

omit hd in
theorem get_same (m : List (K × V)) {k k' : K} (h : fold k = fold k') : get fold m k = get fold m k' := by
  rw [get, get, h]

omit hd in
theorem get_zipIdx {l₁ l₂ : List K} {k : K} (h : Keyed.Distinct fold (l₁ ++ k :: l₂)) :
    get fold (l₁ ++ k :: l₂).zipIdx k = some l₁.length := by
  have hd : Keyed.Distinct (ident fold) (l₁ ++ k :: l₂).zipIdx := by
    have hkeys : ((l₁ ++ k :: l₂).zipIdx.map Prod.fst).Pairwise fun k k' => fold k ≠ fold k' := by
      rw [List.zipIdx_map_fst]
      exact h
    rw [List.pairwise_map] at hkeys
    exact hkeys
  refine get_mem (p := (k, l₁.length)) hd ?_
  rw [List.zipIdx_append, Nat.zero_add, List.zipIdx_cons]
  exact List.mem_append_right _ List.mem_cons_self

omit hd in
theorem get_zipIdx_none {l : List K} {k : K} (h : ∀ k' ∈ l, fold k' ≠ fold k) : get fold l.zipIdx k = none := by
  rw [get, Keyed.find_miss, Option.map_none]
  intro p hp
  exact h p.1 (List.fst_mem_of_mem_zipIdx hp)

omit hd in
theorem mem_of_get {k : K} {v : V} (h : get fold m k = some v) : ∃ p ∈ m, fold p.1 = fold k ∧ p.2 = v := by
  obtain ⟨p, hp, rfl⟩ := Option.map_eq_some_iff.1 h
  obtain ⟨hk, l₁, l₂, rfl⟩ := Keyed.find_split hp
  exact ⟨p, List.mem_append_right _ List.mem_cons_self, hk, rfl⟩

omit hd in
theorem next_last {done rest : List (K × V)} (hd : Keyed.Distinct (ident fold) (done ++ rest)) :
    next fold (done ++ rest) (done.getLast?.map Prod.fst) = rest.head? := by
  rcases List.eq_nil_or_concat done with rfl | ⟨done, p, rfl⟩
  · rfl
  · rw [List.concat_eq_append] at hd ⊢
    rw [List.append_assoc] at hd ⊢
    rw [List.getLast?_concat, Option.map_some, next]
    exact Keyed.after_hit hd

omit hd in
theorem run_distinct (changes : List (Change K V)) :
    Keyed.Distinct (ident fold) (changes.foldl (change fold) []) := by
  induction changes using List.reverseRecOn with
  | nil => exact List.Pairwise.nil
  | append_singleton cs c ih => rw [List.foldl_append]; exact change_distinct ih c

omit hd in
theorem get_run (changes : List (Change K V)) (k : K) :
    get fold (changes.foldl (change fold) []) k = lastPut fold changes k := by
  induction changes using List.reverseRecOn with
  | nil => rfl
  | append_singleton cs c ih =>
    rw [lastPut, List.foldl_append, List.foldl_append, ← lastPut]
    simp only [List.foldl_cons, List.foldl_nil]
    have hd : Keyed.Distinct (ident fold) (cs.foldl (change fold) []) := run_distinct cs
    cases c with
    | put k' v => rw [change, get_put hd, ih]
    | del k' => rw [change, get_del hd, ih]
    | clear => rfl

end OrdMap

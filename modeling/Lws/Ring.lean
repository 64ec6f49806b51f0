import Mathlib.Data.List.Nodup
import Mathlib.Logic.Function.Basic
/-!
# Ring — intrusive circular doubly linked lists

The link fields of all addresses, the pointer writes of the usual operations on a ring through a sentinel, and the
predicate `IsRing k s l`: following `next` from the sentinel `s` visits exactly the addresses of `l` in order and comes
back to `s`, and following `prev` visits them backwards.  Each operation's lemma says which list the ring holds afterwards.
The two directions are mirror images (`Links.swap`), so each fact is proved for `next` only.
-/
namespace Ring

structure Links (α : Type) where
  prev : α → α
  next : α → α

variable {α : Type}

/-- From `a`, the pointers lead through `l` and then to `b`. -/
def Linked (f : α → α) : α → List α → α → Prop
  | a, [], b => f a = b
  | a, x :: l, b => f a = x ∧ Linked f x l b

theorem linked_append (f : α → α) (x b : α) (l₂ : List α) : ∀ (l₁ : List α) (a : α),
    Linked f a (l₁ ++ x :: l₂) b ↔ Linked f a l₁ x ∧ Linked f x l₂ b
  | [], a => Iff.rfl
  | y :: l₁, a => by
    rw [List.cons_append, Linked, Linked, linked_append f x b l₂ l₁ y, and_assoc]

theorem Linked.congr {f g : α → α} {b : α} : ∀ {l : List α} {a : α}, Linked f a l b →
    g a = f a → (∀ y ∈ l, g y = f y) → Linked g a l b
  | [], _, h, ha, _ => ha.trans h
  | x :: l, _, h, ha, hl => ⟨ha.trans h.1, h.2.congr (hl x (by simp)) (fun y hy => hl y (by simp [hy]))⟩

theorem Linked.from {f g : α → α} {a a' b : α} {l : List α} (h : Linked f a l b) (ha : g a' = f a)
    (hl : ∀ y ∈ l, g y = f y) : Linked g a' l b := by
  cases l with
  | nil => exact ha.trans h
  | cons x l => exact ⟨ha.trans h.1, h.2.congr (hl x (by simp)) (fun y hy => hl y (by simp [hy]))⟩

theorem Linked.first {f : α → α} {a b : α} : ∀ {l : List α}, Linked f a l b → (l ++ [b]).head? = some (f a)
  | [], h => by rw [List.nil_append, List.head?_cons, show f a = b from h]
  | x :: l, h => by rw [List.cons_append, List.head?_cons, h.1]

/-- The mirror image: `prev` and `next` exchanged. -/
def Links.swap (k : Links α) : Links α := ⟨k.next, k.prev⟩

/-- **The ring at `s` holds the addresses `l`, in order.** -/
structure IsRing (k : Links α) (s : α) (l : List α) : Prop where
  next : Linked k.next s l s
  prev : Linked k.prev s l.reverse s
  nodup : (s :: l).Nodup

theorem IsRing.swap {k : Links α} {s : α} {l : List α} (h : IsRing k s l) : IsRing k.swap s l.reverse where
  next := h.prev
  prev := by rw [List.reverse_reverse]; exact h.next
  nodup := by
    have hn := List.nodup_cons.1 h.nodup
    exact List.nodup_cons.2 ⟨fun hm => hn.1 (List.mem_reverse.1 hm), List.nodup_reverse.2 hn.2⟩

theorem IsRing.of_swap {k : Links α} {s : α} {l : List α} (h : IsRing k.swap s l.reverse) : IsRing k s l := by
  have := h.swap
  rwa [List.reverse_reverse] at this

theorem IsRing.prev_last {k : Links α} {s : α} {l : List α} (h : IsRing k s l) :
    (s :: l).getLast? = some (k.prev s) := by
  have := h.prev.first
  rwa [← List.head?_reverse, List.reverse_cons]

theorem IsRing.next_first {k : Links α} {s : α} {l : List α} (h : IsRing k s l) :
    (l ++ [s]).head? = some (k.next s) := h.next.first

theorem IsRing.split {k : Links α} {s x : α} {l₁ l₂ : List α} (h : IsRing k s (l₁ ++ x :: l₂)) :
    Linked k.next s l₁ x ∧ Linked k.next x l₂ s ∧ (s :: l₁).getLast? = some (k.prev x) ∧
      (l₂ ++ [s]).head? = some (k.next x) ∧ (s :: l₁).Nodup ∧ x ∉ s :: (l₁ ++ l₂) := by
  obtain ⟨h1, h2⟩ := (linked_append _ _ _ _ _ _).1 h.next
  have hp := h.prev
  rw [List.reverse_append, List.reverse_cons, List.append_assoc, List.singleton_append, linked_append] at hp
  have hlast := hp.2.first
  rw [← List.reverse_cons, List.head?_reverse] at hlast
  have hn := h.nodup
  rw [← List.cons_append, List.nodup_append] at hn
  have hn2 := List.nodup_cons.1 hn.2.1
  refine ⟨h1, h2, hlast, h2.first, hn.1, ?_⟩
  simp only [List.mem_cons, List.mem_append, not_or]
  exact ⟨fun he => hn.2.2 s (by simp) x (by simp) he.symm, fun hm => hn.2.2 x (by simp [hm]) x (by simp) rfl, hn2.1⟩

theorem IsRing.next_ne {k : Links α} {s x : α} {l₁ l₂ : List α} (h : IsRing k s (l₁ ++ x :: l₂)) : k.next x ≠ x := by
  obtain ⟨-, -, -, hhead, -, hx⟩ := h.split
  intro he
  rw [he] at hhead
  have : x ∈ l₂ ++ [s] := List.mem_of_head? hhead
  simp only [List.mem_append, List.mem_singleton] at this
  exact hx (by rcases this with h | h <;> simp [h])

variable [DecidableEq α]

theorem Linked.redirect {f : α → α} {b z : α} (c : α) : ∀ {l : List α} {a : α}, Linked f a l b → (a :: l).Nodup →
    (a :: l).getLast? = some z → Linked (Function.update f z c) a l c
  | [], a, _, _, hz => by
    obtain rfl : a = z := by simpa using hz
    simp [Linked]
  | x :: l, a, h, hn, hz => by
    rw [List.getLast?_cons_cons] at hz
    have hzm : z ∈ x :: l := List.mem_of_getLast? hz
    have haz : a ≠ z := fun he => (List.nodup_cons.1 hn).1 (he ▸ hzm)
    exact ⟨by rw [Function.update_of_ne haz]; exact h.1, h.2.redirect c hn.of_cons hz⟩

namespace Links

def setNext (k : Links α) (a b : α) : Links α := { k with next := Function.update k.next a b }

def setPrev (k : Links α) (a b : α) : Links α := { k with prev := Function.update k.prev a b }

def init (k : Links α) (s : α) : Links α := (k.setPrev s s).setNext s s

def insertHead (k : Links α) (s x : α) : Links α :=
  let k := k.setNext x (k.next s)
  let k := k.setPrev (k.next x) x
  let k := k.setPrev x s
  k.setNext s x

def insertTail (k : Links α) (s x : α) : Links α :=
  let k := k.setPrev x (k.prev s)
  let k := k.setNext (k.prev x) x
  let k := k.setNext x s
  k.setPrev s x

def remove (k : Links α) (x : α) : Links α :=
  let k := k.setPrev (k.next x) (k.prev x)
  k.setNext (k.prev x) (k.next x)

/-- `x`'s links copied to `y`, and the neighbours of `x` made to point at `y`. -/
def relocate (k : Links α) (x y : α) : Links α :=
  let k := (k.setPrev y (k.prev x)).setNext y (k.next x)
  let k := k.setNext (k.prev y) y
  k.setPrev (k.next y) y

end Links

theorem isRing_init (k : Links α) (s : α) : IsRing (k.init s) s [] where
  next := by simp [Linked, Links.init, Links.setNext]
  prev := by simp [Linked, Links.init, Links.setNext, Links.setPrev]
  nodup := by simp

/-! ## Insertion -/

theorem IsRing.insertTail {k : Links α} {s x : α} {l : List α} (h : IsRing k s l) (hx : x ∉ s :: l) :
    IsRing (k.insertTail s x) s (l ++ [x]) := by
  have hxs : x ≠ s := fun he => hx (by simp [he])
  have hlast := h.prev_last
  have hpx : k.prev s ≠ x := fun he => hx (List.mem_of_getLast? (he ▸ hlast))
  have hnext : (k.insertTail s x).next = Function.update (Function.update k.next (k.prev s) x) x s := by
    simp [Links.insertTail, Links.setNext, Links.setPrev]
  have hprev : (k.insertTail s x).prev = Function.update (Function.update k.prev x (k.prev s)) s x := by
    simp [Links.insertTail, Links.setNext, Links.setPrev]
  refine ⟨?_, ?_, ?_⟩
  · rw [linked_append, hnext]
    refine ⟨(h.next.redirect x h.nodup hlast).congr ?_ (fun y hy => ?_), by simp [Linked]⟩
    · rw [Function.update_of_ne (Ne.symm hxs)]
    · rw [Function.update_of_ne (fun he => hx (by simp [← he, hy]))]
  · rw [List.reverse_append, List.reverse_singleton, List.singleton_append, hprev]
    refine ⟨by simp, h.prev.from ?_ (fun y hy => ?_)⟩
    · rw [Function.update_of_ne hxs, Function.update_self]
    · have hy := List.mem_reverse.1 hy
      have hys : y ≠ s := fun he => (List.nodup_cons.1 h.nodup).1 (he ▸ hy)
      rw [Function.update_of_ne hys, Function.update_of_ne (fun he => hx (by simp [← he, hy]))]
  · have hn := List.nodup_cons.1 h.nodup
    have hx' : x ∉ l := fun hm => hx (by simp [hm])
    refine List.nodup_cons.2 ⟨?_, ?_⟩
    · simp [hn.1, Ne.symm hxs]
    · rw [List.nodup_append]
      exact ⟨hn.2, by simp, fun a ha b hb he => hx' (by rw [← List.mem_singleton.1 hb, ← he]; exact ha)⟩

theorem insertHead_swap (k : Links α) (s x : α) : (k.insertHead s x).swap = k.swap.insertTail s x := by
  simp [Links.insertHead, Links.insertTail, Links.swap, Links.setNext, Links.setPrev]

theorem IsRing.insertHead {k : Links α} {s x : α} {l : List α} (h : IsRing k s l) (hx : x ∉ s :: l) :
    IsRing (k.insertHead s x) s (x :: l) := by
  refine IsRing.of_swap ?_
  rw [insertHead_swap, List.reverse_cons]
  exact h.swap.insertTail (by simpa using hx)

/-! ## Removal and relocation -/

theorem Links.remove_eq (k : Links α) {x : α} (hx : k.next x ≠ x) :
    k.remove x = ⟨Function.update k.prev (k.next x) (k.prev x), Function.update k.next (k.prev x) (k.next x)⟩ := by
  simp [Links.remove, Links.setNext, Links.setPrev, Function.update_of_ne (Ne.symm hx)]

theorem IsRing.remove_next {k : Links α} {s x : α} {l₁ l₂ : List α} (h : IsRing k s (l₁ ++ x :: l₂)) :
    Linked (Function.update k.next (k.prev x) (k.next x)) s (l₁ ++ l₂) s := by
  obtain ⟨h1, h2, hlast, -, hn, -⟩ := h.split
  cases l₂ with
  | nil =>
    rw [List.append_nil, show k.next x = s from h2]
    exact h1.redirect s hn hlast
  | cons y l₂ =>
    rw [linked_append, h2.1]
    have hd : ∀ z ∈ y :: l₂, z ≠ k.prev x := fun z hz he => by
      have hnd := h.nodup
      rw [← List.cons_append, List.nodup_append] at hnd
      exact hnd.2.2 (k.prev x) (List.mem_of_getLast? hlast) z (List.mem_cons_of_mem x hz) he.symm
    refine ⟨h1.redirect y hn hlast, h2.2.congr ?_ (fun z hz => ?_)⟩
    · rw [Function.update_of_ne (hd y (by simp))]
    · rw [Function.update_of_ne (hd z (by simp [hz]))]

theorem IsRing.remove {k : Links α} {s x : α} {l₁ l₂ : List α} (h : IsRing k s (l₁ ++ x :: l₂)) :
    IsRing (k.remove x) s (l₁ ++ l₂) := by
  have hs := h.swap
  rw [List.reverse_append, List.reverse_cons, List.append_assoc, List.singleton_append] at hs
  rw [Links.remove_eq k h.next_ne]
  refine ⟨h.remove_next, ?_, ?_⟩
  · rw [List.reverse_append]; exact hs.remove_next
  · have hn := h.nodup
    rw [← List.cons_append] at hn ⊢
    exact hn.sublist (List.Sublist.append_left (List.sublist_cons_self x l₂) _)

theorem IsRing.relocate_next {k : Links α} {s x y : α} {l₁ l₂ : List α} (h : IsRing k s (l₁ ++ x :: l₂))
    (hy : y ∉ s :: (l₁ ++ x :: l₂)) :
    Linked (Function.update (Function.update k.next y (k.next x)) (k.prev x) y) s (l₁ ++ y :: l₂) s := by
  obtain ⟨h1, h2, hlast, -, hn, -⟩ := h.split
  have hpm : k.prev x ∈ s :: l₁ := List.mem_of_getLast? hlast
  have hpy : k.prev x ≠ y := fun he => hy (by
    rw [← he, ← List.cons_append]; exact List.mem_append_left _ hpm)
  have hd : ∀ z ∈ l₂, z ≠ k.prev x := fun z hz he => by
    have hnd := h.nodup
    rw [← List.cons_append, List.nodup_append] at hnd
    exact hnd.2.2 (k.prev x) hpm z (List.mem_cons_of_mem x hz) he.symm
  have hne : ∀ z ∈ s :: (l₁ ++ x :: l₂), z ≠ y := fun z hz he => hy (he ▸ hz)
  rw [linked_append]
  refine ⟨?_, h2.from ?_ (fun z hz => ?_)⟩
  · rw [Function.update_comm (Ne.symm hpy)]
    refine (h1.redirect y hn hlast).congr ?_ (fun z hz => ?_)
    · rw [Function.update_of_ne (hne s (by simp))]
    · rw [Function.update_of_ne (hne z (by simp [hz]))]
  · rw [Function.update_of_ne (Ne.symm hpy), Function.update_self]
  · rw [Function.update_of_ne (hd z hz), Function.update_of_ne (hne z (by simp [hz]))]

theorem IsRing.relocate {k : Links α} {s x y : α} {l₁ l₂ : List α} (h : IsRing k s (l₁ ++ x :: l₂))
    (hy : y ∉ s :: (l₁ ++ x :: l₂)) : IsRing (k.relocate x y) s (l₁ ++ y :: l₂) := by
  have hs := h.swap
  rw [List.reverse_append, List.reverse_cons, List.append_assoc, List.singleton_append] at hs
  have hy' : y ∉ s :: (l₂.reverse ++ x :: l₁.reverse) := by
    simp only [List.mem_cons, List.mem_append, List.mem_reverse, not_or] at hy ⊢
    tauto
  have hyx : x ≠ y := fun he => hy (by simp [he])
  have hnx : k.next x ≠ y := fun he => by
    obtain ⟨-, -, -, hhead, -, -⟩ := h.split
    have hm : y ∈ l₂ ++ [s] := List.mem_of_head? (he ▸ hhead)
    simp only [List.mem_append, List.mem_singleton] at hm
    exact hy (by rcases hm with h | h <;> simp [h])
  have hpx : k.prev x ≠ y := fun he => by
    obtain ⟨-, -, hlast, -, -, -⟩ := h.split
    have hm : y ∈ s :: l₁ := List.mem_of_getLast? (he ▸ hlast)
    exact hy (by rw [← List.cons_append]; exact List.mem_append_left _ hm)
  have heq : k.relocate x y =
      ⟨Function.update (Function.update k.prev y (k.prev x)) (k.next x) y,
        Function.update (Function.update k.next y (k.next x)) (k.prev x) y⟩ := by
    simp [Links.relocate, Links.setNext, Links.setPrev, Function.update_of_ne (Ne.symm hpx)]
  rw [heq]
  refine ⟨h.relocate_next hy, ?_, ?_⟩
  · rw [List.reverse_append, List.reverse_cons, List.append_assoc, List.singleton_append]
    exact hs.relocate_next hy'
  · have hn := h.nodup
    have hperm : (s :: (l₁ ++ x :: l₂)).Perm (x :: s :: (l₁ ++ l₂)) := by
      refine (List.Perm.cons s List.perm_middle).trans (List.Perm.swap x s _)
    have hperm' : (s :: (l₁ ++ y :: l₂)).Perm (y :: s :: (l₁ ++ l₂)) := by
      refine (List.Perm.cons s List.perm_middle).trans (List.Perm.swap y s _)
    rw [hperm.nodup_iff] at hn
    rw [hperm'.nodup_iff]
    refine List.nodup_cons.2 ⟨fun hm => hy ?_, (List.nodup_cons.1 hn).2⟩
    simp only [List.mem_cons, List.mem_append] at hm ⊢
    tauto

end Ring

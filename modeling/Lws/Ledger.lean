import Mathlib.Data.List.Perm.Basic
import Mathlib.Data.List.Nodup
/-!
# Ledger — what is owned is freed once

`owned` is everything that has ever been taken over, each thing once.  A ledger balances if that is what has been freed and what is
still held: nothing that is held has been freed, and once nothing is held, each thing has been freed exactly once.
-/
namespace Ledger

variable {α : Type}

structure Balanced (freed held owned : List α) : Prop where
  perm : (freed ++ held).Perm owned
  nodup : owned.Nodup

variable {freed frees held held' owned owned' : List α} {x : α}

theorem balanced_nil : Balanced ([] : List α) [] [] := ⟨List.Perm.refl [], List.nodup_nil⟩

theorem Balanced.held_perm (h : Balanced freed held owned) (hp : held.Perm held') : Balanced freed held' owned :=
  ⟨(hp.symm.append_left freed).trans h.perm, h.nodup⟩

theorem Balanced.owned_perm (h : Balanced freed held owned) (hp : owned.Perm owned') : Balanced freed held owned' :=
  ⟨h.perm.trans hp, hp.nodup_iff.1 h.nodup⟩

theorem Balanced.take (h : Balanced freed held owned) (hx : x ∉ owned) : Balanced freed (x :: held) (x :: owned) :=
  ⟨List.perm_middle.trans (h.perm.cons x), List.nodup_cons.2 ⟨hx, h.nodup⟩⟩

theorem Balanced.release (h : Balanced freed (frees ++ held) owned) : Balanced (freed ++ frees) held owned :=
  ⟨by rw [List.append_assoc]; exact h.perm, h.nodup⟩

theorem Balanced.disjoint (h : Balanced freed held owned) : freed.Disjoint held :=
  (List.nodup_append'.1 (h.perm.nodup_iff.2 h.nodup)).2.2

theorem Balanced.not_freed (h : Balanced freed held owned) (hx : x ∈ held) : x ∉ freed := fun hfreed => h.disjoint hfreed hx

theorem Balanced.owned_of_freed (h : Balanced freed held owned) (hx : x ∈ freed) : x ∈ owned :=
  h.perm.subset (List.mem_append_left held hx)

/-- **Once nothing is held, each thing has been freed exactly once**, and nothing else. -/
theorem Balanced.count_freed [DecidableEq α] (h : Balanced freed [] owned) (x : α) : freed.count x = if x ∈ owned then 1 else 0 := by
  have hperm := h.perm
  rw [List.append_nil] at hperm
  rw [hperm.count_eq]
  split_ifs with hx
  · exact List.count_eq_one_of_mem h.nodup hx
  · exact List.count_eq_zero_of_not_mem hx

/-- **What is not held any more has been freed exactly once**, and what is held never. -/
theorem Balanced.count_freed_held [DecidableEq α] (h : Balanced freed held owned) (x : α) :
    freed.count x = if x ∈ owned ∧ x ∉ held then 1 else 0 := by
  have hcount := h.perm.count_eq x
  rw [List.count_append] at hcount
  split_ifs with hx
  · rwa [List.count_eq_zero_of_not_mem hx.2, List.count_eq_one_of_mem h.nodup hx.1, Nat.add_zero] at hcount
  · refine List.count_eq_zero_of_not_mem fun hfreed => hx ⟨h.owned_of_freed hfreed, fun hheld => h.not_freed hheld hfreed⟩

/-- **What ceases to be held has been freed in between.** -/
theorem Balanced.freed_between (h : Balanced freed held owned) (h' : Balanced (freed ++ frees) held' owned')
    (hsub : owned ⊆ owned') (hx : x ∈ held) (hx' : x ∉ held') : x ∈ frees := by
  have howned := h.perm.subset (List.mem_append_right freed hx)
  rcases List.mem_append.1 (h'.perm.symm.subset (hsub howned)) with hfreed | hheld
  · exact (List.mem_append.1 hfreed).resolve_left (h.not_freed hx)
  · exact absurd hheld hx'

end Ledger

import Mathlib.Data.Nat.ModEq
import Mathlib.Data.Nat.Prime.Basic
import Mathlib.Data.Finset.Card
/-!
# Probe — double-hashing probe sequences

`probe n q h k` is the slot reached from `h` after `k` strides of `q` in a table of `n` slots.  A stride prime to `n`
visits every slot exactly once in `n` steps (`probe_inj`, `probe_surj`).  `walk` is the same in machine arithmetic, where the sum
of a slot and the stride is taken modulo `m`: it visits every slot exactly once iff no such sum reaches `m` (`walk_visits_iff`).
-/
namespace Probe

/-- The slot reached from `h` after `k` strides of `q` modulo `n`. -/
def probe (n q h k : Nat) : Nat := (h + k * q) % n

variable {n q h : Nat}

theorem probe_zero (hh : h < n) : probe n q h 0 = h := by
  rw [probe, Nat.zero_mul, Nat.add_zero, Nat.mod_eq_of_lt hh]

theorem probe_lt (hn : 0 < n) (k : Nat) : probe n q h k < n := Nat.mod_lt _ hn

theorem probe_probe (k j : Nat) : probe n q (probe n q h k) j = probe n q h (k + j) := by
  unfold probe
  rw [Nat.mod_add_mod, Nat.add_mul, Nat.add_assoc]

theorem probe_succ (k : Nat) : (probe n q h k + q) % n = probe n q h (k + 1) := by
  unfold probe
  rw [Nat.mod_add_mod, Nat.add_mul, Nat.one_mul, Nat.add_assoc]

theorem probe_add_size (k : Nat) : probe n q h (k + n) = probe n q h k := by
  unfold probe
  rw [Nat.add_mul, ← Nat.add_assoc, Nat.add_mul_mod_self_left]

theorem probe_inj (hq : Nat.Coprime q n) {k j : Nat} (hk : k < n) (hj : j < n)
    (h' : probe n q h k = probe n q h j) : k = j := by
  have hmul : k * q ≡ j * q [MOD n] := Nat.ModEq.add_left_cancel' h h'
  have hkj : k ≡ j [MOD n] := Nat.ModEq.cancel_right_of_coprime (Nat.Coprime.symm hq) hmul
  exact Nat.ModEq.eq_of_lt_of_lt hkj hk hj

theorem probe_surj (hn : 0 < n) (hq : Nat.Coprime q n) (h : Nat) {i : Nat} (hi : i < n) : ∃ k < n, probe n q h k = i := by
  have hmaps : ∀ k ∈ Finset.range n, probe n q h k ∈ Finset.range n :=
    fun k _ => Finset.mem_range.2 (probe_lt hn k)
  have hinj : Set.InjOn (probe n q h) (Finset.range n) := fun k hk j hj he =>
    probe_inj hq (Finset.mem_range.1 hk) (Finset.mem_range.1 hj) he
  obtain ⟨k, hk, he⟩ := Finset.surjOn_of_injOn_of_card_le (probe n q h) hmaps hinj (le_refl _)
    (Finset.mem_coe.2 (Finset.mem_range.2 hi))
  exact ⟨k, Finset.mem_range.1 hk, he⟩

theorem coprime_stride (hp : n.Prime) (hq : 0 < q) (hqn : q < n) : Nat.Coprime q n :=
  Nat.Coprime.symm ((Nat.Prime.coprime_iff_not_dvd hp).2 (Nat.not_dvd_of_pos_of_lt hq hqn))

theorem le_of_probe_eq_start (hq : Nat.Coprime q n) (hh : h < n) {k : Nat} (hk : 0 < k) (he : probe n q h k = h) :
    n ≤ k := by
  rcases Nat.lt_or_ge k n with hlt | hge
  · have := probe_inj hq hlt (Nat.zero_lt_of_lt hh) (he.trans (probe_zero hh).symm)
    omega
  · exact hge

/-- The slot reached from `h` after `k` strides of `q`, where a slot and a stride are added modulo `m`. -/
def walk (m n q h : Nat) : Nat → Nat
  | 0 => h
  | k + 1 => (walk m n q h k + q) % m % n

variable {m : Nat}

theorem walk_lt (hh : h < n) : ∀ k, walk m n q h k < n
  | 0 => hh
  | _ + 1 => Nat.mod_lt _ (Nat.zero_lt_of_lt hh)

theorem walk_eq_probe (hh : h < n) (hfits : n + q ≤ m) : ∀ k, walk m n q h k = probe n q h k
  | 0 => (probe_zero hh).symm
  | k + 1 => by
    have hlt := walk_lt (m := m) (q := q) hh k
    have hsum : walk m n q h k + q < m := by omega
    rw [walk, Nat.mod_eq_of_lt hsum, walk_eq_probe hh hfits k, probe_succ]

/-- **Two slots lead to slot 0** where a sum of a slot and the stride reaches `m`. -/
theorem zero_of_wrap (hnm : n < m) (hqn : q < n) (hwrap : m < n + q) :
    (n - q + q) % m % n = 0 ∧ (m - q + q) % m % n = 0 ∧ m - q < n ∧ n - q ≠ m - q := by
  refine ⟨?_, ?_, by omega, by omega⟩
  · rw [Nat.sub_add_cancel hqn.le, Nat.mod_eq_of_lt hnm, Nat.mod_self]
  · rw [Nat.sub_add_cancel (hqn.le.trans hnm.le), Nat.mod_self, Nat.zero_mod]

/-- **A walk visits every slot exactly once**, and is then back at its start, iff no sum of a slot and the stride reaches `m`. -/
theorem walk_visits_iff (hnm : n < m) (hq : Nat.Coprime q n) (hqn : q < n) (hh : h < n) :
    (∀ i < n, ∃! k, k < n ∧ walk m n q h k = i) ∧ walk m n q h n = h ↔ n + q ≤ m := by
  constructor
  · rintro ⟨hvisits, hback⟩
    by_contra hwrap
    obtain ⟨hfirst, hsecond, hlt, hne⟩ := zero_of_wrap hnm hqn (not_le.1 hwrap)
    obtain ⟨k, ⟨hk, hki⟩, -⟩ := hvisits (n - q) (by omega)
    obtain ⟨j, ⟨hj, hji⟩, -⟩ := hvisits (m - q) hlt
    obtain ⟨z, -, hz⟩ := hvisits 0 (Nat.zero_lt_of_lt hh)
    -- the walk is at slot 0 at one place of the round, and at both of those
    have hnext (k : Nat) (hk : k < n) (h0 : walk m n q h (k + 1) = 0) : z = (k + 1) % n := by
      have hle : k + 1 ≤ n := hk
      rcases Nat.lt_or_eq_of_le hle with hlt | heq
      · rw [Nat.mod_eq_of_lt hlt]
        exact (hz (k + 1) ⟨hlt, h0⟩).symm
      · rw [heq] at h0 ⊢
        rw [Nat.mod_self]
        exact (hz 0 ⟨Nat.zero_lt_of_lt hk, by rw [walk, ← hback]; exact h0⟩).symm
    have hzk := hnext k hk (by rw [walk, hki, hfirst])
    have hzj := hnext j hj (by rw [walk, hji, hsecond])
    have hkj : k = j :=
      Nat.ModEq.eq_of_lt_of_lt (Nat.ModEq.add_right_cancel' 1 (hzk.symm.trans hzj)) hk hj
    exact hne (hki.symm.trans (hkj ▸ hji))
  · intro hfits
    simp only [walk_eq_probe hh hfits]
    refine ⟨fun i hi => ?_, ?_⟩
    · obtain ⟨k, hk, hki⟩ := probe_surj (Nat.zero_lt_of_lt hh) hq h hi
      exact ⟨k, ⟨hk, hki⟩, fun j hj => probe_inj hq hj.1 hk (hj.2.trans hki.symm)⟩
    · have hround := probe_add_size (n := n) (q := q) (h := h) 0
      rw [Nat.zero_add] at hround
      rw [hround, probe_zero hh]

end Probe

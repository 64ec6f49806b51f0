import Mathlib.FieldTheory.Finite.Basic
import Mathlib.NumberTheory.Bertrand
import Lws.Pratt
/-!
# NextPrime — trial division, and the prime that comes next

A number that 2 and 3 do not divide is prime if no number of the forms `6k + 5` and `6k + 7` up to its root divides it
(`prime_iff_trial`).  `nextPrime` is the least prime from a number on; a run of composites before a prime shows which it is, and
the composites are checked by the kernel, by a small divisor or by Fermat's theorem.
-/
namespace NextPrime

/-! ## Trial division -/

/-- No divisor of the two forms, from `i` up to `s`. -/
def Trial (n s i : Nat) : Prop := ∀ j, i ≤ j → j ≤ s → j % 6 = 5 → ¬j ∣ n ∧ ¬(j + 2) ∣ n

theorem trial_step {n s i : Nat} (hi : i % 6 = 5) (hle : i ≤ s) : Trial n s i ↔ (¬i ∣ n ∧ ¬(i + 2) ∣ n) ∧ Trial n s (i + 6) := by
  constructor
  · exact fun h => ⟨h i le_rfl hle hi, fun j hj => h j (by omega)⟩
  · rintro ⟨hdvd, hrest⟩ j hij hj hmod
    rcases Nat.eq_or_lt_of_le hij with rfl | hlt
    · exact hdvd
    · exact hrest j (by omega) hj hmod

theorem trial_done {n s i : Nat} (h : s < i) : Trial n s i := fun _ hij hj => absurd (hij.trans hj) (Nat.not_le.2 h)

theorem prime_mod_six {q : Nat} (hq : q.Prime) (h2 : q ≠ 2) (h3 : q ≠ 3) : q % 6 = 1 ∨ q % 6 = 5 := by
  have hne2 : ¬2 ∣ q := fun h => h2 ((Nat.prime_dvd_prime_iff_eq Nat.prime_two hq).1 h).symm
  have hne3 : ¬3 ∣ q := fun h => h3 ((Nat.prime_dvd_prime_iff_eq Nat.prime_three hq).1 h).symm
  omega

theorem prime_iff_trial {n : Nat} (hn : 3 < n) (h2 : ¬2 ∣ n) (h3 : ¬3 ∣ n) : n.Prime ↔ Trial n n.sqrt 5 := by
  constructor
  · intro hprime j hj hjs _
    have hlt : j * j ≤ n := Nat.le_sqrt.1 hjs
    have hsmall : j + 2 < n := by nlinarith
    refine ⟨fun hdvd => ?_, fun hdvd => ?_⟩
    · rcases (Nat.dvd_prime hprime).1 hdvd with h | h <;> omega
    · rcases (Nat.dvd_prime hprime).1 hdvd with h | h <;> omega
  · intro htrial
    by_contra hprime
    -- the least factor is up to the root, and of one of the two forms
    have hq : n.minFac.Prime := Nat.minFac_prime (by omega)
    have hdvd := n.minFac_dvd
    have hsqrt : n.minFac ≤ n.sqrt := by
      rw [Nat.le_sqrt, ← pow_two]
      exact Nat.minFac_sq_le_self (by omega) hprime
    have hq2 : n.minFac ≠ 2 := fun h => h2 (h ▸ hdvd)
    have hq3 : n.minFac ≠ 3 := fun h => h3 (h ▸ hdvd)
    have htwo := hq.two_le
    rcases prime_mod_six hq hq2 hq3 with hmod | hmod
    · have hminus : n.minFac - 2 + 2 = n.minFac := by omega
      refine (htrial (n.minFac - 2) (by omega) (by omega) (by omega)).2 ?_
      rwa [hminus]
    · exact (htrial n.minFac (by omega) hsqrt hmod).1 hdvd

/-! ## The next prime -/

def nextPrime (n : Nat) : Nat := Nat.find (Nat.exists_infinite_primes n)

theorem nextPrime_prime (n : Nat) : (nextPrime n).Prime := (Nat.find_spec (Nat.exists_infinite_primes n)).2

theorem le_nextPrime (n : Nat) : n ≤ nextPrime n := (Nat.find_spec (Nat.exists_infinite_primes n)).1

theorem nextPrime_le {n p : Nat} (hle : n ≤ p) (hp : p.Prime) : nextPrime n ≤ p := Nat.find_min' _ ⟨hle, hp⟩

theorem nextPrime_mono {n m : Nat} (h : n ≤ m) : nextPrime n ≤ nextPrime m :=
  nextPrime_le (h.trans (le_nextPrime m)) (nextPrime_prime m)

theorem nextPrime_eq {n p : Nat} (hle : n ≤ p) (hp : p.Prime) (h : ∀ m, n ≤ m → m < p → ¬m.Prime) : nextPrime n = p := by
  refine le_antisymm (nextPrime_le hle hp) (Nat.le_of_not_lt fun hlt => ?_)
  exact h _ (le_nextPrime n) hlt (nextPrime_prime n)

theorem nextPrime_le_two_mul {n : Nat} (hn : n ≠ 0) : nextPrime n ≤ 2 * n := by
  obtain ⟨p, hp, hlt, hle⟩ := Nat.exists_prime_lt_and_le_two_mul n hn
  exact (nextPrime_le hlt.le hp).trans hle

/-! ## Composites, for the kernel -/

def divisors : List Nat := [2, 3, 5, 7, 11, 13, 17, 19, 23, 29, 31, 37, 41, 43, 47]

theorem one_lt_divisors : ∀ q ∈ divisors, 1 < q := by decide

/-- One of these divisors, or a power that Fermat's theorem excludes. -/
def composite (m : Nat) : Bool :=
  divisors.any (fun q => decide (q < m) && decide (m % q = 0)) ||
    (decide (2 < m) && decide (m < 2 ^ Pratt.expBits) && decide (Pratt.powMod Pratt.expBits 2 (m - 1) m ≠ 1))

theorem not_prime_of_composite {m : Nat} (h : composite m = true) : ¬m.Prime := by
  intro hprime
  rcases Bool.or_eq_true_iff.1 h with h | h
  · obtain ⟨q, hq, hdvd⟩ := List.any_eq_true.1 h
    rw [Bool.and_eq_true, decide_eq_true_eq, decide_eq_true_eq] at hdvd
    have hone := one_lt_divisors q hq
    rcases (Nat.dvd_prime hprime).1 (Nat.dvd_of_mod_eq_zero hdvd.2) with h | h <;> omega
  · simp only [Bool.and_eq_true, decide_eq_true_eq] at h
    obtain ⟨⟨htwo, hbits⟩, hpow⟩ := h
    have hm : Fact m.Prime := ⟨hprime⟩
    have hunit : ((2 : Nat) : ZMod m) ≠ 0 := fun h0 => by
      have hdvd := (ZMod.natCast_eq_zero_iff 2 m).1 h0
      exact absurd (Nat.le_of_dvd (by omega) hdvd) (by omega)
    have hfermat := ZMod.pow_card_sub_one_eq_one hunit
    rw [← Pratt.powMod_cast m Pratt.expBits 2 (m - 1) (by omega)] at hfermat
    refine hpow ?_
    have hcast : ((Pratt.powMod Pratt.expBits 2 (m - 1) m : Nat) : ZMod m) = ((1 : Nat) : ZMod m) := by
      rw [hfermat, Nat.cast_one]
    rw [ZMod.natCast_eq_natCast_iff', Nat.mod_eq_of_lt (Pratt.powMod_lt m (by omega) _ _ _), Nat.mod_eq_of_lt (by omega)] at hcast
    exact hcast

/-- All numbers from `n` up to `p` are composite. -/
def compositeBelow (n p : Nat) : Bool := (List.range (p - n)).all fun i => composite (n + i)

theorem nextPrime_of_compositeBelow {n p : Nat} (hle : n ≤ p) (hp : p.Prime) (h : compositeBelow n p = true) : nextPrime n = p := by
  refine nextPrime_eq hle hp fun m hnm hmp => not_prime_of_composite ?_
  have hm := List.all_eq_true.1 h (m - n) (List.mem_range.2 (by omega))
  rwa [Nat.add_sub_cancel' hnm] at hm

end NextPrime

import Mathlib.NumberTheory.LucasPrimality
import Mathlib.Tactic.Ring
/-!
# Pratt — primality certificates the kernel evaluates

A certificate names a prime, a primitive root and the prime factors of the prime less one.  `checkAll` reads a list of
certificates in an order in which every factor is `2` or was certified before; a list that passes certifies its primes
(`prime_of_checkAll`).  Everything recurses structurally, so the check runs in the kernel.
-/
namespace Pratt

/-- `a ^ e % m` by squaring, for exponents of at most `fuel` bits. -/
def powMod : Nat → Nat → Nat → Nat → Nat
  | 0, _, _, m => 1 % m
  | fuel + 1, a, e, m =>
    if e = 0 then 1 % m
    else
      let r := powMod fuel (a * a % m) (e / 2) m
      if e % 2 = 1 then r * a % m else r

theorem powMod_cast (m : Nat) : ∀ (fuel a e : Nat), e < 2 ^ fuel →
    ((powMod fuel a e m : Nat) : ZMod m) = (a : ZMod m) ^ e
  | 0, a, e, he => by
    obtain rfl : e = 0 := by simpa using he
    simp [powMod]
  | fuel + 1, a, e, he => by
    have hhalf : e / 2 < 2 ^ fuel := by rw [pow_succ] at he; omega
    have ih := powMod_cast m fuel (a * a % m) (e / 2) hhalf
    have hsq : ((a * a % m : Nat) : ZMod m) ^ (e / 2) = (a : ZMod m) ^ (2 * (e / 2)) := by
      rw [ZMod.natCast_mod, Nat.cast_mul, ← pow_two, ← pow_mul]
    have hsplit := Nat.div_add_mod e 2
    unfold powMod
    split
    · rename_i h0
      subst h0
      simp
    · split
      · rename_i hodd
        rw [hodd] at hsplit
        rw [ZMod.natCast_mod, Nat.cast_mul, ih, hsq, ← pow_succ, hsplit]
      · rename_i hodd
        have heven : e % 2 = 0 := by omega
        rw [heven, Nat.add_zero] at hsplit
        rw [ih, hsq, hsplit]

theorem powMod_lt (m : Nat) (hm : 1 < m) : ∀ (fuel a e : Nat), powMod fuel a e m < m
  | 0, _, _ => Nat.mod_lt _ (by omega)
  | fuel + 1, a, e => by
    unfold powMod
    split
    · exact Nat.mod_lt _ (by omega)
    · dsimp only
      split
      · exact Nat.mod_lt _ (by omega)
      · exact powMod_lt m hm fuel _ _

/-- A prime, a primitive root of it, and the prime factors of `p - 1` with multiplicity. -/
structure Cert where
  p : Nat
  root : Nat
  factors : List Nat

/-- Bits of the exponents the checker raises to. -/
def expBits : Nat := 64

/-- One certificate against the primes certified so far. -/
def Cert.check (known : List Nat) (c : Cert) : Bool :=
  decide (1 < c.p) && decide (c.p < 2 ^ expBits) && c.factors.all (fun q => known.elem q) &&
    decide (c.factors.prod = c.p - 1) && decide (powMod expBits c.root (c.p - 1) c.p = 1) &&
    c.factors.all (fun q => decide (powMod expBits c.root ((c.p - 1) / q) c.p ≠ 1))

def checkAll : List Nat → List Cert → Bool
  | _, [] => true
  | known, c :: cs => c.check known && checkAll (c.p :: known) cs

theorem mem_of_prime_dvd_prod {q : Nat} (hq : q.Prime) : ∀ (l : List Nat), (∀ p ∈ l, p.Prime) → q ∣ l.prod → q ∈ l
  | [], _, h => absurd h (by simpa using hq.one_lt.ne')
  | p :: l, hl, h => by
    rw [List.prod_cons] at h
    rcases (Nat.Prime.dvd_mul hq).1 h with h | h
    · have := (Nat.prime_dvd_prime_iff_eq hq (hl p (by simp))).1 h
      simp [this]
    · exact List.mem_cons_of_mem p (mem_of_prime_dvd_prod hq l (fun r hr => hl r (by simp [hr])) h)

theorem Cert.prime_of_check {known : List Nat} {c : Cert} (hk : ∀ q ∈ known, q.Prime) (h : c.check known = true) :
    c.p.Prime := by
  simp only [Cert.check, Bool.and_eq_true, decide_eq_true_eq, List.all_eq_true, List.elem_eq_mem] at h
  obtain ⟨⟨⟨⟨⟨hp, hbits⟩, hmem⟩, hprod⟩, hone⟩, hne⟩ := h
  have hcast (e : Nat) (he : e ≤ c.p - 1) : ((powMod expBits c.root e c.p : Nat) : ZMod c.p) = (c.root : ZMod c.p) ^ e :=
    powMod_cast c.p expBits c.root e (by omega)
  refine lucas_primality c.p (c.root : ZMod c.p) ?_ (fun q hq hdvd hpow => ?_)
  · rw [← hcast _ (le_refl _), hone, Nat.cast_one]
  · have hqm : q ∈ c.factors :=
      mem_of_prime_dvd_prod hq c.factors (fun r hr => hk r (hmem r hr)) (by rw [hprod]; exact hdvd)
    rw [← hcast _ (Nat.div_le_self _ _)] at hpow
    have hval := congrArg ZMod.val hpow
    rw [ZMod.val_natCast_of_lt (powMod_lt c.p hp _ _ _), ZMod.val_one_eq_one_mod, Nat.mod_eq_of_lt hp] at hval
    exact hne q hqm hval

theorem prime_of_checkAll : ∀ (cs : List Cert) (known : List Nat), (∀ q ∈ known, q.Prime) → checkAll known cs = true →
    ∀ c ∈ cs, c.p.Prime
  | [], _, _, _, _, hc => by cases hc
  | c :: cs, known, hk, h, d, hd => by
    simp only [checkAll, Bool.and_eq_true] at h
    have hp := Cert.prime_of_check hk h.1
    rcases List.mem_cons.1 hd with rfl | hd
    · exact hp
    · refine prime_of_checkAll cs (c.p :: known) (fun q hq => ?_) h.2 d hd
      rcases List.mem_cons.1 hq with rfl | hq
      · exact hp
      · exact hk q hq

end Pratt

import Lws.NextPrime
import Lws.TableSizes
/-!
# TableGen — the generator of the table sizes (`gen/table.c`)

The generator runs on a host with a 64-bit `size_t`; the text it prints is the one in `lws_table.c`.  A loop has fuel, and is none
if it runs out; each loop ends within a number of rounds that is known.
-/
namespace Lws

/-- A `size_t` of the host. -/
def sizeT (n : Nat) : Nat := n % 2 ^ 64

def isqrtLoop (n : Nat) : Nat → Nat → Nat → Nat → Option Nat
  | 0, _, _, _ => none
  | fuel + 1, l, a, d => if a ≤ n then isqrtLoop n fuel (sizeT (l + 1)) (sizeT (a + d)) (sizeT (d + 2)) else some l

def isqrt (fuel n : Nat) : Option Nat := isqrtLoop n fuel 0 1 3

def isPrimeLoop (n sqrt : Nat) : Nat → Nat → Option Bool
  | 0, _ => none
  | fuel + 1, i =>
    if i ≤ sqrt then
      if n % i = 0 ∨ n % sizeT (i + 2) = 0 then some false else isPrimeLoop n sqrt fuel (sizeT (i + 6))
    else some true

def isPrime (fuel n : Nat) : Option Bool :=
  if n ≤ 3 then some (decide (n > 1))
  else if n % 2 = 0 ∨ n % 3 = 0 then some false
  else (isqrt fuel n).bind fun sqrt => isPrimeLoop n sqrt fuel 5

def nextPrimeLoop (fuel : Nat) : Nat → Nat → Option Nat
  | 0, _ => none
  | k + 1, p =>
    match isPrime fuel p with
    | none => none
    | some true => some p
    | some false => nextPrimeLoop fuel k (sizeT (p + 1))

def nextPrime (fuel n : Nat) : Option Nat := nextPrimeLoop fuel fuel n

/-- The loop of `primes`: the sizes it prints, and the number it prints after them. -/
def primesLoop (fuel limit : Nat) : Nat → Nat → Nat → Nat → Option (List Nat × Nat)
  | 0, _, _, _ => none
  | k + 1, size, primePrev, n =>
    if size < limit then
      match nextPrime fuel size with
      | none => none
      | some prime =>
        if prime = primePrev then primesLoop fuel limit k (sizeT (size + size / 3)) primePrev n
        else (primesLoop fuel limit k (sizeT (size + size / 3)) prime (n + 1)).map fun r => (prime :: r.1, r.2)
    else some ([], n)

def primes (fuel limit : Nat) : Option (List Nat × Nat) := primesLoop fuel limit fuel 3 0 0

/-- The limit that `main` gives for a build. -/
def Build.limit : Build → Nat
  | .b64 => 2 ^ 48
  | .b32 => 2 ^ 32

/-! ## `is_prime` -/

theorem sizeT_eq {n : Nat} (h : n < 2 ^ 64) : sizeT n = n := Nat.mod_eq_of_lt h

/-- From here on the square after the root of `n` wraps. -/
def rootLimit : Nat := (2 ^ 32 - 1) ^ 2

theorem sqrt_lt {n : Nat} (h : n < rootLimit) : n.sqrt < 2 ^ 32 - 1 := Nat.sqrt_lt'.2 h

/-- **The loop of `isqrt`** adds odd numbers up to the square after the root. -/
theorem isqrtLoop_eq {n : Nat} (hn : n < rootLimit) : ∀ {fuel l : Nat}, l ≤ n.sqrt → n.sqrt - l < fuel →
    isqrtLoop n fuel l ((l + 1) * (l + 1)) (2 * l + 3) = some n.sqrt
  | 0, _, _, hfuel => absurd hfuel (Nat.not_lt_zero _)
  | fuel + 1, l, hl, hfuel => by
    have hroot := sqrt_lt hn
    rw [isqrtLoop]
    split
    · next hle =>
      have hl' : l + 1 ≤ n.sqrt := Nat.le_sqrt.2 hle
      have hsq : (l + 1) * (l + 1) + (2 * l + 3) = (l + 1 + 1) * (l + 1 + 1) := by ring
      have hnext : l + 1 + 1 ≤ 2 ^ 32 - 1 := by omega
      have hwrap : (l + 1 + 1) * (l + 1 + 1) < 2 ^ 64 := (Nat.mul_le_mul hnext hnext).trans_lt (by norm_num)
      rw [hsq, sizeT_eq hwrap, sizeT_eq (by omega), sizeT_eq (by omega)]
      exact isqrtLoop_eq hn hl' (by omega)
    · next hlt =>
      have hle : n.sqrt ≤ l := Nat.lt_succ_iff.1 (Nat.sqrt_lt.2 (Nat.not_le.1 hlt))
      rw [le_antisymm hl hle]

theorem isqrt_eq {n fuel : Nat} (hn : n < rootLimit) (hfuel : n.sqrt < fuel) : isqrt fuel n = some n.sqrt :=
  isqrtLoop_eq hn (Nat.zero_le _) (by omega)

theorem isPrimeLoop_eq {n s : Nat} (hs : s < 2 ^ 63) : ∀ {fuel i : Nat}, i % 6 = 5 → i ≤ s + 6 → s + 7 - i ≤ fuel →
    ∃ r, isPrimeLoop n s fuel i = some r ∧ (r = true ↔ NextPrime.Trial n s i)
  | 0, i, _, hi, hfuel => by omega
  | fuel + 1, i, hmod, hi, hfuel => by
    rw [isPrimeLoop]
    split
    · next hle =>
      rw [sizeT_eq (by omega), sizeT_eq (by omega), NextPrime.trial_step hmod hle, Nat.dvd_iff_mod_eq_zero, Nat.dvd_iff_mod_eq_zero]
      split
      · next hdvd => exact ⟨false, rfl, iff_of_false Bool.false_ne_true (by tauto)⟩
      · next hdvd =>
        rw [not_or] at hdvd
        obtain ⟨r, hr, hiff⟩ := isPrimeLoop_eq hs (by omega : (i + 6) % 6 = 5) (by omega) (by omega : s + 7 - (i + 6) ≤ fuel)
        exact ⟨r, hr, hiff.trans (and_iff_right hdvd).symm⟩
    · next hgt => exact ⟨true, rfl, iff_of_true rfl (NextPrime.trial_done (Nat.not_le.1 hgt))⟩

/-- **`is_prime` decides primality**, of every number whose root can be found. -/
theorem isPrime_eq {n fuel : Nat} (hn : n < rootLimit) (hfuel : 2 ^ 32 + 8 ≤ fuel) : isPrime fuel n = some (decide n.Prime) := by
  have hroot := sqrt_lt hn
  unfold isPrime
  split
  · next hle =>
    have hsmall : ∀ n ≤ 3, decide (n > 1) = decide n.Prime := by decide
    rw [hsmall n hle]
  · next hgt =>
    split
    · next hdvd =>
      rw [← Nat.dvd_iff_mod_eq_zero, ← Nat.dvd_iff_mod_eq_zero] at hdvd
      have hnot : ¬n.Prime := fun hprime => by
        rcases hdvd with h | h
        · rcases (Nat.dvd_prime hprime).1 h with h | h <;> omega
        · rcases (Nat.dvd_prime hprime).1 h with h | h <;> omega
      rw [decide_eq_false hnot]
    · next hdvd =>
      rw [not_or, ← Nat.dvd_iff_mod_eq_zero, ← Nat.dvd_iff_mod_eq_zero] at hdvd
      rw [isqrt_eq hn (by omega), Option.bind_some]
      obtain ⟨r, hr, hiff⟩ := isPrimeLoop_eq (n := n) (s := n.sqrt) (by omega) (by decide : 5 % 6 = 5) (by omega)
        (by omega : n.sqrt + 7 - 5 ≤ fuel)
      rw [hr, ← NextPrime.prime_iff_trial (by omega) hdvd.1 hdvd.2] at *
      rw [Bool.eq_iff_iff.2 (hiff.trans decide_eq_true_iff.symm)]

/-! ## `primes` -/

theorem nextPrimeLoop_eq {fuel n : Nat} (hfuel : 2 ^ 32 + 8 ≤ fuel) (hn : NextPrime.nextPrime n < rootLimit) :
    ∀ {k p : Nat}, n ≤ p → p ≤ NextPrime.nextPrime n → NextPrime.nextPrime n - p < k →
      nextPrimeLoop fuel k p = some (NextPrime.nextPrime n)
  | 0, _, _, _, hk => absurd hk (Nat.not_lt_zero _)
  | k + 1, p, hnp, hp, hk => by
    have hwrap : rootLimit < 2 ^ 64 := by decide
    rw [nextPrimeLoop, isPrime_eq (by omega) hfuel]
    by_cases hprime : p.Prime
    · rw [decide_eq_true hprime, le_antisymm hp (NextPrime.nextPrime_le hnp hprime)]
    · have hlt : p < NextPrime.nextPrime n := lt_of_le_of_ne hp fun h => hprime (h ▸ NextPrime.nextPrime_prime n)
      rw [decide_eq_false hprime]
      dsimp only
      rw [sizeT_eq (by omega)]
      exact nextPrimeLoop_eq hfuel hn (by omega) (by omega) (by omega)

def growth (k : Nat) : Nat := (fun size => size + size / 3)^[k] 3

theorem growth_succ (k : Nat) : growth (k + 1) = growth k + growth k / 3 := Function.iterate_succ_apply' _ k 3

theorem three_le_growth : ∀ k, 3 ≤ growth k
  | 0 => le_rfl
  | k + 1 => by
    rw [growth_succ]
    exact (three_le_growth k).trans (Nat.le_add_right _ _)

theorem growth_strictMono : StrictMono growth := strictMono_nat_of_lt_succ fun k => by
  rw [growth_succ]
  have := three_le_growth k
  omega

theorem nextPrime_eq {fuel size : Nat} (hfuel : 2 ^ 63 ≤ fuel) (hpos : 0 < size) (hsize : size < 2 ^ 62) :
    nextPrime fuel size = some (NextPrime.nextPrime size) := by
  have htwo := NextPrime.nextPrime_le_two_mul (Nat.pos_iff_ne_zero.1 hpos)
  have hlimit : 2 ^ 63 < rootLimit := by decide
  exact nextPrimeLoop_eq (by omega) (by omega) le_rfl (NextPrime.le_nextPrime size) (by omega)

/-- **The loop of `primes`** prints, in ascending order, what comes next after the sizes from one on, and counts it. -/
theorem primesLoop_eq {fuel limit : Nat} (hfuel : 2 ^ 63 ≤ fuel) (hlimit : limit ≤ 2 ^ 62) : ∀ {k j primePrev n : Nat},
    limit - growth j < k → primePrev ≤ NextPrime.nextPrime (growth j) →
    ∃ sizes, primesLoop fuel limit k (growth j) primePrev n = some (sizes, n + sizes.length) ∧
      (primePrev :: sizes).Pairwise (· < ·) ∧
      ∀ p, p ∈ sizes ↔ p ≠ primePrev ∧ ∃ i ≥ j, growth i < limit ∧ p = NextPrime.nextPrime (growth i)
  | 0, _, _, _, hk, _ => absurd hk (Nat.not_lt_zero _)
  | k + 1, j, primePrev, n, hk, hprev => by
    rw [primesLoop]
    by_cases hsize : growth j < limit
    · rw [if_pos hsize, nextPrime_eq hfuel (by have := three_le_growth j; omega) (by omega)]
      dsimp only
      rw [sizeT_eq (by omega), ← growth_succ]
      have hgrows : growth j < growth (j + 1) := growth_strictMono (Nat.lt_succ_self j)
      have hmono := NextPrime.nextPrime_mono hgrows.le
      -- the sizes from `j` on are `j` and the sizes after it
      have hsplit (p : Nat) : (∃ i ≥ j, growth i < limit ∧ p = NextPrime.nextPrime (growth i)) ↔
          p = NextPrime.nextPrime (growth j) ∨ ∃ i ≥ j + 1, growth i < limit ∧ p = NextPrime.nextPrime (growth i) := by
        constructor
        · rintro ⟨i, hi, h⟩
          rcases Nat.eq_or_lt_of_le hi with rfl | hi
          · exact .inl h.2
          · exact .inr ⟨i, hi, h⟩
        · rintro (rfl | ⟨i, hi, h⟩)
          · exact ⟨j, le_rfl, hsize, rfl⟩
          · exact ⟨i, Nat.le_of_succ_le hi, h⟩
      split
      · next heq =>
        obtain ⟨sizes, hloop, hsorted, hmem⟩ := primesLoop_eq hfuel hlimit (n := n) (by omega : limit - growth (j + 1) < k)
          (heq ▸ hmono)
        refine ⟨sizes, hloop, hsorted, fun p => (hmem p).trans (and_congr_right fun hp => ?_)⟩
        rw [hsplit, heq]
        exact (or_iff_right hp).symm
      · next hne =>
        have hlt : primePrev < NextPrime.nextPrime (growth j) := lt_of_le_of_ne hprev (Ne.symm hne)
        obtain ⟨sizes, hloop, hsorted, hmem⟩ := primesLoop_eq hfuel hlimit (n := n + 1)
          (by omega : limit - growth (j + 1) < k) hmono
        refine ⟨NextPrime.nextPrime (growth j) :: sizes, ?_, List.pairwise_cons.2 ⟨?_, hsorted⟩, fun p => ?_⟩
        · rw [hloop, List.length_cons, Nat.add_right_comm, ← Nat.add_assoc]
          rfl
        · intro p hp
          rcases List.mem_cons.1 hp with rfl | hp
          · exact hlt
          · exact hlt.trans (List.rel_of_pairwise_cons hsorted hp)
        · rw [List.mem_cons, hmem, hsplit]
          constructor
          · rintro (rfl | ⟨-, i, hi, hlim, rfl⟩)
            · exact ⟨hne, .inl rfl⟩
            · have hle := NextPrime.nextPrime_mono (growth_strictMono.monotone (Nat.le_of_succ_le hi))
              exact ⟨by omega, .inr ⟨i, hi, hlim, rfl⟩⟩
          · rintro ⟨-, h⟩
            by_cases hp : p = NextPrime.nextPrime (growth j)
            · exact .inl hp
            · exact .inr ⟨hp, h.resolve_left hp⟩
    · rw [if_neg hsize]
      refine ⟨[], rfl, List.pairwise_singleton _ _, fun p => iff_of_false List.not_mem_nil ?_⟩
      rintro ⟨-, i, hi, hlim, -⟩
      exact hsize ((growth_strictMono.monotone hi).trans_lt hlim)

/-! ## The sizes of the source -/

def Build.rounds : Build → Nat
  | .b64 => 114
  | .b32 => 75

def listedNext (b : Build) (size : Nat) : Nat := (b.tableSizes.find? fun p => decide (size ≤ p)).getD 0

/-- For each size that the generator starts from, nothing is prime up to a listed size, and each listed size is found so. -/
def Build.listed (b : Build) : Bool :=
  decide (b.limit ≤ growth b.rounds) && decide (growth (b.rounds - 1) < b.limit) &&
    ((List.range b.rounds).all fun k => b.tableSizes.elem (listedNext b (growth k)) &&
      decide (growth k ≤ listedNext b (growth k)) && NextPrime.compositeBelow (growth k) (listedNext b (growth k))) &&
    (b.tableSizes.all fun p => (List.range b.rounds).any fun k => decide (listedNext b (growth k) = p)) &&
    decide (b.tableSizes.Pairwise (· < ·))

theorem listed_b64 : Build.b64.listed = true := by decide +kernel

theorem listed_b32 : Build.b32.listed = true := by decide +kernel

theorem Build.listed_eq (b : Build) : b.listed = true := by
  cases b with
  | b64 => exact listed_b64
  | b32 => exact listed_b32

/-- **The listed sizes are what comes next** after the sizes that the generator starts from. -/
theorem mem_tableSizes (b : Build) (p : Nat) :
    p ∈ b.tableSizes ↔ ∃ k, growth k < b.limit ∧ p = NextPrime.nextPrime (growth k) := by
  have h := b.listed_eq
  simp only [Build.listed, Bool.and_eq_true, decide_eq_true_eq, List.all_eq_true, List.any_eq_true, List.mem_range,
    List.elem_eq_mem] at h
  obtain ⟨⟨⟨⟨hend, hlast⟩, hnext⟩, hfound⟩, -⟩ := h
  have hrounds (k : Nat) : growth k < b.limit ↔ k < b.rounds := by
    constructor
    · exact fun hk => Nat.lt_of_not_le fun hle => absurd (hk.trans_le hend) (Nat.not_lt.2 (growth_strictMono.monotone hle))
    · exact fun hk => (growth_strictMono.monotone (Nat.le_sub_one_of_lt hk)).trans_lt hlast
  have hlisted (k : Nat) (hk : k < b.rounds) : NextPrime.nextPrime (growth k) = listedNext b (growth k) := by
    obtain ⟨⟨hmem, hle⟩, hcomposite⟩ := hnext k hk
    exact NextPrime.nextPrime_of_compositeBelow hle (prime_of_mem_tableSizes hmem) hcomposite
  constructor
  · intro hp
    obtain ⟨k, hk, hkp⟩ := hfound p hp
    exact ⟨k, (hrounds k).2 hk, by rw [hlisted k hk, hkp]⟩
  · rintro ⟨k, hk, rfl⟩
    have hk := (hrounds k).1 hk
    rw [hlisted k hk]
    exact (hnext k hk).1.1

theorem tableSizes_ascending (b : Build) : b.tableSizes.Pairwise (· < ·) := by
  have h := b.listed_eq
  rw [Build.listed, Bool.and_eq_true] at h
  exact of_decide_eq_true h.2

/-- **The generator prints the sizes of the source.**  For every limit up to `2 ^ 62` it ends, and prints in ascending order, and
once each, the primes that come next after the sizes it starts from, and their number; and for the limit that `main` gives for a
build this is the list in `lws_table.c`. -/
theorem primes_generates_table_sizes {fuel limit : Nat} (hfuel : 2 ^ 63 ≤ fuel) (hlimit : limit ≤ 2 ^ 62) :
    ∃ sizes, primes fuel limit = some (sizes, sizes.length) ∧ sizes.Pairwise (· < ·) ∧
      (∀ p, p ∈ sizes ↔ ∃ k, growth k < limit ∧ p = NextPrime.nextPrime (growth k)) ∧
      ∀ b : Build, limit = b.limit → sizes = b.tableSizes := by
  obtain ⟨sizes, hprimes, hsorted, hmem⟩ := primesLoop_eq hfuel hlimit (j := 0) (n := 0) (by omega : limit - growth 0 < fuel)
    (Nat.zero_le _)
  rw [Nat.zero_add] at hprimes
  have hsizes (p : Nat) : p ∈ sizes ↔ ∃ k, growth k < limit ∧ p = NextPrime.nextPrime (growth k) := by
    refine (hmem p).trans ⟨fun ⟨_, k, _, h⟩ => ⟨k, h⟩, fun ⟨k, h⟩ => ⟨?_, k, Nat.zero_le k, h⟩⟩
    rw [h.2]
    exact (NextPrime.nextPrime_prime _).ne_zero
  refine ⟨sizes, hprimes, hsorted.of_cons, hsizes, fun b hb => ?_⟩
  refine List.Pairwise.eq_of_mem_iff hsorted.of_cons (tableSizes_ascending b) fun p => ?_
  rw [hsizes, mem_tableSizes, hb]

/-- The 32-bit list. -/
theorem primes_generates_table_sizes_b32 : primes (2 ^ 63) (2 ^ 32) = some (Build.b32.tableSizes, 73) := by
  obtain ⟨sizes, hprimes, -, -, hb⟩ := primes_generates_table_sizes (le_refl (2 ^ 63)) (by decide : 2 ^ 32 ≤ 2 ^ 62)
  rw [hprimes, hb .b32 rfl]
  rfl

end Lws

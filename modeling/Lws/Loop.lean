import Mathlib.Order.Basic
/-!
# Loop — loops that end

A round of a loop goes on in a new state or ends with a result.  `run` makes at most so many rounds and is none where the loop
has not ended by then.  A measure that every round lowers bounds the rounds (`run_ends`), and what every round keeps holds of the
result (`run_result`).
-/
namespace Loop

variable {σ ρ : Type}

def run (f : σ → σ ⊕ ρ) : Nat → σ → Option ρ
  | 0, _ => none
  | fuel + 1, s =>
    match f s with
    | .inl s => run f fuel s
    | .inr r => some r

variable {f : σ → σ ⊕ ρ}

theorem run_next {s s' : σ} (h : f s = .inl s') (fuel : Nat) : run f (fuel + 1) s = run f fuel s' := by
  rw [run, h]

theorem run_last {s : σ} {r : ρ} (h : f s = .inr r) (fuel : Nat) : run f (fuel + 1) s = some r := by
  rw [run, h]

theorem run_mono : ∀ {fuel fuel' : Nat} {s : σ} {r : ρ}, run f fuel s = some r → fuel ≤ fuel' → run f fuel' s = some r
  | 0, _, _, _, h, _ => (nomatch h)
  | fuel + 1, 0, _, _, _, hle => absurd hle (Nat.not_succ_le_zero fuel)
  | fuel + 1, fuel' + 1, s, r, h, hle => by
    cases hs : f s with
    | inl s' =>
      rw [run_next hs] at h ⊢
      exact run_mono h (Nat.le_of_succ_le_succ hle)
    | inr r' =>
      rw [run_last hs] at h ⊢
      exact h

theorem run_result {P : σ → Prop} {Q : ρ → Prop} (hkeep : ∀ s s', P s → f s = .inl s' → P s')
    (hend : ∀ s r, P s → f s = .inr r → Q r) : ∀ {fuel : Nat} {s : σ} {r : ρ}, P s → run f fuel s = some r → Q r
  | 0, _, _, _, h => (nomatch h)
  | fuel + 1, s, r, hs, h => by
    cases hround : f s with
    | inl s' =>
      rw [run_next hround] at h
      exact run_result hkeep hend (hkeep s s' hs hround) h
    | inr r' =>
      rw [run_last hround, Option.some.injEq] at h
      exact h ▸ hend s r' hs hround

/-- **A loop ends** within a m that every f lowers. -/
theorem run_ends {P : σ → Prop} {m : σ → Nat}
    (hlower : ∀ s s', P s → f s = .inl s' → P s' ∧ m s' < m s) :
    ∀ {fuel : Nat} {s : σ}, P s → m s < fuel → ∃ r, run f fuel s = some r
  | 0, _, _, h => absurd h (Nat.not_lt_zero _)
  | fuel + 1, s, hs, h => by
    cases hround : f s with
    | inl s' =>
      obtain ⟨hs', hlt⟩ := hlower s s' hs hround
      rw [run_next hround]
      exact run_ends hlower hs' (Nat.lt_of_lt_of_le hlt (Nat.le_of_lt_succ h))
    | inr r => exact ⟨r, run_last hround fuel⟩

end Loop

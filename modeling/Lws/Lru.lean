import Lws.OrdMap
/-!
# Lru — the reference cache

A bounded cache as a list, least recently used first, with the log of what happened to its keys.  `Coherent` says that the
list has at most `cap` items and that it holds exactly what the log says is current; every operation keeps it.
-/
namespace Lru

structure Item (K V : Type) where
  key : K
  value : V
  time : Int

inductive Event (K V : Type) where
  | stored (key : K) (value : V) (time : Int)
  | removed (key : K)
  | evicted (key : K)
  | cleared

structure State (K V : Type) where
  items : List (Item K V) := []
  log : List (Event K V) := []

variable {K I V : Type} [DecidableEq I] (fold : K → I)

def ident (p : Item K V) : I := fold p.key

def evict (cap : Nat) (s : State K V) : State K V :=
  if s.items.length = cap then
    match s.items with
    | p :: items => ⟨items, s.log ++ [.evicted p.key]⟩
    | [] => s
  else s

/-- An update keeps the first spelling of the key; updated and new items are the most recent ones. -/
def put (cap : Nat) (now : Int) (s : State K V) (k : K) (v : V) : State K V :=
  match Keyed.find (ident fold) (fold k) s.items with
  | some _ =>
    ⟨Keyed.toTail (ident fold) (fold k) (fun p => { p with value := v, time := now }) s.items, s.log ++ [.stored k v now]⟩
  | none => ⟨(evict cap s).items ++ [⟨k, v, now⟩], (evict cap s).log ++ [.stored k v now]⟩

def del (s : State K V) (k : K) : State K V := ⟨Keyed.erase (ident fold) (fold k) s.items, s.log ++ [.removed k]⟩

/-- A hit that has not expired makes the item the most recent one; nothing else does. -/
def get (timeout now : Int) (s : State K V) (k : K) : State K V × Option V :=
  match Keyed.find (ident fold) (fold k) s.items with
  | some p =>
    if p.time + timeout ≤ now then (s, none)
    else ({ s with items := Keyed.toTail (ident fold) (fold k) (fun p => p) s.items }, some p.value)
  | none => (s, none)

def clear (s : State K V) : State K V := ⟨[], s.log ++ [.cleared]⟩

/-- The value last stored for a key, and when, unless it has been removed, evicted or cleared since. -/
def current (log : List (Event K V)) (k : K) : Option (V × Int) :=
  log.foldl (fun last e => match e with
    | .stored k' v time => if fold k' = fold k then some (v, time) else last
    | .removed k' => if fold k' = fold k then none else last
    | .evicted k' => if fold k' = fold k then none else last
    | .cleared => none) none

def TimesIn (P : Int → Prop) (s : State K V) : Prop := ∀ k v time, .stored k v time ∈ s.log → P time

/-- **The list is within the cap and holds what the log says is current.** -/
structure Coherent (cap : Nat) (s : State K V) : Prop where
  distinct : Keyed.Distinct (ident fold) s.items
  le_cap : s.items.length ≤ cap
  logged : ∀ k v time, current fold s.log k = some (v, time) ↔
    ∃ p ∈ s.items, fold p.key = fold k ∧ p.value = v ∧ p.time = time

variable {fold} {cap : Nat} {s : State K V}

theorem coherent_empty : Coherent fold cap ({} : State K V) :=
  ⟨List.Pairwise.nil, Nat.zero_le _, fun k v time => by simp [current]⟩

theorem Coherent.perm {items : List (Item K V)} (h : Coherent fold cap s) (hp : items.Perm s.items) :
    Coherent fold cap { s with items := items } :=
  ⟨h.distinct.perm hp.symm (fun hne => Ne.symm hne), hp.length_eq ▸ h.le_cap, fun k v time => by
    rw [h.logged]
    exact ⟨fun ⟨p, hm, hk⟩ => ⟨p, hp.symm.subset hm, hk⟩, fun ⟨p, hm, hk⟩ => ⟨p, hp.subset hm, hk⟩⟩⟩

theorem perm_concat {α : Type} (l₁ l₂ : List α) (e : α) : (l₁ ++ l₂ ++ [e]).Perm (l₁ ++ e :: l₂) := by
  rw [List.append_assoc]
  exact (List.perm_append_singleton e l₂).append_left l₁

theorem Coherent.get (h : Coherent fold cap s) (timeout now : Int) (k : K) :
    Coherent fold cap (get fold timeout now s k).1 := by
  unfold Lru.get
  split
  · rename_i p hf
    obtain ⟨hk, l₁, l₂, hl⟩ := Keyed.find_split hf
    split
    · exact h
    · refine h.perm ?_
      have hd := h.distinct
      rw [hl] at hd ⊢
      rw [← hk, Keyed.toTail_hit hd]
      exact perm_concat l₁ l₂ p
  · exact h

theorem Coherent.drop {l₁ l₂ : List (Item K V)} {p : Item K V} {e : Event K V} (h : Coherent fold cap s)
    (hl : s.items = l₁ ++ p :: l₂)
    (he : ∀ k, current fold (s.log ++ [e]) k = if fold p.key = fold k then none else current fold s.log k) :
    Coherent fold cap ⟨l₁ ++ l₂, s.log ++ [e]⟩ := by
  have hd := h.distinct
  have hlen := h.le_cap
  have hlog := h.logged
  rw [hl] at hd hlen hlog
  refine ⟨hd.sublist ((List.sublist_cons_self p l₂).append_left l₁), ?_, fun k v time => ?_⟩
  · simp only [List.length_append, List.length_cons] at hlen ⊢
    omega
  · have hne : ∀ q ∈ l₁ ++ l₂, fold q.key ≠ fold p.key := fun q hq =>
      (List.mem_append.1 hq).elim (hd.left q) (hd.right q)
    have hmem (q : Item K V) : q ∈ l₁ ++ p :: l₂ ↔ q = p ∨ q ∈ l₁ ++ l₂ := by
      simp only [List.mem_append, List.mem_cons]
      tauto
    dsimp only
    rw [he]
    split
    · rename_i hpk
      simp only [reduceCtorEq, false_iff]
      rintro ⟨q, hq, hqk, -⟩
      exact hne q hq (hqk.trans hpk.symm)
    · rename_i hpk
      rw [hlog]
      constructor
      · rintro ⟨q, hq, hqk⟩
        rcases (hmem q).1 hq with rfl | hq
        · exact absurd hqk.1 hpk
        · exact ⟨q, hq, hqk⟩
      · rintro ⟨q, hq, hqk⟩
        exact ⟨q, (hmem q).2 (Or.inr hq), hqk⟩

theorem Coherent.store {k : K} {k' : K} {v : V} {now : Int} (h : Coherent fold cap s) (hlt : s.items.length < cap)
    (hk : ∀ p ∈ s.items, fold p.key ≠ fold k) (hkk : fold k' = fold k) :
    Coherent fold cap ⟨s.items ++ [⟨k', v, now⟩], s.log ++ [.stored k v now]⟩ := by
  refine ⟨h.distinct.concat fun p hp => by simpa [ident, hkk] using hk p hp,
    by simp only [List.length_append, List.length_singleton]; omega, fun j u time => ?_⟩
  dsimp only
  rw [current, List.foldl_append, ← current]
  simp only [List.foldl_cons, List.foldl_nil]
  split
  · rename_i hj
    constructor
    · intro he
      simp only [Option.some.injEq, Prod.mk.injEq] at he
      exact ⟨⟨k', v, now⟩, by simp, hkk.trans hj, he⟩
    · rintro ⟨p, hp, hpj, hpv⟩
      rcases List.mem_append.1 hp with hp | hp
      · exact absurd (hpj.trans hj.symm) (hk p hp)
      · rw [List.mem_singleton.1 hp] at hpv
        simp only [Option.some.injEq, Prod.mk.injEq]
        exact hpv
  · rename_i hj
    rw [h.logged]
    constructor
    · rintro ⟨p, hp, hpj⟩
      exact ⟨p, by simp [hp], hpj⟩
    · rintro ⟨p, hp, hpj⟩
      rcases List.mem_append.1 hp with hp | hp
      · exact ⟨p, hp, hpj⟩
      · rw [List.mem_singleton.1 hp] at hpj
        exact absurd (hkk.symm.trans hpj.1) hj

theorem Coherent.evict (h : Coherent fold cap s) (hcap : 0 < cap) :
    Coherent fold cap (evict cap s) ∧ (Lru.evict cap s).items.length < cap ∧ (Lru.evict cap s).items ⊆ s.items := by
  have hle := h.le_cap
  unfold Lru.evict
  split
  · rename_i hlen
    split
    · rename_i p items hitems
      rw [hitems, List.length_cons] at hle
      rw [← List.nil_append (p :: items)] at hitems
      refine ⟨h.drop hitems fun k => ?_, hle, by rw [hitems]; exact List.subset_cons_self p items⟩
      rw [current, List.foldl_append]
      rfl
    · rename_i hitems
      rw [hitems] at hlen
      exact absurd hlen.symm (Nat.ne_of_gt hcap)
  · rename_i hlen
    exact ⟨h, Nat.lt_of_le_of_ne hle hlen, List.Subset.refl _⟩

theorem Coherent.put (h : Coherent fold cap s) (hcap : 0 < cap) (now : Int) (k : K) (v : V) :
    Coherent fold cap (put fold cap now s k v) := by
  unfold Lru.put
  split
  · rename_i p hf
    obtain ⟨hk, l₁, l₂, hl⟩ := Keyed.find_split hf
    have hd := h.distinct
    have hlen := h.le_cap
    rw [hl] at hd hlen
    -- an update is a removal that the log does not show, and a new item
    have hgone : Coherent fold cap ⟨l₁ ++ l₂, s.log ++ [.removed k]⟩ := h.drop hl fun j => by
      rw [show fold p.key = fold k from hk, current, List.foldl_append]
      rfl
    have hnew : Coherent fold cap ⟨l₁ ++ l₂ ++ [⟨p.key, v, now⟩], s.log ++ [.removed k] ++ [.stored k v now]⟩ :=
      hgone.store (by simp only [List.length_append, List.length_cons] at hlen ⊢; omega)
        (fun q hq => by
          have := (List.mem_append.1 hq).elim (hd.left q) (hd.right q)
          rwa [hk] at this) hk
    rw [hl, ← hk, Keyed.toTail_hit hd]
    refine ⟨hnew.distinct, hnew.le_cap, fun j u time => ?_⟩
    rw [← hnew.logged]
    dsimp only
    simp only [current, List.foldl_append, List.foldl_cons, List.foldl_nil]
    by_cases hj : fold k = fold j <;> simp [hj]
  · rename_i hf
    obtain ⟨he, hlt, hsub⟩ := h.evict hcap
    exact he.store hlt (fun p hp => Keyed.find_none hf p (hsub hp)) rfl

theorem Coherent.del (h : Coherent fold cap s) (k : K) : Coherent fold cap (del fold s k) := by
  unfold Lru.del
  rcases Keyed.split_cases (ident fold) (fold k) s.items with ⟨p, l₁, l₂, hk, hl⟩ | hk
  · have hd := h.distinct
    rw [hl] at hd ⊢
    rw [← hk, Keyed.erase_hit hd]
    refine h.drop hl fun j => ?_
    rw [show fold p.key = fold k from hk, current, List.foldl_append]
    rfl
  · rw [Keyed.erase_miss hk]
    refine ⟨h.distinct, h.le_cap, fun j v time => ?_⟩
    dsimp only
    rw [← h.logged]
    simp only [current, List.foldl_append, List.foldl_cons, List.foldl_nil]
    split
    · rename_i hj
      rw [← current, iff_comm]
      simp only [reduceCtorEq, iff_false]
      intro hc
      obtain ⟨p, hp, hpj, -⟩ := (h.logged j v time).1 hc
      exact hk p hp (hpj.trans hj.symm)
    · rfl

theorem coherent_clear : Coherent fold cap (clear s) :=
  ⟨List.Pairwise.nil, Nat.zero_le _, fun k v time => by
    have hc : current fold (Lru.clear s).log k = none := by rw [current, Lru.clear, List.foldl_append]; rfl
    rw [hc]
    simp [Lru.clear]⟩

/-! ## The times of the log -/

theorem current_stored {log : List (Event K V)} {k : K} {v : V} {time : Int} (h : current fold log k = some (v, time)) :
    ∃ k', .stored k' v time ∈ log := by
  induction log using List.reverseRecOn with
  | nil => cases h
  | append_singleton log e ih =>
    rw [current, List.foldl_append, ← current, List.foldl_cons, List.foldl_nil] at h
    have hold (h : current fold log k = some (v, time)) : ∃ k', .stored k' v time ∈ log ++ [e] :=
      (ih h).imp fun k' hk' => List.mem_append_left _ hk'
    cases e with
    | stored k' v' time' =>
      dsimp only at h
      split at h
      · obtain ⟨rfl, rfl⟩ := Prod.mk.inj (Option.some.inj h)
        exact ⟨k', List.mem_append_right _ List.mem_cons_self⟩
      · exact hold h
    | removed k' =>
      dsimp only at h
      split at h
      · cases h
      · exact hold h
    | evicted k' =>
      dsimp only at h
      split at h
      · cases h
      · exact hold h
    | cleared => cases h

variable {P : Int → Prop}

theorem timesIn_empty : TimesIn P ({} : State K V) := fun _ _ _ h => absurd h List.not_mem_nil

theorem TimesIn.logged {s' : State K V} (h : TimesIn P s) {e : Event K V} (hlog : s'.log = s.log ++ [e])
    (he : ∀ k v time, e = .stored k v time → P time) : TimesIn P s' := by
  intro k v time hmem
  rw [hlog] at hmem
  rcases List.mem_append.1 hmem with hmem | hmem
  · exact h k v time hmem
  · exact he k v time (List.mem_singleton.1 hmem).symm

theorem TimesIn.evict (h : TimesIn P s) : TimesIn P (evict cap s) := by
  unfold Lru.evict
  split
  · split
    · exact h.logged rfl fun _ _ _ he => by cases he
    · exact h
  · exact h

theorem TimesIn.put (h : TimesIn P s) {now : Int} (hnow : P now) (k : K) (v : V) : TimesIn P (put fold cap now s k v) := by
  have hnew : ∀ k' v' time, Event.stored k v now = .stored k' v' time → P time := by
    rintro k' v' time he
    obtain ⟨-, -, rfl⟩ := Event.stored.inj he
    exact hnow
  unfold Lru.put
  split
  · exact h.logged rfl hnew
  · exact h.evict.logged rfl hnew

theorem TimesIn.get (h : TimesIn P s) (timeout now : Int) (k : K) : TimesIn P (get fold timeout now s k).1 := by
  unfold Lru.get
  split
  · split
    · exact h
    · exact h
  · exact h

/-- **A get returns the current value of the key, if it is younger than the timeout.** -/
theorem Coherent.get_eq (h : Coherent fold cap s) (timeout now : Int) (k : K) :
    (Lru.get fold timeout now s k).2 =
      ((current fold s.log k).filter (fun c => now - c.2 < timeout)).map Prod.fst := by
  unfold Lru.get
  split
  · rename_i p hf
    obtain ⟨hk, l₁, l₂, hl⟩ := Keyed.find_split hf
    have hc : current fold s.log k = some (p.value, p.time) :=
      (h.logged k _ _).2 ⟨p, by rw [hl]; simp, hk, rfl, rfl⟩
    rw [hc]
    split
    · rename_i hexp
      rw [Option.filter_some_neg (by simp; omega)]
      rfl
    · rename_i hexp
      rw [Option.filter_some_pos (by simp; omega)]
      rfl
  · rename_i hf
    have hc : current fold s.log k = none := by
      cases hc : current fold s.log k with
      | none => rfl
      | some c =>
        obtain ⟨p, hp, hpk, -⟩ := (h.logged k c.1 c.2).1 hc
        exact absurd hpk (Keyed.find_none hf p hp)
    rw [hc]
    rfl

end Lru

import Lws.TableInsert
/-!
# TableRep — what the parts of the interface do to the live entries, for any hash function

`HoldsBy hash t C` says that `t` keeps its representation invariant and that its live entries, in the order of the order list,
are `C`.  Each part of an operation has one lemma that gives the entries afterwards.
-/
namespace Lws

open Ring (IsRing Links)

variable {b : Build} {V : Type}

structure Options where
  timeout : Int
  cap : Nat
  dup : Bool
  free : Bool
  ci : Bool
  timed : Bool
  capped : Bool

def Table.options (t : Table b V) : Options := ⟨t.timeout, t.cap, t.dup, t.free, t.ci, t.timed, t.capped⟩

section
variable {t t' : Table b V} (h : t'.options = t.options)
include h

theorem options_ci : t'.ci = t.ci := congrArg Options.ci h
theorem options_timed : t'.timed = t.timed := congrArg Options.timed h
theorem options_capped : t'.capped = t.capped := congrArg Options.capped h
theorem options_timeout : t'.timeout = t.timeout := congrArg Options.timeout h
theorem options_cap : t'.cap = t.cap := congrArg Options.cap h
theorem options_dup : t'.dup = t.dup := congrArg Options.dup h

end

/-- **The table keeps its representation invariant and its live entries are `C`**, from the head of the order list to its
tail. -/
def HoldsBy (hash : Bool → Key → BitVec b.bits) (t : Table b V) (C : List (Entry b V)) : Prop :=
  ∃ L, TableRep hash t L ∧ L.map t.entries = C

variable {hash : Bool → Key → BitVec b.bits} {t : Table b V} {C : List (Entry b V)}

theorem HoldsBy.count (h : HoldsBy hash t C) : t.count = C.length := by
  obtain ⟨L, hL, rfl⟩ := h
  rw [hL.count_eq, List.length_map]

theorem HoldsBy.count_le (h : HoldsBy hash t C) : t.count ≤ t.load := by
  obtain ⟨L, hL, -⟩ := h
  exact hL.count_le

theorem HoldsBy.set (h : HoldsBy hash t C) : ∀ e ∈ C, e.state = .set := by
  obtain ⟨L, hL, rfl⟩ := h
  intro e he
  obtain ⟨i, hi, rfl⟩ := List.mem_map.1 he
  exact hL.set i hi

theorem HoldsBy.hashed (h : HoldsBy hash t C) : ∀ e ∈ C, e.hash = hash t.ci e.key := by
  obtain ⟨L, hL, rfl⟩ := h
  exact hL.hashed

theorem HoldsBy.distinct (h : HoldsBy hash t C) :
    C.Pairwise (fun e e' => foldKey t.ci e.key ≠ foldKey t.ci e'.key) := by
  obtain ⟨L, hL, rfl⟩ := h
  exact hL.distinct

theorem split_slots {f : Nat → Entry b V} {L : List Nat} {C₁ C₂ : List (Entry b V)} {e : Entry b V}
    (h : L.map f = C₁ ++ e :: C₂) : ∃ L₁ i L₂, L = L₁ ++ i :: L₂ ∧ L₁.map f = C₁ ∧ f i = e ∧ L₂.map f = C₂ := by
  obtain ⟨L₁, L', rfl, h1, h2⟩ := List.map_eq_append_iff.1 h
  obtain ⟨i, L₂, rfl, hi, h3⟩ := List.map_eq_cons_iff.1 h2
  exact ⟨L₁, i, L₂, rfl, h1, hi, h3⟩

/-! ## Find -/

theorem HoldsBy.find_some (h : HoldsBy hash t C) {key : Key} {i : Nat} (hf : tableFind t key (hash t.ci key) = some i) :
    ∃ C₁ C₂, C = C₁ ++ t.entries i :: C₂ := by
  obtain ⟨L, hL, rfl⟩ := h
  exact List.append_of_mem (List.mem_map_of_mem (hL.find_some hf))

theorem HoldsBy.find_none (hh : HashesKeys hash) (h : HoldsBy hash t C) {key : Key}
    (hf : tableFind t key (hash t.ci key) = none) : ∀ e ∈ C, foldKey t.ci e.key ≠ foldKey t.ci key := by
  obtain ⟨L, hL, rfl⟩ := h
  intro e he
  obtain ⟨i, hi, rfl⟩ := List.mem_map.1 he
  exact hL.find_none hh hf i hi

/-! ## Removal, recency and update -/

theorem tableRemove_rep {L₁ L₂ : List Nat} {i : Nat} (h : TableRep hash t (L₁ ++ i :: L₂)) :
    TableRep hash (tableRemove t i) (L₁ ++ L₂) ∧ (L₁ ++ L₂).map (tableRemove t i).entries = (L₁ ++ L₂).map t.entries := by
  have hi : i ∉ L₁ ++ L₂ := (List.nodup_cons.1 (List.perm_middle.nodup_iff.1 h.nodup)).1
  have hsub : List.Sublist (L₁ ++ L₂) (L₁ ++ i :: L₂) := List.Sublist.append_left (List.sublist_cons_self i L₂) L₁
  have hupd : ∀ j ∈ L₁ ++ L₂, (tableRemove t i).entries j = t.entries j := fun j hj =>
    Function.update_of_ne (show j ≠ i from fun he => hi (he ▸ hj)) _ _
  have hmap : (L₁ ++ L₂).map (tableRemove t i).entries = (L₁ ++ L₂).map t.entries := List.map_congr_left hupd
  have hmono (x : Nat) (hun : ((tableRemove t i).entries x).state = .unused) : (t.entries x).state = .unused := by
    simp only [tableRemove] at hun
    rcases eq_or_ne x i with rfl | hx
    · rw [Function.update_self] at hun; cases hun
    · rwa [Function.update_of_ne hx] at hun
  have hlen : (L₁ ++ i :: L₂).length = (L₁ ++ L₂).length + 1 := by simp; omega
  refine ⟨⟨⟨h.size, ?_, fun j hj => ?_, fun j hj => ?_⟩, h.load_eq, ?_, ?_, fun j hj => ?_, ?_, ?_⟩, hmap⟩
  · have hring := h.ring
    rw [List.map_append, List.map_cons] at hring
    rw [List.map_append]
    exact hring.remove
  · rw [hupd j hj]; exact h.set j (hsub.subset hj)
  · rw [hupd j hj]; exact (h.reach j (hsub.subset hj)).mono rfl hmono
  · have := h.count_eq
    simp only [tableRemove]
    omega
  · have := h.count_le
    simp only [tableRemove]
    omega
  · simp only [tableRemove] at hj
    rcases eq_or_ne j i with rfl | hne
    · rw [Function.update_self] at hj; cases hj
    · rw [Function.update_of_ne hne] at hj
      have := h.only j hj
      simp only [List.mem_append, List.mem_cons] at this ⊢
      tauto
  · rw [hmap]; exact fun e he => h.hashed e ((hsub.map t.entries).subset he)
  · rw [hmap]; exact h.distinct.sublist (hsub.map t.entries)

theorem HoldsBy.slots {C₁ C₂ : List (Entry b V)} {i : Nat} (h : HoldsBy hash t (C₁ ++ t.entries i :: C₂)) :
    ∃ L₁ L₂, TableRep hash t (L₁ ++ i :: L₂) ∧ L₁.map t.entries = C₁ ∧ L₂.map t.entries = C₂ := by
  have hset : (t.entries i).state = .set := h.set _ (by simp)
  obtain ⟨L, hL, hC⟩ := h
  obtain ⟨L₁, j, L₂, rfl, rfl, hj, rfl⟩ := split_slots hC
  have hji : j = i := by
    have hd := hL.distinct
    rw [List.map_append, List.map_cons, List.pairwise_append, List.pairwise_cons] at hd
    rcases List.mem_append.1 (hL.only i hset) with hm | hm
    · exact absurd (by rw [hj]) (hd.2.2 _ (List.mem_map_of_mem hm) _ List.mem_cons_self)
    · rcases List.mem_cons.1 hm with rfl | hm
      · rfl
      · exact absurd (by rw [hj]) (hd.2.1.1 _ (List.mem_map_of_mem hm))
  subst hji
  exact ⟨L₁, L₂, hL, rfl, rfl⟩

theorem HoldsBy.remove {C₁ C₂ : List (Entry b V)} {i : Nat} (h : HoldsBy hash t (C₁ ++ t.entries i :: C₂)) :
    HoldsBy hash (tableRemove t i) (C₁ ++ C₂) := by
  obtain ⟨L₁, L₂, hL, rfl, rfl⟩ := h.slots
  obtain ⟨hinv, hmap⟩ := tableRemove_rep hL
  exact ⟨L₁ ++ L₂, hinv, by rw [hmap, List.map_append]⟩

def Table.touch (t : Table b V) (i : Nat) : Table b V :=
  { t with order := (t.order.remove (some i)).insertTail none (some i) }

theorem HoldsBy.touch {C₁ C₂ : List (Entry b V)} {i : Nat} (h : HoldsBy hash t (C₁ ++ t.entries i :: C₂)) :
    HoldsBy hash (t.touch i) (C₁ ++ C₂ ++ [t.entries i]) := by
  obtain ⟨L₁, L₂, hL, rfl, rfl⟩ := h.slots
  have hring := hL.ring
  rw [List.map_append, List.map_cons] at hring
  have hi : some i ∉ none :: (L₁.map some ++ L₂.map some) := hring.split.2.2.2.2.2
  have hperm : (L₁ ++ L₂ ++ [i]).Perm (L₁ ++ i :: L₂) := by
    rw [List.append_assoc]
    exact (List.perm_append_singleton i L₂).append_left L₁
  refine ⟨L₁ ++ L₂ ++ [i], ⟨⟨hL.size, ?_, fun j hj => hL.set j (hperm.subset hj), fun j hj => ?_⟩, hL.load_eq, ?_,
    hL.count_le, fun j hj => hperm.symm.subset (hL.only j hj), fun e he => ?_, ?_⟩, by simp [Table.touch]⟩
  · rw [List.map_append, List.map_append, List.map_singleton]
    exact hring.remove.insertTail hi
  · exact (hL.reach j (hperm.subset hj)).mono rfl (fun _ hun => hun)
  · exact hL.count_eq.trans hperm.symm.length_eq
  · exact hL.hashed e ((hperm.map t.entries).subset he)
  · exact hL.distinct.perm (hperm.map t.entries).symm (fun h => Ne.symm h)

/-- Rewriting an entry in its slot, under the same key and hash. -/
def Table.put (t : Table b V) (i : Nat) (e : Entry b V) : Table b V :=
  { t with entries := Function.update t.entries i e }

theorem HoldsBy.put {C₁ C₂ : List (Entry b V)} {i : Nat} (h : HoldsBy hash t (C₁ ++ t.entries i :: C₂)) {e : Entry b V}
    (hset : e.state = .set) (hhash : e.hash = (t.entries i).hash) (hkey : e.key = (t.entries i).key) :
    HoldsBy hash (t.put i e) (C₁ ++ e :: C₂) := by
  have hold : (t.entries i).state = .set := h.set _ (by simp)
  obtain ⟨L₁, L₂, hL, rfl, rfl⟩ := h.slots
  have hi : i ∉ L₁ ++ L₂ := (List.nodup_cons.1 (List.perm_middle.nodup_iff.1 hL.nodup)).1
  have hupd : ∀ j ∈ L₁ ++ L₂, Function.update t.entries i e j = t.entries j := fun j hj =>
    Function.update_of_ne (show j ≠ i from fun he => hi (he ▸ hj)) _ _
  have hmap : (L₁ ++ i :: L₂).map (t.put i e).entries = L₁.map t.entries ++ e :: L₂.map t.entries := by
    simp only [Table.put, List.map_append, List.map_cons, Function.update_self]
    rw [List.map_congr_left fun j hj => hupd j (List.mem_append_left _ hj),
      List.map_congr_left fun j hj => hupd j (List.mem_append_right _ hj)]
  have hsame (j : Nat) : ((t.put i e).entries j).state = (t.entries j).state ∧
      ((t.put i e).entries j).hash = (t.entries j).hash := by
    simp only [Table.put]
    rcases eq_or_ne j i with rfl | hne
    · rw [Function.update_self, hset, hold, hhash]
      exact ⟨rfl, rfl⟩
    · rw [Function.update_of_ne hne]
      exact ⟨rfl, rfl⟩
  refine ⟨L₁ ++ i :: L₂, ⟨⟨hL.size, hL.ring, fun j hj => ?_, fun j hj => ?_⟩, hL.load_eq, hL.count_eq, hL.count_le,
    fun j hj => ?_, ?_, ?_⟩, hmap⟩
  · rw [(hsame j).1]; exact hL.set j hj
  · rw [(hsame j).2]
    exact (hL.reach j hj).mono rfl (fun x hun => by rwa [(hsame x).1] at hun)
  · rw [(hsame j).1] at hj; exact hL.only j hj
  · rw [hmap]
    intro e' he'
    rcases List.mem_append.1 he' with hm | hm
    · exact hL.hashed e' (by simp [hm])
    · rcases List.mem_cons.1 hm with rfl | hm
      · rw [hhash, hkey]
        exact hL.hashed _ (by simp)
      · exact hL.hashed e' (by simp [hm])
  · rw [hmap]
    have hd := hL.distinct
    rw [List.map_append, List.map_cons, List.pairwise_append, List.pairwise_cons] at hd
    rw [List.pairwise_append, List.pairwise_cons]
    refine ⟨hd.1, ⟨fun e' he' => by rw [hkey]; exact hd.2.1.1 e' he', hd.2.1.2⟩, fun e' he' e'' he'' => ?_⟩
    rcases List.mem_cons.1 he'' with rfl | hm
    · rw [hkey]; exact hd.2.2 e' he' _ List.mem_cons_self
    · exact hd.2.2 e' he' _ (List.mem_cons_of_mem _ hm)

/-! ## The ends of the order list -/

theorem HoldsBy.head_nil (h : HoldsBy hash t []) : t.order.next none = none := by
  obtain ⟨L, hL, hC⟩ := h
  obtain rfl := List.map_eq_nil_iff.1 hC
  simpa using hL.ring.next_first.symm

theorem HoldsBy.head_cons {e : Entry b V} (h : HoldsBy hash t (e :: C)) :
    ∃ i, t.order.next none = some i ∧ t.entries i = e := by
  obtain ⟨L, hL, hC⟩ := h
  obtain ⟨i, L, rfl, hi, -⟩ := List.map_eq_cons_iff.1 hC
  exact ⟨i, by simpa using hL.ring.next_first.symm, hi⟩

theorem HoldsBy.last_nil (h : HoldsBy hash t []) : t.order.prev none = none := by
  obtain ⟨L, hL, hC⟩ := h
  obtain rfl := List.map_eq_nil_iff.1 hC
  simpa using hL.ring.prev_last.symm

theorem HoldsBy.last_concat {e : Entry b V} (h : HoldsBy hash t (C ++ [e])) :
    ∃ i, t.order.prev none = some i ∧ t.entries i = e := by
  obtain ⟨L, hL, hC⟩ := h
  obtain ⟨L₁, i, L₂, rfl, -, hi, hL₂⟩ := split_slots hC
  obtain rfl := List.map_eq_nil_iff.1 hL₂
  refine ⟨i, ?_, hi⟩
  have := hL.ring.prev_last
  rw [List.map_append, List.map_singleton, ← List.cons_append, List.getLast?_append] at this
  simpa using this.symm

theorem HoldsBy.next_of {C₁ C₂ : List (Entry b V)} {i : Nat} (h : HoldsBy hash t (C₁ ++ t.entries i :: C₂)) :
    (t.order.next (some i)).map t.entries = C₂.head? := by
  obtain ⟨L₁, L₂, hL, rfl, rfl⟩ := h.slots
  have hring := hL.ring
  rw [List.map_append, List.map_cons] at hring
  have := hring.split.2.2.2.1
  cases L₂ with
  | nil =>
    have : t.order.next (some i) = none := by simpa using this.symm
    rw [this]; rfl
  | cons j L₂ =>
    have : t.order.next (some i) = some j := by simpa using this.symm
    rw [this]; rfl

/-! ## Eviction -/

def Table.evicted (t : Table b V) (C : List (Entry b V)) : List (Entry b V) :=
  if t.capped && C.length = t.cap then C.tail else C

theorem HoldsBy.evict (h : HoldsBy hash t C) :
    HoldsBy hash (tableEvict t) (t.evicted C) ∧ (tableEvict t).options = t.options := by
  unfold tableEvict Table.evicted
  rw [← h.count]
  split
  · cases C with
    | nil =>
      rw [h.head_nil]
      exact ⟨h, rfl⟩
    | cons e C =>
      obtain ⟨i, hi, rfl⟩ := h.head_cons
      rw [hi]
      rw [← List.nil_append (t.entries i :: C)] at h
      exact ⟨h.remove, rfl⟩
  · exact ⟨h, rfl⟩

theorem Table.evicted_sublist (t : Table b V) (C : List (Entry b V)) : (t.evicted C).Sublist C := by
  unfold Table.evicted
  split
  · exact List.tail_sublist C
  · exact List.Sublist.refl C

end Lws

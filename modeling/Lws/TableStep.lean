import Lws.TableGrow
/-!
# TableStep — the live entries of a table whose keys have no inner zero bytes

`Holds seed t C` is `HoldsBy` for the hash of the source, with what `lws_table_find` needs to tell any two keys apart: stored
keys have no zero byte, except possibly the last.  On such a table a search finds the live entry with an equal key.
-/
namespace Lws

variable {b : Build} {V : Type}

/-- **The table keeps its invariant and its live entries are `C`, from the head of the order list to its tail.** -/
def Holds (seed : BitVec b.bits) (t : Table b V) (C : List (Entry b V)) : Prop :=
  ∃ L, TableInv seed t L ∧ L.map t.entries = C

variable {seed : BitVec b.bits} {t : Table b V} {C : List (Entry b V)}

def Entry.Plain (e : Entry b V) : Prop := Terminated e.key ∧ e.value.isSome = true

theorem holds_iff : Holds seed t C ↔ HoldsBy (tableHash seed) t C ∧ ∀ e ∈ C, e.Plain := by
  constructor
  · rintro ⟨L, h, rfl⟩
    exact ⟨⟨L, h.rep, rfl⟩, fun e he => ⟨(h.stored e he).key, (h.stored e he).value⟩⟩
  · rintro ⟨⟨L, h, rfl⟩, hp⟩
    refine ⟨L, ⟨h.toLayout, h.load_eq, h.count_eq, h.count_le, h.only, fun e he => ?_, h.distinct⟩, rfl⟩
    obtain ⟨i, hi, rfl⟩ := List.mem_map.1 he
    exact ⟨h.set i hi, h.hashed _ he, (hp _ he).1, (hp _ he).2⟩

theorem Holds.by (h : Holds seed t C) : HoldsBy (tableHash seed) t C := (holds_iff.1 h).1

theorem Holds.plain (h : Holds seed t C) : ∀ e ∈ C, e.Plain := (holds_iff.1 h).2

theorem Holds.of (h : HoldsBy (tableHash seed) t C) (hp : ∀ e ∈ C, e.Plain) : Holds seed t C := holds_iff.2 ⟨h, hp⟩

theorem Holds.count (h : Holds seed t C) : t.count = C.length := h.by.count

theorem Holds.distinct (h : Holds seed t C) :
    C.Pairwise (fun e e' => foldKey t.ci e.key ≠ foldKey t.ci e'.key) := h.by.distinct

/-! ## Find -/

theorem Holds.find_some (h : Holds seed t C) {key : Key} {i : Nat}
    (hf : tableFind t key (tableHash seed t.ci key) = some i) :
    ∃ C₁ C₂, C = C₁ ++ t.entries i :: C₂ ∧ foldKey t.ci (t.entries i).key = foldKey t.ci key := by
  obtain ⟨L, hL, rfl⟩ := h
  rw [tableFind_eq hL] at hf
  obtain ⟨hsame, L₁, L₂, rfl, -⟩ := List.find?_eq_some_iff_append.1 hf
  exact ⟨L₁.map t.entries, L₂.map t.entries, by rw [List.map_append, List.map_cons], by simpa using hsame⟩

theorem Holds.find_key {C₁ C₂ : List (Entry b V)} {e : Entry b V} (h : Holds seed t (C₁ ++ e :: C₂)) {key : Key}
    (hk : foldKey t.ci e.key = foldKey t.ci key) :
    ∃ i, tableFind t key (tableHash seed t.ci key) = some i ∧ t.entries i = e := by
  obtain ⟨L, hL, hC⟩ := h
  obtain ⟨L₁, i, L₂, rfl, -, rfl, -⟩ := split_slots hC
  refine ⟨i, ?_, rfl⟩
  rw [tableFind_eq hL, List.find?_eq_some_iff_append]
  refine ⟨by simpa using hk, L₁, L₂, rfl, fun j hj => ?_⟩
  have hd := hL.distinct
  rw [List.map_append, List.map_cons, List.pairwise_append] at hd
  have := hd.2.2 _ (List.mem_map_of_mem hj) _ List.mem_cons_self
  rw [hk] at this
  simpa using this

theorem Holds.find_miss (h : Holds seed t C) {key : Key} (hk : ∀ e ∈ C, foldKey t.ci e.key ≠ foldKey t.ci key) :
    tableFind t key (tableHash seed t.ci key) = none := by
  cases hf : tableFind t key (tableHash seed t.ci key) with
  | none => rfl
  | some i =>
    obtain ⟨C₁, C₂, rfl, hik⟩ := h.find_some hf
    exact absurd hik (hk _ (by simp))

/-! ## The parts of the interface -/

theorem Holds.remove {C₁ C₂ : List (Entry b V)} {i : Nat} (h : Holds seed t (C₁ ++ t.entries i :: C₂)) :
    Holds seed (tableRemove t i) (C₁ ++ C₂) :=
  .of h.by.remove fun e he => h.plain e ((List.Sublist.append_left (List.sublist_cons_self _ C₂) C₁).subset he)

theorem Holds.touch {C₁ C₂ : List (Entry b V)} {i : Nat} (h : Holds seed t (C₁ ++ t.entries i :: C₂)) :
    Holds seed (t.touch i) (C₁ ++ C₂ ++ [t.entries i]) := by
  refine .of h.by.touch fun e he => h.plain e ?_
  simp only [List.mem_append, List.mem_cons] at he ⊢
  tauto

theorem Holds.of_empty {t' : Table b V} (h : Holds seed t []) (ha : t'.alloc = t.alloc) (hl : t'.load = t.load)
    (hc : t'.count = t.count) (he : t'.entries = t.entries) (ho : t'.order = t.order) : Holds seed t' [] :=
  .of (h.by.of_empty ha hl hc he ho) (by simp)

/-- **`lws_table_clear` removes every entry**, and keeps the options and the allocation. -/
theorem Holds.clear (h : Holds seed t C) : Holds seed (tableClear t) [] ∧ (tableClear t).options = t.options :=
  ⟨.of h.by.clear.1 (by simp), h.by.clear.2⟩

/-- **A new table is empty** and has no option set. -/
theorem tableCreate_holds (seed : BitVec b.bits) {load : Nat} {c₁ c₂ : Bool} {t : Table b V}
    (h : tableCreate b V load c₁ c₂ = some t) :
    Holds seed t [] ∧ t.options = ⟨0, 0, false, false, false, false, false⟩ :=
  ⟨.of (tableCreate_holdsBy (tableHash seed) h).1 (by simp), (tableCreate_holdsBy (tableHash seed) h).2⟩

/-! ## `lws_table_next` -/

theorem Holds.next_start (h : Holds seed t C) :
    tableNext seed t none = C.head?.map (fun e => (e.key, e.value)) := by
  cases C with
  | nil => simp only [tableNext]; rw [h.by.head_nil]; rfl
  | cons e C =>
    obtain ⟨i, hi, rfl⟩ := h.by.head_cons
    simp only [tableNext]; rw [hi]; rfl

/-- **`lws_table_next` from a live key** returns the entry after it. -/
theorem Holds.next_key {C₁ C₂ : List (Entry b V)} {e : Entry b V} (h : Holds seed t (C₁ ++ e :: C₂)) {key : Key}
    (hk : foldKey t.ci e.key = foldKey t.ci key) :
    tableNext seed t (some key) = C₂.head?.map (fun e => (e.key, e.value)) := by
  obtain ⟨i, hf, rfl⟩ := h.find_key hk
  have hn := h.by.next_of
  simp only [tableNext, hf, Option.map_some]
  rw [← hn, Option.map_map]
  cases t.order.next (some i) <;> rfl

theorem Holds.next_miss (h : Holds seed t C) {key : Key} (hk : ∀ e ∈ C, foldKey t.ci e.key ≠ foldKey t.ci key) :
    tableNext seed t (some key) = none := by
  simp only [tableNext, h.find_miss hk, Option.map_none]

end Lws

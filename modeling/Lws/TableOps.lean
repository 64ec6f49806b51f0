import Lws.OrdMap
import Lws.TableCalls
import Lws.TableStep
/-!
# TableOps — `lws_table_get` and `lws_table_set` on the live entries

One lemma for each branch of the two functions, whatever the options: which entry moves, which one is evicted, what the new
entry is, and when `lws_table_set` fails.
-/
namespace Lws

variable {b : Build} {V : Type} {seed : BitVec b.bits} {t : Table b V} {C C₁ C₂ : List (Entry b V)} {e : Entry b V} {key : Key}

/-! ## `lws_table_get` -/

def Table.fresh (t : Table b V) (now : Int) (e : Entry b V) : Bool := !(t.timed && decide (b.timeT (e.time + t.timeout) ≤ now))

theorem Holds.get_miss (h : Holds seed t C) (hk : ∀ e ∈ C, foldKey t.ci e.key ≠ foldKey t.ci key) (now : Int) :
    tableGet seed t key now = (t, none) := by
  simp only [tableGet, h.find_miss hk]

/-- **A get of an expired entry** returns NULL and leaves the entry where it is. -/
theorem Holds.get_expired (h : Holds seed t (C₁ ++ e :: C₂)) (hk : foldKey t.ci e.key = foldKey t.ci key) {now : Int}
    (hf : t.fresh now e = false) : tableGet seed t key now = (t, none) := by
  obtain ⟨i, hfind, rfl⟩ := h.find_key hk
  have hexp : (t.timed && decide (b.timeT ((t.entries i).time + t.timeout) ≤ now)) = true := by simpa [Table.fresh] using hf
  simp only [tableGet, hfind]
  rw [if_pos hexp]

/-- **A get that hits** returns the value, and makes the entry the most recent one of a capped table. -/
theorem Holds.get_hit (h : Holds seed t (C₁ ++ e :: C₂)) (hk : foldKey t.ci e.key = foldKey t.ci key) {now : Int}
    (hf : t.fresh now e = true) : ∃ t', tableGet seed t key now = (t', e.value) ∧ t'.options = t.options ∧
      Holds seed t' (if t.capped then C₁ ++ C₂ ++ [e] else C₁ ++ e :: C₂) := by
  obtain ⟨i, hfind, rfl⟩ := h.find_key hk
  have hexp : (t.timed && decide (b.timeT ((t.entries i).time + t.timeout) ≤ now)) = false := by
    simpa only [Table.fresh, Bool.not_eq_true'] using hf
  simp only [tableGet, hfind]
  rw [if_neg (by rw [hexp]; simp)]
  by_cases hc : t.capped = true
  · rw [if_pos hc, if_pos hc]
    exact ⟨t.touch i, rfl, rfl, h.touch⟩
  · rw [if_neg hc, if_neg hc]
    exact ⟨t, rfl, rfl, h⟩

/-! ## `lws_table_set` -/

/-- **A set of a live key** rewrites its entry, and makes it the most recent one of a capped table. -/
theorem Holds.set_update (h : Holds seed t (C₁ ++ e :: C₂)) (hk : foldKey t.ci e.key = foldKey t.ci key) (value : V)
    (now : Int) (mem : SetAlloc) : ∃ t', tableSet seed t key (some value) now mem = (t', 0) ∧ t'.options = t.options ∧
      Holds seed t' (if t.capped then C₁ ++ C₂ ++ [t.updated value now e] else C₁ ++ t.updated value now e :: C₂) := by
  obtain ⟨i, hfind, rfl⟩ := h.find_key hk
  have hplain : (t.updated value now (t.entries i)).Plain := ⟨(h.plain (t.entries i) (by simp)).1, rfl⟩
  obtain ⟨ho, hby⟩ := h.by.update value now
  refine ⟨tableUpdate t i value now, by simp only [tableSet, hfind], ho, .of hby fun e he => ?_⟩
  have hmem : e = t.updated value now (t.entries i) ∨ e ∈ C₁ ++ t.entries i :: C₂ := by
    split at he
    all_goals
      simp only [List.mem_append, List.mem_cons, List.not_mem_nil, or_false] at he ⊢
      tauto
  rcases hmem with rfl | hm
  · exact hplain
  · exact h.plain e hm

/-- **A set of a new key** evicts the head of a full table and appends the new entry, or fails for want of memory. -/
theorem Holds.set_new (h : Holds seed t C) (hk : ∀ e ∈ C, foldKey t.ci e.key ≠ foldKey t.ci key) (hkey : Terminated key)
    (value : V) (now : Int) (mem : SetAlloc) :
    ∃ t' rc, tableSet seed t key (some value) now mem = (t', rc) ∧ t'.options = t.options ∧
      ((rc = 0 ∧ ∃ e, Holds seed t' (t.evicted C ++ [newEntry t.timed e key value (tableHash seed t.ci key) now])) ∨
       (rc = -1 ∧ Holds seed t' (t.evicted C) ∧
         (mem.rehash = false ∨ mem.dup = false ∨ maxLoad b ≤ (t.evicted C).length))) := by
  obtain ⟨t', rc, hset, ho, hcase⟩ := h.by.set_new (h.find_miss hk) hk value now mem
  have hplain : ∀ e ∈ t.evicted C, e.Plain := fun e he => h.plain e ((t.evicted_sublist C).subset he)
  rw [← tableSet_eq] at hset
  refine ⟨t', rc, hset, ho, ?_⟩
  rcases hcase with ⟨hrc, e, hF⟩ | ⟨hrc, hF, hwhy⟩
  · refine .inl ⟨hrc, e, .of hF fun e' he' => ?_⟩
    rcases List.mem_append.1 he' with hm | hm
    · exact hplain e' hm
    · rw [List.mem_singleton.1 hm]
      exact ⟨hkey, rfl⟩
  · refine .inr ⟨hrc, .of hF hplain, ?_⟩
    tauto

theorem Holds.set_remove (h : Holds seed t (C₁ ++ e :: C₂)) (hk : foldKey t.ci e.key = foldKey t.ci key) (now : Int)
    (mem : SetAlloc) : ∃ t', tableSet seed t key none now mem = (t', 0) ∧ t'.options = t.options ∧
      Holds seed t' (C₁ ++ C₂) := by
  obtain ⟨i, hfind, rfl⟩ := h.find_key hk
  simp only [tableSet, hfind]
  exact ⟨tableRemove t i, rfl, rfl, h.remove⟩

theorem Holds.set_absent (h : Holds seed t C) (hk : ∀ e ∈ C, foldKey t.ci e.key ≠ foldKey t.ci key) (now : Int)
    (mem : SetAlloc) : tableSet seed t key none now mem = (t, 0) := by
  simp only [tableSet, h.find_miss hk]

end Lws

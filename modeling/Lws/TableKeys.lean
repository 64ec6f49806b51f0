import Mathlib.Data.Fintype.BigOperators
import Mathlib.Data.Fintype.Pigeonhole
import Lws.TableReach
/-!
# TableKeys — which keys are taken for one another (`lws_table_find`)

The hash is of all bytes of a key, and the lengths are compared, but `ngx_strncmp` and `ngx_strncasecmp` end at a zero byte.  Keys
with a zero byte that differ only after it are told apart by their hashes alone, and for every seed some have the same.
-/
namespace Lws

variable {b : Build} {V : Type}

/-! ## The test of `lws_table_find` -/

/-- Keys that `lws_table_find` does not tell apart: of one hash and one length, and one C string. -/
def Alike (hash : Bool → Key → BitVec b.bits) (ci : Bool) (key key' : Key) : Prop :=
  hash ci key = hash ci key' ∧ key.length = key'.length ∧ cString (foldKey ci key) = cString (foldKey ci key')

/-- Different keys that `lws_table_find` does not tell apart. -/
def Confused (hash : Bool → Key → BitVec b.bits) (ci : Bool) (key key' : Key) : Prop :=
  foldKey ci key ≠ foldKey ci key' ∧ Alike hash ci key key'

instance (hash : Bool → Key → BitVec b.bits) (ci : Bool) (key key' : Key) : Decidable (Alike hash ci key key') :=
  inferInstanceAs (Decidable (_ ∧ _))

instance (hash : Bool → Key → BitVec b.bits) (ci : Bool) (key key' : Key) : Decidable (Confused hash ci key key') :=
  inferInstanceAs (Decidable (_ ∧ _))

variable {hash : Bool → Key → BitVec b.bits} {t : Table b V} {C : List (Entry b V)} {key : Key}

theorem Alike.symm {ci : Bool} {key key' : Key} (h : Alike hash ci key key') : Alike hash ci key' key :=
  ⟨h.1.symm, h.2.1.symm, h.2.2.symm⟩

theorem Alike.trans {ci : Bool} {key key' key'' : Key} (h : Alike hash ci key key') (h' : Alike hash ci key' key'') :
    Alike hash ci key key'' :=
  ⟨h.1.trans h'.1, h.2.1.trans h'.2.1, h.2.2.trans h'.2.2⟩

theorem Table.matches_alike {e : Entry b V} (hset : e.state = .set) (hhash : e.hash = hash t.ci e.key) (key : Key) :
    t.matches e key (hash t.ci key) = true ↔ Alike hash t.ci e.key key := by
  rw [Table.matches_cString hset, hhash, Alike]

theorem HoldsBy.find_alike (h : HoldsBy hash t C) {i : Nat} (hfind : tableFind t key (hash t.ci key) = some i) :
    Alike hash t.ci (t.entries i).key key := by
  have hmatches := findLoop_some _ _ hfind
  obtain ⟨C₁, C₂, rfl⟩ := h.find_some hfind
  have hmem : t.entries i ∈ C₁ ++ t.entries i :: C₂ := List.mem_append_right _ List.mem_cons_self
  exact (Table.matches_alike (Table.matches_set hmatches) (h.hashed _ hmem) key).1 hmatches

theorem HoldsBy.find_none_alike (h : HoldsBy hash t C) (hfind : tableFind t key (hash t.ci key) = none) {e : Entry b V}
    (he : e ∈ C) : ¬Alike hash t.ci e.key key := by
  intro halike
  have hset := h.set e he
  have hhash := h.hashed e he
  obtain ⟨L, hL, rfl⟩ := h
  obtain ⟨i, hi, rfl⟩ := List.mem_map.1 he
  have hno := hL.find_none_matches hfind hi (hhash.trans halike.1)
  rw [(Table.matches_alike hset hhash key).2 halike] at hno
  cases hno

/-! ## The live entries are told apart -/

/-- No two of the entries have keys that `lws_table_find` does not tell apart. -/
def Apart (hash : Bool → Key → BitVec b.bits) (ci : Bool) (C : List (Entry b V)) : Prop :=
  (C.map Entry.key).Pairwise fun key key' => ¬Alike hash ci key key'

theorem Apart.sublist {ci : Bool} {C' : List (Entry b V)} (h : Apart hash ci C) (hsub : C'.Sublist C) : Apart hash ci C' :=
  List.Pairwise.sublist (hsub.map Entry.key) h

theorem Apart.perm {ci : Bool} {C' : List (Entry b V)} (h : Apart hash ci C)
    (hperm : (C.map Entry.key).Perm (C'.map Entry.key)) : Apart hash ci C' :=
  List.Pairwise.perm h hperm fun hno hyes => hno hyes.symm

theorem Apart.concat {ci : Bool} {e : Entry b V} (h : Apart hash ci C) (he : ∀ e' ∈ C, ¬Alike hash ci e'.key e.key) :
    Apart hash ci (C ++ [e]) := by
  unfold Apart
  rw [List.map_append, List.pairwise_append]
  refine ⟨h, List.pairwise_singleton _ _, fun key hkey key' hkey' => ?_⟩
  obtain ⟨e', he', rfl⟩ := List.mem_map.1 hkey
  obtain rfl := List.mem_singleton.1 hkey'
  exact he e' he'

theorem Apart.set (hC : HoldsBy hash t C) (h : Apart hash t.ci C) {now : Int} {value : Option V} {rc : Int}
    {C' : List (Entry b V)} (hset : t.SetsTo hash C key now value rc C') : Apart hash t.ci C' := by
  have hevicted := t.evicted_sublist C
  cases hset with
  | @update i C₁ C₂ value hfind heq =>
    subst heq
    refine h.perm ?_
    rw [List.map_append, List.map_cons]
    split
    · rw [List.map_append, List.map_append, List.append_assoc]
      exact (List.perm_append_singleton (t.entries i).key (C₂.map Entry.key)).symm.append_left _
    · rw [List.map_append, List.map_cons]
      exact List.Perm.refl _
  | @remove i C₁ C₂ hfind heq =>
    subst heq
    exact h.sublist (List.Sublist.append_left (List.sublist_cons_self _ _) _)
  | miss hfind => exact h
  | insert e value hfind =>
    exact (h.sublist hevicted).concat fun e' he' => hC.find_none_alike hfind (hevicted.subset he')
  | fail value hfind => exact h.sublist hevicted

/-- **The keys of a table that calls reach are told apart.** -/
theorem Table.Reached.apart (hh : HashesKeys hash) (h : Table.Reached hash t) :
    ∃ C, HoldsBy hash t C ∧ Apart hash t.ci C := by
  refine (h.keeps hh (P := Apart hash) (fun _ => List.Pairwise.nil) fun hC hleads hapart => ?_).1
  cases hleads with
  | perm hperm => exact hapart.perm (hperm.map Entry.key)
  | set hset => exact hapart.set hC hset
  | empty ci => exact List.Pairwise.nil

/-! ## What a get and a set act on -/

def Table.others (t : Table b V) (key : Key) : List (Key × Option V × Int) :=
  t.items.filter fun item => foldKey t.ci item.1 ≠ foldKey t.ci key

def Table.stores (t : Table b V) (key : Key) : Bool := t.items.any fun item => foldKey t.ci item.1 = foldKey t.ci key

/-- **A get and a set of a key act on the entry under that key only**: a get returns its value, and the entries under other keys
stay as they are and in their order, but for the one that a set of a new key evicts. -/
structure Table.ActsOnKey (seed : BitVec b.bits) (t : Table b V) (key : Key) : Prop where
  get : ∀ now v, (tableGet seed t key now).2 = some v →
    ∃ item ∈ t.items, foldKey t.ci item.1 = foldKey t.ci key ∧ item.2.1 = some v
  get_others : ∀ now, (tableGet seed t key now).1.others key = t.others key
  set_others : ∀ value now mem, (tableSet seed t key value now mem).1.others key =
    (if value.isSome && !t.stores key then tableEvict t else t).others key

def othersIn (ci : Bool) (key : Key) (C : List (Entry b V)) : List (Entry b V) :=
  C.filter fun e => foldKey ci e.key ≠ foldKey ci key

theorem othersIn_append (ci : Bool) (key : Key) (C₁ C₂ : List (Entry b V)) :
    othersIn ci key (C₁ ++ C₂) = othersIn ci key C₁ ++ othersIn ci key C₂ := List.filter_append C₁ C₂

theorem othersIn_same {ci : Bool} {e : Entry b V} (h : foldKey ci e.key = foldKey ci key) (C : List (Entry b V)) :
    othersIn ci key (e :: C) = othersIn ci key C := List.filter_cons_of_neg (by simpa using h)

theorem othersIn_other {ci : Bool} {e : Entry b V} (h : foldKey ci e.key ≠ foldKey ci key) (C : List (Entry b V)) :
    othersIn ci key (e :: C) = e :: othersIn ci key C := List.filter_cons_of_pos (by simpa using h)

theorem HoldsBy.others (h : HoldsBy hash t C) (key : Key) :
    t.others key = (othersIn t.ci key C).map fun e => (e.key, e.value, e.time) := by
  rw [Table.others, h.items, List.filter_map]
  rfl

theorem HoldsBy.stores (h : HoldsBy hash t C) (key : Key) :
    t.stores key = true ↔ ∃ e ∈ C, foldKey t.ci e.key = foldKey t.ci key := by
  rw [Table.stores, h.items, List.any_map, List.any_eq_true]
  simp only [Function.comp_apply, decide_eq_true_eq]

def Table.FindsKey (hash : Bool → Key → BitVec b.bits) (t : Table b V) (key : Key) : Prop :=
  ∀ i, tableFind t key (hash t.ci key) = some i → foldKey t.ci (t.entries i).key = foldKey t.ci key

theorem HoldsBy.stores_iff (hh : HashesKeys hash) (h : HoldsBy hash t C) (hfinds : t.FindsKey hash key) :
    t.stores key = (tableFind t key (hash t.ci key)).isSome := by
  rw [Bool.eq_iff_iff, h.stores]
  cases hfind : tableFind t key (hash t.ci key) with
  | none =>
    refine iff_of_false ?_ Bool.false_ne_true
    rintro ⟨e, he, hsame⟩
    exact h.find_none hh hfind e he hsame
  | some i =>
    obtain ⟨C₁, C₂, rfl⟩ := h.find_some hfind
    exact iff_of_true ⟨_, List.mem_append_right _ List.mem_cons_self, hfinds i hfind⟩ rfl

theorem HoldsBy.get_acts (h : HoldsBy hash t C) (hfinds : t.FindsKey hash key) (now : Int) :
    (tableGetBy hash t key now).1.others key = t.others key ∧
    ∀ v, (tableGetBy hash t key now).2 = some v →
      ∃ item ∈ t.items, foldKey t.ci item.1 = foldKey t.ci key ∧ item.2.1 = some v := by
  unfold tableGetBy
  cases hfind : tableFind t key (hash t.ci key) with
  | none => exact ⟨rfl, fun v hv => nomatch hv⟩
  | some i =>
    have hkey := hfinds i hfind
    obtain ⟨C₁, C₂, rfl⟩ := h.find_some hfind
    have hvalue (v : V) (hv : (t.entries i).value = some v) :
        ∃ item ∈ t.items, foldKey t.ci item.1 = foldKey t.ci key ∧ item.2.1 = some v := by
      rw [h.items]
      exact ⟨_, List.mem_map_of_mem (List.mem_append_right _ List.mem_cons_self), hkey, hv⟩
    dsimp only
    split
    · exact ⟨rfl, fun v hv => nomatch hv⟩
    · split
      · refine ⟨?_, hvalue⟩
        have htouch : (t.touch i).others key = t.others key := by
          rw [h.touch.others, h.others, show (t.touch i).ci = t.ci from rfl, othersIn_append, othersIn_append, othersIn_append,
            othersIn_same hkey, othersIn_same hkey]
          exact congrArg _ (List.append_nil _)
        exact htouch
      · exact ⟨rfl, hvalue⟩

theorem HoldsBy.set_acts (hh : HashesKeys hash) (h : HoldsBy hash t C) (hfinds : t.FindsKey hash key) (value : Option V) (now : Int)
    (mem : SetAlloc) : (tableSetBy hash t key value now mem).1.others key =
      (if value.isSome && !t.stores key then tableEvict t else t).others key := by
  obtain ⟨hevict, hevicto⟩ := h.evict
  obtain ⟨C', hC', ho, hset⟩ := h.set_any hh key value now mem
  rw [hC'.others, options_ci ho, h.stores_iff hh hfinds]
  generalize (tableSetBy hash t key value now mem).2 = rc at hset
  cases hset with
  | @update i C₁ C₂ value hfind heq =>
    subst heq
    have hkey := hfinds i hfind
    have hkey' : foldKey t.ci (t.updated value now (t.entries i)).key = foldKey t.ci key := hkey
    rw [hfind, Option.isSome_some, Option.isSome_some, Bool.not_true, Bool.and_false, if_neg Bool.false_ne_true, h.others]
    split
    · rw [othersIn_append, othersIn_append, othersIn_append, othersIn_same hkey, othersIn_same hkey']
      exact congrArg _ (List.append_nil _)
    · rw [othersIn_append, othersIn_append, othersIn_same hkey, othersIn_same hkey']
  | @remove i C₁ C₂ hfind heq =>
    subst heq
    rw [Option.isSome_none, Bool.false_and, if_neg Bool.false_ne_true, h.others, othersIn_append, othersIn_append,
      othersIn_same (hfinds i hfind)]
  | miss hfind => rw [Option.isSome_none, Bool.false_and, if_neg Bool.false_ne_true, h.others]
  | insert e value hfind =>
    have hkey : foldKey t.ci (newEntry t.timed e key value (hash t.ci key) now).key = foldKey t.ci key := rfl
    rw [hfind, Option.isSome_some, Option.isSome_none, Bool.not_false, Bool.and_true, if_pos rfl, hevict.others,
      options_ci hevicto, othersIn_append, othersIn_same hkey]
    exact congrArg _ (List.append_nil _)
  | fail value hfind =>
    rw [hfind, Option.isSome_some, Option.isSome_none, Bool.not_false, Bool.and_true, if_pos rfl, hevict.others,
      options_ci hevicto]

/-- **A get and a set act on the entry under their key only, if and only if the table has no key that is confused with it**, on
every table that calls reach. -/
theorem acts_on_key_iff {seed : BitVec b.bits} (h : Table.Reached (tableHash seed) t) (key : Key) :
    t.ActsOnKey seed key ↔ ∀ item ∈ t.items, ¬Confused (tableHash seed) t.ci item.1 key := by
  have hh := tableHash_hashesKeys seed
  obtain ⟨C, hC, hapart⟩ := h.apart hh
  rw [hC.items, List.forall_mem_map]
  constructor
  · -- a set without a value would remove the confused entry
    rintro hacts e he ⟨hne, halike⟩
    cases hfind : tableFind t key (tableHash seed t.ci key) with
    | none => exact hC.find_none_alike hfind he halike
    | some i =>
      have halike' := hC.find_alike hfind
      obtain ⟨C₁, C₂, rfl⟩ := hC.find_some hfind
      unfold Apart at hapart
      rw [List.map_append, List.map_cons, List.pairwise_append, List.pairwise_cons] at hapart
      have hfound : e = t.entries i := by
        rcases List.mem_append.1 he with hm | hm
        · exact absurd (halike.trans halike'.symm) (hapart.2.2 _ (List.mem_map_of_mem hm) _ List.mem_cons_self)
        · rcases List.mem_cons.1 hm with rfl | hm
          · rfl
          · exact absurd (halike'.trans halike.symm) (hapart.2.1.1 _ (List.mem_map_of_mem hm))
      subst hfound
      have hset := hacts.set_others none 0 {}
      rw [Option.isSome_none, Bool.false_and, if_neg Bool.false_ne_true, tableSet_eq, hC.others] at hset
      simp only [tableSetBy, hfind] at hset
      rw [hC.remove.others, show (tableRemove t i).ci = t.ci from rfl, othersIn_append, othersIn_append, othersIn_other hne] at hset
      have hlen := congrArg List.length hset
      simp only [List.length_map, List.length_append, List.length_cons] at hlen
      omega
  · intro hno
    have hfinds : t.FindsKey (tableHash seed) key := by
      intro i hfind
      by_contra hne
      have halike := hC.find_alike hfind
      obtain ⟨C₁, C₂, rfl⟩ := hC.find_some hfind
      exact hno _ (List.mem_append_right _ List.mem_cons_self) ⟨hne, halike⟩
    exact ⟨fun now v => (hC.get_acts hfinds now).2 v, fun now => (hC.get_acts hfinds now).1,
      fun value now mem => hC.set_acts hh hfinds value now mem⟩

/-- Two keys that are told apart by no byte before their first zero byte, nor by their hash: a set of the one is a get of the
other, and a set of the other overwrites it. -/
theorem keys_are_confused :
    let seed : BitVec Build.b64.bits := 14695981039346656037#64
    let key : Key := [0, 85, 31, 32, 6, 50, 251, 123, 83]
    let key' : Key := [0, 101, 117, 28, 64, 38, 116, 19, 220]
    ∃ t : Table .b64 Nat, Table.Reached (tableHash seed) t ∧ t.ci = false ∧ t.items = [(key, some 1, 0)] ∧
      (tableGet seed t key' 0).2 = some 1 ∧ (tableSet seed t key' (some 2) 0 {}).1.items = [(key, some 2, 0)] ∧
      ¬t.ActsOnKey seed key' := by
  intro seed key key'
  have hrun : (tableCreate .b64 Nat 1 true true).map (fun t =>
      let t := tableOp (tableHash seed) t (.set key (some 1) 0 {})
      decide (t.ci = false ∧ t.items = [(key, some 1, 0)] ∧ (tableGet seed t key' 0).2 = some 1 ∧
        (tableSet seed t key' (some 2) 0 {}).1.items = [(key, some 2, 0)])) = some true := by decide +kernel
  obtain ⟨t, ht, hrun⟩ := Option.map_eq_some_iff.1 hrun
  obtain ⟨hci, hitems, hget, hset⟩ := of_decide_eq_true hrun
  refine ⟨_, (Table.Reached.create ht).call _, hci, hitems, hget, hset, fun hacts => ?_⟩
  obtain ⟨item, hitem, hkey, -⟩ := hacts.get 0 1 hget
  rw [hitems, List.mem_singleton] at hitem
  rw [hitem, hci] at hkey
  exact absurd hkey (by decide)

/-- Two keys that only their hashes tell apart. -/
theorem acts_on_key_iff_hashes :
    let seed : BitVec Build.b64.bits := 14695981039346656037#64
    ∃ t : Table .b64 Nat, Table.Reached (tableHash seed) t ∧ t.items = [([0, 65], some 1, 0)] ∧ t.ActsOnKey seed [0, 66] := by
  intro seed
  have hrun : (tableCreate .b64 Nat 1 true true).map (fun t =>
      let t := tableOp (tableHash seed) t (.set [0, 65] (some 1) 0 {})
      decide (t.items = [([0, 65], some 1, 0)] ∧ ∀ item ∈ t.items, ¬Confused (tableHash seed) t.ci item.1 [0, 66])) =
      some true := by decide +kernel
  obtain ⟨t, ht, hrun⟩ := Option.map_eq_some_iff.1 hrun
  obtain ⟨hitems, hno⟩ := of_decide_eq_true hrun
  have hr : Table.Reached (tableHash seed) (tableOp (tableHash seed) t (.set [0, 65] (some 1) 0 {})) :=
    (Table.Reached.create ht).call _
  exact ⟨_, hr, hitems, (acts_on_key_iff hr [0, 66]).2 hno⟩

/-! ## Every seed has keys that are confused -/

/-- **No seed tells all keys apart**: of the keys that are a zero byte and nine more, there are more than hashes. -/
theorem confused_of_seed (seed : BitVec b.bits) : ∃ key key', Confused (tableHash seed) false key key' := by
  let keyOf (tail : Fin 9 → Fin 256) : Key := 0 :: List.ofFn fun i => UInt8.ofFin (tail i)
  have hmore : Fintype.card (Fin (2 ^ b.bits)) < Fintype.card (Fin 9 → Fin 256) := by
    rw [Fintype.card_fin, Fintype.card_fun, Fintype.card_fin, Fintype.card_fin]
    cases b with
    | b64 => decide
    | b32 => decide
  obtain ⟨tail, tail', hne, hhash⟩ :=
    Fintype.exists_ne_map_eq_of_card_lt (fun tail => (tableHash seed false (keyOf tail)).toFin) hmore
  refine ⟨keyOf tail, keyOf tail', fun hkey => hne ?_, BitVec.toFin_inj.1 hhash, ?_, rfl⟩
  · have htails := List.ofFn_injective (List.cons.inj hkey).2
    funext i
    exact congrArg UInt8.toFin (congrFun htails i)
  · simp only [keyOf, List.length_cons, List.length_ofFn]

end Lws

import Mathlib.Data.List.Perm.Subperm
import Mathlib.Data.List.TakeWhile
import Lws.Probe
import Lws.Table
/-!
# TableLayout — the representation invariant of the table, and `lws_table_find`

`Layout t L` says that the slots `L`, in the order of the order list, hold entries that their own probe sequences reach;
`TableInv` adds what the counters, the hashes and the keys satisfy.  On such a table `tableFind` is a search of `L` for an
equal key (`tableFind_eq`).
-/
namespace Lws

open Ring (IsRing)
open Probe (probe)

variable {b : Build} {V : Type}

/-! ## Keys -/

/-- What a table takes for the identity of a key: its bytes, or its bytes in lower case. -/
def foldKey (ci : Bool) (key : Key) : Key := if ci then key.map ngxTolower else key

theorem foldKey_length (ci : Bool) (key : Key) : (foldKey ci key).length = key.length := by
  cases ci with
  | false => rfl
  | true => exact List.length_map ngxTolower

def Terminated (key : Key) : Prop := 0 ∉ key.dropLast

/-- The bytes before the first zero byte: a C string, as a C function reads it. -/
def cString (s : Key) : Key := s.takeWhile (· ≠ 0)

theorem cString_zero (s : Key) : 0 ∉ cString s := by
  intro h
  have := List.mem_takeWhile_imp h
  simp at this

theorem ngxTolower_eq_zero (c : UInt8) : ngxTolower c = 0 ↔ c = 0 := by
  have h : ∀ n : Fin 256, ngxTolower (UInt8.ofFin n) = 0 ↔ UInt8.ofFin n = 0 := by decide +kernel
  exact h c.toFin

theorem Terminated.map {key : Key} (h : Terminated key) : Terminated (key.map ngxTolower) := by
  intro h0
  rw [← List.map_dropLast] at h0
  obtain ⟨c, hc, hc0⟩ := List.mem_map.1 h0
  exact h ((ngxTolower_eq_zero c).1 hc0 ▸ hc)

theorem cString_cons {c : UInt8} (hc : c ≠ 0) (s : Key) : cString (c :: s) = c :: cString s := by
  rw [cString, List.takeWhile_cons_of_pos (by simpa using hc), cString]

theorem cString_cons_zero (s : Key) : cString (0 :: s) = [] := List.takeWhile_cons_of_neg (by simp)

/-- **C strings of one length are equal where their bytes are**, when one has no inner zero byte. -/
theorem cString_inj : ∀ {s s' : Key}, Terminated s → s.length = s'.length → (cString s = cString s' ↔ s = s')
  | [], [], _, _ => by simp
  | c :: s, c' :: s', ht, hl => by
    have hl : s.length = s'.length := Nat.succ.inj hl
    by_cases hc : c = 0
    · -- a zero byte is the last one
      have hs : s = [] := by
        cases s with
        | nil => rfl
        | cons c₂ s => exact absurd (by rw [hc]; exact List.mem_cons_self) ht
      subst hs
      obtain rfl : s' = [] := List.length_eq_zero_iff.1 hl.symm
      subst hc
      by_cases hc' : c' = 0
      · rw [hc']
        simp
      · rw [cString_cons_zero, cString_cons hc']
        simp [Ne.symm hc']
    · have ht' : Terminated s := by
        cases s with
        | nil => exact List.not_mem_nil
        | cons c₂ s => exact fun h0 => ht (List.mem_cons_of_mem _ h0)
      rw [cString_cons hc]
      by_cases hc' : c' = 0
      · rw [hc', cString_cons_zero]
        simp [hc]
      · rw [cString_cons hc', List.cons.injEq, List.cons.injEq, cString_inj ht' hl]

/-- **`ngx_strncmp` compares C strings**: on byte strings of one length, it finds no difference where they are the same. -/
theorem ngxStrncmp_cString : ∀ s s' : Key, s.length = s'.length → (ngxStrncmp s s' s'.length = 0 ↔ cString s = cString s')
  | [], [], _ => by simp [ngxStrncmp]
  | c :: s, c' :: s', hl => by
    rw [List.length_cons, ngxStrncmp]
    by_cases hc : c = c'
    · subst hc
      rw [if_neg (not_not.2 rfl)]
      by_cases h0 : c = 0
      · rw [if_pos h0, h0, cString_cons_zero, cString_cons_zero]
        simp
      · rw [if_neg h0, ngxStrncmp_cString s s' (Nat.succ.inj hl), cString_cons h0, cString_cons h0, List.cons.injEq,
          and_iff_right rfl]
    · rw [if_pos hc]
      have hne : c.toNat ≠ c'.toNat := fun h => hc (UInt8.toNat_inj.1 h)
      have hdiff : (c.toNat : Int) - c'.toNat ≠ 0 := by omega
      refine iff_of_false hdiff fun heq => ?_
      by_cases h0 : c = 0
      · by_cases h0' : c' = 0
        · exact hc (h0.trans h0'.symm)
        · rw [h0, cString_cons_zero, cString_cons h0'] at heq
          cases heq
      · by_cases h0' : c' = 0
        · rw [h0', cString_cons h0, cString_cons_zero] at heq
          cases heq
        · rw [cString_cons h0, cString_cons h0'] at heq
          exact hc (List.cons.inj heq).1

theorem ngxStrncasecmp_eq : ∀ (s s' : Key) (n : Nat),
    ngxStrncasecmp s s' n = ngxStrncmp (s.map ngxTolower) (s'.map ngxTolower) n
  | [], _, _ => by simp [ngxStrncasecmp, ngxStrncmp]
  | _ :: _, [], _ => by simp [ngxStrncasecmp, ngxStrncmp]
  | _ :: _, _ :: _, 0 => by simp [ngxStrncasecmp, ngxStrncmp]
  | c :: s, c' :: s', n + 1 => by
    rw [ngxStrncasecmp, List.map_cons, List.map_cons, ngxStrncmp, ngxStrncasecmp_eq s s' n]
    by_cases hc : ngxTolower c = ngxTolower c'
    · rw [if_pos hc, if_neg (not_not.2 hc), ite_not]
    · rw [if_neg hc, if_pos hc]

theorem ngxStrncasecmp_cString {s s' : Key} (hl : s.length = s'.length) :
    ngxStrncasecmp s s' s'.length = 0 ↔ cString (s.map ngxTolower) = cString (s'.map ngxTolower) := by
  have hmap : (s'.map ngxTolower).length = s'.length := List.length_map ngxTolower
  rw [ngxStrncasecmp_eq, ← hmap]
  exact ngxStrncmp_cString _ _ (by rw [List.length_map, hmap, hl])

/-- **`ngx_strncasecmp` is equality in lower case**, when the stored string has no inner zero byte. -/
theorem ngxStrncasecmp_eq_zero {s s' : Key} (ht : Terminated s) (hl : s.length = s'.length) :
    ngxStrncasecmp s s' s'.length = 0 ↔ s.map ngxTolower = s'.map ngxTolower :=
  (ngxStrncasecmp_cString hl).trans (cString_inj ht.map (by rw [List.length_map, List.length_map, hl]))

theorem tableHash_foldKey (seed : BitVec b.bits) (ci : Bool) {key key' : Key} (h : foldKey ci key = foldKey ci key') :
    tableHash seed ci key = tableHash seed ci key' := by
  cases ci with
  | false => rw [show key = key' from h]
  | true =>
    have hr : key.reverse.map ngxTolower = key'.reverse.map ngxTolower := by
      rw [List.map_reverse, List.map_reverse, show key.map ngxTolower = key'.map ngxTolower from h]
    have hm (k : Key) : tableHash seed true k = (k.reverse.map ngxTolower).foldl (fun hash c =>
        (hash ^^^ BitVec.ofNat b.bits c.toNat) * b.hashPrime) seed := by
      rw [List.foldl_map]; rfl
    rw [hm, hm, hr]

/-- What a live entry holds: a value, the hash of its key, and a key without inner zero bytes. -/
structure Stored (seed : BitVec b.bits) (ci : Bool) (e : Entry b V) : Prop where
  set : e.state = .set
  hash : e.hash = tableHash seed ci e.key
  key : Terminated e.key
  value : e.value.isSome = true

theorem Stored.terminated {seed : BitVec b.bits} {ci : Bool} {e : Entry b V} (h : Stored seed ci e) :
    Terminated (foldKey ci e.key) := by
  cases ci with
  | false => exact h.key
  | true => exact h.key.map

theorem Table.matches_cString {t : Table b V} {e : Entry b V} (hset : e.state = .set) (key : Key) (hash : BitVec b.bits) :
    t.matches e key hash = true ↔
      e.hash = hash ∧ e.key.length = key.length ∧ cString (foldKey t.ci e.key) = cString (foldKey t.ci key) := by
  simp only [Table.matches, hset, Bool.and_eq_true, decide_eq_true_eq, true_and, and_assoc]
  refine and_congr_right fun _ => and_congr_right fun hlen => ?_
  cases t.ci with
  | false => exact ngxStrncmp_cString e.key key hlen
  | true => exact ngxStrncasecmp_cString hlen

theorem Table.matches_same {t : Table b V} {e : Entry b V} {key : Key} {hash : BitVec b.bits} (hset : e.state = .set)
    (hhash : e.hash = hash) (hk : foldKey t.ci e.key = foldKey t.ci key) : t.matches e key hash = true := by
  refine (Table.matches_cString hset key hash).2 ⟨hhash, ?_, congrArg cString hk⟩
  rw [← foldKey_length t.ci, hk, foldKey_length]

/-- **The test of `lws_table_find` is equality of keys**, on an entry without inner zero bytes. -/
theorem Table.matches_iff {t : Table b V} {seed : BitVec b.bits} {e : Entry b V} (h : Stored seed t.ci e) (key : Key) :
    t.matches e key (tableHash seed t.ci key) = true ↔ foldKey t.ci e.key = foldKey t.ci key := by
  constructor
  · intro hm
    obtain ⟨-, hlen, hc⟩ := (Table.matches_cString h.set key _).1 hm
    exact (cString_inj h.terminated (by rw [foldKey_length, foldKey_length, hlen])).1 hc
  · intro hf
    exact Table.matches_same h.set (h.hash.trans (tableHash_foldKey seed t.ci hf)) hf

theorem Table.matches_set {t : Table b V} {e : Entry b V} {key : Key} {hash : BitVec b.bits}
    (h : t.matches e key hash = true) : e.state = .set := by
  simp only [Table.matches, Bool.and_eq_true, decide_eq_true_eq] at h
  exact h.1.1.1

/-! ## Probe sequences -/

/-- Slot `k` of the probe sequence of a hash. -/
def Table.seq (t : Table b V) (hash : BitVec b.bits) (k : Nat) : Nat := probe t.alloc (t.stride hash) (t.start hash) k

/-- The walk of a hash comes to slot `i` before it has gone round, with no unused slot on the way. -/
def Table.Reaches (t : Table b V) (hash : BitVec b.bits) (i : Nat) : Prop :=
  ∃ k < t.alloc, t.seq hash k = i ∧ ∀ j < k, (t.entries (t.seq hash j)).state ≠ .unused

section
variable {t : Table b V} (hs : t.alloc ∈ b.tableSizes)
include hs

theorem Table.alloc_pos : 0 < t.alloc := by have := three_le_of_mem_tableSizes hs; omega

theorem Table.stride_coprime (hash : BitVec b.bits) : Nat.Coprime (t.stride hash) t.alloc := by
  have h3 := three_le_of_mem_tableSizes hs
  have := Nat.mod_lt hash.toNat (show 0 < t.alloc - 2 by omega)
  exact Probe.coprime_stride (prime_of_mem_tableSizes hs) (by simp [Table.stride]) (by simp only [Table.stride]; omega)

theorem Table.start_lt (hash : BitVec b.bits) : t.start hash < t.alloc := Nat.mod_lt _ (Table.alloc_pos hs)

theorem Table.seq_zero (hash : BitVec b.bits) : t.seq hash 0 = t.start hash := Probe.probe_zero (Table.start_lt hs hash)

theorem Table.seq_lt (hash : BitVec b.bits) (k : Nat) : t.seq hash k < t.alloc := Probe.probe_lt (Table.alloc_pos hs) k

theorem Table.seq_surj (hash : BitVec b.bits) {i : Nat} (hi : i < t.alloc) : ∃ k < t.alloc, t.seq hash k = i :=
  Probe.probe_surj (Table.alloc_pos hs) (Table.stride_coprime hs hash) _ hi

theorem Table.Reaches.lt {hash : BitVec b.bits} {i : Nat} (h : t.Reaches hash i) : i < t.alloc := by
  obtain ⟨k, -, rfl, -⟩ := h
  exact Table.seq_lt hs hash k

end

theorem Table.seq_succ (t : Table b V) (hash : BitVec b.bits) (k : Nat) :
    (t.seq hash k + t.stride hash) % t.alloc = t.seq hash (k + 1) := Probe.probe_succ k

theorem Table.Reaches.mono {t t' : Table b V} {hash : BitVec b.bits} {i : Nat} (h : t.Reaches hash i)
    (ha : t'.alloc = t.alloc) (hu : ∀ x, (t'.entries x).state = .unused → (t.entries x).state = .unused) :
    t'.Reaches hash i := by
  obtain ⟨k, hk, rfl, hj⟩ := h
  have hseq (j : Nat) : t'.seq hash j = t.seq hash j := by simp only [Table.seq, Table.stride, Table.start, ha]
  exact ⟨k, by rw [ha]; exact hk, hseq k, fun j hjk hun => hj j hjk (by rw [← hseq]; exact hu _ hun)⟩

/-! ## The invariant -/

/-- **The slots `L` hold entries that their probe sequences reach, and the order list runs through them.** -/
structure Layout (t : Table b V) (L : List Nat) : Prop where
  size : t.alloc ∈ b.tableSizes
  ring : IsRing t.order none (L.map some)
  set : ∀ i ∈ L, (t.entries i).state = .set
  reach : ∀ i ∈ L, t.Reaches (t.entries i).hash i

theorem Layout.lt {t : Table b V} {L : List Nat} (h : Layout t L) {i : Nat} (hi : i ∈ L) : i < t.alloc :=
  (h.reach i hi).lt h.size

theorem Layout.nodup {t : Table b V} {L : List Nat} (h : Layout t L) : L.Nodup :=
  (List.nodup_cons.1 h.ring.nodup).2.of_map _

/-- **The representation invariant**: `L` is the order list's slots, from its head to its tail. -/
structure TableInv (seed : BitVec b.bits) (t : Table b V) (L : List Nat) : Prop extends Layout t L where
  load_eq : t.load = tableLoad t.alloc
  count_eq : t.count = L.length
  count_le : t.count ≤ t.load
  only : ∀ i, (t.entries i).state = .set → i ∈ L
  stored : ∀ e ∈ L.map t.entries, Stored seed t.ci e
  distinct : (L.map t.entries).Pairwise (fun e e' => foldKey t.ci e.key ≠ foldKey t.ci e'.key)

/-- A hash function that reads a key only through `foldKey`. -/
def HashesKeys (hash : Bool → Key → BitVec b.bits) : Prop :=
  ∀ ci key key', foldKey ci key = foldKey ci key' → hash ci key = hash ci key'

theorem tableHash_hashesKeys (seed : BitVec b.bits) : HashesKeys (tableHash seed) := fun ci _ _ => tableHash_foldKey seed ci

/-- **The representation invariant for any hash function and any keys.** -/
structure TableRep (hash : Bool → Key → BitVec b.bits) (t : Table b V) (L : List Nat) : Prop extends Layout t L where
  load_eq : t.load = tableLoad t.alloc
  count_eq : t.count = L.length
  count_le : t.count ≤ t.load
  only : ∀ i, (t.entries i).state = .set → i ∈ L
  hashed : ∀ e ∈ L.map t.entries, e.hash = hash t.ci e.key
  distinct : (L.map t.entries).Pairwise (fun e e' => foldKey t.ci e.key ≠ foldKey t.ci e'.key)

theorem TableInv.rep {seed : BitVec b.bits} {t : Table b V} {L : List Nat} (h : TableInv seed t L) :
    TableRep (tableHash seed) t L :=
  ⟨h.toLayout, h.load_eq, h.count_eq, h.count_le, h.only, fun e he => (h.stored e he).hash, h.distinct⟩

theorem exists_not_set {t : Table b V} {L : List Nat} (honly : ∀ i, (t.entries i).state = .set → i ∈ L)
    (hlen : L.length < t.alloc) : ∃ i < t.alloc, (t.entries i).state ≠ .set := by
  by_contra hall
  push Not at hall
  have hsub : List.range t.alloc ⊆ L := fun i hi => honly i (hall i (List.mem_range.1 hi))
  have := (List.subperm_of_subset List.nodup_range hsub).length_le
  rw [List.length_range] at this
  omega

/-! ## `lws_table_find` -/

theorem findLoop_some {t : Table b V} {key : Key} {hash : BitVec b.bits} {r q i : Nat} : ∀ (fuel h : Nat),
    findLoop t key hash r q fuel h = some i → t.matches (t.entries i) key hash = true
  | 0, _, he => by cases he
  | fuel + 1, h, he => by
    unfold findLoop at he
    split at he
    · cases he
    · split at he
      · rename_i hm
        cases he
        exact hm
      · dsimp only at he
        split at he
        · cases he
        · exact findLoop_some fuel _ he

theorem findLoop_none {t : Table b V} (hs : t.alloc ∈ b.tableSizes) {key : Key} {hash : BitVec b.bits} :
    ∀ (fuel k : Nat), fuel + k = t.alloc → 0 < fuel →
      findLoop t key hash (t.start hash) (t.stride hash) fuel (t.seq hash k) = none →
      ∀ j, k ≤ j → j < t.alloc → (∀ m, k ≤ m → m < j → (t.entries (t.seq hash m)).state ≠ .unused) →
        t.matches (t.entries (t.seq hash j)) key hash = false
  | 0, _, _, hpos, _ => absurd hpos (by omega)
  | fuel + 1, k, hf, _, he => by
    intro j hkj hj hu
    unfold findLoop at he
    split at he
    · rename_i hun
      rcases Nat.eq_or_lt_of_le hkj with rfl | hlt
      · rw [Bool.eq_false_iff]
        intro hm
        rw [Table.matches_set hm] at hun
        cases hun
      · exact absurd hun (hu k (le_refl _) hlt)
    · split at he
      · cases he
      · rename_i hnm
        rcases Nat.eq_or_lt_of_le hkj with rfl | hlt
        · simpa using hnm
        · dsimp only at he
          rw [Table.seq_succ] at he
          split at he
          · -- the walk is back at its start, so it has tested every slot
            rename_i hback
            have := Probe.le_of_probe_eq_start (Table.stride_coprime hs hash) (Table.start_lt hs hash)
              (Nat.succ_pos k) hback
            omega
          · exact findLoop_none hs fuel (k + 1) (by omega) (by omega) he j hlt hj
              (fun m hm hmj => hu m (by omega) hmj)

theorem TableRep.find_some {hash : Bool → Key → BitVec b.bits} {t : Table b V} {L : List Nat} (h : TableRep hash t L) {key : Key}
    {i : Nat} (hf : tableFind t key (hash t.ci key) = some i) : i ∈ L := h.only i (Table.matches_set (findLoop_some _ _ hf))

/-- **A search that finds nothing has tested every live entry with the hash.** -/
theorem TableRep.find_none_matches {hash : Bool → Key → BitVec b.bits} {t : Table b V} {L : List Nat} (h : TableRep hash t L)
    {key : Key} (hf : tableFind t key (hash t.ci key) = none) {i : Nat} (hi : i ∈ L)
    (hhash : (t.entries i).hash = hash t.ci key) : t.matches (t.entries i) key (hash t.ci key) = false := by
  obtain ⟨k, hk, hki, hu⟩ := h.reach i hi
  rw [hhash] at hki hu
  unfold tableFind at hf
  rw [← Table.seq_zero h.size] at hf
  have hpos := Table.alloc_pos h.size
  have hno := findLoop_none h.size t.alloc 0 (by omega) hpos (by rw [← Table.seq_zero h.size]; exact hf) k (by omega) hk
    (fun m _ hm => hu m hm)
  rwa [hki] at hno

theorem TableRep.find_none {hash : Bool → Key → BitVec b.bits} (hh : HashesKeys hash) {t : Table b V} {L : List Nat}
    (h : TableRep hash t L) {key : Key} (hf : tableFind t key (hash t.ci key) = none) :
    ∀ i ∈ L, foldKey t.ci (t.entries i).key ≠ foldKey t.ci key := by
  intro i hi hsame
  have hhash := h.hashed _ (List.mem_map_of_mem hi)
  rw [hh t.ci _ _ hsame] at hhash
  have hno := h.find_none_matches hf hi hhash
  rw [Table.matches_same (h.set i hi) hhash hsame] at hno
  cases hno

theorem tableFind_eq {seed : BitVec b.bits} {t : Table b V} {L : List Nat} (h : TableInv seed t L) (key : Key) :
    tableFind t key (tableHash seed t.ci key) =
      L.find? (fun i => foldKey t.ci (t.entries i).key = foldKey t.ci key) := by
  cases hfind : tableFind t key (tableHash seed t.ci key) with
  | none =>
    symm
    rw [List.find?_eq_none]
    intro i hi hsame
    exact h.rep.find_none (tableHash_hashesKeys seed) hfind i hi (by simpa using hsame)
  | some i =>
    have hm := findLoop_some _ _ hfind
    have hi := h.only i (Table.matches_set hm)
    have hsame := (Table.matches_iff (h.stored _ (List.mem_map_of_mem hi)) key).1 hm
    symm
    rw [List.find?_eq_some_iff_append]
    obtain ⟨L₁, L₂, rfl⟩ := List.append_of_mem hi
    refine ⟨by simpa using hsame, L₁, L₂, rfl, fun j hj => ?_⟩
    have hd := h.distinct
    rw [List.map_append, List.map_cons, List.pairwise_append] at hd
    have := hd.2.2 _ (List.mem_map_of_mem hj) _ (List.mem_cons_self)
    rw [hsame] at this
    simpa using this

end Lws

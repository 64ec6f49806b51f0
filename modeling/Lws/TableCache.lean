import Lws.Lru
import Lws.TableMap
/-!
# TableCache — the capped, timed table is an LRU cache

The reference is `Lru`: the live entries of the table, in the order of its order list, are the items of the reference after
every call, so that recency, eviction and expiry are the reference's, as long as no time of an entry overflows when the timeout
is added to it.
-/
namespace Lws

variable {b : Build} {V : Type}

def tableConfigureCache (t : Table b V) (dup free ci : Bool) (cap : Nat) (timeout : Int) : Table b V :=
  (tableSetTimeout (tableSetCap (tableConfigure t dup free ci) cap).1 timeout).1

/-! ## The reference -/

def lruCall (ci : Bool) (cap : Nat) (timeout : Int) (s : Lru.State Key V) :
    TableCall V → Lru.State Key V × TableAnswer V
  | .set key (some value) now _ => (Lru.put (foldKey ci) cap now s key value, .status 0)
  | .set key none _ _ => (Lru.del (foldKey ci) s key, .status 0)
  | .get key now => ((Lru.get (foldKey ci) timeout now s key).1, .value (Lru.get (foldKey ci) timeout now s key).2)
  | .next none => (s, .entry (s.items.head?.map (fun p => (p.key, some p.value))))
  | .next (some key) =>
    (s, .entry ((Keyed.after (Lru.ident (foldKey ci)) (foldKey ci key) s.items).map (fun p => (p.key, some p.value))))
  | .clear => (Lru.clear s, .done)

def lruRun (ci : Bool) (cap : Nat) (timeout : Int) (s : Lru.State Key V) :
    List (TableCall V) → Lru.State Key V × List (TableAnswer V)
  | [] => (s, [])
  | c :: calls =>
    let r := lruRun ci cap timeout (lruCall ci cap timeout s c).1 calls
    (r.1, (lruCall ci cap timeout s c).2 :: r.2)

theorem lruCall_coherent {ci : Bool} {cap : Nat} (hcap : 0 < cap) (timeout : Int) {s : Lru.State Key V}
    (h : Lru.Coherent (foldKey ci) cap s) (c : TableCall V) : Lru.Coherent (foldKey ci) cap (lruCall ci cap timeout s c).1 := by
  cases c with
  | set key value now mem =>
    cases value with
    | some value => exact h.put hcap now key value
    | none => exact h.del key
  | get key now => exact h.get timeout now key
  | next key => cases key <;> exact h
  | clear => exact Lru.coherent_clear

theorem lruRun_coherent {ci : Bool} {cap : Nat} (hcap : 0 < cap) (timeout : Int) : ∀ (calls : List (TableCall V))
    {s : Lru.State Key V}, Lru.Coherent (foldKey ci) cap s → Lru.Coherent (foldKey ci) cap (lruRun ci cap timeout s calls).1
  | [], _, h => h
  | c :: calls, _, h => lruRun_coherent hcap timeout calls (lruCall_coherent hcap timeout h c)

theorem tableRun_concat (seed : BitVec b.bits) (c : TableCall V) : ∀ (calls : List (TableCall V)) (t : Table b V),
    (tableRun seed t (calls ++ [c])).1 = (tableCall seed (tableRun seed t calls).1 c).1
  | [], _ => rfl
  | _ :: calls, _ => tableRun_concat seed c calls _

theorem lruRun_concat (ci : Bool) (cap : Nat) (timeout : Int) (c : TableCall V) : ∀ (calls : List (TableCall V))
    (s : Lru.State Key V), (lruRun ci cap timeout s (calls ++ [c])).1 =
      (lruCall ci cap timeout (lruRun ci cap timeout s calls).1 c).1
  | [], _ => rfl
  | _ :: calls, _ => lruRun_concat ci cap timeout c calls _

/-! ## Time -/

/-- A value of `time_t`. -/
def Build.IsTime (b : Build) (n : Int) : Prop := -2 ^ (b.bits - 1) ≤ n ∧ n < 2 ^ (b.bits - 1)

/-- What `time(NULL)` returns. -/
def Build.Clock (b : Build) (now : Int) : Prop := 0 ≤ now ∧ b.IsTime now

def TableCall.TimeIn (P : Int → Prop) : TableCall V → Prop
  | .set _ _ now _ => P now
  | .get _ now => P now
  | _ => True

section
variable {time timeout : Int}

theorem timeT_eq {n : Int} (h : b.IsTime n) : b.timeT n = n := by
  obtain ⟨h1, h2⟩ := h
  cases b with
  | b64 =>
    simp only [Build.bits, Build.timeT, Int.bmod] at h1 h2 ⊢
    omega
  | b32 =>
    simp only [Build.bits, Build.timeT, Int.bmod] at h1 h2 ⊢
    omega

theorem timeT_neg (htime : b.Clock time) (htimeout : b.IsTime timeout) (hover : 2 ^ (b.bits - 1) ≤ time + timeout) :
    b.timeT (time + timeout) < 0 := by
  obtain ⟨-, -, h1⟩ := htime
  obtain ⟨-, h2⟩ := htimeout
  cases b with
  | b64 =>
    simp only [Build.bits, Build.timeT, Int.bmod] at h1 h2 hover ⊢
    omega
  | b32 =>
    simp only [Build.bits, Build.timeT, Int.bmod] at h1 h2 hover ⊢
    omega

theorem timeT_add (htime : b.Clock time) (htimeout : b.IsTime timeout) (hfits : time + timeout < 2 ^ (b.bits - 1)) :
    b.timeT (time + timeout) = time + timeout :=
  timeT_eq ⟨by have := htimeout.1; have := htime.1; omega, hfits⟩

theorem timeT_add_le (htime : b.Clock time) (htimeout : b.IsTime timeout) : b.timeT (time + timeout) ≤ time + timeout := by
  by_cases hfits : time + timeout < 2 ^ (b.bits - 1)
  · exact (timeT_add htime htimeout hfits).le
  · have hneg := timeT_neg htime htimeout (not_lt.1 hfits)
    have hpos : (0 : Int) < 2 ^ (b.bits - 1) := by positivity
    omega

end

theorem lruCall_timesIn {P : Int → Prop} {ci : Bool} {cap : Nat} (timeout : Int) {s : Lru.State Key V}
    (h : Lru.TimesIn P s) {c : TableCall V} (hc : c.TimeIn P) : Lru.TimesIn P (lruCall ci cap timeout s c).1 := by
  cases c with
  | set key value now mem =>
    cases value with
    | some value => exact h.put hc key value
    | none => exact h.logged rfl fun _ _ _ he => by cases he
  | get key now => exact h.get timeout now key
  | next key => cases key <;> exact h
  | clear => exact h.logged rfl fun _ _ _ he => by cases he

theorem lruRun_timesIn {P : Int → Prop} {ci : Bool} {cap : Nat} (timeout : Int) : ∀ (calls : List (TableCall V))
    {s : Lru.State Key V}, Lru.TimesIn P s → (∀ c ∈ calls, c.TimeIn P) → Lru.TimesIn P (lruRun ci cap timeout s calls).1
  | [], _, h, _ => h
  | c :: calls, _, h, hcalls =>
    lruRun_timesIn timeout calls (lruCall_timesIn timeout h (hcalls c (by simp))) fun c hc => hcalls c (by simp [hc])

/-! ## The relation -/

/-- The keys, values and times of the live entries are those of the items, in order. -/
abbrev Items (C : List (Entry b V)) (items : List (Lru.Item Key V)) : Prop :=
  Keyed.Agree (fun e : Entry b V => (e.key, e.value, e.time)) (fun p => (p.key, some p.value, p.time)) C items

/-- **A table caches what the reference does**: its order list is the reference list. -/
structure Caches (seed : BitVec b.bits) (cap : Nat) (timeout : Int) (t : Table b V) (s : Lru.State Key V) : Prop where
  holds : ∃ C, Holds seed t C ∧ Items C s.items
  timed : t.timed = true
  capped : t.capped = true
  cap_eq : t.cap = cap
  timeout_eq : t.timeout = timeout
  coherent : Lru.Coherent (foldKey t.ci) cap s

section
variable {seed : BitVec b.bits} {cap : Nat} {timeout : Int} {t t' : Table b V} {s s' : Lru.State Key V}

theorem Caches.of_options (h : Caches seed cap timeout t s) (ho : t'.options = t.options) {C : List (Entry b V)}
    (hC : Holds seed t' C) (hm : Items C s'.items) (hs : Lru.Coherent (foldKey t.ci) cap s') :
    Caches seed cap timeout t' s' :=
  ⟨⟨C, hC, hm⟩, (options_timed ho).trans h.timed, (options_capped ho).trans h.capped, (options_cap ho).trans h.cap_eq,
    (options_timeout ho).trans h.timeout_eq, by rwa [options_ci ho]⟩

theorem Caches.cases (h : Caches seed cap timeout t s) (key : Key) :
    (∃ C₁ e C₂ l₁ p l₂, Holds seed t (C₁ ++ e :: C₂) ∧ foldKey t.ci e.key = foldKey t.ci key ∧
      s.items = l₁ ++ p :: l₂ ∧ e.key = p.key ∧ e.value = some p.value ∧ e.time = p.time ∧ Items C₁ l₁ ∧ Items C₂ l₂) ∨
    (∃ C, Holds seed t C ∧ Items C s.items ∧ (∀ e ∈ C, foldKey t.ci e.key ≠ foldKey t.ci key) ∧
      ∀ p ∈ s.items, Lru.ident (foldKey t.ci) p ≠ foldKey t.ci key) := by
  obtain ⟨C, hC, hm⟩ := h.holds
  rcases Keyed.split_cases (fun e : Entry b V => foldKey t.ci e.key) (foldKey t.ci key) C with ⟨e, C₁, C₂, hk, rfl⟩ | hk
  · obtain ⟨l₁, p, l₂, hl, hp, h1, h2⟩ := hm.split
    simp only [Prod.mk.injEq] at hp
    exact .inl ⟨C₁, e, C₂, l₁, p, l₂, hC, hk, hl, hp.1, hp.2.1, hp.2.2, h1, h2⟩
  · exact .inr ⟨C, hC, hm, hk,
      Keyed.Agree.forall (P := fun p : Key × Option V × Int => foldKey t.ci p.1 ≠ foldKey t.ci key) hm hk⟩

/-- The time of the value that is stored for a key, if there is one, plus the timeout is a `time_t`. -/
def Timely (b : Build) (ci : Bool) (timeout : Int) (s : Lru.State Key V) (key : Key) : Prop :=
  ∀ c, Lru.current (foldKey ci) s.log key = some c → c.2 + timeout < 2 ^ (b.bits - 1)

theorem Caches.current (h : Caches seed cap timeout t s) {p : Lru.Item Key V} (hp : p ∈ s.items) {key : Key}
    (hkey : foldKey t.ci p.key = foldKey t.ci key) : Lru.current (foldKey t.ci) s.log key = some (p.value, p.time) :=
  (h.coherent.logged key p.value p.time).2 ⟨p, hp, hkey, rfl, rfl⟩

/-- **A get**: the answer and the recency of the reference. -/
theorem Caches.get (h : Caches seed cap timeout t s) (htimeout : b.IsTime timeout) (htimes : Lru.TimesIn b.Clock s) {key : Key}
    (htimely : Timely b t.ci timeout s key) (now : Int) :
    (tableGet seed t key now).2 = (Lru.get (foldKey t.ci) timeout now s key).2 ∧
      Caches seed cap timeout (tableGet seed t key now).1 (Lru.get (foldKey t.ci) timeout now s key).1 ∧
      (tableGet seed t key now).1.options = t.options := by
  have hco := h.coherent.get timeout now key
  have hd := h.coherent.distinct
  rcases h.cases key with ⟨C₁, e, C₂, l₁, p, l₂, hC, hk, hl, hkey, hval, htime, h1, h2⟩ | ⟨C, hC, hm, hk, hk'⟩
  · have hid : foldKey t.ci key = Lru.ident (foldKey t.ci) p := by rw [Lru.ident, ← hkey, hk]
    have hcurrent := h.current (hl ▸ by simp) hid.symm
    obtain ⟨k', hstored⟩ := Lru.current_stored hcurrent
    have hfresh : t.fresh now e = !decide (p.time + timeout ≤ now) := by
      rw [Table.fresh, h.timed, h.timeout_eq, htime, Bool.true_and,
        timeT_add (htimes _ _ _ hstored) htimeout (htimely _ hcurrent)]
    rw [hl] at hd
    unfold Lru.get at hco ⊢
    rw [hl, hid, Keyed.find_hit hd] at hco ⊢
    dsimp only at hco ⊢
    by_cases hexp : p.time + timeout ≤ now
    · rw [if_pos hexp]
      have hf : t.fresh now e = false := by rw [hfresh]; simpa using hexp
      rw [hC.get_expired hk hf]
      exact ⟨rfl, h, rfl⟩
    · rw [if_neg hexp] at hco ⊢
      have hf : t.fresh now e = true := by rw [hfresh]; simpa using hexp
      obtain ⟨t', hget, ho, hH⟩ := hC.get_hit hk hf
      rw [h.capped, if_pos rfl] at hH
      rw [hget]
      refine ⟨hval, h.of_options ho hH ?_ hco, ho⟩
      rw [Keyed.toTail_hit hd]
      exact (h1.append h2).concat (by rw [hkey, hval, htime])
  · rw [hC.get_miss hk, Lru.get, Keyed.find_miss hk']
    exact ⟨rfl, h, rfl⟩

/-- **A get of an entry whose time overflows** returns NULL. -/
theorem Caches.get_overflow (h : Caches seed cap timeout t s) (htimeout : b.IsTime timeout) (htimes : Lru.TimesIn b.Clock s)
    {key : Key} {c : V × Int} (hcurrent : Lru.current (foldKey t.ci) s.log key = some c)
    (hover : 2 ^ (b.bits - 1) ≤ c.2 + timeout) {now : Int} (hnow : 0 ≤ now) : (tableGet seed t key now).2 = none := by
  obtain ⟨k', hstored⟩ := Lru.current_stored hcurrent
  rcases h.cases key with ⟨C₁, e, C₂, l₁, p, l₂, hC, hk, hl, hkey, -, htime, -, -⟩ | ⟨C, hC, -, hk, -⟩
  · have hid : foldKey t.ci p.key = foldKey t.ci key := by rw [← hkey, hk]
    have hp := h.current (hl ▸ by simp) hid
    have hc : c.2 = p.time := congrArg Prod.snd (Option.some.inj (hcurrent.symm.trans hp))
    have hneg := timeT_neg (htimes _ _ _ hstored) htimeout hover
    rw [hc] at hneg
    have hf : t.fresh now e = false := by
      rw [Table.fresh, h.timed, h.timeout_eq, htime, Bool.true_and, Bool.not_eq_false', decide_eq_true_eq]
      exact hneg.le.trans hnow
    rw [hC.get_expired hk hf]
  · rw [hC.get_miss hk]

theorem Caches.evicted (h : Caches seed cap timeout t s) {C : List (Entry b V)} (hm : Items C s.items) :
    Items (t.evicted C) (Lru.evict cap s).items := by
  have hlen := hm.length
  unfold Table.evicted Lru.evict
  rw [h.capped, h.cap_eq, Bool.true_and, hlen]
  by_cases hfull : s.items.length = cap
  · rw [if_pos (by simpa using hfull), if_pos hfull]
    cases hi : s.items with
    | nil =>
      rw [hi] at hm
      rw [hi]
      exact hm.tail
    | cons p items =>
      rw [hi] at hm
      exact hm.tail
  · rw [if_neg (by simpa using hfull), if_neg hfull]
    exact hm

/-- **A set of a value**: the reference's update, or its eviction and its new item. -/
theorem Caches.put (h : Caches seed cap timeout t s) (hcap : 0 < cap) {key : Key} (hkey : Lws.Terminated key) (value : V)
    (now : Int) (hfit : (Lru.put (foldKey t.ci) cap now s key value).items.length ≤ maxLoad b) :
    (tableSet seed t key (some value) now ⟨true, true⟩).2 = 0 ∧
      Caches seed cap timeout (tableSet seed t key (some value) now ⟨true, true⟩).1
        (Lru.put (foldKey t.ci) cap now s key value) ∧
      (tableSet seed t key (some value) now ⟨true, true⟩).1.options = t.options := by
  have hco := h.coherent.put hcap now key value
  have hd := h.coherent.distinct
  rcases h.cases key with ⟨C₁, e, C₂, l₁, p, l₂, hC, hk, hl, hkey, hval, htime, h1, h2⟩ | ⟨C, hC, hm, hk, hk'⟩
  · have hid : foldKey t.ci key = Lru.ident (foldKey t.ci) p := by rw [Lru.ident, ← hkey, hk]
    obtain ⟨t', hset, ho, hH⟩ := hC.set_update hk value now ⟨true, true⟩
    rw [h.capped, if_pos rfl] at hH
    rw [hset]
    refine ⟨rfl, h.of_options ho hH ?_ hco, ho⟩
    rw [hl] at hd
    unfold Lru.put
    rw [hl, hid, Keyed.find_hit hd]
    dsimp only
    rw [Keyed.toTail_hit hd]
    refine (h1.append h2).concat ?_
    simp only [Table.updated, h.timed, if_true, hkey]
  · unfold Lru.put at hco hfit ⊢
    rw [Keyed.find_miss hk'] at hco hfit ⊢
    dsimp only at hco hfit ⊢
    have hev := h.evicted hm
    have hlen := hev.length
    obtain ⟨t', rc, hset, ho, ⟨rfl, e, hH⟩ | ⟨-, -, hwhy⟩⟩ := hC.set_new hk hkey value now ⟨true, true⟩
    · rw [hset]
      refine ⟨rfl, h.of_options ho hH (hev.concat ?_) hco, ho⟩
      simp only [newEntry, h.timed, if_true]
    · simp only [List.length_append, List.length_singleton] at hfit
      simp only [Bool.true_eq_false, false_or] at hwhy
      omega

theorem Caches.del (h : Caches seed cap timeout t s) (key : Key) (now : Int) (mem : SetAlloc) :
    (tableSet seed t key none now mem).2 = 0 ∧
      Caches seed cap timeout (tableSet seed t key none now mem).1 (Lru.del (foldKey t.ci) s key) ∧
      (tableSet seed t key none now mem).1.options = t.options := by
  have hco := h.coherent.del key
  have hd := h.coherent.distinct
  rcases h.cases key with ⟨C₁, e, C₂, l₁, p, l₂, hC, hk, hl, hkey, -, -, h1, h2⟩ | ⟨C, hC, hm, hk, hk'⟩
  · have hid : foldKey t.ci key = Lru.ident (foldKey t.ci) p := by rw [Lru.ident, ← hkey, hk]
    obtain ⟨t', hset, ho, hH⟩ := hC.set_remove hk now mem
    rw [hset]
    refine ⟨rfl, h.of_options ho hH ?_ hco, ho⟩
    rw [hl] at hd
    rw [Lru.del, hl, hid, Keyed.erase_hit hd]
    exact h1.append h2
  · rw [hC.set_absent hk]
    refine ⟨rfl, ⟨⟨C, hC, ?_⟩, h.timed, h.capped, h.cap_eq, h.timeout_eq, hco⟩, rfl⟩
    rw [Lru.del, Keyed.erase_miss hk']
    exact hm

theorem Items.head {C : List (Entry b V)} {l : List (Lru.Item Key V)} (h : Items C l) :
    C.head?.map (fun e => (e.key, e.value)) = l.head?.map (fun p => (p.key, some p.value)) := by
  cases C with
  | nil =>
    have : l = [] := List.length_eq_zero_iff.1 h.length.symm
    rw [this]
    rfl
  | cons e C =>
    cases l with
    | nil => exact absurd h.length (by simp)
    | cons p l =>
      have hp := Keyed.Agree.head h
      simp only [List.head?_cons, Option.map_some, Option.some.injEq, Prod.mk.injEq] at hp ⊢
      exact ⟨hp.1, hp.2.1⟩

theorem Caches.next (h : Caches seed cap timeout t s) (key : Option Key) :
    TableAnswer.entry (tableNext seed t key) = (lruCall t.ci cap timeout s (.next key)).2 := by
  cases key with
  | none =>
    obtain ⟨C, hC, hm⟩ := h.holds
    rw [hC.next_start, hm.head]
    rfl
  | some key =>
    have hd := h.coherent.distinct
    rcases h.cases key with ⟨C₁, e, C₂, l₁, p, l₂, hC, hk, hl, hkey, -, -, h1, h2⟩ | ⟨C, hC, hm, hk, hk'⟩
    · have hid : foldKey t.ci key = Lru.ident (foldKey t.ci) p := by rw [Lru.ident, ← hkey, hk]
      rw [hl] at hd
      rw [hC.next_key hk, h2.head, lruCall, hl, hid, Keyed.after_hit hd]
    · rw [hC.next_miss hk, lruCall, Keyed.after_miss hk']
      rfl

theorem Caches.call (h : Caches seed cap timeout t s) (hcap : 0 < cap) (htimeout : b.IsTime timeout)
    (htimes : Lru.TimesIn b.Clock s) (c : TableCall V) (htimely : ∀ key now, c = .get key now → Timely b t.ci timeout s key)
    (hkey : c.Terminated) (hmem : c.Allocates) (hfit : (lruCall t.ci cap timeout s c).1.items.length ≤ maxLoad b) :
    (tableCall seed t c).2 = (lruCall t.ci cap timeout s c).2 ∧
      Caches seed cap timeout (tableCall seed t c).1 (lruCall t.ci cap timeout s c).1 ∧
      (tableCall seed t c).1.options = t.options := by
  cases c with
  | set key value now mem =>
    obtain rfl : mem = ⟨true, true⟩ := hmem
    cases value with
    | some value =>
      obtain ⟨h1, h2, h3⟩ := h.put hcap hkey value now hfit
      exact ⟨congrArg TableAnswer.status h1, h2, h3⟩
    | none =>
      obtain ⟨h1, h2, h3⟩ := h.del key now ⟨true, true⟩
      exact ⟨congrArg TableAnswer.status h1, h2, h3⟩
  | get key now =>
    obtain ⟨h1, h2, h3⟩ := h.get htimeout htimes (htimely key now rfl) now
    exact ⟨congrArg TableAnswer.value h1, h2, h3⟩
  | next key =>
    refine ⟨h.next key, ?_, rfl⟩
    cases key <;> exact h
  | clear =>
    obtain ⟨C, hC, -⟩ := h.holds
    obtain ⟨hH, ho⟩ := hC.clear
    exact ⟨rfl, h.of_options ho hH Keyed.Agree.nil Lru.coherent_clear, ho⟩

theorem caches_create (seed : BitVec b.bits) {load : Nat} {c₁ c₂ : Bool} (hcreate : tableCreate b V load c₁ c₂ = some t)
    (dup free ci : Bool)
    (hcap : 0 < cap) (timeout : Int) :
    Caches seed cap timeout (tableConfigureCache t dup free ci cap timeout) {} ∧
      (tableConfigureCache t dup free ci cap timeout).ci = ci := by
  obtain ⟨hH, -⟩ := tableCreate_holds seed hcreate
  have hcount : t.count = 0 := hH.count
  have hconf : tableConfigureCache t dup free ci cap timeout = { t with
      dup := dup, free := free, ci := ci, cap := cap, capped := true, timeout := timeout, timed := true } := by
    have hc : ¬(cap < 1) := by omega
    simp [tableConfigureCache, tableConfigure, tableSetDup, tableSetFree, tableSetCi, tableSetCap, tableSetTimeout, hcount,
      hc]
  rw [hconf]
  exact ⟨⟨⟨[], hH.of_empty rfl rfl rfl rfl rfl, Keyed.Agree.nil⟩, rfl, rfl, rfl, rfl, Lru.coherent_empty⟩, rfl⟩

theorem Caches.count_le (h : Caches seed cap timeout t s) : t.count ≤ cap := by
  obtain ⟨C, hC, hm⟩ := h.holds
  rw [hC.count, hm.length]
  exact h.coherent.le_cap

theorem Caches.order (h : Caches seed cap timeout t s) : ∃ L : List Nat, Ring.IsRing t.order none (L.map some) ∧
    L.map (fun i => ((t.entries i).key, (t.entries i).value, (t.entries i).time)) =
      s.items.map (fun p => (p.key, some p.value, p.time)) := by
  obtain ⟨C, ⟨L, hL, rfl⟩, hm⟩ := h.holds
  refine ⟨L, hL.ring, Eq.trans ?_ hm⟩
  rw [List.map_map]
  rfl

end

/-- **A table is an LRU cache in a run**: after each part of it the table has at most `cap` entries and its order list is the list
of the reference; each call answers what the reference does; and each get returns the value last set for the key, unless the key
has been removed or evicted since or the value is `timeout` seconds old. -/
structure IsLruCache (seed : BitVec b.bits) (cap : Nat) (timeout : Int) (t : Table b V) (calls : List (TableCall V)) : Prop where
  bounded : ∀ pre, pre <+: calls → (tableRun seed t pre).1.count ≤ cap
  order : ∀ pre, pre <+: calls → ∃ L : List Nat, Ring.IsRing (tableRun seed t pre).1.order none (L.map some) ∧
    L.map (fun i => (((tableRun seed t pre).1.entries i).key, ((tableRun seed t pre).1.entries i).value,
      ((tableRun seed t pre).1.entries i).time)) =
    (lruRun t.ci cap timeout {} pre).1.items.map (fun p => (p.key, some p.value, p.time))
  answers : ∀ pre c, pre ++ [c] <+: calls → (tableCall seed (tableRun seed t pre).1 c).2 =
    (lruCall t.ci cap timeout (lruRun t.ci cap timeout {} pre).1 c).2
  current : ∀ pre key now, pre ++ [.get key now] <+: calls → (tableGet seed (tableRun seed t pre).1 key now).2 =
    ((Lru.current (foldKey t.ci) (lruRun t.ci cap timeout {} pre).1.log key).filter (fun c => now - c.2 < timeout)).map Prod.fst

section
variable {seed : BitVec b.bits} {cap : Nat} {timeout : Int} {t : Table b V} {calls : List (TableCall V)}

/-- **The relation holds after each part of a run**, if each get is timely where it does. -/
theorem Caches.run (h : Caches seed cap timeout t {}) (hcap : 0 < cap) (htimeout : b.IsTime timeout)
    (hkeys : ∀ c ∈ calls, c.Terminated) (hmem : ∀ c ∈ calls, c.Allocates) (hclock : ∀ c ∈ calls, c.TimeIn b.Clock)
    (hfit : ∀ pre, pre <+: calls → (lruRun t.ci cap timeout {} pre).1.items.length ≤ maxLoad b)
    (htimely : ∀ pre key now, pre ++ [.get key now] <+: calls →
      Caches seed cap timeout (tableRun seed t pre).1 (lruRun t.ci cap timeout {} pre).1 →
      (tableRun seed t pre).1.ci = t.ci → Lru.TimesIn b.Clock (lruRun t.ci cap timeout {} pre).1 →
      Timely b t.ci timeout (lruRun t.ci cap timeout {} pre).1 key) :
    ∀ pre, pre <+: calls → Caches seed cap timeout (tableRun seed t pre).1 (lruRun t.ci cap timeout {} pre).1 ∧
      (tableRun seed t pre).1.ci = t.ci ∧ Lru.TimesIn b.Clock (lruRun t.ci cap timeout {} pre).1 := by
  intro pre
  induction pre using List.reverseRecOn with
  | nil =>
    intro _
    exact ⟨h, rfl, Lru.timesIn_empty⟩
  | append_singleton pre c ih =>
    intro hpre
    obtain ⟨hc, hci, htimes⟩ := ih ((List.prefix_append pre [c]).trans hpre)
    have hmemc : c ∈ calls := hpre.subset (by simp)
    have hnext := hfit _ hpre
    rw [lruRun_concat] at hnext
    obtain ⟨-, hcall, ho⟩ := hc.call hcap htimeout htimes c
      (fun key now heq => by rw [hci]; exact htimely pre key now (heq ▸ hpre) hc hci htimes) (hkeys c hmemc) (hmem c hmemc)
      (by rw [hci]; exact hnext)
    rw [tableRun_concat, lruRun_concat]
    rw [hci] at hcall
    exact ⟨hcall, (options_ci ho).trans hci, lruCall_timesIn timeout htimes (hclock c hmemc)⟩

/-- **A run whose gets are timely** is that of an LRU cache, and no other is. -/
theorem Caches.isLruCache_iff (h : Caches seed cap timeout t {}) (hcap : 0 < cap) (htimeout : b.IsTime timeout)
    (hkeys : ∀ c ∈ calls, c.Terminated) (hmem : ∀ c ∈ calls, c.Allocates) (hclock : ∀ c ∈ calls, c.TimeIn b.Clock)
    (hfit : ∀ pre, pre <+: calls → (lruRun t.ci cap timeout {} pre).1.items.length ≤ maxLoad b) :
    IsLruCache seed cap timeout t calls ↔
      ∀ pre key now, pre ++ [.get key now] <+: calls → Timely b t.ci timeout (lruRun t.ci cap timeout {} pre).1 key := by
  constructor
  · intro hcache
    have htimely : ∀ pre key now, pre ++ [.get key now] <+: calls →
        Caches seed cap timeout (tableRun seed t pre).1 (lruRun t.ci cap timeout {} pre).1 →
        (tableRun seed t pre).1.ci = t.ci → Lru.TimesIn b.Clock (lruRun t.ci cap timeout {} pre).1 →
        Timely b t.ci timeout (lruRun t.ci cap timeout {} pre).1 key := by
      intro pre key now hpre hc hci htimes c hcurrent
      have hnow : b.Clock now := hclock (.get key now) (hpre.subset (by simp))
      by_contra hover
      have hnone := hc.get_overflow htimeout htimes (c := c) (by rw [hci]; exact hcurrent) (not_lt.1 hover) hnow.1
      have hanswer := hcache.current pre key now hpre
      have hlt := hnow.2.2
      rw [hnone, hcurrent, Option.filter_some_pos (by simp; omega)] at hanswer
      cases hanswer
    intro pre key now hpre
    obtain ⟨hc, hci, htimes⟩ := h.run hcap htimeout hkeys hmem hclock hfit htimely pre ((List.prefix_append pre _).trans hpre)
    exact htimely pre key now hpre hc hci htimes
  · intro htimely
    have hrun := h.run hcap htimeout hkeys hmem hclock hfit fun pre key now hpre _ _ _ => htimely pre key now hpre
    constructor
    case bounded => exact fun pre hpre => (hrun pre hpre).1.count_le
    case order => exact fun pre hpre => (hrun pre hpre).1.order
    case answers =>
      intro pre c hpre
      obtain ⟨hc, hci, htimes⟩ := hrun pre ((List.prefix_append pre _).trans hpre)
      have hmemc : c ∈ calls := hpre.subset (by simp)
      have hnext := hfit _ hpre
      rw [lruRun_concat] at hnext
      have hcall := hc.call hcap htimeout htimes c
        (fun key now heq => by rw [hci]; exact htimely pre key now (heq ▸ hpre)) (hkeys c hmemc) (hmem c hmemc)
        (by rw [hci]; exact hnext)
      rw [hci] at hcall
      exact hcall.1
    case current =>
      intro pre key now hpre
      obtain ⟨hc, hci, htimes⟩ := hrun pre ((List.prefix_append pre _).trans hpre)
      have hget := (hc.get htimeout htimes (by rw [hci]; exact htimely pre key now hpre) now).1
      have hco := hc.coherent
      rw [hci] at hget hco
      rw [hget, hco.get_eq]

end

end Lws

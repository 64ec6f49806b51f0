import Lws.TableCache
/-!
# StatCache — `lws_get_file_status`

The stat cache is a table with `dup`, a cap and a timeout.  The file system is an input: a call carries what `stat` would
answer at the moment of the call.  A run keeps the log of the calls to `stat` that were made.
-/
namespace Lws

/-- `lws_file_status_e`. -/
inductive FileStatus where
  | unknown
  | found
  | notFound
deriving DecidableEq, Repr

/-- `(void *)fs`: `LWS_FS_UNKNOWN` is NULL. -/
def FileStatus.toPtr : FileStatus → Option FileStatus
  | .unknown => none
  | fs => some fs

def FileStatus.ofPtr (p : Option FileStatus) : FileStatus := p.getD .unknown

/-- The stat cache that `lws_init_main_conf` makes; the outer `none` is `NGX_CONF_ERROR`, the inner one no cache. -/
def initStatCache (b : Build) (cap : Nat) (timeout : Int) (callocTable callocEntries : Bool) :
    Option (Option (Table b FileStatus)) :=
  if cap ≠ 0 then
    match tableCreate b FileStatus 32 callocTable callocEntries with
    | none => none
    | some t => some (some (tableSetTimeout (tableSetCap (tableSetDup t true).1 cap).1 timeout).1)
  else some none

/-- A call of `lws_get_file_status`: the file name, the time, whether `stat` would find a regular file, and the allocations
of the table. -/
structure StatCall where
  filename : Key
  now : Int
  isRegular : Bool
  mem : SetAlloc := {}

structure StatMade where
  filename : Key
  time : Int
  result : FileStatus

def StatCall.stat (c : StatCall) : FileStatus := if c.isRegular then .found else .notFound

variable {b : Build}

/-- `lws_get_file_status`: the cache afterwards, the answer, and the `stat` that was made, if any. -/
def getFileStatus (seed : BitVec b.bits) (statCache : Option (Table b FileStatus)) (c : StatCall) :
    Option (Table b FileStatus) × FileStatus × Option StatMade :=
  match statCache with
  | some t =>
    let (t, p) := tableGet seed t c.filename c.now
    let fs := FileStatus.ofPtr p
    if fs ≠ .unknown then (some t, fs, none)
    else
      let fs := c.stat
      (some (tableSet seed t c.filename fs.toPtr c.now c.mem).1, fs, some ⟨c.filename, c.now, fs⟩)
  | none => (none, c.stat, some ⟨c.filename, c.now, c.stat⟩)

/-- A sequence of calls: the cache, the calls to `stat` made so far, and the answers. -/
def statRun (seed : BitVec b.bits) (statCache : Option (Table b FileStatus)) (log : List StatMade) :
    List StatCall → Option (Table b FileStatus) × List StatMade × List FileStatus
  | [] => (statCache, log, [])
  | c :: calls =>
    let r := getFileStatus seed statCache c
    let r' := statRun seed r.1 (log ++ r.2.2.toList) calls
    (r'.1, r'.2.1, r.2.1 :: r'.2.2)

/-- **An answer is fresh**: it is the result of a `stat` of the file name made in this call, or earlier and less than
`timeout` seconds ago. -/
def FreshAnswer (timeout : Int) (log : List StatMade) (c : StatCall) (made : Option StatMade) (fs : FileStatus) : Prop :=
  made = some ⟨c.filename, c.now, fs⟩ ∧ fs = c.stat ∨
    ∃ s ∈ log, s.filename = c.filename ∧ s.result = fs ∧ c.now - s.time < timeout

structure Seen (seed : BitVec b.bits) (timeout : Int) (t : Table b FileStatus) (log : List StatMade) : Prop where
  holds : ∃ C, Holds seed t C ∧ ∀ e ∈ C, ∃ s ∈ log, e.key = s.filename ∧ e.value = some s.result ∧ e.time = s.time
  timed : t.timed = true
  timeout_eq : t.timeout = timeout
  ci : t.ci = false
  isTime : b.IsTime timeout
  times : ∀ s ∈ log, b.Clock s.time

section
variable {seed : BitVec b.bits} {timeout : Int} {t t' : Table b FileStatus} {log : List StatMade}

theorem Seen.of_options (h : Seen seed timeout t log) (ho : t'.options = t.options) {C : List (Entry b FileStatus)}
    (hC : Holds seed t' C) {log' : List StatMade}
    (hs : ∀ e ∈ C, ∃ s ∈ log', e.key = s.filename ∧ e.value = some s.result ∧ e.time = s.time)
    (htimes : ∀ s ∈ log', b.Clock s.time) : Seen seed timeout t' log' :=
  ⟨⟨C, hC, hs⟩, (options_timed ho).trans h.timed, (options_timeout ho).trans h.timeout_eq, (options_ci ho).trans h.ci,
    h.isTime, htimes⟩

theorem Seen.get (h : Seen seed timeout t log) (key : Key) (now : Int) :
    Seen seed timeout (tableGet seed t key now).1 log ∧ ∀ fs, (tableGet seed t key now).2 = some fs →
      ∃ s ∈ log, s.filename = key ∧ s.result = fs ∧ now - s.time < timeout := by
  obtain ⟨C, hC, hs⟩ := h.holds
  rcases Keyed.split_cases (fun e : Entry b FileStatus => foldKey t.ci e.key) (foldKey t.ci key) C with
    ⟨e, C₁, C₂, hk, rfl⟩ | hk
  · cases hf : t.fresh now e with
    | false =>
      rw [hC.get_expired hk hf]
      exact ⟨h, fun fs he => by cases he⟩
    | true =>
      obtain ⟨t', hget, ho, hH⟩ := hC.get_hit hk hf
      rw [hget]
      refine ⟨h.of_options ho hH (fun e' he' => hs e' ?_) h.times, fun fs he => ?_⟩
      · split at he'
        · exact (Lru.perm_concat C₁ C₂ e).subset he'
        · exact he'
      · obtain ⟨s, hsl, hkey, hval, htime⟩ := hs e (by simp)
        have hkey' : e.key = key := by simpa [foldKey, h.ci] using hk
        rw [Table.fresh, h.timed, h.timeout_eq, Bool.true_and] at hf
        have hlt : now < b.timeT (e.time + timeout) := by simpa using hf
        -- a sum that overflows is smaller yet, so that it never makes an old entry fresh
        have hle := timeT_add_le (h.times s hsl) h.isTime
        rw [htime] at hlt
        exact ⟨s, hsl, hkey.symm.trans hkey', Option.some.inj (hval.symm.trans he), by omega⟩
  · rw [hC.get_miss hk]
    exact ⟨h, fun fs he => by cases he⟩

theorem Seen.set (h : Seen seed timeout t log) {key : Key} (hkey : Terminated key) (fs : FileStatus) {now : Int}
    (hnow : b.Clock now) (mem : SetAlloc) :
    Seen seed timeout (tableSet seed t key (some fs) now mem).1 (log ++ [⟨key, now, fs⟩]) := by
  obtain ⟨C, hC, hs⟩ := h.holds
  have hold : ∀ e ∈ C, ∃ s ∈ log ++ [⟨key, now, fs⟩], e.key = s.filename ∧ e.value = some s.result ∧ e.time = s.time :=
    fun e he => (hs e he).imp fun s hsl => ⟨List.mem_append_left _ hsl.1, hsl.2⟩
  have hmade : (⟨key, now, fs⟩ : StatMade) ∈ log ++ [⟨key, now, fs⟩] := by simp
  have htimes : ∀ s ∈ log ++ [⟨key, now, fs⟩], b.Clock s.time := by
    intro s hsl
    rcases List.mem_append.1 hsl with hm | hm
    · exact h.times s hm
    · rw [List.mem_singleton.1 hm]
      exact hnow
  rcases Keyed.split_cases (fun e : Entry b FileStatus => foldKey t.ci e.key) (foldKey t.ci key) C with
    ⟨e, C₁, C₂, hk, rfl⟩ | hk
  · obtain ⟨t', hset, ho, hH⟩ := hC.set_update hk fs now mem
    rw [hset]
    refine h.of_options ho hH (fun e' he' => ?_) htimes
    have hkey' : e.key = key := by simpa [foldKey, h.ci] using hk
    have hmem : e' ∈ C₁ ++ t.updated fs now e :: C₂ := by
      split at he'
      · exact (Lru.perm_concat C₁ C₂ _).subset he'
      · exact he'
    rcases List.mem_append.1 hmem with hm | hm
    · exact hold e' (by simp [hm])
    · rcases List.mem_cons.1 hm with rfl | hm
      · exact ⟨_, hmade, hkey', rfl, by simp [Table.updated, h.timed]⟩
      · exact hold e' (by simp [hm])
  · obtain ⟨t', rc, hset, ho, ⟨-, e, hH⟩ | ⟨-, hH, -⟩⟩ := hC.set_new hk hkey fs now mem
    · rw [hset]
      refine h.of_options ho hH (fun e' he' => ?_) htimes
      rcases List.mem_append.1 he' with hm | hm
      · exact hold e' ((t.evicted_sublist C).subset hm)
      · rw [List.mem_singleton.1 hm]
        exact ⟨_, hmade, rfl, rfl, by simp [newEntry, h.timed]⟩
    · rw [hset]
      exact h.of_options ho hH (fun e' he' => hold e' ((t.evicted_sublist C).subset he')) htimes

/-- **One call of `lws_get_file_status`** gives a fresh answer, and the cache holds what `stat` has seen. -/
theorem getFileStatus_fresh {statCache : Option (Table b FileStatus)} (h : ∀ t, statCache = some t → Seen seed timeout t log)
    (c : StatCall) (hkey : Terminated c.filename) (hnow : b.Clock c.now) :
    FreshAnswer timeout log c (getFileStatus seed statCache c).2.2 (getFileStatus seed statCache c).2.1 ∧
      ∀ t, (getFileStatus seed statCache c).1 = some t →
        Seen seed timeout t (log ++ (getFileStatus seed statCache c).2.2.toList) := by
  cases statCache with
  | none => exact ⟨.inl ⟨rfl, rfl⟩, fun t ht => by cases ht⟩
  | some t =>
    obtain ⟨hget, hfs⟩ := (h t rfl).get c.filename c.now
    have hptr : c.stat.toPtr = some c.stat := by
      unfold StatCall.stat
      split <;> rfl
    unfold getFileStatus
    dsimp only
    by_cases hun : FileStatus.ofPtr (tableGet seed t c.filename c.now).2 = .unknown
    · rw [if_neg (not_not.2 hun), hptr]
      refine ⟨.inl ⟨rfl, rfl⟩, fun t₁ ht₁ => ?_⟩
      cases ht₁
      exact hget.set hkey c.stat hnow c.mem
    · rw [if_pos hun]
      refine ⟨?_, fun t₁ ht₁ => ?_⟩
      · cases hp : (tableGet seed t c.filename c.now).2 with
        | none => exact absurd (by rw [hp]; rfl) hun
        | some fs => exact .inr (hfs fs hp)
      · cases ht₁
        simpa using hget

theorem statRun_seen : ∀ (calls : List StatCall) {cache : Option (Table b FileStatus)} {log : List StatMade},
    (∀ t, cache = some t → Seen seed timeout t log) → (∀ c ∈ calls, Terminated c.filename) →
    (∀ c ∈ calls, b.Clock c.now) →
    ∀ t, (statRun seed cache log calls).1 = some t → Seen seed timeout t (statRun seed cache log calls).2.1
  | [], _, _, h, _, _ => h
  | c :: calls, _, _, h, hkeys, hclock =>
    statRun_seen calls (getFileStatus_fresh h c (hkeys c (by simp)) (hclock c (by simp))).2
      (fun c hc => hkeys c (by simp [hc])) (fun c hc => hclock c (by simp [hc]))

theorem statRun_log : ∀ (calls : List StatCall) {cache : Option (Table b FileStatus)} {log : List StatMade},
    ∀ s ∈ (statRun seed cache log calls).2.1, s ∈ log ∨ ∃ c ∈ calls, s = ⟨c.filename, c.now, c.stat⟩
  | [], _, _, s, hs => .inl hs
  | c :: calls, cache, log, s, hs => by
    rcases statRun_log calls s hs with hm | ⟨c', hc', rfl⟩
    · rcases List.mem_append.1 hm with hm | hm
      · exact .inl hm
      · refine .inr ⟨c, by simp, ?_⟩
        unfold getFileStatus at hm
        cases cache with
        | none => simpa using hm
        | some t =>
          dsimp only at hm
          split at hm
          · simp at hm
          · simpa using hm
    · exact .inr ⟨c', by simp [hc'], rfl⟩

theorem initStatCache_seen (seed : BitVec b.bits) (htimeout : b.IsTime timeout) {cap : Nat} {c₁ c₂ : Bool}
    {cache : Option (Table b FileStatus)} (h : initStatCache b cap timeout c₁ c₂ = some cache) :
    ∀ t, cache = some t → Seen seed timeout t [] := by
  rintro t rfl
  unfold initStatCache at h
  split at h
  · rename_i hcap
    split at h
    · cases h
    · rename_i t₀ hcreate
      obtain ⟨hH, ho⟩ := tableCreate_holds seed hcreate
      have hcount : t₀.count = 0 := hH.count
      simp only [Option.some.injEq] at h
      subst h
      have hc : ¬(cap < 1) := by omega
      have hconf : (tableSetTimeout (tableSetCap (tableSetDup t₀ true).1 cap).1 timeout).1 =
          { t₀ with dup := true, cap := cap, capped := true, timeout := timeout, timed := true } := by
        simp [tableSetDup, tableSetCap, tableSetTimeout, hcount, hc]
      rw [hconf]
      exact ⟨⟨[], hH.of_empty rfl rfl rfl rfl rfl, by simp⟩, rfl, rfl, congrArg Options.ci ho, htimeout, by simp⟩
  · cases h

end

/-- **A capped, timed table is a bounded, fresh LRU cache** in a run, exactly when at each get of a stored key the time of its last
set plus the timeout is a `time_t`.  An answer of `lws_get_file_status` is fresh in any case: a sum that overflows makes a fresh
entry old, never an old one fresh. -/
theorem table_is_lru_cache_iff {V : Type} (seed : BitVec b.bits) (cap : Nat) (timeout : Int) (htimeout : b.IsTime timeout) :
    (∀ (load : Nat) (t : Table b V), tableCreate b V load true true = some t → 0 < cap →
      ∀ (dup free ci : Bool) (calls : List (TableCall V)), (∀ c ∈ calls, c.Terminated) → (∀ c ∈ calls, c.Allocates) →
      (∀ c ∈ calls, c.TimeIn b.Clock) →
      (∀ pre, pre <+: calls → (lruRun ci cap timeout {} pre).1.items.length ≤ maxLoad b) →
      (IsLruCache seed cap timeout (tableConfigureCache t dup free ci cap timeout) calls ↔
        ∀ pre key now, pre ++ [.get key now] <+: calls → Timely b ci timeout (lruRun ci cap timeout {} pre).1 key)) ∧
    (∀ (cache : Option (Table b FileStatus)), initStatCache b cap timeout true true = some cache →
      ∀ (pre : List StatCall) (c : StatCall), (∀ c' ∈ pre ++ [c], Terminated c'.filename) →
      (∀ c' ∈ pre ++ [c], b.Clock c'.now) → (pre ++ [c]).Pairwise (fun c c' => c.now ≤ c'.now) →
      let r := statRun seed cache [] pre
      let a := getFileStatus seed r.1 c
      FreshAnswer timeout r.2.1 c a.2.2 a.2.1 ∧ ∀ s ∈ r.2.1, s.time ≤ c.now ∧ ∃ c' ∈ pre, s = ⟨c'.filename, c'.now, c'.stat⟩) := by
  constructor
  · intro load t hcreate hcap dup free ci calls hkeys hmem hclock hfit
    obtain ⟨h0, hci⟩ := caches_create seed hcreate dup free ci hcap timeout
    rw [h0.isLruCache_iff hcap htimeout hkeys hmem hclock (by rw [hci]; exact hfit), hci]
  · intro cache hinit pre c hkeys hclock hmono
    have hseen := statRun_seen pre (initStatCache_seen seed htimeout hinit) (fun c' hc' => hkeys c' (by simp [hc']))
      (fun c' hc' => hclock c' (by simp [hc']))
    refine ⟨(getFileStatus_fresh hseen c (hkeys c (by simp)) (hclock c (by simp))).1, fun s hs => ?_⟩
    rcases statRun_log pre s hs with hm | ⟨c', hc', rfl⟩
    · cases hm
    · exact ⟨(List.pairwise_append.1 hmono).2.2 c' hc' c (by simp), c', hc', rfl⟩

/-- **A timeout of twenty years on 32 bits**: an entry that has been set in this second is answered NULL. -/
theorem table_is_not_lru_cache : ∃ t : Table .b32 Nat, tableCreate .b32 Nat 1 true true = some t ∧
    ¬ IsLruCache (b := .b32) 7 2 630720000 (tableConfigureCache t true false false 2 630720000)
      [.set [97] (some 1) 1700000000 {}, .get [97] 1700000000] := by
  obtain ⟨t, ht⟩ := Option.isSome_iff_exists.1
    (show (tableCreate .b32 Nat 1 true true).isSome = true by decide +kernel)
  have hnone : ((tableCreate .b32 Nat 1 true true).map fun t => (tableGet (b := .b32) 7 (tableRun (b := .b32) 7
      (tableConfigureCache t true false false 2 630720000) [.set [97] (some 1) 1700000000 {}]).1 [97] 1700000000).2) =
      some none := by decide +kernel
  refine ⟨t, ht, fun h => ?_⟩
  have hget := h.current [.set [97] (some 1) 1700000000 {}] [97] 1700000000 (List.prefix_refl _)
  rw [ht, Option.map_some, Option.some.injEq] at hnone
  rw [hnone, (caches_create (b := .b32) 7 ht true false false (by decide) 630720000).2] at hget
  exact absurd hget (by decide +kernel)

/-- A cache of two: the third file name evicts the one that was not used again. -/
theorem table_is_lru_cache_two : ∃ t : Table .b64 Nat, tableCreate .b64 Nat 1 true true = some t ∧
    IsLruCache (b := .b64) 7 2 30 (tableConfigureCache t true false false 2 30) [.set [97] (some 1) 0 {},
      .set [98] (some 2) 1 {}, .get [97] 2, .set [99] (some 3) 3 {}, .get [98] 4, .get [97] 4, .get [97] 30] ∧
    ∃ cache, initStatCache .b64 2 30 true true = some cache ∧
      (let r := statRun (b := .b64) 7 cache [] [⟨[97], 0, true, {}⟩]
       let c : StatCall := ⟨[97], 29, false, {}⟩
       let a := getFileStatus (b := .b64) 7 r.1 c
       FreshAnswer 30 r.2.1 c a.2.2 a.2.1) := by
  obtain ⟨t, ht⟩ := Option.isSome_iff_exists.1
    (show (tableCreate .b64 Nat 1 true true).isSome = true by decide +kernel)
  obtain ⟨cache, hcache⟩ := Option.isSome_iff_exists.1
    (show (initStatCache .b64 2 30 true true).isSome = true by decide +kernel)
  have hle : 2 ≤ maxLoad .b64 := by decide +kernel
  have h := table_is_lru_cache_iff (V := Nat) (b := .b64) 7 2 30 (by norm_num [Build.IsTime, Build.bits])
  refine ⟨t, ht, (h.1 1 t ht (by decide) true false false _ ?_ ?_ ?_ fun pre _ => ?_).2 ?_, cache, hcache, ?_⟩
  · simp [TableCall.Terminated, Terminated]
  · simp [TableCall.Allocates]
  · norm_num [TableCall.TimeIn, Build.Clock, Build.IsTime, Build.bits]
  · exact (lruRun_coherent (by decide) 30 pre Lru.coherent_empty).le_cap.trans hle
  · intro pre key now hpre c hc
    obtain ⟨k', hk'⟩ := Lru.current_stored hc
    have hall : ∀ c ∈ [TableCall.set [97] (some 1) 0 {}, .set [98] (some 2) 1 {}, .get [97] 2, .set [99] (some 3) 3 {},
        .get [98] 4, .get [97] 4, .get [97] 30], c.TimeIn (· ≤ 30) := by simp [TableCall.TimeIn]
    have htime : c.2 ≤ 30 := lruRun_timesIn (P := (· ≤ 30)) 30 pre Lru.timesIn_empty
      (fun c hc => hall c (((List.prefix_append pre _).trans hpre).subset hc)) _ _ _ hk'
    have hlt : (60 : Int) < 2 ^ (Build.b64.bits - 1) := by norm_num [Build.bits]
    omega
  · exact (h.2 cache hcache [⟨[97], 0, true, {}⟩] ⟨[97], 29, false, {}⟩ (by simp [Terminated])
      (by norm_num [Build.Clock, Build.IsTime, Build.bits]) (by simp)).1

end Lws

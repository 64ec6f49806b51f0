import Lws.Profile
/-!
# Profiler — the hook of the profiler (`lws_profiler.c`)

Lua calls the hook at each call and at each return.  The hook names a function by a key, has one activation record a key, and
keeps the records of the active functions on a stack.  `KeyProfiler` is the same with keys for pointers and a function for the
table; `Profiled` relates the two, and while clocks and allocations succeed each hook keeps it (`Profiled.hook`).
-/
namespace Lws

/-! ## Times and memory -/

def lwsAddTimespecDelta (base start stop : Timespec) : Timespec :=
  let t : Timespec := ⟨base.sec + (stop.sec - start.sec), base.nsec + (stop.nsec - start.nsec)⟩
  if t.nsec < 0 then ⟨t.sec - 1, t.nsec + 1000000000⟩
  else if t.nsec > 1000000000 then ⟨t.sec + 1, t.nsec - 1000000000⟩
  else t

def lwsAddMemoryDelta {w : Nat} (base start stop : BitVec w) : BitVec w :=
  if stop > start then base + (stop - start) else base

@[simp] theorem lwsAddTimespecDelta_nanos (base start stop : Timespec) :
    (lwsAddTimespecDelta base start stop).nanos = base.nanos + (stop.nanos - start.nanos) := by
  unfold lwsAddTimespecDelta Timespec.nanos
  dsimp only
  split
  · dsimp only
    omega
  · split
    · dsimp only
      omega
    · dsimp only
      omega

/-! ## Hooks -/

/-- `ar->event`: `LUA_HOOKCALL`, `LUA_HOOKRET`, and `LUA_HOOKTAILCALL`, which is `LUA_HOOKTAILRET` before Lua 5.2. -/
inductive HookEvent where
  | call
  | ret
  | tailCall
deriving DecidableEq

def HookEvent.leaves (e : HookEvent) : Bool := e = .tailCall || e = .ret

def HookEvent.enters (e : HookEvent) : Bool := e = .call || e = .tailCall

/-- What `lua_getinfo` fills in; the texts are C strings. -/
structure HookInfo where
  name : Option Key := none
  what : Key := literal "Lua"
  shortSrc : Key := []
  linedefined : Int := 0

/-- The key of a function, as `ngx_slprintf` writes it to a buffer of `LWS_PROFILER_KEY_MAX` bytes. -/
def functionKey (info : HookInfo) : Key :=
  let name :=
    match info.name with
    | some name => name
    | none =>
      if info.what.head? = some 109 then literal "main chunk"
      else if info.what.head? = some 76 then literal "anonymous function"
      else literal "?"
  let key :=
    if info.linedefined > 0 then
      cString info.shortSrc ++ literal ":" ++ literal (toString info.linedefined.toNat) ++ literal ": " ++ cString name
    else cString info.shortSrc ++ literal ": " ++ cString name
  key.take 256

/-- A call of the hook: the event, what `lua_getinfo` knows, the two readings of the clock (`none` where `clock_gettime` fails),
`LUA_GCCOUNT` and `LUA_GCCOUNTB`, the time of the table, and which allocations succeed: of an activation record, of the table,
and of a larger stack. -/
structure Hook where
  event : HookEvent
  info : HookInfo := {}
  enter : Option Timespec := some {}
  leave : Option Timespec := some {}
  gcCount : Int := 0
  gcCountB : Int := 0
  now : Int := 0
  record : Bool := true
  set : SetAlloc := {}
  grow : Bool := true

def Hook.memory (h : Hook) (w : Nat) : BitVec w := BitVec.ofInt w h.gcCount * 1024 + BitVec.ofInt w h.gcCountB

/-! ## Activation records -/

/-- `lws_activation_record_t`; `depth` is an integer, as it is at most the size of the stack. -/
structure ActivationRecord (w : Nat) extends Measure w where
  depth : Int := 0
  timeSelfStart : Timespec := {}
  timeTotalStart : Timespec := {}
  memoryStart : BitVec w := 0
deriving DecidableEq

/-- "process function exit", for the record on top. -/
def ActivationRecord.exit {w : Nat} (par : ActivationRecord w) (event : HookEvent) (time : Timespec) (memory : BitVec w) :
    ActivationRecord w :=
  let par := { par with
    timeSelf := lwsAddTimespecDelta par.timeSelf par.timeSelfStart time
    memory := lwsAddMemoryDelta par.memory par.memoryStart memory }
  if event.leaves then
    let par := { par with depth := par.depth - 1 }
    if par.depth = 0 then { par with timeTotal := lwsAddTimespecDelta par.timeTotal par.timeTotalStart time } else par
  else par

/-- "process function entry", for the record on top. -/
def ActivationRecord.enter {w : Nat} (par : ActivationRecord w) (event : HookEvent) (time : Timespec) (memory : BitVec w) :
    ActivationRecord w :=
  let par := { par with timeSelfStart := time, memoryStart := memory }
  if event.enters then
    let par := if par.depth = 0 then { par with timeTotalStart := time } else par
    { par with depth := par.depth + 1, calls := par.calls + 1 }
  else par

/-! ## The hook -/

/-- `lws_profiler_t`.  A pointer to an activation record is its place in `records`, in order of allocation; `stack` is
`stack[0..stack_n)`, the last first. -/
structure Profiler (b : Build) where
  functions : Table b Nat
  records : List (ActivationRecord b.bits) := []
  stack : List Nat := []
  stackAlloc : Nat := 32

/-- How a hook ends: `error` is a `luaL_error`, and `fault` an access outside the records or the stack. -/
inductive HookEnd where
  | done
  | error
  | fault
deriving DecidableEq

variable {b : Build}

/-- "process function exit". -/
def Profiler.exit (p : Profiler b) (event : HookEvent) (time : Timespec) (memory : BitVec b.bits) : Option (Profiler b) :=
  match p.stack with
  | [] => some p
  | par :: stack =>
    match p.records[par]? with
    | none => none
    | some record => some { p with
        records := p.records.set par (record.exit event time memory)
        stack := if event.leaves then stack else par :: stack }

/-- "get or create activation record"; `none` is an error. -/
def Profiler.getOrCreate (seed : BitVec b.bits) (p : Profiler b) (h : Hook) : Profiler b × Option Nat :=
  match tableGet seed p.functions (functionKey h.info) h.now with
  | (functions, some par) => ({ p with functions := functions }, some par)
  | (functions, none) =>
    if h.record = false then ({ p with functions := functions }, none)
    else
      let par := p.records.length
      let r := tableSet seed functions (functionKey h.info) (some par) h.now h.set
      if r.2 ≠ 0 then ({ p with functions := r.1 }, none)
      else ({ p with functions := r.1, records := p.records ++ [{}] }, some par)

/-- "grow stack as needed"; `none` is an error. -/
def Profiler.growStack (p : Profiler b) (h : Hook) : Option (Profiler b) :=
  if p.stack.length = p.stackAlloc then
    if h.grow then some { p with stackAlloc := p.stackAlloc * 2 } else none
  else some p

/-- "process function entry". -/
def Profiler.enter (p : Profiler b) (h : Hook) : Profiler b × HookEnd :=
  match p.stack with
  | [] => (p, .done)
  | par :: _ =>
    match h.leave with
    | none => (p, .error)
    | some time =>
      match p.records[par]? with
      | none => (p, .fault)
      | some record => ({ p with records := p.records.set par (record.enter h.event time (h.memory b.bits)) }, .done)

/-- "transition", of an event that enters a function, and "process function entry". -/
def Profiler.push (seed : BitVec b.bits) (p : Profiler b) (h : Hook) : Profiler b × HookEnd :=
  match p.getOrCreate seed h with
  | (p, none) => (p, .error)
  | (p, some par) =>
    match p.growStack h with
    | none => (p, .error)
    | some p =>
      if p.stack.length < p.stackAlloc then Profiler.enter { p with stack := par :: p.stack } h else (p, .fault)

def lwsProfilerHook (seed : BitVec b.bits) (p : Profiler b) (h : Hook) : Profiler b × HookEnd :=
  match h.enter with
  | none => (p, .error)
  | some time =>
    match p.exit h.event time (h.memory b.bits) with
    | none => (p, .fault)
    | some p => if h.event.enters then p.push seed h else p.enter h

/-- The profiler that `lws_start_profiler` makes; `stack` says whether the allocation of the stack succeeds. -/
def lwsStartProfiler (b : Build) (table entries stack : Bool) : Option (Profiler b) :=
  match tableCreate b Nat 32 table entries with
  | none => none
  | some t => if stack then some { functions := tableConfigure t true true false } else none

def Profiler.run (seed : BitVec b.bits) (p : Profiler b) : List Hook → Option (Profiler b)
  | [] => some p
  | h :: hooks =>
    match lwsProfilerHook seed p h with
    | (p, .done) => p.run seed hooks
    | _ => none

/-! ## The profiler over keys -/

structure KeyProfiler (w : Nat) where
  recs : Key → ActivationRecord w := fun _ => {}
  stack : List Key := []

section
variable {w : Nat}

def KeyProfiler.exit (k : KeyProfiler w) (event : HookEvent) (time : Timespec) (memory : BitVec w) : KeyProfiler w :=
  match k.stack with
  | [] => k
  | key :: stack =>
    ⟨Function.update k.recs key ((k.recs key).exit event time memory), if event.leaves then stack else key :: stack⟩

def KeyProfiler.enter (k : KeyProfiler w) (event : HookEvent) (time : Timespec) (memory : BitVec w) : KeyProfiler w :=
  match k.stack with
  | [] => k
  | key :: stack => ⟨Function.update k.recs key ((k.recs key).enter event time memory), key :: stack⟩

def Hook.started (h : Hook) : Timespec := h.enter.getD {}

def Hook.ended (h : Hook) : Timespec := h.leave.getD {}

def Hook.key (h : Hook) : Key := functionKey h.info

def Hook.stack (stack : List Key) (h : Hook) : List Key :=
  match h.event with
  | .call => h.key :: stack
  | .ret => stack.tail
  | .tailCall => h.key :: stack.tail

def KeyProfiler.push (k : KeyProfiler w) (h : Hook) : KeyProfiler w :=
  if h.event.enters then ⟨k.recs, h.key :: k.stack⟩ else k

def KeyProfiler.hook (k : KeyProfiler w) (h : Hook) : KeyProfiler w :=
  ((k.exit h.event h.started (h.memory w)).push h).enter h.event h.ended (h.memory w)

structure Hook.Succeeds (h : Hook) : Prop where
  enter : h.enter.isSome = true
  leave : h.leave.isSome = true
  record : h.record = true
  set : h.set = ⟨true, true⟩
  grow : h.grow = true

def calledKeys (hooks : List Hook) : List Key := (hooks.filter fun h => h.event.enters).map Hook.key

theorem KeyProfiler.exit_stack (k : KeyProfiler w) (event : HookEvent) (time : Timespec) (memory : BitVec w) :
    (k.exit event time memory).stack = if event.leaves then k.stack.tail else k.stack := by
  obtain ⟨recs, _ | ⟨key, stack⟩⟩ := k
  · exact (ite_self _).symm
  · rfl

theorem KeyProfiler.enter_stack (k : KeyProfiler w) (event : HookEvent) (time : Timespec) (memory : BitVec w) :
    (k.enter event time memory).stack = k.stack := by
  obtain ⟨recs, _ | ⟨key, stack⟩⟩ := k
  · rfl
  · rfl

theorem KeyProfiler.exit_nil {k : KeyProfiler w} (hs : k.stack = []) (event : HookEvent) (time : Timespec) (memory : BitVec w) :
    k.exit event time memory = k := by
  rw [KeyProfiler.exit, hs]

theorem KeyProfiler.exit_recs {k : KeyProfiler w} {key : Key} {stack : List Key} (hs : k.stack = key :: stack)
    (event : HookEvent) (time : Timespec) (memory : BitVec w) :
    (k.exit event time memory).recs = Function.update k.recs key ((k.recs key).exit event time memory) := by
  rw [KeyProfiler.exit, hs]

theorem KeyProfiler.enter_nil {k : KeyProfiler w} (hs : k.stack = []) (event : HookEvent) (time : Timespec) (memory : BitVec w) :
    k.enter event time memory = k := by
  rw [KeyProfiler.enter, hs]

theorem KeyProfiler.enter_recs {k : KeyProfiler w} {key : Key} {stack : List Key} (hs : k.stack = key :: stack)
    (event : HookEvent) (time : Timespec) (memory : BitVec w) :
    (k.enter event time memory).recs = Function.update k.recs key ((k.recs key).enter event time memory) := by
  rw [KeyProfiler.enter, hs]

theorem KeyProfiler.push_stack (k : KeyProfiler w) (h : Hook) :
    (k.push h).stack = if h.event.enters then h.key :: k.stack else k.stack := by
  unfold KeyProfiler.push
  split
  · rfl
  · rfl

theorem KeyProfiler.hook_stack (k : KeyProfiler w) (h : Hook) : (k.hook h).stack = h.stack k.stack := by
  rw [KeyProfiler.hook, KeyProfiler.enter_stack, KeyProfiler.push_stack, KeyProfiler.exit_stack, Hook.stack]
  cases h.event with
  | call => rfl
  | ret => rfl
  | tailCall => rfl

end

/-! ## Keys are C strings -/

theorem literal_digits (n : Nat) : 0 ∉ literal (toString n) := by
  intro h
  rw [literal, Nat.toString_eq_repr, Nat.toList_repr] at h
  obtain ⟨c, hc, h0⟩ := List.mem_map.1 h
  have hd := Nat.isDigit_of_mem_toDigits (by decide) (by decide) hc
  simp only [Char.isDigit, Bool.and_eq_true, decide_eq_true_eq] at hd
  have h1 : 48 ≤ c.toNat := hd.1
  have h2 : c.toNat ≤ 57 := hd.2
  have := congrArg UInt8.toNat h0
  simp at this
  omega

theorem functionKey_zero (info : HookInfo) : 0 ∉ functionKey info := by
  intro h
  have h := List.mem_of_mem_take h
  have hcolon : (0 : UInt8) ∉ literal ":" := by decide
  have hspace : (0 : UInt8) ∉ literal ": " := by decide
  split at h
  · simp only [List.mem_append, cString_zero, literal_digits, hcolon, hspace, or_self] at h
  · simp only [List.mem_append, cString_zero, hspace, or_self] at h

theorem functionKey_terminated (info : HookInfo) : Terminated (functionKey info) :=
  fun h => functionKey_zero info (List.mem_of_mem_dropLast h)

/-! ## The relation -/

def Hook.addTo (keys : List Key) (h : Hook) : List Key := if h.event.enters then addKey keys h.key else keys

def Profiler.get (seed : BitVec b.bits) (p : Profiler b) (key : Key) : Option (ActivationRecord b.bits) :=
  (tableGet seed p.functions key 0).2.bind (p.records[·]?)

def Profiler.totals (seed : BitVec b.bits) (p : Profiler b) (key : Key) : BitVec b.bits × BitVec b.bits × Int × Int :=
  ((p.get seed key).map fun par => par.totals).getD 0

/-- **A profiler and its keys**: the table has the place of each key, in order of first entry, and the stack the places of its
keys. -/
structure Profiled (seed : BitVec b.bits) (p : Profiler b) (keys : List Key) (k : KeyProfiler b.bits) : Prop where
  table : Refines seed p.functions keys.zipIdx
  ci : p.functions.ci = false
  records : p.records = keys.map k.recs
  fresh : ∀ key, key ∉ keys → k.recs key = {}
  stack : List.Forall₂ (fun par key => keys[par]? = some key) p.stack k.stack
  room : p.stack.length ≤ p.stackAlloc
  alloc : 0 < p.stackAlloc

section
variable {seed : BitVec b.bits} {p : Profiler b} {keys : List Key} {k : KeyProfiler b.bits}

theorem Profiled.distinct (h : Profiled seed p keys k) : Keyed.Distinct (foldKey false) keys := by
  have hd := h.table.distinct
  rw [h.ci] at hd
  have hkeys : (keys.zipIdx.map Prod.fst).Pairwise fun key key' => foldKey false key ≠ foldKey false key' :=
    List.pairwise_map.2 hd
  rw [List.zipIdx_map_fst] at hkeys
  exact hkeys

theorem Profiled.nodup (h : Profiled seed p keys k) : keys.Nodup := h.distinct

theorem records_set {X : Type} {keys : List Key} (hd : keys.Nodup) (f : Key → X) {par : Nat} {key : Key}
    (hpar : keys[par]? = some key) (x : X) : (keys.map f).set par x = keys.map (Function.update f key x) := by
  obtain ⟨hlt, rfl⟩ := List.getElem?_eq_some_iff.1 hpar
  apply List.ext_getElem
  · rw [List.length_set, List.length_map, List.length_map]
  · intro i h₁ h₂
    have hi : i < keys.length := by rwa [List.length_map] at h₂
    rw [List.getElem_set, List.getElem_map, List.getElem_map]
    by_cases hip : par = i
    · subst hip
      rw [if_pos rfl, Function.update_self]
    · rw [if_neg hip, Function.update_of_ne fun he => hip (hd.getElem_inj_iff.1 he).symm]

theorem Profiled.write (h : Profiled seed p keys k) {par : Nat} {key : Key} (hpar : keys[par]? = some key)
    (record : ActivationRecord b.bits) {stack : List Nat} {stack' : List Key}
    (hstack : List.Forall₂ (fun par key => keys[par]? = some key) stack stack') (hroom : stack.length ≤ p.stackAlloc) :
    Profiled seed { p with records := p.records.set par record, stack := stack } keys
      ⟨Function.update k.recs key record, stack'⟩ where
  table := h.table
  ci := h.ci
  records := by
    dsimp only
    rw [h.records]
    exact records_set h.nodup k.recs hpar record
  fresh := by
    intro key' hkey'
    have hne : key' ≠ key := by
      rintro rfl
      exact hkey' (List.mem_of_getElem? hpar)
    dsimp only
    rw [Function.update_of_ne hne]
    exact h.fresh key' hkey'
  stack := hstack
  room := hroom
  alloc := h.alloc

theorem Profiled.lookup (h : Profiled seed p keys k) {par : Nat} {key : Key} (hpar : keys[par]? = some key) :
    p.records[par]? = some (k.recs key) := by
  rw [h.records, List.getElem?_map, hpar]
  rfl

theorem Profiled.exit (h : Profiled seed p keys k) (event : HookEvent) (time : Timespec) (memory : BitVec b.bits) :
    ∃ p', p.exit event time memory = some p' ∧ Profiled seed p' keys (k.exit event time memory) := by
  obtain ⟨recs, stack'⟩ := k
  unfold Profiler.exit KeyProfiler.exit
  have hstack := h.stack
  have hroom := h.room
  generalize p.stack = stack at hstack hroom
  cases hstack with
  | nil => exact ⟨p, rfl, h⟩
  | @cons par key stack stack' hpar hrest =>
    have hlookup := h.lookup hpar
    dsimp only at hlookup ⊢
    rw [hlookup]
    refine ⟨_, rfl, h.write hpar _ ?_ ?_⟩
    · split
      · exact hrest
      · exact .cons hpar hrest
    · split
      · exact Nat.le_of_succ_le hroom
      · exact hroom

theorem Profiled.enter (h : Profiled seed p keys k) {hook : Hook} (hleave : hook.leave.isSome = true) :
    ∃ p', p.enter hook = (p', .done) ∧ Profiled seed p' keys (k.enter hook.event hook.ended (hook.memory b.bits)) := by
  obtain ⟨recs, stack'⟩ := k
  obtain ⟨time, htime⟩ := Option.isSome_iff_exists.1 hleave
  unfold Profiler.enter KeyProfiler.enter Hook.ended
  rw [htime, Option.getD_some]
  have hstack := h.stack
  have hroom := h.room
  cases hs : p.stack with
  | nil =>
    rw [hs] at hstack
    cases hstack
    exact ⟨p, rfl, h⟩
  | cons par stack =>
    rw [hs] at hstack hroom
    cases hstack with
    | @cons _ key _ stack' hpar hrest =>
      have hlookup := h.lookup hpar
      dsimp only at hlookup ⊢
      rw [hlookup]
      exact ⟨_, rfl, h.write hpar _ (.cons hpar hrest) hroom⟩

/-- **The record of the key**: found, or created at the end. -/
theorem Profiled.getOrCreate (h : Profiled seed p keys k) {hook : Hook} (hok : hook.Succeeds)
    (hfit : (addKey keys hook.key).length ≤ maxLoad b) :
    ∃ p' par, p.getOrCreate seed hook = (p', some par) ∧ Profiled seed p' (addKey keys hook.key) k ∧
      (addKey keys hook.key)[par]? = some hook.key := by
  obtain ⟨hget, hR, ho⟩ := h.table.get hook.key hook.now
  rw [h.ci] at hget
  have hci := (options_ci ho).trans h.ci
  unfold Profiler.getOrCreate
  rw [show functionKey hook.info = hook.key from rfl]
  generalize tableGet seed p.functions hook.key hook.now = g at hget hR hci
  obtain ⟨functions, found⟩ := g
  dsimp only at hget hR hci
  subst hget
  by_cases hmem : hook.key ∈ keys
  · rw [addKey, if_pos hmem]
    obtain ⟨l₁, l₂, hkeys⟩ := List.append_of_mem hmem
    have hd := h.distinct
    rw [hkeys] at hd
    have hplace : OrdMap.get (foldKey false) keys.zipIdx hook.key = some l₁.length := by
      rw [hkeys]
      exact OrdMap.get_zipIdx hd
    rw [hplace]
    refine ⟨_, l₁.length, rfl, ⟨hR, hci, h.records, h.fresh, h.stack, h.room, h.alloc⟩, ?_⟩
    rw [hkeys, List.getElem?_append_right (Nat.le_refl _), Nat.sub_self]
    rfl
  · have hnone : Keyed.find (OrdMap.ident (foldKey false)) (foldKey false hook.key) keys.zipIdx = none :=
      Keyed.find_miss fun q hq he => hmem (by
        rw [← show q.1 = hook.key from he]
        exact List.fst_mem_of_mem_zipIdx hq)
    have hlen : p.records.length = keys.length := by rw [h.records, List.length_map]
    rw [addKey, if_neg hmem] at hfit ⊢
    have hput : OrdMap.put (foldKey functions.ci) keys.zipIdx hook.key p.records.length = (keys ++ [hook.key]).zipIdx := by
      rw [hci, OrdMap.put, hnone, List.zipIdx_append, hlen, Nat.zero_add]
      rfl
    obtain ⟨hrc, hR', ho'⟩ := hR.put (functionKey_terminated hook.info) p.records.length hook.now
      (by rw [show functionKey hook.info = hook.key from rfl, hput, List.length_zipIdx]; exact hfit)
    rw [show functionKey hook.info = hook.key from rfl] at hrc hR' ho'
    rw [hput] at hR'
    rw [OrdMap.get, hnone, Option.map_none]
    dsimp only
    rw [if_neg (by rw [hok.record]; exact Bool.false_ne_true.symm), hok.set, if_neg (by rw [hrc]; exact fun h => h rfl)]
    refine ⟨_, p.records.length, rfl, ⟨hR', (options_ci ho').trans hci, ?_, ?_, ?_, h.room, h.alloc⟩, ?_⟩
    · dsimp only
      rw [h.records, List.map_append, List.map_singleton, h.fresh hook.key hmem]
    · intro key hkey
      exact h.fresh key fun hin => hkey (List.mem_append_left _ hin)
    · exact h.stack.imp fun par key hpar => by
        rw [List.getElem?_append_left (List.getElem?_eq_some_iff.1 hpar).1]
        exact hpar
    · rw [hlen, List.getElem?_append_right (Nat.le_refl _), Nat.sub_self]
      rfl

theorem Profiled.grow (h : Profiled seed p keys k) {hook : Hook} (hok : hook.Succeeds) {par : Nat} {key : Key}
    (hpar : keys[par]? = some key) : ∃ p', p.growStack hook = some p' ∧ p'.stack.length < p'.stackAlloc ∧
      Profiled seed { p' with stack := par :: p'.stack } keys ⟨k.recs, key :: k.stack⟩ := by
  have hroom := h.room
  have halloc := h.alloc
  have hstack : List.Forall₂ (fun par key => keys[par]? = some key) (par :: p.stack) (key :: k.stack) := .cons hpar h.stack
  unfold Profiler.growStack
  rw [hok.grow]
  split
  · have hlt : p.stack.length < p.stackAlloc * 2 := by omega
    exact ⟨_, rfl, hlt, ⟨h.table, h.ci, h.records, h.fresh, hstack, hlt, Nat.mul_pos halloc Nat.zero_lt_two⟩⟩
  · have hlt : p.stack.length < p.stackAlloc := by omega
    exact ⟨p, rfl, hlt, ⟨h.table, h.ci, h.records, h.fresh, hstack, hlt, halloc⟩⟩

/-- **One hook**: what it does on keys, and no error. -/
theorem Profiled.hook (h : Profiled seed p keys k) {hook : Hook} (hok : hook.Succeeds)
    (hfit : (hook.addTo keys).length ≤ maxLoad b) :
    ∃ p', lwsProfilerHook seed p hook = (p', .done) ∧ Profiled seed p' (hook.addTo keys) (k.hook hook) := by
  obtain ⟨time, htime⟩ := Option.isSome_iff_exists.1 hok.enter
  have hstarted : hook.started = time := by rw [Hook.started, htime, Option.getD_some]
  unfold lwsProfilerHook
  rw [htime]
  dsimp only
  obtain ⟨p₁, hexit, h₁⟩ := h.exit hook.event time (hook.memory b.bits)
  rw [hexit, KeyProfiler.hook, hstarted, KeyProfiler.push]
  dsimp only
  rw [Hook.addTo] at hfit ⊢
  cases henters : hook.event.enters with
  | true =>
    rw [henters] at hfit
    obtain ⟨p₂, par, hrec, h₂, hpar⟩ := h₁.getOrCreate hok hfit
    obtain ⟨p₃, hgrow, hlt, h₃⟩ := h₂.grow hok hpar
    obtain ⟨p₄, henter, h₄⟩ := h₃.enter hok.leave
    refine ⟨p₄, ?_, h₄⟩
    unfold Profiler.push
    simp only [if_true, hrec, hgrow, hlt, henter]
  | false =>
    obtain ⟨p₂, henter, h₂⟩ := h₁.enter hok.leave
    exact ⟨p₂, henter, h₂⟩

theorem addKey_length (keys : List Key) (key : Key) : keys.length ≤ (addKey keys key).length := by
  unfold addKey
  split
  · exact Nat.le_refl _
  · rw [List.length_append]
    exact Nat.le_add_right _ _

theorem keys_length (hooks : List Hook) : ∀ keys : List Key, keys.length ≤ (hooks.foldl Hook.addTo keys).length := by
  induction hooks with
  | nil => exact fun keys => Nat.le_refl _
  | cons hook hooks ih =>
    intro keys
    refine Nat.le_trans ?_ (ih (hook.addTo keys))
    unfold Hook.addTo
    split
    · exact addKey_length keys hook.key
    · exact Nat.le_refl _

/-- **A run**: what it does on keys, and no error. -/
theorem Profiled.run : ∀ (hooks : List Hook) {p : Profiler b} {keys : List Key} {k : KeyProfiler b.bits},
    Profiled seed p keys k → (∀ hook ∈ hooks, hook.Succeeds) →
    (hooks.foldl Hook.addTo keys).length ≤ maxLoad b →
    ∃ p', p.run seed hooks = some p' ∧
      Profiled seed p' (hooks.foldl Hook.addTo keys) (hooks.foldl KeyProfiler.hook k)
  | [], p, _, _, h, _, _ => ⟨p, rfl, h⟩
  | hook :: hooks, p, keys, k, h, hok, hfit => by
    rw [List.foldl_cons] at hfit
    obtain ⟨p₁, hrun, h₁⟩ := h.hook (hok hook List.mem_cons_self) (Nat.le_trans (keys_length hooks _) hfit)
    obtain ⟨p', hrun', h'⟩ := Profiled.run hooks h₁ (fun hook hh => hok hook (List.mem_cons_of_mem _ hh)) hfit
    refine ⟨p', ?_, h'⟩
    rw [Profiler.run, hrun]
    exact hrun'

theorem keys_called (hooks : List Hook) : (hooks.foldl Hook.addTo []).length ≤ (calledKeys hooks).dedup.length := by
  have hkeys : (hooks.foldl Hook.addTo []).Nodup ∧
      hooks.foldl Hook.addTo [] ⊆ calledKeys hooks := by
    induction hooks using List.reverseRecOn with
    | nil => exact ⟨List.nodup_nil, List.Subset.refl _⟩
    | append_singleton hooks hook ih =>
      obtain ⟨hd, hsub⟩ := ih
      rw [List.foldl_append, calledKeys, List.filter_append, List.map_append, ← calledKeys]
      generalize hooks.foldl Hook.addTo [] = keys at hd hsub ⊢
      have hold := List.Subset.trans hsub (List.subset_append_left _ (([hook].filter fun h => h.event.enters).map Hook.key))
      simp only [List.foldl_cons, List.foldl_nil, Hook.addTo, addKey]
      split
      · rename_i henters
        split
        · exact ⟨hd, hold⟩
        · rename_i hnew
          refine ⟨List.nodup_append.2 ⟨hd, List.nodup_singleton _, ?_⟩, List.append_subset.2 ⟨hold, ?_⟩⟩
          · rintro key hkey key' hkey' rfl
            exact hnew (List.mem_singleton.1 hkey' ▸ hkey)
          · rw [List.filter_cons, if_pos henters]
            exact List.subset_append_right _ _
      · exact ⟨hd, hold⟩
  exact (List.subperm_of_subset hkeys.1 fun key hkey => List.mem_dedup.2 (hkeys.2 hkey)).length_le

theorem profiled_start {table entries stack : Bool} (h : lwsStartProfiler b table entries stack = some p) :
    Profiled seed p [] {} := by
  unfold lwsStartProfiler at h
  split at h
  · cases h
  · rename_i t ht
    split at h
    · cases h
      obtain ⟨hR, hci⟩ := refines_create seed ht true true false
      exact ⟨hR, hci, rfl, fun _ _ => rfl, .nil, Nat.zero_le _, Nat.zero_lt_succ 31⟩
    · cases h

theorem profiled_run {table entries stack : Bool} (hstart : lwsStartProfiler b table entries stack = some p)
    {hooks : List Hook} (hok : ∀ hook ∈ hooks, hook.Succeeds) (hfit : (calledKeys hooks).dedup.length ≤ maxLoad b) :
    ∃ p' keys, p.run seed hooks = some p' ∧ Profiled seed p' keys (hooks.foldl KeyProfiler.hook {}) := by
  obtain ⟨p', hrun, h'⟩ := (profiled_start hstart).run hooks hok (Nat.le_trans (keys_called hooks) hfit)
  exact ⟨p', _, hrun, h'⟩

theorem Profiled.get (h : Profiled seed p keys k) (key : Key) :
    p.get seed key = if key ∈ keys then some (k.recs key) else none := by
  rw [Profiler.get, (h.table.get key 0).1, h.ci]
  split
  · rename_i hmem
    obtain ⟨l₁, l₂, hkeys⟩ := List.append_of_mem hmem
    have hd := h.distinct
    rw [hkeys] at hd
    have hplace : OrdMap.get (foldKey false) keys.zipIdx key = some l₁.length := by
      rw [hkeys]
      exact OrdMap.get_zipIdx hd
    rw [hplace]
    apply h.lookup
    rw [hkeys, List.getElem?_append_right (Nat.le_refl _), Nat.sub_self]
    rfl
  · rename_i hmem
    rw [OrdMap.get_zipIdx_none fun key' hkey' he => hmem (by rwa [← show key' = key from he])]
    rfl

theorem Profiled.totals (h : Profiled seed p keys k) (key : Key) : p.totals seed key = (k.recs key).totals := by
  rw [Profiler.totals, h.get]
  split
  · rfl
  · rename_i hmem
    rw [h.fresh key hmem]
    rfl

theorem Profiled.stack_eq (h : Profiled seed p keys k) :
    p.stack.map some = k.stack.map fun key => (tableGet seed p.functions key 0).2 := by
  have hplace (par : Nat) (key : Key) (hpar : keys[par]? = some key) : (tableGet seed p.functions key 0).2 = some par := by
    obtain ⟨hlt, rfl⟩ := List.getElem?_eq_some_iff.1 hpar
    have hsplit : keys = keys.take par ++ keys[par] :: keys.drop (par + 1) := by
      rw [List.getElem_cons_drop, List.take_append_drop]
    have hd := h.distinct
    rw [hsplit] at hd
    have hget := OrdMap.get_zipIdx hd
    rw [← hsplit, List.length_take, Nat.min_eq_left (Nat.le_of_lt hlt)] at hget
    rw [(h.table.get _ 0).1, h.ci, hget]
  have hstack := h.stack
  generalize p.stack = stack, k.stack = stack' at hstack
  induction hstack with
  | nil => rfl
  | cons hpar _ ih => rw [List.map_cons, List.map_cons, ih, hplace _ _ hpar]

end

end Lws

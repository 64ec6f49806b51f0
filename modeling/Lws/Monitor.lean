import Mathlib.Data.BitVec
import Mathlib.Algebra.BigOperators.Group.Finset.Piecewise
import Mathlib.Data.Fintype.Defs
import Lws.LocationCounts
import Lws.LocationReuse
/-!
# Monitor — the counters that the locations of all workers share

Every location adds to the counters of the monitor what its own counts change by, so each is the sum over the locations.
-/
namespace Lws

open Finset

variable {w : Nat} {c : LocConf w} {I : Prop}

/-- The `memory_monitor` of a live state. -/
def memoryMonitor : Option (LuaState w) → BitVec w
  | some state => state.memoryMonitor
  | none => 0

/-- The sum of `memory_monitor` over the live states of a location. -/
def Loc.memory (l : Loc w) : BitVec w := ∑ p ∈ range l.next, memoryMonitor (l.heap p)

/-- The calls of `lws_release_state` in a location. -/
def Loc.releases (l : Loc w) : Nat := (l.trace.filter Act.isReleased).length

def Loc.share (l : Loc w) : Monitor w :=
  ⟨l.statesN, BitVec.ofNat w l.requests.length, l.memory, BitVec.ofNat w l.releases⟩

def Monitor.beyond (m n : Monitor w) : Monitor w :=
  ⟨m.statesN - n.statesN, m.requestsN - n.requestsN, m.memoryUsed - n.memoryUsed, m.requestCount - n.requestCount⟩

/-! ## What a move adds -/

section
variable {l l' : Loc w} {p : Nat}

theorem memory_update (hp : p < l.next) {o : Option (LuaState w)} (hheap : l'.heap = Function.update l.heap p o)
    (hnext : l'.next = l.next) : l'.memory = l.memory + (memoryMonitor o - memoryMonitor (l.heap p)) := by
  have hm : p ∈ range l.next := mem_range.2 hp
  have hf : (fun q => memoryMonitor (Function.update l.heap p o q)) =
      Function.update (fun q => memoryMonitor (l.heap q)) p (memoryMonitor o) := by
    funext q
    rcases eq_or_ne q p with rfl | hq
    · rw [Function.update_self, Function.update_self]
    · rw [Function.update_of_ne hq, Function.update_of_ne hq]
  rw [Loc.memory, Loc.memory, hheap, hnext, hf, sum_update_of_mem hm, ← add_sum_erase _ _ hm, sdiff_singleton_eq_erase]
  ring

theorem memory_same (hheap : l'.heap = l.heap) (hnext : l'.next = l.next) : l'.memory = l.memory := by
  rw [Loc.memory, Loc.memory, hheap, hnext]

theorem memory_next (hheap : ∀ q < l.next, l'.heap q = l.heap q) (hnext : l'.next = l.next + 1)
    (hnew : memoryMonitor (l'.heap l.next) = 0) : l'.memory = l.memory := by
  rw [Loc.memory, hnext, sum_range_succ, hnew, add_zero, Loc.memory]
  exact sum_congr rfl fun q hq => by rw [hheap q (mem_range.1 hq)]

end

theorem beyond_congr {m m' : Monitor w} {l l' : Loc w} (hstates : m'.statesN - l'.statesN = m.statesN - l.statesN)
    (hrequests : m'.requestsN - BitVec.ofNat w l'.requests.length = m.requestsN - BitVec.ofNat w l.requests.length)
    (hmemory : m'.memoryUsed - l'.memory = m.memoryUsed - l.memory)
    (hcount : m'.requestCount - BitVec.ofNat w l'.releases = m.requestCount - BitVec.ofNat w l.releases) :
    m'.beyond l'.share = m.beyond l.share := by
  simp only [Monitor.beyond, Loc.share, hstates, hrequests, hmemory, hcount]

theorem beyond_close (m : Monitor w) {l : Loc w} (l' : Loc w) {p : Nat} {state : LuaState w} (hp : p < l.next)
    (hs : l.heap p = some state) (hheap : l'.heap = Function.update l.heap p none) (hnext : l'.next = l.next)
    (hstates : l'.statesN = l.statesN - 1) (hrequests : l'.requests = l.requests) (count : BitVec w)
    (hcount : count - BitVec.ofNat w l'.releases = m.requestCount - BitVec.ofNat w l.releases) :
    Monitor.beyond { m with
      requestCount := count, statesN := m.statesN - 1, memoryUsed := m.memoryUsed - state.memoryMonitor } l'.share =
      m.beyond l.share := by
  refine beyond_congr ?_ (by rw [hrequests]) ?_ hcount
  · rw [hstates, sub_sub_sub_cancel_right]
  · rw [memory_update hp hheap hnext, hs]
    simp only [memoryMonitor]
    ring

theorem beyond_release (m : Monitor w) {l : Loc w} (l' : Loc w) {p : Nat} {state state' : LuaState w} (hp : p < l.next)
    (hs : l.heap p = some state) (hheap : l'.heap = Function.update l.heap p (some state')) (hnext : l'.next = l.next)
    (hstates : l'.statesN = l.statesN) (hrequests : l'.requests = l.requests) (count : BitVec w)
    (hcount : count - BitVec.ofNat w l'.releases = m.requestCount - BitVec.ofNat w l.releases) :
    Monitor.beyond { m with
      requestCount := count, memoryUsed := m.memoryUsed + (state'.memoryMonitor - state.memoryMonitor) } l'.share =
      m.beyond l.share := by
  refine beyond_congr (by rw [hstates]) (by rw [hrequests]) ?_ hcount
  rw [memory_update hp hheap hnext, hs]
  simp only [memoryMonitor]
  ring

theorem beyond_write {m : Monitor w} {l l' : Loc w} {p : Nat} {state state' : LuaState w} (hp : p < l.next)
    (hs : l.heap p = some state) (hheap : l'.heap = Function.update l.heap p (some state')) (hnext : l'.next = l.next)
    (hmem : state'.memoryMonitor = state.memoryMonitor) (hstates : l'.statesN = l.statesN) (hrequests : l'.requests = l.requests)
    (hreleases : l'.releases = l.releases) : m.beyond l'.share = m.beyond l.share := by
  refine beyond_congr (by rw [hstates]) (by rw [hrequests]) ?_ (by rw [hreleases])
  rw [memory_update hp hheap hnext, hs]
  simp only [memoryMonitor, hmem, sub_self, add_zero]

/-- **Each move changes the monitor by what it changes the share of its location by.** -/
theorem LocMove.beyond {x x' : World w} (ho : Own x.loc) (hm : LocMove c I x x') {m : Monitor w} (hmon : x.monitor = some m) :
    ∃ m', x'.monitor = some m' ∧ m'.beyond x'.loc.share = m.beyond x.loc.share := by
  have hlive {p : Nat} {state : LuaState w} (hp : x.loc.heap p = some state) : p < x.loc.next := ho.fresh p (ho.mem_places hp)
  have hreleased (n : Nat) (a : BitVec w) : a + 1 - BitVec.ofNat w (n + 1) = a - BitVec.ofNat w n := by
    rw [ofNat_succ]
    ring
  cases hm with
  | initFailed hf hst hadm =>
    have hnew : memoryMonitor (x.loc.heap x.loc.next) = 0 := by rw [ho.next_heap]; rfl
    exact ⟨_, congrArg (Option.map _) hmon, beyond_congr (sub_sub_sub_cancel_right ..) rfl
      (congrArg (m.memoryUsed - ·) (memory_next (fun _ _ => rfl) rfl hnew)) rfl⟩
  | create r state timers hst hadm hroom hr hnew ht =>
    have hmem : memoryMonitor (Function.update x.loc.heap x.loc.next (some state) x.loc.next) = 0 := by
      rw [Function.update_self]
      exact hnew.2.2.2.2.1
    exact ⟨_, congrArg (Option.map _) hmon, beyond_congr (add_sub_add_right_eq_sub ..) rfl
      (congrArg (m.memoryUsed - ·) (memory_next (fun q hq => Function.update_of_ne (Nat.ne_of_lt hq) _ _) rfl hmem)) rfl⟩
  | reuse r p states state state' timers hst hp hr hh hcount hmem huse ht =>
    exact ⟨m, hmon, beyond_write (hlive hp) hp rfl rfl hmem rfl rfl rfl⟩
  | post t ht hph => exact ⟨m, hmon, beyond_congr rfl rfl (congrArg (m.memoryUsed - ·) (memory_same rfl rfl)) rfl⟩
  | run t state state' log error setclose ht hph hp hran =>
    exact ⟨m, hmon, beyond_write (hlive hp) hp rfl rfl hran.same.2.1 rfl rfl rfl⟩
  | giveUp t state ht hph hp =>
    exact ⟨_, congrArg (Option.map _) hmon,
      beyond_close m _ (hlive hp) hp (by rfl) (by rfl) (by rfl) (by rfl) _ (hreleased x.loc.releases m.requestCount)⟩
  | giveBack t state state' timers ht hph hp hh hcount hreuse hmem huse htm =>
    exact ⟨_, congrArg (Option.map _) hmon,
      beyond_release m _ (hlive hp) hp (by rfl) (by rfl) (by rfl) (by rfl) _ (hreleased x.loc.releases m.requestCount)⟩
  | expireBusy p state hp huse => exact ⟨m, hmon, beyond_write (hlive hp) hp rfl rfl rfl rfl rfl rfl⟩
  | expireIdle p state hmem hp =>
    exact ⟨_, congrArg (Option.map _) hmon, beyond_close m _ (hlive hp) hp (by rfl) (by rfl) (by rfl) (by rfl) _ (by rfl)⟩
  | cleanup p states state hst hp =>
    exact ⟨_, congrArg (Option.map _) hmon, beyond_close m _ (hlive hp) hp (by rfl) (by rfl) (by rfl) (by rfl) _ (by rfl)⟩
  | arrive => exact ⟨m, hmon, beyond_congr rfl rfl (congrArg (m.memoryUsed - ·) (memory_same rfl rfl)) rfl⟩
  | finalize r rc hr => exact ⟨m, hmon, beyond_congr rfl rfl (congrArg (m.memoryUsed - ·) (memory_same rfl rfl)) rfl⟩
  | queue r hr hnew hroom hmax =>
    refine ⟨_, congrArg (Option.map _) hmon, beyond_congr rfl ?_ (congrArg (m.memoryUsed - ·) (memory_same rfl rfl)) rfl⟩
    rw [List.length_append, List.length_singleton]
    exact hreleased _ _
  | dequeue r requests hreq =>
    refine ⟨_, congrArg (Option.map _) hmon, beyond_congr rfl ?_ (congrArg (m.memoryUsed - ·) (memory_same rfl rfl)) rfl⟩
    rw [hreq, List.length_cons, ofNat_pred requests.length]
    exact sub_sub_sub_cancel_right ..
  | setQev qev => exact ⟨m, hmon, beyond_congr rfl rfl (congrArg (m.memoryUsed - ·) (memory_same rfl rfl)) rfl⟩

/-! ## The locations of all workers -/

structure System (ι : Type) (w : Nat) where
  locs : ι → Loc w := fun _ => {}
  monitor : Monitor w := {}

variable {ι : Type} [DecidableEq ι]

/-- A handler of one location runs. -/
def System.handle (c : ι → LocConf w) (s : System ι w) (i : ι) (e : Event w) : Option (System ι w) :=
  match Lws.handle (c i) { loc := s.locs i, monitor := some s.monitor } e with
  | some { loc := l, monitor := some m } => some { locs := Function.update s.locs i l, monitor := m }
  | _ => none

def System.Step (c : ι → LocConf w) (s s' : System ι w) : Prop := ∃ i e, Enabled (s.locs i) e ∧ s.handle c i e = some s'

def System.Reachable (c : ι → LocConf w) (s : System ι w) : Prop := Relation.ReflTransGen (System.Step c) {} s

theorem System.handle_beyond {c : ι → LocConf w} {s : System ι w} {i : ι} {e : Event w} (ho : Own (s.locs i))
    (he : Enabled (s.locs i) e) : ∃ l m, s.handle c i e = some { locs := Function.update s.locs i l, monitor := m } ∧ Own l ∧
      m.beyond l.share = s.monitor.beyond (s.locs i).share := by
  obtain ⟨x, hx, hms, -⟩ := handle_moves (c := c i) (I := True) (x := { loc := s.locs i, monitor := some s.monitor }) ho he
    fun _ => trivial
  obtain ⟨m, hm, hb⟩ := ho.invariant (P := fun x => ∃ m, x.monitor = some m ∧
    m.beyond x.loc.share = s.monitor.beyond (s.locs i).share) (fun y y' hy ⟨m, hm, hb⟩ hmove => by
      obtain ⟨m', hm', hb'⟩ := hmove.beyond hy hm
      exact ⟨m', hm', hb'.trans hb⟩) ⟨s.monitor, rfl, rfl⟩ hms
  obtain ⟨l, monitor⟩ := x
  cases hm
  refine ⟨l, m, ?_, ho.moves hms, hb⟩
  unfold System.handle
  rw [hx]

variable [Fintype ι]

theorem sum_share (f : Loc w → BitVec w) (locs : ι → Loc w) (i : ι) (l : Loc w) :
    ∑ j, f (Function.update locs i l j) = (∑ j, f (locs j)) + (f l - f (locs i)) := by
  have hf : (fun j => f (Function.update locs i l j)) = Function.update (fun j => f (locs j)) i (f l) := by
    funext j
    rcases eq_or_ne j i with rfl | hj
    · rw [Function.update_self, Function.update_self]
    · rw [Function.update_of_ne hj, Function.update_of_ne hj]
  rw [hf, sum_update_of_mem (mem_univ i), ← add_sum_erase _ _ (mem_univ i), sdiff_singleton_eq_erase]
  ring

omit [DecidableEq ι] in
theorem ofNat_sum (f : ι → Nat) : BitVec.ofNat w (∑ i, f i) = ∑ i, BitVec.ofNat w (f i) := by
  simp only [← BitVec.natCast_eq_ofNat, Nat.cast_sum]

/-- The monitor holds the shares of the locations. -/
structure Exact (s : System ι w) : Prop where
  own : ∀ i, Own (s.locs i)
  statesN : s.monitor.statesN = ∑ i, (s.locs i).statesN
  requestsN : s.monitor.requestsN = ∑ i, BitVec.ofNat w (s.locs i).requests.length
  memoryUsed : s.monitor.memoryUsed = ∑ i, (s.locs i).memory
  requestCount : s.monitor.requestCount = ∑ i, BitVec.ofNat w (s.locs i).releases

theorem Exact.step {c : ι → LocConf w} {s s' : System ι w} (h : Exact s) (hs : System.Step c s s') : Exact s' := by
  obtain ⟨i, e, he, hs⟩ := hs
  obtain ⟨l, m, hh, ho, hb⟩ := System.handle_beyond (c := c) (h.own i) he
  rw [hs] at hh
  cases hh
  simp only [Monitor.beyond, Loc.share, Monitor.mk.injEq] at hb
  obtain ⟨h1, h2, h3, h4⟩ := hb
  -- each counter is the sum again
  have hsum (f : Loc w → BitVec w) {old new : BitVec w} (hold : old = ∑ j, f (s.locs j))
      (hnew : new - f l = old - f (s.locs i)) : new = ∑ j, f (Function.update s.locs i l j) := by
    rw [sum_share, ← hold, ← sub_add_cancel new (f l), hnew]
    ring
  refine ⟨fun j => ?_, hsum Loc.statesN h.statesN h1, hsum (fun l => BitVec.ofNat w l.requests.length) h.requestsN h2,
    hsum Loc.memory h.memoryUsed h3, hsum (fun l => BitVec.ofNat w l.releases) h.requestCount h4⟩
  rcases eq_or_ne j i with rfl | hj
  · simpa using ho
  · simpa [hj] using h.own j

omit [DecidableEq ι] in
theorem exact_empty : Exact ({} : System ι w) :=
  ⟨fun _ => own_empty, by simp, by simp, by simp [Loc.memory], by simp [Loc.releases]⟩

/-- **The counters of the monitor are exact sums** over the locations of all workers, modulo the width of a counter: of their
state counters, their queue lengths, the `memory_monitor` of their live states, and their calls of `lws_release_state`. -/
theorem monitor_is_sum {c : ι → LocConf w} {s : System ι w} (h : System.Reachable c s) :
    s.monitor.statesN = ∑ i, (s.locs i).statesN ∧
    s.monitor.requestsN = BitVec.ofNat w (∑ i, (s.locs i).requests.length) ∧
    s.monitor.memoryUsed = ∑ i, ∑ p ∈ range (s.locs i).next, memoryMonitor ((s.locs i).heap p) ∧
    s.monitor.requestCount = BitVec.ofNat w (∑ i, (s.locs i).releases) ∧
    ((∀ i p, (s.locs i).heap p = none) → s.monitor.memoryUsed = 0) := by
  have hexact : Exact s := by
    induction h with
    | refl => exact exact_empty
    | tail _ hs ih => exact ih.step hs
  refine ⟨hexact.statesN, by rw [ofNat_sum, hexact.requestsN], hexact.memoryUsed, by rw [ofNat_sum, hexact.requestCount],
    fun hnone => ?_⟩
  rw [hexact.memoryUsed]
  exact sum_eq_zero fun i _ => sum_eq_zero fun p _ => by rw [hnone i p]; rfl

omit [Fintype ι] in
/-- The events of some locations one after the other; one that cannot happen is not handled. -/
def System.execute (c : ι → LocConf w) : List (ι × Event w) → System ι w → System ι w
  | [], s => s
  | (i, e) :: es, s => System.execute c es (if Enabled (s.locs i) e then (s.handle c i e).getD s else s)

omit [Fintype ι] in
theorem System.execute_reachable {c : ι → LocConf w} : ∀ (es : List (ι × Event w)) {s : System ι w}, System.Reachable c s →
    (∀ i, Own (s.locs i)) → System.Reachable c (System.execute c es s)
  | [], _, h, _ => h
  | (i, e) :: es, s, h, ho => by
    unfold System.execute
    by_cases he : Enabled (s.locs i) e
    · obtain ⟨l, m, hh, hl, -⟩ := System.handle_beyond (c := c) (ho i) he
      rw [if_pos he, hh]
      refine System.execute_reachable es (h.tail ⟨i, e, he, hh⟩) fun j => ?_
      rcases eq_or_ne j i with rfl | hj
      · simpa using hl
      · simpa [hj] using ho j
    · rw [if_neg he]
      exact System.execute_reachable es h ho

/-- Two locations: one keeps its state, one closes it after an error. -/
theorem monitor_is_sum_two :
    let s := System.execute (w := 64) (fun _ : Bool => { stateGc := 10 }) [(false, .body true {}), (true, .body true {}),
      (true, .thread 0 {} (fun _ => ⟨[], .error⟩) 0), (false, .thread 0 {} (fun _ => {}) 7), (true, .finalization 0 {}),
      (false, .finalization 0 { used := 20, collected := 5 })] {}
    s.monitor = ⟨1, 0, 5, 2⟩ ∧ s.monitor.statesN = ∑ i, (s.locs i).statesN := by
  refine ⟨by decide, ?_⟩
  exact (monitor_is_sum (System.execute_reachable (c := fun _ => { stateGc := 10 }) [(false, .body true {}),
    (true, .body true {}), (true, .thread 0 {} (fun _ => ⟨[], .error⟩) 0), (false, .thread 0 {} (fun _ => {}) 7),
    (true, .finalization 0 {}), (false, .finalization 0 { used := 20, collected := 5 })] .refl fun _ => own_empty)).1

end Lws

import Lws.LocationOwnership
/-!
# LocationCounts — the counters of a location, and its queue

`states_n` counts the live states as long as no state fails in `lws_init`: such a state is closed, which counts it down, but it
has not been counted up.  `requests_n` always counts the queue, which is served in order.
-/
namespace Lws

variable {w : Nat} {c : LocConf w} {I : Prop}

theorem toNat_of_length {α : Type} {n : BitVec w} {l : List α} (h : n = BitVec.ofNat w l.length) (hlt : l.length < 2 ^ w) :
    n.toNat = l.length := by
  rw [h, BitVec.toNat_ofNat, Nat.mod_eq_of_lt hlt]

theorem ofNat_succ (n : Nat) : BitVec.ofNat w (n + 1) = BitVec.ofNat w n + 1 := BitVec.ofNat_add n 1

theorem ofNat_pred (n : Nat) : BitVec.ofNat w n = BitVec.ofNat w (n + 1) - 1 := by
  rw [ofNat_succ]
  exact (BitVec.add_sub_cancel _ _).symm

/-! ## The live states -/

theorem Own.places_drop {l : Loc w} (h : Own l) {t : Task} (ht : t ∈ l.tasks) :
    l.places.Perm (t.state :: (l.states ++ (l.tasks.filter (fun t' => t'.request ≠ t.request)).map Task.state)) := by
  have hsingle := filter_eq_singleton Task.request (List.nodup_append.1 h.ids).2.1 ht
  have hperm := (List.filter_append_perm (fun t' => decide (t'.request = t.request)) l.tasks).symm
  rw [hsingle] at hperm
  have hne : l.tasks.filter (fun t' => !decide (t'.request = t.request)) =
      l.tasks.filter (fun t' => t'.request ≠ t.request) := List.filter_congr fun t' _ => by simp
  rw [hne, List.singleton_append] at hperm
  exact ((hperm.map Task.state).append_left l.states).trans List.perm_middle

theorem places_erase {l : Loc w} {p : Nat} (hp : p ∈ l.states) :
    l.places.Perm (p :: (l.states.erase p ++ l.tasks.map Task.state)) := (List.perm_cons_erase hp).append_right _

def Loc.live (l : Loc w) : Nat := (List.range l.next).countP fun p => (l.heap p).isSome

theorem Own.live_eq {l : Loc w} (h : Own l) : l.live = l.places.length := by
  rw [Loc.live, List.countP_eq_length_filter]
  refine (List.perm_ext_iff_of_nodup (List.nodup_range.filter _) h.nodup).2 (fun p => ?_) |>.length_eq
  rw [List.mem_filter, List.mem_range, h.live]
  exact ⟨fun hp => hp.2, fun hp => ⟨h.fresh p hp, hp⟩⟩

/-! ## `states_n` -/

def Act.isInitFailed : Act w → Bool
  | .initFailed => true
  | _ => false

/-- The states that failed in `lws_init`. -/
def Loc.initFailures (l : Loc w) : Nat := (l.trace.filter Act.isInitFailed).length

/-- `states_n` lacks the states that failed in `lws_init`; with none of them, the limit is kept. -/
structure Counted (c : LocConf w) (l : Loc w) : Prop where
  statesN : l.statesN + BitVec.ofNat w l.initFailures = BitVec.ofNat w l.places.length
  bound : l.places.length < 2 ^ w
  limit : l.initFailures = 0 → c.statesMax ≠ 0 → l.places.length ≤ c.statesMax.toNat

section
variable {l l' : Loc w}

theorem Counted.same (h : Counted c l) (hn : l'.statesN = l.statesN) (hf : l'.initFailures = l.initFailures)
    (hp : l'.places.length = l.places.length) : Counted c l' := by
  refine ⟨?_, hp ▸ h.bound, ?_⟩
  · rw [hn, hf, hp, h.statesN]
  · rw [hf, hp]
    exact h.limit

theorem Counted.drop (h : Counted c l) {p : Nat} (hn : l'.statesN = l.statesN - 1) (hf : l'.initFailures = l.initFailures)
    (hp : l.places.Perm (p :: l'.places)) : Counted c l' := by
  have hlen := hp.length_eq
  rw [List.length_cons] at hlen
  have hbound := h.bound
  refine ⟨?_, by omega, fun h0 hmax => ?_⟩
  · rw [hn, hf, ofNat_pred l'.places.length, ← hlen, ← h.statesN]
    grind
  · have := h.limit (hf ▸ h0) hmax
    omega

theorem Counted.fail (h : Counted c l) (hn : l'.statesN = l.statesN - 1) (hf : l'.initFailures = l.initFailures + 1)
    (hp : l'.places = l.places) : Counted c l' := by
  refine ⟨?_, hp ▸ h.bound, fun h0 => ?_⟩
  · rw [hn, hf, hp, ofNat_succ, ← h.statesN]
    grind
  · rw [hf] at h0
    cases h0

theorem Counted.toNat (h : Counted c l) (h0 : l.initFailures = 0) : l.statesN.toNat = l.places.length := by
  refine toNat_of_length ?_ h.bound
  rw [← h.statesN, h0]
  exact (BitVec.add_zero _).symm

theorem Counted.add (h : Counted c l) {p : Nat} (hadm : c.statesMax = 0 ∨ l.statesN < c.statesMax)
    (hroom : l.places.length + 1 < 2 ^ w) (hn : l'.statesN = l.statesN + 1) (hf : l'.initFailures = l.initFailures)
    (hp : l'.places.Perm (p :: l.places)) : Counted c l' := by
  have hlen := hp.length_eq
  rw [List.length_cons] at hlen
  refine ⟨?_, hlen ▸ hroom, fun h0 hmax => ?_⟩
  · rw [hn, hf, hlen, ofNat_succ, ← h.statesN]
    grind
  · rw [hlen, ← h.toNat (hf ▸ h0)]
    exact hadm.resolve_left hmax

end

theorem Counted.move {x x' : World w} (ho : Own x.loc) (h : Counted c x.loc) (hm : LocMove c I x x') : Counted c x'.loc := by
  cases hm with
  | initFailed hf hst hadm => exact h.fail rfl rfl rfl
  | create r state timers hst hadm hroom hr hnew ht =>
    exact h.add (by simpa [Loc.admits, hst] using hadm) hroom rfl rfl List.perm_middle
  | reuse r p states state state' timers hst hp hr hh hcount hmem huse ht =>
    refine h.same rfl rfl ?_
    simp only [Loc.places, hst, List.cons_append]
    exact List.perm_middle.length_eq
  | post t ht hph => exact h.same rfl rfl (by simp [Loc.places, postTask])
  | run t state state' log error setclose ht hph hp hran => exact h.same rfl rfl (by simp [Loc.places])
  | giveUp t state ht hph hp => exact h.drop rfl rfl (ho.places_drop ht)
  | giveBack t state state' timers ht hph hp hh hcount hreuse hmem huse htm =>
    exact h.same rfl rfl (ho.places_drop ht).length_eq.symm
  | expireBusy p state hp huse => exact h.same rfl rfl rfl
  | expireIdle p state hmem hp => exact h.drop rfl rfl (places_erase hmem)
  | cleanup p states state hst hp =>
    refine h.drop (p := p) rfl rfl ?_
    rw [Loc.places, hst]
    exact List.Perm.refl _
  | arrive => exact h.same rfl rfl rfl
  | finalize r rc hr => exact h.same rfl rfl rfl
  | queue r hr hnew hroom hmax => exact h.same rfl rfl rfl
  | dequeue r requests hreq => exact h.same rfl rfl rfl
  | setQev qev => exact h.same rfl rfl rfl

theorem ReachableBy.counted {ok : Event w → Prop} {x : World w} (h : ReachableBy c ok x) : Counted c x.loc :=
  (h.invariant (I := True) (P := fun x => Counted c x.loc) (fun _ _ _ => trivial)
    (fun _ => ⟨BitVec.add_zero _, Nat.two_pow_pos w, fun _ _ => Nat.zero_le _⟩) fun _ _ ho hc hm => hc.move ho hm).2

theorem ReachableBy.initFailures {x : World w} (h : ReachableBy c (fun e => ¬ e.failsInit) x) : x.loc.initFailures = 0 := by
  refine (h.invariant (I := False) (P := fun x => x.loc.initFailures = 0) (fun _ hn he => hn he) (fun _ => rfl) ?_).2
  intro x x' _ h0 hm
  cases hm with
  | initFailed hf => exact hf.elim
  | _ => exact h0

/-- **`states_n` is the number of live Lua states**, and at most the limit, in every run in which no attempt to create a state
fails in `lws_init`; in any run, exactly if the number of those that did is zero modulo the width of the counter. -/
theorem states_n_counts_live_states {x : World w} :
    (ReachableBy c (fun e => ¬ e.failsInit) x →
      x.loc.statesN.toNat = x.loc.live ∧ x.loc.live = x.loc.states.length + x.loc.tasks.length ∧
        (0 < c.statesMax → x.loc.statesN ≤ c.statesMax)) ∧
    (Reachable c x → (x.loc.statesN.toNat = x.loc.live ↔ 2 ^ w ∣ x.loc.initFailures)) := by
  have hlive {ok : Event w → Prop} (h : ReachableBy c ok x) : x.loc.live = x.loc.places.length := h.own.live_eq
  refine ⟨fun h => ?_, fun h => ?_⟩
  · have h0 := h.initFailures
    have hn := h.counted.toNat h0
    refine ⟨hn.trans (hlive h).symm, by simp [hlive h, Loc.places], fun hmax => ?_⟩
    have hlimit := h.counted.limit h0 (fun h0 => by rw [h0] at hmax; exact Nat.lt_irrefl _ hmax)
    rw [← hn] at hlimit
    exact hlimit
  · have hc := h.counted
    rw [hlive h]
    constructor
    · intro hn
      have h0 : BitVec.ofNat w x.loc.initFailures = 0 := by
        have hs := hc.statesN
        rw [← hn, BitVec.ofNat_toNat, BitVec.setWidth_eq] at hs
        grind
      have := congrArg BitVec.toNat h0
      rw [BitVec.toNat_ofNat] at this
      exact Nat.dvd_of_mod_eq_zero (by simpa using this)
    · intro hd
      refine toNat_of_length ?_ hc.bound
      have h0 : BitVec.ofNat w x.loc.initFailures = 0 := by
        apply BitVec.eq_of_toNat_eq
        rw [BitVec.toNat_ofNat, Nat.mod_eq_zero_of_dvd hd]
        simp
      rw [← hc.statesN, h0]
      exact (BitVec.add_zero _).symm

/-- Three requests for two states, one of which cannot be created at first. -/
theorem states_n_counts_live_states_two :
    let x := execute (w := 64) { statesMax := 2 } [.body true { create := .newstate }, .body true {}, .body true { post := false },
      .body true {}] {}
    x.loc.statesN = 2 ∧ x.loc.statesN.toNat = x.loc.live ∧ x.loc.live = x.loc.states.length + x.loc.tasks.length := by
  refine ⟨by decide, ?_⟩
  obtain ⟨h, -⟩ := states_n_counts_live_states (c := { statesMax := 2 }) (x := execute (w := 64) { statesMax := 2 }
    [.body true { create := .newstate }, .body true {}, .body true { post := false }, .body true {}] {})
  obtain ⟨hn, hl, -⟩ := h (execute_reachable _ reachable_empty (by simp [Event.failsInit]))
  exact ⟨hn, hl⟩

/-- A first state that fails in `lws_init` wraps the counter, and the location admits no request any more. -/
theorem states_n_wraps :
    let x := execute (w := 64) { statesMax := 1 } [.body true { create := .init }] {}
    Reachable { statesMax := 1 } x ∧ x.loc.live = 0 ∧ x.loc.statesN.toNat = 2 ^ 64 - 1 ∧ ¬ x.loc.statesN.toNat = x.loc.live ∧
      ¬ x.loc.statesN ≤ 1 ∧ x.loc.admits { statesMax := 1 } = false :=
  ⟨execute_reachable _ reachable_empty fun _ _ => trivial, by decide⟩

/-! ## The queue -/

def Act.queuedRequest : Act w → Option Nat
  | .queued r => some r
  | _ => none

def Act.dequeuedRequest : Act w → Option Nat
  | .dequeued r => some r
  | _ => none

def Loc.queued (l : Loc w) : List Nat := (l.trace.filterMap Act.queuedRequest).reverse

def Loc.dequeued (l : Loc w) : List Nat := (l.trace.filterMap Act.dequeuedRequest).reverse

theorem queued_request {a : Act w} {r : Nat} (h : a.queuedRequest = some r) : a.request = some r := by
  cases a <;> simp_all [Act.queuedRequest, Act.request]

/-- The queue holds the requests that were queued and not yet dequeued. -/
structure Queue (c : LocConf w) (l : Loc w) : Prop where
  requestsN : l.requestsN = BitVec.ofNat w l.requests.length
  bound : l.requests.length < 2 ^ w
  limit : c.requestsMax ≠ 0 → l.requests.length ≤ c.requestsMax.toNat
  fifo : l.dequeued ++ l.requests = l.queued
  nodup : l.queued.Nodup

theorem Queue.same {l l' : Loc w} (h : Queue c l) (hn : l'.requestsN = l.requestsN) (hr : l'.requests = l.requests)
    (hq : l'.queued = l.queued) (hd : l'.dequeued = l.dequeued) : Queue c l' :=
  ⟨by rw [hn, hr, h.requestsN], hr ▸ h.bound, hr ▸ h.limit, by rw [hd, hr, hq, h.fifo], hq ▸ h.nodup⟩

theorem Queue.move {x x' : World w} (h : Queue c x.loc) (hm : LocMove c I x x') : Queue c x'.loc := by
  have hn := toNat_of_length h.requestsN h.bound
  cases hm with
  | queue r hr hnew hroom hmax =>
    have hlen : (x.loc.requests ++ [r]).length = x.loc.requests.length + 1 := List.length_append
    have hq : Loc.queued { x.loc with
        requestsN := x.loc.requestsN + 1, requests := x.loc.requests ++ [r], trace := .queued r :: x.loc.trace } =
        x.loc.queued ++ [r] := by simp [Loc.queued, Act.queuedRequest]
    have hfresh : r ∉ x.loc.queued := fun hm => by
      simp only [Loc.queued, List.mem_reverse, List.mem_filterMap] at hm
      obtain ⟨a, ha, har⟩ := hm
      exact hnew a ha (queued_request har)
    refine ⟨?_, hlen ▸ hroom, fun hpos => ?_, ?_, ?_⟩
    · rw [hlen, ofNat_succ, ← h.requestsN]
    · rw [hlen, ← hn]
      exact hmax.resolve_left hpos
    · rw [hq, ← h.fifo, List.append_assoc]
      rfl
    · rw [hq]
      exact List.nodup_append.2 ⟨h.nodup, List.nodup_singleton r, fun a ha b hb he => hfresh (by simp_all)⟩
  | dequeue r requests hreq =>
    have hd : Loc.dequeued { x.loc with
        requestsN := x.loc.requestsN - 1, requests := requests, trace := .dequeued r :: x.loc.trace } =
        x.loc.dequeued ++ [r] := by simp [Loc.dequeued, Act.dequeuedRequest]
    have hlen : x.loc.requests.length = requests.length + 1 := by rw [hreq, List.length_cons]
    have hbound := h.bound
    refine ⟨?_, by dsimp only; omega, fun hpos => ?_, ?_, h.nodup⟩
    · rw [h.requestsN, hlen]
      exact (ofNat_pred _).symm
    · have := h.limit hpos
      dsimp only
      omega
    · rw [hd, List.append_assoc, List.singleton_append, ← hreq]
      exact h.fifo
  | _ => exact h.same rfl rfl rfl rfl

theorem ReachableBy.queue {ok : Event w → Prop} {x : World w} (h : ReachableBy c ok x) : Queue c x.loc :=
  (h.invariant (I := True) (P := fun x => Queue c x.loc) (fun _ _ _ => trivial)
    (fun _ => ⟨rfl, Nat.two_pow_pos w, fun _ => Nat.zero_le _, rfl, List.nodup_nil⟩) fun _ _ _ hq hm => hq.move hm).2

/-- **Exact queue accounting, and no stranded request.**  `requests_n` is the length of the queue and at most its limit; the
requests that were queued are those dequeued, in the same order and each once, and then those that wait; and when one waits
that the location would admit, the event of the queue is coming. -/
theorem queue_is_exact {x : World w} (h : Reachable c x) :
    x.loc.requestsN.toNat = x.loc.requests.length ∧ (0 < c.requestsMax → x.loc.requestsN ≤ c.requestsMax) ∧
    x.loc.dequeued ++ x.loc.requests = x.loc.queued ∧ x.loc.queued.Nodup ∧
    (x.loc.requests ≠ [] → x.loc.admits c = true → x.loc.qev = true) := by
  have hq := h.queue
  have hn := toNat_of_length hq.requestsN hq.bound
  refine ⟨hn, fun hmax => ?_, hq.fifo, hq.nodup, h.wake⟩
  have hlimit := hq.limit (fun h0 => by rw [h0] at hmax; exact Nat.lt_irrefl _ hmax)
  rw [← hn] at hlimit
  exact hlimit

/-- A request waits for the only state, and is dequeued when it is given back. -/
theorem queue_is_exact_one :
    let x := execute (w := 64) { statesMax := 1, requestsMax := 2 } [.body true {}, .body true {}, .body true {}, .body true {},
      .thread 0 {} (fun _ => {}) 0, .finalization 0 {}, .queue (fun _ => {})] {}
    x.loc.dequeued = [1] ∧ x.loc.requests = [2] ∧ x.loc.dequeued ++ x.loc.requests = x.loc.queued ∧
      x.loc.requestsN.toNat = x.loc.requests.length := by
  refine ⟨by decide, by decide, ?_⟩
  obtain ⟨hn, -, hfifo, -⟩ := queue_is_exact (execute_reachable (c := { statesMax := 1, requestsMax := 2 }) [.body true {},
    .body true {}, .body true {}, .body true {}, .thread 0 {} (fun _ => {}) 0, .finalization 0 {}, .queue (fun _ => {})]
    reachable_empty fun _ _ => trivial)
  exact ⟨hfifo, hn⟩

end Lws

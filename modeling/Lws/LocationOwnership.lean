import Lws.LocationHandlers
/-!
# LocationOwnership — every Lua state has one owner and is closed once

The addresses of Lua states are not used again here, so an address stands for one state: the ones closed are in the trace.
-/
namespace Lws

variable {w : Nat} {c : LocConf w} {I : Prop}

/-- The state that an act closes, with whether a task was running on it. -/
def Act.closing : Act w → Option (Nat × Bool)
  | .closed p running => some (p, running)
  | _ => none

def Loc.closings (l : Loc w) : List (Nat × Bool) := l.trace.filterMap Act.closing

theorem mem_closings {l : Loc w} {p : Nat} {running : Bool} :
    (p, running) ∈ l.closings ↔ .closed p running ∈ l.trace := by
  simp only [Loc.closings, List.mem_filterMap]
  constructor
  · rintro ⟨a, ha, he⟩
    cases a with
    | closed q run =>
      cases he
      exact ha
    | _ => cases he
  · exact fun hm => ⟨_, hm, rfl⟩

structure Closed (l : Loc w) : Prop where
  nodup : (l.closings.map Prod.fst).Nodup
  dead : ∀ q ∈ l.closings.map Prod.fst, q < l.next ∧ l.heap q = none
  quiet : ∀ c ∈ l.closings, c.2 = false

section
variable {l l' : Loc w}

theorem Closed.same (h : Closed l) (hclosings : l'.closings = l.closings) (hnext : l.next ≤ l'.next)
    (hheap : ∀ q < l.next, l.heap q = none → l'.heap q = none) : Closed l' := by
  refine ⟨hclosings ▸ h.nodup, fun q hq => ?_, hclosings ▸ h.quiet⟩
  rw [hclosings] at hq
  obtain ⟨hlt, hnone⟩ := h.dead q hq
  exact ⟨Nat.lt_of_lt_of_le hlt hnext, hheap q hlt hnone⟩

theorem Closed.close (h : Closed l) {p : Nat} (hclosings : l'.closings = (p, false) :: l.closings)
    (hp : l.next ≤ p ∨ l.heap p ≠ none) (hpn : p < l'.next) (hnext : l.next ≤ l'.next) (hself : l'.heap p = none)
    (hheap : ∀ q, l.heap q = none → l'.heap q = none) : Closed l' := by
  refine ⟨?_, fun q hq => ?_, fun a ha => ?_⟩
  · rw [hclosings]
    refine List.nodup_cons.2 ⟨fun hm => ?_, h.nodup⟩
    obtain ⟨hlt, hnone⟩ := h.dead p hm
    rcases hp with hp | hp
    · exact absurd hlt (Nat.not_lt.2 hp)
    · exact hp hnone
  · rw [hclosings] at hq
    rcases List.mem_cons.1 hq with rfl | hq
    · exact ⟨hpn, hself⟩
    · obtain ⟨hlt, hnone⟩ := h.dead q hq
      exact ⟨Nat.lt_of_lt_of_le hlt hnext, hheap q hnone⟩
  · rw [hclosings] at ha
    rcases List.mem_cons.1 ha with rfl | ha
    · rfl
    · exact h.quiet a ha

end

theorem update_dead {l : Loc w} {p : Nat} {state : LuaState w} (hp : l.heap p = some state) (o : Option (LuaState w)) (q : Nat)
    (hq : l.heap q = none) : Function.update l.heap p o q = none := by
  rw [Function.update_of_ne (fun he => by rw [he, hp] at hq; cases hq)]
  exact hq

/-- **Each move closes a live state at most**, or the one that failed to be created. -/
theorem Closed.move {x x' : World w} (ho : Own x.loc) (h : Closed x.loc) (hm : LocMove c I x x') : Closed x'.loc := by
  have hlive {p : Nat} {state : LuaState w} (hp : x.loc.heap p = some state) : p < x.loc.next ∧ x.loc.heap p ≠ none :=
    ⟨ho.fresh p (ho.mem_places hp), by rw [hp]; simp⟩
  cases hm with
  | initFailed hf hst hadm =>
    exact h.close rfl (.inl (le_refl _)) (Nat.lt_succ_self _) (Nat.le_succ _) ho.next_heap fun q hq => hq
  | create r state timers hst hadm hroom hr hnew ht =>
    refine h.same rfl (Nat.le_succ _) fun q hlt hq => ?_
    exact (Function.update_of_ne (Nat.ne_of_lt hlt) _ _).trans hq
  | reuse r p states state state' timers hst hp hr hh hcount hmem huse ht =>
    exact h.same rfl (le_refl _) fun q _ hq => update_dead hp _ q hq
  | post t ht hph => exact h.same rfl (le_refl _) fun q _ hq => hq
  | run t state state' log error setclose ht hph hp hran => exact h.same rfl (le_refl _) fun q _ hq => update_dead hp _ q hq
  | giveUp t state ht hph hp =>
    exact h.close rfl (.inr (hlive hp).2) (hlive hp).1 (le_refl _) (Function.update_self ..) fun q hq => update_dead hp _ q hq
  | giveBack t state state' timers ht hph hp hh hcount hreuse hmem huse htm =>
    exact h.same rfl (le_refl _) fun q _ hq => update_dead hp _ q hq
  | expireBusy p state hp huse => exact h.same rfl (le_refl _) fun q _ hq => update_dead hp _ q hq
  | expireIdle p state hmem hp =>
    exact h.close rfl (.inr (hlive hp).2) (hlive hp).1 (le_refl _) (Function.update_self ..) fun q hq => update_dead hp _ q hq
  | cleanup p states state hst hp =>
    exact h.close rfl (.inr (hlive hp).2) (hlive hp).1 (le_refl _) (Function.update_self ..) fun q hq => update_dead hp _ q hq
  | arrive => exact h.same rfl (le_refl _) fun q _ hq => hq
  | finalize r rc hr => exact h.same rfl (le_refl _) fun q _ hq => hq
  | queue r hr hnew hroom hmax => exact h.same rfl (le_refl _) fun q _ hq => hq
  | dequeue r requests hreq => exact h.same rfl (le_refl _) fun q _ hq => hq
  | setQev qev => exact h.same rfl (le_refl _) fun q _ hq => hq

theorem ReachableBy.closed {ok : Event w → Prop} {x : World w} (h : ReachableBy c ok x) : Closed x.loc :=
  (h.invariant (I := True) (P := fun x => Closed x.loc) (fun _ _ _ => trivial)
    (fun _ => ⟨List.nodup_nil, by simp [Loc.closings], by simp [Loc.closings]⟩) fun _ _ ho hc hm => hc.move ho hm).2

theorem filter_eq_singleton {α : Type} (f : α → Nat) : ∀ {l : List α} {a : α}, (l.map f).Nodup → a ∈ l →
    l.filter (fun b => f b = f a) = [a]
  | [], _, _, ha => by cases ha
  | b :: l, a, hn, ha => by
    obtain ⟨hb, hn⟩ := List.nodup_cons.1 hn
    rcases List.mem_cons.1 ha with rfl | ha
    · rw [List.filter_cons_of_pos (by simp), List.filter_eq_nil_iff.2]
      exact fun b' hb' he => hb (List.mem_map.2 ⟨b', hb', by simpa using he⟩)
    · rw [List.filter_cons_of_neg, filter_eq_singleton f hn ha]
      exact fun he => hb (List.mem_map.2 ⟨a, ha, (by simpa using he : f b = f a).symm⟩)

/-- **Exclusive ownership of Lua states.**  A live state is linked once, idle and not in use, or has one request, which has not
given it back, and is in use.  A state is closed at most once and never with a task running on it, and from then on it is
freed and no link, task or timer refers to it.  No handler uses a freed state. -/
theorem lua_state_has_one_owner {x : World w} (h : Reachable c x) :
    (∀ p state, x.loc.heap p = some state →
      x.loc.states.count p = 1 ∧ x.loc.tasks.filter (fun t => t.state = p) = [] ∧ state.inUse = false ∨
      x.loc.states.count p = 0 ∧ state.inUse = true ∧
        ∃ t, x.loc.tasks.filter (fun t => t.state = p) = [t] ∧ ∀ q, .released t.request q ∉ x.loc.trace) ∧
    (∀ p ∈ x.loc.places ++ x.loc.timers, (x.loc.heap p).isSome = true) ∧
    (x.loc.closings.map Prod.fst).Nodup ∧
    (∀ p running, .closed p running ∈ x.loc.trace →
      running = false ∧ x.loc.heap p = none ∧ p ∉ x.loc.states ∧ p ∉ x.loc.tasks.map Task.state ∧ p ∉ x.loc.timers) ∧
    ∀ e, Enabled x.loc e → ∃ x', handle c x e = some x' := by
  have ho := h.own
  have hc := h.closed
  have hlinked : ∀ p ∈ x.loc.places ++ x.loc.timers, (x.loc.heap p).isSome = true := fun p hp => by
    rcases List.mem_append.1 hp with hp | hp
    · exact (ho.live p).2 hp
    · obtain ⟨state, hs, -⟩ := (ho.timer p).1 hp
      rw [hs]
      rfl
  refine ⟨fun p state hp => ?_, hlinked, hc.nodup, fun p running hm => ?_, fun e he => ?_⟩
  · rcases List.mem_append.1 (ho.mem_places hp) with hm | hm
    · refine .inl ⟨List.count_eq_one_of_mem (List.nodup_append.1 ho.nodup).1 hm, ?_, (ho.idle p hm state hp).1⟩
      exact List.filter_eq_nil_iff.2 fun t ht he => ho.idle_not_task hm (List.mem_map.2 ⟨t, ht, by simpa using he⟩)
    · obtain ⟨t, ht, rfl⟩ := List.mem_map.1 hm
      refine .inr ⟨List.count_eq_zero.2 fun hs => ho.idle_not_task hs hm, ho.busy t ht state hp, t, ?_, fun q hr => ?_⟩
      · exact filter_eq_singleton Task.state (List.nodup_append.1 ho.nodup).2.1 ht
      · exact ho.served _ q hr (List.mem_append_right _ (List.mem_map_of_mem ht))
  · have hcl := mem_closings.2 hm
    have hdead := (hc.dead p (List.mem_map_of_mem hcl)).2
    have hnot {q : Nat} (hq : q ∈ x.loc.places ++ x.loc.timers) : q ≠ p := fun he => by
      have := hlinked q hq
      rw [he, hdead] at this
      cases this
    exact ⟨hc.quiet _ hcl, hdead, fun hm => hnot (List.mem_append_left _ (List.mem_append_left _ hm)) rfl,
      fun hm => hnot (List.mem_append_left _ (List.mem_append_right _ hm)) rfl, fun hm => hnot (List.mem_append_right _ hm) rfl⟩
  · obtain ⟨x', hx, -⟩ := handle_moves (c := c) (I := True) ho he fun _ => trivial
    exact ⟨x', hx⟩

/-- Two requests, the second with an error, and the expiry of the state that is left. -/
theorem lua_state_has_one_owner_expired :
    let x := execute (w := 64) { stateTimeMax := 1000 } [.body true {}, .body true {}, .thread 0 {} (fun _ => {}) 0,
      .finalization 0 {}, .thread 1 {} (fun _ => ⟨[], .error⟩) 0, .finalization 1 {}, .stateTimer 0 1000] {}
    x.loc.closings = [(0, false), (1, false)] ∧ (x.loc.closings.map Prod.fst).Nodup ∧ ∀ p running, .closed p running ∈ x.loc.trace →
      running = false ∧ x.loc.heap p = none ∧ p ∉ x.loc.states ∧ p ∉ x.loc.tasks.map Task.state ∧ p ∉ x.loc.timers := by
  refine ⟨by decide, ?_⟩
  obtain ⟨-, -, h⟩ := lua_state_has_one_owner (execute_reachable (c := { stateTimeMax := 1000 }) [.body true {}, .body true {},
    .thread 0 {} (fun _ => {}) 0, .finalization 0 {}, .thread 1 {} (fun _ => ⟨[], .error⟩) 0, .finalization 1 {},
    .stateTimer 0 1000] reachable_empty fun _ _ => trivial)
  exact ⟨h.1, h.2.1⟩

end Lws

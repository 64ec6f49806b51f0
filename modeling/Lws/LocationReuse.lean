import Lws.ChunkFlags
import Lws.LocationOwnership
/-!
# LocationReuse — which Lua states serve another request

The acts about a state are its history.  An idle state has a sound one: no error, no `lws.setclose`, no expiry and fewer requests
than the limit; and the chunks called on any state begin with one successful call of the init chunk.
-/
namespace Lws

variable {w : Nat} {c : LocConf w} {I : Prop}

def Act.state : Act w → Option Nat
  | .created p | .acquired _ p _ | .ran _ p _ _ _ | .released _ p | .closed p _ | .expired p => some p
  | .initFailed | .queued _ | .dequeued _ | .finalized _ _ => none

def Act.log : Act w → List (Chunk × Bool)
  | .ran _ _ log _ _ => log
  | _ => []

/-- A run that ends in an error, or calls `lws.setclose`. -/
def Act.breaks : Act w → Bool
  | .ran _ _ _ error setclose => error || setclose
  | _ => false

def Act.isExpired : Act w → Bool
  | .expired _ => true
  | _ => false

def Act.isReleased : Act w → Bool
  | .released _ _ => true
  | _ => false

def actsOn (p : Nat) (trace : List (Act w)) : List (Act w) := trace.filter fun a => a.state = some p

def called (acts : List (Act w)) : List (Chunk × Bool) := acts.reverse.flatMap Act.log

def served (acts : List (Act w)) : Int := (acts.filter Act.isReleased).length

theorem actsOn_append (p : Nat) (new trace : List (Act w)) : actsOn p (new ++ trace) = actsOn p new ++ actsOn p trace :=
  List.filter_append ..

theorem actsOn_other {p : Nat} {new : List (Act w)} (h : ∀ a ∈ new, a.state ≠ some p) : actsOn p new = [] :=
  List.filter_eq_nil_iff.2 fun a ha he => h a ha (by simpa using he)

theorem called_cons (a : Act w) (acts : List (Act w)) : called (a :: acts) = called acts ++ a.log := by
  simp [called]

/-! ## The history of a state -/

/-- **The history of a live state**, in its fields. -/
structure Past (c : LocConf w) (acts : List (Act w)) (state : LuaState w) : Prop where
  count : state.requestCount = served acts
  sound : state.close = false → ∀ a ∈ acts, a.breaks = false
  unexpired : state.tev.timedout = false → ∀ a ∈ acts, a.isExpired = false
  chunks : InitCalls c.chunks false state.init (called acts)
  unrun : state.init = false → state.close = false → called acts = []

structure History (c : LocConf w) (l : Loc w) : Prop where
  past : ∀ p state, l.heap p = some state → Past c (actsOn p l.trace) state
  chunks : ∀ p, ∃ init, InitCalls c.chunks false init (called (actsOn p l.trace))
  fresh : ∀ p, l.next ≤ p → actsOn p l.trace = []
  reusable : ∀ p ∈ l.states, ∀ state, l.heap p = some state → Reusable c state
  ready : ∀ t ∈ l.tasks, t.phase ≠ .done → ∀ state, l.heap t.state = some state → state.close = false

section
variable {l l' : Loc w}

theorem History.write (h : History c l) {p : Nat} (new : List (Act w)) (htrace : l'.trace = new ++ l.trace)
    (hnew : ∀ a ∈ new, ∀ q, a.state = some q → q = p) (hheap : ∀ q, q ≠ p → l'.heap q = l.heap q) (hnext : l.next ≤ l'.next)
    (hp : p < l'.next) (hpast : ∀ state, l'.heap p = some state → Past c (actsOn p new ++ actsOn p l.trace) state)
    (hchunks : ∃ init, InitCalls c.chunks false init (called (actsOn p new ++ actsOn p l.trace)))
    (hreusable : ∀ q ∈ l'.states, q ≠ p ∧ q ∈ l.states ∨ q = p ∧ ∀ state, l'.heap p = some state → Reusable c state)
    (hready : ∀ t ∈ l'.tasks, t.phase ≠ .done → t.state ≠ p ∧ t ∈ l.tasks ∨
      t.state = p ∧ ∀ state, l'.heap p = some state → state.close = false) : History c l' := by
  have hself : actsOn p l'.trace = actsOn p new ++ actsOn p l.trace := by rw [htrace, actsOn_append]
  have hother {q : Nat} (hq : q ≠ p) : actsOn q l'.trace = actsOn q l.trace := by
    rw [htrace, actsOn_append, actsOn_other fun a ha he => hq (hnew a ha q he), List.nil_append]
  refine ⟨fun q state hs => ?_, fun q => ?_, fun q hq => ?_, fun q hq state hs => ?_, fun t ht hph state hs => ?_⟩
  · rcases eq_or_ne q p with rfl | hne
    · rw [hself]
      exact hpast state hs
    · rw [hother hne]
      rw [hheap q hne] at hs
      exact h.past q state hs
  · rcases eq_or_ne q p with rfl | hne
    · rw [hself]
      exact hchunks
    · rw [hother hne]
      exact h.chunks q
  · rw [hother (by omega)]
    exact h.fresh q (Nat.le_trans hnext hq)
  · rcases hreusable q hq with ⟨hne, hm⟩ | ⟨rfl, hr⟩
    · rw [hheap q hne] at hs
      exact h.reusable q hm state hs
    · exact hr state hs
  · rcases hready t ht hph with ⟨hne, hm⟩ | ⟨he, hc⟩
    · rw [hheap _ hne] at hs
      exact h.ready t hm hph state hs
    · rw [he] at hs
      exact hc state hs

end

/-! ## Each move adds to the history -/

section
variable {acts : List (Act w)} {state state' : LuaState w} {a : Act w}

theorem served_cons (a : Act w) (acts : List (Act w)) : served (a :: acts) = served acts + if a.isReleased then 1 else 0 := by
  simp only [served, List.filter_cons]
  split <;> simp

theorem Past.cons (h : Past c acts state) (state' : LuaState w) (hlog : a.log = []) (hbreaks : a.breaks = false)
    (hinit : state'.init = state.init)
    (hclose : state'.close = state.close)
    (hexp : state'.tev.timedout = false → state.tev.timedout = false ∧ a.isExpired = false)
    (hcount : state'.requestCount = state.requestCount + if a.isReleased then 1 else 0) : Past c (a :: acts) state' := by
  have hcalled : called (a :: acts) = called acts := by rw [called_cons, hlog, List.append_nil]
  refine ⟨by rw [hcount, served_cons, h.count], fun hc b hb => ?_, fun ht b hb => ?_, ?_, ?_⟩
  · rcases List.mem_cons.1 hb with rfl | hb
    · exact hbreaks
    · exact h.sound (hclose ▸ hc) b hb
  · obtain ⟨hold, ha⟩ := hexp ht
    rcases List.mem_cons.1 hb with rfl | hb
    · exact ha
    · exact h.unexpired hold b hb
  · rw [hcalled, hinit]
    exact h.chunks
  · rw [hcalled, hinit, hclose]
    exact h.unrun

theorem Past.ran (h : Past c acts state) (hopen : state.close = false) (r p : Nat) {log : List (Chunk × Bool)}
    {error setclose : Bool} (hran : Ran c.chunks state state' log error setclose) :
    Past c (.ran r p log error setclose :: acts) state' := by
  obtain ⟨⟨env, beh, hinit, hclose, hlog, herror, hsetclose⟩, hcount, -, -, -, htev, -⟩ := hran
  obtain ⟨hcalls, hmarks, hmark⟩ := lwsRunState_calls beh c.chunks env state.init state.close
  rw [← hinit, ← hlog] at hcalls
  rw [← hclose, ← herror, ← hsetclose, hopen, Bool.false_or] at hmarks
  rw [← hinit, ← hclose] at hmark
  have hcalled : called (.ran r p log error setclose :: acts) = called acts ++ log := called_cons ..
  refine ⟨?_, fun hc a ha => ?_, fun ht a ha => ?_, ?_, fun hi hc => ?_⟩
  · rw [hcount, served_cons, h.count]
    simp [Act.isReleased]
  · rcases List.mem_cons.1 ha with rfl | ha
    · rw [hmarks] at hc
      exact hc
    · exact h.sound hopen a ha
  · rcases List.mem_cons.1 ha with rfl | ha
    · rfl
    · exact h.unexpired (htev ▸ ht) a ha
  · rw [hcalled]
    have hchunks := h.chunks
    have hunrun := h.unrun
    generalize state.init = init at hcalls hchunks hunrun
    cases init with
    | true =>
      obtain ⟨hinit', hn⟩ := hcalls.of_init
      rw [hinit']
      exact hchunks.append hn
    | false =>
      rw [hunrun rfl hopen]
      exact hcalls
  · rw [hmark hi] at hc
    cases hc

end

theorem called_silent {new acts : List (Act w)} (h : ∀ a ∈ new, a.log = []) : called (new ++ acts) = called acts := by
  induction new with
  | nil => rfl
  | cons a new ih =>
    rw [List.cons_append, called_cons, h a List.mem_cons_self, List.append_nil]
    exact ih fun b hb => h b (List.mem_cons_of_mem _ hb)

theorem called_actsOn {p : Nat} {new acts : List (Act w)} (h : ∀ a ∈ new, a.log = []) :
    called (actsOn p new ++ acts) = called acts := called_silent fun a ha => h a (List.mem_of_mem_filter ha)

theorem History.free {l l' : Loc w} (h : History c l) {p : Nat} (hp : p < l.next) (new : List (Act w))
    (htrace : l'.trace = new ++ l.trace) (hnew : ∀ a ∈ new, (∀ q, a.state = some q → q = p) ∧ a.log = [])
    (hheap : l'.heap = Function.update l.heap p none) (hnext : l'.next = l.next)
    (hstates : ∀ q ∈ l'.states, q ≠ p ∧ q ∈ l.states) (htasks : ∀ t ∈ l'.tasks, t.state ≠ p ∧ t ∈ l.tasks) : History c l' := by
  have hself : l'.heap p = none := by rw [hheap, Function.update_self]
  refine h.write new htrace (fun a ha => (hnew a ha).1) (fun q hq => by rw [hheap, Function.update_of_ne hq]) hnext.ge
    (hnext ▸ hp) (fun state hs => ?_) ?_ (fun q hq => .inl (hstates q hq)) (fun t ht _ => .inl (htasks t ht))
  · rw [hself] at hs
    cases hs
  · rw [called_actsOn fun a ha => (hnew a ha).2]
    exact h.chunks p

theorem actsOn_cons_self {p : Nat} {a : Act w} (h : a.state = some p) : actsOn p [a] = [a] :=
  List.filter_cons_of_pos (by simp [h])

theorem History.move {x x' : World w} (ho : Own x.loc) (h : History c x.loc) (hm : LocMove c I x x') : History c x'.loc := by
  have hlive {p : Nat} {state : LuaState w} (hp : x.loc.heap p = some state) : p < x.loc.next := ho.fresh p (ho.mem_places hp)
  have hidle {p : Nat} (hp : p ∈ x.loc.states) {t : Task} (ht : t ∈ x.loc.tasks) : t.state ≠ p := fun he =>
    ho.idle_not_task hp (he ▸ List.mem_map_of_mem ht)
  have hother {q : Nat} (p : Nat) (o : Option (LuaState w)) (hq : q ≠ p) :
      Function.update x.loc.heap p o q = x.loc.heap q := Function.update_of_ne hq _ _
  have hself {p : Nat} {state state' : LuaState w} (hs : Function.update x.loc.heap p (some state) p = some state') :
      state' = state := by
    rw [Function.update_self] at hs
    exact (Option.some.inj hs).symm
  cases hm with
  | initFailed hf hst hadm =>
    refine h.write (p := x.loc.next) [.closed x.loc.next false, .initFailed] rfl (by simp [Act.state]) (fun _ _ => rfl)
      (Nat.le_succ _) (Nat.lt_succ_self _) (fun state hs => ?_) ?_ (fun q hq => ?_) (fun t ht _ => .inl ⟨fun he => ?_, ht⟩)
    · rw [ho.next_heap] at hs
      cases hs
    · rw [called_silent (by simp [actsOn, Act.log]), h.fresh _ (le_refl _)]
      exact ⟨false, .early⟩
    · exact .inl ⟨fun he => ho.next_places (he ▸ List.mem_append_left _ hq), hq⟩
    · exact ho.next_places (he ▸ List.mem_append_right _ (List.mem_map_of_mem ht))
  | create r state timers hst hadm hroom hr hnew ht =>
    obtain ⟨hinit, hclose, htd, hcount, -, -⟩ := hnew
    have hpast : Past c [.acquired r x.loc.next none, .created x.loc.next] state :=
      ⟨hcount, fun _ => by simp [Act.breaks], fun _ => by simp [Act.isExpired], by rw [hinit]; exact .early, fun _ _ => rfl⟩
    have hacts : actsOn x.loc.next [.acquired r x.loc.next none, .created x.loc.next] ++ actsOn x.loc.next x.loc.trace =
        [.acquired r x.loc.next none, .created (w := w) x.loc.next] := by
      rw [h.fresh _ (le_refl _)]
      simp [actsOn, Act.state]
    refine h.write (p := x.loc.next) [.acquired r x.loc.next none, .created x.loc.next] rfl (by simp [Act.state])
      (fun q hq => hother _ _ hq) (Nat.le_succ _) (Nat.lt_succ_self _) (fun state' hs => ?_) ?_ (fun q hq => ?_)
      (fun t htm _ => ?_)
    · rw [hacts, hself hs]
      exact hpast
    · rw [hacts]
      exact ⟨false, .early⟩
    · dsimp only at hq
      rw [hst] at hq
      cases hq
    · rcases List.mem_cons.1 htm with rfl | htm
      · exact .inr ⟨rfl, fun state' hs => by rw [hself hs, hclose]⟩
      · exact .inl ⟨fun he => ho.next_places (he ▸ List.mem_append_right _ (List.mem_map_of_mem htm)), htm⟩
  | reuse r p states state state' timers hst hp hr hh hcount hmem huse ht =>
    have hpm : p ∈ x.loc.states := by rw [hst]; exact List.mem_cons_self
    have hreuse := h.reusable p hpm state hp
    have hpast := (h.past p state hp).cons (a := .acquired r p (some (state, decide (p ∈ x.loc.timers)))) state'
      rfl rfl hh.init hh.close (fun htd => ⟨hh.timedout ▸ htd, rfl⟩) (by simp [hcount, Act.isReleased])
    have hnd := (List.nodup_append.1 ho.nodup).1
    rw [hst] at hnd
    refine h.write (p := p) [.acquired r p (some (state, decide (p ∈ x.loc.timers)))] rfl (by simp [Act.state])
      (fun q hq => hother _ _ hq) (le_refl _) (hlive hp) (fun st hs => ?_) ?_ (fun q hq => .inl ⟨fun he => ?_, ?_⟩)
      (fun t htm _ => ?_)
    · rw [actsOn_cons_self rfl, hself hs]
      exact hpast
    · rw [actsOn_cons_self rfl]
      exact ⟨_, hpast.chunks⟩
    · exact (List.nodup_cons.1 hnd).1 (he ▸ hq)
    · rw [hst]
      exact List.mem_cons_of_mem _ hq
    · rcases List.mem_cons.1 htm with rfl | htm
      · exact .inr ⟨rfl, fun st hs => by rw [hself hs, hh.close, hreuse.1]⟩
      · exact .inl ⟨hidle hpm htm, htm⟩
  | post t ht hph =>
    refine ⟨h.past, h.chunks, h.fresh, h.reusable, fun t' ht' hph' state hs => ?_⟩
    obtain ⟨t₀, ht₀, rfl⟩ := List.mem_map.1 ht'
    by_cases he : t₀.request = t.request
    · rw [if_pos he] at hs
      rw [ho.task_unique ht ht₀ he] at hs
      exact h.ready t ht (by rw [hph]; simp) state hs
    · rw [if_neg he] at hs hph'
      exact h.ready t₀ ht₀ hph' state hs
  | run t state state' log error setclose ht hph hp hran =>
    have hopen := h.ready t ht (by rw [hph]; simp) state hp
    have hpast := (h.past _ state hp).ran hopen t.request t.state hran
    have hstate : t.state ∈ x.loc.tasks.map Task.state := List.mem_map_of_mem ht
    refine h.write (p := t.state) [.ran t.request t.state log error setclose] rfl (by simp [Act.state])
      (fun q hq => hother _ _ hq) (le_refl _) (hlive hp) (fun st hs => ?_) ?_
      (fun q hq => .inl ⟨fun he => ho.idle_not_task (he ▸ hq) hstate, hq⟩) (fun t' ht' hph' => ?_)
    · rw [actsOn_cons_self rfl, hself hs]
      exact hpast
    · rw [actsOn_cons_self rfl]
      exact ⟨_, hpast.chunks⟩
    · obtain ⟨t₀, ht₀, rfl⟩ := List.mem_map.1 ht'
      by_cases he : t₀.request = t.request
      · rw [if_pos he] at hph'
        exact absurd rfl hph'
      · rw [if_neg he]
        exact .inl ⟨fun hs => he (by rw [ho.state_unique ht ht₀ hs]), ht₀⟩
  | giveUp t state ht hph hp =>
    have hstate : t.state ∈ x.loc.tasks.map Task.state := List.mem_map_of_mem ht
    refine h.free (hlive hp) [.closed t.state false, .released t.request t.state] rfl (by simp [Act.state, Act.log]) rfl rfl
      (fun q hq => ⟨fun he => ho.idle_not_task (he ▸ hq) hstate, hq⟩) (fun t' ht' => ?_)
    have hm := (ho.mem_drop_task ht _).1 (List.mem_map_of_mem ht')
    exact ⟨hm.1, List.mem_of_mem_filter ht'⟩
  | giveBack t state state' timers ht hph hp hh hcount hreuse hmem huse htm =>
    have hstate : t.state ∈ x.loc.tasks.map Task.state := List.mem_map_of_mem ht
    have hpast := (h.past _ state hp).cons (a := .released t.request t.state) state' rfl rfl hh.init hh.close
      (fun htd => ⟨hh.timedout ▸ htd, rfl⟩) hcount
    refine h.write (p := t.state) [.released t.request t.state] rfl (by simp [Act.state]) (fun q hq => hother _ _ hq) (le_refl _)
      (hlive hp) (fun st hs => ?_) ?_ (fun q hq => ?_) (fun t' ht' _ => ?_)
    · rw [actsOn_cons_self rfl, hself hs]
      exact hpast
    · rw [actsOn_cons_self rfl]
      exact ⟨_, hpast.chunks⟩
    · rcases List.mem_cons.1 hq with rfl | hq
      · exact .inr ⟨rfl, fun st hs => by rw [hself hs]; exact hreuse⟩
      · exact .inl ⟨fun he => ho.idle_not_task (he ▸ hq) hstate, hq⟩
    · exact .inl ⟨((ho.mem_drop_task ht _).1 (List.mem_map_of_mem ht')).1, List.mem_of_mem_filter ht'⟩
  | expireBusy p state hp huse =>
    have hpast := (h.past p state hp).cons (a := .expired p)
      { state with tev := { state.tev with timerSet := false, timedout := true } } rfl rfl rfl rfl
      (fun htd => nomatch htd) (by simp [Act.isReleased])
    refine h.write (p := p) [.expired p] rfl (by simp [Act.state]) (fun q hq => hother _ _ hq) (le_refl _) (hlive hp)
      (fun st hs => ?_) ?_ (fun q hq => .inl ⟨fun he => ?_, hq⟩) (fun t ht hph => ?_)
    · rw [actsOn_cons_self rfl, hself hs]
      exact hpast
    · rw [actsOn_cons_self rfl]
      exact ⟨_, hpast.chunks⟩
    · have := (ho.idle q hq state (he ▸ hp)).1
      rw [huse] at this
      cases this
    · by_cases he : t.state = p
      · exact .inr ⟨he, fun st hs => by rw [hself hs]; exact h.ready t ht hph state (he ▸ hp)⟩
      · exact .inl ⟨he, ht⟩
  | expireIdle p state hmem hp =>
    refine h.free (hlive hp) [.closed p false, .expired p] rfl (by simp [Act.state, Act.log]) rfl rfl (fun q hq => ?_)
      (fun t ht => ⟨hidle hmem ht, ht⟩)
    exact (List.nodup_append.1 ho.nodup).1.mem_erase_iff.1 hq
  | cleanup p states state hst hp =>
    have hpm : p ∈ x.loc.states := by rw [hst]; exact List.mem_cons_self
    have hnd := (List.nodup_append.1 ho.nodup).1
    rw [hst] at hnd
    refine h.free (hlive hp) [.closed p false] rfl (by simp [Act.state, Act.log]) rfl rfl (fun q hq => ⟨fun he => ?_, ?_⟩)
      (fun t ht => ⟨hidle hpm ht, ht⟩)
    · exact (List.nodup_cons.1 hnd).1 (he ▸ hq)
    · rw [hst]
      exact List.mem_cons_of_mem _ hq
  | arrive => exact ⟨h.past, h.chunks, h.fresh, h.reusable, h.ready⟩
  | finalize r rc hr => exact ⟨h.past, h.chunks, h.fresh, h.reusable, h.ready⟩
  | queue r hr hnew hroom hmax => exact ⟨h.past, h.chunks, h.fresh, h.reusable, h.ready⟩
  | dequeue r requests hreq => exact ⟨h.past, h.chunks, h.fresh, h.reusable, h.ready⟩
  | setQev qev => exact ⟨h.past, h.chunks, h.fresh, h.reusable, h.ready⟩

theorem history_empty : History c ({} : Loc w) :=
  ⟨fun _ _ hs => (nomatch hs), fun _ => ⟨false, .early⟩, fun _ _ => rfl, fun _ hp => (nomatch hp), fun _ ht => (nomatch ht)⟩

theorem ReachableBy.history {ok : Event w → Prop} {x : World w} (h : ReachableBy c ok x) : History c x.loc :=
  (h.invariant (I := True) (P := fun x => History c x.loc) (fun _ _ _ => trivial)
    (fun _ => history_empty) fun _ _ ho hh hm => hh.move ho hm).2

/-! ## Idle states handed out -/

/-- Each idle state that was handed out had a sound history, and a timer exactly if it had a deadline. -/
def HandedOut (c : LocConf w) (trace : List (Act w)) : Prop :=
  ∀ r p state armed before, (.acquired r p (some (state, armed)) :: before) <:+ trace →
    Past c (actsOn p before) state ∧ Reusable c state ∧ armed = state.finite

theorem HandedOut.silent {trace : List (Act w)} (h : HandedOut c trace) :
    ∀ new : List (Act w), (∀ a ∈ new, ∀ r p idle, a ≠ .acquired r p (some idle)) → HandedOut c (new ++ trace)
  | [], _ => h
  | a :: new, hnew => fun r p state armed before hs => by
    rcases List.suffix_cons_iff.1 hs with he | hs
    · cases he
      exact absurd rfl (hnew _ List.mem_cons_self r p (state, armed))
    · exact h.silent new (fun b hb => hnew b (List.mem_cons_of_mem _ hb)) r p state armed before hs

theorem HandedOut.move {x x' : World w} (ho : Own x.loc) (hh : History c x.loc) (h : HandedOut c x.loc.trace)
    (hm : LocMove c I x x') : HandedOut c x'.loc.trace := by
  cases hm with
  | initFailed hf hst hadm => exact h.silent [.closed x.loc.next false, .initFailed] (by simp)
  | create r state timers hst hadm hroom hr hnew ht =>
    exact h.silent [.acquired r x.loc.next none, .created x.loc.next] (by simp)
  | reuse r p states state state' timers hst hp hr hh' hcount hmem huse ht =>
    have hpm : p ∈ x.loc.states := by rw [hst]; exact List.mem_cons_self
    intro r' q st armed before hs
    rcases List.suffix_cons_iff.1 hs with he | hs
    · cases he
      have harm := ho.armed p state hp (ho.idle p hpm state hp).2
      refine ⟨hh.past p state hp, hh.reusable p hpm state hp, ?_⟩
      rw [← harm, Bool.eq_iff_iff, decide_eq_true_eq]
      exact ho.timer_iff hp
    · exact h r' q st armed before hs
  | post t ht hph => exact h
  | run t state state' log error setclose ht hph hp hran => exact h.silent [.ran t.request t.state log error setclose] (by simp)
  | giveUp t state ht hph hp => exact h.silent [.closed t.state false, .released t.request t.state] (by simp)
  | giveBack t state state' timers ht hph hp hh hcount hreuse hmem huse htm =>
    exact h.silent [.released t.request t.state] (by simp)
  | expireBusy p state hp huse => exact h.silent [.expired p] (by simp)
  | expireIdle p state hmem hp => exact h.silent [.closed p false, .expired p] (by simp)
  | cleanup p states state hst hp => exact h.silent [.closed p false] (by simp)
  | arrive => exact h
  | finalize r rc hr => exact h.silent [.finalized r rc] (by simp)
  | queue r hr hnew hroom hmax => exact h.silent [.queued r] (by simp)
  | dequeue r requests hreq => exact h.silent [.dequeued r] (by simp)
  | setQev qev => exact h

theorem ReachableBy.handedOut {ok : Event w → Prop} {x : World w} (h : ReachableBy c ok x) : HandedOut c x.loc.trace :=
  (h.invariant (I := True) (P := fun x => History c x.loc ∧ HandedOut c x.loc.trace) (fun _ _ _ => trivial)
    (fun _ => ⟨history_empty, fun _ _ _ _ _ hs => by simp at hs⟩)
    fun _ _ ho hp hm => ⟨hp.1.move ho hm, hp.2.move ho hp.1 hm⟩).2.2

/-- **The reuse policy.**  An idle state that `lws_acquire_state` hands out had no error and no `lws.setclose` in its earlier
runs, has served fewer requests than the limit, has never expired, and has a timer exactly if it has a lifetime or a deadline.
On every state the init chunk is called once at most, has succeeded once before any other chunk is called, and is not called
after it. -/
theorem reused_state_is_sound {x : World w} (h : Reachable c x) :
    (∀ r p state armed before, (.acquired r p (some (state, armed)) :: before) <:+ x.loc.trace →
      (∀ r' log error setclose, .ran r' p log error setclose ∈ before → error = false ∧ setclose = false) ∧
      state.requestCount = served (actsOn p before) ∧
      (0 < c.stateRequestsMax → state.requestCount < c.stateRequestsMax) ∧
      .expired p ∉ before ∧ state.tev.timedout = false ∧
      (armed = true ↔ state.timeMax ≠ timerInfinite w ∨ state.timeout ≠ timerInfinite w)) ∧
    ∀ p, ((called (actsOn p x.loc.trace)).filter fun c => c.1 = .init).length ≤ 1 ∧
      ∀ before k ok after, called (actsOn p x.loc.trace) = before ++ (k, ok) :: after → k ≠ .init →
        (c.chunks.init = true → before.count (.init, true) = 1) ∧ NoInit after := by
  refine ⟨fun r p state armed before hs => ?_, fun p => ?_⟩
  · obtain ⟨hpast, ⟨hclose, htd, hcount⟩, harmed⟩ := h.handedOut r p state armed before hs
    refine ⟨fun r' log error setclose hm => ?_, hpast.count, hcount, fun hm => ?_, htd, ?_⟩
    · have hb := hpast.sound hclose (.ran r' p log error setclose) (List.mem_filter.2 ⟨hm, by simp [Act.state]⟩)
      simpa [Act.breaks] using hb
    · have hb := hpast.unexpired htd (.expired p) (List.mem_filter.2 ⟨hm, by simp [Act.state]⟩)
      cases hb
    · rw [harmed]
      simp [LuaState.finite]
  · obtain ⟨init, hi⟩ := h.history.chunks p
    exact ⟨hi.once, fun before k ok after he hk => hi.split he hk⟩

/-- A state with a lifetime is taken back by a second request after its task could not be posted for a first. -/
theorem reused_state_is_sound_unposted :
    let x := execute (w := 64) { stateTimeMax := 1000, chunks := { init := true } } [.body true { post := false }, .body true {},
      .thread 1 {} (fun _ => {}) 0, .finalization 1 {}, .body true {}, .thread 2 {} (fun _ => {}) 0] {}
    called (actsOn 0 x.loc.trace) = [(.init, true), (.main, true), (.main, true)] ∧
      ((called (actsOn 0 x.loc.trace)).filter fun c => c.1 = .init).length ≤ 1 :=
  ⟨by decide, ((reused_state_is_sound (execute_reachable (c := { stateTimeMax := 1000, chunks := { init := true } })
    [.body true { post := false }, .body true {}, .thread 1 {} (fun _ => {}) 0, .finalization 1 {}, .body true {},
      .thread 2 {} (fun _ => {}) 0] reachable_empty fun _ _ => trivial)).2 0).1⟩

end Lws

import Lws.ResponseHeader
/-!
# Traversal — loops over a table of Lua (`lws_lua_table_index`, `lws_lua_table_next`, `lws_lua_table_pairs`)

`pairs` hands out a function and the table, and no more: a loop is known by its control variable, which is the last name visited.
So loops can be nested or given up, and the table can be read and assigned to while they run.  The log has what happened; an event
is `Right` if it is what the names and values accepted before it say.
-/
namespace Lws

variable {b : Build}

def lwsLuaTableIndex (seed : BitVec b.bits) (key : Key) (now : Int) (lt : LuaTable b) : LuaTable b × Option Key :=
  let (t, value) := tableGet seed lt.t key now
  ({ lt with t := t }, value)

/-- `lws_lua_table_next`: a name and the value that is read for it, which would be none for NULL; or nil. -/
def lwsLuaTableNext (seed : BitVec b.bits) (control : Option Key) (lt : LuaTable b) : Option (Key × Option Key) :=
  tableNext seed lt.t control

/-- What Lua does: an assignment or a flush, a read, the start of a loop or its next round. -/
inductive TraversalStep where
  | header (s : HeaderStep)
  | index (key : Key) (now : Int)
  | pairs (i : Nat)
  | next (i : Nat)

inductive TraversalEvent where
  | assigned (key value : Key)
  | read (key : Key) (value : Option Key)
  | began (i : Nat)
  | visited (i : Nat) (key : Key) (value : Option Key)
  | ended (i : Nat)
deriving DecidableEq

structure Traversing (b : Build) where
  lt : LuaTable b
  control : Nat → Option (Option Key) := fun _ => none

def Traversing.step (seed : BitVec b.bits) (s : Traversing b) : TraversalStep → Traversing b × List TraversalEvent
  | .header h =>
    let (lt, accepted) := LuaTable.run seed s.lt [h]
    ({ s with lt := lt }, accepted.map fun p => .assigned p.1 p.2)
  | .index key now =>
    let (lt, value) := lwsLuaTableIndex seed key now s.lt
    ({ s with lt := lt }, [.read key value])
  | .pairs i => ({ s with control := Function.update s.control i (some none) }, [.began i])
  | .next i =>
    match s.control i with
    | none => (s, [])
    | some control =>
      match lwsLuaTableNext seed control s.lt with
      | none => ({ s with control := Function.update s.control i none }, [.ended i])
      | some (key, value) => ({ s with control := Function.update s.control i (some (some key)) }, [.visited i key value])

def Traversing.run (seed : BitVec b.bits) (s : Traversing b) (steps : List TraversalStep) : Traversing b × List TraversalEvent :=
  steps.foldl (fun (s, log) step => ((s.step seed step).1, log ++ (s.step seed step).2)) (s, [])

/-! ## What a log says -/

def acceptedIn (log : List TraversalEvent) : List (Key × Key) :=
  log.filterMap fun
    | .assigned key value => some (key, value)
    | _ => none

def visitedIn (i : Nat) (log : List TraversalEvent) : List Key :=
  log.foldl (fun visits e => match e with
    | .began j => if j = i then [] else visits
    | .visited j key _ => if j = i then visits ++ [key] else visits
    | _ => visits) []

def namesIn (log : List TraversalEvent) : List Key := firstSpellings ((acceptedIn log).map Prod.fst)

def TraversalEvent.Right (log : List TraversalEvent) : TraversalEvent → Prop
  | .assigned key value => NameOk key ∧ ValueOk value
  | .read key value => value = lastAccepted (acceptedIn log) key
  | .began _ => True
  | .visited i key value => visitedIn i log ++ [key] <+: namesIn log ∧ value.isSome = true ∧ value = lastAccepted (acceptedIn log) key
  | .ended i => visitedIn i log = namesIn log

def RightLog (log : List TraversalEvent) : Prop := ∀ before e after, log = before ++ e :: after → e.Right before

theorem RightLog.concat {log : List TraversalEvent} {e : TraversalEvent} (h : RightLog log) (he : e.Right log) :
    RightLog (log ++ [e]) := by
  intro before e' after heq
  rcases List.eq_nil_or_concat after with rfl | ⟨after, e'', rfl⟩
  · obtain ⟨rfl, hlast⟩ := List.append_inj' heq rfl
    obtain rfl := List.singleton_inj.1 hlast
    exact he
  · rw [List.concat_eq_append, ← List.cons_append, ← List.append_assoc] at heq
    exact h before e' after (List.append_inj_left' heq rfl)

theorem RightLog.assigned : ∀ {accepted : List (Key × Key)} {log : List TraversalEvent}, RightLog log →
    (∀ p ∈ accepted, NameOk p.1 ∧ ValueOk p.2) → RightLog (log ++ accepted.map fun p => .assigned p.1 p.2)
  | [], log, h, _ => by rwa [List.map_nil, List.append_nil]
  | p :: accepted, log, h, hok => by
    rw [List.map_cons, List.append_cons]
    have hp : (TraversalEvent.assigned p.1 p.2).Right log := hok p List.mem_cons_self
    exact RightLog.assigned (h.concat hp) fun p' hp' => hok p' (List.mem_cons_of_mem p hp')

section
variable {log : List TraversalEvent} {i j : Nat} {key : Key} {value : Option Key}

theorem acceptedIn_append (log log' : List TraversalEvent) : acceptedIn (log ++ log') = acceptedIn log ++ acceptedIn log' :=
  List.filterMap_append

theorem acceptedIn_assigned (accepted : List (Key × Key)) :
    acceptedIn (accepted.map fun p => .assigned p.1 p.2) = accepted := by
  rw [acceptedIn, List.filterMap_map]
  exact List.filterMap_some

@[simp] theorem acceptedIn_read : acceptedIn (log ++ [.read key value]) = acceptedIn log := by
  rw [acceptedIn_append]
  exact List.append_nil _

@[simp] theorem acceptedIn_began : acceptedIn (log ++ [.began i]) = acceptedIn log := by
  rw [acceptedIn_append]
  exact List.append_nil _

@[simp] theorem acceptedIn_visited : acceptedIn (log ++ [.visited i key value]) = acceptedIn log := by
  rw [acceptedIn_append]
  exact List.append_nil _

@[simp] theorem acceptedIn_ended : acceptedIn (log ++ [.ended i]) = acceptedIn log := by
  rw [acceptedIn_append]
  exact List.append_nil _

theorem visitedIn_assigned (i : Nat) : ∀ (accepted : List (Key × Key)) (log : List TraversalEvent),
    visitedIn i (log ++ accepted.map fun p => .assigned p.1 p.2) = visitedIn i log
  | [], log => by rw [List.map_nil, List.append_nil]
  | p :: accepted, log => by
    rw [List.map_cons, List.append_cons, visitedIn_assigned i accepted, visitedIn, List.foldl_append]
    rfl

@[simp] theorem visitedIn_read : visitedIn i (log ++ [.read key value]) = visitedIn i log := by
  rw [visitedIn, List.foldl_append]
  rfl

@[simp] theorem visitedIn_began : visitedIn i (log ++ [.began j]) = if j = i then [] else visitedIn i log := by
  rw [visitedIn, List.foldl_append]
  rfl

@[simp] theorem visitedIn_visited :
    visitedIn i (log ++ [.visited j key value]) = if j = i then visitedIn i log ++ [key] else visitedIn i log := by
  rw [visitedIn, List.foldl_append]
  rfl

@[simp] theorem visitedIn_ended : visitedIn i (log ++ [.ended j]) = visitedIn i log := by
  rw [visitedIn, List.foldl_append]
  rfl

theorem namesIn_append (log log' : List TraversalEvent) : namesIn log <+: namesIn (log ++ log') := by
  rw [namesIn, namesIn, acceptedIn_append, List.map_append]
  exact Keyed.firsts_append _ _

end

/-! ## Steps -/

/-- **What holds of a table and its loops**, with the log so far. -/
structure Traversing.Sound (seed : BitVec b.bits) (s : Traversing b) (log : List TraversalEvent) : Prop where
  ci : s.lt.t.ci = true
  refines : Refines seed s.lt.t (headerMap (acceptedIn log))
  visited : ∀ i, visitedIn i log <+: namesIn log
  control : ∀ i control, s.control i = some control → control = (visitedIn i log).getLast?
  right : RightLog log

section
variable {seed : BitVec b.bits} {s : Traversing b} {log : List TraversalEvent}

/-- **The next round of a loop**: it visits the name after those it has visited, or it has visited all. -/
theorem Traversing.Sound.next (h : s.Sound seed log) (i : Nat) :
    match lwsLuaTableNext seed (visitedIn i log).getLast? s.lt with
    | none => visitedIn i log = namesIn log
    | some (key, value) =>
      visitedIn i log ++ [key] <+: namesIn log ∧ value.isSome = true ∧ value = lastAccepted (acceptedIn log) key := by
  have hnames : (headerMap (acceptedIn log)).map Prod.fst = namesIn log := headerMap_keys _
  have hd := headerMap_distinct (acceptedIn log)
  have hget := headerMap_get (acceptedIn log)
  rw [lwsLuaTableNext, h.refines.next, h.ci]
  generalize headerMap (acceptedIn log) = m at hnames hd hget
  -- the map is split where the loop has come to
  obtain ⟨rest, hrest⟩ := h.visited i
  rw [← hnames] at hrest ⊢
  obtain ⟨done, todo, rfl, hdone, htodo⟩ := List.map_eq_append_iff.1 hrest.symm
  have hlast : (visitedIn i log).getLast? = done.getLast?.map Prod.fst := by rw [← hdone, List.getLast?_map]
  rw [hlast, OrdMap.next_last hd]
  cases todo with
  | nil => rw [← hdone, List.append_nil]; rfl
  | cons p todo =>
    have hp := OrdMap.get_mem hd (List.mem_append_right done (List.mem_cons_self (a := p) (l := todo)))
    refine ⟨⟨todo.map Prod.fst, ?_⟩, rfl, hp.symm.trans (hget p.1)⟩
    rw [List.map_append, List.map_cons, hdone, List.append_assoc, List.singleton_append]

theorem control_update {f : Nat → Option (Option Key)} {i j : Nat} {c : Option (Option Key)} {control : Option Key}
    (h : Function.update f i c j = some control) : i = j ∧ c = some control ∨ i ≠ j ∧ f j = some control := by
  by_cases hj : i = j
  · subst hj
    exact .inl ⟨rfl, (Function.update_self i c f).symm.trans h⟩
  · exact .inr ⟨hj, (Function.update_of_ne (Ne.symm hj) c f).symm.trans h⟩

theorem Traversing.Sound.step (h : s.Sound seed log) (step : TraversalStep) :
    (s.step seed step).1.Sound seed (log ++ (s.step seed step).2) := by
  cases step with
  | header hs =>
    obtain ⟨hci, hok, hR⟩ := LuaTable.run_spec [hs] h.refines h.ci
    dsimp only [Traversing.step]
    generalize LuaTable.run seed s.lt [hs] = r at hci hok hR ⊢
    obtain ⟨lt, accepted⟩ := r
    refine ⟨hci, ?_, fun i => ?_, fun i control hc => ?_, h.right.assigned hok⟩
    · rw [acceptedIn_append, acceptedIn_assigned, headerMap, List.foldl_append]
      exact hR
    · rw [visitedIn_assigned]
      exact (h.visited i).trans (namesIn_append _ _)
    · rw [visitedIn_assigned]
      exact h.control i control hc
  | index key now =>
    obtain ⟨hvalue, hR, ho⟩ := h.refines.get key now
    dsimp only [Traversing.step, lwsLuaTableIndex]
    generalize tableGet seed s.lt.t key now = r at hvalue hR ho ⊢
    obtain ⟨t, value⟩ := r
    have hread : value = lastAccepted (acceptedIn log) key := by
      rw [h.ci, headerMap_get] at hvalue
      exact hvalue
    refine ⟨(options_ci ho).trans h.ci, ?_, fun i => ?_, fun i control hc => ?_, h.right.concat hread⟩
    · rw [acceptedIn_read]
      exact hR
    · rw [visitedIn_read]
      exact (h.visited i).trans (namesIn_append _ _)
    · rw [visitedIn_read]
      exact h.control i control hc
  | pairs i =>
    have hbegan : (TraversalEvent.began i).Right log := trivial
    dsimp only [Traversing.step]
    refine ⟨h.ci, by rw [acceptedIn_began]; exact h.refines, fun j => ?_, fun j control hc => ?_, h.right.concat hbegan⟩
    · rw [visitedIn_began]
      split
      · exact List.nil_prefix
      · exact (h.visited j).trans (namesIn_append _ _)
    · rw [visitedIn_began]
      obtain ⟨rfl, hset⟩ | ⟨hj, hold⟩ := control_update hc
      · rw [if_pos rfl]
        exact (Option.some.inj hset).symm
      · rw [if_neg hj]
        exact h.control j control hold
  | next i =>
    dsimp only [Traversing.step]
    cases hcontrol : s.control i with
    | none =>
      dsimp only
      rwa [List.append_nil]
    | some control =>
      have hnext := h.next i
      rw [← h.control i control hcontrol] at hnext
      dsimp only
      generalize lwsLuaTableNext seed control s.lt = r at hnext ⊢
      cases r with
      | none =>
        have hended : (TraversalEvent.ended i).Right log := hnext
        refine ⟨h.ci, by rw [acceptedIn_ended]; exact h.refines, fun j => ?_, fun j control' hc => ?_, h.right.concat hended⟩
        · rw [visitedIn_ended]
          exact (h.visited j).trans (namesIn_append _ _)
        · rw [visitedIn_ended]
          obtain ⟨-, hc⟩ | ⟨-, hc⟩ := control_update hc
          · cases hc
          · exact h.control j control' hc
      | some p =>
        obtain ⟨key, value⟩ := p
        have hvisited : (TraversalEvent.visited i key value).Right log := hnext
        refine ⟨h.ci, by rw [acceptedIn_visited]; exact h.refines, fun j => ?_, fun j control' hc => ?_, h.right.concat hvisited⟩
        · rw [visitedIn_visited]
          split
          · next hj => exact (hj ▸ hnext.1).trans (namesIn_append _ _)
          · exact (h.visited j).trans (namesIn_append _ _)
        · rw [visitedIn_visited]
          obtain ⟨rfl, hset⟩ | ⟨hj, hold⟩ := control_update hc
          · rw [if_pos rfl, List.getLast?_concat]
            exact (Option.some.inj hset).symm
          · rw [if_neg hj]
            exact h.control j control' hold

theorem Traversing.Sound.run (h : s.Sound seed []) (steps : List TraversalStep) :
    (s.run seed steps).1.Sound seed (s.run seed steps).2 := by
  induction steps using List.reverseRecOn with
  | nil => exact h
  | append_singleton steps step ih =>
    rw [Traversing.run, List.foldl_append, List.foldl_cons, List.foldl_nil, ← Traversing.run]
    exact ih.step step

end

/-- **Loops over the response headers visit what is there**: in any run of assignments, flushes, reads and rounds of any loops, a
read has the value last accepted for its name; each round of a loop visits the first of the names, as they were first spelled and
in the order in which they were first accepted, that the loop has not visited, with the value last accepted; and a loop ends when it
has visited all names, also those accepted since it began, each once. -/
theorem traversals_visit_every_name (seed : BitVec b.bits) {t : Table b Key} (hcreate : tableCreate b Key 8 true true = some t)
    (steps : List TraversalStep) :
    let log := (Traversing.run seed { lt := { t := tableConfigure t true true true } } steps).2
    (∀ before e after, log = before ++ e :: after → e.Right before) ∧
      ∀ i, visitedIn i log <+: namesIn log ∧ (visitedIn i log).Pairwise fun key key' => ¬SameName key key' := by
  intro log
  obtain ⟨hR, hci⟩ := refines_create seed hcreate true true true
  have hcreated : Traversing.Sound seed { lt := { t := tableConfigure t true true true } } [] :=
    ⟨hci, hR, fun _ => List.nil_prefix, fun _ _ hc => absurd hc.symm (Option.some_ne_none _), fun before e after heq =>
      absurd heq.symm (List.append_ne_nil_of_right_ne_nil before (List.cons_ne_nil e after))⟩
  have hsound := hcreated.run steps
  exact ⟨hsound.right, fun i =>
    ⟨hsound.visited i, (Keyed.firsts_distinct ((acceptedIn log).map Prod.fst)).sublist (hsound.visited i).sublist⟩⟩

/-- A loop that assigns to the name it visits, to one it has visited, and to a new one. -/
theorem traversals_visit_every_name_assigned :
    let assign (name value : String) : TraversalStep := .header (.assign { key := some (literal name), value := some (literal value) })
    let steps := [assign "A" "1", assign "B" "2", .pairs 0, .next 0, assign "a" "3", .next 0, assign "C" "4", assign "A" "5", .next 0,
      .index (literal "a") 0, .next 0]
    ∃ t, tableCreate .b64 Key 8 true true = some t ∧
      (∀ before e after, (Traversing.run (b := .b64) 7 { lt := { t := tableConfigure t true true true } } steps).2 =
        before ++ e :: after → e.Right before) ∧
      (Traversing.run (b := .b64) 7 { lt := { t := tableConfigure t true true true } } steps).2.getLast? = some (.ended 0) ∧
      visitedIn 0 (Traversing.run (b := .b64) 7 { lt := { t := tableConfigure t true true true } } steps).2 =
        ["A", "B", "C"].map literal := by
  intro assign steps
  have hrun : (tableCreate .b64 Key 8 true true).map (fun t =>
      let log := (Traversing.run (b := .b64) 7 { lt := { t := tableConfigure t true true true } } steps).2
      (log.getLast?, visitedIn 0 log)) = some (some (.ended 0), ["A", "B", "C"].map literal) := by
    decide +kernel
  obtain ⟨t, ht, hrun⟩ := Option.map_eq_some_iff.1 hrun
  obtain ⟨hlast, hvisited⟩ := Prod.mk.inj hrun
  exact ⟨t, ht, (traversals_visit_every_name (b := .b64) 7 ht steps).1, hlast, hvisited⟩

end Lws

import Lws.ConfMerge
import Lws.TableCreate
import Lws.TableMap
/-!
# Variables — the variables of a request (`lws_handler`, `lws_getvariable`)

`lws_handler` puts the values of the variables that are declared for the location into a table, and `lws.getvariable` looks them up
by the names as they are declared.  A name has one index, so that a name that is declared in several blocks has one value.
-/
namespace Lws

variable {b : Build} {CV : Type}

/-- Which allocations succeed for a variable: its value, and those of `lws_table_set`. -/
structure VariableAlloc where
  value : Bool := true
  set : SetAlloc := {}

section
variable (seed : BitVec b.bits) (now : Int) (indexed : Nat → Option Key) (alloc : Nat → VariableAlloc)

/-- The loop of `lws_handler` over the variables, with what `ngx_http_get_indexed_variable` has that is valid; none is
`NGX_HTTP_INTERNAL_SERVER_ERROR`. -/
def variablesLoop : List LwsVariable → Table b Key → Option (Table b Key)
  | [], t => some t
  | variable_ :: vars, t =>
    match indexed variable_.index with
    | none => variablesLoop vars t
    | some value =>
      if !(alloc vars.length).value then none
      else
        match tableSet seed t variable_.name (some value) now (alloc vars.length).set with
        | (t, rc) => if rc ≠ 0 then none else variablesLoop vars t

def prepareVariables (c₁ c₂ : Bool) (vars : List LwsVariable) : Option (Table b Key) :=
  match tableCreate b Key vars.length c₁ c₂ with
  | none => none
  | some t => variablesLoop seed now indexed alloc vars t

/-- `lws_getvariable`, which leaves the table as `lws_table_get` does; none is nil. -/
def lwsGetvariable (t : Table b Key) (key : Key) : Table b Key × Option Key := tableGet seed t key now

end

def lookups (seed : BitVec b.bits) (calls : List (Key × Int)) (t : Table b Key) : Table b Key :=
  calls.foldl (fun t call => (lwsGetvariable seed call.2 t call.1).1) t

/-! ## The table -/

def validVariables (indexed : Nat → Option Key) (vars : List LwsVariable) : List (Key × Key) :=
  vars.filterMap fun variable_ => (indexed variable_.index).map fun value => (variable_.name, value)

section
variable {seed : BitVec b.bits} {m : List (Key × Key)} {t : Table b Key}

/-- **The loop puts the valid values under their names**, in order. -/
theorem variablesLoop_spec (now : Int) (indexed : Nat → Option Key) : ∀ (vars : List LwsVariable) {t : Table b Key}
    {m : List (Key × Key)}, Refines seed t m → t.ci = false → (∀ v ∈ vars, Terminated v.name) →
    m.length + vars.length ≤ maxLoad b →
    ∃ t', variablesLoop seed now indexed (fun _ => {}) vars t = some t' ∧ t'.ci = false ∧
      Refines seed t' ((validVariables indexed vars).foldl (fun m p => OrdMap.put (foldKey false) m p.1 p.2) m)
  | [], t, _, h, hci, _, _ => ⟨t, rfl, hci, h⟩
  | v :: vars, t, m, h, hci, hnames, hfit => by
    rw [List.length_cons] at hfit
    have hrest : ∀ v' ∈ vars, Terminated v'.name := fun v' hv' => hnames v' (List.mem_cons_of_mem _ hv')
    rw [variablesLoop, validVariables, List.filterMap_cons]
    cases hindexed : indexed v.index with
    | none => exact variablesLoop_spec now indexed vars h hci hrest (by omega)
    | some value =>
      have hlen : (OrdMap.put (foldKey false) m v.name value).length ≤ m.length + 1 := OrdMap.put_length_le v.name value
      obtain ⟨hrc, hR, ho⟩ := h.put (hnames v List.mem_cons_self) value now (by rw [hci]; omega)
      rw [hci] at hR
      obtain ⟨t', ht', hci', hR'⟩ := variablesLoop_spec now indexed vars hR ((options_ci ho).trans hci) hrest (by omega)
      refine ⟨t', ?_, hci', hR'⟩
      dsimp only
      rw [if_neg (by decide), if_neg (not_not.2 hrc)]
      exact ht'

theorem Refines.lookups : ∀ (calls : List (Key × Int)) {t : Table b Key}, Refines seed t m →
    Refines seed (Lws.lookups seed calls t) m ∧ (Lws.lookups seed calls t).ci = t.ci
  | [], _, h => ⟨h, rfl⟩
  | call :: calls, t, h => by
    obtain ⟨-, hget, ho⟩ := h.get call.1 call.2
    obtain ⟨hR, hci⟩ := Refines.lookups calls hget
    exact ⟨hR, hci.trans (options_ci ho)⟩

theorem get_puts (key : Key) : ∀ (pairs m : List (Key × Key)), Keyed.Distinct (OrdMap.ident (foldKey false)) m →
    OrdMap.get (foldKey false) (pairs.foldl (fun m p => OrdMap.put (foldKey false) m p.1 p.2) m) key =
      (Inherit.innermost (fun p : Key × Key => if p.1 = key then some p.2 else none) pairs).or (OrdMap.get (foldKey false) m key)
  | [], m, _ => by rw [Inherit.innermost_nil, Option.none_or, List.foldl_nil]
  | p :: pairs, m, hd => by
    rw [List.foldl_cons, get_puts key pairs _ (OrdMap.put_distinct hd p.1 p.2), OrdMap.get_put hd, Inherit.innermost_cons,
      Option.or_assoc]
    congr 1
    by_cases hp : p.1 = key
    · rw [if_pos hp, if_pos (congrArg (foldKey false) hp), Option.some_or]
    · have hf : ¬foldKey false p.1 = foldKey false key := hp
      rw [if_neg hp, if_neg hf, Option.none_or]

theorem mem_validVariables {indexed : Nat → Option Key} {vars : List LwsVariable} {p : Key × Key} :
    p ∈ validVariables indexed vars ↔ ∃ v ∈ vars, v.name = p.1 ∧ indexed v.index = some p.2 := by
  unfold validVariables
  rw [List.mem_filterMap]
  refine exists_congr fun v => and_congr_right fun _ => ?_
  rw [Option.map_eq_some_iff]
  constructor
  · rintro ⟨value, hvalue, rfl⟩
    exact ⟨rfl, hvalue⟩
  · rintro ⟨hname, hvalue⟩
    exact ⟨p.2, hvalue, Prod.ext hname rfl⟩

theorem innermost_valid {variableIndex : Key → Option Nat} {indexed : Nat → Option Key} {vars : List LwsVariable}
    (hindex : ∀ v ∈ vars, variableIndex v.name = some v.index) (key value : Key) :
    Inherit.innermost (fun p : Key × Key => if p.1 = key then some p.2 else none) (validVariables indexed vars) = some value ↔
      ∃ v ∈ vars, v.name = key ∧ indexed v.index = some value := by
  have hfound (value : Key) (h : Inherit.innermost (fun p : Key × Key => if p.1 = key then some p.2 else none)
      (validVariables indexed vars) = some value) : ∃ v ∈ vars, v.name = key ∧ indexed v.index = some value := by
    obtain ⟨outer, p, inner, hsplit, hp, -⟩ := Inherit.innermost_eq_some.1 h
    obtain ⟨hkey, hvalue⟩ := Option.ite_some_none_eq_some.1 hp
    obtain ⟨v, hv, hname, hindexed⟩ := mem_validVariables.1 (hsplit ▸ List.mem_append_right outer List.mem_cons_self)
    exact ⟨v, hv, hname.trans hkey, hindexed.trans (congrArg some hvalue)⟩
  refine ⟨hfound value, fun ⟨v, hv, hname, hvalue⟩ => ?_⟩
  have hsome : (Inherit.innermost (fun p : Key × Key => if p.1 = key then some p.2 else none)
      (validVariables indexed vars)).isSome = true :=
    Inherit.innermost_isSome.2 ⟨(v.name, value), mem_validVariables.2 ⟨v, hv, rfl, hvalue⟩, by rw [if_pos hname]; rfl⟩
  obtain ⟨value', hvalue'⟩ := Option.isSome_iff_exists.1 hsome
  obtain ⟨v', hv', hname', hindexed'⟩ := hfound value' hvalue'
  have hsame : v'.index = v.index := Option.some.inj ((hindex v' hv').symm.trans ((congrArg variableIndex
    (hname'.trans hname.symm)).trans (hindex v hv)))
  rw [hvalue', ← hindexed', hsame, hvalue]

theorem mem_declared {ngx : NgxConf CV} {blocks : List ConfBlock} {v : LwsVariable} :
    v ∈ blocks.flatMap (fun block => block.directives.filterMap (saidVariable ngx)) ↔
      (∃ block ∈ blocks, ∃ d ∈ block.directives, d.command = .lwsVariable ∧ d.value 1 = v.name) ∧
        ngx.variableIndex v.name = some v.index := by
  simp only [List.mem_flatMap, List.mem_filterMap]
  constructor
  · rintro ⟨block, hblock, d, hd, hv⟩
    unfold saidVariable at hv
    split at hv
    · rename_i hc
      obtain ⟨index, hindex, rfl⟩ := Option.map_eq_some_iff.1 hv
      exact ⟨⟨block, hblock, d, hd, hc, rfl⟩, hindex⟩
    · cases hv
  · rintro ⟨⟨block, hblock, d, hd, hc, hname⟩, hindex⟩
    refine ⟨block, hblock, d, hd, ?_⟩
    rw [saidVariable, if_pos hc, hname, hindex]
    rfl

/-- **`lws.getvariable` gives the variables that are declared**: for blocks of any depth that are taken, whatever their variables
have for values, the table of a request is made, and whatever has been looked up before, a key has a value in it if and only if it
is the name of a variable as one of the blocks around declares it, and that variable is valid; the value is the variable's. -/
theorem getvariable_is_declared (ngx : NgxConf CV) (room : Nat → LwsVariable) {blocks : List ConfBlock} {top : ConfState CV}
    {states : List (ConfState CV)} (h : List.Forall₂ (ConfBlock.Taken ngx) blocks (top :: states)) (seed : BitVec b.bits)
    (now : Int) (indexed : Nat → Option Key)
    (hnames : ∀ block ∈ blocks, ∀ d ∈ block.directives, Terminated (d.value 1))
    (hfit : let n := (mergedConf room top states).vars.length; n + n / 7 + 3 ≤ lastSize b) :
    ∃ t, prepareVariables seed now indexed (fun _ => {}) true true (mergedConf room top states).vars = some t ∧
      ∀ calls key now' value, (lwsGetvariable seed now' (lookups seed calls t) key).2 = some value ↔
        (∃ block ∈ blocks, ∃ d ∈ block.directives, d.command = .lwsVariable ∧ d.value 1 = key) ∧
          (ngx.variableIndex key).bind indexed = some value := by
  dsimp only at hfit
  have hvars : (mergedConf room top states).vars = _ := mergedConf_vars h
  generalize (mergedConf room top states).vars = vars at hfit hvars ⊢
  have hmem : ∀ v, v ∈ vars ↔ (∃ block ∈ blocks, ∃ d ∈ block.directives, d.command = .lwsVariable ∧ d.value 1 = v.name) ∧
      ngx.variableIndex v.name = some v.index := fun v => by rw [hvars]; exact mem_declared
  have hterminated : ∀ v ∈ vars, Terminated v.name := fun v hv => by
    obtain ⟨⟨block, hblock, d, hd, -, hname⟩, -⟩ := (hmem v).1 hv
    exact hname ▸ hnames block hblock d hd
  have hroom := lastSize_room b
  have hsome : (tableCreate b Key vars.length true true).isSome = true := (tableCreate_isSome Key (by omega)).2 (by
    rw [createSize_below (by omega)]
    exact hfit)
  obtain ⟨t₀, hcreate⟩ := Option.isSome_iff_exists.1 hsome
  obtain ⟨hH, ho⟩ := tableCreate_holds seed hcreate
  have h0 : Refines seed t₀ [] := ⟨⟨[], hH, Keyed.Agree.nil⟩, congrArg Options.timed ho, congrArg Options.capped ho⟩
  obtain ⟨t, ht, hci, hR⟩ := variablesLoop_spec now indexed vars h0 (congrArg Options.ci ho) hterminated (by
    rw [List.length_nil, Nat.zero_add]
    exact le_tableLoad hfit)
  refine ⟨t, ?_, fun calls key now' value => ?_⟩
  · rw [prepareVariables, hcreate]
    exact ht
  · have hget : (lwsGetvariable seed now' (lookups seed calls t) key).2 = some value ↔
        ∃ v ∈ vars, v.name = key ∧ indexed v.index = some value := by
      obtain ⟨hR', hci'⟩ := hR.lookups calls
      rw [lwsGetvariable, (hR'.get key now').1, hci', hci, get_puts key _ _ List.Pairwise.nil,
        ← innermost_valid (fun v hv => ((hmem v).1 hv).2)]
      exact iff_of_eq (congrArg (· = some value) (Option.or_none ..))
    rw [hget]
    constructor
    · rintro ⟨v, hv, rfl, hvalue⟩
      obtain ⟨hdeclared, hindex⟩ := (hmem v).1 hv
      exact ⟨hdeclared, by rw [hindex, Option.bind_some, hvalue]⟩
    · rintro ⟨hdeclared, hvalue⟩
      obtain ⟨index, hindex, hvalue⟩ := Option.bind_eq_some_iff.1 hvalue
      exact ⟨⟨key, index⟩, (hmem _).2 ⟨hdeclared, hindex⟩, rfl, hvalue⟩

/-- A variable declared by a server and again by a location, and one that is not valid, which has been looked up before. -/
theorem getvariable_is_declared_twice :
    let ngx : NgxConf Key := {
      parseSize := fun _ => none
      parseSec := fun _ => none
      parseMsec := fun _ => none
      atoi := fun _ => none
      compile := fun _ => some
      variableIndex := fun name => some name.length }
    let indexed := fun index => if index = 4 then some (literal "example") else none
    let server : ConfState Key := { llcf := { vars := [⟨literal "host", 4⟩] } }
    let location : ConfState Key := { llcf := { vars := [⟨literal "uri", 3⟩, ⟨literal "host", 4⟩] } }
    ngxConfParse ngx ⟨.srv, [⟨.lwsVariable, [literal "host"]⟩]⟩ {} = .ok server ∧
    ∃ t, prepareVariables (b := .b64) 7 0 indexed (fun _ => {}) true true
        (mergedConf (fun _ => ⟨[], 0⟩) {} [server, location]).vars = some t ∧
      (lwsGetvariable 7 0 (lookups 7 [(literal "uri", 0)] t) (literal "host")).2 = some (literal "example") ∧
      ∀ value, (lwsGetvariable 7 0 t (literal "uri")).2 ≠ some value := by
  intro ngx indexed server location
  let blocks : List ConfBlock := [⟨.main, []⟩, ⟨.srv, [⟨.lwsVariable, [literal "host"]⟩]⟩,
    ⟨.loc, [⟨.lwsVariable, [literal "uri"]⟩, ⟨.lwsVariable, [literal "host"]⟩]⟩]
  have hserver : ngxConfParse ngx ⟨.srv, [⟨.lwsVariable, [literal "host"]⟩]⟩ {} = .ok server := by rfl
  have htaken : List.Forall₂ (ConfBlock.Taken ngx) blocks [{}, server, location] :=
    .cons ⟨{}, rfl⟩ (.cons ⟨{}, hserver⟩ (.cons ⟨{}, by rfl⟩ .nil))
  have hlen : (mergedConf (fun _ => ⟨[], 0⟩) {} [server, location]).vars.length = 3 := by decide +kernel
  have hroom : 6 ≤ lastSize .b64 := by decide +kernel
  obtain ⟨t, ht, hget⟩ := getvariable_is_declared (b := .b64) ngx (fun _ => ⟨[], 0⟩) htaken 7 0 indexed
    (show ∀ block ∈ blocks, ∀ d ∈ block.directives, 0 ∉ (d.value 1).dropLast by decide +kernel) (by
      dsimp only
      rw [hlen]
      exact hroom)
  refine ⟨hserver, t, ht, (hget _ _ 0 _).2 ⟨?_, by decide +kernel⟩, fun value h => ?_⟩
  · decide +kernel
  · have hvalue := ((hget [] _ 0 _).1 h).2
    rw [show (ngx.variableIndex (literal "uri")).bind indexed = none by decide +kernel] at hvalue
    cases hvalue

end

end Lws

import Lws.Conf
/-!
# ConfMerge — nested blocks of the configuration (`lws_merge_loc_conf`)

nginx merges the configuration of each block into those of the blocks in it, from `http` inwards.  What comes out for a server, a
location or a block in a location is told from the directives of the blocks around it: of each setting the innermost directive
decides, then the default, and the variables are those of all blocks.
-/
namespace Lws

variable {CV : Type}

/-! ## Merging -/

/-- `ngx_conf_merge_value` and its variants: the value itself, else that of the outer block, else the default. -/
def ngxConfMerge {α : Type} (conf prev : Option α) (default : α) : Option α :=
  match conf with
  | some v => some v
  | none => some (prev.getD default)

/-- `ngx_memmove` or `ngx_memcpy` of elements to index `at'` of an array. -/
def copyElements {α : Type} (elts : List α) (at' : Nat) (src : List α) : List α :=
  elts.take at' ++ src ++ elts.drop (at' + src.length)

/-- The end of `lws_merge_loc_conf`: room for the variables of the outer block, whatever is in it, then the variables of the block
are moved up and those of the outer block are copied before them. -/
def mergeVariables (prev conf : List LwsVariable) (room : Nat → LwsVariable) : List LwsVariable :=
  let elts := conf ++ (List.range prev.length).map room
  let elts := copyElements elts prev.length (elts.take (elts.length - prev.length))
  copyElements elts 0 prev

def lwsMergeLocConf (room : Nat → LwsVariable) (prev conf : LwsLocConf CV) : LwsLocConf CV where
  main := if conf.main.isNone then prev.main else conf.main
  pathInfo := if conf.pathInfo.isNone then prev.pathInfo else conf.pathInfo
  init := ngxConfMerge conf.init prev.init []
  pre := ngxConfMerge conf.pre prev.pre []
  post := ngxConfMerge conf.post prev.post []
  path := ngxConfMerge conf.path prev.path []
  cpath := ngxConfMerge conf.cpath prev.cpath []
  statesMax := ngxConfMerge conf.statesMax prev.statesMax 32
  requestsMax := ngxConfMerge conf.requestsMax prev.requestsMax 256
  stateMemoryMax := ngxConfMerge conf.stateMemoryMax prev.stateMemoryMax 0
  stateGc := ngxConfMerge conf.stateGc prev.stateGc 0
  stateRequestsMax := ngxConfMerge conf.stateRequestsMax prev.stateRequestsMax 0
  stateTimeMax := ngxConfMerge conf.stateTimeMax prev.stateTimeMax 0
  stateTimeout := ngxConfMerge conf.stateTimeout prev.stateTimeout 0
  errorResponse := ngxConfMerge conf.errorResponse prev.errorResponse .json
  diagnostic := ngxConfMerge conf.diagnostic prev.diagnostic false
  streaming := ngxConfMerge conf.streaming prev.streaming false
  monitor := conf.monitor
  vars := mergeVariables prev.vars conf.vars room

theorem ngxConfMerge_eq {α : Type} (conf prev : Option α) (default : α) :
    ngxConfMerge conf prev default = some ((conf.or prev).getD default) := by
  cases conf with
  | none => rw [ngxConfMerge, Option.none_or]
  | some v => rfl

theorem inherit_main {α : Type} (conf prev : Option α) : (if conf.isNone then prev else conf) = conf.or prev := by
  cases conf with
  | none => rfl
  | some v => rfl

/-- **The variables of the outer block come first**, whatever the room for them held. -/
theorem mergeVariables_eq (prev conf : List LwsVariable) (room : Nat → LwsVariable) :
    mergeVariables prev conf room = prev ++ conf := by
  have hnew : ((List.range prev.length).map room).length = prev.length := by rw [List.length_map, List.length_range]
  unfold mergeVariables
  dsimp only
  generalize (List.range prev.length).map room = new at hnew ⊢
  have hlen : (conf ++ new).length = prev.length + conf.length := by rw [List.length_append, hnew, Nat.add_comm]
  -- the first copy keeps what is below `prev.length`, and the second overwrites just that
  have hmoved : copyElements (conf ++ new) prev.length ((conf ++ new).take ((conf ++ new).length - prev.length)) =
      (conf ++ new).take prev.length ++ conf := by
    rw [hlen, Nat.add_sub_cancel_left, List.take_left, copyElements, List.drop_eq_nil_of_le hlen.le, List.append_nil]
  have htake : ((conf ++ new).take prev.length).length = prev.length := by
    rw [List.length_take, hlen, Nat.min_eq_left (Nat.le_add_right _ _)]
  rw [hmoved, copyElements, List.take_zero, List.nil_append, Nat.zero_add, List.drop_left' htake]

/-! ## What the directives say -/

/-- What the directives of nested blocks say of a setting: the innermost one that says something decides. -/
def saidIn {α : Type} (value : Directive → Option α) (blocks : List ConfBlock) : Option α :=
  Inherit.innermost (fun block => block.directives.findSome? value) blocks

/-- The configuration of the innermost of some nested blocks, as the directives and their defaults are documented. -/
def documentedConf (ngx : NgxConf CV) (blocks : List ConfBlock) : LwsLocConf CV where
  main := saidIn (said .lws (ngx.compile true)) blocks
  pathInfo := saidIn (saidSecond .lws (ngx.compile false)) blocks
  init := some ((saidIn (said .lwsInit some) blocks).getD [])
  pre := some ((saidIn (said .lwsPre some) blocks).getD [])
  post := some ((saidIn (said .lwsPost some) blocks).getD [])
  path := some ((saidIn (said .lwsPath some) blocks).getD [])
  cpath := some ((saidIn (said .lwsCpath some) blocks).getD [])
  statesMax := some ((saidIn (said .lwsMaxStates ngx.parseSize) blocks).getD 32)
  requestsMax := some ((saidIn (saidSecond .lwsMaxStates ngx.parseSize) blocks).getD 256)
  stateMemoryMax := some ((saidIn (said .lwsMaxMemory ngx.parseSize) blocks).getD 0)
  stateGc := some ((saidIn (said .lwsGc ngx.parseSize) blocks).getD 0)
  stateRequestsMax := some ((saidIn (said .lwsMaxRequests ngx.atoi) blocks).getD 0)
  stateTimeMax := some ((saidIn (said .lwsMaxTime ngx.parseMsec) blocks).getD 0)
  stateTimeout := some ((saidIn (said .lwsTimeout ngx.parseMsec) blocks).getD 0)
  errorResponse := some ((saidIn (said .lwsErrorResponse parseErrorResponse) blocks).getD .json)
  diagnostic := some ((saidIn saidDiagnostic blocks).getD false)
  streaming := some ((saidIn (said .lwsStreaming parseFlag) blocks).getD false)
  monitor := blocks.getLast?.any fun block => block.directives.any fun d => d.command = .lwsMonitor
  vars := blocks.flatMap fun block => block.directives.filterMap (saidVariable ngx)

/-- A block is taken, whatever the main configuration is when its turn comes. -/
def ConfBlock.Taken (ngx : NgxConf CV) (block : ConfBlock) (s : ConfState CV) : Prop :=
  ∃ lmcf, ngxConfParse ngx block lmcf = .ok s

section
variable {ngx : NgxConf CV} {room : Nat → LwsVariable} {blocks : List ConfBlock} {states : List (ConfState CV)}

theorem innermost_said {α : Type} {get : LwsLocConf CV → Option α} {value : Directive → Option α} (hnone : get {} = none)
    (hget : ∀ {s s' d}, TakesEffect ngx d s s' → Inherit.Sets (value d) (get s.llcf) (get s'.llcf)) :
    ∀ {blocks : List ConfBlock} {states : List (ConfState CV)}, List.Forall₂ (ConfBlock.Taken ngx) blocks states →
      Inherit.innermost get (states.map ConfState.llcf) = saidIn value blocks
  | [], _, h => by
    cases h
    rfl
  | block :: blocks, _, h => by
    cases h with
    | cons hblock h =>
      obtain ⟨lmcf, hblock⟩ := hblock
      rw [List.map_cons, Inherit.innermost_cons, innermost_said hnone hget h, ngxConfParse_setting hnone hget hblock, saidIn,
        saidIn, Inherit.innermost_cons]

/-- The configuration of the innermost block: each is merged with the one around it. -/
def mergedConf (room : Nat → LwsVariable) (top : ConfState CV) (states : List (ConfState CV)) : LwsLocConf CV :=
  Inherit.nested (lwsMergeLocConf room) top.llcf (states.map ConfState.llcf)

section
variable {α : Type} {get : LwsLocConf CV → Option α} {value : Directive → Option α} {top : ConfState CV}

theorem mergedConf_get (hmerge : ∀ prev conf, get (lwsMergeLocConf room prev conf) = (get conf).or (get prev))
    (hget : ∀ {s s' d}, TakesEffect ngx d s s' → Inherit.Sets (value d) (get s.llcf) (get s'.llcf)) (hnone : get {} = none)
    (h : List.Forall₂ (ConfBlock.Taken ngx) blocks (top :: states)) : get (mergedConf room top states) = saidIn value blocks :=
  (Inherit.nested_get hmerge _ _).trans (innermost_said hnone hget h)

theorem mergedConf_default {default : α}
    (hmerge : ∀ prev conf, get (lwsMergeLocConf room prev conf) = ngxConfMerge (get conf) (get prev) default)
    (hget : ∀ {s s' d}, TakesEffect ngx d s s' → Inherit.Sets (value d) (get s.llcf) (get s'.llcf)) (hnone : get {} = none)
    (h : List.Forall₂ (ConfBlock.Taken ngx) blocks (top :: states)) (hne : states ≠ []) :
    get (mergedConf room top states) = some ((saidIn value blocks).getD default) := by
  have hmerge' (prev conf) : get (lwsMergeLocConf room prev conf) = some (((get conf).or (get prev)).getD default) :=
    (hmerge prev conf).trans (ngxConfMerge_eq _ _ _)
  rw [mergedConf, Inherit.nested_default hmerge' _ (fun h => hne (List.map_eq_nil_iff.1 h)), ← innermost_said hnone hget h,
    List.map_cons]

end

theorem nested_monitor : ∀ (confs : List (LwsLocConf CV)) (top : LwsLocConf CV),
    (Inherit.nested (lwsMergeLocConf room) top confs).monitor = (top :: confs).getLast?.any LwsLocConf.monitor
  | [], _ => rfl
  | conf :: confs, top => by
    rw [Inherit.nested, List.foldl_cons, ← Inherit.nested, nested_monitor confs, List.getLast?_cons_cons]
    cases confs with
    | nil => rfl
    | cons conf' confs => rw [List.getLast?_cons_cons, List.getLast?_cons_cons]

theorem last_monitor : ∀ {blocks : List ConfBlock} {states : List (ConfState CV)},
    List.Forall₂ (ConfBlock.Taken ngx) blocks states → (states.map ConfState.llcf).getLast?.any LwsLocConf.monitor =
      blocks.getLast?.any fun block => block.directives.any fun d => d.command = .lwsMonitor
  | [], _, h => by
    cases h
    rfl
  | block :: blocks, _, h => by
    cases h with
    | cons hblock h =>
      obtain ⟨lmcf, hblock⟩ := hblock
      have hrec := last_monitor h
      cases h with
      | nil => exact ngxConfParse_monitor hblock
      | cons _ _ =>
        rw [List.map_cons, List.map_cons, List.getLast?_cons_cons, List.getLast?_cons_cons]
        exact hrec

/-- **The innermost block is that of the monitor** by its own directives. -/
theorem mergedConf_monitor {top : ConfState CV} (h : List.Forall₂ (ConfBlock.Taken ngx) blocks (top :: states)) :
    (mergedConf room top states).monitor =
      blocks.getLast?.any fun block => block.directives.any fun d => d.command = .lwsMonitor :=
  (nested_monitor _ _).trans (last_monitor h)

theorem flatMap_vars : ∀ {blocks : List ConfBlock} {states : List (ConfState CV)},
    List.Forall₂ (ConfBlock.Taken ngx) blocks states → (states.map ConfState.llcf).flatMap LwsLocConf.vars =
      blocks.flatMap fun block => block.directives.filterMap (saidVariable ngx)
  | [], _, h => by
    cases h
    rfl
  | block :: blocks, _, h => by
    cases h with
    | cons hblock h =>
      obtain ⟨lmcf, hblock⟩ := hblock
      rw [List.map_cons, List.flatMap_cons, List.flatMap_cons, flatMap_vars h, ngxConfParse_vars hblock]

/-- **The variables of the innermost block** are those of all blocks, the outer ones first. -/
theorem mergedConf_vars {top : ConfState CV} (h : List.Forall₂ (ConfBlock.Taken ngx) blocks (top :: states)) :
    (mergedConf room top states).vars = blocks.flatMap fun block => block.directives.filterMap (saidVariable ngx) :=
  (Inherit.nested_collection (fun prev conf => mergeVariables_eq prev.vars conf.vars room) _ _).trans (flatMap_vars h)

/-- **A configuration is as its directives say**: for blocks of any depth that are taken, whatever the room for variables held, what
the source merges for the innermost block has of each setting what the innermost directive says that sets it, or the default; the
second arguments and the attribute count as settings of their own, `lws_error_response` without the attribute as one that says no;
and the variables are those of all blocks. -/
theorem conf_is_inherited (ngx : NgxConf CV) (room : Nat → LwsVariable) {blocks : List ConfBlock} {top : ConfState CV}
    {states : List (ConfState CV)} (h : List.Forall₂ (ConfBlock.Taken ngx) blocks (top :: states)) (hne : states ≠ []) :
    mergedConf room top states = documentedConf ngx blocks := by
  refine LwsLocConf.ext ?_ ?_ ?_ ?_ ?_ ?_ ?_ ?_ ?_ ?_ ?_ ?_ ?_ ?_ ?_ ?_ ?_ (mergedConf_monitor h) (mergedConf_vars h)
  · exact mergedConf_get (fun prev conf => inherit_main conf.main prev.main) (·.main) rfl h
  · exact mergedConf_get (fun prev conf => inherit_main conf.pathInfo prev.pathInfo) (·.pathInfo) rfl h
  · exact mergedConf_default (fun _ _ => rfl) (·.init) rfl h hne
  · exact mergedConf_default (fun _ _ => rfl) (·.pre) rfl h hne
  · exact mergedConf_default (fun _ _ => rfl) (·.post) rfl h hne
  · exact mergedConf_default (fun _ _ => rfl) (·.path) rfl h hne
  · exact mergedConf_default (fun _ _ => rfl) (·.cpath) rfl h hne
  · exact mergedConf_default (fun _ _ => rfl) (·.statesMax) rfl h hne
  · exact mergedConf_default (fun _ _ => rfl) (·.requestsMax) rfl h hne
  · exact mergedConf_default (fun _ _ => rfl) (·.stateMemoryMax) rfl h hne
  · exact mergedConf_default (fun _ _ => rfl) (·.stateGc) rfl h hne
  · exact mergedConf_default (fun _ _ => rfl) (·.stateRequestsMax) rfl h hne
  · exact mergedConf_default (fun _ _ => rfl) (·.stateTimeMax) rfl h hne
  · exact mergedConf_default (fun _ _ => rfl) (·.stateTimeout) rfl h hne
  · exact mergedConf_default (fun _ _ => rfl) (·.errorResponse) rfl h hne
  · exact mergedConf_default (fun _ _ => rfl) (·.diagnostic) rfl h hne
  · exact mergedConf_default (fun _ _ => rfl) (·.streaming) rfl h hne

/-- A location that sets one number of two and leaves out the attribute: the other number is the server's, diagnostics are not. -/
theorem conf_is_inherited_location :
    let ngx : NgxConf Key := {
      parseSize := fun s => if s = literal "4" then some 4 else if s = literal "8" then some 8 else none
      parseSec := fun _ => none
      parseMsec := fun _ => none
      atoi := fun _ => none
      compile := fun _ => some
      variableIndex := fun name => some name.length }
    let blocks : List ConfBlock := [⟨.main, []⟩,
      ⟨.srv, [⟨.lwsMaxStates, [literal "8", literal "8"]⟩, ⟨.lwsErrorResponse, [literal "HTML", literal "diagnostic"]⟩,
        ⟨.lwsVariable, [literal "host"]⟩]⟩,
      ⟨.loc, [⟨.lws, [literal "main.lua"]⟩, ⟨.lwsMaxStates, [literal "4"]⟩, ⟨.lwsErrorResponse, [literal "json"]⟩,
        ⟨.lwsVariable, [literal "uri"]⟩]⟩]
    ∃ top server location, List.Forall₂ (ConfBlock.Taken ngx) blocks [top, server, location] ∧
      let llcf := mergedConf (fun _ => ⟨[], 0⟩) top [server, location]
      llcf.statesMax = some 4 ∧ llcf.requestsMax = some 8 ∧ llcf.errorResponse = some .json ∧ llcf.diagnostic = some false ∧
        llcf.vars = [⟨literal "host", 4⟩, ⟨literal "uri", 3⟩] := by
  intro ngx blocks
  let server : LwsLocConf Key := {
    statesMax := some 8
    requestsMax := some 8
    errorResponse := some .html
    diagnostic := some true
    vars := [⟨literal "host", 4⟩] }
  let location : LwsLocConf Key := {
    main := some (literal "main.lua")
    statesMax := some 4
    errorResponse := some .json
    diagnostic := some false
    vars := [⟨literal "uri", 3⟩] }
  have hserver : ngxConfParse ngx blocks[1] {} = .ok { llcf := server } := by rfl
  have hlocation : ngxConfParse ngx blocks[2] {} = .ok { llcf := location, handler := some .lwsHandler } := by rfl
  have htaken : List.Forall₂ (ConfBlock.Taken ngx) blocks
      [{}, { llcf := server }, { llcf := location, handler := some .lwsHandler }] :=
    .cons ⟨{}, rfl⟩ (.cons ⟨{}, hserver⟩ (.cons ⟨{}, hlocation⟩ .nil))
  refine ⟨_, _, _, htaken, ?_⟩
  dsimp only
  rw [conf_is_inherited ngx (fun _ => ⟨[], 0⟩) htaken (List.cons_ne_nil _ _)]
  decide +kernel

/-! ## Handlers -/

theorem ConfState.Sound.handler_cases {s : ConfState CV} (h : s.Sound) :
    (s.handler = some .lwsHandler ↔ s.llcf.main.isSome = true) ∧ (s.handler = some .lwsMonitorHandler ↔ s.llcf.monitor = true) ∧
      ¬(s.llcf.main.isSome = true ∧ s.llcf.monitor = true) := by
  rw [h.handler]
  cases hm : s.llcf.main.isSome with
  | true =>
    rw [h.exclusive hm]
    decide
  | false =>
    cases s.llcf.monitor with
    | true => decide
    | false => decide

theorem taken_sound : ∀ {blocks : List ConfBlock} {states : List (ConfState CV)},
    List.Forall₂ (ConfBlock.Taken ngx) blocks states → ∀ s ∈ states, s.Sound
  | [], _, h, _, hs => by
    cases h
    cases hs
  | block :: blocks, _, h, s, hs => by
    cases h with
    | cons hblock h =>
      rcases List.mem_cons.1 hs with rfl | hs
      · exact ngxConfParse_sound hblock.choose_spec
      · exact taken_sound h s hs

/-- **Handlers exclude each other, and find their configuration**: for blocks of any depth that are taken, each has the content
handler of the one of the two directives that it has; from a block with that of `lws` inwards the configuration has a main chunk, so
that `lws_handler` never declines; and where there is one with that of `lws_monitor`, the zone has been added. -/
theorem handlers_find_configuration (ngx : NgxConf CV) (room : Nat → LwsVariable) {blocks : List ConfBlock} {top : ConfState CV}
    {states : List (ConfState CV)} (h : List.Forall₂ (ConfBlock.Taken ngx) blocks (top :: states)) :
    List.Forall₂ (fun block s =>
      (s.handler = some .lwsHandler ↔ ∃ d ∈ block.directives, d.command = .lws) ∧
      (s.handler = some .lwsMonitorHandler ↔ ∃ d ∈ block.directives, d.command = .lwsMonitor) ∧
      ¬((∃ d ∈ block.directives, d.command = .lws) ∧ ∃ d ∈ block.directives, d.command = .lwsMonitor) ∧
      (s.handler = some .lwsMonitorHandler → s.lmcf.monitorShm = true)) blocks (top :: states) ∧
    ((∃ s ∈ top :: states, s.handler = some .lwsHandler) ↔ (mergedConf room top states).main.isSome = true) := by
  refine ⟨h.imp fun block s htaken => ?_, ?_⟩
  · obtain ⟨lmcf, hparse⟩ := htaken
    have hsound := ngxConfParse_sound hparse
    have hmain : s.llcf.main.isSome = true ↔ ∃ d ∈ block.directives, d.command = .lws := by
      rw [ngxConfParse_main hparse]
      simp only [List.any_eq_true, decide_eq_true_eq]
    have hmonitor : s.llcf.monitor = true ↔ ∃ d ∈ block.directives, d.command = .lwsMonitor := by
      rw [ngxConfParse_monitor hparse]
      simp only [List.any_eq_true, decide_eq_true_eq]
    rw [← hmain, ← hmonitor]
    obtain ⟨hlws, hlwsMonitor, hnot⟩ := hsound.handler_cases
    exact ⟨hlws, hlwsMonitor, hnot, fun hh => hsound.zone (hlwsMonitor.1 hh)⟩
  · have hmerge (prev conf : LwsLocConf CV) : LwsLocConf.main (lwsMergeLocConf room prev conf) = conf.main.or prev.main :=
      inherit_main conf.main prev.main
    have hmain : (mergedConf room top states).main = Inherit.innermost LwsLocConf.main ((top :: states).map ConfState.llcf) :=
      Inherit.nested_get hmerge _ _
    rw [hmain, Inherit.innermost_map, Inherit.innermost_isSome]
    exact exists_congr fun s => and_congr_right fun hs => (taken_sound h s hs).handler_cases.1

/-- A block in a location with `lws`: it has no handler of its own, and the main chunk of the location. -/
theorem handlers_find_configuration_nested :
    let ngx : NgxConf Key := {
      parseSize := fun _ => none
      parseSec := fun _ => none
      parseMsec := fun _ => none
      atoi := fun _ => none
      compile := fun _ => some
      variableIndex := fun _ => none }
    let location : ConfState Key := { llcf := { main := some (literal "main.lua") }, handler := some .lwsHandler }
    (mergedConf (fun _ => ⟨[], 0⟩) {} [{}, location, {}] : LwsLocConf Key).main.isSome = true ∧
      ngxConfParse ngx ⟨.loc, [⟨.lws, [literal "main.lua"]⟩]⟩ {} = .ok location := by
  intro ngx location
  have hlocation : ngxConfParse ngx ⟨.loc, [⟨.lws, [literal "main.lua"]⟩]⟩ {} = .ok location := by rfl
  have htaken : List.Forall₂ (ConfBlock.Taken ngx) [⟨.main, []⟩, ⟨.srv, []⟩, ⟨.loc, [⟨.lws, [literal "main.lua"]⟩]⟩, ⟨.loc, []⟩]
      [{}, {}, location, {}] := .cons ⟨{}, rfl⟩ (.cons ⟨{}, rfl⟩ (.cons ⟨{}, hlocation⟩ (.cons ⟨{}, rfl⟩ .nil)))
  exact ⟨(handlers_find_configuration ngx (fun _ => ⟨[], 0⟩) htaken).2.1 ⟨location, by simp, rfl⟩, hlocation⟩

end

end Lws

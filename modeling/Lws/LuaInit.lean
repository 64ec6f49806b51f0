import Lws.LuaState
import Lws.LuaAux
/-!
# LuaInit — a Lua state is set up (`lws_init`, `lws_open_lws`, `lws_open_profiler`, `lws_set_path`)

The standard libraries are those of Lua, which leave a state as `Libraries` says.  On it `lws_init` opens the library of this
module, sets the paths and opens the profiler; where it returns, the state is idle, and every state between two requests of it is.
-/
namespace Lws

open LuaApi (Value Slots Realm Runtime Api registryIndex)

def lwsLuaFunctions : List (Key × CFunction) := [(literal "log", .log), (literal "getvariable", .getvariable),
  (literal "redirect", .redirect), (literal "setcomplete", .setcomplete), (literal "setclose", .setclose),
  (literal "parseargs", .parseargs)]

def lwsHttpStatusCodes : List (Key × Int) := [
  (literal "CONTINUE", 100), (literal "SWITCHING_PROTOCOLS", 101), (literal "PROCESSING", 102), (literal "OK", 200),
  (literal "CREATED", 201), (literal "ACCEPTED", 202), (literal "NON_AUTHORITATIVE_INFORMATION", 203),
  (literal "NO_CONTENT", 204), (literal "RESET_CONTENT", 205), (literal "PARTIAL_CONTENT", 206),
  (literal "MULTIPLE_CHOICES", 300), (literal "MOVED_PERMANENTLY", 301), (literal "FOUND", 302), (literal "SEE_OTHER", 303),
  (literal "NOT_MODIFIED", 304), (literal "USE_PROXY", 305), (literal "TEMPORARY_REDIRECT", 307),
  (literal "PERMANENT_REDIRECT", 308), (literal "BAD_REQUEST", 400), (literal "UNAUTHORIZED", 401),
  (literal "PAYMENT_REQUIRED", 402), (literal "FORBIDDEN", 403), (literal "NOT_FOUND", 404), (literal "METHOD_NOT_ALLOWED", 405),
  (literal "NOT_ACCEPTABLE", 406), (literal "PROXY_AUTHENTICATION_REQUIRED", 407), (literal "REQUEST_TIMEOUT", 408),
  (literal "CONFLICT", 409), (literal "GONE", 410), (literal "LENGTH_REQUIRED", 411), (literal "PRECONDITION_FAILED", 412),
  (literal "CONTENT_TOO_LARGE", 413), (literal "REQUEST_ENTITY_TOO_LARGE", 413), (literal "URI_TOO_LONG", 414),
  (literal "REQUEST_URI_TOO_LARGE", 414), (literal "UNSUPPORTED_MEDIA_TYPE", 415), (literal "RANGE_NOT_SATISFIABLE", 416),
  (literal "EXPECTATION_FAILED", 417), (literal "MISDIRECTED_REQUEST", 421), (literal "UNPROCESSABLE_CONTENT", 422),
  (literal "UPGRADE_REQUIRED", 426), (literal "TOO_MANY_REQUESTS", 429), (literal "INTERNAL_SERVER_ERROR", 500),
  (literal "NOT_IMPLEMENTED", 501), (literal "BAD_GATEWAY", 502), (literal "SERVICE_UNAVAILABLE", 503),
  (literal "GATEWAY_TIMEOUT", 504), (literal "HTTP_VERSION_NOT_SUPPORTED", 505), (literal "INSUFFICIENT_STORAGE", 507)]

/-- The metatables of `lws_open_lws`, in its order, with their functions. -/
def lwsMetatables : List (Key × List (Key × CFunction)) := [
  (lwsRequestCtx, [(literal "__tostring", .requestCtxTostring)]),
  (lwsTable, [(literal "__index", .tableIndex), (literal "__newindex", .tableNewindex), (literal "__pairs", .tablePairs),
    (literal "__tostring", .tableTostring), (literal "__gc", .tableGc)]),
  (lwsResponse, [(literal "__index", .responseIndex), (LuaApi.newindex, .responseNewindex)])]

def profilerMetatable : Key × List (Key × CFunction) :=
  (lwsProfiler, [(literal "__tostring", .profilerTostring), (literal "__gc", .profilerGc)])

namespace OnStack

section
variable (R : Runtime CFunction Content LuaHost)

def openMetatable (p : Key × List (Key × CFunction)) : Lua Unit := do
  let _ ← Api.newmetatable R p.1
  Api.setfuncs R p.2
  Api.pop 1

def openMetatables : List (Key × List (Key × CFunction)) → Lua Unit
  | [] => pure ()
  | p :: rest => do
    openMetatable R p
    openMetatables rest

def setStatus : List (Key × Int) → Lua Unit
  | [] => pure ()
  | (key, code) :: rest => do
    Api.pushlstring key
    Api.pushinteger code
    Api.rawset (-3)
    setStatus rest

def openStatus : Lua Unit := do
  Api.newtable
  Api.newtable
  Api.pushcfunction .strictIndex
  Api.setfield R (-2) (literal "__index")
  Api.setmetatable (-2)
  setStatus lwsHttpStatusCodes
  Api.setfield R (-2) (literal "status")

def lwsHookFile : Lua Unit := do
  if !(← Api.getfield registryIndex luaFilehandle).isTable then Api.luaLError (literal "no file metatable")
  if !(← Api.getfield (-1) (literal "__index")).isTable then Api.luaLError (literal "no file index table")
  if !isFunction (← Api.getfield (-1) (literal "flush")) then Api.luaLError (literal "no file flush function")
  Api.pushcclosure .fileFlushHook
  Api.setfield R (-2) (literal "flush")
  Api.pop 2

def lwsOpenLws : Lua Nat := do
  Api.newlib R lwsLuaFunctions
  openStatus R
  openMetatables R lwsMetatables
  lwsHookFile R
  pure 1

def lwsOpenProfiler : Lua Nat := do
  openMetatable R profilerMetatable
  pure 0

/-- `lws_set_path`; a path after `+` is added to that of the loader. -/
def lwsSetPath (i : Int) (field : Key) : Lua Unit := do
  match ← Api.value i with
  | .string (c :: path) =>
    if !(← Api.getglobal (literal "package")).isTable then Api.luaLError (literal "failed to get loader")
    if c = 0x2b then
      match ← Api.getfield (-1) field with
      | .string _ =>
        Api.pushlstring (literal ";")
        Api.pushlstring path
        Api.concat
      | _ => Api.luaLError (literal "failed to get loader " ++ field)
    else Api.pushvalue i
    Api.setfield R (-2) field
    Api.pop 1
  | _ => pure ()

end

def initRuntime (text : LuaText) : Runtime CFunction Content LuaHost :=
  { innerRuntime text with
    body := fun
      | .cfunction .openLws => some (lwsOpenLws (innerRuntime text))
      | .cfunction .openProfiler => some (lwsOpenProfiler (innerRuntime text))
      | _ => none }

/-- `lws_init`, where `openlibs` is `luaL_openlibs`. -/
def lwsInit (text : LuaText) (openlibs : Lua Unit) : Lua Nat := do
  openlibs
  Api.requiref (initRuntime text) (literal "lws") .openLws true
  lwsSetPath (initRuntime text) 1 (literal "path")
  lwsSetPath (initRuntime text) 2 (literal "cpath")
  if (← Api.value 3).isTrue then
    Api.pushcfunction .openProfiler
    Api.call (initRuntime text) 0 0
  pure 0

/-! ## What is there before and after -/

structure Plain (w : LuaRealm) (ref : Nat) : Prop where
  apart : ref ≠ 0
  used : ref < w.next
  metatable : (w.tables ref).metatable = none

/-- **What `luaL_openlibs` leaves of a new state**: the globals `g`, the loaded modules, the metatable of files and the loader, each
a plain table; and nothing of this module. -/
structure Libraries (g : Nat) (w : LuaRealm) : Prop where
  globals : (w.tables 0).get (.integer LuaApi.ridxGlobals) = .table g
  plain : Plain w g
  loaded : ∃ l, inRegistry w LuaApi.loadedTable = .table l ∧ Plain w l ∧ (w.tables l).get (.string (literal "lws")) = .nil
  files : ∀ f, inRegistry w luaFilehandle = .table f → Plain w f ∧
    ∀ x, (w.tables f).get (.string (literal "__index")) = .table x → Plain w x
  package : ∀ p, (w.tables g).get (.string (literal "package")) = .table p → Plain w p
  hook : w.hook = none
  absent : ∀ name ∈ [lwsRequestCtx, lwsTable, lwsResponse, lwsProfiler, lwsRequestCtxCurrent, lwsProfilerCurrent, lwsChunks],
    inRegistry w name = .nil

/-- `luaL_openlibs` is called with a stack, in a new state; it may run out of memory. -/
def OpensLibraries (openlibs : Lua Unit) (frame : Slots CFunction) (w : LuaRealm) : Prop :=
  openlibs.wp (fun _ frame' w' => frame' = frame ∧ w'.host = w.host ∧ ∃ g, Libraries g w') (fun _ _ => True)
    (frame.length + LuaApi.minStack) frame w

/-- A metatable `k` has been made for a name, with functions. -/
structure Opens (w : LuaRealm) (name : Key) (k : Nat) (funcs : List (Key × CFunction)) (w' : LuaRealm) : Prop where
  next : w.next ≤ k ∧ k < w'.next
  hook : w'.hook = w.hook
  host : w'.host = w.host
  tables : ∀ ref < w.next, ref ≠ 0 → w'.tables ref = w.tables ref
  registry : ∀ key, key ≠ .string name → (w'.tables 0).get key = (w.tables 0).get key
  named : inRegistry w' name = .table k
  plain : (w'.tables k).metatable = none
  funcs : ∀ q ∈ funcs, (w'.tables k).get (.string q.1) = .cfunction q.2

/-- The metatables of `lws_init`, the last one first. -/
def initMetatables (monitor : Bool) : List (Key × List (Key × CFunction)) :=
  if monitor then profilerMetatable :: lwsMetatables.reverse else lwsMetatables.reverse

/-- The keys that `lws_init` sets in tables of the libraries. -/
def initKeys : List Key := [literal "flush", literal "lws", literal "path", literal "cpath"]

/-- **Between `luaL_openlibs` and the end of `lws_init`**: the metatables opened so far have their functions, and the tables of the
libraries have changed at no other keys. -/
structure Opening (w₀ : LuaRealm) (opened : List (Key × List (Key × CFunction))) (w : LuaRealm) : Prop where
  next : w₀.next ≤ w.next
  hook : w.hook = w₀.hook
  host : w.host = w₀.host
  integers : ∀ n, (w.tables 0).get (.integer n) = (w₀.tables 0).get (.integer n)
  registry : ∀ name, name ∉ opened.map Prod.fst → inRegistry w name = inRegistry w₀ name
  opened : ∀ p ∈ opened, ∃ k, inRegistry w p.1 = .table k ∧ w₀.next ≤ k ∧ k < w.next ∧
    ∀ q ∈ p.2, (w.tables k).get (.string q.1) = .cfunction q.2
  metatable : ∀ ref < w₀.next, ref ≠ 0 → (w.tables ref).metatable = (w₀.tables ref).metatable
  get : ∀ ref < w₀.next, ref ≠ 0 → ∀ key ∉ initKeys, (w.tables ref).get (.string key) = (w₀.tables ref).get (.string key)

section

open LuaApi LuaApi.Api

abbrev anyError : Option (Value CFunction) → LuaRealm → Prop := fun _ _ => True

variable {R : Runtime CFunction Content LuaHost} {limit : Nat} {frame : Slots CFunction} {w w₀ w₁ w' : LuaRealm} {g k ref : Nat}
  {name : Key} {funcs : List (Key × CFunction)} {opened : List (Key × List (Key × CFunction))} {text : LuaText}

theorem isTable_not {v : Value CFunction} (h : ¬(!v.isTable) = true) : ∃ ref, v = .table ref := by
  cases v with
  | table ref => exact ⟨ref, rfl⟩
  | _ => exact absurd rfl h

/-! ## A metatable -/

theorem Opens.tried (h : Opens w name k funcs w') : Opens w name k funcs w'.tried :=
  ⟨h.next, h.hook, h.host, h.tables, h.registry, h.named, h.plain, h.funcs⟩

theorem Opens.ne (h : Opens w name k funcs w') (h0 : 0 < w.next) : k ≠ 0 := by
  have := h.next.1
  omega

theorem Opens.field (h : Opens w name k funcs w') (h0 : 0 < w.next) {q : Key × CFunction} (hq : q.1 ∉ funcs.map Prod.fst) :
    Opens w name k (funcs ++ [q]) (w'.setEntry k (.string q.1) (.cfunction q.2)) where
  next := h.next
  hook := h.hook
  host := h.host
  tables ref hr hne := by
    have hk : ref ≠ k := by
      have := h.next.1
      omega
    rw [tables_setEntry_of_ne hk]
    exact h.tables ref hr hne
  registry key hkey := by
    rw [tables_setEntry_of_ne (h.ne h0).symm]
    exact h.registry key hkey
  named := by
    rw [inRegistry, tables_setEntry_of_ne (h.ne h0).symm]
    exact h.named
  plain := (metatable_setEntry _ _ _ _).trans h.plain
  funcs p hp := by
    rcases List.mem_append.1 hp with hp | hp
    · have hne : p.1 ≠ q.1 := fun heq => hq (List.mem_map.2 ⟨p, hp, heq⟩)
      rw [get_setEntry_of_ne fun heq => hne (Value.string.inj heq)]
      exact h.funcs p hp
    · obtain rfl := List.mem_singleton.1 hp
      exact get_setEntry_self _ _ _

theorem newmetatable_wp {P : Bool → Slots CFunction → LuaRealm → Prop} (h0 : 0 < w.next) (hnil : inRegistry w name = .nil)
    (hlimit : frame.length + 1 < limit) (h : ∀ k w', Opens w name k [] w' → P true (.table k :: frame) w') :
    (newmetatable R name).wp P anyError limit frame w := by
  simp only [newmetatable, wp_bind]
  refine wp_getregistry (by omega) trivial ?_
  rw [show (w.tables 0).get (.string name) = .nil from hnil]
  simp only [wp_bind, wp_pop_one]
  refine newtable_wp (by omega) (fun _ _ _ => trivial) fun w₁ h₁ _ => ?_
  refine wp_pushlstring (by simpa using hlimit) trivial ?_
  refine field_wp (h₁.trans (Realm.Grown.refl _).tried) (fun _ _ _ => trivial) fun w₂ h₂ => ?_
  rw [wp_pushvalue (v := .table w.next) rfl (by simpa using hlimit)]
  refine wp_setregistry trivial ?_
  have hne : w.next ≠ 0 := Nat.ne_of_gt h0
  refine h w.next _ ⟨⟨Nat.le_refl _, h₂.used⟩, h₂.grown.hook, h₂.grown.host, fun ref hr href => ?_, fun key hkey => ?_,
    get_setEntry_self _ _ _, ?_, fun q hq => absurd hq List.not_mem_nil⟩
  · rw [tables_setEntry_of_ne href]
    exact h₂.grown.tables ref hr
  · rw [get_setEntry_of_ne hkey]
    exact congrArg (fun t => Table.get t key) (h₂.grown.tables 0 h0)
  · rw [tables_setEntry_of_ne hne]
    exact h₂.metatable

theorem setfuncs_wp {P : Unit → Slots CFunction → LuaRealm → Prop} (h0 : 0 < w.next) (hlimit : frame.length + 1 < limit) :
    ∀ (funcs : List (Key × CFunction)) {opened : List (Key × CFunction)} {w₁ : LuaRealm}, Opens w name k opened w₁ →
      ((opened ++ funcs).map Prod.fst).Nodup →
      (∀ w', Opens w name k (opened ++ funcs) w' → P () (.table k :: frame) w') →
      (setfuncs R funcs).wp P anyError limit (.table k :: frame) w₁
  | [], opened, w₁, h₁, _, h => by
    rw [List.append_nil] at h
    exact h w₁ h₁
  | q :: funcs, opened, w₁, h₁, hnodup, h => by
    have happend : opened ++ q :: funcs = (opened ++ [q]) ++ funcs := by rw [List.append_assoc, List.singleton_append]
    have hq : q.1 ∉ opened.map Prod.fst := by
      rw [List.map_append, List.map_cons, List.nodup_append] at hnodup
      exact fun hmem => hnodup.2.2 _ hmem _ List.mem_cons_self rfl
    simp only [setfuncs, wp_bind, pushcfunction]
    rw [wp_push (by simpa using hlimit)]
    refine wp_setfield rfl (fun m hm => ?_) trivial ?_
    · have hm := Realm.metatable_of_some hm
      rw [h₁.plain] at hm
      cases hm
    rw [happend] at hnodup h
    exact setfuncs_wp h0 hlimit funcs (h₁.tried.field h0 hq) hnodup h

theorem openMetatable_wp {P : Unit → Slots CFunction → LuaRealm → Prop} {p : Key × List (Key × CFunction)} (h0 : 0 < w.next)
    (hnil : inRegistry w p.1 = .nil) (hnodup : (p.2.map Prod.fst).Nodup) (hlimit : frame.length + 1 < limit)
    (h : ∀ k w', Opens w p.1 k p.2 w' → P () frame w') : (openMetatable R p).wp P anyError limit frame w := by
  simp only [openMetatable, wp_bind]
  refine newmetatable_wp h0 hnil hlimit fun k w₁ h₁ => ?_
  refine setfuncs_wp h0 hlimit p.2 h₁ hnodup fun w₂ h₂ => ?_
  rw [wp_pop_one]
  exact h k w₂ h₂

/-! ## The state that is set up -/

theorem Opening.start (w₀ : LuaRealm) : Opening w₀ [] w₀ where
  next := Nat.le_refl _
  hook := rfl
  host := rfl
  integers _ := rfl
  registry _ _ := rfl
  opened _ hp := absurd hp List.not_mem_nil
  metatable _ _ _ := rfl
  get _ _ _ _ _ := rfl

theorem Opening.tried (h : Opening w₀ opened w) : Opening w₀ opened w.tried :=
  ⟨h.next, h.hook, h.host, h.integers, h.registry, h.opened, h.metatable, h.get⟩

theorem Opening.grown (h : Opening w₀ opened w) (h0 : 0 < w₀.next) (hw : w.Grown w') : Opening w₀ opened w' where
  next := h.next.trans hw.next
  hook := hw.hook.trans h.hook
  host := hw.host.trans h.host
  integers n := by
    rw [hw.tables 0 (h0.trans_le h.next)]
    exact h.integers n
  registry name hname := by
    rw [inRegistry, hw.tables 0 (h0.trans_le h.next)]
    exact h.registry name hname
  opened p hp := by
    obtain ⟨k, hk, hnew, hused, hfuncs⟩ := h.opened p hp
    refine ⟨k, ?_, hnew, hused.trans_le hw.next, ?_⟩
    · rw [inRegistry, hw.tables 0 (h0.trans_le h.next)]
      exact hk
    · rw [hw.tables k hused]
      exact hfuncs
  metatable ref hr hne := by
    rw [hw.tables ref (hr.trans_le h.next)]
    exact h.metatable ref hr hne
  get ref hr hne := by
    rw [hw.tables ref (hr.trans_le h.next)]
    exact h.get ref hr hne

theorem Opening.plainAt (h : Opening w₀ opened w) (hp : Plain w₀ ref) : w.metatableAt ref = none := by
  rw [Realm.metatableAt_of_ne hp.apart, h.metatable ref hp.used hp.apart, hp.metatable]

theorem Opening.setPlain (h : Opening w₀ opened w) (hp : Plain w₀ ref) {key : Key} (hkey : key ∈ initKeys) (v : Value CFunction) :
    Opening w₀ opened (w.setEntry ref (.string key) v) where
  next := h.next
  hook := h.hook
  host := h.host
  integers n := by
    rw [tables_setEntry_of_ne hp.apart.symm]
    exact h.integers n
  registry name hname := by
    rw [inRegistry, tables_setEntry_of_ne hp.apart.symm]
    exact h.registry name hname
  opened p hmem := by
    obtain ⟨k, hk, hnew, hused, hfuncs⟩ := h.opened p hmem
    have hne : k ≠ ref := by
      have := hp.used
      omega
    refine ⟨k, ?_, hnew, hused, ?_⟩
    · rw [inRegistry, tables_setEntry_of_ne hp.apart.symm]
      exact hk
    · rw [tables_setEntry_of_ne hne]
      exact hfuncs
  metatable ref' hr hne := by
    rw [metatable_setEntry]
    exact h.metatable ref' hr hne
  get ref' hr hne key' hkey' := by
    have hkeys : key' ≠ key := fun heq => hkey' (heq ▸ hkey)
    rw [get_setEntry_of_ne fun heq => hkeys (Value.string.inj heq)]
    exact h.get ref' hr hne key' hkey'

theorem Opening.opens (h : Opening w₀ opened w) (h0 : 0 < w₀.next) (hw : Opens w name k funcs w')
    (hnew : name ∉ opened.map Prod.fst) : Opening w₀ ((name, funcs) :: opened) w' where
  next := h.next.trans (hw.next.1.trans hw.next.2.le)
  hook := hw.hook.trans h.hook
  host := hw.host.trans h.host
  integers n := (hw.registry _ (by simp)).trans (h.integers n)
  registry name' hname' := by
    rw [List.map_cons, List.mem_cons, not_or] at hname'
    exact (hw.registry _ fun heq => hname'.1 (Value.string.inj heq)).trans (h.registry name' hname'.2)
  opened p hp := by
    by_cases hname : p.1 = name
    · rcases List.mem_cons.1 hp with rfl | hp
      · exact ⟨k, hw.named, h.next.trans hw.next.1, hw.next.2, hw.funcs⟩
      · exact absurd (List.mem_map.2 ⟨p, hp, hname⟩) hnew
    · have hp : p ∈ opened := (List.mem_cons.1 hp).resolve_left fun heq => hname (heq ▸ rfl)
      obtain ⟨k', hk', hnew', hused, hfuncs⟩ := h.opened p hp
      have hne : k' ≠ 0 := by omega
      refine ⟨k', ?_, hnew', hused.trans_le (hw.next.1.trans hw.next.2.le), ?_⟩
      · exact (hw.registry _ fun heq => hname (Value.string.inj heq)).trans hk'
      · rw [hw.tables k' hused hne]
        exact hfuncs
  metatable ref hr hne := by
    rw [hw.tables ref (hr.trans_le h.next) hne]
    exact h.metatable ref hr hne
  get ref hr hne := by
    rw [hw.tables ref (hr.trans_le h.next) hne]
    exact h.get ref hr hne

theorem openMetatables_wp {P : Unit → Slots CFunction → LuaRealm → Prop} (h0 : 0 < w₀.next) (hlimit : frame.length + 1 < limit) :
    ∀ (ps : List (Key × List (Key × CFunction))) {opened : List (Key × List (Key × CFunction))} {w : LuaRealm},
      Opening w₀ opened w →
      (∀ p ∈ ps, inRegistry w₀ p.1 = .nil ∧ p.1 ∉ opened.map Prod.fst ∧ (p.2.map Prod.fst).Nodup) → (ps.map Prod.fst).Nodup →
      (∀ w', Opening w₀ (ps.reverse ++ opened) w' → P () frame w') → (openMetatables R ps).wp P anyError limit frame w
  | [], opened, w, hw, _, _, h => h w hw
  | p :: ps, opened, w, hw, hps, hnodup, h => by
    obtain ⟨hnil, hnew, hfuncs⟩ := hps p List.mem_cons_self
    rw [List.map_cons, List.nodup_cons] at hnodup
    simp only [openMetatables, wp_bind]
    refine openMetatable_wp (h0.trans_le hw.next) ((hw.registry _ hnew).trans hnil) hfuncs hlimit fun k w₁ h₁ => ?_
    refine openMetatables_wp h0 hlimit ps (hw.opens h0 h₁ hnew) (fun q hq => ?_) hnodup.2 fun w' hw' => h w' ?_
    · obtain ⟨hnil', hnew', hfuncs'⟩ := hps q (List.mem_cons_of_mem _ hq)
      refine ⟨hnil', ?_, hfuncs'⟩
      rw [List.map_cons, List.mem_cons, not_or]
      exact ⟨fun heq => hnodup.1 (List.mem_map.2 ⟨q, hq, heq⟩), hnew'⟩
    · rwa [List.reverse_cons, List.append_assoc, List.singleton_append]

/-! ## The library -/

theorem libfuncs_wp {P : Unit → Slots CFunction → LuaRealm → Prop} (hlimit : frame.length + 1 < limit) :
    ∀ (funcs : List (Key × CFunction)) {w : LuaRealm}, Building w₁ ref none w →
      (∀ w', Building w₁ ref none w' → P () (.table ref :: frame) w') →
      (setfuncs R funcs).wp P anyError limit (.table ref :: frame) w
  | [], w, hw, h => h w hw
  | q :: funcs, w, hw, h => by
    simp only [setfuncs, wp_bind, pushcfunction]
    rw [wp_push (by simpa using hlimit)]
    exact field_wp hw (fun _ _ _ => trivial) fun w₂ h₂ => libfuncs_wp hlimit funcs h₂ h

theorem setStatus_wp {P : Unit → Slots CFunction → LuaRealm → Prop} {mt : Option Nat} (hlimit : frame.length + 2 < limit) :
    ∀ (codes : List (Key × Int)) {w : LuaRealm}, Building w₁ ref mt w →
      (∀ w', Building w₁ ref mt w' → P () (.table ref :: frame) w') →
      (setStatus codes).wp P anyError limit (.table ref :: frame) w
  | [], w, hw, h => h w hw
  | (key, code) :: codes, w, hw, h => by
    simp only [setStatus, wp_bind, pushinteger]
    refine wp_pushlstring (by simpa using by omega) trivial ?_
    rw [wp_push (by simpa using hlimit)]
    refine wp_rawset rfl trivial ?_
    refine setStatus_wp hlimit codes (Building.setEntry ?_ _ _) h
    exact hw.trans ((Realm.Grown.refl w).tried.tried)

theorem openStatus_wp {P : Unit → Slots CFunction → LuaRealm → Prop} (hlimit : frame.length + 4 < limit)
    (hw : Building w₁ ref none w) (h : ∀ w', Building w₁ ref none w' → P () (.table ref :: frame) w') :
    (openStatus R).wp P anyError limit (.table ref :: frame) w := by
  simp only [openStatus, wp_bind, pushcfunction]
  refine newtable_wp (by simpa using by omega) (fun _ _ _ => trivial) fun w₂ h₂ _ => ?_
  refine newtable_wp (by simpa using by omega) (fun _ _ _ => trivial) fun w₃ h₃ _ => ?_
  rw [wp_push (by simpa using by omega)]
  refine field_wp h₃ (fun _ _ _ => trivial) fun w₄ h₄ => ?_
  rw [wp_setmetatable_table rfl rfl]
  have h₅ : Building w w.next (some w₂.next) (w₄.setTable w.next { w₄.tables w.next with metatable := some w₂.next }) := by
    refine ⟨(h₂.grown.trans h₄.grown).setTable (Nat.le_refl _) _, Nat.le_refl _, h₂.used.trans_le h₄.grown.next, ?_⟩
    simp only [Realm.setTable, Function.update_self]
  refine setStatus_wp (by simpa using by omega) lwsHttpStatusCodes h₅ fun w₆ h₆ => ?_
  exact field_wp (hw.trans h₆.grown) (fun _ _ _ => trivial) h

theorem lwsHookFile_wp {P : Unit → Slots CFunction → LuaRealm → Prop} (hlibs : Libraries g w₀) (hw : Opening w₀ opened w)
    (hfiles : luaFilehandle ∉ opened.map Prod.fst) (hlimit : frame.length + 3 < limit)
    (h : ∀ f w', inRegistry w' luaFilehandle = .table f → Opening w₀ opened w' → P () frame w') :
    (lwsHookFile R).wp P anyError limit frame w := by
  simp only [lwsHookFile, wp_bind]
  refine wp_getregistry (by omega) trivial ?_
  split
  · simp only [wp_bind]
    exact wp_luaLError fun _ => trivial
  rename_i hv
  obtain ⟨f, hf⟩ := isTable_not hv
  obtain ⟨hplain, hindex⟩ := hlibs.files f ((hw.registry _ hfiles).symm.trans hf)
  rw [hf]
  simp only [wp_bind]
  refine wp_getfield (show Slots.index (.table f :: frame) (-1) = some (.table f) from rfl) (hw.tried.plainAt hplain)
    (by simpa using by omega) trivial ?_
  split
  · simp only [wp_bind]
    exact wp_luaLError fun _ => trivial
  rename_i hv
  obtain ⟨x, hx⟩ := isTable_not hv
  have hkey : literal "__index" ∉ initKeys := by decide
  have hplainx := hindex x ((hw.get f hplain.used hplain.apart _ hkey).symm.trans hx)
  rw [hx]
  simp only [wp_bind]
  refine wp_getfield (show Slots.index (.table x :: .table f :: frame) (-1) = some (.table x) from rfl)
    (hw.tried.tried.plainAt hplainx) (by simpa using by omega) trivial ?_
  split
  · simp only [wp_bind]
    exact wp_luaLError fun _ => trivial
  simp only [wp_bind]
  refine wp_pushcclosure (by simpa using by omega) trivial ?_
  refine wp_setfield rfl (fun m hm => ?_) trivial ?_
  · rw [hw.tried.tried.tried.tried.plainAt hplainx] at hm
    cases hm
  rw [wp_pop_two]
  have hset := (hw.tried.tried.tried.tried.tried).setPlain hplainx
    (show literal "flush" ∈ initKeys by decide) (.cfunction .fileFlushHook)
  exact h f _ ((hset.registry _ hfiles).trans ((hw.registry _ hfiles).symm.trans hf)) hset

theorem lwsOpenLws_wp (hlibs : Libraries g w₀) (hw : Opening w₀ [] w) (hlimit : frame.length + 6 < limit) :
    (lwsOpenLws R).wp (fun n inner w' => n = 1 ∧ ∃ l f, inner = .table l :: frame ∧ inRegistry w' luaFilehandle = .table f ∧
      Opening w₀ lwsMetatables.reverse w') anyError limit frame w := by
  have h0 : 0 < w₀.next := (Nat.zero_le _).trans_lt hlibs.plain.used
  have hnames : ∀ p ∈ lwsMetatables, p.1 ∈ [lwsRequestCtx, lwsTable, lwsResponse] ∧ (p.2.map Prod.fst).Nodup := by decide
  simp only [lwsOpenLws, newlib, wp_bind]
  refine newtable_wp (by omega) (fun _ _ _ => trivial) fun w₁ h₁ _ => ?_
  refine libfuncs_wp (by omega) lwsLuaFunctions h₁ fun w₂ h₂ => ?_
  refine openStatus_wp (by omega) h₂ fun w₃ h₃ => ?_
  refine openMetatables_wp h0 (by simpa using by omega) lwsMetatables (hw.grown h0 h₃.grown) (fun p hp => ?_) (by decide)
    fun w₄ h₄ => ?_
  · obtain ⟨hname, hnodup⟩ := hnames p hp
    exact ⟨hlibs.absent p.1 (List.mem_append_left [lwsProfiler, lwsRequestCtxCurrent, lwsProfilerCurrent, lwsChunks] hname),
      List.not_mem_nil, hnodup⟩
  · rw [List.append_nil] at h₄
    exact lwsHookFile_wp hlibs h₄ (by decide) (by simpa using by omega) fun f w₅ hf h₅ => ⟨rfl, _, f, rfl, hf, h₅⟩

/-- **The library is loaded**, as the module and the global of its name. -/
theorem requireLws_wp {P : Unit → Slots CFunction → LuaRealm → Prop} {R' : Runtime CFunction Content LuaHost}
    (hopen : R.body (.cfunction .openLws) = some (lwsOpenLws R')) (hlibs : Libraries g w₀) (hlimit : frame.length + 4 < limit)
    (h : ∀ lib f w', inRegistry w' luaFilehandle = .table f → Opening w₀ lwsMetatables.reverse w' →
      P () (.table lib :: frame) w') : (requiref R (literal "lws") .openLws true).wp P anyError limit frame w₀ := by
  obtain ⟨l, hl, hplain, hnil⟩ := hlibs.loaded
  have hlws : literal "lws" ∈ initKeys := by decide
  have hw := Opening.start w₀
  simp only [requiref, wp_bind]
  refine wp_getregistry (by omega) trivial ?_
  rw [show (w₀.tables 0).get (.string loadedTable) = .table l from hl]
  simp only [Value.isTable, Bool.not_true, Bool.false_eq_true, if_false, wp_bind]
  refine wp_getfield (show Slots.index (.table l :: frame) (-1) = some (.table l) from rfl) (hw.tried.plainAt hplain)
    (by simpa using by omega) trivial ?_
  rw [Realm.tried_tables, hnil]
  simp only [Value.isTrue, Bool.not_false, if_true, wp_bind, wp_pop_one, pushcfunction]
  rw [wp_push (by simpa using by omega)]
  refine wp_pushlstring (by simpa using by omega) trivial ?_
  refine wp_call [.string (literal "lws")] (.table l :: frame) rfl rfl (by simpa using by omega) ?_
  have hhook : w₀.tried.tried.tried.hook = none := hlibs.hook
  refine wp_invoke hopen ((wp_hooked_none hhook).2 ?_)
  refine wp_mono (lwsOpenLws_wp hlibs hw.tried.tried.tried (by decide)) ?_ fun _ _ he => he
  rintro _ inner w₁ ⟨rfl, lib, f, rfl, hf, h₁⟩
  refine ⟨by simp, (wp_hooked_none (h₁.hook.trans hlibs.hook)).2 ⟨rfl, ?_⟩⟩
  have hresults : adjust 1 (List.take 1 [.table lib, .string (literal "lws")]) ++ .table l :: frame =
      .table lib :: .table l :: frame := rfl
  rw [hresults, wp_pushvalue (v := .table lib) rfl (by simpa using by omega)]
  refine wp_setfield rfl (fun m hm => ?_) trivial ?_
  · rw [h₁.plainAt hplain] at hm
    cases hm
  have h₂ := h₁.tried.setPlain hplain hlws (.table lib)
  rw [wp_removeBelow (by omega), wp_pushvalue (v := .table lib) rfl (by simpa using by omega)]
  refine wp_setglobal ((h₂.integers _).trans hlibs.globals) (h₂.plainAt hlibs.plain) trivial ?_
  have h₃ := h₂.tried.setPlain hlibs.plain hlws (.table lib)
  have hfiles : luaFilehandle ∉ lwsMetatables.reverse.map Prod.fst := by decide
  exact h lib f _ ((h₃.registry _ hfiles).trans ((h₁.registry _ hfiles).symm.trans hf)) h₃

theorem lwsSetPath_wp {P : Unit → Slots CFunction → LuaRealm → Prop} {i : Int} {field : Key} (path : Key)
    (hlibs : Libraries g w₀) (hw : Opening w₀ opened w)
    (hi : ∀ extra, Slots.index (extra ++ frame) i = some (.string path)) (hfield : field ∈ initKeys)
    (hlimit : frame.length + 4 < limit) (h : ∀ w', Opening w₀ opened w' → P () frame w') :
    (lwsSetPath R i field).wp P anyError limit frame w := by
  have hg : (w.tables 0).get (.integer ridxGlobals) = .table g := (hw.integers _).trans hlibs.globals
  have hkey : literal "package" ∉ initKeys := by decide
  have hpath : Slots.index frame i = some (.string path) := hi []
  simp only [lwsSetPath, wp_bind]
  rw [wp_value hpath]
  cases path with
  | nil => exact h w hw
  | cons c path =>
    simp only [wp_bind]
    refine wp_getglobal hg (hw.plainAt hlibs.plain) (by omega) trivial ?_
    split
    · simp only [wp_bind]
      exact wp_luaLError fun _ => trivial
    rename_i hv
    obtain ⟨p, hp⟩ := isTable_not hv
    have hplain := hlibs.package p ((hw.get g hlibs.plain.used hlibs.plain.apart _ hkey).symm.trans hp)
    rw [hp]
    have hset (v : Value CFunction) {w₁ : LuaRealm} (h₁ : Opening w₀ opened w₁) :
        (setfield R (-2) field).wp (fun _ frame w => (pop 1).wp P anyError limit frame w) anyError limit (v :: .table p :: frame)
          w₁ := by
      refine wp_setfield rfl (fun m hm => ?_) trivial ?_
      · rw [h₁.plainAt hplain] at hm
        cases hm
      rw [wp_pop_one]
      exact h _ (h₁.tried.setPlain hplain hfield v)
    split
    · simp only [wp_bind]
      refine wp_getfield (show Slots.index (.table p :: frame) (-1) = some (.table p) from rfl) (hw.tried.plainAt hplain)
        (by simpa using by omega) trivial ?_
      cases hold : (w.tried.tables p).get (.string field) with
      | string old =>
        simp only [wp_bind]
        refine wp_pushlstring (by simpa using by omega) trivial ?_
        refine wp_pushlstring (by simpa using by omega) trivial ?_
        exact wp_concat (by simpa using by omega) trivial (hset _ hw.tried.tried.tried.tried.tried)
      | _ =>
        simp only [wp_bind]
        exact wp_luaLError fun _ => trivial
    · simp only [wp_bind]
      have hpath' : Slots.index (.table p :: frame) i = some (.string (c :: path)) := hi [.table p]
      rw [wp_pushvalue hpath' (by simpa using by omega)]
      exact hset _ hw.tried

/-! ## The state -/

theorem mem_initMetatables {monitor : Bool} {p : Key × List (Key × CFunction)} (hp : p ∈ lwsMetatables) :
    p ∈ initMetatables monitor := by
  cases monitor with
  | false => exact List.mem_reverse.2 hp
  | true => exact List.mem_cons_of_mem _ (List.mem_reverse.2 hp)

theorem Opening.absent {monitor : Bool} (hlibs : Libraries g w₀) (h : Opening w₀ (initMetatables monitor) w)
    (hname : name ∈ [lwsRequestCtxCurrent, lwsProfilerCurrent, lwsChunks]) : inRegistry w name = .nil := by
  have hnotin : name ∉ (initMetatables monitor).map Prod.fst := by
    revert name
    cases monitor with
    | false => decide
    | true => decide
  exact (h.registry _ hnotin).trans
    (hlibs.absent _ (List.mem_append_right [lwsRequestCtx, lwsTable, lwsResponse, lwsProfiler] hname))

theorem Opening.ready {monitor : Bool} {f : Nat} (hlibs : Libraries g w₀) (h : Opening w₀ (initMetatables monitor) w)
    (hf : inRegistry w luaFilehandle = .table f) : ∃ m, Ready g m ⟨0, monitor⟩ w := by
  have h0 : 0 < w₀.next := (Nat.zero_le _).trans_lt hlibs.plain.used
  have hnamed : ∀ p ∈ lwsMetatables, ∃ k, inRegistry w p.1 = .table k := by
    intro p hp
    obtain ⟨k, hk, -⟩ := h.opened p (mem_initMetatables hp)
    exact ⟨k, hk⟩
  obtain ⟨m, hm, hnew, hused, hfuncs⟩ := h.opened (lwsResponse, [(literal "__index", .responseIndex),
    (LuaApi.newindex, .responseNewindex)]) (mem_initMetatables (by simp [lwsMetatables]))
  refine ⟨m, (h.integers _).trans hlibs.globals, fun name hname hmonitor => ?_, hm,
    hfuncs (LuaApi.newindex, .responseNewindex) (by simp), by omega, h0.trans_le h.next, hused,
    hlibs.plain.used.trans_le h.next, Nat.zero_le _⟩
  simp only [fixedNames, List.mem_cons, List.not_mem_nil, or_false] at hname
  rcases hname with rfl | rfl | rfl | rfl | rfl
  · exact hnamed (lwsRequestCtx, _) List.mem_cons_self
  · exact hnamed (lwsTable, _) (List.mem_cons_of_mem _ List.mem_cons_self)
  · exact ⟨m, hm⟩
  · exact ⟨f, hf⟩
  · obtain rfl : monitor = true := hmonitor rfl
    obtain ⟨k, hk, -⟩ := h.opened profilerMetatable List.mem_cons_self
    exact ⟨k, hk⟩

theorem Opening.idle {monitor : Bool} {f : Nat} (hlibs : Libraries g w₀) (h : Opening w₀ (initMetatables monitor) w)
    (hf : inRegistry w luaFilehandle = .table f) : ∃ m, Idle g m ⟨0, monitor⟩ w fun _ => none := by
  obtain ⟨m, hready⟩ := h.ready hlibs hf
  refine ⟨m, hready, h.hook.trans hlibs.hook, h.absent hlibs (by simp), h.absent hlibs (by simp), fun filename n henv => ?_,
    .inr ⟨h.absent hlibs (by simp), fun _ => rfl⟩⟩
  cases henv

theorem callOpenProfiler_wp {P : Unit → Slots CFunction → LuaRealm → Prop} (hlibs : Libraries g w₀)
    (hw : Opening w₀ lwsMetatables.reverse w) (hlimit : frame.length < limit)
    (h : ∀ w', Opening w₀ (initMetatables true) w' → inRegistry w' luaFilehandle = inRegistry w luaFilehandle → P () frame w') :
    (pushcfunction .openProfiler).wp (fun _ frame w => (call (initRuntime text) 0 0).wp P anyError limit frame w) anyError limit
      frame w := by
  have h0 : 0 < w₀.next := (Nat.zero_le _).trans_lt hlibs.plain.used
  have hnew : lwsProfiler ∉ lwsMetatables.reverse.map Prod.fst := by decide
  have hnil : inRegistry w lwsProfiler = .nil := (hw.registry _ hnew).trans (hlibs.absent _ (by simp))
  have hne : Value.string luaFilehandle ≠ (.string lwsProfiler : Value CFunction) := by decide
  rw [pushcfunction, wp_push hlimit]
  refine wp_call [] _ rfl rfl (by simpa using hlimit.le) (wp_invoke rfl ((wp_hooked_none (hw.hook.trans hlibs.hook)).2 ?_))
  simp only [lwsOpenProfiler, wp_bind]
  refine openMetatable_wp (h0.trans_le hw.next) hnil (by decide) (by simp [minStack]) fun k w₁ h₁ => ?_
  have hw₁ := hw.opens h0 h₁ hnew
  exact ⟨Nat.zero_le _, (wp_hooked_none (hw₁.hook.trans hlibs.hook)).2 ⟨rfl, h w₁ hw₁ (h₁.registry _ hne)⟩⟩

/-- **`lws_init` sets a state up**, and never uses the stack in a wrong way. -/
theorem lwsInit_wp {openlibs : Lua Unit} {path cpath : Key} {monitor : Bool}
    (hlibs : OpensLibraries openlibs [.boolean monitor, .string cpath, .string path] w₀) :
    (lwsInit text openlibs).wp (fun n _ w => n = 0 ∧ w.host = w₀.host ∧ ∃ g f w₁, Libraries g w₁ ∧
        Opening w₁ (initMetatables monitor) w ∧ inRegistry w luaFilehandle = .table f)
      anyError (3 + minStack) [.boolean monitor, .string cpath, .string path] w₀ := by
  simp only [lwsInit, wp_bind]
  refine wp_mono hlibs ?_ fun _ _ he => he
  rintro - _ w₁ ⟨rfl, hhost, g, hg⟩
  have hargs {i : Int} {v : Value CFunction} (hpos : 0 < i) (hle : i ≤ 3)
      (hv : Slots.index [.boolean monitor, .string cpath, .string path] i = some v) (extra : Slots CFunction) :
      Slots.index (extra ++ [.boolean monitor, .string cpath, .string path]) i = some v :=
    (Slots.index_append hpos (by simpa using hle) extra).trans hv
  refine requireLws_wp rfl hg (by simp [minStack]) fun lib f w₂ hf h₂ => ?_
  refine lwsSetPath_wp path hg h₂ (fun extra => ?_) (by decide) (by simp [minStack]) fun w₃ h₃ => ?_
  · exact (congrArg (fun frame => Slots.index frame 1) (List.append_cons extra _ _)).trans
      (hargs (by decide) (by decide) rfl (extra ++ [.table lib]))
  refine lwsSetPath_wp cpath hg h₃ (fun extra => ?_) (by decide) (by simp [minStack]) fun w₄ h₄ => ?_
  · exact (congrArg (fun frame => Slots.index frame 2) (List.append_cons extra _ _)).trans
      (hargs (by decide) (by decide) rfl (extra ++ [.table lib]))
  have hmonitor : Slots.index [.table lib, .boolean monitor, .string cpath, .string path] 3 = some (.boolean monitor) :=
    hargs (by decide) (by decide) rfl [.table lib]
  rw [wp_value hmonitor]
  have hfiles : luaFilehandle ∉ lwsMetatables.reverse.map Prod.fst := by decide
  have hfile {w : LuaRealm} (h : Opening w₁ lwsMetatables.reverse w) : inRegistry w luaFilehandle = .table f :=
    (h.registry _ hfiles).trans ((h₂.registry _ hfiles).symm.trans hf)
  cases monitor with
  | false => exact ⟨rfl, h₄.host.trans hhost, g, f, w₁, hg, h₄, hfile h₄⟩
  | true =>
    simp only [Value.isTrue, if_true, wp_bind]
    exact callOpenProfiler_wp hg h₄ (by simp [minStack]) fun w₅ h₅ hfile₅ =>
      ⟨rfl, h₅.host.trans hhost, g, f, w₁, hg, h₅, hfile₅.trans (hfile h₄)⟩

end

open LuaApi LuaApi.Api

/-- **`lws_init` sets up a Lua state for all its requests.**  Whatever the libraries of Lua leave, as long as it is as `Libraries`
says, and wherever memory runs out, `lws_init` either raises an error or returns, and never uses the stack in a wrong way.  Where it
returns, the metatables of the library have their functions, that of profilers only with a monitor; and after any requests that have
not marked the state for closing, it is idle, and the next request is served as in `ChunkCache` or marks it for closing, all with
chunks as `KeptByLua` says. -/
theorem init_sets_up_lua_state (text : LuaText) (files : ChunkFiles) (diagnostic monitor : Bool) (openlibs : Lua Unit)
    (path cpath : Key) (w₀ : LuaRealm) (hinit : w₀.host.run.init = false)
    (hlibs : OpensLibraries openlibs [.boolean monitor, .string cpath, .string path] w₀) :
    (lwsInit text openlibs).wp
      (fun n _ w => n = 0 ∧ w.host = w₀.host ∧
        (∀ p ∈ initMetatables monitor, ∃ k, inRegistry w p.1 = .table k ∧
          ∀ q ∈ p.2, (w.tables k).get (.string q.1) = .cfunction q.2) ∧
        (monitor = false → inRegistry w lwsProfiler = .nil) ∧
        ∃ g m, ∀ rs w', Between text files diagnostic monitor w rs w' →
          ∃ s, (rs.map (LuaRequest.served text)).foldlM (ServingState.serve files) {} = some s ∧
            Idle g m ⟨0, monitor⟩ w' s.cache ∧
            w'.host.merged = w₀.host.merged + rs.countP (LuaRequest.profiled monitor) ∧
            ∀ r, (serve text files diagnostic monitor r).wp
              (fun _ frame w'' => frame = [.cfunction .traceback] ∧ Serves g m s.served monitor text files diagnostic r
                ⟨{ init := s.init }, s.cache, []⟩ { w' with host := w'.host.acquired monitor r.profiler } w'')
              (fun _ _ => False) minStack [.cfunction .traceback] w')
      (fun _ _ => True) (3 + minStack) [.boolean monitor, .string cpath, .string path] w₀ := by
  refine Api.wp_mono (lwsInit_wp hlibs) ?_ fun _ _ he => he
  rintro n - w ⟨rfl, hhost, g, f, w₁, hg, hw, hf⟩
  obtain ⟨m, hidle⟩ := hw.idle hg hf
  refine ⟨rfl, hhost, fun p hp => ?_, fun hmonitor => ?_, g, m, fun rs w' hbetween => ?_⟩
  · obtain ⟨k, hk, -, -, hfuncs⟩ := hw.opened p hp
    exact ⟨k, hk, hfuncs⟩
  · subst hmonitor
    exact (hw.registry _ (by decide)).trans (hg.absent _ (by simp))
  · obtain ⟨s, hs, hidle', hinit', hmerged⟩ := hbetween.agrees hidle ((congrArg (fun h => h.run.init) hhost).trans hinit)
    exact ⟨s, hs, hidle', hmerged.trans (by rw [hhost]), fun r => serve_wp text files diagnostic r hidle' hinit'⟩

/-- What the libraries of Lua leave, as far as `lws_init` reads it; the flush of files is a function of the libraries. -/
def libraryEntries : Nat → List (Value CFunction × Value CFunction)
  | 0 => [(.integer ridxGlobals, .table 1), (.string loadedTable, .table 2), (.string luaFilehandle, .table 3)]
  | 1 => [(.string (literal "package"), .table 5)]
  | 3 => [(.string (literal "__index"), .table 4)]
  | 4 => [(.string (literal "flush"), .function 6)]
  | 5 => [(.string (literal "path"), .string (literal "./?.lua")), (.string (literal "cpath"), .string (literal "./?.so"))]
  | _ => []

def librariesState : LuaRealm where
  tables ref := { get := fun key => ((libraryEntries ref).lookup key).getD .nil }
  next := 7
  host := {}

theorem librariesState_libraries : Libraries 1 librariesState where
  globals := by decide
  plain := ⟨by decide, by decide, rfl⟩
  loaded := ⟨2, by decide, ⟨by decide, by decide, rfl⟩, by decide⟩
  files f hf := by
    obtain rfl : 3 = f := Value.table.inj ((show inRegistry librariesState luaFilehandle = .table 3 by decide).symm.trans hf)
    refine ⟨⟨by decide, by decide, rfl⟩, fun x hx => ?_⟩
    obtain rfl : 4 = x := Value.table.inj
      ((show (librariesState.tables 3).get (.string (literal "__index")) = .table 4 by decide).symm.trans hx)
    exact ⟨by decide, by decide, rfl⟩
  package p hp := by
    obtain rfl : 5 = p := Value.table.inj
      ((show (librariesState.tables 1).get (.string (literal "package")) = .table 5 by decide).symm.trans hp)
    exact ⟨by decide, by decide, rfl⟩
  hook := rfl
  absent := by decide

def plainOpenlibs : Lua Unit := Api.modify fun _ => librariesState

def plainPath : Key := literal "+/srv/?.lua"

def hasReturned {A : Type} : LuaApi.Exit CFunction Content LuaHost A → Bool
  | .returns _ _ _ => true
  | _ => false

theorem returns_of_wp {A : Type} {x : Lua A} {P : A → Slots CFunction → LuaRealm → Prop}
    {E : Option (Value CFunction) → LuaRealm → Prop} {limit : Nat} {frame : Slots CFunction} {w : LuaRealm}
    (h : x.wp P E limit frame w) (hreturned : hasReturned (x limit frame w) = true) :
    ∃ a frame' w', x limit frame w = .returns a frame' w' ∧ P a frame' w' := by
  unfold Api.wp at h
  cases hx : x limit frame w with
  | returns a frame' w' =>
    rw [hx] at h
    exact ⟨a, frame', w', rfl, h⟩
  | error e w' =>
    rw [hx] at hreturned
    cases hreturned
  | fault =>
    rw [hx] at hreturned
    cases hreturned

theorem plainInit_hasReturned : hasReturned (lwsInit plainText plainOpenlibs (3 + minStack)
    [.boolean true, .string [], .string plainPath] { host := {} }) = true := by decide +kernel

theorem plainOpenlibs_opens (frame : Slots CFunction) : OpensLibraries plainOpenlibs frame { host := {} } :=
  ⟨rfl, rfl, 1, librariesState_libraries⟩

/-- A state of a server with a monitor, with an addition to the path of the loader. -/
theorem init_sets_up_lua_state_one : ∃ frame w g m s,
    lwsInit plainText plainOpenlibs (3 + minStack) [.boolean true, .string [], .string plainPath] { host := {} } =
        .returns 0 frame w ∧ Idle g m ⟨0, true⟩ w (ServingState.cache s) ∧ s.served = 0 := by
  -- the libraries are any that open, so that the call is not evaluated again here
  have hreturns (openlibs : Lua Unit) (w₀ : LuaRealm) (hinit : w₀.host.run.init = false)
      (hlibs : OpensLibraries openlibs [.boolean true, .string [], .string plainPath] w₀) :=
    returns_of_wp (init_sets_up_lua_state plainText plainFiles false true openlibs plainPath [] w₀ hinit hlibs)
  have hplain := hreturns plainOpenlibs { host := {} } rfl (plainOpenlibs_opens _)
  obtain ⟨n, frame, w, hrun, hstate⟩ := hplain plainInit_hasReturned
  have hn := hstate.1
  obtain ⟨-, -, -, g, m, hbetween⟩ := hstate.2
  obtain ⟨s, hs, hidle, -⟩ := hbetween [] w .setUp
  obtain rfl := Option.some.inj hs
  rw [hn] at hrun
  refine ⟨frame, w, g, m, _, hrun, hidle, ?_⟩
  rfl

end OnStack
end Lws

import Lws.LuaRun
/-!
# LuaHeap — what holds of the registry, the chunks and the hook of a Lua state while a request runs

`Ready` is what `lws_init` has set up; `Cached` connects the table of the chunks to the cache of `ChunkCache`; `Profiling` says
where the hook is set.  An assignment to a new object changes none of them, and a chunk only the `_ENV` of stored functions.
-/
namespace Lws
namespace OnStack

open LuaApi

def inRegistry (w : LuaRealm) (name : Key) : Value CFunction := (w.tables 0).get (.string name)

/-- The names of the registry that a run does not write either. -/
def fixedNames : List Key := [lwsRequestCtx, lwsTable, lwsResponse, luaFilehandle, lwsProfiler]

/-- What there is before a run: the references in use, and whether the state has opened the profiler, for the monitor. -/
structure Base where
  next : Nat
  monitor : Bool

/-- **The registry of an initialised state**: the globals `g`, the metatables, and for the response the metatable `m`. -/
structure Ready (g m : Nat) (b : Base) (w : LuaRealm) : Prop where
  globals : (w.tables 0).get (.integer ridxGlobals) = .table g
  metatables : ∀ name ∈ fixedNames, (name = lwsProfiler → b.monitor = true) → ∃ k, inRegistry w name = .table k
  response : inRegistry w lwsResponse = .table m
  newindex : (w.tables m).get (.string LuaApi.newindex) = .cfunction .responseNewindex
  apart : m ≠ 0
  used : 0 < w.next ∧ m < w.next ∧ g < w.next ∧ b.next ≤ w.next

/-- The value of an environment, for the globals `g` and the request that runs, whose environment is `e`; nothing is known of what
else Lua code has assigned. -/
def envValue (g e : Nat) : ChunkEnv → Option (Value CFunction)
  | .global => some (.table g)
  | .request _ => some (.table e)
  | .other => none

def HasFunction (c : Nat) (w : LuaRealm) (filename : Key) (f : Nat) : Prop :=
  (w.tables c).get (.string filename) = .function f

/-- **The table of the chunks**, `c`, holds a function of its own for each filename of the cache, with the `_ENV` of the cache. -/
structure Cached (g m : Nat) (b : Base) (c e : Nat) (w : LuaRealm) (cache : ChunkCache) : Prop where
  ready : Ready g m b w
  chunks : inRegistry w lwsChunks = .table c
  apart : c ≠ 0 ∧ c ≠ m
  used : c < w.next ∧ e < w.next
  absent : ∀ filename, cache filename = none → (w.tables c).get (.string filename) = .nil
  present : ∀ filename env, cache filename = some env → ∃ f v, HasFunction c w filename f ∧ f < w.next ∧
    w.upvalue f = some v ∧ ∀ v' ∈ envValue g e env, v = v'
  distinct : ∀ filename filename' f, HasFunction c w filename f → HasFunction c w filename' f → filename = filename'

/-- Where a hook is set, the registry has a profiler for it. -/
def HookReady (w : LuaRealm) : Prop :=
  ∀ f, w.hook = some f → ∃ u k, u < w.next ∧ inRegistry w lwsProfilerCurrent = .userdata u ∧
    inRegistry w lwsProfiler = .table k ∧ (w.userdata u).bind Userdata.metatable = some k

/-- **The hook is set while a profiled request runs**, and for no other. -/
structure Profiling (w : LuaRealm) : Prop where
  off : w.host.profiler = 0 → w.hook = none ∧ inRegistry w lwsProfilerCurrent = .nil
  on : w.host.profiler ≠ 0 → w.hook ≠ none
  hooked : HookReady w

/-! ## What a chunk leaves -/

section
variable {g m c e : Nat} {b : Base} {w w' w'' : LuaRealm} {cache : ChunkCache}

theorem KeptByLua.registry_eq {assigned : List Key} (h : KeptByLua assigned w w') {name : Key} (hname : name ∈ registryNames) :
    inRegistry w' name = inRegistry w name := h.registry name hname

theorem Ready.kept {assigned : List Key} (h : Ready g m b w) (hk : KeptByLua assigned w w') : Ready g m b w' where
  globals := hk.globals.trans h.globals
  metatables name hname hmonitor := by
    have hread : name ∈ registryNames := by
      simp only [fixedNames, List.mem_cons, List.not_mem_nil, or_false] at hname
      rcases hname with rfl | rfl | rfl | rfl | rfl <;> simp [registryNames]
    rw [hk.registry_eq hread]
    exact h.metatables name hname hmonitor
  response := by
    rw [hk.registry_eq (by simp [registryNames])]
    exact h.response
  newindex := (hk.response m h.response).trans h.newindex
  apart := h.apart
  used := ⟨h.used.1.trans_le hk.next, h.used.2.1.trans_le hk.next, h.used.2.2.1.trans_le hk.next, h.used.2.2.2.trans hk.next⟩

/-- What Lua code assigns, in the cache: nothing is known of the values. -/
def assignAll (assigned : List Key) (cache : ChunkCache) : ChunkCache :=
  (assigned.map fun filename => (filename, ChunkEnv.other)).foldl assignEnv cache

theorem assignAll_eq : ∀ (assigned : List Key) (cache : ChunkCache) (filename : Key), assignAll assigned cache filename =
    if filename ∈ assigned then (cache filename).map fun _ => .other else cache filename
  | [], _, _ => rfl
  | file :: assigned, cache, filename => by
    have hone : assignEnv cache (file, .other) filename = if filename = file then (cache filename).map fun _ => .other
        else cache filename := by
      unfold assignEnv
      by_cases hf : filename = file
      · subst hf
        rw [if_pos rfl]
        cases hcache : cache filename with
        | none => exact hcache
        | some env => exact Function.update_self _ _ _
      · rw [if_neg hf]
        dsimp only
        cases cache file with
        | none => rfl
        | some env => exact Function.update_of_ne hf _ _
    change assignAll assigned (assignEnv cache (file, .other)) filename = _
    rw [assignAll_eq assigned, hone]
    by_cases hf : filename = file
    · rw [if_pos hf, if_pos (List.mem_cons.2 (.inl hf)), Option.map_map]
      split <;> rfl
    · rw [if_neg hf]
      by_cases hmem : filename ∈ assigned
      · rw [if_pos hmem, if_pos (List.mem_cons_of_mem _ hmem)]
      · rw [if_neg hmem, if_neg (by simp [hf, hmem])]

/-- **A chunk leaves the table of the chunks**, but for the `_ENV` that it assigns. -/
theorem Cached.kept {assigned : List Key} (h : Cached g m b c e w cache) (hk : KeptByLua assigned w w') :
    Cached g m b c e w' (assignAll assigned cache) := by
  obtain ⟨htables, hup⟩ := hk.chunks c h.chunks
  have hfun (filename : Key) (f : Nat) : HasFunction c w' filename f ↔ HasFunction c w filename f := by
    rw [HasFunction, HasFunction, htables]
  refine ⟨h.ready.kept hk, (hk.registry_eq (by simp [registryNames])).trans h.chunks, h.apart,
    ⟨h.used.1.trans_le hk.next, h.used.2.trans_le hk.next⟩, ?_, ?_, ?_⟩
  · intro filename hnone
    rw [assignAll_eq] at hnone
    rw [htables]
    refine h.absent filename ?_
    split at hnone
    · exact Option.map_eq_none_iff.1 hnone
    · exact hnone
  · intro filename env henv
    rw [assignAll_eq] at henv
    split at henv
    · obtain ⟨old, hold, rfl⟩ := Option.map_eq_some_iff.1 henv
      obtain ⟨f, v, hf, hlt, hupf, -⟩ := h.present filename old hold
      rcases hup _ f hf with hsame | ⟨-, v', hv'⟩
      · exact ⟨f, v, (hfun filename f).2 hf, hlt.trans_le hk.next, hsame.trans hupf, fun v' hv' => (nomatch hv')⟩
      · exact ⟨f, v', (hfun filename f).2 hf, hlt.trans_le hk.next, hv', fun v' hv' => (nomatch hv')⟩
    · rename_i hmem
      obtain ⟨f, v, hf, hlt, hupf, hv⟩ := h.present filename env henv
      exact ⟨f, v, (hfun filename f).2 hf, hlt.trans_le hk.next,
        ((hup _ f hf).resolve_right fun h => hmem h.1).trans hupf, hv⟩
  · intro filename filename' f hf hf'
    exact h.distinct filename filename' f ((hfun _ _).1 hf) ((hfun _ _).1 hf')

theorem Profiling.kept {assigned : List Key} (h : Profiling w) (hk : KeptByLua assigned w w') : Profiling w' where
  off := by
    rw [hk.host, hk.hook, hk.registry_eq (by simp [registryNames])]
    exact h.off
  hooked f hf := by
    rw [hk.hook] at hf
    obtain ⟨u, k, hu, hcurrent, hprofiler, hmeta⟩ := h.hooked f hf
    exact ⟨u, k, hu.trans_le hk.next, (hk.registry_eq (by simp [registryNames])).trans hcurrent,
      (hk.registry_eq (by simp [registryNames])).trans hprofiler, (hk.metatables u hu).trans hmeta⟩
  on := by rw [hk.host, hk.hook]; exact h.on

theorem Cached.keptBy (h : Cached g m b c e w cache) (hw : w.Grown w') : KeptByLua [] w w' where
  next := hw.next
  hook := hw.hook
  host := hw.host
  globals := by rw [hw.tables 0 h.ready.used.1]
  registry name _ := by rw [hw.tables 0 h.ready.used.1]
  response k hk := by
    obtain rfl := Value.table.inj (h.ready.response.symm.trans hk)
    rw [hw.tables m h.ready.used.2.1]
  chunks c' hc' := by
    obtain rfl := Value.table.inj (h.chunks.symm.trans hc')
    refine ⟨hw.tables c h.used.1, fun filename f hf => .inl ?_⟩
    cases hcache : cache filename with
    | none =>
      rw [h.absent filename hcache] at hf
      cases hf
    | some env =>
      obtain ⟨f', v, hf', hlt, -⟩ := h.present filename env hcache
      obtain rfl := Value.function.inj (hf'.symm.trans hf)
      exact hw.upvalue f' hlt
  metatables u hu := by rw [hw.userdata u hu]

theorem Cached.grown (h : Cached g m b c e w cache) (hw : w.Grown w') : Cached g m b c e w' cache := h.kept (h.keptBy hw)

theorem Ready.grown (h : Ready g m b w) (hw : w.Grown w') : Ready g m b w' where
  globals := by rw [hw.tables 0 h.used.1]; exact h.globals
  metatables name hname hmonitor := by
    rw [inRegistry, hw.tables 0 h.used.1]
    exact h.metatables name hname hmonitor
  response := by rw [inRegistry, hw.tables 0 h.used.1]; exact h.response
  newindex := by rw [hw.tables m h.used.2.1]; exact h.newindex
  apart := h.apart
  used := ⟨h.used.1.trans_le hw.next, h.used.2.1.trans_le hw.next, h.used.2.2.1.trans_le hw.next, h.used.2.2.2.trans hw.next⟩

/-! ## What the run itself changes -/

theorem tables_setEntry_of_ne {ref ref' : Nat} (hne : ref' ≠ ref) (key v : Value CFunction) :
    (w.setEntry ref key v).tables ref' = w.tables ref' := by
  simp only [Realm.setEntry, Realm.setTable, Function.update_of_ne hne]

theorem metatable_setEntry (ref ref' : Nat) (key v : Value CFunction) :
    ((w.setEntry ref key v).tables ref').metatable = (w.tables ref').metatable := by
  by_cases hne : ref' = ref
  · subst hne
    simp only [Realm.setEntry, Realm.setTable, Function.update_self]
  · rw [tables_setEntry_of_ne hne]

theorem get_setEntry_self (ref : Nat) (key v : Value CFunction) : ((w.setEntry ref key v).tables ref).get key = v := by
  simp only [Realm.setEntry, Realm.setTable, Function.update_self]

theorem get_setEntry_of_ne {key key' : Value CFunction} (hne : key' ≠ key) (ref ref' : Nat) (v : Value CFunction) :
    ((w.setEntry ref key v).tables ref').get key' = (w.tables ref').get key' := by
  by_cases href : ref' = ref
  · subst href
    simp only [Realm.setEntry, Realm.setTable, Function.update_self, Function.update_of_ne hne]
  · rw [tables_setEntry_of_ne href]

theorem inRegistry_set_of_ne {name name' : Key} (hne : name' ≠ name) (ref : Nat) (v : Value CFunction) :
    inRegistry (w.setEntry ref (.string name) v) name' = inRegistry w name' :=
  get_setEntry_of_ne (fun h => hne (Value.string.inj h)) ref 0 v

theorem Ready.setRegistry (h : Ready g m b w) {name : Key} (hname : name ∉ fixedNames) (v : Value CFunction) :
    Ready g m b (w.setEntry 0 (.string name) v) where
  globals := (get_setEntry_of_ne (by simp) 0 0 v).trans h.globals
  metatables name' hname' hmonitor := by
    have hne : name' ≠ name := fun heq => hname (heq ▸ hname')
    rw [inRegistry_set_of_ne hne]
    exact h.metatables name' hname' hmonitor
  response := by
    have hne : lwsResponse ≠ name := fun heq => hname (heq ▸ by decide)
    rw [inRegistry_set_of_ne hne]
    exact h.response
  newindex := by
    rw [tables_setEntry_of_ne h.apart]
    exact h.newindex
  apart := h.apart
  used := h.used

theorem Ready.congr (h : Ready g m b w) (htables : w'.tables = w.tables) (hnext : w'.next = w.next) : Ready g m b w' where
  globals := by rw [htables]; exact h.globals
  metatables name hname hmonitor := by rw [inRegistry, htables]; exact h.metatables name hname hmonitor
  response := by rw [inRegistry, htables]; exact h.response
  newindex := by rw [htables]; exact h.newindex
  apart := h.apart
  used := by rw [hnext]; exact h.used

theorem Cached.congr (h : Cached g m b c e w cache) (htables : w'.tables = w.tables) (hup : w'.upvalue = w.upvalue)
    (hnext : w'.next = w.next) : Cached g m b c e w' cache where
  ready := h.ready.congr htables hnext
  chunks := by rw [inRegistry, htables]; exact h.chunks
  apart := h.apart
  used := by rw [hnext]; exact h.used
  absent := by rw [htables]; exact h.absent
  present := by simpa only [HasFunction, htables, hup, hnext] using h.present
  distinct := by simpa only [HasFunction, htables] using h.distinct

theorem Cached.setRegistry (h : Cached g m b c e w cache) {name : Key} (hname : name ∉ fixedNames) (hchunks : lwsChunks ≠ name)
    (v : Value CFunction) : Cached g m b c e (w.setEntry 0 (.string name) v) cache where
  ready := h.ready.setRegistry hname v
  chunks := (inRegistry_set_of_ne hchunks 0 v).trans h.chunks
  apart := h.apart
  used := h.used
  absent := by rw [tables_setEntry_of_ne h.apart.1]; exact h.absent
  present := by
    have hpresent := h.present
    simp only [HasFunction, tables_setEntry_of_ne h.apart.1]
    exact hpresent
  distinct := by
    have hdistinct := h.distinct
    simp only [HasFunction, tables_setEntry_of_ne h.apart.1]
    exact hdistinct

/-- **A new function is stored** for a filename that had none; its `_ENV` is that of the globals. -/
theorem Cached.load (h : Cached g m b c e w cache) (hw : w.Grown w') {filename : Key} (habsent : cache filename = none) {f : Nat}
    (hnew : w.next ≤ f) (hused : f < w'.next) (hup : w'.upvalue f = some (.table g)) :
    Cached g m b c e (w'.setEntry c (.string filename) (.function f)) (Function.update cache filename (some .global)) := by
  have hgrown := h.grown hw
  have hold (filename' : Key) (f' : Nat) (hf' : HasFunction c w' filename' f') : f' < w.next := by
    cases hcache : cache filename' with
    | none =>
      have hnil := hgrown.absent filename' hcache
      rw [HasFunction, hnil] at hf'
      cases hf'
    | some env =>
      obtain ⟨f'', v, hf'', hlt, -⟩ := h.present filename' env hcache
      rw [HasFunction, hw.tables c h.used.1, hf''] at hf'
      exact Value.function.inj hf' ▸ hlt
  have hother {filename' : Key} (hne : filename' ≠ filename) :
      ((w'.setEntry c (.string filename) (.function f)).tables c).get (.string filename') = (w'.tables c).get (.string filename') :=
    get_setEntry_of_ne (fun heq => hne (Value.string.inj heq)) c c _
  refine ⟨?_, ?_, h.apart, hgrown.used, ?_, ?_, ?_⟩
  · have hready := hgrown.ready
    have hc0 := h.apart.1.symm
    have hcm := h.apart.2.symm
    refine ⟨?_, ?_, ?_, ?_, hready.apart, hready.used⟩
    · rw [tables_setEntry_of_ne hc0]; exact hready.globals
    · intro name hname hmonitor
      rw [inRegistry, tables_setEntry_of_ne hc0]
      exact hready.metatables name hname hmonitor
    · rw [inRegistry, tables_setEntry_of_ne hc0]; exact hready.response
    · rw [tables_setEntry_of_ne hcm]; exact hready.newindex
  · rw [inRegistry, tables_setEntry_of_ne h.apart.1.symm]
    exact hgrown.chunks
  · intro filename' hnone
    have hne : filename' ≠ filename := by
      rintro rfl
      simp at hnone
    rw [Function.update_of_ne hne] at hnone
    rw [hother hne]
    exact hgrown.absent filename' hnone
  · intro filename' env henv
    by_cases hne : filename' = filename
    · subst hne
      rw [Function.update_self] at henv
      obtain rfl := Option.some.inj henv
      exact ⟨f, _, get_setEntry_self c _ _, hused, hup, fun v' hv' => Option.some.inj hv'⟩
    · rw [Function.update_of_ne hne] at henv
      obtain ⟨f', v, hf', hlt, hupf⟩ := hgrown.present filename' env henv
      exact ⟨f', v, (hother hne).trans hf', hlt, hupf⟩
  · intro filename₁ filename₂ f' hf₁ hf₂
    by_cases h₁ : filename₁ = filename
    · by_cases h₂ : filename₂ = filename
      · exact h₁.trans h₂.symm
      · subst h₁
        rw [HasFunction, get_setEntry_self] at hf₁
        rw [HasFunction, hother h₂] at hf₂
        have := hold filename₂ f' hf₂
        obtain rfl := Value.function.inj hf₁
        omega
    · rw [HasFunction, hother h₁] at hf₁
      by_cases h₂ : filename₂ = filename
      · subst h₂
        rw [HasFunction, get_setEntry_self] at hf₂
        have := hold filename₁ f' hf₁
        obtain rfl := Value.function.inj hf₂
        omega
      · rw [HasFunction, hother h₂] at hf₂
        exact hgrown.distinct filename₁ filename₂ f' hf₁ hf₂

/-- **The `_ENV` of a function is set**: of that of the filename, and of no other. -/
theorem Cached.setEnv (h : Cached g m b c e w cache) {filename : Key} {f : Nat} (hf : HasFunction c w filename f) {env : ChunkEnv}
    {v : Value CFunction} (hv : envValue g e env = some v) :
    Cached g m b c e (w.setUpvalue f (some v)) (setChunkEnv filename env cache) where
  ready := h.ready.congr rfl rfl
  chunks := h.chunks
  apart := h.apart
  used := h.used
  absent filename' hnone := by
    have hne : filename' ≠ filename := by
      rintro rfl
      simp [setChunkEnv] at hnone
    rw [setChunkEnv, Function.update_of_ne hne] at hnone
    exact h.absent filename' hnone
  present filename' env' henv := by
    by_cases hne : filename' = filename
    · subst hne
      rw [setChunkEnv, Function.update_self] at henv
      obtain rfl := Option.some.inj henv
      refine ⟨f, v, hf, ?_, by simp only [Realm.setUpvalue, Function.update_self],
        fun v' hv' => Option.some.inj (hv.symm.trans hv')⟩
      cases hcache : cache filename' with
      | none =>
        rw [HasFunction, h.absent filename' hcache] at hf
        cases hf
      | some old =>
        obtain ⟨f', -, hf', hlt, -⟩ := h.present filename' old hcache
        exact Value.function.inj (hf'.symm.trans hf) ▸ hlt
    · rw [setChunkEnv, Function.update_of_ne hne] at henv
      obtain ⟨f', v', hf', hlt, hup, hv'⟩ := h.present filename' env' henv
      have hff : f' ≠ f := by
        rintro rfl
        exact hne (h.distinct filename' filename f' hf' hf)
      exact ⟨f', v', hf', hlt, by simp only [Realm.setUpvalue, Function.update_of_ne hff, hup], hv'⟩
  distinct := h.distinct

end
end OnStack
end Lws

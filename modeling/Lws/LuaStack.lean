import Lws.LuaHeap
/-!
# LuaStack — the hook, the environment of a request and a chunk, on the stack

What each part of a run makes of the stack and of the objects, for any memory: the rules that `LuaServe` puts together.  An error
that a part raises leaves what the program holds as it is, if it is raised before the part has changed any of it.
-/
namespace Lws
namespace OnStack

open LuaApi LuaApi.Api

variable {R : Runtime CFunction Content LuaHost} {E : Option (Value CFunction) → LuaRealm → Prop} {limit : Nat}
  {frame : Slots CFunction} {w w₀ w' : LuaRealm} {g m c e : Nat} {b : Base} {cache : ChunkCache}

/-! ## The hook -/

/-- **The hook finds its profiler**, and leaves the stack alone. -/
theorem lwsProfilerHook_wp (hp : HookReady w) {f : CFunction} (hhook : w.hook = some f)
    (hE : ∀ err w', w'.host = w.host → E err w') :
    lwsProfilerHook.wp (fun _ inner w' => inner = [] ∧ ∃ k, w' = w.atTick k) E minStack [] w := by
  obtain ⟨u, k, -, hcurrent, hprofiler, hmeta⟩ := hp f hhook
  simp only [lwsProfilerHook, wp_bind]
  refine wp_getregistry (by decide) (hE _ _ rfl) ?_
  rw [show (w.tables 0).get (.string lwsProfilerCurrent) = .userdata u from hcurrent,
    wp_testudata (w := w.tried) rfl hprofiler, Realm.tried_userdata, if_pos hmeta]
  simp only [wp_bind]
  rw [wp_pop_one, wp_attempt]
  split
  · exact wp_luaLError fun err => hE err _ rfl
  · exact ⟨rfl, _, rfl⟩

theorem hooked_wp {P : Unit → Slots CFunction → LuaRealm → Prop} (hR : ∀ f, R.hook f = lwsProfilerHook)
    (hp : HookReady w) (hE : ∀ err w', w'.host = w.host → E err w')
    (h : ∀ k, P () frame (w.atTick k)) : R.hooked.wp P E limit frame w := by
  refine wp_hooked (I := fun w' => ∃ k, w' = w.atTick k) ?_ ⟨w.tick, rfl⟩ ?_
  · rintro f _ ⟨k, rfl⟩ hf
    rw [hR]
    refine wp_mono (lwsProfilerHook_wp (w := w.atTick k) hp hf hE) ?_ fun _ _ he => he
    rintro - inner _ ⟨-, k', rfl⟩
    exact ⟨k', rfl⟩
  · rintro _ ⟨k, rfl⟩
    exact h k

theorem HookReady.setEntry (hp : HookReady w) {ref : Nat} (hne : ref ≠ 0) (key v : Value CFunction) :
    HookReady (w.setEntry ref key v) := by
  intro f hf
  simp only [inRegistry, tables_setEntry_of_ne hne.symm]
  exact hp f hf

theorem HookReady.grown (hp : HookReady w) (hused : 0 < w.next) (hw : w.Grown w') : HookReady w' := by
  intro f hf
  rw [hw.hook] at hf
  obtain ⟨u, k, hu, hcurrent, hprofiler, hmeta⟩ := hp f hf
  refine ⟨u, k, hu.trans_le hw.next, ?_, ?_, ?_⟩
  · rw [inRegistry, hw.tables 0 hused]
    exact hcurrent
  · rw [inRegistry, hw.tables 0 hused]
    exact hprofiler
  · rw [hw.userdata u hu]
    exact hmeta

theorem Profiling.atTick (hp : Profiling w) (k : Nat) : Profiling (w.atTick k) := ⟨hp.off, hp.on, hp.hooked⟩

theorem Profiling.setEntry (hp : Profiling w) {ref : Nat} (hne : ref ≠ 0) (key v : Value CFunction) :
    Profiling (w.setEntry ref key v) where
  off := by
    simp only [inRegistry, tables_setEntry_of_ne hne.symm]
    exact hp.off
  on := hp.on
  hooked := hp.hooked.setEntry hne key v

theorem Profiling.grown (hp : Profiling w) (hused : 0 < w.next) (hw : w.Grown w') : Profiling w' where
  off := by
    rw [hw.host, hw.hook, inRegistry, hw.tables 0 hused]
    exact hp.off
  on := by rw [hw.host, hw.hook]; exact hp.on
  hooked := hp.hooked.grown hused hw

/-! ## New objects -/

theorem getmetatable_wp {P : Unit → Slots CFunction → LuaRealm → Prop} {name : Key} {k : Nat} (hname : inRegistry w name = .table k)
    (hlimit : frame.length < limit) (hE : ∀ err w', w'.host = w.host → E err w')
    (h : P () (.table k :: frame) w.tried) : (getmetatable name).wp P E limit frame w := by
  simp only [getmetatable, wp_bind, wp_pure]
  refine wp_getregistry hlimit (hE _ _ rfl) ?_
  rw [show (w.tables 0).get (.string name) = .table k from hname]
  exact h

/-- **A userdata with the metatable of a name** is new. -/
theorem newuserdata_wp {P : Nat → Slots CFunction → LuaRealm → Prop} {name : Key} {content : Content} (hready : Ready g m b w)
    (hname : name ∈ fixedNames) (hmonitor : name = lwsProfiler → b.monitor = true) (hlimit : frame.length + 1 < limit)
    (hE : ∀ err w', w'.host = w.host → E err w')
    (h : ∀ k w', inRegistry w name = .table k → w.Grown w' → w.next < w'.next →
      w'.userdata w.next = some { content := content, metatable := some k } → P w.next (.userdata w.next :: frame) w') :
    (newuserdata content).wp (fun u frame w => (getmetatable name).wp (fun _ frame w => (setmetatable (-2)).wp
      (fun _ frame w => P u frame w) E limit frame w) E limit frame w) E limit frame w := by
  obtain ⟨k, hk⟩ := hready.metatables name hname hmonitor
  refine wp_newuserdata (by omega) (hE _ _ rfl) ?_
  have hgrown : w.Grown (w.tried.setUserdata w.next (some { content := content })).taken :=
    ((Realm.Grown.refl w).tried.setUserdata (Nat.le_refl _) _).taken
  refine getmetatable_wp (w := Realm.taken _) hk (by simpa using hlimit) (fun err w' h' => hE err w' h') ?_
  rw [wp_setmetatable_userdata rfl rfl]
  refine h k _ hk (hgrown.tried.setUserdata (Nat.le_refl _) _) (Nat.lt_succ_self _) ?_
  simp [Realm.setUserdata, Realm.taken]

theorem lwsCreateLuaTable_wp {P : Unit → Slots CFunction → LuaRealm → Prop} {content : Content} (hready : Ready g m b w)
    (hlimit : frame.length + 1 < limit) (hE : ∀ err w', w'.host = w.host → E err w')
    (h : ∀ u w', w.Grown w' → P () (.userdata u :: frame) w') : (lwsCreateLuaTable content).wp P E limit frame w := by
  simp only [lwsCreateLuaTable, wp_bind, wp_modify]
  refine newuserdata_wp hready (by decide) (fun h => absurd h (by decide)) hlimit hE fun k w' _ hgrown _ _ => ?_
  exact h _ _ (hgrown.setUserdata (Nat.le_refl _) _)

theorem lwsCreateFile_wp {P : Unit → Slots CFunction → LuaRealm → Prop} {content : Content} (hready : Ready g m b w)
    (hlimit : frame.length + 1 < limit) (hE : ∀ err w', w'.host = w.host → E err w')
    (h : ∀ u w', w.Grown w' → P () (.userdata u :: frame) w') : (lwsCreateFile content).wp P E limit frame w := by
  simp only [lwsCreateFile, wp_bind, wp_modify]
  refine newuserdata_wp hready (by decide) (fun h => absurd h (by decide)) hlimit hE fun k w' _ hgrown _ _ => ?_
  exact h _ _ (hgrown.setUserdata (Nat.le_refl _) _)

/-! ## The environment -/

/-- A table that is new since `w₀`, with its metatable. -/
structure Building (w₀ : LuaRealm) (ref : Nat) (mt : Option Nat) (w : LuaRealm) : Prop where
  grown : w₀.Grown w
  new : w₀.next ≤ ref
  used : ref < w.next
  metatable : (w.tables ref).metatable = mt

section
variable {ref : Nat} {mt : Option Nat}

theorem Building.trans (h : Building w₀ ref mt w) (hw : w.Grown w') : Building w₀ ref mt w' where
  grown := h.grown.trans hw
  new := h.new
  used := h.used.trans_le hw.next
  metatable := by rw [hw.tables ref h.used]; exact h.metatable

theorem Building.setEntry (h : Building w₀ ref mt w) (key v : Value CFunction) : Building w₀ ref mt (w.setEntry ref key v) where
  grown := h.grown.setEntry h.new key v
  new := h.new
  used := h.used
  metatable := (metatable_setEntry ref ref key v).trans h.metatable

theorem newtable_wp {P : Unit → Slots CFunction → LuaRealm → Prop} (hlimit : frame.length < limit)
    (hE : ∀ err w', w'.host = w.host → E err w')
    (h : ∀ w', Building w w.next none w' → w'.tables w.next = {} → P () (.table w.next :: frame) w') :
    newtable.wp P E limit frame w := by
  have hempty : ((w.tried.setTable w.next {}).taken).tables w.next = {} := by simp [Realm.setTable, Realm.taken]
  refine wp_newtable hlimit (hE _ _ rfl) (h _ ⟨?_, Nat.le_refl _, Nat.lt_succ_self _, by rw [hempty]⟩ hempty)
  exact ((Realm.Grown.refl w).tried.setTable (Nat.le_refl _) _).taken

theorem field_wp {P : Unit → Slots CFunction → LuaRealm → Prop} {name : Key} {v : Value CFunction} (hb : Building w₀ ref none w)
    (hE : ∀ err w', w'.host = w.host → E err w')
    (h : ∀ w', Building w₀ ref none w' → P () (.table ref :: frame) w') :
    (setfield R (-2) name).wp P E limit (v :: .table ref :: frame) w := by
  refine wp_setfield rfl (fun k hk => ?_) (hE _ _ rfl) (h _ ?_)
  · have hk := Realm.metatable_of_some hk
    rw [hb.metatable] at hk
    cases hk
  · exact (hb.trans (Realm.Grown.refl w).tried).setEntry _ _

theorem stringField_wp {P : Unit → Slots CFunction → LuaRealm → Prop} {name value : Key} (hb : Building w₀ ref none w)
    (hlimit : frame.length + 1 < limit) (hE : ∀ err w', w'.host = w.host → E err w')
    (h : ∀ w', Building w₀ ref none w' → P () (.table ref :: frame) w') :
    (stringField R name value).wp P E limit (.table ref :: frame) w := by
  simp only [stringField, wp_bind]
  refine wp_pushlstring hlimit (hE _ _ rfl) ?_
  exact field_wp (hb.trans (Realm.Grown.refl w).tried) (fun err w' h' => hE err w' h') h

end

/-- **An environment**: new since `w₀`, with a metatable, below the next reference, that is not its own and takes any new key. -/
structure IsEnv (w₀ : LuaRealm) (env : Nat) (w : LuaRealm) : Prop where
  grown : w₀.Grown w
  new : w₀.next ≤ env
  used : env < w.next
  plain : ∀ k, (w.tables env).metatable = some k → k < w.next ∧ k ≠ env ∧ (w.tables k).get (.string LuaApi.newindex) = .nil

section
variable {env : Nat}

theorem IsEnv.trans (h : IsEnv w₀ env w) (hw : w.Grown w') : IsEnv w₀ env w' where
  grown := h.grown.trans hw
  new := h.new
  used := h.used.trans_le hw.next
  plain k hk := by
    rw [hw.tables env h.used] at hk
    obtain ⟨hlt, hne, hnil⟩ := h.plain k hk
    exact ⟨hlt.trans_le hw.next, hne, by rw [hw.tables k hlt]; exact hnil⟩

theorem envField_wp {P : Unit → Slots CFunction → LuaRealm → Prop} {name : Key} {v : Value CFunction} (he : IsEnv w₀ env w)
    (hE : ∀ err w', w'.host = w.host → E err w')
    (h : ∀ w', IsEnv w₀ env w' → P () (.table env :: frame) w') :
    (setfield R (-2) name).wp P E limit (v :: .table env :: frame) w := by
  refine wp_setfield rfl (fun k hk => (he.plain k (Realm.metatable_of_some hk)).2.2) (hE _ _ rfl) (h _ ?_)
  refine ⟨he.grown.tried.setEntry he.new _ _, he.new, he.used, fun k hk => ?_⟩
  rw [metatable_setEntry, Realm.tried_tables] at hk
  obtain ⟨hlt, hne, hnil⟩ := he.plain k hk
  refine ⟨hlt, hne, ?_⟩
  rw [tables_setEntry_of_ne hne, Realm.tried_tables]
  exact hnil

theorem pushGlobals_wp {P : Unit → Slots CFunction → LuaRealm → Prop} (hready : Ready g m b w) (hlimit : frame.length + 2 < limit)
    (hE : ∀ err w', w'.host = w.host → E err w')
    (h : ∀ w', IsEnv w w.next w' → P () (.table w.next :: frame) w') : (pushGlobals R).wp P E limit frame w := by
  simp only [pushGlobals, wp_bind]
  refine newtable_wp (by omega) hE fun w₁ h₁ _ => ?_
  refine newtable_wp (by simpa using by omega) (fun err w' h' => hE err w' (h'.trans h₁.grown.host)) fun w₂ h₂ hempty => ?_
  have hgrown := h₁.grown.trans h₂.grown
  rw [wp_rawgeti rfl (by simpa using hlimit), (hready.grown hgrown).globals]
  refine wp_setfield rfl (fun k hk => ?_) (hE _ _ hgrown.host) ?_
  · have hk := Realm.metatable_of_some hk
    rw [h₂.metatable] at hk
    cases hk
  rw [wp_setmetatable_table rfl rfl]
  have hne : w₁.next ≠ w.next := (Nat.ne_of_lt h₁.used).symm
  refine h _ ⟨?_, Nat.le_refl _, h₁.used.trans_le h₂.grown.next, fun k hk => ?_⟩
  · exact (hgrown.tried.setEntry h₁.used.le _ _).setTable (Nat.le_refl _) _
  · simp only [Realm.setTable, Function.update_self, Option.some.injEq] at hk
    subst hk
    refine ⟨h₂.used, hne, ?_⟩
    simp only [Realm.setTable, Function.update_of_ne hne]
    rw [get_setEntry_of_ne (by decide), Realm.tried_tables, hempty]

theorem raises_of_grown (hw : w.Grown w') (hE : ∀ err w', w'.host = w.host → E err w') :
    ∀ err w'', w''.host = w'.host → E err w'' :=
  fun err w'' h => hE err w'' (h.trans hw.host)

theorem pushRequest_wp {P : Unit → Slots CFunction → LuaRealm → Prop} {r : LuaRequest} (hready : Ready g m b w)
    (he : IsEnv w₀ env w) (hlimit : frame.length + 4 ≤ limit) (hE : ∀ err w', w'.host = w.host → E err w')
    (h : ∀ w', IsEnv w₀ env w' → P () (.table env :: frame) w') :
    (pushRequest R r).wp P E limit (.table env :: frame) w := by
  have hlast {w' : LuaRealm} (hb : Building w w.next none w') :
      (setfield R (-2) (literal "request")).wp P E limit (.table w.next :: .table env :: frame) w' :=
    envField_wp (he.trans hb.grown) (raises_of_grown hb.grown hE) h
  simp only [pushRequest, wp_bind]
  refine newtable_wp (by simpa using by omega) hE fun w₁ h₁ _ => ?_
  refine stringField_wp h₁ (by simpa using by omega) (raises_of_grown h₁.grown hE) fun w₂ h₂ => ?_
  refine stringField_wp h₂ (by simpa using by omega) (raises_of_grown h₂.grown hE) fun w₃ h₃ => ?_
  refine stringField_wp h₃ (by simpa using by omega) (raises_of_grown h₃.grown hE) fun w₄ h₄ => ?_
  refine stringField_wp h₄ (by simpa using by omega) (raises_of_grown h₄.grown hE) fun w₅ h₅ => ?_
  refine lwsCreateLuaTable_wp (hready.grown h₅.grown) (by simpa using by omega) (raises_of_grown h₅.grown hE) fun _ w₆ h₆ => ?_
  refine field_wp (h₅.trans h₆) (raises_of_grown (h₅.trans h₆).grown hE) fun w₇ h₇ => ?_
  refine lwsCreateFile_wp (hready.grown h₇.grown) (by simpa using by omega) (raises_of_grown h₇.grown hE) fun _ w₈ h₈ => ?_
  refine field_wp (h₇.trans h₈) (raises_of_grown (h₇.trans h₈).grown hE) fun w₉ h₉ => ?_
  refine stringField_wp h₉ (by simpa using by omega) (raises_of_grown h₉.grown hE) fun w₁₀ h₁₀ => ?_
  cases r.ip with
  | none => exact hlast h₁₀
  | some ip =>
    simp only [wp_bind]
    refine stringField_wp h₁₀ (by simpa using by omega) (raises_of_grown h₁₀.grown hE) fun w₁₁ h₁₁ => ?_
    exact hlast h₁₁

theorem lwsLuaResponseNewindex_wp {P : Nat → Slots CFunction → LuaRealm → Prop} {text : LuaText} {key : Key} {v : Value CFunction}
    {ref : Nat} (hkey : key ≠ literal "status") (hE : ∀ err w', w'.host = w.host → E err w')
    (h : P 0 [.table ref] (w.tried.setEntry ref (.string key) v)) :
    (lwsLuaResponseNewindex text).wp P E limit [v, .string key, .table ref] w := by
  simp only [lwsLuaResponseNewindex, wp_bind]
  rw [wp_value (v := .table ref) rfl, wp_value (v := .string key) rfl]
  simp only [if_neg hkey, wp_bind, wp_pure]
  exact wp_rawset rfl (hE _ _ rfl) h

theorem responseField_wp {P : Unit → Slots CFunction → LuaRealm → Prop} {text : LuaText} {name : Key} {v : Value CFunction}
    {ref : Nat} (hhook : ∀ f, R.hook f = lwsProfilerHook)
    (hnewindex : R.body (.cfunction .responseNewindex) = some (lwsLuaResponseNewindex text)) (hready : Ready g m b w)
    (hp : HookReady w) (hname : name ≠ literal "status") (hb : Building w₀ ref (some m) w) (hne : ref ≠ 0)
    (hE : ∀ err w', w'.host = w.host → E err w')
    (h : ∀ w', Building w₀ ref (some m) w' → P () (.table ref :: frame) w') :
    (setfield R (-2) name).wp P E limit (v :: .table ref :: frame) w := by
  by_cases habsent : (w.tables ref).get (.string name) = .nil
  · refine wp_setfield_newindex rfl ((Realm.metatableAt_of_ne hne).trans hb.metatable) habsent hready.newindex (hE _ _ rfl) ?_
    refine wp_invoke hnewindex (hooked_wp hhook hp hE fun k => ?_)
    refine lwsLuaResponseNewindex_wp hname hE ⟨Nat.zero_le _, ?_⟩
    refine hooked_wp hhook ?_ hE fun k' => h _ ?_
    · exact HookReady.setEntry (w := w.atTick _) hp hne _ _
    · exact ((hb.trans ((Realm.Grown.refl w).atTick _)).setEntry _ _).trans ((Realm.Grown.refl _).atTick _)
  · exact wp_setfield_present rfl habsent (hE _ _ rfl) (h _ ((hb.trans (Realm.Grown.refl w).tried).setEntry _ _))

/-- **The response** is a field of the environment, with the metatable of responses. -/
theorem pushResponse_wp {P : Unit → Slots CFunction → LuaRealm → Prop} {text : LuaText} (hhook : ∀ f, R.hook f = lwsProfilerHook)
    (hnewindex : R.body (.cfunction .responseNewindex) = some (lwsLuaResponseNewindex text)) (hready : Ready g m b w)
    (hp : HookReady w) (he : IsEnv w₀ env w) (hlimit : frame.length + 4 ≤ limit) (hE : ∀ err w', w'.host = w.host → E err w')
    (h : ∀ w', IsEnv w₀ env w' → P () (.table env :: frame) w') :
    (pushResponse R).wp P E limit (.table env :: frame) w := by
  have hused := hready.used.1
  simp only [pushResponse, wp_bind]
  refine newtable_wp (by simpa using by omega) hE fun w₁ h₁ _ => ?_
  refine getmetatable_wp (hready.grown h₁.grown).response (by simpa using by omega)
    (raises_of_grown h₁.grown hE) ?_
  rw [wp_setmetatable_table rfl rfl]
  have h₂ : Building w w.next (some m) (w₁.tried.setTable w.next { w₁.tried.tables w.next with metatable := some m }) := by
    refine ⟨h₁.grown.tried.setTable h₁.new _, h₁.new, h₁.used, ?_⟩
    simp only [Realm.setTable, Function.update_self]
  refine lwsCreateLuaTable_wp (hready.grown h₂.grown) (by simpa using by omega) (raises_of_grown h₂.grown hE) fun _ w₃ hw₃ => ?_
  have h₃ := h₂.trans hw₃
  refine responseField_wp hhook hnewindex (hready.grown h₃.grown) (hp.grown hused h₃.grown) (by decide) h₃ hused.ne'
    (raises_of_grown h₃.grown hE) fun w₄ h₄ => ?_
  refine lwsCreateFile_wp (hready.grown h₄.grown) (by simpa using by omega) (raises_of_grown h₄.grown hE) fun _ w₅ hw₅ => ?_
  have h₅ := h₄.trans hw₅
  refine responseField_wp hhook hnewindex (hready.grown h₅.grown) (hp.grown hused h₅.grown) (by decide) h₅ hused.ne'
    (raises_of_grown h₅.grown hE) fun w₆ h₆ => ?_
  exact envField_wp (he.trans h₆.grown) (raises_of_grown h₆.grown hE) h

end

/-- **`lws_push_env` pushes a new environment**, and changes nothing that was there. -/
theorem lwsPushEnv_wp {P : Unit → Slots CFunction → LuaRealm → Prop} {text : LuaText} {r : LuaRequest}
    (hhook : ∀ f, R.hook f = lwsProfilerHook)
    (hnewindex : R.body (.cfunction .responseNewindex) = some (lwsLuaResponseNewindex text)) (hready : Ready g m b w)
    (hp : HookReady w) (hlimit : frame.length + 4 ≤ limit) (hE : ∀ err w', w'.host = w.host → E err w')
    (h : ∀ w', w.Grown w' → w.next < w'.next → P () (.table w.next :: frame) w') : (lwsPushEnv R r).wp P E limit frame w := by
  simp only [lwsPushEnv, wp_bind]
  refine pushGlobals_wp hready (by omega) hE fun w₁ h₁ => ?_
  refine pushRequest_wp (hready.grown h₁.grown) h₁ hlimit (raises_of_grown h₁.grown hE) fun w₂ h₂ => ?_
  refine pushResponse_wp hhook hnewindex (hready.grown h₂.grown) (hp.grown hready.used.1 h₂.grown) h₂ hlimit
    (raises_of_grown h₂.grown hE) fun w₃ h₃ => ?_
  exact h w₃ h₃.grown h₃.used

end OnStack
end Lws

import Lws.LuaApi
/-!
# LuaAux — globals, named metatables and modules in the C interface of Lua (library)

What a program calls to set up a state, by the names of the interface without `lua_` or `luaL_`.
-/
namespace LuaApi

variable {C U X : Type}

def bytes (s : String) : List UInt8 := s.toList.map fun c => c.toNat.toUInt8

/-- `LUA_LOADED_TABLE`. -/
def loadedTable : List UInt8 := bytes "_LOADED"

def Value.isTrue : Value C → Bool
  | .nil => false
  | .boolean b => b
  | _ => true

def Value.isTable : Value C → Bool
  | .table _ => true
  | _ => false

namespace Api

def globals : Api C U X Nat := do
  match ((← realm).tables 0).get (.integer ridxGlobals) with
  | .table ref => pure ref
  | _ => fault

/-- With the value that it pushes; where it is absent, the globals must have no metatable. -/
def getglobal (name : List UInt8) : Api C U X (Value C) := do
  let ref ← globals
  alloc
  let w ← realm
  match (w.tables ref).get (.string name), w.metatableAt ref with
  | .nil, some _ => fault
  | v, _ =>
    push v
    pure v

def removeBelow : Api C U X Unit := do
  let v ← take
  pop 1
  push v

/-- With the value at the top as its upvalue, which is not kept. -/
def pushcclosure (c : C) : Api C U X Unit := do
  let _ ← take
  alloc
  push (.cfunction c)

def concat : Api C U X Unit := do
  match ← take, ← take, ← take with
  | .string c, .string b, .string a =>
    alloc
    push (.string (a ++ b ++ c))
  | _, _, _ => fault

section
variable [DecidableEq C] (R : Runtime C U X)

def setglobal (name : List UInt8) : Api C U X Unit := do
  let ref ← globals
  let v ← take
  alloc
  match (← realm).metatableAt ref with
  | some _ => fault
  | none => modify fun w => w.setEntry ref (.string name) v

def newmetatable (name : List UInt8) : Api C U X Bool := do
  match ← getfield registryIndex name with
  | .nil =>
    pop 1
    newtable
    pushlstring name
    setfield R (-2) (bytes "__name")
    pushvalue (-1)
    setfield R registryIndex name
    pure true
  | _ => pure false

def setfuncs : List (List UInt8 × C) → Api C U X Unit
  | [] => pure ()
  | (name, c) :: funcs => do
    pushcfunction c
    setfield R (-2) name
    setfuncs funcs

def newlib (funcs : List (List UInt8 × C)) : Api C U X Unit := do
  newtable
  setfuncs R funcs

def requiref (name : List UInt8) (openf : C) (glb : Bool) : Api C U X Unit := do
  if !(← getfield registryIndex loadedTable).isTable then
    pop 1
    newtable
    pushvalue (-1)
    setfield R registryIndex loadedTable
  if !(← getfield (-1) name).isTrue then
    pop 1
    pushcfunction openf
    pushlstring name
    call R 1 1
    pushvalue (-1)
    setfield R (-3) name
  removeBelow
  if glb then
    pushvalue (-1)
    setglobal name

end

/-! ## Rules -/

section
variable {E : Option (Value C) → Realm C U X → Prop} {limit : Nat} {frame : Slots C} {w : Realm C U X}

theorem wp_getfield {P : Value C → Slots C → Realm C U X → Prop} {i : Int} {key : List UInt8} {ref : Nat}
    (hi : frame.index i = some (.table ref)) (hplain : w.metatableAt ref = none) (hlimit : frame.length < limit)
    (hE : E none w.tried) (h : P ((w.tables ref).get (.string key)) ((w.tables ref).get (.string key) :: frame) w.tried) :
    (getfield i key).wp P E limit frame w := by
  simp only [getfield, wp_bind, wp_table hi]
  refine wp_alloc hE ?_
  rw [wp_realm, show w.tried.metatableAt ref = none from hplain]
  split
  · contradiction
  · simp only [wp_bind, wp_push hlimit, wp_pure]
    exact h

theorem wp_globals {P : Nat → Slots C → Realm C U X → Prop} {g : Nat} (hg : (w.tables 0).get (.integer ridxGlobals) = .table g) :
    globals.wp P E limit frame w ↔ P g frame w := by simp only [globals, wp_bind, wp_realm, hg, wp_pure]

theorem wp_getglobal {P : Value C → Slots C → Realm C U X → Prop} {name : List UInt8} {g : Nat}
    (hg : (w.tables 0).get (.integer ridxGlobals) = .table g) (hplain : w.metatableAt g = none) (hlimit : frame.length < limit)
    (hE : E none w.tried) (h : P ((w.tables g).get (.string name)) ((w.tables g).get (.string name) :: frame) w.tried) :
    (getglobal name).wp P E limit frame w := by
  simp only [getglobal, wp_bind, wp_globals hg]
  refine wp_alloc hE ?_
  rw [wp_realm, show w.tried.metatableAt g = none from hplain]
  split
  · contradiction
  · simp only [wp_bind, wp_push hlimit, wp_pure]
    exact h

theorem wp_removeBelow {P : Unit → Slots C → Realm C U X → Prop} {v v' : Value C} (hlimit : frame.length < limit) :
    removeBelow.wp P E limit (v :: v' :: frame) w ↔ P () (v :: frame) w := by
  simp only [removeBelow, wp_bind, wp_take, wp_pop_one, wp_push hlimit]

theorem wp_pushcclosure {P : Unit → Slots C → Realm C U X → Prop} {c : C} {v : Value C} (hlimit : frame.length < limit)
    (hE : E none w.tried) (h : P () (.cfunction c :: frame) w.tried) : (pushcclosure c).wp P E limit (v :: frame) w := by
  simp only [pushcclosure, wp_bind, wp_take]
  exact wp_alloc hE ((wp_push hlimit).2 h)

theorem wp_concat {P : Unit → Slots C → Realm C U X → Prop} {a b c : List UInt8} (hlimit : frame.length < limit)
    (hE : E none w.tried) (h : P () (.string (a ++ b ++ c) :: frame) w.tried) :
    concat.wp P E limit (.string c :: .string b :: .string a :: frame) w := by
  simp only [concat, wp_bind, wp_take]
  exact wp_alloc hE ((wp_push hlimit).2 h)

theorem wp_setglobal [DecidableEq C] {P : Unit → Slots C → Realm C U X → Prop} {name : List UInt8} {g : Nat} {v : Value C}
    (hg : (w.tables 0).get (.integer ridxGlobals) = .table g) (hplain : w.metatableAt g = none) (hE : E none w.tried)
    (h : P () frame (w.tried.setEntry g (.string name) v)) : (setglobal name).wp P E limit (v :: frame) w := by
  simp only [setglobal, wp_bind, wp_globals hg, wp_take]
  refine wp_alloc hE ?_
  rw [wp_realm, show w.tried.metatableAt g = none from hplain]
  exact h

end
end Api
end LuaApi

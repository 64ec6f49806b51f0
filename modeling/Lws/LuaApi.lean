import Mathlib.Logic.Function.Basic
/-!
# LuaApi — a part of the C interface of Lua, with rules of pre- and postconditions (library)

A C function works on a frame: the values that it was given or has pushed, the top first.  The frames share a realm.  An `Api` is a
piece of a C function: it returns, raises an error, or uses the interface in a way that is not defined (`fault`), such as an index
that is not in the frame, or more values than the frame has slots for.  `Api.wp` is what must hold before it.
-/
namespace LuaApi

/-- A value, where `C` are the C functions; a value of another kind, such as a float, is `other`. -/
inductive Value (C : Type) where
  | nil
  | boolean (b : Bool)
  | integer (n : Int)
  | other (n : Nat)
  | string (bytes : List UInt8)
  | table (ref : Nat)
  | function (ref : Nat)
  | cfunction (c : C)
  | lightuserdata (p : Nat)
  | userdata (ref : Nat)
deriving DecidableEq

abbrev Slots (C : Type) := List (Value C)

structure Table (C : Type) where
  get : Value C → Value C := fun _ => .nil
  metatable : Option Nat := none

structure Userdata (U : Type) where
  content : U
  metatable : Option Nat := none

/-- What the frames share: tables, the first upvalue of each Lua function that has one, userdata, the hook, and the state of the
host program.  References from `next` on are not in use.  `succeeds` tells of the next things that can fail whether they do. -/
structure Realm (C U X : Type) where
  tables : Nat → Table C := fun _ => {}
  upvalue : Nat → Option (Value C) := fun _ => none
  userdata : Nat → Option (Userdata U) := fun _ => none
  next : Nat := 1
  hook : Option C := none
  succeeds : Nat → Bool := fun _ => true
  tick : Nat := 0
  host : X

/-- How a piece of a C function ends; the error `none` is that of memory. -/
inductive Exit (C U X A : Type) where
  | returns (a : A) (frame : Slots C) (w : Realm C U X)
  | error (e : Option (Value C)) (w : Realm C U X)
  | fault

/-- A piece of a C function, in a frame of at most so many slots. -/
def Api (C U X A : Type) := Nat → Slots C → Realm C U X → Exit C U X A

variable {C U X A B : Type}

def Realm.setTable (w : Realm C U X) (ref : Nat) (t : Table C) : Realm C U X :=
  { w with tables := Function.update w.tables ref t }

def Realm.setUserdata (w : Realm C U X) (ref : Nat) (u : Option (Userdata U)) : Realm C U X :=
  { w with userdata := Function.update w.userdata ref u }

def Realm.setUpvalue (w : Realm C U X) (ref : Nat) (v : Option (Value C)) : Realm C U X :=
  { w with upvalue := Function.update w.upvalue ref v }

def Realm.setEntry [DecidableEq C] (w : Realm C U X) (ref : Nat) (key v : Value C) : Realm C U X :=
  w.setTable ref { w.tables ref with get := Function.update (w.tables ref).get key v }

/-- The metatable of a table; the registry, which is the table 0, has none. -/
def Realm.metatableAt (w : Realm C U X) (ref : Nat) : Option Nat := if ref = 0 then none else (w.tables ref).metatable

theorem Realm.metatable_of_some {w : Realm C U X} {ref m : Nat} (h : w.metatableAt ref = some m) :
    (w.tables ref).metatable = some m := by
  unfold Realm.metatableAt at h
  split at h
  · cases h
  · exact h

theorem Realm.metatableAt_of_ne {w : Realm C U X} {ref : Nat} (hne : ref ≠ 0) : w.metatableAt ref = (w.tables ref).metatable :=
  if_neg hne

def Realm.taken (w : Realm C U X) : Realm C U X := { w with next := w.next + 1 }

def Realm.atTick (w : Realm C U X) (k : Nat) : Realm C U X := { w with tick := k }

def Realm.tried (w : Realm C U X) : Realm C U X := w.atTick (w.tick + 1)

section
variable (w : Realm C U X) (k : Nat)

@[simp] theorem Realm.atTick_tables : (w.atTick k).tables = w.tables := rfl
@[simp] theorem Realm.atTick_upvalue : (w.atTick k).upvalue = w.upvalue := rfl
@[simp] theorem Realm.atTick_userdata : (w.atTick k).userdata = w.userdata := rfl
@[simp] theorem Realm.atTick_next : (w.atTick k).next = w.next := rfl
@[simp] theorem Realm.atTick_hook : (w.atTick k).hook = w.hook := rfl
@[simp] theorem Realm.atTick_host : (w.atTick k).host = w.host := rfl
@[simp] theorem Realm.tried_tables : w.tried.tables = w.tables := rfl
@[simp] theorem Realm.tried_upvalue : w.tried.upvalue = w.upvalue := rfl
@[simp] theorem Realm.tried_userdata : w.tried.userdata = w.userdata := rfl
@[simp] theorem Realm.tried_next : w.tried.next = w.next := rfl
@[simp] theorem Realm.tried_hook : w.tried.hook = w.hook := rfl
@[simp] theorem Realm.tried_host : w.tried.host = w.host := rfl

end

instance : Monad (Api C U X) where
  pure a := fun _ frame w => .returns a frame w
  bind x f := fun limit frame w =>
    match x limit frame w with
    | .returns a frame w => f a limit frame w
    | .error e w => .error e w
    | .fault => .fault

/-- What must hold for `x` to return with `Q`, or to raise an error with `E`, and never to fault. -/
def Api.wp (x : Api C U X A) (Q : A → Slots C → Realm C U X → Prop) (E : Option (Value C) → Realm C U X → Prop)
    (limit : Nat) (frame : Slots C) (w : Realm C U X) : Prop :=
  match x limit frame w with
  | .returns a frame w => Q a frame w
  | .error e w => E e w
  | .fault => False

/-! ## The interface

The functions have their names without `lua_`, or `luaL_` where there is no other of that name. -/

def registryIndex : Int := -1001000

def ridxGlobals : Int := 2

def newindex : List UInt8 := "__newindex".toList.map fun c => c.toNat.toUInt8

/-- `LUA_MINSTACK`: the slots that a C function has beside its arguments. -/
def minStack : Nat := 20

/-- The value at an index: counted from the bottom, counted from the top, or the registry, which is the table 0. -/
def Slots.index (frame : Slots C) (i : Int) : Option (Value C) :=
  if i = registryIndex then some (.table 0)
  else if 0 < i then if i ≤ frame.length then frame[frame.length - i.toNat]? else none
  else if i = 0 then none
  else frame[i.natAbs - 1]?

namespace Api

def fault : Api C U X A := fun _ _ _ => .fault

def raise (e : Option (Value C)) : Api C U X A := fun _ _ w => .error e w

def realm : Api C U X (Realm C U X) := fun _ frame w => .returns w frame w

def modify (f : Realm C U X → Realm C U X) : Api C U X Unit := fun _ frame w => .returns () frame (f w)

def attempt : Api C U X Bool := fun _ frame w => .returns (w.succeeds w.tick) frame w.tried

def alloc : Api C U X Unit := do if !(← attempt) then raise none

def push (v : Value C) : Api C U X Unit := fun limit frame w =>
  if frame.length < limit then .returns () (v :: frame) w else .fault

def value (i : Int) : Api C U X (Value C) := fun _ frame w =>
  match frame.index i with
  | some v => .returns v frame w
  | none => .fault

def valueOrNone (i : Int) : Api C U X (Option (Value C)) := fun _ frame w => .returns (frame.index i) frame w

def pop (n : Nat) : Api C U X Unit := fun _ frame w =>
  if n ≤ frame.length then .returns () (frame.drop n) w else .fault

def take : Api C U X (Value C) := do
  let v ← value (-1)
  pop 1
  pure v

def table (i : Int) : Api C U X Nat := do
  match ← value i with
  | .table ref => pure ref
  | _ => fault

def pushnil : Api C U X Unit := push .nil
def pushinteger (n : Int) : Api C U X Unit := push (.integer n)
def pushcfunction (c : C) : Api C U X Unit := push (.cfunction c)
def pushlightuserdata (p : Nat) : Api C U X Unit := push (.lightuserdata p)

def pushlstring (bytes : List UInt8) : Api C U X Unit := do
  alloc
  push (.string bytes)

def pushvalue (i : Int) : Api C U X Unit := do push (← value i)

def rawget (i : Int) : Api C U X (Value C) := do
  let ref ← table i
  let key ← take
  let v := ((← realm).tables ref).get key
  push v
  pure v

def rawgeti (i n : Int) : Api C U X Unit := do
  let ref ← table i
  push (((← realm).tables ref).get (.integer n))

end Api


/-- What a program makes of Lua: what a value does when it is called, with the number of values that it returns, what the hook does,
how many errors of a message handler are handled in turn, and the messages of Lua's own errors. -/
structure Runtime (C U X : Type) where
  body : Value C → Option (Api C U X Nat)
  hook : C → Api C U X Unit
  handlers : Nat
  callError : List UInt8
  memoryError : List UInt8
  handlerError : List UInt8

namespace Api

def rawset [DecidableEq C] (i : Int) : Api C U X Unit := do
  let ref ← table i
  let v ← take
  let key ← take
  alloc
  modify fun w => w.setEntry ref key v

/-- `lua_getfield`, with the value that it pushes; where the key is absent, the table must have no metatable. -/
def getfield (i : Int) (key : List UInt8) : Api C U X (Value C) := do
  let ref ← table i
  alloc
  let w ← realm
  match (w.tables ref).get (.string key), w.metatableAt ref with
  | .nil, some _ => fault
  | v, _ =>
    push v
    pure v

def newtable : Api C U X Unit := do
  alloc
  let w ← realm
  modify fun w => (w.setTable w.next {}).taken
  push (.table w.next)

def newuserdata (content : U) : Api C U X Nat := do
  alloc
  let w ← realm
  modify fun w => (w.setUserdata w.next (some { content := content })).taken
  push (.userdata w.next)
  pure w.next

/-- The metatable that a value stands for in `lua_setmetatable`. -/
def metatableOf : Value C → Option (Option Nat)
  | .nil => some none
  | .table ref => some (some ref)
  | _ => none

def setmetatable (i : Int) : Api C U X Unit := do
  let object ← value i
  match object, metatableOf (← take) with
  | .table ref, some m =>
    modify fun w => w.setTable ref { w.tables ref with metatable := m }
  | .userdata ref, some m =>
    modify fun w => w.setUserdata ref ((w.userdata ref).map fun u => { u with metatable := m })
  | _, _ => fault

/-- `luaL_testudata`: the pointer of a userdata with the metatable of a name. -/
def testudata (i : Int) (name : List UInt8) : Api C U X (Option Nat) := do
  let object ← value i
  let w ← realm
  match object, (w.tables 0).get (.string name) with
  | .userdata ref, .table m => pure (if (w.userdata ref).bind Userdata.metatable = some m then some ref else none)
  | _, _ => pure none

/-- `lua_setupvalue` for the first upvalue; a function without upvalues keeps the value on the stack. -/
def setupvalue (i : Int) : Api C U X Unit := do
  match ← value i with
  | .function ref =>
    match (← realm).upvalue ref with
    | none => pure ()
    | some _ =>
      let v ← take
      modify fun w => w.setUpvalue ref (some v)
  | _ => fault

def sethook (hook : Option C) : Api C U X Unit := modify fun w => { w with hook := hook }

def luaLError (message : List UInt8) : Api C U X A := do
  alloc
  raise (some (.string message))

def luaError : Api C U X A := do raise (some (← take))

/-- What `luaL_loadfilex` finds: an error, or a chunk, whose function has upvalues or not (as that of a binary chunk may). -/
inductive FileLoad (C : Type) where
  | error (e : Value C)
  | chunk (upvalues : Bool)

/-- `luaL_loadfilex`; whether it is `LUA_OK`.  The first upvalue of a new function is the global environment. -/
def loadfilex (R : Runtime C U X) (file : FileLoad C) : Api C U X Bool := do
  alloc
  let w ← realm
  if !(← attempt) then
    push (.string R.memoryError)
    pure false
  else
    match file with
    | .error e =>
      push e
      pure false
    | .chunk upvalues =>
      let globals := (w.tables 0).get (.integer ridxGlobals)
      modify fun w => (w.setUpvalue w.next (if upvalues then some globals else none)).taken
      push (.function w.next)
      pure true

/-- A function in a frame of its own: what it returns, and the frame that it leaves. -/
def inFrame (x : Api C U X A) (args : Slots C) : Api C U X (A × Slots C) := fun _ frame w =>
  match x (args.length + minStack) args w with
  | .returns a inner w => .returns (a, inner) frame w
  | .error e w => .error e w
  | .fault => .fault

end Api

def Runtime.hooked (R : Runtime C U X) : Api C U X Unit := do
  match (← Api.realm).hook with
  | none => pure ()
  | some c =>
    let _ ← Api.inFrame (R.hook c) []

def Runtime.invoke (R : Runtime C U X) (f : Value C) (args : Slots C) : Api C U X (Slots C) := do
  match R.body f with
  | none => Api.luaLError R.callError
  | some body =>
    R.hooked
    let (n, inner) ← Api.inFrame body args
    if inner.length < n then Api.fault
    else
      R.hooked
      pure (inner.take n)

def adjust (n : Nat) (results : Slots C) : Slots C :=
  if n ≤ results.length then results.drop (results.length - n) else List.replicate (n - results.length) .nil ++ results

theorem length_adjust (n : Nat) (results : Slots C) : (adjust n results).length = n := by
  unfold adjust
  split
  · rw [List.length_drop]
    omega
  · rw [List.length_append, List.length_replicate]
    omega

theorem adjust_one_reverse (results : Slots C) : adjust 1 results.reverse = [results.headD .nil] := by
  cases results with
  | nil => rfl
  | cons v vs =>
    have hle : 1 ≤ (v :: vs).reverse.length := by simp
    have hlength : (v :: vs).reverse.length - 1 = vs.reverse.length := by simp
    rw [adjust, if_pos hle, hlength, List.reverse_cons, List.drop_left, List.headD_cons]

namespace Api

def callee (nargs : Nat) : Api C U X (Value C × Slots C) := fun _ frame w =>
  match frame.drop nargs with
  | f :: rest => .returns (f, frame.take nargs) rest w
  | [] => .fault

def results (rs : Slots C) : Api C U X Unit := fun limit frame w =>
  if rs.length + frame.length ≤ limit then .returns () (rs ++ frame) w else .fault

def call (R : Runtime C U X) (nargs nresults : Nat) : Api C U X Unit := do
  let (f, args) ← callee nargs
  results (adjust nresults (← R.invoke f args))

/-- The value that `lua_pcall` leaves for an error: what the message handler makes of it, which is called for its own errors too. -/
def handled (R : Runtime C U X) (handler : Value C) : Nat → Option (Value C) → Api C U X (Value C)
  | _, none => pure (.string R.memoryError)
  | 0, some _ => pure (.string R.handlerError)
  | k + 1, some e => fun limit frame w =>
    match R.invoke handler [e] limit frame w with
    | .returns rs frame w => .returns ((adjust 1 rs).headD .nil) frame w
    | .error e w => handled R handler k e limit frame w
    | .fault => .fault

def pcall (R : Runtime C U X) (nargs nresults : Nat) (msgh : Int) : Api C U X Bool := do
  let handler ← value msgh
  let (f, args) ← callee nargs
  fun limit frame w =>
    match R.invoke f args limit frame w with
    | .returns rs frame w => (do results (adjust nresults rs); pure true) limit frame w
    | .error e w => (do results [← handled R handler R.handlers e]; pure false) limit frame w
    | .fault => .fault

/-- `lua_setfield`; for a key that is absent, the metatable may have a C function for it. -/
def setfield [DecidableEq C] (R : Runtime C U X) (i : Int) (key : List UInt8) : Api C U X Unit := do
  let ref ← table i
  let v ← take
  alloc
  let w ← realm
  let set := modify fun w => w.setEntry ref (.string key) v
  match w.metatableAt ref, (w.tables ref).get (.string key) with
  | some m, .nil =>
    match (w.tables m).get (.string newindex) with
    | .nil => set
    | .cfunction c =>
      let _ ← R.invoke (.cfunction c) [v, .string key, .table ref]
    | _ => fault
  | _, _ => set

end Api

/-! ## Rules -/

namespace Api

section
variable {x : Api C U X A} {g : A → Api C U X B} {Q : B → Slots C → Realm C U X → Prop} {P : A → Slots C → Realm C U X → Prop}
  {E : Option (Value C) → Realm C U X → Prop} {limit : Nat} {frame : Slots C} {w : Realm C U X}

@[simp] theorem wp_pure (a : A) : (pure a : Api C U X A).wp P E limit frame w ↔ P a frame w := Iff.rfl

@[simp] theorem wp_bind : (x >>= g).wp Q E limit frame w ↔ x.wp (fun a frame w => (g a).wp Q E limit frame w) E limit frame w := by
  change (match (match x limit frame w with
      | .returns a frame w => g a limit frame w | .error e w => .error e w | .fault => .fault) with
    | .returns a frame w => Q a frame w | .error e w => E e w | .fault => False) ↔ _
  unfold wp
  cases x limit frame w <;> rfl

theorem wp_mono {P' : A → Slots C → Realm C U X → Prop} {E' : Option (Value C) → Realm C U X → Prop}
    (h : x.wp P E limit frame w) (hP : ∀ a frame w, P a frame w → P' a frame w) (hE : ∀ e w, E e w → E' e w) :
    x.wp P' E' limit frame w := by
  unfold wp at h ⊢
  cases hx : x limit frame w with
  | returns a frame' w' =>
    rw [hx] at h
    exact hP a frame' w' h
  | error e w' =>
    rw [hx] at h
    exact hE e w' h
  | fault =>
    rw [hx] at h
    exact h

@[simp] theorem wp_fault : (fault : Api C U X A).wp P E limit frame w ↔ False := Iff.rfl

@[simp] theorem wp_raise (e : Option (Value C)) : (raise e : Api C U X A).wp P E limit frame w ↔ E e w := Iff.rfl

@[simp] theorem wp_realm {P : Realm C U X → Slots C → Realm C U X → Prop} : realm.wp P E limit frame w ↔ P w frame w := Iff.rfl

@[simp] theorem wp_attempt {P : Bool → Slots C → Realm C U X → Prop} :
    attempt.wp P E limit frame w ↔ P (w.succeeds w.tick) frame w.tried := Iff.rfl

theorem wp_value {P : Value C → Slots C → Realm C U X → Prop} {i : Int} {v : Value C} (hi : frame.index i = some v) :
    (value i).wp P E limit frame w ↔ P v frame w := by simp only [wp, value, hi]

@[simp] theorem wp_valueOrNone {P : Option (Value C) → Slots C → Realm C U X → Prop} {i : Int} :
    (valueOrNone i).wp P E limit frame w ↔ P (frame.index i) frame w := Iff.rfl

theorem wp_table {P : Nat → Slots C → Realm C U X → Prop} {i : Int} {ref : Nat} (hi : frame.index i = some (.table ref)) :
    (table i).wp P E limit frame w ↔ P ref frame w := by simp only [table, wp_bind, wp_value hi, wp_pure]

@[simp] theorem wp_take {P : Value C → Slots C → Realm C U X → Prop} {v : Value C} :
    take.wp P E limit (v :: frame) w ↔ P v frame w := by
  rw [take, wp_bind, wp_value (v := v) rfl]
  rfl

@[simp] theorem wp_inFrame {P : A × Slots C → Slots C → Realm C U X → Prop} {args : Slots C} :
    (inFrame x args).wp P E limit frame w ↔ x.wp (fun a inner w => P (a, inner) frame w) E (args.length + minStack) args w := by
  unfold wp inFrame
  cases x (args.length + minStack) args w <;> rfl

end

section
variable {P : Unit → Slots C → Realm C U X → Prop} {E : Option (Value C) → Realm C U X → Prop} {limit : Nat} {frame : Slots C}
  {w : Realm C U X}

@[simp] theorem wp_modify (f : Realm C U X → Realm C U X) : (modify f).wp P E limit frame w ↔ P () frame (f w) := Iff.rfl

theorem wp_alloc (hE : E none w.tried) (h : P () frame w.tried) : alloc.wp P E limit frame w := by
  rw [alloc, wp_bind, wp_attempt]
  cases w.succeeds w.tick with
  | true => exact h
  | false => exact hE

theorem wp_push {v : Value C} (hlimit : frame.length < limit) : (push v).wp P E limit frame w ↔ P () (v :: frame) w := by
  simp only [wp, push, if_pos hlimit]

theorem wp_pop {n : Nat} (hn : n ≤ frame.length) : (pop n).wp P E limit frame w ↔ P () (frame.drop n) w := by
  simp only [wp, pop, if_pos hn]

@[simp] theorem wp_pop_one {v : Value C} : (pop 1).wp P E limit (v :: frame) w ↔ P () frame w :=
  wp_pop (Nat.succ_le_succ (Nat.zero_le _))

@[simp] theorem wp_pop_two {v v' : Value C} : (pop 2).wp P E limit (v :: v' :: frame) w ↔ P () frame w :=
  wp_pop (Nat.succ_le_succ (Nat.succ_le_succ (Nat.zero_le _)))

theorem wp_pushlstring {bytes : List UInt8} (hlimit : frame.length < limit) (hE : E none w.tried)
    (h : P () (.string bytes :: frame) w.tried) : (pushlstring bytes).wp P E limit frame w := by
  rw [pushlstring, wp_bind]
  exact wp_alloc hE ((wp_push hlimit).2 h)

theorem wp_pushvalue {i : Int} {v : Value C} (hi : frame.index i = some v) (hlimit : frame.length < limit) :
    (pushvalue i).wp P E limit frame w ↔ P () (v :: frame) w := by
  rw [pushvalue, wp_bind, wp_value hi, wp_push hlimit]

theorem wp_rawget {P : Value C → Slots C → Realm C U X → Prop} {i : Int} {key : Value C} {ref : Nat}
    (hi : Slots.index (key :: frame) i = some (.table ref)) (hlimit : frame.length < limit) :
    (rawget i).wp P E limit (key :: frame) w ↔ P ((w.tables ref).get key) ((w.tables ref).get key :: frame) w := by
  simp only [rawget, wp_bind, wp_table hi, wp_take, wp_realm, wp_push hlimit, wp_pure]

theorem wp_rawgeti {i n : Int} {ref : Nat} (hi : frame.index i = some (.table ref)) (hlimit : frame.length < limit) :
    (rawgeti i n).wp P E limit frame w ↔ P () ((w.tables ref).get (.integer n) :: frame) w := by
  simp only [rawgeti, wp_bind, wp_table hi, wp_realm, wp_push hlimit]

theorem wp_rawset [DecidableEq C] {i : Int} {key v : Value C} {ref : Nat}
    (hi : Slots.index (v :: key :: frame) i = some (.table ref)) (hE : E none w.tried)
    (h : P () frame (w.tried.setEntry ref key v)) : (rawset i).wp P E limit (v :: key :: frame) w := by
  simp only [rawset, wp_bind, wp_table hi, wp_take]
  exact wp_alloc hE h

theorem wp_getregistry {P : Value C → Slots C → Realm C U X → Prop} {key : List UInt8} (hlimit : frame.length < limit)
    (hE : E none w.tried) (h : P ((w.tables 0).get (.string key)) ((w.tables 0).get (.string key) :: frame) w.tried) :
    (getfield registryIndex key).wp P E limit frame w := by
  simp only [getfield, wp_bind]
  rw [wp_table (show Slots.index frame registryIndex = some (.table 0) from rfl)]
  refine wp_alloc hE ?_
  have hm : w.tried.metatableAt 0 = none := rfl
  simp only [wp_realm, hm]
  split
  · contradiction
  · simp only [wp_bind, wp_push hlimit, wp_pure]
    exact h

theorem wp_newtable (hlimit : frame.length < limit) (hE : E none w.tried)
    (h : P () (.table w.next :: frame) (w.tried.setTable w.next {}).taken) : newtable.wp P E limit frame w := by
  rw [newtable, wp_bind]
  refine wp_alloc hE ?_
  simp only [wp_bind, wp_realm, wp_modify, wp_push hlimit]
  exact h

theorem wp_newuserdata {P : Nat → Slots C → Realm C U X → Prop} {content : U} (hlimit : frame.length < limit) (hE : E none w.tried)
    (h : P w.next (.userdata w.next :: frame) (w.tried.setUserdata w.next (some { content := content })).taken) :
    (newuserdata content).wp P E limit frame w := by
  rw [newuserdata, wp_bind]
  refine wp_alloc hE ?_
  simp only [wp_bind, wp_realm, wp_modify, wp_push hlimit, wp_pure]
  exact h

theorem wp_setmetatable_table {i : Int} {v : Value C} {ref : Nat} {m : Option Nat}
    (hi : Slots.index (v :: frame) i = some (.table ref)) (hv : metatableOf v = some m) :
    (setmetatable i).wp P E limit (v :: frame) w ↔ P () frame (w.setTable ref { w.tables ref with metatable := m }) := by
  simp only [setmetatable, wp_bind, wp_value hi, wp_take, hv, wp_modify]

theorem wp_setmetatable_userdata {i : Int} {v : Value C} {ref : Nat} {m : Option Nat}
    (hi : Slots.index (v :: frame) i = some (.userdata ref)) (hv : metatableOf v = some m) :
    (setmetatable i).wp P E limit (v :: frame) w ↔
      P () frame (w.setUserdata ref ((w.userdata ref).map fun u => { u with metatable := m })) := by
  simp only [setmetatable, wp_bind, wp_value hi, wp_take, hv, wp_modify]

theorem wp_setupvalue {i : Int} {v old : Value C} {ref : Nat} (hi : Slots.index (v :: frame) i = some (.function ref))
    (hup : w.upvalue ref = some old) : (setupvalue i).wp P E limit (v :: frame) w ↔ P () frame (w.setUpvalue ref (some v)) := by
  simp only [setupvalue, wp_bind, wp_value hi, wp_realm, hup, wp_take, wp_modify]

theorem wp_testudata {P : Option Nat → Slots C → Realm C U X → Prop} {i : Int} {name : List UInt8} {u k : Nat}
    (hi : frame.index i = some (.userdata u)) (hname : (w.tables 0).get (.string name) = .table k) :
    (testudata i name).wp P E limit frame w ↔
      P (if (w.userdata u).bind Userdata.metatable = some k then some u else none) frame w := by
  simp only [testudata, wp_bind, wp_value hi, wp_realm, hname, wp_pure]

theorem wp_testudata_any {P : Option Nat → Slots C → Realm C U X → Prop} {i : Int} {name : List UInt8} {v : Value C}
    (hi : frame.index i = some v) (h : ∀ u, P u frame w) : (testudata i name).wp P E limit frame w := by
  simp only [testudata, wp_bind, wp_value hi, wp_realm]
  split
  · exact h _
  · exact h _

theorem wp_setupvalue_none {i : Int} {ref : Nat} (hi : frame.index i = some (.function ref)) (hup : w.upvalue ref = none) :
    (setupvalue i).wp P E limit frame w ↔ P () frame w := by
  simp only [setupvalue, wp_bind, wp_value hi, wp_realm, hup, wp_pure]

@[simp] theorem wp_sethook (hook : Option C) : (sethook hook : Api C U X Unit).wp P E limit frame w ↔
    P () frame { w with hook := hook } := Iff.rfl

theorem wp_luaLError {P : A → Slots C → Realm C U X → Prop} {message : List UInt8} (hE : ∀ e, E e w.tried) :
    (luaLError message : Api C U X A).wp P E limit frame w := by
  rw [luaLError, wp_bind]
  exact wp_alloc (hE none) (hE _)

theorem wp_luaError {P : A → Slots C → Realm C U X → Prop} {v : Value C} :
    (luaError : Api C U X A).wp P E limit (v :: frame) w ↔ E (some v) w := by
  rw [luaError, wp_bind, wp_take, wp_raise]

theorem wp_loadfilex {P : Bool → Slots C → Realm C U X → Prop} {R : Runtime C U X} {file : FileLoad C}
    (hlimit : frame.length < limit) (hE : E none w.tried) (hfail : ∀ e, P false (e :: frame) w.tried.tried)
    (h : ∀ upvalues, file = .chunk upvalues → P true (.function w.next :: frame)
      (w.tried.tried.setUpvalue w.next (if upvalues then some ((w.tables 0).get (.integer ridxGlobals)) else none)).taken) :
    (loadfilex R file).wp P E limit frame w := by
  rw [loadfilex, wp_bind]
  refine wp_alloc hE ?_
  simp only [wp_bind, wp_realm, wp_attempt]
  split
  · simp only [wp_bind, wp_push hlimit, wp_pure]
    exact hfail _
  · cases file with
    | error e =>
      simp only [wp_bind, wp_push hlimit, wp_pure]
      exact hfail e
    | chunk upvalues =>
      simp only [wp_bind, wp_push hlimit, wp_pure, wp_modify]
      exact h upvalues rfl

end

/-! ### Calls -/

section
variable {R : Runtime C U X} {E : Option (Value C) → Realm C U X → Prop} {limit : Nat} {frame : Slots C} {w : Realm C U X}

theorem wp_hooked {P : Unit → Slots C → Realm C U X → Prop} {I : Realm C U X → Prop}
    (hhook : ∀ c w, I w → w.hook = some c → (R.hook c).wp (fun _ _ w => I w) E minStack [] w) (hI : I w)
    (h : ∀ w, I w → P () frame w) : R.hooked.wp P E limit frame w := by
  rw [Runtime.hooked, wp_bind, wp_realm]
  cases hc : w.hook with
  | none => exact h w hI
  | some c =>
    simp only [wp_bind, wp_inFrame, wp_pure]
    exact wp_mono (hhook c w hI hc) (fun _ _ w' hI' => h w' hI') fun _ _ he => he

theorem wp_hooked_none {P : Unit → Slots C → Realm C U X → Prop} (hhook : w.hook = none) :
    R.hooked.wp P E limit frame w ↔ P () frame w := by
  rw [Runtime.hooked, wp_bind, wp_realm, hhook, wp_pure]

theorem wp_invoke {P : Slots C → Slots C → Realm C U X → Prop} {v : Value C} {args : Slots C} {body : Api C U X Nat}
    (hbody : R.body v = some body)
    (h : R.hooked.wp (fun _ frame w => body.wp (fun n inner w => n ≤ inner.length ∧
      R.hooked.wp (fun _ frame w => P (inner.take n) frame w) E limit frame w) E (args.length + minStack) args w) E limit frame w) :
    (R.invoke v args).wp P E limit frame w := by
  simp only [Runtime.invoke, hbody, wp_bind, wp_inFrame]
  refine wp_mono h (fun _ frame w hinner => ?_) fun _ _ he => he
  refine wp_mono hinner (fun n inner w hn => ?_) fun _ _ he => he
  rw [if_neg (Nat.not_lt.2 hn.1), wp_bind]
  exact hn.2

theorem wp_invoke_none {P : Slots C → Slots C → Realm C U X → Prop} {v : Value C} {args : Slots C} (hbody : R.body v = none)
    (hE : ∀ e, E e w.tried) : (R.invoke v args).wp P E limit frame w := by
  simp only [Runtime.invoke, hbody]
  exact wp_luaLError hE

theorem wp_callee {P : Value C × Slots C → Slots C → Realm C U X → Prop} {v : Value C} {args : Slots C} :
    (callee args.length).wp P E limit (args ++ v :: frame) w ↔ P (v, args) frame w := by
  simp only [wp, callee, List.drop_left, List.take_left]

theorem wp_results {P : Unit → Slots C → Realm C U X → Prop} {rs : Slots C} (h : rs.length + frame.length ≤ limit) :
    (results rs).wp P E limit frame w ↔ P () (rs ++ frame) w := by
  simp only [wp, results, if_pos h]

theorem wp_call {P : Unit → Slots C → Realm C U X → Prop} {nargs nresults : Nat} {v : Value C} (args rest : Slots C)
    (hframe : frame = args ++ v :: rest) (hnargs : nargs = args.length) (hlimit : nresults + rest.length ≤ limit)
    (h : (R.invoke v args).wp (fun rs inner w => inner = rest ∧ P () (adjust nresults rs ++ rest) w) E limit rest w) :
    (call R nargs nresults).wp P E limit frame w := by
  subst hframe hnargs
  rw [call, wp_bind, wp_callee]
  dsimp only
  rw [wp_bind]
  refine wp_mono h (fun rs inner w hinner => ?_) fun _ _ he => he
  obtain ⟨rfl, hP⟩ := hinner
  refine (wp_results ?_).2 hP
  rwa [length_adjust]

/-- **The message handler is called** with each error, unless it is one of memory; an invariant of the realm holds at each call. -/
theorem wp_handled {P : Value C → Slots C → Realm C U X → Prop} {I : Realm C U X → Prop} {handler : Value C}
    (hmemory : ∀ w, I w → P (.string R.memoryError) frame w) (hhandler : ∀ w, I w → P (.string R.handlerError) frame w)
    (h : ∀ v w, I w → (R.invoke handler [v]).wp (fun rs inner w => P ((adjust 1 rs).headD .nil) inner w) (fun _ w => I w)
      limit frame w) : ∀ (k : Nat) (e : Option (Value C)) {w : Realm C U X}, I w → (handled R handler k e).wp P E limit frame w
  | k, none, w, hI => by
    cases k with
    | zero => exact hmemory w hI
    | succ k => exact hmemory w hI
  | 0, some _, w, hI => hhandler w hI
  | k + 1, some v, w, hI => by
    have hv := h v w hI
    unfold wp at hv ⊢
    rw [handled]
    dsimp only
    cases hr : R.invoke handler [v] limit frame w with
    | returns rs inner w' =>
      rw [hr] at hv
      exact hv
    | error e w' =>
      rw [hr] at hv
      exact wp_handled hmemory hhandler h k e hv
    | fault =>
      rw [hr] at hv
      exact hv

theorem wp_pcall {P : Bool → Slots C → Realm C U X → Prop} {nargs nresults : Nat} {msgh : Int} {v handler : Value C}
    (args rest : Slots C) (hframe : frame = args ++ v :: rest) (hnargs : nargs = args.length)
    (hhandler : frame.index msgh = some handler) (hlimit : nresults + rest.length ≤ limit) (hone : 1 + rest.length ≤ limit)
    (h : (R.invoke v args).wp (fun rs inner w => inner = rest ∧ P true (adjust nresults rs ++ rest) w)
      (fun e w => (handled R handler R.handlers e).wp (fun v inner w => inner = rest ∧ P false (v :: rest) w) E limit rest w)
      limit rest w) :
    (pcall R nargs nresults msgh).wp P E limit frame w := by
  subst hframe hnargs
  rw [pcall, wp_bind, wp_value hhandler, wp_bind, wp_callee]
  unfold wp at h ⊢
  dsimp only
  cases hr : R.invoke v args limit rest w with
  | returns rs inner w' =>
    rw [hr] at h
    obtain ⟨rfl, hP⟩ := h
    have hres : (do results (adjust nresults rs); pure true : Api C U X Bool).wp P E limit inner w' := by
      rw [wp_bind, wp_results (by rwa [length_adjust])]
      exact hP
    exact hres
  | error e w' =>
    rw [hr] at h
    have hres : (do results [← handled R handler R.handlers e]; pure false : Api C U X Bool).wp P E limit rest w' := by
      rw [wp_bind]
      refine wp_mono h (fun v inner w hinner => ?_) fun _ _ he => he
      obtain ⟨rfl, hP⟩ := hinner
      rw [wp_bind, wp_results hone]
      exact hP
    exact hres
  | fault =>
    rw [hr] at h
    exact h

section
variable [DecidableEq C] {P : Unit → Slots C → Realm C U X → Prop} {i : Int} {key : List UInt8} {v : Value C} {ref : Nat}

theorem wp_setfield (hi : Slots.index (v :: frame) i = some (.table ref))
    (hplain : ∀ m, w.metatableAt ref = some m → (w.tables m).get (.string newindex) = .nil) (hE : E none w.tried)
    (h : P () frame (w.tried.setEntry ref (.string key) v)) : (setfield R i key).wp P E limit (v :: frame) w := by
  simp only [setfield, wp_bind, wp_table hi, wp_take]
  refine wp_alloc hE ?_
  rw [wp_realm]
  split
  · rename_i m hm _
    rw [show (w.tried.tables m).get (.string newindex) = .nil from hplain m hm]
    exact h
  · exact h

theorem wp_setregistry (hE : E none w.tried) (h : P () frame (w.tried.setEntry 0 (.string key) v)) :
    (setfield R registryIndex key).wp P E limit (v :: frame) w :=
  wp_setfield rfl (fun _ hm => absurd hm.symm (Option.some_ne_none _)) hE h

theorem wp_setfield_present (hi : Slots.index (v :: frame) i = some (.table ref))
    (hpresent : (w.tables ref).get (.string key) ≠ .nil) (hE : E none w.tried)
    (h : P () frame (w.tried.setEntry ref (.string key) v)) :
    (setfield R i key).wp P E limit (v :: frame) w := by
  simp only [setfield, wp_bind, wp_table hi, wp_take]
  refine wp_alloc hE ?_
  rw [wp_realm]
  split
  · rename_i hnil
    exact absurd hnil hpresent
  · exact h

theorem wp_setfield_newindex {m : Nat} {c : C} (hi : Slots.index (v :: frame) i = some (.table ref))
    (hm : w.metatableAt ref = some m) (habsent : (w.tables ref).get (.string key) = .nil)
    (hc : (w.tables m).get (.string newindex) = .cfunction c) (hE : E none w.tried)
    (h : (R.invoke (.cfunction c) [v, .string key, .table ref]).wp (fun _ frame w => P () frame w) E limit frame w.tried) :
    (setfield R i key).wp P E limit (v :: frame) w := by
  simp only [setfield, wp_bind, wp_table hi, wp_take]
  refine wp_alloc hE ?_
  rw [wp_realm, show w.tried.metatableAt ref = some m from hm, show (w.tried.tables ref).get (.string key) = .nil from habsent]
  dsimp only
  rw [show (w.tried.tables m).get (.string newindex) = .cfunction c from hc]
  simp only [wp_bind, wp_pure]
  exact h

end
end

end Api

/-! ## What was there before -/

structure Realm.Grown (w w' : Realm C U X) : Prop where
  next : w.next ≤ w'.next
  hook : w'.hook = w.hook
  host : w'.host = w.host
  tables : ∀ ref < w.next, w'.tables ref = w.tables ref
  upvalue : ∀ ref < w.next, w'.upvalue ref = w.upvalue ref
  userdata : ∀ ref < w.next, w'.userdata ref = w.userdata ref

section
variable {w w' w'' : Realm C U X} {ref : Nat}

theorem Realm.Grown.refl (w : Realm C U X) : w.Grown w :=
  ⟨Nat.le_refl _, rfl, rfl, fun _ _ => rfl, fun _ _ => rfl, fun _ _ => rfl⟩

theorem Realm.Grown.trans (h : w.Grown w') (h' : w'.Grown w'') : w.Grown w'' where
  next := Nat.le_trans h.next h'.next
  hook := h'.hook.trans h.hook
  host := h'.host.trans h.host
  tables ref hr := (h'.tables ref (Nat.lt_of_lt_of_le hr h.next)).trans (h.tables ref hr)
  upvalue ref hr := (h'.upvalue ref (Nat.lt_of_lt_of_le hr h.next)).trans (h.upvalue ref hr)
  userdata ref hr := (h'.userdata ref (Nat.lt_of_lt_of_le hr h.next)).trans (h.userdata ref hr)

theorem Realm.Grown.atTick (h : w.Grown w') (k : Nat) : w.Grown (w'.atTick k) :=
  ⟨h.next, h.hook, h.host, h.tables, h.upvalue, h.userdata⟩

theorem Realm.Grown.tried (h : w.Grown w') : w.Grown w'.tried := h.atTick _

theorem Realm.Grown.taken (h : w.Grown w') : w.Grown w'.taken :=
  ⟨Nat.le_succ_of_le h.next, h.hook, h.host, h.tables, h.upvalue, h.userdata⟩

theorem Realm.Grown.setTable (h : w.Grown w') (hr : w.next ≤ ref) (t : Table C) : w.Grown (w'.setTable ref t) where
  next := h.next
  hook := h.hook
  host := h.host
  tables ref' hr' := by
    have hne : ref' ≠ ref := by omega
    simp only [Realm.setTable, Function.update_of_ne hne, h.tables ref' hr']
  upvalue := h.upvalue
  userdata := h.userdata

theorem Realm.Grown.setEntry [DecidableEq C] (h : w.Grown w') (hr : w.next ≤ ref) (key v : Value C) :
    w.Grown (w'.setEntry ref key v) := h.setTable hr _

theorem Realm.Grown.setUserdata (h : w.Grown w') (hr : w.next ≤ ref) (u : Option (Userdata U)) :
    w.Grown (w'.setUserdata ref u) where
  next := h.next
  hook := h.hook
  host := h.host
  tables := h.tables
  upvalue := h.upvalue
  userdata ref' hr' := by
    have hne : ref' ≠ ref := by omega
    simp only [Realm.setUserdata, Function.update_of_ne hne, h.userdata ref' hr']

theorem Realm.Grown.setUpvalue (h : w.Grown w') (hr : w.next ≤ ref) (v : Option (Value C)) : w.Grown (w'.setUpvalue ref v) where
  next := h.next
  hook := h.hook
  host := h.host
  tables := h.tables
  upvalue ref' hr' := by
    have hne : ref' ≠ ref := by omega
    simp only [Realm.setUpvalue, Function.update_of_ne hne, h.upvalue ref' hr']
  userdata := h.userdata

end

theorem Slots.index_append {frame : Slots C} {i : Int} (hpos : 0 < i) (hle : i ≤ frame.length) (extra : Slots C) :
    Slots.index (extra ++ frame) i = Slots.index frame i := by
  have hne : i ≠ registryIndex := by
    unfold registryIndex
    omega
  have hlength : (extra ++ frame).length = extra.length + frame.length := List.length_append
  have hle' : i ≤ ((extra ++ frame).length : Int) := by omega
  simp only [Slots.index, if_neg hne, if_pos hpos, if_pos hle, if_pos hle']
  rw [List.getElem?_append_right (by omega)]
  congr 1
  omega

end LuaApi

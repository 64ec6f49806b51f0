import Lws.Ring
import Lws.TableSizes
/-!
# Table — the hash table (`lws_table.c`)

Open addressing with double hashing, Brent's moves on insertion, tombstones, and an order list threaded through the
entries.  An entry's `order` field is kept beside the entry, in `Table.order`: the links of slot `i` are those of the
address `some i`, and `none` is the sentinel `&t->order`.  Copying an entry to another slot therefore copies a record
here and `Links.relocate` there.  Loops that the source bounds by the shape of the table carry fuel.
-/
namespace Lws

open Ring (Links)

/-- The bytes of an `ngx_str_t`. -/
abbrev Key := List UInt8

def literal (s : String) : Key := s.toList.map fun c => c.toNat.toUInt8

/-- `lws_table_entry_state_e`. -/
inductive EntryState where
  | unused
  | set
  | deleted
deriving DecidableEq, Repr

/-- An integer as a `time_t`, which is signed and as wide as a pointer: a sum that overflows wraps. -/
def Build.timeT (b : Build) (n : Int) : Int := n.bmod (2 ^ b.bits)

/-- `lws_table_entry_t`, less its `order` links; `none` is a NULL value. -/
structure Entry (b : Build) (V : Type) where
  key : Key := []
  value : Option V := none
  hash : BitVec b.bits := 0
  time : Int := 0
  state : EntryState := .unused

structure Table (b : Build) (V : Type) where
  alloc : Nat
  load : Nat
  count : Nat := 0
  entries : Nat → Entry b V := fun _ => {}
  order : Links (Option Nat)
  timeout : Int := 0
  cap : Nat := 0
  dup : Bool := false
  free : Bool := false
  ci : Bool := false
  timed : Bool := false
  capped : Bool := false

/-- Which of the allocations of one `lws_table_set` succeed: the entries of a rehash, the copy of the key. -/
structure SetAlloc where
  rehash : Bool := true
  dup : Bool := true

variable {b : Build} {V : Type}

/-! ## Hash and comparison -/

def ngxTolower (c : UInt8) : UInt8 := if 0x41 ≤ c ∧ c ≤ 0x5a then c ||| 0x20 else c

/-- `_LWS_TABLE_HASH_PRIME`. -/
def Build.hashPrime : (b : Build) → BitVec b.bits
  | .b64 => 1099511628211#64
  | .b32 => 16777619#32

/-- `lws_table_hash`: FNV-1a from the last byte to the first. -/
def tableHash (seed : BitVec b.bits) (ci : Bool) (key : Key) : BitVec b.bits :=
  key.reverse.foldl (fun hash c =>
    (hash ^^^ BitVec.ofNat b.bits (if ci then ngxTolower c else c).toNat) * b.hashPrime) seed

/-- `ngx_strncmp`: up to the first difference, the first zero byte, or `n` bytes. -/
def ngxStrncmp : List UInt8 → List UInt8 → Nat → Int
  | c1 :: s1, c2 :: s2, n + 1 =>
    if c1 ≠ c2 then (c1.toNat : Int) - c2.toNat else if c1 = 0 then 0 else ngxStrncmp s1 s2 n
  | _, _, _ => 0

def ngxStrncasecmp : List UInt8 → List UInt8 → Nat → Int
  | c1 :: s1, c2 :: s2, n + 1 =>
    let c1 := ngxTolower c1
    let c2 := ngxTolower c2
    if c1 = c2 then (if c1 ≠ 0 then ngxStrncasecmp s1 s2 n else 0) else (c1.toNat : Int) - c2.toNat
  | _, _, _ => 0

/-! ## Probing -/

/-- The stride of a hash: `hash % (t->alloc - 2) + 1`. -/
def Table.stride (t : Table b V) (hash : BitVec b.bits) : Nat := hash.toNat % (t.alloc - 2) + 1

/-- The first slot of a hash: `hash % t->alloc`. -/
def Table.start (t : Table b V) (hash : BitVec b.bits) : Nat := hash.toNat % t.alloc

/-- The test of `lws_table_find` on one entry. -/
def Table.matches (t : Table b V) (entry : Entry b V) (key : Key) (hash : BitVec b.bits) : Bool :=
  entry.state = .set && entry.hash = hash && entry.key.length = key.length &&
    (if t.ci then ngxStrncasecmp entry.key key key.length else ngxStrncmp entry.key key key.length) = 0

/-- The loop of `lws_table_find`, from slot `h`; it ends at `r`, where the walk began. -/
def findLoop (t : Table b V) (key : Key) (hash : BitVec b.bits) (r q : Nat) : Nat → Nat → Option Nat
  | 0, _ => none
  | fuel + 1, h =>
    if (t.entries h).state = .unused then none
    else if t.matches (t.entries h) key hash then some h
    else
      let h := (h + q) % t.alloc
      if h = r then none else findLoop t key hash r q fuel h

/-- `lws_table_find`: the slot of the entry, or none. -/
def tableFind (t : Table b V) (key : Key) (hash : BitVec b.bits) : Option Nat :=
  findLoop t key hash (t.start hash) (t.stride hash) t.alloc (t.start hash)

/-! ## Insertion -/

/-- The first loop of `lws_table_insert`: the first slot that is not set, and `len_worst`. -/
def worstLoop (t : Table b V) (q : Nat) : Nat → Nat → Nat → Nat × Nat
  | 0, h, len => (h, len)
  | fuel + 1, h, len =>
    if (t.entries h).state = .set then worstLoop t q fuel ((h + q) % t.alloc) (len + 1) else (h, len)

/-- The inner loop of `lws_table_insert`: a slot that is not set further along the sequence of the entry in the way, with
`len_move`. -/
def moveSearch (t : Table b V) (qMove len lenWorst : Nat) : Nat → Nat → Nat → Option (Nat × Nat)
  | 0, _, _ => none
  | fuel + 1, hMove, lenMove =>
    if (t.entries hMove).state ≠ .set then some (hMove, lenMove)
    else if len + lenMove ≥ lenWorst - 1 then none
    else moveSearch t qMove len lenWorst fuel ((hMove + qMove) % t.alloc) (lenMove + 1)

/-- A move that `lws_table_insert` has found: from `entry_move_old` to `entry_move_new`, with `len_entry_move`. -/
structure Move where
  old : Nat
  new : Nat
  len : Nat
deriving DecidableEq, Repr

/-- One round of the outer loop of `lws_table_insert`: a move for the entry in slot `h`, or the move found before. -/
def moveRound (t : Table b V) (lenWorst h len : Nat) (move : Option Move) : Option Move :=
  let qMove := t.stride (t.entries h).hash
  match moveSearch t qMove len lenWorst lenWorst ((h + qMove) % t.alloc) 1 with
  | some (hMove, lenMove) => some ⟨h, hMove, lenMove⟩
  | none => move

/-- The outer loop of `lws_table_insert` (a `do`-`while`): the last move found and the slot the loop stops at.  No move
stands for a `len_entry_move` of `(size_t)-1`. -/
def moveLoop (t : Table b V) (q lenWorst : Nat) : Nat → Nat → Nat → Option Move → Option Move × Nat
  | 0, h, _, move => (move, h)
  | fuel + 1, h, len, move =>
    let move := moveRound t lenWorst h len move
    let h := (h + q) % t.alloc
    let len := len + 1
    if len < lenWorst - 1 ∧ (∀ m ∈ move, len < m.len) then moveLoop t q lenWorst fuel h len move else (move, h)

/-- `lws_table_insert`: the slot for a new entry, after moving the entry in the way when that is better overall.  The slot
a moved entry leaves keeps its stale contents until the caller overwrites it. -/
def tableInsert (t : Table b V) (hash : BitVec b.bits) : Table b V × Nat :=
  let q := t.stride hash
  let (slot, lenWorst) := worstLoop t q t.alloc (t.start hash) 1
  if lenWorst ≤ 2 then (t, slot)
  else
    match moveLoop t q lenWorst lenWorst (t.start hash) 1 none with
    | (some m, _) =>
      ({ t with
          entries := Function.update t.entries m.new (t.entries m.old)
          order := t.order.relocate (some m.old) (some m.new) }, m.old)
    | (none, h) => (t, (h + q) % t.alloc)

/-! ## Removal and rehash -/

def tableRemove (t : Table b V) (i : Nat) : Table b V :=
  { t with
    order := t.order.remove (some i)
    entries := Function.update t.entries i { t.entries i with state := .deleted }
    count := t.count - 1 }

/-- The reinsertion loop of `lws_table_rehash`: `q` walks the old order list backwards. -/
def reinsert (old : Nat → Entry b V) (oldOrder : Links (Option Nat)) : Nat → Option Nat → Table b V → Table b V
  | fuel + 1, some i, t =>
    let (t, slot) := tableInsert t (old i).hash
    let t := { t with
      entries := Function.update t.entries slot (old i)
      order := t.order.insertHead none (some slot) }
    reinsert old oldOrder fuel (oldOrder.prev (some i)) t
  | _, _, t => t

/-- `lws_table_rehash`; `none` is its failure. -/
def tableRehash (t : Table b V) (alloc : Nat) (calloc : Bool) : Option (Table b V) :=
  match tableSize b alloc with
  | none => none
  | some allocNew =>
    if !calloc then none
    else
      let t' := { t with
        alloc := allocNew
        load := tableLoad allocNew
        entries := fun _ => {}
        order := (⟨fun _ => none, fun _ => none⟩ : Links (Option Nat)).init none }
      some (reinsert t.entries t.order t.alloc (t.order.prev none) t')

/-! ## The interface -/

def tableCreate (b : Build) (V : Type) (load : Nat) (callocTable callocEntries : Bool) : Option (Table b V) :=
  if !callocTable then none
  else
    let last := b.tableSizes.getLastD 0
    let alloc := (load + (if load < last then load / 7 + 3 else 0)) % 2 ^ b.bits
    match tableSize b alloc with
    | none => none
    | some alloc =>
      if !callocEntries then none
      else some { alloc := alloc, load := tableLoad alloc, order := (⟨fun _ => none, fun _ => none⟩ : Links _).init none }

def tableSetDup (t : Table b V) (dup : Bool) : Table b V × Int := if t.count ≠ 0 then (t, -1) else ({ t with dup := dup }, 0)

def tableSetFree (t : Table b V) (free : Bool) : Table b V × Int :=
  if t.count ≠ 0 then (t, -1) else ({ t with free := free }, 0)

def tableSetCi (t : Table b V) (ci : Bool) : Table b V × Int := if t.count ≠ 0 then (t, -1) else ({ t with ci := ci }, 0)

def tableSetTimeout (t : Table b V) (timeout : Int) : Table b V × Int :=
  if t.count ≠ 0 then (t, -1) else ({ t with timeout := timeout, timed := true }, 0)

def tableSetCap (t : Table b V) (cap : Nat) : Table b V × Int :=
  if t.count ≠ 0 ∨ cap < 1 then (t, -1) else ({ t with cap := cap, capped := true }, 0)

section
variable (seed : BitVec b.bits)

def tableGet (t : Table b V) (key : Key) (now : Int) : Table b V × Option V :=
  match tableFind t key (tableHash seed t.ci key) with
  | none => (t, none)
  | some i =>
    if t.timed && decide (b.timeT ((t.entries i).time + t.timeout) ≤ now) then (t, none)
    else
      let t := if t.capped then { t with order := (t.order.remove (some i)).insertTail none (some i) } else t
      (t, (t.entries i).value)

def tableUpdate (t : Table b V) (i : Nat) (value : V) (now : Int) : Table b V :=
  let t := if t.capped then { t with order := (t.order.remove (some i)).insertTail none (some i) } else t
  let e := { t.entries i with value := some value }
  { t with entries := Function.update t.entries i (if t.timed then { e with time := now } else e) }

/-- The eviction of `lws_table_set`: the head of the order list, when the table is at its cap. -/
def tableEvict (t : Table b V) : Table b V :=
  if t.capped && t.count = t.cap then
    match t.order.next none with
    | some i => tableRemove t i
    | none => t
  else t

/-- The last part of `lws_table_set`: the new entry goes into the slot that `lws_table_insert` returns. -/
def tableFill (t : Table b V) (key : Key) (value : V) (hash : BitVec b.bits) (now : Int) : Table b V :=
  let (t, slot) := tableInsert t hash
  let e := { t.entries slot with key := key, value := some value, hash := hash, state := .set }
  { t with
    entries := Function.update t.entries slot (if t.timed then { e with time := now } else e)
    order := t.order.insertTail none (some slot)
    count := t.count + 1 }

/-- `lws_table_set` at time `now`; a `none` value removes. -/
def tableSet (t : Table b V) (key : Key) (value : Option V) (now : Int) (mem : SetAlloc) : Table b V × Int :=
  let hash := tableHash seed t.ci key
  match value, tableFind t key hash with
  | some value, some i => (tableUpdate t i value now, 0)
  | some value, none =>
    let t := tableEvict t
    match (if t.count = t.load then tableRehash t (t.alloc + 1) mem.rehash else some t) with
    | none => (t, -1)
    | some t => if t.dup && !mem.dup then (t, -1) else (tableFill t key value hash now, 0)
  | none, some i => (tableRemove t i, 0)
  | none, none => (t, 0)

def tableNext (t : Table b V) (key : Option Key) : Option (Key × Option V) :=
  let q := match key with
    | some key => (tableFind t key (tableHash seed t.ci key)).map (fun i => t.order.next (some i))
    | none => some (t.order.next none)
  match q with
  | some (some i) => some ((t.entries i).key, (t.entries i).value)
  | _ => none

end

/-- The removal loop of `lws_table_clear` and `lws_table_free`: the last entry until none is left. -/
def removeAll : Nat → Table b V → Table b V
  | fuel + 1, t =>
    match t.order.prev none with
    | some i => removeAll fuel (tableRemove t i)
    | none => t
  | 0, t => t

def tableClear (t : Table b V) : Table b V :=
  let t := if t.dup || t.free then removeAll t.alloc t else { t with order := t.order.init none, count := 0 }
  { t with entries := fun _ => {} }

end Lws

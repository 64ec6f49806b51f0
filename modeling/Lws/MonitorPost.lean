import Mathlib.Logic.Basic
import Lws.Profile
import Lws.RequestBody
import Lws.Stream
/-!
# MonitorPost — a POST to the monitor (`lws_monitor_body_handler`, `lws_monitor_modification_handler`)

The body is copied into one block and parsed there, and each pair is applied as soon as it is found: what comes before a pair
that is rejected stays.  The block is memory, in which a byte that cannot be read is `none`; `postPairs` says which pairs there
are by splitting at `&` and at `=`.
-/
namespace Lws

/-! ## The memory of the copy -/

/-- A buffer of `r->request_body->bufs`: in memory, or in a file only. -/
inductive BodyBuf where
  | memory (b : NgxBuf)
  | file (bytes : Key)
deriving DecidableEq

def BodyBuf.size : BodyBuf → Nat
  | .memory b => b.last - b.pos
  | .file bytes => bytes.length

/-- The bytes from `pos` to `last`, which a buffer in a file has none of. -/
def BodyBuf.copied : BodyBuf → Key
  | .memory b => b.content
  | .file _ => []

/-- The block of `body.data`, at 0: what is copied, and then what the memory held. -/
def copiedMemory (copied : Key) (old : Nat → Option UInt8) (p : Nat) : Option UInt8 := copied[p]?.or (old p)

/-- An `ngx_str_t` into the block. -/
structure BodyStr where
  data : Nat := 0
  len : Nat := 0
deriving DecidableEq

/-! ## The modifications -/

/-- The fields of `lws_monitor_t` that a POST modifies. -/
structure LwsMonitor (w : Nat) extends Functions w where
  profiler : BitVec w := 0
deriving DecidableEq

section
variable {w : Nat}

/-- `ngx_atomic_cmp_set`; none is a failure. -/
def ngxAtomicCmpSet (value old set : BitVec w) : Option (BitVec w) := if value = old then some set else none

/-- A monitor whose `profiler` has been set, or not. -/
def LwsMonitor.setProfiler (m : LwsMonitor w) : Option (BitVec w) → LwsMonitor w × Int
  | some profiler => ({ m with profiler := profiler }, ngxOk)
  | none => (m, 409)

/-- The `profiler` part of `lws_monitor_modification_handler`, for a value of one byte. -/
def modifyProfiler (c : UInt8) (m : LwsMonitor w) : LwsMonitor w × Int :=
  if c = 0x30 then m.setProfiler ((ngxAtomicCmpSet m.profiler 1 0).or (ngxAtomicCmpSet m.profiler 2 0))
  else if c = 0x31 ∨ c = 0x32 then m.setProfiler (ngxAtomicCmpSet m.profiler 0 (BitVec.ofNat w (c - 0x30).toNat))
  else (m, 400)

/-- The `functions` part of `lws_monitor_modification_handler`, for the value `[]`. -/
def modifyFunctions (m : LwsMonitor w) : LwsMonitor w × Int := ({ m with toFunctions := clearFunctions m.toFunctions }, ngxOk)

section
variable (mem : Nat → Option UInt8)

/-- `ngx_strncmp(data, text, len) == 0`, for a text of this length. -/
def strncmpEq : Nat → Key → Option Bool
  | _, [] => some true
  | p, c :: text => (mem p).bind fun b => if b = c then strncmpEq (p + 1) text else some false

/-- `lws_monitor_modification_handler`; none is a byte that cannot be read. -/
def lwsMonitorModificationHandler (key value : BodyStr) (m : LwsMonitor w) : Option (LwsMonitor w × Int) :=
  match key.len with
  | 8 => (strncmpEq mem key.data (literal "profiler")).bind fun eq =>
    if eq then
      if value.len ≠ 1 then some (m, 400) else (mem value.data).map fun c => modifyProfiler c m
    else some (m, ngxOk)
  | 9 => (strncmpEq mem key.data (literal "functions")).bind fun eq =>
    if eq then
      if value.len ≠ 2 then some (m, 400)
      else (mem value.data).bind fun c =>
        if c ≠ 0x5b then some (m, 400)
        else (mem (value.data + 1)).map fun c => if c ≠ 0x5d then (m, 400) else modifyFunctions m
    else some (m, ngxOk)
  | _ => some (m, ngxOk)

/-! ## The parser -/

/-- The states of `lws_monitor_body_handler`: 0 before a key, and 1 before a value. -/
inductive PostState where
  | key
  | value
deriving DecidableEq

/-- The variables of the loop of `lws_monitor_body_handler`; `value` is none for `value.data` NULL, and `target` is what the
pairs are applied to. -/
structure PostLoop (σ : Type) where
  pos : Nat := 0
  state : PostState := .key
  key : BodyStr := {}
  value : Option BodyStr := none
  target : σ

/-- "find key or value": from `pos` to the next delimiter, at most `n` bytes. -/
def findDelimiter : Nat → Nat → Option Nat
  | 0, pos => some pos
  | n + 1, pos => (mem pos).bind fun c => if c ≠ 0x3d ∧ c ≠ 0x26 then findDelimiter n (pos + 1) else some pos

variable {σ : Type} (modification : BodyStr → BodyStr → σ → Option (σ × Int)) (last : Nat)

/-- The first part of a round; after a key, the byte at `pos` is read, also where `pos` is `last`. -/
def PostLoop.find (x : PostLoop σ) : Option (PostLoop σ) :=
  (findDelimiter mem (last - x.pos) x.pos).bind fun pos =>
    let token : BodyStr := ⟨x.pos, pos - x.pos⟩
    match x.state with
    | .key => (mem pos).map fun c =>
      if c = 0x3d then { x with pos := pos, key := token, state := .value }
      else { x with pos := pos, key := token, value := some ⟨pos, 0⟩ }
    | .value => some { x with pos := pos, value := some token, state := .key }

/-- "process pair". -/
def PostLoop.process (x : PostLoop σ) : Option (PostLoop σ × Int) :=
  match x.value with
  | none => some (x, ngxOk)
  | some value => (modification x.key value x.target).map fun r => ({ x with value := none, target := r.1 }, r.2)

/-- The loop of `lws_monitor_body_handler`: the target, and the `rc` that ends it. -/
def postLoop : Nat → PostLoop σ → Option (σ × Int)
  | 0, _ => none
  | fuel + 1, x =>
    (x.find mem last).bind fun x => (x.process modification).bind fun (x, rc) =>
      if rc ≠ ngxOk then some (x.target, rc)
      else if x.pos = last then some (x.target, ngxOk)
      else postLoop fuel { x with pos := x.pos + 1 }

end

/-- Which allocations of `lws_monitor_content_handler` succeed: the link and the buffer, the document, and the header. -/
structure ContentAlloc where
  link : Bool := true
  start : Bool := true
  header : Bool := true

/-- The status of `lws_monitor_content_handler`. -/
def contentStatus (a : ContentAlloc) : Int :=
  if !a.link then 500 else if !a.start then 500 else if !a.header then 500 else 200

/-- A POST that has been read: `r->request_body`, with its `bufs`, and the allocations of its handlers. -/
structure PostRequest where
  body : Option (List BodyBuf)
  palloc : Bool := true
  content : ContentAlloc := {}

/-- `lws_monitor_body_handler`: the status that the request is finalized with. -/
def lwsMonitorBodyHandler (r : PostRequest) (old : Nat → Option UInt8) (m : LwsMonitor w) : Option (LwsMonitor w × Int) :=
  match r.body with
  | none => some (m, 500)
  | some [] => some (m, 400)
  | some bufs =>
    if !r.palloc then some (m, 500)
    else
      let mem := copiedMemory (bufs.flatMap BodyBuf.copied) old
      let last := (bufs.map BodyBuf.size).sum
      (postLoop mem (lwsMonitorModificationHandler mem) last (last + 1) { target := m }).map fun (m, rc) =>
        if rc ≠ ngxOk then (m, rc) else (m, contentStatus r.content)

end

/-! ## The pairs of a body -/

def tokenByte (c : UInt8) : Bool := c ≠ 0x3d ∧ c ≠ 0x26

def pairUp : List Key → List (Key × Key)
  | [] => []
  | [key] => [(key, [])]
  | key :: value :: pieces => (key, value) :: pairUp pieces

/-- The pairs of a field: its pieces between the `=`. -/
def fieldPairs (field : Key) : List (Key × Key) := pairUp (field.splitOn 0x3d)

def postPairs (body : Key) : List (Key × Key) := (body.splitOn 0x26).flatMap fieldPairs

/-- The last token of a body is a key. -/
def EndsInKey (body : Key) : Prop := ((body.splitOn 0x26).getLast (List.splitOn_ne_nil 0x26 body)).count 0x3d % 2 = 0

instance (body : Key) : Decidable (EndsInKey body) := inferInstanceAs (Decidable (_ = _))

/-- The pairs that are found, with the byte after the body: a last key is taken for one before a value, where it is `=`. -/
def foundPairs (after : UInt8) (body : Key) : List (Key × Key) :=
  if after = 0x3d ∧ EndsInKey body then (postPairs body).dropLast else postPairs body

theorem fieldPairs_key {field : Key} (h : 0x3d ∉ field) : fieldPairs field = [(field, [])] := by
  rw [fieldPairs, List.splitOn_eq_singleton h]
  rfl

theorem fieldPairs_value {key value : Key} (hkey : 0x3d ∉ key) (hvalue : 0x3d ∉ value) :
    fieldPairs (key ++ 0x3d :: value) = [(key, value)] := by
  rw [fieldPairs, List.splitOn_append_cons_self_of_not_mem hkey, List.splitOn_eq_singleton hvalue]
  rfl

theorem fieldPairs_more {key value : Key} (hkey : 0x3d ∉ key) (hvalue : 0x3d ∉ value) (field : Key) :
    fieldPairs (key ++ 0x3d :: (value ++ 0x3d :: field)) = (key, value) :: fieldPairs field := by
  rw [fieldPairs, List.splitOn_append_cons_self_of_not_mem hkey, List.splitOn_append_cons_self_of_not_mem hvalue]
  rfl

theorem delimiter {d : UInt8} (h : tokenByte d = false) : d = 0x3d ∨ d = 0x26 := by
  by_contra hne
  obtain ⟨heq, hamp⟩ := not_or.1 hne
  exact of_decide_eq_false h ⟨heq, hamp⟩

section
variable {t k : Key} (ht : ∀ c ∈ t, tokenByte c = true) (hk : ∀ c ∈ k, tokenByte c = true)

include ht in
theorem token_not_mem {c : UInt8} (hc : tokenByte c = false) : c ∉ t := by
  intro hmem
  rw [ht c hmem] at hc
  cases hc

include ht in
theorem equals_not_mem : (0x3d : UInt8) ∉ t := token_not_mem ht (by decide)

theorem splitOn_append {a : UInt8} (h : a ∉ t) (s : Key) : (t ++ s).splitOn a = (s.splitOn a).modifyHead (t ++ ·) := by
  induction t with
  | nil =>
    rw [List.nil_append]
    cases s.splitOn a <;> rfl
  | cons c t ih =>
    obtain ⟨hc, ht⟩ := not_or.1 fun ho => h (List.mem_cons.2 ho)
    rw [List.cons_append, List.splitOn_cons_eq_if_modifyHead, if_neg (by simpa using Ne.symm hc), ih ht,
      List.modifyHead_modifyHead]
    rfl

theorem splitOn_fields (s : Key) : ∃ field fields, s.splitOn 0x26 = field :: fields :=
  List.exists_cons_of_ne_nil (List.splitOn_ne_nil 0x26 s)

theorem postPairs_ne_nil (s : Key) : postPairs s ≠ [] := by
  obtain ⟨field, fields, hs⟩ := splitOn_fields s
  rw [postPairs, hs, List.flatMap_cons]
  intro hnil
  have hfield := (List.append_eq_nil_iff.1 hnil).1
  rw [fieldPairs] at hfield
  obtain ⟨piece, pieces, hpieces⟩ := List.exists_cons_of_ne_nil (List.splitOn_ne_nil 0x3d field)
  rw [hpieces] at hfield
  cases pieces <;> cases hfield

include ht in
theorem splitOn_token : t.splitOn 0x26 = [t] := List.splitOn_eq_singleton (token_not_mem ht (by decide))

include ht in
theorem postPairs_token : postPairs t = [(t, [])] := by
  rw [postPairs, splitOn_token ht, List.flatMap_singleton, fieldPairs_key (equals_not_mem ht)]

include ht in
theorem endsInKey_token : EndsInKey t := by
  simp only [EndsInKey, splitOn_token ht, List.getLast_singleton, List.count_eq_zero_of_not_mem (equals_not_mem ht)]

include hk ht in
theorem value_not_mem : (0x26 : UInt8) ∉ k ++ 0x3d :: t := by
  intro hmem
  rcases List.mem_append.1 hmem with hmem | hmem
  · exact token_not_mem hk (by decide) hmem
  · rcases List.mem_cons.1 hmem with he | hmem
    · exact absurd he (by decide)
    · exact token_not_mem ht (by decide) hmem

include hk ht in
theorem splitOn_value : (k ++ 0x3d :: t).splitOn 0x26 = [k ++ 0x3d :: t] := List.splitOn_eq_singleton (value_not_mem ht hk)

include hk ht in
theorem postPairs_value : postPairs (k ++ 0x3d :: t) = [(k, t)] := by
  rw [postPairs, splitOn_value ht hk, List.flatMap_singleton, fieldPairs_value (equals_not_mem hk) (equals_not_mem ht)]

include hk ht in
theorem not_endsInKey_value : ¬EndsInKey (k ++ 0x3d :: t) := by
  simp only [EndsInKey, splitOn_value ht hk, List.getLast_singleton, List.count_append, List.count_cons_self,
    List.count_eq_zero_of_not_mem (equals_not_mem hk), List.count_eq_zero_of_not_mem (equals_not_mem ht)]
  decide

structure StartsWith (p : Key × Key) (body s : Key) : Prop where
  pairs : postPairs body = p :: postPairs s
  ends : EndsInKey body ↔ EndsInKey s

theorem startsWith_field {p : Key × Key} {field : Key} (hamp : 0x26 ∉ field) (hfield : fieldPairs field = [p]) (s : Key) :
    StartsWith p (field ++ 0x26 :: s) s := by
  have hsplit : (field ++ 0x26 :: s).splitOn 0x26 = field :: s.splitOn 0x26 := List.splitOn_append_cons_self_of_not_mem hamp s
  constructor
  · rw [postPairs, hsplit, List.flatMap_cons, hfield]
    rfl
  · simp only [EndsInKey, hsplit, List.getLast_cons (List.splitOn_ne_nil 0x26 s)]

include hk ht in
theorem startsWith_more (s : Key) : StartsWith (k, t) (k ++ 0x3d :: (t ++ 0x3d :: s)) s := by
  have hamp : (0x26 : UInt8) ∉ k ++ 0x3d :: t ++ [0x3d] := by
    intro hmem
    rcases List.mem_append.1 hmem with hmem | hmem
    · exact value_not_mem ht hk hmem
    · exact absurd (List.mem_singleton.1 hmem) (by decide)
  have hbody : k ++ 0x3d :: (t ++ 0x3d :: s) = k ++ 0x3d :: t ++ [0x3d] ++ s := by
    simp only [List.append_assoc, List.cons_append, List.nil_append]
  obtain ⟨field, fields, hs⟩ := splitOn_fields s
  have hsplit : (k ++ 0x3d :: (t ++ 0x3d :: s)).splitOn 0x26 = (k ++ 0x3d :: (t ++ 0x3d :: field)) :: fields := by
    rw [hbody, splitOn_append hamp, hs, List.modifyHead_cons]
    simp only [List.append_assoc, List.cons_append, List.nil_append]
  constructor
  · rw [postPairs, postPairs, hsplit, hs, List.flatMap_cons, List.flatMap_cons,
      fieldPairs_more (equals_not_mem hk) (equals_not_mem ht)]
    rfl
  · simp only [EndsInKey, hsplit, hs]
    cases fields with
    | nil =>
      rw [List.getLast_singleton, List.getLast_singleton, List.count_append, List.count_cons_self, List.count_append,
        List.count_cons_self, List.count_eq_zero_of_not_mem (equals_not_mem hk),
        List.count_eq_zero_of_not_mem (equals_not_mem ht)]
      omega
    | cons field' fields => rw [List.getLast_cons_cons, List.getLast_cons_cons]

end

/-! ## Strings in the memory -/

structure BodyStr.Holds (mem : Nat → Option UInt8) (s : BodyStr) (bytes : Key) : Prop where
  len : s.len = bytes.length
  read : ∀ i < bytes.length, mem (s.data + i) = bytes[i]?

theorem strncmpEq_eq {mem : Nat → Option UInt8} : ∀ (text bytes : Key) {p : Nat}, bytes.length = text.length →
    (∀ i < bytes.length, mem (p + i) = bytes[i]?) → strncmpEq mem p text = some (decide (bytes = text))
  | [], bytes, p, hlen, _ => by
    obtain rfl := List.length_eq_zero_iff.1 hlen
    rfl
  | _ :: _, [], _, hlen, _ => (nomatch hlen)
  | c :: text, b :: bytes, p, hlen, hread => by
    have hb : mem p = some b := hread 0 (Nat.zero_lt_succ _)
    rw [strncmpEq, hb, Option.bind_some]
    by_cases h : b = c
    · rw [if_pos h, strncmpEq_eq text bytes (Nat.succ.inj hlen), h]
      · simp only [List.cons.injEq, true_and]
      · intro i hi
        rw [Nat.add_right_comm, Nat.add_assoc]
        exact hread (i + 1) (Nat.succ_lt_succ hi)
    · rw [if_neg h, decide_eq_false fun heq => h (List.cons.inj heq).1]

def modifyMonitor {w : Nat} (key value : Key) (m : LwsMonitor w) : LwsMonitor w × Int :=
  if key = literal "profiler" then
    match value with
    | [c] => modifyProfiler c m
    | _ => (m, 400)
  else if key = literal "functions" then
    if value = literal "[]" then modifyFunctions m else (m, 400)
  else (m, ngxOk)

section
variable {mem : Nat → Option UInt8} {w : Nat}

theorem profiler_value {value : BodyStr} {v : Key} (m : LwsMonitor w) : value.Holds mem v →
    (if value.len ≠ 1 then some (m, 400) else (mem value.data).map fun c => modifyProfiler c m) =
      some (match v with
        | [c] => modifyProfiler c m
        | _ => (m, 400)) := by
  intro hv
  rw [hv.len]
  match v, hv.read with
  | [], _ => rfl
  | [c], hread =>
    have hc : mem value.data = some c := hread 0 Nat.zero_lt_one
    rw [hc]
    rfl
  | _ :: _ :: _, _ => exact if_pos fun hlen => absurd (Nat.succ.inj hlen) (Nat.succ_ne_zero _)

theorem functions_value {value : BodyStr} {v : Key} (hv : value.Holds mem v) (m : LwsMonitor w) :
    (if value.len ≠ 2 then some (m, 400)
      else (mem value.data).bind fun c =>
        if c ≠ 0x5b then some (m, 400)
        else (mem (value.data + 1)).map fun c => if c ≠ 0x5d then (m, 400) else modifyFunctions m) =
      some (if v = literal "[]" then modifyFunctions m else (m, 400)) := by
  have hbrackets : literal "[]" = [0x5b, 0x5d] := by decide
  rw [hv.len, hbrackets]
  match v, hv.read with
  | [], _ => rfl
  | [_], _ => rw [if_pos (by simp), if_neg (by simp)]
  | [c, d], hread =>
    have hc : mem value.data = some c := hread 0 Nat.zero_lt_two
    have hd : mem (value.data + 1) = some d := hread 1 Nat.one_lt_two
    rw [if_neg (by simp), hc, hd, Option.bind_some, Option.map_some]
    by_cases hopen : c = 0x5b
    · by_cases hclose : d = 0x5d
      · rw [if_neg (not_not.2 hopen), if_neg (not_not.2 hclose), hopen, hclose, if_pos rfl]
      · rw [if_neg (not_not.2 hopen), if_pos hclose, if_neg (by simp [hclose])]
    · rw [if_pos hopen, if_neg (by simp [hopen])]
  | _ :: _ :: _ :: _, _ => rw [if_pos (by simp), if_neg (by simp)]

/-- **The modification handler** goes by the bytes of the key and the value. -/
theorem modification_eq {key value : BodyStr} {k v : Key} (hk : key.Holds mem k) (hv : value.Holds mem v) (m : LwsMonitor w) :
    lwsMonitorModificationHandler mem key value m = some (modifyMonitor k v m) := by
  have hprofiler : (literal "profiler").length = 8 := by decide
  have hfunctions : (literal "functions").length = 9 := by decide
  have hne {text : Key} {n : Nat} (htext : text.length = n) (hlen : k.length ≠ n) : k ≠ text := fun h => hlen (h ▸ htext)
  unfold lwsMonitorModificationHandler modifyMonitor
  rw [hk.len]
  split
  · rename_i hlen
    rw [strncmpEq_eq (literal "profiler") k (hlen.trans hprofiler.symm) hk.read, Option.bind_some]
    by_cases heq : k = literal "profiler"
    · rw [if_pos (decide_eq_true heq), if_pos heq, profiler_value m hv]
    · rw [if_neg (by rwa [decide_eq_true_eq]), if_neg heq, if_neg (hne hfunctions (by rw [hlen]; decide))]
  · rename_i hlen
    rw [strncmpEq_eq (literal "functions") k (hlen.trans hfunctions.symm) hk.read, Option.bind_some,
      if_neg (hne hprofiler (by rw [hlen]; decide))]
    by_cases heq : k = literal "functions"
    · rw [if_pos (decide_eq_true heq), if_pos heq, functions_value hv]
    · rw [if_neg (by rwa [decide_eq_true_eq]), if_neg heq]
  · rename_i h8 h9
    rw [if_neg (hne hprofiler h8), if_neg (hne hfunctions h9)]

end

/-! ## The loop -/

def applyPairs {σ : Type} (act : Key → Key → σ → σ × Int) : List (Key × Key) → σ → σ × Int
  | [], x => (x, ngxOk)
  | (key, value) :: pairs, x =>
    if (act key value x).2 ≠ ngxOk then act key value x else applyPairs act pairs (act key value x).1

/-- What the loop does to the pairs of a body; where the body ends in a key and all pairs before it are accepted, the byte
after the body is read. -/
def applyFound {σ : Type} (act : Key → Key → σ → σ × Int) (after : Option UInt8) (body : Key) (x : σ) : Option (σ × Int) :=
  match after with
  | some after => some (applyPairs act (foundPairs after body) x)
  | none =>
    if EndsInKey body ∧ (applyPairs act (postPairs body).dropLast x).2 = ngxOk then none
    else some (applyPairs act (postPairs body) x)

section
variable {σ : Type} {act : Key → Key → σ → σ × Int} {t k : Key} (ht : ∀ c ∈ t, tokenByte c = true)
  (hk : ∀ c ∈ k, tokenByte c = true) (after : Option UInt8) (x : σ)

theorem StartsWith.found {p : Key × Key} {body s : Key} (h : StartsWith p body s) (after : UInt8) :
    foundPairs after body = p :: foundPairs after s := by
  rw [foundPairs, foundPairs]
  by_cases hs : after = 0x3d ∧ EndsInKey s
  · rw [if_pos ⟨hs.1, h.ends.2 hs.2⟩, if_pos hs, h.pairs, List.dropLast_cons_of_ne_nil (postPairs_ne_nil s)]
  · rw [if_neg fun ho => hs ⟨ho.1, h.ends.1 ho.2⟩, if_neg hs, h.pairs]

theorem StartsWith.applyFound {p : Key × Key} {body s : Key} (h : StartsWith p body s) : applyFound act after body x =
    if (act p.1 p.2 x).2 ≠ ngxOk then some (act p.1 p.2 x) else Lws.applyFound act after s (act p.1 p.2 x).1 := by
  cases after with
  | some after =>
    simp only [Lws.applyFound, h.found, applyPairs]
    split <;> rfl
  | none =>
    simp only [Lws.applyFound, h.ends, h.pairs, List.dropLast_cons_of_ne_nil (postPairs_ne_nil s), applyPairs]
    by_cases hr : (act p.1 p.2 x).2 ≠ ngxOk
    · rw [if_pos hr, if_pos hr, if_pos hr, if_neg fun ho => hr ho.2]
    · rw [if_neg hr, if_neg hr, if_neg hr]

include ht in
theorem applyFound_token :
    applyFound act after t x = after.map fun c => if c = 0x3d then (x, ngxOk) else applyPairs act [(t, [])] x := by
  cases after with
  | some after =>
    simp only [applyFound, foundPairs, postPairs_token ht, Option.map_some]
    by_cases h : after = 0x3d
    · rw [if_pos ⟨h, endsInKey_token ht⟩, if_pos h]
      rfl
    · rw [if_neg fun ho => h ho.1, if_neg h]
  | none =>
    rw [applyFound, postPairs_token ht]
    exact if_pos ⟨endsInKey_token ht, rfl⟩

include ht hk in
theorem applyFound_value : applyFound act after (k ++ 0x3d :: t) x = some (applyPairs act [(k, t)] x) := by
  cases after with
  | some after => simp only [applyFound, foundPairs, postPairs_value ht hk, not_endsInKey_value ht hk, and_false, if_false]
  | none => simp only [applyFound, postPairs_value ht hk, not_endsInKey_value ht hk, false_and, if_false]

end

/-- The memory has the body at 0, and `after` behind it. -/
structure BodyAt (mem : Nat → Option UInt8) (body : Key) (after : Option UInt8) : Prop where
  read : ∀ p < body.length, mem p = body[p]?
  after : mem body.length = after

section
variable {mem : Nat → Option UInt8} {body : Key} {after : Option UInt8} {t rest : Key} {pos : Nat}

theorem BodyAt.drop (h : BodyAt mem body after) {s : Key} (hs : body.drop pos = s) {i : Nat} (hi : i < s.length) :
    mem (pos + i) = s[i]? := by
  subst hs
  rw [List.length_drop] at hi
  rw [h.read (pos + i) (by omega), List.getElem?_drop]

theorem BodyAt.holds (h : BodyAt mem body after) (hs : body.drop pos = t ++ rest) : BodyStr.Holds mem ⟨pos, t.length⟩ t where
  len := rfl
  read i hi := by
    rw [h.drop hs (by rw [List.length_append]; omega), List.getElem?_append_left hi]

theorem BodyStr.holds_nil (mem : Nat → Option UInt8) (pos : Nat) : BodyStr.Holds mem ⟨pos, 0⟩ [] where
  len := rfl
  read _ hi := absurd hi (Nat.not_lt_zero _)

theorem findDelimiter_eq (hrest : rest = [] ∨ ∃ d s, rest = d :: s ∧ tokenByte d = false) : ∀ (t : Key) {pos : Nat},
    (∀ c ∈ t, tokenByte c = true) → (∀ i < (t ++ rest).length, mem (pos + i) = (t ++ rest)[i]?) →
      findDelimiter mem (t ++ rest).length pos = some (pos + t.length)
  | [], pos, _, hread => by
    rw [List.nil_append] at hread ⊢
    rcases hrest with rfl | ⟨d, s, rfl, hd⟩
    · rfl
    · have hmem : mem pos = some d := hread 0 (Nat.zero_lt_succ _)
      rw [List.length_cons, findDelimiter, hmem, Option.bind_some, if_neg (of_decide_eq_false hd)]
      rfl
  | c :: t, pos, ht, hread => by
    have hmem : mem pos = some c := hread 0 (Nat.zero_lt_succ _)
    have hnext : ∀ i < (t ++ rest).length, mem (pos + 1 + i) = (t ++ rest)[i]? := by
      intro i hi
      rw [Nat.add_assoc, Nat.add_comm 1]
      exact hread (i + 1) (Nat.succ_lt_succ hi)
    rw [List.cons_append, List.length_cons, findDelimiter, hmem, Option.bind_some,
      if_pos (of_decide_eq_true (ht c List.mem_cons_self)),
      findDelimiter_eq hrest t (fun c hc => ht c (List.mem_cons_of_mem _ hc)) hnext, List.length_cons]
    congr 1
    omega

theorem token_split : ∀ s : Key, ∃ t rest, s = t ++ rest ∧ (∀ c ∈ t, tokenByte c = true) ∧
    (rest = [] ∨ ∃ d s', rest = d :: s' ∧ tokenByte d = false)
  | [] => ⟨[], [], rfl, fun _ hc => absurd hc List.not_mem_nil, .inl rfl⟩
  | c :: s => by
    cases hc : tokenByte c with
    | false => exact ⟨[], c :: s, rfl, fun _ hc => absurd hc List.not_mem_nil, .inr ⟨c, s, rfl, hc⟩⟩
    | true =>
      obtain ⟨t, rest, rfl, ht, hrest⟩ := token_split s
      refine ⟨c :: t, rest, rfl, ?_, hrest⟩
      intro b hb
      rcases List.mem_cons.1 hb with rfl | hb
      · exact hc
      · exact ht b hb

section
variable {σ : Type} {modification : BodyStr → BodyStr → σ → Option (σ × Int)} {last fuel : Nat} {x y : PostLoop σ}

theorem postLoop_pair (hfind : x.find mem last = some y) {value : BodyStr} (hvalue : y.value = some value) {r : σ × Int}
    (hr : modification y.key value y.target = some r) : postLoop mem modification last (fuel + 1) x =
      if r.2 ≠ ngxOk then some r
      else if y.pos = last then some (r.1, ngxOk)
      else postLoop mem modification last fuel ⟨y.pos + 1, y.state, y.key, none, r.1⟩ := by
  rw [postLoop, hfind, Option.bind_some, PostLoop.process, hvalue]
  dsimp only
  rw [hr, Option.map_some, Option.bind_some]

theorem postLoop_key (hfind : x.find mem last = some y) (hvalue : y.value = none) :
    postLoop mem modification last (fuel + 1) x =
      if y.pos = last then some (y.target, ngxOk)
      else postLoop mem modification last fuel ⟨y.pos + 1, y.state, y.key, none, y.target⟩ := by
  rw [postLoop, hfind, Option.bind_some, PostLoop.process]
  simp only [hvalue, Option.bind_some, ne_eq, not_true_eq_false, if_false]

theorem BodyAt.next (h : BodyAt mem body after) (hs : body.drop pos = t ++ rest) (hpos : pos + (t ++ rest).length = body.length) :
    mem (pos + t.length) = rest.head?.or after ∧ (pos + t.length = body.length ↔ rest = []) ∧
      body.drop (pos + t.length + 1) = rest.tail ∧ (rest ≠ [] → pos + t.length + 1 + rest.tail.length = body.length) := by
  rw [List.length_append] at hpos
  have hdrop : body.drop (pos + t.length) = rest := by
    rw [← List.drop_drop, hs, List.drop_left]
  cases rest with
  | nil =>
    rw [List.length_nil, Nat.add_zero] at hpos
    rw [hpos]
    exact ⟨h.after, ⟨fun _ => rfl, fun _ => rfl⟩, List.drop_eq_nil_of_le (Nat.le_succ _), fun hne => absurd rfl hne⟩
  | cons d s =>
    rw [List.length_cons] at hpos
    refine ⟨h.drop hdrop (Nat.zero_lt_succ _), ⟨fun he => by omega, fun he => (nomatch he)⟩, ?_, fun _ => ?_⟩
    · rw [← List.drop_drop, hdrop]
      rfl
    · rw [List.tail_cons]
      omega

section
variable (h : BodyAt mem body after) (hs : body.drop x.pos = t ++ rest) (hpos : x.pos + (t ++ rest).length = body.length)
  (ht : ∀ c ∈ t, tokenByte c = true) (hrest : rest = [] ∨ ∃ d s, rest = d :: s ∧ tokenByte d = false)
include h hs hpos ht hrest

theorem find_delimiter : findDelimiter mem (body.length - x.pos) x.pos = some (x.pos + t.length) := by
  rw [← hpos, Nat.add_sub_cancel_left]
  exact findDelimiter_eq hrest t ht fun i hi => h.drop hs hi

theorem find_key (hstate : x.state = .key) : x.find mem body.length = (rest.head?.or after).map fun c =>
    if c = 0x3d then ⟨x.pos + t.length, .value, ⟨x.pos, t.length⟩, x.value, x.target⟩
    else ⟨x.pos + t.length, .key, ⟨x.pos, t.length⟩, some ⟨x.pos + t.length, 0⟩, x.target⟩ := by
  obtain ⟨hread, -⟩ := h.next hs hpos
  rw [PostLoop.find, find_delimiter h hs hpos ht hrest, Option.bind_some, Nat.add_sub_cancel_left, hstate]
  dsimp only
  rw [hread]

theorem find_value (hstate : x.state = .value) : x.find mem body.length = some
    ⟨x.pos + t.length, .key, x.key, some ⟨x.pos, t.length⟩, x.target⟩ := by
  rw [PostLoop.find, find_delimiter h hs hpos ht hrest, Option.bind_some, Nat.add_sub_cancel_left, hstate]

variable {act : Key → Key → σ → σ × Int}
  (hact : ∀ {key value : BodyStr} {k v : Key} (x : σ), key.Holds mem k → value.Holds mem v →
    modification key value x = some (act k v x))
  (hkey : rest ≠ [] → ∀ key target,
    postLoop mem modification body.length fuel ⟨x.pos + t.length + 1, .key, key, none, target⟩ =
      applyFound act after rest.tail target)
include hact hkey

omit ht hrest in
theorem pair_round {key value : BodyStr} {k v : Key} (hk : key.Holds mem k) (hv : value.Holds mem v)
    (hfind : x.find mem body.length = some ⟨x.pos + t.length, .key, key, some value, x.target⟩) :
    postLoop mem modification body.length (fuel + 1) x =
      if (act k v x.target).2 ≠ ngxOk then some (act k v x.target)
      else if rest = [] then some ((act k v x.target).1, ngxOk)
      else applyFound act after rest.tail (act k v x.target).1 := by
  obtain ⟨-, hlast, -⟩ := h.next hs hpos
  rw [postLoop_pair hfind rfl (hact x.target hk hv)]
  by_cases hr : (act k v x.target).2 ≠ ngxOk
  · rw [if_pos hr, if_pos hr]
  · rw [if_neg hr, if_neg hr]
    by_cases hnil : rest = []
    · rw [if_pos (hlast.2 hnil), if_pos hnil]
    · rw [if_neg fun he => hnil (hlast.1 he), if_neg hnil]
      exact hkey hnil key _

omit h hs hpos ht hrest hact hkey in
theorem applyPairs_singleton (act : Key → Key → σ → σ × Int) (k v : Key) (x : σ) :
    applyPairs act [(k, v)] x = if (act k v x).2 ≠ ngxOk then act k v x else ((act k v x).1, ngxOk) := rfl

theorem value_round (hstate : x.state = .value) {k : Key} (hk : ∀ c ∈ k, tokenByte c = true) (hheld : x.key.Holds mem k) :
    postLoop mem modification body.length (fuel + 1) x = applyFound act after (k ++ 0x3d :: (t ++ rest)) x.target := by
  rw [pair_round h hs hpos hact hkey hheld (h.holds hs) (find_value h hs hpos ht hrest hstate)]
  rcases hrest with rfl | ⟨d, s, rfl, hd⟩
  · rw [List.append_nil, applyFound_value ht hk, applyPairs_singleton, if_pos rfl, apply_ite some]
  · rw [if_neg (List.cons_ne_nil _ _)]
    rcases delimiter hd with rfl | rfl
    · rw [(startsWith_more ht hk s).applyFound]
      rfl
    · have hbody : k ++ 0x3d :: (t ++ 0x26 :: s) = k ++ 0x3d :: t ++ 0x26 :: s := by
        rw [List.append_assoc, List.cons_append]
      have hfield := fieldPairs_value (equals_not_mem hk) (equals_not_mem ht)
      rw [hbody, (startsWith_field (value_not_mem ht hk) hfield s).applyFound]
      rfl

/-- **A round in a key**; where the body ends in it, the byte after the body decides what it is. -/
theorem key_round (hstate : x.state = .key) (hvalue : x.value = none)
    (hopen : rest ≠ [] → ∀ key target, key.Holds mem t →
      postLoop mem modification body.length fuel ⟨x.pos + t.length + 1, .value, key, none, target⟩ =
        applyFound act after (t ++ 0x3d :: rest.tail) target) :
    postLoop mem modification body.length (fuel + 1) x = applyFound act after (t ++ rest) x.target := by
  obtain ⟨-, hlast, -⟩ := h.next hs hpos
  have hfind := find_key h hs hpos ht hrest hstate
  cases hc : rest.head?.or after with
  | none =>
    obtain ⟨hnil, hafter⟩ := Option.or_eq_none_iff.1 hc
    rw [hc, Option.map_none] at hfind
    rw [List.head?_eq_none_iff.1 hnil, List.append_nil, applyFound_token ht, hafter, postLoop, hfind]
    rfl
  | some c =>
    rw [hc, Option.map_some] at hfind
    by_cases heq : c = 0x3d
    · rw [if_pos heq] at hfind
      rw [postLoop_key hfind hvalue]
      rcases hrest with rfl | ⟨d, s, rfl, -⟩
      · have hafter : after = some c := hc
        rw [if_pos (hlast.2 rfl), List.append_nil, applyFound_token ht, hafter, Option.map_some, if_pos heq]
      · rw [if_neg fun he => (nomatch hlast.1 he), hopen (List.cons_ne_nil _ _) _ _ (h.holds hs)]
        obtain rfl : d = 0x3d := (Option.some.inj hc).trans heq
        rfl
    · rw [if_neg heq] at hfind
      rw [pair_round h hs hpos hact hkey (h.holds hs) (BodyStr.holds_nil mem _) hfind]
      rcases hrest with rfl | ⟨d, s, rfl, hd⟩
      · have hafter : after = some c := hc
        rw [if_pos rfl, List.append_nil, applyFound_token ht, hafter, Option.map_some, if_neg heq, applyPairs_singleton,
          apply_ite some]
      · obtain rfl : d = c := Option.some.inj hc
        obtain rfl := (delimiter hd).resolve_left heq
        rw [if_neg (List.cons_ne_nil _ _),
          (startsWith_field (token_not_mem ht (by decide)) (fieldPairs_key (equals_not_mem ht)) s).applyFound]
        rfl

end

/-- **The loop applies the pairs that are found**, from a key, and from the value of a key that has been read. -/
theorem postLoop_eq {act : Key → Key → σ → σ × Int} (h : BodyAt mem body after)
    (hact : ∀ {key value : BodyStr} {k v : Key} (x : σ), key.Holds mem k → value.Holds mem v →
      modification key value x = some (act k v x)) :
    ∀ (fuel : Nat) (s : Key) (x : PostLoop σ), s.length < fuel → body.drop x.pos = s → x.pos + s.length = body.length →
      x.value = none →
      (x.state = .key → postLoop mem modification body.length fuel x = applyFound act after s x.target) ∧
      ∀ k, x.state = .value → (∀ c ∈ k, tokenByte c = true) → x.key.Holds mem k →
        postLoop mem modification body.length fuel x = applyFound act after (k ++ 0x3d :: s) x.target
  | 0, _, _, hfuel, _, _, _ => absurd hfuel (Nat.not_lt_zero _)
  | fuel + 1, s, x, hfuel, hs, hpos, hvalue => by
    obtain ⟨t, rest, rfl, ht, hrest⟩ := token_split s
    obtain ⟨-, -, hdrop, hlength⟩ := h.next hs hpos
    have ih (hne : rest ≠ []) (state : PostState) (key : BodyStr) (target : σ) :=
      postLoop_eq h hact fuel rest.tail ⟨x.pos + t.length + 1, state, key, none, target⟩ (by
        have hpositive := List.length_pos_iff.2 hne
        rw [List.length_append] at hfuel
        rw [List.length_tail]
        omega) hdrop (hlength hne) rfl
    have hkey (hne : rest ≠ []) (key : BodyStr) (target : σ) := (ih hne .key key target).1 rfl
    refine ⟨fun hstate => ?_, fun k hstate hk hheld => ?_⟩
    · exact key_round h hs hpos ht hrest hact hkey hstate hvalue fun hne key target => (ih hne .value key target).2 t rfl ht
    · exact value_round h hs hpos ht hrest hact hkey hstate hk hheld

end

end

/-! ## The request -/

section
variable {σ : Type} {act : Key → Key → σ → σ × Int}

theorem applyPairs_rejected : ∀ (pairs : List (Key × Key)) (x : σ), (applyPairs act pairs x).2 ≠ ngxOk →
    ∃ done key value rest y, pairs = done ++ (key, value) :: rest ∧ applyPairs act done x = (y, ngxOk) ∧
      act key value y = applyPairs act pairs x
  | [], _, h => absurd rfl h
  | (key, value) :: pairs, x, h => by
    by_cases hr : (act key value x).2 ≠ ngxOk
    · exact ⟨[], key, value, pairs, x, rfl, rfl, by rw [applyPairs, if_pos hr]⟩
    · rw [applyPairs, if_neg hr] at h ⊢
      obtain ⟨done, key', value', rest, y, rfl, hdone, hact⟩ := applyPairs_rejected pairs _ h
      exact ⟨(key, value) :: done, key', value', rest, y, rfl, by rw [applyPairs, if_neg hr, hdone], hact⟩

end

section
variable {w : Nat}

/-- A modification is accepted, or it is rejected and changes nothing. -/
def AcceptedOrSame (m : LwsMonitor w) (r : LwsMonitor w × Int) : Prop := r.2 = ngxOk ∨ r = (m, 400) ∨ r = (m, 409)

theorem modifyProfiler_cases (c : UInt8) (m : LwsMonitor w) : AcceptedOrSame m (modifyProfiler c m) := by
  have hset (o : Option (BitVec w)) : AcceptedOrSame m (m.setProfiler o) := by
    cases o with
    | none => exact .inr (.inr rfl)
    | some profiler => exact .inl rfl
  unfold modifyProfiler
  split
  · exact hset _
  · split
    · exact hset _
    · exact .inr (.inl rfl)

theorem modifyMonitor_cases (key value : Key) (m : LwsMonitor w) : AcceptedOrSame m (modifyMonitor key value m) := by
  unfold modifyMonitor
  split
  · split
    · exact modifyProfiler_cases _ m
    · exact .inr (.inl rfl)
  · split
    · split
      · exact .inl rfl
      · exact .inr (.inl rfl)
    · exact .inl rfl

end

theorem contentStatus_accepts (a : ContentAlloc) : ¬(contentStatus a = 400 ∨ contentStatus a = 409) := by
  unfold contentStatus
  split
  · decide
  · split
    · decide
    · split <;> decide

theorem foundPairs_initial (after : UInt8) (body : Key) : ∃ rest, postPairs body = foundPairs after body ++ rest := by
  unfold foundPairs
  split
  · exact ⟨_, (List.dropLast_append_getLast (postPairs_ne_nil body)).symm⟩
  · exact ⟨[], (List.append_nil _).symm⟩

/-- A field as a form has it: a key, and the value after its first `=`. -/
def formField (field : Key) : Key × Key :=
  (field.takeWhile fun c => c ≠ 0x3d, (field.dropWhile fun c => c ≠ 0x3d).tail)

theorem formField_append {key : Key} (h : 0x3d ∉ key) (value : Key) : formField (key ++ 0x3d :: value) = (key, value) := by
  have hne : ∀ c ∈ key, decide (c ≠ 0x3d) = true := fun c hc => decide_eq_true fun he => h (he ▸ hc)
  rw [formField, List.takeWhile_append_of_pos hne, List.takeWhile_cons_of_neg (by decide), List.append_nil,
    List.dropWhile_append_of_pos hne, List.dropWhile_cons_of_neg (by decide), List.tail_cons]

theorem formField_key {field : Key} (h : 0x3d ∉ field) : formField field = (field, []) := by
  have hne : ∀ c ∈ field, decide (c ≠ 0x3d) = true := fun c hc => decide_eq_true fun he => h (he ▸ hc)
  rw [formField, List.takeWhile_eq_self_iff.2 hne, List.dropWhile_eq_nil_iff.2 hne]
  rfl

/-- **The pairs are the fields of the form**, while no field has a second `=`. -/
theorem postPairs_form {body : Key} (h : ∀ field ∈ body.splitOn 0x26, field.count 0x3d ≤ 1) :
    postPairs body = (body.splitOn 0x26).map formField := by
  have hfield : ∀ field ∈ body.splitOn 0x26, fieldPairs field = [formField field] := by
    intro field hfield
    have hcount := h field hfield
    by_cases hmem : (0x3d : UInt8) ∈ field
    · obtain ⟨key, value, rfl, hkey⟩ := List.eq_append_cons_of_mem hmem
      rw [List.count_append, List.count_cons_self, List.count_eq_zero_of_not_mem hkey] at hcount
      have hvalue : (0x3d : UInt8) ∉ value := List.count_eq_zero.1 (by omega)
      rw [fieldPairs_value hkey hvalue, formField_append hkey]
    · rw [fieldPairs_key hmem, formField_key hmem]
  rw [postPairs, List.flatMap_def, List.map_congr_left hfield, ← List.flatMap_def, ← List.map_eq_flatMap]

theorem copied_memory (bufs : List NgxBuf) (old : Nat → Option UInt8) :
    BodyAt (copiedMemory ((bufs.map BodyBuf.memory).flatMap BodyBuf.copied) old) (requestBody bufs)
      (old (requestBody bufs).length) := by
  have hcopied : (bufs.map BodyBuf.memory).flatMap BodyBuf.copied = requestBody bufs := by
    rw [List.flatMap_map]
    rfl
  rw [hcopied]
  constructor
  · intro p hp
    rw [copiedMemory, List.getElem?_eq_getElem hp]
    rfl
  · rw [copiedMemory, List.getElem?_eq_none (Nat.le_refl _)]
    rfl

theorem size_sum (bufs : List NgxBuf) : ((bufs.map BodyBuf.memory).map BodyBuf.size).sum = (requestBody bufs).length := by
  induction bufs with
  | nil => rfl
  | cons b bufs ih =>
    rw [List.map_cons, List.map_cons, List.sum_cons, ih, requestBody_cons, List.length_append, b.content_length]
    rfl

section
variable {w : Nat}

/-- **A POST applies the pairs that are found**, and then sends the document. -/
theorem lwsMonitorBodyHandler_eq {bufs : List NgxBuf} (hbufs : bufs ≠ []) (content : ContentAlloc) (old : Nat → UInt8)
    (m : LwsMonitor w) :
    lwsMonitorBodyHandler ⟨some (bufs.map .memory), true, content⟩ (fun p => some (old p)) m =
      let r := applyPairs modifyMonitor (foundPairs (old (requestBody bufs).length) (requestBody bufs)) m
      some (if r.2 ≠ ngxOk then r else (r.1, contentStatus content)) := by
  have hbody := copied_memory bufs fun p => some (old p)
  have hloop := (postLoop_eq hbody (fun x hkey hvalue => modification_eq hkey hvalue x) ((requestBody bufs).length + 1)
    (requestBody bufs) { target := m } (Nat.lt_succ_self _) rfl (Nat.zero_add _) rfl).1 rfl
  have hsize := size_sum bufs
  obtain ⟨b, bufs, rfl⟩ := List.exists_cons_of_ne_nil hbufs
  rw [List.map_cons] at hloop hsize ⊢
  unfold lwsMonitorBodyHandler
  dsimp only
  rw [if_neg (by decide), hsize, hloop]
  rfl

/-- **A rejected POST leaves what the pairs before the rejected one did**, and no more; and where the POST succeeds all pairs
have been applied, except for a last key that the byte after the body makes one before a value. -/
theorem rejected_post_stops (body : Option (List NgxBuf)) (palloc : Bool) (content : ContentAlloc) (old : Nat → UInt8)
    (m : LwsMonitor w) :
    let bytes := requestBody (body.getD [])
    ∃ m' status, lwsMonitorBodyHandler ⟨body.map (List.map .memory), palloc, content⟩ (fun p => some (old p)) m =
        some (m', status) ∧
      (status = 400 ∨ status = 409 → (body = some [] ∧ m' = m) ∨ ∃ done key value rest,
        postPairs bytes = done ++ (key, value) :: rest ∧ applyPairs modifyMonitor done m = (m', ngxOk) ∧
          modifyMonitor key value m' = (m', status)) ∧
      (status = 200 → (old bytes.length = 0x3d → ¬EndsInKey bytes) →
        applyPairs modifyMonitor (postPairs bytes) m = (m', ngxOk)) ∧
      ((∀ field ∈ bytes.splitOn 0x26, field.count 0x3d ≤ 1) → postPairs bytes = (bytes.splitOn 0x26).map formField) := by
  intro bytes
  have hbytes : bytes = requestBody (body.getD []) := rfl
  clear_value bytes
  rcases body with _ | _ | ⟨b, bufs⟩
  · exact ⟨m, 500, rfl, fun h => absurd h (by decide), fun h => absurd h (by decide), postPairs_form⟩
  · exact ⟨m, 400, rfl, fun _ => .inl ⟨rfl, rfl⟩, fun h => absurd h (by decide), postPairs_form⟩
  · cases palloc with
    | false => exact ⟨m, 500, rfl, fun h => absurd h (by decide), fun h => absurd h (by decide), postPairs_form⟩
    | true =>
      have hrun := lwsMonitorBodyHandler_eq (List.cons_ne_nil b bufs) content old m
      have hbytes : bytes = requestBody (b :: bufs) := hbytes
      rw [← hbytes] at hrun
      obtain ⟨others, hothers⟩ := foundPairs_initial (old bytes.length) bytes
      by_cases hr : (applyPairs modifyMonitor (foundPairs (old bytes.length) bytes) m).2 ≠ ngxOk
      · -- the pair that is rejected is one of the pairs found, and is applied to what those before it leave
        obtain ⟨done, key, value, rest, m', hpairs, hdone, hact⟩ := applyPairs_rejected _ m hr
        rw [← hact] at hr hrun
        have hrejected := (modifyMonitor_cases key value m').resolve_left hr
        have hsame : modifyMonitor key value m' = (m', (modifyMonitor key value m').2) := by
          rcases hrejected with h | h <;> rw [h]
        refine ⟨m', (modifyMonitor key value m').2, ?_,
          fun _ => .inr ⟨done, key, value, rest ++ others, ?_, hdone, hsame⟩, ?_, postPairs_form⟩
        · rw [← hsame]
          exact hrun.trans (congrArg some (if_pos hr))
        · rw [hothers, hpairs, List.append_assoc, List.cons_append]
        · intro h200
          rcases hrejected with h | h
          · exact absurd ((congrArg Prod.snd h).symm.trans h200) (by decide : (400 : Int) ≠ 200)
          · exact absurd ((congrArg Prod.snd h).symm.trans h200) (by decide : (409 : Int) ≠ 200)
      · refine ⟨_, contentStatus content, hrun.trans (congrArg some (if_neg hr)), ?_, ?_, postPairs_form⟩
        · intro hstatus
          exact absurd hstatus (contentStatus_accepts content)
        · intro _ hafter
          have hall : foundPairs (old bytes.length) bytes = postPairs bytes := if_neg fun h => hafter h.1 h.2
          rw [← hall]
          exact Prod.ext rfl (not_not.1 hr)

end

/-- One function has been profiled; a POST clears the functions, and is then rejected for the value of `profiler`. -/
theorem rejected_post_clears :
    let m : LwsMonitor 64 := { functions := [{ key := literal "f" }] }
    let body := literal "functions=[]&profiler=9"
    let buf : NgxBuf := ⟨body, 0, body.length, Nat.zero_le _, Nat.le_refl _⟩
    ∃ m', lwsMonitorBodyHandler ⟨some [.memory buf], true, {}⟩ (fun _ => some 0) m = some (m', 400) ∧
      m'.functions ≠ m.functions := by
  refine ⟨{}, ?_, ?_⟩
  · decide +kernel
  · decide

end Lws

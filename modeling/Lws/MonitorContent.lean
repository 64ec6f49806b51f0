import Lws.JsonResponse
import Lws.Location
import Lws.Profile
/-!
# MonitorContent — the document of the monitor (`lws_monitor_content_handler`)

The length is added up from templates, with twenty places for each number, and the text is written with others.  What is written
fits the length, and is read as the counters and the functions of the monitor.
-/
namespace Lws

/-- `lws_monitor_t`, what the document tells of it. -/
structure MonitorContent extends Monitor 64 where
  profiler : BitVec 64 := 0
  outOfMemory : BitVec 64 := 0
  functions : List (LwsFunction 64) := []
deriving DecidableEq

/-! ## The length -/

section
variable (extra : Key → Nat) (escape : Key → Key)

def counterLength (name : String) (digits : Nat) : Nat := (literal "\t\"" ++ literal name ++ literal "\": ,\n").length + digits

def functionLength (f : LwsFunction 64) : Nat :=
  (literal "\t\t[\"\", , , , , , ],\n").length + 6 * 20 + (f.key.length + extra f.key)

/-- `len` in `lws_monitor_content_handler`. -/
def monitorLength (m : MonitorContent) : Nat :=
  (literal "\x7b\n").length + counterLength "states_n" 20 + counterLength "requests_n" 20 + counterLength "memory_used" 20 +
    counterLength "request_count" 20 + counterLength "profiler" 1 + counterLength "out_of_memory" 1 +
    (literal "\t\"functions\": [\n").length + (m.functions.map (functionLength extra)).sum + (literal "\t]\n\x7d").length

/-! ## The text -/

/-- `%i` of a counter that is cast to `ngx_int_t`. -/
def counterText (name : String) (x : BitVec 64) : Key :=
  literal "\t\"" ++ literal name ++ literal "\": " ++ Json.signed x.toInt ++ literal ",\n"

def functionNumbers (f : LwsFunction 64) : List Int :=
  [f.calls.toInt, f.timeSelf.sec, f.timeSelf.nsec, f.timeTotal.sec, f.timeTotal.nsec, f.memory.toInt]

def functionText (f : LwsFunction 64) : Key :=
  literal "\t\t[\"" ++ escape f.key ++ literal "\"" ++ (functionNumbers f).flatMap (fun i => literal ", " ++ Json.signed i) ++
    literal "]"

def functionLines : List (LwsFunction 64) → Key
  | [] => []
  | [f] => functionText escape f ++ literal "\n"
  | f :: g :: functions => functionText escape f ++ literal ",\n" ++ functionLines (g :: functions)

def functionsText (functions : List (LwsFunction 64)) : Key :=
  if functions.length = 0 then literal "\t\"functions\": []\n"
  else literal "\t\"functions\": [\n" ++ functionLines escape functions ++ literal "\t]\n"

def monitorText (m : MonitorContent) : Key :=
  literal "\x7b\n" ++ counterText "states_n" m.statesN ++ counterText "requests_n" m.requestsN ++
    counterText "memory_used" m.memoryUsed ++ counterText "request_count" m.requestCount ++ counterText "profiler" m.profiler ++
    counterText "out_of_memory" m.outOfMemory ++ functionsText escape m.functions ++ literal "\x7d"

def lwsMonitorContentHandler (a : JsonCalls) (main : Bool) (m : MonitorContent) : JsonEnd :=
  if a.chain = false ∨ a.buf = false then { rc := 500 }
  else if a.palloc = false then { rc := 500 }
  else
    let b : JsonBuf := ⟨monitorLength extra m, monitorText escape m⟩
    sendJson a main b 200 b.bytes.length 500

end

/-! ## Reading the document -/

def readFunction (v : Json.Value) : Option (LwsFunction 64) := do
  match ← v.items with
  | [key, calls, selfSec, selfNsec, totalSec, totalNsec, memory] =>
    some {
      key := ← key.bytes
      calls := BitVec.ofInt 64 (← calls.int)
      timeSelf := ⟨← selfSec.int, ← selfNsec.int⟩
      timeTotal := ⟨← totalSec.int, ← totalNsec.int⟩
      memory := BitVec.ofInt 64 (← memory.int) }
  | _ => none

def readCounter (doc : Json.Value) (name : String) : Option (BitVec 64) := do
  some (BitVec.ofInt 64 (← (← doc.field (literal name)).int))

def readContent (doc : Json.Value) : Option MonitorContent := do
  some {
    statesN := ← readCounter doc "states_n"
    requestsN := ← readCounter doc "requests_n"
    memoryUsed := ← readCounter doc "memory_used"
    requestCount := ← readCounter doc "request_count"
    profiler := ← readCounter doc "profiler"
    outOfMemory := ← readCounter doc "out_of_memory"
    functions := ← (← (← doc.field (literal "functions")).items).mapM readFunction }

/-! ## The text fits -/

/-- Seconds and nanoseconds of 64 bits. -/
def Timespec.IsLong (t : Timespec) : Prop := (-2 ^ 63 ≤ t.sec ∧ t.sec < 2 ^ 63) ∧ (-2 ^ 63 ≤ t.nsec ∧ t.nsec < 2 ^ 63)

theorem signed_length_long {i : Int} (h : -2 ^ 63 ≤ i ∧ i < 2 ^ 63) : (Json.signed i).length ≤ 20 :=
  Json.signed_length_le h.1 (by omega)

theorem signed_length_toInt (x : BitVec 64) : (Json.signed x.toInt).length ≤ 20 :=
  signed_length_long ⟨BitVec.le_toInt x, BitVec.toInt_lt⟩

theorem signed_length_digit {x : BitVec 64} (h : x.toNat < 10) : (Json.signed x.toInt).length ≤ 1 := by
  rw [BitVec.toInt_eq_toNat_of_lt (by omega)]
  exact Json.decimal_length_le (by decide) h

theorem counterText_length_le (name : String) {x : BitVec 64} {digits : Nat} (h : (Json.signed x.toInt).length ≤ digits) :
    (counterText name x).length ≤ counterLength name digits := by
  have hend : (literal "\": ,\n").length = (literal "\": ").length + (literal ",\n").length := by decide
  unfold counterText counterLength
  simp only [List.length_append, hend]
  omega

section
variable {extra : Key → Nat} {escape : Key → Key}

theorem functionText_length_le (h : EscapesJson extra escape) {f : LwsFunction 64} (hself : f.timeSelf.IsLong)
    (htotal : f.timeTotal.IsLong) : (functionText escape f).length + (literal ",\n").length ≤ functionLength extra f := by
  have hcalls := signed_length_toInt f.calls
  have hmemory := signed_length_toInt f.memory
  have hselfSec := signed_length_long hself.1
  have hselfNsec := signed_length_long hself.2
  have htotalSec := signed_length_long htotal.1
  have htotalNsec := signed_length_long htotal.2
  have htemplate : (literal "\t\t[\"\", , , , , , ],\n").length = (literal "\t\t[\"").length + (literal "\"").length +
      6 * (literal ", ").length + (literal "]").length + (literal ",\n").length := by decide
  unfold functionText functionLength functionNumbers
  simp only [List.flatMap_cons, List.flatMap_nil, List.length_append, List.length_nil, h.length, htemplate]
  omega

theorem functionLines_length_le (h : EscapesJson extra escape) : ∀ {functions : List (LwsFunction 64)},
    (∀ f ∈ functions, f.timeSelf.IsLong ∧ f.timeTotal.IsLong) →
    (functionLines escape functions).length ≤ (functions.map (functionLength extra)).sum
  | [], _ => Nat.le_refl _
  | [f], hlong => by
    have hf := functionText_length_le h (hlong f List.mem_cons_self).1 (hlong f List.mem_cons_self).2
    have hend : (literal "\n").length ≤ (literal ",\n").length := by decide
    rw [functionLines, List.map_singleton, List.sum_singleton, List.length_append]
    omega
  | f :: g :: functions, hlong => by
    have hf := functionText_length_le h (hlong f List.mem_cons_self).1 (hlong f List.mem_cons_self).2
    have hrest := functionLines_length_le h fun g' hg => hlong g' (List.mem_cons_of_mem f hg)
    rw [functionLines, List.map_cons, List.sum_cons, List.length_append, List.length_append]
    omega

theorem functionsText_length_le (h : EscapesJson extra escape) {functions : List (LwsFunction 64)}
    (hlong : ∀ f ∈ functions, f.timeSelf.IsLong ∧ f.timeTotal.IsLong) :
    (functionsText escape functions).length ≤
      (literal "\t\"functions\": [\n").length + (functions.map (functionLength extra)).sum + (literal "\t]\n").length := by
  have hlines := functionLines_length_le h hlong
  have hempty : (literal "\t\"functions\": []\n").length ≤
      (literal "\t\"functions\": [\n").length + (literal "\t]\n").length := by decide
  unfold functionsText
  split_ifs
  · omega
  · rw [List.length_append, List.length_append]
    omega

/-- **What is written fits the length that has been added up.** -/
theorem monitorText_length_le (h : EscapesJson extra escape) {m : MonitorContent} (hprofiler : m.profiler.toNat < 10)
    (hoom : m.outOfMemory.toNat < 10) (hlong : ∀ f ∈ m.functions, f.timeSelf.IsLong ∧ f.timeTotal.IsLong) :
    (monitorText escape m).length ≤ monitorLength extra m := by
  have hstates := counterText_length_le "states_n" (signed_length_toInt m.statesN)
  have hrequests := counterText_length_le "requests_n" (signed_length_toInt m.requestsN)
  have hmemory := counterText_length_le "memory_used" (signed_length_toInt m.memoryUsed)
  have hcount := counterText_length_le "request_count" (signed_length_toInt m.requestCount)
  have hprofiler := counterText_length_le "profiler" (signed_length_digit hprofiler)
  have hoom := counterText_length_le "out_of_memory" (signed_length_digit hoom)
  have hfunctions := functionsText_length_le h hlong
  have hend : (literal "\t]\n\x7d").length = (literal "\t]\n").length + (literal "\x7d").length := by decide
  unfold monitorText monitorLength
  simp only [List.length_append, hend]
  omega

/-! ## The text is the document -/

def functionValue (f : LwsFunction 64) : Json.Value :=
  .array (.string f.key :: (functionNumbers f).map fun i => .number i 0)

def counterPiece (name : String) (x : BitVec 64) : Key × (Key × Json.Value) :=
  (jsonLine [0x0a, 0x09] (literal name) (Json.signed x.toInt), (literal name, .number x.toInt 0))

def functionsDocument (functions : List (LwsFunction 64)) : Json.Value := .array (functions.map functionValue)

def monitorDocument (m : MonitorContent) : Json.Value :=
  .object [(literal "states_n", .number m.statesN.toInt 0), (literal "requests_n", .number m.requestsN.toInt 0),
    (literal "memory_used", .number m.memoryUsed.toInt 0), (literal "request_count", .number m.requestCount.toInt 0),
    (literal "profiler", .number m.profiler.toInt 0), (literal "out_of_memory", .number m.outOfMemory.toInt 0),
    (literal "functions", functionsDocument m.functions)]

theorem isValue_function (h : EscapesJson extra escape) (f : LwsFunction 64) :
    Json.IsValue (functionText escape f) (functionValue f) := by
  have hpieces : ∀ q ∈ (0x22 :: (escape f.key ++ [0x22]), Json.Value.string f.key) ::
      (functionNumbers f).map (fun i => (0x20 :: Json.signed i, Json.Value.number i 0)), Json.IsValue q.1 q.2 := by
    intro q hq
    rw [List.mem_cons, List.mem_map] at hq
    obtain rfl | ⟨i, -, rfl⟩ := hq
    · exact Json.isValue_string (h.denotes f.key)
    · exact (Json.isValue_int i).space (by decide : Json.Spaces [0x20])
  have hvalue := (Json.isValue_array (Json.isElements_pieces Json.spaces_nil _ _ hpieces)).space
    (by decide : Json.Spaces [0x09, 0x09])
  have htext : functionText escape f = [0x09, 0x09] ++ 0x5b :: ((0x22 :: (escape f.key ++ [0x22])) ++
      (((functionNumbers f).map fun i => (0x20 :: Json.signed i, Json.Value.number i 0)).flatMap (fun q => 0x2c :: q.1) ++
        ([] ++ [0x5d]))) := by
    rw [List.flatMap_map]
    unfold functionText
    simp only [List.append_assoc, List.cons_append]
    rfl
  have hread : functionValue f = .array (((0x22 :: (escape f.key ++ [0x22]), Json.Value.string f.key) ::
      (functionNumbers f).map fun i => (0x20 :: Json.signed i, Json.Value.number i 0)).map Prod.snd) := by
    rw [List.map_cons, List.map_map]
    rfl
  rw [htext, hread]
  exact hvalue

theorem functionLines_eq (functions : List (LwsFunction 64)) : ∀ f : LwsFunction 64,
    functionLines escape (f :: functions) =
      functionText escape f ++ (functions.flatMap (fun g => 0x2c :: 0x0a :: functionText escape g) ++ [0x0a]) := by
  induction functions with
  | nil => exact fun f => rfl
  | cons g functions ih =>
    intro f
    rw [functionLines, ih g, List.flatMap_cons]
    simp only [List.append_assoc, List.cons_append]
    rfl

theorem isValue_functions (h : EscapesJson extra escape) (functions : List (LwsFunction 64)) :
    ∃ text, Json.IsValue text (functionsDocument functions) ∧
      functionsText escape functions = literal "\t\"functions\": " ++ text ++ literal "\n" := by
  cases functions with
  | nil => exact ⟨[0x5b, 0x5d], Json.isValue_array_nil Json.spaces_nil, rfl⟩
  | cons f functions =>
    have hpieces : ∀ q ∈ (f :: functions).map (fun g => (0x0a :: functionText escape g, functionValue g)), Json.IsValue q.1 q.2 := by
      intro q hq
      obtain ⟨g, -, rfl⟩ := List.mem_map.1 hq
      exact (isValue_function h g).space (by decide : Json.Spaces [0x0a])
    have hvalue := Json.isValue_array (Json.isElements_pieces (by decide : Json.Spaces [0x0a, 0x09]) _ _ hpieces)
    rw [← List.map_cons (f := fun g => (0x0a :: functionText escape g, functionValue g)), List.map_map] at hvalue
    refine ⟨_, hvalue, ?_⟩
    unfold functionsText
    rw [List.length_cons, if_neg (Nat.succ_ne_zero _), functionLines_eq, List.flatMap_map]
    simp only [List.append_assoc, List.cons_append]
    rfl

theorem monitorText_eq {m : MonitorContent} {text : Key}
    (h : functionsText escape m.functions = literal "\t\"functions\": " ++ text ++ literal "\n") :
    monitorText escape m =
      0x7b :: ((counterPiece "states_n" m.statesN).1 ++
        ([counterPiece "requests_n" m.requestsN, counterPiece "memory_used" m.memoryUsed,
          counterPiece "request_count" m.requestCount, counterPiece "profiler" m.profiler,
          counterPiece "out_of_memory" m.outOfMemory,
          (jsonLine [0x0a, 0x09] (literal "functions") text, (literal "functions", functionsDocument m.functions))].flatMap
            (fun q => 0x2c :: q.1) ++ ([0x0a] ++ [0x7d]))) := by
  unfold monitorText
  rw [h]
  simp only [counterText, counterPiece, jsonLine, List.flatMap_cons, List.flatMap_nil, List.append_assoc, List.cons_append]
  rfl

theorem parse_monitorText (h : EscapesJson extra escape) (m : MonitorContent) :
    Json.parse (monitorText escape m) = some (monitorDocument m) := by
  obtain ⟨text, hvalue, htext⟩ := isValue_functions h m.functions
  have hcounter (name : String) (x : BitVec 64) (hname : (literal name).all Json.isPlain = true) :
      Json.IsMember (counterPiece name x).1 (counterPiece name x).2 :=
    isMember_line (by decide) hname (Json.isValue_int x.toInt)
  have hfunctions := isMember_line (by decide : Json.Spaces [0x0a, 0x09])
    (by decide : (literal "functions").all Json.isPlain = true) hvalue
  have hdoc := Json.isValue_object (Json.isMembers_pieces (by decide : Json.Spaces [0x0a]) (counterPiece "states_n" m.statesN)
    [counterPiece "requests_n" m.requestsN, counterPiece "memory_used" m.memoryUsed,
      counterPiece "request_count" m.requestCount, counterPiece "profiler" m.profiler,
      counterPiece "out_of_memory" m.outOfMemory,
      (jsonLine [0x0a, 0x09] (literal "functions") text, (literal "functions", functionsDocument m.functions))] ?_)
  · rw [monitorText_eq htext]
    exact hdoc.parse
  · simp only [List.forall_mem_cons]
    exact ⟨hcounter _ _ (by decide), hcounter _ _ (by decide), hcounter _ _ (by decide), hcounter _ _ (by decide),
      hcounter _ _ (by decide), hcounter _ _ (by decide), hfunctions, nofun⟩

theorem readFunction_value (f : LwsFunction 64) : readFunction (functionValue f) = some f := by
  obtain ⟨⟨calls, ⟨selfSec, selfNsec⟩, ⟨totalSec, totalNsec⟩, memory⟩, key⟩ := f
  unfold readFunction functionValue functionNumbers
  simp only [List.map_cons, List.map_nil, Json.Value.items, Json.Value.bytes, Json.Value.int, Option.bind_eq_bind,
    Option.bind_some, BitVec.ofInt_toInt]

theorem readFunction_values : ∀ functions : List (LwsFunction 64),
    (functions.map functionValue).mapM readFunction = some functions
  | [] => rfl
  | f :: functions => by
    rw [List.map_cons, List.mapM_cons, readFunction_value, readFunction_values functions]
    rfl

theorem readCounter_eq {doc : Json.Value} {name : String} {x : BitVec 64}
    (h : doc.field (literal name) = some (.number x.toInt 0)) : readCounter doc name = some x := by
  rw [readCounter, h]
  simp only [Option.bind_eq_bind, Option.bind_some, Json.Value.int, BitVec.ofInt_toInt]

theorem readContent_document (m : MonitorContent) : readContent (monitorDocument m) = some m := by
  have hstates : readCounter (monitorDocument m) "states_n" = some m.statesN := readCounter_eq rfl
  have hrequests : readCounter (monitorDocument m) "requests_n" = some m.requestsN := readCounter_eq rfl
  have hmemory : readCounter (monitorDocument m) "memory_used" = some m.memoryUsed := readCounter_eq rfl
  have hcount : readCounter (monitorDocument m) "request_count" = some m.requestCount := readCounter_eq rfl
  have hprofiler : readCounter (monitorDocument m) "profiler" = some m.profiler := readCounter_eq rfl
  have hoom : readCounter (monitorDocument m) "out_of_memory" = some m.outOfMemory := readCounter_eq rfl
  have hfunctions : (monitorDocument m).field (literal "functions") = some (functionsDocument m.functions) := rfl
  unfold readContent
  simp only [hstates, hrequests, hmemory, hcount, hprofiler, hoom, hfunctions, Option.bind_eq_bind, Option.bind_some,
    functionsDocument, Json.Value.items, readFunction_values]

end

/-! ## The response -/

/-- **The document of the monitor fits the buffer that is allocated for it, its length is announced, and the counters and the
functions are read back from it.** -/
theorem monitor_content {extra : Key → Nat} {escape : Key → Key} (hescape : EscapesJson extra escape) {m : MonitorContent}
    (hprofiler : m.profiler.toNat < 10) (hoom : m.outOfMemory.toNat < 10)
    (hlong : ∀ f ∈ m.functions, f.timeSelf.IsLong ∧ f.timeTotal.IsLong) (a : JsonCalls) (main : Bool) :
    let x := lwsMonitorContentHandler extra escape a main m
    (x.buf = none ↔ a.chain = false ∨ a.buf = false ∨ a.palloc = false) ∧
      ∀ b, x.buf = some b → x.Announced b 200 ∧ ∃ doc, Json.parse b.bytes = some doc ∧ readContent doc = some m := by
  intro x
  by_cases hbuf : a.chain = false ∨ a.buf = false
  · have hx : x = { rc := 500 } := if_pos hbuf
    rw [hx, ← or_assoc]
    exact ⟨iff_of_true rfl (.inl hbuf), nofun⟩
  · by_cases hpalloc : a.palloc = false
    · have hx : x = { rc := 500 } := (if_neg hbuf).trans (if_pos hpalloc)
      rw [hx, ← or_assoc]
      exact ⟨iff_of_true rfl (.inr hpalloc), nofun⟩
    · have hx : x = sendJson a main ⟨monitorLength extra m, monitorText escape m⟩ 200 (monitorText escape m).length 500 :=
        (if_neg hbuf).trans (if_neg hpalloc)
      rw [hx, sendJson_buf, ← or_assoc]
      refine ⟨iff_of_false nofun (not_or.2 ⟨hbuf, hpalloc⟩), ?_⟩
      rintro _ ⟨⟩
      exact ⟨sendJson_announced _ _ _ _ (monitorText_length_le hescape hprofiler hoom hlong) rfl, _, parse_monitorText hescape m,
        readContent_document m⟩

/-- A key that is escaped, and a counter above `NGX_MAX_INT_T_VALUE`. -/
theorem monitor_content_escaped :
    let f : LwsFunction 64 := { key := [0x22, 0x01, 0x80], calls := 2, timeSelf := ⟨1, 999999999⟩ }
    let m : MonitorContent := { memoryUsed := -1, profiler := 2, outOfMemory := 1, functions := [f, { f with key := [] }] }
    ∃ b doc, (lwsMonitorContentHandler ngxEscapeJsonExtra ngxEscapeJson {} true m).buf = some b ∧ b.bytes.length ≤ b.size ∧
      Json.parse b.bytes = some doc ∧ readContent doc = some m := by
  intro f m
  obtain ⟨-, hall⟩ := monitor_content (m := m) ngxEscapeJson_escapes (by decide) (by decide)
    (by simp [m, f, Timespec.IsLong]) {} true
  obtain ⟨hannounced, doc, hparse, hread⟩ := hall _ rfl
  exact ⟨_, doc, rfl, hannounced.fits, hparse, hread⟩

end Lws

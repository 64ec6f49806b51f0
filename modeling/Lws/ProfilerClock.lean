import Mathlib.Data.List.Infix
import Lws.Profiler
/-!
# ProfilerClock — the accumulators of the profiler (`lws_profiler.c`)

A time of an activation record starts at zero and only changes by `lws_add_timespec` and `lws_add_timespec_delta`, which carry
where the nanoseconds are above `1000000000`, and not where they are equal to it.
-/
namespace Lws

/-- `tv_nsec` is below a second. -/
def Timespec.Normalised (t : Timespec) : Prop := 0 ≤ t.nsec ∧ t.nsec < 1000000000

instance (t : Timespec) : Decidable t.Normalised := inferInstanceAs (Decidable (_ ∧ _))

/-- A call that adds to an accumulator: of `lws_add_timespec`, or of `lws_add_timespec_delta`. -/
inductive TimeCall where
  | add (inc : Timespec)
  | delta (start stop : Timespec)

/-- The arguments are normalised, and `to` is not earlier than `from`. -/
def TimeCall.Normalised : TimeCall → Prop
  | .add inc => inc.Normalised
  | .delta start stop => start.Normalised ∧ stop.Normalised ∧ start.nanos ≤ stop.nanos

instance : (call : TimeCall) → Decidable call.Normalised
  | .add inc => inferInstanceAs (Decidable inc.Normalised)
  | .delta _ _ => inferInstanceAs (Decidable (_ ∧ _))

def TimeCall.apply (base : Timespec) : TimeCall → Timespec
  | .add inc => lwsAddTimespec base inc
  | .delta start stop => lwsAddTimespecDelta base start stop

def accumulate (calls : List TimeCall) : Timespec := calls.foldl TimeCall.apply {}

def TimeCall.nanos : TimeCall → Int
  | .add inc => inc.nanos
  | .delta start stop => stop.nanos - start.nanos

def TimeCall.nsec : TimeCall → Int
  | .add inc => inc.nsec
  | .delta start stop => stop.nsec - start.nsec

def totalNanos (calls : List TimeCall) : Int := (calls.map TimeCall.nanos).sum

theorem accumulate_append (calls : List TimeCall) (call : TimeCall) :
    accumulate (calls ++ [call]) = call.apply (accumulate calls) := by
  rw [accumulate, List.foldl_append]
  rfl

theorem totalNanos_append (calls : List TimeCall) (call : TimeCall) :
    totalNanos (calls ++ [call]) = totalNanos calls + call.nanos := by
  rw [totalNanos, List.map_append, List.sum_append, List.map_singleton, List.sum_singleton, totalNanos]

/-- **Every addition is exact**, also where it does not carry. -/
theorem accumulate_nanos (calls : List TimeCall) : (accumulate calls).nanos = totalNanos calls := by
  induction calls using List.reverseRecOn with
  | nil => rfl
  | append_singleton calls call ih =>
    rw [accumulate_append, totalNanos_append, ← ih]
    cases call with
    | add inc => exact lwsAddTimespec_nanos (accumulate calls) inc
    | delta start stop => exact lwsAddTimespecDelta_nanos (accumulate calls) start stop

theorem Timespec.Normalised.mod {t : Timespec} (h : t.Normalised) : t.nanos % 1000000000 = t.nsec := by
  obtain ⟨hnonneg, hlt⟩ := h
  unfold Timespec.nanos
  omega

theorem TimeCall.apply_normalised {base : Timespec} (hbase : base.Normalised) {call : TimeCall} (hcall : call.Normalised) :
    (call.apply base).Normalised ↔ base.nsec + call.nsec ≠ 1000000000 := by
  obtain ⟨hbase0, hbase1⟩ := hbase
  cases call with
  | add inc =>
    obtain ⟨hinc0, hinc1⟩ := hcall
    simp only [TimeCall.apply, TimeCall.nsec, lwsAddTimespec, Timespec.Normalised]
    split
    · dsimp only
      omega
    · dsimp only
      omega
  | delta start stop =>
    obtain ⟨⟨hstart0, hstart1⟩, ⟨hstop0, hstop1⟩, -⟩ := hcall
    simp only [TimeCall.apply, TimeCall.nsec, lwsAddTimespecDelta, Timespec.Normalised]
    split
    · dsimp only
      omega
    · split
      · dsimp only
        omega
      · dsimp only
        omega

section
variable {calls : List TimeCall} (h : ∀ call ∈ calls, call.Normalised)
include h

/-- **The run is normalised as long as no carry is exactly a second.** -/
theorem accumulate_normalised
    (hcarry : ∀ before call, before ++ [call] <+: calls → totalNanos before % 1000000000 + call.nsec ≠ 1000000000)
    (before : List TimeCall) (hbefore : before <+: calls) : (accumulate before).Normalised := by
  induction before using List.reverseRecOn with
  | nil => decide
  | append_singleton before call ih =>
    have hrun := ih ((List.prefix_append before [call]).trans hbefore)
    have hcall := h call (hbefore.subset (List.mem_append_right before List.mem_cons_self))
    rw [accumulate_append, TimeCall.apply_normalised hrun hcall, ← hrun.mod, accumulate_nanos]
    exact hcarry before call hbefore

end

end Lws

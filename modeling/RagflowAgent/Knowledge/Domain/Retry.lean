import Mathlib.Algebra.Order.Ring.Rat
import Mathlib.Data.Rat.Floor
import Mathlib.Tactic.Positivity
import RagflowAgent.Knowledge.Domain.Failure

/-!
# The delay before another attempt

`classifyFailure` says whether a failed delivery is tried again; this module says when.  A
provider may ask for a delay in the `retry_after` attribute of its error, and this attribute
can hold anything: a number of seconds, a text that reads as one, or something useless.

* `LifecycleSettings` is the profile a policy is built from, with its bounds;
* `retryAfterSeconds` reads the attribute;
* `RetryPolicy.delaySeconds` is the delay, and `timedelta` what the clock makes of it.

A float is a rational number here, apart from the values that are no number.  The ticks of the
clock are microseconds.
-/

namespace RagflowAgent
namespace Knowledge

/-! ## The profile -/

/-- The part of the profile that concerns retries.  The bounds are checked when the settings are
read. -/
structure LifecycleSettings where
  maxAttempts : ℕ := 6
  concurrencyAttempts : ℕ := 3
  retryBaseSeconds : ℚ := 1
  retryMaxSeconds : ℚ := 300
  one_le_maxAttempts : 1 ≤ maxAttempts := by decide
  maxAttempts_le : maxAttempts ≤ 20 := by decide
  one_le_concurrencyAttempts : 1 ≤ concurrencyAttempts := by decide
  concurrencyAttempts_le : concurrencyAttempts ≤ 10 := by decide
  retryBaseSeconds_pos : 0 < retryBaseSeconds := by norm_num
  retryBaseSeconds_le : retryBaseSeconds ≤ 60 := by norm_num
  retryMaxSeconds_pos : 0 < retryMaxSeconds := by norm_num
  retryMaxSeconds_le : retryMaxSeconds ≤ 3600 := by norm_num
  attempts_ordered : concurrencyAttempts ≤ maxAttempts := by decide
  seconds_ordered : retryBaseSeconds ≤ retryMaxSeconds := by norm_num

def LifecycleSettings.retryPolicy (settings : LifecycleSettings) : RetryPolicy where
  maxAttempts := settings.maxAttempts
  concurrencyAttempts := settings.concurrencyAttempts
  baseSeconds := settings.retryBaseSeconds
  maxSeconds := settings.retryMaxSeconds

/-- No failure is tried more often than the larger of the two limits allows. -/
theorem lt_of_mayRetry {decision : FailureDecision} {attempt : ℕ} {policy : RetryPolicy}
    (h : mayRetry decision attempt policy = true) :
    attempt < max policy.maxAttempts policy.concurrencyAttempts := by
  rw [mayRetry, Bool.and_eq_true, decide_eq_true_eq] at h
  by_cases hclass : decision.classification = .concurrency
  · rw [if_pos hclass] at h
    exact lt_max_of_lt_right h.2
  · rw [if_neg hclass] at h
    exact lt_max_of_lt_left h.2

/-! ## The hint of a provider -/

inductive FloatValue where
  | finite (value : ℚ)
  | infinity
  | negativeInfinity
  | nan
  deriving DecidableEq

/-- The `retry_after` attribute of an error.  A text comes with what `float` reads in it, if it
reads a number at all. -/
inductive RetryAfter where
  | missing
  | int (value : ℤ)
  | float (value : FloatValue)
  | text (parsed : Option FloatValue)
  deriving DecidableEq

/-- The delay that a provider asks for. -/
inductive Hint where
  | seconds (value : ℚ)
  | unbounded
  deriving DecidableEq

/-- `max(0, value)`, where no comparison holds of a value that is no number. -/
def FloatValue.clamped : FloatValue → Hint
  | finite value => .seconds (max 0 value)
  | infinity => .unbounded
  | negativeInfinity => .seconds 0
  | nan => .seconds 0

/-- From here on the nearest float would be `2 ^ 1024`, which is no float any more. -/
def floatBound : ℕ := 2 ^ 1024 - 2 ^ 970

/-- `_retry_after`.  The source expects a `TypeError` or a `ValueError` of `float`, and an
integer that is too large raises neither. -/
def retryAfterSeconds : RetryAfter → Except Error (Option Hint)
  | .missing => .ok none
  | .int value =>
    if value.natAbs < floatBound then .ok (some (.seconds (max 0 value)))
    else .error (.other "OverflowError" "int too large to convert to float")
  | .float value => .ok (some value.clamped)
  | .text parsed => .ok (parsed.map FloatValue.clamped)

/-- Not an integer beyond the range of floats. -/
def RetryAfter.FitsFloat : RetryAfter → Prop
  | .int value => value.natAbs < floatBound
  | _ => True

/-- **Exactly the integers beyond the range of floats cannot be read.** -/
theorem exists_retryAfterSeconds_iff {retryAfter : RetryAfter} :
    (∃ hint, retryAfterSeconds retryAfter = .ok hint) ↔ retryAfter.FitsFloat := by
  cases retryAfter with
  | missing => exact ⟨fun _ => trivial, fun _ => ⟨_, rfl⟩⟩
  | int value =>
    rw [retryAfterSeconds, RetryAfter.FitsFloat]
    by_cases h : value.natAbs < floatBound
    · rw [if_pos h]
      exact ⟨fun _ => h, fun _ => ⟨_, rfl⟩⟩
    · rw [if_neg h]
      constructor
      · rintro ⟨hint, heq⟩
        cases heq
      · exact fun h' => absurd h' h
  | float value => exact ⟨fun _ => trivial, fun _ => ⟨_, rfl⟩⟩
  | text parsed => exact ⟨fun _ => trivial, fun _ => ⟨_, rfl⟩⟩

/-! ## The delay -/

/-- A draw of `random()`. -/
abbrev Draw : Type := { value : ℚ // 0 ≤ value ∧ value < 1 }

/-- The hint of the provider below the ceiling of the policy, else a random part of the
exponential ceiling. -/
def RetryPolicy.delaySeconds (policy : RetryPolicy) (attempt : ℕ) (retryAfter : Option Hint)
    (random : Draw) : ℚ :=
  match retryAfter with
  | some (.seconds value) => min (max 0 value) policy.maxSeconds
  | some .unbounded => policy.maxSeconds
  | none => min policy.maxSeconds (policy.baseSeconds * 2 ^ (attempt - 1)) * random.val

section Delay

variable (settings : LifecycleSettings) (attempt : ℕ) (retryAfter : Option Hint) (random : Draw)

theorem delaySeconds_nonneg :
    0 ≤ settings.retryPolicy.delaySeconds attempt retryAfter random := by
  have hmax : 0 ≤ settings.retryPolicy.maxSeconds := settings.retryMaxSeconds_pos.le
  have hbase : 0 ≤ settings.retryPolicy.baseSeconds := settings.retryBaseSeconds_pos.le
  match retryAfter with
  | some (.seconds value) => exact le_min (le_max_left 0 value) hmax
  | some .unbounded => exact hmax
  | none =>
    have hceiling : 0 ≤ settings.retryPolicy.baseSeconds * 2 ^ (attempt - 1) := by positivity
    exact mul_nonneg (le_min hmax hceiling) random.property.1

/-- Neither the hint nor the exponent exceeds the maximal delay. -/
theorem delaySeconds_le :
    settings.retryPolicy.delaySeconds attempt retryAfter random ≤ settings.retryMaxSeconds := by
  have hmax : 0 ≤ settings.retryPolicy.maxSeconds := settings.retryMaxSeconds_pos.le
  match retryAfter with
  | some (.seconds value) => exact min_le_right _ _
  | some .unbounded => exact le_rfl
  | none =>
    calc min settings.retryPolicy.maxSeconds
          (settings.retryPolicy.baseSeconds * 2 ^ (attempt - 1)) * random.val
        ≤ settings.retryPolicy.maxSeconds * random.val :=
          mul_le_mul_of_nonneg_right (min_le_left _ _) random.property.1
      _ ≤ settings.retryPolicy.maxSeconds := mul_le_of_le_one_right hmax random.property.2.le

end Delay

/-- `timedelta(seconds=…)` in microseconds: the nearest one, and of two the even one. -/
def timedelta (seconds : ℚ) : ℤ :=
  let microseconds : ℚ := seconds * 10 ^ 6
  let rest : ℚ := microseconds - ⌊microseconds⌋
  if rest < 1 / 2 ∨ rest = 1 / 2 ∧ Even ⌊microseconds⌋ then ⌊microseconds⌋
  else ⌊microseconds⌋ + 1

theorem timedelta_nonneg {seconds : ℚ} (h : 0 ≤ seconds) : 0 ≤ timedelta seconds := by
  have hfloor : 0 ≤ ⌊seconds * 10 ^ 6⌋ := Int.floor_nonneg.2 (by positivity)
  simp only [timedelta]
  split
  · exact hfloor
  · omega

end Knowledge
end RagflowAgent

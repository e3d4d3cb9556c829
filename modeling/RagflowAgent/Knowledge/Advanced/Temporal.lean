import Mathlib.Algebra.Order.Ring.Rat
import RagflowAgent.Grouping
import RagflowAgent.Knowledge.Texts

/-!
# Windows over a time series

`TemporalRagService.windows` cuts a series into windows that are counted from its earliest point
and describes the points of every window that has some.

* A `DateTime` is a time of UTC within the range of `datetime`, in microseconds; adding to it may
  leave the range, which raises an `OverflowError`;
* `windowIndex` is the number of the window of a point, and `timeWindow` describes a window;
* numbers are rational, so that arithmetic is exact.
-/

namespace RagflowAgent
namespace Knowledge
namespace Advanced

open Grouping Ranking

/-- The microseconds from the first to the last moment of `datetime`. -/
def latestMicros : ℕ := 3652059 * 86400 * 1000000 - 1

/-- A time of UTC, in microseconds since the beginning of the year 1. -/
structure DateTime where
  micros : ℕ
  le_latest : micros ≤ latestMicros
  deriving DecidableEq

/-- `moment + timedelta(seconds=seconds)`. -/
def DateTime.addSeconds (moment : DateTime) (seconds : ℕ) : Except Error DateTime :=
  if h : moment.micros + seconds * 1000000 ≤ latestMicros then
    .ok ⟨moment.micros + seconds * 1000000, h⟩
  else .error (.other "OverflowError" "date value out of range")

structure TimePoint where
  observedAt : DateTime
  value : Option ℚ
  deriving DecidableEq

/-- What the windows of one call have in common. -/
structure Series where
  tenantId : NonEmptyStr
  knowledgeBaseId : NonEmptyStr
  seriesId : NonEmptyStr
  originalTimezone : NonEmptyStr
  sourceChunkIds : List NonEmptyStr := []
  deriving DecidableEq

structure TimeWindow where
  series : Series
  startAt : DateTime
  endAt : DateTime
  count : ℕ
  missingCount : ℕ
  minimum : Option ℚ
  maximum : Option ℚ
  mean : Option ℚ
  trend : Option ℚ
  deriving DecidableEq

/-- `int((point.observed_at - anchor).total_seconds() // window_seconds)`. -/
def windowIndex (anchor : DateTime) (windowSeconds : ℕ) (point : TimePoint) : ℕ :=
  (point.observedAt.micros - anchor.micros) / (windowSeconds * 1000000)

/-- `(present[-1] - present[0]) / (len(present) - 1)`. -/
def trendOf (present : List ℚ) : Option ℚ :=
  if 2 ≤ present.length then
    some ((present.getLastD 0 - present.headD 0) / (present.length - 1))
  else none

/-- The values of a bucket. -/
def presentValues (bucket : List TimePoint) : List ℚ := bucket.filterMap TimePoint.value

/-- The description of one window. -/
def timeWindow (series : Series) (anchor : DateTime) (windowSeconds index : ℕ)
    (bucket : List TimePoint) : Except Error TimeWindow := do
  let present := presentValues bucket
  let startAt ← anchor.addSeconds (index * windowSeconds)
  let endAt ← startAt.addSeconds windowSeconds
  return {
    series
    startAt
    endAt
    count := present.length
    missingCount := bucket.length - present.length
    minimum := present.min?
    maximum := present.max?
    mean := if present = [] then none else some (present.sum / present.length)
    trend := trendOf present }

/-- `windows`. -/
def TemporalRagService.windows (maxPoints : ℕ) (series : Series) (points : List TimePoint)
    (windowSeconds : ℤ) : Except Error (List TimeWindow) :=
  if maxPoints < points.length ∨ windowSeconds < 1 then
    .error (.other "ValueError" "time series resource budget exceeded")
  else
    match sortedBy (fun point => point.observedAt.micros) points with
    | [] => .ok []
    | first :: rest =>
      let anchor := first.observedAt
      let size := windowSeconds.toNat
      let buckets := grouped (windowIndex anchor size) (first :: rest)
      (sortedBy Prod.fst buckets).mapM fun (index, bucket) =>
        timeWindow series anchor size index bucket

end Advanced
end Knowledge
end RagflowAgent

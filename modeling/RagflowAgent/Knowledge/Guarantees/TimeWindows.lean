import Mathlib.Tactic.Linarith
import Mathlib.Tactic.Ring
import RagflowAgent.Fallible
import RagflowAgent.Knowledge.Advanced.Temporal

/-!
# Windows partition a series

* `windows_eq_mapM`: the windows are those of the sorted window numbers, each with the points of
  that number in the order of their times;
* `Partitioned` says that the windows that are returned partition the points, and that the order
  of the points does not matter;
* `Settled` says that no window ends behind the range of `datetime`, and that two values which
  compete for the first or the last place of a window are equal;
* `partitioned_iff_settled` joins the two.
-/

namespace RagflowAgent
namespace Knowledge
namespace Advanced

open Grouping Ranking

/-! ## The windows that are returned -/

/-- The points in the order of their times. -/
def inOrder (points : List TimePoint) : List TimePoint :=
  sortedBy (fun point => point.observedAt.micros) points

/-- The points with one window number, in the order of their times. -/
def bucketOf (anchor : DateTime) (windowSeconds : ℕ) (points : List TimePoint) (index : ℕ) :
    List TimePoint :=
  inOrder (points.filter fun point => windowIndex anchor windowSeconds point = index)

section Windows

variable {maxPoints : ℕ} {series : Series} {points : List TimePoint} {windowSeconds : ℤ}

/-- The first point of a series in order is the earliest. -/
theorem exists_inOrder (hne : points ≠ []) : ∃ first rest, inOrder points = first :: rest ∧
    first ∈ points ∧ ∀ point ∈ points, first.observedAt.micros ≤ point.observedAt.micros := by
  cases h : inOrder points with
  | nil =>
    have hlength := congrArg List.length h
    rw [inOrder, length_sortedBy, List.length_nil, List.length_eq_zero_iff] at hlength
    exact absurd hlength hne
  | cons first rest =>
    have hhead : (inOrder points).head? = some first := by
      rw [h]
      rfl
    obtain ⟨hmem, hle⟩ := key_le_of_head?_sortedBy _ hhead
    exact ⟨first, rest, rfl, hmem, hle⟩

/-- **The windows**, for the sorted window numbers. -/
theorem windows_eq_mapM (hlimit : points.length ≤ maxPoints) (hwindow : 1 ≤ windowSeconds)
    {first : TimePoint} (hfirst : first ∈ points)
    (hearliest : ∀ point ∈ points, first.observedAt.micros ≤ point.observedAt.micros) :
    TemporalRagService.windows maxPoints series points windowSeconds =
      (keysOf (windowIndex first.observedAt windowSeconds.toNat) points).mapM fun index =>
        timeWindow series first.observedAt windowSeconds.toNat index
          (bucketOf first.observedAt windowSeconds.toNat points index) := by
  obtain ⟨head, rest, horder, hhead, hleast⟩ := exists_inOrder (List.ne_nil_of_mem hfirst)
  have hanchor : head.observedAt = first.observedAt := by
    have hle := hleast first hfirst
    have hge := hearliest head hhead
    obtain ⟨⟨_, _⟩, _⟩ := head
    obtain ⟨⟨_, _⟩, _⟩ := first
    simp only at hle hge ⊢
    rw [DateTime.mk.injEq]
    omega
  have hperm : (head :: rest).Perm points := horder ▸ sortedBy_perm _ points
  have hsorted : sortedBy (fun point => point.observedAt.micros) points = head :: rest := horder
  rw [TemporalRagService.windows, if_neg (by omega), hsorted]
  dsimp only
  rw [hanchor, sortedBy_grouped_eq_map, keysOf_congr _ hperm, List.mapM_map]
  refine congrArg (fun f => List.mapM f _) (funext fun index => ?_)
  rw [Function.comp_apply]
  dsimp only
  rw [bucketOf, inOrder, ← filter_sortedBy, ← inOrder, horder]

end Windows

/-! ## One window -/

section OneWindow

variable {series : Series} {anchor : DateTime} {size index : ℕ} {bucket : List TimePoint}
variable {window : TimeWindow}

theorem addSeconds_eq_ok {moment later : DateTime} {seconds : ℕ}
    (h : moment.addSeconds seconds = .ok later) :
    later.micros = moment.micros + seconds * 1000000 := by
  rw [DateTime.addSeconds] at h
  split at h
  · rw [← Except.ok.inj h]
  · cases h

/-- Where a window begins and ends, and what it counts. -/
theorem of_timeWindow_eq_ok (h : timeWindow series anchor size index bucket = .ok window) :
    window.startAt.micros = anchor.micros + index * (size * 1000000) ∧
      window.endAt.micros = anchor.micros + (index + 1) * (size * 1000000) ∧
      window.count + window.missingCount = bucket.length ∧
      window.trend = trendOf (presentValues bucket) := by
  obtain ⟨startAt, hstart, h⟩ := bind_eq_ok.1 h
  obtain ⟨endAt, hend, h⟩ := bind_eq_ok.1 h
  cases h
  have hlength : (presentValues bucket).length ≤ bucket.length := List.length_filterMap_le _ _
  dsimp only
  rw [addSeconds_eq_ok hend, addSeconds_eq_ok hstart]
  refine ⟨by ring, by ring, by omega, rfl⟩

/-- A window within the range of `datetime` is described. -/
theorem exists_timeWindow_eq_ok
    (h : anchor.micros + (index + 1) * (size * 1000000) ≤ latestMicros) :
    ∃ window, timeWindow series anchor size index bucket = .ok window := by
  have hend : anchor.micros + index * size * 1000000 + size * 1000000 ≤ latestMicros := by
    calc anchor.micros + index * size * 1000000 + size * 1000000
        = anchor.micros + (index + 1) * (size * 1000000) := by ring
      _ ≤ latestMicros := h
  have hstart : anchor.micros + index * size * 1000000 ≤ latestMicros := by omega
  have hstartAt : anchor.addSeconds (index * size) = .ok ⟨_, hstart⟩ := dif_pos hstart
  have hendAt : DateTime.addSeconds ⟨_, hstart⟩ size = .ok ⟨_, hend⟩ := dif_pos hend
  exact ⟨_, bind_eq_ok.2 ⟨_, hstartAt, bind_eq_ok.2 ⟨_, hendAt, rfl⟩⟩⟩

/-- A point lies in the window of its number, and in no other. -/
theorem windowIndex_eq_iff (hsize : 0 < size) {point : TimePoint}
    (hanchor : anchor.micros ≤ point.observedAt.micros) :
    windowIndex anchor size point = index ↔
      anchor.micros + index * (size * 1000000) ≤ point.observedAt.micros ∧
        point.observedAt.micros < anchor.micros + (index + 1) * (size * 1000000) := by
  have hpos : 0 < size * 1000000 := by omega
  rw [windowIndex, Nat.div_eq_iff hpos, Nat.add_mul]
  omega

end OneWindow

/-! ## The partition -/

def TimeWindow.Covers (window : TimeWindow) (point : TimePoint) : Prop :=
  window.startAt.micros ≤ point.observedAt.micros ∧
    point.observedAt.micros < window.endAt.micros

/-- Every point is in exactly one window, the windows follow one another without overlap, they
count every point once, and their order and contents do not depend on the order of the points. -/
def Partitioned (maxPoints : ℕ) (series : Series) (points : List TimePoint)
    (windowSeconds : ℤ) : Prop :=
  ∃ windows, TemporalRagService.windows maxPoints series points windowSeconds = .ok windows ∧
    (∀ point ∈ points, ∃! window, window ∈ windows ∧ window.Covers point) ∧
    windows.Pairwise (fun w w' => w.endAt.micros ≤ w'.startAt.micros) ∧
    (windows.map fun w => w.count + w.missingCount).sum = points.length ∧
    ∀ points', points'.Perm points →
      TemporalRagService.windows maxPoints series points' windowSeconds = .ok windows

/-- Two points whose values compete for the first or the last place of their window. -/
def Compete (anchor : DateTime) (size : ℕ) (points : List TimePoint) (p q : TimePoint) : Prop :=
  p.value ≠ none ∧ q.value ≠ none ∧ p.observedAt = q.observedAt ∧
    ((∀ r ∈ points, r.value ≠ none → windowIndex anchor size r = windowIndex anchor size p →
        p.observedAt.micros ≤ r.observedAt.micros) ∨
      ∀ r ∈ points, r.value ≠ none → windowIndex anchor size r = windowIndex anchor size p →
        r.observedAt.micros ≤ p.observedAt.micros)

/-- Counted from the earliest point, no window with a point ends behind the range of `datetime`,
and values that compete are equal. -/
def Settled (points : List TimePoint) (windowSeconds : ℤ) : Prop :=
  ∀ first ∈ points, (∀ point ∈ points, first.observedAt.micros ≤ point.observedAt.micros) →
    (∀ point ∈ points, first.observedAt.micros +
        (windowIndex first.observedAt windowSeconds.toNat point + 1) *
          (windowSeconds.toNat * 1000000) ≤ latestMicros) ∧
      ∀ p ∈ points, ∀ q ∈ points,
        Compete first.observedAt windowSeconds.toNat points p q → p.value = q.value

section Partition

variable {series : Series} {points : List TimePoint} {anchor : DateTime} {size : ℕ}
variable {windows : List TimeWindow}

/-- The windows of the numbers that occur. -/
def windowsOf (series : Series) (anchor : DateTime) (size : ℕ) (points : List TimePoint) :
    Except Error (List TimeWindow) :=
  (keysOf (windowIndex anchor size) points).mapM fun index =>
    timeWindow series anchor size index (bucketOf anchor size points index)

theorem existsUnique_covers (hsize : 0 < size)
    (hearliest : ∀ point ∈ points, anchor.micros ≤ point.observedAt.micros)
    (h : windowsOf series anchor size points = .ok windows) {point : TimePoint}
    (hpoint : point ∈ points) : ∃! window, window ∈ windows ∧ window.Covers point := by
  have hcovers : ∀ {index bucket window},
      timeWindow series anchor size index bucket = .ok window →
      (window.Covers point ↔ windowIndex anchor size point = index) := by
    intro index bucket window hwindow
    obtain ⟨hstart, hend, -⟩ := of_timeWindow_eq_ok hwindow
    rw [TimeWindow.Covers, hstart, hend, windowIndex_eq_iff hsize (hearliest point hpoint)]
  have hindex := (mem_keysOf (windowIndex anchor size)).2 ⟨point, hpoint, rfl⟩
  obtain ⟨window, hmem, hwindow⟩ := exists_of_mapM_eq_ok h _ hindex
  refine ⟨window, ⟨hmem, (hcovers hwindow).2 rfl⟩, ?_⟩
  rintro other ⟨hother, hcovered⟩
  obtain ⟨index, -, hindexed⟩ := mem_of_mapM_eq_ok h other hother
  obtain rfl := (hcovers hindexed).1 hcovered
  exact Except.ok.inj (hindexed.symm.trans hwindow)

theorem pairwise_windows (h : windowsOf series anchor size points = .ok windows) :
    windows.Pairwise fun w w' => w.endAt.micros ≤ w'.startAt.micros := by
  have hbounds : windows.map (fun w => (w.startAt.micros, w.endAt.micros)) =
      (keysOf (windowIndex anchor size) points).map fun index =>
        (anchor.micros + index * (size * 1000000),
          anchor.micros + (index + 1) * (size * 1000000)) := by
    refine map_of_mapM_eq_ok (fun index _ window hwindow => ?_) h
    obtain ⟨hstart, hend, -⟩ := of_timeWindow_eq_ok hwindow
    rw [hstart, hend]
  have hpairs : (windows.map fun w => (w.startAt.micros, w.endAt.micros)).Pairwise
      fun a b => a.2 ≤ b.1 := by
    rw [hbounds, List.pairwise_map]
    refine (pairwise_keysOf (windowIndex anchor size) points).imp fun {i j} hij => ?_
    exact Nat.add_le_add_left (Nat.mul_le_mul_right _ hij) _
  exact List.pairwise_map.1 hpairs

theorem sum_counts (h : windowsOf series anchor size points = .ok windows) :
    (windows.map fun w => w.count + w.missingCount).sum = points.length := by
  have hcounts : windows.map (fun w => w.count + w.missingCount) =
      (keysOf (windowIndex anchor size) points).map fun index =>
        (points.filter fun point => windowIndex anchor size point = index).length := by
    refine map_of_mapM_eq_ok (fun index _ window hwindow => ?_) h
    obtain ⟨-, -, hcount, -⟩ := of_timeWindow_eq_ok hwindow
    rw [hcount, bucketOf, inOrder, length_sortedBy]
  rw [hcounts, sum_length_keysOf]

theorem exists_windowsOf
    (hrange : ∀ point ∈ points, anchor.micros +
      (windowIndex anchor size point + 1) * (size * 1000000) ≤ latestMicros) :
    ∃ windows, windowsOf series anchor size points = .ok windows := by
  refine exists_mapM_eq_ok fun index hindex => ?_
  obtain ⟨point, hpoint, rfl⟩ := (mem_keysOf _).1 hindex
  exact exists_timeWindow_eq_ok (hrange point hpoint)

theorem le_latest_of_windowsOf (h : windowsOf series anchor size points = .ok windows)
    {point : TimePoint} (hpoint : point ∈ points) :
    anchor.micros + (windowIndex anchor size point + 1) * (size * 1000000) ≤ latestMicros := by
  obtain ⟨window, -, hwindow⟩ :=
    exists_of_mapM_eq_ok h _ ((mem_keysOf (windowIndex anchor size)).2 ⟨point, hpoint, rfl⟩)
  rw [← (of_timeWindow_eq_ok hwindow).2.1]
  exact window.endAt.le_latest

end Partition

/-! ## The order of the points -/

section Order

variable {anchor : DateTime} {size index : ℕ} {points points' : List TimePoint}

theorem mem_bucketOf {point : TimePoint} : point ∈ bucketOf anchor size points index ↔
    point ∈ points ∧ windowIndex anchor size point = index := by
  rw [bucketOf, inOrder, mem_sortedBy, List.mem_filter, decide_eq_true_eq]

theorem bucketOf_perm (h : points'.Perm points) :
    (bucketOf anchor size points' index).Perm (bucketOf anchor size points index) :=
  ((sortedBy_perm _ _).trans (h.filter _)).trans (sortedBy_perm _ _).symm

/-- A point of a window with a value. -/
def IsPresent (anchor : DateTime) (size index : ℕ) (point : TimePoint) : Prop :=
  windowIndex anchor size point = index ∧ point.value.isSome

instance : DecidablePred (IsPresent anchor size index) :=
  fun _ => inferInstanceAs (Decidable (_ ∧ _))

/-- The points of a window that have a value, in the order of their times. -/
def presentPoints (anchor : DateTime) (size : ℕ) (points : List TimePoint) (index : ℕ) :
    List TimePoint :=
  inOrder (points.filter fun point => IsPresent anchor size index point)

theorem value_of_mem_presentPoints {p : TimePoint} (h : p ∈ presentPoints anchor size points index) :
    p ∈ points ∧ windowIndex anchor size p = index ∧ p.value = some (p.value.getD 0) := by
  rw [presentPoints, inOrder, mem_sortedBy, List.mem_filter, decide_eq_true_eq] at h
  obtain ⟨hp, hindex, hvalue⟩ := h
  obtain ⟨value, hvalue⟩ := Option.isSome_iff_exists.1 hvalue
  exact ⟨hp, hindex, by rw [hvalue, Option.getD_some]⟩

theorem mem_presentPoints {p : TimePoint} (hp : p ∈ points) (hvalue : p.value ≠ none)
    (hindex : windowIndex anchor size p = index) : p ∈ presentPoints anchor size points index := by
  rw [presentPoints, inOrder, mem_sortedBy, List.mem_filter, decide_eq_true_eq]
  exact ⟨hp, hindex, Option.isSome_iff_ne_none.2 hvalue⟩

/-- The values of a bucket are those of its points that have one. -/
theorem presentValues_bucketOf : presentValues (bucketOf anchor size points index) =
    (presentPoints anchor size points index).map fun p => p.value.getD 0 := by
  have hfilter : presentPoints anchor size points index =
      (bucketOf anchor size points index).filter fun point => point.value.isSome := by
    rw [bucketOf, inOrder, filter_sortedBy, List.filter_filter, presentPoints, inOrder]
    refine congrArg _ (List.filter_congr fun point _ => ?_)
    rw [Bool.eq_iff_iff]
    simp [IsPresent, and_comm]
  have hvalues : presentValues (bucketOf anchor size points index) =
      (presentPoints anchor size points index).filterMap TimePoint.value := by
    rw [hfilter, presentValues, List.filterMap_filter]
    refine List.filterMap_congr fun point _ => ?_
    cases point.value <;> rfl
  rw [hvalues, ← List.filterMap_eq_map]
  refine List.filterMap_congr fun p hp => ?_
  exact (value_of_mem_presentPoints hp).2.2

/-- The first value of a bucket has a point that competes for the place. -/
theorem exists_head_presentValues {value : ℚ}
    (h : (presentValues (bucketOf anchor size points index)).head? = some value) :
    ∃ p ∈ points, p.value = some value ∧ windowIndex anchor size p = index ∧
      ∀ r ∈ points, r.value ≠ none → windowIndex anchor size r = index →
        p.observedAt.micros ≤ r.observedAt.micros := by
  rw [presentValues_bucketOf, List.head?_map, Option.map_eq_some_iff] at h
  obtain ⟨p, hp, rfl⟩ := h
  obtain ⟨hmem, hindex, hvalue⟩ := value_of_mem_presentPoints (List.mem_of_mem_head? hp)
  refine ⟨p, hmem, hvalue, hindex, fun r hr hrvalue hrindex => ?_⟩
  refine (key_le_of_head?_sortedBy _ hp).2 r ?_
  exact (mem_sortedBy _).1 (mem_presentPoints hr hrvalue hrindex)

/-- The last value of a bucket has a point that competes for the place. -/
theorem exists_getLast_presentValues {value : ℚ}
    (h : (presentValues (bucketOf anchor size points index)).getLast? = some value) :
    ∃ p ∈ points, p.value = some value ∧ windowIndex anchor size p = index ∧
      ∀ r ∈ points, r.value ≠ none → windowIndex anchor size r = index →
        r.observedAt.micros ≤ p.observedAt.micros := by
  rw [presentValues_bucketOf, List.getLast?_map, Option.map_eq_some_iff] at h
  obtain ⟨p, hp, rfl⟩ := h
  obtain ⟨hmem, hindex, hvalue⟩ := value_of_mem_presentPoints (List.mem_of_getLast? hp)
  refine ⟨p, hmem, hvalue, hindex, fun r hr hrvalue hrindex => ?_⟩
  refine (le_key_of_getLast?_sortedBy _ hp).2 r ?_
  exact (mem_sortedBy _).1 (mem_presentPoints hr hrvalue hrindex)

theorem observedAt_eq {p q : TimePoint} (hle : p.observedAt.micros ≤ q.observedAt.micros)
    (hge : q.observedAt.micros ≤ p.observedAt.micros) : p.observedAt = q.observedAt := by
  obtain ⟨⟨_, _⟩, _⟩ := p
  obtain ⟨⟨_, _⟩, _⟩ := q
  simp only [DateTime.mk.injEq] at hle hge ⊢
  omega

/-- The first values for two orders of the points are equal, if values that compete are. -/
theorem head_presentValues_congr (h : points'.Perm points)
    (hsettled : ∀ p ∈ points, ∀ q ∈ points, Compete anchor size points p q → p.value = q.value)
    {value value' : ℚ}
    (hvalue : (presentValues (bucketOf anchor size points index)).head? = some value)
    (hvalue' : (presentValues (bucketOf anchor size points' index)).head? = some value') :
    value = value' := by
  obtain ⟨p, hp, hpvalue, hpindex, hpleast⟩ := exists_head_presentValues hvalue
  obtain ⟨q, hq, hqvalue, hqindex, hqleast⟩ := exists_head_presentValues hvalue'
  have hne : p.value ≠ none := by simp [hpvalue]
  have hne' : q.value ≠ none := by simp [hqvalue]
  have htimes := observedAt_eq (hpleast q (h.mem_iff.1 hq) hne' hqindex)
    (hqleast p (h.mem_iff.2 hp) hne hpindex)
  have heq := hsettled p hp q (h.mem_iff.1 hq)
    ⟨hne, hne', htimes, .inl fun r hr hrvalue hrindex => hpleast r hr hrvalue (hrindex.trans hpindex)⟩
  rw [hpvalue, hqvalue] at heq
  exact Option.some.inj heq

theorem getLast_presentValues_congr (h : points'.Perm points)
    (hsettled : ∀ p ∈ points, ∀ q ∈ points, Compete anchor size points p q → p.value = q.value)
    {value value' : ℚ}
    (hvalue : (presentValues (bucketOf anchor size points index)).getLast? = some value)
    (hvalue' : (presentValues (bucketOf anchor size points' index)).getLast? = some value') :
    value = value' := by
  obtain ⟨p, hp, hpvalue, hpindex, hpgreatest⟩ := exists_getLast_presentValues hvalue
  obtain ⟨q, hq, hqvalue, hqindex, hqgreatest⟩ := exists_getLast_presentValues hvalue'
  have hne : p.value ≠ none := by simp [hpvalue]
  have hne' : q.value ≠ none := by simp [hqvalue]
  have htimes := observedAt_eq (hqgreatest p (h.mem_iff.2 hp) hne hpindex)
    (hpgreatest q (h.mem_iff.1 hq) hne' hqindex)
  have heq := hsettled p hp q (h.mem_iff.1 hq)
    ⟨hne, hne', htimes,
      .inr fun r hr hrvalue hrindex => hpgreatest r hr hrvalue (hrindex.trans hpindex)⟩
  rw [hpvalue, hqvalue] at heq
  exact Option.some.inj heq

/-- The trend depends on the number of values, the first and the last. -/
theorem trendOf_congr {values values' : List ℚ} (hlength : values'.length = values.length)
    (hhead : ∀ v v', values.head? = some v → values'.head? = some v' → v = v')
    (hlast : ∀ v v', values.getLast? = some v → values'.getLast? = some v' → v = v') :
    trendOf values' = trendOf values := by
  cases values with
  | nil =>
    rw [List.length_nil, List.length_eq_zero_iff] at hlength
    rw [hlength]
  | cons v values =>
    obtain ⟨v', values', rfl⟩ := List.exists_cons_of_length_pos (l := values') (by simp [hlength])
    have heads := hhead v v' rfl rfl
    have hlasts := hlast _ _ (List.getLast?_eq_some_getLast (List.cons_ne_nil v values))
      (List.getLast?_eq_some_getLast (List.cons_ne_nil v' values'))
    rw [trendOf, trendOf, hlength, List.getLastD_eq_getLast?, List.getLastD_eq_getLast?,
      List.getLast?_eq_some_getLast (List.cons_ne_nil v values),
      List.getLast?_eq_some_getLast (List.cons_ne_nil v' values'), ← hlasts, List.headD_cons,
      List.headD_cons, heads]

/-- **Where values that compete are equal**, a window does not depend on the order of the
points. -/
theorem timeWindow_bucketOf_congr {series : Series} (h : points'.Perm points)
    (hsettled : ∀ p ∈ points, ∀ q ∈ points, Compete anchor size points p q → p.value = q.value) :
    timeWindow series anchor size index (bucketOf anchor size points' index) =
      timeWindow series anchor size index (bucketOf anchor size points index) := by
  have hbuckets : (bucketOf anchor size points' index).Perm (bucketOf anchor size points index) :=
    bucketOf_perm h
  have hvalues : (presentValues (bucketOf anchor size points' index)).Perm
      (presentValues (bucketOf anchor size points index)) := hbuckets.filterMap _
  have htrend : trendOf (presentValues (bucketOf anchor size points' index)) =
      trendOf (presentValues (bucketOf anchor size points index)) :=
    trendOf_congr hvalues.length_eq (fun _ _ => head_presentValues_congr h hsettled)
      fun _ _ => getLast_presentValues_congr h hsettled
  have hminimum : (presentValues (bucketOf anchor size points' index)).min? =
      (presentValues (bucketOf anchor size points index)).min? := by
    refine Option.ext fun v => ?_
    rw [List.min?_eq_some_iff, List.min?_eq_some_iff, hvalues.mem_iff]
    exact and_congr_right fun _ => forall_congr' fun b => by rw [hvalues.mem_iff]
  have hmaximum : (presentValues (bucketOf anchor size points' index)).max? =
      (presentValues (bucketOf anchor size points index)).max? := by
    refine Option.ext fun v => ?_
    rw [List.max?_eq_some_iff, List.max?_eq_some_iff, hvalues.mem_iff]
    exact and_congr_right fun _ => forall_congr' fun b => by rw [hvalues.mem_iff]
  have hnil : presentValues (bucketOf anchor size points' index) = [] ↔
      presentValues (bucketOf anchor size points index) = [] := by
    rw [← List.length_eq_zero_iff, ← List.length_eq_zero_iff, hvalues.length_eq]
  rw [timeWindow, timeWindow]
  simp only [htrend, hminimum, hmaximum, hvalues.length_eq, hbuckets.length_eq, hvalues.sum_eq,
    hnil]

theorem cast_sub_one_ne_zero {n : ℕ} (h : 2 ≤ n) : (n : ℚ) - 1 ≠ 0 := by
  intro heq
  have hone : (n : ℚ) = 1 := by linarith
  rw [Nat.cast_eq_one] at hone
  omega

/-- Swapping the first two values of several changes the trend, unless they are equal. -/
theorem eq_of_trendOf_swap_first {v v' : ℚ} {values : List ℚ}
    (h : trendOf (v :: v' :: values) = trendOf (v' :: v :: values)) : v = v' := by
  simp only [trendOf, List.length_cons, List.headD_cons] at h
  rw [if_pos (by omega), if_pos (by omega), Option.some_inj] at h
  have hne : ((values.length + 1 + 1 : ℕ) : ℚ) - 1 ≠ 0 := cast_sub_one_ne_zero (by omega)
  have hdifference := (div_left_inj' hne).1 h
  cases values with
  | nil =>
    simp only [List.getLastD_cons, List.getLastD_nil] at hdifference
    linarith
  | cons last values =>
    simp only [List.getLastD_cons] at hdifference
    linarith

/-- Swapping the last two values of several changes the trend, unless they are equal. -/
theorem eq_of_trendOf_swap_last {v v' : ℚ} {values : List ℚ}
    (h : trendOf (values ++ [v, v']) = trendOf (values ++ [v', v])) : v = v' := by
  simp only [trendOf, List.length_append, List.length_cons, List.length_nil] at h
  rw [if_pos (by omega), if_pos (by omega), Option.some_inj] at h
  have hne : ((values.length + (0 + 1 + 1) : ℕ) : ℚ) - 1 ≠ 0 := cast_sub_one_ne_zero (by omega)
  have hdifference := (div_left_inj' hne).1 h
  cases values with
  | nil =>
    simp only [List.nil_append, List.getLastD_cons, List.getLastD_nil, List.headD_cons]
      at hdifference
    linarith
  | cons first values =>
    have hlast : ∀ a b : ℚ, (first :: values ++ [a, b]).getLastD 0 = b := by
      intro a b
      rw [List.getLastD_eq_getLast?, List.getLast?_append]
      rfl
    rw [hlast, hlast] at hdifference
    simp only [List.cons_append, List.headD_cons] at hdifference
    linarith

/-- All orders of the points have the same trends, if they have the same windows. -/
theorem trendOf_congr_of_windowsOf {series : Series} {windows : List TimeWindow}
    (h : points'.Perm points) (hindex : index ∈ keysOf (windowIndex anchor size) points)
    (hwindows : windowsOf series anchor size points = .ok windows)
    (hwindows' : windowsOf series anchor size points' = .ok windows) :
    trendOf (presentValues (bucketOf anchor size points' index)) =
      trendOf (presentValues (bucketOf anchor size points index)) := by
  have htrends : ∀ {l}, windowsOf series anchor size l = .ok windows →
      windows.map TimeWindow.trend = (keysOf (windowIndex anchor size) l).map fun index =>
        trendOf (presentValues (bucketOf anchor size l index)) :=
    fun hl => map_of_mapM_eq_ok (fun _ _ _ hwindow => (of_timeWindow_eq_ok hwindow).2.2.2) hl
  have heq := (htrends hwindows').symm.trans (htrends hwindows)
  rw [keysOf_congr _ h] at heq
  exact List.map_inj_left.1 heq index hindex

/-- Two points of one time stay in their order. -/
theorem inOrder_pair {a b : TimePoint} (h : a.observedAt = b.observedAt) :
    inOrder [a, b] = [a, b] := by
  have hle : a.observedAt.micros ≤ b.observedAt.micros := by rw [h]
  rw [inOrder, sortedBy, List.insertionSort_cons, List.insertionSort_cons, List.insertionSort_nil,
    List.orderedInsert_nil, List.orderedInsert_cons, if_pos hle]

/-- Two points of the earliest time come first if they are given first. -/
theorem presentPoints_first {a b : TimePoint} {rest : List TimePoint}
    (ha : IsPresent anchor size index a) (hb : IsPresent anchor size index b)
    (htime : a.observedAt = b.observedAt)
    (hleast : ∀ r ∈ rest, IsPresent anchor size index r →
      a.observedAt.micros ≤ r.observedAt.micros) :
    presentPoints anchor size (a :: b :: rest) index =
      a :: b :: presentPoints anchor size rest index := by
  have hfilter : (a :: b :: rest).filter (fun point => IsPresent anchor size index point) =
      [a, b] ++ rest.filter fun point => IsPresent anchor size index point := by
    simp [ha, hb]
  rw [presentPoints, presentPoints, hfilter, inOrder, sortedBy_append, ← inOrder, ← inOrder,
    inOrder_pair htime]
  · rfl
  · intro c hc r hr
    obtain ⟨hmem, hr⟩ := List.mem_filter.1 hr
    have hle := hleast r hmem (of_decide_eq_true hr)
    simp only [List.mem_cons, List.not_mem_nil, or_false] at hc
    rcases hc with rfl | rfl
    · exact hle
    · rwa [← htime]

/-- Two points of the latest time come last if they are given last. -/
theorem presentPoints_last {a b : TimePoint} {rest : List TimePoint}
    (ha : IsPresent anchor size index a) (hb : IsPresent anchor size index b)
    (htime : a.observedAt = b.observedAt)
    (hgreatest : ∀ r ∈ rest, IsPresent anchor size index r →
      r.observedAt.micros ≤ a.observedAt.micros) :
    presentPoints anchor size (rest ++ [a, b]) index =
      presentPoints anchor size rest index ++ [a, b] := by
  have hfilter : (rest ++ [a, b]).filter (fun point => IsPresent anchor size index point) =
      rest.filter (fun point => IsPresent anchor size index point) ++ [a, b] := by
    simp [ha, hb]
  rw [presentPoints, presentPoints, hfilter, inOrder, sortedBy_append, ← inOrder, ← inOrder,
    inOrder_pair htime]
  intro r hr c hc
  obtain ⟨hmem, hr⟩ := List.mem_filter.1 hr
  have hle := hgreatest r hmem (of_decide_eq_true hr)
  simp only [List.mem_cons, List.not_mem_nil, or_false] at hc
  rcases hc with rfl | rfl
  · exact hle
  · rwa [← htime]

/-- **Where the order does not matter**, values that compete are equal: otherwise the two orders
in which they change places have different trends. -/
theorem value_eq_of_compete {series : Series} {windows : List TimeWindow}
    (hwindows : ∀ points' : List TimePoint, points'.Perm points →
      windowsOf series anchor size points' = .ok windows)
    {p q : TimePoint} (hp : p ∈ points) (hq : q ∈ points)
    (hcompete : Compete anchor size points p q) : p.value = q.value := by
  by_contra hne
  obtain ⟨hpvalue, hqvalue, htime, hplace⟩ := hcompete
  have hpq : q ≠ p := fun heq => hne (by rw [heq])
  obtain ⟨rest, hperm⟩ : ∃ rest, points.Perm (p :: q :: rest) :=
    ⟨_, (List.perm_cons_erase hp).trans
      ((List.perm_cons_erase ((List.mem_erase_of_ne hpq).2 hq)).cons p)⟩
  have hppresent : IsPresent anchor size (windowIndex anchor size p) p :=
    ⟨rfl, Option.isSome_iff_ne_none.2 hpvalue⟩
  have hqpresent : IsPresent anchor size (windowIndex anchor size p) q :=
    ⟨by rw [windowIndex, windowIndex, htime], Option.isSome_iff_ne_none.2 hqvalue⟩
  have hrest : ∀ r ∈ rest, r ∈ points := fun r hr => hperm.mem_iff.2 (by simp [hr])
  -- all orders have the same trend in this window
  have hsame : ∀ l, l.Perm points → trendOf ((presentPoints anchor size l
      (windowIndex anchor size p)).map fun r => r.value.getD 0) =
      trendOf (presentValues (bucketOf anchor size points (windowIndex anchor size p))) := by
    intro l hl
    rw [← presentValues_bucketOf]
    exact trendOf_congr_of_windowsOf hl
      ((mem_keysOf (windowIndex anchor size)).2 ⟨p, hp, rfl⟩) (hwindows points .rfl)
      (hwindows l hl)
  have hvalues : p.value.getD 0 = q.value.getD 0 := by
    rcases hplace with hleast | hgreatest
    · have hleast' : ∀ r ∈ rest, IsPresent anchor size (windowIndex anchor size p) r →
          p.observedAt.micros ≤ r.observedAt.micros := fun r hr hpresent =>
        hleast r (hrest r hr) (Option.isSome_iff_ne_none.1 hpresent.2) hpresent.1
      have hpFirst := hsame _ hperm.symm
      have hqFirst := hsame _ ((List.Perm.swap p q rest).trans hperm.symm)
      rw [presentPoints_first hppresent hqpresent htime hleast'] at hpFirst
      rw [presentPoints_first hqpresent hppresent htime.symm (htime ▸ hleast')] at hqFirst
      exact eq_of_trendOf_swap_first (hpFirst.trans hqFirst.symm)
    · have hgreatest' : ∀ r ∈ rest, IsPresent anchor size (windowIndex anchor size p) r →
          r.observedAt.micros ≤ p.observedAt.micros := fun r hr hpresent =>
        hgreatest r (hrest r hr) (Option.isSome_iff_ne_none.1 hpresent.2) hpresent.1
      have hlast : (rest ++ [p, q]).Perm points := List.perm_append_comm.trans hperm.symm
      have hqLast := hsame _ hlast
      have hpLast := hsame _ (((List.Perm.swap p q []).append_left rest).trans hlast)
      rw [presentPoints_last hppresent hqpresent htime hgreatest', List.map_append] at hqLast
      rw [presentPoints_last hqpresent hppresent htime.symm (htime ▸ hgreatest'), List.map_append]
        at hpLast
      exact eq_of_trendOf_swap_last (hqLast.trans hpLast.symm)
  obtain ⟨v, hv⟩ := Option.ne_none_iff_exists'.1 hpvalue
  obtain ⟨w, hw⟩ := Option.ne_none_iff_exists'.1 hqvalue
  rw [hv, hw] at hvalues hne
  exact hne (congrArg some hvalues)

end Order

/-! ## Within the limit -/

namespace TemporalSample

def series : Series where
  tenantId := ⟨"tenant-a", by decide⟩
  knowledgeBaseId := ⟨"kb-a", by decide⟩
  seriesId := ⟨"train-1", by decide⟩
  originalTimezone := ⟨"Asia/Shanghai", by decide⟩

/-- A value, some seconds after the beginning. -/
def point (seconds : Fin 60) (value : ℚ) : TimePoint :=
  ⟨⟨seconds * 1000000, by have := seconds.isLt; rw [latestMicros]; omega⟩, some value⟩

end TemporalSample

end Advanced
end Knowledge
end RagflowAgent

import HomeStack.Lib.ByteSplit
import HomeStack.Lib.Chars
import HomeStack.Lib.Checked
import HomeStack.Lib.Decimal

/-! The time ranges of the usage dashboard: how a client's range is read (`Selection::validate`),
and which windows a snapshot derives from it (`Dashboard::snapshot`, `normalize`). All times are
`u64` seconds; an operation that leaves the range is `none`. -/

namespace HomeStack.UsageWindows

open Checked

abbrev day : Nat := 86400

/-! ## The selection -/

structure Selection where
  agent : Text
  host : Text
  project : Text
  range : Text

inductive Timing
  | fixed (seconds step : Nat)
  | all
  | custom (start stop : Nat)
  deriving DecidableEq

def customPrefix : Text := "custom:"

/-- The parts of a custom range, read. -/
def customTiming (parts : List Text) : Option (Except Text Timing) :=
  match (parts[0]?).bind (Text.parseNat (2 ^ 64)) with
  | none => some (.error "Invalid custom range")
  | some start =>
    match (parts[1]?).bind (Text.parseNat (2 ^ 64)) with
    | none => some (.error "Invalid custom range")
    | some stop =>
      if parts[2]?.isSome then some (.error "Custom range must span one hour to 600 days")
      else do
        let first ← add start 3600
        if stop < first then some (.error "Custom range must span one hour to 600 days")
        else
          let span ← sub stop start
          if span > 600 * day then some (.error "Custom range must span one hour to 600 days")
          else some (.ok (.custom start stop))

/-- The lengths and the buckets of the named ranges. -/
def fixedTimings : List (Text × Nat × Nat) :=
  [("1h", 3600, 60), ("24h", day, 1800), ("7d", 7 * day, 10800),
    ("30d", 30 * day, 43200), ("90d", 90 * day, day),
    ("180d", 180 * day, 3 * day), ("1y", 365 * day, 7 * day)]

def timing (range : Text) : Option (Except Text Timing) :=
  match fixedTimings.lookup range with
  | some (seconds, step) => some (.ok (.fixed seconds step))
  | none =>
    if range = "all" then some (.ok .all)
    else
      match customPrefix.isPrefixOf? range with
      | none => some (.error "Unknown time range")
      | some rest => customTiming (rest.splitOn ':')

def agents : List Text := ["all", "claude", "codex", "antigravity"]

/-- A host or project of at most 160 bytes, without control characters. -/
def validLabel (value : Text) : Bool := Text.byteLength value ≤ 160 && !value.any Text.isControl

def validate (selection : Selection) : Option (Except Text Unit) :=
  if selection.agent ∉ agents then some (.error "Unknown agent")
  else
    match timing selection.range with
    | none => none
    | some (.error error) => some (.error error)
    | some (.ok _) =>
      if validLabel selection.host && validLabel selection.project then some (.ok ())
      else some (.error "Invalid scope label")

/-! ## The windows -/

def customSteps : List Nat := [1800, 3600, 10800, 21600, 43200, day, 3 * day, 7 * day, 14 * day, 30 * day]

def customStep (span : Nat) : Nat := (customSteps.find? fun s => span / s ≤ 80).getD (91 * day)

def allSteps : List Nat := [day, 7 * day, 14 * day, 30 * day, 91 * day]

def allStep (span : Nat) : Nat := (allSteps.find? fun s => span / s ≤ 80).getD (91 * day)

def allTiming (span : Nat) : Option (Nat × Nat) := do
  let step := allStep span
  let buckets ← add ((span + step - 1) / step) 1
  some (← mul buckets step, step)

structure TimeRange where
  start : Nat
  stop : Nat
  step : Nat
  partialStart : Nat
  deriving DecidableEq

/-- The times that a snapshot derives. -/
structure Windows where
  names : Nat
  /-- The days that are searched for the first sample, and how far the aggregates must reach back to it. -/
  firstSample : Nat × Nat
  complete : Nat
  main : Nat
  hourly : Nat
  daily : Nat
  range : TimeRange
  previous : Option TimeRange
  activity : TimeRange
  spikes : Nat
  deriving DecidableEq

/-- The days in which `first_sample` looks. -/
def firstSampleDays (timestamp : Nat) : Option (Nat × Nat) := do
  some (← sub (timestamp / day * day) (599 * day), ← add (timestamp / day * day) day)

/-- The end of the selected span, its length and the bucket. -/
def planned (chosen : Timing) (current first : Nat) : Option (Nat × Nat × Nat) :=
  match chosen with
  | .fixed seconds step => some (current, seconds, step)
  | .all => do
    let _ ← firstSampleDays current
    let (seconds, step) ← allTiming (current - first)
    some (current, seconds, step)
  | .custom start stop => do
    let timestamp := min stop current
    let step := customStep (← sub stop start)
    some (timestamp, max (timestamp / step * step - start / step * step) step, step)

/-- The main block also covers the previous period of the same length. -/
def mainStart (all : Bool) (boundary seconds : Nat) : Option Nat :=
  if all then sub boundary seconds else do sub boundary (← mul 2 seconds)

def mainRange (boundary seconds step : Nat) : Option TimeRange := do
  some ⟨← sub boundary seconds, ← add boundary step, step, boundary⟩

def previousRange (all : Bool) (boundary seconds step : Nat) : Option (Option TimeRange) :=
  if all then some none
  else do some (some ⟨← sub boundary (← mul 2 seconds), ← sub boundary seconds, step, ← sub boundary seconds⟩)

/-- The days of the range in `normalize`. -/
def rangeDays (range : TimeRange) : Option Nat :=
  do some ((← sub (← sub range.stop range.step) range.start) / day)

def activityRange (timestamp days : Nat) : Option TimeRange := do
  let hour := timestamp / 3600 * 3600
  some ⟨← sub hour (← mul (min (max 7 days) 30) day), ← add hour 3600, 3600, hour⟩

/-- The first of the days in which spikes are looked for; `i` is 0 there. -/
def spikesStart (timestamp days : Nat) : Option Nat :=
  do sub (timestamp / day * day) (← mul (← add (max days 7) 7) day)

/-- The windows of `snapshot`, and from its range those of `normalize`. -/
def windows (all : Bool) (timestamp first seconds step : Nat) : Option Windows := do
  let boundary := timestamp / step * step
  let names ← add (timestamp / 3600 * 3600) 3600
  let firstSample ← firstSampleDays timestamp
  let complete ← add first day
  let days := max (seconds / day) 7
  let main ← mainStart all boundary seconds
  let hourly ← sub (timestamp / 3600 * 3600) (← mul (min days 30) day)
  let daily ← sub (timestamp / day * day) (← mul (← add days 7) day)
  let range ← mainRange boundary seconds step
  let previous ← previousRange all boundary seconds step
  let days ← rangeDays range
  let activity ← activityRange timestamp days
  let spikes ← spikesStart timestamp days
  some ⟨names, firstSample, complete, main, hourly, daily, range, previous, activity, spikes⟩

/-- The first second of what was asked for. -/
def requested (chosen : Timing) (current first : Nat) : Nat :=
  match chosen with
  | .fixed seconds _ => current - seconds
  | .all => first
  | .custom start _ => start

/-- Everything a snapshot of the selection derives. -/
def snapshotWindows (chosen : Timing) (current first : Nat) : Option (Nat × Windows) := do
  let (timestamp, seconds, step) ← planned chosen current first
  some (timestamp, ← windows (decide (chosen = .all)) timestamp first seconds step)

/-- The main window starts and ends at multiples of its step, has 1 to 93 buckets, and what was asked
for is in it; the previous period is as long and ends where it starts. -/
structure WellFormed (chosen : Timing) (current first timestamp : Nat) (w : Windows) : Prop where
  aligned : w.range.step ∣ w.range.start ∧ w.range.step ∣ w.range.partialStart ∧ w.range.step ∣ w.range.stop
  buckets : ∃ n, 1 ≤ n ∧ n ≤ 93 ∧ w.range.stop = w.range.start + n * w.range.step
  contains : ∀ t, requested chosen current first ≤ t → t ≤ timestamp → w.range.start ≤ t ∧ t < w.range.stop
  previous : ∀ p, w.previous = some p →
    p.stop = w.range.start ∧ p.stop - p.start = w.range.partialStart - w.range.start ∧ p.step = w.range.step

/-- No operation of the snapshot leaves `u64`, and its windows are well formed. -/
def Shown (chosen : Timing) (current first : Nat) : Prop :=
  ∃ timestamp w, snapshotWindows chosen current first = some (timestamp, w) ∧
    WellFormed chosen current first timestamp w

/-- The selection is read without an overflow, and accepted it gives well-formed windows. -/
def Good (selection : Selection) (current first : Nat) : Prop :=
  ∃ result, validate selection = some result ∧
    (result = .ok () → ∃ chosen, timing selection.range = some (.ok chosen) ∧ Shown chosen current first)

/-! ## Buckets -/

/-- The smallest of the steps that gives at most 80 points, or 91 days where none does. -/
def Bucket (steps : List Nat) (span step : Nat) : Prop :=
  (step ∈ steps ∧ span / step ≤ 80 ∧ ∀ s ∈ steps, s < step → 80 < span / s) ∨
    (step = 91 * day ∧ ∀ s ∈ steps, 80 < span / s)

theorem bucket_find {steps : List Nat} (hsorted : steps.Pairwise (· < ·)) (span step : Nat) :
    Bucket steps span step ↔ (steps.find? fun s => span / s ≤ 80).getD (91 * day) = step := by
  cases h : steps.find? fun s => span / s ≤ 80 with
  | none =>
    have hnone : ∀ s ∈ steps, 80 < span / s := fun s hs => by simpa using List.find?_eq_none.mp h s hs
    constructor
    · rintro (⟨hmem, hle, -⟩ | ⟨rfl, -⟩)
      · exact absurd (hnone step hmem) (not_lt.mpr hle)
      · rfl
    · intro heq
      exact Or.inr ⟨heq.symm, hnone⟩
  | some s =>
    obtain ⟨hle, before, after, rfl, hbefore⟩ := List.find?_eq_some_iff_append.mp h
    have hle : span / s ≤ 80 := of_decide_eq_true hle
    have hbefore : ∀ s' ∈ before, 80 < span / s' := fun s' hs' => by simpa using hbefore s' hs'
    obtain ⟨-, hafter, hapart⟩ := List.pairwise_append.mp hsorted
    have hafter := (List.pairwise_cons.mp hafter).1
    constructor
    · rintro (⟨hmem, hle', hsmall⟩ | ⟨-, hall⟩)
      · rcases List.mem_append.mp hmem with hin | hin
        · exact absurd (hbefore step hin) (not_lt.mpr hle')
        · rcases List.mem_cons.mp hin with rfl | hin
          · rfl
          · exact absurd (hsmall s (by simp) (hafter step hin)) (not_lt.mpr hle)
      · exact absurd (hall s (by simp)) (not_lt.mpr hle)
    · rintro rfl
      refine Or.inl ⟨by simp, hle, fun s' hs' hlt => ?_⟩
      rcases List.mem_append.mp hs' with hin | hin
      · exact hbefore s' hin
      · rcases List.mem_cons.mp hin with rfl | hin
        · exact absurd hlt (lt_irrefl _)
        · exact absurd (hafter s' hin) (not_lt.mpr hlt.le)

theorem allStep_iff {span step : Nat} : Bucket allSteps span step ↔ allStep span = step :=
  bucket_find (by decide) span step

theorem customStep_iff {span step : Nat} : Bucket customSteps span step ↔ customStep span = step :=
  bucket_find (by decide) span step

/-- A custom span of at most 600 days has at most 80 points. -/
theorem customStep_points {span : Nat} (h : span ≤ 600 * day) :
    customStep span ∈ customSteps ∧ span / customStep span ≤ 80 := by
  rcases customStep_iff.2 rfl with ⟨hmem, hle, -⟩ | ⟨-, hall⟩
  · exact ⟨hmem, hle⟩
  · have hlast := hall (14 * day) (by decide)
    simp only [day] at h hlast
    omega

/-! ## The windows of a snapshot -/

/-- The main block, the daily one and the search for the first sample start after the epoch. -/
def WindowsFit (all : Bool) (timestamp seconds step : Nat) : Prop :=
  (if all then seconds else 2 * seconds) ≤ timestamp / step * step ∧
    (max (seconds / day) 7 + 7) * day ≤ timestamp ∧
    599 * day ≤ timestamp

/-- The range of the windows, and the previous one. -/
structure Spans (all : Bool) (timestamp seconds step : Nat) (w : Windows) : Prop where
  range : w.range = ⟨timestamp / step * step - seconds, timestamp / step * step + step, step,
    timestamp / step * step⟩
  previous : w.previous = if all then none
    else some ⟨timestamp / step * step - 2 * seconds, timestamp / step * step - seconds, step,
      timestamp / step * step - seconds⟩

theorem windows_spans {all : Bool} {timestamp first seconds step : Nat} {w : Windows}
    (h : windows all timestamp first seconds step = some w) :
    WindowsFit all timestamp seconds step ∧ Spans all timestamp seconds step w := by
  unfold windows at h
  dsimp only [Option.bind_eq_bind] at h
  obtain ⟨names, hnames, h⟩ := Option.bind_eq_some_iff.1 h
  obtain ⟨firstSample, hfirstSample, h⟩ := Option.bind_eq_some_iff.1 h
  obtain ⟨complete, hcomplete, h⟩ := Option.bind_eq_some_iff.1 h
  obtain ⟨main, hmain, h⟩ := Option.bind_eq_some_iff.1 h
  obtain ⟨minutes, hminutes, h⟩ := Option.bind_eq_some_iff.1 h
  obtain ⟨hourly, hhourly, h⟩ := Option.bind_eq_some_iff.1 h
  obtain ⟨more, hmore, h⟩ := Option.bind_eq_some_iff.1 h
  obtain ⟨total, htotal, h⟩ := Option.bind_eq_some_iff.1 h
  obtain ⟨daily, hdaily, h⟩ := Option.bind_eq_some_iff.1 h
  obtain ⟨range, hrange, h⟩ := Option.bind_eq_some_iff.1 h
  obtain ⟨previous, hprevious, h⟩ := Option.bind_eq_some_iff.1 h
  obtain ⟨days, hdays, h⟩ := Option.bind_eq_some_iff.1 h
  obtain ⟨activity, hactivity, h⟩ := Option.bind_eq_some_iff.1 h
  obtain ⟨spikes, hspikes, h⟩ := Option.bind_eq_some_iff.1 h
  cases h
  simp only [mainRange, Option.bind_eq_bind, Option.bind_eq_some_iff, sub_eq_some, add_eq_some,
    Option.some.injEq] at hrange
  obtain ⟨start, ⟨hseconds, rfl⟩, stop, ⟨hstop, rfl⟩, rfl⟩ := hrange
  rw [add_eq_some] at hmore
  rw [mul_eq_some] at htotal
  rw [sub_eq_some] at hdaily
  obtain ⟨-, rfl⟩ := hmore
  obtain ⟨-, rfl⟩ := htotal
  simp only [firstSampleDays, Option.bind_eq_bind, Option.bind_eq_some_iff, sub_eq_some] at hfirstSample
  obtain ⟨_, ⟨hsearched, -⟩, -⟩ := hfirstSample
  have hday : (max (seconds / day) 7 + 7) * day ≤ timestamp ∧ 599 * day ≤ timestamp :=
    ⟨hdaily.1.trans (Nat.div_mul_le_self _ _), hsearched.trans (Nat.div_mul_le_self _ _)⟩
  cases all with
  | true =>
    cases hprevious
    exact ⟨⟨hseconds, hday⟩, rfl, rfl⟩
  | false =>
    simp only [mainStart, Bool.false_eq_true, ↓reduceIte, Option.bind_eq_bind, Option.bind_eq_some_iff,
      mul_eq_some, sub_eq_some] at hmain
    simp only [previousRange, Bool.false_eq_true, ↓reduceIte, Option.bind_eq_bind, Option.bind_eq_some_iff,
      mul_eq_some, sub_eq_some,
      Option.some.injEq] at hprevious
    obtain ⟨_, ⟨-, rfl⟩, hdouble, -⟩ := hmain
    obtain ⟨_, ⟨-, rfl⟩, _, ⟨-, rfl⟩, _, ⟨-, rfl⟩, _, ⟨-, rfl⟩, rfl⟩ := hprevious
    exact ⟨⟨hdouble, hday⟩, rfl, rfl⟩

theorem add_of_lt {a b : Nat} (h : a + b < 2 ^ 64) : add a b = some (a + b) := if_pos h

theorem sub_of_le {a b : Nat} (h : b ≤ a) : sub a b = some (a - b) := if_pos h

theorem mul_of_lt {a b : Nat} (h : a * b < 2 ^ 64) : mul a b = some (a * b) := if_pos h

theorem lt_word {a t : Nat} (h : a ≤ t) (ht : t < 2 ^ 40) : a < 2 ^ 64 := by omega

/-- A multiple of the step is not cut by aligning. -/
theorem le_aligned {c a t : Nat} (hdvd : c ∣ a) (h : a ≤ t) : a ≤ t / c * c := by
  rw [← Nat.div_mul_cancel hdvd]
  exact Nat.mul_le_mul_right c (Nat.div_le_div_right h)

theorem mainStart_of {all : Bool} {boundary seconds : Nat} (hboundary : boundary < 2 ^ 40)
    (h : (if all then seconds else 2 * seconds) ≤ boundary) : ∃ start,
      mainStart all boundary seconds = some start := by
  cases all with
  | true => exact ⟨_, sub_of_le h⟩
  | false =>
    have h : 2 * seconds ≤ boundary := h
    refine ⟨boundary - 2 * seconds, ?_⟩
    simp only [mainStart, Bool.false_eq_true, ↓reduceIte, mul_of_lt (h.trans_lt (by omega)),
      sub_of_le h, Option.bind_eq_bind,
      Option.bind_some]

theorem mainRange_of {boundary seconds step : Nat} (hboundary : boundary < 2 ^ 40) (hstep : step < 2 ^ 40)
    (h : seconds ≤ boundary) :
    mainRange boundary seconds step = some ⟨boundary - seconds, boundary + step, step, boundary⟩ := by
  simp only [mainRange, sub_of_le h, add_of_lt (show boundary + step < 2 ^ 64 by omega),
    Option.bind_eq_bind, Option.bind_some]

theorem previousRange_of {all : Bool} {boundary seconds step : Nat} (hboundary : boundary < 2 ^ 40)
    (h : (if all then seconds else 2 * seconds) ≤ boundary) : ∃ previous,
      previousRange all boundary seconds step = some previous := by
  cases all with
  | true => exact ⟨none, rfl⟩
  | false =>
    have h : 2 * seconds ≤ boundary := h
    refine ⟨some ⟨boundary - 2 * seconds, boundary - seconds, step, boundary - seconds⟩, ?_⟩
    simp only [previousRange, Bool.false_eq_true, ↓reduceIte, mul_of_lt (h.trans_lt (by omega)), sub_of_le h,
      sub_of_le (show seconds ≤ boundary by omega), Option.bind_eq_bind, Option.bind_some]

theorem rangeDays_of {boundary seconds step : Nat} (h : seconds ≤ boundary) :
    rangeDays ⟨boundary - seconds, boundary + step, step, boundary⟩ = some (seconds / day) := by
  simp only [rangeDays, sub_of_le (Nat.le_add_left step boundary), Nat.add_sub_cancel,
    sub_of_le (Nat.sub_le boundary seconds),
    Nat.sub_sub_self h, Option.bind_eq_bind, Option.bind_some]

theorem activityRange_of {timestamp days : Nat} (htime : timestamp < 2 ^ 40)
    (h : max days 7 * day ≤ timestamp) :
    ∃ activity, activityRange timestamp days = some activity := by
  have hle : min (max 7 days) 30 * day ≤ timestamp := (Nat.mul_le_mul_right day (by omega)).trans h
  have hhour : min (max 7 days) 30 * day ≤ timestamp / 3600 * 3600 :=
    le_aligned (dvd_mul_of_dvd_right (by decide) _) hle
  refine ⟨⟨timestamp / 3600 * 3600 - min (max 7 days) 30 * day, timestamp / 3600 * 3600 + 3600, 3600,
    timestamp / 3600 * 3600⟩, ?_⟩
  rw [activityRange, mul_of_lt (lt_word hle htime), Option.bind_eq_bind, Option.bind_some,
    sub_of_le hhour, Option.bind_some,
    add_of_lt (show timestamp / 3600 * 3600 + 3600 < 2 ^ 64 by omega), Option.bind_some]

theorem spikesStart_of {timestamp days : Nat} (htime : timestamp < 2 ^ 40)
    (h : (max days 7 + 7) * day ≤ timestamp) :
    ∃ start, spikesStart timestamp days = some start := by
  have hlast : (max days 7 + 7) * day ≤ timestamp / day * day := le_aligned (Nat.dvd_mul_left day _) h
  have hdays : max days 7 + 7 < 2 ^ 64 := by
    simp only [day] at h
    omega
  refine ⟨timestamp / day * day - (max days 7 + 7) * day, ?_⟩
  rw [spikesStart, add_of_lt hdays, Option.bind_eq_bind, Option.bind_some, mul_of_lt (lt_word h htime),
    Option.bind_some, sub_of_le hlast]

theorem firstSampleDays_of {timestamp : Nat} (htime : timestamp < 2 ^ 40) (h : 599 * day ≤ timestamp) :
    firstSampleDays timestamp = some (timestamp / day * day - 599 * day, timestamp / day * day + day) := by
  have hbound := Nat.div_mul_le_self timestamp day
  have hday : day < 2 ^ 40 := by decide
  rw [firstSampleDays, sub_of_le (le_aligned (Nat.dvd_mul_left day _) h),
    Option.bind_eq_bind, Option.bind_some,
    add_of_lt (show timestamp / day * day + day < 2 ^ 64 by omega), Option.bind_some]

theorem windows_of_fit {all : Bool} {timestamp first seconds step : Nat} (htime : timestamp < 2 ^ 40)
    (hfirst : first < 2 ^ 40) (hstep : step < 2 ^ 40) (hfit : WindowsFit all timestamp seconds step) :
    ∃ w, windows all timestamp first seconds step = some w := by
  obtain ⟨hmain, hdaily, hsearched⟩ := hfit
  have hcomplete : first + day < 2 ^ 64 := by
    have hday : day < 2 ^ 40 := by decide
    omega
  have hboundary : timestamp / step * step < 2 ^ 40 := (Nat.div_mul_le_self _ _).trans_lt htime
  unfold windows
  dsimp only [Option.bind_eq_bind]
  generalize timestamp / step * step = boundary at *
  have hseconds : seconds ≤ boundary := by
    cases all <;> simp only [Bool.false_eq_true, ↓reduceIte] at hmain <;> omega
  have hweek : max (seconds / day) 7 * day ≤ timestamp := (Nat.mul_le_mul_right day (by omega)).trans hdaily
  have hdays : min (max (seconds / day) 7) 30 * day ≤ timestamp :=
    (Nat.mul_le_mul_right day (by omega)).trans hweek
  obtain ⟨main, hmainStart⟩ := mainStart_of hboundary hmain
  obtain ⟨previous, hprevious⟩ : ∃ previous, previousRange all boundary seconds step = some previous :=
    previousRange_of hboundary hmain
  obtain ⟨activity, hactivity⟩ := activityRange_of htime hweek
  obtain ⟨spikes, hspikes⟩ := spikesStart_of htime hdaily
  have hmore : max (seconds / day) 7 + 7 < 2 ^ 64 := by
    simp only [day] at hdaily ⊢
    omega
  have hhour : min (max (seconds / day) 7) 30 * day ≤ timestamp / 3600 * 3600 :=
    le_aligned (dvd_mul_of_dvd_right (show 3600 ∣ day by decide) _) hdays
  have hlast : (max (seconds / day) 7 + 7) * day ≤ timestamp / day * day :=
    le_aligned (Nat.dvd_mul_left day _) hdaily
  rw [add_of_lt (show timestamp / 3600 * 3600 + 3600 < 2 ^ 64 by omega), Option.bind_some,
    firstSampleDays_of htime hsearched,
    Option.bind_some, add_of_lt hcomplete, Option.bind_some, hmainStart, Option.bind_some,
    mul_of_lt (lt_word hdays htime), Option.bind_some, sub_of_le hhour, Option.bind_some,
      add_of_lt hmore, Option.bind_some,
    mul_of_lt (lt_word hdaily htime), Option.bind_some, sub_of_le hlast, Option.bind_some,
      mainRange_of hboundary hstep hseconds,
    Option.bind_some, hprevious, Option.bind_some, rangeDays_of hseconds, Option.bind_some, hactivity,
      Option.bind_some, hspikes,
    Option.bind_some]
  exact ⟨_, rfl⟩

/-! ## Which selections are read -/

/-- The text is a custom range of two numbers. -/
def Custom (range : Text) (start stop : Nat) : Prop :=
  ∃ a b, range = customPrefix ++ a ++ ':' :: b ∧ Text.parseNat (2 ^ 64) a = some start ∧
    Text.parseNat (2 ^ 64) b = some stop

theorem colon_not_mem {bound n : Nat} {t : Text} (h : Text.parseNat bound t = some n) : ':' ∉ t :=
  fun hmem => absurd (Text.digits_of_parseNat h ':' hmem) (by decide)

/-- The parts of a custom range. -/
theorem custom_iff {range : Text} {start stop : Nat} :
    Custom range start stop ↔ ∃ rest a b, customPrefix.isPrefixOf? range = some rest ∧
      rest.splitOn ':' = [a, b] ∧
      Text.parseNat (2 ^ 64) a = some start ∧ Text.parseNat (2 ^ 64) b = some stop := by
  constructor
  · rintro ⟨a, b, rfl, ha, hb⟩
    refine ⟨a ++ ':' :: b, a, b, ?_, ?_, ha, hb⟩
    · rw [List.append_assoc, Text.isPrefixOf?_append]
    · rw [List.splitOn_append_cons_self_of_not_mem (colon_not_mem ha),
        List.splitOn_eq_singleton (colon_not_mem hb)]
  · rintro ⟨rest, a, b, hrest, hsplit, ha, hb⟩
    have hjoin : List.intercalate [':'] (rest.splitOn ':') = rest := List.intercalate_splitOn ':'
    rw [hsplit] at hjoin
    refine ⟨a, b, ?_, ha, hb⟩
    rw [Text.isPrefixOf?_some hrest, ← hjoin, List.append_assoc]
    simp [List.intercalate]

/-- Two numbers, the second an hour to 600 days after the first, are a custom range. -/
theorem customTiming_two {a b : Text} {start stop : Nat} (ha : Text.parseNat (2 ^ 64) a = some start)
    (hb : Text.parseNat (2 ^ 64) b = some stop) :
    customTiming [a, b] =
      if start + 3600 < 2 ^ 64 then
        some (if start + 3600 ≤ stop ∧ stop - start ≤ 600 * day then .ok (.custom start stop)
          else .error "Custom range must span one hour to 600 days")
      else none := by
  unfold customTiming
  simp only [List.getElem?_cons_zero, List.getElem?_cons_succ, List.getElem?_nil, Option.bind_some,
    ha, hb, Option.isSome_none,
    Bool.false_eq_true, ↓reduceIte, Option.bind_eq_bind]
  split
  · rename_i hlt
    rw [add_of_lt hlt, Option.bind_some]
    by_cases hle : start + 3600 ≤ stop
    · rw [if_neg (not_lt.mpr hle), sub_of_le (show start ≤ stop by omega), Option.bind_some]
      by_cases hspan : stop - start ≤ 600 * day
      · rw [if_neg (not_lt.mpr hspan), if_pos ⟨hle, hspan⟩]
      · rw [if_pos (not_le.mp hspan), if_neg (fun h => hspan h.2)]
    · rw [if_pos (not_le.mp hle), if_neg (fun h => hle h.1)]
  · rename_i hge
    rw [add, if_neg hge, Option.bind_none]

/-- Other parts are refused. -/
theorem customTiming_other {parts : List Text}
    (h : ∀ a b start stop, parts = [a, b] → Text.parseNat (2 ^ 64) a = some start →
      Text.parseNat (2 ^ 64) b ≠ some stop) :
    ∃ error, customTiming parts = some (.error error) := by
  unfold customTiming
  split
  · exact ⟨_, rfl⟩
  · rename_i start hstart
    split
    · exact ⟨_, rfl⟩
    · rename_i stop hstop
      split
      · exact ⟨_, rfl⟩
      · rename_i hmore
        exfalso
        rcases parts with _ | ⟨a, _ | ⟨b, _ | ⟨c, rest⟩⟩⟩
        · cases hstart
        · cases hstop
        · exact h a b start stop rfl hstart hstop
        · exact hmore rfl

/-- A named range, all the history or a custom range. -/
inductive Reads (range : Text) : Timing → Prop
  | fixed (seconds step : Nat) (h : (range, seconds, step) ∈ fixedTimings) : Reads range (.fixed seconds step)
  | all (h : range = "all".toList) : Reads range .all
  | custom (start stop : Nat) (h : Custom range start stop) (hle : start + 3600 ≤ stop)
    (hspan : stop - start ≤ 600 * day) :
    Reads range (.custom start stop)

/-- The start of a custom range is an hour below `u64::MAX`. -/
def InRange (range : Text) : Prop := ∀ start stop, Custom range start stop → start + 3600 < 2 ^ 64

theorem fixedTimings_keys :
    ∀ e ∈ fixedTimings, fixedTimings.lookup e.1 = some e.2 ∧ e.1 ≠ "all" ∧
    customPrefix.isPrefixOf? e.1 = none := by
  decide

theorem lookup_fixed {range : Text} {seconds step : Nat} :
    fixedTimings.lookup range = some (seconds, step) ↔ (range, seconds, step) ∈ fixedTimings := by
  constructor
  · intro h
    obtain ⟨before, after, heq, -⟩ := List.lookup_eq_some_iff.mp h
    rw [heq]
    simp
  · intro h
    exact (fixedTimings_keys _ h).1

theorem timing_prefixed {range rest : Text} (h : customPrefix.isPrefixOf? range = some rest) :
    timing range = customTiming (rest.splitOn ':') := by
  unfold timing
  cases hlookup : fixedTimings.lookup range with
  | some e =>
    have hmem := (fixedTimings_keys _ (lookup_fixed.1 hlookup)).2.2
    rw [h] at hmem
    cases hmem
  | none =>
    have hall : range ≠ "all" := by
      rintro rfl
      exact absurd (h.symm.trans (by decide : customPrefix.isPrefixOf? "all".toList = none)) (by simp)
    simp only [if_neg hall, h]

/-- Without a custom range, what is read is named or refused. -/
theorem timing_not_prefixed {range : Text} (h : customPrefix.isPrefixOf? range = none) :
    (∃ chosen, timing range = some (.ok chosen) ∧ Reads range chosen) ∨
      ∃ error, timing range = some (.error error) ∧ ∀ chosen, ¬ Reads range chosen := by
  unfold timing
  cases hlookup : fixedTimings.lookup range with
  | some e => exact Or.inl ⟨_, rfl, .fixed _ _ (lookup_fixed.1 hlookup)⟩
  | none =>
    by_cases hall : range = "all"
    · exact Or.inl ⟨_, if_pos hall, .all hall⟩
    · refine Or.inr ⟨"Unknown time range", by simp only [if_neg hall, h], fun chosen hreads => ?_⟩
      cases hreads with
      | fixed seconds step hmem =>
        rw [lookup_fixed.2 hmem] at hlookup
        cases hlookup
      | all heq => exact hall heq
      | custom start stop hcustom =>
        obtain ⟨rest, a, b, hrest, -⟩ := custom_iff.1 hcustom
        rw [h] at hrest
        cases hrest

/-- A custom range has one start and one end. -/
theorem custom_unique {range : Text} {start stop start' stop' : Nat} (h : Custom range start stop)
    (h' : Custom range start' stop') :
    start = start' ∧ stop = stop' := by
  obtain ⟨rest, a, b, hrest, hsplit, ha, hb⟩ := custom_iff.1 h
  obtain ⟨rest', a', b', hrest', hsplit', ha', hb'⟩ := custom_iff.1 h'
  obtain rfl : rest = rest' := Option.some.inj (hrest.symm.trans hrest')
  rw [hsplit] at hsplit'
  cases hsplit'
  exact ⟨Option.some.inj (ha.symm.trans ha'), Option.some.inj (hb.symm.trans hb')⟩

theorem timing_of_custom {range : Text} {start stop : Nat} (h : Custom range start stop) :
    timing range =
      if start + 3600 < 2 ^ 64 then
        some (if start + 3600 ≤ stop ∧ stop - start ≤ 600 * day then .ok (.custom start stop)
          else .error "Custom range must span one hour to 600 days")
      else none := by
  obtain ⟨rest, a, b, hrest, hsplit, ha, hb⟩ := custom_iff.1 h
  rw [timing_prefixed hrest, hsplit, customTiming_two ha hb]

/-- What a custom range is read as. -/
theorem reads_custom_iff {range : Text} {start stop : Nat} (h : Custom range start stop) {chosen : Timing} :
    Reads range chosen ↔ start + 3600 ≤ stop ∧ stop - start ≤ 600 * day ∧ chosen = .custom start stop := by
  constructor
  · intro hreads
    obtain ⟨rest, a, b, hrest, -⟩ := custom_iff.1 h
    cases hreads with
    | fixed seconds step hmem =>
      rw [(fixedTimings_keys _ hmem).2.2] at hrest
      cases hrest
    | all heq =>
      subst heq
      exact absurd (hrest.symm.trans (by decide : customPrefix.isPrefixOf? "all".toList = none)) (by simp)
    | custom start' stop' hcustom hle hspan =>
      obtain ⟨rfl, rfl⟩ := custom_unique h hcustom
      exact ⟨hle, hspan, rfl⟩
  · rintro ⟨hle, hspan, rfl⟩
    exact .custom start stop h hle hspan

/-- A range is refused or read for what it is, without an overflow exactly when its start is in range. -/
theorem timing_cases (range : Text) :
    (timing range = none ∧ ¬ InRange range) ∨
      (InRange range ∧ ∃ error, timing range = some (.error error) ∧ ∀ chosen, ¬ Reads range chosen) ∨
      (InRange range ∧ ∃ chosen, timing range = some (.ok chosen) ∧ Reads range chosen) := by
  by_cases hcustom : ∃ start stop, Custom range start stop
  · obtain ⟨start, stop, hcustom⟩ := hcustom
    rw [timing_of_custom hcustom]
    by_cases hlt : start + 3600 < 2 ^ 64
    · have hrange : InRange range := fun start' stop' h => (custom_unique hcustom h).1 ▸ hlt
      rw [if_pos hlt]
      by_cases hok : start + 3600 ≤ stop ∧ stop - start ≤ 600 * day
      · rw [if_pos hok]
        exact Or.inr (Or.inr ⟨hrange, _, rfl, .custom start stop hcustom hok.1 hok.2⟩)
      · rw [if_neg hok]
        refine Or.inr (Or.inl ⟨hrange, _, rfl, fun chosen hreads => hok ?_⟩)
        have hreads := (reads_custom_iff hcustom).mp hreads
        exact ⟨hreads.1, hreads.2.1⟩
    · rw [if_neg hlt]
      exact Or.inl ⟨rfl, fun hrange => hlt (hrange start stop hcustom)⟩
  · have hrange : InRange range := fun start stop h => absurd ⟨start, stop, h⟩ hcustom
    cases hstarts : customPrefix.isPrefixOf? range with
    | none =>
      rcases timing_not_prefixed hstarts with h | h
      · exact Or.inr (Or.inr ⟨hrange, h⟩)
      · exact Or.inr (Or.inl ⟨hrange, h⟩)
    | some rest =>
      have hparts : ∀ a b start stop, rest.splitOn ':' = [a, b] → Text.parseNat (2 ^ 64) a = some start →
          Text.parseNat (2 ^ 64) b ≠ some stop :=
        fun a b start stop hsplit ha hb => hcustom ⟨start, stop,
          custom_iff.2 ⟨rest, a, b, hstarts, hsplit, ha, hb⟩⟩
      obtain ⟨error, herror⟩ := customTiming_other hparts
      refine Or.inr (Or.inl ⟨hrange, error, by rw [timing_prefixed hstarts, herror], fun chosen hreads => ?_⟩)
      cases hreads with
      | fixed seconds step hmem =>
        rw [(fixedTimings_keys _ hmem).2.2] at hstarts
        cases hstarts
      | all heq =>
        subst heq
        exact absurd (hstarts.symm.trans (by decide : customPrefix.isPrefixOf? "all".toList = none)) (by simp)
      | custom start stop h => exact hcustom ⟨start, stop, h⟩

theorem timing_of_reads {range : Text} {chosen : Timing} (hrange : InRange range) (h : Reads range chosen) :
    timing range = some (.ok chosen) := by
  cases h with
  | fixed seconds step hmem => simp only [timing, lookup_fixed.2 hmem]
  | all heq =>
    subst heq
    decide
  | custom start stop hcustom hle hspan => rw [timing_of_custom hcustom,
      if_pos (hrange start stop hcustom), if_pos ⟨hle, hspan⟩]

/-- A selection is good unless its start is out of range or its windows are not well formed. -/
theorem good_iff {selection : Selection} {current first : Nat} :
    Good selection current first ↔ (selection.agent ∈ agents → InRange selection.range ∧
      (validLabel selection.host = true → validLabel selection.project = true →
        ∀ chosen, Reads selection.range chosen → Shown chosen current first)) := by
  unfold Good validate
  by_cases hagent : selection.agent ∈ agents
  · rw [if_neg (not_not.mpr hagent)]
    rcases timing_cases selection.range with ⟨htiming, hout⟩ | ⟨hin, error, htiming, hnot⟩ | ⟨hin,
      chosen, htiming, hreads⟩
    · simp only [htiming, reduceCtorEq, false_and, exists_false, false_iff]
      exact fun h => hout (h hagent).1
    · simp only [htiming, Option.some.injEq, exists_eq_left', reduceCtorEq, false_implies, true_iff]
      exact fun _ => ⟨hin, fun _ _ chosen hreads => absurd hreads (hnot chosen)⟩
    · have hunique : ∀ other, Reads selection.range other → other = chosen := by
        intro other hother
        have heq := (timing_of_reads hin hother).symm.trans htiming
        cases heq
        rfl
      simp only [htiming, Option.some.injEq, Except.ok.injEq, exists_eq_left']
      by_cases hlabels : (validLabel selection.host && validLabel selection.project) = true
      · rw [if_pos hlabels]
        rw [Bool.and_eq_true] at hlabels
        constructor
        · rintro ⟨result, hresult, hshown⟩ -
          refine ⟨hin, fun _ _ other hother => ?_⟩
          rw [hunique other hother]
          exact hshown (Option.some.inj hresult).symm
        · intro h
          exact ⟨.ok (), rfl, fun _ => (h hagent).2 hlabels.1 hlabels.2 chosen hreads⟩
      · rw [if_neg hlabels]
        rw [Bool.and_eq_true] at hlabels
        constructor
        · rintro - -
          exact ⟨hin, fun hhost hproject => absurd ⟨hhost, hproject⟩ hlabels⟩
        · intro _
          exact ⟨_, rfl, nofun⟩
  · rw [if_pos hagent]
    exact iff_of_true ⟨_, rfl, nofun⟩ fun h => absurd h hagent

/-! ## Which windows are well formed -/

/-- What is shown of a planned length. -/
theorem shown_iff {chosen : Timing} {current first timestamp seconds step : Nat}
    (hplan : planned chosen current first = some (timestamp, seconds, step)) (htime : timestamp < 2 ^ 40)
    (hfirst : first < 2 ^ 40) (hpos : 0 < step) (hstep : step < 2 ^ 40) :
    Shown chosen current first ↔ WindowsFit (decide (chosen = .all)) timestamp seconds step ∧
      step ∣ seconds ∧ seconds / step ≤ 92 ∧
      ∀ t, requested chosen current first ≤ t → t ≤ timestamp → timestamp / step * step ≤ t + seconds := by
  have hdvd : step ∣ timestamp / step * step := Nat.dvd_mul_left _ _
  unfold Shown snapshotWindows
  simp only [hplan, Option.bind_eq_bind, Option.bind_some, Option.bind_eq_some_iff,
    Option.some.injEq, Prod.mk.injEq]
  constructor
  · rintro ⟨_, w, ⟨w', hw, rfl, rfl⟩, hformed⟩
    obtain ⟨hfit, hspans⟩ := windows_spans hw
    have hseconds : seconds ≤ timestamp / step * step := by
      have := hfit.1
      split at this <;> omega
    obtain ⟨n, -, hn, hcount⟩ := hformed.buckets
    have haligned := hformed.aligned.1
    have hcontains := hformed.contains
    rw [hspans.range] at hcount haligned hcontains
    have hdivides : step ∣ seconds := by
      have hsub := Nat.dvd_sub hdvd haligned
      rwa [Nat.sub_sub_self hseconds] at hsub
    refine ⟨hfit, hdivides, ?_, fun t ht hle => ?_⟩
    · obtain ⟨k, rfl⟩ := hdivides
      dsimp only at hcount
      rw [Nat.mul_div_cancel_left k hpos]
      have hmul : step * n = step * (k + 1) := by
        rw [Nat.mul_comm step n, Nat.mul_add]
        omega
      have := Nat.eq_of_mul_eq_mul_left hpos hmul
      omega
    · have := (hcontains t ht hle).1
      dsimp only at this
      omega
  · rintro ⟨hfit, hdivides, hcount, hcontains⟩
    obtain ⟨w, hw⟩ := windows_of_fit htime hfirst hstep hfit
    obtain ⟨-, hspans⟩ := windows_spans hw
    have hseconds : seconds ≤ timestamp / step * step := by
      have := hfit.1
      split at this <;> omega
    refine ⟨timestamp, w, ⟨w, hw, rfl, rfl⟩, ?_⟩
    obtain ⟨k, rfl⟩ := hdivides
    rw [Nat.mul_div_cancel_left k hpos] at hcount
    constructor
    · rw [hspans.range]
      exact ⟨Nat.dvd_sub hdvd (Nat.dvd_mul_right _ _), hdvd, Nat.dvd_add hdvd (Nat.dvd_refl _)⟩
    · refine ⟨k + 1, by omega, by omega, ?_⟩
      rw [hspans.range]
      dsimp only
      rw [Nat.add_mul, Nat.mul_comm k step]
      omega
    · intro t ht hle
      rw [hspans.range]
      have hmod := Nat.div_add_mod timestamp step
      have hlt := Nat.mod_lt timestamp hpos
      have := hcontains t ht hle
      dsimp only
      rw [Nat.mul_comm step] at hmod
      omega
    · intro p hp
      rw [hspans.previous] at hp
      split at hp
      · cases hp
      · cases hp
        rename_i hall
        have hdouble := hfit.1
        rw [if_neg hall] at hdouble
        rw [hspans.range]
        refine ⟨rfl, ?_, rfl⟩
        dsimp only
        omega

/-- From 1200 days on the two weeks of a short range are there. -/
theorem week_fit {q t : Nat} (hlow : 1200 * day ≤ t) : (max q 7 + 7) * day ≤ t ↔ q * day + 7 * day ≤ t := by
  simp only [day] at hlow ⊢
  rcases Nat.le_total q 7 with h | h
  · rw [max_eq_right h]
    omega
  · rw [max_eq_left h]
    omega

/-- Of the named lengths only the year is not a multiple of its bucket. -/
theorem fixedTimings_lengths :
    ∀ e ∈ fixedTimings, e.2.1 ≤ 365 * day ∧ 0 < e.2.2 ∧ e.2.2 ≤ 7 * day ∧ e.2.1 / e.2.2 ≤ 92 ∧
    (e.2.2 ∣ e.2.1 ↔ e.1 ≠ "1y") := by
  decide

/-- Aligning takes less than a step away. -/
theorem lt_aligned (t : Nat) {step : Nat} (hpos : 0 < step) : t < t / step * step + step := by
  have hmod := Nat.div_add_mod t step
  have hlt := Nat.mod_lt t hpos
  rw [Nat.mul_comm step] at hmod
  omega

theorem shown_fixed {range : Text} {seconds step current first : Nat}
    (hmem : (range, seconds, step) ∈ fixedTimings) (hlow : 1200 * day ≤ current) (hhigh : current < 2 ^ 40)
    (hfirst : first ≤ current) :
    Shown (.fixed seconds step) current first ↔ range ≠ "1y" := by
  obtain ⟨hseconds, hpos, hstep, hcount, hdvd⟩ := fixedTimings_lengths _ hmem
  dsimp only at hseconds hpos hstep hcount hdvd
  have hplan : planned (.fixed seconds step) current first = some (current, seconds, step) := rfl
  have halign := lt_aligned current hpos
  rw [shown_iff hplan hhigh (hfirst.trans_lt hhigh) hpos (hstep.trans_lt (by decide)), hdvd]
  refine ⟨fun h => h.2.1, fun h => ⟨⟨?_, ?_, le_trans (by decide) hlow⟩, h, hcount, fun t ht _ => ?_⟩⟩
  · show 2 * seconds ≤ current / step * step
    generalize current / step * step = boundary at *
    simp only [day] at hseconds hstep hlow
    omega
  · rw [week_fit hlow]
    calc seconds / day * day + 7 * day
      _ ≤ 365 * day + 7 * day := Nat.add_le_add_right ((Nat.div_mul_le_self seconds day).trans hseconds) _
      _ ≤ 1200 * day := by decide
      _ ≤ current := hlow
  · have hle := Nat.div_mul_le_self current step
    simp only [requested] at ht
    omega

/-- The length of all the history. -/
def allLength (span step : Nat) : Nat := ((span + step - 1) / step + 1) * step

theorem bucket_pos {span step : Nat} {steps : List Nat} (hpos : ∀ s ∈ steps, 0 < s ∧ s ≤ 91 * day)
    (h : Bucket steps span step) :
    0 < step ∧ step ≤ 91 * day := by
  rcases h with ⟨hmem, -⟩ | ⟨rfl, -⟩
  · exact hpos step hmem
  · exact ⟨by decide, le_refl _⟩

theorem allSteps_pos : ∀ s ∈ allSteps, 0 < s ∧ s ≤ 91 * day ∧ day ∣ s := by decide

theorem customSteps_pos : ∀ s ∈ customSteps, 0 < s ∧ s ≤ 91 * day := by decide

/-- The length of all the history is a multiple of the bucket, one to two buckets longer than the span. -/
theorem allLength_bounds (span : Nat) {step : Nat} (hpos : 0 < step) :
    step ∣ allLength span step ∧ span + step ≤ allLength span step ∧ allLength span step < span + 2 * step ∧
      (allLength span step / step ≤ 92 ↔ span ≤ 91 * step) := by
  have hmod := Nat.div_add_mod (span + step - 1) step
  have hlt := Nat.mod_lt (span + step - 1) hpos
  unfold allLength
  rw [Nat.mul_div_cancel _ hpos]
  generalize hk : (span + step - 1) / step = k at *
  have hexpand : (k + 1) * step = step * k + step := by ring
  rw [hexpand]
  refine ⟨⟨k + 1, by ring⟩, by omega, by omega, ?_⟩
  constructor
  · intro hle
    have := Nat.mul_le_mul_left step (show k ≤ 91 by omega)
    omega
  · intro hle
    by_contra hgt
    have := Nat.mul_le_mul_left step (show 92 ≤ k by omega)
    omega

theorem planned_all {current first step : Nat} (hlow : 1200 * day ≤ current) (hhigh : current < 2 ^ 40)
    (hbucket : Bucket allSteps (current - first) step) (hpos : 0 < step) (hstep : step ≤ 91 * day) :
    planned .all current first = some (current, allLength (current - first) step, step) := by
  obtain ⟨-, hle, hlt, -⟩ := allLength_bounds (current - first) hpos
  have hword : allLength (current - first) step < 2 ^ 64 := by
    simp only [day] at hstep
    omega
  have hcount : (current - first + step - 1) / step + 1 < 2 ^ 64 := by
    have := Nat.div_le_self (current - first + step - 1) step
    simp only [day] at hstep
    omega
  rw [planned, firstSampleDays_of hhigh (le_trans (by decide) hlow), allTiming, allStep_iff.1 hbucket]
  simp only [add_of_lt hcount, Option.bind_eq_bind, Option.bind_some]
  rw [mul_of_lt hword]
  rfl

theorem shown_all {current first step : Nat} (hlow : 1200 * day ≤ current) (hhigh : current < 2 ^ 40)
    (hfirst : first ≤ current) (hbucket : Bucket allSteps (current - first) step) :
    Shown .all current first ↔ allLength (current - first) step + 7 * day ≤ current ∧
      current - first ≤ 8281 * day := by
  obtain ⟨hpos, hstep⟩ := bucket_pos (fun s hs => ⟨(allSteps_pos s hs).1, (allSteps_pos s hs).2.1⟩) hbucket
  have hday : day ∣ step := by
    rcases hbucket with ⟨hmem, -⟩ | ⟨rfl, -⟩
    · exact (allSteps_pos step hmem).2.2
    · exact Nat.dvd_mul_left _ _
  obtain ⟨hdvd, hle, hlt, hcount⟩ := allLength_bounds (current - first) hpos
  -- A bucket below 91 days has at most 80 points.
  have hspan : current - first ≤ 91 * step ↔ current - first ≤ 8281 * day := by
    rcases hbucket with ⟨hmem, hpoints, -⟩ | ⟨rfl, -⟩
    · have hlt := (Nat.div_lt_iff_lt_mul hpos).mp (Nat.lt_succ_of_le hpoints)
      simp only [day] at hstep ⊢
      omega
    · simp only [day]
  rw [shown_iff (planned_all hlow hhigh hbucket hpos hstep) hhigh (hfirst.trans_lt hhigh) hpos
    (hstep.trans_lt (by decide)), hcount, hspan]
  obtain ⟨q, hq⟩ : day ∣ allLength (current - first) step := hday.trans hdvd
  have hdays : allLength (current - first) step / day = q := by rw [hq, Nat.mul_div_cancel_left q (by decide)]
  have hfit : WindowsFit (decide (Timing.all = .all)) current (allLength (current - first) step) step ↔
      allLength (current - first) step + 7 * day ≤ current := by
    unfold WindowsFit
    rw [decide_eq_true rfl, if_pos rfl, hdays, week_fit hlow, Nat.mul_comm q, ← hq]
    exact ⟨fun h => h.2.1, fun h => ⟨le_aligned hdvd (by omega), h, le_trans (by decide) hlow⟩⟩
  rw [hfit]
  refine ⟨fun h => ⟨h.1, h.2.2.1⟩, fun h => ⟨h.1, hdvd, h.2, fun t ht _ => ?_⟩⟩
  have hbound := Nat.div_mul_le_self current step
  simp only [requested] at ht
  omega

/-- The length of a custom range that ends at `timestamp`. -/
def customLength (timestamp start step : Nat) : Nat :=
  max (timestamp / step * step - start / step * step) step

theorem customLength_bounds {timestamp start stop step : Nat} (hpos : 0 < step) (htime : timestamp ≤ stop)
    (hpoints : (stop - start) / step ≤ 80) :
    step ∣ customLength timestamp start step ∧ customLength timestamp start step / step ≤ 92 := by
  have hlt := (Nat.div_lt_iff_lt_mul hpos).mp (Nat.lt_succ_of_le hpoints)
  have hdiff : timestamp / step ≤ start / step + 81 := by
    rw [← Nat.add_mul_div_right start 81 hpos]
    exact Nat.div_le_div_right (by omega)
  have heq : customLength timestamp start step = max (timestamp / step - start / step) 1 * step := by
    rw [customLength, ← Nat.sub_mul, ← Nat.mul_max_mul_right, one_mul]
  rw [heq, Nat.mul_div_cancel _ hpos]
  exact ⟨Nat.dvd_mul_left _ _, by omega⟩

theorem shown_custom {current first start stop step : Nat} (hhigh : current < 2 ^ 40)
    (hfirst : first ≤ current) (hle : start + 3600 ≤ stop) (hspan : stop - start ≤ 600 * day)
    (hbucket : Bucket customSteps (stop - start) step) :
    Shown (.custom start stop) current first ↔
      WindowsFit false (min stop current) (customLength (min stop current) start step) step := by
  obtain ⟨hpos, hstep⟩ := bucket_pos customSteps_pos hbucket
  have heq := customStep_iff.1 hbucket
  have hpoints := (customStep_points hspan).2
  rw [heq] at hpoints
  have hplan : planned (.custom start stop) current first =
      some (min stop current, customLength (min stop current) start step, step) := by
    rw [planned, sub_of_le (show start ≤ stop by omega), Option.bind_eq_bind, Option.bind_some, heq]
    rfl
  have htime : min stop current < 2 ^ 40 := by omega
  obtain ⟨hdvd, hcount⟩ := customLength_bounds hpos (Nat.min_le_left stop current) hpoints
  rw [shown_iff hplan htime (hfirst.trans_lt hhigh) hpos (hstep.trans_lt (by decide))]
  refine ⟨fun h => h.1, fun h => ⟨h, hdvd, hcount, fun t ht _ => ?_⟩⟩
  have hbound := Nat.div_mul_le_self start step
  simp only [requested] at ht
  simp only [customLength]
  omega

/-! ## When the windows are well formed -/

/-- All the history but the year, the span from the first sample with its spare buckets and a week after
the epoch, and a custom range that is twice as long as the time before it and ends 599 days after the
epoch. -/
def TimingFits (chosen : Timing) (current first : Nat) : Prop :=
  match chosen with
  | .fixed seconds _ => seconds ≠ 365 * day
  | .all => ∀ step, Bucket allSteps (current - first) step →
      allLength (current - first) step + 7 * day ≤ current ∧ current - first ≤ 8281 * day
  | .custom start stop => ∀ step, Bucket customSteps (stop - start) step →
      2 * customLength (min stop current) start step ≤ min stop current / step * step ∧
        (max (customLength (min stop current) start step / day) 7 + 7) * day ≤ min stop current ∧
          599 * day ≤ min stop current

/-- A selection of a known agent starts in range, and with valid labels its time fits. -/
def Fits (selection : Selection) (current first : Nat) : Prop :=
  selection.agent ∈ agents → InRange selection.range ∧
    (validLabel selection.host = true → validLabel selection.project = true →
      ∀ chosen, Reads selection.range chosen → TimingFits chosen current first)

theorem year_length : ∀ e ∈ fixedTimings, (e.1 ≠ "1y" ↔ e.2.1 ≠ 365 * day) := by decide

theorem shown_iff_fits {range : Text} {chosen : Timing} {current first : Nat} (hlow : 1200 * day ≤ current)
    (hhigh : current < 2 ^ 40) (hfirst : first ≤ current) (hreads : Reads range chosen) :
    Shown chosen current first ↔ TimingFits chosen current first := by
  cases hreads with
  | fixed seconds step hmem => exact (shown_fixed hmem hlow hhigh hfirst).trans (year_length _ hmem)
  | all =>
    have hbucket := allStep_iff.2 (rfl : allStep (current - first) = _)
    rw [shown_all hlow hhigh hfirst hbucket]
    refine ⟨fun h step hstep => ?_, fun h => h _ hbucket⟩
    rwa [← allStep_iff.1 hstep]
  | custom start stop hcustom hle hspan =>
    have hbucket := customStep_iff.2 (rfl : customStep (stop - start) = _)
    rw [shown_custom hhigh hfirst hle hspan hbucket]
    refine ⟨fun h step hstep => ?_, fun h => h _ hbucket⟩
    rw [← customStep_iff.1 hstep]
    exact h

/-! ## The offset of the rules -/

def unitSeconds (n : Nat) (unit : Text) : Option Nat :=
  if unit = ['m'] then mul n 60 else if unit = ['h'] then mul n 3600 else none

def offset (value : Text) : Option (Except Text Text) :=
  match Text.splitAtByte value (Text.byteLength value - 1) with
  | none => none
  | some (number, unit) =>
    match (Text.parseNat (2 ^ 64) number).bind fun n => unitSeconds n unit with
    | none => some (.error "The offset must be minutes or hours, such as 90m or 1h")
    | some seconds =>
      if 60 ≤ seconds ∧ seconds ≤ 86400 then some (.ok value)
      else some (.error "The offset must be between 1m and 24h")

/-- A number of minutes or hours between one minute and one day. -/
def Offset (value : Text) : Prop :=
  ∃ digits unit factor, value = digits ++ [unit] ∧
    (unit = 'm' ∧ factor = 60 ∨ unit = 'h' ∧ factor = 3600) ∧ digits ≠ [] ∧
    Text.allDigits digits = true ∧ 60 ≤ Text.digitsValue digits * factor ∧
      Text.digitsValue digits * factor ≤ 86400

/-- The offset is read without a panic, and accepted exactly when it is one. -/
def OffsetGood (value : Text) : Prop :=
  ∃ result, offset value = some result ∧ (result = .ok value ↔ Offset value)

/-- The last character is of one byte, and no sign is before an offset. -/
def OffsetFits (value : Text) : Prop :=
  (∀ c, value.getLast? = some c → c.utf8Size = 1) ∧ ∀ rest, value = '+' :: rest → ¬ Offset rest

theorem unitSeconds_iff {n seconds : Nat} {unit : Char} :
    unitSeconds n [unit] = some seconds ↔ ∃ factor, (unit = 'm' ∧ factor = 60 ∨ unit = 'h' ∧ factor = 3600) ∧
      n * factor < 2 ^ 64 ∧
      n * factor = seconds := by
  unfold unitSeconds
  by_cases hm : unit = 'm'
  · subst hm
    simp
  · by_cases hh : unit = 'h'
    · subst hh
      simp
    · simp [hm, hh]

/-- An offset of minutes or hours, with a sign or without, is what is accepted. -/
theorem offset_accepts (init : Text) {c : Char} (hone : c.utf8Size = 1) :
    ∃ result, offset (init ++ [c]) = some result ∧
      (result = .ok (init ++ [c]) ↔ Offset (init ++ [c]) ∨ ∃ rest, init ++ [c] = '+' :: rest ∧
        Offset rest) := by
  have hread : (∃ seconds, ((Text.parseNat (2 ^ 64) init).bind fun n => unitSeconds n [c]) = some seconds ∧
      60 ≤ seconds ∧
      seconds ≤ 86400) ↔ Offset (init ++ [c]) ∨ ∃ rest, init ++ [c] = '+' :: rest ∧ Offset rest := by
    simp only [Option.bind_eq_some_iff, Text.parseNat_iff, unitSeconds_iff]
    constructor
    · rintro ⟨seconds, ⟨n, ⟨digits, hsign, hne, hall, rfl, -⟩, factor, hunit, -, rfl⟩, hlow, hhigh⟩
      rcases hsign with rfl | rfl
      · exact Or.inl ⟨init, c, factor, rfl, hunit, hne, hall, hlow, hhigh⟩
      · exact Or.inr ⟨digits ++ [c], rfl, digits, c, factor, rfl, hunit, hne, hall, hlow, hhigh⟩
    · have hback : ∀ rest, (init ++ [c] = rest ∨ init ++ [c] = '+' :: rest) → Offset rest →
          ∃ seconds, (∃ n, (∃ digits, (init = digits ∨ init = '+' :: digits) ∧ digits ≠ [] ∧
            Text.allDigits digits = true ∧
            Text.digitsValue digits = n ∧ n < 2 ^ 64) ∧ ∃ factor,
              (c = 'm' ∧ factor = 60 ∨ c = 'h' ∧ factor = 3600) ∧
              n * factor < 2 ^ 64 ∧ n * factor = seconds) ∧ 60 ≤ seconds ∧ seconds ≤ 86400 := by
        rintro rest hrest ⟨digits, unit, factor, rfl, hunit, hne, hall, hlow, hhigh⟩
        have hparts : (init = digits ∨ init = '+' :: digits) ∧ c = unit := by
          rcases hrest with heq | heq
          · obtain ⟨rfl, hc⟩ := List.append_inj' heq rfl
            exact ⟨Or.inl rfl, by simpa using hc⟩
          · rw [← List.cons_append] at heq
            obtain ⟨rfl, hc⟩ := List.append_inj' heq rfl
            exact ⟨Or.inr rfl, by simpa using hc⟩
        obtain ⟨hinit, rfl⟩ := hparts
        have hfactor : 1 ≤ factor := by rcases hunit with ⟨-, rfl⟩ | ⟨-, rfl⟩ <;> decide
        have hvalue := Nat.le_mul_of_pos_right (Text.digitsValue digits) hfactor
        exact ⟨_, ⟨_, ⟨digits, hinit, hne, hall, rfl, by omega⟩, factor, hunit, by omega, rfl⟩, hlow, hhigh⟩
      rintro (h | ⟨rest, heq, h⟩)
      · exact hback _ (Or.inl rfl) h
      · exact hback rest (Or.inr heq) h
  rw [← hread]
  unfold offset
  rw [Text.splitAtByte_last, if_pos hone]
  dsimp only
  cases hseconds : (Text.parseNat (2 ^ 64) init).bind fun n => unitSeconds n [c] with
  | none => exact ⟨_, rfl, by simp⟩
  | some seconds =>
    dsimp only
    by_cases hbound : 60 ≤ seconds ∧ seconds ≤ 86400
    · rw [if_pos hbound]
      exact ⟨_, rfl, by simpa using hbound⟩
    · rw [if_neg hbound]
      refine ⟨_, rfl, ?_⟩
      simpa using hbound

theorem not_offset_sign {rest : Text} : ¬ Offset ('+' :: rest) := by
  rintro ⟨digits, unit, factor, heq, -, hne, hall, -⟩
  cases digits with
  | nil => exact hne rfl
  | cons d digits =>
    obtain ⟨rfl, -⟩ := List.cons.inj heq
    cases hall

theorem offset_iff (value : Text) : OffsetGood value ↔ OffsetFits value := by
  unfold OffsetGood OffsetFits
  rcases List.eq_nil_or_concat value with rfl | ⟨init, c, rfl⟩
  · refine iff_of_true ⟨_, rfl, ?_⟩ ⟨nofun, nofun⟩
    simp [Offset]
  · rw [List.concat_eq_append]
    by_cases hone : c.utf8Size = 1
    · obtain ⟨result, hresult, haccepts⟩ := offset_accepts init hone
      rw [hresult]
      simp only [Option.some.injEq, exists_eq_left', haccepts]
      constructor
      · intro h
        refine ⟨fun d hd => ?_, fun rest heq hoffset => ?_⟩
        · rw [List.getLast?_concat] at hd
          cases hd
          exact hone
        · have hvalue := h.mp (Or.inr ⟨rest, heq, hoffset⟩)
          rw [heq] at hvalue
          exact not_offset_sign hvalue
      · rintro ⟨-, hsign⟩
        refine ⟨?_, Or.inl⟩
        rintro (h | ⟨rest, heq, h⟩)
        · exact h
        · exact absurd h (hsign rest heq)
    · refine iff_of_false ?_ fun h => hone (h.1 c (List.getLast?_concat ..))
      rintro ⟨result, hresult, -⟩
      unfold offset at hresult
      rw [Text.splitAtByte_last, if_neg hone] at hresult
      cases hresult

/-! ## Selections and offsets -/

theorem good_iff_fits {selection : Selection} {current first : Nat} (hlow : 1200 * day ≤ current)
    (hhigh : current < 2 ^ 40) (hfirst : first ≤ current) :
    Good selection current first ↔ Fits selection current first := by
  rw [good_iff]
  unfold Fits
  refine imp_congr_right fun _ => and_congr_right fun _ => ?_
  refine imp_congr_right fun _ => imp_congr_right fun _ => ?_
  exact forall_congr' fun chosen => imp_congr_right fun hreads => shown_iff_fits hlow hhigh hfirst hreads

/-- **Accepted selections give well-formed windows** exactly when their time fits, and an offset is read
as one exactly when it ends in a one-byte character and has no sign. -/
theorem window_iff (selection : Selection) {current first : Nat} (hlow : 1200 * day ≤ current)
    (hhigh : current < 2 ^ 40) (hfirst : first ≤ current) (value : Text) :
    (Good selection current first ↔ Fits selection current first) ∧ (OffsetGood value ↔ OffsetFits value) :=
  ⟨good_iff_fits hlow hhigh hfirst, offset_iff value⟩

/-- A custom range that ends an hour after the epoch. -/
def early : Selection := ⟨"all", "*", "*", "custom:0:3600"⟩

theorem early_window : (Good early (1200 * day) 0 ↔ Fits early (1200 * day) 0) ∧
    (OffsetGood "90m" ↔ OffsetFits "90m") :=
  window_iff early (le_refl _) (by decide) (Nat.zero_le _) "90m"

/-- The early range underflows, and an offset that ends inside a character panics. -/
theorem window_fails : ¬ ∀ (selection : Selection) (current first : Nat) (value : Text),
    1200 * day ≤ current → current < 2 ^ 40 → first ≤ current →
    Good selection current first ∧ OffsetGood value := by
  intro h
  obtain ⟨hgood, -⟩ := h early (1200 * day) 0 "90m" (le_refl _) (by decide) (Nat.zero_le _)
  have hcustom : Custom early.range 0 3600 := ⟨"0", "3600", by decide, by decide, by decide⟩
  have hfits := ((good_iff_fits (le_refl _) (by decide) (Nat.zero_le _)).mp hgood (by decide)).2
    (by decide) (by decide) _
    (.custom 0 3600 hcustom (by decide) (by decide)) (customStep 3600) (customStep_iff.mpr rfl)
  exact absurd hfits.2 (by decide)

end HomeStack.UsageWindows

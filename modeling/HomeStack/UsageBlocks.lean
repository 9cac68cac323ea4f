import HomeStack.UsageQuantiles
import HomeStack.Lib.Text

/-! The reads behind a block of usage buckets (`block` and `finish` of `hs-usage/src/planner.rs`).
A read counts increments over one or more windows, each stamped with the start of its bucket. Query
texts and cache lifetimes are left out; a query is the series it reads, the window it selects and the
baseline it subtracts. -/

namespace HomeStack.Usage

open Spans

/-! ## Reads -/

inductive Kind
  | counter
  | response
  | history
  | histogram
  deriving DecidableEq

structure Instrument where
  name : Text
  measurement : Text
  kind : Kind

/-- How the values of a read become records. -/
inductive Part
  /-- Bucket values stamped one step before each point. -/
  | range (step : Nat)
  | aggregated (step : Nat)
  /-- Increments for the bucket starting at the stamp. -/
  | sum (stamp : Nat)
  /-- Counter values to subtract the paired baseline from. -/
  | current (pair stamp : Nat)
  | baseline (pair : Nat)

inductive Series
  | raw (kind : Kind)
  | aggregated

/-- What a range query selects at each of its times, in seconds: the samples of a window, or the newest
one that is retained, and the sample before an offset that it subtracts. -/
structure Selector where
  window : Option Nat
  offset : Option Nat

/-- From when on a sample at `t` counts. -/
def Selector.since (selector : Selector) (t : Nat) : Nat :=
  max ((selector.window.map (t - ·)).getD 0) ((selector.offset.map (t - ·)).getD 0)

inductive Request
  | range (first last step : Nat) (selector : Selector)
  /-- So many milliseconds up to a time. -/
  | window (length : Nat) (time : ℚ)
  /-- The newest value at a time. -/
  | latest (time : ℚ)

structure Job where
  part : Part
  series : Series
  request : Request

/-- What the reads are planned for: the fields of `Plan` that do not change. -/
structure View where
  registry : List Instrument
  step : Nat
  historyEnd : ℚ
  tokensOnly : Bool

structure Plan where
  pairs : Nat
  jobs : List Job

namespace Plan

def push (plan : Plan) (job : Job) : Plan := { plan with jobs := plan.jobs ++ [job] }

end Plan

namespace View

variable (v : View)

def metrics (kind : Kind) : List Instrument :=
  v.registry.filter fun m => m.kind = kind && (!v.tokensOnly || m.measurement == "tokens".toList)

/-- Raw increments of one kind over `(start, stop]`. -/
def partialRead (kind : Kind) (start stop : ℚ) (stamp : Nat) (plan : Plan) : Plan :=
  if v.metrics kind = [] then plan
  else match kind with
  | .histogram => plan
  | .response => plan.push ⟨.sum stamp, .raw .response, .window (milliseconds start stop) stop⟩
  | .counter | .history =>
    if kind = .history ∧ start ≥ v.historyEnd then plan
    else
      let stop := if kind = .history then min stop (v.historyEnd - 1 / 1000) else stop
      let pair := plan.pairs
      (({ plan with pairs := pair + 1 }).push
        ⟨.current pair stamp, .raw kind, .window (milliseconds start stop) stop⟩).push
        ⟨.baseline pair, .raw kind, .latest start⟩

/-- Raw increments of every kind. -/
def partials (start stop : ℚ) (stamp : Nat) (plan : Plan) : Plan :=
  [Kind.counter, .response, .history].foldl (fun plan kind => v.partialRead kind start stop stamp plan) plan

/-- The selector of a raw range read. -/
def rangeSelector (kind : Kind) : Selector :=
  match kind with
  | .counter => ⟨some v.step, some v.step⟩
  | .response | .histogram => ⟨some v.step, none⟩
  | .history => ⟨none, some v.step⟩

/-- One turn of the loop of `raw`. -/
def rawKind (start boundary now : Nat) (plan : Plan) (kind : Kind) : Plan :=
  if kind = .history ∧ (start : ℚ) ≥ v.historyEnd then plan
  else if v.metrics kind = [] then plan
  else
    let plan := if boundary > start then
        plan.push ⟨.range v.step, .raw kind, .range (start + v.step) boundary v.step (v.rangeSelector kind)⟩
      else plan
    if now > boundary then v.partialRead kind boundary now boundary plan else plan

/-- Raw closed buckets ending in `(start, boundary]`, and the partial bucket up to `now`. -/
def raw (start boundary now : Nat) (plan : Plan) : Plan :=
  [Kind.counter, .response, .history].foldl (v.rawKind start boundary now) plan

/-! ## The plan of a block -/

/-- The closed buckets up to `closed`: the plan, and the buckets whose aggregated values give way. -/
def closedReads (start closed : Nat) (coverage : Coverage) (counts : Nat → Option ℚ) (plan : Plan) :
    Plan × List Nat :=
  if closed > start then
    let missing := (bucketEnds start closed v.step).filter fun stop =>
      !coverage.complete ((stop - v.step : Nat) : ℚ) stop ((counts stop).getD 0)
    -- many unaggregated buckets are read raw as one range from the first of them
    let aggregatedEnd := if missing.length > maxGapReads then missing.headD 0 - v.step else closed
    let plan := if aggregatedEnd > start then
        plan.push ⟨.aggregated v.step, .aggregated,
          .range (start + v.step) aggregatedEnd v.step ⟨some v.step, none⟩⟩
      else plan
    if aggregatedEnd < closed then (v.raw aggregatedEnd closed closed plan, [])
    else (missing.foldl (fun plan stop => v.raw (stop - v.step) stop stop plan) plan,
      missing.map (· - v.step))
  else (plan, [])

/-- The bucket that holds the newest aggregated time. -/
def openReads (boundary now straddle : Nat) (through : ℚ) (coverage : Coverage)
    (openCount : ℚ) (plan : Plan) : Plan :=
  let straddleEnd := if straddle < boundary then straddle + v.step else now
  if through > straddle ∧ coverage.complete straddle through openCount then
    let plan := plan.push ⟨.sum straddle, .aggregated, .window (milliseconds straddle through) through⟩
    if (straddleEnd : ℚ) > through then v.partials through straddleEnd straddle plan else plan
  else if straddle < boundary then v.raw straddle straddleEnd straddleEnd plan
  else if now > boundary then v.partials boundary now boundary plan
  else plan

/-- `block`: the reads, and the buckets whose aggregated values are dropped. -/
def block (start boundary now : Nat) (coverage : Option Coverage) (counts : Nat → Option ℚ) (openCount : ℚ) :
    Plan × List Nat :=
  match coverage.filter fun c => (start : ℚ) < c.throughSeconds with
  | none => (v.raw start boundary now ⟨0, []⟩, [])
  | some c =>
    let through := throughAt c now
    let closed := closedEnd start boundary v.step through
    let (plan, gaps) := v.closedReads start closed c counts ⟨0, []⟩
    let plan := v.openReads boundary now closed through c openCount plan
    let plan := if closed < boundary then
        v.raw (if closed < boundary then closed + v.step else now) boundary now plan
      else plan
    (plan, gaps)

end View

/-! ## What is kept -/

/-- Increments over a span, stamped with the start of a bucket. -/
structure Increment where
  stamp : Nat
  span : ℚ × ℚ

/-- The times at which a range query is evaluated. -/
def timesOf (first last step : Nat) : List Nat :=
  if first ≤ last then (List.range ((last - first) / step + 1)).map fun i => first + i * step else []

/-- The baseline read of a pair. -/
def baselineOf (jobs : List Job) (pair : Nat) : Option ℚ :=
  jobs.findSome? fun job => match job.part, job.request with
    | .baseline p, .latest time => if p = pair then some time else none
    | _, _ => none

namespace View

variable (v : View)

/-- A bucket of a raw range read; the history ends before `historyEnd`. -/
def bucket (kind : Kind) (step : Nat) (selector : Selector) (stop : Nat) : List Increment :=
  let start : ℚ := selector.since stop
  if kind = .history then
    if ((stop - step : Nat) : ℚ) < v.historyEnd then
      [⟨stop - step, start, if (stop : ℚ) < v.historyEnd then (stop : ℚ) else v.historyEnd - 1 / 1000⟩]
    else []
  else [⟨stop - step, start, (stop : ℚ)⟩]

/-- What `finish` keeps of a read for one kind. -/
def kept (baselines : Nat → Option ℚ) (gaps : List Nat) (kind : Kind) (job : Job) : List Increment :=
  match job.part, job.series, job.request with
  | .range step, .raw k, .range first last s selector =>
    if k = kind then (timesOf first last s).flatMap (v.bucket kind step selector) else []
  | .aggregated step, .aggregated, .range first last s selector =>
    -- raw reads replace the aggregated values of unaggregated buckets
    ((timesOf first last s).filter fun t => !gaps.contains (t - step)).map fun t =>
      ⟨t - step, (selector.since t : ℚ), (t : ℚ)⟩
  | .sum stamp, .aggregated, .window length time => [⟨stamp, time - (length : ℚ) / 1000, time⟩]
  | .sum stamp, .raw k, .window length time => if k = kind then
      [⟨stamp, time - (length : ℚ) / 1000, time⟩] else []
  | .current pair stamp, .raw k, .window length time =>
    if k = kind then
      match baselines pair with
      -- of the series with a sample in the window, what came after the baseline
      | some start => [⟨stamp, max start (time - (length : ℚ) / 1000), time⟩]
      | none => []
    else []
  | _, _, _ => []

/-- The increments of one kind that the reads of a block give. -/
def increments (plan : Plan) (gaps : List Nat) (kind : Kind) : List Increment :=
  plan.jobs.flatMap (v.kept (baselineOf plan.jobs) gaps kind)

end View

/-! ## What each read adds -/

/-- The pair a read belongs to. -/
def Job.pair? (job : Job) : Option Nat :=
  match job.part with
  | .current pair _ => some pair
  | .baseline pair => some pair
  | _ => none

/-- Pairs are numbered below the next one. -/
def Plan.Numbered (plan : Plan) : Prop := ∀ job ∈ plan.jobs, ∀ p, job.pair? = some p → p < plan.pairs

section

variable {v : View} {kind : Kind} {plan : Plan}

theorem baselineOf_append (jobs jobs' : List Job) (p : Nat) :
    baselineOf (jobs ++ jobs') p = (baselineOf jobs p).or (baselineOf jobs' p) := by
  simp [baselineOf, List.findSome?_append]

theorem baselineOf_single_ne {job : Job} {p : Nat} (h : job.pair? ≠ some p) : baselineOf [job] p = none := by
  obtain ⟨part, series, request⟩ := job
  cases part with
  | baseline q =>
    have hne : q ≠ p := fun he => h (by rw [Job.pair?, he])
    cases request <;> simp [baselineOf, hne]
  | _ => cases request <;> simp [baselineOf]

theorem baselineOf_none {jobs : List Job} {p : Nat} (h : ∀ job ∈ jobs, job.pair? ≠ some p) :
    baselineOf jobs p = none := by
  induction jobs with
  | nil => rfl
  | cons job jobs ih =>
    rw [← List.singleton_append, baselineOf_append, baselineOf_single_ne (h job (by simp)),
      ih fun job' hjob' => h job' (List.mem_cons_of_mem _ hjob')]
    rfl

/-- A read sees the baseline of its own pair only. -/
theorem kept_congr {baselines baselines' : Nat → Option ℚ} {gaps : List Nat} {job : Job}
    (h : ∀ p, job.pair? = some p → baselines p = baselines' p) :
    v.kept baselines gaps kind job = v.kept baselines' gaps kind job := by
  obtain ⟨part, series, request⟩ := job
  cases part with
  | current p stamp =>
    have hp := h p rfl
    cases series <;> cases request <;> simp [View.kept, hp]
  | _ => cases series <;> cases request <;> rfl

/-- The plan grows by reads that give these increments, whatever buckets are dropped. -/
def Adds (v : View) (kind : Kind) (plan plan' : Plan) (incs : List Nat → List Increment) : Prop :=
  plan.Numbered → plan'.Numbered ∧ ∀ gaps, v.increments plan' gaps kind =
    v.increments plan gaps kind ++ incs gaps

theorem Adds.refl (v : View) (kind : Kind) (plan : Plan) : Adds v kind plan plan fun _ => [] :=
  fun h => ⟨h, fun gaps => by simp⟩

theorem Adds.trans {plan' plan'' : Plan} {incs incs' : List Nat → List Increment}
    (h : Adds v kind plan plan' incs) (h' : Adds v kind plan' plan'' incs') :
    Adds v kind plan plan'' fun gaps => incs gaps ++ incs' gaps := by
  intro hnum
  obtain ⟨hnum', hincs⟩ := h hnum
  obtain ⟨hnum'', hincs'⟩ := h' hnum'
  exact ⟨hnum'', fun gaps => by rw [hincs', hincs, List.append_assoc]⟩

theorem Adds.congr {plan' : Plan} {incs incs' : List Nat → List Increment} (h : Adds v kind plan plan' incs)
    (heq : incs = incs') : Adds v kind plan plan' incs' := heq ▸ h

/-- A read without a pair. -/
theorem adds_push {job : Job} (hjob : job.pair? = none) :
    Adds v kind plan (plan.push job) fun gaps => v.kept (fun _ => none) gaps kind job := by
  intro hnum
  refine ⟨fun job' hjob' p hp => ?_, fun gaps => ?_⟩
  · rcases List.mem_append.mp hjob' with hmem | hmem
    · exact hnum job' hmem p hp
    · obtain rfl := List.mem_singleton.mp hmem
      rw [hjob] at hp
      cases hp
  · have hsame : ∀ p, baselineOf (plan.jobs ++ [job]) p = baselineOf plan.jobs p := by
      intro p
      rw [baselineOf_append, baselineOf_single_ne (by rw [hjob]; simp), Option.or_none]
    simp only [View.increments, Plan.push, List.flatMap_append, List.flatMap_singleton]
    congr 1
    · exact List.flatMap_congr fun job' _ => kept_congr fun p _ => hsame p
    · exact kept_congr fun p hp => by rw [hjob] at hp; cases hp

/-- A pair of reads. -/
theorem adds_pair {k : Kind} {stamp length : Nat} {start time : ℚ} :
    Adds v kind plan
      ((({ plan with pairs := plan.pairs + 1 } : Plan).push ⟨.current plan.pairs stamp, .raw k,
        .window length time⟩).push
        ⟨.baseline plan.pairs, .raw k, .latest start⟩)
      fun _ => if k = kind then [⟨stamp, max start (time - (length : ℚ) / 1000), time⟩] else [] := by
  intro hnum
  have hfresh : ∀ job ∈ plan.jobs, job.pair? ≠ some plan.pairs :=
    fun job hjob hp => absurd (hnum job hjob _ hp) (lt_irrefl _)
  set current : Job := ⟨.current plan.pairs stamp, .raw k, .window length time⟩ with hcurrent
  set base : Job := ⟨.baseline plan.pairs, .raw k, .latest start⟩ with hbase
  have hlookup : ∀ p, baselineOf (plan.jobs ++ [current] ++ [base]) p =
      (baselineOf plan.jobs p).or (if plan.pairs = p then some start else none) := by
    intro p
    rw [baselineOf_append, baselineOf_append, Option.or_assoc]
    congr 1
    simp [baselineOf, hcurrent, hbase]
  refine ⟨fun job hjob p hp => ?_, fun gaps => ?_⟩
  · simp only [Plan.push, List.mem_append, List.mem_singleton] at hjob
    simp only [Plan.push]
    rcases hjob with (hjob | rfl) | rfl
    · exact Nat.lt_succ_of_lt (hnum job hjob p hp)
    · obtain rfl := Option.some.inj hp
      exact Nat.lt_succ_self _
    · obtain rfl := Option.some.inj hp
      exact Nat.lt_succ_self _
  · simp only [View.increments, Plan.push, List.flatMap_append, List.flatMap_singleton]
    have hold : plan.jobs.flatMap (v.kept (baselineOf (plan.jobs ++ [current] ++ [base])) gaps kind) =
        plan.jobs.flatMap (v.kept (baselineOf plan.jobs) gaps kind) := by
      refine List.flatMap_congr fun job hjob => kept_congr fun p hp => ?_
      have hne : plan.pairs ≠ p := fun he => hfresh job hjob (he ▸ hp)
      rw [hlookup, if_neg hne, Option.or_none]
    have hnew : v.kept (baselineOf (plan.jobs ++ [current] ++ [base])) gaps kind current =
        if k = kind then [⟨stamp, max start (time - (length : ℚ) / 1000), time⟩] else [] := by
      have hself : baselineOf (plan.jobs ++ [current] ++ [base]) plan.pairs = some start := by
        rw [hlookup, baselineOf_none hfresh, if_pos rfl]
        rfl
      generalize baselineOf (plan.jobs ++ [current] ++ [base]) = baselines at hself
      simp only [View.kept, hcurrent, hself]
    have hnone : v.kept (baselineOf (plan.jobs ++ [current] ++ [base])) gaps kind base = [] := rfl
    rw [hold, hnew, hnone, List.append_nil]

/-- The increments between a baseline and a current read. -/
def pairInc (stamp : Nat) (start stop : ℚ) : Increment :=
  ⟨stamp, max start (stop - (milliseconds start stop : ℚ) / 1000), stop⟩

/-- The increments of a partial read. -/
def View.partialIncs (v : View) (kind : Kind) (start stop : ℚ) (stamp : Nat) : List Increment :=
  match kind with
  | .histogram => []
  | .response => [⟨stamp, stop - (milliseconds start stop : ℚ) / 1000, stop⟩]
  | .counter => [pairInc stamp start stop]
  | .history => if start ≥ v.historyEnd then []
    else [pairInc stamp start (min stop (v.historyEnd - 1 / 1000))]

theorem adds_partialRead (hkind : v.metrics kind ≠ []) (k : Kind) (start stop : ℚ) (stamp : Nat) :
    Adds v kind plan (v.partialRead k start stop stamp plan)
      fun _ => if k = kind then v.partialIncs kind start stop stamp else [] := by
  unfold View.partialRead
  split
  · rename_i hnone
    have hne : k ≠ kind := fun he => hkind (he ▸ hnone)
    rw [if_neg hne]
    exact .refl v kind plan
  · cases k with
    | histogram =>
      refine (Adds.refl v kind plan).congr ?_
      by_cases hk : Kind.histogram = kind
      · rw [if_pos hk, ← hk]
        rfl
      · rw [if_neg hk]
    | response =>
      refine (adds_push rfl).congr ?_
      funext gaps
      by_cases hk : Kind.response = kind
      · subst hk
        rfl
      · simp [View.kept, hk]
    | counter =>
      simp only
      rw [if_neg (by simp), if_neg (by simp)]
      refine adds_pair.congr ?_
      funext gaps
      by_cases hk : Kind.counter = kind
      · subst hk
        rfl
      · rw [if_neg hk, if_neg hk]
    | history =>
      simp only
      by_cases hend : start ≥ v.historyEnd
      · rw [if_pos ⟨trivial, hend⟩]
        refine (Adds.refl v kind plan).congr ?_
        by_cases hk : Kind.history = kind
        · subst hk
          simp [View.partialIncs, hend]
        · rw [if_neg hk]
      · rw [if_neg (by simpa using hend), if_pos trivial]
        refine adds_pair.congr ?_
        funext gaps
        by_cases hk : Kind.history = kind
        · subst hk
          simp only [if_pos, View.partialIncs, pairInc, if_neg hend]
        · rw [if_neg hk, if_neg hk]

/-- Over the three kinds, one adds. -/
theorem adds_kinds {f : Plan → Kind → Plan} {incs : List Increment} (hhist : kind ≠ .histogram)
    (hf : ∀ plan k, Adds v kind plan (f plan k) fun _ => if k = kind then incs else []) :
    Adds v kind plan ([Kind.counter, .response, .history].foldl f plan) fun _ => incs := by
  refine (((hf plan .counter).trans (hf _ .response)).trans (hf _ .history)).congr ?_
  funext gaps
  cases kind with
  | histogram => exact absurd rfl hhist
  | _ => simp

theorem adds_partials (hkind : v.metrics kind ≠ []) (hhist : kind ≠ .histogram)
    (start stop : ℚ) (stamp : Nat) :
    Adds v kind plan (v.partials start stop stamp plan) fun _ => v.partialIncs kind start stop stamp :=
  adds_kinds hhist fun _ k => adds_partialRead hkind k start stop stamp

/-- The increments of a raw read. -/
def View.rawIncs (v : View) (kind : Kind) (start boundary now : Nat) : List Increment :=
  if kind = .history ∧ (start : ℚ) ≥ v.historyEnd then []
  else
    (if boundary > start then (timesOf (start + v.step) boundary v.step).flatMap
      (v.bucket kind v.step (v.rangeSelector kind)) else []) ++
      (if now > boundary then v.partialIncs kind boundary now boundary else [])

theorem adds_rawKind (hkind : v.metrics kind ≠ []) (start boundary now : Nat) (k : Kind) :
    Adds v kind plan (v.rawKind start boundary now plan k)
      fun _ => if k = kind then v.rawIncs kind start boundary now else [] := by
  unfold View.rawKind
  split
  · rename_i hend
    refine (Adds.refl v kind plan).congr ?_
    by_cases hk : k = kind
    · subst hk
      rw [if_pos rfl, View.rawIncs, if_pos hend]
    · rw [if_neg hk]
  · rename_i hend
    split
    · rename_i hnone
      have hne : k ≠ kind := fun he => hkind (he ▸ hnone)
      rw [if_neg hne]
      exact .refl v kind plan
    · have hclosed : Adds v kind plan
          (if boundary > start then
            plan.push ⟨.range v.step, .raw k, .range (start + v.step) boundary v.step (v.rangeSelector k)⟩
            else plan)
          fun _ => if k = kind then
              (if boundary > start then
                (timesOf (start + v.step) boundary v.step).flatMap
                (v.bucket kind v.step (v.rangeSelector kind)) else [])
            else [] := by
        split
        · refine (adds_push rfl).congr ?_
          funext gaps
          by_cases hk : k = kind
          · subst hk
            rfl
          · simp [View.kept, hk]
        · simpa using Adds.refl v kind plan
      have hopen : ∀ plan' : Plan, Adds v kind plan'
          (if now > boundary then v.partialRead k boundary now boundary plan' else plan')
          fun _ => if k = kind then (if now > boundary then v.partialIncs kind boundary now boundary
          else []) else [] := by
        intro plan'
        split
        · exact adds_partialRead hkind k _ _ _
        · simpa using Adds.refl v kind plan'
      refine (hclosed.trans (hopen _)).congr ?_
      funext gaps
      by_cases hk : k = kind
      · subst hk
        rw [if_pos rfl, if_pos rfl, if_pos rfl, View.rawIncs, if_neg hend]
      · rw [if_neg hk, if_neg hk, if_neg hk]
        rfl

theorem adds_raw (hkind : v.metrics kind ≠ []) (hhist : kind ≠ .histogram) (start boundary now : Nat) :
    Adds v kind plan (v.raw start boundary now plan) fun _ => v.rawIncs kind start boundary now :=
  adds_kinds hhist fun _ k => adds_rawKind hkind start boundary now k

theorem adds_raws (hkind : v.metrics kind ≠ []) (hhist : kind ≠ .histogram) (missing : List Nat) :
    Adds v kind plan (missing.foldl (fun plan stop => v.raw (stop - v.step) stop stop plan) plan)
      fun _ => missing.flatMap fun stop => v.rawIncs kind (stop - v.step) stop stop := by
  induction missing generalizing plan with
  | nil => exact .refl v kind plan
  | cons stop missing ih => exact (adds_raw hkind hhist _ _ _).trans ih

/-! ## What the windows cover -/

/-- The times a kind is counted at: the history up to the millisecond before its end. Of a history that
ends within a millisecond these are the whole milliseconds, which are the times of its samples. -/
def View.clip (v : View) (kind : Kind) : Set ℚ :=
  {t | kind = .history → t ≤ v.historyEnd - 1 / 1000 ∧ (Ms t ∨ Ms v.historyEnd)}

/-- The increments count every time of `(a, b]` once. -/
def Covers (v : View) (kind : Kind) (a b : ℚ) (incs : List Increment) : Prop :=
  Splits (v.clip kind) a b (incs.map Increment.span)

theorem Covers.append {a b c : ℚ} {incs incs' : List Increment} (h : Covers v kind a b incs)
    (h' : Covers v kind b c incs') (hab : a ≤ b) (hbc : b ≤ c) : Covers v kind a c (incs ++ incs') := by
  unfold Covers
  rw [List.map_append]
  exact Splits.append h h' hab hbc

theorem covers_nil {a b : ℚ} (h : b ≤ a ∨ kind = .history ∧ v.historyEnd ≤ a) : Covers v kind a b [] := by
  intro t ht
  rw [List.map_nil, count_nil, if_neg]
  rintro ⟨hat, htb⟩
  rcases h with h | ⟨hk, h⟩
  · exact absurd (hat.trans_le (htb.trans h)) (lt_irrefl a)
  · have hle := (ht hk).1
    simp only at hat
    linarith

/-- A window that differs only after the end of the history. -/
theorem covers_single {a b b' : ℚ} (stamp : Nat)
    (h : b' = b ∨ kind = .history ∧ v.historyEnd - 1 / 1000 ≤ b ∧ v.historyEnd - 1 / 1000 ≤ b') :
    Covers v kind a b [⟨stamp, a, b'⟩] := by
  intro t ht
  have hiff : Inside t (a, b') ↔ Inside t (a, b) := by
    rcases h with rfl | ⟨hk, hb, hb'⟩
    · exact Iff.rfl
    · have hle := (ht hk).1
      exact ⟨fun hin => ⟨hin.1, hle.trans hb⟩, fun hin => ⟨hin.1, hle.trans hb'⟩⟩
  simp [hiff]

theorem pairInc_eq {a b : ℚ} (ha : Ms a) (hb : Ms b) (hab : a < b) (stamp : Nat) :
    pairInc stamp a b = ⟨stamp, a, b⟩ := by
  rw [pairInc, sub_milliseconds ha hb hab, max_self]

/-- A window of rounded length misses no whole millisecond. -/
theorem lt_of_window {a stop t : ℚ} (ha : Ms a) (ht : Ms t ∨ Ms stop) (hat : a < t) (hle : t ≤ stop) :
    stop - (milliseconds a stop : ℚ) / 1000 < t := by
  rcases ht with ⟨n, rfl⟩ | hstop
  · obtain ⟨m, rfl⟩ := ha
    have hmn : (m : ℚ) + 1 ≤ n := by
      have : (m : ℚ) < n := by linarith
      exact_mod_cast this
    have hround : (stop - m / 1000) * 1000 + 1 / 2 < (milliseconds (m / 1000) stop : ℚ) + 1 := by
      refine (Nat.lt_floor_add_one _).trans_le ?_
      exact_mod_cast Nat.succ_le_succ (le_max_right 1 _)
    linarith
  · rwa [sub_milliseconds ha hstop (hat.trans_le hle)]

theorem ms_before {a t : ℚ} (ha : Ms a) (ht : Ms t) (hat : a < t) : Ms (t - 1 / 1000) := by
  obtain ⟨m, rfl⟩ := ha
  obtain ⟨n, rfl⟩ := ht
  have hmn : m < n := by
    have : (m : ℚ) < n := by linarith
    exact_mod_cast this
  refine ⟨n - 1, ?_⟩
  rw [Nat.cast_sub (by omega)]
  ring

theorem covers_rest {a b : ℚ} (ha : Ms a) (hb : Ms b) (hab : a < b)
    (hhist : kind ≠ .histogram) (stamp : Nat) :
    Covers v kind a b (v.partialIncs kind a b stamp) := by
  cases kind with
  | histogram => exact absurd rfl hhist
  | counter =>
    rw [View.partialIncs, pairInc_eq ha hb hab]
    exact covers_single stamp (.inl rfl)
  | response =>
    rw [View.partialIncs, sub_milliseconds ha hb hab]
    exact covers_single stamp (.inl rfl)
  | history =>
    rw [View.partialIncs]
    split
    · rename_i hend
      exact covers_nil (.inr ⟨rfl, hend⟩)
    · rename_i hend
      rcases le_total b (v.historyEnd - 1 / 1000) with hle | hle
      · rw [min_eq_left hle, pairInc_eq ha hb hab]
        exact covers_single stamp (.inl rfl)
      · rw [min_eq_right hle]
        intro t ht
        obtain ⟨hclip, hms⟩ := ht rfl
        have hiff : Inside t (pairInc stamp a (v.historyEnd - 1 / 1000)).span ↔ Inside t (a, b) := by
          refine ⟨fun hin => ⟨(le_max_left _ _).trans_lt hin.1, hin.2.trans hle⟩,
            fun hin => ⟨max_lt hin.1 ?_, hclip⟩⟩
          exact lt_of_window ha (hms.imp_right fun h => ms_before ha h (not_le.mp hend)) hin.1 hclip
        rw [List.map_singleton, count_cons, count_nil, Nat.zero_add, if_congr hiff rfl rfl]

theorem since_rangeSelector (v : View) (kind : Kind) (stop : Nat) :
    (v.rangeSelector kind).since stop = stop - v.step := by
  cases kind <;> simp [View.rangeSelector, Selector.since]

theorem covers_bucket (stop : Nat) :
    Covers v kind ((stop - v.step : Nat) : ℚ) stop (v.bucket kind v.step (v.rangeSelector kind) stop) := by
  unfold View.bucket
  rw [since_rangeSelector]
  dsimp only
  split
  · rename_i hk
    split
    · refine covers_single _ ?_
      by_cases hstop : (stop : ℚ) < v.historyEnd
      · exact .inl (if_pos hstop)
      · rw [if_neg hstop]
        exact .inr ⟨hk, by linarith [not_lt.mp hstop], le_rfl⟩
    · rename_i hend
      exact covers_nil (.inr ⟨hk, not_lt.mp hend⟩)
  · exact covers_single _ (.inl rfl)

/-- Bucket after bucket. -/
theorem covers_buckets {start step : Nat} (hstep : 0 < step) {f : Nat → List Increment}
    (hf : ∀ stop, step ≤ stop → Covers v kind ((stop - step : Nat) : ℚ) stop (f stop)) (m : Nat) :
    Covers v kind start ((start + m * step : Nat) : ℚ)
      ((bucketEnds start (start + m * step) step).flatMap f) := by
  have hcount : ∀ m, (start + m * step - start) / step = m := by
    intro m
    rw [Nat.add_sub_cancel_left, Nat.mul_div_cancel m hstep]
  induction m with
  | zero =>
    simp only [bucketEnds, hcount, List.range_zero, List.map_nil, List.flatMap_nil]
    exact covers_nil (.inl (by simp))
  | succ m ih =>
    simp only [bucketEnds, hcount] at ih ⊢
    rw [List.range_succ, List.map_append, List.flatMap_append]
    have hbucket := hf (start + (m + 1) * step) (by rw [Nat.succ_mul]; omega)
    have hprev : start + (m + 1) * step - step = start + m * step := by
      rw [Nat.succ_mul]
      omega
    rw [hprev] at hbucket
    refine ih.append ?_ ?_ ?_
    · simpa using hbucket
    · exact_mod_cast Nat.le_add_right _ _
    · exact_mod_cast Nat.add_le_add_left (Nat.mul_le_mul_right step (Nat.le_succ m)) start

theorem timesOf_eq {start stop step : Nat} (hstep : 0 < step) (hlt : start < stop)
    (hdvd : step ∣ stop - start) :
    timesOf (start + step) stop step = bucketEnds start stop step := by
  obtain ⟨m, hm⟩ := hdvd
  have hpos : 0 < m := by
    rcases Nat.eq_zero_or_pos m with rfl | hpos
    · omega
    · exact hpos
  have hle : step ≤ step * m := Nat.le_mul_of_pos_right step hpos
  have hdiff : stop - (start + step) = step * (m - 1) := by
    rw [Nat.mul_sub, Nat.mul_one]
    omega
  rw [timesOf, if_pos (by omega), bucketEnds, hm, hdiff, Nat.mul_div_cancel_left _ hstep,
    Nat.mul_div_cancel_left _ hstep,
    Nat.sub_add_cancel hpos]
  refine List.map_congr_left fun i _ => ?_
  ring

theorem covers_raw (hstep : 0 < v.step) {start boundary now : Nat} (hsb : start ≤ boundary)
    (hbn : boundary ≤ now) (hdvd : v.step ∣ boundary - start) (hhist : kind ≠ .histogram) :
    Covers v kind start now (v.rawIncs kind start boundary now) := by
  unfold View.rawIncs
  split
  · rename_i hend
    exact covers_nil (.inr hend)
  · refine Covers.append (b := (boundary : ℚ)) ?_ ?_ (by exact_mod_cast hsb) (by exact_mod_cast hbn)
    · split
      · rename_i hlt
        rw [timesOf_eq hstep hlt hdvd]
        obtain ⟨m, hm⟩ := hdvd
        obtain rfl : boundary = start + m * v.step := by
          rw [Nat.mul_comm]
          omega
        exact covers_buckets hstep (fun stop _ => covers_bucket stop) m
      · rename_i hle
        exact covers_nil (.inl (by exact_mod_cast not_lt.mp hle))
    · split
      · rename_i hlt
        exact covers_rest (ms_nat boundary) (ms_nat now) (by exact_mod_cast hlt) hhist boundary
      · rename_i hle
        exact covers_nil (.inl (by exact_mod_cast not_lt.mp hle))

/-! ## Where the windows are stamped -/

/-- The window lies in a closed bucket of `(a, b]`, stamped with its start. -/
def ClosedIn (step a b : Nat) (inc : Increment) : Prop :=
  ∃ stop ∈ bucketEnds a b step, inc.stamp = stop - step ∧ (inc.stamp : ℚ) ≤ inc.span.1 ∧ inc.span.2 ≤ stop

/-- The window lies in `(a, b]`, with this stamp. -/
def StampedIn (stamp : Nat) (a b : ℚ) (inc : Increment) : Prop :=
  inc.stamp = stamp ∧ a ≤ inc.span.1 ∧ inc.span.2 ≤ b

theorem bucket_stamped {stop : Nat} {inc : Increment}
    (h : inc ∈ v.bucket kind v.step (v.rangeSelector kind) stop) :
    inc.stamp = stop - v.step ∧ (inc.stamp : ℚ) ≤ inc.span.1 ∧ inc.span.2 ≤ stop := by
  unfold View.bucket at h
  rw [since_rangeSelector] at h
  dsimp only at h
  split at h
  · split at h
    · obtain rfl := List.mem_singleton.mp h
      refine ⟨rfl, le_rfl, ?_⟩
      simp only
      split
      · exact le_rfl
      · rename_i hstop
        linarith [not_lt.mp hstop]
    · cases h
  · obtain rfl := List.mem_singleton.mp h
    exact ⟨rfl, le_rfl, le_rfl⟩

theorem partial_stamped {a b : ℚ} (ha : Ms a) (hb : Ms b) (hab : a < b) {stamp : Nat} {inc : Increment}
    (h : inc ∈ v.partialIncs kind a b stamp) : StampedIn stamp a b inc := by
  cases kind with
  | histogram => cases h
  | counter =>
    obtain rfl := List.mem_singleton.mp h
    exact ⟨rfl, le_max_left _ _, le_rfl⟩
  | response =>
    rw [View.partialIncs, sub_milliseconds ha hb hab] at h
    obtain rfl := List.mem_singleton.mp h
    exact ⟨rfl, le_rfl, le_rfl⟩
  | history =>
    rw [View.partialIncs] at h
    split at h
    · cases h
    · obtain rfl := List.mem_singleton.mp h
      exact ⟨rfl, le_max_left _ _, min_le_left _ _⟩

theorem raw_stamped (hstep : 0 < v.step) {start boundary now : Nat} (hdvd : v.step ∣ boundary - start)
    {inc : Increment} (h : inc ∈ v.rawIncs kind start boundary now) :
    ClosedIn v.step start boundary inc ∨ boundary < now ∧ StampedIn boundary boundary now inc := by
  unfold View.rawIncs at h
  split at h
  · cases h
  · rcases List.mem_append.mp h with h | h
    · split at h
      · rename_i hlt
        rw [timesOf_eq hstep hlt hdvd] at h
        obtain ⟨stop, hstop, hinc⟩ := List.mem_flatMap.mp h
        exact .inl ⟨stop, hstop, bucket_stamped hinc⟩
      · cases h
    · split at h
      · rename_i hlt
        exact .inr ⟨hlt, partial_stamped (ms_nat boundary) (ms_nat now) (by exact_mod_cast hlt) h⟩
      · cases h

theorem mem_bucketEnds_iff {start stop step e : Nat} (hstep : 0 < step) :
    e ∈ bucketEnds start stop step ↔ start < e ∧ e ≤ stop ∧ step ∣ e - start := by
  rw [mem_bucketEnds]
  constructor
  · rintro ⟨i, hi, rfl⟩
    have hmul : (i + 1) * step ≤ stop - start := (Nat.le_div_iff_mul_le hstep).mp hi
    have hpos : step ≤ (i + 1) * step := Nat.le_mul_of_pos_left step (by omega)
    exact ⟨by omega, by omega, by simp⟩
  · rintro ⟨hlt, hle, j, hj⟩
    have hpos : 0 < j := by
      rcases Nat.eq_zero_or_pos j with rfl | hpos
      · omega
      · exact hpos
    refine ⟨j - 1, ?_, ?_⟩
    · have hdiv : j ≤ (stop - start) / step :=
        (Nat.le_div_iff_mul_le hstep).mpr (by rw [Nat.mul_comm, ← hj]; omega)
      omega
    · rw [Nat.sub_add_cancel hpos, Nat.mul_comm, ← hj]
      omega

/-- A bucket starts on the grid. -/
theorem mem_bucketEnds_prev {start stop step e : Nat} (hstep : 0 < step)
    (he : e ∈ bucketEnds start stop step) :
    start + step ≤ e ∧ e ≤ stop ∧ step ∣ (e - step) - start := by
  obtain ⟨hlt, hle, m, hm⟩ := (mem_bucketEnds_iff hstep).mp he
  have hpos : 0 < m := by
    rcases Nat.eq_zero_or_pos m with rfl | hpos
    · omega
    · exact hpos
  have hmul : step ≤ step * m := Nat.le_mul_of_pos_right _ hpos
  refine ⟨by omega, hle, m - 1, ?_⟩
  rw [Nat.mul_sub, Nat.mul_one]
  omega

/-- A bucket of a part is a bucket of the whole. -/
theorem ClosedIn.mono {start a b stop step : Nat} (hstep : 0 < step) (ha : start ≤ a) (hb : b ≤ stop)
    (hdvd : step ∣ a - start) {inc : Increment} (h : ClosedIn step a b inc) :
    ClosedIn step start stop inc := by
  obtain ⟨e, he, hin⟩ := h
  obtain ⟨hlt, hle, hdvd'⟩ := (mem_bucketEnds_iff hstep).mp he
  refine ⟨e, (mem_bucketEnds_iff hstep).mpr ⟨by omega, by omega, ?_⟩, hin⟩
  have hsum : e - start = (e - a) + (a - start) := by omega
  rw [hsum]
  exact Nat.dvd_add hdvd' hdvd

/-! ## The closed buckets -/

/-- Reads over a part of the buckets and reads over the rest cover all of them. -/
theorem count_parts (p : Nat → Bool) (f g : Nat → List Increment) (l : List Nat) (t : ℚ) :
    count t ((((l.filter fun x => !p x).flatMap f) ++ (l.filter p).flatMap g).map Increment.span) =
      count t ((l.flatMap fun x => if p x then g x else f x).map Increment.span) := by
  induction l with
  | nil => rfl
  | cons x l ih =>
    simp only [List.map_append, count_append] at ih
    cases hp : p x with
    | true =>
      simp only [List.filter_cons, hp, Bool.not_true, Bool.false_eq_true, if_false,
        if_true, List.flatMap_cons,
        List.map_append, count_append, ← ih]
      omega
    | false =>
      simp only [List.filter_cons, hp, Bool.not_false, Bool.false_eq_true, if_false,
        if_true, List.flatMap_cons,
        List.map_append, count_append, ← ih]
      omega

/-- The window of a bucket. -/
def wholeBucket (step stop : Nat) : Increment := ⟨stop - step, ((stop - step : Nat) : ℚ), (stop : ℚ)⟩

/-- The buckets of an aggregated read that are not dropped. -/
def aggregatedIncs (start stop step : Nat) (gaps : List Nat) : List Increment :=
  ((bucketEnds start stop step).filter fun t => !gaps.contains (t - step)).flatMap fun t =>
    [wholeBucket step t]

theorem adds_aggregated (hstep : 0 < v.step) {start stop : Nat} (hle : start ≤ stop)
    (hdvd : v.step ∣ stop - start) :
    Adds v kind plan
      (if stop > start then
        plan.push ⟨.aggregated v.step, .aggregated, .range (start + v.step) stop v.step ⟨some v.step, none⟩⟩
        else plan)
      (aggregatedIncs start stop v.step) := by
  split
  · rename_i hlt
    refine (adds_push rfl).congr ?_
    funext gaps
    simp only [View.kept, timesOf_eq hstep hlt hdvd, aggregatedIncs]
    rw [← List.map_eq_flatMap]
    refine List.map_congr_left fun t _ => ?_
    simp [wholeBucket, Selector.since]
  · rename_i hle'
    obtain rfl : start = stop := by omega
    refine (Adds.refl v kind plan).congr ?_
    funext gaps
    simp [aggregatedIncs, bucketEnds]

theorem aggregated_stamped {start stop step : Nat} {gaps : List Nat} {inc : Increment}
    (h : inc ∈ aggregatedIncs start stop step gaps) : ClosedIn step start stop inc := by
  obtain ⟨e, he, hinc⟩ := List.mem_flatMap.mp h
  obtain rfl := List.mem_singleton.mp hinc
  exact ⟨e, (List.mem_filter.mp he).1, rfl, le_rfl, le_rfl⟩

theorem covers_ends (hstep : 0 < v.step) {start stop : Nat} (hle : start ≤ stop)
    (hdvd : v.step ∣ stop - start) {f : Nat → List Increment}
    (hf : ∀ e, v.step ≤ e → Covers v kind ((e - v.step : Nat) : ℚ) e (f e)) :
    Covers v kind start stop ((bucketEnds start stop v.step).flatMap f) := by
  obtain ⟨m, hm⟩ := hdvd
  obtain rfl : stop = start + m * v.step := by
    rw [Nat.mul_comm]
    omega
  exact covers_buckets hstep hf m

theorem covers_wholeBucket (step e : Nat) : Covers v kind ((e - step : Nat) : ℚ) e [wholeBucket step e] :=
  covers_single _ (.inl rfl)

/-- A bucket's aggregated value is dropped where the bucket is one of the missing. -/
theorem contains_gaps (hstep : 0 < v.step) {start stop e : Nat} (p : Nat → Bool)
    (he : e ∈ bucketEnds start stop v.step) :
    (((bucketEnds start stop v.step).filter p).map (· - v.step)).contains (e - v.step) = p e := by
  have hmem : ∀ e' ∈ bucketEnds start stop v.step, v.step ≤ e' := by
    intro e' he'
    have := (mem_bucketEnds_prev hstep he').1
    omega
  rw [Bool.eq_iff_iff, List.contains_iff_mem, List.mem_map]
  constructor
  · rintro ⟨e', he', heq⟩
    obtain ⟨he'mem, hp⟩ := List.mem_filter.mp he'
    have h₁ := hmem e he
    have h₂ := hmem e' he'mem
    obtain rfl : e' = e := by omega
    exact hp
  · intro hp
    exact ⟨e, List.mem_filter.mpr ⟨he, hp⟩, rfl⟩

/-- Many buckets without aggregates: one raw range from the first of them. -/
theorem covers_many (hstep : 0 < v.step) (hhist : kind ≠ .histogram) {start mid closed : Nat}
    (hmid : start ≤ mid) (hle : mid ≤ closed) (hdvd : v.step ∣ mid - start) (hdvd' : v.step ∣ closed - mid) :
    Covers v kind start closed (aggregatedIncs start mid v.step [] ++ v.rawIncs kind mid closed closed) := by
  refine Covers.append ?_ (covers_raw hstep hle le_rfl hdvd' hhist)
    (by exact_mod_cast hmid) (by exact_mod_cast hle)
  have hall : aggregatedIncs start mid v.step [] = (bucketEnds start mid v.step).flatMap fun t =>
      [wholeBucket v.step t] := by
    simp [aggregatedIncs]
  rw [hall]
  exact covers_ends hstep hmid hdvd fun e _ => covers_wholeBucket v.step e

/-- A few buckets without aggregates: each is read raw in place of its aggregated value. -/
theorem covers_few (hstep : 0 < v.step) (hhist : kind ≠ .histogram) {start closed : Nat}
    (hle : start ≤ closed) (hdvd : v.step ∣ closed - start) (p : Nat → Bool) :
    Covers v kind start closed
      (aggregatedIncs start closed v.step (((bucketEnds start closed v.step).filter p).map (· - v.step)) ++
        ((bucketEnds start closed v.step).filter p).flatMap fun e => v.rawIncs kind (e - v.step) e e) := by
  have hfilter : ((bucketEnds start closed v.step).filter fun t =>
      !(((bucketEnds start closed v.step).filter p).map (· - v.step)).contains (t - v.step)) =
      (bucketEnds start closed v.step).filter fun t => !p t := by
    refine List.filter_congr fun e he => ?_
    rw [contains_gaps hstep p he]
  intro t ht
  rw [aggregatedIncs, hfilter, count_parts]
  refine covers_ends hstep hle hdvd (fun e he => ?_) t ht
  split
  · exact covers_raw hstep (by omega) le_rfl (by rw [show e - (e - v.step) = v.step by omega]) hhist
  · exact covers_wholeBucket v.step e

theorem closedReads_spec (hstep : 0 < v.step) (hkind : v.metrics kind ≠ []) (hhist : kind ≠ .histogram)
    {start closed : Nat} (hle : start ≤ closed) (hdvd : v.step ∣ closed - start) (coverage : Coverage)
    (counts : Nat → Option ℚ) :
    ∃ incs, Adds v kind plan (v.closedReads start closed coverage counts plan).1 incs ∧
      Covers v kind start closed (incs (v.closedReads start closed coverage counts plan).2) ∧
      ∀ inc ∈ incs (v.closedReads start closed coverage counts plan).2, ClosedIn v.step start closed inc := by
  unfold View.closedReads
  split
  · rename_i hlt
    simp only
    generalize hp : (fun stop : Nat => !coverage.complete ((stop - v.step : Nat) : ℚ) stop
      ((counts stop).getD 0)) = p
    by_cases hmany : ((bucketEnds start closed v.step).filter p).length > maxGapReads
    · have hne : (bucketEnds start closed v.step).filter p ≠ [] := by
        intro hnil
        rw [hnil] at hmany
        simp at hmany
      obtain ⟨first, rest, hfirst⟩ := List.exists_cons_of_ne_nil hne
      have hmem : first ∈ (bucketEnds start closed v.step).filter p := by
        rw [hfirst]
        simp
      obtain ⟨hfirst₁, hfirst₂, hmid⟩ := mem_bucketEnds_prev hstep (List.mem_filter.mp hmem).1
      have hmid' : v.step ∣ closed - (first - v.step) := by
        have hsplit : closed - start = (closed - (first - v.step)) + ((first - v.step) - start) := by omega
        exact (Nat.dvd_add_left hmid).mp (hsplit ▸ hdvd)
      have hhead : ((bucketEnds start closed v.step).filter p).headD 0 = first := by
        rw [hfirst]
        rfl
      rw [if_pos hmany, hhead, if_pos (show first - v.step < closed by omega)]
      refine ⟨_, (adds_aggregated hstep (by omega) hmid).trans (adds_raw hkind hhist _ _ _),
        covers_many hstep hhist (by omega) (by omega) hmid hmid', fun inc hinc => ?_⟩
      rcases List.mem_append.mp hinc with hinc | hinc
      · exact (aggregated_stamped hinc).mono hstep le_rfl (by omega) (by simp)
      · rcases raw_stamped hstep hmid' hinc with h | ⟨h, -⟩
        · exact h.mono hstep (by omega) le_rfl hmid
        · omega
    · rw [if_neg hmany, if_neg (lt_irrefl closed)]
      refine ⟨_, (adds_aggregated hstep hle hdvd).trans (adds_raws hkind hhist _),
        covers_few hstep hhist hle hdvd p,
        fun inc hinc => ?_⟩
      rcases List.mem_append.mp hinc with hinc | hinc
      · exact aggregated_stamped hinc
      · obtain ⟨e, he, hinc⟩ := List.mem_flatMap.mp hinc
        obtain ⟨he₁, he₂, hprev⟩ := mem_bucketEnds_prev hstep (List.mem_filter.mp he).1
        rcases raw_stamped hstep (by rw [show e - (e - v.step) = v.step by omega]) hinc with h | ⟨h, -⟩
        · exact h.mono hstep (by omega) he₂ hprev
        · omega
  · rename_i hnlt
    obtain rfl : start = closed := by omega
    exact ⟨fun _ => [], .refl v kind plan, covers_nil (.inl le_rfl), by simp⟩

/-! ## The bucket of the newest aggregated time, and the block -/

theorem openReads_spec (hstep : 0 < v.step) (hkind : v.metrics kind ≠ []) (hhist : kind ≠ .histogram)
    {boundary now straddle : Nat} (hbn : boundary ≤ now) (hsb : straddle ≤ boundary)
    {through : ℚ} (hms : Ms through)
    (hend : through ≤ ((if straddle < boundary then straddle + v.step else now : Nat) : ℚ))
    (coverage : Coverage) (openCount : ℚ) :
    ∃ incs, Adds v kind plan (v.openReads boundary now straddle through coverage openCount plan)
      (fun _ => incs) ∧
      Covers v kind straddle ((if straddle < boundary then straddle + v.step else now : Nat) : ℚ) incs ∧
      ∀ inc ∈ incs, StampedIn straddle straddle
        ((if straddle < boundary then straddle + v.step else now : Nat) : ℚ) inc := by
  unfold View.openReads
  simp only
  generalize hstop : (if straddle < boundary then straddle + v.step else now) = stop at hend ⊢
  split
  · rename_i hopen
    have hsum : Adds v kind plan
        (plan.push ⟨.sum straddle, .aggregated, .window (milliseconds straddle through) through⟩)
        fun _ => [⟨straddle, straddle, through⟩] := by
      refine (adds_push rfl).congr ?_
      funext gaps
      simp only [View.kept, sub_milliseconds (ms_nat straddle) hms hopen.1]
    have hcover : Covers v kind straddle through [⟨straddle, straddle, through⟩] := covers_single _ (.inl rfl)
    split
    · rename_i hlt
      refine ⟨_, hsum.trans (adds_partials hkind hhist through stop straddle),
        hcover.append (covers_rest hms (ms_nat stop) hlt hhist straddle) hopen.1.le hend, fun inc hinc => ?_⟩
      rcases List.mem_append.mp hinc with hinc | hinc
      · obtain rfl := List.mem_singleton.mp hinc
        exact ⟨rfl, le_rfl, hend⟩
      · obtain ⟨h₁, h₂, h₃⟩ := partial_stamped hms (ms_nat stop) hlt hinc
        exact ⟨h₁, hopen.1.le.trans h₂, h₃⟩
    · rename_i hle
      obtain rfl : through = stop := le_antisymm hend (not_lt.mp hle)
      refine ⟨_, hsum, hcover, fun inc hinc => ?_⟩
      obtain rfl := List.mem_singleton.mp hinc
      exact ⟨rfl, le_rfl, le_rfl⟩
  · split
    · rename_i hlt
      rw [if_pos hlt] at hstop
      subst hstop
      have hdvd : v.step ∣ straddle + v.step - straddle := by simp
      refine ⟨_, adds_raw hkind hhist _ _ _, covers_raw hstep (by omega) le_rfl hdvd hhist,
        fun inc hinc => ?_⟩
      rcases raw_stamped hstep hdvd hinc with ⟨e, he, h₁, h₂, h₃⟩ | ⟨h, -⟩
      · obtain ⟨he₁, he₂, -⟩ := mem_bucketEnds_prev hstep he
        obtain rfl : e = straddle + v.step := by omega
        rw [Nat.add_sub_cancel] at h₁
        exact ⟨h₁, h₁ ▸ h₂, h₃⟩
      · omega
    · rename_i hnlt
      rw [if_neg hnlt] at hstop
      subst hstop
      obtain rfl : straddle = boundary := by omega
      split
      · rename_i hlt
        have hlt' : (straddle : ℚ) < now := by exact_mod_cast hlt
        exact ⟨_, adds_partials hkind hhist _ _ _, covers_rest (ms_nat _) (ms_nat _) hlt' hhist _,
          fun inc hinc => partial_stamped (ms_nat _) (ms_nat _) hlt' hinc⟩
      · rename_i hle
        exact ⟨[], .refl v kind plan, covers_nil (.inl (by exact_mod_cast not_lt.mp hle)), by simp⟩

/-- The window lies in the bucket of its stamp: a closed one, or the partial one up to `now`. -/
def InBucket (start boundary step now : Nat) (inc : Increment) : Prop :=
  start ≤ inc.stamp ∧ step ∣ inc.stamp - start ∧ inc.stamp ≤ boundary ∧ (inc.stamp : ℚ) ≤ inc.span.1 ∧
    inc.span.2 ≤ ((if inc.stamp < boundary then inc.stamp + step else now : Nat) : ℚ)

theorem ClosedIn.inBucket {start boundary step now : Nat} (hstep : 0 < step) {inc : Increment}
    (h : ClosedIn step start boundary inc) : InBucket start boundary step now inc := by
  obtain ⟨e, he, h₁, h₂, h₃⟩ := h
  obtain ⟨he₁, he₂, hdvd⟩ := mem_bucketEnds_prev hstep he
  refine ⟨by omega, h₁ ▸ hdvd, by omega, h₂, ?_⟩
  rw [if_pos (by omega), show inc.stamp + step = e by omega]
  exact h₃

theorem closedEnd_spec {start boundary step : Nat} {through : ℚ} (hstep : 0 < step) (hsb : start ≤ boundary)
    (hdvd : step ∣ boundary - start) (hlt : (start : ℚ) ≤ through) :
    start ≤ closedEnd start boundary step through ∧ closedEnd start boundary step through ≤ boundary ∧
      step ∣ closedEnd start boundary step through - start ∧
      (closedEnd start boundary step through < boundary →
        through ≤ ((closedEnd start boundary step through + step : Nat) : ℚ)) := by
  have hfloor : start ≤ ⌊through⌋₊ := Nat.le_floor hlt
  refine ⟨le_min (Nat.le_add_right _ _) hsb, min_le_right _ _, ?_, fun hclosed => ?_⟩
  · unfold closedEnd
    rcases min_choice (start + (⌊through⌋₊ - start) / step * step) boundary with h | h
    · rw [h, Nat.add_sub_cancel_left]
      exact Nat.dvd_mul_left _ _
    · rw [h]
      exact hdvd
  · have heq : closedEnd start boundary step through = start + (⌊through⌋₊ - start) / step * step := by
      unfold closedEnd at hclosed ⊢
      rcases min_choice (start + (⌊through⌋₊ - start) / step * step) boundary with h | h
      · exact h
      · omega
    have hmod := Nat.lt_div_mul_add (a := ⌊through⌋₊ - start) hstep
    have hnat : ⌊through⌋₊ + 1 ≤ closedEnd start boundary step through + step := by omega
    have hup : through < (⌊through⌋₊ : ℚ) + 1 := Nat.lt_floor_add_one through
    have hcast : ((⌊through⌋₊ + 1 : Nat) : ℚ) ≤ (closedEnd start boundary step through + step : Nat) := by
      exact_mod_cast hnat
    push_cast at hcast ⊢
    linarith

theorem numbered_empty : Plan.Numbered ⟨0, []⟩ := by
  intro job hjob
  cases hjob

theorem Adds.of_empty {plan' : Plan} {incs : List Nat → List Increment}
    (h : Adds v kind ⟨0, []⟩ plan' incs) (gaps : List Nat) :
    v.increments plan' gaps kind = incs gaps := by
  rw [(h numbered_empty).2 gaps]
  rfl

theorem block_spec (hstep : 0 < v.step) (hkind : v.metrics kind ≠ []) (hhist : kind ≠ .histogram)
    {start boundary now : Nat} (hsb : start ≤ boundary) (hbn : boundary ≤ now)
    (hdvd : v.step ∣ boundary - start) (coverage : Option Coverage)
    (counts : Nat → Option ℚ) (openCount : ℚ) :
    Covers v kind start now (v.increments (v.block start boundary now coverage counts openCount).1
        (v.block start boundary now coverage counts openCount).2 kind) ∧
      ∀ inc ∈ v.increments (v.block start boundary now coverage counts openCount).1
        (v.block start boundary now coverage counts openCount).2 kind,
          InBucket start boundary v.step now inc := by
  have hpartial : ∀ inc, StampedIn boundary boundary now inc → InBucket start boundary v.step now inc := by
    rintro inc ⟨h₁, h₂, h₃⟩
    refine ⟨by omega, h₁ ▸ hdvd, h₁.le, h₁ ▸ h₂, ?_⟩
    rw [if_neg (by omega)]
    exact h₃
  unfold View.block
  split
  · rw [(adds_raw hkind hhist start boundary now).of_empty]
    refine ⟨covers_raw hstep hsb hbn hdvd hhist, fun inc hinc => ?_⟩
    rcases raw_stamped hstep hdvd hinc with h | ⟨-, h⟩
    · exact h.inBucket hstep
    · exact hpartial inc h
  · rename_i c hc
    have hafter : (start : ℚ) ≤ throughAt c now := by
      have hlt := (Option.filter_eq_some_iff.mp hc).2
      exact le_min (le_of_lt (by simpa using hlt)) (by exact_mod_cast hsb.trans hbn)
    obtain ⟨hclosed₁, hclosed₂, hclosed₃, hclosed₄⟩ := closedEnd_spec hstep hsb hdvd hafter
    simp only
    generalize closedEnd start boundary v.step (throughAt c now) =
      closed at hclosed₁ hclosed₂ hclosed₃ hclosed₄ ⊢
    have hend : throughAt c now ≤ ((if closed < boundary then closed + v.step else now : Nat) : ℚ) := by
      split
      · rename_i hlt
        exact hclosed₄ hlt
      · exact min_le_right _ _
    have hrest : v.step ∣ boundary - closed := by
      have hsplit : boundary - start = (boundary - closed) + (closed - start) := by omega
      exact (Nat.dvd_add_left hclosed₃).mp (hsplit ▸ hdvd)
    obtain ⟨incs, hadds, hcovers, hstamped⟩ :=
      @closedReads_spec v kind ⟨0, []⟩ hstep hkind hhist start closed hclosed₁ hclosed₃ c counts
    obtain ⟨incs', hadds', hcovers', hstamped'⟩ :=
      @openReads_spec v kind (v.closedReads start closed c counts ⟨0, []⟩).1 hstep hkind
        hhist boundary now closed hbn
        hclosed₂ (throughAt c now) (throughAt_ms c now) hend c openCount
    have hopen : ∀ inc ∈ incs', InBucket start boundary v.step now inc := by
      intro inc hinc
      obtain ⟨h₁, h₂, h₃⟩ := hstamped' inc hinc
      exact ⟨by omega, h₁ ▸ hclosed₃, by omega, h₁ ▸ h₂, h₁ ▸ h₃⟩
    have hboth : ∀ inc ∈ incs (v.closedReads start closed c counts ⟨0, []⟩).2 ++ incs',
        InBucket start boundary v.step now inc := by
      intro inc hinc
      rcases List.mem_append.mp hinc with hinc | hinc
      · exact ((hstamped inc hinc).mono hstep le_rfl hclosed₂ (by simp)).inBucket hstep
      · exact hopen inc hinc
    by_cases hlt : closed < boundary
    · have hnext : closed + v.step ≤ boundary := by
        have := Nat.le_of_dvd (by omega) hrest
        omega
      have hdvd' : v.step ∣ boundary - (closed + v.step) := by
        rw [← Nat.sub_sub]
        exact Nat.dvd_sub hrest (dvd_refl _)
      simp only [if_pos hlt] at hcovers' ⊢
      rw [((hadds.trans hadds').trans (adds_raw hkind hhist (closed + v.step) boundary now)).of_empty]
      refine ⟨?_, fun inc hinc => ?_⟩
      · refine ((hcovers.append hcovers' (by exact_mod_cast hclosed₁)
          (by exact_mod_cast Nat.le_add_right _ _)).append
          (covers_raw hstep hnext hbn hdvd' hhist) ?_ ?_)
        · exact_mod_cast hclosed₁.trans (Nat.le_add_right _ _)
        · exact_mod_cast hnext.trans hbn
      · rcases List.mem_append.mp hinc with hinc | hinc
        · exact hboth inc hinc
        · rcases raw_stamped hstep hdvd' hinc with h | ⟨-, h⟩
          · refine (h.mono hstep (by omega) le_rfl ?_).inBucket hstep
            rw [show closed + v.step - start = (closed - start) + v.step by omega]
            exact Nat.dvd_add hclosed₃ (dvd_refl _)
          · exact hpartial inc h
    · simp only [if_neg hlt] at hcovers' ⊢
      rw [(hadds.trans hadds').of_empty]
      exact ⟨hcovers.append hcovers' (by exact_mod_cast hclosed₁)
        (by exact_mod_cast hclosed₂.trans hbn), hboth⟩

end

/-- **Usage buckets count every instant once.** For each kind with a metric, the windows that are
kept are disjoint, make up `(start, now]`, and lie in the buckets of their stamps; the history is
counted up to the millisecond before its end. -/
theorem block_counts_once (v : View) (hstep : 0 < v.step) {kind : Kind} (hhist : kind ≠ .histogram)
    (hkind : v.metrics kind ≠ []) {start boundary now : Nat} (hsb : start ≤ boundary) (hbn : boundary ≤ now)
    (hdvd : v.step ∣ boundary - start) (coverage : Option Coverage)
    (counts : Nat → Option ℚ) (openCount : ℚ) :
    let planned := v.block start boundary now coverage counts openCount
    let incs := v.increments planned.1 planned.2 kind
    incs.Pairwise (fun a b => Disjoint (Set.Ioc a.span.1 a.span.2 ∩ v.clip kind)
      (Set.Ioc b.span.1 b.span.2 ∩ v.clip kind)) ∧
      (⋃ inc ∈ incs, Set.Ioc inc.span.1 inc.span.2) ∩ v.clip kind = Set.Ioc (start : ℚ) now ∩ v.clip kind ∧
      ∀ inc ∈ incs, InBucket start boundary v.step now inc := by
  obtain ⟨hcovers, hstamped⟩ := block_spec hstep hkind hhist hsb hbn hdvd coverage counts openCount
  have hdisjoint := hcovers.disjoint
  rw [List.pairwise_map] at hdisjoint
  refine ⟨hdisjoint, ?_, hstamped⟩
  have hunion := hcovers.union
  simpa using hunion

/-- One counter, two closed minutes and a partial one, aggregated up to 70 s. -/
theorem block_counts_once_minutes :
    let v : View := ⟨[⟨"codex", "tokens", .counter⟩], 60, 0, false⟩
    let planned := v.block 0 120 150 (some ⟨70000, 0, true⟩) (fun _ => none) 0
    (⋃ inc ∈ v.increments planned.1 planned.2 .counter, Set.Ioc inc.span.1 inc.span.2) ∩ v.clip .counter =
      Set.Ioc ((0 : Nat) : ℚ) (150 : Nat) ∩ v.clip .counter :=
  (block_counts_once ⟨[⟨"codex", "tokens", .counter⟩], 60, 0, false⟩ (by decide)
    (by decide) (by decide) (by decide)
    (by decide) (by decide) (some ⟨70000, 0, true⟩) (fun _ => none) 0).2.1

end HomeStack.Usage

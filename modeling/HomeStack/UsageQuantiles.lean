import HomeStack.UsageGaps

/-! The windows of a quantile read (`quantiles` of `hs-usage/src/planner.rs`): aggregated terms
between the runs, raw terms over them and after the newest aggregated minute, and the reads behind
the timeline of closed buckets. -/

namespace HomeStack.Usage

open Spans

/-! ## The terms of the total -/

/-- A term of the query: from the raw series or the aggregates, over a window. -/
structure Term where
  raw : Bool
  window : ℚ × ℚ

/-- A range selector of whole milliseconds that ends at `stop`. -/
def windowTo (start stop : ℚ) : ℚ × ℚ := (fixed stop - (milliseconds start stop : ℚ) / 1000, fixed stop)

/-- The loop over the runs; `start` is where the last one ended. -/
def termsFrom (start : ℚ) : List (ℚ × ℚ) → List Term
  | [] => []
  | (a, b) :: runs =>
    (if a > start then [⟨false, windowTo start a⟩] else []) ++
      (if b > a then [⟨true, windowTo a b⟩] else []) ++
      termsFrom b runs

def terms (start through now : ℚ) (runs : List (ℚ × ℚ)) : List Term :=
  termsFrom start (runs ++ [(through, now)])

/-- The windows of the raw terms, or of the others. -/
def windowsOf (raw : Bool) (ts : List Term) : List (ℚ × ℚ) :=
  (ts.filter fun term => term.raw == raw).map Term.window

/-- Spans of whole milliseconds, one after the other from `start` to `stop`. -/
def Chained (start : ℚ) : List (ℚ × ℚ) → ℚ → Prop
  | [], stop => start = stop
  | (a, b) :: l, stop => start ≤ a ∧ a ≤ b ∧ Ms start ∧ Ms a ∧ Ms b ∧ Chained b l stop

theorem Chained.le {start stop : ℚ} {l : List (ℚ × ℚ)} (h : Chained start l stop) : start ≤ stop := by
  induction l generalizing start with
  | nil => exact le_of_eq h
  | cons w l ih =>
    obtain ⟨hsa, hab, -, -, -, hrest⟩ := h
    exact hsa.trans (hab.trans (ih hrest))

theorem windowTo_ms {a b : ℚ} (ha : Ms a) (hb : Ms b) (hab : a < b) : windowTo a b = (a, b) := by
  rw [windowTo, fixed_ms hb, sub_milliseconds ha hb hab]

/-- A term that is left out would have been empty. -/
theorem count_optional {a b : ℚ} (ha : Ms a) (hb : Ms b) (raw : Bool) (t : ℚ) :
    count t (windowsOf raw (if b > a then [⟨raw, windowTo a b⟩] else [])) = if Inside t (a, b) then
      1 else 0 := by
  split
  · rename_i hab
    simp [windowsOf, windowTo_ms ha hb hab]
  · rename_i hab
    rw [if_neg (not_inside_empty (not_lt.mp hab) t)]
    rfl

theorem windowsOf_append (raw : Bool) (ts us : List Term) :
    windowsOf raw (ts ++ us) = windowsOf raw ts ++ windowsOf raw us := by
  simp [windowsOf]

theorem windowsOf_other {raw : Bool} {c : Prop} [Decidable c] {w : ℚ × ℚ} :
    windowsOf raw (if c then [⟨!raw, w⟩] else []) = [] := by
  split
  · simp [windowsOf]
  · rfl

/-- The raw terms count the spans, the others what is between them. -/
theorem termsFrom_count {start stop : ℚ} {l : List (ℚ × ℚ)} (h : Chained start l stop) (t : ℚ) :
    count t (windowsOf true (termsFrom start l)) = count t l ∧
      count t (windowsOf false (termsFrom start l)) + count t l = if Inside t (start, stop) then
        1 else 0 := by
  induction l generalizing start with
  | nil =>
    obtain rfl : start = stop := h
    rw [if_neg (not_inside_empty le_rfl t)]
    exact ⟨rfl, rfl⟩
  | cons w l ih =>
    obtain ⟨a, b⟩ := w
    obtain ⟨hsa, hab, hs, ha, hb, hrest⟩ := h
    obtain ⟨hraw, hagg⟩ := ih hrest
    have hraw₀ := count_optional ha hb true t
    have hagg₀ := count_optional hs ha false t
    have hnone₁ := @windowsOf_other true (a > start) _ (windowTo start a)
    have hnone₂ := @windowsOf_other false (b > a) _ (windowTo a b)
    simp only [Bool.not_true, Bool.not_false] at hnone₁ hnone₂
    have hjoin₁ := inside_join hsa (hab.trans hrest.le) t
    have hjoin₂ := inside_join hab hrest.le t
    rw [termsFrom, windowsOf_append, windowsOf_append, windowsOf_append, windowsOf_append, hnone₁, hnone₂]
    simp only [count_append, count_nil, hraw₀, hagg₀, hraw, count_cons, Nat.zero_add, Nat.add_zero]
    omega

/-- Runs and what follows them are a chain. -/
theorem chained_of_runs {start through now : ℚ} {runs : List (ℚ × ℚ)} (h : Runs start through runs)
    (hs : Ms start) (hle : start ≤ through) (hthrough : Ms through) (hnow : Ms now)
    (hms : ∀ run ∈ runs, Ms run.1 ∧ Ms run.2) (hlast : through ≤ now) :
    Chained start (runs ++ [(through, now)]) now := by
  induction runs generalizing start with
  | nil => exact ⟨hle, hlast, hs, hthrough, hnow, rfl⟩
  | cons run runs ih =>
    obtain ⟨a, b⟩ := run
    obtain ⟨hsa, hab, hb⟩ := h.within (a, b) (by simp)
    obtain ⟨hms₁, hms₂⟩ := hms (a, b) (by simp)
    obtain ⟨hnext, hsorted⟩ := List.pairwise_cons.mp h.sorted
    refine ⟨hsa, hab.le, hs, hms₁, hms₂, ih ⟨hsorted, fun run hrun => ?_⟩ hms₂ hb
      fun run hrun => hms run (List.mem_cons_of_mem _ hrun)⟩
    have hrun' := h.within run (List.mem_cons_of_mem _ hrun)
    exact ⟨(hnext run hrun).le, hrun'.2⟩

theorem count_terms (t : ℚ) (ts : List Term) :
    count t (ts.map Term.window) = count t (windowsOf true ts) + count t (windowsOf false ts) := by
  induction ts with
  | nil => rfl
  | cons term ts ih =>
    cases hraw : term.raw with
    | false =>
      simp only [List.map_cons, count_cons, ih, windowsOf, List.filter_cons, hraw]
      simp
      omega
    | true =>
      simp only [List.map_cons, count_cons, ih, windowsOf, List.filter_cons, hraw]
      simp
      omega

theorem inside_windowsOf {t : ℚ} {raw : Bool} {ts : List Term} :
    0 < count t (windowsOf raw ts) ↔ ∃ term ∈ ts, term.raw = raw ∧ Inside t term.window := by
  rw [count_pos_iff]
  constructor
  · rintro ⟨w, hw, hin⟩
    obtain ⟨term, hterm, rfl⟩ := List.mem_map.mp hw
    obtain ⟨hmem, hraw⟩ := List.mem_filter.mp hterm
    exact ⟨term, hmem, by simpa using hraw, hin⟩
  · rintro ⟨term, hmem, hraw, hin⟩
    exact ⟨term.window, List.mem_map_of_mem (List.mem_filter.mpr ⟨hmem, by simpa using hraw⟩), hin⟩

/-! ## The timeline of closed buckets -/

section

variable (start boundary step : Nat) (through : ℚ) (runs : List (ℚ × ℚ))

/-- The end of the newest closed bucket that ends by `through`. -/
def closedEnd : Nat := min (start + (⌊through⌋₊ - start) / step * step) boundary

/-- The ends of the closed buckets. -/
def bucketEnds : List Nat := (List.range ((boundary - start) / step)).map fun i => start + (i + 1) * step

/-- The bucket is after `closedEnd`, or some run meets it. -/
def readRaw (stop : Nat) : Bool :=
  closedEnd start boundary step through < stop || runs.any fun (a, b) =>
    ((stop - step : Nat) : ℚ) < b && a < (stop : ℚ)

def rawEnds : List Nat := (bucketEnds start boundary step).filter (readRaw start boundary step through runs)

/-- A range read: raw or aggregated, and its `start` and `end`. -/
structure TimelineRead where
  raw : Bool
  first : Nat
  last : Nat

/-- The reads of the timeline, in their order. -/
def timelineReads : List TimelineRead :=
  let closed := closedEnd start boundary step through
  let ends := rawEnds start boundary step through runs
  (if closed > start then [⟨false, start + step, closed⟩] else []) ++
    (match ends.head?, ends.getLast? with
    | some first, some last => [⟨true, first, last⟩]
    | _, _ => [])

/-- The times at which a range query is evaluated. -/
def TimelineRead.times (read : TimelineRead) : Set Nat :=
  {t | read.first ≤ t ∧ t ≤ read.last ∧ step ∣ t - read.first}

/-- A sample of the read at this index is kept. -/
def keptFrom (index stop : Nat) : Bool :=
  let aggregated := index == 0 && start < closedEnd start boundary step through
  aggregated != (rawEnds start boundary step through runs).contains stop

/-- A bucket's point is asked for, and kept, from a raw or an aggregated read. -/
def PointFrom (raw : Bool) (stop : Nat) : Prop :=
  ∃ index read, (timelineReads start boundary step through runs)[index]? = some read ∧ read.raw = raw ∧
    stop ∈ read.times step ∧ keptFrom start boundary step through runs index stop = true

end

section

variable {start boundary step : Nat} {through : ℚ} {runs : List (ℚ × ℚ)}

theorem mem_bucketEnds {stop : Nat} : stop ∈ bucketEnds start boundary step ↔
    ∃ i < (boundary - start) / step, stop = start + (i + 1) * step := by
  simp [bucketEnds, eq_comm]

theorem step_pos_of_mem {stop : Nat} (h : stop ∈ bucketEnds start boundary step) : 0 < step := by
  obtain ⟨i, hi, -⟩ := mem_bucketEnds.1 h
  rcases Nat.eq_zero_or_pos step with rfl | hpos
  · simp at hi
  · exact hpos

theorem mem_rawEnds {stop : Nat} (h : stop ∈ bucketEnds start boundary step) :
    (rawEnds start boundary step through runs).contains stop =
      readRaw start boundary step through runs stop := by
  rw [List.contains_eq_mem]
  simp [rawEnds, h]

theorem rawEnds_sorted : (rawEnds start boundary step through runs).Pairwise (· ≤ ·) := by
  refine List.Pairwise.filter _ (List.pairwise_map.mpr ?_)
  refine (List.pairwise_lt_range).imp fun {a b} hab => ?_
  have hmul : (a + 1) * step ≤ (b + 1) * step := Nat.mul_le_mul_right step (by omega)
  omega

/-- The raw read asks for every bucket that is read raw. -/
theorem mem_times_of_rawEnds {stop first last : Nat} (hstop : stop ∈ rawEnds start boundary step through runs)
    (hfirst : (rawEnds start boundary step through runs).head? = some first)
    (hlast : (rawEnds start boundary step through runs).getLast? = some last) :
    stop ∈ TimelineRead.times step ⟨true, first, last⟩ := by
  have hsorted := @rawEnds_sorted start boundary step through runs
  have hends : ∀ e ∈ rawEnds start boundary step through runs, ∃ i, e = start + (i + 1) * step := by
    intro e he
    obtain ⟨i, -, hi⟩ := mem_bucketEnds.1 (List.mem_filter.mp he).1
    exact ⟨i, hi⟩
  obtain ⟨i, hi⟩ := hends stop hstop
  obtain ⟨j, hj⟩ := hends first (List.mem_of_mem_head? hfirst)
  refine ⟨?_, ?_, ?_⟩
  · obtain ⟨rest, hrest⟩ := List.head?_eq_some_iff.mp hfirst
    rw [hrest] at hstop hsorted
    rcases List.mem_cons.mp hstop with rfl | hmem
    · exact le_rfl
    · exact (List.pairwise_cons.mp hsorted).1 stop hmem
  · obtain ⟨init, hinit⟩ := List.getLast?_eq_some_iff.mp hlast
    rw [hinit] at hstop hsorted
    rcases List.mem_append.mp hstop with hmem | hmem
    · exact (List.pairwise_append.mp hsorted).2.2 stop hmem last (by simp)
    · obtain rfl := List.mem_singleton.mp hmem
      exact le_rfl
  · refine ⟨i - j, ?_⟩
    simp only
    rw [hi, hj, Nat.add_sub_add_left, ← Nat.sub_mul, Nat.mul_comm]
    congr 1
    omega

/-- The aggregated read, when some bucket is closed, and the raw read after it. -/
theorem timelineReads_get {index : Nat} {read : TimelineRead} :
    (timelineReads start boundary step through runs)[index]? = some read ↔
      (start < closedEnd start boundary step through ∧ index = 0 ∧
        read = ⟨false, start + step, closedEnd start boundary step through⟩) ∨
      ∃ first last, (rawEnds start boundary step through runs).head? = some first ∧
        (rawEnds start boundary step through runs).getLast? = some last ∧
        index = (if start < closedEnd start boundary step through then 1 else 0) ∧
          read = ⟨true, first, last⟩ := by
  simp only [timelineReads, gt_iff_lt]
  generalize closedEnd start boundary step through = closed
  have hsome : ∀ {ends : List Nat} {first : Nat}, ends.head? = some first →
      ∃ last, ends.getLast? = some last := by
    intro ends first hfirst
    cases ends with
    | nil => cases hfirst
    | cons e ends => exact ⟨_, List.getLast?_cons⟩
  cases hfirst : (rawEnds start boundary step through runs).head? with
  | none =>
    by_cases hclosed : start < closed
    · rcases index with _ | index <;> simp [hclosed, eq_comm]
    · simp [hclosed]
  | some first =>
    obtain ⟨last, hlast⟩ := hsome hfirst
    rw [hlast]
    by_cases hclosed : start < closed
    · rcases index with _ | _ | index <;> simp [hclosed, eq_comm]
    · rcases index with _ | index <;> simp [hclosed, eq_comm]

/-- A closed bucket's point comes from the raw read where the bucket is read raw, and from the
aggregated one elsewhere. -/
theorem pointFrom_iff {stop : Nat} (hstop : stop ∈ bucketEnds start boundary step) (raw : Bool) :
    PointFrom start boundary step through runs raw stop ↔
      readRaw start boundary step through runs stop = raw := by
  have hcontains := @mem_rawEnds start boundary step through runs stop hstop
  constructor
  · rintro ⟨index, read, hread, rfl, -, hkept⟩
    unfold keptFrom at hkept
    rw [hcontains] at hkept
    rcases timelineReads_get.1 hread with ⟨hclosed, rfl, rfl⟩ | ⟨first, last, -, -, rfl, rfl⟩
    · simpa [hclosed] using hkept
    · by_cases hclosed : start < closedEnd start boundary step through
      · simpa [hclosed] using hkept
      · simpa [hclosed] using hkept
  · intro hraw
    cases raw with
    | true =>
      have hmem : stop ∈ rawEnds start boundary step through runs := List.mem_filter.mpr ⟨hstop, hraw⟩
      have hne := List.ne_nil_of_mem hmem
      have hfirst := List.head?_eq_some_head hne
      have hlast := List.getLast?_eq_some_getLast hne
      refine ⟨_, _, timelineReads_get.2 (.inr ⟨_, _, hfirst, hlast, rfl, rfl⟩), rfl,
        mem_times_of_rawEnds hmem hfirst hlast, ?_⟩
      unfold keptFrom
      rw [hcontains, hraw]
      by_cases hclosed : start < closedEnd start boundary step through
      · simp [hclosed]
      · simp [hclosed]
    | false =>
      have hpos := step_pos_of_mem hstop
      obtain ⟨i, -, hi⟩ := mem_bucketEnds.1 hstop
      have hle : stop ≤ closedEnd start boundary step through := by
        simp only [readRaw, Bool.or_eq_false_iff, decide_eq_false_iff_not, not_lt] at hraw
        exact hraw.1
      have hmul : step ≤ (i + 1) * step := Nat.le_mul_of_pos_left step (by omega)
      have hclosed : start < closedEnd start boundary step through := by omega
      refine ⟨0, _, timelineReads_get.2 (.inl ⟨hclosed, rfl, rfl⟩), rfl, ⟨?_, hle, ⟨i, ?_⟩⟩, ?_⟩
      · simp only
        omega
      · simp only
        rw [hi, Nat.add_sub_add_left, Nat.add_mul, Nat.one_mul, Nat.add_sub_cancel, Nat.mul_comm]
      · unfold keptFrom
        rw [hcontains, hraw]
        simp [hclosed]

end

theorem readRaw_iff {start boundary step stop : Nat} {through : ℚ} {runs : List (ℚ × ℚ)} :
    readRaw start boundary step through runs stop = true ↔
      closedEnd start boundary step through < stop ∨ ∃ run ∈ runs, ((stop - step : Nat) : ℚ) < run.2 ∧
        run.1 < stop := by
  simp [readRaw, List.any_eq_true]

/-- The newest aggregated time a view at `now` can use. -/
def throughAt (coverage : Coverage) (now : Nat) : ℚ := min coverage.throughSeconds now

theorem throughAt_ms (coverage : Coverage) (now : Nat) : Ms (throughAt coverage now) := by
  rcases min_choice coverage.throughSeconds (now : ℚ) with h | h
  · rw [throughAt, h]
    exact ⟨coverage.through, rfl⟩
  · rw [throughAt, h]
    exact ms_nat now

theorem gaps_some {coverage : Coverage} {answer : List (ℚ × ℚ)} {start through : ℚ} {runs : List (ℚ × ℚ)}
    (h : gaps coverage answer start through = some runs) : runs = gapRuns coverage answer start through := by
  unfold gaps at h
  simp only at h
  split at h
  · exact (Option.some.inj h).symm
  · cases h

/-- **The runs are the rejected hours, and the windows of a quantile read split its range**: the raw
terms are the runs and what follows the newest aggregated time, the aggregated terms the rest, and
a closed bucket's point comes from the raw read just where it ends after `closedEnd` or meets a run. -/
theorem gaps_and_quantiles_exact (coverage : Coverage) (answer : List (ℚ × ℚ)) :
    (∀ start through : ℚ, start < through →
      Runs start through (gapRuns coverage answer start through) ∧
      ∀ t, (∃ run ∈ gapRuns coverage answer start through, Inside t run) ↔
        start < t ∧ ∃ k : Nat, rejected coverage answer (through - k * 3600) = true ∧
          Inside t (through - k * 3600 - 3600, through - k * 3600)) ∧
    (∀ (start boundary step now : Nat) (runs : List (ℚ × ℚ)), (start : ℚ) < throughAt coverage now →
      gaps coverage answer start (throughAt coverage now) = some runs →
      ((terms start (throughAt coverage now) now runs).map Term.window).Pairwise
        (fun v w => Disjoint (Set.Ioc v.1 v.2) (Set.Ioc w.1 w.2)) ∧
      (⋃ w ∈ (terms start (throughAt coverage now) now runs).map Term.window, Set.Ioc w.1 w.2) =
        Set.Ioc (start : ℚ) now ∧
      (∀ t, (∃ term ∈ terms start (throughAt coverage now) now runs, term.raw = true ∧ Inside t term.window) ↔
        (∃ run ∈ runs, Inside t run) ∨ Inside t (throughAt coverage now, (now : ℚ))) ∧
      (∀ t, (∃ term ∈ terms start (throughAt coverage now) now runs, term.raw = false ∧
        Inside t term.window) ↔
        Inside t ((start : ℚ), (now : ℚ)) ∧ ¬ ((∃ run ∈ runs, Inside t run) ∨
          Inside t (throughAt coverage now, (now : ℚ)))) ∧
      ∀ stop ∈ bucketEnds start boundary step,
        (PointFrom start boundary step (throughAt coverage now) runs true stop ↔
          closedEnd start boundary step (throughAt coverage now) < stop ∨
            ∃ run ∈ runs, ((stop - step : Nat) : ℚ) < run.2 ∧ run.1 < stop) ∧
        (PointFrom start boundary step (throughAt coverage now) runs false stop ↔
          ¬ PointFrom start boundary step (throughAt coverage now) runs true stop)) := by
  refine ⟨fun start through h => gapRuns_spec h, fun start boundary step now runs h hgaps => ?_⟩
  obtain rfl := gaps_some hgaps
  have hruns := (@gapRuns_spec coverage answer start (throughAt coverage now) h).1
  have hms := @gapRuns_ms coverage answer _ _ h (ms_nat start) (throughAt_ms coverage now)
  generalize gapRuns coverage answer start (throughAt coverage now) = runs at hruns hms
  have hchain := chained_of_runs hruns (ms_nat start) h.le (throughAt_ms coverage now)
    (ms_nat now) hms (min_le_right _ _)
  have hraw : ∀ t, 0 < count t (windowsOf true (terms start (throughAt coverage now) now runs)) ↔
      (∃ run ∈ runs, Inside t run) ∨ Inside t (throughAt coverage now, (now : ℚ)) := by
    intro t
    rw [terms, (termsFrom_count hchain t).1, count_pos_iff, inside_concat]
  have hsplit : Splits Set.univ (start : ℚ) now
      ((terms start (throughAt coverage now) now runs).map Term.window) := by
    intro t _
    have hcount := termsFrom_count hchain t
    rw [count_terms, terms, hcount.1, Nat.add_comm]
    exact hcount.2
  refine ⟨?_, ?_, fun t => ?_, fun t => ?_, fun stop hstop => ⟨?_, ?_⟩⟩
  · simpa using hsplit.disjoint
  · simpa using hsplit.union
  · rw [← inside_windowsOf, hraw]
  · have hcount := hsplit t trivial
    rw [count_terms] at hcount
    rw [← inside_windowsOf, ← hraw]
    by_cases hin : Inside t ((start : ℚ), (now : ℚ))
    · rw [if_pos hin] at hcount
      simp only [hin, true_and]
      omega
    · rw [if_neg hin] at hcount
      simp only [hin, false_and, iff_false]
      omega
  · rw [pointFrom_iff hstop, readRaw_iff]
  · rw [pointFrom_iff hstop, pointFrom_iff hstop, Bool.not_eq_true]

/-- One hour of two without aggregates: its bucket is read raw. -/
theorem gaps_and_quantiles_hour :
    gaps ⟨7200000, 0, true⟩ [(7200, 60)] (0 : Nat) (throughAt ⟨7200000, 0, true⟩ 7300) = some [(0, 3600)] ∧
    PointFrom 0 7200 3600 (throughAt ⟨7200000, 0, true⟩ 7300) [(0, 3600)] true 3600 := by
  have hgaps : gaps ⟨7200000, 0, true⟩ [(7200, 60)] (0 : Nat) (throughAt ⟨7200000, 0, true⟩ 7300) =
      some [(0, 3600)] := by
    decide +kernel
  have hthrough : ((0 : Nat) : ℚ) < throughAt ⟨7200000, 0, true⟩ 7300 := by decide +kernel
  obtain ⟨-, -, -, -, hpoints⟩ :=
    (gaps_and_quantiles_exact ⟨7200000, 0, true⟩ [(7200, 60)]).2 0 7200 3600 7300 [(0, 3600)] hthrough hgaps
  exact ⟨hgaps, (hpoints 3600 (by decide)).1.mpr (.inr ⟨(0, 3600), by simp, by norm_num, by norm_num⟩)⟩

end HomeStack.Usage

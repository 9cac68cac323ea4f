import Mathlib.Data.Rat.Floor
import Mathlib.Algebra.Order.Archimedean.Basic
import HomeStack.Lib.Spans

/-! Which minutes the recording rules have aggregated (`Coverage` of `hs-usage/src/planner.rs`), and
the runs of hours that they have not (`gaps`). Times are exact rationals, in seconds. -/

namespace HomeStack.Usage

open Spans

/-! ## Coverage -/

/-- Minutes aggregated by the installed rules, in Unix milliseconds. -/
structure Coverage where
  through : Nat
  oldest : Nat
  fromFirst : Bool

namespace Coverage

def throughSeconds (c : Coverage) : ℚ := c.through / 1000

/-- Whether `count` aggregated minutes cover `(start, stop]`, with one minute of slack. -/
def complete (c : Coverage) (start stop count : ℚ) : Bool :=
  let oldest : ℚ := c.oldest / 1000
  if start + 60 < oldest ∧ !c.fromFirst then false
  else decide (count + 1 ≥ ⌊(stop - max start oldest) / 60⌋)

end Coverage

/-- More unaggregated runs than this are read as one raw range. -/
def maxGapReads : Nat := 8

/-! ## Milliseconds -/

/-- The `round` and the cast of the millisecond keys. -/
def key (t : ℚ) : Nat := ⌊t * 1000 + 1 / 2⌋₊

def milliseconds (start stop : ℚ) : Nat := max 1 (key (stop - start))

/-- `{:.3}` of a time -/
def fixed (t : ℚ) : ℚ := key t / 1000

/-- A whole number of milliseconds. -/
def Ms (t : ℚ) : Prop := ∃ n : Nat, t = n / 1000

theorem ms_nat (n : Nat) : Ms n := ⟨n * 1000, by push_cast; ring⟩

theorem key_ms {t : ℚ} {n : Nat} (h : t = n / 1000) : key t = n := by
  have hval : t * 1000 + 1 / 2 = (n : ℚ) + 1 / 2 := by
    rw [h]
    ring
  rw [key, hval, Nat.floor_eq_iff (by positivity)]
  constructor
  · linarith
  · linarith

theorem fixed_ms {t : ℚ} (h : Ms t) : fixed t = t := by
  obtain ⟨n, hn⟩ := h
  rw [fixed, key_ms hn, hn]

/-- A window of whole milliseconds starts where it should. -/
theorem sub_milliseconds {a b : ℚ} (ha : Ms a) (hb : Ms b) (hab : a < b) :
    b - (milliseconds a b : ℚ) / 1000 = a := by
  obtain ⟨m, rfl⟩ := ha
  obtain ⟨n, rfl⟩ := hb
  have hmn : m < n := by
    have : (m : ℚ) < n := by linarith
    exact_mod_cast this
  have hdiff : (n : ℚ) / 1000 - m / 1000 = ((n - m : Nat) : ℚ) / 1000 := by
    rw [Nat.cast_sub hmn.le]
    ring
  rw [milliseconds, key_ms hdiff, max_eq_right (by omega), Nat.cast_sub hmn.le]
  ring

/-! ## Runs of hours without aggregates -/

/-- The newest answer with this key. -/
def countAt (answer : List (ℚ × ℚ)) (k : Nat) : ℚ :=
  ((answer.reverse.find? fun s => key s.1 = k).map Prod.snd).getD 0

section

variable (coverage : Coverage) (answer : List (ℚ × ℚ)) (start through : ℚ)

/-- The hour that ends at `stop` is not aggregated. -/
def rejected (stop : ℚ) : Bool := !coverage.complete (stop - 3600) stop (countAt answer (key stop))

/-- One turn of the loop of `gaps`. -/
def addHour (runs : List (ℚ × ℚ)) (stop : ℚ) : List (ℚ × ℚ) :=
  if rejected coverage answer stop then
    -- the last run grows when the hour starts where it ends
    extend runs (max (stop - 3600) start, stop)
  else runs

def hours : Nat := max 1 ⌈(through - start) / 3600⌉₊

/-- The end of the first hour. -/
def firstHour : ℚ := through - ((hours start through - 1 : Nat) : ℚ) * 3600

/-- The runs after the first `n` hours. -/
def runsAfter (n : Nat) : List (ℚ × ℚ) :=
  (List.range n).foldl (fun runs i => addHour coverage answer start runs
    (firstHour start through + i * 3600)) []

/-- The runs of `gaps`. -/
def gapRuns : List (ℚ × ℚ) := runsAfter coverage answer start through (hours start through)

def gaps : Option (List (ℚ × ℚ)) :=
  let runs := gapRuns coverage answer start through
  if runs.length ≤ maxGapReads then some runs else none

end

/-! ## What the runs are -/

section

variable {coverage : Coverage} {answer : List (ℚ × ℚ)} {start through : ℚ}

/-- One more hour keeps the order, and adds just the hour. -/
theorem addHour_runs {runs : List (ℚ × ℚ)} {stop : ℚ} (hruns : Runs start (stop - 3600) runs)
    (hstart : start < stop) :
    Runs start stop (addHour coverage answer start runs stop) ∧
    ∀ t, (∃ run ∈ addHour coverage answer start runs stop, Inside t run) ↔
      (∃ run ∈ runs, Inside t run) ∨
        rejected coverage answer stop = true ∧ start < t ∧ Inside t (stop - 3600, stop) := by
  unfold addHour
  split
  · rename_i hrej
    have hfrom : max (stop - 3600) start < stop := max_lt (by linarith) hstart
    obtain ⟨hext, hpoints⟩ :=
      extend_runs (w := (max (stop - 3600) start, stop)) hruns (le_max_left _ _) (le_max_right _ _) hfrom
    refine ⟨hext, fun t => ?_⟩
    have hclip : Inside t (max (stop - 3600) start, stop) ↔ start < t ∧ Inside t (stop - 3600, stop) := by
      rw [Inside, Inside, max_lt_iff, and_comm (b := start < t), and_assoc]
    rw [hpoints, hclip, hrej]
    simp
  · rename_i hrej
    refine ⟨hruns.mono (by linarith), fun t => ?_⟩
    simp [hrej]

theorem hours_pos : 0 < hours start through := by
  unfold hours
  omega

/-- The first hour ends after `start`, and starts at or before it. -/
theorem firstHour_bounds (h : start < through) :
    start < firstHour start through ∧ firstHour start through - 3600 ≤ start := by
  have hpos : 0 < (through - start) / 3600 := by
    have : 0 < through - start := by linarith
    positivity
  have hceil : 0 < ⌈(through - start) / 3600⌉₊ := Nat.ceil_pos.mpr hpos
  have hn : hours start through = ⌈(through - start) / 3600⌉₊ := max_eq_right hceil
  have hlt : ((hours start through - 1 : Nat) : ℚ) < (through - start) / 3600 := by
    rw [hn, ← Nat.lt_ceil]
    omega
  have hle : (through - start) / 3600 ≤ hours start through := by
    rw [hn]
    exact Nat.le_ceil _
  have hcast : ((hours start through - 1 : Nat) : ℚ) = hours start through - 1 := by
    rw [Nat.cast_sub hours_pos]
    norm_num
  unfold firstHour
  rw [hcast] at hlt ⊢
  constructor
  · linarith
  · linarith

theorem runsAfter_succ (n : Nat) : runsAfter coverage answer start through (n + 1) =
    addHour coverage answer start (runsAfter coverage answer start through n)
      (firstHour start through + n * 3600) := by
  simp [runsAfter, List.range_succ]

/-- What holds after each hour: the runs so far are the rejected hours so far. -/
theorem runsAfter_spec (h : start < through) (n : Nat) :
    Runs start (firstHour start through + n * 3600 - 3600) (runsAfter coverage answer start through n) ∧
    ∀ t, (∃ run ∈ runsAfter coverage answer start through n, Inside t run) ↔
      start < t ∧ ∃ i < n, rejected coverage answer (firstHour start through + i * 3600) = true ∧
        Inside t (firstHour start through + i * 3600 - 3600, firstHour start through + i * 3600) := by
  obtain ⟨hfirst, hbefore⟩ := firstHour_bounds h
  induction n with
  | zero => exact ⟨runs_nil _ _, by simp [runsAfter]⟩
  | succ n ih =>
    obtain ⟨hruns, hpoints⟩ := ih
    have hn : (0 : ℚ) ≤ n * 3600 := by positivity
    have hstop : start < firstHour start through + n * 3600 := by linarith
    obtain ⟨hruns', hpoints'⟩ := addHour_runs hruns hstop
    rw [runsAfter_succ]
    refine ⟨hruns'.mono (by push_cast; linarith), fun t => ?_⟩
    rw [hpoints', hpoints, Nat.exists_lt_succ_right, and_or_left, and_left_comm]

/-- **The runs are the rejected hours**: in order, not touching, within `(start, through]`, and
together the rejected hours that end a whole number of hours before `through`, after `start`. -/
theorem gapRuns_spec (h : start < through) :
    Runs start through (gapRuns coverage answer start through) ∧
    ∀ t, (∃ run ∈ gapRuns coverage answer start through, Inside t run) ↔
      start < t ∧ ∃ k : Nat, rejected coverage answer (through - k * 3600) = true ∧
        Inside t (through - k * 3600 - 3600, through - k * 3600) := by
  have hn := @hours_pos start through
  obtain ⟨hruns, hpoints⟩ := @runsAfter_spec coverage answer start through h (hours start through)
  have hend : ∀ i k : Nat, i + k + 1 = hours start through →
      firstHour start through + i * 3600 = through - k * 3600 := by
    intro i k hik
    have hcast : ((hours start through - 1 : Nat) : ℚ) = i + k := by
      rw [show hours start through - 1 = i + k by omega]
      push_cast
      ring
    rw [firstHour, hcast]
    ring
  have hlast := hend (hours start through - 1) 0 (by omega)
  refine ⟨hruns.mono ?_, fun t => ?_⟩
  · rw [Nat.cast_sub hn] at hlast
    push_cast at hlast
    linarith
  · unfold gapRuns
    rw [hpoints]
    refine and_congr_right fun ht => ⟨?_, ?_⟩
    · rintro ⟨i, hi, hrej, hin⟩
      rw [hend i (hours start through - 1 - i) (by omega)] at hrej hin
      exact ⟨_, hrej, hin⟩
    · rintro ⟨k, hrej, hin⟩
      -- an hour beyond the first ends at or before `start`
      have hk : k < hours start through := by
        by_contra hk
        have hle : (hours start through : ℚ) ≤ k := by exact_mod_cast not_lt.mp hk
        have hbefore := (firstHour_bounds h).2
        have hfirst := hend 0 (hours start through - 1) (by omega)
        rw [Nat.cast_sub hn] at hfirst
        push_cast at hfirst
        have := hin.2
        simp only at this
        linarith
      have heq := hend (hours start through - 1 - k) k (by omega)
      rw [← heq] at hrej hin
      exact ⟨_, by omega, hrej, hin⟩

theorem Ms.nonneg {t : ℚ} (h : Ms t) : 0 ≤ t := by
  obtain ⟨n, rfl⟩ := h
  positivity

theorem Ms.add_hours {t : ℚ} (h : Ms t) (k : Nat) : Ms (t + k * 3600) := by
  obtain ⟨n, rfl⟩ := h
  exact ⟨n + k * 3600000, by push_cast; ring⟩

theorem Ms.sub_hours {t : ℚ} (h : Ms t) (k : Nat) (hle : 0 ≤ t - k * 3600) : Ms (t - k * 3600) := by
  obtain ⟨n, rfl⟩ := h
  have hn : k * 3600000 ≤ n := by
    have : (k * 3600000 : ℚ) ≤ n := by linarith
    exact_mod_cast this
  refine ⟨n - k * 3600000, ?_⟩
  rw [Nat.cast_sub hn]
  push_cast
  ring

theorem gapRuns_ms (h : start < through) (hs : Ms start) (hthrough : Ms through) :
    ∀ run ∈ gapRuns coverage answer start through, Ms run.1 ∧ Ms run.2 := by
  have hfirst : Ms (firstHour start through) :=
    hthrough.sub_hours _ (hs.nonneg.trans (firstHour_bounds h).1.le)
  have hloop : ∀ n, ∀ run ∈ runsAfter coverage answer start through n, Ms run.1 ∧ Ms run.2 := by
    intro n
    induction n with
    | zero => simp [runsAfter]
    | succ n ih =>
      have hstop := hfirst.add_hours n
      have hfrom : Ms (max (firstHour start through + n * 3600 - 3600) start) := by
        rcases le_total start (firstHour start through + n * 3600 - 3600) with hle | hle
        · rw [max_eq_left hle]
          simpa using hstop.sub_hours 1 (by simpa using hs.nonneg.trans hle)
        · rw [max_eq_right hle]
          exact hs
      rw [runsAfter_succ, addHour]
      split
      · exact extend_ends ih ⟨hfrom, hstop⟩
      · exact ih
  exact hloop _

end

end HomeStack.Usage

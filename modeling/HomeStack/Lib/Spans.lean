import Mathlib

/-! Lists of half-open spans `(a, b]` over a linear order, and how often they count a point. A
list that counts the points of `(a, b]` once and no others splits `(a, b]`: counting goes through
appending and reordering, where disjointness and union would have to be carried together. -/

namespace Spans

variable {α : Type} [LinearOrder α]

/-- The point lies in the span. -/
def Inside (t : α) (w : α × α) : Prop := w.1 < t ∧ t ≤ w.2

instance (t : α) (w : α × α) : Decidable (Inside t w) := inferInstanceAs (Decidable (_ ∧ _))

/-- How many of the spans hold the point. -/
def count (t : α) (l : List (α × α)) : Nat := l.countP fun w => decide (Inside t w)

@[simp] theorem count_nil (t : α) : count t [] = 0 := rfl

@[simp] theorem count_cons (t : α) (w : α × α) (l : List (α × α)) :
    count t (w :: l) = count t l + if Inside t w then 1 else 0 := by
  simp [count, List.countP_cons]

@[simp] theorem count_append (t : α) (l l' : List (α × α)) : count t (l ++ l') = count t l + count t l' :=
  List.countP_append

theorem count_pos_iff {t : α} {l : List (α × α)} : 0 < count t l ↔ ∃ w ∈ l, Inside t w :=
  List.countP_pos_iff.trans (by simp)

/-- Two spans that meet in a point are one. -/
theorem inside_join {a b c : α} (hab : a ≤ b) (hbc : b ≤ c) (t : α) :
    ((if Inside t (a, b) then 1 else 0) + if Inside t (b, c) then 1 else 0) = if Inside t (a, c) then
      1 else 0 := by
  rcases le_or_gt t b with htb | hbt
  · have hright : ¬ Inside t (b, c) := fun h => absurd h.1 (not_lt.mpr htb)
    have hiff : Inside t (a, b) ↔ Inside t (a, c) := ⟨fun h => ⟨h.1, htb.trans hbc⟩, fun h => ⟨h.1, htb⟩⟩
    simp only [if_neg hright, hiff, Nat.add_zero]
  · have hleft : ¬ Inside t (a, b) := fun h => absurd h.2 (not_le.mpr hbt)
    have hiff : Inside t (b, c) ↔ Inside t (a, c) := ⟨fun h => ⟨hab.trans_lt h.1, h.2⟩, fun h => ⟨hbt, h.2⟩⟩
    simp only [if_neg hleft, hiff, Nat.zero_add]

theorem not_inside_empty {a b : α} (h : b ≤ a) (t : α) : ¬ Inside t (a, b) :=
  fun hin => absurd (hin.1.trans_le hin.2) (not_lt.mpr h)

/-- Among the points of `C`, those of the span are counted once and no others. -/
def Splits (C : Set α) (a b : α) (l : List (α × α)) : Prop :=
  ∀ t ∈ C, count t l = if Inside t (a, b) then 1 else 0

theorem Splits.append {C : Set α} {a b c : α} {l l' : List (α × α)} (h : Splits C a b l)
    (h' : Splits C b c l') (hab : a ≤ b) (hbc : b ≤ c) : Splits C a c (l ++ l') := by
  intro t ht
  rw [count_append, h t ht, h' t ht, inside_join hab hbc]

/-- Within `C`, the spans are disjoint. -/
theorem Splits.disjoint {C : Set α} {a b : α} {l : List (α × α)} (h : Splits C a b l) :
    l.Pairwise fun v w => Disjoint (Set.Ioc v.1 v.2 ∩ C) (Set.Ioc w.1 w.2 ∩ C) := by
  have hcount : ∀ t ∈ C, count t l ≤ 1 := by
    intro t ht
    rw [h t ht]
    split <;> omega
  clear h
  induction l with
  | nil => exact .nil
  | cons v l ih =>
    refine List.pairwise_cons.mpr ⟨fun w hw => ?_, ih fun t ht => ?_⟩
    · rw [Set.disjoint_left]
      rintro t ⟨hv, ht⟩ ⟨hw', -⟩
      have hpos : 0 < count t l := count_pos_iff.2 ⟨w, hw, hw'⟩
      have hle := hcount t ht
      rw [count_cons, if_pos (show Inside t v from hv)] at hle
      omega
    · have hle := hcount t ht
      rw [count_cons] at hle
      omega

/-- Within `C`, they make up the whole span. -/
theorem Splits.union {C : Set α} {a b : α} {l : List (α × α)} (h : Splits C a b l) :
    (⋃ w ∈ l, Set.Ioc w.1 w.2) ∩ C = Set.Ioc a b ∩ C := by
  ext t
  simp only [Set.mem_inter_iff, Set.mem_iUnion, exists_prop, and_congr_left_iff]
  intro ht
  have hiff : (∃ w ∈ l, t ∈ Set.Ioc w.1 w.2) ↔ 0 < count t l := count_pos_iff.symm
  rw [hiff, h t ht]
  by_cases hin : Inside t (a, b)
  · rw [if_pos hin]
    exact ⟨fun _ => hin, fun _ => Nat.one_pos⟩
  · rw [if_neg hin]
    exact ⟨fun h => absurd h (lt_irrefl 0), fun h => absurd h hin⟩

/-! ## Runs -/

/-- Spans in order that do not touch, between `lo` and `hi`. -/
structure Runs (lo hi : α) (runs : List (α × α)) : Prop where
  sorted : runs.Pairwise fun v w => v.2 < w.1
  within : ∀ run ∈ runs, lo ≤ run.1 ∧ run.1 < run.2 ∧ run.2 ≤ hi

/-- A span after the others; it makes the last one longer where they touch. -/
def extend (runs : List (α × α)) (w : α × α) : List (α × α) :=
  match runs.getLast? with
  | some run => if run.2 ≥ w.1 then runs.dropLast ++ [(run.1, w.2)] else runs ++ [w]
  | none => runs ++ [w]

theorem runs_nil (lo hi : α) : Runs lo hi [] := ⟨.nil, by simp⟩

theorem Runs.mono {lo hi hi' : α} {runs : List (α × α)} (h : Runs lo hi runs) (hle : hi ≤ hi') :
    Runs lo hi' runs := by
  refine ⟨h.sorted, fun run hrun => ?_⟩
  obtain ⟨h₁, h₂, h₃⟩ := h.within run hrun
  exact ⟨h₁, h₂, h₃.trans hle⟩

theorem runs_concat {lo hi : α} {runs : List (α × α)} {w : α × α} (h : Runs lo hi runs) (hhi : hi ≤ w.2)
    (hlast : ∀ v ∈ runs, v.2 < w.1) (hlo : lo ≤ w.1) (hw : w.1 < w.2) : Runs lo w.2 (runs ++ [w]) := by
  refine ⟨List.pairwise_append.mpr ⟨h.sorted, List.pairwise_singleton _ _, ?_⟩, fun v hv => ?_⟩
  · intro v hv w' hw'
    obtain rfl := List.mem_singleton.mp hw'
    exact hlast v hv
  · rcases List.mem_append.mp hv with hv | hv
    · exact (h.mono hhi).within v hv
    · obtain rfl := List.mem_singleton.mp hv
      exact ⟨hlo, hw, le_rfl⟩

theorem inside_concat {runs : List (α × α)} {w : α × α} {t : α} :
    (∃ run ∈ runs ++ [w], Inside t run) ↔ (∃ run ∈ runs, Inside t run) ∨ Inside t w := by
  constructor
  · rintro ⟨run, hrun, hin⟩
    rcases List.mem_append.mp hrun with hrun | hrun
    · exact .inl ⟨run, hrun, hin⟩
    · obtain rfl := List.mem_singleton.mp hrun
      exact .inr hin
  · rintro (⟨run, hrun, hin⟩ | hin)
    · exact ⟨run, List.mem_append_left _ hrun, hin⟩
    · exact ⟨w, by simp, hin⟩

/-- The last of some runs, and those before it. -/
theorem Runs.concat {lo hi : α} {init : List (α × α)} {run : α × α} (h : Runs lo hi (init ++ [run])) :
    Runs lo hi init ∧ (∀ v ∈ init, v.2 < run.1) ∧ lo ≤ run.1 ∧ run.1 < run.2 ∧ run.2 ≤ hi := by
  obtain ⟨hsorted, -, hbefore⟩ := List.pairwise_append.mp h.sorted
  refine ⟨⟨hsorted, fun v hv => h.within v (List.mem_append_left _ hv)⟩,
    fun v hv => hbefore v hv run (by simp), ?_⟩
  exact h.within run (by simp)

attribute [local simp] extend

/-- Extending runs by a span at or after their end keeps them in order, and adds just its points. -/
theorem extend_runs {lo hi : α} {runs : List (α × α)} {w : α × α} (h : Runs lo hi runs) (hhi : hi ≤ w.1)
    (hlo : lo ≤ w.1) (hw : w.1 < w.2) :
    Runs lo w.2 (extend runs w) ∧
      ∀ t, (∃ run ∈ extend runs w, Inside t run) ↔ (∃ run ∈ runs, Inside t run) ∨ Inside t w := by
  unfold extend
  cases hlast : runs.getLast? with
  | none =>
    obtain rfl := List.getLast?_eq_none_iff.mp hlast
    exact ⟨runs_concat h (hhi.trans hw.le) (by simp) hlo hw, fun t => inside_concat⟩
  | some run =>
    obtain ⟨init, rfl⟩ := List.getLast?_eq_some_iff.mp hlast
    obtain ⟨hinit, hbefore, hrun⟩ := h.concat
    simp only
    split
    · rename_i htouch
      have hmeet : run.2 = w.1 := le_antisymm (hrun.2.2.trans hhi) htouch
      rw [List.dropLast_concat]
      refine ⟨runs_concat (w := (run.1, w.2)) hinit (hhi.trans hw.le) hbefore hrun.1
        (hrun.2.1.trans (hmeet ▸ hw)), fun t => ?_⟩
      have hgrow : Inside t (run.1, w.2) ↔ Inside t run ∨ Inside t w := by
        rcases le_or_gt t run.2 with hle | hgt
        · have hnot : ¬ Inside t w := fun hin => absurd hin.1 (not_lt.mpr (hmeet ▸ hle))
          exact ⟨fun hin => .inl ⟨hin.1, hle⟩,
            fun hin => hin.elim (fun hin => ⟨hin.1, hle.trans (hmeet ▸ hw.le)⟩)
            fun hin => absurd hin hnot⟩
        · have hnot : ¬ Inside t run := fun hin => absurd hin.2 (not_le.mpr hgt)
          exact ⟨fun hin => .inr ⟨hmeet ▸ hgt, hin.2⟩, fun hin => hin.elim (fun hin => absurd hin hnot)
            fun hin => ⟨hrun.2.1.trans hgt, hin.2⟩⟩
      rw [inside_concat, inside_concat, hgrow, or_assoc]
    · rename_i hapart
      refine ⟨runs_concat h (hhi.trans hw.le) (fun v hv => ?_) hlo hw, fun t => inside_concat⟩
      rcases List.mem_append.mp hv with hv | hv
      · exact (hbefore v hv).trans (hrun.2.1.trans (not_le.mp hapart))
      · obtain rfl := List.mem_singleton.mp hv
        exact not_le.mp hapart

/-- The ends of the spans stay among those given. -/
theorem extend_ends {P : α → Prop} {runs : List (α × α)} {w : α × α} (h : ∀ run ∈ runs, P run.1 ∧ P run.2)
    (hw : P w.1 ∧ P w.2) : ∀ run ∈ extend runs w, P run.1 ∧ P run.2 := by
  have hconcat : ∀ {init : List (α × α)} {v : α × α}, (∀ run ∈ init, P run.1 ∧ P run.2) → P v.1 ∧ P v.2 →
      ∀ run ∈ init ++ [v], P run.1 ∧ P run.2 := by
    intro init v hinit hv run hrun
    rcases List.mem_append.mp hrun with hrun | hrun
    · exact hinit run hrun
    · obtain rfl := List.mem_singleton.mp hrun
      exact hv
  unfold extend
  split
  · rename_i last hlast
    split
    · have hmem := List.mem_of_getLast? hlast
      exact hconcat (fun run hrun => h run (List.dropLast_subset _ hrun)) ⟨(h last hmem).1, hw.2⟩
    · exact hconcat h hw
  · exact hconcat h hw

end Spans

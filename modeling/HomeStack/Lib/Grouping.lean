import Mathlib.Tactic

/-! Bringing the elements of a list with one key together, each group where its
first element stands and in the order of the list. `[a, b] <+ l` says that `a`
stands before `b` in `l`. -/

open scoped List

namespace Grouping

variable {α κ : Type} [DecidableEq κ] (key : α → κ)

/-- Append to the group of the key, or open it at the end. -/
def add (k : κ) (a : α) : List (κ × List α) → List (κ × List α)
  | [] => [(k, [a])]
  | (known, unit) :: rest => if known = k then (known, unit ++ [a]) :: rest else (known, unit) :: add k a rest

def units (l : List α) : List (κ × List α) := l.foldl (fun us a => add (key a) a us) []

def regroup (l : List α) : List α := (units key l).flatMap Prod.snd

theorem foldl_add_cons (k : κ) (u : List α) (us : List (κ × List α)) (l : List α) :
    l.foldl (fun us a => add (key a) a us) ((k, u) :: us) =
      (k, u ++ l.filter (key · = k)) ::
        (l.filter (key · ≠ k)).foldl (fun us a => add (key a) a us) us := by
  induction l generalizing u us with
  | nil => simp
  | cons a l ih =>
    rw [List.foldl_cons]
    by_cases h : key a = k
    · simp only [add, h, if_true, ih]
      simp [h]
    · have h' : ¬k = key a := fun e => h e.symm
      simp only [add, if_neg h', ih]
      simp [h]

theorem units_cons (x : α) (l : List α) :
    units key (x :: l) =
      (key x, x :: l.filter (key · = key x)) :: units key (l.filter (key · ≠ key x)) := by
  unfold units
  rw [List.foldl_cons]
  simp only [add]
  rw [foldl_add_cons]
  rfl

/-- The first element brings its group with it. -/
theorem regroup_cons (x : α) (l : List α) :
    regroup key (x :: l) = (x :: l.filter (key · = key x)) ++ regroup key (l.filter (key · ≠ key x)) := by
  unfold regroup
  rw [units_cons]
  simp

@[simp] theorem regroup_nil : regroup key [] = [] := rfl

/-- Induction along the groups. -/
theorem induct {P : List α → Prop} (nil : P [])
    (cons : ∀ x l, P (l.filter (key · ≠ key x)) → P (x :: l)) (l : List α) : P l := by
  have hlen : ∀ n l, l.length ≤ n → P l := by
    intro n
    induction n with
    | zero =>
      intro l hl
      rw [List.length_eq_zero_iff.mp (Nat.le_zero.mp hl)]
      exact nil
    | succ n ih =>
      intro l hl
      cases l with
      | nil => exact nil
      | cons x l =>
        apply cons
        apply ih
        have := List.length_filter_le (key · ≠ key x) l
        simp only [List.length_cons] at hl
        omega
  exact hlen _ l le_rfl

theorem regroup_perm (l : List α) : (regroup key l).Perm l := by
  induction l using induct key with
  | nil => rfl
  | cons x l ih =>
    rw [regroup_cons, List.cons_append, List.perm_cons]
    refine (List.Perm.append_left _ ih).trans ?_
    have := List.filter_append_perm (fun a => decide (key a = key x)) l
    simpa using this

/-- The elements of a group have its key. -/
theorem key_of_mem_units {k : κ} {u l : List α} (h : (k, u) ∈ units key l) {a : α} (ha : a ∈ u) :
    key a = k := by
  induction l using induct key with
  | nil => cases h
  | cons x l ih =>
    rw [units_cons] at h
    rcases List.mem_cons.mp h with h | h
    · cases h
      rcases List.mem_cons.mp ha with rfl | ha
      · rfl
      · simpa using (List.mem_filter.mp ha).2
    · exact ih h

@[simp] theorem mem_regroup {a : α} {l : List α} : a ∈ regroup key l ↔ a ∈ l := (regroup_perm key l).mem_iff

theorem units_ne_nil {k : κ} {u l : List α} (h : (k, u) ∈ units key l) : u ≠ [] := by
  induction l using induct key with
  | nil => cases h
  | cons x l ih =>
    rw [units_cons] at h
    rcases List.mem_cons.mp h with h | h
    · cases h
      exact List.cons_ne_nil _ _
    · exact ih h

/-- Each key has one group. -/
theorem units_keys_nodup (l : List α) : ((units key l).map Prod.fst).Nodup := by
  induction l using induct key with
  | nil => exact List.nodup_nil
  | cons x l ih =>
    rw [units_cons, List.map_cons, List.nodup_cons]
    refine ⟨fun hmem => ?_, ih⟩
    obtain ⟨⟨k, u⟩, hu, hk⟩ := List.mem_map.mp hmem
    have hne := units_ne_nil key hu
    obtain ⟨a, ha⟩ := List.exists_mem_of_ne_nil u hne
    have hkey := key_of_mem_units key hu ha
    have hfilter : a ∈ l.filter (key · ≠ key x) := by
      rw [← mem_regroup key]
      exact List.mem_flatMap.mpr ⟨_, hu, ha⟩
    exact absurd (hkey.trans hk) (by simpa using (List.mem_filter.mp hfilter).2)

/-- A group is the elements with its key, in their order. -/
theorem filter_of_mem_units {k : κ} {u l : List α} (h : (k, u) ∈ units key l) : u = l.filter (key · = k) := by
  induction l using induct key with
  | nil => cases h
  | cons x l ih =>
    rw [units_cons] at h
    rcases List.mem_cons.mp h with h | h
    · cases h
      rw [List.filter_cons_of_pos (by simp)]
    · have hne : key x ≠ k := by
        obtain ⟨a, ha⟩ := List.exists_mem_of_ne_nil u (units_ne_nil key h)
        have hmem := ih h ▸ ha
        have hother := (List.mem_filter.mp (List.mem_filter.mp hmem).1).2
        rw [← key_of_mem_units key h ha]
        exact (of_decide_eq_true hother).symm
      rw [List.filter_cons_of_neg (by simpa using hne), ih h, List.filter_filter]
      refine List.filter_congr fun a _ => ?_
      by_cases hk : key a = k <;> simp [hk, hne.symm]

theorem exists_mem_units {a : α} {l : List α} (h : a ∈ l) : ∃ u, (key a, u) ∈ units key l := by
  obtain ⟨⟨k, u⟩, hu, ha⟩ := List.mem_flatMap.mp ((mem_regroup key).mpr h)
  rw [key_of_mem_units key hu ha]
  exact ⟨u, hu⟩

/-! ## Order -/

omit [DecidableEq κ] in
theorem before_append {a b : α} {l₁ l₂ : List α} (h : [a, b] <+ l₁ ++ l₂) :
    [a, b] <+ l₁ ∨ a ∈ l₁ ∧ b ∈ l₂ ∨ [a, b] <+ l₂ := by
  obtain ⟨s, t, hst, hs, ht⟩ := List.sublist_append_iff.mp h
  match s, hst with
  | [], hst =>
    rw [List.nil_append] at hst
    exact Or.inr (Or.inr (hst ▸ ht))
  | [c], hst =>
    cases hst
    exact Or.inr (Or.inl ⟨List.singleton_sublist.mp hs, List.singleton_sublist.mp ht⟩)
  | [c, d], hst =>
    cases hst
    exact Or.inl hs

/-- Elements of one group keep their order. -/
theorem before_of_key_eq {a b : α} {l : List α} (h : [a, b] <+ l) (hk : key a = key b) :
    [a, b] <+ regroup key l := by
  induction l using induct key with
  | nil => cases h
  | cons x l ih =>
    rw [regroup_cons]
    by_cases hx : key b = key x
    · have : [a, b] <+ (x :: l).filter (key · = key x) := by
        simpa [hk, hx] using h.filter (fun c => decide (key c = key x))
      simp only [List.filter_cons, decide_true, if_true] at this
      exact this.trans (List.sublist_append_left _ _)
    · have : [a, b] <+ (x :: l).filter (key · ≠ key x) := by
        simpa [hk, hx] using h.filter (fun c => decide (key c ≠ key x))
      simp only [List.filter_cons, ne_eq, not_true_eq_false, decide_false] at this
      exact (ih (by simpa using this)).trans (List.sublist_append_right _ _)

/-- A group that starts before another one comes before all of it. -/
theorem before_of_leads {a b : α} (pre post : List α) (ha : ∃ c ∈ pre, key c = key a)
    (hb : ∀ c ∈ pre, key c ≠ key b) (hal : a ∈ pre ++ post) (hbl : b ∈ pre ++ post) :
    [a, b] <+ regroup key (pre ++ post) := by
  generalize hl : pre ++ post = l at hal hbl ⊢
  induction l using induct key generalizing pre post with
  | nil => cases hal
  | cons x l ih =>
    cases pre with
    | nil =>
      obtain ⟨c, hc, -⟩ := ha
      cases hc
    | cons y pre =>
      obtain ⟨rfl, rfl⟩ : y = x ∧ pre ++ post = l := by simpa using hl
      have hby : key b ≠ key y := fun e => hb y (by simp) e.symm
      have hbrest : b ∈ (pre ++ post).filter (key · ≠ key y) := by
        have hne : b ≠ y := fun e => hby (by rw [e])
        rw [List.mem_filter]
        exact ⟨(List.mem_cons.mp hbl).resolve_left hne, by simpa using hby⟩
      rw [regroup_cons]
      by_cases hay : key a = key y
      · have hgroup : a ∈ y :: (pre ++ post).filter (key · = key y) := by
          rcases List.mem_cons.mp hal with rfl | hal
          · simp
          · exact List.mem_cons_of_mem _ (List.mem_filter.mpr ⟨hal, by simpa using hay⟩)
        exact (List.singleton_sublist.mpr hgroup).append
          (List.singleton_sublist.mpr ((mem_regroup key).mpr hbrest))
      · have harest : a ∈ (pre ++ post).filter (key · ≠ key y) := by
          have hne : a ≠ y := fun e => hay (by rw [e])
          rw [List.mem_filter]
          exact ⟨(List.mem_cons.mp hal).resolve_left hne, by simpa using hay⟩
        refine (ih (pre.filter (key · ≠ key y)) (post.filter (key · ≠ key y)) ?_ ?_
          (List.filter_append ..).symm harest hbrest).trans (List.sublist_append_right _ _)
        · obtain ⟨c, hc, hca⟩ := ha
          have hcy : c ≠ y := fun e => hay (by rw [← hca, e])
          refine ⟨c, List.mem_filter.mpr ⟨(List.mem_cons.mp hc).resolve_left hcy, ?_⟩, hca⟩
          simpa [hca] using hay
        · intro c hc
          exact hb c (List.mem_cons_of_mem _ (List.mem_filter.mp hc).1)

/-- An element that comes before one of another group has a member of its group
before it in the list. -/
theorem leads_of_before {a b : α} {l : List α} (h : [a, b] <+ regroup key l) (hk : key a ≠ key b) :
    ∃ c, key c = key a ∧ [c, b] <+ l := by
  induction l using induct key with
  | nil => cases h
  | cons x l ih =>
    rw [regroup_cons] at h
    have hgroup : ∀ c ∈ x :: l.filter (key · = key x), key c = key x := by
      intro c hc
      rcases List.mem_cons.mp hc with rfl | hc
      · rfl
      · simpa using (List.mem_filter.mp hc).2
    rcases before_append h with h | ⟨ha, hb⟩ | h
    · have ha := hgroup a (h.subset (by simp))
      have hb := hgroup b (h.subset (by simp))
      exact absurd (ha.trans hb.symm) hk
    · rw [mem_regroup, List.mem_filter] at hb
      exact ⟨x, (hgroup a ha).symm, (List.singleton_sublist.mpr hb.1).cons_cons x⟩
    · obtain ⟨c, hc, hcb⟩ := ih h
      exact ⟨c, hc, (hcb.trans List.filter_sublist).cons x⟩

/-- Nothing stands between two elements of a group. -/
theorem contiguous {a b c : α} {l : List α} (h : [a, b, c] <+ regroup key l) (hk : key a = key c) :
    key b = key a := by
  induction l using induct key with
  | nil => cases h
  | cons x l ih =>
    rw [regroup_cons] at h
    have hgroup : ∀ d ∈ x :: l.filter (key · = key x), key d = key x := by
      intro d hd
      rcases List.mem_cons.mp hd with rfl | hd
      · rfl
      · simpa using (List.mem_filter.mp hd).2
    have hrest : ∀ d ∈ regroup key (l.filter (key · ≠ key x)), key d ≠ key x := by
      intro d hd
      rw [mem_regroup, List.mem_filter] at hd
      simpa using hd.2
    obtain ⟨s, t, hst, hs, ht⟩ := List.sublist_append_iff.mp h
    match s, hst with
    | [], hst =>
      rw [List.nil_append] at hst
      exact ih (hst ▸ ht)
    | [d], hst =>
      cases hst
      have ha := hgroup a (hs.subset (by simp))
      exact absurd (hk ▸ ha) (hrest c (ht.subset (by simp)))
    | [d, e], hst =>
      cases hst
      rw [hgroup a (hs.subset (by simp)), hgroup b (hs.subset (by simp))]
    | [d, e, f], hst =>
      cases hst
      rw [hgroup a (hs.subset (by simp)), hgroup b (hs.subset (by simp))]

/-- Where nothing with another key stands before an element with this key, those with the key come first. -/
theorem filter_append_filter (k : κ) {l : List α} (h : ∀ a b, [a, b] <+ l → key b = k → key a = k) :
    l.filter (key · = k) ++ l.filter (key · ≠ k) = l := by
  induction l with
  | nil => rfl
  | cons x l ih =>
    by_cases hx : key x = k
    · have hrest := ih fun a b hab => h a b (hab.cons x)
      simp only [ne_eq, decide_not] at hrest
      simp [hx, hrest]
    · have hnone : ∀ y ∈ l, key y ≠ k := fun y hy hk => hx (h x y (by simpa using hy) hk)
      have hempty : l.filter (key · = k) = [] :=
        List.filter_eq_nil_iff.mpr fun y hy => by simpa using hnone y hy
      have hall : l.filter (key · ≠ k) = l := List.filter_eq_self.mpr fun y hy => by simpa using hnone y hy
      simp only [ne_eq, decide_not] at hall
      simp [hx, hempty, hall]

/-- A list whose groups are together stays as it is. -/
theorem regroup_of_contiguous {l : List α} (h : ∀ a b c, [a, b, c] <+ l → key a = key c → key b = key a) :
    regroup key l = l := by
  induction l using induct key with
  | nil => rfl
  | cons x l ih =>
    have hfirst : ∀ a b, [a, b] <+ l → key b = key x → key a = key x :=
      fun a b hab hb => h x a b (hab.cons_cons x) hb.symm
    have hrest := ih fun a b c habc => h a b c ((habc.trans List.filter_sublist).cons x)
    rw [regroup_cons, hrest, List.cons_append, filter_append_filter key (key x) hfirst]

end Grouping

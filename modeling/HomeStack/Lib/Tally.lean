import HomeStack.Lib.Grouping

/-! A dictionary filled by a loop: the first element of a key makes its value, each later one changes
it. What is left for a key depends on the elements of this key only, in their order. -/

namespace Tally

variable {α κ β γ : Type} [DecidableEq κ] (first : α → β) (pick : β → α → β) (key : α → κ)

/-- Set the value of a key, or change it. -/
def enter (k : κ) (a : α) : List (κ × β) → List (κ × β)
  | [] => [(k, first a)]
  | (known, b) :: rest => if known = k then (known, pick b a) :: rest else (known, b) :: enter k a rest

def collect (l : List α) : List (κ × β) := l.foldl (fun d a => enter first pick (key a) a d) []

/-- The value that the elements of one key make. -/
def merge : List α → Option β
  | [] => none
  | a :: l => some (l.foldl pick (first a))

variable {first pick key} {d d' : List (κ × β)} {l l' : List α} {k : κ} {b : β}

/-- A group with its value. -/
def value (first : α → β) (pick : β → α → β) (u : κ × List α) : Option (κ × β) :=
  (merge first pick u.2).map (Prod.mk u.1)

attribute [local simp] enter merge value Grouping.add

theorem enter_units (a : α) {us : List (κ × List α)} (hne : ∀ u ∈ us, u.2 ≠ []) :
    enter first pick k a (us.filterMap (value first pick)) =
      (Grouping.add k a us).filterMap (value first pick) := by
  induction us with
  | nil => rfl
  | cons u us ih =>
    obtain ⟨known, unit⟩ := u
    cases unit with
    | nil => exact absurd rfl (hne _ List.mem_cons_self)
    | cons b unit =>
      have hrest := ih fun u hu => hne u (List.mem_cons_of_mem _ hu)
      by_cases hk : known = k
      · simp [hk]
      · simpa [hk] using hrest

theorem add_ne_nil {us : List (κ × List α)} (a : α) (hne : ∀ u ∈ us, u.2 ≠ []) :
    ∀ u ∈ Grouping.add k a us, u.2 ≠ [] := by
  induction us with
  | nil => simp
  | cons u us ih =>
    have hrest := ih fun u hu => hne u (List.mem_cons_of_mem _ hu)
    intro v hv
    unfold Grouping.add at hv
    split at hv
    · rcases List.mem_cons.mp hv with rfl | hv
      · simp
      · exact hne v (List.mem_cons_of_mem _ hv)
    · rcases List.mem_cons.mp hv with rfl | hv
      · exact hne _ List.mem_cons_self
      · exact hrest v hv

theorem foldl_units {us : List (κ × List α)} (hne : ∀ u ∈ us, u.2 ≠ []) :
    l.foldl (fun d a => enter first pick (key a) a d) (us.filterMap (value first pick)) =
      (l.foldl (fun us a => Grouping.add (key a) a us) us).filterMap (value first pick) := by
  induction l generalizing us with
  | nil => rfl
  | cons a l ih =>
    rw [List.foldl_cons, List.foldl_cons, enter_units a hne]
    exact ih (add_ne_nil a hne)

theorem collect_eq : collect first pick key l = (Grouping.units key l).filterMap (value first pick) := by
  have hempty : ∀ u ∈ ([] : List (κ × List α)), u.2 ≠ [] := nofun
  exact foldl_units hempty

theorem mem_units {u : List α} : (k, u) ∈ Grouping.units key l ↔ u ≠ [] ∧ u = l.filter (key · = k) := by
  induction l using Grouping.induct key generalizing u with
  | nil => simp [Grouping.units]
  | cons x l ih =>
    rw [Grouping.units_cons, List.mem_cons, ih]
    by_cases hk : key x = k
    · subst hk
      have hnone : (l.filter (key · ≠ key x)).filter (key · = key x) = [] := by simp
      rw [hnone]
      constructor
      · rintro (heq | ⟨hne, rfl⟩)
        · obtain ⟨-, rfl⟩ := Prod.mk.inj heq
          simp
        · exact absurd rfl hne
      · rintro ⟨-, rfl⟩
        simp
    · have hsame : (l.filter (key · ≠ key x)).filter (key · = k) = (x :: l).filter (key · = k) := by
        rw [List.filter_cons_of_neg (by simpa using hk), List.filter_filter]
        refine List.filter_congr fun a _ => ?_
        by_cases ha : key a = k
        · simp [ha, Ne.symm hk]
        · simp [ha]
      rw [hsame]
      constructor
      · rintro (heq | h)
        · exact absurd (Prod.mk.inj heq).1.symm hk
        · exact h
      · exact Or.inr

/-- The value of a key is what its elements make. -/
theorem mem_collect : (k, b) ∈ collect first pick key l ↔
    merge first pick (l.filter (key · = k)) = some b := by
  rw [collect_eq, List.mem_filterMap]
  constructor
  · rintro ⟨⟨k', u⟩, hu, hvalue⟩
    obtain ⟨b', hmerge, heq⟩ := Option.map_eq_some_iff.mp hvalue
    obtain ⟨rfl, rfl⟩ := Prod.mk.inj heq
    rw [(mem_units.1 hu).2] at hmerge
    exact hmerge
  · intro h
    refine ⟨(k, l.filter (key · = k)), mem_units.2 ⟨fun hnil => ?_, rfl⟩, ?_⟩
    · rw [hnil] at h
      cases h
    · rw [value, h]
      rfl

theorem collect_nodup : ((collect first pick key l).map Prod.fst).Nodup := by
  have hkeys : (collect first pick key l).map Prod.fst = (Grouping.units key l).map Prod.fst := by
    rw [collect_eq, List.map_filterMap]
    have hsome : ∀ u ∈ Grouping.units key l, (value first pick u).map Prod.fst = some u.1 := by
      rintro ⟨k, u⟩ hu
      cases u with
      | nil => exact absurd rfl (Grouping.units_ne_nil key hu)
      | cons a u => rfl
    rw [List.filterMap_congr hsome, ← List.filterMap_eq_map]
    rfl
  rw [hkeys]
  exact Grouping.units_keys_nodup key l

theorem mem_keys_collect : k ∈ (collect first pick key l).map Prod.fst ↔ ∃ a ∈ l, key a = k := by
  constructor
  · intro h
    obtain ⟨⟨k', b⟩, hmem, rfl⟩ := List.mem_map.mp h
    have hmerge := mem_collect.1 hmem
    cases hfilter : l.filter (key · = k') with
    | nil =>
      rw [hfilter] at hmerge
      cases hmerge
    | cons a rest =>
      have ha : a ∈ l.filter (key · = k') := hfilter ▸ List.mem_cons_self
      exact ⟨a, (List.mem_filter.mp ha).1, by simpa using (List.mem_filter.mp ha).2⟩
  · rintro ⟨a, ha, rfl⟩
    have hmem : a ∈ l.filter (key · = key a) := List.mem_filter.mpr ⟨ha, by simp⟩
    cases hfilter : l.filter (key · = key a) with
    | nil =>
      rw [hfilter] at hmem
      cases hmem
    | cons b rest => exact List.mem_map.mpr ⟨(key a, _), mem_collect.2 (by rw [hfilter]; rfl), rfl⟩

/-- The same keys in any order. -/
theorem keys_perm (h : l.Perm l') :
    k ∈ (collect first pick key l).map Prod.fst ↔ k ∈ (collect first pick key l').map Prod.fst := by
  rw [mem_keys_collect, mem_keys_collect]
  exact ⟨fun ⟨a, ha, hk⟩ => ⟨a, h.mem_iff.mp ha, hk⟩, fun ⟨a, ha, hk⟩ => ⟨a, h.mem_iff.mpr ha, hk⟩⟩

omit [DecidableEq κ] in
/-- Two dictionaries with the same keys and, for each key, the same of what counts. -/
theorem perm_map {f : κ → β → γ} (hd : (d.map Prod.fst).Nodup) (hd' : (d'.map Prod.fst).Nodup)
    (hkeys : ∀ k, k ∈ d.map Prod.fst ↔ k ∈ d'.map Prod.fst)
    (hf : ∀ k b b', (k, b) ∈ d → (k, b') ∈ d' → f k b = f k b') :
    (d.map fun e => (e.1, f e.1 e.2)).Perm (d'.map fun e => (e.1, f e.1 e.2)) := by
  have hnodup {e : List (κ × β)} (he : (e.map Prod.fst).Nodup) : (e.map fun x => (x.1, f x.1 x.2)).Nodup := by
    refine List.Nodup.of_map Prod.fst ?_
    rw [List.map_map]
    exact he
  have hsub {e e' : List (κ × β)} (hkeys : ∀ k, k ∈ e.map Prod.fst → k ∈ e'.map Prod.fst)
      (hf : ∀ k b b', (k, b) ∈ e → (k, b') ∈ e' → f k b = f k b') :
      ∀ x ∈ e.map (fun x => (x.1, f x.1 x.2)), x ∈ e'.map fun x => (x.1, f x.1 x.2) := by
    intro x hx
    obtain ⟨⟨k, b⟩, hmem, rfl⟩ := List.mem_map.mp hx
    obtain ⟨⟨k', b'⟩, hmem', hk⟩ := List.mem_map.mp (hkeys k (List.mem_map.mpr ⟨(k, b), hmem, rfl⟩))
    obtain rfl : k' = k := hk
    exact List.mem_map.mpr ⟨(k', b'), hmem', by rw [hf k' b b' hmem hmem']⟩
  refine (List.perm_ext_iff_of_nodup (hnodup hd) (hnodup hd')).mpr fun x => ⟨?_, ?_⟩
  · exact hsub (fun k => (hkeys k).mp) hf x
  · exact hsub (fun k => (hkeys k).mpr) (fun k b b' hb hb' => (hf k b' b hb' hb).symm) x

end Tally

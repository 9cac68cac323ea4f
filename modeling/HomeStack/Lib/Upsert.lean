import Mathlib.Tactic
import Mathlib.Data.List.DropRight

/-! Keyed lines in a list: each key has one line, put in the place of the first line that has
the key, or at the end. -/

namespace Upsert

variable {α ι : Type} {p : α → Bool} {d : α}

/-- Put `d` in the place of the first element that matches and drop the others, or append it. -/
def upsert (p : α → Bool) (d : α) : List α → List α
  | [] => [d]
  | l :: ls => if p l then d :: ls.filter (fun m => !p m) else l :: upsert p d ls

/-- The lines of several keys, one after another. -/
def upserts (p : ι → α → Bool) (d : ι → α) (keys : List ι) (ls : List α) : List α :=
  keys.foldl (fun ls x => upsert (p x) (d x) ls) ls

/-! ## One key -/

attribute [local simp] upsert upserts

theorem upsert_ne_nil (ls : List α) : upsert p d ls ≠ [] := by
  cases ls with
  | nil => simp [upsert]
  | cons l ls =>
    rw [upsert]
    split <;> simp

theorem mem_upsert {ls : List α} {l : α} (h : l ∈ upsert p d ls) : l = d ∨ l ∈ ls := by
  induction ls with
  | nil => simpa [upsert] using h
  | cons m ls ih =>
    rw [upsert] at h
    split at h
    · rcases List.mem_cons.mp h with rfl | h
      · exact .inl rfl
      · exact .inr (List.mem_cons_of_mem _ (List.mem_of_mem_filter h))
    · rcases List.mem_cons.mp h with rfl | h
      · simp
      · exact (ih h).imp_right (List.mem_cons_of_mem _)

/-- The key has one line. -/
theorem filter_upsert (hd : p d = true) (ls : List α) : (upsert p d ls).filter p = [d] := by
  induction ls with
  | nil => simp [upsert, hd]
  | cons l ls ih =>
    rw [upsert]
    split
    · simp [hd]
    · rename_i hl
      simpa [hl] using ih

/-- The other lines stay. -/
theorem filter_not_upsert (hd : p d = true) (ls : List α) :
    (upsert p d ls).filter (fun l => !p l) = ls.filter (fun l => !p l) := by
  induction ls with
  | nil => simp [upsert, hd]
  | cons l ls ih =>
    rw [upsert]
    split
    · rename_i hl
      simp [hd, hl]
    · rename_i hl
      simpa [hl] using ih

theorem filter_upsert_of_disjoint {q : α → Bool} (hd : p d = true)
    (hq : ∀ l, p l = true → q l = false) (ls : List α) :
    (upsert p d ls).filter q = ls.filter q := by
  have hnot : ∀ ms : List α, ms.filter q = (ms.filter (fun l => !p l)).filter q := by
    intro ms
    rw [List.filter_filter]
    refine List.filter_congr fun l _ => ?_
    cases hp : p l with
    | false => simp
    | true => simp [hq l hp]
  rw [hnot, filter_not_upsert hd, ← hnot]

theorem upsert_eq_self {ls : List α} (h : ls.filter p = [d]) : upsert p d ls = ls := by
  induction ls with
  | nil => simp at h
  | cons l ls ih =>
    rw [upsert]
    split
    · rename_i hl
      rw [List.filter_cons_of_pos hl, List.cons.injEq] at h
      have hrest : ls.filter (fun m => !p m) = ls := by
        rw [List.filter_eq_self]
        intro m hm
        have hpm := List.filter_eq_nil_iff.mp h.2 m hm
        simpa using hpm
      rw [h.1, hrest]
    · rename_i hl
      rw [List.filter_cons_of_neg hl] at h
      rw [ih h]

theorem upsert_of_any {a : List α} (h : a.any p = true) (c : List α) :
    upsert p d (a ++ c) = upsert p d a ++ c.filter (fun l => !p l) := by
  induction a with
  | nil => simp at h
  | cons l a ih =>
    rw [List.cons_append, upsert, upsert]
    split
    · simp
    · rename_i hl
      rw [ih (by simpa [hl] using h), List.cons_append]

theorem upsert_of_not_any {a : List α} (h : a.any p = false) (c : List α) :
    upsert p d (a ++ c) = a ++ upsert p d c := by
  induction a with
  | nil => rfl
  | cons l a ih =>
    have hl : p l = false := by simp_all
    rw [List.cons_append, upsert, if_neg (by simp [hl]), ih (by simp_all), List.cons_append]

theorem any_iff_filter {a : List α} : a.any p = true ↔ a.filter p ≠ [] := by
  rw [Ne, List.filter_eq_nil_iff]
  simp

theorem subperm_upsert (ls : List α) : (upsert p d ls).Subperm (ls ++ [d]) := by
  induction ls with
  | nil => exact List.Subperm.refl _
  | cons l ls ih =>
    rw [upsert]
    split
    · have hsub : (d :: ls.filter fun m => !p m).Subperm (d :: ls) :=
        (List.filter_sublist.cons_cons d).subperm
      exact hsub.trans (((List.perm_append_singleton d ls).symm.subperm).trans
        (List.sublist_cons_self l _).subperm)
    · exact (List.subperm_cons l).mpr ih

/-- A block between two elements that do not match: the first part that has the key gets its
line, and the parts after it lose theirs. -/
theorem upsert_segments {s e : α} (hs : p s = false) (he : p e = false) (a b c : List α) :
    (a.any p = true ∧ upsert p d (a ++ s :: (b ++ e :: c)) =
      upsert p d a ++ s :: (b.filter (fun l => !p l) ++ e :: c.filter (fun l => !p l))) ∨
    (a.any p = false ∧ b.any p = true ∧ upsert p d (a ++ s :: (b ++ e :: c)) =
      a ++ s :: (upsert p d b ++ e :: c.filter (fun l => !p l))) ∨
    (a.any p = false ∧ b.any p = false ∧ upsert p d (a ++ s :: (b ++ e :: c)) =
      a ++ s :: (b ++ e :: upsert p d c)) := by
  cases ha : a.any p with
  | true =>
    refine .inl ⟨rfl, ?_⟩
    rw [upsert_of_any ha]
    simp [hs, he]
  | false =>
    have hstep : ∀ {x : α} (ls : List α), p x = false → upsert p d (x :: ls) = x :: upsert p d ls := by
      intro x ls hx
      rw [upsert, if_neg (by simp [hx])]
    refine .inr ?_
    rw [upsert_of_not_any ha, hstep _ hs]
    cases hb : b.any p with
    | true =>
      refine .inl ⟨rfl, rfl, ?_⟩
      rw [upsert_of_any hb]
      simp [he]
    | false =>
      refine .inr ⟨rfl, rfl, ?_⟩
      rw [upsert_of_not_any hb, hstep _ he]

/-! ## Several keys -/

section

variable {p : ι → α → Bool} {d : ι → α} {K : List ι} (hself : ∀ x ∈ K, p x (d x) = true)
  (hapart : ∀ x ∈ K, ∀ y ∈ K, x ≠ y → ∀ l, p x l = true → p y l = false)

theorem mem_upserts {keys : List ι} {ls : List α} {l : α} (h : l ∈ upserts p d keys ls) :
    (∃ x ∈ keys, l = d x) ∨ l ∈ ls := by
  induction keys generalizing ls with
  | nil => exact .inr h
  | cons x keys ih =>
    rcases ih h with ⟨y, hy, rfl⟩ | hmem
    · exact .inl ⟨y, List.mem_cons_of_mem _ hy, rfl⟩
    · rcases mem_upsert hmem with rfl | hmem
      · exact .inl ⟨x, by simp, rfl⟩
      · exact .inr hmem

theorem upserts_ne_nil {keys : List ι} {ls : List α} (h : keys ≠ [] ∨ ls ≠ []) :
    upserts p d keys ls ≠ [] := by
  induction keys generalizing ls with
  | nil => simpa [upserts] using h
  | cons x keys ih => exact ih (.inr (upsert_ne_nil ls))

theorem subperm_upserts (keys : List ι) (ls : List α) : (upserts p d keys ls).Subperm (ls ++ keys.map d) := by
  induction keys generalizing ls with
  | nil => simpa [upserts] using List.Subperm.refl ls
  | cons x keys ih =>
    have hrest := ih (upsert (p x) (d x) ls)
    have hone : (upsert (p x) (d x) ls ++ keys.map d).Subperm ((ls ++ [d x]) ++ keys.map d) :=
      (List.subperm_append_right (keys.map d)).mpr (subperm_upsert ls)
    simpa [upserts] using hrest.trans hone

/-- A list in which each key has its one line is left as it is. -/
theorem upserts_eq_self {keys : List ι} {ls : List α} (h : ∀ x ∈ keys, ls.filter (p x) = [d x]) :
    upserts p d keys ls = ls := by
  induction keys with
  | nil => rfl
  | cons x keys ih =>
    have hx := upsert_eq_self (h x (by simp))
    rw [upserts, List.foldl_cons, hx]
    exact ih fun y hy => h y (List.mem_cons_of_mem _ hy)

include hself in
/-- The lines of no key stay. -/
theorem filter_not_upserts {q : α → Bool} (hq : ∀ x ∈ K, ∀ l, p x l = true → q l = false) {keys : List ι}
    (hkeys : ∀ x ∈ keys, x ∈ K) (ls : List α) : (upserts p d keys ls).filter q = ls.filter q := by
  induction keys generalizing ls with
  | nil => rfl
  | cons x keys ih =>
    have hx := hkeys x (by simp)
    have hone := filter_upsert_of_disjoint (hself x hx) (hq x hx) ls
    rw [← hone]
    exact ih (fun y hy => hkeys y (List.mem_cons_of_mem _ hy)) _

include hself in
theorem ne_of_not_match {s : α} (hs : ∀ x ∈ K, p x s = false) {x : ι} (hx : x ∈ K) : s ≠ d x := by
  rintro rfl
  have hmatch := hself x hx
  rw [hs x hx] at hmatch
  cases hmatch

include hself hapart

theorem filter_upsert_other {x y : ι} (hx : x ∈ K) (hy : y ∈ K) (hne : x ≠ y) (ls : List α) :
    (upsert (p y) (d y) ls).filter (p x) = ls.filter (p x) :=
  filter_upsert_of_disjoint (hself y hy) (hapart y hy x hx hne.symm) ls

/-- Each key has one line. -/
theorem filter_upserts {keys : List ι} (hkeys : ∀ x ∈ keys, x ∈ K) {x : ι} (hx : x ∈ K) {ls : List α}
    (h : x ∈ keys ∨ ls.filter (p x) = [d x]) : (upserts p d keys ls).filter (p x) = [d x] := by
  induction keys generalizing ls with
  | nil => simpa [upserts] using h
  | cons y keys ih =>
    have hy := hkeys y (by simp)
    refine ih (fun z hz => hkeys z (List.mem_cons_of_mem _ hz)) ?_
    by_cases hxy : x = y
    · subst hxy
      exact .inr (filter_upsert (hself x hx) ls)
    · rcases h with h | h
      · exact .inl ((List.mem_cons.mp h).resolve_left hxy)
      · exact .inr ((filter_upsert_other hself hapart hx hy hxy ls).trans h)

/-- A part that has a line of a key keeps having one. -/
theorem any_upsert {x y : ι} (hx : x ∈ K) (hy : y ∈ K) {ls : List α} (h : ls.any (p x) = true) :
    (upsert (p y) (d y) ls).any (p x) = true := by
  have hfilter : (upsert (p y) (d y) ls).filter (p x) ≠ [] := by
    by_cases hxy : x = y
    · subst hxy
      simp [filter_upsert (hself x hx)]
    · rw [filter_upsert_other hself hapart hx hy hxy]
      exact any_iff_filter.1 h
  exact any_iff_filter.2 hfilter

variable {s e : α} (hs : ∀ x ∈ K, p x s = false) (he : ∀ x ∈ K, p x e = false)

include hs he

/-- The block stays a block. -/
theorem upserts_segments {keys : List ι} (hkeys : ∀ x ∈ keys, x ∈ K) (a b c : List α)
    (ha : s ∉ a) (hb : e ∉ b) :
    ∃ a' b' c', upserts p d keys (a ++ s :: (b ++ e :: c)) = a' ++ s :: (b' ++ e :: c') ∧ s ∉ a' ∧ e ∉ b' ∧
      ∀ x ∈ K, a.any (p x) = true → a'.any (p x) = true := by
  induction keys generalizing a b c with
  | nil => exact ⟨a, b, c, rfl, ha, hb, fun _ _ h => h⟩
  | cons y keys ih =>
    have hy := hkeys y (by simp)
    have hrest : ∀ x ∈ keys, x ∈ K := fun x hx => hkeys x (List.mem_cons_of_mem _ hx)
    have hnew : ∀ {m : α} {ls : List α}, m ≠ d y → m ∉ ls → m ∉ upsert (p y) (d y) ls :=
      fun hm hls hmem => (mem_upsert hmem).elim hm hls
    have hse := ne_of_not_match hself hs hy
    have hee := ne_of_not_match hself he hy
    rw [upserts, List.foldl_cons]
    rcases upsert_segments (hs y hy) (he y hy) a b c with ⟨-, heq⟩ | ⟨-, -, heq⟩ | ⟨-, -, heq⟩
    · obtain ⟨a', b', c', h, ha', hb', hany⟩ := ih hrest (upsert (p y) (d y) a) (b.filter fun l => !p y l)
        (c.filter fun l => !p y l) (hnew hse ha) fun hmem => hb (List.mem_of_mem_filter hmem)
      refine ⟨a', b', c', by rw [heq]; exact h, ha', hb', fun x hx hax => hany x hx ?_⟩
      exact any_upsert hself hapart hx hy hax
    · obtain ⟨a', b', c', h, ha', hb', hany⟩ :=
        ih hrest a (upsert (p y) (d y) b) (c.filter fun l => !p y l) ha
        (hnew hee hb)
      exact ⟨a', b', c', by rw [heq]; exact h, ha', hb', hany⟩
    · obtain ⟨a', b', c', h, ha', hb', hany⟩ := ih hrest a b (upsert (p y) (d y) c) ha hb
      exact ⟨a', b', c', by rw [heq]; exact h, ha', hb', hany⟩

/-- A block is left as it is when every line of a key in it is the key's own, and the first. -/
theorem upserts_fixed {keys : List ι} (hkeys : ∀ x ∈ keys, x ∈ K) (a b c : List α) (ha : s ∉ a)
    (hfix : ∀ x ∈ K, b.filter (p x) = [] ∨ b.filter (p x) = [d x] ∧ a.filter (p x) = []) :
    ∃ a' c', upserts p d keys (a ++ s :: (b ++ e :: c)) = a' ++ s :: (b ++ e :: c') ∧ s ∉ a' := by
  induction keys generalizing a c with
  | nil => exact ⟨a, c, rfl, ha⟩
  | cons y keys ih =>
    have hy := hkeys y (by simp)
    have hrest : ∀ x ∈ keys, x ∈ K := fun x hx => hkeys x (List.mem_cons_of_mem _ hx)
    have hse := ne_of_not_match hself hs hy
    rw [upserts, List.foldl_cons]
    rcases upsert_segments (hs y hy) (he y hy) a b c with ⟨hany, heq⟩ | ⟨-, hany, heq⟩ | ⟨-, -, heq⟩
    · have hnone : b.filter (p y) = [] := by
        rcases hfix y hy with h | ⟨-, h⟩
        · exact h
        · exact absurd h (any_iff_filter.1 hany)
      have hb : (b.filter fun l => !p y l) = b := by
        rw [List.filter_eq_self]
        intro l hl
        have hl' := List.filter_eq_nil_iff.mp hnone l hl
        simpa using hl'
      rw [heq, hb]
      refine ih hrest _ _ (fun hmem => (mem_upsert hmem).elim hse ha) fun x hx => ?_
      by_cases hxy : x = y
      · subst hxy
        exact .inl hnone
      · rw [filter_upsert_other hself hapart hx hy hxy]
        exact hfix x hx
    · have hown : b.filter (p y) = [d y] := by
        rcases hfix y hy with h | ⟨h, -⟩
        · exact absurd h (any_iff_filter.1 hany)
        · exact h
      rw [heq, upsert_eq_self hown]
      exact ih hrest a _ ha hfix
    · rw [heq]
      exact ih hrest a _ ha hfix

end

end Upsert

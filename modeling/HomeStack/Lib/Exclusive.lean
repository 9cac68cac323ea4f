import Mathlib.Tactic

/-! Resources held by at most one holder each. A holder keeps a set of resources
and one shared set says which of them are taken. -/

/-- No two holders share a resource and `busy` is what they hold together. -/
structure Exclusive {α : Type*} [DecidableEq α] (held : List (Finset α)) (busy : Finset α) : Prop where
  disjoint : held.Pairwise Disjoint
  mem_busy : ∀ v, v ∈ busy ↔ ∃ t ∈ held, v ∈ t

namespace Exclusive

variable {α : Type*} [DecidableEq α] {busy t : Finset α} {held xs ys : List (Finset α)}

theorem nil : Exclusive ([] : List (Finset α)) ∅ :=
  ⟨List.Pairwise.nil, by simp⟩

theorem perm {held' : List (Finset α)} (h : Exclusive held busy) (hp : held.Perm held') :
    Exclusive held' busy := by
  refine ⟨(hp.pairwise_iff fun h => h.symm).mp h.disjoint, fun v => ?_⟩
  rw [h.mem_busy]
  simp only [hp.mem_iff]

theorem cons (h : Exclusive held busy) (hd : Disjoint busy t) : Exclusive (t :: held) (busy ∪ t) := by
  constructor
  · refine List.pairwise_cons.mpr ⟨fun u hu => ?_, h.disjoint⟩
    refine hd.symm.mono_right fun v hv => ?_
    exact (h.mem_busy v).mpr ⟨u, hu, hv⟩
  · intro v
    simp only [Finset.mem_union, h.mem_busy, List.mem_cons, exists_eq_or_imp]
    exact or_comm

/-- A holder of nothing may join. -/
theorem cons_empty (h : Exclusive held busy) : Exclusive (∅ :: held) busy := by
  simpa using h.cons (t := ∅) (by simp)

theorem tail (h : Exclusive (t :: held) busy) : Exclusive held (busy \ t) := by
  obtain ⟨ht, hheld⟩ := List.pairwise_cons.mp h.disjoint
  refine ⟨hheld, fun v => ?_⟩
  simp only [Finset.mem_sdiff, h.mem_busy, List.mem_cons, exists_eq_or_imp]
  constructor
  · rintro ⟨hv | hv, hn⟩
    · exact absurd hv hn
    · exact hv
  · rintro ⟨u, hu, hv⟩
    exact ⟨Or.inr ⟨u, hu, hv⟩, fun hn => Finset.disjoint_left.mp (ht u hu) hn hv⟩

/-- A holder of nothing takes free resources. -/
theorem acquire (h : Exclusive (xs ++ ∅ :: ys) busy) (hd : Disjoint busy t) :
    Exclusive (xs ++ t :: ys) (busy ∪ t) := by
  have h' := (h.perm List.perm_middle).tail
  rw [Finset.sdiff_empty] at h'
  exact (h'.cons hd).perm List.perm_middle.symm

/-- A holder leaves. -/
theorem release (h : Exclusive (xs ++ t :: ys) busy) : Exclusive (xs ++ ys) (busy \ t) :=
  (h.perm List.perm_middle).tail

theorem disjoint_middle (h : Exclusive (xs ++ t :: ys) busy) : ∀ u ∈ xs ++ ys, Disjoint t u :=
  (List.pairwise_cons.mp (h.perm List.perm_middle).disjoint).1

end Exclusive

import Mathlib.Data.List.Infix

/-! The first place of a pattern in a list (`windows(n).position(..)`). -/

namespace Search

variable {α : Type} [DecidableEq α] {p a b xs : List α} {c : α} {n : Nat}

/-- Where `p`, which is not empty, begins first. -/
def position (p : List α) : List α → Option Nat
  | [] => none
  | x :: xs => if p.isPrefixOf (x :: xs) then some 0 else (position p xs).map (· + 1)

theorem position_some (h : position p xs = some n) : xs = xs.take n ++ p ++ xs.drop (n + p.length) := by
  induction xs generalizing n with
  | nil => cases h
  | cons x xs ih =>
    unfold position at h
    split at h
    next hp =>
      obtain rfl := Option.some.inj h
      obtain ⟨rest, hrest⟩ := List.isPrefixOf_iff_prefix.mp hp
      rw [← hrest]
      simp
    next =>
      obtain ⟨m, hm, rfl⟩ := Option.map_eq_some_iff.mp h
      have hlength : m + 1 + p.length = m + p.length + 1 := by omega
      rw [hlength, List.take_succ_cons, List.drop_succ_cons, List.cons_append, List.cons_append, ← ih hm]

theorem position_lt (h : position p xs = some n) : n + p.length ≤ xs.length := by
  have hlength := congrArg List.length (position_some h)
  rcases Nat.lt_or_ge xs.length n with hlt | hle
  · exfalso
    induction xs generalizing n with
    | nil => cases h
    | cons x xs ih =>
      unfold position at h
      split at h
      · obtain rfl := Option.some.inj h
        simp at hlt
      · obtain ⟨m, hm, rfl⟩ := Option.map_eq_some_iff.mp h
        exact ih hm (congrArg List.length (position_some hm)) (by simpa using hlt)
  · simp only [List.length_append, List.length_take, List.length_drop] at hlength
    omega

/-- The pattern does not occur before its first place. -/
theorem position_take (h : position p xs = some n) : position p (xs.take n) = none := by
  induction xs generalizing n with
  | nil => cases h
  | cons x xs ih =>
    unfold position at h
    split at h
    next => rw [← Option.some.inj h]; rfl
    next hp =>
      obtain ⟨m, hm, rfl⟩ := Option.map_eq_some_iff.mp h
      rw [List.take_succ_cons, position, if_neg, ih hm, Option.map_none]
      intro hstarts
      refine hp (List.isPrefixOf_iff_prefix.mpr ((List.isPrefixOf_iff_prefix.mp hstarts).trans ?_))
      exact List.cons_prefix_cons.mpr ⟨rfl, List.take_prefix m xs⟩

theorem position_self (hp : p ≠ []) : position p (p ++ b) = some 0 := by
  cases p with
  | nil => exact absurd rfl hp
  | cons x p =>
    have hstarts : (x :: p).isPrefixOf (x :: p ++ b) = true := List.isPrefixOf_iff_prefix.mpr ⟨b, rfl⟩
    exact if_pos hstarts

/-- Nothing begins where its first element is missing. -/
theorem position_skip (hc : c ∉ a) :
    position (c :: p) (a ++ b) = (position (c :: p) b).map (· + a.length) := by
  induction a with
  | nil => simp
  | cons x a ih =>
    have hne : c ≠ x := fun heq => hc (heq ▸ List.mem_cons_self)
    rw [List.cons_append, position, if_neg (by simp [hne]),
      ih fun h => hc (List.mem_cons_of_mem x h), Option.map_map]
    congr 1

theorem position_append (hc : c ∉ a) : position (c :: p) (a ++ c :: p ++ b) = some a.length := by
  rw [List.append_assoc, position_skip hc, position_self (List.cons_ne_nil c p)]
  simp

end Search

import Mathlib.Tactic

/-! Computations that report issues beside their result, and may abort. A run without an issue is
silent; what a silent run returns, and when a run aborts, is read off its parts. -/

inductive Report (ι α : Type)
  | returned (value : α) (issues : List ι)
  | aborted

namespace Report

variable {ι α β : Type}

/-- The issues are those of the first part, then those of the second. -/
def andAfter (first : List ι) : Report ι α → Report ι α
  | .returned a issues => .returned a (first ++ issues)
  | .aborted => .aborted

instance : Monad (Report ι) where
  pure a := .returned a []
  bind c f :=
    match c with
    | .returned a issues => andAfter issues (f a)
    | .aborted => .aborted

def fail (i : ι) : Report ι Unit := .returned () [i]

def failIf (p : Prop) [Decidable p] (i : ι) : Report ι Unit := if p then fail i else pure ()

/-- The next check of a value, if the first has one. -/
def andThen (c : Report ι (Option α)) (f : α → Report ι (Option β)) : Report ι (Option β) :=
  c >>= fun
    | some a => f a
    | none => pure none

def each (f : α → Report ι Unit) : List α → Report ι Unit
  | [] => pure ()
  | a :: l => f a >>= fun _ => each f l

/-! ## Silent runs -/

def Silent (c : Report ι α) (a : α) : Prop := c = .returned a []

@[simp] theorem silent_pure {a b : α} : Silent (pure a : Report ι α) b ↔ b = a := by
  constructor
  · intro h
    cases h
    rfl
  · rintro rfl
    rfl

theorem silent_bind {c : Report ι α} {f : α → Report ι β} {b : β} :
    Silent (c >>= f) b ↔ ∃ a, Silent c a ∧ Silent (f a) b := by
  cases c with
  | aborted =>
    refine ⟨fun h => ?_, fun ⟨a, ha, _⟩ => ?_⟩
    · cases h
    · cases ha
  | returned a issues =>
    change Silent (andAfter issues (f a)) b ↔ _
    constructor
    · intro h
      rw [Silent] at h
      cases hf : f a with
      | aborted =>
        rw [hf] at h
        cases h
      | returned b' issues' =>
        rw [hf] at h
        obtain ⟨rfl, hissues⟩ := Report.returned.inj h
        obtain ⟨rfl, rfl⟩ := List.append_eq_nil_iff.mp hissues
        exact ⟨a, rfl, hf⟩
    · rintro ⟨a', ha, hb⟩
      obtain ⟨rfl, rfl⟩ := Report.returned.inj ha
      rw [Silent] at hb ⊢
      rw [hb]
      rfl

@[simp] theorem silent_fail {i : ι} {u : Unit} : Silent (fail i) u ↔ False := by
  refine ⟨fun h => ?_, False.elim⟩
  cases h

@[simp] theorem silent_failIf {p : Prop} [Decidable p] {i : ι} {u : Unit} : Silent (failIf p i) u ↔ ¬p := by
  unfold failIf
  split
  · rename_i h
    simp [h]
  · rename_i h
    simp [h]

theorem silent_andThen {c : Report ι (Option α)} {f : α → Report ι (Option β)} {b : Option β} :
    Silent (andThen c f) b ↔ (∃ a, Silent c (some a) ∧ Silent (f a) b) ∨ Silent c none ∧ b = none := by
  simp [andThen, silent_bind, Option.exists, or_comm]

/-- A first check that is silent only with a value. -/
theorem silent_andThen_some {c : Report ι (Option α)} {f : α → Report ι (Option β)} {b : Option β}
    {P : α → Prop} (hc : ∀ r, Silent c r ↔ ∃ a, r = some a ∧ P a) :
    Silent (andThen c f) b ↔ ∃ a, P a ∧ Silent (f a) b := by
  simp [silent_andThen, hc]

theorem silent_each {f : α → Report ι Unit} {l : List α} {u : Unit} :
    Silent (each f l) u ↔ ∀ a ∈ l, Silent (f a) () := by
  induction l with
  | nil => simp [each]
  | cons a l ih =>
    rw [each, silent_bind, List.forall_mem_cons]
    refine ⟨fun ⟨_, ha, hl⟩ => ⟨ha, ih.mp hl⟩, fun ⟨ha, hl⟩ => ⟨(), ha, ih.mpr hl⟩⟩

/-! ## Runs that abort -/

def Aborts (c : Report ι α) : Prop := c = .aborted

@[simp] theorem not_aborts_pure {a : α} : ¬ Aborts (pure a : Report ι α) := by
  intro h
  cases h

@[simp] theorem not_aborts_fail {i : ι} : ¬ Aborts (fail i) := by
  intro h
  cases h

@[simp] theorem not_aborts_failIf {p : Prop} [Decidable p] {i : ι} : ¬ Aborts (failIf p i) := by
  unfold failIf
  split <;> simp

/-- Where the rest aborts or not whatever the first part returns. -/
theorem aborts_bind {c : Report ι α} {f : α → Report ι β} {q : Prop} (hf : ∀ a, Aborts (f a) ↔ q) :
    Aborts (c >>= f) ↔ Aborts c ∨ q := by
  cases c with
  | aborted => exact ⟨fun _ => .inl rfl, fun _ => rfl⟩
  | returned a issues =>
    have hafter : Aborts (andAfter issues (f a)) ↔ Aborts (f a) := by
      cases f a with
      | aborted => exact Iff.rfl
      | returned b issues' =>
        refine ⟨fun h => ?_, fun h => ?_⟩ <;> cases h
    change Aborts (andAfter issues (f a)) ↔ _
    rw [hafter, hf a]
    refine ⟨.inr, ?_⟩
    rintro (h | h)
    · cases h
    · exact h

theorem not_aborts_bind {c : Report ι α} {f : α → Report ι β} (hc : ¬ Aborts c) (hf : ∀ a, ¬ Aborts (f a)) :
    ¬ Aborts (c >>= f) := by
  rw [aborts_bind fun a => iff_false_intro (hf a)]
  simpa using hc

theorem not_aborts_andThen {c : Report ι (Option α)} {f : α → Report ι (Option β)} (hc : ¬ Aborts c)
    (hf : ∀ a, ¬ Aborts (f a)) : ¬ Aborts (andThen c f) := by
  refine not_aborts_bind hc fun r => ?_
  cases r with
  | none => simp
  | some a => exact hf a

theorem not_aborts_each {f : α → Report ι Unit} (hf : ∀ a, ¬ Aborts (f a)) (l : List α) :
    ¬ Aborts (each f l) := by
  induction l with
  | nil => simp [each]
  | cons a l ih => exact not_aborts_bind (hf a) fun _ => ih

theorem returned_of_not_aborts {c : Report ι α} (h : ¬ Aborts c) : ∃ a issues, c = .returned a issues := by
  cases c with
  | aborted => exact absurd rfl h
  | returned a issues => exact ⟨a, issues, rfl⟩

end Report

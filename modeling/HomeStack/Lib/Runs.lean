import Mathlib.Tactic

/-! Computations with a state that may fail or never end, and what can be said of those that succeed.
`Gives x s a t`: from `s`, `x` succeeds with `a` and leaves `t`. `Grows R x`: a success only moves
the state along `R`, such as a cache that keeps what it has. `Ends x s`: from `s`, `x` comes to an end. -/

/-- Computations over a state `S` with errors `E`; `none` never ends. -/
abbrev Runs (S E α : Type) := StateT S (ExceptT E Option) α

namespace Runs

variable {S E α β γ : Type} {R : S → S → Prop}

/-- The outcome from a state. -/
def outcome (x : Runs S E α) (s : S) : Option (Except E (α × S)) := x s

def Gives (x : Runs S E α) (s : S) (a : α) (t : S) : Prop := x.outcome s = some (.ok (a, t))

def Ends (x : Runs S E α) (s : S) : Prop := x.outcome s ≠ none

/-- Where a computation does not end it is `none`. -/
def diverge : Runs S E α := fun _ => (none : Option _)

theorem gives_pure {a b : α} {s t : S} : Gives (pure a : Runs S E α) s b t ↔ b = a ∧ t = s := by
  constructor
  · intro h
    cases h
    exact ⟨rfl, rfl⟩
  · rintro ⟨rfl, rfl⟩
    rfl

theorem outcome_bind (x : Runs S E α) (f : α → Runs S E β) (s : S) : (x >>= f).outcome s =
    match x.outcome s with
    | none => none
    | some (.error e) => some (.error e)
    | some (.ok (a, t)) => (f a).outcome t := by
  show (StateT.bind x f s : Option (Except E (β × S))) = _
  unfold StateT.bind outcome
  show (ExceptT.bind (x s) _ : Option _) = _
  unfold ExceptT.bind
  show Option.bind (x s) _ = _
  rcases (x s : Option (Except E (α × S))) with _ | (e | ⟨a, t⟩) <;> rfl

theorem gives_bind {x : Runs S E α} {f : α → Runs S E β} {s t : S} {b : β} :
    Gives (x >>= f) s b t ↔ ∃ a u, Gives x s a u ∧ Gives (f a) u b t := by
  unfold Gives
  rw [outcome_bind]
  constructor
  · intro h
    split at h
    · cases h
    · cases h
    · rename_i a u hx
      exact ⟨a, u, hx, h⟩
  · rintro ⟨a, u, hx, hf⟩
    rw [hx]
    exact hf

theorem gives_throw {e : E} {s t : S} {a : α} : ¬ Gives (throw e : Runs S E α) s a t := nofun

theorem gives_get {s t a : S} : Gives (get : Runs S E S) s a t ↔ a = s ∧ t = s := by
  constructor
  · intro h
    cases h
    exact ⟨rfl, rfl⟩
  · rintro ⟨rfl, rfl⟩
    rfl

theorem gives_set {s t u : S} {a : PUnit} : Gives (set u : Runs S E PUnit) s a t ↔ t = u := by
  constructor
  · intro h
    cases h
    rfl
  · rintro rfl
    rfl

theorem gives_get_bind {f : S → Runs S E β} {s t : S} {b : β} :
    Gives (get >>= f) s b t ↔ Gives (f s) s b t := by
  constructor
  · intro h
    obtain ⟨a, u, hget, h⟩ := gives_bind.1 h
    obtain ⟨ha, hu⟩ := gives_get.1 hget
    rw [ha, hu] at h
    exact h
  · intro h
    exact gives_bind.2 ⟨s, s, gives_get.2 ⟨rfl, rfl⟩, h⟩

theorem gives_unique {x : Runs S E α} {s t u : S} {a b : α} (h : Gives x s a t) (h' : Gives x s b u) :
    a = b ∧ t = u := by
  unfold Gives at h h'
  rw [h] at h'
  cases h'
  exact ⟨rfl, rfl⟩

theorem ends_pure (a : α) (s : S) : Ends (pure a : Runs S E α) s := nofun

theorem ends_throw (e : E) (s : S) : Ends (throw e : Runs S E α) s := nofun

theorem ends_get (s : S) : Ends (get : Runs S E S) s := nofun

theorem ends_set (s t : S) : Ends (set t : Runs S E PUnit) s := nofun

theorem ends_bind {x : Runs S E α} {f : α → Runs S E β} {s : S} (hx : Ends x s)
    (hf : ∀ a t, Gives x s a t → Ends (f a) t) :
    Ends (x >>= f) s := by
  unfold Ends at hx ⊢
  rw [outcome_bind]
  split
  · contradiction
  · nofun
  · rename_i a t h
    exact hf a t h

theorem ends_ite {p : Prop} [Decidable p] {x y : Runs S E α} {s : S}
    (hx : p → Ends x s) (hy : ¬ p → Ends y s) :
    Ends (if p then x else y) s := by
  split
  · exact hx ‹_›
  · exact hy ‹_›

theorem ends_foldlM {f : β → α → Runs S E β} {l : List α} (hf : ∀ b, ∀ a ∈ l, ∀ s, Ends (f b a) s)
    (b : β) (s : S) :
    Ends (l.foldlM f b) s := by
  induction l generalizing b s with
  | nil => exact ends_pure b s
  | cons a l ih =>
    rw [List.foldlM_cons]
    exact ends_bind (hf b a (by simp) s) fun c t _ => ih (fun b a ha => hf b a (by simp [ha])) c t

/-! ## What a success returns -/

def Returns (P : α → Prop) (x : Runs S E α) : Prop := ∀ s a t, Gives x s a t → P a

variable {P : α → Prop} {Q : β → Prop}

theorem Gives.returns {x : Runs S E α} {s t : S} {a : α} (h : Gives x s a t) (hx : Returns P x) : P a :=
  hx s a t h

theorem returns_pure {a : α} (h : P a) : Returns P (pure a : Runs S E α) := by
  intro s b t hb
  rwa [(gives_pure.1 hb).1]

theorem returns_bind {x : Runs S E α} {f : α → Runs S E β} (hf : ∀ a, Returns Q (f a)) :
    Returns Q (x >>= f) := by
  intro s b t h
  obtain ⟨a, u, -, hb⟩ := gives_bind.1 h
  exact hf a u b t hb

end Runs

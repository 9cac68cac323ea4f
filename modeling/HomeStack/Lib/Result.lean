import Mathlib.Tactic

/-! Computations in `Except`: what a successful run says about its parts. -/

namespace Except

variable {ε α β : Type}

theorem bind_ok {x : Except ε α} {f : α → Except ε β} {b : β} (h : x >>= f = .ok b) :
    ∃ a, x = .ok a ∧ f a = .ok b := by
  cases x with
  | error e => cases h
  | ok a => exact ⟨a, rfl, h⟩

theorem ok_of_toOption {x : Except ε α} {a : α} (h : x.toOption = some a) : x = .ok a := by
  cases x with
  | error e => cases h
  | ok b =>
    cases h
    rfl

/-- A check that was passed. -/
theorem guard_ok {c : Prop} [Decidable c] {e : ε} {f : PUnit → Except ε β} {b : β}
    (h : (if c then throw e >>= f else f PUnit.unit) = .ok b) : ¬c ∧ f PUnit.unit = .ok b := by
  split at h
  · cases h
  next hc => exact ⟨hc, h⟩

/-- Every result of a successful `mapM` comes from an element. -/
theorem mapM_ok {f : α → Except ε β} {l : List α} {bs : List β} (h : l.mapM f = .ok bs) :
    ∀ b ∈ bs, ∃ a ∈ l, f a = .ok b := by
  induction l generalizing bs with
  | nil =>
    cases h
    simp
  | cons a l ih =>
    rw [List.mapM_cons] at h
    obtain ⟨b, hb, h⟩ := bind_ok h
    obtain ⟨cs, hcs, h⟩ := bind_ok h
    cases h
    intro c hc
    rcases List.mem_cons.mp hc with rfl | hc
    · exact ⟨a, by simp, hb⟩
    · obtain ⟨a', ha', e⟩ := ih hcs c hc
      exact ⟨a', List.mem_cons_of_mem _ ha', e⟩

/-- Every element of a successful `mapM` has its result. -/
theorem mem_mapM_ok {f : α → Except ε β} {l : List α} {bs : List β} {a : α}
    (h : l.mapM f = .ok bs) (ha : a ∈ l) :
    ∃ b ∈ bs, f a = .ok b := by
  induction l generalizing bs with
  | nil => simp at ha
  | cons x l ih =>
    rw [List.mapM_cons] at h
    obtain ⟨b, hb, h⟩ := bind_ok h
    obtain ⟨cs, hcs, h⟩ := bind_ok h
    cases h
    rcases List.mem_cons.mp ha with rfl | ha
    · exact ⟨b, List.mem_cons_self, hb⟩
    · obtain ⟨c, hc, e⟩ := ih hcs ha
      exact ⟨c, List.mem_cons_of_mem _ hc, e⟩

/-- A successful `forM` succeeded on every element. -/
theorem forM_ok {f : α → Except ε Unit} {l : List α} {u : Unit} (h : l.forM f = .ok u) :
    ∀ a ∈ l, f a = .ok () := by
  induction l with
  | nil => simp
  | cons a l ih =>
    change f a >>= (fun _ => l.forM f) = .ok u at h
    obtain ⟨b, hb, h⟩ := bind_ok h
    intro c hc
    rcases List.mem_cons.mp hc with rfl | hc
    · exact hb
    · exact ih h c hc

theorem forM_of_ok {f : α → Except ε Unit} {l : List α} (h : ∀ a ∈ l, f a = .ok ()) : l.forM f = .ok () := by
  induction l with
  | nil => rfl
  | cons a l ih =>
    change f a >>= (fun _ => l.forM f) = .ok ()
    rw [h a (by simp)]
    exact ih fun b hb => h b (List.mem_cons_of_mem _ hb)

/-- A successful loop keeps what each step keeps; `I` knows the elements done. -/
theorem foldlM_ok {f : β → α → Except ε β} {I : List α → β → Prop}
    (hf : ∀ done a b c, I done b → f b a = .ok c → I (done ++ [a]) c) {l : List α} {b c : β} (hb : I [] b)
    (h : l.foldlM f b = .ok c) : I l c := by
  have hloop : ∀ l done b, I done b → l.foldlM f b = .ok c → I (done ++ l) c := by
    intro l
    induction l with
    | nil =>
      intro done b hb h
      cases h
      rw [List.append_nil]
      exact hb
    | cons a l ih =>
      intro done b hb h
      rw [List.foldlM_cons] at h
      obtain ⟨b', hb', h⟩ := bind_ok h
      have := ih (done ++ [a]) b' (hf done a b b' hb hb') h
      rwa [List.append_assoc] at this
  exact hloop l [] b hb h

end Except

namespace ExceptT

variable {ε α β : Type}

/-- A result of a computation that may also be undefined. -/
theorem bind_some_ok {x : ExceptT ε Option α} {f : α → ExceptT ε Option β} {b : β}
    (h : (x >>= f).run = some (.ok b)) : ∃ a, x.run = some (.ok a) ∧ (f a).run = some (.ok b) := by
  rw [ExceptT.run_bind] at h
  cases hx : x.run with
  | none =>
    rw [hx] at h
    cases h
  | some r =>
    rw [hx] at h
    cases r with
    | error e => cases h
    | ok a => exact ⟨a, rfl, h⟩

/-- A computation is defined when its parts are. -/
theorem bind_isSome {x : ExceptT ε Option α} {f : α → ExceptT ε Option β} (hx : x.run.isSome)
    (hf : ∀ a, x.run = some (.ok a) → (f a).run.isSome) : (x >>= f).run.isSome := by
  rw [ExceptT.run_bind]
  cases hr : x.run with
  | none =>
    rw [hr] at hx
    cases hx
  | some r =>
    cases r with
    | error e => rfl
    | ok a => exact hf a hr

end ExceptT

import HomeStack.Lib.Text

/-! What `parse` reads of an unsigned decimal number: an optional sign and digits. -/

namespace Text

/-- A number is read of a sign and digits alone. -/
theorem digits_of_parseNat {bound n : Nat} {t : Text} (h : parseNat bound t = some n) :
    ∀ c ∈ t, c = '+' ∨ c.isDigit = true := by
  unfold parseNat at h
  obtain ⟨⟨-, hdigits, -⟩, -⟩ := Option.ite_none_right_eq_some.mp h
  intro c hc
  split at hdigits
  · rcases List.mem_cons.mp hc with rfl | hin
    · exact Or.inl rfl
    · exact Or.inr (List.all_eq_true.mp hdigits c hin)
  · exact Or.inr (List.all_eq_true.mp hdigits c hc)

theorem parseNat_iff {bound n : Nat} {t : Text} :
    parseNat bound t = some n ↔ ∃ digits, (t = digits ∨ t = '+' :: digits) ∧ digits ≠ [] ∧
      allDigits digits = true ∧
      digitsValue digits = n ∧ n < bound := by
  have hsign : ∀ digits : Text, allDigits ('+' :: digits) = false := fun _ => rfl
  unfold parseNat
  rw [Option.ite_none_right_eq_some]
  constructor
  · split
    · rename_i rest
      rintro ⟨⟨hne, hall, hlt⟩, heq⟩
      cases heq
      exact ⟨rest, Or.inr rfl, hne, hall, rfl, hlt⟩
    · rintro ⟨⟨hne, hall, hlt⟩, heq⟩
      cases heq
      exact ⟨t, Or.inl rfl, hne, hall, rfl, hlt⟩
  · rintro ⟨digits, rfl | rfl, hne, hall, rfl, hlt⟩
    · split
      · rw [hsign] at hall
        cases hall
      · exact ⟨⟨hne, hall, hlt⟩, rfl⟩
    · exact ⟨⟨hne, hall, hlt⟩, rfl⟩

theorem parseNat_digits {number : Text} (hdigits : allDigits number = true)
    (hne : number ≠ []) (bound : Nat) :
    parseNat bound number = if digitsValue number < bound then some (digitsValue number) else none := by
  unfold parseNat
  split
  · cases hdigits
  · simp [hne, hdigits]

end Text

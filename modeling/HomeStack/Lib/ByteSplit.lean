import HomeStack.Lib.Utf8

/-! Splitting a text at a byte: `str::split_at`, which panics inside a character. -/

namespace Text

/-- `len` of a `str` -/
def byteLength (t : Text) : Nat := (t.map Char.utf8Size).sum

/-- `split_at`; inside a character or after the end it is `none`. -/
def splitAtByte : Text → Nat → Option (Text × Text)
  | t, 0 => some ([], t)
  | [], _ + 1 => none
  | c :: t, n + 1 => if c.utf8Size ≤ n + 1 then (splitAtByte t (n + 1 - c.utf8Size)).map fun (a, b) =>
    (c :: a, b) else none

@[simp] theorem byteLength_nil : byteLength [] = 0 := rfl

@[simp] theorem byteLength_cons (c : Char) (t : Text) : byteLength (c :: t) = c.utf8Size + byteLength t := by
  simp [byteLength]

@[simp] theorem byteLength_append (s t : Text) : byteLength (s ++ t) = byteLength s + byteLength t := by
  simp [byteLength]

theorem splitAtByte_append (a b : Text) : splitAtByte (a ++ b) (byteLength a) = some (a, b) := by
  induction a with
  | nil => cases b <;> simp [splitAtByte]
  | cons c a ih =>
    have hpos := c.utf8Size_pos
    obtain ⟨n, hn⟩ : ∃ n, c.utf8Size + byteLength a = n + 1 := ⟨c.utf8Size + byteLength a - 1, by omega⟩
    rw [byteLength_cons, hn, List.cons_append, splitAtByte, if_pos (by omega), ← hn,
      Nat.add_sub_cancel_left, ih]
    rfl

theorem splitAtByte_some {t a b : Text} {n : Nat} (h : splitAtByte t n = some (a, b)) :
    t = a ++ b ∧ byteLength a = n := by
  induction t generalizing a n with
  | nil =>
    cases n with
    | zero =>
      cases h
      exact ⟨rfl, rfl⟩
    | succ n => cases h
  | cons c t ih =>
    cases n with
    | zero =>
      cases h
      exact ⟨rfl, rfl⟩
    | succ n =>
      rw [splitAtByte] at h
      split at h
      · rename_i hle
        obtain ⟨⟨a', b'⟩, hrest, heq⟩ := Option.map_eq_some_iff.mp h
        cases heq
        obtain ⟨rfl, hlen⟩ := ih hrest
        rw [byteLength_cons, hlen]
        exact ⟨rfl, by omega⟩
      · cases h

/-- Before the last byte a text is split exactly when its last character is that byte. -/
theorem splitAtByte_last (init : Text) (c : Char) :
    splitAtByte (init ++ [c]) (byteLength (init ++ [c]) - 1) = if c.utf8Size = 1 then some (init, [c])
    else none := by
  have hlen : byteLength (init ++ [c]) = byteLength init + c.utf8Size := by simp
  split
  · rename_i hone
    rw [hlen, hone, Nat.add_sub_cancel, splitAtByte_append]
  · rename_i hmany
    cases h : splitAtByte (init ++ [c]) (byteLength (init ++ [c]) - 1) with
    | none => rfl
    | some halves =>
      obtain ⟨a, b⟩ := halves
      obtain ⟨heq, ha⟩ := splitAtByte_some h
      have hpos := c.utf8Size_pos
      have hb : byteLength b = 1 := by
        have := congrArg byteLength heq
        rw [byteLength_append a b] at this
        omega
      cases hd : b.reverse with
      | nil =>
        rw [List.reverse_eq_nil_iff.mp hd] at hb
        cases hb
      | cons d rest =>
        have hsplit : b = rest.reverse ++ [d] := by rw [← List.reverse_reverse b, hd, List.reverse_cons]
        rw [hsplit, ← List.append_assoc] at heq
        obtain ⟨-, hlast⟩ := List.append_inj' heq rfl
        obtain rfl : c = d := by simpa using hlast
        rw [hsplit, byteLength_append] at hb
        simp only [byteLength_cons, byteLength_nil] at hb
        omega

end Text

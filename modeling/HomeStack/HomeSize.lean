import HomeStack.Error
import HomeStack.Lib.ByteSplit
import HomeStack.Lib.Checked
import HomeStack.Lib.Decimal

/-! The size of a workspace's home, `<n>M`, `<n>G` or `<n>T` (`parse_home_size`). -/

namespace HomeStack.HomeSize

def invalid : CoreError :=
  .invalid "Home size must be an integer number of MiB, GiB or TiB, for example 500M, 20G or 1T"

/-- `to_ascii_uppercase` -/
def upper (t : Text) : Text := t.map Char.toUpper

def validNumber (number : Text) : Bool := number ≠ [] && number.head? ≠ some '0' && Text.allDigits number

def mebibytes (value : Nat) (unit : Text) : Except CoreError Nat :=
  if unit = ['M'] then .ok value
  else if unit = ['G'] then (Checked.mul value 1024).elim (.error invalid) .ok
  else if unit = ['T'] then (Checked.mul value (1024 * 1024)).elim (.error invalid) .ok
  else .error invalid

/-- The halves of the text, read. -/
def readHomeSize (text number unit : Text) : Except CoreError (Text × Nat) :=
  if !validNumber number then .error invalid
  else
    match Text.parseNat (2 ^ 64) number with
    | none => .error invalid
    | some value => (mebibytes value unit).map fun mib => (text, mib)

/-- `proxmox.parse_home_size`: as text and in MiB. A panic is `none`. -/
def parseHomeSize (size : Text) : Option (Except CoreError (Text × Nat)) :=
  let text := upper (Text.trim size)
  (Text.splitAtByte text (Text.byteLength text - 1)).map fun (number, unit) => readHomeSize text number unit

/-! ## Sizes -/

/-- The MiB of a unit. -/
inductive Unit : Char → Nat → Prop
  | mebi : Unit 'M' 1
  | gibi : Unit 'G' 1024
  | tebi : Unit 'T' (1024 * 1024)

/-- A decimal integer without a leading zero and a unit, whose value in MiB fits in `u64`. -/
def Size (t : Text) (mib : Nat) : Prop :=
  ∃ digits unit factor, t = digits ++ [unit] ∧ Unit unit factor ∧ digits ≠ [] ∧ digits.head? ≠ some '0' ∧
    Text.allDigits digits = true ∧ mib = Text.digitsValue digits * factor ∧ mib < 2 ^ 64

/-- The text is read without a panic, and accepted with its value exactly when it is a size. -/
def Exact (size : Text) : Prop :=
  ∃ result, parseHomeSize size = some result ∧ ∀ t mib, result = .ok (t, mib) ↔
    t = upper (Text.trim size) ∧ Size t mib

theorem mebibytes_iff {value mib : Nat} {unit : Char} (hvalue : value < 2 ^ 64) :
    mebibytes value [unit] = .ok mib ↔ ∃ factor, Unit unit factor ∧ mib = value * factor ∧ mib < 2 ^ 64 := by
  have hmul : ∀ factor, (Checked.mul value factor).elim (.error invalid) .ok =
      (.ok mib : Except CoreError Nat) ↔
      mib = value * factor ∧ mib < 2 ^ 64 := by
    intro factor
    unfold Checked.mul
    split
    · simp only [Option.elim_some, Except.ok.injEq]
      constructor
      · rintro rfl
        exact ⟨rfl, by assumption⟩
      · rintro ⟨rfl, -⟩
        rfl
    · simp only [Option.elim_none, reduceCtorEq, false_iff]
      rintro ⟨rfl, hlt⟩
      contradiction
  unfold mebibytes
  constructor
  · intro h
    split at h
    · rename_i hunit
      cases hunit
      cases h
      exact ⟨1, .mebi, by omega, hvalue⟩
    · split at h
      · rename_i hunit
        cases hunit
        exact ⟨1024, .gibi, (hmul 1024).mp h⟩
      · split at h
        · rename_i hunit
          cases hunit
          exact ⟨1024 * 1024, .tebi, (hmul _).mp h⟩
        · cases h
  · rintro ⟨factor, hunit, hmib⟩
    cases hunit with
    | mebi =>
      rw [if_pos rfl, hmib.1, Nat.mul_one]
    | gibi =>
      rw [if_neg (by decide), if_pos rfl]
      exact (hmul 1024).mpr hmib
    | tebi =>
      rw [if_neg (by decide), if_neg (by decide), if_pos rfl]
      exact (hmul _).mpr hmib

/-- What is read of a number and a unit. -/
theorem readHomeSize_iff {text init t : Text} {c : Char} {mib : Nat} :
    readHomeSize text init [c] = .ok (t, mib) ↔ t = text ∧ validNumber init = true ∧
      ∃ factor, Unit c factor ∧ mib = Text.digitsValue init * factor ∧ mib < 2 ^ 64 := by
  have hpos : ∀ {factor}, Unit c factor → 1 ≤ factor := by
    intro factor hunit
    cases hunit <;> decide
  unfold readHomeSize
  by_cases hvalid : validNumber init = true
  · have hparts := hvalid
    simp only [validNumber, Bool.and_eq_true, decide_eq_true_eq] at hparts
    simp only [hvalid, Bool.not_true, Bool.false_eq_true, ↓reduceIte, true_and]
    rw [Text.parseNat_digits hparts.2 hparts.1.1]
    by_cases hlt : Text.digitsValue init < 2 ^ 64
    · rw [if_pos hlt]
      have hread := @mebibytes_iff (Text.digitsValue init) mib c hlt
      rw [← hread]
      dsimp only
      generalize mebibytes (Text.digitsValue init) [c] = found
      cases found with
      | error e => simp [Except.map]
      | ok found =>
        simp only [Except.map, Except.ok.injEq, Prod.mk.injEq]
        exact and_congr_left fun _ => eq_comm
    · rw [if_neg hlt]
      simp only [reduceCtorEq, false_iff]
      rintro ⟨-, factor, hunit, rfl, hsmall⟩
      have := Nat.le_mul_of_pos_right (Text.digitsValue init) (hpos hunit)
      omega
  · simp [hvalid]

theorem size_append {init : Text} {c : Char} {mib : Nat} : Size (init ++ [c]) mib ↔ validNumber init = true ∧
    ∃ factor, Unit c factor ∧ mib = Text.digitsValue init * factor ∧ mib < 2 ^ 64 := by
  simp only [validNumber, Bool.and_eq_true, decide_eq_true_eq]
  constructor
  · rintro ⟨digits, unit, factor, heq, hunit, hne, hzero, hdigits, hvalue⟩
    obtain ⟨rfl, hc⟩ := List.append_inj' heq rfl
    obtain rfl : c = unit := by simpa using hc
    exact ⟨⟨⟨hne, hzero⟩, hdigits⟩, factor, hunit, hvalue⟩
  · rintro ⟨⟨⟨hne, hzero⟩, hdigits⟩, factor, hunit, hvalue⟩
    exact ⟨init, c, factor, rfl, hunit, hne, hzero, hdigits, hvalue⟩

/-- Upper case keeps the characters of one byte. -/
theorem utf8Size_toUpper (c : Char) : c.toUpper.utf8Size = 1 ↔ c.utf8Size = 1 := by
  by_cases hone : c.utf8Size = 1
  · refine iff_of_true ?_ hone
    have hascii : ∀ n : Fin 128, (Char.ofNat n).toUpper.utf8Size = 1 := by decide
    have hlt : c.toNat < 128 :=
      Nat.lt_succ_of_le (UInt32.le_iff_toNat_le.mp (Char.utf8Size_eq_one_iff.mp hone))
    have := hascii ⟨c.toNat, hlt⟩
    rwa [Char.ofNat_toNat] at this
  · have hsame : c.toUpper = c := by
      unfold Char.toUpper
      rw [dif_neg]
      rintro ⟨-, hle⟩
      exact hone (Char.utf8Size_eq_one_iff.mpr (UInt32.le_trans hle (by decide : 'z'.val ≤ 127)))
    rw [hsame]

/-- **A home size is read for what it is** exactly when the trimmed text does not end in a character of
several bytes. -/
theorem exact_iff (size : Text) : Exact size ↔ ∀ c, (Text.trim size).getLast? = some c → c.utf8Size = 1 := by
  unfold Exact parseHomeSize
  rcases List.eq_nil_or_concat (Text.trim size) with hnil | ⟨init, c, hlast⟩
  · rw [hnil]
    refine iff_of_true ⟨.error invalid, rfl, fun t mib => ?_⟩ nofun
    simp only [reduceCtorEq, false_iff]
    rintro ⟨rfl, digits, unit, factor, heq, -⟩
    exact absurd heq (by simp [upper])
  · have htext : upper (Text.trim size) = upper init ++ [c.toUpper] := by simp [hlast, upper]
    rw [htext, hlast, List.concat_eq_append, List.getLast?_concat]
    dsimp only
    rw [Text.splitAtByte_last]
    by_cases hone : c.utf8Size = 1
    · rw [if_pos ((utf8Size_toUpper c).mpr hone)]
      refine iff_of_true ⟨_, rfl, fun t mib => ?_⟩ ?_
      · dsimp only
        rw [readHomeSize_iff]
        refine and_congr_right fun heq => ?_
        rw [heq, size_append]
      · rintro d hd
        cases hd
        exact hone
    · rw [if_neg fun h => hone ((utf8Size_toUpper c).mp h)]
      refine iff_of_false ?_ fun h => hone (h c rfl)
      rintro ⟨result, hresult, -⟩
      cases hresult

/-- A size that ends in a euro sign panics. -/
theorem exact_euro : ¬ ∀ size : Text, Exact size := by
  intro h
  obtain ⟨result, hresult, -⟩ := h "20€"
  have hpanic : (parseHomeSize "20€").isNone = true := by decide +kernel
  rw [hresult] at hpanic
  cases hpanic

end HomeStack.HomeSize

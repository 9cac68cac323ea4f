import HomeStack.Lib.Double
import HomeStack.Lib.Text

/-! Doubles as values: finite ones are rationals of double precision, and the two zeros are one. -/

inductive F64
  | nan
  | inf (negative : Bool)
  | finite (value : ℚ)
  deriving DecidableEq

namespace F64

/-- The nearest double. -/
def ofRat (q : ℚ) : F64 :=
  let rounded := Double.round q
  if 2 ^ 1024 ≤ |rounded| then .inf (rounded < 0) else .finite rounded

def isFinite : F64 → Bool
  | .finite _ => true
  | _ => false

/-- `as u64` of a value that is not negative: cut off, and at most the largest `u64`. -/
def toU64 (q : ℚ) : Nat := min ⌊q⌋₊ (2 ^ 64 - 1)

/-- Digits, with or without a fraction. -/
def mantissa (t : Text) : Option ℚ :=
  let whole := t.takeWhile Char.isDigit
  let fraction? : Option Text := match t.dropWhile Char.isDigit with
    | [] => some []
    | '.' :: fraction => if Text.allDigits fraction then some fraction else none
    | _ => none
  fraction?.bind fun fraction =>
    if whole ++ fraction = [] then none
    else some ((Text.digitsValue (whole ++ fraction) : ℚ) / 10 ^ fraction.length)

def exponent (t : Text) : Option ℤ :=
  let (negative, digits) := match t with
    | '-' :: digits => (true, digits)
    | '+' :: digits => (false, digits)
    | _ => (false, t)
  if digits = [] ∨ !Text.allDigits digits then none
  else some (if negative then -(Text.digitsValue digits : ℤ) else Text.digitsValue digits)

/-- A decimal number without its sign. -/
def decimal (t : Text) : Option ℚ :=
  let isE : Char → Bool := fun c => c = 'e' || c = 'E'
  match t.dropWhile (!isE ·) with
  | [] => mantissa t
  | _ :: e => do some ((← mantissa (t.takeWhile (!isE ·))) * 10 ^ (← exponent e))

/-- `str::parse::<f64>` -/
def parse (t : Text) : Option F64 :=
  let (negative, rest) := match t with
    | '-' :: rest => (true, rest)
    | '+' :: rest => (false, rest)
    | _ => (false, t)
  let lower := rest.map Char.toLower
  if lower = "inf" ∨ lower = "infinity" then some (.inf negative)
  else if lower = "nan" then some .nan
  else (decimal rest).map fun q => ofRat (if negative then -q else q)

/-- An integer of up to 53 bits is read exactly. -/
theorem parse_ofNat {n : Nat} (h : n < 2 ^ 53) : parse (Text.ofNat n) = some (.finite n) := by
  have hdigits : ∀ c ∈ Text.ofNat n, c.isDigit = true :=
    fun c hc => Nat.isDigit_of_mem_toDigits (by decide) (by decide) hc
  have hne : Text.ofNat n ≠ [] := Nat.toDigits_ne_nil
  have hvalue : Text.digitsValue (Text.ofNat n) = n := Nat.ofDigitChars_ten_toDigits
  obtain ⟨c, rest, htext⟩ := List.exists_cons_of_ne_nil hne
  have hc := hdigits c (htext ▸ List.mem_cons_self)
  have hfirst : ∀ d : Char, d.isDigit = false → c ≠ d := by
    rintro d hd rfl
    rw [hc] at hd
    cases hd
  have hsign : (match Text.ofNat n with
      | '-' :: rest => (true, rest)
      | '+' :: rest => (false, rest)
      | _ => (false, Text.ofNat n)) = (false, Text.ofNat n) := by
    split
    · rename_i heq
      exact absurd (List.cons.inj (htext.symm.trans heq)).1 (hfirst '-' rfl)
    · rename_i heq
      exact absurd (List.cons.inj (htext.symm.trans heq)).1 (hfirst '+' rfl)
    · rfl
  have hlower : ∀ {d : Char} {w : Text}, d.isDigit = false → (Text.ofNat n).map Char.toLower ≠ d :: w := by
    intro d w hd heq
    rw [htext, List.map_cons] at heq
    have hsame : c.toLower = c := by
      rw [Char.toLower, dif_neg]
      intro hupper
      have hrange : 48 ≤ c.toNat ∧ c.toNat ≤ 57 := by
        simp only [Char.isDigit, Bool.and_eq_true, decide_eq_true_eq] at hc
        exact hc
      have hletter : 65 ≤ c.toNat := hupper.1
      omega
    exact hfirst d hd (hsame ▸ (List.cons.inj heq).1)
  have hinf : ("inf" : Text) = ['i', 'n', 'f'] := String.toList_ofList
  have hinfinity : ("infinity" : Text) = ['i', 'n', 'f', 'i', 'n', 'i', 't', 'y'] := String.toList_ofList
  have hnan : ("nan" : Text) = ['n', 'a', 'n'] := String.toList_ofList
  have hnotE : (Text.ofNat n).dropWhile (fun c => !(decide (c = 'e') || decide (c = 'E'))) = [] := by
    rw [List.dropWhile_eq_nil_iff]
    intro d hd
    have hdigit := hdigits d hd
    have he : d ≠ 'e' ∧ d ≠ 'E' := by
      constructor <;> rintro rfl <;> cases hdigit
    simp [he]
  have hmantissa : mantissa (Text.ofNat n) = some (n : ℚ) := by
    unfold mantissa
    rw [List.takeWhile_eq_self_iff.mpr hdigits, List.dropWhile_eq_nil_iff.mpr hdigits]
    simp [hne, hvalue]
  unfold parse
  simp only [hsign]
  rw [if_neg (by
      rw [hinf, hinfinity]
      rintro (heq | heq) <;> exact hlower rfl heq), if_neg (by
      rw [hnan]
      exact hlower rfl), decimal]
  simp only [hnotE, hmantissa]
  rw [Option.map_some, if_neg (by decide), ofRat, Double.round_natCast h]
  have hsmall : ¬ (2 : ℚ) ^ 1024 ≤ |(n : ℚ)| := by
    rw [Nat.abs_cast, not_le]
    calc (n : ℚ) < 2 ^ 53 := by exact_mod_cast h
      _ ≤ 2 ^ 1024 := pow_le_pow_right₀ (by norm_num) (by norm_num)
  rw [if_neg hsmall]

end F64

import HomeStack.Lib.Codec

/-! Percent encoding of bytes: `%` and two hexadecimal digits for every byte that
may not stand for itself. -/

/-- An ASCII character as its byte. -/
def Char.byte (c : Char) : UInt8 := UInt8.ofNat c.toNat

/-- ASCII text is its own UTF-8. -/
theorem Text.utf8_ascii {t : Text} (h : ∀ c ∈ t, c.toNat < 0x80) : t.utf8 = t.map Char.byte := by
  have hchar : ∀ c : Char, c.toNat < 0x80 → String.utf8EncodeChar c = [c.byte] := by
    intro c hc
    have hc : c.val.toNat ≤ 0x7f := Nat.le_of_lt_succ hc
    simp only [String.utf8EncodeChar, hc, ↓reduceIte]
    rfl
  unfold Text.utf8
  rw [String.toByteArray_ofList, List.utf8Encode]
  induction t with
  | nil => rfl
  | cons c t ih =>
    have hrest := ih fun d hd => h d (List.mem_cons_of_mem _ hd)
    simp only [List.data_toByteArray] at hrest ⊢
    rw [List.flatMap_cons, hchar c (h c (by simp)), List.map_cons, ← hrest]
    rfl

theorem Text.utf8_toNat {t : Text} (h : ∀ c ∈ t, c.toNat < 0x80) :
    t.utf8.map UInt8.toNat = t.map Char.toNat := by
  rw [Text.utf8_ascii h, List.map_map]
  refine List.map_congr_left fun c hc => ?_
  have hlt := h c hc
  simp [Char.byte]
  omega

namespace Percent

/-- `{n:X}` of one digit. -/
def hexUpper (n : Nat) : Char := Char.ofNat (if n < 10 then 0x30 + n else 0x37 + n)

/-- `to_digit(16)` of a byte as a character. -/
def hexValue (b : UInt8) : Option Nat :=
  if 0x30 ≤ b ∧ b ≤ 0x39 then some (b.toNat - 0x30)
  else if 0x41 ≤ b ∧ b ≤ 0x46 then some (b.toNat - 0x37)
  else if 0x61 ≤ b ∧ b ≤ 0x66 then some (b.toNat - 0x57)
  else none

/-- A byte, as itself when it is safe, else as `%XX`. -/
def encodeByte (safe : UInt8 → Bool) (b : UInt8) : Text :=
  if safe b then [Char.ofNat b.toNat] else ['%', hexUpper (b.toNat / 16), hexUpper (b.toNat % 16)]

def encode (safe : UInt8 → Bool) (bytes : Bytes) : Text := bytes.flatMap (encodeByte safe)

/-- `%XX` becomes its byte; every other byte stays. -/
def decode : Bytes → Bytes
  | b :: c :: d :: rest =>
    match b == 0x25, hexValue c, hexValue d with
    | true, some high, some low => UInt8.ofNat (high * 16 + low) :: decode rest
    | _, _, _ => b :: decode (c :: d :: rest)
  | bytes => bytes

attribute [local simp] decode

theorem decode_other {b : UInt8} (hb : b ≠ 0x25) (rest : Bytes) : decode (b :: rest) = b :: decode rest := by
  match rest with
  | [] => rfl
  | [_] => rfl
  | c :: d :: rest => simp [decode, hb]

theorem decode_escape {c d : UInt8} {high low : Nat} (hc : hexValue c = some high)
    (hd : hexValue d = some low) (rest : Bytes) :
    decode (0x25 :: c :: d :: rest) = UInt8.ofNat (high * 16 + low) :: decode rest := by
  rw [decode, hc, hd]
  rfl

theorem hexUpper_byte {n : Nat} (h : n < 16) :
    hexValue (hexUpper n).byte = some n ∧ (hexUpper n).toNat < 0x80 := by
  have hall : ∀ n : Fin 16, hexValue (hexUpper n).byte = some n.val ∧ (hexUpper n).toNat < 0x80 := by decide
  exact hall ⟨n, h⟩

theorem toNat_ofNat_ascii {n : Nat} (h : n < 0x80) : (Char.ofNat n).toNat = n := by
  have hvalid : n.isValidChar := Or.inl (by omega)
  rw [Char.ofNat, dif_pos hvalid]
  rfl

section

variable {safe : UInt8 → Bool} (hsafe : ∀ b, safe b = true → b < 0x80 ∧ b ≠ 0x25)

include hsafe

theorem encodeByte_ascii (b : UInt8) : ∀ c ∈ encodeByte safe b, c.toNat < 0x80 := by
  have hlt : b.toNat < 256 := b.toNat_lt
  have hdigit := (hexUpper_byte (n := b.toNat / 16) (by omega)).2
  have hdigit' := (hexUpper_byte (n := b.toNat % 16) (by omega)).2
  unfold encodeByte
  split
  · next hs =>
    have hb : b.toNat < 0x80 := (hsafe b hs).1
    intro c hc
    rw [List.mem_singleton] at hc
    subst hc
    rw [toNat_ofNat_ascii hb]
    exact hb
  · simp [hdigit, hdigit']

/-- An encoded byte is read back. -/
theorem decode_encodeByte (b : UInt8) (rest : Bytes) :
    decode ((encodeByte safe b).map Char.byte ++ rest) = b :: decode rest := by
  have hlt : b.toNat < 256 := b.toNat_lt
  unfold encodeByte
  split
  · next hs =>
    have hb : b.toNat < 0x80 := (hsafe b hs).1
    have hbyte : (Char.ofNat b.toNat).byte = b := by
      rw [Char.byte, toNat_ofNat_ascii hb]
      simp
    rw [List.map_singleton, hbyte, List.singleton_append, decode_other (hsafe b hs).2]
  · have hhigh := (hexUpper_byte (n := b.toNat / 16) (by omega)).1
    have hlow := (hexUpper_byte (n := b.toNat % 16) (by omega)).1
    have hvalue : UInt8.ofNat (b.toNat / 16 * 16 + b.toNat % 16) = b := by
      rw [Nat.div_add_mod']
      simp
    simp only [List.map_cons, List.map_nil, List.cons_append, List.nil_append]
    rw [show ('%' : Char).byte = 0x25 from rfl, decode_escape hhigh hlow, hvalue]

theorem decode_encode (bytes : Bytes) : decode ((encode safe bytes).map Char.byte) = bytes := by
  induction bytes with
  | nil => simp [encode, decode]
  | cons b bytes ih =>
    rw [encode, List.flatMap_cons, List.map_append, decode_encodeByte hsafe]
    exact congrArg (b :: ·) ih

/-- **Round trip of a text** through its encoded UTF-8. -/
theorem decode_utf8_encode (t : Text) : Bytes.fromUtf8Lossy (decode (encode safe t.utf8).utf8) = t := by
  have hascii : ∀ c ∈ encode safe t.utf8, c.toNat < 0x80 := by
    intro c hc
    obtain ⟨b, -, hc⟩ := List.mem_flatMap.mp hc
    exact encodeByte_ascii hsafe b c hc
  rw [Text.utf8_ascii hascii, decode_encode hsafe, Text.fromUtf8Lossy_utf8]

end

end Percent

import HomeStack.Lib.Text

/-! Encoders and decoders taken from libraries, as structures that carry the
laws relied on, and base64 with the standard alphabet as such a structure. -/

abbrev Bytes := List UInt8

/-- Base64: a decoder that undoes the encoder, whose output has neither `<`
nor whitespace. -/
structure Base64 where
  encode : Bytes → Text
  decode : Text → Option Bytes
  decode_encode : ∀ b, decode (encode b) = some b
  clean : ∀ b, ∀ c ∈ encode b, c ≠ '<' ∧ Text.isWhitespace c = false

/-- A serializable type: `from_slice` undoes `to_vec`. -/
structure Serde (α : Type) where
  toVec : α → Bytes
  fromSlice : Bytes → Option α
  fromSlice_toVec : ∀ a, fromSlice (toVec a) = some a

/-- UTF-8 -/
def Text.utf8 (t : Text) : Bytes := (String.ofList t).toByteArray.data.toList

theorem Text.utf8_inj {s t : Text} (h : s.utf8 = t.utf8) : s = t := by
  apply String.ofList_injective
  rw [← String.toByteArray_inj]
  exact ByteArray.ext (Array.toList_inj.mp h)

def Bytes.fromUtf8 (b : Bytes) : Option Text := (String.fromUTF8? ⟨b.toArray⟩).map String.toList

theorem Text.fromUtf8_utf8 (t : Text) : Bytes.fromUtf8 t.utf8 = some t := by
  have h : (⟨t.utf8.toArray⟩ : ByteArray) = (String.ofList t).toByteArray := by
    apply ByteArray.ext
    simp [Text.utf8]
  unfold Bytes.fromUtf8 String.fromUTF8?
  rw [h, dif_pos (String.ofList t).isValidUTF8]
  exact congrArg some String.toList_ofList

theorem Bytes.utf8_fromUtf8 {b : Bytes} {t : Text} (h : Bytes.fromUtf8 b = some t) : t.utf8 = b := by
  unfold Bytes.fromUtf8 String.fromUTF8? at h
  split at h
  · cases h
    simp [Text.utf8, String.fromUTF8]
  · cases h

/-- The length of the character or broken piece that begins with `b`, and
whether it is a character. -/
def Utf8.piece (b : UInt8) (rest : Bytes) : Nat × Bool :=
  let next (i : Nat) (lo hi : UInt8) : Bool := (rest[i]?).any fun c => lo ≤ c && c ≤ hi
  if b < 0x80 then (1, true)
  else if 0xC2 ≤ b && b ≤ 0xDF then if next 0 0x80 0xBF then (2, true) else (1, false)
  else if 0xE0 ≤ b && b ≤ 0xEF then
    let lo : UInt8 := if b = 0xE0 then 0xA0 else 0x80
    let hi : UInt8 := if b = 0xED then 0x9F else 0xBF
    if !next 0 lo hi then (1, false) else if !next 1 0x80 0xBF then (2, false) else (3, true)
  else if 0xF0 ≤ b && b ≤ 0xF4 then
    let lo : UInt8 := if b = 0xF0 then 0x90 else 0x80
    let hi : UInt8 := if b = 0xF4 then 0x8F else 0xBF
    if !next 0 lo hi then (1, false)
    else if !next 1 0x80 0xBF then (2, false)
    else if !next 2 0x80 0xBF then (3, false)
    else (4, true)
  else (1, false)

/-- Every broken piece becomes U+FFFD. -/
def Utf8.repair : Nat → Bytes → Text
  | 0, _ => []
  | _ + 1, [] => []
  | n + 1, b :: rest =>
    let (len, good) := piece b rest
    let read := if good then (Bytes.fromUtf8 ((b :: rest).take len)).getD [] else [Char.ofNat 0xFFFD]
    read ++ repair n ((b :: rest).drop len)

def Bytes.fromUtf8Lossy (b : Bytes) : Text := (Bytes.fromUtf8 b).getD (Utf8.repair b.length b)

theorem Text.fromUtf8Lossy_utf8 (t : Text) : Bytes.fromUtf8Lossy t.utf8 = t := by
  rw [Bytes.fromUtf8Lossy, Text.fromUtf8_utf8, Option.getD_some]

namespace Codec

variable {α : Type}

/-- Base64 text of the JSON of a value. -/
def encode (B : Base64) (S : Serde α) (a : α) : Text := B.encode (S.toVec a)

theorem decode_encode (B : Base64) (S : Serde α) (a : α) :
    (B.decode (Text.trim (encode B S a))).bind S.fromSlice = some a := by
  have ht : Text.trim (encode B S a) = encode B S a :=
    Text.trim_eq_self fun c hc => (B.clean _ c hc).2
  rw [ht, encode, B.decode_encode]
  exact S.fromSlice_toVec a

end Codec

/-! ## The standard alphabet -/

namespace Base64

def alphabet : Text := "ABCDEFGHIJKLMNOPQRSTUVWXYZabcdefghijklmnopqrstuvwxyz0123456789+/"

/-- The character of six bits. -/
def digit (n : Nat) : Char := alphabet.getD n 'A'

/-- The six bits of a character. -/
def value (c : Char) : Option Nat := alphabet.idxOf? c

/-- Three bytes become four characters; a shorter last group is padded. -/
def encodeBytes : Bytes → Text
  | [] => []
  | [a] => [digit (a.toNat / 4), digit (a.toNat % 4 * 16), '=', '=']
  | [a, b] =>
    [digit (a.toNat / 4), digit (a.toNat % 4 * 16 + b.toNat / 16), digit (b.toNat % 16 * 4), '=']
  | a :: b :: c :: rest =>
    digit (a.toNat / 4) :: digit (a.toNat % 4 * 16 + b.toNat / 16) ::
      digit (b.toNat % 16 * 4 + c.toNat / 64) :: digit (c.toNat % 64) :: encodeBytes rest

/-- Strict decoding: full padding, and no bits left over. -/
def decodeText : Text → Option Bytes
  | [] => some []
  | w :: x :: y :: z :: rest => do
    let i ← value w
    let j ← value x
    if y = '=' ∧ z = '=' then
      if rest = [] ∧ j % 16 = 0 then some [UInt8.ofNat (i * 4 + j / 16)] else none
    else
      let k ← value y
      if z = '=' then
        if rest = [] ∧ k % 4 = 0 then
          some [UInt8.ofNat (i * 4 + j / 16), UInt8.ofNat (j % 16 * 16 + k / 4)]
        else none
      else
        let l ← value z
        let bytes ← decodeText rest
        return UInt8.ofNat (i * 4 + j / 16) :: UInt8.ofNat (j % 16 * 16 + k / 4) ::
          UInt8.ofNat (k % 4 * 64 + l) :: bytes
  | _ => none

theorem value_digit_fin : ∀ n : Fin 64, value (digit n) = some n.val := by decide +kernel

theorem value_digit {n : Nat} (h : n < 64) : value (digit n) = some n := value_digit_fin ⟨n, h⟩

theorem digit_ok_fin : ∀ n : Fin 64, digit n ≠ '=' ∧ digit n ≠ '<' ∧
    Text.isWhitespace (digit n) = false := by decide +kernel

theorem digit_ne_pad {n : Nat} (h : n < 64) : digit n ≠ '=' := (digit_ok_fin ⟨n, h⟩).1

theorem byte_eq {a : UInt8} {n : Nat} (h : n = a.toNat) : UInt8.ofNat n = a := by
  rw [h]; simp

theorem decode_encodeBytes (bs : Bytes) : decodeText (encodeBytes bs) = some bs := by
  induction bs using encodeBytes.induct with
  | case1 => rfl
  | case2 a =>
    have ha := a.toNat_lt
    simp only [encodeBytes, decodeText, value_digit (show a.toNat / 4 < 64 by omega),
      value_digit (show a.toNat % 4 * 16 < 64 by omega), Option.bind_eq_bind, Option.bind_some]
    rw [if_pos ⟨trivial, trivial⟩, if_pos ⟨trivial, by omega⟩, byte_eq (a := a) (by omega)]
  | case3 a b =>
    have ha := a.toNat_lt
    have hb := b.toNat_lt
    have hd := digit_ne_pad (show b.toNat % 16 * 4 < 64 by omega)
    simp only [encodeBytes, decodeText, value_digit (show a.toNat / 4 < 64 by omega),
      value_digit (show a.toNat % 4 * 16 + b.toNat / 16 < 64 by omega),
      value_digit (show b.toNat % 16 * 4 < 64 by omega), Option.bind_eq_bind, Option.bind_some]
    rw [if_neg (fun h => hd h.1), if_pos trivial, if_pos ⟨trivial, by omega⟩,
      byte_eq (a := a) (by omega), byte_eq (a := b) (by omega)]
  | case4 a b c rest ih =>
    have ha := a.toNat_lt
    have hb := b.toNat_lt
    have hc := c.toNat_lt
    have hy := digit_ne_pad (show b.toNat % 16 * 4 + c.toNat / 64 < 64 by omega)
    have hz := digit_ne_pad (show c.toNat % 64 < 64 by omega)
    simp only [encodeBytes, decodeText, value_digit (show a.toNat / 4 < 64 by omega),
      value_digit (show a.toNat % 4 * 16 + b.toNat / 16 < 64 by omega),
      value_digit (show b.toNat % 16 * 4 + c.toNat / 64 < 64 by omega),
      value_digit (show c.toNat % 64 < 64 by omega), Option.bind_eq_bind, Option.bind_some, ih]
    rw [if_neg (fun h => hy h.1), if_neg hz, byte_eq (a := a) (by omega), byte_eq (a := b) (by omega),
      byte_eq (a := c) (by omega)]
    rfl

theorem encodeBytes_clean (bs : Bytes) :
    ∀ c ∈ encodeBytes bs, c ≠ '<' ∧ Text.isWhitespace c = false := by
  have hd : ∀ n, n < 64 → digit n ≠ '<' ∧ Text.isWhitespace (digit n) = false :=
    fun n h => (digit_ok_fin ⟨n, h⟩).2
  have hp : '=' ≠ '<' ∧ Text.isWhitespace '=' = false := by decide
  induction bs using encodeBytes.induct with
  | case1 => simp [encodeBytes]
  | case2 a =>
    have ha := a.toNat_lt
    simp only [encodeBytes, List.forall_mem_cons]
    exact ⟨hd _ (by omega), hd _ (by omega), hp, hp, by simp⟩
  | case3 a b =>
    have ha := a.toNat_lt
    have hb := b.toNat_lt
    simp only [encodeBytes, List.forall_mem_cons]
    exact ⟨hd _ (by omega), hd _ (by omega), hd _ (by omega), hp, by simp⟩
  | case4 a b c rest ih =>
    have ha := a.toNat_lt
    have hb := b.toNat_lt
    have hc := c.toNat_lt
    simp only [encodeBytes, List.forall_mem_cons]
    exact ⟨hd _ (by omega), hd _ (by omega), hd _ (by omega), hd _ (by omega), ih⟩

/-- The standard alphabet with padding. -/
def standard : Base64 where
  encode := encodeBytes
  decode := decodeText
  decode_encode := decode_encodeBytes
  clean := encodeBytes_clean

end Base64

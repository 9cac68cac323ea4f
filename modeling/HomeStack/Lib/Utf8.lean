import HomeStack.Lib.Codec
import Mathlib.Data.Char
import Mathlib.Data.List.Lex
import Mathlib.Data.List.Sort
import Mathlib.Tactic

/-! UTF-8 keeps the order of texts: code points and bytes sort alike. A NUL byte comes
from a NUL character only. -/

/-- Bytes as they are compared. -/
def Bytes.key (b : Bytes) : List Nat := b.map UInt8.toNat

theorem Bytes.key_injective : Function.Injective Bytes.key :=
  List.map_injective_iff.mpr fun _ _ h => UInt8.toNat_inj.mp h

namespace Text

theorem utf8_append (s t : Text) : (s ++ t).utf8 = s.utf8 ++ t.utf8 := by
  simp [Text.utf8, String.ofList_append]

theorem utf8_singleton (c : Char) : Text.utf8 [c] = String.utf8EncodeChar c := by
  unfold Text.utf8
  rw [String.toByteArray_ofList, List.utf8Encode_singleton]
  simp

theorem utf8_cons (c : Char) (s : Text) : Text.utf8 (c :: s) = String.utf8EncodeChar c ++ s.utf8 := by
  rw [← utf8_singleton, ← utf8_append]
  rfl

theorem codePoint_lt (c : Char) : c.val.toNat < 1114112 := by
  rcases c.valid with h | h <;> change c.val.toNat < _ at * <;> omega

/-- The digits to base 64 tell numbers apart from the front. -/
theorem digits_lt {m n : Nat} (h : m < n) : m / 64 < n / 64 ∨ m / 64 = n / 64 ∧ m % 64 < n % 64 := by
  omega

/-- The encodings of two characters differ first in a byte that is ordered as they are. -/
theorem utf8EncodeChar_lt {c d : Char} (h : c < d) (x y : Bytes) :
    Bytes.key (String.utf8EncodeChar c ++ x) < Bytes.key (String.utf8EncodeChar d ++ y) := by
  have hc := codePoint_lt c
  have hd := codePoint_lt d
  have h : c.val.toNat < d.val.toNat := h
  simp only [String.utf8EncodeChar, Bytes.key]
  generalize c.val.toNat = m at *
  generalize d.val.toNat = n at *
  have hm : m / 4096 = m / 64 / 64 ∧ m / 262144 = m / 64 / 64 / 64 := by omega
  have hn : n / 4096 = n / 64 / 64 ∧ n / 262144 = n / 64 / 64 / 64 := by omega
  rw [hm.1, hm.2, hn.1, hn.2]
  by_cases hlong : m ≤ 0xffff
  · split_ifs <;>
      simp only [List.cons_append, List.nil_append, List.map_cons,
        List.cons_lt_cons_iff, UInt8.toNat_ofNat'] <;>
      omega
  rw [if_neg (by omega), if_neg (by omega), if_neg hlong, if_neg (by omega),
    if_neg (by omega), if_neg (by omega)]
  simp only [List.cons_append, List.nil_append, List.map_cons, List.cons_lt_cons_iff, UInt8.toNat_ofNat']
  -- two characters of four bytes: the first digit that differs
  have hmod : ∀ k, (k % 64 + 128) % 2 ^ 8 = k % 64 + 128 := by omega
  have hfirst : ∀ k, k < 8 → (k % 8 + 240) % 2 ^ 8 = k + 240 := by omega
  rw [hmod, hmod, hmod, hmod, hmod, hmod, hfirst _ (by omega), hfirst _ (by omega)]
  rcases digits_lt h with h₁ | ⟨h₁, h₁'⟩
  · rcases digits_lt h₁ with h₂ | ⟨h₂, h₂'⟩
    · rcases digits_lt h₂ with h₃ | ⟨h₃, h₃'⟩
      · exact Or.inl (by omega)
      · exact Or.inr ⟨by omega, Or.inl (by omega)⟩
    · exact Or.inr ⟨by omega, Or.inr ⟨by omega, Or.inl (by omega)⟩⟩
  · exact Or.inr ⟨by omega, Or.inr ⟨by omega, Or.inr ⟨by omega, Or.inl (by omega)⟩⟩⟩

theorem key_append (a b : Bytes) : Bytes.key (a ++ b) = Bytes.key a ++ Bytes.key b := List.map_append

theorem utf8_lt {s t : Text} (h : s < t) : Bytes.key s.utf8 < Bytes.key t.utf8 := by
  induction s generalizing t with
  | nil =>
    cases t with
    | nil => exact absurd h (List.not_lt_nil _)
    | cons d t =>
      rw [utf8_cons]
      have hne : String.utf8EncodeChar d ++ Text.utf8 t ≠ [] := by simp
      obtain ⟨b, rest, hb⟩ := List.exists_cons_of_ne_nil hne
      rw [hb]
      exact List.nil_lt_cons _ _
  | cons c s ih =>
    cases t with
    | nil => exact absurd h (List.not_lt_nil _)
    | cons d t =>
      rw [utf8_cons, utf8_cons]
      rcases List.cons_lt_cons_iff.mp h with h | ⟨rfl, hrest⟩
      · exact utf8EncodeChar_lt h _ _
      · rw [key_append, key_append]
        exact List.append_left_lt (ih hrest)

/-- Texts sort as their bytes do. -/
theorem utf8_le_iff (s t : Text) : Bytes.key s.utf8 ≤ Bytes.key t.utf8 ↔ s ≤ t := by
  have hmono : StrictMono fun s : Text => Bytes.key s.utf8 := fun _ _ h => utf8_lt h
  exact hmono.le_iff_le

/-! ## ASCII bytes -/

/-- An ASCII byte encodes its own character. -/
theorem utf8EncodeChar_ascii {c : Char} {b : UInt8} (hb : b.toNat < 0x80) (h : b ∈ String.utf8EncodeChar c) :
    c.toNat = b.toNat := by
  have hc := codePoint_lt c
  change c.val.toNat = b.toNat
  simp only [String.utf8EncodeChar] at h
  generalize c.val.toNat = n at *
  split_ifs at h <;>
    simp only [List.mem_cons, List.not_mem_nil, or_false, ← UInt8.toNat_inj, UInt8.toNat_ofNat'] at h <;>
    omega

theorem ascii_mem_utf8 {t : Text} {b : UInt8} (hb : b.toNat < 0x80) (h : b ∈ t.utf8) :
    ∃ c ∈ t, c.toNat = b.toNat := by
  induction t with
  | nil => cases h
  | cons c t ih =>
    rw [utf8_cons, List.mem_append] at h
    rcases h with h | h
    · exact ⟨c, List.mem_cons_self, utf8EncodeChar_ascii hb h⟩
    · obtain ⟨d, hd, hval⟩ := ih h
      exact ⟨d, List.mem_cons_of_mem _ hd, hval⟩

theorem mem_utf8_of_nul {t : Text} {c : Char} (hc : c ∈ t) (hnul : c.toNat = 0) : 0 ∈ t.utf8 := by
  induction t with
  | nil => cases hc
  | cons d t ih =>
    rw [utf8_cons, List.mem_append]
    rcases List.mem_cons.mp hc with rfl | hc
    · have hval : c.val.toNat = 0 := hnul
      refine Or.inl ?_
      simp [String.utf8EncodeChar, hval]
    · exact Or.inr (ih hc)

end Text

/-- Reading bytes as text makes no NUL. -/
theorem Utf8.nul_not_mem_repair (n : Nat) {b : Bytes} (h : 0 ∉ b) : ∀ c ∈ Utf8.repair n b, c.toNat ≠ 0 := by
  induction n generalizing b with
  | zero =>
    intro c hc
    cases hc
  | succ n ih =>
    cases b with
    | nil =>
      intro c hc
      cases hc
    | cons x rest =>
      intro c hc
      simp only [Utf8.repair, List.mem_append] at hc
      rcases hc with hc | hc
      · split at hc
        · cases hread : Bytes.fromUtf8 ((x :: rest).take (Utf8.piece x rest).1) with
          | none =>
            rw [hread] at hc
            cases hc
          | some t =>
            rw [hread, Option.getD_some] at hc
            intro hnul
            have hmem := Text.mem_utf8_of_nul hc hnul
            rw [Bytes.utf8_fromUtf8 hread] at hmem
            exact h (List.mem_of_mem_take hmem)
        · rw [List.mem_singleton.mp hc]
          decide
      · exact ih (fun hmem => h (List.mem_of_mem_drop hmem)) c hc

theorem Bytes.nul_not_mem_lossy {b : Bytes} (h : 0 ∉ b) : 0 ∉ (Bytes.fromUtf8Lossy b).utf8 := by
  unfold Bytes.fromUtf8Lossy
  cases hread : Bytes.fromUtf8 b with
  | some t =>
    rw [Option.getD_some, Bytes.utf8_fromUtf8 hread]
    exact h
  | none =>
    rw [Option.getD_none]
    intro hmem
    obtain ⟨c, hc, hnul⟩ := Text.ascii_mem_utf8 (by decide) hmem
    exact Utf8.nul_not_mem_repair _ h c hc hnul

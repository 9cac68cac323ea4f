import HomeStack.Lib.JsonPointer

/-! IPv4 addresses and how they are written: four decimal octets without leading zeros. -/

/-- One name for the proof, for all octets that are written as literals. -/
instance octet_neZero : NeZero 256 := ⟨by decide⟩

structure Ipv4 where
  first : Fin 256
  second : Fin 256
  third : Fin 256
  fourth : Fin 256
  deriving DecidableEq

namespace Ipv4

/-- The address as a `u32`. -/
def toNat (ip : Ipv4) : Nat := ((ip.first * 256 + ip.second) * 256 + ip.third) * 256 + ip.fourth

def toText (ip : Ipv4) : Text :=
  Text.ofNat ip.first ++ '.' :: (Text.ofNat ip.second ++ '.' ::
    (Text.ofNat ip.third ++ '.' :: Text.ofNat ip.fourth))

def octet (t : Text) : Option (Fin 256) :=
  if t = [] ∨ !Text.allDigits t ∨ (1 < t.length ∧ t.head? = some '0') then none
  else if h : Text.digitsValue t < 256 then some ⟨Text.digitsValue t, h⟩ else none

def parse (t : Text) : Option Ipv4 :=
  match t.splitOn '.' with
  | [a, b, c, d] => do
    let first ← octet a
    let second ← octet b
    let third ← octet c
    let fourth ← octet d
    some ⟨first, second, third, fourth⟩
  | _ => none

theorem octet_ofNat (n : Fin 256) : octet (Text.ofNat n) = some n := by
  revert n
  decide +kernel

theorem not_mem_ofNat {c : Char} (hc : c.isDigit = false) (n : Nat) : c ∉ Text.ofNat n := by
  intro hm
  rw [Nat.isDigit_of_mem_toDigits (by decide) (by decide) hm] at hc
  cases hc

theorem dot_not_mem (n : Fin 256) : '.' ∉ Text.ofNat n := not_mem_ofNat rfl n

theorem slash_not_mem (n : Fin 256) : '/' ∉ Text.ofNat n := not_mem_ofNat rfl n

theorem splitOn_toText (ip : Ipv4) :
    ip.toText.splitOn '.' = [Text.ofNat ip.first, Text.ofNat ip.second, Text.ofNat ip.third,
      Text.ofNat ip.fourth] := by
  have hsplit (n : Fin 256) (t : Text) : (Text.ofNat n ++ '.' :: t).splitOn '.' =
      Text.ofNat n :: t.splitOn '.' :=
    List.splitOn_append_cons_self_of_not_mem (dot_not_mem n) t
  rw [toText, hsplit, hsplit, hsplit, List.splitOn_eq_singleton (dot_not_mem _)]

@[simp] theorem parse_toText (ip : Ipv4) : parse ip.toText = some ip := by
  simp [parse, splitOn_toText, octet_ofNat]

theorem octet_eq_some {t : Text} {n : Fin 256} (h : octet t = some n) : t = Text.ofNat n := by
  unfold octet at h
  split at h
  · cases h
  · rename_i hgood
    split at h
    · rename_i hsmall
      cases h
      push Not at hgood
      obtain ⟨hne, hdigits, hzero⟩ := hgood
      refine (Text.ofNat_digitsValue hne (by simpa using hdigits) fun hhead => ?_).symm
      have hpos := List.length_pos_iff.mpr hne
      by_contra hlength
      exact hzero (by omega) hhead
    · cases h

/-- An address has one spelling. -/
theorem parse_eq_some {t : Text} {ip : Ipv4} (h : parse t = some ip) : t = ip.toText := by
  unfold parse at h
  split at h
  · rename_i a b c d hsplit
    simp only [Option.bind_eq_bind, Option.bind_eq_some_iff, Option.some.injEq] at h
    obtain ⟨first, ha, second, hb, third, hc, fourth, hd, rfl⟩ := h
    have hjoin : List.intercalate ['.'] (t.splitOn '.') = t := List.intercalate_splitOn '.'
    rw [hsplit] at hjoin
    rw [← hjoin, octet_eq_some ha, octet_eq_some hb, octet_eq_some hc, octet_eq_some hd]
    simp [toText, List.intercalate]
  · cases h

/-- A text that starts with the separator is no address. -/
theorem parse_dot (t : Text) : parse ('.' :: t) = none := by
  have hoctet : octet [] = none := by decide
  have hsplit : ('.' :: t : Text).splitOn '.' = [] :: t.splitOn '.' :=
    List.splitOn_append_cons_self_of_not_mem (List.not_mem_nil (a := '.')) t
  rw [parse, hsplit]
  split
  · rename_i a b c d h
    obtain ⟨rfl, -⟩ := List.cons.inj h
    rw [hoctet]
    rfl
  · rfl

theorem slash_not_mem_toText (ip : Ipv4) : '/' ∉ ip.toText := by
  simp [toText, slash_not_mem]

end Ipv4

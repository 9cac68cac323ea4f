import Mathlib

/-! Texts as lists of characters, with the operations of a string library that
the models use (`str::find`, `split_once`, `strip_prefix`, `trim`, `lines`,
`split_whitespace`, decimal numbers) and what searching for a marker does on
concatenations. A literal is a `String` and coerces. -/

abbrev Text := List Char

instance : Coe String Text := ⟨String.toList⟩

namespace Text

/-- One name for the proof, for all definitions that compare texts. -/
instance lawfulBEq : LawfulBEq Text := inferInstance

/-- What holds of all characters of a text is decided along the text, and not over all characters. -/
instance (priority := 2000) decidableForallMem (p : Char → Prop) [DecidablePred p] (s : Text) :
    Decidable (∀ c ∈ s, p c) :=
  List.decidableBAll p s

instance (priority := 2000) decidableForallSome (p : Char → Prop) [DecidablePred p] :
    (o : Option Char) → Decidable (∀ c, o = some c → p c)
  | none => .isTrue nofun
  | some c => decidable_of_iff (p c) ⟨fun h _ hc => Option.some.inj hc ▸ h, fun h => h c rfl⟩

/-- A property of a literal is proved of its characters. -/
theorem of_literal {P : Text → Prop} {s : Text} (h : P s) :
    P (String.ofList s).toList := by rwa [String.toList_ofList]

theorem of_literals {P : Text → Text → Prop} {s t : Text} (h : P s t) :
    P (String.ofList s).toList (String.ofList t).toList :=
  of_literal (P := P _) (of_literal (P := fun s => P s t) h)

theorem of_literals₃ {P : Text → Text → Text → Prop} {s t u : Text} (h : P s t u) :
    P (String.ofList s).toList (String.ofList t).toList (String.ofList u).toList :=
  of_literals (P := P _) (of_literal (P := fun s => P s t u) h)

theorem of_literals₅ {P : Text → Text → Text → Text → Text → Prop} {s t u v w : Text} (h : P s t u v w) :
    P (String.ofList s).toList (String.ofList t).toList (String.ofList u).toList (String.ofList v).toList
      (String.ofList w).toList :=
  of_literals₃ (P := P _ _) (of_literals (P := fun s t => P s t u v w) h)

/-! ## Searching -/

/-- The text before and after the first occurrence of `p` (`str::split_once`;
the length of the first part is `str::find`). -/
def splitOnce (p : Text) : Text → Option (Text × Text)
  | [] => if p = [] then some ([], []) else none
  | c :: s =>
    match p.isPrefixOf? (c :: s) with
    | some rest => some ([], rest)
    | none => (splitOnce p s).map fun (a, b) => (c :: a, b)

attribute [local simp] splitOnce

def contains (p s : Text) : Bool := (splitOnce p s).isSome

def startsWith (p s : Text) : Bool := p.isPrefixOf s

theorem isPrefixOf?_append (p b : Text) : p.isPrefixOf? (p ++ b) = some b := by
  induction p with
  | nil => cases b <;> rfl
  | cons c p ih => simp [List.isPrefixOf?, ih]

theorem isPrefixOf?_some {p s b : Text} (h : p.isPrefixOf? s = some b) : s = p ++ b := by
  induction p generalizing s with
  | nil => cases s <;> simp_all [List.isPrefixOf?]
  | cons c p ih =>
    cases s with
    | nil => simp [List.isPrefixOf?] at h
    | cons d s =>
      simp only [List.isPrefixOf?, beq_iff_eq] at h
      split at h
      · next e => rw [ih h, e]; rfl
      · cases h

theorem isPrefixOf?_none_of_head {c d : Char} (p s : Text) (h : c ≠ d) :
    (c :: p : Text).isPrefixOf? (d :: s) = none := by
  simp [List.isPrefixOf?, h]

theorem splitOnce_some {p s a b : Text} (h : splitOnce p s = some (a, b)) :
    s = a ++ p ++ b := by
  induction s generalizing a with
  | nil =>
    simp only [splitOnce] at h
    split at h
    · next e => cases h; simp [e]
    · cases h
  | cons c s ih =>
    simp only [splitOnce] at h
    split at h
    · next e => cases h; simpa using isPrefixOf?_some e
    · simp only [Option.map_eq_some_iff, Prod.mk.injEq, Prod.exists] at h
      obtain ⟨a', b', h', rfl, rfl⟩ := h
      simp [ih h']

/-- The marker does not occur before its first occurrence. -/
theorem splitOnce_before {p s a b : Text} (hp : p ≠ []) (h : splitOnce p s = some (a, b)) :
    splitOnce p a = none := by
  induction s generalizing a with
  | nil => simp [splitOnce, hp] at h
  | cons c s ih =>
    simp only [splitOnce] at h
    split at h
    · cases h
      simp [splitOnce, hp]
    · next hnone =>
      simp only [Option.map_eq_some_iff, Prod.mk.injEq, Prod.exists] at h
      obtain ⟨a', b', hs, rfl, rfl⟩ := h
      have hstarts : p.isPrefixOf? (c :: a') = none := by
        rcases hq : p.isPrefixOf? (c :: a') with _ | rest
        · rfl
        · rw [splitOnce_some hs, ← List.cons_append, ← List.cons_append,
            isPrefixOf?_some hq, List.append_assoc,
            List.append_assoc, isPrefixOf?_append] at hnone
          cases hnone
      simp [splitOnce, hstarts, ih hs]

/-- A text without the first character of the marker does not contain it. -/
theorem splitOnce_none_of_not_mem {c : Char} (p s : Text) (h : c ∉ s) :
    splitOnce (c :: p) s = none := by
  induction s with
  | nil => rfl
  | cons d s ih =>
    rw [List.mem_cons, not_or] at h
    simp [splitOnce, isPrefixOf?_none_of_head p s h.1, ih h.2]

theorem contains_false_of_not_mem {c : Char} (p s : Text) (h : c ∉ s) :
    contains (c :: p) s = false := by
  simp [contains, splitOnce_none_of_not_mem p s h]

/-- Only the head of a text whose tail lacks the marker's first character can
start the marker. -/
theorem contains_cons_false {c : Char} (p s : Text) (h : c ∉ s)
    (hp : (c :: p : Text).isPrefixOf? (c :: s) = none) :
    contains (c :: p) (c :: s) = false := by
  simp [contains, splitOnce, hp, splitOnce_none_of_not_mem p s h]

theorem contains_eq_false_iff {p s : Text} :
    contains p s = false ↔ splitOnce p s = none := by
  simp [contains]

/-- A marker cannot reach past the end of `a` when what follows starts with a
character outside the marker. -/
theorem isPrefixOf?_append_none_of_sep {p a b : Text} {x : Char}
    (ha : p.isPrefixOf? a = none) (hx : x ∉ p) : p.isPrefixOf? (a ++ x :: b) = none := by
  induction p generalizing a with
  | nil => cases a <;> simp [List.isPrefixOf?] at ha
  | cons c p ih =>
    rw [List.mem_cons, not_or] at hx
    cases a with
    | nil => simpa using isPrefixOf?_none_of_head p b (Ne.symm hx.1)
    | cons d a =>
      simp only [List.isPrefixOf?, List.cons_append] at ha ⊢
      split
      · next e => rw [if_pos e] at ha; exact ih ha hx.2
      · rfl

/-- **Separator rule.** Searching past a part without the marker and a
separator the marker does not contain goes on in the rest. -/
theorem splitOnce_append_sep {p a b : Text} {x : Char} (hp : p ≠ [])
    (ha : splitOnce p a = none) (hx : x ∉ p) :
    splitOnce p (a ++ x :: b) = (splitOnce p b).map fun (u, v) => (a ++ x :: u, v) := by
  induction a with
  | nil =>
    have e : p.isPrefixOf? (x :: b) = none := by
      cases p with
      | nil => exact absurd rfl hp
      | cons c p => exact isPrefixOf?_none_of_head p b (fun h => hx (by simp [h]))
    simp [splitOnce, e]
  | cons c a ih =>
    simp only [splitOnce] at ha
    split at ha
    · cases ha
    · next e =>
      have e' : p.isPrefixOf? (c :: (a ++ x :: b)) = none := isPrefixOf?_append_none_of_sep e hx
      simp only [Option.map_eq_none_iff] at ha
      simp [splitOnce, e', ih ha, Function.comp_def]

/-- **First occurrence.** A marker whose first character occurs in it only
once is found right after a part that does not contain it. -/
theorem splitOnce_append {c : Char} {p a b : Text} (hp : c ∉ p)
    (ha : splitOnce (c :: p) a = none) :
    splitOnce (c :: p) (a ++ c :: (p ++ b)) = some (a, b) := by
  induction a with
  | nil =>
    have e : (c :: p : Text).isPrefixOf? (c :: (p ++ b)) = some b := isPrefixOf?_append (c :: p) b
    simp [splitOnce, e]
  | cons d a ih =>
    simp only [splitOnce] at ha
    split at ha
    · cases ha
    · next e =>
      have e' : (c :: p : Text).isPrefixOf? (d :: (a ++ c :: (p ++ b))) = none := by
        by_cases hd : c = d
        · -- an occurrence starting inside `a` would put `c` into its own tail
          subst hd
          have hq : (p : Text).isPrefixOf? a = none := by
            simpa [List.isPrefixOf?] using e
          have := isPrefixOf?_append_none_of_sep (b := p ++ b) hq hp
          simpa [List.isPrefixOf?] using this
        · exact isPrefixOf?_none_of_head _ _ hd
      simp only [Option.map_eq_none_iff] at ha
      simp [splitOnce, e', ih ha]

theorem contains_self_append (p b : Text) : contains p (p ++ b) = true := by
  cases h : p ++ b with
  | nil =>
    obtain ⟨rfl, rfl⟩ := List.append_eq_nil_iff.mp h
    rfl
  | cons c s =>
    have e : p.isPrefixOf? (c :: s) = some b := h ▸ isPrefixOf?_append p b
    simp [contains, splitOnce, e]

theorem contains_append_of_contains {p : Text} (a b : Text) (h : contains p b = true) :
    contains p (a ++ b) = true := by
  induction a with
  | nil => exact h
  | cons c a ih =>
    simp only [contains, List.cons_append, splitOnce] at ih ⊢
    split
    · rfl
    · simpa using ih

/-- What stands before the first separator. -/
theorem append_sep_inj {α : Type} {c : α} {p p' x x' : List α} (hp : c ∉ p) (hp' : c ∉ p')
    (h : p ++ c :: x = p' ++ c :: x') : p = p' ∧ x = x' := by
  rcases List.append_eq_append_iff.mp h with ⟨y, rfl, hy⟩ | ⟨y, rfl, hy⟩
  · cases y with
    | nil => simpa using hy
    | cons b y => exact absurd ((List.cons.inj hy).1 ▸ by simp) hp'
  · cases y with
    | nil => simpa [eq_comm] using hy
    | cons b y => exact absurd ((List.cons.inj hy).1 ▸ by simp) hp

/-! ## Pieces of a text -/

/-- `char::is_whitespace`: the Unicode property White_Space. -/
def isWhitespace (c : Char) : Bool :=
  let n := c.toNat
  (9 ≤ n && n ≤ 13) || n = 32 || n = 0x85 || n = 0xA0 || n = 0x1680 ||
    (0x2000 ≤ n && n ≤ 0x200A) || n = 0x2028 || n = 0x2029 || n = 0x202F || n = 0x205F || n = 0x3000

def trimStart (s : Text) : Text := s.dropWhile isWhitespace

def trim (s : Text) : Text := (trimStart s).rdropWhile isWhitespace

/-- A text that has no whitespace at either end is its own `trim`. -/
theorem trim_eq_self {s : Text} (h : ∀ c ∈ s, isWhitespace c = false) : trim s = s := by
  have hd : trimStart s = s := by
    unfold trimStart
    cases s with
    | nil => rfl
    | cons c s => simp [List.dropWhile, h c (by simp)]
  rw [trim, hd, List.rdropWhile_eq_self_iff]
  intro hl
  simp [h _ (List.getLast_mem hl)]

/-- `strip_suffix('\n')`, or the text itself. -/
def stripLastLf (s : Text) : Text := if s.getLast? = some '\n' then s.dropLast else s

/-- `strip_prefix('\n')`, or the text itself. -/
def stripFirstLf : Text → Text
  | '\n' :: s => s
  | s => s

@[simp] theorem stripLastLf_append_lf (s : Text) : stripLastLf (s ++ ['\n']) = s := by
  simp [stripLastLf]

/-- `n.to_string()` -/
def ofNat (n : Nat) : Text := Nat.toDigits 10 n

theorem ofNat_inj {m n : Nat} (h : ofNat m = ofNat n) : m = n := by
  have hm := @Nat.ofDigitChars_ten_toDigits m
  rw [show Nat.toDigits 10 m = Nat.toDigits 10 n from h, Nat.ofDigitChars_ten_toDigits] at hm
  exact hm.symm

/-- `bytes().all(|b| b.is_ascii_digit())` -/
def allDigits (s : Text) : Bool := s.all Char.isDigit

/-- The value of a text of decimal digits. -/
def digitsValue (s : Text) : Nat := Nat.ofDigitChars 10 s 0

/-- `parse` of an unsigned integer below `bound`. -/
def parseNat (bound : Nat) (s : Text) : Option Nat :=
  let digits := match s with
    | '+' :: rest => rest
    | _ => s
  if digits ≠ [] ∧ allDigits digits ∧ digitsValue digits < bound then some (digitsValue digits)
  else none

/-- `parse` of a signed 64-bit integer. -/
def parseInt (s : Text) : Option Int :=
  match s with
  | '-' :: digits =>
    if digits ≠ [] ∧ allDigits digits ∧ digitsValue digits ≤ 2 ^ 63 then
      some (-(digitsValue digits : Int))
    else none
  | _ => (parseNat (2 ^ 63) s).map Int.ofNat

end Text

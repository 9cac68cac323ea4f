import HomeStack.Lib.Text

/-! JSON texts and a recursive-descent reader of them, over any strings `S` (with a reader of a
quoted string) and any floats `F`. The reader takes a bound on the nesting and a test that
refuses a key after those before it. It returns a value exactly for the texts that spell the
value. -/

namespace JsonText

inductive Value (F S : Type)
  | null
  | bool (b : Bool)
  /-- An integer, as written. -/
  | int (text : Text)
  | float (f : F)
  | str (s : S)
  | arr (items : List (Value F S))
  | obj (entries : List (S × Value F S))

variable {F S : Type}

/-! ## The grammar -/

def isWs (c : Char) : Bool := c = ' ' || c = '\t' || c = '\n' || c = '\r'

def Ws (t : Text) : Prop := ∀ c ∈ t, isWs c = true

def Digits (t : Text) : Prop := t ≠ [] ∧ ∀ c ∈ t, c.isDigit = true

def leadingZero (ds : Text) : Bool := ds.head? = some '0' && 1 < ds.length

/-- An optional sign. -/
def Sign (signs t : Text) : Prop := t = [] ∨ ∃ c ∈ signs, t = [c]

def IntPart (t : Text) : Prop :=
  ∃ sign ds, t = sign ++ ds ∧ Sign ['-'] sign ∧ Digits ds ∧ leadingZero ds = false

def FracPart (t : Text) : Prop := t = [] ∨ ∃ ds, t = '.' :: ds ∧ Digits ds

def ExpPart (t : Text) : Prop :=
  t = [] ∨ ∃ e sign ds, t = e :: (sign ++ ds) ∧ (e = 'e' ∨ e = 'E') ∧ Sign ['+', '-'] sign ∧ Digits ds

/-- A number that is no integer. -/
def IsFloat (t : Text) : Prop :=
  ∃ i f x, t = i ++ (f ++ x) ∧ IntPart i ∧ FracPart f ∧ ExpPart x ∧ (f ≠ [] ∨ x ≠ [])

section

variable (readFloat : Text → Option F) (lit : Text → S → Prop)

mutual

/-- The text is the value; `lit b s` says that `b` between quotes is the string `s`. -/
def Spells : Value F S → Text → Prop
  | .null, t => t = "null"
  | .bool b, t => t = if b then "true".toList else "false".toList
  | .int n, t => t = n ∧ IntPart n
  | .float f, t => IsFloat t ∧ readFloat t = some f
  | .str s, t => ∃ b, t = '"' :: (b ++ ['"']) ∧ lit b s
  | .arr items, t => ∃ s, t = '[' :: (s ++ [']']) ∧ SpellsItems items s
  | .obj entries, t => ∃ s, t = '\x7b' :: (s ++ ['\x7d']) ∧ SpellsEntries entries s

/-- What stands between the brackets of an array. -/
def SpellsItems : List (Value F S) → Text → Prop
  | [], t => Ws t
  | [v], t => ∃ w s w', t = w ++ (s ++ w') ∧ Ws w ∧ Spells v s ∧ Ws w'
  | v :: v' :: vs, t =>
    ∃ w s w' r, t = w ++ (s ++ (w' ++ ',' :: r)) ∧ Ws w ∧ Spells v s ∧ Ws w' ∧ SpellsItems (v' :: vs) r

/-- What stands between the braces of an object. -/
def SpellsEntries : List (S × Value F S) → Text → Prop
  | [], t => Ws t
  | [(k, v)], t => ∃ w b w₁ w₂ s w', t = w ++ ('"' :: (b ++ '"' :: (w₁ ++ ':' :: (w₂ ++ (s ++ w'))))) ∧
      Ws w ∧ lit b k ∧ Ws w₁ ∧ Ws w₂ ∧ Spells v s ∧ Ws w'
  | (k, v) :: e :: es, t => ∃ w b w₁ w₂ s w' r,
      t = w ++ ('"' :: (b ++ '"' :: (w₁ ++ ':' :: (w₂ ++ (s ++ (w' ++ ',' :: r)))))) ∧
      Ws w ∧ lit b k ∧ Ws w₁ ∧ Ws w₂ ∧ Spells v s ∧ Ws w' ∧ SpellsEntries (e :: es) r

end

/-- A text with one value. -/
def Document (v : Value F S) (t : Text) : Prop :=
  ∃ w s w', t = w ++ (s ++ w') ∧ Ws w ∧ Spells readFloat lit v s ∧ Ws w'

end

mutual

/-- The most containers around a value in it. -/
def height : Value F S → Nat
  | .arr items => heightItems items
  | .obj entries => heightEntries entries
  | _ => 0

def heightItems : List (Value F S) → Nat
  | [] => 0
  | v :: vs => max (height v + 1) (heightItems vs)

def heightEntries : List (S × Value F S) → Nat
  | [] => 0
  | (_, v) :: es => max (height v + 1) (heightEntries es)

end

section

variable (clash : List S → S → Bool)

mutual

/-- No object has a key that clashes with those before it. -/
def NoClash : Value F S → Prop
  | .arr items => NoClashItems items
  | .obj entries => NoClashEntries [] entries
  | _ => True

def NoClashItems : List (Value F S) → Prop
  | [] => True
  | v :: vs => NoClash v ∧ NoClashItems vs

def NoClashEntries (known : List S) : List (S × Value F S) → Prop
  | [] => True
  | (k, v) :: es => clash known k = false ∧ NoClash v ∧ NoClashEntries (known ++ [k]) es

end

end

/-! ## The reader -/

def space (s : Text) : Text := s.dropWhile isWs

def takeDigits (s : Text) : Option (Text × Text) :=
  let ds := s.takeWhile Char.isDigit
  if ds = [] then none else some (ds, s.dropWhile Char.isDigit)

/-- An optional sign of those in `signs`. -/
def takeSign (signs : Text) : Text → Text × Text
  | [] => ([], [])
  | c :: s => if c ∈ signs then ([c], s) else ([], c :: s)

def intPart (s : Text) : Option (Text × Text) :=
  match takeDigits (takeSign ['-'] s).2 with
  | none => none
  | some (ds, rest) => if leadingZero ds then none else some ((takeSign ['-'] s).1 ++ ds, rest)

def fracPart (s : Text) : Option (Text × Text) :=
  if s.head? = some '.' then (takeDigits (s.drop 1)).map fun (ds, rest) => ('.' :: ds, rest) else some ([], s)

def expPart : Text → Option (Text × Text)
  | [] => some ([], [])
  | c :: s =>
    if c = 'e' ∨ c = 'E' then
      (takeDigits (takeSign ['+', '-'] s).2).map fun (ds, rest) =>
        (c :: ((takeSign ['+', '-'] s).1 ++ ds), rest)
    else some ([], c :: s)

/-- A fixed word. -/
def literal (word : Text) (v : Value F S) (s : Text) : Option (Value F S × Text) :=
  (word.isPrefixOf? s).map fun rest => (v, rest)

section

variable (readFloat : Text → Option F) (str : Text → Option (S × Text)) (clash : List S → S → Bool)

def number (s : Text) : Option (Value F S × Text) :=
  (intPart s).bind fun (i, s) => (fracPart s).bind fun (f, s) => (expPart s).bind fun (x, s) =>
    if f = [] ∧ x = [] then some (.int i, s) else (readFloat (i ++ (f ++ x))).map fun v => (.float v, s)

/-- The items of an array, after its bracket; `fuel` bounds their number. -/
def items (value : Text → Option (Value F S × Text)) : Nat → Text → Option (List (Value F S) × Text)
  | 0, _ => none
  | fuel + 1, s =>
    match value s with
    | none => none
    | some (v, s) =>
      match space s with
      | ',' :: s => (items value fuel s).map fun (vs, rest) => (v :: vs, rest)
      | ']' :: s => some ([v], s)
      | _ => none

/-- The entries of an object, after its brace and the keys in `known`. -/
def entries (value : Text → Option (Value F S × Text)) :
    Nat → List S → Text → Option (List (S × Value F S) × Text)
  | 0, _, _ => none
  | fuel + 1, known, s =>
    match str (space s) with
    | none => none
    | some (k, s) =>
      if clash known k then none
      else
        match space s with
        | ':' :: s =>
          match value s with
          | none => none
          | some (v, s) =>
            match space s with
            | ',' :: s => (entries value fuel (known ++ [k]) s).map fun (es, rest) => ((k, v) :: es, rest)
            | '\x7d' :: s => some ([(k, v)], s)
            | _ => none
        | _ => none

/-- A value below at most `n - 1` more containers. -/
def value : Nat → Text → Option (Value F S × Text)
  | 0, _ => none
  | n + 1, s =>
    match space s with
    | [] => none
    | c :: s =>
      if c = '\x7b' then
        if (space s).head? = some '\x7d' then some (.obj [], (space s).drop 1)
        else (entries str clash (value n) s.length [] (space s)).map fun (es, rest) => (.obj es, rest)
      else if c = '[' then
        if (space s).head? = some ']' then some (.arr [], (space s).drop 1)
        else (items (value n) s.length (space s)).map fun (vs, rest) => (.arr vs, rest)
      else if c = '"' then (str (c :: s)).map fun (x, rest) => (.str x, rest)
      else if c = 't' then literal "true" (.bool true) (c :: s)
      else if c = 'f' then literal "false" (.bool false) (c :: s)
      else if c = 'n' then literal "null" .null (c :: s)
      else number readFloat (c :: s)

/-- A whole text. -/
def parse (n : Nat) (s : Text) : Option (Value F S) :=
  match value readFloat str clash n (space s) with
  | some (v, rest) => if space rest = [] then some v else none
  | none => none

end

-- the equations of the reader and of the spelling, which the proofs below unfold
section

attribute [local simp] Spells SpellsItems SpellsEntries height heightItems heightEntries NoClash NoClashItems
  NoClashEntries takeDigits
  takeSign intPart fracPart expPart number items entries value parse

end

/-! ## Whitespace -/

theorem space_append {w : Text} (hw : Ws w) (s : Text) : space (w ++ s) = space s := by
  induction w with
  | nil => rfl
  | cons c w ih =>
    rw [List.cons_append, space, List.dropWhile_cons_of_pos (hw c (by simp))]
    exact ih fun d hd => hw d (List.mem_cons_of_mem _ hd)

theorem space_cons {c : Char} (hc : isWs c = false) (s : Text) : space (c :: s) = c :: s :=
  List.dropWhile_cons_of_neg (by simp [hc])

theorem space_ws {w : Text} (hw : Ws w) : space w = [] := List.dropWhile_eq_nil_iff.mpr hw

/-- What is skipped is whitespace. -/
theorem space_split (s : Text) : ∃ w, s = w ++ space s ∧ Ws w :=
  ⟨s.takeWhile isWs, (List.takeWhile_append_dropWhile).symm, fun _ hc => List.mem_takeWhile_imp hc⟩

/-! ## Numbers -/

/-- A character that could go on in a number. -/
def numberChar (c : Char) : Bool := c.isDigit || c = '.' || c = 'e' || c = 'E'

/-- What follows a value cannot go on in it. -/
def Stop (r : Text) : Prop := ∀ c, r.head? = some c → numberChar c = false

theorem stop_nil : Stop [] := by
  intro c hc
  cases hc

theorem stop_cons {c : Char} (h : numberChar c = false) (r : Text) : Stop (c :: r) := by
  intro d hd
  cases hd
  exact h

theorem Stop.ws {w r : Text} (hw : Ws w) (hr : Stop r) : Stop (w ++ r) := by
  cases w with
  | nil => exact hr
  | cons c w =>
    refine stop_cons ?_ _
    have hc := hw c (by simp)
    simp only [isWs, Bool.or_eq_true, decide_eq_true_eq] at hc
    rcases hc with ((rfl | rfl) | rfl) | rfl <;> decide

def NoDigit (r : Text) : Prop := ∀ c, r.head? = some c → c.isDigit = false

theorem Stop.noDigit {r : Text} (h : Stop r) : NoDigit r := by
  intro c hc
  have hnot := h c hc
  simp only [numberChar, Bool.or_eq_false_iff] at hnot
  exact hnot.1.1.1

theorem takeDigits_append {ds r : Text} (hds : Digits ds) (hr : NoDigit r) :
    takeDigits (ds ++ r) = some (ds, r) := by
  have htake : (ds ++ r).takeWhile Char.isDigit = ds := by
    rw [List.takeWhile_append_of_pos hds.2]
    cases r with
    | nil => simp
    | cons c r => simp [hr c rfl]
  have hdrop : (ds ++ r).dropWhile Char.isDigit = r := by
    rw [List.dropWhile_append_of_pos hds.2]
    cases r with
    | nil => rfl
    | cons c r => simp [hr c rfl]
  simp only [takeDigits, htake, hdrop, if_neg hds.1]

theorem takeDigits_some {s ds r : Text} (h : takeDigits s = some (ds, r)) : s = ds ++ r ∧ Digits ds := by
  unfold takeDigits at h
  simp only at h
  split at h
  · cases h
  · rename_i hne
    obtain ⟨rfl, rfl⟩ := Prod.mk.inj (Option.some.inj h)
    exact ⟨List.takeWhile_append_dropWhile.symm, hne, fun _ hc => List.mem_takeWhile_imp hc⟩

theorem Digits.head {ds : Text} (h : Digits ds) : ∃ c rest, ds = c :: rest ∧ c.isDigit = true := by
  cases ds with
  | nil => exact absurd rfl h.1
  | cons c rest => exact ⟨c, rest, rfl, h.2 c (by simp)⟩

theorem takeSign_append {signs sign ds : Text} (hsigns : ∀ c ∈ signs, c.isDigit = false)
    (hsign : Sign signs sign) (hds : Digits ds) (r : Text) :
    takeSign signs (sign ++ (ds ++ r)) = (sign, ds ++ r) := by
  obtain ⟨d, rest, rfl, hdigit⟩ := hds.head
  rcases hsign with rfl | ⟨c, hc, rfl⟩
  · have hd : d ∉ signs := by
      intro hmem
      rw [hsigns d hmem] at hdigit
      cases hdigit
    simp [takeSign, hd]
  · simp [takeSign, hc]

theorem takeSign_split (signs s : Text) :
    s = (takeSign signs s).1 ++ (takeSign signs s).2 ∧ Sign signs (takeSign signs s).1 := by
  cases s with
  | nil => exact ⟨rfl, .inl rfl⟩
  | cons c s =>
    rw [takeSign]
    split
    · rename_i hc
      exact ⟨rfl, .inr ⟨c, hc, rfl⟩⟩
    · exact ⟨rfl, .inl rfl⟩

theorem intPart_append {i r : Text} (hi : IntPart i) (hr : NoDigit r) : intPart (i ++ r) = some (i, r) := by
  obtain ⟨sign, ds, rfl, hsign, hds, hzero⟩ := hi
  unfold intPart
  rw [List.append_assoc, takeSign_append (by decide) hsign hds, takeDigits_append hds hr]
  simp [hzero]

theorem intPart_some {s i r : Text} (h : intPart s = some (i, r)) : s = i ++ r ∧ IntPart i := by
  obtain ⟨hs, hsign⟩ := takeSign_split ['-'] s
  unfold intPart at h
  split at h
  · cases h
  · rename_i ds rest htake
    obtain ⟨hdigits, hds⟩ := takeDigits_some htake
    split at h
    · cases h
    · rename_i hzero
      obtain ⟨rfl, rfl⟩ := Prod.mk.inj (Option.some.inj h)
      refine ⟨?_, _, ds, rfl, hsign, hds, by simpa using hzero⟩
      rw [List.append_assoc, ← hdigits]
      exact hs

/-! The decimal text of an integer. -/

theorem toDigits_head {n : Nat} (h : 0 < n) : (Nat.toDigits 10 n).head? ≠ some '0' := by
  induction n using Nat.strongRecOn with
  | ind n ih =>
    by_cases hn : n < 10
    · rw [Nat.toDigits_of_lt_base hn]
      simp
      omega
    · rw [Nat.toDigits_of_base_le (by decide) (by omega), List.head?_append_of_ne_nil _ Nat.toDigits_ne_nil]
      exact ih (n / 10) (by omega) (by omega)

theorem intPart_decimal (n : Int) :
    IntPart (if n < 0 then '-' :: Text.ofNat n.natAbs else Text.ofNat n.natAbs) := by
  have hdigits : ∀ m : Nat, Digits (Text.ofNat m) :=
    fun m => ⟨Nat.toDigits_ne_nil, fun c hc => Nat.isDigit_of_mem_toDigits (by decide) (by decide) hc⟩
  have hzero : ∀ m : Nat, leadingZero (Text.ofNat m) = false := by
    intro m
    rcases Nat.eq_zero_or_pos m with rfl | hm
    · rfl
    · simp [leadingZero, Text.ofNat, toDigits_head hm]
  split
  · exact ⟨['-'], Text.ofNat n.natAbs, rfl, .inr ⟨'-', by simp, rfl⟩, hdigits _, hzero _⟩
  · exact ⟨[], Text.ofNat n.natAbs, rfl, .inl rfl, hdigits _, hzero _⟩

theorem fracPart_append {f r : Text} (hf : FracPart f) (hr : NoDigit r) (hdot : r.head? ≠ some '.') :
    fracPart (f ++ r) = some (f, r) := by
  rcases hf with rfl | ⟨ds, rfl, hds⟩
  · simp [fracPart, hdot]
  · simp [fracPart, takeDigits_append hds hr]

theorem fracPart_some {s f r : Text} (h : fracPart s = some (f, r)) : s = f ++ r ∧ FracPart f := by
  unfold fracPart at h
  split at h
  · rename_i hhead
    obtain ⟨⟨ds, rest⟩, htake, hds⟩ := Option.map_eq_some_iff.mp h
    obtain ⟨rfl, rfl⟩ := Prod.mk.inj hds
    obtain ⟨hs, hdigits⟩ := takeDigits_some htake
    refine ⟨?_, .inr ⟨ds, rfl, hdigits⟩⟩
    cases s with
    | nil => cases hhead
    | cons c s =>
      obtain rfl : c = '.' := by simpa using hhead
      simpa using hs
  · obtain ⟨rfl, rfl⟩ := Prod.mk.inj (Option.some.inj h)
    exact ⟨rfl, .inl rfl⟩

theorem expPart_append {x r : Text} (hx : ExpPart x) (hr : Stop r) : expPart (x ++ r) = some (x, r) := by
  rcases hx with rfl | ⟨e, sign, ds, rfl, he, hsign, hds⟩
  · cases r with
    | nil => rfl
    | cons c r =>
      have hc := hr c rfl
      simp only [numberChar, Bool.or_eq_false_iff, decide_eq_false_iff_not] at hc
      simp [expPart, hc]
  · rw [List.cons_append, expPart, if_pos he, List.append_assoc, takeSign_append (by decide) hsign hds,
      takeDigits_append hds hr.noDigit]
    rfl

theorem expPart_some {s x r : Text} (h : expPart s = some (x, r)) : s = x ++ r ∧ ExpPart x := by
  cases s with
  | nil =>
    obtain ⟨rfl, rfl⟩ := Prod.mk.inj (Option.some.inj h)
    exact ⟨rfl, .inl rfl⟩
  | cons c s =>
    rw [expPart] at h
    split at h
    · rename_i he
      obtain ⟨hs, hsign⟩ := takeSign_split ['+', '-'] s
      obtain ⟨⟨ds, rest⟩, htake, hds⟩ := Option.map_eq_some_iff.mp h
      obtain ⟨rfl, rfl⟩ := Prod.mk.inj hds
      obtain ⟨hrest, hdigits⟩ := takeDigits_some htake
      refine ⟨?_, .inr ⟨c, _, ds, rfl, he, hsign, hdigits⟩⟩
      rw [List.cons_append, List.append_assoc, ← hrest, ← hs]
    · obtain ⟨rfl, rfl⟩ := Prod.mk.inj (Option.some.inj h)
      exact ⟨rfl, .inl rfl⟩

theorem Stop.not_dot {r : Text} (h : Stop r) : r.head? ≠ some '.' := by
  intro hdot
  exact absurd (h '.' hdot) (by decide)

theorem expPart_head {x r : Text} (hx : ExpPart x) (hr : Stop r) :
    NoDigit (x ++ r) ∧ (x ++ r).head? ≠ some '.' := by
  rcases hx with rfl | ⟨e, sign, ds, rfl, he, -⟩
  · exact ⟨hr.noDigit, hr.not_dot⟩
  · refine ⟨?_, ?_⟩
    · intro c hc
      cases hc
      rcases he with rfl | rfl <;> decide
    · rcases he with rfl | rfl <;> simp

theorem fracPart_head {f r : Text} (hf : FracPart f) (hr : NoDigit r) : NoDigit (f ++ r) := by
  rcases hf with rfl | ⟨ds, rfl, -⟩
  · exact hr
  · intro c hc
    cases hc
    decide

section

variable {readFloat : Text → Option F} {lit : Text → S → Prop} {str : Text → Option (S × Text)}
  {clash : List S → S → Bool}

theorem number_int {n r : Text} (hn : IntPart n) (hr : Stop r) :
    number (S := S) readFloat (n ++ r) = some (.int n, r) := by
  have hfrac : fracPart r = some ([], r) := fracPart_append (.inl rfl) hr.noDigit hr.not_dot
  have hexp : expPart r = some ([], r) := expPart_append (.inl rfl) hr
  simp [number, intPart_append hn hr.noDigit, hfrac, hexp]

theorem number_float {t r : Text} {f : F} (ht : IsFloat t) (hf : readFloat t = some f) (hr : Stop r) :
    number (S := S) readFloat (t ++ r) = some (.float f, r) := by
  obtain ⟨i, fr, x, rfl, hi, hfr, hx, hne⟩ := ht
  obtain ⟨hdigit, hdot⟩ := expPart_head hx hr
  have hboth : ¬ (fr = [] ∧ x = []) := by
    rintro ⟨rfl, rfl⟩
    simp at hne
  unfold number
  rw [List.append_assoc, List.append_assoc, intPart_append hi (fracPart_head hfr hdigit)]
  simp only [Option.bind_some]
  rw [fracPart_append hfr hdigit hdot]
  simp only [Option.bind_some]
  rw [expPart_append hx hr]
  simp only [Option.bind_some]
  rw [if_neg hboth, hf]
  rfl

/-- A number that is read is spelled. -/
theorem number_some {s r : Text} {v : Value F S} (hread : number readFloat s = some (v, r)) :
    ∃ t, s = t ++ r ∧ Spells readFloat lit v t ∧ height v = 0 ∧ NoClash clash v := by
  unfold number at hread
  obtain ⟨⟨i, s₁⟩, hreadInt, hrest⟩ := Option.bind_eq_some_iff.mp hread
  obtain ⟨⟨f, s₂⟩, hreadFrac, hrest⟩ := Option.bind_eq_some_iff.mp hrest
  obtain ⟨⟨x, s₃⟩, hreadExp, h⟩ := Option.bind_eq_some_iff.mp hrest
  obtain ⟨rfl, hi⟩ := intPart_some hreadInt
  obtain ⟨rfl, hf⟩ := fracPart_some hreadFrac
  obtain ⟨rfl, hx⟩ := expPart_some hreadExp
  simp only at h
  split at h
  · rename_i hnil
    obtain ⟨rfl, rfl⟩ := hnil
    obtain ⟨rfl, rfl⟩ := Prod.mk.inj (Option.some.inj h)
    exact ⟨i, by simp, by simp [Spells, hi], by simp [height], by simp [NoClash]⟩
  · rename_i hne
    obtain ⟨g, hg, hv⟩ := Option.map_eq_some_iff.mp h
    obtain ⟨rfl, rfl⟩ := Prod.mk.inj hv
    rw [not_and_or] at hne
    exact ⟨i ++ (f ++ x), by simp, by simpa [Spells, hg] using ⟨i, f, x, rfl, hi, hf, hx, hne⟩,
      by simp [height], by simp [NoClash]⟩

/-! ## What is spelled is read -/

/-- The characters that start something else than a number. -/
def startChars : Text := ['\x7b', '[', '"', 't', 'f', 'n']

theorem IntPart.start {i : Text} (h : IntPart i) :
    ∃ c s, i = c :: s ∧ isWs c = false ∧ c ≠ ']' ∧ c ∉ startChars := by
  obtain ⟨sign, ds, rfl, rfl | ⟨c, hc, rfl⟩, hds, -⟩ := h
  · obtain ⟨d, rest, rfl, hd⟩ := hds.head
    have hnot : ∀ c : Char, c.isDigit = false → d ≠ c := by
      rintro c hc rfl
      rw [hd] at hc
      cases hc
    refine ⟨d, rest, rfl, ?_, hnot _ (by decide), ?_⟩
    · simp [isWs, hnot ' ' (by decide), hnot '\t' (by decide), hnot '\n' (by decide), hnot '\r' (by decide)]
    · intro hmem
      exact hnot d ((show ∀ c ∈ startChars, c.isDigit = false by decide) d hmem) rfl
  · obtain rfl := List.mem_singleton.mp hc
    exact ⟨'-', ds, rfl, by decide, by decide, by decide⟩

/-- The first character of a value. -/
theorem Spells.start {v : Value F S} {t : Text} (h : Spells readFloat lit v t) :
    ∃ c s, t = c :: s ∧ isWs c = false ∧ c ≠ ']' := by
  cases v with
  | null => exact ⟨'n', _, h, by decide⟩
  | bool b =>
    rw [Spells] at h
    cases b with
    | true => exact ⟨'t', _, h, by decide⟩
    | false => exact ⟨'f', _, h, by decide⟩
  | int n =>
    rw [Spells] at h
    obtain ⟨rfl, h⟩ := h
    obtain ⟨c, s, hc, hws, hne, -⟩ := h.start
    exact ⟨c, s, hc, hws, hne⟩
  | float f =>
    rw [Spells] at h
    obtain ⟨⟨i, fr, x, rfl, hi, -⟩, -⟩ := h
    obtain ⟨c, s, rfl, hws, hne, -⟩ := hi.start
    exact ⟨c, _, rfl, hws, hne⟩
  | str s =>
    rw [Spells] at h
    obtain ⟨b, rfl, -⟩ := h
    exact ⟨'"', _, rfl, by decide⟩
  | arr items =>
    rw [Spells] at h
    obtain ⟨b, rfl, -⟩ := h
    exact ⟨'[', _, rfl, by decide⟩
  | obj entries =>
    rw [Spells] at h
    obtain ⟨b, rfl, -⟩ := h
    exact ⟨'\x7b', _, rfl, by decide⟩

theorem SpellsItems.length_le {vs : List (Value F S)} {t : Text} (h : SpellsItems readFloat lit vs t) :
    vs.length ≤ t.length := by
  induction vs generalizing t with
  | nil => exact Nat.zero_le _
  | cons v vs ih =>
    cases vs with
    | nil =>
      rw [SpellsItems] at h
      obtain ⟨w, s, w', rfl, -, hs, -⟩ := h
      obtain ⟨c, s, rfl, -⟩ := hs.start
      simp
      omega
    | cons v' vs =>
      rw [SpellsItems] at h
      obtain ⟨w, s, w', r, rfl, -, -, -, hr⟩ := h
      have hrest := ih hr
      simp only [List.length_append, List.length_cons] at hrest ⊢
      omega

theorem SpellsEntries.length_le {es : List (S × Value F S)} {t : Text}
    (h : SpellsEntries readFloat lit es t) :
    es.length ≤ t.length := by
  induction es generalizing t with
  | nil => exact Nat.zero_le _
  | cons e es ih =>
    obtain ⟨k, v⟩ := e
    cases es with
    | nil =>
      rw [SpellsEntries] at h
      obtain ⟨w, b, w₁, w₂, s, w', rfl, -⟩ := h
      simp only [List.length_append, List.length_cons, List.length_nil]
      omega
    | cons e' es =>
      rw [SpellsEntries] at h
      obtain ⟨w, b, w₁, w₂, s, w', r, rfl, -, -, -, -, -, -, hr⟩ := h
      have hrest := ih hr
      simp only [List.length_append, List.length_cons] at hrest ⊢
      omega

/-- The first item does not look like the end of the array. -/
theorem SpellsItems.start {v : Value F S} {vs : List (Value F S)} {t : Text}
    (h : SpellsItems readFloat lit (v :: vs) t) (r : Text) : (space (t ++ r)).head? ≠ some ']' := by
  have hfirst : ∃ w s t', t = w ++ (s ++ t') ∧ Ws w ∧ Spells readFloat lit v s := by
    cases vs with
    | nil =>
      rw [SpellsItems] at h
      obtain ⟨w, s, w', rfl, hw, hs, -⟩ := h
      exact ⟨w, s, w', rfl, hw, hs⟩
    | cons v' vs =>
      rw [SpellsItems] at h
      obtain ⟨w, s, w', r, rfl, hw, hs, -⟩ := h
      exact ⟨w, s, _, rfl, hw, hs⟩
  obtain ⟨w, s, t', rfl, hw, hs⟩ := hfirst
  obtain ⟨c, s, rfl, hc, hne⟩ := hs.start
  rw [List.append_assoc, space_append hw, List.cons_append, List.cons_append, space_cons hc]
  simpa using hne

theorem SpellsEntries.start {e : S × Value F S} {es : List (S × Value F S)} {t : Text}
    (h : SpellsEntries readFloat lit (e :: es) t) (r : Text) : (space (t ++ r)).head? = some '"' := by
  obtain ⟨k, v⟩ := e
  have hfirst : ∃ w t', t = w ++ '"' :: t' ∧ Ws w := by
    cases es with
    | nil =>
      rw [SpellsEntries] at h
      obtain ⟨w, b, w₁, w₂, s, w', rfl, hw, -⟩ := h
      exact ⟨w, _, rfl, hw⟩
    | cons e' es =>
      rw [SpellsEntries] at h
      obtain ⟨w, b, w₁, w₂, s, w', r, rfl, hw, -⟩ := h
      exact ⟨w, _, rfl, hw⟩
  obtain ⟨w, t', rfl, hw⟩ := hfirst
  rw [List.append_assoc, space_append hw, List.cons_append, space_cons (by decide)]
  rfl

theorem value_space (n : Nat) (s : Text) :
    value readFloat str clash n (space s) = value readFloat str clash n s := by
  have hspace : space (space s) = space s := List.dropWhile_idempotent _ _
  cases n with
  | zero => rfl
  | succ n => rw [value, value, hspace]

theorem items_space (n fuel : Nat) (s : Text) :
    items (value readFloat str clash n) fuel (space s) = items (value readFloat str clash n) fuel s := by
  cases fuel with
  | zero => rfl
  | succ fuel => rw [items, items, value_space]

theorem entries_space (read : Text → Option (Value F S × Text)) (fuel : Nat) (known : List S) (s : Text) :
    entries str clash read fuel known (space s) = entries str clash read fuel known s := by
  have hspace : space (space s) = space s := List.dropWhile_idempotent _ _
  cases fuel with
  | zero => rfl
  | succ fuel => rw [entries, entries, hspace]

/-- A string is read from its quotes. -/
def ReadsStrings (lit : Text → S → Prop) (str : Text → Option (S × Text)) : Prop :=
  ∀ s x r, str s = some (x, r) ↔ ∃ b, s = '"' :: (b ++ '"' :: r) ∧ lit b x

theorem value_number {n : Nat} {c : Char} {s : Text} (hws : isWs c = false) (hc : c ∉ startChars) :
    value readFloat str clash (n + 1) (c :: s) = number readFloat (c :: s) := by
  simp only [startChars, List.mem_cons, List.not_mem_nil, or_false, not_or] at hc
  rw [value, space_cons hws]
  simp [hc]

mutual

/-- A value that is spelled is read, whatever follows it. -/
theorem value_of_spells (hstr : ReadsStrings lit str) : ∀ (v : Value F S) {n : Nat} {t r : Text},
    Spells readFloat lit v t → height v < n → NoClash clash v → Stop r →
    value readFloat str clash n (t ++ r) = some (v, r)
  | _, 0, _, _, _, hn, _, _ => absurd hn (Nat.not_lt_zero _)
  | .null, n + 1, t, r, h, _, _, _ => by
    rw [Spells] at h
    subst h
    rfl
  | .bool true, n + 1, t, r, h, _, _, _ => by
    rw [Spells] at h
    subst h
    rfl
  | .bool false, n + 1, t, r, h, _, _, _ => by
    rw [Spells] at h
    subst h
    rfl
  | .int i, n + 1, t, r, h, _, _, hr => by
    rw [Spells] at h
    obtain ⟨rfl, h⟩ := h
    obtain ⟨c, s, hc, hws, -, hstart⟩ := h.start
    have hread : number (S := S) readFloat (t ++ r) = some (.int t, r) := number_int h hr
    rw [hc, List.cons_append] at hread ⊢
    rw [value_number hws hstart, hread]
  | .float f, n + 1, t, r, h, _, _, hr => by
    rw [Spells] at h
    obtain ⟨hfloat, hf⟩ := h
    have hread := number_float (S := S) hfloat hf hr
    obtain ⟨i, fr, x, rfl, hi, -⟩ := hfloat
    obtain ⟨c, s, rfl, hws, -, hstart⟩ := hi.start
    rw [List.cons_append, List.cons_append] at hread ⊢
    rw [value_number hws hstart, hread]
  | .str x, n + 1, t, r, h, _, _, _ => by
    rw [Spells] at h
    obtain ⟨b, rfl, hb⟩ := h
    have hread : str ('"' :: (b ++ '"' :: r)) = some (x, r) := (hstr _ _ _).mpr ⟨b, rfl, hb⟩
    rw [List.cons_append, List.append_assoc, List.singleton_append, value, space_cons (by decide)]
    simp [hread]
  | .arr [], n + 1, t, r, h, _, _, _ => by
    rw [Spells] at h
    obtain ⟨w, rfl, hw⟩ := h
    rw [SpellsItems] at hw
    rw [List.cons_append, List.append_assoc, List.singleton_append, value, space_cons (by decide)]
    simp [space_append hw, space_cons (show isWs ']' = false by decide)]
  | .arr (v :: vs), n + 1, t, r, h, hn, hclash, _ => by
    rw [Spells] at h
    obtain ⟨s, rfl, hs⟩ := h
    have hstart := hs.start (']' :: r)
    have hlen := hs.length_le
    have hread : items (value readFloat str clash n) (s ++ ']' :: r).length (s ++ ']' :: r) =
        some (v :: vs, r) := by
      rw [height] at hn
      rw [NoClash] at hclash
      refine items_of_spells hstr (v :: vs) (by simp) hs ?_ (by omega) hclash
      rw [List.length_append]
      omega
    rw [List.cons_append, List.append_assoc, List.singleton_append, value, space_cons (by decide)]
    simp only [show ('[' : Char) ≠ '\x7b' by decide, if_false, if_true, if_neg hstart]
    rw [items_space, hread]
    rfl
  | .obj [], n + 1, t, r, h, _, _, _ => by
    rw [Spells] at h
    obtain ⟨w, rfl, hw⟩ := h
    rw [SpellsEntries] at hw
    rw [List.cons_append, List.append_assoc, List.singleton_append, value, space_cons (by decide)]
    simp [space_append hw, space_cons (show isWs '\x7d' = false by decide)]
  | .obj (e :: es), n + 1, t, r, h, hn, hclash, _ => by
    rw [Spells] at h
    obtain ⟨s, rfl, hs⟩ := h
    have hstart : (space (s ++ '\x7d' :: r)).head? ≠ some '\x7d' := by
      rw [hs.start ('\x7d' :: r)]
      decide
    have hlen := hs.length_le
    have hread : entries str clash (value readFloat str clash n)
        (s ++ '\x7d' :: r).length [] (s ++ '\x7d' :: r) =
        some (e :: es, r) := by
      rw [height] at hn
      rw [NoClash] at hclash
      refine entries_of_spells hstr (e :: es) (by simp) hs ?_ (by omega) hclash
      rw [List.length_append]
      omega
    rw [List.cons_append, List.append_assoc, List.singleton_append, value, space_cons (by decide)]
    simp only [if_true, if_neg hstart]
    rw [entries_space, hread]
    rfl

theorem items_of_spells (hstr : ReadsStrings lit str) :
    ∀ (vs : List (Value F S)) {n fuel : Nat} {t r : Text}, vs ≠ [] → SpellsItems readFloat lit vs t →
    vs.length ≤ fuel → heightItems vs ≤ n →
    NoClashItems clash vs → items (value readFloat str clash n) fuel (t ++ ']' :: r) = some (vs, r)
  | [], _, _, _, _, hne, _, _, _, _ => absurd rfl hne
  | [v], n, fuel, t, r, _, h, hfuel, hn, hclash => by
    rw [SpellsItems] at h
    obtain ⟨w, s, w', rfl, hw, hs, hw'⟩ := h
    obtain ⟨fuel, rfl⟩ : ∃ k, fuel = k + 1 := ⟨fuel - 1, by simp at hfuel; omega⟩
    have hread := value_of_spells hstr v hs (n := n) (r := w' ++ ']' :: r)
      (by simp [heightItems] at hn; omega)
      (by simp only [NoClashItems] at hclash; exact hclash.1) (Stop.ws hw' (stop_cons (by decide) r))
    rw [items, List.append_assoc, List.append_assoc, ← value_space, space_append hw, value_space, hread]
    simp only
    rw [space_append hw', space_cons (by decide)]
    rfl
  | v :: v' :: vs, n, fuel, t, r, _, h, hfuel, hn, hclash => by
    rw [SpellsItems] at h
    obtain ⟨w, s, w', t', rfl, hw, hs, hw', ht'⟩ := h
    obtain ⟨fuel, rfl⟩ : ∃ k, fuel = k + 1 := ⟨fuel - 1, by simp at hfuel; omega⟩
    rw [heightItems] at hn
    rw [NoClashItems] at hclash
    have hread := value_of_spells hstr v hs (n := n) (r := w' ++ ',' :: (t' ++ ']' :: r)) (by omega) hclash.1
      (Stop.ws hw' (stop_cons (by decide) _))
    have hrest : items (value readFloat str clash n) fuel (t' ++ ']' :: r) = some (v' :: vs, r) :=
      items_of_spells hstr (v' :: vs) (by simp) ht' (by simp at hfuel ⊢; omega) (by omega) hclash.2
    rw [items, List.append_assoc, List.append_assoc, List.append_assoc, List.cons_append,
      ← value_space, space_append hw,
      value_space, hread]
    simp only
    rw [space_append hw', space_cons (by decide)]
    simp only
    rw [hrest]
    rfl

theorem entries_of_spells (hstr : ReadsStrings lit str) :
    ∀ (es : List (S × Value F S)) {n fuel : Nat} {known : List S} {t r : Text}, es ≠ [] →
    SpellsEntries readFloat lit es t → es.length ≤ fuel → heightEntries es ≤ n →
      NoClashEntries clash known es →
    entries str clash (value readFloat str clash n) fuel known (t ++ '\x7d' :: r) = some (es, r)
  | [], _, _, _, _, _, hne, _, _, _, _ => absurd rfl hne
  | [(k, v)], n, fuel, known, t, r, _, h, hfuel, hn, hclash => by
    rw [SpellsEntries] at h
    obtain ⟨w, b, w₁, w₂, s, w', rfl, hw, hb, hw₁, hw₂, hs, hw'⟩ := h
    obtain ⟨fuel, rfl⟩ : ∃ k, fuel = k + 1 := ⟨fuel - 1, by simp at hfuel; omega⟩
    rw [heightEntries] at hn
    rw [NoClashEntries] at hclash
    have hkey : str ('"' :: (b ++ '"' :: (w₁ ++ ':' :: (w₂ ++ (s ++ (w' ++ '\x7d' :: r)))))) =
        some (k, w₁ ++ ':' :: (w₂ ++ (s ++ (w' ++ '\x7d' :: r)))) := (hstr _ _ _).mpr ⟨b, rfl, hb⟩
    have hread := value_of_spells hstr v hs (n := n) (r := w' ++ '\x7d' :: r) (by omega) hclash.2.1
      (Stop.ws hw' (stop_cons (by decide) r))
    rw [entries]
    simp only [List.append_assoc, List.cons_append]
    rw [space_append hw, space_cons (by decide), hkey]
    simp only [hclash.1, Bool.false_eq_true, if_false]
    rw [space_append hw₁, space_cons (by decide)]
    simp only
    rw [← value_space, space_append hw₂, value_space, hread]
    simp only
    rw [space_append hw', space_cons (by decide)]
    rfl
  | (k, v) :: e' :: es, n, fuel, known, t, r, _, h, hfuel, hn, hclash => by
    rw [SpellsEntries] at h
    obtain ⟨w, b, w₁, w₂, s, w', t', rfl, hw, hb, hw₁, hw₂, hs, hw', ht'⟩ := h
    obtain ⟨fuel, rfl⟩ : ∃ k, fuel = k + 1 := ⟨fuel - 1, by simp at hfuel; omega⟩
    rw [heightEntries] at hn
    rw [NoClashEntries] at hclash
    have hkey : str ('"' :: (b ++ '"' :: (w₁ ++ ':' :: (w₂ ++ (s ++ (w' ++ ',' :: (t' ++ '\x7d' :: r))))))) =
        some (k, w₁ ++ ':' :: (w₂ ++ (s ++ (w' ++ ',' :: (t' ++ '\x7d' :: r))))) :=
          (hstr _ _ _).mpr ⟨b, rfl, hb⟩
    have hread := value_of_spells hstr v hs (n := n) (r := w' ++ ',' :: (t' ++ '\x7d' :: r))
      (by omega) hclash.2.1
      (Stop.ws hw' (stop_cons (by decide) _))
    have hrest : entries str clash (value readFloat str clash n) fuel (known ++ [k]) (t' ++ '\x7d' :: r) =
        some (e' :: es, r) :=
      entries_of_spells hstr (e' :: es) (by simp) ht' (by simp at hfuel ⊢; omega) (by omega) hclash.2.2
    rw [entries]
    simp only [List.append_assoc, List.cons_append]
    rw [space_append hw, space_cons (by decide), hkey]
    simp only [hclash.1, Bool.false_eq_true, if_false]
    rw [space_append hw₁, space_cons (by decide)]
    simp only
    rw [← value_space, space_append hw₂, value_space, hread]
    simp only
    rw [space_append hw', space_cons (by decide)]
    simp only
    rw [hrest]
    rfl

end

/-! ## What is read is spelled -/

/-- The value was read from the front of a text. -/
def Read (readFloat : Text → Option F) (lit : Text → S → Prop) (clash : List S → S → Bool) (n : Nat)
    (s : Text) (v : Value F S) (r : Text) : Prop :=
  ∃ w t, s = w ++ (t ++ r) ∧ Ws w ∧ Spells readFloat lit v t ∧ height v < n ∧ NoClash clash v

theorem items_some {read : Text → Option (Value F S × Text)} {n : Nat}
    (hread : ∀ s v r, read s = some (v, r) → Read readFloat lit clash n s v r) {fuel : Nat} {s r : Text}
    {vs : List (Value F S)} (h : items read fuel s = some (vs, r)) :
    vs ≠ [] ∧ ∃ t, s = t ++ ']' :: r ∧ SpellsItems readFloat lit vs t ∧ heightItems vs ≤ n ∧
      NoClashItems clash vs := by
  induction fuel generalizing s vs with
  | zero => cases h
  | succ fuel ih =>
    rw [items] at h
    split at h
    · cases h
    · rename_i v s₁ hv
      obtain ⟨w, t, rfl, hw, ht, hheight, hclash⟩ := hread _ _ _ hv
      obtain ⟨w', hs₁, hw'⟩ := space_split s₁
      split at h
      · rename_i s₂ hspace
        obtain ⟨⟨vs', r'⟩, hitems, hvs⟩ := Option.map_eq_some_iff.mp h
        obtain ⟨rfl, rfl⟩ := Prod.mk.inj hvs
        obtain ⟨hne, t', rfl, ht', hheight', hclash'⟩ := ih hitems
        obtain ⟨v', vs', rfl⟩ := List.exists_cons_of_ne_nil hne
        refine ⟨by simp, w ++ (t ++ (w' ++ ',' :: t')), ?_, ?_, ?_, ?_⟩
        · rw [hs₁, hspace]
          simp
        · rw [SpellsItems]
          exact ⟨w, t, w', t', rfl, hw, ht, hw', ht'⟩
        · rw [heightItems]
          omega
        · rw [NoClashItems]
          exact ⟨hclash, hclash'⟩
      · rename_i s₂ hspace
        obtain ⟨rfl, rfl⟩ := Prod.mk.inj (Option.some.inj h)
        refine ⟨by simp, w ++ (t ++ w'), ?_, ?_, ?_, ?_⟩
        · rw [hs₁, hspace]
          simp
        · rw [SpellsItems]
          exact ⟨w, t, w', rfl, hw, ht, hw'⟩
        · simp only [heightItems]
          omega
        · simp [NoClashItems, hclash]
      · cases h

theorem entries_some (hstr : ReadsStrings lit str) {read : Text → Option (Value F S × Text)} {n : Nat}
    (hread : ∀ s v r, read s = some (v, r) → Read readFloat lit clash n s v r) {fuel : Nat}
    {known : List S} {s r : Text}
    {es : List (S × Value F S)} (h : entries str clash read fuel known s = some (es, r)) :
    es ≠ [] ∧ ∃ t, s = t ++ '\x7d' :: r ∧ SpellsEntries readFloat lit es t ∧ heightEntries es ≤ n ∧
      NoClashEntries clash known es := by
  induction fuel generalizing known s es with
  | zero => cases h
  | succ fuel ih =>
    obtain ⟨w, hs, hw⟩ := space_split s
    rw [entries] at h
    split at h
    · cases h
    · rename_i k s₁ hk
      obtain ⟨b, hb, hlit⟩ := (hstr _ _ _).mp hk
      obtain ⟨w₁, hs₁, hw₁⟩ := space_split s₁
      split at h
      · cases h
      · rename_i hknown
        split at h
        · rename_i s₂ hcolon
          split at h
          · cases h
          · rename_i v s₃ hv
            obtain ⟨w₂, t, rfl, hw₂, ht, hheight, hclash⟩ := hread _ _ _ hv
            obtain ⟨w', hs₃, hw'⟩ := space_split s₃
            split at h
            · rename_i s₄ hspace
              obtain ⟨⟨es', r'⟩, hentries, hes⟩ := Option.map_eq_some_iff.mp h
              obtain ⟨rfl, rfl⟩ := Prod.mk.inj hes
              obtain ⟨hne, t', rfl, ht', hheight', hclash'⟩ := ih hentries
              obtain ⟨e', es', rfl⟩ := List.exists_cons_of_ne_nil hne
              refine ⟨by simp, w ++ ('"' :: (b ++ '"' :: (w₁ ++ ':' :: (w₂ ++ (t ++ (w' ++ ',' :: t')))))),
                ?_, ?_, ?_, ?_⟩
              · rw [hs, hb, hs₁, hcolon, hs₃, hspace]
                simp
              · rw [SpellsEntries]
                exact ⟨w, b, w₁, w₂, t, w', t', rfl, hw, hlit, hw₁, hw₂, ht, hw', ht'⟩
              · rw [heightEntries]
                omega
              · rw [NoClashEntries]
                exact ⟨by simpa using hknown, hclash, hclash'⟩
            · rename_i s₄ hspace
              obtain ⟨rfl, rfl⟩ := Prod.mk.inj (Option.some.inj h)
              refine ⟨by simp, w ++ ('"' :: (b ++ '"' :: (w₁ ++ ':' :: (w₂ ++ (t ++ w'))))), ?_, ?_, ?_, ?_⟩
              · rw [hs, hb, hs₁, hcolon, hs₃, hspace]
                simp
              · rw [SpellsEntries]
                exact ⟨w, b, w₁, w₂, t, w', rfl, hw, hlit, hw₁, hw₂, ht, hw'⟩
              · simp only [heightEntries]
                omega
              · simp only [NoClashEntries]
                exact ⟨by simpa using hknown, hclash, trivial⟩
            · cases h
        · cases h

theorem literal_some {word s r : Text} {u v : Value F S} (h : literal word u s = some (v, r)) :
    v = u ∧ s = word ++ r := by
  obtain ⟨rest, hrest, hv⟩ := Option.map_eq_some_iff.mp h
  obtain ⟨rfl, rfl⟩ := Prod.mk.inj hv
  exact ⟨rfl, Text.isPrefixOf?_some hrest⟩

theorem value_some (hstr : ReadsStrings lit str) {n : Nat} {s r : Text} {v : Value F S}
    (h : value readFloat str clash n s = some (v, r)) : Read readFloat lit clash n s v r := by
  induction n generalizing s v r with
  | zero => cases h
  | succ n ih =>
    obtain ⟨w, hs, hw⟩ := space_split s
    rw [value] at h
    split at h
    · cases h
    · rename_i c s₁ hspace
      rw [hspace] at hs
      have hscalar : ∀ {t : Text}, c :: s₁ = t ++ r → Spells readFloat lit v t →
          height v = 0 → NoClash clash v →
          Read readFloat lit clash (n + 1) s v r := by
        intro t ht hspells hheight hclash
        exact ⟨w, t, by rw [hs, ht], hw, hspells, by omega, hclash⟩
      obtain ⟨w₁, hs₁, hw₁⟩ := space_split s₁
      split at h
      · rename_i hc
        subst hc
        split at h
        · rename_i hclose
          obtain ⟨rfl, rfl⟩ := Prod.mk.inj (Option.some.inj h)
          have hsp : space s₁ = '\x7d' :: (space s₁).drop 1 := by
            cases hx : space s₁ with
            | nil => simp [hx] at hclose
            | cons d s₂ => simp_all
          refine ⟨w, '\x7b' :: (w₁ ++ ['\x7d']), ?_, hw, ?_, ?_, ?_⟩
          · nth_rewrite 1 [hs, hs₁, hsp]
            simp
          · rw [Spells]
            exact ⟨w₁, rfl, by simpa [SpellsEntries] using hw₁⟩
          · simp [height, heightEntries]
          · simp [NoClash, NoClashEntries]
        · obtain ⟨⟨es, r'⟩, hentries, hes⟩ := Option.map_eq_some_iff.mp h
          obtain ⟨rfl, rfl⟩ := Prod.mk.inj hes
          rw [entries_space] at hentries
          obtain ⟨-, t, rfl, ht, hheight, hclash⟩ := entries_some hstr (fun _ _ _ => ih) hentries
          refine ⟨w, '\x7b' :: (t ++ ['\x7d']), ?_, hw, ?_, ?_, ?_⟩
          · rw [hs]
            simp
          · rw [Spells]
            exact ⟨t, rfl, ht⟩
          · rw [height]
            omega
          · rwa [NoClash]
      · split at h
        · rename_i hc
          subst hc
          split at h
          · rename_i hclose
            obtain ⟨rfl, rfl⟩ := Prod.mk.inj (Option.some.inj h)
            have hsp : space s₁ = ']' :: (space s₁).drop 1 := by
              cases hx : space s₁ with
              | nil => simp [hx] at hclose
              | cons d s₂ => simp_all
            refine ⟨w, '[' :: (w₁ ++ [']']), ?_, hw, ?_, ?_, ?_⟩
            · nth_rewrite 1 [hs, hs₁, hsp]
              simp
            · rw [Spells]
              exact ⟨w₁, rfl, by simpa [SpellsItems] using hw₁⟩
            · simp [height, heightItems]
            · simp [NoClash, NoClashItems]
          · obtain ⟨⟨vs, r'⟩, hitems, hvs⟩ := Option.map_eq_some_iff.mp h
            obtain ⟨rfl, rfl⟩ := Prod.mk.inj hvs
            rw [items_space] at hitems
            obtain ⟨-, t, rfl, ht, hheight, hclash⟩ := items_some (fun _ _ _ => ih) hitems
            refine ⟨w, '[' :: (t ++ [']']), ?_, hw, ?_, ?_, ?_⟩
            · rw [hs]
              simp
            · rw [Spells]
              exact ⟨t, rfl, ht⟩
            · rw [height]
              omega
            · rwa [NoClash]
        · split at h
          · obtain ⟨⟨x, r'⟩, hread, hx⟩ := Option.map_eq_some_iff.mp h
            obtain ⟨rfl, rfl⟩ := Prod.mk.inj hx
            obtain ⟨b, hb, hlit⟩ := (hstr _ _ _).mp hread
            refine hscalar (t := '"' :: (b ++ ['"'])) (by rw [hb]; simp) ?_
              (by simp [height]) (by simp [NoClash])
            rw [Spells]
            exact ⟨b, rfl, hlit⟩
          · split at h
            · obtain ⟨rfl, heq⟩ := literal_some h
              exact hscalar heq (by simp [Spells]) (by simp [height]) (by simp [NoClash])
            · split at h
              · obtain ⟨rfl, heq⟩ := literal_some h
                exact hscalar heq (by simp [Spells]) (by simp [height]) (by simp [NoClash])
              · split at h
                · obtain ⟨rfl, heq⟩ := literal_some h
                  exact hscalar heq (by simp [Spells]) (by simp [height]) (by simp [NoClash])
                · obtain ⟨t, ht, hspells, hheight, hclash⟩ := number_some h
                  exact hscalar ht hspells hheight hclash

/-- **The reader accepts exactly the texts of the grammar**, with a bound on the nesting and no
key that clashes, and returns what they spell. -/
theorem parse_iff (hstr : ReadsStrings lit str) {n : Nat} {t : Text} {v : Value F S} :
    parse readFloat str clash n t = some v ↔ Document readFloat lit v t ∧ height v < n ∧ NoClash clash v := by
  refine ⟨fun h => ?_, ?_⟩
  · unfold parse at h
    split at h
    · rename_i v' r hread
      split at h
      · rename_i hrest
        cases h
        rw [value_space] at hread
        obtain ⟨w, s, rfl, hw, hs, hheight, hclash⟩ := value_some hstr hread
        refine ⟨⟨w, s, r, rfl, hw, hs, ?_⟩, hheight, hclash⟩
        exact List.dropWhile_eq_nil_iff.mp hrest
      · cases h
    · cases h
  · rintro ⟨⟨w, s, w', rfl, hw, hs, hw'⟩, hheight, hclash⟩
    have hstop : Stop w' := by
      rw [← List.append_nil w']
      exact Stop.ws hw' stop_nil
    unfold parse
    rw [value_space, ← value_space, space_append hw, value_space,
      value_of_spells hstr v hs hheight hclash hstop]
    simp [space_ws hw']

end

end JsonText

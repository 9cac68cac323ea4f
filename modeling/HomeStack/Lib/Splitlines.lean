import HomeStack.Lib.Text

/-! Lines as Python's strings have them: `str.splitlines` ends a line at more characters than a
line feed, `open` in text mode reads every `\r\n` and `\r` as one, and a text joined again has
a line feed after every line. -/

namespace Text

/-- `str.isspace` of a character, the `\s` of a pattern. -/
def isSpace (c : Char) : Bool := isWhitespace c || (0x1C ≤ c.toNat && c.toNat ≤ 0x1F)

/-- The characters that end a line in `str.splitlines`. -/
def isBreak (c : Char) : Bool :=
  let n := c.toNat
  (10 ≤ n && n ≤ 13) || (0x1C ≤ n && n ≤ 0x1E) || n = 0x85 || n = 0x2028 || n = 0x2029

/-- A character before the lines of a text; `\r\n` ends one line, not two. -/
def pushLine (c : Char) : List (Text × Text) → List (Text × Text)
  | [] => if isBreak c then [([], [c])] else [([c], [])]
  | (l, e) :: rest =>
    if c = '\r' ∧ l = [] ∧ e = ['\n'] then ([], ['\r', '\n']) :: rest
    else if isBreak c then ([], [c]) :: (l, e) :: rest
    else (c :: l, e) :: rest

/-- The lines of a text, each with what ends it: `splitlines(keepends=True)`. -/
def keepLines : Text → List (Text × Text)
  | [] => []
  | c :: s => pushLine c (keepLines s)

def splitlines (s : Text) : List Text := (keepLines s).map Prod.fst

/-- What text mode reads: every `\r\n` and every `\r` is a line feed. -/
def universal : Text → Text
  | [] => []
  | c :: s =>
    if c = '\r' then if s.head? = some '\n' then universal s else '\n' :: universal s
    else c :: universal s

/-- `"\n".join(lines) + "\n"` -/
def joinLines : List Text → Text
  | [] => ['\n']
  | [l] => l ++ ['\n']
  | l :: ls => l ++ '\n' :: joinLines ls

/-- One line. -/
def Unbroken (s : Text) : Prop := ∀ c ∈ s, isBreak c = false

instance (s : Text) : Decidable (Unbroken s) := inferInstanceAs (Decidable (∀ c ∈ s, _))

theorem Unbroken.of_cons {c : Char} {s : Text} (h : Unbroken (c :: s)) : isBreak c = false ∧ Unbroken s :=
  ⟨h c (by simp), fun d hd => h d (List.mem_cons_of_mem _ hd)⟩

theorem Unbroken.append {s t : Text} (hs : Unbroken s) (ht : Unbroken t) : Unbroken (s ++ t) := by
  intro c hc
  rcases List.mem_append.mp hc with hc | hc
  · exact hs c hc
  · exact ht c hc

/-! ## Lines that are read -/

theorem pushLine_ne_nil (c : Char) (ls : List (Text × Text)) : pushLine c ls ≠ [] := by
  cases ls with
  | nil =>
    rw [pushLine]
    split <;> simp
  | cons l ls =>
    rw [pushLine]
    split
    · simp
    · split <;> simp

@[simp] theorem keepLines_eq_nil {s : Text} : keepLines s = [] ↔ s = [] := by
  cases s with
  | nil => simp [keepLines]
  | cons c s => simp [keepLines, pushLine_ne_nil]

theorem pushLine_of_not_cr {c : Char} (hc : c ≠ '\r') (ls : List (Text × Text)) :
    pushLine c ls = if isBreak c then ([], [c]) :: ls else
      match ls with
      | [] => [([c], [])]
      | (l, e) :: rest => (c :: l, e) :: rest := by
  cases ls with
  | nil => rfl
  | cons l ls => simp [pushLine, hc]

/-- A line that is read is unbroken. -/
theorem unbroken_of_mem_keepLines {s : Text} : ∀ {l : Text × Text}, l ∈ keepLines s → Unbroken l.1 := by
  induction s with
  | nil =>
    intro l hl
    simp [keepLines] at hl
  | cons c s ih =>
    intro l hl
    rw [keepLines] at hl
    cases hls : keepLines s with
    | nil =>
      rw [hls] at hl
      by_cases hb : isBreak c = true
      · obtain rfl : l = ([], [c]) := by simpa [pushLine, hb] using hl
        simp [Unbroken]
      · obtain rfl : l = ([c], []) := by simpa [pushLine, hb] using hl
        simpa [Unbroken] using hb
    | cons first rest =>
      obtain ⟨f, e⟩ := first
      rw [hls] at hl ih
      have hrest : l ∈ rest → Unbroken l.1 := fun h => ih (List.mem_cons_of_mem _ h)
      simp only [pushLine] at hl
      split at hl
      · rcases List.mem_cons.mp hl with rfl | hl
        · simp [Unbroken]
        · exact hrest hl
      · split at hl
        · rcases List.mem_cons.mp hl with rfl | hl
          · simp [Unbroken]
          · exact ih hl
        · rename_i hb
          rcases List.mem_cons.mp hl with rfl | hl
          · intro d hd
            rcases List.mem_cons.mp hd with rfl | hd
            · simpa using hb
            · exact ih (List.mem_cons_self ..) d hd
          · exact hrest hl

theorem unbroken_of_mem_splitlines {s l : Text} (h : l ∈ splitlines s) : Unbroken l := by
  obtain ⟨k, hk, rfl⟩ := List.mem_map.mp h
  exact unbroken_of_mem_keepLines hk

/-- A text starts with a line feed when its first line is empty and ends in one. -/
theorem keepLines_lf (s : Text) : keepLines ('\n' :: s) = ([], ['\n']) :: keepLines s := by
  rw [keepLines, pushLine_of_not_cr (by decide)]
  rfl

theorem keepLines_crlf (s : Text) : keepLines ('\r' :: '\n' :: s) = ([], ['\r', '\n']) :: keepLines s := by
  rw [keepLines, keepLines_lf]
  simp [pushLine]

theorem head?_eq_lf {s l : Text} {rest : List (Text × Text)}
    (h : keepLines s = (l, ['\n']) :: rest) (hl : l = []) :
    s.head? = some '\n' := by
  cases s with
  | nil => simp [keepLines] at h
  | cons c s =>
    subst hl
    rw [keepLines] at h
    cases hls : keepLines s with
    | nil =>
      rw [hls, pushLine] at h
      split at h
      · simp_all
      · simp at h
    | cons first others =>
      obtain ⟨f, e⟩ := first
      rw [hls, pushLine] at h
      split at h
      · simp at h
      · split at h
        · simp_all
        · simp at h

theorem keepLines_cr {s : Text} (h : s.head? ≠ some '\n') :
    keepLines ('\r' :: s) = ([], ['\r']) :: keepLines s := by
  rw [keepLines]
  cases hls : keepLines s with
  | nil => rfl
  | cons first rest =>
    obtain ⟨f, e⟩ := first
    have hnot : ¬('\r' = '\r' ∧ f = [] ∧ e = ['\n']) := by
      rintro ⟨-, hf, rfl⟩
      exact h (head?_eq_lf hls hf)
    rw [pushLine, if_neg hnot, if_pos (by decide)]

/-- The end text mode reads for one that is written. -/
def lfEnd (l : Text × Text) : Text × Text := (l.1, if l.2.head? = some '\r' then ['\n'] else l.2)

/-- Text mode does not change the lines: it only changes how they end. -/
theorem keepLines_universal (s : Text) : keepLines (universal s) = (keepLines s).map lfEnd := by
  induction s with
  | nil => rfl
  | cons c s ih =>
    unfold universal
    split
    · rename_i hc
      subst hc
      split
      · rename_i hlf
        obtain ⟨t, rfl⟩ : ∃ t, s = '\n' :: t := by
          cases s with
          | nil => simp at hlf
          | cons d t => exact ⟨t, by simpa using hlf⟩
        rw [ih, keepLines_crlf, keepLines_lf]
        rfl
      · rename_i hlf
        rw [keepLines_lf, keepLines_cr hlf, ih]
        rfl
    · rename_i hc
      have hend : lfEnd ([], [c]) = ([], [c]) := by simp [lfEnd, hc]
      rw [keepLines, keepLines, pushLine_of_not_cr hc, pushLine_of_not_cr hc, ih]
      split
      · rw [List.map_cons, hend]
      · cases keepLines s with
        | nil => rfl
        | cons first rest => rfl

theorem splitlines_universal (s : Text) : splitlines (universal s) = splitlines s := by
  rw [splitlines, keepLines_universal, List.map_map]
  rfl

/-- Without a carriage return text mode reads the text as it is. -/
theorem universal_eq_self {s : Text} (h : '\r' ∉ s) : universal s = s := by
  induction s with
  | nil => rfl
  | cons c s ih =>
    rw [List.mem_cons, not_or] at h
    rw [universal, if_neg (Ne.symm h.1), ih h.2]

/-! ## Lines that are joined -/

theorem keepLines_append_lf {l : Text} (h : Unbroken l) (s : Text) :
    keepLines (l ++ '\n' :: s) = (l, ['\n']) :: keepLines s := by
  induction l with
  | nil => exact keepLines_lf s
  | cons c l ih =>
    obtain ⟨hc, hl⟩ := h.of_cons
    have hcr : c ≠ '\r' := by
      rintro rfl
      exact absurd hc (by decide)
    rw [List.cons_append, keepLines, ih hl, pushLine_of_not_cr hcr, if_neg (by simp [hc])]

theorem keepLines_joinLines {ls : List Text} (hne : ls ≠ []) (h : ∀ l ∈ ls, Unbroken l) :
    keepLines (joinLines ls) = ls.map (·, ['\n']) := by
  induction ls with
  | nil => exact absurd rfl hne
  | cons l ls ih =>
    have hl := h l (by simp)
    cases ls with
    | nil => simpa [joinLines, keepLines] using keepLines_append_lf hl []
    | cons l' ls =>
      rw [joinLines, keepLines_append_lf hl, ih (by simp) fun m hm => h m (List.mem_cons_of_mem _ hm)]
      · rfl
      · simp

theorem keepLines_intercalate_lf {ls : List Text} (hne : ls ≠ []) (h : ∀ l ∈ ls, Unbroken l) (s : Text) :
    keepLines (List.intercalate ['\n'] ls ++ '\n' :: s) = ls.map (·, ['\n']) ++ keepLines s := by
  induction ls with
  | nil => exact absurd rfl hne
  | cons l ls ih =>
    have hl := h l (by simp)
    by_cases hls : ls = []
    · subst hls
      rw [List.intercalate_singleton, keepLines_append_lf hl]
      rfl
    · have hrest := ih hls fun m hm => h m (List.mem_cons_of_mem _ hm)
      rw [List.intercalate_cons_of_ne_nil hls, List.append_assoc, List.append_assoc, List.singleton_append,
        keepLines_append_lf hl, hrest]
      rfl

/-- Joined lines are read as they were. -/
theorem splitlines_joinLines {ls : List Text} (hne : ls ≠ []) (h : ∀ l ∈ ls, Unbroken l) :
    splitlines (joinLines ls) = ls := by
  rw [splitlines, keepLines_joinLines hne h, List.map_map]
  exact List.map_id _

theorem cr_not_mem_joinLines {ls : List Text} (h : ∀ l ∈ ls, Unbroken l) : '\r' ∉ joinLines ls := by
  have hcr : ∀ l ∈ ls, '\r' ∉ l := fun l hl hmem => absurd (h l hl _ hmem) (by decide)
  induction ls with
  | nil => simp [joinLines]
  | cons l ls ih =>
    have hl := hcr l (by simp)
    cases ls with
    | nil => simp [joinLines, hl]
    | cons l' ls =>
      have hrest := ih (fun m hm => h m (List.mem_cons_of_mem _ hm)) fun m hm =>
        hcr m (List.mem_cons_of_mem _ hm)
      rw [joinLines]
      · simp only [List.mem_append, List.mem_cons, not_or]
        exact ⟨hl, by decide, hrest⟩
      · simp

end Text

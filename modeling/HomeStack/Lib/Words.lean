import HomeStack.Lib.Text

/-! Words and lines of a text: fields between separators (`split_whitespace`,
the fields of awk) and lines between line feeds (`str::lines`, the records of
awk). -/

namespace Text

/-! ## Words -/

/-- The non-empty pieces between separators. -/
def words (p : Char → Bool) (s : Text) : List Text := (s.splitOnP p).filter fun w => w ≠ []

variable {p : Char → Bool}

@[simp] theorem words_nil : words p [] = [] := rfl

/-- A separator ends a word. -/
theorem words_append_sep {c : Char} (hc : p c = true) (a b : Text) :
    words p (a ++ c :: b) = words p a ++ words p b := by
  rw [words, List.splitOnP_append_cons a b hc, List.filter_append]
  rfl

theorem words_cons_sep {c : Char} (hc : p c = true) (b : Text) : words p (c :: b) = words p b := by
  simpa using words_append_sep hc [] b

/-- A text without separators is one word. -/
theorem words_of_no_sep {w : Text} (hw : w ≠ []) (h : ∀ c ∈ w, p c = false) : words p w = [w] := by
  rw [words, List.splitOnP_eq_singleton h]
  simp [hw]

/-- The words of a text that starts with a word. -/
theorem words_word_sep {w : Text} (hw : w ≠ []) (h : ∀ c ∈ w, p c = false) {c : Char} (hc : p c = true)
    (b : Text) : words p (w ++ c :: b) = w :: words p b := by
  rw [words_append_sep hc, words_of_no_sep hw h]
  rfl

theorem words_dropWhile (s : Text) : words p (s.dropWhile p) = words p s := by
  induction s with
  | nil => rfl
  | cons c s ih =>
    by_cases hc : p c
    · rw [List.dropWhile_cons_of_pos hc, ih, words_cons_sep hc]
    · rw [List.dropWhile_cons_of_neg hc]

theorem words_rdropWhile (s : Text) : words p (s.rdropWhile p) = words p s := by
  induction s using List.reverseRecOn with
  | nil => rfl
  | append_singleton s c ih =>
    by_cases hc : p c
    · rw [List.rdropWhile_concat_pos _ _ _ hc, ih, words_append_sep hc]
      simp
    · rw [List.rdropWhile_concat_neg _ _ _ hc]

theorem words_trim (s : Text) : words isWhitespace (trim s) = words isWhitespace s := by
  rw [trim, words_rdropWhile, trimStart, words_dropWhile]

/-- Separators that agree on a text give the same words. -/
theorem words_congr {q : Char → Bool} {s : Text} (h : ∀ c ∈ s, p c = q c) : words p s = words q s := by
  have e : s.splitOnP p = s.splitOnP q := by
    induction s with
    | nil => rfl
    | cons c s ih =>
      rw [List.splitOnP_cons_eq_if_modifyHead, List.splitOnP_cons_eq_if_modifyHead, h c (by simp),
        ih fun d hd => h d (by simp [hd])]
  rw [words, words, e]

/-- A text that starts with no separator starts with its first word. -/
theorem words_head {c : Char} (hc : p c = false) (s : Text) :
    ∃ w rest, words p (c :: s) = (c :: w) :: rest := by
  by_cases hs : ∀ d ∈ s, p d = false
  · refine ⟨s, [], words_of_no_sep (by simp) ?_⟩
    rintro d hd
    rcases List.mem_cons.mp hd with rfl | hd
    · exact hc
    · exact hs d hd
  · simp only [not_forall, Bool.not_eq_false] at hs
    obtain ⟨d, hd, hpd⟩ := hs
    -- cut at the first separator
    have hdrop : s.dropWhile (fun x => !p x) ≠ [] := by
      intro e
      have := List.dropWhile_eq_nil_iff.mp e d hd
      simp [hpd] at this
    obtain ⟨x, t, ht⟩ := List.exists_cons_of_ne_nil hdrop
    have hx : p x = true := by
      have := List.head_dropWhile_not (fun x => !p x) hdrop
      simpa [ht] using this
    refine ⟨s.takeWhile (fun x => !p x), words p t, ?_⟩
    have e : c :: s = (c :: s.takeWhile (fun x => !p x)) ++ x :: t := by
      rw [← ht, List.cons_append, List.takeWhile_append_dropWhile]
    rw [e, words_word_sep (by simp) ?_ hx]
    rintro y hy
    rcases List.mem_cons.mp hy with rfl | hy
    · exact hc
    · simpa using List.mem_takeWhile_imp hy

/-- The characters of a piece are characters of the text, and no separators. -/
theorem mem_of_mem_splitOnP {s l : Text} (hl : l ∈ s.splitOnP p) : ∀ c ∈ l, c ∈ s ∧ p c = false := by
  induction s generalizing l with
  | nil => simp_all
  | cons x s ih =>
    have up : ∀ {m : Text}, m ∈ s.splitOnP p → ∀ c ∈ m, c ∈ x :: s ∧ p c = false :=
      fun hm c hc => ⟨List.mem_cons_of_mem _ (ih hm c hc).1, (ih hm c hc).2⟩
    rw [List.splitOnP_cons_eq_if_modifyHead] at hl
    split at hl
    · rcases List.mem_cons.mp hl with rfl | hl
      · simp
      · exact up hl
    · next hx =>
      obtain ⟨m, rest, hm⟩ := List.exists_cons_of_ne_nil (List.splitOnP_ne_nil p s)
      rw [hm, List.modifyHead_cons] at hl
      rcases List.mem_cons.mp hl with rfl | hl
      · intro c hc
        rcases List.mem_cons.mp hc with rfl | hc
        · exact ⟨List.mem_cons_self, by simpa using hx⟩
        · exact up (by simp [hm]) c hc
      · exact up (by simp [hm, hl])

/-! ## Lines -/

/-- The pieces between line feeds; an empty last piece is no line. -/
def records (s : Text) : List Text :=
  let parts := s.splitOn '\n'
  parts.dropLast ++ if parts.getLastD [] = [] then [] else [parts.getLastD []]

/-- `strip_suffix('\r')`, or the text itself. -/
def stripCr (s : Text) : Text := if s.getLast? = some '\r' then s.dropLast else s

def lines (s : Text) : List Text :=
  let parts := s.splitOn '\n'
  parts.dropLast.map stripCr ++ if parts.getLastD [] = [] then [] else [parts.getLastD []]

/-- Every line is ended. -/
def Complete (s : Text) : Prop := s = [] ∨ s.getLast? = some '\n'

instance (s : Text) : Decidable (Complete s) := inferInstanceAs (Decidable (_ ∨ _))

/-- A text and its line feed. -/
theorem records_append_lf (s : Text) : records (s ++ ['\n']) = s.splitOn '\n' := by
  unfold records
  rw [List.splitOn_append_cons_self]
  simp

/-- Ending the last line changes no line. -/
theorem records_prefix_append_lf (s : Text) : records s <+: records (s ++ ['\n']) := by
  rw [records_append_lf, records]
  have hne : s.splitOn '\n' ≠ [] := List.splitOn_ne_nil _ _
  have hlast : (s.splitOn '\n').getLastD [] = (s.splitOn '\n').getLast hne := by
    rw [List.getLastD_eq_getLast?, List.getLast?_eq_getLast_of_ne_nil hne]
    rfl
  have hsplit := List.dropLast_concat_getLast hne
  rw [← hlast] at hsplit
  split
  · rw [List.append_nil]
    exact ⟨[(s.splitOn '\n').getLastD []], hsplit⟩
  · rw [hsplit]

theorem complete_append_lf (s : Text) : Complete (s ++ ['\n']) := Or.inr (by simp)

/-- Ended lines stay the first lines of a longer text. -/
theorem records_prefix_append {s : Text} (hs : Complete s) (rest : Text) :
    records s <+: records (s ++ rest) := by
  rcases hs with rfl | hs
  · exact List.nil_prefix
  · obtain ⟨t, rfl⟩ := List.getLast?_eq_some_iff.mp hs
    rw [records_append_lf, List.append_assoc, List.singleton_append, records, List.splitOn_append_cons_self,
      List.dropLast_append_of_ne_nil (List.splitOn_ne_nil _ _), List.append_assoc]
    exact List.prefix_append _ _

/-- **A line appended** to ended lines is one more line. -/
theorem records_append_line {s l : Text} (hs : Complete s) (hl : '\n' ∉ l) :
    records (s ++ (l ++ ['\n'])) = records s ++ [l] := by
  rcases hs with rfl | hs
  · rw [List.nil_append, records_append_lf, List.splitOn_eq_singleton hl]
    rfl
  · obtain ⟨t, rfl⟩ := List.getLast?_eq_some_iff.mp hs
    rw [records_append_lf, show t ++ ['\n'] ++ (l ++ ['\n']) = (t ++ '\n' :: l) ++ ['\n'] by simp,
      records_append_lf, List.splitOn_append_cons_self, List.splitOn_eq_singleton hl]

/-- The characters of a line are characters of the text. -/
theorem mem_of_mem_records {s l : Text} (hl : l ∈ records s) : ∀ c ∈ l, c ∈ s ∧ c ≠ '\n' := by
  have hp : ∀ l ∈ s.splitOn '\n', ∀ c ∈ l, c ∈ s ∧ c ≠ '\n' := by
    intro l hl c hc
    rw [List.splitOn_eq_splitOnP] at hl
    simpa using mem_of_mem_splitOnP hl c hc
  unfold records at hl
  rcases List.mem_append.mp hl with hl | hl
  · exact hp l (List.mem_of_mem_dropLast hl)
  · split at hl
    · simp at hl
    · rw [List.mem_singleton] at hl
      subst hl
      refine hp _ ?_
      rw [List.getLastD_eq_getLast?, List.getLast?_eq_getLast_of_ne_nil (List.splitOn_ne_nil _ _)]
      exact List.getLast_mem _

theorem mem_of_mem_stripCr {l : Text} {c : Char} (h : c ∈ stripCr l) : c ∈ l := by
  unfold stripCr at h
  split at h
  · exact List.mem_of_mem_dropLast h
  · exact h

theorem lf_not_mem_lines {s l : Text} (hl : l ∈ lines s) : '\n' ∉ l := by
  intro hc
  unfold lines at hl
  rcases List.mem_append.mp hl with hl | hl
  · obtain ⟨m, hm, rfl⟩ := List.mem_map.mp hl
    exact (mem_of_mem_records (List.mem_append_left _ hm) _ (mem_of_mem_stripCr hc)).2 rfl
  · exact (mem_of_mem_records (List.mem_append_right _ hl) _ hc).2 rfl

theorem mem_of_mem_trim {s : Text} {c : Char} (h : c ∈ trim s) : c ∈ s := by
  unfold trim trimStart at h
  exact (List.dropWhile_suffix _).subset ((List.rdropWhile_prefix _ _).subset h)

/-- A trimmed text does not end in whitespace. -/
theorem trim_getLast? {s : Text} {c : Char} (h : (trim s).getLast? = some c) :
    isWhitespace c = false := by
  have hne : trim s ≠ [] := by
    rintro e
    rw [e] at h
    cases h
  have hl := List.rdropWhile_last_not isWhitespace (trimStart s) hne
  rw [List.getLast?_eq_some_getLast hne, Option.some.injEq] at h
  rw [← h]
  exact (Bool.not_eq_true _).mp hl

/-- Without carriage returns lines and records are the same. -/
theorem lines_eq_records {s : Text} (h : '\r' ∉ s) : lines s = records s := by
  have e : ∀ l ∈ (s.splitOn '\n').dropLast, stripCr l = l := by
    intro l hl
    have hm : l ∈ records s := List.mem_append_left _ hl
    rw [stripCr, if_neg]
    intro hlast
    exact h (mem_of_mem_records hm _ (List.mem_of_getLast? hlast)).1
  simp only [lines, records, List.map_congr_left e, List.map_id']

/-- A text with no whitespace at its ends is its own `trim`. -/
theorem trim_eq_self_of_ends {s : Text} (hhead : ∀ c, s.head? = some c → isWhitespace c = false)
    (hlast : ∀ c, s.getLast? = some c → isWhitespace c = false) : trim s = s := by
  have hstart : trimStart s = s := by
    cases s with
    | nil => rfl
    | cons c s => simp [trimStart, hhead c rfl]
  rw [trim, hstart, List.rdropWhile_eq_self_iff]
  intro hne
  rw [hlast _ (List.getLast?_eq_some_getLast hne)]
  simp

/-- A trimmed text does not start with whitespace. -/
theorem trim_head? {s : Text} {c : Char} (h : (trim s).head? = some c) : isWhitespace c = false := by
  obtain ⟨u, hu⟩ := List.rdropWhile_prefix isWhitespace (trimStart s)
  have hhead : (trimStart s).head? = some c := by
    rw [trim] at h
    rw [← hu, List.head?_append, h]
    rfl
  have hne : trimStart s ≠ [] := by
    intro e
    rw [e] at hhead
    cases hhead
  have hnot := List.head_dropWhile_not isWhitespace hne
  have hc : (trimStart s).head hne = c := by
    rw [List.head?_eq_some_head hne] at hhead
    exact Option.some.inj hhead
  rw [← hc]
  exact hnot

theorem trim_trim (s : Text) : trim (trim s) = trim s :=
  trim_eq_self_of_ends (fun _ h => trim_head? h) fun _ h => trim_getLast? h

theorem splitOn_intercalate_lf {l : List Text} (hne : l ≠ []) (hlf : ∀ x ∈ l, '\n' ∉ x) :
    (List.intercalate ("\n" : Text) l).splitOn '\n' = l := by
  rw [show ("\n" : Text) = ['\n'] from rfl]
  exact List.splitOn_intercalate _ hlf hne

/-- Lines joined and ended are read back. -/
theorem lines_joined_lf {l : List Text} (hne : l ≠ []) (hlf : ∀ x ∈ l, '\n' ∉ x)
    (hcr : ∀ x ∈ l, stripCr x = x) :
    lines (List.intercalate ("\n" : Text) l ++ "\n") = l := by
  have hsplit : (List.intercalate ("\n" : Text) l ++ "\n" : Text).splitOn '\n' = l ++ [[]] := by
    rw [show ("\n" : Text) = ['\n'] from rfl, List.splitOn_append_cons_self,
      List.splitOn_intercalate _ hlf hne]
    rfl
  have hmap : l.map stripCr = l := by
    rw [List.map_congr_left hcr, List.map_id']
  simp only [lines, hsplit, List.dropLast_concat, hmap]
  simp

/-- Lines joined are read back. -/
theorem lines_joined {l : List Text} (hne : l ≠ []) (hlf : ∀ x ∈ l, '\n' ∉ x) (hcr : ∀ x ∈ l, stripCr x = x)
    (hempty : ∀ x ∈ l, x ≠ []) : lines (List.intercalate ("\n" : Text) l) = l := by
  have hmap : l.dropLast.map stripCr = l.dropLast := by
    rw [List.map_congr_left fun x hx => hcr x (List.mem_of_mem_dropLast hx), List.map_id']
  have hlast : l.getLastD [] = l.getLast hne := by
    rw [List.getLastD_eq_getLast?, List.getLast?_eq_some_getLast hne]
    rfl
  simp only [lines, splitOn_intercalate_lf hne hlf, hmap, hlast, hempty _ (List.getLast_mem hne), ↓reduceIte]
  exact List.dropLast_concat_getLast hne

end Text

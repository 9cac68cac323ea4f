import HomeStack.Lib.Words

/-! Notes of `key value` lines: the first line that starts with the key, read after
trimming. -/

namespace Text

def trimEnd (s : Text) : Text := s.rdropWhile isWhitespace

/-- The value of one `key value` line. -/
def entry (key l : Text) : Option Text :=
  ((key.isPrefixOf? (trim l)).bind fun rest => (" " : Text).isPrefixOf? rest).map trim

/-- The value of the first `key value` line of a text. -/
def line (s key : Text) : Option Text := (lines s).findSome? (entry key)

/-- One line, with nothing to trim. -/
def Plain (v : Text) : Prop := v ≠ [] ∧ '\n' ∉ v ∧ trim v = v

instance (v : Text) : Decidable (Plain v) := inferInstanceAs (Decidable (_ ∧ _))

/-! ## Trimming -/

theorem trim_append_whitespace {c : Char} (hc : isWhitespace c = true) (s : Text) :
    trim (s ++ [c]) = trim s := by
  unfold trim trimStart
  rw [List.dropWhile_append]
  split
  · rename_i h
    simp only [List.isEmpty_iff] at h
    simp [h, hc]
  · rw [List.rdropWhile_concat_pos _ _ _ hc]

theorem trim_stripCr (s : Text) : trim (stripCr s) = trim s := by
  unfold stripCr
  split
  · rename_i h
    obtain ⟨t, rfl⟩ := List.getLast?_eq_some_iff.mp h
    rw [List.dropLast_concat, trim_append_whitespace (by decide)]
  · rfl

/-! ## The first line that is read -/

/-- A reading of lines that looks at them trimmed, and reads nothing in an empty one. -/
structure Reads {α : Type} (f : Text → Option α) : Prop where
  trimmed : ∀ l l', trim l = trim l' → f l = f l'
  empty : f [] = none

section

variable {α : Type} {f : Text → Option α} (hf : Reads f)

include hf

/-- Lines are the pieces between line feeds. -/
theorem findSome?_lines (s : Text) : (lines s).findSome? f = (s.splitOn '\n').findSome? f := by
  have hne : s.splitOn '\n' ≠ [] := List.splitOn_ne_nil _ _
  have hcr : ∀ l : List Text, (l.map stripCr).findSome? f = l.findSome? f := by
    intro l
    rw [List.findSome?_map]
    congr 1
    funext x
    exact hf.trimmed _ _ (trim_stripCr x)
  have hlast : (s.splitOn '\n').getLastD [] = (s.splitOn '\n').getLast hne := by
    rw [List.getLastD_eq_getLast?, List.getLast?_eq_some_getLast hne]
    rfl
  have hsplit := List.dropLast_concat_getLast hne
  rw [← hlast] at hsplit
  unfold lines
  simp only
  rw [List.findSome?_append, hcr]
  nth_rewrite 5 [← hsplit]
  rw [List.findSome?_append]
  split
  · rename_i h
    rw [h]
    simp [hf.empty]
  · rfl

theorem findSome?_lines_append_lf (a b : Text) :
    (lines (a ++ '\n' :: b)).findSome? f = ((lines a).findSome? f).or ((lines b).findSome? f) := by
  rw [findSome?_lines hf, findSome?_lines hf, findSome?_lines hf,
    List.splitOn_append_cons_self, List.findSome?_append]

theorem findSome?_lines_single {l : Text} (h : '\n' ∉ l) : (lines l).findSome? f = f l := by
  rw [findSome?_lines hf, List.splitOn_eq_singleton h, List.findSome?_singleton]

end

/-- A character after the last line feed is in the last piece. -/
theorem splitOn_concat {c : Char} (hc : c ≠ '\n') (s : Text) :
    ∃ before last, s.splitOn '\n' = before ++ [last] ∧ (s ++ [c]).splitOn '\n' = before ++ [last ++ [c]] := by
  induction s with
  | nil => exact ⟨[], [], by simp, by simp [List.splitOn_eq_singleton, hc.symm]⟩
  | cons x s ih =>
    obtain ⟨before, last, hs, hsc⟩ := ih
    rw [List.splitOn_eq_splitOnP] at hs hsc
    rw [List.splitOn_eq_splitOnP, List.splitOn_eq_splitOnP, List.cons_append,
      List.splitOnP_cons_eq_if_modifyHead,
      List.splitOnP_cons_eq_if_modifyHead, hs, hsc]
    split
    · exact ⟨[] :: before, last, rfl, rfl⟩
    · cases before with
      | nil => exact ⟨[], x :: last, rfl, rfl⟩
      | cons b before => exact ⟨(x :: b) :: before, last, rfl, rfl⟩

section

variable {α : Type} {f : Text → Option α} (hf : Reads f)

include hf

theorem findSome?_lines_append_whitespace {c : Char} (hc : isWhitespace c = true) (s : Text) :
    (lines (s ++ [c])).findSome? f = (lines s).findSome? f := by
  by_cases hlf : c = '\n'
  · subst hlf
    rw [findSome?_lines_append_lf hf]
    simp [lines]
  · obtain ⟨before, last, hs, hsc⟩ := splitOn_concat hlf s
    rw [findSome?_lines hf, findSome?_lines hf, hs, hsc, List.findSome?_append, List.findSome?_append]
    simp only [List.findSome?_singleton, hf.trimmed _ _ (trim_append_whitespace hc last)]

/-- What is trimmed at the end holds nothing that is read. -/
theorem findSome?_lines_trimEnd (s : Text) : (lines (trimEnd s)).findSome? f = (lines s).findSome? f := by
  unfold trimEnd
  induction s using List.reverseRecOn with
  | nil => rfl
  | append_singleton s c ih =>
    by_cases hc : isWhitespace c = true
    · rw [List.rdropWhile_concat_pos _ _ _ hc, ih, findSome?_lines_append_whitespace hf hc]
    · rw [List.rdropWhile_concat_neg _ _ _ hc]

end

/-! ## Entries -/

theorem reads_entry {key : Text} (hkey : key ≠ []) : Reads (entry key) where
  trimmed l l' h := by
    unfold entry
    rw [h]
  empty := by
    cases key with
    | nil => exact absurd rfl hkey
    | cons c key => rfl

theorem all_whitespace_of_trim {s : Text} (h : trim s = []) : ∀ c ∈ s, isWhitespace c = true := by
  unfold trim trimStart at h
  have hstart : s.dropWhile isWhitespace = [] := by
    by_contra hne
    have hall := List.rdropWhile_eq_nil_iff.mp h
    have hhead := List.head_dropWhile_not isWhitespace hne
    rw [hall _ (List.head_mem hne)] at hhead
    cases hhead
  exact List.dropWhile_eq_nil_iff.mp hstart

/-- The value of a line is plain. -/
theorem entry_plain {key l v : Text} (hl : '\n' ∉ l) (h : entry key l = some v) : Plain v := by
  unfold entry at h
  obtain ⟨w, hw, rfl⟩ := Option.map_eq_some_iff.mp h
  obtain ⟨rest, hrest, hspace⟩ := Option.bind_eq_some_iff.mp hw
  have hl' : trim l = key ++ (' ' :: w) := by
    rw [isPrefixOf?_some hrest, isPrefixOf?_some hspace]
    rfl
  -- the trimmed line does not end in whitespace, and `w` is its end
  have hlast : ∀ c, (' ' :: w).getLast? = some c → isWhitespace c = false := by
    intro c hc
    refine trim_getLast? (s := l) ?_
    rw [hl', List.getLast?_append, hc]
    rfl
  have hne : trim w ≠ [] := by
    intro hnil
    have hall : ∀ c ∈ w, isWhitespace c = true := all_whitespace_of_trim hnil
    have hmem := List.getLast_mem (List.cons_ne_nil ' ' w)
    have hend := hlast _ (List.getLast?_eq_some_getLast (List.cons_ne_nil ' ' w))
    rcases List.mem_cons.mp hmem with heq | hmem
    · rw [heq] at hend
      exact absurd hend (by decide)
    · rw [hall _ hmem] at hend
      cases hend
  refine ⟨hne, fun hmem => hl (mem_of_mem_trim (s := l) ?_), trim_trim w⟩
  rw [hl']
  exact List.mem_append_right _ (List.mem_cons_of_mem _ (mem_of_mem_trim hmem))

theorem line_plain {s key v : Text} (h : line s key = some v) : Plain v := by
  obtain ⟨l, hl, hv⟩ := List.exists_of_findSome?_eq_some h
  exact entry_plain (lf_not_mem_lines hl) hv

section

variable {key v : Text} (hkey : ∀ c, key.head? = some c → isWhitespace c = false) (hne : key ≠ [])
  (hv : v ≠ []) (htrim : trim v = v)

include hkey hne hv htrim

theorem trim_key : trim (key ++ ' ' :: v) = key ++ ' ' :: v := by
  refine trim_eq_self_of_ends ?_ ?_
  · intro c hc
    cases key with
    | nil => exact absurd rfl hne
    | cons k key => exact hkey c hc
  · intro c hc
    rw [List.getLast?_append, List.getLast?_cons_of_ne_nil hv] at hc
    refine trim_getLast? (s := v) ?_
    rw [htrim]
    rw [List.getLast?_eq_some_getLast hv] at hc ⊢
    exact hc

/-- A plain value is read back from its line. -/
theorem entry_key : entry key (key ++ ' ' :: v) = some v := by
  unfold entry
  rw [trim_key hkey hne hv htrim, isPrefixOf?_append]
  simp only [Option.bind_some]
  rw [show ' ' :: v = (" " : Text) ++ v from rfl, isPrefixOf?_append, Option.map_some, htrim]

/-- It is not read under another key. -/
theorem entry_other {other : Text} (hspace : ' ' ∉ key) (hspace' : ' ' ∉ other) (hother : other ≠ key) :
    entry other (key ++ ' ' :: v) = none := by
  unfold entry
  rw [trim_key hkey hne hv htrim, Option.map_eq_none_iff, Option.bind_eq_none_iff]
  intro rest hrest
  by_contra hsome
  obtain ⟨w, hw⟩ := Option.ne_none_iff_exists'.mp hsome
  have heq : key ++ ' ' :: v = other ++ ' ' :: w := by
    rw [isPrefixOf?_some hrest, isPrefixOf?_some hw]
    rfl
  exact hother (append_sep_inj hspace hspace' heq).1.symm

end

/-- The first line of a text. -/
theorem lines_head {l : Text} (h : '\n' ∉ l) (s : Text) :
    (lines (l ++ '\n' :: s)).head? = some (stripCr l) := by
  have hne : s.splitOn '\n' ≠ [] := List.splitOn_ne_nil _ _
  unfold lines
  simp only [List.splitOn_append_cons_self, List.splitOn_eq_singleton h, List.cons_append, List.nil_append,
    List.dropLast_cons_of_ne_nil hne, List.map_cons, List.head?_cons]

end Text

import HomeStack.Lib.Result
import HomeStack.ShellProfile

/-! The edits of `.bashrc` settle: an edit made again changes nothing, and the lines that are
neither the block nor a declared export stay, exactly when no line is ended by anything but a
line feed. -/

namespace HomeStack.Setup

open Text

/-! ## What is accepted -/

/-- The export lines `definitions::exports` returns. -/
structure Accepted (declared : List Text) : Prop where
  equals : ∀ x ∈ declared, '=' ∈ x
  valid : ∀ x ∈ declared, validKey (exportKey x) = true
  keys : (declared.map exportKey).Nodup

theorem addExport_ok {lines lines' : List Text} {text : Text} (h : addExport lines text = .ok lines') :
    ∃ x, lines' = lines ++ [x] ∧ '=' ∈ x ∧ validKey (exportKey x) = true ∧
      exportKey x ∉ lines.map exportKey := by
  unfold addExport at h
  simp only at h
  split at h
  · cases h
  · rename_i hequals
    split at h
    · cases h
    · rename_i hvalid
      split at h
      · cases h
      · rename_i hkey
        cases h
        rw [not_or] at hvalid
        exact ⟨_, rfl, not_not.mp hequals, by simpa using hvalid.1, hkey⟩

theorem exports_accepted {value : Json} {declared : List Text} (h : exports value = .ok declared) :
    Accepted declared := by
  unfold exports at h
  obtain ⟨lines, -, hfold⟩ := Except.bind_ok h
  refine Except.foldlM_ok (I := fun _ acc => Accepted acc) ?_ ⟨by simp, by simp, by simp⟩ hfold
  intro done text lines lines' hacc hadd
  obtain ⟨x, rfl, hequals, hvalid, hkey⟩ := addExport_ok hadd
  refine ⟨?_, ?_, ?_⟩
  · intro y hy
    rcases List.mem_append.mp hy with hy | hy
    · exact hacc.equals y hy
    · rwa [List.mem_singleton.mp hy]
  · intro y hy
    rcases List.mem_append.mp hy with hy | hy
    · exact hacc.valid y hy
    · rwa [List.mem_singleton.mp hy]
  · rw [List.map_append, List.nodup_append]
    refine ⟨hacc.keys, by simp, ?_⟩
    intro k hk k' hk' heq
    subst heq
    simp only [List.map_cons, List.map_nil, List.mem_singleton] at hk'
    exact hkey (hk' ▸ hk)

theorem exportKey_split {x : Text} (h : '=' ∈ x) : ∃ value, x = exportKey x ++ '=' :: value := by
  induction x with
  | nil => simp at h
  | cons c x ih =>
    by_cases hc : c = '='
    · exact ⟨x, by simp [exportKey, hc]⟩
    · obtain ⟨value, hx⟩ := ih ((List.mem_cons.mp h).resolve_left (Ne.symm hc))
      refine ⟨value, ?_⟩
      rw [exportKey, List.takeWhile_cons_of_pos (by simpa using hc), List.cons_append, ← exportKey, ← hx]

theorem equals_not_mem_exportKey (x : Text) : '=' ∉ exportKey x := by
  intro h
  have := List.mem_takeWhile_imp h
  simp at this

theorem validKey_head {key : Text} (h : validKey key = true) :
    ∃ c rest, key = c :: rest ∧ isSpace c = false := by
  cases key with
  | nil => cases h
  | cons c rest =>
    refine ⟨c, rest, rfl, ?_⟩
    unfold validKey at h
    simp only [List.head?_cons, Option.any_some, Bool.and_eq_true, Bool.or_eq_true, decide_eq_true_eq] at h
    have hrange : 64 < c.toNat ∧ c.toNat < 123 := by
      rcases h.1 with h | rfl
      · simp only [Char.isAlpha, Char.isUpper, Char.isLower, Bool.or_eq_true,
          Bool.and_eq_true, decide_eq_true_eq,
          UInt32.le_iff_toNat_le] at h
        have hA : 'A'.val.toNat = 65 := rfl
        have hZ : 'Z'.val.toNat = 90 := rfl
        have ha : 'a'.val.toNat = 97 := rfl
        have hz : 'z'.val.toNat = 122 := rfl
        have hc : c.toNat = c.val.toNat := rfl
        omega
      · decide
    simp only [isSpace, isWhitespace, Bool.or_eq_false_iff, Bool.and_eq_false_iff, decide_eq_false_iff_not]
    omega

section

variable {declared : List Text} (hacc : Accepted declared)

include hacc

/-- The line of an export has its key. -/
theorem exportOf_exportLine : ∀ x ∈ declared, exportOf x (exportLine x) = true := by
  intro x hx
  obtain ⟨value, hsplit⟩ := exportKey_split (hacc.equals x hx)
  obtain ⟨c, rest, hkey, hc⟩ := validKey_head (hacc.valid x hx)
  have hdrop : x.dropWhile isSpace = x := by
    rw [hsplit, hkey, List.cons_append, List.dropWhile_cons_of_neg (by simp [hc])]
  have hline : ("export" : Text).isPrefixOf? ((exportLine x).dropWhile isSpace) = some (' ' :: x) := by
    rw [show (exportLine x).dropWhile isSpace = ("export" : Text) ++ ' ' :: x from rfl, isPrefixOf?_append]
  have hpre : (exportKey x ++ ['=']).isPrefixOf x = true := by
    rw [List.isPrefixOf_iff_prefix]
    exact ⟨value, by rw [List.append_assoc]; exact hsplit.symm⟩
  rw [exportOf, hline, Option.any_some, List.dropWhile_cons_of_pos (by decide), hdrop, hpre]
  rfl

/-- A line has one key. -/
theorem exportOf_apart :
    ∀ x ∈ declared, ∀ y ∈ declared, x ≠ y → ∀ l, exportOf x l = true → exportOf y l = false := by
  intro x hx y hy hne l hxl
  by_contra hyl
  rw [Bool.not_eq_false] at hyl
  unfold exportOf at hxl hyl
  cases hrest : ("export" : Text).isPrefixOf? (l.dropWhile isSpace) with
  | none =>
    rw [hrest] at hxl
    cases hxl
  | some rest =>
    simp only [hrest, Option.any_some, Bool.and_eq_true, List.isPrefixOf_iff_prefix] at hxl hyl
    obtain ⟨v, hv⟩ := hxl.2
    obtain ⟨w, hw⟩ := hyl.2
    have heq : exportKey x ++ '=' :: v = exportKey y ++ '=' :: w := by
      have := hv.trans hw.symm
      simpa using this
    have hkey := (append_sep_inj (equals_not_mem_exportKey x) (equals_not_mem_exportKey y) heq).1
    exact hne (List.inj_on_of_nodup_map hacc.keys hx hy hkey)

end

theorem exportOf_profileBegin (x : Text) : exportOf x profileBegin = false := rfl

theorem exportOf_profileEnd (x : Text) : exportOf x profileEnd = false := rfl

/-! ## The block -/

theorem not_mem_take_idxOf {α : Type} [BEq α] [LawfulBEq α] (a : α) (l : List α) :
    a ∉ l.take (l.idxOf a) := by
  induction l with
  | nil => simp
  | cons b l ih =>
    by_cases h : b = a
    · simp [h]
    · rw [List.idxOf_cons_ne _ h, List.take_succ_cons]
      simp [Ne.symm h, ih]

theorem profileBegin_not_mem_before (block : Text) (lines : List Text) :
    profileBegin ∉ lines.take (ownedSpan block lines).1 := by
  unfold ownedSpan
  simp only
  split
  · exact not_mem_take_idxOf _ _
  · simp

theorem ownedSpan_le (block : Text) (lines : List Text) :
    (ownedSpan block lines).1 ≤ (ownedSpan block lines).2 := by
  unfold ownedSpan
  simp only
  split
  · simp only
    omega
  · exact Nat.zero_le _

theorem idxOf_append_cons {α : Type} [BEq α] [LawfulBEq α] {a : α} {l : List α} (h : a ∉ l) (r : List α) :
    (l ++ a :: r).idxOf a = l.length := by
  rw [List.idxOf_append_of_notMem h, List.idxOf_cons_self, Nat.add_zero]

/-- A marked block is replaced in its place. -/
theorem mergedProfile_marked (block : Text) {a b c : List Text}
    (ha : profileBegin ∉ a) (hb : profileEnd ∉ b) :
    mergedProfile block (a ++ profileBegin :: (b ++ profileEnd :: c)) = a ++ managedLines block ++ c := by
  have hstart := idxOf_append_cons ha (b ++ profileEnd :: c)
  have hdrop : (a ++ profileBegin :: (b ++ profileEnd :: c)).drop a.length =
      (profileBegin :: b) ++ profileEnd :: c := by
    simp
  have hend : ((profileBegin :: b) ++ profileEnd :: c).idxOf profileEnd = b.length + 1 := by
    refine idxOf_append_cons ?_ c
    rw [List.mem_cons, not_or]
    exact ⟨by decide, hb⟩
  have hspan : ownedSpan block (a ++ profileBegin :: (b ++ profileEnd :: c)) =
      (a.length, a.length + (b.length + 1) + 1) := by
    unfold ownedSpan
    simp only
    rw [hstart, hdrop, hend, if_pos ⟨by simp, by simp⟩]
  have hafter : (a ++ profileBegin :: (b ++ profileEnd :: c)).drop (a.length + (b.length + 1) + 1) = c := by
    rw [show a ++ profileBegin :: (b ++ profileEnd :: c) =
      (a ++ profileBegin :: (b ++ [profileEnd])) ++ c by simp]
    exact List.drop_left' (by simp; omega)
  unfold mergedProfile
  simp only
  rw [hspan, hafter]
  simp

/-- The lines around the block. -/
theorem mergedProfile_around (block : Text) (lines : List Text) :
    mergedProfile block lines = lines.take (ownedSpan block lines).1 ++ profileBegin ::
      (blockLines block ++ profileEnd :: lines.drop (ownedSpan block lines).2) := by
  simp [mergedProfile, managedLines]

/-- The block is found again exactly when it has no end mark of its own. -/
theorem mergedProfile_again (block : Text) (lines : List Text) :
    mergedProfile block (mergedProfile block lines) = mergedProfile block lines ↔
      profileEnd ∉ blockLines block := by
  have ha := profileBegin_not_mem_before block lines
  rw [mergedProfile_around block lines]
  refine ⟨fun h hmem => ?_, fun hb => ?_⟩
  · obtain ⟨b, b', hblock, hb⟩ := List.eq_append_cons_of_mem hmem
    rw [hblock, List.append_assoc, List.cons_append, mergedProfile_marked block ha hb] at h
    have hlen := congrArg List.length h
    simp only [managedLines, hblock, List.length_append, List.length_cons, List.length_nil] at hlen
    omega
  · rw [mergedProfile_marked block ha hb]
    simp [managedLines]

theorem mem_mergedProfile {block : Text} {lines : List Text} {l : Text} (h : l ∈ mergedProfile block lines) :
    l ∈ lines ∨ l ∈ managedLines block := by
  unfold mergedProfile at h
  rcases List.mem_append.mp h with h | h
  · rcases List.mem_append.mp h with h | h
    · exact .inl (List.mem_of_mem_take h)
    · exact .inr h
  · exact .inl (List.mem_of_mem_drop h)

theorem unbroken_managedLines {block l : Text} (h : l ∈ managedLines block) : Unbroken l := by
  rcases List.mem_cons.mp h with rfl | h
  · decide
  · rcases List.mem_append.mp h with h | h
    · exact unbroken_of_mem_splitlines h
    · rw [List.mem_singleton.mp h]
      decide

theorem unbroken_mergedProfile {block text l : Text} (h : l ∈ mergedProfile block (splitlines text)) :
    Unbroken l :=
  (mem_mergedProfile h).elim unbroken_of_mem_splitlines unbroken_managedLines

theorem mergedProfile_ne_nil (block : Text) (lines : List Text) : mergedProfile block lines ≠ [] := by
  simp [mergedProfile_around]

theorem unbroken_exportLine {x : Text} : Unbroken (exportLine x) ↔ Unbroken x := by
  refine ⟨fun h c hc => h c (List.mem_append_right _ hc), fun h => ?_⟩
  exact Unbroken.append (by decide) h

theorem unbroken_mergedExports {declared lines : List Text} (hdeclared : ∀ x ∈ declared, Unbroken x)
    (hlines : ∀ l ∈ lines, Unbroken l) : ∀ l ∈ mergedExports lines declared, Unbroken l := by
  intro l hl
  rcases Upsert.mem_upserts hl with ⟨x, hx, rfl⟩ | hl
  · exact unbroken_exportLine.2 (hdeclared x hx)
  · exact hlines l hl

/-! ## A block of directories without line breaks -/

theorem unbroken_shellQuote {s : Text} (h : Unbroken s) : Unbroken (shellQuote s) := by
  unfold shellQuote
  split
  · decide
  · split
    · exact h
    · refine Unbroken.append (Unbroken.append (by decide) ?_) (by decide)
      intro c hc
      obtain ⟨d, hd, hcd⟩ := List.mem_flatMap.mp hc
      split at hcd
      · exact (show Unbroken "'\"'\"'" by decide) c hcd
      · rw [List.mem_singleton.mp hcd]
        exact h d hd

theorem unbroken_binPrefix : Unbroken binPrefix := Text.of_literal (P := Unbroken) (by decide)

theorem unbroken_caseLine : Unbroken caseLine := Text.of_literal (P := Unbroken) (by decide)

theorem unbroken_posixPathLines {bins : List Text} (h : ∀ path ∈ bins, Unbroken path) :
    ∀ l ∈ posixPathLines bins, Unbroken l := by
  intro l hl
  rcases List.mem_append.mp hl with hl | hl
  · obtain ⟨path, hpath, hl⟩ := List.mem_flatMap.mp hl
    have hquote : Unbroken (shellQuote (path.drop 2)) :=
      unbroken_shellQuote fun c hc => h path (List.mem_reverse.mp hpath) c (List.mem_of_mem_drop hc)
    rcases List.mem_cons.mp hl with rfl | hl
    · exact Unbroken.append unbroken_binPrefix hquote
    · rw [List.mem_singleton.mp hl]
      exact unbroken_caseLine
  · rcases List.mem_cons.mp hl with rfl | hl
    · exact Text.of_literal (P := Unbroken) (by decide)
    · rw [List.mem_singleton.mp hl]
      exact Text.of_literal (P := Unbroken) (by decide)

/-- The lines after the paths neither end the block nor export. -/
theorem completionLines_heads : ∀ l ∈ completionLines,
    l.head? ∈ [some 'c', some ' ', some ';'] ∧
      (l.dropWhile isSpace).head? ∈ [some 'c', some 'i', some '.', some 'f', some ';'] := by
  unfold completionLines
  simp only [List.forall_mem_cons]
  refine ⟨?_, ?_, ?_, ?_, ?_, nofun⟩
  all_goals exact Text.of_literal (P := fun l => l.head? ∈ [some 'c', some ' ', some ';'] ∧
    (l.dropWhile isSpace).head? ∈ [some 'c', some 'i', some '.', some 'f', some ';']) (by decide)

/-- The block is read as its lines. -/
theorem blockLines_bashBlock {bins : List Text} (h : ∀ path ∈ bins, Unbroken path) :
    blockLines (bashBlock bins) = posixPathLines bins ++ completionLines := by
  have hlast : (bashBlock bins).rdropWhile isSpace = bashBlock bins := by
    unfold bashBlock
    rw [List.rdropWhile_eq_self_iff]
    intro hne
    have hend : ∃ hne : List.intercalate "\n" completionLines ≠ [],
        ¬ isSpace ((List.intercalate "\n" completionLines).getLast hne) = true :=
      Text.of_literals₅ (P := fun a b c d e => ∃ hne : List.intercalate "\n" [a, b, c, d, e] ≠ [],
        ¬ isSpace ((List.intercalate "\n" [a, b, c, d, e]).getLast hne) = true) (by decide)
    rw [List.getLast_append_of_ne_nil _ hend.fst]
    exact hend.snd
  have hlines : bashBlock bins = List.intercalate ['\n'] (posixPathLines bins) ++ '\n' ::
      List.intercalate "\n" completionLines := by
    rw [bashBlock, posixPaths, List.append_assoc]
    rfl
  have hcompletion : (keepLines (List.intercalate "\n" completionLines)).map Prod.fst = completionLines :=
    Text.of_literals₅ (P := fun a b c d e =>
      (keepLines (List.intercalate "\n" [a, b, c, d, e])).map Prod.fst =
      [a, b, c, d, e]) (by decide +kernel)
  rw [blockLines, hlast, splitlines, hlines,
    keepLines_intercalate_lf (by simp [posixPathLines]) (unbroken_posixPathLines h),
    List.map_append, List.map_map, hcompletion,
      show (Prod.fst ∘ fun l : Text => (l, ['\n'])) = id from rfl, List.map_id]

theorem exportOf_of_head {l : Text} (h : (l.dropWhile isSpace).head? ≠ some 'e') (x : Text) :
    exportOf x l = false := by
  unfold exportOf
  cases hl : l.dropWhile isSpace with
  | nil => rfl
  | cons c rest =>
    rw [hl] at h
    have hc : 'e' ≠ c := fun heq => h (by rw [heq, List.head?_cons])
    have hnone : ("export" : Text).isPrefixOf? (c :: rest) = none := isPrefixOf?_none_of_head _ rest hc
    rw [hnone]
    rfl

theorem profileEnd_head : profileEnd.head? = some '#' :=
  Text.of_literal (P := fun l => l.head? = some '#') rfl

/-- A line by its first character and its first one that is not a space. -/
theorem plain_of_heads {l : Text} (h : l.head? ≠ some '#') (h' : (l.dropWhile isSpace).head? ≠ some 'e') :
    l ≠ profileEnd ∧ ∀ x, exportOf x l = false := by
  refine ⟨?_, exportOf_of_head h'⟩
  rintro rfl
  exact h profileEnd_head

theorem binPrefix_heads (s : Text) :
    (binPrefix ++ s).head? = some '_' ∧ ((binPrefix ++ s).dropWhile isSpace).head? = some '_' :=
  Text.of_literal (P := fun l => (l ++ s).head? = some '_' ∧
    ((l ++ s).dropWhile isSpace).head? = some '_') ⟨rfl, rfl⟩

theorem caseLine_heads : caseLine.head? = some 'c' ∧ (caseLine.dropWhile isSpace).head? = some 'c' :=
  Text.of_literal (P := fun l => l.head? = some 'c' ∧ (l.dropWhile isSpace).head? = some 'c') ⟨rfl, rfl⟩

theorem exportOf_exportPath (x : Text) : exportOf x "export PATH" = false := by
  have hnot : (exportKey x ++ ['=']).isPrefixOf ("PATH" : Text) = false := by
    by_contra h
    rw [Bool.not_eq_false, List.isPrefixOf_iff_prefix] at h
    have hmem : '=' ∈ ("PATH" : Text) := h.subset (by simp)
    revert hmem
    decide
  exact hnot

/-- A line of the block. -/
theorem blockLines_cases {bins : List Text} (h : ∀ path ∈ bins, Unbroken path) {l : Text}
    (hl : l ∈ blockLines (bashBlock bins)) : (∃ s, l = binPrefix ++ s) ∨ l = caseLine ∨ l = "export PATH" ∨
      l = "unset _hs_bin" ∨ l ∈ completionLines := by
  rw [blockLines_bashBlock h] at hl
  rcases List.mem_append.mp hl with hl | hl
  · rcases List.mem_append.mp hl with hl | hl
    · obtain ⟨path, -, hl⟩ := List.mem_flatMap.mp hl
      rcases List.mem_cons.mp hl with rfl | hl
      · exact Or.inl ⟨_, rfl⟩
      · exact Or.inr (Or.inl (List.mem_singleton.mp hl))
    · rcases List.mem_cons.mp hl with rfl | hl
      · exact Or.inr (Or.inr (Or.inl rfl))
      · exact Or.inr (Or.inr (Or.inr (Or.inl (List.mem_singleton.mp hl))))
  · exact Or.inr (Or.inr (Or.inr (Or.inr hl)))

/-- Directories without line breaks give a block without its end mark and without export lines. -/
theorem mem_blockLines {bins : List Text} (h : ∀ path ∈ bins, Unbroken path) {l : Text}
    (hl : l ∈ blockLines (bashBlock bins)) : l ≠ profileEnd ∧ ∀ x, exportOf x l = false := by
  rcases blockLines_cases h hl with ⟨s, rfl⟩ | rfl | rfl | rfl | hl
  · obtain ⟨hhead, hword⟩ := binPrefix_heads s
    exact plain_of_heads (by rw [hhead]; decide) (by rw [hword]; decide)
  · exact plain_of_heads (by rw [caseLine_heads.1]; decide) (by rw [caseLine_heads.2]; decide)
  · have hhead : ("export PATH" : Text).head? ≠ some '#' :=
      Text.of_literal (P := fun l => l.head? ≠ some '#') (by decide)
    exact ⟨fun heq => hhead (heq ▸ profileEnd_head), exportOf_exportPath⟩
  · exact plain_of_heads (Text.of_literal (P := fun l => l.head? ≠ some '#') (by decide))
      (Text.of_literal (P := fun l => (l.dropWhile isSpace).head? ≠ some 'e') (by decide))
  · obtain ⟨hhead, hword⟩ := completionLines_heads l hl
    refine plain_of_heads (fun heq => ?_) (fun heq => ?_)
    · rw [heq] at hhead
      revert hhead
      decide
    · rw [heq] at hword
      revert hword
      decide

theorem head?_of_mem_blockLines {bins : List Text} (h : ∀ path ∈ bins, Unbroken path) {l : Text}
    (hl : l ∈ blockLines (bashBlock bins)) : l.head? ≠ some 'l' := by
  rcases blockLines_cases h hl with ⟨s, rfl⟩ | rfl | rfl | rfl | hl
  · rw [(binPrefix_heads s).1]
    decide
  · rw [caseLine_heads.1]
    decide
  · exact Text.of_literal (P := fun l => l.head? ≠ some 'l') (by decide)
  · exact Text.of_literal (P := fun l => l.head? ≠ some 'l') (by decide)
  · obtain ⟨hhead, -⟩ := completionLines_heads l hl
    intro heq
    rw [heq] at hhead
    revert hhead
    decide

/-! ## What is kept -/

/-- The lines of a text outside the block and the declared exports, each with its end. -/
def keptLines (block : Text) (declared : List Text) (text : Text) : List (Text × Text) :=
  let span := ownedSpan block (splitlines text)
  ((keepLines text).take span.1 ++ (keepLines text).drop span.2).filter fun l =>
    !declared.any (exportOf · l.1)

/-- A line that has its end. -/
def finished (l : Text × Text) : Text × Text := if l.2 = [] then (l.1, ['\n']) else l

/-- The kept lines of a text are in the result, in their order and with their bytes, up to a
final newline; and the result has no lines but those of the text and of the two edits. -/
structure Keeps (block : Text) (declared : List Text) (text result : Text) : Prop where
  kept : ((keptLines block declared text).map finished).Sublist (keepLines result)
  only : result = ['\n'] ∨
    (splitlines result).Subperm (splitlines text ++ (managedLines block ++ declared.map exportLine))

/-- Each declared key has one line, with the declared text. -/
def Declares (declared : List Text) (result : Text) : Prop :=
  ∀ x ∈ declared, (splitlines result).filter (exportOf x) = [exportLine x]

/-- The lines before the block. -/
def linesBefore (block text : Text) : List Text :=
  (splitlines text).take (ownedSpan block (splitlines text)).1

/-- Nothing the edits write or keep ends a line but a line feed, and the block has neither its
end mark nor an export line that the exports would change. -/
structure Clean (block : Text) (declared : List Text) (text : Text) : Prop where
  exports : ∀ x ∈ declared, Unbroken x
  ends : ∀ l ∈ keptLines block declared text, l.2 = ['\n'] ∨ l.2 = []
  mark : profileEnd ∉ blockLines block
  block : ∀ x ∈ declared, (blockLines block).filter (exportOf x) = [] ∨
    (blockLines block).filter (exportOf x) = [exportLine x] ∧
      (linesBefore block text).filter (exportOf x) = []

/-- With directories without line breaks, only the exports and the kept lines matter. -/
theorem clean_iff {bins declared : List Text} {text : Text} (h : ∀ path ∈ bins, Unbroken path) :
    Clean (bashBlock bins) declared text ↔ (∀ x ∈ declared, Unbroken x) ∧
      ∀ l ∈ keptLines (bashBlock bins) declared text, l.2 = ['\n'] ∨ l.2 = [] := by
  refine ⟨fun hclean => ⟨hclean.exports, hclean.ends⟩, fun ⟨hplain, hends⟩ => ⟨hplain, hends, ?_, ?_⟩⟩
  · exact fun hmem => (mem_blockLines h hmem).1 rfl
  · intro x _
    refine .inl (List.filter_eq_nil_iff.mpr fun l hl => ?_)
    simp [(mem_blockLines h hl).2 x]

theorem take_append_drop_sublist {α : Type} {i j : Nat} (h : i ≤ j) (l : List α) :
    (l.take i ++ l.drop j).Sublist l := by
  have hdrop : (l.drop j).Sublist (l.drop i) := by
    obtain ⟨k, rfl⟩ := Nat.exists_eq_add_of_le h
    rw [← List.drop_drop]
    exact List.drop_sublist _ _
  nth_rewrite 3 [← List.take_append_drop i l]
  exact (List.Sublist.refl _).append hdrop

/-- The kept lines without their ends. -/
theorem keptLines_map (block : Text) (declared : List Text) (text : Text) :
    (keptLines block declared text).map Prod.fst =
      ((splitlines text).take (ownedSpan block (splitlines text)).1 ++
        (splitlines text).drop (ownedSpan block (splitlines text)).2).filter fun l =>
          !declared.any (exportOf · l) := by
  unfold keptLines
  simp only
  rw [splitlines, ← List.map_take, ← List.map_drop, ← List.map_append, List.filter_map]
  rfl

theorem keptLines_sublist (block : Text) (declared : List Text) (text : Text) :
    (keptLines block declared text).Sublist (keepLines text) :=
  List.filter_sublist.trans (take_append_drop_sublist (ownedSpan_le _ _) _)

theorem finished_eq {l : Text × Text} (h : l.2 = ['\n'] ∨ l.2 = []) : finished l = (l.1, ['\n']) := by
  unfold finished
  rcases h with h | h
  · rw [if_neg (by simp [h]), ← h]
  · rw [if_pos h]

/-- Kept lines in a text that is joined again. -/
theorem kept_joinLines {block text : Text} {declared lines : List Text}
    (hends : ∀ l ∈ keptLines block declared text, l.2 = ['\n'] ∨ l.2 = []) (hne : lines ≠ [])
    (hlines : ∀ l ∈ lines, Unbroken l) (h : ((keptLines block declared text).map Prod.fst).Sublist lines) :
    ((keptLines block declared text).map finished).Sublist (keepLines (joinLines lines)) := by
  rw [keepLines_joinLines hne hlines]
  have hmap : (keptLines block declared text).map finished =
      ((keptLines block declared text).map Prod.fst).map (·, ['\n']) := by
    rw [List.map_map]
    exact List.map_congr_left fun l hl => finished_eq (hends l hl)
  rw [hmap]
  exact h.map _

/-- The environment keeps the lines around its block. -/
theorem kept_mergedProfile (block : Text) (declared : List Text) (text : Text) :
    ((keptLines block declared text).map Prod.fst).Sublist (mergedProfile block (splitlines text)) := by
  rw [keptLines_map]
  refine List.filter_sublist.trans ?_
  unfold mergedProfile
  simp only
  exact (List.sublist_append_left _ _).append (List.Sublist.refl _)

theorem subperm_mergedProfile (block : Text) (lines : List Text) :
    (mergedProfile block lines).Subperm (lines ++ managedLines block) := by
  unfold mergedProfile
  simp only
  rw [List.append_assoc]
  have hcomm : (managedLines block ++ lines.drop (ownedSpan block lines).2).Perm
      (lines.drop (ownedSpan block lines).2 ++ managedLines block) := List.perm_append_comm
  have hswap := hcomm.append_left (lines.take (ownedSpan block lines).1)
  rw [← List.append_assoc _ _ (managedLines block)] at hswap
  exact hswap.subperm.trans ((take_append_drop_sublist (ownedSpan_le _ _) _).append
    (List.Sublist.refl _)).subperm

/-! ## The exports edit -/

section

variable {declared : List Text} (hacc : Accepted declared)

include hacc

theorem filter_mergedExports {x : Text} (hx : x ∈ declared) (lines : List Text) :
    (mergedExports lines declared).filter (exportOf x) = [exportLine x] :=
  Upsert.filter_upserts (exportOf_exportLine hacc) (exportOf_apart hacc) (fun _ h => h) hx (.inl hx)

theorem mergedExports_again (lines : List Text) :
    mergedExports (mergedExports lines declared) declared = mergedExports lines declared :=
  Upsert.upserts_eq_self fun _ hx => filter_mergedExports hacc hx lines

/-- The exports keep every other line. -/
theorem kept_mergedExports {block text : Text} {lines : List Text}
    (h : ((keptLines block declared text).map Prod.fst).Sublist lines) :
    ((keptLines block declared text).map Prod.fst).Sublist (mergedExports lines declared) := by
  have hq : ∀ x ∈ declared, ∀ l, exportOf x l = true → (!declared.any (exportOf · l)) = false := by
    intro x hx l hl
    rw [Bool.not_eq_false', List.any_eq_true]
    exact ⟨x, hx, hl⟩
  have hstay := Upsert.filter_not_upserts (exportOf_exportLine hacc) hq (fun _ h => h) lines
  have hfilter : ((keptLines block declared text).map Prod.fst).filter
      (fun l => !declared.any (exportOf · l)) =
      (keptLines block declared text).map Prod.fst := by
    rw [keptLines_map, List.filter_filter]
    simp
  have hsub := h.filter fun l => !declared.any (exportOf · l)
  rw [hfilter, ← hstay] at hsub
  exact hsub.trans List.filter_sublist

end

theorem mergedExports_ne_nil {lines declared : List Text} (h : declared ≠ [] ∨ lines ≠ []) :
    mergedExports lines declared ≠ [] := Upsert.upserts_ne_nil h

theorem mergedExports_eq_nil {lines declared : List Text} (h : mergedExports lines declared = []) :
    declared = [] ∧ lines = [] := by
  by_contra hne
  rw [not_and_or] at hne
  exact mergedExports_ne_nil hne h

/-- The text an edit leaves: the joined lines, or the text that was read as them. -/
theorem writeExports_ok {parses : Text → Bool} {declared : List Text} {text result : Text}
    (h : writeExports parses declared text = .ok result) :
    parses (joinLines (mergedExports (splitlines text) declared)) = true ∧
      ((result = joinLines (mergedExports (splitlines text) declared)) ∨
        result = text ∧ universal text = joinLines (mergedExports (splitlines text) declared)) := by
  unfold writeExports at h
  simp only [splitlines_universal] at h
  split at h
  · rename_i hparses
    refine ⟨hparses, ?_⟩
    split at h
    · cases h
      exact .inl rfl
    · rename_i heq
      cases h
      exact .inr ⟨rfl, (not_not.mp heq).symm⟩
  · cases h

theorem environment_ok {parses : Text → Bool} {bins : List Text} {text result : Text}
    (h : environment parses bins text = .ok result) :
    parses result = true ∧ result = joinLines (mergedProfile (bashBlock bins) (splitlines text)) := by
  unfold environment at h
  simp only [splitlines_universal] at h
  split at h
  · rename_i hparses
    cases h
    exact ⟨hparses, rfl⟩
  · cases h

theorem environment_of_eq {parses : Text → Bool} {bins : List Text} {text : Text}
    (hparses : parses text = true) (h : joinLines (mergedProfile (bashBlock bins) (splitlines text)) = text) :
    environment parses bins text = .ok text := by
  unfold environment
  simp only [splitlines_universal]
  rw [h, if_pos hparses]

theorem writeExports_of_eq {parses : Text → Bool} {declared : List Text} {text : Text}
    (hparses : parses (joinLines (mergedExports (splitlines text) declared)) = true)
    (h : joinLines (mergedExports (splitlines text) declared) = universal text) :
    writeExports parses declared text = .ok text := by
  unfold writeExports
  simp only [splitlines_universal]
  rw [if_pos hparses, if_neg (not_not.mpr h)]

section

variable {parses : Text → Bool} {declared : List Text} (hacc : Accepted declared)
  (hplain : ∀ x ∈ declared, Unbroken x) {text result : Text}
  (h : writeExports parses declared text = .ok result)

include hplain h

/-- What the exports leave is read as the lines they wrote. -/
theorem splitlines_writeExports (hne : mergedExports (splitlines text) declared ≠ []) :
    splitlines result = mergedExports (splitlines text) declared := by
  have hunbroken := unbroken_mergedExports hplain fun l => unbroken_of_mem_splitlines (s := text) (l := l)
  rcases (writeExports_ok h).2 with rfl | ⟨rfl, hsame⟩
  · exact splitlines_joinLines hne hunbroken
  · have hlines := splitlines_joinLines hne hunbroken
    rwa [← hsame, splitlines_universal] at hlines

include hacc

/-- The exports made again change nothing. -/
theorem writeExports_again : writeExports parses declared result = .ok result := by
  have hunbroken := unbroken_mergedExports hplain fun l => unbroken_of_mem_splitlines (s := text) (l := l)
  obtain ⟨hparses, hresult⟩ := writeExports_ok h
  have huniversal : universal result = joinLines (mergedExports (splitlines text) declared) := by
    rcases hresult with rfl | ⟨rfl, hsame⟩
    · exact universal_eq_self (cr_not_mem_joinLines hunbroken)
    · exact hsame
  have hagain : joinLines (mergedExports (splitlines result) declared) =
      joinLines (mergedExports (splitlines text) declared) := by
    by_cases hne : mergedExports (splitlines text) declared = []
    · -- an empty text without exports becomes one empty line
      obtain ⟨rfl, -⟩ := mergedExports_eq_nil hne
      rw [← splitlines_universal result, huniversal, hne]
      rfl
    · rw [splitlines_writeExports hplain h hne, mergedExports_again hacc]
  rw [← hagain] at hparses huniversal
  exact writeExports_of_eq hparses huniversal.symm

theorem declares_writeExports : Declares declared result := by
  intro x hx
  have hne : mergedExports (splitlines text) declared ≠ [] :=
    mergedExports_ne_nil (.inl (List.ne_nil_of_mem hx))
  rw [splitlines_writeExports hplain h hne]
  exact filter_mergedExports hacc hx _

end

/-! ## Both edits -/

/-- After the environment edit (`e`), the exports edit (`x`) or one after the other (`ex`), an
edit made again changes nothing; each declared key has its line; and the rest is kept. -/
structure Converges (parses : Text → Bool) (bins declared : List Text) (text e x ex : Text) : Prop where
  environment : environment parses bins e = .ok e
  exports : writeExports parses declared x = .ok x
  bothEnvironment : Setup.environment parses bins ex = .ok ex
  bothExports : writeExports parses declared ex = .ok ex
  declares : Declares declared x
  bothDeclare : Declares declared ex
  keepsEnvironment : Keeps (bashBlock bins) declared text e
  keepsExports : Keeps (bashBlock bins) declared text x
  keepsBoth : Keeps (bashBlock bins) declared text ex

section

variable {parses : Text → Bool} {bins declared : List Text} {text e x ex : Text} (hacc : Accepted declared)
  (he : environment parses bins text = .ok e) (hx : writeExports parses declared text = .ok x)
  (hex : writeExports parses declared e = .ok ex)

include he

theorem splitlines_environment : splitlines e = mergedProfile (bashBlock bins) (splitlines text) := by
  rw [(environment_ok he).2]
  exact splitlines_joinLines (mergedProfile_ne_nil _ _) fun l => unbroken_mergedProfile

/-- The environment made again changes nothing exactly when the block has no end mark. -/
theorem environment_again : environment parses bins e = .ok e ↔ profileEnd ∉ blockLines (bashBlock bins) := by
  obtain ⟨hparses, heq⟩ := environment_ok he
  rw [← mergedProfile_again (bashBlock bins) (splitlines text), ← splitlines_environment he]
  refine ⟨fun h => ?_, fun h => ?_⟩
  · have hsame := (environment_ok h).2
    nth_rewrite 2 [hsame]
    exact (splitlines_joinLines (mergedProfile_ne_nil _ _) fun l => unbroken_mergedProfile).symm
  · refine environment_of_eq hparses ?_
    rw [h]
    nth_rewrite 2 [heq]
    rw [splitlines_environment he]

theorem keeps_environment (hends : ∀ l ∈ keptLines (bashBlock bins) declared text, l.2 = ['\n'] ∨ l.2 = []) :
    Keeps (bashBlock bins) declared text e where
  kept := by
    rw [(environment_ok he).2]
    exact kept_joinLines hends (mergedProfile_ne_nil _ _) (fun l => unbroken_mergedProfile)
      (kept_mergedProfile _ _ _)
  only := by
    rw [splitlines_environment he, ← List.append_assoc]
    exact .inr ((subperm_mergedProfile _ _).trans (List.sublist_append_left _ _).subperm)

omit he

/-- A text that is read as joined lines ends every line. -/
theorem ends_of_universal {lines : List Text} (hlines : ∀ l ∈ lines, Unbroken l)
    (h : universal text = joinLines lines) :
    ∀ l ∈ keepLines text, l.2 ≠ [] := by
  intro l hl hempty
  have hmem : lfEnd l ∈ keepLines (joinLines lines) := by
    rw [← h, keepLines_universal]
    exact List.mem_map_of_mem hl
  have hend : (lfEnd l).2 = ['\n'] := by
    by_cases hne : lines = []
    · subst hne
      rw [List.mem_singleton.mp hmem]
    · rw [keepLines_joinLines hne hlines] at hmem
      obtain ⟨m, -, hm⟩ := List.mem_map.mp hmem
      rw [← hm]
  simp [lfEnd, hempty] at hend

include hacc hx in
theorem keeps_exports (hplain : ∀ y ∈ declared, Unbroken y)
    (hends : ∀ l ∈ keptLines (bashBlock bins) declared text, l.2 = ['\n'] ∨ l.2 = []) :
    Keeps (bashBlock bins) declared text x := by
  have hunbroken := unbroken_mergedExports hplain fun l => unbroken_of_mem_splitlines (s := text) (l := l)
  have hsub : ((keptLines (bashBlock bins) declared text).map Prod.fst).Sublist (splitlines text) :=
    (keptLines_sublist _ _ _).map _
  by_cases hne : mergedExports (splitlines text) declared = []
  · -- an empty text without exports
    have hempty := (mergedExports_eq_nil hne).2
    have htext : text = [] := keepLines_eq_nil.mp (List.map_eq_nil_iff.mp hempty)
    rw [hempty, List.sublist_nil, List.map_eq_nil_iff] at hsub
    refine ⟨by simp [hsub], .inl ?_⟩
    rcases (writeExports_ok hx).2 with rfl | ⟨-, hsame⟩
    · rw [hne]
      rfl
    · rw [htext] at hsame
      cases hdeclared : mergedExports (splitlines []) declared with
      | nil => rw [hdeclared] at hsame; cases hsame
      | cons l ls => rw [htext, hdeclared] at hne; cases hne
  · refine ⟨?_, .inr ?_⟩
    · rcases (writeExports_ok hx).2 with rfl | ⟨rfl, hsame⟩
      · exact kept_joinLines hends hne hunbroken (kept_mergedExports hacc hsub)
      · have hall := ends_of_universal hunbroken hsame
        have hfinished : (keptLines (bashBlock bins) declared x).map finished =
            (keptLines (bashBlock bins) declared x).map id :=
          List.map_congr_left fun l hl => if_neg (hall l ((keptLines_sublist _ _ _).subset hl))
        rw [hfinished, List.map_id]
        exact keptLines_sublist _ _ _
    · rw [splitlines_writeExports hplain hx hne]
      refine (Upsert.subperm_upserts declared _).trans ?_
      exact ((List.Sublist.refl _).append (List.sublist_append_right _ _)).subperm

include he hex in
theorem both_joined : ex = joinLines (mergedExports (splitlines e) declared) := by
  rcases (writeExports_ok hex).2 with hex | ⟨rfl, hsame⟩
  · exact hex
  · rw [← hsame, (environment_ok he).2]
    exact (universal_eq_self (cr_not_mem_joinLines fun l => unbroken_mergedProfile)).symm

include he in
theorem both_ne_nil : mergedExports (splitlines e) declared ≠ [] :=
  mergedExports_ne_nil (.inr (splitlines_environment he ▸ mergedProfile_ne_nil _ _))

include hacc he hex in
theorem keeps_both (hplain : ∀ y ∈ declared, Unbroken y)
    (hends : ∀ l ∈ keptLines (bashBlock bins) declared text, l.2 = ['\n'] ∨ l.2 = []) :
    Keeps (bashBlock bins) declared text ex := by
  have hlines := splitlines_environment he
  have hunbroken := unbroken_mergedExports hplain fun l => unbroken_of_mem_splitlines (s := e) (l := l)
  refine ⟨?_, .inr ?_⟩
  · rw [both_joined he hex]
    refine kept_joinLines hends (both_ne_nil he) hunbroken (kept_mergedExports hacc ?_)
    rw [hlines]
    exact kept_mergedProfile _ _ _
  · rw [splitlines_writeExports hplain hex (both_ne_nil he), hlines, ← List.append_assoc]
    refine (Upsert.subperm_upserts declared _).trans ?_
    exact (List.subperm_append_right _).mpr (subperm_mergedProfile _ _)

include he hex in
/-- The lines after both edits: the exports on the lines around the block. -/
theorem splitlines_both (hplain : ∀ y ∈ declared, Unbroken y) :
    splitlines ex = mergedExports (linesBefore (bashBlock bins) text ++ profileBegin ::
      (blockLines (bashBlock bins) ++ profileEnd ::
        (splitlines text).drop (ownedSpan (bashBlock bins) (splitlines text)).2)) declared := by
  rw [splitlines_writeExports hplain hex (both_ne_nil he), splitlines_environment he, mergedProfile_around]
  rfl

include hacc he hex in
/-- If the environment then changes nothing, the exports left its block. -/
theorem block_of_environment (hplain : ∀ y ∈ declared, Unbroken y)
    (hmark : profileEnd ∉ blockLines (bashBlock bins)) (h : environment parses bins ex = .ok ex)
    {y : Text} (hy : y ∈ declared) :
    (blockLines (bashBlock bins)).filter (exportOf y) = [] ∨
      (blockLines (bashBlock bins)).filter (exportOf y) = [exportLine y] ∧
        (linesBefore (bashBlock bins) text).filter (exportOf y) = [] := by
  obtain ⟨a, b, c, hseg, ha, hb, hany⟩ :=
    Upsert.upserts_segments (exportOf_exportLine hacc) (exportOf_apart hacc)
    (fun y _ => exportOf_profileBegin y) (fun y _ => exportOf_profileEnd y) (fun _ hy => hy)
    (linesBefore (bashBlock bins) text) (blockLines (bashBlock bins))
    ((splitlines text).drop (ownedSpan (bashBlock bins) (splitlines text)).2)
    (profileBegin_not_mem_before _ _) hmark
  have hsplit : splitlines ex = a ++ profileBegin :: (b ++ profileEnd :: c) :=
    (splitlines_both he hex hplain).trans hseg
  have hsame : mergedProfile (bashBlock bins) (splitlines ex) = splitlines ex := by
    nth_rewrite 2 [(environment_ok h).2]
    exact (splitlines_joinLines (mergedProfile_ne_nil _ _) fun l => unbroken_mergedProfile).symm
  rw [hsplit, mergedProfile_marked _ ha hb, managedLines] at hsame
  have hblock : blockLines (bashBlock bins) = b := by
    simpa using hsame
  have hone := declares_writeExports hacc hplain hex y hy
  rw [hsplit, ← hblock] at hone
  simp only [List.filter_append, List.filter_cons, exportOf_profileBegin,
    exportOf_profileEnd, Bool.false_eq_true,
    if_false] at hone
  by_cases hnil : (blockLines (bashBlock bins)).filter (exportOf y) = []
  · exact .inl hnil
  · -- the one line of the key is in the block
    have hlen := congrArg List.length hone
    have hpos := List.length_pos_iff.mpr hnil
    simp only [List.length_append, List.length_singleton] at hlen
    have ha' : a.filter (exportOf y) = [] := List.length_eq_zero_iff.mp (by omega)
    have hc' : c.filter (exportOf y) = [] := List.length_eq_zero_iff.mp (by omega)
    rw [ha', hc', List.nil_append, List.append_nil] at hone
    refine .inr ⟨hone, ?_⟩
    by_contra hfirst
    exact Upsert.any_iff_filter.mp (hany y hy (Upsert.any_iff_filter.mpr hfirst)) ha'

include hacc he hex in
theorem environment_of_block (hplain : ∀ y ∈ declared, Unbroken y)
    (hmark : profileEnd ∉ blockLines (bashBlock bins))
    (h : ∀ y ∈ declared, (blockLines (bashBlock bins)).filter (exportOf y) = [] ∨
      (blockLines (bashBlock bins)).filter (exportOf y) = [exportLine y] ∧
        (linesBefore (bashBlock bins) text).filter (exportOf y) = []) :
          environment parses bins ex = .ok ex := by
  obtain ⟨a, c, hseg, ha⟩ := Upsert.upserts_fixed (exportOf_exportLine hacc) (exportOf_apart hacc)
    (fun y _ => exportOf_profileBegin y) (fun y _ => exportOf_profileEnd y) (fun _ hy => hy)
    (linesBefore (bashBlock bins) text) (blockLines (bashBlock bins))
    ((splitlines text).drop (ownedSpan (bashBlock bins) (splitlines text)).2)
    (profileBegin_not_mem_before _ _) h
  have hsplit : splitlines ex = a ++ profileBegin :: (blockLines (bashBlock bins) ++ profileEnd :: c) :=
    (splitlines_both he hex hplain).trans hseg
  have hsame : mergedProfile (bashBlock bins) (splitlines ex) = splitlines ex := by
    rw [hsplit, mergedProfile_marked _ ha hmark]
    simp [managedLines]
  have hjoin := both_joined he hex
  have hparses := (writeExports_ok hex).1
  rw [← hjoin] at hparses
  refine environment_of_eq hparses ?_
  rw [hsame, splitlines_writeExports hplain hex (both_ne_nil he)]
  exact hjoin.symm

include he hx hex in
/-- The edits of a profile settle and change nothing else exactly when what they write and keep
is clean. -/
theorem profile_edits_converge_iff {value : Json} (hexports : exports value = .ok declared) :
    Converges parses bins declared text e x ex ↔ Clean (bashBlock bins) declared text := by
  have hacc := exports_accepted hexports
  refine ⟨fun h => ?_, fun h => ?_⟩
  · have hplain : ∀ y ∈ declared, Unbroken y := by
      intro y hy
      have hmem : exportLine y ∈ (splitlines x).filter (exportOf y) := by
        rw [h.declares y hy]
        exact List.mem_singleton_self _
      exact unbroken_exportLine.mp (unbroken_of_mem_splitlines (List.mem_of_mem_filter hmem))
    have hmark := (environment_again he).mp h.environment
    refine ⟨hplain, ?_, hmark, fun y hy => block_of_environment hacc he hex hplain hmark h.bothEnvironment hy⟩
    intro l hl
    have hmem := h.keepsEnvironment.kept.subset (List.mem_map_of_mem hl)
    rw [(environment_ok he).2, keepLines_joinLines (mergedProfile_ne_nil _ _) fun l =>
      unbroken_mergedProfile] at hmem
    obtain ⟨m, -, hm⟩ := List.mem_map.mp hmem
    unfold finished at hm
    split at hm
    · rename_i hempty
      exact .inr hempty
    · exact .inl (by rw [← hm])
  · exact ⟨(environment_again he).mpr h.mark, writeExports_again hacc h.exports hx,
      environment_of_block hacc he hex h.exports h.mark h.block, writeExports_again hacc h.exports hex,
      declares_writeExports hacc h.exports hx, declares_writeExports hacc h.exports hex,
        keeps_environment he h.ends,
      keeps_exports hacc hx h.exports h.ends, keeps_both hacc he hex h.exports h.ends⟩

end

/-- One export, one directory and a text with a line of its own and an old export. -/
theorem profile_edits_converge_sample :
    ∃ e x ex, environment (fun _ => true) ["~/.local/bin"] "ls\nexport A=0\n" = .ok e ∧
      writeExports (fun _ => true) ["A=1"] "ls\nexport A=0\n" = .ok x ∧
      writeExports (fun _ => true) ["A=1"] e = .ok ex ∧
      Converges (fun _ => true) ["~/.local/bin"] ["A=1"] "ls\nexport A=0\n" e x ex := by
  have hclean : Clean (bashBlock ["~/.local/bin"]) ["A=1"] "ls\nexport A=0\n" := by
    refine (clean_iff (by decide)).mpr ⟨by decide, fun l hl => ?_⟩
    have hends : ∀ l ∈ keepLines ("ls\nexport A=0\n" : Text), l.2 = ['\n'] ∨ l.2 = [] :=
      Text.of_literal (P := fun text => ∀ l ∈ keepLines text, l.2 = ['\n'] ∨ l.2 = []) (by decide +kernel)
    exact hends l ((keptLines_sublist _ _ _).subset hl)
  have hexports : exports (.arr [.str "A=1"]) = .ok ["A=1"] := rfl
  exact ⟨_, _, _, rfl, rfl, rfl, (profile_edits_converge_iff rfl rfl rfl hexports).mpr hclean⟩

/-- A line that is not of the block stays where it is. -/
theorem ownedSpan_ls (bins : List Text) (h : ∀ path ∈ bins, Unbroken path) :
    ownedSpan (bashBlock bins) [("ls" : Text)] = (0, 0) := by
  have hbegin : profileBegin.head? ≠ some 'l' :=
    Text.of_literal (P := fun l => l.head? ≠ some 'l') (by decide)
  have hnotBegin : profileBegin ∉ [("ls" : Text)] := by
    rw [List.mem_singleton]
    exact fun heq => hbegin (by rw [heq]; rfl)
  have hmanaged : ("ls" : Text) ∉ managedLines (bashBlock bins) := by
    unfold managedLines
    rw [List.mem_cons, List.mem_append, List.mem_singleton]
    rintro (heq | hmem | heq)
    · exact hbegin (by rw [← heq]; rfl)
    · exact absurd rfl (head?_of_mem_blockLines h hmem)
    · have := profileEnd_head
      rw [← heq] at this
      cases this
  have hpath : pathLine "ls" = false := by
    have hcase : ("ls" : Text) ≠ caseLine := by
      intro heq
      have := caseLine_heads.1
      rw [← heq] at this
      cases this
    have hstarts : binPrefix.isPrefixOf? ("ls" : Text) = none :=
      Text.of_literal (P := fun l => l.isPrefixOf? ("ls" : Text) = none) rfl
    unfold pathLine
    rw [hstarts, decide_eq_false hcase]
    rfl
  unfold ownedSpan
  rw [if_neg fun hboth => hnotBegin hboth.1, List.takeWhile_cons_of_neg]
  · rfl
  · rw [hpath, decide_eq_false hmanaged]
    decide

/-- An export with a form feed is accepted, and grows by a line each time it is written; a text
with carriage returns loses them. -/
theorem profile_edits_not_settled :
    (exports (.arr [.str "A=1\x0c2"]) = .ok ["A=1\x0c2"] ∧
      writeExports (fun _ => true) ["A=1\x0c2"] "" = .ok "export A=1\x0c2\n" ∧
      writeExports (fun _ => true) ["A=1\x0c2"] "export A=1\x0c2\n" = .ok "export A=1\x0c2\n2\n") ∧
    ∃ e, environment (fun _ => true) ["~/.local/bin"] "ls\r\n" = .ok e ∧
      ¬ Keeps (bashBlock ["~/.local/bin"]) ["A=1"] "ls\r\n" e := by
  refine ⟨by decide +kernel, _, rfl, fun h => ?_⟩
  have hkept : (("ls" : Text), (['\r', '\n'] : Text)) ∈ keptLines (bashBlock ["~/.local/bin"]) ["A=1"]
      "ls\r\n" := by
    have hlines : splitlines ("ls\r\n" : Text) = [("ls" : Text)] := by decide
    have hspan := ownedSpan_ls [("~/.local/bin" : Text)] (by decide)
    unfold keptLines
    rw [hlines, hspan]
    decide
  have hmem := h.kept.subset (List.mem_map_of_mem hkept)
  rw [keepLines_joinLines (mergedProfile_ne_nil _ _) fun l => unbroken_mergedProfile] at hmem
  obtain ⟨l, -, hl⟩ := List.mem_map.mp hmem
  have hend : (['\n'] : Text) = ['\r', '\n'] := congrArg Prod.snd hl
  exact absurd hend (by decide)

end HomeStack.Setup

import HomeStack.TreeDigest

/-! Whether the stream of a tree tells what is in it. It is made of tagged paths and raw
contents without lengths, so a content may run on as the next record does, and paths that
are no UTF-8 are read alike. -/

namespace HomeStack.TreeDigest

variable {ν : Type}

/-! ## What a tree holds -/

/-- What stands at a path below a tree. -/
inductive At : Tree ν → List ν → Tree ν → Prop
  | here (t : Tree ν) : At t [] t
  | inside {es : List (ν × Tree ν)} {e : ν × Tree ν} {path : List ν} {t : Tree ν}
      (he : e ∈ es) (h : At e.2 path t) :
      At (.dir es) (e.1 :: path) t

/-- A directory (`true`) or a file (`false`) stands at the path. -/
def Has (t : Tree ν) : Bool → List ν → Prop
  | true, path => ∃ es, At t path (.dir es)
  | false, path => ∃ content, At t path (.file content)

/-- The same directories, the same files and the same contents. -/
def SameTree (t t' : Tree ν) : Prop :=
  ∀ path, (Has t true path ↔ Has t' true path) ∧ ∀ content, At t path (.file content) ↔
    At t' path (.file content)

theorem SameTree.has {t t' : Tree ν} (h : SameTree t t') (k : Bool) (path : List ν) :
    Has t k path ↔ Has t' k path := by
  cases k with
  | true => exact (h path).1
  | false => exact exists_congr (h path).2

/-- A path leads to one thing. -/
theorem At.unique {t x y : Tree ν} {path : List ν} (hd : t.Distinct) (hx : At t path x) (hy : At t path y) :
    x = y := by
  induction hx with
  | here t =>
    cases hy
    rfl
  | @inside es e path x he h ih =>
    cases hd with
    | dir hnames hd =>
      generalize hpath : e.1 :: path = p at hy
      cases hy with
      | here => cases hpath
      | @inside _ e' path' _ he' h' =>
        obtain ⟨hname, rfl⟩ := List.cons.inj hpath
        obtain rfl := List.inj_on_of_nodup_map hnames he he' hname
        exact ih (hd e he) h'

theorem At.inside_of {es : List (ν × Tree ν)} {name : ν} {path : List ν} {x : Tree ν}
    (h : At (.dir es) (name :: path) x) :
    ∃ e ∈ es, e.1 = name ∧ At e.2 path x := by
  cases h with
  | @inside _ e _ _ he h => exact ⟨e, he, rfl, h⟩

/-! ## Records -/

namespace Record

/-- Kind and path. -/
def place : Record ν → Bool × List ν
  | .dir path | .linked path => (true, path)
  | .file path _ | .special path => (false, path)

def content : Record ν → Bytes
  | .file _ content => content
  | _ => []

theorem eq_of_place {r r' : Record ν} (hr : r.Good) (hr' : r'.Good) (hplace : r.place = r'.place)
    (hcontent : r.content = r'.content) : r = r' := by
  cases r <;> cases r' <;> simp_all [Good, place, content]

end Record

def tag (k : Bool) : UInt8 := if k then tagD else tagF

theorem bytes_eq (S : Side ν) {r : Record ν} (h : r.Good) :
    r.bytes S = header (tag r.place.1) (S.relative r.place.2) ++ r.content := by
  cases r with
  | dir path => simp [Record.bytes, Record.place, Record.content, tag]
  | file path content => rfl
  | linked path => exact h.elim
  | special path => exact h.elim

theorem Tree.Regular.directory {t : Tree ν} (h : t.Regular) (hdir : t.isDir = true) : t = .dir t.entries := by
  cases h with
  | file content => exact absurd hdir (by simp [Tree.isDir, Tree.resolve])
  | dir h => rfl

theorem Tree.Regular.file_of {t : Tree ν} (h : t.Regular) (hdir : t.isDir = false) :
    ∃ content, t = .file content := by
  cases h with
  | file content => exact ⟨content, rfl⟩
  | dir h => exact absurd hdir (by simp [Tree.isDir, Tree.resolve])

theorem Tree.Regular.entries {t : Tree ν} (h : t.Regular) : ∀ e ∈ t.entries, e.2.Regular := by
  cases h with
  | file content => exact nofun
  | dir h => exact h

/-- The record of what stands at a path. -/
inductive Recorded (t : Tree ν) (dir : List ν) : Record ν → Prop
  | dir {path : List ν} (hne : path ≠ []) (h : Has t true path) : Recorded t dir (.dir (dir ++ path))
  | file {path : List ν} {content : Bytes} (h : At t path (.file content)) : Recorded t dir
      (.file (dir ++ path) content)

theorem Recorded.inside {es : List (ν × Tree ν)} {e : ν × Tree ν} {dir : List ν} {r : Record ν} (he : e ∈ es)
    (h : Recorded e.2 (dir ++ [e.1]) r) : Recorded (.dir es) dir r := by
  cases h with
  | @dir path hne h =>
    obtain ⟨fs, hat⟩ := h
    rw [List.append_assoc]
    exact .dir (by simp) ⟨fs, .inside he hat⟩
  | file hat =>
    rw [List.append_assoc]
    exact .file (.inside he hat)

section

variable (S : Side ν) {es : List (ν × Tree ν)} {e : ν × Tree ν}

theorem directoryRecord_dir {fs : List (ν × Tree ν)} (h : e.2 = .dir fs) (dir : List ν) :
    directoryRecord dir e = .dir (dir ++ [e.1]) := by
  unfold directoryRecord
  rw [h]
  rfl

theorem fileRecord_file {content : Bytes} (h : e.2 = .file content) (dir : List ν) :
    fileRecord dir e = .file (dir ++ [e.1]) content := by
  unfold fileRecord
  rw [h]

theorem isDir_dir {fs : List (ν × Tree ν)} (h : e.2 = .dir fs) : e.2.isDir = true := by
  rw [h]
  simp [Tree.isDir, Tree.resolve]

theorem isDir_file {content : Bytes} (h : e.2 = .file content) : e.2.isDir = false := by
  rw [h]
  simp [Tree.isDir, Tree.resolve]

theorem mem_records_dir {fs : List (ν × Tree ν)} (he : e ∈ es) (h : e.2 = .dir fs) (dir : List ν) :
    .dir (dir ++ [e.1]) ∈ records S dir es := by
  rw [records_eq, ← directoryRecord_dir h]
  exact List.mem_append_left _
    (List.mem_append_left _ (List.mem_map_of_mem ((mem_directories S).mpr ⟨he, isDir_dir h⟩)))

theorem mem_records_file {content : Bytes} (he : e ∈ es) (h : e.2 = .file content) (dir : List ν) :
    .file (dir ++ [e.1]) content ∈ records S dir es := by
  rw [records_eq, ← fileRecord_file h]
  exact List.mem_append_left _
    (List.mem_append_right _ (List.mem_map_of_mem ((mem_files S).mpr ⟨he, isDir_file h⟩)))

theorem mem_records_inside {fs : List (ν × Tree ν)} {dir : List ν} {r : Record ν} (he : e ∈ es)
    (h : e.2 = .dir fs) (hr : r ∈ records S (dir ++ [e.1]) fs) : r ∈ records S dir es := by
  rw [records_eq]
  refine List.mem_append_right _ (List.mem_flatMap.mpr ⟨e, (mem_directories S).mpr ⟨he, isDir_dir h⟩, ?_⟩)
  rw [h]
  exact hr

/-- Every record tells what stands at its path. -/
theorem recorded_of_mem {dir : List ν} {r : Record ν} (h : ∀ e ∈ es, e.2.Regular)
    (hr : r ∈ records S dir es) :
    Recorded (.dir es) dir r := by
  induction es using Tree.listing_induction generalizing dir with
  | step es ih =>
    rw [records_eq] at hr
    rcases List.mem_append.mp hr with hr | hr
    · rcases List.mem_append.mp hr with hr | hr
      · obtain ⟨e, he, rfl⟩ := List.mem_map.mp hr
        obtain ⟨he, hdir⟩ := (mem_directories S).mp he
        have hdirectory := (h e he).directory hdir
        rw [directoryRecord_dir hdirectory]
        exact .dir (by simp) ⟨e.2.entries, .inside he (hdirectory ▸ .here _)⟩
      · obtain ⟨e, he, rfl⟩ := List.mem_map.mp hr
        obtain ⟨he, hdir⟩ := (mem_files S).mp he
        obtain ⟨content, hfile⟩ := (h e he).file_of hdir
        rw [fileRecord_file hfile]
        exact .file (.inside he (hfile ▸ .here _))
    · obtain ⟨e, he, hr⟩ := List.mem_flatMap.mp hr
      obtain ⟨he, hdir⟩ := (mem_directories S).mp he
      refine .inside he ?_
      rw [(h e he).directory hdir]
      exact ih e he (h e he).entries hr

/-- What stands at a path has its record. -/
theorem mem_of_at {path : List ν} {x : Tree ν} (hne : path ≠ []) (h : At (.dir es) path x) (dir : List ν) :
    (∀ fs, x = .dir fs → .dir (dir ++ path) ∈ records S dir es) ∧
    ∀ content, x = .file content → .file (dir ++ path) content ∈ records S dir es := by
  induction path generalizing es dir with
  | nil => exact absurd rfl hne
  | cons name path ih =>
    cases h with
    | @inside _ e _ _ he h =>
      generalize ht : e.2 = t at h
      cases path with
      | nil =>
        cases h
        exact ⟨fun _ hx => mem_records_dir S he (ht.trans hx) dir,
          fun _ hx => mem_records_file S he (ht.trans hx) dir⟩
      | cons next path =>
        cases h with
        | @inside fs e' _ _ he' h' =>
          have hinner := ih (by simp) (.inside he' h') (dir ++ [e.1])
          simp only [List.append_assoc, List.singleton_append] at hinner
          exact ⟨fun fs' hx => mem_records_inside S he ht (hinner.1 fs' hx),
            fun content hx => mem_records_inside S he ht (hinner.2 content hx)⟩

/-- The records of a regular tree are what stands at its paths. -/
theorem mem_records (h : ∀ e ∈ es, e.2.Regular) (dir : List ν) (r : Record ν) :
    r ∈ records S dir es ↔ Recorded (.dir es) dir r := by
  refine ⟨recorded_of_mem S h, fun hr => ?_⟩
  cases hr with
  | dir hne hhas =>
    obtain ⟨fs, hat⟩ := hhas
    exact (mem_of_at S hne hat dir).1 fs rfl
  | @file path content hat =>
    have hne : path ≠ [] := by
      rintro rfl
      cases hat
    exact (mem_of_at S hne hat dir).2 content rfl

end

/-! ## The order of the walk -/

theorem Tree.Distinct.entries {t : Tree ν} (h : t.Distinct) : (Tree.dir t.entries).Distinct := by
  cases h with
  | dir hnames h => exact .dir hnames h
  | file | special | dangling | link => exact .dir List.nodup_nil nofun

/-- Directories that are passed come after all entries of the directory they are in. -/
def passed (dir : List Bytes) : List (Nat ×ₗ List Nat) := dir.map fun name => toLex (2, name.key)

/-- Where a record stands in the walk: a directory's subdirectories, its files, what is
below the subdirectories. -/
def rank (place : Bool × List Bytes) : List (Nat ×ₗ List Nat) :=
  passed place.2.dropLast ++ (place.2.getLast?.map fun name =>
    toLex (if place.1 then 0 else 1, name.key)).toList

theorem rank_append (k : Bool) (dir : List Bytes) (name : Bytes) :
    rank (k, dir ++ [name]) = passed dir ++ [toLex (if k then 0 else 1, name.key)] := by
  simp [rank]

theorem passed_append (dir : List Bytes) (name : Bytes) :
    passed (dir ++ [name]) = passed dir ++ [toLex (2, name.key)] := by
  simp [passed]

theorem lt_of_head {dir tail tail' : List (Nat ×ₗ List Nat)} {x y : Nat ×ₗ List Nat} (h : x < y) :
    dir ++ x :: tail < dir ++ y :: tail' :=
  List.append_left_lt (List.cons_lt_cons_iff.mpr (Or.inl h))

theorem place_directoryRecord (dir : List ν) (e : ν × Tree ν) :
    (directoryRecord dir e).place = (true, dir ++ [e.1]) := by
  unfold directoryRecord
  cases e.2.isLink <;> rfl

theorem place_fileRecord (dir : List ν) (e : ν × Tree ν) :
    (fileRecord dir e).place = (false, dir ++ [e.1]) := by
  unfold fileRecord
  cases e.2 <;> rfl

/-- Names that differ are sorted strictly. -/
theorem sorted_strict (path : Bytes) {es : List (Bytes × Tree Bytes)} (hd : (es.map Prod.fst).Nodup) :
    (sorted (Desktop.side path) es).Pairwise fun a b => a.1.key < b.1.key := by
  have hnodup : (sorted (Desktop.side path) es).Pairwise fun a b => a.1 ≠ b.1 :=
    List.pairwise_map.mp (((perm_sorted _ es).map Prod.fst).nodup_iff.mpr hd)
  refine (pairwise_sorted (Desktop.side path) es).imp₂ ?_ hnodup
  intro a b hab hne
  exact lt_of_le_of_ne hab fun heq => hne (Bytes.key_injective heq)

section

variable (path : Bytes)

/-- A record below a directory comes after the directory is passed. -/
theorem rank_inside (es : List (Bytes × Tree Bytes)) {dir : List Bytes} {r : Record Bytes}
    (hr : r ∈ records (Desktop.side path) dir es) : ∃ tail, rank r.place = passed dir ++ tail := by
  induction es using Tree.listing_induction generalizing dir with
  | step es ih =>
    rw [records_eq] at hr
    rcases List.mem_append.mp hr with hr | hr
    · rcases List.mem_append.mp hr with hr | hr
      · obtain ⟨e, he, rfl⟩ := List.mem_map.mp hr
        rw [place_directoryRecord, rank_append]
        exact ⟨_, rfl⟩
      · obtain ⟨e, he, rfl⟩ := List.mem_map.mp hr
        rw [place_fileRecord, rank_append]
        exact ⟨_, rfl⟩
    · obtain ⟨e, he, hr⟩ := List.mem_flatMap.mp hr
      obtain ⟨tail, htail⟩ := ih e (mem_of_mem_directories _ he) hr
      rw [htail, passed_append, List.append_assoc]
      exact ⟨_, rfl⟩

theorem rank_listing {es : List (Bytes × Tree Bytes)} {dir : List Bytes} {r : Record Bytes}
    (hr : r ∈ listing (Desktop.side path) dir es) :
    ∃ k < 2, ∃ name, rank r.place = passed dir ++ [toLex (k, name)] := by
  rcases List.mem_append.mp hr with hr | hr
  · obtain ⟨e, he, rfl⟩ := List.mem_map.mp hr
    rw [place_directoryRecord, rank_append]
    exact ⟨0, by decide, _, rfl⟩
  · obtain ⟨e, he, rfl⟩ := List.mem_map.mp hr
    rw [place_fileRecord, rank_append]
    exact ⟨1, by decide, _, rfl⟩

/-- The records of one directory, in order. -/
theorem listing_ranked {es : List (Bytes × Tree Bytes)} (hd : (es.map Prod.fst).Nodup) (dir : List Bytes) :
    (listing (Desktop.side path) dir es).Pairwise fun r r' => rank r.place < rank r'.place := by
  have hsub : ∀ p, ((es.filter p).map Prod.fst).Nodup := fun p => hd.sublist (List.filter_sublist.map _)
  refine List.pairwise_append.mpr ⟨?_, ?_, ?_⟩
  · refine List.pairwise_map.mpr ((sorted_strict path (hsub _)).imp ?_)
    intro a b hab
    rw [place_directoryRecord, place_directoryRecord, rank_append, rank_append]
    exact lt_of_head (Prod.Lex.toLex_lt_toLex.mpr (Or.inr ⟨rfl, hab⟩))
  · refine List.pairwise_map.mpr ((sorted_strict path (hsub _)).imp ?_)
    intro a b hab
    rw [place_fileRecord, place_fileRecord, rank_append, rank_append]
    exact lt_of_head (Prod.Lex.toLex_lt_toLex.mpr (Or.inr ⟨rfl, hab⟩))
  · intro r hr r' hr'
    obtain ⟨a, _, rfl⟩ := List.mem_map.mp hr
    obtain ⟨b, _, rfl⟩ := List.mem_map.mp hr'
    rw [place_directoryRecord, place_fileRecord, rank_append, rank_append]
    exact lt_of_head (Prod.Lex.toLex_lt_toLex.mpr (Or.inl Nat.zero_lt_one))

/-- All records stand in the order of their ranks. -/
theorem records_ranked {es : List (Bytes × Tree Bytes)} (hd : (Tree.dir es).Distinct) (dir : List Bytes) :
    (records (Desktop.side path) dir es).Pairwise fun r r' => rank r.place < rank r'.place := by
  induction es using Tree.listing_induction generalizing dir with
  | step es ih =>
    cases hd with
    | dir hnames hd =>
      rw [records_eq]
      refine List.pairwise_append.mpr ⟨listing_ranked path hnames dir, List.pairwise_flatMap.mpr ⟨?_, ?_⟩, ?_⟩
      · intro e he
        have he := mem_of_mem_directories _ he
        exact ih e he (hd e he).entries _
      · have hsub : ((es.filter fun e => e.2.isDir).map Prod.fst).Nodup :=
          hnames.sublist (List.filter_sublist.map _)
        refine (sorted_strict path hsub).imp ?_
        intro a b hab r hr r' hr'
        obtain ⟨tail, htail⟩ := rank_inside path _ hr
        obtain ⟨tail', htail'⟩ := rank_inside path _ hr'
        rw [htail, htail', passed_append, passed_append, List.append_assoc, List.append_assoc]
        exact lt_of_head (Prod.Lex.toLex_lt_toLex.mpr (Or.inr ⟨rfl, hab⟩))
      · intro r hr r' hr'
        obtain ⟨k, hk, name, hrank⟩ := rank_listing path hr
        obtain ⟨e, _, hr'⟩ := List.mem_flatMap.mp hr'
        obtain ⟨tail, htail⟩ := rank_inside path _ hr'
        rw [hrank, htail, passed_append, List.append_assoc]
        exact lt_of_head (Prod.Lex.toLex_lt_toLex.mpr (Or.inl hk))

end

/-! ## Reading the stream -/

/-- The content goes on in the other as a record begins. -/
def RunsOn (content content' : Bytes) : Prop := ∃ k rest, content' = content ++ tag k :: 0 :: rest

/-- The records of a tree without NUL in its names. -/
structure Proper (S : Side Bytes) (rs : List (Record Bytes)) : Prop where
  good : ∀ r ∈ rs, r.Good
  nul : ∀ r ∈ rs, 0 ∉ S.relative r.place.2
  ranked : rs.Pairwise fun r r' => rank r.place < rank r'.place

section

variable {S : Side Bytes}

theorem Proper.tail {r : Record Bytes} {rs : List (Record Bytes)} (h : Proper S (r :: rs)) : Proper S rs where
  good x hx := h.good x (List.mem_cons_of_mem _ hx)
  nul x hx := h.nul x (List.mem_cons_of_mem _ hx)
  ranked := h.ranked.of_cons

theorem Proper.rank_lt {r : Record Bytes} {rs : List (Record Bytes)} (h : Proper S (r :: rs))
    {place : Bool × List Bytes} (hmem : place ∈ rs.map Record.place) : rank r.place < rank place := by
  obtain ⟨x, hx, rfl⟩ := List.mem_map.mp hmem
  exact (List.pairwise_cons.mp h.ranked).1 x hx

/-- A stream is empty or begins with a tag and a NUL. -/
theorem Proper.stream {rs : List (Record Bytes)} (h : Proper S rs) :
    rs.flatMap (Record.bytes S) = [] ∨ ∃ k rest, rs.flatMap (Record.bytes S) = tag k :: 0 :: rest := by
  cases rs with
  | nil => exact Or.inl rfl
  | cons r rs =>
    refine Or.inr ⟨r.place.1, S.relative r.place.2 ++ [0] ++ r.content ++ rs.flatMap (Record.bytes S), ?_⟩
    rw [List.flatMap_cons, bytes_eq S (h.good r List.mem_cons_self)]
    simp [header]

theorem tag_ne_zero (k : Bool) : tag k ≠ 0 := by
  cases k <;> decide

theorem tag_injective {k k' : Bool} (h : tag k = tag k') : k = k' := by
  revert h
  revert k k'
  decide

/-- What is cut off a stream before another begins begins as a record does. -/
theorem begins_of_append {s s' x : Bytes} (hs : s = [] ∨ ∃ k rest, s = tag k :: 0 :: rest)
    (hs' : s' = [] ∨ ∃ k rest, s' = tag k :: 0 :: rest) (h : s = x ++ s') : x = [] ∨
      ∃ k rest, x = tag k :: 0 :: rest := by
  cases x with
  | nil => exact Or.inl rfl
  | cons a x =>
    rcases hs with rfl | ⟨k, rest, rfl⟩
    · cases h
    · obtain ⟨rfl, hrest⟩ := List.cons.inj h
      cases x with
      | nil =>
        rcases hs' with rfl | ⟨k', rest', rfl⟩
        · cases hrest
        · exact absurd (List.cons.inj hrest).1.symm (tag_ne_zero k')
      | cons b x =>
        obtain ⟨rfl, _⟩ := List.cons.inj hrest
        exact Or.inr ⟨k, x, rfl⟩

/-- Two contents with the streams after them are equal unless one runs on in the other. -/
theorem content_eq {c c' s s' : Bytes} (hs : s = [] ∨ ∃ k rest, s = tag k :: 0 :: rest)
    (hs' : s' = [] ∨ ∃ k rest, s' = tag k :: 0 :: rest) (h : c ++ s = c' ++ s')
    (hc : ¬ RunsOn c c') (hc' : ¬ RunsOn c' c) :
    c = c' := by
  rcases List.append_eq_append_iff.mp h with ⟨x, rfl, hx⟩ | ⟨x, rfl, hx⟩
  · rcases begins_of_append hs hs' hx with rfl | ⟨k, rest, rfl⟩
    · exact (List.append_nil c).symm
    · exact absurd ⟨k, rest, rfl⟩ hc
  · rcases begins_of_append hs' hs hx with rfl | ⟨k, rest, rfl⟩
    · exact List.append_nil c'
    · exact absurd ⟨k, rest, rfl⟩ hc'

theorem header_inj {k k' : Bool} {p p' x x' : Bytes} (hp : 0 ∉ p) (hp' : 0 ∉ p')
    (h : header (tag k) p ++ x = header (tag k') p' ++ x') : k = k' ∧ p = p' ∧ x = x' := by
  simp only [header, List.cons_append, List.append_assoc, List.nil_append, List.cons.injEq, true_and] at h
  exact ⟨tag_injective h.1, Text.append_sep_inj hp hp' h.2⟩

/-- Equal streams come from equal records, where paths that are read alike are in both and
no content runs on. -/
theorem records_inj {rs rs' : List (Record Bytes)} (h : Proper S rs) (h' : Proper S rs')
    (hpaths : ∀ r ∈ rs, ∀ r' ∈ rs', r.place.1 = r'.place.1 → S.relative r.place.2 = S.relative r'.place.2 →
      r.place ∈ rs'.map Record.place ∧ r'.place ∈ rs.map Record.place)
    (hcontents : ∀ r ∈ rs, ∀ r' ∈ rs', r.place = r'.place →
      ¬ RunsOn r.content r'.content ∧ ¬ RunsOn r'.content r.content)
    (hstream : rs.flatMap (Record.bytes S) = rs'.flatMap (Record.bytes S)) : rs = rs' := by
  induction rs generalizing rs' with
  | nil =>
    cases rs' with
    | nil => rfl
    | cons r' rs' =>
      rw [List.flatMap_cons, bytes_eq S (h'.good r' List.mem_cons_self)] at hstream
      simp [header] at hstream
  | cons r rs ih =>
    cases rs' with
    | nil =>
      rw [List.flatMap_cons, bytes_eq S (h.good r List.mem_cons_self)] at hstream
      simp [header] at hstream
    | cons r' rs' =>
      have hr := List.mem_cons_self (a := r) (l := rs)
      have hr' := List.mem_cons_self (a := r') (l := rs')
      rw [List.flatMap_cons, List.flatMap_cons, bytes_eq S (h.good r hr), bytes_eq S (h'.good r' hr'),
        List.append_assoc, List.append_assoc] at hstream
      obtain ⟨hkind, hrelative, hrest⟩ := header_inj (h.nul r hr) (h'.nul r' hr') hstream
      -- were the paths different, each would come before the other
      have hplace : r.place = r'.place := by
        by_contra hne
        obtain ⟨hmem, hmem'⟩ := hpaths r hr r' hr' hkind hrelative
        have hlater := (List.mem_cons.mp hmem').resolve_left fun heq => hne heq.symm
        have hlater' := (List.mem_cons.mp hmem).resolve_left hne
        exact lt_asymm (h.rank_lt hlater) (h'.rank_lt hlater')
      obtain ⟨hc, hc'⟩ := hcontents r hr r' hr' hplace
      have hcontent := content_eq h.tail.stream h'.tail.stream hrest hc hc'
      rw [Record.eq_of_place (h.good r hr) (h'.good r' hr') hplace hcontent]
      congr 1
      refine ih h.tail h'.tail ?_ ?_ (by rw [hcontent] at hrest; exact List.append_cancel_left hrest)
      · intro x hx x' hx' hkind hrelative
        obtain ⟨hmem, hmem'⟩ := hpaths x (List.mem_cons_of_mem _ hx) x'
          (List.mem_cons_of_mem _ hx') hkind hrelative
        refine ⟨(List.mem_cons.mp hmem).resolve_left ?_, (List.mem_cons.mp hmem').resolve_left ?_⟩
        · intro heq
          have hlt := h.rank_lt (List.mem_map_of_mem hx)
          rw [heq, hplace] at hlt
          exact lt_irrefl _ hlt
        · intro heq
          have hlt := h'.rank_lt (List.mem_map_of_mem hx')
          rw [heq, hplace] at hlt
          exact lt_irrefl _ hlt
      · exact fun x hx x' hx' => hcontents x (List.mem_cons_of_mem _ hx) x' (List.mem_cons_of_mem _ hx')

end

/-! ## When equal streams mean equal trees -/

/-- Every name in the tree is of a kind. -/
inductive Tree.Names (p : ν → Prop) : Tree ν → Prop
  | file (content : Bytes) : Names p (.file content)
  | dir {es : List (ν × Tree ν)} (hnames : ∀ e ∈ es, p e.1) (h : ∀ e ∈ es, Names p e.2) : Names p (.dir es)

theorem At.names {p : ν → Prop} {t x : Tree ν} {path : List ν} (h : At t path x) (hn : t.Names p) :
    ∀ name ∈ path, p name := by
  induction h with
  | here t => exact nofun
  | inside he _ ih =>
    cases hn with
    | dir hnames hn => exact List.forall_mem_cons.mpr ⟨hnames _ he, ih (hn _ he)⟩

theorem Has.names {p : ν → Prop} {t : Tree ν} {k : Bool} {path : List ν} (h : Has t k path) (hn : t.Names p) :
    ∀ name ∈ path, p name := by
  cases k with
  | true =>
    obtain ⟨es, hat⟩ := h
    exact hat.names hn
  | false =>
    obtain ⟨content, hat⟩ := h
    exact hat.names hn

/-- A path as it is read, `to_string_lossy`. -/
def readPath (path : List Bytes) : Text := Bytes.fromUtf8Lossy (List.intercalate [0x2F] path)

theorem nul_not_mem_relative (path : Bytes) {names : List Bytes} (h : ∀ name ∈ names, 0 ∉ name) :
    0 ∉ (Desktop.side path).relative names := by
  refine Bytes.nul_not_mem_lossy ?_
  induction names with
  | nil => exact nofun
  | cons name names ih =>
    have hname := h name List.mem_cons_self
    have hnames := ih fun n hn => h n (List.mem_cons_of_mem _ hn)
    cases names with
    | nil => simpa using hname
    | cons next names =>
      rw [List.intercalate_cons_cons, List.mem_append, List.mem_append]
      rintro ((hmem | hmem) | hmem)
      · exact hname hmem
      · exact absurd hmem (by decide)
      · exact hnames hmem

theorem relative_inj {path : Bytes} {names names' : List Bytes}
    (h : (Desktop.side path).relative names = (Desktop.side path).relative names') : readPath names =
      readPath names' := by
  have h := congrArg Bytes.fromUtf8Lossy h
  rwa [Desktop.side, Text.fromUtf8Lossy_utf8, Text.fromUtf8Lossy_utf8] at h

/-- Both are files or both are directories, paths that are read alike are in both, and no
file's content of one is its content of the other run on as a record begins. -/
structure Legible (t t' : Tree Bytes) : Prop where
  kind : t.isDir = t'.isDir
  paths : ∀ k path path', Has t k path → Has t' k path' → readPath path = readPath path' →
    Has t' k path ∧ Has t k path'
  contents : ∀ path content content', At t path (.file content) → At t' path (.file content') →
    ¬ RunsOn content content' ∧ ¬ RunsOn content' content

theorem not_runsOn_self (content : Bytes) : ¬ RunsOn content content := by
  rintro ⟨k, rest, h⟩
  have hlength := congrArg List.length h
  simp only [List.length_append, List.length_cons] at hlength
  omega

theorem has_root {t : Tree ν} (h : t.Regular) : Has t true [] ↔ t.isDir = true := by
  cases h with
  | file content =>
    simp only [Tree.isDir, Tree.resolve]
    constructor
    · rintro ⟨_, hat⟩
      cases hat
    · intro h
      cases h
  | @dir es h =>
    simp only [Tree.isDir, Tree.resolve]
    exact ⟨fun _ => trivial, fun _ => ⟨es, .here _⟩⟩

theorem SameTree.legible {t t' : Tree Bytes} (h : SameTree t t') (hr : t.Regular)
    (hr' : t'.Regular) (hd : t.Distinct) :
    Legible t t' where
  kind := Bool.eq_iff_iff.mpr ((has_root hr).symm.trans (((h []).1).trans (has_root hr')))
  paths k path path' hhas hhas' _ := ⟨(h.has k path).mp hhas, (h.has k path').mpr hhas'⟩
  contents path content content' hat hat' := by
    have heq := At.unique hd hat (((h path).2 content').mpr hat')
    obtain rfl := Tree.file.inj heq
    exact ⟨not_runsOn_self _, not_runsOn_self _⟩

section

variable (S : Side ν) {es : List (ν × Tree ν)} (h : ∀ e ∈ es, e.2.Regular)

include h

theorem mem_records_root_dir {path : List ν} :
    .dir path ∈ records S [] es ↔ path ≠ [] ∧ Has (.dir es) true path := by
  rw [mem_records S h]
  constructor
  · intro hr
    cases hr with
    | dir hne hhas => exact ⟨hne, hhas⟩
  · exact fun hr => .dir hr.1 hr.2

theorem mem_records_root_file {path : List ν} {content : Bytes} :
    .file path content ∈ records S [] es ↔ At (.dir es) path (.file content) := by
  rw [mem_records S h]
  constructor
  · intro hr
    cases hr with
    | file hat => exact hat
  · exact .file

/-- The places of the records. -/
theorem place_mem_records {place : Bool × List ν} :
    place ∈ (records S [] es).map Record.place ↔ place.2 ≠ [] ∧ Has (.dir es) place.1 place.2 := by
  obtain ⟨k, path⟩ := place
  constructor
  · intro hmem
    obtain ⟨r, hr, hplace⟩ := List.mem_map.mp hmem
    cases (mem_records S h [] r).mp hr with
    | dir hne hhas =>
      cases hplace
      exact ⟨hne, hhas⟩
    | file hat =>
      cases hplace
      refine ⟨?_, _, hat⟩
      rintro rfl
      cases hat
  · rintro ⟨hne, hhas⟩
    cases k with
    | true => exact List.mem_map.mpr ⟨_, (mem_records_root_dir S h).mpr ⟨hne, hhas⟩, rfl⟩
    | false =>
      obtain ⟨content, hat⟩ := hhas
      exact List.mem_map.mpr ⟨_, (mem_records_root_file S h).mpr hat, rfl⟩

/-- A record has the content of the file at its place. -/
theorem content_of_mem {r : Record ν} (hr : r ∈ records S [] es) :
    (r.place.1 = true ∧ r.content = []) ∨ r.place.1 = false ∧ At (.dir es) r.place.2 (.file r.content) := by
  cases (mem_records S h [] r).mp hr with
  | dir hne hhas => exact Or.inl ⟨rfl, rfl⟩
  | file hat => exact Or.inr ⟨rfl, hat⟩

end

theorem proper_records (path : Bytes) {es : List (Bytes × Tree Bytes)} (h : ∀ e ∈ es, e.2.Regular)
    (hd : (Tree.dir es).Distinct) (hn : (Tree.dir es).Names (0 ∉ ·)) :
    Proper (Desktop.side path) (records (Desktop.side path) [] es) where
  good := (good_records _ [] es).mpr h
  nul _ hr := nul_not_mem_relative path (((place_mem_records _ h).mp (List.mem_map_of_mem hr)).2.names hn)
  ranked := records_ranked path hd []

theorem sameTree_of_records (S : Side ν) {es es' : List (ν × Tree ν)} (h : ∀ e ∈ es, e.2.Regular)
    (h' : ∀ e ∈ es', e.2.Regular) (heq : records S [] es = records S [] es') :
    SameTree (.dir es) (.dir es') := by
  intro path
  constructor
  · by_cases hne : path = []
    · subst hne
      exact ⟨fun _ => ⟨es', .here _⟩, fun _ => ⟨es, .here _⟩⟩
    · have hmem := (@mem_records_root_dir _ S _ h path).symm.trans (heq ▸ mem_records_root_dir S h')
      simpa [hne] using hmem
  · intro content
    rw [← mem_records_root_file S h, heq, mem_records_root_file S h']

/-- Two directories whose records give one stream. -/
theorem sameTree_of_stream (path : Bytes) {es es' : List (Bytes × Tree Bytes)}
    (h : ∀ e ∈ es, e.2.Regular) (h' : ∀ e ∈ es', e.2.Regular) (hd : (Tree.dir es).Distinct)
    (hd' : (Tree.dir es').Distinct)
    (hn : (Tree.dir es).Names (0 ∉ ·)) (hn' : (Tree.dir es').Names (0 ∉ ·))
    (hlegible : Legible (.dir es) (.dir es'))
    (hstream : (records (Desktop.side path) [] es).flatMap (Record.bytes (Desktop.side path)) =
      (records (Desktop.side path) [] es').flatMap (Record.bytes (Desktop.side path))) :
    SameTree (.dir es) (.dir es') := by
  refine sameTree_of_records _ h h' (records_inj (proper_records path h hd hn)
    (proper_records path h' hd' hn') ?_ ?_ hstream)
  · intro r hr r' hr' hkind hrelative
    obtain ⟨hne, hhas⟩ := (place_mem_records _ h).mp (List.mem_map_of_mem hr)
    obtain ⟨hne', hhas'⟩ := (place_mem_records _ h').mp (List.mem_map_of_mem hr')
    rw [← hkind] at hhas'
    obtain ⟨hother, hother'⟩ := hlegible.paths _ _ _ hhas hhas' (relative_inj hrelative)
    rw [hkind] at hother'
    exact ⟨(place_mem_records _ h').mpr ⟨hne, hother⟩, (place_mem_records _ h).mpr ⟨hne', hother'⟩⟩
  · intro r hr r' hr' hplace
    rcases content_of_mem _ h hr with ⟨hk, hc⟩ | ⟨hk, hat⟩
    · rcases content_of_mem _ h' hr' with ⟨_, hc'⟩ | ⟨hk', _⟩
      · rw [hc, hc']
        exact ⟨not_runsOn_self _, not_runsOn_self _⟩
      · rw [hplace, hk'] at hk
        cases hk
    · rcases content_of_mem _ h' hr' with ⟨hk', _⟩ | ⟨_, hat'⟩
      · rw [hplace, hk'] at hk
        cases hk
      · rw [← hplace] at hat'
        exact hlegible.contents _ _ _ hat hat'

/-- Where the source is does not matter. -/
theorem records_side (path path' : Bytes) (dir : List Bytes) (es : List (Bytes × Tree Bytes)) :
    records (Desktop.side path) dir es = records (Desktop.side path') dir es := by
  induction es using Tree.listing_induction generalizing dir with
  | step es ih =>
    rw [records_eq, records_eq]
    congr 1
    exact List.flatMap_congr fun e he => ih e (mem_of_mem_directories _ he) _

/-- What is hashed of a directory. -/
theorem stream_of_ok {path : Bytes} {es : List (Bytes × Tree Bytes)} {w : Walk} (h : ∀ e ∈ es, e.2.Regular)
    (hw : Desktop.digestLocalPath path (.dir es) = .ok w) :
    w.stream = (records (Desktop.side []) [] es).flatMap (Record.bytes (Desktop.side [])) := by
  simp only [Desktop.digestLocalPath, Tree.resolve] at hw
  rw [walkStack_root, foldlM_emit_good _ ((good_records _ [] es).mpr h), records_side path []] at hw
  cases hw
  rfl

theorem stream_of_file {path content : Bytes} {w : Walk}
    (hw : Desktop.digestLocalPath path (.file content) = .ok w) :
    w.stream = content := by
  simp only [Desktop.digestLocalPath, Tree.resolve] at hw
  cases hw
  rfl

theorem sameTree_file (content : Bytes) : SameTree (Tree.file content) (Tree.file content : Tree ν) :=
  fun _ => ⟨Iff.rfl, fun _ => Iff.rfl⟩

/-- Trees of one stream are the same where they are legible, and nowhere else. -/
theorem sameTree_iff_legible {t t' : Tree Bytes} (h : t.Regular) (h' : t'.Regular) (hd : t.Distinct)
    (hd' : t'.Distinct) (hn : t.Names (0 ∉ ·)) (hn' : t'.Names (0 ∉ ·)) {path path' : Bytes} {w w' : Walk}
    (hw : Desktop.digestLocalPath path t = .ok w) (hw' : Desktop.digestLocalPath path' t' = .ok w')
    (hstream : w.stream = w'.stream) : SameTree t t' ↔ Legible t t' := by
  refine ⟨fun hsame => hsame.legible h h' hd, fun hlegible => ?_⟩
  have hkind := hlegible.kind
  simp only [Tree.isDir] at hkind
  cases h with
  | file content =>
    cases h' with
    | file content' =>
      rw [stream_of_file hw, stream_of_file hw'] at hstream
      rw [hstream]
      exact sameTree_file content'
    | dir h' => simp [Tree.resolve] at hkind
  | dir h =>
    cases h' with
    | file content' => simp [Tree.resolve] at hkind
    | dir h' =>
      rw [stream_of_ok h hw, stream_of_ok h' hw'] at hstream
      exact sameTree_of_stream [] h h' hd hd' hn hn' hlegible hstream

/-! ## The preflight of a file -/

inductive PathType
  | directory
  | file
  deriving DecidableEq

/-- What is compared of a path. -/
structure Metadata where
  type : PathType
  sha256 : Text
  size : Nat

section

variable (sha256 : Bytes → Text)

def localMetadata (path : Bytes) (t : Tree Bytes) : Except Text Metadata := do
  let w ← Desktop.digestLocalPath path t
  .ok ⟨if t.isDir then .directory else .file, sha256 w.stream, w.total⟩

/-- `path_metadata` of the guest, `none` where nothing exists. -/
def pathMetadata (found : Option (Tree Text)) : Except Text (Option Metadata) :=
  match found with
  | none => .ok none
  | some g =>
    if g.resolve.isNone then .ok none
    else do
      let w ← Guest.digestPath g
      .ok (some ⟨if g.isDir then .directory else .file, sha256 w.stream, w.total⟩)

/-- `changed` of `preflight_entry` -/
def changed (remote : Option Metadata) (desktop : Metadata) : Bool :=
  match remote with
  | none => true
  | some remote => !(remote.type == desktop.type && remote.sha256 == desktop.sha256)

end

theorem digests_shown {t : Tree Bytes} {g : Tree Text} (path : Bytes) (h : Shows t g)
    (hd : t.Distinct) (hr : t.Regular) :
    Desktop.digestLocalPath path t = Guest.digestPath g := by
  unfold Desktop.digestLocalPath Guest.digestPath
  cases h with
  | file content =>
    simp only [Tree.resolve]
  | dir shown hnames h hlisted =>
    obtain ⟨w, hdesktop, hguest⟩ := (walks_agree path (.dir shown hnames h hlisted) hd).1 hr
    simp only [Tree.resolve]
    rw [hdesktop, hguest]
  | special => cases hr
  | dangling => cases hr
  | link _ => cases hr

/-- An unchanged file has one digest on both sides. -/
theorem stream_of_unchanged {sha256 : Bytes → Text} (hsha : Function.Injective sha256) {t : Tree Bytes}
    {g : Tree Text} {path : Bytes} {remote : Option Metadata} {desktop : Metadata}
    (hlocal : localMetadata sha256 path t = .ok desktop) (hremote : pathMetadata sha256 (some g) = .ok remote)
    (h : changed remote desktop = false) :
    ∃ w w', Desktop.digestLocalPath path t = .ok w ∧ Guest.digestPath g = .ok w' ∧ w.stream = w'.stream := by
  cases remote with
  | none => cases h
  | some found =>
    unfold localMetadata at hlocal
    cases hw : Desktop.digestLocalPath path t with
    | error e =>
      rw [hw] at hlocal
      cases hlocal
    | ok w =>
      rw [hw] at hlocal
      cases hlocal
      simp only [pathMetadata] at hremote
      split at hremote
      · cases hremote
      · cases hw' : Guest.digestPath g with
        | error e =>
          rw [hw'] at hremote
          cases hremote
        | ok w' =>
          rw [hw'] at hremote
          cases hremote
          simp only [changed, Bool.not_eq_false', Bool.and_eq_true, beq_iff_eq] at h
          exact ⟨w, w', rfl, rfl, (hsha h.2).symm⟩

/-- Equal streams, and with them an unchanged file, mean equal trees where these are
legible, and nowhere else. -/
theorem unchanged_iff_legible {t t' : Tree Bytes} (h : t.Regular) (h' : t'.Regular) (hd : t.Distinct)
    (hd' : t'.Distinct) (hn : t.Names (0 ∉ ·)) (hn' : t'.Names (0 ∉ ·)) :
    (∀ path path' w w', Desktop.digestLocalPath path t = .ok w → Desktop.digestLocalPath path' t' = .ok w' →
      w.stream = w'.stream → (SameTree t t' ↔ Legible t t')) ∧
    ∀ sha256 : Bytes → Text, Function.Injective sha256 → ∀ g, Shows t' g → ∀ path desktop remote,
      localMetadata sha256 path t = .ok desktop → pathMetadata sha256 (some g) = .ok remote →
      changed remote desktop = false → (SameTree t t' ↔ Legible t t') := by
  constructor
  · intro path path' w w' hw hw' hstream
    exact sameTree_iff_legible h h' hd hd' hn hn' hw hw' hstream
  · intro sha256 hsha g hg path desktop remote hlocal hremote hchanged
    obtain ⟨w, w', hw, hw', hstream⟩ := stream_of_unchanged hsha hlocal hremote hchanged
    rw [← digests_shown path hg hd' h'] at hw'
    exact sameTree_iff_legible h h' hd hd' hn hn' hw hw' hstream

/-- A directory of files. -/
def flat (files : List (Bytes × Bytes)) : Tree Bytes := .dir (files.map fun f => (f.1, .file f.2))

theorem flat_regular (files : List (Bytes × Bytes)) : (flat files).Regular := by
  refine .dir fun e he => ?_
  obtain ⟨f, _, rfl⟩ := List.mem_map.mp he
  exact .file f.2

theorem flat_distinct {files : List (Bytes × Bytes)} (h : (files.map Prod.fst).Nodup) :
    (flat files).Distinct := by
  refine .dir ?_ fun e he => ?_
  · rw [List.map_map]
    exact h
  · obtain ⟨f, _, rfl⟩ := List.mem_map.mp he
    exact .file f.2

theorem flat_names {files : List (Bytes × Bytes)} {p : Bytes → Prop} (h : ∀ f ∈ files, p f.1) :
    (flat files).Names p := by
  refine .dir (fun e he => ?_) fun e he => ?_
  · obtain ⟨f, hf, rfl⟩ := List.mem_map.mp he
    exact h f hf
  · obtain ⟨f, _, rfl⟩ := List.mem_map.mp he
    exact .file f.2

/-- `a` holds `X`, then what a file `b` that holds `Y` is hashed as. -/
def oneFile : Tree Bytes := flat [([0x61], [0x58, 0x46, 0, 0x62, 0, 0x59])]

/-- `a` holds `X`, `b` holds `Y`. -/
def twoFiles : Tree Bytes := flat [([0x61], [0x58]), ([0x62], [0x59])]

def bothStream : Bytes := [0x46, 0, 0x61, 0, 0x58, 0x46, 0, 0x62, 0, 0x59]

theorem digest_oneFile (path : Bytes) : Desktop.digestLocalPath path oneFile = .ok ⟨bothStream, 6⟩ := by
  simp [Desktop.digestLocalPath, oneFile, flat, Tree.resolve, walkStack, hashListing,
    directories, files, sorted,
    Tree.isDir, inner, Desktop.side, bothStream]
  rfl

theorem digest_twoFiles (path : Bytes) : Desktop.digestLocalPath path twoFiles = .ok ⟨bothStream, 2⟩ := by
  simp [Desktop.digestLocalPath, twoFiles, flat, Tree.resolve, walkStack, hashListing,
    directories, files, sorted,
    Tree.isDir, inner, Desktop.side, bothStream, Bytes.key]
  rfl

theorem oneFile_other : ¬ SameTree oneFile twoFiles := by
  intro h
  have hb : At twoFiles [[0x62]] (.file [0x59]) := .inside (e := ([0x62], .file [0x59])) (by simp) (.here _)
  obtain ⟨e, he, hname, _⟩ := (((h _).2 _).mpr hb).inside_of
  rw [List.mem_singleton.mp he] at hname
  exact absurd hname (by decide)

/-- A file less, and the same stream. -/
theorem stream_not_injective : ¬ ∀ t t' : Tree Bytes, t.Regular → t'.Regular → t.Distinct → t'.Distinct →
    t.Names (fun name => 0x2F ∉ name ∧ 0 ∉ name) → t'.Names (fun name => 0x2F ∉ name ∧ 0 ∉ name) →
    ∀ path path' w w', Desktop.digestLocalPath path t = .ok w → Desktop.digestLocalPath path' t' = .ok w' →
      w.stream = w'.stream → SameTree t t' := by
  intro h
  have hsame := h oneFile twoFiles (flat_regular _) (flat_regular _) (flat_distinct (by decide))
    (flat_distinct (by decide)) (flat_names (by decide)) (flat_names (by decide))
  exact oneFile_other (hsame [] [] _ _ (digest_oneFile []) (digest_twoFiles []) rfl)

theorem oneFile_iff_legible : SameTree oneFile twoFiles ↔ Legible oneFile twoFiles := by
  have h := @unchanged_iff_legible oneFile twoFiles (flat_regular _) (flat_regular _)
    (flat_distinct (by decide))
    (flat_distinct (by decide)) (flat_names (by decide)) (flat_names (by decide))
  exact h.1 [] [] _ _ (digest_oneFile []) (digest_twoFiles []) rfl

end HomeStack.TreeDigest

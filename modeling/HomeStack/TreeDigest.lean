import HomeStack.Lib.Utf8

/-! The digest of a file or directory tree, as the desktop computes it
(`digest_local_path` of `setup/engine.rs`) and as the guest does (`_digest_path` of
`setup_guest.py`). The desktop keeps a stack of directories, the guest walks with
`os.walk`; both hash the same records. SHA-256 itself is left out: what is compared
is the stream of bytes that it is fed. -/

namespace HomeStack.TreeDigest

/-- What a name in a directory stands for, with names in `ν`. A link holds what it
leads to, if anything. -/
inductive Tree (ν : Type)
  | file (content : Bytes)
  | dir (entries : List (ν × Tree ν))
  | link (target : Option (Tree ν))
  | special

namespace Tree

variable {ν : Type}

/-- Where links lead. -/
def resolve : Tree ν → Option (Tree ν)
  | .link none => none
  | .link (some target) => target.resolve
  | t => some t

/-- `is_dir`, which follows links. -/
def isDir (t : Tree ν) : Bool :=
  match t.resolve with
  | some (.dir _) => true
  | _ => false

/-- `is_symlink` -/
def isLink : Tree ν → Bool
  | .link _ => true
  | _ => false

/-- The listing of a directory. -/
def entries : Tree ν → List (ν × Tree ν)
  | .dir es => es
  | _ => []

theorem sizeOf_entries_lt {e : ν × Tree ν} {es : List (ν × Tree ν)} (h : e ∈ es) :
    sizeOf e.2.entries < sizeOf es := by
  have hmem := List.sizeOf_lt_of_mem h
  obtain ⟨name, t⟩ := e
  simp only [Prod.mk.sizeOf_spec] at hmem
  cases t with
  | dir fs =>
    simp only [entries, Tree.dir.sizeOf_spec] at hmem ⊢
    omega
  | _ =>
    simp only [entries, List.nil.sizeOf_spec] at hmem ⊢
    have := List.sizeOf_lt_of_mem h
    simp only [Prod.mk.sizeOf_spec] at this
    omega

/-- Induction over listings: from those of a directory's entries to its own. -/
@[elab_as_elim]
theorem listing_induction {motive : List (ν × Tree ν) → Prop}
    (step : ∀ es, (∀ e ∈ es, motive e.2.entries) → motive es) (es : List (ν × Tree ν)) : motive es := by
  induction hn : sizeOf es using Nat.strong_induction_on generalizing es with
  | _ n ih =>
    subst hn
    exact step es fun e he => ih _ (sizeOf_entries_lt he) _ rfl

end Tree

/-- What is hashed so far, and the bytes of the files among it. -/
structure Walk where
  stream : Bytes
  total : Nat
  deriving DecidableEq

/-- One side: how names sort, how a path below the root is hashed, and what is said of
a link to a directory and of what is no plain file. A path is the list of its names. -/
structure Side (ν : Type) where
  before : ν → ν → Prop
  decides : DecidableRel before
  total : ∀ a b, before a b ∨ before b a
  trans : ∀ a b c, before a b → before b c → before a c
  relative : List ν → Bytes
  linkedDirectory : List ν → Text
  specialFile : List ν → Text

variable {ν : Type} (S : Side ν)

def tagD : UInt8 := 0x44

def tagF : UInt8 := 0x46

/-- `D\0{relative}\0` and `F\0{relative}\0` -/
def header (tag : UInt8) (path : Bytes) : Bytes := tag :: 0 :: (path ++ [0])

def Walk.update (w : Walk) (bytes : Bytes) : Walk := { w with stream := w.stream ++ bytes }

/-- The chunks of a file, whatever their size. -/
def Walk.read (w : Walk) (content : Bytes) : Walk := ⟨w.stream ++ content, w.total + content.length⟩

/-- A listing, sorted by name. -/
def sorted (es : List (ν × Tree ν)) : List (ν × Tree ν) :=
  haveI := S.decides
  es.insertionSort fun a b => S.before a.1 b.1

theorem perm_sorted (es : List (ν × Tree ν)) : (sorted S es).Perm es := by
  unfold sorted
  let _ := S.decides
  exact List.perm_insertionSort _ es

theorem pairwise_sorted (es : List (ν × Tree ν)) : (sorted S es).Pairwise fun a b => S.before a.1 b.1 := by
  let _ := S.decides
  have htotal : Std.Total fun a b : ν × Tree ν => S.before a.1 b.1 := ⟨fun a b => S.total a.1 b.1⟩
  have htrans : IsTrans (ν × Tree ν) fun a b => S.before a.1 b.1 := ⟨fun a b c => S.trans a.1 b.1 c.1⟩
  exact List.pairwise_insertionSort _ es

def directories (es : List (ν × Tree ν)) : List (ν × Tree ν) := sorted S (es.filter fun e => e.2.isDir)

def files (es : List (ν × Tree ν)) : List (ν × Tree ν) := sorted S (es.filter fun e => !e.2.isDir)

theorem mem_of_mem_directories {e : ν × Tree ν} {es : List (ν × Tree ν)} (h : e ∈ directories S es) :
    e ∈ es :=
  (List.mem_filter.mp ((perm_sorted S _).mem_iff.mp h)).1

def hashDirectory (dir : List ν) (w : Walk) (e : ν × Tree ν) : Except Text Walk :=
  if e.2.isLink then .error (S.linkedDirectory (dir ++ [e.1]))
  else .ok (w.update (header tagD (S.relative (dir ++ [e.1]))))

def hashFile (dir : List ν) (w : Walk) (e : ν × Tree ν) : Except Text Walk :=
  match e.2 with
  | .file content => .ok ((w.update (header tagF (S.relative (dir ++ [e.1])))).read content)
  | _ => .error (S.specialFile (dir ++ [e.1]))

/-- One directory: its subdirectories, then its files. -/
def hashListing (dir : List ν) (es : List (ν × Tree ν)) (w : Walk) : Except Text Walk := do
  let w ← (directories S es).foldlM (hashDirectory S dir) w
  (files S es).foldlM (hashFile S dir) w

/-- The subdirectories still to be listed. -/
def inner (dir : List ν) (es : List (ν × Tree ν)) : List (List ν × List (ν × Tree ν)) :=
  (directories S es).map fun e => (dir ++ [e.1], e.2.entries)

/-! ## The desktop -/

theorem sum_inner_lt (dir : List ν) (es : List (ν × Tree ν)) :
    ((inner S dir es).map fun d => sizeOf d.2).sum < sizeOf es := by
  have hall : ∀ fs : List (ν × Tree ν), (fs.map fun e => sizeOf e.2.entries).sum < sizeOf fs := by
    intro fs
    induction fs with
    | nil => simp
    | cons e fs ih =>
      have he := Tree.sizeOf_entries_lt (List.mem_singleton_self e)
      simp only [List.cons.sizeOf_spec, List.nil.sizeOf_spec, List.map_cons, List.sum_cons] at he ⊢
      omega
  have hperm : ((inner S dir es).map fun d => sizeOf d.2).sum =
      ((es.filter fun e => e.2.isDir).map fun e => sizeOf e.2.entries).sum := by
    unfold inner directories
    rw [List.map_map]
    exact ((perm_sorted S _).map _).sum_eq
  rw [hperm]
  refine lt_of_le_of_lt ?_ (hall es)
  exact (List.filter_sublist.map _).sum_le_sum fun _ _ => Nat.zero_le _

/-- `digest_local_path` of a directory: the last one pushed is popped first. -/
def walkStack : List (List ν × List (ν × Tree ν)) → Walk → Except Text Walk
  | [], w => .ok w
  | (dir, es) :: pending, w => do
    let w ← hashListing S dir es w
    walkStack (inner S dir es ++ pending) w
termination_by pending => (pending.map fun d => sizeOf d.2).sum
decreasing_by
  have := sum_inner_lt S dir es
  simp only [List.map_append, List.sum_append, List.map_cons, List.sum_cons]
  omega

/-! ## The guest -/

/-- `_digest_path` of a directory: `os.walk` yields a directory, its subdirectories are
sorted in place and then walked. -/
def walkTree (dir : List ν) (es : List (ν × Tree ν)) (w : Walk) : Except Text Walk := do
  let w ← hashListing S dir es w
  (directories S es).attach.foldlM (fun w e => walkTree (dir ++ [e.1.1]) e.1.2.entries w) w
termination_by sizeOf es
decreasing_by
  exact Tree.sizeOf_entries_lt (mem_of_mem_directories S e.2)

/-! ## Records -/

/-- One entry of a tree in the order of the walk. -/
inductive Record (ν : Type)
  | dir (path : List ν)
  | file (path : List ν) (content : Bytes)
  | linked (path : List ν)
  | special (path : List ν)

/-- What is hashed for a record. -/
def emit (w : Walk) : Record ν → Except Text Walk
  | .dir path => .ok (w.update (header tagD (S.relative path)))
  | .file path content => .ok ((w.update (header tagF (S.relative path))).read content)
  | .linked path => .error (S.linkedDirectory path)
  | .special path => .error (S.specialFile path)

def directoryRecord (dir : List ν) (e : ν × Tree ν) : Record ν :=
  if e.2.isLink then .linked (dir ++ [e.1]) else .dir (dir ++ [e.1])

def fileRecord (dir : List ν) (e : ν × Tree ν) : Record ν :=
  match e.2 with
  | .file content => .file (dir ++ [e.1]) content
  | _ => .special (dir ++ [e.1])

/-- The records of one listing. -/
def listing (dir : List ν) (es : List (ν × Tree ν)) : List (Record ν) :=
  (directories S es).map (directoryRecord dir) ++ (files S es).map (fileRecord dir)

/-- All records below a directory. -/
def records (dir : List ν) (es : List (ν × Tree ν)) : List (Record ν) :=
  listing S dir es ++ (directories S es).attach.flatMap fun e => records (dir ++ [e.1.1]) e.1.2.entries
termination_by sizeOf es
decreasing_by
  exact Tree.sizeOf_entries_lt (mem_of_mem_directories S e.2)

theorem records_eq (dir : List ν) (es : List (ν × Tree ν)) : records S dir es =
    listing S dir es ++ (directories S es).flatMap fun e => records S (dir ++ [e.1]) e.2.entries := by
  rw [records]
  congr 1
  rw [List.flatMap_subtype (g := fun e => records S (dir ++ [e.1]) e.2.entries) fun _ _ => rfl,
    List.unattach_attach]

theorem walkTree_unfold (dir : List ν) (es : List (ν × Tree ν)) (w : Walk) :
    walkTree S dir es w = hashListing S dir es w >>= fun w =>
      (directories S es).foldlM (fun w e => walkTree S (dir ++ [e.1]) e.2.entries w) w := by
  rw [walkTree]
  congr 1
  funext w
  rw [List.foldlM_subtype (g := fun w e => walkTree S (dir ++ [e.1]) e.2.entries w) fun _ _ _ => rfl,
    List.unattach_attach]

theorem hashListing_eq (dir : List ν) (es : List (ν × Tree ν)) (w : Walk) :
    hashListing S dir es w = (listing S dir es).foldlM (emit S) w := by
  have hdirectory : hashDirectory S dir = fun w e => emit S w (directoryRecord dir e) := by
    funext w e
    unfold hashDirectory directoryRecord
    cases e.2.isLink <;> rfl
  have hfile : hashFile S dir = fun w e => emit S w (fileRecord dir e) := by
    funext w e
    unfold hashFile fileRecord
    cases e.2 <;> rfl
  unfold hashListing listing
  rw [List.foldlM_append, List.foldlM_map, hdirectory, hfile]
  congr 1
  funext w
  rw [List.foldlM_map]

/-- The guest's walk hashes the records. -/
theorem walkTree_eq (dir : List ν) (es : List (ν × Tree ν)) (w : Walk) :
    walkTree S dir es w = (records S dir es).foldlM (emit S) w := by
  induction es using Tree.listing_induction generalizing dir w with
  | step es ih =>
    rw [walkTree_unfold, records_eq, List.foldlM_append, hashListing_eq]
    congr 1
    funext w
    have hinner : ∀ ds : List (ν × Tree ν), (∀ e ∈ ds, e ∈ es) → ∀ w,
        ds.foldlM (fun w e => walkTree S (dir ++ [e.1]) e.2.entries w) w =
          (ds.flatMap fun e => records S (dir ++ [e.1]) e.2.entries).foldlM (emit S) w := by
      intro ds
      induction ds with
      | nil => exact fun _ _ => rfl
      | cons d ds ihds =>
        intro hmem w
        rw [List.foldlM_cons, List.flatMap_cons, List.foldlM_append, ih d (hmem d List.mem_cons_self)]
        congr 1
        funext w
        exact ihds (fun e he => hmem e (List.mem_cons_of_mem _ he)) w
    exact hinner _ (fun e he => mem_of_mem_directories S he) w

/-- So does the desktop's. -/
theorem walkStack_eq (pending : List (List ν × List (ν × Tree ν))) (w : Walk) :
    walkStack S pending w = (pending.flatMap fun d => records S d.1 d.2).foldlM (emit S) w := by
  induction pending, w using walkStack.induct S with
  | case1 w =>
    rw [walkStack]
    rfl
  | case2 w dir es pending ih =>
    rw [walkStack, List.flatMap_cons, records_eq, List.append_assoc, List.foldlM_append, hashListing_eq]
    congr 1
    funext w
    rw [ih w, List.flatMap_append, inner, List.flatMap_map]

/-! ## The two sides -/

namespace Desktop

def join (path name : Bytes) : Bytes :=
  if path = [] ∨ path.getLast? = some 0x2F then path ++ name else path ++ 0x2F :: name

/-- `child.display()`, for a child of the source at `path` -/
def display (path : Bytes) (names : List Bytes) : Text := Bytes.fromUtf8Lossy (names.foldl join path)

def side (path : Bytes) : Side Bytes where
  before a b := a.key ≤ b.key
  decides := fun a b => inferInstanceAs (Decidable (a.key ≤ b.key))
  total a b := le_total a.key b.key
  trans _ _ _ := le_trans
  relative names := (Bytes.fromUtf8Lossy (List.intercalate [0x2F] names)).utf8
  linkedDirectory names := "Managed source directory contains a symlink: ".toList ++ display path names
  specialFile names := "Managed source directory contains a symlink or special file: ".toList ++
    display path names

/-- `digest_local_path`: what is hashed, and the size. -/
def digestLocalPath (path : Bytes) (t : Tree Bytes) : Except Text Walk :=
  match t.resolve with
  | some (.file content) => .ok ⟨content, content.length⟩
  | some (.dir es) => walkStack (side path) [([], es)] ⟨[], 0⟩
  | _ => .error ("Managed source path is neither a file nor directory: ".toList ++ display path [])

end Desktop

namespace Guest

def side : Side Text where
  before a b := a ≤ b
  decides := fun a b => inferInstanceAs (Decidable (a ≤ b))
  total a b := le_total a b
  trans _ _ _ := le_trans
  relative names := Text.utf8 (List.intercalate "/".toList names)
  linkedDirectory _ := "Managed directory contains a symlink".toList
  specialFile _ := "Managed directory contains a symlink or special file".toList

def digestPath (t : Tree Text) : Except Text Walk :=
  match t.resolve with
  | some (.file content) => .ok ⟨content, content.length⟩
  | some (.dir es) => walkTree side [] es ⟨[], 0⟩
  | _ => .error "Managed path is neither a regular file nor a directory".toList

end Guest

/-! ## Both sides agree -/

/-- What a good record adds to the stream. -/
def Record.bytes : Record ν → Bytes
  | .dir path => header tagD (S.relative path)
  | .file path content => header tagF (S.relative path) ++ content
  | _ => []

def Record.size : Record ν → Nat
  | .file _ content => content.length
  | _ => 0

/-- Neither a link nor a special file. -/
def Record.Good : Record ν → Prop
  | .dir _ | .file _ _ => True
  | _ => False

theorem emit_good {r : Record ν} (h : r.Good) (w : Walk) :
    emit S w r = .ok ⟨w.stream ++ r.bytes S, w.total + r.size⟩ := by
  cases r with
  | dir path => rfl
  | file path content => simp [emit, Walk.update, Walk.read, Record.bytes, Record.size]
  | linked path => exact h.elim
  | special path => exact h.elim

theorem emit_bad {r : Record ν} (h : ¬ r.Good) (w : Walk) : ∃ e, emit S w r = .error e := by
  cases r with
  | dir path => exact absurd trivial h
  | file path content => exact absurd trivial h
  | linked path => exact ⟨_, rfl⟩
  | special path => exact ⟨_, rfl⟩

theorem foldlM_emit_good {rs : List (Record ν)} (h : ∀ r ∈ rs, r.Good) (w : Walk) :
    rs.foldlM (emit S) w = .ok ⟨w.stream ++ rs.flatMap (Record.bytes S),
      w.total + (rs.map Record.size).sum⟩ := by
  induction rs generalizing w with
  | nil => simp [pure, Except.pure]
  | cons r rs ih =>
    rw [List.foldlM_cons, emit_good S (h r List.mem_cons_self)]
    refine (ih (fun x hx => h x (List.mem_cons_of_mem _ hx)) _).trans ?_
    simp [List.append_assoc, Nat.add_assoc]

theorem foldlM_emit_bad {rs : List (Record ν)} (h : ¬ ∀ r ∈ rs, r.Good) (w : Walk) :
    ∃ e, rs.foldlM (emit S) w = .error e := by
  induction rs generalizing w with
  | nil => exact absurd (fun _ hr => nomatch hr) h
  | cons r rs ih =>
    rw [List.foldlM_cons]
    by_cases hr : r.Good
    · rw [emit_good S hr]
      exact ih (fun hall => h (List.forall_mem_cons.mpr ⟨hr, hall⟩)) _
    · obtain ⟨e, he⟩ := emit_bad S hr w
      rw [he]
      exact ⟨e, rfl⟩

/-- Plain files and directories only. -/
inductive Tree.Regular : Tree ν → Prop
  | file (content : Bytes) : Regular (.file content)
  | dir {es : List (ν × Tree ν)} (h : ∀ e ∈ es, Regular e.2) : Regular (.dir es)

theorem mem_directories {e : ν × Tree ν} {es : List (ν × Tree ν)} :
    e ∈ directories S es ↔ e ∈ es ∧ e.2.isDir = true :=
  (perm_sorted S _).mem_iff.trans List.mem_filter

theorem mem_files {e : ν × Tree ν} {es : List (ν × Tree ν)} :
    e ∈ files S es ↔ e ∈ es ∧ e.2.isDir = false := by
  refine (perm_sorted S _).mem_iff.trans (List.mem_filter.trans ?_)
  simp

theorem good_directoryRecord (dir : List ν) (e : ν × Tree ν) :
    (directoryRecord dir e).Good ↔ e.2.isLink = false := by
  unfold directoryRecord
  cases e.2.isLink <;> simp [Record.Good]

theorem good_fileRecord (dir : List ν) (e : ν × Tree ν) :
    (fileRecord dir e).Good ↔ ∃ content, e.2 = .file content := by
  unfold fileRecord
  cases e.2 <;> simp [Record.Good]

/-- The records are good where the tree is regular. -/
theorem good_records (dir : List ν) (es : List (ν × Tree ν)) :
    (∀ r ∈ records S dir es, r.Good) ↔ ∀ e ∈ es, e.2.Regular := by
  induction es using Tree.listing_induction generalizing dir with
  | step es ih =>
    have hdirectory : ∀ e ∈ es, e.2.isDir = true → (e.2.isLink = false ∧
        (∀ r ∈ records S (dir ++ [e.1]) e.2.entries, r.Good) ↔ e.2.Regular) := by
      intro e he hdir
      rw [ih e he]
      obtain ⟨name, t⟩ := e
      cases t with
      | file content => exact absurd hdir (by simp [Tree.isDir, Tree.resolve])
      | special => exact absurd hdir (by simp [Tree.isDir, Tree.resolve])
      | link target => exact ⟨(nomatch ·.1), nofun⟩
      | dir fs => exact ⟨fun h => .dir h.2, fun h => by cases h with | dir h => exact ⟨rfl, h⟩⟩
    have hfile : ∀ e ∈ es, e.2.isDir = false → ((∃ content, e.2 = .file content) ↔ e.2.Regular) := by
      intro e _ hdir
      obtain ⟨name, t⟩ := e
      cases t with
      | file content => exact ⟨fun _ => .file content, fun _ => ⟨content, rfl⟩⟩
      | special => exact ⟨nofun, nofun⟩
      | link target => exact ⟨nofun, nofun⟩
      | dir fs => exact absurd hdir (by simp [Tree.isDir, Tree.resolve])
    rw [records_eq]
    constructor
    · intro h e he
      cases hdir : e.2.isDir with
      | true =>
        have hmem := (mem_directories S).mpr ⟨he, hdir⟩
        refine (hdirectory e he hdir).mp ⟨(good_directoryRecord dir e).mp (h _ ?_), fun r hr => h r ?_⟩
        · exact List.mem_append_left _ (List.mem_append_left _ (List.mem_map_of_mem hmem))
        · exact List.mem_append_right _ (List.mem_flatMap.mpr ⟨e, hmem, hr⟩)
      | false =>
        have hmem := (mem_files S).mpr ⟨he, hdir⟩
        refine (hfile e he hdir).mp ((good_fileRecord dir e).mp (h _ ?_))
        exact List.mem_append_left _ (List.mem_append_right _ (List.mem_map_of_mem hmem))
    · intro h r hr
      rcases List.mem_append.mp hr with hr | hr
      · rcases List.mem_append.mp hr with hr | hr
        · obtain ⟨e, he, rfl⟩ := List.mem_map.mp hr
          obtain ⟨he, hdir⟩ := (mem_directories S).mp he
          exact (good_directoryRecord dir e).mpr ((hdirectory e he hdir).mpr (h e he)).1
        · obtain ⟨e, he, rfl⟩ := List.mem_map.mp hr
          obtain ⟨he, hdir⟩ := (mem_files S).mp he
          exact (good_fileRecord dir e).mpr ((hfile e he hdir).mpr (h e he))
      · obtain ⟨e, he, hr⟩ := List.mem_flatMap.mp hr
        obtain ⟨he, hdir⟩ := (mem_directories S).mp he
        exact ((hdirectory e he hdir).mpr (h e he)).2 r hr

/-- No directory has two entries of one name. -/
inductive Tree.Distinct : Tree ν → Prop
  | file (content : Bytes) : Distinct (.file content)
  | special : Distinct .special
  | dangling : Distinct (.link none)
  | link {t : Tree ν} (h : Distinct t) : Distinct (.link (some t))
  | dir {es : List (ν × Tree ν)} (hnames : (es.map Prod.fst).Nodup) (h : ∀ e ∈ es,
      Distinct e.2) : Distinct (.dir es)

/-- One tree as the kernel names it and as the guest's Python does, each directory listed
in any order. -/
inductive Shows : Tree Bytes → Tree Text → Prop
  | file (content : Bytes) : Shows (.file content) (.file content)
  | special : Shows .special .special
  | dangling : Shows (.link none) (.link none)
  | link {t : Tree Bytes} {g : Tree Text} (h : Shows t g) : Shows (.link (some t)) (.link (some g))
  | dir {es : List (Bytes × Tree Bytes)} {gs : List (Text × Tree Text)} (shown : Bytes × Tree Bytes →
      Text × Tree Text)
      (hnames : ∀ e ∈ es, (shown e).1.utf8 = e.1) (h : ∀ e ∈ es, Shows e.2 (shown e).2)
      (hlisted : gs.Perm (es.map shown)) : Shows (.dir es) (.dir gs)

namespace Shows

theorem isLink {t : Tree Bytes} {g : Tree Text} (h : Shows t g) : g.isLink = t.isLink := by
  cases h <;> rfl

/-- What the links lead to is shown, too. -/
theorem resolve {t : Tree Bytes} {g : Tree Text} (h : Shows t g) : Option.Rel Shows t.resolve g.resolve := by
  induction h with
  | file content =>
    simp only [Tree.resolve]
    exact .some (.file content)
  | special =>
    simp only [Tree.resolve]
    exact .some .special
  | dangling =>
    simp only [Tree.resolve]
    exact .none
  | link _ ih =>
    simp only [Tree.resolve]
    exact ih
  | dir shown hnames h hlisted _ =>
    simp only [Tree.resolve]
    exact .some (.dir shown hnames h hlisted)

theorem isDir {t : Tree Bytes} {g : Tree Text} (h : Shows t g) : g.isDir = t.isDir := by
  have hresolve := h.resolve
  unfold Tree.isDir
  generalize t.resolve = a at *
  generalize g.resolve = b at *
  cases hresolve with
  | none => rfl
  | some h => cases h <;> rfl

end Shows

/-- The path in bytes. -/
def Record.utf8 : Record Text → Record Bytes
  | .dir path => .dir (path.map Text.utf8)
  | .file path content => .file (path.map Text.utf8) content
  | .linked path => .linked (path.map Text.utf8)
  | .special path => .special (path.map Text.utf8)

section

variable {es : List (Bytes × Tree Bytes)} {gs : List (Text × Tree Text)}
  {shown : Bytes × Tree Bytes → Text × Tree Text} (path : Bytes)

/-- Bytes and code points sort a listing alike. -/
theorem sorted_shown (hd : (es.map Prod.fst).Nodup) (hnames : ∀ e ∈ es, (shown e).1.utf8 = e.1)
    (hlisted : gs.Perm (es.map shown)) : sorted Guest.side gs =
      (sorted (Desktop.side path) es).map shown := by
  have hperm : (sorted Guest.side gs).Perm ((sorted (Desktop.side path) es).map shown) :=
    (perm_sorted _ gs).trans (hlisted.trans ((perm_sorted _ es).map shown).symm)
  refine List.Perm.eq_of_pairwise ?_ (pairwise_sorted Guest.side gs) ?_ hperm
  · intro a b ha hb hab hba
    obtain ⟨x, hx, rfl⟩ := List.mem_map.mp (hperm.mem_iff.mp ha)
    obtain ⟨y, hy, rfl⟩ := List.mem_map.mp hb
    have hx := (perm_sorted _ es).mem_iff.mp hx
    have hy := (perm_sorted _ es).mem_iff.mp hy
    have hname : (shown x).1 = (shown y).1 := le_antisymm hab hba
    have hkernel : x.1 = y.1 := by rw [← hnames x hx, ← hnames y hy, hname]
    rw [List.inj_on_of_nodup_map hd hx hy hkernel]
  · refine List.pairwise_map.mpr ((pairwise_sorted (Desktop.side path) es).imp_of_mem ?_)
    intro a b ha hb hab
    have hab : a.1.key ≤ b.1.key := hab
    rw [← hnames a ((perm_sorted _ es).mem_iff.mp ha), ← hnames b ((perm_sorted _ es).mem_iff.mp hb)] at hab
    exact (Text.utf8_le_iff _ _).mp hab

/-- So they do what is left of it by a property that both show. -/
theorem sorted_filter_shown (hd : (es.map Prod.fst).Nodup) (hnames : ∀ e ∈ es, (shown e).1.utf8 = e.1)
    (hlisted : gs.Perm (es.map shown)) {p : Bytes × Tree Bytes → Bool} {q : Text × Tree Text → Bool}
    (hq : ∀ e ∈ es, q (shown e) = p e) :
    sorted Guest.side (gs.filter q) = (sorted (Desktop.side path) (es.filter p)).map shown := by
  have hfilter : (es.map shown).filter q = (es.filter p).map shown := by
    rw [List.filter_map]
    congr 1
    exact List.filter_congr hq
  refine sorted_shown path (hd.sublist (List.filter_sublist.map _)) ?_ ?_
  · exact fun e he => hnames e (List.mem_filter.mp he).1
  · rw [← hfilter]
    exact hlisted.filter q

end

theorem records_nil (dir : List ν) : records S dir [] = [] := by
  rw [records_eq]
  rfl

theorem directoryRecord_shown {e : Bytes × Tree Bytes} {g : Text × Tree Text} (hname : g.1.utf8 = e.1)
    (h : Shows e.2 g.2) (dir : List Text) :
    directoryRecord (dir.map Text.utf8) e = (directoryRecord dir g).utf8 := by
  unfold directoryRecord
  rw [h.isLink]
  cases e.2.isLink <;> simp [Record.utf8, hname]

theorem fileRecord_shown {e : Bytes × Tree Bytes} {g : Text × Tree Text} (hname : g.1.utf8 = e.1)
    (h : Shows e.2 g.2) (dir : List Text) : fileRecord (dir.map Text.utf8) e = (fileRecord dir g).utf8 := by
  obtain ⟨name, t⟩ := e
  obtain ⟨name', g⟩ := g
  change name'.utf8 = name at hname
  subst hname
  cases h <;> simp [fileRecord, Record.utf8]

/-- Both sides see the same records. -/
theorem records_shown (path : Bytes) {t : Tree Bytes} {g : Tree Text} (h : Shows t g)
    (hd : t.Distinct) (dir : List Text) :
    records (Desktop.side path) (dir.map Text.utf8) t.entries =
      (records Guest.side dir g.entries).map Record.utf8 := by
  induction h generalizing dir with
  | file | special | dangling | link =>
    simp only [Tree.entries, records_nil]
    rfl
  | @dir es gs shown hnames h hlisted ih =>
    cases hd with
    | dir hdistinct hd =>
      have hdirectories : directories Guest.side gs = (directories (Desktop.side path) es).map shown :=
        sorted_filter_shown path hdistinct hnames hlisted fun e he => (h e he).isDir
      have hfiles : files Guest.side gs = (files (Desktop.side path) es).map shown :=
        sorted_filter_shown path hdistinct hnames hlisted fun e he => by rw [(h e he).isDir]
      simp only [Tree.entries]
      rw [records_eq, records_eq]
      simp only [listing, hdirectories, hfiles, List.map_append, List.map_map,
        List.map_flatMap, List.flatMap_map]
      congr 1
      · congr 1
        · refine List.map_congr_left fun e he => ?_
          have he := ((mem_directories _).mp he).1
          exact directoryRecord_shown (hnames e he) (h e he) dir
        · refine List.map_congr_left fun e he => ?_
          have he := ((mem_files _).mp he).1
          exact fileRecord_shown (hnames e he) (h e he) dir
      · refine List.flatMap_congr fun e he => ?_
        have he := ((mem_directories _).mp he).1
        rw [← ih e he (hd e he), List.map_append, List.map_singleton, hnames e he]

theorem utf8_intercalate (names : List Text) :
    Text.utf8 (List.intercalate "/".toList names) = List.intercalate [0x2F] (names.map Text.utf8) := by
  have hslash : Text.utf8 "/".toList = [0x2F] := by decide +kernel
  have hnil : Text.utf8 [] = [] := by decide
  induction names with
  | nil => exact hnil
  | cons name names ih =>
    cases names with
    | nil => simp
    | cons next names =>
      rw [List.map_cons, List.map_cons, List.intercalate_cons_cons,
        List.intercalate_cons_cons, Text.utf8_append,
        Text.utf8_append, ih, hslash, List.map_cons]

theorem relative_utf8 (path : Bytes) (names : List Text) :
    (Desktop.side path).relative (names.map Text.utf8) = Guest.side.relative names := by
  change (Bytes.fromUtf8Lossy (List.intercalate [0x2F] (names.map Text.utf8))).utf8 =
    Text.utf8 (List.intercalate "/".toList names)
  rw [← utf8_intercalate, Text.fromUtf8Lossy_utf8]

theorem good_utf8 (r : Record Text) : r.utf8.Good ↔ r.Good := by
  cases r <;> rfl

theorem size_utf8 (r : Record Text) : r.utf8.size = r.size := by
  cases r <;> rfl

theorem bytes_utf8 (path : Bytes) (r : Record Text) :
    r.utf8.bytes (Desktop.side path) = r.bytes Guest.side := by
  cases r <;> simp [Record.utf8, Record.bytes, relative_utf8]

theorem walkStack_root (path : Bytes) (es : List (Bytes × Tree Bytes)) :
    walkStack (Desktop.side path) [([], es)] ⟨[], 0⟩ =
      (records (Desktop.side path) [] es).foldlM (emit (Desktop.side path)) ⟨[], 0⟩ := by
  rw [walkStack_eq, List.flatMap_singleton]

theorem Tree.Distinct.resolve {t r : Tree ν} (hd : t.Distinct) (h : t.resolve = some r) : r.Distinct := by
  induction hd with
  | dangling =>
    simp only [Tree.resolve] at h
    cases h
  | link _ ih =>
    simp only [Tree.resolve] at h
    exact ih h
  | file content =>
    simp only [Tree.resolve, Option.some.injEq] at h
    exact h ▸ .file content
  | special =>
    simp only [Tree.resolve, Option.some.injEq] at h
    exact h ▸ .special
  | dir hnames hd _ =>
    simp only [Tree.resolve, Option.some.injEq] at h
    exact h ▸ .dir hnames hd

/-- The walks of one directory end alike. -/
theorem walks_agree (path : Bytes) {es : List (Bytes × Tree Bytes)} {gs : List (Text × Tree Text)}
    (h : Shows (.dir es) (.dir gs)) (hd : (Tree.dir es).Distinct) :
    ((Tree.dir es).Regular → ∃ w, walkStack (Desktop.side path) [([], es)] ⟨[], 0⟩ = .ok w ∧
      walkTree Guest.side [] gs ⟨[], 0⟩ = .ok w) ∧
    (¬ (Tree.dir es).Regular → (∃ e, walkStack (Desktop.side path) [([], es)] ⟨[], 0⟩ = .error e) ∧
      ∃ e, walkTree Guest.side [] gs ⟨[], 0⟩ = .error e) := by
  have hrecords : records (Desktop.side path) [] es = (records Guest.side [] gs).map Record.utf8 :=
    records_shown path h hd []
  have hgood : (∀ r ∈ records (Desktop.side path) [] es, r.Good) ↔
      ∀ r ∈ records Guest.side [] gs, r.Good := by
    rw [hrecords, List.forall_mem_map]
    exact forall₂_congr fun r _ => good_utf8 r
  have hregular : (Tree.dir es).Regular ↔ ∀ r ∈ records (Desktop.side path) [] es, r.Good := by
    rw [good_records]
    exact ⟨fun h => by cases h with | dir h => exact h, .dir⟩
  rw [walkStack_root, walkTree_eq]
  constructor
  · intro hall
    have hall := hregular.mp hall
    rw [foldlM_emit_good _ hall, foldlM_emit_good _ (hgood.mp hall), hrecords, List.flatMap_map, List.map_map]
    have hbytes : (fun r : Record Text => r.utf8.bytes (Desktop.side path)) = Record.bytes Guest.side :=
      funext (bytes_utf8 path)
    have hsize : Record.size ∘ Record.utf8 = Record.size := funext size_utf8
    rw [hbytes, hsize]
    exact ⟨_, rfl, rfl⟩
  · intro hbad
    have hbad := fun hall => hbad (hregular.mpr hall)
    exact ⟨foldlM_emit_bad _ hbad _, foldlM_emit_bad _ (fun hall => hbad (hgood.mpr hall)) _⟩

/-- Desktop and guest hash the same bytes of a regular tree, and refuse any other. -/
theorem digests_agree (path : Bytes) {t : Tree Bytes} {g : Tree Text} (h : Shows t g) (hd : t.Distinct) :
    (∀ r, t.resolve = some r → r.Regular →
      ∃ w, Desktop.digestLocalPath path t = .ok w ∧ Guest.digestPath g = .ok w) ∧
    ((∀ r, t.resolve = some r → ¬ r.Regular) →
      (∃ e, Desktop.digestLocalPath path t = .error e) ∧ ∃ e, Guest.digestPath g = .error e) := by
  have hd : ∀ r, t.resolve = some r → r.Distinct := fun _ hr => hd.resolve hr
  have hresolve := h.resolve
  unfold Desktop.digestLocalPath Guest.digestPath
  generalize t.resolve = a at *
  generalize g.resolve = b at *
  cases hresolve with
  | none => exact ⟨nofun, fun _ => ⟨⟨_, rfl⟩, _, rfl⟩⟩
  | some hroot =>
    simp only [Option.some.injEq, forall_eq'] at hd ⊢
    cases hroot with
    | file content => exact ⟨fun _ => ⟨_, rfl, rfl⟩, fun hbad => absurd (.file content) hbad⟩
    | special => exact ⟨nofun, fun _ => ⟨⟨_, rfl⟩, _, rfl⟩⟩
    | dangling => exact ⟨nofun, fun _ => ⟨⟨_, rfl⟩, _, rfl⟩⟩
    | link _ => exact ⟨nofun, fun _ => ⟨⟨_, rfl⟩, _, rfl⟩⟩
    | dir shown hnames h hlisted => exact walks_agree path (.dir shown hnames h hlisted) hd

/-- A file and a directory, the file listed first. -/
def kernelTree : Tree Bytes :=
  .dir [(Text.utf8 "z".toList, .file [1]), (Text.utf8 "d".toList, .dir [(Text.utf8 "x".toList, .file [2])])]

/-- The same tree, the directory listed first. -/
def guestTree : Tree Text := .dir [("d".toList, .dir [("x".toList, .file [2])]), ("z".toList, .file [1])]

theorem guestTree_shown : Shows kernelTree guestTree := by
  refine .dir (fun e => if e.2.isDir then ("d".toList, .dir [("x".toList, .file [2])])
  else ("z".toList, .file [1])) ?_ ?_ ?_
  · simp [Tree.isDir, Tree.resolve]
  · simp only [List.mem_cons, List.not_mem_nil, or_false, forall_eq_or_imp, forall_eq]
    refine ⟨.file [1], .dir (fun _ => ("x".toList, .file [2])) ?_ ?_ (.refl _)⟩
    · simp
    · simp only [List.mem_cons, List.not_mem_nil, or_false, forall_eq]
      exact .file [2]
  · exact .swap _ _ _

theorem kernelTree_distinct : kernelTree.Distinct := by
  refine .dir (by decide +kernel) ?_
  simp only [List.mem_cons, List.not_mem_nil, or_false, forall_eq_or_imp, forall_eq]
  refine ⟨.file [1], .dir (by decide +kernel) ?_⟩
  simp only [List.mem_cons, List.not_mem_nil, or_false, forall_eq]
  exact .file [2]

theorem kernelTree_regular : kernelTree.Regular := by
  refine .dir ?_
  simp only [List.mem_cons, List.not_mem_nil, or_false, forall_eq_or_imp, forall_eq]
  refine ⟨.file [1], .dir ?_⟩
  simp only [List.mem_cons, List.not_mem_nil, or_false, forall_eq]
  exact .file [2]

theorem digests_agree_kernelTree :
    ∃ w, Desktop.digestLocalPath (Text.utf8 "/srv/app".toList) kernelTree = .ok w ∧
      Guest.digestPath guestTree = .ok w := by
  refine (digests_agree _ guestTree_shown kernelTree_distinct).1 _ ?_ kernelTree_regular
  unfold kernelTree
  simp only [Tree.resolve]

end HomeStack.TreeDigest

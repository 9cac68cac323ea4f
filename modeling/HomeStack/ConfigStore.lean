import HomeStack.Lib.Sha256
import HomeStack.Lib.Prog

/-! The stored `server.toml` (`config_store.rs`). `replace` writes the new text
to a temporary file, copies the previous file to a backup named after its hash,
renames the temporary file over the target and syncs the directory. Any file
call may fail; only removals are taken to succeed.

The directory maps names to bytes. File modes and durability are not modelled,
and of `io::ErrorKind` only the kinds the store tells apart. -/

namespace HomeStack.ConfigStore

open Prog hiding pure bind

/-! ## File calls -/

/-- `io::ErrorKind` -/
inductive IoError
  | notFound | alreadyExists | invalidData | other
  deriving DecidableEq, Repr

/-- A random UUID in its simple form. -/
structure Uuid where
  simple : Text
  length : simple.length = 32

/-- The file calls of the store, in the directory of the configuration. -/
inductive FileCall
  | createDir
  | newUuid
  | createNew (name : Text)
  | setPermissions (name : Text)
  | writeAll (name : Text) (bytes : Bytes)
  | syncFile (name : Text)
  | read (name : Text)
  | rename (old new : Text)
  | removeFile (name : Text)
  | openDir
  | syncDir

def FileCall.Answer : FileCall → Type
  | .newUuid => Uuid
  | .read _ => Except IoError Bytes
  | _ => Except IoError Unit

abbrev Files := Prog FileCall FileCall.Answer

abbrev Io := ExceptT IoError Files

def ask (q : FileCall) : Files q.Answer := call q

/-- The files of the directory. -/
abbrev Dir := Text → Option Bytes

/-- What a call can answer and leave behind. A write that fails leaves any part
of its bytes; every other failure leaves the files alone. -/
def disk : Env FileCall FileCall.Answer Dir where
  next d q r d' :=
    match q, r with
    | .createDir, _ => d' = d
    | .newUuid, _ => d' = d
    | .createNew name, .ok _ => d name = none ∧ d' = Function.update d name (some [])
    | .createNew name, .error e => (e = .alreadyExists → d name ≠ none) ∧ d' = d
    | .setPermissions _, r => r ≠ .error .alreadyExists ∧ d' = d
    | .writeAll name bytes, .ok _ => d' = Function.update d name (some bytes)
    | .writeAll name bytes, .error e =>
      e ≠ .alreadyExists ∧ ∃ part, part <+: bytes ∧ d' = Function.update d name (some part)
    | .syncFile _, r => r ≠ .error .alreadyExists ∧ d' = d
    | .read name, .ok bytes => d name = some bytes ∧ d' = d
    | .read name, .error e => (e = .notFound → d name = none) ∧ d' = d
    | .rename old new, .ok _ =>
      ∃ bytes, d old = some bytes ∧ d' = Function.update (Function.update d new (some bytes)) old none
    | .rename _ _, .error _ => d' = d
    | .removeFile name, _ => d' = Function.update d name none
    | .openDir, _ => d' = d
    | .syncDir, _ => d' = d

/-! ## Writing -/

def configVersion (text : Text) : Text := Sha256.hex (Sha256.digest (text.utf8.map UInt8.toNat))

def temporaryName (name : Text) (id : Uuid) : Text := "." ++ name ++ "." ++ id.simple ++ ".tmp"

def backupName (name : Text) (old : Bytes) : Text :=
  name ++ ".backup-" ++ (configVersion (Bytes.fromUtf8Lossy old)).take 16

/-- Create a file (it must not exist) and sync it. -/
def writePrivate (name : Text) (bytes : Bytes) : Io Unit := do
  ExceptT.mk (ask (.createNew name))
  ExceptT.mk (ask (.setPermissions name))
  ExceptT.mk (ask (.writeAll name bytes))
  ExceptT.mk (ask (.syncFile name))

/-- The copy of the previous file; one that exists is kept. -/
def backUp (name : Text) : Io Unit := do
  match ← attempt (ExceptT.mk (ask (.read name))) with
  | .ok old =>
    match ← attempt (writePrivate (backupName name old) old) with
    | .ok _ => pure ()
    | .error .alreadyExists => pure ()
    | .error e => throw e
  | .error .notFound => pure ()
  | .error e => throw e

/-- `Temporary`: the file is removed when `body` returns early. -/
def withTemporary (name : Text) (body : Io Unit) : Io Unit := do
  match ← attempt body with
  | .ok _ => pure ()
  | .error e =>
    let _ ← liftM (ask (.removeFile name))
    throw e

def write (name text : Text) : Io Unit := do
  ExceptT.mk (ask .createDir)
  let id ← liftM (ask .newUuid)
  let temporary := temporaryName name id
  withTemporary temporary do
    writePrivate temporary text.utf8
    backUp name
    ExceptT.mk (ask (.rename temporary name))
  ExceptT.mk (ask .openDir)
  ExceptT.mk (ask .syncDir)

/-! ## The store -/

section Store

variable {C ε : Type}

/-- A validated configuration and its version. -/
structure Stored (C : Type) where
  text : Text
  version : Text
  config : C

/-- What `PUT /v1/config` requires of the current configuration. -/
inductive Precondition
  | exists (version : Option Text)
  | absent

def Precondition.holds : Precondition → Option (Stored C) → Bool
  | .absent, current => current.isNone
  | .exists none, current => current.isSome
  | .exists (some version), some current => version = current.version
  | .exists (some _), none => false

inductive StoreError (ε : Type)
  | read (source : IoError)
  | invalid (error : ε)

inductive ReplaceError (ε : Type)
  | precondition
  | invalid (error : ε)
  | io (error : IoError)
  deriving DecidableEq

structure Replaced where
  version : Text
  changed : Bool
  deriving DecidableEq

/-- `ConfigStore::open`: what `current` starts with. -/
def openStore (parse : Text → Except ε C) (name : Text) :
    ExceptT (StoreError ε) Files (Option (Stored C)) := do
  match ← liftM (ask (.read name)) with
  | .ok bytes =>
    match Bytes.fromUtf8 bytes with
    | none => throw (StoreError.read .invalidData)
    | some text =>
      match parse text with
      | .error e => throw (StoreError.invalid e)
      | .ok config => pure (some ⟨text, configVersion text, config⟩)
  | .error .notFound => pure none
  | .error e => throw (StoreError.read e)

/-- `ConfigStore::replace`, with `current` before and after. -/
def replace (parse : Text → Except ε C) (name : Text) (current : Option (Stored C)) (text : Text)
    (precondition : Precondition) : Files (Except (ReplaceError ε) Replaced × Option (Stored C)) :=
  if precondition.holds current = false then pure (.error .precondition, current)
  else
    match parse text with
    | .error e => pure (.error (.invalid e), current)
    | .ok config =>
      let version := configVersion text
      if current.any (·.version = version) then pure (.ok ⟨version, false⟩, current)
      else do
        match ← (write name text).run with
        | .error e => pure (.error (.io e), current)
        | .ok _ => pure (.ok ⟨version, true⟩, some ⟨text, version, config⟩)

end Store

/-! ## What a write leaves -/

theorem temporaryName_length (name : Text) (id : Uuid) :
    (temporaryName name id).length = name.length + 38 := by
  simp [temporaryName, id.length]

theorem backupName_length (name : Text) (old : Bytes) :
    name.length < (backupName name old).length ∧ (backupName name old).length ≤ name.length + 24 := by
  simp [backupName]
  omega

theorem temporaryName_ne_name (name : Text) (id : Uuid) : temporaryName name id ≠ name := by
  intro h
  have := temporaryName_length name id
  rw [h] at this
  omega

theorem backupName_ne_name (name : Text) (old : Bytes) : backupName name old ≠ name := by
  intro h
  have := (backupName_length name old).1
  rw [h] at this
  omega

theorem temporaryName_ne_backupName (name : Text) (id : Uuid) (old : Bytes) :
    temporaryName name id ≠ backupName name old := by
  intro h
  have hlen := temporaryName_length name id
  have := (backupName_length name old).2
  rw [h] at hlen
  omega

/-- The directory once the previous file is copied. -/
def backedUp (name : Text) (d : Dir) : Dir :=
  match d name with
  | none => d
  | some old =>
    if d (backupName name old) = none then Function.update d (backupName name old) (some old) else d

/-- Answers without the two failures that break a replacement: the directory is
opened and synced after the rename, and a new backup is written. -/
def Spared (name : Text) (q : FileCall) (r : q.Answer) : Prop :=
  match q, r with
  | .openDir, r => r = .ok ()
  | .syncDir, r => r = .ok ()
  | .setPermissions file, r => (∃ old, file = backupName name old) → r = .ok ()
  | .writeAll file _, r => (∃ old, file = backupName name old) → r = .ok ()
  | _, _ => True

/-- A file that could not be written privately. -/
def NotWritten (whole : Prop) (file : Text) (bytes : Bytes) (d : Dir) (e : IoError) (d' : Dir) : Prop :=
  (e = .alreadyExists → d file ≠ none) ∧ d' = d ∨
    e ≠ .alreadyExists ∧ d file = none ∧ ∃ part, d' = Function.update d file (some part) ∧
      (whole → part = bytes)

section Specs

variable {name file : Text} {bytes : Bytes} {d : Dir} {K : Unit → Dir → Prop} {X : IoError → Dir → Prop}

/-- The directory with the answers that spare the store. -/
abbrev spared (name : Text) : Env FileCall FileCall.Answer Dir := disk.allowing (Spared name)

abbrev freely : Dir → FileCall → Prop := fun _ _ => True

theorem wpe_createNew (hok : d file = none → K () (Function.update d file (some [])))
    (herr : ∀ e, (e = .alreadyExists → d file ≠ none) → X e d) :
    wpe (spared name) freely (ExceptT.mk (ask (.createNew file))) d K X := by
  refine ⟨trivial, fun r d' hn => ?_⟩
  cases r with
  | ok u =>
    obtain ⟨⟨hnone, rfl⟩, -⟩ := hn
    exact hok hnone
  | error e =>
    obtain ⟨⟨he, rfl⟩, -⟩ := hn
    exact herr e he

theorem wpe_setPermissions (hok : K () d)
    (herr : ∀ e, e ≠ .alreadyExists → (¬∃ old, file = backupName name old) → X e d) :
    wpe (spared name) freely (ExceptT.mk (ask (.setPermissions file))) d K X := by
  refine ⟨trivial, fun r d' hn => ?_⟩
  obtain ⟨⟨hne, rfl⟩, hs⟩ := hn
  cases r with
  | ok u => exact hok
  | error e => exact herr e (fun h => hne (by rw [h])) fun hold => nomatch hs hold

theorem wpe_writeAll (hok : K () (Function.update d file (some bytes)))
    (herr : ∀ e part, e ≠ .alreadyExists → (¬∃ old, file = backupName name old) →
      X e (Function.update d file (some part))) :
    wpe (spared name) freely (ExceptT.mk (ask (.writeAll file bytes))) d K X := by
  refine ⟨trivial, fun r d' hn => ?_⟩
  cases r with
  | ok u =>
    obtain ⟨rfl, -⟩ := hn
    exact hok
  | error e =>
    obtain ⟨⟨hne, part, -, rfl⟩, hs⟩ := hn
    exact herr e part hne fun hold => nomatch hs hold

theorem wpe_syncFile (hok : K () d) (herr : ∀ e, e ≠ .alreadyExists → X e d) :
    wpe (spared name) freely (ExceptT.mk (ask (.syncFile file))) d K X := by
  refine ⟨trivial, fun r d' hn => ?_⟩
  obtain ⟨⟨hne, rfl⟩, -⟩ := hn
  cases r with
  | ok u => exact hok
  | error e => exact herr e fun h => hne (by rw [h])

theorem wpe_read {K : Bytes → Dir → Prop} (hok : ∀ old, d file = some old → K old d)
    (herr : ∀ e, (e = .notFound → d file = none) → X e d) :
    wpe (spared name) freely (ExceptT.mk (ask (.read file))) d K X := by
  refine ⟨trivial, fun r d' hn => ?_⟩
  cases r with
  | ok old =>
    obtain ⟨⟨hold, rfl⟩, -⟩ := hn
    exact hok old hold
  | error e =>
    obtain ⟨⟨he, rfl⟩, -⟩ := hn
    exact herr e he

theorem wpe_rename {new : Text}
    (hok : ∀ bytes, d file = some bytes →
      K () (Function.update (Function.update d new (some bytes)) file none))
    (herr : ∀ e, X e d) :
    wpe (spared name) freely (ExceptT.mk (ask (.rename file new))) d K X := by
  refine ⟨trivial, fun r d' hn => ?_⟩
  cases r with
  | ok u =>
    obtain ⟨⟨bytes, hbytes, rfl⟩, -⟩ := hn
    exact hok bytes hbytes
  | error e =>
    obtain ⟨rfl, -⟩ := hn
    exact herr e

theorem writePrivate_spec (name file : Text) (bytes : Bytes) (d : Dir) :
    wpe (spared name) freely (writePrivate file bytes) d
      (fun _ d' => d file = none ∧ d' = Function.update d file (some bytes))
      (NotWritten (∃ old, file = backupName name old) file bytes d) := by
  unfold writePrivate
  rw [wpe_bind]
  apply wpe_createNew
  · intro hnone
    rw [wpe_bind]
    apply wpe_setPermissions
    · rw [wpe_bind]
      apply wpe_writeAll
      · apply wpe_syncFile
        · exact ⟨hnone, Function.update_idem ..⟩
        · exact fun e he => Or.inr ⟨he, hnone, bytes, Function.update_idem .., fun _ => rfl⟩
      · exact fun e part he hb => Or.inr ⟨he, hnone, part, Function.update_idem .., fun h => absurd h hb⟩
    · exact fun e he hb => Or.inr ⟨he, hnone, [], rfl, fun h => absurd h hb⟩
  · exact fun e he => Or.inl ⟨he, rfl⟩

/-- A backup is made or kept, or the call fails before or right after it. -/
theorem backUp_spec (name : Text) (d : Dir) :
    wpe (spared name) freely (backUp name) d (fun _ d' => d' = backedUp name d)
      (fun _ d' => d' = d ∨ d' = backedUp name d) := by
  unfold backUp
  rw [wpe_bind]
  apply wpe_attempt
  apply wpe_read
  · intro old hold
    show wpe _ _ (_ >>= _) _ _ _
    rw [wpe_bind]
    apply wpe_attempt
    have hmade : d (backupName name old) = none →
        Function.update d (backupName name old) (some old) = backedUp name d := by
      intro hnone
      simp [backedUp, hold, hnone]
    refine wpe_mono (writePrivate_spec name (backupName name old) old d) ?_ ?_
    · rintro u d' ⟨hnone, rfl⟩
      exact hmade hnone
    · rintro e d' (⟨he, rfl⟩ | ⟨he, hnone, part, rfl, hpart⟩)
      · cases e with
        | alreadyExists =>
          have : backedUp name d' = d' := by
            simp [backedUp, hold, he rfl]
          exact this.symm
        | notFound => exact Or.inl rfl
        | invalidData => exact Or.inl rfl
        | other => exact Or.inl rfl
      · rw [hpart ⟨old, rfl⟩, hmade hnone]
        cases e with
        | alreadyExists => exact absurd rfl he
        | notFound => exact Or.inr rfl
        | invalidData => exact Or.inr rfl
        | other => exact Or.inr rfl
  · intro e he
    cases e with
    | notFound =>
      have : backedUp name d = d := by
        simp [backedUp, he rfl]
      exact this.symm
    | alreadyExists => exact Or.inl rfl
    | invalidData => exact Or.inl rfl
    | other => exact Or.inl rfl

theorem backedUp_cases (name : Text) (d : Dir) :
    backedUp name d = d ∨ ∃ old, d name = some old ∧ d (backupName name old) = none ∧
      backedUp name d = Function.update d (backupName name old) (some old) := by
  unfold backedUp
  cases hname : d name with
  | none => exact Or.inl rfl
  | some old =>
    by_cases hnone : d (backupName name old) = none
    · exact Or.inr ⟨old, rfl, hnone, if_pos hnone⟩
    · exact Or.inl (if_neg hnone)

theorem backedUp_temporary (name : Text) (d : Dir) (id : Uuid) :
    backedUp name d (temporaryName name id) = d (temporaryName name id) := by
  rcases backedUp_cases name d with h | ⟨old, -, -, h⟩
  · rw [h]
  · rw [h, Function.update_of_ne (temporaryName_ne_backupName name id old)]

theorem backedUp_name (name : Text) (d : Dir) : backedUp name d name = d name := by
  rcases backedUp_cases name d with h | ⟨old, -, -, h⟩
  · rw [h]
  · rw [h, Function.update_of_ne (backupName_ne_name name old).symm]

/-- The temporary file and the backup do not meet. -/
theorem backedUp_update_temporary (name : Text) (d : Dir) (id : Uuid) (bytes : Option Bytes) :
    backedUp name (Function.update d (temporaryName name id) bytes) =
      Function.update (backedUp name d) (temporaryName name id) bytes := by
  have hname := Function.update_of_ne (temporaryName_ne_name name id).symm bytes d
  have hbackup old := Function.update_of_ne (temporaryName_ne_backupName name id old).symm bytes d
  unfold backedUp
  rw [hname]
  cases d name with
  | none => rfl
  | some old =>
    simp only [hbackup]
    split
    · exact Function.update_comm (temporaryName_ne_backupName name id old) _ _ _
    · rfl

/-- What a failed write leaves: nothing, or the backup. -/
def Untouched (name : Text) (d d' : Dir) : Prop :=
  ∃ base, (base = d ∨ base = backedUp name d) ∧
    (d' = base ∨ ∃ id, d' = Function.update base (temporaryName name id) none)

/-- The part of `write` under the temporary file. -/
theorem withTemporary_spec (name text : Text) (id : Uuid) (d : Dir) :
    wpe (spared name) freely
      (withTemporary (temporaryName name id) do
        writePrivate (temporaryName name id) text.utf8
        backUp name
        ExceptT.mk (ask (.rename (temporaryName name id) name)))
      d (fun _ d' => d' = Function.update (backedUp name d) name (some text.utf8))
        (fun _ => Untouched name d) := by
  -- on every failure the file is removed from what the failed step left
  have hfail : ∀ base d' e, (base = d ∨ base = backedUp name d) →
      (∃ part, d' = Function.update base (temporaryName name id) part) →
      wpe (spared name) freely
        (do let _ ← liftM (ask (.removeFile (temporaryName name id)))
            throw e : Io Unit) d'
        (fun _ d' => d' = Function.update (backedUp name d) name (some text.utf8))
        (fun _ => Untouched name d) := by
    rintro base d' e hbase ⟨part, rfl⟩
    refine ⟨trivial, fun r d'' hn => ?_⟩
    obtain ⟨rfl, -⟩ := hn
    exact ⟨base, hbase, Or.inr ⟨id, Function.update_idem ..⟩⟩
  unfold withTemporary
  rw [wpe_bind]
  apply wpe_attempt
  rw [wpe_bind]
  refine wpe_mono (writePrivate_spec name (temporaryName name id) text.utf8 d) ?_ ?_
  · rintro u d' ⟨hnone, rfl⟩
    rw [wpe_bind]
    refine wpe_mono (backUp_spec name _) ?_ ?_
    · rintro u d' rfl
      rw [backedUp_update_temporary]
      apply wpe_rename
      · intro bytes hbytes
        rw [Function.update_self] at hbytes
        cases hbytes
        show _ = _
        rw [Function.update_comm (temporaryName_ne_name name id).symm, Function.update_idem,
          Function.update_comm (temporaryName_ne_name name id), Function.update_eq_self_iff.mpr]
        rw [Function.update_of_ne (temporaryName_ne_name name id), backedUp_temporary, hnone]
      · exact fun e => hfail (backedUp name d) _ e (Or.inr rfl) ⟨_, rfl⟩
    · rintro e d' (rfl | rfl)
      · exact hfail d _ e (Or.inl rfl) ⟨_, rfl⟩
      · rw [backedUp_update_temporary]
        exact hfail (backedUp name d) _ e (Or.inr rfl) ⟨_, rfl⟩
  · rintro e d' (⟨-, rfl⟩ | ⟨-, -, part, rfl, -⟩)
    · exact hfail d' _ e (Or.inl rfl) ⟨d' (temporaryName name id), (Function.update_eq_self _ _).symm⟩
    · exact hfail d _ e (Or.inl rfl) ⟨_, rfl⟩

theorem write_spec (name text : Text) (d : Dir) :
    wpe (spared name) freely (write name text) d
      (fun _ d' => d' = Function.update (backedUp name d) name (some text.utf8))
      (fun _ => Untouched name d) := by
  unfold write
  rw [wpe_bind]
  refine ⟨trivial, fun r d' hn => ?_⟩
  obtain ⟨rfl, -⟩ := hn
  cases r with
  | error e => exact ⟨d', Or.inl rfl, Or.inl rfl⟩
  | ok u =>
    refine ⟨trivial, fun id d'' hn => ?_⟩
    obtain ⟨rfl, -⟩ := hn
    refine wpe_bind.mpr (wpe_mono (withTemporary_spec name text id d'') ?_ fun _ _ h => h)
    rintro - d' rfl
    rw [wpe_bind]
    refine ⟨trivial, fun r d' hn => ?_⟩
    obtain ⟨rfl, rfl⟩ := hn
    refine ⟨trivial, fun r d' hn => ?_⟩
    obtain ⟨rfl, rfl⟩ := hn
    rfl

end Specs

/-! ## Sequences of replacements -/

section Runs

variable {C ε : Type} {parse : Text → Except ε C} {name : Text}

/-- The directory and what `current()` reports. -/
structure Store (C : Type) where
  dir : Dir
  current : Option (Stored C)

/-- A call of `replace` that returned, with the store before and after it. -/
structure Call (C ε : Type) where
  before : Store C
  text : Text
  precondition : Precondition
  result : Except (ReplaceError ε) Replaced
  after : Store C

def Call.Made (parse : Text → Except ε C) (name : Text) (E : Env FileCall FileCall.Answer Dir)
    (c : Call C ε) : Prop :=
  Exec E (replace parse name c.before.current c.text c.precondition) c.before.dir
    (some (c.result, c.after.current)) c.after.dir

/-- Calls one after the other; nobody else writes. -/
inductive Calls (parse : Text → Except ε C) (name : Text) (E : Env FileCall FileCall.Answer Dir) :
    Store C → List (Call C ε) → Prop
  | nil (s : Store C) : Calls parse name E s []
  | cons {c : Call C ε} {cs : List (Call C ε)} :
      c.Made parse name E → Calls parse name E c.after cs → Calls parse name E c.before (c :: cs)

/-- `ConfigStore::open` gave this store. -/
def Opened (parse : Text → Except ε C) (name : Text) (E : Env FileCall FileCall.Answer Dir) (s : Store C) :
    Prop :=
  ∃ d, Exec E (openStore parse name).run d (some (.ok s.current)) s.dir

/-- A failed call changes neither the file nor `current()` and leaves no
temporary file; after a successful one the file is what `current()` reports and
the previous file is backed up. -/
def Call.Atomic (name : Text) (c : Call C ε) : Prop :=
  match c.result with
  | .error _ =>
    c.after.dir name = c.before.dir name ∧ c.after.current = c.before.current ∧
      ∀ id, c.after.dir (temporaryName name id) = none ∨
        c.after.dir (temporaryName name id) = c.before.dir (temporaryName name id)
  | .ok replaced =>
    (∃ stored, c.after.current = some stored ∧ c.after.dir name = some stored.text.utf8) ∧
      c.precondition.holds c.before.current = true ∧
      (replaced.changed = true →
        ∀ old, c.before.dir name = some old → c.after.dir (backupName name old) = some old)

/-- The texts a sequence of calls is about. -/
def texts (s : Store C) (calls : List (Call C ε)) : List Text :=
  s.current.toList.map Stored.text ++ calls.map Call.text

/-- No two of the texts share the first 16 digits of their hash. -/
def NoCollisions (texts : List Text) : Prop :=
  ∀ a ∈ texts, ∀ b ∈ texts, (configVersion a).take 16 = (configVersion b).take 16 → a = b

/-- A backup that is there holds the text it is named after. -/
def BackupsRight (name : Text) (texts : List Text) (d : Dir) : Prop :=
  ∀ t ∈ texts, d (backupName name t.utf8) = none ∨ d (backupName name t.utf8) = some t.utf8

/-- What holds between the calls. -/
structure Consistent (name : Text) (texts : List Text) (s : Store C) : Prop where
  file : s.dir name = s.current.map fun stored => stored.text.utf8
  known : ∀ stored, s.current = some stored → stored.text ∈ texts
  backups : BackupsRight name texts s.dir

theorem backupName_inj {texts : List Text} (h : NoCollisions texts) {a b : Text} (ha : a ∈ texts)
    (hb : b ∈ texts) (he : backupName name a.utf8 = backupName name b.utf8) : a = b := by
  unfold backupName at he
  rw [Text.fromUtf8Lossy_utf8, Text.fromUtf8Lossy_utf8] at he
  exact h a ha b hb (List.append_cancel_left he)

/-- Copying the file of a consistent store keeps the backups right. -/
theorem Consistent.backedUp {T : List Text} {s : Store C} (hT : NoCollisions T) (h : Consistent name T s) :
    BackupsRight name T (backedUp name s.dir) := by
  intro t ht
  rcases backedUp_cases name s.dir with hd | ⟨old, hold, -, hd⟩
  · rw [hd]
    exact h.backups t ht
  · rw [h.file, Option.map_eq_some_iff] at hold
    obtain ⟨stored, hstored, rfl⟩ := hold
    rw [hd]
    by_cases he : backupName name t.utf8 = backupName name stored.text.utf8
    · rw [backupName_inj hT ht (h.known stored hstored) he, Function.update_self]
      exact Or.inr rfl
    · rw [Function.update_of_ne he]
      exact h.backups t ht

/-- The copy of the previous file of a consistent store is there. -/
theorem Consistent.copied {T : List Text} {s : Store C} (h : Consistent name T s) {old : Bytes}
    (hold : s.dir name = some old) : ConfigStore.backedUp name s.dir (backupName name old) = some old := by
  unfold ConfigStore.backedUp
  rw [hold]
  by_cases hnone : s.dir (backupName name old) = none
  · simp [hnone]
  · have hfile := hold
    rw [h.file, Option.map_eq_some_iff] at hfile
    obtain ⟨stored, hstored, rfl⟩ := hfile
    simpa [hnone] using (h.backups _ (h.known stored hstored)).resolve_left hnone

/-- One call: it failed, had nothing to do, or wrote the new text. -/
theorem replace_spec (parse : Text → Except ε C) (name : Text) (current : Option (Stored C)) (text : Text)
    (precondition : Precondition) (d : Dir) :
    wp (spared name) freely (replace parse name current text precondition) d fun r d' =>
      (∃ e, r = (.error e, current) ∧ Untouched name d d') ∨
      precondition.holds current = true ∧
        ((∃ version, r = (.ok ⟨version, false⟩, current) ∧ current.isSome ∧ d' = d) ∨
          ∃ version config, r = (.ok ⟨version, true⟩, some ⟨text, version, config⟩) ∧
            d' = Function.update (backedUp name d) name (some text.utf8)) := by
  unfold replace
  split
  · exact Or.inl ⟨_, rfl, d, Or.inl rfl, Or.inl rfl⟩
  · next hholds =>
    rw [Bool.not_eq_false] at hholds
    cases hparse : parse text with
    | error e => exact Or.inl ⟨_, rfl, d, Or.inl rfl, Or.inl rfl⟩
    | ok config =>
      dsimp only
      split
      · next hsame =>
        refine Or.inr ⟨hholds, Or.inl ⟨_, rfl, ?_, rfl⟩⟩
        cases current with
        | none => cases hsame
        | some stored => rfl
      · rw [wp_bind]
        refine wp_mono (write_spec name text d) fun r d' hr => ?_
        cases r with
        | error e => exact Or.inl ⟨_, rfl, hr⟩
        | ok u => exact Or.inr ⟨hholds, Or.inr ⟨_, config, rfl, hr⟩⟩

theorem Untouched.file {d d' : Dir} (h : Untouched name d d') : d' name = d name := by
  obtain ⟨base, hbase, hd⟩ := h
  have hname : base name = d name := by
    rcases hbase with rfl | rfl
    · rfl
    · exact backedUp_name name d
  rcases hd with rfl | ⟨id, rfl⟩
  · exact hname
  · rw [Function.update_of_ne (temporaryName_ne_name name id).symm, hname]

theorem Untouched.temporary {d d' : Dir} (h : Untouched name d d') (id : Uuid) :
    d' (temporaryName name id) = none ∨ d' (temporaryName name id) = d (temporaryName name id) := by
  obtain ⟨base, hbase, hd⟩ := h
  have hkept : base (temporaryName name id) = d (temporaryName name id) := by
    rcases hbase with rfl | rfl
    · rfl
    · exact backedUp_temporary name d id
  rcases hd with rfl | ⟨id', rfl⟩
  · exact Or.inr hkept
  · by_cases he : temporaryName name id = temporaryName name id'
    · rw [he, Function.update_self]
      exact Or.inl rfl
    · rw [Function.update_of_ne he]
      exact Or.inr hkept

theorem Untouched.consistent {T : List Text} {s : Store C} {d' : Dir} (hT : NoCollisions T)
    (hs : Consistent name T s) (h : Untouched name s.dir d') : Consistent name T ⟨d', s.current⟩ := by
  refine ⟨h.file.trans hs.file, hs.known, ?_⟩
  obtain ⟨base, hbase, hd⟩ := h
  have hright : BackupsRight name T base := by
    rcases hbase with rfl | rfl
    · exact hs.backups
    · exact hs.backedUp hT
  intro t ht
  rcases hd with rfl | ⟨id, rfl⟩
  · exact hright t ht
  · dsimp only
    rw [Function.update_of_ne (temporaryName_ne_backupName name id _).symm]
    exact hright t ht

/-- **Step.** A spared call of a consistent store is atomic and leaves the store
consistent. -/
theorem Call.Made.atomic {T : List Text} {c : Call C ε} (hT : NoCollisions T) (htext : c.text ∈ T)
    (hs : Consistent name T c.before) (h : c.Made parse name (spared name)) :
    c.Atomic name ∧ Consistent name T c.after := by
  obtain ⟨s, text, precondition, result, ⟨d', current'⟩⟩ := c
  have hspec := wp_done (replace_spec parse name s.current text precondition s.dir) h
  rcases hspec with ⟨e, hr, hd⟩ | ⟨hholds, ⟨version, hr, hsome, hd⟩ | ⟨version, config, hr, hd⟩⟩
  · cases hr
    exact ⟨⟨hd.file, rfl, hd.temporary⟩, hd.consistent hT hs⟩
  · cases hr
    cases hd
    obtain ⟨stored, hstored⟩ := Option.isSome_iff_exists.mp hsome
    have hfile : s.dir name = some stored.text.utf8 := by rw [hs.file, hstored]; rfl
    exact ⟨⟨⟨stored, hstored, hfile⟩, hholds, fun h => nomatch h⟩, hs⟩
  · cases hr
    dsimp only at hd
    subst hd
    refine ⟨⟨⟨_, rfl, Function.update_self ..⟩, hholds, fun _ old hold => ?_⟩,
      ⟨Function.update_self .., fun stored hstored => ?_, fun t ht => ?_⟩⟩
    · dsimp only at hold ⊢
      rw [Function.update_of_ne (backupName_ne_name name old)]
      exact hs.copied hold
    · cases hstored
      exact htext
    · dsimp only
      rw [Function.update_of_ne (backupName_ne_name name _)]
      exact hs.backedUp hT t ht

theorem Calls.atomic {T : List Text} {s : Store C} {calls : List (Call C ε)} (hT : NoCollisions T)
    (hs : Consistent name T s) (h : Calls parse name (spared name) s calls)
    (htexts : ∀ c ∈ calls, c.text ∈ T) :
    ∀ c ∈ calls, c.Atomic name := by
  induction h with
  | nil s => simp
  | @cons c cs hc _ ih =>
    obtain ⟨hatomic, hafter⟩ := hc.atomic hT (htexts c (by simp)) hs
    intro c' hc'
    rcases List.mem_cons.mp hc' with rfl | hc'
    · exact hatomic
    · exact ih hafter (fun c hc => htexts c (List.mem_cons_of_mem _ hc)) c' hc'

theorem openStore_spec (parse : Text → Except ε C) (name : Text) (d : Dir) :
    wpe disk freely (openStore parse name) d
      (fun current d' => d' name = current.map fun stored => stored.text.utf8) fun _ _ => True := by
  unfold openStore
  rw [wpe_bind]
  refine ⟨trivial, fun r d' hn => ?_⟩
  cases r with
  | ok bytes =>
    obtain ⟨hbytes, rfl⟩ := hn
    show wpe _ _ (match Bytes.fromUtf8 bytes with | none => _ | some text => _) _ _ _
    cases htext : Bytes.fromUtf8 bytes with
    | none => trivial
    | some text =>
      dsimp only
      cases parse text with
      | error e => trivial
      | ok config =>
        show d' name = some text.utf8
        rw [hbytes, Bytes.utf8_fromUtf8 htext]
  | error e =>
    obtain ⟨he, rfl⟩ := hn
    cases e with
    | notFound => exact he rfl
    | alreadyExists => trivial
    | invalidData => trivial
    | other => trivial

/-- In every sequence of replacements of an opened store without the two
failures, every call is atomic. -/
theorem replace_atomic (parse : Text → Except ε C) (name : Text) {s : Store C} {calls : List (Call C ε)}
    (hopen : Opened parse name disk s) (hrun : Calls parse name (spared name) s calls)
    (hcollisions : NoCollisions (texts s calls)) (hbackups : BackupsRight name (texts s calls) s.dir) :
    ∀ c ∈ calls, c.Atomic name := by
  obtain ⟨d, hopen⟩ := hopen
  have hfile := wp_done (openStore_spec parse name d) hopen
  refine hrun.atomic hcollisions ⟨hfile, fun stored hstored => ?_, hbackups⟩ fun c hc => ?_
  · exact List.mem_append_left _ (List.mem_map.mpr ⟨stored, by simp [hstored], rfl⟩)
  · exact List.mem_append_right _ (List.mem_map.mpr ⟨c, hc, rfl⟩)

end Runs

/-! ## Runs with chosen failures -/

/-- The answer when nothing fails. -/
def healthy (d : Dir) : (q : FileCall) → q.Answer × Dir
  | .createDir => (.ok (), d)
  | .newUuid => (⟨List.replicate 32 '0', by simp⟩, d)
  | .createNew name =>
    match d name with
    | none => (.ok (), Function.update d name (some []))
    | some _ => (.error .alreadyExists, d)
  | .setPermissions _ => (.ok (), d)
  | .writeAll name bytes => (.ok (), Function.update d name (some bytes))
  | .syncFile _ => (.ok (), d)
  | .read name =>
    match d name with
    | some bytes => (.ok bytes, d)
    | none => (.error .notFound, d)
  | .rename old new =>
    match d old with
    | some bytes => (.ok (), Function.update (Function.update d new (some bytes)) old none)
    | none => (.error .notFound, d)
  | .removeFile name => (.ok (), Function.update d name none)
  | .openDir => (.ok (), d)
  | .syncDir => (.ok (), d)

/-- The directory in which the syncs of the directory or the writes of `torn`
fail, the latter before the first byte. -/
def faulty (sync : Bool) (torn : Text) (d : Dir) (q : FileCall) : q.Answer × Dir :=
  match q with
  | .syncDir => (if sync then .ok () else .error .other, d)
  | .writeAll name bytes =>
    if name = torn then (.error .other, Function.update d name (some []))
    else (.ok (), Function.update d name (some bytes))
  | q => healthy d q

theorem healthy_next (d : Dir) (q : FileCall) : disk.next d q (healthy d q).1 (healthy d q).2 := by
  cases q with
  | createDir => rfl
  | newUuid => rfl
  | createNew name =>
    cases h : d name with
    | none =>
      simp only [healthy, h]
      exact ⟨h, rfl⟩
    | some bytes =>
      simp only [healthy, h]
      exact ⟨fun _ => by simp [h], rfl⟩
  | setPermissions name => exact ⟨(fun h => nomatch h), rfl⟩
  | writeAll name bytes => rfl
  | syncFile name => exact ⟨(fun h => nomatch h), rfl⟩
  | read name =>
    cases h : d name with
    | none =>
      simp only [healthy, h]
      exact ⟨fun _ => h, rfl⟩
    | some bytes =>
      simp only [healthy, h]
      exact ⟨h, rfl⟩
  | rename old new =>
    cases h : d old with
    | none =>
      simp only [healthy, h]
      rfl
    | some bytes =>
      simp only [healthy, h]
      exact ⟨bytes, h, rfl⟩
  | removeFile name => rfl
  | openDir => rfl
  | syncDir => rfl

theorem healthy_spared (name : Text) (d : Dir) (q : FileCall) :
    (spared name).next d q (healthy d q).1 (healthy d q).2 := by
  refine ⟨healthy_next d q, ?_⟩
  cases q with
  | setPermissions file => exact fun _ => rfl
  | writeAll file bytes => exact fun _ => rfl
  | openDir => rfl
  | syncDir => rfl
  | _ => trivial

theorem faulty_next (sync : Bool) (torn : Text) (d : Dir) (q : FileCall) :
    disk.next d q (faulty sync torn d q).1 (faulty sync torn d q).2 := by
  cases q with
  | syncDir => rfl
  | writeAll name bytes =>
    by_cases h : name = torn
    · simp only [faulty, if_pos h]
      exact ⟨(fun h => nomatch h), [], List.nil_prefix, rfl⟩
    · simp only [faulty, if_neg h]
      rfl
  | _ => exact healthy_next d _

def serverToml : Text := "server.toml"

/-- A configuration that is always valid. -/
def accept (_ : Text) : Except Unit Unit := .ok ()

/-- A store with the text `a`. -/
def sampleStore : Store Unit where
  dir := Function.update (fun _ => none) serverToml (some (Text.utf8 "a"))
  current := some ⟨"a", configVersion "a", ()⟩

/-- The text is replaced in a directory that answers by `g`. -/
def replaced (g : Dir → (q : FileCall) → q.Answer × Dir) (s : Store Unit) (text : Text) : Call Unit Unit :=
  let r := play g (replace accept serverToml s.current text (.exists none)) s.dir
  ⟨s, text, .exists none, r.1.1, ⟨r.2, r.1.2⟩⟩

theorem replaced_made {E : Env FileCall FileCall.Answer Dir} {g : Dir → (q : FileCall) → q.Answer × Dir}
    (h : ∀ d q, E.next d q (g d q).1 (g d q).2) (s : Store Unit) (text : Text) :
    (replaced g s text).Made accept serverToml E := exec_play h _ _

theorem sampleStore_opened : Opened accept serverToml disk sampleStore := by
  have hrun := exec_play healthy_next (openStore accept serverToml).run sampleStore.dir
  have hplay : play healthy (openStore accept serverToml).run sampleStore.dir =
      (.ok sampleStore.current, sampleStore.dir) := by
    rfl
  rw [hplay] at hrun
  exact ⟨_, hrun⟩

theorem sampleStore_backups (T : List Text) : BackupsRight serverToml T sampleStore.dir := by
  intro t _
  left
  exact Function.update_of_ne (backupName_ne_name serverToml t.utf8) (some (Text.utf8 "a")) fun _ => none

theorem sampleTexts_noCollisions : NoCollisions ["a", "b", "b"] := by
  unfold NoCollisions
  decide

/-- Only the sync of the directory fails. -/
def unsynced : Call Unit Unit := replaced (faulty false []) sampleStore "b"

/-- The backup of the text `a` cannot be written. -/
def torn : Call Unit Unit :=
  replaced (faulty true (backupName serverToml (Text.utf8 "a"))) sampleStore "b"

/-- The same replacement once more, and nothing fails. -/
def retried : Call Unit Unit := replaced healthy torn.after "b"

/-- An error after the rename leaves the new file under the old `current()`, and
a backup that a failed call left unfinished passes for the copy. -/
theorem replace_not_atomic :
    (Opened accept serverToml disk sampleStore ∧ Calls accept serverToml disk sampleStore [unsynced] ∧
      NoCollisions (texts sampleStore [unsynced]) ∧
      BackupsRight serverToml (texts sampleStore [unsynced]) sampleStore.dir ∧ ¬unsynced.Atomic serverToml) ∧
    (Opened accept serverToml disk sampleStore ∧ Calls accept serverToml disk sampleStore [torn, retried] ∧
      NoCollisions (texts sampleStore [torn, retried]) ∧
      BackupsRight serverToml (texts sampleStore [torn, retried]) sampleStore.dir ∧
      ¬retried.Atomic serverToml) := by
  refine ⟨⟨sampleStore_opened, ?_, ?_, sampleStore_backups _, ?_⟩,
    ⟨sampleStore_opened, ?_, sampleTexts_noCollisions, sampleStore_backups _, ?_⟩⟩
  · exact Calls.cons (replaced_made (faulty_next _ _) _ _) (Calls.nil _)
  · show NoCollisions ["a", "b"]
    unfold NoCollisions
    decide +kernel
  · have hresult : unsynced.result = .error (.io .other) := by decide +kernel
    unfold Call.Atomic
    rw [hresult]
    rintro ⟨hfile, -⟩
    revert hfile
    decide +kernel
  · exact Calls.cons (c := torn) (replaced_made (faulty_next _ _) _ _)
      (Calls.cons (c := retried) (replaced_made healthy_next _ _) (Calls.nil _))
  · have hresult : retried.result = .ok ⟨configVersion "b", true⟩ := by decide +kernel
    unfold Call.Atomic
    rw [hresult]
    rintro ⟨-, -, hbackup⟩
    have hcopy := hbackup rfl (Text.utf8 "a") (by decide +kernel)
    revert hcopy
    decide +kernel

/-- Two replacements in which nothing fails. -/
theorem replace_atomic_twice :
    (replaced healthy sampleStore "b").Atomic serverToml ∧
      (replaced healthy (replaced healthy sampleStore "b").after "b").Atomic serverToml := by
  have hatomic := replace_atomic accept serverToml sampleStore_opened
    (Calls.cons (replaced_made (healthy_spared _) _ _)
      (Calls.cons (replaced_made (healthy_spared _) _ _) (Calls.nil _)))
    sampleTexts_noCollisions (sampleStore_backups _)
  exact ⟨hatomic _ List.mem_cons_self, hatomic _ (List.mem_cons_of_mem _ List.mem_cons_self)⟩

end HomeStack.ConfigStore

import HomeStack.SetupTurns

/-! The documents below a home as the guest program reads, writes, copies and puts them back
(`setup_guest.py`), and a workspace that answers a setup run from them. Any question may also
fail; a change may have been made when its answer is an error. -/

namespace HomeStack.Setup

open Prog

/-- What stands at a path of the home. -/
inductive Node
  | absent
  | file (content : Bytes) (mode : Nat)
  /-- A directory, a symlink, or a file that is not the user's. -/
  | other
  deriving DecidableEq

abbrev Home := Text → Node

/-- The manifest of an operation snapshot, with the copies it names. -/
abbrev Manifest := List (Text × Node)

/-- The guest, with what its observer knows besides: the home at each snapshot, the documents on
which a `structured-write` took effect, and the questions so far. -/
structure Guest where
  home : Home
  snapshots : Text → Option Manifest
  taken : List Home
  wrote : List Text
  history : History

def Guest.start (home : Home) (snapshots : Text → Option Manifest) : Guest := ⟨home, snapshots, [], [], []⟩

section

variable (sha : Bytes → Text)

/-- `structured_read` -/
def readNode : Node → Option Remote
  | .absent => some ⟨none, none⟩
  | .file content _ => some ⟨some content, some (sha content)⟩
  | .other => none

/-- `structured_write`: the home after it, and whether the document was replaced; nothing where the
write is refused. -/
def writeNode (home : Home) (relative : Text) (payload : Bytes) (expected : Option Text) :
    Option (Home × Bool) :=
  match home relative with
  | .absent => if expected = none then some (Function.update home relative (.file payload 0o600), true)
    else none
  | .file content mode =>
    if expected = some (sha content) then
      if content = payload then some (home, false)
      else some (Function.update home relative (.file payload mode), true)
    else none
  | .other => none

/-- What a restore puts back: nothing where it is refused. -/
def originalNode (snapshots : Text → Option Manifest) (relative : Text) (snapshot : Option Text)
    (existed : Bool) : Option Node :=
  match snapshot with
  | none => if existed then none else some .absent
  | some id =>
    match (snapshots id).bind fun manifest => manifest.lookup relative with
    | some .absent => if existed then none else some .absent
    | some (.file content mode) => if existed then some (.file content mode) else none
    | _ => none

/-- `structured_restore` -/
def restoreNode (g : Guest) (relative : Text) (snapshot : Option Text) (expected : Text) (existed : Bool) :
    Option Home :=
  match originalNode g.snapshots relative snapshot existed, g.home relative with
  | some original, .file content _ => if sha content = expected then
      some (Function.update g.home relative original) else none
  | _, _ => none

end

/-- `create_snapshot` -/
def manifestOf (home : Home) (paths : List Text) : Manifest := paths.map fun path => (path, home path)

/-- Nothing changes but the history. -/
def Unchanged (s t : Guest) : Prop :=
  t.home = s.home ∧ t.snapshots = s.snapshots ∧ t.taken = s.taken ∧ t.wrote = s.wrote

/-- What a question can do to the guest, with the answer it gets. An installer or a validator does what
it likes. -/
def Effect (host : Host) (s : Guest) : (q : Query) → Answer q → Guest → Prop
  | .structuredRead relative, r, t =>
    Unchanged s t ∧ ∀ remote, r = .ok remote → readNode host.sha256Hex (s.home relative) = some remote
  | .snapshot paths _ _, r, t =>
    t.home = s.home ∧ t.wrote = s.wrote ∧ t.taken = s.home :: s.taken ∧
      ∀ snapshot : Snapshot, r = .ok snapshot →
      ((∀ path ∈ paths, s.home path = .absent) ∧ snapshot = ⟨false, none, none⟩ ∧ t.snapshots = s.snapshots ∨
        (∃ path ∈ paths, s.home path ≠ .absent) ∧ ∃ id, s.snapshots id = none ∧ snapshot.id = some id ∧
          t.snapshots = Function.update s.snapshots id (some (manifestOf s.home paths)))
  | .structuredWrite relative content expected, r, t =>
    t.snapshots = s.snapshots ∧ t.taken = s.taken ∧
      (t.home = s.home ∧ t.wrote = s.wrote ∧ (∃ e, r = .error e) ∨
        ∃ replaced, writeNode host.sha256Hex s.home relative content.utf8 expected = some (t.home, replaced) ∧
          t.wrote = if replaced then relative :: s.wrote else s.wrote)
  | .structuredRestore relative snapshot expected existed, r, t =>
    t.snapshots = s.snapshots ∧ t.taken = s.taken ∧ t.wrote = s.wrote ∧
      (t.home = s.home ∧ (∃ e, r = .error e) ∨
        restoreNode host.sha256Hex s relative snapshot expected existed = some t.home)
  | .apply .., _, t | .validate _, _, t => t.taken = s.taken ∧ t.wrote = s.wrote
  | _, _, t => Unchanged s t

/-- A workspace with any installers and validators, in which any operation may fail before or after it
had its effect. -/
def guest (host : Host) : Env Query Answer Guest where
  next s q r t := t.history = ⟨q, r⟩ :: s.history ∧ Effect host s q r t

/-- A write that is answered with an error did not take effect, and installers and validators leave the
snapshots alone. -/
def Careful (s : Guest) : (q : Query) → Answer q → Guest → Prop
  | .structuredWrite .., r, t => (∃ e, r = .error e) → t.wrote = s.wrote
  | .apply .., _, t | .validate _, _, t => t.snapshots = s.snapshots
  | _, _, _ => True

def carefulGuest (host : Host) : Env Query Answer Guest where
  next s q r t := (guest host).next s q r t ∧ Careful s q r t

/-! ## Putting back -/

section

variable {host : Host} {home : Home}

/-- The snapshot of this ID holds what the home was. -/
def Holds (home : Home) (snapshot : Option Text) (g : Guest) : Prop :=
  ∀ id manifest, snapshot = some id → g.snapshots id = some manifest →
    ∀ relative node, manifest.lookup relative = some node → node = home relative

theorem manifestOf_lookup {paths : List Text} {relative : Text} {node : Node}
    (h : (manifestOf home paths).lookup relative = some node) :
    node = home relative := by
  induction paths with
  | nil => cases h
  | cons path paths ih =>
    rw [manifestOf, List.map_cons, List.lookup_cons] at h
    by_cases heq : relative = path
    · subst heq
      simpa using h.symm
    · rw [beq_eq_false_iff_ne.mpr heq] at h
      exact ih h

theorem originalNode_eq {g : Guest} {snapshot : Option Text} {relative : Text} {existed : Bool} {node : Node}
    (hholds : Holds home snapshot g) (hexisted : existed = false → home relative = .absent)
    (h : originalNode g.snapshots relative snapshot existed = some node) : node = home relative := by
  unfold originalNode at h
  cases snapshot with
  | none =>
    cases existed with
    | true => cases h
    | false =>
      cases h
      exact (hexisted rfl).symm
  | some id =>
    simp only at h
    cases hfound : (g.snapshots id).bind fun manifest => manifest.lookup relative with
    | none =>
      rw [hfound] at h
      cases h
    | some found =>
      obtain ⟨manifest, hmanifest, hlookup⟩ := Option.bind_eq_some_iff.mp hfound
      have hfoundEq := hholds id manifest rfl hmanifest relative found hlookup
      rw [hfound] at h
      cases found with
      | absent =>
        cases existed with
        | true => cases h
        | false =>
          cases h
          exact hfoundEq
      | file content mode =>
        cases existed with
        | true =>
          cases h
          exact hfoundEq
        | false => cases h
      | other => cases h

/-- A restore that goes through puts back what the home was. -/
theorem restoreNode_eq {sha : Bytes → Text} {g : Guest} {snapshot : Option Text} {relative expected : Text}
    {existed : Bool} {home' : Home} (hholds : Holds home snapshot g)
    (hexisted : existed = false → home relative = .absent)
    (h : restoreNode sha g relative snapshot expected existed = some home') :
    home' = Function.update g.home relative (home relative) := by
  unfold restoreNode at h
  split at h
  · rename_i original content mode horiginal hfile
    split at h
    · cases h
      rw [originalNode_eq hholds hexisted horiginal]
    · cases h
  · cases h

end

end HomeStack.Setup

import HomeStack.Lib.Text

/-! The storage of a credential on the desktop (`hs-cli`, `tui/pangolin_store.rs`), as far as it says
who owns a destination: `Storage::open` takes a lock on a file next to the credential and
`Storage::remove` unlinks that file. The opening of the file, its lock and each unlink are steps of
their own, and any processes take them in any order. -/

namespace HomeStack.KeyStorage

/-- The names of the files of a destination. -/
structure Names where
  key : Text
  pending : Text
  recovery : Text
  lock : Text

def Names.of (name : Text) : Names :=
  if name = "homestack.key" then ⟨name, "credential.pending", "recovery.json", "operation.lock"⟩
  else ⟨name, name ++ ".pending", name ++ ".recovery.json", name ++ ".lock"⟩

/-- The order in which `remove` unlinks. -/
def Names.removed (names : Names) : List Text := [names.key, names.pending, names.recovery, names.lock]

/-- What `metadata` says of a file. -/
structure Info where
  isFile : Bool
  uid : Nat
  mode : Nat
  nlink : Nat

/-- The file of the lock is private and has one name. -/
def Info.safe (info : Info) (uid : Nat) : Bool :=
  info.isFile && info.uid == uid && info.mode &&& 0o177 == 0 && info.nlink == 1

variable {P I : Type} [DecidableEq P]

/-- Where a process is: `open` has opened the file, has looked at it, or has returned the storage. Of a
storage is kept which names a `remove` still has to unlink and whether one has unlinked the lock's name.
-/
inductive Phase (I : Type)
  | out
  | opened (file : I)
  | checked (file : I)
  | holds (file : I) (left : List Text) (unlinked : Bool)

structure State (P I : Type) where
  dir : Text → Option I
  info : I → Info
  phase : P → Phase I

def Phase.file? : Phase I → Option I
  | .out => none
  | .opened i | .checked i | .holds i _ _ => some i

namespace State

variable (s : State P I)

def move (p : P) (phase : Phase I) : State P I := { s with phase := Function.update s.phase p phase }

/-- `openat` makes the file that is not there. -/
def create [DecidableEq I] (name : Text) (i : I) (info : Info) : State P I :=
  { s with dir := Function.update s.dir name (some i), info := Function.update s.info i info }

def unlink [DecidableEq I] (name : Text) (i : I) : State P I :=
  { s with
    dir := Function.update s.dir name none
    info := Function.update s.info i { s.info i with nlink := (s.info i).nlink - 1 } }

/-- A file that has no name here and that nobody has open. -/
def Fresh (i : I) : Prop := (∀ name, s.dir name ≠ some i) ∧ ∀ p, (s.phase p).file? ≠ some i

/-- The process has a storage that `open` returned. -/
def Holds (p : P) : Prop := ∃ i left unlinked, s.phase p = .holds i left unlinked

/-- Nobody has the lock of the file. -/
def Unlocked (i : I) : Prop := ∀ p left unlinked, s.phase p ≠ .holds i left unlinked

end State

section

variable [DecidableEq I] (names : Names) (uid : P → Nat) (granted : State P I → I → Prop)

/-- One step of one process. A lock is taken only where `granted` allows it. -/
inductive Step : State P I → State P I → Prop
  /-- An error of `open`, the drop of the storage, or the end of the process: its files are closed. -/
  | close {s : State P I} (p : P) : Step s (s.move p .out)
  | openat {s : State P I} {p : P} {i : I} : s.phase p = .out → s.dir names.lock = some i →
      Step s (s.move p (.opened i))
  | create {s : State P I} {p : P} {i : I} (kept : Nat) : s.phase p = .out →
      s.dir names.lock = none → s.Fresh i →
      Step s ((s.create names.lock i ⟨true, uid p, 0o600 &&& kept, 1⟩).move p (.opened i))
  | metadata {s : State P I} {p : P} {i : I} : s.phase p = .opened i → (s.info i).safe (uid p) = true →
      Step s (s.move p (.checked i))
  | flock {s : State P I} {p : P} {i : I} : s.phase p = .checked i → s.Unlocked i → granted s i →
      Step s (s.move p (.holds i [] false))
  | remove {s : State P I} {p : P} {i : I} {unlinked : Bool} : s.phase p = .holds i [] unlinked →
      Step s (s.move p (.holds i names.removed unlinked))
  | unlinkat {s : State P I} {p : P} {i j : I} {name : Text} {left : List Text} {unlinked : Bool} :
      s.phase p = .holds i (name :: left) unlinked → s.dir name = some j →
      Step s ((s.unlink name j).move p (.holds i left (unlinked || name == names.lock)))
  | missing {s : State P I} {p : P} {i : I} {name : Text} {left : List Text} {unlinked : Bool} :
      s.phase p = .holds i (name :: left) unlinked → s.dir name = none →
        Step s (s.move p (.holds i left unlinked))
  | failed {s : State P I} {p : P} {i : I} {left : List Text} {unlinked : Bool} :
      s.phase p = .holds i left unlinked → Step s (s.move p (.holds i [] unlinked))

/-- The states that are reached when nobody has anything open at first, whatever is in the directory. -/
inductive Run : State P I → Prop
  | start {s : State P I} : (∀ p, s.phase p = .out) → Run s
  | step {s s' : State P I} : Run s → Step names uid granted s s' → Run s'

end

/-- The lock is taken on the file that has the lock's name, and nobody still has a storage whose lock it
has unlinked. -/
def Settled (names : Names) (s : State P I) (i : I) : Prop :=
  s.dir names.lock = some i ∧ ∀ p j left, s.phase p ≠ .holds j left true

/-- One process at most has a storage, and until it unlinks the lock, the lock's name is that of its file. -/
structure Owned (names : Names) (s : State P I) : Prop where
  once : ∀ p q, s.Holds p → s.Holds q → p = q
  named : ∀ p i left, s.phase p = .holds i left false → s.dir names.lock = some i

variable {names : Names} {uid : P → Nat} {s s' : State P I} {p : P}

theorem phase_move_self (phase : Phase I) : (s.move p phase).phase p = phase := Function.update_self ..

theorem phase_move_of_ne {q : P} (phase : Phase I) (h : q ≠ p) : (s.move p phase).phase q = s.phase q :=
  Function.update_of_ne h ..

/-- A process that had no storage and gets none. -/
theorem Owned.move_of_not_holds {phase : Phase I} (h : Owned names s)
    (hphase : ∀ i left unlinked, phase ≠ .holds i left unlinked) :
    Owned names (s.move p phase) := by
  have hsame (q : P) (i : I) (left : List Text) (unlinked : Bool)
      (hq : (s.move p phase).phase q = .holds i left unlinked) :
      s.phase q = .holds i left unlinked := by
    by_cases hqp : q = p
    · subst hqp
      rw [phase_move_self] at hq
      exact (hphase _ _ _ hq).elim
    · rwa [phase_move_of_ne _ hqp] at hq
  constructor
  · rintro q r ⟨i, left, unlinked, hq⟩ ⟨j, left', unlinked', hr⟩
    exact h.once q r ⟨_, _, _, hsame _ _ _ _ hq⟩ ⟨_, _, _, hsame _ _ _ _ hr⟩
  · intro q i left hq
    exact h.named q i left (hsame _ _ _ _ hq)

/-- The only owner goes on with its storage. -/
theorem Owned.move_owner {i : I} {left : List Text} {unlinked : Bool} (h : ∀ q, s.Holds q → q = p)
    (hnamed : unlinked = false → s.dir names.lock = some i) :
    Owned names (s.move p (.holds i left unlinked)) := by
  have honly (q : P) (hq : (s.move p (.holds i left unlinked)).Holds q) : q = p := by
    by_contra hne
    obtain ⟨j, left', unlinked', hq⟩ := hq
    rw [phase_move_of_ne _ hne] at hq
    exact hne (h q ⟨_, _, _, hq⟩)
  constructor
  · intro q r hq hr
    rw [honly q hq, honly r hr]
  · intro q j left' hq
    obtain rfl := honly q ⟨_, _, _, hq⟩
    rw [phase_move_self] at hq
    cases hq
    exact hnamed rfl

section

variable [DecidableEq I]

theorem Owned.step (h : Owned names s) (hstep : Step names uid (Settled names) s s') : Owned names s' := by
  have honly {p : P} {i : I} {left : List Text} {unlinked : Bool} (hp : s.phase p = .holds i left unlinked)
      (q : P) (hq : s.Holds q) :
      q = p := h.once q p hq ⟨_, _, _, hp⟩
  cases hstep with
  | close p => exact h.move_of_not_holds (by simp)
  | openat _ _ => exact h.move_of_not_holds (by simp)
  | create kept _ hnone hfresh =>
    -- whoever has a storage has unlinked the lock
    refine Owned.move_of_not_holds ⟨h.once, fun q j left hq => ?_⟩ (by simp)
    have hnamed := h.named q j left hq
    rw [hnone] at hnamed
    cases hnamed
  | metadata _ _ => exact h.move_of_not_holds (by simp)
  | @flock p i hp hunlocked hgranted =>
    obtain ⟨hname, hremoved⟩ := hgranted
    refine Owned.move_owner (fun q hq => ?_) fun _ => hname
    obtain ⟨j, left, unlinked, hq⟩ := hq
    cases unlinked with
    | true => exact (hremoved _ _ _ hq).elim
    | false =>
      -- its file has the lock's name too, so that the lock is taken
      have hsame := h.named q j left hq
      rw [hname] at hsame
      cases hsame
      exact (hunlocked _ _ _ hq).elim
  | remove hp =>
    refine Owned.move_owner (honly hp) fun hunlinked => ?_
    subst hunlinked
    exact h.named _ _ _ hp
  | @unlinkat p i j name left unlinked hp hname =>
    refine Owned.move_owner (s := s.unlink name j) (honly hp) fun hunlinked => ?_
    obtain ⟨rfl, hne⟩ : unlinked = false ∧ name ≠ names.lock := by simpa using hunlinked
    exact (Function.update_of_ne hne.symm ..).trans (h.named _ _ _ hp)
  | missing hp _ =>
    refine Owned.move_owner (honly hp) fun hunlinked => ?_
    subst hunlinked
    exact h.named _ _ _ hp
  | failed hp =>
    refine Owned.move_owner (honly hp) fun hunlinked => ?_
    subst hunlinked
    exact h.named _ _ _ hp

theorem Run.owned (h : Run names uid (Settled names) s) : Owned names s := by
  induction h with
  | start hout =>
    constructor
    · rintro p q ⟨i, left, unlinked, hp⟩ -
      rw [hout] at hp
      cases hp
    · intro p i left hp
      rw [hout] at hp
      cases hp
  | step _ hstep ih => exact ih.step hstep

/-- In every run in which locks are taken on the named file only, and not before the storage of a
removed lock is dropped, one process at most has a storage. -/
theorem storage_one_owner (h : Run names uid (Settled names) s) {p q : P} (hp : s.Holds p) (hq : s.Holds q) :
    p = q :=
  h.owned.once p q hp hq

end

/-- The destination of a Site's key, and a directory that is empty. -/
def site : Names := Names.of "site.key"

def empty : State (Fin 3) Nat := ⟨fun _ => none, fun _ => ⟨false, 0, 0, 0⟩, fun _ => .out⟩

def made : State (Fin 3) Nat := (empty.create site.lock 0 ⟨true, 1000, 0o600 &&& 0o600, 1⟩).move 0 (.opened 0)

def held : State (Fin 3) Nat := (made.move 0 (.checked 0)).move 0 (.holds 0 [] false)

theorem fresh_empty (i : Nat) : empty.Fresh i := ⟨fun _ => nofun, fun _ => nofun⟩

theorem unlocked_made : (made.move 0 (.checked 0)).Unlocked 0 := by
  intro p left unlinked
  fin_cases p <;> exact nofun

theorem run_held {granted : State (Fin 3) Nat → Nat → Prop} (h : granted (made.move 0 (.checked 0)) 0) :
    Run site (fun _ => 1000) granted held :=
  .step (.step (.step (.start fun _ => rfl) (.create 0o600 rfl rfl (fresh_empty 0))) (.metadata rfl rfl))
    (.flock rfl unlocked_made h)

/-- The second process has looked at the file when the first removes it. -/
def looked : State (Fin 3) Nat := (held.move 1 (.opened 0)).move 1 (.checked 0)

/-- The first has removed it and dropped its storage. -/
def dropped : State (Fin 3) Nat :=
  (((((looked.move 0 (.holds 0 site.removed false)).move 0
    (.holds 0 [site.pending, site.recovery, site.lock] false)).move 0
    (.holds 0 [site.recovery, site.lock] false)).move 0 (.holds 0 [site.lock] false)).unlink
      site.lock 0).move 0
      (.holds 0 [] (false || site.lock == site.lock)) |>.move 0 .out

theorem run_dropped {granted : State (Fin 3) Nat → Nat → Prop} (h : granted (made.move 0 (.checked 0)) 0) :
    Run site (fun _ => 1000) granted dropped :=
  have hlooked : Run site (fun _ => 1000) granted looked :=
    .step (.step (run_held h) (.openat rfl rfl)) (.metadata rfl rfl)
  have hrecovery := Run.step (.step (.step (.step hlooked (.remove rfl)) (.missing rfl rfl))
    (.missing rfl rfl)) (.missing rfl rfl)
  .step (.step hrecovery (.unlinkat rfl rfl)) (.close 0)

theorem fresh_dropped (phase : Phase Nat) (h : phase.file? ≠ some 1) : (dropped.move 1 phase).Fresh 1 := by
  constructor
  · intro name
    simp [dropped, looked, held, made, empty, State.move, State.unlink, State.create]
  · intro p
    fin_cases p
    · exact nofun
    · exact h
    · exact nofun

/-- The second gives up its file and makes a new one, which the third looks at while the second holds it. -/
def remade : State (Fin 3) Nat :=
  (((dropped.move 1 .out).create site.lock 1 ⟨true, 1000, 0o600 &&& 0o600, 1⟩).move 1
    (.opened 1)).move 1 (.checked 1)

def handed : State (Fin 3) Nat := ((remade.move 1 (.holds 1 [] false)).move 2 (.opened 1)).move 2 (.checked 1)

/-- The storage of one process is removed while another waits, and that one gets its own later. -/
theorem storage_one_owner_held :
    Run site (fun _ => 1000) (Settled site) handed ∧ handed.Holds 1 ∧ ∀ q, handed.Holds q → q = 1 := by
  have hfirst : Settled site (made.move 0 (.checked 0)) 0 := by
    refine ⟨rfl, fun p j left => ?_⟩
    fin_cases p <;> exact nofun
  have hremade : Run site (fun _ => 1000) (Settled site) remade :=
    .step (.step (.step (run_dropped hfirst) (.close 1)) (.create 0o600 rfl rfl (fresh_dropped .out nofun)))
      (.metadata rfl rfl)
  have hsecond : Settled site remade 1 := by
    refine ⟨rfl, fun p j left => ?_⟩
    fin_cases p <;> exact nofun
  have hunlocked : remade.Unlocked 1 := by
    intro p left unlinked
    fin_cases p <;> exact nofun
  have hrun : Run site (fun _ => 1000) (Settled site) handed :=
    .step (.step (.step hremade (.flock rfl hunlocked hsecond)) (.openat rfl rfl)) (.metadata rfl rfl)
  exact ⟨hrun, ⟨_, _, _, rfl⟩, fun q hq => storage_one_owner hrun hq ⟨_, _, _, rfl⟩⟩

/-- The second locks the file without a name, and the third opens one that is new. -/
def reopened : State (Fin 3) Nat :=
  ((dropped.move 1 (.holds 0 [] false)).create site.lock 1 ⟨true, 1000,
    0o600 &&& 0o600, 1⟩).move 2 (.opened 1)

def both : State (Fin 3) Nat := (reopened.move 2 (.checked 1)).move 2 (.holds 1 [] false)

theorem run_both : Run site (fun _ => 1000) (fun _ _ => True) both := by
  have hunlocked : dropped.Unlocked 0 := by
    intro p left unlinked
    fin_cases p <;> exact nofun
  have hreopened : Run site (fun _ => 1000) (fun _ _ => True) reopened :=
    .step (.step (run_dropped trivial) (.flock rfl hunlocked trivial))
      (.create 0o600 rfl rfl (fresh_dropped _ (by simp [Phase.file?])))
  refine .step (.step hreopened (.metadata rfl rfl)) (.flock rfl ?_ trivial)
  intro p left unlinked
  fin_cases p <;> exact nofun

theorem storage_two_owners : ¬ ∀ (s : State (Fin 3) Nat), Run site (fun _ => 1000) (fun _ _ => True) s →
    ∀ p q, s.Holds p → s.Holds q → p = q := by
  intro h
  have hsame := h both run_both 1 2 ⟨_, _, _, rfl⟩ ⟨_, _, _, rfl⟩
  cases hsame

end HomeStack.KeyStorage

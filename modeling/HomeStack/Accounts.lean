import HomeStack.Error
import HomeStack.Lib.Chars
import HomeStack.Lib.Pool
import HomeStack.Lib.Text

/-! The profiles of the agent accounts service (`hs-agent-accounts`): its handlers (`main.rs`) and
operations (`app.rs`, `runtime.rs`) as programs over what they share, the database, the files, the jobs
and the locks. Each question is one step: a call of the database, one hold of the jobs or of the map of
locks, an await. A future that is cancelled or times out is dropped at an await, and what it holds is
released. The tasks that are spawned wait for their operation. -/

namespace HomeStack.Accounts

structure Snapshot where
  observedAt : Int
  account : Text
  deriving DecidableEq

structure Profile where
  id : Text
  provider : Text
  displayName : Text
  enabled : Bool
  deleting : Bool
  authStatus : Text
  account : Option Text
  lastSuccess : Option Int
  lastAttempt : Option Int
  error : Option Failure
  failures : Nat
  totalFailures : Nat
  snapshot : Option Snapshot
  createdAt : Int
  updatedAt : Int
  deriving DecidableEq

inductive Kind
  | authentication
  | probe
  | statistics
  | updateCheck
  | upgrade
  | rollback
  deriving DecidableEq

/-- `Operation`; it is terminal once it is finished. -/
structure Operation where
  id : Nat
  profileId : Option Text
  provider : Text
  kind : Kind
  finished : Bool
  deriving DecidableEq

/-- A request that is handled, or the task of an operation. -/
inductive Proc
  | request (n : Nat)
  | task (operation : Nat)
  deriving DecidableEq

/-- `Job`, with who has cancelled it. -/
structure Job where
  value : Operation
  cancelledBy : List Proc
  deriving DecidableEq

/-- An await ends, or the future is dropped there. -/
inductive Awaited (α : Type)
  | done (a : α)
  | dropped (f : Failure)

/-- What is shared. Locks and operations are numbered; `owner` and `started` say which numbers were ever
given, `spawned` whose task runs, `young` which ended less than ten minutes ago, `used` which ids were
ever made and `born` which were saved and for which provider, `edited` what the last edit wrote and
`deleted` whose deletion was answered. -/
structure Shared where
  rows : Text → Option Profile
  history : Text → List Snapshot
  operations : Nat → Option Operation
  files : Text → Bool
  jobs : List Job
  started : Nat → Option Operation
  spawned : Nat → Bool
  young : Nat → Bool
  locks : Text → Option Nat
  owner : Nat → Option Text
  holder : Nat → Option Proc
  readers : Text → List Proc
  writer : Text → Option Proc
  used : Text → Bool
  born : Text → Option Text
  edited : Text → Option Bool
  deleted : Text → Bool

/-! ## Questions -/

inductive Ask
  | profile (id : Text)
  | profiles
  | insert (p : Profile)
  | save (p : Profile) (snapshot : Option Snapshot) (edit : Bool)
  | delete (id : Text)
  | activate (p : Profile) (snapshot : Snapshot)
  | operation (op : Nat)
  | storeOperation (o : Operation)
  | newId
  | prepare (id : Text)
  | deleteFiles (id : Text)
  | cancelProfile (id : Text)
  | cancelOperation (op : Nat)
  | begin (p : Profile) (kind : Kind)
  | beginRuntime (provider : Text) (kind : Kind)
  | removeJob (op : Nat)
  | removeJobs (id : Text)
  | spawn (op : Nat)
  | take (op : Nat)
  | finish (op : Nat)
  | lock (id : Text)
  | acquire (id : Text) (lock : Nat)
  | release (id : Text) (lock : Nat)
  | removeLock (id : Text)
  | readGate (provider : Text)
  | leaveGate (provider : Text)
  | writeGate (provider : Text)
  | leaveExclusive (provider : Text)
  /-- A provider is asked for an account, for statistics or for its limits. -/
  | authenticating (provider : Text)
  | counting (provider : Text)
  | probing (provider : Text)
  /-- A runtime is looked up, fetched or started. -/
  | working (provider : Text)
  | slot
  | sleep
  /-- Checks that read nothing of profiles. -/
  | check
  | now
  /-- The deletion is answered with success. -/
  | gone (id : Text)

abbrev Ask.Answer : Ask → Type
  | .profile _ => Except Failure Profile
  | .profiles => Except Failure (List Profile)
  | .insert _ | .save _ _ _ | .delete _ | .activate _ _ | .storeOperation _ => Except Failure Unit
  | .operation _ => Except Failure Operation
  | .newId => Text
  | .prepare _ | .deleteFiles _ => Except Failure Unit
  | .cancelProfile _ => Unit
  | .cancelOperation _ => Except Failure Unit
  | .begin _ _ | .beginRuntime _ _ => Except Failure Nat
  | .removeJob _ | .removeJobs _ | .spawn _ | .finish _ => Unit
  | .take _ => Operation
  | .lock _ => Nat
  | .acquire _ _ | .readGate _ | .writeGate _ | .slot => Awaited Unit
  | .release _ _ | .removeLock _ | .leaveGate _ | .leaveExclusive _ => Unit
  | .authenticating _ => Awaited (Except Failure Text)
  | .counting _ | .working _ | .sleep => Awaited (Except Failure Unit)
  | .probing _ => Awaited (Except Failure Snapshot)
  | .check => Except Failure Unit
  | .now => Int
  | .gone _ => Unit

abbrev Run (α : Type) := Prog Ask Ask.Answer α

def ask (q : Ask) : Run q.Answer := Prog.call q

def Job.of (id : Text) (j : Job) : Prop := j.value.profileId = some id

instance (id : Text) (j : Job) : Decidable (j.of id) := inferInstanceAs (Decidable (_ = _))

namespace Shared

variable (s : Shared) (i : Proc)

def saved (p : Profile) (snapshot : Option Snapshot) : Shared :=
  { s with
    rows := Function.update s.rows p.id (some p)
    history := match snapshot with
      | some h => Function.update s.history p.id (s.history p.id ++ [h])
      | none => s.history }

/-- The operations that are not finished. -/
def running : List Job := s.jobs.filter fun j => !j.value.finished

/-- Old finished operations are dropped when there are many. -/
def kept (limit : Nat) : List Job :=
  if limit ≤ s.jobs.length then s.jobs.filter fun j => !j.value.finished || s.young j.value.id else s.jobs

def start (jobs : List Job) (o : Operation) (spawned : Bool) : Shared :=
  { s with
    jobs := jobs ++ [⟨o, []⟩]
    started := Function.update s.started o.id (some o)
    spawned := Function.update s.spawned o.id spawned }

def cancel (p : Job → Bool) : Shared :=
  { s with jobs := s.jobs.map fun j => if p j then { j with cancelledBy := i :: j.cancelledBy } else j }

/-- `INSERT OR REPLACE INTO operations`, if the profile is there. -/
def stored (o : Operation) : Shared :=
  if o.profileId.all fun id => (s.rows id).isSome then
    { s with operations := Function.update s.operations o.id (some o) } else s

end Shared

def busy (message : Text) : Failure := ⟨"busy", message⟩

/-- `Context::begin`, one hold of the jobs. -/
inductive Begun (s : Shared) (p : Profile) (kind : Kind) : Except Failure Nat → Shared → Prop
  | same {j : Job} : j ∈ s.running → j.of p.id → j.value.kind = kind → Begun s p kind (.ok j.value.id) s
  | other {j : Job} : j ∈ s.running → j.of p.id → j.value.kind ≠ kind →
      Begun s p kind (.error (busy "This profile already has an operation in progress")) s
  | full : (∀ j ∈ s.running, ¬ j.of p.id) → 32 ≤ s.running.length →
      Begun s p kind (.error (busy "Operation queue is full")) s
  | crowded : (∀ j ∈ s.running, ¬ j.of p.id) → s.running.length < 32 → 256 ≤ (s.kept 128).length →
      Begun s p kind (.error (busy "Operation history is full; retry shortly")) { s with jobs := s.kept 128 }
  | fresh (op : Nat) : (∀ j ∈ s.running, ¬ j.of p.id) → s.running.length < 32 →
      (s.kept 128).length < 256 → s.started op = none →
      Begun s p kind (.ok op) (s.start (s.kept 128) ⟨op, some p.id, p.provider, kind, false⟩ true)

/-- `Context::runtime_operation`, its hold of the jobs. -/
inductive BegunRuntime (s : Shared) (provider : Text) (kind : Kind) : Except Failure Nat → Shared → Prop
  | busy {j : Job} : j ∈ s.running → j.value.provider = provider →
      BegunRuntime s provider kind (.error (busy "Wait for this provider's current operation to finish")) s
  | full : (∀ j ∈ s.running, j.value.provider ≠ provider) →
      256 ≤ (s.kept 0).length ∨ 32 ≤ s.running.length →
      BegunRuntime s provider kind (.error (Accounts.busy "Operation queue is full"))
        { s with jobs := s.kept 0 }
  | fresh (op : Nat) : (∀ j ∈ s.running, j.value.provider ≠ provider) → (s.kept 0).length < 256 →
      s.running.length < 32 → s.started op = none →
      BegunRuntime s provider kind (.ok op) (s.start (s.kept 0) ⟨op, none, provider, kind, false⟩ false)

/-- What a question may be answered, and what it changes. A failure of the database changes nothing. -/
def next (i : Proc) (s : Shared) : (q : Ask) → q.Answer → Shared → Prop
  | .profile id, r, t => t = s ∧ ∀ p, r = .ok p → s.rows id = some p
  | .profiles, r, t => t = s ∧ ∀ ps, r = .ok ps → ∀ p ∈ ps, s.rows p.id = some p
  | .insert p, r, t =>
    r = .ok () ∧ t = { s.saved p none with born := Function.update s.born p.id (some p.provider) } ∨
      (∃ f, r = .error f) ∧ t = s
  | .save p snapshot edit, r, t =>
    r = .ok () ∧ t = { s.saved p snapshot with
      edited := if edit then Function.update s.edited p.id (some p.enabled) else s.edited } ∨
      (∃ f, r = .error f) ∧ t = s
  | .delete id, r, t =>
    r = .ok () ∧ t = { s with
      rows := Function.update s.rows id none
      history := Function.update s.history id []
      operations := fun op => (s.operations op).filter fun o => o.profileId ≠ some id } ∨
        (∃ f, r = .error f) ∧ t = s
  | .activate p snapshot, r, t =>
    r = .ok () ∧ (s.rows p.id).isSome ∧ t = s.saved p (some snapshot) ∨ (∃ f, r = .error f) ∧ t = s
  | .operation op, r, t =>
    t = s ∧ ∀ o, r = .ok o → (∃ j ∈ s.jobs, j.value.id = op ∧ o = j.value) ∨ s.operations op = some o
  | .storeOperation o, r, t => r = .ok () ∧ t = s.stored o ∨ (∃ f, r = .error f) ∧ t = s
  | .newId, id, t => s.used id = false ∧ t = { s with used := Function.update s.used id true }
  | .prepare id, r, t =>
    t = { s with files := Function.update s.files id true } ∨ (∃ f, r = .error f) ∧ t = s
  | .deleteFiles id, r, t =>
    r = .ok () ∧ t = { s with files := Function.update s.files id false } ∨ (∃ f, r = .error f) ∧ t = s
  | .cancelProfile id, _, t => t = s.cancel i fun j => j.value.profileId = some id && !j.value.finished
  | .cancelOperation op, r, t => (∃ f, r = .error f) ∧ t = s ∨ r = .ok () ∧
      t = s.cancel i fun j => j.value.id = op
  | .begin p kind, r, t => Begun s p kind r t
  | .beginRuntime provider kind, r, t => BegunRuntime s provider kind r t
  | .removeJob op, _, t => t = { s with jobs := s.jobs.filter fun j => j.value.id ≠ op }
  | .removeJobs id, _, t => t = { s with jobs := s.jobs.filter fun j => j.value.profileId ≠ some id }
  | .spawn op, _, t => t = { s with spawned := Function.update s.spawned op true }
  | .take op, o, t => t = s ∧ s.started op = some o ∧ s.spawned op = true
  | .finish op, _, t =>
    t = { s with jobs := s.jobs.map fun j => if j.value.id = op then
      { j with value := { j.value with finished := true } } else j }
  | .lock id, l, t =>
    s.locks id = some l ∧ t = s ∨ s.locks id = none ∧ s.owner l = none ∧
      t = { s with
        locks := Function.update s.locks id (some l), owner := Function.update s.owner l (some id) }
  | .acquire _ l, r, t =>
    r = .done () ∧ s.holder l = none ∧ t = { s with holder := Function.update s.holder l (some i) } ∨
      (∃ f, r = .dropped f) ∧ t = s
  | .release _ l, _, t => t = { s with holder := Function.update s.holder l none }
  | .removeLock id, _, t => t = { s with locks := Function.update s.locks id none }
  | .readGate provider, r, t =>
    r = .done () ∧ s.writer provider = none ∧
      t = { s with readers := Function.update s.readers provider (i :: s.readers provider) } ∨
        (∃ f, r = .dropped f) ∧ t = s
  | .leaveGate provider, _,
      t => t = { s with readers := Function.update s.readers provider ((s.readers provider).erase i) }
  | .writeGate provider, r, t =>
    r = .done () ∧ s.writer provider = none ∧ s.readers provider = [] ∧
      t = { s with writer := Function.update s.writer provider (some i) } ∨ (∃ f, r = .dropped f) ∧ t = s
  | .leaveExclusive provider, _, t => t = { s with writer := Function.update s.writer provider none }
  | .gone id, _, t => t = { s with deleted := Function.update s.deleted id true }
  | .authenticating _, _, t | .counting _, _, t | .probing _, _, t | .working _, _, t | .slot, _,
      t | .sleep, _, t | .check, _, t
  | .now, _, t => t = s

/-! ## Handlers -/

abbrev Result := Except Failure Unit

/-- The providers that are registered, each with a gate. -/
def providers : List Text := ["codex", "claude", "antigravity"]

def validName (name : Text) : Bool := name ≠ [] && name.length ≤ 80 && !name.any Text.isControl

def create (provider name : Text) : Run Result :=
  if provider ∉ providers then pure (.error .unsupported)
  else if !validName (Text.trim name) then
    pure (.error ⟨"invalid_input", "Display name must contain 1–80 printable characters"⟩)
  else do
    let id ← ask .newId
    let created ← ask .now
    let updated ← ask .now
    match ← ask (.prepare id) with
    | .error f => pure (.error f)
    | .ok () => ask (.insert ⟨id, provider, Text.trim name, true, false, "unauthenticated", none, none, none,
        none, 0, 0, none, created, updated⟩)

def edited (p : Profile) (enabled : Bool) (now : Int) : Profile :=
  { p with enabled := enabled, updatedAt := now }

/-- `edit`, once it has the lock; what it saved. -/
def editLocked (id : Text) (enabled : Bool) : Run (Except Failure Profile) := do
  match ← ask (.profile id) with
  | .error f => pure (.error f)
  | .ok p =>
    if p.deleting then pure (.error (busy "Profile is being deleted"))
    else
      let now ← ask .now
      match ← ask (.save (edited p enabled now) none true) with
      | .error f => pure (.error f)
      | .ok () => pure (.ok (edited p enabled now))

def editBegin (p : Profile) : Run Result :=
  if p.enabled then do
    match ← ask (.begin p .probe) with
    | .error f => pure (.error f)
    | .ok _ => pure (.ok ())
  else pure (.ok ())

def edit (id : Text) (enabled : Bool) : Run Result := do
  match ← ask (.profile id) with
  | .error f => pure (.error f)
  | .ok _ =>
    ask (.cancelProfile id)
    let lock ← ask (.lock id)
    match ← ask (.acquire id lock) with
    | .dropped f => pure (.error f)
    | .done () =>
      let saved ← editLocked id enabled
      ask (.release id lock)
      match saved with
      | .error f => pure (.error f)
      | .ok p => editBegin p

/-- `delete_profile`, once it has the lock. -/
def deleteLocked (id : Text) : Run Result := do
  match ← ask (.profile id) with
  | .error f => pure (.error f)
  | .ok p =>
    match ← ask (.save { p with deleting := true } none false) with
    | .error f => pure (.error f)
    | .ok () =>
      match ← ask (.deleteFiles id) with
      | .error f => pure (.error f)
      | .ok () =>
        match ← ask (.delete id) with
        | .error f => pure (.error f)
        | .ok () =>
          ask (.removeLock id)
          ask (.removeJobs id)
          ask (.gone id)
          pure (.ok ())

def deleteProfile (id : Text) (confirm : Bool) : Run Result :=
  if !confirm then pure (.error ⟨"confirmation_required",
    "Confirm permanent deletion of this profile and all its history"⟩)
  else do
    match ← ask (.profile id) with
    | .error f => pure (.error f)
    | .ok _ =>
      ask (.cancelProfile id)
      let lock ← ask (.lock id)
      match ← ask (.acquire id lock) with
      | .dropped f => pure (.error f)
      | .done () =>
        let result ← deleteLocked id
        ask (.release id lock)
        pure result

/-- `authenticate`, `probe` and `statistics` -/
def beginFor (id : Text) (kind : Kind) : Run Result := do
  match ← ask (.profile id) with
  | .error f => pure (.error f)
  | .ok p =>
    if kind = .probe ∧ !p.enabled then pure (.error ⟨"disabled", "Enable the profile before checking usage"⟩)
    else
      match ← ask (.begin p kind) with
      | .error f => pure (.error f)
      | .ok _ => pure (.ok ())

def cancelAuth (id : Text) : Run Result := do
  match ← ask (.profile id) with
  | .error f => pure (.error f)
  | .ok _ =>
    ask (.cancelProfile id)
    pure (.ok ())

/-- One profile of the scheduler; whether its last attempt is long enough ago is a check. -/
def schedule (p : Profile) : Run Unit :=
  if p.enabled && !p.deleting && p.authStatus = "authenticated" then do
    match ← ask .check with
    | .error _ => pure ()
    | .ok () =>
      let _ ← ask (.begin p .probe)
      pure ()
  else pure ()

def scheduleAll : List Profile → Run Unit
  | [] => pure ()
  | p :: ps => do
    schedule p
    scheduleAll ps

/-- One tick of `scheduler`. -/
def tick : Run Result := do
  match ← ask .profiles with
  | .error f => pure (.error f)
  | .ok ps =>
    scheduleAll ps
    pure (.ok ())

def runtimeOperation (provider : Text) (kind : Kind) : Run Result := do
  match ← ask .check with
  | .error f => pure (.error f)
  | .ok () =>
    match ← ask (.beginRuntime provider kind) with
    | .error f => pure (.error f)
    | .ok op =>
      match ← ask (.storeOperation ⟨op, none, provider, kind, false⟩) with
      | .error f =>
        ask (.removeJob op)
        pure (.error f)
      | .ok () =>
        ask (.spawn op)
        pure (.ok ())

inductive Request
  | create (provider name : Text)
  | edit (id : Text) (enabled : Bool)
  | delete (id : Text) (confirm : Bool)
  | authenticate (id : Text)
  | probe (id : Text)
  | statistics (id : Text)
  | cancelAuth (id : Text)
  | cancelOperation (op : Nat)
  | tick
  | runtime (provider : Text) (kind : Kind)

def Request.handle : Request → Run Result
  | .create provider name => Accounts.create provider name
  | .edit id enabled => Accounts.edit id enabled
  | .delete id confirm => deleteProfile id confirm
  | .authenticate id => beginFor id .authentication
  | .probe id => beginFor id .probe
  | .statistics id => beginFor id .statistics
  | .cancelAuth id => Accounts.cancelAuth id
  | .cancelOperation op => ask (.cancelOperation op)
  | .tick => Accounts.tick
  | .runtime provider kind => runtimeOperation provider kind

/-! ## Operations -/

/-- A provider is asked for the limits of a profile, whose directories it makes first. -/
def attempt (provider : Text) (p : Profile) : Run (Awaited (Except Failure Snapshot)) := do
  match ← ask (.prepare p.id) with
  | .error f => pure (.done (.error f))
  | .ok () => ask (.probing provider)

/-- Twice, if the network fails. -/
def attempts (p : Profile) : Run (Awaited (Except Failure Snapshot)) := do
  match ← attempt p.provider p with
  | .done (.error f) =>
    if f.code = "network_failure" then
      match ← ask .sleep with
      | .dropped f => pure (.dropped f)
      | .done (.error f) => pure (.done (.error f))
      | .done (.ok ()) => attempt p.provider p
    else pure (.done (.error f))
  | r => pure r

def authenticated (p : Profile) (account : Text) (now : Int) : Profile :=
  { p with
    account := some account
    authStatus := "authenticated"
    error := some ⟨"stale_measurement", "Authentication completed; awaiting a fresh usage check"⟩
    updatedAt := now }

def measured (p : Profile) (snapshot : Snapshot) (now : Int) : Profile :=
  { p with
    authStatus := "authenticated"
    account := some snapshot.account
    lastSuccess := some snapshot.observedAt
    error := none
    failures := 0
    snapshot := some snapshot
    updatedAt := now }

def failed (p : Profile) (f : Failure) (now : Int) : Profile :=
  { p with
    failures := min (p.failures + 1) (2 ^ 64 - 1)
    totalFailures := min (p.totalFailures + 1) (2 ^ 64 - 1)
    authStatus := if f.code = "reauthentication_required" ∨
      f.code = "authentication_expired" then f.code else p.authStatus
    error := some f
    updatedAt := now }

/-- The operation `authentication`, with the lock. -/
def authenticateLocked (p : Profile) : Run Result := do
  match ← ask (.prepare p.id) with
  | .error f => pure (.error f)
  | .ok () =>
    match ← ask (.authenticating p.provider) with
    | .dropped f => pure (.error f)
    | .done (.error f) => pure (.error f)
    | .done (.ok account) =>
      let now ← ask .now
      ask (.save (authenticated p account now) none false)

/-- `statistics` -/
def statisticsLocked (p : Profile) : Run Result := do
  match ← ask (.prepare p.id) with
  | .error f => pure (.error f)
  | .ok () =>
    match ← ask (.counting p.provider) with
    | .dropped f => pure (.error f)
    | .done r => pure r

/-- What a probe found is saved. -/
def settle (p : Profile) : Except Failure Snapshot → Run Result
  | .ok snapshot => do
    let now ← ask .now
    match ← ask (.save (measured p snapshot now) (some snapshot) false) with
    | .error f => pure (.error f)
    | .ok () => ask .check
  | .error e => do
    let now ← ask .now
    match ← ask (.save (failed p e now) none false) with
    | .error f => pure (.error f)
    | .ok () => pure (.error e)

/-- `probe` -/
def probeLocked (p : Profile) : Run Result := do
  let now ← ask .now
  match ← ask (.save { p with lastAttempt := some now } none false) with
  | .error f => pure (.error f)
  | .ok () =>
    match ← ask .check with
    | .error f => pure (.error f)
    | .ok () =>
      match ← attempts { p with lastAttempt := some now } with
      | .dropped f => pure (.error f)
      | .done r => settle { p with lastAttempt := some now } r

/-- An operation of a profile, once it has the lock. -/
def operationLocked (id : Text) (kind : Kind) : Run Result := do
  match ← ask .slot with
  | .dropped f => pure (.error f)
  | .done () =>
    match ← ask (.profile id) with
    | .error f => pure (.error f)
    | .ok p =>
      if p.deleting then pure (.error ⟨"not_found", "Profile is being deleted"⟩)
      else if kind ≠ .authentication ∧ !p.enabled then pure (.error ⟨"disabled", "Profile is disabled"⟩)
      else if p.provider ∉ providers then pure (.error .unsupported)
      else
        match kind with
        | .authentication => authenticateLocked p
        | .statistics => statisticsLocked p
        | _ => probeLocked p

/-- The bounded part of an operation of a profile. -/
def operationBody (id provider : Text) (kind : Kind) : Run Result :=
  if provider ∉ providers then pure (.error .unsupported)
  else do
    match ← ask (.readGate provider) with
    | .dropped f => pure (.error f)
    | .done () =>
      let lock ← ask (.lock id)
      match ← ask (.acquire id lock) with
      | .dropped f =>
        ask (.leaveGate provider)
        pure (.error f)
      | .done () =>
        let result ← operationLocked id kind
        ask (.release id lock)
        ask (.leaveGate provider)
        pure result

/-- A failed authentication is written into the profile. -/
def noteFailure (id : Text) (f : Failure) : Run Unit := do
  let lock ← ask (.lock id)
  match ← ask (.acquire id lock) with
  | .dropped _ => pure ()
  | .done () =>
    match ← ask (.profile id) with
    | .error _ => ask (.release id lock)
    | .ok p =>
      if p.deleting then ask (.release id lock)
      else
        let now ← ask .now
        let _ ← ask (.save { p with error := some f, updatedAt := now } none false)
        ask (.release id lock)

/-- The operation is finished and stored. -/
def conclude (op : Nat) : Run Unit := do
  ask (.finish op)
  match ← ask (.operation op) with
  | .error _ => pure ()
  | .ok o =>
    let _ ← ask (.storeOperation o)
    pure ()

/-- A profile that was authenticated is probed. -/
def follow (id : Text) (kind : Kind) : Result → Run Result
  | .error f => pure (.error f)
  | .ok () =>
    if kind = .authentication then do
      match ← ask (.profile id) with
      | .error _ => pure (.ok ())
      | .ok p =>
        if p.enabled then
          let _ ← ask (.begin p .probe)
          pure (.ok ())
        else pure (.ok ())
    else pure (.ok ())

/-- The task that `begin` spawns. -/
def profileTask (op : Nat) (id provider : Text) (kind : Kind) : Run Result := do
  let result ← operationBody id provider kind
  match result with
  | .ok () => pure ()
  | .error f => if kind = .authentication ∧ f.code ≠ "cancelled" then noteFailure id f else pure ()
  conclude op
  follow id kind result

/-! ## Runtimes -/

def activated (p : Profile) (snapshot : Snapshot) (now : Int) : Profile :=
  { p with
    snapshot := some snapshot
    account := some snapshot.account
    lastSuccess := some snapshot.observedAt
    lastAttempt := some now
    updatedAt := now
    error := none
    failures := 0 }

/-- The runtime is verified with a profile, once it has the lock. -/
def verifyLocked (provider id : Text) : Run Result := do
  match ← ask (.profile id) with
  | .error f => pure (.error f)
  | .ok p =>
    if !p.enabled || p.deleting || p.authStatus ≠ "authenticated" then
      pure (.error ⟨"verification_blocked", "The verification profile is no longer available"⟩)
    else
      match ← ask (.working provider) with
      | .dropped f => pure (.error f)
      | .done (.error f) => pure (.error f)
      | .done (.ok ()) =>
        match ← attempt provider p with
        | .dropped f => pure (.error f)
        | .done (.error f) => pure (.error f)
        | .done (.ok snapshot) =>
          match ← ask .check with
          | .error f => pure (.error f)
          | .ok () =>
            let now ← ask .now
            ask (.activate (activated p snapshot now) snapshot)

/-- With the gate to itself. -/
def runtimeExclusive (provider : Text) (kind : Kind) : Run Result := do
  match ← ask .slot with
  | .dropped f => pure (.error f)
  | .done () =>
    match ← ask .check with
    | .error f => pure (.error f)
    | .ok () =>
      if kind = .updateCheck then
        match ← ask (.working provider) with
        | .dropped f => pure (.error f)
        | .done r => pure r
      else
        match ← ask .profiles with
        | .error f => pure (.error f)
        | .ok ps =>
          match ps.find? fun p => p.provider = provider && p.enabled && !p.deleting && p.authStatus =
            ("authenticated" : Text) with
          | none => pure (.error ⟨"verification_blocked",
              "Enable and authenticate a profile before changing runtimes; the active pin is retained"⟩)
          | some p =>
            let lock ← ask (.lock p.id)
            match ← ask (.acquire p.id lock) with
            | .dropped f => pure (.error f)
            | .done () =>
              let result ← verifyLocked provider p.id
              ask (.release p.id lock)
              pure result

/-- The task that `runtime_operation` spawns. -/
def runtimeTask (op : Nat) (provider : Text) (kind : Kind) : Run Result :=
  if provider ∉ providers then do
    conclude op
    pure (.error .unsupported)
  else do
    match ← ask (.writeGate provider) with
    | .dropped f =>
      conclude op
      pure (.error f)
    | .done () =>
      let result ← runtimeExclusive provider kind
      ask (.leaveExclusive provider)
      conclude op
      pure result

def task (op : Nat) : Run Result := do
  let o ← ask (.take op)
  match o.profileId with
  | some id => profileTask op id o.provider o.kind
  | none => runtimeTask op o.provider o.kind

/-- All that runs: requests as they come, and the tasks. -/
def program (requests : Nat → Request) : Proc → Run Result
  | .request n => (requests n).handle
  | .task op => task op

/-- How they share it, where questions are asked under a condition; operations grow old by themselves. -/
def world (condition : Shared → Ask → Prop) : Prog.Pool.World Proc Ask Ask.Answer Shared where
  env i := ⟨fun s q r t => condition s q ∧ next i s q r t⟩
  idle s t := ∃ young, t = { s with young := young }

end HomeStack.Accounts

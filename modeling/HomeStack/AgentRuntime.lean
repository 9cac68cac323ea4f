import HomeStack.Error
import HomeStack.Lib.Chars
import HomeStack.Lib.Codec
import HomeStack.Lib.Json
import HomeStack.Lib.Prog
import HomeStack.Lib.Words

/-! Shared, pinned vendor installations of one provider
(`hs-agent-accounts/src/runtime.rs`, `app.rs`, `db.rs`). A candidate is downloaded
to a staging directory, verified, probed with a real account, renamed into
`runtimes/<provider>/<version>` and published by one database transaction; older
installations are retired afterwards.

Every file, database, network and process call is a question. An `await` may be
answered by a cancellation or a timeout. The gate of the provider and the table of
jobs make the operations of one provider exclusive, so a run is a sequence. -/

namespace HomeStack.AgentRuntime

open Prog hiding pure bind

/-! ## Data -/

def failure (message : Text) : Failure := ⟨"runtime_verification_failure", message⟩

def storageFailure (message : Text) : Failure := ⟨"storage_failure", message⟩

/-- The pin of the provider. -/
structure Runtime where
  version : Text
  previousVersion : Option Text
  latestVersion : Option Text
  checkedAt : Option Int
  lastResult : Option Text
  lastError : Option Failure
  verifiedAt : Option Int
  deriving DecidableEq

structure Account where
  providerId : Option Text
  email : Option Text
  plan : Option Text
  deriving DecidableEq

/-- What a probe observed of the account. -/
structure Snapshot where
  observedAt : Int
  account : Account
  deriving DecidableEq

structure Profile where
  id : Text
  provider : Text
  enabled : Bool
  deleting : Bool
  authStatus : Text
  account : Option Account
  lastSuccess : Option Int
  lastAttempt : Option Int
  error : Option Failure
  failures : Nat
  totalFailures : Nat
  snapshot : Option Snapshot
  updatedAt : Int
  deriving DecidableEq

structure Operation where
  id : Text
  kind : Text
  status : Text
  message : Text
  error : Option Failure
  finishedAt : Option Int
  deriving DecidableEq

/-! ## Calls -/

/-- Where an executable is. -/
inductive Place
  | staged (id : Text)
  | installed (version : Text)
  deriving DecidableEq

/-- Directories the operations create. -/
inductive Folder
  /-- `runtimes/<provider>` -/
  | parent
  | install (version : Text)
  /-- `state/runtime-<id>` -/
  | stage (id : Text)
  /-- below `state/runtime-check` -/
  | check (sub : Text)
  deriving DecidableEq

inductive Call
  | await
  | now
  | newUuid
  | cancelled
  | enqueue
  | runtime
  | saveRuntime (runtime : Runtime)
  | activateRuntime (runtime : Runtime) (profile : Profile) (snapshot : Snapshot)
  | profiles
  | profile (id : Text)
  | saveProfile (profile : Profile) (snapshot : Option Snapshot)
  | saveOperation (operation : Operation)
  | unfinished
  | metadata (selected : Option Text)
  | directory (folder : Folder)
  | exists (version : Text)
  | download (url : Text) (id file : Text)
  | extract (id archive member : Text)
  | renameIn (id old new : Text)
  | removeIn (id file : Text)
  | isRegular (place : Place)
  | setMode (place : Place)
  | runVersion (place : Place)
  | probe (profile : Profile) (place : Option Place)
  | renameStage (id version : Text)
  | installs
  | removeInstall (version : Text)
  | stageExists (id : Text)
  | removeStage (id : Text)
  | stages
  | copyBundled (version : Text)
  deriving DecidableEq

/-- An exit status and its text. -/
structure Exit where
  success : Bool
  text : Text

/-- `std::io::Result<()>`, of which only success is looked at. -/
abbrev Done := Except Unit Unit

def Call.Answer : Call → Type
  | .await => Except Failure Unit
  | .now => Int
  | .newUuid => Text
  | .cancelled => Bool
  | .enqueue => Except Failure Unit
  | .runtime => Except Failure (Option Runtime)
  | .saveRuntime _ => Except Failure Unit
  | .activateRuntime _ _ _ => Except Failure Unit
  | .profiles => Except Failure (List Profile)
  | .profile _ => Except Failure Profile
  | .saveProfile _ _ => Except Failure Unit
  | .saveOperation _ => Except Failure Unit
  | .unfinished => Except Failure (List Operation)
  | .metadata _ => Except Failure Json
  | .directory _ => Except Failure Unit
  | .exists _ => Bool
  | .download _ _ _ => Except Failure Unit
  -- whether `tar` ended well
  | .extract _ _ _ => Except Failure Bool
  | .renameIn _ _ _ => Done
  | .removeIn _ _ => Done
  | .isRegular _ => Bool
  | .setMode _ => Done
  -- how it ended, and its output
  | .runVersion _ => Except Failure (Exit × Bytes)
  | .probe _ _ => Except Failure Snapshot
  | .renameStage _ _ => Done
  -- names and whether each is a directory, as far as they can be read
  | .installs => List (Text × Bool)
  | .removeInstall _ => Done
  | .stageExists _ => Bool
  | .removeStage _ => Done
  -- the ids of the directories named `runtime-<uuid>`
  | .stages => Except Failure (List Text)
  | .copyBundled _ => Done

abbrev Calls := Prog Call Call.Answer

abbrev Io := ExceptT Failure Calls

def ask (q : Call) : Calls q.Answer := call q

/-- `map_err` of a file call. -/
def done (x : Calls Done) (e : Failure) : Io Unit := do
  match ← liftM x with
  | .ok _ => pure ()
  | .error _ => throw e

/-! ## Versions -/

/-- `version` -/
def isVersion (value : Text) : Bool :=
  let parts := value.splitOn '.'
  value.length ≤ 32 && parts.length = 3 &&
    parts.all fun n => n ≠ [] && Text.allDigits n && (Text.parseNat (2 ^ 64) n).isSome

def versionNumbers (value : Text) : Except Failure (List Nat) :=
  (value.splitOn '.').mapM fun part =>
    match Text.parseNat (2 ^ 64) part with
    | some n => .ok n
    | none => .error (failure "Invalid recorded runtime version")

/-- `strip_prefix` of a text in a field. -/
def strippedStr (value : Json) (key start : Text) : Option Text :=
  ((value.get key).bind Json.asStr).bind start.isPrefixOf?

def releaseVersion (provider : Text) (value : Json) : Except Failure Text :=
  let v :=
    if provider = "codex" then strippedStr value "tag_name" "rust-v"
    else if provider = "antigravity" then (value.get "tag_name").bind Json.asStr
    else (value.get "version").bind Json.asStr
  match v with
  | none => .error (failure "Release has no stable version")
  | some v =>
    if isVersion v = false ∨ value.get "prerelease" = some (.bool true) ∨
      value.get "draft" = some (.bool true) then
      .error (failure "Only stable runtime releases are supported")
    else .ok v

/-! ## Candidates -/

/-- A download with the digest of the release. -/
def download (url stage file expected : Text) : Io Unit := do
  if expected.length ≠ 64 ∨ expected.all Text.isHexDigit = false then
    throw (failure "Official release has no valid SHA-256 digest")
  ExceptT.mk (ask (.download url stage file))

/-- Some word of the output is the version. -/
def reports (output : Bytes) (selected : Text) : Bool :=
  selected ∈ Text.words Text.isWhitespace (Bytes.fromUtf8Lossy output)

def checkFolders : List String :=
  ["", "home", "home/.config", "home/.cache", "home/.local/share", "work", "tmp", "codex", "claude"]

section Provider

-- the provider; its executable has the same name
variable (provider : Text)

def verifyVersion (place : Place) (selected : Text) : Io Unit := do
  checkFolders.forM fun sub => ExceptT.mk (ask (.directory (.check sub)))
  let (status, output) ← ExceptT.mk (ask (.runVersion place))
  if status.success = false ∨ reports output selected = false then
    let reported := List.intercalate " ".toList (Text.words Text.isWhitespace (Bytes.fromUtf8Lossy output))
    throw (failure (provider ++ " runtime expected version " ++ selected ++
      ", but --version returned " ++ status.text ++
      "; output: " ++ if reported = [] then ("<empty>" : Text) else reported))

/-- The archive of a release and what is in it. -/
def assetName : Text :=
  if provider = "codex" then "codex-x86_64-unknown-linux-musl.tar.gz" else "agy_cli_linux_x64_musl.tar.gz"

def extracted : Text := if provider = "codex" then "codex-x86_64-unknown-linux-musl" else "antigravity"

def archiveUrl (selected : Text) : Text :=
  (if provider = "codex" then "https://github.com/openai/codex/releases/download/rust-v"
    else "https://github.com/google-antigravity/antigravity-cli/releases/download/") ++
    selected ++ "/" ++ assetName provider

def claudeUrl (selected : Text) : Text :=
  "https://downloads.claude.ai/claude-code-releases/" ++ selected ++ "/linux-x64-musl/claude"

/-- The files of a release in the staging directory. -/
def fetchRelease (selected stage : Text) (data : Json) : Io Unit := do
  if provider = "codex" ∨ provider = "antigravity" then
    let asset := ((data.get "assets").bind Json.asArray).bind fun assets =>
      assets.find? fun v => v.get "name" = some (.str (assetName provider))
    match asset with
    | none => throw (failure "Release has no official musl archive")
    | some asset =>
      match strippedStr asset "digest" "sha256:" with
      | none => throw (failure "Runtime archive digest is unavailable")
      | some digest =>
        download (archiveUrl provider selected) stage "runtime.tar.gz" digest
        let success ← ExceptT.mk (ask (.extract stage "runtime.tar.gz" (extracted provider)))
        if success = false then throw (failure "Runtime archive extraction failed")
        done (ask (.renameIn stage (extracted provider) provider)) (failure "Cannot stage runtime binary")
        done (ask (.removeIn stage "runtime.tar.gz")) (failure "Cannot remove downloaded archive")
  else
    let checksum := (data.get "platforms").bind fun v => (v.get "linux-x64-musl").bind fun v =>
      v.get "checksum"
    match checksum.bind Json.asStr with
    | none => throw (failure "Claude musl digest is unavailable")
    | some digest => download (claudeUrl selected) stage provider digest

/-- Download a release to the staging directory and verify it. -/
def candidate (selected stage : Text) : Io Place := do
  let data ← ExceptT.mk (ask (.metadata (some selected)))
  let found ← ExceptT.mk (pure (releaseVersion provider data))
  if found ≠ selected then throw (failure "Downloaded release does not match the selected version")
  fetchRelease provider selected stage data
  let regular : Bool ← liftM (ask (.isRegular (.staged stage)))
  if regular = false then throw (failure "Downloaded runtime is not a regular executable")
  done (ask (.setMode (.staged stage))) (failure "Cannot set runtime permissions")
  verifyVersion provider (.staged stage) selected
  pure (.staged stage)

/-! ## Runtime operations -/

/-- What the operation returns. -/
inductive Outcome
  | checked (latest : Option Text) (at_ : Option Int)
  | changed (version : Text) (verifiedAt : Option Int) (previous : Option Text)
  deriving DecidableEq

def usable (profile : Profile) : Bool :=
  profile.enabled && !profile.deleting && profile.authStatus = "authenticated"

/-- The profile that verifies a runtime, read again under its lock. -/
def verificationProfile : Io Profile := do
  let profiles ← ExceptT.mk (ask .profiles)
  match profiles.find? fun p => p.provider = provider && usable p with
  | none =>
    throw ⟨"verification_blocked",
      "Enable and authenticate a profile before changing runtimes; the active pin is retained"⟩
  | some p =>
    ExceptT.mk (ask .await)
    let p ← ExceptT.mk (ask (.profile p.id))
    if usable p = false then throw ⟨"verification_blocked", "The verification profile is no longer available"⟩
    pure p

/-- The retained installation, verified where it is. -/
def retainedBinary (selected : Text) : Io Place := do
  ExceptT.mk (ask (.directory .parent))
  ExceptT.mk (ask (.directory (.install selected)))
  let regular : Bool ← liftM (ask (.isRegular (.installed selected)))
  if regular = false then throw (failure "The retained runtime executable is missing or unsafe")
  verifyVersion provider (.installed selected) selected
  pure (.installed selected)

def alreadyExists : Failure := failure "Candidate version directory already exists; active pin retained"

/-- A new installation, verified in the staging directory. -/
def stagedBinary (selected stage : Text) : Io Place := do
  let there : Bool ← liftM (ask (.exists selected))
  if there = true then throw alreadyExists
  ExceptT.mk (ask (.directory (.stage stage)))
  candidate provider selected stage

def selectedBinary (selected stage : Text) (retained : Bool) : Io Place :=
  if retained = true then retainedBinary provider selected else stagedBinary provider selected stage

/-- The newest of the versions known. -/
def newestVersion (runtime : Runtime) (selected : Text) : Except Failure Text :=
  [runtime.version, selected].foldlM
    (fun latest known => do
      let new ← versionNumbers known
      let old ← versionNumbers latest
      pure (if new > old then known else latest))
    (runtime.latestVersion.getD runtime.version)

/-- Remove the installations that are neither pinned nor retained. -/
def retire (runtime : Runtime) : Io Unit := do
  let entries ← liftM (ask .installs)
  entries.forM fun (name, isDir) => do
    if isVersion name = true ∧ name ≠ runtime.version ∧ runtime.previousVersion ≠ some name ∧
      isDir = true then
      let _ ← liftM (ask (.removeInstall name))

/-- The pin after a change. -/
def Runtime.changed (runtime : Runtime) (selected latest : Text) (rollback : Bool) (now : Int) : Runtime :=
  { runtime with
    latestVersion := some latest
    previousVersion := some runtime.version
    version := selected
    verifiedAt := some now
    lastError := none
    lastResult := some (if rollback then "Rollback verified with a real account-limits probe"
      else "Upgrade verified with a real account-limits probe") }

/-- Whether the selected version may replace the pin, and whether it is the
retained one. -/
def admissible (runtime : Runtime) (selected : Text) (rollback : Bool) : Except Failure Bool := do
  if selected = runtime.version then throw ⟨"invalid_input", "This runtime version is already pinned"⟩
  let retained : Bool := runtime.previousVersion = some selected
  if rollback = true ∧ retained = false then
    throw ⟨"invalid_input", "The retained version changed; refresh before rolling back"⟩
  let wanted ← versionNumbers selected
  let pinned ← versionNumbers runtime.version
  let older : Bool := wanted < pinned
  if rollback = true ∧ older = false then throw ⟨"invalid_input",
    "Rollback requires the retained older version"⟩
  if rollback = false ∧ older = true then
    throw ⟨"confirmation_required", "Use the confirmed rollback action to select an older runtime"⟩
  pure retained

/-- Put a verified and probed installation in its place and publish it. -/
def publish (runtime : Runtime) (selected stage : Text) (rollback retained : Bool) (profile : Profile)
    (snapshot : Snapshot) : Io Outcome := do
  let latest ← ExceptT.mk (pure (newestVersion runtime selected))
  if retained = false then
    ExceptT.mk (ask (.directory .parent))
    done (ask (.renameStage stage selected)) (failure "Cannot activate verified runtime installation")
  let now ← liftM (ask .now)
  let runtime := runtime.changed selected latest rollback now
  ExceptT.mk (ask (.activateRuntime runtime profile snapshot))
  retire runtime
  pure (.changed runtime.version runtime.verifiedAt runtime.previousVersion)

/-- Change the pin to the selected version. -/
def changeRuntime (runtime : Runtime) (selected stage : Text) (rollback : Bool) : Io Outcome := do
  let retained ← ExceptT.mk (pure (admissible runtime selected rollback))
  let profile ← verificationProfile provider
  let binary ← selectedBinary provider selected stage retained
  let snapshot ← ExceptT.mk (ask (.probe profile (some binary)))
  let cancelled : Bool ← liftM (ask .cancelled)
  if cancelled = true then throw ⟨"cancelled", "Runtime change cancelled before activation"⟩
  publish runtime selected stage rollback retained profile snapshot

/-- Look up the latest release. -/
def checkRuntime (runtime : Runtime) : Io Outcome := do
  let data ← ExceptT.mk (ask (.metadata none))
  let latest ← ExceptT.mk (pure (releaseVersion provider data))
  let now ← liftM (ask .now)
  let runtime : Runtime := { runtime with latestVersion := some latest, checkedAt := some now }
  ExceptT.mk (ask (.saveRuntime runtime))
  pure (.checked runtime.latestVersion runtime.checkedAt)

inductive RuntimeAction
  | check
  | upgrade (version : Text)
  | rollback (version : Text)
  deriving DecidableEq

def RuntimeAction.kind : RuntimeAction → Text
  | .check => "update_check"
  | .upgrade _ => "upgrade"
  | .rollback _ => "rollback"

def RuntimeAction.selected : RuntimeAction → Option Text
  | .check => none
  | .upgrade version => some version
  | .rollback version => some version

def RuntimeAction.isRollback : RuntimeAction → Bool
  | .rollback _ => true
  | _ => false

/-- What the spawned task does under the gate. -/
def exclusivePart (action : RuntimeAction) (stage : Text) : Io Outcome := do
  -- the gate, then a slot
  ExceptT.mk (ask .await)
  ExceptT.mk (ask .await)
  match ← ExceptT.mk (ask .runtime) with
  | none => throw Failure.unsupported
  | some runtime =>
    match action.selected with
    | none => checkRuntime provider runtime
    | some selected => changeRuntime provider runtime selected stage action.isRollback

/-- The failure is noted beside the pin. -/
def noteFailure (action : RuntimeAction) (e : Failure) : Io Unit := do
  if action.selected.isSome then
    match ← attempt (ExceptT.mk (ask .runtime)) with
    | .ok (some runtime) =>
      let runtime : Runtime :=
        { runtime with
          lastError := some e
          lastResult := some ((if action.isRollback then "Rollback" else "Upgrade") ++
            " not activated; active pin retained. " ++ e.message) }
      let _ ← attempt (ExceptT.mk (ask (.saveRuntime runtime)))
    | _ => pure ()

def noteResult (action : RuntimeAction) (result : Except Failure Outcome) : Io Unit :=
  match result with
  | .ok _ => pure ()
  | .error e => noteFailure action e

/-- Removal of the staging directory; a failure is ignored. -/
def removeStaging (stage : Text) : Io Unit := do
  let there : Bool ← liftM (ask (.stageExists stage))
  if there = true then
    let _ ← liftM (ask (.removeStage stage))

def finished (action : RuntimeAction) (operation : Operation) (result : Except Failure Outcome) (now : Int) :
    Operation :=
  match result with
  | .ok _ =>
    { operation with
      finishedAt := some now
      status := "succeeded"
      message :=
        if action.isRollback then "Rollback activated after account-limits verification"
        else if action.selected.isSome then "Upgrade activated after account-limits verification"
        else "Available version checked; nothing installed" }
  | .error e =>
    { operation with
      finishedAt := some now
      status := "failed"
      message := if action.selected.isSome then "Active runtime pin retained. " ++ e.message else e.message
      error := some e }

/-- The task of a runtime operation: the exclusive part, then what follows in any
case. -/
def runtimeTask (action : RuntimeAction) (operation : Operation) : Io (Except Failure Outcome) := do
  let stage ← liftM (ask .newUuid)
  let result ← attempt (exclusivePart provider action stage)
  removeStaging stage
  noteResult action result
  let now ← liftM (ask .now)
  let _ ← attempt (ExceptT.mk (ask (.saveOperation (finished action operation result now))))
  pure result

/-- A runtime operation from its request to the end of its task; `updates`: the
provider has the capability. -/
def runtimeOperation (updates : Bool) (action : RuntimeAction) : Io (Except Failure Outcome) := do
  if updates = false then throw Failure.unsupported
  if (action.selected.any fun v => !isVersion v) = true then
    throw ⟨"invalid_input", "Select an explicit numeric runtime version"⟩
  -- no other operation of the provider, and room in the queue
  ExceptT.mk (ask .enqueue)
  let id ← liftM (ask .newUuid)
  let operation : Operation := ⟨id, action.kind, "queued", "Waiting to manage provider runtime", none, none⟩
  ExceptT.mk (ask (.saveOperation operation))
  runtimeTask provider action operation

/-! ## Probes -/

def binary : Io Place := do
  match ← ExceptT.mk (ask .runtime) with
  | none => throw ⟨"runtime_failure", "No runtime pin is configured"⟩
  | some runtime =>
    let regular : Bool ← liftM (ask (.isRegular (.installed runtime.version)))
    if regular = false then throw ⟨"runtime_failure", "Pinned runtime is missing"⟩
    pure (.installed runtime.version)

/-- The pinned executable, if there is a pin. -/
def pinnedBinary : Io (Option Place) := do
  match ← ExceptT.mk (ask .runtime) with
  | none => pure none
  | some _ =>
    let place ← binary
    pure (some place)

/-- A probe, tried again once after a network failure. -/
def probeTwice (profile : Profile) (place : Option Place) : Io Snapshot := do
  match ← attempt (ExceptT.mk (ask (.probe profile place))) with
  | .ok snapshot => pure snapshot
  | .error e =>
    if e.code = "network_failure" then
      ExceptT.mk (ask .await)
      ExceptT.mk (ask (.probe profile place))
    else throw e

/-- What a successful probe writes. -/
def recordSuccess (p : Profile) (snapshot : Snapshot) : Io Snapshot := do
  let now ← liftM (ask .now)
  let p : Profile :=
    { p with
      authStatus := "authenticated"
      account := some snapshot.account
      lastSuccess := some snapshot.observedAt
      error := none
      failures := 0
      snapshot := some snapshot
      updatedAt := now }
  ExceptT.mk (ask (.saveProfile p (some snapshot)))
  match ← ExceptT.mk (ask .runtime) with
  | none => pure snapshot
  | some runtime =>
    let now ← liftM (ask .now)
    ExceptT.mk (ask (.saveRuntime { runtime with verifiedAt := some now }))
    pure snapshot

/-- What a failed probe writes. -/
def recordFailure (p : Profile) (e : Failure) : Io Snapshot := do
  let now ← liftM (ask .now)
  let p : Profile :=
    { p with
      failures := p.failures + 1
      totalFailures := p.totalFailures + 1
      authStatus :=
        if e.code = "reauthentication_required" ∨ e.code = "authentication_expired" then e.code
        else p.authStatus
      error := some e
      updatedAt := now }
  ExceptT.mk (ask (.saveProfile p none))
  throw e

/-- `Context::begin` of a probe. -/
def probeOperation (id : Text) : Io Snapshot := do
  -- the gate for reading, the profile's lock, a slot
  ExceptT.mk (ask .await)
  ExceptT.mk (ask .await)
  ExceptT.mk (ask .await)
  let p ← ExceptT.mk (ask (.profile id))
  if p.deleting = true then throw ⟨"not_found", "Profile is being deleted"⟩
  if p.enabled = false then throw ⟨"disabled", "Profile is disabled"⟩
  let now ← liftM (ask .now)
  let p : Profile := { p with lastAttempt := some now }
  ExceptT.mk (ask (.saveProfile p none))
  let place ← pinnedBinary
  match ← attempt (probeTwice p place) with
  | .ok snapshot => recordSuccess p snapshot
  | .error e => recordFailure p e

/-! ## The start of the service -/

/-- The first pin: the runtime of the image. -/
def seed (bundled : Option Text) : Io Unit := do
  match ← ExceptT.mk (ask .runtime) with
  | some _ => pure ()
  | none =>
    match bundled with
    | none => pure ()
    | some version =>
      ExceptT.mk (ask (.directory (.install version)))
      done (ask (.copyBundled version)) ⟨"runtime_failure",
        "Bundled runtime is missing or cannot be installed"⟩
      ExceptT.mk (ask (.saveRuntime ⟨version, none, none, none, none, none, none⟩))

def interruptedMessage : Text :=
  "Service restarted; unverified candidates were not activated; inspect the active pin"

def interruptedError : Failure := ⟨"interrupted", "Operation interrupted by service restart"⟩

/-- One operation that was under way. -/
def interruptOperation (operation : Operation) : Io Unit := do
  let now ← liftM (ask .now)
  let operation : Operation :=
    { operation with
      status := "interrupted"
      finishedAt := some now
      message := interruptedMessage
      error := some interruptedError }
  ExceptT.mk (ask (.saveOperation operation))
  if operation.kind = "upgrade" ∨ operation.kind = "rollback" then
    match ← ExceptT.mk (ask .runtime) with
    | none => pure ()
    | some runtime =>
      ExceptT.mk (ask (.saveRuntime
        { runtime with lastError := some interruptedError, lastResult := some interruptedMessage }))

def interruptOperations : Io Unit := do
  let rows ← ExceptT.mk (ask .unfinished)
  rows.forM interruptOperation

/-- A provider with a bundled version has its executable. -/
def checkSeeded (bundled : Option Text) : Io Unit := do
  if bundled.isSome then
    let _ ← binary

/-- `Context::open`, for the provider. -/
def openContext (bundled : Option Text) : Io Unit := do
  let stages ← ExceptT.mk (ask .stages)
  stages.forM fun id =>
    done (ask (.removeStage id)) (storageFailure "Cannot remove interrupted runtime staging")
  seed bundled
  checkSeeded bundled
  interruptOperations

end Provider

end HomeStack.AgentRuntime

import HomeStack.Lib.Prog
import HomeStack.SetupBlocking

/-! A setup run (`execute_plan` and `run_plan` of `setup/engine.rs`): every entry's
preflight, a snapshot of what will be overwritten, then unit by unit the entries applied,
validated and recorded, with the documents a failed unit wrote put back.

The run asks the workspace its questions. A handler's own preflight and its own work are
one question each; a structured leaf is read, merged and written here. What the observer
is told beyond the progress of an entry is left out. -/

namespace HomeStack.Setup

/-- What a run is given: the settings, what `source_item` finds on the desktop,
`merge_document` and `sha256_hex`. -/
structure Host where
  settings : Settings
  setup : SetupConfig
  sourceItem : Entry → Except AppError Unit
  mergeDocument : Text → Option Text → List (List Text × Json) → Except AppError (Text × List LeafState)
  sha256Hex : Bytes → Text

/-! ## The workspace -/

/-- The answer to `structured-read`. -/
structure Remote where
  content : Option Bytes
  sha256 : Option Text
  deriving DecidableEq

/-- The answer to `snapshot`. -/
structure Snapshot where
  created : Bool
  id : Option Text
  path : Option Text
  deriving DecidableEq

/-- What the work of an entry ends with. -/
inductive Done
  | succeeded
  | alreadyReady
  deriving DecidableEq

def Done.status : Done → Status
  | .succeeded => .succeeded
  | .alreadyReady => .alreadyReady

inductive Progress
  | checking
  | preflightReady
  | blocked
  | running
  | recorded (status : Status)
  deriving DecidableEq

inductive Query
  /-- Answered at once by a connection that is already open. -/
  | connect
  | requireTool (tool : Text)
  | identity (target : Target)
  | cancelled
  | progress (id : Text) (status : Progress)
  | preflight (target : Target) (entry : Entry)
  | structuredRead (relative : Text)
  | snapshot (paths items : List Text) (target : Target)
  | apply (unattended : Bool) (entry : Entry) (state : Json)
  | structuredWrite (relative content : Text) (expected : Option Text)
  | validate (application : Entry)
  | structuredRestore (relative : Text) (snapshot : Option Text) (expected : Text) (existed : Bool)
  | stateRecord (target : Target) (entry : Entry) (state : Json) (snapshot : Option Text)

abbrev Answer : Query → Type
  | .connect | .requireTool _ | .identity _ | .structuredWrite .. | .validate _ | .structuredRestore .. |
    .stateRecord .. => Except AppError Unit
  | .cancelled => Bool
  | .progress .. => Unit
  | .preflight .. => Except AppError Json
  | .structuredRead _ => Except AppError Remote
  | .snapshot .. => Except AppError Snapshot
  | .apply .. => Except AppError (Done × Text)

abbrev Workspace := Prog Query Answer

def ask (q : Query) : Workspace (Answer q) := Prog.call q

def isCancelled : Workspace Bool := ask .cancelled

def progress (id : Text) (status : Progress) : Workspace Unit := ask (.progress id status)

def structuredRead (relative : Text) : ExceptT AppError Workspace Remote :=
  ExceptT.mk (ask (.structuredRead relative))

/-! ## A configuration document -/

/-- The value of `inspect_config_file`. -/
structure Document where
  candidate : Text
  sha256 : Option Text
  changed : Bool
  leaves : List (Text × LeafState)
  deriving DecidableEq

/-- The path, the key and the value of a structured entry. -/
def Entry.structured (entry : Entry) : Option (ConfigFile × List Text × Json) :=
  match entry.params with
  | .structured _ config key value => some (config, key, value)
  | _ => none

def relativeOf (path : Text) : Text := path.drop 2

/-- The text of a document, and the error of one that is not UTF-8. -/
def decoded (path : Text) : Option Bytes → Except AppError (Option Text)
  | none => .ok none
  | some bytes =>
    match Bytes.fromUtf8 bytes with
    | some text => .ok (some text)
    | none => .error ⟨"Configuration cannot be decoded: " ++ path⟩

/-- What follows from the document read. -/
def mergedDocument (host : Host) (config : ConfigFile) (entries : List Entry) (remote : Remote) :
    Except AppError Document := do
  let original ← decoded config.path remote.content
  let leaves := (entries.filterMap Entry.structured).map Prod.snd
  let (candidate, states) ← host.mergeDocument config.format original leaves
  .ok ⟨candidate, remote.sha256, states.any (· ≠ .matching), (entries.map Entry.id).zip states⟩

/-- `inspect_config_file`, for a merge. -/
def inspectConfigFile (host : Host) (entries : List Entry) : ExceptT AppError (Workspace) Document :=
  match entries.head?.bind Entry.structured with
  | none => throw ⟨"Unknown setup action handler"⟩
  | some (config, _, _) => do
    let remote ← structuredRead (relativeOf config.path)
    ExceptT.mk (pure (mergedDocument host config entries remote))

/-- The planned leaves of a document. -/
def configGroups (plan : Plan) (path : Text) : List Entry :=
  plan.entries.filter fun entry => entry.structured.any fun found => found.1.path = path

/-! ## Preflight -/

/-- What a run keeps up to date while it goes. -/
structure Run where
  plan : Plan
  results : List Row
  current : Option Nat
  preflightComplete : Bool
  snapshot : Snapshot

/-- A unit whose work failed: its entries, and the documents that could not be put back. -/
structure UnitFailure where
  owner : Text
  entries : List Entry
  restoreErrors : List Text

/-- The error that ended a run, with what the run had become and the unit it ended in. -/
structure Stopped where
  error : AppError
  run : Run
  unit : Option UnitFailure

/-- A question whose failure ends the run. -/
def orStop {α : Type} (run : Run) (p : ExceptT AppError (Workspace) α) : ExceptT Stopped (Workspace) α :=
  ExceptT.mk (p.run >>= fun r => pure (r.mapError fun error => ⟨error, run, none⟩))

/-- `results[index]` -/
def setAt (index : Nat) (status : Status) (detail : Text) (rows : List Row) : List Row :=
  rows.modify index fun row => { row with status, detail }

def Run.set (run : Run) (index : Nat) (status : Status) (detail : Text) : Run :=
  { run with results := setAt index status detail run.results }

def position (id : Text) (rows : List Row) : Nat := (rows.findIdx? fun row => row.id = id).getD 0

def cancelledError : AppError := ⟨"Cancelled; remaining actions were not run"⟩

/-- `states` and `documents`, by entry and by path. -/
structure Preflights where
  run : Run
  states : List (Text × Json)
  documents : List (Text × Except AppError Document)

def LeafState.text : LeafState → Text
  | .matching => "matching"
  | .different => "different"
  | .missing => "missing"

/-- A document as the state of its entries. -/
def Document.value (document : Document) : Json :=
  .obj [("candidate", .str document.candidate), ("sha256", (document.sha256.map Json.str).getD .null),
    ("changed", .bool document.changed),
      ("leaves", .obj (document.leaves.map fun leaf => (leaf.1, .str leaf.2.text))),
    ("current", .obj [])]

/-- The state of an entry, with the documents read so far: each is read and merged once. -/
def preflightState (host : Host) (plan : Plan) (documents : List (Text × Except AppError Document))
    (entry : Entry) :
    Workspace (Except AppError Json × List (Text × Except AppError Document)) :=
  match entry.structured with
  | some (config, _, _) =>
    match documents.lookup config.path with
    | some document => pure (document.map Document.value, documents)
    | none => do
      let document ← (inspectConfigFile host (configGroups plan config.path)).run
      pure (document.map Document.value, documents ++ [(config.path, document)])
  | none => do
    let state ← ask (.preflight plan.target entry)
    pure (state, documents)

def preflightOne (host : Host) (plan : Plan) (p : Preflights) (item : Entry × Nat) :
    ExceptT Stopped (Workspace) Preflights := do
  let (entry, index) := item
  if ← isCancelled then
    throw ⟨cancelledError, { p.run with current := some index }, none⟩
  progress entry.id .checking
  let (state, documents) ← preflightState host plan p.documents entry
  match state with
  | .ok state =>
    progress entry.id .preflightReady
    pure ⟨p.run, p.states ++ [(entry.id, state)], documents⟩
  | .error error =>
    progress entry.id .blocked
    pure ⟨p.run.set index .blocked error.message, p.states, documents⟩

def preflights (host : Host) (run : Run) : ExceptT Stopped (Workspace) Preflights :=
  run.plan.entries.zipIdx.foldlM (preflightOne host run.plan) ⟨run, [], []⟩

/-! ## The snapshot -/

def truthy : Json → Bool
  | .null => false
  | .bool b => b
  | .str text => text ≠ []
  | .int n => n ≠ 0
  | .dec n _ _ => n ≠ 0
  | .arr items => !items.isEmpty
  | .obj entries => !entries.isEmpty

def strings (value : Json) : List Text := ((value.asArray).getD []).filterMap Json.asStr

/-- The paths the operation snapshot keeps before an entry writes. -/
def backupPathsForEntry (settings : Settings) (entry : Entry) (state : Json) : List Text :=
  match entry.params with
  | .structured .. => if truthy (Json.field state "changed") then writePaths settings entry else []
  | .file .. => if ((state.get "changed").map truthy).getD true then writePaths settings entry else []
  | .environment _ | .exports _ => strings (Json.field state "changed")
  | .application p => p.backupPaths.map fun path => trimSlashes (relativeOf path)
  | .herdr => strings (Json.field state "snapshot_paths")
  | .unavailable => []
  | .repository _ =>
    let repository := Json.field state "repository"
    if Json.field repository "checkout_state" = .str "ready" ∧
        (strings (Json.field state "actions")).any (fun action => action = "set-origin" ∨
          action = "set-ssh-command") then
      let home : Text := "/home/" ++ settings.user ++ "/"
      let checkout := ((Json.field repository "checkout").asStr).getD []
      [trimSlashes ((home.isPrefixOf? checkout).getD checkout) ++ "/.git/config"]
    else []

/-- `states[&entry.id]`; every entry whose preflight passed has one. -/
def stateOf (states : List (Text × Json)) (entry : Entry) : Json := (states.lookup entry.id).getD .null

/-- The entries that are not blocked. -/
def activeEntries (run : Run) : List Entry :=
  run.plan.entries.filter fun entry => !run.results.any fun row => row.id = entry.id ∧ isBlocked row

def selectedApplications (active : List Entry) : List Text :=
  (active.filter fun entry => entry.application.isSome).map Entry.id

def backupPaths (settings : Settings) (states : List (Text × Json)) (active : List Entry) : List Text :=
  active.flatMap fun entry =>
    backupPathsForEntry settings entry (stateOf states entry) ++
      match entry.params with
      | .structured application .. => if application ∈ selectedApplications active then
          writePaths settings entry else []
      | _ => []

/-- The first of each. -/
def unique (paths : List Text) : List Text :=
  paths.foldl (fun l path => if path ∈ l then l else l ++ [path]) []

def takeSnapshot (host : Host) (p : Preflights) (active : List Entry) : ExceptT Stopped Workspace Run := do
  let paths := backupPaths host.settings p.states active
  if paths = [] then pure { p.run with preflightComplete := true }
  else
    let snapshot ← orStop p.run
        (ExceptT.mk (ask (.snapshot (unique paths) (active.map Entry.id) p.run.plan.target)))
    pure { p.run with snapshot, preflightComplete := true }

/-! ## A unit -/

/-- A unit at work: the documents it wrote with the digest written, and those it is done with. -/
structure UnitRun where
  run : Run
  applied : List (Text × Text)
  completed : List (Text × Document)

/-- What the work of a unit reads of the run before it. -/
structure Work where
  plan : Plan
  states : List (Text × Json)
  documents : List (Text × Except AppError Document)
  active : List Entry

abbrev UnitM := ExceptT (AppError × UnitRun) Workspace

/-- A question whose failure ends the work of the unit. -/
def orFail {α : Type} (u : UnitRun) (p : ExceptT AppError Workspace α) : UnitM α :=
  Prog.mapError (fun error => (error, u)) p

def Work.preflightDigest (work : Work) (path : Text) : Option (Option Text) :=
  match work.documents.lookup path with
  | some (.ok document) => some document.sha256
  | _ => none

def writeDocument (host : Host) (u : UnitRun) (path : Text) (document : Document) : UnitM UnitRun := do
  if document.changed then
    orFail u (ExceptT.mk (ask (.structuredWrite (relativeOf path) document.candidate document.sha256)))
    pure { u with applied := u.applied ++ [(path, host.sha256Hex document.candidate.utf8)] }
  else pure u

/-- Bring a document up to date, once for all its leaves. Installers may edit it: it is
merged against its final content. -/
def completeDocument (host : Host) (work : Work) (owner : Text) (u : UnitRun) (path : Text) :
    UnitM UnitRun := do
  if u.completed.any (·.1 = path) then pure u
  else
    let document ← orFail u (inspectConfigFile host (configGroups work.plan path))
    if owner ∉ selectedApplications work.active ∧ some document.sha256 ≠ work.preflightDigest path then
      throw (⟨"Configuration changed since preflight: " ++ path ++ "; rerun setup"⟩, u)
    let u ← writeDocument host u path document
    pure { u with completed := u.completed ++ [(path, document)] }

def leafOf (u : UnitRun) (path id : Text) : Option LeafState :=
  (u.completed.lookup path).bind fun document => document.leaves.lookup id

/-- The work of one entry, and what it ends with. -/
def applyOne (host : Host) (work : Work) (owner : Text) (u : UnitRun) (entry : Entry) :
    UnitM (UnitRun × Done × Text) :=
  match entry.structured with
  | some (config, _, _) => do
    let u ← completeDocument host work owner u config.path
    if leafOf u config.path entry.id = some .matching then
      pure (u, .alreadyReady, "Managed value already matches")
    else pure (u, .succeeded, "Managed value patched")
  | none => do
    let (done, detail) ← orFail u
        (ExceptT.mk (ask (.apply work.plan.unattended entry (stateOf work.states entry))))
    pure (u, done, detail)

def UnitRun.start (u : UnitRun) (index : Nat) : UnitRun :=
  { u with run := { u.run with current := some index } }

def applyEntry (host : Host) (work : Work) (owner : Text) (u : UnitRun) (entry : Entry) : UnitM UnitRun := do
  let index := position entry.id u.run.results
  let u := u.start index
  if ← isCancelled then throw (cancelledError, u)
  progress entry.id .running
  let (u, done, detail) ← applyOne host work owner u entry
  pure { u with run := u.run.set index done.status detail }

/-- Every configured application, the plan's own versions first. -/
def applications (host : Host) (plan : Plan) : List Entry :=
  plan.entries.filter (fun e => e.application.isSome) ++
    host.setup.items.filter fun e => e.application.isSome && !plan.entries.any fun p => p.id = e.id

def validateUnit (host : Host) (work : Work) (owner : Text) (entries : List Entry) (u : UnitRun) :
    UnitM UnitRun :=
  match (applications host work.plan).find? fun e => e.id = owner with
  | none => pure u
  | some application =>
    if (application.application.any fun a => a.validation.isSome) ∧
      (owner ∈ selectedApplications work.active ∨ u.applied ≠ []) then do
      let u := u.start (position ((entries.head?.map Entry.id).getD []) u.run.results)
      orFail u (ExceptT.mk (ask (.validate application)))
      pure u
    else pure u

def workUnit (host : Host) (work : Work) (owner : Text) (entries : List Entry) (run : Run) :
    UnitM UnitRun := do
  let u ← entries.foldlM (applyEntry host work owner) ⟨run, [], []⟩
  validateUnit host work owner entries u

/-- The document was there at its preflight. -/
def Work.existed (work : Work) (path : Text) : Bool :=
  match work.documents.lookup path with
  | some (.ok document) => document.sha256.isSome
  | _ => false

def restoreOne (work : Work) (snapshot : Option Text) (errors : List Text) (written : Text × Text) :
    Workspace (List Text) := do
  let (path, digest) := written
  match ← ask (.structuredRestore (relativeOf path) snapshot digest (work.existed path)) with
  | .ok () => pure errors
  | .error _ => pure (errors ++ [path])

def endedWell (row : Row) : Bool := row.status = .succeeded ∨ row.status = .alreadyReady

/-- The result of an entry whose unit failed after it. -/
def failRow (run : Run) (entry : Entry) : Run :=
  let index := position entry.id run.results
  if run.results[index]?.any endedWell then
    run.set index .failed "Final validation or execution failed; setup state was not recorded"
  else run

/-- Put back what a failed unit wrote, the last first. -/
def failUnit (work : Work) (owner : Text) (entries : List Entry) (error : AppError) (u : UnitRun) :
    Workspace Stopped := do
  let errors ← u.applied.reverse.foldlM (restoreOne work u.run.snapshot.id) []
  let run := entries.foldl failRow u.run
  let error := if errors = [] then error
    else ⟨"Configuration restoration failed; inspect the operation snapshot: " ++
      List.intercalate ", ".toList errors⟩
  pure ⟨error, run, some ⟨owner, entries, errors⟩⟩

def recordEntry (work : Work) (run : Run) (entry : Entry) : ExceptT Stopped Workspace Run := do
  let index := position entry.id run.results
  let run := { run with current := some index }
  orStop run (ExceptT.mk (ask (.stateRecord work.plan.target entry
    (stateOf work.states entry) run.snapshot.id)))
  progress entry.id (.recorded ((run.results[index]?.map Row.status).getD .notRun))
  pure run

def runUnit (host : Host) (work : Work) (run : Run) (unit : Text × List Entry) :
    ExceptT Stopped Workspace Run := do
  match ← (workUnit host work unit.1 unit.2 run).run with
  | .ok u => unit.2.foldlM (recordEntry work) u.run
  | .error (error, u) => throw (← failUnit work unit.1 unit.2 error u)

/-! ## The run -/

/-- The plan once more, a row for each of its entries, and the workspace reached. -/
def prepare (host : Host) (run : Run) : ExceptT Stopped Workspace Run := do
  let plan ← orStop run (ExceptT.mk
    (pure (buildPlan host.sourceItem host.settings run.plan.target run.plan.entries
    run.plan.catalogId run.plan.unattended false)))
  let results := plan.entries.map fun entry =>
    (run.results.find? fun row => row.id = entry.id).getD (resultRow entry)
  let run := { run with plan, results }
  orStop run (ExceptT.mk (ask .connect))
  orStop run (ExceptT.mk (ask (.requireTool "python3")))
  orStop run (ExceptT.mk (ask (.identity plan.target)))
  pure run

/-- Block what names a blocked entry. -/
def blockDependants (p : Preflights) : ExceptT Stopped Workspace Preflights := do
  let spread ← orStop p.run
      (ExceptT.mk (pure (spread (applicationUnits p.run.plan.entries) ⟨p.run.results, []⟩)))
  spread.newly.forM fun id => progress id .blocked
  pure { p with run := { p.run with results := spread.rows } }

def applyActive (host : Host) (p : Preflights) (active : List Entry) : ExceptT Stopped Workspace Run := do
  let run ← takeSnapshot host p active
  (applicationUnits active).foldlM (runUnit host ⟨p.run.plan, p.states, p.documents, active⟩) run

def runPlan (host : Host) (run : Run) : ExceptT Stopped Workspace Run := do
  let run ← prepare host run
  let p ← preflights host run
  let p ← blockDependants p
  let active := activeEntries p.run
  if active = [] then pure p.run else applyActive host p active

/-- What a run reports. -/
structure Report where
  ok : Bool
  plan : Plan
  results : List Row
  snapshot : Snapshot

/-- The results after an error. -/
def Stopped.results (s : Stopped) : List Row :=
  let status := if s.run.preflightComplete then Status.failed else Status.blocked
  match s.run.current with
  | some index => setAt index status s.error.message s.run.results
  | none => s.run.results.map fun row => { row with status := .blocked, detail := s.error.message }

def report (run : Run) (results : List Row) : Report :=
  ⟨results.all endedWell, run.plan, results, run.snapshot⟩

def Plan.started (plan : Plan) : Run := ⟨plan, plan.entries.map resultRow, none, false, ⟨false, none, none⟩⟩

def executePlan (host : Host) (plan : Plan) : Workspace Report := do
  match ← (runPlan host plan.started).run with
  | .ok run => pure (report run run.results)
  | .error stopped => pure (report stopped.run stopped.results)

end HomeStack.Setup

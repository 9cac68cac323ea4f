import HomeStack.Lib.Sha256
import HomeStack.Lifecycle

/-! Plans, jobs and the VMs they work on (`operations.rs`). An `apply` takes a
permit, is admitted under the lock, plans again, writes its leases and starts
its job; each stretch between two awaits is one step. Its admission is freed
when it is dropped, on every way out.

`made`, `created` and `executed` only record what happened. -/

namespace HomeStack.Operations

structure Planned where
  targets : List Nat
  summary : Json
  deriving DecidableEq

structure Plan where
  id : Text
  operation : Text
  digest : Text
  targets : List Nat
  summary : Json
  deriving DecidableEq

structure StoredPlan where
  plan : Plan
  parameters : Json
  configVersion : Option Text
  expires : Nat

inductive JobState
  | queued | running | succeeded | failed
  deriving DecidableEq, Repr

def JobState.finished : JobState → Bool
  | queued | running => false
  | succeeded | failed => true

structure Job where
  id : Text
  operation : Text
  planId : Text
  state : JobState
  deriving DecidableEq

inductive ApplyRefusal
  | unknown
  | changed
  | configChanged
  | applied
  | busy (message : Option Text)
  | secrets (message : Text)
  deriving DecidableEq

def maxPlans : Nat := 128
def maxConcurrentJobs : Nat := 32

/-! ## The digest of a plan -/

/-- `pointer_mut` along object keys. -/
def updateAt (f : Json → Json) : List Text → Json → Json
  | [], v => f v
  | key :: path, .obj entries =>
    .obj (entries.map fun e => if e.1 = key then (e.1, updateAt f path e.2) else e)
  | _ :: _, v => v

def removeAvailable : Json → Json
  | .obj entries => .obj (Json.erase "available_bytes" entries)
  | v => v

/-- The summary without free space, which changes with unrelated writes. -/
def signedSummary (summary : Json) : Json :=
  [["capacity"], ["capacity", "target"], ["capacity", "source_clone"]].foldl
    (fun v path => updateAt removeAvailable (path.map String.toList) v) summary

/-- The canonical JSON of what was planned, under which configuration version. -/
def canonical (operation : Text) (parameters : Json) (configVersion : Option Text) (planned : Planned) :
    Json :=
  .obj [("config_version", (configVersion.map Json.str).getD .null), ("operation", .str operation),
    ("parameters", parameters), ("summary", signedSummary planned.summary),
    ("targets", .arr (planned.targets.map fun v => .int v))]

def digest (operation : Text) (parameters : Json) (configVersion : Option Text) (planned : Planned) :
    Text :=
  Sha256.hex (Sha256.digest
    ((Text.utf8 (canonical operation parameters configVersion planned).render).map UInt8.toNat))

/-! ## The state under the lock -/

structure Inner where
  plans : Std.ExtTreeMap Text StoredPlan
  jobs : List Job
  busy : Finset Nat

/-- `lock`: expired plans are dropped. -/
def Inner.lock (now : Nat) (inner : Inner) : Inner :=
  { inner with plans := inner.plans.filter fun _ stored => stored.expires > now }

def secretsRequired (plan : Plan) : List Text :=
  (((plan.summary.get "secrets_required").bind Json.asArray).getD []).filterMap Json.asStr

structure Request where
  id : Text
  clientDigest : Text
  configVersion : Option Text
  secrets : List Text
  deriving DecidableEq

/-- The first lock section of `apply`. -/
def admission (inner : Inner) (req : Request) : Except ApplyRefusal (Inner × StoredPlan) :=
  if inner.jobs.any fun job => job.planId == req.id then .error .applied
  else
    match inner.plans[req.id]? with
    | none => .error .unknown
    | some stored =>
      if stored.plan.digest ≠ req.clientDigest then .error .changed
      else if stored.configVersion ≠ req.configVersion then .error .configChanged
      else if !(secretsRequired stored.plan).all (req.secrets.contains ·) then
        .error (.secrets "The plan needs a secret the request did not send; see the plan's secrets_required.")
      else if !req.secrets.all ((secretsRequired stored.plan).contains ·) then
        .error (.secrets "The request sends a secret the plan does not need.")
      else if stored.plan.targets.any (· ∈ inner.busy) then .error (.busy none)
      else .ok ({ inner with busy := inner.busy ∪ stored.plan.targets.toFinset }, stored)

/-- `trim_jobs`: every active job and the newest finished ones. -/
def trimJobs (retained : Nat) : List Job → List Job :=
  go 0
where
  go (finished : Nat) : List Job → List Job
    | [] => []
    | job :: rest =>
      if !job.state.finished then job :: go finished rest
      else if finished + 1 ≤ max retained 1 then job :: go (finished + 1) rest
      else go (finished + 1) rest

def createJob (retained : Nat) (inner : Inner) (id : Text) (job : Job) : Inner :=
  { inner with plans := inner.plans.erase id, jobs := trimJobs retained (job :: inner.jobs) }

def release (retained : Nat) (inner : Inner) (targets : List Nat) : Inner :=
  { inner with busy := inner.busy \ targets.toFinset, jobs := trimJobs retained inner.jobs }

/-- `handle.update` of one job's state. -/
def setJobState (jobs : List Job) (id : Text) (state : JobState) : List Job :=
  jobs.map fun job => if job.id = id then { job with state := state } else job

/-! ## Applies and their jobs -/

/-- How far an apply is; from `planning` on it holds its admission. -/
inductive Stage
  | entering
  | planning (stored : StoredPlan)
  | leasing (stored : StoredPlan) (replanned : Planned) (job : Text)
  | queued (stored : StoredPlan) (replanned planned : Planned) (job : Text)
  | executing (stored : StoredPlan) (job : Text)
  | finishing (stored : StoredPlan) (job : Text)

def Stage.stored : Stage → Option StoredPlan
  | entering => none
  | planning s | leasing s _ _ | queued s _ _ _ | executing s _ | finishing s _ => some s

/-- The unfinished job of an apply. -/
def Stage.activeJob : Stage → Option Text
  | queued _ _ _ job | executing _ job => some job
  | _ => none

structure ApplyCall where
  req : Request
  stage : Stage

structure Execution where
  job : Text
  req : Request
  stored : StoredPlan
  replanned : Planned
  planned : Planned

structure State where
  now : Nat
  inner : Inner
  /-- Free permits of the semaphore. -/
  free : Nat
  calls : List ApplyCall
  made : List Plan
  created : List (Text × Text)
  executed : List Execution

def State.init : State where
  now := 0
  inner := { plans := ∅, jobs := [], busy := ∅ }
  free := maxConcurrentJobs
  calls := []
  made := []
  created := []
  executed := []

section Codec

variable (B : Base64) (S : Serde Lease)

/-- What `acquire_leases` makes of a job's plan: a destroy plan adopts the lease that the job
got on each target, any other stays as it is. -/
inductive Leased (operation job : Text) : Planned → Planned → Prop
  | other {planned : Planned} : operation ≠ "workspace.destroy" → Leased operation job planned planned
  | destroy {planned : Planned} {acquired : List Acquisition} {summary : Json} :
      operation = "workspace.destroy" → acquired.map Acquisition.vmid = planned.targets →
      (∀ a ∈ acquired, a.lease.job = job ∧ a.lease.operation = operation) →
      acquired.foldlM (authorizeDestroyLease B S) planned.summary = .ok summary →
      Leased operation job planned { planned with summary := summary }

def State.drop (retained : Nat) (s : State) (xs ys : List ApplyCall) (targets : List Nat) : State :=
  { s with inner := release retained (s.inner.lock s.now) targets, free := s.free + 1, calls := xs ++ ys }

variable (ttl retained : Nat)

inductive Step : State → State → Prop
  | tick (s : State) : Step s { s with now := s.now + 1 }
  /-- Any other use of the lock, such as `running` or `get_plan`. -/
  | look (s : State) : Step s { s with inner := s.inner.lock s.now }
  /-- `plan` keeps a plan under a new id. -/
  | plan (s : State) (id operation : Text) (parameters : Json) (configVersion : Option Text)
      (planned : Planned) :
      planned.targets ≠ [] → id ∉ s.made.map Plan.id → (s.inner.lock s.now).plans.size < maxPlans →
      Step s
        { s with
          inner := { s.inner.lock s.now with
            plans := (s.inner.lock s.now).plans.insert id
              { plan :=
                  { id := id, operation := operation
                    digest := digest operation parameters configVersion planned
                    targets := planned.targets, summary := planned.summary }
                parameters := parameters
                configVersion := configVersion
                expires := s.now + ttl } }
          made :=
            { id := id, operation := operation
              digest := digest operation parameters configVersion planned
              targets := planned.targets, summary := planned.summary } :: s.made }
  | enter (s : State) (req : Request) :
      0 < s.free → Step s { s with free := s.free - 1, calls := ⟨req, .entering⟩ :: s.calls }
  | admitted (s : State) (xs ys : List ApplyCall) (req : Request) (inner : Inner) (stored : StoredPlan) :
      s.calls = xs ++ ⟨req, .entering⟩ :: ys →
      admission (s.inner.lock s.now) req = .ok (inner, stored) →
      Step s { s with inner := inner, calls := xs ++ ⟨req, .planning stored⟩ :: ys }
  /-- A refused apply gives its permit back. -/
  | refuse (s : State) (xs ys : List ApplyCall) (req : Request) (refusal : ApplyRefusal) :
      s.calls = xs ++ ⟨req, .entering⟩ :: ys →
      admission (s.inner.lock s.now) req = .error refusal →
      Step s { s with inner := s.inner.lock s.now, free := s.free + 1, calls := xs ++ ys }
  /-- The plan made again has the digest of the stored one. -/
  | replan (s : State) (xs ys : List ApplyCall) (req : Request) (stored : StoredPlan) (planned : Planned)
      (job : Text) :
      s.calls = xs ++ ⟨req, .planning stored⟩ :: ys →
      digest stored.plan.operation stored.parameters req.configVersion planned = stored.plan.digest →
      Step s { s with calls := xs ++ ⟨req, .leasing stored planned job⟩ :: ys }
  | create (s : State) (xs ys : List ApplyCall) (req : Request) (stored : StoredPlan)
      (replanned planned : Planned) (job : Text) :
      s.calls = xs ++ ⟨req, .leasing stored replanned job⟩ :: ys →
      Leased B S stored.plan.operation job replanned planned → job ∉ s.created.map Prod.snd →
      Step s
        { s with
          inner := createJob retained (s.inner.lock s.now) req.id
            { id := job, operation := stored.plan.operation, planId := stored.plan.id, state := .queued }
          calls := xs ++ ⟨req, .queued stored replanned planned job⟩ :: ys
          created := (stored.plan.id, job) :: s.created }
  | start (s : State) (xs ys : List ApplyCall) (req : Request) (stored : StoredPlan)
      (replanned planned : Planned) (job : Text) :
      s.calls = xs ++ ⟨req, .queued stored replanned planned job⟩ :: ys →
      Step s
        { s with
          inner := { s.inner with jobs := setJobState s.inner.jobs job .running }
          calls := xs ++ ⟨req, .executing stored job⟩ :: ys
          executed := ⟨job, req, stored, replanned, planned⟩ :: s.executed }
  /-- It ended, failed or panicked, and the job is finished. -/
  | finish (s : State) (xs ys : List ApplyCall) (req : Request) (stored : StoredPlan) (job : Text)
      (state : JobState) :
      s.calls = xs ++ ⟨req, .executing stored job⟩ :: ys → state.finished = true →
      Step s
        { s with
          inner := { s.inner with jobs := setJobState s.inner.jobs job state }
          calls := xs ++ ⟨req, .finishing stored job⟩ :: ys }
  /-- Planning failed, panicked or was cancelled, or the plan changed. -/
  | dropPlanning (s : State) (xs ys : List ApplyCall) (req : Request) (stored : StoredPlan) :
      s.calls = xs ++ ⟨req, .planning stored⟩ :: ys →
      Step s (s.drop retained xs ys stored.plan.targets)
  /-- A lease could not be written, or the apply was cancelled meanwhile. -/
  | dropLeasing (s : State) (xs ys : List ApplyCall) (req : Request) (stored : StoredPlan)
      (planned : Planned) (job : Text) :
      s.calls = xs ++ ⟨req, .leasing stored planned job⟩ :: ys →
      Step s (s.drop retained xs ys stored.plan.targets)
  /-- The finished job's task ends. -/
  | dropFinishing (s : State) (xs ys : List ApplyCall) (req : Request) (stored : StoredPlan) (job : Text) :
      s.calls = xs ++ ⟨req, .finishing stored job⟩ :: ys →
      Step s (s.drop retained xs ys stored.plan.targets)

inductive Reachable : State → Prop
  | init : Reachable .init
  | step {s t : State} : Reachable s → Step B S ttl retained s t → Reachable t

end Codec

end HomeStack.Operations

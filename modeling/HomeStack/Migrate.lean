import HomeStack.Lib.Embed
import HomeStack.Lifecycle
import HomeStack.VmCalls
import HomeStack.Workspace

/-! Moving a workspace to another node (`migrate.rs`): it is shut down, migrated with its local disks,
verified on the target and started there. A failure after the shutdown starts it again on the source
node if it is still there. The checks of capacity before and of the guest after the migration are
questions asked as a whole; progress is left out. -/

namespace HomeStack.Migrate

open Prog

inductive Ask
  | api (c : Call)
  /-- `POST /nodes/{source}/qemu/{vmid}/migrate` -/
  | migrate (source : Text) (vmid : Nat) (target storage : Text)
  /-- `require_migration_capacity` -/
  | capacity (source target : Text) (vmid : Nat) (storage : Text)
  /-- `verify_migrated_home` -/
  | guestHome (node : Text) (vmid : Nat) (user homeLabel : Text)

abbrev Ask.Answer : Ask → Type
  | .api c => c.Answer
  | .migrate .. => Except PveError Json
  | .capacity .. | .guestHome .. => Except CoreError Unit

abbrev MigrateOp (α : Type) := ExceptT CoreError (Prog Ask Ask.Answer) α

abbrev ask (q : Ask) : MigrateOp q.Answer := request q

/-- A call of the operations. -/
def api {α : Type} (p : Op α) : MigrateOp α := ExceptT.mk (Prog.embed Ask.api (fun _ r => r) p.run)

/-- What the execution needs from a plan. -/
structure Planned where
  vmid : Nat
  source : Text
  target : Text
  storage : Text
  homeLabel : Text
  status : Text

def Planned.wasRunning (p : Planned) : Bool := p.status = "running"

/-- The plan as it is read. -/
def planned (plan : Json) : Except CoreError Planned := do
  let vmid ← vmidOf plan
  let source ← planText plan "source_node"
  let target ← planText plan "target_node"
  let storage ← planText plan "target_storage"
  let homeLabel ← planText plan "home_label"
  let status ← planText plan "status"
  return ⟨vmid, source, target, storage, homeLabel, status⟩

def powerState (node : Text) (vmid : Nat) : Op Text := do
  let status ← vmStatus node vmid
  if status ≠ "running" ∧ status ≠ "stopped" then
    throw (.refused ("Cannot determine current power state of VM " ++ Text.ofNat vmid))
  return status

/-- The VM as the cluster lists it. -/
def listed (vmid : Nat) : Op (Option StatusResource) := do
  return (← clusterVmResources).find? fun r => r.vmid = vmid

/-- `MIGRATE_TIMEOUT` -/
def migrateTimeoutSecs : Nat := 7200

/-- One try of `migrate_offline`. -/
def tryMigrate (p : Planned) : MigrateOp Unit := do
  match ← ask (.migrate p.source p.vmid p.target p.storage) with
  | .error e => throw (.pve e)
  | .ok answer =>
    api (finishTask answer ("Proxmox task qmigrate for VM " ++ Text.ofNat p.vmid ++ " on " ++
      p.source) migrateTimeoutSecs)

/-- `migrate_offline`, tried again while the VM's lock is taken -/
def migrateOffline (p : Planned) : MigrateOp Unit := do
  go (← api Op.rounds)
where
  go : Nat → MigrateOp Unit
    | 0 => tryMigrate p
    | n + 1 => do
      match ← Prog.attempt (tryMigrate p) with
      | .ok _ => return
      | .error e => if isLockTimeout e.toText then go n else throw e

/-- "Verify target configuration" -/
def verifyTarget (cfg : Config) (p : Planned) : Op Unit := do
  let actual := ((← listed p.vmid).map StatusResource.node).getD []
  if actual ≠ p.target then
    throw (.failed ("Migration command completed but VM " ++ Text.ofNat p.vmid ++
      " is on " ++ pyRepr (some actual)
      ++ ", expected " ++ pyRepr (some p.target)))
  let targetCfg ← vmConfig p.target p.vmid
  let home := targetCfg[cfg.homeDisk]?.getD []
  if diskOption home "serial" ≠ some p.homeLabel then
    throw (.failed ("Persistent home identity check failed after migration to " ++ p.target))

/-- "Verify final power state" -/
def verifyPower (p : Planned) : Op Text := do
  let status ← vmStatus p.target p.vmid
  let desired : Text := if p.wasRunning then "running" else "stopped"
  if status ≠ desired then
    throw (.failed ("Migration completed but VM " ++ Text.ofNat p.vmid ++
      " power state is " ++ pyRepr (some status)
      ++ "; expected " ++ pyRepr (some desired) ++ " to preserve its pre-migration state"))
  return status

/-- The start on the target, with the check of the guest. -/
def startTarget (cfg : Config) (p : Planned) : MigrateOp Unit := do
  api (startVm p.target p.vmid)
  MonadExcept.ofExcept (← ask (.guestHome p.target p.vmid cfg.user.name p.homeLabel))

/-- `migrate_steps` after the shutdown. -/
def moveSteps (cfg : Config) (p : Planned) : MigrateOp Text := do
  migrateOffline p
  api (verifyTarget cfg p)
  if p.wasRunning then startTarget cfg p
  api (verifyPower p)

def recover (p : Planned) : MigrateOp (Text × Option CoreError) := do
  let vm : Text := Text.ofNat p.vmid
  match ← Prog.attempt (api (listed p.vmid)) with
  | .error e => return ("\nRecovery check failed for VM " ++ vm ++ " on " ++ p.source ++
      ": " ++ e.toText, some e)
  | .ok resource =>
    let node := (resource.map StatusResource.node).getD []
    let status := (resource.bind StatusResource.status).getD []
    if node ≠ p.source ∨ status = "running" then return ([], none)
    else
      match ← Prog.attempt (api (startVm p.source p.vmid)) with
      | .ok _ => return ("\nRecovery: VM " ++ vm ++ " was restarted automatically on " ++
          p.source ++ ".", none)
      | .error e =>
        return ("\nRecovery: VM " ++ vm ++ " is still on " ++ p.source ++
          ", but automatic restart failed: " ++ e.toText, some e)

/-- The failure of a step after the shutdown, with what the recovery did. -/
def failed (p : Planned) (error : CoreError) : MigrateOp Text := do
  let (note, recoveryError) ← recover p
  throw (if note.isEmpty then error else .context (error.toText ++ note) (error :: recoveryError.toList))

/-- The steps, with the recovery: a failure of the shutdown itself is not recovered. -/
def stepsOrRecover (cfg : Config) (p : Planned) : MigrateOp Text := do
  if p.wasRunning then
    api (shutdownVm p.source p.vmid shutdownSecs)
    match ← Prog.attempt (moveSteps cfg p) with
    | .ok status => return status
    | .error error => failed p error
  else moveSteps cfg p

/-- What is checked again before the shutdown. -/
def recheck (cfg : Config) (pool : Text) (plan : Json) (p : Planned) : Op Unit := do
  let info ← resolveExistingWorkspace cfg p.vmid
  requirePool p.vmid pool
  if info.node ≠ p.source then
    throw (.refused ("VM " ++ Text.ofNat p.vmid ++ " is on " ++ info.node ++ ", not on " ++ p.source
      ++ " as planned; generate a new plan"))
  if (plan.get "home_volume").bind Json.asStr ≠ some info.homeVolume then
    throw (.refused "Workspace home volume changed after migrate confirmation; generate a new plan")
  if (← powerState p.source p.vmid) ≠ p.status then
    throw (.refused "Workspace power state changed after migrate confirmation; generate a new plan")

/-- The plan with its outcome. -/
def outcome (plan : Json) (status : Text) : Json :=
  let entries := match plan with
    | .obj entries => entries
    | _ => []
  .obj ([("ok", Json.bool true), ("status", .str status), ("snippets_copied", .arr []),
    ("home_preserved", .bool true),
    ("power_state_preserved", .bool true), ("event", .str "workspace.migrated")].foldl
      (fun es e => Json.insert e.1 e.2 es) entries)

def migrateWorkspace (cfg : Config) (pool : Text) (plan : Json) : MigrateOp Json := do
  let p ← MonadExcept.ofExcept (planned plan)
  api (recheck cfg pool plan p)
  MonadExcept.ofExcept (← ask (.capacity p.source p.target p.vmid p.storage))
  let status ← stepsOrRecover cfg p
  return outcome plan status

/-! ## The VM, and what is known of it -/

inductive Power
  | running | stopped
  deriving DecidableEq

/-- The calls so far, and what the VM really does, whatever is answered. -/
structure World where
  log : History
  power : Power
  node : Text
  migrating : Bool

def isShutdown (vmid : Nat) (e : Event Call Call.Answer) : Bool :=
  match e.q with
  | .post (.statusShutdown _ v) _ => v = vmid
  | _ => false

def isStart (vmid : Nat) (node : Text) (e : Event Call Call.Answer) : Bool :=
  match e.q with
  | .post (.statusStart n v) _ => v = vmid ∧ n = node
  | _ => false

/-- A list of the VMs, if the event is one: its answer as it is read. -/
def readsList : Event Call Call.Answer → Option (Option (List StatusResource))
  | ⟨.get .clusterResources _, .ok (.arr items)⟩ =>
    some (some (((items.filterMap vmMap).map statusResource).insertionSort fun a b => a.vmid ≤ b.vmid))
  | ⟨.get .clusterResources _, _⟩ => some none
  | _ => none

/-- The VM in the newest list of a history. -/
def lastListed (vmid : Nat) (log : History) : Option StatusResource :=
  ((log.findSome? readsList).bind id).bind fun rs => rs.find? fun r => r.vmid = vmid

/-- The node on which the VM was last listed. -/
def lastNode (vmid : Nat) (log : History) : Text := ((lastListed vmid log).map StatusResource.node).getD []

/-- What came after the last shutdown. -/
def sinceShutdown (vmid : Nat) (log : History) : History := log.takeWhile fun e => !isShutdown vmid e

/-- The newest list of the VMs since the shutdown came back and shows the VM on this node, not running. -/
def ShownStopped (vmid : Nat) (source : Text) (log : History) : Prop :=
  ∃ r, lastListed vmid (sinceShutdown vmid log) = some r ∧ r.node = source ∧ r.status ≠ some "running"

/-- Answers say anything; the VM changes its state by what was sent, at once or later. -/
def moves (p : Planned) (w t : World) : Prop :=
  (t.power = w.power ∨ t.power = .stopped ∧ t.log.any (isShutdown p.vmid) = true ∨
      t.power = .running ∧ t.log.any (isStart p.vmid t.node) = true) ∧
    (t.node = w.node ∨ w.migrating = true ∧ t.node = p.target)

def net (p : Planned) : Prog.Env Ask Ask.Answer World where
  next w q r t :=
    moves p w t ∧
      match q, r with
      | .api c, r => t.log = ⟨c, r⟩ :: w.log ∧ (t.migrating = true → w.migrating = true)
      | .migrate .., _ => t.log = w.log
      | .capacity .., _ | .guestHome .., _ => t.log = w.log ∧ (t.migrating = true → w.migrating = true)

/-- The shutdown took effect, and nothing moves the VM away from where it is stopped. -/
structure LeftOff (p : Planned) (before after : World) : Prop where
  running : before.power = .running
  stopped : after.power = .stopped
  node : after.node = p.source
  still : after.migrating = false

/-- Where the workspace is left off, it was started again on the source node after the shutdown. -/
def Recovered (p : Planned) (before after : World) : Prop :=
  LeftOff p before after → ∃ e ∈ sinceShutdown p.vmid after.log, isStart p.vmid p.source e = true

/-- A start is sent only to the node on which the VM was last listed. -/
def Placed (p : Planned) (log : History) (c : Call) : Prop :=
  ∀ node vmid form, c = .post (.statusStart node vmid) form → vmid = p.vmid ∧ lastNode p.vmid log = node

/-- What an answer to a configuration read says of the home. -/
def HomeRead (cfg : Config) (p : Planned) (e : Event Call Call.Answer) : Prop :=
  ∃ map, e = ⟨.get (.config p.target p.vmid) [], .ok (.obj map)⟩ ∧
    diskOption ((parseConfig map)[cfg.homeDisk]?.getD []) "serial" = some p.homeLabel

/-- The VM was listed on the target, its home has the planned label, and its power state there was read
as before. -/
structure Moved (cfg : Config) (p : Planned) (log : History) : Prop where
  listed : p.target ≠ [] → ∃ r, lastListed p.vmid log = some r ∧ r.node = p.target
  home : ∃ e ∈ log, HomeRead cfg p e
  power : ∃ map older, log = ⟨.get (.statusCurrent p.target p.vmid) [], .ok (.obj map)⟩ :: older ∧
    (textOrNone (Json.lookup "status" map)).map Text.trim = some p.status

/-! ## Lists and shutdowns in a history -/

section

variable {p : Planned} {vmid : Nat} {h t : History} {e : Event Call Call.Answer} {c : Call}

theorem lastNode_cons (he : readsList e = none) : lastNode vmid (e :: h) = lastNode vmid h := by
  unfold lastNode lastListed
  rw [List.findSome?_cons, he]

/-- The event is a list in which the VM is as `r` says. -/
structure Lists (vmid : Nat) (e : Event Call Call.Answer) (r : Option StatusResource) : Prop where
  quiet : isShutdown vmid e = false
  last : ∀ l, lastListed vmid (e :: l) = r

theorem Lists.of_some {rs : List StatusResource} (he : readsList e = some (some rs))
    (hq : isShutdown vmid e = false) :
    Lists vmid e (rs.find? fun r => r.vmid = vmid) := by
  refine ⟨hq, fun l => ?_⟩
  unfold lastListed
  rw [List.findSome?_cons, he]
  rfl

theorem Lists.of_none (he : readsList e = some none) (hq : isShutdown vmid e = false) :
    Lists vmid e none := by
  refine ⟨hq, fun l => ?_⟩
  unfold lastListed
  rw [List.findSome?_cons, he]
  rfl

/-- Neither a start nor a list. -/
structure Mute (c : Call) : Prop where
  start : ∀ node vmid form, c ≠ .post (.statusStart node vmid) form
  list : ∀ query, c ≠ .get .clusterResources query

theorem Mute.placed (hc : Mute c) : Placed p h c :=
  fun node vmid form heq => (hc.start node vmid form heq).elim

theorem Mute.readsList {r : c.Answer} (hc : Mute c) : readsList ⟨c, r⟩ = none := by
  unfold Migrate.readsList
  split
  next heq => cases heq; exact (hc.list _ rfl).elim
  next heq => cases heq; exact (hc.list _ rfl).elim
  next => rfl

theorem mute_polls : Polls Mute := ⟨fun _ _ => ⟨nofun, nofun⟩, fun _ _ _ => ⟨nofun, nofun⟩, ⟨nofun, nofun⟩⟩

theorem wpe_clusterVmResources :
    wpe anything (Placed p) clusterVmResources h
      (fun rs t => ∃ e, t = e :: h ∧ Lists vmid e (rs.find? fun r => r.vmid = vmid))
      fun _ t => ∃ e, t = e :: h ∧ Lists vmid e none := by
  unfold clusterVmResources clusterVmMaps
  refine wpe_bind.mpr (wpe_bind.mpr (wpe_bind.mpr (wpe_call (fun _ _ _ heq => nomatch heq) fun r => ?_)))
  match r with
  | .ok (.arr items) =>
    show ∃ e, (_ : History) = e :: h ∧ Lists vmid e _
    exact ⟨_, rfl, .of_some rfl rfl⟩
  | .error _ | .ok .null | .ok (.bool _) | .ok (.int _) | .ok (.dec ..) | .ok (.str _) | .ok (.obj _) =>
    show ∃ e, (_ : History) = e :: h ∧ Lists vmid e none
    exact ⟨_, rfl, .of_none rfl rfl⟩

theorem wpe_listed :
    wpe anything (Placed p) (listed vmid) h (fun r t => ∃ e, t = e :: h ∧ Lists vmid e r) fun _ t => ∃ e,
      t = e :: h ∧ Lists vmid e none :=
  wpe_bind.mpr (wpe_mono wpe_clusterVmResources (fun _ _ ht => wpe_pure ht) fun _ _ ht => ht)

/-- No list was read since a shutdown. -/
def Unlisted (vmid : Nat) (h : History) : Prop :=
  h.any (isShutdown vmid) = true → ∀ e ∈ sinceShutdown vmid h, readsList e = none

theorem Unlisted.cons (hh : Unlisted vmid h) (he : readsList e = none) : Unlisted vmid (e :: h) := by
  intro hany x hx
  unfold sinceShutdown at hx
  rw [List.takeWhile_cons] at hx
  split at hx
  next hquiet =>
    rcases List.mem_cons.mp hx with rfl | hx
    · exact he
    · refine hh ?_ x hx
      have hne : isShutdown vmid e = false := by simpa using hquiet
      rwa [List.any_cons, hne, Bool.false_or] at hany
  next => cases hx

theorem Unlisted.not_shown {source : Text} (hh : Unlisted vmid h) (hany : h.any (isShutdown vmid) = true) :
    ¬ ShownStopped vmid source h := by
  rintro ⟨r, hr, -⟩
  unfold lastListed at hr
  rw [List.findSome?_eq_none_iff.mpr (hh hany)] at hr
  cases hr

theorem sinceShutdown_cons (he : isShutdown vmid e = false) :
    sinceShutdown vmid (e :: h) = e :: sinceShutdown vmid h := by
  unfold sinceShutdown
  rw [List.takeWhile_cons, if_pos (by rw [he]; rfl)]

theorem Lists.shown {source : Text} {r : Option StatusResource} (he : Lists vmid e r)
    (hs : ShownStopped vmid source (e :: h)) :
    ∃ x, r = some x ∧ x.node = source ∧ x.status ≠ some "running" := by
  obtain ⟨x, hx, hrest⟩ := hs
  rw [sinceShutdown_cons he.quiet, he.last] at hx
  exact ⟨x, hx, hrest⟩

/-- What a failed shutdown leaves: the newest list, if there is one, does not show the VM stopped. -/
def NotShown (p : Planned) (h : History) : Prop :=
  h.any (isShutdown p.vmid) = true → ¬ ShownStopped p.vmid p.source h

theorem wpe_listedStopped {n : Nat} :
    wpe anything (Placed p) (listedStopped p.vmid n) h (fun _ _ => True) fun _ t => NotShown p t := by
  have hrunning {k : Bool → Op Unit} {h : History} (hk : ∀ e r, Lists p.vmid e r →
      wpe anything (Placed p) (k (r.bind StatusResource.status = some "running".toList)) (e :: h)
        (fun _ _ => True) fun _ t => NotShown p t) :
      wpe anything (Placed p) (listedRunning p.vmid >>= k) h (fun _ _ => True) fun _ t => NotShown p t := by
    refine wpe_bind.mpr (wpe_bind.mpr (wpe_mono (@wpe_clusterVmResources p p.vmid _) ?_ ?_))
    · rintro rs _ ⟨e, rfl, he⟩
      exact wpe_pure (hk e _ he)
    · rintro _ _ ⟨e, rfl, he⟩ - hs
      obtain ⟨x, hx, -⟩ := he.shown hs
      cases hx
  induction n generalizing h with
  | zero =>
    refine hrunning fun e r he => ?_
    split
    next hstatus =>
      refine wpe_throw fun _ hs => ?_
      obtain ⟨x, rfl, -, hx⟩ := he.shown hs
      exact hx (of_decide_eq_true hstatus)
    next => exact wpe_pure trivial
  | succ n ih =>
    refine hrunning fun e r he => ?_
    split
    next => exact ih
    next => exact wpe_pure trivial

theorem asks_tryShutdown_mute (node : Text) (vmid secs : Nat) :
    (tryShutdown node vmid secs).run.Asks Mute := by
  refine Prog.asks_bind (Op.asks_post ⟨nofun, nofun⟩) fun answer =>
    Prog.asks_bind Op.asks_ofExcept fun upid => ?_
  refine Prog.asks_bind (Prog.asks_attempt (asks_waitTask mute_polls _ _)) fun r => ?_
  cases r with
  | ok result => exact Op.asks_ite trivial trivial
  | error e => cases e <;> trivial

theorem wpe_mute {α : Type} {op : Op α} (hop : op.run.Asks Mute) (hh : Unlisted p.vmid h) :
    wpe anything (Placed p) op h (fun _ t => Unlisted p.vmid t) fun _ t => Unlisted p.vmid t := by
  refine wpe_inv hop hh (fun s q r t hq hs hn => ?_) fun _ _ hq _ => hq.placed
  obtain rfl := hn
  exact hs.cons hq.readsList

/-- A shutdown that fails leaves no list that shows the VM stopped. -/
theorem wpe_shutdownVm (hh : Unlisted p.vmid h) :
    wpe anything (Placed p) (shutdownVm p.source p.vmid shutdownSecs) h (fun _ _ => True) fun _ t =>
      NotShown p t := by
  have hnot {t : History} (ht : Unlisted p.vmid t) : NotShown p t := fun hany => ht.not_shown hany
  have hmute : (vmStatus p.source p.vmid).run.Asks Mute := asks_vmStatus ⟨nofun, nofun⟩
  have hstatus {t : History} (ht : Unlisted p.vmid t) := wpe_mute hmute ht
  unfold shutdownVm
  refine wpe_bind.mpr (wpe_mono (hstatus hh) (fun status t ht => ?_) fun _ _ ht => hnot ht)
  split
  next => exact wpe_pure trivial
  next =>
    split
    next => exact wpe_throw (hnot ht)
    next =>
      refine wpe_bind.mpr (wpe_mono
        (wpe_mute (asks_retryWhileLocked ⟨nofun, nofun⟩ (asks_tryShutdown_mute _ _ _)) ht) ?_
        fun _ _ ht => hnot ht)
      intro taskOk u hu
      refine wpe_bind.mpr (wpe_mono (hstatus hu) (fun final v hv => ?_) fun _ _ ht => hnot ht)
      split
      next => exact wpe_throw (hnot hv)
      next => exact wpe_call (fun _ _ _ heq => nomatch heq) fun n => wpe_listedStopped

/-! ## Starting -/

/-- A start on this node was sent, and neither a list nor a shutdown came between. -/
def Started (p : Planned) (node : Text) (h t : History) : Prop :=
  ∃ new, t = new ++ h ∧ (∀ e ∈ new, isShutdown p.vmid e = false ∧ readsList e = none) ∧
    ∃ e ∈ new, isStart p.vmid node e = true

theorem lastListed_append {new : History} (hnew : ∀ e ∈ new, readsList e = none) :
    lastListed vmid (new ++ h) = lastListed vmid h := by
  unfold lastListed
  rw [List.findSome?_append, List.findSome?_eq_none_iff.mpr hnew, Option.none_or]

theorem Started.cons {node : Text} (hs : Started p node h t)
    (he : isShutdown p.vmid e = false ∧ readsList e = none) :
    Started p node h (e :: t) := by
  obtain ⟨new, rfl, hnew, x, hx, hstart⟩ := hs
  refine ⟨e :: new, rfl, fun y hy => ?_, x, List.mem_cons_of_mem _ hx, hstart⟩
  rcases List.mem_cons.mp hy with rfl | hy
  · exact he
  · exact hnew y hy

theorem Started.lastListed {node : Text} (hs : Started p node h t) :
    Migrate.lastListed p.vmid t = Migrate.lastListed p.vmid h := by
  obtain ⟨new, rfl, hnew, -⟩ := hs
  exact lastListed_append fun e he => (hnew e he).2

theorem Started.since {node : Text} (hs : Started p node h t) :
    ∃ e ∈ sinceShutdown p.vmid t, isStart p.vmid node e = true := by
  obtain ⟨new, rfl, hnew, x, hx, hstart⟩ := hs
  have hquiet : ∀ e ∈ new, (!isShutdown p.vmid e) = true := fun e he => by rw [(hnew e he).1]; rfl
  refine ⟨x, ?_, hstart⟩
  unfold sinceShutdown
  rw [List.takeWhile_append_of_pos hquiet]
  exact List.mem_append_left _ hx

/-- The questions of a start. -/
def Starts (node : Text) (vmid : Nat) (c : Call) : Prop :=
  c = .post (.statusStart node vmid) [] ∨ Mute c ∧ ∀ n v form, c ≠ .post (.statusShutdown n v) form

theorem starts_polls (node : Text) (vmid : Nat) : Polls (Starts node vmid) :=
  ⟨fun _ _ => Or.inr ⟨⟨nofun, nofun⟩, nofun⟩, fun _ _ _ => Or.inr ⟨⟨nofun, nofun⟩, nofun⟩,
    Or.inr ⟨⟨nofun, nofun⟩, nofun⟩⟩

theorem Starts.quiet {node : Text} {r : c.Answer} (hc : Starts node vmid c) :
    isShutdown vmid ⟨c, r⟩ = false ∧ readsList ⟨c, r⟩ = none := by
  rcases hc with rfl | ⟨hmute, hshutdown⟩
  · exact ⟨rfl, rfl⟩
  · refine ⟨?_, hmute.readsList⟩
    unfold isShutdown
    split
    next n v form heq => exact (hshutdown n v form heq).elim
    next => rfl

theorem Starts.placed {node : Text} (hc : Starts node p.vmid c) (hnode : lastNode p.vmid t = node) :
    Placed p t c := by
  rcases hc with rfl | ⟨hmute, -⟩
  · rintro _ _ _ ⟨⟩
    exact ⟨rfl, hnode⟩
  · exact hmute.placed

theorem Started.of_ask {node : Text} {r : (Call.post (.statusStart node p.vmid) []).Answer} {new : History}
    (hnew : ∀ e ∈ new, isShutdown p.vmid e = false ∧ readsList e = none) :
    Started p node h (⟨.post (.statusStart node p.vmid) [], r⟩ :: (new ++ h)) := by
  refine ⟨_ :: new, rfl, fun e he => ?_, _, List.mem_cons_self, ?_⟩
  · rcases List.mem_cons.mp he with rfl | he
    · exact ⟨rfl, rfl⟩
    · exact hnew e he
  · simp [isStart]

/-- A start is sent where the VM was last listed. -/
theorem wpe_startVm {node : Text} (hnode : lastNode p.vmid h = node) :
    wpe anything (Placed p) (startVm node p.vmid) h (fun _ t => Started p node h t) fun _ t =>
      Started p node h t := by
  have hlast {new : History} (hnew : ∀ e ∈ new, isShutdown p.vmid e = false ∧ readsList e = none) :
      lastNode p.vmid (new ++ h) = node := by
    unfold lastNode at hnode ⊢
    rw [lastListed_append fun e he => (hnew e he).2, hnode]
  have hafter {α : Type} {op : Op α} {t : History} (hop : op.run.Asks (Starts node p.vmid))
      (ht : Started p node h t) :
      wpe anything (Placed p) op t (fun _ t => Started p node h t) fun _ t => Started p node h t := by
    refine wpe_inv hop ht (fun s q r u hq hs hn => ?_) fun s q hq hs => ?_
    · obtain rfl := hn
      exact hs.cons hq.quiet
    · obtain ⟨new, rfl, hnew, -⟩ := hs
      exact hq.placed (hlast hnew)
  have htry {new : History} (hnew : ∀ e ∈ new, isShutdown p.vmid e = false ∧
      readsList e = none) (what : Text) :
      wpe anything (Placed p)
        (do finishTask (← Op.post (.statusStart node p.vmid) []) what startTimeoutSecs) (new ++ h)
        (fun _ t => Started p node h t) fun _ t => Started p node h t := by
    have hplaced : Placed p (new ++ h) (.post (.statusStart node p.vmid) []) :=
      Starts.placed (Or.inl rfl) (hlast hnew)
    refine wpe_bind.mpr (wpe_call hplaced fun r => ?_)
    have hstarted := Started.of_ask (h := h) (r := r) hnew
    cases r with
    | ok a =>
      have hpolls := asks_finishTask (starts_polls node p.vmid) a what startTimeoutSecs
      exact wpe_pure (hafter hpolls hstarted)
    | error e => exact wpe_throw hstarted
  have hloop (what : Text) (n : Nat) {new : History} (hnew : ∀ e ∈ new, isShutdown p.vmid e = false ∧
      readsList e = none) :
      wpe anything (Placed p)
        (retryWhileLocked.go
          (do finishTask (← Op.post (.statusStart node p.vmid) []) what startTimeoutSecs) n) (new ++ h)
        (fun _ t => Started p node h t) fun _ t => Started p node h t := by
    induction n generalizing new with
    | zero => exact htry hnew what
    | succ n ih =>
      refine wpe_bind.mpr (wpe_attempt (wpe_mono (htry hnew what)
        (fun _ _ ht => wpe_pure ht) fun e t ht => ?_))
      show wpe _ _ (if _ then _ else _) _ _ _
      split
      next =>
        obtain ⟨more, rfl, hmore, -⟩ := ht
        exact ih hmore
      next => exact wpe_throw ht
  refine wpe_call (fun _ _ _ heq => nomatch heq) fun n => ?_
  have hrounds : ∀ e ∈ [(⟨.rounds, n⟩ : Event Call Call.Answer)], isShutdown p.vmid e = false ∧
      readsList e = none := by
    intro e he
    rw [List.mem_singleton.mp he]
    exact ⟨rfl, rfl⟩
  exact hloop _ n hrounds

/-! ## The steps -/

/-- The guard of the calls, over the questions. -/
def Guard (p : Planned) (w : World) (q : Ask) : Prop := ∀ c, q = .api c → Placed p w.log c

variable {w : World}

theorem wpe_api {α : Type} {op : Op α} {K : α → History → Prop} {X : CoreError → History → Prop}
    (ho : wpe anything (Placed p) op w.log K X) :
    wpe (net p) (Guard p) (api op) w (fun a t => K a t.log) fun e t => X e t.log := by
  have hnext {w t : World} {c : Call} {r : c.Answer} (hn : (net p).next w (.api c) r t) : t.log =
      ⟨c, r⟩ :: w.log := hn.2.1
  refine wpe_embed Ask.api (fun _ r => r) World.log hnext (fun hI c heq => ?_) ho
  obtain rfl := Ask.api.inj heq
  exact hI

/-- Anything but a call leaves the calls so far. -/
theorem wpe_other {q : Ask} (hq : ∀ c, q ≠ .api c) (hn : ∀ {w r t}, (net p).next w q r t → t.log = w.log) :
    wpe (net p) (Guard p) (ask q) w (fun _ t => t.log = w.log) fun _ _ => False :=
  wpe_lift (wp_call (fun c heq => (hq c heq).elim) fun _ _ ht => hn ht)

theorem asks_api {P : Call → Prop} {α : Type} {op : Op α} (ho : op.run.Asks P) :
    (api op).run.Asks fun q => ∀ c, q = .api c → P c := by
  refine Prog.asks_embed Ask.api (fun _ r => r) (fun c hc d heq => ?_) ho
  obtain rfl := Ask.api.inj heq
  exact hc

theorem wpe_migrateOffline :
    wpe (net p) (Guard p) (migrateOffline p) w (fun _ _ => True) fun _ _ => True := by
  have htry : (tryMigrate p).run.Asks fun q => ∀ c, q = .api c → Mute c := by
    refine Prog.asks_bind ⟨nofun, fun r => trivial⟩ fun r => ?_
    cases r with
    | error e => trivial
    | ok answer => exact asks_api (asks_finishTask mute_polls _ _ _)
  have hloop (n : Nat) : (migrateOffline.go p n).run.Asks fun q => ∀ c, q = .api c → Mute c := by
    induction n with
    | zero => exact htry
    | succ n ih =>
      refine Prog.asks_bind (Prog.asks_attempt htry) fun r => ?_
      cases r with
      | ok a => trivial
      | error e =>
        show (if _ then _ else _ : MigrateOp Unit).run.Asks _
        split
        · exact ih
        · trivial
  have hasks : (migrateOffline p).run.Asks fun q => ∀ c, q = .api c → Mute c :=
    Prog.asks_bind (asks_api (Op.asks_call mute_polls.rounds)) hloop
  exact wpe_inv hasks trivial (fun _ _ _ _ _ _ _ => trivial) fun s q hq _ c hc => (hq c hc).placed

/-- The VM was last listed on the target, and its home there was read with the planned label. -/
structure Verified (cfg : Config) (p : Planned) (h : History) : Prop where
  node : lastNode p.vmid h = p.target
  home : ∃ e ∈ h, HomeRead cfg p e

theorem Verified.keep {cfg : Config} {new : History} (hv : Verified cfg p h)
    (hnew : ∀ e ∈ new, readsList e = none) :
    Verified cfg p (new ++ h) := by
  obtain ⟨e, he, hread⟩ := hv.home
  refine ⟨?_, e, List.mem_append_right _ he, hread⟩
  have hnode := hv.node
  unfold lastNode at hnode ⊢
  rwa [lastListed_append hnew]

theorem wpe_vmConfig {node : Text} :
    wpe anything (Placed p) (vmConfig node vmid) h
      (fun c t => ∃ map, t = ⟨.get (.config node vmid) [], .ok (.obj map)⟩ :: h ∧
        c = parseConfig map) fun _ _ => True := by
  refine wpe_bind.mpr (wpe_bind.mpr (wpe_lift (wp_call (fun _ _ _ heq => nomatch heq) ?_)))
  rintro r _ rfl
  match r with
  | .error _ | .ok .null | .ok (.bool _) | .ok (.int _) | .ok (.dec ..) | .ok
      (.str _) | .ok (.arr _) => trivial
  | .ok (.obj map) =>
    show ∃ m, (_ : History) = _ ∧ _
    exact ⟨map, rfl, rfl⟩

/-- The VM is read as running only where the answer says so. -/
theorem wpe_vmStatus {node : Text} :
    wpe anything (Placed p) (vmStatus node vmid) h
      (fun s t => s = "running" → ∃ map, t = ⟨.get (.statusCurrent node vmid) [], .ok (.obj map)⟩ :: h ∧
        (textOrNone (Json.lookup "status" map)).map Text.trim = some s) fun _ _ => True := by
  refine wpe_bind.mpr (wpe_lift (wp_call (fun _ _ _ heq => nomatch heq) ?_))
  rintro r _ rfl
  match r with
  | .error _ | .ok .null | .ok (.bool _) | .ok (.int _) | .ok (.dec ..) | .ok (.str _) | .ok (.arr _) =>
    exact wpe_pure fun heq => absurd heq (by decide)
  | .ok (.obj map) =>
    refine wpe_pure fun heq => ⟨map, rfl, ?_⟩
    cases hs : (textOrNone (Json.lookup "status" map)).map Text.trim with
    | none =>
      rw [hs] at heq
      exact absurd heq (by decide)
    | some s =>
      rw [hs, Option.filter_some] at heq
      split at heq
      next hempty =>
        rw [Option.filter_some, if_pos hempty]
        rfl
      next => exact absurd heq (by decide)

theorem wpe_verifyTarget {cfg : Config} :
    wpe anything (Placed p) (verifyTarget cfg p) h (fun _ t => Verified cfg p t) fun _ _ => True := by
  refine wpe_bind.mpr (wpe_mono (@wpe_listed p p.vmid h) ?_ fun _ _ _ => trivial)
  rintro r _ ⟨e, rfl, he⟩
  show wpe _ _ (if _ then _ else _) _ _ _
  split
  next => exact wpe_throw trivial
  next hnode =>
    have hlast : lastNode p.vmid (e :: h) = p.target := by
      unfold lastNode
      rw [he.last]
      exact not_not.mp hnode
    refine wpe_bind.mpr (wpe_mono wpe_vmConfig ?_ fun _ _ _ => trivial)
    rintro _ _ ⟨map, rfl, rfl⟩
    show wpe _ _ (if _ then _ else _) _ _ _
    split
    next => exact wpe_throw trivial
    next hserial =>
      refine wpe_pure ⟨?_, _, List.mem_cons_self, map, rfl, not_not.mp hserial⟩
      rw [lastNode_cons rfl]
      exact hlast

theorem wpe_startTarget {cfg : Config} (hv : Verified cfg p w.log) :
    wpe (net p) (Guard p) (startTarget cfg p) w (fun _ t => Verified cfg p t.log) fun _ _ => True := by
  refine wpe_bind.mpr (wpe_mono (wpe_api (wpe_startVm hv.node)) ?_ fun _ _ _ => trivial)
  rintro - t ⟨new, ht, hnew, -⟩
  have hvt : Verified cfg p t.log := by
    rw [ht]
    exact hv.keep fun e he => (hnew e he).2
  refine wpe_bind.mpr (wpe_mono (wpe_other nofun fun hn => hn.2.1) (fun r u hu => ?_) fun _ _ hu => hu.elim)
  rw [← hu] at hvt
  cases r with
  | ok a => exact wpe_pure hvt
  | error e => exact wpe_throw trivial

theorem wpe_verifyPower {cfg : Config} (hv : Verified cfg p h) (hp : p.wasRunning = true) :
    wpe anything (Placed p) (verifyPower p) h (fun _ t => Moved cfg p t) fun _ _ => True := by
  have hstatus : p.status = "running" := of_decide_eq_true hp
  refine wpe_bind.mpr (wpe_mono wpe_vmStatus (fun s t ht => ?_) fun _ _ _ => trivial)
  show wpe _ _ (if _ then _ else _) _ _ _
  rw [if_pos hp]
  split
  next => exact wpe_throw trivial
  next hs =>
    obtain rfl := not_not.mp hs
    obtain ⟨map, rfl, hmap⟩ := ht rfl
    obtain ⟨e, he, hread⟩ := hv.home
    refine wpe_pure ⟨fun hne => ?_, ⟨e, List.mem_cons_of_mem _ he, hread⟩, map, h, rfl,
      hmap.trans (congrArg some hstatus.symm)⟩
    have hnode : lastNode p.vmid (⟨.get (.statusCurrent p.target p.vmid) [], .ok (.obj map)⟩ :: h) =
        p.target := by
      rw [lastNode_cons rfl]
      exact hv.node
    unfold lastNode at hnode
    cases hr : lastListed p.vmid (⟨.get (.statusCurrent p.target p.vmid) [], .ok (.obj map)⟩ :: h) with
    | none =>
      rw [hr] at hnode
      exact (hne hnode.symm).elim
    | some r =>
      rw [hr] at hnode
      exact ⟨r, rfl, hnode⟩

theorem wpe_moveSteps {cfg : Config} (hp : p.wasRunning = true) :
    wpe (net p) (Guard p) (moveSteps cfg p) w (fun _ t => Moved cfg p t.log) fun _ _ => True := by
  refine wpe_bind.mpr (wpe_mono wpe_migrateOffline (fun _ t _ => ?_) fun _ _ _ => trivial)
  refine wpe_bind.mpr (wpe_mono (wpe_api wpe_verifyTarget) (fun _ u hu => ?_) fun _ _ _ => trivial)
  rw [if_pos hp]
  refine wpe_bind.mpr (wpe_mono (wpe_startTarget hu) (fun _ v hv => ?_) fun _ _ _ => trivial)
  exact wpe_api (wpe_verifyPower hv hp)

/-- What the recovery is for. -/
def Restarted (p : Planned) (h : History) : Prop :=
  ShownStopped p.vmid p.source h → ∃ e ∈ sinceShutdown p.vmid h, isStart p.vmid p.source e = true

theorem wpe_recover : wpe (net p) (Guard p) (recover p) w (fun _ t =>
    Restarted p t.log) fun _ _ => False := by
  refine wpe_bind.mpr (wpe_attempt (wpe_mono (wpe_api (@wpe_listed p p.vmid w.log)) ?_ ?_))
  · rintro r t ⟨e, ht, he⟩
    show wpe _ _ (if _ then _ else _) _ _ _
    split
    next hskip =>
      refine wpe_pure fun hs => ?_
      rw [ht] at hs
      obtain ⟨x, rfl, hnode, hstatus⟩ := he.shown hs
      rcases hskip with hother | hrunning
      · exact (hother hnode).elim
      · cases hx : x.status <;> simp_all
    next hgo =>
      have hnode : lastNode p.vmid t.log = p.source := by
        rw [ht]
        unfold lastNode
        rw [he.last]
        exact not_not.mp (not_or.mp hgo).1
      refine wpe_bind.mpr (wpe_attempt (wpe_mono (wpe_api (wpe_startVm hnode)) ?_ ?_))
      · exact fun _ u hu => wpe_pure fun _ => hu.since
      · exact fun _ u hu => wpe_pure fun _ => hu.since
  · rintro error t ⟨e, ht, he⟩
    refine wpe_pure fun hs => ?_
    rw [ht] at hs
    obtain ⟨x, hx, -⟩ := he.shown hs
    cases hx

theorem wpe_failed {error : CoreError} :
    wpe (net p) (Guard p) (failed p error) w (fun _ _ => False) fun _ t => Restarted p t.log :=
  wpe_bind.mpr (wpe_mono wpe_recover (fun _ _ ht => wpe_throw ht) fun _ _ ht => ht.elim)

theorem wpe_stepsOrRecover {cfg : Config} (hp : p.wasRunning = true) (hh : Unlisted p.vmid w.log) :
    wpe (net p) (Guard p) (stepsOrRecover cfg p) w (fun _ t => Moved cfg p t.log)
      fun _ t => t.log.any (isShutdown p.vmid) = true → Restarted p t.log := by
  unfold stepsOrRecover
  rw [if_pos hp]
  refine wpe_bind.mpr (wpe_mono (wpe_api (wpe_shutdownVm hh)) (fun _ t _ => ?_) fun _ _ ht hany hs =>
    (ht hany hs).elim)
  refine wpe_bind.mpr (wpe_attempt (wpe_mono (wpe_moveSteps hp)
    (fun _ _ hu => wpe_pure hu) fun error u _ => ?_))
  exact wpe_mono wpe_failed (fun _ _ hv => hv.elim) fun _ _ hv _ => hv

/-! ## The run -/

theorem reads_recheck (cfg : Config) (pool : Text) (plan : Json) : Op.Reads (recheck cfg pool plan p) := by
  have hresolve : Op.Reads (resolveExistingWorkspace cfg p.vmid) := by
    refine Op.Reads.guard fun _ => Op.Reads.bind reads_clusterVmResources fun rs => ?_
    split
    · exact Op.Reads.throw
    · next resource _ =>
      have hstatus : Op.Reads (listedStatus resource resource.node p.vmid) := by
        unfold listedStatus
        split
        · exact Op.Reads.pure
        · exact reads_vmStatus _ _
      refine Op.Reads.guard fun _ => Op.Reads.bind hstatus fun status => ?_
      exact Op.Reads.bind (reads_vmConfig _ _) fun c => Op.Reads.ofExcept
  have hpool : Op.Reads (requirePool p.vmid pool) := by
    refine Op.Reads.bind (asks_clusterVmMaps rfl) fun maps => ?_
    split
    · exact Op.Reads.throw
    · exact Op.Reads.ite Op.Reads.throw Op.Reads.pure
  have hpower : Op.Reads (powerState p.source p.vmid) :=
    Op.Reads.bind (reads_vmStatus _ _) fun status => Op.Reads.guard fun _ => Op.Reads.pure
  refine Op.Reads.bind hresolve fun info => Op.Reads.bind hpool fun _ => Op.Reads.guard fun _ =>
    Op.Reads.guard fun _ => ?_
  exact Op.Reads.bind hpower fun status => Op.Reads.ite Op.Reads.throw Op.Reads.pure

theorem wpe_recheck {cfg : Config} {pool : Text} {plan : Json} (hh : h.any (isShutdown p.vmid) = false) :
    wpe anything (Placed p) (recheck cfg pool plan p) h (fun _ t => t.any (isShutdown p.vmid) = false)
      fun _ t => t.any (isShutdown p.vmid) = false := by
  refine wpe_inv (reads_recheck cfg pool plan) hh (fun s q r t hq hs hn =>
    ?_) fun s q hq _ node vmid form heq => ?_
  · obtain rfl := hn
    rw [List.any_cons, hs, Bool.or_false]
    cases q with
    | post path form => cases hq
    | _ => rfl
  · rw [heq] at hq
    cases hq

theorem wpe_migrateWorkspace {cfg : Config} {pool : Text} {plan : Json} (hplan : planned plan = .ok p)
    (hp : p.wasRunning = true) (hw : w.log = []) :
    wpe (net p) (Guard p) (migrateWorkspace cfg pool plan) w (fun _ t => Moved cfg p t.log)
      fun _ t => t.log.any (isShutdown p.vmid) = true → Restarted p t.log := by
  have hnone {t : World} (ht : t.log.any (isShutdown p.vmid) = false)
      (hany : t.log.any (isShutdown p.vmid) = true) :
      Restarted p t.log := by
    rw [ht] at hany
    cases hany
  have hstart : w.log.any (isShutdown p.vmid) = false := by rw [hw]; rfl
  unfold migrateWorkspace
  rw [hplan]
  refine wpe_bind.mpr (wpe_pure
    (wpe_bind.mpr (wpe_mono (wpe_api (wpe_recheck hstart)) (fun _ t ht => ?_) fun _ _ ht => hnone ht)))
  refine wpe_bind.mpr (wpe_mono (wpe_other nofun fun hn => hn.2.1) (fun r u hu => ?_) fun _ _ hu => hu.elim)
  rw [← hu] at ht
  cases r with
  | error e => exact wpe_throw (hnone ht)
  | ok a =>
    have hquiet : Unlisted p.vmid u.log := fun hany => absurd hany (by rw [ht]; exact Bool.false_ne_true)
    refine wpe_bind.mpr (wpe_pure
      (wpe_bind.mpr (wpe_mono (wpe_stepsOrRecover hp hquiet) ?_ fun _ _ hv => hv)))
    exact fun _ _ hv => wpe_pure hv

/-- A VM that ran before and is stopped now was shut down. -/
theorem shut_down {α : Type} {q : Prog Ask Ask.Answer α} {t : World} {o : Option α}
    (hrun : Exec (net p) q w o t) (hw : w.power = .running) (ht : t.power = .stopped) :
    t.log.any (isShutdown p.vmid) = true := by
  have hasked : wp (net p) (fun _ _ => True) q w fun _ _ => True :=
    wp_inv (J := fun _ => True) (asks_true q) trivial (fun _ _ _ _ _ _ _ => trivial)
      (fun _ _ _ _ => trivial) fun _ _ _ => trivial
  refine hrun.inv (J := fun u => u.power = .stopped → u.log.any (isShutdown p.vmid) = true) hasked
    (fun hs => absurd (hw.symm.trans hs) (by decide)) ?_ ht
  rintro s q r u hs - ⟨⟨hpower, -⟩, hlog⟩ hu
  have hmono : s.log.any (isShutdown p.vmid) = true → u.log.any (isShutdown p.vmid) = true := by
    intro hany
    cases q with
    | api c => rw [hlog.1, List.any_cons, hany, Bool.or_true]
    | migrate source vmid target storage => rwa [hlog]
    | capacity source target vmid storage => rwa [hlog.1]
    | guestHome node vmid user homeLabel => rwa [hlog.1]
  rcases hpower with hsame | ⟨-, hany⟩ | ⟨hrunning, -⟩
  · exact hmono (hs (hsame.symm.trans hu))
  · exact hany
  · exact absurd (hrunning.symm.trans hu) (by decide)

/-- Every call asked under the guard was asked where the calls before it allow it. -/
theorem placed_all {α : Type} {q : Prog Ask Ask.Answer α} {post : α → World → Prop} {t : World} {o : Option α}
    (hrun : Exec (net p) q w o t) (hq : wp (net p) (Guard p) q w post) (hw : w.log = []) :
    ∀ newer e older, t.log = newer ++ e :: older → Placed p older e.q := by
  refine hrun.inv (J := fun u => ∀ newer e older, u.log = newer ++ e :: older → Placed p older e.q) hq ?_ ?_
  · intro newer e older heq
    rw [hw] at heq
    cases newer <;> cases heq
  · rintro s q r u hs hguard ⟨-, hlog⟩ newer e older heq
    have hsame (hlog : u.log = s.log) : Placed p older e.q := hs newer e older (hlog.symm.trans heq)
    cases q with
    | api c =>
      rw [hlog.1] at heq
      cases newer with
      | nil =>
        obtain ⟨rfl, rfl⟩ := List.cons.inj heq
        exact hguard c rfl
      | cons x newer => exact hs newer e older (List.cons.inj heq).2
    | migrate source vmid target storage => exact hsame hlog
    | capacity source target vmid storage => exact hsame hlog.1
    | guestHome node vmid user homeLabel => exact hsame hlog.1

/-- A workspace planned as running is started only where it was last listed. A run that ends well has it
on the target, with its home and its power state. One that fails starts it again where it was left off,
if it was shown there stopped after the shutdown. -/
theorem migrate_recovers {cfg : Config} {pool : Text} {plan : Json} (hplan : planned plan = .ok p)
    (hp : p.wasRunning = true) {t : World} {o : Option (Except CoreError Json)} (hw : w.log = [])
    (hrun : Exec (net p) (migrateWorkspace cfg pool plan).run w o t) :
    (∀ newer e older, t.log = newer ++ e :: older → Placed p older e.q) ∧
      (∀ result, o = some (.ok result) → Moved cfg p t.log) ∧
      ∀ error, o = some (.error error) → (t.log.any (isShutdown p.vmid) = true →
        ShownStopped p.vmid p.source t.log) →
        Recovered p w t := by
  have hwp := @wpe_migrateWorkspace p w cfg pool plan hplan hp hw
  refine ⟨placed_all hrun hwp hw, ?_, ?_⟩
  · rintro result rfl
    have hmoved := wp_done hwp hrun
    exact hmoved
  · rintro error rfl hshown hleft
    have hany := shut_down hrun hleft.running hleft.stopped
    have hrestarted := wp_done hwp hrun
    exact hrestarted hany (hshown hany)

end

/-! ## A list that lags -/

def samplePlan : Json :=
  .obj [("vmid", .int 101), ("source_node", .str "pve1"), ("target_node", .str "pve2"),
    ("target_storage", .str "local"),
    ("home_label", .str "HS_HOME_101"), ("home_volume", .str "local:vm-101-disk-1"),
      ("status", .str "running")]

def samplePlanned : Planned := ⟨101, "pve1", "pve2", "local", "HS_HOME_101", "running"⟩

def sampleEntries : List (Text × Json) :=
  [("name", .str "web"), ("tags", .str "homestack-ws"), ("scsi0", .str "local:vm-101-disk-0,size=8G"),
    ("scsi1", .str "local:vm-101-disk-1,serial=HS_HOME_101,size=32G")]

def Power.text : Power → Text
  | .running => "running"
  | .stopped => "stopped"

/-- The VM as it is, and as it is listed. -/
def sampleGet (power listed : Power) : Path → Json
  | .clusterResources =>
    .arr [.obj [("type", .str "qemu"), ("vmid", .int 101), ("node", .str "pve1"),
      ("status", .str listed.text),
      ("pool", .str "homestack")]]
  | .config .. => .obj sampleEntries
  | .statusCurrent .. => .obj [("status", .str power.text)]
  | .taskStatus .. => .obj [("status", .str "stopped"), ("exitstatus", .str "OK")]
  | _ => .null

/-- The list shows the VM as it is, or still running. A shutdown takes effect at once, a start does not,
and the migration is refused. -/
def sampleStep (lags : Bool) (w : World) : (q : Ask) → q.Answer × World
  | .api (.get path query) =>
    let r : Call.Answer (.get path query) := .ok (sampleGet w.power (if lags then .running else w.power) path)
    (r, { w with log := ⟨.get path query, r⟩ :: w.log })
  | .api (.post path form) =>
    let r : Call.Answer (.post path form) := .ok (.str "UPID:pve1:1:2:3:qmshutdown:101:root@pam:")
    let power := match path with
      | .statusShutdown _ v => if v = 101 then .stopped else w.power
      | _ => w.power
    (r, { w with log := ⟨.post path form, r⟩ :: w.log, power := power })
  | .api (.put path form) => (.ok .null, { w with log := ⟨.put path form, .ok .null⟩ :: w.log })
  | .api (.delete path query) => (.ok .null, { w with log := ⟨.delete path query, .ok .null⟩ :: w.log })
  | .api .rounds => ((1 : Nat), { w with log := ⟨.rounds, (1 : Nat)⟩ :: w.log })
  | .api (.running inst job) => (false, { w with log := ⟨.running inst job, false⟩ :: w.log })
  | .api (.probe what) => (.ok none, { w with log := ⟨.probe what, .ok none⟩ :: w.log })
  | .api .uuid => (([] : Text), { w with log := ⟨.uuid, ([] : Text)⟩ :: w.log })
  | .migrate .. => (.error (.api 500 []), w)
  | .capacity .. => (.ok (), w)
  | .guestHome .. => (.ok (), w)

def sampleStart : World := ⟨[], .running, "pve1", false⟩

theorem sampleStep_next (lags : Bool) (w : World) (q : Ask) :
    (net samplePlanned).next w q (sampleStep lags w q).1 (sampleStep lags w q).2 := by
  have hstay {u : World} (hpower : u.power = w.power) (hnode : u.node = w.node) : moves samplePlanned w u :=
    ⟨Or.inl hpower, Or.inl hnode⟩
  cases q with
  | api c =>
    refine ⟨?_, ?_⟩
    · cases c with
      | post path form =>
        cases path with
        | statusShutdown node v =>
          refine ⟨?_, Or.inl rfl⟩
          by_cases hv : v = 101
          · refine Or.inr (Or.inl ⟨if_pos hv, ?_⟩)
            exact List.any_eq_true.mpr ⟨_, List.mem_cons_self, decide_eq_true hv⟩
          · exact Or.inl (if_neg hv)
        | _ => exact hstay rfl rfl
      | _ => exact hstay rfl rfl
    · cases c <;> exact ⟨rfl, id⟩
  | migrate source vmid target storage => exact ⟨hstay rfl rfl, rfl⟩
  | capacity source target vmid storage => exact ⟨hstay rfl rfl, rfl, id⟩
  | guestHome node vmid user homeLabel => exact ⟨hstay rfl rfl, rfl, id⟩

/-- The run of the sample, and how it ends. -/
def sampleRun (lags : Bool) : Except CoreError Json × World :=
  play (sampleStep lags) (migrateWorkspace sampleConfig "homestack" samplePlan).run sampleStart

theorem sample_exec (lags : Bool) :
    Exec (net samplePlanned) (migrateWorkspace sampleConfig "homestack" samplePlan).run sampleStart
      (some (sampleRun lags).1)
      (sampleRun lags).2 :=
  exec_play (sampleStep_next lags) _ _

theorem sample_fails (lags : Bool) : ∃ error, (sampleRun lags).1 = .error error := by
  have hfails : ∀ lags, (sampleRun lags).1.toOption.isNone = true := by decide +kernel
  cases h : (sampleRun lags).1 with
  | error e => exact ⟨e, rfl⟩
  | ok v =>
    have hv := hfails lags
    rw [h] at hv
    cases hv

theorem sample_left (lags : Bool) : LeftOff samplePlanned sampleStart (sampleRun lags).2 := by
  revert lags
  have h : ∀ lags, (sampleRun lags).2.power = .stopped ∧ (sampleRun lags).2.node = "pve1" ∧
      (sampleRun lags).2.migrating = false := by
    decide +kernel
  exact fun lags => ⟨rfl, (h lags).1, (h lags).2.1, (h lags).2.2⟩

/-- The shutdown worked, but the list still shows the VM running: the run fails and leaves it stopped
where it was. -/
theorem lagging_list_not_recovered : ∃ t error,
    Exec (net samplePlanned) (migrateWorkspace sampleConfig "homestack" samplePlan).run sampleStart
      (some (.error error)) t ∧
      LeftOff samplePlanned sampleStart t ∧ (∀ e ∈ t.log, isStart 101 "pve1" e = false) ∧
        ¬ Recovered samplePlanned sampleStart t := by
  obtain ⟨error, herror⟩ := sample_fails true
  have hrun := sample_exec true
  rw [herror] at hrun
  have hnone : ∀ e ∈ (sampleRun true).2.log, isStart 101 "pve1" e = false := by
    have hall : (sampleRun true).2.log.all (fun e => !isStart 101 "pve1" e) = true := by decide +kernel
    simpa using hall
  refine ⟨_, error, hrun, sample_left true, hnone, fun hrecovered => ?_⟩
  obtain ⟨e, he, hstart⟩ := hrecovered (sample_left true)
  have hfalse := hnone e (List.takeWhile_subset _ he)
  rw [show isStart 101 "pve1" e = true from hstart] at hfalse
  cases hfalse

/-- The migration is refused after the shutdown, and the VM is started again. -/
theorem refused_migration_recovered : ∃ t error,
    Exec (net samplePlanned) (migrateWorkspace sampleConfig "homestack" samplePlan).run sampleStart
      (some (.error error)) t ∧
      LeftOff samplePlanned sampleStart t ∧ ∃ e ∈ sinceShutdown 101 t.log, isStart 101 "pve1" e = true := by
  obtain ⟨error, herror⟩ := sample_fails false
  have hrun := sample_exec false
  rw [herror] at hrun
  have hshown : ShownStopped 101 "pve1" (sampleRun false).2.log := by
    have h : (lastListed 101 (sinceShutdown 101 (sampleRun false).2.log)).any
        (fun r => decide (r.node = ("pve1" : Text) ∧ r.status ≠ some ("running" : Text))) = true := by
          decide +kernel
    cases hr : lastListed 101 (sinceShutdown 101 (sampleRun false).2.log) with
    | none =>
      rw [hr] at h
      cases h
    | some r =>
      rw [hr] at h
      exact ⟨r, hr, of_decide_eq_true h⟩
  have hplan : planned samplePlan = .ok samplePlanned := rfl
  have hrecovered := (migrate_recovers hplan rfl rfl hrun).2.2 error rfl fun _ => hshown
  exact ⟨_, error, hrun, sample_left false, hrecovered (sample_left false)⟩

end HomeStack.Migrate

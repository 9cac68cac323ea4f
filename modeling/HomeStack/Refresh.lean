import HomeStack.Lib.Chars
import HomeStack.VmCalls
import HomeStack.Workspace
import HomeStack.WorkspaceDestroy

/-! Refreshing a workspace's root and recovering an interrupted refresh
(`refresh.rs`): where the journal's volumes are, what agrees with a journal, and
the steps with their Proxmox calls. -/

namespace HomeStack.Refresh

open Op

/-! ## Where the journal's volumes are -/

inductive Place
  | root
  | staging
  | unused (key : Text)
  /-- Attached in a slot refresh does not use. -/
  | other (slots : Text)
  | absent
  deriving DecidableEq, Repr

/-- The keys that hold a volume, the description apart. -/
def slotsOf (vmCfg : VmConfig) (volume : Text) : List Text :=
  (vmCfg.toList.filter fun e => e.1 ≠ "description".toList ∧ diskVolume e.2 = volume).map Prod.fst

def placeOf (journal : Journal) (vmCfg : VmConfig) (volume : Text) : Place :=
  match slotsOf vmCfg volume with
  | [] => .absent
  | [slot] =>
    if slot = journal.rootDisk then .root
    else if slot = journal.stagingSlot then .staging
    else if isUnusedKey slot ∨ Text.startsWith pendingUnused slot then .unused slot
    else .other slot
  | slots => .other (List.intercalate (", " : Text) slots)

def describe : Place → Text
  | .root => "the root slot"
  | .staging => "the staging slot"
  | .unused key => key
  | .other slots => "slot " ++ slots
  | .absent => "not in the VM's config"

def stagedVolume (journal : Journal) (vmCfg : VmConfig) : Option Text :=
  if journal.newRootVolume ≠ [] then some journal.newRootVolume
  else
    (vmCfg[journal.stagingSlot]?.map diskVolume).filter fun volume =>
      volume ≠ [] ∧ volume ≠ journal.oldRootVolume ∧ volume ≠ journal.homeVolume

def homeMismatch (journal : Journal) (vmCfg : VmConfig) : Option Text :=
  let home := vmCfg[journal.homeDisk]?.getD []
  let volume := diskVolume home
  let serial := diskOption home "serial"
  if volume ≠ journal.homeVolume ∨ serial ≠ some journal.homeLabel then
    some (journal.homeDisk ++ " holds " ++ pyRepr (some volume) ++ " with serial " ++ pyRepr serial
      ++ "; the journal names " ++ pyRepr (some journal.homeVolume) ++ " with serial "
      ++ pyRepr (some journal.homeLabel))
  else none

def Place.isUnused : Place → Bool
  | .unused _ => true
  | _ => false

/-- Whether the places of the old and the new root agree with the journal. -/
def placesOk (journal : Journal) (root : Text) (old new : Place) : Bool × Bool :=
  if journal.rollingBack then
    (old = .root || old.isUnused, new = .root || new = .staging || new = .absent || new.isUnused)
  else
    match journal.phase with
    | .prepared => (old = .root, new = .absent || new = .staging)
    | .imported => (old = .root, new = .staging)
    | .switching =>
      if old = .root then (true, new = .staging || new.isUnused)
      else if new = .root then (old.isUnused, true)
      else (old.isUnused && root.isEmpty, new.isUnused)
    | .switched | .verifying => (old.isUnused, new = .root)
    | .verified => (old.isUnused || old = .absent, new = .root)

def slotVolume (vmCfg : VmConfig) (slot : Text) : Text := (vmCfg[slot]?.map diskVolume).getD []

/-- `journal_mismatches`: every way the VM's config disagrees with the journal's
phase. -/
def journalMismatches (journal : Journal) (node : Text) (vmCfg : VmConfig) : List Text :=
  let old := placeOf journal vmCfg journal.oldRootVolume
  let staged := stagedVolume journal vmCfg
  let new := (staged.map (placeOf journal vmCfg)).getD .absent
  let root := slotVolume vmCfg journal.rootDisk
  let (oldOk, newOk) := placesOk journal root old new
  let what : Text := if journal.rollingBack then "a rollback" else "phase " ++ journal.phase.asStr
  let nodeFound : List Text := if node ≠ journal.node then
    ["the VM is on " ++ pyRepr (some node) ++ ", the journal on " ++ pyRepr (some journal.node)] else []
  let oldFound : List Text := if !oldOk then
    ["the original root " ++ pyRepr (some journal.oldRootVolume) ++ " is " ++ describe old
      ++ ", which does not agree with " ++ what] else []
  let newFound : List Text := if !newOk then
    ["the new root " ++ pyRepr (some (staged.getD "(not recorded)")) ++ " is " ++ describe new
      ++ ", which does not agree with " ++ what] else []
  let rootFound : List Text := if root ≠ [] ∧ root ≠ journal.oldRootVolume ∧ staged ≠ some root then
    ["the root slot " ++ journal.rootDisk ++ " holds " ++ pyRepr (some root) ++
      ", which the journal does not know"]
    else []
  let lockFound : List Text := match vmCfg["lock".toList]?.filter fun lock => !lock.isEmpty with
    | some lock => ["the VM is locked (" ++ lock ++ ")"]
    | none => []
  nodeFound ++ (homeMismatch journal vmCfg).toList ++ oldFound ++ newFound ++ rootFound ++ lockFound

def unusedKeyOf (vmCfg : VmConfig) (volume : Text) : Option Text :=
  (vmCfg.toList.find? fun e => isUnusedKey e.1 ∧ diskVolume e.2 = volume).map Prod.fst

/-- `free_staging_slot`: the highest `scsiN` that is free. -/
def freeStagingSlot (vmCfg : VmConfig) : Except CoreError Text :=
  match (((List.range 30).map fun n => ("scsi" ++ Text.ofNat (n + 1) : Text)).reverse).find? fun key =>
    !vmCfg.contains key with
  | some key => .ok key
  | none => .error (.failed "VM has no free SCSI slot for a staged root")

/-- The options of Gold's root that a root keeps. -/
def attachedOptions : List Text := ["iothread", "discard", "ssd", "cache", "aio", "backup", "replicate", "ro"]

def rootAttachmentSpec (volume goldDiskConfig : Text) : Text :=
  List.intercalate ("," : Text) (volume :: attachedOptions.filterMap fun key =>
    (diskOption goldDiskConfig key).map fun value => key ++ "=" ++ value)

def bootOrderContainsDisk (boot disk : Text) : Bool :=
  match ((boot.splitOn ',').filterMap (Text.splitOnce "=")).find? fun f => f.1 = "order".toList with
  | some (_, order) => (order.splitOn ';').contains disk
  | none => false

def isMac (text : Text) : Bool :=
  let parts := text.splitOn ':'
  text.length == 17 && parts.length == 6 && parts.all fun part => part.length == 2 && part.all Text.isHexDigit

def extractMac (net0 : Text) : Option Text :=
  let model := (net0.splitOn ',').findSome? fun item => do
    let (key, value) ← Text.splitOnce "=" (Text.trim item)
    if ["virtio".toList, "e1000".toList, "rtl8139".toList].contains key && isMac value then
      some value else none
  let any := (net0.splitOnP fun c => !(Text.isHexDigit c || c == ':')).find? isMac
  (model.or any).map fun mac => mac.map Char.toUpper

def requireHome (journal : Journal) (vmCfg : VmConfig) : Except CoreError Unit :=
  match homeMismatch journal vmCfg with
  | some _ => .error (.failed ("Persistent home identity changed during refresh of VM " ++
      Text.ofNat journal.vmid
      ++ "; refusing further disk changes"))
  | none => .ok ()

def rootOf (cfg : Config) (vmCfg : VmConfig) : Text := slotVolume vmCfg cfg.rootDisk

/-! ## Proxmox calls of the steps -/

section Steps

variable (B : Base64) (S : Serde Journal) (cfg : Config) (node : Text) (vmid : Nat)

def set (vmCfg : VmConfig) (values : Form) (what : Text) : Op VmConfig := do
  let form := match vmCfg["digest".toList]?.filter fun d => !d.isEmpty with
    | some digest => values ++ [(("digest" : Text), digest)]
    | none => values
  postTask (.config node vmid) form what 3600
  effectiveConfig node vmid

def unlink (slot volume : Text) (force : Bool) : Op VmConfig := do
  let found := slotVolume (← effectiveConfig node vmid) slot
  if found ≠ volume then
    throw (.failed ("Refusing to unlink " ++ slot ++ " of VM " ++ Text.ofNat vmid ++
      ": it holds " ++ pyRepr (some found)
      ++ ", expected " ++ pyRepr (some volume)))
  let form : Form := (("idlist" : Text), slot) :: if force then [(("force" : Text), ("1" : Text))] else []
  let _ ← retryWhileLocked (put (.unlink node vmid) form)
  effectiveConfig node vmid

def shutdown : Op Unit := shutdownVm node vmid shutdownSecs

/-! ## The steps of a refresh -/

/-- What `replace` reads of its plan. -/
structure Plan where
  name : Text
  ip : Text
  cidr : Nat
  gateway : Text
  homeLabel : Text
  rootStorage : Text
  goldRoot : Text
  goldDiskConfig : Text
  initial : PowerState
  homeVolume : Option Text

def readPlan (plan : Json) : Except CoreError Plan := do
  let name ← planText plan "name"
  let ip ← planText plan "ip"
  let cidr ← number plan "cidr"
  if cidr ≥ 256 then throw (.invalid "The plan's CIDR is out of range")
  let gateway ← planText plan "gateway"
  let homeLabel ← planText plan "home_label"
  let rootStorage ← planText plan "root_storage"
  let goldRoot ← planText plan "gold_root_volume"
  let goldDiskConfig ← planText plan "gold_root_disk_config"
  match PowerState.parse (← planText plan "status") with
  | none =>
    throw (.failed ("Workspace VM " ++ Text.ofNat vmid ++ " has unsupported pre-refresh power state "
      ++ pyRepr ((plan.get "status").bind Json.asStr)))
  | some initial =>
    return ⟨name, ip, cidr, gateway, homeLabel, rootStorage, goldRoot, goldDiskConfig, initial,
      (plan.get "home_volume").bind Json.asStr⟩

def newJournal (plan : Plan) (current : ExistingWorkspace) (id staging : Text) : Journal where
  version := Journal.journalVersion
  transactionId := id
  phase := .prepared
  vmid := vmid
  name := plan.name
  node := node
  initialStatus := plan.initial
  oldRootSpec := current.vmConfig[cfg.rootDisk]?.getD []
  oldRootVolume := current.rootVolume
  rootDisk := cfg.rootDisk
  stagingSlot := staging
  goldRootDiskConfig := plan.goldDiskConfig
  newRootVolume := []
  newUnusedKey := []
  oldUnusedKey := []
  homeVolume := current.homeVolume
  homeLabel := plan.homeLabel
  homeDisk := cfg.homeDisk
  restore := .ofList (Journal.restoredOptions.map fun key => (key, current.vmConfig[key]?.getD []))
  rollingBack := false

def checkWorkspace (plan : Plan) (current : ExistingWorkspace) : Except CoreError Unit := do
  requireRefreshUnlocked vmid current.vmConfig
  if (← readJournal B S cfg vmid current.vmConfig).isSome then
    throw (.refused ("VM " ++ Text.ofNat vmid ++ " has a refresh journal now; plan again to recover it"))
  if current.status ≠ plan.initial.asStr then
    throw (.failed "Workspace power state changed after refresh confirmation")
  if some current.homeVolume ≠ plan.homeVolume then
    throw (.failed "Persistent home identity changed after refresh confirmation")
  if !bootOrderContainsDisk (current.vmConfig["boot".toList]?.getD []) cfg.rootDisk then
    throw (.failed ("Workspace boot order does not include " ++ cfg.rootDisk))
  match current.vmConfig["net0".toList]?.filter fun n => !n.isEmpty with
  | none => throw (.failed ("Workspace VM " ++ Text.ofNat vmid ++ " has no net0"))
  | some net0 =>
    if (extractMac net0).isNone then
      throw (.failed ("Workspace VM " ++ Text.ofNat vmid ++ " net0 has no MAC address"))

/-- `replace` up to its first journal: the journal and the configuration after it. -/
def prepare (plan : Plan) : Op (Journal × VmConfig × ExistingWorkspace) := do
  let current ← resolveExistingWorkspace cfg vmid
  Op.ofExcept (checkWorkspace B S cfg vmid plan current)
  let staging ← Op.ofExcept (freeStagingSlot current.vmConfig)
  let journal := newJournal cfg node vmid plan current (← call .uuid) staging
  Op.ofExcept (validateJournal cfg journal)
  let _ ← Op.ofExcept (← call (.probe (.space node plan.rootStorage plan.goldDiskConfig)))
  let vmCfg ← writeJournal B S node vmid current.vmConfig (some journal)
  return (journal, vmCfg, current)

/-- "Import Gold root" -/
def importRoot (plan : Plan) (journal : Journal) (vmCfg : VmConfig) : Op Journal := do
  let vmCfg ← set node vmid vmCfg
    [(journal.stagingSlot, plan.rootStorage ++ ":0,import-from=" ++ plan.goldRoot)]
    ("Copying Gold's root into VM " ++ Text.ofNat vmid)
  Op.ofExcept (requireHome journal vmCfg)
  Op.ofExcept (requireRefreshUnlocked vmid vmCfg)
  let new := slotVolume vmCfg journal.stagingSlot
  if new = [] ∨ new = journal.oldRootVolume ∨ new = journal.homeVolume then
    throw (.failed "Imported root did not produce a distinct volume")
  let journal := { journal with newRootVolume := new, phase := .imported }
  let _ ← writeJournal B S node vmid vmCfg (some journal)
  return journal

/-- The key that keeps a volume after an unlink. -/
def keptKey (vmCfg : VmConfig) (volume message : Text) : Op Text :=
  match unusedKeyOf vmCfg volume with
  | some key => pure key
  | none => throw (.failed message)

/-- "Switch root disks" -/
def switchRoots (plan : Plan) (journal : Journal) : Op (Journal × VmConfig) := do
  let vmCfg ← effectiveConfig node vmid
  Op.ofExcept (requireRefreshUnlocked vmid vmCfg)
  Op.ofExcept (requireHome journal vmCfg)
  if rootOf cfg vmCfg ≠ journal.oldRootVolume then
    throw (.failed "Root identity changed before refresh switch")
  let new := journal.newRootVolume
  let journal := { journal with phase := .switching }
  let _ ← writeJournal B S node vmid vmCfg (some journal)
  let vmCfg ← unlink node vmid journal.stagingSlot new false
  let key ← keptKey vmCfg new "Proxmox did not keep the imported root as an unused disk"
  let journal := { journal with newUnusedKey := key }
  let _ ← writeJournal B S node vmid vmCfg (some journal)
  let vmCfg ← unlink node vmid cfg.rootDisk journal.oldRootVolume false
  let key ← keptKey vmCfg journal.oldRootVolume "Proxmox did not retain the original root as an unused disk"
  let journal := { journal with oldUnusedKey := key }
  let vmCfg ← writeJournal B S node vmid vmCfg (some journal)
  let vmCfg ← set node vmid vmCfg [(cfg.rootDisk, rootAttachmentSpec new plan.goldDiskConfig)]
    ("Attaching the new root of VM " ++ Text.ofNat vmid)
  if rootOf cfg vmCfg ≠ new then throw (.failed "New root was not attached to the configured root slot")
  if (unusedKeyOf vmCfg new).isSome then
    throw (.failed "New root is both attached and retained as an unused disk")
  Op.ofExcept (requireHome journal vmCfg)
  let journal := { journal with phase := .switched }
  let vmCfg ← writeJournal B S node vmid vmCfg (some journal)
  return (journal, vmCfg)

/-- "Cloud-Init" -/
def configureCloudInit (plan : Plan) (boot : Text) (vmCfg : VmConfig) : Op VmConfig := do
  let vmCfg ← set node vmid vmCfg ((("boot" : Text), boot) :: keepSettings cfg plan.ip plan.cidr plan.gateway)
    ("Configuring Cloud-Init of VM " ++ Text.ofNat vmid)
  Op.ofExcept (WorkspaceDestroy.verifyWorkspaceRoleTags vmid vmCfg)
  return vmCfg

/-- "Boot verification" -/
def verifyBoot (plan : Plan) (journal : Journal) (vmCfg : VmConfig) : Op Journal := do
  let journal := { journal with phase := .verifying }
  let _ ← writeJournal B S node vmid vmCfg (some journal)
  startVm node vmid
  let _ ← Op.ofExcept (← call
      (.probe (.guest node vmid plan.name (plan.ip ++ "/" ++ Text.ofNat plan.cidr) plan.homeLabel)))
  return journal

/-- "Delete previous root" -/
def deletePrevious (journal : Journal) : Op Unit := do
  let vmCfg ← effectiveConfig node vmid
  let journal := { journal with phase := .verified }
  let vmCfg ← writeJournal B S node vmid vmCfg (some journal)
  Op.ofExcept (requireHome journal vmCfg)
  let key ← keptKey vmCfg journal.oldRootVolume
    ("Cannot safely delete volume " ++ pyRepr (some journal.oldRootVolume) ++
      ": its unused reference is missing")
  let vmCfg ← unlink node vmid key journal.oldRootVolume true
  let _ ← writeJournal B S node vmid vmCfg none

/-- `replace` after its first journal, up to the removal of the journal. -/
def replaceSteps (plan : Plan) (journal : Journal) (vmCfg : VmConfig) (current : ExistingWorkspace) :
    Op Journal := do
  let journal ← importRoot B S node vmid plan journal vmCfg
  if plan.initial = .running then shutdown node vmid
  let (journal, vmCfg) ← switchRoots B S cfg node vmid plan journal
  let vmCfg ← configureCloudInit cfg node vmid plan (current.vmConfig["boot".toList]?.getD []) vmCfg
  let journal ← verifyBoot B S node vmid plan journal vmCfg
  if plan.initial = .stopped then shutdown node vmid
  deletePrevious B S node vmid journal
  return journal

/-- The end of `replace`, without a journal. -/
def finishReplace (plan : Plan) : Op Unit := do
  let finalStatus ← vmStatus node vmid
  if finalStatus ≠ plan.initial.asStr then
    throw (.failed ("Refresh completed with power state " ++ pyRepr (some finalStatus) ++ ", expected "
      ++ pyRepr (some plan.initial.asStr)))

/-! ## Recovery -/

/-- "forced the new root", and the unused volumes that stay. -/
structure Forced where
  mismatches : List Text
  kept : List Text
  cloudId : Option Text

inductive Recovery
  | completedCleanup
  | rolledBack
  | forced (forced : Forced)

/-- The `recovery` field of the result. -/
def Recovery.toText : Recovery → Text
  | .completedCleanup => "completed verified cleanup"
  | .rolledBack => "rolled back to original root"
  | .forced _ => "forced the new root"

def removeJournal : Op VmConfig := do writeJournal B S node vmid (← effectiveConfig node vmid) none

/-- The slots other than `unusedN` that hold the new root. -/
def attachedSlots (vmCfg : VmConfig) (new : Text) : List Text :=
  (vmCfg.toList.filter fun e => e.1 ≠ "description".toList ∧ !isUnusedKey e.1 ∧
    diskVolume e.2 = new).map Prod.fst

/-- The unlinks of `force_new_root`, one after the other. -/
def unlinkAll (volume : Text) : List Text → VmConfig → Op VmConfig
  | [], vmCfg => pure vmCfg
  | slot :: slots, _ => do unlinkAll volume slots (← unlink node vmid slot volume false)

def unlinkRoot (root : Text) (vmCfg : VmConfig) : Op VmConfig :=
  if root.isEmpty then pure vmCfg else unlink node vmid cfg.rootDisk root false

def attachNew (journal : Journal) (new : Text) (vmCfg : VmConfig) : Op VmConfig := do
  let root := rootOf cfg vmCfg
  if root = new then return vmCfg
  let vmCfg ← unlinkRoot cfg node vmid root vmCfg
  let vmCfg ← unlinkAll node vmid new (attachedSlots vmCfg new) vmCfg
  set node vmid vmCfg [(cfg.rootDisk, rootAttachmentSpec new journal.goldRootDiskConfig)]
    ("Attaching the new root of VM " ++ Text.ofNat vmid)

/-- Apply what Proxmox left pending. -/
def applyPendingChanges (journal : Journal) (vmCfg : VmConfig) : Op VmConfig :=
  if hasPending vmCfg then writeJournal B S node vmid vmCfg (some journal) else pure vmCfg

def forcedSettings (journal : Journal) (vmCfg : VmConfig) : Except CoreError (Text × Nat × Form) := do
  let ipconfig := ((journal.restore["ipconfig0".toList]?.filter fun v =>
    !v.isEmpty).or vmCfg["ipconfig0".toList]?).getD []
  let (ip, cidr, gateway) ← parseIpconfig0 ipconfig
  let boot : Form := match journal.restore["boot".toList]?.filter fun b => !b.isEmpty with
    | some boot => [(("boot" : Text), boot)]
    | none => []
  return (ip, cidr, boot ++ keepSettings cfg ip cidr gateway)

def forceNewRoot (journal : Journal) (vmCfg : VmConfig) (mismatches : List Text) : Op Recovery := do
  if let some home := homeMismatch journal vmCfg then
    throw (.failed ("force does not apply: the persistent home is not the journal's (" ++ home ++
      "); nothing was changed"))
  if node ≠ journal.node then
    throw (.failed ("force does not apply: VM " ++ Text.ofNat vmid ++
      " is not on the journal's node; nothing was changed"))
  match stagedVolume journal vmCfg with
  | none => throw (.failed "force does not apply: the journal names no new root; nothing was changed")
  | some new =>
    if placeOf journal vmCfg new = .absent then
      throw (.failed ("force does not apply: the new root " ++ pyRepr (some new)
        ++ " is not in the VM's config; nothing was changed"))
    if (← vmStatus node vmid) = "running" then shutdown node vmid
    let vmCfg ← applyPendingChanges B S node vmid journal (← effectiveConfig node vmid)
    let vmCfg ← attachNew cfg node vmid journal new vmCfg
    if rootOf cfg vmCfg ≠ new then throw (.failed "New root was not attached to the configured root slot")
    let (ip, cidr, settings) ← Op.ofExcept (forcedSettings cfg journal vmCfg)
    let _ ← set node vmid vmCfg settings ("Configuring Cloud-Init of VM " ++ Text.ofNat vmid)
    startVm node vmid
    let cloudId ← Op.ofExcept
      (← call (.probe (.guest node vmid journal.name (ip ++ "/" ++ Text.ofNat cidr) journal.homeLabel)))
    if journal.initialStatus = .stopped then shutdown node vmid
    let vmCfg ← effectiveConfig node vmid
    let _ ← writeJournal B S node vmid vmCfg none
    let kept := (vmCfg.toList.filter fun e => isUnusedKey e.1).map fun e => e.1 ++ "=" ++ diskVolume e.2
    return .forced ⟨mismatches, kept, cloudId⟩

/-- The cleanup that a verified journal still needs. -/
def finishVerified (journal : Journal) : Op Recovery := do
  let vmCfg ← effectiveConfig node vmid
  if rootOf cfg vmCfg ≠ journal.newRootVolume then
    throw (.failed "Verified refresh journal does not match the attached root")
  if let some key := unusedKeyOf vmCfg journal.oldRootVolume then
    let _ ← unlink node vmid key journal.oldRootVolume true
  if journal.initialStatus = .running then startVm node vmid
  let _ ← removeJournal B S node vmid
  return .completedCleanup

def unlinkNewRoot (journal : Journal) (vmCfg : VmConfig) : Op VmConfig := do
  let new := journal.newRootVolume
  if new ≠ [] ∧ rootOf cfg vmCfg = new then
    let vmCfg ← unlink node vmid cfg.rootDisk new false
    Op.ofExcept (requireHome journal vmCfg)
    return vmCfg
  else return vmCfg

def reattachOld (journal : Journal) (vmCfg : VmConfig) : Op VmConfig := do
  let attached := rootOf cfg vmCfg
  if attached ≠ [] ∧ attached ≠ journal.oldRootVolume then
    throw (.failed ("Refresh recovery found unexpected root volume " ++ pyRepr (some attached)))
  if attached = [] then
    if (unusedKeyOf vmCfg journal.oldRootVolume).isNone then
      throw (.failed "Refresh recovery cannot find the original root volume")
    set node vmid vmCfg [(cfg.rootDisk, journal.oldRootSpec)]
      ("Re-attaching the original root of VM " ++ Text.ofNat vmid)
  else return vmCfg

def newSlot (journal : Journal) (vmCfg : VmConfig) : Option Text :=
  let new := journal.newRootVolume
  if new = [] then none
  else if (vmCfg[journal.stagingSlot]?.map diskVolume) = some new then some journal.stagingSlot
  else unusedKeyOf vmCfg new

def deleteNew (journal : Journal) (vmCfg : VmConfig) : Op VmConfig :=
  match newSlot journal vmCfg with
  | some slot => unlink node vmid slot journal.newRootVolume true
  | none => pure vmCfg

def restoreForm (journal : Journal) (vmCfg : VmConfig) : Form :=
  let options := journal.restore.toList
  let deleted := List.intercalate ("," : Text)
    ((options.filter fun o => o.2.isEmpty && vmCfg.contains o.1).map Prod.fst)
  (options.filter fun o => !o.2.isEmpty) ++ if deleted.isEmpty then [] else [(("delete" : Text), deleted)]

def restoreOptions (journal : Journal) (vmCfg : VmConfig) : Op Unit := do
  let form := restoreForm journal vmCfg
  if !form.isEmpty then
    let _ ← set node vmid vmCfg form ("Restoring the options of VM " ++ Text.ofNat vmid)

/-- The rollback is written down before it begins. -/
def beginRollback (journal : Journal) : Op Journal := do
  let vmCfg ← effectiveConfig node vmid
  if journal.rollingBack then return journal
  let journal := { journal with rollingBack := true }
  let _ ← writeJournal B S node vmid vmCfg (some journal)
  return journal

/-- The rollback to the original root. -/
def rollBack (journal : Journal) : Op Recovery := do
  let journal ← beginRollback B S node vmid journal
  let vmCfg ← unlinkNewRoot cfg node vmid journal (← effectiveConfig node vmid)
  let vmCfg ← reattachOld cfg node vmid journal vmCfg
  if rootOf cfg vmCfg ≠ journal.oldRootVolume then
    throw (.failed "Refresh recovery did not restore the original root")
  if (unusedKeyOf vmCfg journal.oldRootVolume).isSome then
    throw (.failed "Original root is both attached and retained as an unused disk")
  Op.ofExcept (requireHome journal vmCfg)
  let vmCfg ← deleteNew node vmid journal vmCfg
  restoreOptions node vmid journal vmCfg
  if journal.initialStatus = .running then startVm node vmid
  let _ ← removeJournal B S node vmid
  return .rolledBack

/-- Changes Proxmox left pending: rewriting the journal is to apply them. -/
def settlePending (journal : Journal) : Op Unit := do
  let vmCfg ← effectiveConfig node vmid
  if hasPending vmCfg then
    let vmCfg ← writeJournal B S node vmid vmCfg (some journal)
    if hasPending vmCfg then
      throw (.failed ("Proxmox did not apply the pending changes of VM " ++ Text.ofNat vmid))

/-- The journal with the staged root it did not record yet. -/
def withStaged (journal : Journal) (vmCfg : VmConfig) : Journal :=
  match stagedVolume journal vmCfg with
  | some staged => if journal.newRootVolume = [] then { journal with newRootVolume := staged } else journal
  | none => journal

/-- A recovery whose state agrees with its journal. -/
def settle (journal : Journal) : Op Recovery := do
  if (← vmStatus node vmid) = "running" then shutdown node vmid
  settlePending B S node vmid journal
  if journal.phase = .verified ∧ journal.rollingBack = false then finishVerified B S cfg node vmid journal
  else rollBack B S cfg node vmid journal

def recover (journal : Journal) (force : Bool) : Op Recovery := do
  Op.ofExcept (validateJournal cfg journal)
  let vmCfg ← effectiveConfig node vmid
  let mismatches := journalMismatches journal node vmCfg
  if !mismatches.isEmpty then
    if force then forceNewRoot B S cfg node vmid journal vmCfg mismatches
    else throw (.failed ("VM " ++ Text.ofNat vmid ++ " does not agree with its refresh journal ("
      ++ List.intercalate ("; " : Text) mismatches ++ "); nothing was changed"))
  else settle B S cfg node vmid (withStaged journal vmCfg)

/-- The journal in the VM's configuration. -/
def currentJournal (missing : CoreError) : Op (VmConfig × Journal) := do
  let vmCfg ← effectiveConfig node vmid
  match ← Op.ofExcept (readJournal B S cfg vmid vmCfg) with
  | some journal => return (vmCfg, journal)
  | none => throw missing

/-- The recovery that `refresh_workspace` tries when `replace` fails. -/
def recoverFailed : Op Recovery := do
  let (_, journal) ← currentJournal B S cfg node vmid (.failed "the journal is gone")
  recover B S cfg node vmid journal false

inductive Outcome
  | refreshed (newRoot : Text)
  | recovered (recovery : Recovery)

/-- `mode="recover"` -/
def recoverMode (plan : Json) : Op Outcome := do
  let vmCfg ← effectiveConfig node vmid
  Op.ofExcept (requireRefreshUnlocked vmid vmCfg)
  match ← Op.ofExcept (readJournal B S cfg vmid vmCfg) with
  | none => throw (.failed ("VM " ++ Text.ofNat vmid ++ " has no refresh journal any more"))
  | some journal =>
    if ((plan.get "journal").bind fun j => (j.get "transaction_id").bind Json.asStr) ≠
      some journal.transactionId then
      throw (.failed ("The refresh journal of VM " ++ Text.ofNat vmid ++
        " changed after the plan; plan again"))
    let recovery ← recover B S cfg node vmid journal (plan.get "force" = some (.bool true))
    let _ ← vmStatus node vmid
    return .recovered recovery

/-- `mode="replace"`, with the recovery of a refresh that failed after its first
journal. -/
def replaceMode (plan : Json) : Op Outcome := do
  let plan ← Op.ofExcept (readPlan vmid plan)
  let (journal, vmCfg, current) ← prepare B S cfg node vmid plan
  match ← Prog.attempt (replaceSteps B S cfg node vmid plan journal vmCfg current) with
  | .ok journal =>
    finishReplace node vmid plan
    return .refreshed journal.newRootVolume
  | .error error =>
    match ← Prog.attempt (recoverFailed B S cfg node vmid) with
    | .ok recovery =>
      throw (.context ("Refresh failed: " ++ error.toText ++
        ". Automatic recovery succeeded: " ++ recovery.toText ++ ".")
        [error])
    | .error recoveryError =>
      throw (.context ("Refresh failed: " ++ error.toText ++
        ". Automatic recovery also failed: " ++ recoveryError.toText
        ++ ". Transaction journal retained in the description of VM " ++ Text.ofNat vmid ++ ".") [error,
          recoveryError])

end Steps

def refreshWorkspace (B : Base64) (S : Serde Journal) (cfg : Config) (pool : Text) (plan : Json) :
    Op Outcome := do
  let vmid ← Op.ofExcept (vmidOf plan)
  let node ← Op.ofExcept (planText plan "node")
  requirePool vmid pool
  if (← Op.ofExcept (planText plan "mode")) = "recover" then recoverMode B S cfg node vmid plan
  else replaceMode B S cfg node vmid plan

end HomeStack.Refresh

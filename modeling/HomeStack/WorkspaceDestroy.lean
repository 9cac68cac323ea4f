import HomeStack.Cluster
import HomeStack.Lifecycle
import HomeStack.VmCalls

/-! The destructive review of a workspace (`workspace_destroy.rs`) and the
destroy operation (`destroy_workspace` of `lifecycle.rs`). -/

namespace HomeStack.WorkspaceDestroy

open Json (field)
open Op

def refused (detail : Text) : CoreError :=
  .refused ("Workspace destroy refused: " ++ detail ++ ". Resolve the condition and review a new plan.")

/-- `text`: a field that is a text and not blank. -/
def text (value : Json) (key : Text) : Except CoreError Text :=
  match (field value key).asStr.filter fun s => !(Text.trim s).isEmpty with
  | some t => .ok t
  | none => .error (refused ("missing " ++ key))

def array (value : Json) (what : Text) : Except CoreError (List Json) :=
  match value.asArray with
  | some items => .ok items
  | none => .error (refused ("incomplete " ++ what ++ " inventory"))

/-! ## Storage definitions -/

/-- The members of a set-valued field in order. -/
def sortedMembers (value : Text) : Text :=
  List.intercalate "," ((value.splitOn ',').insertionSort fun a b => compare a b ≠ .gt)

def sortField (entry : Json) (key : Text) : Json :=
  match entry with
  | .obj entries =>
    match Json.lookup key entries with
    | some (.str value) => .obj (Json.replace key (.str (sortedMembers value)) entries)
    | _ => entry
  | _ => entry

/-- One more storage definition. -/
def addStorage (stores : Std.ExtTreeMap Text Json) (entry : Json) :
    Except CoreError (Std.ExtTreeMap Text Json) := do
  let id ← text entry "storage"
  if id ∈ stores then throw (refused "duplicate storage identity")
  return stores.insert id (sortField (sortField entry "content") "nodes")

def storageIdentity (value : Json) : Except CoreError (Std.ExtTreeMap Text Json) := do
  (← array value "storage configuration").foldlM addStorage ∅

/-! ## Where the VM is -/

def placement (vmid : Nat) (pool : Text) : Op Text := do
  match (← clusterVmResources).filter fun r => r.vmid = vmid with
  | [] => throw (refused "VM missing from cluster inventory")
  | resource :: more =>
    if !more.isEmpty ∨ resource.node = [] then throw (refused "ambiguous VM placement")
    if resource.pool ≠ some pool then
      throw (.outsidePool ("VM " ++ Text.ofNat vmid ++ " is not in pool " ++ pool))
    return resource.node

def hasVmid (vmid : Nat) (v : Json) : Bool := (field v "vmid").asU64 = some vmid

def requireMembership (node pool : Text) (vmid : Nat) : Op Unit := do
  let membership ← get (.pool pool) []
  match ((← Op.ofExcept (array (field membership "members") "pool member")).filter (hasVmid vmid)) with
  | [member] =>
    if field member "type" ≠ .str "qemu" ∨ field member "node" ≠ .str node then
      throw (refused "VM placement conflicts with explicit pool membership")
  | _ => throw (refused "VM placement conflicts with explicit pool membership")
  let qemu ← get (.nodeQemu node) []
  if ((← Op.ofExcept (array qemu "node VM")).filter (hasVmid vmid)).length ≠ 1 then
    throw (refused "VM missing or ambiguous in node inventory")

/-! ## Disks -/

def testTag : Text := "homestack-test"

def verifyWorkspaceRoleTags (vmid : Nat) (vmCfg : VmConfig) : Except CoreError Unit :=
  let tags := parseTags vmCfg["tags".toList]?
  let failed (detail : Text) : CoreError :=
    .failed ("VM " ++ Text.ofNat vmid ++ " tag verification failed: " ++ detail)
  if !tags.contains workspaceTag then .error (failed ("'" ++ workspaceTag ++ "' is missing"))
  else if tags.contains goldTag then .error (failed ("inherited '" ++ goldTag ++ "'"))
  else if !tags.all ([workspaceTag, refreshLockTag, testTag].contains ·) then
    let got : List Text := (tags.dedup.insertionSort fun a b => compare a b ≠ .gt).map fun t =>
      "'" ++ t ++ "'"
    .error (failed ("expected '" ++ workspaceTag ++ "' with optional '" ++
      refreshLockTag ++ "' and '" ++ testTag
      ++ "', got [" ++ List.intercalate (", " : Text) got ++ "]"))
  else .ok ()

def isVolumeSlot (slot : Text) : Bool :=
  (["ide", "sata", "scsi", "virtio"].any fun head => isNumbered head slot) ||
    ["efidisk", "tpmstate"].any fun head => isNumbered head slot

/-- One reviewed disk. -/
structure Disk where
  slot : Text
  role : Text
  volume : Text
  storage : Option Text
  config : Text
  serial : Option Text
  deriving DecidableEq, Repr

def optionJson (t : Option Text) : Json := (t.map Json.str).getD .null

def Disk.toJson (d : Disk) : Json :=
  .obj [("config", .str d.config), ("role", .str d.role), ("serial", optionJson d.serial),
    ("slot", .str d.slot),
    ("storage", optionJson d.storage), ("volume", .str d.volume)]

/-- `name`, `digest` and the two disks must be there. -/
def checkIdentity (config : VmConfig) (key : Text) : Except CoreError Unit :=
  if (config[key]?.filter fun s => !(Text.trim s).isEmpty).isNone then
    .error (refused ("missing configuration identity " ++ key))
  else .ok ()

def checkFlag (config : VmConfig) (key : Text) : Except CoreError Unit :=
  match config[key]? with
  | some v => if v ≠ "0" then .error (refused ("VM is " ++ key)) else .ok ()
  | none => .ok ()

def unsupportedKeys : List Text :=
  ["lock", "args", "hookscript", "vmstate", "parent", "snapstate", "pending", "snapshots", "special-sections"]

def checkKey (key : Text) : Except CoreError Unit :=
  if Text.startsWith "unused" key ∨ key ∈ unsupportedKeys then
    .error (refused ("unsupported configuration " ++ key))
  else .ok ()

/-- A volume ID with a storage and a name that is not the generic one. -/
def isExactVolume (volume : Text) : Bool :=
  match Text.splitOnce ":" volume with
  | some (s, v) => !s.isEmpty && !v.isEmpty && v ≠ "cloudinit".toList
  | none => false

def reviewedRoles : List Text := ["root", "home", "efi", "tpm", "cloud-init"]

/-- The options after the volume: `key=value`, each key once. -/
def checkOption (keys : List Text) (option : Text) : Except CoreError (List Text) :=
  match Text.splitOnce "=" option with
  | none => .error (refused "invalid disk options")
  | some (key, _) =>
    if key ∈ keys ∨ key = "import-from" then .error (refused "ambiguous or unresolved disk options")
    else .ok (key :: keys)

/-- One slot of `disks`. -/
def reviewSlot (inventory : List VolumeEntry) (result : List Disk) (entry : Text × Text) :
    Except CoreError (List Disk) := do
  let (slot, spec) := entry
  match inventory.find? fun v => v.slot = slot with
  | none => throw (refused ("incomplete disk " ++ slot))
  | some found =>
    let volume := diskVolume spec
    if !isExactVolume volume ∨ volume ∈ result.map Disk.volume then
      throw (refused ("missing or ambiguous exact volume ID for " ++ slot))
    if found.role ∉ reviewedRoles then throw (refused ("unexpected disk " ++ slot))
    if (found.role = "root" ∨ found.role = "home") ∧ (diskOption spec "media").isSome then
      throw (refused ("unsupported root/home media at " ++ slot))
    let _ ← ((spec.splitOn ',').drop 1).foldlM checkOption []
    return result ++ [⟨slot, found.role, volume, found.storage, spec, diskOption spec "serial"⟩]

def disks (config : VmConfig) (cfg : Config) (vmid : Nat) : Except CoreError (List Disk) := do
  let tags := config["tags".toList]?
  if hasTag tags alienWorkspaceTag then throw (refused "forbidden workspace role tag homestack-alien")
  verifyWorkspaceRoleTags vmid config
  if hasTag tags goldTag ∨ hasTag tags refreshLockTag then throw (refused "Gold or unresolved refresh role")
  ["name".toList, "digest".toList, cfg.rootDisk, cfg.homeDisk].forM (checkIdentity config)
  ["template".toList, "protection".toList].forM (checkFlag config)
  config.keys.forM checkKey
  let result ← (config.toList.filter fun e => isVolumeSlot e.1).foldlM
      (reviewSlot (vmVolumeInventory config cfg)) []
  if !result.any (fun d => d.role = "root".toList) ∨ !result.any (fun d => d.role = "home".toList) then
    throw (refused "root/home disk mapping is incomplete")
  if diskOption (config[cfg.homeDisk]?.getD []) "serial" ≠ some (← homeLabel vmid) then
    throw (refused "unexpected home serial")
  return result

/-! ## The review -/

/-- No change of the configuration is pending. -/
def checkPending (pending : Json) : Except CoreError Unit := do
  (← array pending "pending configuration").forM fun entry => do
    let _ ← text entry "key"
    if (entry.get "pending").isSome ∨ ((entry.get "delete").any fun v => v.asU64 ≠ some 0) then
      throw (refused "pending configuration changes")

def checkSnapshots (snapshots : Json) : Except CoreError Unit := do
  let snapshots ← array snapshots "snapshot"
  if snapshots.any (fun v => (field v "name").asStr ≠ some "current".toList) ∨ snapshots.length > 1 then
    throw (refused "snapshots or incomplete snapshot identity")

def checkStatus (status : Json) : Except CoreError Unit := do
  if field status "status" ≠ .str "running" ∧ field status "status" ≠ .str "stopped" then
    throw (refused "unknown power state")
  let managed := field (field status "ha") "managed"
  if managed ≠ .int 0 ∧ managed ≠ .bool false then throw (refused "managed or unknown HA state")

def checkReplication (replication : Json) : Except CoreError Unit := do
  if !(← array replication "replication").isEmpty then throw (refused "replication jobs")

/-- Whether images can be stored there, on this node. -/
def isImageStore (node : Text) (store : Json) (content : Text) : Bool :=
  (content.splitOn ',').contains "images" && !decide ((field store "disable").asU64 = some 1) &&
    match (field store "nodes").asStr with
    | some nodes => (nodes.splitOn ',').contains node
    | none => true

def filesystemTypes : List Text := ["dir", "nfs", "cifs", "cephfs", "glusterfs", "btrfs"]

/-- A volume without what normal use changes. -/
def volumeIdentityJson (store : Json) (attributes : List (Text × Json)) : Json :=
  let attributes := Json.erase "used" attributes
  .obj (if ((field store "type").asStr.any (filesystemTypes.contains ·)) then Json.erase "ctime" attributes
    else attributes)

/-- One volume of a store's listing. -/
def reviewVolume (id : Text) (store : Json) (vmid : Nat) (expected : List Text)
    (volumes : Std.ExtTreeMap Text Json) (entry : Json) : Except CoreError (Std.ExtTreeMap Text Json) := do
  let volid ← text entry "volid"
  match (field entry "vmid").asU64 with
  | none => throw (refused "volume ownership unavailable")
  | some owner =>
    if owner ≠ vmid then
      if volid ∈ expected then throw (refused ("volume " ++ volid ++ " owned by another VM"))
      return volumes
    if volid ∉ expected ∨ !Text.startsWith (id ++ ":") volid ∨ volid ∈ volumes then
      throw (refused ("unexpected detached or ambiguous volume " ++ volid))
    match entry.asObject with
    | none => throw (refused "invalid volume identity")
    | some attributes =>
      let identity := volumeIdentityJson store attributes
      let _ ← text identity "format"
      return volumes.insert volid identity

/-- The stores and the VM's volumes found so far. -/
structure Found where
  stores : Std.ExtTreeMap Text Json
  volumes : Std.ExtTreeMap Text Json

/-- One storage definition: an image store of the node is listed. -/
def reviewStore (node : Text) (vmid : Nat) (expected : List Text) (found : Found) (store : Json) :
    Op Found := do
  let id ← Op.ofExcept (text store "storage")
  let content ← Op.ofExcept (text store "content")
  if !isImageStore node store content then return found
  if id ∈ found.stores then throw (refused "duplicate storage identity")
  let state ← get (.storageStatus node id) []
  if (field state "active").asU64 ≠ some 1 ∨ (field state "enabled").asU64 ≠ some 1 then
    throw (refused ("storage " ++ id ++ " inventory unavailable"))
  let listing ← get (.storageContent node id) [("content", "images")]
  let entries ← Op.ofExcept (array listing "storage volume")
  let volumes ← Op.ofExcept (entries.foldlM (reviewVolume id store vmid expected) found.volumes)
  return { stores := found.stores.insert id store, volumes := volumes }

def mapJson (m : Std.ExtTreeMap Text Json) : Json := .obj m.toList

/-- The reviewed identity. -/
def identity (vmid : Nat) (node pool : Text) (status : Json) (config : VmConfig)
    (disks : List Disk) (found : Found) :
    Json :=
  .obj [("config", configJson config), ("disks", .arr (disks.map Disk.toJson)), ("ha_managed", .bool false),
    ("name", .str (config["name".toList]?.getD [])), ("node", .str node), ("pending_changes", .arr []),
    ("pool", .str pool), ("replication", .arr []), ("role", .str workspaceTag), ("snapshots", .arr []),
    ("status", status), ("storage", mapJson found.stores), ("vmid", .int vmid),
      ("volumes", mapJson found.volumes)]

/-- `review`: read an exact, fail-closed identity. -/
def review (cfg : Config) (pool : Text) (vmid : Nat) : Op Json := do
  if cfg.goldVmid = some vmid ∨ pool = [] then throw (refused "Gold VM or missing workspace pool")
  let node ← placement vmid pool
  let config ← vmConfig node vmid
  let disks ← Op.ofExcept (disks config cfg vmid)
  requireMembership node pool vmid
  Op.ofExcept (checkPending (← get (.pending node vmid) []))
  Op.ofExcept (checkSnapshots (← get (.snapshot node vmid) []))
  let status ← get (.statusCurrent node vmid) []
  Op.ofExcept (checkStatus status)
  Op.ofExcept (checkReplication (← get (.replication node) [("guest", Text.ofNat vmid)]))
  let storage ← Op.ofExcept (storageIdentity (← get .storage []))
  let expected := disks.map Disk.volume
  let found ← storage.values.foldlM (reviewStore node vmid expected) ⟨∅, ∅⟩
  if found.volumes.size ≠ expected.dedup.length then
    throw (refused "exact disk volumes missing from authoritative storage inventory")
  if (← placement vmid pool) ≠ node then throw (refused "VM placement changed while reading inventory")
  requireMembership node pool vmid
  if (← Op.ofExcept (storageIdentity (← get .storage []))) ≠ storage then
    throw (refused "storage backend configuration changed while reading inventory")
  let finalStatus ← get (.statusCurrent node vmid) []
  if field finalStatus "status" ≠ field status "status" ∨ field finalStatus "ha" ≠ field status "ha" then
    throw (refused "power or HA state changed while reading inventory")
  if (← vmConfig node vmid) ≠ config then throw (refused "configuration changed while reading inventory")
  return identity vmid node pool (field status "status") config disks found

/-! ## The reviewed plan -/

def checkPlanField (plan reviewed : Json) (key : Text) : Except CoreError Unit :=
  if plan.get key ≠ reviewed.get key then .error (refused ("incomplete or inconsistent reviewed " ++ key))
  else .ok ()

/-- The plan shows the root and home disks of the review. -/
def checkPlanDisk (plan disk : Json) : Except CoreError Unit := do
  match (field disk "role").asStr.filter fun r => r = "root".toList ∨ r = "home".toList with
  | none => return
  | some role =>
    [("disk".toList, "slot".toList), ("volume".toList, "volume".toList),
      ("storage".toList, "storage".toList)].forM
      fun (suffix, key) =>
        if plan.get (role ++ "_" ++ suffix) ≠ disk.get key then
          .error (refused ("inconsistent reviewed " ++ role ++ " " ++ suffix))
        else .ok ()
    if role = "home" ∧ plan.get "home_label" ≠ disk.get "serial" then
      throw (refused "inconsistent reviewed home serial")

/-- `current["status"] = status` -/
def withStatus (current status : Json) : Json :=
  match current with
  | .obj entries => .obj (Json.insert "status" status entries)
  | v => v

/-- The keys of the current identity that differ. -/
def changedKeys (current reviewed : Json) : List Text :=
  ((current.asObject.getD []).map Prod.fst).filter fun key => field current key ≠ field reviewed key

/-- What `validate` does with the current identity. -/
def compareReviewed (plan : Json) (stopped : Bool) (current : Json) : Except CoreError Unit := do
  match (plan.get "destructive_identity").filter fun v => v.asObject.isSome with
  | none => throw (refused "reviewed destructive identity missing")
  | some reviewed =>
    ["vmid".toList, "name".toList, "node".toList, "pool".toList, "status".toList].forM
      (checkPlanField plan reviewed)
    if field plan "command" ≠ .str "destroy" then throw (refused "missing destroy command")
    (← array (field reviewed "disks") "reviewed disk").forM (checkPlanDisk plan)
    if stopped = true ∧ field current "status" ≠ .str "stopped" then
      throw (refused "VM is not confirmed stopped")
    let current := if stopped then withStatus current (field reviewed "status") else current
    if current ≠ reviewed then
      throw (refused ("reviewed identity changed in " ++
        List.intercalate (", " : Text) (changedKeys current reviewed)))

/-- `validate`: only this operation's graceful running to stopped transition is
authorized. -/
def validate (cfg : Config) (pool : Text) (plan : Json) (stopped : Bool) : Op Unit := do
  let vmid ← Op.ofExcept (vmidOf plan)
  let current ← review cfg pool vmid
  Op.ofExcept (compareReviewed plan stopped current)

def stillExists : CoreError :=
  .failed "VM DELETE finished but a reviewed disk still exists. Inspect storage explicitly; destruction will not be retried."

/-- A listed volume is none of the reviewed ones. -/
def checkGone (volumes : List (Text × Json)) (entry : Json) : Except CoreError Unit := do
  let volid ← text entry "volid"
  if (Json.lookup volid volumes).isSome then throw stillExists

def confirmAbsent (plan : Json) : Op Unit := do
  let identity := field plan "destructive_identity"
  let node ← Op.ofExcept (text identity "node")
  match (field identity "storage").asObject, (field identity "volumes").asObject with
  | none, _ => throw (refused "missing reviewed storage")
  | _, none => throw (refused "missing reviewed volumes")
  | some stores, some volumes =>
    (stores.map Prod.fst).forM fun storage => do
      let content ← get (.storageContent node storage) [("content", "images")]
      Op.ofExcept (do (← array content "post-destroy volume").forM (checkGone volumes))

/-! ## The operation -/

def shutdownTimeoutSecs : Nat := 90

/-- The Shutdown step. -/
def shutdownStep (plan : Json) (node : Text) (vmid : Nat) : Op Unit := do
  if field plan "status" = .str "running" then
    let answer ← post (.statusShutdown node vmid) [("timeout", Text.ofNat shutdownTimeoutSecs)]
    let result ← waitTask (← Op.ofExcept (upidOf answer)) (shutdownTimeoutSecs + 30)
    if !result.ok then
      throw (.failed ("Workspace shutdown failed: " ++ result.exitstatus
        ++ ". No automatic retry; inspect the VM before reviewing a new plan."))

/-- `destroy_workspace` up to the Destroy step. -/
def prepareDestroy (cfg : Config) (pool : Text) (plan : Json) : Op (Nat × Text × Text) := do
  let vmid ← Op.ofExcept (vmidOf plan)
  let node ← Op.ofExcept (planText plan "node")
  let name ← Op.ofExcept (planText plan "name")
  validate cfg pool plan false
  shutdownStep plan node vmid
  return (vmid, node, name)

/-- The Destroy step. -/
def destroyStep (cfg : Config) (pool : Text) (plan : Json) (node : Text) (vmid : Nat) : Op Unit := do
  validate cfg pool plan true
  deleteTask (.vm node vmid) [("purge", "0"), ("destroy-unreferenced-disks", "0")]
    ("Destroying VM " ++ Text.ofNat vmid) 600
  if (← clusterVmResources).any fun r => r.vmid = vmid then
    throw (.failed ("VM " ++ Text.ofNat vmid ++ " still exists after qm destroy"))
  confirmAbsent plan

def destroyWorkspace (cfg : Config) (pool : Text) (plan : Json) : Op Json := do
  let (vmid, node, name) ← prepareDestroy cfg pool plan
  destroyStep cfg pool plan node vmid
  let result := Json.insert "status" (.str "absent") (plan.asObject.getD [])
  let result := Json.insert "vm_deleted" (.bool true) result
  let result := Json.insert "home_deleted" (.bool true) result
  let result := Json.insert "name" (.str name) result
  return .obj (Json.insert "event" (.str "workspace.destroyed") result)

end HomeStack.WorkspaceDestroy

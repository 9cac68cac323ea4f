import HomeStack.Cluster
import HomeStack.Tasks
import HomeStack.Vendor

/-! One workspace VM: finding it with its checks (`resolve_existing_workspace` of
`status.rs`, the pool of `lifecycle.rs`), starting and stopping it (`power.rs`), and
the Cloud-Init options it gets (`cloudinit.rs`). -/

namespace HomeStack

open Op
open Vendor (HomeFormat)

/-! ## Finding it -/

/-- `ExistingWorkspace`, less the use of its home. -/
structure ExistingWorkspace where
  vmid : Nat
  name : Text
  node : Text
  status : Text
  vmConfig : VmConfig
  rootStorage : Option Text
  homeStorage : Option Text
  rootVolume : Text
  homeVolume : Text
  homeLabel : Text

/-- A VM name: letters, digits, dot and hyphen, first a letter. -/
def validName (name : Text) : Bool :=
  decide (name.length ≤ 63) && (name.head?.any Char.isAlpha) && name.all fun c =>
    c.isAlphanum || c == '.' || c == '-'

/-- The checks of `resolve_existing_workspace` on a configuration. -/
def workspaceOf (cfg : Config) (vmid : Nat) (node status : Text) (vmCfg : VmConfig) :
    Except CoreError ExistingWorkspace := do
  let vm : Text := "VM " ++ Text.ofNat vmid
  let tags := vmCfg["tags".toList]?
  if hasTag tags alienWorkspaceTag then
    throw (.refused (vm ++ " has forbidden workspace role tag '" ++ alienWorkspaceTag
      ++ "'; lifecycle operations require native '" ++ workspaceTag ++ "'."))
  if !hasTag tags workspaceTag then
    throw (.refused (vm ++ " is not a HomeStack workspace: required tag '" ++
      workspaceTag ++ "' is missing."))
  let name := Text.trim (vmCfg["name".toList]?.getD [])
  if name.isEmpty then throw (.unusable (vm ++ " has no name"))
  if !validName name then
    throw (.unusable "Invalid VM name. Use 1-63 characters: letters, digits, dot and hyphen; the first character must be a letter.")
  let rootCfg := vmCfg[cfg.rootDisk]?.getD []
  if rootCfg.isEmpty then throw (.unusable (vm ++ " has no disposable root disk " ++ cfg.rootDisk))
  let homeCfg := vmCfg[cfg.homeDisk]?.getD []
  if homeCfg.isEmpty then throw (.unusable (vm ++ " has no persistent home disk " ++ cfg.homeDisk))
  let expected ← homeLabel vmid
  let rootVolume := diskVolume rootCfg
  let homeVolume := diskVolume homeCfg
  if rootVolume = homeVolume then
    throw (.unusable (vm ++ " root disk " ++ cfg.rootDisk ++ " and persistent home " ++ cfg.homeDisk
      ++ " reference the same volume '" ++ rootVolume ++ "'"))
  let serial := diskOption homeCfg "serial"
  if serial ≠ some expected then
    throw (.unusable (vm ++ " " ++ cfg.homeDisk ++ " serial is " ++ pyRepr serial ++
      ", expected '" ++ expected ++ "'"))
  return ⟨vmid, name, node, status, vmCfg, diskStorage (some rootCfg), diskStorage (some homeCfg), rootVolume,
    homeVolume, expected⟩

theorem workspaceOf_vmConfig {cfg : Config} {vmid : Nat} {node status : Text} {c : VmConfig}
    {w : ExistingWorkspace} (h : workspaceOf cfg vmid node status c = .ok w) : w.vmConfig = c := by
  unfold workspaceOf at h
  obtain ⟨-, h⟩ := Except.guard_ok h
  obtain ⟨-, h⟩ := Except.guard_ok h
  obtain ⟨-, h⟩ := Except.guard_ok h
  obtain ⟨-, h⟩ := Except.guard_ok h
  obtain ⟨-, h⟩ := Except.guard_ok h
  obtain ⟨-, h⟩ := Except.guard_ok h
  obtain ⟨label, -, h⟩ := Except.bind_ok h
  obtain ⟨-, h⟩ := Except.guard_ok h
  obtain ⟨-, h⟩ := Except.guard_ok h
  cases h
  rfl

/-- `resource.status`, or a read of it. -/
def listedStatus (resource : StatusResource) (node : Text) (vmid : Nat) : Op Text :=
  match resource.status with
  | some status => pure status
  | none => vmStatus node vmid

def resolveExistingWorkspace (cfg : Config) (vmid : Nat) : Op ExistingWorkspace := do
  if cfg.goldVmid = some vmid then
    throw (.refused ("Refusing lifecycle operation on Gold VM " ++ Text.ofNat vmid))
  match (← clusterVmResources).find? fun r => r.vmid = vmid with
  | none => throw (.notFound ("VMID " ++ Text.ofNat vmid ++ " does not exist"))
  | some resource =>
    if resource.node.isEmpty then
      throw (.unusable ("VM " ++ Text.ofNat vmid ++ " has no node in cluster inventory"))
    let status ← listedStatus resource resource.node vmid
    let vmCfg ← vmConfig resource.node vmid
    Op.ofExcept (workspaceOf cfg vmid resource.node status vmCfg)

def requirePool (vmid : Nat) (pool : Text) : Op Unit := do
  match (← clusterVmMaps).find? fun entry => entry.1 = vmid with
  | none => throw (.notFound ("VMID " ++ Text.ofNat vmid ++ " does not exist"))
  | some entry =>
    let found := textOrNone (Json.lookup "pool" entry.2)
    if found ≠ some pool then
      throw (.outsidePool ("VM " ++ Text.ofNat vmid ++ " is not in pool " ++ pool
        ++ (found.map fun p : Text => (" (it is in " ++ p ++ ")" : Text)).getD []
        ++ "; HomeStack changes only the VMs of its pool"))

def requireRefreshUnlocked (vmid : Nat) (vmCfg : VmConfig) : Except CoreError Unit := do
  let tags := vmCfg["tags".toList]?
  if hasTag tags alienWorkspaceTag then
    throw (.refused ("Refresh of VM " ++ Text.ofNat vmid ++ " is blocked for alien workspace role tag '"
      ++ alienWorkspaceTag ++ "'."))
  if hasTag tags refreshLockTag then
    throw (.refused ("Refresh of VM " ++ Text.ofNat vmid ++ " is blocked by tag '" ++ refreshLockTag
      ++ "'. Remove this tag from the VM in Proxmox before refreshing."))

/-! ## Power -/

def startTimeoutSecs : Nat := 300

/-- `SHUTDOWN_TIMEOUT_SECS` -/
def shutdownSecs : Nat := 90

def startVm (node : Text) (vmid : Nat) : Op Unit :=
  postTask (.statusStart node vmid) [] ("Proxmox task qmstart for VM " ++ Text.ofNat vmid ++ " on " ++ node)
    startTimeoutSecs

/-- One try of `shutdown_vm`: whether its task succeeded. -/
def tryShutdown (node : Text) (vmid timeoutSecs : Nat) : Op Bool := do
  let answer ← post (.statusShutdown node vmid) [("timeout", Text.ofNat timeoutSecs)]
  let upid ← Op.ofExcept (upidOf answer)
  match ← Prog.attempt (waitTask upid (timeoutSecs + 30)) with
  | .ok result =>
    if isLockTimeout result.exitstatus then
      throw (.failed ("Proxmox task qmshutdown for VM " ++ Text.ofNat vmid ++ " on " ++ node ++ " failed: "
        ++ result.exitstatus))
    return result.ok
  | .error (.failed _) => return false
  | .error e => throw e

/-- `LISTED_STOPPED_TIMEOUT` -/
def listedStoppedSecs : Nat := 30

/-- Whether the cluster lists the VM as running. -/
def listedRunning (vmid : Nat) : Op Bool := do
  let listed := ((← clusterVmResources).find? fun r => r.vmid = vmid).bind StatusResource.status
  return listed = some "running".toList

/-- The rounds of `wait_listed_stopped`. -/
def listedStopped (vmid : Nat) : Nat → Op Unit
  | 0 => do
    if ← listedRunning vmid then
      throw (.failed ("VM " ++ Text.ofNat vmid ++
        " is stopped, but the cluster still lists it as running after "
        ++ Text.ofNat listedStoppedSecs ++ "s"))
  | n + 1 => do
    if ← listedRunning vmid then listedStopped vmid n

def waitListedStopped (vmid : Nat) : Op Unit := do listedStopped vmid (← rounds)

def shutdownVm (node : Text) (vmid timeoutSecs : Nat) : Op Unit := do
  let status ← vmStatus node vmid
  if status = "stopped" then return
  if status ≠ "running" then
    throw (.failed ("VM " ++ Text.ofNat vmid ++ " has unexpected status " ++
      pyRepr (some status) ++ "; refusing shutdown"))
  let taskOk ← retryWhileLocked (tryShutdown node vmid timeoutSecs)
  let finalStatus ← vmStatus node vmid
  if !taskOk ∨ finalStatus ≠ "stopped" then
    throw (.failed ("VM " ++ Text.ofNat vmid ++ " did not shut down cleanly on " ++ node ++
      ". Current status: " ++ finalStatus
      ++ ". HomeStack will not force-stop it automatically."))
  waitListedStopped vmid

/-- The questions of starting and stopping a VM. -/
structure PowerCalls (P : Call → Prop) (node : Text) (vmid : Nat) : Prop extends Polls P where
  listed : P (.get .clusterResources [("type", "vm")])
  current : P (.get (.statusCurrent node vmid) [])
  start : P (.post (.statusStart node vmid) [])
  shutdown : ∀ form, P (.post (.statusShutdown node vmid) form)

section Asks

variable {P : Call → Prop} {node : Text} {vmid : Nat}

theorem asks_startVm (hP : PowerCalls P node vmid) : (startVm node vmid).run.Asks P :=
  asks_postTask hP.toPolls hP.start _ _

theorem asks_listedStopped (hP : PowerCalls P node vmid) (n : Nat) : (listedStopped vmid n).run.Asks P := by
  have hlisted : (listedRunning vmid).run.Asks P :=
    Prog.asks_bind (asks_clusterVmResources hP.listed) fun _ => trivial
  induction n with
  | zero =>
    unfold listedStopped
    exact Prog.asks_bind hlisted fun _ => asks_ite trivial trivial
  | succ n ih =>
    unfold listedStopped
    exact Prog.asks_bind hlisted fun _ => asks_ite ih trivial

theorem asks_tryShutdown (hP : PowerCalls P node vmid) (timeoutSecs : Nat) :
    (tryShutdown node vmid timeoutSecs).run.Asks P := by
  refine Prog.asks_bind (asks_post (hP.shutdown _)) fun answer => Prog.asks_bind asks_ofExcept fun upid => ?_
  refine Prog.asks_bind (Prog.asks_attempt (asks_waitTask hP.toPolls _ _)) fun r => ?_
  cases r with
  | ok result => exact asks_ite trivial trivial
  | error e => cases e <;> trivial

theorem asks_shutdownVm (hP : PowerCalls P node vmid) (timeoutSecs : Nat) :
    (shutdownVm node vmid timeoutSecs).run.Asks P := by
  have hstatus := asks_vmStatus hP.current
  refine Prog.asks_bind hstatus fun status => asks_ite trivial (asks_ite trivial ?_)
  refine Prog.asks_bind (asks_retryWhileLocked hP.rounds (asks_tryShutdown hP timeoutSecs)) fun ok => ?_
  refine Prog.asks_bind hstatus fun final => asks_ite trivial ?_
  exact Prog.asks_bind (asks_call hP.rounds) (asks_listedStopped hP)

end Asks

/-! ## Cloud-Init -/

def snippetFile : HomeFormat → Text
  | .create => "homestack-vendor-create.yaml"
  | .keep => "homestack-vendor-keep.yaml"

def cicustomValue (cfg : Config) (format : HomeFormat) : Text :=
  "vendor=" ++ cfg.cloudInit.snippetStorage ++ ":snippets/" ++ snippetFile format

/-- One field of `ipconfig0`. -/
def ipField (value key : Text) : Text :=
  ((((value.splitOn ',').filterMap (Text.splitOnce "=")).reverse.find? fun f =>
    Text.trim f.1 = key).map fun f =>
    Text.trim f.2).getD []

/-- `rsplit_once('/')` -/
def splitLast (c : Char) (s : Text) : Option (Text × Text) :=
  (Text.splitOnce [c] s.reverse).map fun (tail, head) => (head.reverse, tail.reverse)

def parseIpconfig0 (value : Text) : Except CoreError (Text × Nat × Text) :=
  let ip := ipField value "ip"
  match (splitLast '/' ip).filter fun _ => ip ≠ "dhcp" with
  | none => .error (.unusable ("Workspace ipconfig0 does not contain a static IPv4 address: " ++
      pyRepr (some value)))
  | some (address, cidr) =>
    match Text.parseNat 256 cidr with
    | none => .error (.unusable ("Cannot parse CIDR from ipconfig0: " ++ pyRepr (some value)))
    | some cidr =>
      let gateway := ipField value "gw"
      if gateway.isEmpty then
        .error (.unusable ("Workspace ipconfig0 does not contain a gateway: " ++ pyRepr (some value)))
      else .ok (address, cidr, gateway)

/-- `cloud_init_settings` of a home that is kept. -/
def keepSettings (cfg : Config) (ip : Text) (cidr : Nat) (gateway : Text) : Form :=
  [("ipconfig0", "ip=" ++ ip ++ "/" ++ Text.ofNat cidr ++ ",gw=" ++ gateway),
    ("nameserver", List.intercalate (" " : Text) cfg.network.dns), ("ciuser", "root"), ("ciupgrade", "0"),
    ("cicustom", cicustomValue cfg .keep)]

end HomeStack

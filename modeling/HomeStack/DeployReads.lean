import HomeStack.Address
import HomeStack.Deploy

/-! What planning reads from Proxmox: the containers of a service, the names and addresses in use, whether
a number is free, and whether the container behind a taken number is an initialization of the service that
can be resumed (`services/deploy.rs`, `services/instance.rs`, `node.rs`, `recreate.rs`). -/

namespace HomeStack.Deploy

open ServiceInstance (Instance)

/-! ## The guest inventory -/

def resourcesPath : Text := "/cluster/resources"

def vmQuery : List (Text × Text) := [("type", "vm")]

/-- `value[key].as_str()` -/
def field (v : Json) (key : Text) : Option Text := (v.get key).bind Json.asStr

/-- `value["vmid"]` as a `u32`. -/
def vmidField (v : Json) : Option Nat := ((v.get "vmid").bind Json.asU64).filter (· < 2 ^ 32)

def resources (pve : Pve) : Except Text Json :=
  match pve resourcesPath vmQuery with
  | .ok found => .ok found
  | .error e => .error ("cluster resources: " ++ e.toText)

structure Container where
  node : Text
  status : Text
  name : Text
  pool : Text

def isLxc (item : Json) : Bool := field item "type" = some "lxc".toList

def container (pve : Pve) (ctid : Nat) : Except Text (Option Container) := do
  let found ← resources pve
  let items := found.asArray.getD []
  .ok ((items.find? fun item => isLxc item && (item.get "vmid").bind Json.asU64 = some ctid).map fun item =>
    ⟨(field item "node").getD [], (field item "status").getD [], (field item "name").getD [],
      (field item "pool").getD []⟩)

def names (pve : Pve) : Except Text (List Text) := do
  let found ← resources pve
  .ok (((found.asArray.getD []).filter isLxc).filterMap (field · "name"))

/-! ## The containers of a service -/

def lxcPath (node : Text) (id : Nat) (rest : Text) : Text :=
  "/nodes/" ++ node ++ "/lxc/" ++ Text.ofNat id ++ rest

def fetch (pve : Pve) (node pool : Text) (id : Nat) : Except Text Instance :=
  match pve (lxcPath node id "/config") [] with
  | .error e => .error ("CT " ++ Text.ofNat id ++ " config: " ++ e.toText)
  | .ok cfg =>
    match pve (lxcPath node id "/status/current") [] with
    | .error e => .error ("CT " ++ Text.ofNat id ++ " state: " ++ e.toText)
    | .ok current =>
      if field current "status" = some "running".toList then ServiceInstance.parse id node pool cfg true
      else if field current "status" = some "stopped".toList then ServiceInstance.parse id node pool cfg false
      else .error ("CT " ++ Text.ofNat id ++ ": power state unavailable")

def holderId : Nat := 999999

/-- `held`: the container as the holder on the node keeps it, if that holder serves it. -/
def held (pve : Pve) (node pool : Text) (ctid : Nat) : Option Instance :=
  (fetch pve node pool holderId).toOption.filter (·.ctid = ctid)

def located (pve : Pve) (node pool : Text) (ctid : Nat) (present holder : Bool) : Except Text Instance :=
  if present then do
    let t ← fetch pve node pool ctid
    if t.homeVolume = [] && holder then .ok ((held pve node pool ctid).getD t) else .ok t
  else
    match if holder then held pve node pool ctid else none with
    | some t => .ok t
    | none => .error ("CT " ++ Text.ofNat ctid ++ " does not exist on " ++ node)

def present (items : List Json) (node : Text) (ctid : Nat) : Bool :=
  items.any fun item => isLxc item && field item "node" = some node &&
    (item.get "vmid").bind Json.asU64 = some ctid

/-- The number an item of the inventory stands for: a holder stands for its container while that is gone. -/
def standsFor (pve : Pve) (items : List Json) (node pool : Text) (ctid : Nat) : Option Nat :=
  if ctid = holderId then
    match fetch pve node pool ctid with
    | .ok holder => if !holder.held || present items node holder.ctid then none else some holder.ctid
    | .error _ => none
  else some ctid

/-- One item of `of_repository`. -/
def deployed (pve : Pve) (items : List Json) (repository : Text) (item : Json) : Option Instance := do
  let ctid ← vmidField item
  let node ← field item "node"
  if !isLxc item || field item "status" = some "unknown".toList then none
  else
    let pool := (field item "pool").getD []
    let ctid ← standsFor pve items node pool ctid
    let t ← (located pve node pool ctid (present items node ctid) (present items node holderId)).toOption
    if t.repository = repository then some t else none

def ofService (pve : Pve) (repository service : Text) : Except Text (List Instance) := do
  let found ← resources pve
  let items := found.asArray.getD []
  .ok (((items.filterMap (deployed pve items repository)).insertionSort fun a b => a.ctid ≤ b.ctid).filter
    (·.service = service))

/-! ## Numbers and addresses -/

def free (pve : Pve) (ctid : Nat) : Except Text Bool :=
  match pve "/cluster/nextid" [("vmid", Text.ofNat ctid)] with
  | .ok _ => .ok true
  | .error (.api status message) =>
    if status = 400 then .ok false
    else .error ("CT " ++ Text.ofNat ctid ++ ": cannot check whether it is free: " ++
      (PveError.api status message).toText)
  | .error e => .error ("CT " ++ Text.ofNat ctid ++ ": cannot check whether it is free: " ++ e.toText)

/-- The network settings of a kind of guest start with it. -/
def networkPrefix (kind : Text) : Except Text Text :=
  if kind = "lxc" then .ok "net"
  else if kind = "qemu" then .ok "ipconfig"
  else .error ("Cannot check IP addresses of guest type " ++ kind)

/-- The addresses of one value of a network setting. -/
def valueAddresses (value : Text) : List Ipv4 :=
  ((value.splitOn ',').filterMap fun part => ("ip=" : Text).isPrefixOf? part).filterMap fun ip =>
    Ipv4.parse ((ip.splitOn '/').headD [])

def isSlot (start key : Text) : Bool :=
  (start.isPrefixOf? key).any fun slot => slot ≠ [] && Text.allDigits slot

/-- The current and the pending addresses of a setting. -/
def settingAddresses (start : Text) (setting : Json) : List Ipv4 :=
  if (field setting "key").any (isSlot start) then
    (["value", "pending"].filterMap (field setting)).flatMap valueAddresses
  else []

def pendingPath (node kind : Text) (id : Nat) : Text :=
  "/nodes/" ++ node ++ "/" ++ kind ++ "/" ++ Text.ofNat id ++ "/pending"

def requireField {α : Type} (o : Option α) (message : Text) : Except Text α :=
  match o with
  | some a => .ok a
  | none => .error message

def pendingSettings (pve : Pve) (node kind : Text) (id : Nat) : Except Text (List Json) :=
  match pve (pendingPath node kind id) [] with
  | .error e => .error ("Guest " ++ Text.ofNat id ++ " on " ++ node ++
      ": cannot check allocated IP addresses: " ++ e.toText)
  | .ok settings => requireField settings.asArray
      ("Guest " ++ Text.ofNat id ++ " on " ++ node ++ ": invalid pending configuration")

/-- The addresses of one guest of the inventory. -/
def guestAddresses (pve : Pve) (guest : Json) : Except Text (List (Ipv4 × Nat)) := do
  let kind ← requireField (field guest "type") "Guest inventory is missing its type"
  let start ← networkPrefix kind
  let id ← requireField (vmidField guest) "Guest inventory is missing its VMID"
  let node ← requireField (field guest "node") "Guest inventory is missing its node"
  let settings ← pendingSettings pve node kind id
  .ok ((settings.flatMap (settingAddresses start)).map fun ip => (ip, id))

/-- The order of the set of addresses and owners. -/
def before (x y : Ipv4 × Nat) : Bool := x.1.toNat < y.1.toNat || (x.1.toNat = y.1.toNat && x.2 ≤ y.2)

/-- `addresses`: the addresses in use, each with the guest it is configured on. -/
def addresses (pve : Pve) : Except Text (List (Ipv4 × Nat)) :=
  match pve resourcesPath vmQuery with
  | .error e => .error ("Cannot check allocated IP addresses: " ++ e.toText)
  | .ok found => do
    let guests ← requireField found.asArray "Cannot read the guest inventory to check IP addresses"
    let used ← guests.mapM (guestAddresses pve)
    .ok (used.flatten.insertionSort fun x y => before x y)

def checkAddress (used : List (Ipv4 × Nat)) (ip : Ipv4) (ctid : Nat) : Except Text Unit :=
  match used.find? fun u => u.1 = ip ∧ u.2 ≠ ctid with
  | some (_, owner) => .error ("CT " ++ Text.ofNat ctid ++ ": IP " ++ ip.toText ++
      " is already configured on guest " ++
      Text.ofNat owner ++ "; choose another CTID")
  | none => .ok ()

/-- `address`: the address of a number in the deployment's network. -/
def address (config : DeployConfig) (ctid : Nat) : Option Ipv4 :=
  Address.addressOf ctid ⟨[], config.cidr, config.gateway.toText, []⟩

/-- The number has an address that is neither the gateway's nor in use. -/
def unallocated (config : DeployConfig) (used : List (Ipv4 × Nat)) (ctid : Nat) : Bool :=
  (address config ctid).any fun ip => ip ≠ config.gateway && !used.any fun u => u.1 = ip

/-- The loop of `automatic`. -/
def pick (config : DeployConfig) (pve : Pve) (used : List (Ipv4 × Nat)) (count : Nat) :
    List Nat → List Nat → Except Text (List Nat)
  | found, [] => .ok found
  | found, ctid :: rest =>
    if found.length = count then .ok found
    else if unallocated config used ctid then do
      if ← free pve ctid then pick config pve used count (found ++ [ctid]) rest
      else pick config pve used count found rest
    else pick config pve used count found rest

/-- The first number of the block of the service, or of the gateway for a new service. -/
def firstNumber (config : DeployConfig) (instances : List Instance) : Nat :=
  ((instances.map (·.ctid)).min?.getD (Address.vmidOf config.gateway)) / 1000 * 1000 + 1

def automatic (config : DeployConfig) (pve : Pve) (instances : List Instance) (count : Nat) :
    Except Text (List Nat) :=
  if count = 0 then .ok []
  else do
    let used ← addresses pve
    let first := firstNumber config instances
    let found ← pick config pve used count [] ((List.range 999).map (first + ·))
    if found.length < count then .error ("No free CTID with an unallocated IP from " ++ Text.ofNat first)
    else .ok found

/-! ## Resuming -/

def port (manifest : Manifest) (name : Text) : Option Nat :=
  (manifest.ports.find? (·.name = name)).map (·.port)

def statusLine (manifest : Manifest) : Text :=
  if manifest.schema3.any (!·.homestackTelemetry) then []
  else
    match manifest.healthcheck with
    | some (.http name _ _ _) => ((port manifest name).map fun port =>
        "\nstatus-port " ++ Text.ofNat port).getD []
    | _ => []

def description (source : Source) (image digest : Text) : Text :=
  "HomeStack service " ++ source.manifest.id ++ "\nrepository " ++ source.repository ++
    "\nmanifest " ++ source.path ++ " " ++
    source.blob ++ "\ncommit " ++ source.commit ++ "\nimage " ++ image ++ "\ndigest " ++ digest ++
      "\nmade by homestack" ++
    statusLine source.manifest

/-- `without`: a description without the lines of a marker. -/
def without (description marker : Text) : Text :=
  ['\n'].intercalate ((Text.lines description).filter fun line => !Text.startsWith marker line)

/-- `volume`: the volume of an option and its settings. -/
def volume (option : Text) : Text × List (Text × Text) :=
  ((option.splitOn ',').headD [], ((option.splitOn ',').drop 1).filterMap (Text.splitOnce "="))

def ct (ctid : Nat) (message : Text) : Text := "CT " ++ Text.ofNat ctid ++ message

/-- The volume is on the storage and named after the container. -/
def owned (ctid : Nat) (volid storage : Text) : Bool :=
  (Text.splitOnce ":" volid).any fun v => v.1 = storage && Text.contains ("-" ++ Text.ofNat ctid ++ "-") v.2

/-- The home of a container, as planned. -/
def mounted (i : NewInstance) (config : Json) : Except Text (Option (Text × List (Text × Text))) :=
  match field config "mp0" with
  | none => if i.homeMib = 0 then .ok none else .error (ct i.ctid " has no mp0")
  | some mp0 => if i.homeMib = 0 then .error (ct i.ctid (" has an unplanned mp0 " ++ mp0))
    else .ok (some (volume mp0))

def verifyHome (i : NewInstance) (root : Text) : Option (Text × List (Text × Text)) → Except Text Unit
  | none => .ok ()
  | some (home, options) =>
    if !owned i.ctid home i.homeStorage || home = root then
      .error (ct i.ctid (": home volume " ++ home ++ " is not its own on " ++ i.homeStorage))
    else if (options.filter (·.1 = "mp".toList)).length ≠ 1 || !options.contains ("mp", i.homePath) then
      .error (ct i.ctid (": mp0 is not mounted exactly at " ++ i.homePath))
    else .ok ()

def verifyRoot (i : NewInstance) (root : Text) : Except Text Unit :=
  if !owned i.ctid root i.rootStorage then
    .error (ct i.ctid (": root disk " ++ root ++ " is not its own on " ++ i.rootStorage))
  else .ok ()

def verifyUnprivileged (i : NewInstance) (config : Json) : Except Text Unit :=
  if (config.get "unprivileged").bind Json.asU64 ≠ some 1 then
    .error (ct i.ctid " is not unprivileged") else .ok ()

/-- `verify`: the root volume, the home and the MAC address of what Proxmox made. -/
def verify (i : NewInstance) (config : Json) : Except Text (Text × Text × Text) := do
  let rootfs ← requireField (field config "rootfs") (ct i.ctid " has no root disk")
  let root := (volume rootfs).1
  let home ← mounted i config
  verifyRoot i root
  verifyHome i root home
  verifyUnprivileged i config
  let mac ← requireField ((field config "net0").bind ServiceInstance.extractHwaddr)
      (ct i.ctid " has no MAC address")
  .ok (root, (home.map fun h => h.1 ++ " at " ++ i.homePath).getD "none", mac)

/-- One entry of `mounts`. -/
def mountKey (keys : List Text) (e : Text × Json) : Except Text (List Text) :=
  if Text.startsWith "unused" e.1 then .error (e.1 ++ ": unused volumes are not supported yet")
  else if (("mp" : Text).isPrefixOf? e.1).any fun n => (Text.parseNat (2 ^ 32) n).isSome then
    let volume := ((e.2.asStr.getD []).splitOn ',').headD []
    if Text.startsWith "/" volume || !volume.contains ':' then
      .error (e.1 ++ ": bind and network mounts are not supported yet")
    else .ok (keys ++ [e.1])
  else .ok keys

def mounts (cfg : Json) : Except Text (List Text) := do
  let _ ← ServiceInstance.Devices.read cfg
  let entries ← requireField cfg.asObject "Invalid container configuration"
  let keys ← entries.foldlM mountKey []
  .ok (keys.insertionSort fun a b => compare a b ≠ .gt)

def siteEnvironment (manifest : Manifest) : List (Text × Text) :=
  ("HOMESTACK_MANAGED_HOME", "1") ::
    match manifest.healthcheck with
    | some (.http _ _ _ heartbeat) => [("HOMESTACK_HEARTBEAT_SECONDS", Text.ofNat heartbeat)]
    | _ => []

/-- The environment of a Site that is not of its initialization. -/
def foreign (source : Source) (current : Instance) : Bool :=
  source.isSite && current.environment.any fun entry => entry.1 ≠ "PATH" &&
    !(siteEnvironment source.manifest).contains entry

/-- Never started and not yet configured. -/
def pristine (found : Container) (current : Instance) : Bool :=
  found.status = "stopped" && !current.environment.any fun entry => Text.startsWith "HOMESTACK_" entry.1

/-- The home that the marker line names. -/
def markedHome (kind description : Text) : Option Text :=
  (Text.lines description).findSome? fun line => kind.isPrefixOf? line

/-- The container is not the one that was planned. -/
def differs (i : NewInstance) (current : Instance) : Bool :=
  current.address ≠ i.address || current.cores ≠ i.cores || current.memoryMib ≠ i.memoryMib ||
    current.rootMib ≠ i.rootMib || current.homeMib ≠ i.homeMib

def checkPlace (pool : Text) (i : NewInstance) (found : Container) : Except Text Unit :=
  if found.node ≠ i.node ∨ found.pool ≠ pool then
    .error (ct i.ctid ": node or pool differs; it is not eligible for initialization recovery")
  else .ok ()

def checkOwner (source : Source) (kind image digest : Text) (i : NewInstance) (cfg : Json) :
    Except Text Unit :=
  if without ((field cfg "description").getD []) kind ≠ description source image digest ∨
    (cfg.get "lock").isSome then
    .error (ct i.ctid ": not a matching unfinished common deployment")
  else .ok ()

def checkForeign (source : Source) (i : NewInstance) (current : Instance) : Except Text Unit :=
  if foreign source current then
    .error (ct i.ctid ": unexpected environment; Site initialization recovery refused") else .ok ()

/-- Its original home and the reviewed settings; the mounts are read only where these agree. -/
def checkSettings (kind homeMount : Text) (i : NewInstance) (found : Container)
    (cfg : Json) (current : Instance) :
    Except Text Unit :=
  let refused := ct i.ctid ": initialization recovery requires its original home and reviewed settings"
  let marker := markedHome kind ((field cfg "description").getD [])
  if marker.any (· ≠ homeMount) || (marker.isNone && !pristine found current) || differs i current then
    .error refused
  else do
    if (← mounts cfg) ≠ ["mp0"] ∨ (cfg.get "hookscript").isSome then .error refused else .ok ()

def configOf (pve : Pve) (i : NewInstance) : Except Text Json :=
  match pve (lxcPath i.node i.ctid "/config") [] with
  | .ok cfg => .ok cfg
  | .error _ => .error (ct i.ctid ": cannot inspect initialization")

/-- `resumable`: the name of the container that is resumed, and what was seen of it. -/
def resumable (pve : Pve) (source : Source) (image digest pool : Text) (i : NewInstance) :
    Except Text (Text × Resume) := do
  let kind ← requireField source.marker "This service has no initialization to resume"
  let found ← container pve i.ctid
  let found ← requireField found "Initialization container disappeared"
  checkPlace pool i found
  let cfg ← configOf pve i
  checkOwner source kind image digest i cfg
  let current ← ServiceInstance.parse i.ctid i.node pool cfg (found.status = "running")
  let (root, _, _) ← verify i cfg
  let homeMount ← requireField (field cfg "mp0") "Home is missing"
  checkForeign source i current
  checkSettings kind homeMount i found cfg current
  .ok (current.hostname, ⟨homeMount, root, current.network, (field cfg "description").getD []⟩)

/-! ## Where an address is configured -/

/-- The inventory lists the guest. -/
def Listed (pve : Pve) (guest : Json) : Prop :=
  ∃ guests, pve resourcesPath vmQuery = .ok (.arr guests) ∧ guest ∈ guests

/-- A value of a network setting gives the address, with or without a prefix length. -/
def Gives (value : Text) (ip : Ipv4) : Prop :=
  ∃ length : Text, (length = [] ∨ length.head? = some '/') ∧
    "ip=" ++ (ip.toText ++ length) ∈ value.splitOn ','

/-- `net` of a container and `ipconfig` of a virtual machine, with the number of a slot. -/
def NetworkKey (kind key : Text) : Prop :=
  ∃ start slot, networkPrefix kind = .ok start ∧ key = start ++ slot ∧ slot ≠ [] ∧ Text.allDigits slot

/-- A listed guest has the address in a current or a pending network setting. -/
inductive ConfiguredOn (pve : Pve) (id : Nat) (ip : Ipv4) : Prop
  | intro {guest setting : Json} {kind node key name value : Text} {settings : List Json}
      (listed : Listed pve guest) (ofKind : field guest "type" = some kind) (vmid : vmidField guest = some id)
      (onNode : field guest "node" = some node)
      (pending : pve (pendingPath node kind id) [] = .ok (.arr settings))
      (mem : setting ∈ settings) (keyed : field setting "key" = some key) (network : NetworkKey kind key)
      (named : name = "value" ∨ name = "pending") (valued : field setting name = some value)
      (gives : Gives value ip)

theorem mem_valueAddresses {value : Text} {ip : Ipv4} (h : Gives value ip) : ip ∈ valueAddresses value := by
  obtain ⟨length, hlength, hmem⟩ := h
  have hhead : ((ip.toText ++ length).splitOn '/').headD [] = ip.toText := by
    rcases hlength with rfl | hlength
    · rw [List.append_nil, List.splitOn_eq_singleton ip.slash_not_mem_toText]
      rfl
    · obtain ⟨rest, rfl⟩ : ∃ rest, length = '/' :: rest := by
        cases length with
        | nil => cases hlength
        | cons c rest =>
          cases hlength
          exact ⟨rest, rfl⟩
      rw [List.splitOn_append_cons_self_of_not_mem ip.slash_not_mem_toText]
      rfl
  refine List.mem_filterMap.mpr ⟨ip.toText ++ length,
    List.mem_filterMap.mpr ⟨_, hmem, Text.isPrefixOf?_append _ _⟩, ?_⟩
  rw [hhead, Ipv4.parse_toText]

theorem requireField_ok {α : Type} {o : Option α} {message : Text} {a : α}
    (h : requireField o message = .ok a) : o = some a := by
  cases o with
  | none => cases h
  | some b =>
    cases h
    rfl

theorem pendingSettings_ok {pve : Pve} {node kind : Text} {id : Nat} {settings : List Json}
    (h : pendingSettings pve node kind id = .ok settings) : pve (pendingPath node kind id) [] =
      .ok (.arr settings) := by
  unfold pendingSettings at h
  split at h
  · cases h
  · rename_i found hfound
    have harray := requireField_ok h
    cases found <;> cases harray
    exact hfound

/-- What is configured on a listed guest is among its addresses. -/
theorem mem_guestAddresses {pve : Pve} {guest setting : Json} {kind node key name value : Text}
    {settings : List Json} {id : Nat} {ip : Ipv4} {found : List (Ipv4 × Nat)}
    (h : guestAddresses pve guest = .ok found) (hkind : field guest "type" = some kind)
    (hvmid : vmidField guest = some id) (hnode : field guest "node" = some node)
    (hpending : pve (pendingPath node kind id) [] = .ok (.arr settings)) (hmem : setting ∈ settings)
    (hkey : field setting "key" = some key) (hnetwork : NetworkKey kind key)
    (hname : name = "value" ∨ name = "pending") (hvalue : field setting name = some value)
    (hgives : Gives value ip) : (ip, id) ∈ found := by
  unfold guestAddresses at h
  obtain ⟨kind', hkind', h⟩ := Except.bind_ok h
  obtain ⟨start, hstart, h⟩ := Except.bind_ok h
  obtain ⟨id', hid', h⟩ := Except.bind_ok h
  obtain ⟨node', hnode', h⟩ := Except.bind_ok h
  obtain ⟨settings', hsettings', h⟩ := Except.bind_ok h
  obtain rfl : kind = kind' := Option.some.inj (hkind.symm.trans (requireField_ok hkind'))
  obtain rfl : id = id' := Option.some.inj (hvmid.symm.trans (requireField_ok hid'))
  obtain rfl : node = node' := Option.some.inj (hnode.symm.trans (requireField_ok hnode'))
  obtain rfl : settings = settings' := by
    have := hpending.symm.trans (pendingSettings_ok hsettings')
    cases this
    rfl
  obtain ⟨start', slot, hstart', rfl, hslot, hdigits⟩ := hnetwork
  obtain rfl : start = start' := by
    have := hstart.symm.trans hstart'
    cases this
    rfl
  have hisSlot : isSlot start (start ++ slot) = true := by
    simp [isSlot, Text.isPrefixOf?_append, hslot, hdigits]
  have hsetting : ip ∈ settingAddresses start setting := by
    rw [settingAddresses, hkey, if_pos (by simpa using hisSlot)]
    refine List.mem_flatMap.mpr ⟨value, List.mem_filterMap.mpr ⟨name, ?_, hvalue⟩, mem_valueAddresses hgives⟩
    rcases hname with rfl | rfl <;> simp
  cases h
  exact List.mem_map.mpr ⟨ip, List.mem_flatMap.mpr ⟨setting, hmem, hsetting⟩, rfl⟩

theorem mem_addresses {pve : Pve} {used : List (Ipv4 × Nat)} {id : Nat} {ip : Ipv4}
    (h : addresses pve = .ok used) (hconfigured : ConfiguredOn pve id ip) : (ip, id) ∈ used := by
  obtain ⟨⟨guests, hguests, hguest⟩, hkind, hvmid, hnode, hpending, hmem, hkey, hnetwork, hname,
    hvalue, hgives⟩ := hconfigured
  rw [addresses, hguests] at h
  simp only at h
  obtain ⟨guests', hguests', h⟩ := Except.bind_ok h
  obtain rfl : guests = guests' := Option.some.inj (requireField_ok hguests')
  obtain ⟨lists, hlists, h⟩ := Except.bind_ok h
  cases h
  obtain ⟨found, hfound, hread⟩ := Except.mem_mapM_ok hlists hguest
  rw [List.mem_insertionSort]
  exact List.mem_flatten.mpr ⟨found, hfound,
    mem_guestAddresses hread hkind hvmid hnode hpending hmem hkey hnetwork hname hvalue hgives⟩

/-- An address that was checked is configured on no other guest. -/
theorem checkAddress_ok {pve : Pve} {used : List (Ipv4 × Nat)} {ip : Ipv4} {ctid id : Nat}
    (hused : addresses pve = .ok used) (h : checkAddress used ip ctid = .ok ()) (hid : id ≠ ctid) :
    ¬ ConfiguredOn pve id ip := by
  intro hconfigured
  have hmem := mem_addresses hused hconfigured
  unfold checkAddress at h
  cases hfind : used.find? fun u => u.1 = ip ∧ u.2 ≠ ctid with
  | some u =>
    rw [hfind] at h
    cases h
  | none =>
    have := List.find?_eq_none.mp hfind (ip, id) hmem
    simp [hid] at this

/-! ## Addresses of numbers -/

/-- A number with an address has its last two octets. -/
theorem address_some {config : DeployConfig} {ctid : Nat} {ip : Ipv4} (h : address config ctid = some ip) :
    ctid = Address.vmidOf ip := by
  obtain ⟨gateway, -, hnumbered⟩ := Address.numbered_of_addressOf h
  unfold Address.numbered at hnumbered
  split at hnumbered
  · exact absurd ((Ipv4.parse_dot _).symm.trans hnumbered) (by simp)
  · simp only [Option.bind_eq_bind] at hnumbered
    split at hnumbered
    · cases hnumbered
    · obtain ⟨third, hthird, hrest⟩ := Option.bind_eq_some_iff.mp hnumbered
      obtain ⟨fourth, hfourth, hip⟩ := Option.bind_eq_some_iff.mp hrest
      obtain rfl := Option.some.inj hip
      simp only [Address.vmidOf, Address.octet_some hthird, Address.octet_some hfourth]
      omega

theorem address_inj {config : DeployConfig} {a b : Nat} {ip : Ipv4} (ha : address config a = some ip)
    (hb : address config b = some ip) : a = b :=
  (address_some ha).trans (address_some hb).symm

/-! ## Picking numbers -/

/-- Proxmox offers the number. -/
def IsFree (pve : Pve) (ctid : Nat) : Prop :=
  ∃ answer, pve "/cluster/nextid" [("vmid", Text.ofNat ctid)] = .ok answer

theorem free_true {pve : Pve} {ctid : Nat} (h : free pve ctid = .ok true) : IsFree pve ctid := by
  unfold free at h
  split at h
  · rename_i answer hanswer
    exact ⟨answer, hanswer⟩
  · split at h <;> cases h
  · cases h

theorem unallocated_iff {config : DeployConfig} {used : List (Ipv4 × Nat)} {ctid : Nat} :
    unallocated config used ctid = true ↔ ∃ ip, address config ctid = some ip ∧ ip ≠ config.gateway ∧
    ∀ u ∈ used, u.1 ≠ ip := by
  simp [unallocated, Option.any_eq_true]

/-- What the loop adds: free numbers of the range with addresses of their own, and not too many. -/
theorem pick_ok {config : DeployConfig} {pve : Pve} {used : List (Ipv4 × Nat)} {count : Nat}
    {range found ctids : List Nat} (h : pick config pve used count found range = .ok ctids) :
    ∃ more, ctids = found ++ more ∧ more.Sublist range ∧ (found.length ≤ count → ctids.length ≤ count) ∧
      ∀ c ∈ more, unallocated config used c = true ∧ IsFree pve c := by
  induction range generalizing found with
  | nil =>
    cases h
    exact ⟨[], by simp, List.Sublist.refl _, id, by simp⟩
  | cons c rest ih =>
    have hskip (h : pick config pve used count found rest = .ok ctids) : ∃ more, ctids = found ++ more ∧
        more.Sublist (c :: rest) ∧
        (found.length ≤ count → ctids.length ≤ count) ∧ ∀ c ∈ more, unallocated config used c = true ∧
          IsFree pve c := by
      obtain ⟨more, hmore, hsub, hlength, hall⟩ := ih h
      exact ⟨more, hmore, hsub.cons c, hlength, hall⟩
    rw [pick] at h
    split at h
    · cases h
      exact ⟨[], by simp, List.nil_sublist _, id, by simp⟩
    · rename_i hcount
      split at h
      · rename_i hunallocated
        obtain ⟨isFree, hfree, h⟩ := Except.bind_ok h
        cases isFree with
        | false => exact hskip h
        | true =>
          obtain ⟨more, hmore, hsub, hlength, hall⟩ := ih h
          refine ⟨c :: more, by simpa using hmore, hsub.cons_cons c, fun hle => hlength ?_, ?_⟩
          · rw [List.length_append, List.length_singleton]
            omega
          · exact List.forall_mem_cons.mpr ⟨⟨hunallocated, free_true hfree⟩, hall⟩
      · exact hskip h

/-- Numbers that can be given to new containers, judged by one reading of the cluster. -/
structure Unallocated (config : DeployConfig) (pve : Pve) (numbers : List Nat) : Prop where
  apart : numbers.Nodup
  addressesApart : (numbers.map (address config)).Nodup
  free : ∀ c ∈ numbers, IsFree pve c
  addressed : ∀ c ∈ numbers, ∃ ip, address config c = some ip ∧ ip ≠ config.gateway ∧
    ∀ id, ¬ ConfiguredOn pve id ip

theorem automatic_ok {config : DeployConfig} {pve : Pve} {instances : List Instance} {count : Nat}
    {ctids : List Nat} (h : automatic config pve instances count = .ok ctids) :
    ctids.length = count ∧ Unallocated config pve ctids := by
  unfold automatic at h
  split at h
  · rename_i hcount
    cases h
    exact ⟨hcount.symm, by simp, by simp, by simp, by simp⟩
  · obtain ⟨used, hused, h⟩ := Except.bind_ok h
    obtain ⟨found, hfound, h⟩ := Except.bind_ok h
    obtain ⟨more, hmore, hsub, hlength, hall⟩ := pick_ok hfound
    rw [List.nil_append] at hmore
    split at h
    · cases h
    · rename_i hle
      cases h
      subst hmore
      have hnodup : ctids.Nodup := hsub.nodup (List.nodup_range.map (add_right_injective _))
      have haddress (c : Nat) (hc : c ∈ ctids) :
          ∃ ip, address config c = some ip ∧ ip ≠ config.gateway ∧ ∀ id, ¬ ConfiguredOn pve id ip := by
        obtain ⟨ip, hip, hgateway, hunused⟩ := unallocated_iff.1 (hall c hc).1
        exact ⟨ip, hip, hgateway, fun id hid => hunused _ (mem_addresses hused hid) rfl⟩
      refine ⟨Nat.le_antisymm (hlength (Nat.zero_le _)) (Nat.le_of_not_lt hle), hnodup, ?_,
        fun c hc => (hall c hc).2, haddress⟩
      refine hnodup.map_on fun a ha b hb hab => ?_
      obtain ⟨ip, hip, -⟩ := haddress a ha
      exact address_inj hip (hab.symm.trans hip)

/-! ## Initializations that can be resumed -/

/-- The number of the container belongs to an unfinished initialization of the service: a listed container on
the node and in the pool, whose description is the one of this service, image and digest beside the marker,
with the planned address and sizes, and either marked with its own home or never started. -/
inductive Unfinished (pve : Pve) (source : Source) (image digest pool : Text) (i : NewInstance) (r : Resume) :
    Prop
  | intro {kind : Text} {item cfg : Json} {t : Instance}
      (marker : source.marker = some kind) (listed : Listed pve item) (isContainer : isLxc item = true)
      (vmid : (item.get "vmid").bind Json.asU64 = some i.ctid) (onNode : (field item "node").getD [] = i.node)
      (inPool : (field item "pool").getD [] = pool)
      (config : pve (lxcPath i.node i.ctid "/config") [] = .ok cfg)
      (owner : without ((field cfg "description").getD []) kind = description source image digest)
      (unlocked : cfg.get "lock" = none)
      (read : ServiceInstance.parse i.ctid i.node pool cfg
        ((field item "status").getD [] = "running") = .ok t)
      (planned : t.address = i.address ∧ t.cores = i.cores ∧ t.memoryMib = i.memoryMib ∧
        t.rootMib = i.rootMib ∧ t.homeMib = i.homeMib)
      (home : field cfg "mp0" = some r.homeMount)
      (unfinished : markedHome kind ((field cfg "description").getD []) = some r.homeMount ∨
        markedHome kind ((field cfg "description").getD []) = none ∧
          (field item "status").getD [] = "stopped" ∧
          ∀ e ∈ t.environment, Text.startsWith "HOMESTACK_" e.1 = false)

theorem container_ok {pve : Pve} {ctid : Nat} {found : Container}
    (h : container pve ctid = .ok (some found)) :
    ∃ item, Listed pve item ∧ isLxc item = true ∧ (item.get "vmid").bind Json.asU64 = some ctid ∧
      found = ⟨(field item "node").getD [], (field item "status").getD [], (field item "name").getD [],
        (field item "pool").getD []⟩ := by
  unfold container at h
  obtain ⟨answer, hanswer, h⟩ := Except.bind_ok h
  obtain ⟨item, hitem, hfound⟩ := Option.map_eq_some_iff.mp (Except.ok.inj h)
  have hmem := List.mem_of_find?_eq_some hitem
  obtain ⟨hlxc, hvmid⟩ : isLxc item = true ∧ (item.get "vmid").bind Json.asU64 = some ctid := by
    simpa using List.find?_some hitem
  refine ⟨item, ?_, hlxc, hvmid, hfound.symm⟩
  unfold resources at hanswer
  split at hanswer
  · rename_i listed hlisted
    cases hanswer
    cases answer with
    | arr guests => exact ⟨guests, hlisted, hmem⟩
    | _ => simp [Json.asArray] at hmem
  · cases hanswer

theorem checkPlace_ok {pool : Text} {i : NewInstance} {found : Container} {u : Unit}
    (h : checkPlace pool i found = .ok u) :
    found.node = i.node ∧ found.pool = pool := by
  unfold checkPlace at h
  split at h
  · cases h
  · rename_i hplace
    rw [not_or, not_not, not_not] at hplace
    exact hplace

theorem checkOwner_ok {source : Source} {kind image digest : Text} {i : NewInstance} {cfg : Json} {u : Unit}
    (h : checkOwner source kind image digest i cfg = .ok u) :
    without ((field cfg "description").getD []) kind = description source image digest ∧
      cfg.get "lock" = none := by
  unfold checkOwner at h
  split at h
  · cases h
  · rename_i howner
    rw [not_or, not_not] at howner
    exact ⟨howner.1, by simpa using howner.2⟩

theorem configOf_ok {pve : Pve} {i : NewInstance} {cfg : Json} (h : configOf pve i = .ok cfg) :
    pve (lxcPath i.node i.ctid "/config") [] = .ok cfg := by
  unfold configOf at h
  split at h
  · rename_i found hfound
    cases h
    exact hfound
  · cases h

theorem checkSettings_ok {kind homeMount : Text} {i : NewInstance} {found : Container} {cfg : Json}
    {t : Instance} {u : Unit} (h : checkSettings kind homeMount i found cfg t = .ok u) :
    (t.address = i.address ∧ t.cores = i.cores ∧ t.memoryMib = i.memoryMib ∧ t.rootMib = i.rootMib ∧
      t.homeMib = i.homeMib) ∧
      (markedHome kind ((field cfg "description").getD []) = some homeMount ∨
        markedHome kind ((field cfg "description").getD []) = none ∧ found.status = "stopped" ∧
          ∀ e ∈ t.environment, Text.startsWith "HOMESTACK_" e.1 = false) := by
  unfold checkSettings at h
  simp only at h
  split at h
  · cases h
  · rename_i hrefused
    simp only [Bool.or_eq_true, not_or, Bool.and_eq_true, not_and, Bool.not_eq_true] at hrefused
    obtain ⟨⟨hmarker, hpristine⟩, hdiffers⟩ := hrefused
    refine ⟨?_, ?_⟩
    · simpa [differs, and_assoc] using hdiffers
    · cases hmarked : markedHome kind ((field cfg "description").getD []) with
      | some marked =>
        rw [hmarked] at hmarker
        left
        simpa using hmarker
      | none =>
        rw [hmarked] at hpristine
        right
        simpa [pristine, -String.reduceToList] using hpristine

/-- What is resumed is an unfinished initialization, under the name that the container carries. -/
theorem resumable_ok {pve : Pve} {source : Source} {image digest pool name : Text} {i : NewInstance}
    {r : Resume} (h : resumable pve source image digest pool i = .ok (name, r)) :
    Unfinished pve source image digest pool i r ∧
      ∃ found cfg t, container pve i.ctid = .ok (some found) ∧
        pve (lxcPath i.node i.ctid "/config") [] = .ok cfg ∧
        ServiceInstance.parse i.ctid i.node pool cfg (found.status = "running") = .ok t ∧
          name = t.hostname := by
  unfold resumable at h
  obtain ⟨kind, hkind, h⟩ := Except.bind_ok h
  obtain ⟨listed, hlisted, h⟩ := Except.bind_ok h
  obtain ⟨found, hfound, h⟩ := Except.bind_ok h
  obtain ⟨_, hplace, h⟩ := Except.bind_ok h
  obtain ⟨cfg, hcfg, h⟩ := Except.bind_ok h
  obtain ⟨_, howner, h⟩ := Except.bind_ok h
  obtain ⟨t, ht, h⟩ := Except.bind_ok h
  obtain ⟨root, hroot, h⟩ := Except.bind_ok h
  obtain ⟨homeMount, hhome, h⟩ := Except.bind_ok h
  obtain ⟨_, hforeign, h⟩ := Except.bind_ok h
  obtain ⟨_, hsettings, h⟩ := Except.bind_ok h
  cases h
  obtain rfl := requireField_ok hfound
  obtain ⟨item, hitem, hlxc, hvmid, rfl⟩ := container_ok hlisted
  obtain ⟨hnode, hpool⟩ := checkPlace_ok hplace
  obtain ⟨howned, hlock⟩ := checkOwner_ok howner
  obtain ⟨hplanned, hunfinished⟩ := checkSettings_ok hsettings
  refine ⟨?_, _, cfg, t, hlisted, configOf_ok hcfg, ht, rfl⟩
  exact .intro (requireField_ok hkind) hitem hlxc hvmid hnode hpool
    (configOf_ok hcfg) howned hlock ht hplanned
    (requireField_ok hhome) hunfinished

end HomeStack.Deploy

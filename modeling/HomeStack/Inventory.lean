import HomeStack.Config
import HomeStack.Error
import HomeStack.Lib.Json

/-! What the operations read out of Proxmox data (`inventory.rs`): lenient
readings of JSON values, tags, disk specifications, slots and volume names.
A configuration is a map from keys to texts. -/

namespace HomeStack

/-- A VM configuration with every value as text. -/
abbrev VmConfig := Std.ExtTreeMap Text Text

def goldTag : Text := "homestack-gold"
def workspaceTag : Text := "homestack-ws"
def alienWorkspaceTag : Text := "homestack-alien"
def refreshLockTag : Text := "homestack-lock"
def homeLabelPrefix : Text := "HS_HOME_"

/-! ## JSON scalars as Python reads them -/

/-- `py_str`: `str(value)` -/
def pyStr : Json → Text
  | .str s => s
  | .null => "None"
  | .bool true => "True"
  | .bool false => "False"
  | v => v.render

/-- Python's truthiness of a JSON value. -/
def truthy : Option Json → Bool
  | none | some .null | some (.bool false) => false
  | some (.bool true) => true
  | some (.str s) => !s.isEmpty
  | some (.int n) => n ≠ 0
  | some (.dec num _ _) => num ≠ 0
  | some (.arr items) => !items.isEmpty
  | some (.obj entries) => !entries.isEmpty

/-- `str(value)` of a truthy value. -/
def textOrNone (value : Option Json) : Option Text :=
  if truthy value then value.map pyStr else none

/-- `integer_value`: `int(value)`, or nothing. -/
def integerValue : Option Json → Option Int
  | some (.int n) => some n
  | some (.dec num den _) => some (num.tdiv den)
  | some (.bool b) => some (if b then 1 else 0)
  | some (.str s) => Text.parseInt ((Text.trim s).filter (· ≠ '_'))
  | _ => none

/-- A VMID as `u32::try_from(integer_value(..))`. -/
def vmidValue (value : Option Json) : Option Nat :=
  (integerValue value).bind fun n => if 0 ≤ n ∧ n < 2 ^ 32 then some n.toNat else none

/-! ## Tags -/

/-- `parse_tags`: semicolon-separated, trimmed, non-empty. -/
def parseTags (value : Option Text) : List Text :=
  (((value.getD []).splitOn ';').map Text.trim).filter fun tag => !tag.isEmpty

def hasTag (value : Option Text) (tag : Text) : Bool := (parseTags value).contains tag

/-! ## Disks and slots -/

/-- The part of a disk specification before its first comma, trimmed. -/
def diskVolume (diskConfig : Text) : Text := Text.trim (diskConfig.takeWhile (· ≠ ','))

/-- `disk_storage`: the storage ID of a disk specification. -/
def diskStorage (diskConfig : Option Text) : Option Text := do
  let spec ← diskConfig.filter fun c => !c.isEmpty
  let (storage, _) ← Text.splitOnce ":" (diskVolume spec)
  if storage.isEmpty then none else some storage

/-- `disk_option`: the value of the first `key=value` after the volume. -/
def diskOption (diskConfig key : Text) : Option Text :=
  ((((diskConfig.splitOn ',').drop 1).filterMap (Text.splitOnce "=")).find? fun o => o.1 == key).map
    Prod.snd

/-- `slot_parts`: the letters and the number of a slot. -/
def slotParts (slot : Text) : Option (Text × Nat) :=
  let name := slot.takeWhile Char.isAlpha
  let index := slot.dropWhile Char.isAlpha
  if index.isEmpty || !Text.allDigits index then none
  else (Text.parseNat (2 ^ 32) index).map fun n => (name, n)

def hasStorage (volume : Text) : Bool := ':' ∈ volume

/-- A name made of `head` and decimal digits. -/
def isNumbered (head key : Text) : Bool :=
  match head.isPrefixOf? key with
  | some n => !n.isEmpty && Text.allDigits n
  | none => false

def isUnusedKey (key : Text) : Bool := isNumbered "unused" key

def isScsiKey (key : Text) : Bool := isNumbered "scsi" key

def isDiskSlot (key : Text) : Bool :=
  ["scsi", "virtio", "sata", "ide", "efidisk", "tpmstate"].any fun head => isNumbered head key

/-- `home_label`: `HS_HOME_<vmid>`, at most 16 bytes. -/
def homeLabel (vmid : Nat) : Except CoreError Text :=
  let label := homeLabelPrefix ++ Text.ofNat vmid
  if label.length > 16 then
    .error (.invalid ("Home filesystem label is too long for ext4: " ++ label))
  else .ok label

/-! ## Volume names -/

/-- A HomeStack volume name: `vm-<vmid>-hs-(root|home)-<name>`. -/
structure VolumeIdentity where
  volid : Text
  vmid : Nat
  role : Text
  name : Text
  deriving DecidableEq, Repr

/-- `strip_suffix` of the first extension that fits. -/
def stripExtension (basename : Text) : List Text → Text
  | [] => basename
  | e :: rest =>
    if e.isSuffixOf basename then basename.take (basename.length - e.length)
    else stripExtension basename rest

def volumeIdentity (volid : Text) : Option VolumeIdentity := do
  let (_, path) ← Text.splitOnce ":" volid
  let basename := stripExtension ((path.splitOn '/').getLastD path) [".raw", ".qcow2", ".vmdk"]
  let rest ← ("vm-" : Text).isPrefixOf? basename
  let (vmid, rest) ← Text.splitOnce "-hs-" rest
  if vmid.isEmpty || !Text.allDigits vmid then none
  else
    let (role, name) ← Text.splitOnce "-" rest
    let validName := !name.isEmpty &&
      name.all fun c => c.isAlphanum || c == '_' || c == '.' || c == '-'
    if !(role == "root".toList || role == "home".toList) || !validName then none
    else
      let vmid ← Text.parseNat (2 ^ 32) vmid
      return { volid := volid, vmid := vmid, role := role, name := name }

/-! ## Volumes of a configuration -/

/-- A Proxmox-backed volume of a VM. -/
structure VolumeEntry where
  slot : Text
  role : Text
  volume : Text
  storage : Option Text
  size : Option Text
  deriving DecidableEq, Repr

/-- The buses of slots that hold volumes, in the order they are shown. -/
def busOrder : List Text := ["ide", "sata", "scsi", "virtio", "efidisk", "tpmstate", "unused"]

/-- The role of a slot's volume. -/
def volumeRole (cfg : Config) (managedLayout : Bool) (slot bus value : Text) : Text :=
  if managedLayout ∧ slot = cfg.rootDisk then "root"
  else if managedLayout ∧ slot = cfg.homeDisk then "home"
  else if bus = "unused" then "unused"
  else if bus = "efidisk" then "efi"
  else if bus = "tpmstate" then "tpm"
  else if diskOption value "media" = some "cdrom".toList ∧ Text.contains "cloudinit" (diskVolume value) then
    "cloud-init"
  else "disk"

/-- One entry of a configuration as a volume, with its place in the order. -/
def volumeEntry (cfg : Config) (managedLayout : Bool) (entry : Text × Text) :
    Option ((Nat × Nat) × VolumeEntry) := do
  let (bus, index) ← slotParts entry.1
  let order ← busOrder.idxOf? bus
  let volume := diskVolume entry.2
  if volume = [] ∨ volume = "none" ∨ !hasStorage volume then none
  else
    some ((order, index),
      { slot := entry.1
        role := volumeRole cfg managedLayout entry.1 bus entry.2
        volume := volume
        storage := diskStorage (some entry.2)
        size := diskOption entry.2 "size" })

/-- `vm_volume_inventory`: Proxmox-backed volumes, `unusedN` included, by bus
order. -/
def vmVolumeInventory (vmCfg : VmConfig) (cfg : Config) : List VolumeEntry :=
  let managedLayout := !hasTag vmCfg["tags".toList]? alienWorkspaceTag
  let entries := vmCfg.toList.filterMap (volumeEntry cfg managedLayout)
  (entries.insertionSort fun a b => a.1.1 < b.1.1 ∨ (a.1.1 = b.1.1 ∧ a.1.2 ≤ b.1.2)).map Prod.snd

/-! ## Storage layouts -/

/-- `layout_name_for_node`: `homestack-storage-<N>` for a node whose name ends
in a number. -/
def layoutNameForNode (node : Text) : Option Text :=
  let digits := (node.reverse.takeWhile Char.isDigit).reverse
  let number := digits.dropWhile (· = '0')
  if number.isEmpty then none else some ("homestack-storage-" ++ number)

def storageIdsForNode (cfg : Config) (node : Text) : List Text :=
  ((layoutNameForNode node).bind fun layout =>
    (cfg.storageLayouts.find? fun l => l.1 == layout).map Prod.snd).getD []

end HomeStack

import HomeStack.EnsureKeys
import HomeStack.Lib.Prog

/-! The vendor script of Cloud-Init (`runcmd` of `cloudinit_vendor.yaml`) and the
guest it runs in. The script is a program over the commands it executes; a
command that changes something may fail, which ends the script (`set -e`).

Links are not modelled, and of the root disk only what the script reads of it. -/

namespace HomeStack.Vendor

/-- Whether the script may format a blank home. -/
inductive HomeFormat
  | create | keep
  deriving DecidableEq, Repr

/-! ## Disks -/

/-- A path below the home, by its components. -/
abbrev FilePath := List Text

abbrev Files := FilePath → Option Text

def authorizedKeys : FilePath := [".ssh", "authorized_keys"]

def inLostFound (path : FilePath) : Bool := path.head? = some "lost+found".toList

def inHostKeys (path : FilePath) : Bool := path.head? = some ".homestack-ssh-host-keys".toList

/-- What a disk holds. Without a filesystem it has no files. -/
structure Contents where
  fstype : Text
  label : Text
  /-- Block devices on it, such as partitions. -/
  children : Nat
  /-- What `wipefs -n` prints. -/
  signatures : Text
  files : Files
  blank : fstype = [] → ∀ path, files path = none

namespace Contents

/-- After `mkfs.ext4 -L label`. -/
def formatted (label : Text) (c : Contents) : Contents where
  fstype := "ext4"
  label := label
  children := c.children
  signatures := "0x438 ext4"
  files := fun _ => none
  blank := fun _ _ => rfl

/-- Files can be written where there is a filesystem. -/
def withFiles (f : Files → Files) (c : Contents) : Contents :=
  if h : c.fstype = [] then c else { c with files := f c.files, blank := fun h' => absurd h' h }

end Contents

structure Disk where
  path : Text
  serial : Text
  contents : Contents

/-- The `SERIAL` column as awk reads it. -/
def Disk.serialField (d : Disk) : Text := (awkFields d.serial).headD []

/-- `/^HS_HOME_[0-9]+$/` -/
def isHomeSerial (serial : Text) : Bool :=
  match ("HS_HOME_" : Text).isPrefixOf? serial with
  | some rest => !rest.isEmpty && rest.all Char.isDigit
  | none => false

/-! ## Guests -/

structure Account where
  name : Text
  uid : Text
  gid : Text

structure Guest where
  /-- The regular accounts of the account file. -/
  accounts : List Account
  disks : List Disk
  paths : (disks.map Disk.path).Nodup
  /-- The disk mounted at the home's path. -/
  mounted : Option Text
  /-- The keys of user-data, `none` when they cannot be read. -/
  userdata : Option Text
  rootKeys : Option Text

namespace Guest

def contents (g : Guest) (path : Text) : Option Contents :=
  (g.disks.find? fun d => d.path = path).map Disk.contents

def onDisk (g : Guest) (path : Text) (f : Contents → Contents) : Guest :=
  { g with
    disks := g.disks.map fun d => if d.path = path then { d with contents := f d.contents } else d
    paths := by
      have h : (g.disks.map fun d => if d.path = path then { d with contents := f d.contents } else d).map
          Disk.path = g.disks.map Disk.path := by
        rw [List.map_map]
        apply List.map_congr_left
        intro d _
        simp only [Function.comp_apply]
        split <;> rfl
      rw [h]
      exact g.paths }

/-- A change of the mounted home's files. -/
def onHome (g : Guest) (f : Files → Files) : Guest :=
  match g.mounted with
  | none => g
  | some path => g.onDisk path (Contents.withFiles f)

def homeFiles (g : Guest) : Files :=
  match g.mounted.bind g.contents with
  | none => fun _ => none
  | some c => c.files

end Guest

/-- `/root` or the home's path. -/
inductive Dir
  | root | home
  deriving DecidableEq, Repr

/-- `$dir/.ssh/authorized_keys` -/
def Guest.keysFile (g : Guest) : Dir → Option Text
  | .root => g.rootKeys
  | .home => g.homeFiles authorizedKeys

def Guest.setKeys (g : Guest) (dir : Dir) (text : Text) : Guest :=
  match dir with
  | .root => { g with rootKeys := some text }
  | .home => g.onHome fun files => Function.update files authorizedKeys (some text)

/-! ## Commands -/

/-- Commands that only report. -/
inductive Ask
  | accounts
  | lsblkSerials
  | blkidType (device : Text)
  | blkidLabel (device : Text)
  | userdataKeys
  | lsblkTypes (device : Text)
  | wipefs (device : Text)
  | mountpoint
  | isDir (dir : Dir)
  | statOwner (dir : Dir)
  | statGroup (dir : Dir)
  | isFile (dir : Dir)
  | tail (dir : Dir)
  | awk (dir : Dir) (id : Text)
  | hostKeysSaved
  | herdrService

/-- Commands that change the guest. -/
inductive Change
  | mkfs (device label : Text)
  | disableMountUnit
  | removeMountUnit
  | makeHome
  | cleanFstab
  | addFstab (label : Text)
  | daemonReload
  | mount (label : Text)
  | removeLostFound
  | chownHome
  | chmodHome
  | installSsh (dir : Dir)
  | writeKeys (keys : Text)
  | chownKeys
  | chmodKeys
  | createKeys (dir : Dir)
  | endLine (dir : Dir)
  | appendKey (dir : Dir) (key : Text)
  | removeRootHostKeys
  | restoreHostKeys
  | restartSsh
  | removeHostKeys
  | installHostKeys
  | saveHostKeys
  | enableLinger

inductive Cmd
  | ask (a : Ask)
  | change (c : Change)

/-- Reports, or whether a change succeeded. -/
abbrev Cmd.Answer : Cmd → Type
  | .ask .accounts => List Account
  | .ask .lsblkSerials => List (List Text)
  | .ask (.blkidType _) | .ask (.blkidLabel _) | .ask (.wipefs _) | .ask (.tail _) => Text
  | .ask .userdataKeys | .ask (.statOwner _) | .ask (.statGroup _) => Option Text
  | .ask (.lsblkTypes _) => Nat
  | .ask .mountpoint | .ask (.isDir _) | .ask (.isFile _) | .ask (.awk _ _) | .ask .hostKeysSaved
  | .ask .herdrService => Bool
  | .change _ => Bool

/-- What a report says of the guest. -/
def Ask.Reports (g : Guest) : (a : Ask) → (Cmd.ask a).Answer → Prop
  | .accounts, r => r = g.accounts
  | .lsblkSerials, r => r = g.disks.map fun d => d.path :: awkFields d.serial
  | .blkidType device, r => r = ((g.contents device).map Contents.fstype).getD []
  | .blkidLabel device, r => r = ((g.contents device).map Contents.label).getD []
  | .userdataKeys, r => r = g.userdata
  | .lsblkTypes device, r => r = ((g.contents device).map fun c => c.children + 1).getD 0
  | .wipefs device, r => r = ((g.contents device).map Contents.signatures).getD []
  | .mountpoint, r => r = g.mounted.isSome
  | .isFile dir, r => r = (g.keysFile dir).isSome
  | .tail dir, r => r = lastByte ((g.keysFile dir).getD [])
  | .awk dir id, r => r = awkHas id ((g.keysFile dir).getD [])
  -- owners, modes and other files
  | .isDir _, _ | .statOwner _, _ | .statGroup _, _ | .hostKeysSaved, _ | .herdrService, _ => True

/-- What a successful command does. -/
def Change.Done (g : Guest) : Change → Guest → Prop
  | mkfs device label, g' => g' = g.onDisk device (Contents.formatted label)
  -- stopping the unit unmounts the home, when the unit has mounted it
  | disableMountUnit, g' => g' = g ∨ g' = { g with mounted := none }
  -- by label, through the new line of `/etc/fstab`
  | mount label, g' => ∃ d ∈ g.disks, d.contents.fstype = "ext4" ∧ d.contents.label = label ∧
      g' = { g with mounted := some d.path }
  | removeLostFound, g' => g' = g.onHome fun files path => if inLostFound path then none else files path
  | writeKeys keys, g' => g' = g.setKeys .home (keys ++ "\n")
  | createKeys dir, g' => g' = g.setKeys dir []
  | endLine dir, g' => g' = g.setKeys dir ((g.keysFile dir).getD [] ++ "\n")
  | appendKey dir key, g' => g' = g.setKeys dir ((g.keysFile dir).getD [] ++ (key ++ "\n"))
  | removeHostKeys, g' => g' = g.onHome fun files path => if inHostKeys path then none else files path
  | saveHostKeys, g' => ∃ new : Files, g' = g.onHome fun files path => if inHostKeys path then new path
    else files path
  | removeMountUnit, g' | makeHome, g' | cleanFstab, g' | addFstab _, g' | daemonReload, g' | chownHome, g'
  | chmodHome, g' | installSsh _, g' | chownKeys, g' | chmodKeys, g' | removeRootHostKeys, g'
  | restoreHostKeys, g' | restartSsh, g' | installHostKeys, g' | enableLinger, g' => g' = g

/-- What a command that breaks off may leave. `torn`: so may the write of the keys, whose redirection
has emptied the file before. -/
def Change.Broken (torn : Bool) (g : Guest) : Change → Guest → Prop
  | mkfs device _, g' => ∃ c : Contents, (∀ path, c.files path = none) ∧ g' = g.onDisk device fun _ => c
  | removeLostFound, g' => ∃ rest : Files, g' = g.onHome fun files path => if inLostFound path then rest path
    else files path
  | removeHostKeys, g' | saveHostKeys, g' =>
    ∃ rest : Files, g' = g.onHome fun files path => if inHostKeys path then rest path else files path
  | writeKeys keys, g' => torn = true ∧ ∃ part, part <+: (keys ++ "\n" : Text) ∧ g' = g.setKeys .home part
  | appendKey dir key, g' =>
    ∃ part, part <+: (key ++ "\n" : Text) ∧ g' = g.setKeys dir ((g.keysFile dir).getD [] ++ part)
  | _, _ => False

/-- Guests answer truly. A change that fails is made, not made or broken off. -/
def guest (torn : Bool) : Prog.Env Cmd Cmd.Answer Guest where
  next g q r g' :=
    match q, r with
    | .ask a, r => a.Reports g r ∧ g' = g
    | .change c, true => c.Done g g'
    | .change c, false => g' = g ∨ c.Done g g' ∨ c.Broken torn g g'

/-! ## The script -/

/-- Ends with an exit status other than 0 by an exception. -/
abbrev Script (α : Type) := ExceptT Nat (Prog Cmd Cmd.Answer) α

def ask (a : Ask) : Script (Cmd.ask a).Answer := liftM (Prog.call (.ask a) : Prog Cmd Cmd.Answer _)

/-- A command with `|| true`. -/
def attempt (c : Change) : Script Bool := liftM (Prog.call (.change c) : Prog Cmd Cmd.Answer _)

/-- A command under `set -e`. -/
def exec (c : Change) : Script Unit := do
  if !(← attempt c) then throw 1

/-- `owner=$(…)` under `set -e` -/
def required (answer : Option Text) : Script Text :=
  match answer with
  | some t => pure t
  | none => throw 1

/-- `awk '$2 ~ /^HS_HOME_[0-9]+$/ { print $1 " " $2 }'` -/
def homeDisks (rows : List (List Text)) : List (Text × Text) :=
  (rows.filter fun fields => isHomeSerial (fields.getD 1 [])).map fun fields =>
    (fields.getD 0 [], fields.getD 1 [])

/-- `$(…)` drops NULs and the line ends at the end. -/
def substitution (output : Text) : Text := (output.filter (· ≠ '\x00')).rdropWhile (· = '\n')

/-- Format a blank new home; refuse any other disk that is not a home. -/
def prepareDisk (format : HomeFormat) (device expectedLabel fstype fslabel : Text) : Script Unit := do
  if fstype = "ext4" ∧ fslabel = expectedLabel then return
  else if fstype = [] ∧ fslabel = [] then
    if format ≠ .create then throw 71
    if (← ask (.lsblkTypes device)) ≠ 1 then throw 72
    if (← ask (.wipefs device)) ≠ [] then throw 73
    exec (.mkfs device expectedLabel)
  else throw 74

def mountHome (label : Text) : Script Unit := do
  let _ ← attempt .disableMountUnit
  exec .removeMountUnit
  exec .makeHome
  exec .cleanFstab
  exec (.addFstab label)
  exec .daemonReload
  if !(← ask .mountpoint) then exec (.mount label)

/-- `if [ "$allow_format" = "1" ]` -/
def initHome (keys : Text) : Script Unit := do
  exec .removeLostFound
  exec .chownHome
  exec .chmodHome
  exec (.installSsh .home)
  exec (.writeKeys keys)
  exec .chownKeys
  exec .chmodKeys

/-- The body of the `while` loop. -/
def ensureKeyIn (dir : Dir) (key : Text) : Script Unit := do
  if key = [] then return
  if !(← ask (.awk dir (awkId key))) then exec (.appendKey dir key)

/-- The keys of user-data that one directory's file lacks are appended. -/
def ensureKeysIn (keys : Text) (dir : Dir) : Script Unit := do
  if !(← ask (.isDir dir)) then return
  let _ ← required (← ask (.statOwner dir))
  let _ ← required (← ask (.statGroup dir))
  exec (.installSsh dir)
  if !(← ask (.isFile dir)) then exec (.createKeys dir)
  if (← ask (.tail dir)) ≠ [] then exec (.endLine dir)
  (keys.splitOn '\n').forM (ensureKeyIn dir)

/-- Persistent SSH host keys. -/
def hostKeys : Script Unit := do
  if ← ask .hostKeysSaved then
    exec .removeRootHostKeys
    exec .restoreHostKeys
    exec .restartSsh
  else
    exec .removeHostKeys
    exec .installHostKeys
    exec .saveHostKeys

/-- The script after its disk is found. -/
def setupHome (format : HomeFormat) (device expectedLabel : Text) : Script Unit := do
  let fstype ← ask (.blkidType device)
  let fslabel ← ask (.blkidLabel device)
  let keys := substitution (← required (← ask .userdataKeys))
  if format = .create ∧ keys = [] then throw 76
  prepareDisk format device expectedLabel fstype fslabel
  mountHome expectedLabel
  if format = .create then initHome keys
  ensureKeysIn keys .root
  ensureKeysIn keys .home
  hostKeys
  if ← ask .herdrService then exec .enableLinger

def runcmd (format : HomeFormat) : Script Unit := do
  if (← ask .accounts).length ≠ 1 then throw 75
  match homeDisks (← ask .lsblkSerials) with
  | [(device, expectedLabel)] => setupHome format device expectedLabel
  | _ => throw 70

end HomeStack.Vendor

import HomeStack.Error
import HomeStack.Lib.Decimal
import HomeStack.Lib.F64
import HomeStack.Lib.Json
import HomeStack.Lib.Lines
import HomeStack.Lib.Runs

/-! The read-only guest inspection of `resize` (`resize_guest.rs`): which block devices a mounted
filesystem lies on, down to the disk. The guest answers what the inspection asks; what `serde_json` and
the Unicode tables of `char` say is given with it. -/

namespace HomeStack.ResizeGuest

open Runs

/-! ## What is found -/

inductive Role
  | root
  | home
  deriving DecidableEq

inductive CryptAuth
  | keyfile
  | passphrase

structure CryptLayer where
  name : Text
  device : Text
  keyFile : Option Text
  auth : CryptAuth

structure LvmLayer where
  lvPath : Text
  pvPath : Text
  lvSizeBytes : Nat
  extentSizeBytes : Nat
  vgName : Text

/-- What the inspection found: the script's JSON output. -/
structure GuestLayout where
  device : Text
  parent : Text
  partition : Option Nat
  sizeBytes : Nat
  partitionDevice : Option Text
  crypt : Option CryptLayer
  lvm : Option LvmLayer
  filesystem : Text
  mount : Text
  btrfsDevid : Option Nat

inductive FileKind
  | missing
  | regular
  | other

inductive FileError
  | missing
  | unreadable (reason : Text)

/-- The guest as the inspection reads it. -/
structure GuestSystem where
  hasTool : Text → Except CoreError Bool
  run : List Text → Except CoreError (Except Text Text)
  read : Text → Except CoreError (Except FileError Text)
  realpaths : List Text → Except CoreError (List Text)
  listDir : Text → Except CoreError (List Text)
  fileKind : Text → Except CoreError FileKind
  /-- `serde_json::from_str` -/
  fromStr : Text → Except Text Json
  /-- `char::is_alphanumeric` -/
  isAlphanumeric : Char → Bool

/-- Why the inspection stopped. -/
inductive InspectError
  | guest (message : Text)
  | core (error : CoreError)

/-- The real paths that are known. -/
abbrev Real := List (Text × Text)

abbrev Inspect (α : Type) := Runs Real InspectError α

def fail {α : Type} (message : Text) : Inspect α := throw (.guest message)

def require (condition : Bool) (message : Text) : Inspect PUnit := if condition then pure ⟨⟩ else fail message

/-- A question to the guest. -/
def ask {α : Type} (answer : Except CoreError α) : Inspect α :=
  match answer with
  | .ok a => pure a
  | .error e => throw (.core e)

/-! ## Texts -/

/-- Python's `str(value or '')`. -/
def pyStr : Option Json → Text
  | none | some .null | some (.bool false) => []
  | some (.str text) => text
  | some (.bool true) => "True"
  | some (.int n) => if n = 0 then [] else Json.intText n
  | some (.dec num _ text) => if num = 0 then [] else text
  | some other => other.render

/-- Python's `str(value)`. -/
def pyReprStr : Option Json → Text
  | none | some .null => "None"
  | some (.str text) => text
  | some other => other.render

def basename (path : Text) : Text := (path.splitOn '/').getLastD path

/-- An integral number, from a JSON number or its text. -/
def decimalInt (value : Option Json) (description : Text) : Except Text Nat :=
  let invalid := .error ("Invalid " ++ description ++ ": " ++ pyReprStr value)
  let text := match value with
    | some (.int n) => some (Json.intText n)
    | some (.dec _ _ text) => some text
    | some (.str text) => some (Text.trim text)
    | _ => none
  match text with
  | none => invalid
  | some text =>
    let unsigned := match text with
      | '+' :: rest => rest
      | _ => text
    let (whole, fraction) := (Text.splitOnce "." unsigned).getD (unsigned, [])
    if (whole = [] ∧ fraction = []) ∨ !Text.allDigits whole ∨ !Text.allDigits fraction then
      match F64.parse text with
      | some (.finite q) =>
        if q.den ≠ 1 then .error ("Non-integer " ++ description)
        else if 0 ≤ q ∧ q < 18000000000000000000 then .ok (F64.toU64 q)
        else invalid
      | _ => invalid
    else if fraction.any (· ≠ '0') then .error ("Non-integer " ++ description)
    else if whole = [] then .ok 0
    else (Text.parseNat (2 ^ 64) whole).elim invalid .ok

/-- `decimal_int`, failing the inspection. -/
def decimal (value : Option Json) (description : Text) : Inspect Nat :=
  match decimalInt value description with
  | .ok n => pure n
  | .error message => fail message

/-- A row of `lsblk`. -/
structure Row where
  name : Text
  kind : Text
  pkname : Option Json
  serial : Text
  size : Option Json
  mm : Text

def isOctal (c : Char) : Bool := '0' ≤ c && c ≤ '7'

/-- Every backslash is before three octal digits. -/
def escapesValid : Text → Bool
  | [] => true
  | c :: rest => (c ≠ '\\' || ((rest.take 3).length = 3 && (rest.take 3).all isOctal)) && escapesValid rest

/-- Octal escapes decoded. -/
def decodeOctal : Text → Text
  | '\\' :: a :: b :: c :: rest =>
    Char.ofNat (((a.toNat - 48) * 8 + (b.toNat - 48)) * 8 + (c.toNat - 48)) :: decodeOctal rest
  | c :: rest => c :: decodeOctal rest
  | [] => []

/-- A line of `/etc/crypttab` split into fields, with octal escapes decoded. -/
def crypttabTokens (line : Text) : Inspect (List Text) :=
  let line := Text.trim ((line.splitOn '#').headD [])
  if line = [] then pure []
  else do
    require (escapesValid line) "Unsupported escape in /etc/crypttab"
    pure ((Text.words Text.isWhitespace line).map decodeOctal)

/-- `report_rows`: the `key` rows of an LVM JSON report. -/
def reportRows (value : Json) (key : Text) : List Json :=
  (((value.get "report").bind Json.asArray).getD []).flatMap fun report =>
    ((report.get key).bind Json.asArray).getD []

/-- `Total devices N` of `btrfs filesystem show`. -/
def btrfsTotalDevices (shown : Text) : Option Nat := do
  let (_, rest) ← Text.splitOnce "Total devices" shown
  let trimmed := Text.trimStart rest
  if trimmed.length = rest.length then none else Text.parseNat (2 ^ 64) (trimmed.takeWhile Char.isDigit)

section

variable (guest : GuestSystem)

/-- The first `path P` of a `devid` line, at a word boundary: `before` is the character before `tail`. -/
def btrfsPath (before : Option Char) : Text → Option Text
  | [] => none
  | c :: tail =>
    match ("path" : Text).isPrefixOf? (c :: tail) with
    | some value =>
      let path := Text.trimStart value
      if before.all (fun c => !(guest.isAlphanumeric c || c = '_')) && path.length < value.length &&
        Text.trimEnd path ≠ [] then
        some (Text.trimEnd path)
      else btrfsPath (some c) tail
    | none => btrfsPath (some c) tail

/-- A `devid N ... path P` line. -/
def btrfsDevice (line : Text) : Option (Nat × Text) := do
  let rest ← ("devid" : Text).isPrefixOf? (Text.trimStart line)
  let after := Text.trimStart rest
  let devid ← if after.length = rest.length then none
  else Text.parseNat (2 ^ 64) (after.takeWhile Char.isDigit)
  let path ← btrfsPath guest none (after.dropWhile Char.isDigit)
  some (devid, path)

def btrfsDevices (shown : Text) : List (Nat × Text) := (Text.lines shown).filterMap (btrfsDevice guest)

def plainOptions : List Text :=
  ["keyscript", "offset", "skip", "sector-size", "keyfile-offset", "keyfile-size", "key-slot", "header"]

/-- Options of a crypttab row the resize cannot honour. -/
def unsupportedOption (option : Text) : Bool :=
  plainOptions.contains option || plainOptions.any fun name => Text.startsWith (name ++ ['=']) option

/-! ## Questions -/

def tool (name : Text) : Inspect PUnit := do
  let found ← ask (guest.hasTool name)
  require found ("Missing guest tool: " ++ name)

def command (argv : List Text) : Inspect Text := do
  match ← ask (guest.run argv) with
  | .ok output => pure (Text.trim output)
  | .error reason => fail ("Guest command failed: " ++ argv.headD [] ++ ": " ++ reason)

def optionalCommand (argv : List Text) : Inspect Text := do
  match ← ask (guest.run argv) with
  | .ok output => pure (Text.trim output)
  | .error _ => pure []

def jsonCommand (argv : List Text) : Inspect Json := do
  let output ← command guest argv
  match guest.fromStr output with
  | .ok value => pure value
  | .error error => fail ("Invalid output from " ++ argv.headD [] ++ ": " ++ error)

/-- Ask for the real paths that are not known, each once and in order. -/
def prefetch (paths : List Text) : Inspect PUnit := do
  let known ← get
  let wanted := ((paths.filter fun path => (known.lookup path).isNone).dedup).insertionSort (· ≤ ·)
  if wanted = [] then pure ⟨⟩
  else do
    let real ← ask (guest.realpaths wanted)
    if real.length ≠ wanted.length then
      throw (.core (.unusable "realpath returned a different number of paths"))
    else set (known ++ wanted.zip real)

def realpath (path : Text) : Inspect Text := do
  let known ← get
  match known.lookup path with
  | some real => pure real
  | none => do
    prefetch guest [path]
    let known ← get
    pure ((known.lookup path).getD path)

def sysfsValue (path : Text) : Inspect Text := do
  match ← ask (guest.read path) with
  | .ok text => pure (Text.trim text)
  | .error _ => pure []

end

/-! ## The rows of `lsblk` -/

/-- The rows and which of them a real path is; a later row takes a path over. -/
structure Inspector where
  guest : GuestSystem
  rows : List Row
  byPath : List (Text × Fin rows.length)

namespace Inspector

variable (this : Inspector)

abbrev Index := Fin this.rows.length

def row (i : this.Index) : Row := this.rows.get i

def rowFor (value : Text) : Inspect (Option this.Index) :=
  if value = [] then pure none
  else do
    let value := if Text.startsWith "/" value then value else "/dev/" ++ value
    let real ← realpath this.guest value
    pure (this.byPath.lookup real)

/-- `MAJ:MIN`, or the real path. -/
def rowKey (i : this.Index) : Inspect Text :=
  if (this.row i).mm ≠ [] then pure (this.row i).mm else realpath this.guest (this.row i).name

def dmName (i : this.Index) : Inspect Text := do
  let real ← realpath this.guest (this.row i).name
  let base := basename real
  if !Text.startsWith "dm-" base then pure []
  else sysfsValue this.guest ("/sys/class/block/" ++ base ++ "/dm/name")

/-- A row under its key; a later row takes the key over. -/
def addParent (found : List (Text × this.Index)) (key : Text) (i : this.Index) : List (Text × this.Index) :=
  if found.any fun e => e.1 = key then found.map fun e => if e.1 = key then (key, i) else e
  else found ++ [(key, i)]

/-- The row of a name, under its key. -/
def addCandidate (found : List (Text × this.Index)) (value : Text) : Inspect (List (Text × this.Index)) := do
  match ← this.rowFor value with
  | none => pure found
  | some candidate => do
    let key ← this.rowKey candidate
    pure (this.addParent found key candidate)

def slavesPath (base : Text) : Text := "/sys/class/block/" ++ base ++ "/slaves"

/-- The rows below a row, by its `PKNAME` and its slaves. -/
def parents (i : this.Index) : Inspect (List this.Index) := do
  let found ← this.addCandidate [] (pyStr (this.row i).pkname)
  let real ← realpath this.guest (this.row i).name
  let slaves ← ask (this.guest.listDir (slavesPath (basename real)))
  let found ← slaves.foldlM this.addCandidate found
  pure (found.map Prod.snd)

/-- A disk or a partition, where the chain ends. -/
def physical (i : this.Index) : Bool := (this.row i).kind = "disk" || (this.row i).kind = "part"

/-- The only row below a row. -/
def onlyParent (current : this.Index) : Inspect this.Index := do
  match ← this.parents current with
  | [] => fail ("Cannot identify parent of " ++ (this.row current).name)
  | [parent] => pure parent
  | _ => fail ("Ambiguous multiple parents for " ++ (this.row current).name)

/-- The loop of `walk_chain`, of at most `fuel` rounds; `chain` is reversed. -/
def walk : Nat → List this.Index → List Text → this.Index → Inspect (List this.Index)
  | 0, chain, _, current => if this.physical current then pure chain.reverse else diverge
  | fuel + 1, chain, seen, current =>
    if this.physical current then pure chain.reverse
    else do
      let next ← this.onlyParent current
      let key ← this.rowKey next
      require (!seen.contains key) "Cyclic block-device parent chain"
      walk fuel (next :: chain) (key :: seen) next

def walkChain (fuel : Nat) (start : this.Index) : Inspect (List this.Index) := do
  let key ← this.rowKey start
  this.walk fuel [start] [key] start

def sameBlock (left right : Text) : Inspect Bool :=
  if left = [] ∨ right = [] then pure false
  else do
    let leftRow ← this.rowFor left
    let rightRow ← this.rowFor right
    match leftRow, rightRow with
    | some leftRow, some rightRow => do
      let leftKey ← this.rowKey leftRow
      let rightKey ← this.rowKey rightRow
      pure (leftKey = rightKey)
    | _, _ => do
      let left ← realpath this.guest left
      let right ← realpath this.guest right
      pure (left = right)

def crypttabRow (rows : List (List Text)) (line : Text) : Inspect (List (List Text)) := do
  let fields ← crypttabTokens line
  if fields = [] then pure rows
  else do
    require (3 ≤ fields.length && fields.length ≤ 4) "Unsupported /etc/crypttab row"
    pure (rows ++ [fields])

def crypttabRows : Inspect (List (List Text)) := do
  match ← ask (this.guest.read "/etc/crypttab") with
  | .ok text => (Text.lines text).foldlM crypttabRow []
  | .error .missing => pure []
  | .error (.unreadable reason) => fail ("Cannot read /etc/crypttab: " ++ reason)

/-! ## The device stack -/

/-- A path that the backing device is known by; all of them are one device. -/
def btrfsCandidate (entry : Option this.Index) (candidate : Text) : Inspect (Option this.Index) :=
  if candidate = [] then pure entry
  else do
    match ← this.rowFor candidate, entry with
    | none, entry => pure entry
    | some found, none => pure (some found)
    | some found, some known => do
      let knownKey ← this.rowKey known
      let foundKey ← this.rowKey found
      require (knownKey = foundKey) "Mounted btrfs device does not match filesystem info"
      pure (some known)

/-- The mounted device, and the `devid` of a btrfs filesystem. -/
def mountedDevice (filesystem source fsMm mount : Text) : Inspect (this.Index × Option Nat) :=
  if filesystem = "ext4" then do
    require (fsMm ≠ []) ("Mounted filesystem has no MAJ:MIN: " ++ source)
    match (List.finRange this.rows.length).filter fun i => (this.row i).mm = fsMm with
    | [entry] => pure (entry, none)
    | _ => fail ("Cannot identify mounted block device: " ++ source ++ " (" ++ fsMm ++ ")")
  else do
    let shown ← command this.guest ["btrfs", "filesystem", "show", "--raw", mount]
    require (btrfsTotalDevices shown = some 1) "Resize requires a single-device btrfs filesystem"
    match btrfsDevices this.guest shown with
    | [(devid, path)] => do
      require (path ≠ "unknown" && path ≠ "-") "Cannot identify the btrfs backing device"
      let found ← [Text.trim path, (source.splitOn '[').headD []].foldlM this.btrfsCandidate none
      match found with
      | some entry => pure (entry, some devid)
      | none => fail "Cannot identify the mounted btrfs block device"
    | _ => fail "Cannot identify the btrfs backing device"

def types (chain : List this.Index) : List Text := chain.map fun i => (this.row i).kind

def position (chain : List this.Index) (kind : Text) : Option Nat := (this.types chain).findIdx? (· = kind)

/-- At most one encryption and one LVM layer, the latter above. -/
def checkLayers (chain : List this.Index) : Inspect PUnit := do
  require ((this.types chain).all fun kind => ["disk".toList, "part", "crypt", "lvm"].contains kind)
    ("Unsupported block-device layout: " ++ List.intercalate " -> " (this.types chain))
  require ((this.types chain).count "crypt".toList ≤ 1 && (this.types chain).count "lvm".toList ≤ 1)
    "Nested encrypted or LVM layouts are not supported"
  match this.position chain "crypt", this.position chain "lvm" with
  | some crypt, some lvm => require (lvm < crypt) "Unsupported LVM/encryption nesting"
  | _, _ => pure ⟨⟩

/-- The disk of the last device of the chain. -/
def parentDisk (last : this.Index) : Inspect this.Index :=
  if (this.row last).kind = "part" then do
    match ← this.rowFor (pyStr (this.row last).pkname) with
    | some parent =>
      if (this.row parent).kind = "disk" then pure parent else fail "Unsupported partition parent"
    | none => fail "Unsupported partition parent"
  else pure last

/-- The disks, without `zram`. -/
def disks : List this.Index :=
  (List.finRange this.rows.length).filter fun i => (this.row i).kind = "disk" && !Text.startsWith
    "zram" (basename (this.row i).name)

/-- The disks that carry the home's serial. -/
def homes (label : Text) : List this.Index := this.disks.filter fun i => Text.trim (this.row i).serial = label

/-- The disk of the mount is that of the role. -/
def checkRole (role : Role) (label : Text) (entry parent : this.Index) : Inspect PUnit := do
  require (this.disks.length = 2) "Resize requires exactly the root and home data disks"
  match this.homes label with
  | [home] => do
    let parentKey ← this.rowKey parent
    let homeKey ← this.rowKey home
    require (decide (parentKey = homeKey) = decide (role = .home))
      "Mounted filesystem does not match the selected workspace disk"
    if role = .home then do
      let found ← command this.guest ["blkid", "-s", "LABEL", "-o", "value", (this.row entry).name]
      require (found = label) "Persistent home label mismatch"
    else pure ⟨⟩
  | _ => fail "Cannot identify the persistent home disk by serial"

def geometry (name : Text) : Text := "Cannot inspect partition geometry: " ++ name

def startOf (base : Text) : Text := "/sys/class/block/" ++ base ++ "/start"

/-- A partition of the disk does not start after the selected one. -/
def checkLater (parentKey : Text) (start : Int) (candidate : this.Index) : Inspect PUnit :=
  if (this.row candidate).kind ≠ "part" then pure ⟨⟩
  else do
    match ← this.rowFor (pyStr (this.row candidate).pkname) with
    | none => pure ⟨⟩
    | some candidateParent => do
      let key ← this.rowKey candidateParent
      if key ≠ parentKey then pure ⟨⟩
      else do
        let real ← realpath this.guest (this.row candidate).name
        let value ← sysfsValue this.guest (startOf (basename real))
        match Text.parseInt value with
        | none => fail (geometry (this.row candidate).name)
        | some candidateStart =>
          require (candidateStart ≤ start) "Selected partition is not the last partition on disk"

/-- The number and the device of the partition that the chain ends on, which is the last of its disk. -/
def partitionOf (last parent : this.Index) : Inspect (Option (Nat × Text)) :=
  if (this.row last).kind = "part" then do
    tool this.guest "growpart"
    let name := (this.row last).name
    let real ← realpath this.guest name
    let base := basename real
    let number ← sysfsValue this.guest ("/sys/class/block/" ++ base ++ "/partition")
    let first ← sysfsValue this.guest (startOf base)
    match Text.parseInt number, Text.parseInt first with
    | some number, some start => do
      require (0 < number && number < 2 ^ 32) ("Invalid partition number: " ++ name)
      let parentKey ← this.rowKey parent
      (List.finRange this.rows.length).foldlM (fun _ candidate =>
        this.checkLater parentKey start candidate) ⟨⟩
      pure (some (number.toNat, name))
    | _, _ => fail (geometry name)
  else pure none

/-! ## Encryption -/

def mapperName (i : this.Index) : Inspect Text := do
  let name ← this.dmName i
  if name ≠ [] then pure name
  else if Text.contains "/mapper/" (this.row i).name then pure (basename (this.row i).name)
  else do
    let real ← realpath this.guest (this.row i).name
    pure (basename real)

/-- What `blkid` says of the backing device, and where it is. -/
structure Backing where
  uuid : Text
  partuuid : Text
  label : Text
  real : Text

/-- The source of a crypttab row is the backing device. -/
def sourceMatches (backing : Backing) (source : Text) : Inspect Bool :=
  match ("UUID=" : Text).isPrefixOf? source with
  | some value => pure (value = backing.uuid)
  | none =>
    match ("PARTUUID=" : Text).isPrefixOf? source with
    | some value => pure (value = backing.partuuid)
    | none =>
      match ("LABEL=" : Text).isPrefixOf? source with
      | some value => pure (value = backing.label)
      | none =>
        if source = "none" ∨ source = "-" then pure false
        else do
          let real ← realpath this.guest source
          pure (real = backing.real)

def matchRow (mapper : Text) (backing : Backing) (found : List (List Text)) (fields : List Text) :
    Inspect (List (List Text)) :=
  if fields.getD 0 [] ≠ mapper then pure found
  else do
    let same ← this.sourceMatches backing (fields.getD 1 [])
    pure (if same then found ++ [fields] else found)

/-- The key file of a crypttab row, if it names one. -/
def keyOf (fields : List Text) : Inspect (Option Text) :=
  let key := fields.getD 2 []
  let options := match fields[3]? with
    | some options => if options = [] then [] else options.splitOn ','
    | none => []
  match options.find? unsupportedOption with
  | some option => fail ("Unsupported /etc/crypttab option: " ++ option)
  | none =>
    if key = "none" ∨ key = "-" then pure none
    else do
      require (Text.startsWith "/" key) ("Crypttab key file must be an absolute path: " ++ key)
      match ← ask (this.guest.fileKind key) with
      | .missing => fail ("Crypttab key file is missing: " ++ key)
      | .other => fail ("Crypttab key file is not a regular file: " ++ key)
      | .regular => pure (some key)

def blkid (tag device : Text) : Inspect Text :=
  optionalCommand this.guest ["blkid", "-s", tag, "-o", "value", device]

/-- The encryption layer: the mapper, its device and how it is unlocked. -/
def cryptLayer (i : this.Index) : Inspect CryptLayer := do
  tool this.guest "cryptsetup"
  match ← this.parents i with
  | [parent] => do
    let backing := (this.row parent).name
    let kind ← this.blkid "TYPE" backing
    require (kind = "crypto_LUKS") ("Encrypted backing device is not LUKS: " ++ backing)
    let mapper ← this.mapperName i
    let uuid ← this.blkid "UUID" backing
    let partuuid ← this.blkid "PARTUUID" backing
    let label ← this.blkid "LABEL" backing
    let real ← realpath this.guest backing
    let rows ← this.crypttabRows
    match ← rows.foldlM (this.matchRow mapper ⟨uuid, partuuid, label, real⟩) [] with
    | [] => pure ⟨mapper, backing, none, .passphrase⟩
    | [fields] => do
      match ← this.keyOf fields with
      | some key => pure ⟨mapper, backing, some key, .keyfile⟩
      | none => pure ⟨mapper, backing, none, .passphrase⟩
    | _ => fail ("Ambiguous /etc/crypttab rows for " ++ mapper)
  | _ => fail "Encrypted mapping has ambiguous backing devices"

/-! ## LVM -/

def lvmReport (program columns : Text) : Inspect Json :=
  jsonCommand this.guest [program, "--reportformat", "json", "--units", "b", "--nosuffix",
    "--noheadings", "-o", columns]

def lvCandidate (lvName : Text) (found : List Json) (candidate : Json) : Inspect (List Json) := do
  let same ← this.sameBlock (pyStr (candidate.get "lv_path")) lvName
  pure (if same then found ++ [candidate] else found)

/-- A physical volume is one of the rows. -/
def anyBlock (path : Text) : List this.Index → Inspect Bool
  | [] => pure false
  | i :: rest => do
    let same ← this.sameBlock path (this.row i).name
    if same then pure true else anyBlock path rest

def inGroup (name : Text) (rows : List Json) : List Json :=
  rows.filter fun row => pyStr (row.get "vg_name") = name

/-- The LVM layer, with a volume group of its own on one physical volume below it. -/
def lvmLayer (i : this.Index) (below : List this.Index) : Inspect LvmLayer := do
  ["pvs".toList, "vgs", "lvs", "pvresize", "lvextend"].foldlM (fun _ name => tool this.guest name) ⟨⟩
  let lvs ← this.lvmReport "lvs" "lv_path,lv_name,vg_name,lv_size,lv_attr,segtype"
  match ← (reportRows lvs "lv").foldlM (this.lvCandidate (this.row i).name) [] with
  | [selected] => do
    require (Text.startsWith "-" (pyStr (selected.get "lv_attr")) &&
      pyStr (selected.get "segtype") = "linear")
      "Only ordinary linear logical volumes are supported"
    let vgName := pyStr (selected.get "vg_name")
    require (vgName ≠ []) "Logical volume has no volume group"
    require ((inGroup vgName (reportRows lvs "lv")).length = 1)
      "Resize requires a dedicated volume group with one logical volume"
    let vgs ← this.lvmReport "vgs" "vg_name,vg_extent_size"
    match inGroup vgName (reportRows vgs "vg") with
    | [vg] => do
      let pvs ← this.lvmReport "pvs" "pv_name,vg_name"
      match inGroup vgName (reportRows pvs "pv") with
      | [pv] => do
        let pvPath := pyStr (pv.get "pv_name")
        let found ← if pvPath = [] then pure false else this.anyBlock pvPath below
        require found "Volume group physical volume does not match the mounted disk chain"
        let size ← decimal (selected.get "lv_size") "logical volume size"
        let extent ← decimal (vg.get "vg_extent_size") "volume group extent size"
        pure ⟨pyStr (selected.get "lv_path"), pvPath, size, extent, vgName⟩
      | _ => fail "Resize requires a volume group with one physical volume"
    | _ => fail ("Cannot identify volume group: " ++ vgName)
  | _ => fail "Cannot identify mounted logical volume"

end Inspector

/-! ## The inspection -/

mutual

/-- A row and its children, in the order of the listing. -/
def flatten : Json → List Json
  | .obj entries => .obj entries :: flattenChildren entries
  | other => [other]

/-- The rows of `children`. -/
def flattenChildren : List (Text × Json) → List Json
  | [] => []
  | (key, .arr items) :: rest => if key = "children" then flattenItems items else flattenChildren rest
  | (key, _) :: rest => if key = "children" then [] else flattenChildren rest

def flattenItems : List Json → List Json
  | [] => []
  | row :: rest => flatten row ++ flattenItems rest

end

def devPath (name : Text) : Text := if Text.startsWith "/" name then name else "/dev/" ++ name

/-- A row of the listing; two rows have not one `MAJ:MIN`. -/
def addRow (rows : List Row) (raw : Json) : Inspect (List Row) :=
  let name := pyStr (raw.get "name")
  if name = [] then pure rows
  else do
    let mm := pyStr (raw.get "maj:min")
    require (mm = [] || !rows.any fun row => row.mm = mm) ("Ambiguous lsblk MAJ:MIN: " ++ mm)
    pure (rows ++ [⟨devPath name, pyStr (raw.get "type"), raw.get "pkname",
      pyStr (raw.get "serial"), raw.get "size", mm⟩])

section

variable (guest : GuestSystem)

/-- The filesystem that is mounted exactly there, and its type. -/
def mounted (mount : Text) : Inspect (Json × Text) := do
  ["findmnt".toList, "lsblk", "blkid", "blockdev"].foldlM (fun _ name => tool guest name) ⟨⟩
  let found ← jsonCommand guest ["findmnt", "--json", "--mountpoint", mount, "-o",
      "SOURCE,FSTYPE,TARGET,OPTIONS,MAJ:MIN"]
  match ((found.get "filesystems").bind Json.asArray).getD [] with
  | [fs] => do
    let filesystem := pyStr (fs.get "fstype")
    require ((fs.get "target").bind Json.asStr = some mount && (filesystem = "ext4" || filesystem = "btrfs"))
      ("Resize requires an exact ext4 or btrfs mount: " ++ mount)
    require (((pyStr (fs.get "options")).splitOn ',').contains "rw") "Filesystem is read-only"
    tool guest (if filesystem = "ext4" then "resize2fs" else "btrfs")
    pure (fs, filesystem)
  | _ => fail ("Cannot identify exact mounted filesystem: " ++ mount)

def listRows : Inspect (List Row) := do
  let listed ← jsonCommand guest ["lsblk", "--json", "--bytes", "--paths", "--list", "-o",
      "NAME,TYPE,PKNAME,SERIAL,SIZE,MAJ:MIN"]
  (flattenItems (((listed.get "blockdevices").bind Json.asArray).getD [])).foldlM addRow []

def aliasOf (name : Text) : Text := "/dev/" ++ basename name

/-- The real paths of a row lead to it. -/
def addPath (rows : List Row) (byPath : List (Text × Fin rows.length)) (i : Fin rows.length) :
    Inspect (List (Text × Fin rows.length)) := do
  let name := (rows.get i).name
  let real ← realpath guest name
  let other ← realpath guest (aliasOf name)
  pure ((other, i) :: (real, i) :: byPath)

def indexRows (rows : List Row) : Inspect Inspector := do
  prefetch guest (rows.flatMap fun row => [row.name, aliasOf row.name])
  let byPath ← (List.finRange rows.length).foldlM (addPath guest rows) []
  pure ⟨guest, rows, byPath⟩

end

/-- What the mount lies on, once the rows are known. -/
def Inspector.layout (this : Inspector) (fuel : Nat) (fs : Json) (filesystem mount : Text)
    (role : Role) (label : Text) :
    Inspect GuestLayout := do
  let (entry, devid) ← this.mountedDevice filesystem (pyStr (fs.get "source"))
      (pyStr (fs.get "maj:min")) mount
  let chain ← this.walkChain fuel entry
  this.checkLayers chain
  let last := chain.getLastD entry
  require (this.physical last) ("Unsupported mounted block device: " ++ (this.row entry).name)
  let parent ← this.parentDisk last
  this.checkRole role label entry parent
  let partition ← this.partitionOf last parent
  let crypt ← match this.position chain "crypt" with
    | some at_ => do
      let layer ← this.cryptLayer (chain.getD at_ entry)
      pure (some layer)
    | none => pure none
  let lvm ← match this.position chain "lvm" with
    | some at_ => do
      let layer ← this.lvmLayer (chain.getD at_ entry) (chain.drop (at_ + 1))
      pure (some layer)
    | none => pure none
  let size ← decimal (this.row parent).size "disk size"
  pure {
    device := (this.row entry).name
    parent := (this.row parent).name
    partition := partition.map Prod.fst
    sizeBytes := size
    partitionDevice := partition.map Prod.snd
    crypt := crypt
    lvm := lvm
    filesystem := filesystem
    mount := mount
    btrfsDevid := devid }

/-- `resize_guest.INSPECT` for the filesystem mounted at `mount`, on the disk of `role`; `label` is the
home's serial and label. `walk_chain` has as many rounds as there are rows. -/
def inspect (guest : GuestSystem) (mount : Text) (role : Role) (label : Text) : Inspect GuestLayout := do
  let (fs, filesystem) ← mounted guest mount
  let rows ← listRows guest
  let this ← indexRows guest rows
  this.layout rows.length fs filesystem mount role label

end HomeStack.ResizeGuest

import HomeStack.Lib.Chars
import HomeStack.Lib.Lines
import HomeStack.Lib.Result
import HomeStack.Lib.SerdeJson

/-! A service container as its Proxmox configuration shows it, and the note by which the
holder of a container under replacement keeps the container's settings
(`services/instance.rs`, `recreate.rs`, `devices.rs`). -/

namespace HomeStack.ServiceInstance

/-! ## Devices -/

structure Device where
  path : Text
  uid : Option Nat
  gid : Option Nat
  mode : Option Text
  readOnly : Bool
  deriving DecidableEq

namespace Device

/-- The fields of a device property; a first part without a key is the path. -/
def fields (property : Text) : Except Text (List (Text × Text)) :=
  (property.splitOn ',').zipIdx.foldlM (fun found (part, index) => do
    let (key, value) ← match Text.splitOnce "=" part with
      | some pair => .ok pair
      | none => if index = 0 then .ok (("path" : Text), part) else .error "Invalid device property"
    if !(["path", "uid", "gid", "mode", "deny-write"] : List Text).contains key || found.any (·.1 = key) then
      .error "Unknown or duplicate device property"
    else .ok (found ++ [(key, value)])) []

def field (found : List (Text × Text)) (key : Text) : Option Text := (found.find? (·.1 = key)).map Prod.snd

/-- A numeric field. -/
def id (found : List (Text × Text)) (key : Text) : Except Text (Option Nat) :=
  match field found key with
  | none => .ok none
  | some value =>
    match Text.parseNat (2 ^ 32) value with
    | some n => .ok (some n)
    | none => .error ("Invalid device " ++ key)

def denyWrite (found : List (Text × Text)) : Except Text Bool :=
  match field found "deny-write" with
  | none => .ok false
  | some value =>
    if value = "0" then .ok false else if value = "1" then .ok true else .error "Invalid device deny-write"

def parse (property : Text) : Except Text Device := do
  let found ← fields property
  let path ← match field found "path" with
    | some path => .ok path
    | none => .error "Device path is missing"
  let uid ← id found "uid"
  let gid ← id found "gid"
  let readOnly ← denyWrite found
  .ok ⟨path, uid, gid, field found "mode", readOnly⟩

/-- The path is below `/dev` and has nothing that a property is split at. -/
def validPath (path : Text) : Bool :=
  Text.startsWith "/dev/" path && !((path.splitOn '/').drop 1).any
    (fun part => part = [] || part = "." || part = "..") &&
    !path.any fun c => Text.isWhitespace c || Text.isControl c || c = ',' || c = '='

def validMode (mode : Text) : Bool :=
  mode.length = 4 && Text.startsWith "0" mode && mode.all fun c => '0' ≤ c && c ≤ '7'

end Device

/-- By slot, in the order of the slots. -/
abbrev Devices := List (Text × Device)

namespace Devices

def validSlot (key : Text) : Bool :=
  match (("dev" : Text).isPrefixOf? key).bind (Text.parseNat 256) with
  | some number => key = "dev" ++ Text.ofNat number
  | none => false

/-- One device of `validate`, with the paths seen before it. -/
def validateOne (paths : List Text) (slot : Text) (device : Device) : Except Text (List Text) :=
  if !validSlot slot then .error (slot ++ ": expected dev0 through dev255")
  else if !Device.validPath device.path then
    .error (slot ++ ": expected an absolute device path below /dev without traversal or property separators")
  else if paths.contains device.path then .error (slot ++ ": duplicate device path")
  else if device.mode.any (!Device.validMode ·) then
    .error (slot ++ ": mode must be a quoted octal string such as \"0660\"")
  else .ok (device.path :: paths)

def validate (devices : Devices) : Except Text Unit := do
  let _ ← devices.foldlM (fun paths d => validateOne paths d.1 d.2) []
  .ok ()

/-- One entry of a configuration that may be a device. -/
def readEntry (devices : Devices) (e : Text × Json) : Except Text Devices :=
  if Text.startsWith "dev" e.1 then
    match e.2.asStr with
    | none => .error (e.1 ++ ": invalid device configuration")
    | some property =>
      match Device.parse property with
      | .ok device => .ok (devices ++ [(e.1, device)])
      | .error e' => .error (e.1 ++ ": " ++ e')
  else .ok devices

def read (config : Json) : Except Text Devices :=
  match config.asObject with
  | none => .error "Invalid container configuration"
  | some entries => do
    let devices ← entries.foldlM readEntry []
    validate devices
    .ok devices

end Devices

/-! ## The identity of a service -/

def text (cfg : Json) (key : Text) : Text := ((cfg.get key).bind Json.asStr).getD []

structure DeployedService where
  id : Text
  repository : Text
  image : Text
  digest : Text

def deployedService (config : Json) : Option DeployedService := do
  let description ← (config.get "description").bind Json.asStr
  if (Text.lines description).any fun l => Text.trim l = "made by homestack" then
    let id ← Text.line description "HomeStack service"
    let repository ← Text.line description "repository"
    let image ← Text.line description "image"
    let digest ← Text.line description "digest"
    some ⟨id, repository, image, digest⟩
  else none

def holder : Text := "HomeStack holder for CT"

def ready : Text := "holder ready"

def holderOf (description : Text) : Option Nat := do
  let first ← (Text.lines description).head?
  let rest ← holder.isPrefixOf? first
  Text.parseNat (2 ^ 32) (Text.trim rest)

def owner (description : Text) : Option Nat := do
  let first ← (Text.lines description).head?
  let rest ← ("HomeStack root image for CT " : Text).isPrefixOf? first
  Text.parseNat (2 ^ 32) rest

/-! ## Sizes -/

def parseSize (t : Text) : Option Nat := do
  let t := (Text.trim t).map Char.toUpper
  let t := (t.getLast?.bind fun c => if c = 'B' then some t.dropLast else none).getD t
  let last ← t.getLast?
  let (number, factor) := if last = 'M' then (t.dropLast, 1)
    else if last = 'G' then (t.dropLast, 1024) else (t, 1024)
  let number ← Text.parseNat (2 ^ 32) (Text.trim number)
  if number * factor < 2 ^ 32 ∧ 0 < number * factor then some (number * factor) else none

def showSize (mib : Nat) : Text :=
  if mib % 1024 = 0 then Text.ofNat (mib / 1024) ++ "G" else Text.ofNat mib ++ "M"

def unitFactor (unit : Char) : Option Nat :=
  if unit = 'T' then some (1024 * 1024) else if unit = 'G' then some 1024
  else if unit = 'M' then some 1 else none

/-- `mib`: the `size=` of a volume option. The product wraps. -/
def mib (option : Text) : Option Nat := do
  let size ← (option.splitOn ',').findSome? fun v => ("size=" : Text).isPrefixOf? v
  let last ← size.getLast?
  let factor ← unitFactor last
  let number ← Text.parseNat (2 ^ 32) size.dropLast
  some (number * factor % 2 ^ 32)

/-- `volume`: the volume of an option and its storage. -/
def volume (option : Text) : Text × Text :=
  let volume := (option.splitOn ',').headD []
  (volume, ((Text.splitOnce ":" volume).map Prod.fst).getD [])

/-! ## The instance -/

def parseEnv (t : Text) : List (Text × Text) := (t.splitOn (Char.ofNat 0)).filterMap (Text.splitOnce "=")

def extractHwaddr (net0 : Text) : Option Text :=
  (((net0.splitOn ',').map Text.trim).findSome? fun part => do
    let (key, value) ← Text.splitOnce "=" part
    if Text.trim key = "hwaddr" then some (Text.trim value) else none).filter (· ≠ [])

/-- A deployed service container, or the holder of one under replacement. -/
structure Instance where
  ctid : Nat
  node : Text
  pool : Text
  hostname : Text
  address : Text
  mac : Text
  network : Text
  nameserver : Option Text
  searchdomain : Option Text
  cores : Nat
  memoryMib : Nat
  rootVolume : Text
  rootStorage : Text
  rootMib : Nat
  homeVolume : Text
  homeStorage : Text
  homeMib : Nat
  homeMount : Text
  running : Bool
  onboot : Bool
  repository : Text
  service : Text
  image : Text
  digest : Text
  description : Text
  environment : List (Text × Text)
  devices : Devices
  held : Bool

/-- `u8::from`, as it prints. -/
def flag (b : Bool) : Text := if b then "1" else "0"

/-- The lines that the note adds to the description, key and value. -/
def noteEntries (t : Instance) : List (Text × Text) :=
  [(("hostname" : Text), t.hostname), ("cores", Text.ofNat t.cores), ("memory", Text.ofNat t.memoryMib),
    ("rootfs", t.rootStorage ++ ' ' :: showSize t.rootMib), ("pool", t.pool), ("net0", t.network),
    ("running", flag t.running), ("onboot", flag t.onboot)] ++
  (t.nameserver.map fun n => (("nameserver" : Text), n)).toList ++
  (t.searchdomain.map fun d => (("searchdomain" : Text), d)).toList

def note (t : Instance) : Text :=
  (noteEntries t).foldl (fun note e => note ++ '\n' :: (e.1 ++ ' ' :: e.2)) (Text.trimEnd t.description)

/-- The description of the holder that keeps the note. -/
def holderText (t : Instance) : Text := holder ++ " " ++ Text.ofNat t.ctid ++ "\n" ++ note t ++ "\n" ++ ready

/-- `value` of `parse`: a line that the note must have. -/
def noteValue (ctid : Nat) (description key : Text) : Except Text Text :=
  match Text.line description key with
  | some value => .ok value
  | none => .error ("holder of CT " ++ Text.ofNat ctid ++ ": no " ++ key)

def number (t : Text) (message : String) : Except Text Nat :=
  match Text.parseNat (2 ^ 32) t with
  | some n => .ok n
  | none => .error message

/-- Storage and size of the root in the note. -/
def noteRoot (value : Text) : Except Text (Text × Nat) :=
  match Text.splitOnce " " value with
  | none => .error "holder: bad rootfs"
  | some (storage, size) =>
    match parseSize size with
    | some mib => .ok (storage, mib)
    | none => .error "holder: bad rootfs size"

/-- The container's settings from the note of its holder. -/
def readNote (ctid : Nat) (t : Instance) : Except Text Instance := do
  let value := noteValue ctid t.description
  let hostname ← value "hostname"
  let cores ← value "cores" >>= (number · "holder: bad cores")
  let memory ← value "memory" >>= (number · "holder: bad memory")
  let (storage, mib) ← value "rootfs" >>= noteRoot
  let pool ← value "pool"
  let network ← value "net0"
  match holderOf t.description with
  | none => .error "holder: no CTID"
  | some held =>
    .ok { t with
      hostname, cores, pool, network
      memoryMib := memory
      rootStorage := storage
      rootMib := mib
      rootVolume := []
      nameserver := Text.line t.description "nameserver"
      searchdomain := Text.line t.description "searchdomain"
      running := Text.line t.description "running" = some "1".toList
      onboot := Text.line t.description "onboot" = some "1".toList
      ctid := held }

def addressOf (network : Text) : Text :=
  (((network.splitOn ',').findSome? fun part => ("ip=" : Text).isPrefixOf? part).map fun ip =>
    (ip.splitOn '/').headD []).getD []

/-- Address and MAC, from `net0`. -/
def withAddress (t : Instance) : Instance :=
  { t with address := addressOf t.network, mac := (extractHwaddr t.network).getD [] }

/-- A field that is a `u32`. -/
def u32 (cfg : Json) (key : Text) (default : Nat) : Nat :=
  (((cfg.get key).bind Json.asU64).bind fun n => if n < 2 ^ 32 then some n else none).getD default

/-- The instance as the configuration itself has it. -/
def shown (ctid : Nat) (node pool : Text) (cfg : Json) (running : Bool)
    (service : DeployedService) (devices : Devices) :
    Instance where
  ctid := ctid
  node := node
  pool := pool
  hostname := text cfg "hostname"
  address := []
  mac := []
  network := text cfg "net0"
  nameserver := (cfg.get "nameserver").bind Json.asStr
  searchdomain := (cfg.get "searchdomain").bind Json.asStr
  cores := u32 cfg "cores" 1
  memoryMib := u32 cfg "memory" 512
  rootVolume := (volume (text cfg "rootfs")).1
  rootStorage := (volume (text cfg "rootfs")).2
  rootMib := (mib (text cfg "rootfs")).getD 0
  homeVolume := (volume (text cfg "mp0")).1
  homeStorage := (volume (text cfg "mp0")).2
  homeMib := (mib (text cfg "mp0")).getD 0
  homeMount := text cfg "mp0"
  running := running
  onboot := (cfg.get "onboot").bind Json.asU64 = some 1
  repository := service.repository
  service := service.id
  image := service.image
  digest := service.digest
  description := text cfg "description"
  environment := parseEnv (text cfg "env")
  devices := devices
  held := (holderOf (text cfg "description")).isSome

/-- A holder's own settings are a holder's; the container's are in its note. -/
def settled (ctid : Nat) (t : Instance) : Except Text Instance := if t.held then readNote ctid t else .ok t

def parse (ctid : Nat) (node pool : Text) (cfg : Json) (running : Bool) : Except Text Instance :=
  if (owner (text cfg "description")).isSome then
    .error "Root image staging is not a deployed service instance"
  else
    match deployedService cfg with
    | none => .error ("CT " ++ Text.ofNat ctid ++ " is not a service HomeStack deployed")
    | some service => do
      let devices ← Devices.read cfg
      let t ← settled ctid (shown ctid node pool cfg running service devices)
      .ok (withAddress t)

/-! ## What the note says -/

/-- The settings that a description keeps are those of an instance. -/
structure Says (d : Text) (t : Instance) : Prop where
  hostname : Text.line d "hostname" = some t.hostname
  cores : (Text.line d "cores").bind (Text.parseNat (2 ^ 32)) = some t.cores
  memory : (Text.line d "memory").bind (Text.parseNat (2 ^ 32)) = some t.memoryMib
  rootfs : ((Text.line d "rootfs").bind fun v => (noteRoot v).toOption) = some (t.rootStorage, t.rootMib)
  pool : Text.line d "pool" = some t.pool
  network : Text.line d "net0" = some t.network
  nameserver : Text.line d "nameserver" = t.nameserver
  searchdomain : Text.line d "searchdomain" = t.searchdomain
  running : decide (Text.line d "running" = some "1".toList) = t.running
  onboot : decide (Text.line d "onboot" = some "1".toList) = t.onboot
  ctid : holderOf d = some t.ctid

theorem noteValue_ok {ctid : Nat} {d key v : Text} (h : noteValue ctid d key = .ok v) :
    Text.line d key = some v := by
  unfold noteValue at h
  cases hline : Text.line d key with
  | none =>
    rw [hline] at h
    cases h
  | some w =>
    rw [hline] at h
    cases h
    rfl

theorem noteValue_of_line {d key v : Text} (ctid : Nat) (h : Text.line d key = some v) :
    noteValue ctid d key = .ok v := by
  rw [noteValue, h]

theorem number_ok {t : Text} {message : String} {n : Nat} (h : number t message = .ok n) :
    Text.parseNat (2 ^ 32) t = some n := by
  unfold number at h
  cases hparse : Text.parseNat (2 ^ 32) t with
  | none =>
    rw [hparse] at h
    cases h
  | some m =>
    rw [hparse] at h
    cases h
    rfl

/-- What is read from a note is what it says. -/
theorem readNote_ok {ctid : Nat} {t r : Instance} (h : readNote ctid t = .ok r) :
    Says t.description r ∧ r.repository = t.repository ∧ r.service = t.service ∧
      r.image = t.image ∧ r.digest = t.digest ∧
      r.held = t.held ∧ r.description = t.description := by
  unfold readNote at h
  simp only at h
  obtain ⟨hostname, hhostname, h⟩ := Except.bind_ok h
  obtain ⟨cores, hcores, h⟩ := Except.bind_ok h
  obtain ⟨memory, hmemory, h⟩ := Except.bind_ok h
  obtain ⟨root, hroot, h⟩ := Except.bind_ok h
  obtain ⟨pool, hpool, h⟩ := Except.bind_ok h
  obtain ⟨network, hnetwork, h⟩ := Except.bind_ok h
  obtain ⟨coresText, hcoresText, hcores⟩ := Except.bind_ok hcores
  obtain ⟨memoryText, hmemoryText, hmemory⟩ := Except.bind_ok hmemory
  obtain ⟨rootText, hrootText, hroot⟩ := Except.bind_ok hroot
  cases hheld : holderOf t.description with
  | none =>
    rw [hheld] at h
    cases h
  | some held =>
    rw [hheld] at h
    cases h
    refine ⟨⟨noteValue_ok hhostname, ?_, ?_, ?_, noteValue_ok hpool, noteValue_ok hnetwork,
      rfl, rfl, rfl, rfl, hheld⟩,
      rfl, rfl, rfl, rfl, rfl, rfl⟩
    · rw [noteValue_ok hcoresText]
      exact number_ok hcores
    · rw [noteValue_ok hmemoryText]
      exact number_ok hmemory
    · rw [noteValue_ok hrootText, Option.bind_some, hroot]
      rfl

/-- A note that says an instance can be read. -/
theorem readNote_of_note {ctid : Nat} {t x : Instance} (h : Says t.description x) :
    ∃ r, readNote ctid t = .ok r := by
  obtain ⟨coresText, hcoresText, hcores⟩ := Option.bind_eq_some_iff.mp h.cores
  obtain ⟨memoryText, hmemoryText, hmemory⟩ := Option.bind_eq_some_iff.mp h.memory
  obtain ⟨rootText, hrootText, hroot⟩ := Option.bind_eq_some_iff.mp h.rootfs
  have hroot := Except.ok_of_toOption hroot
  unfold readNote
  simp only [noteValue_of_line ctid h.hostname, noteValue_of_line ctid hcoresText,
    noteValue_of_line ctid hmemoryText,
    noteValue_of_line ctid hrootText, noteValue_of_line ctid h.pool,
      noteValue_of_line ctid h.network, number, bind,
    Except.bind, hcores, hmemory, hroot, h.ctid]
  exact ⟨_, rfl⟩

/-- Two instances of which one description says both agree in what it keeps. -/
theorem Says.agree {d : Text} {t r : Instance} (h : Says d t) (h' : Says d r) :
    r.hostname = t.hostname ∧ r.cores = t.cores ∧ r.memoryMib = t.memoryMib ∧ r.rootStorage = t.rootStorage ∧
      r.rootMib = t.rootMib ∧ r.pool = t.pool ∧ r.network = t.network ∧ r.nameserver = t.nameserver ∧
      r.searchdomain = t.searchdomain ∧ r.running = t.running ∧ r.onboot = t.onboot ∧ r.ctid = t.ctid := by
  have hroot := Option.some.inj (h'.rootfs.symm.trans h.rootfs)
  refine ⟨Option.some.inj (h'.hostname.symm.trans h.hostname), Option.some.inj (h'.cores.symm.trans h.cores),
    Option.some.inj (h'.memory.symm.trans h.memory), congrArg Prod.fst hroot, congrArg Prod.snd hroot,
    Option.some.inj (h'.pool.symm.trans h.pool), Option.some.inj (h'.network.symm.trans h.network),
    h'.nameserver.symm.trans h.nameserver, h'.searchdomain.symm.trans h.searchdomain,
      h'.running.symm.trans h.running,
    h'.onboot.symm.trans h.onboot, Option.some.inj (h'.ctid.symm.trans h.ctid)⟩

/-! ## The lines of a holder -/

section

variable {α : Type} {f : Text → Option α} (hf : Text.Reads f)

include hf

theorem findSome?_foldl_lines (es : List (Text × Text)) (s : Text) :
    (Text.lines (es.foldl (fun note e => note ++ '\n' :: (e.1 ++ ' ' :: e.2)) s)).findSome? f =
      ((Text.lines s).findSome? f).or (es.findSome? fun e =>
        (Text.lines (e.1 ++ ' ' :: e.2)).findSome? f) := by
  induction es generalizing s with
  | nil => simp
  | cons e es ih =>
    rw [List.foldl_cons, ih, Text.findSome?_lines_append_lf hf, Option.or_assoc, List.findSome?_cons]
    cases (Text.lines (e.1 ++ ' ' :: e.2)).findSome? f <;> rfl

/-- A holder's lines: its own, those of the description, those of the note. -/
theorem findSome?_holderText (t : Instance) :
    (Text.lines (holderText t)).findSome? f =
      (((Text.lines (holder ++ " " ++ Text.ofNat t.ctid)).findSome? f).or
        (((Text.lines t.description).findSome? f).or
        ((noteEntries t).findSome? fun e => (Text.lines (e.1 ++ ' ' :: e.2)).findSome? f))).or
          ((Text.lines ready).findSome? f) := by
  have htext : holderText t = (holder ++ " " ++ Text.ofNat t.ctid) ++ '\n' :: (note t ++ '\n' :: ready) := by
    simp [holderText]
  rw [htext, Text.findSome?_lines_append_lf hf, Text.findSome?_lines_append_lf hf, note,
    findSome?_foldl_lines hf,
    Text.findSome?_lines_trimEnd hf]
  simp only [Option.or_assoc]

end

theorem isWhitespace_of_isDigit {c : Char} (h : c.isDigit = true) : Text.isWhitespace c = false := by
  simp only [Char.isDigit, Bool.and_eq_true, decide_eq_true_eq, UInt32.le_iff_toNat_le] at h
  have hn : c.toNat = c.val.toNat := rfl
  simp only [Text.isWhitespace, hn, Bool.or_eq_false_iff, Bool.and_eq_false_iff, decide_eq_false_iff_not]
  have h1 : c.val.toNat ≥ 48 := h.1
  have h2 : c.val.toNat ≤ 57 := h.2
  omega

theorem ofNat_ne_nil (n : Nat) : Text.ofNat n ≠ [] := by
  intro h
  have hlen := Nat.length_toDigits_pos (b := 10) (n := n)
  rw [show Nat.toDigits 10 n = Text.ofNat n from rfl, h] at hlen
  cases hlen

theorem plain_ofNat (n : Nat) : Text.Plain (Text.ofNat n) := by
  have hdigits := Json.toDigits_isDigit n
  refine ⟨ofNat_ne_nil n, fun hmem => absurd (hdigits _ hmem) (by decide), ?_⟩
  exact Text.trim_eq_self fun c hc => isWhitespace_of_isDigit (hdigits c hc)

theorem parseNat_ofNat {n bound : Nat} (h : n < bound) : Text.parseNat bound (Text.ofNat n) = some n := by
  have hdigits := Json.toDigits_isDigit n
  have hvalue : Text.digitsValue (Text.ofNat n) = n := Nat.ofDigitChars_toDigits (by decide) (by decide)
  have hall : Text.allDigits (Text.ofNat n) = true := List.all_eq_true.mpr hdigits
  have hne := ofNat_ne_nil n
  generalize htext : Text.ofNat n = s at *
  cases s with
  | nil => exact absurd rfl hne
  | cons c s =>
    have hplus : c ≠ '+' := by
      rintro rfl
      exact absurd (hdigits '+' (by rw [show Nat.toDigits 10 n = Text.ofNat n from rfl, htext]; simp))
        (by decide)
    simp [Text.parseNat, hplus, hall, hvalue, h]

/-- A key that is not read in a holder's own lines. -/
structure NoteKey (key : Text) : Prop where
  ne : key ≠ []
  first : ∀ n, Text.line (holder ++ " " ++ Text.ofNat n) key = none
  last : Text.line ready key = none

theorem noteKey {key : Text} (hne : key ≠ [])
    (hlead : ∀ n, key.isPrefixOf? (holder ++ ' ' :: Text.ofNat n) = none)
    (hlast : Text.line ready key = none) : NoteKey key where
  ne := hne
  first n := by
    have hplain := plain_ofNat n
    have hlf : '\n' ∉ holder ++ ' ' :: Text.ofNat n := by
      simp only [List.mem_append, List.mem_cons, not_or]
      exact ⟨by decide, by decide, hplain.2.1⟩
    rw [show (holder ++ " " ++ Text.ofNat n : Text) = holder ++ ' ' :: Text.ofNat n by simp, Text.line,
      Text.findSome?_lines_single (Text.reads_entry hne) hlf, Text.entry,
      Text.trim_key (by decide) (by decide) hplain.1 hplain.2.2, hlead]
    rfl
  last := hlast

theorem line_holderText {key : Text} (h : NoteKey key) (t : Instance) :
    Text.line (holderText t) key =
      (Text.line t.description key).or ((noteEntries t).findSome? fun e =>
        Text.line (e.1 ++ ' ' :: e.2) key) := by
  have hfirst := h.first t.ctid
  have hlast := h.last
  unfold Text.line at hfirst hlast ⊢
  rw [findSome?_holderText (Text.reads_entry h.ne), hfirst, hlast, Option.or_none, Option.none_or]

/-! ## Sizes are read back -/

theorem map_toUpper_ofNat (n : Nat) : (Text.ofNat n).map Char.toUpper = Text.ofNat n := by
  refine (List.map_congr_left fun c hc => ?_).trans (List.map_id _)
  have hdigit := Json.toDigits_isDigit n c hc
  simp only [Char.isDigit, Bool.and_eq_true, decide_eq_true_eq, UInt32.le_iff_toNat_le] at hdigit
  refine dif_neg fun h => ?_
  have hupper : c.val.toNat ≤ 57 := hdigit.2
  have hlower : 97 ≤ c.val.toNat := h.1
  omega

/-- A number and a unit, with nothing to trim. -/
theorem trim_unit {c : Char} (hc : Text.isWhitespace c = false) (n : Nat) :
    Text.trim (Text.ofNat n ++ [c]) = Text.ofNat n ++ [c] := by
  refine Text.trim_eq_self fun d hd => ?_
  rcases List.mem_append.mp hd with hd | hd
  · exact isWhitespace_of_isDigit (Json.toDigits_isDigit n d hd)
  · rw [List.mem_singleton.mp hd]
    exact hc

theorem showSize_unit (m : Nat) : ∃ n c, showSize m = Text.ofNat n ++ [c] ∧ Text.isWhitespace c = false := by
  unfold showSize
  split
  · exact ⟨_, 'G', rfl, by decide⟩
  · exact ⟨_, 'M', rfl, by decide⟩

theorem showSize_ne_nil (m : Nat) : showSize m ≠ [] := by
  obtain ⟨n, c, h, _⟩ := showSize_unit m
  simp [h]

theorem trim_showSize (m : Nat) : Text.trim (showSize m) = showSize m := by
  obtain ⟨n, c, h, hc⟩ := showSize_unit m
  rw [h, trim_unit hc]

theorem lf_not_mem_showSize (m : Nat) : '\n' ∉ showSize m := by
  intro hmem
  have hdigits : ∀ n, '\n' ∉ Text.ofNat n := fun n h => absurd (Json.toDigits_isDigit n _ h) (by decide)
  unfold showSize at hmem
  split at hmem
  · rcases List.mem_append.mp hmem with h | h
    · exact hdigits _ h
    · exact absurd h (by decide)
  · rcases List.mem_append.mp hmem with h | h
    · exact hdigits _ h
    · exact absurd h (by decide)

theorem parseSize_showSize {m : Nat} (hpos : m ≠ 0) (h : m < 2 ^ 32) : parseSize (showSize m) = some m := by
  have hnumber : ∀ n, Text.trim (Text.ofNat n) = Text.ofNat n := fun n => (plain_ofNat n).2.2
  unfold parseSize
  rw [trim_showSize]
  unfold showSize
  split
  · rename_i hmod
    have hparse : Text.parseNat 4294967296 (Text.ofNat (m / 1024)) = some (m / 1024) :=
      parseNat_ofNat (by omega)
    simp [map_toUpper_ofNat, show Char.toUpper 'G' = 'G' from rfl, hnumber, hparse]
    omega
  · have hparse : Text.parseNat 4294967296 (Text.ofNat m) = some m := parseNat_ofNat h
    simp [map_toUpper_ofNat, show Char.toUpper 'M' = 'M' from rfl, hnumber, hparse]
    omega

/-! ## When a note restores the instance -/

/-- A storage that is read back from a `rootfs` line. -/
def StorageName (s : Text) : Prop :=
  s ≠ [] ∧ (∀ c, s.head? = some c → Text.isWhitespace c = false) ∧ ' ' ∉ s ∧ '\n' ∉ s

/-- What is kept can stand on a line, and no line of the description is read in its place
with another value. -/
structure Restorable (t : Instance) : Prop where
  hostname : t.hostname.Plain
  pool : t.pool.Plain
  network : t.network.Plain
  storage : StorageName t.rootStorage
  nameserver : ∀ v, t.nameserver = some v → v.Plain
  searchdomain : ∀ v, t.searchdomain = some v → v.Plain
  hostnameLine : ∀ v, t.description.line "hostname" = some v → v = t.hostname
  coresLine : ∀ v, t.description.line "cores" = some v → Text.parseNat (2 ^ 32) v = some t.cores
  memoryLine : ∀ v, t.description.line "memory" = some v → Text.parseNat (2 ^ 32) v = some t.memoryMib
  rootfsLine : ∀ v, t.description.line "rootfs" = some v →
    (noteRoot v).toOption = some (t.rootStorage, t.rootMib)
  poolLine : ∀ v, t.description.line "pool" = some v → v = t.pool
  networkLine : ∀ v, t.description.line "net0" = some v → v = t.network
  nameserverLine : ∀ v, t.description.line "nameserver" = some v → t.nameserver = some v
  searchdomainLine : ∀ v, t.description.line "searchdomain" = some v → t.searchdomain = some v
  runningLine : ∀ v, t.description.line "running" = some v → decide (v = "1".toList) = t.running
  onbootLine : ∀ v, t.description.line "onboot" = some v → decide (v = "1".toList) = t.onboot

/-- The keys of the note and of a service's identity. -/
def keys : List Text :=
  ["hostname".toList, "cores".toList, "memory".toList, "rootfs".toList, "pool".toList,
    "net0".toList, "running".toList,
    "onboot".toList, "nameserver".toList, "searchdomain".toList,
      "HomeStack service".toList, "repository".toList,
    "image".toList, "digest".toList]

theorem noteKey_of_mem {key : Text} (h : key ∈ keys) : NoteKey key := by
  simp only [keys, List.mem_cons, List.not_mem_nil, or_false] at h
  rcases h with rfl | rfl | rfl | rfl | rfl | rfl | rfl | rfl | rfl | rfl | rfl | rfl | rfl | rfl <;>
    exact noteKey (by decide) (fun _ => rfl) (by decide +kernel)

theorem space_not_mem {s : Text} (h : Text.splitOnce " " s = none) : ' ' ∉ s := by
  intro hmem
  obtain ⟨a, b, rfl⟩ := List.append_of_mem hmem
  have hcontains := Text.contains_append_of_contains a (' ' :: b) (Text.contains_self_append " " b)
  rw [Text.contains, h] at hcontains
  cases hcontains

theorem noteRoot_ok {v : Text} {root : Text × Nat} (h : noteRoot v = .ok root) :
    ∃ size, Text.splitOnce " " v = some (root.1, size) ∧ parseSize size = some root.2 := by
  unfold noteRoot at h
  cases hsplit : Text.splitOnce " " v with
  | none =>
    rw [hsplit] at h
    cases h
  | some pair =>
    rw [hsplit] at h
    cases hsize : parseSize pair.2 with
    | none =>
      simp only [hsize] at h
      cases h
    | some mib =>
      simp only [hsize] at h
      cases h
      exact ⟨pair.2, rfl, hsize⟩

/-- What stands before the first space of a plain value. -/
theorem storageName_of_root {v storage size : Text} (hv : v.Plain)
    (h : Text.splitOnce " " v = some (storage, size)) :
    StorageName storage := by
  have heq : v = storage ++ ' ' :: size := by
    rw [Text.splitOnce_some h]
    simp
  obtain ⟨hne, hlf, htrim⟩ := hv
  have hhead : ∀ c, v.head? = some c → Text.isWhitespace c = false := by
    intro c hc
    refine Text.trim_head? (s := v) ?_
    rw [htrim, hc]
  refine ⟨?_, ?_, space_not_mem (Text.splitOnce_before (by decide) h), fun hmem => hlf ?_⟩
  · rintro rfl
    rw [heq] at hhead
    exact absurd (hhead ' ' rfl) (by decide)
  · intro c hc
    refine hhead c ?_
    rw [heq, List.head?_append, hc]
    rfl
  · rw [heq]
    exact List.mem_append_left _ hmem

/-- A line of the description is read before the note's. -/
theorem line_of_description {key v : Text} (hkey : key ∈ keys) {t : Instance}
    (h : Text.line t.description key = some v) :
    Text.line (holderText t) key = some v := by
  rw [line_holderText (noteKey_of_mem hkey), h]
  rfl

/-- A holder that says the instance restores it by what the instance has. -/
theorem says_restorable {t : Instance} (h : Says (holderText t) t) : Restorable t := by
  obtain ⟨coresText, hcoresText, hcores⟩ := Option.bind_eq_some_iff.mp h.cores
  obtain ⟨memoryText, hmemoryText, hmemory⟩ := Option.bind_eq_some_iff.mp h.memory
  obtain ⟨rootText, hrootText, hroot⟩ := Option.bind_eq_some_iff.mp h.rootfs
  obtain ⟨size, hsplit, _⟩ := noteRoot_ok (Except.ok_of_toOption hroot)
  have first : ∀ key ∈ keys, ∀ v w, Text.line t.description key = some v →
      Text.line (holderText t) key = some w → v = w := by
    intro key hkey v w hv hw
    rw [line_of_description hkey hv] at hw
    exact Option.some.inj hw
  refine ⟨Text.line_plain h.hostname, Text.line_plain h.pool, Text.line_plain h.network,
    storageName_of_root (Text.line_plain hrootText) hsplit,
      fun v hv => Text.line_plain (h.nameserver.trans hv),
    fun v hv => Text.line_plain (h.searchdomain.trans hv), fun v hv =>
      first _ (by decide) v _ hv h.hostname, ?_, ?_, ?_,
    fun v hv => first _ (by decide) v _ hv h.pool, fun v hv => first _ (by decide) v _ hv h.network,
      ?_, ?_, ?_, ?_⟩
  · intro v hv
    rw [first _ (by decide) v _ hv hcoresText, hcores]
  · intro v hv
    rw [first _ (by decide) v _ hv hmemoryText, hmemory]
  · intro v hv
    rw [first _ (by decide) v _ hv hrootText, hroot]
  · intro v hv
    rw [← h.nameserver, line_of_description (by decide) hv]
  · intro v hv
    rw [← h.searchdomain, line_of_description (by decide) hv]
  · intro v hv
    rw [← h.running, line_of_description (by decide) hv]
    simp
  · intro v hv
    rw [← h.onboot, line_of_description (by decide) hv]
    simp

/-- What a note's line says. -/
structure Entry (e : Text × Text) : Prop where
  head : ∀ c, e.1.head? = some c → Text.isWhitespace c = false
  ne : e.1 ≠ []
  space : ' ' ∉ e.1
  lf : '\n' ∉ e.1
  plain : e.2.Plain

theorem line_entry {e : Text × Text} (h : Entry e) {key : Text} (hkey : key ≠ []) (hspace : ' ' ∉ key) :
    Text.line (e.1 ++ ' ' :: e.2) key = if e.1 = key then some e.2 else none := by
  have hlf : '\n' ∉ e.1 ++ ' ' :: e.2 := by
    simp only [List.mem_append, List.mem_cons, not_or]
    exact ⟨h.lf, by decide, h.plain.2.1⟩
  rw [Text.line, Text.findSome?_lines_single (Text.reads_entry hkey) hlf]
  split
  · rename_i heq
    rw [← heq, Text.entry_key h.head h.ne h.plain.1 h.plain.2.2]
  · rename_i hne
    exact Text.entry_other h.head h.ne h.plain.1 h.plain.2.2 h.space hspace (Ne.symm hne)

theorem entry_mk {key v : Text} (hkey : key ∈ keys.take 10) (hv : v.Plain) : Entry (key, v) := by
  have hkeys : ∀ key ∈ keys.take 10, (∀ c, key.head? = some c → Text.isWhitespace c = false) ∧ key ≠ [] ∧
      ' ' ∉ key ∧ '\n' ∉ key := by
    decide +kernel
  obtain ⟨hhead, hne, hspace, hlf⟩ := hkeys key hkey
  exact ⟨hhead, hne, hspace, hlf, hv⟩

theorem plain_root {storage : Text} (h : StorageName storage) (m : Nat) :
    (storage ++ ' ' :: showSize m).Plain := by
  refine ⟨by simp, ?_, Text.trim_key h.2.1 h.1 (showSize_ne_nil m) (trim_showSize m)⟩
  simp only [List.mem_append, List.mem_cons, not_or]
  exact ⟨h.2.2.2, by decide, lf_not_mem_showSize m⟩

theorem plain_flag (b : Bool) : (flag b).Plain := by
  cases b <;> decide

/-- The lines of a restorable note are plain. -/
theorem entry_of_mem {t : Instance} (h : Restorable t) {e : Text × Text} (he : e ∈ noteEntries t) :
    Entry e := by
  rcases List.mem_append.mp he with he | he
  · rcases List.mem_append.mp he with he | he
    · simp only [List.mem_cons, List.not_mem_nil, or_false] at he
      rcases he with rfl | rfl | rfl | rfl | rfl | rfl | rfl | rfl
      · exact entry_mk (by decide) h.hostname
      · exact entry_mk (by decide) (plain_ofNat _)
      · exact entry_mk (by decide) (plain_ofNat _)
      · exact entry_mk (by decide) (plain_root h.storage _)
      · exact entry_mk (by decide) h.pool
      · exact entry_mk (by decide) h.network
      · exact entry_mk (by decide) (plain_flag _)
      · exact entry_mk (by decide) (plain_flag _)
    · obtain ⟨v, hv, rfl⟩ := Option.map_eq_some_iff.mp (Option.mem_toList.mp he)
      exact entry_mk (by decide) (h.nameserver v hv)
  · obtain ⟨v, hv, rfl⟩ := Option.map_eq_some_iff.mp (Option.mem_toList.mp he)
    exact entry_mk (by decide) (h.searchdomain v hv)

/-- A restorable note is read by its entries. -/
theorem line_note {t : Instance} (h : Restorable t) {key : Text} (hkey : key ∈ keys) (hspace : ' ' ∉ key) :
    Text.line (holderText t) key = (Text.line t.description key).or
      (((noteEntries t).find? fun e => e.1 = key).map Prod.snd) := by
  have hnote := noteKey_of_mem hkey
  have hentries : ∀ es : List (Text × Text), (∀ e ∈ es, Entry e) →
      (es.findSome? fun e => Text.line (e.1 ++ ' ' :: e.2) key) =
        (es.find? fun e => e.1 = key).map Prod.snd := by
    intro es hes
    induction es with
    | nil => rfl
    | cons e es ih =>
      rw [List.findSome?_cons, List.find?_cons, line_entry (hes e List.mem_cons_self) hnote.ne hspace,
        ih fun x hx => hes x (List.mem_cons_of_mem _ hx)]
      by_cases heq : e.1 = key <;> simp [heq]
  rw [line_holderText hnote, hentries _ fun e he => entry_of_mem h he]

theorem or_bind {β : Type} {x : Option Text} {y : Text} {g : Text → Option β} {b : β}
    (hx : ∀ v, x = some v → g v = some b) (hy : g y = some b) : (x.or (some y)).bind g = some b := by
  cases x with
  | none => exact hy
  | some v => exact hx v rfl

theorem or_text {x : Option Text} {y : Text} (hx : ∀ v, x = some v → v = y) : x.or (some y) = some y := by
  cases x with
  | none => rfl
  | some v => rw [hx v rfl, Option.some_or]

theorem or_option {x y : Option Text} (hx : ∀ v, x = some v → y = some v) : x.or y = y := by
  cases x with
  | none => rfl
  | some v => rw [hx v rfl, Option.some_or]

theorem or_flag {x : Option Text} {b : Bool} (hx : ∀ v, x = some v → decide (v = "1".toList) = b) :
    decide (x.or (some (flag b)) = some "1".toList) = b := by
  cases x with
  | none => cases b <;> rfl
  | some v =>
    rw [← hx v rfl, Option.some_or]
    simp

theorem noteRoot_show {storage : Text} (h : StorageName storage) {m : Nat} (hpos : m ≠ 0) (hm : m < 2 ^ 32) :
    noteRoot (storage ++ ' ' :: showSize m) = .ok (storage, m) := by
  have hnone : Text.splitOnce " " storage = none := Text.splitOnce_none_of_not_mem [] storage h.2.2.1
  have hsplit : Text.splitOnce " " (storage ++ ' ' :: showSize m) = some (storage, showSize m) :=
    Text.splitOnce_append (by decide) hnone
  simp only [noteRoot, hsplit, parseSize_showSize hpos hm]

theorem find_nameserver (t : Instance) :
    ((noteEntries t).find? fun e => e.1 = "nameserver".toList).map Prod.snd = t.nameserver := by
  cases hn : t.nameserver <;> cases hs : t.searchdomain <;> simp only [noteEntries, hn, hs] <;> rfl

theorem find_searchdomain (t : Instance) :
    ((noteEntries t).find? fun e => e.1 = "searchdomain".toList).map Prod.snd = t.searchdomain := by
  cases hn : t.nameserver <;> cases hs : t.searchdomain <;> simp only [noteEntries, hn, hs] <;> rfl

theorem stripCr_first (n : Nat) :
    Text.stripCr (holder ++ ' ' :: Text.ofNat n) = holder ++ ' ' :: Text.ofNat n := by
  refine if_neg fun h => ?_
  have hmem := List.mem_of_getLast? h
  simp only [List.mem_append, List.mem_cons] at hmem
  rcases hmem with hmem | hmem | hmem
  · exact absurd hmem (by decide)
  · exact absurd hmem (by decide)
  · exact absurd (Json.toDigits_isDigit n _ hmem) (by decide)

theorem head_holderText (t : Instance) :
    (Text.lines (holderText t)).head? = some (holder ++ ' ' :: Text.ofNat t.ctid) := by
  have hlf : '\n' ∉ holder ++ ' ' :: Text.ofNat t.ctid := by
    simp only [List.mem_append, List.mem_cons, not_or]
    exact ⟨by decide, by decide, (plain_ofNat _).2.1⟩
  have htext : holderText t = (holder ++ ' ' :: Text.ofNat t.ctid) ++ '\n' :: (note t ++ '\n' :: ready) := by
    simp [holderText]
  rw [htext, Text.lines_head hlf, stripCr_first]

theorem holderOf_holderText {t : Instance} (h : t.ctid < 2 ^ 32) : holderOf (holderText t) = some t.ctid := by
  have htrim : Text.trim (' ' :: Text.ofNat t.ctid) = Text.ofNat t.ctid := by
    rw [show Text.trim (' ' :: Text.ofNat t.ctid) = Text.trim (Text.ofNat t.ctid) from rfl,
      (plain_ofNat _).2.2]
  simp only [holderOf, head_holderText, Option.bind_eq_bind, Option.bind_some, Text.isPrefixOf?_append, htrim]
  exact parseNat_ofNat h

theorem owner_holderText (t : Instance) : owner (holderText t) = none := by
  simp only [owner, head_holderText, Option.bind_eq_bind, Option.bind_some]
  rfl

/-- A restorable instance is what its holder says. -/
theorem restorable_note {t : Instance} (h : Restorable t) (hctid : t.ctid < 2 ^ 32)
    (hcores : t.cores < 2 ^ 32) (hmemory : t.memoryMib < 2 ^ 32) (hroot : t.rootMib < 2 ^ 32)
    (hpos : t.rootMib ≠ 0) : Says (holderText t) t where
  hostname := by
    rw [line_note h (by decide) (by decide)]
    exact or_text h.hostnameLine
  cores := by
    rw [line_note h (by decide) (by decide)]
    exact or_bind h.coresLine (parseNat_ofNat hcores)
  memory := by
    rw [line_note h (by decide) (by decide)]
    exact or_bind h.memoryLine (parseNat_ofNat hmemory)
  rootfs := by
    rw [line_note h (by decide) (by decide)]
    refine or_bind h.rootfsLine ?_
    rw [noteRoot_show h.storage hpos hroot]
    rfl
  pool := by
    rw [line_note h (by decide) (by decide)]
    exact or_text h.poolLine
  network := by
    rw [line_note h (by decide) (by decide)]
    exact or_text h.networkLine
  nameserver := by
    rw [line_note h (by decide) (by decide), find_nameserver]
    exact or_option h.nameserverLine
  searchdomain := by
    rw [line_note h (by decide) (by decide), find_searchdomain]
    exact or_option h.searchdomainLine
  running := by
    rw [line_note h (by decide) (by decide)]
    exact or_flag h.runningLine
  onboot := by
    rw [line_note h (by decide) (by decide)]
    exact or_flag h.onbootLine
  ctid := holderOf_holderText hctid

/-! ## Parsing the holder -/

/-- The description names a service that HomeStack made. -/
structure Names (d : Text) (s : DeployedService) : Prop where
  made : ((Text.lines d).any fun l => Text.trim l = "made by homestack".toList) = true
  id : Text.line d "HomeStack service" = some s.id
  repository : Text.line d "repository" = some s.repository
  image : Text.line d "image" = some s.image
  digest : Text.line d "digest" = some s.digest

theorem deployedService_iff {cfg : Json} {s : DeployedService} :
    deployedService cfg = some s ↔ ∃ d, (cfg.get "description").bind Json.asStr = some d ∧ Names d s := by
  constructor
  · intro h
    unfold deployedService at h
    obtain ⟨d, hd, h⟩ := Option.bind_eq_some_iff.mp h
    split at h
    · rename_i hmade
      obtain ⟨id, hid, h⟩ := Option.bind_eq_some_iff.mp h
      obtain ⟨repository, hrepository, h⟩ := Option.bind_eq_some_iff.mp h
      obtain ⟨image, himage, h⟩ := Option.bind_eq_some_iff.mp h
      obtain ⟨digest, hdigest, h⟩ := Option.bind_eq_some_iff.mp h
      cases h
      exact ⟨d, hd, hmade, hid, hrepository, himage, hdigest⟩
    · cases h
  · rintro ⟨d, hd, h⟩
    simp only [deployedService, hd, Option.bind_eq_bind, Option.bind_some, h.made, ↓reduceIte,
      h.id, h.repository, h.image,
      h.digest]

theorem text_of_str {cfg : Json} {key d : Text} (h : (cfg.get key).bind Json.asStr = some d) :
    text cfg key = d := by
  rw [text, h]
  rfl

/-- What a parsed instance has been. -/
structure Parsed (t : Instance) : Prop where
  ctid : t.ctid < 2 ^ 32
  cores : t.cores < 2 ^ 32
  memory : t.memoryMib < 2 ^ 32
  root : t.rootMib < 2 ^ 32
  names : Names t.description ⟨t.service, t.repository, t.image, t.digest⟩
  address : t.address = addressOf t.network
  mac : t.mac = (extractHwaddr t.network).getD []

theorem parseNat_lt {bound n : Nat} {s : Text} (h : Text.parseNat bound s = some n) : n < bound := by
  unfold Text.parseNat at h
  simp only [Option.ite_none_right_eq_some, Option.some.injEq] at h
  exact h.2 ▸ h.1.2.2

theorem u32_lt (cfg : Json) (key : Text) {default : Nat} (h : default < 2 ^ 32) :
    u32 cfg key default < 2 ^ 32 := by
  unfold u32
  cases (cfg.get key).bind Json.asU64 with
  | none => exact h
  | some n =>
    by_cases hn : n < 2 ^ 32
    · simp only [Option.bind_some, if_pos hn, Option.getD_some]
      exact hn
    · simp only [Option.bind_some, if_neg hn, Option.getD_none]
      exact h

theorem mib_lt {option : Text} {n : Nat} (h : mib option = some n) : n < 2 ^ 32 := by
  unfold mib at h
  obtain ⟨size, _, h⟩ := Option.bind_eq_some_iff.mp h
  obtain ⟨last, _, h⟩ := Option.bind_eq_some_iff.mp h
  obtain ⟨factor, _, h⟩ := Option.bind_eq_some_iff.mp h
  obtain ⟨number, _, h⟩ := Option.bind_eq_some_iff.mp h
  cases h
  exact Nat.mod_lt _ (by decide)

theorem parseSize_lt {s : Text} {n : Nat} (h : parseSize s = some n) : n < 2 ^ 32 := by
  unfold parseSize at h
  simp only at h
  obtain ⟨last, _, h⟩ := Option.bind_eq_some_iff.mp h
  obtain ⟨number, _, h⟩ := Option.bind_eq_some_iff.mp h
  simp only [Option.ite_none_right_eq_some, Option.some.injEq] at h
  exact h.2 ▸ h.1.1

/-- What a parsed instance went through. -/
theorem parse_cases {ctid : Nat} {node pool : Text} {cfg : Json} {running : Bool} {t : Instance}
    (h : parse ctid node pool cfg running = .ok t) :
    owner (text cfg "description") = none ∧ ∃ service devices, deployedService cfg = some service ∧
      Devices.read cfg = .ok devices ∧
      ∃ r, settled ctid (shown ctid node pool cfg running service devices) = .ok r ∧ t = withAddress r := by
  unfold parse at h
  split at h
  · cases h
  · rename_i howner
    cases hservice : deployedService cfg with
    | none =>
      rw [hservice] at h
      cases h
    | some service =>
      rw [hservice] at h
      obtain ⟨devices, hdevices, h⟩ := Except.bind_ok h
      obtain ⟨r, hr, h⟩ := Except.bind_ok h
      cases h
      refine ⟨by simpa using howner, service, devices, rfl, hdevices, r, hr, rfl⟩

theorem Says.bounds {d : Text} {t : Instance} (h : Says d t) :
    t.ctid < 2 ^ 32 ∧ t.cores < 2 ^ 32 ∧ t.memoryMib < 2 ^ 32 ∧ t.rootMib < 2 ^ 32 := by
  obtain ⟨coresText, _, hcores⟩ := Option.bind_eq_some_iff.mp h.cores
  obtain ⟨memoryText, _, hmemory⟩ := Option.bind_eq_some_iff.mp h.memory
  obtain ⟨rootText, _, hroot⟩ := Option.bind_eq_some_iff.mp h.rootfs
  obtain ⟨size, _, hsize⟩ := noteRoot_ok (Except.ok_of_toOption hroot)
  obtain ⟨first, _, hctid⟩ := Option.bind_eq_some_iff.mp h.ctid
  obtain ⟨rest, _, hctid⟩ := Option.bind_eq_some_iff.mp hctid
  exact ⟨parseNat_lt hctid, parseNat_lt hcores, parseNat_lt hmemory, parseSize_lt hsize⟩

theorem parsed_of_parse {ctid : Nat} {node pool : Text} {cfg : Json} {running : Bool} {t : Instance}
    (hctid : ctid < 2 ^ 32) (h : parse ctid node pool cfg running = .ok t) : Parsed t := by
  obtain ⟨_, service, devices, hservice, _, r, hr, rfl⟩ := parse_cases h
  obtain ⟨d, hd, hnames⟩ := deployedService_iff.1 hservice
  have hroot : ∀ option, (mib option).getD 0 < 2 ^ 32 := by
    intro option
    cases hmib : mib option with
    | none => decide
    | some n => exact mib_lt hmib
  unfold settled at hr
  split at hr
  · obtain ⟨hnote, hrepository, hid, himage, hdigest, _, hdescription⟩ := readNote_ok hr
    obtain ⟨hctid, hcores, hmemory, hroot⟩ := hnote.bounds
    refine ⟨hctid, hcores, hmemory, hroot, ?_, rfl, rfl⟩
    change Names r.description ⟨r.service, r.repository, r.image, r.digest⟩
    rw [hdescription, hid, hrepository, himage, hdigest]
    change Names (text cfg "description") service
    rw [text_of_str hd]
    exact hnames
  · cases hr
    refine ⟨hctid, u32_lt cfg "cores" (by decide), u32_lt cfg "memory" (by decide), hroot _, ?_, rfl, rfl⟩
    change Names (text cfg "description") service
    rw [text_of_str hd]
    exact hnames

/-- The holder of an instance names its service. -/
theorem names_holderText {t : Instance} {s : DeployedService} (h : Names t.description s) :
    Names (holderText t) s where
  made := by
    let f : Text → Option Unit := fun l => if Text.trim l = "made by homestack".toList then some () else none
    have hreads : Text.Reads f := ⟨fun l l' hl => by simp only [f, hl], rfl⟩
    have hany : ∀ d, ((Text.lines d).any fun l => Text.trim l = "made by homestack".toList) =
        ((Text.lines d).findSome? f).isSome := by
      intro d
      rw [List.isSome_findSome?]
      congr 1
      funext l
      simp only [f]
      split <;> simp_all
    have hmade := h.made
    rw [hany] at hmade ⊢
    rw [findSome?_holderText hreads]
    cases hfound : (Text.lines t.description).findSome? f with
    | none =>
      rw [hfound] at hmade
      cases hmade
    | some _ =>
      simp
  id := line_of_description (by decide) h.id
  repository := line_of_description (by decide) h.repository
  image := line_of_description (by decide) h.image
  digest := line_of_description (by decide) h.digest

/-- What a holder gives back of the container it keeps. -/
structure Restored (t r : Instance) : Prop where
  held : r.held = true
  ctid : r.ctid = t.ctid
  hostname : r.hostname = t.hostname
  cores : r.cores = t.cores
  memory : r.memoryMib = t.memoryMib
  rootStorage : r.rootStorage = t.rootStorage
  rootMib : r.rootMib = t.rootMib
  pool : r.pool = t.pool
  network : r.network = t.network
  address : r.address = t.address
  mac : r.mac = t.mac
  nameserver : r.nameserver = t.nameserver
  searchdomain : r.searchdomain = t.searchdomain
  running : r.running = t.running
  onboot : r.onboot = t.onboot
  repository : r.repository = t.repository
  service : r.service = t.service
  image : r.image = t.image
  digest : r.digest = t.digest

/-- A holder that is parsed says what was parsed. -/
theorem Restored.note {d : Text} {t r : Instance} (h : Says d r) (hr : Restored t (withAddress r)) :
    Says d t where
  hostname := hr.hostname ▸ h.hostname
  cores := hr.cores ▸ h.cores
  memory := hr.memory ▸ h.memory
  rootfs := hr.rootMib ▸ hr.rootStorage ▸ h.rootfs
  pool := hr.pool ▸ h.pool
  network := hr.network ▸ h.network
  nameserver := hr.nameserver ▸ h.nameserver
  searchdomain := hr.searchdomain ▸ h.searchdomain
  running := hr.running ▸ h.running
  onboot := hr.onboot ▸ h.onboot
  ctid := hr.ctid ▸ h.ctid

/-- Parsing a holder reads its note. -/
theorem parse_holder {kept : Json} {t : Instance} {s : DeployedService} {devices : Devices}
    (hctid : t.ctid < 2 ^ 32) (hnames : Names t.description s)
    (hdescription : kept.get "description" = some (.str (holderText t)))
    (hdevices : Devices.read kept = .ok devices) (id : Nat) (node pool : Text) (running : Bool) :
    parse id node pool kept running =
      readNote id (shown id node pool kept running s devices) >>= fun r => .ok (withAddress r) := by
  have hget : (kept.get "description").bind Json.asStr = some (holderText t) := by
    rw [hdescription]
    rfl
  have hservice := deployedService_iff.2 ⟨_, hget, names_holderText hnames⟩
  have hheld : (shown id node pool kept running s devices).held = true := by
    change (holderOf (text kept "description")).isSome = true
    rw [text_of_str hget, holderOf_holderText hctid]
    rfl
  have hsettled : settled id (shown id node pool kept running s devices) =
      readNote id (shown id node pool kept running s devices) := if_pos hheld
  unfold parse
  rw [text_of_str hget, owner_holderText, hservice, hdevices, ← hsettled]
  rfl

/-- The holder of a service gives back what the note keeps where that is restorable, and
nowhere else. -/
theorem holder_restores_iff {ctid : Nat} {node pool : Text} {cfg : Json} {running : Bool} {t : Instance}
    (hctid : ctid < 2 ^ 32) (h : parse ctid node pool cfg running = .ok t) (hroot : t.rootMib ≠ 0)
    {kept : Json} {devices : Devices} (hdescription : kept.get "description" = some (.str (holderText t)))
    (hdevices : Devices.read kept = .ok devices) (id : Nat) (node' pool' : Text) (running' : Bool) :
    (∃ r, parse id node' pool' kept running' = .ok r ∧ Restored t r) ↔ Restorable t := by
  have hp := parsed_of_parse hctid h
  rw [parse_holder hp.ctid hp.names hdescription hdevices]
  generalize hbase : shown id node' pool' kept running' _ devices = base
  have hd : base.description = holderText t := by
    rw [← hbase]
    change text kept "description" = _
    rw [text, hdescription]
    rfl
  have hheld : base.held = true := by
    rw [← hbase]
    change (holderOf (text kept "description")).isSome = true
    rw [text, hdescription]
    change (holderOf (holderText t)).isSome = true
    rw [holderOf_holderText hp.ctid]
    rfl
  constructor
  · rintro ⟨r, hparse, hrestored⟩
    obtain ⟨r, hr, hparse⟩ := Except.bind_ok hparse
    cases hparse
    have hnote := (readNote_ok hr).1
    rw [hd] at hnote
    exact says_restorable (Restored.note hnote hrestored)
  · intro hrestorable
    have hnote := restorable_note hrestorable hp.ctid hp.cores hp.memory hp.root hroot
    rw [← hd] at hnote
    obtain ⟨r, hr⟩ := @readNote_of_note id _ _ hnote
    obtain ⟨hnote', hrepository, hservice, himage, hdigest, hheld', _⟩ := readNote_ok hr
    obtain ⟨hostname, cores, memory, storage, mib, hpool, network, nameserver, searchdomain,
      hrunning, onboot, hid⟩ :=
      hnote.agree hnote'
    rw [← hbase] at hrepository hservice himage hdigest
    refine ⟨withAddress r, by rw [hr]; rfl, ?_⟩
    exact {
      held := hheld'.trans hheld
      ctid := hid
      hostname := hostname
      cores := cores
      memory := memory
      rootStorage := storage
      rootMib := mib
      pool := hpool
      network := network
      address := (congrArg addressOf network).trans hp.address.symm
      mac := (congrArg (fun n => (extractHwaddr n).getD []) network).trans hp.mac.symm
      nameserver := nameserver
      searchdomain := searchdomain
      running := hrunning
      onboot := onboot
      repository := hrepository
      service := hservice
      image := himage
      digest := hdigest }

/-- A configuration with this description. -/
def serviceCfg (description : String) : Json :=
  .obj [("description".toList, .str description.toList), ("hostname".toList, .str "app".toList),
    ("net0".toList, .str "name=eth0,ip=192.0.2.10/24".toList),
      ("rootfs".toList, .str "local-lvm:vm-120-disk-0,size=128M".toList)]

def identity : String :=
  "HomeStack service app\nrepository owner/app\nimage registry/app:1\ndigest sha256:abc\nmade by homestack"

/-- A note of the user's that looks like one of the holder's. -/
def noted : String := identity ++ "\ncores 8"

/-- A holder's configuration. -/
def holderCfg (t : Instance) : Json := .obj [("description".toList, .str (holderText t))]

theorem read_holderCfg (t : Instance) : Devices.read (holderCfg t) = .ok [] := rfl

/-- What the holder gives back as the number of cores. -/
def restoredCores (t : Instance) : Option Nat :=
  (parse 999999 [] [] (holderCfg t) false).toOption.map Instance.cores

theorem parse_noted : ∃ t, parse 120 [] "services" (serviceCfg noted) false = .ok t ∧ t.rootMib ≠ 0 ∧
    t.cores = 1 ∧ restoredCores t = some 8 := by
  have hvalues : ((parse 120 [] "services" (serviceCfg noted) false).toOption.map
      fun t => (t.rootMib, t.cores, restoredCores t)) = some (128, 1, some 8) := by
    decide +kernel
  obtain ⟨t, ht, hvalues⟩ := Option.map_eq_some_iff.mp hvalues
  simp only [Prod.mk.injEq] at hvalues
  exact ⟨t, Except.ok_of_toOption ht, by rw [hvalues.1]; decide, hvalues.2⟩

/-- The user's line is read in place of the note's. -/
theorem holder_loses_cores :
    ¬ ∀ (ctid : Nat) (node pool : Text) (cfg : Json) (running : Bool) (t : Instance), ctid < 2 ^ 32 →
    parse ctid node pool cfg running = .ok t → t.rootMib ≠ 0 → ∀ (kept : Json) (devices : Devices),
    kept.get "description" = some (.str (holderText t)) → Devices.read kept = .ok devices →
    ∀ (id : Nat) (node' pool' : Text) (running' : Bool), ∃ r, parse id node' pool' kept running' = .ok r ∧
      Restored t r := by
  intro h
  obtain ⟨t, ht, hroot, hcores, hrestored⟩ := parse_noted
  obtain ⟨r, hr, hsame⟩ :=
    h 120 [] "services" _ false t (by decide) ht hroot (holderCfg t) [] rfl
    (read_holderCfg t) 999999 [] [] false
  rw [restoredCores, hr, Except.toOption, Option.map_some, hsame.cores, hcores] at hrestored
  cases hrestored

theorem holder_restores_noted : ∃ t, parse 120 [] "services" (serviceCfg noted) false = .ok t ∧
    ((∃ r, parse 999999 [] [] (holderCfg t) false = .ok r ∧ Restored t r) ↔ Restorable t) := by
  obtain ⟨t, ht, hroot, _⟩ := parse_noted
  exact ⟨t, ht, holder_restores_iff (by decide) ht hroot rfl (read_holderCfg t) 999999 [] [] false⟩

end HomeStack.ServiceInstance

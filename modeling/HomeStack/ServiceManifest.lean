import HomeStack.Keys
import HomeStack.Lib.Percent
import HomeStack.Lib.Report

/-! Service manifests of schema 1 (`services/manifest.rs`): one YAML mapping is checked section by
section, and yields a manifest when nothing is found wrong. -/

namespace HomeStack.ServiceManifest

open Report

/-! ## YAML trees -/

inductive Yaml
  | string (s : Text)
  | integer (n : Int)
  | real (s : Text)
  | boolean (b : Bool)
  | null
  | array (items : List Yaml)
  | hash (entries : List (Yaml × Yaml))

abbrev Fields := List (Yaml × Yaml)

namespace Yaml

def asStr : Yaml → Option Text
  | .string s => some s
  | _ => none

def isNull : Yaml → Bool
  | .null => true
  | _ => false

end Yaml

def field (fields : Fields) (name : Text) : Option Yaml :=
  match fields with
  | [] => none
  | (key, value) :: rest => if key.asStr = some name then some value else field rest name

/-! ## Manifests -/

structure Resources where
  cores : Nat
  memoryMib : Nat
  swapMib : Nat
  rootfsMib : Nat
  deriving DecidableEq

structure Port where
  name : Text
  port : Nat
  deriving DecidableEq

inductive Healthcheck
  | http (port path : Text) (expectedStatus heartbeatSeconds : Nat)
  /-- Only that the port accepts connections. -/
  | tcp (port : Text)
  deriving DecidableEq

structure Mapping where
  source : Text
  destination : Text
  deriving DecidableEq

structure Persistence where
  mount : Text
  sizeMib : Nat
  directories : List Text
  mappings : List Mapping
  deriving DecidableEq

inductive Placement
  | spread
  | single
  deriving DecidableEq

inductive StateModel
  | stateless
  | «local»
  | external
  deriving DecidableEq

structure Deployment where
  hostname : Text
  instances : Nat
  placement : Placement
  stateModel : StateModel
  deriving DecidableEq

structure Pangolin where
  port : Text
  name : Text
  subdomain : Text
  bypassPaths : List Text
  deriving DecidableEq

structure Manifest where
  id : Text
  name : Text
  imageRepository : Text
  resources : Option Resources
  ports : List Port
  healthcheck : Option Healthcheck
  persistence : Option Persistence
  deployment : Deployment
  pangolin : Option Pangolin
  deriving DecidableEq

/-! ## Names and paths -/

def systemTrees : List Text :=
  ["/bin", "/boot", "/dev", "/etc", "/lib", "/lib32", "/lib64", "/libx32", "/proc", "/run",
    "/sbin", "/sys", "/tmp",
    "/usr", "/var/run", "/var/tmp"]

def sharedDirectories : List Text :=
  ["/home", "/media", "/mnt", "/opt", "/root", "/srv", "/var", "/var/cache", "/var/lib",
    "/var/lock", "/var/log"]

def sections : List Text :=
  ["schema", "id", "name", "image", "runtime", "persistence", "deployment", "exposure"]

def isAlphanumeric (c : Char) : Bool := Text.isLower c || ('A' ≤ c && c ≤ 'Z') || c.isDigit

/-- `a-z`, `0-9` and `-` -/
def labelChar (c : Char) : Bool := Text.isLower c || c.isDigit || c = '-'

def validId (text : Text) : Bool :=
  1 ≤ text.utf8.length && text.utf8.length ≤ 63 && text.all labelChar && !Text.startsWith "-" text

def validPortName (text : Text) : Bool :=
  1 ≤ text.utf8.length && text.utf8.length ≤ 32 && text.head?.any Text.isLower && text.all labelChar

def validSubdomain (text : Text) : Bool :=
  1 ≤ text.utf8.length && text.utf8.length ≤ 63 && text.all labelChar && !Text.startsWith "-" text &&
    !(text.getLast? = some '-')

def repositoryComponent (part : Text) : Bool :=
  part ≠ [] && part.head?.any (fun c => Text.isLower c || c.isDigit) &&
    part.all fun c => Text.isLower c || c.isDigit || c = '.' || c = '_' || c = '-'

def validRepository (text : Text) : Bool :=
  match text.splitOn '/' with
  | [] => false
  | first :: rest =>
    let host := match Text.splitOnce ":" first with
      | some (host, port) => repositoryComponent host && port ≠ [] && port.all Char.isDigit
      | none => repositoryComponent first
    rest ≠ [] && host && rest.all repositoryComponent

def plainPart (part : Text) : Bool := part ≠ [] && part ≠ "." && part ≠ ".."

def validRelative (text : Text) : Bool :=
  text ≠ [] && !Text.startsWith "/" text && !text.any (fun c => Text.isControl c || c = '\\') &&
    (text.splitOn '/').all plainPart

def validAbsolute (text : Text) : Bool := (("/" : Text).isPrefixOf? text).any validRelative

def within (path directory : Text) : Bool :=
  path = directory || (directory.isPrefixOf? path).any fun rest => Text.startsWith "/" rest

def mountPart (part : Text) : Bool :=
  part.head?.any (fun c => isAlphanumeric c || c = '_') &&
    part.all fun c => isAlphanumeric c || c = '.' || c = '_' || c = '-'

def validMount (text : Text) : Bool :=
  text.utf8.length ≤ 255 && validAbsolute text && ((text.drop 1).splitOn '/').all mountPart &&
    !systemTrees.any (within text ·) && !sharedDirectories.contains text

/-! ## Issues -/

abbrev Path := List Text

structure Issue where
  path : Path
  message : Text
  deriving DecidableEq

abbrev Check := Report Issue

namespace Check

def mappingKey (path : Path) (allowed : List Text) (key : Yaml) : Check Unit :=
  match key.asStr with
  | some name => failIf (name ∉ allowed) ⟨path ++ [name], "unknown field"⟩
  | none => fail ⟨path, "field names must be strings"⟩

/-- The mapping at `path`; every key outside `allowed` is an issue. -/
def mapping (value : Yaml) (path : Path) (allowed : List Text) : Check (Option Fields) :=
  match value with
  | .hash fields => do
    each (fun e => mappingKey path allowed e.1) fields
    pure (some fields)
  | _ => do
    fail ⟨path, "expected a mapping"⟩
    pure none

/-- Field `name`; a missing one is an issue of its mapping. -/
def required (fields : Fields) (path : Path) (name : Text) : Check (Option Yaml) :=
  match field fields name with
  | some value => pure (some value)
  | none => do
    fail ⟨path, name ++ ": required"⟩
    pure none

def string (value : Yaml) (path : Path) : Check (Option Text) :=
  match value.asStr with
  | some text => pure (some text)
  | none => do
    fail ⟨path, "expected a string"⟩
    pure none

def integer (value : Yaml) (path : Path) (low high : Int) : Check (Option Int) :=
  match value with
  | .integer number =>
    if low ≤ number ∧ number ≤ high then pure (some number)
    else do
      fail ⟨path, "must be " ++ Text.ofNat low.toNat ++ "–" ++ Text.ofNat high.toNat⟩
      pure none
  | _ => do
    fail ⟨path, "expected an integer"⟩
    pure none

def showMib (mib : Nat) : Text :=
  if 1024 ≤ mib ∧ mib % 1024 = 0 then Text.ofNat (mib / 1024) ++ "G" else Text.ofNat mib ++ "M"

/-- The size that a text stands for, before its range is checked. `split_at` aborts when the
byte before the last is not the end of a character. -/
def parseSize (text : Text) : Check (Option Nat) :=
  match text.getLast? with
  | none => pure none
  | some unit =>
    if 0x80 ≤ unit.toNat then .aborted
    else
      let digits := text.dropLast
      let factor := if unit = 'M' then some 1 else if unit = 'G' then some 1024 else none
      pure (factor.bind fun factor =>
        if digits = [] ∨ ¬ digits.all Char.isDigit then none
        else (Text.parseNat (2 ^ 64) digits).bind fun n => if n * factor < 2 ^ 64 then
          some (n * factor) else none)

def sizeText (value : Yaml) : Check (Option Nat) :=
  match value.asStr with
  | some text => parseSize text
  | none => pure none

def sizeInRange (path : Path) (low high : Nat) : Option Nat → Check (Option Nat)
  | none => do
    fail ⟨path, "expected a size such as 512M or 2G"⟩
    pure none
  | some mib =>
    if mib < 2 ^ 32 ∧ low ≤ mib ∧ mib ≤ high then pure (some mib)
    else do
      fail ⟨path, "must be " ++ showMib low ++ " to " ++ showMib high⟩
      pure none

/-- A size in MiB within a range. -/
def size (value : Yaml) (path : Path) (low high : Nat) : Check (Option Nat) := do
  let parsed ← sizeText value
  sizeInRange path low high parsed

def list (value : Yaml) (path : Path) : Check (Option (List Yaml)) :=
  match value with
  | .array items => pure (some items)
  | _ => do
    fail ⟨path, "expected a list"⟩
    pure none

/-- One of `choices` mapped to its value. -/
def choice {α : Type} (value : Yaml) (path : Path) (choices : List (Text × α)) : Check (Option α) :=
  andThen (string value path) fun text =>
    match choices.find? (·.1 = text) with
    | some found => pure (some found.2)
    | none => do
      fail ⟨path, "expected " ++ List.intercalate ", ".toList (choices.map Prod.fst)⟩
      pure none

end Check

open Check

/-- `u16::try_from` and `u32::try_from` -/
def tryFrom (bound : Nat) (n : Int) : Option Nat := if 0 ≤ n ∧ n < bound then some n.toNat else none

/-- A required field with its check. -/
def checked {α : Type} (fields : Fields) (path : Path) (name : Text)
    (check : Yaml → Path → Check (Option α)) :
    Check (Option α) :=
  andThen (required fields path name) fun value => check value (path ++ [name])

/-- A value that has to pass one more test. -/
def filtered {α : Type} (value : Option α) (refused : α → Bool) (issue : α → Issue) : Check (Option α) :=
  match value with
  | none => pure none
  | some a =>
    if refused a then do
      fail (issue a)
      pure none
    else pure (some a)

/-! ## The sections -/

def imageOf (value : Yaml) : Check (Option Text) :=
  let path : Path := ["image"]
  andThen (mapping value path ["repository"]) fun fields =>
    andThen (checked fields path "repository" string) fun repository =>
      if validRepository repository then pure (some repository)
      else do
        fail ⟨path ++ ["repository".toList], "expected a lowercase OCI repository without tag or digest"⟩
        pure none

def resourcesOf (value : Yaml) (path : Path) : Check (Option Resources) :=
  andThen (mapping value path ["cores", "memory", "swap", "rootfs"]) fun fields => do
    let cores ← checked fields path "cores" (integer · · 1 64)
    let memory ← checked fields path "memory" (size · · 64 (1024 * 1024))
    let swap ← checked fields path "swap" (size · · 0 (1024 * 1024))
    let rootfs ← checked fields path "rootfs" (size · · 64 (1024 * 1024))
    pure (do
      let cores ← tryFrom (2 ^ 32) (← cores)
      let memory ← memory
      let swap ← swap
      let rootfs ← rootfs
      some ⟨cores, memory, swap, rootfs⟩)

def portOf (entry : Yaml) (path : Path) : Check (Option Port) :=
  andThen (mapping entry path ["name", "port", "protocol"]) fun fields => do
    let name ← checked fields path "name" string
    let name ← filtered name (!validPortName ·) fun _ =>
        ⟨path ++ ["name".toList], "must match ^[a-z][a-z0-9-]\x7b0,31\x7d$"⟩
    let port ← checked fields path "port" (integer · · 1 65535)
    let protocol ← checked fields path "protocol" (choice · · [("tcp", ())])
    pure (do
      let _ ← protocol
      let name ← name
      let port ← tryFrom (2 ^ 16) (← port)
      some ⟨name, port⟩)

/-- The entries of `ports_of` from `index` on; `valid` until one is refused. -/
def portLoop (path : Path) : Nat → List Port → Bool → List Yaml → Check (List Port × Bool)
  | _, ports, valid, [] => pure (ports, valid)
  | index, ports, valid, entry :: rest => do
    let path' := path ++ [Text.ofNat index]
    let port ← portOf entry path'
    match port with
    | none => portLoop path (index + 1) ports false rest
    | some port =>
      if ports.any (·.name = port.name) then do
        fail ⟨path' ++ ["name".toList], "duplicate port name " ++ port.name⟩
        portLoop path (index + 1) ports false rest
      else if ports.any (·.port = port.port) then do
        fail ⟨path' ++ ["port".toList], "duplicate port " ++ Text.ofNat port.port⟩
        portLoop path (index + 1) ports false rest
      else portLoop path (index + 1) (ports ++ [port]) valid rest

def portsOf (value : Yaml) (path : Path) : Check (Option (List Port)) :=
  andThen (list value path) fun entries => do
    let (ports, valid) ← portLoop path 0 [] true entries
    pure (if valid then some ports else none)

def heartbeatOf (fields : Fields) (path : Path) : Check (Option Int) :=
  match field fields "heartbeat_seconds" with
  | some value => integer value (path ++ ["heartbeat_seconds".toList]) 10 3600
  | none => pure (some 60)

/-- `healthcheck_of`, of type `http` -/
def httpOf (fields : Fields) (path : Path) (port : Option Text) : Check (Option Healthcheck) := do
  let probe ← checked fields path "path" string
  let probe ← filtered probe (fun probe => !Text.startsWith "/" probe || probe.any Text.isControl) fun _ =>
    ⟨path ++ ["path".toList], "expected an absolute URL path starting with /"⟩
  let status ← checked fields path "expected_status" (integer · · 100 599)
  let heartbeat ← heartbeatOf fields path
  pure (do
    let heartbeat ← heartbeat
    let port ← port
    let probe ← probe
    let status ← tryFrom (2 ^ 16) (← status)
    let heartbeat ← tryFrom (2 ^ 32) heartbeat
    some (.http port probe status heartbeat))

def healthcheckOf (value : Yaml) (path : Path) (ports : List Port) : Check (Option Healthcheck) :=
  andThen (mapping value path ["type", "port", "path", "expected_status", "heartbeat_seconds"]) fun fields =>
    do
    let port ← checked fields path "port" string
    let port ← filtered port (fun port => !ports.any (·.name = port)) fun port =>
      ⟨path ++ ["port".toList], port ++ " is not a name in runtime.ports"⟩
    andThen (checked fields path "type" (choice · · [("http", true), ("tcp", false)])) fun kind =>
      if kind then httpOf fields path port
      else do
        each (fun name => failIf ((field fields name).isSome) ⟨path ++ [name], "only for type http"⟩)
          ["path", "expected_status", "heartbeat_seconds"]
        pure (port.map .tcp)

abbrev Runtime := Option Resources × List Port × Option Healthcheck

/-- The resources of a runtime; `some none` for an empty field. -/
def runtimeResources (value : Yaml) (path : Path) : Check (Option (Option Resources)) :=
  if value.isNull then pure (some none)
  else do
    let resources ← resourcesOf value path
    pure (resources.map some)

def runtimePorts (runtime : Fields) (path : Path) : Check (Option (List Port)) :=
  match field runtime "ports" with
  | none => pure (some [])
  | some value => portsOf value (path ++ ["ports".toList])

/-- The health check of a runtime, against ports without issue. -/
def runtimeHealthcheck (runtime : Fields) (path : Path) (ports : Option (List Port)) :
    Check (Option (Option Healthcheck)) :=
  match field runtime "healthcheck", ports with
  | none, _ => pure (some none)
  | some value, some ports => do
    let healthcheck ← healthcheckOf value (path ++ ["healthcheck".toList]) ports
    pure (healthcheck.map some)
  | some _, none => pure none

def runtimeOf (value : Yaml) : Check (Option Runtime) :=
  let path : Path := ["runtime"]
  andThen (mapping value path ["resources", "ports", "healthcheck"]) fun runtime => do
    let resources ← checked runtime path "resources" runtimeResources
    let ports ← runtimePorts runtime path
    let healthcheck ← runtimeHealthcheck runtime path ports
    pure (do
      let resources ← resources
      let ports ← ports
      let healthcheck ← healthcheck
      some (resources, ports, healthcheck))

def defaultMount : Text := "/home/app"

/-- The entries of `persistence.directories` from `index` on. -/
def directoryLoop (path : Path) : Nat → List Text → List Yaml → Check (List Text)
  | _, directories, [] => pure directories
  | index, directories, entry :: rest => do
    let path' := path ++ [Text.ofNat index]
    let directory ← string entry path'
    match directory with
    | none => directoryLoop path (index + 1) directories rest
    | some directory =>
      if !validRelative directory then do
        fail ⟨path', "expected a relative path inside the mount without .."⟩
        directoryLoop path (index + 1) directories rest
      else if directories.contains directory then do
        fail ⟨path', "duplicate " ++ directory⟩
        directoryLoop path (index + 1) directories rest
      else directoryLoop path (index + 1) (directories ++ [directory]) rest

/-- The source of a mapping neither lies in the mount nor contains it. -/
def sourceApart (path : Path) : Option Text → Option Text → Check Unit
  | some source, some mount =>
    failIf (!validAbsolute source || within source mount || within mount source)
      ⟨path ++ ["source".toList], "expected an absolute path outside " ++ mount ++
        " that does not contain it"⟩
  | _, _ => pure ()

/-- The destination of a mapping lies in a declared directory. -/
def destinationDeclared (path : Path) (directories : List Text) : Option Text → Check Unit
  | some destination =>
    failIf (!validRelative destination || !directories.any (within destination ·))
      ⟨path ++ ["destination".toList], "expected one of persistence.directories or a path below one"⟩
  | none => pure ()

/-- One entry of `persistence.mappings`. -/
def mappingOf (mount : Option Text) (directories : List Text) (pair : Fields) (path : Path) :
    Check (Option Mapping) := do
  let source ← checked pair path "source" string
  sourceApart path source mount
  let destination ← checked pair path "destination" string
  destinationDeclared path directories destination
  pure (do
    let source ← source
    let destination ← destination
    some ⟨source, destination⟩)

def mappingLoop (mount : Option Text) (directories : List Text) (path : Path) :
    Nat → List Mapping → List Yaml → Check (List Mapping)
  | _, mappings, [] => pure mappings
  | index, mappings, entry :: rest => do
    let path' := path ++ [Text.ofNat index]
    let found ← andThen (mapping entry path' ["source", "destination"]) fun pair =>
        mappingOf mount directories pair path'
    mappingLoop mount directories path (index + 1) (mappings ++ found.toList) rest

/-- The items of an optional list. -/
def entriesOf (fields : Fields) (path : Path) (name : Text) : Check (List Yaml) :=
  match field fields name with
  | none => pure []
  | some value => do
    let entries ← list value (path ++ [name])
    pure (entries.getD [])

/-- An optional field with a check that its text must pass. -/
def textOr (fields : Fields) (path : Path) (name : Text) (default : Option Text)
    (valid : Text → Bool) (message : Text) :
    Check (Option Text) :=
  match field fields name with
  | none => pure default
  | some value =>
    andThen (string value (path ++ [name])) fun text =>
      if valid text then pure (some text)
      else do
        fail ⟨path ++ [name], message⟩
        pure none

/-- `persistence_of`; `some none` for an empty section. -/
def persistenceOf (value : Yaml) : Check (Option (Option Persistence)) :=
  if value.isNull then pure (some none)
  else
    let path : Path := ["persistence"]
    andThen (mapping value path ["mount", "size", "directories", "mappings"]) fun fields => do
      let mount ← textOr fields path "mount" (some defaultMount) validMount
        ("expected a canonical absolute path of [A-Za-z0-9._-] components, " ++
          "not /, a system directory or a shared top-level directory")
      let sizeMib ← checked fields path "size" (size · · 1 (16384 * 1024))
      let entries ← entriesOf fields path "directories"
      let directories ← directoryLoop (path ++ ["directories".toList]) 0 [] entries
      let entries ← entriesOf fields path "mappings"
      let mappings ← mappingLoop mount directories (path ++ ["mappings".toList]) 0 [] entries
      pure (do
        let mount ← mount
        let sizeMib ← sizeMib
        some (some ⟨mount, sizeMib, directories, mappings⟩))

def hostLabel : Text := "expected a DNS label: a-z, 0-9 and inner -"

def placementOf (fields : Fields) (path : Path) : Check (Option Placement) :=
  match field fields "placement" with
  | none => pure (some Placement.spread)
  | some value => choice value (path ++ ["placement".toList]) [("spread", .spread), ("single", .single)]

def deploymentOf (value : Yaml) (id : Option Text) : Check (Option Deployment) :=
  let path : Path := ["deployment"]
  andThen (mapping value path ["hostname", "instances", "placement", "state_model"]) fun fields => do
    let hostname ← textOr fields path "hostname" id validSubdomain hostLabel
    let instances ← checked fields path "instances" (integer · · 1 16)
    let placement ← placementOf fields path
    let stateModel ← checked fields path "state_model"
      (choice · · [("stateless", StateModel.stateless), ("local", .local), ("external", .external)])
    pure (do
      let hostname ← hostname
      let instances ← tryFrom (2 ^ 32) (← instances)
      let placement ← placement
      let stateModel ← stateModel
      some ⟨hostname, instances, placement, stateModel⟩)

/-- The entries of `bypass_paths` from `index` on. -/
def bypassLoop (path : Path) : Nat → List Text → List Yaml → Check (List Text)
  | _, patterns, [] => pure patterns
  | index, patterns, item :: rest => do
    let path' := path ++ [Text.ofNat index]
    let pattern ← string item path'
    match pattern with
    | none => bypassLoop path (index + 1) patterns rest
    | some pattern => do
      failIf (!Text.startsWith "/" pattern || 256 < pattern.utf8.length ||
          pattern.any (fun c => Text.isControl c || Text.isWhitespace c) || patterns.contains pattern)
        ⟨path', "expected a unique path pattern starting with /"⟩
      bypassLoop path (index + 1) (patterns ++ [pattern]) rest

def healthPort : Option Healthcheck → Option Text
  | some (.http port _ _ _) => some port
  | _ => none

/-- The port of `exposure.pangolin` against the section that declares the ports. -/
def exposedPort (path : Path) (port : Option Text) (runtime : Option Runtime) : Check Unit :=
  match port, runtime with
  | some port, some (_, ports, healthcheck) =>
    if !ports.any (·.name = port) then fail ⟨path ++ ["port".toList],
      port ++ " is not a name in runtime.ports"⟩
    else failIf (healthPort healthcheck ≠ some port) ⟨path ++ ["port".toList],
      "requires an http healthcheck on this port"⟩
  | _, _ => pure ()

/-- `bypass_paths`, if given. -/
def bypassOf (fields : Fields) (path : Path) : Check (List Text) :=
  match field fields "bypass_paths" with
  | none => pure []
  | some value => do
    let entries ← list value (path ++ ["bypass_paths".toList])
    let patterns ← bypassLoop (path ++ ["bypass_paths".toList]) 0 [] (entries.getD [])
    failIf (16 < patterns.length) ⟨path ++ ["bypass_paths".toList], "at most 16 paths"⟩
    pure patterns

/-- `exposure_of`; `some none` for an empty section. -/
def exposureOf (value : Yaml) (runtime : Option Runtime) : Check (Option (Option Pangolin)) :=
  if value.isNull then pure (some none)
  else
    andThen (mapping value ["exposure"] ["pangolin"]) fun fields =>
      let path : Path := ["exposure", "pangolin"]
      andThen (required fields ["exposure"] "pangolin") fun pangolin =>
        andThen (mapping pangolin path ["port", "name", "subdomain", "bypass_paths"]) fun fields => do
          let port ← checked fields path "port" string
          exposedPort path port runtime
          let name ← checked fields path "name" string
          failIf (name.any fun name => !(1 ≤ name.length && name.length ≤ 64))
            ⟨path ++ ["name".toList], "must be 1–64 characters"⟩
          let subdomain ← checked fields path "subdomain" string
          failIf (subdomain.any (!validSubdomain ·)) ⟨path ++ ["subdomain".toList], hostLabel⟩
          let bypassPaths ← bypassOf fields path
          pure (do
            let port ← port
            let name ← name
            let subdomain ← subdomain
            some (some ⟨port, name, subdomain, bypassPaths⟩))

/-! ## The whole file -/

structure Checked where
  id : Option Text
  name : Option Text
  document : Yaml
  issues : List Issue
  manifest : Option Manifest

/-- A section by its checker, if it is there. -/
def sectionOf {α : Type} (top : Fields) (name : Text) (check : Yaml → Check (Option α)) : Check (Option α) :=
  match field top name with
  | none => pure none
  | some value => check value

/-- A section that is a text. -/
def textSection (name : Text) (valid : Text → Bool) (message : Text) (value : Yaml) : Check (Option Text) :=
  match value.asStr.filter valid with
  | some text => pure (some text)
  | none => do
    fail ⟨[name], message⟩
    pure none

/-- The state model against the persistence. -/
def stateOf (deployment : Option Deployment) (persistence : Option (Option Persistence)) : Check Unit :=
  match deployment, persistence with
  | some deployment, some persistence =>
    let path : Path := ["deployment", "state_model"]
    match deployment.stateModel, persistence with
    | .local, none => fail ⟨path, "local requires a non-empty persistence"⟩
    | .stateless, some _ => fail ⟨path, "stateless requires an empty persistence"⟩
    | _, _ => pure ()
  | _, _ => pure ()

/-- The schema is 1, if there is one. -/
def schemaOf (top : Fields) : Check Unit :=
  match field top "schema" with
  | none => pure ()
  | some (.integer n) => failIf (n ≠ 1) ⟨["schema"], "must be 1"⟩
  | some _ => fail ⟨["schema"], "must be 1"⟩

def knownSection (key : Yaml) : Check Unit :=
  match key.asStr with
  | some name => failIf (name ∉ sections) ⟨[name], "unknown section"⟩
  | none => pure ()

/-- The checks of a document whose field names are texts, with the id, the name and the manifest. -/
def checkSections (top : Fields) : Check (Option Text × Option Text × Option Manifest) := do
  each (fun e => knownSection e.1) top
  each (fun name => failIf ((field top name).isNone) ⟨[name], "missing section"⟩) sections
  schemaOf top
  let id ← sectionOf top "id" (textSection "id" validId "must match ^[a-z0-9][a-z0-9-]\x7b0,62\x7d$")
  let name ← sectionOf top "name"
    (textSection "name" (fun name => 1 ≤ name.length && name.length ≤ 64) "must be 1–64 characters")
  let image ← sectionOf top "image" imageOf
  let runtime ← sectionOf top "runtime" runtimeOf
  let persistence ← sectionOf top "persistence" persistenceOf
  let deployment ← sectionOf top "deployment" (deploymentOf · id)
  let pangolin ← sectionOf top "exposure" (exposureOf · runtime)
  stateOf deployment persistence
  pure (id, name, do
    let manifestId ← id
    let manifestName ← name
    let imageRepository ← image
    let (resources, ports, healthcheck) ← runtime
    let persistence ← persistence
    let deployment ← deployment
    let pangolin ← pangolin
    some ⟨manifestId, manifestName, imageRepository, resources, ports, healthcheck,
      persistence, deployment, pangolin⟩)

/-- What `parse` does with the document that was loaded; `none` when it panics. -/
def checkDocument (document : Yaml) : Option (Except Text Checked) :=
  match document with
  | .hash top =>
    if top.any fun e => e.1.asStr.isNone then some (.error "top-level field names must be strings")
    else
      match checkSections top with
      | .aborted => none
      | .returned (id, name, manifest) issues =>
        some (.ok ⟨id, name, document, issues, if issues.isEmpty then manifest else none⟩)
  | _ => some (.error "expected a mapping of the top-level sections")

/-- `manifest::parse`; `load` is `YamlLoader::load_from_str`. -/
def parse (load : Text → Except Text (List Yaml)) (text : Text) : Option (Except Text Checked) :=
  if 64 * 1024 < text.utf8.length then some (.error ("larger than " ++ Text.ofNat (64 * 1024) ++ " bytes"))
  else
    match load text with
    | .error error => some (.error ("invalid YAML: " ++ error))
    | .ok [document] => checkDocument document
    | .ok documents => some (.error ("expected exactly one YAML document, found " ++
        Text.ofNat documents.length))

end HomeStack.ServiceManifest

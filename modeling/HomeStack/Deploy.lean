import HomeStack.Error
import HomeStack.Lib.Ipv4
import HomeStack.ServiceInputs
import HomeStack.ServiceManifest

/-! Planning new instances of a service (`services/deploy.rs`): which container gets which number,
address, name and storage, and what speaks against it. Nothing is changed by a plan. -/

namespace HomeStack.Deploy

open ServiceInstance (Instance)

/-! ## What a plan is made from -/

/-- The contract of schema 3. -/
structure Contract extends Schema3.Contract where
  alwaysNumbered : Bool
  homestackTelemetry : Bool

structure Manifest extends ServiceManifest.Manifest where
  schema3 : Option Contract

/-- The manifest revision a deployment is made from. -/
structure Source where
  repository : Text
  branch : Text
  commit : Text
  path : Text
  blob : Text
  manifest : Manifest

/-- A storage on a node; `available` in bytes. -/
structure NodeStorage where
  node : Text
  storage : Text
  available : Nat
  total : Nat

structure Cluster where
  nodes : List Text
  storages : List NodeStorage
  templates : List Text
  /-- The images of the published releases. -/
  releases : List Text

/-- What the operator chose; numbers as typed. -/
structure Choice where
  application : List (Text × Text)
  instanceCount : Text
  swapMib : Text
  version : Text
  /-- `NODE:STORAGE` entries. -/
  placements : List Text
  ctids : Text
  cores : Text
  memoryMib : Text
  rootMib : Text
  homeMib : Text
  environment : Text
  hostname : Text
  domain : Text
  nameserver : Text
  existing : Nat

/-- What the plan reads of the `DeployConfig`. -/
structure DeployConfig where
  domain : Text
  templateStorage : Text
  pool : Text
  bridge : Text
  cidr : Nat
  gateway : Ipv4
  nameserver : Option Ipv4
  caFile : Option Text
  prometheusUrl : Option Text

structure Resume where
  homeMount : Text
  root : Text
  network : Text
  description : Text
  deriving DecidableEq

/-- A container a plan makes. -/
structure NewInstance where
  node : Text
  ctid : Nat
  hostname : Text
  fqdn : Text
  address : Text
  cores : Nat
  memoryMib : Nat
  rootStorage : Text
  rootMib : Nat
  homeStorage : Text
  homeMib : Nat
  homePath : Text
  resume : Option Resume
  deriving DecidableEq

structure InstanceSpec where
  name : Text
  node : Text
  ctid : Nat
  address : Ipv4
  storage : Text

def NewInstance.apiSpec (i : NewInstance) : Except Text InstanceSpec :=
  match Ipv4.parse i.address with
  | some address => .ok ⟨i.hostname, i.node, i.ctid, address, i.rootStorage⟩
  | none => .error "Invalid API instance address"

structure Resolved where
  digest : Text
  platform : Text

/-- `Plan`; the configuration kept for an API is left out. -/
structure Plan where
  application : List (Text × Json)
  image : Text
  resolved : Option Resolved
  instances : List NewInstance
  pulls : List Text
  environment : Schema3.Environment
  bridge : Text
  cidr : Nat
  gateway : Text
  nameserver : Option Text
  templateStorage : Text
  pool : Text
  domain : Text
  swapMib : Nat
  problems : List Text
  sites : List Text

/-- The answers of Proxmox to a path and a query. -/
abbrev Pve := Text → List (Text × Text) → Except PveError Json

structure Dns where
  zone : Text
  check : Except Text Unit
  addresses : Text → Except Text (List Text)

/-- What a plan asks outside. Proxmox is asked at several moments and may answer differently at each: 0
when the service's containers are looked up, 1 when numbers are picked, 2 and 3 when the names and the
addresses in use are read, from 4 on at each container, and last when the images are looked up. A Site is
reviewed by a mutable reviewer, so its answer may depend on how many reviews came before. -/
structure World where
  pve : Nat → Pve
  resolve : Text → Except Text Resolved
  bootstrap : Except Text (InstanceSpec → Except Text Unit)
  site : Option (Nat → Nat → Text → Option Text → Except Text Text)
  dns : Option Dns
  crates : Schema3.Crates
  /-- `serde_json::from_str` -/
  fromStr : Text → Option Json
  /-- How `{:?}` prints a text. -/
  debug : Text → Text

/-! ## The source -/

def apiImage : Text := "ghcr.io/hipotures/homestack-server"

def siteImage : Text := "ghcr.io/hipotures/homestack-pangolin-site"

def apiInitHome : Text := "api-initialization-home "

def siteInitHome : Text := "site-initialization-home "

namespace Source

variable (source : Source)

def isApi : Bool := source.manifest.imageRepository = apiImage

def isSite : Bool := source.manifest.imageRepository = siteImage

def initializationBlocker : Option Text :=
  if source.isApi ∧ (source.repository ≠ "hipotures/homestack" ∨ source.manifest.id ≠ "homestack-api" ∨
      source.path ≠ ".homestack/services/homestack-api/service.yaml") then
    some "API initialization requires the canonical HomeStack API manifest from hipotures/homestack."
  else if source.isSite ∧ (source.repository ≠ "hipotures/homestack" ∨ source.manifest.id ≠ "pangolin" ∨
      source.path ≠ ".homestack/services/pangolin/service.yaml") then
    some "Site initialization requires the canonical Pangolin Site manifest from hipotures/homestack."
  else none

/-- The marker of an unfinished initialization of the service. -/
def marker : Option Text :=
  if source.manifest.persistence.isNone then none
  else if source.isApi then some apiInitHome
  else if source.isSite then some siteInitHome
  else none

def image (version : Text) : Text := source.manifest.imageRepository ++ ":" ++ version

end Source

/-- A number of a version: decimal, without leading zeros. -/
def versionNumber (part : Text) : Option Nat :=
  if part ≠ [] ∧ Text.allDigits part ∧ ¬ (1 < part.length ∧ part.head? = some '0') then
    Text.parseNat (2 ^ 64) part else none

def version (tag : Text) : Option (List Nat) := do
  let (release, build) ← match Text.splitOnce "-" tag with
    | some (release, build) => ((versionNumber build).filter (0 < ·)).map fun build => (release, build)
    | none => some (tag, 0)
  match release.splitOn '.' with
  | [major, minor, patch] =>
    some [← versionNumber major, ← versionNumber minor, ← versionNumber patch, build]
  | _ => none

/-- The version is missing or below the one that is needed. -/
def tooOld (tag : Text) (needed : List Nat) : Bool := !((version tag).any fun v => needed ≤ v)

/-! ## Names, numbers and sizes -/

/-- `name-1`, `name-2`, … -/
def numbered (name : Text) (n : Nat) : Text := name ++ '-' :: Text.ofNat n

/-- `hostname`: one of the first `taken.length + 1` numbered names is not taken. -/
def hostname (name : Text) (taken : List Text) (total : Nat) : Text :=
  if total = 1 then name
  else (((List.range (taken.length + 1)).map fun n => numbered name (n + 1)).find? fun c =>
    !taken.contains c).getD []

def validLabel (text : Text) : Bool :=
  1 ≤ text.utf8.length && text.utf8.length ≤ 63 && text.all
    (fun c => Text.isLower c || c.isDigit || c = '-') &&
    text.head? ≠ some '-' && text.getLast? ≠ some '-'

def validDomain (text : Text) : Bool :=
  text.utf8.length ≤ 253 && 2 ≤ (text.splitOn '.').length && (text.splitOn '.').all validLabel

def number (text what : Text) (low high : Nat) : Except Text Nat :=
  match (Text.parseNat (2 ^ 32) (Text.trim text)).filter fun n => low ≤ n ∧ n ≤ high with
  | some n => .ok n
  | none => .error (what ++ " must be a whole number from " ++ Text.ofNat low ++ " to " ++ Text.ofNat high)

def size (text what : Text) (low high : Nat) : Except Text Nat :=
  match (ServiceInstance.parseSize text).filter fun mib => low ≤ mib ∧ mib ≤ high with
  | some mib => .ok mib
  | none => .error (what ++ " is a whole number followed by M or G, from " ++
      ServiceInstance.showSize low ++ " to " ++
      ServiceInstance.showSize high)

def isUpper (c : Char) : Bool := 'A' ≤ c && c ≤ 'Z'

/-- One entry of `environment`. -/
def environmentEntry (entries : Schema3.Environment) (entry : Text) : Except Text Schema3.Environment :=
  match Text.splitOnce "=" entry with
  | none => .error (entry ++ ": an environment entry is KEY=value")
  | some (key, value) =>
    if !(key.head?.any (fun c => isUpper c || c = '_') && key.all fun c =>
      isUpper c || c.isDigit || c = '_') then
      .error (key ++ ": a variable name is A-Z, 0-9 and _")
    else if Schema3.secretName key then
      .error (key ++ " looks like a secret; HomeStack cannot pass secrets to a service yet, and the container " ++
        "configuration is readable in Proxmox")
    else if entries.any (·.1 = key) then .error (key ++ " is given twice")
    else .ok (entries ++ [(key, value)])

def environment (text : Text) : Except Text Schema3.Environment :=
  (Text.words Text.isWhitespace text).foldlM environmentEntry []

/-! ## Application inputs -/

def fromHomestack (input : Schema3.Input) : Bool :=
  input.environmentVariable = some "HOMESTACK_PROMETHEUS_URL".toList

/-- `Input::value` -/
def inputValue (W : World) (input : Schema3.Input) (text : Text) : Except Text (Option Json) :=
  if input.kind = .secret then
    .error (input.id ++ ": protected secret delivery is not available; plain PVE environment is refused")
  else if text = [] then
    match input.default with
    | some value => do
      input.validateValue W.crates value
      .ok (some value)
    | none => if input.required then .error (input.id ++ ": required") else .ok none
  else
    match if input.kind = .integer ∨ input.kind = .number ∨ input.kind = .boolean then W.fromStr text
    else some (.str text) with
    | none => .error (input.id ++ ": invalid typed value")
    | some value => do
      input.validateValue W.crates value
      .ok (some value)

/-- The value of an input that HomeStack supplies. -/
def homestackValue (W : World) (config : DeployConfig) (input : Schema3.Input) : Except Text Json :=
  match config.prometheusUrl with
  | none => .error "Set Prometheus under Settings → Integrations"
  | some url => do
    match ← inputValue W input (url.rdropWhile (· = '/')) with
    | some value => .ok value
    | none => .error "Set Prometheus under Settings → Integrations"

/-- One input of `values` that the operator supplies. -/
def typedValue (W : World) (texts : List (Text × Text)) (values : List (Text × Json))
    (input : Schema3.Input) :
    Except Text (List (Text × Json)) := do
  let text := ((texts.find? (·.1 = input.id)).map Prod.snd).getD []
  match ← inputValue W input text with
  | some value => .ok (Json.insert input.id value values)
  | none => .ok values

def Contract.values (W : World) (c : Contract) (texts : List (Text × Text)) (config : DeployConfig) :
    Except Text (List (Text × Json)) :=
  if texts.any fun e => !c.inputs.any (·.id = e.1) then .error "Unknown application input ID"
  else do
    let values ← (c.inputs.filter (!fromHomestack ·)).foldlM (typedValue W texts) []
    let values ← (c.inputs.filter fromHomestack).foldlM (fun values input => do
      .ok (Json.insert input.id (← homestackValue W config input) values)) values
    let _ ← c.resolve W.crates values
    .ok values

end HomeStack.Deploy

import HomeStack.DeployReads

/-! The plan itself (`deploy::plan`): the checks before the containers are placed, the loop that places
them one after the other, and what is checked afterwards. -/

namespace HomeStack.Deploy

section

variable (W : World) (config : DeployConfig) (source : Source) (cluster : Cluster) (choice : Choice)

/-! ## Before the containers -/

def nameserverOf : Option Text × List Text :=
  let text := Text.trim choice.nameserver
  let configured := config.nameserver.map Ipv4.toText
  if text = [] then (configured, [])
  else
    match Ipv4.parse text with
    | some server => (some server.toText, [])
    | none => (configured, ["DNS server " ++ text ++ " is not an IPv4 address"])

def domainProblems : List Text :=
  if validDomain (Text.trim choice.domain) then []
  else ["Domain " ++ W.debug (Text.trim choice.domain) ++ " is not a DNS domain such as example.com"]

def labelProblems : List Text :=
  if validLabel (Text.trim choice.hostname) then []
  else ["Hostname is a DNS label: a-z, 0-9 and inner -, up to 63 characters"]

/-- An initialization owns its selector. -/
def environmentOf : Schema3.Environment × List Text :=
  match environment choice.environment with
  | .ok entries =>
    (if source.isApi || source.isSite then entries.filter fun e => e.1 ≠ "HOMESTACK_MANAGED_HOME" || e.2 ≠ "1"
    else entries, [])
  | .error e => ([], [e])

/-- The environment with the contract's own, the values of its inputs, and what is wrong with them. -/
def applicationOf (contract : Contract) (given : Schema3.Environment) :
    Schema3.Environment × List (Text × Json) × List Text :=
  match contract.values W choice.application config >>= fun values =>
    do .ok (values, ← contract.resolve W.crates values) with
  | .error e => (given, [], [e])
  | .ok (values, resolved) =>
    if given.any fun e => contract.ownsEnvironment e.1 then
      (given, [], ["Application variables must be edited in Application configuration"])
    else
      match Schema3.validateEnvironment (given ++ resolved) with
      | .ok () => (given ++ resolved, values, [])
      | .error e => (given ++ resolved, values, [e])

def deviceProblems (contract : Contract) : List Text :=
  if contract.devices.isEmpty then []
  else ["New device attachment requires root@pam in Proxmox. The deploy token cannot create device mappings; " ++
    "existing matching mappings are preserved during image updates through the API."]

/-- `require_deploy_token_access`, the inputs and the swap of a contract. -/
def contractOf (given : Schema3.Environment) : Schema3.Environment × List (Text × Json) × Nat × List Text :=
  let swap := (source.manifest.resources.map (·.swapMib)).getD 0
  match source.manifest.schema3 with
  | none => (given, [], swap, [])
  | some contract =>
    let (environment, application, problems) := applicationOf W config choice contract given
    let problems := deviceProblems contract ++ problems
    match number choice.swapMib "Swap (MiB)" 0 1048576 with
    | .ok swap => (environment, application, swap, problems)
    | .error e => (environment, application, swap, problems ++ [e])

def bootstrapOf : Option (InstanceSpec → Except Text Unit) × List Text :=
  if source.isApi then
    match W.bootstrap with
    | .ok validate => (some validate, [])
    | .error e => (none, [e])
  else (none, [])

def resolvedOf : Option Resolved × List Text :=
  if cluster.releases.contains (source.image choice.version) then
    match W.resolve (source.image choice.version) with
    | .ok resolved => (some resolved, [])
    | .error e => (none, [e])
  else (none, ["Choose a published release"])

/-- A problem that is there or not. -/
def problemIf (c : Prop) [Decidable c] (problem : Text) : List Text := if c then [problem] else []

def apiProblems (given : Schema3.Environment) : List Text :=
  if source.isApi then
    problemIf (source.marker.isSome ∧ 1 < choice.placements.length)
      "An API with a home is initialized one instance at a time: tick one node under Nodes" ++
    problemIf (Text.trim choice.domain ≠ config.domain)
      ("The API certificate covers *." ++ config.domain ++ "; use that domain") ++
    problemIf (tooOld choice.version [0, 2, 31, 0])
      "Managed API deployment requires HTTP health and telemetry (API image 0.2.31 or later)" ++
    problemIf config.caFile.isSome
      ("Managed API initialization cannot install a custom PVE CA file; endpoints must use " ++
      "system-trusted certificates") ++
    problemIf (given ≠ []) "API environment is supplied by authenticated bootstrap; leave Environment empty"
  else []

def homeProblems : List Text :=
  problemIf ((source.isApi ∨ source.isSite) ∧
    source.manifest.persistence.any (·.mount ≠ ServiceManifest.defaultMount))
    ("The HomeStack API and Site keep their home at " ++ ServiceManifest.defaultMount)

def siteProblems (given : Schema3.Environment) : List Text :=
  if source.isSite then
    problemIf (1 < choice.placements.length)
      "Deploy one Site connector at a time; each gets its own Site and credential" ++
    problemIf (tooOld choice.version [0, 18, 2, 0])
      "Managed Site deployment requires Site image 0.18.2 or later (HTTP health and telemetry)" ++
    problemIf (given ≠ []) "The Site runtime selector is set by initialization; leave Environment empty" ++
    problemIf W.site.isNone "The verified Pangolin context (Step 5 tunnel, Step 7 key) is not open"
  else []

/-- The plan before its containers. -/
def draft : Plan :=
  let (nameserver, nameserverProblems) := nameserverOf config choice
  let (given, environmentProblems) := environmentOf source choice
  let (environment, application, swap, contractProblems) := contractOf W config source choice given
  let (resolved, releaseProblems) := resolvedOf W source cluster choice
  { application, environment, nameserver, resolved
    image := source.image choice.version
    instances := []
    pulls := []
    bridge := config.bridge
    cidr := config.cidr
    gateway := config.gateway.toText
    templateStorage := config.templateStorage
    pool := config.pool
    domain := Text.trim choice.domain
    swapMib := swap
    problems := nameserverProblems ++ domainProblems W choice ++
      labelProblems choice ++ environmentProblems ++
      contractProblems ++ (bootstrapOf W source).2 ++ source.initializationBlocker.toList ++
        releaseProblems ++
      apiProblems config source choice environment ++ homeProblems source ++
        siteProblems W source choice environment ++
      problemIf (choice.placements = []) "Tick at least one node and storage"
    sites := [] }

/-- Cores, memory, root and home, or everything that is wrong with them. -/
def sizes : Except (List Text) (Nat × Nat × Nat × Nat) :=
  let cores := number choice.cores "Cores" 1 64
  let memory := number choice.memoryMib "Memory (MiB)" 64 1048576
  let root := size choice.rootMib "Container disk" 64 (1024 * 1024)
  let home := if source.manifest.persistence.isSome then size choice.homeMib
    "Home volume" 1 (16384 * 1024) else .ok 0
  match cores, memory, root, home with
  | .ok cores, .ok memory, .ok root, .ok home => .ok (cores, memory, root, home)
  | cores, memory, root, home => .error (errors cores ++ errors memory ++ errors root ++ errors home)
where
  errors : Except Text Nat → List Text
    | .ok _ => []
    | .error e => [e]

/-- The entries as node and storage. -/
def selected : List (Text × Text) := choice.placements.filterMap (Text.splitOnce ":")

/-- One placement per container: schema 3 goes round the selected ones. -/
def placements : List (Text × Text) × List Text :=
  let selected := selected choice
  match source.manifest.schema3 with
  | none => (selected, [])
  | some _ =>
    match number choice.instanceCount "New instance count" 1 64 with
    | .ok count =>
      if selected = [] then (selected, [])
      else ((List.range count).map fun i => selected.getD (i % selected.length) ([], []), [])
    | .error e => (selected, [e])

def nodeProblems : List Text :=
  problemIf (((selected choice).map Prod.fst).dedup.length ≠ (selected choice).length)
    "Tick one storage on each node; a node gets one instance"

/-- The numbers as typed, or picked. -/
def ctidsOf : Except Text (List Text) :=
  let typed := Text.words (fun c => c = ',' || c = ' ') choice.ctids
  if typed = [] then do
    let instances ← ofService (W.pve 0) source.repository source.manifest.id
    let found ← automatic config (W.pve 1) instances (placements source choice).1.length
    .ok (found.map Text.ofNat)
  else .ok typed

def countProblems (ctids : List Text) : List Text :=
  problemIf (ctids.length ≠ (placements source choice).1.length) ("Give one CTID per instance (" ++
    Text.ofNat (placements source choice).1.length ++ " instances, " ++
      Text.ofNat ctids.length ++ " CTIDs given)")

def namesOf : List Text × List Text :=
  match names (W.pve 2) with
  | .ok found => (found, [])
  | .error e => ([], [e])

/-! ## The containers -/

/-- What the loop reads besides the arguments of the plan. -/
structure Terms where
  digest : Text
  total : Nat
  cores : Nat
  memoryMib : Nat
  rootMib : Nat
  homeMib : Nat
  allocated : List (Ipv4 × Nat)

/-- The state of the loop; `used` is what the planned containers take of each storage. -/
structure Progress where
  problems : List Text
  seen : List Nat
  used : Text × Text → Nat
  taken : List Text
  instances : List NewInstance
  sites : List Text

def Progress.report (s : Progress) (problems : List Text) : Progress :=
  { s with problems := s.problems ++ problems }

/-- The address of a number on a node, where nothing speaks against it. -/
def placeable (t : Terms) (node : Text) (ctid : Nat) : Except Text Ipv4 :=
  if !cluster.nodes.contains node then .error (node ++ " is not an online node")
  else
    match address config ctid with
    | none => .error ("CT " ++ Text.ofNat ctid ++ " has no address in " ++ config.gateway.toText ++ "/" ++
        Text.ofNat config.cidr ++
        ": from 1000 the CTID is the address's last two octets (102010 is .102.10)")
    | some ip =>
      if ip = config.gateway then
        .error ("CT " ++ Text.ofNat ctid ++ ": IP " ++ ip.toText ++ " is the gateway; choose another CTID")
      else do
        checkAddress t.allocated ip ctid
        .ok ip

/-- The bytes that a storage has available on a node. -/
def Cluster.available (node storage : Text) : Option Nat :=
  (cluster.storages.find? fun s => s.node = node ∧ s.storage = storage).map (·.available)

/-- The container as chosen. -/
def drafted (t : Terms) (taken : List Text) (node storage : Text) (ctid : Nat) (ip : Ipv4) : NewInstance where
  node := node
  ctid := ctid
  hostname := hostname (Text.trim choice.hostname) taken t.total
  fqdn := []
  address := ip.toText
  cores := t.cores
  memoryMib := t.memoryMib
  rootStorage := storage
  rootMib := t.rootMib
  homeStorage := storage
  homeMib := t.homeMib
  homePath := (source.manifest.persistence.map (·.mount)).getD []
  resume := none

/-- The container as it can be made: its number is free, or what holds it can be resumed. -/
def claimed (pve : Pve) (t : Terms) (i : NewInstance) : NewInstance × List Text :=
  match free pve i.ctid with
  | .ok true => (i, [])
  | .ok false =>
    if source.marker.isSome then
      match resumable pve source (source.image choice.version) t.digest config.pool i with
      | .ok (name, resume) => ({ i with hostname := name, resume := some resume }, [])
      | .error e => (i, [e])
    else (i, ["CT " ++ Text.ofNat i.ctid ++ " is taken"])
  | .error e => (i, [e])

/-- What a container takes of its storage, in bytes; a resumed one has its volumes already. -/
def wanted (i : NewInstance) : Nat := if i.resume.isNone then (i.rootMib + i.homeMib) * 1024 * 1024 else 0

def spaceProblems (used : Text × Text → Nat) (i : NewInstance) (freeBytes : Nat) : List Text :=
  problemIf (i.resume.isNone ∧ freeBytes < used (i.node, i.rootStorage) + wanted i)
    (i.node ++ ": " ++ i.rootStorage ++ " has " ++ Text.ofNat
      (freeBytes / (1024 * 1024 * 1024)) ++ " GiB free")

def bootstrapProblems (i : NewInstance) : List Text :=
  match (bootstrapOf W source).1 with
  | none => []
  | some validate =>
    match i.apiSpec >>= validate with
    | .ok () => []
    | .error e => [e]

def siteName (hostname : Text) (ctid : Nat) : Text :=
  let n := (hostname.splitOn '-').getLastD []
  if '-' ∈ hostname ∧ n ≠ [] ∧ Text.allDigits n then "homestack-" ++ n else "homestack-" ++ Text.ofNat ctid

def homeVolume (mount : Text) : Text := (mount.splitOn ',').headD []

/-- What the reviewer says of the Site, and what it has against it. -/
def reviewed (sites : List Text) (place : Nat) (i : NewInstance) : List Text × List Text :=
  match W.site with
  | none => (sites, [])
  | some review =>
    match review place i.ctid (siteName i.hostname i.ctid) (i.resume.map fun r => homeVolume r.homeMount) with
    | .ok line => (sites ++ [line], [])
    | .error e => (sites, [e])

def numberedProblems (i : NewInstance) : List Text :=
  problemIf (source.manifest.schema3.isSome ∧ !validLabel i.hostname)
    "Numbered instance hostname exceeds DNS label limits; choose a shorter hostname"

/-- A container that has an address and a storage. -/
def enter (t : Terms) (s : Progress) (place : Nat) (node storage : Text) (ctid : Nat) (ip : Ipv4)
    (freeBytes : Nat) : Progress :=
  let (i, claimProblems) := claimed config source choice (W.pve (4 + place)) t
    (drafted source choice t s.taken node storage ctid ip)
  let (sites, reviewProblems) := reviewed W s.sites place i
  { s with
    problems := s.problems ++ (claimProblems ++ spaceProblems s.used i freeBytes ++
      bootstrapProblems W source i ++
      reviewProblems ++ numberedProblems source i)
    used := fun key => if key = (i.node, i.rootStorage) then s.used key + wanted i else s.used key
    taken := i.hostname :: s.taken
    instances := s.instances ++ [{ i with fqdn := i.hostname ++ "." ++ Text.trim choice.domain }]
    sites }

def templateProblems (node : Text) : List Text :=
  problemIf (¬ cluster.templates.contains node)
    (node ++ ": the image storage " ++ config.templateStorage ++ " is not there")

/-- One turn of the loop, at a placement with its number and its place in the order. -/
def step (t : Terms) (s : Progress) (item : ((Text × Text) × Text) × Nat) : Progress :=
  let (((node, storage), typed), place) := item
  match Text.parseNat (2 ^ 32) typed with
  | none => s.report [typed ++ " is not a CTID: a number of the network's addresses, like 102240"]
  | some ctid =>
    if s.seen.contains ctid then s.report ["CT " ++ Text.ofNat ctid ++ " is given twice"]
    else
      let s := { s with seen := ctid :: s.seen }
      match placeable config cluster t node ctid with
      | .error e => s.report [e]
      | .ok ip =>
        let s := s.report (templateProblems config cluster node)
        match cluster.available node storage with
        | none => s.report [node ++ ": " ++ storage ++ " cannot hold containers"]
        | some freeBytes => enter W config source choice t s place node storage ctid ip freeBytes

/-! ## After the containers -/

def Dns.covers (dns : Dns) (fqdn : Text) : Bool := fqdn = dns.zone || ('.' :: dns.zone).isSuffixOf fqdn

/-- The records of one container. -/
def recordProblems (dns : Dns) (i : NewInstance) : List Text :=
  if !dns.covers i.fqdn then [i.fqdn ++ " is outside the local DNS zone " ++ dns.zone]
  else
    match dns.addresses i.fqdn with
    | .ok found =>
      problemIf (found ≠ [] ∧ found ≠ [i.address])
        (i.fqdn ++ " already points to " ++ (", " : Text).intercalate found)
    | .error e => [e]

def dnsProblems (instances : List NewInstance) : List Text :=
  match W.dns with
  | some dns =>
    match dns.check with
    | .error e => [e]
    | .ok () => instances.flatMap (recordProblems dns)
  | none => problemIf source.isApi "Clients reach the API by name: set up Local DNS (TSIG) under Integrations"

/-- `image_file`; empty without a tag. -/
def imageFile (reference : Text) : Text :=
  let parts := reference.splitOn ':'
  let tag := parts.getLastD []
  let path := [':'].intercalate parts.dropLast
  if 1 < parts.length ∧ path ≠ [] ∧ '/' ∉ tag then (path.splitOn '/').getLastD [] ++
    "_" ++ tag ++ ".tar" else []

/-- The volume of the image on the template storage. -/
def imageVolume (p : Plan) : Text :=
  let file := if source.manifest.schema3.isSome then
      (p.resolved.map fun r => ("hs-" : Text) ++ r.platform.map (fun c => if c = ':' then '-'
      else c) ++ ".tar").getD []
    else imageFile p.image
  config.templateStorage ++ ":vztmpl/" ++ file

/-- The nodes the image is pulled on. -/
def pullsOf (pve : Pve) (p : Plan) : List Text :=
  p.instances.foldl (fun pulls i =>
    if pulls.contains i.node then pulls
    else
      match pve ("/nodes/" ++ i.node ++ "/storage/" ++ config.templateStorage ++ "/content")
        [("content", "vztmpl")] with
      | .ok content =>
        if (content.asArray.getD []).any fun item => field item "volid" =
          some (imageVolume config source p) then pulls
        else pulls ++ [i.node]
      | .error _ => pulls ++ [i.node]) []

def Plan.report (p : Plan) (problems : List Text) : Plan := { p with problems := p.problems ++ problems }

/-- The placements with their numbers, in the order of the loop. -/
def items (ctids : List Text) : List (((Text × Text) × Text) × Nat) :=
  ((placements source choice).1.zip ctids).zipIdx

/-- How many instances the service has with the new ones; one alone is not numbered. -/
def totalOf : Nat :=
  if source.manifest.schema3.any (·.alwaysNumbered) then 2
  else choice.existing + (placements source choice).1.length

/-- The plan with its containers. -/
def place (p : Plan) (sizes : Nat × Nat × Nat × Nat) (ctids : List Text) (allocated : List (Ipv4 × Nat)) :
    Plan :=
  let t : Terms := ⟨(p.resolved.map (·.digest)).getD [], totalOf source choice, sizes.1, sizes.2.1,
    sizes.2.2.1, sizes.2.2.2, allocated⟩
  let s := (items source choice ctids).foldl (step W config source cluster choice t)
    ⟨p.problems, [], fun _ => 0, (namesOf W).1, [], []⟩
  let p := { p with
    instances := s.instances, sites := s.sites, problems := s.problems ++ dnsProblems W source s.instances }
  { p with pulls := pullsOf config source (W.pve (4 + (items source choice ctids).length)) p }

def plan : Plan :=
  let p := draft W config source cluster choice
  match sizes source choice with
  | .error problems => p.report problems
  | .ok sizes =>
    let p := p.report (nodeProblems choice ++ (placements source choice).2)
    match ctidsOf W config source choice with
    | .error e => p.report [e]
    | .ok ctids =>
      let p := p.report (countProblems source choice ctids ++ (namesOf W).2)
      match addresses (W.pve 3) with
      | .error e => p.report [e]
      | .ok allocated => place W config source cluster choice p sizes ctids allocated

end

end HomeStack.Deploy

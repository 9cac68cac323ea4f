import HomeStack.Removal
import HomeStack.ServiceEnvironment

/-! Maintenance of deployed service containers (`services/lifecycle.rs`): what the settings say is
reviewed, and the review is what is done: a disk grows, cores, memory and environment change, or the
containers are removed with their homes. -/

namespace HomeStack.ServiceLifecycle

open Deploy (Source isLxc)
open Removal (Ask ask orElse base Reviewed holderId)
open ServiceEnvironment (change mergeEnv)
open ServiceInstance (Instance parseEnv showSize)
open Json (field)

deriving instance DecidableEq for ServiceInstance.Instance

abbrev Op := Removal.Op

abbrev History := Removal.History

/-! ## Reading a container -/

def ct (ctid : Nat) : Text := "CT " ++ Text.ofNat ctid

def fetch (node pool : Text) (id : Nat) : Op Instance := do
  let config ← ask (.get (base node id ++ "/config") [])
  let config ← Prog.ofExcept (orElse (ct id ++ " config") config)
  let current ← ask (.get (base node id ++ "/status/current") [])
  let current ← Prog.ofExcept (orElse (ct id ++ " state") current)
  if field current "status" = .str "running" then
    Prog.ofExcept (ServiceInstance.parse id node pool config true)
  else if field current "status" = .str "stopped" then
    Prog.ofExcept (ServiceInstance.parse id node pool config false)
  else throw (ct id ++ ": power state unavailable")

def held (node pool : Text) (ctid : Nat) : Op (Option Instance) := do
  let found ← Prog.attempt (fetch node pool holderId)
  pure (found.toOption.filter (·.ctid = ctid))

def located (node pool : Text) (ctid : Nat) (present holder : Bool) : Op Instance := do
  if present then
    let t ← fetch node pool ctid
    if t.homeVolume = [] && holder then
      let kept ← held node pool ctid
      pure (kept.getD t)
    else pure t
  else
    match ← (if holder then held node pool ctid else pure none : Op (Option Instance)) with
    | some t => pure t
    | none => throw (ct ctid ++ " does not exist on " ++ node)

/-- `node::container`: its node and its pool. -/
def container (ctid : Nat) : Op (Option (Text × Text)) := do
  let resources ← ask (.get Removal.resourcesPath [("type", "vm")])
  let resources ← Prog.ofExcept (orElse "cluster resources" resources)
  pure (((resources.asArray.getD []).find? fun item => isLxc item && Removal.isVmid ctid item).map fun item =>
    ((field item "node").asStr.getD [], (field item "pool").asStr.getD []))

def read (ctid : Nat) : Op Instance := do
  let found ← container ctid
  let holder ← container holderId
  match found.or holder with
  | none => throw (ct ctid ++ " does not exist")
  | some (node, pool) => located node pool ctid found.isSome (holder.any (·.1 = node))

def readOn (node : Text) (ctid : Nat) : Op Instance := do
  let list ← ask (.get (Removal.containersPath node) [])
  let list ← Prog.ofExcept (orElse (node ++ " containers") list)
  let items := list.asArray.getD []
  located node [] ctid (items.any (Removal.isVmid ctid)) (items.any (Removal.isVmid holderId))

/-! ## The plan -/

/-- The settings as shown and as the operator left them. -/
structure Choice where
  ctids : List Nat
  cores : Text
  memoryMib : Text
  rootMib : Text
  homeMib : Text
  environment : Text
  /-- What the environment setting showed. -/
  shownEnvironment : Text
  /-- The selected containers' names, typed to remove them. -/
  remove : Text

/-- The reviewed changes. -/
structure Plan where
  targets : List Instance := []
  removals : List Reviewed := []
  remove : Bool := false
  cores : Option Nat := none
  memoryMib : Option Nat := none
  rootMib : Option Nat := none
  homeMib : Option Nat := none
  set : List (Text × Text) := []
  unset : List Text := []
  lines : List Text := []
  problems : List Text := []

namespace Plan

def refuse (plan : Plan) (problem : Text) : Plan := { plan with problems := plan.problems ++ [problem] }

def say (plan : Plan) (lines : List Text) : Plan := { plan with lines := plan.lines ++ lines }

def restarts (plan : Plan) : Bool := !plan.remove && (!plan.set.isEmpty || !plan.unset.isEmpty)

end Plan

def size (text what : Text) : Except Text (Option Nat) :=
  if Text.trim text = [] then .ok none
  else
    match (ServiceInstance.parseSize text).filter (· ≤ 16384 * 1024) with
    | some mib => .ok (some mib)
    | none => .error (what ++ " is a whole number followed by M or G, up to 16384G")

/-- Cores, or memory. -/
def limit (text what : Text) (low high : Nat) : Except Text (Option Nat) :=
  if Text.trim text = [] then .ok none
  else
    match (Text.parseNat (2 ^ 32) (Text.trim text)).filter fun n => low ≤ n ∧ n ≤ high with
    | some n => .ok (some n)
    | none => .error (what ++ " is a whole number " ++ Text.ofNat low ++ "–" ++ Text.ofNat high)

def names (targets : List Instance) : Text := List.intercalate " " (targets.map (·.hostname))

/-- One container of the selection. -/
def addTarget (pool repository service : Text) (choice : Choice) (plan : Plan) (ctid : Nat) : Op Plan := do
  if Text.trim choice.remove ≠ [] ∧ choice.ctids.count ctid ≠ 1 then
    pure (plan.refuse (ct ctid ++ " selected more than once"))
  else
    let (plan, target) ← (if Text.trim choice.remove = [] then do
        let target ← Prog.attempt (read ctid)
        pure (plan, target)
      else do
        match ← Prog.attempt (Removal.review pool ctid) with
        | .ok reviewed => pure ({ plan with removals := plan.removals ++ [reviewed] }, .ok reviewed.target)
        | .error e => pure (plan, .error e) : Op (Plan × Except Text Instance))
    match target with
    | .ok target =>
      if target.repository = repository ∧ target.service = service ∧ target.held = false then
        pure { plan with targets := plan.targets ++ [target] }
      else pure (plan.refuse (ct ctid ++ " is not an instance of this service ready for maintenance"))
    | .error e => pure (plan.refuse e)

/-- What becomes of the home. -/
def homeLines (t : Instance) : List Text :=
  if t.homeVolume = [] then ["  Stateless: no persistent home"]
  else ["  Delete home " ++ t.homeVolume ++ " · storage " ++ t.homeStorage ++ " · " ++ showSize t.homeMib,
    "  Home mount: " ++ t.homeMount]

/-- What removing the container deletes. -/
def removalLines (t : Instance) : List Text :=
  [ct t.ctid ++ " " ++ t.hostname ++ " on " ++ t.node ++ " · pool " ++ t.pool ++ " · " ++
    t.address ++ ": remove",
    "  Delete root " ++ t.rootVolume ++ " · storage " ++ t.rootStorage ++ " · " ++ showSize t.rootMib] ++
  homeLines t

/-- The plan of a removal, its targets reviewed. -/
def planRemoval (choice : Choice) (plan : Plan) : Plan :=
  let plan := if Text.trim choice.remove ≠ names plan.targets then
    plan.refuse ("To remove them, type the names of the selected containers: " ++ names plan.targets)
    else plan
  { plan with remove := true }.say (plan.targets.flatMap removalLines)

/-- The sizes, when both are readable. -/
def planSizes (choice : Choice) (plan : Plan) : Plan :=
  match size choice.rootMib "Root", size choice.homeMib "Home" with
  | .ok root, .ok home => { plan with rootMib := root, homeMib := home }
  | .error e, .ok _ => plan.refuse e
  | .ok _, .error e => plan.refuse e
  | .error e, .error e' => (plan.refuse e).refuse e'

def planLimits (choice : Choice) (plan : Plan) : Plan :=
  let plan := match limit choice.cores "Cores" 1 64 with
    | .ok cores => { plan with cores := cores }
    | .error e => plan.refuse e
  match limit choice.memoryMib "Memory (MiB)" 64 1048576 with
  | .ok memory => { plan with memoryMib := memory }
  | .error e => plan.refuse e

def planEnvironment (choice : Choice) (plan : Plan) : Plan :=
  let c := change choice.shownEnvironment choice.environment
  { plan with set := c.set, unset := c.unset, problems := plan.problems ++ c.problems }

def mountPath (option : Text) : Option Text :=
  match (((option.splitOn ',').drop 1).filterMap fun part => ("mp=" : Text).isPrefixOf? part) with
  | [path] => some path
  | _ => none

def limitChange (what unit : Text) (now : Nat) (wanted : Option Nat) : List Text :=
  match wanted.filter (· ≠ now) with
  | some wanted => ["  " ++ what ++ " " ++ Text.ofNat now ++ unit ++ " → " ++ Text.ofNat wanted ++ unit]
  | none => []

/-- The problem with a disk, and its change. -/
def diskChange (t : Instance) (what : Text) (now : Nat) : Option Nat → List Text × List Text
  | none => ([], [])
  | some wanted =>
    if wanted < now then ([ct t.ctid ++ ": " ++ what ++ " is " ++ showSize now ++ "; a disk only grows"], [])
    else if now < wanted then
      ([], ["  " ++ what ++ " " ++ showSize now ++ " → " ++ showSize wanted ++
      ", the filesystem grows online"])
    else ([], [])

def environmentChanges (t : Instance) (set : List (Text × Text)) (unset : List Text) : List Text :=
  let now (key : Text) : Option Text := (t.environment.find? (·.1 = key)).map Prod.snd
  let changes := (set.filterMap fun e => if now e.1 = some e.2 then none else
      some (match now e.1 with
        | some old => "  " ++ e.1 ++ ": " ++ old ++ " → " ++ e.2
        | none => "  " ++ e.1 ++ ": new, " ++ e.2)) ++
    unset.filterMap fun key => if (now key).isSome then some ("  " ++ key ++ ": removed") else none
  if changes ≠ [] && t.running then
    changes ++ [match mountPath t.homeMount with
      | some path => "  restarts to read its environment; " ++ path ++ " is untouched"
      | none => "  restarts to read its environment"]
  else changes

/-- What changes in one container. -/
def addChanges (plan : Plan) (t : Instance) : Plan :=
  let root := diskChange t "Root" t.rootMib plan.rootMib
  let home := diskChange t "Home" t.homeMib plan.homeMib
  let changes := limitChange "Cores" [] t.cores plan.cores ++ limitChange "Memory"
    " MiB" t.memoryMib plan.memoryMib ++ root.2 ++ home.2 ++
    environmentChanges t plan.set plan.unset
  let plan := { plan with problems := plan.problems ++ root.1 ++ home.1 }
  if changes = [] then plan else plan.say ((ct t.ctid ++ " " ++ t.hostname ++ " on " ++ t.node) :: changes)

def plan (pool repository service : Text) (choice : Choice) : Op Plan := do
  let start : Plan := if choice.ctids = [] then Plan.refuse {} "Select at least one instance" else {}
  let plan ← choice.ctids.foldlM (addTarget pool repository service choice) start
  if Text.trim choice.remove ≠ [] then pure (planRemoval choice plan)
  else
    let plan := planEnvironment choice (planLimits choice (planSizes choice plan))
    pure (plan.targets.foldl addChanges plan)

/-! ## Doing it -/

/-- `task`: a configuration change may finish without one. -/
def task (upid : Json) (what : Text) : Op Unit :=
  match upid.asStr with
  | none => pure ()
  | some upid => do
    let result ← ask (.task upid)
    let result ← Prog.ofExcept (orElse what result)
    Prog.ofExcept (Removal.refuse (!result.ok) (what ++ ": " ++ result.exitstatus))

def power (node : Text) (ctid : Nat) (action : Text) : Op Unit := do
  let what := action ++ " " ++ ct ctid
  let upid ← ask (.post (base node ctid ++ "/status/" ++ action))
  let upid ← Prog.ofExcept (orElse what upid)
  Prog.ofExcept (Removal.refuse upid.asStr.isNone (what ++ ": Proxmox gave no task"))
  task upid what

def textOf (config : Json) (key : Text) : Text := (field config key).asStr.getD []

def setEnv (node : Text) (ctid : Nat) (set : List (Text × Text)) (remove : List Text) : Op Unit := do
  let config ← ask (.get (base node ctid ++ "/config") [])
  let config ← Prog.ofExcept (orElse (ct ctid ++ " config") config)
  let answer ← ask (.put (base node ctid ++ "/config")
    [("env", mergeEnv (parseEnv (textOf config "env")) set remove), ("digest", textOf config "digest")])
  let _ ← Prog.ofExcept (orElse (ct ctid ++ " env") answer)
  pure ()

/-- An answer, its error replaced. -/
def orMessage {α : Type} (message : Text) : Except Text α → Except Text α
  | .ok value => .ok value
  | .error _ => .error message

def setApplicationEnvironment (node : Text) (ctid : Nat) (set : List (Text × Text)) (remove : List Text) :
    Op Unit := do
  let config ← ask (.get (base node ctid ++ "/config") [])
  let config ← Prog.ofExcept (orMessage "Cannot read runtime environment" config)
  let merged := mergeEnv (parseEnv (textOf config "env")) set remove
  Prog.ofExcept (Schema3.validateEnvironment (parseEnv merged))
  Prog.ofExcept (Removal.refuse (field config "digest").asStr.isNone "PVE configuration revision is missing")
  let answer ← ask (.put (base node ctid ++ "/config") [("env", merged), ("digest", textOf config "digest")])
  let _ ← Prog.ofExcept (orMessage
      "Cannot apply runtime environment; review the container configuration" answer)
  pure ()

def callSite (call : Removal.SiteCall) (ctid : Nat) : Op Text := do
  let answer ← ask (.site call ctid)
  Prog.ofExcept answer

/-- `ready`; `site` says whether there is the context of a Site. -/
def ready (source : Source) (site : Bool) (ctid : Nat) (address : Text) : Op Text := do
  if source.isSite then
    Prog.ofExcept (Removal.refuse (!site) "Site readiness requires the verified Pangolin context")
    let online ← callSite .ready ctid
    let health ← ask (.healthy address)
    let health ← Prog.ofExcept health
    pure (online ++ "; " ++ health)
  else
    let health ← ask (.healthy address)
    Prog.ofExcept health

/-- A reviewed container of the plan is the one that was selected, and as it was reviewed. -/
def authorise (source : Source) (site : Bool) (x : Instance × Reviewed) : Op Unit := do
  Prog.ofExcept (Removal.refuse (x.1 ≠ x.2.target || x.1.repository ≠ source.repository ||
    x.1.service ≠ source.manifest.id)
    (ct x.1.ctid ++ ": reviewed service identity differs; review removal again"))
  Removal.revalidate x.2 false
  if site && source.isSite then do
    let _ ← callSite .removal x.1.ctid
    pure ()
  else pure ()

def deleteParams : List (Text × Text) := [("purge", "0"), ("destroy-unreferenced-disks", "0")]

/-- Its Site first: a failure leaves the container listed, so removal can be repeated. -/
def removeSite (source : Source) (site : Bool) (x : Instance × Reviewed) : Op Unit :=
  if site && source.isSite then do
    let _ ← callSite .remove x.1.ctid
    Removal.revalidate x.2 false
  else pure ()

def stop (t : Instance) : Op Unit := if t.running then power t.node t.ctid "stop" else pure ()

/-- One container is removed. -/
def removeOne (source : Source) (site : Bool) (lines : List Text) (x : Instance × Reviewed) :
    Op (List Text) := do
  Removal.revalidate x.2 false
  removeSite source site x
  stop x.1
  Removal.revalidate x.2 true
  let upid ← ask (.delete (base x.1.node x.1.ctid) deleteParams)
  let upid ← Prog.ofExcept (orElse ("remove " ++ ct x.1.ctid) upid)
  task upid ("remove " ++ ct x.1.ctid)
  pure (lines ++ [ct x.1.ctid ++ " " ++ x.1.hostname ++ " removed with root " ++ x.1.rootVolume ++
    (if x.1.homeVolume = [] then [] else " and home " ++ x.1.homeVolume : Text)])

/-- A disk grows to the size wanted. -/
def grow (node : Text) (ctid : Nat) (disk : Text) (now : Nat) (wanted : Option Nat) : Op Unit :=
  match wanted.filter (now < ·) with
  | none => pure ()
  | some wanted => do
    let what := "resize " ++ ct ctid ++ " " ++ disk
    let upid ← ask (.put (base node ctid ++ "/resize") [("disk", disk), ("size", showSize wanted)])
    let upid ← Prog.ofExcept (orElse what upid)
    task upid what

/-- Cores and memory that are others. -/
def limitsOf (plan : Plan) (now : Instance) : List (Text × Text) :=
  ((plan.cores.filter (· ≠ now.cores)).map fun n => (("cores" : Text), Text.ofNat n)).toList ++
    ((plan.memoryMib.filter (· ≠ now.memoryMib)).map fun n => (("memory" : Text), Text.ofNat n)).toList

def setLimits (node : Text) (ctid : Nat) (limits : List (Text × Text)) : Op Unit :=
  if limits = [] then pure ()
  else do
    let upid ← ask (.put (base node ctid ++ "/config") limits)
    let upid ← Prog.ofExcept (orElse ("configure " ++ ct ctid) upid)
    task upid ("configure " ++ ct ctid)

def setEnvironment (source : Source) (plan : Plan) (node : Text) (ctid : Nat) : Op Unit :=
  if plan.set = [] ∧ plan.unset = [] then pure ()
  else if source.manifest.schema3.isSome then do
    Prog.ofExcept (Schema3.validateEnvironment plan.set)
    setApplicationEnvironment node ctid plan.set plan.unset
  else setEnv node ctid plan.set plan.unset

/-- A new environment is read at a start. -/
def restart (source : Source) (site : Bool) (t : Instance) (restarted : Bool) : Op Unit :=
  if restarted then do
    power t.node t.ctid "reboot"
    let _ ← ready source site t.ctid t.address
    pure ()
  else pure ()

/-- One container is changed. -/
def editOne (source : Source) (site : Bool) (plan : Plan) (lines : List Text) (t : Instance) :
    Op (List Text) := do
  let now ← readOn t.node t.ctid
  Prog.ofExcept (Removal.refuse (now.mac ≠ t.mac || now.homeVolume ≠ t.homeVolume)
    (ct t.ctid ++ " changed since review; review again"))
  grow t.node t.ctid "rootfs" now.rootMib plan.rootMib
  grow t.node t.ctid "mp0" now.homeMib plan.homeMib
  setLimits t.node t.ctid (limitsOf plan now)
  setEnvironment source plan t.node t.ctid
  let after ← readOn t.node t.ctid
  let restarted : Bool := after.environment ≠ now.environment && now.running
  restart source site t restarted
  pure (lines ++ [ct t.ctid ++ " " ++ t.hostname ++ ": root " ++ showSize after.rootMib ++ ", home " ++
    showSize after.homeMib ++
    (if restarted then ", environment set, restarted, healthy"
      else if after.environment ≠ now.environment then ", environment set" else "" : Text)])

/-- Running containers of a Site are known ones before they restart. -/
def identifySites (source : Source) (plan : Plan) (site : Bool) : Op Unit :=
  if source.isSite && plan.restarts then do
    Prog.ofExcept (Removal.refuse (!site) "Restarting a Site requires the verified Pangolin context")
    (plan.targets.filter (·.running)).forM fun t => do
      let _ ← callSite .identity t.ctid
  else pure ()

/-- The removals: the whole selection is validated before any Site or container changes. -/
def removeAll (source : Source) (plan : Plan) (site : Bool) : Op (List Text) := do
  Prog.ofExcept (Removal.refuse (plan.removals.length ≠ plan.targets.length || plan.targets.isEmpty)
    "Incomplete removal authorization; review removal again")
  (plan.targets.zip plan.removals).forM (authorise source site)
  (plan.targets.zip plan.removals).foldlM (removeOne source site) []

def apply (source : Source) (plan : Plan) (site : Bool) : Op (List Text) := do
  Prog.ofExcept (Removal.refuse (!plan.problems.isEmpty) "Resolve the review problems first")
  Prog.ofExcept (if source.manifest.schema3.isSome then Schema3.validateEnvironment plan.set else .ok ())
  identifySites source plan site
  Prog.ofExcept (Removal.refuse (source.isSite && plan.remove && !site)
    "Removing a Site requires the verified Pangolin context")
  if plan.remove then removeAll source plan site else plan.targets.foldlM (editOne source site plan) []

/-- A review of the settings, and what it says done. -/
def session (pool : Text) (source : Source) (choice : Choice) (site : Bool) : Op (List Text) := do
  let reviewed ← plan pool source.repository source.manifest.id choice
  apply source reviewed site

end HomeStack.ServiceLifecycle

import HomeStack.DeployReads
import HomeStack.Tasks
import HomeStack.WorkspaceDestroy

/-! The review that authorises the removal of a service (`services/removal.rs`): the container, where it
is and every volume it owns, as Proxmox answers it now. -/

namespace HomeStack.Removal

open ServiceInstance (Instance)
open Json (field)

/-! ## Calls -/

/-- The context of a Site (`SiteReady`). -/
inductive SiteCall
  | identity
  | ready
  | removal
  | remove
  deriving DecidableEq

/-- What the maintenance of a service asks for. -/
inductive Ask
  | get (path : Text) (query : List (Text × Text))
  | put (path : Text) (params : List (Text × Text))
  | post (path : Text)
  | delete (path : Text) (params : List (Text × Text))
  /-- The task, waited for. -/
  | task (upid : Text)
  | site (call : SiteCall) (ctid : Nat)
  /-- The health check of the service. -/
  | healthy (address : Text)
  deriving DecidableEq

/-- An answer, or its error as it prints. -/
abbrev Ask.Answer : Ask → Type
  | .get .. => Except Text Json
  | .put .. => Except Text Json
  | .post .. => Except Text Json
  | .delete .. => Except Text Json
  | .task .. => Except Text TaskResult
  | .site .. => Except Text Text
  | .healthy .. => Except Text Text

/-- The question changes nothing. -/
def Ask.reads : Ask → Bool
  | .get .. => true
  | .task .. => true
  | .healthy .. => true
  | .site call _ => call ≠ .remove
  | _ => false

abbrev Op := ExceptT Text (Prog Ask Ask.Answer)

/-- What was asked and answered, newest first. -/
abbrev History := List (Prog.Event Ask Ask.Answer)

abbrev ask (q : Ask) : Op q.Answer := Prog.request q

/-- An answer, its error under a heading. -/
def orElse {α : Type} (what : Text) : Except Text α → Except Text α
  | .ok value => .ok value
  | .error e => .error (what ++ ": " ++ e)

def get (path : Text) (query : List (Text × Text)) : Op Json := do
  let answer ← ask (.get path query)
  Prog.ofExcept (orElse path answer)

def array (value : Json) (what : Text) : Except Text (List Json) :=
  match value.asArray with
  | some items => .ok items
  | none => .error (what ++ ": incomplete inventory")

/-- A field that is a text and not empty. -/
def text (value : Json) (key : Text) : Except Text Text :=
  match (field value key).asStr.filter (· ≠ []) with
  | some t => .ok t
  | none => .error ("Missing or invalid " ++ key)

/-- `cond` is a reason to refuse. -/
def refuse (cond : Bool) (message : Text) : Except Text Unit := if cond then .error message else .ok ()

/-! ## Storage definitions -/

abbrev Values := Std.ExtTreeMap Text Json

/-- One more storage definition, its set-valued fields in order. -/
def addStorage (stores : Values) (entry : Json) : Except Text Values := do
  let id ← text entry "storage"
  if id ∈ stores then .error "Duplicate storage identity"
  else .ok (stores.insert id
    (WorkspaceDestroy.sortField (WorkspaceDestroy.sortField entry "content") "nodes"))

def storageIdentity (value : Json) : Except Text Values := do
  let entries ← array value "Storage configuration"
  entries.foldlM addStorage ∅

/-! ## Where the container is -/

def isVmid (id : Nat) (r : Json) : Bool := (field r "vmid").asU64 = some id

def holderId : Nat := Deploy.holderId

/-- The container in the cluster: its node. -/
def inCluster (ctid : Nat) (pool : Text) (resources : List Json) : Except Text Text := do
  refuse (resources.any fun r => (field r "vmid").asU64.isNone || (field r "type").asStr.isNone)
    "Incomplete cluster guest inventory"
  refuse (resources.any (isVmid holderId)) "Replacement holder present; finish replacement before removal"
  match resources.filter (isVmid ctid) with
  | [found] => do
    refuse (field found "type" ≠ .str "lxc" || (field found "pool").asStr ≠ some pool)
      ("Container is not an LXC in authorized pool " ++ pool)
    text found "node"
  | _ => .error "Container location is missing or ambiguous"

/-- The container is a member of the pool. -/
def inPool (ctid : Nat) (node : Text) (members : List Json) : Except Text Unit := do
  refuse (members.any fun r => (field r "type").asStr.isNone) "Incomplete pool membership inventory"
  match members.filter (isVmid ctid) with
  | [found] =>
    refuse (field found "type" ≠ .str "lxc" || (field found "node").asStr ≠ some node)
      "Pool membership and cluster location disagree"
  | _ => .error "Pool membership and cluster location disagree"

/-- The container is on its node. -/
def onNode (ctid : Nat) (containers : List Json) : Except Text Unit := do
  refuse (containers.any fun r => (field r "vmid").asU64.isNone) "Incomplete node container inventory"
  refuse (containers.any (isVmid holderId))
    "Replacement holder present on node; finish replacement before removal"
  refuse ((containers.filter (isVmid ctid)).length ≠ 1) "Container missing or ambiguous in node inventory"

def resourcesPath : Text := "/cluster/resources"

def poolPath (pool : Text) : Text := "/pools/" ++ pool

def containersPath (node : Text) : Text := "/nodes/" ++ node ++ "/lxc"

def placement (ctid : Nat) (pool : Text) : Op Text := do
  Prog.ofExcept (refuse (pool = [] || ctid = holderId)
    "No authorized service pool or target is a replacement holder")
  let resources ← get resourcesPath [("type", "vm")]
  let resources ← Prog.ofExcept (array resources "Cluster guests")
  let node ← Prog.ofExcept (inCluster ctid pool resources)
  let membership ← get (poolPath pool) []
  let members ← Prog.ofExcept (array (field membership "members") "Pool members")
  Prog.ofExcept (inPool ctid node members)
  let containers ← get (containersPath node) []
  let containers ← Prog.ofExcept (array containers "Node containers")
  Prog.ofExcept (onNode ctid containers)
  pure node

/-! ## The configuration -/

/-- A flag that is there is `0`. -/
def flagSet (cfg : Json) (key : Text) : Bool := (cfg.get key).any fun v => v.asU64 ≠ some 0

def snapshotKeys : List Text := ["hookscript", "parent", "snapstate", "pending", "snapshots"]

/-- What removal does not authorise. -/
def unexpectedKey (key : Text) : Bool :=
  (Text.startsWith "mp" key && key ≠ "mp0") || (Text.startsWith "net" key && key ≠ "net0") ||
    Text.startsWith "unused" key ||
    Text.startsWith "dev" key || snapshotKeys.contains key

def checkKey (key : Text) : Except Text Unit :=
  refuse (unexpectedKey key) ("Unexpected " ++ key ++ "; removal authorizes only rootfs and optional mp0")

/-- The runtime settings that OCI images use. -/
def allowedLxc : List Text :=
  ["lxc.init.uid", "lxc.init.gid", "lxc.init.groups", "lxc.init.cwd", "lxc.signal.halt"]

def customLxc (entry : Json) : Bool :=
  match entry.asArray with
  | some [key, value] => !(key.asStr.any (allowedLxc.contains ·)) || value.asStr.isNone
  | _ => true

def checkLxc (cfg : Json) : Except Text Unit :=
  match cfg.get "lxc" with
  | none => .ok ()
  | some lxc => do
    let entries ← array lxc "LXC configuration"
    refuse (entries.any customLxc) "Custom LXC mounts, devices or hooks require manual review"

def identityLines : List Text := ["HomeStack service ", "repository ", "image ", "digest "]

/-- The lines of a description that begin so. -/
def linesOf (description start : Text) : List Text :=
  (Text.lines description).filter fun l => Text.startsWith start (Text.trim l)

/-- The identity line is there once, and says something. -/
def checkLine (description start : Text) : Except Text Unit :=
  let value := (Text.lines description).findSome? fun l => start.isPrefixOf? (Text.trim l)
  refuse ((linesOf description start).length ≠ 1 || !(value.any fun v => Text.trim v ≠ []))
    ("Missing or ambiguous service metadata: " ++ Text.trim start)

def marker : Text := "made by homestack"

def checkDescription (description : Text) : Except Text Unit := do
  refuse ((Text.lines description).any fun l =>
    Text.startsWith "replacement-" (Text.trim l) || Text.startsWith "HomeStack holder" (Text.trim l))
    "Unresolved replacement metadata; finish replacement before removal"
  identityLines.forM (checkLine description)
  refuse (((Text.lines description).filter fun l => Text.trim l = marker).length ≠ 1)
    "Missing or ambiguous managed ownership marker"

/-- One option of a mount point. -/
def addOption (options : List (Text × Text)) (part : Text) : Except Text (List (Text × Text)) :=
  match Text.splitOnce "=" part with
  | none => .error "Invalid mount options"
  | some (key, value) => if (options.lookup key).isSome then .error "Ambiguous mount options"
    else .ok (options ++ [(key, value)])

/-- A storage volume, not a bind mount. -/
def exactVolume (volume : Text) : Bool :=
  match Text.splitOnce ":" volume with
  | some (storage, id) => storage ≠ [] && id ≠ []
  | none => false

def checkMount (cfg : Json) (key : Text) : Except Text Unit :=
  if key = "mp0" ∧ (cfg.get key).isNone then .ok ()
  else do
    let mount ← text cfg key
    let parts := mount.splitOn ','
    refuse (!exactVolume (parts.headD [])) (key ++ ": expected an exact storage volume ID, not a bind mount")
    let options ← (parts.drop 1).foldlM addOption []
    refuse (key = "mp0" && !((options.lookup "mp".toList).any ServiceManifest.validMount))
      "mp0 is not mounted at a valid persistent home path"

def fieldsOf (cfg : Json) : Except Text (List (Text × Json)) :=
  match cfg.asObject with
  | some fields => .ok fields
  | none => .error "Incomplete container configuration"

def safeConfig (cfg : Json) : Except Text Unit := do
  let fields ← fieldsOf cfg
  let _ ← text cfg "digest"
  let _ ← text cfg "hostname"
  refuse ((cfg.get "lock").isSome || flagSet cfg "protection" || flagSet cfg "template" ||
    (field cfg "unprivileged").asU64 ≠ some 1)
    "Locked, protected, template or privileged container requires manual review"
  (fields.map Prod.fst).forM checkKey
  checkLxc cfg
  let description ← text cfg "description"
  checkDescription description
  ["rootfs".toList, "mp0"].forM (checkMount cfg)
  let net0 ← text cfg "net0"
  refuse (ServiceInstance.extractHwaddr net0).isNone "Network identity has no MAC address"

/-! ## The review -/

def checkPendingEntry (entry : Json) : Except Text Unit := do
  let _ ← text entry "key"
  refuse ((entry.get "pending").isSome || flagSet entry "delete")
    "Pending configuration changes require a fresh review after resolution"

def checkSnapshot (entry : Json) : Except Text Unit := do
  let name ← text entry "name"
  refuse (name ≠ "current") "Snapshots are outside the authorized deletion scope"

/-- The power state, of a container that HA does not manage. -/
def powerState (status : Json) : Except Text Bool := do
  let running ← match (field status "status").asStr with
    | some state =>
      if state = "running" then .ok true
      else if state = "stopped" then .ok false else .error "Power state unavailable"
    | none => .error "Power state unavailable".toList
  let managed := field (field status "ha") "managed"
  refuse (managed.asU64 ≠ some 0 && managed ≠ .bool false)
    "HA-managed or unknown HA state requires manual review"
  .ok running

/-- A store that holds the roots of containers on the node. -/
def holdsRoots (node : Text) (store : Json) (content : Text) : Bool :=
  (content.splitOn ',').contains "rootdir" && (field store "disable").asU64 ≠ some 1 &&
    (field store "nodes").asStr.all fun nodes => (nodes.splitOn ',').contains node

/-- One volume of a store's listing. -/
def addVolume (id : Text) (store : Json) (ctid : Nat) (root home : Text) (volumes : Values) (entry : Json) :
    Except Text Values := do
  let volid ← text entry "volid"
  match (field entry "vmid").asU64 with
  | none => .error "Volume ownership unavailable"
  | some owner =>
    if owner ≠ ctid then
      if volid = root ∨ volid = home then .error ("Reviewed volume " ++ volid ++ " is owned by another guest")
      else .ok volumes
    else if volid ≠ root ∧ volid ≠ home then
      .error ("Unexpected detached volume " ++ volid ++ "; it will not be cleaned up")
    else if Text.startsWith (id ++ ":") volid = false ∨
      volid ∈ volumes then .error ("Ambiguous storage inventory for " ++ volid)
    else
      match entry.asObject with
      | none => .error "Invalid volume attributes"
      | some attributes => do
        let identity := WorkspaceDestroy.volumeIdentityJson store attributes
        let _ ← text identity "format"
        .ok (volumes.insert volid identity)

def contentPath (node id : Text) : Text := "/nodes/" ++ node ++ "/storage/" ++ id ++ "/content"

/-- The volumes of the container on one store. -/
def addStore (node : Text) (ctid : Nat) (root home : Text) (volumes : Values) (store : Json) : Op Values := do
  let id ← Prog.ofExcept (text store "storage")
  let content ← Prog.ofExcept (text store "content")
  if holdsRoots node store content = false then pure volumes
  else do
    let status ← get ("/nodes/" ++ node ++ "/storage/" ++ id ++ "/status") []
    Prog.ofExcept (refuse ((field status "active").asU64 ≠ some 1 || (field status "enabled").asU64 ≠ some 1)
      ("Storage " ++ id ++ " is unavailable; its volume inventory is incomplete"))
    let listing ← get (contentPath node id) [("content", "rootdir")]
    let entries ← Prog.ofExcept (array listing "Storage volumes")
    Prog.ofExcept (entries.foldlM (addVolume id store ctid root home) volumes)

/-- What was reviewed for irreversible deletion. -/
structure Reviewed where
  target : ServiceInstance.Instance
  config : Json
  storage : Values
  volumes : Values

def checkVolume (volumes : Values) (volid : Text) : Except Text Unit :=
  refuse (volid ∉ volumes) ("Exact volume " ++ volid ++ " missing from authoritative ownership inventory")

def base (node : Text) (ctid : Nat) : Text := "/nodes/" ++ node ++ "/lxc/" ++ Text.ofNat ctid

/-- What is read once: the container and its volumes. -/
def inventory (node pool : Text) (ctid : Nat) : Op (Json × Reviewed) := do
  let config ← get (base node ctid ++ "/config") []
  Prog.ofExcept (safeConfig config)
  let pending ← get (base node ctid ++ "/pending") []
  let pending ← Prog.ofExcept (array pending "Pending configuration")
  Prog.ofExcept (pending.forM checkPendingEntry)
  let snapshots ← get (base node ctid ++ "/snapshot") []
  let snapshots ← Prog.ofExcept (array snapshots "Snapshots")
  Prog.ofExcept (snapshots.forM checkSnapshot)
  let status ← get (base node ctid ++ "/status/current") []
  let running ← Prog.ofExcept (powerState status)
  let replication ← get ("/nodes/" ++ node ++ "/replication") [("guest", Text.ofNat ctid)]
  let jobs ← Prog.ofExcept (array replication "Replication jobs")
  Prog.ofExcept (refuse (!jobs.isEmpty) "Replication jobs require manual review; removal will not purge them")
  let target ← Prog.ofExcept (ServiceInstance.parse ctid node pool config running)
  Prog.ofExcept (refuse (target.held || target.rootVolume = target.homeVolume)
    "Holder or ambiguous root/home identity")
  let definitions ← get "/storage" []
  let storage ← Prog.ofExcept (storageIdentity definitions)
  let volumes ← storage.values.foldlM (addStore node ctid target.rootVolume target.homeVolume) ∅
  Prog.ofExcept (([target.rootVolume, target.homeVolume].filter (· ≠ [])).forM (checkVolume volumes))
  pure (status, ⟨target, config, storage, volumes⟩)

/-- Nothing changed while it was read. -/
def unchanged (node pool : Text) (ctid : Nat) (status : Json) (reviewed : Reviewed) : Op Unit := do
  let now ← placement ctid pool
  Prog.ofExcept (refuse (now ≠ node) "Node changed while reading removal inventory")
  let definitions ← get "/storage" []
  let storage ← Prog.ofExcept (storageIdentity definitions)
  Prog.ofExcept (refuse (storage ≠ reviewed.storage)
    "Storage backend configuration changed while reading removal inventory")
  let final ← get (base node ctid ++ "/status/current") []
  Prog.ofExcept (refuse (field final "status" ≠ field status "status" || field final "ha" ≠ field status "ha")
    "Power or HA state changed while reading removal inventory")
  let config ← get (base node ctid ++ "/config") []
  Prog.ofExcept (refuse (config ≠ reviewed.config) "Configuration changed while reading removal inventory")

def read (pool : Text) (ctid : Nat) : Op Reviewed := do
  let node ← placement ctid pool
  let (status, reviewed) ← inventory node pool ctid
  unchanged node pool ctid status reviewed
  pure reviewed

def again (ctid : Nat) (reason : Text) : Text :=
  "CT " ++ Text.ofNat ctid ++ ": " ++ reason ++ "; review removal again"

def review (pool : Text) (ctid : Nat) : Op Reviewed := Prog.mapError (again ctid) (read pool ctid)

/-- The first key whose value is another one. -/
def changedKey (reviewed current : Json) (reviewedKeys currentKeys : List Text) : Option Text :=
  (reviewedKeys ++ currentKeys).find? fun key => field reviewed key ≠ field current key

/-- What keeps a fresh review from being the stored one. -/
def difference (stored current : Reviewed) (stopped : Bool) (reviewedKeys currentKeys : List Text) :
    Option Text :=
  match changedKey stored.config current.config reviewedKeys currentKeys with
  | some key => some ("configuration field " ++ key ++ " changed")
  | none =>
    if current.target.node ≠ stored.target.node then some "node changed"
    else if current.storage ≠ stored.storage then some "storage configuration changed"
    else if current.volumes ≠ stored.volumes then some "volume identity or attributes changed"
    else if current.target.running ≠ (!stopped && stored.target.running) then some "unexpected power state"
    else none

/-- `Reviewed::revalidate`: only our own stop may differ from the review. -/
def revalidate (stored : Reviewed) (stopped : Bool) : Op Unit := do
  let ctid := stored.target.ctid
  let current ← review stored.target.pool ctid
  match stored.config.asObject, current.config.asObject with
  | none, _ => throw "Incomplete reviewed container configuration".toList
  | _, none => throw "Incomplete current container configuration".toList
  | some reviewedFields, some currentFields =>
    match difference stored current stopped (reviewedFields.map Prod.fst) (currentFields.map Prod.fst) with
    | some reason => throw (again ctid reason)
    | none => pure ()

/-! ## Runs -/

open Prog

theorem orElse_ok {α : Type} {what : Text} {x : Except Text α} {a : α} (h : orElse what x = .ok a) :
    x = .ok a := by
  cases x with
  | ok b => exact h
  | error e => cases h

theorem ran_get {path : Text} {query : List (Text × Text)} {v : Json} {h t : History}
    (hr : Ran (get path query) h v t) :
    t = ⟨.get path query, .ok v⟩ :: h := by
  obtain ⟨r, s, hask, hr⟩ := Ran.bind hr
  obtain ⟨hok, rfl⟩ := Ran.ofExcept hr
  rw [Ran.request hask, orElse_ok hok]

theorem refuse_ok {cond : Bool} {message : Text} {u : Unit} (h : refuse cond message = .ok u) :
    cond = false := by
  cases cond with
  | false => rfl
  | true => cases h

theorem text_ok {value : Json} {key t : Text} (h : text value key = .ok t) :
    field value key = .str t ∧ t ≠ [] := by
  unfold text at h
  split at h
  next s hs =>
    cases h
    obtain ⟨hs, hne⟩ := Option.filter_eq_some_iff.mp hs
    refine ⟨?_, by simpa using hne⟩
    cases hf : field value key with
    | str u =>
      rw [hf] at hs
      cases hs
      rfl
    | _ =>
      rw [hf] at hs
      cases hs
  · cases h

theorem array_ok {value : Json} {what : Text} {items : List Json} (h : array value what = .ok items) :
    value = .arr items := by
  unfold array at h
  split at h
  next hitems =>
    cases h
    exact Json.asArray_eq_some hitems
  · cases h

theorem ran_check {α β : Type} {x : Except Text β} {f : β → Op α} {h t : History} {a : α}
    (hr : Ran (Prog.ofExcept x >>= f) h a t) :
    ∃ b, x = .ok b ∧ Ran (f b) h a t := by
  obtain ⟨b, s, hx, hf⟩ := Ran.bind hr
  obtain ⟨hb, hs⟩ := Ran.ofExcept hx
  rw [hs] at hf
  exact ⟨b, hb, hf⟩

theorem ran_array {path what : Text} {query : List (Text × Text)} {α : Type} {f : List Json → Op α}
    {h t : History} {a : α} (hr : Ran (get path query >>= fun v =>
    Prog.ofExcept (array v what) >>= f) h a t) :
    ∃ items, Ran (f items) (⟨.get path query, .ok (.arr items)⟩ :: h) a t := by
  obtain ⟨v, s, hget, hr⟩ := Ran.bind hr
  obtain ⟨items, hitems, hr⟩ := ran_check hr
  rw [ran_get hget, array_ok hitems] at hr
  exact ⟨items, hr⟩

/-! ## Where it is -/

/-- The cluster lists one container of the number: in the pool, on the node, and no holder. -/
structure Located (pool : Text) (ctid : Nat) (node : Text) (resources : List Json) : Prop where
  listed : ∃ found, resources.filter (isVmid ctid) = [found] ∧ field found "type" = .str "lxc" ∧
    (field found "pool").asStr = some pool ∧ field found "node" = .str node
  alone : ∀ r ∈ resources, isVmid holderId r = false

theorem inCluster_ok {ctid : Nat} {pool node : Text} {resources : List Json}
    (h : inCluster ctid pool resources = .ok node) :
    Located pool ctid node resources := by
  unfold inCluster at h
  obtain ⟨_, -, h⟩ := Except.bind_ok h
  obtain ⟨_, hholder, h⟩ := Except.bind_ok h
  have halone := refuse_ok hholder
  split at h
  next found hfound =>
    obtain ⟨_, hplace, h⟩ := Except.bind_ok h
    have hplace := refuse_ok hplace
    simp only [Bool.or_eq_false_iff, decide_eq_false_iff_not, not_not] at hplace
    refine ⟨⟨found, hfound, ?_, ?_, (text_ok h).1⟩, ?_⟩
    · simpa using hplace.1
    · simpa using hplace.2
    · simpa using halone
  · cases h

theorem placement_ran {ctid : Nat} {pool node : Text} {h t : History}
    (hr : Ran (placement ctid pool) h node t) :
    ctid ≠ holderId ∧ ∃ resources new, t = new ++ ⟨.get resourcesPath [("type", "vm")],
      .ok (.arr resources)⟩ :: h ∧
      Located pool ctid node resources := by
  unfold placement at hr
  obtain ⟨_, hguard, hr⟩ := ran_check hr
  obtain ⟨resources, hr⟩ := ran_array hr
  obtain ⟨node', hcluster, hr⟩ := ran_check hr
  obtain ⟨new, hnew⟩ := Ran.grows hr
  have hnode : node' = node := by
    obtain ⟨m, s₁, -, hr⟩ := Ran.bind hr
    obtain ⟨_, s₂, -, hr⟩ := Ran.bind hr
    obtain ⟨_, s₃, -, hr⟩ := Ran.bind hr
    obtain ⟨_, s₄, -, hr⟩ := Ran.bind hr
    obtain ⟨_, s₅, -, hr⟩ := Ran.bind hr
    obtain ⟨_, s₆, -, hr⟩ := Ran.bind hr
    exact (Ran.pure hr).1.symm
  subst hnode
  refine ⟨?_, resources, new, hnew, inCluster_ok hcluster⟩
  have := refuse_ok hguard
  simp only [Bool.or_eq_false_iff, decide_eq_false_iff_not] at this
  exact this.2

/-! ## Its volumes -/

/-- The container owns the entry if and only if it is one of its two volumes. -/
def Accounted (ctid : Nat) (root home : Text) (entry : Json) : Prop :=
  ∀ volid, field entry "volid" = .str volid →
    ((field entry "vmid").asU64 = some ctid ↔ volid = root ∨ volid = home)

theorem addVolume_ok {id root home : Text} {store entry : Json} {ctid : Nat} {volumes volumes' : Values}
    (h : addVolume id store ctid root home volumes entry = .ok volumes') :
      Accounted ctid root home entry := by
  unfold addVolume at h
  obtain ⟨volid, hvolid, h⟩ := Except.bind_ok h
  intro volid' hvolid'
  rw [(text_ok hvolid).1] at hvolid'
  cases hvolid'
  cases howner : (field entry "vmid").asU64 with
  | none =>
    rw [howner] at h
    cases h
  | some owner =>
    rw [howner] at h
    dsimp only at h
    by_cases howned : owner = ctid
    · rw [if_neg (not_not.mpr howned)] at h
      split at h
      · cases h
      next hknown =>
        rw [howned]
        simp only [true_iff]
        by_contra hnone
        rw [not_or] at hnone
        exact hknown hnone
    · rw [if_pos howned] at h
      split at h
      · cases h
      next hother =>
        simp only [Option.some.injEq, howned, false_iff]
        exact hother

/-- A listing of the store of which every entry is accounted for. -/
def Listed (node id : Text) (ctid : Nat) (root home : Text) (asked : History) : Prop :=
  ∃ entries, ⟨.get (contentPath node id) [("content", "rootdir")], .ok (.arr entries)⟩ ∈ asked ∧
    ∀ entry ∈ entries, Accounted ctid root home entry

theorem Listed.mono {node id root home : Text} {ctid : Nat} {asked asked' : History}
    (h : Listed node id ctid root home asked) (hsub : asked ⊆ asked') :
    Listed node id ctid root home asked' := by
  obtain ⟨entries, he, hall⟩ := h
  exact ⟨entries, hsub he, hall⟩

theorem addStore_ran {node root home : Text} {ctid : Nat} {volumes volumes' : Values} {store : Json}
    {h t : History} (hr : Ran (addStore node ctid root home volumes store) h volumes' t) {id content : Text}
    (hid : text store "storage" = .ok id) (hcontent : text store "content" = .ok content)
    (hroots : holdsRoots node store content = true) :
    ∃ new, t = new ++ h ∧ Listed node id ctid root home new := by
  unfold addStore at hr
  obtain ⟨id', hid', hr⟩ := ran_check hr
  cases hid.symm.trans hid'
  obtain ⟨content', hcontent', hr⟩ := ran_check hr
  cases hcontent.symm.trans hcontent'
  rw [hroots, if_neg (by decide)] at hr
  obtain ⟨status, s, hget, hr⟩ := Ran.bind hr
  obtain ⟨_, -, hr⟩ := ran_check hr
  obtain ⟨entries, hr⟩ := ran_array hr
  obtain ⟨hfold, ht⟩ := Ran.ofExcept hr
  rw [ran_get hget] at ht
  refine ⟨[_, _], ht, entries, List.mem_cons_self, ?_⟩
  refine Except.foldlM_ok (I := fun done _ => ∀ entry ∈ done,
    Accounted ctid root home entry) ?_ (fun _ => nofun) hfold
  intro done entry b c ih hstep entry' hm
  rcases List.mem_append.mp hm with hm | hm
  · exact ih entry' hm
  · rw [List.mem_singleton.mp hm]
    exact addVolume_ok hstep

theorem addStores_ran {node root home : Text} {ctid : Nat} {volumes volumes' : Values} {stores : List Json}
    {h t : History} (hr : Ran (stores.foldlM (addStore node ctid root home) volumes) h volumes' t)
    {store : Json} (hm : store ∈ stores) {id content : Text} (hid : text store "storage" = .ok id)
    (hcontent : text store "content" = .ok content) (hroots : holdsRoots node store content = true) :
    ∃ new, t = new ++ h ∧ Listed node id ctid root home new := by
  have hloop := Ran.foldlM (I := fun done (_ : Values) t => ∃ new, t = new ++ h ∧
    (store ∈ done → Listed node id ctid root home new)) ?_ ⟨[], rfl, nofun⟩ hr
  · obtain ⟨new, ht, hl⟩ := hloop
    exact ⟨new, ht, hl hm⟩
  · rintro done store' b s c t' ⟨new, rfl, ih⟩ hstep
    obtain ⟨more, rfl⟩ := hstep.grows
    refine ⟨more ++ new, (List.append_assoc ..).symm, fun hin => ?_⟩
    rcases List.mem_append.mp hin with hin | hin
    · exact (ih hin).mono (List.subset_append_right more new)
    · rw [List.mem_singleton.mp hin] at hid hcontent hroots
      obtain ⟨more', heq, hl⟩ := addStore_ran hstep hid hcontent hroots
      rw [List.append_left_inj] at heq
      exact (heq ▸ hl).mono (List.subset_append_left more new)

/-! ## What a review says -/

/-- What the inventory says of the container, by what Proxmox answered: nothing holds it, and its two
volumes are all it owns where roots can be. -/
structure Inventoried (pool : Text) (ctid : Nat) (r : Reviewed) (asked : History) : Prop where
  target : r.target.ctid = ctid ∧ r.target.pool = pool ∧ r.target.held = false
  configured : ⟨.get (base r.target.node ctid ++ "/config") [], .ok r.config⟩ ∈ asked
  unlocked : r.config.get "lock" = none ∧ flagSet r.config "protection" = false ∧
    flagSet r.config "template" = false ∧
    (field r.config "unprivileged").asU64 = some 1
  keys : ∀ fields, r.config.asObject = some fields → ∀ e ∈ fields, unexpectedKey e.1 = false
  snapshots : ∃ snapshots, ⟨.get (base r.target.node ctid ++ "/snapshot") [], .ok (.arr snapshots)⟩ ∈ asked ∧
    ∀ s ∈ snapshots, field s "name" = .str "current"
  stores : ∃ definitions, ⟨.get "/storage" [], .ok definitions⟩ ∈ asked ∧
    storageIdentity definitions = .ok r.storage
  listed : ∀ store ∈ r.storage.values, ∀ id content, text store "storage" = .ok id →
    text store "content" = .ok content →
    holdsRoots r.target.node store content = true →
      Listed r.target.node id ctid r.target.rootVolume r.target.homeVolume asked
  volumes : ∀ volid ∈ [r.target.rootVolume, r.target.homeVolume], volid ≠ [] → volid ∈ r.volumes

/-- What a review says: it is inventoried, and the only container of the number, in the pool and on the
node. -/
structure Authorised (pool : Text) (ctid : Nat) (r : Reviewed) (asked : History) :
    Prop extends Inventoried pool ctid r asked where
  notHolder : ctid ≠ holderId
  located : ∃ resources, ⟨.get resourcesPath [("type", "vm")], .ok (.arr resources)⟩ ∈ asked ∧
    Located pool ctid r.target.node resources

theorem Inventoried.mono {pool : Text} {ctid : Nat} {r : Reviewed} {asked asked' : History}
    (h : Inventoried pool ctid r asked) (hsub : asked ⊆ asked') : Inventoried pool ctid r asked' where
  target := h.target
  configured := hsub h.configured
  unlocked := h.unlocked
  keys := h.keys
  snapshots := h.snapshots.imp fun _ hs => ⟨hsub hs.1, hs.2⟩
  stores := h.stores.imp fun _ hs => ⟨hsub hs.1, hs.2⟩
  listed store hs id content hid hcontent hroots :=
    (h.listed store hs id content hid hcontent hroots).mono hsub
  volumes := h.volumes

theorem parse_target {ctid : Nat} {node pool : Text} {config : Json} {running : Bool} {t : Instance}
    (h : ServiceInstance.parse ctid node pool config running = .ok t) (hheld : t.held = false) :
    t.ctid = ctid ∧ t.node = node ∧ t.running = running ∧ t.pool = pool := by
  unfold ServiceInstance.parse at h
  split at h
  · cases h
  · split at h
    · cases h
    next service _ =>
      obtain ⟨devices, -, h⟩ := Except.bind_ok h
      obtain ⟨t', hsettled, h⟩ := Except.bind_ok h
      cases h
      unfold ServiceInstance.settled at hsettled
      split at hsettled
      next hshown =>
        obtain ⟨-, -, -, -, -, hsame, -⟩ := ServiceInstance.readNote_ok hsettled
        rw [hshown] at hsame
        cases hsame.symm.trans hheld
      · cases hsettled
        exact ⟨rfl, rfl, rfl, rfl⟩

theorem safeConfig_ok {cfg : Json} {u : Unit} (h : safeConfig cfg = .ok u) :
    (cfg.get "lock" = none ∧ flagSet cfg "protection" = false ∧ flagSet cfg "template" = false ∧
      (field cfg "unprivileged").asU64 = some 1) ∧ ∀ fields, cfg.asObject = some fields →
        ∀ e ∈ fields, unexpectedKey e.1 = false := by
  unfold safeConfig at h
  obtain ⟨fields, hfields, h⟩ := Except.bind_ok h
  obtain ⟨_, -, h⟩ := Except.bind_ok h
  obtain ⟨_, -, h⟩ := Except.bind_ok h
  obtain ⟨_, hlock, h⟩ := Except.bind_ok h
  obtain ⟨_, hkeys, -⟩ := Except.bind_ok h
  have hlock := refuse_ok hlock
  simp only [Bool.or_eq_false_iff, decide_eq_false_iff_not, not_not, Option.isSome_eq_false_iff,
    Option.isNone_iff_eq_none] at hlock
  refine ⟨⟨hlock.1.1.1, hlock.1.1.2, hlock.1.2, hlock.2⟩, fun fields' hfields' e he => ?_⟩
  rw [fieldsOf, hfields'] at hfields
  cases hfields
  exact refuse_ok (Except.forM_ok hkeys e.1 (List.mem_map_of_mem he))

theorem checkSnapshot_ok {entry : Json} {u : Unit} (h : checkSnapshot entry = .ok u) :
    field entry "name" = .str "current" := by
  unfold checkSnapshot at h
  obtain ⟨name, hname, h⟩ := Except.bind_ok h
  rw [(text_ok hname).1, Decidable.not_not.1 (of_decide_eq_false (refuse_ok h))]

theorem inventory_ran {node pool : Text} {ctid : Nat} {status : Json} {r : Reviewed} {h t : History}
    (hr : Ran (inventory node pool ctid) h (status, r) t) :
    ∃ asked, t = asked ++ h ∧ r.target.node = node ∧ Inventoried pool ctid r asked := by
  unfold inventory at hr
  obtain ⟨config, s₁, hconfig, hr⟩ := Ran.bind hr
  rw [ran_get hconfig] at hr
  obtain ⟨_, hsafe, hr⟩ := ran_check hr
  obtain ⟨pending, hr⟩ := ran_array hr
  obtain ⟨_, -, hr⟩ := ran_check hr
  obtain ⟨snapshots, hr⟩ := ran_array hr
  obtain ⟨_, hsnapshots, hr⟩ := ran_check hr
  obtain ⟨status', s₂, hstatus, hr⟩ := Ran.bind hr
  rw [ran_get hstatus] at hr
  obtain ⟨running, -, hr⟩ := ran_check hr
  obtain ⟨jobs, hr⟩ := ran_array hr
  obtain ⟨_, -, hr⟩ := ran_check hr
  obtain ⟨target, htarget, hr⟩ := ran_check hr
  obtain ⟨_, hheld, hr⟩ := ran_check hr
  obtain ⟨definitions, s₃, hdefinitions, hr⟩ := Ran.bind hr
  rw [ran_get hdefinitions] at hr
  obtain ⟨storage, hstorage, hr⟩ := ran_check hr
  obtain ⟨volumes, s₄, hvolumes, hr⟩ := Ran.bind hr
  obtain ⟨_, hpresent, hr⟩ := ran_check hr
  obtain ⟨hresult, rfl⟩ := Ran.pure hr
  cases hresult
  have hheld := refuse_ok hheld
  rw [Bool.or_eq_false_iff] at hheld
  obtain ⟨hctid, hnode, -, hpool⟩ := parse_target htarget hheld.1
  obtain ⟨new, hnew⟩ := hvolumes.grows
  have hcons (a b c d e f : Prog.Event Ask Ask.Answer) : new ++ a :: b :: c :: d :: e :: f :: h = new ++
      [a, b, c, d, e, f] ++ h := by
    simp
  subst hnode
  refine ⟨_, hnew.trans (hcons ..), rfl, ?_⟩
  exact {
    target := ⟨hctid, hpool, hheld.1⟩
    configured := List.mem_append_right _ (by simp)
    unlocked := (safeConfig_ok hsafe).1
    keys := (safeConfig_ok hsafe).2
    snapshots := ⟨snapshots, List.mem_append_right _ (by simp),
      fun s hs => checkSnapshot_ok (Except.forM_ok hsnapshots s hs)⟩
    stores := ⟨definitions, List.mem_append_right _ (by simp), hstorage⟩
    listed := fun store hs id content hid hcontent hroots => by
      obtain ⟨new', heq, hl⟩ := addStores_ran hvolumes hs hid hcontent hroots
      rw [hnew, List.append_left_inj] at heq
      exact (heq ▸ hl).mono (List.subset_append_left new _)
    volumes := fun volid hm hne => by
      have := refuse_ok (Except.forM_ok hpresent volid (List.mem_filter.mpr ⟨hm, by simpa using hne⟩))
      simpa using this }

theorem read_ran {pool : Text} {ctid : Nat} {r : Reviewed} {h t : History} (hr : Ran (read pool ctid) h r t) :
    ∃ asked, t = asked ++ h ∧ Authorised pool ctid r asked := by
  unfold read at hr
  obtain ⟨node, s₁, hplace, hr⟩ := Ran.bind hr
  obtain ⟨⟨status, r'⟩, s₂, hinventory, hr⟩ := Ran.bind hr
  obtain ⟨_, s₃, hunchanged, hr⟩ := Ran.bind hr
  obtain ⟨rfl, rfl⟩ := Ran.pure hr
  obtain ⟨hholder, resources, placed, hs₁, hlocated⟩ := placement_ran hplace
  obtain ⟨asked, hs₂, hnode, hinventoried⟩ := inventory_ran hinventory
  obtain ⟨more, hs₃⟩ := hunchanged.grows
  refine ⟨more ++ (asked ++ (placed ++ [⟨.get resourcesPath [("type", "vm")], .ok (.arr resources)⟩])),
    by rw [hs₃, hs₂, hs₁]; simp,
    hinventoried.mono ?_, hholder, resources, ?_, hnode ▸ hlocated⟩
  · exact fun e he => List.mem_append_right _ (List.mem_append_left _ he)
  · simp

/-- A review that succeeds. -/
theorem review_ran {pool : Text} {ctid : Nat} {r : Reviewed} {h t : History}
    (hr : Ran (review pool ctid) h r t) :
    ∃ asked, t = asked ++ h ∧ Authorised pool ctid r asked := read_ran hr.mapError

/-! ## A second review -/

/-- The fresh review is the stored one, but for the container's own stop. -/
structure Agree (stored current : Reviewed) (stopped : Bool) : Prop where
  config : ∀ key, field current.config key = field stored.config key
  node : current.target.node = stored.target.node
  storage : current.storage = stored.storage
  volumes : current.volumes = stored.volumes
  running : current.target.running = (!stopped && stored.target.running)

abbrev Reads {α : Type} (p : Op α) : Prop := p.run.Asks fun q => q.reads = true

theorem reads_get (path : Text) (query : List (Text × Text)) : Reads (get path query) :=
  asks_bind (asks_request rfl) fun _ => asks_ofExcept

theorem reads_array {α : Type} (path what : Text) (query : List (Text × Text)) {f : List Json → Op α}
    (hf : ∀ items, Reads (f items)) :
    Reads (get path query >>= fun v => Prog.ofExcept (array v what) >>= f) :=
  asks_bind (reads_get _ _) fun _ => asks_bind asks_ofExcept hf

theorem reads_placement (ctid : Nat) (pool : Text) : Reads (placement ctid pool) := by
  refine asks_bind asks_ofExcept fun _ => reads_array _ _ _ fun resources =>
    asks_bind asks_ofExcept fun node => ?_
  refine asks_bind (reads_get _ _) fun membership => asks_bind asks_ofExcept fun members =>
    asks_bind asks_ofExcept fun _ => ?_
  exact reads_array _ _ _ fun containers => asks_bind asks_ofExcept fun _ => trivial

theorem reads_addStore (node : Text) (ctid : Nat) (root home : Text) (volumes : Values) (store : Json) :
    Reads (addStore node ctid root home volumes store) := by
  refine asks_bind asks_ofExcept fun id => asks_bind asks_ofExcept fun content => ?_
  split
  · trivial
  · exact asks_bind (reads_get _ _) fun _ => asks_bind asks_ofExcept fun _ =>
      reads_array _ _ _ fun _ => asks_ofExcept

theorem reads_inventory (node pool : Text) (ctid : Nat) : Reads (inventory node pool ctid) := by
  refine asks_bind (reads_get _ _) fun config => asks_bind asks_ofExcept fun _ => ?_
  refine reads_array _ _ _ fun pending => asks_bind asks_ofExcept fun _ => ?_
  refine reads_array _ _ _ fun snapshots => asks_bind asks_ofExcept fun _ => ?_
  refine asks_bind (reads_get _ _) fun status => asks_bind asks_ofExcept fun running => ?_
  refine reads_array _ _ _ fun jobs => asks_bind asks_ofExcept fun _ =>
    asks_bind asks_ofExcept fun target => ?_
  refine asks_bind asks_ofExcept fun _ => asks_bind (reads_get _ _) fun definitions =>
    asks_bind asks_ofExcept fun storage => ?_
  exact asks_bind (asks_foldlM (reads_addStore node ctid _ _) _ _) fun volumes =>
    asks_bind asks_ofExcept fun _ => trivial

theorem reads_unchanged (node pool : Text) (ctid : Nat) (status : Json) (reviewed : Reviewed) :
    Reads (unchanged node pool ctid status reviewed) := by
  refine asks_bind (reads_placement _ _) fun _ => asks_bind asks_ofExcept fun _ => ?_
  refine asks_bind (reads_get _ _) fun _ => asks_bind asks_ofExcept fun _ =>
    asks_bind asks_ofExcept fun _ => ?_
  exact asks_bind (reads_get _ _) fun _ => asks_bind asks_ofExcept fun _ =>
    asks_bind (reads_get _ _) fun _ => asks_ofExcept

theorem reads_review (pool : Text) (ctid : Nat) : Reads (review pool ctid) :=
  asks_mapError (asks_bind (reads_placement _ _) fun node =>
    asks_bind (reads_inventory node pool ctid) fun _ =>
    asks_bind (reads_unchanged _ _ _ _ _) fun _ => trivial)

end HomeStack.Removal

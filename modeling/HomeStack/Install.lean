import HomeStack.Inventory
import HomeStack.Lib.Grouping
import HomeStack.Lib.Text

/-! The plan of an install or uninstall (`hs-install/src/plan.rs`): the roles,
pools, tokens, ACL entries and vendor snippets HomeStack owns, and the steps from
what the cluster has to what it should have.

Sets of ACL entries are lists used by membership; where the source iterates a
`BTreeSet` the list is sorted. The commands of `pveum` are structured, with their
arguments as the source writes them. -/

namespace HomeStack.Install

/-! ## What the installer reads -/

def hsUser : Text := "homestack@pve"

def poolWorkspaces : Text := "homestack"

def poolTest : Text := "homestack-test"

def poolGold : Text := "homestack-gold"

def poolService : Text := "homestack-service"

/-- The pool Gold of the part is in. -/
def goldPool (test : Bool) : Text := if test then poolTest else poolGold

def deployToken : Text := "deploy"

inductive VmKind
  | qemu | lxc
  deriving DecidableEq, Repr

structure Vm where
  name : Text
  status : Text
  node : Text
  kind : VmKind
  tags : List Text
  pool : Text
  template : Bool
  deriving DecidableEq

/-- Who an ACL entry is for: its type and `ugid`. -/
inductive Principal
  | user (name : Text)
  | token (owner id : Text)
  | group (name : Text)
  deriving DecidableEq

namespace Principal

def kind : Principal → Text
  | .user _ => "user"
  | .token _ _ => "token"
  | .group _ => "group"

def text : Principal → Text
  | .user name => name
  | .token owner id => owner ++ "!" ++ id
  | .group name => name

/-- `--tokens` or `--users` -/
def flag : Principal → Text
  | .token _ _ => "--tokens"
  | _ => "--users"

def isUser : Principal → Bool
  | .user _ => true
  | _ => false

/-- HomeStack's user, or one of its tokens. No group has an `@` in its name. -/
def managed : Principal → Bool
  | .user name => name = hsUser
  | .token owner _ => owner = hsUser
  | .group _ => false

end Principal

/-- One ACL entry. -/
structure Acl where
  path : Text
  who : Principal
  role : Text
  deriving DecidableEq

namespace Acl

def managed (entry : Acl) : Bool := entry.who.managed

/-- The fields in the order of comparison. -/
def fields (entry : Acl) : List Text := [entry.path, entry.who.kind, entry.who.text, entry.role]

end Acl

/-- A `BTreeSet` as it is iterated. -/
def sortedSet (entries : List Acl) : List Acl := entries.dedup.insertionSort fun a b => a.fields ≤ b.fields

structure State where
  vms : List (Nat × Vm)
  /-- The privileges of each role, sorted. -/
  roles : Text → Option (List Text)
  acl : List Acl
  /-- Entries that do not propagate. -/
  nonpropagating : List Acl
  userExists : Bool
  /-- Tokens of the user and whether their privileges are separated. -/
  tokens : Text → Option Bool
  /-- Members of the HomeStack pools that exist. -/
  pools : Text → Option (List Nat)

def State.vm (state : State) (vmid : Nat) : Option Vm := state.vms.lookup vmid

def State.managedAcl (state : State) : List Acl := state.acl.filter Acl.managed

structure Settings where
  test : Bool
  storages : List Text
  snippetStorage : Option Text
  serviceStorages : List Text
  templateStorage : Option Text
  bridge : Option Text
  gold : Option Nat
  adopt : List Nat
  tokenDir : Text

/-! ## Roles -/

/-- The words of a comma-separated list, as a sorted set. -/
def privs (text : Text) : List Text :=
  (((text.splitOn ',').map Text.trim).filter (· ≠ [])).dedup.insertionSort (· ≤ ·)

/-- The roles HomeStack owns and their privileges. -/
def ownedRoles : List (Text × Text) := [
  ("HomeStack",
    "Pool.Audit,VM.Allocate,VM.Audit,VM.Config.Cloudinit,VM.Config.Disk,VM.Config.Options,VM.GuestAgent.Audit,VM.GuestAgent.FileRead,VM.GuestAgent.Unrestricted,VM.Migrate,VM.PowerMgmt"),
  ("HomeStackGold",
    "Pool.Audit,VM.Audit,VM.Clone,VM.Config.Options,VM.GuestAgent.Audit,VM.GuestAgent.FileRead,VM.GuestAgent.Unrestricted,VM.PowerMgmt"),
  ("HomeStackCluster", "Sys.Audit"),
  ("HomeStackStorage", "Datastore.AllocateSpace,Datastore.Audit"),
  ("HomeStackDeploy",
    "Pool.Audit,VM.Allocate,VM.Audit,VM.Config.CPU,VM.Config.Disk,VM.Config.Memory,VM.Config.Network,VM.Config.Options,VM.Console,VM.Migrate,VM.PowerMgmt"),
  ("HomeStackDeployNodes", "Sys.AccessNetwork"),
  ("HomeStackDeployTemplates",
    "Datastore.Allocate,Datastore.AllocateSpace,Datastore.AllocateTemplate,Datastore.Audit")]

/-- Roles made by hand before the installer; removed once unused. -/
def legacyRoles : List Text :=
  ["HomeStackServerDisks", "HomeStackServerGoldGuest", "HomeStackTest",
    "HomeStackTestGold", "HomeStackTestStorage"]

/-! ## Steps -/

/-- A `pveum` command. -/
inductive Pveum
  | userAdd
  | userDelete
  | roleAdd (role privs : Text)
  | roleModify (role privs : Text)
  | roleDelete (role : Text)
  | poolAdd (pool comment : Text)
  | poolPut (pool : Text) (vmid : Nat)
  | poolTake (pool : Text) (vmid : Nat)
  | poolDelete (pool : Text)
  | tokenSeparate (id : Text)
  | tokenDelete (id : Text)
  | aclModify (path : Text) (who : Principal) (roles : List Text)
  | aclDelete (path : Text) (who : Principal) (roles : List Text)
  deriving DecidableEq

/-- The arguments of the command. -/
def Pveum.args : Pveum → List Text
  | .userAdd => ["user", "add", hsUser, "--comment", "HomeStack server"]
  | .userDelete => ["user", "delete", hsUser]
  | .roleAdd role privs => ["role", "add", role, "--privs", privs]
  | .roleModify role privs => ["role", "modify", role, "--privs", privs]
  | .roleDelete role => ["role", "delete", role]
  | .poolAdd pool comment => ["pool", "add", pool, "--comment", comment]
  | .poolPut pool vmid => ["pool", "modify", pool, "--vms", Text.ofNat vmid]
  | .poolTake pool vmid => ["pool", "modify", pool, "--vms", Text.ofNat vmid, "--delete", "1"]
  | .poolDelete pool => ["pool", "delete", pool]
  | .tokenSeparate id => ["user", "token", "modify", hsUser, id, "--privsep", "1"]
  | .tokenDelete id => ["user", "token", "delete", hsUser, id]
  | .aclModify path who roles =>
    ["acl", "modify", path, who.flag, who.text, "--roles", List.intercalate ",".toList roles,
      "--propagate", "1"]
  | .aclDelete path who roles =>
    ["acl", "delete", path, who.flag, who.text, "--roles", List.intercalate ",".toList roles]

/-- What one step does. -/
inductive Action
  | pveum (command : Pveum)
  /-- `pvesh set` of a VM's tags. -/
  | setTags (node : Text) (vmid : Nat) (tags : List Text)
  /-- A new token; its secret goes to `file`, a file left there to `replaced`. -/
  | createToken (token comment file : Text) (replaced : Option Text)
  | writeSnippet (node name path : Text)
  | removeSnippet (node name path : Text)
  deriving DecidableEq

structure Step where
  description : Text
  action : Action
  deriving DecidableEq

def pveum (description : Text) (command : Pveum) : Step := ⟨description, .pveum command⟩

/-! ## The ACL -/

def aclToken (path token role : Text) : Acl := ⟨path, .token hsUser token, role⟩

def tokenTargetAcl (settings : Settings) (token sdnPath : Text) : List Acl :=
  let pools : List (Text × Text) :=
    if settings.test then [(poolTest, "HomeStack"), (poolTest, "HomeStackGold")]
    else [(poolWorkspaces, "HomeStack"), (poolGold, "HomeStackGold"), (poolTest, "HomeStack"),
      (poolTest, "HomeStackGold"), (poolService, "HomeStackDeploy")]
  [aclToken "/" token "HomeStackCluster"] ++
    (["/nodes", "/storage", "/sdn"].map fun path : String => aclToken path token "PVEAuditor") ++
    (pools.map fun (pool, role) => aclToken ("/pool/" ++ pool) token role) ++
    ((settings.storages ++ settings.snippetStorage.toList).map fun id =>
      aclToken ("/storage/" ++ id) token "HomeStackStorage") ++
    [aclToken sdnPath token "PVESDNUser"]

def deployTargetAcl (settings : Settings) (sdnPath : Text) : List Acl :=
  let template := settings.templateStorage.getD []
  (["/nodes", "/storage", "/sdn"].map fun path : String => aclToken path deployToken "PVEAuditor") ++
    [aclToken "/nodes" deployToken "HomeStackDeployNodes"] ++
    ([poolService, poolTest].map fun pool => aclToken ("/pool/" ++ pool) deployToken "HomeStackDeploy") ++
    [aclToken ("/storage/" ++ template) deployToken "HomeStackDeployTemplates"] ++
    ((settings.serviceStorages.filter (· ≠ template)).map fun id =>
      aclToken ("/storage/" ++ id) deployToken "HomeStackStorage") ++
    [aclToken sdnPath deployToken "PVESDNUser"]

def parent (path : Text) : Text :=
  match path.reverse.dropWhile (· ≠ '/') with
  | [] => "/"
  | ['/'] => "/"
  | _ :: rest => rest.reverse

/-- The paths `parent` leads to, read from the end of the text. -/
def above : Text → List Text
  | [] => ["/"]
  | c :: rest =>
    if c = '/' then
      if rest = [] ∨ rest = ['/'] then ["/"] else rest.reverse :: above rest
    else above rest

/-- A path and the paths above it, up to `/`. -/
def ancestry (path : Text) : List Text := if path = "/" then ["/"] else path :: above path.reverse

/-- The roles on the nearest path upwards with an entry. -/
def nearest (entries : List Acl) (who : Principal) (path : Text) : List Text :=
  match (ancestry path).find? fun up => entries.any fun e => e.who = who && e.path = up with
  | none => []
  | some up => (entries.filter fun e => e.who = who && e.path = up).map Acl.role

theorem above_reverse (r : Text) : above r = ancestry (parent r.reverse) := by
  induction r with
  | nil => rfl
  | cons c rest ih =>
    by_cases hc : c = '/'
    · subst hc
      cases rest with
      | nil => rfl
      | cons d rest =>
        have hparent : parent ('/' :: d :: rest : Text).reverse = (d :: rest : Text).reverse := by
          unfold parent
          rw [List.reverse_reverse]
          rfl
        rw [hparent]
        unfold ancestry
        rw [List.reverse_reverse]
        by_cases hd : (d :: rest : Text) = ['/']
        · rw [hd]
          rfl
        · have hne : (d :: rest : Text).reverse ≠ ("/" : Text) := fun h => hd (List.reverse_eq_iff.mp h)
          rw [if_neg hne]
          show (if '/' = '/' then _ else _) = _
          rw [if_pos rfl, if_neg (by simpa using hd)]
    · have hparent : parent (c :: rest : Text).reverse = parent rest.reverse := by
        unfold parent
        rw [List.reverse_reverse, List.reverse_reverse, List.dropWhile_cons, if_pos (by simpa using hc)]
      rw [hparent, ← ih]
      show (if c = '/' then _ else _) = _
      rw [if_neg hc]

/-- The source's loop: the path itself, then on from its parent. -/
theorem ancestry_parent {path : Text} (h : path ≠ ("/" : Text)) :
    ancestry path = path :: ancestry (parent path) := by
  have habove := above_reverse path.reverse
  rw [List.reverse_reverse] at habove
  rw [← habove]
  unfold ancestry
  rw [if_neg h]

theorem ancestry_cons (path : Text) : ∃ rest, ancestry path = path :: rest := by
  by_cases h : path = ("/" : Text)
  · exact ⟨[], by rw [h]; rfl⟩
  · exact ⟨_, ancestry_parent h⟩

theorem mem_nearest_of_mem {entries : List Acl} {e : Acl} (h : e ∈ entries) :
    e.role ∈ nearest entries e.who e.path := by
  have hfind : (ancestry e.path).find? (fun up => entries.any fun f => f.who = e.who && f.path = up) =
      some e.path := by
    have hany : (entries.any fun f => f.who = e.who && f.path = e.path) = true :=
      List.any_eq_true.mpr ⟨e, h, by simp⟩
    obtain ⟨rest, hrest⟩ := ancestry_cons e.path
    rw [hrest]
    exact List.find?_cons_of_pos (p := fun up => entries.any fun f => f.who = e.who && f.path = up) hany
  unfold nearest
  rw [hfind]
  exact List.mem_map.mpr ⟨e, List.mem_filter.mpr ⟨h, by simp⟩, rfl⟩

/-- The user's entries for the token entries: on every path a token has an entry
on, what each token resolves to there. -/
def userAcl (tokens : List Acl) : List Acl :=
  (tokens.map Acl.path).flatMap fun path => (tokens.map Acl.who).flatMap fun token =>
    (nearest tokens token path).map fun role => ⟨path, .user hsUser, role⟩

inductive Command
  | install | uninstall
  deriving DecidableEq, Repr

/-- An entry of a token outside the scope. -/
def otherToken (scope : List Text) (entry : Acl) : Bool :=
  match entry.who with
  | .token _ id => id ∉ scope
  | _ => false

/-- The entries of the user and its tokens after this run. -/
def targetAcl (state : State) (settings : Settings) (token sdnPath : Text) (command : Command)
    (keepUser : Bool) (scope : List Text) : List Acl :=
  let kept := state.managedAcl.filter (otherToken scope)
  let kept :=
    if command = .uninstall ∧ settings.test then
      kept.filter fun entry => entry.path ≠ "/pool/" ++ poolTest ∨ entry.who ≠ .token hsUser deployToken
    else kept
  let tokens :=
    if command = .install then kept ++ tokenTargetAcl settings token sdnPath ++
      deployTargetAcl settings sdnPath
    else kept
  if keepUser then tokens ++ userAcl tokens else tokens

/-- One step per path and principal; users first when adding, tokens first when
removing. -/
def aclSteps (add : Bool) (changes : List Acl) : List Step :=
  let sorted := sortedSet changes
  let later (entry : Acl) : Bool := entry.who.isUser != add
  let ordered := (sorted.filter fun entry => !later entry) ++ sorted.filter later
  (Grouping.units (fun entry : Acl => (entry.path, entry.who)) ordered).map fun ((path, who), es) =>
    let roles := es.map Acl.role
    let shown := List.intercalate ",".toList roles
    if add then
      pveum ("give " ++ who.text ++ " " ++ shown ++ " on " ++ path ++ " (propagate=1)")
        (.aclModify path who roles)
    else pveum ("take " ++ shown ++ " on " ++ path ++ " from " ++ who.text) (.aclDelete path who roles)

/-- The ACL changes from the current to the target entries. -/
def planAcl (state : State) (target inherit : List Acl) : List Step :=
  let current := state.managedAcl
  aclSteps true (target.filter fun entry =>
      entry ∉ current ∨ entry ∈ inherit ∧ entry ∈ state.nonpropagating) ++
    aclSteps false (current.filter fun entry => entry ∉ target)

/-- A role some ACL entry uses after this run. -/
def roleInUse (state : State) (target : List Acl) (role : Text) : Bool :=
  (state.acl.any fun entry => !entry.managed && entry.role = role) || target.any fun entry =>
    entry.role = role

/-! ## Discovery -/

def Vm.has (vm : Vm) (tag : Text) : Bool := tag ∈ vm.tags

/-- The pool a guest's tags put it in. -/
def poolByTags (vm : Vm) : Option Text :=
  if vm.template = true ∨ vm.has goldTag = true then none
  else
    match vm.kind with
    | .lxc => if vm.has "homestack-server" then some poolService else none
    | .qemu =>
      if vm.has "homestack-ws" = true ∨ vm.has "homestack-alien" = true then
        some (if vm.has "homestack-test" then poolTest else poolWorkspaces)
      else none

/-- The pools an install of the part can put guests back in. -/
def poolsOf (test : Bool) : List Text := [if test then poolTest else poolWorkspaces, poolService]

/-- Why a guest cannot be put back in a pool by the install of the part. -/
def refusal (state : State) (test : Bool) (vmid : Nat) : Option Text :=
  let at_ : Text := "--adopt " ++ Text.ofNat vmid ++ ": "
  match state.vm vmid with
  | none => some (at_ ++ "no such VM or container")
  | some vm =>
    if vm.pool ≠ [] then some (at_ ++ "it is already in pool " ++ vm.pool)
    else
      match poolByTags vm with
      | none =>
        some (at_ ++
          "no tag puts it in a pool (homestack-ws or homestack-alien on a VM, homestack-server on a container)")
      | some pool =>
        if pool ∉ poolsOf test then
          some (at_ ++ "its tags put it in pool " ++ pool ++ ", which this part does not install")
        else none

/-! ## The plan -/

/-- Files of the desktop. -/
abbrev Files := List (Text × Text)

/-- The name of the secret file of a token on the desktop. -/
def tokenFileName (token : Text) : Text := if token = "server" then "pve-token" else "pve-token-" ++ token

/-- A free name next to a file for keeping it. -/
def asideFrom (files : Files) (base : Text) : Nat → Nat → Text
  | 0, n => base ++ "-" ++ Text.ofNat n
  | fuel + 1, n =>
    let candidate := base ++ "-" ++ Text.ofNat n
    if (files.lookup candidate).isSome then asideFrom files base fuel (n + 1) else candidate

/-- `NAME.replaced-<seconds>`, with a number when that is taken. -/
def aside (files : Files) (seconds : Nat) (file : Text) : Text :=
  let base := file ++ ".replaced-" ++ Text.ofNat seconds
  if (files.lookup base).isSome then asideFrom files base files.length 1 else base

structure Context where
  state : State
  settings : Settings
  sdnPath : Text
  gold : Option Nat
  /-- Snippet name to where it is. -/
  paths : Text → Text
  /-- Node to the checksums of its snippets by path; absent when it did not answer. -/
  sums : Text → Option (Text → Option Text)
  snippetNodes : List Text
  /-- The desktop's files and clock. -/
  files : Files
  seconds : Nat
  /-- `cicustom` of a VM; absent when its configuration could not be read. -/
  cicustom : Nat → Option Text

namespace Context

variable (ctx : Context)

def token : Text := if ctx.settings.test then "test" else "server"

def pool : Text := if ctx.settings.test then poolTest else poolWorkspaces

def part : Text := if ctx.settings.test then "test" else "production"

def tokenFile (id : Text) : Text := ctx.settings.tokenDir ++ "/" ++ tokenFileName id

end Context

def planToken (ctx : Context) (id comment : Text) : List Step :=
  match ctx.state.tokens id with
  | none =>
    let file := ctx.tokenFile id
    let replaced := if (ctx.files.lookup file).isSome then some (aside ctx.files ctx.seconds file) else none
    let kept := match replaced with
      | some old => "; the old file, whose token no longer exists, is kept as " ++ old
      | none => []
    [⟨"create token " ++ hsUser ++ "!" ++ id ++ " (secret to " ++ file ++ ", mode 0600)" ++ kept,
      .createToken id comment file replaced⟩]
  | some false => [pveum ("separate the privileges of token " ++ hsUser ++ "!" ++ id) (.tokenSeparate id)]
  | some true => []

/-- A role that is missing or has other privileges. -/
def planRole (ctx : Context) (role wanted : Text) : List Step :=
  match ctx.state.roles role with
  | none => [pveum ("create role " ++ role) (.roleAdd role wanted)]
  | some have_ =>
    if have_ ≠ privs wanted then
      [pveum ("set the privileges of role " ++ role ++ " (were " ++ List.intercalate ",".toList have_ ++ ")")
        (.roleModify role wanted)]
    else []

def planRoles (ctx : Context) : List Step := ownedRoles.flatMap fun (role, wanted) => planRole ctx role wanted

/-- A pool that is missing. -/
def planPool (ctx : Context) (pool comment : Text) : List Step :=
  if (ctx.state.pools pool).isNone then [pveum ("create pool " ++ pool) (.poolAdd pool comment)] else []

def planPools (ctx : Context) : List Step :=
  planPool ctx poolGold "Gold" ++ planPool ctx poolService "Containers" ++
    -- the production part makes the test pool too
    ((ctx.pool :: if ctx.settings.test then [] else [poolTest]).flatMap fun pool =>
      planPool ctx pool (if pool = poolTest then "Test Workspaces" else "Workspaces"))

/-- The distinct adopted guests by VMID. -/
def planAdopt (ctx : Context) : List Step :=
  (ctx.settings.adopt.dedup.insertionSort (· ≤ ·)).flatMap fun vmid =>
    match ctx.state.vm vmid with
    | none => []
    | some vm =>
      match poolByTags vm with
      | none => []
      | some pool =>
        [pveum ("put VM " ++ Text.ofNat vmid ++ " (" ++ vm.name ++ ") in pool " ++
          pool ++ ", as its tags say")
          (.poolPut pool vmid)]

def planGold (ctx : Context) : List Step :=
  match ctx.gold.bind fun gold => (ctx.state.vm gold).map fun vm => (gold, vm) with
  | none => []
  | some (gold, vm) =>
    let pool := goldPool ctx.settings.test
    (if vm.has goldTag then []
      else [⟨"tag Gold " ++ Text.ofNat gold ++ " homestack-gold",
        .setTags vm.node gold (vm.tags ++ [goldTag])⟩]) ++
    if vm.pool ≠ pool then [pveum ("put Gold " ++ Text.ofNat gold ++ " in pool " ++ pool)
      (.poolPut pool gold)] else []

/-- The entries of the part's own tokens and what they need of the user. -/
def inheritAcl (ctx : Context) : List Acl :=
  let own := tokenTargetAcl ctx.settings ctx.token ctx.sdnPath ++ deployTargetAcl ctx.settings ctx.sdnPath
  own ++ userAcl own

def installTarget (ctx : Context) : List Acl :=
  targetAcl ctx.state ctx.settings ctx.token ctx.sdnPath .install true [ctx.token, deployToken]

def planLegacy (ctx : Context) (target : List Acl) : List Step :=
  legacyRoles.flatMap fun role =>
    if (ctx.state.roles role).isSome ∧ roleInUse ctx.state target role = false then
      [pveum ("delete role " ++ role ++ " (made by hand, no longer used)") (.roleDelete role)]
    else []

def snippets : List Text := ["homestack-vendor-create.yaml", "homestack-vendor-keep.yaml"]

section Snippets

-- the checksum of the snippet this build carries
variable (sumOf : Text → Text)

def planSnippets (ctx : Context) : List Step :=
  ctx.snippetNodes.flatMap fun node =>
    match ctx.sums node with
    | none => []
    | some sums =>
      snippets.flatMap fun name =>
        if sums (ctx.paths name) ≠ some (sumOf name) then
          [⟨"write " ++ name ++ " on " ++ node, .writeSnippet node name (ctx.paths name)⟩]
        else []

def planInstall (ctx : Context) : List Step :=
  (if ctx.state.userExists then [] else [pveum ("create user " ++ hsUser) .userAdd]) ++
    planRoles ctx ++ planPools ctx ++ planAdopt ctx ++ planGold ctx ++
    planToken ctx ctx.token ("HomeStack " ++ ctx.part) ++ planToken ctx deployToken "HomeStack deploy" ++
    planAcl ctx.state (installTarget ctx) (inheritAcl ctx) ++ planLegacy ctx (installTarget ctx) ++
    planSnippets sumOf ctx

end Snippets

/-! ## The uninstall -/

/-- VMs whose `cicustom` names the snippet; absent when some cannot be read. -/
def snippetUsers (ctx : Context) (name : Text) : Option (List Nat) :=
  let qemu := ctx.state.vms.filter fun (_, vm) => vm.kind = .qemu
  if qemu.any fun (vmid, _) => (ctx.cicustom vmid).isNone then none
  else some ((qemu.map Prod.fst).filter fun vmid =>
    Text.contains ("snippets/" ++ name) ((ctx.cicustom vmid).getD []))

/-- The tokens and pools of the part. -/
def uninstallScope (settings : Settings) : List Text × List Text :=
  if settings.test then (["test"], [poolTest])
  else (["server", "test", deployToken], [poolWorkspaces, poolTest, poolGold, poolService])

def uninstallTarget (ctx : Context) : List Acl :=
  targetAcl ctx.state ctx.settings ctx.token ctx.sdnPath .uninstall ctx.settings.test
    (uninstallScope ctx.settings).1

def planRoleDeletes (ctx : Context) (target : List Acl) : List Step :=
  ((ownedRoles.map Prod.fst) ++ legacyRoles).flatMap fun role =>
    if (ctx.state.roles role).isSome ∧ roleInUse ctx.state target role = false then
      [pveum ("delete role " ++ role) (.roleDelete role)]
    else []

def planPoolDelete (ctx : Context) (pool : Text) : List Step :=
  match ctx.state.pools pool with
  | none => []
  | some members =>
    (members.map fun vmid =>
      let vm := ctx.state.vm vmid
      let name := match vm with
        | some vm => " (" ++ vm.name ++ ")"
        | none => []
      let isGold := (pool = poolGold ∨ pool = poolTest) ∧
        (some vmid = ctx.settings.gold ∨ vm.any fun vm => vm.has goldTag)
      pveum
        (if isGold then "take Gold " ++ Text.ofNat vmid ++ name ++ " out of pool " ++ pool ++ " (Gold stays)"
          else "take VM " ++ Text.ofNat vmid ++ name ++ " out of pool " ++ pool ++ " (it stays)")
        (.poolTake pool vmid)) ++
    [pveum ("delete pool " ++ pool) (.poolDelete pool)]

def planSnippetDeletes (ctx : Context) : List Step :=
  snippets.flatMap fun name =>
    if snippetUsers ctx name ≠ some [] then []
    else ctx.snippetNodes.flatMap fun node =>
      if (ctx.sums node).any fun sums => (sums (ctx.paths name)).isSome then
        [⟨"remove " ++ name ++ " from " ++ node, .removeSnippet node name (ctx.paths name)⟩]
      else []

def planUninstall (ctx : Context) : List Step :=
  let (scope, pools) := uninstallScope ctx.settings
  let target := uninstallTarget ctx
  planAcl ctx.state target [] ++
    (scope.flatMap fun name =>
      if (ctx.state.tokens name).isSome then
        [pveum ("delete token " ++ hsUser ++ "!" ++ name) (.tokenDelete name)]
      else []) ++
    (if ctx.settings.test then planLegacy ctx target
      else (if ctx.state.userExists then [pveum ("delete user " ++ hsUser) .userDelete] else []) ++
        planRoleDeletes ctx target) ++
    pools.flatMap (planPoolDelete ctx) ++
    if ctx.settings.test then [] else planSnippetDeletes ctx

end HomeStack.Install

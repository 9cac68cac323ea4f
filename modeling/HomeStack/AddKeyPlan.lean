import HomeStack.AddKey
import HomeStack.Guest
import HomeStack.Lifecycle
import HomeStack.Workspace

/-! One more key for a workspace (`plan_addkey` and `add_key` of `addkey.rs`). What is
reported to the observer is left out. -/

namespace HomeStack.AddKey

open Op Guest

/-! ## The key step -/

def ensureMarker : Text := "# HomeStack ensure-keys"

def ensureDone : Text := "HomeStack: ensured SSH keys from Cloud-Init"

/-- `ENSURE_LOOP` -/
def ensureLoopText : Text :=
  "    [ -d \"$dir\" ] || continue\n    owner=$(stat -c %U \"$dir\")\n    group=$(stat -c %G \"$dir\")\n" ++
  "    f=\"$dir/.ssh/authorized_keys\"\n    install -d -m 700 -o \"$owner\" -g \"$group\" \"$dir/.ssh\"\n" ++
  "    [ -f \"$f\" ] || install -m 600 -o \"$owner\" -g \"$group\" /dev/null \"$f\"\n" ++
  "    [ -z \"$(tail -c1 \"$f\")\" ] || echo >> \"$f\"\n" ++
  "    printf '%s\\n' \"$keys\" | while IFS= read -r key; do\n        [ -n \"$key\" ] || continue\n" ++
  "        id=$(printf '%s' \"$key\" | awk '\x7bprint $1 \" \" $2\x7d')\n" ++
  "        awk -v id=\"$id\" '$1 !~ /^#/ \x7b for (i = 1; i < NF; i++) if ($i ~ /^(ssh-|ecdsa-|sk-)/) \x7b " ++
  "if ($i \" \" $(i + 1) == id) found = 1; break \x7d \x7d END \x7b exit !found \x7d' \"$f\" || " ++
  "printf '%s\\n' \"$key\" >> \"$f\"\n    done\n"

def ensureKeysScript (keys : List KeyRecord) (user : Text) : Text :=
  ensureMarker ++ "\nset -eu\nkeys=" ++ shellQuote (List.intercalate "\n" (keys.map keyLine)) ++
    "\nfor dir in /root "
    ++ shellQuote ("/home/" ++ user) ++ "; do\n" ++ ensureLoopText ++ "done\necho '" ++ ensureDone ++ "'\n"

/-! ## The plan -/

structure AddkeyRequest where
  vmid : Nat
  key : Option Text
  restart : Bool

/-- A text option of a configuration, empty when it is not set. -/
def option (vmCfg : VmConfig) (key : Text) : Text := vmCfg[key]?.getD []

/-- The keys of the plan, and whether the requested one was there. -/
def plannedRecords (vmid : Nat) (existing : List KeyRecord) :
    Option PublicKey → Except CoreError (List KeyRecord × Bool)
  | some key => .ok (mergeSshkeys existing key)
  | none =>
    if existing.isEmpty then
      .error (.refused ("VM " ++ Text.ofNat vmid ++ " has no keys in its Proxmox sshkeys; give a key"))
    else .ok (existing, true)

def keyLabel (keys : List KeyRecord) : Option PublicKey → Text
  | some key => key.comment
  | none => List.intercalate ", " (keys.map KeyRecord.label)

/-- The step of the plan that names the key. -/
def sshkeysStep (label : Text) (present : Bool) : Option PublicKey → Text
  | some _ =>
    if present then "Add the key to the Proxmox sshkeys of the VM (already there)"
    else "Add the key to the Proxmox sshkeys of the VM"
  | none => "Keep the Proxmox sshkeys as they are: " ++ label

def snippetStep (keepSnippet : Bool) : Text :=
  if keepSnippet then "Keep the keep vendor snippet, which cannot rewrite authorized_keys or home"
  else "Replace custom Cloud-Init snippets with the HomeStack keep vendor snippet; Proxmox generates user, network and meta data"

def restartStep (restart : Bool) : Text :=
  if restart then "Restart the VM, then check the keys again" else "The VM is NOT restarted"

/-- How the keys get into the guest. -/
def deliverySteps (user : Text) (running restart : Bool) : List Text :=
  if running then
    ["Append missing keys to root and " ++ user ++
      " authorized_keys now through the guest agent; nothing is removed",
      "Check that every key is in root and " ++ user ++ " authorized_keys", restartStep restart]
  else
    ["The VM is stopped and stays stopped; Cloud-Init appends missing keys to root and " ++ user
      ++ " authorized_keys at its next start"]

def instanceSteps (present : Bool) : List Text :=
  if present then []
  else ["The new sshkeys start a new Cloud-Init instance at the next start: the VM gets new SSH host keys"]

def planSteps (user label : Text) (key : Option PublicKey) (present keepSnippet running restart : Bool) :
    List Text :=
  sshkeysStep label present key :: snippetStep keepSnippet :: deliverySteps user running restart ++
    instanceSteps present

def keyJson (key : PublicKey) : Json :=
  .obj [("comment", .str key.comment), ("type", .str key.keyType), ("line", .str key.line),
    ("blob", .str key.blob)]

def planJson (cfg : Config) (pool : Text) (request : AddkeyRequest) (key : Option PublicKey)
    (info : ExistingWorkspace) (ip : Text) (keys : List KeyRecord) (present : Bool) : Json :=
  let cicustom := option info.vmConfig "cicustom"
  let keepSnippet := decide (cicustom = cicustomValue cfg .keep)
  let label := keyLabel keys key
  .obj [("command", .str "addkey"), ("vmid", .int request.vmid), ("name", .str info.name),
    ("node", .str info.node),
    ("pool", .str pool), ("status", .str info.status), ("ip", .str ip), ("user", .str cfg.user.name),
    ("key", (key.map keyJson).getD .null), ("label", .str label), ("key_already_in_sshkeys", .bool present),
    ("keep_snippet", .bool keepSnippet), ("original_cicustom", .str cicustom),
    ("original_sshkeys", .str (option info.vmConfig "sshkeys")),
      ("keys", .arr (keys.map fun record => .str (keyLine record))),
    ("restart", .bool request.restart),
    ("steps", .arr ((planSteps cfg.user.name label key present keepSnippet
      (info.status = "running") request.restart).map
      Json.str))]

def planAddkey (cfg : Config) (pool : Text) (request : AddkeyRequest) : Op Json := do
  let key ← Op.ofExcept (request.key.mapM readPublicKey)
  requirePool request.vmid pool
  let info ← resolveExistingWorkspace cfg request.vmid
  let (ip, _, _) ← Op.ofExcept (parseIpconfig0 (option info.vmConfig "ipconfig0"))
  let existing ← Op.ofExcept (sshkeysRecords request.vmid (option info.vmConfig "sshkeys"))
  let (keys, present) ← Op.ofExcept (plannedRecords request.vmid existing key)
  return planJson cfg pool request key info ip keys present

/-! ## What `add_key` reads of its plan -/

def plannedKeys (plan : Json) : Except CoreError (List KeyRecord) := do
  let lines := (((plan.get "keys").bind Json.asArray).map (List.filterMap Json.asStr)).getD []
  if lines.isEmpty then throw (.unusable "The plan has no keys")
  (checkedRecords (List.intercalate "\n" lines)).mapError fun error =>
    .unusable ("The plan's keys are not usable: " ++ error.toText)

def flag (plan : Json) (key : Text) : Bool :=
  match plan.get key with
  | some (.bool b) => b
  | _ => false

def present (plan : Json) : Bool := flag plan "key_already_in_sshkeys"

def keepSnippet (plan : Json) : Bool := flag plan "keep_snippet"

/-- The workspace is as it was planned. -/
def requirePlanned (plan : Json) (vmid : Nat) (node status : Text) (info : ExistingWorkspace) :
    Except CoreError Unit := do
  let vm : Text := "VM " ++ Text.ofNat vmid
  let changed : CoreError :=
    .refused (vm ++ " Cloud-Init snippets or SSH keys changed after planning; generate a new plan")
  if info.node ≠ node then
    throw (.refused (vm ++ " is on " ++ info.node ++ ", not on " ++ node ++
      " as planned; generate a new plan"))
  if info.status ≠ status then
    throw (.refused (vm ++ " is " ++ info.status ++ ", not " ++ status ++ " as planned; generate a new plan"))
  let cicustom ← planText plan "original_cicustom"
  if option info.vmConfig "cicustom" ≠ cicustom then throw changed
  let sshkeys ← planText plan "original_sshkeys"
  if option info.vmConfig "sshkeys" ≠ sshkeys then throw changed

/-! ## The steps -/

def fieldForm (key : Text) (value : Option Text) : Form := (value.map fun value => (key, value)).toList

def keysForm (cfg : Config) (plan : Json) (keys : List KeyRecord) (digest : Option Text) : Form :=
  fieldForm "sshkeys" (if present plan then none else some (writtenSshkeys keys))
    ++ fieldForm "cicustom" (if keepSnippet plan then none else some (cicustomValue cfg .keep))
    ++ fieldForm "digest" (digest.filter fun d => !d.isEmpty)

/-- The step "Cloud-Init keys". -/
def setKeys (cfg : Config) (plan : Json) (node : Text) (vmid : Nat) (keys : List KeyRecord)
    (digest : Option Text) :
    Op Unit := do
  postTask (.config node vmid) (keysForm cfg plan keys digest)
    ("Setting the SSH keys of VM " ++ Text.ofNat vmid) 600
  let written ← vmConfig node vmid
  let writtenKeys ← Op.ofExcept (sshkeysRecords vmid (option written "sshkeys"))
  if writtenKeys ≠ keys ∨ written["cicustom".toList]? ≠ some (cicustomValue cfg .keep) then
    throw (.failed ("VM " ++ Text.ofNat vmid
      ++ " does not hold the planned sshkeys and keep vendor snippet after the change"))

def configureKeys (cfg : Config) (plan : Json) (node : Text) (vmid : Nat) (keys : List KeyRecord)
    (digest : Option Text) :
    Op Unit :=
  if !present plan ∨ !keepSnippet plan then setKeys cfg plan node vmid keys digest else pure ()

def rootKeysFile : Text := "/root/.ssh/authorized_keys"

def userKeysFile (user : Text) : Text := "/home/" ++ user ++ "/.ssh/authorized_keys"

/-- `missing_keys`, with the path that each label gets in `verify_keys`. -/
def lostKeys (B : Base64) (node : Text) (vmid : Nat) (keys : List KeyRecord) (path : Text) :
    Op (List Text) := do
  let text := (← readText B node vmid path).getD []
  return (missingKeys text keys).map fun comment => comment ++ " in " ++ path

def verifyKeys (B : Base64) (node : Text) (vmid : Nat) (user : Text) (keys : List KeyRecord) : Op Unit := do
  let root ← lostKeys B node vmid keys rootKeysFile
  let home ← lostKeys B node vmid keys (userKeysFile user)
  if root ++ home ≠ [] then
    throw (.failed ("Not all keys are in root and " ++ user ++
      " authorized_keys of VM " ++ Text.ofNat vmid ++ ": "
      ++ List.intercalate "; " (root ++ home)))

/-- `AGENT_TIMEOUT` -/
def agentTimeoutSecs : Nat := 300

/-- `CLOUD_INIT_TIMEOUT` -/
def cloudInitTimeoutSecs : Nat := 300

def resultFile : Text := "/run/cloud-init/result.json"

def cloudInitResult (B : Base64) (node : Text) (vmid : Nat) : Nat → Op Text
  | 0 => do
    match ← readText B node vmid resultFile with
    | some text => return text
    | none => throw (.failed ("Cloud-Init on VM " ++ Text.ofNat vmid
        ++ " did not report 'done' after the restart: no result within " ++
          Text.ofNat cloudInitTimeoutSecs ++ "s"))
  | n + 1 => do
    match ← readText B node vmid resultFile with
    | some text => return text
    | none => cloudInitResult B node vmid n

/-- `wait_cloud_init_done`; `parse` reads a JSON text. -/
def waitCloudInitDone (B : Base64) (parse : Text → Option Json) (node : Text) (vmid : Nat) : Op Unit := do
  let result ← cloudInitResult B node vmid (← rounds)
  match (((parse result).bind fun v => v.get "v1").bind fun v => v.get "errors").bind Json.asArray with
  | some [] => return
  | _ => throw (.failed ("Cloud-Init on VM " ++ Text.ofNat vmid ++
      " did not report 'done' after the restart: "
      ++ (Text.trim result).take 200))

/-- The step "Add keys through the guest agent": a note when the agent is silent. -/
def addThroughAgent (B : Base64) (node : Text) (vmid : Nat) (user : Text) (keys : List KeyRecord) :
    Op (Option Text) := do
  match ← Prog.attempt (qgaPing node vmid) with
  | .error _ =>
    return some ("The QEMU Guest Agent of VM " ++ Text.ofNat vmid ++
      " did not answer; the keys are added at its next start")
  | .ok _ =>
    let _ ← guestExec node vmid (ensureKeysScript keys user) true execTimeoutSecs
    verifyKeys B node vmid user keys
    return none

def deliverNow (B : Base64) (node : Text) (vmid : Nat) (user : Text)
    (keys : List KeyRecord) (running : Bool) :
    Op (Option Text × Bool) :=
  if running then do
    let note ← addThroughAgent B node vmid user keys
    return (note, note.isNone)
  else return (none, false)

/-- The steps "Restart workspace" and "Verify keys after the restart". -/
def restartAndVerify (B : Base64) (parse : Text → Option Json) (node : Text) (vmid : Nat) (user : Text)
    (keys : List KeyRecord) : Op Unit := do
  shutdownVm node vmid shutdownSecs
  startVm node vmid
  waitForQga node vmid agentTimeoutSecs
  waitCloudInitDone B parse node vmid
  verifyKeys B node vmid user keys

def resultEnd : Option Text → List (Text × Json)
  | some note => [("note", .str note), ("event", .str "workspace.key_added")]
  | none => [("event", .str "workspace.key_added")]

def resultJson (plan : Json) (vmid : Nat) (note : Option Text) (running restarted verified : Bool) : Json :=
  .obj (("ok", .bool true) :: ("command", .str "addkey") :: ("vmid", .int vmid) ::
    ("name", (plan.get "name").getD .null) :: ("ip", (plan.get "ip").getD .null) ::
    ("key", (plan.get "label").getD .null) :: ("restarted", .bool restarted) ::
    ("pending_restart", .bool (running && !verified)) :: ("verified", .bool verified) ::
    ("new_instance_at_next_start", .bool (!present plan && !restarted)) ::
    resultEnd note)

def addKey (B : Base64) (parse : Text → Option Json) (cfg : Config) (pool : Text) (plan : Json) :
    Op Json := do
  let vmid ← Op.ofExcept (vmidOf plan)
  let node ← Op.ofExcept (planText plan "node")
  let status ← Op.ofExcept (planText plan "status")
  let user ← Op.ofExcept (planText plan "user")
  let keys ← Op.ofExcept (plannedKeys plan)
  let info ← resolveExistingWorkspace cfg vmid
  requirePool vmid pool
  Op.ofExcept (requirePlanned plan vmid node status info)
  let running := decide (status = "running")
  configureKeys cfg plan node vmid keys info.vmConfig["digest".toList]?
  let (note, verified) ← deliverNow B node vmid user keys running
  let restarted := running && flag plan "restart"
  if restarted then restartAndVerify B parse node vmid user keys
  return resultJson plan vmid note running restarted (verified || restarted)

end HomeStack.AddKey

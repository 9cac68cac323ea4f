import HomeStack.Cluster

/-! The QEMU guest agent (`guest.rs`): pings, commands and file reads. -/

namespace HomeStack.Guest

open Op

/-- `QGA_PING_TIMEOUT` -/
def pingTimeoutSecs : Nat := 5

/-- `GUEST_EXEC_TIMEOUT` -/
def execTimeoutSecs : Nat := 300

def fileLimit : Nat := 1024 * 1024

abbrev ping (node : Text) (vmid : Nat) : Call := .post (.agent node vmid "ping") []

/-- `qga_ping`: without a round left the answer came too late. -/
def qgaPing (node : Text) (vmid : Nat) : Op Unit := do
  let answer ← call (ping node vmid)
  if (← rounds) = 0 then
    throw (.failed ("QEMU Guest Agent ping did not answer within " ++ Text.ofNat pingTimeoutSecs ++ "s"))
  let _ ← ofPve answer

/-- The pings of `wait_for_qga`, with the error of the last one. -/
def pings (node : Text) (vmid timeoutSecs : Nat) : Nat → Option CoreError → Op Unit
  | 0, last =>
    let message : Text := "VM " ++ Text.ofNat vmid ++ " on " ++ node
      ++ " did not expose a working QEMU Guest Agent within " ++ Text.ofNat timeoutSecs ++ "s"
    match last with
    | some error => throw (.context (message ++ ": " ++ error.toText) [error])
    | none => throw (.failed message)
  | n + 1, _ => do
    match ← Prog.attempt (qgaPing node vmid) with
    | .ok _ => return
    | .error error => pings node vmid timeoutSecs n (some error)

def waitForQga (node : Text) (vmid timeoutSecs : Nat) : Op Unit :=
  do pings node vmid timeoutSecs (← rounds) none

def integer : Option Json → Option Int
  | some (.int n) => if -2 ^ 63 ≤ n ∧ n < 2 ^ 63 then some n else none
  | some (.str text) => Text.parseInt (Text.trim text)
  | some (.bool flag) => some (if flag then 1 else 0)
  | _ => none

/-- The characters of a word that needs no quotes. -/
def wordChar (c : Char) : Bool := (c.isAlphanum && c.toNat < 128) || "@%+=:,./-_".toList.contains c

def shellQuote (word : Text) : Text :=
  if !word.isEmpty && word.all wordChar then word
  else "'" ++ word.flatMap (fun c => if c = '\'' then "'\"'\"'" else [c]) ++ "'"

structure ExecResult where
  exitcode : Int
  out : Text
  err : Text

def field (value : Option Json) : Text := (value.bind Json.asStr).getD []

/-- The `exec-status` reads until the command has exited. -/
def execStatus (node : Text) (vmid : Nat) (command pid : Text) (timeoutSecs : Nat) : Nat → Op Json
  | 0 => throw (.failed ("Guest command did not finish in VM " ++ Text.ofNat vmid ++
      " on " ++ node ++ " within "
      ++ Text.ofNat timeoutSecs ++ "s: " ++ command))
  | n + 1 => do
    match ← call (.get (.agent node vmid "exec-status") [("pid", pid)]) with
    | .error error =>
      throw (.context ("QEMU Guest Agent status failed for VM " ++ Text.ofNat vmid ++
        " on " ++ node) [.pve error])
    | .ok status =>
      if truthy (status.get "exited") then return status
      else execStatus node vmid command pid timeoutSecs n

def execAnswer (node : Text) (vmid : Nat) (command : Text) (timeoutSecs : Nat) (parsed : Json) : Op Json :=
  if (parsed.get "pid").isSome ∧ !truthy (parsed.get "exited") then
    match integer (parsed.get "pid") with
    | none => throw (.pve (.response ("QEMU Guest Agent returned an invalid pid for VM " ++
        Text.ofNat vmid ++ " on " ++ node)))
    | some pid => do execStatus node vmid command (Json.intText pid) timeoutSecs (← rounds)
  else pure parsed

/-- The checks of `guest_exec` on the last answer. -/
def execResult (node : Text) (vmid : Nat) (command : Text) (check : Bool) (parsed : Json) :
    Except CoreError ExecResult := do
  let context : Text := "VM " ++ Text.ofNat vmid ++ " on " ++ node
  if !truthy (parsed.get "exited") ∨ (parsed.get "exitcode").isNone then
    throw (.pve (.response ("QEMU Guest Agent returned an incomplete response for " ++ context)))
  match integer (parsed.get "exitcode") with
  | none => throw (.pve (.response ("QEMU Guest Agent returned an invalid exit code for " ++ context)))
  | some exitcode =>
    let out := field (parsed.get "out-data")
    let err := field (parsed.get "err-data")
    if check ∧ exitcode ≠ 0 then
      let detail := [Text.trim err, Text.trim out].find? fun part => !part.isEmpty
      throw (.failed ("Guest command failed in " ++ context ++ " (exit=" ++
        Json.intText exitcode ++ "): " ++ command
        ++ (detail.map fun part : Text => ("\n" ++ part : Text)).getD []))
    return ⟨exitcode, out, err⟩

def guestExec (node : Text) (vmid : Nat) (command : Text) (check : Bool) (timeoutSecs : Nat) :
    Op ExecResult := do
  match ← call (.post (.agent node vmid "exec") [("command", "/bin/sh"), ("command", "-lc"),
    ("command", command)]) with
  | .error error =>
    throw (.context ("QEMU Guest Agent exec failed for VM " ++ Text.ofNat vmid ++
      " on " ++ node) [.pve error])
  | .ok parsed =>
    Op.ofExcept (execResult node vmid command check (← execAnswer node vmid command timeoutSecs parsed))

def guestFileError : PveError → Bool
  | .api status message =>
    status == 500 && (Text.startsWith "Agent error: failed to open file" message
      || Text.startsWith "Agent error: failed to read file" message)
  | _ => false

abbrev fileRead (node : Text) (vmid : Nat) (path : Text) (offset count : Nat) : Call :=
  .get (.agent node vmid "file-read")
    [("file", path), ("offset", Text.ofNat offset), ("count", Text.ofNat count), ("decode", "0")]

/-- The bytes in an answer, or nothing when the guest could not read. -/
def fileAnswer (B : Base64) (vmid : Nat) (path : Text) :
    Except PveError Json → Except CoreError (Option Bytes)
  | .ok answer =>
    match B.decode (field (answer.get "content")) with
    | some bytes => .ok (some bytes)
    | none => .error (.unusable ("file-read of " ++ path ++ " in VM " ++ Text.ofNat vmid ++
        " returned invalid base64"))
  | .error error => if guestFileError error then .ok none else .error (.pve error)

def readFile (B : Base64) (node : Text) (vmid : Nat) (path : Text) (offset count : Nat) :
    Op (Option Bytes) := do
  Op.ofExcept (fileAnswer B vmid path (← call (fileRead node vmid path offset count)))

def readText (B : Base64) (node : Text) (vmid : Nat) (path : Text) : Op (Option Text) := do
  return (← readFile B node vmid path 0 fileLimit).map Bytes.fromUtf8Lossy

/-! ## What these ask -/

/-- The questions to an agent. -/
structure AgentCalls (P : Call → Prop) : Prop where
  get : ∀ node vmid command query, P (.get (.agent node vmid command) query)
  post : ∀ node vmid command form, P (.post (.agent node vmid command) form)
  rounds : P .rounds

section Asks

variable {P : Call → Prop}

theorem asks_execStatus (hP : AgentCalls P) (node : Text) (vmid : Nat)
    (command pid : Text) (timeoutSecs n : Nat) :
    (execStatus node vmid command pid timeoutSecs n).run.Asks P := by
  induction n with
  | zero => trivial
  | succ n ih =>
    refine Prog.asks_bind (asks_call (hP.get node vmid _ _)) fun r => ?_
    cases r with
    | error e => trivial
    | ok status => exact asks_ite trivial ih

theorem asks_guestExec (hP : AgentCalls P) (node : Text) (vmid : Nat) (command : Text)
    (check : Bool) (timeoutSecs : Nat) :
    (guestExec node vmid command check timeoutSecs).run.Asks P := by
  have hanswer : ∀ parsed, (execAnswer node vmid command timeoutSecs parsed).run.Asks P := by
    intro parsed
    refine asks_ite ?_ trivial
    split
    · trivial
    · exact Prog.asks_bind (asks_call hP.rounds) fun n => asks_execStatus hP node vmid command _ timeoutSecs n
  refine Prog.asks_bind (asks_call (hP.post node vmid _ _)) fun r => ?_
  cases r with
  | error e => trivial
  | ok parsed => exact Prog.asks_bind (hanswer parsed) fun _ => asks_ofExcept

theorem asks_readText (hP : AgentCalls P) (B : Base64) (node : Text) (vmid : Nat) (path : Text) :
    (readText B node vmid path).run.Asks P := by
  refine Prog.asks_bind (Prog.asks_bind (asks_call ?_) fun _ => asks_ofExcept) fun _ => trivial
  exact hP.get node vmid _ _

end Asks

end HomeStack.Guest

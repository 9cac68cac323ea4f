import HomeStack.Lib.Chars
import HomeStack.Pve

/-! Proxmox tasks (`tasks.rs`): follow a UPID to its end, and try a call again
that was refused for a taken lock. What is reported to the observer is left
out; the pages of a task's log are read all the same. -/

namespace HomeStack

open Op

def isLockTimeout (text : Text) : Bool :=
  Text.contains "can't lock file" text && Text.contains "got timeout" text

def retryWhileLocked {α : Type} (attempt : Op α) : Op α := do
  go (← rounds)
where
  go : Nat → Op α
    | 0 => attempt
    | n + 1 => do
      match ← Prog.attempt attempt with
      | .ok a => return a
      | .error e => if isLockTimeout e.toText then go n else throw e

/-- How a task ended. -/
structure TaskResult where
  upid : Text
  exitstatus : Text
  deriving DecidableEq, Repr

/-- Proxmox counts a task with warnings as successful. -/
def TaskResult.ok (r : TaskResult) : Bool := r.exitstatus = "OK" || Text.startsWith "WARNINGS" r.exitstatus

def upidFields (upid : Text) : Option (List Text) :=
  let fields := upid.splitOn ':'
  if 8 ≤ fields.length ∧ fields.getD 0 [] = "UPID" ∧ fields.getD 1 [] ≠ [] then some fields else none

def logPage : Nat := 500

/-- `placeholder`: Proxmox's made-up line of an empty log. -/
def placeholder : List Json → Bool
  | [only] =>
    decide ((only.get "n").bind Json.asU64 = some 1) &&
      decide ((only.get "t").bind Json.asStr = some "no content".toList)
  | _ => false

/-- The lines not seen yet and the last number seen. -/
def newLines (seen : Nat) (entries : List Json) : List Text × Nat :=
  entries.foldl (fun (lines, seen) entry =>
    let number := ((entry.get "n").bind Json.asU64).getD 0
    match (entry.get "t").bind Json.asStr with
    | some text => if number > seen then (lines ++ [text], number) else (lines, seen)
    | none => (lines, seen)) ([], seen)

/-- The log from the last line seen, page by page. -/
def readLog (node upid : Text) : Nat → Nat → Op Nat
  | 0, seen => return seen
  | n + 1, seen => do
    let log ← get (.taskLog node upid) [("start", Text.ofNat seen), ("limit", Text.ofNat logPage)]
    let entries := (log.asArray).getD []
    if placeholder entries then return seen
    let (lines, seen) := newLines seen entries
    if lines.isEmpty then return seen
    if entries.length = logPage then readLog node upid n seen else return seen

/-- One round of `wait_task`: the task's status and the new lines of its log. -/
def pollTask (node upid : Text) (seen : Nat) : Op (Option TaskResult × Nat) := do
  let status ← get (.taskStatus node upid) []
  let seen ← readLog node upid (← rounds) seen
  if (status.get "status").bind Json.asStr = some "stopped".toList then
    let exitstatus := ((status.get "exitstatus").bind Json.asStr).getD "unknown"
    return (some { upid := upid, exitstatus := exitstatus }, seen)
  return (none, seen)

/-- The rounds of `wait_task` until its deadline. -/
def pollUntil (node upid : Text) (timeoutSecs : Nat) : Nat → Nat → Op TaskResult
  | n, seen => do
    match ← pollTask node upid seen with
    | (some result, _) => return result
    | (none, seen) =>
      match n with
      | 0 => throw (.failed ("Proxmox task " ++ upid ++ " did not finish within " ++
          Text.ofNat timeoutSecs ++ "s"))
      | n + 1 => pollUntil node upid timeoutSecs n seen

/-- `wait_task`, for as many seconds. -/
def waitTask (upid : Text) (timeoutSecs : Nat) : Op TaskResult := do
  match upidFields upid with
  | none => throw (.unusable ("invalid task id " ++ Text.debug upid))
  | some fields => pollUntil (fields.getD 1 []) upid timeoutSecs (← rounds) 0

/-- `upid`: the task id of an answer. -/
def upidOf (answer : Json) : Except CoreError Text :=
  match answer.asStr with
  | some upid => .ok upid
  | none => .error (.unusable ("Proxmox did not return a task id: " ++ answer.render))

/-- Wait for the task of an answer to succeed. -/
def finishTask (answer : Json) (what : Text) (timeoutSecs : Nat) : Op Unit := do
  let result ← waitTask (← Op.ofExcept (upidOf answer)) timeoutSecs
  if !result.ok then throw (.failed (what ++ " failed: " ++ result.exitstatus))

def postTask (path : Path) (form : Form) (what : Text) (timeoutSecs : Nat) : Op Unit :=
  retryWhileLocked do finishTask (← post path form) what timeoutSecs

/-- `delete_task`: send DELETE exactly once. -/
def deleteTask (path : Path) (query : Form) (what : Text) (timeoutSecs : Nat) : Op Unit := do
  match ← Prog.attempt (do finishTask (← delete path query) what timeoutSecs) with
  | .ok _ => return
  | .error e =>
    throw (.context (e.toText ++
      ". DELETE was sent once and will not be retried. Inspect the VM, storage and task outcome explicitly before reviewing a new destroy plan.") [e])

/-! ## What waiting asks -/

/-- The questions about a task. -/
structure Polls (P : Call → Prop) : Prop where
  status : ∀ node upid, P (.get (.taskStatus node upid) [])
  log : ∀ node upid query, P (.get (.taskLog node upid) query)
  rounds : P .rounds

section Asks

variable {P : Call → Prop}

theorem asks_readLog (hP : Polls P) (node upid : Text) (n seen : Nat) :
    (readLog node upid n seen).run.Asks P := by
  induction n generalizing seen with
  | zero => trivial
  | succ n ih =>
    refine Prog.asks_bind (asks_get (hP.log node upid _)) fun log => ?_
    refine asks_ite trivial ?_
    dsimp only
    exact asks_ite trivial (asks_ite (ih _) trivial)

theorem asks_pollUntil (hP : Polls P) (node upid : Text) (timeoutSecs n seen : Nat) :
    (pollUntil node upid timeoutSecs n seen).run.Asks P := by
  have hpoll : ∀ seen, (pollTask node upid seen).run.Asks P := by
    intro seen
    refine Prog.asks_bind (asks_get (hP.status node upid)) fun status =>
      Prog.asks_bind (asks_call hP.rounds) fun k => ?_
    exact Prog.asks_bind (asks_readLog hP node upid k seen) fun _ => asks_ite trivial trivial
  induction n generalizing seen with
  | zero =>
    unfold pollUntil
    refine Prog.asks_bind (hpoll seen) fun r => ?_
    obtain ⟨result, seen⟩ := r
    cases result <;> trivial
  | succ n ih =>
    unfold pollUntil
    refine Prog.asks_bind (hpoll seen) fun r => ?_
    obtain ⟨result, seen⟩ := r
    cases result with
    | some result => trivial
    | none => exact ih seen

theorem asks_waitTask (hP : Polls P) (upid : Text) (timeoutSecs : Nat) :
    (waitTask upid timeoutSecs).run.Asks P := by
  unfold waitTask
  split
  · trivial
  · exact Prog.asks_bind (asks_call hP.rounds) fun n => asks_pollUntil hP _ _ _ n 0

theorem asks_finishTask (hP : Polls P) (answer : Json) (what : Text) (timeoutSecs : Nat) :
    (finishTask answer what timeoutSecs).run.Asks P := by
  refine Prog.asks_bind asks_ofExcept fun upid =>
    Prog.asks_bind (asks_waitTask hP upid timeoutSecs) fun result => ?_
  exact asks_ite trivial trivial

theorem asks_retryWhileLocked {α : Type} {p : Op α} (hr : P .rounds) (hp : p.run.Asks P) :
    (retryWhileLocked p).run.Asks P := by
  have hloop : ∀ n, (retryWhileLocked.go p n).run.Asks P := by
    intro n
    induction n with
    | zero => exact hp
    | succ n ih =>
      refine Prog.asks_bind (Prog.asks_attempt hp) fun r => ?_
      cases r with
      | ok a => trivial
      | error e => exact asks_ite ih trivial
  exact Prog.asks_bind (asks_call hr) hloop

theorem asks_postTask (hP : Polls P) {path : Path} {form : Form} (h : P (.post path form)) (what : Text)
    (timeoutSecs : Nat) : (postTask path form what timeoutSecs).run.Asks P :=
  asks_retryWhileLocked hP.rounds (Prog.asks_bind (asks_post h) fun answer =>
    asks_finishTask hP answer what timeoutSecs)

end Asks

theorem polls_isRead : Polls fun c => c.isRead = true := ⟨fun _ _ => rfl, fun _ _ _ => rfl, rfl⟩

theorem reads_waitTask (upid : Text) (timeoutSecs : Nat) : Reads (waitTask upid timeoutSecs) :=
  asks_waitTask polls_isRead upid timeoutSecs

theorem reads_finishTask (answer : Json) (what : Text) (timeoutSecs : Nat) :
    Reads (finishTask answer what timeoutSecs) :=
  asks_finishTask polls_isRead answer what timeoutSecs

end HomeStack

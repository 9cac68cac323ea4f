import HomeStack.Inventory
import HomeStack.Journal
import HomeStack.Lib.Prog

/-! The Proxmox API as the operations see it (`pve.rs`): an operation is a
program that asks calls and gets JSON or an error. What an operation reports to
its observer is left out.

Time appears as the question `rounds`: how often a loop that runs until a
deadline gets to go round before it passes. Whether a server instance runs a
job now is the question `running`; a random identifier is the question `uuid`. -/

namespace HomeStack

/-- The paths of the API. -/
inductive Path
  | nodes
  | clusterResources
  | config (node : Text) (vmid : Nat)
  | pending (node : Text) (vmid : Nat)
  | unlink (node : Text) (vmid : Nat)
  | statusCurrent (node : Text) (vmid : Nat)
  | statusStart (node : Text) (vmid : Nat)
  | statusShutdown (node : Text) (vmid : Nat)
  | taskStatus (node : Text) (upid : Text)
  | taskLog (node : Text) (upid : Text)
  | nodeStorage (node : Text)
  | storageContent (node : Text) (storage : Text)
  | pool (pool : Text)
  | nodeQemu (node : Text)
  | vm (node : Text) (vmid : Nat)
  | snapshot (node : Text) (vmid : Nat)
  | replication (node : Text)
  | storage
  | storageStatus (node : Text) (storage : Text)
  | agent (node : Text) (vmid : Nat) (command : Text)
  deriving DecidableEq, Repr

/-- Form fields and query parameters, in order. -/
abbrev Form := List (Text × Text)

/-- Checks that only read, asked as a whole. -/
inductive Probe
  /-- `require_space` for a copy of Gold's root. -/
  | space (node storage goldDiskConfig : Text)
  /-- `verify_refreshed_guest`; the result is the cloud id. -/
  | guest (node : Text) (vmid : Nat) (name address homeLabel : Text)
  deriving DecidableEq, Repr

/-- What an operation can ask. -/
inductive Call
  | get (path : Path) (query : Form)
  | post (path : Path) (form : Form)
  | put (path : Path) (form : Form)
  | delete (path : Path) (query : Form)
  | rounds
  | running (inst job : Text)
  | probe (what : Probe)
  | uuid
  deriving DecidableEq, Repr

/-- What it is answered. -/
abbrev Call.Answer : Call → Type
  | .get .. | .post .. | .put .. | .delete .. => Except PveError Json
  | .rounds => Nat
  | .running .. => Bool
  | .probe _ => Except CoreError (Option Text)
  | .uuid => Text

/-- A question that changes nothing. -/
def Call.isRead : Call → Bool
  | .get .. | .rounds | .running .. | .probe _ | .uuid => true
  | _ => false

def Call.isDelete : Call → Bool
  | .delete .. => true
  | _ => false

theorem Call.isDelete_of_isRead {c : Call} (h : c.isRead = true) : c.isDelete = false := by
  cases c with
  | delete path query => cases h
  | _ => rfl

/-- An operation of the server. -/
abbrev Op (α : Type) := ExceptT CoreError (Prog Call Call.Answer) α

namespace Op

/-- An API call's outcome, with the error as it is. -/
def call (c : Call) : Op c.Answer := liftM (Prog.call c : Prog Call Call.Answer _)

/-- `?` on an API call. -/
def ofPve : Except PveError Json → Op Json
  | .ok v => pure v
  | .error e => throw (.pve e)

/-- `?` on a pure result. -/
def ofExcept {α : Type} : Except CoreError α → Op α
  | .ok a => pure a
  | .error e => throw e

def get (path : Path) (query : Form) : Op Json := do ofPve (← call (.get path query))

def post (path : Path) (form : Form) : Op Json := do ofPve (← call (.post path form))

def put (path : Path) (form : Form) : Op Json := do ofPve (← call (.put path form))

def delete (path : Path) (query : Form) : Op Json := do ofPve (← call (.delete path query))

/-- How often a loop goes round before its deadline. -/
def rounds : Op Nat := call .rounds

/-- A call under fixed answers. -/
theorem outcome_call {α : Type} (f : (c : Call) → c.Answer) (c : Call) (k : c.Answer → Op α) :
    Prog.outcome f (call c >>= k) = Prog.outcome f (k (f c)) := rfl

/-! ## Questions of an operation -/

section Asks

variable {α : Type} {P : Call → Prop}

theorem asks_call {c : Call} (h : P c) : (call c).run.Asks P := Prog.asks_lift ⟨h, fun _ => trivial⟩

theorem asks_ofExcept {x : Except CoreError α} : (ofExcept x).run.Asks P := by
  cases x <;> trivial

theorem asks_ofPve {x : Except PveError Json} : (ofPve x).run.Asks P := by
  cases x <;> trivial

theorem asks_get {path : Path} {query : Form} (h : P (.get path query)) : (get path query).run.Asks P :=
  Prog.asks_bind (asks_call h) fun _ => asks_ofPve

theorem asks_post {path : Path} {form : Form} (h : P (.post path form)) : (post path form).run.Asks P :=
  Prog.asks_bind (asks_call h) fun _ => asks_ofPve

theorem asks_ite {c : Prop} [Decidable c] {p q : Op α} (hp : p.run.Asks P) (hq : q.run.Asks P) :
    (if c then p else q).run.Asks P := by
  split
  · exact hp
  · exact hq

end Asks

/-! ## Operations that only read -/

/-- The operation asks reads only. -/
def Reads {α : Type} (p : Op α) : Prop := p.run.Asks fun c => c.isRead = true

namespace Reads

variable {α β : Type}

theorem pure {a : α} : Reads (Pure.pure a : Op α) := trivial

theorem throw {e : CoreError} : Reads (MonadExcept.throw e : Op α) := trivial

theorem bind {x : Op β} {f : β → Op α} (hx : Reads x) (hf : ∀ b, Reads (f b)) : Reads (x >>= f) :=
  Prog.asks_bind hx hf

theorem call {c : Call} (h : c.isRead = true) : Reads (Op.call c) := asks_call h

theorem ofExcept {x : Except CoreError α} : Reads (Op.ofExcept x) := asks_ofExcept

theorem get {path : Path} {query : Form} : Reads (Op.get path query) := asks_get rfl

theorem rounds : Reads Op.rounds := call rfl

theorem ite {c : Prop} [Decidable c] {p q : Op α} (hp : Reads p) (hq : Reads q) :
    Reads (if c then p else q) :=
  asks_ite hp hq

/-- A check that may refuse, and what follows it. -/
theorem guard {c : Prop} [Decidable c] {e : CoreError} {f : PUnit → Op α} (hf : ∀ u, Reads (f u)) :
    Reads (if c then MonadExcept.throw e >>= f else f PUnit.unit) :=
  ite (bind throw hf) (hf _)

theorem foldlM {f : β → α → Op β} (hf : ∀ b a, Reads (f b a)) (l : List α) (b : β) : Reads (l.foldlM f b) :=
  Prog.asks_foldlM hf l b

theorem forM {f : α → Op Unit} (hf : ∀ a, Reads (f a)) (l : List α) : Reads (l.forM f) := Prog.asks_forM hf l

end Reads

end Op

end HomeStack

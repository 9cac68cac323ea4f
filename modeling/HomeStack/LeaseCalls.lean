import HomeStack.VmCalls

/-! Acquiring and releasing a lease (`lease.rs`). -/

namespace HomeStack

open Op

/-- `node_of`: the node of a VM, `none` when it does not exist. -/
def nodeOf (vmid : Nat) : Op (Option Text) := do
  return ((← clusterVmResources).find? fun r => r.vmid = vmid).map StatusResource.node

def lostRace : CoreError → Bool
  | .pve error => Text.contains "checksum mismatch" error.toText
  | _ => false

namespace Lease

/-- `check`, asking the holder's instance whether it runs the job when the
lease is of another job of that instance. -/
def checkNow (vmid : Nat) (lease : Option Lease) (holder : Holder) : Op Unit := do
  match lease with
  | none => return
  | some l =>
    if l.inst = holder.inst ∧ l.job ≠ holder.job then
      let running ← call (.running holder.inst l.job)
      Op.ofExcept (check vmid (some l) holder fun _ => running)
    else Op.ofExcept (check vmid (some l) holder fun _ => false)

/-- One attempt of `acquire`: the configuration it read, and what became of
its write. -/
def tryAcquire (B : Base64) (S : Serde Lease) (node : Text) (vmid : Nat) (holder : Holder) :
    Op (VmConfig × Except CoreError Unit) := do
  let vmCfg ← vmConfig node vmid
  checkNow vmid (← Op.ofExcept (readLease B S vmCfg)) holder
  let description ← Op.ofExcept (descriptionWith B S vmCfg.description (some holder.lease))
  if description.length > descriptionMax then
    throw (.failed ("The HomeStack lease does not fit in the description of VM " ++ Text.ofNat vmid ++ " ("
      ++ Text.ofNat descriptionMax ++ " characters at most)"))
  let written ← Prog.attempt (setVmConfig node vmid [("description", description)] vmCfg["digest".toList]?)
  return (vmCfg, written)

def acquireLoop (B : Base64) (S : Serde Lease) (node : Text) (vmid : Nat) (holder : Holder) :
    Nat → Op (Option Acquisition)
  | 0 => throw (.busy ("VM " ++ Text.ofNat vmid
      ++ " is busy: its configuration kept changing while its lease was written."))
  | n + 1 => do
    match ← tryAcquire B S node vmid holder with
    | (vmCfg, .ok _) => return some ⟨vmid, vmCfg, ← vmConfig node vmid, holder.lease⟩
    | (_, .error e) => if lostRace e then acquireLoop B S node vmid holder n else throw e

/-- `acquire`: write the holder's lease on the VM. A VM that does not exist yet
is not leased. -/
def acquire (B : Base64) (S : Serde Lease) (vmid : Nat) (holder : Holder) : Op (Option Acquisition) := do
  match ← nodeOf vmid with
  | none => return none
  | some node => acquireLoop B S node vmid holder attempts

theorem acquireLoop_lease {B : Base64} {S : Serde Lease} {node : Text} {vmid : Nat} {holder : Holder}
    {n : Nat} {h t : List (Prog.Event Call Call.Answer)} {a : Acquisition}
    (hr : Prog.Ran (acquireLoop B S node vmid holder n) h (some a) t) :
    a.vmid = vmid ∧ a.lease = holder.lease := by
  induction n generalizing h with
  | zero => exact hr.throw.elim
  | succ n ih =>
    obtain ⟨⟨vmCfg, written⟩, s, -, hr⟩ := hr.bind
    cases written with
    | ok u =>
      obtain ⟨after, s', -, hr⟩ := hr.bind
      obtain ⟨hsome, -⟩ := hr.pure
      cases hsome
      exact ⟨rfl, rfl⟩
    | error e =>
      dsimp only at hr
      split at hr
      · exact ih hr
      · exact hr.throw.elim

/-- The lease on an acquisition is the holder's. -/
theorem acquire_lease {B : Base64} {S : Serde Lease} {vmid : Nat} {holder : Holder}
    {h t : List (Prog.Event Call Call.Answer)} {a : Acquisition}
    (hr : Prog.Ran (acquire B S vmid holder) h (some a) t) : a.vmid = vmid ∧ a.lease = holder.lease := by
  obtain ⟨node, s, -, hr⟩ := hr.bind
  cases node with
  | none =>
    obtain ⟨hsome, -⟩ := hr.pure
    cases hsome
  | some node => exact acquireLoop_lease hr

def releaseLoop (B : Base64) (S : Serde Lease) (vmid : Nat) (inst job : Text) : Nat → Op Unit
  | 0 => throw (.failed ("The lease of VM " ++ Text.ofNat vmid
      ++ " could not be removed: its configuration kept changing."))
  | n + 1 => do
    match ← nodeOf vmid with
    | none => return
    | some node =>
      let vmCfg ← vmConfig node vmid
      match ← Op.ofExcept (readLease B S vmCfg) with
      | none => return
      | some lease =>
        if lease.inst = inst ∧ lease.job = job then
          let description ← Op.ofExcept (descriptionWith B S vmCfg.description none)
          match ← Prog.attempt (setVmConfig node vmid (describeForm description) vmCfg["digest".toList]?) with
          | .ok _ => return
          | .error e => if lostRace e then releaseLoop B S vmid inst job n else throw e
        else return

def release (B : Base64) (S : Serde Lease) (vmid : Nat) (inst job : Text) : Op Unit :=
  releaseLoop B S vmid inst job attempts

end Lease

end HomeStack

import HomeStack.Description
import HomeStack.Inventory
import HomeStack.Lib.SerdeJson

/-! The lock between server instances (`lease.rs`): a lease in the VM's
description. This module has the reading, writing and checking of a lease;
`LeaseCalls` has the API calls around it. -/

namespace HomeStack

/-- One instance's claim on a VM. -/
structure Lease where
  inst : Text
  job : Text
  operation : Text
  acquiredAt : Nat
  expiresAt : Nat
  deriving DecidableEq, Repr

namespace Lease

def leaseStart : Text := "<!-- homestack-lease: "
def leaseEnd : Text := " -->"
def label : Text := "HomeStack lease"

/-- PVE's limit on `description`. -/
def descriptionMax : Nat := 8192

/-- Writes lost to another writer before giving up. -/
def attempts : Nat := 5

/-- How long a lease holds, in seconds. -/
def leaseTtl : Nat := 2 * 60 * 60

def unusable : CoreError := .unusable "The HomeStack lease in the VM description is not valid"

/-- A lease as it is printed. -/
def toJson (lease : Lease) : Json :=
  .obj [("instance", .str lease.inst), ("job", .str lease.job), ("operation", .str lease.operation),
    ("acquired_at", .int lease.acquiredAt), ("expires_at", .int lease.expiresAt)]

theorem toJson_whole (lease : Lease) : lease.toJson.Whole := by
  refine .obj ?_
  simp only [List.forall_mem_cons]
  exact ⟨.str _, .str _, .str _, .int _, .int _, by simp⟩

theorem toJson_injective : Function.Injective toJson := by
  rintro ⟨⟩ ⟨⟩ h
  simpa [toJson] using h

/-- Leases as JSON. -/
noncomputable def serde : Serde Lease := .ofJson toJson toJson_whole toJson_injective

end Lease

/-- The description of a configuration, empty when it has none. -/
def VmConfig.description (vmCfg : VmConfig) : Text := vmCfg["description".toList]?.getD []

def readLease (B : Base64) (S : Serde Lease) (vmCfg : VmConfig) : Except CoreError (Option Lease) := do
  match ← Description.find vmCfg.description Lease.leaseStart Lease.leaseEnd Lease.label with
  | none => return none
  | some found =>
    match B.decode (Text.trim found.payload) with
    | none => throw Lease.unusable
    | some bytes =>
      match S.fromSlice bytes with
      | none => throw Lease.unusable
      | some lease => return some lease

def Lease.descriptionWith (B : Base64) (S : Serde Lease) (current : Text) (lease : Option Lease) :
    Except CoreError Text :=
  Description.withBlock current leaseStart leaseEnd label (lease.map (Codec.encode B S))

/-- Who asks for a lease. `running` is what its instance says about the jobs
it runs. -/
structure Holder where
  inst : Text
  job : Text
  operation : Text
  now : Nat
  ttl : Nat
  deriving DecidableEq, Repr

/-- The refusal of a lease that another job holds. -/
def Lease.busy (vmid : Nat) (lease : Lease) (now : Nat) : CoreError :=
  let left := lease.expiresAt - now
  .busy ("VM " ++ Text.ofNat vmid ++ " is busy: instance " ++ lease.inst ++ " runs " ++ lease.operation
    ++ " (job " ++ lease.job ++ "); its lease ends in " ++ Text.ofNat ((left + 59) / 60)
    ++ " min unless that job ends first.")

/-- `lease::check`: whether a lease lets the holder work on the VM: none, its
own, expired, or the holder instance's for a job it no longer runs. -/
def Lease.check (vmid : Nat) (lease : Option Lease) (holder : Holder) (running : Text → Bool) :
    Except CoreError Unit :=
  match lease with
  | none => .ok ()
  | some lease =>
    let own := lease.inst = holder.inst
    if (own ∧ (lease.job = holder.job ∨ running lease.job = false)) ∨ lease.expiresAt ≤ holder.now then
      .ok ()
    else .error (lease.busy vmid holder.now)

/-- The lease a holder writes. -/
def Holder.lease (holder : Holder) : Lease where
  inst := holder.inst
  job := holder.job
  operation := holder.operation
  acquiredAt := holder.now
  expiresAt := holder.now + holder.ttl

/-- The exact configuration transition made while acquiring a job lease. -/
structure Acquisition where
  vmid : Nat
  before : VmConfig
  after : VmConfig
  lease : Lease

end HomeStack

import HomeStack.Lease

/-! Plans as the lifecycle operations read them, and the lease that a destroy
job adopts (`lifecycle.rs`). -/

namespace HomeStack

/-- `number`: a plan's unsigned field. -/
def number (plan : Json) (key : Text) : Except CoreError Nat :=
  match (plan.get key).bind Json.asU64 with
  | some n => .ok n
  | none => .error (.invalid ("The plan has no " ++ key))

def vmidOf (plan : Json) : Except CoreError Nat := do
  let n ← number plan "vmid"
  if n < 2 ^ 32 then return n else throw (.invalid "The plan's VMID is out of range")

/-- `text`: a plan's text field. -/
def planText (plan : Json) (key : Text) : Except CoreError Text :=
  match (plan.get key).bind Json.asStr with
  | some t => .ok t
  | none => .error (.invalid ("The plan has no " ++ key))

/-- `json!(config)` -/
def configJson (config : VmConfig) : Json := .obj (config.toList.map fun e => (e.1, .str e.2))

def leaseRefused : CoreError :=
  .refused "Workspace changed while acquiring its destroy lease; review a new plan"

def withReviewedConfig (plan : Json) (config : Json) : Json :=
  match plan with
  | .obj entries =>
    match Json.lookup "destructive_identity" entries with
    | some (.obj identity) =>
      .obj (Json.replace "destructive_identity" (.obj (Json.replace "config" config identity)) entries)
    | _ => plan
  | _ => plan

/-- `authorize_destroy_lease`: adopt only the exact description and digest
change made by this destroy job's lease. -/
def authorizeDestroyLease (B : Base64) (S : Serde Lease) (plan : Json) (acquired : Acquisition) :
    Except CoreError Json := do
  if (← vmidOf plan) ≠ acquired.vmid ∨ acquired.lease.operation ≠ "workspace.destroy" ∨
      acquired.lease.inst = [] ∨ acquired.lease.job = [] then
    throw leaseRefused
  match (plan.get "destructive_identity").bind fun identity => identity.get "config" with
  | none => throw leaseRefused
  | some reviewed =>
    if reviewed ≠ configJson acquired.before then throw leaseRefused
    let description ← Lease.descriptionWith B S acquired.before.description (some acquired.lease)
    let expected := acquired.before.insert "description" description
    match acquired.after["digest".toList]?.filter fun d => !d.isEmpty with
    | none => throw leaseRefused
    | some digest =>
      if expected.insert "digest" digest ≠ acquired.after then throw leaseRefused
      return withReviewedConfig plan (configJson acquired.after)

/-- The plan of a lease that was written on the reviewed configuration. -/
theorem authorizeDestroyLease_ok {B : Base64} {S : Serde Lease} {plan : Json} {acquired : Acquisition}
    {description digest : Text} (hvmid : vmidOf plan = .ok acquired.vmid)
    (hoperation : acquired.lease.operation = "workspace.destroy") (hinst : acquired.lease.inst ≠ [])
    (hjob : acquired.lease.job ≠ [])
    (hreviewed : ((plan.get "destructive_identity").bind fun identity => identity.get "config") =
      some (configJson acquired.before))
    (hdescription : Lease.descriptionWith B S acquired.before.description
      (some acquired.lease) = .ok description)
    (hdigest : digest ≠ [])
    (hafter : acquired.after = (acquired.before.insert "description" description).insert "digest" digest) :
    authorizeDestroyLease B S plan acquired = .ok (withReviewedConfig plan (configJson acquired.after)) := by
  have hget : (acquired.after["digest".toList]?.filter fun d => !d.isEmpty) = some digest := by
    rw [hafter, Std.ExtTreeMap.getElem?_insert_self, Option.filter_some, if_pos]
    simpa using hdigest
  simp only [authorizeDestroyLease, hvmid, bind, Except.bind, hreviewed, hdescription,
    hget, ← hafter, hoperation,
    hinst, hjob, ne_eq, not_true_eq_false, or_self, if_false]
  rfl

end HomeStack

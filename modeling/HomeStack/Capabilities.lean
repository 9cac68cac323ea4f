import HomeStack.Config
import Mathlib.Data.List.Sort

/-! Proxmox privileges each operation needs, and which of them a token is missing
(`hs-core/src/capabilities.rs`). -/

namespace HomeStack.Capabilities

inductive Operation
  | read | orphanScan | guestRead | goldReadiness | create | refresh | resize | migrate | destroy | addkey
  deriving DecidableEq, Repr

def Operation.all : List Operation :=
  [.read, .orphanScan, .guestRead, .goldReadiness, .create, .refresh, .resize, .migrate, .destroy, .addkey]

/-- A Proxmox privilege on an ACL path. -/
structure Privilege where
  path : Text
  privilege : Text
  deriving DecidableEq

/-- Which storages an operation allocates on. -/
inductive Storages
  | none | active | all
  deriving DecidableEq, Repr

structure Needs where
  /-- On the instance's pool. -/
  pool : List String
  gold : List String
  auditStorages : Bool
  allocate : Storages
  snippets : Bool

def needs : Operation → Needs
  | .read => ⟨["VM.Audit"], [], true, .none, false⟩
  | .orphanScan => ⟨["VM.Audit", "VM.Config.Disk"], [], true, .none, false⟩
  | .guestRead => ⟨["VM.Audit", "VM.GuestAgent.Audit"], [], false, .none, false⟩
  | .goldReadiness => ⟨[], ["VM.Audit"], false, .none, false⟩
  | .create =>
    ⟨["Pool.Audit", "VM.Allocate", "VM.Audit", "VM.Config.Cloudinit", "VM.Config.Disk", "VM.Config.Options",
      "VM.GuestAgent.Audit", "VM.GuestAgent.FileRead", "VM.Migrate", "VM.PowerMgmt"],
      ["VM.Audit", "VM.Clone"], false, .all, true⟩
  | .refresh =>
    ⟨["Pool.Audit", "VM.Audit", "VM.Config.Cloudinit", "VM.Config.Disk",
      "VM.Config.Options", "VM.GuestAgent.Audit",
      "VM.GuestAgent.Unrestricted", "VM.PowerMgmt"],
      ["VM.Audit", "VM.Clone"], false, .active, true⟩
  | .resize =>
    ⟨["Pool.Audit", "VM.Audit", "VM.Config.Disk", "VM.Config.Options", "VM.GuestAgent.Audit",
      "VM.GuestAgent.FileRead",
      "VM.GuestAgent.Unrestricted"], [], false, .all, false⟩
  | .migrate =>
    ⟨["Pool.Audit", "VM.Audit", "VM.Config.Options", "VM.GuestAgent.Audit",
      "VM.GuestAgent.FileRead", "VM.Migrate",
      "VM.PowerMgmt"], [], false, .all, false⟩
  | .destroy =>
    ⟨["Pool.Audit", "VM.Allocate", "VM.Audit", "VM.Config.Options", "VM.GuestAgent.Audit", "VM.PowerMgmt"],
      [], false, .none, false⟩
  | .addkey =>
    ⟨["Pool.Audit", "VM.Audit", "VM.Config.Cloudinit", "VM.Config.Options", "VM.GuestAgent.Audit",
      "VM.GuestAgent.FileRead", "VM.GuestAgent.Unrestricted", "VM.PowerMgmt"], [], false, .none, true⟩

/-- `homestack-storage-<N>` for the trailing number of the node name, or empty. -/
def activeLayoutName (node : Text) : Text :=
  let digits := (node.reverse.takeWhile Char.isDigit).reverse
  let number := digits.dropWhile (· = '0')
  if number = [] then [] else "homestack-storage-" ++ number

/-- Storages of the configured node. -/
def activeLayout (config : Config) : List Text :=
  (config.storageLayouts.lookup (activeLayoutName config.node)).getD []

def allStorages (config : Config) : List Text := config.storageLayouts.flatMap Prod.snd

/-- The storages an operation allocates on. -/
def allocated (config : Config) : Storages → List Text
  | .none => []
  | .active => activeLayout config
  | .all => allStorages config

theorem allocated_sub {config : Config} {storages : Storages} {storage : Text}
    (h : storage ∈ allocated config storages) : storage ∈ allStorages config := by
  cases storages with
  | none => cases h
  | all => exact h
  | active =>
    have hlayout : storage ∈ activeLayout config := h
    unfold activeLayout at hlayout
    cases hlookup : config.storageLayouts.lookup (activeLayoutName config.node) with
    | none =>
      rw [hlookup] at hlayout
      cases hlayout
    | some layout =>
      rw [hlookup] at hlayout
      obtain ⟨before, after, hsplit, -⟩ := List.lookup_eq_some_iff.mp hlookup
      unfold allStorages
      rw [hsplit]
      simp only [List.flatMap_append, List.flatMap_cons, List.mem_append]
      exact Or.inr (Or.inl hlayout)

/-- Privileges an operation needs, sorted and without duplicates. -/
def requirements (operation : Operation) (config : Config) (pool : Text) : List Privilege :=
  let needs := needs operation
  let required : List Privilege :=
    [⟨"/nodes", "Sys.Audit"⟩] ++
      (needs.pool.map fun privilege => ⟨"/pool/" ++ pool, privilege⟩) ++
      (config.goldVmid.toList.flatMap fun vmid =>
        needs.gold.map fun privilege => ⟨"/vms/" ++ Text.ofNat vmid, privilege⟩) ++
      (if needs.auditStorages then
        (allStorages config).map fun storage => ⟨"/storage/" ++ storage, "Datastore.Audit"⟩
      else []) ++
      ((allocated config needs.allocate).map fun storage =>
        ⟨"/storage/" ++ storage, "Datastore.AllocateSpace"⟩) ++
      (if needs.snippets then [⟨"/storage/" ++ config.cloudInit.snippetStorage, "Datastore.AllocateSpace"⟩]
      else [])
  required.dedup.insertionSort fun a b => [a.path, a.privilege] ≤ [b.path, b.privilege]

structure OperationCapability where
  operation : Operation
  available : Bool
  required : List Privilege
  missing : List Privilege

/-- Every operation with what it needs and what `granted` lacks. -/
def evaluate (config : Config) (pool : Text) (granted : Text → Text → Bool) : List OperationCapability :=
  Operation.all.map fun operation =>
    let required := requirements operation config pool
    let missing := required.filter fun p => !granted p.path p.privilege
    { operation
      available := missing.isEmpty && ((needs operation).gold.isEmpty || config.goldVmid.isSome)
      required
      missing }

end HomeStack.Capabilities

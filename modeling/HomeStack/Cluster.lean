import HomeStack.Pve

/-! Reads of the cluster and of a VM's configuration (`inventory.rs`). -/

namespace HomeStack

open Op

/-- A QEMU VM from `/cluster/resources`. -/
structure StatusResource where
  vmid : Nat
  node : Text
  name : Option Text
  status : Option Text
  tags : Option Text
  pool : Option Text
  deriving DecidableEq, Repr

/-- A node from `/nodes`. -/
structure NodeState where
  node : Text
  status : Text
  online : Bool
  deriving DecidableEq, Repr

/-- One item of `/nodes`. -/
def nodeState (item : Json) : Option NodeState :=
  if truthy (item.get "node") then
    let status := (Text.trim ((textOrNone (item.get "status")).getD "unknown")).map Char.toLower
    some
      { node := pyStr ((item.get "node").getD .null)
        status := status
        online := status ≠ "offline" }
  else none

/-- `cluster_node_statuses`: nodes by name, `online` unless Proxmox says
`offline`. -/
def clusterNodeStatuses : Op (List NodeState) := do
  match ← get .nodes [] with
  | .arr items =>
    let nodes := (items.filterMap nodeState).insertionSort fun a b => compare a.node b.node ≠ .gt
    if nodes.isEmpty then throw (.unusable "Proxmox cluster returned no nodes")
    return nodes
  | _ => throw (.unusable "Proxmox node inventory did not return a JSON array")

/-- One item of `/cluster/resources` as a VM with its VMID
(`cluster_vm_maps`). -/
def vmMap : Json → Option (Nat × List (Text × Json))
  | .obj map =>
    if (Json.lookup "type" map).bind Json.asStr = some "qemu".toList then
      (vmidValue (Json.lookup "vmid" map)).map fun vmid =>
        (vmid, Json.insert "vmid" (.int vmid) map)
    else none
  | _ => none

def clusterVmMaps : Op (List (Nat × List (Text × Json))) := do
  match ← get .clusterResources [("type", "vm")] with
  | .arr items => return items.filterMap vmMap
  | _ => throw (.unusable "Proxmox VM inventory did not return a JSON array")

/-- The fields of a resource that the operations read. -/
def statusResource (entry : Nat × List (Text × Json)) : StatusResource where
  vmid := entry.1
  node := (textOrNone (Json.lookup "node" entry.2)).getD []
  name := textOrNone (Json.lookup "name" entry.2)
  status := textOrNone (Json.lookup "status" entry.2)
  tags := textOrNone (Json.lookup "tags" entry.2)
  pool := textOrNone (Json.lookup "pool" entry.2)

/-- `cluster_vm_resources`: QEMU VMs by VMID. -/
def clusterVmResources : Op (List StatusResource) := do
  return ((← clusterVmMaps).map statusResource).insertionSort fun a b => a.vmid ≤ b.vmid

/-- A configuration's value as text. -/
def configValue (value : Json) : Text := if value.isNull then [] else pyStr value

/-- The entries of a config answer. -/
def parseConfig (map : List (Text × Json)) : VmConfig :=
  .ofList (map.map fun e => (e.1, configValue e.2))

theorem parseConfig_toList (c : VmConfig) : parseConfig (c.toList.map fun e => (e.1, .str e.2)) = c := by
  have hmap : (c.toList.map fun e => (e.1, Json.str e.2)).map (fun e => (e.1, configValue e.2)) =
      c.toList := by
    rw [List.map_map]
    exact List.map_id _
  unfold parseConfig
  rw [hmap]
  apply Std.ExtTreeMap.ext_getElem?
  intro key
  cases hkey : (c)[key]? with
  | some value =>
    exact Std.ExtTreeMap.getElem?_ofList_of_mem (by simp) Std.ExtTreeMap.distinct_keys_toList
      (Std.ExtTreeMap.mem_toList_iff_getElem?_eq_some.mpr hkey)
  | none =>
    apply Std.ExtTreeMap.getElem?_ofList_of_contains_eq_false
    rw [List.contains_eq_mem, decide_eq_false_iff_not]
    intro hm
    obtain ⟨e, he, rfl⟩ := List.mem_map.mp hm
    rw [Std.ExtTreeMap.mem_toList_iff_getElem?_eq_some.mp he] at hkey
    cases hkey

def vmConfig (node : Text) (vmid : Nat) : Op VmConfig := do
  match ← get (.config node vmid) [] with
  | .obj map => return parseConfig map
  | _ => throw (.unusable ("Proxmox config for VM " ++ Text.ofNat vmid ++ " on " ++ node
      ++ " did not return a JSON object"))

/-- `vm_status`: `absent` when the call fails, `unknown` when the answer is
unusable. -/
def vmStatus (node : Text) (vmid : Nat) : Op Text := do
  match ← call (.get (.statusCurrent node vmid) []) with
  | .error _ => return "absent"
  | .ok (.obj map) =>
    let status := (textOrNone (Json.lookup "status" map)).map Text.trim
    return (status.filter fun s => !s.isEmpty).getD "unknown"
  | .ok _ => return "unknown"

/-! ## What these ask -/

section Asks

variable {P : Call → Prop}

theorem asks_clusterVmMaps (h : P (.get .clusterResources [("type", "vm")])) : clusterVmMaps.run.Asks P := by
  refine Prog.asks_bind (asks_get h) fun v => ?_
  cases v <;> trivial

theorem asks_clusterVmResources (h : P (.get .clusterResources [("type", "vm")])) :
    clusterVmResources.run.Asks P :=
  Prog.asks_bind (asks_clusterVmMaps h) fun _ => trivial

theorem asks_vmConfig {node : Text} {vmid : Nat} (h : P (.get (.config node vmid) [])) :
    (vmConfig node vmid).run.Asks P := by
  refine Prog.asks_bind (asks_get h) fun v => ?_
  cases v <;> trivial

theorem asks_vmStatus {node : Text} {vmid : Nat} (h : P (.get (.statusCurrent node vmid) [])) :
    (vmStatus node vmid).run.Asks P := by
  refine Prog.asks_bind (asks_call h) fun r => ?_
  cases r with
  | error e => trivial
  | ok v => cases v <;> trivial

end Asks

theorem reads_clusterVmResources : Reads clusterVmResources := asks_clusterVmResources rfl

theorem reads_vmConfig (node : Text) (vmid : Nat) : Reads (vmConfig node vmid) := asks_vmConfig rfl

theorem reads_vmStatus (node : Text) (vmid : Nat) : Reads (vmStatus node vmid) := asks_vmStatus rfl

end HomeStack

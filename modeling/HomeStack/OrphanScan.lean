import HomeStack.Lib.Result
import HomeStack.Orphans

/-! What an orphan report says about the volumes of a cluster. A `World` has the
answers Proxmox gives while nothing changes and, beside them, every value it
keeps for a slot of a VM, also where it does not show it: on an offline node,
or in a slot whose deletion or replacement is pending. -/

namespace HomeStack

open Prog

/-- A cluster at rest. -/
structure World where
  answer : (c : Call) → c.Answer
  /-- The values of a VM's slots: a slot that runs with one value and shows
  another has both. -/
  entries : Nat → List (Text × Text)
  kept : ∀ {node : Text} {vmid : Nat} {c : VmConfig}, ConfigRead answer node vmid c → c.toList ⊆ entries vmid
  vmids : ∀ {rs : List StatusResource}, outcome answer clusterVmResources = .ok rs →
    (rs.map StatusResource.vmid).Nodup
  nodeNames : ∀ {ns : List NodeState}, outcome answer clusterNodeStatuses = .ok ns →
    (ns.map NodeState.node).Nodup

/-- A disk slot or an `unusedN` entry. -/
def IsVolumeSlot (slot : Text) : Prop := ∃ bus index, slotParts slot = some (bus, index) ∧ bus ∈ busOrder

/-- One of the slots has the volume. -/
def Uses (entries : List (Text × Text)) (volid : Text) : Prop :=
  ∃ slot value, (slot, value) ∈ entries ∧ IsVolumeSlot slot ∧ diskVolume value = volid

theorem mem_configVolumes {cfg : Config} {c : VmConfig} {volid : Text} (h : hasStorage volid = true) :
    volid ∈ configVolumes cfg c ↔ Uses c.toList volid := by
  have hne : volid ≠ [] := by
    rintro rfl
    cases h
  have hnone : volid ≠ "none" := by
    rintro rfl
    exact absurd h (by decide)
  simp only [configVolumes, vmVolumeInventory, List.mem_map, List.mem_insertionSort,
    List.mem_filterMap]
  constructor
  · rintro ⟨entry, ⟨⟨key, e⟩, ⟨⟨slot, value⟩, hm, he⟩, rfl⟩, rfl⟩
    simp only [volumeEntry, Option.bind_eq_bind, Option.bind_eq_some_iff] at he
    obtain ⟨⟨bus, index⟩, hslot, order, horder, he⟩ := he
    split at he
    · cases he
    · cases he
      refine ⟨slot, value, hm, ⟨bus, index, hslot, ?_⟩, rfl⟩
      exact List.isSome_idxOf?.mp (by simp [horder])
  · rintro ⟨slot, value, hm, ⟨bus, index, hslot, hbus⟩, rfl⟩
    obtain ⟨order, horder⟩ := Option.isSome_iff_exists.mp (List.isSome_idxOf?.mpr hbus)
    have he : ∃ e, volumeEntry cfg (!hasTag (c)["tags".toList]? alienWorkspaceTag) (slot, value) =
        some ((order, index), e) ∧ e.volume = diskVolume value := by
      simp only [volumeEntry, hslot, Option.bind_eq_bind, Option.bind_some, horder]
      rw [if_neg]
      · exact ⟨_, rfl, rfl⟩
      · rintro (h' | h' | h')
        · exact hne h'
        · exact hnone h'
        · rw [h] at h'
          cases h'
    obtain ⟨e, he, hv⟩ := he
    exact ⟨e, ⟨_, ⟨_, hm, he⟩, rfl⟩, hv⟩

/-! ## Reading the inventory -/

section Reading

variable {f : (c : Call) → c.Answer}

/-- A node of that name is online. -/
def Online (nodes : List NodeState) (name : Text) : Prop := ∃ n ∈ nodes, n.node = name ∧ n.online = true

theorem resourceOnline_iff (nodes : List NodeState) (r : StatusResource) :
    resourceOnline nodes r = true ↔ Online nodes r.node := by
  simp [resourceOnline, Online]

/-- With distinct names the last node of a name is the only one. -/
theorem nodeOnline_iff {nodes : List NodeState} (hn : (nodes.map NodeState.node).Nodup) (name : Text) :
    nodeOnline nodes name = true ↔ Online nodes name := by
  induction nodes with
  | nil => simp [nodeOnline, Online]
  | cons n nodes ih =>
    rw [List.map_cons, List.nodup_cons] at hn
    by_cases hname : n.node = name
    · have hf : nodes.filter (fun m => m.node == name) = [] := by
        rw [List.filter_eq_nil_iff]
        intro m hm
        rw [beq_iff_eq]
        rintro e
        exact hn.1 (hname ▸ e ▸ List.mem_map_of_mem hm)
      have hno : ∀ m ∈ nodes, m.node = name → False := by
        intro m hm e
        exact hn.1 (hname ▸ e ▸ List.mem_map_of_mem hm)
      simp only [nodeOnline, List.filter_cons, hname, beq_self_eq_true, ↓reduceIte, hf,
        List.getLast?_singleton, Option.map_some, Option.getD_some, Online, List.exists_mem_cons_iff,
        true_and]
      constructor
      · exact Or.inl
      · rintro (h | ⟨m, hm, e, -⟩)
        · exact h
        · exact absurd e (hno m hm)
    · have e : nodeOnline (n :: nodes) name = nodeOnline nodes name := by
        simp [nodeOnline, hname]
      rw [e, ih hn.2]
      simp [Online, hname]

/-- What `managed_configs` has for a managed VM. -/
def ManagedConfig (f : (c : Call) → c.Answer) (cfg : Config) (nodes : List NodeState)
    (r : StatusResource) (c : VmConfig) : Prop :=
  if nodeOnline nodes (managedNode cfg r) then ConfigRead f (managedNode cfg r) r.vmid c else c = ∅

theorem managedConfigs_spec (cfg : Config) (nodes : List NodeState) {managed : List StatusResource}
    (hd : (managed.map StatusResource.vmid).Nodup) {configs : Std.ExtTreeMap Nat VmConfig}
    (h : outcome f (managedConfigs cfg nodes managed) = .ok configs) :
    (∀ r ∈ managed, ∃ c, configs[r.vmid]? = some c ∧ ManagedConfig f cfg nodes r c) ∧
      ∀ vmid, vmid ∉ managed.map StatusResource.vmid → configs[vmid]? = none := by
  have go : ∀ (managed : List StatusResource) (before : Std.ExtTreeMap Nat VmConfig),
      (managed.map StatusResource.vmid).Nodup →
      outcome f (managed.foldlM (addManagedConfig cfg nodes) before) = .ok configs →
      (∀ r ∈ managed, ∃ c, configs[r.vmid]? = some c ∧ ManagedConfig f cfg nodes r c) ∧
        ∀ vmid, vmid ∉ managed.map StatusResource.vmid → configs[vmid]? = before[vmid]? := by
    intro managed
    induction managed with
    | nil =>
      intro before _ h
      cases h
      simp
    | cons r rs ih =>
      intro before hd h
      rw [List.map_cons, List.nodup_cons] at hd
      rw [List.foldlM_cons, outcome_bind, addManagedConfig, outcome_bind] at h
      obtain ⟨after, ha, h⟩ := Except.bind_ok h
      obtain ⟨c, hc, ha⟩ := Except.bind_ok ha
      cases ha
      obtain ⟨hrs, hother⟩ := ih _ hd.2 h
      refine ⟨?_, ?_⟩
      · intro r' hr'
        rcases List.mem_cons.mp hr' with rfl | hr'
        · refine ⟨c, ?_, ?_⟩
          · rw [hother _ hd.1]
            simp
          · unfold ManagedConfig
            unfold managedConfig at hc
            simp only at hc
            split at hc
            · next hon => rw [if_pos hon]; exact (outcome_vmConfig _ _ _).mp hc
            · next hon => rw [if_neg hon]; exact (Except.ok.inj hc).symm
        · exact hrs r' hr'
      · intro vmid hv
        rw [List.map_cons, List.mem_cons, not_or] at hv
        rw [hother vmid hv.2, Std.ExtTreeMap.getElem?_insert, if_neg]
        rw [Std.compare_eq_iff_eq]
        exact fun e => hv.1 e.symm
  obtain ⟨h₁, h₂⟩ := go managed ∅ hd h
  exact ⟨h₁, fun vmid hv => by rw [h₂ vmid hv]; simp⟩

end Reading

/-! ## What a report says -/

namespace World

variable (W : World) (cfg : Config)

/-- The inventory was read. -/
def Reads (inv : Inventory) : Prop := outcome W.answer (Inventory.read cfg) = .ok inv

/-- The scan of that inventory reported. -/
def Reports (inv : Inventory) (report : OrphanReport) : Prop :=
  outcome W.answer (inv.scanOrphans cfg) = .ok report

/-- No listed VM uses a reported volume. -/
def Sound : Prop :=
  ∀ inv report, W.Reads cfg inv → W.Reports cfg inv report →
    ∀ v ∈ report.volumes, ∀ r ∈ inv.resources, ¬ Uses (W.entries r.vmid) v.volid

/-- A complete report has every unused HomeStack volume of the assigned
storages. -/
def Exhaustive : Prop :=
  ∀ inv report, W.Reads cfg inv → W.Reports cfg inv report → report.complete = true →
    ∀ node ∈ inv.nodes, ∀ storage ∈ storageIdsForNode cfg node.node, ∀ volid identity,
      Listed W.answer node.node storage volid → volumeIdentity volid = some identity →
      (∀ r ∈ inv.resources, ¬ Uses (W.entries r.vmid) volid) → ∃ v ∈ report.volumes, v.volid = volid

/-- Every other VM on an online node has a readable configuration; that of
the managed VMs was read with the inventory. -/
def AllReadable (inv : Inventory) : Prop :=
  ∀ r ∈ inv.resources, isManaged cfg r = false → Online inv.nodes r.node →
    ∃ c, ConfigRead W.answer r.node r.vmid c

/-- The node a VM's configuration is read on. -/
def readNode (r : StatusResource) : Text := if isManaged cfg r then managedNode cfg r else r.node

/-- Some configuration that Proxmox shows uses the volume. -/
def ShownUsed (inv : Inventory) (volid : Text) : Prop :=
  ∃ r ∈ inv.resources, ∃ c, Online inv.nodes (readNode cfg r) ∧
    ConfigRead W.answer (readNode cfg r) r.vmid c ∧ Uses c.toList volid

/-- A scanned volume that is only used where Proxmox does not show it, on an
offline node or by a hidden value of a slot, carries the VMID of a VM on an
offline node. -/
def HiddenUseNamed : Prop :=
  ∀ inv, W.Reads cfg inv → W.AllReadable cfg inv → ∀ volid identity,
    Scanned W.answer cfg inv.nodes volid → volumeIdentity volid = some identity →
    (∃ r ∈ inv.resources, Uses (W.entries r.vmid) volid) → ¬ W.ShownUsed cfg inv volid →
    ∃ r ∈ inv.resources, ¬ Online inv.nodes r.node ∧ r.vmid = identity.vmid

variable {W cfg}

theorem reads_spec {inv : Inventory} (h : W.Reads cfg inv) :
    (inv.nodes.map NodeState.node).Nodup ∧
      (∀ vmid c, inv.configs[vmid]? = some c → ∃ r ∈ inv.resources, isManaged cfg r = true ∧
        r.vmid = vmid ∧ ManagedConfig W.answer cfg inv.nodes r c) ∧
      (∀ r ∈ inv.resources, r.vmid ∈ inv.configs ↔ isManaged cfg r = true) ∧
      ∀ r ∈ inv.resources, isManaged cfg r = true →
        ∃ c, inv.configs[r.vmid]? = some c ∧ ManagedConfig W.answer cfg inv.nodes r c := by
  unfold Reads Inventory.read at h
  rw [outcome_bind] at h
  obtain ⟨rs, hrs, h⟩ := Except.bind_ok h
  rw [outcome_bind] at h
  obtain ⟨ns, hns, h⟩ := Except.bind_ok h
  rw [outcome_bind] at h
  obtain ⟨configs, hc, h⟩ := Except.bind_ok h
  cases h
  have hd := W.vmids hrs
  have hsub : ((rs.filter (isManaged cfg)).map StatusResource.vmid).Sublist
      (rs.map StatusResource.vmid) := List.filter_sublist.map _
  obtain ⟨hmanaged, hother⟩ := managedConfigs_spec cfg ns (hd.sublist hsub) hc
  have hmem : ∀ r ∈ rs, isManaged cfg r = true → r ∈ rs.filter (isManaged cfg) :=
    fun r hr hm => List.mem_filter.mpr ⟨hr, hm⟩
  -- with distinct VMIDs an entry belongs to one VM
  have hsome : ∀ vmid c, configs[vmid]? = some c → ∃ r ∈ rs, isManaged cfg r = true ∧
      r.vmid = vmid ∧ ManagedConfig W.answer cfg ns r c := by
    intro vmid c hv
    by_cases hm : vmid ∈ (rs.filter (isManaged cfg)).map StatusResource.vmid
    · obtain ⟨r, hr, rfl⟩ := List.mem_map.mp hm
      obtain ⟨c', hc', hcfg⟩ := hmanaged r hr
      rw [hv] at hc'
      cases hc'
      exact ⟨r, (List.mem_filter.mp hr).1, (List.mem_filter.mp hr).2, rfl, hcfg⟩
    · rw [hother vmid hm] at hv
      cases hv
  refine ⟨W.nodeNames hns, hsome, ?_, fun r hr hm => hmanaged r (hmem r hr hm)⟩
  intro r hr
  rw [Std.ExtTreeMap.mem_iff_isSome_getElem?]
  constructor
  · intro hv
    obtain ⟨c, hv⟩ := Option.isSome_iff_exists.mp hv
    obtain ⟨r', hr', hm', e, -⟩ := hsome _ c hv
    rwa [List.inj_on_of_nodup_map hd hr' hr e] at hm'
  · intro hm
    obtain ⟨c, hc, -⟩ := hmanaged r (hmem r hr hm)
    simp [hc]

/-- The references that the scan collects are the uses that Proxmox shows. -/
theorem referenced_iff {inv : Inventory} (h : W.Reads cfg inv) {refs : References}
    (hrefs : Refs W.answer cfg inv inv.resources
      { referenced := (inv.configs.toList.map Prod.snd).flatMap (configVolumes cfg) } refs)
    {volid : Text} (hs : hasStorage volid = true) :
    volid ∈ refs.referenced ↔ W.ShownUsed cfg inv volid := by
  obtain ⟨hnodes, hsome, hmem, hmanaged⟩ := reads_spec h
  rw [hrefs.referenced]
  constructor
  · rintro (hv | ⟨r, hr, hon, hno, c, hc, hv⟩)
    · obtain ⟨c, hc, hv⟩ := List.mem_flatMap.mp hv
      obtain ⟨⟨vmid, c'⟩, hm, rfl⟩ := List.mem_map.mp hc
      obtain ⟨r, hr, hman, rfl, hcfg⟩ :=
        hsome vmid c' (Std.ExtTreeMap.mem_toList_iff_getElem?_eq_some.mp hm)
      have huse := (mem_configVolumes hs).mp hv
      unfold ManagedConfig at hcfg
      split at hcfg
      · next hon =>
        refine ⟨r, hr, c', ?_, ?_, huse⟩
        · rw [readNode, if_pos hman]
          exact (nodeOnline_iff hnodes _).mp hon
        · rw [readNode, if_pos hman]
          exact hcfg
      · subst hcfg
        obtain ⟨slot, value, hm, -⟩ := huse
        simp at hm
    · have hman : ¬ isManaged cfg r = true := fun hman => hno ((hmem r hr).mpr hman)
      refine ⟨r, hr, c, ?_, ?_, (mem_configVolumes hs).mp hv⟩
      · rw [readNode, if_neg hman]
        exact (resourceOnline_iff _ r).mp hon
      · rw [readNode, if_neg hman]
        exact hc
  · rintro ⟨r, hr, c, hon, hc, huse⟩
    have hv : volid ∈ configVolumes cfg c := (mem_configVolumes hs).mpr huse
    unfold readNode at hon hc
    split at hon
    · next hman =>
      rw [if_pos hman] at hc
      obtain ⟨c', hget, hcfg⟩ := hmanaged r hr hman
      rw [ManagedConfig, if_pos ((nodeOnline_iff hnodes _).mpr hon)] at hcfg
      have e : c' = c := by
        have h₁ := (outcome_vmConfig _ _ _).mpr hcfg
        rw [(outcome_vmConfig _ _ _).mpr hc] at h₁
        exact (Except.ok.inj h₁).symm
      subst e
      refine Or.inl (List.mem_flatMap.mpr ⟨c', List.mem_map.mpr ⟨(r.vmid, c'), ?_, rfl⟩, hv⟩)
      exact Std.ExtTreeMap.mem_toList_iff_getElem?_eq_some.mpr hget
    · next hman =>
      rw [if_neg hman] at hc
      exact Or.inr ⟨r, hr, (resourceOnline_iff _ r).mpr hon, fun hm => hman ((hmem r hr).mp hm), c, hc, hv⟩

/-- What the scan of a read inventory reports. -/
structure Reported (W : World) (cfg : Config) (inv : Inventory) (report : OrphanReport) : Prop where
  volumes : ∀ v ∈ report.volumes, W.AllReadable cfg inv ∧ Scanned W.answer cfg inv.nodes v.volid ∧
    ¬ W.ShownUsed cfg inv v.volid ∧ ∃ identity, volumeIdentity v.volid = some identity ∧
      ∀ r ∈ inv.resources, ¬ Online inv.nodes r.node → r.vmid ≠ identity.vmid
  all : W.AllReadable cfg inv → ∀ volid identity, Scanned W.answer cfg inv.nodes volid →
    volumeIdentity volid = some identity → ¬ W.ShownUsed cfg inv volid →
    (∀ r ∈ inv.resources, ¬ Online inv.nodes r.node → r.vmid ≠ identity.vmid) →
    ∃ v ∈ report.volumes, v.volid = volid
  complete : report.complete = true → W.AllReadable cfg inv ∧
    (∀ r ∈ inv.resources, Online inv.nodes r.node) ∧
    ∀ node ∈ inv.nodes, NodeRead W.answer cfg node ∧
      (node.online = true ∨ assignedStorages cfg node.node = [])

theorem reports_spec {inv : Inventory} (h : W.Reads cfg inv) :
    ∃ report, W.Reports cfg inv report ∧ Reported W cfg inv report := by
  obtain ⟨refs, hrun, hrefs⟩ := references_spec (f := W.answer) cfg inv inv.resources
    { referenced := (inv.configs.toList.map Prod.snd).flatMap (configVolumes cfg) }
  obtain ⟨volumes, warnings, complete, hscan, hvol, hall, hcomp⟩ :=
    orphanedVolumes_spec (f := W.answer) cfg refs.referenced inv.nodes
  obtain ⟨-, -, hmem, -⟩ := reads_spec h
  have hread : refs.warnings = [] ↔ W.AllReadable cfg inv := by
    rw [hrefs.warnings]
    simp only [true_and, AllReadable]
    refine forall₂_congr fun r hr => ?_
    rw [resourceOnline_iff, hmem r hr, Bool.not_eq_true]
    exact ⟨fun hh hm ho => hh ho hm, fun hh ho hm => hh hm ho⟩
  have hoff : ∀ vmid, vmid ∈ refs.offline ↔
      ∃ r ∈ inv.resources, ¬ Online inv.nodes r.node ∧ r.vmid = vmid := by
    intro vmid
    rw [hrefs.offline]
    simp [← resourceOnline_iff]
  refine ⟨_, by
    unfold Reports Inventory.scanOrphans
    rw [outcome_bind, hrun]
    change outcome W.answer (_ >>= _) = _
    rw [outcome_bind, hscan]
    rfl, ?_, ?_, ?_⟩
  · intro v hv
    obtain ⟨hv, hvoff⟩ := List.mem_filter.mp hv
    split at hv
    · next hw =>
      obtain ⟨hs, hno, identity, hid, hvmid⟩ := hvol v hv
      refine ⟨hread.mp (by simpa using hw), hs, ?_, identity, hid, ?_⟩
      · rwa [← referenced_iff h hrefs (volumeIdentity_volid hid).2]
      · intro r hr ho e
        have : v.vmid ∈ refs.offline := (hoff v.vmid).mpr ⟨r, hr, ho, e.trans hvmid⟩
        simp [this] at hvoff
    · cases hv
  · intro hr volid identity hs hid hno hother
    obtain ⟨v, hv, rfl⟩ := hall volid identity hs
      (by rwa [referenced_iff h hrefs (volumeIdentity_volid hid).2]) hid
    obtain ⟨-, -, identity', hid', hvmid⟩ := hvol v hv
    rw [hid] at hid'
    cases hid'
    refine ⟨v, List.mem_filter.mpr ⟨?_, ?_⟩, rfl⟩
    · rw [if_pos (by simpa using hread.mpr hr)]
      exact hv
    · have : v.vmid ∉ refs.offline := by
        rw [hoff]
        rintro ⟨r, hr, ho, e⟩
        exact hother r hr ho (e.trans hvmid.symm)
      simpa using this
  · intro hc
    simp only [Bool.and_eq_true, List.isEmpty_iff] at hc
    refine ⟨hread.mp hc.1.2, ?_, hcomp hc.1.1⟩
    intro r hr
    by_contra ho
    have : r.vmid ∈ refs.offline := (hoff r.vmid).mpr ⟨r, hr, ho, rfl⟩
    rw [hc.2] at this
    cases this

theorem reported {inv : Inventory} {report : OrphanReport} (h : W.Reads cfg inv)
    (hr : W.Reports cfg inv report) : Reported W cfg inv report := by
  obtain ⟨report', hr', hrep⟩ := reports_spec h
  cases hr.symm.trans hr'
  exact hrep

theorem shownUsed_uses {inv : Inventory} {volid : Text} (h : W.ShownUsed cfg inv volid) :
    ∃ r ∈ inv.resources, Uses (W.entries r.vmid) volid := by
  obtain ⟨r, hm, c, -, hc, slot, value, hs, hslot, hv⟩ := h
  exact ⟨r, hm, slot, value, W.kept hc hs, hslot, hv⟩

theorem exhaustive : W.Exhaustive cfg := by
  intro inv report h hr hc node hn storage hs volid identity hl hid hu
  have hrep := reported h hr
  obtain ⟨hread, honline, hnodes⟩ := hrep.complete hc
  have hassigned : storage ∈ assignedStorages cfg node.node := by
    simpa [assignedStorages] using hs
  obtain ⟨hnode, hon⟩ := hnodes node hn
  have hon : node.online = true := by
    rcases hon with hon | hon
    · exact hon
    · rw [hon] at hassigned
      cases hassigned
  refine hrep.all hread volid identity ?_ hid ?_ ?_
  · exact ⟨node, hn, hon, List.ne_nil_of_mem hassigned, storage, ((hnode hon).2 storage hassigned).1, hl⟩
  · intro hshown
    obtain ⟨r, hm, huse⟩ := shownUsed_uses hshown
    exact hu r hm huse
  · intro r hm hoff
    exact absurd (honline r hm) hoff

/-- **The orphan scan.** A report is sound and exhaustive exactly when no
scanned volume is used only out of sight under a foreign VMID. -/
theorem orphan_report_iff (W : World) (cfg : Config) :
    (W.Sound cfg ∧ W.Exhaustive cfg) ↔ W.HiddenUseNamed cfg := by
  constructor
  · rintro ⟨hsound, -⟩ inv h hread volid identity hs hid huse hshown
    by_contra hno
    simp only [not_exists, not_and] at hno
    obtain ⟨report, hr, hrep⟩ := reports_spec h
    obtain ⟨v, hv, rfl⟩ := hrep.all hread volid identity hs hid hshown fun r hm hoff => hno r hm hoff
    obtain ⟨r, hm, hu⟩ := huse
    exact hsound inv report h hr v hv r hm hu
  · intro hnamed
    refine ⟨?_, exhaustive⟩
    intro inv report h hr v hv r hm huse
    obtain ⟨hread, hs, hshown, identity, hid, hoff⟩ := (reported h hr).volumes v hv
    obtain ⟨r', hm', hoff', e⟩ := hnamed inv h hread v.volid identity hs hid ⟨r, hm, huse⟩ hshown
    exact hoff r' hm' hoff' e

/-! ## A home that is reported as an orphan -/

/-- Node `pve1` with the shared storage `ceph`, and `pve2`, which is offline. -/
def offlineNodes : Json :=
  .arr [.obj [("node", .str "pve1"), ("status", .str "online")],
    .obj [("node", .str "pve2"), ("status", .str "offline")]]

/-- VM 200 on `pve2`. -/
def offlineVm : Json :=
  .arr [.obj [("node", .str "pve2"), ("type", .str "qemu"), ("vmid", .int 200)]]

/-- The answers while `pve2` is offline: no configuration can be read. -/
def offlineAnswer : (c : Call) → c.Answer
  | .get .nodes _ => .ok offlineNodes
  | .get .clusterResources _ => .ok offlineVm
  | .get (.nodeStorage _) _ =>
    .ok (.arr [.obj [("content", .str "images"), ("storage", .str "ceph")]])
  | .get (.storageContent _ _) _ => .ok (.arr [.obj [("volid", .str "ceph:vm-100-hs-home-a")]])
  | .get _ _ | .post _ _ | .put _ _ | .delete _ _ => .error .unauthorized
  | .rounds => 0
  | .running _ _ => true
  | .probe _ => .ok none
  | .uuid => []

/-- A home made for VM 100 and attached to VM 200, which is on `pve2`. -/
def movedHome : World where
  answer := offlineAnswer
  entries vmid := if vmid = 200 then [("scsi1", "ceph:vm-100-hs-home-a,size=32G")] else []
  kept := by
    rintro node vmid c ⟨map, h, -⟩
    cases h
  vmids := by
    intro rs h
    cases (rfl : outcome offlineAnswer clusterVmResources =
      .ok [⟨200, "pve2".toList, none, none, none, none⟩]).symm.trans h
    decide
  nodeNames := by
    intro ns h
    cases (rfl : outcome offlineAnswer clusterNodeStatuses =
      .ok [⟨"pve1".toList, "online".toList, true⟩, ⟨"pve2".toList, "offline".toList, false⟩]).symm.trans h
    decide

def cephConfig : Config := { sampleConfig with storageLayouts := [("homestack-storage-1", ["ceph"])] }

/-- What is read while `pve2` is offline. -/
def offlineInventory : Inventory where
  resources := [⟨200, "pve2".toList, none, none, none, none⟩]
  nodes := [⟨"pve1".toList, "online".toList, true⟩, ⟨"pve2".toList, "offline".toList, false⟩]
  configs := ∅

theorem moved_home_volumes :
    ((outcome offlineAnswer (offlineInventory.scanOrphans cephConfig)).toOption.map fun report =>
      report.volumes.map OrphanVolume.volid) = some ["ceph:vm-100-hs-home-a".toList] := by
  decide +kernel

theorem moved_home_uses : Uses (movedHome.entries 200) "ceph:vm-100-hs-home-a" := by
  refine ⟨"scsi1".toList, "ceph:vm-100-hs-home-a,size=32G".toList, List.mem_singleton_self _,
    ⟨"scsi".toList, 1, ?_, ?_⟩, ?_⟩
  all_goals decide

/-- The scan reports the home of VM 200. -/
theorem moved_home_reported : ¬ movedHome.Sound cephConfig := by
  intro h
  have hread : movedHome.Reads cephConfig offlineInventory := rfl
  obtain ⟨report, hrep, -⟩ := reports_spec hread
  have hvol := moved_home_volumes
  rw [show outcome offlineAnswer (offlineInventory.scanOrphans cephConfig) = .ok report from hrep] at hvol
  have hvol : report.volumes.map OrphanVolume.volid = ["ceph:vm-100-hs-home-a".toList] :=
    Option.some.inj hvol
  obtain ⟨v, hv, hid⟩ := List.mem_map.mp
    (show "ceph:vm-100-hs-home-a".toList ∈ report.volumes.map OrphanVolume.volid by
      rw [hvol]
      exact List.mem_cons_self)
  have hno := h offlineInventory report hread hrep v hv _ List.mem_cons_self
  rw [hid] at hno
  exact hno moved_home_uses

end World

end HomeStack

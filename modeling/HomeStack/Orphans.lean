import HomeStack.Cluster

/-! The orphan scan (`status.rs`): HomeStack volumes on the layouts' image
storages that no VM uses. -/

namespace HomeStack

open Op

/-- `status_resources`: Gold and VMs tagged as workspaces. -/
def isManaged (cfg : Config) (item : StatusResource) : Bool :=
  some item.vmid = cfg.goldVmid || hasTag item.tags workspaceTag || hasTag item.tags alienWorkspaceTag

/-- The node a managed VM is read on. -/
def managedNode (cfg : Config) (item : StatusResource) : Text :=
  if item.node.isEmpty then cfg.node else item.node

/-- The state of a node as `by_name` has it: the last one of that name. -/
def nodeOnline (nodes : List NodeState) (name : Text) : Bool :=
  ((nodes.filter fun n => n.node == name).getLast?.map NodeState.online).getD false

/-- The configuration of a managed VM on an online node, empty otherwise. -/
def managedConfig (cfg : Config) (nodes : List NodeState) (item : StatusResource) : Op VmConfig :=
  let node := managedNode cfg item
  if nodeOnline nodes node then vmConfig node item.vmid else pure ∅

/-- One VM of `managed_configs`. -/
def addManagedConfig (cfg : Config) (nodes : List NodeState) (configs : Std.ExtTreeMap Nat VmConfig)
    (item : StatusResource) : Op (Std.ExtTreeMap Nat VmConfig) := do
  return configs.insert item.vmid (← managedConfig cfg nodes item)

def managedConfigs (cfg : Config) (nodes : List NodeState) (managed : List StatusResource) :
    Op (Std.ExtTreeMap Nat VmConfig) :=
  managed.foldlM (addManagedConfig cfg nodes) ∅

structure Inventory where
  resources : List StatusResource
  nodes : List NodeState
  configs : Std.ExtTreeMap Nat VmConfig

def Inventory.read (cfg : Config) : Op Inventory := do
  let resources ← clusterVmResources
  let nodes ← clusterNodeStatuses
  let configs ← managedConfigs cfg nodes (resources.filter (isManaged cfg))
  return { resources := resources, nodes := nodes, configs := configs }

structure OrphanVolume where
  volid : Text
  vmid : Nat
  role : Text
  name : Text
  sizeBytes : Option Nat
  storage : Text
  node : Text
  deriving DecidableEq, Repr

/-- What `orphaned_volumes` collects. -/
structure Scan where
  found : Std.ExtTreeMap Text OrphanVolume := ∅
  warnings : List Text := []
  complete : Bool := true

/-- The storages assigned to a node, in order. -/
def assignedStorages (cfg : Config) (node : Text) : List Text :=
  ((storageIdsForNode cfg node).insertionSort fun a b => compare a b ≠ .gt).dedup

/-- A storage of a node's inventory that the scan reads: assigned, for images,
enabled and active. -/
def imageStorage (assigned : List Text) (info : Json) : Option Text :=
  match info with
  | .obj map =>
    let storage := Text.trim ((textOrNone (Json.lookup "storage" map)).getD [])
    let content := (((((Json.lookup "content" map).bind Json.asStr).getD []).splitOn ',').map
      Text.trim).filter
      fun t => !t.isEmpty
    if storage = [] ∨ storage ∉ assigned ∨ "images".toList ∉ content then none
    else if integerValue (Json.lookup "enabled" map) = some 0 ∨
        integerValue (Json.lookup "active" map) = some 0 then none
    else some storage
  | _ => none

/-- The volume ID of an entry of a storage's content. -/
def entryVolid (entry : Json) : Option Text :=
  match entry with
  | .obj map => some (Text.trim ((textOrNone (Json.lookup "volid" map)).getD []))
  | _ => none

/-- One entry of a storage's content. -/
def addOrphan (attached : List Text) (storage node : Text) (found : Std.ExtTreeMap Text OrphanVolume)
    (entry : Json) : Std.ExtTreeMap Text OrphanVolume :=
  match entryVolid entry with
  | none => found
  | some volid =>
    match volumeIdentity volid with
    | none => found
    | some identity =>
      if attached.contains volid then found
      else
        found.insertIfNew volid
          { volid := identity.volid
            vmid := identity.vmid
            role := identity.role
            name := identity.name
            sizeBytes := (integerValue (entry.get "size")).bind fun n => if 0 ≤ n then some n.toNat else none
            storage := storage
            node := node }

def Scan.warn (scan : Scan) (text : Text) : Scan := { scan with warnings := scan.warnings ++ [text] }

/-- One image storage of a node. -/
def scanStorage (attached : List Text) (node : Text) (scan : Scan) (storage : Text) : Op Scan := do
  match ← call (.get (.storageContent node storage) [("content", "images")]) with
  | .ok (.arr entries) =>
    return { scan with found := entries.foldl (addOrphan attached storage node) scan.found }
  | .ok _ =>
    return scan.warn ("Storage content on " ++ storage ++ " (" ++ node ++ ") did not return a JSON array")
  | .error e =>
    return scan.warn ("Cannot inspect image volumes on " ++ storage ++ " (" ++ node ++ "): " ++ e.toText)

/-- The warnings for assigned storages that are not scanned. -/
def unavailable (name : Text) (assigned imageStorages : List Text) : List Text :=
  (assigned.filter (· ∉ imageStorages)).map fun storage =>
    "Assigned HomeStack storage '" ++ storage ++ "' is unavailable for image scanning on " ++ name

/-- The image storages of one node. -/
def scanStorages (attached : List Text) (name : Text) (assigned imageStorages : List Text) (scan : Scan) :
    Op Scan :=
  let scan := { scan with warnings := scan.warnings ++ unavailable name assigned imageStorages }
  imageStorages.foldlM (scanStorage attached name) scan

/-- One node. -/
def scanNode (cfg : Config) (attached : List Text) (scan : Scan) (node : NodeState) : Op Scan := do
  let name := node.node
  let assigned := assignedStorages cfg name
  if !node.online then
    return { scan with complete := scan.complete && assigned.isEmpty }
  match ← call (.get (.nodeStorage name) []) with
  | .ok (.arr infos) =>
    if assigned.isEmpty then return scan
    scanStorages attached name assigned (infos.filterMap (imageStorage assigned)) scan
  | .ok _ => return scan.warn ("Storage inventory on " ++ name ++ " did not return a JSON array")
  | .error e => return scan.warn ("Cannot inspect storages on " ++ name ++ ": " ++ e.toText)

def orphanedVolumes (cfg : Config) (attached : List Text) (nodes : List NodeState) :
    Op (List OrphanVolume × List Text × Bool) := do
  let scan ← nodes.foldlM (scanNode cfg attached) {}
  return (scan.found.toList.map Prod.snd, scan.warnings, scan.complete && scan.warnings.isEmpty)

/-- The volumes of a configuration. -/
def configVolumes (cfg : Config) (config : VmConfig) : List Text :=
  (vmVolumeInventory config cfg).map VolumeEntry.volume

/-- What the first loop of `scan_orphans` collects. -/
structure References where
  referenced : List Text
  warnings : List Text := []
  offline : List Nat := []

/-- A VM listed on a node that is online. -/
def resourceOnline (nodes : List NodeState) (resource : StatusResource) : Bool :=
  nodes.any fun node => node.node == resource.node && node.online

/-- One VM of the first loop. -/
def addReferences (cfg : Config) (inv : Inventory) (refs : References) (resource : StatusResource) :
    Op References := do
  if !resourceOnline inv.nodes resource then
    return { refs with offline := resource.vmid :: refs.offline }
  if inv.configs.contains resource.vmid then return refs
  match ← Prog.attempt (vmConfig resource.node resource.vmid) with
  | .ok config => return { refs with referenced := refs.referenced ++ configVolumes cfg config }
  | .error e =>
    return { refs with warnings := refs.warnings ++
      ["Cannot verify volume references of VM " ++ Text.ofNat resource.vmid ++ " on " ++ resource.node
        ++ ": " ++ e.toText] }

/-- What `scan_orphans` returns. -/
structure OrphanReport where
  volumes : List OrphanVolume
  warnings : List Text
  complete : Bool

def Inventory.scanOrphans (cfg : Config) (inv : Inventory) : Op OrphanReport := do
  let refs ← inv.resources.foldlM (addReferences cfg inv)
    { referenced := (inv.configs.toList.map Prod.snd).flatMap (configVolumes cfg) }
  let referencesComplete := refs.warnings.isEmpty
  let (volumes, storageWarnings, complete) ← orphanedVolumes cfg refs.referenced inv.nodes
  -- an unreadable VM may reference any candidate
  let volumes := if referencesComplete then volumes else []
  return { volumes := volumes.filter fun v => !refs.offline.contains v.vmid
           warnings := refs.warnings ++ storageWarnings
           complete := complete && referencesComplete && refs.offline.isEmpty }

/-! ## What the scan finds

Everything here is for fixed answers `f`: the cluster does not change while it
is read. -/

section FixedAnswers

variable {f : (c : Call) → c.Answer}

open Prog

/-- `f` lists `volid` among the images of a node's storage. -/
def Listed (f : (c : Call) → c.Answer) (node storage volid : Text) : Prop :=
  ∃ entries entry, f (.get (.storageContent node storage) [("content", "images")]) = .ok (.arr entries) ∧
    entry ∈ entries ∧ entryVolid entry = some volid

/-- The found volumes carry the identity of their volume ID. -/
def Keyed (found : Std.ExtTreeMap Text OrphanVolume) : Prop :=
  ∀ volid v, found[volid]? = some v → v.volid = volid ∧
    ∃ identity, volumeIdentity volid = some identity ∧ identity.vmid = v.vmid

/-- One part of the scan: which volumes it adds, when it adds no warning, and
when it stays complete. -/
structure Adds (P : Text → Prop) (quiet covered : Prop) (scan scan' : Scan) : Prop where
  found : ∀ volid, volid ∈ scan'.found ↔ volid ∈ scan.found ∨ P volid
  warnings : scan'.warnings = [] ↔ scan.warnings = [] ∧ quiet
  complete : scan'.complete = true ↔ scan.complete = true ∧ covered
  keyed : Keyed scan.found → Keyed scan'.found

namespace Adds

variable {P P' : Text → Prop} {q q' c c' : Prop} {s s' s'' : Scan}

theorem refl (s : Scan) : Adds (fun _ => False) True True s s where
  found := by simp
  warnings := by simp
  complete := by simp
  keyed := id

theorem trans (h : Adds P q c s s') (h' : Adds P' q' c' s' s'') :
    Adds (fun v => P v ∨ P' v) (q ∧ q') (c ∧ c') s s'' where
  found := by
    intro v
    rw [h'.found, h.found, or_assoc]
  warnings := by rw [h'.warnings, h.warnings, and_assoc]
  complete := by rw [h'.complete, h.complete, and_assoc]
  keyed := fun hk => h'.keyed (h.keyed hk)

theorem congr (h : Adds P q c s s') (hP : ∀ v, P v ↔ P' v) (hq : q ↔ q') (hc : c ↔ c') :
    Adds P' q' c' s s' where
  found := fun v => by rw [h.found, hP]
  warnings := by rw [h.warnings, hq]
  complete := by rw [h.complete, hc]
  keyed := h.keyed

/-- A loop adds what its steps add. -/
theorem foldlM {α : Type} {g : Scan → α → Op Scan} {P : α → Text → Prop} {q c : α → Prop}
    (step : ∀ s a, ∃ s', outcome f (g s a) = .ok s' ∧ Adds (P a) (q a) (c a) s s') (l : List α)
    (s : Scan) :
    ∃ s', outcome f (l.foldlM g s) = .ok s' ∧
      Adds (fun v => ∃ a ∈ l, P a v) (∀ a ∈ l, q a) (∀ a ∈ l, c a) s s' := by
  induction l generalizing s with
  | nil => exact ⟨s, rfl, (refl s).congr (by simp) (by simp) (by simp)⟩
  | cons a l ih =>
    obtain ⟨s', hs, ha⟩ := step s a
    obtain ⟨s'', hs', hl⟩ := ih s'
    refine ⟨s'', ?_, (ha.trans hl).congr (by simp) (by simp) (by simp)⟩
    rw [List.foldlM_cons, outcome_bind, hs]
    exact hs'

end Adds

/-- A volume that a listing gives as an orphan. -/
def Candidate (attached : List Text) (volid : Text) : Prop :=
  (∃ identity, volumeIdentity volid = some identity) ∧ volid ∉ attached

theorem volumeIdentity_volid {volid : Text} {identity : VolumeIdentity}
    (h : volumeIdentity volid = some identity) : identity.volid = volid ∧ hasStorage volid = true := by
  simp only [volumeIdentity, Option.bind_eq_bind, Option.bind_eq_some_iff] at h
  obtain ⟨⟨before, path⟩, hcolon, _, _, _, _, h⟩ := h
  have hs : hasStorage volid = true := by
    rw [Text.splitOnce_some hcolon]
    simp [hasStorage]
  refine ⟨?_, hs⟩
  split at h
  · cases h
  · simp only [Option.bind_eq_some_iff] at h
    obtain ⟨_, _, h⟩ := h
    split at h
    · cases h
    · simp only [Option.bind_eq_some_iff] at h
      obtain ⟨_, _, h⟩ := h
      cases h
      rfl

theorem addOrphan_spec (attached : List Text) (storage node : Text)
    (found : Std.ExtTreeMap Text OrphanVolume) (entry : Json) :
    (∀ volid, volid ∈ addOrphan attached storage node found entry ↔
      volid ∈ found ∨ (entryVolid entry = some volid ∧ Candidate attached volid)) ∧
      (Keyed found → Keyed (addOrphan attached storage node found entry)) := by
  unfold addOrphan
  cases he : entryVolid entry with
  | none => simp
  | some v =>
    cases hi : volumeIdentity v with
    | none =>
      simp only [hi]
      refine ⟨fun volid => ?_, id⟩
      constructor
      · exact Or.inl
      · rintro (h | ⟨e, ⟨identity, hid⟩, -⟩)
        · exact h
        · cases e
          rw [hi] at hid
          cases hid
    | some identity =>
      by_cases ha : v ∈ attached
      · simp only [hi, List.contains_iff_mem.mpr ha, ↓reduceIte]
        refine ⟨fun volid => ?_, id⟩
        constructor
        · exact Or.inl
        · rintro (h | ⟨e, -, hn⟩)
          · exact h
          · cases e
            exact absurd ha hn
      · have hc : attached.contains v = false := by simpa using ha
        simp only [hi, hc, Bool.false_eq_true, ↓reduceIte]
        constructor
        · intro volid
          rw [Std.ExtTreeMap.mem_insertIfNew, Std.compare_eq_iff_eq]
          constructor
          · rintro (rfl | h)
            · exact Or.inr ⟨rfl, ⟨identity, hi⟩, ha⟩
            · exact Or.inl h
          · rintro (h | ⟨e, -⟩)
            · exact Or.inr h
            · cases e
              exact Or.inl rfl
        · intro hk volid o ho
          rw [Std.ExtTreeMap.getElem?_insertIfNew] at ho
          split at ho
          · next hnew =>
            obtain ⟨e, -⟩ := hnew
            rw [Std.compare_eq_iff_eq] at e
            subst e
            cases ho
            exact ⟨(volumeIdentity_volid hi).1, identity, hi, rfl⟩
          · exact hk volid o ho

theorem addOrphans_spec (attached : List Text) (storage node : Text) (entries : List Json)
    (found : Std.ExtTreeMap Text OrphanVolume) :
    (∀ volid, volid ∈ entries.foldl (addOrphan attached storage node) found ↔
      volid ∈ found ∨ ∃ entry ∈ entries, entryVolid entry = some volid ∧ Candidate attached volid) ∧
      (Keyed found → Keyed (entries.foldl (addOrphan attached storage node) found)) := by
  induction entries generalizing found with
  | nil => simp
  | cons entry entries ih =>
    obtain ⟨hf, hk⟩ := addOrphan_spec attached storage node found entry
    obtain ⟨hf', hk'⟩ := ih (addOrphan attached storage node found entry)
    refine ⟨fun volid => ?_, fun h => hk' (hk h)⟩
    rw [List.foldl_cons, hf', hf, List.exists_mem_cons_iff, or_assoc]

/-- The listing of a storage can be read. -/
def ContentRead (f : (c : Call) → c.Answer) (node storage : Text) : Prop :=
  ∃ entries, f (.get (.storageContent node storage) [("content", "images")]) = .ok (.arr entries)

/-- A part of the scan that finds nothing and leaves a warning. -/
theorem Adds.warn {P : Text → Prop} {q : Prop} (hP : ∀ v, ¬ P v) (hq : ¬ q) (scan : Scan) (text : Text) :
    Adds P q True scan (scan.warn text) where
  found := fun v => by simp [Scan.warn, hP v]
  warnings := by simp [Scan.warn, hq]
  complete := by simp [Scan.warn]
  keyed := id

theorem scanStorage_spec (attached : List Text) (node : Text) (scan : Scan) (storage : Text) :
    ∃ scan', outcome f (scanStorage attached node scan storage) = .ok scan' ∧
      Adds (fun v => Listed f node storage v ∧ Candidate attached v) (ContentRead f node storage) True
        scan scan' := by
  unfold scanStorage
  rw [outcome_call]
  cases hf : f (.get (.storageContent node storage) [("content", "images")]) with
  | ok answer =>
    cases answer with
    | arr entries =>
      obtain ⟨hfound, hkeyed⟩ := addOrphans_spec attached storage node entries scan.found
      refine ⟨_, rfl, ?_, ?_, by simp, hkeyed⟩
      · intro v
        rw [hfound]
        constructor
        · rintro (h | ⟨entry, he, hv, hc⟩)
          · exact Or.inl h
          · exact Or.inr ⟨⟨entries, entry, hf, he, hv⟩, hc⟩
        · rintro (h | ⟨⟨entries', entry, hf', he, hv⟩, hc⟩)
          · exact Or.inl h
          · cases hf.symm.trans hf'
            exact Or.inr ⟨entry, he, hv, hc⟩
      · simpa using fun _ => ⟨entries, hf⟩
    | _ =>
      refine ⟨_, rfl, Adds.warn ?_ ?_ scan _⟩
      · rintro v ⟨⟨entries, entry, h, -⟩, -⟩
        cases hf.symm.trans h
      · rintro ⟨entries, h⟩
        cases hf.symm.trans h
  | error e =>
    refine ⟨_, rfl, Adds.warn ?_ ?_ scan _⟩
    · rintro v ⟨⟨entries, entry, h, -⟩, -⟩
      cases hf.symm.trans h
    · rintro ⟨entries, h⟩
      cases hf.symm.trans h

/-- The image storages that the scan reads on a node. -/
def ImageStorage (f : (c : Call) → c.Answer) (cfg : Config) (node storage : Text) : Prop :=
  ∃ infos, f (.get (.nodeStorage node) []) = .ok (.arr infos) ∧
    storage ∈ infos.filterMap (imageStorage (assignedStorages cfg node))

/-- A volume in the listings that the scan reads on a node. -/
def ScannedOn (f : (c : Call) → c.Answer) (cfg : Config) (node : NodeState) (volid : Text) : Prop :=
  node.online = true ∧ assignedStorages cfg node.node ≠ [] ∧
    ∃ storage, ImageStorage f cfg node.node storage ∧ Listed f node.node storage volid

/-- Every listing of an online node with assigned storages could be read, and
every assigned storage was among them. -/
def NodeRead (f : (c : Call) → c.Answer) (cfg : Config) (node : NodeState) : Prop :=
  node.online = true → (∃ infos, f (.get (.nodeStorage node.node) []) = .ok (.arr infos)) ∧
    ∀ storage ∈ assignedStorages cfg node.node,
      ImageStorage f cfg node.node storage ∧ ContentRead f node.node storage

theorem imageStorage_assigned {assigned : List Text} {info : Json} {storage : Text}
    (h : imageStorage assigned info = some storage) : storage ∈ assigned := by
  unfold imageStorage at h
  split at h
  · simp only at h
    split at h
    · cases h
    · next hn =>
      split at h
      · cases h
      · cases h
        exact not_not.mp fun hm => hn (Or.inr (Or.inl hm))
  · cases h

theorem scanStorages_spec (attached : List Text) (name : Text) (assigned imageStorages : List Text)
    (scan : Scan) :
    ∃ scan', outcome f (scanStorages attached name assigned imageStorages scan) = .ok scan' ∧
      Adds (fun v => ∃ storage ∈ imageStorages, Listed f name storage v ∧ Candidate attached v)
        ((∀ storage ∈ assigned, storage ∈ imageStorages) ∧
          ∀ storage ∈ imageStorages, ContentRead f name storage) True scan scan' := by
  have h₁ : Adds (fun _ => False) (∀ storage ∈ assigned, storage ∈ imageStorages) True scan
      { scan with warnings := scan.warnings ++ unavailable name assigned imageStorages } :=
    ⟨by simp, by simp [unavailable], by simp, id⟩
  obtain ⟨scan', hs, h₂⟩ := Adds.foldlM (f := f) (g := scanStorage attached name)
    (fun s a => scanStorage_spec attached name s a) imageStorages
    { scan with warnings := scan.warnings ++ unavailable name assigned imageStorages }
  exact ⟨scan', hs, (h₁.trans h₂).congr (by simp) Iff.rfl (by simp)⟩

theorem scanNode_spec (cfg : Config) (attached : List Text) (scan : Scan) (node : NodeState) :
    ∃ scan', outcome f (scanNode cfg attached scan node) = .ok scan' ∧
      Adds (fun v => ScannedOn f cfg node v ∧ Candidate attached v) (NodeRead f cfg node)
        (node.online = true ∨ assignedStorages cfg node.node = []) scan scan' := by
  unfold scanNode
  cases hon : node.online with
  | false =>
    refine ⟨{ scan with complete := scan.complete && (assignedStorages cfg node.node).isEmpty },
      by simp [outcome_pure], ?_, ?_, ?_, id⟩
    · intro v
      simp [ScannedOn, hon]
    · simp [NodeRead, hon]
    · simp
  | true =>
    simp only [Bool.not_true, Bool.false_eq_true, ↓reduceIte]
    rw [outcome_call]
    cases hf : f (.get (.nodeStorage node.node) []) with
    | error e =>
      refine ⟨_, rfl, (Adds.warn ?_ ?_ scan _).congr (fun _ => Iff.rfl) Iff.rfl (by simp)⟩
      · rintro v ⟨⟨-, -, storage, ⟨infos, h, -⟩, -⟩, -⟩
        cases hf.symm.trans h
      · intro h
        obtain ⟨⟨infos, h⟩, -⟩ := h hon
        cases hf.symm.trans h
    | ok answer =>
      cases answer with
      | arr infos =>
        by_cases hassigned : assignedStorages cfg node.node = []
        · refine ⟨scan, by simp [hassigned, outcome_pure], ?_, ?_, by simp, id⟩
          · intro v
            simp [ScannedOn, hassigned]
          · simp [NodeRead, hassigned, hf]
        · obtain ⟨scan', hs, h⟩ := scanStorages_spec (f := f) attached node.node
            (assignedStorages cfg node.node)
            (infos.filterMap (imageStorage (assignedStorages cfg node.node))) scan
          have image : ∀ storage, ImageStorage f cfg node.node storage ↔
              storage ∈ infos.filterMap (imageStorage (assignedStorages cfg node.node)) := by
            intro storage
            constructor
            · rintro ⟨infos', h', hm⟩
              cases hf.symm.trans h'
              exact hm
            · exact fun hm => ⟨infos, hf, hm⟩
          refine ⟨scan', ?_, h.congr ?_ ?_ (by simp)⟩
          · simp only [List.isEmpty_iff, hassigned, ↓reduceIte]
            exact hs
          · intro v
            simp only [ScannedOn, hon, image]
            constructor
            · rintro ⟨storage, hm, hl, hc⟩
              exact ⟨⟨trivial, hassigned, storage, hm, hl⟩, hc⟩
            · rintro ⟨⟨-, -, storage, hm, hl⟩, hc⟩
              exact ⟨storage, hm, hl, hc⟩
          · simp only [NodeRead, hon, image]
            constructor
            · rintro ⟨ha, hr⟩ -
              exact ⟨⟨infos, hf⟩, fun storage hm => ⟨ha storage hm, hr storage (ha storage hm)⟩⟩
            · intro h
              obtain ⟨-, h⟩ := h trivial
              refine ⟨fun storage hm => (h storage hm).1, fun storage hm => (h storage ?_).2⟩
              obtain ⟨info, -, hi⟩ := List.mem_filterMap.mp hm
              exact imageStorage_assigned hi
      | _ =>
        refine ⟨_, rfl, (Adds.warn ?_ ?_ scan _).congr (fun _ => Iff.rfl) Iff.rfl (by simp)⟩
        · rintro v ⟨⟨-, -, storage, ⟨infos, h, -⟩, -⟩, -⟩
          cases hf.symm.trans h
        · intro h
          obtain ⟨⟨infos, h⟩, -⟩ := h hon
          cases hf.symm.trans h

/-- A volume in the listings that the scan reads. -/
def Scanned (f : (c : Call) → c.Answer) (cfg : Config) (nodes : List NodeState) (volid : Text) : Prop :=
  ∃ node ∈ nodes, ScannedOn f cfg node volid

theorem orphanedVolumes_spec (cfg : Config) (attached : List Text) (nodes : List NodeState) :
    ∃ volumes warnings complete,
      outcome f (orphanedVolumes cfg attached nodes) = .ok (volumes, warnings, complete) ∧
      (∀ v ∈ volumes, Scanned f cfg nodes v.volid ∧ v.volid ∉ attached ∧
        ∃ identity, volumeIdentity v.volid = some identity ∧ identity.vmid = v.vmid) ∧
      (∀ volid identity, Scanned f cfg nodes volid → volid ∉ attached →
        volumeIdentity volid = some identity → ∃ v ∈ volumes, v.volid = volid) ∧
      (complete = true → ∀ node ∈ nodes, NodeRead f cfg node ∧
        (node.online = true ∨ assignedStorages cfg node.node = [])) := by
  obtain ⟨scan, hs, h⟩ := Adds.foldlM (f := f) (g := scanNode cfg attached)
    (fun s n => scanNode_spec cfg attached s n) nodes {}
  have hk : Keyed scan.found := h.keyed (by simp [Keyed])
  have hfound : ∀ volid, volid ∈ scan.found ↔
      Scanned f cfg nodes volid ∧ Candidate attached volid := by
    intro volid
    rw [h.found]
    simp only [Std.ExtTreeMap.not_mem_empty, false_or, Scanned]
    constructor
    · rintro ⟨node, hn, hsc, hc⟩
      exact ⟨⟨node, hn, hsc⟩, hc⟩
    · rintro ⟨⟨node, hn, hsc⟩, hc⟩
      exact ⟨node, hn, hsc, hc⟩
  refine ⟨scan.found.toList.map Prod.snd, scan.warnings, scan.complete && scan.warnings.isEmpty,
    ?_, ?_, ?_, ?_⟩
  · unfold orphanedVolumes
    rw [outcome_bind, hs]
    rfl
  · intro v hv
    obtain ⟨⟨volid, o⟩, hm, rfl⟩ := List.mem_map.mp hv
    have hget := Std.ExtTreeMap.mem_toList_iff_getElem?_eq_some.mp hm
    obtain ⟨rfl, hid⟩ := hk volid o hget
    obtain ⟨hsc, hc⟩ := (hfound o.volid).mp (Std.ExtTreeMap.mem_iff_isSome_getElem?.mpr (by simp [hget]))
    exact ⟨hsc, hc.2, hid⟩
  · intro volid identity hsc ha hid
    have hm := (hfound volid).mpr ⟨hsc, ⟨identity, hid⟩, ha⟩
    obtain ⟨o, ho⟩ := Option.isSome_iff_exists.mp (Std.ExtTreeMap.mem_iff_isSome_getElem?.mp hm)
    exact ⟨o, List.mem_map.mpr ⟨(volid, o), Std.ExtTreeMap.mem_toList_iff_getElem?_eq_some.mpr ho, rfl⟩,
      (hk volid o ho).1⟩
  · intro hc node hn
    simp only [Bool.and_eq_true, List.isEmpty_iff] at hc
    exact ⟨(h.warnings.mp hc.2).2 node hn, (h.complete.mp hc.1).2 node hn⟩

/-! ## References -/

/-- The configuration of a VM can be read and has `c`. -/
def ConfigRead (f : (c : Call) → c.Answer) (node : Text) (vmid : Nat) (c : VmConfig) : Prop :=
  ∃ map, f (.get (.config node vmid) []) = .ok (.obj map) ∧ c = parseConfig map

theorem outcome_vmConfig (node : Text) (vmid : Nat) (c : VmConfig) :
    outcome f (vmConfig node vmid) = .ok c ↔ ConfigRead f node vmid c := by
  unfold vmConfig Op.get ConfigRead
  rw [outcome_bind, outcome_call]
  cases hf : f (.get (.config node vmid) []) with
  | error e =>
    constructor
    · intro h
      cases h
    · rintro ⟨map, h, -⟩
      cases h
  | ok answer =>
    cases answer with
    | obj map =>
      constructor
      · intro h
        cases h
        exact ⟨map, rfl, rfl⟩
      · rintro ⟨map', h, rfl⟩
        cases h
        rfl
    | _ =>
      constructor
      · intro h
        cases h
      · rintro ⟨map', h, -⟩
        cases h

/-- What the first loop of `scan_orphans` knows after the VMs `done`. -/
structure Refs (f : (c : Call) → c.Answer) (cfg : Config) (inv : Inventory) (done : List StatusResource)
    (before after : References) : Prop where
  referenced : ∀ v, v ∈ after.referenced ↔ v ∈ before.referenced ∨ ∃ r ∈ done,
    resourceOnline inv.nodes r = true ∧ r.vmid ∉ inv.configs ∧
      ∃ c, ConfigRead f r.node r.vmid c ∧ v ∈ configVolumes cfg c
  warnings : after.warnings = [] ↔ before.warnings = [] ∧ ∀ r ∈ done,
    resourceOnline inv.nodes r = true → r.vmid ∉ inv.configs → ∃ c, ConfigRead f r.node r.vmid c
  offline : ∀ vmid, vmid ∈ after.offline ↔ vmid ∈ before.offline ∨ ∃ r ∈ done,
    resourceOnline inv.nodes r = false ∧ r.vmid = vmid

theorem addReferences_spec (cfg : Config) (inv : Inventory) (refs : References) (r : StatusResource) :
    ∃ refs', outcome f (addReferences cfg inv refs r) = .ok refs' ∧ Refs f cfg inv [r] refs refs' := by
  unfold addReferences
  cases hon : resourceOnline inv.nodes r with
  | false =>
    refine ⟨_, rfl, ?_, ?_, ?_⟩
    · simp [hon]
    · simp [hon]
    · intro vmid
      constructor
      · intro h
        rcases List.mem_cons.mp h with rfl | h
        · exact Or.inr ⟨r, by simp, hon, rfl⟩
        · exact Or.inl h
      · rintro (h | ⟨r', hr', -, rfl⟩)
        · exact List.mem_cons_of_mem _ h
        · rw [List.mem_singleton.mp hr']
          exact List.mem_cons_self
  | true =>
    by_cases hc : r.vmid ∈ inv.configs
    · refine ⟨refs, by simp [hc, outcome_pure], ?_, ?_, ?_⟩ <;> simp [hc, hon]
    · have hc' : inv.configs.contains r.vmid = false := by
        rwa [← Std.ExtTreeMap.contains_iff_mem, Bool.not_eq_true] at hc
      simp only [Bool.not_true, Bool.false_eq_true, ↓reduceIte, hc']
      rw [outcome_bind, outcome_attempt]
      cases ho : outcome f (vmConfig r.node r.vmid) with
      | ok c =>
        have hr := (outcome_vmConfig r.node r.vmid c).mp ho
        have only : ∀ c', ConfigRead f r.node r.vmid c' → c' = c := by
          intro c' h'
          have := (outcome_vmConfig r.node r.vmid c').mpr h'
          rw [ho] at this
          exact (Except.ok.inj this).symm
        refine ⟨_, rfl, ?_, ?_, ?_⟩
        · intro v
          simp only [List.mem_append, List.mem_singleton, exists_eq_left, hon, hc, not_false_eq_true,
            true_and]
          constructor
          · rintro (h | h)
            · exact Or.inl h
            · exact Or.inr ⟨c, hr, h⟩
          · rintro (h | ⟨c', h', h⟩)
            · exact Or.inl h
            · exact Or.inr (only c' h' ▸ h)
        · simpa using fun _ _ _ => ⟨c, hr⟩
        · simp [hon]
      | error e =>
        have hno : ∀ c, ¬ ConfigRead f r.node r.vmid c := by
          intro c h
          have := (outcome_vmConfig r.node r.vmid c).mpr h
          rw [ho] at this
          cases this
        refine ⟨_, rfl, ?_, ?_, ?_⟩
        · simp [hno]
        · simp [hno, hon, hc]
        · simp [hon]

theorem references_spec (cfg : Config) (inv : Inventory) (rs : List StatusResource) (refs : References) :
    ∃ refs', outcome f (rs.foldlM (addReferences cfg inv) refs) = .ok refs' ∧
      Refs f cfg inv rs refs refs' := by
  induction rs generalizing refs with
  | nil => exact ⟨refs, rfl, by simp, by simp, by simp⟩
  | cons r rs ih =>
    obtain ⟨refs₁, h₁, a₁⟩ := addReferences_spec (f := f) cfg inv refs r
    obtain ⟨refs₂, h₂, a₂⟩ := ih refs₁
    refine ⟨refs₂, ?_, ?_, ?_, ?_⟩
    · rw [List.foldlM_cons, outcome_bind, h₁]
      exact h₂
    · intro v
      rw [a₂.referenced, a₁.referenced, List.exists_mem_cons_iff, or_assoc]
      simp
    · rw [a₂.warnings, a₁.warnings, List.forall_mem_cons, and_assoc]
      simp
    · intro vmid
      rw [a₂.offline, a₁.offline, List.exists_mem_cons_iff, or_assoc]
      simp

end FixedAnswers

end HomeStack

import HomeStack.Lib.Result
import HomeStack.WorkspaceDestroy

/-! What a destructive review says about the VM, and that a destroy run deletes
only what was reviewed. Proxmox may answer anything at any time. -/

namespace HomeStack.WorkspaceDestroy

open Json (field)
open Prog Op

/-! ## Disks -/

theorem volumeRole_root {cfg : Config} {managed : Bool} {slot bus value : Text}
    (h : volumeRole cfg managed slot bus value = "root") : slot = cfg.rootDisk := by
  unfold volumeRole at h
  split at h
  next hroot => exact hroot.2
  · split at h
    · exact absurd h (by decide)
    · repeat' split at h
      all_goals exact absurd h (by decide)

theorem volumeRole_home {cfg : Config} {managed : Bool} {slot bus value : Text}
    (h : volumeRole cfg managed slot bus value = "home") : slot = cfg.homeDisk := by
  unfold volumeRole at h
  split at h
  · exact absurd h (by decide)
  · split at h
    next hhome => exact hhome.2
    · repeat' split at h
      all_goals exact absurd h (by decide)

/-- A volume of the inventory comes from a slot. -/
theorem mem_vmVolumeInventory {config : VmConfig} {cfg : Config} {v : VolumeEntry}
    (h : v ∈ vmVolumeInventory config cfg) :
    ∃ spec bus, config[v.slot]? = some spec ∧ v.volume = diskVolume spec ∧
      v.role = volumeRole cfg (!hasTag config["tags".toList]? alienWorkspaceTag) v.slot bus spec := by
  simp only [vmVolumeInventory, List.mem_map, List.mem_insertionSort, List.mem_filterMap] at h
  obtain ⟨⟨order, e⟩, ⟨⟨slot, spec⟩, hm, he⟩, rfl⟩ := h
  have hget := Std.ExtTreeMap.mem_toList_iff_getElem?_eq_some.mp hm
  simp only [volumeEntry, Option.bind_eq_bind, Option.bind_eq_some_iff] at he
  obtain ⟨⟨bus, index⟩, -, o, -, he⟩ := he
  split at he
  · cases he
  · cases he
    exact ⟨spec, bus, hget, rfl, rfl⟩

/-- A reviewed disk is an entry of the configuration in a slot of its role. -/
structure Disk.From (config : VmConfig) (cfg : Config) (d : Disk) : Prop where
  entry : config[d.slot]? = some d.config
  volume : d.volume = diskVolume d.config
  role : ∃ v ∈ vmVolumeInventory config cfg, v.slot = d.slot ∧ v.role = d.role
  reviewed : d.role ∈ reviewedRoles

theorem reviewSlot_ok {inventory : List VolumeEntry} {result result' : List Disk} {entry : Text × Text}
    (h : reviewSlot inventory result entry = .ok result') :
    ∃ d : Disk, result' = result ++ [d] ∧ d.slot = entry.1 ∧ d.config = entry.2 ∧
      d.volume = diskVolume entry.2 ∧
      d.volume ∉ result.map Disk.volume ∧ d.role ∈ reviewedRoles ∧
      ∃ v ∈ inventory, v.slot = entry.1 ∧ v.role = d.role := by
  unfold reviewSlot at h
  dsimp only at h
  split at h
  · cases h
  next found hfound =>
    split at h
    · cases h
    next hexact =>
      split at h
      · cases h
      next hrole =>
        split at h
        · cases h
        · obtain ⟨_, -, h⟩ := Except.bind_ok h
          cases h
          refine ⟨_, rfl, rfl, rfl, rfl, ?_, not_not.mp hrole, found,
            List.mem_of_find?_eq_some hfound, ?_, rfl⟩
          · exact fun hm => hexact (Or.inr hm)
          · simpa using List.find?_some hfound

/-- Every slot reviewed so far. -/
theorem reviewSlots_ok {config : VmConfig} {cfg : Config} {entries : List (Text × Text)} {result : List Disk}
    (hentries : ∀ e ∈ entries, config[e.1]? = some e.2)
    (h : entries.foldlM (reviewSlot (vmVolumeInventory config cfg)) [] = .ok result) :
    (∀ d ∈ result, d.From config cfg) ∧ (result.map Disk.volume).Nodup := by
  have hloop := Except.foldlM_ok (I := fun done ds =>
      (∀ e ∈ done, config[e.1]? = some e.2) →
        (∀ d ∈ ds, d.From config cfg) ∧ (ds.map Disk.volume).Nodup) ?_ ?_ h
  · exact hloop hentries
  · intro done entry ds ds' ih hstep hdone
    obtain ⟨d, rfl, hslot, hconfig, hvolume, hnew, hrole, v, hv, hvslot, hvrole⟩ := reviewSlot_ok hstep
    obtain ⟨hfrom, hnodup⟩ := ih fun e he => hdone e (List.mem_append_left _ he)
    constructor
    · intro d' hd'
      rcases List.mem_append.mp hd' with hd' | hd'
      · exact hfrom d' hd'
      · rw [List.mem_singleton.mp hd']
        refine ⟨?_, by rw [hvolume, hconfig], ⟨v, hv, hvslot.trans hslot.symm, hvrole⟩, hrole⟩
        rw [hslot, hconfig]
        exact hdone entry (by simp)
    · rw [List.map_append, List.nodup_append]
      refine ⟨hnodup, List.nodup_singleton _, ?_⟩
      rintro a ha b hb rfl
      rw [List.map_singleton, List.mem_singleton] at hb
      exact hnew (hb ▸ ha)
  · intro _
    exact ⟨by simp, List.nodup_nil⟩

/-- The VM is a workspace with its root and home, both reviewed. -/
structure Workspace (config : VmConfig) (cfg : Config) (vmid : Nat) : Prop where
  workspace : hasTag config["tags".toList]? workspaceTag = true
  notGold : hasTag config["tags".toList]? goldTag = false
  notAlien : hasTag config["tags".toList]? alienWorkspaceTag = false
  notLocked : hasTag config["tags".toList]? refreshLockTag = false
  disks : ∃ root home, config[cfg.rootDisk]? = some root ∧ config[cfg.homeDisk]? = some home ∧
    diskVolume root ≠ diskVolume home ∧ diskOption home "serial" = some (homeLabelPrefix ++ Text.ofNat vmid)

theorem homeLabel_ok {vmid : Nat} {label : Text} (h : homeLabel vmid = .ok label) :
    label = homeLabelPrefix ++ Text.ofNat vmid := by
  unfold homeLabel at h
  dsimp only at h
  split at h
  · cases h
  · cases h
    rfl

theorem verifyWorkspaceRoleTags_ok {vmid : Nat} {config : VmConfig} {u : Unit}
    (h : verifyWorkspaceRoleTags vmid config = .ok u) :
      hasTag config["tags".toList]? workspaceTag = true := by
  unfold verifyWorkspaceRoleTags at h
  dsimp only at h
  split at h
  · cases h
  next hws => simpa [hasTag] using hws

/-- Two slots of different roles hold different volumes. -/
theorem Disk.From.role_volume {config : VmConfig} {cfg : Config} {ds : List Disk}
    (hfrom : ∀ d ∈ ds, d.From config cfg) (hnodup : (ds.map Disk.volume).Nodup) {root home : Disk}
    (hr : root ∈ ds) (hh : home ∈ ds) (hroot : root.role = "root") (hhome : home.role = "home") :
    config[cfg.rootDisk]? = some root.config ∧ config[cfg.homeDisk]? = some home.config ∧
      diskVolume root.config ≠ diskVolume home.config := by
  have hrf := hfrom root hr
  have hhf := hfrom home hh
  have hrslot : root.slot = cfg.rootDisk := by
    obtain ⟨v, hv, hvs, hvr⟩ := hrf.role
    obtain ⟨spec, bus, -, -, hrole⟩ := mem_vmVolumeInventory hv
    rw [← hvs]
    exact volumeRole_root (hrole.symm.trans (hvr.trans hroot))
  have hhslot : home.slot = cfg.homeDisk := by
    obtain ⟨v, hv, hvs, hvr⟩ := hhf.role
    obtain ⟨spec, bus, -, -, hrole⟩ := mem_vmVolumeInventory hv
    rw [← hvs]
    exact volumeRole_home (hrole.symm.trans (hvr.trans hhome))
  refine ⟨hrslot ▸ hrf.entry, hhslot ▸ hhf.entry, fun heq => ?_⟩
  rw [← hrf.volume, ← hhf.volume] at heq
  have hsame := List.inj_on_of_nodup_map hnodup hr hh heq
  rw [hsame, hhome] at hroot
  exact absurd hroot (by decide)

/-- What `disks` makes sure of. -/
theorem disks_ok {config : VmConfig} {cfg : Config} {vmid : Nat} {ds : List Disk}
    (h : disks config cfg vmid = .ok ds) : Workspace config cfg vmid ∧ ∀ d ∈ ds, d.From config cfg := by
  unfold disks at h
  dsimp only at h
  split at h
  · cases h
  next halien =>
    obtain ⟨_, htags, h⟩ := Except.bind_ok h
    split at h
    · cases h
    next hroles =>
      obtain ⟨_, -, h⟩ := Except.bind_ok h
      obtain ⟨_, -, h⟩ := Except.bind_ok h
      obtain ⟨_, -, h⟩ := Except.bind_ok h
      obtain ⟨result, hresult, h⟩ := Except.bind_ok h
      split at h
      · cases h
      next hboth =>
        obtain ⟨label, hlabel, h⟩ := Except.bind_ok h
        split at h
        · cases h
        next hserial =>
          cases h
          obtain ⟨hfrom, hnodup⟩ := reviewSlots_ok (fun e he =>
            Std.ExtTreeMap.mem_toList_iff_getElem?_eq_some.mp (List.mem_of_mem_filter he)) hresult
          simp only [not_or, Bool.not_eq_true', Bool.not_eq_false, List.any_eq_true,
            decide_eq_true_eq] at hboth
          obtain ⟨⟨root, hr, hroot⟩, home, hh, hhome⟩ := hboth
          obtain ⟨hrspec, hhspec, hne⟩ := Disk.From.role_volume hfrom hnodup hr hh hroot hhome
          rw [not_or] at hroles
          refine ⟨⟨verifyWorkspaceRoleTags_ok htags, by simpa using hroles.1, by simpa using halien,
            by simpa using hroles.2, root.config, home.config, hrspec, hhspec, hne, ?_⟩, hfrom⟩
          rw [hhspec, Option.getD_some, homeLabel_ok hlabel] at hserial
          exact not_not.mp hserial

/-! ## Volumes of the stores -/

/-- An entry of a listing that the VM owns, by its volume ID. -/
def Owned (vmid : Nat) (entry : Json) (volid : Text) : Prop :=
  (field entry "vmid").asU64 = some vmid ∧ field entry "volid" = .str volid

theorem text_ok {value : Json} {key t : Text} (h : text value key = .ok t) : field value key = .str t := by
  unfold text at h
  split at h
  next s hs =>
    cases h
    obtain ⟨hs, -⟩ := Option.filter_eq_some_iff.mp hs
    cases hf : field value key with
    | str u =>
      rw [hf] at hs
      cases hs
      rfl
    | _ =>
      rw [hf] at hs
      cases hs
  · cases h

theorem array_ok {value : Json} {what : Text} {items : List Json} (h : array value what = .ok items) :
    value = .arr items := by
  unfold array at h
  split at h
  next hitems =>
    cases h
    exact Json.asArray_eq_some hitems
  · cases h

theorem reviewVolume_ok {id : Text} {store : Json} {vmid : Nat} {expected : List Text}
    {volumes volumes' : Std.ExtTreeMap Text Json} {entry : Json}
    (h : reviewVolume id store vmid expected volumes entry = .ok volumes') {volid : Text}
    (ho : Owned vmid entry volid) : volid ∈ expected := by
  unfold reviewVolume at h
  obtain ⟨volid', hvolid, h⟩ := Except.bind_ok h
  have hid := text_ok hvolid
  rw [ho.2] at hid
  cases hid
  rw [ho.1] at h
  dsimp only at h
  rw [if_neg (by simp)] at h
  split at h
  · cases h
  next hin =>
    by_contra hn
    exact hin (Or.inl hn)

/-- A listing of a store in which every volume of the VM is expected. -/
def Listed (node id : Text) (vmid : Nat) (expected : List Text) (t : History) : Prop :=
  ∃ entries, ⟨Call.get (.storageContent node id) [("content", "images")], .ok (.arr entries)⟩ ∈ t ∧
    ∀ entry ∈ entries, ∀ volid, Owned vmid entry volid → volid ∈ expected

theorem reviewStore_ran {node : Text} {vmid : Nat} {expected : List Text} {found found' : Found}
    {store : Json} {h t : History} (hr : Ran (reviewStore node vmid expected found store) h found' t)
    {id content : Text} (hid : text store "storage" = .ok id) (hcontent : text store "content" = .ok content)
    (himage : isImageStore node store content = true) :
    ∃ new, t = new ++ h ∧ Listed node id vmid expected new := by
  unfold reviewStore at hr
  obtain ⟨id', h₁, ha, hr⟩ := Ran.bind hr
  obtain ⟨e, rfl⟩ := ran_ofExcept ha
  cases hid.symm.trans e
  obtain ⟨content', h₂, ha, hr⟩ := Ran.bind hr
  obtain ⟨e, rfl⟩ := ran_ofExcept ha
  cases hcontent.symm.trans e
  simp only [himage, Bool.not_true, Bool.false_eq_true, if_false] at hr
  split at hr
  · exact hr.refused.elim
  obtain ⟨state, h₃, ha, hr⟩ := Ran.bind hr
  cases ran_get ha
  split at hr
  · exact hr.refused.elim
  obtain ⟨listing, h₄, ha, hr⟩ := Ran.bind hr
  cases ran_get ha
  obtain ⟨entries, h₅, ha, hr⟩ := Ran.bind hr
  obtain ⟨e, rfl⟩ := ran_ofExcept ha
  obtain ⟨volumes, h₆, ha, hr⟩ := Ran.bind hr
  obtain ⟨hfold, rfl⟩ := ran_ofExcept ha
  obtain ⟨-, rfl⟩ := Ran.pure hr
  have hlisting := array_ok e
  subst hlisting
  refine ⟨[_, _], rfl, entries, List.mem_cons_self, ?_⟩
  refine Except.foldlM_ok (I := fun done _ => ∀ entry ∈ done, ∀ volid, Owned vmid entry volid →
    volid ∈ expected)
    ?_ (by simp) hfold
  intro done entry b c ih hstep entry' hm volid ho
  rcases List.mem_append.mp hm with hm | hm
  · exact ih entry' hm volid ho
  · rw [List.mem_singleton.mp hm] at ho
    exact reviewVolume_ok hstep ho

/-- Every image store of the node was listed. -/
theorem reviewStores_ran {node : Text} {vmid : Nat} {expected : List Text} {found found' : Found}
    {stores : List Json} {h t : History}
    (hr : Ran (stores.foldlM (reviewStore node vmid expected) found) h found' t)
    {store : Json} (hm : store ∈ stores) {id content : Text} (hid : text store "storage" = .ok id)
    (hcontent : text store "content" = .ok content) (himage : isImageStore node store content = true) :
    ∃ new, t = new ++ h ∧ Listed node id vmid expected new := by
  have hloop := Ran.foldlM (I := fun done (_ : Found) t => ∃ new, t = new ++ h ∧
      (store ∈ done → Listed node id vmid expected new)) ?_ ⟨[], rfl, by simp⟩ hr
  · obtain ⟨new, ht, hl⟩ := hloop
    exact ⟨new, ht, hl hm⟩
  · rintro done store' b s c t' ⟨new, rfl, ih⟩ hstep
    obtain ⟨more, rfl⟩ := hstep.grows
    refine ⟨more ++ new, (List.append_assoc ..).symm, fun hin => ?_⟩
    rcases List.mem_append.mp hin with hin | hin
    · obtain ⟨entries, he, hall⟩ := ih hin
      exact ⟨entries, List.mem_append_right _ he, hall⟩
    · rw [List.mem_singleton.mp hin] at hid hcontent himage
      obtain ⟨more', heq, entries, he, hall⟩ := reviewStore_ran hstep hid hcontent himage
      rw [List.append_left_inj] at heq
      exact ⟨entries, List.mem_append_left _ (heq ▸ he), hall⟩

/-! ## The review -/

/-- What a review says of the VM, given what it asked and was answered: it is a
workspace, and no listing of an image store of its node shows a volume of it
that is not attached in a reviewed role. -/
def ReviewSays (cfg : Config) (pool : Text) (vmid : Nat) (current : Json) (asked : History) : Prop :=
  ∃ (node : Text) (config : VmConfig) (storage : Std.ExtTreeMap Text Json) (definitions : Json),
    current.get "node" = some (.str node) ∧ current.get "vmid" = some (.int vmid) ∧
    current.get "pool" = some (.str pool) ∧ current.get "config" = some (configJson config) ∧
    Workspace config cfg vmid ∧
    ⟨Call.get .storage [], .ok definitions⟩ ∈ asked ∧ storageIdentity definitions = .ok storage ∧
    ∀ store ∈ storage.values, ∀ id content, text store "storage" = .ok id →
      text store "content" = .ok content →
      isImageStore node store content = true →
      ∃ entries, ⟨Call.get (.storageContent node id) [("content", "images")], .ok (.arr entries)⟩ ∈ asked ∧
        ∀ entry ∈ entries, ∀ volid, Owned vmid entry volid →
          ∃ v ∈ vmVolumeInventory config cfg, v.volume = volid ∧ v.role ∈ reviewedRoles

/-- What was asked between two histories is part of what was asked around them. -/
theorem subset_asked {h s t asked new : History} (hs : h <:+ s) (ht : new ++ s <:+ t) (ha : t = asked ++ h) :
    new ⊆ asked := by
  obtain ⟨earlier, rfl⟩ := hs
  obtain ⟨later, rfl⟩ := ht
  have hasked : later ++ (new ++ earlier) = asked := by
    rw [← List.append_left_inj h, ← ha]
    simp
  rw [← hasked]
  intro e he
  exact List.mem_append_right _ (List.mem_append_left _ he)

/-- A volume of a reviewed disk is attached in the disk's role. -/
theorem Disk.From.attached {config : VmConfig} {cfg : Config} {d : Disk} (h : d.From config cfg) :
    ∃ v ∈ vmVolumeInventory config cfg, v.volume = d.volume ∧ v.role ∈ reviewedRoles := by
  obtain ⟨v, hv, hslot, hrole⟩ := h.role
  obtain ⟨spec, bus, hspec, hvolume, -⟩ := mem_vmVolumeInventory hv
  rw [hslot, h.entry] at hspec
  cases hspec
  exact ⟨v, hv, hvolume.trans h.volume.symm, hrole ▸ h.reviewed⟩

/-- **A review that succeeds.** -/
theorem review_ran {cfg : Config} {pool : Text} {vmid : Nat} {current : Json} {h t : History}
    (hr : Ran (review cfg pool vmid) h current t) :
    ∃ asked, t = asked ++ h ∧ ReviewSays cfg pool vmid current asked := by
  obtain ⟨asked, ha⟩ := hr.grows
  refine ⟨asked, ha, ?_⟩
  unfold review at hr
  split at hr
  · exact hr.refused.elim
  obtain ⟨node, h₁, hrun₁, hr⟩ := Ran.bind hr
  obtain ⟨config, h₂, hrun₂, hr⟩ := Ran.bind hr
  obtain ⟨ds, h₀, hds, hr⟩ := Ran.bind hr
  obtain ⟨_, h₃, hrun₃, hr⟩ := Ran.bind hr
  obtain ⟨_, h₄, hrun₄, hr⟩ := Ran.bind hr
  obtain ⟨_, h₅, hrun₅, hr⟩ := Ran.bind hr
  obtain ⟨_, h₆, hrun₆, hr⟩ := Ran.bind hr
  obtain ⟨_, h₇, hrun₇, hr⟩ := Ran.bind hr
  obtain ⟨status, h₈, hrun₈, hr⟩ := Ran.bind hr
  obtain ⟨_, h₉, hrun₉, hr⟩ := Ran.bind hr
  obtain ⟨_, h₁₀, hrun₁₀, hr⟩ := Ran.bind hr
  obtain ⟨_, h₁₁, hrun₁₁, hr⟩ := Ran.bind hr
  obtain ⟨definitions, h₁₂, hrun₁₂, hr⟩ := Ran.bind hr
  obtain ⟨storage, h', hrunStorage, hr⟩ := Ran.bind hr
  obtain ⟨found, h₁₃, hrun₁₃, hr⟩ := Ran.bind hr
  split at hr
  · exact hr.refused.elim
  have hend : h₁₃ <:+ t := Ran.suffix hr
  obtain ⟨node', h₁₄, -, hr⟩ := Ran.bind hr
  split at hr
  · exact hr.refused.elim
  obtain ⟨_, h₁₅, -, hr⟩ := Ran.bind hr
  obtain ⟨_, h₁₆, -, hr⟩ := Ran.bind hr
  obtain ⟨storage', h₁₇, -, hr⟩ := Ran.bind hr
  split at hr
  · exact hr.refused.elim
  obtain ⟨finalStatus, h₁₈, -, hr⟩ := Ran.bind hr
  split at hr
  · exact hr.refused.elim
  obtain ⟨config', h₁₉, -, hr⟩ := Ran.bind hr
  split at hr
  · exact hr.refused.elim
  obtain ⟨rfl, rfl⟩ := Ran.pure hr
  have hbegin : h <:+ h₁₁ := by
    refine hrun₁.suffix.trans (hrun₂.suffix.trans (hds.suffix.trans (hrun₃.suffix.trans (hrun₄.suffix.trans
      (hrun₅.suffix.trans ?_)))))
    exact hrun₆.suffix.trans (hrun₇.suffix.trans (hrun₈.suffix.trans (hrun₉.suffix.trans
      (hrun₁₀.suffix.trans hrun₁₁.suffix))))
  obtain ⟨hworkspace, hfrom⟩ := disks_ok (ran_ofExcept hds).1
  obtain ⟨hstorage, hsame⟩ := ran_ofExcept hrunStorage
  subst hsame
  refine ⟨node, config, storage, definitions, rfl, rfl, rfl, rfl, hworkspace, ?_, hstorage, ?_⟩
  · rw [ran_get hrun₁₂] at hrun₁₃
    have hnew : [⟨Call.get .storage [], .ok definitions⟩] ++ h₁₁ <:+ t := hrun₁₃.suffix.trans hend
    exact subset_asked hbegin hnew ha List.mem_cons_self
  · intro store hstore id content hid hcontent himage
    obtain ⟨new, hnew, entries, he, hall⟩ := reviewStores_ran hrun₁₃ hstore hid hcontent himage
    refine ⟨entries, subset_asked (hbegin.trans hrun₁₂.suffix) (hnew ▸ hend) ha he, ?_⟩
    intro entry hentry volid howned
    obtain ⟨d, hd, rfl⟩ := List.mem_map.mp (hall entry hentry volid howned)
    exact (hfrom d hd).attached

/-! ## What a destroy run asks -/

theorem reads_placement (vmid : Nat) (pool : Text) : Reads (placement vmid pool) := by
  refine Reads.bind reads_clusterVmResources fun rs => ?_
  split
  · exact Reads.throw
  · exact Reads.guard fun _ => Reads.guard fun _ => Reads.pure

theorem reads_requireMembership (node pool : Text) (vmid : Nat) :
    Reads (requireMembership node pool vmid) := by
  refine Reads.bind Reads.get fun membership => Reads.bind Reads.ofExcept fun members => ?_
  split
  · refine Reads.guard fun _ => ?_
    exact Reads.bind Reads.get fun _ => Reads.bind Reads.ofExcept fun _ => Reads.ite Reads.throw Reads.pure
  · refine Reads.bind Reads.throw fun _ => ?_
    exact Reads.bind Reads.get fun _ => Reads.bind Reads.ofExcept fun _ => Reads.ite Reads.throw Reads.pure

theorem reads_reviewStore (node : Text) (vmid : Nat) (expected : List Text) (found : Found) (store : Json) :
    Reads (reviewStore node vmid expected found store) := by
  refine Reads.bind Reads.ofExcept fun id => Reads.bind Reads.ofExcept fun content => ?_
  refine Reads.ite Reads.pure (Reads.guard fun _ => ?_)
  refine Reads.bind Reads.get fun state => Reads.guard fun _ => ?_
  refine Reads.bind Reads.get fun listing => ?_
  exact Reads.bind Reads.ofExcept fun _ => Reads.bind Reads.ofExcept fun _ => Reads.pure

theorem reads_review (cfg : Config) (pool : Text) (vmid : Nat) : Reads (review cfg pool vmid) := by
  refine Reads.guard fun _ => Reads.bind (reads_placement vmid pool) fun node => ?_
  refine Reads.bind (reads_vmConfig node vmid) fun config => Reads.bind Reads.ofExcept fun ds => ?_
  refine Reads.bind (reads_requireMembership node pool vmid) fun _ => ?_
  refine Reads.bind Reads.get fun _ => Reads.bind Reads.ofExcept fun _ => ?_
  refine Reads.bind Reads.get fun _ => Reads.bind Reads.ofExcept fun _ => ?_
  refine Reads.bind Reads.get fun status => Reads.bind Reads.ofExcept fun _ => ?_
  refine Reads.bind Reads.get fun _ => Reads.bind Reads.ofExcept fun _ => ?_
  refine Reads.bind Reads.get fun _ => Reads.bind Reads.ofExcept fun storage => ?_
  refine Reads.bind (Reads.foldlM (reads_reviewStore node vmid _) _ _) fun found => ?_
  refine Reads.guard fun _ => Reads.bind (reads_placement vmid pool) fun _ => ?_
  refine Reads.guard fun _ => Reads.bind (reads_requireMembership node pool vmid) fun _ => ?_
  refine Reads.bind Reads.get fun _ => Reads.bind Reads.ofExcept fun _ => ?_
  refine Reads.guard fun _ => Reads.bind Reads.get fun _ => ?_
  refine Reads.guard fun _ => Reads.bind (reads_vmConfig node vmid) fun _ => ?_
  exact Reads.guard fun _ => Reads.pure

theorem reads_validate (cfg : Config) (pool : Text) (plan : Json) (stopped : Bool) :
    Reads (validate cfg pool plan stopped) :=
  Reads.bind Reads.ofExcept fun vmid => Reads.bind (reads_review cfg pool vmid) fun _ => Reads.ofExcept

theorem reads_confirmAbsent (plan : Json) : Reads (confirmAbsent plan) := by
  refine Reads.bind Reads.ofExcept fun node => ?_
  split
  · exact Reads.throw
  · exact Reads.throw
  · exact Reads.forM (fun _ => Reads.bind Reads.get fun _ => Reads.ofExcept) _

end HomeStack.WorkspaceDestroy

import HomeStack.WalkChain

/-! Which disk an inspection selects. The disks are counted without `zram`, but the disk under the mount
may be one, and rows are told apart by their keys alone: the selected disk is the right one exactly when
it is not `zram` and no other data disk, and no device above it, has its key. -/

namespace HomeStack.ResizeGuest

open Runs

/-! ## What the guest answered -/

/-- The mounted filesystem, its type, and the rows of the listing by their paths. -/
def survey (guest : GuestSystem) (mount : Text) : Inspect (Json × Text × Inspector) := do
  let (fs, filesystem) ← mounted guest mount
  let rows ← listRows guest
  let this ← indexRows guest rows
  pure (fs, filesystem, this)

/-- Where a partition starts. -/
def Inspector.start (this : Inspector) (known : Real) (i : this.Index) : Option Int := do
  let real ← resolve this.guest known (this.row i).name
  match this.guest.read (startOf (basename real)) with
  | .ok (.ok text) => Text.parseInt (Text.trim text)
  | _ => none

structure View where
  fs : Json
  filesystem : Text
  this : Inspector
  known : Real

namespace View

/-- A guest answers so. -/
def Of (guest : GuestSystem) (mount : Text) (v : View) : Prop :=
  Gives (survey guest mount) [] (v.fs, v.filesystem, v.this) v.known

variable (v : View)

abbrev Index := v.this.Index

def row (i : v.Index) : Row := v.this.row i

def key (i : v.Index) : Option Text := v.this.key v.known i

def lead (value : Text) : Option v.Index := v.this.lead v.known value

def source : Text := pyStr (v.fs.get "source")

/-- The device of the filesystem that is mounted there. -/
def MountedOn (mount : Text) (entry : v.Index) : Prop :=
  if v.filesystem = "ext4" then
    ((List.finRange v.this.rows.length).filter fun i => (v.row i).mm = pyStr (v.fs.get "maj:min")) = [entry]
  else
    ∃ shown devid path, v.this.guest.run ["btrfs", "filesystem", "show", "--raw", mount] = .ok (.ok shown) ∧
      btrfsDevices v.this.guest (Text.trim shown) = [(devid, path)] ∧
      ([Text.trim path, (v.source.splitOn '[').headD []].filterMap v.lead).head? = some entry

/-- A chain goes down from a device, to the first disk or partition. -/
structure Chain (entry last : v.Index) (chain : List v.Index) : Prop where
  starts : chain.head? = some entry
  linked : chain.IsChain (v.this.OnlyBelow v.known)
  ends : chain.getLast? = some last
  physical : v.this.physical last = true
  inner : ∀ i ∈ chain.dropLast, v.this.physical i = false

/-- A disk lies under itself and under its partitions. -/
def DiskOf (last disk : v.Index) : Prop :=
  if (v.row last).kind = "part" then v.lead (pyStr (v.row last).pkname) = some disk ∧
    (v.row disk).kind = "disk" else disk = last

/-- The mounted device, the chain below it and the disk. -/
structure Lies (guest : GuestSystem) (mount : Text) (entry last : v.Index) (chain : List v.Index)
    (disk : v.Index) : Prop where
  answered : v.Of guest mount
  mounted : v.MountedOn mount entry
  chain : v.Chain entry last chain
  disk : v.DiskOf last disk

/-- The devices from the mount down to its disk. -/
def way (chain : List v.Index) (disk : v.Index) : List v.Index :=
  if disk ∈ chain then chain else chain ++ [disk]

def PartitionOf (disk i : v.Index) : Prop :=
  (v.row i).kind = "part" ∧ ∃ parent, v.lead (pyStr (v.row i).pkname) = some parent ∧
    v.key parent = v.key disk

/-- Where a partition starts. -/
def start (i : v.Index) : Option Int := v.this.start v.known i

/-- There are two data disks, one with the home's serial, and the selected one is that of the role. -/
structure RightDisk (role : Role) (label : Text) (last : v.Index) (chain : List v.Index) (disk : v.Index)
    (layout : GuestLayout) : Prop where
  disks : ∃ home other, (v.this.disks = [home, other] ∨ v.this.disks = [other, home]) ∧
    v.key home ≠ v.key other ∧
    Text.trim (v.row home).serial = label ∧ Text.trim (v.row other).serial ≠ label ∧
      disk = if role = .home then home else other
  parent : layout.parent = (v.row disk).name
  distinct : ((v.way chain disk).map v.key).Nodup
  crypt : (v.this.types chain).count "crypt".toList ≤ 1
  lvm : (v.this.types chain).count "lvm".toList ≤ 1
  above : ∀ i j, v.this.position chain "lvm" = some i → v.this.position chain "crypt" = some j → i < j
  latest : ∀ number, layout.partition = some number → layout.partitionDevice = some (v.row last).name ∧
    v.PartitionOf disk last ∧
    ∃ first, v.start last = some first ∧ ∀ i, v.PartitionOf disk i → ∃ n, v.start i = some n ∧ n ≤ first

/-- The disk is no `zram`, and its key is its own among the data disks and the devices above it. -/
structure OwnKey (chain : List v.Index) (disk : v.Index) : Prop where
  real : Text.startsWith "zram" (basename (v.row disk).name) = false
  own : ∀ i, i ∈ v.this.disks ∨ i ∈ chain → v.key i = v.key disk → i = disk

end View

/-! ## What a success establishes -/

variable {guest : GuestSystem} {s t : Real}

theorem gives_command {argv : List Text} {out : Text} (h : Gives (command guest argv) s out t) :
    ∃ output, guest.run argv = .ok (.ok output) ∧ out = Text.trim output ∧ t = s := by
  unfold command at h
  obtain ⟨answer, hrun, h⟩ := gives_ask_bind.mp h
  cases answer with
  | ok output =>
    obtain ⟨rfl, rfl⟩ := gives_pure.mp h
    exact ⟨output, hrun, rfl, rfl⟩
  | error reason => exact absurd h gives_fail

theorem gives_sysfsValue {path value : Text} (h : Gives (sysfsValue guest path) s value t) :
    (value = [] ∨ ∃ text, guest.read path = .ok (.ok text) ∧ value = Text.trim text) ∧ t = s := by
  unfold sysfsValue at h
  obtain ⟨answer, hread, h⟩ := gives_ask_bind.mp h
  cases answer with
  | ok text =>
    obtain ⟨rfl, rfl⟩ := gives_pure.mp h
    exact ⟨.inr ⟨text, hread, rfl⟩, rfl⟩
  | error e =>
    obtain ⟨rfl, rfl⟩ := gives_pure.mp h
    exact ⟨.inl rfl, rfl⟩

theorem gives_tool {name : Text} {a : PUnit} (h : Gives (tool guest name) s a t) : t = s := by
  unfold tool at h
  obtain ⟨found, -, h⟩ := gives_ask_bind.mp h
  exact (gives_require.mp h).2

namespace Inspector

variable {this : Inspector} {s₀ : Real}

theorem head?_filterMap_pair {α β : Type} (f : α → Option β) (a b : α) :
    ([a, b].filterMap f).head? = (f a).or (f b) := by
  cases ha : f a <;> cases hb : f b <;> simp [ha, hb]

theorem btrfsCandidate_gives {entry found : Option this.Index} {candidate : Text}
    (hs : SamePaths this.guest s₀ s) (h : Gives (this.btrfsCandidate entry candidate) s found t) :
    found = entry.or (this.lead s₀ candidate) ∧ SamePaths this.guest s₀ t := by
  unfold btrfsCandidate at h
  by_cases hc : candidate = []
  · rw [if_pos hc] at h
    obtain ⟨rfl, rfl⟩ := gives_pure.mp h
    exact ⟨by simp [lead, hc], hs⟩
  · rw [if_neg hc] at h
    obtain ⟨row, u, hrow, h⟩ := gives_bind.mp h
    obtain ⟨hlead, hsu⟩ := rowFor_gives hrow
    have hu := samePaths_trans _ _ _ hs hsu
    rw [lead_same hs] at hlead
    rw [← hlead]
    cases row with
    | none =>
      obtain ⟨rfl, rfl⟩ := gives_pure.mp h
      exact ⟨by simp, hu⟩
    | some row =>
      cases entry with
      | none =>
        obtain ⟨rfl, rfl⟩ := gives_pure.mp h
        exact ⟨rfl, hu⟩
      | some known =>
        obtain ⟨_, v, hknown, h⟩ := gives_bind.mp h
        obtain ⟨_, w, hfound, h⟩ := gives_bind.mp h
        obtain ⟨-, h⟩ := gives_require_bind.mp h
        obtain ⟨rfl, rfl⟩ := gives_pure.mp h
        have huv := samePaths_trans _ _ _ hu (rowKey_gives hknown).2
        exact ⟨rfl, samePaths_trans _ _ _ huv (rowKey_gives hfound).2⟩

theorem mountedDevice_gives {filesystem source fsMm mount : Text} {found : this.Index × Option Nat}
    (h : Gives (this.mountedDevice filesystem source fsMm mount) s found t) :
    (if filesystem = "ext4" then ((List.finRange this.rows.length).filter fun i =>
      (this.row i).mm = fsMm) = [found.1]
    else ∃ shown devid path, this.guest.run ["btrfs", "filesystem", "show", "--raw", mount] =
      .ok (.ok shown) ∧
      btrfsDevices this.guest (Text.trim shown) = [(devid, path)] ∧
      ([Text.trim path, (source.splitOn '[').headD []].filterMap (this.lead s)).head? = some found.1) ∧
    SamePaths this.guest s t := by
  unfold mountedDevice at h
  split at h
  · rename_i hext
    rw [if_pos hext]
    obtain ⟨-, h⟩ := gives_require_bind.mp h
    split at h
    · rename_i entry hrows
      obtain ⟨rfl, rfl⟩ := gives_pure.mp h
      exact ⟨hrows, samePaths_refl _⟩
    · exact absurd h gives_fail
  · rename_i hext
    rw [if_neg hext]
    obtain ⟨shown, u, hshow, h⟩ := gives_bind.mp h
    obtain ⟨output, hrun, rfl, hu⟩ := gives_command hshow
    rw [hu] at h
    obtain ⟨-, h⟩ := gives_require_bind.mp h
    split at h
    · rename_i devid path hdevices
      obtain ⟨-, h⟩ := gives_require_bind.mp h
      obtain ⟨first, x, hfold, h⟩ := gives_bind.mp h
      rw [List.foldlM_cons] at hfold
      obtain ⟨one, y, hone, hfold⟩ := gives_bind.mp hfold
      obtain ⟨rfl, hy⟩ := btrfsCandidate_gives (samePaths_refl _) hone
      rw [List.foldlM_cons] at hfold
      obtain ⟨two, z, htwo, hfold⟩ := gives_bind.mp hfold
      obtain ⟨rfl, hz⟩ := btrfsCandidate_gives hy htwo
      obtain ⟨rfl, rfl⟩ := gives_pure.mp hfold
      split at h
      · rename_i entry hentry
        obtain ⟨rfl, rfl⟩ := gives_pure.mp h
        refine ⟨⟨output, devid, path, hrun, hdevices, ?_⟩, hz⟩
        rw [head?_filterMap_pair]
        simpa using hentry
      · exact absurd h gives_fail
    · exact absurd h gives_fail

theorem checkLayers_gives {chain : List this.Index} {a : PUnit} (h : Gives (this.checkLayers chain) s a t) :
    (this.types chain).count "crypt".toList ≤ 1 ∧ (this.types chain).count "lvm".toList ≤ 1 ∧
    (∀ i j, this.position chain "lvm" = some i → this.position chain "crypt" = some j → i < j) ∧ t = s := by
  unfold checkLayers at h
  obtain ⟨-, h⟩ := gives_require_bind.mp h
  obtain ⟨hcount, h⟩ := gives_require_bind.mp h
  rw [Bool.and_eq_true, decide_eq_true_eq, decide_eq_true_eq] at hcount
  split at h
  · rename_i crypt lvm hcrypt hlvm
    obtain ⟨hlt, rfl⟩ := gives_require.mp h
    refine ⟨hcount.1, hcount.2, fun i j hi hj => ?_, rfl⟩
    rw [hlvm] at hi
    rw [hcrypt] at hj
    cases hi
    cases hj
    simpa using hlt
  · rename_i hnone
    obtain ⟨-, rfl⟩ := gives_pure.mp h
    exact ⟨hcount.1, hcount.2, fun i j hi hj => absurd hi (hnone j i hj), rfl⟩

theorem parentDisk_gives {last parent : this.Index} (h : Gives (this.parentDisk last) s parent t) :
    (if (this.row last).kind = "part" then this.lead s (pyStr (this.row last).pkname) = some parent ∧
      (this.row parent).kind = "disk"
    else parent = last) ∧ SamePaths this.guest s t := by
  unfold parentDisk at h
  split at h
  · rename_i hpart
    rw [if_pos hpart]
    obtain ⟨row, u, hrow, h⟩ := gives_bind.mp h
    obtain ⟨hlead, hu⟩ := rowFor_gives hrow
    rw [← hlead]
    cases row with
    | none => exact absurd h gives_fail
    | some row =>
      dsimp only at h
      split at h
      · rename_i hdisk
        obtain ⟨rfl, rfl⟩ := gives_pure.mp h
        exact ⟨⟨rfl, hdisk⟩, hu⟩
      · exact absurd h gives_fail
  · rename_i hpart
    rw [if_neg hpart]
    obtain ⟨rfl, rfl⟩ := gives_pure.mp h
    exact ⟨rfl, samePaths_refl _⟩

theorem checkRole_gives {role : Role} {label : Text} {entry parent : this.Index} {a : PUnit}
    (hs : SamePaths this.guest s₀ s) (h : Gives (this.checkRole role label entry parent) s a t) :
    this.disks.length = 2 ∧ (∃ home, this.homes label = [home] ∧
      (this.key s₀ parent = this.key s₀ home ↔ role = .home)) ∧
    SamePaths this.guest s₀ t := by
  unfold checkRole at h
  obtain ⟨htwo, h⟩ := gives_require_bind.mp h
  refine ⟨by simpa using htwo, ?_⟩
  split at h
  · rename_i home hhome
    obtain ⟨parentKey, u, hparent, h⟩ := gives_bind.mp h
    obtain ⟨hp, hu⟩ := rowKey_gives hparent
    obtain ⟨homeKey, v, hhomeKey, h⟩ := gives_bind.mp h
    obtain ⟨hh, hv⟩ := rowKey_gives hhomeKey
    obtain ⟨hrole, h⟩ := gives_require_bind.mp h
    rw [key_same hs] at hp
    rw [key_same hu, key_same hs] at hh
    have hsame := samePaths_trans _ _ _ hs (samePaths_trans _ _ _ hu hv)
    refine ⟨⟨home, hhome, ?_⟩, ?_⟩
    · rw [hp, hh, Option.some.injEq]
      simpa using hrole
    · split at h
      · obtain ⟨found, w, hfound, h⟩ := gives_bind.mp h
        obtain ⟨_, _, _, hw⟩ := gives_command hfound
        rw [(gives_require.mp h).2, hw]
        exact hsame
      · rw [(gives_pure.mp h).2]
        exact hsame
  · exact absurd h gives_fail

theorem start_gives {real value : Text} {i : this.Index} {n : Int}
    (hreal : resolve this.guest s₀ (this.row i).name = some real)
    (h : Gives (sysfsValue this.guest (startOf (basename real))) s value t)
    (hn : Text.parseInt value = some n) :
    this.start s₀ i = some n ∧ t = s := by
  obtain ⟨rfl | ⟨text, hread, rfl⟩, ht⟩ := gives_sysfsValue h
  · exact absurd hn nofun
  · refine ⟨?_, ht⟩
    unfold start
    rw [hreal]
    simpa [hread] using hn

theorem checkLater_gives {parentKey : Text} {first : Int} {candidate : this.Index} {a : PUnit}
    (hs : SamePaths this.guest s₀ s) (h : Gives (this.checkLater parentKey first candidate) s a t) :
    ((this.row candidate).kind = "part" → ∀ parent,
      this.lead s₀ (pyStr (this.row candidate).pkname) = some parent →
      this.key s₀ parent = some parentKey → ∃ n, this.start s₀ candidate = some n ∧ n ≤ first) ∧
        SamePaths this.guest s₀ t := by
  unfold checkLater at h
  split at h
  · rename_i hpart
    rw [(gives_pure.mp h).2]
    exact ⟨fun hp => absurd hp hpart, hs⟩
  · obtain ⟨row, u, hrow, h⟩ := gives_bind.mp h
    obtain ⟨hlead, hsu⟩ := rowFor_gives hrow
    have hu := samePaths_trans _ _ _ hs hsu
    rw [lead_same hs] at hlead
    rw [← hlead]
    cases row with
    | none =>
      rw [(gives_pure.mp h).2]
      exact ⟨nofun, hu⟩
    | some above =>
      obtain ⟨key, v, hkey, h⟩ := gives_bind.mp h
      obtain ⟨hk, huv⟩ := rowKey_gives hkey
      have hv := samePaths_trans _ _ _ hu huv
      rw [key_same hu] at hk
      split at h
      · rename_i hne
        rw [(gives_pure.mp h).2]
        refine ⟨fun _ parent hparent hpk => ?_, hv⟩
        cases hparent
        rw [hk, Option.some.injEq] at hpk
        exact absurd hpk hne
      · obtain ⟨real, w, hreal, h⟩ := gives_bind.mp h
        obtain ⟨hr, hvw⟩ := realpath_gives hreal
        rw [hv] at hr
        obtain ⟨value, x, hvalue, h⟩ := gives_bind.mp h
        split at h
        · exact absurd h gives_fail
        · rename_i n hn
          obtain ⟨hstart, hx⟩ := start_gives hr hvalue hn
          obtain ⟨hle, ht⟩ := gives_require.mp h
          rw [ht, hx]
          exact ⟨fun _ _ _ _ => ⟨n, hstart, by simpa using hle⟩, samePaths_trans _ _ _ hv hvw⟩

theorem checkLater_foldlM {parentKey : Text} {first : Int} {candidates : List this.Index} {a : PUnit}
    (hs : SamePaths this.guest s₀ s)
    (h : Gives (candidates.foldlM (fun _ candidate => this.checkLater parentKey first candidate) ⟨⟩) s a t) :
    (∀ candidate ∈ candidates, (this.row candidate).kind = "part" → ∀ parent,
      this.lead s₀ (pyStr (this.row candidate).pkname) = some parent → this.key s₀ parent = some parentKey →
      ∃ n, this.start s₀ candidate = some n ∧ n ≤ first) ∧ SamePaths this.guest s₀ t := by
  induction candidates generalizing s with
  | nil =>
    rw [(gives_pure.mp h).2]
    exact ⟨by simp, hs⟩
  | cons candidate candidates ih =>
    rw [List.foldlM_cons] at h
    obtain ⟨_, u, hone, h⟩ := gives_bind.mp h
    obtain ⟨hfirst, hu⟩ := checkLater_gives hs hone
    obtain ⟨hrest, ht⟩ := ih hu h
    exact ⟨List.forall_mem_cons.mpr ⟨hfirst, hrest⟩, ht⟩

theorem partitionOf_gives {last parent : this.Index} {partition : Option (Nat × Text)}
    (hs : SamePaths this.guest s₀ s) (h : Gives (this.partitionOf last parent) s partition t) :
    ∀ number name, partition = some (number, name) → (this.row last).kind = "part" ∧
      name = (this.row last).name ∧
      ∃ first, this.start s₀ last = some first ∧ ∀ i, (this.row i).kind = "part" →
        ∀ above, this.lead s₀ (pyStr (this.row i).pkname) = some above →
          this.key s₀ above = this.key s₀ parent →
        ∃ n, this.start s₀ i = some n ∧ n ≤ first := by
  unfold partitionOf at h
  split at h
  · rename_i hpart
    obtain ⟨_, u, htool, h⟩ := gives_bind.mp h
    rw [gives_tool htool] at h
    obtain ⟨real, v, hreal, h⟩ := gives_bind.mp h
    obtain ⟨hr, hsv⟩ := realpath_gives hreal
    have hv := samePaths_trans _ _ _ hs hsv
    rw [hs] at hr
    obtain ⟨number, w, hnumber, h⟩ := gives_bind.mp h
    rw [(gives_sysfsValue hnumber).2] at h
    obtain ⟨value, x, hvalue, h⟩ := gives_bind.mp h
    split at h
    · rename_i n first hn hfirst
      obtain ⟨hstart, hx⟩ := start_gives hr hvalue hfirst
      rw [hx] at h
      obtain ⟨-, h⟩ := gives_require_bind.mp h
      obtain ⟨parentKey, y, hkey, h⟩ := gives_bind.mp h
      obtain ⟨hk, hvy⟩ := rowKey_gives hkey
      rw [key_same hv] at hk
      obtain ⟨_, z, hloop, h⟩ := gives_bind.mp h
      obtain ⟨hlater, -⟩ := checkLater_foldlM (samePaths_trans _ _ _ hv hvy) hloop
      obtain ⟨rfl, rfl⟩ := gives_pure.mp h
      intro number' name hsome
      cases hsome
      refine ⟨hpart, rfl, first, hstart, fun i hi above habove hsame => ?_⟩
      exact hlater i (List.mem_finRange i) hi above habove (by rw [hsame, hk])
    · exact absurd h gives_fail
  · rw [(gives_pure.mp h).1]
    exact nofun

end Inspector

/-- What the inspection has seen to when it selects a disk. -/
structure View.Checked (v : View) (role : Role) (label : Text) (last : v.Index) (chain : List v.Index)
    (disk : v.Index) (layout : GuestLayout) : Prop where
  distinct : (chain.map v.key).Nodup
  crypt : (v.this.types chain).count "crypt".toList ≤ 1
  lvm : (v.this.types chain).count "lvm".toList ≤ 1
  above : ∀ i j, v.this.position chain "lvm" = some i → v.this.position chain "crypt" = some j → i < j
  two : v.this.disks.length = 2
  home : ∃ home, v.this.homes label = [home] ∧ (v.key disk = v.key home ↔ role = .home)
  parent : layout.parent = (v.row disk).name
  latest : ∀ number, layout.partition = some number → layout.partitionDevice = some (v.row last).name ∧
    v.PartitionOf disk last ∧
    ∃ first, v.start last = some first ∧ ∀ i, v.PartitionOf disk i → ∃ n, v.start i = some n ∧ n ≤ first

theorem layout_gives {v : View} {fuel : Nat} {mount : Text} {role : Role} {label : Text}
    {layout : GuestLayout} (h : Gives (v.this.layout fuel v.fs v.filesystem mount role label)
    v.known layout t) :
    ∃ entry last chain disk, v.MountedOn mount entry ∧ v.Chain entry last chain ∧ v.DiskOf last disk ∧
      v.Checked role label last chain disk layout := by
  unfold Inspector.layout at h
  obtain ⟨⟨entry, devid⟩, s₁, hentry, h⟩ := gives_bind.mp h
  obtain ⟨hmounted, hs₁⟩ := Inspector.mountedDevice_gives hentry
  obtain ⟨chain, s₂, hchain, h⟩ := gives_bind.mp h
  obtain ⟨hpath, hs₂⟩ := Inspector.walkChain_gives hchain
  replace hs₂ := samePaths_trans _ _ _ hs₁ hs₂
  obtain ⟨_, s₃, hlayers, h⟩ := gives_bind.mp h
  obtain ⟨hcrypt, hlvm, habove, hs₃⟩ := Inspector.checkLayers_gives hlayers
  rw [hs₃] at h
  obtain ⟨-, h⟩ := gives_require_bind.mp h
  obtain ⟨disk, s₄, hdisk, h⟩ := gives_bind.mp h
  obtain ⟨hof, hs₄⟩ := Inspector.parentDisk_gives hdisk
  replace hs₄ := samePaths_trans _ _ _ hs₂ hs₄
  obtain ⟨_, s₅, hrole, h⟩ := gives_bind.mp h
  obtain ⟨htwo, hhome, hs₅⟩ := Inspector.checkRole_gives hs₄ hrole
  obtain ⟨partition, s₆, hpartition, h⟩ := gives_bind.mp h
  have hlatest := Inspector.partitionOf_gives hs₅ hpartition
  obtain ⟨last, hlast, hphysical⟩ := hpath.physical
  have hgetLast : chain.getLastD entry = last := by rw [List.getLastD_eq_getLast?, hlast, Option.getD_some]
  rw [hgetLast] at hof hlatest
  rw [Inspector.lead_same hs₂] at hof
  have hresult : layout.parent = (v.row disk).name ∧ layout.partition = partition.map Prod.fst ∧
      layout.partitionDevice = partition.map Prod.snd := by
    -- neither the encryption nor the LVM layer changes the selection
    refine h.returns (P := fun layout => layout.parent = (v.row disk).name ∧
      layout.partition = partition.map Prod.fst ∧
      layout.partitionDevice = partition.map Prod.snd) ?_
    dsimp only
    repeat' first
      | split
      | exact returns_pure ⟨rfl, rfl, rfl⟩
      | (apply returns_bind; intro _)
  refine ⟨entry, last, chain, disk, hmounted, ?_, hof, ?_⟩
  · constructor
    · exact hpath.starts
    · have hlinked := hpath.linked
      rwa [Inspector.onlyBelow_same hs₁] at hlinked
    · exact hlast
    · exact hphysical
    · exact hpath.inner
  · constructor
    · have hdistinct := hpath.distinct
      rwa [Inspector.key_same hs₁] at hdistinct
    · exact hcrypt
    · exact hlvm
    · exact habove
    · exact htwo
    · exact hhome
    · exact hresult.1
    · intro number hnumber
      rw [hresult.2.1] at hnumber
      obtain ⟨⟨_, name⟩, hsome, rfl⟩ := Option.map_eq_some_iff.mp hnumber
      obtain ⟨hpart, rfl, first, hfirst, hall⟩ := hlatest _ _ hsome
      rw [if_pos hpart] at hof
      refine ⟨by rw [hresult.2.2, hsome]; rfl, ⟨hpart, disk, hof.1, rfl⟩, first, hfirst, ?_⟩
      rintro i ⟨hi, above, hlead, hkey⟩
      exact hall i hi above hlead hkey

theorem inspect_gives {mount : Text} {role : Role} {label : Text} {layout : GuestLayout} {after : Real}
    (h : Gives (inspect guest mount role label) [] layout after) :
    ∃ (v : View) (fuel : Nat), v.Of guest mount ∧
      Gives (v.this.layout fuel v.fs v.filesystem mount role label) v.known layout after := by
  unfold inspect at h
  obtain ⟨⟨fs, filesystem⟩, s, hmounted, h⟩ := gives_bind.mp h
  obtain ⟨rows, t, hrows, h⟩ := gives_bind.mp h
  obtain ⟨this, u, hthis, h⟩ := gives_bind.mp h
  refine ⟨⟨fs, filesystem, this, u⟩, rows.length, ?_, h⟩
  apply gives_bind.mpr ⟨(fs, filesystem), s, hmounted, ?_⟩
  apply gives_bind.mpr ⟨rows, t, hrows, ?_⟩
  exact gives_bind.mpr ⟨this, u, hthis, gives_pure.mpr ⟨rfl, rfl⟩⟩

/-! ## There is one way down -/

/-- Two chains of a functional relation that stop at the first place they can are one. -/
theorem isChain_unique {α : Type} {R : α → α → Prop} {p : α → Bool} (hR : ∀ a b c, R a b → R a c → b = c)
    {l l' : List α} {last last' : α} (hhead : l.head? = l'.head?) (hl : l.IsChain R) (hl' : l'.IsChain R)
    (hlast : l.getLast? = some last) (hlast' : l'.getLast? = some last') (hp : p last = true)
    (hp' : p last' = true) (hin : ∀ i ∈ l.dropLast, p i = false) (hin' : ∀ i ∈ l'.dropLast, p i = false) :
    l = l' := by
  induction l generalizing l' with
  | nil => simp at hlast
  | cons a rest ih =>
    cases l' with
    | nil => simp at hlast'
    | cons a' rest' =>
      obtain rfl : a = a' := by simpa using hhead
      cases rest with
      | nil =>
        cases rest' with
        | nil => rfl
        | cons b' r' =>
          obtain rfl : a = last := by simpa using hlast
          have ha := hin' a (by simp)
          rw [hp] at ha
          cases ha
      | cons b r =>
        cases rest' with
        | nil =>
          obtain rfl : a = last' := by simpa using hlast'
          have ha := hin a (by simp)
          rw [hp'] at ha
          cases ha
        | cons b' r' =>
          obtain ⟨hab, hr⟩ := List.isChain_cons_cons.mp hl
          obtain ⟨hab', hr'⟩ := List.isChain_cons_cons.mp hl'
          obtain rfl := hR a b b' hab hab'
          rw [List.getLast?_cons_cons] at hlast hlast'
          rw [List.dropLast_cons_cons] at hin hin'
          have hhead : (b :: r).head? = (b :: r').head? := rfl
          rw [ih hhead hr hr' hlast hlast' (fun i hi => hin i (List.mem_cons_of_mem _ hi)) fun i hi =>
            hin' i (List.mem_cons_of_mem _ hi)]

namespace View

variable {v : View}

theorem Chain.unique {entry last last' : v.Index} {chain chain' : List v.Index} (h : v.Chain entry last chain)
    (h' : v.Chain entry last' chain') : chain = chain' ∧ last = last' := by
  have hfun : ∀ a b c, v.this.OnlyBelow v.known a b → v.this.OnlyBelow v.known a c → b = c := by
    intro a b c hb hc
    have hbc := hb.1.symm.trans hc.1
    simpa using hbc
  have hchain := isChain_unique hfun (h.starts.trans h'.starts.symm) h.linked h'.linked h.ends
    h'.ends h.physical h'.physical
    h.inner h'.inner
  refine ⟨hchain, ?_⟩
  have hends := h.ends
  rw [hchain, h'.ends] at hends
  simpa using hends.symm

theorem MountedOn.unique {mount : Text} {entry entry' : v.Index} (h : v.MountedOn mount entry)
    (h' : v.MountedOn mount entry') :
    entry = entry' := by
  unfold MountedOn at h h'
  split at h
  · rename_i hext
    rw [if_pos hext, h] at h'
    simpa using h'
  · rename_i hext
    rw [if_neg hext] at h'
    obtain ⟨shown, devid, path, hrun, hdevices, hhead⟩ := h
    obtain ⟨shown', devid', path', hrun', hdevices', hhead'⟩ := h'
    obtain rfl : shown = shown' := by simpa using hrun.symm.trans hrun'
    obtain ⟨rfl, rfl⟩ : devid = devid' ∧ path = path' := by simpa using hdevices.symm.trans hdevices'
    simpa using hhead.symm.trans hhead'

theorem DiskOf.unique {last disk disk' : v.Index} (h : v.DiskOf last disk) (h' : v.DiskOf last disk') :
    disk = disk' := by
  unfold DiskOf at h h'
  split at h
  · rename_i hpart
    rw [if_pos hpart] at h'
    simpa using h.1.symm.trans h'.1
  · rename_i hpart
    rw [if_neg hpart] at h'
    rw [h, h']

theorem Of.unique {mount : Text} {v w : View} (h : v.Of guest mount) (h' : w.Of guest mount) : v = w := by
  obtain ⟨hanswer, hknown⟩ := gives_unique h h'
  cases v
  cases w
  simp only [Prod.mk.injEq] at hanswer
  obtain ⟨rfl, rfl, rfl⟩ := hanswer
  cases hknown
  rfl

/-! ## The right disk -/

theorem mem_disks {i : v.Index} :
    i ∈ v.this.disks ↔ (v.row i).kind = "disk" ∧
    Text.startsWith "zram" (basename (v.row i).name) = false := by
  simp [Inspector.disks, row]

theorem DiskOf.kind {entry last disk : v.Index} {chain : List v.Index} (h : v.DiskOf last disk)
    (hc : v.Chain entry last chain) :
    (v.row disk).kind = "disk" := by
  unfold DiskOf at h
  split at h
  · exact h.2
  · rename_i hpart
    have hphysical := hc.physical
    rw [h]
    rcases (Bool.or_eq_true _ _).mp hphysical with hdisk | hpart'
    · exact of_decide_eq_true hdisk
    · exact absurd (of_decide_eq_true hpart') hpart

theorem RightDisk.ownKey {role : Role} {label : Text} {last disk : v.Index} {chain : List v.Index}
    {layout : GuestLayout} (h : v.RightDisk role label last chain disk layout) : v.OwnKey chain disk := by
  obtain ⟨home, other, hdisks, hkeys, -, -, hdisk⟩ := h.disks
  have hmem : ∀ i, i ∈ v.this.disks ↔ i = home ∨ i = other := by
    intro i
    rcases hdisks with hdisks | hdisks <;> simp [hdisks, or_comm]
  have hone : disk = home ∨ disk = other := by
    rw [hdisk]
    split <;> simp
  constructor
  · exact (mem_disks.1 ((hmem disk).mpr hone)).2
  · rintro i (hi | hi) hk
    · rcases (hmem i).mp hi with rfl | rfl <;> rcases hone with rfl | rfl
      · rfl
      · exact absurd hk hkeys
      · exact absurd hk.symm hkeys
      · rfl
    · have hdistinct := h.distinct
      unfold way at hdistinct
      split at hdistinct
      · rename_i hmem
        exact List.inj_on_of_nodup_map hdistinct hi hmem hk
      · exact List.inj_on_of_nodup_map hdistinct (by simp [hi]) (by simp) hk

/-- Of two disks one carries the serial. -/
theorem pair_of_homes {label : Text} {home : v.Index} (htwo : v.this.disks.length = 2)
    (hhome : v.this.homes label = [home]) :
    ∃ other, (v.this.disks = [home, other] ∨ v.this.disks = [other, home]) ∧ home ≠ other ∧
      Text.trim (v.row home).serial = label ∧ Text.trim (v.row other).serial ≠ label := by
  obtain ⟨a, b, hab⟩ := List.length_eq_two.mp htwo
  have hnodup : v.this.disks.Nodup := (List.nodup_finRange _).filter _
  rw [hab] at hnodup
  have hne : a ≠ b := by simpa using hnodup
  unfold Inspector.homes at hhome
  rw [hab] at hhome ⊢
  by_cases ha : Text.trim (v.this.row a).serial = label <;>
    by_cases hb : Text.trim (v.this.row b).serial = label
  · simp [ha, hb] at hhome
  · obtain rfl : a = home := by simpa [ha, hb] using hhome
    exact ⟨b, .inl rfl, hne, ha, hb⟩
  · obtain rfl : b = home := by simpa [ha, hb] using hhome
    exact ⟨a, .inr rfl, hne.symm, hb, ha⟩
  · simp [ha, hb] at hhome

theorem Checked.rightDisk {role : Role} {label : Text} {last disk : v.Index} {chain : List v.Index}
    {layout : GuestLayout} (h : v.Checked role label last chain disk layout)
    (hkind : (v.row disk).kind = "disk") (ho : v.OwnKey chain disk) :
    v.RightDisk role label last chain disk layout := by
  obtain ⟨home, hhome, hrole⟩ := h.home
  obtain ⟨other, hdisks, hne, hserial, hserial'⟩ := pair_of_homes h.two hhome
  have hmem : ∀ i, i ∈ v.this.disks ↔ i = home ∨ i = other := by
    intro i
    rcases hdisks with hdisks | hdisks <;> simp [hdisks, or_comm]
  have hone := (hmem disk).mp (mem_disks.2 ⟨hkind, ho.real⟩)
  constructor
  · refine ⟨home, other, hdisks, ?_, hserial, hserial', ?_⟩
    · intro hkeys
      rcases hone with rfl | rfl
      · exact hne (ho.own other (.inl ((hmem _).mpr (.inr rfl))) hkeys.symm).symm
      · exact hne (ho.own home (.inl ((hmem _).mpr (.inl rfl))) hkeys)
    · split
      · rename_i hr
        exact (ho.own home (.inl ((hmem _).mpr (.inl rfl))) (hrole.mpr hr).symm).symm
      · rename_i hr
        exact hone.resolve_left fun he => hr (hrole.mp (by rw [he]))
  · exact h.parent
  · unfold way
    split
    · exact h.distinct
    · rename_i hnot
      rw [List.map_append, List.map_singleton, List.nodup_append]
      refine ⟨h.distinct, by simp, ?_⟩
      intro key hkey _ hk he
      obtain ⟨i, hi, rfl⟩ := List.mem_map.mp hkey
      rw [List.mem_singleton.mp hk] at he
      exact hnot (ho.own i (.inr hi) he ▸ hi)
  · exact h.crypt
  · exact h.lvm
  · exact h.above
  · exact h.latest

end View

/-- The mounted device, the chain below it and the disk that an inspection goes by. -/
theorem lies_of_inspect {mount : Text} {role : Role} {label : Text} {layout : GuestLayout} {after : Real}
    (h : Gives (inspect guest mount role label) [] layout after) :
    ∃ v entry last chain disk, View.Lies v guest mount entry last chain disk ∧
      View.Checked v role label last chain disk layout := by
  obtain ⟨v, fuel, hof, h⟩ := inspect_gives h
  obtain ⟨entry, last, chain, disk, hmounted, hchain, hdisk, hchecked⟩ := layout_gives h
  exact ⟨v, entry, last, chain, disk, ⟨hof, hmounted, hchain, hdisk⟩, hchecked⟩

/-- An inspection that succeeds selects the right disk exactly when the disk under the mount is no
`zram` and its key is its own. -/
theorem right_disk_iff {guest : GuestSystem} {mount : Text} {role : Role} {label : Text}
    {layout : GuestLayout} {after : Real} (h : Gives (inspect guest mount role label) [] layout after) :
    (∃ v entry last chain disk, View.Lies v guest mount entry last chain disk ∧
      View.RightDisk v role label last chain disk layout) ↔
    ∃ v entry last chain disk, View.Lies v guest mount entry last chain disk ∧ View.OwnKey v chain disk := by
  constructor
  · rintro ⟨v, entry, last, chain, disk, hlies, hright⟩
    exact ⟨v, entry, last, chain, disk, hlies, hright.ownKey⟩
  · rintro ⟨v, entry, last, chain, disk, hlies, hown⟩
    obtain ⟨v', entry', last', chain', disk', hlies', hchecked⟩ := lies_of_inspect h
    obtain rfl := hlies.answered.unique hlies'.answered
    obtain rfl := hlies.mounted.unique hlies'.mounted
    obtain ⟨rfl, rfl⟩ := hlies.chain.unique hlies'.chain
    obtain rfl := hlies.disk.unique hlies'.disk
    exact ⟨v, entry, last, chain, disk, hlies, hchecked.rightDisk (hlies.disk.kind hlies.chain) hown⟩

/-! ## A guest with two disks and a `zram` -/

def deviceJson (name serial mm : Text) : Json :=
  .obj [("name", .str name), ("type", .str "disk"), ("pkname", .null), ("serial", .str serial),
    ("size", .int 1024), ("maj:min", .str mm)]

def devicesJson : Json :=
  .obj [("blockdevices", .arr [deviceJson "/dev/vda" "root" "254:0", deviceJson "/dev/vdb" "home" "254:16",
    deviceJson "/dev/zram0" [] "252:0"])]

def mountJson (source mm : Text) : Json :=
  .obj [("filesystems", .arr [.obj [("source", .str source), ("fstype", .str "ext4"),
    ("target", .str "/"), ("options", .str "rw"),
    ("maj:min", .str mm)]])]

/-- The root filesystem is on this device. -/
def sampleGuest (source mm : Text) : GuestSystem where
  hasTool := fun _ => .ok true
  run := fun argv => .ok (if argv.headD [] = "findmnt" then .ok (mountJson source mm).render
    else if argv.headD [] = "lsblk" then .ok devicesJson.render else .error "not found")
  read := fun _ => .ok (.error .missing)
  realpaths := .ok
  listDir := fun _ => .ok []
  fileKind := fun _ => .ok .missing
  fromStr := fun text => if text = (mountJson source mm).render then .ok (mountJson source mm)
    else if text = devicesJson.render then .ok devicesJson else .error "expected value"
  isAlphanumeric := Char.isAlphanum

/-- An inspection succeeds with this disk. -/
def selects (guest : GuestSystem) (mount : Text) (role : Role) (label parent : Text) : Bool :=
  match (inspect guest mount role label).outcome [] with
  | some (.ok (layout, _)) => layout.parent = parent
  | _ => false

theorem gives_of_selects {mount : Text} {role : Role} {label parent : Text}
    (h : selects guest mount role label parent = true) :
    ∃ layout after, Gives (inspect guest mount role label) [] layout after ∧ layout.parent = parent := by
  unfold selects at h
  split at h
  · rename_i layout after houtcome
    exact ⟨layout, after, houtcome, of_decide_eq_true h⟩
  · cases h

theorem selects_vda : selects (sampleGuest "/dev/vda" "254:0") "/" .root "home" "/dev/vda" = true := by
  decide +kernel

theorem selects_zram : selects (sampleGuest "/dev/zram0" "252:0") "/" .root "home" "/dev/zram0" = true := by
  decide +kernel

theorem right_disk_vda :
    ∃ layout after, Gives (inspect (sampleGuest "/dev/vda" "254:0") "/" .root "home") [] layout after ∧
    ((∃ v entry last chain disk, View.Lies v (sampleGuest "/dev/vda" "254:0") "/" entry last chain disk ∧
      View.RightDisk v .root "home" last chain disk layout) ↔
    ∃ v entry last chain disk, View.Lies v (sampleGuest "/dev/vda" "254:0") "/" entry last chain disk ∧
      View.OwnKey v chain disk) := by
  obtain ⟨layout, after, h, -⟩ := gives_of_selects selects_vda
  exact ⟨layout, after, h, right_disk_iff h⟩

/-- The root on a `zram` is taken for the root disk. -/
theorem zram_selected : ∃ layout after, Gives (inspect (sampleGuest "/dev/zram0" "252:0") "/" .root "home")
    [] layout after ∧ layout.parent = "/dev/zram0" ∧
    ¬ ∃ v entry last chain disk, View.Lies v (sampleGuest "/dev/zram0" "252:0") "/" entry last chain disk ∧
      View.RightDisk v .root "home" last chain disk layout := by
  obtain ⟨layout, after, h, hparent⟩ := gives_of_selects selects_zram
  refine ⟨layout, after, h, hparent, ?_⟩
  rintro ⟨v, entry, last, chain, disk, -, hright⟩
  have hreal := hright.ownKey.real
  rw [← hright.parent, hparent] at hreal
  exact absurd hreal (by decide)

end HomeStack.ResizeGuest

import HomeStack.Lease

/-! The journal of one refresh (`refresh.rs`): what it records, when a record
is valid, and the block it is kept in. -/

namespace HomeStack

/-- The journal's phases, in order. -/
inductive Phase
  | prepared | imported | switching | switched | verifying | verified
  deriving DecidableEq, Repr

/-- The power state before the refresh. -/
inductive PowerState
  | running | stopped
  deriving DecidableEq, Repr

def Phase.asStr : Phase → Text
  | prepared => "prepared"
  | imported => "imported"
  | switching => "switching"
  | switched => "switched"
  | verifying => "verifying"
  | verified => "verified"

theorem Phase.asStr_injective : Function.Injective asStr := by
  intro p q h
  cases p <;> cases q <;> first | rfl | exact absurd h (by decide)

namespace PowerState

def parse (status : Text) : Option PowerState :=
  if status = "running" then some running
  else if status = "stopped" then some stopped
  else none

def asStr : PowerState → Text
  | running => "running"
  | stopped => "stopped"

theorem asStr_injective : Function.Injective asStr := by
  intro p q h
  cases p <;> cases q <;> first | rfl | exact absurd h (by decide)

end PowerState

/-- The transaction journal of one refresh. `restore` has every option that
refresh sets, as it was; empty when it was not set. -/
structure Journal where
  version : Nat
  transactionId : Text
  phase : Phase
  vmid : Nat
  name : Text
  node : Text
  initialStatus : PowerState
  oldRootSpec : Text
  oldRootVolume : Text
  rootDisk : Text
  stagingSlot : Text
  goldRootDiskConfig : Text
  newRootVolume : Text
  newUnusedKey : Text
  oldUnusedKey : Text
  homeVolume : Text
  homeLabel : Text
  homeDisk : Text
  restore : Std.ExtTreeMap Text Text
  rollingBack : Bool
  deriving DecidableEq

namespace Journal

def journalVersion : Nat := 1
def journalStart : Text := "<!-- homestack-journal: "
def journalEnd : Text := " -->"
def label : Text := "refresh journal"

/-- PVE's limit on `description`. -/
def descriptionMax : Nat := 8192

/-- The options refresh sets, which a rollback restores. -/
def restoredOptions : List Text :=
  ["boot", "ipconfig0", "nameserver", "ciuser", "ciupgrade", "cicustom"]

def invalid (what : Text) : CoreError := .unusable ("Refresh journal has an invalid " ++ what)

/-- 32 lower-case hexadecimal digits. -/
def idOk (id : Text) : Bool :=
  id.length == 32 && id.all fun c => c.isDigit || ('a' ≤ c && c ≤ 'f')

def nodeOk (node : Text) : Bool :=
  match node with
  | [] => false
  | c :: _ => c.isAlphanum && node.all fun d => d.isAlphanum || d == '.' || d == '-'

/-- A journal as it is printed. -/
def toJson (j : Journal) : Json :=
  .obj [("version", .int j.version), ("transaction_id", .str j.transactionId),
    ("phase", .str j.phase.asStr), ("vmid", .int j.vmid), ("name", .str j.name),
    ("node", .str j.node), ("initial_status", .str j.initialStatus.asStr),
    ("old_root_spec", .str j.oldRootSpec), ("old_root_volume", .str j.oldRootVolume),
    ("root_disk", .str j.rootDisk), ("staging_slot", .str j.stagingSlot),
    ("gold_root_disk_config", .str j.goldRootDiskConfig),
    ("new_root_volume", .str j.newRootVolume), ("new_unused_key", .str j.newUnusedKey),
    ("old_unused_key", .str j.oldUnusedKey), ("home_volume", .str j.homeVolume),
    ("home_label", .str j.homeLabel), ("home_disk", .str j.homeDisk),
    ("restore", .obj (j.restore.toList.map fun e => (e.1, .str e.2))),
    ("rolling_back", .bool j.rollingBack)]

theorem toJson_whole (j : Journal) : j.toJson.Whole := by
  refine .obj ?_
  simp only [List.forall_mem_cons]
  refine ⟨.int _, .str _, .str _, .int _, .str _, .str _, .str _, .str _, .str _, .str _, .str _,
    .str _, .str _, .str _, .str _, .str _, .str _, .str _, .obj ?_, .bool _, by simp⟩
  intro e he
  obtain ⟨a, -, rfl⟩ := List.mem_map.mp he
  exact .str _

theorem restore_injective {a b : Std.ExtTreeMap Text Text}
    (h : (a.toList.map fun e => (e.1, Json.str e.2)) = b.toList.map fun e => (e.1, Json.str e.2)) :
    a = b := by
  apply Std.ExtTreeMap.toList_inj.mp
  refine List.map_injective_iff.mpr ?_ h
  rintro ⟨k, v⟩ ⟨l, w⟩ e
  simpa using e

theorem toJson_injective : Function.Injective toJson := by
  rintro ⟨⟩ ⟨⟩ h
  simp only [toJson, Json.obj.injEq, List.cons.injEq, Prod.mk.injEq, Json.int.injEq,
    Json.str.injEq, Json.bool.injEq, true_and, and_true, Int.natCast_inj] at h
  simp only [Journal.mk.injEq]
  obtain ⟨h1, h2, h3, h4, h5, h6, h7, h8, h9, h10, h11, h12, h13, h14, h15, h16, h17, h18, h19, h20⟩ := h
  exact ⟨h1, h2, Phase.asStr_injective h3, h4, h5, h6, PowerState.asStr_injective h7, h8, h9, h10,
    h11, h12, h13, h14, h15, h16, h17, h18, restore_injective h19, h20⟩

/-- Journals as JSON. -/
noncomputable def serde : Serde Journal := .ofJson toJson toJson_whole toJson_injective

end Journal

def validateJournal (cfg : Config) (journal : Journal) : Except CoreError Unit := do
  if journal.version ≠ Journal.journalVersion then
    throw (.unusable "Refresh journal has an unsupported version")
  if !Journal.idOk journal.transactionId then throw (Journal.invalid "transaction identity")
  if !Journal.nodeOk journal.node then throw (Journal.invalid "node")
  if journal.rootDisk ≠ cfg.rootDisk ∨ journal.homeDisk ≠ cfg.homeDisk then
    throw (.unusable "Current disk-slot configuration does not match the refresh journal")
  if cfg.rootDisk = cfg.homeDisk then
    throw (.unusable "Root and persistent-home disk slots must be different")
  if !isScsiKey journal.stagingSlot ∨ journal.stagingSlot = cfg.rootDisk ∨
      journal.stagingSlot = cfg.homeDisk then
    throw (Journal.invalid "staging disk slot")
  let old := journal.oldRootVolume
  if !hasStorage old ∨ diskVolume journal.oldRootSpec ≠ old then
    throw (Journal.invalid "original root identity")
  let home := journal.homeVolume
  if !hasStorage home ∨ home = old then throw (Journal.invalid "persistent-home identity")
  if journal.homeLabel ≠ (← homeLabel journal.vmid) then
    throw (Journal.invalid "persistent-home label")
  let new := journal.newRootVolume
  if new ≠ [] ∧ (!hasStorage new ∨ new = old ∨ new = home) then
    throw (Journal.invalid "staged root identity")
  if journal.phase ≠ .prepared ∧ new = [] then
    throw (.unusable "Refresh journal is missing the staged root identity")
  if (journal.newUnusedKey ≠ [] ∧ !isUnusedKey journal.newUnusedKey) ∨
      (journal.oldUnusedKey ≠ [] ∧ !isUnusedKey journal.oldUnusedKey) then
    throw (Journal.invalid "staging slot")
  if journal.restore.keys.any fun key => !Journal.restoredOptions.contains key then
    throw (Journal.invalid "set of restored options")

/-- `read_journal`: the journal in a VM's config, validated. -/
def readJournal (B : Base64) (S : Serde Journal) (cfg : Config) (vmid : Nat) (vmCfg : VmConfig) :
    Except CoreError (Option Journal) := do
  match ← Description.find vmCfg.description Journal.journalStart Journal.journalEnd Journal.label with
  | none => return none
  | some found =>
    let what : Text := "The refresh journal of VM " ++ Text.ofNat vmid
    match B.decode (Text.trim found.payload) with
    | none => throw (.unusable (what ++ " is not valid base64"))
    | some bytes =>
      match S.fromSlice bytes with
      | none => throw (.unusable (what ++ " is not a valid journal"))
      | some journal =>
        if journal.vmid ≠ vmid then throw (.unusable (what ++ " has an invalid VM identity"))
        validateJournal cfg journal
        return some journal

def Journal.descriptionWith (B : Base64) (S : Serde Journal) (current : Text)
    (journal : Option Journal) : Except CoreError Text :=
  Description.withBlock current journalStart journalEnd label (journal.map (Codec.encode B S))

end HomeStack

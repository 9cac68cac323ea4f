import HomeStack.Journal
import HomeStack.Lib.SerdeJson

/-! The two blocks of a description side by side. A description that only
`lease::description_with` and `refresh::description_with` changed is the user's
text followed by the blocks that are set (`Laid`); every operation keeps this
and touches its own block only. -/

namespace HomeStack

open Description

/-- The kinds of blocks. -/
inductive Kind
  | lease | journal
  deriving DecidableEq, Repr

namespace Kind

def leaseMarkers : Markers where
  start := Lease.leaseStart
  stop := Lease.leaseEnd
  label := Lease.label
  tail := "lease: "
  start_eq := by decide
  tail_clean := by decide
  stop_eq := rfl

def journalMarkers : Markers where
  start := Journal.journalStart
  stop := Journal.journalEnd
  label := Journal.label
  tail := "journal: "
  start_eq := by decide
  tail_clean := by decide
  stop_eq := rfl

def markers : Kind → Markers
  | lease => leaseMarkers
  | journal => journalMarkers

/-- The start markers differ in the first letter after the common part. -/
theorem apart {k l : Kind} (h : k ≠ l) : Apart k.markers l.markers := by
  intro t
  cases k <;> cases l
  · exact absurd rfl h
  · exact Text.isPrefixOf?_none_of_head (c := 'l') (d := 'j') _ _ (by decide)
  · exact Text.isPrefixOf?_none_of_head (c := 'j') (d := 'l') _ _ (by decide)
  · exact absurd rfl h

end Kind

/-- Which payload each kind of block has. -/
abbrev Payloads := Kind → Option Text

/-- `d` is the user's text `s` with exactly the blocks of `val`, in some
order. -/
structure Laid (s d : Text) (val : Payloads) : Prop where
  user : Text.contains anyMarker s = false
  clean : ∀ k p, val k = some p → Clean p
  blocks : ∃ bs : List (Kind × Text), (bs.map Prod.fst).Nodup ∧
    (∀ k p, (k, p) ∈ bs ↔ val k = some p) ∧ d = layout s (bs.map fun b => (b.1.markers, b.2))

namespace Laid

variable {s d : Text} {val : Payloads}

theorem init (h : Text.contains anyMarker s = false) : Laid s s fun _ => none where
  user := h
  clean := by simp
  blocks := ⟨[], by simp, by simp, rfl⟩

/-- Without blocks the description is the user's text. -/
theorem eq_user (h : Laid s d val) (hn : ∀ k, val k = none) : d = s := by
  obtain ⟨bs, -, hm, rfl⟩ := h.blocks
  cases bs with
  | nil => rfl
  | cons b bs =>
    have := (hm b.1 b.2).mp (by simp)
    rw [hn] at this
    cases this

private def marked (bs : List (Kind × Text)) : List (Markers × Text) :=
  bs.map fun b => (b.1.markers, b.2)

private theorem marked_clean {bs : List (Kind × Text)} (h : ∀ b ∈ bs, Clean b.2) :
    ∀ b ∈ marked bs, Clean b.2 := by
  intro b hb
  obtain ⟨a, ha, rfl⟩ := List.mem_map.mp hb
  exact h a ha

private theorem marked_apart {k : Kind} {bs : List (Kind × Text)} (h : k ∉ bs.map Prod.fst) :
    ∀ b ∈ marked bs, Apart k.markers b.1 := by
  intro b hb
  obtain ⟨a, ha, rfl⟩ := List.mem_map.mp hb
  exact Kind.apart fun e => h (e ▸ List.mem_map_of_mem ha)

/-- A present block stands somewhere between the others. -/
private theorem split_at_kind {k : Kind} {p : Text} {bs : List (Kind × Text)}
    (hn : (bs.map Prod.fst).Nodup) (hm : (k, p) ∈ bs) :
    ∃ xs ys, bs = xs ++ (k, p) :: ys ∧ k ∉ xs.map Prod.fst ∧ k ∉ ys.map Prod.fst := by
  obtain ⟨xs, ys, rfl⟩ := List.append_of_mem hm
  simp only [List.map_append, List.map_cons, List.nodup_append, List.nodup_cons,
    List.mem_cons] at hn
  exact ⟨xs, ys, rfl, fun h => hn.2.2 k h k (Or.inl rfl) rfl, hn.2.1.1⟩

private theorem not_mem_of_none {k : Kind} {bs : List (Kind × Text)}
    (hm : ∀ k p, (k, p) ∈ bs ↔ val k = some p) (hv : val k = none) : k ∉ bs.map Prod.fst := by
  intro hk
  obtain ⟨⟨l, p⟩, hb, rfl⟩ := List.mem_map.mp hk
  rw [(hm _ _).mp hb] at hv
  cases hv

/-- An unset kind is not found, whatever the other block is. -/
theorem find_none (h : Laid s d val) {k : Kind} (hv : val k = none) : k.markers.find d = .ok none := by
  obtain ⟨bs, -, hm, rfl⟩ := h.blocks
  have hc : ∀ b ∈ bs, Clean b.2 := fun b hb => h.clean b.1 b.2 ((hm _ _).mp hb)
  exact find_absent h.user (marked_clean hc) (marked_apart (not_mem_of_none hm hv))

/-- A set kind is found with its payload. -/
theorem find_some (h : Laid s d val) {k : Kind} {p : Text} (hv : val k = some p) :
    ∃ f, k.markers.find d = .ok (some f) ∧ f.payload = p := by
  obtain ⟨bs, hn, hm, rfl⟩ := h.blocks
  have hc : ∀ b ∈ bs, Clean b.2 := fun b hb => h.clean b.1 b.2 ((hm _ _).mp hb)
  obtain ⟨xs, ys, rfl, hx, -⟩ := split_at_kind hn ((hm k p).mpr hv)
  have hcx : ∀ b ∈ xs, Clean b.2 := fun b hb => hc b (by simp [hb])
  have hf := find_layout (k := k.markers) h.user (marked ys) (h.clean k p hv) (marked_clean hcx)
    (marked_apart hx)
  exact ⟨_, by simpa [marked] using hf, rfl⟩

/-- **Setting or removing** a kind succeeds and changes that kind only. -/
theorem withBlock_step (h : Laid s d val) (k : Kind) (p : Option Text) (hp : ∀ q ∈ p, Clean q) :
    ∃ d', k.markers.withBlock d p = .ok d' ∧ Laid s d' (Function.update val k p) := by
  obtain ⟨bs, hn, hm, rfl⟩ := h.blocks
  have hc : ∀ b ∈ bs, Clean b.2 := fun b hb => h.clean b.1 b.2 ((hm _ _).mp hb)
  have clean : ∀ l q, Function.update val k p l = some q → Clean q := by
    intro l q hq
    by_cases e : l = k
    · subst e
      exact hp q (by simpa using hq)
    · exact h.clean l q (by simpa [e] using hq)
  cases hv : val k with
  | none =>
    have hk := not_mem_of_none hm hv
    cases p with
    | none =>
      have hw := withBlock_remove_absent (k := k.markers) h.user (marked_clean hc) (marked_apart hk)
      refine ⟨_, hw, h.user, clean, bs, hn, ?_, rfl⟩
      rwa [← hv, Function.update_eq_self]
    | some p =>
      have hw := withBlock_add (k := k.markers) h.user (marked_clean hc) (marked_apart hk) p
      refine ⟨_, hw, h.user, clean, bs ++ [(k, p)], ?_, ?_, ?_⟩
      · rw [List.map_append, List.nodup_append]
        refine ⟨hn, by simp, ?_⟩
        rintro a ha b hb rfl
        rw [List.map_singleton, List.mem_singleton] at hb
        subst hb
        exact hk ha
      · intro l q
        by_cases e : l = k
        · subst e
          have hno : (l, q) ∉ bs := fun hb => hk (List.mem_map_of_mem hb)
          simp [hno, eq_comm]
        · simp [e, hm]
      · simp [marked]
  | some o =>
    obtain ⟨xs, ys, rfl, hx, hy⟩ := split_at_kind hn ((hm k o).mpr hv)
    have hcx : ∀ b ∈ xs, Clean b.2 := fun b hb => hc b (by simp [hb])
    have hno : ∀ q, (k, q) ∉ xs ∧ (k, q) ∉ ys := fun q =>
      ⟨fun hb => hx (List.mem_map_of_mem hb), fun hb => hy (List.mem_map_of_mem hb)⟩
    have others : ∀ l q, l ≠ k → ((l, q) ∈ xs ∨ (l, q) ∈ ys ↔ val l = some q) := by
      intro l q e
      rw [← hm]
      simp [e]
    cases p with
    | none =>
      have hw := withBlock_remove (k := k.markers) h.user (marked ys) (h.clean k o hv)
        (marked_clean hcx) (marked_apart hx)
      refine ⟨_, by simpa [marked] using hw, h.user, clean, xs ++ ys, ?_, ?_, by simp⟩
      · exact hn.sublist (by simp)
      · intro l q
        by_cases e : l = k
        · subst e
          simp [hno q]
        · simp [e, others l q e]
    | some p =>
      have hw := withBlock_replace (k := k.markers) h.user (marked ys) (h.clean k o hv)
        (marked_clean hcx) (marked_apart hx) p
      refine ⟨_, by simpa [marked] using hw, h.user, clean, xs ++ (k, p) :: ys, ?_, ?_,
        by simp⟩
      · simpa using hn
      · intro l q
        by_cases e : l = k
        · subst e
          simp [hno q, eq_comm]
        · simp [e, others l q e]

end Laid

section Codecs

variable (B : Base64) (SL : Serde Lease) (SJ : Serde Journal)

/-- The payloads of an optional lease and an optional journal. -/
def payloads (lease : Option Lease) (journal : Option Journal) : Payloads
  | .lease => lease.map (Codec.encode B SL)
  | .journal => journal.map (Codec.encode B SJ)

theorem payloads_none : payloads B SL SJ none none = fun _ => none := by
  funext k
  cases k <;> rfl

variable {B SL SJ}

/-- Base64 output is a clean payload. -/
theorem encode_clean {α : Type} {S : Serde α} (a : α) : Clean (Codec.encode B S a) := B.clean _

theorem readLease_of_find {vmCfg : VmConfig} {f : Found} {lease : Lease}
    (hf : Description.find vmCfg.description Lease.leaseStart Lease.leaseEnd Lease.label = .ok (some f))
    (hp : f.payload = Codec.encode B SL lease) : readLease B SL vmCfg = .ok (some lease) := by
  obtain ⟨bytes, hb, hs⟩ := Option.bind_eq_some_iff.mp (Codec.decode_encode B SL lease)
  rw [← hp] at hb
  simp only [readLease, hf, hb, hs, bind, Except.bind, pure, Except.pure]

theorem readLease_of_laid {s : Text} {vmCfg : VmConfig} {val : Payloads} {lease : Option Lease}
    (h : Laid s vmCfg.description val) (hv : val .lease = lease.map (Codec.encode B SL)) :
    readLease B SL vmCfg = .ok lease := by
  cases lease with
  | none =>
    have hf : Description.find vmCfg.description Lease.leaseStart Lease.leaseEnd Lease.label =
        .ok none := h.find_none hv
    unfold readLease
    rw [hf]
    rfl
  | some lease =>
    obtain ⟨f, hf, hp⟩ := h.find_some hv
    exact readLease_of_find hf hp

/-- What `read_journal` makes of the journal that is set. -/
def checkedJournal (cfg : Config) (vmid : Nat) : Option Journal → Except CoreError (Option Journal)
  | none => .ok none
  | some journal => do
    if journal.vmid ≠ vmid then
      throw (.unusable ("The refresh journal of VM " ++ Text.ofNat vmid ++ " has an invalid VM identity"))
    validateJournal cfg journal
    return some journal

theorem readJournal_of_laid {s : Text} {vmCfg : VmConfig} {val : Payloads} {journal : Option Journal}
    (h : Laid s vmCfg.description val) (hv : val .journal = journal.map (Codec.encode B SJ))
    (cfg : Config) (vmid : Nat) :
    readJournal B SJ cfg vmid vmCfg = checkedJournal cfg vmid journal := by
  unfold readJournal
  cases journal with
  | none =>
    have hf : Description.find vmCfg.description Journal.journalStart Journal.journalEnd
        Journal.label = .ok none := h.find_none hv
    rw [hf]
    rfl
  | some journal =>
    obtain ⟨f, hf, hp⟩ := h.find_some hv
    have hf : Description.find vmCfg.description Journal.journalStart Journal.journalEnd
        Journal.label = .ok (some f) := hf
    obtain ⟨bytes, hb, hs⟩ := Option.bind_eq_some_iff.mp (Codec.decode_encode B SJ journal)
    rw [← hp] at hb
    simp only [hf, hb, hs, checkedJournal, bind, Except.bind]

/-! ## Sequences of operations -/

/-- One operation on the blocks of a description. -/
inductive BlockOp
  | setLease (lease : Lease)
  | removeLease
  | setJournal (journal : Journal)
  | removeJournal

namespace BlockOp

variable (B SL SJ) in
def apply (d : Text) : BlockOp → Except CoreError Text
  | setLease lease => Lease.descriptionWith B SL d (some lease)
  | removeLease => Lease.descriptionWith B SL d none
  | setJournal journal => Journal.descriptionWith B SJ d (some journal)
  | removeJournal => Journal.descriptionWith B SJ d none

variable (B SL SJ) in
/-- The operations in order, from the description `d`. -/
def applyAll (d : Text) : List BlockOp → Except CoreError Text
  | [] => .ok d
  | op :: ops => do applyAll (← op.apply B SL SJ d) ops

/-- The lease after an operation. -/
def lease (before : Option Lease) : BlockOp → Option Lease
  | setLease lease => some lease
  | removeLease => none
  | _ => before

/-- The journal after an operation. -/
def journal (before : Option Journal) : BlockOp → Option Journal
  | setJournal journal => some journal
  | removeJournal => none
  | _ => before

/-- The last lease set, none after a removal. -/
def lastLease (ops : List BlockOp) : Option Lease := ops.foldl lease none

/-- The last journal set, none after a removal. -/
def lastJournal (ops : List BlockOp) : Option Journal := ops.foldl journal none

/-- One operation succeeds and changes its own block only. -/
theorem apply_laid {s d : Text} {l : Option Lease} {j : Option Journal}
    (h : Laid s d (payloads B SL SJ l j)) (op : BlockOp) :
    ∃ d', op.apply B SL SJ d = .ok d' ∧ Laid s d' (payloads B SL SJ (op.lease l) (op.journal j)) := by
  have upd : ∀ {k : Kind} {p : Option Text} {l' : Option Lease} {j' : Option Journal},
      payloads B SL SJ l' j' = Function.update (payloads B SL SJ l j) k p →
      (∀ q ∈ p, Clean q) → ∃ d', k.markers.withBlock d p = .ok d' ∧
        Laid s d' (payloads B SL SJ l' j') := by
    intro k p l' j' e hp
    rw [e]
    exact h.withBlock_step k p hp
  cases op with
  | setLease lease =>
    refine upd (k := .lease) (p := some (Codec.encode B SL lease)) ?_
      (by rintro q ⟨⟩; exact encode_clean lease)
    funext k
    cases k <;> rfl
  | removeLease =>
    refine upd (k := .lease) (p := none) ?_ (by simp)
    funext k
    cases k <;> rfl
  | setJournal journal =>
    refine upd (k := .journal) (p := some (Codec.encode B SJ journal)) ?_
      (by rintro q ⟨⟩; exact encode_clean journal)
    funext k
    cases k <;> rfl
  | removeJournal =>
    refine upd (k := .journal) (p := none) ?_ (by simp)
    funext k
    cases k <;> rfl

/-- A sequence of operations keeps the description laid out. -/
theorem applyAll_laid {s d : Text} {l : Option Lease} {j : Option Journal}
    (h : Laid s d (payloads B SL SJ l j)) (ops : List BlockOp) :
    ∃ d', applyAll B SL SJ d ops = .ok d' ∧
      Laid s d' (payloads B SL SJ (ops.foldl BlockOp.lease l) (ops.foldl BlockOp.journal j)) := by
  induction ops generalizing d l j with
  | nil => exact ⟨d, rfl, h⟩
  | cons op ops ih =>
    obtain ⟨d', he, h'⟩ := apply_laid h op
    obtain ⟨d'', he', h''⟩ := ih h'
    exact ⟨d'', by simp only [applyAll, he]; exact he', h''⟩

end BlockOp

open BlockOp

/-- **The blocks do not disturb each other or the user's text.** From a text
without HomeStack markers every sequence of operations succeeds; the lease read
afterwards is the last one set, the journal is the last one set as
`validate_journal` judges it, and without blocks the text is the user's. -/
theorem blocks_independent (B : Base64) (SL : Serde Lease) (SJ : Serde Journal) (s : Text)
    (hs : Text.contains anyMarker s = false) (ops : List BlockOp) :
    ∃ d, applyAll B SL SJ s ops = .ok d ∧
      (∀ vmCfg : VmConfig, vmCfg.description = d →
        readLease B SL vmCfg = .ok (lastLease ops) ∧
        ∀ cfg vmid, readJournal B SJ cfg vmid vmCfg = checkedJournal cfg vmid (lastJournal ops)) ∧
      (lastLease ops = none → lastJournal ops = none → d = s) := by
  have h0 : Laid s s (payloads B SL SJ none none) := by
    rw [payloads_none]
    exact Laid.init hs
  obtain ⟨d, he, h⟩ := applyAll_laid h0 ops
  refine ⟨d, he, ?_, ?_⟩
  · rintro vmCfg rfl
    exact ⟨readLease_of_laid h rfl, fun cfg vmid => readJournal_of_laid h rfl cfg vmid⟩
  · intro hl hj
    apply h.eq_user
    intro k
    cases k with
    | lease => exact congrArg (Option.map _) hl
    | journal => exact congrArg (Option.map _) hj

/-- Three operations on a note, as `blocks_independent` describes them. -/
theorem blocks_independent_note :
    ∃ d, applyAll Base64.standard Lease.serde Journal.serde "note\n"
        [.setLease ⟨"a", "1", "resize", 0, 7200⟩, .removeJournal, .removeLease] = .ok d ∧ d = "note\n" := by
  obtain ⟨d, hd, -, hs⟩ := blocks_independent Base64.standard Lease.serde Journal.serde "note\n"
    (by decide) [.setLease ⟨"a", "1", "resize", 0, 7200⟩, .removeJournal, .removeLease]
  exact ⟨d, hd, hs rfl rfl⟩

end Codecs

open BlockOp

/-- A configuration with a description only. -/
def describedBy (d : Text) : VmConfig := {("description".toList, d)}

theorem describedBy_description (d : Text) : (describedBy d).description = d := by
  simp [describedBy, VmConfig.description]

/-- A journal of a version this server does not know. -/
def versionTwo : Journal where
  version := 2
  transactionId := "0123456789abcdef0123456789abcdef"
  phase := .prepared
  vmid := 100
  name := "ws"
  node := "pve1"
  initialStatus := .running
  oldRootSpec := "local:vm-100-hs-root-a,size=8G"
  oldRootVolume := "local:vm-100-hs-root-a"
  rootDisk := "scsi0"
  stagingSlot := "scsi2"
  goldRootDiskConfig := "local:base-9000-disk-0"
  newRootVolume := []
  newUnusedKey := []
  oldUnusedKey := []
  homeVolume := "local:vm-100-hs-home-a"
  homeLabel := "HS_HOME_100"
  homeDisk := "scsi1"
  restore := ∅
  rollingBack := false

theorem version_two_not_read (cfg : Config) :
    checkedJournal cfg 100 (some versionTwo) =
      .error (.unusable "Refresh journal has an unsupported version") := rfl

/-- A journal that was set and is not read back. -/
theorem set_journal_unread :
    ¬ ∀ (B : Base64) (SL : Serde Lease) (SJ : Serde Journal) (s : Text) (ops : List BlockOp)
      (cfg : Config) (vmid : Nat), Text.contains anyMarker s = false →
      ∃ d, applyAll B SL SJ s ops = .ok d ∧
        readJournal B SJ cfg vmid (describedBy d) = .ok (lastJournal ops) := by
  intro h
  obtain ⟨d, hd, hr⟩ := h Base64.standard Lease.serde Journal.serde [] [.setJournal versionTwo]
    sampleConfig 100 rfl
  have h0 : Laid [] [] (payloads Base64.standard Lease.serde Journal.serde none none) := by
    rw [payloads_none]
    exact Laid.init rfl
  obtain ⟨d', hd', hl⟩ := applyAll_laid h0 [.setJournal versionTwo]
  cases hd.symm.trans hd'
  rw [← describedBy_description d] at hl
  have hread : readJournal Base64.standard Journal.serde sampleConfig 100 (describedBy d) =
      checkedJournal sampleConfig 100 (some versionTwo) := readJournal_of_laid hl rfl _ _
  rw [hread, version_two_not_read] at hr
  cases hr

end HomeStack

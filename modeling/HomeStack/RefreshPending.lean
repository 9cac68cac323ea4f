import HomeStack.LeaseRuns
import HomeStack.Lifecycle
import HomeStack.RefreshFits

/-! Recovery on a VM whose pending unlinks stay pending (`recover` of `refresh.rs`).
The rewrite of the journal is to apply them, and the check after it reads the
configuration without its pending changes. So it does not stop the recovery; only
its later checks can. -/

namespace HomeStack.Refresh

open Op
open Prog (Env Exec Plays play exec_play wp wp_done wpe wpe_bind wpe_mono wpe_pure wpe_throw wpe_lift)

/-! ## What Proxmox shows -/

/-- A configuration and the changes that are pending. -/
structure Shown where
  config : VmConfig
  pending : List Json

/-- The configuration once the pending changes are applied. -/
def Shown.effective (s : Shown) : VmConfig := s.pending.foldl applyPending s.config

/-- The unlink of a disk is pending. -/
def Shown.UnlinkPending (s : Shown) : Prop :=
  ∃ entry ∈ s.pending, (entry.get "delete").bind Json.asU64 = some 1 ∧
    ∃ key, (entry.get "key").bind Json.asStr = some key ∧ isDiskSlot key = true

/-- No change of the description is pending. -/
def Shown.Described (s : Shown) : Prop :=
  ∀ entry ∈ s.pending, (entry.get "key").bind Json.asStr ≠ some "description".toList

/-- The same options, the description and the digest apart. -/
def Alike (c c' : VmConfig) : Prop :=
  ∀ key, key ≠ "description".toList → key ≠ "digest".toList → c'[key]? = (c)[key]?

/-- The description: as it was, or as it was written last. -/
def Shown.now (before : Shown) (written : Option Text) : Text := written.getD before.config.description

/-- A configuration that is read before the first write or after it. -/
def Shows (before after : Shown) : Option Text → VmConfig → Prop
  | none, c => c = before.config
  | some d, c => Alike after.config c ∧ c.description = d

/-- The changes that are pending before the first write or after it. -/
def pendingNow (before after : Shown) (written : Option Text) : List Json :=
  if written.isSome then after.pending else before.pending

/-- Reads are true or fail; a write of the description leaves what is shown `after`.
The state is the description that was written last. -/
def stuck (before after : Shown) : Env Call Call.Answer (Option Text) where
  next s q r s' :=
    match q, r with
    | .get (.config _ _) _, .ok (.obj map) => s' = s ∧ Shows before after s (parseConfig map)
    | .get (.pending _ _) _, .ok answer => s' = s ∧ answer.asArray.getD [] = pendingNow before after s
    | .put (.config _ _) form, .ok _ => s' = some (described form (before.now s))
    | .put (.config _ _) form, .error _ => s' = s ∨ s' = some (described form (before.now s))
    | _, _ => s' = s

/-- An unlink, an attach to the root slot, or the removal of the journal from the
description `d`. -/
def Acts (cfg : Config) (d : Text) : Call → Prop
  | .put (.unlink _ _) _ => True
  | .post (.config _ _) form => ∃ f ∈ form, f.1 = cfg.rootDisk
  | .put (.config _ _) form => Journal.descriptionWith .standard Journal.serde d none = .ok (described form d)
  | _ => False

/-- In every run the recovery fails and never acts. -/
def Stops (cfg : Config) (node : Text) (vmid : Nat) (journal : Journal) (before after : Shown) : Prop :=
  wpe (stuck before after) (fun s q => ¬Acts cfg (before.now s) q)
    (recover .standard Journal.serde cfg node vmid journal false) none (fun _ _ => False) fun _ _ => True

/-- A later check of the recovery refuses the configuration. -/
def Refused (cfg : Config) (journal : Journal) (e : VmConfig) : Prop :=
  if journal.phase = .verified ∧ journal.rollingBack = false then rootOf cfg e ≠ journal.newRootVolume
  else
    ¬(journal.newRootVolume ≠ [] ∧ rootOf cfg e = journal.newRootVolume) ∧
      ((rootOf cfg e ≠ [] ∧ rootOf cfg e ≠ journal.oldRootVolume) ∨
        (rootOf cfg e = [] ∧ unusedKeyOf e journal.oldRootVolume = none) ∨
        (rootOf cfg e = journal.oldRootVolume ∧
          ((unusedKeyOf e journal.oldRootVolume).isSome ∨ (homeMismatch journal e).isSome)))

/-! ## Options that do not matter -/

section Alike

variable {c c' : VmConfig}

theorem alike_erase (h : Alike c c') (key : Text) : Alike (c.erase key) (c'.erase key) := by
  intro k hdescription hdigest
  rw [Std.ExtTreeMap.getElem?_erase, Std.ExtTreeMap.getElem?_erase, h k hdescription hdigest]

theorem alike_insert (h : Alike c c') (key value : Text) :
    Alike (c.insert key value) (c'.insert key value) := by
  intro k hdescription hdigest
  rw [Std.ExtTreeMap.getElem?_insert, Std.ExtTreeMap.getElem?_insert, h k hdescription hdigest]

theorem alike_applyPending (h : Alike c c') (entry : Json) :
    Alike (applyPending c entry) (applyPending c' entry) := by
  unfold applyPending
  dsimp only
  split
  · exact h
  · split
    · exact h
    · split
      · exact alike_insert (alike_erase h _) _ _
      · exact alike_erase h _

theorem alike_applyPendings (h : Alike c c') (entries : List Json) :
    Alike (entries.foldl applyPending c) (entries.foldl applyPending c') := by
  induction entries generalizing c c' with
  | nil => exact h
  | cons entry entries ih => exact ih (alike_applyPending h entry)

theorem description_applyPendings {entries : List Json}
    (h : ∀ entry ∈ entries, (entry.get "key").bind Json.asStr ≠ some "description".toList) (c : VmConfig) :
    VmConfig.description (entries.foldl applyPending c) = c.description := by
  unfold VmConfig.description
  rw [Leasing.getElem?_applyAllPending (fun entry he hdelete => h entry he hdelete.1) (by decide)]

theorem disk_ne {slot : Text} (h : isDiskSlot slot = true) :
    slot ≠ "description".toList ∧ slot ≠ "digest".toList := by
  constructor
  · rintro rfl
    revert h
    decide
  · rintro rfl
    revert h
    decide

theorem slotVolume_alike (h : Alike c c') {slot : Text} (hslot : isDiskSlot slot = true) :
    slotVolume c' slot = slotVolume c slot := by
  obtain ⟨hdescription, hdigest⟩ := disk_ne hslot
  unfold slotVolume
  rw [h slot hdescription hdigest]

theorem homeMismatch_alike (h : Alike c c') {journal : Journal} (hslot : isDiskSlot journal.homeDisk = true) :
    homeMismatch journal c' = homeMismatch journal c := by
  obtain ⟨hdescription, hdigest⟩ := disk_ne hslot
  unfold homeMismatch
  rw [h _ hdescription hdigest]

theorem unusedKeyOf_isSome {volume : Text} :
    (unusedKeyOf c volume).isSome = true ↔ ∃ key value, (c)[key]? = some value ∧ isUnusedKey key = true ∧
      diskVolume value = volume := by
  unfold unusedKeyOf
  rw [Option.isSome_map, List.find?_isSome]
  constructor
  · rintro ⟨⟨key, value⟩, hmem, hfound⟩
    simp only [decide_eq_true_eq] at hfound
    exact ⟨key, value, Std.ExtTreeMap.mem_toList_iff_getElem?_eq_some.mp hmem, hfound⟩
  · rintro ⟨key, value, hvalue, hunused, hvolume⟩
    exact ⟨(key, value), Std.ExtTreeMap.mem_toList_iff_getElem?_eq_some.mpr hvalue,
      by simp [hunused, hvolume]⟩

theorem unused_ne {key : Text} (h : isUnusedKey key = true) :
    key ≠ "description".toList ∧ key ≠ "digest".toList := by
  constructor
  · rintro rfl
    revert h
    decide
  · rintro rfl
    revert h
    decide

theorem unusedKeyOf_alike (h : Alike c c') (volume : Text) :
    (unusedKeyOf c' volume).isSome = (unusedKeyOf c volume).isSome := by
  rw [Bool.eq_iff_iff, unusedKeyOf_isSome, unusedKeyOf_isSome]
  constructor
  · rintro ⟨key, value, hvalue, hunused, hvolume⟩
    obtain ⟨hdescription, hdigest⟩ := unused_ne hunused
    exact ⟨key, value, (h key hdescription hdigest) ▸ hvalue, hunused, hvolume⟩
  · rintro ⟨key, value, hvalue, hunused, hvolume⟩
    obtain ⟨hdescription, hdigest⟩ := unused_ne hunused
    exact ⟨key, value, (h key hdescription hdigest).trans hvalue, hunused, hvolume⟩

theorem hasPending_iff :
    hasPending c = true ↔ ∃ key, (c)[key]?.isSome = true ∧ Text.startsWith pendingUnused key = true := by
  unfold hasPending
  rw [List.any_eq_true]
  constructor
  · rintro ⟨key, hkey, hstarts⟩
    exact ⟨key, Std.ExtTreeMap.mem_iff_isSome_getElem?.mp (Std.ExtTreeMap.mem_keys.mp hkey), hstarts⟩
  · rintro ⟨key, hkey, hstarts⟩
    exact ⟨key, Std.ExtTreeMap.mem_keys.mpr (Std.ExtTreeMap.mem_iff_isSome_getElem?.mpr hkey), hstarts⟩

theorem hasPending_alike (h : Alike c c') : hasPending c' = hasPending c := by
  have hother : ∀ key, Text.startsWith pendingUnused key = true → c'[key]? = (c)[key]? := by
    intro key hstarts
    refine h key ?_ ?_
    · rintro rfl
      revert hstarts
      decide
    · rintro rfl
      revert hstarts
      decide
  rw [Bool.eq_iff_iff, hasPending_iff, hasPending_iff]
  constructor
  · rintro ⟨key, hkey, hstarts⟩
    exact ⟨key, hother key hstarts ▸ hkey, hstarts⟩
  · rintro ⟨key, hkey, hstarts⟩
    exact ⟨key, (hother key hstarts).symm ▸ hkey, hstarts⟩

/-- What the later checks read does not depend on the description. -/
theorem refused_alike (h : Alike c c') {cfg : Config} {journal : Journal}
    (hroot : isDiskSlot cfg.rootDisk = true) (hhome : isDiskSlot journal.homeDisk = true) :
    Refused cfg journal c' ↔ Refused cfg journal c := by
  have hunused := unusedKeyOf_alike h journal.oldRootVolume
  have hnone : unusedKeyOf c' journal.oldRootVolume = none ↔ unusedKeyOf c journal.oldRootVolume = none := by
    rw [← Option.not_isSome_iff_eq_none, ← Option.not_isSome_iff_eq_none, hunused]
  unfold Refused rootOf
  rw [slotVolume_alike h hroot, homeMismatch_alike h hhome, hunused, hnone]

end Alike

/-! ## Operations that neither act nor write -/

/-- Reads, and starting and stopping the VM. -/
def Idle : Call → Prop
  | .put _ _ => False
  | .post (.config _ _) _ => False
  | _ => True

theorem idle_of_isRead {q : Call} (h : q.isRead = true) : Idle q := by
  cases q with
  | put path form => cases h
  | post path form => cases h
  | _ => trivial

theorem idle_of_reads {α : Type} {p : Op α} (h : Reads p) : p.run.Asks Idle := h.mono fun _ => idle_of_isRead

theorem idle_shutdown (node : Text) (vmid : Nat) : (shutdown node vmid).run.Asks Idle :=
  asks_shutdownVm ⟨⟨fun _ _ => trivial, fun _ _ _ => trivial, trivial⟩, trivial, trivial,
    trivial, fun _ => trivial⟩ _

/-! ## Runs that never act -/

section Runs

variable {cfg : Config} {node : Text} {vmid : Nat} {before after : Shown} {α β : Type} {s : Option Text}

/-- In every run nothing acts, and `K` holds at the end of one that succeeds. -/
abbrev Passes (cfg : Config) (before after : Shown) (p : Op α) (s : Option Text)
    (K : α → Option Text → Prop) : Prop :=
  wpe (stuck before after) (fun s q => ¬Acts cfg (before.now s) q) p s K fun _ _ => True

namespace Passes

variable {K : α → Option Text → Prop}

theorem bind {x : Op β} {f : β → Op α} {L : β → Option Text → Prop} (hx : Passes cfg before after x s L)
    (hf : ∀ b t, L b t → Passes cfg before after (f b) t K) : Passes cfg before after (x >>= f) s K :=
  wpe_bind.mpr (wpe_mono hx hf fun _ _ he => he)

theorem check {x : Except CoreError β} {f : β → Op α}
    (hf : ∀ b, x = .ok b → Passes cfg before after (f b) s K) :
    Passes cfg before after (Op.ofExcept x >>= f) s K := by
  cases x with
  | ok b => exact wpe_bind.mpr (hf b rfl)
  | error e => exact wpe_bind.mpr trivial

theorem guard {c : Prop} [Decidable c] {e : CoreError} {f : PUnit → Op α}
    (hf : ¬c → Passes cfg before after (f PUnit.unit) s K) :
    Passes cfg before after (if c then throw e >>= f else f PUnit.unit) s K := by
  split
  · exact wpe_bind.mpr trivial
  · next hc => exact hf hc

theorem idle {p : Op α} (hp : p.run.Asks Idle) : Passes cfg before after p s fun _ t => t = s := by
  refine wpe_mono (Prog.wpe_inv (J := fun t => t = s) hp rfl ?_ ?_) (fun _ _ h => h) fun _ _ _ => trivial
  · rintro t q r t' hq rfl hn
    cases q with
    | put path form => exact hq.elim
    | get path query =>
      cases path with
      | config node vmid =>
        cases r with
        | error e => exact hn
        | ok answer =>
          cases answer with
          | obj map => exact hn.1
          | _ => exact hn
      | pending node vmid =>
        cases r with
        | error e => exact hn
        | ok answer => exact hn.1
      | _ => exact hn
    | _ => exact hn
  · rintro t q hq -
    cases q with
    | put path form => exact hq.elim
    | post path form =>
      cases path with
      | config node vmid => exact hq.elim
      | _ => exact fun h => h
    | _ => exact fun h => h

/-- Only in some cases, before the rest. -/
theorem perhaps {c : Prop} [Decidable c] {x : Op PUnit} {f : PUnit → Op α} (hx : x.run.Asks Idle)
    (hf : Passes cfg before after (f PUnit.unit) s K) :
    Passes cfg before after (if c then x >>= f else f PUnit.unit) s K := by
  split
  · refine bind (idle hx) ?_
    rintro - t rfl
    exact hf
  · exact hf

end Passes

theorem passes_vmConfig (node : Text) (vmid : Nat) :
    Passes cfg before after (vmConfig node vmid) s fun c t => t = s ∧ Shows before after s c := by
  refine wpe_bind.mpr (wpe_bind.mpr (wpe_lift ⟨fun h => h, fun r t hn => ?_⟩))
  cases r with
  | error e => trivial
  | ok answer =>
    cases answer with
    | obj map => exact hn
    | _ => trivial

theorem passes_effectiveConfig (node : Text) (vmid : Nat) :
    Passes cfg before after (effectiveConfig node vmid) s fun e t =>
      t = s ∧ ∃ c, Shows before after s c ∧ e = (pendingNow before after s).foldl applyPending c := by
  refine Passes.bind (passes_vmConfig node vmid) ?_
  rintro c t ⟨rfl, hc⟩
  refine wpe_bind.mpr (wpe_bind.mpr (wpe_lift ⟨fun h => h, fun r t' hn => ?_⟩))
  cases r with
  | error e => trivial
  | ok answer =>
    obtain ⟨rfl, hpending⟩ := hn
    refine ⟨rfl, c, hc, ?_⟩
    rw [hpending]

/-- Before the first write. -/
theorem passes_effectiveConfig_before (node : Text) (vmid : Nat) :
    Passes cfg before after (effectiveConfig node vmid) none fun e t => t = none ∧ e = before.effective := by
  refine wpe_mono (passes_effectiveConfig node vmid) ?_ fun _ _ he => he
  rintro e t ⟨rfl, c, rfl, rfl⟩
  exact ⟨rfl, rfl⟩

/-- After it. -/
theorem passes_effectiveConfig_after (hafter : after.Described) (node : Text) (vmid : Nat) (d : Text) :
    Passes cfg before after (effectiveConfig node vmid) (some d) fun e t =>
      t = some d ∧ Alike after.effective e ∧ e.description = d := by
  refine wpe_mono (passes_effectiveConfig node vmid) ?_ fun _ _ he => he
  rintro e t ⟨rfl, c, ⟨halike, hdescription⟩, rfl⟩
  refine ⟨rfl, alike_applyPendings halike _, ?_⟩
  rw [← hdescription]
  exact description_applyPendings hafter c

/-- A journal's block with these texts around it. -/
def Framed (f : Description.Found) (d : Text) : Prop :=
  ∃ p, Kind.journalMarkers.find d = .ok (some ⟨f.before, p, f.after⟩)

/-- The description with a journal in the frame. -/
noncomputable def framed (f : Description.Found) (k : Journal) : Text :=
  f.before ++ Kind.journalMarkers.block (payload k) ++ f.after

section Framed

variable {f : Description.Found} {d : Text}

theorem framed_framed (hd : Framed f d) (k : Journal) : Framed f (framed f k) := by
  obtain ⟨p, hp⟩ := hd
  have hbefore := before_of_find hp
  exact ⟨payload k, find_block (show Text.splitOnce _ f.before = none from hbefore) (Base64.standard.clean _)⟩

theorem descriptionWith_framed (hd : Framed f d) (k : Journal) :
    Journal.descriptionWith .standard Journal.serde d (some k) = .ok (framed f k) := by
  obtain ⟨p, hp⟩ := hd
  exact Description.Markers.withBlock_set_found hp _

theorem descriptionWith_cut (hd : Framed f d) :
    Journal.descriptionWith .standard Journal.serde d none = .ok (Description.cutBlock f) := by
  obtain ⟨p, hp⟩ := hd
  exact Description.Markers.withBlock_unset_found hp

theorem cutBlock_ne_framed (k : Journal) : Description.cutBlock f ≠ framed f k := by
  intro h
  have hcut := cutBlock_length f
  have hblock := block_length f.before f.after k
  rw [h, framed] at hcut
  omega

/-- A write of the journal is no removal. -/
theorem not_acts_write (hd : Framed f d) (k : Journal) (digest : Option Text) :
    ¬Acts cfg d (.put (.config node vmid) (configForm (describeForm (framed f k)) digest)) := by
  intro h
  have h : Journal.descriptionWith .standard Journal.serde d none =
    .ok (described (configForm (describeForm (framed f k)) digest) d) := h
  rw [descriptionWith_cut hd, described_form] at h
  exact cutBlock_ne_framed k (Except.ok.inj h)

end Framed

/-- The journal is written again: nothing acts, and the rest is shown as `after`. -/
theorem passes_writeJournal {f : Description.Found} {e : VmConfig} (hd : Framed f (before.now s))
    (he : e.description = before.now s) (k : Journal) :
    Passes cfg before after (writeJournal .standard Journal.serde node vmid e (some k)) s fun c t =>
      t = some (framed f k) ∧ Shows before after t c := by
  have hwritten := framed_framed hd k
  have hput : ∀ digest t, Framed f (before.now t) →
      wpe (stuck before after) (fun s q => ¬Acts cfg (before.now s) q)
        (put (.config node vmid) (configForm (describeForm (framed f k)) digest)) t
        (fun _ t' => t' = some (framed f k))
        fun _ t' => Framed f (before.now t') := by
    intro digest t ht
    refine wpe_bind.mpr (wpe_lift ⟨not_acts_write ht k digest, fun r t' hn => ?_⟩)
    cases r with
    | ok answer =>
      have hn : t' = some (described (configForm (describeForm (framed f k)) digest) (before.now t)) := hn
      rw [described_form] at hn
      exact hn
    | error err =>
      have hn : t' = t ∨ t' = some (described (configForm (describeForm (framed f k)) digest)
          (before.now t)) := hn
      rw [described_form] at hn
      rcases hn with rfl | rfl
      · exact ht
      · exact hwritten
  have hloop : ∀ digest n t, Framed f (before.now t) →
      wpe (stuck before after) (fun s q => ¬Acts cfg (before.now s) q)
        (retryWhileLocked.go (put (.config node vmid) (configForm (describeForm (framed f k)) digest)) n) t
        (fun _ t' => t' = some (framed f k)) fun _ t' => Framed f (before.now t') := by
    intro digest n
    induction n with
    | zero => exact hput digest
    | succ n ih =>
      intro t ht
      refine wpe_bind.mpr (Prog.wpe_attempt (wpe_mono (hput digest t ht)
        (fun a t' h => h) fun err t' herr => ?_))
      dsimp only
      split
      · exact ih t' herr
      · exact herr
  unfold writeJournal
  rw [he, descriptionWith_framed hd]
  refine wpe_bind.mpr ?_
  change wpe _ _ (ite _ _ _) s _ _
  split
  · exact wpe_bind.mpr trivial
  have hset : Passes cfg before after (setVmConfig node vmid
      (describeForm (framed f k)) e["digest".toList]?) s
      fun _ t => t = some (framed f k) := by
    refine wpe_bind.mpr (wpe_bind.mpr (wpe_lift ⟨fun h => h, fun n t hn => ?_⟩))
    obtain rfl : t = s := hn
    exact wpe_mono (hloop _ n t hd) (fun _ _ h => h) fun _ _ _ => trivial
  refine Passes.bind hset ?_
  rintro - t rfl
  refine wpe_mono (passes_vmConfig node vmid) ?_ fun _ _ he => he
  rintro c t ⟨rfl, hc⟩
  exact ⟨rfl, hc⟩

/-! ## A refused configuration stops the recovery -/

section Refused

variable {f : Description.Found} {j : Journal} (hroot : isDiskSlot cfg.rootDisk = true)
  (hhome : isDiskSlot j.homeDisk = true) (hafter : after.Described)

include hroot hafter in
theorem refused_finishVerified (hphase : j.phase = .verified ∧ j.rollingBack = false) (d : Text)
    (hrefused : Refused cfg j after.effective) :
    Passes cfg before after (finishVerified .standard Journal.serde cfg node vmid j)
      (some d) fun _ _ => False := by
  refine Passes.bind (passes_effectiveConfig_after hafter node vmid d) ?_
  rintro e t ⟨rfl, halike, -⟩
  refine Passes.guard fun hsame => ?_
  unfold Refused at hrefused
  rw [if_pos hphase] at hrefused
  exact absurd ((slotVolume_alike halike hroot).symm.trans (not_not.mp hsame)) hrefused

theorem passes_beginRollback (hafter : after.Described) {d : Text} (hd : Framed f d) :
    Passes cfg before after (beginRollback .standard Journal.serde node vmid j) (some d) fun k t =>
      k = { j with rollingBack := true } ∧ ∃ d', t = some d' := by
  refine Passes.bind (passes_effectiveConfig_after hafter node vmid d) ?_
  rintro e t ⟨rfl, -, he⟩
  split
  · next hback =>
    refine ⟨?_, d, rfl⟩
    rw [← hback]
  · refine Passes.bind (passes_writeJournal (s := some d) hd he _) ?_
    rintro c t ⟨rfl, -⟩
    exact ⟨rfl, _, rfl⟩

/-- The checks after the new root left the root slot. -/
theorem refused_reattachOld {d : Text} {e : VmConfig} (hold : j.oldRootVolume ≠ [])
    (hchecks : (rootOf cfg e ≠ [] ∧ rootOf cfg e ≠ j.oldRootVolume) ∨
      (rootOf cfg e = [] ∧ unusedKeyOf e j.oldRootVolume = none) ∨
      (rootOf cfg e = j.oldRootVolume ∧ ((unusedKeyOf e j.oldRootVolume).isSome ∨
        (homeMismatch j e).isSome))) :
    Passes cfg before after (reattachOld cfg node vmid j e) (some d) fun c t =>
      c = e ∧ t = some d ∧ ((unusedKeyOf e j.oldRootVolume).isSome ∨ (homeMismatch j e).isSome) := by
  unfold reattachOld
  refine Passes.guard fun hknown => ?_
  rcases hchecks with hunknown | ⟨hempty, hnone⟩ | ⟨hsame, hlate⟩
  · exact absurd hunknown hknown
  · rw [if_pos hempty, hnone]
    exact wpe_bind.mpr trivial
  · rw [if_neg (fun h => hold (hsame.symm.trans h))]
    exact ⟨rfl, rfl, hlate⟩

include hroot hhome hafter in
theorem refused_rollBack (hphase : ¬(j.phase = .verified ∧ j.rollingBack = false))
    (hold : j.oldRootVolume ≠ []) {d : Text} (hd : Framed f d) (hrefused : Refused cfg j after.effective) :
    Passes cfg before after (rollBack .standard Journal.serde cfg node vmid j) (some d) fun _ _ => False := by
  refine Passes.bind (passes_beginRollback hafter hd) ?_
  rintro k t ⟨rfl, d', rfl⟩
  refine Passes.bind (passes_effectiveConfig_after hafter node vmid d') ?_
  rintro e t ⟨rfl, halike, -⟩
  have hrefused := (refused_alike halike hroot hhome).mpr hrefused
  unfold Refused at hrefused
  rw [if_neg hphase] at hrefused
  obtain ⟨hunlink, hchecks⟩ := hrefused
  have hkeep : unlinkNewRoot cfg node vmid { j with rollingBack := true } e = pure e := by
    unfold unlinkNewRoot
    dsimp only
    rw [if_neg hunlink]
  rw [hkeep]
  refine Passes.bind (L := fun c t => c = e ∧ t = some d') ⟨rfl, rfl⟩ ?_
  rintro c t ⟨rfl, rfl⟩
  refine Passes.bind (refused_reattachOld (j := { j with rollingBack := true }) hold hchecks) ?_
  rintro c t ⟨rfl, rfl, hlate⟩
  refine Passes.guard fun _ => Passes.guard fun hnone => Passes.check fun _ hsame => ?_
  rcases hlate with hunused | hmismatch
  · exact absurd hunused hnone
  · obtain ⟨text, htext⟩ := Option.isSome_iff_exists.mp hmismatch
    unfold requireHome at hsame
    rw [htext] at hsame
    cases hsame

/-- The state of a recovery that rewrites its journal. -/
structure Rewrites (cfg : Config) (node : Text) (before after : Shown) (f : Description.Found) (j : Journal) :
    Prop where
  root : isDiskSlot cfg.rootDisk = true
  home : isDiskSlot cfg.homeDisk = true
  valid : validateJournal cfg j = .ok ()
  agrees : journalMismatches j node before.effective = []
  pending : hasPending before.effective = true
  described : before.Described ∧ after.Described
  found : Kind.journalMarkers.find before.config.description = .ok (some f)

theorem validateJournal_ok {journal : Journal} (h : validateJournal cfg journal = .ok ()) :
    journal.oldRootVolume ≠ [] ∧ journal.homeDisk = cfg.homeDisk := by
  unfold validateJournal at h
  obtain ⟨-, h⟩ := Except.guard_ok h
  obtain ⟨-, h⟩ := Except.guard_ok h
  obtain ⟨-, h⟩ := Except.guard_ok h
  obtain ⟨hslots, h⟩ := Except.guard_ok h
  obtain ⟨-, h⟩ := Except.guard_ok h
  obtain ⟨-, h⟩ := Except.guard_ok h
  obtain ⟨hold, h⟩ := Except.guard_ok h
  rw [not_or, not_not, not_not] at hslots
  refine ⟨fun hempty => hold (Or.inl ?_), hslots.2⟩
  rw [hempty]
  rfl

theorem withStaged_same (journal : Journal) (c : VmConfig) :
    (withStaged journal c).oldRootVolume = journal.oldRootVolume ∧
      (withStaged journal c).homeDisk = journal.homeDisk := by
  unfold withStaged
  split
  · split <;> exact ⟨rfl, rfl⟩
  · exact ⟨rfl, rfl⟩

theorem refused_settle (h : Rewrites cfg node before after f j)
    (hcond : hasPending after.config = true ∨ Refused cfg (withStaged j before.effective) after.effective) :
    Passes cfg before after (settle .standard Journal.serde cfg node vmid
      (withStaged j before.effective)) none
      fun _ _ => False := by
  obtain ⟨hold, hhome⟩ := validateJournal_ok h.valid
  obtain ⟨hold', hhome'⟩ := withStaged_same j before.effective
  have hslot : isDiskSlot (withStaged j before.effective).homeDisk = true := by
    rw [hhome', hhome]
    exact h.home
  have hframed : Framed f (before.now none) := ⟨f.payload, h.found⟩
  have hdescription : before.effective.description = before.now none :=
    description_applyPendings h.described.1 before.config
  refine Passes.bind (Passes.idle (idle_of_reads (reads_vmStatus node vmid))) ?_
  rintro status t rfl
  refine Passes.perhaps (idle_shutdown node vmid) ?_
  have hsettle : Passes cfg before after
      (settlePending .standard Journal.serde node vmid (withStaged j before.effective)) none fun _ t =>
        t = some (framed f (withStaged j before.effective)) ∧ hasPending after.config = false := by
    refine Passes.bind (passes_effectiveConfig_before node vmid) ?_
    rintro e t ⟨rfl, rfl⟩
    rw [if_pos h.pending]
    refine Passes.bind (passes_writeJournal hframed hdescription _) ?_
    rintro c t ⟨rfl, hc⟩
    split
    · trivial
    · next hnone => exact ⟨rfl, by rw [← hasPending_alike hc.1]; simpa using hnone⟩
  refine Passes.bind hsettle ?_
  rintro - t ⟨rfl, hnone⟩
  rcases hcond with hpending | hrefused
  · rw [hnone] at hpending
    cases hpending
  split
  · next hphase => exact refused_finishVerified h.root h.described.2 hphase _ hrefused
  · next hphase =>
    exact refused_rollBack h.root hslot h.described.2 hphase (hold'.symm ▸ hold)
      (framed_framed hframed _) hrefused

theorem refused_recover (h : Rewrites cfg node before after f j)
    (hcond : hasPending after.config = true ∨ Refused cfg (withStaged j before.effective) after.effective) :
    Stops cfg node vmid j before after := by
  refine Passes.check fun _ _ => ?_
  refine Passes.bind (passes_effectiveConfig_before node vmid) ?_
  rintro e t ⟨rfl, rfl⟩
  dsimp only
  rw [h.agrees]
  exact refused_settle h hcond

end Refused

end Runs

/-! ## Otherwise there is a run that acts -/

section OneVm

variable {cfg : Config} {node : Text} {vmid : Nat} {before after : Shown} {α β : Type} {s : Option Text}

/-- The configuration that is read. -/
def shownConfig (before after : Shown) : Option Text → VmConfig
  | none => before.config
  | some d => after.config.insert "description" d

/-- A task id. -/
def stuckUpid : Text := "UPID:pve1:1:2:3:qmconfig:101:root@pam:"

/-- A Proxmox whose calls all succeed. -/
def obey (before after : Shown) (s : Option Text) : (q : Call) → q.Answer × Option Text
  | .get (.config _ _) _ => (.ok (configJson (shownConfig before after s)), s)
  | .get (.pending _ _) _ => (.ok (.arr (pendingNow before after s)), s)
  | .get (.taskStatus _ _) _ => (.ok (.obj [("status", .str "stopped"), ("exitstatus", .str "OK")]), s)
  | .get _ _ => (.ok .null, s)
  | .post _ _ => (.ok (.str stuckUpid), s)
  | .put (.config _ _) form => (.ok .null, some (described form (before.now s)))
  | .put _ _ => (.ok .null, s)
  | .delete _ _ => (.ok .null, s)
  | .rounds => ((0 : Nat), s)
  | .running _ _ => (false, s)
  | .probe _ => (.ok none, s)
  | .uuid => ([], s)

theorem description_insert (c : VmConfig) (d : Text) :
    VmConfig.description (c.insert "description" d) = d := by
  unfold VmConfig.description
  rw [Std.ExtTreeMap.getElem?_insert, if_pos (by simp)]
  rfl

theorem alike_description (c : VmConfig) (d : Text) : Alike c (c.insert "description" d) := by
  intro key hdescription hdigest
  rw [Std.ExtTreeMap.getElem?_insert, if_neg]
  rw [Std.LawfulEqCmp.compare_eq_iff_eq]
  exact fun h => hdescription h.symm

theorem shownConfig_shows (s : Option Text) : Shows before after s (shownConfig before after s) := by
  cases s with
  | none => rfl
  | some d => exact ⟨alike_description _ d, description_insert _ d⟩

theorem obey_next (s : Option Text) (q : Call) :
    (stuck before after).next s q (obey before after s q).1 (obey before after s q).2 := by
  cases q with
  | get path query =>
    cases path with
    | config node vm =>
      refine ⟨rfl, ?_⟩
      rw [parseConfig_toList]
      exact shownConfig_shows s
    | pending node vm => exact ⟨rfl, rfl⟩
    | _ => rfl
  | put path form =>
    cases path with
    | config node vm => rfl
    | _ => rfl
  | _ => rfl

theorem obey_vmConfig (node : Text) (vmid : Nat) (s : Option Text) :
    Plays (obey before after) (vmConfig node vmid) s (shownConfig before after s) s := by
  have hget : Plays (obey before after) (get (.config node vmid) []) s
      (configJson (shownConfig before after s)) s :=
    Plays.bind (Plays.call _) (Plays.pure _)
  exact Plays.bind hget (congrArg (fun c => (Except.ok c, s)) (parseConfig_toList _))

/-- The configuration with its pending changes. -/
def effectiveNow (before after : Shown) (s : Option Text) : VmConfig :=
  (pendingNow before after s).foldl applyPending (shownConfig before after s)

theorem obey_effectiveConfig (node : Text) (vmid : Nat) (s : Option Text) :
    Plays (obey before after) (effectiveConfig node vmid) s (effectiveNow before after s) s := by
  have hget : Plays (obey before after) (get (.pending node vmid) []) s
      (.arr (pendingNow before after s)) s :=
    Plays.bind (Plays.call _) (Plays.pure _)
  exact Plays.bind (obey_vmConfig node vmid s) (Plays.bind hget (Plays.pure _))

theorem obey_postTask (path : Path) (form : Form) (what : Text) (timeoutSecs : Nat) (s : Option Text) :
    Plays (obey before after) (postTask path form what timeoutSecs) s () s := by
  have hupid : upidFields stuckUpid = some (stuckUpid.splitOn ':') :=
    Text.of_literal (P := fun t => upidFields t = some (t.splitOn ':')) (by decide)
  have hwait : Plays (obey before after) (waitTask stuckUpid timeoutSecs) s ⟨stuckUpid, "OK"⟩ s := by
    unfold waitTask
    rw [hupid]
    refine Plays.bind (Plays.call _) ?_
    have hpoll : ∀ node, Plays (obey before after) (pollTask node stuckUpid 0) s
        (some ⟨stuckUpid, "OK"⟩, 0) s := fun _ => rfl
    unfold pollUntil
    exact Plays.bind (hpoll _) (Plays.pure _)
  exact Plays.bind (Plays.call _) (Plays.bind (Plays.bind (Plays.call _) (Plays.pure _))
    (Plays.bind (Plays.pure _) (Plays.bind hwait (Plays.pure _))))

theorem obey_startVm (s : Option Text) : Plays (obey before after) (startVm node vmid) s () s :=
  obey_postTask _ _ _ _ s

theorem obey_set (c : VmConfig) (values : Form) (what : Text) (s : Option Text) :
    Plays (obey before after) (set node vmid c values what) s (effectiveNow before after s) s := by
  unfold set
  dsimp only
  exact Plays.bind (obey_postTask _ _ _ _ s) (obey_effectiveConfig node vmid s)

theorem obey_writeJournal {f : Description.Found} {e : VmConfig} (hd : Framed f (before.now s))
    (he : e.description = before.now s) (k : Journal) (hfits : (framed f k).length ≤ Journal.descriptionMax) :
    Plays (obey before after) (writeJournal .standard Journal.serde node vmid e (some k)) s
      (shownConfig before after (some (framed f k))) (some (framed f k)) := by
  have hput : Plays (obey before after) (put (.config node vmid)
      (configForm (describeForm (framed f k)) e["digest".toList]?))
      s .null (some (framed f k)) := by
    refine Plays.bind (Plays.call _) ?_
    change play _ _ (some (described (configForm (describeForm (framed f k)) e["digest".toList]?)
      (before.now s))) = _
    rw [described_form]
    rfl
  unfold writeJournal
  rw [he, descriptionWith_framed hd]
  refine Plays.bind (Plays.pure _) (Plays.guard (not_lt.mpr hfits) ?_)
  exact Plays.bind (Plays.bind (Plays.bind (Plays.call _) hput) (Plays.pure _)) (obey_vmConfig node vmid _)

/-! ### Steps that act -/

variable {K : α → Option Text → Prop}

theorem Passes.rest {x : Op β} {k : β → Op α} {b : β} {t : Option Text}
    (hw : Passes cfg before after (x >>= k) s K) (hx : Plays (obey before after) x s b t) :
    Passes cfg before after (k b) t K :=
  Prog.wpe_after obey_next hw hx

theorem Passes.first {x : Op β} {k : β → Op α} (hw : Passes cfg before after (x >>= k) s K) :
    Passes cfg before after x s fun _ _ => True :=
  wpe_mono (wpe_bind.mp hw) (fun _ _ _ => trivial) fun _ _ _ => trivial

theorem Passes.asked {q : Call} {k : q.Answer → Op α} (hw : Passes cfg before after (Op.call q >>= k) s K) :
    ¬Acts cfg (before.now s) q := by
  have hq : wp (stuck before after) (fun s q => ¬Acts cfg (before.now s) q) (Op.call q).run s _ :=
    wpe_bind.mp hw
  exact hq.1

/-- A call that is tried again is asked at least once. -/
theorem Passes.asked_retry {q : Call} {k : q.Answer → Op β}
    (hq : Passes cfg before after (retryWhileLocked (Op.call q >>= k)) s fun _ _ => True) :
    ¬Acts cfg (before.now s) q := by
  have hgo := Passes.rest hq (Plays.call Call.rounds)
  exact Passes.asked hgo

theorem not_passes_unlink {slot volume : Text} {force : Bool} {K : VmConfig → Option Text → Prop}
    (hw : Passes cfg before after (unlink node vmid slot volume force) s K)
    (hslot : slotVolume (effectiveNow before after s) slot = volume) : False := by
  have hread := Passes.rest hw (obey_effectiveConfig node vmid s)
  dsimp only at hread
  rw [if_neg (not_not.mpr hslot)] at hread
  exact Passes.asked_retry (Passes.first hread) trivial

theorem not_passes_attach {c : VmConfig} {spec what : Text} {K : VmConfig → Option Text → Prop}
    (hw : Passes cfg before after (set node vmid c [(cfg.rootDisk, spec)] what) s K) : False := by
  unfold set at hw
  dsimp only at hw
  have hpost := Passes.rest (Passes.first hw) (Plays.call Call.rounds)
  have hasked := Passes.asked (Passes.first hpost)
  refine hasked ?_
  split
  · exact ⟨_, List.mem_cons_self, rfl⟩
  · exact ⟨_, List.mem_cons_self, rfl⟩

variable (before) in
theorem effectiveNow_after (hafter : after.Described) (d : Text) :
    Alike after.effective (effectiveNow before after (some d)) ∧
      (effectiveNow before after (some d)).description = d := by
  refine ⟨alike_applyPendings (alike_description after.config d) _, ?_⟩
  have hdescription := description_applyPendings hafter (after.config.insert "description" d)
  rw [description_insert] at hdescription
  exact hdescription

theorem not_passes_removeJournal {f : Description.Found} {d : Text} {K : VmConfig → Option Text → Prop}
    (hafter : after.Described) (hd : Framed f d)
    (hcut : (Description.cutBlock f).length ≤ Journal.descriptionMax)
    (hw : Passes cfg before after (removeJournal .standard Journal.serde node vmid) (some d) K) : False := by
  have hdescription := (effectiveNow_after before hafter d).2
  have hread := Passes.rest hw (obey_effectiveConfig node vmid (some d))
  unfold writeJournal at hread
  rw [hdescription, descriptionWith_cut hd] at hread
  have hwrite := Passes.rest hread (Plays.pure _)
  dsimp only at hwrite
  rw [if_neg (not_lt.mpr hcut)] at hwrite
  have hacts := Passes.asked_retry (Passes.first (Passes.first hwrite))
  refine hacts ?_
  change Journal.descriptionWith .standard Journal.serde d none = .ok (described _ _)
  rw [described_form]
  exact descriptionWith_cut hd

/-- The key that is found holds the volume. -/
theorem slotVolume_unused {c : VmConfig} {volume key : Text} (h : unusedKeyOf c volume = some key) :
    slotVolume c key = volume := by
  obtain ⟨⟨k, value⟩, hfind, rfl⟩ := Option.map_eq_some_iff.mp h
  have hvalue := Std.ExtTreeMap.mem_toList_iff_getElem?_eq_some.mp (List.mem_of_find?_eq_some hfind)
  have hvolume := List.find?_some hfind
  simp only [decide_eq_true_eq] at hvolume
  unfold slotVolume
  rw [hvalue]
  exact hvolume.2

theorem slotVolume_newSlot {c : VmConfig} {journal : Journal} {slot : Text}
    (h : newSlot journal c = some slot) :
    slotVolume c slot = journal.newRootVolume := by
  unfold newSlot at h
  dsimp only at h
  split at h
  · cases h
  · split at h
    · next hstaged =>
      cases h
      unfold slotVolume
      rw [hstaged]
      rfl
    · exact slotVolume_unused h

section Acting

variable {f : Description.Found} {d : Text} {j : Journal}

/-- The end of both ways. -/
theorem not_passes_end {γ : Type} {a : γ} (hafter : after.Described) (hd : Framed f d)
    (hcut : (Description.cutBlock f).length ≤ Journal.descriptionMax) {c : Prop} [Decidable c] {K : γ →
      Option Text → Prop}
    (hw : Passes cfg before after (if c then startVm node vmid >>= fun _ => do
      let _ ← removeJournal .standard Journal.serde node vmid
      pure a else do
      let _ ← removeJournal .standard Journal.serde node vmid
      pure a) (some d) K) : False := by
  split at hw
  · have hstarted := Passes.rest hw (obey_startVm (some d))
    exact not_passes_removeJournal hafter hd hcut (Passes.first hstarted)
  · exact not_passes_removeJournal hafter hd hcut (Passes.first hw)

theorem not_passes_finishVerified (hafter : after.Described) (hd : Framed f d)
    (hcut : (Description.cutBlock f).length ≤ Journal.descriptionMax) (hroot : isDiskSlot cfg.rootDisk = true)
    (hsame : rootOf cfg after.effective = j.newRootVolume) {K : Recovery → Option Text → Prop}
    (hw : Passes cfg before after (finishVerified .standard Journal.serde cfg node vmid j)
      (some d) K) : False := by
  have halike := (effectiveNow_after before hafter d).1
  have hread := Passes.rest hw (obey_effectiveConfig node vmid (some d))
  have hsame : rootOf cfg (effectiveNow before after (some d)) = j.newRootVolume :=
    (slotVolume_alike halike hroot).trans hsame
  dsimp only at hread
  rw [if_neg (not_not.mpr hsame)] at hread
  split at hread
  · next key hkey => exact not_passes_unlink (Passes.first hread) (slotVolume_unused hkey)
  · exact not_passes_end hafter hd hcut hread

theorem not_passes_deleteNew {e : VmConfig} (he : e = effectiveNow before after (some d))
    {K : VmConfig → Option Text → Prop} (hw : Passes cfg before after (deleteNew node vmid j e) (some d) K) :
    deleteNew node vmid j e = pure e := by
  unfold deleteNew at hw ⊢
  split at hw
  · next slot hslot =>
    refine (not_passes_unlink hw ?_).elim
    rw [← he]
    exact slotVolume_newSlot hslot
  · rfl

theorem obey_restoreOptions (c : VmConfig) (s : Option Text) :
    Plays (obey before after) (restoreOptions node vmid j c) s () s := by
  unfold restoreOptions
  dsimp only
  split
  · exact Plays.bind (obey_set c _ _ s) (Plays.pure _)
  · exact Plays.pure _

theorem size_rollingBack (journal : Journal) : size { journal with rollingBack := true } ≤ size journal := by
  have hsize := size_updated journal journal.phase journal.newRootVolume journal.newUnusedKey
    journal.oldUnusedKey true
  have hbool : jsonSize (.bool true) ≤ jsonSize (.bool journal.rollingBack) := by
    cases journal.rollingBack <;> decide
  have hsame : updated journal journal.phase journal.newRootVolume journal.newUnusedKey
      journal.oldUnusedKey true =
      { journal with rollingBack := true } := rfl
  rw [hsame] at hsize
  omega

variable (before node vmid) in
/-- The rollback can be written down. -/
theorem obey_beginRollback (hafter : after.Described) (hd : Framed f d)
    (hfits : (framed f j).length ≤ Journal.descriptionMax) :
    ∃ d', Framed f d' ∧
      Plays (obey before after) (beginRollback .standard Journal.serde node vmid j) (some d)
        { j with rollingBack := true }
        (some d') := by
  have hdescription := (effectiveNow_after before hafter d).2
  by_cases hback : j.rollingBack = true
  · refine ⟨d, hd, Plays.bind (obey_effectiveConfig node vmid (some d)) ?_⟩
    rw [if_pos hback, ← hback]
    exact Plays.pure j
  · have hshorter : (framed f { j with rollingBack := true }).length ≤ Journal.descriptionMax := by
      have hsize := size_rollingBack j
      have hblock := block_length f.before f.after j
      have hblock' := block_length f.before f.after { j with rollingBack := true }
      unfold framed at hfits ⊢
      omega
    refine ⟨framed f { j with rollingBack := true }, framed_framed hd _, ?_⟩
    refine Plays.bind (obey_effectiveConfig node vmid (some d)) ?_
    rw [if_neg hback]
    exact Plays.bind (obey_writeJournal (s := some d) hd hdescription _ hshorter) (Plays.pure _)

/-- The original root is attached, or attaching it is the next step. -/
theorem reattachOld_passed {e : VmConfig} {K : VmConfig → Option Text → Prop}
    (hknown : ¬(rootOf cfg e ≠ [] ∧ rootOf cfg e ≠ j.oldRootVolume))
    (hkept : ¬(rootOf cfg e = [] ∧ unusedKeyOf e j.oldRootVolume = none))
    (hw : Passes cfg before after (reattachOld cfg node vmid j e) (some d) K) :
    rootOf cfg e = j.oldRootVolume ∧ reattachOld cfg node vmid j e = pure e := by
  unfold reattachOld at hw ⊢
  dsimp only at hw ⊢
  rw [if_neg hknown] at hw ⊢
  by_cases hempty : rootOf cfg e = []
  · rw [if_pos hempty, if_neg (fun hnone => hkept ⟨hempty, by simpa using hnone⟩)] at hw
    exact (not_passes_attach hw).elim
  · refine ⟨not_not.mp fun hother => hknown ⟨hempty, hother⟩, ?_⟩
    rw [if_neg hempty]

/-- A rollback whose checks pass acts. -/
theorem not_passes_rollBack (hafter : after.Described) (hd : Framed f d)
    (hfits : (framed f j).length ≤ Journal.descriptionMax) (hroot : isDiskSlot cfg.rootDisk = true)
    (hhome : isDiskSlot j.homeDisk = true)
    (hphase : ¬(j.phase = .verified ∧ j.rollingBack = false)) (hpassed : ¬Refused cfg j after.effective)
    {K : Recovery → Option Text → Prop}
    (hw : Passes cfg before after (rollBack .standard Journal.serde cfg node vmid j) (some d) K) : False := by
  have hcut : (Description.cutBlock f).length ≤ Journal.descriptionMax := by
    have hlength := cutBlock_length f
    have hblock := block_length f.before f.after j
    unfold framed at hfits
    omega
  obtain ⟨d', hd', hbegun⟩ := obey_beginRollback node vmid before hafter hd hfits
  have halike := (effectiveNow_after before hafter d').1
  rw [← refused_alike halike hroot hhome] at hpassed
  unfold Refused at hpassed
  rw [if_neg hphase, not_and, not_or, not_or] at hpassed
  have hbegan := Passes.rest hw hbegun
  have hread := Passes.rest hbegan (obey_effectiveConfig node vmid (some d'))
  generalize he : effectiveNow before after (some d') = e at hpassed hread
  by_cases hnew : j.newRootVolume ≠ [] ∧ rootOf cfg e = j.newRootVolume
  · unfold unlinkNewRoot at hread
    dsimp only at hread
    rw [if_pos hnew] at hread
    refine not_passes_unlink (Passes.first (Passes.first hread)) ?_
    rw [he]
    exact hnew.2
  obtain ⟨hknown, hkept, hlate⟩ := hpassed hnew
  have hkeep : unlinkNewRoot cfg node vmid { j with rollingBack := true } e = pure e := by
    unfold unlinkNewRoot
    dsimp only
    rw [if_neg hnew]
  rw [hkeep] at hread
  have hchecked := Passes.rest hread (Plays.pure e)
  obtain ⟨hsame, hattached⟩ :=
    reattachOld_passed (j := { j with rollingBack := true }) hknown hkept (Passes.first hchecked)
  rw [hattached] at hchecked
  have hchecked := Passes.rest hchecked (Plays.pure e)
  rw [not_and, not_or] at hlate
  obtain ⟨hunused, hmismatch⟩ := hlate hsame
  have hnone : homeMismatch j e = none := by simpa using hmismatch
  have hrequire : requireHome { j with rollingBack := true } e = .ok () := by
    unfold requireHome
    rw [show homeMismatch { j with rollingBack := true } e = none from hnone]
  dsimp only at hchecked
  rw [if_neg (not_not.mpr hsame), if_neg hunused, hrequire] at hchecked
  have hdelete := Passes.rest hchecked (Plays.pure ())
  rw [not_passes_deleteNew he.symm (Passes.first hdelete)] at hdelete
  have hdeleted := Passes.rest hdelete (Plays.pure e)
  have hrestored := Passes.rest hdeleted (obey_restoreOptions e (some d'))
  exact not_passes_end hafter hd' hcut hrestored

/-- A recovery that the checks let through acts. -/
theorem not_stops (h : Rewrites cfg node before after f j)
    (hfits : (framed f (withStaged j before.effective)).length ≤ Journal.descriptionMax)
    (hplain : hasPending after.config = false)
    (hpassed : ¬Refused cfg (withStaged j before.effective) after.effective) :
    ¬Stops cfg node vmid j before after := by
  intro hw
  have hhome := (validateJournal_ok h.valid).2
  have hhome' := (withStaged_same j before.effective).2
  have hslot : isDiskSlot (withStaged j before.effective).homeDisk = true := by
    rw [hhome', hhome]
    exact h.home
  have hframed : Framed f (before.now none) := ⟨f.payload, h.found⟩
  have hwritten := framed_framed hframed (withStaged j before.effective)
  have hdescription : before.effective.description = before.now none :=
    description_applyPendings h.described.1 before.config
  unfold Stops recover at hw
  rw [h.valid] at hw
  have hvalid := Passes.rest hw (Plays.pure ())
  have hread := Passes.rest hvalid (obey_effectiveConfig node vmid none)
  rw [show effectiveNow before after none = before.effective from rfl] at hread
  dsimp only at hread
  rw [h.agrees] at hread
  have hstatus : Plays (obey before after) (vmStatus node vmid) none "unknown" none := rfl
  have hsettle := Passes.rest hread hstatus
  dsimp only at hsettle
  rw [if_neg (by decide)] at hsettle
  have hpending : Plays (obey before after) (settlePending .standard Journal.serde node vmid
      (withStaged j before.effective))
      none () (some (framed f (withStaged j before.effective))) := by
    refine Plays.bind (obey_effectiveConfig node vmid none) ?_
    rw [show effectiveNow before after none = before.effective from rfl, if_pos h.pending]
    refine Plays.bind (obey_writeJournal hframed hdescription _ hfits) ?_
    have hlisted : hasPending (shownConfig before after (some (framed f (withStaged j before.effective)))) =
        false :=
      (hasPending_alike (alike_description after.config _)).trans hplain
    rw [hlisted]
    exact Plays.pure _
  have hrest := Passes.rest hsettle hpending
  split at hrest
  · next hphase =>
    have hcut : (Description.cutBlock f).length ≤ Journal.descriptionMax := by
      have hlength := cutBlock_length f
      have hblock := block_length f.before f.after (withStaged j before.effective)
      unfold framed at hfits
      omega
    unfold Refused at hpassed
    rw [if_pos hphase, not_not] at hpassed
    exact not_passes_finishVerified h.described.2 hwritten hcut h.root hpassed hrest
  · next hphase =>
    exact not_passes_rollBack h.described.2 hwritten hfits h.root hslot hphase hpassed hrest

end Acting

end OneVm

/-- **Pending unlinks and recovery.** A recovery rewrites its journal, and an unlink
is still pending. It stops without acting in every run if and only if the plain
configuration lists a pending unlink, which no Proxmox configuration does, or one of
its later checks refuses what is shown. -/
theorem pending_unlink_stops {cfg : Config} {node : Text} {vmid : Nat} {before after : Shown}
    {f : Description.Found} {j : Journal} (h : Rewrites cfg node before after f j)
    (hfits : (framed f (withStaged j before.effective)).length ≤ Journal.descriptionMax) :
    (after.UnlinkPending → Stops cfg node vmid j before after) ↔
      (after.UnlinkPending →
        hasPending after.config = true ∨ Refused cfg (withStaged j before.effective) after.effective) := by
  constructor
  · intro hstops hpending
    by_contra hcond
    rw [not_or, Bool.not_eq_true] at hcond
    exact not_stops h hfits hcond.1 hcond.2 (hstops hpending)
  · exact fun hcond hpending => refused_recover h (hcond hpending)

/-! ## One VM -/

/-- A refresh that was cut off while it switched the roots. -/
def switchingJournal : Journal :=
  { fullJournal with phase := .switching, newRootVolume := "local:vm-101-disk-2" }

noncomputable def switchingDescription : Text :=
  Description.addBlock [] (Kind.journalMarkers, payload switchingJournal)

/-- The unlink of a disk that is pending. -/
def pendingUnlink (slot value : Text) : Json :=
  .obj [("key", .str slot), ("value", .str value), ("delete", .int 1)]

/-- The staged root is to leave its slot; the configuration does not list it any more. -/
noncomputable def stagedPending : Shown where
  config := fullConfig false switchingDescription
  pending := [pendingUnlink "scsi30" "local:vm-101-disk-2,size=8G"]

/-- The original root is to leave the root slot. -/
noncomputable def rootPending : Shown where
  config := parseConfig [("description", .str switchingDescription),
    ("scsi1", .str "local:vm-101-disk-1,serial=HS_HOME_101"),
    ("unused0", .str "local:vm-101-disk-2")]
  pending := [pendingUnlink "scsi0" "local:vm-101-disk-0,size=8G"]

theorem switching_found :
    Kind.journalMarkers.find switchingDescription = .ok (some ⟨[], payload switchingJournal, []⟩) :=
  find_addBlock rfl (Base64.standard.clean _)

theorem switching_fits :
    (framed ⟨[], payload switchingJournal, []⟩ switchingJournal).length ≤ Journal.descriptionMax := by
  have hsize := size_updated fullJournal .switching "local:vm-101-disk-2" [] [] false
  have hphase : jsonSize (.str Phase.switching.asStr) = jsonSize
      (.str fullJournal.phase.asStr) + 1 := by decide
  have hnew : jsonSize (.str "local:vm-101-disk-2".toList) =
      jsonSize (.str fullJournal.newRootVolume) + 19 := by decide
  have hsame : updated fullJournal .switching "local:vm-101-disk-2" [] [] false = switchingJournal := rfl
  have hkeys : fullJournal.newUnusedKey = [] ∧ fullJournal.oldUnusedKey = [] ∧
      fullJournal.rollingBack = false := ⟨rfl, rfl, rfl⟩
  rw [hsame, fullJournal_size, hphase, hnew, hkeys.1, hkeys.2.1, hkeys.2.2] at hsize
  have hlength : (framed ⟨[], payload switchingJournal, []⟩ switchingJournal).length =
      ([] : Text).length + ([] : Text).length + 28 + 4 * ((size switchingJournal + 2) / 3) :=
    block_length [] [] switchingJournal
  have hmax : Journal.descriptionMax = 8192 := rfl
  rw [List.length_nil] at hlength
  omega

theorem switching_valid : validateJournal sampleConfig switchingJournal = .ok () := rfl

theorem switching_staged (c : VmConfig) : withStaged switchingJournal c = switchingJournal := rfl

theorem described_pendingUnlink {slot value : Text} (hslot : slot ≠ "description".toList) (c : VmConfig) :
    Shown.Described ⟨c, [pendingUnlink slot value]⟩ := by
  intro entry hentry
  rw [List.mem_singleton.mp hentry]
  exact fun h => hslot (Option.some.inj h)

theorem unlinkPending_pendingUnlink {slot value : Text} (hslot : isDiskSlot slot = true) (c : VmConfig) :
    Shown.UnlinkPending ⟨c, [pendingUnlink slot value]⟩ :=
  ⟨_, List.mem_singleton_self _, rfl, slot, rfl, hslot⟩

theorem staged_rewrites :
    Rewrites sampleConfig "pve1" stagedPending stagedPending ⟨[], payload switchingJournal,
    []⟩ switchingJournal where
  root := by decide
  home := by decide
  valid := switching_valid
  agrees := by decide
  pending := by decide
  described := ⟨described_pendingUnlink (by decide) _, described_pendingUnlink (by decide) _⟩
  found := switching_found

theorem root_rewrites : Rewrites sampleConfig "pve1" rootPending rootPending ⟨[], payload switchingJournal,
    []⟩ switchingJournal where
  root := by decide
  home := by decide
  valid := switching_valid
  agrees := by decide
  pending := by decide
  described := ⟨described_pendingUnlink (by decide) _, described_pendingUnlink (by decide) _⟩
  found := switching_found

/-- With the unlink of the original root pending, the recovery does not find it and
stops. -/
theorem pending_unlink_stops_root :
    Stops sampleConfig "pve1" 101 switchingJournal rootPending rootPending := by
  refine (pending_unlink_stops root_rewrites switching_fits).mpr (fun _ => Or.inr ?_)
    (unlinkPending_pendingUnlink (by decide) _)
  rw [switching_staged]
  unfold Refused
  rw [if_neg (by decide)]
  decide +kernel

/-- With the unlink of the staged root pending, the recovery goes on and removes its
journal. -/
theorem pending_unlink_ignored : stagedPending.UnlinkPending ∧
    Rewrites sampleConfig "pve1" stagedPending stagedPending ⟨[],
      payload switchingJournal, []⟩ switchingJournal ∧
    ¬Stops sampleConfig "pve1" 101 switchingJournal stagedPending stagedPending := by
  refine ⟨unlinkPending_pendingUnlink (by decide) _, staged_rewrites, ?_⟩
  refine not_stops staged_rewrites switching_fits (by decide +kernel) ?_
  rw [switching_staged]
  unfold Refused
  rw [if_neg (by decide)]
  decide +kernel

end HomeStack.Refresh

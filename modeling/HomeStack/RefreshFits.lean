import HomeStack.RefreshSize

/-! One refresh and its recoveries: no step is refused for the size of its journal
when the description leaves room for the names still to come, and one is when it
leaves none. -/

namespace HomeStack.Refresh

open Op
open Prog (Env Exec wp wp_done wp_stop wpe wpe_bind wpe_mono wpe_pure wpe_throw wpe_lift wpe_attempt)
open Relation (ReflTransGen)

/-! ## Failures with another message -/

/-- The check does not fail with a refusal for size. -/
def Other {α : Type} (vmid : Nat) (x : Except CoreError α) : Prop := ∀ e, x = .error e → e ≠ doesNotFit vmid

namespace Other

variable {α β : Type} {vmid : Nat}

theorem ok (a : α) : Other vmid (.ok a) := fun _ h => nomatch h

theorem error {e : CoreError} (he : e ≠ doesNotFit vmid) : Other vmid (.error e : Except CoreError α) := by
  intro e' h
  cases h
  exact he

theorem bind {x : Except CoreError β} {f : β → Except CoreError α} (hx : Other vmid x)
    (hf : ∀ b, Other vmid (f b)) :
    Other vmid (x >>= f) := by
  cases x with
  | ok b => exact hf b
  | error e => exact error (hx e rfl)

theorem guard {c : Prop} [Decidable c] {e : CoreError} {f : PUnit → Except CoreError α}
    (he : e ≠ doesNotFit vmid) (hf : ∀ u, Other vmid (f u)) :
    Other vmid (if c then throw e >>= f else f PUnit.unit) := by
  split
  · exact error he
  · exact hf _

end Other

theorem other_requireHome (vmid : Nat) (j : Journal) (c : VmConfig) : Other vmid (requireHome j c) := by
  unfold requireHome
  split
  · exact Other.error (failed_ne_doesNotFit (by simp))
  · exact Other.ok _

theorem other_requireRefreshUnlocked (vmid vm : Nat) (c : VmConfig) :
    Other vmid (requireRefreshUnlocked vm c) := by
  have hrefused : ∀ t, CoreError.refused t ≠ doesNotFit vmid := fun _ h => nomatch h
  unfold requireRefreshUnlocked
  refine Other.guard (hrefused _) fun _ => ?_
  split
  · exact Other.error (hrefused _)
  · exact Other.ok _

theorem other_verifyWorkspaceRoleTags (vmid vm : Nat) (c : VmConfig) :
    Other vmid (WorkspaceDestroy.verifyWorkspaceRoleTags vm c) := by
  unfold WorkspaceDestroy.verifyWorkspaceRoleTags
  dsimp only
  split
  · exact Other.error (failed_ne_doesNotFit (by simp))
  · split
    · exact Other.error (failed_ne_doesNotFit (by simp))
    · split
      · exact Other.error (failed_ne_doesNotFit (by simp))
      · exact Other.ok _

theorem other_homeLabel (vmid vm : Nat) : Other vmid (homeLabel vm) := by
  unfold homeLabel
  dsimp only
  split
  · exact Other.error fun h => nomatch h
  · exact Other.ok _

theorem other_validateJournal (vmid : Nat) (cfg : Config) (j : Journal) :
    Other vmid (validateJournal cfg j) := by
  have hinvalid : ∀ what, Journal.invalid what ≠ doesNotFit vmid := fun _ h => nomatch h
  have hunusable : ∀ t, CoreError.unusable t ≠ doesNotFit vmid := fun _ h => nomatch h
  unfold validateJournal
  refine Other.guard (hunusable _) fun _ => Other.guard (hinvalid _) fun _ =>
    Other.guard (hinvalid _) fun _ => ?_
  refine Other.guard (hunusable _) fun _ => Other.guard (hunusable _) fun _ => ?_
  refine Other.guard (hinvalid _) fun _ => Other.guard (hinvalid _) fun _ =>
    Other.guard (hinvalid _) fun _ => ?_
  refine Other.bind (other_homeLabel vmid _) fun label => Other.guard (hinvalid _) fun _ => ?_
  refine Other.guard (hinvalid _) fun _ => Other.guard (hunusable _) fun _ =>
    Other.guard (hinvalid _) fun _ => ?_
  split
  · exact Other.error (hinvalid _)
  · exact Other.ok _

theorem other_parseIpconfig0 (vmid : Nat) (value : Text) : Other vmid (parseIpconfig0 value) := by
  unfold parseIpconfig0
  dsimp only
  split
  · exact Other.error fun h => by cases h
  · split
    · exact Other.error fun h => by cases h
    · split
      · exact Other.error fun h => by cases h
      · exact Other.ok _

theorem other_forcedSettings (vmid : Nat) (cfg : Config) (j : Journal) (c : VmConfig) :
    Other vmid (forcedSettings cfg j c) :=
  Other.bind (other_parseIpconfig0 vmid _) fun _ => Other.ok _

/-! ## The steps of a refresh -/

section Steps

variable {vmid v u n : Nat} {j₀ j : Journal} {α β : Type} {d : Text}

namespace Fits

theorem bind {x : Op β} {f : β → Op α} {L : β → Text → Prop} {K : α → Text → Prop}
    (hx : Fits vmid v u n j₀ x d L) (hf : ∀ b d', L b d' → Fits vmid v u n j₀ (f b) d' K) :
    Fits vmid v u n j₀ (x >>= f) d K :=
  wpe_bind.mpr (wpe_mono hx hf fun _ _ he => he)

theorem guard {c : Prop} [Decidable c] {e : CoreError} {f : PUnit → Op α} {K : α → Text → Prop}
    (hd : Held v u n j₀ d) (he : e ≠ doesNotFit vmid) (hf : ∀ u', Fits vmid v u n j₀ (f u') d K) :
    Fits vmid v u n j₀ (if c then throw e >>= f else f PUnit.unit) d K := by
  split
  · exact wpe_bind.mpr ⟨Or.inl hd, he⟩
  · exact hf _

theorem check {x : Except CoreError β} {f : β → Op α} {K : α → Text → Prop} (hd : Held v u n j₀ d)
    (hx : Other vmid x) (hf : ∀ b, x = .ok b → Fits vmid v u n j₀ (f b) d K) :
    Fits vmid v u n j₀ (Op.ofExcept x >>= f) d K := by
  cases x with
  | ok b => exact wpe_bind.mpr (hf b rfl)
  | error e => exact wpe_bind.mpr ⟨Or.inl hd, hx e rfl⟩

/-- Only in some cases, before the rest. -/
theorem perhaps {c : Prop} [Decidable c] {x : Op PUnit} {f : PUnit → Op α} {K : α → Text → Prop}
    (hx : Calm vmid x) (hd : Held v u n j₀ d)
    (hf : ∀ d', Held v u n j₀ d' → Fits vmid v u n j₀ (f PUnit.unit) d' K) :
    Fits vmid v u n j₀ (if c then x >>= f else f PUnit.unit) d K := by
  split
  · exact hx.before hd fun _ => hf
  · exact hf d hd

/-- A check of the storage or of the guest. -/
theorem probe {what : Probe} {f : Option Text → Op α} {K : α → Text → Prop} (hd : Held v u n j₀ d)
    (hf : ∀ b d', Held v u n j₀ d' → Fits vmid v u n j₀ (f b) d' K) :
    Fits vmid v u n j₀ (do f (← Op.ofExcept (← Op.call (.probe what)))) d K := by
  refine wpe_bind.mpr (wpe_lift ⟨Or.inl hd, fun r d' hn => ?_⟩)
  refine wpe_bind.mpr ?_
  cases r with
  | ok a => exact hf a d' (held_others hd hn)
  | error e => exact ⟨Or.inl (held_others hd hn.1), hn.2⟩

end Fits

/-- What a step records keeps the journal one of the transaction's. -/
theorem later_updated (hj : Later v u j₀ j) (phase : Phase) {new newKey oldKey : Text} (back : Bool)
    (hnew : jsonSize (.str new) ≤ v + 2) (hnewKey : jsonSize (.str newKey) ≤ u + 2)
    (holdKey : jsonSize (.str oldKey) ≤ u + 2) : Later v u j₀ (updated j phase new newKey oldKey back) := by
  have hsame := congrArg (fun j => updated j phase new newKey oldKey back) hj.same
  exact ⟨hsame, hnew, hnewKey, holdKey⟩

theorem later_phase (hj : Later v u j₀ j) (phase : Phase) : Later v u j₀ { j with phase } :=
  later_updated hj phase j.rollingBack hj.new hj.newKey hj.oldKey

theorem later_stagingSlot (hfirst : First j₀) (hj : Later v u j₀ j) : isScsiKey j.stagingSlot = true := by
  rw [congrArg Journal.stagingSlot hj.same]
  exact hfirst.staging

theorem slotVolume_size {c : VmConfig} (hc : Short v u c) {slot : Text} (hslot : isScsiKey slot = true) :
    jsonSize (.str (slotVolume c slot)) ≤ v + 2 := by
  unfold slotVolume
  rcases hvalue : (c)[slot]? with _ | value
  · rw [Option.map_none, Option.getD_none, empty_size]
    omega
  · exact hc.volume slot value hslot hvalue

theorem unusedKeyOf_size {c : VmConfig} (hc : Short v u c) {volume key : Text}
    (h : unusedKeyOf c volume = some key) :
    jsonSize (.str key) ≤ u + 2 := by
  obtain ⟨⟨k, value⟩, hfind, rfl⟩ := Option.map_eq_some_iff.mp h
  have hmem := Std.ExtTreeMap.mem_toList_iff_getElem?_eq_some.mp (List.mem_of_find?_eq_some hfind)
  have hunused := List.find?_some hfind
  simp only [decide_eq_true_eq] at hunused
  refine hc.key k ?_ hunused.1
  exact Std.ExtTreeMap.mem_iff_isSome_getElem?.mpr (by rw [hmem]; rfl)

theorem fits_keptKey {c : VmConfig} (hd : Held v u n j₀ d) (hc : Short v u c) (volume : Text) {message : Text}
    (hmessage : message.head? ≠ some 'T') :
    Fits vmid v u n j₀ (keptKey c volume message) d fun key d' => Held v u n j₀ d' ∧
      jsonSize (.str key) ≤ u + 2 := by
  unfold keptKey
  split
  · next key hkey => exact ⟨hd, unusedKeyOf_size hc hkey⟩
  · exact ⟨Or.inl hd, failed_ne_doesNotFit hmessage⟩

theorem fits_configureCloudInit (hd : Held v u n j₀ d) (cfg : Config) (node : Text) (plan : Plan)
    (boot : Text) (c : VmConfig) :
    Fits vmid v u n j₀ (configureCloudInit cfg node vmid plan boot c) d fun c' d' => Held v u n j₀ d' ∧
      Read v u (Held v u n j₀) c' := by
  refine Fits.bind (fits_set hd fun t => by simp) ?_
  rintro c d ⟨hd, hc⟩
  exact Fits.check hd (other_verifyWorkspaceRoleTags vmid vmid c) fun _ _ => ⟨hd, hc⟩

variable (hfirst : First j₀) (hroom : Room v u n j₀)

include hfirst hroom

theorem fits_importRoot (hj : Later v u j₀ j) (hd : Held v u n j₀ d) (node : Text)
    (plan : Plan) (c : VmConfig) :
    Fits vmid v u n j₀ (importRoot .standard Journal.serde node vmid plan j c) d fun j' d' =>
      Held v u n j₀ d' ∧ Later v u j₀ j' := by
  refine Fits.bind (fits_set hd fun t => by simp) ?_
  rintro c d ⟨hd, hc⟩
  refine Fits.check hd (other_requireHome vmid j c) fun _ _ => ?_
  refine Fits.check hd (other_requireRefreshUnlocked vmid vmid c) fun _ _ => ?_
  refine Fits.guard hd (failed_ne_doesNotFit (by simp)) fun _ => ?_
  have hnew := slotVolume_size hc.toShort (later_stagingSlot hfirst hj)
  have hj' : Later v u j₀ { j with newRootVolume := slotVolume c j.stagingSlot, phase := .imported } :=
    later_updated hj .imported j.rollingBack hnew hj.newKey hj.oldKey
  refine Fits.bind (fits_writeJournal hfirst hroom hj' hd hc node) ?_
  rintro - d ⟨hd, -⟩
  exact ⟨hd, hj'⟩

theorem fits_switchRoots (hj : Later v u j₀ j) (hd : Held v u n j₀ d) (cfg : Config)
    (node : Text) (plan : Plan) :
    Fits vmid v u n j₀ (switchRoots .standard Journal.serde cfg node vmid plan j) d fun r d' =>
      Held v u n j₀ d' ∧ Later v u j₀ r.1 ∧ Read v u (Held v u n j₀) r.2 := by
  refine Fits.bind (fits_effectiveConfig hd node vmid) ?_
  rintro c d ⟨hd, hc⟩
  refine Fits.check hd (other_requireRefreshUnlocked vmid vmid c) fun _ _ => ?_
  refine Fits.check hd (other_requireHome vmid j c) fun _ _ => ?_
  refine Fits.guard hd (failed_ne_doesNotFit (by simp)) fun _ => ?_
  have hj₁ := later_phase hj .switching
  refine Fits.bind (fits_writeJournal hfirst hroom hj₁ hd hc node) ?_
  rintro - d ⟨hd, -⟩
  refine Fits.bind (fits_unlink hd node vmid _ _ _) ?_
  rintro c d ⟨hd, hc⟩
  refine Fits.bind (fits_keptKey hd hc.toShort _ (by simp)) ?_
  rintro newKey d ⟨hd, hnewKey⟩
  have hj₂ := later_updated hj₁ .switching j.rollingBack hj.new hnewKey hj.oldKey
  refine Fits.bind (fits_writeJournal hfirst hroom hj₂ hd hc node) ?_
  rintro - d ⟨hd, -⟩
  refine Fits.bind (fits_unlink hd node vmid _ _ _) ?_
  rintro c d ⟨hd, hc⟩
  refine Fits.bind (fits_keptKey hd hc.toShort _ (by simp)) ?_
  rintro oldKey d ⟨hd, holdKey⟩
  have hj₃ := later_updated hj₂ .switching j.rollingBack hj.new hnewKey holdKey
  refine Fits.bind (fits_writeJournal hfirst hroom hj₃ hd hc node) ?_
  rintro c d ⟨hd, hc⟩
  refine Fits.bind (fits_set hd fun t => by simp) ?_
  rintro c d ⟨hd, hc⟩
  refine Fits.guard hd (failed_ne_doesNotFit (by simp)) fun _ => ?_
  refine Fits.guard hd (failed_ne_doesNotFit (by simp)) fun _ => ?_
  refine Fits.check hd (other_requireHome vmid _ c) fun _ _ => ?_
  have hj₄ := later_phase hj₃ .switched
  refine Fits.bind (fits_writeJournal hfirst hroom hj₄ hd hc node) ?_
  rintro c d ⟨hd, hc⟩
  exact ⟨hd, hj₄, hc⟩

theorem fits_verifyBoot (hj : Later v u j₀ j) (hd : Held v u n j₀ d) {c : VmConfig}
    (hc : Read v u (Held v u n j₀) c) (node : Text) (plan : Plan) :
    Fits vmid v u n j₀ (verifyBoot .standard Journal.serde node vmid plan j c) d fun j' d' =>
      Held v u n j₀ d' ∧ Later v u j₀ j' := by
  have hj' := later_phase hj .verifying
  refine Fits.bind (fits_writeJournal hfirst hroom hj' hd hc node) ?_
  rintro - d ⟨hd, -⟩
  refine Calm.before (calm_startVm node vmid) hd fun _ d hd => ?_
  exact Fits.probe hd fun _ d hd => ⟨hd, hj'⟩

theorem fits_deletePrevious (hj : Later v u j₀ j) (hd : Held v u n j₀ d) (node : Text) :
    Fits vmid v u n j₀ (deletePrevious .standard Journal.serde node vmid j) d fun _ d' =>
      Ours v u n j₀ d' := by
  refine Fits.bind (fits_effectiveConfig hd node vmid) ?_
  rintro c d ⟨hd, hc⟩
  refine Fits.bind (fits_writeJournal hfirst hroom (later_phase hj .verified) hd hc node) ?_
  rintro c d ⟨hd, hc⟩
  refine Fits.check hd (other_requireHome vmid _ c) fun _ _ => ?_
  refine Fits.bind (fits_keptKey hd hc.toShort _ (by simp)) ?_
  rintro key d ⟨hd, -⟩
  refine Fits.bind (fits_unlink hd node vmid _ _ _) ?_
  rintro c d ⟨hd, hc⟩
  exact Fits.bind (fits_removal hroom hd hc node) fun _ d hd => hd

/-- The steps of a refresh after its first journal. -/
theorem fits_replaceSteps (hj : Later v u j₀ j) (hd : Held v u n j₀ d) (cfg : Config) (node : Text)
    (plan : Plan) (c : VmConfig) (current : ExistingWorkspace) :
    Fits vmid v u n j₀ (replaceSteps .standard Journal.serde cfg node vmid plan j c current) d fun _ d' =>
      Ours v u n j₀ d' := by
  unfold replaceSteps
  refine Fits.bind (fits_importRoot hfirst hroom hj hd node plan c) ?_
  rintro j d ⟨hd, hj⟩
  refine Fits.perhaps (calm_shutdown node vmid) hd fun d hd => ?_
  refine Fits.bind (fits_switchRoots hfirst hroom hj hd cfg node plan) ?_
  rintro ⟨j, c⟩ d ⟨hd, hj, hc⟩
  refine Fits.bind (fits_configureCloudInit hd cfg node plan _ c) ?_
  rintro c d ⟨hd, hc⟩
  refine Fits.bind (fits_verifyBoot hfirst hroom hj hd hc node plan) ?_
  rintro j d ⟨hd, hj⟩
  refine Fits.perhaps (calm_shutdown node vmid) hd fun d hd => ?_
  exact Fits.bind (fits_deletePrevious hfirst hroom hj hd node) fun _ d hd => hd

/-! ## Recovery -/

omit hroom in
theorem later_withStaged (hj : Later v u j₀ j) {c : VmConfig} (hc : Short v u c) :
    Later v u j₀ (withStaged j c) := by
  unfold withStaged
  split
  · next staged hstaged =>
    split
    · next hempty =>
      refine later_updated hj j.phase j.rollingBack ?_ hj.newKey hj.oldKey
      unfold stagedVolume at hstaged
      rw [if_neg (fun h => h hempty)] at hstaged
      obtain ⟨hvolume, -⟩ := Option.filter_eq_some_iff.mp hstaged
      obtain ⟨value, hvalue, rfl⟩ := Option.map_eq_some_iff.mp hvolume
      exact hc.volume _ value (later_stagingSlot hfirst hj) hvalue
    · exact hj
  · exact hj

omit hfirst in
theorem fits_removeJournal (hd : Held v u n j₀ d) (node : Text) :
    Fits vmid v u n j₀ (removeJournal .standard Journal.serde node vmid) d fun _ d' => Ours v u n j₀ d' := by
  refine Fits.bind (fits_effectiveConfig hd node vmid) ?_
  rintro c d ⟨hd, hc⟩
  exact fits_removal hroom hd hc node

theorem fits_settlePending (hj : Later v u j₀ j) (hd : Held v u n j₀ d) (node : Text) :
    Fits vmid v u n j₀ (settlePending .standard Journal.serde node vmid j) d fun _ d' =>
      Held v u n j₀ d' := by
  refine Fits.bind (fits_effectiveConfig hd node vmid) ?_
  rintro c d ⟨hd, hc⟩
  split
  · refine Fits.bind (fits_writeJournal hfirst hroom hj hd hc node) ?_
    rintro c d ⟨hd, -⟩
    split
    · exact ⟨Or.inl hd, failed_ne_doesNotFit (by simp)⟩
    · exact hd
  · exact hd

omit hfirst in
theorem fits_finishVerified (hd : Held v u n j₀ d) (cfg : Config) (node : Text) (j : Journal) :
    Fits vmid v u n j₀ (finishVerified .standard Journal.serde cfg node vmid j) d fun _ d' =>
      Ours v u n j₀ d' := by
  refine Fits.bind (fits_effectiveConfig hd node vmid) ?_
  rintro c d ⟨hd, hc⟩
  refine Fits.guard hd (failed_ne_doesNotFit (by simp)) fun _ => ?_
  have hend : ∀ d, Held v u n j₀ d → Fits vmid v u n j₀
      (do let _ ← removeJournal .standard Journal.serde node vmid
          pure Recovery.completedCleanup) d fun _ d' => Ours v u n j₀ d' := fun d hd =>
    Fits.bind (fits_removeJournal hroom hd node) fun _ _ hd => hd
  dsimp only
  split
  · refine Fits.bind (fits_unlink hd node vmid _ _ _) ?_
    rintro c d ⟨hd, hc⟩
    exact Fits.perhaps (calm_startVm node vmid) hd hend
  · exact Fits.perhaps (calm_startVm node vmid) hd hend

omit hfirst hroom in
theorem fits_unlinkNewRoot (hd : Held v u n j₀ d) (cfg : Config) (node : Text) (j : Journal) {c : VmConfig}
    (hc : Read v u (Held v u n j₀) c) :
    Fits vmid v u n j₀ (unlinkNewRoot cfg node vmid j c) d fun c' d' => Held v u n j₀ d' ∧
      Read v u (Held v u n j₀) c' := by
  unfold unlinkNewRoot
  dsimp only
  split
  · refine Fits.bind (fits_unlink hd node vmid _ _ _) ?_
    rintro c d ⟨hd, hc⟩
    exact Fits.check hd (other_requireHome vmid j c) fun _ _ => ⟨hd, hc⟩
  · exact ⟨hd, hc⟩

omit hfirst hroom in
theorem fits_reattachOld (hd : Held v u n j₀ d) (cfg : Config) (node : Text) (j : Journal) {c : VmConfig}
    (hc : Read v u (Held v u n j₀) c) :
    Fits vmid v u n j₀ (reattachOld cfg node vmid j c) d fun c' d' => Held v u n j₀ d' ∧
      Read v u (Held v u n j₀) c' := by
  unfold reattachOld
  refine Fits.guard hd (failed_ne_doesNotFit (by simp)) fun _ => ?_
  split
  · refine Fits.guard hd (failed_ne_doesNotFit (by simp)) fun _ => ?_
    exact fits_set hd fun t => by simp
  · exact ⟨hd, hc⟩

omit hfirst hroom in
theorem fits_deleteNew (hd : Held v u n j₀ d) (node : Text) (j : Journal) (c : VmConfig) :
    Fits vmid v u n j₀ (deleteNew node vmid j c) d fun _ d' => Held v u n j₀ d' := by
  unfold deleteNew
  split
  · exact wpe_mono (fits_unlink hd node vmid _ _ _) (fun _ _ h => h.1) fun _ _ he => he
  · exact hd

omit hfirst hroom in
theorem fits_restoreOptions (hd : Held v u n j₀ d) (node : Text) (j : Journal) (c : VmConfig) :
    Fits vmid v u n j₀ (restoreOptions node vmid j c) d fun _ d' => Held v u n j₀ d' := by
  unfold restoreOptions
  dsimp only
  split
  · exact Fits.bind (fits_set hd fun t => by simp) fun _ _ h => h.1
  · exact hd

theorem fits_beginRollback (hj : Later v u j₀ j) (hd : Held v u n j₀ d) (node : Text) :
    Fits vmid v u n j₀ (beginRollback .standard Journal.serde node vmid j) d fun _ d' =>
      Held v u n j₀ d' := by
  have hj' : Later v u j₀ { j with rollingBack := true } :=
    later_updated hj j.phase true hj.new hj.newKey hj.oldKey
  refine Fits.bind (fits_effectiveConfig hd node vmid) ?_
  rintro c d ⟨hd, hc⟩
  split
  · exact hd
  · exact Fits.bind (fits_writeJournal hfirst hroom hj' hd hc node) fun _ _ h => h.1

theorem fits_rollBack (hj : Later v u j₀ j) (hd : Held v u n j₀ d) (cfg : Config) (node : Text) :
    Fits vmid v u n j₀ (rollBack .standard Journal.serde cfg node vmid j) d fun _ d' => Ours v u n j₀ d' := by
  refine Fits.bind (fits_beginRollback hfirst hroom hj hd node) fun j d hd => ?_
  refine Fits.bind (fits_effectiveConfig hd node vmid) ?_
  rintro c d ⟨hd, hc⟩
  refine Fits.bind (fits_unlinkNewRoot hd cfg node j hc) ?_
  rintro c d ⟨hd, hc⟩
  refine Fits.bind (fits_reattachOld hd cfg node j hc) ?_
  rintro c d ⟨hd, hc⟩
  refine Fits.guard hd (failed_ne_doesNotFit (by simp)) fun _ => ?_
  refine Fits.guard hd (failed_ne_doesNotFit (by simp)) fun _ => ?_
  refine Fits.check hd (other_requireHome vmid j c) fun _ _ => ?_
  refine Fits.bind (fits_deleteNew hd node j c) fun c d hd => ?_
  refine Fits.bind (fits_restoreOptions hd node j c) fun _ d hd => ?_
  refine Fits.perhaps (calm_startVm node vmid) hd fun d hd => ?_
  exact Fits.bind (fits_removeJournal hroom hd node) fun _ _ hd => hd

theorem fits_settle (hj : Later v u j₀ j) (hd : Held v u n j₀ d) (cfg : Config) (node : Text) :
    Fits vmid v u n j₀ (settle .standard Journal.serde cfg node vmid j) d fun _ d' => Ours v u n j₀ d' := by
  refine Calm.before (calm_vmStatus node vmid) hd fun status d hd => ?_
  refine Fits.perhaps (calm_shutdown node vmid) hd fun d hd => ?_
  refine Fits.bind (fits_settlePending hfirst hroom hj hd node) fun _ d hd => ?_
  split
  · exact fits_finishVerified hroom hd cfg node j
  · exact fits_rollBack hfirst hroom hj hd cfg node

omit hfirst hroom in
theorem fits_unlinkAll (hd : Held v u n j₀ d) (node volume : Text) (slots : List Text) (c : VmConfig) :
    Fits vmid v u n j₀ (unlinkAll node vmid volume slots c) d fun _ d' => Held v u n j₀ d' := by
  induction slots generalizing c d with
  | nil => exact hd
  | cons slot slots ih =>
    unfold unlinkAll
    exact Fits.bind (fits_unlink hd node vmid _ _ _) fun c d h => ih h.1 c

omit hfirst hroom in
theorem fits_attachNew (hd : Held v u n j₀ d) (cfg : Config) (node : Text) (j : Journal)
    (new : Text) (c : VmConfig) :
    Fits vmid v u n j₀ (attachNew cfg node vmid j new c) d fun _ d' => Held v u n j₀ d' := by
  have hroot : ∀ root, Fits vmid v u n j₀ (unlinkRoot cfg node vmid root c) d fun _ d' => Held v u n j₀ d' :=
    fun root => by
    unfold unlinkRoot
    split
    · exact hd
    · exact wpe_mono (fits_unlink hd node vmid _ _ _) (fun _ _ h => h.1) fun _ _ he => he
  unfold attachNew
  dsimp only
  split
  · exact hd
  · refine Fits.bind (hroot _) fun c d hd => ?_
    refine Fits.bind (fits_unlinkAll hd node new _ c) fun c d hd => ?_
    exact wpe_mono (fits_set hd fun t => by simp) (fun _ _ h => h.1) fun _ _ he => he

theorem fits_applyPendingChanges (hj : Later v u j₀ j) (hd : Held v u n j₀ d) (node : Text) {c : VmConfig}
    (hc : Read v u (Held v u n j₀) c) :
    Fits vmid v u n j₀ (applyPendingChanges .standard Journal.serde node vmid j c) d fun _ d' =>
      Held v u n j₀ d' := by
  unfold applyPendingChanges
  split
  · exact wpe_mono (fits_writeJournal hfirst hroom hj hd hc node) (fun _ _ h => h.1) fun _ _ he => he
  · exact hd

theorem fits_forceNewRoot (hj : Later v u j₀ j) (hd : Held v u n j₀ d) (cfg : Config) (node : Text)
    (c : VmConfig) (mismatches : List Text) :
    Fits vmid v u n j₀ (forceNewRoot .standard Journal.serde cfg node vmid j c mismatches) d fun _ d' =>
      Ours v u n j₀ d' := by
  unfold forceNewRoot
  dsimp only
  split
  · exact wpe_bind.mpr ⟨Or.inl hd, failed_ne_doesNotFit (by simp)⟩
  refine Fits.guard hd (failed_ne_doesNotFit (by simp)) fun _ => ?_
  split
  · exact ⟨Or.inl hd, failed_ne_doesNotFit (by simp)⟩
  refine Fits.guard hd (failed_ne_doesNotFit (by simp)) fun _ => ?_
  refine Calm.before (calm_vmStatus node vmid) hd fun status d hd => ?_
  refine Fits.perhaps (calm_shutdown node vmid) hd fun d hd => ?_
  refine Fits.bind (fits_effectiveConfig hd node vmid) ?_
  rintro c d ⟨hd, hc⟩
  refine Fits.bind (fits_applyPendingChanges hfirst hroom hj hd node hc) fun c d hd => ?_
  refine Fits.bind (fits_attachNew hd cfg node j _ c) fun c d hd => ?_
  refine Fits.guard hd (failed_ne_doesNotFit (by simp)) fun _ => ?_
  refine Fits.check hd (other_forcedSettings vmid cfg j c) ?_
  rintro ⟨ip, cidr, settings⟩ -
  refine Fits.bind (fits_set hd fun t => by simp) ?_
  rintro c d ⟨hd, -⟩
  refine Calm.before (calm_startVm node vmid) hd fun _ d hd => ?_
  refine Fits.probe hd fun cloudId d hd => ?_
  refine Fits.perhaps (calm_shutdown node vmid) hd fun d hd => ?_
  refine Fits.bind (fits_effectiveConfig hd node vmid) ?_
  rintro c d ⟨hd, hc⟩
  exact Fits.bind (fits_removal hroom hd hc node) fun _ _ hd => hd

theorem fits_recover (hj : Later v u j₀ j) (hd : Held v u n j₀ d) (cfg : Config)
    (node : Text) (force : Bool) :
    Fits vmid v u n j₀ (recover .standard Journal.serde cfg node vmid j force) d fun _ d' =>
      Ours v u n j₀ d' := by
  refine Fits.check hd (other_validateJournal vmid cfg j) fun _ _ => ?_
  refine Fits.bind (fits_effectiveConfig hd node vmid) ?_
  rintro c d ⟨hd, hc⟩
  dsimp only
  split
  · split
    · exact fits_forceNewRoot hfirst hroom hj hd cfg node c _
    · exact ⟨Or.inl hd, failed_ne_doesNotFit (by simp)⟩
  · exact fits_settle hfirst hroom (later_withStaged hfirst hj hc.toShort) hd cfg node

omit hfirst hroom in
/-- The journal that is read is one of the transaction's. -/
theorem readJournal_read {c : VmConfig} (hc : Read v u (Held v u n j₀) c) (cfg : Config) (vm : Nat) :
    ∃ j, Later v u j₀ j ∧ readJournal .standard Journal.serde cfg vm c = checkedJournal cfg vm (some j) := by
  obtain ⟨j, hj, f, hf, hpayload, -⟩ := hc.description
  have hf : Description.find c.description Journal.journalStart Journal.journalEnd Journal.label =
      .ok (some f) := hf
  obtain ⟨bytes, hbytes, hslice⟩ := Option.bind_eq_some_iff.mp (Codec.decode_encode .standard Journal.serde j)
  rw [← show f.payload = Codec.encode .standard Journal.serde j from hpayload] at hbytes
  refine ⟨j, hj, ?_⟩
  unfold readJournal
  simp only [hf, hbytes, hslice, checkedJournal, bind, Except.bind]

omit hfirst hroom in
theorem other_checkedJournal (cfg : Config) (vm : Nat) (j : Option Journal) :
    Other vmid (checkedJournal cfg vm j) := by
  have hunusable : ∀ t, CoreError.unusable t ≠ doesNotFit vmid := fun _ h => nomatch h
  cases j with
  | none => exact Other.ok _
  | some j =>
    exact Other.guard (hunusable _) fun _ => Other.bind (other_validateJournal vmid cfg j) fun _ => Other.ok _

omit hfirst hroom in
theorem checkedJournal_some {cfg : Config} {vm : Nat} {j : Journal} {r : Option Journal}
    (h : checkedJournal cfg vm (some j) = .ok r) : r = some j := by
  simp only [checkedJournal] at h
  split at h
  · cases h
  · rcases hvalid : validateJournal cfg j with e | ⟨⟩
    · rw [hvalid] at h
      cases h
    · rw [hvalid] at h
      cases h
      rfl

/-- The recovery that follows a refresh that failed. -/
theorem fits_recoverFailed (hd : Held v u n j₀ d) (cfg : Config) (node : Text) :
    Fits vmid v u n j₀ (recoverFailed .standard Journal.serde cfg node vmid) d fun _ d' =>
      Ours v u n j₀ d' := by
  refine wpe_bind.mpr (Fits.bind (fits_effectiveConfig hd node vmid) ?_)
  rintro c d ⟨hd, hc⟩
  obtain ⟨j, hj, hread⟩ := readJournal_read hc cfg vmid
  rw [hread]
  refine Fits.check hd (other_checkedJournal cfg vmid _) fun r hr => ?_
  rw [checkedJournal_some hr]
  exact fits_recover hfirst hroom hj hd cfg node false

omit hfirst hroom in
theorem changed_ne_doesNotFit :
    CoreError.failed ("The refresh journal of VM " ++ Text.ofNat vmid ++
      " changed after the plan; plan again") ≠
      doesNotFit vmid := by
  intro h
  injection h with h
  have hletter : some 'o' = some 'd' := congrArg (fun t : Text => t[20]?) h
  cases hletter

/-- A recovery that was asked for. -/
theorem fits_recoverMode (hd : Held v u n j₀ d) (cfg : Config) (node : Text) (plan : Json) :
    Fits vmid v u n j₀ (recoverMode .standard Journal.serde cfg node vmid plan) d fun _ d' =>
      Ours v u n j₀ d' := by
  refine Fits.bind (fits_effectiveConfig hd node vmid) ?_
  rintro c d ⟨hd, hc⟩
  obtain ⟨j, hj, hread⟩ := readJournal_read hc cfg vmid
  refine Fits.check hd (other_requireRefreshUnlocked vmid vmid c) fun _ _ => ?_
  rw [hread]
  refine Fits.check hd (other_checkedJournal cfg vmid _) fun r hr => ?_
  rw [checkedJournal_some hr]
  refine Fits.guard hd changed_ne_doesNotFit fun _ => ?_
  refine Fits.bind (fits_recover hfirst hroom hj hd cfg node _) fun _ d hd => ?_
  exact wpe_bind.mpr (Calm.keeps (fun _ _ => ours_others) (fun _ _ h => h) hd (calm_vmStatus node vmid))

omit hfirst hroom in
theorem gone_others {d d' : Text} (hd : Kind.journalMarkers.find d = .ok none) (hn : Others n d d') :
    Kind.journalMarkers.find d' = .ok none := by
  rcases hn with rfl | ⟨p, ⟨f, hf, -⟩, -⟩ | ⟨-, hnone, -⟩
  · exact hd
  · rw [hd] at hf
    cases hf
  · exact hnone

omit hfirst hroom in
theorem readJournal_gone {c : VmConfig} (hc : Kind.journalMarkers.find c.description = .ok none)
    (cfg : Config) (vm : Nat) :
    readJournal .standard Journal.serde cfg vm c = .ok none := by
  have hc : Description.find c.description Journal.journalStart Journal.journalEnd Journal.label = .ok none :=
    hc
  unfold readJournal
  rw [hc]
  rfl

omit hfirst hroom in
theorem fits_effectiveConfig_gone (hd : Kind.journalMarkers.find d = .ok none) (node : Text) (vm : Nat) :
    Fits vmid v u n j₀ (effectiveConfig node vm) d fun c d' =>
      Kind.journalMarkers.find d' = .ok none ∧ Kind.journalMarkers.find c.description = .ok none :=
  wpe_mono (keeps_effectiveConfig (fun _ _ => gone_others) (fun _ _ => Or.inr) hd node vm)
    (fun _ _ h => ⟨h.1, h.2.description⟩) fun _ _ he => ⟨Or.inr he.1, he.2⟩

omit hfirst hroom in
/-- A recovery without a journal ends at once. -/
theorem fits_recoverFailed_gone (hd : Kind.journalMarkers.find d = .ok none) (cfg : Config) (node : Text) :
    Fits vmid v u n j₀ (recoverFailed .standard Journal.serde cfg node vmid) d fun _ d' =>
      Ours v u n j₀ d' := by
  refine wpe_bind.mpr (Fits.bind (fits_effectiveConfig_gone hd node vmid) ?_)
  rintro c d ⟨hd, hc⟩
  rw [readJournal_gone hc]
  exact ⟨Or.inr hd, failed_ne_doesNotFit (by simp)⟩

omit hfirst hroom in
theorem fits_recoverMode_gone (hd : Kind.journalMarkers.find d = .ok none) (cfg : Config)
    (node : Text) (plan : Json) :
    Fits vmid v u n j₀ (recoverMode .standard Journal.serde cfg node vmid plan) d fun _ d' =>
      Ours v u n j₀ d' := by
  refine Fits.bind (fits_effectiveConfig_gone hd node vmid) ?_
  rintro c d ⟨hd, hc⟩
  rcases hunlocked : requireRefreshUnlocked vmid c with e | ⟨⟩
  · exact ⟨Or.inr hd, other_requireRefreshUnlocked vmid vmid c e hunlocked⟩
  · rw [readJournal_gone hc]
    exact ⟨Or.inr hd, failed_ne_doesNotFit (by simp)⟩

end Steps

/-! ## The first journal -/

section Prepared

variable {vmid v u n : Nat} {d d' p : Text}

theorem without_others (hd : Without n d) (hn : Others n d d') : Without n d' := by
  rcases hn with rfl | ⟨p, ⟨f, hf, -⟩, -⟩ | ⟨-, hd'⟩
  · exact hd
  · rw [hd.1] at hf
    cases hf
  · exact hd'

theorem around_others (hd : Around n d p) (hn : Others n d d') : Around n d' p := by
  rcases hn with rfl | ⟨q, hq, hq'⟩ | ⟨hnone, -⟩
  · exact hd
  · rw [around_payload hd hq]
    exact hq'
  · obtain ⟨f, hf, -⟩ := hd
    rw [hnone] at hf
    cases hf

/-- The first journal stands at the end of the description. -/
theorem around_added (hd : Without n d) (j : Journal) :
    Around n (Description.addBlock d (Kind.journalMarkers, payload j)) (payload j) := by
  refine ⟨_, find_addBlock hd.1 (Base64.standard.clean _), ?_, ?_, ?_⟩
  · dsimp only
  · exact hd.2
  · rw [cutBlock_addBlock]
    exact hd.1

theorem freeStagingSlot_scsi {c : VmConfig} {slot : Text} (h : freeStagingSlot c = .ok slot) :
    isScsiKey slot = true := by
  have hall : ∀ k ∈ ((List.range 30).map fun n => ("scsi" ++ Text.ofNat (n + 1) : Text)).reverse,
      isScsiKey k = true := by
    decide
  unfold freeStagingSlot at h
  split at h
  · next key hkey =>
    cases h
    exact hall _ (List.mem_of_find?_eq_some hkey)
  · cases h

/-- Runs from a description without a journal; their failures do not matter. -/
abbrev Begins {α : Type} (vmid v u n : Nat) (p : Op α) (d : Text) (K : α → Text → Prop) : Prop :=
  wpe (shared vmid v u n) (fun _ _ => True) p d K fun _ _ => True

namespace Begins

variable {α β : Type} {K : α → Text → Prop}

theorem bind {x : Op β} {f : β → Op α} {L : β → Text → Prop} (hx : Begins vmid v u n x d L)
    (hf : ∀ b d', L b d' → Begins vmid v u n (f b) d' K) : Begins vmid v u n (x >>= f) d K :=
  wpe_bind.mpr (wpe_mono hx hf fun _ _ he => he)

theorem calm {x : Op β} {f : β → Op α} (hx : Calm vmid x) (hd : Without n d)
    (hf : ∀ b d', Without n d' → Begins vmid v u n (f b) d' K) : Begins vmid v u n (x >>= f) d K :=
  bind (wpe_mono (Calm.keeps (fun _ _ => without_others) (fun _ _ _ => trivial) hd hx)
    (fun _ _ h => h) fun _ _ _ => trivial) hf

theorem check {x : Except CoreError β} {f : β → Op α} (hf : ∀ b, x = .ok b → Begins vmid v u n (f b) d K) :
    Begins vmid v u n (Op.ofExcept x >>= f) d K := by
  cases x with
  | ok b => exact wpe_bind.mpr (hf b rfl)
  | error e => exact wpe_bind.mpr trivial

end Begins

theorem begins_resolveExistingWorkspace (hd : Without n d) (cfg : Config) (vm : Nat) :
    Begins vmid v u n (resolveExistingWorkspace cfg vm) d fun w d' => Without n d' ∧
      Without n w.vmConfig.description := by
  have hstatus : ∀ r node, Calm vmid (listedStatus r node vm) := fun r node => by
    unfold listedStatus
    split
    · exact Calm.pure _
    · exact calm_vmStatus node vm
  unfold resolveExistingWorkspace
  dsimp only
  split
  · exact wpe_bind.mpr trivial
  refine Begins.calm calm_clusterVmResources hd fun resources d hd => ?_
  split
  · exact trivial
  split
  · exact wpe_bind.mpr trivial
  refine Begins.calm (hstatus _ _) hd fun status d hd => ?_
  refine Begins.bind (wpe_mono (keeps_vmConfig (fun _ _ => without_others) (fun _ _ _ => trivial) hd _ _)
    (fun _ _ h => h)
    fun _ _ _ => trivial) ?_
  rintro c d ⟨hd, hc⟩
  rcases hw : workspaceOf cfg vm _ status c with e | w
  · exact trivial
  · refine ⟨hd, ?_⟩
    rw [workspaceOf_vmConfig hw]
    exact hc.description

/-- The write of a first journal. -/
theorem begins_writeJournal (hd : Without n d) {c : VmConfig} (hc : Without n c.description)
    (node : Text) (j : Journal) :
    Begins vmid v u n (writeJournal .standard Journal.serde node vmid c (some j)) d fun _ d' =>
      Around n d' (payload j) := by
  have hadded := around_added hc j
  have hwith : Journal.descriptionWith .standard Journal.serde c.description (some j) =
      .ok (Description.addBlock c.description (Kind.journalMarkers, payload j)) :=
    Description.Markers.withBlock_set_absent hc.1 _
  unfold writeJournal
  rw [hwith]
  refine wpe_bind.mpr ?_
  change wpe _ _ (ite _ _ _) d _ _
  split
  · exact wpe_bind.mpr trivial
  -- a write whose answer is lost leaves the description with the journal or without
  refine Begins.bind (wpe_mono (keeps_describe (J := fun d => Around n d (payload j))
    (K := fun d => Without n d ∨ Around n d (payload j)) ?_ (fun _ _ _ => trivial)
    (fun d' hn => around_others hadded hn)
    (fun _ => Or.inr) (Or.inl hd) node vmid _) (fun _ _ h => h) fun _ _ _ => trivial) fun _ d hd => ?_
  · rintro d d' (hd | hd) hn
    · exact Or.inl (without_others hd hn)
    · exact Or.inr (around_others hd hn)
  · exact wpe_mono (keeps_vmConfig (J := fun d => Around n d (payload j)) (fun _ _ => around_others)
      (fun _ _ _ => trivial) hd
      node vmid) (fun _ _ h => h.1) fun _ _ _ => trivial

/-- Whoever began a transaction wrote its first journal. -/
theorem begins_prepare (hd : Without n d) (cfg : Config) (node : Text) (plan : Plan) :
    Begins vmid v u n (prepare .standard Journal.serde cfg node vmid plan) d fun r d' =>
      First r.1 ∧ Around n d' (payload r.1) := by
  refine Begins.bind (begins_resolveExistingWorkspace hd cfg vmid) ?_
  rintro w d ⟨hd, hw⟩
  refine Begins.check fun _ _ => ?_
  refine Begins.check fun staging hstaging => ?_
  refine Begins.calm (Calm.call trivial) hd fun id d hd => ?_
  have hfirst : First (newJournal cfg node vmid plan w id staging) :=
    ⟨freeStagingSlot_scsi hstaging, rfl, ⟨rfl, rfl, rfl⟩, rfl⟩
  refine Begins.check fun _ _ => ?_
  refine Begins.calm (Calm.call trivial) hd fun space d hd => ?_
  refine Begins.check fun _ _ => ?_
  exact Begins.bind (begins_writeJournal hd hw node _) fun _ _ hd => ⟨hfirst, hd⟩

end Prepared

/-! ## Whole transactions -/

/-- Another recovery of the VM: after a failed refresh or asked for, stopped
anywhere or finished. -/
inductive Recovers (cfg : Config) (vmid v u n : Nat) : Text → Text → Prop
  | failed {d d' : Text} (node : Text) {o : Option (Except CoreError Recovery)} :
      Exec (shared vmid v u n) (recoverFailed .standard Journal.serde cfg node vmid).run d o d' →
        Recovers cfg vmid v u n d d'
  | asked {d d' : Text} (node : Text) (plan : Json) {o : Option (Except CoreError Outcome)} :
      Exec (shared vmid v u n) (recoverMode .standard Journal.serde cfg node vmid plan).run d o d' →
      Recovers cfg vmid v u n d d'

section Transactions

variable {vmid v u n : Nat} {j₀ : Journal} {α : Type}

/-- What a run that fits leaves, and how it did not end. -/
theorem fits_run {p : Op α} {d d' : Text} {o : Option (Except CoreError α)}
    (hp : Fits vmid v u n j₀ p d fun _ d' => Ours v u n j₀ d') (hr : Exec (shared vmid v u n) p.run d o d') :
    Ours v u n j₀ d' ∧ o ≠ some (.error (doesNotFit vmid)) := by
  cases o with
  | none =>
    refine ⟨?_, fun h => nomatch h⟩
    rcases wp_stop hp hr with ⟨q, hq⟩ | ⟨r, hpost⟩
    · exact hq
    · cases r with
      | ok a => exact hpost
      | error e => exact hpost.1
  | some r =>
    have hpost := wp_done hp hr
    cases r with
    | ok a => exact ⟨hpost, fun h => nomatch h⟩
    | error e =>
      refine ⟨hpost.1, fun h => hpost.2 ?_⟩
      cases h
      rfl

theorem ours_recoverFailed (hfirst : First j₀) (hroom : Room v u n j₀) {d : Text} (hd : Ours v u n j₀ d)
    (cfg : Config) (node : Text) :
    Fits vmid v u n j₀ (recoverFailed .standard Journal.serde cfg node vmid) d fun _ d' =>
      Ours v u n j₀ d' := by
  rcases hd with hd | hd
  · exact fits_recoverFailed hfirst hroom hd cfg node
  · exact fits_recoverFailed_gone hd cfg node

theorem ours_recoverMode (hfirst : First j₀) (hroom : Room v u n j₀) {d : Text} (hd : Ours v u n j₀ d)
    (cfg : Config) (node : Text) (plan : Json) :
    Fits vmid v u n j₀ (recoverMode .standard Journal.serde cfg node vmid plan) d fun _ d' =>
      Ours v u n j₀ d' := by
  rcases hd with hd | hd
  · exact fits_recoverMode hfirst hroom hd cfg node plan
  · exact fits_recoverMode_gone hd cfg node plan

theorem ours_recovers (hfirst : First j₀) (hroom : Room v u n j₀) {cfg : Config} {d d' : Text}
    (hd : Ours v u n j₀ d) (hr : ReflTransGen (Recovers cfg vmid v u n) d d') : Ours v u n j₀ d' := by
  induction hr with
  | refl => exact hd
  | tail _ hstep ih =>
    cases hstep with
    | failed node hr => exact (fits_run (ours_recoverFailed hfirst hroom ih cfg node) hr).1
    | asked node plan hr => exact (fits_run (ours_recoverMode hfirst hroom ih cfg node plan) hr).1

end Transactions

/-- **Room for a whole transaction.** A refresh began on a description with at most
`n` characters around its first journal. If that leaves room for the name of the new
root (`v` bytes of JSON) and for two unused keys (`u` bytes each), then no later
journal of the transaction is refused for its size: not by its steps, and not by any
of its recoveries, wherever each run stopped. -/
theorem journals_fit {cfg : Config} {vmid v u n : Nat} {node : Text} {plan : Plan} {j₀ : Journal}
    {c : VmConfig} {current : ExistingWorkspace} {d₀ d₁ d₂ d₃ : Text} {o : Option (Except CoreError Journal)}
    (hd₀ : Without n d₀) (hprepare : Exec (shared vmid v u n)
    (prepare .standard Journal.serde cfg node vmid plan).run d₀
      (some (.ok (j₀, c, current))) d₁)
    (hroom : n + 28 + 4 * ((size j₀ + 1 + v + 2 * u + 2) / 3) ≤ Journal.descriptionMax)
    (hsteps : Exec (shared vmid v u n)
      (replaceSteps .standard Journal.serde cfg node vmid plan j₀ c current).run d₁ o d₂)
    (hlater : ReflTransGen (Recovers cfg vmid v u n) d₂ d₃) :
    o ≠ some (.error (doesNotFit vmid)) ∧
      (∀ node r d, Exec (shared vmid v u n) (recoverFailed .standard Journal.serde cfg node vmid).run
        d₃ (some r) d →
        r ≠ .error (doesNotFit vmid)) ∧
      ∀ node plan r d, Exec (shared vmid v u n)
        (recoverMode .standard Journal.serde cfg node vmid plan).run d₃ (some r) d →
        r ≠ .error (doesNotFit vmid) := by
  obtain ⟨hfirst, haround⟩ := wp_done (begins_prepare hd₀ cfg node plan) hprepare
  have hd₁ : Held v u n j₀ d₁ := ⟨j₀, later_first hfirst, haround⟩
  obtain ⟨hd₂, ho⟩ := fits_run (fits_replaceSteps hfirst hroom
    (later_first hfirst) hd₁ cfg node plan c current) hsteps
  have hd₃ := ours_recovers hfirst hroom hd₂ hlater
  refine ⟨ho, fun node r d hr he => ?_, fun node plan r d hr he => ?_⟩
  · exact (fits_run (ours_recoverFailed hfirst hroom hd₃ cfg node) hr).2 (congrArg some he)
  · exact (fits_run (ours_recoverMode hfirst hroom hd₃ cfg node plan) hr).2 (congrArg some he)

/-! ## One VM -/

open Prog (Plays Breaks play exec_play)

/-- A workspace's configuration, with an imported root or without. -/
def fullMap (staged : Bool) (d : Text) : List (Text × Json) :=
  let found : List (Text × Json) :=
    [("description", .str d), ("name", .str "dev"), ("tags", .str "homestack-ws"),
    ("boot", .str "order=scsi0"), ("net0", .str "virtio=BC:24:11:00:00:01,bridge=vmbr0"),
    ("scsi0", .str "local:vm-101-disk-0,size=8G"), ("scsi1", .str "local:vm-101-disk-1,serial=HS_HOME_101")]
  if staged then ("scsi30", .str "local:vm-101-disk-2,size=8G") :: found else found

def fullConfig (staged : Bool) (d : Text) : VmConfig := parseConfig (fullMap staged d)

theorem full_lookups (d : Text) : (fullConfig false d)["tags".toList]? = some "homestack-ws".toList ∧
    (fullConfig false d)["name".toList]? = some "dev".toList ∧
    (fullConfig false d)["scsi0".toList]? = some "local:vm-101-disk-0,size=8G".toList ∧
    (fullConfig false d)["scsi1".toList]? = some "local:vm-101-disk-1,serial=HS_HOME_101".toList ∧
    (fullConfig false d)["boot".toList]? = some "order=scsi0".toList ∧
    (fullConfig false d)["net0".toList]? = some "virtio=BC:24:11:00:00:01,bridge=vmbr0".toList :=
  ⟨rfl, rfl, rfl, rfl, rfl, rfl⟩

/-- The keys of the configuration. -/
def fullKeys : List Text := ["scsi30", "description", "name", "tags", "boot", "net0", "scsi0", "scsi1"]

theorem full_keys (staged : Bool) (d key : Text) (h : key ∈ fullConfig staged d) : key ∈ fullKeys := by
  have hkey := Std.ExtTreeMap.mem_ofList.mp h
  rw [List.contains_iff_mem] at hkey
  cases staged
  · exact List.mem_cons_of_mem _ hkey
  · exact hkey

theorem full_stagedLookups (d : Text) :
    (fullConfig true d)["scsi1".toList]? = some "local:vm-101-disk-1,serial=HS_HOME_101".toList ∧
    (fullConfig true d)["tags".toList]? = some "homestack-ws".toList ∧
    (fullConfig true d)["scsi30".toList]? = some "local:vm-101-disk-2,size=8G".toList := ⟨rfl, rfl, rfl⟩

def fullWorkspace (d : Text) : ExistingWorkspace where
  vmid := 101
  name := "dev"
  node := "pve1"
  status := "running"
  vmConfig := fullConfig false d
  rootStorage := some "local"
  homeStorage := some "local"
  rootVolume := "local:vm-101-disk-0"
  homeVolume := "local:vm-101-disk-1"
  homeLabel := "HS_HOME_101"

theorem full_workspaceOf (d : Text) :
    workspaceOf sampleConfig 101 "pve1" "running" (fullConfig false d) = .ok (fullWorkspace d) := by
  obtain ⟨htags, hname, hroot, hhome, -, -⟩ := full_lookups d
  unfold workspaceOf fullWorkspace
  rw [htags, hname, show sampleConfig.rootDisk = "scsi0".toList from rfl,
    show sampleConfig.homeDisk = "scsi1".toList from rfl, hroot, hhome]
  generalize fullConfig false d = c
  rfl

def fullPlan : Plan where
  name := "dev"
  ip := "10.0.0.5"
  cidr := 24
  gateway := "10.0.0.1"
  homeLabel := "HS_HOME_101"
  rootStorage := "local"
  goldRoot := "local:base-9000-disk-0"
  goldDiskConfig := "local:base-9000-disk-0,size=8G"
  initial := .running
  homeVolume := some "local:vm-101-disk-1"

def fullId : Text := "0123456789abcdef0123456789abcdef"

def fullJournal : Journal where
  version := 1
  transactionId := fullId
  phase := .prepared
  vmid := 101
  name := "dev"
  node := "pve1"
  initialStatus := .running
  oldRootSpec := "local:vm-101-disk-0,size=8G"
  oldRootVolume := "local:vm-101-disk-0"
  rootDisk := "scsi0"
  stagingSlot := "scsi30"
  goldRootDiskConfig := "local:base-9000-disk-0,size=8G"
  newRootVolume := []
  newUnusedKey := []
  oldUnusedKey := []
  homeVolume := "local:vm-101-disk-1"
  homeLabel := "HS_HOME_101"
  homeDisk := "scsi1"
  restore := .ofList (Journal.restoredOptions.map fun key =>
    (key, if key = "boot".toList then "order=scsi0".toList else []))
  rollingBack := false

theorem full_restore (d : Text) :
    (Journal.restoredOptions.map fun key => (key, (fullConfig false d)[key]?.getD [])) =
    Journal.restoredOptions.map fun key => (key, if key = "boot".toList then "order=scsi0".toList
    else []) := by
  refine List.map_congr_left fun key hkey => ?_
  by_cases hboot : key = "boot".toList
  · rw [if_pos hboot, hboot, (full_lookups d).2.2.2.2.1]
    rfl
  · have hout : ∀ k ∈ Journal.restoredOptions, k ≠ "boot".toList → k ∉ fullKeys := by decide
    rw [if_neg hboot, Std.ExtTreeMap.getElem?_eq_none fun hmem =>
      hout key hkey hboot (full_keys false d key hmem)]
    rfl

theorem full_newJournal (d : Text) :
    newJournal sampleConfig "pve1" 101 fullPlan (fullWorkspace d) fullId "scsi30" = fullJournal := by
  have hroot := (full_lookups d).2.2.1
  unfold newJournal fullJournal
  rw [show (fullWorkspace d).vmConfig = fullConfig false d from rfl, full_restore,
    show sampleConfig.rootDisk = "scsi0".toList from rfl, hroot]
  rfl

theorem full_free (d : Text) : freeStagingSlot (fullConfig false d) = .ok "scsi30" := rfl

theorem fullJournal_size : size fullJournal = 606 := by
  unfold size Journal.toJson
  rw [jsonSize_obj _ (by simp)]
  decide +kernel

def fullUpid : Text := "UPID:pve1:1:2:3:qmconfig:101:root@pam:"

/-- A Proxmox that answers at once. -/
def reply (staged : Bool) (d : Text) : (q : Call) → q.Answer × Text
  | .get (.config _ _) _ => (.ok (.obj (fullMap staged d)), d)
  | .get (.pending _ _) _ => (.ok (.arr []), d)
  | .get .clusterResources _ =>
    (.ok (.arr [.obj [("vmid", .int 101), ("type", .str "qemu"), ("node", .str "pve1"),
      ("status", .str "running")]]), d)
  | .get (.taskStatus _ _) _ => (.ok (.obj [("status", .str "stopped"), ("exitstatus", .str "OK")]), d)
  | .get _ _ => (.ok .null, d)
  | .post _ _ => (.ok (.str fullUpid), d)
  | .put (.config _ _) form => (.ok .null, described form d)
  | .put _ _ => (.ok .null, d)
  | .delete _ _ => (.ok .null, d)
  | .rounds => ((0 : Nat), d)
  | .running _ _ => (false, d)
  | .probe _ => (.ok none, d)
  | .uuid => (fullId, d)

theorem full_disks (staged : Bool) (d slot value : Text) (hslot : isScsiKey slot = true)
    (hvalue : (fullConfig staged d)[slot]? = some value) : jsonSize (.str (diskVolume value)) ≤ 64 + 2 := by
  have hscsi : ∀ k ∈ fullKeys, isScsiKey k = true → k = "scsi30".toList ∨ k = "scsi0".toList ∨
      k = "scsi1".toList := by decide
  have hkey := full_keys staged d slot (Std.ExtTreeMap.mem_iff_isSome_getElem?.mpr (by rw [hvalue]; rfl))
  rcases hscsi slot hkey hslot with rfl | rfl | rfl <;> cases staged <;> cases hvalue <;> decide

theorem full_short (staged : Bool) (d : Text) : Short 64 8 (fullConfig staged d) := by
  have hunused : ∀ k ∈ fullKeys, isUnusedKey k = false := by decide
  refine ⟨full_disks staged d, fun key hkey hkey' => ?_⟩
  rw [hunused key (full_keys staged d key hkey)] at hkey'
  cases hkey'

theorem full_next (staged : Bool) (n : Nat) (d : Text) (q : Call) :
    (shared 101 64 8 n).next d q (reply staged d q).1 (reply staged d q).2 := by
  have hsame : Others n d d := Or.inl rfl
  cases q with
  | get path query =>
    cases path with
    | config node vm =>
      cases staged
      · exact ⟨hsame, rfl, full_short false d⟩
      · exact ⟨hsame, rfl, full_short true d⟩
    | pending node vm => exact ⟨hsame, fun _ h => nomatch h⟩
    | _ => exact hsame
  | put path form =>
    cases path with
    | config node vm => exact Or.inl rfl
    | _ => exact hsame
  | probe what => exact hsame
  | post path form => exact hsame
  | delete path query => exact hsame
  | rounds => exact hsame
  | running inst job => exact hsame
  | uuid => exact hsame

/-- Notes of the user. -/
def notes (m : Nat) : Text := List.replicate (m + 1) 'x'

theorem notes_length (m : Nat) : (notes m).length = m + 1 := List.length_replicate

theorem notes_find (m : Nat) : Kind.journalMarkers.find (notes m) = .ok none := by
  have hnone : Text.splitOnce Kind.journalMarkers.start (notes m) = none := by
    rw [Kind.journalMarkers.start_cons]
    exact Text.splitOnce_none_of_not_mem _ _ fun h => absurd (List.eq_of_mem_replicate h) (by decide)
  unfold Description.Markers.find Description.find
  rw [hnone]

theorem notes_before (m : Nat) : (beforeBlock (notes m)).length = m + 2 := by
  have hne : notes m ≠ [] :=
    fun h => absurd (congrArg List.length h) (by rw [notes_length]; exact Nat.succ_ne_zero m)
  unfold beforeBlock
  rw [if_neg hne, List.length_append, notes_length]
  rfl

/-- The notes with a journal. -/
noncomputable def noted (m : Nat) (j : Journal) : Text :=
  Description.addBlock (notes m) (Kind.journalMarkers, payload j)

theorem noted_length (m : Nat) (j : Journal) : (noted m j).length = m + 30 + 4 * ((size j + 2) / 3) := by
  have hlength := block_length (beforeBlock (notes m)) [] j
  rw [List.append_nil, notes_before] at hlength
  rw [noted, addBlock_eq, hlength]
  simp only [List.length_nil]

theorem plays_vmConfig (staged : Bool) (d node : Text) :
    Plays (reply staged) (vmConfig node 101) d (fullConfig staged d) d := rfl

theorem plays_resolve (d : Text) :
    Plays (reply false) (resolveExistingWorkspace sampleConfig 101) d (fullWorkspace d) d := by
  have hgold : ¬sampleConfig.goldVmid = some 101 := by decide
  have hlist : Plays (reply false) clusterVmResources d [⟨101, "pve1", none, some "running", none, none⟩] d :=
    rfl
  unfold resolveExistingWorkspace
  refine Plays.guard hgold (Plays.bind hlist ?_)
  change Plays (reply false) (do
    let status ← pure "running".toList
    let vmCfg ← vmConfig "pve1" 101
    Op.ofExcept (workspaceOf sampleConfig 101 "pve1" status vmCfg)) d _ d
  refine Plays.bind (Plays.pure _) (Plays.bind (plays_vmConfig false d _) ?_)
  rw [full_workspaceOf]
  exact Plays.pure _

theorem full_check {d : Text} (hd : Kind.journalMarkers.find d = .ok none) :
    checkWorkspace .standard Journal.serde sampleConfig 101 fullPlan (fullWorkspace d) = .ok () := by
  obtain ⟨htags, -, -, -, hboot, hnet⟩ := full_lookups d
  have hread : readJournal .standard Journal.serde sampleConfig 101 (fullConfig false d) = .ok none :=
    readJournal_gone (c := fullConfig false d) hd sampleConfig 101
  unfold checkWorkspace requireRefreshUnlocked
  rw [show (fullWorkspace d).vmConfig = fullConfig false d from rfl, htags, hread, hboot, hnet]
  rfl

theorem full_valid : validateJournal sampleConfig fullJournal = .ok () := by
  rfl

theorem full_digest (staged : Bool) (d : Text) : (fullConfig staged d)["digest".toList]? = none := by
  cases staged <;> rfl

theorem plays_describe (staged : Bool) (d x node : Text) :
    Plays (reply staged) (setVmConfig node 101 (describeForm x) none) d () x := by
  have hput : Plays (reply staged) (put (.config node 101) (configForm (describeForm x) none)) d .null x := by
    refine Plays.bind (Plays.call _) ?_
    change play _ _ (described (configForm (describeForm x) none) d) = _
    rw [described_form]
    rfl
  exact Plays.bind (Plays.bind (Plays.call _) hput) (Plays.pure _)

theorem plays_writeJournal {d : Text} (hd : Kind.journalMarkers.find d = .ok none) (j : Journal)
    (hfits : (Description.addBlock d (Kind.journalMarkers, payload j)).length ≤ Journal.descriptionMax) :
    Plays (reply false) (writeJournal .standard Journal.serde "pve1" 101 (fullConfig false d) (some j)) d
      (fullConfig false (Description.addBlock d (Kind.journalMarkers, payload j)))
      (Description.addBlock d (Kind.journalMarkers, payload j)) := by
  have hwith : Journal.descriptionWith .standard Journal.serde (fullConfig false d).description (some j) =
      .ok (Description.addBlock d (Kind.journalMarkers, payload j)) :=
    Description.Markers.withBlock_set_absent (d := d) hd _
  unfold writeJournal
  rw [hwith, full_digest]
  refine Plays.bind (Plays.pure _) (Plays.guard (not_lt.mpr hfits) ?_)
  exact Plays.bind (plays_describe false d _ _) (plays_vmConfig false _ _)

theorem plays_prepare {d : Text} (hd : Kind.journalMarkers.find d = .ok none)
    (hfits : (Description.addBlock d (Kind.journalMarkers, payload fullJournal)).length ≤
      Journal.descriptionMax) :
    Plays (reply false) (prepare .standard Journal.serde sampleConfig "pve1" 101 fullPlan) d
      (fullJournal, fullConfig false (Description.addBlock d (Kind.journalMarkers, payload fullJournal)),
        fullWorkspace d)
      (Description.addBlock d (Kind.journalMarkers, payload fullJournal)) := by
  unfold prepare
  refine Plays.bind (plays_resolve d) ?_
  rw [full_check hd]
  refine Plays.bind (Plays.pure _) ?_
  rw [show freeStagingSlot (fullWorkspace d).vmConfig = .ok "scsi30" from full_free d]
  have huuid : Plays (reply false) (Op.call Call.uuid) d fullId d := Plays.call _
  refine Plays.bind (Plays.pure _) (Plays.bind huuid ?_)
  rw [full_newJournal]
  dsimp only
  rw [full_valid]
  refine Plays.bind (Plays.pure _) (Plays.bind (Plays.call _) (Plays.bind (Plays.pure _) ?_))
  exact Plays.bind (plays_writeJournal hd fullJournal hfits) (Plays.pure _)

/-- The journal with the new root. -/
def fullImported : Journal := { fullJournal with newRootVolume := "local:vm-101-disk-2", phase := .imported }

theorem fullImported_size : size fullImported = 625 := by
  have hsize := size_updated fullJournal .imported "local:vm-101-disk-2" [] [] false
  have hphase : jsonSize (.str fullJournal.phase.asStr) = jsonSize (.str Phase.imported.asStr) := by decide
  have hnew : jsonSize (.str "local:vm-101-disk-2".toList) = 21 := by decide
  rw [fullJournal_size, hnew, hphase, show fullJournal.newRootVolume = [] from rfl,
    show fullJournal.newUnusedKey = [] from rfl,
    show fullJournal.oldUnusedKey = [] from rfl, show fullJournal.rollingBack = false from rfl,
      empty_size] at hsize
  have hsame : fullImported = updated fullJournal .imported "local:vm-101-disk-2" [] [] false := rfl
  rw [hsame]
  omega

theorem plays_set (d : Text) (c : VmConfig) (hc : (c)["digest".toList]? = none)
    (values : Form) (what : Text) :
    Plays (reply true) (set "pve1" 101 c values what) d (fullConfig true d) d := by
  have hupid : upidFields fullUpid = some (fullUpid.splitOn ':') :=
    Text.of_literal (P := fun t => upidFields t = some (t.splitOn ':')) (by decide +kernel)
  have hwait : Plays (reply true) (waitTask fullUpid 3600) d ⟨fullUpid, "OK"⟩ d := by
    unfold waitTask
    rw [hupid]
    refine Plays.bind (Plays.call _) ?_
    have hpoll : ∀ node, Plays (reply true) (pollTask node fullUpid 0) d (some ⟨fullUpid, "OK"⟩, 0) d :=
      fun _ => rfl
    unfold pollUntil
    exact Plays.bind (hpoll _) (Plays.pure _)
  have hpost : ∀ form, Plays (reply true) (postTask (.config "pve1" 101) form what 3600) d () d := fun form =>
    Plays.bind (Plays.call _) (Plays.bind (Plays.bind (Plays.call _) (Plays.pure _))
      (Plays.bind (Plays.pure _) (Plays.bind hwait (Plays.pure _))))
  unfold set
  rw [hc]
  exact Plays.bind (hpost _) rfl

/-- What a later journal makes of the description. -/
theorem with_rewritten {d : Text} (hd : Kind.journalMarkers.find d = .ok none) (j j' : Journal) :
    Journal.descriptionWith .standard Journal.serde
      (fullConfig true (Description.addBlock d (Kind.journalMarkers, payload j))).description (some j') =
      .ok (Description.addBlock d (Kind.journalMarkers, payload j')) := by
  have hwith : Journal.descriptionWith .standard Journal.serde
      (fullConfig true (Description.addBlock d (Kind.journalMarkers, payload j))).description (some j') =
      .ok (beforeBlock d ++ Kind.journalMarkers.block (payload j') ++ []) :=
    Description.Markers.withBlock_set_found (find_addBlock hd (Base64.standard.clean _)) _
  rwa [List.append_nil, ← addBlock_eq] at hwith

theorem plays_rewriteJournal {d : Text} (hd : Kind.journalMarkers.find d = .ok none) (j j' : Journal)
    (hfits : (Description.addBlock d (Kind.journalMarkers, payload j')).length ≤ Journal.descriptionMax) :
    Plays (reply true) (writeJournal .standard Journal.serde "pve1" 101
      (fullConfig true (Description.addBlock d (Kind.journalMarkers, payload j))) (some j'))
      (Description.addBlock d (Kind.journalMarkers, payload j))
      (fullConfig true (Description.addBlock d (Kind.journalMarkers, payload j')))
      (Description.addBlock d (Kind.journalMarkers, payload j')) := by
  unfold writeJournal
  rw [with_rewritten hd, full_digest]
  refine Plays.bind (Plays.pure _) (Plays.guard (not_lt.mpr hfits) ?_)
  exact Plays.bind (plays_describe true _ _ _) (plays_vmConfig true _ _)

/-- The write that does not fit. -/
theorem breaks_writeJournal {d : Text} (hd : Kind.journalMarkers.find d = .ok none) (j j' : Journal)
    (hlong : Journal.descriptionMax < (Description.addBlock d (Kind.journalMarkers, payload j')).length) :
    Breaks (reply true) (writeJournal .standard Journal.serde "pve1" 101
      (fullConfig true (Description.addBlock d (Kind.journalMarkers, payload j))) (some j'))
      (Description.addBlock d (Kind.journalMarkers, payload j)) (doesNotFit 101)
      (Description.addBlock d (Kind.journalMarkers, payload j)) := by
  unfold writeJournal
  rw [with_rewritten hd]
  refine Breaks.after (Plays.pure _) ?_
  dsimp only
  rw [if_pos hlong]
  rfl

/-- What the import checks and finds. -/
theorem full_staged (x : Text) : requireHome fullJournal (fullConfig true x) = .ok () ∧
    requireRefreshUnlocked 101 (fullConfig true x) = .ok () ∧
    slotVolume (fullConfig true x) fullJournal.stagingSlot = "local:vm-101-disk-2" := by
  obtain ⟨hhome, htags, hstaged⟩ := full_stagedLookups x
  refine ⟨?_, ?_, ?_⟩
  · unfold requireHome homeMismatch
    rw [show fullJournal.homeDisk = "scsi1".toList from rfl, hhome]
    rfl
  · unfold requireRefreshUnlocked
    rw [htags]
    rfl
  · unfold slotVolume
    rw [show fullJournal.stagingSlot = "scsi30".toList from rfl, hstaged]
    rfl

/-- The import goes on with the write of its journal. -/
theorem plays_importRoot {d : Text} (hd : Kind.journalMarkers.find d = .ok none) (c : VmConfig)
    (hc : (c)["digest".toList]? = none)
    (hfits : (Description.addBlock d (Kind.journalMarkers, payload fullImported)).length ≤
      Journal.descriptionMax) :
    Plays (reply true) (importRoot .standard Journal.serde "pve1" 101 fullPlan fullJournal c)
      (Description.addBlock d (Kind.journalMarkers, payload fullJournal)) fullImported
      (Description.addBlock d (Kind.journalMarkers, payload fullImported)) := by
  have hwrite := plays_rewriteJournal hd fullJournal fullImported hfits
  obtain ⟨hrequire, hunlocked, hnew⟩ :=
    full_staged (Description.addBlock d (Kind.journalMarkers, payload fullJournal))
  unfold importRoot
  refine Plays.bind (plays_set _ c hc _ _) ?_
  rw [hrequire, hunlocked]
  refine Plays.bind (Plays.pure _) (Plays.bind (Plays.pure _) ?_)
  dsimp only
  rw [hnew, if_neg (by decide)]
  exact Plays.bind hwrite (Plays.pure _)

/-- A step that refuses. -/
theorem breaks_replaceSteps {d : Text} (hd : Kind.journalMarkers.find d = .ok none) (c : VmConfig)
    (hc : (c)["digest".toList]? = none) (current : ExistingWorkspace)
    (hlong : Journal.descriptionMax < (Description.addBlock d (Kind.journalMarkers,
      payload fullImported)).length) :
    Breaks (reply true) (replaceSteps .standard Journal.serde sampleConfig
      "pve1" 101 fullPlan fullJournal c current)
      (Description.addBlock d (Kind.journalMarkers, payload fullJournal)) (doesNotFit 101)
      (Description.addBlock d (Kind.journalMarkers, payload fullJournal)) := by
  have hwrite := breaks_writeJournal hd fullJournal fullImported hlong
  obtain ⟨hrequire, hunlocked, hnew⟩ :=
    full_staged (Description.addBlock d (Kind.journalMarkers, payload fullJournal))
  unfold replaceSteps importRoot
  refine Breaks.bind (Breaks.after (plays_set _ c hc _ _) ?_)
  rw [hrequire, hunlocked]
  refine Breaks.after (Plays.pure _) (Breaks.after (Plays.pure _) ?_)
  dsimp only
  rw [hnew, if_neg (by decide)]
  exact Breaks.bind hwrite

theorem full_exec {α : Type} {p : Op α} {a : α} {d d' : Text} (staged : Bool) (n : Nat)
    (h : Plays (reply staged) p d a d') :
    Exec (shared 101 64 8 n) p.run d (some (.ok a)) d' := by
  have hrun := exec_play (E := shared 101 64 8 n) (full_next staged n) p.run d
  rw [show play (reply staged) p.run d = (.ok a, d') from h] at hrun
  exact hrun

theorem full_exec_error {α : Type} {p : Op α} {e : CoreError} {d d' : Text} (staged : Bool) (n : Nat)
    (h : Breaks (reply staged) p d e d') : Exec (shared 101 64 8 n) p.run d (some (.error e)) d' := by
  have hrun := exec_play (E := shared 101 64 8 n) (full_next staged n) p.run d
  rw [show play (reply staged) p.run d = (.error e, d') from h] at hrun
  exact hrun

/-- A part that plays, before a run of the rest. -/
theorem full_exec_after {α β : Type} {x : Op β} {f : β → Op α} {b : β} {o : Option (Except CoreError α)}
    {d d' d'' : Text} (staged : Bool) (n : Nat) (hx : Plays (reply staged) x d b d')
    (hf : Exec (shared 101 64 8 n) (f b).run d' o d'') :
    Exec (shared 101 64 8 n) (x >>= f).run d o d'' := by
  rw [ExceptT.run_bind]
  exact (full_exec staged n hx).after hf

theorem notes_without (m : Nat) : Without (m + 2) (notes m) := ⟨notes_find m, (notes_before m).le⟩

/-- Short notes leave room for every journal of the refresh: it goes on to its second journal and stops
there. -/
theorem journals_fit_notes : Exec (shared 101 64 8 5002)
      (replaceSteps .standard Journal.serde sampleConfig "pve1" 101 fullPlan fullJournal
        (fullConfig false (noted 5000 fullJournal)) (fullWorkspace (notes 5000))).run
          (noted 5000 fullJournal) none
      (noted 5000 fullImported) ∧
    ∀ node r d, Exec (shared 101 64 8 5002) (recoverFailed .standard Journal.serde sampleConfig node 101).run
      (noted 5000 fullImported) (some r) d → r ≠ .error (doesNotFit 101) := by
  have hlength := noted_length 5000 fullJournal
  have himported := noted_length 5000 fullImported
  rw [fullJournal_size] at hlength
  rw [fullImported_size] at himported
  have hprepare := full_exec false 5002 (plays_prepare (notes_find 5000) (by rw [← noted, hlength]; decide))
  have himport := plays_importRoot (notes_find 5000) (fullConfig false (noted 5000 fullJournal))
    (full_digest false _)
    (by rw [← noted, himported]; decide)
  have hstop : Exec (shared 101 64 8 5002) (replaceSteps .standard Journal.serde sampleConfig
      "pve1" 101 fullPlan
      fullJournal (fullConfig false (noted 5000 fullJournal)) (fullWorkspace (notes 5000))).run
        (noted 5000 fullJournal) none
      (noted 5000 fullImported) := full_exec_after true 5002 himport (Exec.stop _ _)
  refine ⟨hstop, (journals_fit (notes_without 5000) hprepare ?_ hstop .refl).2.1⟩
  rw [fullJournal_size]
  decide

/-- The notes leave room for the first journal and not for the name of the new root:
the first step of the refresh is refused. -/
theorem imported_does_not_fit : Exec (shared 101 64 8 7356)
      (prepare .standard Journal.serde sampleConfig "pve1" 101 fullPlan).run (notes 7354)
      (some (.ok (fullJournal, fullConfig false (noted 7354 fullJournal), fullWorkspace (notes 7354))))
      (noted 7354 fullJournal) ∧
    Exec (shared 101 64 8 7356)
      (replaceSteps .standard Journal.serde sampleConfig "pve1" 101 fullPlan fullJournal
        (fullConfig false (noted 7354 fullJournal)) (fullWorkspace (notes 7354))).run (noted 7354 fullJournal)
      (some (.error (doesNotFit 101))) (noted 7354 fullJournal) := by
  have hfirst := noted_length 7354 fullJournal
  have himported := noted_length 7354 fullImported
  rw [fullJournal_size] at hfirst
  rw [fullImported_size] at himported
  refine ⟨full_exec false 7356 (plays_prepare (notes_find 7354) (by rw [← noted, hfirst]; decide)), ?_⟩
  exact full_exec_error true 7356 (breaks_replaceSteps (notes_find 7354) _ (full_digest false _) _
    (by rw [← noted, himported]; decide))

end HomeStack.Refresh

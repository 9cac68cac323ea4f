import HomeStack.AgentRuntime
import HomeStack.Lib.Result
import Mathlib.Logic.Relation

/-! Runs of the service: runtime operations, probes, crashes and starts one after
the other, each stopped anywhere. In every state reached the pinned and the
retained executables are there and verified. -/

namespace HomeStack.AgentRuntime

open Prog hiding pure bind

/-! ## The disk and the database -/

inductive Node
  | file (bytes : Bytes)
  /-- A directory or a symlink. -/
  | other
  deriving DecidableEq

/-- The entries of a directory. -/
abbrev Tree := Text → Option Node

structure World where
  /-- `runtimes/<provider>` -/
  installs : Text → Option Tree
  stages : Text → Option Tree
  /-- The row of the provider. -/
  row : Option Runtime
  /-- Observations by profile, newest first. -/
  history : List (Text × Snapshot)
  -- what has happened, newest first: bundled executables copied, outputs of
  -- `--version`, successful probes, transactions of `activate_runtime`
  seeded : List Bytes
  ran : List (Bytes × Bytes)
  probed : List (Bytes × Snapshot)
  activated : List Text
  /-- The installation renamed into place last, while its transaction has not
  committed. -/
  unpublished : Option Text

namespace World

def tree (w : World) : Place → Option Tree
  | .staged id => w.stages id
  | .installed version => w.installs version

/-- The executable at a place, if it is a regular file. -/
def executable (provider : Text) (w : World) (place : Place) : Option Bytes :=
  match (w.tree place).bind fun tree => tree provider with
  | some (.file bytes) => some bytes
  | _ => none

def withStage (w : World) (id : Text) (tree : Option Tree) : World :=
  { w with stages := Function.update w.stages id tree }

def withInstall (w : World) (version : Text) (tree : Option Tree) : World :=
  { w with installs := Function.update w.installs version tree }

end World

/-- What an unfinished removal leaves of a directory. -/
def Partly (tree tree' : Tree) : Prop := ∀ name, tree' name = none ∨ tree' name = tree name

/-- What a call can answer and leave behind. Answers about profiles, releases and
listings are free; a failed download, copy or removal leaves a part of its work. -/
def disk (provider : Text) : Env Call Call.Answer World where
  next w q r w' :=
    match q, r with
    | .runtime, .ok row => row = w.row ∧ w' = w
    | .saveRuntime runtime, .ok _ => w' = { w with row := some runtime }
    | .activateRuntime runtime profile snapshot, .ok _ =>
      w' = { w with
        row := w.row.map fun _ => runtime
        history := (profile.id, snapshot) :: w.history
        activated := runtime.version :: w.activated
        unpublished := none }
    | .saveProfile profile snapshot, .ok _ =>
      w' = { w with history := (snapshot.map fun s => (profile.id, s)).toList ++ w.history }
    | .directory (.install version), .ok _ =>
      w' = w.withInstall version (some ((w.installs version).getD fun _ => none))
    | .directory (.stage id), .ok _ => w' = w.withStage id (some ((w.stages id).getD fun _ => none))
    | .exists version, there => there = (w.installs version).isSome ∧ w' = w
    | .download _ id file, .ok _ =>
      ∃ tree bytes, w.stages id = some tree ∧
        w' = w.withStage id (some (Function.update tree file (some (.file bytes))))
    | .download _ id file, .error _ =>
      w' = w ∨ ∃ tree bytes, w.stages id = some tree ∧
        w' = w.withStage id (some (Function.update tree file (some (.file bytes))))
    | .extract id _ member, _ =>
      w' = w ∨ ∃ tree node, w.stages id = some tree ∧
        w' = w.withStage id (some (Function.update tree member (some node)))
    | .renameIn id old new, .ok _ =>
      ∃ tree node, w.stages id = some tree ∧ tree old = some node ∧
        w' = w.withStage id (some (Function.update (Function.update tree new (some node)) old none))
    | .removeIn id file, .ok _ =>
      ∃ tree, w.stages id = some tree ∧ w' = w.withStage id (some (Function.update tree file none))
    | .isRegular place, regular => regular = (w.executable provider place).isSome ∧ w' = w
    | .runVersion place, .ok (status, output) =>
      status.success = false ∧ w' = w ∨
        ∃ bytes, w.executable provider place = some bytes ∧ w' = { w with ran := (bytes, output) :: w.ran }
    | .probe _ (some place), .ok snapshot =>
      ∃ bytes, w.executable provider place = some bytes ∧
        w' = { w with probed := (bytes, snapshot) :: w.probed }
    | .renameStage id version, .ok _ =>
      -- a directory already there must be empty
      ∃ tree, w.stages id = some tree ∧ (∀ there, w.installs version = some there →
        ∀ name, there name = none) ∧
        w' = { (w.withStage id none).withInstall version (some tree) with unpublished := some version }
    | .removeInstall version, .ok _ => w' = w.withInstall version none
    | .removeInstall version, .error _ =>
      w' = w ∨ ∃ tree tree', w.installs version = some tree ∧ Partly tree tree' ∧
        w' = w.withInstall version (some tree')
    | .stageExists id, there => there = (w.stages id).isSome ∧ w' = w
    | .removeStage id, .ok _ => w' = w.withStage id none
    | .removeStage id, .error _ =>
      w' = w ∨ ∃ tree tree', w.stages id = some tree ∧ Partly tree tree' ∧ w' = w.withStage id (some tree')
    | .copyBundled version, .ok _ =>
      ∃ tree bytes, w.installs version = some tree ∧
        w' = { w.withInstall version (some (Function.update tree provider (some (.file bytes)))) with
          seeded := bytes :: w.seeded }
    | .copyBundled version, .error _ =>
      w' = w ∨ ∃ tree bytes, w.installs version = some tree ∧
        w' = w.withInstall version (some (Function.update tree provider (some (.file bytes))))
    | _, _ => w' = w

/-! ## What holds at every moment -/

/-- The executable passed `verify_version` for the version. -/
def Passed (w : World) (bytes : Bytes) (version : Text) : Prop :=
  ∃ output, (bytes, output) ∈ w.ran ∧ reports output version = true

/-- The executable of the version is installed, and was seeded or verified. -/
def Runnable (provider : Text) (w : World) (version : Text) : Prop :=
  ∃ bytes, w.executable provider (.installed version) = some bytes ∧
    (bytes ∈ w.seeded ∨ Passed w bytes version)

/-- The pinned and the retained version are runnable. -/
def Sound (provider : Text) (w : World) : Prop :=
  ∀ runtime, w.row = some runtime →
    Runnable provider w runtime.version ∧ ∀ version, runtime.previousVersion = some version →
      Runnable provider w version

/-- The pinned and the retained version. -/
def World.pin (w : World) : Option (Text × Option Text) :=
  w.row.map fun runtime => (runtime.version, runtime.previousVersion)

/-- An entry that was added in between. -/
def Newly {α : Type} (x : α) (before after : List α) : Prop := ∃ old, before <:+ old ∧ x :: old <:+ after

/-- The pin was changed, together with a probe by the new executable. -/
def Changed (provider : Text) (w₀ w : World) : Prop :=
  ∃ old new profile bytes snapshot, w₀.row = some old ∧ w.row = some new ∧
    new.previousVersion = some old.version ∧ Newly new.version w₀.activated w.activated ∧
    w.executable provider (.installed new.version) = some bytes ∧
    Newly (bytes, snapshot) w₀.probed w.probed ∧ Newly (profile, snapshot) w₀.history w.history

/-- What one operation has done to the world at any moment of it. -/
structure Safe (provider : Text) (bundled : Option Text) (w₀ w : World) : Prop where
  sound : Sound provider w
  row : w₀.row.isSome → w.row.isSome
  pin : w₀.row = none ∨ w.pin = w₀.pin ∨ Changed provider w₀ w
  probed : w₀.probed <:+ w.probed
  history : w₀.history <:+ w.history
  activated : w₀.activated <:+ w.activated
  installs : ∀ version, w₀.installs version = none → w₀.row = none ∧ bundled.isSome ∨
    w.installs version = none ∨ Newly version w₀.activated w.activated ∨ w.unpublished = some version

/-- Nothing changed that the pins depend on. -/
structure Same (w w' : World) : Prop where
  installs : w'.installs = w.installs
  row : w'.row = w.row
  activated : w'.activated = w.activated
  unpublished : w'.unpublished = w.unpublished
  seeded : w'.seeded = w.seeded
  ran : w.ran <:+ w'.ran
  probed : w.probed <:+ w'.probed
  history : w.history <:+ w'.history

theorem Same.refl (w : World) : Same w w :=
  ⟨rfl, rfl, rfl, rfl, rfl, List.suffix_refl _, List.suffix_refl _, List.suffix_refl _⟩

theorem Same.trans {w w' w'' : World} (h : Same w w') (h' : Same w' w'') : Same w w'' where
  installs := h'.installs.trans h.installs
  row := h'.row.trans h.row
  activated := h'.activated.trans h.activated
  unpublished := h'.unpublished.trans h.unpublished
  seeded := h'.seeded.trans h.seeded
  ran := h.ran.trans h'.ran
  probed := h.probed.trans h'.probed
  history := h.history.trans h'.history

theorem executable_congr {provider : Text} {w w' : World} {version : Text}
    (h : w'.installs version = w.installs version) :
    w'.executable provider (.installed version) = w.executable provider (.installed version) := by
  have htree : w'.tree (.installed version) = w.tree (.installed version) := h
  unfold World.executable
  rw [htree]

/-- A version stays runnable while its installation stays. -/
theorem Runnable.congr {provider : Text} {w w' : World} {version : Text} (hr : Runnable provider w version)
    (h : w'.installs version = w.installs version) (hseeded : w.seeded <:+ w'.seeded)
    (hran : w.ran <:+ w'.ran) :
    Runnable provider w' version := by
  obtain ⟨bytes, hexe, hfrom⟩ := hr
  refine ⟨bytes, (executable_congr h).trans hexe, hfrom.imp (fun hmem => hseeded.subset hmem) ?_⟩
  rintro ⟨output, hmem, hreports⟩
  exact ⟨output, hran.subset hmem, hreports⟩

theorem Runnable.same {provider : Text} {w w' : World} (h : Same w w') {version : Text}
    (hr : Runnable provider w version) : Runnable provider w' version :=
  hr.congr (by rw [h.installs]) (by rw [h.seeded]) h.ran

theorem Sound.same {provider : Text} {w w' : World} (h : Same w w') (hs : Sound provider w) :
    Sound provider w' := by
  intro runtime hrow
  rw [h.row] at hrow
  obtain ⟨hversion, hprevious⟩ := hs runtime hrow
  exact ⟨hversion.same h, fun version hv => (hprevious version hv).same h⟩

theorem Newly.mono {α : Type} {x : α} {before after after' : List α} (h : Newly x before after)
    (hs : after <:+ after') :
    Newly x before after' := by
  obtain ⟨old, hold, hx⟩ := h
  exact ⟨old, hold, hx.trans hs⟩

theorem Safe.refl {provider : Text} {bundled : Option Text} {w : World} (h : Sound provider w) :
    Safe provider bundled w w where
  sound := h
  row := id
  pin := Or.inr (Or.inl rfl)
  probed := List.suffix_refl _
  history := List.suffix_refl _
  activated := List.suffix_refl _
  installs _ hnone := Or.inr (Or.inl hnone)

theorem Safe.same {provider : Text} {bundled : Option Text} {w₀ w w' : World} (h : Safe provider bundled w₀ w)
    (hs : Same w w') : Safe provider bundled w₀ w' where
  sound := h.sound.same hs
  row hrow := by
    rw [hs.row]
    exact h.row hrow
  pin := by
    refine h.pin.imp id (Or.imp ?_ ?_)
    · intro hpin
      unfold World.pin at hpin ⊢
      rw [hs.row, hpin]
    · rintro ⟨old, new, profile, bytes, snapshot, hold, hnew, hprev, hact, hexe, hprobed, hhistory⟩
      refine ⟨old, new, profile, bytes, snapshot, hold, hs.row.trans hnew, hprev, ?_,
        ?_, hprobed.mono hs.probed,
        hhistory.mono hs.history⟩
      · rw [hs.activated]
        exact hact
      · exact (executable_congr (by rw [hs.installs])).trans hexe
  probed := h.probed.trans hs.probed
  history := h.history.trans hs.history
  activated := by
    rw [hs.activated]
    exact h.activated
  installs version hnone := by
    rw [hs.installs, hs.activated, hs.unpublished]
    exact h.installs version hnone

/-! ## Quiet calls -/

/-- A call that changes no installation and no pin. -/
def Quiet : Call → Prop
  | .saveRuntime _ => False
  | .activateRuntime _ _ _ => False
  | .directory (.install _) => False
  | .exists _ => False
  | .renameStage _ _ => False
  | .removeInstall _ => False
  | .copyBundled _ => False
  | _ => True

theorem same_withStage (w : World) (id : Text) (tree : Option Tree) : Same w (w.withStage id tree) :=
  ⟨rfl, rfl, rfl, rfl, rfl, List.suffix_refl _, List.suffix_refl _, List.suffix_refl _⟩

theorem same_ran (w : World) (run : Bytes × Bytes) : Same w { w with ran := run :: w.ran } :=
  ⟨rfl, rfl, rfl, rfl, rfl, List.suffix_cons _ _, List.suffix_refl _, List.suffix_refl _⟩

theorem same_probed (w : World) (probe : Bytes × Snapshot) : Same w { w with probed := probe :: w.probed } :=
  ⟨rfl, rfl, rfl, rfl, rfl, List.suffix_refl _, List.suffix_cons _ _, List.suffix_refl _⟩

theorem same_history (w : World) (new : List (Text × Snapshot)) :
    Same w { w with history := new ++ w.history } :=
  ⟨rfl, rfl, rfl, rfl, rfl, List.suffix_refl _, List.suffix_refl _, List.suffix_append _ _⟩

/-- One step lemma for all of them. -/
theorem Quiet.same {provider : Text} {w w' : World} {q : Call} {r : q.Answer} (hq : Quiet q)
    (h : (disk provider).next w q r w') : Same w w' := by
  cases q with
  | saveRuntime runtime => exact hq.elim
  | activateRuntime runtime profile snapshot => exact hq.elim
  | «exists» version => exact hq.elim
  | renameStage id version => exact hq.elim
  | removeInstall version => exact hq.elim
  | copyBundled version => exact hq.elim
  | directory folder =>
    cases folder with
    | install version => exact hq.elim
    | parent => cases r <;> (cases h; exact Same.refl _)
    | check sub => cases r <;> (cases h; exact Same.refl _)
    | stage id =>
      cases r with
      | ok u => cases h; exact same_withStage _ _ _
      | error e => cases h; exact Same.refl _
  | runtime =>
    cases r with
    | ok row => cases h.2; exact Same.refl _
    | error e => cases h; exact Same.refl _
  | saveProfile profile snapshot =>
    cases r with
    | ok u => cases h; exact same_history _ _
    | error e => cases h; exact Same.refl _
  | download url id file =>
    cases r with
    | ok u =>
      obtain ⟨tree, bytes, -, rfl⟩ := h
      exact same_withStage _ _ _
    | error e =>
      obtain rfl | ⟨tree, bytes, -, rfl⟩ := h
      · exact Same.refl _
      · exact same_withStage _ _ _
  | extract id archive member =>
    obtain rfl | ⟨tree, node, -, rfl⟩ := h
    · exact Same.refl _
    · exact same_withStage _ _ _
  | renameIn id old new =>
    cases r with
    | ok u =>
      obtain ⟨tree, node, -, -, rfl⟩ := h
      exact same_withStage _ _ _
    | error e => cases h; exact Same.refl _
  | removeIn id file =>
    cases r with
    | ok u =>
      obtain ⟨tree, -, rfl⟩ := h
      exact same_withStage _ _ _
    | error e => cases h; exact Same.refl _
  | isRegular place => cases h.2; exact Same.refl _
  | stageExists id => cases h.2; exact Same.refl _
  | runVersion place =>
    cases r with
    | ok run =>
      obtain ⟨-, rfl⟩ | ⟨bytes, -, rfl⟩ := h
      · exact Same.refl _
      · exact same_ran _ _
    | error e => cases h; exact Same.refl _
  | probe profile place =>
    cases place with
    | none => cases h; exact Same.refl _
    | some place =>
      cases r with
      | ok snapshot =>
        obtain ⟨bytes, -, rfl⟩ := h
        exact same_probed _ _
      | error e => cases h; exact Same.refl _
  | removeStage id =>
    cases r with
    | ok u => cases h; exact same_withStage _ _ _
    | error e =>
      obtain rfl | ⟨tree, tree', -, -, rfl⟩ := h
      · exact Same.refl _
      · exact same_withStage _ _ _
  | await => cases h; exact Same.refl _
  | now => cases h; exact Same.refl _
  | newUuid => cases h; exact Same.refl _
  | cancelled => cases h; exact Same.refl _
  | enqueue => cases h; exact Same.refl _
  | profiles => cases h; exact Same.refl _
  | profile id => cases h; exact Same.refl _
  | saveOperation operation => cases h; exact Same.refl _
  | unfinished => cases h; exact Same.refl _
  | metadata selected => cases h; exact Same.refl _
  | setMode place => cases h; exact Same.refl _
  | installs => cases h; exact Same.refl _
  | stages => cases h; exact Same.refl _

/-! ## Programs at every moment -/

/-- What holds whenever an operation that began in `w₀` asks: it is safe so far,
and a directory is looked for before any is made. -/
def Watched (provider : Text) (bundled : Option Text) (w₀ w : World) (q : Call) : Prop :=
  Safe provider bundled w₀ w ∧ ∀ version, q = .exists version → w.installs = w₀.installs

section Specs

variable {provider : Text} {bundled : Option Text} {w₀ w : World}

theorem Quiet.watched {q : Call} (hq : Quiet q) (h : Safe provider bundled w₀ w) :
    Watched provider bundled w₀ w q := by
  refine ⟨h, ?_⟩
  rintro version rfl
  exact hq.elim

/-- A program of quiet calls. -/
theorem quiet_spec {α : Type} {p : Io α} (hp : p.run.Asks Quiet) (hsafe : Safe provider bundled w₀ w) :
    wpe (disk provider) (Watched provider bundled w₀) p w (fun _ w' => Same w w') fun _ w' => Same w w' := by
  refine wpe_inv hp (Same.refl w) ?_ ?_
  · intro s q r s' hq hs hn
    exact hs.trans (hq.same hn)
  · intro s q hq hs
    exact hq.watched (hsafe.same hs)

/-- Quiet calls first. -/
theorem quiet_bind {α β : Type} {x : Io β} {f : β → Io α} {K : α → World → Prop} {X : Failure → World → Prop}
    (hx : x.run.Asks Quiet) (hsafe : Safe provider bundled w₀ w)
    (hf : ∀ b w', Same w w' → wpe (disk provider) (Watched provider bundled w₀) (f b) w' K X)
    (hX : ∀ e w', Same w w' → X e w') : wpe (disk provider) (Watched provider bundled w₀) (x >>= f) w K X :=
  wpe_bind.mpr (wpe_mono (quiet_spec hx hsafe) hf hX)

theorem asks_call {q : Call} (hq : Quiet q) : (ask q).Asks Quiet := ⟨hq, fun _ => trivial⟩

theorem asks_done {x : Calls Done} (hx : x.Asks Quiet) (e : Failure) : (done x e).run.Asks Quiet := by
  refine asks_bind (asks_lift hx) fun r => ?_
  cases r <;> trivial

theorem asks_download (url stage file expected : Text) :
    (download url stage file expected).run.Asks Quiet := by
  unfold download
  split
  · trivial
  · exact asks_call trivial

theorem asks_fetchRelease (provider selected stage : Text) (data : Json) :
    (fetchRelease provider selected stage data).run.Asks Quiet := by
  unfold fetchRelease
  dsimp only
  split
  · split
    · trivial
    · split
      · trivial
      · refine asks_bind (asks_download _ _ _ _) fun _ => asks_bind (asks_call trivial) fun success => ?_
        split
        · trivial
        · refine asks_bind (asks_done (asks_call (by trivial)) _) fun _ =>
            asks_done (asks_call (by trivial)) _
  · split
    · trivial
    · exact asks_download _ _ _ _

theorem asks_verificationProfile (provider : Text) : (verificationProfile provider).run.Asks Quiet := by
  unfold verificationProfile
  refine asks_bind (asks_call trivial) fun profiles => ?_
  split
  · trivial
  · refine asks_bind (asks_call trivial) fun _ => asks_bind (asks_call trivial) fun p => ?_
    split <;> trivial

/-- The executable at the place ran and named the version. -/
def Verified (provider : Text) (w : World) (place : Place) (selected : Text) : Prop :=
  ∃ bytes, w.executable provider place = some bytes ∧ Passed w bytes selected

theorem checkFolders_spec (hsafe : Safe provider bundled w₀ w) :
    wpe (disk provider) (Watched provider bundled w₀)
      (checkFolders.forM fun sub => (ExceptT.mk (ask (.directory (.check sub))) : Io Unit)) w
      (fun _ w' => w' = w) fun _ w' => w' = w := by
  refine wpe_of_asks (P := fun q => ∃ sub, q = .directory (.check sub)) ?_ ?_ ?_ (fun _ => rfl) fun _ => rfl
  · refine asks_forM (fun sub => ?_) _
    exact ⟨⟨sub, rfl⟩, fun _ => trivial⟩
  · rintro q ⟨sub, rfl⟩
    exact Quiet.watched trivial hsafe
  · rintro q r w' ⟨sub, rfl⟩ hn
    cases r <;> exact hn

theorem verifyVersion_spec (place : Place) (selected : Text) (hsafe : Safe provider bundled w₀ w) :
    wpe (disk provider) (Watched provider bundled w₀) (verifyVersion provider place selected) w
      (fun _ w' => Same w w' ∧ w'.stages = w.stages ∧ Verified provider w' place selected) fun _ w' =>
        Same w w' := by
  unfold verifyVersion
  refine wpe_bind.mpr (wpe_mono (checkFolders_spec hsafe) ?_ ?_)
  · rintro - w' rfl
    refine wpe_bind.mpr ⟨Quiet.watched trivial hsafe, fun r w'' hn => ?_⟩
    have hsame : Same w' w'' := Quiet.same (q := .runVersion place) trivial hn
    cases r with
    | error e => exact hsame
    | ok run =>
      obtain ⟨status, output⟩ := run
      show wpe _ _ (if status.success = false ∨ reports output selected = false then _ else _) _ _ _
      split
      · exact hsame
      · next hok =>
        rw [not_or, Bool.not_eq_false, Bool.not_eq_false] at hok
        obtain ⟨hstatus, rfl⟩ | ⟨bytes, hexe, rfl⟩ := hn
        · rw [hok.1] at hstatus
          cases hstatus
        · exact ⟨hsame, rfl, bytes, by cases place <;> exact hexe, output, List.mem_cons_self, hok.2⟩
  · rintro e w' rfl
    exact Same.refl _

theorem candidate_spec (selected stage : Text) (hsafe : Safe provider bundled w₀ w) :
    wpe (disk provider) (Watched provider bundled w₀) (candidate provider selected stage) w
      (fun place w' => Same w w' ∧ place = .staged stage ∧ Verified provider w' place selected)
      fun _ w' => Same w w' := by
  unfold candidate
  refine quiet_bind (asks_call trivial) hsafe (fun data w₁ h₁ => ?_) fun _ _ h => h
  refine quiet_bind trivial (hsafe.same h₁) (fun found w₂ h₂ => ?_) fun _ _ h => h₁.trans h
  split
  · exact h₁.trans h₂
  have h₂ := h₁.trans h₂
  refine quiet_bind (asks_fetchRelease _ _ _ _) (hsafe.same h₂) (fun _ w₃ h₃ => ?_) fun _ _ h => h₂.trans h
  have h₃ := h₂.trans h₃
  refine quiet_bind (asks_lift (asks_call trivial)) (hsafe.same h₃)
    (fun regular w₄ h₄ => ?_) fun _ _ h => h₃.trans h
  have h₄ := h₃.trans h₄
  split
  · exact h₄
  refine quiet_bind (asks_done (asks_call (by trivial)) _) (hsafe.same h₄)
    (fun _ w₅ h₅ => ?_) fun _ _ h => h₄.trans h
  have h₅ := h₄.trans h₅
  refine wpe_bind.mpr (wpe_mono (verifyVersion_spec (.staged stage) selected (hsafe.same h₅)) ?_ fun _ _ h =>
    h₅.trans h)
  rintro - w₆ ⟨h₆, -, hverified⟩
  exact ⟨h₅.trans h₆, rfl, hverified⟩

theorem withInstall_self {w : World} {version : Text} {tree : Tree} (h : w.installs version = some tree) :
    w.withInstall version (some tree) = w := by
  unfold World.withInstall
  rw [← h, Function.update_eq_self]

theorem retainedBinary_spec (selected : Text) (hsafe : Safe provider bundled w₀ w)
    (hthere : (w.installs selected).isSome) :
    wpe (disk provider) (Watched provider bundled w₀) (retainedBinary provider selected) w
      (fun place w' => Same w w' ∧ place = .installed selected ∧ Verified provider w' place selected)
      fun _ w' => Same w w' := by
  unfold retainedBinary
  refine quiet_bind (asks_call trivial) hsafe (fun _ w₁ h₁ => ?_) fun _ _ h => h
  refine wpe_bind.mpr ⟨⟨hsafe.same h₁, fun version h => nomatch h⟩, fun r w₂ hn => ?_⟩
  -- the directory is there
  have h₂ : Same w w₂ := by
    cases r with
    | error e =>
      cases hn
      exact h₁
    | ok u =>
      obtain ⟨tree, htree⟩ := Option.isSome_iff_exists.mp hthere
      rw [← h₁.installs] at htree
      have hw : w₂ = w₁.withInstall selected (some ((w₁.installs selected).getD fun _ => none)) := hn
      rw [htree, Option.getD_some, withInstall_self htree] at hw
      rw [hw]
      exact h₁
  cases r with
  | error e => exact h₂
  | ok u =>
    refine quiet_bind (asks_lift (asks_call trivial)) (hsafe.same h₂)
      (fun regular w₃ h₃ => ?_) fun _ _ h => h₂.trans h
    have h₃ := h₂.trans h₃
    split
    · exact h₃
    · refine wpe_bind.mpr (wpe_mono (verifyVersion_spec (.installed selected) selected (hsafe.same h₃)) ?_
        fun _ _ h => h₃.trans h)
      rintro - w₄ ⟨h₄, -, hverified⟩
      exact ⟨h₃.trans h₄, rfl, hverified⟩

theorem stagedBinary_spec (selected stage : Text) (hsound : Sound provider w₀) (hsame : Same w₀ w) :
    wpe (disk provider) (Watched provider bundled w₀) (stagedBinary provider selected stage) w
      (fun place w' => Same w w' ∧ place = .staged stage ∧ Verified provider w' place selected ∧
        w.installs selected = none)
      fun _ w' => Same w w' := by
  have hsafe : Safe provider bundled w₀ w := (Safe.refl hsound).same hsame
  unfold stagedBinary
  refine wpe_bind.mpr (wpe_lift ⟨⟨hsafe, fun _ _ => hsame.installs⟩, fun there w₁ hn => ?_⟩)
  obtain ⟨rfl, rfl⟩ := hn
  show wpe _ _ (if (w₁.installs selected).isSome = true then _ else _) _ _ _
  split
  · exact Same.refl _
  · next hnone =>
    refine quiet_bind (asks_call trivial) hsafe (fun _ w₂ h₂ => ?_) fun _ _ h => h
    refine wpe_mono (candidate_spec selected stage (hsafe.same h₂)) ?_ fun _ _ h => h₂.trans h
    rintro place w₃ ⟨h₃, hplace, hverified⟩
    exact ⟨h₂.trans h₃, hplace, hverified, by simpa using hnone⟩

/-! ## Publishing -/

/-- A directory other than the pinned and the retained one is removed, in part or
wholly. -/
theorem Safe.withInstall {name : Text} {tree : Option Tree} (h : Safe provider bundled w₀ w)
    (hrow : ∀ runtime, w.row = some runtime → name ≠ runtime.version ∧ runtime.previousVersion ≠ some name)
    (hthere : tree ≠ none → w.installs name ≠ none) : Safe provider bundled w₀ (w.withInstall name tree) where
  sound := by
    intro runtime hruntime
    obtain ⟨hversion, hprevious⟩ := h.sound runtime hruntime
    obtain ⟨hne, hne'⟩ := hrow runtime hruntime
    refine ⟨hversion.congr (Function.update_of_ne hne.symm _ _) (List.suffix_refl _) (List.suffix_refl _), ?_⟩
    intro version hv
    have hother : version ≠ name := fun e => hne' (e ▸ hv)
    exact (hprevious version hv).congr (Function.update_of_ne hother _ _)
      (List.suffix_refl _) (List.suffix_refl _)
  row := h.row
  pin := by
    refine h.pin.imp id (Or.imp id ?_)
    rintro ⟨old, new, profile, bytes, snapshot, hold, hnew, hprev, hact, hexe, hprobed, hhistory⟩
    refine ⟨old, new, profile, bytes, snapshot, hold, hnew, hprev, hact, ?_, hprobed, hhistory⟩
    exact (executable_congr (Function.update_of_ne (hrow new hnew).1.symm _ _)).trans hexe
  probed := h.probed
  history := h.history
  activated := h.activated
  installs version hnone := by
    by_cases hv : version = name
    · subst hv
      refine (h.installs version hnone).imp id (Or.imp ?_ id)
      intro hnow
      show Function.update w.installs version tree version = none
      rw [Function.update_self]
      by_contra hsome
      exact hthere hsome hnow
    · refine (h.installs version hnone).imp id (Or.imp ?_ id)
      intro hnow
      show Function.update w.installs name tree version = none
      rw [Function.update_of_ne hv]
      exact hnow

theorem retire_spec {runtime : Runtime} (h : Safe provider bundled w₀ w) (hrow : w.row = some runtime) :
    wpe (disk provider) (Watched provider bundled w₀) (retire runtime) w
      (fun _ w' => Safe provider bundled w₀ w')
      fun _ w' => Safe provider bundled w₀ w' := by
  unfold retire
  refine wpe_bind.mpr (wpe_lift ⟨Quiet.watched trivial h, fun entries w₁ hn => ?_⟩)
  cases hn
  -- every removal keeps this
  have hloop : ∀ (entries : List (Text × Bool)) w, Safe provider bundled w₀ w → w.row = some runtime →
      wpe (disk provider) (Watched provider bundled w₀)
        (entries.forM fun entry => (do
          if isVersion entry.1 = true ∧ entry.1 ≠ runtime.version ∧
            runtime.previousVersion ≠ some entry.1 ∧ entry.2 = true then
            let _ ← liftM (ask (.removeInstall entry.1)) : Io Unit)) w
        (fun _ w' => Safe provider bundled w₀ w') fun _ w' => Safe provider bundled w₀ w' := by
    intro entries
    induction entries with
    | nil => exact fun w h _ => h
    | cons entry entries ih =>
      intro w h hrow
      obtain ⟨name, isDir⟩ := entry
      refine wpe_bind.mpr ?_
      dsimp only
      split
      · next hother =>
        refine wpe_bind.mpr (wpe_lift ⟨⟨h, fun version h => by cases h⟩, fun r w₁ hn => ?_⟩)
        have hname : ∀ current, w.row = some current → name ≠ current.version ∧
            current.previousVersion ≠ some name := by
          intro current hcurrent
          rw [hrow] at hcurrent
          cases hcurrent
          exact ⟨hother.2.1, hother.2.2.1⟩
        cases r with
        | ok u =>
          cases hn
          exact ih _ (h.withInstall hname fun hne => absurd rfl hne) hrow
        | error e =>
          obtain rfl | ⟨tree, tree', htree, -, rfl⟩ := hn
          · exact ih _ h hrow
          · exact ih _ (h.withInstall hname fun _ => by simp [htree]) hrow
      · exact ih _ h hrow
  exact hloop entries _ h hrow

/-- What stands before the transaction: the executable is in place and verified,
the account was probed with it, and the pin is still the one the operation read. -/
structure Ready (provider : Text) (bundled : Option Text) (w₀ w : World) (runtime : Runtime) (selected : Text)
    (snapshot : Snapshot) : Prop where
  safe : Safe provider bundled w₀ w
  row₀ : w₀.row = some runtime
  row : w.row = some runtime
  activated : w.activated = w₀.activated
  installs : ∀ version, w₀.installs version = none → w.installs version = none ∨ version = selected
  verified : ∃ bytes, w.executable provider (.installed selected) = some bytes ∧ Passed w bytes selected ∧
    Newly (bytes, snapshot) w₀.probed w.probed

/-- The transaction. -/
theorem Ready.activate {runtime : Runtime} {selected : Text} {snapshot : Snapshot}
    (h : Ready provider bundled w₀ w runtime selected snapshot) (profile : Profile) (new : Runtime)
    (hversion : new.version = selected) (hprevious : new.previousVersion = some runtime.version) :
    Safe provider bundled w₀
      { w with
        row := w.row.map fun _ => new
        history := (profile.id, snapshot) :: w.history
        activated := new.version :: w.activated
        unpublished := none } := by
  obtain ⟨bytes, hexe, hpassed, hprobed⟩ := h.verified
  have hold := (h.safe.sound runtime h.row).1
  have hnewly : Newly new.version w₀.activated (new.version :: w.activated) :=
    ⟨w₀.activated, List.suffix_refl _, by rw [h.activated]⟩
  constructor
  · intro current hcurrent
    have hcurrent : current = new := by
      rw [h.row] at hcurrent
      exact (Option.some.inj hcurrent).symm
    subst hcurrent
    constructor
    · rw [hversion]
      exact ⟨bytes, hexe, Or.inr hpassed⟩
    · intro version hv
      rw [hprevious] at hv
      cases hv
      exact hold
  · intro _
    rw [h.row]
    rfl
  · refine Or.inr (Or.inr ⟨runtime, new, profile.id, bytes, snapshot, h.row₀, ?_, hprevious,
    hnewly, ?_, hprobed, ?_⟩)
    · rw [h.row]
      rfl
    · rw [hversion]
      exact hexe
    · exact ⟨w.history, h.safe.history, List.suffix_refl _⟩
  · exact h.safe.probed
  · exact h.safe.history.trans (List.suffix_cons _ _)
  · exact h.safe.activated.trans (List.suffix_cons _ _)
  · intro version hnone
    rcases h.installs version hnone with hnone | rfl
    · exact Or.inr (Or.inl hnone)
    · rw [hversion] at hnewly
      exact Or.inr (Or.inr (Or.inl (by rw [hversion]; exact hnewly)))

/-- From the transaction on. -/
theorem activate_spec {runtime : Runtime} {selected : Text} {snapshot : Snapshot} (latest : Text)
    (rollback : Bool) (profile : Profile) (h : Ready provider bundled w₀ w runtime selected snapshot) :
    wpe (disk provider) (Watched provider bundled w₀)
      (do let now ← liftM (ask .now)
          let runtime := runtime.changed selected latest rollback now
          ExceptT.mk (ask (.activateRuntime runtime profile snapshot))
          retire runtime
          pure (.changed runtime.version runtime.verifiedAt runtime.previousVersion) : Io Outcome) w
      (fun _ w' => Safe provider bundled w₀ w') fun _ w' => Safe provider bundled w₀ w' := by
  refine wpe_bind.mpr (wpe_lift ⟨Quiet.watched trivial h.safe, fun now w₁ hn => ?_⟩)
  cases hn
  refine wpe_bind.mpr ⟨⟨h.safe, fun version h => nomatch h⟩, fun r w₂ hn => ?_⟩
  cases r with
  | error e =>
    cases hn
    exact h.safe
  | ok u =>
    cases hn
    have hsafe := h.activate profile (runtime.changed selected latest rollback now) rfl rfl
    refine wpe_bind.mpr (wpe_mono (retire_spec hsafe ?_) (fun _ _ h => h) fun _ _ h => h)
    show w.row.map _ = _
    rw [h.row]
    rfl

/-- A verified installation is renamed into its place. -/
theorem Ready.rename {runtime : Runtime} {selected stage : Text} {snapshot : Snapshot} {tree : Tree}
    {bytes : Bytes} (hsound : Sound provider w₀) (hsame : Same w₀ w) (hrow : w₀.row = some runtime)
    (hne : selected ≠ runtime.version) (hretained : runtime.previousVersion ≠ some selected)
    (hbytes : tree provider = some (.file bytes)) (hpassed : Passed w bytes selected)
    (hprobed : Newly (bytes, snapshot) w₀.probed w.probed) :
    Ready provider bundled w₀ { (w.withStage stage none).withInstall selected
      (some tree) with unpublished := some selected }
      runtime selected snapshot := by
  have hother : ∀ version, version ≠ selected →
      Function.update w.installs selected (some tree) version = w₀.installs version := by
    intro version hv
    rw [Function.update_of_ne hv, hsame.installs]
  have hsafe : Safe provider bundled w₀ w := (Safe.refl hsound).same hsame
  have hrow' : w.row = some runtime := hsame.row.trans hrow
  constructor
  · constructor
    · intro current hcurrent
      have hcurrent : current = runtime := Option.some.inj (hcurrent.symm.trans hrow')
      subst hcurrent
      obtain ⟨hversion, hprevious⟩ := hsound current hrow
      refine ⟨hversion.congr (hother _ hne.symm)
        (by rw [← hsame.seeded]; exact List.suffix_refl _) hsame.ran, ?_⟩
      intro version hv
      have hv' : version ≠ selected := fun e => hretained (e ▸ hv)
      exact (hprevious version hv).congr (hother _ hv')
        (by rw [← hsame.seeded]; exact List.suffix_refl _) hsame.ran
    · exact hsafe.row
    · refine Or.inr (Or.inl ?_)
      show w.pin = w₀.pin
      unfold World.pin
      rw [hsame.row]
    · exact hsame.probed
    · exact hsame.history
    · exact hsafe.activated
    · intro version hnone
      by_cases hv : version = selected
      · exact Or.inr (Or.inr (Or.inr (by rw [hv])))
      · exact Or.inr (Or.inl ((hother version hv).trans hnone))
  · exact hrow
  · exact hrow'
  · exact hsame.activated
  · intro version hnone
    by_cases hv : version = selected
    · exact Or.inr hv
    · exact Or.inl ((hother version hv).trans hnone)
  · refine ⟨bytes, ?_, hpassed, hprobed⟩
    unfold World.executable
    have hthere : World.tree { (w.withStage stage none).withInstall selected
        (some tree) with unpublished := some selected }
        (.installed selected) = some tree := Function.update_self _ _ _
    rw [hthere, Option.bind_some, hbytes]

theorem publish_spec {runtime : Runtime} {selected stage : Text} {rollback retained : Bool} {place : Place}
    {snapshot : Snapshot} {bytes : Bytes} (profile : Profile) (hsound : Sound provider w₀) (hsame : Same w₀ w)
    (hrow : w₀.row = some runtime) (hne : selected ≠ runtime.version)
    (hretained : retained = true ↔ runtime.previousVersion = some selected)
    (hplace : place = if retained = true then .installed selected else .staged stage)
    (hbytes : w.executable provider place = some bytes) (hpassed : Passed w bytes selected)
    (hprobed : Newly (bytes, snapshot) w₀.probed w.probed) :
    wpe (disk provider) (Watched provider bundled w₀)
      (publish runtime selected stage rollback retained profile snapshot) w
      (fun _ w' => Safe provider bundled w₀ w') fun _ w' => Safe provider bundled w₀ w' := by
  have hsafe : Safe provider bundled w₀ w := (Safe.refl hsound).same hsame
  unfold publish
  refine wpe_bind.mpr ?_
  cases newestVersion runtime selected with
  | error e => exact hsafe
  | ok latest =>
    show wpe _ _ (if retained = false then _ else _) _ _ _
    cases hcase : retained with
    | true =>
      rw [if_neg (by decide)]
      rw [hcase, if_pos rfl] at hplace
      subst hplace
      have hready : Ready provider bundled w₀ w runtime selected snapshot :=
        { safe := hsafe
          row₀ := hrow
          row := hsame.row.trans hrow
          activated := hsame.activated
          installs := fun version hnone => Or.inl (by rw [hsame.installs]; exact hnone)
          verified := ⟨bytes, hbytes, hpassed, hprobed⟩ }
      exact activate_spec latest rollback profile hready
    | false =>
      rw [if_pos rfl]
      rw [hcase, if_neg (by decide)] at hplace
      subst hplace
      rw [hcase] at hretained
      refine wpe_bind.mpr ⟨Quiet.watched trivial hsafe, fun r w₁ hn => ?_⟩
      have hw : w₁ = w := by cases r <;> exact hn
      subst hw
      cases r with
      | error e => exact hsafe
      | ok u =>
        refine wpe_bind.mpr (wpe_bind.mpr (wpe_lift ⟨⟨hsafe, fun version h => nomatch h⟩, fun r w₂ hn => ?_⟩))
        cases r with
        | error e =>
          cases hn
          exact hsafe
        | ok u =>
          obtain ⟨tree, htree, -, rfl⟩ := hn
          have hfile : tree provider = some (.file bytes) := by
            unfold World.executable at hbytes
            rw [show w₁.tree (.staged stage) = some tree from htree, Option.bind_some] at hbytes
            split at hbytes
            · next found hfound => rw [hfound, Option.some.inj hbytes]
            · cases hbytes
          exact activate_spec latest rollback profile (Ready.rename hsound hsame hrow hne
            (fun h => nomatch hretained.mpr h) hfile hpassed hprobed)

theorem admissible_ok {runtime : Runtime} {selected : Text} {rollback retained : Bool}
    (h : admissible runtime selected rollback = .ok retained) :
    selected ≠ runtime.version ∧ (retained = true ↔ runtime.previousVersion = some selected) := by
  unfold admissible at h
  obtain ⟨hne, h⟩ := Except.guard_ok h
  dsimp only at h
  obtain ⟨-, h⟩ := Except.guard_ok h
  obtain ⟨wanted, -, h⟩ := Except.bind_ok h
  obtain ⟨pinned, -, h⟩ := Except.bind_ok h
  obtain ⟨-, h⟩ := Except.guard_ok h
  obtain ⟨-, h⟩ := Except.guard_ok h
  cases h
  exact ⟨hne, by simp⟩

theorem changeRuntime_spec {runtime : Runtime} (selected stage : Text) (rollback : Bool)
    (hsound : Sound provider w₀) (hsame : Same w₀ w) (hrow : w₀.row = some runtime) :
    wpe (disk provider) (Watched provider bundled w₀)
      (changeRuntime provider runtime selected stage rollback) w
      (fun _ w' => Safe provider bundled w₀ w') fun _ w' => Safe provider bundled w₀ w' := by
  have hsafe : ∀ {w}, Same w₀ w → Safe provider bundled w₀ w := fun h => (Safe.refl hsound).same h
  unfold changeRuntime
  refine wpe_bind.mpr ?_
  cases hadmissible : admissible runtime selected rollback with
  | error e => exact hsafe hsame
  | ok retained =>
    obtain ⟨hne, hretained⟩ := admissible_ok hadmissible
    show wpe _ _ (verificationProfile provider >>= _) _ _ _
    refine quiet_bind (asks_verificationProfile provider) (hsafe hsame) (fun profile w₁ h₁ => ?_)
      fun _ _ h => hsafe (hsame.trans h)
    have h₁ := hsame.trans h₁
    -- the executable is verified where it is
    have hbinary : wpe (disk provider) (Watched provider bundled w₀)
        (selectedBinary provider selected stage retained) w₁
        (fun place w' => Same w₁ w' ∧ place = (if retained = true then .installed selected
        else .staged stage) ∧
          Verified provider w' place selected)
        fun _ w' => Same w₁ w' := by
      unfold selectedBinary
      split
      · next hcase =>
        refine retainedBinary_spec selected (hsafe h₁) ?_
        obtain ⟨bytes, hexe, -⟩ := (hsound runtime hrow).2 selected (hretained.mp hcase)
        rw [h₁.installs]
        by_contra hnone
        rw [Option.not_isSome_iff_eq_none] at hnone
        unfold World.executable at hexe
        rw [show w₀.tree (.installed selected) = none from hnone] at hexe
        cases hexe
      · refine wpe_mono (stagedBinary_spec selected stage hsound h₁) ?_ fun _ _ h => h
        rintro place w' ⟨hs, hplace, hverified, -⟩
        exact ⟨hs, hplace, hverified⟩
    refine wpe_bind.mpr (wpe_mono hbinary ?_ fun _ _ h => hsafe (h₁.trans h))
    rintro place w₂ ⟨h₂, hplace, bytes, hbytes, hpassed⟩
    have h₂ := h₁.trans h₂
    refine wpe_bind.mpr ⟨Quiet.watched trivial (hsafe h₂), fun r w₃ hn => ?_⟩
    cases r with
    | error e =>
      cases hn
      exact hsafe h₂
    | ok snapshot =>
      obtain ⟨probed, hprobed, rfl⟩ := hn
      rw [hbytes] at hprobed
      cases hprobed
      have h₃ : Same w₀ { w₂ with probed := (bytes, snapshot) :: w₂.probed } := h₂.trans (same_probed _ _)
      refine wpe_bind.mpr (wpe_lift ⟨Quiet.watched trivial (hsafe h₃), fun (cancelled : Bool) w₄ hn => ?_⟩)
      cases hn
      show wpe _ _ (if cancelled = true then _ else _) _ _ _
      split
      · exact hsafe h₃
      · have hbytes' : World.executable provider { w₂ with probed := (bytes, snapshot) :: w₂.probed } place =
          some bytes := by
          cases place <;> exact hbytes
        refine publish_spec profile hsound h₃ hrow hne hretained hplace hbytes' hpassed ?_
        exact ⟨w₂.probed, h₂.probed, List.suffix_refl _⟩

/-! ## Whole operations -/

/-- The row is written again with the same versions. -/
theorem Safe.save {runtime new : Runtime} (h : Safe provider bundled w₀ w) (hrow : w.row = some runtime)
    (hversion : new.version = runtime.version) (hprevious : new.previousVersion = runtime.previousVersion) :
    Safe provider bundled w₀ { w with row := some new } where
  sound := by
    intro current hcurrent
    cases hcurrent
    rw [hversion, hprevious]
    exact h.sound runtime hrow
  row _ := rfl
  pin := by
    refine h.pin.imp id (Or.imp ?_ ?_)
    · intro hpin
      rw [← hpin]
      show some (new.version, new.previousVersion) = w.pin
      unfold World.pin
      rw [hrow, hversion, hprevious]
      rfl
    · rintro ⟨old, current, profile, bytes, snapshot, hold, hcurrent, hprev, hact, hexe, hprobed, hhistory⟩
      rw [hrow] at hcurrent
      cases hcurrent
      rw [← hversion] at hact hexe
      exact ⟨old, new, profile, bytes, snapshot, hold, rfl, hprevious.trans hprev, hact,
        hexe, hprobed, hhistory⟩
  probed := h.probed
  history := h.history
  activated := h.activated
  installs := h.installs

theorem saveRuntime_spec {runtime new : Runtime} (h : Safe provider bundled w₀ w)
    (hrow : w.row = some runtime) (hversion : new.version = runtime.version)
    (hprevious : new.previousVersion = runtime.previousVersion) :
    wpe (disk provider) (Watched provider bundled w₀) (ExceptT.mk (ask (.saveRuntime new)) : Io Unit) w
      (fun _ w' => Safe provider bundled w₀ w') fun _ w' => Safe provider bundled w₀ w' := by
  refine ⟨⟨h, fun version h => nomatch h⟩, fun r w₁ hn => ?_⟩
  cases r with
  | error e =>
    cases hn
    exact h
  | ok u =>
    cases hn
    exact h.save hrow hversion hprevious

/-- The row is read. -/
theorem runtime_spec (h : Safe provider bundled w₀ w) :
    wpe (disk provider) (Watched provider bundled w₀) (ExceptT.mk (ask .runtime) : Io (Option Runtime)) w
      (fun row w' => row = w.row ∧ w' = w) fun _ w' => w' = w := by
  refine ⟨Quiet.watched trivial h, fun r w₁ hn => ?_⟩
  cases r with
  | error e => exact hn
  | ok row => exact hn

theorem checkRuntime_spec {runtime : Runtime} (hsafe : Safe provider bundled w₀ w)
    (hrow : w.row = some runtime) :
    wpe (disk provider) (Watched provider bundled w₀) (checkRuntime provider runtime) w
      (fun _ w' => Safe provider bundled w₀ w')
      fun _ w' => Safe provider bundled w₀ w' := by
  unfold checkRuntime
  refine quiet_bind (asks_call trivial) hsafe (fun data w₁ h₁ => ?_) fun _ _ h => hsafe.same h
  refine quiet_bind trivial (hsafe.same h₁) (fun latest w₂ h₂ => ?_) fun _ _ h => hsafe.same (h₁.trans h)
  have h₂ := h₁.trans h₂
  refine quiet_bind (asks_lift (asks_call trivial)) (hsafe.same h₂) (fun now w₃ h₃ => ?_)
    fun _ _ h => hsafe.same (h₂.trans h)
  have h₃ := h₂.trans h₃
  refine wpe_bind.mpr (wpe_mono (saveRuntime_spec (hsafe.same h₃) (h₃.row.trans hrow) rfl rfl) ?_ fun _ _ h =>
    h)
  exact fun _ _ h => h

theorem exclusivePart_spec (action : RuntimeAction) (stage : Text)
    (hsound : Sound provider w₀) (hsame : Same w₀ w) :
    wpe (disk provider) (Watched provider bundled w₀) (exclusivePart provider action stage) w
      (fun _ w' => Safe provider bundled w₀ w') fun _ w' => Safe provider bundled w₀ w' := by
  have hsafe : ∀ {w}, Same w₀ w → Safe provider bundled w₀ w := fun h => (Safe.refl hsound).same h
  unfold exclusivePart
  refine quiet_bind (asks_call trivial) (hsafe hsame) (fun _ w₁ h₁ => ?_) fun _ _ h => hsafe (hsame.trans h)
  have h₁ := hsame.trans h₁
  refine quiet_bind (asks_call trivial) (hsafe h₁) (fun _ w₂ h₂ => ?_) fun _ _ h => hsafe (h₁.trans h)
  have h₂ := h₁.trans h₂
  refine wpe_bind.mpr (wpe_mono (runtime_spec (hsafe h₂)) ?_ ?_)
  · rintro row w₃ ⟨rfl, rfl⟩
    cases hrow : w₃.row with
    | none => exact hsafe h₂
    | some runtime =>
      dsimp only
      cases action.selected with
      | none => exact checkRuntime_spec (hsafe h₂) hrow
      | some selected => exact changeRuntime_spec selected stage _ hsound h₂ (h₂.row.symm.trans hrow)
  · rintro e w₃ rfl
    exact hsafe h₂

theorem noteFailure_spec (action : RuntimeAction) (e : Failure) (hsafe : Safe provider bundled w₀ w) :
    wpe (disk provider) (Watched provider bundled w₀) (noteFailure action e) w
      (fun _ w' => Safe provider bundled w₀ w')
      fun _ w' => Safe provider bundled w₀ w' := by
  unfold noteFailure
  split
  · refine wpe_bind.mpr (wpe_attempt (wpe_mono (runtime_spec hsafe) ?_ ?_))
    · rintro row w₁ ⟨rfl, rfl⟩
      cases hrow : w₁.row with
      | none => exact hsafe
      | some runtime =>
        refine wpe_bind.mpr (wpe_attempt (wpe_mono (saveRuntime_spec hsafe hrow rfl rfl) ?_ ?_))
        · exact fun _ _ h => h
        · exact fun _ _ h => h
    · rintro e w₁ rfl
      exact hsafe
  · exact hsafe

theorem noteResult_spec (action : RuntimeAction) (result : Except Failure Outcome)
    (hsafe : Safe provider bundled w₀ w) :
    wpe (disk provider) (Watched provider bundled w₀) (noteResult action result) w
      (fun _ w' => Safe provider bundled w₀ w')
      fun _ w' => Safe provider bundled w₀ w' := by
  cases result with
  | ok outcome => exact hsafe
  | error e => exact noteFailure_spec action e hsafe

theorem asks_removeStaging (stage : Text) : (removeStaging stage).run.Asks Quiet := by
  unfold removeStaging
  refine asks_bind (asks_lift (asks_call trivial)) fun there => ?_
  split
  · exact asks_bind (asks_lift (asks_call (by trivial))) fun _ => trivial
  · trivial

/-- What a runtime operation does at every moment of it. -/
theorem runtimeTask_spec (action : RuntimeAction) (operation : Operation) (hsound : Sound provider w₀)
    (hsame : Same w₀ w) :
    wpe (disk provider) (Watched provider bundled w₀) (runtimeTask provider action operation) w
      (fun _ w' => Safe provider bundled w₀ w') fun _ w' => Safe provider bundled w₀ w' := by
  have hsafe : ∀ {w}, Same w₀ w → Safe provider bundled w₀ w := fun h => (Safe.refl hsound).same h
  unfold runtimeTask
  refine quiet_bind (asks_lift (asks_call trivial)) (hsafe hsame) (fun stage w₁ h₁ => ?_)
    fun _ _ h => hsafe (hsame.trans h)
  have h₁ := hsame.trans h₁
  -- whatever the exclusive part returned
  have hrest : ∀ (result : Except Failure Outcome) w, Safe provider bundled w₀ w →
      wpe (disk provider) (Watched provider bundled w₀)
        (do removeStaging stage
            noteResult action result
            let now ← liftM (ask .now)
            let _ ← attempt (ExceptT.mk (ask (.saveOperation (finished action operation result now))))
            pure result : Io (Except Failure Outcome)) w
        (fun _ w' => Safe provider bundled w₀ w') fun _ w' => Safe provider bundled w₀ w' := by
    intro result w hw
    refine quiet_bind (asks_removeStaging stage) hw (fun _ w₂ h₂ => ?_) fun _ _ h => hw.same h
    refine wpe_bind.mpr (wpe_mono (noteResult_spec action result (hw.same h₂))
      (fun _ w₃ h₃ => ?_) fun _ _ h => h)
    refine quiet_bind (asks_lift (asks_call trivial)) h₃ (fun now w₄ h₄ => ?_) fun _ _ h => h₃.same h
    refine quiet_bind (asks_attempt (asks_call trivial)) (h₃.same h₄) (fun _ w₅ h₅ => ?_)
      fun _ _ h => h₃.same (h₄.trans h)
    exact h₃.same (h₄.trans h₅)
  refine wpe_bind.mpr (wpe_attempt (wpe_mono (exclusivePart_spec action stage hsound h₁) ?_ ?_))
  · exact fun outcome w h => hrest (.ok outcome) w h
  · exact fun e w h => hrest (.error e) w h

theorem runtimeOperation_spec (updates : Bool) (action : RuntimeAction) (hsound : Sound provider w) :
    wpe (disk provider) (Watched provider bundled w) (runtimeOperation provider updates action) w
      (fun _ w' => Safe provider bundled w w') fun _ w' => Safe provider bundled w w' := by
  have hsafe : ∀ {w'}, Same w w' → Safe provider bundled w w' := fun h => (Safe.refl hsound).same h
  have hrefl := Same.refl w
  unfold runtimeOperation
  dsimp only
  split
  · exact hsafe hrefl
  split
  · exact hsafe hrefl
  refine quiet_bind (asks_call trivial) (hsafe hrefl) (fun _ w₁ h₁ => ?_) fun _ _ h => hsafe h
  refine quiet_bind (asks_lift (asks_call trivial)) (hsafe h₁) (fun id w₂ h₂ => ?_) fun _ _ h =>
    hsafe (h₁.trans h)
  have h₂ := h₁.trans h₂
  refine quiet_bind (asks_call trivial) (hsafe h₂) (fun _ w₃ h₃ => ?_) fun _ _ h => hsafe (h₂.trans h)
  exact runtimeTask_spec action _ hsound (h₂.trans h₃)

theorem asks_binary : binary.run.Asks Quiet := by
  unfold binary
  refine asks_bind (asks_call trivial) fun row => ?_
  split
  · trivial
  · refine asks_bind (asks_lift (asks_call trivial)) fun regular => ?_
    split <;> trivial

theorem asks_probeTwice (profile : Profile) (place : Option Place) :
    (probeTwice profile place).run.Asks Quiet := by
  unfold probeTwice
  refine asks_bind (asks_attempt (asks_call trivial)) fun first => ?_
  split
  · trivial
  · split
    · exact asks_bind (asks_call trivial) fun _ => asks_call trivial
    · trivial

theorem recordSuccess_spec (p : Profile) (snapshot : Snapshot) (hsafe : Safe provider bundled w₀ w) :
    wpe (disk provider) (Watched provider bundled w₀) (recordSuccess p snapshot) w
      (fun _ w' => Safe provider bundled w₀ w')
      fun _ w' => Safe provider bundled w₀ w' := by
  unfold recordSuccess
  refine quiet_bind (asks_lift (asks_call trivial)) hsafe (fun now w₁ h₁ => ?_) fun _ _ h => hsafe.same h
  have h₁ := hsafe.same h₁
  refine quiet_bind (asks_call trivial) h₁ (fun _ w₂ h₂ => ?_) fun _ _ h => h₁.same h
  have h₂ := h₁.same h₂
  refine wpe_bind.mpr (wpe_mono (runtime_spec h₂) ?_ ?_)
  · rintro row w₃ ⟨rfl, rfl⟩
    cases hrow : w₃.row with
    | none => exact h₂
    | some runtime =>
      show wpe _ _ (liftM (ask .now) >>= _) _ _ _
      refine quiet_bind (asks_lift (asks_call trivial)) h₂ (fun now w₄ h₄ => ?_) fun _ _ h => h₂.same h
      refine wpe_bind.mpr (wpe_mono (saveRuntime_spec (h₂.same h₄)
        (h₄.row.trans hrow) rfl rfl) ?_ fun _ _ h => h)
      exact fun _ _ h => h
  · rintro e w₃ rfl
    exact h₂

theorem asks_recordFailure (p : Profile) (e : Failure) : (recordFailure p e).run.Asks Quiet := by
  unfold recordFailure
  exact asks_bind (asks_lift (asks_call trivial)) fun now => asks_bind (asks_call trivial) fun _ => trivial

theorem asks_pinnedBinary : pinnedBinary.run.Asks Quiet := by
  unfold pinnedBinary
  refine asks_bind (asks_call trivial) fun row => ?_
  split
  · trivial
  · exact asks_bind asks_binary fun _ => trivial

theorem probeOperation_spec (id : Text) (hsafe : Safe provider bundled w₀ w) :
    wpe (disk provider) (Watched provider bundled w₀) (probeOperation id) w
      (fun _ w' => Safe provider bundled w₀ w')
      fun _ w' => Safe provider bundled w₀ w' := by
  unfold probeOperation
  dsimp only
  refine quiet_bind (asks_call trivial) hsafe (fun _ w₁ h₁ => ?_) fun _ _ h => hsafe.same h
  have h₁ := hsafe.same h₁
  refine quiet_bind (asks_call trivial) h₁ (fun _ w₂ h₂ => ?_) fun _ _ h => h₁.same h
  have h₂ := h₁.same h₂
  refine quiet_bind (asks_call trivial) h₂ (fun _ w₃ h₃ => ?_) fun _ _ h => h₂.same h
  have h₃ := h₂.same h₃
  refine quiet_bind (asks_call trivial) h₃ (fun p w₄ h₄ => ?_) fun _ _ h => h₃.same h
  have h₄ := h₃.same h₄
  split
  · exact h₄
  split
  · exact h₄
  refine quiet_bind (asks_lift (asks_call trivial)) h₄ (fun now w₅ h₅ => ?_) fun _ _ h => h₄.same h
  have h₅ := h₄.same h₅
  refine quiet_bind (asks_call trivial) h₅ (fun _ w₆ h₆ => ?_) fun _ _ h => h₅.same h
  have h₆ := h₅.same h₆
  refine quiet_bind asks_pinnedBinary h₆ (fun place w₇ h₇ => ?_) fun _ _ h => h₆.same h
  have h₇ := h₆.same h₇
  refine quiet_bind (asks_attempt (asks_probeTwice _ place)) h₇
    (fun result w₈ h₈ => ?_) fun _ _ h => h₇.same h
  have h₈ := h₇.same h₈
  cases result with
  | ok snapshot => exact recordSuccess_spec _ snapshot h₈
  | error e =>
    exact wpe_mono (quiet_spec (asks_recordFailure _ e) h₈) (fun _ _ h => h₈.same h) fun _ _ h => h₈.same h

/-! ## Starting -/

/-- Without a pin nothing is asked of the installations. -/
theorem Safe.unpinned {w' : World} (hrow₀ : w₀.row = none) (hbundled : bundled.isSome) (hrow : w'.row = none)
    (h : Safe provider bundled w₀ w) (hprobed : w'.probed = w.probed) (hhistory : w'.history = w.history)
    (hactivated : w'.activated = w.activated) :
    Safe provider bundled w₀ w' where
  sound runtime hruntime := by
    rw [hrow] at hruntime
    cases hruntime
  row h := by
    rw [hrow₀] at h
    cases h
  pin := Or.inl hrow₀
  probed := by
    rw [hprobed]
    exact h.probed
  history := by
    rw [hhistory]
    exact h.history
  activated := by
    rw [hactivated]
    exact h.activated
  installs _ _ := Or.inl ⟨hrow₀, hbundled⟩

theorem seed_spec (hsame : Same w₀ w) (hsound : Sound provider w₀) :
    wpe (disk provider) (Watched provider bundled w₀) (seed bundled) w
      (fun _ w' => Safe provider bundled w₀ w')
      fun _ w' => Safe provider bundled w₀ w' := by
  have hsafe : Safe provider bundled w₀ w := (Safe.refl hsound).same hsame
  unfold seed
  refine wpe_bind.mpr (wpe_mono (runtime_spec hsafe) ?_ ?_)
  · rintro row w₁ ⟨rfl, rfl⟩
    cases hrow : w₁.row with
    | some runtime => exact hsafe
    | none =>
      cases bundled with
      | none => exact hsafe
      | some version =>
        have hrow₀ : w₀.row = none := hsame.row.symm.trans hrow
        refine wpe_bind.mpr ⟨⟨hsafe, fun version h => nomatch h⟩, fun r w₂ hn => ?_⟩
        cases r with
        | error e =>
          cases hn
          exact hsafe
        | ok u =>
          cases hn
          have h₂ : Safe provider (some version) w₀
              (w₁.withInstall version (some ((w₁.installs version).getD fun _ => none))) :=
            Safe.unpinned hrow₀ rfl hrow hsafe rfl rfl rfl
          refine wpe_bind.mpr (wpe_bind.mpr (wpe_lift ⟨⟨h₂, fun version h => nomatch h⟩, fun r w₃ hn => ?_⟩))
          cases r with
          | error e =>
            obtain rfl | ⟨tree, bytes, -, rfl⟩ := hn
            · exact h₂
            · exact Safe.unpinned hrow₀ rfl hrow hsafe rfl rfl rfl
          | ok u =>
            obtain ⟨tree, bytes, -, rfl⟩ := hn
            refine ⟨⟨Safe.unpinned hrow₀ rfl hrow hsafe rfl rfl rfl, fun version h => nomatch h⟩,
              fun r w₄ hn => ?_⟩
            cases r with
            | error e =>
              cases hn
              exact Safe.unpinned hrow₀ rfl hrow hsafe rfl rfl rfl
            | ok u =>
              cases hn
              constructor
              · -- the executable was copied before the row is written
                intro runtime hruntime
                cases hruntime
                refine ⟨⟨bytes, ?_, Or.inl List.mem_cons_self⟩, fun version hv => nomatch hv⟩
                unfold World.executable World.tree World.withInstall
                dsimp only
                rw [Function.update_self, Option.bind_some, Function.update_self]
              · exact fun _ => rfl
              · exact Or.inl hrow₀
              · exact hsafe.probed
              · exact hsafe.history
              · exact hsafe.activated
              · exact fun _ _ => Or.inl ⟨hrow₀, rfl⟩
  · rintro e w₁ rfl
    exact hsafe

theorem interruptOperation_spec (operation : Operation) (hsafe : Safe provider bundled w₀ w) :
    wpe (disk provider) (Watched provider bundled w₀) (interruptOperation operation) w
      (fun _ w' => Safe provider bundled w₀ w')
      fun _ w' => Safe provider bundled w₀ w' := by
  unfold interruptOperation
  refine quiet_bind (asks_lift (asks_call trivial)) hsafe (fun now w₁ h₁ => ?_) fun _ _ h => hsafe.same h
  have h₁ := hsafe.same h₁
  refine quiet_bind (asks_call trivial) h₁ (fun _ w₂ h₂ => ?_) fun _ _ h => h₁.same h
  have h₂ := h₁.same h₂
  split
  · refine wpe_bind.mpr (wpe_mono (runtime_spec h₂) ?_ ?_)
    · rintro row w₃ ⟨rfl, rfl⟩
      cases hrow : w₃.row with
      | none => exact h₂
      | some runtime => exact saveRuntime_spec h₂ hrow rfl rfl
    · rintro e w₃ rfl
      exact h₂
  · exact h₂

/-- A loop of safe steps. -/
theorem forM_spec {α : Type} {f : α → Io Unit}
    (hf : ∀ a w, Safe provider bundled w₀ w → wpe (disk provider) (Watched provider bundled w₀) (f a) w
      (fun _ w' => Safe provider bundled w₀ w') fun _ w' => Safe provider bundled w₀ w') (l :
        List α) (hsafe : Safe provider bundled w₀ w) :
    wpe (disk provider) (Watched provider bundled w₀) (l.forM f) w (fun _ w' => Safe provider bundled w₀ w')
      fun _ w' => Safe provider bundled w₀ w' := by
  induction l generalizing w with
  | nil => exact hsafe
  | cons a l ih => exact wpe_bind.mpr (wpe_mono (hf a w hsafe) (fun _ _ h => ih h) fun _ _ h => h)

theorem openContext_spec (hsound : Sound provider w) :
    wpe (disk provider) (Watched provider bundled w) (openContext bundled) w
      (fun _ w' => Safe provider bundled w w')
      fun _ w' => Safe provider bundled w w' := by
  have hsafe : ∀ {w'}, Same w w' → Safe provider bundled w w' := fun h => (Safe.refl hsound).same h
  unfold openContext
  refine quiet_bind (asks_call trivial) (hsafe (Same.refl w)) (fun stages w₁ h₁ => ?_) fun _ _ h => hsafe h
  refine quiet_bind (asks_forM (fun id => asks_done (asks_call (by trivial)) _) stages)
    (hsafe h₁) (fun _ w₂ h₂ => ?_)
    fun _ _ h => hsafe (h₁.trans h)
  have h₂ := h₁.trans h₂
  refine wpe_bind.mpr (wpe_mono (seed_spec h₂ hsound) (fun _ w₃ h₃ => ?_) fun _ _ h => h)
  have hcheck : (checkSeeded bundled).run.Asks Quiet := by
    unfold checkSeeded
    split
    · exact asks_bind asks_binary fun _ => trivial
    · trivial
  refine quiet_bind hcheck h₃ (fun _ w₄ h₄ => ?_) fun _ _ h => h₃.same h
  have h₄ := h₃.same h₄
  unfold interruptOperations
  refine quiet_bind (asks_call trivial) h₄ (fun rows w₅ h₅ => ?_) fun _ _ h => h₄.same h
  exact forM_spec (fun operation w h => interruptOperation_spec operation h) rows (h₄.same h₅)

end Specs

end HomeStack.AgentRuntime

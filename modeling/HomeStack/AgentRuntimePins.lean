import HomeStack.AgentRuntimeRuns

/-! The service over time: what holds of the pins in every state reached, and when
an upgrade that was not activated can be repeated. -/

namespace HomeStack.AgentRuntime

open Prog hiding pure bind
open Relation (ReflTransGen)

section Runs

variable (provider : Text) (updates : Bool) (bundled : Option Text)

/-- The service is up or down, and the world it left. Any operation may stop
anywhere, which is a crash; after it the service starts again. -/
inductive Step : Bool × World → Bool × World → Prop
  | runtime (action : RuntimeAction) {w w' : World} {o : Option (Except Failure (Except Failure Outcome))} :
      Exec (disk provider) (runtimeOperation provider updates action).run w o w' →
        Step (true, w) (o.isSome, w')
  | probe (id : Text) {w w' : World} {o : Option (Except Failure Snapshot)} :
      Exec (disk provider) (probeOperation id).run w o w' → Step (true, w) (o.isSome, w')
  | crash (w : World) : Step (true, w) (false, w)
  | started {w w' : World} :
      Exec (disk provider) (openContext bundled).run w (some (.ok ())) w' → Step (false, w) (true, w')
  | notStarted {w w' : World} {o : Option (Except Failure Unit)} :
      Exec (disk provider) (openContext bundled).run w o w' → Step (false, w) (false, w')

/-- Some run of an upgrade finds the directory of the version there. -/
def Refused (w : World) (version : Text) : Prop :=
  ∃ o w' log, Exec (logged (disk provider)) (runtimeOperation provider updates (.upgrade version)).run (w,
    []) o (w', log) ∧
    ∃ at_, (at_, Call.exists version) ∈ log ∧ at_.installs version ≠ none

/-- After an upgrade from `s` that ended without activation, a later upgrade to the
same version is not refused for a directory that was not there before the first.
`R` is what every step of the run leaves. -/
def Repeats (R : World → Prop) (s : Bool × World) : Prop :=
  ∀ version o w, s.1 = true →
    Exec (disk provider) (runtimeOperation provider updates (.upgrade version)).run s.2 o w →
    w.activated = s.2.activated → R w →
    ∀ t, ReflTransGen (fun a b => Step provider updates bundled a b ∧ R b.2) (o.isSome, w) t →
      ¬Newly version s.2.activated t.2.activated → s.2.installs version = none →
      ¬Refused provider updates t.2 version

end Runs

variable {provider : Text} {updates : Bool} {bundled : Option Text}

/-- A run that ended or stopped was safe at its end. -/
theorem exec_safe {α : Type} {p : Io α} {w w' : World} {o : Option (Except Failure α)}
    (hp : wpe (disk provider) (Watched provider bundled w) p w (fun _ w' => Safe provider bundled w w')
      fun _ w' => Safe provider bundled w w')
    (hr : Exec (disk provider) p.run w o w') : Safe provider bundled w w' := by
  cases o with
  | some result =>
    have hpost := wp_done hp hr
    cases result with
    | ok a => exact hpost
    | error e => exact hpost
  | none =>
    rcases wp_stop hp hr with ⟨q, hq⟩ | ⟨result, hpost⟩
    · exact hq.1
    · cases result with
      | ok a => exact hpost
      | error e => exact hpost

theorem Step.safe {s t : Bool × World} (h : Step provider updates bundled s t) (hsound : Sound provider s.2) :
    Safe provider bundled s.2 t.2 := by
  cases h with
  | runtime action hr => exact exec_safe (runtimeOperation_spec updates action hsound) hr
  | probe id hr => exact exec_safe (probeOperation_spec id (Safe.refl hsound)) hr
  | crash w => exact Safe.refl hsound
  | started hr => exact exec_safe (openContext_spec hsound) hr
  | notStarted hr => exact exec_safe (openContext_spec hsound) hr

theorem sound_of_run {s t : Bool × World} (h : ReflTransGen (Step provider updates bundled) s t)
    (hsound : Sound provider s.2) : Sound provider t.2 := by
  induction h with
  | refl => exact hsound
  | tail _ hstep ih => exact (hstep.safe ih).sound

/-! ## A started service has a pin -/

/-- Calls that keep a pin. -/
def KeepsRow : Call → Prop
  | .saveRuntime _ => True
  | q => Quiet q

theorem KeepsRow.row {w w' : World} {q : Call} {r : q.Answer} (hq : KeepsRow q) (hrow : w.row.isSome)
    (h : (disk provider).next w q r w') : w'.row.isSome := by
  by_cases hquiet : Quiet q
  · rw [(hquiet.same h).row]
    exact hrow
  · cases q with
    | saveRuntime runtime =>
      cases r with
      | ok u => cases h; rfl
      | error e => cases h; exact hrow
    | _ => exact absurd hq hquiet

theorem keepsRow_of_quiet {q : Call} (h : Quiet q) : KeepsRow q := by
  cases q <;> first | exact trivial | exact h

theorem asks_interruptOperation (operation : Operation) :
    (interruptOperation operation).run.Asks KeepsRow := by
  unfold interruptOperation
  refine asks_bind (asks_lift ⟨trivial, fun _ => trivial⟩) fun now =>
    asks_bind ⟨trivial, fun _ => trivial⟩ fun _ => ?_
  split
  · refine asks_bind ⟨trivial, fun _ => trivial⟩ fun row => ?_
    split
    · trivial
    · exact ⟨trivial, fun _ => trivial⟩
  · trivial

abbrev freely : World → Call → Prop := fun _ _ => True

theorem seed_row {w : World} : wpe (disk provider) freely (seed bundled) w
    (fun _ w' => bundled.isSome → w'.row.isSome) fun _ _ => True := by
  unfold seed
  refine wpe_bind.mpr ⟨trivial, fun r w₁ hn => ?_⟩
  cases r with
  | error e => trivial
  | ok row =>
    obtain ⟨rfl, rfl⟩ := hn
    cases hrow : w₁.row with
    | some runtime =>
      intro _
      rw [hrow]
      rfl
    | none =>
      cases bundled with
      | none => exact fun h => nomatch h
      | some version =>
        refine wpe_bind.mpr ⟨trivial, fun r w₂ _ => ?_⟩
        cases r with
        | error e => trivial
        | ok u =>
          refine wpe_bind.mpr (wpe_bind.mpr (wpe_lift ⟨trivial, fun r w₃ _ => ?_⟩))
          cases r with
          | error e => trivial
          | ok u =>
            refine ⟨trivial, fun r w₄ hn => ?_⟩
            cases r with
            | error e => trivial
            | ok u =>
              cases hn
              exact fun _ => rfl

/-- What follows the seeding keeps the pin. -/
theorem asks_afterSeed : (do
    checkSeeded bundled
    interruptOperations : Io Unit).run.Asks KeepsRow := by
  have hcheck : (checkSeeded bundled).run.Asks KeepsRow := by
    unfold checkSeeded
    split
    · exact asks_bind (asks_binary.mono fun _ => keepsRow_of_quiet) fun _ => trivial
    · trivial
  refine asks_bind hcheck fun _ => ?_
  unfold interruptOperations
  exact asks_bind ⟨trivial, fun _ => trivial⟩ fun rows => asks_forM asks_interruptOperation rows

theorem openContext_row {w w' : World}
    (hr : Exec (disk provider) (openContext bundled).run w (some (.ok ())) w') (hbundled : bundled.isSome) :
    w'.row.isSome := by
  have hspec : wpe (disk provider) freely (openContext bundled) w
      (fun _ w' => w'.row.isSome) fun _ _ => True := by
    unfold openContext
    have hany : ∀ {α : Type} (p : Io α) w, wpe (disk provider) freely p w (fun _ _ => True) fun _ _ => True :=
      fun p w => wpe_inv (J := fun _ => True) p.run.asks_true trivial
        (fun _ _ _ _ _ _ _ => trivial) fun _ _ _ _ => trivial
    refine wpe_bind.mpr (wpe_mono (hany _ w) (fun stages w₁ _ => ?_) fun _ _ h => h)
    refine wpe_bind.mpr (wpe_mono (hany _ w₁) (fun _ w₂ _ => ?_) fun _ _ h => h)
    refine wpe_bind.mpr (wpe_mono seed_row (fun _ w₃ h₃ => ?_) fun _ _ h => h)
    refine wpe_mono (wpe_inv (J := fun w => w.row.isSome) asks_afterSeed (h₃ hbundled) ?_ ?_) (fun _ _ h => h)
      fun _ _ _ => trivial
    · exact fun w q r w' hq hrow hn => hq.row hrow hn
    · exact fun _ _ _ _ => trivial
  have hpost := wp_done hspec hr
  exact hpost

/-- A service that is up has a pin, if a runtime is bundled. -/
theorem row_of_up {s t : Bool × World} (h : ReflTransGen (Step provider updates bundled) s t)
    (hsound : Sound provider s.2) (hdown : s.1 = false) (hup : t.1 = true) (hbundled : bundled.isSome) :
    t.2.row.isSome := by
  induction h with
  | refl =>
    rw [hdown] at hup
    cases hup
  | tail hrun hstep ih =>
    have hsafe := hstep.safe (sound_of_run hrun hsound)
    cases hstep with
    | runtime action hr => exact hsafe.row (ih rfl)
    | probe id hr => exact hsafe.row (ih rfl)
    | crash w => cases hup
    | started hr => exact openContext_row hr hbundled
    | notStarted hr => cases hup

/-! ## Repeating an upgrade -/

/-- Every installation renamed into place was published. -/
abbrev PublishedStep (provider : Text) (updates : Bool) (bundled : Option Text) (s t : Bool × World) : Prop :=
  Step provider updates bundled s t ∧ t.2.unpublished = none

theorem PublishedStep.run {s t : Bool × World}
    (h : ReflTransGen (PublishedStep provider updates bundled) s t) :
    ReflTransGen (Step provider updates bundled) s t :=
  h.lift id fun _ _ h => h.1

/-- In a run that publishes what it renames, a version without a directory has
none until it is activated. -/
theorem installs_none {s t : Bool × World} (h : ReflTransGen (PublishedStep provider updates bundled) s t)
    (hsound : Sound provider s.2) (hrow : s.2.row = none → bundled = none) {version : Text}
    (hnone : s.2.installs version = none) :
    s.2.activated <:+ t.2.activated ∧ (t.2.row = none → bundled = none) ∧
      (t.2.installs version = none ∨ Newly version s.2.activated t.2.activated) := by
  induction h with
  | refl => exact ⟨List.suffix_refl _, hrow, Or.inl hnone⟩
  | @tail t u hrun hstep ih =>
    obtain ⟨hsuffix, hrow', hinstalls⟩ := ih
    have hsafe := hstep.1.safe (sound_of_run (PublishedStep.run hrun) hsound)
    refine ⟨hsuffix.trans hsafe.activated, ?_, ?_⟩
    · intro hu
      by_contra hbundled
      have ht : t.2.row ≠ none := fun ht => hbundled (hrow' ht)
      have hsome := hsafe.row (Option.isSome_iff_ne_none.mpr ht)
      rw [hu] at hsome
      cases hsome
    · rcases hinstalls with hinstalls | hnewly
      · rcases hsafe.installs version hinstalls with ⟨ht, hb⟩ | hnow | hnewly | hunpublished
        · rw [hrow' ht] at hb
          cases hb
        · exact Or.inl hnow
        · obtain ⟨old, hold, hx⟩ := hnewly
          exact Or.inr ⟨old, hsuffix.trans hold, hx⟩
        · rw [hstep.2] at hunpublished
          cases hunpublished
      · exact Or.inr (hnewly.mono hsafe.activated)

/-- A version without a directory is not refused. -/
theorem not_refused {w : World} {version : Text} (hsound : Sound provider w)
    (hnone : w.installs version = none) :
    ¬Refused provider updates w version := by
  rintro ⟨o, w', log, hr, at_, hmem, hthere⟩
  have hspec : wpe (disk provider) (Watched provider none w) _ w _ _ :=
    runtimeOperation_spec updates (.upgrade version) hsound
  obtain ⟨-, hlog⟩ := wp_logged hspec hr
  rcases hlog (at_, Call.exists version) hmem with hnil | ⟨-, hwatched⟩
  · cases hnil
  · rw [hwatched version rfl] at hthere
    exact hthere hnone

/-- **Pins are runnable, and upgrades can be repeated unless one was left
unpublished.** In every state a service reaches from a storage without a pin: the
pinned and the retained executable are installed, and each was seeded or verified;
an operation changes the pin only together with a probe by the new executable; and
while no step stops or fails between the rename of an installation and its
transaction, an upgrade that ended without activation can be repeated. -/
theorem pins_runnable {w₀ : World} (hfresh : w₀.row = none) {s : Bool × World}
    (hrun : ReflTransGen (Step provider updates bundled) (false, w₀) s) :
    Sound provider s.2 ∧
      (∀ t, Step provider updates bundled s t →
        s.2.row = none ∨ t.2.pin = s.2.pin ∨ Changed provider s.2 t.2) ∧
      Repeats provider updates bundled (fun w => w.unpublished = none) s := by
  have hsound₀ : Sound provider w₀ := by
    intro runtime hrow
    rw [hfresh] at hrow
    cases hrow
  have hsound := sound_of_run hrun hsound₀
  refine ⟨hsound, fun t ht => (ht.safe hsound).pin, ?_⟩
  intro version o w hup hr _ hunpublished t ht hnewly hnone
  obtain ⟨up, w₁⟩ := s
  cases hup
  have hrow : w₁.row = none → bundled = none := by
    intro hrow
    by_contra hbundled
    have hsome := row_of_up hrun hsound₀ rfl rfl (Option.isSome_iff_ne_none.mpr hbundled)
    rw [hrow] at hsome
    cases hsome
  -- the attempt is the first step of the run
  have hall : ReflTransGen (PublishedStep provider updates bundled) (true, w₁) t :=
    ReflTransGen.head ⟨Step.runtime (.upgrade version) hr, hunpublished⟩ ht
  obtain ⟨-, -, hinstalls⟩ := installs_none hall hsound hrow hnone
  rcases hinstalls with hinstalls | hnow
  · exact not_refused (sound_of_run (PublishedStep.run hall) hsound) hinstalls
  · exact absurd hnow hnewly

/-! ## An upgrade that cannot be repeated -/

def sampleSnapshot : Snapshot := ⟨0, ⟨none, none, none⟩⟩

def sampleProfile : Profile :=
  ⟨"p", "claude", true, false, "authenticated", none, none, none, none, 0, 0, none, 0⟩

/-- The metadata of a release. -/
def sampleRelease : Json :=
  .obj [("platforms", .obj [("linux-x64-musl", .obj [("checksum", .str (List.replicate 64 '0'))])]),
    ("version", .str "2.1.319")]

/-- A disk, database and network on which everything succeeds, apart from the
transaction that publishes a runtime when `commits` is false. -/
def healthy (commits : Bool) (w : World) : (q : Call) → q.Answer × World
  | .await => (.ok (), w)
  | .now => ((0 : Int), w)
  | .newUuid => (("u" : Text), w)
  | .cancelled => (false, w)
  | .enqueue => (.ok (), w)
  | .runtime => (.ok w.row, w)
  | .saveRuntime runtime => (.ok (), { w with row := some runtime })
  | .activateRuntime runtime profile snapshot =>
    if commits then
      (.ok (),
        { w with
          row := w.row.map fun _ => runtime
          history := (profile.id, snapshot) :: w.history
          activated := runtime.version :: w.activated
          unpublished := none })
    else (.error ⟨"database_failure", "Local database operation failed"⟩, w)
  | .profiles => (.ok [sampleProfile], w)
  | .profile _ => (.ok sampleProfile, w)
  | .saveProfile profile snapshot =>
    (.ok (), { w with history := (snapshot.map fun s => (profile.id, s)).toList ++ w.history })
  | .saveOperation _ => (.ok (), w)
  | .unfinished => (.ok [], w)
  | .metadata _ => (.ok sampleRelease, w)
  | .directory (.install version) => (.ok (),
      w.withInstall version (some ((w.installs version).getD fun _ => none)))
  | .directory (.stage id) => (.ok (), w.withStage id (some ((w.stages id).getD fun _ => none)))
  | .directory .parent => (.ok (), w)
  | .directory (.check _) => (.ok (), w)
  | .exists version => ((w.installs version).isSome, w)
  | .download _ id file =>
    match w.stages id with
    | some tree => (.ok (), w.withStage id (some (Function.update tree file (some (.file [1])))))
    | none => (.error (failure "Cannot create runtime staging file"), w)
  | .extract _ _ _ => (.ok true, w)
  | .renameIn _ _ _ => (.error (), w)
  | .removeIn _ _ => (.error (), w)
  | .isRegular place => ((w.executable "claude" place).isSome, w)
  | .setMode _ => (.ok (), w)
  | .runVersion place =>
    match w.executable "claude" place with
    | some bytes =>
      let output := Text.utf8 "2.1.319 (Claude Code)"
      (.ok (⟨true, "exit status: 0"⟩, output), { w with ran := (bytes, output) :: w.ran })
    | none => (.error (failure "Runtime version check failed"), w)
  | .probe _ none => (.ok sampleSnapshot, w)
  | .probe _ (some place) =>
    match w.executable "claude" place with
    | some bytes => (.ok sampleSnapshot, { w with probed := (bytes, sampleSnapshot) :: w.probed })
    | none => (.error Failure.unsupported, w)
  | .renameStage id version =>
    match w.stages id, w.installs version with
    | some tree, none =>
      (.ok (), { (w.withStage id none).withInstall version (some tree) with unpublished := some version })
    | _, _ => (.error (), w)
  | .installs => ([], w)
  | .removeInstall _ => (.error (), w)
  | .stageExists id => ((w.stages id).isSome, w)
  | .removeStage id => (.ok (), w.withStage id none)
  | .stages => (.ok [], w)
  | .copyBundled version =>
    match w.installs version with
    | some tree =>
      (.ok (), { w.withInstall version (some (Function.update tree "claude" (some (.file [0])))) with
        seeded := [0] :: w.seeded })
    | none => (.error (), w)

theorem healthy_next (commits : Bool) (w : World) (q : Call) :
    (disk "claude").next w q (healthy commits w q).1 (healthy commits w q).2 := by
  cases q with
  | activateRuntime runtime profile snapshot => cases commits <;> exact rfl
  | directory folder => cases folder <;> exact rfl
  | probe profile place =>
    cases place with
    | none => exact rfl
    | some place =>
      unfold healthy
      dsimp only
      cases h : w.executable "claude" place with
      | none => exact rfl
      | some bytes => exact ⟨bytes, h, rfl⟩
  | download url id file =>
    unfold healthy
    dsimp only
    cases h : w.stages id with
    | none => exact Or.inl rfl
    | some tree => exact ⟨tree, [1], h, rfl⟩
  | extract id archive member => exact Or.inl rfl
  | runVersion place =>
    unfold healthy
    dsimp only
    cases h : w.executable "claude" place with
    | none => exact rfl
    | some bytes => exact Or.inr ⟨bytes, h, rfl⟩
  | renameStage id version =>
    unfold healthy
    dsimp only
    cases h : w.stages id with
    | none => exact rfl
    | some tree =>
      cases h' : w.installs version with
      | some there => exact rfl
      | none =>
        refine ⟨tree, h, ?_, rfl⟩
        intro there hthere
        rw [h'] at hthere
        cases hthere
  | copyBundled version =>
    unfold healthy
    dsimp only
    cases h : w.installs version with
    | none => exact Or.inl rfl
    | some tree => exact ⟨tree, [0], h, rfl⟩
  | removeInstall version => exact Or.inl rfl
  | runtime => exact ⟨rfl, rfl⟩
  | «exists» version => exact ⟨rfl, rfl⟩
  | isRegular place => exact ⟨rfl, rfl⟩
  | stageExists id => exact ⟨rfl, rfl⟩
  | _ => exact rfl

/-- The persistent storage before the first start. -/
def freshWorld : World := ⟨fun _ => none, fun _ => none, none, [], [], [], [], [], none⟩

/-- After the first start. -/
def seededWorld : World := (play (healthy true) (openContext (some "2.1.318")).run freshWorld).2

theorem seeded_run (updates : Bool) :
    ReflTransGen (Step "claude" updates (some "2.1.318")) (false, freshWorld) (true, seededWorld) := by
  have hr := exec_play (healthy_next true) (openContext (some "2.1.318")).run freshWorld
  have hok : (play (healthy true) (openContext (some "2.1.318")).run freshWorld).1 = .ok () :=
    Except.ok_of_toOption (by decide)
  rw [hok] at hr
  exact ReflTransGen.single (Step.started hr)

/-- The upgrade to 2.1.319. -/
abbrev sampleUpgrade : Io (Except Failure Outcome) := runtimeOperation "claude" true (.upgrade "2.1.319")

/-- After an upgrade whose transaction failed. -/
def unpublishedWorld : World := (play (healthy false) sampleUpgrade.run seededWorld).2

/-- The questions of a run with the worlds they were asked in. -/
def healthyLogged (s : World × List (World × Call)) (q : Call) : q.Answer × (World × List (World × Call)) :=
  ((healthy true s.1 q).1, ((healthy true s.1 q).2, (s.1, q) :: s.2))

/-- What the failed upgrade returned. -/
def unpublishedResult : Except Failure (Except Failure Outcome) :=
  (play (healthy false) sampleUpgrade.run seededWorld).1

theorem unpublished_run :
    Exec (disk "claude") sampleUpgrade.run seededWorld (some unpublishedResult) unpublishedWorld :=
  exec_play (healthy_next false) sampleUpgrade.run seededWorld

/-- Also on a disk without failures. -/
theorem unpublished_refused : Refused "claude" true unpublishedWorld "2.1.319" := by
  have hrun := exec_play (E := logged (disk "claude")) (g := healthyLogged)
    (fun s q => ⟨healthy_next true s.1 q, rfl⟩) sampleUpgrade.run (unpublishedWorld, [])
  have hany : ((play healthyLogged sampleUpgrade.run (unpublishedWorld, [])).2.2.any fun e =>
      e.2 = Call.exists "2.1.319" && (e.1.installs "2.1.319").isSome) = true := by decide
  obtain ⟨⟨at_, q⟩, hmem, hq⟩ := List.any_eq_true.mp hany
  rw [Bool.and_eq_true, decide_eq_true_eq] at hq
  obtain ⟨rfl, hthere⟩ := hq
  exact ⟨_, _, _, hrun, at_, hmem, Option.isSome_iff_ne_none.mp hthere⟩

/-- One upgrade that is refused after it was not activated. -/
theorem not_repeats {w w' : World} {version : Text} {r : Except Failure (Except Failure Outcome)}
    (hr : Exec (disk provider) (runtimeOperation provider updates (.upgrade version)).run w (some r) w')
    (hactivated : w'.activated = w.activated) (hnone : w.installs version = none)
    (hrefused : Refused provider updates w' version) :
    ¬Repeats provider updates bundled (fun _ => True) (true, w) := by
  intro h
  refine h version (some r) w' rfl hr hactivated trivial (true, w') ReflTransGen.refl ?_ hnone hrefused
  rintro ⟨old, hold, hx⟩
  have hx : (version :: old).length ≤ w'.activated.length := hx.length_le
  have hold : w.activated.length ≤ old.length := hold.length_le
  rw [hactivated, List.length_cons] at hx
  omega

/-- The database fails while the verified installation is published: the upgrade
is not activated, its directory stays, and a later upgrade to that version is
refused. -/
theorem upgrade_not_repeated :
    freshWorld.row = none ∧
      ReflTransGen (Step "claude" true (some "2.1.318")) (false, freshWorld) (true, seededWorld) ∧
      ¬Repeats "claude" true (some "2.1.318") (fun _ => True) (true, seededWorld) := by
  refine ⟨rfl, seeded_run true, ?_⟩
  have hactivated : unpublishedWorld.activated = seededWorld.activated := by decide +kernel
  have hnone : seededWorld.installs "2.1.319" = none := Option.isNone_iff_eq_none.mp (by decide +kernel)
  exact not_repeats unpublished_run hactivated hnone unpublished_refused

theorem pins_runnable_seeded :
    Sound "claude" seededWorld ∧
      (∀ t, Step "claude" true (some "2.1.318") (true, seededWorld) t →
        seededWorld.row = none ∨ t.2.pin = seededWorld.pin ∨ Changed "claude" seededWorld t.2) ∧
      Repeats "claude" true (some "2.1.318") (fun w => w.unpublished = none) (true, seededWorld) :=
  pins_runnable (show freshWorld.row = none from rfl) (seeded_run true)

end HomeStack.AgentRuntime

import HomeStack.Lib.JsonPointer
import HomeStack.Lib.Session
import HomeStack.Tasks

/-! The template of a schema 3 image (`hs-cli`, `services/deploy.rs`, `schema3_image`): its file is
named after the reviewed platform digest, the pull is by tag, and the tag is resolved before and after
it. The tag may move, a pull takes the image at some moment of its own, and a run may stop anywhere. -/

namespace HomeStack.TemplateImage

def isDigest (text : Text) : Bool :=
  match ("sha256:" : Text).isPrefixOf? text with
  | some hex => hex.length = 64 && hex.all fun c => c.isDigit || ('a' ≤ c && c ≤ 'f') || ('A' ≤ c && c ≤ 'F')
  | none => false

/-- `Resolved`: a release checked for deployment. `resolve` gives digests only. -/
structure Resolved where
  digest : Text
  platform : Text
  created : Option Text
  platform_digest : isDigest platform = true
  deriving DecidableEq

/-- What `schema3_image` reads of a plan. -/
structure Plan where
  image : Text
  resolved : Option Resolved
  templateStorage : Text

inductive Ask
  | content (node storage : Text)
  | resolve (image : Text)
  | pull (node storage reference filename : Text)
  /-- `wait_task` -/
  | wait (upid : Text) (timeoutSecs : Nat)
  | delete (node storage volume : Text)

abbrev Ask.Answer : Ask → Type
  | .content .. | .pull .. | .delete .. => Except Text Json
  | .resolve _ => Except Text Resolved
  | .wait .. => Except Text TaskResult

abbrev Op := ExceptT Text (Prog Ask Ask.Answer)

abbrev ask (q : Ask) : Op q.Answer := Prog.request q

def refuse {α : Type} (message : Text) : Op α := throw message

/-- `str::trim_end_matches`, on a text of at most so many characters. -/
def trimEndMatches (p : Text) : Nat → Text → Text
  | 0, s => s
  | n + 1, s => if p.isSuffixOf s then trimEndMatches p n (s.take (s.length - p.length)) else s

/-- The name of the template, without its ending. -/
def stem (platform : Text) : Text := "hs-" ++ platform.map fun c => if c = ':' then '-' else c

def file (platform : Text) : Text := stem platform ++ ".tar"

/-- A template of the storage. -/
def volume (storage file : Text) : Text := storage ++ ":vztmpl/" ++ file

def volid (storage platform : Text) : Text := volume storage (file platform)

def filename (platform : Text) : Text := trimEndMatches ".tar" (file platform).length (file platform)

/-- `volid.replace('/', "%2F")` -/
def escape (volid : Text) : Text := volid.flatMap fun c => if c = '/' then "%2F" else [c]

def present (volid : Text) (content : Json) : Bool :=
  (content.asArray.getD []).any fun v => (v.get "volid").bind Json.asStr = some volid

/-- The check of a pulled template. -/
def verify (node : Text) (plan : Plan) (reviewed : Resolved) (upid : Text) : Op Unit := do
  let result ← Prog.ofExcept (← ask (.wait upid 900))
  if !result.ok then refuse "OCI image pull failed"
  if (← Prog.ofExcept (← ask (.resolve plan.image))) ≠ reviewed then
    match ← ask (.delete node plan.templateStorage
      (escape (volid plan.templateStorage reviewed.platform))) with
    | .error _ => refuse "Image changed; cannot remove unverified template"
    | .ok _ => refuse "Image changed during pull; unverified template removed"

def schema3Image (node : Text) (plan : Plan) : Op Text := do
  let some reviewed := plan.resolved | refuse "Image digest was not reviewed"
  let volid := volid plan.templateStorage reviewed.platform
  if present volid (← Prog.ofExcept (← ask (.content node plan.templateStorage))) then
    return volid
  if (← Prog.ofExcept (← ask (.resolve plan.image))) ≠ reviewed then refuse "Image changed before pull"
  let task ← Prog.ofExcept (← ask (.pull node plan.templateStorage plan.image (filename reviewed.platform)))
  let some upid := task.asStr | refuse "Missing OCI pull task"
  verify node plan reviewed upid
  return volid

/-! ## The node, its storage and the registry -/

/-- An OCI pull. -/
structure Pull where
  image : Text
  volid : Text
  /-- The platform digest of the image it took. -/
  took : Option Text
  /-- Whether it ended well. -/
  ended : Option Bool
  /-- The run that asked for it is over. -/
  orphan : Bool

/-- What the first resolve of the run answered, and whether the tag named something else since. -/
structure Watch where
  image : Text
  answer : Resolved
  away : Bool

structure World where
  /-- What an image names now. -/
  registry : Text → Option Resolved
  /-- The templates, with the platform digest of the image they hold. -/
  volumes : Text → Option Text
  pulls : Text → Option Pull
  /-- The deletions that are still under way. -/
  deletions : List Text
  watch : Option Watch

namespace World

variable (w : World)

def setPull (upid : Text) (pull : Pull) : World :=
  { w with pulls := Function.update w.pulls upid (some pull) }

/-- The tag moves. -/
def move (image : Text) (r : Option Resolved) : World :=
  { w with
    registry := Function.update w.registry image r
    watch := w.watch.map fun x => if x.image = image ∧ r ≠ some x.answer then { x with away := true } else x }

/-- The task of a pull ends, with its file or without. -/
def finish (upid : Text) (pull : Pull) (platform : Text) (well written : Bool) : World :=
  { (w.setPull upid { pull with ended := some well }) with
    volumes := if written then Function.update w.volumes pull.volid (some platform) else w.volumes }

/-- A deletion ends, with its effect or without. -/
def deleted (volid : Text) (done : Bool) : World :=
  { w with
    deletions := w.deletions.erase volid
    volumes := if done then Function.update w.volumes volid none else w.volumes }

/-- A resolve is answered: the first one begins to watch the tag, the second one ends that. -/
def resolved (image : Text) (r : Resolved) : World :=
  { w with watch := match w.watch with | none => some ⟨image, r, false⟩ | some _ => none }

/-- The run is over. -/
def endRun : World :=
  { w with
    pulls := fun upid => (w.pulls upid).map fun pull => { pull with orphan := true }
    watch := none }

end World

/-- How a path of the API is read. -/
def unescape (s : Text) : Text := Text.replace "%2F" "/" s

/-- What moves by itself. A tag that moved away between the two resolves of a run is not moved back; an
orphaned pull takes an image that `takes` allows. -/
inductive Idle (takes : Pull → Text → Prop) : World → World → Prop
  | move {w : World} (image : Text) (r : Option Resolved) :
      (∀ x, w.watch = some x → x.image = image → x.away = true → r ≠ some x.answer) →
        Idle takes w (w.move image r)
  | take {w : World} {upid : Text} {pull : Pull} {r : Resolved} :
      w.pulls upid = some pull → pull.took = none → w.registry pull.image = some r →
      (pull.orphan = true → takes pull r.platform) →
      Idle takes w (w.setPull upid { pull with took := some r.platform })
  | finish {w : World} {upid : Text} {pull : Pull} {platform : Text} (well written : Bool) :
      w.pulls upid = some pull → pull.took = some platform → pull.ended = none →
        (well = true → written = true) →
      Idle takes w (w.finish upid pull platform well written)
  | fail {w : World} {upid : Text} {pull : Pull} :
      w.pulls upid = some pull → pull.ended = none →
        Idle takes w (w.setPull upid { pull with ended := some false })
  | deleted {w : World} {volid : Text} (done : Bool) : volid ∈ w.deletions →
      Idle takes w (w.deleted volid done)

/-- What a question may be answered. A request whose answer is lost may have been carried out. -/
def answers (storage : Text) : World → (q : Ask) → q.Answer → World → Prop
  | w, .content _ _, answer, t =>
    t = w ∧ ∀ v, answer = .ok v → ∀ volid, present volid v = true ↔ (w.volumes volid).isSome
  | w, .resolve image, answer, t =>
    (∃ e, answer = .error e ∧ t = w) ∨ ∃ r, w.registry image = some r ∧
      answer = .ok r ∧ t = w.resolved image r
  | w, .pull _ _ reference filename, answer, t =>
    (∃ e, answer = .error e ∧ t = w) ∨
      ∃ upid, w.pulls upid = none ∧ (∀ v, answer = .ok v → v = .str upid) ∧
        t = w.setPull upid ⟨reference, volume storage (filename ++ ".tar"), none, none, false⟩
  | w, .wait upid _, answer, t =>
    t = w ∧ ∀ r, answer = .ok r → r.ok = true → ∃ pull, w.pulls upid = some pull ∧ pull.ended = some true
  | w, .delete _ _ path, answer, t =>
    (∃ e, answer = .error e ∧ t = w) ∨ t = { w with deletions := unescape path :: w.deletions }

def node (storage : Text) : Prog.Env Ask Ask.Answer World := ⟨answers storage⟩

/-- The file of a pull is named after the image it took. -/
def Right (storage : Text) (pull : Pull) (platform : Text) : Prop :=
  ∀ p, isDigest p = true → pull.volid = volid storage p → platform = p

/-- The run leaves nothing unverified behind: each of its pulls took the image its file is named after,
or has ended and its file is gone. No deletion is still under way. -/
def Settled (storage : Text) (w : World) : Prop :=
  w.deletions = [] ∧
    ∀ upid pull, w.pulls upid = some pull → pull.orphan = false → ∀ platform, pull.took = some platform →
      Right storage pull platform ∨ pull.ended ≠ none ∧ w.volumes pull.volid = none

/-- At first no task is running, and every template named after a digest holds that image. -/
structure Fresh (storage : Text) (w : World) : Prop where
  pulls : ∀ upid, w.pulls upid = none
  deletions : w.deletions = []
  watch : w.watch = none
  volumes : ∀ p, isDigest p = true → ∀ x, w.volumes (volid storage p) = some x → x = p

/-- The plans of one storage. -/
def PlanOf (storage : Text) : Type := { plan : Plan // plan.templateStorage = storage }

/-- Runs on one node and storage, one after another, each of which is over in a world that `settles`
allows. -/
def Between (storage nodeName : Text) (takes : Pull → Text → Prop) (settles : World → Prop) : World → Prop :=
  Prog.Session (node storage) (Idle takes) (fun w t => settles w ∧ t = w.endRun)
    (fun plan : PlanOf storage => (schema3Image nodeName plan.1).run) (Fresh storage)

/-! ## Names -/

theorem isDigest_iff {text : Text} : isDigest text = true ↔ ∃ hex, text = "sha256:" ++ hex ∧ hex.length = 64 ∧
    ∀ c ∈ hex, (c.isDigit || ('a' ≤ c && c ≤ 'f') || ('A' ≤ c && c ≤ 'F')) = true := by
  unfold isDigest
  constructor
  · intro h
    split at h
    next hex hstarts =>
      rw [Bool.and_eq_true, decide_eq_true_eq, List.all_eq_true] at h
      exact ⟨hex, Text.isPrefixOf?_some hstarts, h⟩
    next => cases h
  · rintro ⟨hex, rfl, hlength, hhex⟩
    rw [Text.isPrefixOf?_append]
    simp only [hlength, decide_true, Bool.true_and, List.all_eq_true]
    exact hhex

theorem stem_digest {hex : Text}
    (h : ∀ c ∈ hex, (c.isDigit || ('a' ≤ c && c ≤ 'f') || ('A' ≤ c && c ≤ 'F')) = true) :
    stem ("sha256:" ++ hex) = "hs-sha256-" ++ hex := by
  have hmap : hex.map (fun c => if c = ':' then '-' else c) = hex := by
    refine (List.map_congr_left fun c hc => ?_).trans (List.map_id hex)
    have := h c hc
    simp only [id_eq]
    split
    next hcolon =>
      subst hcolon
      revert this
      decide
    next => rfl
  unfold stem
  rw [List.map_append, hmap]
  rfl

theorem trimEndMatches_append {p s : Text} (hs : ¬ p.isSuffixOf s = true) (n : Nat) :
    trimEndMatches p (n + 1) (s ++ p) = s := by
  have hp : p.isSuffixOf (s ++ p) = true := List.isSuffixOf_iff_suffix.mpr (List.suffix_append s p)
  have htake : (s ++ p).take ((s ++ p).length - p.length) = s := by simp
  rw [trimEndMatches, if_pos hp, htake]
  cases n with
  | zero => rfl
  | succ n => rw [trimEndMatches, if_neg hs]

/-- The file that the pull leaves is the one that is looked for. -/
theorem filename_volume {storage platform : Text} (h : isDigest platform = true) :
    volume storage (filename platform ++ ".tar") = volid storage platform := by
  obtain ⟨hex, rfl, hlength, hhex⟩ := isDigest_iff.1 h
  have hstem := stem_digest hhex
  have hend : ¬ (".tar" : Text).isSuffixOf (stem ("sha256:" ++ hex)) = true := by
    intro hsuffix
    obtain ⟨front, hfront⟩ := List.isSuffixOf_iff_suffix.mp hsuffix
    have hne : hex ≠ [] := by
      rintro rfl
      cases hlength
    have hlast : (stem ("sha256:" ++ hex)).getLast? = hex.getLast? := by
      rw [hstem, List.getLast?_append_of_ne_nil _ hne]
    rw [← hfront, List.getLast?_append_of_ne_nil _ (by decide)] at hlast
    have hr : 'r' ∈ hex := List.mem_of_getLast? hlast.symm
    have := hhex 'r' hr
    revert this
    decide
  have hfile : filename ("sha256:" ++ hex) = stem ("sha256:" ++ hex) := by
    unfold filename file
    rw [List.length_append]
    exact trimEndMatches_append hend _
  rw [hfile]
  rfl

/-! ## Templates -/

section

variable {storage : Text} {w t : World}

/-- A pull of the present run took this image for this template. -/
def Own (w : World) (volid x : Text) : Prop :=
  ∃ upid pull, w.pulls upid = some pull ∧ pull.orphan = false ∧ pull.volid = volid ∧ pull.took = some x

/-- A template holds the image it is named after, or what a pull of the present run took; an orphaned
pull that still runs took the right image. -/
structure Kept (storage : Text) (w : World) : Prop where
  volumes : ∀ p, isDigest p = true → ∀ x, w.volumes (volid storage p) = some x → x = p ∨
    Own w (volid storage p) x
  pulls : ∀ upid pull, w.pulls upid = some pull → pull.orphan = true → pull.ended = none →
    ∀ x, pull.took = some x → Right storage pull x

/-- What a pull is for does not change, and what it took stays. -/
structure Pull.Follows (old new : Pull) : Prop where
  image : new.image = old.image
  volid : new.volid = old.volid
  orphan : new.orphan = old.orphan
  took : ∀ x, old.took = some x → new.took = some x
  ended : ∀ b, old.ended = some b → new.ended = some b

theorem setPull_self (upid : Text) (pull : Pull) : (w.setPull upid pull).pulls upid = some pull :=
  Function.update_self ..

theorem setPull_of_ne {upid u : Text} (h : u ≠ upid) (pull : Pull) :
    (w.setPull upid pull).pulls u = w.pulls u :=
  Function.update_of_ne h ..

theorem finish_pulls (upid : Text) (pull : Pull) (platform : Text) (well written : Bool) :
    (w.finish upid pull platform well written).pulls =
      (w.setPull upid { pull with ended := some well }).pulls := rfl

theorem move_self (image : Text) (r : Option Resolved) : (w.move image r).registry image = r :=
  Function.update_self ..

theorem move_of_ne {image other : Text} (h : image ≠ other) (r : Option Resolved) :
    (w.move other r).registry image = w.registry image := Function.update_of_ne h ..

theorem own_setPull {upid volid x : Text} {old new : Pull} (hpull : w.pulls upid = some old)
    (hf : old.Follows new) (h : Own w volid x) : Own (w.setPull upid new) volid x := by
  obtain ⟨u, pull, hu, horphan, hvolid, htook⟩ := h
  by_cases hsame : u = upid
  · subst hsame
    obtain rfl : old = pull := Option.some.inj (hpull.symm.trans hu)
    exact ⟨u, new, setPull_self .., hf.orphan.trans horphan, hf.volid.trans hvolid, hf.took x htook⟩
  · exact ⟨u, pull, (setPull_of_ne hsame new).trans hu, horphan, hvolid, htook⟩

theorem kept_setPull {upid : Text} {old new : Pull} (hpull : w.pulls upid = some old) (hf : old.Follows new)
    (hright : new.orphan = true → new.ended = none → ∀ x, new.took = some x → Right storage new x)
    (h : Kept storage w) : Kept storage (w.setPull upid new) := by
  refine ⟨fun p hp x hx => (h.volumes p hp x hx).imp_right (own_setPull hpull hf), fun u pull hu => ?_⟩
  by_cases hsame : u = upid
  · subst hsame
    obtain rfl : new = pull := Option.some.inj ((setPull_self u new).symm.trans hu)
    exact hright
  · exact h.pulls u pull ((setPull_of_ne hsame new).symm.trans hu)

theorem follows_ended {pull : Pull} {well : Bool} (h : pull.ended = none) :
    pull.Follows { pull with ended := some well } :=
  ⟨rfl, rfl, rfl, fun _ hx => hx, fun b hb => by rw [h] at hb; cases hb⟩

theorem follows_took {pull : Pull} {x : Text} (h : pull.took = none) :
    pull.Follows { pull with took := some x } :=
  ⟨rfl, rfl, rfl, fun y hy => (by rw [h] at hy; cases hy), fun _ hb => hb⟩

/-- The worlds where every orphaned pull takes the image its file is named after. -/
abbrev Drift (storage : Text) : World → World → Prop := Idle (Right storage)

theorem stable_kept : Prog.Stable (Drift storage) (Kept storage) := by
  intro w t h hstep
  cases hstep with
  | move image r _ => exact ⟨h.volumes, h.pulls⟩
  | @take upid pull r hpull htook _ hright =>
    refine kept_setPull hpull (follows_took htook) (fun horphan _ x hx => ?_) h
    obtain rfl := Option.some.inj hx
    exact hright horphan
  | @finish upid pull platform well written hpull htook hended _ =>
    have hset : Kept storage (w.setPull upid { pull with ended := some well }) :=
      kept_setPull hpull (follows_ended hended) (fun _ hnone => nomatch hnone) h
    refine ⟨fun p hp x hx => ?_, hset.pulls⟩
    cases written with
    | false => exact hset.volumes p hp x hx
    | true =>
      by_cases hsame : volid storage p = pull.volid
      · have hvolume : some platform = some x := by
          rw [← hx]
          exact ((congrArg _ hsame).trans (Function.update_self ..)).symm
        obtain rfl := Option.some.inj hvolume
        cases horphan : pull.orphan with
        | true => exact Or.inl (h.pulls upid pull hpull horphan hended platform htook p hp hsame.symm)
        | false => exact Or.inr ⟨upid, _, Function.update_self .., horphan, hsame.symm, htook⟩
      · exact hset.volumes p hp x ((Function.update_of_ne hsame ..).symm.trans hx)
  | @fail upid pull hpull hended =>
    exact kept_setPull hpull (follows_ended hended) (fun _ hnone => nomatch hnone) h
  | @deleted name done _ =>
    refine ⟨fun p hp x hx => h.volumes p hp x ?_, h.pulls⟩
    cases done with
    | false => exact hx
    | true =>
      by_cases hsame : volid storage p = name
      · rw [show (w.deleted name true).volumes (volid storage p) = none from
          (congrArg _ hsame).trans (Function.update_self ..)] at hx
        cases hx
      · exact (Function.update_of_ne hsame ..).symm.trans hx

/-! ## One run -/

/-- What the world does by itself to one pull: it may take its image, and it may end. -/
theorem drift_pull (hstep : Drift storage w t) {upid : Text} {pull : Pull} (h : w.pulls upid = some pull) :
    ∃ new, t.pulls upid = some new ∧ pull.Follows new := by
  have hset {u : Text} {old new : Pull} (hold : w.pulls u = some old) (hf : old.Follows new) :
      ∃ next, (w.setPull u new).pulls upid = some next ∧ pull.Follows next := by
    by_cases hsame : upid = u
    · subst hsame
      obtain rfl := Option.some.inj (h.symm.trans hold)
      exact ⟨new, setPull_self .., hf⟩
    · exact ⟨pull, (setPull_of_ne hsame new).trans h, rfl, rfl, rfl, fun _ hx => hx, fun _ hb => hb⟩
  cases hstep with
  | take hold htook _ _ => exact hset hold (follows_took htook)
  | finish well written hold _ hnone _ => exact hset hold (follows_ended hnone)
  | fail hold hnone => exact hset hold (follows_ended hnone)
  | move | deleted => exact ⟨pull, h, rfl, rfl, rfl, fun _ hx => hx, fun _ hb => hb⟩

/-- No pull appears by itself. -/
theorem drift_pull_back (hstep : Drift storage w t) {upid : Text} {new : Pull} (h : t.pulls upid = some new) :
    ∃ pull, w.pulls upid = some pull := by
  have hset {u : Text} {old other : Pull} (hold : w.pulls u = some old)
      (hnew : (w.setPull u other).pulls upid = some new) :
      ∃ pull, w.pulls upid = some pull := by
    by_cases hsame : upid = u
    · exact ⟨old, hsame ▸ hold⟩
    · exact ⟨new, (setPull_of_ne hsame other).symm.trans hnew⟩
  cases hstep with
  | take hold _ _ _ => exact hset hold h
  | finish well written hold _ _ _ => exact hset hold h
  | fail hold _ => exact hset hold h
  | move | deleted => exact ⟨new, h⟩

/-- While nothing is being deleted, a template stays. -/
theorem drift_present (hstep : Drift storage w t) (hdel : w.deletions = []) :
    t.deletions = [] ∧ ∀ name, (w.volumes name).isSome → (t.volumes name).isSome := by
  cases hstep with
  | move | take | fail => exact ⟨hdel, fun _ h => h⟩
  | @finish upid pull platform well written _ _ _ _ =>
    refine ⟨hdel, fun name h => ?_⟩
    cases written with
    | false => exact h
    | true =>
      by_cases hsame : name = pull.volid
      · subst hsame
        exact Option.isSome_iff_exists.mpr ⟨platform, Function.update_self ..⟩
      · exact (congrArg Option.isSome (Function.update_of_ne hsame ..)).trans h
  | deleted _ hmem =>
    rw [hdel] at hmem
    cases hmem

/-- Every pull of the present run is one of these; nothing is being deleted. -/
structure Calm (storage : Text) (mine : Text → Prop) (w : World) : Prop extends Kept storage w where
  own : ∀ upid pull, w.pulls upid = some pull → pull.orphan = false → mine upid
  deletions : w.deletions = []

theorem stable_calm {mine : Text → Prop} : Prog.Stable (Drift storage) (Calm storage mine) := by
  intro w t h hstep
  refine ⟨stable_kept w t h.toKept hstep, fun upid new hnew horphan => ?_,
    (drift_present hstep h.deletions).1⟩
  obtain ⟨pull, hpull⟩ := drift_pull_back hstep hnew
  obtain ⟨next, hnext, hf⟩ := drift_pull hstep hpull
  obtain rfl := Option.some.inj (hnext.symm.trans hnew)
  exact h.own upid pull hpull (hf.orphan.symm.trans horphan)

/-- A template that is there and that no pull of the present run took. -/
theorem Calm.volume {p : Text} (hp : isDigest p = true) (h : Calm storage (fun _ => False) w)
    (hsome : (w.volumes (volid storage p)).isSome) : w.volumes (volid storage p) = some p := by
  obtain ⟨x, hx⟩ := Option.isSome_iff_exists.mp hsome
  rcases h.volumes p hp x hx with rfl | ⟨upid, pull, hpull, horphan, -⟩
  · exact hx
  · exact (h.own upid pull hpull horphan).elim

/-- The template is there. -/
def Held (storage platform : Text) (mine : Text → Prop) (w : World) : Prop :=
  Calm storage mine w ∧ (w.volumes (volid storage platform)).isSome

theorem stable_held {platform : Text} {mine : Text → Prop} :
    Prog.Stable (Drift storage) (Held storage platform mine) :=
  stable_calm.and fun _ _ h hsome hstep => (drift_present hstep h.deletions).2 _ hsome

/-- The tag was resolved to what was reviewed, and it names that now if it never moved away. -/
def Watched (image : Text) (reviewed : Resolved) (w : World) : Prop :=
  ∃ away, w.watch = some ⟨image, reviewed, away⟩ ∧ (away = false ↔ w.registry image = some reviewed)

theorem stable_watched {image : Text} {reviewed : Resolved} :
    Prog.Stable (Drift storage) (Watched image reviewed) := by
  rintro w t ⟨away, hwatch, hnames⟩ hstep
  cases hstep with
  | take | finish | fail | deleted => exact ⟨away, hwatch, hnames⟩
  | move other r hback =>
    by_cases himage : image = other
    · subst himage
      by_cases hr : r = some reviewed
      · have hstay : away = false := by
          by_contra haway
          exact hback _ hwatch rfl (Bool.eq_true_of_not_eq_false haway) hr
        refine ⟨away, ?_, iff_of_true hstay ((move_self image r).trans hr)⟩
        simp [World.move, hwatch, hr]
      · refine ⟨true, ?_, iff_of_false Bool.noConfusion fun h => hr ((move_self image r).symm.trans h)⟩
        simp [World.move, hwatch, hr]
    · refine ⟨away, ?_, (move_of_ne himage r).symm ▸ hnames⟩
      simp [World.move, hwatch, himage]

/-- The pull of the run: it took the reviewed image if the tag never moved away, and its file is there
when it has ended well. -/
def Pulling (storage : Text) (plan : Plan) (reviewed : Resolved) (upid : Text) (w : World) : Prop :=
  ∃ pull, w.pulls upid = some pull ∧ pull.image = plan.image ∧ pull.volid = volid storage reviewed.platform ∧
    (∀ x, pull.took = some x → ∀ watch, w.watch = some watch → watch.away = false → x = reviewed.platform) ∧
    (pull.ended = some true → pull.took.isSome ∧ (w.volumes (volid storage reviewed.platform)).isSome)

theorem stable_pulling {plan : Plan} {reviewed : Resolved} {upid : Text} :
    Prog.Stable (Drift storage) fun w => (Calm storage (· = upid) w ∧ Watched plan.image reviewed w) ∧
      Pulling storage plan reviewed upid w := by
  refine Prog.Stable.and (stable_calm.and fun w t _ hw hstep => stable_watched w t hw hstep) ?_
  rintro w t ⟨hcalm, away, hwatch, hnames⟩ ⟨pull, hpull, himage, hvolid, htook, hended⟩ hstep
  have hpresent := (drift_present hstep hcalm.deletions).2 (volid storage reviewed.platform)
  cases hstep with
  | move other r _ =>
    refine ⟨pull, hpull, himage, hvolid, fun x hx watch hnew hstay => ?_, hended⟩
    refine htook x hx ⟨plan.image, reviewed, away⟩ hwatch ?_
    simp only [World.move, hwatch, Option.map_some, Option.some.injEq] at hnew
    subst hnew
    split at hstay
    · cases hstay
    · exact hstay
  | @take u old r hold hnone hregistry _ =>
    by_cases hsame : upid = u
    · subst hsame
      obtain rfl : pull = old := Option.some.inj (hpull.symm.trans hold)
      refine ⟨_, setPull_self .., himage, hvolid, fun x hx watch hw hstay => ?_, fun h => ⟨rfl, (hended h).2⟩⟩
      obtain rfl : (⟨plan.image, reviewed, away⟩ : Watch) = watch := Option.some.inj (hwatch.symm.trans hw)
      obtain rfl := Option.some.inj hx
      rw [himage, hnames.mp hstay] at hregistry
      rw [Option.some.inj hregistry]
    · exact ⟨pull, (setPull_of_ne hsame _).trans hpull, himage, hvolid, htook, hended⟩
  | @finish u old platform well written hold hold_took hnone hwell =>
    by_cases hsame : upid = u
    · subst hsame
      obtain rfl : pull = old := Option.some.inj (hpull.symm.trans hold)
      refine ⟨_, setPull_self .., himage, hvolid, htook, fun h => ⟨by rw [hold_took]; rfl, ?_⟩⟩
      have hwritten := hwell (Option.some.inj h)
      subst hwritten
      rw [← hvolid]
      exact Option.isSome_iff_exists.mpr ⟨platform, Function.update_self ..⟩
    · exact ⟨pull, (setPull_of_ne hsame _).trans hpull, himage, hvolid, htook,
        fun h => ⟨(hended h).1, hpresent (hended h).2⟩⟩
  | @fail u old hold hnone =>
    by_cases hsame : upid = u
    · subst hsame
      obtain rfl : pull = old := Option.some.inj (hpull.symm.trans hold)
      exact ⟨_, setPull_self .., himage, hvolid, htook, fun h => nomatch h⟩
    · exact ⟨pull, (setPull_of_ne hsame _).trans hpull, himage, hvolid, htook, hended⟩
  | deleted _ hmem =>
    rw [hcalm.deletions] at hmem
    cases hmem

/-- The only pull of the run took the reviewed image and its template is there. -/
def Taken (storage : Text) (platform upid : Text) (w : World) : Prop :=
  Held storage platform (· = upid) w ∧ ∃ pull, w.pulls upid = some pull ∧ pull.took = some platform

theorem stable_taken {platform upid : Text} : Prog.Stable (Drift storage) (Taken storage platform upid) := by
  refine stable_held.and ?_
  rintro w t - ⟨pull, hpull, htook⟩ hstep
  obtain ⟨new, hnew, hf⟩ := drift_pull hstep hpull
  exact ⟨new, hnew, hf.took _ htook⟩

theorem Taken.volume {platform upid : Text} (hp : isDigest platform = true)
    (h : Taken storage platform upid w) :
    w.volumes (volid storage platform) = some platform := by
  obtain ⟨⟨hcalm, hsome⟩, pull, hpull, htook⟩ := h
  obtain ⟨x, hx⟩ := Option.isSome_iff_exists.mp hsome
  rcases hcalm.volumes platform hp x hx with rfl | ⟨u, other, hu, horphan, -, hother⟩
  · exact hx
  · obtain rfl : u = upid := hcalm.own u other hu horphan
    obtain rfl : other = pull := Option.some.inj (hu.symm.trans hpull)
    rw [hx, Option.some.inj (hother.symm.trans htook)]

/-- Every pull of the present run has ended and is for this template. -/
def Over (storage platform : Text) (w : World) : Prop :=
  ∀ upid pull, w.pulls upid = some pull → pull.orphan = false → pull.ended ≠ none ∧
    pull.volid = volid storage platform

theorem stable_over {platform : Text} : Prog.Stable (Drift storage) (Over storage platform) := by
  intro w t h hstep upid new hnew horphan
  obtain ⟨pull, hpull⟩ := drift_pull_back hstep hnew
  obtain ⟨next, hnext, hf⟩ := drift_pull hstep hpull
  obtain rfl := Option.some.inj (hnext.symm.trans hnew)
  obtain ⟨hended, hvolid⟩ := h upid pull hpull (hf.orphan.symm.trans horphan)
  obtain ⟨well, hwell⟩ := Option.ne_none_iff_exists'.mp hended
  exact ⟨by simp [hf.ended well hwell], hf.volid.trans hvolid⟩

/-- A template is deleted only when no pull of the run can put it back. -/
def Cleaning (storage platform : Text) (w : World) : Ask → Prop
  | .delete .. => Over storage platform w
  | _ => True

/-! ## What the answers bring -/

theorem answers_kept {q : Ask} {r : q.Answer} (h : Kept storage w) (hn : (node storage).next w q r t) :
    Kept storage t := by
  cases q with
  | content | wait =>
    obtain ⟨rfl, -⟩ := hn
    exact h
  | resolve image =>
    rcases hn with ⟨e, -, rfl⟩ | ⟨r, -, -, rfl⟩
    · exact h
    · exact ⟨h.volumes, h.pulls⟩
  | delete =>
    rcases hn with ⟨e, -, rfl⟩ | rfl
    · exact h
    · exact ⟨h.volumes, h.pulls⟩
  | pull =>
    rcases hn with ⟨e, -, rfl⟩ | ⟨upid, hnone, -, rfl⟩
    · exact h
    · refine ⟨fun p hp x hx => (h.volumes p hp x hx).imp_right ?_, fun u pull hu => ?_⟩
      · rintro ⟨u, pull, hu, hpull⟩
        have hne : u ≠ upid := by
          rintro rfl
          rw [hnone] at hu
          cases hu
        exact ⟨u, pull, (setPull_of_ne hne _).trans hu, hpull⟩
      · by_cases hsame : u = upid
        · subst hsame
          obtain rfl := Option.some.inj ((setPull_self u _).symm.trans hu)
          exact fun horphan => nomatch horphan
        · exact h.pulls u pull ((setPull_of_ne hsame _).symm.trans hu)

/-- What the tag is resolved to a first time. -/
theorem answers_first {image : Text} {r : Resolved} (h : Calm storage (fun _ => False) w ∧ w.watch = none)
    (hn : (node storage).next w (.resolve image) (.ok r) t) : Calm storage (fun _ => False) t ∧
      Watched image r t := by
  rcases hn with ⟨e, hr, -⟩ | ⟨r', hnames, hr, rfl⟩
  · cases hr
  · obtain rfl := Except.ok.inj hr
    refine ⟨⟨⟨h.1.volumes, h.1.pulls⟩, h.1.own, h.1.deletions⟩, false, ?_, iff_of_true rfl hnames⟩
    simp [World.resolved, h.2]

/-- The pull that the run asked for. -/
theorem answers_pull {plan : Plan} {reviewed : Resolved} {nodeName : Text} {v : Json}
    (h : Calm storage (fun _ => False) w ∧ Watched plan.image reviewed w)
    (hn : (node storage).next w (.pull nodeName storage plan.image (filename reviewed.platform)) (.ok v) t) :
    ∃ upid, v = .str upid ∧ (Calm storage (· = upid) t ∧ Watched plan.image reviewed t) ∧
      Pulling storage plan reviewed upid t := by
  have hkept := answers_kept h.1.toKept hn
  rcases hn with ⟨e, hr, -⟩ | ⟨upid, -, hv, rfl⟩
  · cases hr
  · refine ⟨upid, hv v rfl, ⟨⟨hkept, fun u pull hu horphan => ?_, h.1.deletions⟩, h.2⟩, ?_⟩
    · by_contra hne
      exact h.1.own u pull ((setPull_of_ne hne _).symm.trans hu) horphan
    · refine ⟨_, setPull_self .., rfl, filename_volume reviewed.platform_digest, ?_, ?_⟩
      · intro x hx
        cases hx
      · intro hended
        cases hended

/-- A second resolve to what was reviewed: the tag never moved away. -/
theorem answers_second {plan : Plan} {reviewed : Resolved} {upid : Text}
    (h : ((Calm storage (· = upid) w ∧ Watched plan.image reviewed w) ∧
      Pulling storage plan reviewed upid w) ∧
      ∃ pull, w.pulls upid = some pull ∧ pull.ended = some true)
    (hn : (node storage).next w (.resolve plan.image) (.ok reviewed) t) :
      Taken storage reviewed.platform upid t := by
  have hkept := answers_kept h.1.1.1.toKept hn
  rcases hn with ⟨e, hr, -⟩ | ⟨r, hregistry, hr, rfl⟩
  · cases hr
  · obtain rfl := Except.ok.inj hr
    obtain ⟨⟨⟨hcalm, away, hwatch, hnames⟩, pull, hpull, -, -, htook, hended⟩, other, hother, hwell⟩ := h
    obtain rfl : pull = other := Option.some.inj (hpull.symm.trans hother)
    obtain ⟨hsome, hpresent⟩ := hended hwell
    obtain ⟨x, hx⟩ := Option.isSome_iff_exists.mp hsome
    refine ⟨⟨⟨hkept, hcalm.own, hcalm.deletions⟩, hpresent⟩, pull, hpull, ?_⟩
    rw [hx, htook x hx _ hwatch (hnames.mpr hregistry)]

theorem Pulling.over {plan : Plan} {reviewed : Resolved} {upid : Text} (hcalm : Calm storage (· = upid) w)
    (h : Pulling storage plan reviewed upid w)
    (hwell : ∃ pull, w.pulls upid = some pull ∧ pull.ended = some true) :
    Over storage reviewed.platform w := by
  intro u other hother horphan
  obtain rfl : u = upid := hcalm.own u other hother horphan
  obtain ⟨pull, hpull, -, hvolid, -, -⟩ := h
  obtain ⟨done, hdone, hended⟩ := hwell
  obtain rfl : pull = other := Option.some.inj (hpull.symm.trans hother)
  obtain rfl : pull = done := Option.some.inj (hpull.symm.trans hdone)
  exact ⟨by simp [hended], hvolid⟩

theorem answers_over {platform image : Text} {r : Except Text Resolved} (h : Over storage platform w)
    (hn : (node storage).next w (.resolve image) r t) : Over storage platform t := by
  rcases hn with ⟨e, -, rfl⟩ | ⟨r, -, -, rfl⟩
  · exact h
  · exact h

/-! ## Runs -/

/-- The worlds during a run. -/
abbrev drifting (storage : Text) : Prog.Env Ask Ask.Answer World := (node storage).drifting (Drift storage)

/-- The clean-up leaves a settled world when its deletion has had its effect. -/
theorem Over.settled {platform nodeName path : Text} {r : Except Text Json} (h : Over storage platform w)
    (hdelete : (drifting storage).next w (.delete nodeName storage path) r t) (hdone : t.deletions = [])
    (hgone : t.volumes (volid storage platform) = none) : Settled storage t := by
  have hover : Over storage platform t := Prog.Env.drifting_next stable_over stable_over
    (fun s t hs hn => by rcases hn with ⟨e, -, rfl⟩ | rfl <;> exact hs) h hdelete
  refine ⟨hdone, fun upid pull hpull horphan _ _ => Or.inr ?_⟩
  obtain ⟨hended, hvolid⟩ := hover upid pull hpull horphan
  exact ⟨hended, hvolid ▸ hgone⟩

theorem wpe_verify {plan : Plan} {reviewed : Resolved} {upid nodeName : Text}
    (h : (Calm storage (· = upid) w ∧ Watched plan.image reviewed w) ∧ Pulling storage plan reviewed upid w) :
    Prog.wpe (drifting storage) (Cleaning storage reviewed.platform) (verify nodeName plan reviewed upid) w
      (fun _ t => Taken storage reviewed.platform upid t) fun _ _ => True := by
  have hended : Prog.Stable (Drift storage) fun w =>
      ((Calm storage (· = upid) w ∧ Watched plan.image reviewed w) ∧ Pulling storage plan reviewed upid w) ∧
        ∃ pull, w.pulls upid = some pull ∧ pull.ended = some true := by
    refine stable_pulling.and ?_
    rintro w t - ⟨pull, hpull, hwell⟩ hstep
    obtain ⟨new, hnew, hf⟩ := drift_pull hstep hpull
    exact ⟨new, hnew, hf.ended true hwell⟩
  refine Prog.wpe_request_bind trivial fun r t hwait =>
    Prog.wpe_ofExcept_bind (fun result hr => ?_) fun _ _ => trivial
  subst hr
  split
  · trivial
  next hok =>
    have hdone := Prog.Env.drifting_next stable_pulling hended
      (fun s t hs hn => by
        obtain ⟨rfl, hanswer⟩ := hn
        exact ⟨hs, hanswer result rfl (by simpa using hok)⟩) h hwait
    refine Prog.wpe_request_bind trivial fun r u hresolve =>
      Prog.wpe_ofExcept_bind (fun again hr => ?_) fun _ _ => trivial
    subst hr
    split
    · have hover := Prog.Env.drifting_next hended stable_over
        (fun s t hs hn => answers_over (hs.1.2.over hs.1.1.1 hs.2) hn) hdone hresolve
      refine Prog.wpe_request_bind hover fun r v _ => ?_
      cases r <;> trivial
    next hsame =>
      rw [not_not] at hsame
      subst hsame
      have htaken := Prog.Env.drifting_next hended stable_taken
        (fun s t hs hn => answers_second hs hn) hdone hresolve
      exact htaken

/-- Between runs and before the first resolve of one. -/
theorem stable_quiet : Prog.Stable (Drift storage) fun w => Calm storage (fun _ => False) w ∧
    w.watch = none :=
  stable_calm.and fun w t _ hw hstep => by
    cases hstep <;> simp_all [World.move, World.setPull, World.finish, World.deleted]

theorem wpe_schema3Image {plan : Plan} {nodeName : Text} (hstorage : plan.templateStorage = storage)
    (h : Calm storage (fun _ => False) w ∧ w.watch = none) :
    Prog.wpe (drifting storage) (fun s q => ∀ reviewed, plan.resolved = some reviewed →
      Cleaning storage reviewed.platform s q)
      (schema3Image nodeName plan) w
      (fun name t => ∃ reviewed, plan.resolved = some reviewed ∧ name = volid storage reviewed.platform ∧
        t.volumes name = some reviewed.platform) fun _ _ => True := by
  subst hstorage
  have hquiet := @stable_quiet plan.templateStorage
  unfold schema3Image
  cases hresolved : plan.resolved with
  | none => trivial
  | some reviewed =>
    refine Prog.wpe_request_bind (fun _ _ => trivial) fun r t hcontent =>
      Prog.wpe_ofExcept_bind (fun v hr => ?_) fun _ _ => trivial
    subst hr
    split
    next hpresent =>
      have hheld := Prog.Env.drifting_next hquiet
        (@stable_held plan.templateStorage reviewed.platform fun _ => False)
        (fun s t hs hn => by
          obtain ⟨rfl, hanswer⟩ := hn
          exact ⟨hs.1, (hanswer v rfl (volid plan.templateStorage reviewed.platform)).mp hpresent⟩) h hcontent
      exact ⟨reviewed, rfl, rfl, hheld.1.volume reviewed.platform_digest hheld.2⟩
    next =>
      have hcalm := Prog.Env.drifting_next hquiet hquiet (fun s t hs hn =>
        by obtain ⟨rfl, -⟩ := hn; exact hs) h hcontent
      refine Prog.wpe_request_bind (fun _ _ => trivial) fun r u hresolve =>
        Prog.wpe_ofExcept_bind (fun first hr => ?_) fun _ _ => trivial
      subst hr
      split
      · trivial
      next hsame =>
        rw [not_not] at hsame
        subst hsame
        have hwatched := Prog.Env.drifting_next hquiet
          (stable_calm.and fun w t _ hw hstep => stable_watched w t hw hstep)
          (fun s t hs hn => answers_first hs hn) hcalm hresolve
        refine Prog.wpe_request_bind (fun _ _ => trivial) fun r v hpull =>
          Prog.wpe_ofExcept_bind (fun task hr => ?_) fun _ _ => trivial
        subst hr
        obtain ⟨upid, rfl, hpulling⟩ :=
          Prog.Env.drifting_next (stable_calm.and fun w t _ hw hstep => stable_watched w t hw hstep)
          (fun s t ⟨upid, hv, hs⟩ hstep => ⟨upid, hv, stable_pulling s t hs hstep⟩)
          (fun s t hs hn => answers_pull hs hn) hwatched hpull
        refine Prog.wpe_bind.mpr
          (Prog.wpe_mono (Prog.wpe_guard (wpe_verify hpulling) fun s q hq again hagain => ?_)
          (fun _ t htaken => ?_) fun _ _ he => he)
        · obtain rfl := Option.some.inj hagain
          exact hq
        exact ⟨first, rfl, rfl, htaken.volume first.platform_digest⟩

/-! ## One run after another -/

/-- Between runs: nothing of a run is left that could put another image in place of a template. -/
theorem between_calm {nodeName : Text} (h : Between storage nodeName (Right storage) (Settled storage) w) :
    Calm storage (fun _ => False) w ∧ w.watch = none := by
  refine Prog.Session.inv (K := Kept storage) ?_ stable_quiet ?_ ?_ h
  · rintro w ⟨hpulls, hdel, hwatch, hvolumes⟩
    refine ⟨⟨⟨fun p hp x hx => Or.inl (hvolumes p hp x hx), fun upid pull hpull => ?_⟩,
      fun upid pull hpull => ?_, hdel⟩, hwatch⟩
    · rw [hpulls] at hpull
      cases hpull
    · rw [hpulls] at hpull
      cases hpull
  · intro plan w hw
    exact Prog.wp_inv (Prog.asks_true _) hw.1.toKept
      (fun s q r t _ hs hn => Prog.Env.drifting_next stable_kept stable_kept
        (fun s t hs hn => answers_kept hs hn) hs hn)
      (fun s q _ hs => hs) fun a t ht => ht
  · rintro w t hkept ⟨⟨hdel, hsettled⟩, rfl⟩
    refine ⟨⟨⟨fun p hp x hx => ?_, fun upid pull hpull _ hended x htook => ?_⟩,
      fun upid pull hpull horphan => ?_, hdel⟩, rfl⟩
    · rcases hkept.volumes p hp x hx with rfl | ⟨upid, pull, hpull, horphan, hvolid, htook⟩
      · exact Or.inl rfl
      · rcases hsettled upid pull hpull horphan x htook with hright | ⟨-, hgone⟩
        · exact Or.inl (hright p hp hvolid)
        · rw [hvolid] at hgone
          rw [show w.endRun.volumes (volid storage p) = none from hgone] at hx
          cases hx
    · obtain ⟨old, hold, rfl⟩ := Option.map_eq_some_iff.mp hpull
      cases horphan : old.orphan with
      | true => exact hkept.pulls upid old hold horphan hended x htook
      | false =>
        rcases hsettled upid old hold horphan x htook with hright | ⟨hover, -⟩
        · exact hright
        · exact absurd hended hover
    · obtain ⟨old, hold, rfl⟩ := Option.map_eq_some_iff.mp hpull
      cases horphan

/-- A run that ends well leaves the template with the image it is named after, if every earlier run is
over settled and every orphaned pull takes the image its file is named after. -/
theorem template_holds_digest {nodeName : Text} {plan : Plan} {name : Text}
    (hbetween : Between storage nodeName (Right storage) (Settled storage) w)
    (hstorage : plan.templateStorage = storage)
    (hrun : Prog.Exec (drifting storage) (schema3Image nodeName plan).run w (some (.ok name)) t) :
    ∃ reviewed, plan.resolved = some reviewed ∧ name = volid storage reviewed.platform ∧
      t.volumes name = some reviewed.platform :=
  Prog.wp_done (wpe_schema3Image hstorage (between_calm hbetween)) hrun

end

/-! ## Two runs -/

section

open Prog

def release (digit : Char) (h : isDigest ("sha256:" ++ List.replicate 64 digit) = true) : Resolved :=
  ⟨"sha256:" ++ List.replicate 64 digit, "sha256:" ++ List.replicate 64 digit, none, h⟩

def reviewed : Resolved := release 'a' (by decide)

def rebuilt : Resolved := release 'b' (by decide)

def plan : Plan := ⟨"registry/app:1", some reviewed, "local"⟩

/-- The tag names this, and there is no template. -/
def empty (r : Resolved) : World := ⟨fun _ => some r, fun _ => none, fun _ => none, [], none⟩

theorem empty_fresh (r : Resolved) : Fresh "local" (empty r) :=
  ⟨fun _ => rfl, rfl, rfl, fun _ _ _ h => nomatch h⟩

def asked : Pull := ⟨"registry/app:1", volume "local" (filename reviewed.platform ++ ".tar"),
  none, none, false⟩

/-- The pull of a run has begun. -/
def pulling (upid : Text) (w : World) : World := (w.resolved "registry/app:1" reviewed).setPull upid asked

variable {takes : Pull → Text → Prop} {α : Type} {E : Env Ask Ask.Answer World} {w t u : World}
  {o : Option (Except Text α)} {upid : Text}

theorem exec_pulling {o : Option (Except Text Text)} (hvolumes : ∀ name, w.volumes name = none)
    (hnames : w.registry "registry/app:1" = some reviewed) (hfree : w.pulls upid = none)
    (h : Exec ((node "local").drifting (Idle takes))
      (verify "pve1" plan reviewed upid >>= fun _ => pure (volid "local" reviewed.platform)).run
      (pulling upid w) o u) :
    Exec ((node "local").drifting (Idle takes)) (schema3Image "pve1" plan).run w o u := by
  refine exec_request_bind (r := .ok (.arr [])) (Env.next_drifting ⟨rfl, ?_⟩) ?_
  · rintro v ⟨⟩ volid
    simp [-String.reduceToList, present, Json.asArray, hvolumes]
  refine exec_request_bind (r := .ok reviewed) (Env.next_drifting (Or.inr ⟨reviewed, hnames, rfl, rfl⟩)) ?_
  refine exec_request_bind (r := .ok (.str upid)) (Env.next_drifting (Or.inr ⟨upid, hfree, ?_, rfl⟩)) ?_
  · rintro v ⟨⟩
    rfl
  exact h

/-- The pull took an image and ended well. -/
def landed (upid : Text) (w : World) (pull : Pull) (r : Resolved) : World :=
  (w.setPull upid { pull with took := some r.platform }).finish upid
  { pull with took := some r.platform } r.platform true true

theorem landed_idle {pull : Pull} {r : Resolved} (hpull : w.pulls upid = some pull) (htook : pull.took = none)
    (hended : pull.ended = none) (hnames : w.registry pull.image = some r)
    (hright : pull.orphan = true → takes pull r.platform) :
    Relation.ReflTransGen (Idle takes) w (landed upid w pull r) :=
  .tail (.single (.take hpull htook hnames hright))
    (.finish true true (setPull_self ..) rfl hended fun _ => rfl)

theorem landed_pulls (upid : Text) (w : World) (pull : Pull) (r : Resolved) :
    (landed upid w pull r).pulls upid = some { pull with took := some r.platform, ended := some true } := by
  rw [landed, finish_pulls, setPull_self]

theorem landed_volumes (upid : Text) (w : World) {pull : Pull} (r : Resolved) {name : Text}
    (h : pull.volid = name) :
    (landed upid w pull r).volumes = Function.update w.volumes name (some r.platform) := by
  subst h
  rfl

theorem asked_volid : asked.volid = volid "local" reviewed.platform :=
  filename_volume reviewed.platform_digest

/-- A run whose pull takes the reviewed image. -/
theorem exec_landed (hvolumes : ∀ name, w.volumes name = none)
    (hnames : w.registry "registry/app:1" = some reviewed) (hfree : w.pulls upid = none) :
    Exec ((node "local").drifting (Idle takes)) (schema3Image "pve1" plan).run w
      (some (.ok (volid "local" reviewed.platform)))
      ((landed upid (pulling upid w) asked reviewed).resolved "registry/app:1" reviewed) := by
  refine exec_pulling hvolumes hnames hfree ?_
  refine exec_request_bind (r := .ok ⟨upid, "OK"⟩)
    ⟨_, _, landed_idle (setPull_self ..) rfl rfl hnames (fun h => nomatch h), ⟨rfl, ?_⟩, .refl⟩ ?_
  · exact fun _ _ _ => ⟨_, landed_pulls .., rfl⟩
  exact exec_request_bind (r := .ok reviewed) (Env.next_drifting (Or.inr ⟨reviewed, hnames, rfl, rfl⟩))
    (Exec.done _ _)

/-- The tag moved before the node took the image. -/
def changed : World := landed "UPID" ((pulling "UPID" (empty reviewed)).move
  "registry/app:1" (some rebuilt)) asked rebuilt

/-- The run saw it and removed the template. -/
def cleaned : World :=
  World.deleted
    { changed.resolved "registry/app:1" rebuilt with deletions :=
      [unescape (escape (volid "local" reviewed.platform))] }
    (volid "local" reviewed.platform) true

theorem unescape_volid :
    unescape (escape (volid "local" reviewed.platform)) = volid "local" reviewed.platform := by decide +kernel

theorem cleaned_volumes (name : Text) : cleaned.volumes name = none := by
  have hvolumes : cleaned.volumes = Function.update
      (Function.update (fun _ => none) (volid "local" reviewed.platform)
      (some rebuilt.platform)) (volid "local" reviewed.platform) none :=
    congrArg (fun volumes : Text → Option Text =>
      Function.update volumes (volid "local" reviewed.platform) none)
      (landed_volumes "UPID" _ rebuilt asked_volid)
  rw [hvolumes, Function.update_idem]
  exact congrFun (Function.update_eq_self (volid "local" reviewed.platform) fun _ =>
    (none : Option Text)) name

theorem next_cleaned : (drifting "local").next (changed.resolved "registry/app:1" rebuilt)
    (.delete "pve1" "local" (escape (volid "local" reviewed.platform))) (.ok .null) cleaned := by
  refine ⟨_, _, .refl, Or.inr rfl, .single (.deleted true ?_)⟩
  rw [unescape_volid]
  exact List.mem_cons_self

theorem settled_cleaned : Settled "local" cleaned := by
  have hdone : cleaned.deletions = [] := by
    simp only [cleaned, World.deleted, unescape_volid]
    exact List.erase_cons_head (volid "local" reviewed.platform) []
  suffices hover : Over "local" reviewed.platform (changed.resolved "registry/app:1" rebuilt) from
    hover.settled next_cleaned hdone (cleaned_volumes _)
  intro upid pull hpull _
  have hpulls : changed.pulls = Function.update
      (Function.update (Function.update (fun _ => none) "UPID".toList (some asked))
      "UPID".toList (some { asked with took := some rebuilt.platform }))
      "UPID".toList (some { asked with took := some rebuilt.platform, ended := some true }) := rfl
  have hpull : changed.pulls upid = some pull := hpull
  rw [hpulls, Function.update_idem, Function.update_idem] at hpull
  by_cases hsame : upid = "UPID"
  · rw [hsame, Function.update_self] at hpull
    obtain rfl := Option.some.inj hpull
    exact ⟨nofun, asked_volid⟩
  · rw [Function.update_of_ne hsame] at hpull
    cases hpull

/-- The first run ends in the clean-up. -/
theorem exec_cleaned : Exec (drifting "local") (schema3Image "pve1" plan).run (empty reviewed)
    (some (.error "Image changed during pull; unverified template removed")) cleaned := by
  refine exec_pulling (fun _ => rfl) rfl (show (empty reviewed).pulls "UPID".toList = none from rfl) ?_
  have hmove : Idle (Right "local") (pulling "UPID" (empty reviewed))
      ((pulling "UPID" (empty reviewed)).move "registry/app:1" (some rebuilt)) :=
    .move _ _ fun x hx _ haway => by
      obtain rfl := Option.some.inj hx
      cases haway
  have hlanded : Relation.ReflTransGen (Drift "local") (pulling "UPID" (empty reviewed)) changed :=
    .head hmove (landed_idle rfl (show asked.took = none from rfl) rfl (move_self ..) fun h => nomatch h)
  have hnames : changed.registry "registry/app:1" = some rebuilt :=
    move_self (w := pulling "UPID" (empty reviewed)) "registry/app:1" (some rebuilt)
  refine exec_request_bind (r := .ok ⟨"UPID", "OK"⟩) ⟨_, _, hlanded,
    ⟨rfl, fun _ _ _ => ⟨_, landed_pulls .., rfl⟩⟩, .refl⟩ ?_
  refine exec_request_bind (r := .ok rebuilt) (Env.next_drifting (Or.inr ⟨rebuilt, hnames, rfl, rfl⟩)) ?_
  exact Exec.step next_cleaned (Exec.done _ _)

/-- The next run, when the tag is back. -/
def back : World := cleaned.endRun.move "registry/app:1" (some reviewed)

/-- A run that cleaned up, and one that then gets the reviewed image. -/
theorem template_holds_digest_landed :
    ∃ r, plan.resolved = some r ∧ volid "local" reviewed.platform = volid "local" r.platform ∧
    ((landed "UPID2" (pulling "UPID2" back) asked reviewed).resolved "registry/app:1" reviewed).volumes
      (volid "local" reviewed.platform) = some r.platform := by
  have hfirst : Between "local" "pve1" (Right "local") (Settled "local") cleaned.endRun :=
    .run ⟨plan, rfl⟩ (.start (empty_fresh reviewed)) exec_cleaned ⟨settled_cleaned, rfl⟩
  have hback : Between "local" "pve1" (Right "local") (Settled "local") back :=
    .idle hfirst (.move _ _ fun x hx => nomatch hx)
  exact @template_holds_digest _ _ _ "pve1" _ _ hback rfl (exec_landed cleaned_volumes (move_self ..) rfl)

/-- The first run stopped during its pull, and the tag moved before the node took the image. -/
def moved : World := landed "UPID" ((pulling "UPID" (empty reviewed)).endRun.move
  "registry/app:1" (some rebuilt)) { asked with orphan := true } rebuilt

theorem between_moved : Between "local" "pve1" (fun _ _ => True) (fun _ => True) moved := by
  have hstopped : Between "local" "pve1" (fun _ _ => True) (fun _ => True)
      (pulling "UPID" (empty reviewed)).endRun :=
    .run ⟨plan, rfl⟩ (.start (empty_fresh reviewed)) (exec_pulling (fun _ => rfl) rfl rfl (Exec.stop _ _))
      ⟨trivial, rfl⟩
  have hmoved : Idle (fun _ _ => True) (pulling "UPID" (empty reviewed)).endRun
      ((pulling "UPID" (empty reviewed)).endRun.move "registry/app:1" (some rebuilt)) :=
    .move _ _ fun x hx => nomatch hx
  have hlanded := @landed_idle (fun _ _ => True)
    ((pulling "UPID" (empty reviewed)).endRun.move "registry/app:1" (some rebuilt)) "UPID"
    { asked with orphan := true } rebuilt rfl rfl rfl rfl fun _ => trivial
  have hstar {s t : World} (hs : Between "local" "pve1" (fun _ _ => True) (fun _ => True) s)
      (h : Relation.ReflTransGen (Idle fun _ _ => True) s t) : Between "local"
        "pve1" (fun _ _ => True) (fun _ => True) t := by
    induction h with
    | refl => exact hs
    | tail _ hstep ih => exact .idle ih hstep
  exact hstar (.idle hstopped hmoved) hlanded

/-- The next run takes what the stopped one left for the reviewed image. -/
theorem template_holds_other : ¬ ∀ (storage nodeName name : Text) (plan : Plan) (w t : World),
    Between storage nodeName (fun _ _ => True) (fun _ => True) w → plan.templateStorage = storage →
    Exec ((node storage).drifting (Idle fun _ _ => True)) (schema3Image nodeName plan).run w
      (some (.ok name)) t →
    ∃ r, plan.resolved = some r ∧ name = volid storage r.platform ∧ t.volumes name = some r.platform := by
  intro h
  have hvolumes : moved.volumes = Function.update (fun _ => none) (volid "local" reviewed.platform)
      (some rebuilt.platform) :=
    landed_volumes _ _ rebuilt asked_volid
  have hrun : Exec ((node "local").drifting (Idle fun _ _ => True)) (schema3Image "pve1" plan).run moved
      (some (.ok (volid "local" reviewed.platform))) moved := by
    refine exec_request_bind (r := .ok (.arr [.obj [("volid", .str (volid "local" reviewed.platform))]]))
      (Env.next_drifting ⟨rfl, ?_⟩)
      (Exec.done _ _)
    rintro v ⟨⟩ name
    have hlisted : present name (.arr [.obj [("volid", .str (volid "local" reviewed.platform))]]) =
        decide (volid "local" reviewed.platform = name) := by
      simp [-String.reduceToList, present, Json.asArray, Json.get, Json.lookup, Json.asStr]
    rw [hlisted, decide_eq_true_eq, hvolumes]
    by_cases hname : volid "local" reviewed.platform = name
    · rw [hname, Function.update_self]
      exact iff_of_true rfl rfl
    · rw [Function.update_of_ne (Ne.symm hname)]
      exact iff_of_false hname Bool.noConfusion
  obtain ⟨r, hr, -, hvolume⟩ := h "local" "pve1" _ plan moved moved between_moved rfl hrun
  obtain rfl := Option.some.inj hr
  rw [hvolumes, Function.update_self] at hvolume
  exact absurd hvolume (by decide)

end

end HomeStack.TemplateImage

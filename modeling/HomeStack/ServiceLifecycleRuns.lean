import HomeStack.ServiceLifecycle

/-! Every run of a maintenance session, with any answers and stopped anywhere: what an edit may change,
and that a removal deletes only what was just reviewed. -/

namespace HomeStack.ServiceLifecycle

open Deploy (Source)
open Prog
open Removal (Ask ask orElse base Reviewed Reads ran_check Agree Authorised)
open ServiceEnvironment (change mergeEnv nul)
open ServiceInstance (Instance parseEnv showSize)
open Json (field)

/-! ## What only reads -/

theorem reads_fetch (node pool : Text) (id : Nat) : Reads (fetch node pool id) := by
  refine asks_bind (asks_request rfl) fun _ => asks_bind asks_ofExcept fun config => ?_
  refine asks_bind (asks_request rfl) fun _ => asks_bind asks_ofExcept fun current => ?_
  split
  · exact asks_ofExcept
  · split
    · exact asks_ofExcept
    · trivial

theorem reads_held (node pool : Text) (ctid : Nat) : Reads (held node pool ctid) :=
  asks_bind (asks_attempt (reads_fetch _ _ _)) fun _ => trivial

theorem reads_located (node pool : Text) (ctid : Nat) (present holder : Bool) :
    Reads (located node pool ctid present holder) := by
  unfold located
  split
  · refine asks_bind (reads_fetch _ _ _) fun t => ?_
    split
    · exact asks_bind (reads_held _ _ _) fun _ => trivial
    · trivial
  · refine asks_bind ?_ fun found => ?_
    · split
      · exact reads_held _ _ _
      · trivial
    · split <;> trivial

theorem reads_container (ctid : Nat) : Reads (container ctid) :=
  asks_bind (asks_request rfl) fun _ => asks_bind asks_ofExcept fun _ => trivial

theorem reads_read (ctid : Nat) : Reads (read ctid) := by
  refine asks_bind (reads_container _) fun found => asks_bind (reads_container _) fun holder => ?_
  split
  · trivial
  · exact reads_located _ _ _ _ _

theorem reads_readOn (node : Text) (ctid : Nat) : Reads (readOn node ctid) :=
  asks_bind (asks_request rfl) fun _ => asks_bind asks_ofExcept fun _ => reads_located _ _ _ _ _

theorem reads_addTarget (pool repository service : Text) (choice : Choice) (p : Plan) (ctid : Nat) :
    Reads (addTarget pool repository service choice p ctid) := by
  unfold addTarget
  split
  · trivial
  · refine asks_bind ?_ fun found => ?_
    · split
      · exact asks_bind (asks_attempt (reads_read _)) fun _ => trivial
      · refine asks_bind (asks_attempt (Removal.reads_review _ _)) fun r => ?_
        cases r <;> trivial
    · obtain ⟨p, target⟩ := found
      cases target with
      | error e => trivial
      | ok t =>
        dsimp only
        split <;> trivial

/-- A review changes nothing. -/
theorem reads_plan (pool repository service : Text) (choice : Choice) :
    Reads (plan pool repository service choice) := by
  refine asks_bind (asks_foldlM (reads_addTarget _ _ _ _) _ _) fun p => ?_
  split <;> trivial

theorem reads_task (upid : Json) (what : Text) : Reads (task upid what) := by
  unfold task
  split
  · trivial
  · exact asks_bind (asks_request rfl) fun _ => asks_bind asks_ofExcept fun _ => asks_ofExcept

theorem reads_callSite {call : Removal.SiteCall} (h : call ≠ .remove) (ctid : Nat) :
    Reads (callSite call ctid) :=
  asks_bind (asks_request (decide_eq_true h)) fun _ => asks_ofExcept

theorem reads_ready (source : Source) (site : Bool) (ctid : Nat) (address : Text) :
    Reads (ready source site ctid address) := by
  unfold ready
  split
  · refine asks_bind asks_ofExcept fun _ => asks_bind (reads_callSite (by decide) _) fun _ => ?_
    exact asks_bind (asks_request rfl) fun _ => asks_bind asks_ofExcept fun _ => trivial
  · exact asks_bind (asks_request rfl) fun _ => asks_ofExcept

theorem reads_identifySites (source : Source) (p : Plan) (site : Bool) :
    Reads (identifySites source p site) := by
  unfold identifySites
  split
  · refine asks_bind asks_ofExcept fun _ => asks_forM (fun t => ?_) _
    exact asks_bind (reads_callSite (by decide) _) fun _ => trivial
  · trivial

/-! ## Programs under a guard -/

/-- A guard that lets reads pass. -/
def Open (I : History → Ask → Prop) : Prop := ∀ h q, q.reads = true → I h q

section

variable {I : History → Ask → Prop} {α β : Type} {h : History}

/-- Every question is under the guard, and the history only grows. -/
abbrev Obeys (I : History → Ask → Prop) (p : Op α) (h : History) : Prop :=
  wpe anything I p h (fun _ t => h <:+ t) fun _ _ => True

theorem obeys_reads (hI : Open I) {p : Op α} (hp : Reads p) : wpe anything I p h (Ran p h) fun _ _ => True :=
  wpe_self hp hI

theorem obeys_pure (a : α) : Obeys I (pure a : Op α) h := wpe_pure (List.suffix_refl h)

/-- After a step that obeys, by how it ran. -/
theorem obeys_bind {p : Op β} {f : β → Op α} {K : β → History → Prop}
    (hp : wpe anything I p h K fun _ _ => True) (hsuffix : ∀ b t, K b t → h <:+ t)
    (hf : ∀ b t, K b t → Obeys I (f b) t) : Obeys I (p >>= f) h := by
  refine wpe_bind.mpr (wpe_mono hp (fun b t hb => ?_) fun _ _ hX => hX)
  exact wpe_mono (hf b t hb) (fun _ _ ht => (hsuffix b t hb).trans ht) fun _ _ hX => hX

theorem obeys_read (hI : Open I) {p : Op β} (hp : Reads p) {f : β → Op α}
    (hf : ∀ b t, Ran p h b t → Obeys I (f b) t) :
    Obeys I (p >>= f) h := obeys_bind (obeys_reads hI hp) (fun _ _ hr => hr.suffix) hf

theorem obeys_check {x : Except Text β} {f : β → Op α} (hf : ∀ b, x = .ok b → Obeys I (f b) h) :
    Obeys I (Prog.ofExcept x >>= f) h := by
  cases x with
  | ok b => exact hf b rfl
  | error e => exact wpe_throw trivial

/-- A question under the guard, and then reads. -/
theorem obeys_ask (hI : Open I) {q : Ask} (hq : I h q) {f : q.Answer → Op α} (hf : ∀ r, Reads (f r)) :
    Obeys I (ask q >>= f) h := by
  refine obeys_bind (K := fun _ t => h <:+ t) (wpe_lift (wp_call hq fun r t ht => ?_))
    (fun _ _ ht => ht) fun r t _ => ?_
  · rw [show t = ⟨q, r⟩ :: h from ht]
    exact List.suffix_cons _ _
  · exact wpe_mono (obeys_reads hI (hf r)) (fun _ _ hr => hr.suffix) fun _ _ hX => hX

end

/-! ## What an edit may ask -/

def configPath (t : Instance) : Text := base t.node t.ctid ++ "/config"

def secrets (entries : List (Text × Text)) : List (Text × Text) :=
  entries.filter fun e => Schema3.secretName e.1

/-- The container was read since `s`, and it still has the address and the home that were reviewed. -/
def ReadSince (s h : History) (t now : Instance) : Prop :=
  ∃ s₁ s₂, s <:+ s₁ ∧ Ran (readOn t.node t.ctid) s₁ now s₂ ∧ s₂ <:+ h ∧ now.mac = t.mac ∧
    now.homeVolume = t.homeVolume

theorem ReadSince.mono {s h h' : History} {t now : Instance} (hr : ReadSince s h t now) (hsuffix : h <:+ h') :
    ReadSince s h' t now := by
  obtain ⟨s₁, s₂, hs, hrun, hs₂, hsame⟩ := hr
  exact ⟨s₁, s₂, hs, hrun, hs₂.trans hsuffix, hsame⟩

/-- What an edit by the plan asks of the containers of the plan since the plan's log `s`, besides what
only reads. -/
inductive Allowed (p : Plan) (s h : History) : Ask → Prop
  /-- A disk grows from the size that was read to the one of the plan. -/
  | grow {t now : Instance} {disk : Text} {size wanted : Nat} : t ∈ p.targets → ReadSince s h t now →
    (disk, size, some wanted) ∈ [("rootfs".toList, now.rootMib, p.rootMib),
      ("mp0".toList, now.homeMib, p.homeMib)] →
      size < wanted → Allowed p s h (.put (base t.node t.ctid ++ "/resize") [("disk", disk),
        ("size", showSize wanted)])
  /-- The limits of the plan, where they differ from what was read. -/
  | limits {t now : Instance} : t ∈ p.targets → ReadSince s h t now → limitsOf p now ≠ [] →
    Allowed p s h (.put (configPath t) (limitsOf p now))
  /-- The environment that was just read is written back with the plan's change, all its secrets kept,
  under the digest it was read with. -/
  | environment {t now : Instance} {config : Json} {env : Text} {rest : History} : t ∈ p.targets →
    ReadSince s h t now →
    h = ⟨.get (configPath t) [], .ok config⟩ :: rest →
      env = mergeEnv (parseEnv (textOf config "env")) p.set p.unset →
      secrets (parseEnv env) = secrets (parseEnv (textOf config "env")) →
        Allowed p s h (.put (configPath t) [("env", env), ("digest", textOf config "digest")])
  /-- The container was running, and the read that has just ended shows another environment. -/
  | reboot {t now after : Instance} {earlier : History} : t ∈ p.targets →
    ReadSince s earlier t now → now.running = true →
    Ran (readOn t.node t.ctid) earlier after h → after.environment ≠ now.environment →
      Allowed p s h (.post (base t.node t.ctid ++ "/status/" ++ "reboot"))

section

variable {p : Plan} {t now : Instance} {s h : History}

/-- After the review: reads, and what the plan allows. -/
def EditGuard (p : Plan) (s h : History) (q : Ask) : Prop := q.reads = true ∨ Allowed p s h q

theorem open_edit (p : Plan) (s : History) : Open (EditGuard p s) := fun _ _ hq => .inl hq

theorem grow_obeys (ht : t ∈ p.targets) (hread : ReadSince s h t now) {disk : Text} {size : Nat}
    {wanted : Option Nat} (hdisk : (disk, size, wanted) ∈ [("rootfs".toList, now.rootMib, p.rootMib),
    ("mp0".toList, now.homeMib, p.homeMib)]) :
    Obeys (EditGuard p s) (grow t.node t.ctid disk size wanted) h := by
  unfold grow
  split
  · exact obeys_pure ()
  next n hwanted =>
    obtain ⟨rfl, hless⟩ := Option.filter_eq_some_iff.mp hwanted
    exact obeys_ask (open_edit p s) (.inr (.grow ht hread hdisk (by simpa using hless))) fun r =>
      asks_bind asks_ofExcept fun _ => reads_task _ _

theorem setLimits_obeys (ht : t ∈ p.targets) (hread : ReadSince s h t now) :
    Obeys (EditGuard p s) (setLimits t.node t.ctid (limitsOf p now)) h := by
  unfold setLimits
  split
  · exact obeys_pure ()
  next hsome =>
    exact obeys_ask (open_edit p s) (.inr (.limits ht hread hsome)) fun r =>
      asks_bind asks_ofExcept fun _ => reads_task _ _

theorem orMessage_ok {α : Type} {message : Text} {x : Except Text α} {a : α}
    (h : orMessage message x = .ok a) : x = .ok a := by
  cases x with
  | ok b => exact h
  | error e => cases h

/-- The change of the plan keeps every secret. -/
def KeepsSecrets (p : Plan) : Prop :=
  ∀ config, secrets (parseEnv (mergeEnv (parseEnv config) p.set p.unset)) = secrets (parseEnv config)

theorem setEnvironment_obeys (hkeeps : KeepsSecrets p) (source : Source) (ht : t ∈ p.targets)
    (hread : ReadSince s h t now) :
    Obeys (EditGuard p s) (setEnvironment source p t.node t.ctid) h := by
  have hput {config : Json} : EditGuard p s (⟨.get (configPath t) [], .ok config⟩ :: h)
      (.put (configPath t) [("env", mergeEnv (parseEnv (textOf config "env")) p.set p.unset),
        ("digest", textOf config "digest")]) :=
    .inr (.environment ht (hread.mono (List.suffix_cons _ _)) rfl rfl (hkeeps _))
  unfold setEnvironment
  split
  · exact obeys_pure ()
  · split
    · refine obeys_check fun _ _ => obeys_read (open_edit p s) (asks_request rfl) fun r t' hask =>
      obeys_check fun config hconfig => ?_
      obtain rfl := Ran.request hask
      obtain rfl := orMessage_ok hconfig
      refine obeys_check fun _ _ => obeys_check fun _ _ => ?_
      exact obeys_ask (open_edit p s) hput fun r => asks_bind asks_ofExcept fun _ => trivial
    · refine obeys_read (open_edit p s) (asks_request rfl) fun r t' hask =>
      obeys_check fun config hconfig => ?_
      obtain rfl := Ran.request hask
      obtain rfl := Removal.orElse_ok hconfig
      exact obeys_ask (open_edit p s) hput fun r => asks_bind asks_ofExcept fun _ => trivial

theorem power_obeys {I : History → Ask → Prop} (hI : Open I) {node action : Text} {ctid : Nat}
    (hpost : I h (.post (base node ctid ++ "/status/" ++ action))) : Obeys I (power node ctid action) h :=
  obeys_ask hI hpost fun _ => asks_bind asks_ofExcept fun _ => asks_bind asks_ofExcept fun _ => reads_task _ _

/-- A step that obeys, and what follows. -/
theorem obeys_then {I : History → Ask → Prop} {α β : Type} {x : Op β} {f : β → Op α} (hx : Obeys I x h)
    (hf : ∀ b t, h <:+ t → Obeys I (f b) t) : Obeys I (x >>= f) h := obeys_bind hx (fun _ _ ht => ht) hf

/-- The container restarts only for an environment that is another one, right after it was read. -/
theorem restart_obeys (source : Source) (site : Bool) (ht : t ∈ p.targets) {after : Instance}
    {earlier : History} (hread : ReadSince s earlier t now)
    (hafter : Ran (readOn t.node t.ctid) earlier after h) :
    Obeys (EditGuard p s) (restart source site t (after.environment ≠ now.environment && now.running)) h := by
  unfold restart
  split
  next hrestart =>
    rw [Bool.and_eq_true, decide_eq_true_eq] at hrestart
    have hreboot := Allowed.reboot ht hread hrestart.2 hafter hrestart.1
    refine obeys_then (power_obeys (open_edit p s) (.inr hreboot)) fun _ _ _ => ?_
    exact obeys_read (open_edit p s) (reads_ready _ _ _ _) fun _ _ _ => obeys_pure ()
  · exact obeys_pure ()

theorem editOne_obeys (hkeeps : KeepsSecrets p) (source : Source) (site : Bool) (lines : List Text)
    (ht : t ∈ p.targets) (hs : s <:+ h) :
    Obeys (EditGuard p s) (editOne source site p lines t) h := by
  unfold editOne
  refine obeys_read (open_edit p s) (reads_readOn _ _) fun now h₁ hrun => obeys_check fun _ hsame => ?_
  have hsame := Removal.refuse_ok hsame
  simp only [Bool.or_eq_false_iff, decide_eq_false_iff_not, not_not] at hsame
  have hread : ReadSince s h₁ t now := ⟨h, h₁, hs, hrun, List.suffix_refl _, hsame⟩
  refine obeys_then (grow_obeys ht hread (by simp)) fun _ h₂ hsuffix₂ => ?_
  have hread₂ := hread.mono hsuffix₂
  refine obeys_then (grow_obeys ht hread₂ (by simp)) fun _ h₃ hsuffix₃ => ?_
  have hread₃ := hread₂.mono hsuffix₃
  refine obeys_then (setLimits_obeys ht hread₃) fun _ h₄ hsuffix₄ => ?_
  have hread₄ := hread₃.mono hsuffix₄
  refine obeys_then (setEnvironment_obeys hkeeps source ht hread₄) fun _ h₅ hsuffix₅ => ?_
  refine obeys_read (open_edit p s) (reads_readOn _ _) fun after h₆ hafter => ?_
  exact obeys_then (restart_obeys source site ht (hread₄.mono hsuffix₅) hafter) fun _ _ _ => obeys_pure _

/-- An edit of the plan obeys. -/
theorem apply_edits (hkeeps : KeepsSecrets p) (hremove : p.remove = false) (source : Source) (site : Bool) :
    Obeys (fun h q => q.reads = true ∨ p.problems = [] ∧ EditGuard p s h q) (apply source p site) s := by
  have hopen : Open fun h q => q.reads = true ∨ p.problems = [] ∧ EditGuard p s h q := fun _ _ hq => .inl hq
  unfold apply
  refine obeys_check fun _ hproblems => obeys_check fun _ _ => ?_
  refine obeys_read hopen (reads_identifySites _ _ _) fun _ h₁ hidentify => obeys_check fun _ _ => ?_
  rw [hremove, if_neg Bool.false_ne_true]
  have hnone : p.problems = [] := by simpa using Removal.refuse_ok hproblems
  refine wpe_foldlM (J := fun _ _ t => h₁ <:+ t) (fun done t rest lines h₂ hsplit hsuffix => ?_)
    (List.suffix_refl _)
  have ht : t ∈ p.targets := by
    rw [hsplit]
    simp
  exact wpe_mono (wpe_guard (editOne_obeys hkeeps source site lines ht (hidentify.suffix.trans hsuffix)) fun _
    _ hq => .inr ⟨hnone, hq⟩)
    (fun _ _ ht => hsuffix.trans ht) fun _ _ hX => hX

end

/-! ## The plan of an edit -/

section

variable {pool repository service : Text} {choice : Choice} {p : Plan} {s : History}

theorem addChanges_same (p : Plan) (t : Instance) :
    (addChanges p t).set = p.set ∧ (addChanges p t).unset = p.unset ∧ (addChanges p t).remove = p.remove := by
  unfold addChanges
  dsimp only
  split <;> exact ⟨rfl, rfl, rfl⟩

theorem foldl_addChanges (p : Plan) (ts : List Instance) :
    (ts.foldl addChanges p).set = p.set ∧ (ts.foldl addChanges p).unset = p.unset ∧
    (ts.foldl addChanges p).remove = p.remove := by
  induction ts generalizing p with
  | nil => exact ⟨rfl, rfl, rfl⟩
  | cons t ts ih =>
    obtain ⟨hset, hunset, hremove⟩ := ih (addChanges p t)
    obtain ⟨hset', hunset', hremove'⟩ := addChanges_same p t
    exact ⟨hset.trans hset', hunset.trans hunset', hremove.trans hremove'⟩

/-- The review of a container that is to be removed is part of the history. -/
def FirstReviewed (pool : Text) (r : Reviewed) (h : History) : Prop :=
  ∃ asked earlier, asked ++ earlier <:+ h ∧ Authorised pool r.target.ctid r asked

theorem FirstReviewed.mono {r : Reviewed} {h t : History} (hr : FirstReviewed pool r h) (hsuffix : h <:+ t) :
    FirstReviewed pool r t := by
  obtain ⟨asked, earlier, hin, hauthorised⟩ := hr
  exact ⟨asked, earlier, hin.trans hsuffix, hauthorised⟩

/-- Taking up a container adds its review, when it is to be removed. -/
theorem addTarget_ran {p p' : Plan} {ctid : Nat} {h t : History}
    (hr : Ran (addTarget pool repository service choice p ctid) h p' t) :
    p'.remove = p.remove ∧ ∀ r ∈ p'.removals, r ∈ p.removals ∨ FirstReviewed pool r t := by
  unfold addTarget at hr
  split at hr
  · obtain ⟨rfl, -⟩ := Ran.pure hr
    exact ⟨rfl, fun r hm => .inl hm⟩
  · obtain ⟨⟨p₁, target⟩, t₁, hfound, hr⟩ := Ran.bind hr
    have hfirst : p₁.remove = p.remove ∧ ∀ r ∈ p₁.removals, r ∈ p.removals ∨ FirstReviewed pool r t₁ := by
      split at hfound
      · obtain ⟨_, _, -, hfound⟩ := Ran.bind hfound
        obtain ⟨heq, -⟩ := Ran.pure hfound
        cases heq
        exact ⟨rfl, fun r hm => .inl hm⟩
      · obtain ⟨result, t₂, hattempt, hfound⟩ := Ran.bind hfound
        cases result with
        | error e =>
          obtain ⟨heq, -⟩ := Ran.pure hfound
          cases heq
          exact ⟨rfl, fun r hm => .inl hm⟩
        | ok reviewed =>
          obtain ⟨heq, rfl⟩ := Ran.pure hfound
          cases heq
          obtain ⟨asked, rfl, hauthorised⟩ :=
            Removal.review_ran (show Ran _ h reviewed _ from hattempt.attempt)
          refine ⟨rfl, fun r hm => ?_⟩
          rcases List.mem_append.mp hm with hm | hm
          · exact .inl hm
          · rw [List.mem_singleton.mp hm]
            refine .inr ⟨asked, h, List.suffix_refl _, ?_⟩
            rw [hauthorised.target.1]
            exact hauthorised
    cases target with
    | error e =>
      obtain ⟨rfl, rfl⟩ := Ran.pure hr
      exact hfirst
    | ok target =>
      dsimp only at hr
      split at hr
      · obtain ⟨rfl, rfl⟩ := Ran.pure hr
        exact hfirst
      · obtain ⟨rfl, rfl⟩ := Ran.pure hr
        exact hfirst

/-- The selection, taken up. -/
theorem targets_ran {start : Plan} {h : History}
    (hr : Ran (choice.ctids.foldlM (addTarget pool repository service choice) start) h p s)
    (hstart : start.removals = []) : p.remove = start.remove ∧ ∀ r ∈ p.removals, FirstReviewed pool r s := by
  refine Ran.foldlM (I := fun _ p t => p.remove = start.remove ∧
    ∀ r ∈ p.removals, FirstReviewed pool r t) ?_ ?_ hr
  · rintro done ctid p₁ h₁ p₂ t ⟨hremove, hall⟩ hstep
    obtain ⟨hsame, hnew⟩ := addTarget_ran hstep
    refine ⟨hsame.trans hremove, fun r hm => ?_⟩
    exact (hnew r hm).elim (fun hm => (hall r hm).mono hstep.suffix) id
  · rw [hstart]
    exact ⟨rfl, nofun⟩

theorem planLimits_remove (choice : Choice) (p : Plan) :
    (planLimits choice (planSizes choice p)).remove = p.remove := by
  unfold planLimits planSizes
  repeat' split
  all_goals rfl

theorem plan_edit (hr : Ran (plan pool repository service choice) [] p s)
    (hedit : Text.trim choice.remove = []) :
    p.remove = false ∧ p.set = (change choice.shownEnvironment choice.environment).set ∧
      p.unset = (change choice.shownEnvironment choice.environment).unset := by
  obtain ⟨p₁, s₁, htargets, hr⟩ := Ran.bind hr
  rw [if_neg (not_not.mpr hedit)] at hr
  obtain ⟨rfl, -⟩ := Ran.pure hr
  have hremove := (targets_ran htargets (by split <;> rfl)).1
  obtain ⟨hset, hunset, hsame⟩ :=
    foldl_addChanges (planEnvironment choice (planLimits choice (planSizes choice p₁)))
    (planEnvironment choice (planLimits choice (planSizes choice p₁))).targets
  refine ⟨?_, hset, hunset⟩
  rw [hsame, show (planEnvironment choice (planLimits choice (planSizes choice p₁))).remove = p₁.remove from
    planLimits_remove choice p₁, hremove]
  split <;> rfl

/-- A change typed without NUL keeps every secret. -/
theorem plan_keepsSecrets (hr : Ran (plan pool repository service choice) [] p s)
    (hedit : Text.trim choice.remove = []) (hnul : nul ∉ choice.environment) : KeepsSecrets p := by
  obtain ⟨-, hset, hunset⟩ := plan_edit hr hedit
  intro config
  rw [hset, hunset]
  exact ServiceEnvironment.secrets_kept config choice.shownEnvironment choice.environment hnul

end

/-- What an edit asks, in any run with any answers, stopped anywhere: it reads, or a plan without
problems was made before it and allows it. A disk only grows, from what was read to the plan's size; the
limits are the plan's; the environment is written under the digest it was read with, all its secrets
kept; a container restarts only when it was just read with another environment. -/
theorem edits_allowed {pool : Text} {source : Source} {choice : Choice} {site : Bool}
    {o : Option (Except Text (List Text))} {after before : History} {e : Event Ask Removal.Ask.Answer}
    (hedit : Text.trim choice.remove = []) (hnul : nul ∉ choice.environment)
    (hrun : Exec anything (session pool source choice site).run [] o (after ++ e :: before)) :
    e.q.reads = true ∨ ∃ p s, Ran (plan pool source.repository source.manifest.id choice) [] p s ∧
      p.problems = [] ∧
      Allowed p s before e.q := by
  have hobeys : Obeys (fun h q => q.reads = true ∨
      ∃ p s, Ran (plan pool source.repository source.manifest.id choice) [] p s ∧
      p.problems = [] ∧ Allowed p s h q) (session pool source choice site) [] := by
    refine obeys_read (fun _ _ hq => .inl hq) (reads_plan _ _ _ _) fun p s hplan => ?_
    refine wpe_guard (apply_edits (plan_keepsSecrets hplan hedit hnul)
      (plan_edit hplan hedit).1 source site) fun h q hq => ?_
    rcases hq with hq | ⟨hproblems, hq | hq⟩
    · exact .inl hq
    · exact .inl hq
    · exact .inr ⟨p, s, hplan, hproblems, hq⟩
  obtain ⟨new, hnew, hguarded⟩ := wp_guarded hobeys hrun
  rw [List.append_nil] at hnew
  subst hnew
  have hat := hguarded.at
  rwa [List.append_nil] at hat

/-! ## A stateless service -/

def webDescription : Text :=
  "HomeStack service web\nrepository owner/web\nimage web:1\ndigest sha256:0\nmade by homestack"

def webConfig : Json :=
  .obj [("description", .str webDescription), ("hostname", .str "web"),
    ("rootfs", .str "local:1002/root,size=1G"),
    ("net0", .str "name=eth0,hwaddr=BC:24:11:00:00:01"), ("env", .str "LOG=info\x00DB_PASSWORD=x"),
      ("digest", .str "d0"),
    ("unprivileged", .int 1)]

def webGuest : Json := .obj [("vmid", .int 1002), ("type", .str "lxc"), ("node", .str "pve1"),
  ("pool", .str "services")]

/-- What a cluster with the stopped container answers. -/
def webAnswer (path : Text) : Json :=
  if path = Removal.resourcesPath ∨ path = Removal.containersPath "pve1" then .arr [webGuest]
  else if path = Removal.poolPath "services" then .obj [("members", .arr [webGuest])]
  else if path = base "pve1" 1002 ++ "/config" then webConfig
  else if path = base "pve1" 1002 ++ "/status/current" then
    .obj [("status", .str "stopped"), ("ha", .obj [("managed", .int 0)])]
  else if path = base "pve1" 1002 ++ "/snapshot" then .arr [.obj [("name", .str "current")]]
  else if path = "/storage".toList then .arr [.obj [("storage", .str "local"), ("content", .str "rootdir")]]
  else if path = "/nodes/pve1/storage/local/status".toList then .obj [("active", .int 1), ("enabled", .int 1)]
  else if path = Removal.contentPath "pve1" "local" then
    .arr [.obj [("volid", .str "local:1002/root"), ("vmid", .int 1002), ("format", .str "raw")]]
  else .arr []

def webReply : (q : Ask) → q.Answer
  | .get path _ => .ok (webAnswer path)
  | .put .. => .ok .null
  | .post .. => .ok .null
  | .delete .. => .ok .null
  | .task .. => .error []
  | .site .. => .error []
  | .healthy .. => .error []

def webStep (h : History) (q : Ask) : q.Answer × History := (webReply q, ⟨q, webReply q⟩ :: h)

def webChoice : Choice where
  ctids := [1002]
  cores := []
  memoryMib := []
  rootMib := "2G"
  homeMib := []
  environment := "LOG=debug"
  shownEnvironment := "LOG=info"
  remove := []

/-- A question of a session with the container. -/
theorem web_asks (choice : Choice) (q : Ask)
    (h : ((session "services" Deploy.webSource choice false).run.play webStep []).2.any
      (fun e => e.q = q) = true) :
    ∃ o after e before, Exec anything (session "services" Deploy.webSource choice false).run [] o
      (after ++ e :: before) ∧ e.q = q := by
  obtain ⟨e, he, hq⟩ := List.any_eq_true.mp h
  obtain ⟨after, before, hsplit⟩ := List.append_of_mem he
  have hrun := Prog.exec_play (E := anything) (g := webStep) (fun _ _ => rfl)
    (session "services" Deploy.webSource choice false).run []
  rw [hsplit] at hrun
  exact ⟨_, after, e, before, hrun, of_decide_eq_true hq⟩

def webResize : Ask := .put (base "pve1" 1002 ++ "/resize") [("disk", "rootfs"), ("size", "2G")]

/-- The root grows. -/
theorem edits_allowed_web :
    ∃ p s before, Ran (plan "services" Deploy.webSource.repository Deploy.webSource.manifest.id webChoice)
    [] p s ∧ p.problems = [] ∧ Allowed p s before webResize := by
  obtain ⟨o, after, e, before, hrun, hq⟩ := web_asks webChoice webResize (by decide +kernel)
  rcases edits_allowed (by decide) (by decide) hrun with hreads | ⟨p, s, hplan, hproblems, hallowed⟩
  · rw [hq] at hreads
    cases hreads
  · exact ⟨p, s, before, hplan, hproblems, hq ▸ hallowed⟩

/-! ## What a removal may ask -/

/-- Since `s`, and just before, with nothing in between, the container was reviewed again: it is as it
was reviewed. -/
def JustReviewed (r : Reviewed) (stopped : Bool) (s h : History) : Prop :=
  ∃ current asked earlier, h = asked ++ earlier ∧ s <:+ earlier ∧
    Authorised r.target.pool r.target.ctid current asked ∧
    Agree r current stopped

/-- Since `s`, and before anything but reads, every container of the selection was reviewed again. -/
def AllReviewed (p : Plan) (s h : History) : Prop :=
  ∃ asked, asked ++ s <:+ h ∧ (∀ e ∈ asked, e.q.reads = true) ∧
    ∀ r ∈ p.removals, ∃ now, now <:+ asked ++ s ∧ JustReviewed r false s now

theorem AllReviewed.mono {p : Plan} {s h t : History} (ha : AllReviewed p s h) (hsuffix : h <:+ t) :
    AllReviewed p s t :=
  ha.imp fun _ hn => ⟨hn.1.trans hsuffix, hn.2⟩

/-- What a removal by the plan, whose log is `s`, asks of a container of the selection, besides what
only reads: never before the whole selection was reviewed again, and each time right after one more
review of that container. -/
inductive Taken (p : Plan) (s h : History) : Ask → Prop
  | site {r : Reviewed} : r ∈ p.removals → AllReviewed p s h → JustReviewed r false s h →
      Taken p s h (.site .remove r.target.ctid)
  | stop {r : Reviewed} : r ∈ p.removals → AllReviewed p s h → JustReviewed r false s h →
    Taken p s h (.post (base r.target.node r.target.ctid ++ "/status/" ++ "stop"))
  /-- It is stopped now; volumes that are not its own are left alone. -/
  | delete {r : Reviewed} : r ∈ p.removals → AllReviewed p s h → JustReviewed r true s h →
    Taken p s h (.delete (base r.target.node r.target.ctid) deleteParams)

section

variable {p : Plan} {s h : History} {r : Reviewed}

end

section

variable {pool repository service : Text} {choice : Choice} {p : Plan} {s : History}

end

end HomeStack.ServiceLifecycle

import HomeStack.Lib.Exclusive
import HomeStack.Lib.Percent
import HomeStack.Operations

/-! One job per VM and per plan: what holds in every state of `operations.rs`,
whatever the order of its steps. -/

namespace HomeStack.Operations

/-! ## What the helpers keep -/

theorem mem_middle {xs ys : List ApplyCall} {a c : ApplyCall} : c ∈ xs ++ a :: ys ↔ c = a ∨ c ∈ xs ++ ys := by
  simp only [List.mem_append, List.mem_cons]
  tauto

theorem Inner.lock_plans {now : Nat} {inner : Inner} {id : Text} {stored : StoredPlan}
    (h : (inner.lock now).plans[id]? = some stored) : inner.plans[id]? = some stored := by
  simp only [Inner.lock, Std.ExtTreeMap.getElem?_filter, Option.pfilter_eq_some_iff] at h
  obtain ⟨h, -⟩ := h
  exact h

theorem admission_ok {inner inner' : Inner} {req : Request} {stored : StoredPlan}
    (h : admission inner req = .ok (inner', stored)) :
    inner.plans[req.id]? = some stored ∧ stored.plan.digest = req.clientDigest ∧
      stored.configVersion = req.configVersion ∧ Disjoint inner.busy stored.plan.targets.toFinset ∧
      inner' = { inner with busy := inner.busy ∪ stored.plan.targets.toFinset } := by
  unfold admission at h
  split at h
  · cases h
  split at h
  · cases h
  next found hfound =>
    split at h
    · cases h
    next hdigest =>
      split at h
      · cases h
      next hversion =>
        split at h
        · cases h
        split at h
        · cases h
        split at h
        · cases h
        next hbusy =>
          cases h
          refine ⟨hfound, by simpa using hdigest, by simpa using hversion, ?_, rfl⟩
          rw [Finset.disjoint_right]
          intro v hv hb
          apply hbusy
          simp only [List.any_eq_true, decide_eq_true_eq]
          exact ⟨v, by simpa using hv, hb⟩

theorem trimJobs_go_sublist (retained : Nat) (finished : Nat) (jobs : List Job) :
    (trimJobs.go retained finished jobs).Sublist jobs := by
  induction jobs generalizing finished with
  | nil => exact List.Sublist.refl _
  | cons job rest ih =>
    simp only [trimJobs.go]
    split
    · exact (ih _).cons_cons _
    split
    · exact (ih _).cons_cons _
    · exact (ih _).cons _

theorem trimJobs_sublist (retained : Nat) (jobs : List Job) : (trimJobs retained jobs).Sublist jobs :=
  trimJobs_go_sublist retained 0 jobs

/-- No active job is trimmed. -/
theorem mem_trimJobs {retained : Nat} {jobs : List Job} {job : Job} (hm : job ∈ jobs)
    (ha : job.state.finished = false) : job ∈ trimJobs retained jobs := by
  unfold trimJobs
  generalize 0 = finished
  induction jobs generalizing finished with
  | nil => cases hm
  | cons first rest ih =>
    simp only [trimJobs.go]
    rcases List.mem_cons.mp hm with rfl | hm
    · simp [ha]
    split
    · exact List.mem_cons_of_mem _ (ih hm _)
    split
    · exact List.mem_cons_of_mem _ (ih hm _)
    · exact ih hm _

/-- What a job is known by. -/
def Job.key (job : Job) : Text × Text := (job.planId, job.id)

theorem setJobState_keys (jobs : List Job) (id : Text) (state : JobState) :
    (setJobState jobs id state).map Job.key = jobs.map Job.key := by
  simp only [setJobState, List.map_map]
  apply List.map_congr_left
  intro job _
  simp only [Function.comp_apply]
  split <;> rfl

theorem mem_setJobState {jobs : List Job} {id : Text} {state : JobState} {job : Job}
    (h : job ∈ setJobState jobs id state) :
    (job.id = id ∧ job.state = state) ∨ (job.id ≠ id ∧ job ∈ jobs) := by
  obtain ⟨old, hold, rfl⟩ := List.mem_map.mp h
  split
  next heq => exact Or.inl ⟨heq, rfl⟩
  next hne => exact Or.inr ⟨hne, hold⟩

theorem setJobState_other {jobs : List Job} {id : Text} {state : JobState} {job : Job}
    (hm : job ∈ jobs) (hne : job.id ≠ id) : job ∈ setJobState jobs id state :=
  List.mem_map.mpr ⟨job, hm, by rw [if_neg hne]⟩

/-! ## Targets and permits -/

/-- The VMs an apply holds. -/
def ApplyCall.held (c : ApplyCall) : Finset Nat :=
  match c.stage.stored with
  | none => ∅
  | some stored => stored.plan.targets.toFinset

/-- Targets are held by one apply each and every apply has a permit. -/
structure Held (s : State) : Prop where
  exclusive : Exclusive (s.calls.map ApplyCall.held) s.inner.busy
  permits : s.free + s.calls.length = maxConcurrentJobs

theorem Held.init : Held .init := ⟨Exclusive.nil, rfl⟩

/-- An apply goes on and keeps what it holds. -/
theorem Held.advance {s t : State} {xs ys : List ApplyCall} {c c' : ApplyCall} (hs : Held s)
    (hc : s.calls = xs ++ c :: ys) (hc' : t.calls = xs ++ c' :: ys) (hheld : c'.held = c.held)
    (hbusy : t.inner.busy = s.inner.busy) (hfree : t.free = s.free) : Held t := by
  constructor
  · have h := hs.exclusive
    rw [hc, List.map_append, List.map_cons, ← hheld] at h
    rw [hc', hbusy, List.map_append, List.map_cons]
    exact h
  · have h := hs.permits
    rw [hc] at h
    rw [hc', hfree]
    simpa using h

theorem Held.drop {s : State} {xs ys : List ApplyCall} {c : ApplyCall} {retained : Nat}
    {targets : List Nat} (hs : Held s) (hc : s.calls = xs ++ c :: ys) (hheld : c.held = targets.toFinset) :
    Held (s.drop retained xs ys targets) := by
  constructor
  · have h := hs.exclusive
    rw [hc, List.map_append, List.map_cons, hheld] at h
    have h' := h.release
    rw [← List.map_append] at h'
    exact h'
  · have h := hs.permits
    rw [hc] at h
    simp only [List.length_append, List.length_cons] at h
    simp only [State.drop, List.length_append]
    omega

section Codec

variable {B : Base64} {S : Serde Lease} {ttl retained : Nat} {s t : State}

theorem Held.step (hs : Held s) (h : Step B S ttl retained s t) : Held t := by
  cases h with
  | tick => exact ⟨hs.exclusive, hs.permits⟩
  | look => exact ⟨hs.exclusive, hs.permits⟩
  | plan => exact ⟨hs.exclusive, hs.permits⟩
  | enter req hfree =>
    refine ⟨hs.exclusive.cons_empty, ?_⟩
    have := hs.permits
    simp only [List.length_cons]
    omega
  | admitted xs ys req inner stored hc ha =>
    obtain ⟨-, -, -, hd, rfl⟩ := admission_ok ha
    constructor
    · have h := hs.exclusive
      rw [hc, List.map_append, List.map_cons] at h
      simp only [List.map_append, List.map_cons]
      exact h.acquire hd
    · have h := hs.permits
      rw [hc] at h
      simpa using h
  | refuse xs ys req refusal hc =>
    constructor
    · have h := hs.exclusive
      rw [hc, List.map_append, List.map_cons] at h
      have h' := h.release
      rw [← List.map_append] at h'
      have he : ApplyCall.held ⟨req, .entering⟩ = ∅ := rfl
      rw [he, Finset.sdiff_empty] at h'
      exact h'
    · have h := hs.permits
      rw [hc] at h
      simp only [List.length_append, List.length_cons] at h
      simp only [List.length_append]
      omega
  | replan xs ys req stored planned job hc => exact hs.advance hc rfl rfl rfl rfl
  | create xs ys req stored replanned planned job hc => exact hs.advance hc rfl rfl rfl rfl
  | start xs ys req stored replanned planned job hc => exact hs.advance hc rfl rfl rfl rfl
  | finish xs ys req stored job state hc => exact hs.advance hc rfl rfl rfl rfl
  | dropPlanning xs ys req stored hc => exact hs.drop hc rfl
  | dropLeasing xs ys req stored planned job hc => exact hs.drop hc rfl
  | dropFinishing xs ys req stored job hc => exact hs.drop hc rfl

theorem Reachable.held (h : Reachable B S ttl retained s) : Held s := by
  induction h with
  | init => exact Held.init
  | step _ hstep ih => exact ih.step hstep

end Codec

/-! ## Plans -/

/-- A digest of the plan made again, taken under the request's configuration
version, is that of the stored plan. -/
def Digested (req : Request) (stored : StoredPlan) (replanned : Planned) : Prop :=
  digest stored.plan.operation stored.parameters req.configVersion replanned = stored.plan.digest

/-- The plan of an apply that has no job yet. -/
def Stage.pending : Stage → Option StoredPlan
  | planning s | leasing s _ _ => some s
  | _ => none

/-- What an admitted apply was admitted with. -/
structure ApplyCall.Matches (made : List Plan) (c : ApplyCall) (stored : StoredPlan) : Prop where
  made : stored.plan ∈ made
  id : stored.plan.id = c.req.id
  digest : stored.plan.digest = c.req.clientDigest
  version : stored.configVersion = c.req.configVersion

/-- Every plan comes from `plan` and leaves with its one job. -/
structure Once (s : State) : Prop where
  ids : (s.made.map Plan.id).Nodup
  targets : ∀ p ∈ s.made, p.targets ≠ []
  plans : ∀ {id : Text} {stored : StoredPlan}, s.inner.plans[id]? = some stored →
    stored.plan ∈ s.made ∧ stored.plan.id = id ∧ id ∉ s.created.map Prod.fst
  calls : ∀ c ∈ s.calls, ∀ stored ∈ c.stage.stored, c.Matches s.made stored
  pending : ∀ c ∈ s.calls, ∀ stored ∈ c.stage.pending, stored.plan.id ∉ s.created.map Prod.fst
  created : ∀ e ∈ s.created, e.1 ∈ s.made.map Plan.id
  once : (s.created.map Prod.fst).Nodup

theorem Once.init : Once .init where
  ids := List.nodup_nil
  targets := by simp [State.init]
  plans := by
    intro id stored h
    simp [State.init] at h
  calls := by simp [State.init]
  pending := by simp [State.init]
  created := by simp [State.init]
  once := List.nodup_nil

/-- An apply that holds nothing, or was there with the same plan. -/
def ApplyCall.Continues (calls : List ApplyCall) (c : ApplyCall) : Prop :=
  c.stage.stored = none ∧ c.stage.pending = none ∨
    ∃ c₀ ∈ calls, c.req = c₀.req ∧ c.stage.stored = c₀.stage.stored ∧
      (c.stage.pending = none ∨ c.stage.pending = c₀.stage.pending)

/-- Nothing is made or created, no plan is added and every call continues. -/
theorem Once.advance {s t : State} (hs : Once s) (hmade : t.made = s.made) (hcreated : t.created = s.created)
    (hplans : ∀ {id : Text} {stored : StoredPlan}, t.inner.plans[id]? = some stored →
      s.inner.plans[id]? = some stored)
    (hcalls : ∀ c ∈ t.calls, c.Continues s.calls) : Once t where
  ids := by rw [hmade]; exact hs.ids
  targets := by rw [hmade]; exact hs.targets
  plans := by
    intro id stored h
    rw [hmade, hcreated]
    exact hs.plans (hplans h)
  calls := by
    intro c hc stored hst
    rw [hmade]
    rcases hcalls c hc with ⟨hn, -⟩ | ⟨c₀, hc₀, hreq, hsame, -⟩
    · rw [hn] at hst
      cases hst
    · rw [hsame] at hst
      have h := hs.calls c₀ hc₀ stored hst
      exact ⟨h.made, h.id.trans (by rw [hreq]), h.digest.trans (by rw [hreq]), h.version.trans (by rw [hreq])⟩
  pending := by
    intro c hc stored hst
    rw [hcreated]
    rcases hcalls c hc with ⟨-, hn⟩ | ⟨c₀, hc₀, -, -, hn | hsame⟩
    · rw [hn] at hst
      cases hst
    · rw [hn] at hst
      cases hst
    · rw [hsame] at hst
      exact hs.pending c₀ hc₀ stored hst
  created := by rw [hmade, hcreated]; exact hs.created
  once := by rw [hcreated]; exact hs.once

/-- A call that stays. -/
theorem call_stays {s : State} {c : ApplyCall} (h : c ∈ s.calls) : c.Continues s.calls :=
  Or.inr ⟨c, h, rfl, rfl, Or.inr rfl⟩

/-- One call goes on, the others stay. -/
theorem calls_advance {s : State} {xs ys : List ApplyCall} {a b : ApplyCall} (hc : s.calls = xs ++ a :: ys)
    (hreq : b.req = a.req) (hstored : b.stage.stored = a.stage.stored)
    (hpending : b.stage.pending = none ∨ b.stage.pending = a.stage.pending) :
    ∀ c ∈ xs ++ b :: ys, c.Continues s.calls := by
  intro c hm
  rcases mem_middle.1 hm with rfl | hm
  · exact Or.inr ⟨a, by simp [hc], hreq, hstored, hpending⟩
  · exact call_stays (by rw [hc]; exact mem_middle.2 (Or.inr hm))

/-- One call leaves. -/
theorem calls_drop {s : State} {xs ys : List ApplyCall} {a : ApplyCall} (hc : s.calls = xs ++ a :: ys) :
    ∀ c ∈ xs ++ ys, c.Continues s.calls := by
  intro c hm
  exact call_stays (by rw [hc]; exact mem_middle.2 (Or.inr hm))

/-- Two plans of one id are one plan. -/
theorem Once.plan_eq {s : State} (hs : Once s) {p q : Plan} (hp : p ∈ s.made) (hq : q ∈ s.made)
    (h : p.id = q.id) : p = q :=
  List.inj_on_of_nodup_map hs.ids hp hq h

section Codec

variable {B : Base64} {S : Serde Lease} {ttl retained : Nat} {s t : State}

theorem Once.plan_step (hs : Once s) {id operation : Text} {parameters : Json} {version : Option Text}
    {planned : Planned} (hne : planned.targets ≠ []) (hid : id ∉ s.made.map Plan.id)
    {stored : StoredPlan}
    (hstored : stored.plan = ⟨id, operation, digest operation parameters version planned, planned.targets,
      planned.summary⟩) :
    Once
      { s with
        inner := { s.inner.lock s.now with plans := (s.inner.lock s.now).plans.insert id stored }
        made := stored.plan :: s.made } where
  ids := by
    simp only [List.map_cons, List.nodup_cons]
    exact ⟨by rw [hstored]; exact hid, hs.ids⟩
  targets := by
    intro p hp
    rcases List.mem_cons.mp hp with rfl | hp
    · rw [hstored]
      exact hne
    · exact hs.targets p hp
  plans := by
    intro k st h
    simp only [Std.ExtTreeMap.getElem?_insert, Std.compare_eq_iff_eq] at h
    split at h
    next heq =>
      cases h
      subst heq
      refine ⟨List.mem_cons_self, by rw [hstored], fun hm => ?_⟩
      obtain ⟨e, he, rfl⟩ := List.mem_map.mp hm
      exact hid (hs.created e he)
    next =>
      obtain ⟨hm, hk, hn⟩ := hs.plans (Inner.lock_plans h)
      exact ⟨List.mem_cons_of_mem _ hm, hk, hn⟩
  calls := by
    intro c hc st hst
    have h := hs.calls c hc st hst
    exact ⟨List.mem_cons_of_mem _ h.made, h.id, h.digest, h.version⟩
  pending := hs.pending
  created := by
    intro e he
    exact List.mem_cons_of_mem _ (hs.created e he)
  once := hs.once

theorem Once.admission_step (hs : Once s) {xs ys : List ApplyCall} {req : Request} {inner : Inner}
    {stored : StoredPlan} (hc : s.calls = xs ++ ⟨req, .entering⟩ :: ys)
    (ha : admission (s.inner.lock s.now) req = .ok (inner, stored)) :
    Once { s with inner := inner, calls := xs ++ ⟨req, .planning stored⟩ :: ys } := by
  obtain ⟨hget, hdigest, hversion, -, rfl⟩ := admission_ok ha
  obtain ⟨hmade, hid, hfresh⟩ := hs.plans (Inner.lock_plans hget)
  have hsub : ∀ c ∈ xs ++ ys, c ∈ s.calls := by
    intro c hm
    rw [hc]
    exact mem_middle.2 (Or.inr hm)
  refine ⟨hs.ids, hs.targets, fun h => hs.plans (Inner.lock_plans h), ?_, ?_, hs.created, hs.once⟩
  · intro c hm st hst
    rcases mem_middle.1 hm with rfl | hm
    · cases hst
      exact ⟨hmade, hid, hdigest, hversion⟩
    · exact hs.calls c (hsub c hm) st hst
  · intro c hm st hst
    rcases mem_middle.1 hm with rfl | hm
    · cases hst
      rw [hid]
      exact hfresh
    · exact hs.pending c (hsub c hm) st hst

/-- No other apply waits for a job of the same plan: it would hold the same VMs. -/
theorem Once.pending_other (hs : Once s) (hh : Held s) {xs ys : List ApplyCall} {c d : ApplyCall}
    {p q : StoredPlan} (hc : s.calls = xs ++ c :: ys) (hp : p ∈ c.stage.stored) (hd : d ∈ xs ++ ys)
    (hq : q ∈ d.stage.stored) : q.plan.id ≠ p.plan.id := by
  intro heq
  have hcm : c ∈ s.calls := by simp [hc]
  have hdm : d ∈ s.calls := by
    rw [hc]
    exact mem_middle.2 (Or.inr hd)
  have hpm := (hs.calls c hcm p hp).made
  have hsame : q.plan = p.plan := hs.plan_eq (hs.calls d hdm q hq).made hpm heq
  have hx := hh.exclusive
  rw [hc, List.map_append, List.map_cons] at hx
  have hdisj := hx.disjoint_middle d.held (by rw [← List.map_append]; exact List.mem_map_of_mem hd)
  have hch : c.held = p.plan.targets.toFinset := by
    rw [ApplyCall.held, Option.mem_def.mp hp]
  have hdh : d.held = p.plan.targets.toFinset := by
    rw [ApplyCall.held, Option.mem_def.mp hq, ← hsame]
  rw [hch, hdh, disjoint_self, Finset.bot_eq_empty, List.toFinset_eq_empty_iff] at hdisj
  exact hs.targets p.plan hpm hdisj

theorem Once.create_step (hs : Once s) (hh : Held s) {xs ys : List ApplyCall} {req : Request}
    {stored : StoredPlan} {replanned planned : Planned} {job : Text} {made : Job}
    (hc : s.calls = xs ++ ⟨req, .leasing stored replanned job⟩ :: ys) :
    Once
      { s with
        inner := createJob retained (s.inner.lock s.now) req.id made
        calls := xs ++ ⟨req, .queued stored replanned planned job⟩ :: ys
        created := (stored.plan.id, job) :: s.created } := by
  have hmem : (⟨req, .leasing stored replanned job⟩ : ApplyCall) ∈ s.calls := by simp [hc]
  have hmatch := hs.calls _ hmem stored rfl
  have hfresh := hs.pending _ hmem stored rfl
  have hsub : ∀ c ∈ xs ++ ys, c ∈ s.calls := by
    intro c hm
    rw [hc]
    exact mem_middle.2 (Or.inr hm)
  refine ⟨hs.ids, hs.targets, ?_, ?_, ?_, ?_, ?_⟩
  · intro id st h
    simp only [createJob, Std.ExtTreeMap.getElem?_erase, Std.compare_eq_iff_eq] at h
    split at h
    · cases h
    next hne =>
      obtain ⟨hm, hid, hn⟩ := hs.plans (Inner.lock_plans h)
      refine ⟨hm, hid, fun hcr => ?_⟩
      rcases List.mem_cons.mp hcr with rfl | hcr
      · exact hne hmatch.id.symm
      · exact hn hcr
  · intro c hm st hst
    rcases mem_middle.1 hm with rfl | hm
    · cases hst
      exact ⟨hmatch.made, hmatch.id, hmatch.digest, hmatch.version⟩
    · exact hs.calls c (hsub c hm) st hst
  · intro c hm st hst hcr
    rcases mem_middle.1 hm with rfl | hm
    · cases hst
    · have hstored : st ∈ c.stage.stored := by
        revert hst
        cases c.stage <;> simp [Stage.pending, Stage.stored]
      rcases List.mem_cons.mp hcr with heq | hcr
      · exact hs.pending_other hh hc rfl hm hstored heq
      · exact hs.pending c (hsub c hm) st hst hcr
  · intro e he
    rcases List.mem_cons.mp he with rfl | he
    · exact List.mem_map_of_mem hmatch.made
    · exact hs.created e he
  · exact List.nodup_cons.mpr ⟨hfresh, hs.once⟩

theorem Once.step (hs : Once s) (hh : Held s) (h : Step B S ttl retained s t) : Once t := by
  have hlock : ∀ {id : Text} {stored : StoredPlan}, (s.inner.lock s.now).plans[id]? = some stored →
      s.inner.plans[id]? = some stored := Inner.lock_plans
  cases h with
  | tick => exact hs.advance rfl rfl id fun c hc => call_stays hc
  | look => exact hs.advance rfl rfl hlock fun c hc => call_stays hc
  | plan id operation parameters version planned hne hid => exact hs.plan_step hne hid rfl
  | enter req =>
    refine hs.advance rfl rfl id fun c hc => ?_
    rcases List.mem_cons.mp hc with rfl | hc
    · exact Or.inl ⟨rfl, rfl⟩
    · exact call_stays hc
  | admitted xs ys req inner stored hc ha => exact hs.admission_step hc ha
  | refuse xs ys req refusal hc => exact hs.advance rfl rfl hlock (calls_drop hc)
  | replan xs ys req stored planned job hc =>
    exact hs.advance rfl rfl id (calls_advance hc rfl rfl (Or.inr rfl))
  | create xs ys req stored replanned planned job hc => exact hs.create_step hh hc
  | start xs ys req stored replanned planned job hc =>
    exact hs.advance rfl rfl id (calls_advance hc rfl rfl (Or.inl rfl))
  | finish xs ys req stored job state hc =>
    exact hs.advance rfl rfl id (calls_advance hc rfl rfl (Or.inl rfl))
  | dropPlanning xs ys req stored hc => exact hs.advance rfl rfl hlock (calls_drop hc)
  | dropLeasing xs ys req stored planned job hc => exact hs.advance rfl rfl hlock (calls_drop hc)
  | dropFinishing xs ys req stored job hc => exact hs.advance rfl rfl hlock (calls_drop hc)

theorem Reachable.once (h : Reachable B S ttl retained s) : Once s := by
  induction h with
  | init => exact Once.init
  | step hs hstep ih => exact ih.step hs.held hstep

end Codec

/-! ## Jobs -/

def activeJobs (calls : List ApplyCall) : List Text := calls.filterMap fun c => c.stage.activeJob

theorem mem_activeJobs {calls : List ApplyCall} {job : Text} :
    job ∈ activeJobs calls ↔ ∃ c ∈ calls, c.stage.activeJob = some job := List.mem_filterMap

theorem activeJobs_none {xs ys : List ApplyCall} {a : ApplyCall} (ha : a.stage.activeJob = none) :
    activeJobs (xs ++ a :: ys) = activeJobs (xs ++ ys) := by
  simp [activeJobs, List.filterMap_append, ha]

theorem activeJobs_some {xs ys : List ApplyCall} {a : ApplyCall} {job : Text}
    (ha : a.stage.activeJob = some job) :
    (activeJobs (xs ++ a :: ys)).Nodup ↔ job ∉ activeJobs (xs ++ ys) ∧ (activeJobs (xs ++ ys)).Nodup := by
  have h : activeJobs (xs ++ a :: ys) = activeJobs xs ++ job :: activeJobs ys := by
    simp [activeJobs, List.filterMap_append, ha]
  rw [h, List.nodup_middle, List.nodup_cons]
  simp [activeJobs, List.filterMap_append]

/-- The kept jobs are created ones and the unfinished of them are those of the
applies that run one. -/
structure JobsKept (s : State) : Prop where
  kept : (s.inner.jobs.map Job.key).Sublist s.created
  ids : (s.created.map Prod.snd).Nodup
  active : (activeJobs s.calls).Nodup
  created : ∀ c ∈ s.calls, ∀ id ∈ c.stage.activeJob, ∀ stored ∈ c.stage.stored,
    (stored.plan.id, id) ∈ s.created
  running : ∀ job ∈ s.inner.jobs, job.state.finished = false → ∃ c ∈ s.calls, c.stage.activeJob = some job.id
  unfinished : ∀ c ∈ s.calls, ∀ id ∈ c.stage.activeJob,
    ∃ job ∈ s.inner.jobs, job.id = id ∧ job.state.finished = false

theorem JobsKept.init : JobsKept .init := by
  constructor <;> simp [State.init, activeJobs]

/-- Jobs are only trimmed and each call that has a job stays. -/
theorem JobsKept.trimmed {s t : State} (hs : JobsKept s) (hcreated : t.created = s.created)
    (hjobs : t.inner.jobs.Sublist s.inner.jobs)
    (hkeep : ∀ job ∈ s.inner.jobs, job.state.finished = false → job ∈ t.inner.jobs)
    (hactive : activeJobs t.calls = activeJobs s.calls)
    (hcalls : ∀ c ∈ t.calls, c.stage.activeJob = none ∨ c ∈ s.calls) : JobsKept t where
  kept := by rw [hcreated]; exact (hjobs.map _).trans hs.kept
  ids := by rw [hcreated]; exact hs.ids
  active := by rw [hactive]; exact hs.active
  created := by
    intro c hc id hid stored hst
    rw [hcreated]
    rcases hcalls c hc with hn | hc
    · rw [hn] at hid
      cases hid
    · exact hs.created c hc id hid stored hst
  running := by
    intro job hm hf
    obtain ⟨c, hc, hj⟩ := hs.running job (hjobs.subset hm) hf
    rw [← mem_activeJobs, hactive]
    exact mem_activeJobs.2 ⟨c, hc, hj⟩
  unfinished := by
    intro c hc id hid
    rcases hcalls c hc with hn | hc
    · rw [hn] at hid
      cases hid
    · obtain ⟨job, hm, hj, hf⟩ := hs.unfinished c hc id hid
      exact ⟨job, hkeep job hm hf, hj, hf⟩

/-- An apply without a job goes on or leaves. -/
theorem JobsKept.drop {s : State} (hs : JobsKept s) {xs ys : List ApplyCall} {a : ApplyCall} {retained : Nat}
    {targets : List Nat} (hc : s.calls = xs ++ a :: ys) (ha : a.stage.activeJob = none) :
    JobsKept (s.drop retained xs ys targets) := by
  refine hs.trimmed rfl (trimJobs_sublist _ _) (fun job hm hf => mem_trimJobs hm hf) ?_ ?_
  · rw [hc, activeJobs_none ha]
    rfl
  · intro c hm
    right
    rw [hc]
    exact mem_middle.2 (Or.inr hm)

theorem JobsKept.advance {s t : State} (hs : JobsKept s) {xs ys : List ApplyCall} {a b : ApplyCall}
    (hc : s.calls = xs ++ a :: ys) (hc' : t.calls = xs ++ b :: ys) (ha : a.stage.activeJob = none)
    (hb : b.stage.activeJob = none) (hjobs : t.inner.jobs = s.inner.jobs) (hcreated : t.created = s.created) :
    JobsKept t := by
  refine hs.trimmed hcreated (by rw [hjobs]) (by rw [hjobs]; exact fun job hm _ => hm) ?_ ?_
  · rw [hc, hc', activeJobs_none ha, activeJobs_none hb]
  · intro c hm
    rw [hc'] at hm
    rw [hc]
    rcases mem_middle.1 hm with rfl | hm
    · exact Or.inl hb
    · exact Or.inr (mem_middle.2 (Or.inr hm))

/-- An unfinished job is that of one apply only. -/
theorem JobsKept.active_other {s : State} (hs : JobsKept s) {xs ys : List ApplyCall} {a c : ApplyCall}
    {job : Text} (hc : s.calls = xs ++ a :: ys) (ha : a.stage.activeJob = some job) (hm : c ∈ xs ++ ys) :
    c.stage.activeJob ≠ some job := by
  intro heq
  have hn := hs.active
  rw [hc, activeJobs_some ha] at hn
  exact hn.1 (mem_activeJobs.2 ⟨c, hm, heq⟩)

theorem JobsKept.create_step {s : State} (hs : JobsKept s) {xs ys : List ApplyCall} {req : Request}
    {stored : StoredPlan} {replanned planned : Planned} {job : Text} {retained : Nat} {operation : Text}
    (hc : s.calls = xs ++ ⟨req, .leasing stored replanned job⟩ :: ys)
    (hfresh : job ∉ s.created.map Prod.snd) :
    JobsKept
      { s with
        inner := createJob retained (s.inner.lock s.now) req.id ⟨job, operation, stored.plan.id, .queued⟩
        calls := xs ++ ⟨req, .queued stored replanned planned job⟩ :: ys
        created := (stored.plan.id, job) :: s.created } := by
  have hsub : ∀ c ∈ xs ++ ys, c ∈ s.calls := by
    intro c hm
    rw [hc]
    exact mem_middle.2 (Or.inr hm)
  have hnew : ∀ c ∈ s.calls, c.stage.activeJob ≠ some job := by
    intro c hm hj
    obtain ⟨j, hjm, rfl, -⟩ := hs.unfinished c hm job hj
    exact hfresh (List.mem_map.mpr ⟨j.key, hs.kept.subset (List.mem_map_of_mem hjm), rfl⟩)
  refine ⟨?_, List.nodup_cons.mpr ⟨hfresh, hs.ids⟩, ?_, ?_, ?_, ?_⟩
  · exact ((trimJobs_sublist retained _).map Job.key).trans (hs.kept.cons_cons _)
  · have ha := hs.active
    rw [hc, activeJobs_none rfl] at ha
    refine (activeJobs_some rfl).mpr ⟨fun hm => ?_, ha⟩
    obtain ⟨c, hm, hj⟩ := mem_activeJobs.1 hm
    exact hnew c (hsub c hm) hj
  · intro c hm id hid st hst
    rcases mem_middle.1 hm with rfl | hm
    · cases hid
      cases hst
      exact List.mem_cons_self
    · exact List.mem_cons_of_mem _ (hs.created c (hsub c hm) id hid st hst)
  · intro j hj hf
    have hj : j ∈ (⟨job, operation, stored.plan.id, .queued⟩ : Job) :: s.inner.jobs :=
      (trimJobs_sublist retained _).subset hj
    rcases List.mem_cons.mp hj with rfl | hj
    · exact ⟨_, mem_middle.2 (Or.inl rfl), rfl⟩
    · obtain ⟨c, hm, hact⟩ := hs.running j hj hf
      rw [hc] at hm
      rcases mem_middle.1 hm with rfl | hm
      · cases hact
      · exact ⟨c, mem_middle.2 (Or.inr hm), hact⟩
  · intro c hm id hid
    rcases mem_middle.1 hm with rfl | hm
    · cases hid
      exact ⟨_, mem_trimJobs List.mem_cons_self rfl, rfl, rfl⟩
    · obtain ⟨j, hj, hid, hf⟩ := hs.unfinished c (hsub c hm) id hid
      exact ⟨j, mem_trimJobs (List.mem_cons_of_mem _ hj) hf, hid, hf⟩

/-- The job of an apply changes its state and is unfinished exactly while the
apply says so. -/
theorem JobsKept.update {s t : State} (hs : JobsKept s) {xs ys : List ApplyCall} {a b : ApplyCall}
    {job : Text} {state : JobState} (hc : s.calls = xs ++ a :: ys) (hc' : t.calls = xs ++ b :: ys)
    (ha : a.stage.activeJob = some job) (hstored : b.stage.stored = a.stage.stored)
    (hb : b.stage.activeJob = if state.finished then none else some job)
    (hjobs : t.inner.jobs = setJobState s.inner.jobs job state) (hcreated : t.created = s.created) :
    JobsKept t := by
  have hsub : ∀ c ∈ xs ++ ys, c ∈ s.calls := by
    intro c hm
    rw [hc]
    exact mem_middle.2 (Or.inr hm)
  have ham : a ∈ s.calls := by simp [hc]
  have hbid : ∀ id ∈ b.stage.activeJob, id = job ∧ state.finished = false := by
    intro id hid
    rw [hb] at hid
    split at hid
    · cases hid
    next hf =>
      cases hid
      exact ⟨rfl, by simpa using hf⟩
  constructor
  · rw [hjobs, hcreated, setJobState_keys]
    exact hs.kept
  · rw [hcreated]
    exact hs.ids
  · have h := hs.active
    rw [hc, activeJobs_some ha] at h
    rw [hc']
    split at hb
    · rw [activeJobs_none hb]
      exact h.2
    · exact (activeJobs_some hb).mpr h
  · rw [hc', hcreated]
    intro c hm id hid st hst
    rcases mem_middle.1 hm with rfl | hm
    · obtain ⟨rfl, -⟩ := hbid id hid
      exact hs.created a ham id ha st (hstored ▸ hst)
    · exact hs.created c (hsub c hm) id hid st hst
  · rw [hjobs, hc']
    intro j hj hf
    rcases mem_setJobState hj with ⟨hid, hst⟩ | ⟨hne, hj⟩
    · rw [hst] at hf
      refine ⟨b, mem_middle.2 (Or.inl rfl), ?_⟩
      rw [hb, hf, hid]
      rfl
    · obtain ⟨c, hm, hact⟩ := hs.running j hj hf
      rw [hc] at hm
      rcases mem_middle.1 hm with rfl | hm
      · rw [ha] at hact
        cases hact
        exact absurd rfl hne
      · exact ⟨c, mem_middle.2 (Or.inr hm), hact⟩
  · rw [hjobs, hc']
    intro c hm id hid
    rcases mem_middle.1 hm with rfl | hm
    · obtain ⟨rfl, hf⟩ := hbid id hid
      obtain ⟨j, hj, hjid, -⟩ := hs.unfinished a ham id ha
      exact ⟨{ j with state := state }, List.mem_map.mpr ⟨j, hj, by rw [if_pos hjid]⟩, hjid, hf⟩
    · obtain ⟨j, hj, rfl, hf⟩ := hs.unfinished c (hsub c hm) id hid
      refine ⟨j, setJobState_other hj fun heq => ?_, rfl, hf⟩
      exact hs.active_other hc ha hm (by rw [← heq]; exact hid)

section Codec

variable {B : Base64} {S : Serde Lease} {ttl retained : Nat} {s t : State}

theorem JobsKept.step (hs : JobsKept s) (h : Step B S ttl retained s t) : JobsKept t := by
  have hsame : ∀ job ∈ s.inner.jobs, job.state.finished = false → job ∈ s.inner.jobs := fun _ hm _ => hm
  cases h with
  | tick => exact ⟨hs.kept, hs.ids, hs.active, hs.created, hs.running, hs.unfinished⟩
  | look => exact ⟨hs.kept, hs.ids, hs.active, hs.created, hs.running, hs.unfinished⟩
  | plan => exact ⟨hs.kept, hs.ids, hs.active, hs.created, hs.running, hs.unfinished⟩
  | enter req =>
    refine hs.trimmed rfl (List.Sublist.refl _) hsame rfl fun c hc => ?_
    rcases List.mem_cons.mp hc with rfl | hc
    · exact Or.inl rfl
    · exact Or.inr hc
  | admitted xs ys req inner stored hc ha =>
    obtain ⟨-, -, -, -, rfl⟩ := admission_ok ha
    exact hs.advance hc rfl rfl rfl rfl rfl
  | refuse xs ys req refusal hc =>
    refine hs.trimmed rfl (List.Sublist.refl _) hsame ?_ fun c hm => Or.inr ?_
    · rw [hc, activeJobs_none rfl]
    · rw [hc]
      exact mem_middle.2 (Or.inr hm)
  | replan xs ys req stored planned job hc => exact hs.advance hc rfl rfl rfl rfl rfl
  | create xs ys req stored replanned planned job hc _ hfresh => exact hs.create_step hc hfresh
  | start xs ys req stored replanned planned job hc => exact hs.update hc rfl rfl rfl rfl rfl rfl
  | finish xs ys req stored job state hc hf =>
    exact hs.update hc rfl rfl rfl (by rw [hf]; rfl) rfl rfl
  | dropPlanning xs ys req stored hc => exact hs.drop hc rfl
  | dropLeasing xs ys req stored planned job hc => exact hs.drop hc rfl
  | dropFinishing xs ys req stored job hc => exact hs.drop hc rfl

theorem Reachable.jobsKept (h : Reachable B S ttl retained s) : JobsKept s := by
  induction h with
  | init => exact JobsKept.init
  | step _ hstep ih => exact ih.step hstep

end Codec

/-! ## What is executed -/

section Codec

variable {B : Base64} {S : Serde Lease} {ttl retained : Nat} {s t : State}

variable (B S) in
/-- An operation runs with the plan made again, which the client agreed to by
its digest, under the configuration version of the stored plan. -/
structure Execution.Agreed (e : Execution) : Prop where
  digest : digest e.stored.plan.operation e.stored.parameters e.stored.configVersion e.replanned =
    e.req.clientDigest
  version : e.stored.configVersion = e.req.configVersion
  leased : Leased B S e.stored.plan.operation e.job e.replanned e.planned

variable (B S) in
/-- What an apply knows of the plan made again. -/
def ApplyCall.Replanned (c : ApplyCall) : Prop :=
  match c.stage with
  | .leasing stored replanned _ => Digested c.req stored replanned
  | .queued stored replanned planned job =>
    Digested c.req stored replanned ∧ Leased B S stored.plan.operation job replanned planned
  | _ => True

variable (B S) in
structure Agreeing (s : State) : Prop where
  calls : ∀ c ∈ s.calls, c.Replanned B S
  executed : ∀ e ∈ s.executed, e.Agreed B S

theorem Agreeing.advance (hs : Agreeing B S s) {xs ys : List ApplyCall} {a b : ApplyCall}
    (hc : s.calls = xs ++ a :: ys) (hb : a.Replanned B S → b.Replanned B S) :
    ∀ c ∈ xs ++ b :: ys, c.Replanned B S := by
  intro c hm
  rcases mem_middle.1 hm with rfl | hm
  · exact hb (hs.calls a (by simp [hc]))
  · exact hs.calls c (by rw [hc]; exact mem_middle.2 (Or.inr hm))

theorem Agreeing.remaining (hs : Agreeing B S s) {xs ys : List ApplyCall} {a : ApplyCall}
    (hc : s.calls = xs ++ a :: ys) : ∀ c ∈ xs ++ ys, c.Replanned B S := by
  intro c hm
  exact hs.calls c (by rw [hc]; exact mem_middle.2 (Or.inr hm))

theorem Agreeing.step (hs : Agreeing B S s) (ho : Once s) (h : Step B S ttl retained s t) :
    Agreeing B S t := by
  cases h with
  | tick => exact ⟨hs.calls, hs.executed⟩
  | look => exact ⟨hs.calls, hs.executed⟩
  | plan => exact ⟨hs.calls, hs.executed⟩
  | enter req =>
    refine ⟨fun c hc => ?_, hs.executed⟩
    rcases List.mem_cons.mp hc with rfl | hc
    · trivial
    · exact hs.calls c hc
  | admitted xs ys req inner stored hc => exact ⟨hs.advance hc fun _ => trivial, hs.executed⟩
  | refuse xs ys req refusal hc => exact ⟨hs.remaining hc, hs.executed⟩
  | replan xs ys req stored planned job hc hd => exact ⟨hs.advance hc fun _ => hd, hs.executed⟩
  | create xs ys req stored replanned planned job hc hl =>
    exact ⟨hs.advance hc fun hd => ⟨hd, hl⟩, hs.executed⟩
  | start xs ys req stored replanned planned job hc =>
    refine ⟨hs.advance hc fun _ => trivial, fun e he => ?_⟩
    rcases List.mem_cons.mp he with rfl | he
    · have hm : (⟨req, .queued stored replanned planned job⟩ : ApplyCall) ∈ s.calls := by simp [hc]
      obtain ⟨hd, hl⟩ := hs.calls _ hm
      have hmatch := ho.calls _ hm stored rfl
      have hd : digest stored.plan.operation stored.parameters stored.configVersion replanned =
          stored.plan.digest := by rw [hmatch.version]; exact hd
      exact ⟨hd.trans hmatch.digest, hmatch.version, hl⟩
    · exact hs.executed e he
  | finish xs ys req stored job state hc => exact ⟨hs.advance hc fun _ => trivial, hs.executed⟩
  | dropPlanning xs ys req stored hc => exact ⟨hs.remaining hc, hs.executed⟩
  | dropLeasing xs ys req stored planned job hc => exact ⟨hs.remaining hc, hs.executed⟩
  | dropFinishing xs ys req stored job hc => exact ⟨hs.remaining hc, hs.executed⟩

theorem Reachable.agreeing (h : Reachable B S ttl retained s) : Agreeing B S s := by
  induction h with
  | init => exact ⟨by simp [State.init], by simp [State.init]⟩
  | step hs hstep ih => exact ih.step hs.once hstep

/-- The job of an execution is the one created for its plan. -/
theorem Reachable.executed_created (h : Reachable B S ttl retained s) :
    ∀ e ∈ s.executed, (e.stored.plan.id, e.job) ∈ s.created := by
  induction h with
  | init => simp [State.init]
  | step hs hstep ih =>
    cases hstep with
    | create => exact fun e he => List.mem_cons_of_mem _ (ih e he)
    | start xs ys req stored replanned planned job hc =>
      intro e he
      rcases List.mem_cons.mp he with rfl | he
      · exact hs.jobsKept.created _ (by rw [hc]; exact mem_middle.2 (Or.inl rfl)) job rfl stored rfl
      · exact ih e he
    | _ => exact ih

/-- An apply that was admitted and is not dropped yet, its job included. -/
def ApplyCall.isAdmitted (c : ApplyCall) : Bool := c.stage.stored.isSome

theorem one_job_per_vm_and_plan (h : Reachable B S ttl retained s) :
    (s.calls.filter ApplyCall.isAdmitted).Pairwise (fun a b => Disjoint a.held b.held) ∧
      (∀ v, v ∈ s.inner.busy ↔ ∃ c ∈ s.calls.filter ApplyCall.isAdmitted, v ∈ c.held) ∧
      (s.calls.filter ApplyCall.isAdmitted).length ≤ maxConcurrentJobs ∧
      (∀ job ∈ s.inner.jobs, job.state.finished = false →
        ∃ c ∈ s.calls.filter ApplyCall.isAdmitted, ∃ stored, c.stage.stored = some stored ∧
          c.stage.activeJob = some job.id ∧ stored.plan.id = job.planId) ∧
      (s.inner.jobs.map Job.id).Nodup ∧ (activeJobs s.calls).Nodup ∧
      (s.created.map Prod.fst).Nodup ∧ (∀ job ∈ s.inner.jobs, (job.planId, job.id) ∈ s.created) ∧
      ∀ e ∈ s.executed, (e.stored.plan.id, e.job) ∈ s.created ∧ e.Agreed B S := by
  have hheld := h.held
  have hjobs := h.jobsKept
  have hpair := List.pairwise_map.mp hheld.exclusive.disjoint
  have hlen : s.calls.length ≤ maxConcurrentJobs := by
    have := hheld.permits
    omega
  refine ⟨hpair.sublist List.filter_sublist, ?_, (List.length_filter_le _ _).trans hlen, ?_, ?_, hjobs.active,
    h.once.once, ?_, fun e he => ⟨h.executed_created e he, h.agreeing.executed e he⟩⟩
  · intro v
    rw [hheld.exclusive.mem_busy]
    constructor
    · rintro ⟨_, ht, hv⟩
      obtain ⟨c, hc, rfl⟩ := List.mem_map.mp ht
      refine ⟨c, List.mem_filter.mpr ⟨hc, ?_⟩, hv⟩
      rw [ApplyCall.isAdmitted]
      cases hst : c.stage.stored with
      | none => simp [ApplyCall.held, hst] at hv
      | some stored => rfl
    · rintro ⟨c, hc, hv⟩
      exact ⟨c.held, List.mem_map_of_mem (List.mem_filter.mp hc).1, hv⟩
  · intro job hm hf
    obtain ⟨c, hc, hact⟩ := hjobs.running job hm hf
    obtain ⟨stored, hst⟩ : ∃ stored, c.stage.stored = some stored := by
      revert hact
      cases c.stage <;> simp [Stage.activeJob, Stage.stored]
    refine ⟨c, List.mem_filter.mpr ⟨hc, by rw [ApplyCall.isAdmitted, hst]; rfl⟩, stored, hst, hact, ?_⟩
    have h₁ : job.key ∈ s.created := hjobs.kept.subset (List.mem_map_of_mem hm)
    have h₂ := hjobs.created c hc job.id hact stored hst
    exact congrArg Prod.fst (List.inj_on_of_nodup_map hjobs.ids h₂ h₁ rfl)
  · have hsub := (hjobs.kept.map Prod.snd).nodup hjobs.ids
    rwa [List.map_map] at hsub
  · intro job hm
    exact hjobs.kept.subset (List.mem_map_of_mem hm)

theorem admission_of_idle {inner : Inner} {req : Request} {stored : StoredPlan} 
    (hget : inner.plans[req.id]? = some stored) (hjobs : inner.jobs = [])
    (hdigest : stored.plan.digest = req.clientDigest)
    (hversion : stored.configVersion = req.configVersion)
    (hsecrets : secretsRequired stored.plan = []) (hnone : req.secrets = [])
    (hbusy : inner.busy = ∅) :
    admission inner req = .ok ({ inner with busy := inner.busy ∪ stored.plan.targets.toFinset }, stored) := by
  simp only [admission, hjobs, List.any_nil, Bool.false_eq_true, if_false, hget, hdigest, hversion, ne_eq,
    not_true_eq_false, hsecrets, hnone, List.all_nil, Bool.not_true, hbusy, Finset.notMem_empty, decide_false,
    List.any_eq_true, and_false, exists_false]

/-- An idle server can run a plan it keeps. -/
theorem Reachable.execute (h : Reachable B S ttl retained s) (hcalls : s.calls = []) (hfree : 0 < s.free)
    (hcreated : s.created = []) (hjobs : s.inner.jobs = []) (hbusy : s.inner.busy = ∅)
    (hexecuted : s.executed = []) (req : Request) {stored : StoredPlan} {planned leased : Planned}
    (hget : s.inner.plans[req.id]? = some stored) (hexpires : s.now < stored.expires)
    (hdigest : stored.plan.digest = req.clientDigest) (hversion : stored.configVersion = req.configVersion)
    (hsecrets : secretsRequired stored.plan = []) (hnone : req.secrets = [])
    (hd : digest stored.plan.operation stored.parameters req.configVersion planned = stored.plan.digest)
    (hl : Leased B S stored.plan.operation "job" planned leased) :
    ∃ t, Reachable B S ttl retained t ∧ t.executed = [⟨"job", req, stored, planned, leased⟩] := by
  have hget' : (s.inner.lock s.now).plans[req.id]? = some stored := by
    simp only [Inner.lock, Std.ExtTreeMap.getElem?_filter, Option.pfilter_eq_some_iff]
    exact ⟨hget, by simpa using hexpires⟩
  have hadmitted := admission_of_idle hget' hjobs hdigest hversion hsecrets hnone hbusy
  have h₁ := h.step (Step.enter s req hfree)
  have h₂ := h₁.step (Step.admitted _ [] [] req _ stored (by rw [hcalls]; rfl) hadmitted)
  have h₃ := h₂.step (Step.replan _ [] [] req stored planned "job" rfl hd)
  have h₄ := h₃.step (Step.create _ [] [] req stored planned leased "job" rfl hl (by simp [hcreated]))
  have h₅ := h₄.step (Step.start _ [] [] req stored planned leased "job" rfl)
  refine ⟨_, h₅, ?_⟩
  simp only [hexecuted]

/-- Any operation that needs no secret can be planned, applied and started. -/
theorem exists_execution (httl : 0 < ttl) {operation : Text} {parameters : Json} {version : Option Text}
    {planned leased : Planned} (hne : planned.targets ≠ [])
    (hsec : planned.summary.get "secrets_required" = none)
    (hl : Leased B S operation "job" planned leased) :
    ∃ s, Reachable B S ttl retained s ∧ ∃ e, s.executed = [e] ∧ e.stored.plan.operation = operation ∧
      e.stored.parameters = parameters ∧ e.stored.configVersion = version ∧ e.planned = leased ∧
      e.req.clientDigest = digest operation parameters version planned := by
  have hsize : (State.init.inner.lock 0).plans.size < maxPlans := by
    refine lt_of_le_of_lt Std.ExtTreeMap.size_filter_le_size ?_
    rw [State.init, Std.ExtTreeMap.size_empty]
    decide
  have hsecrets : ∀ id text targets,
      secretsRequired ⟨id, operation, text, targets, planned.summary⟩ = [] := by
    intro id text targets
    rw [secretsRequired, hsec]
    rfl
  have hinit : Reachable B S ttl retained .init := .init
  have hplan := hinit.step
    (Step.plan .init "plan" operation parameters version planned hne (by simp [State.init]) hsize)
  generalize hd : digest operation parameters version planned = d at hplan ⊢
  obtain ⟨t, ht, he⟩ := hplan.execute rfl (Nat.succ_pos 31) rfl rfl rfl rfl ⟨"plan", d, version, []⟩
    Std.ExtTreeMap.getElem?_insert_self (by simpa [State.init] using httl) rfl rfl (hsecrets _ _ _) rfl hd hl
  exact ⟨t, ht, _, he, rfl, rfl, rfl, rfl, rfl⟩

end Codec

/-! ## A destroy that runs -/

/-- VM 100 before the lease of its destroy job. -/
def reviewedConfig : VmConfig := (∅ : VmConfig).insert "digest" "a"

def destroyLease : Lease where
  inst := "hs"
  job := "job"
  operation := "workspace.destroy"
  acquiredAt := 0
  expiresAt := Lease.leaseTtl

def leasedDescription : Text :=
  "<!-- homestack-lease: eyJpbnN0YW5jZSI6ImhzIiwiam9iIjoiam9iIiwib3BlcmF0aW9uIjoid29ya3NwYWNlLmRlc3Ryb3kiLCJhY3F1aXJlZF9hdCI6MCwiZXhwaXJlc19hdCI6NzIwMH0= -->"

/-- And with it. -/
def leasedConfig : VmConfig := (reviewedConfig.insert "description" leasedDescription).insert "digest" "b"

def destroySummary (config : VmConfig) : Json :=
  .obj [("destructive_identity", .obj [("config", configJson config)]), ("vmid", .int 100)]

set_option maxRecDepth 4000 in
theorem leasedDescription_eq :
    Lease.descriptionWith Base64.standard Lease.serde reviewedConfig.description (some destroyLease) =
      .ok leasedDescription := by
  have h : (Lease.descriptionWith Base64.standard Lease.serde reviewedConfig.description
      (some destroyLease)).toOption = some leasedDescription :=
    Text.of_literal (P := fun t =>
      (Lease.descriptionWith Base64.standard Lease.serde reviewedConfig.description
      (some destroyLease)).toOption = some t) (by decide +kernel)
  generalize Lease.descriptionWith _ _ _ _ = r at h ⊢
  cases r with
  | error e => cases h
  | ok d => exact congrArg Except.ok (Option.some.inj h)

theorem destroySummary_authorized :
    authorizeDestroyLease Base64.standard Lease.serde (destroySummary reviewedConfig)
      ⟨100, reviewedConfig, leasedConfig, destroyLease⟩ = .ok (destroySummary leasedConfig) := by
  exact authorizeDestroyLease_ok rfl rfl (by decide) (by decide) rfl
    leasedDescription_eq (by decide) rfl

theorem destroy_leased :
    Leased Base64.standard Lease.serde "workspace.destroy" "job" ⟨[100], destroySummary reviewedConfig⟩
      ⟨[100], destroySummary leasedConfig⟩ := by
  have hfold : [(⟨100, reviewedConfig, leasedConfig, destroyLease⟩ : Acquisition)].foldlM
      (authorizeDestroyLease Base64.standard Lease.serde) (destroySummary reviewedConfig) =
      .ok (destroySummary leasedConfig) := by
    rw [List.foldlM_cons, destroySummary_authorized]
    rfl
  exact Leased.destroy rfl rfl (by simp [destroyLease]) hfold

/-- A digest by the codes of the characters, when these are ASCII. -/
theorem digest_ascii {operation : Text} {parameters : Json} {version : Option Text} {planned : Planned}
    (h : ∀ c ∈ (canonical operation parameters version planned).render, c.toNat < 0x80) :
    digest operation parameters version planned =
      Sha256.hex (Sha256.digest
        ((canonical operation parameters version planned).render.map Char.toNat)) := by
  rw [digest, Text.utf8_toNat h]

/-- What is signed of the destroy plan, with this description of the VM. -/
def leasedJson (description : Text) : Json :=
  canonical "workspace.destroy" .null none
    ⟨[100], destroySummary ((reviewedConfig.insert "description" description).insert "digest" "b")⟩

def reviewedJson : Json := canonical "workspace.destroy" .null none ⟨[100], destroySummary reviewedConfig⟩

set_option maxRecDepth 4000 in
theorem ascii_leasedJson : ∀ c ∈ (leasedJson leasedDescription).render, c.toNat < 0x80 :=
  Text.of_literal (P := fun t => ∀ c ∈ (leasedJson t).render, c.toNat < 0x80) (by decide +kernel)

theorem ascii_reviewedJson : ∀ c ∈ reviewedJson.render, c.toNat < 0x80 := by decide +kernel

set_option maxRecDepth 4000 in
theorem digest_leasedJson :
    Sha256.hex (Sha256.digest ((leasedJson leasedDescription).render.map Char.toNat)) ≠
    Sha256.hex (Sha256.digest (reviewedJson.render.map Char.toNat)) :=
  Text.of_literal (P := fun t => Sha256.hex (Sha256.digest ((leasedJson t).render.map Char.toNat)) ≠
    Sha256.hex (Sha256.digest (reviewedJson.render.map Char.toNat))) (by decide +kernel)

theorem destroy_digest_changes :
    digest "workspace.destroy" .null none ⟨[100], destroySummary leasedConfig⟩ ≠
      digest "workspace.destroy" .null none ⟨[100], destroySummary reviewedConfig⟩ := by
  unfold leasedConfig
  rw [digest_ascii ascii_reviewedJson, digest_ascii ascii_leasedJson]
  exact digest_leasedJson

theorem destroy_executed :
    ∃ s, Reachable Base64.standard Lease.serde 1 1 s ∧ ∃ e, s.executed = [e] ∧
      e.stored.plan.operation = "workspace.destroy" ∧ e.stored.parameters = .null ∧
        e.stored.configVersion = none ∧
      e.planned = ⟨[100], destroySummary leasedConfig⟩ ∧
      e.req.clientDigest = digest "workspace.destroy" .null none ⟨[100], destroySummary reviewedConfig⟩ :=
  exists_execution Nat.one_pos (List.cons_ne_nil 100 []) rfl destroy_leased

/-- A started destroy job: its client agreed to the plan before the lease. -/
theorem one_job_per_vm_and_plan_destroy :
    ∃ s, Reachable Base64.standard Lease.serde 1 1 s ∧ s.executed ≠ [] ∧
      ∀ e ∈ s.executed, (e.stored.plan.id, e.job) ∈ s.created ∧ e.Agreed Base64.standard Lease.serde := by
  obtain ⟨s, hs, e, he, -⟩ := destroy_executed
  obtain ⟨-, -, -, -, -, -, -, -, h⟩ := one_job_per_vm_and_plan hs
  exact ⟨s, hs, by simp [he], h⟩

/-- A destroy job does not run with a plan of the digest the client sent. -/
theorem destroy_plan_digest_differs :
    ¬ ∀ (B : Base64) (S : Serde Lease) (ttl retained : Nat) (s : State), Reachable B S ttl retained s →
      ∀ e ∈ s.executed, digest e.stored.plan.operation e.stored.parameters e.stored.configVersion e.planned =
        e.req.clientDigest := by
  intro h
  obtain ⟨s, hs, e, he, hop, hpar, hver, hplanned, hclient⟩ := destroy_executed
  have hd := h _ _ _ _ s hs e (by simp [he])
  rw [hop, hpar, hver, hplanned, hclient] at hd
  exact destroy_digest_changes hd

end HomeStack.Operations

import HomeStack.AccountsInvariant

/-! One question keeps the rest of the invariant of the agent accounts service, the rows, what is gone,
the gates and the operations, and so the whole of it. -/

namespace HomeStack.Accounts

open Prog (Event)

section Steps

variable {i : Proc} {s t : Shared} {V : Views} {q : Ask} {r : q.Answer}

/-! ## Rows -/

theorem insert_other {p : Profile} {r : Except Failure Unit} (h : Sound s V) (ha : (V i).Allows i (.insert p))
    (hn : next i s (.insert p) r t) {id : Text} (hb : (s.born id).isSome) : t.rows id = s.rows id := by
  rcases hn with ⟨-, rfl⟩ | ⟨-, rfl⟩
  · have hne : id ≠ p.id := by
      rintro rfl
      rw [(h.births.fresh ha.1).1] at hb
      cases hb
    exact Function.update_of_ne hne _ _
  · rfl

/-- What one process has locked, no other writes. -/
theorem Sound.row_kept (h : Sound s V) (ha : (V i).Allows i q) (hn : next i s q r t) {j : Proc} (hj : j ≠ i)
    {id : Text} {l : Nat} (hl : (V j).lock = some (id, l)) (hrow : (s.rows id).isSome) :
    t.rows id = s.rows id := by
  have hne : ∀ {id' : Text} {l' : Nat}, (V i).lock = some (id', l') → id ≠ id' := by
    rintro id' l' hi rfl
    exact hj (h.exclusive hl hi hrow)
  cases hq : q.writing with
  | false => rw [((next_frame hn).rows hq).1]
  | true =>
    cases q with
    | insert p => exact insert_other h ha hn (h.born_of_lock hl)
    | save p snapshot edit =>
      obtain ⟨l', r, hi, -⟩ := h.rewrites ha
      rcases hn with ⟨-, rfl⟩ | ⟨-, rfl⟩
      · exact Function.update_of_ne (hne hi) _ _
      · rfl
    | activate p snapshot =>
      obtain ⟨l', r, hi, -⟩ := h.rewrites ha
      rcases hn with ⟨-, -, rfl⟩ | ⟨-, rfl⟩
      · exact Function.update_of_ne (hne hi) _ _
      · rfl
    | delete id' =>
      obtain ⟨⟨l', hi⟩, -⟩ := ha
      rcases hn with ⟨-, rfl⟩ | ⟨-, rfl⟩
      · exact Function.update_of_ne (hne hi) _ _
      · rfl
    | _ => cases hq

theorem Records.enabled_step (h : Sound s V) (ha : (V i).Allows i q) (hn : next i s q r t) {id : Text}
    {p : Profile} (hp : t.rows id = some p) : p.enabled = (t.edited id).getD true := by
  cases hq : q.writing with
  | false =>
    obtain ⟨hrows, hedited, -⟩ := (next_frame hn).rows hq
    rw [hrows] at hp
    rw [hedited]
    exact h.records.enabled hp
  | true =>
    cases q with
    | insert p' =>
      rcases hn with ⟨-, rfl⟩ | ⟨-, rfl⟩
      · rcases update_some hp with ⟨rfl, rfl⟩ | hp
        · have hnone : s.edited p'.id = none := by
            cases he : s.edited p'.id with
            | none => rfl
            | some enabled =>
              have hborn := h.births.edited he
              rw [(h.births.fresh ha.1).1] at hborn
              cases hborn
          exact ha.2.trans (by simp [Shared.saved, hnone])
        · exact h.records.enabled hp
      · exact h.records.enabled hp
    | save p' snapshot edit =>
      obtain ⟨l, r, -, hrow, -, henabled⟩ := h.rewrites ha
      rcases hn with ⟨-, rfl⟩ | ⟨-, rfl⟩
      · by_cases hid : id = p'.id
        · subst hid
          obtain rfl : p' = p := by simpa [Shared.saved] using hp
          cases edit with
          | false => exact (henabled rfl).trans (h.records.enabled hrow)
          | true => simp
        · have hold : s.rows id = some p := by simpa [Shared.saved, Function.update_of_ne hid] using hp
          cases edit with
          | false => exact h.records.enabled hold
          | true => simpa [Function.update_of_ne hid] using h.records.enabled hold
      · exact h.records.enabled hp
    | activate p' snapshot =>
      obtain ⟨l, r, -, hrow, -, henabled⟩ := h.rewrites ha
      rcases hn with ⟨-, -, rfl⟩ | ⟨-, rfl⟩
      · rcases update_some hp with ⟨rfl, rfl⟩ | hp
        · exact (henabled rfl).trans (h.records.enabled hrow)
        · exact h.records.enabled hp
      · exact h.records.enabled hp
    | delete id' =>
      rcases hn with ⟨-, rfl⟩ | ⟨-, rfl⟩
      · by_cases hid : id = id'
        · simp [hid] at hp
        · exact h.records.enabled (by simpa [Function.update_of_ne hid] using hp)
      · exact h.records.enabled hp
    | _ => cases hq

/-- What a process has read or written under its lock is the row. -/
theorem Records.own_step (h : Sound s V) (ha : (V i).Allows i q) (hn : next i s q r t) {id : Text} {l : Nat}
    {p : Profile} (hl : ((V i).after ⟨q, r⟩).lock = some (id, l))
    (hp : ((V i).after ⟨q, r⟩).record = some p) : t.rows id = some p := by
  cases hq : q.recording with
  | false =>
    rw [(view_frame (V i) q r).record hq] at hp
    have hlock : (V i).lock = some (id, l) := by
      cases q with
      | acquire | release => cases hq
      | lock | removeLock => exact hl
      | _ => exact ((view_frame (V i) _ r).locks rfl).2 ▸ hl
    have hrow := h.records.record hlock hp
    cases q with
    | save | activate | delete => cases hq
    | insert p' => rw [insert_other h ha hn (h.born_of_lock hlock), hrow]
    | _ => rw [((next_frame hn).rows rfl).1, hrow]
  | true =>
    cases q with
    | profile id' =>
      cases r with
      | error f =>
        obtain ⟨rfl, -⟩ := hn
        exact h.records.record hl hp
      | ok p' =>
        obtain ⟨rfl, hread⟩ := hn
        replace hl : (V i).lock = some (id, l) := hl
        simp only [View.after, View.learns, hl, Option.any_some, decide_eq_true_eq] at hp
        split at hp
        next hid =>
          subst hid
          obtain rfl := Option.some.inj hp
          exact hread p' rfl
        next => exact h.records.record hl hp
    | save p' snapshot edit =>
      rcases hn with ⟨rfl, rfl⟩ | ⟨⟨f, rfl⟩, rfl⟩
      · obtain ⟨l', r', hi, -⟩ := h.rewrites ha
        obtain ⟨rfl, -⟩ := Prod.mk.inj (Option.some.inj (hi.symm.trans hl))
        obtain rfl := Option.some.inj hp
        exact Function.update_self ..
      · exact h.records.record hl hp
    | activate p' snapshot =>
      rcases hn with ⟨rfl, -, rfl⟩ | ⟨⟨f, rfl⟩, rfl⟩
      · obtain ⟨l', r', hi, -⟩ := h.rewrites ha
        obtain ⟨rfl, -⟩ := Prod.mk.inj (Option.some.inj (hi.symm.trans hl))
        obtain rfl := Option.some.inj hp
        exact Function.update_self ..
      · exact h.records.record hl hp
    | delete id' =>
      rcases hn with ⟨rfl, rfl⟩ | ⟨⟨f, rfl⟩, rfl⟩
      · cases hp
      · exact h.records.record hl hp
    | acquire id' l' =>
      rcases hn with ⟨rfl, -, rfl⟩ | ⟨⟨f, rfl⟩, rfl⟩
      · cases hp
      · exact h.records.record hl hp
    | release id' l' => cases hp
    | _ => cases hq

theorem Records.step (h : Sound s V) (ha : (V i).Allows i q) (hn : next i s q r t) :
    Records t (stepped V i ⟨q, r⟩) := by
  constructor
  · exact fun hp => Records.enabled_step h ha hn hp
  · intro j id l p hl hp
    by_cases hj : j = i
    · subst hj
      rw [stepped_self] at hl hp
      exact Records.own_step h ha hn hl hp
    · rw [stepped_other hj] at hl hp
      have hrow := h.records.record hl hp
      rw [h.row_kept ha hn hj hl (by simp [hrow]), hrow]

/-! ## What is gone -/

theorem Sound.none_stays (h : Sound s V) (ha : (V i).Allows i q) (hn : next i s q r t) {id : Text}
    (hb : (s.born id).isSome) (hrow : s.rows id = none) : t.rows id = none := by
  cases hrow' : t.rows id with
  | none => rfl
  | some p =>
    have hbefore := h.row_before ha hn hb (by simp [hrow'])
    rw [hrow] at hbefore
    cases hbefore

theorem Sound.files_stay (h : Sound s V) (ha : (V i).Allows i q) (hn : next i s q r t) {id : Text}
    (hb : (s.born id).isSome) (hno : ∀ l, (V i).lock = some (id, l) → s.rows id = none)
    (hf : s.files id = false) : t.files id = false := by
  cases hq : q.filing with
  | false => rw [(next_frame hn).files hq, hf]
  | true =>
    cases q with
    | prepare id' =>
      have hne : id ≠ id' := by
        rintro rfl
        rcases ha with hfresh | ⟨p, hp, rfl⟩
        · rw [(h.births.fresh hfresh).1] at hb
          cases hb
        · obtain ⟨l, hl, hrow⟩ := h.owns hp
          rw [hno l hl] at hrow
          cases hrow
      rcases hn with rfl | ⟨-, rfl⟩
      · exact (Function.update_of_ne hne _ _).trans hf
      · exact hf
    | deleteFiles id' =>
      rcases hn with ⟨-, rfl⟩ | ⟨-, rfl⟩
      · simp only [Function.update_apply]
        split
        · rfl
        · exact hf
      · exact hf
    | _ => cases hq

/-- Operations come from `begin` only. -/
theorem next_jobs (hn : next i s q r t) {j : Job} (hj : j ∈ t.jobs) {id : Text} (hid : j.of id) :
    (∃ j' ∈ s.jobs, j'.of id) ∨ ∃ p kind, q = .begin p kind ∧ p.id = id := by
  have hkept : ∀ {limit}, j ∈ s.kept limit → j ∈ s.jobs := by
    intro limit hmem
    unfold Shared.kept at hmem
    split at hmem
    · exact List.mem_of_mem_filter hmem
    · exact hmem
  have hcancel : ∀ {p : Job → Bool}, j ∈ (s.cancel i p).jobs → ∃ j' ∈ s.jobs, j'.of id := by
    intro p hmem
    obtain ⟨j', hj', rfl⟩ := List.mem_map.mp hmem
    refine ⟨j', hj', ?_⟩
    split at hid <;> exact hid
  cases q with
  | begin p kind =>
    cases hn with
    | fresh op =>
      rcases List.mem_append.mp hj with hj | hj
      · exact Or.inl ⟨j, hkept hj, hid⟩
      · obtain rfl := List.mem_singleton.mp hj
        exact Or.inr ⟨p, kind, rfl, Option.some.inj hid⟩
    | crowded => exact Or.inl ⟨j, hkept hj, hid⟩
    | _ => exact Or.inl ⟨j, hj, hid⟩
  | beginRuntime provider kind =>
    cases hn with
    | fresh op =>
      rcases List.mem_append.mp hj with hj | hj
      · exact Or.inl ⟨j, hkept hj, hid⟩
      · obtain rfl := List.mem_singleton.mp hj
        cases hid
    | full =>
      replace hj : j ∈ s.kept 0 := hj
      exact Or.inl ⟨j, hkept hj, hid⟩
    | _ => exact Or.inl ⟨j, hj, hid⟩
  | cancelProfile id' =>
    obtain rfl := hn
    exact Or.inl (hcancel hj)
  | cancelOperation op =>
    rcases hn with ⟨-, rfl⟩ | ⟨-, rfl⟩
    · exact Or.inl ⟨j, hj, hid⟩
    · exact Or.inl (hcancel hj)
  | removeJob | removeJobs =>
    obtain rfl := hn
    exact Or.inl ⟨j, List.mem_of_mem_filter hj, hid⟩
  | finish op =>
    obtain rfl := hn
    obtain ⟨j', hj', rfl⟩ := List.mem_map.mp hj
    refine Or.inl ⟨j', hj', ?_⟩
    split at hid <;> exact hid
  | _ =>
    rw [(next_frame hn).jobs rfl] at hj
    exact Or.inl ⟨j, hj, hid⟩

theorem jobs_stay (hp : Present s q) (hn : next i s q r t) {id : Text} (hrow : s.rows id = none)
    (hjobs : ∀ j ∈ s.jobs, ¬ j.of id) :
    ∀ j ∈ t.jobs, ¬ j.of id := by
  intro j hj hid
  rcases next_jobs hn hj hid with ⟨j', hj', hid'⟩ | ⟨p, kind, rfl, rfl⟩
  · exact hjobs j' hj' hid'
  · simp [Present, hrow] at hp

theorem Gone.empty_saved (h : Gone s V) {p : Profile} (snapshot : Option Snapshot) {id : Text}
    (hrow : (s.saved p snapshot).rows id = none) :
    (s.saved p snapshot).history id = [] ∧ ∀ op o, s.operations op = some o → o.profileId ≠ some id := by
  have hne : id ≠ p.id := by
    rintro rfl
    simp [Shared.saved] at hrow
  have hold : s.rows id = none := by simpa [Shared.saved, Function.update_of_ne hne] using hrow
  obtain ⟨hhistory, hops⟩ := h.empty hold
  refine ⟨?_, hops⟩
  cases snapshot with
  | none => exact hhistory
  | some snapshot => exact (Function.update_of_ne hne _ _).trans hhistory

/-- A profile without a row has neither history nor operations. -/
theorem Gone.empty_step (h : Gone s V) (hn : next i s q r t) {id : Text} (hrow : t.rows id = none) :
    t.history id = [] ∧ ∀ op o, t.operations op = some o → o.profileId ≠ some id := by
  cases q with
  | insert p =>
    rcases hn with ⟨-, rfl⟩ | ⟨-, rfl⟩
    · exact h.empty_saved none hrow
    · exact h.empty hrow
  | save p snapshot edit =>
    rcases hn with ⟨-, rfl⟩ | ⟨-, rfl⟩
    · exact h.empty_saved snapshot hrow
    · exact h.empty hrow
  | activate p snapshot =>
    rcases hn with ⟨-, -, rfl⟩ | ⟨-, rfl⟩
    · exact h.empty_saved (some snapshot) hrow
    · exact h.empty hrow
  | delete id' =>
    rcases hn with ⟨-, rfl⟩ | ⟨-, rfl⟩
    · by_cases hid : id = id'
      · subst hid
        refine ⟨Function.update_self .., fun op o ho => ?_⟩
        simpa using (Option.filter_eq_some_iff.mp ho).2
      · have hold : s.rows id = none := by simpa [Function.update_of_ne hid] using hrow
        refine ⟨(Function.update_of_ne hid _ _).trans (h.empty hold).1, fun op o ho => ?_⟩
        exact (h.empty hold).2 op o (Option.filter_eq_some_iff.mp ho).1
    · exact h.empty hrow
  | storeOperation o =>
    rcases hn with ⟨-, rfl⟩ | ⟨-, rfl⟩
    · unfold Shared.stored at hrow ⊢
      split at hrow
      next hall =>
        rw [if_pos hall]
        refine ⟨(h.empty hrow).1, fun op o' ho => ?_⟩
        rcases update_some ho with ⟨rfl, rfl⟩ | ho
        · intro hid
          simp only [hid, Option.all_some] at hall
          simp only at hrow
          rw [hrow] at hall
          cases hall
        · exact (h.empty hrow).2 op o' ho
      next hall =>
        rw [if_neg hall]
        exact h.empty hrow
    · exact h.empty hrow
  | _ =>
    rw [((next_frame hn).rows rfl).1] at hrow
    rw [((next_frame hn).rows rfl).2.2, (next_frame hn).operations rfl]
    exact h.empty hrow

/-- What is gone under the lock of the process that asks. -/
structure Cleared (t : Shared) (v : View) : Prop where
  files {id : Text} {l : Nat} : v.lock = some (id, l) → v.filesGone = true → t.files id = false
  row {id : Text} {l : Nat} : v.lock = some (id, l) → v.rowGone = true → t.rows id = none
  jobs {id : Text} {l : Nat} : v.lock = some (id, l) → v.jobsGone = true →
    v.rowGone = true ∧ ∀ j ∈ t.jobs, ¬ j.of id

theorem Cleared.none {v : View} (hfiles : v.filesGone = false) (hrow : v.rowGone = false)
    (hjobs : v.jobsGone = false) : Cleared t v := by
  constructor
  · intro id l _ hf
    rw [hfiles] at hf
    cases hf
  · intro id l _ hr
    rw [hrow] at hr
    cases hr
  · intro id l _ hj
    rw [hjobs] at hj
    cases hj

/-- What another does keeps what is gone under a lock. -/
theorem Cleared.other (h : Sound s V) (hp : Present s q) (ha : (V i).Allows i q) (hn : next i s q r t)
    {j : Proc} (hj : j ≠ i) :
    Cleared t (V j) := by
  constructor
  · intro id l hl hgone
    refine h.files_stay ha hn (h.born_of_lock hl) ?_ (h.gone.files hl hgone)
    intro l' hi
    cases hrow : s.rows id with
    | none => rfl
    | some p => exact absurd (h.exclusive hl hi (by simp [hrow])) hj
  · intro id l hl hgone
    exact h.none_stays ha hn (h.born_of_lock hl) (h.gone.row hl hgone)
  · intro id l hl hgone
    obtain ⟨hrow, hjobs⟩ := h.gone.jobs hl hgone
    exact ⟨hrow, jobs_stay hp hn (h.gone.row hl hrow) hjobs⟩

/-- So does what the process itself does with its flags as they were. -/
theorem Cleared.kept (h : Sound s V) (hp : Present s q) (ha : (V i).Allows i q) (hn : next i s q r t)
    {v : View} (hlock : v.lock = (V i).lock) (hfiles : v.filesGone = (V i).filesGone)
    (hrow : v.rowGone = (V i).rowGone) (hjobs : v.jobsGone = (V i).jobsGone) (hsame : t.files = s.files) :
    Cleared t v := by
  constructor
  · intro id l hl hgone
    rw [hlock] at hl
    rw [hfiles] at hgone
    rw [hsame]
    exact h.gone.files hl hgone
  · intro id l hl hgone
    rw [hlock] at hl
    rw [hrow] at hgone
    exact h.none_stays ha hn (h.born_of_lock hl) (h.gone.row hl hgone)
  · intro id l hl hgone
    rw [hlock] at hl
    rw [hjobs] at hgone
    obtain ⟨hrow', hnone⟩ := h.gone.jobs hl hgone
    exact ⟨hrow.trans hrow', jobs_stay hp hn (h.gone.row hl hrow') hnone⟩

theorem Cleared.self (h : Sound s V) (hp : Present s q) (ha : (V i).Allows i q) (hn : next i s q r t) :
    Cleared t ((V i).after ⟨q, r⟩) := by
  have hframe := view_frame (V i) q r
  cases q with
  | acquire id l =>
    have hnext := hn
    rcases hn with ⟨rfl, -, -⟩ | ⟨⟨f, rfl⟩, -⟩
    · exact Cleared.none rfl rfl rfl
    · exact Cleared.kept h hp ha hnext rfl rfl rfl rfl ((next_frame hnext).files rfl)
  | release id l => exact Cleared.none rfl rfl rfl
  | lock id => exact Cleared.kept h hp ha hn rfl rfl rfl rfl ((next_frame hn).files rfl)
  | removeLock id => exact Cleared.kept h hp ha hn rfl rfl rfl rfl ((next_frame hn).files rfl)
  | prepare id =>
    refine ⟨fun _ hgone => ?_, fun hl hgone => ?_, fun hl hgone => ?_⟩
    · cases hgone
    · exact h.none_stays ha hn (h.born_of_lock hl) (h.gone.row hl hgone)
    · obtain ⟨hrow, hjobs⟩ := h.gone.jobs hl hgone
      exact ⟨hrow, jobs_stay hp hn (h.gone.row hl hrow) hjobs⟩
  | deleteFiles id =>
    obtain ⟨⟨l, hlocked⟩, p, hown⟩ := ha
    rcases hn with ⟨rfl, rfl⟩ | ⟨⟨f, rfl⟩, rfl⟩
    · refine ⟨fun hl _ => ?_, fun hl hgone => h.gone.row hl hgone, fun hl hgone => h.gone.jobs hl hgone⟩
      obtain ⟨rfl, -⟩ := Prod.mk.inj (Option.some.inj (hlocked.symm.trans hl))
      exact Function.update_self ..
    · exact ⟨fun hl hgone => h.gone.files hl hgone, fun hl hgone => h.gone.row hl hgone,
        fun hl hgone => h.gone.jobs hl hgone⟩
  | delete id =>
    obtain ⟨⟨l, hlocked⟩, -⟩ := ha
    rcases hn with ⟨rfl, rfl⟩ | ⟨⟨f, rfl⟩, rfl⟩
    · refine ⟨fun hl hgone => h.gone.files hl hgone, fun hl _ => ?_,
      fun hl hgone => ⟨rfl, (h.gone.jobs hl hgone).2⟩⟩
      obtain ⟨rfl, -⟩ := Prod.mk.inj (Option.some.inj (hlocked.symm.trans hl))
      exact Function.update_self ..
    · exact ⟨fun hl hgone => h.gone.files hl hgone, fun hl hgone => h.gone.row hl hgone,
        fun hl hgone => h.gone.jobs hl hgone⟩
  | removeJobs id =>
    obtain ⟨⟨l, hlocked⟩, hrow⟩ := ha
    obtain rfl := hn
    refine ⟨fun hl hgone => h.gone.files hl hgone, fun hl hgone => h.gone.row hl hgone,
      fun hl _ => ⟨hrow, ?_⟩⟩
    obtain ⟨rfl, -⟩ := Prod.mk.inj (Option.some.inj (hlocked.symm.trans hl))
    intro j hj hid
    exact of_decide_eq_true (List.mem_filter.mp hj).2 hid
  | _ =>
    obtain ⟨hfiles, hrow, hjobs⟩ := hframe.flags rfl
    exact Cleared.kept h hp ha hn (hframe.locks rfl).2 hfiles hrow hjobs ((next_frame hn).files rfl)

theorem Gone.step (h : Sound s V) (hp : Present s q) (ha : (V i).Allows i q) (hn : next i s q r t) :
    Gone t (stepped V i ⟨q, r⟩) := by
  have hcleared : ∀ j, Cleared t (stepped V i ⟨q, r⟩ j) := by
    intro j
    by_cases hj : j = i
    · subst hj
      rw [stepped_self]
      exact Cleared.self h hp ha hn
    · rw [stepped_other hj]
      exact Cleared.other h hp ha hn hj
  refine ⟨fun hrow => h.gone.empty_step hn hrow, fun {j} => (hcleared j).files, fun {j} => (hcleared j).row,
    fun {j} => (hcleared j).jobs, ?_⟩
  intro id hd
  have hold : s.deleted id = true → t.rows id = none ∧ t.files id = false ∧ ∀ j ∈ t.jobs, ¬ j.of id := by
    intro hs
    obtain ⟨hrow, hfiles, hjobs⟩ := h.gone.deleted hs
    have hborn := h.births.deleted hs
    exact ⟨h.none_stays ha hn hborn hrow, h.files_stay ha hn hborn (fun _ _ => hrow) hfiles,
      jobs_stay hp hn hrow hjobs⟩
  cases hq : q.leaving with
  | false => exact hold ((next_frame hn).deleted hq ▸ hd)
  | true =>
    cases q with
    | gone id' =>
      by_cases hid : id = id'
      · subst hid
        obtain ⟨⟨l, hl⟩, hfiles, hrow, hjobs⟩ := ha
        obtain rfl := hn
        exact ⟨h.gone.row hl hrow, h.gone.files hl hfiles, (h.gone.jobs hl hjobs).2⟩
      · refine hold ?_
        obtain rfl := hn
        exact (Function.update_of_ne hid _ _).symm.trans hd
    | _ => cases hq

/-! ## Gates -/

theorem Gates.readGate {provider : Text} {r : Awaited Unit} (h : Gates s V)
    (hn : next i s (.readGate provider) r t) :
    Gates t (stepped V i ⟨.readGate provider, r⟩) := by
  rcases hn with ⟨rfl, hwriter, rfl⟩ | ⟨⟨f, rfl⟩, rfl⟩
  · constructor
    · intro j p hj
      by_cases hji : j = i
      · subst hji
        rw [stepped_self] at hj
        obtain rfl := Option.some.inj hj
        simp
      · rw [stepped_other hji] at hj
        have hmem := h.reads hj
        simp only [Function.update_apply]
        split
        next hp =>
          subst hp
          exact List.mem_cons_of_mem _ hmem
        next => exact hmem
    · intro j p hj
      by_cases hji : j = i
      · subst hji
        rw [stepped_self] at hj
        exact h.writes hj
      · rw [stepped_other hji] at hj
        exact h.writes hj
    · intro j p hj
      have hne : p ≠ provider := by
        rintro rfl
        simp [hwriter] at hj
      exact (Function.update_of_ne hne _ _).trans (h.alone hj)
  · have hV : stepped V i ⟨.readGate provider, .dropped f⟩ = V := Function.update_eq_self i V
    rw [hV]
    exact h

theorem Gates.leaveGate {provider : Text} {r : Unit} (h : Gates s V)
    (hn : next i s (.leaveGate provider) r t) :
    Gates t (stepped V i ⟨.leaveGate provider, r⟩) := by
  obtain rfl := hn
  constructor
  · intro j p hj
    by_cases hji : j = i
    · subst hji
      rw [stepped_self] at hj
      cases hj
    · rw [stepped_other hji] at hj
      have hmem := h.reads hj
      simp only [Function.update_apply]
      split
      next hp =>
        subst hp
        exact (List.mem_erase_of_ne hji).mpr hmem
      next => exact hmem
  · intro j p hj
    by_cases hji : j = i
    · subst hji
      rw [stepped_self] at hj
      exact h.writes hj
    · rw [stepped_other hji] at hj
      exact h.writes hj
  · intro j p hj
    have hnil := h.alone hj
    simp only [Function.update_apply]
    split
    next hp =>
      subst hp
      rw [hnil]
      rfl
    next => exact hnil

theorem Gates.writeGate {provider : Text} {r : Awaited Unit} (h : Gates s V)
    (hn : next i s (.writeGate provider) r t) :
    Gates t (stepped V i ⟨.writeGate provider, r⟩) := by
  rcases hn with ⟨rfl, hwriter, hreaders, rfl⟩ | ⟨⟨f, rfl⟩, rfl⟩
  · constructor
    · intro j p hj
      by_cases hji : j = i
      · subst hji
        rw [stepped_self] at hj
        exact h.reads hj
      · rw [stepped_other hji] at hj
        exact h.reads hj
    · intro j p hj
      by_cases hji : j = i
      · subst hji
        rw [stepped_self] at hj
        obtain rfl := Option.some.inj hj
        exact Function.update_self ..
      · rw [stepped_other hji] at hj
        have hne : p ≠ provider := by
          rintro rfl
          rw [h.writes hj] at hwriter
          cases hwriter
        exact (Function.update_of_ne hne _ _).trans (h.writes hj)
    · intro j p hj
      rcases update_some hj with ⟨rfl, -⟩ | hj
      · exact hreaders
      · exact h.alone hj
  · have hV : stepped V i ⟨.writeGate provider, .dropped f⟩ = V := Function.update_eq_self i V
    rw [hV]
    exact h

theorem Gates.leaveExclusive {provider : Text} {r : Unit} (h : Gates s V)
    (ha : (V i).Allows i (.leaveExclusive provider)) (hn : next i s (.leaveExclusive provider) r t) :
    Gates t (stepped V i ⟨.leaveExclusive provider, r⟩) := by
  obtain rfl := hn
  constructor
  · intro j p hj
    by_cases hji : j = i
    · subst hji
      rw [stepped_self] at hj
      exact h.reads hj
    · rw [stepped_other hji] at hj
      exact h.reads hj
  · intro j p hj
    by_cases hji : j = i
    · subst hji
      rw [stepped_self] at hj
      cases hj
    · rw [stepped_other hji] at hj
      have hne : p ≠ provider := by
        rintro rfl
        have hi := h.writes ha
        rw [h.writes hj] at hi
        exact hji (Option.some.inj hi)
      exact (Function.update_of_ne hne _ _).trans (h.writes hj)
  · intro j p hj
    by_cases hp : p = provider
    · simp [hp] at hj
    · exact h.alone (by simpa [Function.update_of_ne hp] using hj)

theorem Gates.step (h : Gates s V) (ha : (V i).Allows i q) (hn : next i s q r t) :
    Gates t (stepped V i ⟨q, r⟩) := by
  cases hq : q.gating with
  | false =>
    obtain ⟨hreaders, hwriter⟩ := (next_frame hn).gates hq
    constructor
    · intro j provider hj
      rw [(stepped_gates hq j).1] at hj
      rw [hreaders]
      exact h.reads hj
    · intro j provider hj
      rw [(stepped_gates hq j).2] at hj
      rw [hwriter]
      exact h.writes hj
    · intro j provider hj
      rw [hwriter] at hj
      rw [hreaders]
      exact h.alone hj
  | true =>
    cases q with
    | readGate provider => exact h.readGate hn
    | leaveGate provider => exact h.leaveGate hn
    | writeGate provider => exact h.writeGate hn
    | leaveExclusive provider => exact h.leaveExclusive ha hn
    | _ => cases hq

/-! ## Operations -/

theorem Single.sublist {jobs : List Job} (h : Single s) (hsub : jobs.Sublist s.jobs) (ht : t.jobs = jobs) :
    Single t := by
  intro id
  rw [ht]
  exact le_trans (hsub.countP_le) (h id)

theorem Single.map {f : Job → Job} (h : Single s) (hid : ∀ j, (f j).value.profileId = j.value.profileId)
    (hf : ∀ j, j.value.finished = true → (f j).value.finished = true)
    (ht : t.jobs = s.jobs.map f) : Single t := by
  intro id
  rw [ht, List.countP_map]
  refine le_trans (List.countP_mono_left fun j _ hj => ?_) (h id)
  simp only [Function.comp_apply, Bool.and_eq_true, decide_eq_true_eq, Bool.not_eq_true', Job.of, hid] at hj ⊢
  refine ⟨decide_eq_true hj.1, ?_⟩
  cases hfin : j.value.finished with
  | false => rfl
  | true => simp [hf j hfin] at hj

theorem kept_sublist (s : Shared) (limit : Nat) : (s.kept limit).Sublist s.jobs := by
  unfold Shared.kept
  split
  · exact List.filter_sublist
  · exact List.Sublist.refl _

/-- A new operation of a profile that had none that was not finished. -/
theorem Single.started {o : Operation} {limit : Nat} (h : Single s)
    (hnone : ∀ id, o.profileId = some id → ∀ j ∈ s.running, ¬ j.of id)
    (ht : t.jobs = s.kept limit ++ [⟨o, []⟩]) : Single t := by
  intro id
  rw [ht, List.countP_append]
  have hle := (kept_sublist s limit).countP_le (p := fun j => decide (j.of id) && !j.value.finished)
  by_cases hid : o.profileId = some id
  · have hzero : (s.jobs.countP fun j => decide (j.of id) && !j.value.finished) = 0 := by
      rw [List.countP_eq_zero]
      intro j hj hcount
      simp only [Bool.and_eq_true, decide_eq_true_eq, Bool.not_eq_true'] at hcount
      exact hnone id hid j (List.mem_filter.mpr ⟨hj, by simp [hcount.2]⟩) hcount.1
    have hone : ([(⟨o, []⟩ : Job)].countP fun j => decide (j.of id) && !j.value.finished) ≤ 1 :=
      List.countP_le_length
    omega
  · have hzero : ([(⟨o, []⟩ : Job)].countP fun j => decide (j.of id) && !j.value.finished) = 0 := by
      simp [Job.of, hid]
    have hold := h id
    omega

theorem Single.step (h : Single s) (hn : next i s q r t) : Single t := by
  cases hq : q.queueing with
  | false => exact h.sublist (List.Sublist.refl _) ((next_frame hn).jobs hq)
  | true =>
    cases q with
    | begin p kind =>
      cases hn with
      | fresh op hnone =>
        refine h.started ?_ rfl
        rintro id ⟨⟩
        exact hnone
      | crowded => exact h.sublist (kept_sublist s 128) rfl
      | _ => exact h
    | beginRuntime provider kind =>
      cases hn with
      | fresh op hnone =>
        refine h.started ?_ rfl
        rintro id ⟨⟩
      | full => exact h.sublist (kept_sublist s 0) rfl
      | _ => exact h
    | cancelProfile id =>
      refine h.map ?_ ?_ (congrArg Shared.jobs hn)
      · intro j
        split <;> rfl
      · intro j hj
        split <;> exact hj
    | cancelOperation op =>
      rcases hn with ⟨-, rfl⟩ | ⟨-, rfl⟩
      · exact h
      · refine h.map ?_ ?_ rfl
        · intro j
          split <;> rfl
        · intro j hj
          split <;> exact hj
    | removeJob op => exact h.sublist List.filter_sublist (congrArg Shared.jobs hn)
    | removeJobs id => exact h.sublist List.filter_sublist (congrArg Shared.jobs hn)
    | finish op =>
      refine h.map ?_ ?_ (congrArg Shared.jobs hn)
      · intro j
        split <;> rfl
      · intro j hj
        split
        · rfl
        · exact hj
    | _ => cases hq

theorem Sound.step (h : Sound s V) (hp : Present s q) (ha : (V i).Allows i q) (hn : next i s q r t) :
    Sound t (stepped V i ⟨q, r⟩) :=
  ⟨.step h ha hn, .step h ha hn, .step h ha hn, .step h hp ha hn, h.gates.step ha hn, h.single.step hn⟩

end Steps

end HomeStack.Accounts

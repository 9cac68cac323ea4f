import HomeStack.AccountsRuns

/-! What every run of the agent accounts service keeps, if each operation is begun while its profile is
there, and a run in which one is begun for a profile whose deletion was answered. -/

namespace HomeStack.Accounts

open Prog (Event Exec)
open Prog.Pool (own own_cons)

abbrev Service := Prog.Pool.State Proc Ask Ask.Answer Shared Result

/-- The service has started: nothing runs yet, and the database is as earlier runs left it. -/
structure Started (s : Shared) : Prop where
  row {id : Text} {p : Profile} : s.rows id = some p → p.id = id ∧ s.born id = some p.provider ∧
    p.enabled = (s.edited id).getD true
  empty {id : Text} : s.rows id = none → s.history id = [] ∧
    ∀ op o, s.operations op = some o → o.profileId ≠ some id
  used {id provider : Text} : s.born id = some provider → s.used id = true
  edited {id : Text} {enabled : Bool} : s.edited id = some enabled → (s.born id).isSome
  deleted {id : Text} : s.deleted id = true → (s.born id).isSome ∧ s.rows id = none ∧ s.files id = false
  idle : s.jobs = [] ∧ (∀ op, s.started op = none) ∧ (∀ l, s.owner l = none) ∧ (∀ id, s.locks id = none) ∧
    (∀ provider, s.writer provider = none)

theorem Started.sound {s : Shared} (h : Started s) : Sound s fun _ => .empty := by
  obtain ⟨hjobs, hstarted, howner, hlocks, hwriter⟩ := h.idle
  constructor
  · constructor <;> simp [View.empty, hlocks]
  · constructor
    · simp [View.empty]
    · simp [View.empty]
    · simp [View.empty]
    · exact h.used
    · simp [howner]
    · simp [hstarted]
    · simp [View.empty]
    · exact fun hp => ⟨(h.row hp).1, (h.row hp).2.1⟩
    · exact h.edited
    · exact fun hd => (h.deleted hd).1
  · constructor
    · exact fun hp => (h.row hp).2.2
    · simp [View.empty]
  · constructor
    · exact h.empty
    · simp [View.empty]
    · simp [View.empty]
    · simp [View.empty]
    · exact fun hd => ⟨(h.deleted hd).2.1, (h.deleted hd).2.2, by simp [hjobs]⟩
  · constructor <;> simp [View.empty, hwriter]
  · simp [Single, hjobs]

/-- A process is at work with a provider. -/
def Works (st : Service) (i : Proc) (provider : Text) : Prop := ∃ q k, st.left i = .ask q k ∧ q.works provider

/-- The task of a check or a change of a runtime. -/
def Changes (s : Shared) (i : Proc) : Prop :=
  ∃ op o, i = .task op ∧ s.started op = some o ∧ o.profileId = none

/-- What the service is for. -/
structure Safe (st : Service) : Prop where
  /-- A profile is enabled as by its last edit. -/
  enabled {id : Text} {p : Profile} : st.shared.rows id = some p → p.enabled = (st.shared.edited id).getD true
  single : Single st.shared
  /-- While one has a provider to itself, no other works with it. -/
  exclusive {i j : Proc} {provider : Text} : st.shared.writer provider = some j → Works st i provider → i = j
  /-- A runtime is changed only so. -/
  changes {i : Proc} {provider : Text} : Changes st.shared i → Works st i provider →
    st.shared.writer provider = some i
  /-- Nothing is left of a profile that was deleted. -/
  deleted {id : Text} : st.shared.deleted id = true → st.shared.rows id = none ∧ st.shared.history id = [] ∧
    (∀ op o, st.shared.operations op = some o → o.profileId ≠ some id) ∧ st.shared.files id = false ∧
      ∀ j ∈ st.shared.jobs, ¬ j.of id

section

variable {requests : Nat → Request} {s₀ : Shared} {st : Service} {c : Shared → Ask → Prop}

theorem run_allows (hr : Prog.Pool.Run (world c) (Prog.Pool.start (program requests) s₀) st) {i : Proc}
    {q : Ask} {k : q.Answer → Run Result} (hleft : st.left i = .ask q k) :
    (view (own i st.log)).Allows i q := by
  have hw := Prog.Pool.Run.wp (fun i => program_allows requests i) hr i
  rw [hleft] at hw
  exact hw.1

theorem own_step (V : Views) (log : List (Prog.Pool.Entry Proc Ask Ask.Answer Shared))
    (hV : V = fun j => view (own j log)) (e : Prog.Pool.Entry Proc Ask Ask.Answer Shared) :
    (fun j => view (own j (e :: log))) = stepped V e.proc e.event := by
  funext j
  rw [own_cons, hV]
  by_cases hj : e.proc = j
  · subst hj
    rw [if_pos rfl, stepped_self]
    rfl
  · rw [if_neg hj, stepped_other (Ne.symm hj)]

theorem Sound.older {s : Shared} {V : Views} (h : Sound s V) (young : Nat → Bool) :
    Sound { s with young := young } V :=
  ⟨⟨h.locks.got, h.locks.held, h.locks.current, h.locks.owned⟩,
    ⟨h.births.seen, h.births.fresh, h.births.alone, h.births.used, h.births.owner, h.births.started,
      h.births.task, h.births.row,
      h.births.edited, h.births.deleted⟩,
    ⟨h.records.enabled, h.records.record⟩, ⟨h.gone.empty, h.gone.files, h.gone.row,
      h.gone.jobs, h.gone.deleted⟩,
    ⟨h.gates.reads, h.gates.writes, h.gates.alone⟩, h.single⟩

theorem run_sound (h₀ : Started s₀)
    (hr : Prog.Pool.Run (world Present) (Prog.Pool.start (program requests) s₀) st) :
    Sound st.shared fun i => view (own i st.log) := by
  induction hr with
  | refl => exact h₀.sound
  | tail hrun hstep ih =>
    cases hstep with
    | @ask i q k r t hleft hnext =>
      rw [own_step _ _ rfl]
      exact ih.step hnext.1 (run_allows hrun hleft) hnext.2
    | idle h =>
      obtain ⟨young, ht⟩ := h
      rw [ht]
      exact ih.older young

theorem allows_atGate {i : Proc} {v : View} {q : Ask} {provider : Text} (ha : v.Allows i q)
    (hq : q.works provider) :
    v.AtGate provider := by
  cases q with
  | authenticating p | counting p | probing p | working p =>
    obtain rfl := hq
    exact ha
  | _ => cases hq

/-- At work with a provider: alone, or with others while nobody has it alone. -/
theorem Sound.gate {s : Shared} {V : Views} (h : Sound s V) {i : Proc} {provider : Text}
    (hg : (V i).AtGate provider) :
    s.writer provider = some i ∨ s.writer provider = none ∧ ¬ Changes s i := by
  rcases hg with hw | ⟨id, l, r, o, hl, hr, rfl, ht, hid, hread⟩
  · exact Or.inl (h.gates.writes hw)
  · obtain ⟨op, rfl, hstarted⟩ := h.births.task ht
    have hborn := h.births.started hstarted hid
    rw [(h.births.row (h.records.record hl hr)).2] at hborn
    rw [← Option.some.inj hborn] at hread
    refine Or.inr ⟨?_, ?_⟩
    · cases hw : s.writer r.provider with
      | none => rfl
      | some j =>
        have hmem := h.gates.reads hread
        rw [h.gates.alone hw] at hmem
        cases hmem
    · rintro ⟨op', o', hop, hstarted', hnone⟩
      cases hop
      rw [hstarted] at hstarted'
      obtain rfl := Option.some.inj hstarted'
      rw [hid] at hnone
      cases hnone

/-- In every run whose operations are begun while their profiles are there: edits are not lost, a
profile has one operation at a time, a runtime is changed alone, and a deletion is final. -/
theorem profiles_safe (h₀ : Started s₀)
    (hr : Prog.Pool.Run (world Present) (Prog.Pool.start (program requests) s₀) st) : Safe st := by
  have h := run_sound h₀ hr
  have hgate : ∀ {i provider}, Works st i provider →
      st.shared.writer provider = some i ∨ st.shared.writer provider = none ∧ ¬ Changes st.shared i := by
    rintro i provider ⟨q, k, hleft, hq⟩
    exact h.gate (allows_atGate (run_allows hr hleft) hq)
  constructor
  · exact h.records.enabled
  · exact h.single
  · intro i j provider hwriter hworks
    rcases hgate hworks with hi | ⟨hnone, -⟩
    · exact Option.some.inj (hi.symm.trans hwriter)
    · rw [hnone] at hwriter
      cases hwriter
  · intro i provider hchanges hworks
    rcases hgate hworks with hi | ⟨-, hno⟩
    · exact hi
    · exact absurd hchanges hno
  · intro id hd
    obtain ⟨hrow, hfiles, hjobs⟩ := h.gone.deleted hd
    obtain ⟨hhistory, hops⟩ := h.gone.empty hrow
    exact ⟨hrow, hhistory, hops, hfiles, hjobs⟩

end

/-! ## A deletion between a read and a `begin` -/

def work : Profile :=
  ⟨"p", "codex", "Work", true, false, "unauthenticated", none, none, none, none, 0, 0, none, 0, 0⟩

/-- One profile, and nothing runs. -/
def single : Shared where
  rows := Function.update (fun _ => none) "p" (some work)
  history _ := []
  operations _ := none
  files := Function.update (fun _ => false) "p" true
  jobs := []
  started _ := none
  spawned _ := false
  young _ := false
  locks _ := none
  owner _ := none
  holder _ := none
  readers _ := []
  writer _ := none
  used := Function.update (fun _ => false) "p" true
  born := Function.update (fun _ => none) "p" (some "codex")
  edited _ := none
  deleted _ := false

theorem started_single : Started single := by
  constructor
  · intro id p hp
    replace hp : Function.update (fun _ => none) ("p" : Text) (some work) id = some p := hp
    rcases update_some hp with ⟨rfl, rfl⟩ | hp
    · exact ⟨rfl, rfl, rfl⟩
    · cases hp
  · intro id _
    exact ⟨rfl, nofun⟩
  · intro id provider hb
    replace hb : Function.update (fun _ => none) ("p" : Text) (some ("codex" : Text)) id = some provider := hb
    rcases update_some hb with ⟨rfl, -⟩ | hb
    · rfl
    · cases hb
  · exact nofun
  · exact nofun
  · exact ⟨rfl, fun _ => rfl, fun _ => rfl, fun _ => rfl, fun _ => rfl⟩

def read : Shared := single.cancel (.request 1) fun j => j.value.profileId = some "p" && !j.value.finished

def gotten : Shared := { read with
  locks := Function.update read.locks "p" (some 0), owner := Function.update read.owner 0 (some "p") }

def locked : Shared := { gotten with holder := Function.update gotten.holder 0 (some (.request 1)) }

def marked : Shared := { locked.saved { work with deleting := true } none with edited := locked.edited }

def emptied : Shared := { marked with files := Function.update marked.files "p" false }

def dropped : Shared :=
  { emptied with
    rows := Function.update emptied.rows "p" none
    history := Function.update emptied.history "p" []
    operations := fun op => (emptied.operations op).filter fun o => o.profileId ≠ some "p" }

def unlocked : Shared := { dropped with locks := Function.update dropped.locks "p" none }

def unqueued : Shared := { unlocked with jobs := unlocked.jobs.filter fun j => j.value.profileId ≠ some "p" }

def answered : Shared := { unqueued with deleted := Function.update unqueued.deleted "p" true }

def released : Shared := { answered with holder := Function.update answered.holder 0 none }

section

variable {c : Shared → Ask → Prop}

/-- The profile is deleted without a hitch. -/
theorem exec_delete (hc : ∀ s q, q.starting = false → c s q) :
    Exec ((world c).env (.request 1)) (deleteProfile "p" true) single (some (.ok ())) released := by
  have hwork : ∀ p, Except.ok work = (.ok p : Except Failure Profile) → some work = some p := by
    rintro _ ⟨⟩
    rfl
  have h₁ : ((world c).env (.request 1)).next single (.profile "p") (.ok work) single :=
    ⟨hc _ _ rfl, rfl, hwork⟩
  have h₂ : ((world c).env (.request 1)).next single (.cancelProfile "p") () read := ⟨hc _ _ rfl, rfl⟩
  have h₃ : ((world c).env (.request 1)).next read (.lock "p") (0 : Nat) gotten :=
    ⟨hc _ _ rfl, Or.inr ⟨rfl, rfl, rfl⟩⟩
  have h₄ : ((world c).env (.request 1)).next gotten (.acquire "p" 0) (.done ()) locked :=
    ⟨hc _ _ rfl, Or.inl ⟨rfl, rfl, rfl⟩⟩
  have h₅ : ((world c).env (.request 1)).next locked (.profile "p") (.ok work) locked :=
    ⟨hc _ _ rfl, rfl, hwork⟩
  have h₆ : ((world c).env (.request 1)).next locked (.save { work with deleting := true } none false)
      (.ok ()) marked :=
    ⟨hc _ _ rfl, Or.inl ⟨rfl, rfl⟩⟩
  have h₇ : ((world c).env (.request 1)).next marked (.deleteFiles "p") (.ok ()) emptied :=
    ⟨hc _ _ rfl, Or.inl ⟨rfl, rfl⟩⟩
  have h₈ : ((world c).env (.request 1)).next emptied (.delete "p") (.ok ()) dropped :=
    ⟨hc _ _ rfl, Or.inl ⟨rfl, rfl⟩⟩
  have h₉ : ((world c).env (.request 1)).next dropped (.removeLock "p") () unlocked := ⟨hc _ _ rfl, rfl⟩
  have h₁₀ : ((world c).env (.request 1)).next unlocked (.removeJobs "p") () unqueued := ⟨hc _ _ rfl, rfl⟩
  have h₁₁ : ((world c).env (.request 1)).next unqueued (.gone "p") () answered := ⟨hc _ _ rfl, rfl⟩
  have h₁₂ : ((world c).env (.request 1)).next answered (.release "p" 0) () released := ⟨hc _ _ rfl, rfl⟩
  exact .step h₁ <| .step h₂ <| .step h₃ <| .step h₄ <| .step h₅ <| .step h₆ <|
    .step h₇ <| .step h₈ <| .step h₉ <|
    .step h₁₀ <| .step h₁₁ <| .step h₁₂ <| .done _ _

end

/-- An authentication has read the profile, and the profile is deleted. -/
def two : Nat → Request
  | 0 => .authenticate "p"
  | _ => .delete "p" true

def begun : Shared := released.start (released.kept 128) ⟨0, some "p", "codex", .authentication, false⟩ true

theorem run_deleted {c : Shared → Ask → Prop} (hc : ∀ s q, q.starting = false → c s q) :
    ∃ st, Prog.Pool.Run (world c) (Prog.Pool.start (program two) single) st ∧ st.shared = released ∧
      ∃ k, st.left (.request 0) = .ask (.begin work .authentication) k := by
  have hread : ((world c).env (.request 0)).next single (.profile "p") (.ok work) single := by
    refine ⟨hc _ _ rfl, rfl, ?_⟩
    rintro _ ⟨⟩
    rfl
  have hexec : Exec ((world c).env (.request 0)) (ask (.profile "p")) single (some (.ok work)) single :=
    .step hread (.done _ _)
  obtain ⟨s₁, hrun₁, hshared₁, hother₁, hleft₁, -⟩ :=
    Prog.Pool.Run.of_exec (W := world c) (i := .request 0) (fun h => h) hexec
      (s := Prog.Pool.start (program two) single) rfl rfl
  have hdelete : s₁.left (.request 1) = deleteProfile "p" true >>= pure := by
    rw [hother₁ _ (by decide), bind_pure]
    rfl
  obtain ⟨s₂, hrun₂, hshared₂, hother₂, -, -⟩ :=
    Prog.Pool.Run.of_exec (W := world c) (i := .request 1) (fun h => h) (exec_delete hc) hdelete hshared₁
  refine ⟨s₂, hrun₁.trans hrun₂, hshared₂, ?_⟩
  rw [hother₂ _ (by decide), hleft₁ _ rfl]
  exact ⟨_, rfl⟩

/-- So far all is well. -/
theorem profiles_safe_deleted :
    ∃ st : Service, Prog.Pool.Run (world Present) (Prog.Pool.start (program two) single) st ∧
    st.shared.deleted "p" = true ∧ Safe st := by
  obtain ⟨st, hrun, hshared, -⟩ := run_deleted (c := Present) (by
    intro s q hq
    cases q with
    | begin => cases hq
    | _ => trivial)
  exact ⟨st, hrun, by rw [hshared]; rfl, profiles_safe started_single hrun⟩

/-- The authentication is begun for the profile that is gone. -/
theorem profiles_begun_deleted : ¬ ∀ (requests : Nat → Request) (s₀ : Shared) (st : Service), Started s₀ →
    Prog.Pool.Run (world fun _ _ => True) (Prog.Pool.start (program requests) s₀) st → Safe st := by
  intro h
  obtain ⟨st, hrun, hshared, k, hleft⟩ := run_deleted (c := fun _ _ => True) (fun _ _ _ => trivial)
  have hbegun : Begun released work .authentication (.ok 0) begun :=
    .fresh 0 nofun (by decide) (by decide) rfl
  have hnext : ((world fun _ _ => True).env (.request 0)).next st.shared
      (.begin work .authentication) (.ok 0) begun := by
    rw [hshared]
    exact ⟨trivial, hbegun⟩
  have hsafe := h two single _ started_single (hrun.tail (.ask hleft hnext))
  have hgone := @Safe.deleted _ hsafe "p" rfl
  exact hgone.2.2.2.2 ⟨⟨0, some "p", "codex", .authentication, false⟩, []⟩ (by simp [begun, Shared.start]) rfl

end HomeStack.Accounts

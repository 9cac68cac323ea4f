import HomeStack.AccountsViews

/-! What holds in every run of the agent accounts service, however its requests and operations
interleave. The invariant joins what is shared with the views of all processes. Here are its parts, what
a question can change, and that the locks and the profiles that ever were are kept. -/

namespace HomeStack.Accounts

open Prog (Event)

theorem update_some {α β : Type} [DecidableEq α] {f : α → Option β} {a x : α} {b c : β}
    (h : Function.update f a (some b) x = some c) : (x = a ∧ b = c) ∨ f x = some c := by
  by_cases hx : x = a
  · subst hx
    exact Or.inl ⟨rfl, by simpa using h⟩
  · exact Or.inr (by simpa [Function.update_of_ne hx] using h)

/-! ## What a question can change -/

namespace Ask

def locking : Ask → Bool
  | .lock _ | .acquire _ _ | .release _ _ | .removeLock _ => true
  | _ => false

def gating : Ask → Bool
  | .readGate _ | .leaveGate _ | .writeGate _ | .leaveExclusive _ => true
  | _ => false

def writing : Ask → Bool
  | .insert _ | .save _ _ _ | .delete _ | .activate _ _ => true
  | _ => false

def inserting : Ask → Bool
  | .insert _ => true
  | _ => false

def meeting : Ask → Bool
  | .profile _ | .profiles | .take _ => true
  | _ => false

def recording : Ask → Bool
  | .profile _ | .save _ _ _ | .activate _ _ | .delete _ | .acquire _ _ | .release _ _ => true
  | _ => false

/-- What is gone under the lock changes. -/
def clearing : Ask → Bool
  | .prepare _ | .deleteFiles _ | .delete _ | .removeJobs _ | .acquire _ _ | .release _ _ => true
  | _ => false

def storing : Ask → Bool
  | .delete _ | .storeOperation _ => true
  | _ => false

def queueing : Ask → Bool
  | .begin _ _ | .beginRuntime _ _ | .cancelProfile _ | .cancelOperation _ | .removeJob
      _ | .removeJobs _ | .finish _ => true
  | _ => false

def starting : Ask → Bool
  | .begin _ _ | .beginRuntime _ _ => true
  | _ => false

def filing : Ask → Bool
  | .prepare _ | .deleteFiles _ => true
  | _ => false

def naming : Ask → Bool
  | .newId => true
  | _ => false

def leaving : Ask → Bool
  | .gone _ => true
  | _ => false

/-- A provider is at work. -/
def works (provider : Text) : Ask → Prop
  | .authenticating p | .counting p | .probing p | .working p => p = provider
  | _ => False

end Ask

theorem Begun.only {s t : Shared} {p : Profile} {kind : Kind} {r : Except Failure Nat}
    (h : Begun s p kind r t) :
    t = { s with jobs := t.jobs, started := t.started, spawned := t.spawned } := by
  cases h <;> rfl

theorem BegunRuntime.only {s t : Shared} {provider : Text} {kind : Kind} {r : Except Failure Nat}
    (h : BegunRuntime s provider kind r t) :
    t = { s with jobs := t.jobs, started := t.started, spawned := t.spawned } := by
  cases h <;> rfl

theorem Shared.stored_only (s : Shared) (o : Operation) :
    s.stored o = { s with operations := (s.stored o).operations } := by
  unfold Shared.stored
  split <;> rfl

/-- What a question leaves as it was. -/
structure Frame (q : Ask) (s t : Shared) : Prop where
  locks : q.locking = false → t.locks = s.locks ∧ t.owner = s.owner ∧ t.holder = s.holder
  gates : q.gating = false → t.readers = s.readers ∧ t.writer = s.writer
  rows : q.writing = false → t.rows = s.rows ∧ t.edited = s.edited ∧ t.history = s.history
  born : q.inserting = false → t.born = s.born
  started : q.starting = false → t.started = s.started
  files : q.filing = false → t.files = s.files
  used : q.naming = false → t.used = s.used
  deleted : q.leaving = false → t.deleted = s.deleted
  operations : q.storing = false → t.operations = s.operations
  jobs : q.queueing = false → t.jobs = s.jobs

theorem Frame.refl (q : Ask) (s : Shared) : Frame q s s :=
  ⟨fun _ => ⟨rfl, rfl, rfl⟩, fun _ => ⟨rfl, rfl⟩, fun _ => ⟨rfl, rfl, rfl⟩, fun _ => rfl, fun _ => rfl,
    fun _ => rfl, fun _ => rfl,
    fun _ => rfl, fun _ => rfl, fun _ => rfl⟩

theorem next_frame {i : Proc} {s t : Shared} {q : Ask} {r : q.Answer} (hn : next i s q r t) :
    Frame q s t := by
  have hrefl := Frame.refl q s
  cases q with
  | profile | profiles | operation | take =>
    obtain ⟨rfl, -⟩ := hn
    exact hrefl
  | begin =>
    rw [Begun.only hn]
    constructor <;> simp [Ask.starting, Ask.queueing]
  | beginRuntime =>
    rw [BegunRuntime.only hn]
    constructor <;> simp [Ask.starting, Ask.queueing]
  | storeOperation =>
    rcases hn with ⟨-, rfl⟩ | ⟨-, rfl⟩
    · rw [Shared.stored_only]
      constructor <;> simp [Ask.storing]
    · exact hrefl
  | insert | save | delete | deleteFiles | cancelOperation =>
    rcases hn with ⟨-, rfl⟩ | ⟨-, rfl⟩ <;> constructor <;>
      simp [Ask.writing, Ask.inserting, Ask.filing, Ask.storing, Ask.queueing, Shared.saved, Shared.cancel]
  | prepare =>
    rcases hn with rfl | ⟨-, rfl⟩ <;> constructor <;> simp [Ask.filing]
  | activate | acquire | readGate =>
    rcases hn with ⟨-, -, rfl⟩ | ⟨-, rfl⟩ <;> constructor <;>
      simp [Ask.writing, Ask.locking, Ask.gating, Shared.saved]
  | writeGate =>
    rcases hn with ⟨-, -, -, rfl⟩ | ⟨-, rfl⟩ <;> constructor <;> simp [Ask.gating]
  | lock =>
    rcases hn with ⟨-, rfl⟩ | ⟨-, -, rfl⟩ <;> constructor <;> simp [Ask.locking]
  | newId =>
    obtain ⟨-, rfl⟩ := hn
    constructor <;> simp [Ask.naming]
  | release | removeLock | leaveGate | leaveExclusive | gone | cancelProfile | removeJob | removeJobs | spawn
  | finish =>
    obtain rfl := hn
    constructor <;> simp [Ask.locking, Ask.gating, Ask.leaving, Ask.queueing, Shared.cancel]
  | authenticating | counting | probing | working | slot | sleep | check | now =>
    obtain rfl := hn
    exact hrefl

/-- What a question leaves of the view of who asks it. -/
structure ViewFrame (q : Ask) (v v' : View) : Prop where
  locks : q.locking = false → v'.got = v.got ∧ v'.lock = v.lock
  gates : q.gating = false → v'.reads = v.reads ∧ v'.writes = v.writes
  met : q.meeting = false → v'.seen = v.seen ∧ v'.task = v.task
  fresh : q.naming = false → q.inserting = false → v'.fresh = v.fresh
  record : q.recording = false → v'.record = v.record
  flags : q.clearing = false → v'.filesGone = v.filesGone ∧ v'.rowGone = v.rowGone ∧ v'.jobsGone = v.jobsGone

theorem ViewFrame.refl (q : Ask) (v : View) : ViewFrame q v v :=
  ⟨fun _ => ⟨rfl, rfl⟩, fun _ => ⟨rfl, rfl⟩, fun _ => ⟨rfl, rfl⟩, fun _ _ => rfl, fun _ => rfl,
    fun _ => ⟨rfl, rfl, rfl⟩⟩

theorem view_frame (v : View) (q : Ask) (r : q.Answer) : ViewFrame q v (v.after ⟨q, r⟩) := by
  cases q with
  | profile | profiles | insert | save | activate | deleteFiles | delete =>
    cases r <;> constructor <;> simp [Ask.meeting, Ask.inserting, Ask.recording, Ask.clearing,
      View.after, View.learns]
  | acquire | readGate | writeGate =>
    cases r <;> constructor <;> simp [Ask.locking, Ask.gating, Ask.recording, Ask.clearing,
      View.after, View.locked]
  | lock | release | leaveGate | leaveExclusive =>
    constructor <;> simp [Ask.locking, Ask.gating, Ask.recording, Ask.clearing, View.after, View.locked]
  | take | newId | prepare | removeJobs => constructor <;>
      simp [Ask.meeting, Ask.naming, Ask.clearing, View.after]
  | _ => exact .refl _ v

/-! ## The invariant -/

abbrev Views := Proc → View

/-- The locks: whoever has one holds it, and it is the one of the map while the profile has a row. -/
structure Locks (s : Shared) (V : Views) : Prop where
  got {i : Proc} {id : Text} {l : Nat} : (V i).got = some (id, l) → s.owner l = some id ∧
    ((s.rows id).isSome → s.locks id = some l)
  held {i : Proc} {id : Text} {l : Nat} : (V i).lock = some (id, l) →
    s.holder l = some i ∧ s.owner l = some id
  current {i : Proc} {id : Text} {l : Nat} : (V i).lock = some (id, l) →
    (s.rows id).isSome → s.locks id = some l
  owned {id : Text} {l : Nat} : s.locks id = some l → s.owner l = some id

/-- The profiles that ever were: an id is made once and keeps its provider. -/
structure Births (s : Shared) (V : Views) : Prop where
  seen {i : Proc} {id provider : Text} : (id, provider) ∈ (V i).seen → s.born id = some provider
  fresh {i : Proc} {id : Text} : (V i).fresh = some id → s.born id = none ∧ s.used id = true
  alone {i j : Proc} {id : Text} : (V i).fresh = some id → (V j).fresh = some id → i = j
  used {id provider : Text} : s.born id = some provider → s.used id = true
  owner {id : Text} {l : Nat} : s.owner l = some id → (s.born id).isSome
  started {op : Nat} {o : Operation} {id : Text} : s.started op = some o → o.profileId = some id →
    s.born id = some o.provider
  task {i : Proc} {o : Operation} : (V i).task = some o → ∃ op, i = .task op ∧ s.started op = some o
  row {id : Text} {p : Profile} : s.rows id = some p → p.id = id ∧ s.born id = some p.provider
  edited {id : Text} {enabled : Bool} : s.edited id = some enabled → (s.born id).isSome
  deleted {id : Text} : s.deleted id = true → (s.born id).isSome

/-- The rows: enabled as the last edit left them, and as they were read by who has the lock. -/
structure Records (s : Shared) (V : Views) : Prop where
  enabled {id : Text} {p : Profile} : s.rows id = some p → p.enabled = (s.edited id).getD true
  record {i : Proc} {id : Text} {l : Nat} {p : Profile} : (V i).lock = some (id, l) →
    (V i).record = some p → s.rows id = some p

/-- Nothing is left of a profile whose deletion was answered, nor comes back. -/
structure Gone (s : Shared) (V : Views) : Prop where
  empty {id : Text} : s.rows id = none → s.history id = [] ∧
    ∀ op o, s.operations op = some o → o.profileId ≠ some id
  files {i : Proc} {id : Text} {l : Nat} : (V i).lock = some (id, l) →
    (V i).filesGone = true → s.files id = false
  row {i : Proc} {id : Text} {l : Nat} : (V i).lock = some (id, l) → (V i).rowGone = true → s.rows id = none
  jobs {i : Proc} {id : Text} {l : Nat} : (V i).lock = some (id, l) → (V i).jobsGone = true →
    (V i).rowGone = true ∧ ∀ j ∈ s.jobs, ¬ j.of id
  deleted {id : Text} : s.deleted id = true → s.rows id = none ∧ s.files id = false ∧ ∀ j ∈ s.jobs, ¬ j.of id

/-- The gates: many readers or one writer. -/
structure Gates (s : Shared) (V : Views) : Prop where
  reads {i : Proc} {provider : Text} : (V i).reads = some provider → i ∈ s.readers provider
  writes {i : Proc} {provider : Text} : (V i).writes = some provider → s.writer provider = some i
  alone {i : Proc} {provider : Text} : s.writer provider = some i → s.readers provider = []

/-- One operation at most of a profile is not finished. -/
def Single (s : Shared) : Prop := ∀ id, (s.jobs.countP fun j => decide (j.of id) && !j.value.finished) ≤ 1

structure Sound (s : Shared) (V : Views) : Prop where
  locks : Locks s V
  births : Births s V
  records : Records s V
  gone : Gone s V
  gates : Gates s V
  single : Single s

/-- A profile is there when an operation is begun for it. -/
def Present (s : Shared) : Ask → Prop
  | .begin p _ => (s.rows p.id).isSome
  | _ => True

def stepped (V : Views) (i : Proc) (e : Event Ask Ask.Answer) : Views := Function.update V i ((V i).after e)

section Steps

variable {i : Proc} {s t : Shared} {V : Views} {q : Ask} {r : q.Answer}

theorem stepped_self (V : Views) (i : Proc) (e : Event Ask Ask.Answer) : stepped V i e i = (V i).after e :=
  Function.update_self ..

theorem stepped_other {j : Proc} (h : j ≠ i) (e : Event Ask Ask.Answer) : stepped V i e j = V j :=
  Function.update_of_ne h _ _

theorem stepped_locks (hq : q.locking = false) (j : Proc) :
    (stepped V i ⟨q, r⟩ j).got = (V j).got ∧ (stepped V i ⟨q, r⟩ j).lock = (V j).lock := by
  by_cases hj : j = i
  · subst hj
    rw [stepped_self]
    exact (view_frame (V j) q r).locks hq
  · rw [stepped_other hj]
    exact ⟨rfl, rfl⟩

theorem stepped_gates (hq : q.gating = false) (j : Proc) :
    (stepped V i ⟨q, r⟩ j).reads = (V j).reads ∧ (stepped V i ⟨q, r⟩ j).writes = (V j).writes := by
  by_cases hj : j = i
  · subst hj
    rw [stepped_self]
    exact (view_frame (V j) q r).gates hq
  · rw [stepped_other hj]
    exact ⟨rfl, rfl⟩

/-- The record that was read is the row. -/
theorem Sound.owns (h : Sound s V) {p : Profile} (hp : (V i).Owns p) :
    ∃ l, (V i).lock = some (p.id, l) ∧ s.rows p.id = some p := by
  obtain ⟨⟨id, l⟩, hl⟩ := Option.isSome_iff_exists.mp hp.2
  have hrow := h.records.record hl hp.1
  obtain rfl := (h.births.row hrow).1
  exact ⟨l, hl, hrow⟩

theorem Sound.rewrites (h : Sound s V) {p : Profile} {edit : Bool} (hp : (V i).Rewrites p edit) :
    ∃ l r, (V i).lock = some (p.id, l) ∧ s.rows p.id = some r ∧ s.born p.id = some p.provider ∧
      (edit = false → p.enabled = r.enabled) := by
  obtain ⟨r, hr, hid, hprovider, henabled⟩ := hp
  obtain ⟨l, hl, hrow⟩ := h.owns hr
  rw [hid, hprovider]
  exact ⟨l, r, hl, hrow, (h.births.row hrow).2, henabled⟩

/-- One process at most has the lock of a profile that has a row. -/
theorem Sound.exclusive (h : Sound s V) {j : Proc} {id : Text} {l l' : Nat} (hi : (V i).lock = some (id, l))
    (hj : (V j).lock = some (id, l')) (hrow : (s.rows id).isSome) : i = j := by
  have hl := h.locks.current hi hrow
  rw [h.locks.current hj hrow] at hl
  obtain rfl := Option.some.inj hl
  have hholder := (h.locks.held hi).1
  rw [(h.locks.held hj).1] at hholder
  exact (Option.some.inj hholder).symm

theorem Sound.born_of_lock (h : Sound s V) {id : Text} {l : Nat} (hi : (V i).lock = some (id, l)) :
    (s.born id).isSome :=
  h.births.owner (h.locks.held hi).2

/-- A profile that was is not made again. -/
theorem Sound.row_before (h : Sound s V) (ha : (V i).Allows i q) (hn : next i s q r t) {id : Text}
    (hb : (s.born id).isSome) (ht : (t.rows id).isSome) : (s.rows id).isSome := by
  have hframe := (next_frame hn).rows
  cases q with
  | insert p =>
    rcases hn with ⟨-, rfl⟩ | ⟨-, rfl⟩
    · have hne : id ≠ p.id := by
        rintro rfl
        rw [(h.births.fresh ha.1).1] at hb
        cases hb
      simpa [Shared.saved, Function.update_of_ne hne] using ht
    · exact ht
  | save p snapshot edit =>
    obtain ⟨l, r, -, hrow, -⟩ := h.rewrites ha
    by_cases hid : id = p.id
    · simp [hid, hrow]
    · rcases hn with ⟨-, rfl⟩ | ⟨-, rfl⟩
      · simpa [Shared.saved, Function.update_of_ne hid] using ht
      · exact ht
  | activate p snapshot =>
    obtain ⟨l, r, -, hrow, -⟩ := h.rewrites ha
    by_cases hid : id = p.id
    · simp [hid, hrow]
    · rcases hn with ⟨-, -, rfl⟩ | ⟨-, rfl⟩
      · simpa [Shared.saved, Function.update_of_ne hid] using ht
      · exact ht
  | delete id' =>
    rcases hn with ⟨-, rfl⟩ | ⟨-, rfl⟩
    · by_cases hid : id = id'
      · simp [hid] at ht
      · simpa [Function.update_of_ne hid] using ht
    · exact ht
  | _ =>
    rw [(hframe rfl).1] at ht
    exact ht

theorem Locks.frame {V' : Views} (h : Locks s V)
    (ht : t.locks = s.locks ∧ t.owner = s.owner ∧ t.holder = s.holder)
    (hrows : ∀ {id l}, s.owner l = some id → (t.rows id).isSome → (s.rows id).isSome)
    (hV : ∀ j, (V' j).got = (V j).got ∧ (V' j).lock = (V j).lock) : Locks t V' := by
  constructor
  · intro j id l hgot
    rw [(hV j).1] at hgot
    rw [ht.1, ht.2.1]
    exact ⟨(h.got hgot).1, fun hrow => (h.got hgot).2 (hrows (h.got hgot).1 hrow)⟩
  · intro j id l hlock
    rw [(hV j).2] at hlock
    rw [ht.2.1, ht.2.2]
    exact h.held hlock
  · intro j id l hlock hrow
    rw [(hV j).2] at hlock
    rw [ht.1]
    exact h.current hlock (hrows (h.held hlock).2 hrow)
  · intro id l hlocks
    rw [ht.1] at hlocks
    rw [ht.2.1]
    exact h.owned hlocks

theorem Locks.lock {id : Text} {l : Nat} (h : Sound s V) (hn : next i s (.lock id) l t) :
    Locks t (stepped V i ⟨.lock id, l⟩) := by
  have hl := h.locks
  have hlock : ∀ j, (stepped V i ⟨.lock id, l⟩ j).lock = (V j).lock := by
    intro j
    by_cases hj : j = i
    · subst hj
      rw [stepped_self]
      rfl
    · rw [stepped_other hj]
  have hgot : ∀ {j id' l'}, (stepped V i ⟨.lock id, l⟩ j).got = some (id', l') → (id' = id ∧ l' = l) ∨
      (V j).got = some (id', l') := by
    intro j id' l' hg
    by_cases hj : j = i
    · subst hj
      rw [stepped_self] at hg
      obtain ⟨rfl, rfl⟩ := Prod.mk.inj (Option.some.inj hg)
      exact Or.inl ⟨rfl, rfl⟩
    · rw [stepped_other hj] at hg
      exact Or.inr hg
  rcases hn with ⟨hlocks, rfl⟩ | ⟨hlocks, howner, rfl⟩
  · constructor
    · intro j id' l' hg
      rcases hgot hg with ⟨rfl, rfl⟩ | hg
      · exact ⟨hl.owned hlocks, fun _ => hlocks⟩
      · exact hl.got hg
    · intro j id' l' hj
      exact hl.held (hlock j ▸ hj)
    · intro j id' l' hj
      exact hl.current (hlock j ▸ hj)
    · exact hl.owned
  · have hkept : ∀ {l' id'}, s.owner l' = some id' → Function.update s.owner l (some id) l' = some id' := by
      intro l' id' hown
      rw [Function.update_of_ne]
      · exact hown
      · rintro rfl
        simp [howner] at hown
    have hother : ∀ {l' id'}, s.locks id' = some l' → Function.update s.locks id (some l) id' = some l' := by
      intro l' id' hown
      rw [Function.update_of_ne]
      · exact hown
      · rintro rfl
        simp [hlocks] at hown
    constructor
    · intro j id' l' hg
      rcases hgot hg with ⟨rfl, rfl⟩ | hg
      · exact ⟨Function.update_self .., fun _ => Function.update_self ..⟩
      · exact ⟨hkept (hl.got hg).1, fun hrow => hother ((hl.got hg).2 hrow)⟩
    · intro j id' l' hj
      rw [hlock j] at hj
      exact ⟨(hl.held hj).1, hkept (hl.held hj).2⟩
    · intro j id' l' hj hrow
      rw [hlock j] at hj
      exact hother (hl.current hj hrow)
    · intro id' l' hid
      rcases update_some hid with ⟨rfl, rfl⟩ | hid
      · exact Function.update_self ..
      · exact hkept (hl.owned hid)

theorem Locks.acquire {id : Text} {l : Nat} {r : Awaited Unit} (h : Sound s V)
    (ha : (V i).Allows i (.acquire id l)) (hn : next i s (.acquire id l) r t) :
    Locks t (stepped V i ⟨.acquire id l, r⟩) := by
  have hl := h.locks
  rcases hn with ⟨rfl, hholder, rfl⟩ | ⟨⟨f, rfl⟩, rfl⟩
  · have hheld : ∀ {j id' l'}, (stepped V i ⟨.acquire id l, .done ()⟩ j).lock = some (id', l') →
        (j = i ∧ id' = id ∧ l' = l) ∨ (V j).lock = some (id', l') := by
      intro j id' l' hj
      by_cases hji : j = i
      · subst hji
        rw [stepped_self] at hj
        obtain ⟨rfl, rfl⟩ := Prod.mk.inj (Option.some.inj hj)
        exact Or.inl ⟨rfl, rfl, rfl⟩
      · rw [stepped_other hji] at hj
        exact Or.inr hj
    have hgot : ∀ j, (stepped V i ⟨.acquire id l, .done ()⟩ j).got = (V j).got := by
      intro j
      by_cases hj : j = i
      · subst hj
        rw [stepped_self]
        rfl
      · rw [stepped_other hj]
    constructor
    · intro j id' l' hg
      exact hl.got (hgot j ▸ hg)
    · intro j id' l' hj
      rcases hheld hj with ⟨rfl, rfl, rfl⟩ | hold
      · exact ⟨Function.update_self .., (hl.got ha.1).1⟩
      · refine ⟨?_, (hl.held hold).2⟩
        have hne : l' ≠ l := by
          rintro rfl
          rw [(hl.held hold).1] at hholder
          cases hholder
        exact (Function.update_of_ne hne _ _).trans (hl.held hold).1
    · intro j id' l' hj hrow
      rcases hheld hj with ⟨rfl, rfl, rfl⟩ | hj
      · exact (hl.got ha.1).2 hrow
      · exact hl.current hj hrow
    · exact hl.owned
  · have hV : stepped V i ⟨.acquire id l, .dropped f⟩ = V := Function.update_eq_self i V
    rw [hV]
    exact hl

theorem Locks.release {id : Text} {l : Nat} {r : Unit} (h : Sound s V) (ha : (V i).Allows i (.release id l))
    (hn : next i s (.release id l) r t) : Locks t (stepped V i ⟨.release id l, r⟩) := by
  have hl := h.locks
  obtain rfl := hn
  have hheld : ∀ {j id' l'}, (stepped V i ⟨.release id l, r⟩ j).lock = some (id', l') → j ≠ i ∧
      (V j).lock = some (id', l') := by
    intro j id' l' hj
    by_cases hji : j = i
    · subst hji
      rw [stepped_self] at hj
      cases hj
    · rw [stepped_other hji] at hj
      exact ⟨hji, hj⟩
  have hgot : ∀ j, (stepped V i ⟨.release id l, r⟩ j).got = (V j).got := by
    intro j
    by_cases hj : j = i
    · subst hj
      rw [stepped_self]
      rfl
    · rw [stepped_other hj]
  constructor
  · intro j id' l' hg
    exact hl.got (hgot j ▸ hg)
  · intro j id' l' hj
    obtain ⟨hji, hold⟩ := hheld hj
    refine ⟨?_, (hl.held hold).2⟩
    have hne : l' ≠ l := by
      rintro rfl
      have hi := (hl.held ha).1
      rw [(hl.held hold).1] at hi
      exact hji (Option.some.inj hi)
    exact (Function.update_of_ne hne _ _).trans (hl.held hold).1
  · intro j id' l' hj hrow
    exact hl.current (hheld hj).2 hrow
  · exact hl.owned

theorem Locks.removeLock {id : Text} {r : Unit} (h : Sound s V) (ha : (V i).Allows i (.removeLock id))
    (hn : next i s (.removeLock id) r t) : Locks t (stepped V i ⟨.removeLock id, r⟩) := by
  have hl := h.locks
  obtain ⟨⟨l₀, hlocked⟩, hgone⟩ := ha
  have hrow₀ : s.rows id = none := h.gone.row hlocked hgone
  obtain rfl := hn
  have hV : stepped V i ⟨.removeLock id, r⟩ = V := Function.update_eq_self i V
  rw [hV]
  have hkept : ∀ {id' l'}, s.locks id' = some l' → (s.rows id').isSome →
      Function.update s.locks id none id' = some l' := by
    intro id' l' hid hrow
    rw [Function.update_of_ne]
    · exact hid
    · rintro rfl
      rw [hrow₀] at hrow
      cases hrow
  constructor
  · intro j id' l' hg
    exact ⟨(hl.got hg).1, fun hrow => hkept ((hl.got hg).2 hrow) hrow⟩
  · exact hl.held
  · intro j id' l' hj hrow
    exact hkept (hl.current hj hrow) hrow
  · intro id' l' hid
    by_cases hne : id' = id
    · subst hne
      simp at hid
    · exact hl.owned (by simpa [Function.update_of_ne hne] using hid)

theorem Locks.step (h : Sound s V) (ha : (V i).Allows i q) (hn : next i s q r t) :
    Locks t (stepped V i ⟨q, r⟩) := by
  cases hq : q.locking with
  | false =>
    refine h.locks.frame ((next_frame hn).locks hq) ?_ (stepped_locks hq)
    intro id l hown hrow
    exact h.row_before ha hn (h.births.owner hown) hrow
  | true =>
    cases q with
    | lock id => exact Locks.lock h hn
    | acquire id l => exact Locks.acquire h ha hn
    | release id l => exact Locks.release h ha hn
    | removeLock id => exact Locks.removeLock h ha hn
    | _ => cases hq

/-! ## Profiles that were -/

theorem Sound.born_stays (h : Sound s V) (ha : (V i).Allows i q) (hn : next i s q r t) {id provider : Text}
    (hb : s.born id = some provider) : t.born id = some provider := by
  cases hq : q.inserting with
  | false => rw [(next_frame hn).born hq, hb]
  | true =>
    cases q with
    | insert p =>
      rcases hn with ⟨-, rfl⟩ | ⟨-, rfl⟩
      · have hne : id ≠ p.id := by
          rintro rfl
          rw [(h.births.fresh ha.1).1] at hb
          cases hb
        exact (Function.update_of_ne hne _ _).trans hb
      · exact hb
    | _ => cases hq

theorem Sound.known_stays (h : Sound s V) (ha : (V i).Allows i q) (hn : next i s q r t) {id : Text}
    (hb : (s.born id).isSome) :
    (t.born id).isSome := by
  obtain ⟨provider, hp⟩ := Option.isSome_iff_exists.mp hb
  rw [h.born_stays ha hn hp]
  rfl

theorem started_stays (hn : next i s q r t) {op : Nat} {o : Operation} (ho : s.started op = some o) :
    t.started op = some o := by
  have hfresh : ∀ {op' : Nat} {o' : Operation}, s.started op' = none →
      Function.update s.started op' (some o') op = some o := by
    intro op' o' hnone
    rw [Function.update_of_ne]
    · exact ho
    · rintro rfl
      rw [hnone] at ho
      cases ho
  cases hq : q.starting with
  | false => rw [(next_frame hn).started hq, ho]
  | true =>
    cases q with
    | begin p kind =>
      cases hn with
      | fresh op' _ _ _ hnone => exact hfresh hnone
      | _ => exact ho
    | beginRuntime provider kind =>
      cases hn with
      | fresh op' _ _ _ hnone => exact hfresh hnone
      | _ => exact ho
    | _ => cases hq

theorem used_stays (hn : next i s q r t) {id : Text} (hu : s.used id = true) : t.used id = true := by
  cases hq : q.naming with
  | false => rw [(next_frame hn).used hq, hu]
  | true =>
    cases q with
    | newId =>
      obtain ⟨-, rfl⟩ := hn
      simp only [Function.update_apply]
      split
      · rfl
      · exact hu
    | _ => cases hq

/-- What a process meets was there. -/
theorem Births.meets (h : Sound s V) (hn : next i s q r t) {id provider : Text}
    (hx : (id, provider) ∈ ((V i).after ⟨q, r⟩).seen) : s.born id = some provider := by
  cases hq : q.meeting with
  | false => exact h.births.seen (((view_frame (V i) q r).met hq).1 ▸ hx)
  | true =>
    cases q with
    | profile id' =>
      cases r with
      | error f => exact h.births.seen hx
      | ok p =>
        obtain ⟨hid, hborn⟩ := h.births.row (hn.2 p rfl)
        simp only [View.after, View.learns, List.mem_cons, Prod.mk.injEq] at hx
        rcases hx with ⟨rfl, rfl⟩ | ⟨rfl, rfl⟩ | hx
        · exact hborn
        · rw [hid]
          exact hborn
        · exact h.births.seen hx
    | profiles =>
      cases r with
      | error f => exact h.births.seen hx
      | ok ps =>
        rcases List.mem_append.mp hx with hx | hx
        · obtain ⟨p, hp, heq⟩ := List.mem_map.mp hx
          obtain ⟨rfl, rfl⟩ := Prod.mk.inj heq
          exact (h.births.row (hn.2 ps rfl p hp)).2
        · exact h.births.seen hx
    | take op =>
      rcases List.mem_append.mp hx with hx | hx
      · simp only [Option.mem_toList, Option.map_eq_some_iff, Prod.mk.injEq] at hx
        obtain ⟨id', hid, rfl, rfl⟩ := hx
        exact h.births.started hn.2.1 hid
      · exact h.births.seen hx
    | _ => cases hq

/-- An id that is made was never used. -/
theorem Births.made (h : Sound s V) (hn : next i s q r t) {id : Text}
    (hx : ((V i).after ⟨q, r⟩).fresh = some id) :
    (t.born id = none ∧ t.used id = true) ∧ ∀ j, j ≠ i → (V j).fresh ≠ some id := by
  have hold : (V i).fresh = some id → t.born id = s.born id →
      (t.born id = none ∧ t.used id = true) ∧ ∀ j, j ≠ i → (V j).fresh ≠ some id := by
    intro hf hb
    obtain ⟨hborn, hused⟩ := h.births.fresh hf
    exact ⟨⟨hb.trans hborn, used_stays hn hused⟩, fun j hj hj' => hj (h.births.alone hj' hf)⟩
  cases hq : q.inserting with
  | true =>
    cases q with
    | insert p =>
      rcases hn with ⟨rfl, -⟩ | ⟨⟨f, rfl⟩, rfl⟩
      · cases hx
      · exact hold hx rfl
    | _ => cases hq
  | false =>
    have hborn : t.born = s.born := (next_frame hn).born hq
    cases hq' : q.naming with
    | false => exact hold ((view_frame (V i) q r).fresh hq' hq ▸ hx) (by rw [hborn])
    | true =>
      cases q with
      | newId =>
        obtain rfl : r = id := Option.some.inj hx
        obtain ⟨hused, rfl⟩ := hn
        have hnone : s.born r = none := by
          cases hb : s.born r with
          | none => rfl
          | some provider =>
            rw [h.births.used hb] at hused
            cases hused
        refine ⟨⟨hnone, Function.update_self ..⟩, fun j _ hj => ?_⟩
        rw [(h.births.fresh hj).2] at hused
        cases hused
      | _ => cases hq'

/-- An id that another has made is not saved. -/
theorem Births.unmade (h : Sound s V) (ha : (V i).Allows i q) (hn : next i s q r t) {j : Proc} (hj : j ≠ i)
    {id : Text} (hx : (V j).fresh = some id) : t.born id = none ∧ t.used id = true := by
  obtain ⟨hborn, hused⟩ := h.births.fresh hx
  refine ⟨?_, used_stays hn hused⟩
  cases hq : q.inserting with
  | false => rw [(next_frame hn).born hq, hborn]
  | true =>
    cases q with
    | insert p =>
      rcases hn with ⟨-, rfl⟩ | ⟨-, rfl⟩
      · have hne : id ≠ p.id := by
          rintro rfl
          exact hj (h.births.alone hx ha.1)
        exact (Function.update_of_ne hne _ _).trans hborn
      · exact hborn
    | _ => cases hq

theorem Births.used_step (h : Sound s V) (ha : (V i).Allows i q) (hn : next i s q r t) {id provider : Text}
    (hb : t.born id = some provider) : t.used id = true := by
  cases hq : q.inserting with
  | false => exact used_stays hn (h.births.used ((next_frame hn).born hq ▸ hb))
  | true =>
    cases q with
    | insert p =>
      rcases hn with ⟨-, rfl⟩ | ⟨-, rfl⟩
      · rcases update_some hb with ⟨rfl, -⟩ | hb
        · exact (h.births.fresh ha.1).2
        · exact h.births.used hb
      · exact h.births.used hb
    | _ => cases hq

theorem Births.owner_step (h : Sound s V) (ha : (V i).Allows i q) (hn : next i s q r t) {id : Text} {l : Nat}
    (ho : t.owner l = some id) : (s.born id).isSome := by
  cases hq : q.locking with
  | false => exact h.births.owner (((next_frame hn).locks hq).2.1 ▸ ho)
  | true =>
    cases q with
    | lock id' =>
      rcases hn with ⟨-, rfl⟩ | ⟨-, -, rfl⟩
      · exact h.births.owner ho
      · rcases update_some ho with ⟨rfl, rfl⟩ | ho
        · obtain ⟨provider, hmet⟩ := ha
          rw [h.births.seen hmet]
          rfl
        · exact h.births.owner ho
    | acquire id' l' => rcases hn with ⟨-, -, rfl⟩ | ⟨-, rfl⟩ <;> exact h.births.owner ho
    | release id' l' =>
      obtain rfl := hn
      exact h.births.owner ho
    | removeLock id' =>
      obtain rfl := hn
      exact h.births.owner ho
    | _ => cases hq

theorem Births.started_step (h : Sound s V) (ha : (V i).Allows i q) (hn : next i s q r t) {op : Nat}
    {o : Operation} {id : Text} (ho : t.started op = some o) (hid : o.profileId = some id) :
    s.born id = some o.provider := by
  cases hq : q.starting with
  | false => exact h.births.started ((next_frame hn).started hq ▸ ho) hid
  | true =>
    cases q with
    | begin p kind =>
      cases hn with
      | fresh op' =>
        rcases update_some ho with ⟨rfl, rfl⟩ | ho
        · obtain rfl := Option.some.inj hid
          exact h.births.seen ha
        · exact h.births.started ho hid
      | _ => exact h.births.started ho hid
    | beginRuntime provider kind =>
      cases hn with
      | fresh op' =>
        rcases update_some ho with ⟨rfl, rfl⟩ | ho
        · cases hid
        · exact h.births.started ho hid
      | _ => exact h.births.started ho hid
    | _ => cases hq

theorem Births.task_step (h : Sound s V) (ha : (V i).Allows i q) (hn : next i s q r t) {o : Operation}
    (ho : ((V i).after ⟨q, r⟩).task = some o) : ∃ op, i = .task op ∧ s.started op = some o := by
  cases hq : q.meeting with
  | false => exact h.births.task (((view_frame (V i) q r).met hq).2 ▸ ho)
  | true =>
    cases q with
    | profile id => cases r <;> exact h.births.task ho
    | profiles => cases r <;> exact h.births.task ho
    | take op =>
      obtain rfl := Option.some.inj ho
      exact ⟨op, ha, hn.2.1⟩
    | _ => cases hq

theorem Births.row_step (h : Sound s V) (ha : (V i).Allows i q) (hn : next i s q r t) {id : Text}
    {p : Profile} (hp : t.rows id = some p) : p.id = id ∧ t.born id = some p.provider := by
  have hold : s.rows id = some p → p.id = id ∧ t.born id = some p.provider := fun hs =>
    ⟨(h.births.row hs).1, h.born_stays ha hn (h.births.row hs).2⟩
  have hsaved : ∀ {p' edit}, (V i).Rewrites p' edit → Function.update s.rows p'.id (some p') id = some p →
      p.id = id ∧ t.born id = some p.provider := by
    intro p' edit hrew hrow
    rcases update_some hrow with ⟨rfl, rfl⟩ | hrow
    · obtain ⟨l, r, -, -, hborn, -⟩ := h.rewrites hrew
      exact ⟨rfl, h.born_stays ha hn hborn⟩
    · exact hold hrow
  cases hq : q.writing with
  | false => exact hold (((next_frame hn).rows hq).1 ▸ hp)
  | true =>
    cases q with
    | insert p' =>
      rcases hn with ⟨-, rfl⟩ | ⟨-, rfl⟩
      · rcases update_some hp with ⟨rfl, rfl⟩ | hp
        · exact ⟨rfl, Function.update_self ..⟩
        · exact hold hp
      · exact hold hp
    | save p' snapshot edit =>
      rcases hn with ⟨-, rfl⟩ | ⟨-, rfl⟩
      · exact hsaved ha hp
      · exact hold hp
    | activate p' snapshot =>
      rcases hn with ⟨-, -, rfl⟩ | ⟨-, rfl⟩
      · exact hsaved ha hp
      · exact hold hp
    | delete id' =>
      rcases hn with ⟨-, rfl⟩ | ⟨-, rfl⟩
      · by_cases hid : id = id'
        · simp [hid] at hp
        · exact hold ((Function.update_of_ne hid _ _).symm.trans hp)
      · exact hold hp
    | _ => cases hq

theorem Births.edited_step (h : Sound s V) (ha : (V i).Allows i q) (hn : next i s q r t) {id : Text}
    {enabled : Bool} (he : t.edited id = some enabled) : (s.born id).isSome := by
  cases hq : q.writing with
  | false => exact h.births.edited (((next_frame hn).rows hq).2.1 ▸ he)
  | true =>
    cases q with
    | save p snapshot edit =>
      rcases hn with ⟨-, rfl⟩ | ⟨-, rfl⟩
      · cases edit with
        | false => exact h.births.edited he
        | true =>
          rcases update_some he with ⟨rfl, -⟩ | he
          · obtain ⟨l, r, -, -, hborn, -⟩ := h.rewrites ha
            rw [hborn]
            rfl
          · exact h.births.edited he
      · exact h.births.edited he
    | insert p => rcases hn with ⟨-, rfl⟩ | ⟨-, rfl⟩ <;> exact h.births.edited he
    | delete id' => rcases hn with ⟨-, rfl⟩ | ⟨-, rfl⟩ <;> exact h.births.edited he
    | activate p snapshot => rcases hn with ⟨-, -, rfl⟩ | ⟨-, rfl⟩ <;> exact h.births.edited he
    | _ => cases hq

theorem Births.deleted_step (h : Sound s V) (ha : (V i).Allows i q) (hn : next i s q r t) {id : Text}
    (hd : t.deleted id = true) : (s.born id).isSome := by
  cases hq : q.leaving with
  | false => exact h.births.deleted ((next_frame hn).deleted hq ▸ hd)
  | true =>
    cases q with
    | gone id' =>
      obtain rfl := hn
      by_cases hid : id = id'
      · obtain ⟨⟨l, hl⟩, -⟩ := ha
        rw [hid]
        exact h.born_of_lock hl
      · exact h.births.deleted ((Function.update_of_ne hid _ _).symm.trans hd)
    | _ => cases hq

theorem Births.step (h : Sound s V) (ha : (V i).Allows i q) (hn : next i s q r t) :
    Births t (stepped V i ⟨q, r⟩) := by
  constructor
  · intro j id provider hx
    by_cases hj : j = i
    · subst hj
      rw [stepped_self] at hx
      exact h.born_stays ha hn (Births.meets h hn hx)
    · rw [stepped_other hj] at hx
      exact h.born_stays ha hn (h.births.seen hx)
  · intro j id hx
    by_cases hj : j = i
    · subst hj
      rw [stepped_self] at hx
      exact (Births.made h hn hx).1
    · rw [stepped_other hj] at hx
      exact Births.unmade h ha hn hj hx
  · intro j k id hj hk
    by_cases hji : j = i <;> by_cases hki : k = i
    · rw [hji, hki]
    · subst hji
      rw [stepped_self] at hj
      rw [stepped_other hki] at hk
      exact absurd hk ((Births.made h hn hj).2 k hki)
    · subst hki
      rw [stepped_self] at hk
      rw [stepped_other hji] at hj
      exact absurd hj ((Births.made h hn hk).2 j hji)
    · rw [stepped_other hji] at hj
      rw [stepped_other hki] at hk
      exact h.births.alone hj hk
  · exact fun hb => Births.used_step h ha hn hb
  · exact fun ho => h.known_stays ha hn (Births.owner_step h ha hn ho)
  · exact fun ho hid => h.born_stays ha hn (Births.started_step h ha hn ho hid)
  · intro j o ho
    have hold : ∃ op, j = .task op ∧ s.started op = some o := by
      by_cases hj : j = i
      · subst hj
        rw [stepped_self] at ho
        exact Births.task_step h ha hn ho
      · rw [stepped_other hj] at ho
        exact h.births.task ho
    obtain ⟨op, hop, hstarted⟩ := hold
    exact ⟨op, hop, started_stays hn hstarted⟩
  · exact fun hp => Births.row_step h ha hn hp
  · exact fun he => h.known_stays ha hn (Births.edited_step h ha hn he)
  · exact fun hd => h.known_stays ha hn (Births.deleted_step h ha hn hd)

end Steps

end HomeStack.Accounts

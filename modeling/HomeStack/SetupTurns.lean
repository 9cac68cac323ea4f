import HomeStack.SetupRuns

/-! The histories of a setup run: what is asked of the workspace after the preflights, in
which order and for which entries. -/

open scoped List

namespace HomeStack.Setup

open Prog

abbrev History := List (Event Query Answer)

/-- The question is asked after the preflights: it changes or records something, or says that
the work of an entry begins. -/
def Query.acts : Query → Bool
  | .snapshot .. | .apply .. | .structuredWrite .. | .validate _ | .structuredRestore .. | .stateRecord .. =>
    true
  | .progress _ .running => true
  | _ => false

/-- The question was answered without an error. -/
def answered : (q : Query) → Answer q → Bool
  | .connect, r | .requireTool _, r | .identity _, r | .structuredWrite .., r | .validate _,
    r | .structuredRestore .., r |
    .stateRecord .., r => r.toBool
  | .cancelled, _ | .progress .., _ => true
  | .preflight .., r => r.toBool
  | .structuredRead _, r => r.toBool
  | .snapshot .., r => r.toBool
  | .apply .., r => r.toBool

def begun (q : Query) : Option Text :=
  match q with
  | .progress id .running => some id
  | _ => none

/-- The IDs of the entries whose work began, in this order. -/
def started (h : History) : List Text := (h.filterMap fun event => begun event.q).reverse

theorem started_cons (event : Event Query Answer) (h : History) :
    started (event :: h) = started h ++ (begun event.q).toList := by
  unfold started
  rw [List.filterMap_cons]
  cases begun event.q <;> simp

/-- The entry is a leaf of the document of this path. -/
def Entry.At (entry : Entry) (path : Text) : Prop :=
  ∃ found, entry.structured = some found ∧ found.1.path = path

/-- What a run may ask after `new`, when these entries are not blocked: a snapshot for them, and
for each in its turn its work, after that of those before it went through. -/
def Turn (backups : Entry → List Text) (active : List Entry) (new : History) : Query → Prop
  | .snapshot paths items _ =>
    items = active.map Entry.id ∧ (∀ path ∈ paths, ∃ entry ∈ active, path ∈ backups entry) ∧ started new = []
  | .progress id .running => (∀ event ∈ new, answered event.q event.r) ∧
      started new ++ [id] <+: active.map Entry.id
  | .apply _ entry _ => entry ∈ active ∧ (started new).getLast? = some entry.id
  | .structuredWrite relative _ _ =>
    ∃ entry ∈ active, (started new).getLast? = some entry.id ∧ ∃ path, entry.At path ∧
      relative = relativeOf path
  | .structuredRestore relative _ _ _ =>
    ∃ entry ∈ active, entry.id ∈ started new ∧ ∃ path, entry.At path ∧ relative = relativeOf path
  | .stateRecord _ entry _ _ => entry ∈ active ∧ entry.id ∈ started new ∧
      ∀ event ∈ new, answered event.q event.r
  | _ => True

section

variable {host : Host} {work : Work} {h₀ : History} {ids : List Text}

/-- The guard of the questions after the preflights, which ended with `h₀`. -/
def Guard (backups : Entry → List Text) (active : List Entry) (h₀ h : History) (q : Query) : Prop :=
  q.acts = true → ∃ new, h = new ++ h₀ ∧ Turn backups active new q

/-- Every document in the list is one of an entry whose work began. -/
def Wrote (active : List Entry) (new : History) (applied : List (Text × Text)) : Prop :=
  ∀ written ∈ applied, ∃ entry ∈ active, entry.id ∈ started new ∧ entry.At written.1

/-- The run goes on: everything since `h₀` was answered, and the work of these entries began. -/
structure Going (active : List Entry) (h₀ : History) (ids : List Text) (begun : List Entry) (run : Run)
    (applied : List (Text × Text)) (t : History) : Prop where
  rows : RowsOf ids run.results
  trace : ∃ new, t = new ++ h₀ ∧ (∀ event ∈ new, answered event.q event.r) ∧
    started new = begun.map Entry.id ∧
    Wrote active new applied

/-- The run stops, with what it wrote still known. -/
structure Stuck (active : List Entry) (h₀ : History) (ids : List Text) (run : Run)
    (applied : List (Text × Text)) (t : History) : Prop where
  rows : RowsOf ids run.results
  trace : ∃ new, t = new ++ h₀ ∧ Wrote active new applied

variable {backups : Entry → List Text} {active begun' : List Entry} {run : Run}
  {applied : List (Text × Text)} {t : History}

theorem Wrote.cons {new : History} (h : Wrote active new applied) (event : Event Query Answer) :
    Wrote active (event :: new) applied := by
  intro written hwritten
  obtain ⟨entry, hentry, hstarted, hat⟩ := h written hwritten
  refine ⟨entry, hentry, ?_, hat⟩
  rw [started_cons]
  exact List.mem_append_left _ hstarted

/-- A question that begins no work is answered. -/
theorem Going.answer (h : Going active h₀ ids begun' run applied t) {q : Query} {r : Answer q}
    (hq : begun q = none) (hr : answered q r = true) :
    Going active h₀ ids begun' run applied (⟨q, r⟩ :: t) := by
  obtain ⟨hrows, new, rfl, hok, hstarted, hwrote⟩ := h
  refine ⟨hrows, ⟨q, r⟩ :: new, rfl, ?_, ?_, hwrote.cons _⟩
  · intro event hevent
    rcases List.mem_cons.mp hevent with rfl | hevent
    · exact hr
    · exact hok event hevent
  · rw [started_cons, hstarted, hq]
    simp

/-- A question that ends the run. -/
theorem Going.stuck (h : Going active h₀ ids begun' run applied t) (event : Event Query Answer) :
    Stuck active h₀ ids run applied (event :: t) := by
  obtain ⟨hrows, new, rfl, _, _, hwrote⟩ := h
  exact ⟨hrows, event :: new, rfl, hwrote.cons event⟩

theorem Going.begin (h : Going active h₀ ids begun' run applied t) (entry : Entry) :
    Going active h₀ ids (begun' ++ [entry]) run applied (⟨.progress entry.id .running, ()⟩ :: t) := by
  obtain ⟨hrows, new, rfl, hok, hstarted, hwrote⟩ := h
  refine ⟨hrows, _ :: new, rfl, ?_, ?_, hwrote.cons _⟩
  · intro event hevent
    rcases List.mem_cons.mp hevent with rfl | hevent
    · rfl
    · exact hok event hevent
  · rw [started_cons, hstarted]
    simp [begun]

/-- What begins is next in its turn. -/
theorem Going.guard_begin (h : Going active h₀ ids begun' run applied t) {entry : Entry}
    (hnext : begun' ++ [entry] <+: active) : Guard backups active h₀ t (.progress entry.id .running) := by
  intro _
  obtain ⟨_, new, rfl, hok, hstarted, _⟩ := h
  refine ⟨new, rfl, hok, ?_⟩
  rw [hstarted]
  have hmap := hnext.map Entry.id
  rwa [List.map_append] at hmap

theorem Guard.passive {h : History} {q : Query} (hq : q.acts = false) : Guard backups active h₀ h q := by
  intro hacts
  rw [hq] at hacts
  cases hacts

theorem Going.stop (h : Going active h₀ ids begun' run applied t) : Stuck active h₀ ids run applied t := by
  obtain ⟨hrows, new, rfl, _, _, hwrote⟩ := h
  exact ⟨hrows, new, rfl, hwrote⟩

/-- The guard of a question about the entry whose work began last. -/
theorem Going.guard (h : Going active h₀ ids begun' run applied t) {q : Query}
    (hq : ∀ new, (∀ event ∈ new, answered event.q event.r) → started new = begun'.map Entry.id →
      Turn backups active new q) :
    Guard backups active h₀ t q := by
  intro _
  obtain ⟨_, new, rfl, hok, hstarted, _⟩ := h
  exact ⟨new, rfl, hq new hok hstarted⟩

/-! ## The work of a unit -/

theorem inspect_going (h : Going active h₀ ids begun' run applied t) (entries : List Entry) :
    wpe anything (Guard backups active h₀) (inspectConfigFile host entries) t
      (fun _ => Going active h₀ ids begun' run applied)
      fun _ => Stuck active h₀ ids run applied := by
  refine inspect_spec (fun _ => h.stop) (fun _ => Guard.passive rfl) ?_ ?_
  · intro relative e t' hn
    cases hn
    exact h.stuck _
  · intro entry _ found remote t' _ hn
    cases hn
    have hread := h.answer (q := .structuredRead (relativeOf found.1.path)) (r := .ok remote) rfl rfl
    exact ⟨fun _ => hread.stop, fun _ _ => hread⟩

theorem wpe_orFail {σ α : Type} {E : Env Query Answer σ} {I : σ → Query → Prop} {s : σ} {u : UnitRun}
    {p : ExceptT AppError Workspace α} {K : α → σ → Prop} {X : AppError × UnitRun → σ → Prop}
    (h : wpe E I p s K fun e => X (e, u)) : wpe E I (orFail u p) s K X :=
  wpe_mapError h

variable {u : UnitRun} {entry : Entry} {path owner : Text}

/-- The work of a unit goes on. -/
abbrev UnitGoing (active : List Entry) (h₀ : History) (ids : List Text) (begun : List Entry)
    (u : UnitRun) (t : History) : Prop :=
  Going active h₀ ids begun u.run u.applied t

abbrev UnitStuck (active : List Entry) (h₀ : History) (ids : List Text)
    (failed : AppError × UnitRun) (t : History) : Prop :=
  Stuck active h₀ ids failed.2.run failed.2.applied t

theorem write_going (h : UnitGoing active h₀ ids (begun' ++ [entry]) u t) (hentry : entry ∈ active)
    (hat : entry.At path) (document : Document) :
    wpe anything (Guard backups active h₀) (writeDocument host u path document) t
      (UnitGoing active h₀ ids (begun' ++ [entry]))
      (UnitStuck active h₀ ids) := by
  unfold writeDocument
  split
  · refine wpe_bind.mpr (wpe_orFail ⟨h.guard fun new _ hstarted => ?_, fun r t' hn => ?_⟩)
    · exact ⟨entry, hentry, by simp [hstarted], path, hat, rfl⟩
    · cases hn
      rcases r with e | _
      · exact h.stuck _
      · have hwrite := h.answer (q := .structuredWrite (relativeOf path) document.candidate document.sha256)
          (r := .ok ()) rfl rfl
        obtain ⟨hrows, new, hnew, hok, hstarted, hwrote⟩ := hwrite
        refine ⟨hrows, new, hnew, hok, hstarted, fun written hwritten => ?_⟩
        rcases List.mem_append.mp hwritten with hold | hnow
        · exact hwrote written hold
        · rw [List.mem_singleton.mp hnow]
          exact ⟨entry, hentry, by simp [hstarted], hat⟩
  · exact h

theorem complete_going (h : UnitGoing active h₀ ids (begun' ++ [entry]) u t)
    (hentry : entry ∈ active) (hat : entry.At path) :
    wpe anything (Guard backups active h₀) (completeDocument host work owner u path) t
      (UnitGoing active h₀ ids (begun' ++ [entry]))
      (UnitStuck active h₀ ids) := by
  unfold completeDocument
  split
  · exact h
  · refine wpe_bind.mpr (wpe_orFail (wpe_mono (inspect_going h _)
    (fun document t' hread => ?_) fun _ _ hstuck => hstuck))
    split
    · exact hread.stop
    · refine wpe_bind.mpr (wpe_mono (write_going hread hentry hat document)
      (fun u' t'' hwrite => ?_) fun _ _ hstuck => hstuck)
      exact hwrite

theorem applyOne_going (h : UnitGoing active h₀ ids (begun' ++ [entry]) u t) (hentry : entry ∈ active) :
    wpe anything (Guard backups active h₀) (applyOne host work owner u entry) t
      (fun result => UnitGoing active h₀ ids (begun' ++ [entry]) result.1) (UnitStuck active h₀ ids) := by
  unfold applyOne
  split
  · rename_i config key value hstructured
    have hat : entry.At config.path := ⟨_, hstructured, rfl⟩
    refine wpe_bind.mpr (wpe_mono (complete_going h hentry hat)
      (fun u' t' hdone => ?_) fun _ _ hstuck => hstuck)
    split
    · exact hdone
    · exact hdone
  · refine wpe_bind.mpr (wpe_orFail ⟨h.guard fun new _ hstarted => ?_, fun r t' hn => ?_⟩)
    · exact ⟨hentry, by simp [hstarted]⟩
    · cases hn
      rcases r with e | done
      · exact h.stuck _
      · exact h.answer (q := .apply _ _ _) (r := .ok done) rfl rfl

theorem applyEntry_going (h : UnitGoing active h₀ ids begun' u t) (hnext : begun' ++ [entry] <+: active) :
    wpe anything (Guard backups active h₀) (applyEntry host work owner u entry) t
      (UnitGoing active h₀ ids (begun' ++ [entry]))
      (UnitStuck active h₀ ids) := by
  have hentry : entry ∈ active := hnext.subset (List.mem_append_right _ List.mem_cons_self)
  unfold applyEntry
  refine wpe_bind.mpr (wpe_lift ⟨Guard.passive rfl, fun cancelled t' hn => ?_⟩)
  cases hn
  have hasked : UnitGoing active h₀ ids begun' u (⟨.cancelled, cancelled⟩ :: t) := h.answer rfl rfl
  cases cancelled with
  | true => exact ⟨hasked.rows, hasked.stop.trace⟩
  | false =>
    refine wpe_bind.mpr (wpe_lift ⟨hasked.guard_begin hnext, fun _ t' hn => ?_⟩)
    cases hn
    have hbegun := hasked.begin entry
    refine wpe_bind.mpr (wpe_mono (applyOne_going (u := u.start _) ⟨hbegun.rows, hbegun.trace⟩ hentry) ?_
      fun _ _ hstuck => hstuck)
    rintro ⟨u', done, detail⟩ t' hdone
    exact ⟨(setAt_ids ..).trans hdone.rows, hdone.trace⟩

theorem validate_going (h : UnitGoing active h₀ ids begun' u t) (entries : List Entry) :
    wpe anything (Guard backups active h₀) (validateUnit host work owner entries u) t
      (UnitGoing active h₀ ids begun')
      (UnitStuck active h₀ ids) := by
  unfold validateUnit
  split
  · exact h
  · split
    · refine wpe_bind.mpr (wpe_orFail ⟨h.guard fun _ _ _ => trivial, fun r t' hn => ?_⟩)
      cases hn
      rcases r with e | _
      · exact ⟨h.rows, (h.stuck _).trace⟩
      · exact ⟨h.rows, (h.answer (q := .validate _) (r := .ok ()) rfl rfl).trace⟩
    · exact h

theorem workUnit_going {entries : List Entry} (h : Going active h₀ ids begun' run [] t)
    (hnext : begun' ++ entries <+: active) :
    wpe anything (Guard backups active h₀) (workUnit host work owner entries run) t
      (UnitGoing active h₀ ids (begun' ++ entries))
      (UnitStuck active h₀ ids) := by
  unfold workUnit
  refine wpe_bind.mpr (wpe_mono ?_ (fun u t' hu => validate_going hu entries) fun _ _ hstuck => hstuck)
  refine wpe_foldlM (J := fun done u t => UnitGoing active h₀ ids (begun' ++ done) u t) ?_ ?_
  · intro done entry rest u t hsplit hu
    have hturn : begun' ++ done ++ [entry] <+: active := by
      refine List.IsPrefix.trans ⟨rest, ?_⟩ hnext
      simp [hsplit]
    rw [← List.append_assoc]
    exact applyEntry_going hu hturn
  · rw [List.append_nil]
    exact h

theorem failRow_ids (run : Run) (entry : Entry) :
    (failRow run entry).results.map Row.id = run.results.map Row.id := by
  unfold failRow
  simp only
  split
  · exact setAt_ids ..
  · rfl

theorem failRows_ids (entries : List Entry) (run : Run) :
    (entries.foldl failRow run).results.map Row.id = run.results.map Row.id := by
  induction entries generalizing run with
  | nil => rfl
  | cons entry entries ih => rw [List.foldl_cons, ih, failRow_ids]

theorem failUnit_stuck {error : AppError} {entries : List Entry} (h : Stuck active h₀ ids u.run u.applied t) :
    wp anything (Guard backups active h₀) (failUnit work owner entries error u) t fun stopped _ =>
      RowsOf ids stopped.run.results := by
  unfold failUnit
  refine wp_bind.mpr (wp_mono (wp_foldlM (J := fun _ _ t => Stuck active h₀ ids u.run u.applied t) ?_ h)
    fun errors t' hstuck => ?_)
  · rintro done ⟨path, digest⟩ rest errors t hsplit ⟨hrows, new, rfl, hwrote⟩
    have hmem : (path, digest) ∈ u.applied := by
      rw [← List.mem_reverse, hsplit]
      exact List.mem_append_right _ List.mem_cons_self
    obtain ⟨entry, hentry, hstarted, hat⟩ := hwrote _ hmem
    refine wp_bind.mpr (wp_call (fun _ => ⟨new, rfl, entry, hentry, hstarted, path, hat, rfl⟩) fun r t' hn =>
      ?_)
    cases hn
    have hnext : ∀ event, Stuck active h₀ ids u.run u.applied (event :: (new ++ h₀)) :=
      fun event => ⟨hrows, event :: new, rfl, hwrote.cons event⟩
    rcases r with e | _
    · exact hnext _
    · exact hnext _
  · exact (failRows_ids entries u.run).trans hstuck.rows

theorem record_going (h : Going active h₀ ids begun' run [] t) (hentry : entry ∈ begun')
    (hactive : entry ∈ active) :
    wpe anything (Guard backups active h₀) (recordEntry work run entry) t
      (fun run => Going active h₀ ids begun' run [])
      fun stopped _ => RowsOf ids stopped.run.results := by
  unfold recordEntry
  refine wpe_bind.mpr (wpe_orStop ⟨h.guard fun new hok hstarted => ?_, fun r t' hn => ?_⟩)
  · exact ⟨hactive, by rw [hstarted]; exact List.mem_map_of_mem hentry, hok⟩
  · cases hn
    rcases r with e | _
    · exact h.rows
    · refine wpe_bind.mpr (wpe_lift ⟨Guard.passive rfl, fun _ t' hn => ?_⟩)
      cases hn
      have hrecord := h.answer (q := .stateRecord work.plan.target entry
        (stateOf work.states entry) run.snapshot.id) (r := .ok ()) rfl rfl
      exact ⟨h.rows, (hrecord.answer rfl rfl).trace⟩

theorem runUnit_going {unit : Text × List Entry} (h : Going active h₀ ids begun' run [] t)
    (hnext : begun' ++ unit.2 <+: active) :
    wpe anything (Guard backups active h₀) (runUnit host work run unit) t
      (fun run => Going active h₀ ids (begun' ++ unit.2) run [])
      fun stopped _ => RowsOf ids stopped.run.results := by
  unfold runUnit
  refine wpe_bind.mpr (wpe_lift (wp_mono (workUnit_going h hnext) fun r t' hr => ?_))
  cases r with
  | ok u =>
    have hgoing : Going active h₀ ids (begun' ++ unit.2) u.run [] t' := by
      obtain ⟨hrows, new, rfl, hok, hstarted, _⟩ := hr
      exact ⟨hrows, new, rfl, hok, hstarted, nofun⟩
    refine wpe_foldlM (J := fun _ run t => Going active h₀ ids (begun' ++ unit.2) run [] t) ?_ hgoing
    intro done entry rest run t hsplit hrun
    have hentry : entry ∈ begun' ++ unit.2 := by
      rw [hsplit]
      simp
    exact record_going hrun hentry (hnext.subset hentry)
  | error failed =>
    refine wpe_bind.mpr (wpe_lift (wp_mono (failUnit_stuck hr) fun stopped t'' hrows => ?_))
    exact hrows

/-! ## The run after the preflights -/

variable {p : Preflights}

/-- What the snapshot may hold for an entry. -/
def backupsOf (host : Host) (p : Preflights) (entry : Entry) : List Text :=
  backupPathsForEntry host.settings entry (stateOf p.states entry) ++ writePaths host.settings entry

theorem mem_unique {path : Text} {paths : List Text} (h : path ∈ unique paths) : path ∈ paths := by
  have hfold : ∀ l base : List Text, path ∈ l.foldl (fun l path => if path ∈ l then l else l ++ [path]) base →
      path ∈ base ∨ path ∈ l := by
    intro l
    induction l with
    | nil => exact fun base hbase => Or.inl hbase
    | cons x l ih =>
      intro base hmem
      rcases ih _ hmem with hbase | hl
      · simp only at hbase
        split at hbase
        · exact Or.inl hbase
        · rcases List.mem_append.mp hbase with hbase | hx
          · exact Or.inl hbase
          · exact Or.inr (List.mem_cons.mpr (Or.inl (List.mem_singleton.mp hx)))
      · exact Or.inr (List.mem_cons_of_mem _ hl)
  exact (hfold paths [] h).resolve_left nofun

theorem mem_backupPaths {path : Text} (h : path ∈ unique (backupPaths host.settings p.states active)) :
    ∃ entry ∈ active, path ∈ backupsOf host p entry := by
  obtain ⟨entry, hentry, hpath⟩ := List.mem_flatMap.mp (mem_unique h)
  refine ⟨entry, hentry, ?_⟩
  rcases List.mem_append.mp hpath with hbackup | hwrite
  · exact List.mem_append_left _ hbackup
  · refine List.mem_append_right _ ?_
    split at hwrite
    · split at hwrite
      · exact hwrite
      · cases hwrite
    · cases hwrite

theorem takeSnapshot_going (h : Going active h₀ ids [] p.run [] t) :
    wpe anything (Guard (backupsOf host p) active h₀) (takeSnapshot host p active) t
      (fun run => Going active h₀ ids [] run [])
      fun stopped _ => RowsOf ids stopped.run.results := by
  unfold takeSnapshot
  simp only
  split
  · exact ⟨h.rows, h.trace⟩
  · refine wpe_bind.mpr (wpe_orStop ⟨h.guard fun new _ hstarted => ⟨rfl, fun _ => mem_backupPaths, hstarted⟩,
    fun r t' hn => ?_⟩)
    cases hn
    rcases r with e | snapshot
    · exact h.rows
    · exact ⟨h.rows, (h.answer (q := .snapshot _ _ _) (r := .ok snapshot) rfl rfl).trace⟩

theorem applyActive_going (h : Going active h₀ ids [] p.run [] t)
    (hunits : (applicationUnits active).flatMap Prod.snd = active) :
    wpe anything (Guard (backupsOf host p) active h₀) (applyActive host p active) t
      (fun run t => Going active h₀ ids active run [] t)
      fun stopped _ => RowsOf ids stopped.run.results := by
  unfold applyActive
  refine wpe_bind.mpr (wpe_mono (takeSnapshot_going h) (fun run t' hrun => ?_) fun _ _ hrows => hrows)
  refine wpe_mono (wpe_foldlM (J := fun done run t =>
    Going active h₀ ids (done.flatMap Prod.snd) run [] t) ?_ hrun)
    (fun _ _ hgoing => by rwa [hunits] at hgoing) fun _ _ hrows => hrows
  intro done unit rest run t hsplit hgoing
  have hnext : done.flatMap Prod.snd ++ unit.2 <+: active := by
    refine ⟨rest.flatMap Prod.snd, ?_⟩
    rw [← hunits, hsplit]
    simp
  rw [List.flatMap_append, List.flatMap_singleton]
  exact runUnit_going hgoing hnext

theorem blockDependants_going {q : Spread}
    (hq : spread (applicationUnits p.run.plan.entries) ⟨p.run.results, []⟩ = .ok q)
    (hrows : RowsOf ids q.rows) :
    wpe anything (Guard backups active h₀) (blockDependants p) h₀
      (fun p' t => p' = { p with run := { p.run with results := q.rows } } ∧
        Going active h₀ ids [] p'.run [] t)
      fun _ _ => False := by
  unfold blockDependants
  rw [hq]
  have hgoing : Going active h₀ ids [] { p.run with results := q.rows } [] h₀ :=
    ⟨hrows, [], rfl, nofun, rfl, nofun⟩
  refine wpe_bind.mpr (wpe_orStop (wpe_ofExcept (fun a ha => ?_) nofun))
  cases ha
  refine wpe_bind.mpr (wpe_mono
    (wpe_forM (J := fun t => Going active h₀ ids [] { p.run with results := q.rows } [] t)
    (fun id _ t ht => ?_) hgoing) (fun _ t' ht => ⟨rfl, ht⟩) fun _ _ he => he)
  refine wpe_lift ⟨Guard.passive rfl, fun _ t' hn => ?_⟩
  cases hn
  exact ht.answer rfl rfl

end

/-! ## Every run -/

section

variable {host : Host} {plan : Plan}

/-- What the preflights of a run come to: the loop of the run ends, it leaves blocked what did not pass
and what follows from it, and every other entry is clear. -/
structure Spreads (plan : Plan) (p : Preflights) (q : Spread) : Prop where
  planned : ∀ e, e ∈ p.run.plan.entries ↔ e ∈ plan.entries
  ends : spread (applicationUnits p.run.plan.entries) ⟨p.run.results, []⟩ = .ok q
  blocked : ∀ e ∈ plan.entries, Blocks q.rows e.id ↔
    Closure (applicationUnits p.run.plan.entries) (Failed p) e.id
  clear : ∀ e ∈ plan.entries, ¬ Blocks q.rows e.id →
    Clear p (activeEntries { p.run with results := q.rows }) e

/-- What is asked of the workspace once the preflights are over. -/
def Acting (host : Host) (plan : Plan) (h : History) (query : Query) : Prop :=
  query.acts = true → ∃ p h₀ q new, Ran (front host plan) [] p h₀ ∧ Spreads plan p q ∧ h = new ++ h₀ ∧
    Turn (backupsOf host p) (activeEntries { p.run with results := q.rows }) new query

/-- A run from the end of its preflights. -/
def back (host : Host) (p : Preflights) : ExceptT Stopped Workspace Run := do
  let p ← blockDependants p
  if activeEntries p.run = [] then pure p.run else applyActive host p (activeEntries p.run)

theorem runPlan_eq (host : Host) (plan : Plan) :
    runPlan host plan.started = front host plan >>= back host := by
  unfold runPlan front
  rw [bind_assoc]
  rfl

/-- Nothing is changed or recorded before the preflights are over. -/
abbrev Passive (q : Query) : Prop := q.acts = false

theorem asks_inspect (host : Host) (entries : List Entry) :
    (inspectConfigFile host entries).run.Asks Passive := by
  unfold inspectConfigFile
  split
  · trivial
  · exact asks_bind ⟨rfl, fun _ => trivial⟩ fun _ => trivial

theorem asks_preflightState (host : Host) (plan : Plan) (documents : List (Text × Except AppError Document))
    (entry : Entry) :
    (preflightState host plan documents entry).Asks Passive := by
  unfold preflightState
  split
  · split
    · trivial
    · exact (asks_inspect host _).bind fun _ => trivial
  · exact ⟨rfl, fun _ => trivial⟩

theorem asks_prepare (host : Host) (run : Run) : (prepare host run).run.Asks Passive := by
  unfold prepare
  refine asks_bind (asks_mapError trivial) fun planned => ?_
  refine asks_bind (asks_mapError ⟨rfl, fun _ => trivial⟩) fun _ => ?_
  refine asks_bind (asks_mapError ⟨rfl, fun _ => trivial⟩) fun _ => ?_
  exact asks_bind (asks_mapError ⟨rfl, fun _ => trivial⟩) fun _ => trivial

theorem asks_preflightOne (host : Host) (plan : Plan) (p : Preflights) (item : Entry × Nat) :
    (preflightOne host plan p item).run.Asks Passive := by
  unfold preflightOne
  refine asks_bind (asks_lift ⟨rfl, fun _ => trivial⟩) fun cancelled => ?_
  cases cancelled with
  | true => trivial
  | false =>
    refine asks_bind (asks_lift ⟨rfl, fun _ => trivial⟩) fun _ => ?_
    refine asks_bind (asks_lift (asks_preflightState host plan p.documents item.1)) fun result => ?_
    obtain ⟨state, documents⟩ := result
    cases state with
    | ok state => exact asks_bind (asks_lift ⟨rfl, fun _ => trivial⟩) fun _ => trivial
    | error error => exact asks_bind (asks_lift ⟨rfl, fun _ => trivial⟩) fun _ => trivial

theorem asks_front (host : Host) (plan : Plan) : (front host plan).run.Asks Passive := by
  unfold front
  refine asks_bind (asks_prepare host _) fun run => ?_
  exact asks_foldlM (asks_preflightOne host run.plan) _ _

/-- A plan made of entries that the settings have. -/
structure Planned (host : Host) (plan : Plan) : Prop where
  distinct : Distinct plan.entries
  has : ∀ e ∈ plan.entries, host.setup.Has e

theorem planned_of_buildPlan {target : Target} {entries : List Entry} {catalogId : Option Text}
    {unattended includeConfigs : Bool} (hentries : ∀ e ∈ entries, host.setup.Has e)
    (h : buildPlan host.sourceItem host.settings target entries catalogId unattended
    includeConfigs = .ok plan) :
    Planned host plan := by
  obtain ⟨l, hl, hplanned, hwrites⟩ := buildPlan_ok h
  have hlinear := linearised_of_regroup hentries hl hplanned hwrites
  exact ⟨hlinear.distinct, fun e he => (hlinear.chosen e he).has hentries⟩

theorem Planned.linearised (h : Planned host plan) {run : Run} (hprep : Prepared host plan run) :
    Linearised host.settings plan.entries false run.plan.entries := by
  obtain ⟨l, hl, hplanned, hwrites⟩ := buildPlan_ok hprep.build
  exact linearised_of_regroup h.has hl hplanned hwrites

theorem Planned.spreads_of (h : Planned host plan) {run : Run} {p : Preflights}
    (hprep : Prepared host plan run) (hpre : Preflighted run (run.plan.entries.map Entry.id) p) :
    ∃ q, Spreads plan p q ∧ RowsOf (p.run.plan.entries.map Entry.id) q.rows ∧
      (p.run.plan.entries.map Entry.id).Perm (plan.entries.map Entry.id) ∧
      (applicationUnits (activeEntries { p.run with results := q.rows })).flatMap Prod.snd =
        activeEntries { p.run with results := q.rows } := by
  obtain ⟨q, hq, hrows, hblocks⟩ := hpre.spread
  have hsame : p.run.plan = run.plan := by rw [hpre.same]
  have hlinear := h.linearised hprep
  have hmem : ∀ e, e ∈ p.run.plan.entries ↔ e ∈ plan.entries := by
    rw [hsame]
    exact mem_rebuilt h.distinct hprep.build
  refine ⟨q, ⟨hmem, hq, fun e _ => hblocks e.id, fun e he hfree => ?_⟩, hrows, ?_, ?_⟩
  · exact active_clear hpre hlinear hblocks (mem_activeEntries.mpr ⟨(hmem e).mpr he, hfree⟩)
  · rw [hsame]
    exact rebuilt_perm h.distinct hprep.build
  · exact @active_units host plan p.run (hsame ▸ hlinear) q.rows

theorem Planned.spreads (h : Planned host plan) {p : Preflights} {h₀ : History}
    (hr : Ran (front host plan) [] p h₀) :
    ∃ q, Spreads plan p q ∧ RowsOf (p.run.plan.entries.map Entry.id) q.rows ∧
      (p.run.plan.entries.map Entry.id).Perm (plan.entries.map Entry.id) ∧
      (applicationUnits (activeEntries { p.run with results := q.rows })).flatMap Prod.snd =
        activeEntries { p.run with results := q.rows } := by
  obtain ⟨run, hprep, hpre⟩ := wp_done (front_spec (E := anything) h.distinct) hr
  exact h.spreads_of hprep hpre

theorem back_spec (h : Planned host plan) {p : Preflights} {h₀ : History}
    (hr : Ran (front host plan) [] p h₀) :
    wpe anything (Acting host plan) (back host p) h₀ (fun run _ => RowFor plan run.results)
      fun stopped _ => RowFor plan stopped.run.results := by
  obtain ⟨q, hspreads, hrows, hperm, hunits⟩ := h.spreads hr
  have hfor : ∀ rows, RowsOf (p.run.plan.entries.map Entry.id) rows → RowFor plan rows := by
    intro rows hrows
    rw [RowFor, hrows]
    exact hperm
  refine wpe_guard (I := Guard (backupsOf host p) (activeEntries { p.run with results := q.rows }) h₀) ?_ fun
    t query hguard hacts => ?_
  · unfold back
    refine wpe_bind.mpr (wpe_mono (blockDependants_going hspreads.ends hrows) ?_ fun _ _ he => he.elim)
    rintro p' t ⟨rfl, hgoing⟩
    split
    · exact hfor _ hgoing.rows
    · refine wpe_mono (applyActive_going hgoing hunits) (fun run _ hrun =>
        hfor _ hrun.rows) fun _ _ hrun => hfor _ hrun
  · obtain ⟨new, hnew, hturn⟩ := hguard hacts
    exact ⟨p, h₀, q, new, hr, hspreads, hnew, hturn⟩

theorem runPlan_spec (h : Planned host plan) :
    wpe anything (Acting host plan) (runPlan host plan.started) [] (fun run _ => RowFor plan run.results)
      fun stopped _ => RowFor plan stopped.run.results := by
  rw [runPlan_eq, wpe_bind]
  have hran := wpe_self (I := Acting host plan) (h := []) (asks_front host plan) fun _ q hq hacts => by
    rw [hq] at hacts
    cases hacts
  have hrows := @front_spec _ anything host plan [] h.distinct
  refine wpe_mono (wpe_guard (wpe_and hran hrows) fun _ _ hI => hI.1)
    (fun p t hp => back_spec h hp.1) fun _ _ he => he.2

theorem setAt_rowFor {rows : List Row} (h : RowFor plan rows) (index : Nat)
    (status : Status) (detail : Text) :
    RowFor plan (setAt index status detail rows) := by
  rw [RowFor, setAt_ids]
  exact h

theorem stopped_rowFor {stopped : Stopped} (h : RowFor plan stopped.run.results) :
    RowFor plan stopped.results := by
  unfold Stopped.results
  simp only
  split
  · exact setAt_rowFor h ..
  · rw [RowFor, List.map_map]
    exact h

/-- With a row for each entry, all rows ended well exactly when every entry did. -/
theorem report_ok (hplan : Distinct plan.entries) {run : Run} {rows : List Row} (h : RowFor plan rows) :
    (report run rows).ok = true ↔ ∀ e ∈ plan.entries, ∃ row ∈ (report run rows).results, row.id = e.id ∧
      endedWell row = true := by
  have hnodup : (rows.map Row.id).Nodup := h.nodup_iff.mpr hplan
  unfold report
  simp only [List.all_eq_true]
  constructor
  · intro hall e he
    obtain ⟨row, hrow, hid⟩ := List.mem_map.mp (h.mem_iff.mpr (List.mem_map_of_mem he))
    exact ⟨row, hrow, hid, hall row hrow⟩
  · intro hall row hrow
    obtain ⟨e, he, hid⟩ := List.mem_map.mp (h.mem_iff.mp (List.mem_map_of_mem hrow))
    obtain ⟨row', hrow', hid', hwell⟩ := hall e he
    rwa [List.inj_on_of_nodup_map hnodup hrow hrow' (hid.symm.trans hid'.symm)]

theorem executePlan_spec (h : Planned host plan) :
    wp anything (Acting host plan) (executePlan host plan) [] fun report _ =>
      report.ok = true ↔ ∀ e ∈ plan.entries, ∃ row ∈ report.results, row.id = e.id ∧
        endedWell row = true := by
  unfold executePlan
  refine wp_bind.mpr (wp_mono (runPlan_spec h) fun r t hr => ?_)
  cases r with
  | ok run => exact report_ok h.distinct hr
  | error stopped => exact report_ok h.distinct (stopped_rowFor hr)

end

end HomeStack.Setup

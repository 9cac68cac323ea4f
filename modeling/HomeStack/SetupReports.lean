import HomeStack.SetupRollback

/-! What a setup run that goes through has done: the rows it leaves and, for each entry that is not
blocked, its snapshot, its work and its record. -/

open scoped List

namespace HomeStack.Setup

open Prog

/-! ## Rows of the entries at work -/

theorem mem_setRow_self {id : Text} {status : Status} {detail : Text} {rows : List Row} {row : Row}
    (h : row ∈ setRow id status detail rows) (hid : row.id = id) : row.status = status ∨ row ∈ rows := by
  induction rows with
  | nil => cases h
  | cons r rows ih =>
    unfold setRow at h
    split at h
    · rcases List.mem_cons.mp h with rfl | h
      · exact Or.inl rfl
      · exact Or.inr (List.mem_cons_of_mem _ h)
    · rcases List.mem_cons.mp h with rfl | h
      · exact Or.inr List.mem_cons_self
      · exact (ih h).imp_right (List.mem_cons_of_mem _)

/-- An entry that ends well blocks nothing. -/
theorem blocks_setRow_done {id : Text} {rows : List Row} (done : Done) (detail : Text)
    (hfree : ¬ Blocks rows id) (x : Text) :
    Blocks (setRow id done.status detail rows) x ↔ Blocks rows x := by
  by_cases hx : x = id
  · subst hx
    refine ⟨?_, fun h => absurd h hfree⟩
    rintro ⟨row, hrow, hid, hblocked⟩
    rcases mem_setRow_self hrow hid with hstatus | hold
    · rw [isBlocked, hstatus] at hblocked
      cases done <;> cases hblocked
    · exact absurd ⟨row, hold, hid, hblocked⟩ hfree
  · have hmem (row : Row) (hrow : row.id = x) : row ∈ setRow id done.status detail rows ↔ row ∈ rows :=
      mem_setRow (hrow ▸ hx)
    constructor
    · rintro ⟨row, hrow, hid, hblocked⟩
      exact ⟨row, (hmem row hid).mp hrow, hid, hblocked⟩
    · rintro ⟨row, hrow, hid, hblocked⟩
      exact ⟨row, (hmem row hid).mpr hrow, hid, hblocked⟩

/-- The row of this ID says that its entry ended well. -/
def EndedWell (rows : List Row) (id : Text) : Prop := ∃ row ∈ rows, row.id = id ∧ endedWell row = true

theorem endedWell_setRow {id : Text} {rows : List Row} (done : Done) (detail : Text)
    (h : id ∈ rows.map Row.id) :
    EndedWell (setRow id done.status detail rows) id := by
  obtain ⟨row, hrow, hid, hstatus⟩ := setRow_mem done.status detail h
  refine ⟨row, hrow, hid, ?_⟩
  rw [endedWell, hstatus]
  cases done <;> rfl

theorem EndedWell.setRow {id x : Text} {rows : List Row} (hx : EndedWell rows x) (done : Done) (detail : Text)
    (h : id ∈ rows.map Row.id) : EndedWell (setRow id done.status detail rows) x := by
  by_cases heq : x = id
  · subst heq
    exact endedWell_setRow done detail h
  · obtain ⟨row, hrow, hid, hwell⟩ := hx
    exact ⟨row, (mem_setRow (hid ▸ heq)).mpr hrow, hid, hwell⟩

/-- The rows that the preflights left as `before`, after the work of these entries. -/
structure Tallied (ids : List Text) (before : List Row) (done : List Entry) (rows : List Row) : Prop where
  ids : RowsOf ids rows
  blocked : ∀ id, Blocks rows id ↔ Blocks before id
  well : ∀ entry ∈ done, EndedWell rows entry.id

section

variable {ids : List Text} {before rows : List Row} {done : List Entry} {host : Host} {plan : Plan}
  {work : Work} {owner : Text}

theorem Tallied.set (h : Tallied ids before done rows) {entry : Entry} (hin : entry.id ∈ ids)
    (hfree : ¬ Blocks before entry.id) (ended : Done) (detail : Text) :
    Tallied ids before (done ++ [entry]) (setAt (position entry.id rows) ended.status detail rows) := by
  have hmem : entry.id ∈ rows.map Row.id := h.ids ▸ hin
  rw [setAt_position _ _ hmem]
  refine ⟨(setRow_ids ..).trans h.ids, fun id => ?_, fun e he => ?_⟩
  · exact (blocks_setRow_done ended detail (fun hb => hfree ((h.blocked _).mp hb)) id).trans (h.blocked id)
  · rcases List.mem_append.mp he with he | he
    · exact (h.well e he).setRow ended detail hmem
    · rw [List.mem_singleton.mp he]
      exact endedWell_setRow ended detail hmem

/-! ## The work of an entry -/

/-- The document of these leaves was read and merged. -/
def Merged (host : Host) (entries : List Entry) (new : History) (document : Document) : Prop :=
  ∃ found remote, entries.head?.bind Entry.structured = some found ∧
    ⟨.structuredRead (relativeOf found.1.path), .ok remote⟩ ∈ new ∧
      mergedDocument host found.1 entries remote = .ok document

/-- The document was brought up to date: where the merge changes it, it was written. -/
def Updated (host : Host) (plan : Plan) (new : History) (path : Text) (document : Document) : Prop :=
  Merged host (configGroups plan path) new document ∧
    (document.changed = true →
      ⟨.structuredWrite (relativeOf path) document.candidate document.sha256, .ok ()⟩ ∈ new)

/-- The work of the entry was done. -/
def Worked (host : Host) (plan : Plan) (new : History) (entry : Entry) : Prop :=
  match entry.structured with
  | some (config, _, _) => ∃ document, Updated host plan new config.path document
  | none => ∃ state result, ⟨.apply plan.unattended entry state, .ok result⟩ ∈ new

theorem worked_structured {new : History} {entry : Entry} {config : ConfigFile} {key : List Text} {value : Json}
    (h : entry.structured = some (config, key, value)) :
    Worked host plan new entry ↔ ∃ document, Updated host plan new config.path document := by
  unfold Worked
  rw [h]

theorem worked_apply {new : History} {entry : Entry} (h : entry.structured = none) :
    Worked host plan new entry ↔
      ∃ state result, ⟨.apply plan.unattended entry state, .ok result⟩ ∈ new := by
  unfold Worked
  rw [h]

theorem Updated.mono {new more : History} {path : Text} {document : Document}
    (h : Updated host plan new path document) (hsub : new ⊆ more) : Updated host plan more path document := by
  obtain ⟨⟨found, remote, hfound, hread, hmerged⟩, hwrite⟩ := h
  exact ⟨⟨found, remote, hfound, hsub hread, hmerged⟩, fun hchanged => hsub (hwrite hchanged)⟩

theorem Worked.mono {new more : History} {entry : Entry} (h : Worked host plan new entry)
    (hsub : new ⊆ more) :
    Worked host plan more entry := by
  unfold Worked at h ⊢
  split at h
  · exact h.imp fun _ hd => hd.mono hsub
  · exact h.imp fun _ hs => hs.imp fun _ hr => hsub hr

/-- What was asked after `h₀`. -/
def since (h₀ t : History) : History := t.take (t.length - h₀.length)

theorem since_append (new h₀ : History) : since h₀ (new ++ h₀) = new := by simp [since]

theorem subset_since {new h₀ h : History} (hsuffix : h₀ <:+ h) : new ⊆ since h₀ (new ++ h) := by
  obtain ⟨old, rfl⟩ := hsuffix
  rw [← List.append_assoc, since_append]
  exact List.subset_append_left new old

theorem mem_since {h₀ h : History} {event : Event Query Answer} (hsuffix : h₀ <:+ h) :
    event ∈ since h₀ (event :: h) := by
  have hnew : [event] ⊆ since h₀ ([event] ++ h) := subset_since hsuffix
  exact hnew (List.mem_singleton_self event)

theorem since_mono {h₀ t t' : History} (hsuffix : h₀ <:+ t) (hgrows : t <:+ t') :
    since h₀ t ⊆ since h₀ t' := by
  obtain ⟨old, rfl⟩ := hsuffix
  obtain ⟨new, rfl⟩ := hgrows
  rw [← List.append_assoc, since_append, since_append]
  exact List.subset_append_right new old

/-- The unit has done the work of these entries, and these are the documents it is done with. -/
structure AtWork (host : Host) (plan : Plan) (ids : List Text) (before : List Row) (h₀ : History)
    (done : List Entry) (u : UnitRun) (t : History) : Prop where
  rows : Tallied ids before done u.run.results
  after : h₀ <:+ t
  documents : ∀ x ∈ u.completed, Updated host plan (since h₀ t) x.1 x.2
  worked : ∀ entry ∈ done, Worked host plan (since h₀ t) entry

variable {h₀ t t' : History} {u u' : UnitRun} {path : Text} {document : Document} {entry : Entry}

theorem AtWork.grows (h : AtWork host plan ids before h₀ done u t) (hgrows : t <:+ t') :
    AtWork host plan ids before h₀ done u t' :=
  have hsub := since_mono h.after hgrows
  ⟨h.rows, h.after.trans hgrows, fun x hx => (h.documents x hx).mono hsub,
    fun e he => (h.worked e he).mono hsub⟩

theorem inspect_ran {entries : List Entry} {h : History}
    (hr : Ran (inspectConfigFile host entries) h document t) :
    ∃ new, t = new ++ h ∧ Merged host entries new document := by
  unfold inspectConfigFile at hr
  split at hr
  · cases hr
  · rename_i found config key hfound
    obtain ⟨remote, s, hread, hr⟩ := Ran.bind hr
    obtain ⟨hmerged, rfl⟩ := Ran.ofExcept hr
    cases hread with
    | step hn hdone =>
      cases hn
      cases hdone
      exact ⟨[_], rfl, _, remote, hfound, List.mem_singleton_self _, hmerged⟩

theorem write_ran {h : History} (hr : Ran (writeDocument host u path document) h u' t) :
    u'.run = u.run ∧ u'.completed = u.completed ∧ ∃ new, t = new ++ h ∧
      (document.changed = true →
        ⟨.structuredWrite (relativeOf path) document.candidate document.sha256, .ok ()⟩ ∈ new) := by
  unfold writeDocument at hr
  split at hr
  · obtain ⟨_, s, hwrite, hr⟩ := Ran.bind hr
    obtain ⟨rfl, rfl⟩ := Ran.pure hr
    cases Ran.mapError hwrite with
    | step hn hdone =>
      cases hn
      cases hdone
      exact ⟨rfl, rfl, [_], rfl, fun _ => List.mem_singleton_self _⟩
  · rename_i hsame
    obtain ⟨rfl, rfl⟩ := Ran.pure hr
    exact ⟨rfl, rfl, [], rfl, fun hchanged => absurd hchanged hsame⟩

/-- A document is brought up to date once. -/
theorem complete_ran (h : AtWork host work.plan ids before h₀ done u t)
    (hr : Ran (completeDocument host work owner u path) t u' t') :
    AtWork host work.plan ids before h₀ done u' t' ∧ u'.run = u.run ∧
      ∃ document, (path, document) ∈ u'.completed := by
  unfold completeDocument at hr
  split at hr
  · rename_i hdone
    obtain ⟨rfl, rfl⟩ := Ran.pure hr
    obtain ⟨⟨p, document⟩, hx, hp⟩ := List.any_eq_true.mp hdone
    obtain rfl : p = path := of_decide_eq_true hp
    exact ⟨h, rfl, document, hx⟩
  · obtain ⟨document, s, hread, hr⟩ := Ran.bind hr
    obtain ⟨new, rfl, hmerged₀⟩ := inspect_ran hread.mapError
    obtain ⟨-, hr⟩ := Ran.guard hr
    obtain ⟨u₁, s₁, hwrite, hr⟩ := Ran.bind hr
    obtain ⟨rfl, rfl⟩ := Ran.pure hr
    obtain ⟨hrun, hcompleted, more, rfl, hwrote⟩ := write_ran hwrite
    have hgrown := h.grows (hread.suffix.trans hwrite.suffix)
    have hupdated : Updated host work.plan (more ++ new) path document := by
      obtain ⟨found, remote, hfound, hasked, hmerged⟩ := hmerged₀
      exact ⟨⟨found, remote, hfound, List.mem_append_right _ hasked, hmerged⟩,
        fun hc => List.mem_append_left _ (hwrote hc)⟩
    refine ⟨⟨hrun ▸ hgrown.rows, hgrown.after, fun x hx => ?_, hgrown.worked⟩, hrun, document, by simp⟩
    rcases List.mem_append.mp hx with hx | hx
    · exact hgrown.documents x (hcompleted ▸ hx)
    · rw [List.mem_singleton.mp hx]
      exact hupdated.mono (by rw [← List.append_assoc]; exact subset_since h.after)

theorem apply_ran (h : AtWork host work.plan ids before h₀ done u t) {ended : Done} {detail : Text}
    (hr : Ran (applyOne host work owner u entry) t (u', ended, detail) t') :
    AtWork host work.plan ids before h₀ done u' t' ∧ u'.run = u.run ∧
      Worked host work.plan (since h₀ t') entry := by
  unfold applyOne at hr
  split at hr
  · rename_i config key value hstructured
    obtain ⟨u₁, s, hcomplete, hr⟩ := Ran.bind hr
    obtain ⟨hdone, hrun, document, hx⟩ := complete_ran h hcomplete
    rw [worked_structured hstructured]
    split at hr <;>
    · obtain ⟨heq, rfl⟩ := Ran.pure hr
      cases heq
      exact ⟨hdone, hrun, document, hdone.documents _ hx⟩
  · rename_i hnone
    obtain ⟨r, s, hask, hr⟩ := Ran.bind hr
    obtain ⟨heq, rfl⟩ := Ran.pure hr
    cases heq
    rw [worked_apply hnone]
    cases Ran.mapError hask with
    | step hn hdone =>
      cases hn
      cases hdone
      refine ⟨h.grows (List.suffix_cons _ _), rfl, stateOf work.states entry, r, ?_⟩
      exact mem_since h.after

theorem applyEntry_ran (h : AtWork host work.plan ids before h₀ done u t) (hin : entry.id ∈ ids)
    (hfree : ¬ Blocks before entry.id) (hr : Ran (applyEntry host work owner u entry) t u' t') :
    AtWork host work.plan ids before h₀ (done ++ [entry]) u' t' := by
  unfold applyEntry at hr
  obtain ⟨cancelled, s, hcancelled, hr⟩ := Ran.bind hr
  obtain ⟨-, hr⟩ := Ran.guard hr
  obtain ⟨_, s₁, hprogress, hr⟩ := Ran.bind hr
  obtain ⟨⟨u₁, ended, detail⟩, s₂, happly, hr⟩ := Ran.bind hr
  obtain ⟨rfl, rfl⟩ := Ran.pure hr
  have hstart : AtWork host work.plan ids before h₀ done (u.start (position entry.id u.run.results)) s₁ := by
    have hgrown := h.grows (hcancelled.suffix.trans hprogress.suffix)
    exact ⟨hgrown.rows, hgrown.after, hgrown.documents, hgrown.worked⟩
  obtain ⟨hdone, hrun, hworked⟩ := apply_ran hstart happly
  refine ⟨?_, hdone.after, hdone.documents, fun e he => ?_⟩
  · have hset := h.rows.set hin hfree ended detail
    rw [show u.run.results = u₁.run.results by rw [hrun]; rfl] at hset
    rw [show u.run.results = u₁.run.results by rw [hrun]; rfl]
    exact hset
  · rcases List.mem_append.mp he with he | he
    · exact hdone.worked e he
    · rw [List.mem_singleton.mp he]
      exact hworked

theorem validate_ran {entries : List Entry} (h : AtWork host work.plan ids before h₀ done u t)
    (hr : Ran (validateUnit host work owner entries u) t u' t') :
      AtWork host work.plan ids before h₀ done u' t' := by
  have hgrown := h.grows hr.suffix
  unfold validateUnit at hr
  split at hr
  · obtain ⟨rfl, rfl⟩ := Ran.pure hr
    exact hgrown
  · split at hr
    · obtain ⟨_, s, -, hr⟩ := Ran.bind hr
      obtain ⟨rfl, rfl⟩ := Ran.pure hr
      exact ⟨hgrown.rows, hgrown.after, hgrown.documents, hgrown.worked⟩
    · obtain ⟨rfl, rfl⟩ := Ran.pure hr
      exact hgrown

/-- These entries have their row and the preflights left them free. -/
def Free (ids : List Text) (before : List Row) (entries : List Entry) : Prop :=
  ∀ entry ∈ entries, entry.id ∈ ids ∧ ¬ Blocks before entry.id

/-! ## The units -/

/-- The state of the entry was recorded. -/
def Recorded (work : Work) (new : History) (entry : Entry) : Prop :=
  ∃ snapshot, ⟨.stateRecord work.plan.target entry (stateOf work.states entry) snapshot, .ok ()⟩ ∈ new

/-- The run has done the work of the first entries, and recorded the second ones. -/
structure Gone (host : Host) (work : Work) (ids : List Text) (before : List Row) (h₀ : History)
    (done recorded : List Entry) (run : Run) (t : History) : Prop where
  rows : Tallied ids before done run.results
  after : h₀ <:+ t
  worked : ∀ entry ∈ done, Worked host work.plan (since h₀ t) entry
  recorded : ∀ entry ∈ recorded, Recorded work (since h₀ t) entry

variable {run run' : Run} {recorded entries : List Entry}

theorem workUnit_ran (h : Gone host work ids before h₀ done recorded run t) (hfree : Free ids before entries)
    (hr : Ran (workUnit host work owner entries run) t u t') : AtWork host work.plan ids before h₀
    (done ++ entries) u t' := by
  unfold workUnit at hr
  obtain ⟨u₁, s, hloop, hr⟩ := Ran.bind hr
  refine validate_ran (Ran.foldlM (I := fun new u t => Free ids before new →
    AtWork host work.plan ids before h₀ (done ++ new) u t)
    ?_ (fun _ => ?_) hloop hfree) hr
  · intro new entry u s u' s' hwork hstep hfree
    have hentry := hfree entry (List.mem_append_right _ (List.mem_singleton_self _))
    rw [← List.append_assoc]
    exact applyEntry_ran (hwork fun e he => hfree e (List.mem_append_left _ he)) hentry.1 hentry.2 hstep
  · rw [List.append_nil]
    exact ⟨h.rows, h.after, nofun, h.worked⟩

theorem record_ran (h : Gone host work ids before h₀ done recorded run t)
    (hr : Ran (recordEntry work run entry) t run' t') :
    Gone host work ids before h₀ done (recorded ++ [entry]) run' t' := by
  have hsub := since_mono h.after hr.suffix
  have hafter := h.after.trans hr.suffix
  unfold recordEntry at hr
  obtain ⟨_, s, hrecord, hr⟩ := Ran.bind hr
  obtain ⟨_, s', hprogress, hr⟩ := Ran.bind hr
  obtain ⟨rfl, rfl⟩ := Ran.pure hr
  refine ⟨h.rows, hafter, fun e he => (h.worked e he).mono hsub, fun e he => ?_⟩
  rcases List.mem_append.mp he with he | he
  · exact (h.recorded e he).imp fun _ hasked => hsub hasked
  · rw [List.mem_singleton.mp he]
    cases Ran.mapError hrecord with
    | step hn hdone =>
      cases hn
      cases hdone
      exact ⟨run.snapshot.id, since_mono (h.after.trans (List.suffix_cons _ _)) hprogress.suffix
        (mem_since h.after)⟩

theorem runUnit_ran {unit : Text × List Entry} (h : Gone host work ids before h₀ done done run t)
    (hfree : Free ids before unit.2) (hr : Ran (runUnit host work run unit) t run' t') :
    Gone host work ids before h₀ (done ++ unit.2) (done ++ unit.2) run' t' := by
  unfold runUnit at hr
  obtain ⟨r, s, hwork, hr⟩ := Ran.bind hr
  cases r with
  | error failed =>
    obtain ⟨stopped, s', -, hr⟩ := Ran.bind hr
    exact (Ran.throw hr).elim
  | ok u =>
    have hdone := workUnit_ran h hfree hwork.lift
    have hsub := since_mono h.after hwork.suffix
    refine Ran.foldlM (I := fun new run t =>
      Gone host work ids before h₀ (done ++ unit.2) (done ++ new) run t) ?_ ?_ hr
    · intro new entry run s run' s' hgone hstep
      rw [← List.append_assoc]
      exact record_ran hgone hstep
    · rw [List.append_nil]
      exact ⟨hdone.rows, hdone.after, hdone.worked, fun e he =>
        (h.recorded e he).imp fun _ hasked => hsub hasked⟩

/-! ## A run that goes through -/

variable {p : Preflights} {active : List Entry}

/-- The paths of the active entries were snapshotted, when there are any. -/
def Snapshotted (host : Host) (p : Preflights) (active : List Entry) (new : History) : Prop :=
  backupPaths host.settings p.states active = [] ∨ ∃ snapshot,
    ⟨.snapshot (unique (backupPaths host.settings p.states active)) (active.map Entry.id) p.run.plan.target,
      .ok snapshot⟩ ∈ new

theorem Snapshotted.mono {new more : History} (h : Snapshotted host p active new) (hsub : new ⊆ more) :
    Snapshotted host p active more := h.imp_right fun hs => hs.imp fun _ hasked => hsub hasked

theorem takeSnapshot_ran (hafter : h₀ <:+ t) (hr : Ran (takeSnapshot host p active) t run t') :
    run.results = p.run.results ∧ Snapshotted host p active (since h₀ t') := by
  unfold takeSnapshot at hr
  dsimp only at hr
  split at hr
  · rename_i hnone
    obtain ⟨rfl, -⟩ := Ran.pure hr
    exact ⟨rfl, Or.inl hnone⟩
  · obtain ⟨snapshot, s, hask, hr⟩ := Ran.bind hr
    obtain ⟨rfl, rfl⟩ := Ran.pure hr
    cases Ran.mapError hask with
    | step hn hdone =>
      cases hn
      cases hdone
      exact ⟨rfl, Or.inr ⟨snapshot, mem_since hafter⟩⟩

theorem applyActive_ran (hrows : Tallied ids before [] p.run.results) (hafter : h₀ <:+ t)
    (hfree : Free ids before active) (hunits : (applicationUnits active).flatMap Prod.snd = active)
    (hr : Ran (applyActive host p active) t run t') :
    Gone host ⟨p.run.plan, p.states, p.documents, active⟩ ids before h₀ active active run t' ∧
      Snapshotted host p active (since h₀ t') := by
  unfold applyActive at hr
  obtain ⟨run₁, s, hsnapshot, hr⟩ := Ran.bind hr
  obtain ⟨hresults, htaken⟩ := takeSnapshot_ran hafter hsnapshot
  have hafter₁ := hafter.trans hsnapshot.suffix
  refine ⟨?_, htaken.mono (since_mono hafter₁ hr.suffix)⟩
  have hgone := Ran.foldlM (I := fun units run t => Free ids before (units.flatMap Prod.snd) →
    Gone host ⟨p.run.plan, p.states, p.documents, active⟩ ids before h₀ (units.flatMap Prod.snd)
      (units.flatMap Prod.snd) run t)
    ?_ (fun _ => ⟨hresults ▸ hrows, hafter₁, nofun, nofun⟩) hr (hunits.symm ▸ hfree)
  · rwa [hunits] at hgone
  · intro units unit run s run' s' hgone hstep hfree
    rw [List.flatMap_append, List.flatMap_singleton] at hfree ⊢
    exact runUnit_ran (hgone fun e he => hfree e (List.mem_append_left _ he))
      (fun e he => hfree e (List.mem_append_right _ he)) hstep

end

/-- What a run has done when it goes through, `new` since its preflights `p`: it has left blocked what
the loop blocked, and all else was snapshotted, worked on in the order of the plan, and recorded. -/
structure WentThrough (host : Host) (plan : Plan) (p : Preflights) (q : Spread) (new : History)
    (rows : List Row) : Prop where
  blocked : ∀ e ∈ plan.entries, Blocks rows e.id ↔
    Closure (applicationUnits p.run.plan.entries) (Failed p) e.id
  well : ∀ e ∈ plan.entries, ¬ Blocks rows e.id → EndedWell rows e.id
  active : ∀ e, e ∈ activeEntries { p.run with results := q.rows } ↔ e ∈ plan.entries ∧ ¬ Blocks rows e.id
  snapshot : Snapshotted host p (activeEntries { p.run with results := q.rows }) new
  order : started new = (activeEntries { p.run with results := q.rows }).map Entry.id
  worked : ∀ e ∈ activeEntries { p.run with results := q.rows }, Worked host p.run.plan new e
  recorded : ∀ e ∈ activeEntries { p.run with results := q.rows },
    Recorded ⟨p.run.plan, p.states, p.documents, activeEntries { p.run with results := q.rows }⟩ new e

section

variable {host : Host} {plan : Plan}

theorem Planned.went_through (h : Planned host plan) {p : Preflights} {run : Run} {h₀ t : History}
    (hfront : Ran (front host plan) [] p h₀) (hr : Ran (back host p) h₀ run t) :
    ∃ q new, Spreads plan p q ∧ t = new ++ h₀ ∧ WentThrough host plan p q new run.results := by
  obtain ⟨q, hspreads, hrows, -, hunits⟩ := h.spreads hfront
  unfold back at hr
  obtain ⟨p', s, hblock, hr⟩ := Ran.bind hr
  have hguard : wpe anything (Guard (backupsOf host p) (activeEntries { p.run with results := q.rows }) h₀)
      (blockDependants p) h₀ _ _ := blockDependants_going hspreads.ends hrows
  obtain ⟨rfl, hgoing⟩ := wpe_done hguard hblock
  have hactive {rows : List Row} (hsame : ∀ id, Blocks rows id ↔ Blocks q.rows id) (e : Entry) :
      e ∈ activeEntries { p.run with results := q.rows } ↔ e ∈ plan.entries ∧ ¬ Blocks rows e.id := by
    rw [mem_activeEntries, hsame, hspreads.planned]
  split at hr
  · rename_i hnone
    obtain ⟨rfl, rfl⟩ := Ran.pure hr
    obtain ⟨new, rfl, -, hstarted, -⟩ := hgoing.trace
    have hempty : activeEntries { p.run with results := q.rows } = [] := hnone
    refine ⟨q, new, hspreads, rfl, hspreads.blocked, fun e he hfree => ?_,
      hactive fun _ => Iff.rfl, Or.inl ?_, ?_, ?_, ?_⟩
    · have hmem := (hactive (fun _ => Iff.rfl) e).mpr ⟨he, hfree⟩
      rw [hempty] at hmem
      cases hmem
    all_goals
      rw [hempty]
    · rfl
    · exact hstarted
    · nofun
    · nofun
  · have hfree : Free (p.run.plan.entries.map Entry.id) q.rows
      (activeEntries { p.run with results := q.rows }) := fun e he =>
      ⟨List.mem_map_of_mem (mem_activeEntries.mp he).1, (mem_activeEntries.mp he).2⟩
    obtain ⟨new₀, hnew₀, -⟩ := hgoing.trace
    have hafter : h₀ <:+ s := hnew₀ ▸ List.suffix_append _ _
    obtain ⟨hgone, hsnapshot⟩ := applyActive_ran (p := { p with run := { p.run with results := q.rows } })
      ⟨hrows, fun _ => Iff.rfl, nofun⟩ hafter hfree hunits hr
    have hfinal := wpe_done (applyActive_going hgoing hunits) hr
    obtain ⟨new, rfl, -, hstarted, -⟩ := hfinal.trace
    have hworked := hgone.worked
    have hrecorded := hgone.recorded
    rw [since_append] at hsnapshot hworked hrecorded
    exact ⟨q, new, hspreads, rfl, fun e he => (hgone.rows.blocked e.id).trans (hspreads.blocked e he),
      fun e he hb => hgone.rows.well e ((hactive hgone.rows.blocked e).mpr ⟨he, hb⟩),
        hactive hgone.rows.blocked, hsnapshot, hstarted,
      hworked, hrecorded⟩

/-- In every run of a plan, whatever the workspace answers: the loop ends, the blocked entries are those
that did not pass their preflight and what follows from them, the others are clear, and only they are
snapshotted, applied in their turn and recorded. A run that goes through has done so with each of them;
and the report is of a run that went through or stopped, and says success exactly when every entry ended
well. -/
theorem blocked_work_spreads {host : Host} {target : Target} {entries : List Entry} {catalogId : Option Text}
    {unattended includeConfigs : Bool} {plan : Plan} (hentries : ∀ e ∈ entries, host.setup.Has e)
    (hbuild : buildPlan host.sourceItem host.settings target entries catalogId unattended
      includeConfigs = .ok plan) :
    (∀ p h, Ran (front host plan) [] p h → ∃ q, Spreads plan p q) ∧
    (∀ o t, Exec anything (executePlan host plan) [] o t → ∃ new, t = new ++ [] ∧
      Guarded (Acting host plan) new []) ∧
    (∀ run t, Ran (runPlan host plan.started) [] run t → ∃ p h q new, Ran (front host plan) [] p h ∧
      Spreads plan p q ∧
      t = new ++ h ∧ WentThrough host plan p q new run.results) ∧
    ∀ report t, Exec anything (executePlan host plan) [] (some report) t →
      (report.ok = true ↔ ∀ e ∈ plan.entries, EndedWell report.results e.id) ∧
      ((∃ run, Ran (runPlan host plan.started) [] run t ∧ report.results = run.results) ∨
        ∃ stopped, Exec anything (runPlan host plan.started).run [] (some (.error stopped)) t ∧
          report.results = stopped.results) := by
  have hplanned := planned_of_buildPlan hentries hbuild
  refine ⟨fun p h hr => ?_, fun o t hr => wp_guarded (executePlan_spec hplanned) hr, fun run t hr => ?_,
    fun report t hr => ⟨?_, ?_⟩⟩
  · obtain ⟨q, hq, _⟩ := hplanned.spreads hr
    exact ⟨q, hq⟩
  · rw [runPlan_eq] at hr
    obtain ⟨p, h, hfront, hback⟩ := Ran.bind hr
    obtain ⟨q, new, hspreads, hnew, hthrough⟩ := hplanned.went_through hfront hback
    exact ⟨p, h, q, new, hfront, hspreads, hnew, hthrough⟩
  · have hreport := wp_done (executePlan_spec hplanned) hr
    exact hreport
  · unfold executePlan at hr
    obtain ⟨r, s, hrun, hr⟩ := Exec.bind hr
    cases r with
    | ok run =>
      cases hr
      exact Or.inl ⟨run, hrun, rfl⟩
    | error stopped =>
      cases hr
      exact Or.inr ⟨stopped, hrun, rfl⟩

end

/-! ## A tool that is set up, and one that is not -/

/-- Its preflight fails. -/
def gadget : Entry := { toolLeaf with id := "gadget", label := "Gadget", params := .herdr }

def workshopSetup : SetupConfig where
  items := [tool, gadget]
  distinct := by
    unfold Distinct
    decide
  ids := by decide
  plain := by decide

def workshop : Host := { toolHost with setup := workshopSetup }

def workshopPlan : Plan := ⟨sampleTarget, [tool, toolLeaf, gadget], none, true⟩

theorem workshop_has : ∀ e ∈ [tool, toolLeaf, gadget], workshop.setup.Has e := by
  intro e he
  rcases List.mem_cons.mp he with rfl | he
  · exact Or.inl List.mem_cons_self
  · rcases List.mem_cons.mp he with rfl | he
    · exact Or.inr ⟨tool, List.mem_cons_self, toolLeaf_mem⟩
    · exact Or.inl (List.mem_cons_of_mem _ he)

theorem buildPlan_workshop :
    buildPlan workshop.sourceItem workshop.settings sampleTarget [tool, toolLeaf, gadget] none true false =
      .ok workshopPlan := by
  apply Except.ok_of_toOption
  decide +kernel

def workshopReply : (q : Query) → Answer q
  | .connect | .requireTool _ | .identity _ | .structuredWrite .. | .validate _ | .structuredRestore
      .. | .stateRecord .. => .ok ()
  | .cancelled => false
  | .progress .. => ()
  | .preflight _ entry => if entry.id = gadget.id then .error ⟨"unavailable"⟩ else .ok (.obj [])
  | .structuredRead _ => .ok ⟨none, none⟩
  | .snapshot .. => .ok ⟨false, none, none⟩
  | .apply .. => .ok (.succeeded, [])

def workshopStep (h : History) (q : Query) : Answer q × History :=
  (workshopReply q, ⟨q, workshopReply q⟩ :: h)

/-- The run went through with these rows. -/
def throughWith (result : Except Stopped Run × History) (rows : List (Text × Status)) : Bool :=
  match result.1 with
  | .ok run => run.results.map (fun row => (row.id, row.status)) = rows
  | .error _ => false

/-- What the gadget's failed preflight leaves: a report of the tool set up, with its document written. -/
theorem blocked_work_spreads_workshop :
    ∃ run t p h q new, Ran (runPlan workshop workshopPlan.started) [] run t ∧
    Ran (front workshop workshopPlan) [] p h ∧ Spreads workshopPlan p q ∧ t = new ++ h ∧
    WentThrough workshop workshopPlan p q new run.results ∧
    run.results.map (fun row => (row.id, row.status)) =
      [(tool.id, .succeeded), (toolLeaf.id, .succeeded), (gadget.id, .blocked)] := by
  have hrows : throughWith (play workshopStep (runPlan workshop workshopPlan.started).run [])
      [(tool.id, .succeeded), (toolLeaf.id, .succeeded), (gadget.id, .blocked)] = true := by decide +kernel
  have hexec := exec_play (E := anything) (g := workshopStep) (fun _ _ => rfl)
    (runPlan workshop workshopPlan.started).run []
  generalize play workshopStep (runPlan workshop workshopPlan.started).run [] = result at hrows hexec
  obtain ⟨r, t⟩ := result
  cases r with
  | error stopped => cases hrows
  | ok run =>
    obtain ⟨p, h, q, new, hfront, hspreads, hnew, hthrough⟩ :=
      (blocked_work_spreads workshop_has buildPlan_workshop).2.2.1 run t hexec
    exact ⟨run, t, p, h, q, new, hexec, hfront, hspreads, hnew, hthrough, of_decide_eq_true hrows⟩

end HomeStack.Setup

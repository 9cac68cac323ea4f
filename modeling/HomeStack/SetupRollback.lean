import HomeStack.Lib.Sha256
import HomeStack.SetupInspect

/-! A unit of a setup run that fails takes its own document writes back. -/

namespace HomeStack.Setup

open Prog

/-! ## Units -/

/-- A document of one of these entries. -/
def Reached (entries : List Entry) (relative : Text) : Prop :=
  ∃ entry ∈ entries, ∃ path, entry.At path ∧ relative = relativeOf path

/-- The question is part of the work of this entry. -/
def Applies (entry : Entry) (q : Query) : Prop :=
  q = .progress entry.id .running ∨ (∃ unattended state, q = .apply unattended entry state) ∨
    ∃ path content expected, entry.At path ∧ q = .structuredWrite (relativeOf path) content expected

def RecordsState (entry : Entry) (q : Query) : Prop :=
  ∃ target state snapshot, q = .stateRecord target entry state snapshot

/-- Work that the question is part of is work of these entries. -/
def Concerns (entries : List Entry) : Query → Prop
  | .progress id .running => ∃ entry ∈ entries, entry.id = id
  | .apply _ entry _ => entry ∈ entries
  | .structuredWrite relative _ _ => Reached entries relative
  | _ => True

/-- A question that records a state is about one of these entries. -/
def Records (entries : List Entry) : Query → Prop
  | .stateRecord _ entry _ _ => entry ∈ entries
  | _ => True

/-- What a run keeps to from its snapshot on. `begun` are the entries of the units so far, `recorded`
those whose state may be recorded, `earlier` those of the units that are done; `applied` are the
documents of the unit at work. -/
structure Steady (home : Home) (planned : Plan) (ids : List Text) (snapshot : Option Text)
    (begun recorded earlier : List Entry) (run : Run) (applied : List (Text × Text)) (g : Guest) : Prop where
  plan : run.plan = planned
  rows : RowsOf ids run.results
  mark : run.snapshot.id = snapshot
  holds : Holds home snapshot g
  taken : ∀ h ∈ g.taken, h = home
  concern : ∀ event ∈ g.history, Concerns begun event.q
  recorded : ∀ event ∈ g.history, Records recorded event.q
  wrote : ∀ relative ∈ g.wrote, Reached earlier relative ∨ ∃ written ∈ applied,
    relative = relativeOf written.1
  applied : ∀ written ∈ applied, ∃ entry ∈ begun, entry.At written.1

section

variable {host : Host} {home : Home} {planned : Plan} {ids : List Text} {snapshot : Option Text}
  {begun recorded earlier : List Entry} {run : Run} {applied : List (Text × Text)} {g t : Guest}

/-- The question is not one that writes a document or takes a snapshot. -/
def Query.quiet : Query → Bool
  | .structuredWrite .. | .snapshot .. => false
  | _ => true

theorem quiet_next {q : Query} {r : Answer q} (hq : q.quiet = true) (hn : (carefulGuest host).next g q r t) :
    t.snapshots = g.snapshots ∧ t.taken = g.taken ∧ t.wrote = g.wrote := by
  obtain ⟨⟨_, heffect⟩, hcareful⟩ := hn
  cases q with
  | structuredRead relative => exact ⟨heffect.1.2.1, heffect.1.2.2.1, heffect.1.2.2.2⟩
  | snapshot paths items target => cases hq
  | structuredWrite relative content expected => cases hq
  | structuredRestore relative snapshot expected existed => exact ⟨heffect.1, heffect.2.1, heffect.2.2.1⟩
  | apply unattended entry state => exact ⟨hcareful, heffect⟩
  | validate application => exact ⟨hcareful, heffect⟩
  | stateRecord target entry state snapshot => exact ⟨heffect.2.1, heffect.2.2.1, heffect.2.2.2⟩
  | connect | requireTool tool | identity target | cancelled | progress id status | preflight target entry =>
    exact ⟨heffect.2.1, heffect.2.2.1, heffect.2.2.2⟩

theorem Steady.history (h : Steady home planned ids snapshot begun recorded earlier run applied g) {q : Query}
    {r : Answer q} (hn : (carefulGuest host).next g q r t) (hc : Concerns begun q) (hr : Records recorded q) :
    (∀ event ∈ t.history, Concerns begun event.q) ∧ ∀ event ∈ t.history, Records recorded event.q := by
  rw [hn.1.1]
  constructor
  · intro event hevent
    rcases List.mem_cons.mp hevent with rfl | hevent
    · exact hc
    · exact h.concern event hevent
  · intro event hevent
    rcases List.mem_cons.mp hevent with rfl | hevent
    · exact hr
    · exact h.recorded event hevent

theorem Steady.next (h : Steady home planned ids snapshot begun recorded earlier run applied g) {q : Query}
    {r : Answer q} (hn : (carefulGuest host).next g q r t) (hq : q.quiet = true) (hc : Concerns begun q)
    (hr : Records recorded q) :
    Steady home planned ids snapshot begun recorded earlier run applied t := by
  obtain ⟨hsnapshots, htaken, hwrote⟩ := quiet_next hq hn
  obtain ⟨hconcern, hrecorded⟩ := h.history hn hc hr
  refine ⟨h.plan, h.rows, h.mark, ?_, ?_, hconcern, hrecorded, ?_, h.applied⟩
  · rw [Holds, hsnapshots]
    exact h.holds
  · rw [htaken]
    exact h.taken
  · rw [hwrote]
    exact h.wrote

/-- Only the rows of a run and its mark change. -/
theorem Steady.same (h : Steady home planned ids snapshot begun recorded earlier run applied g) {run' : Run}
    (hplan : run'.plan = run.plan) (hrows : run'.results.map Row.id = run.results.map Row.id)
    (hsnapshot : run'.snapshot = run.snapshot) :
    Steady home planned ids snapshot begun recorded earlier run' applied g :=
  ⟨hplan.trans h.plan, hrows.trans h.rows,
    by rw [hsnapshot, h.mark], h.holds, h.taken, h.concern, h.recorded, h.wrote, h.applied⟩

/-! ## The work of a unit -/

variable {u : UnitRun} {entry : Entry} {path owner : Text} {work : Work}

abbrev UnitSteady (home : Home) (planned : Plan) (ids : List Text) (snapshot : Option Text)
    (begun recorded earlier : List Entry) (u : UnitRun) (g : Guest) : Prop :=
  Steady home planned ids snapshot begun recorded earlier u.run u.applied g

theorem inspect_steady (h : Steady home planned ids snapshot begun recorded earlier run applied g)
    (entries : List Entry) :
    wpe (carefulGuest host) (fun _ _ => True) (inspectConfigFile host entries) g
      (fun _ => Steady home planned ids snapshot begun recorded earlier run applied)
      fun _ => Steady home planned ids snapshot begun recorded earlier run applied := by
  refine inspect_spec (fun _ => h) (fun _ => trivial) (fun _ _ t hn => h.next hn rfl trivial trivial) ?_
  intro entry _ found remote t _ hn
  have hnext := h.next hn rfl trivial trivial
  exact ⟨fun _ => hnext, fun _ _ => hnext⟩

theorem write_steady (h : UnitSteady home planned ids snapshot begun recorded earlier u g)
    (hentry : entry ∈ begun) (hat : entry.At path) (document : Document) :
    wpe (carefulGuest host) (fun _ _ => True) (writeDocument host u path document) g
      (UnitSteady home planned ids snapshot begun recorded earlier)
      fun failed => UnitSteady home planned ids snapshot begun recorded earlier failed.2 := by
  unfold writeDocument
  split
  · refine wpe_bind.mpr (wpe_orFail ⟨trivial, fun r t hn => ?_⟩)
    obtain ⟨hconcern, hrecorded⟩ := h.history hn ⟨entry, hentry, path, hat, rfl⟩ trivial
    obtain ⟨⟨_, hsnapshots, htaken, heffect⟩, hcareful⟩ := hn
    have hholds : Holds home snapshot t := by
      rw [Holds, hsnapshots]
      exact h.holds
    have htakenAll : ∀ h ∈ t.taken, h = home := by
      rw [htaken]
      exact h.taken
    rcases r with e | _
    · have hwrote : t.wrote = g.wrote := hcareful ⟨e, rfl⟩
      refine ⟨h.plan, h.rows, h.mark, hholds, htakenAll, hconcern, hrecorded, ?_, h.applied⟩
      rw [hwrote]
      exact h.wrote
    · rcases heffect with ⟨_, _, e, he⟩ | ⟨replaced, _, hwrote⟩
      · cases he
      refine ⟨h.plan, h.rows, h.mark, hholds, htakenAll, hconcern, hrecorded, ?_, ?_⟩
      · intro relative hrelative
        have hcases : relative = relativeOf path ∨ relative ∈ g.wrote := by
          rw [hwrote] at hrelative
          split at hrelative
          · exact List.mem_cons.mp hrelative
          · exact Or.inr hrelative
        rcases hcases with rfl | hold
        · exact Or.inr ⟨_, List.mem_append_right _ List.mem_cons_self, rfl⟩
        · refine (h.wrote relative hold).imp_right ?_
          rintro ⟨written, hwritten, heq⟩
          exact ⟨written, List.mem_append_left _ hwritten, heq⟩
      · intro written hwritten
        rcases List.mem_append.mp hwritten with hold | hnew
        · exact h.applied written hold
        · rw [List.mem_singleton.mp hnew]
          exact ⟨entry, hentry, hat⟩
  · exact h

theorem complete_steady (h : UnitSteady home planned ids snapshot begun recorded earlier u g)
    (hentry : entry ∈ begun) (hat : entry.At path) :
    wpe (carefulGuest host) (fun _ _ => True) (completeDocument host work owner u path) g
      (UnitSteady home planned ids snapshot begun recorded earlier)
      fun failed => UnitSteady home planned ids snapshot begun recorded earlier failed.2 := by
  unfold completeDocument
  split
  · exact h
  · refine wpe_bind.mpr (wpe_orFail (wpe_mono (inspect_steady h _)
    (fun document t hread => ?_) fun _ _ hread => hread))
    split
    · exact hread
    · refine wpe_bind.mpr (wpe_mono (write_steady hread hentry hat document)
      (fun u' t' hwrite => ?_) fun _ _ hwrite => hwrite)
      exact hwrite

theorem applyOne_steady (h : UnitSteady home planned ids snapshot begun recorded earlier u g)
    (hentry : entry ∈ begun) :
    wpe (carefulGuest host) (fun _ _ => True) (applyOne host work owner u entry) g
      (fun result => UnitSteady home planned ids snapshot begun recorded earlier result.1)
      fun failed => UnitSteady home planned ids snapshot begun recorded earlier failed.2 := by
  unfold applyOne
  split
  · rename_i config key value hstructured
    have hat : entry.At config.path := ⟨_, hstructured, rfl⟩
    refine wpe_bind.mpr (wpe_mono (complete_steady h hentry hat)
      (fun u' t hdone => ?_) fun _ _ hdone => hdone)
    split
    · exact hdone
    · exact hdone
  · refine wpe_bind.mpr (wpe_orFail ⟨trivial, fun r t hn => ?_⟩)
    have hnext := h.next hn rfl hentry trivial
    rcases r with e | done
    · exact hnext
    · exact hnext

theorem applyEntry_steady (h : UnitSteady home planned ids snapshot begun recorded earlier u g)
    (hentry : entry ∈ begun) :
    wpe (carefulGuest host) (fun _ _ => True) (applyEntry host work owner u entry) g
      (UnitSteady home planned ids snapshot begun recorded earlier)
      fun failed => UnitSteady home planned ids snapshot begun recorded earlier failed.2 := by
  unfold applyEntry
  have hstart : UnitSteady home planned ids snapshot begun recorded earlier
      (u.start (position entry.id u.run.results)) g := h.same rfl rfl rfl
  refine wpe_bind.mpr (wpe_lift ⟨trivial, fun cancelled t hn => ?_⟩)
  have hasked := hstart.next hn rfl trivial trivial
  cases cancelled with
  | true => exact hasked
  | false =>
    refine wpe_bind.mpr (wpe_lift ⟨trivial, fun _ t hn => ?_⟩)
    have hbegun := hasked.next hn rfl ⟨entry, hentry, rfl⟩ trivial
    refine wpe_bind.mpr (wpe_mono (applyOne_steady hbegun hentry) ?_ fun _ _ hfailed => hfailed)
    rintro ⟨u', done, detail⟩ t hdone
    exact hdone.same rfl (setAt_ids ..) rfl

theorem validate_steady (h : UnitSteady home planned ids snapshot begun recorded earlier u g)
    (entries : List Entry) :
    wpe (carefulGuest host) (fun _ _ => True) (validateUnit host work owner entries u) g
      (UnitSteady home planned ids snapshot begun recorded earlier)
      fun failed => UnitSteady home planned ids snapshot begun recorded earlier failed.2 := by
  unfold validateUnit
  split
  · exact h
  · split
    · refine wpe_bind.mpr (wpe_orFail ⟨trivial, fun r t hn => ?_⟩)
      have hnext := h.next hn rfl trivial trivial
      rcases r with e | _
      · exact hnext.same rfl rfl rfl
      · exact hnext.same rfl rfl rfl
    · exact h

theorem workUnit_steady {entries : List Entry}
    (h : Steady home planned ids snapshot begun recorded earlier run [] g)
    (hentries : ∀ e ∈ entries, e ∈ begun) :
    wpe (carefulGuest host) (fun _ _ => True) (workUnit host work owner entries run) g
      (UnitSteady home planned ids snapshot begun recorded earlier)
      fun failed => UnitSteady home planned ids snapshot begun recorded earlier failed.2 := by
  unfold workUnit
  refine wpe_bind.mpr (wpe_mono ?_ (fun u t hu => validate_steady hu entries) fun _ _ hfailed => hfailed)
  refine wpe_foldlM (J := fun _ u t => UnitSteady home planned ids snapshot begun recorded earlier u t) ?_ h
  intro done entry rest u t hsplit hu
  refine applyEntry_steady hu (hentries entry ?_)
  rw [hsplit]
  exact List.mem_append_right _ List.mem_cons_self

/-! ## A unit that fails -/

/-- No row of this ID ended well. -/
def Unwell (rows : List Row) (id : Text) : Prop := ∀ row ∈ rows, row.id = id → endedWell row = false

theorem mem_setAt {index : Nat} {status : Status} {detail : Text} {rows : List Row} {row : Row}
    (h : row ∈ setAt index status detail rows) :
    row ∈ rows ∨ row.status = status := by
  unfold setAt at h
  induction rows generalizing index with
  | nil => simp at h
  | cons r rows ih =>
    cases index with
    | zero =>
      rw [List.modify_zero_cons] at h
      rcases List.mem_cons.mp h with rfl | h
      · exact Or.inr rfl
      · exact Or.inl (List.mem_cons_of_mem _ h)
    | succ index =>
      rw [List.modify_succ_cons] at h
      rcases List.mem_cons.mp h with rfl | h
      · exact Or.inl List.mem_cons_self
      · exact (ih h).imp_left (List.mem_cons_of_mem _)

theorem Unwell.setAt {rows : List Row} {id : Text} (h : Unwell rows id) (index : Nat) {status : Status}
    (detail : Text) (hstatus : status ≠ .succeeded ∧ status ≠ .alreadyReady) :
    Unwell (setAt index status detail rows) id := by
  intro row hrow hid
  rcases mem_setAt hrow with hrow | hrow
  · exact h row hrow hid
  · simp [endedWell, hrow, hstatus.1, hstatus.2]

theorem Unwell.failRow {id : Text} (h : Unwell run.results id) (entry : Entry) :
    Unwell (failRow run entry).results id := by
  unfold Setup.failRow
  simp only
  split
  · exact h.setAt _ _ (by simp)
  · exact h

theorem position_get {id : Text} {rows : List Row} (h : id ∈ rows.map Row.id) :
    ∃ row ∈ rows, rows[position id rows]? = some row ∧ row.id = id := by
  induction rows with
  | nil => cases h
  | cons r rows ih =>
    rw [position_cons id r rows h]
    by_cases hid : r.id = id
    · rw [if_pos hid]
      exact ⟨r, List.mem_cons_self, rfl, hid⟩
    · rw [if_neg hid]
      obtain ⟨row, hrow, hget, hrowid⟩ := ih ((List.mem_cons.mp h).resolve_left fun heq => hid heq.symm)
      exact ⟨row, List.mem_cons_of_mem _ hrow, by simpa using hget, hrowid⟩

theorem unwell_failRow (hnodup : (run.results.map Row.id).Nodup) (entry : Entry) :
    Unwell (failRow run entry).results entry.id := by
  intro row hrow hid
  have hids := failRow_ids run entry
  have hmem : entry.id ∈ run.results.map Row.id := by
    rw [← hids, ← hid]
    exact List.mem_map_of_mem hrow
  obtain ⟨first, hfirst, hget, hfirstid⟩ := position_get hmem
  by_cases hwell : endedWell first = true
  · have hset : (failRow run entry).results =
        setRow entry.id .failed "Final validation or execution failed; setup state was not recorded"
          run.results := by
      unfold failRow
      simp only [hget, Option.any_some]
      rw [if_pos hwell]
      exact setAt_position _ _ hmem
    obtain ⟨changed, hchanged, hchangedid, hstatus⟩ :=
      setRow_mem .failed "Final validation or execution failed; setup state was not recorded" hmem
    rw [← hset] at hchanged
    rw [← hids] at hnodup
    rw [List.inj_on_of_nodup_map hnodup hrow hchanged (hid.trans hchangedid.symm)]
    simp [endedWell, hstatus]
  · have hsame : (failRow run entry).results = run.results := by
      unfold failRow
      simp only [hget, Option.any_some]
      rw [if_neg hwell]
    rw [hsame] at hrow
    rw [List.inj_on_of_nodup_map hnodup hrow hfirst (hid.trans hfirstid.symm)]
    simpa using hwell

theorem unwell_failRows {entries : List Entry} (hnodup : (run.results.map Row.id).Nodup) :
    ∀ entry ∈ entries, Unwell (entries.foldl failRow run).results entry.id := by
  have hkeep : ∀ (entries : List Entry) (run : Run) (id : Text), Unwell run.results id →
      Unwell (entries.foldl failRow run).results id := by
    intro entries
    induction entries with
    | nil => exact fun _ _ h => h
    | cons e entries ih => exact fun run id h => ih (failRow run e) id (h.failRow e)
  induction entries generalizing run with
  | nil => exact nofun
  | cons e entries ih =>
    intro entry hentry
    rw [List.foldl_cons]
    rcases List.mem_cons.mp hentry with rfl | hentry
    · exact hkeep entries _ _ (unwell_failRow hnodup entry)
    · exact ih (by rwa [failRow_ids]) entry hentry

theorem Unwell.stopped {stopped : Stopped} {id : Text} (h : Unwell stopped.run.results id) :
    Unwell stopped.results id := by
  unfold Stopped.results
  simp only
  split
  · refine h.setAt _ _ ?_
    split <;> simp
  · intro row hrow hid
    obtain ⟨r, _, rfl⟩ := List.mem_map.mp hrow
    rfl

/-- The documents of a failed unit are what they were. -/
structure Undone (home : Home) (planned : Plan) (ids : List Text) (snapshot : Option Text)
    (before entries : List Entry) (stopped : Stopped) (failure : UnitFailure) (g : Guest) : Prop where
  unit : failure.entries = entries
  steady : ∃ applied, Steady home planned ids snapshot
    (before ++ entries) before before stopped.run applied g ∧
    (failure.restoreErrors = [] → ∀ written ∈ applied,
      g.home (relativeOf written.1) = home (relativeOf written.1))
  unwell : ∀ entry ∈ entries, Unwell stopped.results entry.id

theorem restore_steady (h : UnitSteady home planned ids snapshot begun recorded earlier u g)
    (hknown : ∀ written ∈ u.applied, work.existed written.1 = false → home (relativeOf written.1) = .absent) :
    wp (carefulGuest host) (fun _ _ => True)
      (u.applied.reverse.foldlM (restoreOne work u.run.snapshot.id) []) g fun errors t =>
      UnitSteady home planned ids snapshot begun recorded earlier u t ∧
        (errors = [] → ∀ written ∈ u.applied,
          t.home (relativeOf written.1) = home (relativeOf written.1)) := by
  refine wp_mono (wp_foldlM (J := fun done errors t =>
    UnitSteady home planned ids snapshot begun recorded earlier u t ∧
    (errors = [] → ∀ written ∈ done, t.home (relativeOf written.1) = home (relativeOf written.1))) ?_
      ⟨h, nofun⟩) ?_
  · rintro done ⟨path, digest⟩ rest errors s hsplit ⟨hs, hdone⟩
    have hmem : (path, digest) ∈ u.applied := by
      rw [← List.mem_reverse, hsplit]
      exact List.mem_append_right _ List.mem_cons_self
    refine wp_bind.mpr (wp_call trivial fun r t hn => ?_)
    have hnext := hs.next hn rfl trivial trivial
    obtain ⟨⟨_, _, _, _, heffect⟩, _⟩ := hn
    rcases r with e | _
    · exact ⟨hnext, fun hnil => absurd hnil (by simp)⟩
    · refine ⟨hnext, fun hnil written hwritten => ?_⟩
      rcases heffect with ⟨_, e, he⟩ | heffect
      · cases he
      rw [h.mark] at heffect
      have hhome := restoreNode_eq hs.holds (hknown _ hmem) heffect
      rw [hhome]
      by_cases hsame : relativeOf written.1 = relativeOf path
      · rw [hsame, Function.update_self]
      · rw [Function.update_of_ne hsame]
        rcases List.mem_append.mp hwritten with hold | hnew
        · exact hdone hnil written hold
        · rw [List.mem_singleton.mp hnew] at hsame
          exact absurd rfl hsame
  · rintro errors t ⟨ht, hall⟩
    exact ⟨ht, fun hnil written hwritten => hall hnil written (List.mem_reverse.mpr hwritten)⟩

theorem failUnit_steady {before entries : List Entry} {error : AppError}
    (h : UnitSteady home planned ids snapshot (before ++ entries) before before u g) (hnodup : ids.Nodup)
    (hknown : ∀ written ∈ u.applied, work.existed written.1 = false → home (relativeOf written.1) = .absent) :
    wp (carefulGuest host) (fun _ _ => True) (failUnit work owner entries error u) g fun stopped t =>
      ∃ failure, stopped.unit = some failure ∧ failure.owner = owner ∧
        Undone home planned ids snapshot before entries stopped failure t := by
  unfold failUnit
  refine wp_bind.mpr (wp_mono (restore_steady h hknown) ?_)
  rintro errors t ⟨ht, hall⟩
  have hplan : ∀ (entries : List Entry) (run : Run), (entries.foldl failRow run).plan = run.plan ∧
      (entries.foldl failRow run).snapshot = run.snapshot := by
    intro entries
    induction entries with
    | nil => exact fun _ => ⟨rfl, rfl⟩
    | cons e entries ih =>
      intro run
      rw [List.foldl_cons, (ih _).1, (ih _).2]
      unfold failRow
      simp only
      split <;> exact ⟨rfl, rfl⟩
  refine ⟨_, rfl, rfl, rfl, ⟨u.applied, ?_, hall⟩, fun entry hentry => Unwell.stopped ?_⟩
  · exact ht.same (hplan entries u.run).1 (failRows_ids entries u.run) (hplan entries u.run).2
  · refine unwell_failRows ?_ entry hentry
    rw [h.rows]
    exact hnodup

theorem record_steady (h : Steady home planned ids snapshot begun begun begun run [] g)
    (hentry : entry ∈ begun) :
    wpe (carefulGuest host) (fun _ _ => True) (recordEntry work run entry) g
      (fun run t => Steady home planned ids snapshot begun begun begun run [] t) fun stopped _ =>
        stopped.unit = none := by
  unfold recordEntry
  refine wpe_bind.mpr (wpe_orStop ⟨trivial, fun r t hn => ?_⟩)
  have hrecord := h.next hn rfl trivial hentry
  rcases r with e | _
  · rfl
  · refine wpe_bind.mpr (wpe_lift ⟨trivial, fun _ t hn => ?_⟩)
    exact (hrecord.next hn rfl trivial trivial).same rfl rfl rfl

theorem Concerns.mono {entries entries' : List Entry} (hsub : entries ⊆ entries') {q : Query}
    (h : Concerns entries q) : Concerns entries' q := by
  cases q with
  | progress id status =>
    cases status with
    | running =>
      obtain ⟨e, he, hid⟩ := h
      exact ⟨e, hsub he, hid⟩
    | checking | preflightReady | blocked | recorded status => trivial
  | apply unattended entry state => exact hsub h
  | structuredWrite relative content expected =>
    obtain ⟨e, he, hat⟩ := h
    exact ⟨e, hsub he, hat⟩
  | _ => trivial

theorem Records.mono {entries entries' : List Entry} (hsub : entries ⊆ entries') {q : Query}
    (h : Records entries q) : Records entries' q := by
  cases q with
  | stateRecord target entry state snapshot => exact hsub h
  | _ => trivial

theorem Reached.mono {entries entries' : List Entry} (hsub : entries ⊆ entries') {relative : Text}
    (h : Reached entries relative) :
    Reached entries' relative := by
  obtain ⟨e, he, hat⟩ := h
  exact ⟨e, hsub he, hat⟩

theorem runUnit_steady {before : List Entry} {unit : Text × List Entry}
    (h : Steady home planned ids snapshot before before before run [] g) (hnodup : ids.Nodup)
    (hknown : ∀ e ∈ before ++ unit.2, ∀ path, e.At path → work.existed path = false →
    home (relativeOf path) = .absent) :
    wpe (carefulGuest host) (fun _ _ => True) (runUnit host work run unit) g
      (fun run t => Steady home planned ids snapshot (before ++ unit.2) (before ++ unit.2)
        (before ++ unit.2) run [] t)
      fun stopped t => ∀ failure, stopped.unit = some failure →
        failure.owner = unit.1 ∧ Undone home planned ids snapshot before unit.2 stopped failure t := by
  have hsub : before ⊆ before ++ unit.2 := List.subset_append_left _ _
  have hwork : Steady home planned ids snapshot (before ++ unit.2) before before run [] g :=
    ⟨h.plan, h.rows, h.mark, h.holds, h.taken, fun event hevent => (h.concern event hevent).mono hsub,
      h.recorded, h.wrote, nofun⟩
  unfold runUnit
  refine wpe_bind.mpr (wpe_lift (wp_mono (workUnit_steady hwork fun e he =>
    List.mem_append_right _ he) fun r t hr => ?_))
  cases r with
  | ok u =>
    have hdone : Steady home planned ids snapshot (before ++ unit.2) (before ++ unit.2)
        (before ++ unit.2) u.run [] t := by
      refine ⟨hr.plan, hr.rows, hr.mark, hr.holds, hr.taken, hr.concern,
        fun event hevent => (hr.recorded event hevent).mono hsub, ?_, nofun⟩
      intro relative hrelative
      refine Or.inl ((hr.wrote relative hrelative).elim (Reached.mono hsub) ?_)
      rintro ⟨written, hwritten, rfl⟩
      obtain ⟨e, he, hat⟩ := hr.applied written hwritten
      exact ⟨e, he, written.1, hat, rfl⟩
    refine wpe_mono (wpe_foldlM (X := fun stopped _ => stopped.unit = none)
      (J := fun _ run t => Steady home planned ids snapshot
      (before ++ unit.2) (before ++ unit.2) (before ++ unit.2) run [] t) ?_ hdone) (fun _ _ hrun => hrun) ?_
    · intro done entry rest run t hsplit hrun
      refine record_steady hrun (List.mem_append_right _ ?_)
      rw [hsplit]
      exact List.mem_append_right _ List.mem_cons_self
    · intro stopped t hnone failure hsome
      rw [hnone] at hsome
      cases hsome
  | error failed =>
    have happlied : ∀ written ∈ failed.2.applied, work.existed written.1 = false →
        home (relativeOf written.1) = .absent := by
      intro written hwritten
      obtain ⟨e, he, hat⟩ := hr.applied written hwritten
      exact hknown e he written.1 hat
    refine wpe_bind.mpr (wpe_lift (wp_mono (failUnit_steady hr hnodup happlied) ?_))
    rintro stopped t' ⟨failure, hunit, howner, hundone⟩ failure' hunit'
    rw [hunit] at hunit'
    cases hunit'
    exact ⟨howner, hundone⟩

/-! ## Runs that stop in a unit -/

variable {plan : Plan} {p : Preflights} {active : List Entry}

/-- What the work reads of the run before it. -/
abbrev Preflights.toWork (p : Preflights) (active : List Entry) : Work :=
  ⟨p.run.plan, p.states, p.documents, active⟩

theorem takeSnapshot_steady (h : Calm home g) (hrows : RowsOf ids p.run.results)
    (hidle : p.run.snapshot = ⟨false, none, none⟩) :
    wpe (carefulGuest host) (fun _ _ => True) (takeSnapshot host p active) g
      (fun run t => Steady home p.run.plan ids run.snapshot.id [] [] [] run [] t) fun stopped _ =>
        stopped.unit = none := by
  have hquiet : ∀ {event : Event Query Answer}, Passive event.q → Concerns [] event.q ∧
      Records [] event.q := by
    rintro ⟨q, r⟩ hq
    cases q with
    | progress id status =>
      cases status with
      | running => cases hq
      | _ => exact ⟨trivial, trivial⟩
    | apply unattended entry state => cases hq
    | structuredWrite relative content expected => cases hq
    | stateRecord target entry state snapshot => cases hq
    | _ => exact ⟨trivial, trivial⟩
  unfold takeSnapshot
  simp only
  split
  · refine ⟨rfl, hrows, rfl, ?_, ?_, fun event hevent => (hquiet (h.passive event hevent)).1,
      fun event hevent => (hquiet (h.passive event hevent)).2, ?_, nofun⟩
    · intro id manifest hid
      simp [hidle] at hid
    · rw [h.taken]
      exact nofun
    · rw [h.wrote]
      exact nofun
  · refine wpe_bind.mpr (wpe_orStop ⟨trivial, fun r t hn => ?_⟩)
    obtain ⟨⟨hhistory, _, hwrote, htaken, heffect⟩, _⟩ := hn
    rcases r with e | snapshot
    · rfl
    · have hevents : ∀ event ∈ t.history, Concerns [] event.q ∧ Records [] event.q := by
        intro event hevent
        rw [hhistory] at hevent
        rcases List.mem_cons.mp hevent with rfl | hevent
        · exact ⟨trivial, trivial⟩
        · exact hquiet (h.passive event hevent)
      refine ⟨rfl, hrows, rfl, ?_, ?_, fun event hevent => (hevents event hevent).1,
        fun event hevent => (hevents event hevent).2, ?_, nofun⟩
      · intro id manifest hid hmanifest relative node hnode
        rcases heffect snapshot rfl with ⟨_, hsnapshot, _⟩ | ⟨_, id', _, hid', hsnapshots⟩
        · rw [hsnapshot] at hid
          cases hid
        · have hsame : id' = id := Option.some.inj (hid'.symm.trans hid)
          subst hsame
          rw [hsnapshots, Function.update_self] at hmanifest
          cases hmanifest
          rw [← h.home]
          exact manifestOf_lookup hnode
      · rw [htaken, h.taken]
        intro x hx
        rw [List.mem_singleton.mp hx]
        exact h.home
      · rw [hwrote, h.wrote]
        exact nofun

theorem applyActive_steady (h : Calm home g) (hrows : RowsOf ids p.run.results)
    (hidle : p.run.snapshot = ⟨false, none, none⟩) (hnodup : ids.Nodup)
    (hknown : ∀ e ∈ active, ∀ path, e.At path → (p.toWork active).existed path = false →
    home (relativeOf path) = .absent) (hunits : (applicationUnits active).flatMap Prod.snd = active) :
    wpe (carefulGuest host) (fun _ _ => True) (applyActive host p active) g (fun _ _ => True)
      fun stopped t => ∀ failure, stopped.unit = some failure → ∃ done later snapshot,
        applicationUnits active = done ++ (failure.owner, failure.entries) :: later ∧
          Undone home p.run.plan ids snapshot (done.flatMap Prod.snd) failure.entries stopped failure t := by
  unfold applyActive
  refine wpe_bind.mpr (wpe_mono (takeSnapshot_steady h hrows hidle)
    (fun run t hrun => ?_) fun _ _ hnone failure hsome => ?_)
  · refine wpe_mono (wpe_foldlM (J := fun done run' t =>
      Steady home p.run.plan ids run.snapshot.id (done.flatMap Prod.snd)
      (done.flatMap Prod.snd) (done.flatMap Prod.snd) run' [] t) ?_ hrun)
        (fun _ _ _ => trivial) fun _ _ hstopped => hstopped
    intro done unit rest run' t hsplit hsteady
    have hmem : ∀ e ∈ done.flatMap Prod.snd ++ unit.2, e ∈ active := by
      intro e he
      rw [← hunits, hsplit, List.flatMap_append, List.flatMap_cons, ← List.append_assoc]
      exact List.mem_append_left _ he
    refine wpe_mono (runUnit_steady hsteady hnodup fun e he => hknown e (hmem e he))
      (fun run'' t' hrun'' => ?_) ?_
    · rw [List.flatMap_append, List.flatMap_singleton]
      exact hrun''
    · intro stopped t' hstopped failure hfailure
      obtain ⟨howner, hundone⟩ := hstopped failure hfailure
      refine ⟨done, rest, run.snapshot.id, ?_, ?_⟩
      · rw [howner, hundone.unit]
        exact hsplit
      · rw [hundone.unit]
        exact hundone
  · rw [hnone] at hsome
    cases hsome

theorem Entry.At.params {path : Text} (h : entry.At path) :
    ∃ application config key value, entry.params = .structured application config key value ∧
      config.path = path := by
  obtain ⟨found, hfound, hpath⟩ := h
  unfold Entry.structured at hfound
  split at hfound
  · rename_i application config key value hparams
    cases hfound
    exact ⟨application, config, key, value, hparams, hpath⟩
  · cases hfound

/-- Leaves of one document belong to one application. -/
theorem ownerOf_eq_of_relative {settings : Settings} {entries planned : List Entry} {e f : Entry}
    {path path' : Text} (hlinear : Linearised settings entries false planned) (he : e ∈ planned)
    (hf : f ∈ planned) (hat : e.At path) (hat' : f.At path') (hsame : relativeOf path = relativeOf path') :
    ownerOf e = ownerOf f := by
  by_cases heq : e = f
  · rw [heq]
  obtain ⟨a, c, k, v, hparams, rfl⟩ := hat.params
  obtain ⟨a', c', k', v', hparams', rfl⟩ := hat'.params
  have hwrite : relativeOf c.path ∈ writePaths settings e := by simp [writePaths, hparams, relativeOf]
  have hwrite' : relativeOf c'.path ∈ writePaths settings f := by simp [writePaths, hparams', relativeOf]
  obtain ⟨_, hshared | ⟨_, hbash⟩⟩ := hlinear.writes e he f hf heq _ hwrite _ hwrite' (Or.inl hsame)
  · simp only [SharedDocument, hparams, hparams'] at hshared
    simp only [ownerOf, hparams, hparams', hshared.1]
  · simp [BashExports, hparams] at hbash

/-- What is left when a run with these preflights stopped in a unit. -/
structure RolledBack (plan : Plan) (p : Preflights) (home : Home) (stopped : Stopped)
    (failure : UnitFailure) (g : Guest) :
    Prop where
  documents : failure.restoreErrors = [] → ∀ entry ∈ failure.entries, ∀ path, entry.At path →
    relativeOf path ∈ g.wrote →
    g.home (relativeOf path) = home (relativeOf path)
  taken : ∀ h ∈ g.taken, h = home
  recorded : ∀ entry ∈ failure.entries, ∀ event ∈ g.history, ¬ RecordsState entry event.q
  reported : ∀ entry ∈ failure.entries, ∀ row ∈ stopped.results, row.id = entry.id → endedWell row = false
  later : ∃ q done later, Spreads plan p q ∧
    applicationUnits (activeEntries { p.run with results := q.rows }) = done ++
      (failure.owner, failure.entries) :: later ∧
    ∀ unit ∈ later, ∀ entry ∈ unit.2, ∀ event ∈ g.history, ¬ Applies entry event.q

/-- The units of a run are apart. -/
theorem ownerOf_mem_units {unit : Text × List Entry} (hunit : unit ∈ applicationUnits active)
    (hentry : entry ∈ unit.2) :
    ownerOf entry = unit.1 := Grouping.key_of_mem_units ownerOf hunit hentry

theorem ownerOf_ne {done later : List (Text × List Entry)} {e f : Entry}
    (hunits : applicationUnits active = done ++ later) (he : e ∈ done.flatMap Prod.snd)
    (hf : f ∈ later.flatMap Prod.snd) : ownerOf e ≠ ownerOf f := by
  obtain ⟨unit, hunit, he⟩ := List.mem_flatMap.mp he
  obtain ⟨unit', hunit', hf⟩ := List.mem_flatMap.mp hf
  have hnodup := Grouping.units_keys_nodup ownerOf active
  have hkeys : ((done ++ later).map Prod.fst).Nodup := hunits ▸ hnodup
  rw [List.map_append, List.nodup_append] at hkeys
  have howner : ownerOf e = unit.1 := ownerOf_mem_units (hunits ▸ List.mem_append_left _ hunit) he
  have howner' : ownerOf f = unit'.1 := ownerOf_mem_units (hunits ▸ List.mem_append_right _ hunit') hf
  rw [howner, howner']
  exact hkeys.2.2 _ (List.mem_map_of_mem hunit) _ (List.mem_map_of_mem hunit')

theorem Undone.rolledBack {settings : Settings} {q : Spread} {done later : List (Text × List Entry)}
    {stopped : Stopped} {failure : UnitFailure} (hspreads : Spreads plan p q)
    (hdistinct : Distinct p.run.plan.entries)
    (hlinear : Linearised settings plan.entries false p.run.plan.entries)
    (hunits : applicationUnits (activeEntries { p.run with results := q.rows }) = done ++
    (failure.owner, failure.entries) :: later) (h :
    Undone home planned ids snapshot (done.flatMap Prod.snd) failure.entries stopped failure g) :
    RolledBack plan p home stopped failure g := by
  obtain ⟨applied, hsteady, hrestored⟩ := h.steady
  have hmem : ∀ unit ∈ done ++ (failure.owner, failure.entries) :: later, ∀ e ∈ unit.2,
      e ∈ p.run.plan.entries := by
    intro unit hunit e he
    rw [← hunits] at hunit
    exact (mem_activeEntries.mp (mem_applicationUnits hunit he)).1
  have hbefore : ∀ e ∈ done.flatMap Prod.snd, e ∈ p.run.plan.entries := by
    intro e he
    obtain ⟨unit, hunit, he⟩ := List.mem_flatMap.mp he
    exact hmem unit (List.mem_append_left _ hunit) e he
  have hthis : ∀ e ∈ failure.entries, e ∈ p.run.plan.entries :=
    hmem _ (List.mem_append_right _ List.mem_cons_self)
  have hapart : ∀ e ∈ done.flatMap Prod.snd, ∀ f ∈ failure.entries, ownerOf e ≠ ownerOf f :=
    fun e he f hf => ownerOf_ne hunits he (List.mem_flatMap.mpr ⟨_, List.mem_cons_self, hf⟩)
  have hsplit : applicationUnits (activeEntries { p.run with results := q.rows }) =
      (done ++ [(failure.owner, failure.entries)]) ++ later := by
    rw [hunits, List.append_assoc]
    rfl
  have hbegun : ∀ e, e ∈ done.flatMap Prod.snd ++ failure.entries →
      e ∈ (done ++ [(failure.owner, failure.entries)]).flatMap Prod.snd := by
    intro e he
    rw [List.flatMap_append, List.flatMap_singleton]
    exact he
  have hplanned : ∀ e ∈ done.flatMap Prod.snd ++ failure.entries, e ∈ p.run.plan.entries := by
    intro e he
    rcases List.mem_append.mp he with he | he
    · exact hbefore e he
    · exact hthis e he
  refine ⟨fun hnil entry hentry path hat hwrote => ?_, hsteady.taken,
    fun entry hentry event hevent hrecords => ?_, h.unwell, ?_⟩
  · rcases hsteady.wrote _ hwrote with ⟨e, he, path', hat', hsame⟩ | ⟨written, hwritten, hsame⟩
    · exact absurd (ownerOf_eq_of_relative hlinear (hbefore e he) (hthis entry hentry) hat' hat hsame.symm)
        (hapart e he entry hentry)
    · rw [hsame]
      exact hrestored hnil written hwritten
  · have hold := hsteady.recorded event hevent
    obtain ⟨target, state, snapshot, hq⟩ := hrecords
    rw [hq] at hold
    exact hapart entry hold entry hentry rfl
  · refine ⟨q, done, later, hspreads, hunits, fun unit hunit entry hentry event hevent happlies => ?_⟩
    have hin : entry ∈ p.run.plan.entries :=
      hmem unit (List.mem_append_right _ (List.mem_cons_of_mem _ hunit)) entry hentry
    have hne : ∀ e ∈ done.flatMap Prod.snd ++ failure.entries, ownerOf e ≠ ownerOf entry :=
      fun e he => ownerOf_ne hsplit (hbegun e he) (List.mem_flatMap.mpr ⟨unit, hunit, hentry⟩)
    have hconcern := hsteady.concern event hevent
    rcases happlies with hq | ⟨unattended, state, hq⟩ | ⟨path, content, expected, hat, hq⟩
    · rw [hq] at hconcern
      obtain ⟨e, he, hid⟩ := hconcern
      exact hne e he (by rw [hdistinct.eq (hplanned e he) hin hid])
    · rw [hq] at hconcern
      exact hne entry hconcern rfl
    · rw [hq] at hconcern
      obtain ⟨e, he, path', hat', hsame⟩ := hconcern
      exact hne e he (ownerOf_eq_of_relative hlinear (hplanned e he) hin hat' hat hsame.symm)

theorem blockDependants_calm {q : Spread} (h : Calm home g)
    (hq : spread (applicationUnits p.run.plan.entries) ⟨p.run.results, []⟩ = .ok q) :
    wpe (carefulGuest host) (fun _ _ => True) (blockDependants p) g
      (fun p' t => p' = { p with run := { p.run with results := q.rows } } ∧
        Calm home t) fun _ _ => False := by
  unfold blockDependants
  rw [hq]
  refine wpe_bind.mpr (wpe_orStop (wpe_ofExcept (fun a ha => ?_) nofun))
  cases ha
  refine wpe_bind.mpr (wpe_mono (wpe_forM (J := Calm home) (fun id _ s hs => ?_) h)
    (fun _ t ht => ⟨rfl, ht⟩) fun _ _ he => he)
  exact wpe_lift ⟨trivial, fun _ t hn => hs.next rfl hn⟩

theorem Documented.known_absent {entries : List Entry} (h : Documented home entries p)
    (hentry : entry ∈ entries) (hpassed : entry.id ∈ p.states.map Prod.fst) (hat : entry.At path)
    (hexisted : (p.toWork active).existed path = false) :
    home (relativeOf path) = .absent := by
  obtain ⟨document, hdocument⟩ := h.passed entry hentry hpassed path hat
  refine (h.presence path document hdocument).mp ?_
  have hlookup : (p.toWork active).documents.lookup path = some (.ok document) := hdocument
  unfold Work.existed at hexisted
  rw [hlookup] at hexisted
  simpa using hexisted

theorem back_steady (hplan : Planned host plan) (h : Inspected host plan home p g) :
    wpe (carefulGuest host) (fun _ _ => True) (back host p) g (fun _ _ => True)
      fun stopped t => ∀ failure, stopped.unit = some failure → RolledBack plan p home stopped failure t := by
  obtain ⟨run, hprep, hpre⟩ := h.run
  obtain ⟨q, hspreads, hrows, _, hunits⟩ := hplan.spreads_of hprep hpre
  have hsame : p.run = { run with results := p.run.results } := hpre.same
  have hdistinct : Distinct p.run.plan.entries := by
    rw [hsame]
    exact rebuilt_distinct hprep.build
  have hlinear : Linearised host.settings plan.entries false p.run.plan.entries := by
    have hplanned : p.run.plan = run.plan := by rw [hsame]
    rw [hplanned]
    exact hplan.linearised hprep
  have hidle : p.run.snapshot = ⟨false, none, none⟩ := by
    rw [hsame]
    exact hprep.idle.2.2
  unfold back
  refine wpe_bind.mpr (wpe_mono (blockDependants_calm h.calm hspreads.ends) ?_ fun _ _ he => he.elim)
  rintro p' t ⟨rfl, hcalm⟩
  split
  · trivial
  · refine wpe_mono
      (applyActive_steady hcalm hrows hidle hdistinct (fun e he path hat => ?_) hunits)
      (fun _ _ _ => trivial) ?_
    · obtain ⟨hentry, hfree⟩ := mem_activeEntries.mp he
      have hclear := hspreads.clear e ((hspreads.planned e).mp hentry) hfree
      exact h.documented.known_absent hentry hclear.passed hat
    · intro stopped t' hstopped failure hfailure
      obtain ⟨done, later, snapshot, hsplit, hundone⟩ := hstopped failure hfailure
      exact hundone.rolledBack hspreads hdistinct hlinear hsplit

end

/-- A run in a workspace where no write is answered with an error after it took effect, and whose
installers and validators leave the snapshots alone: when it stops in a unit, that unit's documents are
what they were when the snapshot was taken, its entries are neither recorded nor reported as done, and
no entry of a later unit was applied. -/
theorem failed_unit_restores {host : Host} {target : Target} {entries : List Entry} {catalogId : Option Text}
    {unattended includeConfigs : Bool} {plan : Plan} (hentries : ∀ e ∈ entries, host.setup.Has e)
    (hbuild : buildPlan host.sourceItem host.settings target entries catalogId unattended
      includeConfigs = .ok plan)
    (home : Home) (snapshots : Text → Option Manifest) :
    ∀ stopped failure g, Exec (carefulGuest host) (runPlan host plan.started).run (.start home snapshots)
      (some (.error stopped)) g →
      stopped.unit = some failure →
      ∃ p h, Exec (carefulGuest host) (front host plan).run (.start home snapshots) (some (.ok p)) h ∧
        Exec (carefulGuest host) (back host p).run h (some (.error stopped)) g ∧
          RolledBack plan p home stopped failure g := by
  intro stopped failure g hrun hfailure
  have hplan := planned_of_buildPlan hentries hbuild
  have hcalm : Calm home (.start home snapshots) := ⟨rfl, rfl, rfl, nofun⟩
  rw [runPlan_eq, ExceptT.run_bind] at hrun
  obtain ⟨r, h, hfront, hback⟩ := Exec.bind hrun
  have hinspected := wp_done (front_calm hplan.distinct hcalm) hfront
  cases r with
  | ok p => exact ⟨p, h, hfront, hback, wp_done (back_steady hplan hinspected) hback failure hfailure⟩
  | error e =>
    -- a run that stops in its preflights stops in no unit
    cases hback
    rw [show stopped.unit = none from hinspected] at hfailure
    cases hfailure

/-! ## An application with one document -/

def toolConfig : ConfigFile := ⟨"conf", "~/.config/tool.json", "json", [("theme", .str "dark")]⟩

def tool : Entry where
  id := "tool"
  group := "apps"
  handler := "application"
  label := "Tool"
  description := "Install Tool."
  params := .application
    { command := "true", interpreter := "bash", interaction := "non-interactive",
      prerequisites := [], check := [],
      prerequisiteChecks := [], nonInteractive := [], binDirs := ["~/.local/bin"], requiresAbsent := [],
      backupPaths := [], files := [], configFiles := [toolConfig],
      validation := some ⟨"tool check", "exit-code", [], []⟩ }
  dependsOn := []

def toolLeaf : Entry where
  id := "tool:conf:/theme"
  group := "apps"
  handler := "structured"
  label := "theme"
  description := "Set ~/.config/tool.json theme"
  params := .structured "tool" toolConfig ["theme"] (.str "dark")
  dependsOn := []

def toolSetup : SetupConfig where
  items := [tool]
  distinct := by
    unfold Distinct
    decide
  ids := by decide
  plain := by decide

def toolHost : Host where
  settings := sampleSettings
  setup := toolSetup
  sourceItem := fun _ => .ok ()
  mergeDocument := fun _ text leaves =>
    match text with
    | none => .ok ("\x7b\n  \"theme\": \"dark\"\n\x7d\n", leaves.map fun _ => .missing)
    | some text => .ok (text, leaves.map fun _ => .matching)
  sha256Hex := fun bytes => Sha256.hex (Sha256.digest (bytes.map UInt8.toNat))

def toolPlan : Plan := ⟨sampleTarget, [tool, toolLeaf], none, true⟩

theorem toolLeaf_mem : toolLeaf ∈ applicationChildren tool := by
  have hleaves : leafPaths [] toolConfig.values = [(["theme".toList], Json.str "dark".toList)] := by
    simp [leafPaths, toolConfig]
  refine List.mem_append_left _ ?_
  have hconfigs : configEntries tool = [toolLeaf] := by
    unfold configEntries
    simp only [tool, Entry.application, List.flatMap_cons, List.flatMap_nil, hleaves, List.map_cons,
      List.map_nil, List.append_nil]
    decide
  rw [hconfigs]
  exact List.mem_cons_self

theorem toolSetup_has : ∀ e ∈ [tool, toolLeaf], toolHost.setup.Has e := by
  intro e he
  rcases List.mem_cons.mp he with rfl | he
  · exact Or.inl List.mem_cons_self
  · rw [List.mem_singleton.mp he]
    exact Or.inr ⟨tool, List.mem_cons_self, toolLeaf_mem⟩

theorem buildPlan_tool :
    buildPlan toolHost.sourceItem toolHost.settings sampleTarget [tool, toolLeaf] none true false =
    .ok toolPlan := by
  apply Except.ok_of_toOption
  decide +kernel

def Guest.said (s : Guest) (q : Query) (r : Answer q) : Guest := { s with history := ⟨q, r⟩ :: s.history }

/-- An empty home. The validator fails, and with `lost` every write is answered with an error after it
took effect. -/
def toolGuest (lost : Bool) (s : Guest) : (q : Query) → Answer q × Guest
  | .connect => (.ok (), s.said .connect (.ok ()))
  | .requireTool tool => (.ok (), s.said (.requireTool tool) (.ok ()))
  | .identity target => (.ok (), s.said (.identity target) (.ok ()))
  | .cancelled => (false, s.said .cancelled false)
  | .progress id status => ((), s.said (.progress id status) ())
  | .preflight target entry => (.ok (.obj [("installed", .bool true)]),
      s.said (.preflight target entry) (.ok (.obj [("installed", .bool true)])))
  | .structuredRead relative =>
    match readNode toolHost.sha256Hex (s.home relative) with
    | some remote => (.ok remote, s.said (.structuredRead relative) (.ok remote))
    | none => (.error ⟨"not a regular file"⟩,
        s.said (.structuredRead relative) (.error ⟨"not a regular file"⟩))
  | .snapshot paths items target =>
    let t := { s with taken := s.home :: s.taken }
    if paths.all fun path => s.home path = .absent then
      (.ok ⟨false, none, none⟩, t.said (.snapshot paths items target) (.ok ⟨false, none, none⟩))
    else (.error ⟨"no room"⟩, t.said (.snapshot paths items target) (.error ⟨"no room"⟩))
  | .apply unattended entry state => (.ok (.succeeded, []),
      s.said (.apply unattended entry state) (.ok (.succeeded, [])))
  | .structuredWrite relative content expected =>
    match writeNode toolHost.sha256Hex s.home relative content.utf8 expected with
    | some (home, replaced) =>
      let t := { s with home, wrote := if replaced then relative :: s.wrote else s.wrote }
      let r : Except AppError Unit := if lost then .error ⟨"connection lost"⟩ else .ok ()
      (r, t.said (.structuredWrite relative content expected) r)
    | none => (.error ⟨"CAS conflict"⟩, s.said (.structuredWrite relative content expected)
        (.error ⟨"CAS conflict"⟩))
  | .validate application => (.error ⟨"status 1"⟩, s.said (.validate application) (.error ⟨"status 1"⟩))
  | .structuredRestore relative snapshot expected existed =>
    match restoreNode toolHost.sha256Hex s relative snapshot expected existed with
    | some home => (.ok (), { s with home }.said
        (.structuredRestore relative snapshot expected existed) (.ok ()))
    | none => (.error ⟨"CAS conflict"⟩, s.said (.structuredRestore relative snapshot expected existed)
        (.error ⟨"CAS conflict"⟩))
  | .stateRecord target entry state snapshot =>
    (.ok (), s.said (.stateRecord target entry state snapshot) (.ok ()))

theorem toolGuest_next (lost : Bool) (s : Guest) (q : Query) :
    (guest toolHost).next s q (toolGuest lost s q).1 (toolGuest lost s q).2 := by
  refine ⟨?_, ?_⟩
  · cases q with
    | structuredRead relative =>
      unfold toolGuest
      simp only
      split <;> rfl
    | snapshot paths items target =>
      unfold toolGuest
      simp only
      split <;> rfl
    | structuredWrite relative content expected =>
      unfold toolGuest
      simp only
      split <;> rfl
    | structuredRestore relative snapshot expected existed =>
      unfold toolGuest
      simp only
      split <;> rfl
    | _ => rfl
  · cases q with
    | structuredRead relative =>
      unfold toolGuest
      simp only
      split
      · rename_i remote hread
        exact ⟨⟨rfl, rfl, rfl, rfl⟩, fun _ hr => by cases hr; exact hread⟩
      · exact ⟨⟨rfl, rfl, rfl, rfl⟩, nofun⟩
    | snapshot paths items target =>
      unfold toolGuest
      simp only
      split
      · rename_i habsent
        refine ⟨rfl, rfl, rfl, fun snapshot hr => Or.inl ⟨?_, ?_, rfl⟩⟩
        · simpa using habsent
        · cases hr
          rfl
      · exact ⟨rfl, rfl, rfl, nofun⟩
    | structuredWrite relative content expected =>
      unfold toolGuest
      simp only
      split
      · rename_i home replaced hwrite
        exact ⟨rfl, rfl, Or.inr ⟨replaced, hwrite, rfl⟩⟩
      · exact ⟨rfl, rfl, Or.inl ⟨rfl, rfl, _, rfl⟩⟩
    | structuredRestore relative snapshot expected existed =>
      unfold toolGuest
      simp only
      split
      · rename_i home hrestore
        exact ⟨rfl, rfl, rfl, Or.inr hrestore⟩
      · exact ⟨rfl, rfl, rfl, Or.inl ⟨rfl, _, rfl⟩⟩
    | apply unattended entry state => exact ⟨rfl, rfl⟩
    | validate application => exact ⟨rfl, rfl⟩
    | _ => exact ⟨rfl, rfl, rfl, rfl⟩

/-- The run ended in a unit with nothing reported as not put back, and this is what its document is. -/
def toolDocument (result : Except Stopped Run × Guest) : Option Node :=
  match result with
  | (.error stopped, g) => stopped.unit.bind fun failure =>
    if failure.restoreErrors = [] ∧ failure.entries = [tool, toolLeaf] ∧
      relativeOf toolConfig.path ∈ g.wrote then
      some (g.home (relativeOf toolConfig.path))
    else none
  | _ => none

def emptyHome : Guest := .start (fun _ => .absent) fun _ => none

theorem toolDocument_some {r : Except Stopped Run} {g : Guest} {node : Node}
    (h : toolDocument (r, g) = some node) :
    ∃ stopped failure, r = .error stopped ∧ stopped.unit = some failure ∧ failure.restoreErrors = [] ∧
      failure.entries = [tool, toolLeaf] ∧ relativeOf toolConfig.path ∈ g.wrote ∧
        g.home (relativeOf toolConfig.path) = node := by
  cases r with
  | ok run => cases h
  | error stopped =>
    obtain ⟨failure, hfailure, h⟩ := Option.bind_eq_some_iff.mp h
    split at h
    · rename_i hfacts
      cases h
      exact ⟨stopped, failure, rfl, hfailure, hfacts.1, hfacts.2.1, hfacts.2.2, rfl⟩
    · cases h

theorem toolLeaf_at : toolLeaf.At toolConfig.path := ⟨_, rfl, rfl⟩

/-- The connection is lost after the document was written: it stays as the failed unit wrote it. -/
theorem lost_write_stays :
    ¬ ∀ stopped failure g, Exec (guest toolHost) (runPlan toolHost toolPlan.started).run emptyHome
      (some (.error stopped)) g →
      stopped.unit = some failure → ∃ p, RolledBack toolPlan p emptyHome.home stopped failure g := by
  intro hall
  have hnode : toolDocument (play (toolGuest true) (runPlan toolHost toolPlan.started).run emptyHome) =
      some (.file (Text.utf8 "\x7b\n  \"theme\": \"dark\"\n\x7d\n") 0o600) := by decide +kernel
  have hexec := exec_play (toolGuest_next true) (runPlan toolHost toolPlan.started).run emptyHome
  generalize play (toolGuest true) (runPlan toolHost toolPlan.started).run emptyHome = result at hnode hexec
  obtain ⟨r, g⟩ := result
  obtain ⟨stopped, failure, rfl, hfailure, hnil, hentries, hwrote, hhome⟩ := toolDocument_some hnode
  obtain ⟨_, hrolled⟩ := hall stopped failure g hexec hfailure
  have hsame := hrolled.documents hnil toolLeaf (by simp [hentries]) toolConfig.path toolLeaf_at hwrote
  rw [hhome] at hsame
  cases hsame

theorem toolGuest_careful (s : Guest) (q : Query) :
    (carefulGuest toolHost).next s q (toolGuest false s q).1 (toolGuest false s q).2 := by
  refine ⟨toolGuest_next false s q, ?_⟩
  cases q with
  | structuredWrite relative content expected =>
    unfold toolGuest
    simp only
    split
    · rintro ⟨e, he⟩
      cases he
    · exact fun _ => rfl
  | apply unattended entry state => rfl
  | validate application => rfl
  | _ => trivial

/-- The validator fails after the document was written, and the document is removed again. -/
theorem failed_unit_restores_tool :
    ∃ stopped failure g, Exec (carefulGuest toolHost) (runPlan toolHost toolPlan.started).run emptyHome
      (some (.error stopped)) g ∧
      stopped.unit = some failure ∧ failure.restoreErrors = [] ∧ relativeOf toolConfig.path ∈ g.wrote ∧
      ∃ p h, Exec (carefulGuest toolHost) (front toolHost toolPlan).run emptyHome (some (.ok p)) h ∧
        Exec (carefulGuest toolHost) (back toolHost p).run h (some (.error stopped)) g ∧
        RolledBack toolPlan p emptyHome.home stopped failure g := by
  have hnode : toolDocument (play (toolGuest false) (runPlan toolHost toolPlan.started).run emptyHome) =
      some .absent := by decide +kernel
  have hexec := exec_play toolGuest_careful (runPlan toolHost toolPlan.started).run emptyHome
  generalize play (toolGuest false) (runPlan toolHost toolPlan.started).run emptyHome = result at hnode hexec
  obtain ⟨r, g⟩ := result
  obtain ⟨stopped, failure, rfl, hfailure, hnil, _, hwrote, _⟩ := toolDocument_some hnode
  refine ⟨stopped, failure, g, hexec, hfailure, hnil, hwrote, ?_⟩
  exact failed_unit_restores toolSetup_has buildPlan_tool _ _ stopped failure g hexec hfailure

end HomeStack.Setup

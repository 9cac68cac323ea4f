import HomeStack.SetupRun

/-! What every run of a setup plan keeps to: which entries are left blocked, that only the
others are snapshotted, applied and recorded, in the order of the plan, and what the report
says. -/

open scoped List

namespace HomeStack.Setup

open Prog

/-! ## Rows -/

theorem setAt_ids (index : Nat) (status : Status) (detail : Text) (rows : List Row) :
    (setAt index status detail rows).map Row.id = rows.map Row.id := by
  unfold setAt
  induction rows generalizing index with
  | nil => simp
  | cons row rows ih =>
    cases index with
    | zero => simp
    | succ index => simp [ih]

theorem position_cons (id : Text) (row : Row) (rows : List Row) (h : id ∈ (row :: rows).map Row.id) :
    position id (row :: rows) = if row.id = id then 0 else position id rows + 1 := by
  unfold position
  rw [List.findIdx?_cons]
  by_cases hid : row.id = id
  · simp [hid]
  · have hrest : id ∈ rows.map Row.id := (List.mem_cons.mp h).resolve_left fun heq => hid heq.symm
    have hsome : (rows.findIdx? fun row => row.id = id).isSome := by
      rw [List.findIdx?_isSome, List.any_eq_true]
      obtain ⟨r, hr, hrid⟩ := List.mem_map.mp hrest
      exact ⟨r, hr, by simp [hrid]⟩
    obtain ⟨i, hi⟩ := Option.isSome_iff_exists.mp hsome
    simp [hid, hi]

/-- The row at the position of an ID is the first row of that ID. -/
theorem setAt_position {id : Text} {rows : List Row} (status : Status) (detail : Text)
    (h : id ∈ rows.map Row.id) :
    setAt (position id rows) status detail rows = setRow id status detail rows := by
  induction rows with
  | nil => cases h
  | cons row rows ih =>
    rw [position_cons id row rows h]
    unfold setRow
    by_cases hid : row.id = id
    · simp [hid, setAt]
    · have hrest : id ∈ rows.map Row.id := (List.mem_cons.mp h).resolve_left fun heq => hid heq.symm
      rw [if_neg hid, if_neg hid, ← ih hrest]
      rfl

theorem position_eq {id : Text} {rows : List Row} (hnodup : (rows.map Row.id).Nodup) {index : Nat}
    (h : (rows.map Row.id)[index]? = some id) : position id rows = index := by
  induction rows generalizing index with
  | nil => simp at h
  | cons row rows ih =>
    rw [position_cons id row rows (List.mem_of_getElem? h)]
    rw [List.map_cons, List.nodup_cons] at hnodup
    cases index with
    | zero =>
      have hid : row.id = id := by simpa using h
      rw [if_pos hid]
    | succ index =>
      have hrest : (rows.map Row.id)[index]? = some id := by simpa using h
      have hid : row.id ≠ id := fun heq => hnodup.1 (heq ▸ List.mem_of_getElem? hrest)
      rw [if_neg hid, ih hnodup.2 hrest]

/-! ## Before anything changes -/

section

variable {σ : Type} {E : Env Query Answer σ} {I : σ → Query → Prop} {host : Host} {plan : Plan} {s : σ}

/-- A run that has its plan and has reached the workspace. -/
structure Prepared (host : Host) (plan : Plan) (run : Run) : Prop where
  build : buildPlan host.sourceItem host.settings plan.target plan.entries plan.catalogId
    plan.unattended false = .ok run.plan
  rows : RowsOf (run.plan.entries.map Entry.id) run.results
  fresh : ∀ row ∈ run.results, row.status = .notRun
  idle : run.current = none ∧ run.preflightComplete = false ∧ run.snapshot = ⟨false, none, none⟩

/-- The rows of the planned entries, before their preflight. -/
theorem started_rows (plan : Plan) (entry : Entry) :
    let row := (plan.started.results.find? fun row => row.id = entry.id).getD (resultRow entry)
    row.id = entry.id ∧ row.status = .notRun := by
  cases hfind : plan.started.results.find? fun row => row.id = entry.id with
  | none => exact ⟨rfl, rfl⟩
  | some row =>
    obtain ⟨e, _, he⟩ := List.mem_map.mp (List.mem_of_find?_eq_some hfind)
    refine ⟨by simpa using List.find?_some hfind, ?_⟩
    rw [Option.getD_some, ← he]
    rfl

/-- A question whose failure ends the run. -/
theorem wpe_orStop {α : Type} {run : Run} {p : Workspace (Except AppError α)} {K : α → σ → Prop}
    {X : Stopped → σ → Prop} (h : wpe E I (ExceptT.mk p) s K fun e => X ⟨e, run, none⟩) :
    wpe E I (orStop run (ExceptT.mk p)) s K X :=
  wpe_mapError h

/-- A row for each planned entry. -/
def RowFor (plan : Plan) (rows : List Row) : Prop := (rows.map Row.id).Perm (plan.entries.map Entry.id)

theorem started_rowFor (plan : Plan) : RowFor plan plan.started.results := by
  have hids : plan.started.results.map Row.id = plan.entries.map Entry.id := by
    unfold Plan.started
    rw [List.map_map]
    rfl
  rw [RowFor, hids]

/-- The plan made again of a plan's entries has the same entries. -/
theorem mem_rebuilt {planned : Plan} (hplan : Distinct plan.entries)
    (h : buildPlan host.sourceItem host.settings plan.target plan.entries plan.catalogId
      plan.unattended false = .ok planned)
    (e : Entry) : e ∈ planned.entries ↔ e ∈ plan.entries := by
  obtain ⟨l, hl, hplanned, _⟩ := buildPlan_ok h
  have hmem : e ∈ planned.entries ↔ e ∈ selectedOf plan.entries := by
    rw [hplanned, Grouping.mem_regroup]
    exact ⟨hl.ordered.subset e, hl.all e⟩
  rw [hmem]
  refine ⟨mem_selectedOf, fun he => ?_⟩
  have hid := (ids_selectedOf plan.entries e.id).mpr (List.mem_map_of_mem he)
  obtain ⟨x, hx, hxid⟩ := List.mem_map.mp hid
  rwa [← hplan.eq (mem_selectedOf hx) he hxid]

theorem rebuilt_distinct {planned : Plan}
    (h : buildPlan host.sourceItem host.settings plan.target plan.entries plan.catalogId
      plan.unattended false = .ok planned) :
    Distinct planned.entries := by
  obtain ⟨l, hl, hplanned, _⟩ := buildPlan_ok h
  rw [hplanned]
  exact ((Grouping.regroup_perm ownerOf l).map Entry.id).nodup_iff.mpr hl.ordered.distinct

theorem rebuilt_perm {planned : Plan} (hplan : Distinct plan.entries)
    (h : buildPlan host.sourceItem host.settings plan.target plan.entries plan.catalogId
      plan.unattended false = .ok planned) :
    (planned.entries.map Entry.id).Perm (plan.entries.map Entry.id) := by
  rw [List.perm_ext_iff_of_nodup (rebuilt_distinct h) hplan]
  intro id
  simp only [List.mem_map, mem_rebuilt hplan h]

theorem prepare_spec (hplan : Distinct plan.entries) :
    wpe E (fun _ _ => True) (prepare host plan.started) s (fun run _ => Prepared host plan run)
      fun stopped _ => RowFor plan stopped.run.results := by
  unfold prepare
  rw [wpe_bind]
  refine wpe_orStop ?_
  cases hbuild : buildPlan host.sourceItem host.settings plan.target plan.entries plan.catalogId
    plan.unattended false with
  | error e =>
    have hbuild' : buildPlan host.sourceItem host.settings plan.started.plan.target plan.started.plan.entries
      plan.started.plan.catalogId plan.started.plan.unattended false = .error e := hbuild
    rw [hbuild']
    exact started_rowFor plan
  | ok planned =>
    have hbuild' : buildPlan host.sourceItem host.settings plan.started.plan.target plan.started.plan.entries
      plan.started.plan.catalogId plan.started.plan.unattended false = .ok planned := hbuild
    rw [hbuild']
    have hrows : RowsOf (planned.entries.map Entry.id) (planned.entries.map fun entry =>
        (plan.started.results.find? fun row => row.id = entry.id).getD (resultRow entry)) := by
      unfold RowsOf
      rw [List.map_map]
      exact List.map_congr_left fun entry _ => (started_rows plan entry).1
    have hfresh : ∀ row ∈ planned.entries.map (fun entry =>
        (plan.started.results.find? fun row => row.id = entry.id).getD (resultRow entry)),
          row.status = .notRun := by
      intro row hrow
      obtain ⟨entry, _, rfl⟩ := List.mem_map.mp hrow
      exact (started_rows plan entry).2
    have hfor : RowFor plan (planned.entries.map fun entry =>
        (plan.started.results.find? fun row => row.id = entry.id).getD (resultRow entry)) := by
      rw [RowFor, hrows]
      exact rebuilt_perm hplan hbuild
    refine wpe_bind.mpr (wpe_orStop ⟨trivial, fun r t _ => ?_⟩)
    rcases r with e | _
    · exact hfor
    refine wpe_bind.mpr (wpe_orStop ⟨trivial, fun r t _ => ?_⟩)
    rcases r with e | _
    · exact hfor
    refine wpe_bind.mpr (wpe_orStop ⟨trivial, fun r t _ => ?_⟩)
    rcases r with e | _
    · exact hfor
    exact ⟨hbuild, hrows, hfresh, rfl, rfl, rfl⟩

/-- The preflights of these entries are done: the entries that did not pass are blocked. -/
structure Preflighted (run : Run) (done : List Text) (p : Preflights) : Prop where
  same : p.run = { run with results := p.run.results }
  rows : RowsOf (run.plan.entries.map Entry.id) p.run.results
  passed : ∀ id ∈ p.states.map Prod.fst, id ∈ done
  blocked : ∀ id, Blocks p.run.results id ↔ id ∈ done ∧ id ∉ p.states.map Prod.fst

theorem zipIdx_split {l : List Entry} {done rest : List (Entry × Nat)} {entry : Entry} {index : Nat}
    (h : l.zipIdx = done ++ (entry, index) :: rest) :
    index = done.length ∧ l = done.map Prod.fst ++ entry :: rest.map Prod.fst := by
  have hat : l.zipIdx[done.length]? = some (entry, index) := by simp [h]
  rw [List.getElem?_zipIdx] at hat
  obtain ⟨e, _, he⟩ := Option.map_eq_some_iff.mp hat
  refine ⟨by simpa using (congrArg Prod.snd he).symm, ?_⟩
  have hfst := congrArg (List.map Prod.fst) h
  rw [List.map_append, List.map_cons] at hfst
  simpa using hfst

theorem blocks_setAt {run : Run} {rows : List Row} (hrows : RowsOf (run.plan.entries.map Entry.id) rows)
    (hdistinct : Distinct run.plan.entries) {done rest : List (Entry × Nat)} {entry : Entry} {index : Nat}
    (hsplit : run.plan.entries.zipIdx = done ++ (entry, index) :: rest) (detail id : Text) :
    Blocks (setAt index .blocked detail rows) id ↔ Blocks rows id ∨ id = entry.id := by
  obtain ⟨hindex, hentries⟩ := zipIdx_split hsplit
  have hat : (rows.map Row.id)[index]? = some entry.id := by
    rw [hrows, hentries, hindex]
    simp
  have hnodup : (rows.map Row.id).Nodup := by
    rw [hrows]
    exact hdistinct
  have hset := setAt_position .blocked detail (List.mem_of_getElem? hat)
  rw [position_eq hnodup hat] at hset
  rw [hset]
  exact blocks_setRow detail (List.mem_of_getElem? hat) id

theorem preflightOne_spec {run : Run} (hdistinct : Distinct run.plan.entries) {done rest : List (Entry × Nat)}
    {entry : Entry} {index : Nat} (hsplit : run.plan.entries.zipIdx = done ++ (entry, index) :: rest)
    {p : Preflights} (h : Preflighted run (done.map fun item => item.1.id) p) :
    wpe E (fun _ _ => True) (preflightOne host run.plan p (entry, index)) s
      (fun q _ => Preflighted run ((done ++ [(entry, index)]).map fun item => item.1.id) q)
      fun stopped _ => RowsOf (run.plan.entries.map Entry.id) stopped.run.results := by
  have hnew : entry.id ∉ done.map fun item => item.1.id := by
    have hnodup := hdistinct
    rw [Distinct, (zipIdx_split hsplit).2, List.map_append, List.map_cons, List.nodup_append] at hnodup
    intro hmem
    exact hnodup.2.2 entry.id (by simpa using hmem) entry.id List.mem_cons_self rfl
  have hstates : entry.id ∉ p.states.map Prod.fst := fun hmem => hnew (h.passed _ hmem)
  unfold preflightOne
  refine wpe_bind.mpr (wpe_lift ⟨trivial, fun cancelled t _ => ?_⟩)
  cases cancelled with
  | true => exact h.rows
  | false =>
    refine wpe_bind.mpr (wpe_lift ⟨trivial, fun _ t _ => ?_⟩)
    refine wpe_bind.mpr (wpe_lift (wp_inv (asks_true _) trivial (fun _ _ _ _ _ _ _ => trivial)
      (fun _ _ _ _ => trivial) ?_))
    rintro ⟨state, documents⟩ t -
    cases state with
    | ok state =>
      refine wpe_bind.mpr (wpe_lift ⟨trivial, fun _ t _ => ?_⟩)
      refine ⟨h.same, h.rows, ?_, fun id => ?_⟩
      · intro id hid
        simp only [List.map_append, List.map_cons, List.map_nil, List.mem_append, List.mem_singleton] at hid ⊢
        exact hid.imp (h.passed id) fun heq => heq
      · rw [h.blocked id]
        simp only [List.map_append, List.map_cons, List.map_nil, List.mem_append, List.mem_singleton, not_or]
        constructor
        · rintro ⟨hdone, hpassed⟩
          exact ⟨Or.inl hdone, hpassed, fun heq => hnew (heq ▸ hdone)⟩
        · rintro ⟨hdone, hpassed, hne⟩
          exact ⟨hdone.resolve_right hne, hpassed⟩
    | error error =>
      refine wpe_bind.mpr (wpe_lift ⟨trivial, fun _ t _ => ?_⟩)
      refine ⟨?_, ?_, ?_, fun id => ?_⟩
      · rw [h.same]
        rfl
      · exact (setAt_ids ..).trans h.rows
      · intro id hid
        rw [List.map_append]
        exact List.mem_append_left _ (h.passed id hid)
      · refine (blocks_setAt h.rows hdistinct hsplit error.message id).trans ?_
        rw [h.blocked id]
        simp only [List.map_append, List.map_cons, List.map_nil, List.mem_append, List.mem_singleton]
        constructor
        · rintro (⟨hdone, hpassed⟩ | rfl)
          · exact ⟨Or.inl hdone, hpassed⟩
          · exact ⟨Or.inr rfl, hstates⟩
        · rintro ⟨hdone | heq, hpassed⟩
          · exact Or.inl ⟨hdone, hpassed⟩
          · exact Or.inr heq

theorem preflights_spec {run : Run} (h : Prepared host plan run) :
    wpe E (fun _ _ => True) (preflights host run) s (fun p _ =>
      Preflighted run (run.plan.entries.map Entry.id) p)
      fun stopped _ => RowsOf (run.plan.entries.map Entry.id) stopped.run.results := by
  have hdistinct := rebuilt_distinct h.build
  have hall : run.plan.entries.zipIdx.map (fun item => item.1.id) = run.plan.entries.map Entry.id := by
    have hfst : run.plan.entries.zipIdx.map Prod.fst = run.plan.entries := by simp
    conv_rhs => rw [← hfst]
    rw [List.map_map]
    rfl
  rw [← hall]
  refine wpe_foldlM (J := fun (done : List (Entry × Nat)) p _ =>
    Preflighted run (done.map fun item => item.1.id) p) ?_ ?_
  · rintro done ⟨entry, index⟩ rest p t hsplit hp
    rw [hall]
    exact preflightOne_spec hdistinct hsplit hp
  · refine ⟨rfl, h.rows, nofun, fun id => ⟨?_, fun hid => nomatch hid.1⟩⟩
    rintro ⟨row, hrow, _, hblocked⟩
    have hstatus := h.fresh row hrow
    simp [isBlocked, hstatus] at hblocked

theorem mergedDocument_sha256 {config : ConfigFile} {entries : List Entry} {remote : Remote}
    {document : Document} (h : mergedDocument host config entries remote = .ok document) :
    document.sha256 = remote.sha256 := by
  obtain ⟨original, _, h⟩ := Except.bind_ok h
  obtain ⟨merged, _, h⟩ := Except.bind_ok h
  cases h
  rfl

/-- A document is read once, and what follows from it has its digest. -/
theorem inspect_spec {entries : List Entry} {K : Document → σ → Prop} {X : AppError → σ → Prop}
    (hstop : ∀ e, X e s) (hI : ∀ relative, I s (.structuredRead relative))
    (hfail : ∀ relative e t, E.next s (.structuredRead relative) (.error e) t → X e t)
    (hread : ∀ entry ∈ entries, ∀ found remote t, entry.structured = some found →
      E.next s (.structuredRead (relativeOf found.1.path)) (.ok remote) t →
        (∀ e, X e t) ∧ ∀ document : Document, document.sha256 = remote.sha256 → K document t) :
    wpe E I (inspectConfigFile host entries) s K X := by
  unfold inspectConfigFile
  split
  · exact hstop _
  · rename_i config key value hfound
    obtain ⟨entry, hentry, hstructured⟩ := Option.bind_eq_some_iff.mp hfound
    refine wpe_bind.mpr ⟨hI _, fun r t hn => ?_⟩
    rcases r with e | remote
    · exact hfail _ e t hn
    · obtain ⟨hX, hK⟩ := hread entry (List.mem_of_head? hentry) _ remote t hstructured hn
      have hmerged : wpe E I (ExceptT.mk (Pure.pure (mergedDocument host config entries remote))) t K X :=
        wpe_ofExcept (fun document hdocument => hK document (mergedDocument_sha256 hdocument)) fun e _ => hX e
      exact hmerged

/-- A run up to the end of its preflights. -/
def front (host : Host) (plan : Plan) : ExceptT Stopped Workspace Preflights := do
  let run ← prepare host plan.started
  preflights host run

theorem front_spec (hplan : Distinct plan.entries) :
    wpe E (fun _ _ => True) (front host plan) s
      (fun p _ => ∃ run, Prepared host plan run ∧ Preflighted run (run.plan.entries.map Entry.id) p)
      fun stopped _ => RowFor plan stopped.run.results := by
  unfold front
  refine wpe_bind.mpr (wpe_mono (prepare_spec hplan) (fun run t hrun => ?_) fun _ _ he => he)
  refine wpe_mono (preflights_spec hrun) (fun p _ hp => ⟨run, hrun, hp⟩) fun stopped _ hrows => ?_
  rw [RowFor, hrows]
  exact rebuilt_perm hplan hrun.build

end

/-! ## What is left blocked -/

/-- A planned entry of this ID did not pass its preflight. -/
def Failed (p : Preflights) (id : Text) : Prop :=
  id ∈ p.run.plan.entries.map Entry.id ∧ id ∉ p.states.map Prod.fst

theorem mem_applicationUnits {entries : List Entry} {unit : Text × List Entry}
    (hunit : unit ∈ applicationUnits entries) {entry : Entry} (hentry : entry ∈ unit.2) :
    entry ∈ entries := by
  rw [← Grouping.mem_regroup ownerOf]
  exact List.mem_flatMap.mpr ⟨unit, hunit, hentry⟩

theorem exists_unit {entries : List Entry} {entry : Entry} (h : entry ∈ entries) :
    ∃ unit ∈ applicationUnits entries, entry ∈ unit.2 := by
  rw [← Grouping.mem_regroup ownerOf] at h
  exact List.mem_flatMap.mp h

section

variable {host : Host} {plan : Plan} {run : Run} {p : Preflights}

theorem Preflighted.spread (h : Preflighted run (run.plan.entries.map Entry.id) p) :
    ∃ q, Setup.spread (applicationUnits p.run.plan.entries) ⟨p.run.results, []⟩ = .ok q ∧
      RowsOf (p.run.plan.entries.map Entry.id) q.rows ∧
      ∀ id, Blocks q.rows id ↔ Closure (applicationUnits p.run.plan.entries) (Failed p) id := by
  have hsame : p.run.plan = run.plan := by rw [h.same]
  have hblocked : ∀ id, Blocks p.run.results id ↔ Failed p id := by
    intro id
    rw [h.blocked id, Failed, hsame]
  refine spread_spec ⟨?_, fun id => (hblocked id).mpr, fun id hid => .failed ((hblocked id).mp hid)⟩ ?_
  · rw [hsame]
    exact h.rows
  · exact fun unit hunit entry hentry => List.mem_map_of_mem (mem_applicationUnits hunit hentry)

theorem mem_activeEntries {entry : Entry} :
    entry ∈ activeEntries run ↔ entry ∈ run.plan.entries ∧ ¬ Blocks run.results entry.id := by
  unfold activeEntries Blocks
  simp only [List.mem_filter, Bool.not_eq_true', List.any_eq_false, decide_eq_true_eq]
  constructor
  · rintro ⟨hentry, hnone⟩
    exact ⟨hentry, fun ⟨row, hrow, hblocked⟩ => hnone row hrow hblocked⟩
  · rintro ⟨hentry, hnone⟩
    exact ⟨hentry, fun row hrow hblocked => hnone ⟨row, hrow, hblocked⟩⟩

/-- What stands in an order stands so among the entries that are kept. -/
theorem before_filter {a b : Entry} {l : List Entry} {keep : Entry → Bool} (h : [a, b] <+ l)
    (ha : a ∈ l.filter keep) (hb : b ∈ l.filter keep) : [a, b] <+ l.filter keep := by
  have hsub := h.filter keep
  rwa [List.filter_cons_of_pos (List.mem_filter.mp ha).2,
    List.filter_cons_of_pos (List.mem_filter.mp hb).2] at hsub

/-- An entry that is not blocked passed its preflight, and what it depends on is not blocked and stands
before it. -/
structure Clear (p : Preflights) (active : List Entry) (entry : Entry) : Prop where
  passed : entry.id ∈ p.states.map Prod.fst
  dependencies : ∀ id ∈ entry.dependsOn, ∃ d ∈ active, d.id = id ∧ [d, entry] <+ active

theorem active_clear (hpre : Preflighted run (run.plan.entries.map Entry.id) p)
    (hlinear : Linearised host.settings plan.entries false run.plan.entries) {q : Spread}
    (hq : ∀ id, Blocks q.rows id ↔ Closure (applicationUnits p.run.plan.entries) (Failed p) id)
    {entry : Entry}
    (hentry : entry ∈ activeEntries { p.run with results := q.rows }) :
    Clear p (activeEntries { p.run with results := q.rows }) entry := by
  have hsame : p.run.plan = run.plan := by rw [hpre.same]
  obtain ⟨hplanned, hfree⟩ := mem_activeEntries.1 hentry
  rw [hq] at hfree
  obtain ⟨unit, hunit, hmem⟩ := exists_unit hplanned
  constructor
  case passed =>
    by_contra hfailed
    exact hfree (.failed ⟨List.mem_map_of_mem hplanned, hfailed⟩)
  case dependencies =>
    intro id hid
    have hplanned' : entry ∈ run.plan.entries := hsame ▸ hplanned
    obtain ⟨d, hd, hdid, hbefore⟩ := hlinear.dependencies entry hplanned' id hid
    have hdfree : ¬ Blocks q.rows d.id := by
      rw [hq]
      exact fun hblocked => hfree (.unit hunit hmem (Or.inr (hdid ▸ hid)) hblocked hmem)
    have hdactive : d ∈ activeEntries { p.run with results := q.rows } :=
      mem_activeEntries.2 ⟨hsame ▸ hd, hdfree⟩
    refine ⟨d, hdactive, hdid, before_filter ?_ hdactive hentry⟩
    rw [← hsame] at hbefore
    exact hbefore

theorem active_units (hlinear : Linearised host.settings plan.entries false run.plan.entries)
    (results : List Row) :
    (applicationUnits (activeEntries { run with results })).flatMap Prod.snd =
      activeEntries { run with results } := by
  refine Grouping.regroup_of_contiguous ownerOf fun a b c habc hkey => ?_
  exact hlinear.contiguous a b c (habc.trans List.filter_sublist) hkey

end

end HomeStack.Setup

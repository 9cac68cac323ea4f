import HomeStack.SetupGuest

/-! The preflights of a setup run on a guest: they leave the home as it is, and know of every document
whether it was there. -/

namespace HomeStack.Setup

open Prog

section

variable {host : Host} {plan : Plan} {home : Home}

/-! ## Before anything changes -/

/-- Nothing has happened to the home. -/
structure Calm (home : Home) (g : Guest) : Prop where
  home : g.home = home
  taken : g.taken = []
  wrote : g.wrote = []
  passive : ∀ event ∈ g.history, Passive event.q

theorem Calm.next {s t : Guest} (h : Calm home s) {q : Query} {r : Answer q} (hq : Passive q)
    (hn : (carefulGuest host).next s q r t) :
    Calm home t := by
  obtain ⟨⟨hhistory, heffect⟩, _⟩ := hn
  have hsame : Unchanged s t := by
    cases q with
    | structuredRead relative => exact heffect.1
    | snapshot paths items target => cases hq
    | structuredWrite relative content expected => cases hq
    | structuredRestore relative snapshot expected existed => cases hq
    | apply unattended entry state => cases hq
    | validate application => cases hq
    | stateRecord target entry state snapshot => cases hq
    | connect | requireTool tool | identity target | cancelled | progress id status
    | preflight target entry => exact heffect
  obtain ⟨hhome, _, htaken, hwrote⟩ := hsame
  refine ⟨hhome.trans h.home, htaken.trans h.taken, hwrote.trans h.wrote, ?_⟩
  intro event hevent
  rw [hhistory] at hevent
  rcases List.mem_cons.mp hevent with rfl | hevent
  · exact hq
  · exact h.passive event hevent

/-- The documents read so far say whether a file was there. -/
def Presence (home : Home) (documents : List (Text × Except AppError Document)) : Prop :=
  ∀ path document, documents.lookup path = some (.ok document) →
    (document.sha256 = none ↔ home (relativeOf path) = .absent)

/-- What the preflights of these entries know of the documents: an entry that passed has its document. -/
structure Documented (home : Home) (done : List Entry) (p : Preflights) : Prop where
  presence : Presence home p.documents
  known : ∀ id ∈ p.states.map Prod.fst, id ∈ done.map Entry.id
  passed : ∀ entry ∈ done, entry.id ∈ p.states.map Prod.fst → ∀ path, entry.At path →
    ∃ document, p.documents.lookup path = some (.ok document)

theorem inspect_calm {s : Guest} (h : Calm home s) {entries : List Entry} {path : Text}
    (hpath : ∀ e ∈ entries, e.At path) :
    wpe (carefulGuest host) (fun _ _ => True) (inspectConfigFile host entries) s
      (fun document t => Calm home t ∧ (document.sha256 = none ↔ home (relativeOf path) = .absent)) fun _ t =>
        Calm home t := by
  refine inspect_spec (fun _ => h) (fun _ => trivial) (fun relative e t hn => h.next rfl hn) ?_
  intro entry hentry found remote t hfound hn
  have hcalm := h.next rfl hn
  refine ⟨fun _ => hcalm, fun document hsha => ⟨hcalm, ?_⟩⟩
  have hread := hn.1.2.2 remote rfl
  have hconfig : found.1.path = path := by
    obtain ⟨found', hat, hfoundPath⟩ := hpath entry hentry
    rw [hfound] at hat
    cases hat
    exact hfoundPath
  rw [hconfig, h.home] at hread
  rw [hsha]
  cases hnode : home (relativeOf path) with
  | absent =>
    rw [hnode] at hread
    cases hread
    simp
  | file content mode =>
    rw [hnode] at hread
    cases hread
    simp
  | other =>
    rw [hnode] at hread
    cases hread

theorem configGroups_at {path : Text} : ∀ e ∈ configGroups plan path, e.At path := by
  intro e he
  have hany := (List.mem_filter.mp he).2
  cases hfound : e.structured with
  | none =>
    rw [hfound] at hany
    cases hany
  | some found =>
    rw [hfound] at hany
    exact ⟨found, hfound, by simpa using hany⟩

theorem Entry.At.unique {entry : Entry} {path path' : Text} (h : entry.At path) (h' : entry.At path') :
    path = path' := by
  obtain ⟨found, hfound, rfl⟩ := h
  obtain ⟨found', hfound', rfl⟩ := h'
  rw [hfound] at hfound'
  cases hfound'
  rfl

/-- A state comes with the document it is of. -/
structure Stated (home : Home) (entry : Entry) (documents : List (Text × Except AppError Document))
    (result : Except AppError Json × List (Text × Except AppError Document)) : Prop where
  presence : Presence home result.2
  kept : ∀ path document, documents.lookup path = some document → result.2.lookup path = some document
  passed : ∀ state, result.1 = .ok state → ∀ path, entry.At path →
    ∃ document, result.2.lookup path = some (.ok document)

theorem preflightState_calm {s : Guest} (h : Calm home s) {documents : List (Text × Except AppError Document)}
    (hpresence : Presence home documents) (entry : Entry) :
    wp (carefulGuest host) (fun _ _ => True) (preflightState host plan documents entry) s
      fun result t => Calm home t ∧ Stated home entry documents result := by
  unfold preflightState
  split
  · rename_i config key value hstructured
    have hat : entry.At config.path := ⟨_, hstructured, rfl⟩
    split
    · rename_i document hlookup
      refine ⟨h, hpresence, fun _ _ hfound => hfound, fun state hstate path hpath => ?_⟩
      rw [hat.unique hpath] at hlookup
      cases document with
      | error e => cases hstate
      | ok document => exact ⟨document, hlookup⟩
    · rename_i hlookup
      refine wp_bind.mpr (wp_mono (inspect_calm h configGroups_at) fun document t ht => ?_)
      have hself : (documents ++ [(config.path, document)]).lookup config.path = some document := by
        simp [List.lookup_append, hlookup]
      have hkept : ∀ path found, documents.lookup path = some found →
          (documents ++ [(config.path, document)]).lookup path = some found := by
        intro path found hfound
        simp [List.lookup_append, hfound]
      have hcalm : Calm home t := by
        cases document with
        | ok document => exact ht.1
        | error e => exact ht
      refine ⟨hcalm, ?_, hkept, ?_⟩
      · intro path found hfound
        cases hold : documents.lookup path with
        | some before =>
          rw [hkept path before hold] at hfound
          cases hfound
          exact hpresence path found hold
        | none =>
          rw [List.lookup_append, hold, Option.none_or, List.lookup_cons] at hfound
          by_cases hsame : path = config.path
          · subst hsame
            rw [beq_self_eq_true] at hfound
            cases hfound
            exact ht.2
          · rw [beq_eq_false_iff_ne.mpr hsame] at hfound
            cases hfound
      · intro state hstate path hpath
        rw [← hat.unique hpath]
        cases document with
        | error e => cases hstate
        | ok document => exact ⟨document, hself⟩
  · rename_i hnone
    refine wp_bind.mpr (wp_call trivial fun r t hn => ?_)
    refine ⟨h.next rfl hn, hpresence, fun _ _ hfound => hfound, fun state _ path hpath => ?_⟩
    obtain ⟨found, hfound, _⟩ := hpath
    rw [hnone] at hfound
    cases hfound

theorem preflightOne_calm {run : Run} (hdistinct : Distinct run.plan.entries) {done rest : List (Entry × Nat)}
    {entry : Entry} {index : Nat} (hsplit : run.plan.entries.zipIdx = done ++ (entry, index) :: rest)
    {p : Preflights} {s : Guest} (h : Calm home s) (hdocumented : Documented home (done.map Prod.fst) p) :
    wpe (carefulGuest host) (fun _ _ => True) (preflightOne host run.plan p (entry, index)) s
      (fun q t => Calm home t ∧ Documented home ((done ++ [(entry, index)]).map Prod.fst) q) fun stopped _ =>
        stopped.unit = none := by
  have hnew : ∀ e ∈ done.map Prod.fst, e.id ≠ entry.id := by
    have hnodup := hdistinct
    rw [Distinct, (zipIdx_split hsplit).2, List.map_append, List.map_cons, List.nodup_append] at hnodup
    intro e he heq
    exact hnodup.2.2 e.id (List.mem_map_of_mem he) entry.id List.mem_cons_self heq
  unfold preflightOne
  refine wpe_bind.mpr (wpe_lift ⟨trivial, fun cancelled t hn => ?_⟩)
  have hcancelled := h.next rfl hn
  cases cancelled with
  | true => rfl
  | false =>
    refine wpe_bind.mpr (wpe_lift ⟨trivial, fun _ t hn => ?_⟩)
    have hchecking := hcancelled.next rfl hn
    refine wpe_bind.mpr (wpe_lift (wp_mono (preflightState_calm hchecking hdocumented.presence entry) ?_))
    rintro ⟨state, documents⟩ t ⟨hcalm, hstated⟩
    cases state with
    | ok state =>
      refine wpe_bind.mpr (wpe_lift ⟨trivial, fun _ t hn => ?_⟩)
      refine ⟨hcalm.next rfl hn, hstated.presence, fun id hid => ?_, fun e he hid path hpath => ?_⟩
      · simp only [List.map_append, List.map_cons, List.map_nil, List.mem_append, List.mem_singleton] at hid ⊢
        exact hid.imp (hdocumented.known id) fun heq => heq
      · rw [List.map_append, List.mem_append] at he hid
        rcases he with he | he
        · have hpassed : e.id ∈ p.states.map Prod.fst := by
            refine hid.resolve_right fun hlast => ?_
            exact hnew e he (by simpa using hlast)
          obtain ⟨document, hdocument⟩ := hdocumented.passed e he hpassed path hpath
          exact ⟨document, hstated.kept path _ hdocument⟩
        · have heq : e = entry := by simpa using he
          subst heq
          exact hstated.passed state rfl path hpath
    | error error =>
      refine wpe_bind.mpr (wpe_lift ⟨trivial, fun _ t hn => ?_⟩)
      refine ⟨hcalm.next rfl hn, hstated.presence, fun id hid => ?_, fun e he hid path hpath => ?_⟩
      · rw [List.map_append, List.map_append, List.mem_append]
        exact Or.inl (hdocumented.known id hid)
      · have hdone : e ∈ done.map Prod.fst := by
          rw [List.map_append, List.mem_append] at he
          refine he.resolve_right fun hlast => ?_
          have heq : e = entry := by simpa using hlast
          obtain ⟨e', he', hid'⟩ := List.mem_map.mp (hdocumented.known e.id hid)
          exact hnew e' he' (by rw [hid', heq])
        obtain ⟨document, hdocument⟩ := hdocumented.passed e hdone hid path hpath
        exact ⟨document, hstated.kept path _ hdocument⟩

/-- A run whose preflights are over has done nothing to the home. -/
structure Inspected (host : Host) (plan : Plan) (home : Home) (p : Preflights) (g : Guest) : Prop where
  calm : Calm home g
  documented : Documented home p.run.plan.entries p
  run : ∃ run, Prepared host plan run ∧ Preflighted run (run.plan.entries.map Entry.id) p

/-- A run that stops while it prepares does not stop in a unit. -/
theorem prepare_unit {σ : Type} {E : Env Query Answer σ} {s : σ} {run : Run} :
    wpe E (fun _ _ => True) (prepare host run) s (fun _ _ => True) fun stopped _ => stopped.unit = none := by
  unfold prepare
  refine wpe_bind.mpr (wpe_orStop (wpe_ofExcept (fun _ _ => ?_) fun _ _ => rfl))
  refine wpe_bind.mpr (wpe_orStop ⟨trivial, fun r t _ => ?_⟩)
  rcases r with e | _
  · rfl
  refine wpe_bind.mpr (wpe_orStop ⟨trivial, fun r t _ => ?_⟩)
  rcases r with e | _
  · rfl
  refine wpe_bind.mpr (wpe_orStop ⟨trivial, fun r t _ => ?_⟩)
  rcases r with e | _
  · rfl
  exact trivial

theorem front_calm (hplan : Distinct plan.entries) {s : Guest} (h : Calm home s) :
    wpe (carefulGuest host) (fun _ _ => True) (front host plan) s (Inspected host plan home) fun stopped _ =>
      stopped.unit = none := by
  unfold front
  have hcalm := wpe_inv (asks_prepare host plan.started) h
    (fun s q r t (hq : Passive q) hs hn => @Calm.next host home s t hs q r hq hn) fun _ _ _ _ => trivial
  have hprepared := wpe_and
    (wpe_and hcalm (@prepare_spec _ (carefulGuest host) host plan s hplan)) prepare_unit
  refine wpe_bind.mpr (wpe_mono (wpe_guard hprepared fun _ _ _ => trivial) ?_ fun _ _ he => he.2)
  rintro run t ⟨⟨hcalm, hrun⟩, _⟩
  have hdistinct := rebuilt_distinct hrun.build
  have hloop : wpe (carefulGuest host) (fun _ _ => True) (preflights host run) t
      (fun p t => Calm home t ∧ Documented home (run.plan.entries.zipIdx.map Prod.fst) p) fun stopped _ =>
        stopped.unit = none := by
    refine wpe_foldlM (J := fun (done : List (Entry × Nat)) p t => Calm home t ∧
      Documented home (done.map Prod.fst) p) ?_ ?_
    · rintro done ⟨entry, index⟩ rest p t hsplit ⟨ht, hp⟩
      exact preflightOne_calm hdistinct hsplit ht hp
    · exact ⟨hcalm, nofun, nofun, nofun⟩
  refine wpe_mono (wpe_guard (wpe_and hloop (preflights_spec hrun)) fun _ _ _ =>
    trivial) ?_ fun _ _ he => he.1
  rintro p t ⟨⟨ht, hp⟩, hpre⟩
  refine ⟨ht, ?_, run, hrun, hpre⟩
  have hentries : run.plan.entries.zipIdx.map Prod.fst = p.run.plan.entries := by
    rw [hpre.same]
    simp
  rwa [hentries] at hp

end

end HomeStack.Setup

import HomeStack.TlsStore

/-! `PUT /v1/secrets/tls` (`hs-server`, `secrets.rs`): a rotation of the stored pair, then Caddy loads
its configuration again with the files of the new generation; if it does not, the previous one is
selected and loaded again. The request may be dropped anywhere. -/

namespace HomeStack.PutTls

open TlsStore Prog
open ConfigStore (IoError)

/-- `ErrorCode`, as far as the handler answers with it. -/
inductive ErrorCode
  | validationFailed | operationRefused | internal
  deriving DecidableEq

structure ApiError where
  code : ErrorCode
  message : Text
  deriving DecidableEq

/-- Indexing a value that is no object with a key. -/
inductive Panic
  | index

abbrev Handler := ExceptT Panic (Prog Ask Ask.Answer)

def wait (q : Ask) : Handler q.Answer := liftM (Prog.call q : Prog Ask Ask.Answer q.Answer)

/-- A file operation with its outcome. -/
def outcome {α : Type} (op : TlsStore.Op α) : Handler (Except IoError α) := liftM op.run

def loadFiles : Text := "/apps/tls/certificates/load_files"

/-- `value[key] = x` -/
def assign (value : Json) (entries : List (Text × Json)) : Except Panic Json :=
  match value with
  | .obj es => .ok (.obj (entries.foldl (fun es e => Json.insert e.1 e.2 es) es))
  | .null => .ok (.obj (entries.foldl (fun es e => Json.insert e.1 e.2 es) []))
  | _ => .error .index

/-- The configuration with both files of the generation; `none` where Caddy has no single pair. -/
def pin (config : Json) (g : Generation) : Except Panic (Option Json) :=
  match (config.pointer loadFiles).bind Json.asArray with
  | some [file] =>
    match assign file [("certificate", .str (g.path "cert.pem")), ("key", .str (g.path "key.pem"))] with
    | .ok file => .ok (config.setPointer loadFiles (.arr [file]))
    | .error e => .error e
  | _ => .ok none

def reloadCaddy (g : Generation) : Handler (Except Text Unit) := do
  match ← wait .config with
  | .error error => return .error ("reading Caddy's config: " ++ error)
  | .ok none => return .error "Caddy returned an invalid configuration"
  | .ok (some config) =>
    match pin config g with
    | .error e => throw e
    | .ok none => return .error "Caddy has no single managed TLS pair"
    | .ok (some config) =>
      match ← wait (.load config) with
      | .error error => return .error ("loading Caddy's config: " ++ error)
      | .ok status =>
        if status.isSuccess then return .ok () else return .error ("Caddy answered " ++ status.shown)

/-- A request, with its body as far as it is a `TlsCertificate`. -/
structure Request where
  contentType : Option Text
  body : Option TlsPair

structure Instance where
  stateDir : Option Text
  caddyAdmin : Bool

def storedError : ApiError := ⟨.internal, "The secret could not be stored."⟩

section

variable (check : TlsPair → Except Text Unit)

def valid (pair : TlsPair) : Bool := (check pair).toOption.isSome

/-- What is checked before anything is stored: the pair and the TLS directory. -/
def accepted (inst : Instance) (request : Request) : Except ApiError (TlsPair × Text) :=
  if request.contentType.any (Text.startsWith "application/json") then
    match request.body with
    | none => .error ⟨.validationFailed, "Invalid request body."⟩
    | some pair =>
      match check pair with
      | .error message => .error ⟨.validationFailed, message⟩
      | .ok () =>
        match inst.stateDir with
        | none => .error ⟨.operationRefused, "This instance keeps no secrets: it has no state directory."⟩
        | some dir => .ok (pair, dir ++ "/tls")
  else .error ⟨.validationFailed, "The request body must be JSON (Content-Type: application/json)."⟩

/-- The selection is put back, and Caddy is made to load the previous pair. -/
def putBack (dir : Text) (previous : Option Generation) : Handler (Except ApiError Nat) := do
  match ← outcome (select (valid check) dir previous) with
  | .error _ => return .error storedError
  | .ok () =>
    match previous with
    | none => pure ()
    | some previous =>
      let _ ← reloadCaddy previous
    return .error ⟨.validationFailed, "Caddy did not accept the certificate; the previous one is kept."⟩

def putTls (inst : Instance) (request : Request) : Handler (Except ApiError Nat) := do
  match accepted check inst request with
  | .error e => return .error e
  | .ok (pair, dir) =>
    wait .lock
    match ← outcome (rotate (valid check) dir pair) with
    | .error _ => return .error storedError
    | .ok rotation =>
      if !inst.caddyAdmin then return .ok 204
      match ← reloadCaddy rotation.active with
      | .ok () => return .ok 204
      | .error _ => putBack check dir rotation.previous

end

/-! ## What the handler promises -/

/-- Both files of Caddy's configuration are those of the generation. -/
def Names (dir : Text) (name : Text) (config : Json) : Prop :=
  ∃ file, config.pointer loadFiles = some (.arr [file]) ∧
    file.get "certificate" = some (.str (Generation.path ⟨dir, name⟩ "cert.pem")) ∧
    file.get "key" = some (.str (Generation.path ⟨dir, name⟩ "key.pem"))

/-- The selection is the one from before the request, and what Caddy accepted last names it. -/
def KeepsPrevious (dir : Text) (before after : TlsStore.World) : Prop :=
  after.current = before.current ∧ ∀ config, after.caddy = some config →
    ∃ name, before.current = some name ∧ Names dir name config

/-- The new pair is selected, and Caddy accepted a configuration that names it. -/
def Serves (caddyAdmin : Bool) (dir : Text) (pair : TlsPair) (after : TlsStore.World) : Prop :=
  ∃ name, after.current = some name ∧ after.Holds name pair ∧
    (caddyAdmin = true → ∃ config, after.caddy = some config ∧ Names dir name config)

/-- The future was dropped, or the task panicked. -/
def CutOff (o : Option (Except Panic (Except ApiError Nat))) : Prop := ∀ r, o ≠ some (.ok r)

/-- The request is not cut off between its two selections, and where Caddy accepted the new
configuration although the load was not answered so, it accepts the previous one in the reload that
follows. -/
def Recovers (o : Option (Except Panic (Except ApiError Nat))) (after : TlsStore.World) : Prop :=
  (CutOff o → after.selections ≠ 1) ∧ (1 ∈ after.loads → 2 ∈ after.loads)

/-- Caddy's configuration was read for this generation, and where it has a single pair Caddy was asked
to load it again. -/
def Reloads (g : Generation) (selections : Nat) (after : TlsStore.World) : Prop :=
  ∃ read, (selections, read) ∈ after.reads ∧
    ∀ config pinned, read = some config → pin config g = .ok (some pinned) →
      (selections, pinned) ∈ after.posts

/-- Nothing was selected yet, or what was selected before is selected again and Caddy asked to load it. -/
def PutBack (dir : Text) (before after : TlsStore.World) : Prop :=
  after.current = before.current ∧
    (after.selections = 0 ∨ after.selections = 2 ∧ ∀ name, before.current = some name →
      Reloads ⟨dir, name⟩ 2 after)

def tlsDir (inst : Instance) : Text := inst.stateDir.getD [] ++ "/tls"

/-- Unless the request is answered 204 it keeps what was there, and then it serves the new pair. -/
def Meets (inst : Instance) (request : Request) (before : TlsStore.World)
    (o : Option (Except Panic (Except ApiError Nat))) (after : TlsStore.World) : Prop :=
  (o = some (.ok (.ok 204)) → ∃ pair, request.body = some pair ∧
    Serves inst.caddyAdmin (tlsDir inst) pair after) ∧
    (o ≠ some (.ok (.ok 204)) → KeepsPrevious (tlsDir inst) before after)

/-- Nothing was asked of Caddy and nothing selected yet. -/
structure Fresh (w : TlsStore.World) : Prop where
  caddy : w.caddy = none
  selections : w.selections = 0
  loads : w.loads = []
  reads : w.reads = []
  posts : w.posts = []

/-! ## Names in a configuration -/

section

variable {dir name other : Text} {config : Json}

theorem lookup_insert (key : Text) (value : Json) (es : List (Text × Json)) :
    Json.lookup key (Json.insert key value es) = some value := by
  induction es with
  | nil => simp [Json.insert, Json.lookup]
  | cons e es ih =>
    unfold Json.insert
    by_cases hk : e.1 = key
    · simp [hk, Json.lookup_cons]
    · by_cases hlt : compare key e.1 = .lt
      · simp [hk, hlt, Json.lookup_cons]
      · simp [hk, hlt, Json.lookup_cons, ih]

theorem lookup_replace {key : Text} {value old : Json} {es : List (Text × Json)}
    (h : Json.lookup key es = some old) :
    Json.lookup key (Json.replace key value es) = some value := by
  induction es with
  | nil => cases h
  | cons e es ih =>
    unfold Json.replace at ih ⊢
    rw [List.map_cons]
    by_cases hk : e.1 = key
    · simp [hk, Json.lookup_cons]
    · rw [Json.lookup_cons, if_neg hk] at h
      rw [if_neg hk, Json.lookup_cons, if_neg hk]
      exact ih h

/-- What is put at a path is found there. -/
theorem valueAt_setAt {v v' x : Json} {p : List Text} (h : Json.setAt v p x = some v') :
    Json.valueAt v' p = some x := by
  induction p generalizing v v' with
  | nil =>
    rw [Json.setAt] at h
    rw [← Option.some.inj h]
    rfl
  | cons token p ih =>
    cases v with
    | obj es =>
      rw [Json.setAt] at h
      obtain ⟨c, hc, h⟩ := Option.bind_eq_some_iff.mp h
      obtain ⟨c', hc', rfl⟩ := Option.map_eq_some_iff.mp h
      rw [Json.valueAt, Json.child, lookup_replace hc]
      exact ih hc'
    | arr items =>
      rw [Json.setAt] at h
      obtain ⟨i, hi, h⟩ := Option.bind_eq_some_iff.mp h
      obtain ⟨c, hc, h⟩ := Option.bind_eq_some_iff.mp h
      obtain ⟨c', hc', rfl⟩ := Option.map_eq_some_iff.mp h
      have hlt : i < items.length := (List.getElem?_eq_some_iff.mp hc).1
      rw [Json.valueAt, Json.child, hi, Option.bind_some, List.getElem?_set_self hlt]
      exact ih hc'
    | _ => simp [Json.setAt] at h

/-- A pinned configuration names the generation. -/
theorem names_pin {pinned : Json} (h : pin config ⟨dir, name⟩ = .ok (some pinned)) :
    Names dir name pinned := by
  unfold pin at h
  split at h
  next file hfile =>
    split at h
    next made hmade =>
      have hset : config.setPointer loadFiles (.arr [made]) = some pinned := Except.ok.inj h
      rw [Json.setPointer_eq (by decide)] at hset
      refine ⟨made, ?_, ?_⟩
      · rw [Json.pointer_eq (by decide)]
        exact valueAt_setAt hset
      · have hfields (es : List (Text × Json)) (c k : Json) :
            (Json.obj ([("certificate", c), ("key", k)].foldl (fun es e => Json.insert e.1 e.2 es) es)).get
              "certificate" = some c ∧
            (Json.obj ([("certificate", c), ("key", k)].foldl (fun es e => Json.insert e.1 e.2 es) es)).get
              "key" = some k := by
          simp only [List.foldl_cons, List.foldl_nil, Json.get]
          exact ⟨(Json.lookup_insert_ne _ (by decide) _).trans (lookup_insert ..), lookup_insert ..⟩
        unfold assign at hmade
        split at hmade
        · rw [← Except.ok.inj hmade]
          exact hfields _ _ _
        · rw [← Except.ok.inj hmade]
          exact hfields _ _ _
        · cases hmade
    next => cases h
  next => cases h

/-- A configuration names one generation at most. -/
theorem Names.unique (h : Names dir name config) (h' : Names dir other config) : name = other := by
  obtain ⟨file, hfile, hcert, -⟩ := h
  obtain ⟨file', hfile', hcert', -⟩ := h'
  rw [hfile] at hfile'
  obtain rfl : file = file' := by simpa using hfile'
  rw [hcert] at hcert'
  have hpath : Generation.path ⟨dir, name⟩ "cert.pem" = Generation.path ⟨dir, other⟩ "cert.pem" := by
    simpa using hcert'
  simp only [Generation.path] at hpath
  exact List.append_cancel_left (List.append_cancel_right (List.append_cancel_right hpath))

end

/-! ## The store -/

section

variable {check : TlsPair → Except Text Unit} {dir : Text} {before w t : TlsStore.World}
  {J : TlsStore.World → Prop}

/-- Cut off now, the request has kept what was there just when nothing is left to put back. -/
def Good (dir : Text) (before t : TlsStore.World) : Prop :=
  KeepsPrevious dir before t ↔ t.selections ≠ 1 ∧ (1 ∈ t.loads → 2 ∈ t.loads)

/-- Only what Caddy was asked differs. -/
structure Quiet (w t : TlsStore.World) : Prop where
  dirs : t.dirs = w.dirs
  current : t.current = w.current
  caddy : t.caddy = w.caddy
  selections : t.selections = w.selections
  loads : t.loads = w.loads

theorem Quiet.good (h : Quiet w t) (hw : Good dir before w) : Good dir before t := by
  unfold Good KeepsPrevious at *
  rwa [h.current, h.caddy, h.selections, h.loads]

structure Untouched (before w : TlsStore.World) : Prop where
  current : w.current = before.current
  caddy : w.caddy = none
  selections : w.selections = 0
  loads : w.loads = []

theorem Untouched.good (h : Untouched before w) : Good dir before w := by
  refine iff_of_true ⟨h.current, fun config hconfig => ?_⟩ ⟨by rw [h.selections]; decide, fun hload => ?_⟩
  · rw [h.caddy] at hconfig
    cases hconfig
  · rw [h.loads] at hload
    cases hload

/-- Only directories and links other than `current` changed. -/
theorem Untouched.of_eq (h : Untouched before w) (hcurrent : t.current = w.current)
    (hcaddy : t.caddy = w.caddy) (hselections : t.selections = w.selections) (hloads : t.loads = w.loads) :
    Untouched before t :=
  ⟨hcurrent.trans h.current, hcaddy.trans h.caddy, hselections.trans h.selections, hloads.trans h.loads⟩

/-- Steps without an effect on what is modelled. -/
def quiet : Ask → Prop
  | .metadata | .createPrivateDirectory | .syncPrivateParent | .privateDirectoryMode
  | .syncPrivateDirectory => True
  | _ => False

theorem asks_quiet : privateDirectory.run.Asks quiet := by
  have hask {q : Ask} (hq : quiet q) : (TlsStore.ask q).run.Asks quiet := asks_lift ⟨hq, fun _ => trivial⟩
  have hrestrict : restrict.run.Asks quiet :=
    asks_bind (hask trivial) fun _ => asks_bind asks_ofExcept fun _ =>
      asks_bind (hask trivial) fun _ => asks_ofExcept
  refine asks_bind (hask trivial) fun r => asks_bind asks_ofExcept fun found => ?_
  cases found with
  | other => trivial
  | directory => exact hrestrict
  | missing =>
    refine asks_bind ?_ fun _ => hrestrict
    exact asks_bind (hask trivial) fun _ => asks_bind asks_ofExcept fun _ =>
      asks_bind (hask trivial) fun _ => asks_ofExcept

theorem wpe_privateDirectory (hJ : J w) :
    wpe node (fun s _ => J s) privateDirectory w (fun _ t => t = w) fun _ t => t = w := by
  refine wpe_of_asks asks_quiet (fun _ _ => hJ) (fun q r t hq hn => ?_) (fun _ => rfl) fun _ => rfl
  cases q <;> first | exact hn | exact hq.elim

/-- The generation is complete. -/
def Stored (check : TlsPair → Except Text Unit) (name : Text) (w : TlsStore.World) : Prop :=
  ∃ pair, w.Holds name pair ∧ valid check pair = true

/-- What `selected` finds. -/
def Selected (check : TlsPair → Except Text Unit) (dir : Text) (found : Option Generation)
    (w : TlsStore.World) : Prop :=
  w.current = found.map Generation.name ∧
    ∀ g, found = some g → g.dir = dir ∧ generationName g.name = true ∧ Stored check g.name w

theorem wpe_readGeneration {name : Text} {selecting : Bool} (hJ : J w) :
    wpe node (fun s _ => J s) (readGeneration (valid check) name selecting) w
      (fun _ t => t = w ∧ Stored check name w) fun _ t => t = w ∧
        (selecting = true → ¬ Stored check name w) := by
  refine wpe_request_bind hJ fun r t hr => ?_
  obtain ⟨rfl, hpair, hselecting⟩ := hr
  refine wpe_ofExcept_bind (fun pair hok => ?_) fun e herr => ⟨rfl, ?_⟩
  · subst hok
    split
    next hvalid =>
      refine wpe_throw ⟨rfl, fun _ hstored => ?_⟩
      obtain ⟨other, hother, hv⟩ := hstored
      rw [(hpair pair rfl).unique hother, hv] at hvalid
      cases hvalid
    next hvalid => exact wpe_pure ⟨rfl, pair, hpair pair rfl, by simpa using hvalid⟩
  · rintro hs ⟨pair, hholds, -⟩
    obtain ⟨found, hfound⟩ := hselecting hs ⟨pair, hholds⟩
    rw [herr] at hfound
    cases hfound

theorem wpe_selected (hJ : J w) :
    wpe node (fun s _ => J s) (selected (valid check) dir) w (fun found t => t = w ∧
      Selected check dir found w) fun _ t => t = w := by
  refine wpe_request_bind hJ fun r t hr => ?_
  obtain ⟨rfl, hmissing⟩ := hr
  match r, hmissing with
  | .error .notFound, hmissing => exact wpe_pure ⟨rfl, hmissing rfl, fun g hg => nomatch hg⟩
  | .error .alreadyExists, _ | .error .invalidData, _ | .error .other, _ => exact wpe_throw rfl
  | .ok false, _ => exact wpe_throw rfl
  | .ok true, _ =>
    refine wpe_request_bind hJ fun r t hr => ?_
    obtain ⟨rfl, hlink⟩ := hr
    refine wpe_ofExcept_bind (fun name hname => ?_) fun e _ => rfl
    subst hname
    dsimp only
    split
    · exact wpe_throw rfl
    next hvalid =>
      refine wpe_bind.mpr (wpe_mono (wpe_readGeneration hJ) ?_ fun e t he => he.1)
      rintro pair u ⟨rfl, hstored⟩
      refine wpe_pure ⟨rfl, hlink name rfl, ?_⟩
      rintro g ⟨⟩
      exact ⟨rfl, by simpa using hvalid, hstored⟩

/-- Before the selection: nothing has happened to `current` or to Caddy, and the generation that was
selected is there. -/
structure Staging (check : TlsPair → Except Text Unit) (before : TlsStore.World)
    (previous : Option Generation) (w : TlsStore.World) : Prop extends Untouched before w where
  stored : ∀ g, previous = some g → generationName g.name = true ∧ Stored check g.name w

variable {previous : Option Generation}

theorem Staging.update {name : Text} {x : Option Files} (h : Staging check before previous w)
    (hname : ∀ g, previous = some g → g.name ≠ name) :
    Staging check before previous { w with dirs := Function.update w.dirs name x } := by
  refine ⟨h.toUntouched.of_eq rfl rfl rfl rfl, fun g hg => ?_⟩
  obtain ⟨hgood, pair, ⟨files, hfiles, hpair⟩, hvalid⟩ := h.stored g hg
  exact ⟨hgood, pair, ⟨files, (Function.update_of_ne (hname g hg) ..).trans hfiles, hpair⟩, hvalid⟩

/-- The name of a generation is not that of a directory in the making. -/
theorem generationName_ne {name id : Text} (h : generationName name = true) : name ≠ ".staging-" ++ id := by
  rintro rfl
  cases h

theorem Staging.update_staging {id : Text} {x : Option Files} (h : Staging check before previous w) :
    Staging check before previous { w with dirs := Function.update w.dirs (".staging-" ++ id) x } :=
  h.update fun g hg => generationName_ne (h.stored g hg).1

/-- A file of the staged generation. -/
theorem wpe_stageFile {id file text : Text} {files : Files} (h : Staging check before previous w)
    (hfiles : w.dirs (".staging-" ++ id) = some files) :
    wpe node (fun s _ => Staging check before previous s) (stageFile (".staging-" ++ id) file text) w
      (fun _ t => Staging check before previous t ∧ ∃ new, t.dirs (".staging-" ++ id) = some new ∧
        new file = some text ∧
        ∀ other ≠ file, new other = files other)
      fun _ t => Staging check before previous t := by
  refine wpe_request_bind h fun r t hr => ?_
  have hset {w : TlsStore.World} {files : Files} (x : Text) (hs : Staging check before previous w) :
      Staging check before previous (w.setFile (".staging-" ++ id) files file x) := hs.update_staging
  rcases hr with ⟨e, rfl, rfl⟩ | ⟨found, hfound, rfl⟩
  · exact h
  obtain rfl := Option.some.inj (hfiles.symm.trans hfound)
  refine wpe_ofExcept_bind (fun _ _ => ?_) fun e _ => hset [] h
  refine wpe_request_bind (hset [] h) fun r t hr => ?_
  rcases hr with ⟨e, rfl, rfl⟩ | ⟨found, part, hfound, rfl, hpart⟩
  · exact hset [] h
  obtain rfl : Function.update files file (some []) = found :=
    Option.some.inj ((TlsStore.World.setFile_self ..).symm.trans hfound)
  refine wpe_ofExcept_bind (fun _ hok => ?_) fun e _ => hset part (hset [] h)
  obtain rfl := hpart hok
  refine wpe_request_bind (hset part (hset [] h)) fun r t hr => ?_
  obtain rfl := hr
  refine wpe_ofExcept (fun _ _ => ⟨hset part (hset [] h), _, TlsStore.World.setFile_self ..,
    Function.update_self .., ?_⟩)
    fun e _ => hset part (hset [] h)
  intro other hne
  rw [Function.update_of_ne hne, Function.update_of_ne hne]

/-- A published generation holds the pair, and is another one than the selected one. -/
theorem wpe_stage {pair : TlsPair} (h : Staging check before previous w) :
    wpe node (fun s _ => Staging check before previous s) (stage (valid check) dir pair) w
      (fun g t => Staging check before previous t ∧ g.dir = dir ∧
        generationName g.name = true ∧ t.Holds g.name pair ∧
        valid check pair = true ∧ ∀ old, previous = some old → old.name ≠ g.name)
      fun _ t => Staging check before previous t := by
  unfold stage
  split
  · exact h
  next hvalid =>
    refine wpe_request_bind h fun id t hr => ?_
    obtain rfl := hr
    refine wpe_request_bind h fun r t hr => ?_
    rcases hr with ⟨e, rfl, rfl⟩ | ⟨hnone, rfl⟩
    · exact h
    have hempty := @Staging.update_staging _ _ _ _ id.text (some fun _ => none) h
    refine wpe_ofExcept_bind (fun _ _ => ?_) fun e _ => hempty
    refine wpe_bind.mpr (wpe_mono (wpe_stageFile hempty (Function.update_self ..)) ?_ fun _ _ he => he)
    rintro _ t ⟨ht, files, hfiles, hkey, -⟩
    refine wpe_bind.mpr (wpe_mono (wpe_stageFile ht hfiles) ?_ fun _ _ he => he)
    rintro _ u ⟨hu, files', hfiles', hcert, hother⟩
    refine wpe_request_bind hu fun r v hr => ?_
    obtain rfl := hr
    refine wpe_ofExcept_bind (fun _ _ => ?_) fun e _ => hu
    refine wpe_request_bind hu fun r v hr => ?_
    rcases hr with ⟨e, rfl, rfl⟩ | ⟨found, hfound, hfresh, rfl⟩
    · exact hu
    obtain rfl := Option.some.inj (hfiles'.symm.trans hfound)
    have hne : ∀ old, previous = some old → old.name ≠ generationOf id.text := by
      rintro old hold hname
      obtain ⟨-, pair, ⟨files, hthere, -⟩, -⟩ := hu.stored old hold
      rw [hname, hfresh] at hthere
      cases hthere
    have hpublished : Staging check before previous _ :=
      (@Staging.update_staging _ _ _ _ id.text none hu).update (x := some files') hne
    refine wpe_ofExcept_bind (fun _ _ => ?_) fun e _ => hpublished
    refine wpe_request_bind hpublished fun r t hr => ?_
    obtain rfl := hr
    refine wpe_ofExcept_bind (fun _ _ => ?_) fun e _ => hpublished
    refine wpe_pure ⟨hpublished, rfl, generationName_of id, ⟨files', Function.update_self .., hcert, ?_⟩,
      by simpa using hvalid, hne⟩
    rw [hother "key.pem" (by decide), hkey]

/-- The selection has changed, and nothing else but other links. -/
structure Moved (w : TlsStore.World) (target : Option Text) (t : TlsStore.World) : Prop where
  current : t.current = target
  dirs : t.dirs = w.dirs
  caddy : t.caddy = w.caddy
  selections : t.selections = w.selections + 1
  loads : t.loads = w.loads

theorem temporary_ne (id : Text) : (".current-" ++ id : Text) ≠ "current" := by
  intro h
  cases h

/-- `select` does not fail for a generation that is stored. -/
theorem wpe_select {generation : Option Generation} (hbefore : J w)
    (hstaged : ∀ (temporary : Text) (target : Option Text), temporary ≠ "current" →
      J (w.link temporary target))
    (hmoved : ∀ t, Moved w (generation.map Generation.name) t → J t)
    (hgeneration : ∀ g, generation = some g → g.dir = dir ∧ generationName g.name = true ∧
      Stored check g.name w) :
    wpe node (fun s _ => J s) (select (valid check) dir generation) w
      (fun _ t => Moved w (generation.map Generation.name) t) fun _ _ => False := by
  have hsync {t : TlsStore.World} (h : Moved w (generation.map Generation.name) t) :
      wpe node (fun s _ => J s) (do Prog.ofExcept (← TlsStore.ask .syncSelector) : TlsStore.Op Unit) t
        (fun _ t => Moved w (generation.map Generation.name) t) fun _ _ => False := by
    refine wpe_request_bind (hmoved t h) fun r u hr => ?_
    obtain ⟨rfl, rfl⟩ := hr
    exact wpe_ofExcept (fun _ _ => h) fun e herr => nomatch herr
  cases generation with
  | none =>
    refine wpe_request_bind hbefore fun r t hr => ?_
    obtain ⟨hr, rfl⟩ := hr
    have hgone : Moved w none w.unselected := ⟨w.unselected_current, rfl, rfl, rfl, rfl⟩
    rcases hr with rfl | rfl
    · exact hsync hgone
    · exact hsync hgone
  | some g =>
    obtain ⟨hdir, hname, hstored⟩ := hgeneration g rfl
    unfold select
    dsimp only
    split
    next hbad => simp [hdir, hname] at hbad
    next =>
      refine wpe_bind.mpr (wpe_mono (wpe_readGeneration hbefore) ?_ fun e t he => (he.2 rfl hstored).elim)
      rintro pair t ⟨rfl, -⟩
      refine wpe_request_bind hbefore fun id u hr => ?_
      obtain rfl := hr
      refine wpe_request_bind hbefore fun r v hr => ?_
      obtain ⟨rfl, rfl⟩ := hr
      refine wpe_ofExcept_bind (fun _ _ => ?_) fun e herr => nomatch herr
      refine wpe_request_bind (hstaged _ _ (temporary_ne id.text)) fun r v hr => ?_
      obtain ⟨rfl, rfl⟩ := hr
      refine wpe_ofExcept_bind (fun _ _ => ?_) fun e herr => nomatch herr
      exact hsync ⟨(TlsStore.World.selected_current ..).trans (TlsStore.World.link_self ..), rfl,
        rfl, rfl, rfl⟩

/-- The new generation is selected; the old one is still there. -/
structure Committed (check : TlsPair → Except Text Unit) (dir : Text) (pair : TlsPair)
    (before : TlsStore.World) (rotation : Rotation) (w : TlsStore.World) : Prop where
  previous : before.current = rotation.previous.map Generation.name
  stored : ∀ g, rotation.previous = some g → g.dir = dir ∧ generationName g.name = true ∧
    Stored check g.name w
  active : rotation.active.dir = dir
  current : w.current = some rotation.active.name
  holds : w.Holds rotation.active.name pair
  new : before.current ≠ some rotation.active.name
  selections : w.selections = 1
  caddy : w.caddy = none
  loads : w.loads = []

/-- While the new generation is selected, the previous selection is not kept. -/
theorem good_of_new (hcurrent : w.current ≠ before.current) (hselections : w.selections = 1) :
    Good dir before w :=
  iff_of_false (fun h => hcurrent h.1) fun h => h.1 hselections

theorem wpe_rotate {pair : TlsPair} (h : Untouched before w) :
    wpe node (fun s _ => Good dir before s) (rotate (valid check) dir pair) w
      (fun rotation t => Committed check dir pair before rotation t) fun _ t => Untouched before t := by
  unfold rotate
  refine wpe_bind.mpr (wpe_mono (wpe_privateDirectory h.good) ?_ fun e t he => he ▸ h)
  rintro _ t rfl
  refine wpe_bind.mpr (wpe_mono (wpe_selected h.good) ?_ fun e t he => he ▸ h)
  rintro previous u ⟨rfl, hprevious, hstored⟩
  have hstaging : Staging check before previous u := ⟨h, fun g hg => (hstored g hg).2⟩
  refine wpe_bind.mpr (wpe_mono (wpe_guard (wpe_stage hstaging) fun s _ hs => hs.toUntouched.good) ?_
    fun e t he => he.toUntouched)
  rintro active v ⟨hv, hdir, hname, hholds, hvalid, hnew⟩
  have hother : before.current ≠ some active.name := by
    rw [← h.current, hprevious]
    intro heq
    obtain ⟨old, hold, hsame⟩ := Option.map_eq_some_iff.mp heq
    exact hnew old hold hsame
  have hgood {t : TlsStore.World} (ht : Moved v (some active.name) t) : Good dir before t :=
    good_of_new (by rw [ht.current]; exact Ne.symm hother) (by rw [ht.selections, hv.selections])
  refine wpe_bind.mpr (wpe_attempt
    (wpe_mono (wpe_select hv.toUntouched.good (fun temporary target hne => ?_) (fun t => hgood) ?_)
    (fun _ t ht => ?_) fun e t he => he.elim))
  · exact (hv.toUntouched.of_eq (TlsStore.World.link_current v target hne) rfl rfl rfl).good
  · rintro g ⟨⟩
    exact ⟨hdir, hname, pair, hholds, hvalid⟩
  · refine wpe_pure ⟨h.current ▸ hprevious, fun g hg => ⟨(hstored g hg).1, (hv.stored g hg).1, ?_⟩, hdir,
    ht.current, ?_, hother, ?_, ?_, ?_⟩
    · obtain ⟨old, hold, hvalid⟩ := (hv.stored g hg).2
      refine ⟨old, ?_, hvalid⟩
      unfold TlsStore.World.Holds
      rw [ht.dirs]
      exact hold
    · unfold TlsStore.World.Holds
      rw [ht.dirs]
      exact hholds
    · rw [ht.selections, hv.selections]
    · rw [ht.caddy, hv.caddy]
    · rw [ht.loads, hv.loads]

/-! ## Caddy -/

theorem wpe_wait {α : Type} {q : Ask} {k : q.Answer → Handler α} {K : α → TlsStore.World → Prop}
    {X : Panic → TlsStore.World → Prop} (hJ : J w)
    (h : ∀ r t, answers w q r t → wpe node (fun s _ => J s) (k r) t K X) :
    wpe node (fun s _ => J s) (wait q >>= k) w K X :=
  wpe_bind.mpr (wpe_lift (wp_call hJ h))

theorem wpe_outcome {α β : Type} {op : TlsStore.Op α} {k : Except IoError α → Handler β}
    {K : β → TlsStore.World → Prop} {X : Panic → TlsStore.World → Prop} {L : α → TlsStore.World → Prop}
    {Y : IoError → TlsStore.World → Prop} (hop : wpe node (fun s _ => J s) op w L Y)
    (hok : ∀ a t, L a t → wpe node (fun s _ => J s) (k (.ok a)) t K X)
    (herr : ∀ e t, Y e t → wpe node (fun s _ => J s) (k (.error e)) t K X) :
    wpe node (fun s _ => J s) (outcome op >>= k) w K X := by
  refine wpe_bind.mpr (wpe_lift (wp_mono hop fun r t hr => ?_))
  cases r with
  | ok a => exact hok a t hr
  | error e => exact herr e t hr

/-- Caddy accepted a configuration with the files of the generation. -/
structure Loaded (w : TlsStore.World) (g : Generation) (t : TlsStore.World) : Prop where
  dirs : t.dirs = w.dirs
  current : t.current = w.current
  selections : t.selections = w.selections
  loads : t.loads = w.selections :: w.loads
  caddy : ∃ config, t.caddy = some config ∧ Names g.dir g.name config

theorem wpe_reloadCaddy {g : Generation} (hJ : ∀ s, Quiet w s → J s) :
    wpe node (fun s _ => J s) (reloadCaddy g) w
      (fun r t => (Quiet w t ∧ r ≠ .ok () ∨ Loaded w g t) ∧ Reloads g w.selections t) fun _ t =>
        Quiet w t := by
  refine wpe_wait (hJ w ⟨rfl, rfl, rfl, rfl, rfl⟩) fun r t hr => ?_
  have ht : t = { w with reads := (w.selections, r.toOption.bind id) :: w.reads } := hr
  subst ht
  have hread : Quiet w { w with reads := (w.selections, r.toOption.bind id) :: w.reads } :=
    ⟨rfl, rfl, rfl, rfl, rfl⟩
  have hreloads (h : ∀ config pinned, r.toOption.bind id = some config → pin config g ≠ .ok (some pinned)) :
      Reloads g w.selections { w with reads := (w.selections, r.toOption.bind id) :: w.reads } :=
    ⟨_, List.mem_cons_self, fun config pinned hconfig hpin => absurd hpin (h config pinned hconfig)⟩
  match r with
  | .error error => exact wpe_pure ⟨.inl ⟨hread, nofun⟩, hreloads nofun⟩
  | .ok none => exact wpe_pure ⟨.inl ⟨hread, nofun⟩, hreloads nofun⟩
  | .ok (some config) =>
    dsimp only
    split
    next e _ => exact wpe_throw hread
    next hnone =>
      refine wpe_pure ⟨.inl ⟨hread, nofun⟩, hreloads fun config' pinned hconfig hpin => ?_⟩
      obtain rfl := Option.some.inj hconfig
      rw [hnone] at hpin
      cases hpin
    next pinned hpin =>
      have hnames : Names g.dir g.name pinned := names_pin hpin
      have hasked {t : TlsStore.World} (hreads : (w.selections, some config) ∈ t.reads)
          (hposts : (w.selections, pinned) ∈ t.posts) :
          Reloads g w.selections t := by
        refine ⟨_, hreads, fun config' pinned' hconfig hpin' => ?_⟩
        obtain rfl := Option.some.inj hconfig
        rw [hpin] at hpin'
        obtain rfl := Option.some.inj (Except.ok.inj hpin')
        exact hposts
      refine wpe_wait (hJ _ hread) fun r u hr => ?_
      match r, hr with
      | .error error, Or.inl ⟨hu, _⟩ =>
        subst hu
        exact wpe_pure ⟨.inl ⟨⟨rfl, rfl, rfl, rfl, rfl⟩, nofun⟩, hasked List.mem_cons_self List.mem_cons_self⟩
      | .error error, Or.inr hu =>
        subst hu
        exact wpe_pure ⟨.inr ⟨rfl, rfl, rfl, rfl, pinned, rfl, hnames⟩,
          hasked List.mem_cons_self List.mem_cons_self⟩
      | .ok status, Or.inl ⟨hu, hstatus⟩ =>
        subst hu
        dsimp only
        rw [if_neg (hstatus status rfl)]
        exact wpe_pure ⟨.inl ⟨⟨rfl, rfl, rfl, rfl, rfl⟩, nofun⟩, hasked List.mem_cons_self List.mem_cons_self⟩
      | .ok status, Or.inr hu =>
        subst hu
        dsimp only
        split <;> exact wpe_pure ⟨.inr ⟨rfl, rfl, rfl, rfl, pinned, rfl, hnames⟩,
          hasked List.mem_cons_self List.mem_cons_self⟩

/-! ## The request -/

/-- Put back, and Caddy accepted nothing but perhaps the new generation before. -/
theorem good_putBack {new : Generation} (hcurrent : w.current = before.current)
    (hnew : before.current ≠ some new.name) (hselections : w.selections = 2)
    (hcaddy : w.caddy = none ∧ w.loads = [] ∨ ∃ config, Names dir new.name config ∧
    w.caddy = some config ∧ w.loads = [1]) :
    Good dir before w := by
  have htwo : w.selections ≠ 1 := by omega
  rcases hcaddy with ⟨hnone, hloads⟩ | ⟨config, hnames, hsome, hloads⟩
  · refine iff_of_true ⟨hcurrent, fun config hconfig => ?_⟩ ⟨htwo, fun hload => ?_⟩
    · rw [hnone] at hconfig
      cases hconfig
    · rw [hloads] at hload
      cases hload
  · refine iff_of_false (fun h => ?_) fun h => ?_
    · obtain ⟨name, hname, hother⟩ := h.2 config hsome
      exact hnew (hname.trans (congrArg some (hother.unique hnames)))
    · have := h.2 (by simp [hloads])
      simp [hloads] at this

/-- Put back, and Caddy accepted the previous generation again. -/
theorem good_reloaded {g : Generation} (hcurrent : w.current = before.current)
    (hbefore : before.current = some g.name) (hselections : w.selections = 2) (hdir : g.dir = dir)
    (h : Loaded w g t) : Good dir before t := by
  obtain ⟨config, hconfig, hnames⟩ := h.caddy
  refine iff_of_true ⟨h.current.trans hcurrent, fun c hc => ?_⟩ ⟨?_, fun _ => ?_⟩
  · obtain rfl := Option.some.inj (hconfig.symm.trans hc)
    exact ⟨g.name, hbefore, hdir ▸ hnames⟩
  · rw [h.selections, hselections]
    decide
  · rw [h.loads, hselections]
    exact List.mem_cons_self

theorem wpe_putBack {rotation : Rotation} {pair : TlsPair} (h : Committed check dir pair before rotation w)
    (ht : Quiet w t ∨ Loaded w rotation.active t) :
    wpe node (fun s _ => Good dir before s) (putBack check dir rotation.previous) t
      (fun r u => r ≠ .ok 204 ∧ PutBack dir before u ∧ Good dir before u) fun _ u => Good dir before u := by
  have hcurrent : t.current = w.current := by rcases ht with ht | ht <;> exact ht.current
  have hselections : t.selections = 1 := by rcases ht with ht | ht <;> exact ht.selections.trans h.selections
  have hdirs : t.dirs = w.dirs := by rcases ht with ht | ht <;> exact ht.dirs
  have hcaddy : t.caddy = none ∧ t.loads = [] ∨
      ∃ config, Names dir rotation.active.name config ∧ t.caddy = some config ∧ t.loads = [1] := by
    rcases ht with ht | ht
    · exact .inl ⟨ht.caddy.trans h.caddy, ht.loads.trans h.loads⟩
    · obtain ⟨config, hconfig, hnames⟩ := ht.caddy
      exact .inr ⟨config, h.active ▸ hnames, hconfig, by rw [ht.loads, h.loads, h.selections]⟩
  have hnow {s : TlsStore.World} (hs : s.current = w.current) (hone : s.selections = 1) : Good dir before s :=
    good_of_new (by rw [hs, h.current]; exact Ne.symm h.new) hone
  have hback {s : TlsStore.World} (hs : Moved t (rotation.previous.map Generation.name) s) :
      s.current = before.current ∧ s.selections = 2 ∧ Good dir before s := by
    have hsame : s.current = before.current := hs.current.trans h.previous.symm
    have htwo : s.selections = 2 := by rw [hs.selections, hselections]
    refine ⟨hsame, htwo, good_putBack hsame h.new htwo ?_⟩
    rw [hs.caddy, hs.loads]
    exact hcaddy
  refine wpe_outcome (L := fun _ => Moved t (rotation.previous.map Generation.name)) (Y := fun _ _ => False)
    (wpe_select (hnow hcurrent hselections) (fun temporary target hne => ?_)
      (fun s hs => (hback hs).2.2) fun g hg => ?_)
    (fun _ s hs => ?_) fun e s hs => hs.elim
  · exact hnow ((TlsStore.World.link_current t target hne).trans hcurrent) hselections
  · obtain ⟨hdir, hname, old, hold, hvalid⟩ := h.stored g hg
    refine ⟨hdir, hname, old, ?_, hvalid⟩
    unfold TlsStore.World.Holds
    rw [hdirs]
    exact hold
  · obtain ⟨hsame, htwo, hgood⟩ := hback hs
    cases hprevious : rotation.previous with
    | none =>
      refine wpe_pure ⟨nofun, ⟨hsame, .inr ⟨htwo, fun name hname => ?_⟩⟩, hgood⟩
      rw [h.previous, hprevious] at hname
      cases hname
    | some g =>
      have hbefore : before.current = some g.name := h.previous.trans (by rw [hprevious]; rfl)
      have hdir := (h.stored g hprevious).1
      refine wpe_bind.mpr (wpe_mono (wpe_reloadCaddy fun u hu => hu.good hgood)
        (fun r u hu => wpe_pure ⟨nofun, ?_⟩)
        fun e u hu => hu.good hgood)
      obtain ⟨hu, hreloads⟩ := hu
      have hagain : ∀ name, before.current = some name → Reloads ⟨dir, name⟩ 2 u := by
        intro name hname
        obtain rfl := Option.some.inj (hbefore.symm.trans hname)
        obtain ⟨_, _⟩ := g
        exact hdir ▸ htwo ▸ hreloads
      rcases hu with ⟨hquiet, -⟩ | hloaded
      · exact ⟨⟨hquiet.current.trans hsame, .inr ⟨hquiet.selections.trans htwo, hagain⟩⟩, hquiet.good hgood⟩
      · exact ⟨⟨hloaded.current.trans hsame, .inr ⟨hloaded.selections.trans htwo, hagain⟩⟩,
          good_reloaded hsame hbefore htwo hdir hloaded⟩

theorem Committed.serves {rotation : Rotation} {pair : TlsPair} {caddyAdmin : Bool}
    (h : Committed check dir pair before rotation w)
    (ht : t = w ∧ caddyAdmin = false ∨ Loaded w rotation.active t) :
    Serves caddyAdmin dir pair t ∧ Good dir before t := by
  rcases ht with ⟨rfl, hadmin⟩ | ht
  · refine ⟨⟨_, h.current, h.holds, fun htrue => ?_⟩,
    good_of_new (by rw [h.current]; exact Ne.symm h.new) h.selections⟩
    rw [hadmin] at htrue
    cases htrue
  · obtain ⟨config, hconfig, hnames⟩ := ht.caddy
    refine ⟨⟨_, ht.current.trans h.current, ?_, fun _ => ⟨config, hconfig, h.active ▸ hnames⟩⟩,
      good_of_new ?_ (ht.selections.trans h.selections)⟩
    · unfold TlsStore.World.Holds
      rw [ht.dirs]
      exact h.holds
    · rw [ht.current, h.current]
      exact Ne.symm h.new

/-- An accepted request has a pair and a state directory. -/
theorem accepted_ok {inst : Instance} {request : Request} {pair : TlsPair}
    (h : accepted check inst request = .ok (pair, dir)) :
    request.body = some pair ∧ dir = tlsDir inst := by
  unfold accepted at h
  split at h
  next =>
    split at h
    next => cases h
    next body hbody =>
      split at h
      next => cases h
      next =>
        split at h
        next => cases h
        next state hstate =>
          obtain ⟨rfl, rfl⟩ := Prod.mk.inj (Except.ok.inj h)
          exact ⟨hbody, by rw [tlsDir, hstate]; rfl⟩
  next => cases h

theorem Untouched.putBack (h : Untouched before w) : PutBack dir before w := ⟨h.current, .inl h.selections⟩

theorem wpe_putTls {inst : Instance} {request : Request} (h : Untouched before before) :
    wpe node (fun s _ => Good (tlsDir inst) before s) (putTls check inst request) before
      (fun r t => Good (tlsDir inst) before t ∧ (r ≠ .ok 204 → PutBack (tlsDir inst) before t) ∧
        (r = .ok 204 → ∃ pair, request.body = some pair ∧ Serves inst.caddyAdmin (tlsDir inst) pair t))
      fun _ t => Good (tlsDir inst) before t := by
  unfold putTls
  split
  next e _ => exact wpe_pure ⟨h.good, fun _ => h.putBack, nofun⟩
  next pair dir haccepted =>
    obtain ⟨hbody, rfl⟩ := accepted_ok haccepted
    refine wpe_wait h.good fun _ s hs => ?_
    have hsame : s = before := hs
    subst s
    refine wpe_outcome (wpe_rotate h) (fun rotation t ht => ?_) fun e t ht =>
      wpe_pure ⟨ht.good, fun _ => ht.putBack, nofun⟩
    dsimp only
    split
    next hadmin =>
      have hserved : Serves inst.caddyAdmin (tlsDir inst) pair t ∧ Good (tlsDir inst) before t :=
        ht.serves (Or.inl ⟨rfl, by simpa using hadmin⟩)
      exact wpe_pure ⟨hserved.2, fun hne => absurd rfl hne, fun _ => ⟨pair, hbody, hserved.1⟩⟩
    next =>
      have hnow : Good (tlsDir inst) before t :=
        good_of_new (by rw [ht.current]; exact Ne.symm ht.new) ht.selections
      refine wpe_bind.mpr (wpe_mono (wpe_reloadCaddy fun u hu => hu.good hnow)
        (fun r u hu => ?_) fun e u hu => hu.good hnow)
      cases r with
      | ok _ =>
        rcases hu.1 with ⟨-, hne⟩ | hloaded
        · exact absurd rfl hne
        · have hserved : Serves inst.caddyAdmin (tlsDir inst) pair u ∧ Good (tlsDir inst) before u :=
            ht.serves (Or.inr hloaded)
          exact wpe_pure ⟨hserved.2, fun hne => absurd rfl hne, fun _ => ⟨pair, hbody, hserved.1⟩⟩
      | error e =>
        refine wpe_mono (wpe_putBack ht (hu.1.imp_left And.left)) (fun r v hv => ?_) fun _ _ hv => hv
        exact ⟨hv.2.2, fun _ => hv.2.1, fun hr => absurd hr hv.1⟩

/-- A request does what it promises exactly if it is answered 204 or recovers; and answered otherwise,
it has put the selection back and asked Caddy to load the previous pair again. -/
theorem putTls_meets_iff {inst : Instance} {request : Request}
    {o : Option (Except Panic (Except ApiError Nat))} (hfresh : Fresh before)
    (hrun : Exec node (putTls check inst request).run before o t) :
    (Meets inst request before o t ↔ (o ≠ some (.ok (.ok 204)) → Recovers o t)) ∧
      ∀ r, o = some (.ok r) → r ≠ .ok 204 → PutBack (tlsDir inst) before t := by
  have hwp := @wpe_putTls check before inst request ⟨rfl, hfresh.caddy, hfresh.selections, hfresh.loads⟩
  have hgood : Good (tlsDir inst) before t ∧ (o = some (.ok (.ok 204)) → ∃ pair, request.body = some pair ∧
      Serves inst.caddyAdmin (tlsDir inst) pair t) ∧ ∀ r, o = some (.ok r) → r ≠ .ok 204 →
        PutBack (tlsDir inst) before t := by
    match o, hrun with
    | none, hrun =>
      refine ⟨?_, nofun, nofun⟩
      rcases wp_stop hwp hrun with ⟨q, hgood⟩ | ⟨r, hpost⟩
      · exact hgood
      · cases r with
        | ok a => exact hpost.1
        | error e => exact hpost
    | some (.error e), hrun =>
      have hpost := wp_done hwp hrun
      exact ⟨hpost, nofun, nofun⟩
    | some (.ok r), hrun =>
      have hpost := wp_done hwp hrun
      refine ⟨hpost.1, fun hr => hpost.2.2 (Except.ok.inj (Option.some.inj hr)), fun r' hr hne => ?_⟩
      obtain rfl := Except.ok.inj (Option.some.inj hr)
      exact hpost.2.1 hne
  obtain ⟨hgood, hserves, hback⟩ := hgood
  refine ⟨⟨fun hmeets hne => ?_, fun hrecovers => ⟨hserves, fun hne => hgood.mpr ⟨?_, (hrecovers hne).2⟩⟩⟩,
    hback⟩
  · have hkept := hgood.mp (hmeets.2 hne)
    exact ⟨fun _ => hkept.1, hkept.2⟩
  · by_cases hcut : CutOff o
    · exact (hrecovers hne).1 hcut
    · -- a request that was answered has put the selection back
      obtain ⟨r, hr⟩ := not_forall_not.mp hcut
      obtain ⟨-, hnone | ⟨htwo, -⟩⟩ := hback r hr fun h204 => hne (h204 ▸ hr)
      · rw [hnone]
        decide
      · rw [htwo]
        decide

end

/-! ## A load that takes effect and is answered too late -/

def firstUuid : Uuid := ⟨"3f2b8c1e-5a4d-4e6f-8b7a-9c0d1e2f3a4b", by decide +kernel⟩

/-- Caddy's configuration with one managed pair. -/
def managed : Json :=
  .obj [("apps", .obj [("tls", .obj [("certificates", .obj [("load_files", .arr [.obj []])])])])]

/-- Every file step succeeds where it can; Caddy accepts what it is given, but its answer is lost. -/
def lateCaddy (w : TlsStore.World) : (q : Ask) → q.Answer × TlsStore.World
  | .metadata => (.ok .directory, w)
  | .createPrivateDirectory | .syncPrivateParent | .privateDirectoryMode | .syncPrivateDirectory =>
    (.ok (), w)
  | .currentMetadata => if w.current = none then (.error .notFound, w) else (.ok true, w)
  | .readLink =>
    match w.current with
    | some name => (.ok name, w)
    | none => (.error .notFound, w)
  | .readPair name _ =>
    match w.dirs name with
    | none => (.error .notFound, w)
    | some files =>
      match files "cert.pem", files "key.pem" with
      | some cert, some key => (.ok ⟨cert, key⟩, w)
      | _, _ => (.error .notFound, w)
  | .newUuid => (firstUuid, w)
  | .createGeneration name =>
    match w.dirs name with
    | none => (.ok (), { w with dirs := Function.update w.dirs name (some fun _ => none) })
    | some _ => (.error .notFound, w)
  | .createNew dir file =>
    match w.dirs dir with
    | some files => (.ok (), w.setFile dir files file [])
    | none => (.error .notFound, w)
  | .writeFile dir file text =>
    match w.dirs dir with
    | some files => (.ok (), w.setFile dir files file text)
    | none => (.error .notFound, w)
  | .syncFile .. | .syncGeneration _ | .syncPublishedGeneration | .syncSelector => (.ok (), w)
  | .publishGeneration staging name =>
    match w.dirs staging, w.dirs name with
    | some files, none =>
      (.ok (), { w with dirs := Function.update (Function.update w.dirs staging none) name (some files) })
    | _, _ => (.error .notFound, w)
  | .stageSelector target temporary => (.ok (), w.link temporary (some target))
  | .selectGeneration temporary => (.ok (), w.selected temporary)
  | .removeSelector => (.ok (), w.unselected)
  | .lock => ((), w)
  | .config => (.ok (some managed), { w with reads := (w.selections, some managed) :: w.reads })
  | .load config =>
    (.error "operation timed out",
      { w with
        caddy := some config, loads := w.selections :: w.loads, posts := (w.selections, config) :: w.posts })

theorem lateCaddy_next (w : TlsStore.World) (q : Ask) :
    node.next w q (lateCaddy w q).1 (lateCaddy w q).2 := by
  show answers w q (lateCaddy w q).1 (lateCaddy w q).2
  cases q with
  | currentMetadata =>
    simp only [lateCaddy]
    split
    next h => exact ⟨rfl, fun _ => h⟩
    next => exact ⟨rfl, nofun⟩
  | readLink =>
    simp only [lateCaddy]
    split
    next name h => exact ⟨rfl, fun _ hn => Except.ok.inj hn ▸ h⟩
    next => exact ⟨rfl, nofun⟩
  | readPair name selecting =>
    simp only [lateCaddy]
    split
    next h =>
      refine ⟨rfl, nofun, fun _ hheld => ?_⟩
      obtain ⟨_, _, hfiles, -⟩ := hheld
      rw [h] at hfiles
      cases hfiles
    next files h =>
      split
      next cert key hcert hkey =>
        refine ⟨rfl, fun pair hpair => ?_, fun _ _ => ⟨_, rfl⟩⟩
        obtain rfl := Except.ok.inj hpair
        exact ⟨files, h, hcert, hkey⟩
      next hnone =>
        refine ⟨rfl, nofun, fun _ hheld => ?_⟩
        obtain ⟨pair, files', hfiles, hcert, hkey⟩ := hheld
        obtain rfl := Option.some.inj (h.symm.trans hfiles)
        exact (hnone _ _ hcert hkey).elim
  | createGeneration name =>
    simp only [lateCaddy]
    split
    next h => exact Or.inr ⟨h, rfl⟩
    next => exact Or.inl ⟨_, rfl, rfl⟩
  | createNew dir file =>
    simp only [lateCaddy]
    split
    next files h => exact Or.inr ⟨files, h, rfl⟩
    next => exact Or.inl ⟨_, rfl, rfl⟩
  | writeFile dir file text =>
    simp only [lateCaddy]
    split
    next files h => exact Or.inr ⟨files, text, h, rfl, fun _ => rfl⟩
    next => exact Or.inl ⟨_, rfl, rfl⟩
  | publishGeneration staging name =>
    simp only [lateCaddy]
    split
    next files h hnone => exact Or.inr ⟨files, h, hnone, rfl⟩
    next => exact Or.inl ⟨_, rfl, rfl⟩
  | stageSelector target temporary => exact ⟨rfl, rfl⟩
  | selectGeneration temporary => exact ⟨rfl, rfl⟩
  | removeSelector => exact ⟨Or.inl rfl, rfl⟩
  | syncSelector => exact ⟨rfl, rfl⟩
  | load config => exact Or.inr rfl
  | _ => rfl

/-- Nothing is stored yet. -/
def noPair : TlsStore.World := ⟨fun _ => none, fun _ => none, none, 0, [], [], []⟩

def managing : Instance := ⟨some "/var/lib/hs", true⟩

def sampleRequest : Request := ⟨some "application/json", some ⟨"cert", "key"⟩⟩

def lateWorld : TlsStore.World :=
  (play lateCaddy (putTls (fun _ => .ok ()) managing sampleRequest).run noPair).2

def notAccepted : ApiError :=
  ⟨.validationFailed, "Caddy did not accept the certificate; the previous one is kept."⟩

theorem late_run : Exec node (putTls (fun _ => .ok ()) managing sampleRequest).run noPair
    (some (.ok (.error notAccepted))) lateWorld := by
  have hrun := exec_play (E := node) lateCaddy_next
    (putTls (fun _ => .ok ()) managing sampleRequest).run noPair
  have hresult : (play lateCaddy (putTls (fun _ => .ok ()) managing sampleRequest).run noPair).1 =
      .ok (.error notAccepted) := rfl
  rw [hresult] at hrun
  exact hrun

/-- A refused request leaves nothing selected, and Caddy has the files of the new generation. -/
theorem late_not_kept :
    ∃ w, Exec node (putTls (fun _ => .ok ()) managing sampleRequest).run noPair
      (some (.ok (.error notAccepted))) w ∧
      Fresh noPair ∧ ¬ Meets managing sampleRequest noPair (some (.ok (.error notAccepted))) w := by
  refine ⟨lateWorld, late_run, ⟨rfl, rfl, rfl, rfl, rfl⟩, fun hmeets => ?_⟩
  obtain ⟨-, hcaddy⟩ := hmeets.2 (by simp)
  have haccepted : lateWorld.caddy.isSome = true := by decide +kernel
  obtain ⟨config, hconfig⟩ := Option.isSome_iff_exists.mp haccepted
  obtain ⟨name, hname, -⟩ := hcaddy config hconfig
  cases hname

/-- A pair is stored and selected. -/
def onePair : TlsStore.World :=
  let name : Text := "generation-7c9e6679-7425-40de-944b-e07fc1f90ae7"
  ⟨Function.update (fun _ => none) name (some fun file => if file = "cert.pem" then some "old cert"
  else some "old key"),
    Function.update (fun _ => none) "current" (some name), none, 0, [], [], []⟩

def backWorld : TlsStore.World :=
  (play lateCaddy (putTls (fun _ => .ok ()) managing sampleRequest).run onePair).2

theorem back_run :
    Exec node (putTls (fun _ => .ok ()) managing sampleRequest).run onePair
      (some (.ok (.error notAccepted))) backWorld := by
  have hrun := exec_play (E := node) lateCaddy_next
    (putTls (fun _ => .ok ()) managing sampleRequest).run onePair
  have hresult : (play lateCaddy (putTls (fun _ => .ok ()) managing sampleRequest).run onePair).1 =
      .ok (.error notAccepted) := rfl
  rw [hresult] at hrun
  exact hrun

/-- Caddy accepts both loads without an answer: the request is refused, and the pair that was there is
served. -/
theorem putTls_meets_iff_back :
    Meets managing sampleRequest onePair (some (.ok (.error notAccepted))) backWorld ∧
      PutBack (tlsDir managing) onePair backWorld := by
  obtain ⟨hiff, hback⟩ := putTls_meets_iff ⟨rfl, rfl, rfl, rfl, rfl⟩ back_run
  refine ⟨hiff.mpr fun _ => ⟨fun hcut => absurd rfl (hcut _), fun _ => ?_⟩, hback _ rfl nofun⟩
  decide +kernel

end HomeStack.PutTls

import HomeStack.ConfigStore
import HomeStack.Lib.JsonPointer

/-! The TLS pairs of an instance (`hs-server`, `tls_store.rs`): complete immutable generations are
published, and one is selected with a single rename of `current`. Every file step is a question, as are
the requests to Caddy of the handler that uses the store. What makes a pair valid (PEM, X.509, matching
keys) is a parameter. -/

namespace HomeStack.TlsStore

open ConfigStore (IoError)

@[ext]
structure TlsPair where
  cert : Text
  key : Text
  deriving DecidableEq

structure Generation where
  dir : Text
  name : Text
  deriving DecidableEq

def Generation.path (g : Generation) (file : Text) : Text := g.dir ++ "/" ++ g.name ++ "/" ++ file

def lowerHex (c : Char) : Bool := c.isDigit || ('a' ≤ c && c ≤ 'f')

/-- A UUID as `Display` writes it. -/
def isUuid (text : Text) : Bool :=
  let parts := text.splitOn '-'
  parts.map List.length = [8, 4, 4, 4, 12] && parts.all fun part => part.all lowerHex

structure Uuid where
  text : Text
  canonical : isUuid text = true

def generationOf (id : Text) : Text := "generation-" ++ id

def generationName (name : Text) : Bool :=
  match ("generation-" : Text).isPrefixOf? name with
  | some id => isUuid id
  | none => false

/-- What `symlink_metadata` finds. -/
inductive Found
  | missing | directory | other
  deriving DecidableEq

/-- `StatusCode`: its number, and how it is shown. -/
structure Status where
  code : Nat
  shown : Text

def Status.isSuccess (status : Status) : Bool := 200 ≤ status.code && status.code < 300

/-- The file steps in the TLS directory, and what the handler waits for. -/
inductive Ask
  | metadata
  | createPrivateDirectory
  | syncPrivateParent
  | privateDirectoryMode
  | syncPrivateDirectory
  /-- Whether `current` is a symbolic link. -/
  | currentMetadata
  | readLink
  /-- Both files of a private generation; `selecting` in `select`. -/
  | readPair (name : Text) (selecting : Bool)
  | newUuid
  | createGeneration (name : Text)
  | createNew (dir file : Text)
  | writeFile (dir file text : Text)
  | syncFile (dir file : Text)
  | syncGeneration (name : Text)
  | publishGeneration (staging name : Text)
  | syncPublishedGeneration
  | stageSelector (target temporary : Text)
  | selectGeneration (temporary : Text)
  | removeSelector
  | syncSelector
  | lock
  /-- `GET /config/`, as far as its body is JSON. -/
  | config
  /-- `POST /load` -/
  | load (config : Json)

abbrev Ask.Answer : Ask → Type
  | .metadata => Except IoError Found
  | .currentMetadata => Except IoError Bool
  | .readLink => Except IoError Text
  | .readPair .. => Except IoError TlsPair
  | .newUuid => Uuid
  | .lock => Unit
  | .config => Except Text (Option Json)
  | .load _ => Except Text Status
  | _ => Except IoError Unit

abbrev Op := ExceptT IoError (Prog Ask Ask.Answer)

abbrev ask (q : Ask) : Op q.Answer := Prog.request q

def createPrivate : Op Unit := do
  Prog.ofExcept (← ask .createPrivateDirectory)
  Prog.ofExcept (← ask .syncPrivateParent)

def restrict : Op Unit := do
  Prog.ofExcept (← ask .privateDirectoryMode)
  Prog.ofExcept (← ask .syncPrivateDirectory)

def privateDirectory : Op Unit := do
  match ← Prog.ofExcept (← ask .metadata) with
  | .other => throw .invalidData
  | .directory => restrict
  | .missing => do
    createPrivate
    restrict

structure Rotation where
  previous : Option Generation
  active : Generation

section

variable (valid : TlsPair → Bool) (dir : Text)

def readGeneration (name : Text) (selecting : Bool) : Op TlsPair := do
  let pair ← Prog.ofExcept (← ask (.readPair name selecting))
  if !valid pair then throw .invalidData
  return pair

def selected : Op (Option Generation) := do
  match ← ask .currentMetadata with
  | .error .notFound => return none
  | .error e => throw e
  | .ok false => throw .invalidData
  | .ok true =>
    let name ← Prog.ofExcept (← ask .readLink)
    if !generationName name then throw .invalidData
    let _ ← readGeneration valid name false
    return some ⟨dir, name⟩

/-- One file of a generation. -/
def stageFile (staging file text : Text) : Op Unit := do
  Prog.ofExcept (← ask (.createNew staging file))
  Prog.ofExcept (← ask (.writeFile staging file text))
  Prog.ofExcept (← ask (.syncFile staging file))

def stage (pair : TlsPair) : Op Generation := do
  if !valid pair then throw .invalidData
  let id ← ask .newUuid
  let staging := ".staging-" ++ id.text
  Prog.ofExcept (← ask (.createGeneration staging))
  stageFile staging "key.pem" pair.key
  stageFile staging "cert.pem" pair.cert
  Prog.ofExcept (← ask (.syncGeneration staging))
  Prog.ofExcept (← ask (.publishGeneration staging (generationOf id.text)))
  Prog.ofExcept (← ask .syncPublishedGeneration)
  return ⟨dir, generationOf id.text⟩

def select (generation : Option Generation) : Op Unit := do
  match generation with
  | some generation =>
    if generation.dir ≠ dir || !generationName generation.name then throw .invalidData
    let _ ← readGeneration valid generation.name true
    let temporary := ".current-" ++ (← ask .newUuid).text
    Prog.ofExcept (← ask (.stageSelector generation.name temporary))
    Prog.ofExcept (← ask (.selectGeneration temporary))
  | none =>
    match ← ask .removeSelector with
    | .error .notFound => pure ()
    | r => Prog.ofExcept r
  Prog.ofExcept (← ask .syncSelector)

def rotate (pair : TlsPair) : Op Rotation := do
  privateDirectory
  let previous ← selected valid dir
  let active ← stage valid dir pair
  match ← Prog.attempt (select valid dir (some active)) with
  | .error e =>
    let _ ← Prog.attempt (select valid dir previous)
    throw e
  | .ok _ => return ⟨previous, active⟩

end

/-! ## The directory and Caddy -/

/-- The files of one generation. -/
abbrev Files := Text → Option Text

structure World where
  dirs : Text → Option Files
  links : Text → Option Text
  /-- The configuration that Caddy accepted last during the request. -/
  caddy : Option Json
  /-- How often the request has changed the selection. -/
  selections : Nat
  /-- The loads that Caddy accepted, each with the selections before it. -/
  loads : List Nat
  /-- What was read as Caddy's configuration, likewise. -/
  reads : List (Nat × Option Json)
  /-- What Caddy was asked to load, likewise. -/
  posts : List (Nat × Json)

namespace World

variable (w : World)

/-- What `current` names. -/
def current : Option Text := w.links "current"

def setFile (dir : Text) (files : Files) (file : Text) (text : Text) : World :=
  { w with dirs := Function.update w.dirs dir (some (Function.update files file (some text))) }

def link (name : Text) (target : Option Text) : World :=
  { w with links := Function.update w.links name target }

/-- The temporary link is renamed to `current`. -/
def selected (temporary : Text) : World :=
  { w with
    links := Function.update (Function.update w.links temporary none) "current" (w.links temporary)
    selections := w.selections + 1 }

def unselected : World :=
  { w with links := Function.update w.links "current" none, selections := w.selections + 1 }

/-- The directory holds exactly this pair under this name. -/
def Holds (name : Text) (pair : TlsPair) : Prop :=
  ∃ files, w.dirs name = some files ∧ files "cert.pem" = some pair.cert ∧ files "key.pem" = some pair.key

end World

theorem World.setFile_self (w : World) (dir : Text) (files : Files) (file text : Text) :
    (w.setFile dir files file text).dirs dir = some (Function.update files file (some text)) :=
      Function.update_self ..

theorem World.link_self (w : World) (name : Text) (target : Option Text) :
    (w.link name target).links name = target :=
  Function.update_self ..

theorem World.link_current (w : World) {name : Text} (target : Option Text) (h : name ≠ "current") :
    (w.link name target).current = w.current := Function.update_of_ne (Ne.symm h) ..

theorem World.selected_current (w : World) (temporary : Text) :
    (w.selected temporary).current = w.links temporary := by
  simp only [World.current, World.selected, Function.update_self]

theorem World.unselected_current (w : World) : w.unselected.current = none := by
  simp only [World.current, World.unselected, Function.update_self]

/-- A new generation has a name of its own. -/
theorem generationName_of (id : Uuid) : generationName (generationOf id.text) = true := by
  unfold generationName generationOf
  rw [Text.isPrefixOf?_append]
  exact id.canonical

theorem World.Holds.unique {w : World} {name : Text} {pair other : TlsPair} (h : w.Holds name pair)
    (h' : w.Holds name other) :
    pair = other := by
  obtain ⟨files, hfiles, hcert, hkey⟩ := h
  obtain ⟨files', hfiles', hcert', hkey'⟩ := h'
  obtain rfl := Option.some.inj (hfiles.symm.trans hfiles')
  exact TlsPair.ext (Option.some.inj (hcert.symm.trans hcert')) (Option.some.inj (hkey.symm.trans hkey'))

/-- What a question may be answered. The file steps of `select` succeed; any other may fail, and a write
that fails leaves a part. Caddy answers anything, but a success only for a load that it accepted. -/
def answers (w : World) : (q : Ask) → q.Answer → World → Prop
  | .readPair name selecting, r, t =>
    t = w ∧ (∀ pair, r = .ok pair → w.Holds name pair) ∧
      (selecting = true → (∃ pair, w.Holds name pair) → ∃ pair, r = .ok pair)
  | .readLink, r, t => t = w ∧ ∀ name, r = .ok name → w.current = some name
  | .currentMetadata, r, t =>
    t = w ∧ (r = .error .notFound → w.current = none)
  | .createGeneration name, r, t =>
    (∃ e, r = .error e ∧ t = w) ∨ w.dirs name = none ∧
      t = { w with dirs := Function.update w.dirs name (some fun _ => none) }
  | .createNew dir file, r, t =>
    (∃ e, r = .error e ∧ t = w) ∨ ∃ files, w.dirs dir = some files ∧ t = w.setFile dir files file []
  | .writeFile dir file text, r, t =>
    (∃ e, r = .error e ∧ t = w) ∨
      ∃ files part, w.dirs dir = some files ∧ t = w.setFile dir files file part ∧ (r = .ok () → part = text)
  | .publishGeneration staging name, r, t =>
    (∃ e, r = .error e ∧ t = w) ∨ ∃ files, w.dirs staging = some files ∧ w.dirs name = none ∧
      t = { w with dirs := Function.update (Function.update w.dirs staging none) name (some files) }
  | .stageSelector target temporary, r, t =>
    r = .ok () ∧ t = w.link temporary (some target)
  | .selectGeneration temporary, r, t => r = .ok () ∧ t = w.selected temporary
  | .removeSelector, r, t => (r = .ok () ∨ r = .error .notFound) ∧ t = w.unselected
  | .syncSelector, r, t => r = .ok () ∧ t = w
  | .config, r, t => t = { w with reads := (w.selections, r.toOption.bind id) :: w.reads }
  | .load config, r, t =>
    t = { w with posts := (w.selections, config) :: w.posts } ∧
      (∀ status, r = .ok status → ¬ status.isSuccess) ∨
      t = { w with
        caddy := some config, loads := w.selections :: w.loads, posts := (w.selections, config) :: w.posts }
  | .metadata, _, t | .createPrivateDirectory, _, t | .syncPrivateParent, _, t | .privateDirectoryMode, _, t
  | .syncPrivateDirectory, _, t | .newUuid, _, t | .syncFile .., _, t | .syncGeneration _, _, t
  | .syncPublishedGeneration, _, t | .lock, _, t => t = w

def node : Prog.Env Ask Ask.Answer World := ⟨answers⟩

end HomeStack.TlsStore

import HomeStack.Lib.Chars
import HomeStack.Lib.Codec
import HomeStack.Lib.Grouping
import HomeStack.Lib.Json

/-! The plan of a setup (`setup/plan.rs`, with the generated entries of
`setup/definitions.rs`): the selected entries and their generated children,
visited by phase and dependency, the entries of an application brought together,
and no two writes overlapping.

A TOML value the parser admits (no dates, finite numbers) is kept as the JSON
value of the same shape. What `source_item` finds on the desktop is a parameter. -/

namespace HomeStack.Setup

/-! ## Definitions -/

structure AppError where
  message : Text
  deriving DecidableEq

/-- Python's `repr()` of a string. -/
def pyRepr (text : Text) : Text :=
  let quote := if '\'' ∈ text ∧ '"' ∉ text then '"' else '\''
  let escape (c : Char) : Text :=
    if c = '\\' then "\\\\"
    else if c = '\n' then "\\n"
    else if c = '\r' then "\\r"
    else if c = '\t' then "\\t"
    else if c = quote then ['\\', c]
    else if Text.isControl c then ['\\', 'x', Nat.digitChar (c.toNat / 16), Nat.digitChar (c.toNat % 16)]
    else [c]
  quote :: text.flatMap escape ++ [quote]

/-- What a document says at a configured path. -/
inductive LeafState
  | matching
  | different
  | missing
  deriving DecidableEq

structure Validation where
  command : Text
  kind : Text
  path : List Text
  accepted : List Text
  deriving DecidableEq

abbrev Table := List (Text × Json)

/-- One structured configuration document of an application. -/
structure ConfigFile where
  id : Text
  path : Text
  format : Text
  values : Table
  deriving DecidableEq

structure Application where
  command : Text
  interpreter : Text
  interaction : Text
  prerequisites : List Text
  check : Text
  prerequisiteChecks : List Text
  nonInteractive : Text
  binDirs : List Text
  requiresAbsent : List Text
  backupPaths : List Text
  files : List Text
  configFiles : List ConfigFile
  validation : Option Validation
  deriving DecidableEq

inductive Params
  /-- A desktop file or directory; `application` is set for a file an
  application declares. -/
  | file (path : Text) (application : Option Text)
  | environment (profile : Text)
  | exports (exports : List Text)
  | application (application : Application)
  | repository (repository : Text)
  | unavailable
  | herdr
  /-- One managed leaf of an application's configuration document. -/
  | structured (application : Text) (config : ConfigFile) (key : List Text) (value : Json)
  deriving DecidableEq

structure Entry where
  id : Text
  group : Text
  handler : Text
  label : Text
  description : Text
  params : Params
  dependsOn : List Text
  deriving DecidableEq

def Entry.application (entry : Entry) : Option Application :=
  match entry.params with
  | .application application => some application
  | _ => none

/-- `[a-z][a-z0-9_-]*` -/
def setupId : Text → Bool
  | [] => false
  | c :: cs => c.isLower && cs.all fun c => c.isLower || c.isDigit || c = '_' || c = '-'

/-! ## Generated entries -/

/-- A JSON-pointer segment. -/
def pointerEscape (value : Text) : Text :=
  (value.flatMap fun c => if c = '~' then "~0" else [c]).flatMap fun c => if c = '/' then "~1" else [c]

def hexUpper (b : UInt8) : Text :=
  [(Nat.digitChar (b.toNat / 16)).toUpper, (Nat.digitChar (b.toNat % 16)).toUpper]

/-- `urllib.parse.quote` -/
def selectorEscape (value : Text) : Text :=
  (Text.utf8 value).flatMap fun b =>
    let c := Char.ofNat b.toNat
    if b < 128 ∧ (c.isAlphanum ∨ c ∈ ("~./-_" : Text)) then [c] else '%' :: hexUpper b

/-- The stable ID of a generated structured leaf entry. -/
def configEntryId (application config : Text) (key : List Text) : Text :=
  application ++ ":" ++ config ++ ":/" ++
    List.intercalate "/".toList (key.map fun segment => selectorEscape (pointerEscape segment))

/-- The stable ID of a generated application file copy. -/
def appFileEntryId (application path : Text) : Text := application ++ ":file:" ++ selectorEscape path

/-- One file-copy entry per file an application declares. -/
def appFileEntries (entry : Entry) : List Entry :=
  match entry.application with
  | none => []
  | some application =>
    application.files.map fun path =>
      { id := appFileEntryId entry.id path
        group := entry.group
        handler := "file"
        label := path
        description := "Copy " ++ path ++ " from the trusted desktop."
        params := .file path (some entry.id)
        dependsOn := [] }

/-- The leaves of a table below `path`. -/
def leafPaths (path : List Text) : Table → List (List Text × Json)
  | [] => []
  | (key, .obj table) :: rest => leafPaths (path ++ [key]) table ++ leafPaths path rest
  | (key, value) :: rest => (path ++ [key], value) :: leafPaths path rest

/-- One entry per managed leaf of an application's configuration files. -/
def configEntries (entry : Entry) : List Entry :=
  match entry.application with
  | none => []
  | some application =>
    application.configFiles.flatMap fun config =>
      (leafPaths [] config.values).map fun (key, value) =>
        { id := configEntryId entry.id config.id key
          group := entry.group
          handler := "structured"
          label := key.getLast?.getD []
          description := "Set " ++ config.path ++ " " ++ List.intercalate ".".toList key
          params := .structured entry.id config key value
          dependsOn := [] }

/-- Every generated child of an application: managed values, then files. -/
def applicationChildren (entry : Entry) : List Entry := configEntries entry ++ appFileEntries entry

/-! ## Order -/

def handlerOrder (handler : Text) : Nat :=
  if handler = "environment" then 0
  else if handler = "file" then 1
  else if handler = "application" ∨ handler = "herdr" then 2
  else if handler = "structured" then 3
  else if handler = "repository" then 4
  else 5

def credentialsGroup : Text := "cred"

/-- The phase an entry runs in. -/
def executionOrder (entry : Entry) : Nat :=
  if entry.group = credentialsGroup then 6 else handlerOrder entry.handler

/-- Replace the entry of the same ID, or append. -/
def put (entry : Entry) : List Entry → List Entry
  | [] => [entry]
  | known :: rest => if known.id = entry.id then entry :: rest else known :: put entry rest

/-- The selected entries with every application's generated children. -/
def expandConfigEntries (entries : List Entry) : List Entry :=
  entries.foldl (fun expanded entry => (applicationChildren entry).foldl (fun l e => put e l)
    (put entry expanded)) []

/-- The application a generated child belongs to, else the entry itself. -/
def ownerOf (entry : Entry) : Text :=
  match entry.params with
  | .structured application _ _ _ => application
  | .file _ (some application) => if application ≠ [] then application else entry.id
  | _ => entry.id

/-- Each application's installer, values and files together. -/
def applicationUnits (entries : List Entry) : List (Text × List Entry) := Grouping.units ownerOf entries

/-- `selected.iter().find(|known| known.id == id)` -/
def findId (selected : List Entry) (id : Text) : Option Entry := selected.find? fun known => known.id = id

/-- The ordered entries and the IDs being visited. -/
abbrev Visiting := List Entry × List Text

/-- `none` is a visit without fuel. -/
abbrev Visit := ExceptT AppError Option

/-- The loop over `depends_on`. -/
def visitEach (go : Entry → Visiting → Visit Visiting) (selected : List Entry) (id : Text) :
    List Text → Visiting → Visit Visiting
  | [], state => pure state
  | dependency :: rest, state =>
    match findId selected dependency with
    | none =>
      throw ⟨id ++ " requires explicit selection of " ++ dependency ++ "; no actions were added"⟩
    | some required => do
      let state ← go required state
      visitEach go selected id rest state

/-- The application of a generated child goes first, when it is selected. -/
def visitOwner (go : Entry → Visiting → Visit Visiting) (selected : List Entry) (entry : Entry)
    (state : Visiting) : Visit Visiting :=
  match if ownerOf entry ≠ entry.id then findId selected (ownerOf entry) else none with
  | some application => go application state
  | none => pure state

def visit (selected : List Entry) : Nat → Entry → Visiting → Visit Visiting
  | 0, _, _ => ExceptT.mk none
  | fuel + 1, entry, (ordered, visiting) =>
    if entry ∈ ordered then pure (ordered, visiting)
    else if entry.id ∈ visiting then throw ⟨"Selected setup dependencies form a cycle"⟩
    else do
      let state ← visitOwner (visit selected fuel) selected entry (ordered, visiting ++ [entry.id])
      let state ← visitEach (visit selected fuel) selected entry.id entry.dependsOn state
      pure (state.1 ++ [entry], state.2.filter fun id => id ≠ entry.id)

/-! ## Writes -/

structure Settings where
  user : Text
  uid : Nat
  gid : Nat
  /-- `repo.checkout_root` -/
  checkoutRoot : Text

def Settings.guestHome (settings : Settings) : Text := "/home/" ++ settings.user

structure Target where
  vmid : Nat
  name : Text
  node : Text
  status : Text
  alien : Bool
  ip : Text
  user : Text
  home : Text
  isLocal : Bool
  deriving DecidableEq

structure Plan where
  target : Target
  entries : List Entry
  catalogId : Option Text
  unattended : Bool
  deriving DecidableEq

/-- A GitHub account name. -/
def githubOwner (text : Text) : Bool :=
  let alnum (c : Char) : Bool := c.isAlphanum
  match text with
  | [] => false
  | [only] => alnum only
  | first :: rest =>
    let middle := rest.dropLast
    alnum first && (rest.getLast?).any alnum && middle.length ≤ 38 && middle.all fun c => alnum c || c = '-'

/-- `validate_repository_spec`: `OWNER/REPO`, trimmed, here as its two parts. -/
def repository (value : Text) : Except AppError (Text × Text) :=
  let invalid : AppError := ⟨"Invalid GitHub repository " ++ pyRepr value ++ "; expected OWNER/REPO"⟩
  match Text.splitOnce "/" (Text.trim value) with
  | none => .error invalid
  | some (owner, name) =>
    if !githubOwner owner || name = [] || 100 < name.length ||
        !(name.all fun c => c.isAlphanum || c ∈ ("_.-" : Text)) then .error invalid
    else if name = "." ∨ name = ".." then .error ⟨"Invalid GitHub repository name: " ++ pyRepr name⟩
    else .ok (owner, name)

/-- `PurePosixPath`'s spelling: no empty or `.` parts. -/
def normalized (path : Text) : Text :=
  "/" ++ List.intercalate "/".toList ((path.splitOn '/').filter fun part => part ≠ [] ∧ part ≠ ".")

/-- `trim_end_matches('/')` -/
def trimSlashes (text : Text) : Text := text.rdropWhile (· = '/')

/-- The checkout, the private and the public deploy key. -/
def repositoryPaths (settings : Settings) (name : Text) : Except AppError (List Text) :=
  (repository name).map fun (owner, project) =>
    let home := settings.guestHome
    let root := trimSlashes (settings.checkoutRoot.drop 2)
    let checkout := normalized (home ++ "/" ++ root ++ "/" ++ project)
    let key := home ++ "/.ssh/homestack/github/" ++ owner ++ "-" ++ project
    [checkout, key, key ++ ".pub"]

/-- The home paths an entry writes, relative to the home. Paths of entries start
with `~/`. -/
def writePaths (settings : Settings) (entry : Entry) : List Text :=
  match entry.params with
  | .structured _ config _ _ => [config.path.drop 2]
  | .file path _ => [trimSlashes (path.drop 2)]
  | .exports _ => [".bashrc"]
  | .environment profile =>
    if profile = "bash" then [".bashrc", ".profile", ".bash_profile", ".bash_login"]
    else if profile = "zsh" then [".zshenv", ".zshrc"]
    else if profile = "fish" then [".config/fish/conf.d/homestack.fish"]
    else [".config/nushell/env.nu", ".config/nushell/config.nu"]
  | .unavailable => []
  | .herdr => [".config/systemd/user/herdr.service"]
  | .repository repository =>
    match repositoryPaths settings repository with
    | .error _ => []
    | .ok paths => paths.map fun path => ((settings.guestHome ++ "/" : Text).isPrefixOf? path).getD path
  | .application _ => []

/-- Equal, or one below the other. -/
def Overlap (path previous : Text) : Prop :=
  path = previous ∨ previous ++ ['/'] <+: path ∨ path ++ ['/'] <+: previous

instance (path previous : Text) : Decidable (Overlap path previous) := inferInstanceAs (Decidable (_ ∨ _ ∨ _))

/-- Leaves of one application's same document. -/
def SharedDocument (entry other : Entry) : Prop :=
  match entry.params, other.params with
  | .structured a c _ _, .structured b d _ _ => a = b ∧ c = d
  | _, _ => False

/-- Bash writes the profile; exports update only their keys in it. -/
def BashExports (entry other : Entry) : Prop :=
  match entry.params, other.params with
  | .environment profile, .exports _ => profile = "bash"
  | .exports _, .environment profile => profile = "bash"
  | _, _ => False

instance (entry other : Entry) : Decidable (SharedDocument entry other) := by
  unfold SharedDocument
  split <;> infer_instance

instance (entry other : Entry) : Decidable (BashExports entry other) := by
  unfold BashExports
  split <;> infer_instance

/-- A write at a path that another entry writes is allowed. -/
def Allowed (path : Text) (entry : Entry) (previous : Text) (other : Entry) : Prop :=
  path = previous ∧ SharedDocument entry other ∨ path = ".bashrc" ∧ path = previous ∧ BashExports entry other

instance (path : Text) (entry : Entry) (previous : Text) (other : Entry) :
    Decidable (Allowed path entry previous other) := inferInstanceAs (Decidable (_ ∨ _))

abbrev Writes := List (Text × Entry)

def checkWrite (entry : Entry) (writes : Writes) (path : Text) : Except AppError Writes := do
  writes.forM fun (previous, other) =>
    if Overlap path previous ∧ ¬Allowed path entry previous other then
      throw ⟨"Overlapping selected writes: " ++ other.id ++ " and " ++ entry.id ++ " at ~/" ++ path⟩
    else pure ()
  pure (writes ++ [(path, entry)])

section Build

variable (sourceItem : Entry → Except AppError Unit)

/-- The checks of one planned entry, with the writes before it. -/
def checkEntry (settings : Settings) (unattended : Bool) (writes : Writes) (entry : Entry) :
    Except AppError Writes := do
  match entry.params with
  | .application p =>
    if unattended ∧ p.interaction = "interactive" ∧ p.nonInteractive = [] then
      throw ⟨entry.id ++
        " requires an interactive terminal; configure a verified non_interactive recipe or omit it"⟩
  | .file _ _ => sourceItem entry
  | _ => pure ()
  (writePaths settings entry).foldlM (checkWrite entry) writes

/-- One entry per ID, the last one given. -/
def selectedOf (entries : List Entry) : List Entry := entries.foldl (fun l e => put e l) []

/-- `sort_by_key(execution_order)`, a stable sort. -/
def sorted (selected : List Entry) : List Entry :=
  selected.insertionSort fun a b => executionOrder a ≤ executionOrder b

/-- The visits of all selected entries, phase by phase. -/
def orderedOf (selected : List Entry) (fuel : Nat) : Visit Visiting :=
  (sorted selected).foldlM (fun state entry => visit selected fuel entry state) ([], [])

/-- The part of `build_plan` after its first checks; `none` without fuel. -/
def orderPlan (settings : Settings) (entries : List Entry) (unattended : Bool) (fuel : Nat) :
    Visit (List Entry) := do
  let selected := selectedOf entries
  let (ordered, _) ← orderedOf selected fuel
  let ordered := (applicationUnits ordered).flatMap Prod.snd
  let _ ← ExceptT.mk (some (ordered.foldlM (checkEntry sourceItem settings unattended) []))
  pure ordered

end Build

end HomeStack.Setup

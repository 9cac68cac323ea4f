import HomeStack.Documents
import HomeStack.Keys
import HomeStack.Lib.JsonRender
import HomeStack.ServiceInstance

/-! The inputs of an application and their delivery (`services/schema3.rs`): what a contract
must declare, and the environment that its values resolve to. -/

namespace HomeStack.Schema3

/-! ## Contracts -/

inductive Kind
  | string
  | integer
  | number
  | boolean
  | url
  | enum
  | secret
  | key
  deriving DecidableEq

inductive Target
  | environment (name : Text)
  | configJsonPointer (pointer : Text)
  deriving DecidableEq

/-- `serde_json::Number`; a float is the fraction it stands for. -/
inductive Number
  | int (n : Int)
  | float (num : Int) (den : Nat)
  deriving DecidableEq

structure Input where
  id : Text
  label : Text
  description : Text
  kind : Kind
  required : Bool
  default : Option Json
  min : Option Number
  max : Option Number
  minLength : Option Nat
  maxLength : Option Nat
  regex : Option Text
  choices : List Text
  allowedSchemes : List Text
  target : Target

structure Delivery where
  kind : Text
  name : Text

/-- The document is a `serde_json::Value`, whose objects are maps. -/
structure Configuration where
  delivery : Delivery
  document : Json
  keysOnce : document.KeysOnce

structure Contract where
  inputs : List Input
  devices : ServiceInstance.Devices
  configuration : Option Configuration

/-- What the parser of URLs says about one. -/
structure Url where
  scheme : Text
  host : Option Text
  username : Text
  password : Option Text
  fragment : Option Text

/-- The crates that read patterns and URLs. -/
structure Crates where
  regex : Text → Option (Text → Bool)
  url : Text → Option Url

/-! ## Numbers -/

/-- An integer as the nearest `f64`, of two the even one. -/
def toF64 (n : Int) : ℚ :=
  let m := n.natAbs
  let shift := m.log2 + 1 - 53
  let quotient := m / 2 ^ shift
  let rest := 2 * (m % 2 ^ shift)
  let rounded := if 2 ^ shift < rest ∨ (rest = 2 ^ shift ∧ quotient % 2 = 1) then quotient + 1 else quotient
  n.sign * (rounded * 2 ^ shift : Nat)

namespace Number

/-- `as_i64` or else `as_u64` -/
def integer : Number → Option Int
  | .int n => if -2 ^ 63 ≤ n ∧ n < 2 ^ 64 then some n else none
  | .float _ _ => none

def asF64 : Number → ℚ
  | .int n => toF64 n
  | .float num den => num / den

end Number

def asNumber : Json → Option Number
  | .int n => some (.int n)
  | .dec num den _ => some (.float num den)
  | _ => none

/-! ## Names -/

def isAlpha (c : Char) : Bool := Text.isLower c || ('A' ≤ c && c ≤ 'Z')

def identifier (text : Text) : Bool :=
  text ≠ [] && text.utf8.length ≤ 64 && text.all
    (fun c => Text.isLower c || c.isDigit || c = '_' || c = '-') &&
    text.head?.any Text.isLower

def environmentName (text : Text) : Bool :=
  text ≠ [] && text.utf8.length ≤ 128 && text.head?.any (fun c => isAlpha c || c = '_') &&
    text.all fun c => isAlpha c || c.isDigit || c = '_'

def secretName (key : Text) : Bool :=
  ["TOKEN", "SECRET", "PASSWORD", "PASSWD", "KEY", "CREDENTIAL"].any fun word => Text.contains word key

/-- What services accept as a key. -/
def isKey (text : Text) : Bool :=
  32 ≤ text.utf8.length && text.utf8.length ≤ 256 && text.all fun c =>
    isAlpha c || c.isDigit || c = '-' || c = '_'

/-! ## Values of an input -/

namespace Input

variable (input : Input)

/-- The variable that an input is delivered as. -/
def environmentVariable : Option Text :=
  match input.target with
  | .environment name => some name
  | .configJsonPointer _ => none

def fail {α : Type} (message : Text) : Except Text α := .error (input.id ++ ": " ++ message)

def failIf (p : Prop) [Decidable p] (message : Text) : Except Text Unit :=
  if p then input.fail message else .ok ()

/-- The value is of the input's kind. -/
def checkKind (value : Json) : Except Text Unit :=
  match input.kind with
  | .integer => if ((asNumber value).bind Number.integer).isSome then .ok ()
    else input.fail "expected an integer"
  | .number => if (asNumber value).isSome then .ok () else input.fail "expected a finite number"
  | .boolean =>
    match value with
    | .bool _ => .ok ()
    | _ => input.fail "expected true or false"
  | _ => if value.asStr.isSome then .ok () else input.fail "expected a string"

/-- Integers are compared exactly, any other number as an `f64`. -/
def outside (value : Json) : Bool :=
  if input.kind = .integer then
    ((asNumber value).bind Number.integer).any fun number =>
      (input.min.bind Number.integer).any (number < ·) || (input.max.bind Number.integer).any (· < number)
  else
    (asNumber value).any fun number =>
      input.min.any (number.asF64 < ·.asF64) || input.max.any (·.asF64 < number.asF64)

def urlAllowed (url : Url) : Bool :=
  url.host.isSome && url.username = [] && url.password.isNone && url.fragment.isNone &&
    input.allowedSchemes.contains url.scheme

variable (X : Crates)

def checkRegex (text : Text) : Except Text Unit :=
  match input.regex with
  | none => .ok ()
  | some pattern =>
    match X.regex pattern with
    | none => input.fail "invalid regex"
    | some isMatch =>
      if isMatch text then .ok ()
      else if input.description = [] then input.fail "does not match the declared format"
      else input.fail ("does not match the expected format. " ++ input.description)

def checkUrl (text : Text) : Except Text Unit :=
  if input.kind ≠ .url then .ok ()
  else
    match X.url text with
    | none => input.fail "expected an absolute URL"
    | some url =>
      if input.urlAllowed url then .ok ()
      else input.fail "URL requires an allowed scheme and host, without credentials or fragment"

def checkText (text : Text) : Except Text Unit := do
  input.failIf (text.any Text.isControl) "control characters are forbidden"
  input.failIf ((input.required && text = []) || input.minLength.any (text.length < ·) ||
    input.maxLength.any (· < text.length))
    "outside the declared length bounds"
  input.failIf (input.kind = .key ∧ !isKey text) "expected a generated access key; generate one"
  input.failIf (input.kind = .enum ∧ !input.choices.contains text) "choose a declared value"
  input.checkRegex X text
  input.checkUrl X text

def validateValue (value : Json) : Except Text Unit := do
  input.checkKind value
  input.failIf (input.outside value) "outside the declared min/max bounds"
  match value.asStr with
  | none => .ok ()
  | some text => input.checkText X text

/-! ## The declaration of an input -/

def declarationFail {α : Type} (message : Text) : Except Text α :=
  .error ("inputs." ++ input.id ++ ": " ++ message)

def declarationFailIf (p : Prop) [Decidable p] (message : Text) : Except Text Unit :=
  if p then input.declarationFail message else .ok ()

/-- The checks of `Contract::validate` that read one input only. -/
def checkDeclaration : Except Text Unit := do
  input.declarationFailIf (input.label = [] ∨ input.label.any Text.isControl ∨
    input.description.any Text.isControl)
    "label/description must be printable and label nonempty"
  input.declarationFailIf (input.kind = .integer ∧
    (input.min.any (·.integer.isNone) ∨ input.max.any (·.integer.isNone)))
    "integer bounds must be integers"
  input.declarationFailIf ((input.min.any fun a => input.max.any fun b => b.asF64 < a.asF64) ∨
      (input.minLength.any fun a => input.maxLength.any fun b => b < a))
    "inverted bounds"
  input.declarationFailIf ((input.min.isSome ∨ input.max.isSome) ∧
    ¬ (input.kind = .integer ∨ input.kind = .number))
    "numeric bounds require integer or number"
  input.declarationFailIf ((input.regex.isSome ∨ input.minLength.isSome ∨ input.maxLength.isSome) ∧
      (input.kind = .integer ∨ input.kind = .number ∨ input.kind = .boolean))
    "text constraints require a text field"
  input.declarationFailIf (input.kind = .enum ∧ (input.choices = [] ∨ ¬ input.choices.Nodup))
    "enum choices must be nonempty and unique"
  input.declarationFailIf (input.kind ≠ .enum ∧ input.choices ≠ []) "choices require enum"
  input.declarationFailIf (input.kind = .url ∧ (input.allowedSchemes = [] ∨
      input.allowedSchemes.any fun scheme => !(["http", "https"] : List Text).contains scheme))
    "URL schemes must explicitly select http and/or https"
  input.declarationFailIf (input.kind ≠ .url ∧ input.allowedSchemes ≠ []) "allowed_schemes requires url"
  input.declarationFailIf (input.regex.any fun pattern => (X.regex pattern).isNone) "invalid regex"
  input.declarationFailIf (input.kind = .key ∧
      (!input.required ∨ input.regex.isSome ∨ input.minLength.isSome ∨
      input.maxLength.isSome ∨ input.environmentVariable.isNone))
    "a key is required, without text constraints, and targets an environment variable"
  match input.default with
  | none => .ok ()
  | some value =>
    input.declarationFailIf (input.kind = .secret ∨ input.kind = .key) "secret and key defaults are forbidden"
    input.validateValue X value

end Input

/-! ## Checking and resolving a contract -/

namespace Contract

variable (X : Crates) (c : Contract)

/-- Each token of a pointer in its one spelling. -/
def canonical (pointer : Text) : Text :=
  (Json.tokens pointer).flatMap fun part => '/' :: Text.replace "/" "~1" (Text.replace "~" "~0" part)

/-- Where an input is delivered, as it is compared with the others. -/
def targetOf (input : Input) : Except Text Text :=
  match input.target with
  | .environment name =>
    if !environmentName name || (secretName (name.map Char.toUpper) &&
      !(input.kind = .secret || input.kind = .key)) then
      input.declarationFail "invalid environment variable"
    else .ok ("env:" ++ name)
  | .configJsonPointer pointer =>
    if !Text.startsWith "/" pointer ||
        ((pointer.splitOn '~').drop 1).any (fun s => !(s.head? = some '0' || s.head? = some '1')) then
      input.declarationFail "invalid RFC 6901 pointer"
    else
      match c.configuration.bind fun config => config.document.pointer pointer with
      | none => input.declarationFail "target must resolve to an existing configuration leaf"
      | some leaf =>
        if !leaf.isLeaf then input.declarationFail "target must be a leaf"
        else .ok ("config:" ++ canonical pointer)

/-- One input of `validate`, with the ids and targets of those before it. -/
def validateInput (seen : List Text × List Text) (input : Input) : Except Text (List Text × List Text) := do
  input.declarationFailIf (!identifier input.id || seen.1.contains input.id) "invalid or duplicate ID"
  input.checkDeclaration X
  let target ← c.targetOf input
  input.declarationFailIf (seen.2.contains target) "duplicate target"
  .ok (input.id :: seen.1, target :: seen.2)

/-- The target that the document itself takes. -/
def deliveryTarget : Except Text (List Text) :=
  match c.configuration with
  | none => .ok []
  | some config =>
    if config.delivery.kind ≠ "environment-json" || !environmentName config.delivery.name then
      .error "runtime.configuration.delivery: expected environment-json and a valid variable"
    else .ok ["env:" ++ config.delivery.name]

def checkDevices : Except Text Unit :=
  match ServiceInstance.Devices.validate c.devices with
  | .ok () => .ok ()
  | .error e => .error ("runtime.devices: " ++ e)

def checkCount : Except Text Unit :=
  if 64 < c.inputs.length then .error "inputs.inputs: at most 64 fields" else .ok ()

def validate : Except Text Unit := do
  c.checkDevices
  c.checkCount
  let targets ← c.deliveryTarget
  let _ ← c.inputs.foldlM (validateInput X c) ([], targets)
  .ok ()

def ownsEnvironment (key : Text) : Bool :=
  (c.inputs.any fun input => input.environmentVariable = some key) ||
    c.configuration.any (·.delivery.name = key)

end Contract

/-- The value of an input, or its default. -/
def valueOf (values : List (Text × Json)) (input : Input) : Option Json :=
  (Json.lookup input.id values).or input.default

def display (value : Json) : Text := value.asStr.getD value.render

abbrev Environment := List (Text × Text)

/-- One input of `resolve`. -/
def resolveInput (X : Crates) (values : List (Text × Json))
    (state : Environment × Option Json) (input : Input) :
    Except Text (Environment × Option Json) := do
  input.failIf (input.kind = .secret) "protected secret delivery is unavailable"
  match valueOf values input with
  | none => if input.required then input.fail "required" else .ok state
  | some value =>
    input.validateValue X value
    match input.target with
    | .environment name => .ok (state.1 ++ [(name, display value)], state.2)
    | .configJsonPointer pointer =>
      match state.2.bind fun document => document.setPointer pointer value with
      | none => .error "Configuration target disappeared"
      | some document => .ok (state.1, some document)

mutual

def unresolved : Json → Bool
  | .null => true
  | .arr items => unresolvedItems items
  | .obj entries => unresolvedEntries entries
  | _ => false

def unresolvedItems : List Json → Bool
  | [] => false
  | v :: vs => unresolved v || unresolvedItems vs

def unresolvedEntries : List (Text × Json) → Bool
  | [] => false
  | (_, v) :: es => unresolved v || unresolvedEntries es

end

/-- The names are checked with those before them. -/
def checkNames : List Text → Environment → Except Text Unit
  | _, [] => .ok ()
  | seen, (key, value) :: rest =>
    if !environmentName key || seen.contains key || value.any Text.isControl then
      .error "Runtime environment contains invalid names, duplicate entries or control characters"
    else checkNames (key :: seen) rest

def validateEnvironment (values : Environment) : Except Text Unit := do
  checkNames [] values
  if 64 * 1024 < (values.map fun e => e.1.utf8.length + e.2.utf8.length + 2).sum then
    .error "Runtime environment exceeds 64 KiB"
  else .ok ()

/-- The inputs' entries, and the document after them. -/
def withDocument (configuration : Option Configuration) (state : Environment × Option Json) :
    Except Text Environment :=
  match state.2, configuration with
  | some document, some config =>
    if unresolved document then .error "runtime.configuration.document: unresolved null leaf"
    else .ok (state.1 ++ [(config.delivery.name, document.render)])
  | _, _ => .ok state.1

/-- Every value is of an input that is declared. -/
def Contract.checkIds (c : Contract) (values : List (Text × Json)) : Except Text Unit :=
  match (values.map Prod.fst).find? fun id => !c.inputs.any (·.id = id) with
  | some id => .error ("Application configuration has " ++ id ++
      ", which the manifest no longer declares; set it again under Application configuration")
  | none => .ok ()

def Contract.resolve (X : Crates) (c : Contract) (values : List (Text × Json)) : Except Text Environment := do
  c.validate X
  c.checkIds values
  let state ← c.inputs.foldlM (resolveInput X values) ([], c.configuration.map (·.document))
  let environment ← withDocument c.configuration state
  validateEnvironment environment
  .ok environment

/-! ## What a checked contract says about its targets -/

section

variable {X : Crates} {c : Contract}

/-- Two inputs have different ids and are delivered to different places. -/
def Contract.Differ (c : Contract) (a b : Input) : Prop :=
  a.id ≠ b.id ∧ ∀ t, c.targetOf a = .ok t → c.targetOf b ≠ .ok t

theorem validateInput_ok {seen seen' : List Text × List Text} {input : Input}
    (h : c.validateInput X seen input = .ok seen') :
    input.id ∉ seen.1 ∧ ∃ target, c.targetOf input = .ok target ∧ target ∉ seen.2 ∧
      seen' = (input.id :: seen.1, target :: seen.2) := by
  unfold Contract.validateInput at h
  obtain ⟨_, hid, h⟩ := Except.bind_ok h
  obtain ⟨-, -, h⟩ := Except.bind_ok h
  obtain ⟨target, htarget, h⟩ := Except.bind_ok h
  obtain ⟨_, hnew, h⟩ := Except.bind_ok h
  cases h
  refine ⟨?_, target, htarget, ?_, rfl⟩
  · intro hmem
    simp [hmem, Input.declarationFailIf, Input.declarationFail] at hid
  · intro hmem
    simp [hmem, Input.declarationFailIf, Input.declarationFail] at hnew

/-- The inputs of a checked contract have their places, pairwise different. -/
theorem validate_ok (h : c.validate X = .ok ()) :
    (∀ input ∈ c.inputs, ∃ target, c.targetOf input = .ok target) ∧ c.inputs.Pairwise c.Differ := by
  unfold Contract.validate at h
  obtain ⟨-, -, h⟩ := Except.bind_ok h
  obtain ⟨-, -, h⟩ := Except.bind_ok h
  obtain ⟨targets, -, h⟩ := Except.bind_ok h
  obtain ⟨seen, hloop, -⟩ := Except.bind_ok h
  -- what is seen holds the ids and targets of the inputs done
  have hall : (∀ input ∈ c.inputs, input.id ∈ seen.1 ∧ ∃ target ∈ seen.2, c.targetOf input = .ok target) ∧
      c.inputs.Pairwise c.Differ := by
    refine Except.foldlM_ok (I := fun done seen =>
      (∀ input ∈ done, input.id ∈ seen.1 ∧ ∃ target ∈ seen.2, c.targetOf input = .ok target) ∧
        done.Pairwise c.Differ) ?_ ⟨by simp, List.Pairwise.nil⟩ hloop
    rintro done input seen seen' ⟨hdone, hpair⟩ hstep
    obtain ⟨hid, target, htarget, hnew, rfl⟩ := validateInput_ok hstep
    refine ⟨?_, List.pairwise_append.mpr ⟨hpair, List.pairwise_singleton _ _, ?_⟩⟩
    · intro other hother
      rcases List.mem_append.mp hother with hother | hother
      · obtain ⟨hother, t, ht, htarget'⟩ := hdone other hother
        exact ⟨List.mem_cons_of_mem _ hother, t, List.mem_cons_of_mem _ ht, htarget'⟩
      · rw [List.mem_singleton] at hother
        subst hother
        exact ⟨by simp, target, by simp, htarget⟩
    · intro other hother input' hinput'
      rw [List.mem_singleton] at hinput'
      subst hinput'
      obtain ⟨hmem, t, ht, htarget'⟩ := hdone other hother
      refine ⟨fun heq => hid (heq ▸ hmem), fun t' ht' hsame => hnew ?_⟩
      obtain rfl : t = t' := Except.ok.inj (htarget'.symm.trans ht')
      obtain rfl : target = t := Except.ok.inj (htarget.symm.trans hsame)
      exact ht
  exact ⟨fun input hinput => (hall.1 input hinput).2.imp fun _ h => h.2, hall.2⟩

/-- A pointer that was accepted leads to a leaf. -/
theorem targetOf_pointer {input : Input} {pointer target : Text}
    (hinput : input.target = .configJsonPointer pointer) (h : c.targetOf input = .ok target) :
    Text.startsWith "/" pointer = true ∧ target = "config:" ++ Contract.canonical pointer ∧
      ∃ config leaf, c.configuration = some config ∧ config.document.pointer pointer = some leaf ∧
        leaf.isLeaf = true := by
  unfold Contract.targetOf at h
  rw [hinput] at h
  simp only at h
  split at h
  · cases h
  · rename_i hvalid
    split at h
    · cases h
    · rename_i leaf hleaf
      split at h
      · cases h
      · rename_i hscalar
        obtain ⟨config, hconfig, hpointer⟩ := Option.bind_eq_some_iff.mp hleaf
        refine ⟨?_, (Except.ok.inj h).symm, config, leaf, hconfig, hpointer, by simpa using hscalar⟩
        simp only [Bool.or_eq_true, not_or, Bool.not_eq_true, Bool.not_eq_false'] at hvalid
        exact hvalid.1

end

/-! ## What the inputs deliver -/

/-- The entry of an input that is delivered as a variable. -/
def entryOf (values : List (Text × Json)) (input : Input) : Option (Text × Text) :=
  input.environmentVariable.bind fun name => (valueOf values input).map fun value => (name, display value)

/-- The leaf that an input sets, and its value. -/
def leafOf (values : List (Text × Json)) (input : Input) : Option (List Text × Json) :=
  match input.target with
  | .environment _ => none
  | .configJsonPointer pointer => (valueOf values input).map fun value => (Json.tokens pointer, value)

def assignLeaf (values : List (Text × Json)) (assign : List Text → Option Json) (input : Input) :
    List Text → Option Json :=
  match leafOf values input with
  | none => assign
  | some (p, value) => Function.update assign p (some value)

/-- The leaves that the inputs set, one input after the other. -/
def assignOf (values : List (Text × Json)) (inputs : List Input) : List Text → Option Json :=
  inputs.foldl (assignLeaf values) fun _ => none

section

variable {X : Crates} {c : Contract} {values : List (Text × Json)}

theorem assignOf_append (done : List Input) (input : Input) :
    assignOf values (done ++ [input]) = assignLeaf values (assignOf values done) input := by
  simp [assignOf]

theorem resolveInput_ok {done : List Input} {input : Input} {state state' : Environment × Option Json}
    (htarget : ∃ target, c.targetOf input = .ok target)
    (hentries : state.1 = done.filterMap (entryOf values))
    (hdocument : state.2 = c.configuration.map fun config => config.document.patch (assignOf values done))
    (h : resolveInput X values state input = .ok state') :
    state'.1 = (done ++ [input]).filterMap (entryOf values) ∧
      state'.2 = c.configuration.map fun config =>
        config.document.patch (assignOf values (done ++ [input])) := by
  rw [List.filterMap_append, assignOf_append]
  unfold resolveInput at h
  obtain ⟨-, -, h⟩ := Except.bind_ok h
  cases hvalue : valueOf values input with
  | none =>
    rw [hvalue] at h
    simp only at h
    have hentry : entryOf values input = none := by simp [entryOf, hvalue]
    have hleaf : leafOf values input = none := by
      unfold leafOf
      cases input.target <;> simp [hvalue]
    split at h
    · cases h
    · cases h
      simp [hentry, assignLeaf, hleaf, hentries, hdocument]
  | some value =>
    rw [hvalue] at h
    simp only at h
    obtain ⟨-, -, h⟩ := Except.bind_ok h
    split at h
    · rename_i name htarget'
      cases h
      have hentry : entryOf values input = some (name, display value) := by
        simp [entryOf, Input.environmentVariable, htarget', hvalue]
      have hleaf : leafOf values input = none := by simp [leafOf, htarget']
      simp [hentry, assignLeaf, hleaf, hentries, hdocument]
    · rename_i pointer htarget'
      obtain ⟨target, htarget⟩ := htarget
      obtain ⟨hstart, -, config, leaf, hconfig, hpointer, hscalar⟩ := targetOf_pointer htarget' htarget
      have hentry : entryOf values input = none := by simp [entryOf, Input.environmentVariable, htarget']
      have hleaf : leafOf values input = some (Json.tokens pointer, value) := by
        simp [leafOf, htarget', hvalue]
      rw [Json.pointer_eq hstart] at hpointer
      -- the document so far is the declared one with the leaves of the inputs done
      have hset : (config.document.patch (assignOf values done)).setPointer pointer value =
          some (config.document.patch (Function.update (assignOf values done)
            (Json.tokens pointer) (some value))) := by
        rw [Json.setPointer_eq hstart, Json.setAt_patch config.keysOnce hpointer hscalar]
      rw [hdocument, hconfig, Option.map_some, Option.bind_some, hset] at h
      cases h
      simp [hentry, hentries, hconfig, assignLeaf, hleaf]

/-- The leaves set are those of the inputs, in whatever order, if no two set one leaf. -/
theorem assignOf_iff {inputs : List Input}
    (hdiffer : inputs.Pairwise fun a b => ∀ p x y, leafOf values a = some (p, x) →
      leafOf values b ≠ some (p, y))
    {p : List Text} {x : Json} :
    assignOf values inputs p = some x ↔ ∃ input ∈ inputs, leafOf values input = some (p, x) := by
  induction inputs using List.reverseRecOn with
  | nil => simp [assignOf]
  | append_singleton done input ih =>
    obtain ⟨hdone, -, hlast⟩ := List.pairwise_append.mp hdiffer
    have hlast : ∀ a ∈ done, ∀ p x y, leafOf values a = some (p, x) → leafOf values input ≠ some (p, y) :=
      fun a ha => hlast a ha input (by simp)
    rw [assignOf_append, assignLeaf]
    simp only [List.mem_append, List.mem_singleton, or_and_right, exists_or, exists_eq_left]
    cases hleaf : leafOf values input with
    | none => simp [ih hdone]
    | some leaf =>
      obtain ⟨q, y⟩ := leaf
      by_cases hq : p = q
      · subst hq
        simp only [Function.update_self, Option.some.injEq, Prod.mk.injEq, true_and]
        refine ⟨fun h => .inr h, ?_⟩
        rintro (⟨a, ha, hax⟩ | h)
        · exact absurd hleaf (hlast a ha p x y hax)
        · exact h
      · simp only [Function.update_of_ne hq, ih hdone]
        simp [Ne.symm hq]

theorem mem_unresolvedItems {items : List Json} (h : unresolvedItems items = false) :
    ∀ v ∈ items, unresolved v = false := by
  induction items with
  | nil => simp
  | cons v items ih =>
    rw [unresolvedItems, Bool.or_eq_false_iff] at h
    intro w hw
    rcases List.mem_cons.mp hw with rfl | hw
    · exact h.1
    · exact ih h.2 w hw

theorem lookup_unresolvedEntries {es : List (Text × Json)} (h : unresolvedEntries es = false) {key : Text}
    {v : Json} (hv : Json.lookup key es = some v) : unresolved v = false := by
  induction es with
  | nil => cases hv
  | cons e es ih =>
    obtain ⟨k, w⟩ := e
    rw [unresolvedEntries, Bool.or_eq_false_iff] at h
    rw [Json.lookup_cons] at hv
    split at hv
    · obtain rfl := Option.some.inj hv
      exact h.1
    · exact ih h.2 hv

/-- No path of a resolved document leads to a null. -/
theorem valueAt_ne_null {d : Json} (h : unresolved d = false) (p : List Text) : d.valueAt p ≠ some .null := by
  induction p generalizing d with
  | nil =>
    rintro hnull
    obtain rfl : d = .null := by simpa [Json.valueAt] using hnull
    cases h
  | cons token p ih =>
    intro hnull
    rw [Json.valueAt] at hnull
    obtain ⟨v, hchild, hrest⟩ := Option.bind_eq_some_iff.mp hnull
    refine ih ?_ hrest
    cases d with
    | obj es =>
      rw [unresolved] at h
      exact lookup_unresolvedEntries h hchild
    | arr items =>
      rw [unresolved] at h
      obtain ⟨i, -, hget⟩ := Option.bind_eq_some_iff.mp hchild
      exact mem_unresolvedItems h v (List.mem_of_getElem? hget)
    | _ => cases hchild

theorem checkNames_ok {seen : List Text} {values : Environment} (h : checkNames seen values = .ok ()) :
    (values.map Prod.fst).Nodup ∧ ∀ e ∈ values, e.1 ∉ seen := by
  induction values generalizing seen with
  | nil => simp
  | cons e values ih =>
    obtain ⟨key, value⟩ := e
    rw [checkNames] at h
    split at h
    · cases h
    · rename_i hkey
      obtain ⟨hnodup, hnew⟩ := ih h
      simp only [Bool.or_eq_true, not_or] at hkey
      have hseen : key ∉ seen := by simpa using hkey.1.2
      refine ⟨?_, ?_⟩
      · rw [List.map_cons, List.nodup_cons]
        refine ⟨fun hmem => ?_, hnodup⟩
        obtain ⟨e, he, heq⟩ := List.mem_map.mp hmem
        exact hnew e he (by simp [heq])
      · intro e he
        rcases List.mem_cons.mp he with rfl | he
        · exact hseen
        · exact fun hmem => hnew e he (List.mem_cons_of_mem _ hmem)

theorem filter_eq_of_mem {env : Environment} (h : (env.map Prod.fst).Nodup) {e : Text × Text} (he : e ∈ env) :
    env.filter (·.1 = e.1) = [e] := by
  induction env with
  | nil => cases he
  | cons f env ih =>
    rw [List.map_cons, List.nodup_cons] at h
    have hhead : ∀ g ∈ env, g.1 ≠ f.1 := fun g hg heq => h.1 (heq ▸ List.mem_map_of_mem hg)
    rcases List.mem_cons.mp he with rfl | he
    · have hnone : env.filter (·.1 = e.1) = [] :=
        List.filter_eq_nil_iff.mpr fun g hg => by simpa using hhead g hg
      rw [List.filter_cons_of_pos (by simp), hnone]
    · rw [List.filter_cons_of_neg (by simpa using (hhead e he).symm), ih h.2 he]

end

/-! ## The environment of a contract -/

open JsonText
open Documents (rfc)

theorem hex_control : ∀ n < 0x20, rfc.hex ['0', '0', Nat.digitChar (n / 16), Nat.digitChar (n % 16)] =
    some n ∧ isHigh n = false := by decide

theorem escapeChar_reads {s t : Text} (h : Reads rfc s t) (c : Char) :
    Reads rfc (Json.escapeChar c ++ s) (c :: t) := by
  unfold Json.escapeChar
  split_ifs with h₁ h₂ h₃ h₄ h₅ h₆ h₇ hcontrol
  · subst h₁
    exact .escape rfl h
  · subst h₂
    exact .escape rfl h
  · subst h₃
    exact .escape rfl h
  · subst h₄
    exact .escape rfl h
  · subst h₅
    exact .escape rfl h
  · obtain rfl : c = '\x08' := Char.toNat_inj.mp h₆
    exact .escape rfl h
  · obtain rfl : c = '\x0c' := Char.toNat_inj.mp h₇
    exact .escape rfl h
  · obtain ⟨hhex, hhigh⟩ := hex_control c.toNat hcontrol
    have hchar : unitChar c.toNat = c := by
      rw [unitChar, if_pos (.inl (by omega)), Char.ofNat_toNat]
    have hunit : Reads rfc _ (unitChar c.toNat :: t) :=
      .unit hhex (fun hpaired => absurd hpaired.1 (by simp [hhigh])) h
    rwa [hchar] at hunit
  · exact .char (by omega) h₁ h₂ h

theorem quote_reads (s : Text) : Reads rfc (s.flatMap Json.escapeChar) s := by
  induction s with
  | nil => exact .nil
  | cons c s ih =>
    rw [List.flatMap_cons]
    exact escapeChar_reads ih c

/-- The text is a document of RFC 8259 with this value. -/
def Parses (readFloat : Text → Option Json.Fraction) (text : Text) (v : Json) : Prop :=
  Document readFloat (Reads rfc) v.value text

theorem parses_render {readFloat : Text → Option Json.Fraction} {v : Json}
    (h : v.FloatsRead readFloat) (w : Json) :
    Parses readFloat v.render w ↔ w = v := by
  have hdocument : Document readFloat (Reads rfc) v.value v.render := Json.render_document quote_reads h
  refine ⟨fun hw => Json.value_inj (document_unique (readsStrings_readString rfc) hw hdocument), ?_⟩
  rintro rfl
  exact hdocument

section

variable {X : Crates} {c : Contract} {values : List (Text × Json)} {env : Environment}

theorem leafOf_some {input : Input} {p : List Text} {x : Json} : leafOf values input = some (p, x) ↔
    ∃ pointer, input.target = .configJsonPointer pointer ∧ Json.tokens pointer = p ∧
      valueOf values input = some x := by
  unfold leafOf
  cases input.target with
  | environment name => simp
  | configJsonPointer pointer =>
    cases valueOf values input with
    | none => simp
    | some v => simp

/-- Inputs with different targets set different leaves: the targets of pointers are made from
the tokens that the pointers are read as. -/
theorem leaves_differ (htargets : ∀ input ∈ c.inputs, ∃ target, c.targetOf input = .ok target)
    (hdiffer : c.inputs.Pairwise c.Differ) :
    c.inputs.Pairwise fun a b => ∀ p x y, leafOf values a = some (p, x) → leafOf values b ≠ some (p, y) := by
  refine hdiffer.imp_of_mem fun {a b} ha hb hab p x y hax hby => ?_
  obtain ⟨pointer, hpointer, htokens, -⟩ := leafOf_some.1 hax
  obtain ⟨pointer', hpointer', htokens', -⟩ := leafOf_some.1 hby
  obtain ⟨target, htarget⟩ := htargets a ha
  obtain ⟨target', htarget'⟩ := htargets b hb
  have heq : target = target' := by
    rw [(targetOf_pointer hpointer htarget).2.1, (targetOf_pointer hpointer' htarget').2.1,
      Contract.canonical,
      Contract.canonical, htokens, htokens']
  rw [heq] at htarget
  exact hab.2 target' htarget htarget'

/-- What `resolve` returned, from the inputs' entries and leaves. -/
theorem resolve_ok (h : c.resolve X values = .ok env) :
    c.validate X = .ok () ∧ (env.map Prod.fst).Nodup ∧
      withDocument c.configuration (c.inputs.filterMap (entryOf values),
        c.configuration.map fun config => config.document.patch (assignOf values c.inputs)) = .ok env := by
  unfold Contract.resolve at h
  obtain ⟨_, hvalid, h⟩ := Except.bind_ok h
  obtain ⟨-, -, h⟩ := Except.bind_ok h
  obtain ⟨state, hloop, h⟩ := Except.bind_ok h
  obtain ⟨env', hdocument, h⟩ := Except.bind_ok h
  obtain ⟨_, hcheck, h⟩ := Except.bind_ok h
  cases h
  obtain ⟨_, hnames, -⟩ := Except.bind_ok hcheck
  have hstate : state = (c.inputs.filterMap (entryOf values),
      c.configuration.map fun config => config.document.patch (assignOf values c.inputs)) := by
    have hinit : c.configuration.map (·.document) =
        c.configuration.map fun config => config.document.patch (assignOf values []) := by
      simp [assignOf, Json.patch_none]
    have hrun := Except.foldlM_ok (I := fun done state =>
      (∀ input ∈ done, ∃ target, c.targetOf input = .ok target) →
      state.1 = done.filterMap (entryOf values) ∧
        state.2 = c.configuration.map fun config => config.document.patch (assignOf values done))
      (fun done input state state' hdone hstep htargets =>
        have hbefore := hdone fun a ha => htargets a (by simp [ha])
        resolveInput_ok (htargets input (by simp)) hbefore.1 hbefore.2 hstep)
      (fun _ => ⟨rfl, hinit⟩) hloop (validate_ok hvalid).1
    exact Prod.ext hrun.1 hrun.2
  rw [hstate] at hdocument
  exact ⟨hvalid, (checkNames_ok hnames).1, hdocument⟩

theorem entryOf_some {input : Input} {e : Text × Text} (h : entryOf values input = some e) :
    input.environmentVariable = some e.1 := by
  obtain ⟨name, hname, hvalue⟩ := Option.bind_eq_some_iff.mp h
  obtain ⟨value, -, rfl⟩ := Option.map_eq_some_iff.mp hvalue
  exact hname

/-- **The inputs are delivered exactly.** Each name of the environment is one of the contract's and
there once, each input with a value that is delivered as a variable has its one entry, a text as it is
and any other value as one that reads as it, and the one entry of the document reads as the declared
document with the leaves of the inputs that have a value, and only these, replaced by the values,
without a null. -/
theorem resolve_exact {readFloat : Text → Option Json.Fraction}
    (hdocument : ∀ config, c.configuration = some config → config.document.FloatsRead readFloat)
    (hvalues : ∀ input ∈ c.inputs, ∀ value, valueOf values input = some value → value.FloatsRead readFloat)
    (h : c.resolve X values = .ok env) :
    (env.map Prod.fst).Nodup ∧ (∀ e ∈ env, c.ownsEnvironment e.1 = true) ∧
    (∀ input ∈ c.inputs, ∀ name value, input.target = .environment name → valueOf values input = some value →
      ∃ text, env.filter (·.1 = name) = [(name, text)] ∧ (∀ s, value = .str s → text = s) ∧
        (value.asStr = none → ∀ v, Parses readFloat text v ↔ v = value)) ∧
    ∀ config, c.configuration = some config → ∃ assign text,
      env.filter (·.1 = config.delivery.name) = [(config.delivery.name, text)] ∧
      (∀ p x, assign p = some x ↔ ∃ input ∈ c.inputs, ∃ pointer, input.target = .configJsonPointer pointer ∧
        Json.tokens pointer = p ∧ valueOf values input = some x) ∧
      (∀ p x, assign p = some x → ∃ leaf, config.document.valueAt p = some leaf ∧ leaf.isLeaf = true ∧
        (config.document.patch assign).valueAt p = some x) ∧
      (∀ v, Parses readFloat text v ↔ v = config.document.patch assign) ∧
      ∀ p, (config.document.patch assign).valueAt p ≠ some .null := by
  obtain ⟨hvalid, hnodup, henv⟩ := resolve_ok h
  obtain ⟨htargets, hdiffer⟩ := validate_ok hvalid
  have hassign : ∀ p x, assignOf values c.inputs p = some x ↔ ∃ input ∈ c.inputs, ∃ pointer,
      input.target = .configJsonPointer pointer ∧ Json.tokens pointer = p ∧
        valueOf values input = some x := by
    intro p x
    rw [assignOf_iff (leaves_differ htargets hdiffer)]
    simp only [leafOf_some]
  have hentries : ∀ e ∈ c.inputs.filterMap (entryOf values), e ∈ env := by
    intro e he
    unfold withDocument at henv
    split at henv
    · split at henv
      · cases henv
      · cases henv
        exact List.mem_append_left _ he
    · cases henv
      exact he
  refine ⟨hnodup, ?_, ?_, ?_⟩
  · intro e he
    have howned : ∀ e ∈ c.inputs.filterMap (entryOf values), c.ownsEnvironment e.1 = true := by
      intro e he
      obtain ⟨input, hinput, hentry⟩ := List.mem_filterMap.mp he
      have hname := entryOf_some hentry
      rw [Contract.ownsEnvironment, Bool.or_eq_true]
      exact .inl (List.any_eq_true.mpr ⟨input, hinput, by simpa using hname⟩)
    unfold withDocument at henv
    split at henv
    · rename_i document config _ hconfig
      split at henv
      · cases henv
      · cases henv
        rcases List.mem_append.mp he with he | he
        · exact howned e he
        · rw [List.mem_singleton] at he
          subst he
          simp [Contract.ownsEnvironment, hconfig]
    · cases henv
      exact howned e he
  · intro input hinput name value htarget hvalue
    have hentry : (name, display value) ∈ c.inputs.filterMap (entryOf values) :=
      List.mem_filterMap.mpr ⟨input, hinput, by simp [entryOf, Input.environmentVariable, htarget, hvalue]⟩
    refine ⟨display value, filter_eq_of_mem hnodup (hentries _ hentry), ?_, fun hnone => ?_⟩
    · rintro s rfl
      rfl
    · rw [display, hnone, Option.getD_none]
      exact parses_render (hvalues input hinput value hvalue)
  · intro config hconfig
    unfold withDocument at henv
    rw [hconfig] at henv
    simp only [Option.map_some] at henv
    split at henv
    · cases henv
    · rename_i hnull
      cases henv
      refine ⟨assignOf values c.inputs, (config.document.patch (assignOf values c.inputs)).render,
        filter_eq_of_mem hnodup (e := (config.delivery.name, _)) (List.mem_append_right _ (by simp)),
          hassign, ?_, ?_, ?_⟩
      · intro p x hx
        obtain ⟨input, hinput, pointer, hpointer, rfl, -⟩ := (hassign p x).mp hx
        obtain ⟨target, htarget⟩ := htargets input hinput
        obtain ⟨hstart, -, config', leaf, hconfig', hleaf, hscalar⟩ := targetOf_pointer hpointer htarget
        obtain rfl : config = config' := Option.some.inj (hconfig.symm.trans hconfig')
        rw [Json.pointer_eq hstart] at hleaf
        refine ⟨leaf, hleaf, hscalar, ?_⟩
        rw [Json.valueAt_patch hleaf, Json.patch_leaf hscalar, List.append_nil, hx, Option.getD_some]
      · refine parses_render (Json.floatsRead_patch (fun p x hx => ?_) _ (hdocument config hconfig))
        obtain ⟨input, hinput, pointer, -, -, hvalue⟩ := (hassign p x).mp hx
        exact hvalues input hinput x hvalue
      · exact valueAt_ne_null (by simpa using hnull)

end

/-- One input for a variable and one for an item of an array below a key with a slash. -/
def rateContract : Contract where
  inputs := [
    { id := "mode", label := "Mode", description := [], kind := .enum, required := true,
      default := some (.str "fast"),
      min := none, max := none, minLength := none, maxLength := none, regex :=
        none, choices := ["fast", "slow"],
      allowedSchemes := [], target := .environment "MODE" },
    { id := "rate", label := "Rate", description := [], kind := .number, required := false, default := none,
      min := some (.int 0), max := some (.int 1), minLength := none, maxLength :=
        none, regex := none, choices := [],
      allowedSchemes := [], target := .configJsonPointer "/a~1b/0" }]
  devices := []
  configuration := some {
    delivery := ⟨"environment-json", "APP_CONFIG"⟩
    document := .obj [("a/b", .arr [.null, .bool true])]
    keysOnce := by simp [Json.KeysOnce, Json.KeysOnceEntries, Json.KeysOnceItems] }

/-- Crates that a contract without patterns and URLs does not ask. -/
def noCrates : Crates := ⟨fun _ => none, fun _ => none⟩

theorem resolve_rate : rateContract.resolve noCrates [("rate", .dec 1 2 "0.5")] =
    .ok [("MODE", "fast"), ("APP_CONFIG", "\x7b\"a/b\":[0.5,true]\x7d")] := by
  decide +kernel

/-- A reader of floats that knows one. -/
def readHalf (t : Text) : Option Json.Fraction := if t = "0.5" then some (1, 2, "0.5") else none

theorem isFloat_half : IsFloat "0.5" :=
  ⟨"0", ".5", [], rfl, ⟨[], "0", rfl, .inl rfl, ⟨by decide, by decide⟩, by decide⟩,
    .inr ⟨"5", rfl, by decide, by decide⟩, .inl rfl, .inl (by decide)⟩

theorem resolve_exact_rate :
    ([("MODE", "fast"), ("APP_CONFIG", "\x7b\"a/b\":[0.5,true]\x7d")] : Environment).filter
    (·.1 = "MODE".toList) =
      ([("MODE", "fast")] : Environment) ∧ ∃ assign, assign [("a/b" : Text), "0"] = some (.dec 1 2 "0.5") ∧
    ∀ v, Parses readHalf "\x7b\"a/b\":[0.5,true]\x7d" v ↔
      v = (Json.obj [("a/b", .arr [.null, .bool true])]).patch assign := by
  have hexact := @resolve_exact noCrates rateContract _ _ readHalf (fun config hconfig => ?_)
    (fun input hinput value hvalue => ?_) resolve_rate
  · obtain ⟨-, -, hvariables, hdocument⟩ := hexact
    obtain ⟨mode, hmode, hfast, -⟩ :=
      hvariables _ List.mem_cons_self "MODE" (.str "fast") rfl (by decide +kernel)
    rw [hfast "fast" rfl] at hmode
    refine ⟨hmode, ?_⟩
    obtain ⟨assign, text, htext, hassign, -, hparses, -⟩ := hdocument _ rfl
    have hlit : text = "\x7b\"a/b\":[0.5,true]\x7d" := by
      have hfilter : (([("MODE", "fast"), ("APP_CONFIG", "\x7b\"a/b\":[0.5,true]\x7d")] : Environment).filter
          (·.1 = "APP_CONFIG".toList)) = ([("APP_CONFIG", "\x7b\"a/b\":[0.5,true]\x7d")] : Environment) := by
            decide +kernel
      have heq := htext.symm.trans hfilter
      simpa using heq
    rw [hlit] at hparses
    refine ⟨assign, (hassign _ _).mpr ⟨_, List.mem_cons_of_mem _ (List.mem_singleton_self _),
      _, rfl, ?_, ?_⟩, hparses⟩
    · decide +kernel
    · decide +kernel
  · obtain rfl := Option.some.inj hconfig
    simp [Json.FloatsRead, Json.FloatsReadEntries, Json.FloatsReadItems]
  · rcases List.mem_cons.mp hinput with rfl | hinput
    · obtain rfl : Json.str "fast" = value := Option.some.inj (by rw [← hvalue]; decide +kernel)
      simp [Json.FloatsRead]
    · obtain rfl := List.mem_singleton.mp hinput
      obtain rfl : Json.dec 1 2 "0.5" = value := Option.some.inj (by rw [← hvalue]; decide +kernel)
      rw [Json.FloatsRead]
      exact ⟨isFloat_half, rfl⟩

end HomeStack.Schema3

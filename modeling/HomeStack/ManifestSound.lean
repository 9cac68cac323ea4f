import HomeStack.Lib.Words
import HomeStack.ManifestRules

/-! When `manifest::parse` returns, and what holds of a manifest that it accepts. -/

namespace HomeStack.ServiceManifest

open Report Check

/-! ## When a check panics -/

/-- A text whose last byte starts no character. -/
def EndsInside (v : Yaml) : Prop := ∃ s c, v = .string s ∧ s.getLast? = some c ∧ 0x80 ≤ c.toNat

def SizeEndsInside (fields : Fields) (name : Text) : Prop := ∃ v, field fields name = some v ∧ EndsInside v

/-- One of the sizes that are read ends inside a character. -/
def Splits (top : Fields) : Prop :=
  (∃ runtime resources, field top "runtime" = some (.hash runtime) ∧
    field runtime "resources" = some (.hash resources) ∧
    ∃ name ∈ (["memory", "swap", "rootfs"] : List Text), SizeEndsInside resources name) ∨
  ∃ fields, field top "persistence" = some (.hash fields) ∧ SizeEndsInside fields "size"

section

variable {v : Yaml} {path : Path} {fields : Fields} {name : Text}

/-- What a failed check returns. -/
theorem not_aborts_failed {α : Type} {i : Issue} : ¬ Aborts (do
    fail i
    pure none : Check (Option α)) :=
  not_aborts_bind not_aborts_fail fun _ => not_aborts_pure

theorem not_aborts_mappingKey {allowed : List Text} (key : Yaml) :
    ¬ Aborts (mappingKey path allowed key) := by
  unfold mappingKey
  split <;> simp

theorem aborts_andThen_mapping {α : Type} {allowed : List Text} {f : Fields → Check (Option α)} :
    Aborts (andThen (mapping v path allowed) f) ↔ ∃ fields, v = .hash fields ∧ Aborts (f fields) := by
  cases v with
  | hash fields =>
    obtain ⟨_, issues, hkeys⟩ :=
      returned_of_not_aborts (not_aborts_each (fun e : Yaml × Yaml =>
        @not_aborts_mappingKey path allowed e.1) fields)
    have hmapping : mapping (.hash fields) path allowed = .returned (some fields) (issues ++ []) := by
      rw [mapping, hkeys]
      rfl
    have hthen : Aborts (andThen (mapping (.hash fields) path allowed) f) ↔ Aborts (f fields) := by
      rw [hmapping]
      change Aborts (andAfter _ (f fields)) ↔ _
      cases f fields with
      | aborted => exact Iff.rfl
      | returned a issues' =>
        refine ⟨fun h => ?_, fun h => ?_⟩ <;> cases h
    simp [hthen]
  | _ =>
    refine ⟨fun h => ?_, ?_⟩
    · cases h
    · rintro ⟨fields, hv, -⟩
      cases hv

theorem aborts_andThen_required {α : Type} {f : Yaml → Check (Option α)} :
    Aborts (andThen (required fields path name) f) ↔ ∃ v, field fields name = some v ∧ Aborts (f v) := by
  unfold required
  cases field fields name with
  | none =>
    refine ⟨fun h => ?_, ?_⟩
    · cases h
    · rintro ⟨v, hv, -⟩
      cases hv
  | some v =>
    have hthen : Aborts (andThen (pure (some v)) f) ↔ Aborts (f v) := by
      change Aborts (andAfter [] (f v)) ↔ _
      cases f v with
      | aborted => exact Iff.rfl
      | returned a issues' =>
        refine ⟨fun h => ?_, fun h => ?_⟩ <;> cases h
    simp [hthen]

theorem not_aborts_string : ¬ Aborts (string v path) := by
  unfold string
  split
  · exact not_aborts_pure
  · exact not_aborts_failed

theorem not_aborts_integer {low high : Int} : ¬ Aborts (integer v path low high) := by
  unfold integer
  split
  · split
    · exact not_aborts_pure
    · exact not_aborts_failed
  · exact not_aborts_failed

theorem not_aborts_list : ¬ Aborts (list v path) := by
  unfold list
  split
  · exact not_aborts_pure
  · exact not_aborts_failed

theorem not_aborts_choice {α : Type} {choices : List (Text × α)} : ¬ Aborts (choice v path choices) := by
  refine not_aborts_andThen not_aborts_string fun s => ?_
  split
  · exact not_aborts_pure
  · exact not_aborts_failed

theorem not_aborts_filtered {α : Type} {a : Option α} {refused : α → Bool} {issue : α → Issue} :
    ¬ Aborts (filtered a refused issue) := by
  unfold filtered
  split
  · exact not_aborts_pure
  · split
    · exact not_aborts_failed
    · exact not_aborts_pure

theorem not_aborts_checked {α : Type} {check : Yaml → Path → Check (Option α)}
    (hcheck : ∀ v path, ¬ Aborts (check v path)) :
    ¬ Aborts (checked fields path name check) := by
  unfold checked
  rw [aborts_andThen_required]
  rintro ⟨v, -, hv⟩
  exact hcheck _ _ hv

theorem aborts_size {low high : Nat} : Aborts (size v path low high) ↔ EndsInside v := by
  have hrange : ∀ parsed, Aborts (sizeInRange path low high parsed) ↔ False := by
    intro parsed
    unfold sizeInRange
    refine iff_false_intro ?_
    split
    · exact not_aborts_failed
    · split
      · exact not_aborts_pure
      · exact not_aborts_failed
  unfold size
  rw [aborts_bind hrange, or_false]
  unfold sizeText EndsInside
  cases hs : v.asStr with
  | none =>
    refine ⟨fun h => absurd h not_aborts_pure, ?_⟩
    rintro ⟨s, c, rfl, -⟩
    cases hs
  | some s =>
    rw [asStr_eq_some] at hs
    subst hs
    simp only
    unfold parseSize
    cases hlast : s.getLast? with
    | none =>
      refine ⟨fun h => absurd h not_aborts_pure, ?_⟩
      rintro ⟨s', c, hs', hc, -⟩
      rw [← Yaml.string.inj hs', hlast] at hc
      cases hc
    | some c =>
      by_cases hc : 0x80 ≤ c.toNat
      · simp only [if_pos hc]
        exact ⟨fun _ => ⟨s, c, rfl, hlast, hc⟩, fun _ => rfl⟩
      · simp only [if_neg hc]
        refine ⟨fun h => absurd h not_aborts_pure, ?_⟩
        rintro ⟨s', c', hs', hc', hbyte⟩
        rw [← Yaml.string.inj hs', hlast] at hc'
        obtain rfl := Option.some.inj hc'
        exact absurd hbyte hc

theorem aborts_checked_size {low high : Nat} :
    Aborts (checked fields path name (size · · low high)) ↔ SizeEndsInside fields name := by
  unfold checked SizeEndsInside
  rw [aborts_andThen_required]
  simp only [aborts_size]

/-! ### Sections without sizes -/

theorem not_aborts_imageOf : ¬ Aborts (imageOf v) := by
  unfold imageOf
  rw [aborts_andThen_mapping]
  rintro ⟨fields, -, h⟩
  refine not_aborts_andThen (not_aborts_checked fun _ _ => not_aborts_string) (fun s => ?_) h
  split
  · exact not_aborts_pure
  · exact not_aborts_failed

theorem not_aborts_portOf : ¬ Aborts (portOf v path) := by
  unfold portOf
  rw [aborts_andThen_mapping]
  rintro ⟨fields, -, h⟩
  refine not_aborts_bind (not_aborts_checked fun _ _ => not_aborts_string) (fun _ => ?_) h
  refine not_aborts_bind not_aborts_filtered fun _ => ?_
  refine not_aborts_bind (not_aborts_checked fun _ _ => not_aborts_integer) fun _ => ?_
  exact not_aborts_bind (not_aborts_checked fun _ _ => not_aborts_choice) fun _ => not_aborts_pure

theorem not_aborts_portLoop {index : Nat} {ports : List Port} {valid : Bool} {entries : List Yaml} :
    ¬ Aborts (portLoop path index ports valid entries) := by
  induction entries generalizing index ports valid with
  | nil => exact not_aborts_pure
  | cons entry rest ih =>
    rw [portLoop]
    refine not_aborts_bind not_aborts_portOf fun port => ?_
    cases port with
    | none => exact ih
    | some port =>
      simp only
      split
      · exact not_aborts_bind not_aborts_fail fun _ => ih
      · split
        · exact not_aborts_bind not_aborts_fail fun _ => ih
        · exact ih

theorem not_aborts_runtimePorts : ¬ Aborts (runtimePorts fields path) := by
  unfold runtimePorts portsOf
  split
  · exact not_aborts_pure
  · refine not_aborts_andThen not_aborts_list fun entries => ?_
    exact not_aborts_bind not_aborts_portLoop fun _ => not_aborts_pure

theorem not_aborts_httpOf {port : Option Text} : ¬ Aborts (httpOf fields path port) := by
  unfold httpOf
  refine not_aborts_bind (not_aborts_checked fun _ _ => not_aborts_string) fun _ => ?_
  refine not_aborts_bind not_aborts_filtered fun _ => ?_
  refine not_aborts_bind (not_aborts_checked fun _ _ => not_aborts_integer) fun _ => ?_
  refine not_aborts_bind ?_ fun _ => not_aborts_pure
  unfold heartbeatOf
  split
  · exact not_aborts_integer
  · exact not_aborts_pure

theorem not_aborts_healthcheckOf {ports : List Port} : ¬ Aborts (healthcheckOf v path ports) := by
  unfold healthcheckOf
  rw [aborts_andThen_mapping]
  rintro ⟨fields, -, h⟩
  refine not_aborts_bind (not_aborts_checked fun _ _ => not_aborts_string) (fun _ => ?_) h
  refine not_aborts_bind not_aborts_filtered fun port => ?_
  refine not_aborts_andThen (not_aborts_checked fun _ _ => not_aborts_choice) fun kind => ?_
  split
  · exact not_aborts_httpOf
  · exact not_aborts_bind (not_aborts_each (fun _ => not_aborts_failIf) _) fun _ => not_aborts_pure

theorem not_aborts_runtimeHealthcheck {ports : Option (List Port)} :
    ¬ Aborts (runtimeHealthcheck fields path ports) := by
  unfold runtimeHealthcheck
  split
  · exact not_aborts_pure
  · exact not_aborts_bind not_aborts_healthcheckOf fun _ => not_aborts_pure
  · exact not_aborts_pure

theorem not_aborts_textOr {default : Option Text} {valid : Text → Bool} {message : Text} :
    ¬ Aborts (textOr fields path name default valid message) := by
  unfold textOr
  split
  · exact not_aborts_pure
  · refine not_aborts_andThen not_aborts_string fun s => ?_
    split
    · exact not_aborts_pure
    · exact not_aborts_failed

theorem not_aborts_entriesOf : ¬ Aborts (entriesOf fields path name) := by
  unfold entriesOf
  split
  · exact not_aborts_pure
  · exact not_aborts_bind not_aborts_list fun _ => not_aborts_pure

theorem not_aborts_directoryLoop {index : Nat} {directories : List Text} {entries : List Yaml} :
    ¬ Aborts (directoryLoop path index directories entries) := by
  induction entries generalizing index directories with
  | nil => exact not_aborts_pure
  | cons entry rest ih =>
    rw [directoryLoop]
    refine not_aborts_bind not_aborts_string fun directory => ?_
    cases directory with
    | none => exact ih
    | some directory =>
      simp only
      split
      · exact not_aborts_bind not_aborts_fail fun _ => ih
      · split
        · exact not_aborts_bind not_aborts_fail fun _ => ih
        · exact ih

theorem not_aborts_mappingOf {mount : Option Text} {directories : List Text} :
    ¬ Aborts (mappingOf mount directories fields path) := by
  unfold mappingOf
  refine not_aborts_bind (not_aborts_checked fun _ _ => not_aborts_string) fun source => ?_
  refine not_aborts_bind ?_ fun _ => ?_
  · unfold sourceApart
    split <;> simp
  · refine not_aborts_bind (not_aborts_checked fun _ _ => not_aborts_string) fun destination => ?_
    refine not_aborts_bind ?_ fun _ => not_aborts_pure
    unfold destinationDeclared
    split <;> simp

theorem not_aborts_mappingLoop {mount : Option Text} {directories : List Text} {index : Nat}
    {mappings : List Mapping} {entries : List Yaml} :
    ¬ Aborts (mappingLoop mount directories path index mappings entries) := by
  induction entries generalizing index mappings with
  | nil => exact not_aborts_pure
  | cons entry rest ih =>
    rw [mappingLoop]
    refine not_aborts_bind ?_ fun _ => ih
    rw [aborts_andThen_mapping]
    rintro ⟨fields, -, h⟩
    exact not_aborts_mappingOf h

theorem not_aborts_deploymentOf {id : Option Text} : ¬ Aborts (deploymentOf v id) := by
  unfold deploymentOf
  rw [aborts_andThen_mapping]
  rintro ⟨fields, -, h⟩
  refine not_aborts_bind not_aborts_textOr (fun _ => ?_) h
  refine not_aborts_bind (not_aborts_checked fun _ _ => not_aborts_integer) fun _ => ?_
  refine not_aborts_bind ?_ fun _ => ?_
  · unfold placementOf
    split
    · exact not_aborts_pure
    · exact not_aborts_choice
  · exact not_aborts_bind (not_aborts_checked fun _ _ => not_aborts_choice) fun _ => not_aborts_pure

theorem not_aborts_bypassLoop {index : Nat} {patterns : List Text} {entries : List Yaml} :
    ¬ Aborts (bypassLoop path index patterns entries) := by
  induction entries generalizing index patterns with
  | nil => exact not_aborts_pure
  | cons entry rest ih =>
    rw [bypassLoop]
    refine not_aborts_bind not_aborts_string fun pattern => ?_
    cases pattern with
    | none => exact ih
    | some pattern => exact not_aborts_bind not_aborts_failIf fun _ => ih

theorem not_aborts_exposureOf {runtime : Option Runtime} : ¬ Aborts (exposureOf v runtime) := by
  unfold exposureOf
  split
  · exact not_aborts_pure
  · rw [aborts_andThen_mapping]
    rintro ⟨top, -, h⟩
    rw [aborts_andThen_required] at h
    obtain ⟨value, -, h⟩ := h
    rw [aborts_andThen_mapping] at h
    obtain ⟨fields, -, h⟩ := h
    refine not_aborts_bind (not_aborts_checked fun _ _ => not_aborts_string) (fun port => ?_) h
    refine not_aborts_bind ?_ fun _ => ?_
    · unfold exposedPort
      split
      · split <;> simp
      · exact not_aborts_pure
    · refine not_aborts_bind (not_aborts_checked fun _ _ => not_aborts_string) fun _ => ?_
      refine not_aborts_bind not_aborts_failIf fun _ => ?_
      refine not_aborts_bind (not_aborts_checked fun _ _ => not_aborts_string) fun _ => ?_
      refine not_aborts_bind not_aborts_failIf fun _ => ?_
      refine not_aborts_bind ?_ fun _ => not_aborts_pure
      unfold bypassOf
      split
      · exact not_aborts_pure
      · refine not_aborts_bind not_aborts_list fun _ => ?_
        refine not_aborts_bind not_aborts_bypassLoop fun _ => ?_
        exact not_aborts_bind not_aborts_failIf fun _ => not_aborts_pure

/-! ### Sections with sizes -/

theorem aborts_resourcesOf : Aborts (resourcesOf v path) ↔
    ∃ fields, v = .hash fields ∧ ∃ name ∈ (["memory", "swap", "rootfs"] : List Text),
      SizeEndsInside fields name := by
  unfold resourcesOf
  rw [aborts_andThen_mapping]
  refine exists_congr fun fields => and_congr_right fun _ => ?_
  have hcores : ¬ Aborts (checked fields path "cores" (integer · · 1 64)) :=
    not_aborts_checked fun _ _ => not_aborts_integer
  rw [aborts_bind fun _ => aborts_bind fun _ => aborts_bind fun _ => aborts_bind fun _ =>
    iff_false_intro not_aborts_pure]
  simp only [hcores, aborts_checked_size, false_or, or_false, List.mem_cons, List.not_mem_nil,
    exists_eq_or_imp, exists_eq_left]

theorem aborts_runtimeOf : Aborts (runtimeOf v) ↔
    ∃ fields resources, v = .hash fields ∧ field fields "resources" = some (.hash resources) ∧
      ∃ name ∈ (["memory", "swap", "rootfs"] : List Text), SizeEndsInside resources name := by
  have hresources : ∀ {v : Yaml} {path : Path}, Aborts (runtimeResources v path) ↔
      ∃ fields, v = .hash fields ∧ ∃ name ∈ (["memory", "swap", "rootfs"] : List Text),
        SizeEndsInside fields name := by
    intro v path
    unfold runtimeResources
    split
    · rename_i hnull
      refine ⟨fun h => absurd h not_aborts_pure, ?_⟩
      rintro ⟨fields, rfl, -⟩
      cases hnull
    · rw [aborts_bind fun _ => iff_false_intro not_aborts_pure, or_false, aborts_resourcesOf]
  unfold runtimeOf
  rw [aborts_andThen_mapping]
  refine exists_congr fun fields => ?_
  rw [aborts_bind (q := False) fun resources =>
    iff_false_intro (not_aborts_bind not_aborts_runtimePorts fun ports =>
    not_aborts_bind not_aborts_runtimeHealthcheck fun _ => not_aborts_pure), or_false]
  unfold checked
  rw [aborts_andThen_required]
  simp only [hresources]
  constructor
  · rintro ⟨hv, value, hvalue, resources, rfl, hname⟩
    exact ⟨resources, hv, hvalue, hname⟩
  · rintro ⟨resources, hv, hvalue, hname⟩
    exact ⟨hv, _, hvalue, resources, rfl, hname⟩

theorem aborts_persistenceOf :
    Aborts (persistenceOf v) ↔ ∃ fields, v = .hash fields ∧ SizeEndsInside fields "size" := by
  unfold persistenceOf
  split
  · rename_i hnull
    refine ⟨fun h => absurd h not_aborts_pure, ?_⟩
    rintro ⟨fields, rfl, -⟩
    cases hnull
  · rw [aborts_andThen_mapping]
    refine exists_congr fun fields => and_congr_right fun _ => ?_
    have hlist : ∀ mount sizeMib, ¬ Aborts (do
        let entries ← entriesOf fields ["persistence"] "directories"
        let directories ← directoryLoop (["persistence".toList] ++ ["directories".toList]) 0 [] entries
        let entries ← entriesOf fields ["persistence"] "mappings"
        let mappings ← mappingLoop mount directories
            (["persistence".toList] ++ ["mappings".toList]) 0 [] entries
        pure (do
          let mount ← mount
          let sizeMib ← sizeMib
          some (some ⟨mount, sizeMib, directories, mappings⟩)) : Check (Option (Option Persistence))) := by
      intro mount sizeMib
      refine not_aborts_bind not_aborts_entriesOf fun _ => ?_
      refine not_aborts_bind not_aborts_directoryLoop fun _ => ?_
      refine not_aborts_bind not_aborts_entriesOf fun _ => ?_
      exact not_aborts_bind not_aborts_mappingLoop fun _ => not_aborts_pure
    rw [aborts_bind (q := SizeEndsInside fields "size") fun mount => by
      rw [aborts_bind fun sizeMib => iff_false_intro (hlist mount sizeMib), aborts_checked_size, or_false]]
    simp [not_aborts_textOr]

theorem not_aborts_textSection {valid : Text → Bool} {message : Text} :
    ¬ Aborts (textSection name valid message v) := by
  unfold textSection
  split
  · exact not_aborts_pure
  · exact not_aborts_failed

theorem aborts_sectionOf {α : Type} {top : Fields} {check : Yaml → Check (Option α)} :
    Aborts (sectionOf top name check) ↔ ∃ v, field top name = some v ∧ Aborts (check v) := by
  unfold sectionOf
  cases field top name with
  | none => simp
  | some v => simp

theorem not_aborts_sectionOf {α : Type} {top : Fields} {check : Yaml → Check (Option α)}
    (hcheck : ∀ v, ¬ Aborts (check v)) :
    ¬ Aborts (sectionOf top name check) := by
  rw [aborts_sectionOf]
  rintro ⟨v, -, hv⟩
  exact hcheck v hv

/-- **A document panics exactly when one of its sizes ends inside a character.** -/
theorem aborts_checkSections (top : Fields) : Aborts (checkSections top) ↔ Splits top := by
  have hknown : ∀ e : Yaml × Yaml, ¬ Aborts (knownSection e.1) := by
    intro e
    unfold knownSection
    split <;> simp
  have hschema : ¬ Aborts (schemaOf top) := by
    unfold schemaOf
    split <;> simp
  have hstate : ∀ deployment persistence, ¬ Aborts (stateOf deployment persistence) := by
    intro deployment persistence
    unfold stateOf
    split
    · simp only
      split <;> simp
    · exact not_aborts_pure
  have htext : ∀ {name name' message : Text} {valid : Text → Bool},
      ¬ Aborts (sectionOf top name (textSection name' valid message)) :=
    not_aborts_sectionOf fun _ => not_aborts_textSection
  -- only the runtime and the persistence have sizes
  have hsizes : Splits top ↔ (∃ v, field top "runtime" = some v ∧ Aborts (runtimeOf v)) ∨
      ∃ v, field top "persistence" = some v ∧ Aborts (persistenceOf v) := by
    simp only [aborts_runtimeOf, aborts_persistenceOf, Splits]
    refine or_congr ⟨?_, ?_⟩ ⟨?_, ?_⟩
    · rintro ⟨runtime, resources, htop, hfields, hname⟩
      exact ⟨_, htop, runtime, resources, rfl, hfields, hname⟩
    · rintro ⟨_, htop, runtime, resources, rfl, hfields, hname⟩
      exact ⟨runtime, resources, htop, hfields, hname⟩
    · rintro ⟨fields, htop, hsize⟩
      exact ⟨_, htop, fields, rfl, hsize⟩
    · rintro ⟨_, htop, fields, rfl, hsize⟩
      exact ⟨fields, htop, hsize⟩
  have hrest : ∀ {persistence : Option (Option Persistence)} {id name image runtime}, ¬ Aborts (do
      let deployment ← sectionOf top "deployment" (deploymentOf · id)
      let pangolin ← sectionOf top "exposure" (exposureOf · runtime)
      stateOf deployment persistence
      pure (id, name, do
        let manifestId ← id
        let manifestName ← name
        let imageRepository ← image
        let parts ← runtime
        let persistence ← persistence
        let deployment ← deployment
        let pangolin ← pangolin
        some ⟨manifestId, manifestName, imageRepository, parts.1, parts.2.1, parts.2.2, persistence,
          deployment, pangolin⟩) :
        Check (Option Text × Option Text × Option Manifest)) := by
    intro persistence id name image runtime
    refine not_aborts_bind (not_aborts_sectionOf fun _ => not_aborts_deploymentOf) fun _ => ?_
    refine not_aborts_bind (not_aborts_sectionOf fun _ => not_aborts_exposureOf) fun _ => ?_
    exact not_aborts_bind (hstate _ _) fun _ => not_aborts_pure
  unfold checkSections
  rw [aborts_bind fun _ => aborts_bind fun _ => aborts_bind fun _ =>
    aborts_bind fun id => aborts_bind fun name =>
    aborts_bind fun image => aborts_bind fun runtime => aborts_bind fun persistence => iff_false_intro hrest]
  have hunknown : ¬ Aborts (each (fun e : Yaml × Yaml => knownSection e.1) top) := not_aborts_each hknown top
  have hmissing : ¬ Aborts
      (each (fun name => failIf ((field top name).isNone) ⟨[name], "missing section"⟩ : Text → Check Unit)
      sections) := not_aborts_each (fun _ => not_aborts_failIf) sections
  have himage : ¬ Aborts (sectionOf top "image" imageOf) := not_aborts_sectionOf fun _ => not_aborts_imageOf
  simp only [hunknown, hmissing, hschema, htext, himage, aborts_sectionOf, false_or, or_false, ← hsizes]

end

/-! ## What an accepted manifest is -/

/-- A DNS label: 1 to 63 of `a-z`, `0-9` and `-`, without a hyphen at either end. -/
def DnsLabel (s : Text) : Prop :=
  1 ≤ s.length ∧ s.length ≤ 63 ∧ (∀ c ∈ s, ('a' ≤ c ∧ c ≤ 'z') ∨ ('0' ≤ c ∧ c ≤ '9') ∨ c = '-') ∧
    s.head? ≠ some '-' ∧ s.getLast? ≠ some '-'

/-- Components that are neither empty nor `.` or `..`, each after a slash. -/
def Canonical (path : Text) : Prop :=
  ∃ parts : List Text, parts ≠ [] ∧ path = parts.flatMap ('/' :: ·) ∧
    ∀ part ∈ parts, part ≠ [] ∧ part ≠ "." ∧ part ≠ ".." ∧ '/' ∉ part

/-- The path is the directory or lies in it. -/
def Inside (path directory : Text) : Prop := path = directory ∨ ∃ rest, path = directory ++ '/' :: rest

def Healthcheck.port : Healthcheck → Text
  | .http port _ _ _ => port
  | .tcp port => port

structure Sound (m : Manifest) : Prop where
  portNames : (m.ports.map Port.name).Nodup
  portNumbers : (m.ports.map Port.port).Nodup
  healthPort : ∀ check, m.healthcheck = some check → ∃ p ∈ m.ports, p.name = check.port
  pangolinPort : ∀ p, m.pangolin = some p → (∃ q ∈ m.ports, q.name = p.port) ∧
    ∃ path status heartbeat, m.healthcheck = some (.http p.port path status heartbeat)
  mount : ∀ p, m.persistence = some p → Canonical p.mount ∧ (∀ tree ∈ systemTrees, ¬ Inside p.mount tree) ∧
    p.mount ∉ sharedDirectories
  mappings : ∀ p, m.persistence = some p → ∀ x ∈ p.mappings,
    ¬ Inside x.source p.mount ∧ ¬ Inside p.mount x.source ∧ ∃ d ∈ p.directories, Inside x.destination d
  state : (m.deployment.stateModel = .local → m.persistence ≠ none) ∧
    (m.deployment.stateModel = .stateless → m.persistence = none)
  resources : ∀ r, m.resources = some r → (1 ≤ r.cores ∧ r.cores ≤ 64) ∧
    (64 ≤ r.memoryMib ∧ r.memoryMib ≤ 1024 * 1024) ∧
    r.swapMib ≤ 1024 * 1024 ∧ (64 ≤ r.rootfsMib ∧ r.rootfsMib ≤ 1024 * 1024)
  size : ∀ p, m.persistence = some p → 1 ≤ p.sizeMib ∧ p.sizeMib ≤ 16384 * 1024
  hostname : DnsLabel m.deployment.hostname

theorem within_iff {path directory : Text} : within path directory = true ↔ Inside path directory := by
  unfold within Inside
  rw [Bool.or_eq_true, decide_eq_true_eq]
  refine or_congr_right ⟨fun h => ?_, ?_⟩
  · obtain ⟨rest, hrest, hslash⟩ := (Option.any_eq_true _ _).mp h
    have hpath := Text.isPrefixOf?_some hrest
    cases rest with
    | nil => cases hslash
    | cons c rest =>
      obtain rfl : '/' = c := by simpa [Text.startsWith] using hslash
      exact ⟨rest, hpath⟩
  · rintro ⟨rest, rfl⟩
    rw [Text.isPrefixOf?_append]
    rfl

theorem labelChar_iff {c : Char} :
    labelChar c = true ↔ ('a' ≤ c ∧ c ≤ 'z') ∨ ('0' ≤ c ∧ c ≤ '9') ∨ c = '-' := by
  simp only [labelChar, Text.isLower, Char.isDigit, Bool.or_eq_true, Bool.and_eq_true,
    decide_eq_true_eq, or_assoc]
  exact Iff.rfl

theorem labelChar_ascii {c : Char} (h : labelChar c = true) : c.toNat < 0x80 := by
  rcases labelChar_iff.1 h with ⟨-, h⟩ | ⟨-, h⟩ | rfl
  · exact Nat.lt_of_le_of_lt (show c.toNat ≤ 122 from h) (by decide)
  · exact Nat.lt_of_le_of_lt (show c.toNat ≤ 57 from h) (by decide)
  · decide

/-- An id is a DNS label but for a hyphen at its end. -/
theorem dnsLabel_of_validId {s : Text} (h : validId s = true) (hlast : s.getLast? ≠ some '-') :
    DnsLabel s := by
  simp only [validId, Bool.and_eq_true, decide_eq_true_eq, Bool.not_eq_true', List.all_eq_true] at h
  obtain ⟨⟨⟨hlow, hhigh⟩, hchars⟩, hstart⟩ := h
  have hlen : s.utf8.length = s.length := by
    rw [Text.utf8_ascii fun c hc => labelChar_ascii (hchars c hc), List.length_map]
  rw [hlen] at hlow hhigh
  refine ⟨hlow, hhigh, fun c hc => labelChar_iff.1 (hchars c hc), ?_, hlast⟩
  intro hhead
  cases s with
  | nil => cases hhead
  | cons c s =>
    obtain rfl : c = '-' := by simpa using hhead
    cases hstart

theorem validSubdomain_iff {s : Text} :
    validSubdomain s = true ↔ validId s = true ∧ s.getLast? ≠ some '-' := by
  unfold validSubdomain validId
  simp only [Bool.and_eq_true, Bool.not_eq_true', decide_eq_false_iff_not, ne_eq]

theorem flatMap_slash {parts : List Text} (h : parts ≠ []) :
    parts.flatMap ('/' :: ·) = '/' :: List.intercalate ['/'] parts := by
  induction parts with
  | nil => exact absurd rfl h
  | cons part parts ih =>
    cases parts with
    | nil => simp
    | cons part' parts =>
      have hmore : List.intercalate ['/'] (part :: part' :: parts) = part ++ ['/'] ++
          List.intercalate ['/'] (part' :: parts) :=
        List.intercalate_cons_of_ne_nil (by simp)
      rw [List.flatMap_cons, ih (by simp), hmore]
      simp

theorem canonical_of_validAbsolute {s : Text} (h : validAbsolute s = true) : Canonical s := by
  obtain ⟨rest, hrest, hrel⟩ := (Option.any_eq_true _ _).mp h
  have hs : s = '/' :: rest := Text.isPrefixOf?_some hrest
  simp only [validRelative, Bool.and_eq_true, List.all_eq_true] at hrel
  refine ⟨rest.splitOn '/', List.splitOn_ne_nil _ _, ?_, fun part hpart => ?_⟩
  · rw [flatMap_slash (List.splitOn_ne_nil _ _), List.intercalate_splitOn, hs]
  · have hplain := hrel.2 part hpart
    simp only [plainPart, Bool.and_eq_true, decide_eq_true_eq] at hplain
    refine ⟨hplain.1.1, hplain.1.2, hplain.2, fun hslash => ?_⟩
    rw [List.splitOn_eq_splitOnP] at hpart
    simpa using (Text.mem_of_mem_splitOnP hpart '/' hslash).2

theorem mount_of_validMount {s : Text} (h : validMount s = true) :
    Canonical s ∧ (∀ tree ∈ systemTrees, ¬ Inside s tree) ∧ s ∉ sharedDirectories := by
  simp only [validMount, Bool.and_eq_true, Bool.not_eq_true'] at h
  obtain ⟨⟨⟨⟨-, habs⟩, -⟩, htrees⟩, hshared⟩ := h
  refine ⟨canonical_of_validAbsolute habs, fun tree htree hinside => ?_, by simpa using hshared⟩
  have hfalse := List.any_eq_false.mp htrees tree htree
  exact hfalse (within_iff.2 hinside)

/-- The deployment leaves the host name to the id. -/
def OmitsHostname (top : Fields) : Prop :=
  ∃ fields, field top "deployment" = some (.hash fields) ∧ field fields "hostname" = none

section

variable {v : Yaml}

theorem RuntimeIs.ports {runtime : Runtime} (h : RuntimeIs v runtime) : runtime.2.1.Pairwise Port.Differ := by
  obtain ⟨fields, -, -, hports, -⟩ := h
  rcases hports with ⟨-, hnil⟩ | ⟨value, -, entries, -, -, hdiffer⟩
  · rw [hnil]
    exact List.Pairwise.nil
  · exact hdiffer

theorem HealthIs.port {ports : List Port} {check : Healthcheck} (h : HealthIs ports v check) :
    ∃ p ∈ ports, p.name = check.port := by
  obtain ⟨fields, -, port, -, hdeclared, hcase⟩ := h
  obtain ⟨p, hp, hname⟩ := List.any_eq_true.mp hdeclared
  refine ⟨p, hp, ?_⟩
  rcases hcase with ⟨-, probe, status, heartbeat, -, -, -, -, rfl⟩ | ⟨-, -, rfl⟩
  · simpa [Healthcheck.port] using hname
  · simpa [Healthcheck.port] using hname

theorem RuntimeIs.health {runtime : Runtime} (h : RuntimeIs v runtime) {check : Healthcheck}
    (hcheck : runtime.2.2 = some check) : ∃ p ∈ runtime.2.1, p.name = check.port := by
  obtain ⟨fields, -, -, -, hhealth⟩ := h
  rcases hhealth with ⟨-, hnone⟩ | ⟨check', hcheck', value, -, hhealth⟩
  · rw [hnone] at hcheck
    cases hcheck
  · obtain rfl := Option.some.inj (hcheck'.symm.trans hcheck)
    exact hhealth.port

theorem hasNat_range {fields : Fields} {name : Text} {low high : Nat} {k : Nat}
    (h : HasNat fields name low high k) :
    low ≤ k ∧ k ≤ high := by
  obtain ⟨n, ⟨value, -, -, hlow, hhigh⟩, rfl⟩ := h
  omega

theorem hasSize_range {fields : Fields} {name : Text} {low high k : Nat}
    (h : Has fields name (IsSize low high) k) :
    low ≤ k ∧ k ≤ high := by
  obtain ⟨value, -, s, -, -, hrange⟩ := h
  exact hrange

theorem RuntimeIs.resources {runtime : Runtime} (h : RuntimeIs v runtime) {r : Resources}
    (hr : runtime.1 = some r) :
    (1 ≤ r.cores ∧ r.cores ≤ 64) ∧ (64 ≤ r.memoryMib ∧ r.memoryMib ≤ 1024 * 1024) ∧ r.swapMib ≤ 1024 * 1024 ∧
      (64 ≤ r.rootfsMib ∧ r.rootfsMib ≤ 1024 * 1024) := by
  obtain ⟨fields, -, ⟨value, -, hresources⟩, -⟩ := h
  rcases hresources with ⟨-, hnone⟩ | ⟨r', hr', fields', -, hcores, hmemory, hswap, hrootfs⟩
  · rw [hnone] at hr
    cases hr
  · obtain rfl := Option.some.inj (hr'.symm.trans hr)
    exact ⟨hasNat_range hcores, hasSize_range hmemory, (hasSize_range hswap).2, hasSize_range hrootfs⟩

theorem ExposureIs.port {ports : List Port} {healthcheck : Option Healthcheck} {p : Pangolin}
    (h : ExposureIs ports healthcheck v (some p)) :
    (∃ q ∈ ports, q.name = p.port) ∧ ∃ path status heartbeat,
      healthcheck = some (.http p.port path status heartbeat) := by
  rcases h with ⟨-, hnone⟩ | ⟨q, hq, fields, -, value, -, fields', -, -, hdeclared, hhealth, -⟩
  · cases hnone
  · obtain rfl := Option.some.inj hq
    obtain ⟨x, hx, hname⟩ := List.any_eq_true.mp hdeclared
    refine ⟨⟨x, hx, by simpa using hname⟩, ?_⟩
    cases healthcheck with
    | none => cases hhealth
    | some check =>
      cases check with
      | tcp port => cases hhealth
      | http port path status heartbeat =>
        obtain rfl := Option.some.inj hhealth
        exact ⟨path, status, heartbeat, rfl⟩

theorem mapping_of_mem {mount : Text} {directories : List Text} {entries : List Yaml}
    {mappings : List Mapping} (h : List.Forall₂ (MappingIs mount directories) entries mappings)
    {x : Mapping} (hx : x ∈ mappings) :
    ∃ entry, MappingIs mount directories entry x := by
  induction h with
  | nil => cases hx
  | cons hmapping _ ih =>
    rcases List.mem_cons.mp hx with rfl | hx
    · exact ⟨_, hmapping⟩
    · exact ih hx

theorem PersistenceIs.sound {p : Persistence} (h : PersistenceIs v (some p)) :
    (Canonical p.mount ∧ (∀ tree ∈ systemTrees, ¬ Inside p.mount tree) ∧ p.mount ∉ sharedDirectories) ∧
    (∀ x ∈ p.mappings, ¬ Inside x.source p.mount ∧ ¬ Inside p.mount x.source ∧
      ∃ d ∈ p.directories, Inside x.destination d) ∧
    1 ≤ p.sizeMib ∧ p.sizeMib ≤ 16384 * 1024 := by
  rcases h with ⟨-, hnone⟩ | ⟨q, hq, fields, -, hmount, hsize, -, entries, -, hmappings⟩
  · cases hnone
  · obtain rfl := Option.some.inj hq
    refine ⟨?_, fun x hx => ?_, hasSize_range hsize⟩
    · rcases hmount with ⟨-, hdefault⟩ | ⟨-, hvalid⟩
      · rw [hdefault]
        exact mount_of_validMount (by decide +kernel)
      · exact mount_of_validMount hvalid
    · obtain ⟨entry, fields', -, -, hsource, -, hdestination⟩ := mapping_of_mem hmappings hx
      simp only [Bool.or_eq_false_iff, Bool.not_eq_false'] at hsource hdestination
      obtain ⟨d, hd, hin⟩ := List.any_eq_true.mp hdestination.2
      refine ⟨fun hin => ?_, fun hin => ?_, d, hd, within_iff.1 hin⟩
      · rw [within_iff.2 hin] at hsource
        cases hsource.1.2
      · rw [within_iff.2 hin] at hsource
        cases hsource.2

theorem DeploymentIs.hostname {id : Text} {d : Deployment} (h : DeploymentIs id v d) :
    (∃ fields, v = .hash fields ∧ field fields "hostname" = none ∧ d.hostname = id) ∨
      validSubdomain d.hostname = true := by
  obtain ⟨fields, ⟨hv, -⟩, hhostname, -⟩ := h
  rcases hhostname with ⟨hnone, hdefault⟩ | ⟨-, hvalid⟩
  · exact .inl ⟨fields, hv, hnone, hdefault⟩
  · exact .inr hvalid

end

theorem sound_of_describes {top : Fields} {m : Manifest} (h : Describes top m)
    (hhost : OmitsHostname top → m.id.getLast? ≠ some '-') : Sound m := by
  obtain ⟨-, -, ⟨-, hid⟩, -, -, ⟨runtime, -, hruntime⟩, ⟨persistence, -, hpersistence⟩,
    ⟨deployment, hdeployment, hfields⟩,
    ⟨exposure, -, hexposure⟩, hstate⟩ := h
  have hports := hruntime.ports
  constructor
  · exact List.pairwise_map.mpr (hports.imp fun hdiffer => hdiffer.1)
  · exact List.pairwise_map.mpr (hports.imp fun hdiffer => hdiffer.2)
  · exact fun check hcheck => hruntime.health hcheck
  · intro p hp
    rw [hp] at hexposure
    exact hexposure.port
  · intro p hp
    rw [hp] at hpersistence
    exact hpersistence.sound.1
  · intro p hp
    rw [hp] at hpersistence
    exact hpersistence.sound.2.1
  · exact hstate
  · exact fun r hr => hruntime.resources hr
  · intro p hp
    rw [hp] at hpersistence
    exact hpersistence.sound.2.2
  · rcases hfields.hostname with ⟨fields, rfl, hnone, hdefault⟩ | hvalid
    · rw [hdefault]
      exact dnsLabel_of_validId hid (hhost ⟨fields, hdeployment, hnone⟩)
    · obtain ⟨hlabel, hlast⟩ := validSubdomain_iff.1 hvalid
      exact dnsLabel_of_validId hlabel hlast

/-- What is promised of one call of `parse`: it returns, and a manifest is there exactly when
nothing was found wrong, and is sound. -/
def Meets (result : Option (Except Text Checked)) : Prop :=
  ∃ out, result = some out ∧ ∀ checked, out = .ok checked →
    (checked.manifest.isSome ↔ checked.issues = []) ∧ ∀ m, checked.manifest = some m → Sound m

theorem meets_error (e : Text) : Meets (some (.error e)) := by
  refine ⟨_, rfl, fun checked h => ?_⟩
  cases h

theorem meets_checked_iff {top : Fields} (hkeys : ∀ e ∈ top, e.1.asStr.isSome) {document : Yaml} :
    Meets (match checkSections top with
      | .aborted => none
      | .returned (id, name, manifest) issues =>
        some (.ok ⟨id, name, document, issues, if issues.isEmpty then manifest else none⟩)) ↔
      ¬ Splits top ∧ ∀ m, Describes top m → OmitsHostname top → m.id.getLast? ≠ some '-' := by
  have hsilent := silent_checkSections hkeys
  rw [← aborts_checkSections]
  cases hrun : checkSections top with
  | aborted =>
    refine ⟨?_, fun h => absurd rfl h.1⟩
    rintro ⟨out, hout, -⟩
    cases hout
  | returned result issues =>
    obtain ⟨id, name, manifest⟩ := result
    simp only [hrun] at hsilent
    constructor
    · rintro ⟨_, hout, hmeets⟩
      obtain rfl := Option.some.inj hout
      refine ⟨fun h => (by cases h), fun m hm homit hlast => ?_⟩
      obtain ⟨hresult, rfl⟩ := Report.returned.inj ((hsilent _).mpr ⟨m, rfl, hm⟩)
      obtain ⟨rfl, hrest⟩ := Prod.mk.inj hresult
      obtain ⟨rfl, rfl⟩ := Prod.mk.inj hrest
      have hsound := (hmeets _ rfl).2 m rfl
      obtain ⟨-, -, ⟨-, hid⟩, -, -, -, -, ⟨deployment, hdeployment, hfields⟩, -⟩ := hm
      obtain ⟨fields, homit, hnone⟩ := homit
      rw [hdeployment] at homit
      obtain rfl := Option.some.inj homit
      obtain ⟨fields', ⟨hfields', -⟩, hhostname, -⟩ := hfields
      cases hfields'
      rcases hhostname with ⟨-, hdefault⟩ | ⟨⟨value, hvalue, -⟩, -⟩
      · have hlabel := hsound.hostname
        rw [hdefault] at hlabel
        exact hlabel.2.2.2.2 hlast
      · rw [hnone] at hvalue
        cases hvalue
    · rintro ⟨-, hhost⟩
      refine ⟨_, rfl, fun checked hchecked => ?_⟩
      obtain rfl := Except.ok.inj hchecked
      -- without an issue the document describes the manifest
      have hdescribes : issues = [] → ∃ m, manifest = some m ∧ Describes top m := by
        rintro rfl
        obtain ⟨m, hresult, hm⟩ := (hsilent _).mp rfl
        exact ⟨m, (Prod.mk.inj (Prod.mk.inj hresult).2).2, hm⟩
      cases issues with
      | nil =>
        obtain ⟨m, rfl, hm⟩ := hdescribes rfl
        refine ⟨by simp, fun m' hm' => ?_⟩
        obtain rfl : m = m' := by simpa using hm'
        exact sound_of_describes hm (hhost m hm)
      | cons issue issues => simp

/-- **`parse` keeps its promise exactly when** no size that it reads ends inside a character, and
the file does not describe a manifest whose id ends with a hyphen and is taken for the host name. -/
theorem parse_meets_iff (load : Text → Except Text (List Yaml)) (text : Text) :
    Meets (parse load text) ↔ ∀ top, text.utf8.length ≤ 64 * 1024 → load text = .ok [.hash top] →
      (∀ e ∈ top, e.1.asStr.isSome) →
        ¬ Splits top ∧ ∀ m, Describes top m → OmitsHostname top → m.id.getLast? ≠ some '-' := by
  unfold parse
  by_cases hlong : 64 * 1024 < text.utf8.length
  · rw [if_pos hlong]
    refine ⟨fun _ top hlen => absurd hlen (by omega), fun _ => meets_error _⟩
  rw [if_neg hlong]
  cases hload : load text with
  | error e => exact ⟨fun _ top _ hok => (by cases hok), fun _ => meets_error _⟩
  | ok documents =>
    match documents with
    | [] => exact ⟨fun _ top _ hok => (by cases hok), fun _ => meets_error _⟩
    | _ :: _ :: _ => exact ⟨fun _ top _ hok => (by cases hok), fun _ => meets_error _⟩
    | [document] =>
      simp only
      cases document with
      | hash top =>
        unfold checkDocument
        simp only
        by_cases hkeys : ∀ e ∈ top, e.1.asStr.isSome
        · have hany : (top.any fun e => e.1.asStr.isNone) = false := by
            rw [List.any_eq_false]
            intro e he hnone
            have hsome := hkeys e he
            rw [Option.isNone_iff_eq_none] at hnone
            rw [hnone] at hsome
            cases hsome
          rw [hany, if_neg (by decide)]
          have htop : (∀ top', text.utf8.length ≤ 64 * 1024 →
              Except.ok [Yaml.hash top] = (Except.ok [Yaml.hash top'] : Except Text _) →
              (∀ e ∈ top', e.1.asStr.isSome) →
                ¬ Splits top' ∧ ∀ m, Describes top' m → OmitsHostname top' → m.id.getLast? ≠ some '-') ↔
              ¬ Splits top ∧ ∀ m, Describes top m → OmitsHostname top → m.id.getLast? ≠ some '-' := by
            refine ⟨fun h => h top (by omega) rfl hkeys, fun h top' _ heq _ => ?_⟩
            cases heq
            exact h
          rw [htop]
          exact meets_checked_iff hkeys
        · have hany : (top.any fun e => e.1.asStr.isNone) = true := by
            simpa using hkeys
          rw [hany, if_pos rfl]
          refine ⟨fun _ top' _ heq hkeys' => ?_, fun _ => meets_error _⟩
          cases heq
          exact absurd hkeys' hkeys
      | _ => exact ⟨fun _ top _ hok => (by cases hok), fun _ => meets_error _⟩

/-- A file with an id, a size for its volume and no host name. -/
def volumeFile (id size : Text) : Yaml :=
  .hash [(.string "schema", .integer 1), (.string "id", .string id), (.string "name", .string "App"),
    (.string "image", .hash [(.string "repository", .string "docker.io/app")]),
    (.string "runtime", .hash [(.string "resources", .null)]),
    (.string "persistence", .hash [(.string "size", .string size)]),
    (.string "deployment", .hash [(.string "instances", .integer 1),
      (.string "state_model", .string "local")]),
    (.string "exposure", .null)]

/-- The size `5€` panics, and the id `app-` becomes a host name. -/
theorem parse_size_and_hostname :
    ¬ Meets (parse (fun _ => .ok [volumeFile "app" "5€"]) []) ∧
      ¬ Meets (parse (fun _ => .ok [volumeFile "app-" "5G"]) []) := by
  constructor
  · have hnone : (parse (fun _ => .ok [volumeFile "app" "5€"]) []).isNone = true := by decide +kernel
    rintro ⟨out, hout, -⟩
    rw [hout] at hnone
    cases hnone
  · rintro ⟨out, hout, hmeets⟩
    have hhost : ((parse (fun _ => .ok [volumeFile "app-" "5G"]) []).bind fun out =>
        out.toOption.bind fun checked => checked.manifest.map fun m => m.deployment.hostname) =
          some "app-" := by
      decide +kernel
    rw [hout, Option.bind_some] at hhost
    obtain ⟨checked, hchecked, hmanifest⟩ := Option.bind_eq_some_iff.mp hhost
    obtain ⟨m, hm, hname⟩ := Option.map_eq_some_iff.mp hmanifest
    have hok : out = .ok checked := by
      cases out with
      | error e => cases hchecked
      | ok c =>
        obtain rfl := Option.some.inj hchecked
        rfl
    have hlabel := ((hmeets checked hok).2 m hm).hostname
    rw [hname] at hlabel
    exact hlabel.2.2.2.2 rfl

end HomeStack.ServiceManifest

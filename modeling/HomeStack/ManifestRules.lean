import HomeStack.ServiceManifest

/-! What a service manifest must be, section by section, and that the checks of
`services/manifest.rs` are silent exactly on it. -/

namespace HomeStack.ServiceManifest

open Report Check

/-! ## Fields -/

/-- Every field has one of these names. -/
def Known (fields : Fields) (allowed : List Text) : Prop := ∀ e ∈ fields, ∃ name ∈ allowed, e.1 = .string name

/-- The field is there, and its value is read as `a`. -/
def Has {α : Type} (fields : Fields) (name : Text) (P : Yaml → α → Prop) (a : α) : Prop :=
  ∃ v, field fields name = some v ∧ P v a

def IsText (v : Yaml) (s : Text) : Prop := v = .string s

def IsInt (low high : Int) (v : Yaml) (n : Int) : Prop := v = .integer n ∧ low ≤ n ∧ n ≤ high

def IsSize (low high : Nat) (v : Yaml) (mib : Nat) : Prop :=
  ∃ s, v = .string s ∧ Silent (parseSize s) (some mib) ∧ low ≤ mib ∧ mib ≤ high

def Chooses {α : Type} (choices : List (Text × α)) (v : Yaml) (a : α) : Prop :=
  ∃ s found, v = .string s ∧ choices.find? (·.1 = s) = some found ∧ a = found.2

/-- The field is an integer of the range, as an unsigned one. -/
def HasNat (fields : Fields) (name : Text) (low high : Int) (k : Nat) : Prop :=
  ∃ n, Has fields name (IsInt low high) n ∧ k = n.toNat

theorem asStr_eq_some {v : Yaml} {s : Text} : v.asStr = some s ↔ v = .string s := by
  cases v <;> simp [Yaml.asStr]

theorem isNull_iff {v : Yaml} : v.isNull = true ↔ v = .null := by
  cases v <;> simp [Yaml.isNull]

section

variable {v : Yaml} {path : Path} {fields : Fields} {name : Text}

theorem silent_mapping {allowed : List Text} (r : Option Fields) :
    Silent (mapping v path allowed) r ↔ ∃ fields, r = some fields ∧ v = .hash fields ∧
      Known fields allowed := by
  cases v with
  | hash fields =>
    have hkey : ∀ e : Yaml × Yaml, Silent (mappingKey path allowed e.1) () ↔
        ∃ name ∈ allowed, e.1 = .string name := by
      intro e
      unfold mappingKey
      cases hs : e.1.asStr with
      | none =>
        simp only [silent_fail, false_iff]
        rintro ⟨name, -, hname⟩
        rw [hname] at hs
        cases hs
      | some name =>
        rw [asStr_eq_some] at hs
        simp [hs]
    simp only [mapping, silent_bind, silent_each, hkey, silent_pure]
    simp [Known, and_comm]
  | _ => simp [mapping, silent_bind]

theorem silent_required (r : Option Yaml) :
    Silent (required fields path name) r ↔ ∃ v, r = some v ∧ field fields name = some v := by
  unfold required
  cases field fields name with
  | none => simp [silent_bind]
  | some v => simp

theorem silent_string (r : Option Text) : Silent (string v path) r ↔ ∃ s, r = some s ∧ IsText v s := by
  unfold string IsText
  cases hs : v.asStr with
  | none =>
    have hnot : ∀ s, v ≠ .string s := fun s hv => by simp [hv, Yaml.asStr] at hs
    simp [silent_bind, hnot]
  | some s =>
    rw [asStr_eq_some] at hs
    simp [hs]

theorem silent_integer {low high : Int} (r : Option Int) :
    Silent (integer v path low high) r ↔ ∃ n, r = some n ∧ IsInt low high v n := by
  unfold integer IsInt
  cases v with
  | integer n =>
    by_cases hn : low ≤ n ∧ n ≤ high
    · simp [hn]
    · simp only [if_neg hn, silent_bind, silent_fail]
      constructor
      · rintro ⟨_, h, -⟩
        exact h.elim
      · rintro ⟨m, -, hm, hrange⟩
        obtain rfl : n = m := by simpa using hm
        exact absurd hrange hn
  | _ => simp [silent_bind]

theorem silent_list (r : Option (List Yaml)) :
    Silent (list v path) r ↔ ∃ items, r = some items ∧ v = .array items := by
  cases v with
  | array items => simp [list]
  | _ => simp [list, silent_bind]

theorem silent_choice {α : Type} {choices : List (Text × α)} (r : Option α) :
    Silent (choice v path choices) r ↔ ∃ a, r = some a ∧ Chooses choices v a := by
  unfold choice Chooses
  rw [silent_andThen_some silent_string]
  unfold IsText
  constructor
  · rintro ⟨s, hs, h⟩
    cases hfound : choices.find? (·.1 = s) with
    | none =>
      rw [hfound] at h
      simp [silent_bind] at h
    | some found =>
      rw [hfound] at h
      exact ⟨found.2, silent_pure.mp h, s, found, hs, hfound, rfl⟩
  · rintro ⟨_, rfl, s, found, hs, hfound, rfl⟩
    refine ⟨s, hs, ?_⟩
    rw [hfound]
    simp

theorem silent_size {low high : Nat} (hhigh : high < 2 ^ 32) (r : Option Nat) :
    Silent (size v path low high) r ↔ ∃ mib, r = some mib ∧ IsSize low high v mib := by
  have hcheck : ∀ parsed : Option Nat, Silent (sizeInRange path low high parsed) r ↔
      ∃ mib, parsed = some mib ∧ r = some mib ∧ low ≤ mib ∧ mib ≤ high := by
    intro parsed
    cases parsed with
    | none => simp [sizeInRange, silent_bind]
    | some mib =>
      by_cases hmib : mib < 2 ^ 32 ∧ low ≤ mib ∧ mib ≤ high
      · rw [sizeInRange, if_pos hmib]
        simp [hmib.2]
      · simp only [sizeInRange, if_neg hmib, silent_bind, silent_fail]
        constructor
        · rintro ⟨_, h, -⟩
          exact h.elim
        · rintro ⟨m, hm, -, hrange⟩
          obtain rfl : mib = m := by simpa using hm
          exact absurd ⟨by omega, hrange⟩ hmib
  unfold size IsSize sizeText
  rw [silent_bind]
  simp only [hcheck]
  constructor
  · rintro ⟨_, hparsed, mib, rfl, rfl, hrange⟩
    cases hs : v.asStr with
    | none =>
      rw [hs] at hparsed
      simp at hparsed
    | some s =>
      rw [hs] at hparsed
      exact ⟨mib, rfl, s, asStr_eq_some.1 hs, hparsed, hrange⟩
  · rintro ⟨mib, rfl, s, rfl, hparsed, hrange⟩
    exact ⟨some mib, hparsed, mib, rfl, rfl, hrange⟩

theorem silent_checked {α : Type} {check : Yaml → Path → Check (Option α)} {P : Yaml → α → Prop}
    (hcheck : ∀ v path r, Silent (check v path) r ↔ ∃ a, r = some a ∧ P v a) (r : Option α) :
    Silent (checked fields path name check) r ↔ ∃ a, r = some a ∧ Has fields name P a := by
  unfold checked Has
  rw [silent_andThen_some silent_required]
  simp only [hcheck]
  constructor
  · rintro ⟨v, hv, a, rfl, ha⟩
    exact ⟨a, rfl, v, hv, ha⟩
  · rintro ⟨a, rfl, v, hv, ha⟩
    exact ⟨v, hv, a, rfl, ha⟩

theorem silent_checked_string (r : Option Text) :
    Silent (checked fields path name string) r ↔ ∃ a, r = some a ∧ Has fields name IsText a := by
  refine silent_checked (fun v path r => ?_) r
  exact silent_string r

theorem silent_checked_integer {low high : Int} (r : Option Int) :
    Silent (checked fields path name (integer · · low high)) r ↔ ∃ a, r = some a ∧
      Has fields name (IsInt low high) a := by
  refine silent_checked (fun v path r => ?_) r
  exact silent_integer r

theorem silent_checked_size {low high : Nat} (hhigh : high < 2 ^ 32) (r : Option Nat) :
    Silent (checked fields path name (size · · low high)) r ↔ ∃ a, r = some a ∧
      Has fields name (IsSize low high) a := by
  refine silent_checked (fun v path r => ?_) r
  exact silent_size hhigh r

theorem silent_checked_choice {α : Type} {choices : List (Text × α)} (r : Option α) :
    Silent (checked fields path name (choice · · choices)) r ↔ ∃ a, r = some a ∧
      Has fields name (Chooses choices) a := by
  refine silent_checked (fun v path r => ?_) r
  exact silent_choice r

theorem silent_filtered {α : Type} {a : α} {refused : α → Bool} {issue : α → Issue} (r : Option α) :
    Silent (filtered (some a) refused issue) r ↔ r = some a ∧ refused a = false := by
  unfold filtered
  cases hrefused : refused a with
  | true => simp [silent_bind, hrefused]
  | false => simp [hrefused]

end

/-! ## The sections -/

theorem tryFrom_of_has (bound : Nat) {fields : Fields} {name : Text} {n low high : Int}
    (h : Has fields name (IsInt low high) n) (hlow : 0 ≤ low) (hhigh : high < bound) :
    tryFrom bound n = some n.toNat := by
  obtain ⟨v, -, -, hn, hn'⟩ := h
  rw [tryFrom, if_pos ⟨by omega, by omega⟩]

def ImageIs (v : Yaml) (repository : Text) : Prop :=
  ∃ fields, (v = .hash fields ∧ Known fields ["repository"]) ∧
    Has fields "repository" IsText repository ∧ validRepository repository = true

def ResourcesIs (v : Yaml) (r : Resources) : Prop :=
  ∃ fields, (v = .hash fields ∧ Known fields ["cores", "memory", "swap", "rootfs"]) ∧
    HasNat fields "cores" 1 64 r.cores ∧ Has fields "memory" (IsSize 64 (1024 * 1024)) r.memoryMib ∧
    Has fields "swap" (IsSize 0 (1024 * 1024)) r.swapMib ∧
      Has fields "rootfs" (IsSize 64 (1024 * 1024)) r.rootfsMib

def PortIs (v : Yaml) (p : Port) : Prop :=
  ∃ fields, (v = .hash fields ∧ Known fields ["name", "port", "protocol"]) ∧
    Has fields "name" IsText p.name ∧ validPortName p.name = true ∧ HasNat fields "port" 1 65535 p.port ∧
    Has fields "protocol" IsText "tcp"

/-- Neither the name nor the number of one port is that of the other. -/
def Port.Differ (p q : Port) : Prop := p.name ≠ q.name ∧ p.port ≠ q.port

def PortsAre (v : Yaml) (ports : List Port) : Prop :=
  ∃ entries, v = .array entries ∧ List.Forall₂ PortIs entries ports ∧ ports.Pairwise Port.Differ

section

variable {v : Yaml} {path : Path}

theorem silent_imageOf (r : Option Text) : Silent (imageOf v) r ↔ ∃ a, r = some a ∧ ImageIs v a := by
  unfold imageOf ImageIs
  rw [silent_andThen_some silent_mapping]
  simp only [silent_andThen_some silent_checked_string]
  constructor
  · rintro ⟨fields, hfields, repository, hrepository, h⟩
    by_cases hvalid : validRepository repository = true
    · rw [if_pos hvalid, silent_pure] at h
      exact ⟨repository, h, fields, hfields, hrepository, hvalid⟩
    · rw [if_neg hvalid] at h
      simp [silent_bind] at h
  · rintro ⟨repository, rfl, fields, hfields, hrepository, hvalid⟩
    refine ⟨fields, hfields, repository, hrepository, ?_⟩
    rw [if_pos hvalid]
    simp

theorem silent_resourcesOf (r : Option Resources) :
    Silent (resourcesOf v path) r ↔ ∃ a, r = some a ∧ ResourcesIs v a := by
  have hsize : 1024 * 1024 < 2 ^ 32 := by norm_num
  unfold resourcesOf ResourcesIs
  rw [silent_andThen_some silent_mapping]
  simp only [silent_bind, silent_checked_integer, silent_checked_size hsize, silent_pure]
  constructor
  · rintro ⟨fields, hfields, _, ⟨cores, rfl, hc⟩, _, ⟨memory, rfl, hm⟩, _, ⟨swap, rfl, hs⟩,
    _, ⟨rootfs, rfl, hr⟩, rfl⟩
    refine ⟨⟨cores.toNat, memory, swap, rootfs⟩, ?_, fields, hfields, ⟨cores, hc, rfl⟩, hm, hs, hr⟩
    simp only [Option.bind_eq_bind, Option.bind_some, tryFrom_of_has (2 ^ 32) hc (by norm_num) (by norm_num)]
  · rintro ⟨⟨_, memory, swap, rootfs⟩, rfl, fields, hfields, ⟨cores, hc, rfl⟩, hm, hs, hr⟩
    refine ⟨fields, hfields, _, ⟨cores, rfl, hc⟩, _, ⟨_, rfl, hm⟩, _, ⟨_, rfl, hs⟩, _, ⟨_, rfl, hr⟩, ?_⟩
    simp only [Option.bind_eq_bind, Option.bind_some, tryFrom_of_has (2 ^ 32) hc (by norm_num) (by norm_num)]

theorem chooses_tcp {u : Unit} : Chooses [(("tcp" : Text), ())] v u ↔ IsText v "tcp" := by
  unfold Chooses IsText
  constructor
  · rintro ⟨s, found, rfl, hfound, -⟩
    have hs := List.find?_some hfound
    have hmem := List.mem_of_find?_eq_some hfound
    simp only [List.mem_singleton] at hmem
    subst hmem
    have hname : ("tcp" : Text) = s := by simpa using hs
    rw [hname]
  · rintro rfl
    exact ⟨_, _, rfl, rfl, rfl⟩

theorem silent_portOf (r : Option Port) : Silent (portOf v path) r ↔ ∃ p, r = some p ∧ PortIs v p := by
  unfold portOf PortIs
  rw [silent_andThen_some silent_mapping]
  simp only [silent_bind, silent_checked_string, silent_checked_integer, silent_checked_choice, silent_pure]
  constructor
  · rintro ⟨fields, hfields, _, ⟨name, rfl, hname⟩, _, hvalid, _, ⟨port, rfl, hport⟩, _,
    ⟨⟨⟩, rfl, hprotocol⟩, rfl⟩
    obtain ⟨rfl, hok⟩ := (silent_filtered _).mp hvalid
    obtain ⟨y, hy, hchoice⟩ := hprotocol
    refine ⟨⟨name, port.toNat⟩, ?_, fields, hfields, hname, by simpa using hok, ⟨port, hport, rfl⟩, y, hy,
      chooses_tcp.1 hchoice⟩
    simp only [Option.bind_eq_bind, Option.bind_some,
      tryFrom_of_has (2 ^ 16) hport (by norm_num) (by norm_num)]
  · rintro ⟨⟨name, _⟩, rfl, fields, hfields, hname, hvalid, ⟨port, hport, rfl⟩, y, hy, hprotocol⟩
    refine ⟨fields, hfields, _, ⟨_, rfl, hname⟩, _, (silent_filtered _).mpr ⟨rfl, by simpa using hvalid⟩, _,
      ⟨port, rfl, hport⟩, _, ⟨(), rfl, y, hy, chooses_tcp.2 hprotocol⟩, ?_⟩
    simp only [Option.bind_eq_bind, Option.bind_some,
      tryFrom_of_has (2 ^ 16) hport (by norm_num) (by norm_num)]

/-- The ports read so far stay in front. -/
theorem silent_portLoop {entries : List Yaml} {index : Nat} {ports : List Port} {valid : Bool}
    (hports : ports.Pairwise Port.Differ) (r : List Port × Bool) :
    Silent (portLoop path index ports valid entries) r ↔
      ∃ new, r = (ports ++ new, valid) ∧ List.Forall₂ PortIs entries new ∧
        (ports ++ new).Pairwise Port.Differ := by
  induction entries generalizing index ports with
  | nil => simp [portLoop, hports]
  | cons entry rest ih =>
    rw [portLoop, silent_bind]
    simp only [silent_portOf]
    -- a port that differs from those before it is added
    have hadd : ∀ p : Port, (ports ++ [p]).Pairwise Port.Differ ↔
        (ports.any (·.name = p.name)) = false ∧ (ports.any (·.port = p.port)) = false := by
      intro p
      simp only [List.pairwise_append, hports, List.pairwise_singleton, List.mem_singleton,
        forall_eq, true_and, Port.Differ,
        List.any_eq_false, decide_eq_true_eq]
      exact ⟨fun h => ⟨fun q hq => (h q hq).1, fun q hq => (h q hq).2⟩, fun h q hq => ⟨h.1 q hq, h.2 q hq⟩⟩
    constructor
    · rintro ⟨_, ⟨p, rfl, hp⟩, h⟩
      simp only at h
      split at h
      · simp [silent_bind] at h
      · rename_i hname
        split at h
        · simp [silent_bind] at h
        · rename_i hport
          have hdiffer := (hadd p).mpr ⟨by simpa using hname, by simpa using hport⟩
          obtain ⟨new, rfl, hnew, hall⟩ := (ih hdiffer).mp h
          refine ⟨p :: new, by simp, .cons hp hnew, by simpa using hall⟩
    · rintro ⟨new, rfl, hnew, hall⟩
      cases hnew with
      | @cons _ p _ new hp hnew =>
        have hsplit : ports ++ p :: new = (ports ++ [p]) ++ new := by simp
        rw [hsplit] at hall
        have hdiffer := (List.pairwise_append.mp hall).1
        refine ⟨some p, ⟨p, rfl, hp⟩, ?_⟩
        obtain ⟨hname, hport⟩ := (hadd p).mp hdiffer
        simp only [hname, hport]
        exact (ih hdiffer).mpr ⟨new, by rw [hsplit], hnew, hall⟩

theorem silent_portsOf (r : Option (List Port)) :
    Silent (portsOf v path) r ↔ ∃ ports, r = some ports ∧ PortsAre v ports := by
  unfold portsOf PortsAre
  rw [silent_andThen_some silent_list]
  simp only [silent_bind, silent_portLoop List.Pairwise.nil, List.nil_append]
  constructor
  · rintro ⟨entries, hv, _, ⟨new, rfl, hnew, hall⟩, h⟩
    exact ⟨new, silent_pure.mp h, entries, hv, hnew, hall⟩
  · rintro ⟨ports, rfl, entries, hv, hnew, hall⟩
    exact ⟨entries, hv, _, ⟨ports, rfl, hnew, hall⟩, silent_pure.mpr rfl⟩

end

/-! ### The runtime -/

def HeartbeatIs (fields : Fields) (n : Int) : Prop :=
  (field fields "heartbeat_seconds" = none ∧ n = 60) ∨ Has fields "heartbeat_seconds" (IsInt 10 3600) n

/-- A check by HTTP on the port, or one of the connection alone. -/
def HealthIs (ports : List Port) (v : Yaml) (check : Healthcheck) : Prop :=
  ∃ fields, (v = .hash fields ∧ Known fields ["type", "port", "path",
    "expected_status", "heartbeat_seconds"]) ∧
    ∃ port, Has fields "port" IsText port ∧ ports.any (·.name = port) = true ∧
      ((Has fields "type" (Chooses [("http", true), ("tcp", false)]) true ∧
          ∃ probe status heartbeat, Has fields "path" IsText probe ∧
            (!Text.startsWith "/" probe || probe.any Text.isControl) = false ∧
            Has fields "expected_status" (IsInt 100 599) status ∧ HeartbeatIs fields heartbeat ∧
            check = .http port probe status.toNat heartbeat.toNat) ∨
        (Has fields "type" (Chooses [("http", true), ("tcp", false)]) false ∧
          (∀ name ∈ (["path", "expected_status", "heartbeat_seconds"] : List Text),
            field fields name = none) ∧
          check = .tcp port))

/-- An empty field stands for no resources. -/
def RuntimeResourcesIs (v : Yaml) (resources : Option Resources) : Prop :=
  (v = .null ∧ resources = none) ∨ ∃ a, resources = some a ∧ ResourcesIs v a

def RuntimeIs (v : Yaml) (runtime : Runtime) : Prop :=
  ∃ fields, (v = .hash fields ∧ Known fields ["resources", "ports", "healthcheck"]) ∧
    Has fields "resources" RuntimeResourcesIs runtime.1 ∧
    ((field fields "ports" = none ∧ runtime.2.1 = []) ∨ Has fields "ports" PortsAre runtime.2.1) ∧
    ((field fields "healthcheck" = none ∧ runtime.2.2 = none) ∨
      ∃ check, runtime.2.2 = some check ∧ Has fields "healthcheck" (HealthIs runtime.2.1) check)

section

variable {v : Yaml} {path : Path} {fields : Fields}

theorem silent_heartbeatOf (r : Option Int) :
    Silent (heartbeatOf fields path) r ↔ ∃ n, r = some n ∧ HeartbeatIs fields n := by
  unfold heartbeatOf HeartbeatIs Has
  cases field fields "heartbeat_seconds" with
  | none => simp
  | some value => simp [silent_integer]

theorem HeartbeatIs.tryFrom {n : Int} (h : HeartbeatIs fields n) : tryFrom (2 ^ 32) n = some n.toNat := by
  rcases h with ⟨-, rfl⟩ | h
  · rfl
  · exact tryFrom_of_has (2 ^ 32) h (by norm_num) (by norm_num)

theorem silent_httpOf {port : Text} (r : Option Healthcheck) : Silent (httpOf fields path (some port)) r ↔
    ∃ probe status heartbeat, Has fields "path" IsText probe ∧
      (!Text.startsWith "/" probe || probe.any Text.isControl) = false ∧
      Has fields "expected_status" (IsInt 100 599) status ∧ HeartbeatIs fields heartbeat ∧
      r = some (.http port probe status.toNat heartbeat.toNat) := by
  unfold httpOf
  simp only [silent_bind, silent_checked_string, silent_checked_integer, silent_heartbeatOf, silent_pure]
  constructor
  · rintro ⟨_, ⟨probe, rfl, hprobe⟩, _, hvalid, _, ⟨status, rfl, hstatus⟩, _,
    ⟨heartbeat, rfl, hheartbeat⟩, rfl⟩
    obtain ⟨rfl, hok⟩ := (silent_filtered _).mp hvalid
    refine ⟨probe, status, heartbeat, hprobe, hok, hstatus, hheartbeat, ?_⟩
    simp only [Option.bind_eq_bind, Option.bind_some,
      tryFrom_of_has (2 ^ 16) hstatus (by norm_num) (by norm_num),
      hheartbeat.tryFrom]
  · rintro ⟨probe, status, heartbeat, hprobe, hok, hstatus, hheartbeat, rfl⟩
    refine ⟨_, ⟨probe, rfl, hprobe⟩, _, (silent_filtered _).mpr ⟨rfl, hok⟩, _, ⟨status, rfl, hstatus⟩, _,
      ⟨heartbeat, rfl, hheartbeat⟩, ?_⟩
    simp only [Option.bind_eq_bind, Option.bind_some,
      tryFrom_of_has (2 ^ 16) hstatus (by norm_num) (by norm_num),
      hheartbeat.tryFrom]

theorem silent_healthcheckOf {ports : List Port} (r : Option Healthcheck) :
    Silent (healthcheckOf v path ports) r ↔ ∃ a, r = some a ∧ HealthIs ports v a := by
  unfold healthcheckOf HealthIs
  rw [silent_andThen_some silent_mapping]
  simp only [silent_bind, silent_checked_string, silent_andThen_some silent_checked_choice]
  constructor
  · rintro ⟨fields, hfields, _, ⟨port, rfl, hport⟩, _, hvalid, kind, hkind, h⟩
    obtain ⟨rfl, hok⟩ := (silent_filtered _).mp hvalid
    have hdeclared : ports.any (·.name = port) = true := by simpa using hok
    cases kind with
    | true =>
      rw [if_pos rfl] at h
      obtain ⟨probe, status, heartbeat, hprobe, hvalid, hstatus, hheartbeat, rfl⟩ := (silent_httpOf _).mp h
      exact ⟨_, rfl, fields, hfields, port, hport, hdeclared,
        .inl ⟨hkind, probe, status, heartbeat, hprobe, hvalid, hstatus, hheartbeat, rfl⟩⟩
    | false =>
      rw [if_neg (by decide), silent_bind] at h
      obtain ⟨_, hnone, hr⟩ := h
      rw [silent_each] at hnone
      refine ⟨.tcp port, silent_pure.mp hr, fields, hfields, port, hport, hdeclared, .inr ⟨hkind, ?_, rfl⟩⟩
      intro name hname
      simpa using hnone name hname
  · rintro ⟨a, rfl, fields, hfields, port, hport, hdeclared, hcase⟩
    refine ⟨fields, hfields, _, ⟨port, rfl, hport⟩, _,
      (silent_filtered _).mpr ⟨rfl, by simpa using hdeclared⟩, ?_⟩
    rcases hcase with ⟨hkind, probe, status, heartbeat, hprobe, hvalid, hstatus, hheartbeat,
      rfl⟩ | ⟨hkind, hnone, rfl⟩
    · refine ⟨true, hkind, ?_⟩
      rw [if_pos rfl]
      exact (silent_httpOf _).mpr ⟨probe, status, heartbeat, hprobe, hvalid, hstatus, hheartbeat, rfl⟩
    · refine ⟨false, hkind, ?_⟩
      rw [if_neg (by decide), silent_bind]
      refine ⟨(), silent_each.mpr fun name hname => ?_, silent_pure.mpr rfl⟩
      simpa using hnone name hname

theorem silent_runtimeResources (r : Option (Option Resources)) : Silent (runtimeResources v path) r ↔
    ∃ a, r = some a ∧ RuntimeResourcesIs v a := by
  unfold runtimeResources RuntimeResourcesIs
  by_cases hnull : v.isNull = true
  · rw [if_pos hnull]
    obtain rfl := isNull_iff.1 hnull
    have hnot : ∀ b, ¬ ResourcesIs .null b := by
      rintro b ⟨fields, ⟨hv, -⟩, -⟩
      cases hv
    simp [hnot]
  · rw [if_neg hnull, silent_bind]
    have hv : v ≠ .null := fun hv => hnull (isNull_iff.2 hv)
    simp only [silent_resourcesOf, silent_pure, hv, false_and, false_or]
    constructor
    · rintro ⟨_, ⟨a, rfl, ha⟩, rfl⟩
      exact ⟨some a, rfl, a, rfl, ha⟩
    · rintro ⟨_, rfl, a, rfl, ha⟩
      exact ⟨some a, ⟨a, rfl, ha⟩, rfl⟩

theorem silent_checked_resources {name : Text} (r : Option (Option Resources)) :
    Silent (checked fields path name runtimeResources) r ↔ ∃ a, r = some a ∧
      Has fields name RuntimeResourcesIs a := by
  refine silent_checked (fun v path r => ?_) r
  exact silent_runtimeResources r

theorem silent_runtimePorts (r : Option (List Port)) : Silent (runtimePorts fields path) r ↔
    ∃ ports, r = some ports ∧ ((field fields "ports" = none ∧ ports = []) ∨
      Has fields "ports" PortsAre ports) := by
  unfold runtimePorts Has
  cases field fields "ports" with
  | none => simp
  | some value => simp [silent_portsOf]

theorem silent_runtimeHealthcheck {ports : List Port} (r : Option (Option Healthcheck)) :
    Silent (runtimeHealthcheck fields path (some ports)) r ↔ ∃ a, r = some a ∧
      ((field fields "healthcheck" = none ∧ a = none) ∨
        ∃ check, a = some check ∧ Has fields "healthcheck" (HealthIs ports) check) := by
  unfold runtimeHealthcheck Has
  cases field fields "healthcheck" with
  | none => simp
  | some value =>
    simp only [silent_bind, silent_healthcheckOf, silent_pure]
    constructor
    · rintro ⟨_, ⟨check, rfl, hcheck⟩, rfl⟩
      exact ⟨some check, rfl, .inr ⟨check, rfl, value, rfl, hcheck⟩⟩
    · rintro ⟨_, rfl, ⟨hnone, -⟩ | ⟨check, rfl, v, hv, hcheck⟩⟩
      · cases hnone
      · obtain rfl := Option.some.inj hv
        exact ⟨some check, ⟨check, rfl, hcheck⟩, rfl⟩

theorem silent_runtimeOf (r : Option Runtime) : Silent (runtimeOf v) r ↔ ∃ a, r = some a ∧ RuntimeIs v a := by
  unfold runtimeOf RuntimeIs
  rw [silent_andThen_some silent_mapping]
  simp only [silent_bind, silent_checked_resources, silent_runtimePorts, silent_pure]
  constructor
  · rintro ⟨fields, hfields, _, ⟨resources, rfl, hresources⟩, _, ⟨ports, rfl, hports⟩, _, hhealth, rfl⟩
    obtain ⟨check, rfl, hcheck⟩ := (silent_runtimeHealthcheck _).mp hhealth
    exact ⟨(resources, ports, check), rfl, fields, hfields, hresources, hports, hcheck⟩
  · rintro ⟨⟨resources, ports, check⟩, rfl, fields, hfields, hresources, hports, hcheck⟩
    exact ⟨fields, hfields, _, ⟨resources, rfl, hresources⟩, _, ⟨ports, rfl, hports⟩, _,
      (silent_runtimeHealthcheck _).mpr ⟨check, rfl, hcheck⟩, rfl⟩

end

/-! ### The persistence -/

/-- A field that may be left out. -/
def TextOr (fields : Fields) (name default : Text) (valid : Text → Bool) (s : Text) : Prop :=
  (field fields name = none ∧ s = default) ∨ (Has fields name IsText s ∧ valid s = true)

def EntriesAre (fields : Fields) (name : Text) (entries : List Yaml) : Prop :=
  (field fields name = none ∧ entries = []) ∨ field fields name = some (.array entries)

def DirectoriesAre (entries : List Yaml) (directories : List Text) : Prop :=
  List.Forall₂ IsText entries directories ∧ (∀ d ∈ directories, validRelative d = true) ∧ directories.Nodup

def MappingIs (mount : Text) (directories : List Text) (v : Yaml) (m : Mapping) : Prop :=
  ∃ fields, (v = .hash fields ∧ Known fields ["source", "destination"]) ∧
    Has fields "source" IsText m.source ∧
    (!validAbsolute m.source || within m.source mount || within mount m.source) = false ∧
    Has fields "destination" IsText m.destination ∧
    (!validRelative m.destination || !directories.any (within m.destination ·)) = false

def PersistenceIs (v : Yaml) (p : Option Persistence) : Prop :=
  (v = .null ∧ p = none) ∨
    ∃ q, p = some q ∧ ∃ fields, (v = .hash fields ∧
      Known fields ["mount", "size", "directories", "mappings"]) ∧
      TextOr fields "mount" defaultMount validMount q.mount ∧
        Has fields "size" (IsSize 1 (16384 * 1024)) q.sizeMib ∧
      (∃ entries, EntriesAre fields "directories" entries ∧ DirectoriesAre entries q.directories) ∧
      ∃ entries, EntriesAre fields "mappings" entries ∧
        List.Forall₂ (MappingIs q.mount q.directories) entries q.mappings

section

variable {v : Yaml} {path : Path} {fields : Fields}

theorem silent_textOr {name default : Text} {valid : Text → Bool} {message : Text} (r : Option Text) :
    Silent (textOr fields path name (some default) valid message) r ↔
      ∃ s, r = some s ∧ TextOr fields name default valid s := by
  unfold textOr TextOr Has
  cases field fields name with
  | none => simp
  | some value =>
    simp only [silent_andThen_some silent_string]
    constructor
    · rintro ⟨s, hs, h⟩
      by_cases hvalid : valid s = true
      · rw [if_pos hvalid, silent_pure] at h
        exact ⟨s, h, .inr ⟨⟨value, rfl, hs⟩, hvalid⟩⟩
      · rw [if_neg hvalid] at h
        simp [silent_bind] at h
    · rintro ⟨s, rfl, ⟨hnone, -⟩ | ⟨⟨v, hv, hs⟩, hvalid⟩⟩
      · cases hnone
      · obtain rfl := Option.some.inj hv
        refine ⟨s, hs, ?_⟩
        rw [if_pos hvalid]
        simp

theorem silent_entriesOf {name : Text} (entries : List Yaml) :
    Silent (entriesOf fields path name) entries ↔ EntriesAre fields name entries := by
  unfold entriesOf EntriesAre
  cases field fields name with
  | none => simp
  | some value =>
    simp only [silent_bind, silent_list, silent_pure]
    constructor
    · rintro ⟨_, ⟨items, rfl, rfl⟩, rfl⟩
      exact .inr rfl
    · rintro (⟨hnone, -⟩ | hvalue)
      · cases hnone
      · obtain rfl := Option.some.inj hvalue
        exact ⟨_, ⟨entries, rfl, rfl⟩, rfl⟩

theorem silent_directoryLoop {entries : List Yaml} {index : Nat} {directories : List Text}
    (hdirs : directories.Nodup) (r : List Text) : Silent (directoryLoop path index directories entries) r ↔
      ∃ new, r = directories ++ new ∧ List.Forall₂ IsText entries new ∧ (∀ d ∈ new, validRelative d = true) ∧
        (directories ++ new).Nodup := by
  induction entries generalizing index directories with
  | nil => simp [directoryLoop, hdirs]
  | cons entry rest ih =>
    rw [directoryLoop, silent_bind]
    simp only [silent_string]
    have hadd : ∀ d : Text, (directories ++ [d]).Nodup ↔ directories.contains d = false := by
      intro d
      simp [List.nodup_append, hdirs]
      exact ⟨fun h hmem => h d hmem rfl, fun h a ha heq => h (heq ▸ ha)⟩
    constructor
    · rintro ⟨_, ⟨d, rfl, hd⟩, h⟩
      simp only at h
      split at h
      · simp [silent_bind] at h
      · rename_i hvalid
        split at h
        · simp [silent_bind] at h
        · rename_i hnew
          have hnodup := (hadd d).mpr (by simpa using hnew)
          obtain ⟨new, rfl, hall, hrel, hdistinct⟩ := (ih hnodup).mp h
          refine ⟨d :: new, by simp, .cons hd hall, ?_, by simpa using hdistinct⟩
          rw [List.forall_mem_cons]
          exact ⟨by simpa using hvalid, hrel⟩
    · rintro ⟨new, rfl, hall, hrel, hdistinct⟩
      cases hall with
      | @cons _ d _ new hd hall =>
        have hsplit : directories ++ d :: new = (directories ++ [d]) ++ new := by simp
        rw [hsplit] at hdistinct
        rw [List.forall_mem_cons] at hrel
        have hnodup : (directories ++ [d]).Nodup := (List.nodup_append.mp hdistinct).1
        refine ⟨some d, ⟨d, rfl, hd⟩, ?_⟩
        have hnew := (hadd d).mp hnodup
        simp only [hrel.1, hnew]
        exact (ih hnodup).mpr ⟨new, by rw [hsplit], hall, hrel.2, hdistinct⟩

theorem silent_mappingOf {mount : Text} {directories : List Text} (r : Option Mapping) :
    Silent (andThen (mapping v path ["source", "destination"]) fun pair =>
      mappingOf (some mount) directories pair path) r ↔
      ∃ m, r = some m ∧ MappingIs mount directories v m := by
  rw [silent_andThen_some silent_mapping]
  unfold mappingOf MappingIs
  simp only [silent_bind, silent_checked_string, silent_pure]
  constructor
  · rintro ⟨fields, hfields, _, ⟨source, rfl, hsource⟩, _, hapart, _,
    ⟨destination, rfl, hdestination⟩, _, hdeclared, rfl⟩
    rw [sourceApart, silent_failIf, Bool.not_eq_true] at hapart
    rw [destinationDeclared, silent_failIf, Bool.not_eq_true] at hdeclared
    exact ⟨⟨source, destination⟩, rfl, fields, hfields, hsource, hapart, hdestination, hdeclared⟩
  · rintro ⟨⟨source, destination⟩, rfl, fields, hfields, hsource, hapart, hdestination, hdeclared⟩
    refine ⟨fields, hfields, _, ⟨source, rfl, hsource⟩, (), ?_, _,
      ⟨destination, rfl, hdestination⟩, (), ?_, rfl⟩
    · rw [sourceApart, silent_failIf, Bool.not_eq_true]
      exact hapart
    · rw [destinationDeclared, silent_failIf, Bool.not_eq_true]
      exact hdeclared

theorem silent_mappingLoop {mount : Text} {directories : List Text} {entries : List Yaml} {index : Nat}
    {mappings : List Mapping} (r : List Mapping) :
    Silent (mappingLoop (some mount) directories path index mappings entries) r ↔
      ∃ new, r = mappings ++ new ∧ List.Forall₂ (MappingIs mount directories) entries new := by
  induction entries generalizing index mappings with
  | nil => simp [mappingLoop]
  | cons entry rest ih =>
    rw [mappingLoop, silent_bind]
    simp only [silent_mappingOf, ih]
    constructor
    · rintro ⟨_, ⟨m, rfl, hm⟩, new, rfl, hnew⟩
      exact ⟨m :: new, by simp, .cons hm hnew⟩
    · rintro ⟨new, rfl, hnew⟩
      cases hnew with
      | @cons _ m _ new hm hnew => exact ⟨some m, ⟨m, rfl, hm⟩, new, by simp, hnew⟩

theorem silent_persistenceOf (r : Option (Option Persistence)) :
    Silent (persistenceOf v) r ↔ ∃ p, r = some p ∧ PersistenceIs v p := by
  have hsize : 16384 * 1024 < 2 ^ 32 := by norm_num
  unfold persistenceOf PersistenceIs
  by_cases hnull : v.isNull = true
  · rw [if_pos hnull]
    obtain rfl := isNull_iff.1 hnull
    simp
  · have hv : v ≠ .null := fun hv => hnull (isNull_iff.2 hv)
    rw [if_neg hnull, silent_andThen_some silent_mapping]
    simp only [silent_bind, silent_textOr, silent_checked_size hsize, silent_entriesOf,
      silent_directoryLoop List.nodup_nil,
      List.nil_append, silent_pure, hv, false_and, false_or]
    constructor
    · rintro ⟨fields, hfields, _, ⟨mount, rfl, hmount⟩, _, ⟨size, rfl, hsize⟩, entries, hentries, directories,
        ⟨_, rfl, hdirs, hrel, hnodup⟩, entries', hentries', mappings, hmappings, rfl⟩
      obtain ⟨_, rfl, hmappings⟩ := (silent_mappingLoop _).mp hmappings
      exact ⟨some ⟨mount, size, directories, _⟩, rfl, _, rfl, fields, hfields, hmount, hsize,
        ⟨entries, hentries, hdirs, hrel, hnodup⟩, entries', hentries', hmappings⟩
    · rintro ⟨_, rfl, ⟨mount, size, directories, mappings⟩, rfl, fields, hfields, hmount, hsize,
        ⟨entries, hentries, hdirs, hrel, hnodup⟩, entries', hentries', hmappings⟩
      exact ⟨fields, hfields, _, ⟨mount, rfl, hmount⟩, _, ⟨size, rfl, hsize⟩, entries, hentries, _,
        ⟨directories, rfl, hdirs, hrel, hnodup⟩, entries', hentries', mappings,
        (silent_mappingLoop _).mpr ⟨mappings, rfl, hmappings⟩, rfl⟩

end

/-! ### The deployment and the exposure -/

def PlacementIs (fields : Fields) (placement : Placement) : Prop :=
  (field fields "placement" = none ∧ placement = .spread) ∨
    Has fields "placement" (Chooses [("spread", .spread), ("single", .single)]) placement

def DeploymentIs (id : Text) (v : Yaml) (d : Deployment) : Prop :=
  ∃ fields, (v = .hash fields ∧ Known fields ["hostname", "instances", "placement", "state_model"]) ∧
    TextOr fields "hostname" id validSubdomain d.hostname ∧ HasNat fields "instances" 1 16 d.instances ∧
    PlacementIs fields d.placement ∧
    Has fields "state_model" (Chooses [("stateless", .stateless), ("local", .local),
      ("external", .external)]) d.stateModel

def patternOk (pattern : Text) : Bool :=
  Text.startsWith "/" pattern && pattern.utf8.length ≤ 256 && !pattern.any fun c =>
    Text.isControl c || Text.isWhitespace c

def BypassAre (fields : Fields) (patterns : List Text) : Prop :=
  (field fields "bypass_paths" = none ∧ patterns = []) ∨
    ∃ entries, field fields "bypass_paths" = some (.array entries) ∧ List.Forall₂ IsText entries patterns ∧
      (∀ p ∈ patterns, patternOk p = true) ∧ patterns.Nodup ∧ patterns.length ≤ 16

def PangolinIs (ports : List Port) (healthcheck : Option Healthcheck) (v : Yaml) (p : Pangolin) : Prop :=
  ∃ fields, (v = .hash fields ∧ Known fields ["port", "name", "subdomain", "bypass_paths"]) ∧
    Has fields "port" IsText p.port ∧ ports.any (·.name = p.port) = true ∧
      healthPort healthcheck = some p.port ∧
    Has fields "name" IsText p.name ∧ (p.name ≠ [] ∧ p.name.length ≤ 64) ∧
    Has fields "subdomain" IsText p.subdomain ∧ validSubdomain p.subdomain = true ∧
      BypassAre fields p.bypassPaths

def ExposureIs (ports : List Port) (healthcheck : Option Healthcheck) (v : Yaml) (p : Option Pangolin) :
    Prop :=
  (v = .null ∧ p = none) ∨
    ∃ q, p = some q ∧ ∃ fields, (v = .hash fields ∧ Known fields ["pangolin"]) ∧
      Has fields "pangolin" (PangolinIs ports healthcheck) q

section

variable {v : Yaml} {path : Path} {fields : Fields}

theorem silent_placementOf (r : Option Placement) :
    Silent (placementOf fields path) r ↔ ∃ p, r = some p ∧ PlacementIs fields p := by
  unfold placementOf PlacementIs Has
  cases field fields "placement" with
  | none => simp
  | some value => simp [silent_choice]

theorem silent_deploymentOf {id : Text} (r : Option Deployment) :
    Silent (deploymentOf v (some id)) r ↔ ∃ d, r = some d ∧ DeploymentIs id v d := by
  unfold deploymentOf DeploymentIs
  rw [silent_andThen_some silent_mapping]
  simp only [silent_bind, silent_textOr, silent_checked_integer, silent_placementOf,
    silent_checked_choice, silent_pure]
  constructor
  · rintro ⟨fields, hfields, _, ⟨hostname, rfl, hhostname⟩, _, ⟨instances, rfl, hinstances⟩, _,
      ⟨placement, rfl, hplacement⟩, _,
      ⟨state, rfl, hstate⟩, rfl⟩
    refine ⟨⟨hostname, instances.toNat, placement, state⟩, ?_, fields, hfields, hhostname,
      ⟨instances, hinstances, rfl⟩,
      hplacement, hstate⟩
    simp only [Option.bind_eq_bind, Option.bind_some,
      tryFrom_of_has (2 ^ 32) hinstances (by norm_num) (by norm_num)]
  · rintro ⟨⟨hostname, _, placement, state⟩, rfl, fields, hfields, hhostname,
    ⟨instances, hinstances, rfl⟩, hplacement, hstate⟩
    refine ⟨fields, hfields, _, ⟨hostname, rfl, hhostname⟩, _, ⟨instances, rfl, hinstances⟩, _,
      ⟨placement, rfl, hplacement⟩, _,
      ⟨state, rfl, hstate⟩, ?_⟩
    simp only [Option.bind_eq_bind, Option.bind_some,
      tryFrom_of_has (2 ^ 32) hinstances (by norm_num) (by norm_num)]

theorem silent_bypassLoop {entries : List Yaml} {index : Nat} {patterns : List Text}
    (hpatterns : patterns.Nodup) (r : List Text) : Silent (bypassLoop path index patterns entries) r ↔
      ∃ new, r = patterns ++ new ∧ List.Forall₂ IsText entries new ∧ (∀ p ∈ new, patternOk p = true) ∧
        (patterns ++ new).Nodup := by
  induction entries generalizing index patterns with
  | nil => simp [bypassLoop, hpatterns]
  | cons entry rest ih =>
    rw [bypassLoop, silent_bind]
    simp only [silent_string]
    have hadd : ∀ p : Text, (patterns ++ [p]).Nodup ↔ p ∉ patterns := by
      intro p
      rw [List.nodup_append]
      simp only [hpatterns, List.nodup_singleton, List.mem_singleton, forall_eq, true_and]
      exact ⟨fun h hmem => h p hmem rfl, fun h a ha heq => h (heq ▸ ha)⟩
    have hok : ∀ p : Text, (!(!Text.startsWith "/" p || decide (256 < p.utf8.length) ||
        p.any (fun c => Text.isControl c || Text.isWhitespace c) || patterns.contains p)) = true ↔
          patternOk p = true ∧ (patterns ++ [p]).Nodup := by
      intro p
      rw [hadd]
      simp [patternOk, and_assoc]
    constructor
    · rintro ⟨_, ⟨p, rfl, hp⟩, h⟩
      simp only [silent_bind, silent_failIf] at h
      obtain ⟨_, hvalid, h⟩ := h
      obtain ⟨hvalid, hnodup⟩ := (hok p).mp (by simpa using hvalid)
      obtain ⟨new, rfl, hall, hrel, hdistinct⟩ := (ih hnodup).mp h
      refine ⟨p :: new, by simp, .cons hp hall, ?_, by simpa using hdistinct⟩
      rw [List.forall_mem_cons]
      exact ⟨hvalid, hrel⟩
    · rintro ⟨new, rfl, hall, hrel, hdistinct⟩
      cases hall with
      | @cons _ p _ new hp hall =>
        have hsplit : patterns ++ p :: new = (patterns ++ [p]) ++ new := by simp
        rw [hsplit] at hdistinct
        rw [List.forall_mem_cons] at hrel
        have hnodup : (patterns ++ [p]).Nodup := (List.nodup_append.mp hdistinct).1
        refine ⟨some p, ⟨p, rfl, hp⟩, ?_⟩
        simp only [silent_bind, silent_failIf]
        exact ⟨(), by simpa using (hok p).mpr ⟨hrel.1, hnodup⟩,
          (ih hnodup).mpr ⟨new, by rw [hsplit], hall, hrel.2, hdistinct⟩⟩

theorem silent_bypassOf (r : List Text) : Silent (bypassOf fields path) r ↔ BypassAre fields r := by
  unfold bypassOf BypassAre
  cases field fields "bypass_paths" with
  | none => simp
  | some value =>
    simp only [silent_bind, silent_list, silent_bypassLoop List.nodup_nil, List.nil_append,
      silent_failIf, silent_pure]
    constructor
    · rintro ⟨_, ⟨entries, rfl, rfl⟩, patterns, ⟨_, rfl, hall, hrel, hnodup⟩, _, hlen, rfl⟩
      exact .inr ⟨entries, rfl, hall, hrel, hnodup, by omega⟩
    · rintro (⟨hnone, -⟩ | ⟨entries, hvalue, hall, hrel, hnodup, hlen⟩)
      · cases hnone
      · obtain rfl := Option.some.inj hvalue
        exact ⟨_, ⟨entries, rfl, rfl⟩, r, ⟨r, rfl, hall, hrel, hnodup⟩, (), by omega, rfl⟩

theorem silent_exposedPort {port : Text} {resources : Option Resources} {ports : List Port}
    {healthcheck : Option Healthcheck} (u : Unit) :
    Silent (exposedPort path (some port) (some (resources, ports, healthcheck))) u ↔
      ports.any (·.name = port) = true ∧ healthPort healthcheck = some port := by
  unfold exposedPort
  simp only
  cases ports.any (·.name = port) with
  | true => simp
  | false => simp

theorem silent_pangolinOf {resources : Option Resources} {ports : List Port}
    {healthcheck : Option Healthcheck} (r : Option (Option Pangolin)) :
    Silent (exposureOf v (some (resources, ports, healthcheck))) r ↔ ∃ p, r = some p ∧
      ExposureIs ports healthcheck v p := by
  unfold exposureOf ExposureIs PangolinIs Has
  by_cases hnull : v.isNull = true
  · rw [if_pos hnull]
    obtain rfl := isNull_iff.1 hnull
    simp
  · have hv : v ≠ .null := fun hv => hnull (isNull_iff.2 hv)
    rw [if_neg hnull, silent_andThen_some silent_mapping]
    simp only [silent_andThen_some silent_required, silent_andThen_some silent_mapping,
      silent_bind, silent_checked_string,
      silent_failIf, silent_bypassOf, silent_pure, hv, false_and, false_or, Has]
    constructor
    · rintro ⟨top, htop, value, hvalue, fields, hfields, _, ⟨port, rfl, hport⟩, _, hexposed, _,
        ⟨name, rfl, hname⟩, _, hlen, _,
        ⟨subdomain, rfl, hsubdomain⟩, _, hlabel, patterns, hbypass, rfl⟩
      obtain ⟨hdeclared, hhealth⟩ := (silent_exposedPort _).mp hexposed
      exact ⟨some ⟨port, name, subdomain, patterns⟩, rfl, _, rfl, top, htop, value, hvalue, fields,
        hfields, hport, hdeclared,
        hhealth, hname, by simpa using hlen, hsubdomain, by simpa using hlabel, hbypass⟩
    · rintro ⟨_, rfl, ⟨port, name, subdomain, patterns⟩, rfl, top, htop, value, hvalue, fields, hfields,
        hport, hdeclared, hhealth,
        hname, hlen, hsubdomain, hlabel, hbypass⟩
      exact ⟨top, htop, value, hvalue, fields, hfields, _, ⟨port, rfl, hport⟩, (),
        (silent_exposedPort _).mpr ⟨hdeclared, hhealth⟩, _, ⟨name, rfl, hname⟩, (), by simpa using hlen, _,
        ⟨subdomain, rfl, hsubdomain⟩, (), by simpa using hlabel, patterns, hbypass, rfl⟩

end

/-! ## The whole file -/

/-- Local state needs a volume, and a service without state has none. -/
def StateFits (state : StateModel) (persistence : Option Persistence) : Prop :=
  (state = .local → persistence ≠ none) ∧ (state = .stateless → persistence = none)

/-- The sections are those of schema 1, and describe the manifest. -/
def Describes (top : Fields) (m : Manifest) : Prop :=
  Known top sections ∧ field top "schema" = some (.integer 1) ∧
    (Has top "id" IsText m.id ∧ validId m.id = true) ∧
    (Has top "name" IsText m.name ∧ 1 ≤ m.name.length ∧ m.name.length ≤ 64) ∧
    Has top "image" ImageIs m.imageRepository ∧
      Has top "runtime" RuntimeIs (m.resources, m.ports, m.healthcheck) ∧
    Has top "persistence" PersistenceIs m.persistence ∧
      Has top "deployment" (DeploymentIs m.id) m.deployment ∧
    Has top "exposure" (ExposureIs m.ports m.healthcheck) m.pangolin ∧
      StateFits m.deployment.stateModel m.persistence

section

variable {top : Fields}

theorem silent_textSection {name : Text} {valid : Text → Bool} {message : Text} {v : Yaml} (r : Option Text) :
    Silent (textSection name valid message v) r ↔ ∃ s, r = some s ∧ IsText v s ∧ valid s = true := by
  unfold textSection IsText
  cases hs : v.asStr.filter valid with
  | none =>
    simp only [silent_bind, silent_fail, false_and, exists_const, false_iff, not_exists, not_and]
    rintro s - rfl
    simpa [Yaml.asStr, Option.filter_eq_none_iff] using hs
  | some s =>
    rw [Option.filter_eq_some_iff, asStr_eq_some] at hs
    obtain ⟨rfl, hvalid⟩ := hs
    simp only [silent_pure]
    constructor
    · rintro rfl
      exact ⟨s, rfl, rfl, hvalid⟩
    · rintro ⟨s', rfl, hs', -⟩
      rw [Yaml.string.inj hs']

/-- A section that is there. -/
theorem silent_sectionOf {α : Type} {name : Text} {check : Yaml → Check (Option α)} {P : Yaml → α → Prop}
    (hcheck : ∀ v r, Silent (check v) r ↔ ∃ a, r = some a ∧ P v a)
    (hthere : (field top name).isSome) (r : Option α) :
    Silent (sectionOf top name check) r ↔ ∃ a, r = some a ∧ Has top name P a := by
  obtain ⟨v, hv⟩ := Option.isSome_iff_exists.mp hthere
  unfold sectionOf Has
  rw [hv]
  simp [hcheck]

theorem silent_knownSection {key : Yaml} (hkey : key.asStr.isSome) : Silent (knownSection key) () ↔
    ∃ name ∈ sections, key = .string name := by
  obtain ⟨name, hname⟩ := Option.isSome_iff_exists.mp hkey
  unfold knownSection
  rw [hname]
  rw [asStr_eq_some] at hname
  simp [hname]

theorem silent_schemaOf (hthere : (field top "schema").isSome) (u : Unit) :
    Silent (schemaOf top) u ↔ field top "schema" = some (.integer 1) := by
  obtain ⟨v, hv⟩ := Option.isSome_iff_exists.mp hthere
  unfold schemaOf
  rw [hv]
  cases v with
  | integer n => simp
  | _ => simp

theorem silent_stateOf {deployment : Deployment} {persistence : Option Persistence} (u : Unit) :
    Silent (stateOf (some deployment) (some persistence)) u ↔
      StateFits deployment.stateModel persistence := by
  unfold stateOf StateFits
  simp only
  generalize deployment.stateModel = state
  cases state <;> cases persistence <;> simp

/-- **A document is checked without an issue exactly when it describes a manifest**, and the
manifest is the one described. -/
theorem silent_checkSections (hkeys : ∀ e ∈ top, e.1.asStr.isSome)
    (r : Option Text × Option Text × Option Manifest) :
    Silent (checkSections top) r ↔ ∃ m, r = (some m.id, some m.name, some m) ∧ Describes top m := by
  unfold checkSections
  simp only [silent_bind, silent_each, silent_failIf]
  constructor
  · rintro ⟨_, hknown, _, hall, _, hschema, id, hid, name, hname, image, himage,
      runtime, hruntime, persistence,
      hpersistence, deployment, hdeployment, pangolin, hpangolin, _, hstate, hr⟩
    have hthere : ∀ name ∈ sections, (field top name).isSome := by
      intro name hname
      simpa [Option.isNone_iff_eq_none, Option.ne_none_iff_isSome] using hall name hname
    rw [silent_schemaOf (hthere _ (by decide))] at hschema
    obtain ⟨id, rfl, _, hid, hid', hvalid⟩ :=
      (silent_sectionOf (fun v => silent_textSection) (hthere _ (by decide)) _).mp hid
    obtain ⟨name, rfl, _, hname, hname', hlen⟩ :=
      (silent_sectionOf (fun v => silent_textSection) (hthere _ (by decide)) _).mp hname
    obtain ⟨image, rfl, himage'⟩ :=
      (silent_sectionOf (fun v => silent_imageOf) (hthere _ (by decide)) _).mp himage
    obtain ⟨⟨resources, ports, healthcheck⟩, rfl, hruntime'⟩ :=
      (silent_sectionOf (fun v => silent_runtimeOf) (hthere _ (by decide)) _).mp hruntime
    obtain ⟨persistence, rfl, hpersistence'⟩ :=
      (silent_sectionOf (fun v => silent_persistenceOf) (hthere _ (by decide)) _).mp hpersistence
    obtain ⟨deployment, rfl, hdeployment'⟩ :=
      (silent_sectionOf (fun v => silent_deploymentOf) (hthere _ (by decide)) _).mp hdeployment
    obtain ⟨pangolin, rfl, hpangolin'⟩ :=
      (silent_sectionOf (fun v => silent_pangolinOf) (hthere _ (by decide)) _).mp hpangolin
    refine ⟨⟨id, name, image, resources, ports, healthcheck, persistence, deployment, pangolin⟩,
      silent_pure.mp hr, ?_, hschema,
      ⟨⟨_, hid, hid'⟩, hvalid⟩, ⟨⟨_, hname, hname'⟩, by simpa using hlen⟩, himage', hruntime', hpersistence',
        hdeployment', hpangolin',
      (silent_stateOf _).mp hstate⟩
    intro e he
    exact (silent_knownSection (hkeys e he)).mp (hknown e he)
  · rintro ⟨m, rfl, hknown, hschema, ⟨⟨_, hid, hid'⟩, hvalid⟩, ⟨⟨_, hname, hname'⟩, hlen⟩,
      himage, hruntime, hpersistence,
      hdeployment, hpangolin, hstate⟩
    have hthere : ∀ name ∈ sections, (field top name).isSome := by
      have hhas : ∀ {α : Type} {name : Text} {P : Yaml → α → Prop} {a : α}, Has top name P a →
          (field top name).isSome := by
        rintro α name P a ⟨v, hv, -⟩
        rw [hv]
        rfl
      simp only [sections, List.forall_mem_cons, List.not_mem_nil, false_imp_iff, implies_true, and_true]
      exact ⟨by rw [hschema]; rfl,
        by rw [hid]; rfl, by rw [hname]; rfl, hhas himage, hhas hruntime, hhas hpersistence,
        hhas hdeployment, hhas hpangolin⟩
    refine ⟨(), fun e he => (silent_knownSection (hkeys e he)).mpr (hknown e he), (), ?_, (),
      (silent_schemaOf (hthere _ (by decide)) _).mpr hschema, some m.id, ?_, some m.name, ?_,
        some m.imageRepository, ?_,
      some (m.resources, m.ports, m.healthcheck), ?_, some m.persistence, ?_, some m.deployment, ?_,
        some m.pangolin, ?_, (),
      (silent_stateOf _).mpr hstate, silent_pure.mpr rfl⟩
    · intro name hname
      simpa [Option.isNone_iff_eq_none, Option.ne_none_iff_isSome] using hthere name hname
    · exact (silent_sectionOf (fun v => silent_textSection) (hthere _ (by decide)) _).mpr ⟨_,
        rfl, _, hid, hid', hvalid⟩
    · exact (silent_sectionOf (fun v => silent_textSection) (hthere _ (by decide)) _).mpr
        ⟨_, rfl, _, hname, hname', by simpa using hlen⟩
    · exact (silent_sectionOf (fun v => silent_imageOf) (hthere _ (by decide)) _).mpr ⟨_, rfl, himage⟩
    · exact (silent_sectionOf (fun v => silent_runtimeOf) (hthere _ (by decide)) _).mpr ⟨_, rfl, hruntime⟩
    · exact (silent_sectionOf (fun v => silent_persistenceOf) (hthere _ (by decide)) _).mpr ⟨_,
        rfl, hpersistence⟩
    · exact (silent_sectionOf (fun v => silent_deploymentOf) (hthere _ (by decide)) _).mpr ⟨_,
        rfl, hdeployment⟩
    · exact (silent_sectionOf (fun v => silent_pangolinOf) (hthere _ (by decide)) _).mpr ⟨_, rfl, hpangolin⟩

end

end HomeStack.ServiceManifest

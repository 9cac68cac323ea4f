import HomeStack.AgentMetrics

/-! How the PVE agent exports its reports (`hs-pve-agent`, `otlp.rs`): the encoder remembers its
counters from one report to the next and the filesystem samples of the last report that the Collector
took. Of the payload the points are kept, in the order in which they are made. -/

namespace HomeStack.AgentExport

open AgentMetrics
open Json (field)

/-- A counter, as a point leaves it. -/
structure Counter where
  start : Nat
  previous : Json
  generation : Text
  deriving DecidableEq

/-- A metric's name with its labels. -/
abbrev Series := Text × Attributes

inductive Value
  | asInt (n : Nat)
  | asDouble (q : ℚ)
  deriving DecidableEq

structure Point where
  series : Series
  unit : Text
  time : Nat
  value : Value
  /-- The counter whose start is written into the point. -/
  counter : Option Counter
  deriving DecidableEq

def asF64 : Json → Option ℚ
  | .int n => some (Double.round n)
  | .dec num den _ => some (num / den)
  | _ => none

def value (raw : Json) (scale : Scale) (number : ℚ) : Value :=
  match raw.asU64 with
  | some n => if scale = .one ∧ n < 2 ^ 63 then .asInt n else .asDouble (scale.times number)
  | none => .asDouble (scale.times number)

def decreased (raw previous : Json) : Bool :=
  match raw.asU64, previous.asU64 with
  | some current, some previous => current < previous
  | _, _ => (asF64 raw).any fun number => (asF64 previous).any (number < ·)

/-- The counter after a value. -/
def advance (counter : Option Counter) (raw : Json) (time : Nat) (generation : Text) : Counter :=
  match counter with
  | none => ⟨time, raw, generation⟩
  | some c => if c.generation ≠ generation ∨ decreased raw c.previous then ⟨time, raw, generation⟩
    else ⟨c.start, raw, c.generation⟩

structure Metrics where
  counters : Series → Option Counter
  seen : List Series
  points : List Point

def Metrics.point (m : Metrics) (call : Call) : Metrics :=
  match asF64 call.raw with
  | none => m
  | some number =>
    let series := (call.name, call.labels)
    let made (counter : Option Counter) : Point :=
      ⟨series, call.unit, call.time, value call.raw call.scale number, counter⟩
    match call.generation with
    | none => { m with points := m.points ++ [made none] }
    | some generation =>
      let counter := advance (m.counters series) call.raw call.time generation
      ⟨Function.update m.counters series (some counter), m.seen ++ [series],
        m.points ++ [made (some counter)]⟩

structure Encoder where
  counters : Series → Option Counter
  filesystemSamples : Text → Option Nat

section

variable (node : Text)

def nodeLabels : Attributes := [("node", node)]

/-- The number and the kind of a guest. -/
def guest (entry : Json) : Option (Nat × Text) :=
  (field entry "vmid").asU64.bind fun id => (field entry "type").asStr.map fun kind => (id, kind)

def guestLabels (entry : Json) (id : Nat) (kind : Text) : Attributes :=
  let labels := withLabel "type" kind (withLabel "vmid" (Text.ofNat id) (nodeLabels node))
  match (field entry "name").asStr with
  | some name => withLabel "name" name labels
  | none => labels

/-- The guest and the identity of its cgroup. -/
def sampleKey (entry : Json) (id : Nat) (kind : Text) : Text :=
  kind ++ "/" ++ Text.ofNat id ++ "/" ++ (field entry "cgroup_identity").render

def stamp (entry : Json) : Option Nat := (field (AgentMetrics.report entry) "sampled_at_unix_ms").asU64

def instances (report : Json) : List Json := (field report "instances").asArray.getD []

/-- The time and the calls of one guest. -/
def instanceCalls (samples : Text → Option Nat) (time : Nat) (entry : Json) : List Call :=
  match guest entry with
  | none => []
  | some (id, kind) =>
    let labels := guestLabels node entry id kind
    cgroup entry labels ((nanoseconds (field entry "sampled_at_unix_ms")).getD time) ++
      match stamp entry with
      | none => []
      | some s => filesystem entry labels time (samples (sampleKey entry id kind) ≠ some s)

/-- What the agent says of itself. -/
def agentCalls (report : Json) (time failures : Nat) (previousSuccess : Bool) : List Call :=
  [gauge "hs_pve_agent_instances" "\x7binstance\x7d" (field report "instance_count") (nodeLabels node) time,
    ⟨"hs_pve_agent_collection_seconds", "s", field report "collection_usec", .micro,
      nodeLabels node, time, none⟩,
    gauge "hs_pve_agent_interval_seconds" "s" (field report "interval_seconds")
      (withLabel "mode" ((field report "mode").asStr.getD []) (nodeLabels node)) time,
    gauge "hs_pve_agent_export_success" "1" (flag previousSuccess) (nodeLabels node) time,
    ⟨"hs_pve_agent_export_failures", "\x7bevent\x7d", .int failures, .one,
      nodeLabels node, time, some "agent"⟩]

/-- The sample of a guest. -/
def sampleOf (entry : Json) : Option (Text × Nat) :=
  (guest entry).bind fun (id, kind) => (stamp entry).map fun s => (sampleKey entry id kind, s)

/-- The samples of a report; of two for one key the last. -/
def samplesOf (report : Json) (key : Text) : Option Nat :=
  (((instances report).filterMap sampleOf).reverse.find? fun s => s.1 = key).map Prod.snd

structure Batch where
  points : List Point
  filesystemSamples : Text → Option Nat

/-- All calls for a report. -/
def calls (samples : Text → Option Nat) (report : Json) (time failures : Nat) (previousSuccess : Bool) :
    List Call :=
  agentCalls node report time failures previousSuccess ++ (instances report).flatMap
    (instanceCalls node samples time)

def Encoder.encode (encoder : Encoder) (report : Json) (failures : Nat) (previousSuccess : Bool) :
    Except Text (Encoder × Batch) :=
  match nanoseconds (field report "unix_timestamp_ms") with
  | none => .error "invalid snapshot timestamp"
  | some time =>
    let made := (calls node encoder.filesystemSamples report time failures previousSuccess).foldl
      Metrics.point ⟨encoder.counters, [], []⟩
    .ok ({ encoder with counters := fun series => if series ∈ made.seen then made.counters series else none },
      ⟨made.points, samplesOf report⟩)

structure Exporter where
  encoder : Encoder
  failures : Nat
  previousSuccess : Bool

def Exporter.new : Exporter := ⟨⟨fun _ => none, fun _ => none⟩, 0, false⟩

/-- `Exporter::export`, with what `send` comes to: whether the Collector took all of it, or an error. -/
def Exporter.export (x : Exporter) (report : Json) (sent : Except Text Bool) :
    Exporter × Option (List Point) :=
  match x.encoder.encode node report x.failures x.previousSuccess with
  | .error _ => (x, none)
  | .ok (encoder, batch) =>
    let success := sent.toOption = some true
    (⟨{ encoder with
          filesystemSamples := if sent.toOption.isSome then batch.filesystemSamples
            else encoder.filesystemSamples },
      if success then x.failures else min (x.failures + 1) (2 ^ 64 - 1), success⟩, some batch.points)

/-- Reports with what became of them. -/
abbrev History := List (Json × Except Text Bool)

def Exporter.run (x : Exporter) (history : History) : Exporter :=
  history.foldl (fun x h => (x.export node h.1 h.2).1) x

/-- The points of all exports. -/
def Exporter.points : Exporter → History → List Point
  | _, [] => []
  | x, (report, sent) :: rest => (x.export node report sent).2.getD [] ++
      Exporter.points (x.export node report sent).1 rest

end

/-! ## Streams -/

/-- A point of a counter. -/
structure Reading where
  time : Nat
  value : Value
  counter : Counter

/-- The points of a series that are a counter's. -/
def readings (series : Series) (points : List Point) : List Reading :=
  points.filterMap fun p => if p.series = series then p.counter.map (⟨p.time, p.value, ·⟩) else none

/-- The value as a double. -/
def Value.double : Value → ℚ
  | .asInt n => Double.round n
  | .asDouble q => q

/-- The reading starts at its own time, or goes on where the counter stood. -/
def Reading.Follows (r : Reading) (counter : Option Counter) : Prop :=
  r.counter.start = r.time ∨
    ∃ c ∈ counter, r.counter.start = c.start ∧ r.counter.generation = c.generation ∧
      decreased r.counter.previous c.previous = false

/-- Each reading follows the one before it. -/
def Chained : Option Counter → List Reading → Prop
  | _, [] => True
  | counter, r :: rest => r.Follows counter ∧ Chained (some r.counter) rest

/-- The counter as the readings leave it. -/
def lastCounter (counter : Option Counter) (rs : List Reading) : Option Counter :=
  (rs.getLast?.map Reading.counter).or counter

theorem lastCounter_cons (counter : Option Counter) (r : Reading) (rs : List Reading) :
    lastCounter counter (r :: rs) = lastCounter (some r.counter) rs := by
  cases rs with
  | nil => rfl
  | cons r' rs => simp [lastCounter, List.getLast?_cons_cons,
      List.getLast?_eq_getLast_of_ne_nil (List.cons_ne_nil r' rs)]

theorem Reading.Follows.weaken {r : Reading} {counter : Option Counter} (h : r.Follows none) :
    r.Follows counter := by
  obtain h | ⟨c, hc, -⟩ := h
  · exact .inl h
  · cases hc

theorem Chained.weaken {counter : Option Counter} {rs : List Reading} (h : Chained none rs) :
    Chained counter rs := by
  cases rs with
  | nil => trivial
  | cons r rs => exact ⟨h.1.weaken, h.2⟩

theorem Chained.append {counter : Option Counter} {rs ss : List Reading} (h : Chained counter rs)
    (h' : Chained (lastCounter counter rs) ss) : Chained counter (rs ++ ss) := by
  induction rs generalizing counter with
  | nil => exact h'
  | cons r rs ih =>
    rw [lastCounter_cons] at h'
    exact ⟨h.1, ih h.2 h'⟩

/-! ## What an export adds -/

theorem readings_append (series : Series) (ps qs : List Point) :
    readings series (ps ++ qs) = readings series ps ++ readings series qs :=
  List.filterMap_append ..

theorem follows_advance (counter : Option Counter) (raw : Json) (time : Nat)
    (generation : Text) (value : Value) :
    (⟨time, value, advance counter raw time generation⟩ : Reading).Follows counter := by
  cases counter with
  | none => exact .inl rfl
  | some c =>
    unfold advance
    simp only
    split
    · exact .inl rfl
    · rename_i h
      rw [not_or, Bool.not_eq_true] at h
      exact .inr ⟨c, rfl, rfl, rfl, h.2⟩

/-- What the calls of one report do to a series. -/
structure Extends (series : Series) (m m' : Metrics) (added : List Point) : Prop where
  points : m'.points = m.points ++ added
  chained : Chained (m.counters series) (readings series added)
  counter : m'.counters series = lastCounter (m.counters series) (readings series added)
  seen : series ∈ m'.seen ↔ series ∈ m.seen ∨ readings series added ≠ []

theorem point_extends (series : Series) (m : Metrics) (call : Call) :
    ∃ added, Extends series m (m.point call) added := by
  unfold Metrics.point
  cases hnumber : asF64 call.raw with
  | none => exact ⟨[], by simp, trivial, rfl, by simp [readings]⟩
  | some number =>
    simp only
    cases hgeneration : call.generation with
    | none =>
      refine ⟨[_], rfl, ?_, ?_, ?_⟩ <;> simp [readings, Chained, lastCounter]
    | some generation =>
      refine ⟨[_], rfl, ?_, ?_, ?_⟩
      · by_cases hseries : (call.name, call.labels) = series
        · subst hseries
          simp only [readings, List.filterMap_cons, if_true, Option.map_some, List.filterMap_nil]
          exact ⟨follows_advance .., trivial⟩
        · simp [readings, hseries, Chained]
      · by_cases hseries : (call.name, call.labels) = series
        · subst hseries
          simp [readings, lastCounter]
        · simp [readings, hseries, lastCounter, Function.update_of_ne (Ne.symm hseries)]
      · by_cases hseries : (call.name, call.labels) = series
        · simp [readings, hseries]
        · simp [readings, hseries, Ne.symm hseries]

theorem Extends.trans {series : Series} {m m' m'' : Metrics} {ps qs : List Point} (h : Extends series m m' ps)
    (h' : Extends series m' m'' qs) : Extends series m m'' (ps ++ qs) where
  points := by rw [h'.points, h.points, List.append_assoc]
  chained := by
    rw [readings_append]
    exact h.chained.append (h.counter ▸ h'.chained)
  counter := by
    rw [h'.counter, h.counter, readings_append]
    simp only [lastCounter, List.getLast?_append]
    cases (readings series qs).getLast? <;> rfl
  seen := by
    rw [h'.seen, h.seen, readings_append]
    simp only [ne_eq, List.append_eq_nil_iff]
    tauto

theorem foldl_extends (series : Series) (calls : List Call) (m : Metrics) :
    ∃ added, Extends series m (calls.foldl Metrics.point m) added := by
  induction calls generalizing m with
  | nil => exact ⟨[], by simp, trivial, rfl, by simp [readings]⟩
  | cons call calls ih =>
    obtain ⟨ps, hps⟩ := point_extends series m call
    obtain ⟨qs, hqs⟩ := ih (m.point call)
    exact ⟨ps ++ qs, hps.trans hqs⟩

section

variable {node : Text}

theorem export_extends (series : Series) (x : Exporter) (report : Json) (sent : Except Text Bool) :
    Chained (x.encoder.counters series) (readings series ((x.export node report sent).2.getD [])) ∧
      ((x.export node report sent).1.encoder.counters series = none ∨
        (x.export node report sent).1.encoder.counters series =
        lastCounter (x.encoder.counters series)
          (readings series ((x.export node report sent).2.getD []))) := by
  unfold Exporter.export Encoder.encode
  cases nanoseconds (field report "unix_timestamp_ms") with
  | none => exact ⟨trivial, .inr rfl⟩
  | some time =>
    simp only
    obtain ⟨added, hadded⟩ := foldl_extends series
      (calls node x.encoder.filesystemSamples report time x.failures x.previousSuccess)
      ⟨x.encoder.counters, [], []⟩
    have hpoints := hadded.points
    rw [List.nil_append] at hpoints
    rw [Option.getD_some, hpoints]
    refine ⟨hadded.chained, ?_⟩
    split
    · exact .inr hadded.counter
    · exact .inl rfl

/-- The readings of a series follow one another through every run. -/
theorem points_chained (series : Series) (history : History) {x : Exporter} {counter : Option Counter}
    (h : x.encoder.counters series = none ∨ x.encoder.counters series = counter) :
    Chained counter (readings series (x.points node history)) := by
  induction history generalizing x counter with
  | nil => trivial
  | cons entry rest ih =>
    obtain ⟨report, sent⟩ := entry
    obtain ⟨hchained, hcounter⟩ := @export_extends node series x report sent
    rw [Exporter.points, readings_append]
    refine Chained.append ?_ (ih ?_)
    · obtain h | h := h
      · rw [h] at hchained
        exact hchained.weaken
      · exact h ▸ hchained
    · obtain hnone | hlast := hcounter
      · exact .inl hnone
      · obtain h | h := h
        · -- a series that was away counts from its last reading, if it has one
          rw [hlast, h]
          cases hrs : readings series ((x.export node report sent).2.getD []) with
          | nil => exact .inl rfl
          | cons r rs => exact .inr (by rw [lastCounter_cons, lastCounter_cons])
        · exact .inr (by rw [hlast, h])

end

/-! ## Order -/

def Reading.start (r : Reading) : Nat := r.counter.start

theorem Chained.starts {counter : Option Counter} {rs : List Reading} (h : Chained counter rs)
    (htimes : rs.Pairwise fun r s => r.time ≤ s.time) (hcounter : ∀ c ∈ counter, ∀ r ∈ rs, c.start ≤ r.time) :
    (∀ r ∈ rs, r.start ≤ r.time) ∧ rs.Pairwise (fun r s => r.start ≤ s.start) ∧
      ∀ c ∈ counter, ∀ r ∈ rs, c.start ≤ r.start := by
  induction rs generalizing counter with
  | nil => simp
  | cons r rs ih =>
    obtain ⟨hr, hrs⟩ := List.pairwise_cons.mp htimes
    have hstart : r.start ≤ r.time := by
      obtain hown | ⟨c, hc, hstart, -⟩ := h.1
      · exact hown.le
      · exact hstart.le.trans (hcounter c hc r List.mem_cons_self)
    obtain ⟨hle, hpairs, hfirst⟩ := ih h.2 hrs (by rintro c ⟨⟩ s hs; exact hstart.trans (hr s hs))
    have hfirst := hfirst r.counter rfl
    refine ⟨List.forall_mem_cons.mpr ⟨hstart, hle⟩, List.pairwise_cons.mpr ⟨hfirst, hpairs⟩, fun c hc => ?_⟩
    have hcr : c.start ≤ r.start := by
      obtain hown | ⟨c', hc', hsame, -⟩ := h.1
      · exact (hcounter c hc r List.mem_cons_self).trans hown.symm.le
      · rw [Option.mem_unique hc hc']
        exact hsame.symm.le
    exact List.forall_mem_cons.mpr ⟨hcr, fun s hs => hcr.trans (hfirst s hs)⟩

/-- What holds between a counter and the next as long as the readings go on holds to the last of them. -/
theorem Chained.goes_on {R : Counter → Counter → Prop} {Q : Counter → Prop}
    (htrans : ∀ a b c, R a b → R b c → R a c)
    (hstep : ∀ c c' : Counter, Q c → Q c' → c'.start = c.start → c'.generation = c.generation →
      decreased c'.previous c.previous = false → R c c') {c : Counter} {rs : List Reading}
        (h : Chained (some c) rs)
    (hown : ∀ r ∈ rs, r.start ≠ r.time) (hc : Q c) (hrs : ∀ r ∈ rs, Q r.counter) : ∀ r ∈ rs,
      R c r.counter := by
  induction rs generalizing c with
  | nil => simp
  | cons r rs ih =>
    obtain ⟨hr, hrest⟩ := List.forall_mem_cons.mp hrs
    obtain ⟨hnot, hnots⟩ := List.forall_mem_cons.mp hown
    have hR : R c r.counter := by
      obtain hown | ⟨c', hc', hstart, hgeneration, hdecreased⟩ := h.1
      · exact absurd hown hnot
      · cases hc'
        exact hstep c r.counter hc hr hstart hgeneration hdecreased
    exact List.forall_mem_cons.mpr ⟨hR, fun s hs => htrans _ _ _ hR (ih h.2 hnots hr hrest s hs)⟩

/-! ## Values -/

def number (raw : Json) : ℚ := (asF64 raw).getD 0

theorem asU64_some {raw : Json} {n : Nat} (h : raw.asU64 = some n) : raw = .int n := by
  unfold Json.asU64 at h
  split at h
  · split at h
    · cases h
      rename_i hn
      rw [Int.toNat_of_nonneg hn]
    · cases h
  · cases h

theorem number_le_of_not_decreased {raw previous : Json} (hraw : (asF64 raw).isSome)
    (hprevious : (asF64 previous).isSome) (h : decreased raw previous = false) :
    number previous ≤ number raw := by
  obtain ⟨a, ha⟩ := Option.isSome_iff_exists.mp hraw
  obtain ⟨b, hb⟩ := Option.isSome_iff_exists.mp hprevious
  unfold decreased at h
  split at h
  · -- integers are compared exactly, and rounding keeps their order
    rename_i m n hm hn
    rw [asU64_some hm, asU64_some hn]
    have hle : (n : ℚ) ≤ m := by exact_mod_cast not_lt.mp (of_decide_eq_false h)
    simpa [number, asF64] using Double.round_mono hle
  · simp only [number, ha, hb, Option.getD_some]
    rw [ha, hb] at h
    simpa using h

theorem u64_le_of_not_decreased {raw previous : Json} {m n : Nat} (hraw : raw.asU64 = some m)
    (hprevious : previous.asU64 = some n) (h : decreased raw previous = false) : n ≤ m := by
  simp only [decreased, hraw, hprevious] at h
  exact not_lt.mp (of_decide_eq_false h)

theorem times_mono (scale : Scale) {a b : ℚ} (h : a ≤ b) : scale.times a ≤ scale.times b := by
  have hpos : ∀ {x : ℚ}, 0 ≤ x → 0 ≤ Double.round x := fun {x} hx => by
    have hround := Double.round_mono hx
    simpa [Double.round, Double.roundPos, Double.roundEven] using hround
  cases scale with
  | one => exact h
  | micro => exact Double.round_mono (mul_le_mul_of_nonneg_right h (hpos (by norm_num)))
  | percent => exact Double.round_mono (mul_le_mul_of_nonneg_right h (hpos (by norm_num)))

theorem double_value {raw : Json} {q : ℚ} (h : asF64 raw = some q) (scale : Scale) :
    (value raw scale q).double = scale.times q := by
  unfold value
  split
  · rename_i n hn
    split
    · rename_i hone
      rw [asU64_some hn, asF64] at h
      cases h
      rw [hone.1]
      simp [Value.double, Scale.times]
    · rfl
  · rfl

/-- The scale of a counter, from its name. -/
def counterScale (name : Text) : Scale := if ("_seconds" : Text).isSuffixOf name then .micro else .one

def Scaled (call : Call) : Prop := call.generation.isSome = true → call.scale = counterScale call.name

/-- The call is none of a filesystem's. -/
def Elsewhere (call : Call) : Prop := ("hs_pve_filesystem_" : Text).isPrefixOf call.name = false

section

variable (entry : Json) (labels : Attributes) (time : Nat)

theorem apart_limit {unlimited name unit : Text} {value : Json} {scale : Scale}
    (hunlimited : ("hs_pve_filesystem_" : Text).isPrefixOf unlimited = false)
    (hname : ("hs_pve_filesystem_" : Text).isPrefixOf name = false) :
    ∀ c ∈ limit unlimited name unit value scale labels time, Scaled c ∧ Elsewhere c := by
  unfold limit
  split
  · exact List.forall_mem_cons.mpr ⟨⟨nofun, hunlimited⟩, List.forall_mem_singleton.mpr ⟨nofun, hname⟩⟩
  · nofun

theorem scaled_seconds (name unit : Text) (raw : Json) :
    Scaled (counter entry time (name ++ "_seconds") unit raw .micro labels) := by
  intro _
  have hsuffix : ("_seconds" : Text).isSuffixOf (name ++ "_seconds") = true :=
    List.isSuffixOf_iff_suffix.mpr (List.suffix_append ..)
  exact (if_pos hsuffix).symm

theorem apart_cpu : ∀ c ∈ cpu entry labels time, Scaled c ∧ Elsewhere c := by
  simp only [cpu, List.forall_mem_append, List.forall_mem_cons, List.forall_mem_map]
  refine ⟨⟨⟨⟨fun f _ => ⟨scaled_seconds _ _ _ _ _ _, rfl⟩, ?_⟩, ⟨nofun, rfl⟩, fun _ _ => ⟨nofun, rfl⟩⟩,
    apart_limit _ _ rfl rfl⟩,
    ⟨nofun, rfl⟩, nofun⟩
  simp only [cpuEvents, List.forall_mem_cons]
  exact ⟨⟨fun _ => rfl, rfl⟩, ⟨fun _ => rfl, rfl⟩, ⟨fun _ => rfl, rfl⟩, nofun⟩

theorem apart_memory : ∀ c ∈ memory entry labels time, Scaled c ∧ Elsewhere c := by
  simp only [memory, List.forall_mem_append, List.forall_mem_map, List.forall_mem_flatMap]
  exact ⟨⟨⟨⟨fun _ _ => ⟨nofun, rfl⟩, fun _ _ => apart_limit _ _ rfl rfl⟩, fun _ _ => ⟨nofun, rfl⟩⟩,
    fun _ _ => ⟨fun _ => rfl, rfl⟩⟩,
    fun _ _ => ⟨fun _ => rfl, rfl⟩⟩

theorem apart_processes : ∀ c ∈ processes entry labels time, Scaled c ∧ Elsewhere c := by
  simp only [processes, List.forall_mem_append, List.forall_mem_map]
  exact ⟨List.forall_mem_cons.mpr ⟨⟨nofun, rfl⟩, apart_limit _ _ rfl rfl⟩, fun _ _ => ⟨nofun, rfl⟩⟩

theorem apart_stalls (resource stall : Text) :
    ∀ c ∈ stalls entry labels time resource stall, Scaled c ∧ Elsewhere c := by
  simp only [stalls, List.forall_mem_append, List.forall_mem_map]
  exact ⟨fun _ _ => ⟨nofun, rfl⟩, List.forall_mem_singleton.mpr ⟨fun _ => rfl, rfl⟩⟩

theorem apart_device (name : Text) (fields : Json) :
    ∀ c ∈ device entry labels time name fields, Scaled c ∧ Elsewhere c := by
  simp only [device, List.forall_mem_flatMap]
  exact fun _ _ => List.forall_mem_cons.mpr ⟨⟨fun _ => rfl, rfl⟩,
    List.forall_mem_singleton.mpr ⟨fun _ => rfl, rfl⟩⟩

theorem apart_cgroup : ∀ c ∈ cgroup entry labels time, Scaled c ∧ Elsewhere c := by
  simp only [cgroup, effectiveLimits, List.forall_mem_append, List.forall_mem_flatMap]
  refine ⟨⟨⟨⟨⟨⟨List.forall_mem_cons.mpr ⟨⟨nofun, rfl⟩, apart_limit _ _ rfl rfl⟩, ?_⟩, ?_⟩, ?_⟩, ?_⟩, ?_⟩,
    List.forall_mem_cons.mpr ⟨⟨nofun, rfl⟩, List.forall_mem_singleton.mpr ⟨nofun, rfl⟩⟩⟩
  · exact apart_cpu entry labels time
  · exact apart_memory entry labels time
  · exact apart_processes entry labels time
  · exact fun resource _ stall _ => apart_stalls entry labels time resource stall
  · exact fun e _ => apart_device entry labels time e.1 e.2

theorem apart_agent (node : Text) (report : Json) (failures : Nat) (previousSuccess : Bool) :
    ∀ c ∈ agentCalls node report time failures previousSuccess, Scaled c ∧ Elsewhere c := by
  simp only [agentCalls, List.forall_mem_cons]
  exact ⟨⟨nofun, rfl⟩, ⟨nofun, rfl⟩, ⟨nofun, rfl⟩, ⟨nofun, rfl⟩, ⟨fun _ => rfl, rfl⟩, nofun⟩

def sampleAge : Text := "hs_pve_filesystem_sample_age_seconds"

def collectionSuccess : Text := "hs_pve_filesystem_collection_success"

/-- The metrics of a filesystem sample. -/
def OfFilesystem (name : Text) : Prop :=
  ("hs_pve_filesystem_" : Text).isPrefixOf name = true ∧ name ≠ sampleAge

/-- A gauge of a sample. -/
def Sampled (call : Call) : Prop := call.generation = none ∧ call.scale = .one ∧ OfFilesystem call.name

theorem mounted_sampled (sampleTime : Nat) (f : Json) : ∀ c ∈ mounted labels sampleTime f, Sampled c := by
  have hgauge {name unit : Text} {raw : Json} {labels : Attributes} (h : OfFilesystem name) :
      Sampled (gauge name unit raw labels sampleTime) := ⟨rfl, rfl, h⟩
  unfold mounted
  split
  · nofun
  · simp only [List.forall_mem_append, List.forall_mem_map]
    refine ⟨⟨List.forall_mem_cons.mpr ⟨hgauge ?_, List.forall_mem_singleton.mpr (hgauge ?_)⟩, ?_⟩, ?_⟩
    · exact ⟨by decide, by decide⟩
    · exact ⟨by decide, by decide⟩
    · intro size hsize
      refine hgauge ⟨List.isPrefixOf_iff_prefix.mpr (List.prefix_append ..), fun heq => ?_⟩
      exact absurd (List.append_cancel_left heq : size = "sample_age_seconds".toList) (by revert size; decide)
    · intro size hsize
      refine hgauge ⟨List.isPrefixOf_iff_prefix.mpr (List.prefix_append ..), fun heq => ?_⟩
      exact absurd (List.append_cancel_left heq : size = "sample_age_seconds".toList) (by revert size; decide)

theorem sample_sampled (sampleTime : Nat) : ∀ c ∈ sample entry labels sampleTime, Sampled c := by
  refine List.forall_mem_cons.mpr ⟨⟨rfl, rfl, show OfFilesystem collectionSuccess from
    ⟨by decide, by decide⟩⟩, List.forall_mem_flatMap.mpr fun f _ => ?_⟩
  exact mounted_sampled labels sampleTime f

theorem scaled_filesystem (changed : Bool) : ∀ c ∈ filesystem entry labels time changed, Scaled c := by
  unfold filesystem
  refine List.forall_mem_cons.mpr ⟨nofun, ?_⟩
  split
  · split
    · intro c hc hcounter
      rw [(sample_sampled entry labels _ c hc).1] at hcounter
      cases hcounter
    · nofun
  · nofun

theorem scaled_calls (node : Text) (samples : Text → Option Nat) (report : Json) (failures : Nat)
    (previousSuccess : Bool) :
    ∀ c ∈ calls node samples report time failures previousSuccess, Scaled c := by
  refine List.forall_mem_append.mpr ⟨fun c hc =>
    (apart_agent time node report failures previousSuccess c hc).1, ?_⟩
  refine List.forall_mem_flatMap.mpr fun entry _ => ?_
  unfold instanceCalls
  split
  · nofun
  · refine List.forall_mem_append.mpr ⟨fun c hc => (apart_cgroup _ _ _ c hc).1, ?_⟩
    split
    · nofun
    · exact scaled_filesystem _ _ _ _

end

/-- A point of a counter has the value of a number, by the scale of its name. -/
def Sound (p : Point) : Prop :=
  ∀ c ∈ p.counter, ∃ q, asF64 c.previous = some q ∧ p.value = value c.previous (counterScale p.series.1) q

theorem previous_advance (counter : Option Counter) (raw : Json) (time : Nat) (generation : Text) :
    (advance counter raw time generation).previous = raw := by
  unfold advance
  split
  · rfl
  · split <;> rfl

theorem point_sound {m : Metrics} {call : Call} (hcall : Scaled call) (h : ∀ p ∈ m.points, Sound p) :
    ∀ p ∈ (m.point call).points, Sound p := by
  unfold Metrics.point
  cases hnumber : asF64 call.raw with
  | none => exact h
  | some q =>
    cases hgeneration : call.generation with
    | none => exact List.forall_mem_append.mpr ⟨h, List.forall_mem_singleton.mpr nofun⟩
    | some generation =>
      refine List.forall_mem_append.mpr ⟨h, List.forall_mem_singleton.mpr fun c hc => ?_⟩
      cases hc
      rw [previous_advance]
      exact ⟨q, hnumber, by rw [← hcall (by rw [hgeneration]; rfl)]⟩

theorem foldl_sound {m : Metrics} {cs : List Call} (hcs : ∀ c ∈ cs, Scaled c) (h : ∀ p ∈ m.points, Sound p) :
    ∀ p ∈ (cs.foldl Metrics.point m).points, Sound p := by
  induction cs generalizing m with
  | nil => exact h
  | cons c cs ih =>
    obtain ⟨hc, hcs⟩ := List.forall_mem_cons.mp hcs
    exact ih hcs (point_sound hc h)

section

variable {node : Text}

theorem export_some {x : Exporter} {report : Json} {sent : Except Text Bool} {ps : List Point}
    (h : (x.export node report sent).2 = some ps) :
    ∃ time, nanoseconds (field report "unix_timestamp_ms") = some time ∧
      ps = ((calls node x.encoder.filesystemSamples report time x.failures
        x.previousSuccess).foldl Metrics.point
        ⟨x.encoder.counters, [], []⟩).points := by
  unfold Exporter.export Encoder.encode at h
  cases htime : nanoseconds (field report "unix_timestamp_ms") with
  | none =>
    rw [htime] at h
    cases h
  | some time =>
    rw [htime] at h
    cases h
    exact ⟨time, rfl, rfl⟩

theorem points_sound (x : Exporter) (history : History) : ∀ p ∈ x.points node history, Sound p := by
  induction history generalizing x with
  | nil => nofun
  | cons entry rest ih =>
    obtain ⟨report, sent⟩ := entry
    refine List.forall_mem_append.mpr ⟨?_, ih _⟩
    cases hexport : (x.export node report sent).2 with
    | none => nofun
    | some ps =>
      obtain ⟨time, -, rfl⟩ := export_some hexport
      exact foldl_sound (scaled_calls time node _ report _ _) nofun

theorem reading_sound {series : Series} {ps : List Point} (h : ∀ p ∈ ps, Sound p) {r : Reading}
    (hr : r ∈ readings series ps) :
    (asF64 r.counter.previous).isSome ∧ r.value.double = (counterScale series.1).times
    (number r.counter.previous) := by
  obtain ⟨p, hp, hpr⟩ := List.mem_filterMap.mp hr
  split at hpr
  · rename_i hseries
    obtain ⟨c, hc, rfl⟩ := Option.map_eq_some_iff.mp hpr
    obtain ⟨q, hq, hvalue⟩ := h p hp c hc
    refine ⟨by rw [hq]; rfl, ?_⟩
    rw [hvalue, double_value hq, hseries, number, hq]
    rfl
  · cases hpr

end

/-- A stream of a counter that is well formed. -/
structure WellFormed (rs : List Reading) : Prop where
  start_le_time : ∀ r ∈ rs, r.start ≤ r.time
  starts_ordered : rs.Pairwise fun r s => r.start ≤ s.start
  /-- Two readings with one start are of one generation and in order, unless one between them starts
  anew at that time. -/
  same_start : ∀ before first between last after, rs = before ++ first :: (between ++ last :: after) →
    first.start = last.start →
    (first.counter.generation = last.counter.generation ∧ first.value.double ≤ last.value.double ∧
      ((∀ r ∈ first :: (between ++ [last]), r.counter.previous.asU64.isSome) →
        first.counter.previous.asU64.getD 0 ≤ last.counter.previous.asU64.getD 0)) ∨
    ∃ r ∈ between ++ [last], r.start = r.time ∧ r.time = first.time
  /-- A reading of another generation than the one before it, or below it, starts at its own time. -/
  starts_anew : ∀ before first next after, rs = before ++ first :: next :: after →
    first.counter.generation ≠ next.counter.generation ∨
      decreased next.counter.previous first.counter.previous = true → next.start = next.time

theorem Chained.drop {counter : Option Counter} {before : List Reading} {r : Reading} {after : List Reading}
    (h : Chained counter (before ++ r :: after)) : Chained (some r.counter) after := by
  induction before generalizing counter with
  | nil => exact h.2
  | cons b before ih => exact ih h.2

theorem Chained.take {counter : Option Counter} {rs ss : List Reading} (h : Chained counter (rs ++ ss)) :
    Chained counter rs := by
  induction rs generalizing counter with
  | nil => trivial
  | cons r rs ih => exact ⟨h.1, ih h.2⟩

theorem wellFormed_of_chained {rs : List Reading} {scale : Scale} (h : Chained none rs)
    (htimes : rs.Pairwise fun r s => r.time ≤ s.time)
    (hsound : ∀ r ∈ rs, (asF64 r.counter.previous).isSome ∧
    r.value.double = scale.times (number r.counter.previous)) : WellFormed rs := by
  obtain ⟨hle, hordered, -⟩ := h.starts htimes (by nofun)
  refine ⟨hle, hordered, ?_, ?_⟩
  · rintro before first between last after rfl hstart
    have hchained : Chained (some first.counter) (between ++ [last]) := by
      have hafter := h.drop
      rw [List.append_cons] at hafter
      exact hafter.take
    have hmem {r : Reading} (hr : r ∈ between ++ [last]) : r ∈ between ++ last :: after := by
      rw [List.append_cons]
      exact List.mem_append_left _ hr
    have hmem' {r : Reading} (hr : r ∈ between ++ [last]) : r ∈ before ++
        first :: (between ++ last :: after) :=
      List.mem_append_right _ (List.mem_cons_of_mem _ (hmem hr))
    have hfirst : first ∈ before ++ first :: (between ++ last :: after) := by simp
    by_cases hown : ∃ r ∈ between ++ [last], r.start = r.time
    · -- it starts no earlier than the first and no later than the last
      right
      obtain ⟨r, hr, hrown⟩ := hown
      have hlater : first.time ≤ r.time :=
        (List.pairwise_cons.mp (List.pairwise_append.mp htimes).2.1).1 r (hmem hr)
      have hearlier : r.start ≤ last.start := by
        have hpairs := (List.pairwise_cons.mp (List.pairwise_append.mp hordered).2.1).2
        obtain hr | hr := List.mem_append.mp hr
        · exact (List.pairwise_append.mp hpairs).2.2 r hr last List.mem_cons_self
        · rw [List.mem_singleton.mp hr]
      have hfirst := hle first hfirst
      exact ⟨r, hr, hrown, by omega⟩
    · left
      have hgo : ∀ r ∈ between ++ [last], r.start ≠ r.time := fun r hr heq => hown ⟨r, hr, heq⟩
      have hlast : last ∈ between ++ [last] := by simp
      obtain ⟨hgeneration, hnumber⟩ := Chained.goes_on
        (R := fun c c' => c.generation = c'.generation ∧ number c.previous ≤ number c'.previous)
        (Q := fun c => (asF64 c.previous).isSome)
        (fun a b c hab hbc => ⟨hab.1.trans hbc.1, hab.2.trans hbc.2⟩)
        (fun c c' hc hc' _ hgeneration hdecreased =>
          ⟨hgeneration.symm, number_le_of_not_decreased hc' hc hdecreased⟩)
        hchained hgo (hsound first hfirst).1 (fun r hr => (hsound r (hmem' hr)).1) last hlast
      refine ⟨hgeneration, ?_, fun hints => ?_⟩
      · rw [(hsound first hfirst).2, (hsound last (hmem' hlast)).2]
        exact times_mono scale hnumber
      · obtain ⟨hint, hints⟩ := List.forall_mem_cons.mp hints
        refine Chained.goes_on (R := fun c c' => c.previous.asU64.getD 0 ≤ c'.previous.asU64.getD 0)
          (Q := fun c => c.previous.asU64.isSome)
          (fun a b c => le_trans) (fun c c' hc hc' _ _ hdecreased => ?_) hchained hgo hint hints last hlast
        obtain ⟨n, hn⟩ := Option.isSome_iff_exists.mp hc
        obtain ⟨m, hm⟩ := Option.isSome_iff_exists.mp hc'
        rw [hn, hm]
        exact u64_le_of_not_decreased hm hn hdecreased
  · rintro before first next after rfl hnew
    have hafter := h.drop
    obtain hown | ⟨c, hc, -, hgeneration, hdecreased⟩ := hafter.1
    · exact hown
    · cases hc
      obtain hnew | hnew := hnew
      · exact absurd hgeneration.symm hnew
      · rw [hdecreased] at hnew
        cases hnew

/-! ## Samples -/

/-- The report was exported, and the Collector took it, wholly or in part. -/
def isAccepted (h : Json × Except Text Bool) : Bool :=
  (nanoseconds (field h.1 "unix_timestamp_ms")).isSome && h.2.toOption.isSome

/-- The last report that the Collector took. -/
def lastAccepted (history : History) : Option Json := (history.filter isAccepted).getLast?.map Prod.fst

/-- Its sample for a key. -/
def acceptedSample (history : History) (key : Text) : Option Nat :=
  (lastAccepted history).bind fun report => samplesOf report key

section

variable {node : Text}

theorem samples_export (x : Exporter) (report : Json) (sent : Except Text Bool) :
    (x.export node report sent).1.encoder.filesystemSamples =
      if isAccepted (report, sent) then samplesOf report else x.encoder.filesystemSamples := by
  unfold Exporter.export Encoder.encode isAccepted
  cases nanoseconds (field report "unix_timestamp_ms") with
  | none => rfl
  | some time => rfl

theorem samples_run (x : Exporter) (history : History) :
    (x.run node history).encoder.filesystemSamples =
      ((lastAccepted history).map samplesOf).getD x.encoder.filesystemSamples := by
  induction history generalizing x with
  | nil => rfl
  | cons entry rest ih =>
    obtain ⟨report, sent⟩ := entry
    rw [Exporter.run, List.foldl_cons]
    change (((x.export node report sent).1).run node rest).encoder.filesystemSamples = _
    rw [ih, samples_export, lastAccepted, lastAccepted, List.filter_cons]
    split
    · rw [List.getLast?_cons]
      cases (rest.filter isAccepted).getLast? <;> rfl
    · rfl

/-- The point that a call of a gauge makes. -/
def Makes (call : Call) (p : Point) : Prop :=
  ∃ number, asF64 call.raw = some number ∧ p = ⟨(call.name, call.labels), call.unit, call.time,
    value call.raw call.scale number, none⟩

/-- The points of a name that no counter has. -/
theorem mem_made {cs : List Call} {m : Metrics} {p : Point}
    (h : ∀ c ∈ cs, c.name = p.series.1 → c.generation = none) :
    p ∈ (cs.foldl Metrics.point m).points ↔ p ∈ m.points ∨ ∃ c ∈ cs, Makes c p := by
  induction cs generalizing m with
  | nil => simp
  | cons c cs ih =>
    obtain ⟨hc, hcs⟩ := List.forall_mem_cons.mp h
    have hpoint : p ∈ (m.point c).points ↔ p ∈ m.points ∨ Makes c p := by
      unfold Metrics.point Makes
      cases hnumber : asF64 c.raw with
      | none => simp
      | some q =>
        cases hgeneration : c.generation with
        | none => simp
        | some generation =>
          have hname : c.name ≠ p.series.1 := fun hname => by
            rw [hc hname] at hgeneration
            cases hgeneration
          have hne : ∀ unit time value counter, p ≠ ⟨(c.name, c.labels), unit, time, value, counter⟩ := by
            rintro unit time value counter rfl
            exact hname rfl
          simp [hne]
    rw [List.foldl_cons, ih hcs, hpoint, or_assoc]
    simp

/-- The calls that measure a sample are made for the guests whose sample the last accepted report did
not have. -/
theorem sample_call {samples : Text → Option Nat} {report : Json} {time failures : Nat}
    {previousSuccess : Bool} {c : Call} :
    c ∈ calls node samples report time failures previousSuccess ∧ OfFilesystem c.name ↔
      ∃ entry ∈ instances report, ∃ id kind ms moment, guest entry = some (id, kind) ∧ stamp entry = some ms ∧
        nanoseconds (field (AgentMetrics.report entry) "sampled_at_unix_ms") = some moment ∧
          samples (sampleKey entry id kind) ≠ some ms ∧
            c ∈ sample entry (guestLabels node entry id kind) moment := by
  have hapart {c : Call} (h : Scaled c ∧ Elsewhere c) : ¬ OfFilesystem c.name := by
    intro hname
    have helsewhere := h.2
    rw [Elsewhere, hname.1] at helsewhere
    cases helsewhere
  constructor
  · rintro ⟨hc, hname⟩
    obtain hc | hc := List.mem_append.mp hc
    · exact absurd hname (hapart (apart_agent time node report failures previousSuccess c hc))
    · obtain ⟨entry, hentry, hc⟩ := List.mem_flatMap.mp hc
      refine ⟨entry, hentry, ?_⟩
      unfold instanceCalls at hc
      cases hguest : guest entry with
      | none =>
        rw [hguest] at hc
        cases hc
      | some g =>
        obtain ⟨id, kind⟩ := g
        rw [hguest] at hc
        obtain hc | hc := List.mem_append.mp hc
        · exact absurd hname (hapart (apart_cgroup _ _ _ c hc))
        · cases hstamp : stamp entry with
          | none =>
            rw [hstamp] at hc
            cases hc
          | some ms =>
            rw [hstamp] at hc
            obtain rfl | hc := List.mem_cons.mp hc
            · exact absurd rfl hname.2
            · split at hc
              · rename_i hchanged
                cases hnano : nanoseconds (field (AgentMetrics.report entry) "sampled_at_unix_ms") with
                | none =>
                  rw [hnano] at hc
                  cases hc
                | some moment =>
                  rw [hnano] at hc
                  exact ⟨id, kind, ms, moment, rfl, rfl, rfl, of_decide_eq_true hchanged, hc⟩
              · cases hc
  · rintro ⟨entry, hentry, id, kind, ms, moment, hguest, hstamp, hnano, hchanged, hc⟩
    refine ⟨List.mem_append_right _ (List.mem_flatMap.mpr ⟨entry, hentry, ?_⟩),
      (sample_sampled _ _ _ c hc).2.2⟩
    unfold instanceCalls
    rw [hguest]
    refine List.mem_append_right _ ?_
    rw [hstamp]
    refine List.mem_cons_of_mem _ ?_
    rw [if_pos (by simpa using hchanged), hnano]
    exact hc

end

/-! ## What a sample holds -/

/-- How a number is shown: as an integer where it is one of 63 bits, else as a double. -/
inductive Shows (raw : Json) : Value → Prop
  | whole {n : Nat} : raw.asU64 = some n → n < 2 ^ 63 → Shows raw (.asInt n)
  | double {q : ℚ} : asF64 raw = some q → (∀ n, raw.asU64 = some n → 2 ^ 63 ≤ n) → Shows raw (.asDouble q)

def bit (b : Bool) : Value := .asInt (if b then 1 else 0)

/-- What is measured of a mount: two flags, and the sizes that are numbers. -/
inductive Measured (filesystem : Json) : Text → Text → Value → Prop
  | mounted : Measured filesystem "hs_pve_filesystem_mounted"
      "1" (bit (field filesystem "mounted" = .bool true))
  | read : Measured filesystem "hs_pve_filesystem_read_success" "1" (bit (field filesystem "error").isNull)
  | bytes {size : Text} {shown : Value} :
      size ∈ (["total_bytes", "used_bytes", "free_bytes", "available_bytes",
        "total_bytes_unprivileged"] : List Text) →
        Shows (field filesystem size) shown → Measured filesystem ("hs_pve_filesystem_" ++ size) "By" shown
  | inodes {size : Text} {shown : Value} : size ∈ (["inodes_total", "inodes_free"] : List Text) →
      Shows (field filesystem size) shown → Measured filesystem ("hs_pve_filesystem_" ++ size)
        "\x7binode\x7d" shown

/-- The labels of a mount, with the kind of its filesystem where that is known. -/
def mountLabels (labels : Attributes) (mount : Text) (filesystem : Json) : Attributes :=
  let labels := withLabel "mount" mount labels
  ((field filesystem "filesystem").asStr.map fun kind => withLabel "filesystem" kind labels).getD labels

/-- The points of a guest's sample: whether it was collected, and what was measured of each mount. -/
inductive OfSample (entry : Json) (labels : Attributes) (time : Nat) : Point → Prop
  | collected : OfSample entry labels time
      ⟨(collectionSuccess, labels), "1", time, bit (field (AgentMetrics.report entry) "error").isNull, none⟩
  | measured {filesystem : Json} {mount name unit : Text} {shown : Value} :
      filesystem ∈ (field (AgentMetrics.report entry) "filesystems").asArray.getD [] →
        (field filesystem "mount").asStr = some mount →
        Measured filesystem name unit shown →
          OfSample entry labels time ⟨(name, mountLabels labels mount filesystem), unit, time, shown, none⟩

theorem shows_value {raw : Json} {q : ℚ} (h : asF64 raw = some q) : Shows raw (value raw .one q) := by
  unfold value
  split
  · rename_i n hn
    split
    · rename_i hsmall
      exact .whole hn hsmall.2
    · rename_i hlarge
      refine .double h fun m hm => ?_
      rw [hn] at hm
      cases hm
      exact not_lt.mp fun hlt => hlarge ⟨rfl, hlt⟩
  · rename_i hnone
    refine .double h fun m hm => ?_
    rw [hnone] at hm
    cases hm

theorem Shows.eq {raw : Json} {shown : Value} (h : Shows raw shown) :
    ∃ q, asF64 raw = some q ∧ shown = value raw .one q := by
  cases h with
  | whole hn hsmall =>
    refine ⟨Double.round ((_ : ℤ) : ℚ), by rw [asU64_some hn]; rfl, ?_⟩
    unfold value
    rw [hn]
    exact (if_pos ⟨rfl, hsmall⟩).symm
  | @double q hq hlarge =>
    refine ⟨q, hq, ?_⟩
    unfold value
    split
    · rename_i n hn
      rw [if_neg fun hsmall => absurd (hlarge n hn) (not_le.mpr hsmall.2)]
      rfl
    · rfl

/-- What a gauge makes. -/
theorem makes_gauge {name unit : Text} {raw : Json} {labels : Attributes} {time : Nat} {p : Point} :
    Makes (gauge name unit raw labels time) p ↔ ∃ shown, Shows raw shown ∧
      p = ⟨(name, labels), unit, time, shown, none⟩ := by
  constructor
  · rintro ⟨q, hq, rfl⟩
    exact ⟨_, shows_value hq, rfl⟩
  · rintro ⟨shown, hshown, rfl⟩
    obtain ⟨q, hq, rfl⟩ := hshown.eq
    exact ⟨q, hq, rfl⟩

theorem shows_flag {b : Bool} {shown : Value} : Shows (flag b) shown ↔ shown = bit b := by
  have hu64 : (flag b).asU64 = some (if b then 1 else 0) := by cases b <;> rfl
  constructor
  · intro h
    cases h with
    | whole hn hsmall =>
      rw [hu64] at hn
      cases hn
      rfl
    | double hq hlarge =>
      have hfew := hlarge _ hu64
      split at hfew <;> omega
  · rintro rfl
    exact .whole hu64 (by cases b <;> decide)

theorem made_mounted {labels : Attributes} {time : Nat} {filesystem : Json} {p : Point} :
    (∃ c ∈ mounted labels time filesystem, Makes c p) ↔ ∃ mount name unit shown,
      (field filesystem "mount").asStr = some mount ∧
      Measured filesystem name unit shown ∧ p = ⟨(name, mountLabels labels mount filesystem), unit,
        time, shown, none⟩ := by
  cases hmount : (field filesystem "mount").asStr with
  | none =>
    have hcalls : mounted labels time filesystem = [] := by
      unfold mounted
      rw [hmount]
    rw [hcalls]
    simp
  | some mount =>
    have hcalls : mounted labels time filesystem =
        [gauge "hs_pve_filesystem_mounted" "1" (flag (field filesystem "mounted" = .bool true))
          (mountLabels labels mount filesystem) time,
        gauge "hs_pve_filesystem_read_success" "1" (flag (field filesystem "error").isNull)
          (mountLabels labels mount filesystem) time] ++
        (["total_bytes", "used_bytes", "free_bytes", "available_bytes",
          "total_bytes_unprivileged"] : List Text).map (fun f =>
          gauge ("hs_pve_filesystem_" ++ f) "By" (field filesystem f)
            (mountLabels labels mount filesystem) time) ++
        (["inodes_total", "inodes_free"] : List Text).map fun f =>
          gauge ("hs_pve_filesystem_" ++ f) "\x7binode\x7d" (field filesystem f)
            (mountLabels labels mount filesystem) time := by
      unfold mounted mountLabels
      rw [hmount]
      cases (field filesystem "filesystem").asStr <;> rfl
    rw [hcalls]
    simp only [List.mem_append, List.mem_map, List.mem_pair]
    constructor
    · rintro ⟨c, ((rfl | rfl) | ⟨size, hsize, rfl⟩) | ⟨size, hsize, rfl⟩, hmakes⟩ <;>
        obtain ⟨shown, hshown, rfl⟩ := makes_gauge.mp hmakes
      · obtain rfl := shows_flag.mp hshown
        exact ⟨mount, _, _, _, rfl, Measured.mounted, rfl⟩
      · obtain rfl := shows_flag.mp hshown
        exact ⟨mount, _, _, _, rfl, Measured.read, rfl⟩
      · exact ⟨mount, _, _, _, rfl, .bytes hsize hshown, rfl⟩
      · exact ⟨mount, _, _, _, rfl, .inodes (List.mem_pair.mpr hsize) hshown, rfl⟩
    · rintro ⟨mount, name, unit, shown, heq, hmeasured, rfl⟩
      cases heq
      cases hmeasured with
      | mounted => exact ⟨_, .inl (.inl (.inl rfl)), makes_gauge.mpr ⟨_, shows_flag.mpr rfl, rfl⟩⟩
      | read => exact ⟨_, .inl (.inl (.inr rfl)), makes_gauge.mpr ⟨_, shows_flag.mpr rfl, rfl⟩⟩
      | bytes hsize hshown => exact ⟨_, .inl (.inr ⟨_, hsize, rfl⟩), makes_gauge.mpr ⟨_, hshown, rfl⟩⟩
      | inodes hsize hshown => exact ⟨_, .inr ⟨_, List.mem_pair.mp hsize, rfl⟩,
          makes_gauge.mpr ⟨_, hshown, rfl⟩⟩

theorem made_sample {entry : Json} {labels : Attributes} {time : Nat} {p : Point} :
    (∃ c ∈ sample entry labels time, Makes c p) ↔ OfSample entry labels time p := by
  constructor
  · rintro ⟨c, hc, hmakes⟩
    obtain rfl | hc := List.mem_cons.mp hc
    · obtain ⟨shown, hshown, rfl⟩ := makes_gauge.mp hmakes
      rw [shows_flag.mp hshown]
      exact .collected
    · obtain ⟨filesystem, hfilesystem, hc⟩ := List.mem_flatMap.mp hc
      obtain ⟨mount, name, unit, shown, hmount, hmeasured, rfl⟩ := made_mounted.mp ⟨c, hc, hmakes⟩
      exact .measured hfilesystem hmount hmeasured
  · rintro (_ | ⟨hfilesystem, hmount, hmeasured⟩)
    · exact ⟨_, List.mem_cons_self, makes_gauge.mpr ⟨_, shows_flag.mpr rfl, rfl⟩⟩
    · obtain ⟨c, hc, hmakes⟩ := made_mounted.mpr ⟨_, _, _, _, hmount, hmeasured, rfl⟩
      exact ⟨c, List.mem_cons_of_mem _ (List.mem_flatMap.mpr ⟨_, hfilesystem, hc⟩), hmakes⟩

/-- The counter streams of every run are well formed, and the points of a sample are in an export, all
of them, if and only if its report carries it and the last accepted report before did not. -/
theorem exports_wellFormed (node : Text) (history : History) :
    (∀ series, ((readings series (Exporter.new.points node history)).Pairwise fun r s => r.time ≤ s.time) →
      WellFormed (readings series (Exporter.new.points node history))) ∧
    ∀ before report sent after, history = before ++ (report, sent) :: after →
      ∀ points, ((Exporter.new.run node before).export node report sent).2 = some points → ∀ p : Point,
        p ∈ points ∧ OfFilesystem p.series.1 ↔
          ∃ entry ∈ instances report, ∃ id kind ms, guest entry = some (id, kind) ∧
            stamp entry = some ms ∧ ms * 10 ^ 6 < 2 ^ 64 ∧
            acceptedSample before (sampleKey entry id kind) ≠ some ms ∧
              OfSample entry (guestLabels node entry id kind) (ms * 10 ^ 6) p := by
  constructor
  · intro series htimes
    exact wellFormed_of_chained (points_chained series history (.inl rfl)) htimes fun r hr =>
      reading_sound (points_sound _ history) hr
  · intro before report sent after _ points hpoints p
    obtain ⟨now, -, rfl⟩ := export_some hpoints
    have hsample (key : Text) : (Exporter.new.run node before).encoder.filesystemSamples key =
        acceptedSample before key := by
      rw [samples_run, acceptedSample]
      cases lastAccepted before <;> rfl
    have hnano {entry : Json} {ms : Nat} (hms : stamp entry = some ms) (moment : Nat) :
        nanoseconds (field (AgentMetrics.report entry) "sampled_at_unix_ms") = some moment ↔
          ms * 10 ^ 6 = moment ∧ ms * 10 ^ 6 < 2 ^ 64 := by
      unfold stamp at hms
      rw [nanoseconds, hms, Option.bind_some]
      split
      · rename_i hlt
        exact ⟨fun h => ⟨Option.some.inj h, hlt⟩, fun h => congrArg some h.1⟩
      · rename_i hlarge
        exact ⟨nofun, fun h => absurd h.2 hlarge⟩
    constructor
    · rintro ⟨hp, hname⟩
      have hnone : ∀ c ∈ calls node (Exporter.new.run node before).encoder.filesystemSamples report now
          (Exporter.new.run node before).failures (Exporter.new.run node before).previousSuccess,
          c.name = p.series.1 → c.generation = none := by
        intro c hc hcname
        obtain ⟨entry, -, id, kind, ms, moment, -, -, -, -, hc⟩ := sample_call.mp ⟨hc, hcname ▸ hname⟩
        exact (sample_sampled _ _ _ c hc).1
      obtain hp | ⟨c, hc, hmakes⟩ := (mem_made hnone).mp hp
      · cases hp
      have hcname : c.name = p.series.1 := by
        obtain ⟨q, -, rfl⟩ := hmakes
        rfl
      obtain ⟨entry, hentry, id, kind, ms, moment, hguest, hstamp, hmoment, hnew, hc⟩ :=
        sample_call.mp ⟨hc, hcname ▸ hname⟩
      obtain ⟨rfl, hlt⟩ := (hnano hstamp moment).mp hmoment
      exact ⟨entry, hentry, id, kind, ms, hguest, hstamp, hlt, hsample _ ▸ hnew,
        made_sample.mp ⟨c, hc, hmakes⟩⟩
    · rintro ⟨entry, hentry, id, kind, ms, hguest, hstamp, hlt, hnew, hp⟩
      obtain ⟨c, hc, hmakes⟩ := made_sample.mpr hp
      obtain ⟨hcall, hname⟩ :=
        sample_call.mpr ⟨entry, hentry, id, kind, ms, _, hguest, hstamp, (hnano hstamp _).mpr ⟨rfl, hlt⟩,
        (hsample (sampleKey entry id kind)).symm ▸ hnew, hc⟩
      have hcname : c.name = p.series.1 := by
        obtain ⟨q, -, rfl⟩ := hmakes
        rfl
      refine ⟨(mem_made ?_).mpr (.inr ⟨c, hcall, hmakes⟩), hcname ▸ hname⟩
      intro c' hc' hc'name
      obtain ⟨entry, -, id, kind, ms, moment, -, -, -, -, hc'⟩ :=
        sample_call.mp ⟨hc', hc'name.trans hcname.symm ▸ hname⟩
      exact (sample_sampled _ _ _ c' hc').1

/-- A report with one guest, whose filesystems were read at a time of their own. -/
def oneGuest (now ms : Nat) : Json :=
  .obj [("instances", .arr [.obj [("vmid", .int 101), ("type", .str "lxc"),
      ("filesystem_report", .obj [("filesystems", .arr [.obj [("mount", .str "/"), ("total_bytes", .int 5)]]),
        ("sampled_at_unix_ms", .int ms)])]]),
    ("unix_timestamp_ms", .int now)]

/-- Three reports with one sample: its first export fails. -/
def lostThenTaken : History :=
  [(oneGuest 1000 1000, .error "Collector returned HTTP 503"), (oneGuest 2000 1000, .ok true),
    (oneGuest 3000 1000, .ok true)]

def rootSize : Point :=
  ⟨("hs_pve_filesystem_total_bytes", [("mount", "/"), ("node", "pve"), ("type", "lxc"), ("vmid", "101")]),
    "By", 1000 * 10 ^ 6, .asInt 5,
    none⟩

/-- The size is in the failed export and in the next, which is accepted, and not in the third. -/
theorem exports_wellFormed_failures :
    WellFormed (readings ("hs_pve_agent_export_failures", nodeLabels "pve")
      (Exporter.new.points "pve" lostThenTaken)) ∧
      (∃ points, (Exporter.new.export "pve" (oneGuest 1000 1000)
        (.error "Collector returned HTTP 503")).2 = some points ∧
        rootSize ∈ points) ∧
      (∃ points, ((Exporter.new.run "pve" (lostThenTaken.take 1)).export
        "pve" (oneGuest 2000 1000) (.ok true)).2 = some points ∧
        rootSize ∈ points) ∧
      ∃ points, ((Exporter.new.run "pve" (lostThenTaken.take 2)).export
        "pve" (oneGuest 3000 1000) (.ok true)).2 = some points ∧
        rootSize ∉ points := by
  have hsample (now : Nat) : ∃ entry ∈ instances (oneGuest now 1000), ∃ id kind ms,
      guest entry = some (id, kind) ∧
      stamp entry = some ms ∧ ms * 10 ^ 6 < 2 ^ 64 ∧ (none : Option Nat) ≠ some ms ∧
        OfSample entry (guestLabels "pve" entry id kind) (ms * 10 ^ 6) rootSize := by
    refine ⟨_, List.mem_cons_self, 101, "lxc", 1000, rfl, rfl, by norm_num, nofun, ?_⟩
    have hsize : Shows (field (.obj [("mount", .str "/"), ("total_bytes", .int 5)])
        "total_bytes") (.asInt 5) :=
      .whole rfl (by norm_num)
    exact .measured List.mem_cons_self rfl (.bytes List.mem_cons_self hsize)
  refine ⟨(exports_wellFormed "pve" lostThenTaken).1 _ (by decide +kernel), ⟨_, rfl, ?_⟩, ⟨_, rfl, ?_⟩,
    ⟨_, rfl, fun hmem => ?_⟩⟩
  · exact (((exports_wellFormed "pve" lostThenTaken).2 [] _ _ (lostThenTaken.drop 1) rfl _ rfl rootSize).mpr
      (hsample 1000)).1
  · exact (((exports_wellFormed "pve" lostThenTaken).2 (lostThenTaken.take 1) _ _
      (lostThenTaken.drop 2) rfl _ rfl rootSize).mpr
      (hsample 2000)).1
  · obtain ⟨entry, hentry, id, kind, ms, hguest, hstamp, -, hnew, -⟩ :=
      ((exports_wellFormed "pve" lostThenTaken).2 (lostThenTaken.take 2) _ _ [] rfl _ rfl rootSize).mp
      ⟨hmem, by decide, by decide⟩
    obtain rfl := List.mem_singleton.mp hentry
    cases hguest
    cases hstamp
    exact hnew rfl

/-- A sample that was not taken is gone when the next is read. -/
theorem sample_superseded :
    ¬ ∀ (before : History) (first : Json) (sent : Except Text Bool) (between : History) (later : Json)
    (sent' : Except Text Bool) (points : List Point), ∀ entry ∈ instances first, ∀ id kind ms,
    guest entry = some (id, kind) →
      stamp entry = some ms → lastAccepted ((first, sent) :: between) = none →
        ((Exporter.new.run "pve" (before ++ (first, sent) :: between)).export
          "pve" later sent').2 = some points →
          ∃ p ∈ points, p.series = (collectionSuccess, guestLabels "pve" entry id kind) ∧
            p.time = ms * 10 ^ 6 := by
  intro h
  have hlater := h [] (oneGuest 1000 1000) (.error "Collector returned HTTP 503") []
    (oneGuest 2000 2000) (.ok true) _ _
    List.mem_cons_self 101 "lxc" 1000 rfl rfl rfl rfl
  revert hlater
  decide +kernel

end HomeStack.AgentExport

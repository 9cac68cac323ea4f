import HomeStack.Lib.Json
import HomeStack.Lib.Tally
import Mathlib.Data.List.Sort

/-! Importing the usage of old sessions (`ai-usage-backfill.py`): the responses in Claude's logs, each
counted once although streams and resumed sessions repeat it, summed into series with a sample for each
five minutes. The arithmetic of the values, the reading of times and the attribution of directories are
parameters. -/

namespace HomeStack.Backfill

/-- Python's numbers, as far as the sums use them. -/
structure Arithmetic (V : Type) where
  zero : V
  ofNat : Nat → V
  add : V → V → V
  /-- `tokens * price` -/
  times : Nat → V → V
  sum : List V → V
  isZero : V → Bool

/-! ## Records -/

structure Usage where
  inputTokens : Option Json
  outputTokens : Option Json
  cacheReadInputTokens : Option Json
  cacheCreationInputTokens : Option Json
  /-- In `cache_creation`. -/
  ephemeral1hInputTokens : Option Json
  speed : Option Text

structure Message where
  id : Option Text
  model : Option Text
  usage : Option Usage

/-- A log record, as far as it is read; a field that is missing or null is `none`. -/
structure Record where
  type : Option Text
  message : Option Message
  timestamp : Option Text
  requestId : Option Text
  uuid : Option Text
  cwd : Option Text
  sessionId : Option Text

structure Values where
  input : Nat
  output : Nat
  cacheRead : Nat
  cacheCreation : Nat
  deriving DecidableEq

abbrev Key := Option Text × Option Text

/-- An entry of `best`: the time, what is used of the record, and its counts. -/
structure Entry where
  ts : ℚ
  key : Key
  cwd : Option Text
  session : Text
  model : Text
  values : Values
  write1h : Nat
  speed : Option Text

def count : Option Json → Option Nat
  | some (.int n) => if 0 ≤ n then some n.toNat else none
  | _ => none

/-- A text that is true in Python. -/
def truthy (text : Option Text) : Option Text := text.filter (· ≠ [])

def keyOf (r : Record) (m : Message) : Key :=
  match m.id, r.requestId with
  | some id, some request => (some id, some request)
  | _, _ => (r.uuid, none)

def valuesOf (u : Usage) : Option Values := do
  let input ← count u.inputTokens
  let output ← count u.outputTokens
  let cacheRead ← count (some (u.cacheReadInputTokens.getD (.int 0)))
  let cacheCreation ← count (some (u.cacheCreationInputTokens.getD (.int 0)))
  return ⟨input, output, cacheRead, cacheCreation⟩

/-- The entry of a record, unless it is skipped. -/
def entry (parseTime : Option Text → Option ℚ) (r : Record) : Option Entry := do
  guard (r.type = some "assistant")
  let message ← r.message
  let usage ← message.usage
  let model ← truthy message.model
  guard (model ≠ "<synthetic>")
  let ts ← parseTime r.timestamp
  let values ← valuesOf usage
  guard (values ≠ ⟨0, 0, 0, 0⟩)
  return ⟨ts, keyOf r message, r.cwd, (truthy r.sessionId).getD "unknown", model, values,
    (count usage.ephemeral1hInputTokens).getD 0, usage.speed⟩

/-- Older versions stream growing output counts; the final one is kept. -/
def keep (previous e : Entry) : Entry :=
  if previous.values.output < e.values.output then { e with ts := min e.ts previous.ts } else previous

/-- The responses, by identity. -/
def best (entries : List Entry) : List (Key × Entry) := Tally.collect id keep Entry.key entries

/-! ## Prices -/

section

variable {V : Type} (A : Arithmetic V)

/-- The prices of a model; `none` for one that is no finite number from zero on. -/
abbrev Prices (V : Type) := List (Text × Option V)

/-- `<field>_above_<N>k_tokens` -/
def tier (field key : Text) : Option Nat := do
  let rest ← (field ++ "_above_" : Text).isPrefixOf? key
  let digits ← (Text.splitOnce "k_tokens" rest).bind fun p => if p.2 = [] then some p.1 else none
  guard (digits ≠ [] ∧ Text.allDigits digits = true)
  return Text.digitsValue digits

def rate (prices : Prices V) (field : Text) (prompt : Nat) : Option V :=
  let base := ((prices.find? (·.1 = field)).bind Prod.snd, (-1 : Int))
  (prices.foldl (fun best p =>
    match tier field p.1 with
    | some n => if (n * 1000 : Nat) < prompt ∧
        best.2 < (n * 1000 : Nat) then (p.2, ((n * 1000 : Nat) : Int)) else best
    | none => best) base).1

def claudeCost (pricing : Option (Text → Option (Prices V))) (model : Text) (values : Values)
    (speed : Option Text) (write1h : Nat) : Option V :=
  match pricing.bind fun p => p model with
  | none => none
  | some prices =>
    if speed ≠ none ∧ speed ≠ some "standard" then none
    else
      let prompt := values.input + values.cacheRead + values.cacheCreation
      let above := rate prices "cache_creation_input_token_cost_above_1hr" prompt
      let parts := [
        (values.input, rate prices "input_cost_per_token" prompt),
        (values.cacheRead, rate prices "cache_read_input_token_cost" prompt),
        (values.cacheCreation - write1h, rate prices "cache_creation_input_token_cost" prompt),
        (write1h, (above.filter fun v => !A.isZero v).or
          (rate prices "cache_creation_input_token_cost" prompt)),
        (values.output, rate prices "output_cost_per_token" prompt)]
      if parts.any fun p => p.1 ≠ 0 && p.2.isNone then none
      else some (A.sum ((parts.filter (·.1 ≠ 0)).filterMap fun p => p.2.map (A.times p.1)))

/-! ## Events -/

/-- What the machine adds to the logs. -/
structure Site (V : Type) where
  parseTime : Option Text → Option ℚ
  host : Text
  /-- `Projects.resolve` -/
  resolve : Text → Text
  pricing : Option (Text → Option (Prices V))
  /-- The first live sample. -/
  limit : Option ℚ

/-- `Projects.__call__` -/
def Site.project (site : Site V) (cwd : Option Text) : Text :=
  match truthy cwd with
  | none => site.host
  | some cwd => site.resolve cwd

/-- A metric, with its own label. -/
abbrev Metric := Text × Option (Text × Text)

abbrev Labels := List (Text × Text)

structure Event (V : Type) where
  ts : ℚ
  project : Text
  labels : Labels
  metrics : List (Metric × V)
  session : Text

def tokens (type : Text) : Metric := ("claude_code_token_usage_tokens_total", some ("type", type))

/-- The event of a response. -/
def event (site : Site V) (e : Entry) : Event V :=
  let project := site.project e.cwd
  let v := e.values
  let cost := claudeCost A site.pricing e.model v e.speed (min e.write1h v.cacheCreation)
  { ts := e.ts
    project := project
    labels := [("model", e.model), ("project", project), ("session_id", e.session)]
    metrics := [(tokens "input", A.ofNat v.input), (tokens "cacheRead", A.ofNat v.cacheRead),
      (tokens "cacheCreation", A.ofNat v.cacheCreation), (tokens "output", A.ofNat v.output)] ++
      (cost.map fun c => ((("claude_code_cost_usage_USD_total", none) : Metric), c)).toList
    session := e.session }

/-- The start of a session: its first response. -/
structure Start where
  ts : ℚ
  project : Text

def start {V : Type} (e : Event V) : Start := ⟨e.ts, e.project⟩

def earlier {V : Type} (s : Start) (e : Event V) : Start := if e.ts < s.ts then start e else s

structure Scan (V : Type) where
  events : List (Event V)
  sessions : List (Text × Start)

/-- What is left of the responses. -/
def scanEntries (site : Site V) (entries : List Entry) : Scan V :=
  let events := (best entries).map fun e => event A site e.2
  ⟨events, Tally.collect start earlier Event.session events⟩

/-- `scan_claude`, over the lines of the files that are records -/
def scanClaude (site : Site V) (files : List (List Record)) : Scan V :=
  scanEntries A site (files.flatten.filterMap (entry site.parseTime))

/-! ## Series -/

abbrev Series := Text × Labels

/-- A value for a bucket of a series. -/
structure Sample (V : Type) where
  series : Series
  bucket : Int
  value : V

/-- Python's order of pairs. -/
def pairLe (a b : Text × Text) : Prop := a.1 < b.1 ∨ a.1 = b.1 ∧ a.2 ≤ b.2

instance (a b : Text × Text) : Decidable (pairLe a b) := inferInstanceAs (Decidable (_ ∨ _))

def seriesOf (site : Site V) (name : Text) (labels : Labels) : Series :=
  let base : Labels := [("host_name", site.host), ("backfill", "logs")]
  (name, (base ++ labels).insertionSort pairLe)

/-- The bucket of a time before the limit. -/
def Site.bucket (site : Site V) (ts : ℚ) : Option Int :=
  if site.limit.any (· ≤ ts) then none else some ⌊ts / 300⌋

def eventSamples (site : Site V) (e : Event V) : List (Sample V) :=
  match site.bucket e.ts with
  | none => []
  | some bucket => e.metrics.map fun m => ⟨seriesOf site m.1.1 (e.labels ++ m.1.2.toList), bucket, m.2⟩

def startSamples (site : Site V) (session : Text) (s : Start) : List (Sample V) :=
  match site.bucket s.ts with
  | none => []
  | some bucket =>
    [⟨seriesOf site "claude_code_session_count_total" [("project", s.project), ("session_id", session)],
      bucket, A.ofNat 1⟩]

def samples (site : Site V) (scan : Scan V) : List (Sample V) :=
  scan.events.flatMap (eventSamples site) ++ scan.sessions.flatMap fun s => startSamples A site s.1 s.2

/-- `values[bucket] += value` -/
def accumulate (values : List (Int × V)) (s : Sample V) : List (Int × V) :=
  Tally.enter (fun s => A.add A.zero s.value) (fun total s => A.add total s.value) s.bucket s values

/-- The values of each series. -/
def buckets (samples : List (Sample V)) : List (Series × List (Int × V)) :=
  Tally.collect (accumulate A []) (accumulate A) Sample.series samples

def stamp (site : Site V) (bucket : Int) : ℚ :=
  let stamp := (bucket + 1) * 300 - 1 / 1000
  match site.limit with
  | none => stamp
  | some limit => min stamp (limit - 1 / 1000)

/-- The points of a series, with its total. -/
def points (site : Site V) (series : Series) (values : List (Int × V)) : List (ℚ × V) × V :=
  let gauge := series.1 = "codex_response_token_usage"
  (values.insertionSort fun a b => a.1 ≤ b.1).foldl
    (fun p b =>
      let total := A.add p.2 b.2
      (p.1 ++ [(stamp site b.1, if gauge then b.2 else total)], total))
    ([], A.zero)

def build (site : Site V) (scan : Scan V) : List (Series × (List (ℚ × V) × V)) :=
  (buckets A (samples A site scan)).map fun s => (s.1, points A site s.1 s.2)

/-- The series that a scan of the files gives. -/
def backfill (site : Site V) (files : List (List Record)) : List (Series × (List (ℚ × V) × V)) :=
  build A site (scanClaude A site files)

end

/-! ## When the order of the logs does not count -/

section

variable {V : Type} {A : Arithmetic V} {site : Site V} {l l' : List Entry} {k : Key} {e e' : Entry}

/-- What the copies of a response can leave, in some order: one with the most output, at its own time or
at that of an earlier copy with less output. -/
def Kept (copies : List Entry) (e : Entry) : Prop :=
  ∃ m ∈ copies, (∀ c ∈ copies, c.values.output ≤ m.values.output) ∧
    ∃ c ∈ copies, (c = m ∨ c.values.output < m.values.output) ∧ e = { m with ts := min m.ts c.ts }

def Possible (l : List Entry) (k : Key) (e : Entry) : Prop := Kept (l.filter (·.key = k)) e

/-- Both count for the same, in the same bucket. -/
structure Alike (A : Arithmetic V) (site : Site V) (e e' : Entry) : Prop where
  project : (event A site e).project = (event A site e').project
  labels : (event A site e).labels = (event A site e').labels
  metrics : (event A site e).metrics = (event A site e').metrics
  session : e.session = e'.session
  bucket : site.bucket e.ts = site.bucket e'.ts

/-- The values of a series in a bucket. -/
def valuesAt (samples : List (Sample V)) (s : Series) (bucket : Int) : List V :=
  (samples.filter fun x => x.series = s ∧ x.bucket = bucket).map Sample.value

/-- Of a response that is not counted at all the copies do not matter. -/
def Agree (A : Arithmetic V) (site : Site V) (e e' : Entry) : Prop :=
  site.bucket e.ts = none ∧ site.bucket e'.ts = none ∨ Alike A site e e'

/-- The copies of a response agree, the first response of a session has one project, and the values of a
bucket add up to the same in any order. -/
structure Settled (A : Arithmetic V) (site : Site V) (l : List Entry) : Prop where
  copies : ∀ k e e', Possible l k e → Possible l k e' → Agree A site e e'
  starts : ∀ k e, Possible l k e → site.bucket e.ts ≠ none → ∃ project,
    ∀ k' e', Possible l k' e' → site.bucket e'.ts ≠ none → e'.session = e.session →
      site.project e'.cwd ≠ project →
      ∃ k₁ e₁, Possible l k₁ e₁ ∧ e₁.session = e.session ∧ site.project e₁.cwd = project ∧
        ∀ e₂, Possible l k₁ e₂ → e₂.ts < e'.ts
  sums : ∀ s bucket (vs : List V), vs.Perm (valuesAt (samples A site (scanEntries A site l)) s bucket) →
    vs.foldl A.add A.zero = (valuesAt (samples A site (scanEntries A site l)) s bucket).foldl A.add A.zero

theorem Kept.congr {c c' : List Entry} (h : ∀ x, x ∈ c ↔ x ∈ c') (hk : Kept c e) : Kept c' e := by
  obtain ⟨m, hm, hmax, x, hx, hrest⟩ := hk
  exact ⟨m, (h m).mp hm, fun y hy => hmax y ((h y).mpr hy), x, (h x).mp hx, hrest⟩

theorem Possible.perm (h : l.Perm l') (hp : Possible l k e) : Possible l' k e :=
  Kept.congr (fun _ => (h.filter _).mem_iff) hp

theorem kept_single (e : Entry) : Kept [e] e := by
  have he : e = { e with ts := min e.ts e.ts } := by rw [min_self]
  exact ⟨e, List.mem_cons_self,
    fun c hc => by rw [List.mem_singleton.mp hc], e, List.mem_cons_self, Or.inl rfl, he⟩

/-- One more copy. -/
theorem Kept.keep {copies : List Entry} (h : Kept copies e) (new : Entry) :
    Kept (copies ++ [new]) (keep e new) := by
  obtain ⟨m, hm, hmax, c, hc, hless, rfl⟩ := h
  have hcm : c.values.output ≤ m.values.output := hmax c hc
  unfold Backfill.keep
  split
  next hmore =>
    have hmore : m.values.output < new.values.output := hmore
    have hnew : new ∈ copies ++ [new] := List.mem_append_right _ List.mem_cons_self
    refine ⟨new, hnew, fun x hx => ?_, ?_⟩
    · rcases List.mem_append.mp hx with hx | hx
      · exact (hmax x hx).trans hmore.le
      · rw [List.mem_singleton.mp hx]
    · rcases min_choice m.ts c.ts with hmin | hmin
      · exact ⟨m, List.mem_append_left _ hm, Or.inr hmore, by rw [hmin]⟩
      · exact ⟨c, List.mem_append_left _ hc, Or.inr (by omega), by rw [hmin]⟩
  next hmore =>
    have hmore : ¬ m.values.output < new.values.output := hmore
    refine ⟨m, List.mem_append_left _ hm, fun x hx => ?_, c, List.mem_append_left _ hc, hless, rfl⟩
    rcases List.mem_append.mp hx with hx | hx
    · exact hmax x hx
    · rw [List.mem_singleton.mp hx]
      omega

theorem kept_foldl {copies rest : List Entry} (h : Kept copies e) :
    Kept (copies ++ rest) (rest.foldl keep e) := by
  induction rest generalizing copies e with
  | nil => rwa [List.append_nil]
  | cons new rest ih =>
    have hnext := ih (h.keep new)
    rwa [List.append_assoc] at hnext

/-- What is left for a response is possible. -/
theorem possible_of_best (h : (k, e) ∈ best l) : Possible l k e := by
  have hmerge := Tally.mem_collect.mp h
  unfold Possible
  cases hfilter : l.filter (·.key = k) with
  | nil =>
    rw [hfilter] at hmerge
    cases hmerge
  | cons first rest =>
    rw [hfilter] at hmerge
    obtain rfl := Option.some.inj hmerge
    exact kept_foldl (kept_single first)

theorem mem_best_of_perm (h : l.Perm l') (he : (k, e) ∈ best l) : ∃ e', (k, e') ∈ best l' := by
  have hkeys : k ∈ (best l').map Prod.fst := (Tally.keys_perm h).mp (List.mem_map.mpr ⟨_, he, rfl⟩)
  obtain ⟨⟨k', e'⟩, he', rfl⟩ := List.mem_map.mp hkeys
  exact ⟨e', he'⟩

theorem exists_best (h : Possible l k e) : ∃ e', (k, e') ∈ best l := by
  obtain ⟨m, hm, -⟩ := h
  have hkeys : k ∈ (best l).map Prod.fst :=
    Tally.mem_keys_collect.mpr ⟨m, (List.mem_filter.mp hm).1, by simpa using (List.mem_filter.mp hm).2⟩
  obtain ⟨⟨k', e'⟩, he', rfl⟩ := List.mem_map.mp hkeys
  exact ⟨e', he'⟩

theorem Agree.eventSamples (h : Agree A site e e') :
    Backfill.eventSamples site (event A site e) = Backfill.eventSamples site (event A site e') := by
  unfold Backfill.eventSamples
  have htime : (event A site e).ts = e.ts ∧ (event A site e').ts = e'.ts := ⟨rfl, rfl⟩
  rw [htime.1, htime.2]
  obtain ⟨hlate, hlate'⟩ | halike := h
  · rw [hlate, hlate']
  · rw [halike.bucket, halike.metrics, halike.labels]

theorem Agree.alike (h : Agree A site e e') (hearly : site.bucket e.ts ≠ none) : Alike A site e e' :=
  h.resolve_left fun hlate => hearly hlate.1

/-- The responses give the same samples in any order of the logs. -/
theorem events_perm (h : Settled A site l) (hperm : l.Perm l') :
    ((scanEntries A site l).events.flatMap (eventSamples site)).Perm
      ((scanEntries A site l').events.flatMap (eventSamples site)) := by
  have hpairs := Tally.perm_map (f := fun (_ : Key) (e : Entry) =>
    eventSamples site (event A site e)) Tally.collect_nodup Tally.collect_nodup
    (fun _ => Tally.keys_perm hperm) fun k e e' he he' =>
      (h.copies k e e' (possible_of_best he) ((possible_of_best he').perm hperm.symm)).eventSamples
  have hflat := hpairs.flatMap_right Prod.snd
  rw [List.flatMap_map, List.flatMap_map] at hflat
  unfold scanEntries
  dsimp only
  rw [List.flatMap_map, List.flatMap_map]
  exact hflat

/-- The first of some events. -/
def First (events : List (Event V)) (s : Start) : Prop :=
  ∃ a ∈ events, s = start a ∧ ∀ b ∈ events, s.ts ≤ b.ts

theorem first_foldl {events rest : List (Event V)} {s : Start} (h : First events s) :
    First (events ++ rest) (rest.foldl earlier s) := by
  induction rest generalizing events s with
  | nil => rwa [List.append_nil]
  | cons b rest ih =>
    obtain ⟨a, ha, rfl, hmin⟩ := h
    have hnext : First (events ++ [b]) (earlier (start a) b) := by
      unfold earlier
      split
      next hlt =>
        refine ⟨b, List.mem_append_right _ List.mem_cons_self, rfl, fun c hc => ?_⟩
        rcases List.mem_append.mp hc with hc | hc
        · exact (le_of_lt hlt).trans (hmin c hc)
        · rw [List.mem_singleton.mp hc]
          exact le_rfl
      next hlt =>
        refine ⟨a, List.mem_append_left _ ha, rfl, fun c hc => ?_⟩
        rcases List.mem_append.mp hc with hc | hc
        · exact hmin c hc
        · rw [List.mem_singleton.mp hc]
          exact not_lt.mp hlt
    have hall := ih hnext
    rwa [List.append_assoc] at hall

/-- The start of a session is that of its first response. -/
theorem start_of_session {session : Text} {s : Start} (h : (session, s) ∈ (scanEntries A site l).sessions) :
    ∃ k e, (k, e) ∈ best l ∧ e.session = session ∧ s = ⟨e.ts, site.project e.cwd⟩ ∧
      ∀ k' e', (k', e') ∈ best l → e'.session = session → s.ts ≤ e'.ts := by
  have hmerge := Tally.mem_collect.mp h
  cases hfilter : ((best l).map fun e => event A site e.2).filter (·.session = session) with
  | nil =>
    rw [hfilter] at hmerge
    cases hmerge
  | cons first rest =>
    rw [hfilter] at hmerge
    obtain rfl := Option.some.inj hmerge
    have hone : First [first] (start first) :=
      ⟨first, List.mem_cons_self, rfl, fun b hb => by rw [List.mem_singleton.mp hb]; exact le_rfl⟩
    have hfold : First ([first] ++ rest) (rest.foldl earlier (start first)) := first_foldl hone
    obtain ⟨a, ha, hs, hmin⟩ := hfold
    have hmem {b : Event V} : b ∈ [first] ++ rest ↔ ∃ x ∈ best l, event A site x.2 = b ∧
        x.2.session = session := by
      rw [List.singleton_append, ← hfilter, List.mem_filter, List.mem_map]
      constructor
      · rintro ⟨⟨x, hx, rfl⟩, hsession⟩
        exact ⟨x, hx, rfl, of_decide_eq_true hsession⟩
      · rintro ⟨x, hx, rfl, hsession⟩
        exact ⟨⟨x, hx, rfl⟩, decide_eq_true hsession⟩
    obtain ⟨⟨k, e⟩, he, rfl, hsession⟩ := hmem.mp ha
    exact ⟨k, e, he, hsession, hs, fun k' e' he' hsession' =>
      hmin _ (hmem.mpr ⟨(k', e'), he', rfl, hsession'⟩)⟩

/-- A time no later than one before the limit is before it too. -/
theorem bucket_mono {t u : ℚ} {b : Int} (hle : t ≤ u) (h : site.bucket u = some b) :
    ∃ a ≤ b, site.bucket t = some a := by
  unfold Site.bucket at h ⊢
  split at h
  next => cases h
  next hlimit =>
    have hearly : ¬ site.limit.any (· ≤ t) = true := by
      intro hlate
      refine hlimit ?_
      cases hsite : site.limit with
      | none =>
        rw [hsite] at hlate
        cases hlate
      | some limit =>
        rw [hsite] at hlate
        exact decide_eq_true ((of_decide_eq_true hlate : limit ≤ t).trans hle)
    rw [if_neg hearly]
    refine ⟨⌊t / 300⌋, ?_, rfl⟩
    rw [← Option.some.inj h]
    exact Int.floor_le_floor (by linarith)

/-- Two times between which every bucket lies are in one. -/
theorem bucket_eq {t u t' u' : ℚ} (h : site.bucket t = site.bucket u') (h' : site.bucket u = site.bucket t')
    (hle : t ≤ t') (hle' : u ≤ u') : site.bucket t = site.bucket u := by
  cases ht : site.bucket t with
  | none =>
    cases hu : site.bucket u with
    | none => rfl
    | some b =>
      obtain ⟨a, -, ha⟩ := bucket_mono hle (h'.symm.trans hu)
      rw [ht] at ha
      cases ha
  | some a =>
    obtain ⟨b, hb, hu⟩ := bucket_mono hle' (h.symm.trans ht)
    obtain ⟨c, hc, htc⟩ := bucket_mono hle (h'.symm.trans hu)
    obtain rfl := Option.some.inj (ht.symm.trans htc)
    rw [hu, le_antisymm hc hb]

/-- A session with a response before the limit starts before it. -/
theorem start_early {session : Text} {s : Start} (hs : (session, s) ∈ (scanEntries A site l).sessions)
    (he : (k, e) ∈ best l) (hsession : e.session = session) (hearly : site.bucket e.ts ≠ none) :
    site.bucket s.ts ≠ none := by
  obtain ⟨-, -, -, -, -, hmin⟩ := start_of_session hs
  obtain ⟨b, hb⟩ := Option.ne_none_iff_exists'.mp hearly
  obtain ⟨a, -, ha⟩ := bucket_mono (hmin k e he hsession) hb
  rw [ha]
  exact Option.some_ne_none a

/-- A session starts in the same bucket and project in any order of the logs. -/
theorem starts_alike (h : Settled A site l) (hperm : l.Perm l') {session : Text} {s s' : Start}
    (hs : (session, s) ∈ (scanEntries A site l).sessions)
    (hs' : (session, s') ∈ (scanEntries A site l').sessions)
    (hearly : site.bucket s.ts ≠ none) (hearly' : site.bucket s'.ts ≠ none) :
    startSamples A site session s = startSamples A site session s' := by
  obtain ⟨k, e, he, hsession, rfl, hmin⟩ := start_of_session hs
  obtain ⟨k', e', he', hsession', rfl, hmin'⟩ := start_of_session hs'
  have hpossible {k : Key} {x : Entry} (hx : (k, x) ∈ best l') : Possible l k x :=
    (possible_of_best hx).perm hperm.symm
  obtain ⟨x', hx'⟩ := mem_best_of_perm hperm he
  obtain ⟨x, hx⟩ := mem_best_of_perm hperm.symm he'
  have halike : Alike A site e x' := (h.copies k e x' (possible_of_best he) (hpossible hx')).alike hearly
  have halike' : Alike A site e' x := (h.copies k' e' x (hpossible he') (possible_of_best hx)).alike hearly'
  have hle : e.ts ≤ x.ts := hmin k' x hx (halike'.session ▸ hsession')
  have hle' : e'.ts ≤ x'.ts := hmin' k x' hx' (halike.session ▸ hsession)
  have hbucket : site.bucket e.ts = site.bucket e'.ts := bucket_eq halike.bucket halike'.bucket hle hle'
  obtain ⟨project, hproject⟩ := h.starts k e (possible_of_best he) hearly
  -- a copy that comes before one that is counted is counted too
  have hsame_session {k₁ : Key} {y e₁ z : Entry} (hy : Possible l k₁ y)
      (he₁ : Possible l k₁ e₁) (hlt : y.ts < z.ts)
      (hz : site.bucket z.ts ≠ none) : y.session = e₁.session := by
    obtain ⟨b, hb⟩ := Option.ne_none_iff_exists'.mp hz
    obtain ⟨a, -, ha⟩ := bucket_mono hlt.le hb
    exact ((h.copies k₁ y e₁ hy he₁).alike (by rw [ha]; exact Option.some_ne_none a)).session
  have hsame : site.project e.cwd = project := by
    by_contra hne
    obtain ⟨k₁, e₁, he₁, hs₁, -, hbefore⟩ := hproject k e (possible_of_best he) hearly rfl hne
    obtain ⟨y, hy⟩ := exists_best he₁
    have hlt := hbefore y (possible_of_best hy)
    have hfirst := hmin k₁ y hy ((hsame_session (possible_of_best hy) he₁ hlt hearly).trans
      (hs₁.trans hsession))
    exact absurd hlt (not_lt.mpr hfirst)
  have hsame' : site.project e'.cwd = project := by
    by_contra hne
    obtain ⟨k₁, e₁, he₁, hs₁, -, hbefore⟩ :=
      hproject k' e' (hpossible he') hearly' (hsession'.trans hsession.symm) hne
    obtain ⟨y, hy⟩ := exists_best (he₁.perm hperm)
    have hlt := hbefore y (hpossible hy)
    have hfirst := hmin' k₁ y hy ((hsame_session (hpossible hy) he₁ hlt hearly').trans (hs₁.trans hsession))
    exact absurd hlt (not_lt.mpr hfirst)
  unfold startSamples
  dsimp only
  rw [← hbucket, hsame, hsame']

/-- The sessions that start before the limit. -/
def counted (site : Site V) (sessions : List (Text × Start)) : List (Text × Start) :=
  sessions.filter fun s => (site.bucket s.2.ts).isSome

theorem flatMap_counted (sessions : List (Text × Start)) :
    (sessions.flatMap fun s => startSamples A site s.1 s.2) = (counted site sessions).flatMap fun s =>
      startSamples A site s.1 s.2 := by
  induction sessions with
  | nil => rfl
  | cons s rest ih =>
    rw [List.flatMap_cons, counted, List.filter_cons, ih]
    cases hbucket : site.bucket s.2.ts with
    | none =>
      rw [startSamples, hbucket]
      rfl
    | some b => rfl

theorem mem_counted {site : Site V} {sessions : List (Text × Start)} {s : Text × Start} :
    s ∈ counted site sessions ↔ s ∈ sessions ∧ site.bucket s.2.ts ≠ none := by
  rw [counted, List.mem_filter, Option.isSome_iff_ne_none]

theorem counted_mem {session : Text} (hperm : l.Perm l')
    (hagree : ∀ k e e', (k, e) ∈ best l → (k, e') ∈ best l' → Agree A site e e')
    (hs : session ∈ (counted site (scanEntries A site l).sessions).map Prod.fst) :
    session ∈ (counted site (scanEntries A site l').sessions).map Prod.fst := by
  obtain ⟨⟨session, s⟩, hmem, rfl⟩ := List.mem_map.mp hs
  obtain ⟨hmem, hearly⟩ := mem_counted.mp hmem
  obtain ⟨k, e, he, hsession, rfl, -⟩ := start_of_session hmem
  obtain ⟨e', he'⟩ := mem_best_of_perm hperm he
  have halike := (hagree k e e' he he').alike hearly
  have hsession' : e'.session = session := halike.session.symm.trans hsession
  have hkeys : session ∈ (scanEntries A site l').sessions.map Prod.fst :=
    Tally.mem_keys_collect.mpr ⟨event A site e', List.mem_map.mpr ⟨_, he', rfl⟩, hsession'⟩
  obtain ⟨⟨session, s'⟩, hs', rfl⟩ := List.mem_map.mp hkeys
  exact List.mem_map.mpr ⟨_,
    mem_counted.mpr ⟨hs', start_early hs' he' hsession' (halike.bucket ▸ hearly)⟩, rfl⟩

theorem counted_nodup (site : Site V) (l : List Entry) :
    ((counted site (scanEntries A site l).sessions).map Prod.fst).Nodup :=
  (List.filter_sublist.map Prod.fst).nodup Tally.collect_nodup

theorem starts_perm (h : Settled A site l) (hperm : l.Perm l') :
    ((scanEntries A site l).sessions.flatMap fun s => startSamples A site s.1 s.2).Perm
      ((scanEntries A site l').sessions.flatMap fun s => startSamples A site s.1 s.2) := by
  have hkeys (session : Text) : session ∈ (counted site (scanEntries A site l).sessions).map Prod.fst ↔
      session ∈ (counted site (scanEntries A site l').sessions).map Prod.fst :=
    ⟨counted_mem hperm fun k e e' he he' => h.copies k e e' (possible_of_best he)
      ((possible_of_best he').perm hperm.symm),
      counted_mem hperm.symm fun k e e' he he' =>
        h.copies k e e' ((possible_of_best he).perm hperm.symm) (possible_of_best he')⟩
  have hpairs := Tally.perm_map (f := startSamples A site) (counted_nodup site l)
    (counted_nodup site l') hkeys
    fun session s s' hs hs' => starts_alike h hperm (mem_counted.mp hs).1 (mem_counted.mp hs').1
      (mem_counted.mp hs).2 (mem_counted.mp hs').2
  have hflat := hpairs.flatMap_right Prod.snd
  rw [List.flatMap_map, List.flatMap_map] at hflat
  rw [flatMap_counted (scanEntries A site l).sessions, flatMap_counted (scanEntries A site l').sessions]
  exact hflat

theorem samples_perm (h : Settled A site l) (hperm : l.Perm l') :
    (samples A site (scanEntries A site l)).Perm (samples A site (scanEntries A site l')) :=
  (events_perm h hperm).append (starts_perm h hperm)

/-! ## Sums -/

variable {xs xs' : List (Sample V)} {s : Series} {values values' : List (Int × V)}

/-- The values of a series, bucket by bucket. -/
def valuesOfSeries (A : Arithmetic V) (xs : List (Sample V)) : List (Int × V) :=
  Tally.collect (fun s => A.add A.zero s.value) (fun total s => A.add total s.value) Sample.bucket xs

theorem mem_buckets (h : (s, values) ∈ buckets A xs) :
    values = valuesOfSeries A (xs.filter (·.series = s)) := by
  have hmerge := Tally.mem_collect.mp h
  cases hfilter : xs.filter (·.series = s) with
  | nil =>
    rw [hfilter] at hmerge
    cases hmerge
  | cons x rest =>
    rw [hfilter] at hmerge
    exact (Option.some.inj hmerge).symm

/-- A bucket holds the sum of its values. -/
theorem mem_valuesOfSeries {b : Int} {v : V} (h : (b, v) ∈ valuesOfSeries A (xs.filter (·.series = s))) :
    v = (valuesAt xs s b).foldl A.add A.zero := by
  have hmerge := Tally.mem_collect.mp h
  have hfilter : (xs.filter (·.series = s)).filter (·.bucket = b) = xs.filter fun x => x.series = s ∧
      x.bucket = b := by
    rw [List.filter_filter]
    refine List.filter_congr fun x _ => ?_
    by_cases hx : x.series = s
    · simp [hx]
    · simp [hx]
  rw [hfilter] at hmerge
  unfold valuesAt
  cases hall : xs.filter fun x => x.series = s ∧ x.bucket = b with
  | nil =>
    rw [hall] at hmerge
    cases hmerge
  | cons x rest =>
    rw [hall] at hmerge
    rw [List.map_cons, List.foldl_cons, List.foldl_map]
    exact (Option.some.inj hmerge).symm

/-- Sorted values are the same for the same values. -/
theorem sort_eq (hnodup : (values.map Prod.fst).Nodup) (hperm : values.Perm values') :
    (values.insertionSort fun a b => a.1 ≤ b.1) = values'.insertionSort fun a b => a.1 ≤ b.1 := by
  have htotal : Std.Total fun a b : Int × V => a.1 ≤ b.1 := ⟨fun a b => le_total a.1 b.1⟩
  have htrans : IsTrans (Int × V) fun a b => a.1 ≤ b.1 := ⟨fun a b c => le_trans⟩
  refine List.Perm.eq_of_pairwise (fun a b ha hb hab hba => ?_) (List.pairwise_insertionSort _ values)
    (List.pairwise_insertionSort _ values') ?_
  · have ha' : a ∈ values := (List.perm_insertionSort _ _).mem_iff.mp ha
    have hb' : b ∈ values := hperm.mem_iff.mpr ((List.perm_insertionSort _ _).mem_iff.mp hb)
    exact List.inj_on_of_nodup_map hnodup ha' hb' (le_antisymm hab hba)
  · exact (List.perm_insertionSort _ values).trans (hperm.trans (List.perm_insertionSort _ values').symm)

/-- The same samples in any order make the same series, where sums do not depend on the order. -/
theorem series_perm (hperm : xs.Perm xs')
    (hsums : ∀ s bucket (vs : List V), vs.Perm (valuesAt xs s bucket) →
      vs.foldl A.add A.zero = (valuesAt xs s bucket).foldl A.add A.zero) :
    ((buckets A xs).map fun s => (s.1, points A site s.1 s.2)).Perm
      ((buckets A xs').map fun s => (s.1, points A site s.1 s.2)) := by
  refine Tally.perm_map Tally.collect_nodup Tally.collect_nodup
    (fun _ => Tally.keys_perm hperm) fun s values values' hv hv' => ?_
  obtain rfl := mem_buckets hv
  obtain rfl := mem_buckets hv'
  have hsame : (valuesOfSeries A (xs.filter (·.series = s))).Perm
      (valuesOfSeries A (xs'.filter (·.series = s))) := by
    have hvalues (b : Int) (v v' : V) (hb : (b, v) ∈ valuesOfSeries A (xs.filter (·.series = s)))
        (hb' : (b, v') ∈ valuesOfSeries A (xs'.filter (·.series = s))) : v = v' := by
      rw [mem_valuesOfSeries hb, mem_valuesOfSeries hb']
      exact (hsums s b _ ((hperm.symm.filter _).map _)).symm
    have hpairs := Tally.perm_map (f := fun _ v => v) Tally.collect_nodup Tally.collect_nodup
      (fun _ => Tally.keys_perm (hperm.filter _)) hvalues
    simpa [valuesOfSeries] using hpairs
  have hnodup : ((valuesOfSeries A (xs.filter (·.series = s))).map Prod.fst).Nodup := Tally.collect_nodup
  unfold points
  rw [sort_eq hnodup hsame]

/-- Files with the same records, in any order and split, give the same series. -/
theorem backfill_same {files files' : List (List Record)}
    (h : Settled A site (files.flatten.filterMap (entry site.parseTime)))
    (hfiles : files.flatten.Perm files'.flatten) :
    (backfill A site files).Perm (backfill A site files') :=
  series_perm (samples_perm h (hfiles.filterMap _)) h.sums

/-- Where no series has two samples there is nothing to add up. -/
theorem perm_valuesAt (hnodup : (xs.map Sample.series).Nodup) (bucket : Int) {vs : List V}
    (hperm : vs.Perm (valuesAt xs s bucket)) : vs = valuesAt xs s bucket := by
  have hone : (valuesAt xs s bucket).length ≤ 1 := by
    have hsub : (xs.filter fun x => x.series = s ∧ x.bucket = bucket).Sublist xs := List.filter_sublist
    have hall : (xs.filter fun x => x.series = s ∧ x.bucket = bucket).map Sample.series =
        List.replicate (valuesAt xs s bucket).length s := by
      refine List.eq_replicate_iff.mpr ⟨by simp [valuesAt], fun t ht => ?_⟩
      obtain ⟨x, hx, rfl⟩ := List.mem_map.mp ht
      exact (of_decide_eq_true (List.mem_filter.mp hx).2).1
    have hfew := (hsub.map Sample.series).nodup hnodup
    rw [hall] at hfew
    exact List.nodup_replicate.mp hfew
  cases hvalues : valuesAt xs s bucket with
  | nil =>
    rw [hvalues] at hperm
    exact hperm.eq_nil
  | cons v rest =>
    rw [hvalues] at hperm hone
    obtain rfl : rest = [] := List.length_eq_zero_iff.mp (by simpa using hone)
    exact hperm.eq_singleton

/-- One response, whose copies agree. -/
theorem settled_one {only : Entry} (halike : ∀ k e, Possible l k e → Alike A site only e)
    (hnodup : ((samples A site (scanEntries A site l)).map Sample.series).Nodup) : Settled A site l := by
  refine ⟨fun k e e' he he' => .inr ?_, fun k e he _ => ⟨site.project only.cwd, fun k' e' he' _ _ hne => ?_⟩,
    fun s bucket vs hvs => ?_⟩
  · have h := halike k e he
    have h' := halike k e' he'
    exact ⟨h.project.symm.trans h'.project, h.labels.symm.trans h'.labels, h.metrics.symm.trans h'.metrics,
      h.session.symm.trans h'.session, h.bucket.symm.trans h'.bucket⟩
  · exact absurd (halike k' e' he').project.symm hne
  · rw [perm_valuesAt hnodup bucket hvs]

end

/-! ## A response that a resume has copied -/

/-- Whole numbers, which a float holds as they are. -/
def counting : Arithmetic Nat := ⟨0, id, (· + ·), (· * ·), List.sum, (· == 0)⟩

def server : Site Nat where
  parseTime t :=
    if t = some "2026-01-02T03:04:05Z" then some 1767323045
    else if t = some "2026-01-02T03:04:00Z" then some 1767323040
    else none
  host := "server"
  resolve _ := "app"
  pricing := none
  limit := none

def logged (session : Text) : Record where
  type := some "assistant"
  message := some ⟨some "msg_1", some "claude-opus",
    some ⟨some (.int 3), some (.int 5), none, none, none, none⟩⟩
  timestamp := some "2026-01-02T03:04:05Z"
  requestId := some "req_1"
  uuid := some "0"
  cwd := some "/srv/app"
  sessionId := some session

/-- The response while it was streamed. -/
def streamed : Record :=
  { logged "first" with
    message := some ⟨some "msg_1", some "claude-opus",
      some ⟨some (.int 3), some (.int 2), none, none, none, none⟩⟩
    timestamp := some "2026-01-02T03:04:00Z" }

def loggedEntry : Entry :=
  ⟨1767323045, (some "msg_1", some "req_1"), some "/srv/app", "first", "claude-opus", ⟨3, 5, 0, 0⟩, 0, none⟩

def streamedEntry : Entry :=
  ⟨1767323040, (some "msg_1", some "req_1"), some "/srv/app", "first", "claude-opus", ⟨3, 2, 0, 0⟩, 0, none⟩

theorem possible_streamed {k : Key} {e : Entry} (h : Possible [loggedEntry, streamedEntry] k e) :
    e = loggedEntry ∨ e = { loggedEntry with ts := 1767323040 } := by
  obtain ⟨m, hm, hmax, c, hc, -, rfl⟩ := h
  obtain ⟨hm, hk⟩ := List.mem_filter.mp hm
  have hfinal : loggedEntry ∈ [loggedEntry, streamedEntry].filter (·.key = k) := by
    refine List.mem_filter.mpr ⟨List.mem_cons_self, decide_eq_true ?_⟩
    rw [← of_decide_eq_true hk]
    rcases List.mem_pair.mp hm with rfl | rfl <;> rfl
  have hlogged : m = loggedEntry := by
    rcases List.mem_pair.mp hm with rfl | rfl
    · rfl
    · exact absurd (hmax loggedEntry hfinal) (by decide)
  subst hlogged
  rcases List.mem_pair.mp (List.mem_filter.mp hc).1 with rfl | rfl
  · left
    rw [min_self]
  · right
    rw [min_eq_right (by norm_num [loggedEntry, streamedEntry])]
    rfl

/-- A streamed copy in another file, read first or last: the final one counts, in the same bucket. -/
theorem backfill_same_streamed :
    (backfill counting server [[logged "first"], [streamed]]).Perm
    (backfill counting server [[streamed], [logged "first"]]) := by
  have hentries : [[logged "first"], [streamed]].flatten.filterMap (entry server.parseTime) =
      [loggedEntry, streamedEntry] := rfl
  refine backfill_same ?_ (List.Perm.swap _ _ _)
  rw [hentries]
  have halike (k : Key) (e : Entry) (he : Possible [loggedEntry, streamedEntry] k e) :
      Alike counting server loggedEntry e := by
    rcases possible_streamed he with rfl | rfl
    · exact ⟨rfl, rfl, rfl, rfl, rfl⟩
    · exact ⟨rfl, rfl, rfl, rfl, by decide +kernel⟩
  exact settled_one halike (by decide +kernel)

/-- The response moves to the series of the session whose log is read first. -/
theorem backfill_moves : ¬ (backfill counting server [[logged "first"], [logged "second"]]).Perm
    (backfill counting server [[logged "second"], [logged "first"]]) := by
  decide +kernel

end HomeStack.Backfill

import HomeStack.Lib.F64
import HomeStack.Lib.Grouping

/-! The last space of machines that are not running (`service_status.rs`): the series that
Prometheus answers with are put together by VMID, and each quantity of a mount is the first one there. -/

namespace HomeStack.ServiceSpace

abbrev Labels := Std.ExtTreeMap Text Text

structure Series where
  metric : Labels
  value : Text

/-- A machine's series: its metric name, labels and value. -/
structure Sample where
  name : Text
  labels : Labels
  value : F64
  deriving DecidableEq

abbrev Samples := List Sample

structure HomeUsage where
  sizeBytes : Option Nat
  usedBytes : Option Nat
  freeBytes : Option Nat
  freePercent : Option F64

def totalBytes : Text := "hs_pve_filesystem_total_bytes"
def usedBytes : Text := "hs_pve_filesystem_used_bytes"
def availableBytes : Text := "hs_pve_filesystem_available_bytes"
def readSuccess : Text := "hs_pve_filesystem_read_success_ratio"

/-- The series whose value `Samples::get` returns. -/
def find (samples : Samples) (name : Text) (labels : List (Text × Text)) : Option Sample :=
  samples.find? fun sample =>
    sample.name = name && sample.value.isFinite && labels.all fun label =>
      sample.labels[label.1]? = some label.2

def get (samples : Samples) (name : Text) (labels : List (Text × Text)) : Option F64 :=
  (find samples name labels).map Sample.value

def count : F64 → Option Nat
  | .finite q => if 0 ≤ q then some (F64.toU64 q) else none
  | _ => none

/-- `Samples::count` -/
def getCount (samples : Samples) (name : Text) (labels : List (Text × Text)) : Option Nat :=
  (get samples name labels).bind count

/-- `available as f64 * 100.0 / total as f64` -/
def freePercent (available total : Nat) : F64 :=
  F64.ofRat (Double.round (Double.round available * 100) / Double.round total)

/-- A mount's space, when the agent read it. -/
def space (samples : Samples) (mount : Text) : Option HomeUsage :=
  let at_ : List (Text × Text) := [("mount", mount)]
  if get samples readSuccess at_ ≠ some (.finite 1) then none
  else do
    let total ← getCount samples totalBytes at_
    let available ← getCount samples availableBytes at_
    some {
      sizeBytes := some total
      usedBytes := getCount samples usedBytes at_
      freeBytes := some available
      freePercent := if 0 < total then some (freePercent available total) else none }

/-- The machine of a series and its sample. -/
def readable (series : Series) : Option (Nat × Sample) := do
  let vmid ← (series.metric["vmid".toList]?).bind (Text.parseNat (2 ^ 32))
  let name ← series.metric["__name__".toList]?
  let value ← F64.parse series.value
  some (vmid, ⟨name, series.metric, value⟩)

def query (vmids : List Nat) : Text :=
  "last_over_time(\x7b__name__=~\"hs_pve_filesystem_(total|used|available)_bytes|hs_pve_filesystem_read_success_ratio\",vmid=~\"" ++
    List.intercalate "|" (vmids.map Text.ofNat) ++ "\",mount!~\"/boot(/.*)?|/snap/.*\"\x7d[30d])"

/-- The mounts of a machine, each once and in order. -/
def mounts (samples : Samples) : List Text :=
  (samples.filterMap fun sample => sample.labels["mount".toList]?).dedup.insertionSort (· ≤ ·)

def spaces (samples : Samples) : List (Text × HomeUsage) :=
  (mounts samples).filterMap fun mount => (space samples mount).map (Prod.mk mount)

/-- What is made of an answer: the mounts of each machine, by VMID. -/
def machines (result : List Series) : List (Nat × List (Text × HomeUsage)) :=
  ((Grouping.units Prod.fst (result.filterMap readable)).insertionSort fun a b => a.1 ≤ b.1).map fun group =>
    (group.1, spaces (group.2.map Prod.snd))

/-- `last_space`, with what Prometheus answers to a query. -/
def lastSpace (run : Text → Option (List Series)) (vmids : List Nat) : List (Nat × List (Text × HomeUsage)) :=
  if vmids = [] then []
  else
    match run (query vmids) with
    | none => []
    | some result => machines result

/-! ## The samples of a machine -/

/-- The samples of one machine, in the order of the answer. -/
def samplesOf (result : List Series) (vmid : Nat) : Samples :=
  result.filterMap fun series => (readable series).bind fun r => if r.1 = vmid then some r.2 else none

theorem read_iff {series : Series} {vmid : Nat} {sample : Sample} :
    ((readable series).bind fun r => if r.1 = vmid then some r.2 else none) = some sample ↔
      readable series = some (vmid, sample) := by
  rw [Option.bind_eq_some_iff]
  constructor
  · rintro ⟨⟨v, s⟩, h, heq⟩
    dsimp only at heq
    split at heq
    · rename_i hv
      cases heq
      rw [h, hv]
    · cases heq
  · intro h
    exact ⟨(vmid, sample), h, if_pos rfl⟩

theorem mem_samplesOf {result : List Series} {vmid : Nat} {sample : Sample} :
    sample ∈ samplesOf result vmid ↔ ∃ series ∈ result, readable series = some (vmid, sample) := by
  unfold samplesOf
  rw [List.mem_filterMap]
  exact exists_congr fun series => and_congr_right fun _ => read_iff

theorem group_samples {result : List Series} {vmid : Nat} {group : List (Nat × Sample)}
    (h : (vmid, group) ∈ Grouping.units Prod.fst (result.filterMap readable)) : group.map Prod.snd =
      samplesOf result vmid := by
  have hgroup := Grouping.filter_of_mem_units Prod.fst h
  rw [hgroup, samplesOf, List.filter_filterMap, List.map_filterMap]
  congr 1
  funext series
  cases readable series with
  | none => rfl
  | some r =>
    by_cases hr : r.1 = vmid <;> simp [Option.filter, hr]

theorem find_mount {samples : Samples} {name mount : Text} {sample : Sample}
    (h : find samples name [("mount", mount)] = some sample) :
    sample ∈ samples ∧ sample.name = name ∧ sample.value.isFinite = true ∧
      sample.labels["mount".toList]? = some mount := by
  have hmem := List.mem_of_find?_eq_some h
  have hp := List.find?_some h
  simp only [List.all_cons, List.all_nil, Bool.and_true, Bool.and_eq_true, decide_eq_true_eq] at hp
  exact ⟨hmem, hp.1.1, hp.1.2, hp.2⟩

/-- The space of a mount with where each quantity is from. -/
structure From (samples : Samples) (mount : Text) (usage : HomeUsage) (success total available : Sample) :
    Prop where
  success : find samples readSuccess [("mount", mount)] = some success ∧ success.value = .finite 1
  total : find samples totalBytes [("mount", mount)] = some total ∧
    usage.sizeBytes = count total.value ∧ usage.sizeBytes.isSome
  available : find samples availableBytes [("mount", mount)] = some available ∧
    usage.freeBytes = count available.value ∧
    usage.freeBytes.isSome
  used : usage.usedBytes = (find samples usedBytes [("mount", mount)]).bind fun used => count used.value

theorem space_from {samples : Samples} {mount : Text} {usage : HomeUsage}
    (h : space samples mount = some usage) :
    ∃ success total available, From samples mount usage success total available := by
  unfold space at h
  dsimp only at h
  split at h
  · cases h
  · rename_i hsuccess
    simp only [Option.bind_eq_bind, Option.bind_eq_some_iff, Option.some.injEq] at h
    obtain ⟨size, hsize, free, hfree, rfl⟩ := h
    obtain ⟨success, hfound, hone⟩ := Option.map_eq_some_iff.mp (not_not.mp hsuccess)
    obtain ⟨value, hvalue, hcount⟩ := Option.bind_eq_some_iff.mp hsize
    obtain ⟨total, htotal, rfl⟩ := Option.map_eq_some_iff.mp hvalue
    obtain ⟨value, hvalue, hcount'⟩ := Option.bind_eq_some_iff.mp hfree
    obtain ⟨available, havailable, rfl⟩ := Option.map_eq_some_iff.mp hvalue
    refine ⟨success, total, available, ⟨hfound, hone⟩, ⟨htotal, hcount.symm, rfl⟩,
      ⟨havailable, hcount'.symm, rfl⟩, ?_⟩
    simp [getCount, get, Option.bind_map]

theorem space_of {samples : Samples} {mount : Text} {success total available : Sample} {size free : Nat}
    (hsuccess : find samples readSuccess [("mount", mount)] = some success) (hone : success.value = .finite 1)
    (htotal : find samples totalBytes [("mount", mount)] = some total) (hsize : count total.value = some size)
    (havailable : find samples availableBytes [("mount", mount)] = some available)
    (hfree : count available.value = some free) :
    ∃ usage, space samples mount = some usage := by
  unfold space
  have hget : get samples readSuccess [("mount", mount)] = some (.finite 1) := by
    rw [get, hsuccess, Option.map_some, hone]
  have hgetTotal : getCount samples totalBytes [("mount", mount)] = some size := by
    rw [getCount, get, htotal, Option.map_some, Option.bind_some, hsize]
  have hgetFree : getCount samples availableBytes [("mount", mount)] = some free := by
    rw [getCount, get, havailable, Option.map_some, Option.bind_some, hfree]
  dsimp only
  rw [hget, if_neg (not_not.mpr rfl), hgetTotal, hgetFree]
  exact ⟨_, rfl⟩

theorem mem_spaces {samples : Samples} {mount : Text} {usage : HomeUsage} :
    (mount, usage) ∈ spaces samples ↔ space samples mount = some usage := by
  unfold spaces
  rw [List.mem_filterMap]
  constructor
  · rintro ⟨m, -, h⟩
    obtain ⟨u, hu, heq⟩ := Option.map_eq_some_iff.mp h
    cases heq
    exact hu
  · intro h
    refine ⟨mount, ?_, by rw [h]; rfl⟩
    obtain ⟨success, total, available, hfrom⟩ := space_from h
    obtain ⟨hmem, -, -, hmount⟩ := find_mount hfrom.total.1
    rw [mounts, List.mem_insertionSort, List.mem_dedup, List.mem_filterMap]
    exact ⟨total, hmem, hmount⟩

/-- What is reported of a machine is the space of its mounts. -/
theorem reported_iff {result : List Series} {vmid : Nat} {mount : Text} {usage : HomeUsage} :
    (∃ found, (vmid, found) ∈ machines result ∧ (mount, usage) ∈ found) ↔
      space (samplesOf result vmid) mount = some usage := by
  unfold machines
  constructor
  · rintro ⟨found, hfound, hmem⟩
    obtain ⟨⟨v, group⟩, hgroup, heq⟩ := List.mem_map.mp hfound
    cases heq
    rw [List.mem_insertionSort] at hgroup
    dsimp only at hmem
    rw [group_samples hgroup] at hmem
    exact mem_spaces.1 hmem
  · intro h
    obtain ⟨success, total, available, hfrom⟩ := space_from h
    obtain ⟨hmem, -, -, -⟩ := find_mount hfrom.total.1
    obtain ⟨series, hseries, hread⟩ := mem_samplesOf.1 hmem
    obtain ⟨group, hgroup⟩ :=
      Grouping.exists_mem_units Prod.fst (List.mem_filterMap.mpr ⟨series, hseries, hread⟩)
    refine ⟨_, List.mem_map.mpr ⟨(vmid, group), (List.mem_insertionSort _).mpr hgroup, rfl⟩, ?_⟩
    dsimp only
    rw [group_samples hgroup]
    exact mem_spaces.2 h

/-! ## One measurement -/

/-- Every label but the name of the metric. -/
def Sample.identity (sample : Sample) : Labels := sample.labels.erase "__name__"

/-- The size, the used and the free bytes are from series with the same labels, of which a read succeeded. -/
def OneMeasurement (samples : Samples) (mount : Text) (usage : HomeUsage) : Prop :=
  ∃ total available, find samples totalBytes [("mount", mount)] = some total ∧
    usage.sizeBytes = count total.value ∧
    find samples availableBytes [("mount", mount)] = some available ∧
      usage.freeBytes = count available.value ∧
    available.identity = total.identity ∧
    (∀ n, usage.usedBytes = some n → ∃ used, find samples usedBytes [("mount", mount)] = some used ∧
      count used.value = some n ∧
      used.identity = total.identity) ∧
    ∃ success ∈ samples, success.name = readSuccess ∧ success.value = .finite 1 ∧
      success.identity = total.identity

/-- The series is a finite value of the metric at the mount of the machine. -/
def Gives (vmid : Nat) (name mount : Text) (series : Series) (sample : Sample) : Prop :=
  readable series = some (vmid, sample) ∧ sample.name = name ∧ sample.value.isFinite = true ∧
    sample.labels["mount".toList]? = some mount

/-- The first such series of the answer. -/
def Leads (result : List Series) (vmid : Nat) (name mount : Text) (sample : Sample) : Prop :=
  ∃ before series after, result = before ++ series :: after ∧ Gives vmid name mount series sample ∧
    ∀ other ∈ before, ∀ s, ¬ Gives vmid name mount other s

/-- Of each mount that was read, the quantities that come first have the same labels, and a read of
these succeeded. -/
def Together (result : List Series) : Prop :=
  ∀ vmid mount success total available, Leads result vmid readSuccess mount success →
    success.value = .finite 1 →
    Leads result vmid totalBytes mount total → (count total.value).isSome →
    Leads result vmid availableBytes mount available → (count available.value).isSome →
    available.identity = total.identity ∧
      (∀ used, Leads result vmid usedBytes mount used → (count used.value).isSome →
        used.identity = total.identity) ∧
      ∃ series ∈ result, ∃ good, readable series = some (vmid, good) ∧ good.name = readSuccess ∧
        good.value = .finite 1 ∧
        good.identity = total.identity

theorem gives_iff {vmid : Nat} {name mount : Text} {series : Series} {sample : Sample} :
    Gives vmid name mount series sample ↔
      ((readable series).bind fun r => if r.1 = vmid then some r.2 else none) = some sample ∧
        (sample.name = name && sample.value.isFinite &&
          [("mount".toList, mount)].all fun label => sample.labels[label.1]? = some label.2) = true := by
  simp only [List.all_cons, List.all_nil, Bool.and_true, Bool.and_eq_true, decide_eq_true_eq, and_assoc]
  refine and_congr_left fun _ => ?_
  exact read_iff.symm

/-- A quantity is found in the first series of the answer that gives it. -/
theorem find_iff_leads {result : List Series} {vmid : Nat} {name mount : Text} {sample : Sample} :
    find (samplesOf result vmid) name [("mount", mount)] = some sample ↔
      Leads result vmid name mount sample := by
  unfold find samplesOf
  rw [List.find?_filterMap, Option.bind_eq_some_iff]
  constructor
  · rintro ⟨series, hseries, hread⟩
    obtain ⟨hp, before, after, heq, hbefore⟩ := List.find?_eq_some_iff_append.mp hseries
    rw [hread, Option.any_some] at hp
    refine ⟨before, series, after, heq, gives_iff.2 ⟨hread, hp⟩, fun other hother s hs => ?_⟩
    obtain ⟨hsome, hgood⟩ := gives_iff.1 hs
    have hnot := hbefore other hother
    rw [hsome, Option.any_some, hgood] at hnot
    cases hnot
  · rintro ⟨before, series, after, heq, hgives, hbefore⟩
    obtain ⟨hread, hp⟩ := gives_iff.1 hgives
    refine ⟨series, List.find?_eq_some_iff_append.mpr ⟨by rw [hread, Option.any_some, hp],
      before, after, heq, ?_⟩, hread⟩
    intro other hother
    rw [Bool.not_eq_true']
    by_contra hany
    obtain ⟨s, hs, hgood⟩ := (Option.any_eq_true _ _).mp (Bool.not_eq_false _ ▸ hany)
    exact hbefore other hother s (gives_iff.2 ⟨hs, hgood⟩)

/-- The quantities of every reported mount are of one measurement when those that come first are. -/
theorem machines_iff {result : List Series} :
    (∀ vmid found mount usage, (vmid, found) ∈ machines result → (mount, usage) ∈ found →
      OneMeasurement (samplesOf result vmid) mount usage) ↔ Together result := by
  constructor
  · intro h vmid mount success total available hsuccess hone htotal hsize havailable hfree
    obtain ⟨size, hsize⟩ := Option.isSome_iff_exists.mp hsize
    obtain ⟨free, hfree⟩ := Option.isSome_iff_exists.mp hfree
    rw [← find_iff_leads] at hsuccess htotal havailable
    obtain ⟨usage, husage⟩ := space_of hsuccess hone htotal hsize havailable hfree
    obtain ⟨found, hfound, hmem⟩ := reported_iff.2 husage
    obtain ⟨total', available', htotal', -, havailable', -, hsame, hused, good, hgood,
      hname, hvalue, hidentity⟩ :=
      h vmid found mount usage hfound hmem
    obtain rfl : total = total' := Option.some.inj (htotal.symm.trans htotal')
    obtain rfl : available = available' := Option.some.inj (havailable.symm.trans havailable')
    refine ⟨hsame, fun used hleads hcount => ?_, ?_⟩
    · obtain ⟨n, hn⟩ := Option.isSome_iff_exists.mp hcount
      obtain ⟨success', total', available', hfrom⟩ := space_from husage
      have hreported : usage.usedBytes = some n := by
        rw [hfrom.used, find_iff_leads.2 hleads]
        exact hn
      obtain ⟨used', hused', -, hidentity'⟩ := hused n hreported
      obtain rfl : used = used' := Option.some.inj ((find_iff_leads.2 hleads).symm.trans hused')
      exact hidentity'
    · obtain ⟨series, hseries, hread⟩ := mem_samplesOf.1 hgood
      exact ⟨series, hseries, good, hread, hname, hvalue, hidentity⟩
  · intro h vmid found mount usage hfound hmem
    have husage := reported_iff.1 ⟨found, hfound, hmem⟩
    obtain ⟨success, total, available, hfrom⟩ := space_from husage
    have hsize : (count total.value).isSome := hfrom.total.2.1 ▸ hfrom.total.2.2
    have hfree : (count available.value).isSome := hfrom.available.2.1 ▸ hfrom.available.2.2
    obtain ⟨hsame, hused, series, hseries, good, hread, hname, hvalue, hidentity⟩ :=
      h vmid mount success total available (find_iff_leads.1 hfrom.success.1) hfrom.success.2
        (find_iff_leads.1 hfrom.total.1) hsize
        (find_iff_leads.1 hfrom.available.1) hfree
    refine ⟨total, available, hfrom.total.1, hfrom.total.2.1, hfrom.available.1,
      hfrom.available.2.1, hsame, fun n hn => ?_,
      good, mem_samplesOf.2 ⟨series, hseries, hread⟩, hname, hvalue, hidentity⟩
    rw [hfrom.used] at hn
    obtain ⟨used, hfind, hcount⟩ := Option.bind_eq_some_iff.mp hn
    exact ⟨used, hfind, hcount, hused used (find_iff_leads.1 hfind)
      (Option.isSome_iff_exists.mpr ⟨n, hcount⟩)⟩

/-- **A stopped machine's space is one measurement** exactly when the quantities that come first in the
answer are. -/
theorem last_space_iff (run : Text → Option (List Series)) {vmids : List Nat} (hne : vmids ≠ [])
    {result : List Series} (hrun : run (query vmids) = some result) :
    (∀ vmid found mount usage, (vmid, found) ∈ lastSpace run vmids → (mount, usage) ∈ found →
      OneMeasurement (samplesOf result vmid) mount usage) ↔ Together result := by
  have hspace : lastSpace run vmids = machines result := by
    rw [lastSpace, if_neg hne, hrun]
  rw [hspace]
  exact machines_iff

/-! ## A machine of two nodes -/

/-- A series of VMID 101 with the mount `/`. -/
def sampleSeries (node name : Text) (value : Nat) : Series where
  metric := .ofList ([("node", node), ("vmid", "101"), ("mount", "/"),
    ("__name__", name)] : List (Text × Text))
  value := Text.ofNat value

def sampleOf (node name : Text) (value : Nat) : Sample :=
  ⟨name, (sampleSeries node name value).metric, .finite value⟩

theorem readable_sample (node name : Text) {value : Nat} (h : value < 2 ^ 53) :
    readable (sampleSeries node name value) = some (101, sampleOf node name value) := by
  have hvmid : (sampleSeries node name value).metric["vmid".toList]? = some "101".toList := rfl
  have hname : (sampleSeries node name value).metric["__name__".toList]? = some name := rfl
  have hnumber : Text.parseNat (2 ^ 32) "101".toList = some 101 := by decide
  unfold readable
  rw [hvmid, hname, show (sampleSeries node name value).value = Text.ofNat value from rfl, F64.parse_ofNat h]
  simp only [Option.bind_eq_bind, Option.bind_some, hnumber]
  rfl

theorem sample_gives {node name : Text} {value : Nat} (h : value < 2 ^ 53) :
    Gives 101 name "/" (sampleSeries node name value) (sampleOf node name value) :=
  ⟨readable_sample node name h, rfl, rfl, rfl⟩

/-- The read and the size are of one node, the free bytes of another. -/
def migrated : List Series :=
  [sampleSeries "pve1" readSuccess 1, sampleSeries "pve1" totalBytes 100,
    sampleSeries "pve2" availableBytes 60]

theorem migrated_space :
    (∀ vmid found mount usage, (vmid, found) ∈ lastSpace (fun _ => some migrated) [101] →
    (mount, usage) ∈ found → OneMeasurement (samplesOf migrated vmid) mount usage) ↔ Together migrated :=
  last_space_iff (fun _ => some migrated) (List.cons_ne_nil _ _) rfl

/-- A series of one metric does not give another. -/
theorem not_gives {node name other : Text} {value : Nat} (h : value < 2 ^ 53)
    (hname : name ≠ other) (s : Sample) :
    ¬ Gives 101 other "/" (sampleSeries node name value) s := by
  rintro ⟨hread, heq, -, -⟩
  rw [readable_sample node name h] at hread
  obtain rfl : sampleOf node name value = s := (Prod.mk.inj (Option.some.inj hread)).2
  exact hname heq

theorem metrics_apart : readSuccess ≠ totalBytes ∧ readSuccess ≠ availableBytes ∧
    totalBytes ≠ availableBytes := by decide

/-- The free bytes of a VMID that was on two nodes are taken with the size of the other. -/
theorem last_space_mixes : ¬ ∀ (run : Text → Option (List Series)) (vmids : List Nat) (result : List Series),
    run (query vmids) = some result → ∀ vmid found mount usage, (vmid, found) ∈ lastSpace run vmids →
      (mount, usage) ∈ found →
      OneMeasurement (samplesOf result vmid) mount usage := by
  intro h
  have htogether : Together migrated := machines_iff.mp (h (fun _ => some migrated) [101] migrated rfl)
  obtain ⟨hsuccess, havailable, htotal⟩ := metrics_apart
  have hlead₁ : Leads migrated 101 readSuccess "/" (sampleOf "pve1" readSuccess 1) :=
    ⟨[], _, _, rfl, sample_gives (by norm_num), nofun⟩
  have hlead₂ : Leads migrated 101 totalBytes "/" (sampleOf "pve1" totalBytes 100) := by
    refine ⟨[_], _, _, rfl, sample_gives (by norm_num), fun other hother s => ?_⟩
    rw [List.mem_singleton.mp hother]
    exact not_gives (by norm_num) hsuccess s
  have hlead₃ : Leads migrated 101 availableBytes "/" (sampleOf "pve2" availableBytes 60) := by
    refine ⟨[_, _], _, _, rfl, sample_gives (by norm_num), fun other hother s => ?_⟩
    rcases List.mem_cons.mp hother with rfl | hother
    · exact not_gives (by norm_num) havailable s
    · rw [List.mem_singleton.mp hother]
      exact not_gives (by norm_num) htotal s
  obtain ⟨hsame, -⟩ := htogether 101 "/" _ _ _ hlead₁ (by rfl) hlead₂ (by rfl) hlead₃ (by rfl)
  have hnode : (some ("pve2" : Text)) = some ("pve1" : Text) :=
    congrArg (fun labels : Labels => labels["node".toList]?) hsame
  exact absurd hnode (by decide)

end HomeStack.ServiceSpace

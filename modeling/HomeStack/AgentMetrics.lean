import HomeStack.Lib.Double
import HomeStack.Lib.Json

/-! What the PVE agent measures of a report (`hs-pve-agent`, `otlp.rs`, `Metrics::cgroup` and
`Metrics::filesystem`): the calls of `point`, in their order. -/

namespace HomeStack.AgentMetrics

open Json (field)

abbrev Attributes := List (Text × Text)

/-- A copy of the labels with one more (`with`). -/
def withLabel (key value : Text) : Attributes → Attributes
  | [] => [(key, value)]
  | (k, v) :: rest =>
    if k = key then (key, value) :: rest
    else if compare key k = .lt then (key, value) :: (k, v) :: rest
    else (k, v) :: withLabel key value rest

/-- What a raw value is multiplied by. -/
inductive Scale
  | one
  | micro
  | percent
  deriving DecidableEq

/-- `number * scale` -/
def Scale.times : Scale → ℚ → ℚ
  | .one, x => x
  | .micro, x => Double.round (x * Double.round (1 / 10 ^ 6))
  | .percent, x => Double.round (x * Double.round (1 / 100))

/-- A call of `point`; a counter has a generation. -/
structure Call where
  name : Text
  unit : Text
  raw : Json
  scale : Scale
  labels : Attributes
  time : Nat
  generation : Option Text

def flag (b : Bool) : Json := .int (if b then 1 else 0)

def isNumber : Json → Bool
  | .int _ | .dec _ _ _ => true
  | _ => false

def isMax (v : Json) : Bool := v = .str "max"

def gauge (name unit : Text) (raw : Json) (labels : Attributes) (time : Nat) : Call :=
  ⟨name, unit, raw, .one, labels, time, none⟩

/-- A limit that may be `max`: whether it is, and its number. -/
def limit (unlimited name unit : Text) (value : Json) (scale : Scale) (labels : Attributes) (time : Nat) :
    List Call :=
  if isNumber value || isMax value then
    [gauge unlimited "1" (flag (isMax value)) labels time, ⟨name, unit, value, scale, labels, time, none⟩]
  else []

/-- One range of `cpu_count`: what was counted before, and the last CPU. -/
def countRange (counted : Nat × Option Nat) (range : Text) : Option (Nat × Option Nat) := do
  let (first, last) := (Text.splitOnce "-" range).getD (range, range)
  let first ← Text.parseNat (2 ^ 64) first
  let last ← Text.parseNat (2 ^ 64) last
  if counted.2.any (first ≤ ·) || last < first then none
  else
    let count := counted.1 + (last - first + 1)
    if 2 ^ 64 ≤ last - first + 1 || 2 ^ 64 ≤ count then none else some (count, some last)

def cpuCount (text : Text) : Option Nat :=
  if text = [] then none else ((text.splitOn ',').foldlM countRange (0, none)).map Prod.fst

section

variable (entry : Json) (labels : Attributes) (time : Nat)

def metrics : Json := field entry "metrics"

/-- The generation of the counters of a guest: the identity of its cgroup. -/
def generation : Text := (field entry "cgroup_identity").asStr.getD []

def counter (name unit : Text) (raw : Json) (scale : Scale) (labels : Attributes) : Call :=
  ⟨name, unit, raw, scale, labels, time, some (generation entry)⟩

def cpuTimes : List (Text × Text) :=
  [("usage_usec", "usage"), ("user_usec", "user"), ("system_usec", "system"), ("nice_usec", "nice"),
    ("throttled_usec", "throttled"),
    ("burst_usec", "burst"), ("core_sched.force_idle_usec", "force_idle")]

def cpuEvents : List (Text × Text) :=
  [("nr_periods", "periods"), ("nr_throttled", "throttled_periods"), ("nr_bursts", "bursts")]

def memoryKinds : List Text :=
  ["anon", "file", "kernel", "kernel_stack", "pagetables", "sec_pagetables", "percpu", "sock", "vmalloc",
    "shmem", "zswap", "zswapped",
    "file_mapped", "file_dirty", "file_writeback", "swapcached", "anon_thp", "file_thp", "shmem_thp",
      "inactive_anon", "active_anon",
    "inactive_file", "active_file", "unevictable", "slab_reclaimable", "slab_unreclaimable", "slab"]

/-- The fields of `memory.stat` that count events. -/
def isEvent (name : Text) : Bool :=
  (["pg", "thp_", "workingset_", "numa_", "pswp", "swp", "zswp"] : List Text).any fun p => p.isPrefixOf name

def effectiveLimits : List Call :=
  gauge "hs_pve_cpu_capacity" "\x7bcpu\x7d" (field (field entry "effective_limits")
    "cpu_capacity_cpus") labels time ::
    limit "hs_pve_memory_effective_limit_unlimited" "hs_pve_memory_effective_limit_bytes" "By"
      (field (field entry "effective_limits") "memory_limit_bytes") .one labels time

def cpu : List Call :=
  (cpuTimes.map fun (f, name) =>
    counter entry time ("hs_pve_cpu_" ++ name ++ "_seconds")
      "s" (field (field (metrics entry) "cpu.stat") f) .micro labels) ++
  (cpuEvents.map fun (f, name) =>
    counter entry time ("hs_pve_cpu_" ++ name) "\x7bevent\x7d"
      (field (field (metrics entry) "cpu.stat") f) .one labels) ++
  gauge "hs_pve_cpu_weight" "1" (field (metrics entry) "cpu.weight") labels time ::
  (((field (metrics entry) "cpuset.cpus.effective").asStr.bind cpuCount).toList.map fun (n : Nat) =>
    gauge "hs_pve_cpu_cpuset_count" "\x7bcpu\x7d" (.int n) labels time) ++
  limit "hs_pve_cpu_quota_unlimited" "hs_pve_cpu_quota_seconds"
    "s" (field (field (metrics entry) "cpu.max") "quota_usec") .micro labels
    time ++
  [⟨"hs_pve_cpu_quota_period_seconds", "s", field (field (metrics entry) "cpu.max") "period_usec",
    .micro, labels, time, none⟩]

def memory : List Call :=
  (([("memory.current", "usage"), ("memory.peak", "peak"), ("memory.swap.current", "swap_usage")] : List
    (Text × Text)).map
    fun (file, name) => gauge ("hs_pve_memory_" ++ name ++ "_bytes")
      "By" (field (metrics entry) file) labels time) ++
  (([("memory.max", "hard"), ("memory.high", "high"), ("memory.swap.max", "swap")] : List
    (Text × Text)).flatMap fun (file, name) =>
    limit "hs_pve_memory_limit_unlimited" "hs_pve_memory_limit_bytes" "By" (field (metrics entry) file) .one
      (withLabel "limit" name labels) time) ++
  (memoryKinds.map fun kind =>
    gauge "hs_pve_memory_stat_bytes" "By" (field (field (metrics entry) "memory.stat") kind)
      (withLabel "kind" kind labels) time) ++
  (((field (metrics entry) "memory.events").asObject.getD []).map fun (event, value) =>
    counter entry time "hs_pve_memory_events" "\x7bevent\x7d" value .one (withLabel "event" event labels)) ++
  ((((field (metrics entry) "memory.stat").asObject.getD []).filter fun e => isEvent e.1).map fun
    (event, value) =>
    counter entry time "hs_pve_memory_stat_events" "\x7bevent\x7d" value .one
      (withLabel "event" event labels))

def processes : List Call :=
  gauge "hs_pve_pids_current" "\x7bprocess\x7d" (field (metrics entry) "pids.current") labels time ::
  limit "hs_pve_pids_limit_unlimited" "hs_pve_pids_limit" "\x7bprocess\x7d"
    (field (metrics entry) "pids.max") .one labels time ++
  (["populated", "frozen"] : List Text).map fun f =>
    gauge ("hs_pve_cgroup_" ++ f) "1" (field (field (metrics entry) "cgroup.events") f) labels time

def stalls (resource stall : Text) : List Call :=
  let labels := withLabel "stall" stall (withLabel "resource" resource labels)
  let psi := field (field (metrics entry) (resource ++ ".pressure")) stall
  (([("avg10", "10s"), ("avg60", "60s"), ("avg300", "300s")] : List (Text × Text)).map fun (f, window) =>
    ⟨"hs_pve_pressure_stall_ratio", "1", field psi f, .percent,
      withLabel "window" window labels, time, none⟩) ++
  [counter entry time "hs_pve_pressure_stall_seconds" "s" (field psi "total") .micro labels]

def device (name : Text) (fields : Json) : List Call :=
  ([("r", "read"), ("w", "write"), ("d", "discard")] : List (Text × Text)).flatMap fun (p, operation) =>
    let labels := withLabel "operation" operation (withLabel "device" name labels)
    [counter entry time "hs_pve_io_bytes" "By" (field fields (p ++ "bytes")) .one labels,
      counter entry time "hs_pve_io_operations" "\x7boperation\x7d" (field fields (p ++ "ios")) .one labels]

def cgroup : List Call :=
  effectiveLimits entry labels time ++ cpu entry labels time ++ memory entry labels time ++
    processes entry labels time ++
  (["cpu", "memory", "io"] : List Text).flatMap (fun resource =>
    (["some", "full"] : List Text).flatMap fun stall => stalls entry labels time resource stall) ++
  ((field (metrics entry) "io.stat").asObject.getD []).flatMap
  (fun (name, fields) => device entry labels time name fields) ++
  [⟨"hs_pve_instance_collection_seconds", "s", field entry "collection_usec", .micro, labels, time, none⟩,
    gauge "hs_pve_cgroup_read_errors" "\x7berror\x7d"
      (.int (((field entry "read_errors").asObject.getD []).length : Nat)) labels time]

def report : Json := field entry "filesystem_report"

/-- `as_u64` and `checked_mul(1_000_000)` -/
def nanoseconds (v : Json) : Option Nat :=
  v.asU64.bind fun ms => if ms * 10 ^ 6 < 2 ^ 64 then some (ms * 10 ^ 6) else none

def mounted (labels : Attributes) (sampleTime : Nat) (filesystem : Json) : List Call :=
  match (field filesystem "mount").asStr with
  | none => []
  | some mount =>
    let labels := withLabel "mount" mount labels
    let labels := match (field filesystem "filesystem").asStr with
      | some kind => withLabel "filesystem" kind labels
      | none => labels
    [gauge "hs_pve_filesystem_mounted" "1" (flag (field filesystem "mounted" = .bool true)) labels sampleTime,
      gauge "hs_pve_filesystem_read_success"
        "1" (flag (field filesystem "error").isNull) labels sampleTime] ++
    (["total_bytes", "used_bytes", "free_bytes", "available_bytes",
      "total_bytes_unprivileged"] : List Text).map (fun f =>
      gauge ("hs_pve_filesystem_" ++ f) "By" (field filesystem f) labels sampleTime) ++
    (["inodes_total", "inodes_free"] : List Text).map fun f =>
      gauge ("hs_pve_filesystem_" ++ f) "\x7binode\x7d" (field filesystem f) labels sampleTime

/-- What is measured of a sample, at its own time. -/
def sample (sampleTime : Nat) : List Call :=
  gauge "hs_pve_filesystem_collection_success"
    "1" (flag (field (report entry) "error").isNull) labels sampleTime ::
    ((field (report entry) "filesystems").asArray.getD []).flatMap (mounted labels sampleTime)

def filesystem (changed : Bool) : List Call :=
  gauge "hs_pve_filesystem_sample_age_seconds" "s" (field (report entry) "sample_age_seconds") labels time ::
    if changed then
      match nanoseconds (field (report entry) "sampled_at_unix_ms") with
      | some sampleTime => sample entry labels sampleTime
      | none => []
    else []

end

end HomeStack.AgentMetrics

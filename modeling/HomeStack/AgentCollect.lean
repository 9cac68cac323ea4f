import HomeStack.Lib.Json

/-! What the PVE agent collects of the guests of its node (`hs-pve-agent`, `main.rs`), as far as the reports
of their filesystems go: they are read at intervals and kept in a cache in between. The instants are those
of the monotonic clock, in nanoseconds. -/

namespace HomeStack.AgentCollect

abbrev Entries := List (Text × Json)

inductive Kind
  | lxc
  | qemu
  deriving DecidableEq

abbrev Key := Nat × Kind

/-- `CachedFilesystem`; a report is null or an object. -/
structure CachedFilesystem where
  identity : Option (Nat × Nat)
  report : Option Entries
  sampledAt : Nat
  sampledAtUnixMs : Nat
  deriving DecidableEq

abbrev Cache := Key → Option CachedFilesystem

/-- A guest that is found, with the identity of its cgroup and what the call sees of it: the instants at which
the age of its entry is asked, its sample starts and the age is written, the clock, and the report of a
container that is read. -/
structure Visit where
  id : Nat
  kind : Kind
  identity : Option (Nat × Nat)
  checked : Nat
  started : Nat
  unixMs : Except Text Nat
  aged : Nat
  lxcReport : Entries

def Visit.key (v : Visit) : Key := (v.id, v.kind)

/-- What `discover` finds: each guest once. -/
structure Found where
  visits : List Visit
  keysOnce : (visits.map Visit.key).Nodup

inductive Selection
  /-- One cgroup, of a guest or not. -/
  | path (path : Text) (readable : Bool) (guest : Option Key) (lxcReport : Entries)
  | guests (vmid : Option Nat) (found : Except Text Found)

/-- What a call of `collect` meets. -/
structure Call where
  qgaIntervalSeconds : Nat
  lxcFilesystemIntervalSeconds : Nat
  selection : Selection
  node : Except Text Text
  /-- The reports that the workers read of the virtual machines. -/
  workers : Except Text (Nat → Entries)
  /-- The instant at which the age is written last. -/
  agedLast : Nat → Nat
  unixMs : Except Text Nat

/-- The fields of an instance that have to do with its filesystems. -/
structure Instance where
  vmid : Option Nat
  kind : Option Kind
  identity : Option (Nat × Nat)
  report : Option Entries
  deriving DecidableEq

/-- `report[key] = value`: a null becomes an object. -/
def setField (report : Option Entries) (key : Text) (value : Json) : Option Entries :=
  some (Json.insert key value (report.getD []))

/-- The age and the time of a sample are written into its report. -/
def stamp (report : Option Entries) (now : Nat) (entry : CachedFilesystem) : Option Entries :=
  setField (setField report "sample_age_seconds" (.int ((now - entry.sampledAt) / 10 ^ 9 : Nat)))
    "sampled_at_unix_ms" (.int entry.sampledAtUnixMs)

section

variable (call : Call)

def interval : Kind → Nat
  | .qemu => call.qgaIntervalSeconds
  | .lxc => call.lxcFilesystemIntervalSeconds

/-- The entry of the cache that still serves. -/
def previous (cache : Cache) (v : Visit) : Option CachedFilesystem :=
  (cache v.key).filter fun entry =>
    v.identity.isSome && entry.identity = v.identity && v.checked - entry.sampledAt <
      interval call v.kind * 10 ^ 9

/-- One guest of the loop. -/
def visit (cache : Cache) (v : Visit) : Cache × Except Text Instance :=
  match v.unixMs with
  | .error e => (cache, .error e)
  | .ok ms =>
    match previous call cache v with
    | some entry => (cache, .ok ⟨some v.id, some v.kind, v.identity, stamp entry.report v.aged entry⟩)
    | none =>
      (Function.update cache v.key (some ⟨v.identity, none, v.started, ms⟩),
        .ok ⟨some v.id, some v.kind, v.identity, if v.kind = .lxc then some v.lxcReport else none⟩)

def visits : Cache → List Visit → Cache × Except Text (List Instance)
  | cache, [] => (cache, .ok [])
  | cache, v :: rest =>
    match visit call cache v with
    | (cache, .error e) => (cache, .error e)
    | (cache, .ok i) => ((visits cache rest).1, (visits cache rest).2.map (i :: ·))

def unknownReport : Entries := [("error", .str "instance_type_unknown"), ("filesystems", .null)]

/-- The report of a single cgroup, before virtual machines are asked. -/
def pathReport (lxcReport : Entries) : Option Key → Option Entries
  | some (_, .lxc) => some lxcReport
  | some (_, .qemu) => none
  | none => some unknownReport

/-- The guests that are asked for. -/
def selected (vmid : Option Nat) (found : Found) : List Visit :=
  found.visits.filter fun v => vmid.all (· = v.id)

/-- The first part of `collect`. -/
def gather (cache : Cache) : Cache × Except Text (List Instance) :=
  match call.selection with
  | .path path readable guest lxcReport =>
    if readable then (cache, .ok [⟨guest.map Prod.fst, guest.map Prod.snd, none, pathReport lxcReport guest⟩])
    else (cache, .error (path ++ " is not a readable cgroup v2 directory"))
  | .guests _ (.error e) => (cache, .error e)
  | .guests vmid (.ok found) =>
    match visits call cache (selected vmid found) with
    | (cache, .error e) => (cache, .error e)
    | (cache, .ok instances) =>
      (fun key => if key ∈ (selected vmid found).map Visit.key then cache key else none, .ok instances)

/-- A virtual machine without a report gets the one that was read. -/
def asked (read : Nat → Entries) (i : Instance) : Instance :=
  match i.vmid with
  | some id => if i.kind = some .qemu ∧ i.report = none then { i with report := some (read id) } else i
  | none => i

def collectGuests (instances : List Instance) : Except Text (List Instance) := do
  let _ ← call.node
  let read ← call.workers
  .ok (instances.map (asked read))

def Instance.key (i : Instance) : Option Key :=
  i.vmid.map fun id => (id, if i.kind = some .qemu then .qemu else .lxc)

/-- An entry without a report takes the one of the instance. -/
def CachedFilesystem.filled (entry : CachedFilesystem) (report : Option Entries) : CachedFilesystem :=
  if entry.report = none then { entry with report := report } else entry

/-- One instance of the last loop. -/
def fill (cache : Cache) (i : Instance) : Cache × Instance :=
  match i.key with
  | none => (cache, i)
  | some key =>
    match cache key with
    | none => (cache, i)
    | some entry =>
      (Function.update cache key (some (entry.filled i.report)),
        { i with report := stamp i.report (call.agedLast key.1) entry })

def fillAll : Cache → List Instance → Cache × List Instance
  | cache, [] => (cache, [])
  | cache, i :: rest => ((fillAll (fill call cache i).1 rest).1,
      (fill call cache i).2 :: (fillAll (fill call cache i).1 rest).2)

def collect (cache : Cache) : Cache × Except Text (List Instance) :=
  match gather call cache with
  | (cache, .error e) => (cache, .error e)
  | (cache, .ok instances) =>
    match collectGuests call instances with
    | .error e => (cache, .error e)
    | .ok instances => ((fillAll call cache instances).1, call.unixMs.map fun _ =>
        (fillAll call cache instances).2)

/-! ## Readings -/

/-- A report that was read from a guest, with the cgroup it was found under and when its sample started. -/
structure Reading where
  key : Key
  identity : Option (Nat × Nat)
  report : Entries
  startedAt : Nat
  unixMs : Nat

/-- The guests that the call goes through. -/
def planned : List Visit :=
  match call.selection with
  | .guests vmid (.ok found) => selected vmid found
  | _ => []

/-- The guests it comes to before the clock fails. -/
def reached : List Visit := (planned call).takeWhile fun v => v.unixMs.toOption.isSome

/-- The guests it reads: nothing in the cache serves for them. -/
def unserved (cache : Cache) : List Visit := (reached call).filter fun v => (previous call cache v).isNone

/-- What the workers read, if it comes to that. -/
def answers : Option (Nat → Entries) :=
  if (planned call).all (fun v => v.unixMs.toOption.isSome) ∧
    call.node.toOption.isSome then call.workers.toOption else none

def readingOf (read : Option (Nat → Entries)) (v : Visit) : Option Reading :=
  (if v.kind = .lxc then some v.lxcReport else read.map (· v.id)).map fun report =>
    ⟨v.key, v.identity, report, v.started, v.unixMs.toOption.getD 0⟩

/-- What a call reads from the guests. -/
def readings (cache : Cache) : List Reading := (unserved call cache).filterMap (readingOf (answers call))

/-- A report without the fields that are written into it when it is served. -/
def measured (report : Option Entries) : Option Entries :=
  report.map fun es => Json.erase "sample_age_seconds" (Json.erase "sampled_at_unix_ms" es)

/-- The report was read in the same call. -/
def ReadNow (cache : Cache) (i : Instance) : Prop :=
  match call.selection with
  | .path _ _ guest lxcReport =>
    ∃ read, call.workers = .ok read ∧ measured i.report = measured
      ((pathReport lxcReport guest).or (guest.map fun key => read key.1))
  | .guests _ _ => ∃ r ∈ readings call cache, i.key = some r.key ∧ i.identity = r.identity ∧
      measured i.report = measured (some r.report)

/-- The report is one that was read before, from the same guest under the same cgroup and within the
interval, and says when. -/
def Serves (i : Instance) (r : Reading) : Prop :=
  ∃ v ∈ planned call, i.key = some v.key ∧ r.key = v.key ∧ i.identity = v.identity ∧ v.identity.isSome ∧
    r.identity = v.identity ∧
    v.checked - r.startedAt < interval call v.kind * 10 ^ 9 ∧ measured i.report = measured (some r.report) ∧
    i.report.bind (Json.lookup "sampled_at_unix_ms") = some (.int r.unixMs)

/-- A call that reads comes to the end of its reading: the clock does not fail between, nor the node's
name or the workers. -/
def Completes (cache : Cache) : Prop := unserved call cache ≠ [] → (answers call).isSome

/-- The states that calls lead to, each under a condition, with what they have read. -/
inductive Run (condition : Call → Cache → Prop) : List Reading → Cache → Prop
  | start : Run condition [] fun _ => none
  | call {read : List Reading} {cache : Cache} (c : Call) :
      Run condition read cache → condition c cache →
        Run condition (read ++ readings c cache) (collect c cache).1

/-- The entry has a report that was read. -/
def BackedBy (read : List Reading) (key : Key) (entry : CachedFilesystem) : Prop :=
  ∃ r ∈ read, r.key = key ∧ r.identity = entry.identity ∧ entry.report = some r.report ∧
    r.startedAt = entry.sampledAt ∧
    r.unixMs = entry.sampledAtUnixMs

def Backed (read : List Reading) (cache : Cache) : Prop :=
  ∀ key entry, cache key = some entry → BackedBy read key entry

end

/-! ## Stamps -/

theorem erase_insert (key : Text) (value : Json) (es : Entries) :
    Json.erase key (Json.insert key value es) = Json.erase key es := by
  induction es with
  | nil => simp [Json.insert, Json.erase]
  | cons e es ih =>
    obtain ⟨k, v⟩ := e
    unfold Json.insert
    by_cases hk : k = key
    · simp [hk, Json.erase]
    · by_cases hlt : compare key k = .lt
      · simp [hk, hlt, Json.erase]
      · simpa [hk, hlt, Json.erase] using ih

theorem lookup_insert (key : Text) (value : Json) (es : Entries) :
    Json.lookup key (Json.insert key value es) = some value := by
  induction es with
  | nil => simp [Json.insert, Json.lookup]
  | cons e es ih =>
    obtain ⟨k, v⟩ := e
    unfold Json.insert
    by_cases hk : k = key
    · simp [hk, Json.lookup_cons]
    · by_cases hlt : compare key k = .lt
      · simp [hk, hlt, Json.lookup_cons]
      · simp [hk, hlt, Json.lookup_cons, ih]

theorem erase_comm (a b : Text) (es : Entries) :
    Json.erase a (Json.erase b es) = Json.erase b (Json.erase a es) := by
  simp only [Json.erase, List.filter_filter, Bool.and_comm]

/-- A stamp changes nothing that was measured. -/
theorem measured_stamp (report : Option Entries) (now : Nat) (entry : CachedFilesystem) :
    measured (stamp report now entry) = measured (some (report.getD [])) := by
  simp only [stamp, setField, measured, Option.map_some, Option.getD_some]
  rw [erase_insert, erase_comm, erase_insert, erase_comm]

theorem lookup_stamp (report : Option Entries) (now : Nat) (entry : CachedFilesystem) :
    (stamp report now entry).bind (Json.lookup "sampled_at_unix_ms") = some (.int entry.sampledAtUnixMs) := by
  rw [stamp, setField, Option.bind_some, lookup_insert]

/-! ## The loops -/

section

variable {call : Call}

/-- What the loop makes of a guest: the report of an entry that serves, or a placeholder for one to read. -/
structure Made (call : Call) (cache cache' : Cache) (v : Visit) (i : Instance) : Prop where
  key : i.key = some v.key
  kind : i.kind = some v.kind
  vmid : i.vmid = some v.id
  identity : i.identity = v.identity
  entry : (∃ entry, previous call cache v = some entry ∧ cache' v.key = some entry ∧
    i.report = stamp entry.report v.aged entry) ∨
    ∃ ms, v.unixMs = .ok ms ∧ previous call cache v = none ∧
      cache' v.key = some ⟨v.identity, none, v.started, ms⟩ ∧
      i.report = if v.kind = .lxc then some v.lxcReport else none

theorem previous_some {cache : Cache} {v : Visit} {entry : CachedFilesystem}
    (h : previous call cache v = some entry) :
    cache v.key = some entry ∧ v.identity.isSome ∧ entry.identity = v.identity ∧
      v.checked - entry.sampledAt < interval call v.kind * 10 ^ 9 := by
  obtain ⟨hentry, hserves⟩ := Option.filter_eq_some_iff.mp h
  simp only [Bool.and_eq_true, decide_eq_true_eq] at hserves
  exact ⟨hentry, hserves.1.1, hserves.1.2, hserves.2⟩

theorem previous_congr {cache cache' : Cache} {v : Visit} (h : cache v.key = cache' v.key) :
    previous call cache v = previous call cache' v := by
  rw [previous, previous, h]

theorem visit_ok {cache : Cache} {v : Visit} {i : Instance} (h : (visit call cache v).2 = .ok i) :
    Made call cache (visit call cache v).1 v i ∧ ∀ key, key ≠ v.key →
      (visit call cache v).1 key = cache key := by
  have hkey : (⟨some v.id, some v.kind, v.identity, none⟩ : Instance).key = some v.key := by
    cases hkind : v.kind <;> simp [Instance.key, Visit.key, hkind]
  unfold visit at h ⊢
  cases hclock : v.unixMs with
  | error e =>
    rw [hclock] at h
    cases h
  | ok ms =>
    rw [hclock] at h
    simp only at h ⊢
    cases hprevious : previous call cache v with
    | some entry =>
      rw [hprevious] at h
      cases h
      exact ⟨⟨hkey, rfl, rfl, rfl, .inl ⟨entry, hprevious, (previous_some hprevious).1, rfl⟩⟩, fun _ _ => rfl⟩
    | none =>
      rw [hprevious] at h
      cases h
      refine ⟨⟨hkey, rfl, rfl, rfl, .inr ⟨ms, hclock, hprevious, Function.update_self .., rfl⟩⟩,
        fun key hne => ?_⟩
      exact Function.update_of_ne hne ..

theorem visits_cons_ok {cache : Cache} {v : Visit} {vs : List Visit} {is : List Instance}
    (h : (visits call cache (v :: vs)).2 = .ok is) :
    ∃ i rest, is = i :: rest ∧ (visit call cache v).2 = .ok i ∧
      (visits call (visit call cache v).1 vs).2 = .ok rest ∧
      (visits call cache (v :: vs)).1 = (visits call (visit call cache v).1 vs).1 := by
  rw [visits] at h ⊢
  match hvisit : visit call cache v with
  | (next, .error e) =>
    rw [hvisit] at h
    cases h
  | (next, .ok i) =>
    rw [hvisit] at h
    simp only at h ⊢
    cases hrest : (visits call next vs).2 with
    | error e =>
      rw [hrest] at h
      cases h
    | ok rest =>
      rw [hrest] at h
      cases h
      exact ⟨i, rest, rfl, rfl, rfl, trivial⟩

theorem visits_ok {cache : Cache} {vs : List Visit} {is : List Instance}
    (h : (visits call cache vs).2 = .ok is) (hkeys : (vs.map Visit.key).Nodup) :
    List.Forall₂ (Made call cache (visits call cache vs).1) vs is ∧
      ∀ key, key ∉ vs.map Visit.key → (visits call cache vs).1 key = cache key := by
  induction vs generalizing cache is with
  | nil =>
    cases h
    exact ⟨.nil, fun _ _ => rfl⟩
  | cons v vs ih =>
    obtain ⟨hv, hvs⟩ := List.nodup_cons.mp hkeys
    obtain ⟨i, rest, rfl, hi, hrest, hcache⟩ := visits_cons_ok h
    obtain ⟨hmade, hother⟩ := visit_ok hi
    obtain ⟨hmades, hothers⟩ := ih hrest hvs
    rw [hcache]
    have hmades := (List.forall₂_and_left vs rest).mpr ⟨fun w (hw : w ∈ vs) => hw, hmades⟩
    refine ⟨.cons ?_ (hmades.imp fun w j hwj => ?_), fun key hkey => ?_⟩
    · -- the guests after it leave its entry alone
      have hentry := hothers v.key hv
      exact { hmade with entry := by rw [hentry]; exact hmade.entry }
    · -- and it leaves theirs alone
      obtain ⟨hw, hj⟩ := hwj
      have hne : w.key ≠ v.key := fun heq => hv (heq ▸ List.mem_map_of_mem hw)
      have hsame : previous call (visit call cache v).1 w = previous call cache w :=
        previous_congr (hother w.key hne)
      exact { hj with entry := by rw [← hsame]; exact hj.entry }
    · rw [List.map_cons, List.mem_cons, not_or] at hkey
      rw [hothers key hkey.2, hother key hkey.1]

/-- A loop that comes only to guests whose entries serve leaves the cache alone. -/
theorem visits_served {cache : Cache} {vs : List Visit}
    (h : ∀ v ∈ vs.takeWhile (fun v => v.unixMs.toOption.isSome), (previous call cache v).isSome) :
    (visits call cache vs).1 = cache := by
  induction vs with
  | nil => rfl
  | cons v vs ih =>
    rw [visits]
    cases hclock : v.unixMs with
    | error e => simp [visit, hclock]
    | ok ms =>
      have htake : (v :: vs).takeWhile (fun v => v.unixMs.toOption.isSome) = v :: vs.takeWhile fun v =>
          v.unixMs.toOption.isSome :=
        List.takeWhile_cons_of_pos (by rw [hclock]; rfl)
      rw [htake, List.forall_mem_cons] at h
      obtain ⟨entry, hentry⟩ := Option.isSome_iff_exists.mp h.1
      simp only [visit, hclock, hentry]
      exact ih h.2

/-- What the last loop makes of an instance: its entry has a report, and it has the entry's stamp. -/
def Filled (call : Call) (cache cache' : Cache) (i j : Instance) : Prop :=
  ∀ key entry, i.key = some key → cache key = some entry →
    cache' key = some (entry.filled i.report) ∧
      j = { i with report := stamp i.report (call.agedLast key.1) entry }

theorem fill_filled (cache : Cache) (i : Instance) :
    Filled call cache (fill call cache i).1 i (fill call cache i).2 ∧
      ∀ key, i.key ≠ some key → (fill call cache i).1 key = cache key := by
  unfold fill
  cases hkey : i.key with
  | none =>
    refine ⟨fun key entry hi _ => ?_, fun _ _ => rfl⟩
    rw [hkey] at hi
    cases hi
  | some key =>
    cases hentry : cache key with
    | none =>
      simp only [hentry]
      refine ⟨fun key' entry hi hcache => ?_, fun _ _ => trivial⟩
      rw [hkey] at hi
      cases hi
      rw [hentry] at hcache
      cases hcache
    | some entry =>
      simp only [hentry]
      refine ⟨fun key' entry' hi hcache => ?_, fun key' hne =>
        Function.update_of_ne (fun heq => hne (by rw [heq])) ..⟩
      rw [hkey] at hi
      cases hi
      rw [hentry] at hcache
      cases hcache
      exact ⟨Function.update_self .., rfl⟩

theorem fillAll_filled (cache : Cache) {is : List Instance} (hkeys : (is.map Instance.key).Nodup) :
    List.Forall₂ (Filled call cache (fillAll call cache is).1) is (fillAll call cache is).2 ∧
      ∀ key, some key ∉ is.map Instance.key → (fillAll call cache is).1 key = cache key := by
  induction is generalizing cache with
  | nil => exact ⟨.nil, fun _ _ => rfl⟩
  | cons i is ih =>
    obtain ⟨hi, his⟩ := List.nodup_cons.mp hkeys
    obtain ⟨hfilled, hother⟩ := @fill_filled call cache i
    obtain ⟨hfilleds, hothers⟩ := ih (fill call cache i).1 his
    rw [fillAll]
    have hfilleds := (List.forall₂_and_left is _).mpr ⟨fun j (hj : j ∈ is) => hj, hfilleds⟩
    refine ⟨.cons ?_ (hfilleds.imp fun j k hjk => ?_), fun key hkey => ?_⟩
    · intro key entry hkey hentry
      have hsame := hothers key (fun hmem => hi (hkey ▸ hmem))
      obtain ⟨hcache, hstamp⟩ := hfilled key entry hkey hentry
      exact ⟨hsame.trans hcache, hstamp⟩
    · obtain ⟨hj, hk⟩ := hjk
      intro key entry hkey hentry
      have hne : i.key ≠ some key := fun heq => hi (by rw [heq, ← hkey]; exact List.mem_map_of_mem hj)
      exact hk key entry hkey ((hother key hne).trans hentry)
    · rw [List.map_cons, List.mem_cons, not_or] at hkey
      rw [hothers key hkey.2, hother key (Ne.symm hkey.1)]

/-! ## One call -/

theorem visits_of_clocks {cache : Cache} {vs : List Visit} (h : ∀ v ∈ vs, v.unixMs.toOption.isSome) :
    ∃ is, (visits call cache vs).2 = .ok is := by
  induction vs generalizing cache with
  | nil => exact ⟨[], rfl⟩
  | cons v vs ih =>
    obtain ⟨hv, hvs⟩ := List.forall_mem_cons.mp h
    obtain ⟨rest, hrest⟩ := @ih (visit call cache v).1 hvs
    obtain ⟨i, hi⟩ : ∃ i, (visit call cache v).2 = .ok i := by
      unfold visit
      cases hclock : v.unixMs with
      | error e =>
        rw [hclock] at hv
        cases hv
      | ok ms => cases previous call cache v <;> exact ⟨_, rfl⟩
    refine ⟨i :: rest, ?_⟩
    rw [visits]
    match hvisit : visit call cache v with
    | (next, result) =>
      rw [hvisit] at hi hrest
      simp only at hi hrest
      subst hi
      simp only [hrest]
      rfl

theorem clocks_of_visits {cache : Cache} {vs : List Visit} {is : List Instance}
    (h : (visits call cache vs).2 = .ok is) :
    ∀ v ∈ vs, v.unixMs.toOption.isSome := by
  induction vs generalizing cache is with
  | nil => simp
  | cons v vs ih =>
    obtain ⟨i, rest, -, hi, hrest, -⟩ := visits_cons_ok h
    refine List.forall_mem_cons.mpr ⟨?_, ih hrest⟩
    unfold visit at hi
    cases hclock : v.unixMs with
    | error e =>
      rw [hclock] at hi
      cases hi
    | ok ms => rfl

theorem key_asked (read : Nat → Entries) (i : Instance) : (asked read i).key = i.key := by
  unfold asked
  split
  · split <;> rfl
  · rfl

theorem identity_asked (read : Nat → Entries) (i : Instance) : (asked read i).identity = i.identity := by
  unfold asked
  split
  · split <;> rfl
  · rfl

theorem asked_of_some {read : Nat → Entries} {i : Instance} (h : i.report ≠ none) : asked read i = i := by
  unfold asked
  split
  · rw [if_neg (fun hi => h hi.2)]
  · rfl

theorem mem_unserved {cache : Cache} {v : Visit} {read : Nat → Entries} (hv : v ∈ planned call)
    (hanswers : answers call = some read) (hprevious : previous call cache v = none) :
    v ∈ unserved call cache := by
  have hclocks : ∀ w ∈ planned call, w.unixMs.toOption.isSome := by
    unfold answers at hanswers
    split at hanswers
    · rename_i h
      simpa using h.1
    · cases hanswers
  refine List.mem_filter.mpr ⟨?_, by simp [hprevious]⟩
  rw [reached, List.takeWhile_eq_self_iff.mpr (by simpa using hclocks)]
  exact hv

/-- What a completed call makes of a guest: the report was read now or before, and so was the one in its
entry. -/
theorem settle {read : List Reading} {cache looped live filled : Cache} {v : Visit} {i j : Instance}
    {answered : Nat → Entries} (hbacked : Backed read cache) (hv : v ∈ planned call)
    (hanswers : answers call = some answered) (hmade : Made call cache looped v i)
    (hlive : live v.key = looped v.key) (hfilled : Filled call live filled (asked answered i) j) :
    ((∃ r ∈ read, Serves call j r) ∨ ∃ r ∈ readings call cache, j.key = some r.key ∧ j.identity = r.identity ∧
      measured j.report = measured (some r.report)) ∧
      ∃ entry, filled v.key = some entry ∧ BackedBy (read ++ readings call cache) v.key entry := by
  have hkey : (asked answered i).key = some v.key := (key_asked _ _).trans hmade.key
  obtain ⟨entry, hprevious, hlooped, hreport⟩ | ⟨ms, hclock, hprevious, hlooped, hreport⟩ := hmade.entry
  · -- an entry that serves has a report already
    obtain ⟨hcache, hidentity, hsame, hage⟩ := previous_some hprevious
    obtain ⟨r, hr, hrkey, hridentity, hrreport, hrstarted, hrms⟩ := hbacked v.key entry hcache
    obtain ⟨hfill, rfl⟩ := hfilled v.key entry hkey (hlive.trans hlooped)
    have hasked : asked answered i = i := asked_of_some (by rw [hreport]; simp [stamp, setField])
    have hentry : entry.filled (asked answered i).report = entry := by
      simp [CachedFilesystem.filled, hrreport]
    rw [hentry] at hfill
    refine ⟨.inl ⟨r, hr, v, hv, hkey, hrkey, ?_, hidentity, hridentity.trans hsame, ?_, ?_, ?_⟩,
      entry, hfill, r,
      List.mem_append_left _ hr, hrkey, hridentity, hrreport, hrstarted, hrms⟩
    · rw [hasked]
      exact hmade.identity
    · rw [hrstarted]
      exact hage
    · rw [measured_stamp, hasked, hreport]
      have hsome : some ((stamp entry.report v.aged entry).getD []) = stamp entry.report v.aged entry := rfl
      rw [hsome, measured_stamp, hrreport]
      rfl
    · rw [lookup_stamp, hrms]
  · -- a placeholder takes what was read
    obtain ⟨report, hasked, hreading⟩ : ∃ report, (asked answered i).report = some report ∧
        readingOf (some answered) v = some ⟨v.key, v.identity, report, v.started, ms⟩ := by
      cases hkind : v.kind with
      | lxc =>
        rw [if_pos hkind] at hreport
        refine ⟨v.lxcReport, by rw [asked_of_some (by simp [hreport]), hreport], ?_⟩
        simp [readingOf, hkind, hclock, Except.toOption]
      | qemu =>
        rw [if_neg (by simp [hkind])] at hreport
        refine ⟨answered v.id, ?_, ?_⟩
        · simp [asked, hmade.vmid, hmade.kind, hkind, hreport]
        · simp [readingOf, hkind, hclock, Except.toOption]
    have hmem : (⟨v.key, v.identity, report, v.started, ms⟩ : Reading) ∈ readings call cache := by
      refine List.mem_filterMap.mpr ⟨v, mem_unserved hv hanswers hprevious, ?_⟩
      rw [hanswers]
      exact hreading
    obtain ⟨hfill, rfl⟩ := hfilled v.key _ hkey (hlive.trans hlooped)
    refine ⟨.inr ⟨_, hmem, hkey, (identity_asked _ _).trans hmade.identity, ?_⟩, _, hfill, _,
      List.mem_append_right _ hmem, rfl, ?_⟩
    · rw [measured_stamp, hasked]
      rfl
    · simp [CachedFilesystem.filled, hasked]

theorem Backed.mono {read more : List Reading} {cache : Cache} (h : Backed read cache) :
    Backed (read ++ more) cache := by
  intro key entry hentry
  obtain ⟨r, hr, hrest⟩ := h key entry hentry
  exact ⟨r, List.mem_append_left _ hr, hrest⟩

theorem keys_selected (vmid : Option Nat) (found : Found) : ((selected vmid found).map Visit.key).Nodup :=
  (List.filter_sublist.map Visit.key).nodup found.keysOnce

theorem answers_of_ok {vmid : Option Nat} {found : Found} {cache : Cache} {is : List Instance} {node : Text}
    {answered : Nat → Entries} (hselection : call.selection = .guests vmid (.ok found))
    (hvisits : (visits call cache (selected vmid found)).2 = .ok is) (hnode : call.node = .ok node)
    (hworkers : call.workers = .ok answered) : answers call = some answered := by
  have hplanned : planned call = selected vmid found := by rw [planned, hselection]
  have hclocks := clocks_of_visits hvisits
  rw [answers, hplanned, if_pos ⟨by simpa using hclocks, by rw [hnode]; rfl⟩, hworkers]
  rfl

section

variable {α β γ : Type} {R : α → β → Prop} {S : β → γ → Prop} {as : List α} {bs : List β} {cs : List γ}

theorem forall₂_comp (h : List.Forall₂ R as bs) (h' : List.Forall₂ S bs cs) :
    List.Forall₂ (fun a c => ∃ b, R a b ∧ S b c) as cs := by
  induction h generalizing cs with
  | nil =>
    cases h'
    exact .nil
  | cons hab _ ih =>
    cases h' with
    | cons hbc h' => exact .cons ⟨_, hab, hbc⟩ (ih h')

theorem forall₂_mem_right (h : List.Forall₂ R as bs) : ∀ b ∈ bs, ∃ a ∈ as, R a b := by
  induction h with
  | nil => simp
  | cons hab _ ih =>
    refine List.forall_mem_cons.mpr ⟨⟨_, List.mem_cons_self, hab⟩, fun b hb => ?_⟩
    obtain ⟨a, ha, hR⟩ := ih b hb
    exact ⟨a, List.mem_cons_of_mem _ ha, hR⟩

theorem forall₂_mem_left (h : List.Forall₂ R as bs) : ∀ a ∈ as, ∃ b ∈ bs, R a b :=
  forall₂_mem_right h.flip

theorem map_eq_of_forall₂ {f : α → γ} {g : β → γ} (h : List.Forall₂ R as bs)
    (hfg : ∀ a b, R a b → g b = f a) :
    bs.map g = as.map f := by
  induction h with
  | nil => rfl
  | cons hab _ ih => rw [List.map_cons, List.map_cons, hfg _ _ hab, ih]

end

/-- The guests of a completed call, one by one. -/
theorem collected {read : List Reading} {cache : Cache} {vmid : Option Nat} {found : Found}
    {is : List Instance} {node : Text} {answered : Nat → Entries} (hbacked : Backed read cache)
    (hselection : call.selection = .guests vmid (.ok found))
    (hvisits : (visits call cache (selected vmid found)).2 = .ok is) (hnode : call.node = .ok node)
    (hworkers : call.workers = .ok answered) {live : Cache}
    (hlive : live = fun key => if key ∈ (selected vmid found).map Visit.key then
    (visits call cache (selected vmid found)).1 key else none) :
    (∀ j ∈ (fillAll call live (is.map (asked answered))).2, (∃ r ∈ read, Serves call j r) ∨
      ∃ r ∈ readings call cache, j.key = some r.key ∧ j.identity = r.identity ∧
        measured j.report = measured (some r.report)) ∧
    Backed (read ++ readings call cache) (fillAll call live (is.map (asked answered))).1 := by
  have hplanned : planned call = selected vmid found := by rw [planned, hselection]
  have hanswers := answers_of_ok hselection hvisits hnode hworkers
  have hmades := (visits_ok hvisits (keys_selected vmid found)).1
  have hkeys : (is.map (asked answered)).map Instance.key =
      ((selected vmid found).map Visit.key).map some := by
    rw [List.map_map, List.map_map]
    exact map_eq_of_forall₂ hmades fun v i hi => (key_asked _ _).trans hi.key
  have hnodup : ((is.map (asked answered)).map Instance.key).Nodup := by
    rw [hkeys]
    exact (keys_selected vmid found).map (Option.some_injective _)
  obtain ⟨hfilleds, hothers⟩ := @fillAll_filled call live _ hnodup
  have hrows := forall₂_comp hmades (List.forall₂_map_left_iff.mp hfilleds)
  have hsettled (v : Visit) (hv : v ∈ selected vmid found) (i j : Instance)
      (hi : Made call cache (visits call cache (selected vmid found)).1 v i)
      (hj : Filled call live (fillAll call live (is.map (asked answered))).1 (asked answered i) j) :=
    settle hbacked (hplanned ▸ hv) hanswers hi (by rw [hlive]; exact if_pos (List.mem_map_of_mem hv)) hj
  constructor
  · intro j hj
    obtain ⟨v, hv, i, hi, hfilled⟩ := forall₂_mem_right hrows j hj
    exact (hsettled v hv i j hi hfilled).1
  · intro key entry hentry
    by_cases hmem : key ∈ (selected vmid found).map Visit.key
    · obtain ⟨v, hv, rfl⟩ := List.mem_map.mp hmem
      obtain ⟨j, -, i, hi, hfilled⟩ := forall₂_mem_left hrows v hv
      obtain ⟨entry', hentry', hbackedBy⟩ := (hsettled v hv i j hi hfilled).2
      rw [hentry] at hentry'
      cases hentry'
      exact hbackedBy
    · -- a guest that is gone has no entry
      have hnone : (fillAll call live (is.map (asked answered))).1 key = none := by
        rw [hothers key (by rw [hkeys]; simpa using hmem), hlive]
        exact if_neg hmem
      rw [hentry] at hnone
      cases hnone

theorem collectGuests_ok {is js : List Instance} (h : collectGuests call is = .ok js) :
    ∃ node answered, call.node = .ok node ∧ call.workers = .ok answered ∧ js = is.map (asked answered) := by
  unfold collectGuests at h
  cases hnode : call.node with
  | error e =>
    rw [hnode] at h
    cases h
  | ok node =>
    rw [hnode] at h
    cases hworkers : call.workers with
    | error e =>
      rw [hworkers] at h
      cases h
    | ok answered =>
      rw [hworkers] at h
      cases h
      exact ⟨node, answered, rfl, rfl, rfl⟩

/-- A single instance leaves a cache alone whose entries have reports. -/
theorem fillAll_backed {read : List Reading} {cache : Cache} (hbacked : Backed read cache) (i : Instance) :
    (fillAll call cache [i]).1 = cache := by
  funext key
  have hfill := @fill_filled call cache i
  change (fill call cache i).1 key = cache key
  by_cases hkey : i.key = some key
  · cases hentry : cache key with
    | none => simp [fill, hkey, hentry]
    | some entry =>
      obtain ⟨r, -, -, -, hreport, -⟩ := hbacked key entry hentry
      rw [(hfill.1 key entry hkey hentry).1]
      simp [CachedFilesystem.filled, hreport]
  · exact hfill.2 key hkey

theorem not_served_of_fail {cache : Cache} (hcompletes : Completes call cache)
    (hanswers : answers call = none) :
    (visits call cache (planned call)).1 = cache := by
  refine visits_served fun v hv => ?_
  by_contra hnone
  have hmem : v ∈ unserved call cache := List.mem_filter.mpr ⟨hv, by simpa using hnone⟩
  have := hcompletes (List.ne_nil_of_mem hmem)
  rw [hanswers] at this
  cases this

theorem collect_path {cache : Cache} {path : Text} {readable : Bool} {guest : Option Key}
    {lxcReport : Entries} (hselection : call.selection = .path path readable guest lxcReport) :
    (∃ e, collect call cache = (cache, .error e)) ∨ ∃ answered, call.workers = .ok answered ∧
      collect call cache =
        ((fillAll call cache [asked answered ⟨guest.map Prod.fst, guest.map Prod.snd, none,
          pathReport lxcReport guest⟩]).1,
          call.unixMs.map fun _ =>
            (fillAll call cache [asked answered ⟨guest.map Prod.fst, guest.map Prod.snd, none,
              pathReport lxcReport guest⟩]).2) := by
  unfold collect gather
  rw [hselection]
  cases readable with
  | false => exact .inl ⟨_, rfl⟩
  | true =>
    simp only [if_true]
    cases hguests : collectGuests call [⟨guest.map Prod.fst, guest.map Prod.snd, none,
      pathReport lxcReport guest⟩] with
    | error e => exact .inl ⟨e, rfl⟩
    | ok is =>
      obtain ⟨node, answered, -, hworkers, rfl⟩ := collectGuests_ok hguests
      exact .inr ⟨answered, hworkers, rfl⟩

/-- The guests that are left when some are gone. -/
def live (call : Call) (cache : Cache) (vmid : Option Nat) (found : Found) : Cache := fun key =>
  if key ∈ (selected vmid found).map Visit.key then (visits call cache (selected vmid found)).1 key else none

theorem collect_guests {cache : Cache} {vmid : Option Nat} {found : Found}
    (hselection : call.selection = .guests vmid (.ok found)) :
    (∃ e, (visits call cache (selected vmid found)).2 = .error e ∧
      collect call cache = ((visits call cache (selected vmid found)).1, .error e)) ∨
    ∃ is, (visits call cache (selected vmid found)).2 = .ok is ∧
      ((∃ e, collectGuests call is = .error e ∧ collect call cache = (live call cache vmid found, .error e)) ∨
        ∃ js, collectGuests call is = .ok js ∧
          collect call cache = ((fillAll call (live call cache vmid found) js).1,
          call.unixMs.map fun _ => (fillAll call (live call cache vmid found) js).2)) := by
  unfold collect gather live
  rw [hselection]
  match hvisits : visits call cache (selected vmid found) with
  | (next, .error e) => exact .inl ⟨e, rfl, by simp only [hvisits]⟩
  | (next, .ok is) =>
    refine .inr ⟨is, rfl, ?_⟩
    simp only [hvisits]
    cases hguests : collectGuests call is with
    | error e => exact .inl ⟨e, rfl, rfl⟩
    | ok js => exact .inr ⟨js, rfl, rfl⟩

/-- A call that completes leaves entries whose reports were read. -/
theorem collect_backed {read : List Reading} {cache : Cache} (hbacked : Backed read cache)
    (hcompletes : Completes call cache) :
    Backed (read ++ readings call cache) (collect call cache).1 := by
  match hselection : call.selection with
  | .path path readable guest lxcReport =>
    obtain ⟨e, he⟩ | ⟨answered, -, he⟩ := @collect_path call cache _ _ _ _ hselection
    · rw [he]
      exact hbacked.mono
    · rw [he, fillAll_backed hbacked]
      exact hbacked.mono
  | .guests vmid (.error e) =>
    have he : collect call cache = (cache, .error e) := by simp only [collect, gather, hselection]
    rw [he]
    exact hbacked.mono
  | .guests vmid (.ok found) =>
    have hplanned : planned call = selected vmid found := by rw [planned, hselection]
    obtain ⟨e, hvisits, he⟩ | ⟨is, hvisits, ⟨e, hguests, he⟩ | ⟨js, hguests, he⟩⟩ :=
      @collect_guests call cache _ _ hselection
    · -- a clock failed, so that nothing was read
      have hanswers : answers call = none := by
        refine if_neg fun hclocks => ?_
        obtain ⟨is, his⟩ := @visits_of_clocks call cache (planned call) (by simpa using hclocks.1)
        rw [hplanned, hvisits] at his
        cases his
      have hsame := not_served_of_fail hcompletes hanswers
      rw [hplanned] at hsame
      rw [he, hsame]
      exact hbacked.mono
    · have hanswers : answers call = none := by
        unfold answers
        split
        · rename_i h
          unfold collectGuests at hguests
          cases hnode : call.node with
          | error e => simp [hnode, Except.toOption] at h
          | ok node =>
            cases hworkers : call.workers with
            | error e => rfl
            | ok answered =>
              rw [hnode, hworkers] at hguests
              cases hguests
        · rfl
      have hsame := not_served_of_fail hcompletes hanswers
      rw [hplanned] at hsame
      rw [he]
      intro key entry hentry
      simp only [live, hsame] at hentry
      split at hentry
      · exact hbacked.mono key entry hentry
      · cases hentry
    · obtain ⟨node, answered, hnode, hworkers, rfl⟩ := collectGuests_ok hguests
      rw [he]
      exact (collected hbacked hselection hvisits hnode hworkers rfl).2

/-- In every run the entries have reports that were read. -/
theorem Run.backed {read : List Reading} {cache : Cache} (h : Run Completes read cache) :
    Backed read cache := by
  induction h with
  | start => intro key entry hentry; cases hentry
  | call c _ hcompletes ih => exact collect_backed ih hcompletes

/-- The report of a single cgroup is always read in the call. -/
theorem readNow_path {cache : Cache} {path : Text} {readable : Bool} {guest : Option Key}
    {lxcReport : Entries} {instances : List Instance}
    (hselection : call.selection = .path path readable guest lxcReport)
    (h : (collect call cache).2 = .ok instances) :
    ∀ i ∈ instances, ReadNow call cache i := by
  obtain ⟨e, he⟩ | ⟨answered, hworkers, he⟩ := @collect_path call cache _ _ _ _ hselection
  · rw [he] at h
    cases h
  · rw [he] at h
    obtain ⟨report, hreport, hasked⟩ : ∃ report,
        (pathReport lxcReport guest).or (guest.map fun key => answered key.1) = some report ∧
        (asked answered ⟨guest.map Prod.fst, guest.map Prod.snd, none, pathReport lxcReport guest⟩).report =
          some report := by
      match guest with
      | none => exact ⟨_, rfl, rfl⟩
      | some (id, .lxc) => exact ⟨_, rfl, rfl⟩
      | some (id, .qemu) => exact ⟨_, rfl, rfl⟩
    cases hclock : call.unixMs with
    | error e =>
      rw [hclock] at h
      cases h
    | ok ms =>
      rw [hclock] at h
      cases h
      intro i hi
      obtain rfl := List.mem_singleton.mp hi
      rw [ReadNow, hselection]
      refine ⟨answered, hworkers, ?_⟩
      rw [hreport, ← hasked]
      unfold fill
      split
      · rfl
      · split
        · rfl
        · rw [measured_stamp, hasked]
          rfl

/-- In every run of calls that complete, a report that comes back was read in the call, or it is one
that was read before and still serves. -/
theorem report_read {read : List Reading} {cache : Cache} {instances : List Instance}
    (hrun : Run Completes read cache) (h : (collect call cache).2 = .ok instances) :
    ∀ i ∈ instances, ReadNow call cache i ∨ ∃ r ∈ read, Serves call i r := by
  match hselection : call.selection with
  | .path path readable guest lxcReport => exact fun i hi => .inl (readNow_path hselection h i hi)
  | .guests vmid (.error e) =>
    simp only [collect, gather, hselection] at h
    cases h
  | .guests vmid (.ok found) =>
    obtain ⟨e, -, he⟩ | ⟨is, hvisits, ⟨e, -, he⟩ | ⟨js, hguests, he⟩⟩ :=
      @collect_guests call cache _ _ hselection
    · rw [he] at h
      cases h
    · rw [he] at h
      cases h
    · obtain ⟨node, answered, hnode, hworkers, rfl⟩ := collectGuests_ok hguests
      rw [he] at h
      cases hclock : call.unixMs with
      | error e =>
        rw [hclock] at h
        cases h
      | ok ms =>
        rw [hclock] at h
        cases h
        intro i hi
        refine ((collected hrun.backed hselection hvisits hnode hworkers rfl).1 i hi).symm.imp_left
          fun hnow => ?_
        rw [ReadNow, hselection]
        exact hnow

end

/-- The guest 101, met at an instant. -/
def guest101 (now : Nat) : Found where
  visits := [⟨101, .qemu, some (1, 7), now, now, .ok (now / 10 ^ 6), now, []⟩]
  keysOnce := by simp

/-- A call in a mode that asks the guest every minute. -/
def minute (now : Nat) (workers : Except Text (Nat → Entries)) : Call :=
  ⟨60, 60, .guests none (.ok (guest101 now)), .ok "pve", workers, fun _ => now, .ok (now / 10 ^ 6)⟩

def answer : Entries := [("filesystems", .arr [])]

def first : Call := minute (10 ^ 9) (.ok fun _ => answer)

def second : Call := minute (2 * 10 ^ 9) (.ok fun _ => answer)

theorem report_read_second : ∃ instances, (collect second (collect first fun _ => none).1).2 = .ok instances ∧
    ∀ i ∈ instances, ReadNow second (collect first fun _ => none).1 i ∨
      ∃ r ∈ [] ++ readings first fun _ => none, Serves second i r :=
  ⟨_, rfl, report_read (.call first .start fun _ => rfl) rfl⟩

/-- The first call does not find out the name of its node, and the second finds its placeholder. -/
def failed : Call :=
  { minute (10 ^ 9) (.ok fun _ => answer) with node := .error "cannot determine node name; set node_name in config" }

theorem report_not_read : ¬ ∀ (call : Call) (read : List Reading) (cache : Cache) (instances : List Instance),
    Run (fun _ _ => True) read cache → (collect call cache).2 = .ok instances →
      ∀ i ∈ instances, ReadNow call cache i ∨ ∃ r ∈ read, Serves call i r := by
  intro h
  obtain ⟨i, hi⟩ : ∃ i, (collect second (collect failed fun _ => none).1).2 = .ok [i] := ⟨_, rfl⟩
  obtain ⟨r, hr, -⟩ | ⟨r, hr, -⟩ := h second _ _ _ (.call failed .start trivial) hi i List.mem_cons_self
  · -- the placeholder serves, so that nothing is read
    have hnone : readings second (collect failed fun _ => none).1 = [] := rfl
    rw [hnone] at hr
    cases hr
  · have hnone : [] ++ readings failed (fun _ => none) = [] := rfl
    rw [hnone] at hr
    cases hr

end HomeStack.AgentCollect

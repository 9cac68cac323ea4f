import HomeStack.Lib.Codec
import HomeStack.Lib.Json

/-! The query cache of the dashboard (`hs-usage`, `prometheus.rs`). Any number of reads share its
entries: a read that finds another one running its query waits for that one's result. An entry goes only
while no read holds it. -/

namespace HomeStack.QueryCache

/-! ## A query -/

def queryConcurrency : Nat := 4

def maxResponse : Nat := 1024 * 1024

def cacheBytes : Nat := 12 * 1024 * 1024

def cacheEntries : Nat := 96

abbrev Params := List (Text × Text)

structure Source where
  query : Text
  params : Params
  data : Json
  fetched : Nat
  bytes : Nat

/-- The body of a response, chunk by chunk. -/
def collect : Bytes → List (Except Text Bytes) → Except Text Bytes
  | bytes, [] => .ok bytes
  | bytes, chunk :: rest => do
    let chunk ← chunk
    if bytes.length + chunk.length > maxResponse then
      .error "Prometheus result exceeded the 1 MiB safety limit; this view is unavailable at its current cardinality"
    else collect (bytes ++ chunk) rest

/-- `execute` on the answer to the request; `fromSlice` is `serde_json::from_slice`. -/
def execute (fromSlice : Bytes → Except Text Json) (path : Text) (params : Params)
    (answer : Except Text (List (Except Text Bytes))) (now : Nat) : Except Text Source := do
  let chunks ← answer
  let bytes ← collect [] chunks
  let body ← fromSlice bytes
  if (body.get "status").getD .null ≠ .str "success" then
    .error "Prometheus query failed or exceeded its time limit"
  else if (((body.get "warnings").getD .null).asArray).any fun a => !a.isEmpty then
    .error "Prometheus returned warnings; refusing an incomplete result"
  else
    .ok
      { query := ((params.find? fun e => e.1 = "query".toList).map Prod.snd).getD path
        params
        data := (body.get "data").getD .null
        fetched := now
        bytes := bytes.length * 4 }

theorem collect_length {bytes body : Bytes} {chunks : List (Except Text Bytes)}
    (hbytes : bytes.length ≤ maxResponse) (h : collect bytes chunks = .ok body) :
    body.length ≤ maxResponse := by
  induction chunks generalizing bytes with
  | nil =>
    cases h
    exact hbytes
  | cons chunk rest ih =>
    cases chunk with
    | error e => cases h
    | ok chunk =>
      unfold collect at h
      dsimp only [bind, Except.bind] at h
      split at h
      · cases h
      · next hroom =>
        apply ih _ h
        rw [List.length_append]
        omega

theorem execute_bytes {fromSlice : Bytes → Except Text Json} {path : Text} {params : Params}
    {answer : Except Text (List (Except Text Bytes))} {now : Nat} {source : Source}
    (h : execute fromSlice path params answer now = .ok source) : source.bytes ≤ 4 * maxResponse := by
  unfold execute at h
  cases answer with
  | error e => cases h
  | ok chunks =>
    dsimp only [bind, Except.bind] at h
    cases hbytes : collect [] chunks with
    | error e =>
      rw [hbytes] at h
      cases h
    | ok bytes =>
      rw [hbytes] at h
      dsimp only at h
      have hlength := collect_length (Nat.zero_le _) hbytes
      split at h
      · cases h
      · split at h
        · cases h
        · split at h
          · cases h
          · cases h
            dsimp only
            omega

/-! ## The entries -/

/-- An entry behind its `Arc`. Times are in nanoseconds. -/
structure Entry where
  value : Option (Nat × Except Text Source)
  touched : Nat
  bytes : Nat

/-- The bytes of the result it keeps. -/
def Entry.size (e : Entry) : Nat :=
  match e.value with
  | some (_, .ok source) => source.bytes
  | _ => 0

/-- A call of `read`; `ttl` in seconds. -/
structure Call where
  path : Text
  params : Params
  ttl : Nat

/-- How far a read is; `arc` is the entry it holds. -/
inductive Stage
  /-- Waits for the entry's lock. -/
  | waiting (arc : Nat)
  /-- Has the lock, and waits for a slot. -/
  | queued (arc : Nat)
  /-- Has the lock, and runs the query. -/
  | querying (arc : Nat)
  | returned (result : Except Text Source) (at_ : Nat)

def Stage.arc : Stage → Option Nat
  | .waiting arc | .queued arc | .querying arc => some arc
  | .returned .. => none

def Stage.isQuerying : Stage → Bool
  | .querying _ => true
  | _ => false

structure Reader where
  call : Call
  stage : Stage

/-- The lock it has. -/
def Reader.lock (r : Reader) : Option Nat :=
  match r.stage with
  | .queued arc | .querying arc => some arc
  | .waiting _ | .returned .. => none

/-- A query that ran to its end. -/
structure Execution where
  call : Call
  at_ : Nat
  result : Except Text Source

structure State where
  clock : Nat
  /-- The map, in the order in which it is iterated; the entry is the `Arc`'s. -/
  entries : List (Text × Nat)
  heap : Nat → Entry
  /-- No `Arc` from here on was made yet. -/
  next : Nat
  readers : List Reader
  /-- Every query that ran to its end. -/
  log : List Execution

def State.init : State := ⟨0, [], fun _ => ⟨none, 0, 0⟩, 0, [], []⟩

def busy : Text := "Query cache is busy; retry shortly"

section Cache

-- the `Debug` text of the parameters
variable (debug : Params → Text)

def Call.key (call : Call) : Text := call.path ++ debug call.params

/-- `Arc::strong_count` of an entry of the map. -/
def State.strongCount (s : State) (arc : Nat) : Nat :=
  s.entries.countP (fun e => e.2 = arc) + s.readers.countP fun r => r.stage.arc = some arc

/-- The entries left by `evict`; none when it is an error. -/
def evict (s : State) (except : Option Text) : Option (List (Text × Nat)) :=
  match (s.entries.filter fun e => some e.1 ≠ except ∧ s.strongCount e.2 = 1).argmin
      fun e => (s.heap e.2).touched with
  | some oldest => some (s.entries.filter fun e => e.1 ≠ oldest.1)
  | none => none

theorem evict_eq {s : State} {except : Option Text} {entries : List (Text × Nat)}
    (h : evict s except = some entries) :
    ∃ oldest ∈ s.entries, some oldest.1 ≠ except ∧ s.strongCount oldest.2 = 1 ∧
      entries = s.entries.filter fun e => e.1 ≠ oldest.1 := by
  unfold evict at h
  split at h
  · next oldest hmin =>
    have hmem := List.argmin_mem hmin
    rw [List.mem_filter, decide_eq_true_eq] at hmem
    exact ⟨oldest, hmem.1, hmem.2.1, hmem.2.2, (Option.some.inj h).symm⟩
  · cases h

/-- Nothing goes only when every other entry is held. -/
theorem evict_none {s : State} {except : Option Text} (h : evict s except = none) :
    ∀ e ∈ s.entries, some e.1 ≠ except → s.strongCount e.2 ≠ 1 := by
  intro e he hne hcount
  unfold evict at h
  split at h
  · cases h
  · next hmin =>
    have hnil := List.argmin_eq_none.mp hmin
    have hmem : e ∈ s.entries.filter fun e => some e.1 ≠ except ∧ s.strongCount e.2 = 1 :=
      List.mem_filter.mpr ⟨he, decide_eq_true ⟨hne, hcount⟩⟩
    rw [hnil] at hmem
    cases hmem

theorem evict_length {s : State} {except : Option Text} {entries : List (Text × Nat)}
    (h : evict s except = some entries) : entries.length < s.entries.length := by
  obtain ⟨oldest, hmem, -, -, rfl⟩ := evict_eq h
  exact List.length_filter_lt_length_iff_exists.mpr ⟨oldest, hmem, by simp⟩

def State.touch (s : State) (arc : Nat) : State :=
  { s with heap := Function.update s.heap arc { s.heap arc with touched := s.clock } }

/-- The map, with room for an entry of the key. -/
def makeWay (s : State) (key : Text) : Option (List (Text × Nat)) :=
  if (s.entries.lookup key).isNone ∧ cacheEntries ≤ s.entries.length then evict s none else some s.entries

/-- The entry of a key, made if it is not there. -/
def State.entryOf (s : State) (key : Text) : State × Nat :=
  match s.entries.lookup key with
  | some arc => (s.touch arc, arc)
  | none =>
    ({ s with
      entries := (key, s.next) :: s.entries
      heap := Function.update s.heap s.next ⟨none, s.clock, 0⟩
      next := s.next + 1 }, s.next)

/-- The entry that a call holds; none when the cache is busy. -/
def enter (s : State) (call : Call) : Option (State × Nat) :=
  (makeWay s (call.key debug)).map fun entries => { s with entries }.entryOf (call.key debug)

def second : Nat := 1000000000

/-- How long a result is served. -/
def lifetime (call : Call) (result : Except Text Source) : Nat :=
  (if result.isOk then call.ttl else 5) * second

/-- Behind the lock: a result that is young enough, or a query of its own. -/
def behindLock (s : State) (call : Call) (arc : Nat) : Stage :=
  match (s.heap arc).value with
  | some (at_, result) => if s.clock - at_ < lifetime call result then .returned result s.clock
    else .queued arc
  | none => .queued arc

/-- The bytes of the other entries. -/
def State.others (s : State) (key : Text) : Nat :=
  ((s.entries.filter fun e => e.1 ≠ key).map fun e => (s.heap e.2).bytes).sum

/-- Evicts until the result fits; what was evicted before an error stays evicted. -/
def makeRoom (s : State) (key : Text) (bytes : Nat) : Bool × State :=
  if s.others key + bytes ≤ cacheBytes then (true, s)
  else
    match _h : evict s (some key) with
    | some entries => makeRoom { s with entries } key bytes
    | none => (false, s)
termination_by s.entries.length
decreasing_by exact evict_length _h

/-- Keep a result. -/
def State.store (s : State) (arc : Nat) (bytes : Nat) (result : Except Text Source) : State :=
  { s with heap := Function.update s.heap arc { s.heap arc with value := some (s.clock, result), bytes } }

/-- The result of the call's own query is kept and returned. -/
def settle (s : State) (call : Call) (arc : Nat) (result : Except Text Source) : State × Except Text Source :=
  match result with
  | .ok source =>
    match makeRoom s (call.key debug) source.bytes with
    | (true, s) => (s.store arc source.bytes result, result)
    | (false, s) => (s, .error busy)
  | .error _ => (s.store arc 0 result, result)

variable (fromSlice : Bytes → Except Text Json)

inductive Step : State → State → Prop
  | tick {s : State} (n : Nat) : Step s { s with clock := s.clock + n }
  /-- The order of iteration may be any other. -/
  | rehash {s : State} {entries : List (Text × Nat)} : s.entries.Perm entries → Step s { s with entries }
  | enter {s s' : State} {call : Call} {arc : Nat} : enter debug s call = some (s', arc) →
      Step s { s' with readers := ⟨call, .waiting arc⟩ :: s'.readers }
  | refuse {s : State} {call : Call} : enter debug s call = none →
      Step s { s with readers := ⟨call, .returned (.error busy) s.clock⟩ :: s.readers }
  | lock {s : State} {xs ys : List Reader} {call : Call} {arc : Nat} :
      s.readers = xs ++ ⟨call, .waiting arc⟩ :: ys → (∀ r ∈ s.readers, r.lock ≠ some arc) →
      Step s { s with readers := xs ++ ⟨call, behindLock s call arc⟩ :: ys }
  | slot {s : State} {xs ys : List Reader} {call : Call} {arc : Nat} :
      s.readers = xs ++ ⟨call, .queued arc⟩ :: ys → s.readers.countP (·.stage.isQuerying) < queryConcurrency →
      Step s { s with readers := xs ++ ⟨call, .querying arc⟩ :: ys }
  /-- The query ends. -/
  | answer {s s' : State} {xs ys : List Reader} {call : Call} {arc now : Nat}
      {result result' : Except Text Source}
      {response : Except Text (List (Except Text Bytes))} :
      s.readers = xs ++ ⟨call, .querying arc⟩ :: ys →
        execute fromSlice call.path call.params response now = result →
      settle debug s call arc result = (s', result') →
      Step s { s' with
        readers := xs ++ ⟨call, .returned result' s.clock⟩ :: ys
        log := ⟨call, s.clock, result⟩ :: s.log }
  /-- A read that is dropped where it waits. -/
  | cancel {s : State} {xs ys : List Reader} {r : Reader} : s.readers = xs ++ r :: ys →
      Step s { s with readers := xs ++ ys }

/-- Some order of steps from an empty cache. -/
def Reachable (s : State) : Prop := Relation.ReflTransGen (Step debug fromSlice) .init s

end Cache

/-! ## What holds in every state -/

section Invariant

variable (debug : Params → Text)

/-- What a call is answered: that the cache is busy, or the result of a query of its key that ended just
then or not long ago. -/
def Served (log : List Execution) (call : Call) (result : Except Text Source) (t : Nat) : Prop :=
  result = .error busy ∨ ∃ x ∈ log, x.call.key debug = call.key debug ∧ x.result = result ∧ x.at_ ≤ t ∧
    (x.at_ = t ∨ t - x.at_ < lifetime call result)

structure Inv (s : State) : Prop where
  keys : (s.entries.map Prod.fst).Nodup
  arcs : (s.entries.map Prod.snd).Nodup
  fresh : ∀ e ∈ s.entries, e.2 < s.next
  /-- What a read holds is the entry of its key. -/
  held : ∀ r ∈ s.readers, ∀ arc, r.stage.arc = some arc → (r.call.key debug, arc) ∈ s.entries
  locks : (s.readers.filterMap Reader.lock).Nodup
  slots : s.readers.countP (·.stage.isQuerying) ≤ queryConcurrency
  sizes : ∀ e ∈ s.entries, (s.heap e.2).size = (s.heap e.2).bytes
  small : ∀ e ∈ s.entries, (s.heap e.2).bytes ≤ 4 * maxResponse
  total : (s.entries.map fun e => (s.heap e.2).bytes).sum ≤ cacheBytes
  few : s.entries.length ≤ cacheEntries
  kept : ∀ e ∈ s.entries, ∀ at_ result, (s.heap e.2).value = some (at_, result) →
    at_ ≤ s.clock ∧ ∃ x ∈ s.log, x.call.key debug = e.1 ∧ x.at_ = at_ ∧ x.result = result
  served : ∀ r ∈ s.readers, ∀ result t, r.stage = .returned result t → Served debug s.log r.call result t

variable {debug} {s : State}

theorem Inv.init : Inv debug .init where
  keys := List.nodup_nil
  arcs := List.nodup_nil
  fresh := nofun
  held := nofun
  locks := List.nodup_nil
  slots := Nat.zero_le _
  sizes := nofun
  small := nofun
  total := Nat.zero_le _
  few := Nat.zero_le _
  kept := nofun
  served := nofun

/-- Entries that nobody holds may go. -/
theorem Inv.sublist (hs : Inv debug s) {entries : List (Text × Nat)} (h : entries.Sublist s.entries)
    (hheld : ∀ r ∈ s.readers, ∀ arc, r.stage.arc = some arc → (r.call.key debug, arc) ∈ entries) :
    Inv debug { s with entries } where
  keys := hs.keys.sublist (h.map _)
  arcs := hs.arcs.sublist (h.map _)
  fresh e he := hs.fresh e (h.subset he)
  held := hheld
  locks := hs.locks
  slots := hs.slots
  sizes e he := hs.sizes e (h.subset he)
  small e he := hs.small e (h.subset he)
  total := ((h.map _).sum_le_sum fun _ _ => Nat.zero_le _).trans hs.total
  few := h.length_le.trans hs.few
  kept e he := hs.kept e (h.subset he)
  served := hs.served

theorem Inv.perm (hs : Inv debug s) {entries : List (Text × Nat)} (h : s.entries.Perm entries) :
    Inv debug { s with entries } where
  keys := (h.map _).nodup_iff.mp hs.keys
  arcs := (h.map _).nodup_iff.mp hs.arcs
  fresh e he := hs.fresh e (h.mem_iff.mpr he)
  held r hr arc harc := h.mem_iff.mp (hs.held r hr arc harc)
  locks := hs.locks
  slots := hs.slots
  sizes e he := hs.sizes e (h.mem_iff.mpr he)
  small e he := hs.small e (h.mem_iff.mpr he)
  total := (h.map _).sum_eq.symm.trans_le hs.total
  few := h.length_eq.symm.trans_le hs.few
  kept e he := hs.kept e (h.mem_iff.mpr he)
  served := hs.served

/-- What a read holds is not evicted. -/
theorem Inv.evict (hs : Inv debug s) {except : Option Text} {entries : List (Text × Nat)}
    (h : evict s except = some entries) : Inv debug { s with entries } := by
  obtain ⟨oldest, hmem, -, hcount, rfl⟩ := evict_eq h
  refine hs.sublist List.filter_sublist ?_
  intro r hr arc harc
  have hentry := hs.held r hr arc harc
  refine List.mem_filter.mpr ⟨hentry, decide_eq_true ?_⟩
  intro hkey
  have heq : (r.call.key debug, arc) = oldest := List.inj_on_of_nodup_map hs.keys hentry hmem hkey
  have hmap : 0 < s.entries.countP fun e => e.2 = oldest.2 := List.countP_pos_iff.mpr ⟨oldest, hmem, by simp⟩
  have hread : 0 < s.readers.countP fun r => r.stage.arc = some oldest.2 := by
    refine List.countP_pos_iff.mpr ⟨r, hr, ?_⟩
    rw [harc, ← heq]
    exact decide_eq_true rfl
  unfold State.strongCount at hcount
  omega

/-- One read goes on. -/
theorem Inv.advance (hs : Inv debug s) {xs ys : List Reader} {a b : Reader} (hr : s.readers = xs ++ a :: ys)
    (hcall : b.call = a.call) (harc : ∀ arc, b.stage.arc = some arc → a.stage.arc = some arc)
    (hlock : ∀ arc, b.lock = some arc → a.lock = some arc ∨ ∀ r ∈ s.readers, r.lock ≠ some arc)
    (hslot : b.stage.isQuerying = true → s.readers.countP (·.stage.isQuerying) < queryConcurrency)
    (hserved : ∀ result t, b.stage = .returned result t → Served debug s.log b.call result t) :
    Inv debug { s with readers := xs ++ b :: ys } := by
  have hmem : ∀ r ∈ xs ++ ys, r ∈ s.readers := by
    intro r h
    rw [hr, List.mem_append, List.mem_cons]
    rcases List.mem_append.mp h with h | h
    · exact Or.inl h
    · exact Or.inr (Or.inr h)
  have ha : a ∈ s.readers := by
    rw [hr]
    exact List.mem_append_right _ List.mem_cons_self
  have hold : s.readers.Perm (a :: (xs ++ ys)) := hr ▸ List.perm_middle
  have hnew : (xs ++ b :: ys).Perm (b :: (xs ++ ys)) := List.perm_middle
  have hcases : ∀ r ∈ xs ++ b :: ys, r = b ∨ r ∈ xs ++ ys := fun r h => List.mem_cons.mp (hnew.mem_iff.mp h)
  refine { hs with
    held := ?_
    locks := ?_
    slots := ?_
    served := ?_ }
  · intro r h arc h'
    rcases hcases r h with rfl | h
    · rw [hcall]
      exact hs.held a ha arc (harc arc h')
    · exact hs.held r (hmem r h) arc h'
  · have hlocks := (hold.filterMap Reader.lock).nodup_iff.mp hs.locks
    refine (hnew.filterMap Reader.lock).nodup_iff.mpr ?_
    have hrest : ((xs ++ ys).filterMap Reader.lock).Nodup :=
      hlocks.sublist ((List.sublist_cons_self a _).filterMap _)
    cases hb : b.lock with
    | none =>
      rw [List.filterMap_cons_none hb]
      exact hrest
    | some arc =>
      rw [List.filterMap_cons_some hb, List.nodup_cons]
      refine ⟨?_, hrest⟩
      rcases hlock arc hb with ha' | hfree
      · rw [List.filterMap_cons_some ha', List.nodup_cons] at hlocks
        exact hlocks.1
      · intro h
        obtain ⟨r, h, hr'⟩ := List.mem_filterMap.mp h
        exact hfree r (hmem r h) hr'
  · have hslots := hs.slots
    rw [hold.countP_eq, List.countP_cons] at hslots hslot
    dsimp only
    rw [hnew.countP_eq, List.countP_cons]
    split
    · next hb =>
      have := hslot hb
      omega
    · omega
  · intro r h result t hstage
    rcases hcases r h with rfl | h
    · exact hserved result t hstage
    · exact hs.served r (hmem r h) result t hstage

/-- A read that comes. -/
theorem Inv.join (hs : Inv debug s) {b : Reader}
    (hheld : ∀ arc, b.stage.arc = some arc → (b.call.key debug, arc) ∈ s.entries) (hlock : b.lock = none)
    (hslot : b.stage.isQuerying = false)
    (hserved : ∀ result t, b.stage = .returned result t → Served debug s.log b.call result t) :
    Inv debug { s with readers := b :: s.readers } := by
  refine { hs with
    held := ?_
    locks := ?_
    slots := ?_
    served := ?_ }
  · intro r h arc harc
    rcases List.mem_cons.mp h with rfl | h
    · exact hheld arc harc
    · exact hs.held r h arc harc
  · rw [List.filterMap_cons_none hlock]
    exact hs.locks
  · rw [List.countP_cons_of_neg (by rw [hslot]; exact Bool.false_ne_true)]
    exact hs.slots
  · intro r h result t hstage
    rcases List.mem_cons.mp h with rfl | h
    · exact hserved result t hstage
    · exact hs.served r h result t hstage

theorem Inv.leave (hs : Inv debug s) {xs ys : List Reader} {a : Reader} (hr : s.readers = xs ++ a :: ys) :
    Inv debug { s with readers := xs ++ ys } := by
  have hsub : (xs ++ ys).Sublist s.readers := by
    rw [hr]
    exact (List.sublist_cons_self a ys).append_left xs
  exact { hs with
    held := fun r h => hs.held r (hsub.subset h)
    locks := hs.locks.sublist (hsub.filterMap _)
    slots := (hsub.countP_le).trans hs.slots
    served := fun r h => hs.served r (hsub.subset h) }

/-! ## The steps -/

theorem lookup_none {l : List (Text × Nat)} {key : Text} (h : l.lookup key = none) :
    key ∉ l.map Prod.fst := by
  intro hmem
  obtain ⟨e, he, rfl⟩ := List.mem_map.mp hmem
  have := List.lookup_eq_none_iff.mp h e he
  simp at this

theorem mem_of_lookup {l : List (Text × Nat)} {key : Text} {arc : Nat} (h : l.lookup key = some arc) :
    (key, arc) ∈ l := by
  obtain ⟨l₁, l₂, rfl, -⟩ := List.lookup_eq_some_iff.mp h
  simp

/-- A change of the heap that leaves the entries' results alone. -/
theorem Inv.heap (hs : Inv debug s) (heap : Nat → Entry) {next : Nat} (hnext : s.next ≤ next)
    (hvalue : ∀ e ∈ s.entries, (heap e.2).value = (s.heap e.2).value)
    (hbytes : ∀ e ∈ s.entries, (heap e.2).bytes = (s.heap e.2).bytes) : Inv debug { s with heap, next } := by
  refine { hs with
    fresh := fun e he => (hs.fresh e he).trans_le hnext
    sizes := ?_
    small := ?_
    total := ?_
    kept := ?_ }
  · intro e he
    have hsize : (heap e.2).size = (s.heap e.2).size := by
      unfold Entry.size
      rw [hvalue e he]
    exact hsize.trans ((hs.sizes e he).trans (hbytes e he).symm)
  · intro e he
    exact (hbytes e he).trans_le (hs.small e he)
  · have hmap : (s.entries.map fun e => (heap e.2).bytes) = s.entries.map fun e => (s.heap e.2).bytes :=
      List.map_congr_left hbytes
    dsimp only
    rw [hmap]
    exact hs.total
  · intro e he at_ result h
    exact hs.kept e he at_ result ((hvalue e he).symm.trans h)

theorem Inv.touch (hs : Inv debug s) (arc : Nat) : Inv debug (s.touch arc) := by
  refine hs.heap _ (le_refl s.next) ?_ ?_ <;> intro e _
  all_goals
    by_cases h : e.2 = arc
    · rw [h, Function.update_self]
    · rw [Function.update_of_ne h]

/-- The entry of a key that has none. -/
theorem Inv.insert (hs : Inv debug s) {key : Text} (hkey : key ∉ s.entries.map Prod.fst)
    (hfew : s.entries.length < cacheEntries) :
    Inv debug { s with
      entries := (key, s.next) :: s.entries
      heap := Function.update s.heap s.next ⟨none, s.clock, 0⟩
      next := s.next + 1 } := by
  have hne : ∀ e ∈ s.entries, e.2 ≠ s.next := fun e he => (hs.fresh e he).ne
  have hold : ∀ e ∈ s.entries, Function.update s.heap s.next ⟨none, s.clock, 0⟩ e.2 = s.heap e.2 :=
    fun e he => Function.update_of_ne (hne e he) _ _
  have hnew : Function.update s.heap s.next ⟨none, s.clock, 0⟩ s.next = ⟨none, s.clock, 0⟩ :=
    Function.update_self _ _ _
  have hheap := hs.heap (Function.update s.heap s.next ⟨none, s.clock, 0⟩) (Nat.le_succ s.next)
    (fun e he => by rw [hold e he]) (fun e he => by rw [hold e he])
  refine { hheap with
    keys := List.nodup_cons.mpr ⟨hkey, hs.keys⟩
    arcs := List.nodup_cons.mpr ⟨?_, hs.arcs⟩
    fresh := ?_
    held := fun r hr arc harc => List.mem_cons_of_mem _ (hs.held r hr arc harc)
    sizes := ?_
    small := ?_
    total := ?_
    few := hfew
    kept := ?_ }
  · intro h
    obtain ⟨e, he, heq⟩ := List.mem_map.mp h
    exact hne e he heq
  · exact List.forall_mem_cons.mpr ⟨Nat.lt_succ_self _, hheap.fresh⟩
  · refine List.forall_mem_cons.mpr ⟨?_, hheap.sizes⟩
    dsimp only
    rw [hnew]
    rfl
  · refine List.forall_mem_cons.mpr ⟨?_, hheap.small⟩
    dsimp only
    rw [hnew]
    exact Nat.zero_le _
  · dsimp only
    rw [List.map_cons, List.sum_cons, hnew, Nat.zero_add]
    exact hheap.total
  · refine List.forall_mem_cons.mpr ⟨?_, hheap.kept⟩
    intro at_ result h
    dsimp only at h
    rw [hnew] at h
    cases h

/-- A map without the key has room for it. -/
theorem makeWay_spec (hs : Inv debug s) {key : Text} {entries : List (Text × Nat)}
    (h : makeWay s key = some entries) :
    Inv debug { s with entries } ∧ (entries.lookup key = none → entries.length < cacheEntries) := by
  unfold makeWay at h
  split at h
  · refine ⟨hs.evict h, fun _ => ?_⟩
    have hless := evict_length h
    have hfew := hs.few
    omega
  · next hroom =>
    cases h
    refine ⟨hs, fun hnone => ?_⟩
    rw [hnone] at hroom
    simpa using hroom

theorem entryOf_spec (hs : Inv debug s) {key : Text}
    (hroom : s.entries.lookup key = none → s.entries.length < cacheEntries) :
    Inv debug (s.entryOf key).1 ∧ (key, (s.entryOf key).2) ∈ (s.entryOf key).1.entries := by
  unfold State.entryOf
  split
  · next arc hlookup => exact ⟨hs.touch arc, mem_of_lookup hlookup⟩
  · next hlookup => exact ⟨hs.insert (lookup_none hlookup) (hroom hlookup), List.mem_cons_self⟩

/-- The entry that a call gets is that of its key. -/
theorem enter_spec (hs : Inv debug s) {s' : State} {call : Call} {arc : Nat}
    (h : enter debug s call = some (s', arc)) :
    Inv debug s' ∧ (call.key debug, arc) ∈ s'.entries := by
  obtain ⟨entries, hway, heq⟩ := Option.map_eq_some_iff.mp h
  obtain ⟨hroom, hlength⟩ := makeWay_spec hs hway
  have hentry := entryOf_spec hroom hlength
  rw [heq] at hentry
  exact hentry

/-- Room is made without touching anything else. -/
theorem makeRoom_spec (hs : Inv debug s) (key : Text) (bytes : Nat) : ∃ entries,
    (makeRoom s key bytes).2 = { s with entries } ∧ Inv debug { s with entries } ∧
      ((makeRoom s key bytes).1 = true → { s with entries }.others key + bytes ≤ cacheBytes) := by
  fun_induction makeRoom s key bytes with
  | case1 s hfits => exact ⟨s.entries, rfl, hs, fun _ => hfits⟩
  | case2 s hfull entries hevict ih => exact ih (hs.evict hevict)
  | case3 s hfull hevict => exact ⟨s.entries, rfl, hs, nofun⟩

/-- The bytes of one entry and of the others. -/
theorem sum_others (hs : Inv debug s) {key : Text} {arc : Nat} (h : (key, arc) ∈ s.entries) (f : Nat → Nat) :
    (s.entries.map fun e => f e.2).sum = f arc +
    ((s.entries.filter fun e => e.1 ≠ key).map fun e => f e.2).sum := by
  have hkeys := hs.keys
  generalize s.entries = l at h hkeys
  induction l with
  | nil => cases h
  | cons e rest ih =>
    rw [List.map_cons, List.nodup_cons] at hkeys
    rw [List.map_cons, List.sum_cons]
    rcases List.mem_cons.mp h with rfl | h
    · have hrest : (rest.filter fun e => e.1 ≠ key) = rest := by
        refine List.filter_eq_self.mpr fun e he => decide_eq_true ?_
        exact fun heq => hkeys.1 (List.mem_map.mpr ⟨e, he, heq⟩)
      rw [List.filter_cons_of_neg (by simp), hrest]
    · have hne : e.1 ≠ key := fun heq => hkeys.1 (List.mem_map.mpr ⟨(key, arc), h, heq.symm⟩)
      rw [List.filter_cons_of_pos (by simpa using hne), List.map_cons, List.sum_cons, ih h hkeys.2]
      omega

/-- A result that fits is kept. -/
theorem Inv.store (hs : Inv debug s) {call : Call} {arc bytes : Nat} (result : Except Text Source)
    (hentry : (call.key debug, arc) ∈ s.entries)
    (hsize : (⟨some (s.clock, result), 0, bytes⟩ : Entry).size = bytes)
    (hsmall : bytes ≤ 4 * maxResponse) (hfits : s.others (call.key debug) + bytes ≤ cacheBytes) :
    Inv debug { s.store arc bytes result with log := ⟨call, s.clock, result⟩ :: s.log } := by
  have hself : (s.store arc bytes result).heap arc =
      { s.heap arc with value := some (s.clock, result), bytes } :=
    Function.update_self _ _ _
  have hother : ∀ e ∈ s.entries, e.2 ≠ arc → (s.store arc bytes result).heap e.2 = s.heap e.2 :=
    fun e _ hne => Function.update_of_ne hne _ _
  have hkey : ∀ e ∈ s.entries, e.2 = arc → e.1 = call.key debug := by
    intro e he heq
    rw [List.inj_on_of_nodup_map hs.arcs he hentry heq]
  have hlog : ∀ x ∈ s.log, x ∈ (⟨call, s.clock, result⟩ : Execution) :: s.log :=
    fun x hx => List.mem_cons_of_mem _ hx
  refine ⟨hs.keys, hs.arcs, hs.fresh, hs.held, hs.locks, hs.slots, ?_, ?_, ?_, hs.few, ?_, ?_⟩
  · intro e he
    by_cases heq : e.2 = arc
    · rw [heq]
      dsimp only
      rw [hself]
      exact hsize
    · dsimp only
      rw [hother e he heq]
      exact hs.sizes e he
  · intro e he
    by_cases heq : e.2 = arc
    · rw [heq]
      dsimp only
      rw [hself]
      exact hsmall
    · dsimp only
      rw [hother e he heq]
      exact hs.small e he
  · have hsum := sum_others hs hentry fun arc' => ((s.store arc bytes result).heap arc').bytes
    have hrest : ((s.entries.filter fun e => e.1 ≠ call.key debug).map fun e =>
        ((s.store arc bytes result).heap e.2).bytes) =
        (s.entries.filter fun e => e.1 ≠ call.key debug).map fun e => (s.heap e.2).bytes := by
      refine List.map_congr_left fun e he => ?_
      obtain ⟨he, hne⟩ := List.mem_filter.mp he
      rw [hother e he fun heq => of_decide_eq_true hne (hkey e he heq)]
    rw [hrest, hself] at hsum
    dsimp only at hsum ⊢
    rw [show (s.store arc bytes result).entries = s.entries from rfl, hsum, Nat.add_comm]
    exact hfits
  · intro e he at_ result' h
    by_cases heq : e.2 = arc
    · rw [heq] at h
      dsimp only at h
      rw [hself] at h
      cases h
      exact ⟨le_refl _, _, List.mem_cons_self, (hkey e he heq).symm, rfl, rfl⟩
    · dsimp only at h
      rw [hother e he heq] at h
      obtain ⟨hle, x, hx, hprops⟩ := hs.kept e he at_ result' h
      exact ⟨hle, x, hlog x hx, hprops⟩
  · intro r hr result' t hstage
    rcases hs.served r hr result' t hstage with hbusy | ⟨x, hx, hprops⟩
    · exact Or.inl hbusy
    · exact Or.inr ⟨x, hlog x hx, hprops⟩

theorem Inv.log (hs : Inv debug s) (x : Execution) : Inv debug { s with log := x :: s.log } := by
  refine { hs with
    kept := ?_
    served := ?_ }
  · intro e he at_ result h
    obtain ⟨hle, x', hx, hprops⟩ := hs.kept e he at_ result h
    exact ⟨hle, x', List.mem_cons_of_mem _ hx, hprops⟩
  · intro r hr result t hstage
    rcases hs.served r hr result t hstage with hbusy | ⟨x', hx, hprops⟩
    · exact Or.inl hbusy
    · exact Or.inr ⟨x', List.mem_cons_of_mem _ hx, hprops⟩

/-- A query that ends. -/
theorem Inv.answer (hs : Inv debug s) {s' : State} {xs ys : List Reader} {call : Call} {arc : Nat}
    {result result' : Except Text Source} (hr : s.readers = xs ++ ⟨call, .querying arc⟩ :: ys)
    (hsmall : ∀ source, result = .ok source → source.bytes ≤ 4 * maxResponse)
    (h : settle debug s call arc result = (s', result')) :
    Inv debug { s' with
      readers := xs ++ ⟨call, .returned result' s.clock⟩ :: ys
      log := ⟨call, s.clock, result⟩ :: s.log } := by
  have hreader : (⟨call, .querying arc⟩ : Reader) ∈ s.readers := by
    rw [hr]
    exact List.mem_append_right _ List.mem_cons_self
  -- the same read afterwards
  have hgoes : ∀ {t : State}, Inv debug t → t.readers = s.readers → Served debug t.log call result' s.clock →
      Inv debug { t with readers := xs ++ ⟨call, .returned result' s.clock⟩ :: ys } := by
    intro t ht hreaders hserved
    refine ht.advance (a := ⟨call, .querying arc⟩) (hreaders.trans hr) rfl nofun nofun nofun ?_
    intro r t hstage
    cases hstage
    exact hserved
  cases result with
  | ok source =>
    obtain ⟨entries, heq, hroom, hfits⟩ := makeRoom_spec hs (call.key debug) source.bytes
    unfold settle at h
    dsimp only at h
    split at h
    · next hmade =>
      rw [hmade] at heq hfits
      cases heq
      cases h
      have hstored := hroom.store (.ok source) (hroom.held _ hreader arc rfl) rfl
        (hsmall source rfl) (hfits rfl)
      exact hgoes hstored rfl (Or.inr ⟨_, List.mem_cons_self, rfl, rfl, le_refl _, Or.inl rfl⟩)
    · next hmade =>
      rw [hmade] at heq
      cases heq
      cases h
      exact hgoes (hroom.log _) rfl (Or.inl rfl)
  | error e =>
    cases h
    have hentry := hs.held _ hreader arc rfl
    have hfits : s.others (call.key debug) + 0 ≤ cacheBytes := by
      have hsum := sum_others hs hentry fun arc' => (s.heap arc').bytes
      have htotal := hs.total
      rw [hsum] at htotal
      exact (Nat.le_add_left _ _).trans htotal
    have hstored := hs.store (.error e) hentry rfl (Nat.zero_le _) hfits
    exact hgoes hstored rfl (Or.inr ⟨_, List.mem_cons_self, rfl, rfl, le_refl _, Or.inl rfl⟩)

variable {fromSlice : Bytes → Except Text Json}

theorem entryOf_same (s : State) (key : Text) :
    (s.entryOf key).1.readers = s.readers ∧ (s.entryOf key).1.log = s.log := by
  unfold State.entryOf
  split <;> exact ⟨rfl, rfl⟩

theorem enter_log {s' : State} {call : Call} {arc : Nat} (h : enter debug s call = some (s', arc)) :
    s'.log = s.log := by
  obtain ⟨entries, -, heq⟩ := Option.map_eq_some_iff.mp h
  have hsame := (entryOf_same { s with entries } (call.key debug)).2
  rw [heq] at hsame
  exact hsame

/-- **Every step** keeps the cache in order. -/
theorem Inv.step {s' : State} (hs : Inv debug s) (h : Step debug fromSlice s s') : Inv debug s' := by
  cases h with
  | tick n =>
    refine { hs with kept := ?_ }
    intro e he at_ result h
    obtain ⟨hle, hx⟩ := hs.kept e he at_ result h
    exact ⟨hle.trans (Nat.le_add_right _ n), hx⟩
  | rehash hperm => exact hs.perm hperm
  | enter h =>
    obtain ⟨hs', hentry⟩ := enter_spec hs h
    refine hs'.join ?_ rfl rfl nofun
    intro arc' harc
    cases harc
    exact hentry
  | refuse h =>
    refine hs.join nofun rfl rfl ?_
    intro result t hstage
    cases hstage
    exact Or.inl rfl
  | @lock xs ys call arc hr hfree =>
    have hreader : (⟨call, .waiting arc⟩ : Reader) ∈ s.readers := by
      rw [hr]
      exact List.mem_append_right _ List.mem_cons_self
    refine hs.advance (a := ⟨call, .waiting arc⟩) hr rfl ?_ ?_ ?_ ?_ <;> dsimp only [behindLock]
    · intro arc' harc
      split at harc
      · split at harc
        · cases harc
        · exact harc
      · exact harc
    · intro arc' hlock
      refine Or.inr ?_
      split at hlock
      · split at hlock
        · cases hlock
        · cases hlock
          exact hfree
      · cases hlock
        exact hfree
    · intro hquerying
      split at hquerying
      · split at hquerying <;> cases hquerying
      · cases hquerying
    · intro result t hstage
      split at hstage
      · next at_ result' hvalue =>
        split at hstage
        · next hyoung =>
          cases hstage
          obtain ⟨hle, x, hx, hkey, rfl, rfl⟩ := hs.kept _ (hs.held _ hreader arc rfl) at_ result hvalue
          exact Or.inr ⟨x, hx, hkey, rfl, hle, Or.inr hyoung⟩
        · cases hstage
      · cases hstage
  | slot hr hslot => exact hs.advance hr rfl (fun _ h => h) (fun _ h => Or.inl h) (fun _ => hslot) nofun
  | answer hr hresult h =>
    refine hs.answer hr ?_ h
    rintro source rfl
    exact execute_bytes hresult
  | cancel hr => exact hs.leave hr

theorem Reachable.inv (h : Reachable debug fromSlice s) : Inv debug s := by
  induction h with
  | refl => exact Inv.init
  | tail _ hstep ih => exact ih.step hstep

/-- What is logged was run. -/
theorem Reachable.ran (h : Reachable debug fromSlice s) : ∀ x ∈ s.log, ∃ response now,
    execute fromSlice x.call.path x.call.params response now = x.result := by
  induction h with
  | refl => exact nofun
  | tail _ hstep ih =>
    cases hstep with
    | enter h =>
      rw [enter_log h]
      exact ih
    | answer hr hresult h => exact List.forall_mem_cons.mpr ⟨⟨_, _, hresult⟩, ih⟩
    | _ => exact ih

/-- **The cache in every order of steps.** It stays in its bounds, no two reads run the query of one
key, at most four run at all, and a read gets the result of its own query or of one of its key that
ended within the lifetime, or the answer that the cache is busy. -/
theorem cache_safe (h : Reachable debug fromSlice s) :
    (s.entries.map fun e => (s.heap e.2).size).sum ≤ cacheBytes ∧ s.entries.length ≤ cacheEntries ∧
      (s.readers.Pairwise fun a b => a.stage.isQuerying = true → b.stage.isQuerying = true →
        a.call.key debug ≠ b.call.key debug) ∧
      s.readers.countP (·.stage.isQuerying) ≤ queryConcurrency ∧
      ∀ r ∈ s.readers, ∀ result t, r.stage = .returned result t → result = .error busy ∨
        ∃ x ∈ s.log, x.call.key debug = r.call.key debug ∧ x.result = result ∧
          (∃ response now, execute fromSlice x.call.path x.call.params response now = x.result) ∧
          x.at_ ≤ t ∧ (x.at_ = t ∨ t - x.at_ < lifetime r.call result) := by
  have hs := h.inv
  refine ⟨?_, hs.few, ?_, hs.slots, ?_⟩
  · rw [List.map_congr_left hs.sizes]
    exact hs.total
  · have hlocks := List.pairwise_filterMap.mp hs.locks
    refine hlocks.imp_of_mem ?_
    intro a b ha hb hne hqa hqb hkey
    -- the readers of one key hold one entry
    cases hastage : a.stage with
    | querying arc =>
      cases hbstage : b.stage with
      | querying arc' =>
        have hentry := hs.held a ha arc (by rw [hastage]; rfl)
        have hentry' := hs.held b hb arc' (by rw [hbstage]; rfl)
        have heq := congrArg Prod.snd (List.inj_on_of_nodup_map hs.keys hentry hentry' hkey)
        exact hne arc (by rw [Reader.lock, hastage]) arc' (by rw [Reader.lock, hbstage]) heq
      | _ =>
        rw [hbstage] at hqb
        cases hqb
    | _ =>
      rw [hastage] at hqa
      cases hqa
  · intro r hr result t hstage
    rcases hs.served r hr result t hstage with hbusy | ⟨x, hx, hkey, rfl, hle, hage⟩
    · exact Or.inl hbusy
    · exact Or.inr ⟨x, hx, hkey, rfl, h.ran x hx, hle, hage⟩

/-! ## When a read is refused -/

/-- Entries that only reads hold: as many reads. -/
theorem holders_of_entries (hs : Inv debug s) {l : List (Text × Nat)} (hl : l.Nodup) (hsub : l ⊆ s.entries)
    (hheld : ∀ e ∈ l, ∃ r ∈ s.readers, r.stage.arc = some e.2) :
    l.length ≤ s.readers.countP fun r => r.stage.arc.isSome := by
  have hnodup : (l.map Prod.snd).Nodup :=
    hl.map_on fun e he e' he' heq => List.inj_on_of_nodup_map hs.arcs (hsub he) (hsub he') heq
  have hsubset : l.map Prod.snd ⊆ s.readers.filterMap fun r => r.stage.arc := by
    intro arc harc
    obtain ⟨e, he, rfl⟩ := List.mem_map.mp harc
    obtain ⟨r, hr, hstage⟩ := hheld e he
    exact List.mem_filterMap.mpr ⟨r, hr, hstage⟩
  have hle := (hnodup.subperm hsubset).length_le
  rw [List.length_map, List.length_filterMap_eq_countP] at hle
  exact hle

/-- An entry that cannot go is held. -/
theorem held_of_strongCount (hs : Inv debug s) {e : Text × Nat} (he : e ∈ s.entries)
    (h : s.strongCount e.2 ≠ 1) :
    ∃ r ∈ s.readers, r.stage.arc = some e.2 := by
  have hone : s.entries.countP (fun e' => e'.2 = e.2) = 1 := by
    have hcount := List.count_eq_one_of_mem hs.arcs (List.mem_map_of_mem he)
    rw [List.count, List.countP_map] at hcount
    rw [← hcount]
    exact List.countP_congr fun e' _ => by simp [Function.comp]
  have hpos : 0 < s.readers.countP fun r => r.stage.arc = some e.2 := by
    unfold State.strongCount at h
    omega
  obtain ⟨r, hr, hstage⟩ := List.countP_pos_iff.mp hpos
  exact ⟨r, hr, of_decide_eq_true hstage⟩

theorem makeRoom_refused (hs : Inv debug s) {key : Text} {bytes : Nat} {s' : State}
    (h : makeRoom s key bytes = (false, s')) :
    ∃ entries, s' = { s with entries } ∧ Inv debug s' ∧ cacheBytes < s'.others key + bytes ∧
      evict s' (some key) = none := by
  fun_induction makeRoom s key bytes with
  | case1 s hfits => cases h
  | case2 s hfull entries hevict ih => exact ih (hs.evict hevict) h
  | case3 s hfull hevict =>
    cases h
    exact ⟨s'.entries, rfl, hs, not_le.mp hfull, hevict⟩

/-- **A read is refused only while others are at work**: a new one while each of the 96 entries is held
by a read, and one whose result does not fit while at least four reads hold entries. -/
theorem refused_only_when_held (h : Reachable debug fromSlice s) (call : Call) :
    (enter debug s call = none → cacheEntries ≤ s.readers.countP fun r => r.stage.arc.isSome) ∧
      ∀ (arc : Nat) (response : Except Text (List (Except Text Bytes))) (now : Nat) (s' : State),
        ⟨call, .querying arc⟩ ∈ s.readers →
        settle debug s call arc (execute fromSlice call.path call.params response now) = (s', .error busy) →
        execute fromSlice call.path call.params response now ≠ .error busy →
        4 ≤ s.readers.countP fun r => r.stage.arc.isSome := by
  have hs := h.inv
  refine ⟨fun hnone => ?_, fun arc response now s' hreader hsettle hresult => ?_⟩
  · have hway : makeWay s (call.key debug) = none := Option.map_eq_none_iff.mp hnone
    unfold makeWay at hway
    split at hway
    · next hfull =>
      refine hfull.2.trans (holders_of_entries hs hs.keys.of_map (List.Subset.refl _) fun e he => ?_)
      exact held_of_strongCount hs he (evict_none hway e he nofun)
    · cases hway
  · cases hexecuted : execute fromSlice call.path call.params response now with
    | error e =>
      rw [hexecuted] at hsettle hresult
      cases hsettle
      exact absurd rfl hresult
    | ok source =>
      rw [hexecuted] at hsettle
      have hsmall := execute_bytes hexecuted
      unfold settle at hsettle
      dsimp only at hsettle
      split at hsettle
      · cases hsettle
      · next s₁ hmade =>
        obtain ⟨entries, rfl, hs₁, hfull, hevict⟩ := makeRoom_refused hs hmade
        -- more than eight of twelve mebibytes are in other entries, of four at most each
        have hothers : 3 ≤ (entries.filter fun e => e.1 ≠ call.key debug).length := by
          have hsum := List.sum_le_card_nsmul
            ((entries.filter fun e => e.1 ≠ call.key debug).map fun e => (s.heap e.2).bytes)
            (4 * maxResponse) (by
              intro n hn
              obtain ⟨e, he, rfl⟩ := List.mem_map.mp hn
              exact hs₁.small e (List.mem_of_mem_filter he))
          rw [List.length_map, smul_eq_mul] at hsum
          unfold State.others at hfull
          dsimp only at hfull
          unfold cacheBytes maxResponse at *
          omega
        have hown := hs₁.held _ hreader arc rfl
        have hcons : ((call.key debug, arc) :: entries.filter fun e => e.1 ≠ call.key debug).Nodup :=
          List.nodup_cons.mpr ⟨by simp, (hs₁.keys.of_map).filter _⟩
        have hholders := holders_of_entries hs₁ hcons
          (List.cons_subset.mpr ⟨hown, List.filter_subset_self _⟩) (by
          refine List.forall_mem_cons.mpr ⟨⟨_, hreader, rfl⟩, fun e he => ?_⟩
          obtain ⟨he, hne⟩ := List.mem_filter.mp he
          refine held_of_strongCount hs₁ he (evict_none hevict e he ?_)
          exact fun heq => of_decide_eq_true hne (Option.some.inj heq))
        rw [List.length_cons] at hholders
        dsimp only at hholders
        omega

end Invariant

/-! ## One query -/

def upCall : Call := ⟨"/api/v1/query", [("query", "up")], 60⟩

def plainParams (params : Params) : Text := params.flatMap fun p => p.1 ++ p.2

def unreadable (_ : Bytes) : Except Text Json := .error "expected value"

/-- A read that runs its query. -/
def querying : State where
  clock := 0
  entries := [(upCall.key plainParams, 0)]
  heap := Function.update State.init.heap 0 ⟨none, 0, 0⟩
  next := 1
  readers := [⟨upCall, .querying 0⟩]
  log := []

theorem querying_reachable : Reachable plainParams unreadable querying := by
  have henter : enter plainParams .init upCall = some (⟨0, [(upCall.key plainParams, 0)],
      Function.update State.init.heap 0 ⟨none, 0, 0⟩, 1, [], []⟩, 0) := rfl
  refine ((Relation.ReflTransGen.single (.enter henter)).tail
    (.lock (show _ = [] ++ (⟨upCall, .waiting 0⟩ : Reader) :: [] from rfl) ?_)).tail
    (.slot (show _ = [] ++ (⟨upCall, .queued 0⟩ : Reader) :: [] from rfl) (by decide))
  intro r hr
  rw [List.mem_singleton.mp hr]
  exact nofun

def refusedConnection : Except Text Source := .error "connection refused"

/-- The query failed. -/
def answered : State :=
  { querying.store 0 0 refusedConnection with
    readers := [⟨upCall, .returned refusedConnection 0⟩]
    log := [⟨upCall, 0, refusedConnection⟩] }

/-- A second later another read is given the same error. -/
def served : State :=
  { { answered with clock := second }.touch 0 with
    readers := [⟨upCall, .returned refusedConnection second⟩, ⟨upCall, .returned refusedConnection 0⟩] }

theorem served_reachable : Reachable plainParams unreadable served := by
  have hanswered : Reachable plainParams unreadable answered :=
    querying_reachable.tail (.answer (show _ = [] ++ (⟨upCall, .querying 0⟩ : Reader) :: [] from rfl)
      (show execute unreadable upCall.path upCall.params (.error "connection refused") 0 = _ from rfl) rfl)
  have htick : Reachable plainParams unreadable { answered with clock := second } :=
    hanswered.tail (.tick second)
  have henter : enter plainParams { answered with clock := second } upCall =
      some ({ answered with clock := second }.touch 0, 0) := rfl
  refine (htick.tail (.enter henter)).tail
    (.lock (show _ = [] ++ (⟨upCall, .waiting 0⟩ : Reader) ::
      [⟨upCall, .returned refusedConnection 0⟩] from rfl) ?_)
  intro r hr
  rcases List.mem_cons.mp hr with rfl | hr
  · exact nofun
  · rw [List.mem_singleton.mp hr]
    exact nofun

theorem cache_safe_served : ∃ x ∈ served.log, x.call.key plainParams = upCall.key plainParams ∧
    x.result = refusedConnection ∧ x.at_ ≤ second ∧ second - x.at_ < lifetime upCall refusedConnection := by
  obtain ⟨-, -, -, -, h⟩ := cache_safe served_reachable
  rcases h ⟨upCall, .returned refusedConnection second⟩ List.mem_cons_self _ _ rfl with hbusy | ⟨x, hx,
    hkey, hresult, -, hle, hage⟩
  · exact absurd (Except.error.inj hbusy) (by decide)
  · refine ⟨x, hx, hkey, hresult, hle, hage.resolve_left fun hnow => ?_⟩
    rw [List.mem_singleton.mp hx] at hnow
    exact absurd hnow (by decide)

/-! ## A full cache -/

def numberedCall (n : Nat) : Call := ⟨Text.ofNat n, [], 60⟩

/-- So many reads that wait for entries of their own. -/
def crowd : Nat → State
  | 0 => .init
  | n + 1 =>
    { crowd n with
      entries := ((numberedCall n).key plainParams, n) :: (crowd n).entries
      heap := Function.update (crowd n).heap n ⟨none, 0, 0⟩
      next := n + 1
      readers := ⟨numberedCall n, .waiting n⟩ :: (crowd n).readers }

theorem key_numberedCall (n : Nat) : (numberedCall n).key plainParams = Text.ofNat n := List.append_nil _

theorem crowd_clock (n : Nat) : (crowd n).clock = 0 := by
  induction n with
  | zero => rfl
  | succ n ih => exact ih

theorem crowd_next (n : Nat) : (crowd n).next = n := by cases n <;> rfl

theorem crowd_entries (n : Nat) :
    (crowd n).entries = (List.range n).reverse.map fun i => (Text.ofNat i, i) := by
  induction n with
  | zero => rfl
  | succ n ih =>
    rw [List.range_succ, List.reverse_append, List.reverse_singleton,
      List.singleton_append, List.map_cons, ← ih,
      ← key_numberedCall]
    rfl

theorem crowd_readers (n : Nat) :
    (crowd n).readers = (List.range n).reverse.map fun i => ⟨numberedCall i, .waiting i⟩ := by
  induction n with
  | zero => rfl
  | succ n ih =>
    rw [List.range_succ, List.reverse_append, List.reverse_singleton,
      List.singleton_append, List.map_cons, ← ih]
    rfl

theorem lookup_crowd (n : Nat) : (crowd n).entries.lookup (Text.ofNat n) = none := by
  rw [crowd_entries, List.lookup_eq_none_iff]
  intro e he
  obtain ⟨i, hi, rfl⟩ := List.mem_map.mp he
  have hlt : i < n := List.mem_range.mp (List.mem_reverse.mp hi)
  exact bne_iff_ne.mpr fun h => (Nat.ne_of_lt hlt) (Text.ofNat_inj h).symm

theorem length_crowd (n : Nat) : (crowd n).entries.length = n := by
  rw [crowd_entries, List.length_map, List.length_reverse, List.length_range]

theorem enter_crowd {n : Nat} (h : n < cacheEntries) : enter plainParams (crowd n) (numberedCall n) =
    some ({ crowd n with
      entries := ((numberedCall n).key plainParams, n) :: (crowd n).entries
      heap := Function.update (crowd n).heap n ⟨none, 0, 0⟩
      next := n + 1 }, n) := by
  have hway : makeWay (crowd n) ((numberedCall n).key plainParams) = some (crowd n).entries := by
    unfold makeWay
    rw [length_crowd, if_neg fun hfull => absurd hfull.2 (Nat.not_le.mpr h)]
  unfold enter
  rw [hway, Option.map_some]
  unfold State.entryOf
  dsimp only
  rw [key_numberedCall, lookup_crowd]
  dsimp only
  rw [crowd_next, crowd_clock]

theorem crowd_reachable {n : Nat} (h : n ≤ cacheEntries) : Reachable plainParams unreadable (crowd n) := by
  induction n with
  | zero => exact .refl
  | succ n ih => exact (ih (Nat.le_of_succ_le h)).tail (.enter (enter_crowd h))

/-- Every entry is held, so the next read is turned away. -/
theorem enter_full : enter plainParams (crowd cacheEntries) (numberedCall cacheEntries) = none := by
  have hevict : evict (crowd cacheEntries) none = none := by
    cases hevict : evict (crowd cacheEntries) none with
    | none => rfl
    | some entries =>
      obtain ⟨oldest, hmem, -, hcount, -⟩ := evict_eq hevict
      have hheld : 0 < (crowd cacheEntries).readers.countP fun r => r.stage.arc = some oldest.2 := by
        rw [crowd_entries] at hmem
        obtain ⟨i, hi, rfl⟩ := List.mem_map.mp hmem
        refine List.countP_pos_iff.mpr ⟨⟨numberedCall i, .waiting i⟩, ?_, decide_eq_true rfl⟩
        rw [crowd_readers]
        exact List.mem_map_of_mem hi
      have hentry : 0 < (crowd cacheEntries).entries.countP fun e => e.2 = oldest.2 :=
        List.countP_pos_iff.mpr ⟨oldest, hmem, decide_eq_true rfl⟩
      unfold State.strongCount at hcount
      omega
  unfold enter makeWay
  rw [key_numberedCall, lookup_crowd, length_crowd, if_pos ⟨rfl, le_rfl⟩, hevict]
  rfl

theorem refused_only_when_held_crowd :
    enter plainParams (crowd cacheEntries) (numberedCall cacheEntries) = none ∧
    cacheEntries ≤ (crowd cacheEntries).readers.countP fun r => r.stage.arc.isSome :=
  ⟨enter_full, (refused_only_when_held (crowd_reachable le_rfl) (numberedCall cacheEntries)).1 enter_full⟩

end HomeStack.QueryCache

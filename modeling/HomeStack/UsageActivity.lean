import Mathlib.Data.Finset.Sort
import Mathlib.Algebra.Order.Floor.Semiring
import HomeStack.UsageQuantiles
import HomeStack.Lib.Double
import HomeStack.Lib.Text

/-! Active time (`aggregated` of `hs-usage/src/activity.rs`): a slot of five minutes is active for an
agent when an aggregated minute or a raw value says so, and buckets count active slots. Query texts
are left out; a raw read is the agent it is for and the slots it asks for. Hours are doubles. -/

namespace HomeStack.Usage

open Spans

/-! ## The reads -/

/-- `SLOT` -/
def slotLength : Nat := 300

/-- The agents of `read`; the series `all` is made from theirs. -/
def agentNames : List Text := ["claude".toList, "codex".toList, "antigravity".toList]

def allAgents : Text := "all"

/-- A raw range read: a value for each slot that ends at `first`, at `last` or between. -/
structure RawRead where
  agent : Text
  first : Nat
  last : Nat

/-- The slot is asked for. -/
def RawRead.asks (read : RawRead) (slot : Nat) : Prop :=
  read.first ≤ slot ∧ slot ≤ read.last ∧ slotLength ∣ slot - read.first

section

variable (names : List Text) (start stop step boundary : Nat) (through : ℚ) (runs : List (ℚ × ℚ))

/-- The slots that meet a run, and those from the newest aggregated time on. -/
def rawWindows : List (Nat × Nat) :=
  let windows := (runs.map fun (a, b) =>
      (⌊a / slotLength⌋₊ * slotLength + slotLength, ⌈b / slotLength⌉₊ * slotLength)) ++
    [(⌈through / slotLength⌉₊ * slotLength, stop)]
  (windows.map fun (a, b) => (max a (start + slotLength), min b stop)).filter fun (a, b) => a ≤ b

/-- The raw reads: every window for every agent. -/
def rawReads : List RawRead :=
  (rawWindows start stop through runs).flatMap fun (first, last) =>
    names.map fun agent => ⟨agent, first, last⟩

/-! ## The slots -/

/-- The slot that holds the midpoint of a minute. -/
def minuteSlot (minute : ℚ) : Nat := ⌈(minute - 30) / slotLength⌉₊ * slotLength

variable (minutes : List (Option Text × ℚ)) (answer : RawRead → List (ℚ × ℚ))

/-- The slots that the aggregated minutes of some agents are in. -/
def minuteSlots (agents : Text → Bool) : List Nat :=
  (minutes.filter fun (agent, _) => agent.any agents).map (fun (_, minute) => minuteSlot minute) |>.filter
    fun slot => start < slot && slot ≤ stop

/-- The slots with a positive raw value. -/
def valueSlots (agents : Text → Bool) : List Nat :=
  ((rawReads names start stop through runs).filter fun read => agents read.agent).flatMap fun read =>
    ((answer read).filter fun (_, value) => value > 0).map fun (time, _) => ⌊time⌋₊

/-- The active slots of an agent; of `all`, those of every agent. -/
def slots (agent : Text) : Finset Nat :=
  let agents : Text → Bool := if agent = allAgents then fun _ => true else fun a => a = agent
  (minuteSlots start stop minutes agents ++ valueSlots names start stop through runs answer agents).toFinset

/-! ## The points -/

/-- The bucket that counts a slot. -/
def stampOf (slot : Nat) : Nat :=
  if slot ≤ boundary then start + (slot - start + step - 1) / step * step - step else boundary

/-- The buckets that have a point before any slot is counted. -/
def buckets : List Nat :=
  ((List.range ((boundary - start) / step)).map fun i => start + i * step) ++
    (if stop > boundary then [boundary] else [])

/-- `n as f64 / 12.` -/
def hoursOf (n : Nat) : ℚ := Double.round (Double.round n / 12)

/-- The points of an agent: hours for each bucket. -/
def points (agent : Text) : List (Nat × ℚ) :=
  let active := slots names start stop through runs minutes answer agent
  let stamps := (buckets start stop step boundary).toFinset ∪ active.image (stampOf start step boundary)
  (stamps.sort (· ≤ ·)).map fun stamp =>
    (stamp, hoursOf (active.filter fun slot => stampOf start step boundary slot = stamp).card)

/-- The total that `finish` gives the dataset. -/
def total (series : List (Nat × ℚ)) : ℚ := Double.sum (series.map Prod.snd)

/-- `boundary` of `read` -/
def boundaryOf : Nat := start + (stop - start) / step * step

end

/-! ## Which slots are asked for -/

section

variable {names : List Text} {start stop : Nat} {through : ℚ} {runs : List (ℚ × ℚ)}

theorem mem_rawReads {read : RawRead} : read ∈ rawReads names start stop through runs ↔
    (read.first, read.last) ∈ rawWindows start stop through runs ∧ read.agent ∈ names := by
  obtain ⟨agent, first, last⟩ := read
  simp [rawReads]

/-- A window is on the grid of slots and within the range. -/
theorem rawWindows_grid (hstart : slotLength ∣ start) {w : Nat × Nat}
    (h : w ∈ rawWindows start stop through runs) :
    start + slotLength ≤ w.1 ∧ w.2 ≤ stop ∧ slotLength ∣ w.1 := by
  have hmax : ∀ a, slotLength ∣ a → slotLength ∣ max a (start + slotLength) := by
    intro a ha
    rcases max_choice a (start + slotLength) with h | h
    · rwa [h]
    · rw [h]
      exact Nat.dvd_add hstart (dvd_refl _)
  obtain ⟨hmem, -⟩ := List.mem_filter.mp h
  obtain ⟨⟨a, b⟩, hab, rfl⟩ := List.mem_map.mp hmem
  refine ⟨le_max_right _ _, min_le_right _ _, hmax a ?_⟩
  rcases List.mem_append.mp hab with hab | hab
  · obtain ⟨⟨a', b'⟩, -, heq⟩ := List.mem_map.mp hab
    obtain ⟨rfl, -⟩ := Prod.mk.inj heq
    exact Nat.dvd_add (Nat.dvd_mul_left _ _) (dvd_refl _)
  · obtain ⟨rfl, -⟩ := Prod.mk.inj (List.mem_singleton.mp hab)
    exact Nat.dvd_mul_left _ _

theorem asks_of_window {agent : Text} {a b slot : Nat} (hstart : slotLength ∣ start) (ha : slotLength ∣ a)
    (hslot : slotLength ∣ slot) (hlo : start < slot) (hhi : slot ≤ stop) (has : a ≤ slot) (hsb : slot ≤ b) :
    RawRead.asks ⟨agent, max a (start + slotLength), min b stop⟩ slot := by
  have hfirst : start + slotLength ≤ slot := by
    obtain ⟨k, rfl⟩ := hstart
    obtain ⟨m, rfl⟩ := hslot
    simp only [slotLength] at *
    omega
  refine ⟨max_le has hfirst, le_min hsb hhi, ?_⟩
  simp only
  rcases max_choice a (start + slotLength) with h | h
  · rw [h]
    exact Nat.dvd_sub hslot ha
  · rw [h]
    exact Nat.dvd_sub hslot (Nat.dvd_add hstart (dvd_refl _))

/-- A slot that meets a run, or ends after the newest aggregated time, is asked for raw. -/
theorem asked_raw (hstart : slotLength ∣ start) {slot : Nat} (hslot : slotLength ∣ slot) (hlo : start < slot)
    (hhi : slot ≤ stop)
    (h : (∃ run ∈ runs, ∃ t, Inside t ((slot : ℚ) - slotLength, (slot : ℚ)) ∧ Inside t run) ∨ through < slot)
    {agent : Text} (hagent : agent ∈ names) :
    ∃ read ∈ rawReads names start stop through runs, read.agent = agent ∧ read.asks slot := by
  have hwindow : ∃ a b, (a, b) ∈ (runs.map fun (a, b) =>
      (⌊a / slotLength⌋₊ * slotLength + slotLength, ⌈b / slotLength⌉₊ * slotLength)) ++
      [(⌈through / slotLength⌉₊ * slotLength, stop)] ∧ slotLength ∣ a ∧ a ≤ slot ∧ slot ≤ b := by
    obtain ⟨k, hk⟩ := hslot
    have hkpos : k ≠ 0 := by
      rintro rfl
      omega
    have hlen : (0 : ℚ) < slotLength := by norm_num [slotLength]
    have hcast : (slot : ℚ) = slotLength * k := by rw [hk]; push_cast; ring
    rcases h with ⟨⟨a, b⟩, hrun, t, hin, hin'⟩ | hthrough
    · refine ⟨_, _, List.mem_append_left _ (List.mem_map_of_mem hrun),
      Nat.dvd_add (Nat.dvd_mul_left _ _) (dvd_refl _), ?_, ?_⟩
      · have hlt : a / slotLength < k := by
          rw [div_lt_iff₀ hlen]
          calc a < t := hin'.1
            _ ≤ slot := hin.2
            _ = k * slotLength := by rw [hcast]; ring
        have hfloor : ⌊a / slotLength⌋₊ < k := (Nat.floor_lt' hkpos).mpr hlt
        have hmul : (⌊a / slotLength⌋₊ + 1) * slotLength ≤ k * slotLength := Nat.mul_le_mul_right _ hfloor
        rw [Nat.succ_mul] at hmul
        rw [hk, Nat.mul_comm slotLength k]
        exact hmul
      · have hlt : ((k - 1 : Nat) : ℚ) < b / slotLength := by
          rw [lt_div_iff₀ hlen, Nat.cast_sub (by omega)]
          calc ((k : ℚ) - (1 : Nat)) * slotLength = slot - slotLength := by rw [hcast]; push_cast; ring
            _ < t := hin.1
            _ ≤ b := hin'.2
        have hceil : k ≤ ⌈b / slotLength⌉₊ := by
          have := Nat.lt_ceil.mpr hlt
          omega
        rw [hk, Nat.mul_comm slotLength k]
        exact Nat.mul_le_mul_right _ hceil
    · refine ⟨_, _, List.mem_append_right _ (List.mem_singleton.mpr rfl), Nat.dvd_mul_left _ _, ?_, hhi⟩
      have hle : through / slotLength ≤ k := by
        rw [div_le_iff₀ hlen]
        calc through ≤ slot := hthrough.le
          _ = k * slotLength := by rw [hcast]; ring
      rw [hk, Nat.mul_comm slotLength k]
      exact Nat.mul_le_mul_right _ (Nat.ceil_le.mpr hle)
  obtain ⟨a, b, hmem, hdvd, has, hsb⟩ := hwindow
  have hasks := @asks_of_window start stop agent a b slot hstart hdvd hslot hlo hhi has hsb
  refine ⟨⟨agent, max a (start + slotLength), min b stop⟩, mem_rawReads.2 ⟨?_, hagent⟩, rfl, hasks⟩
  refine List.mem_filter.mpr ⟨List.mem_map_of_mem hmem, ?_⟩
  have hle : max a (start + slotLength) ≤ min b stop := hasks.1.trans hasks.2.1
  simpa using hle

/-! ## Which slots are active -/

variable {minutes : List (Option Text × ℚ)} {answer : RawRead → List (ℚ × ℚ)}

/-- What Prometheus returns: the agents that the selector names, and the times that a range query
asks for. -/
structure Answered (names : List Text) (start stop : Nat) (through : ℚ) (runs : List (ℚ × ℚ))
    (minutes : List (Option Text × ℚ)) (answer : RawRead → List (ℚ × ℚ)) : Prop where
  labels : ∀ agent minute, (some agent, minute) ∈ minutes → agent ∈ names
  times : ∀ read ∈ rawReads names start stop through runs, ∀ sample ∈ answer read,
    ∃ slot : Nat, sample.1 = slot ∧ read.asks slot

theorem mem_minuteSlots {agents : Text → Bool} {slot : Nat} : slot ∈ minuteSlots start stop minutes agents ↔
    start < slot ∧ slot ≤ stop ∧ ∃ agent minute, (some agent, minute) ∈ minutes ∧ agents agent = true ∧
      minuteSlot minute = slot := by
  simp only [minuteSlots, List.mem_filter, List.mem_map, Bool.and_eq_true, decide_eq_true_eq]
  constructor
  · rintro ⟨⟨⟨label, minute⟩, ⟨hmem, hlabel⟩, rfl⟩, hlo, hhi⟩
    cases label with
    | none => cases hlabel
    | some agent => exact ⟨hlo, hhi, agent, minute, hmem, hlabel, rfl⟩
  · rintro ⟨hlo, hhi, agent, minute, hmem, hlabel, rfl⟩
    exact ⟨⟨(some agent, minute), ⟨hmem, hlabel⟩, rfl⟩, hlo, hhi⟩

theorem minuteSlot_iff {minute : ℚ} {slot : Nat} (hslot : slotLength ∣ slot) (hpos : 0 < slot) :
    minuteSlot minute = slot ↔ Inside (minute - 30) ((slot : ℚ) - slotLength, (slot : ℚ)) := by
  obtain ⟨k, rfl⟩ := hslot
  have hkpos : k ≠ 0 := by
    rintro rfl
    simp at hpos
  have hlen : (0 : ℚ) < slotLength := by norm_num [slotLength]
  rw [minuteSlot, Nat.mul_comm slotLength k, Nat.mul_left_inj (by simp [slotLength]),
    Nat.ceil_eq_iff hkpos, lt_div_iff₀ hlen,
    div_le_iff₀ hlen, Nat.cast_sub (by omega), Inside]
  push_cast
  rw [sub_mul, one_mul]

theorem mem_valueSlots (h : Answered names start stop through runs minutes answer)
    {agents : Text → Bool} {slot : Nat} :
    slot ∈ valueSlots names start stop through runs answer agents ↔
      ∃ read ∈ rawReads names start stop through runs, agents read.agent = true ∧ read.asks slot ∧
        ∃ value > 0, ((slot : ℚ), value) ∈ answer read := by
  simp only [valueSlots, List.mem_flatMap, List.mem_filter, List.mem_map]
  constructor
  · rintro ⟨read, ⟨hread, hagent⟩, ⟨time, value⟩, ⟨hmem, hvalue⟩, rfl⟩
    obtain ⟨slot, hslot, hasks⟩ := h.times read hread _ hmem
    simp only at hslot
    subst hslot
    rw [Nat.floor_natCast]
    exact ⟨read, hread, hagent, hasks, value, by simpa using hvalue, hmem⟩
  · rintro ⟨read, hread, hagent, -, value, hvalue, hmem⟩
    exact ⟨read, ⟨hread, hagent⟩, (slot, value), ⟨hmem, by simpa using hvalue⟩, by simp⟩

/-- Some minute or value of these agents says that the slot is active. -/
def Says (names : List Text) (start stop : Nat) (through : ℚ) (runs : List (ℚ × ℚ))
    (minutes : List (Option Text × ℚ)) (answer : RawRead → List (ℚ × ℚ)) (agent : Text) (slot : Nat) : Prop :=
  (∃ minute, (some agent, minute) ∈ minutes ∧ Inside (minute - 30) ((slot : ℚ) - slotLength, (slot : ℚ))) ∨
    ∃ read ∈ rawReads names start stop through runs, read.agent = agent ∧
      ∃ value > 0, ((slot : ℚ), value) ∈ answer read

theorem slot_of_asks (hstart : slotLength ∣ start) {read : RawRead}
    (hread : read ∈ rawReads names start stop through runs) {slot : Nat} (h : read.asks slot) :
    slotLength ∣ slot ∧ start < slot ∧ slot ≤ stop := by
  obtain ⟨hlo, hhi, hdvd⟩ := rawWindows_grid hstart (mem_rawReads.1 hread).1
  obtain ⟨h₁, h₂, h₃⟩ := h
  refine ⟨?_, ?_, h₂.trans hhi⟩
  · have hsum := Nat.dvd_add h₃ hdvd
    rwa [Nat.sub_add_cancel h₁] at hsum
  · simp only [slotLength] at *
    omega

theorem mem_slots_iff (hstart : slotLength ∣ start)
    (h : Answered names start stop through runs minutes answer) {agents : Text → Bool} {slot : Nat} :
    slot ∈ minuteSlots start stop minutes agents ++ valueSlots names start stop through runs answer agents ↔
      slotLength ∣ slot ∧ start < slot ∧ slot ≤ stop ∧ ∃ agent ∈ names, agents agent = true ∧
        Says names start stop through runs minutes answer agent slot := by
  rw [List.mem_append, mem_minuteSlots, mem_valueSlots h]
  constructor
  · rintro (⟨hlo, hhi, agent, minute, hmem, hagent, hslot⟩ | ⟨read, hread, hagent,
    hasks, value, hvalue, hmem⟩)
    · have hdvd : slotLength ∣ slot := hslot ▸ Nat.dvd_mul_left _ _
      exact ⟨hdvd, hlo, hhi, agent, h.labels agent minute hmem, hagent,
        .inl ⟨minute, hmem, (minuteSlot_iff hdvd (by omega)).mp hslot⟩⟩
    · obtain ⟨hdvd, hlo, hhi⟩ := slot_of_asks hstart hread hasks
      exact ⟨hdvd, hlo, hhi, read.agent, (mem_rawReads.1 hread).2, hagent,
        .inr ⟨read, hread, rfl, value, hvalue, hmem⟩⟩
  · rintro ⟨hdvd, hlo, hhi, agent, -, hagent, ⟨minute, hmem, hin⟩ | ⟨read, hread, rfl, value, hvalue, hmem⟩⟩
    · exact .inl ⟨hlo, hhi, agent, minute, hmem, hagent, (minuteSlot_iff hdvd (by omega)).mpr hin⟩
    · refine .inr ⟨read, hread, hagent, ?_, value, hvalue, hmem⟩
      obtain ⟨slot', hslot', hasks⟩ := h.times read hread _ hmem
      have hcast : (slot : ℚ) = slot' := hslot'
      obtain rfl : slot = slot' := by exact_mod_cast hcast
      exact hasks

theorem mem_slots (hnames : ∀ a ∈ names, a ∈ agentNames) (hstart : slotLength ∣ start)
    (h : Answered names start stop through runs minutes answer) {agent : Text}
    (hagent : agent ∈ names) {slot : Nat} :
    slot ∈ slots names start stop through runs minutes answer agent ↔
      slotLength ∣ slot ∧ start < slot ∧ slot ≤ stop ∧
        Says names start stop through runs minutes answer agent slot := by
  have hne : agent ≠ allAgents := by
    rintro rfl
    exact absurd (hnames _ hagent) (by decide)
  rw [slots, List.mem_toFinset, if_neg hne, mem_slots_iff hstart h]
  simp [hagent]

theorem mem_slots_all (hstart : slotLength ∣ start)
    (h : Answered names start stop through runs minutes answer) {slot : Nat} :
    slot ∈ slots names start stop through runs minutes answer allAgents ↔
      slotLength ∣ slot ∧ start < slot ∧ slot ≤ stop ∧
        ∃ agent ∈ names, Says names start stop through runs minutes answer agent slot := by
  rw [slots, List.mem_toFinset, if_pos rfl, mem_slots_iff hstart h]
  simp

/-- Every active slot is a slot of the range. -/
theorem slots_within (hstart : slotLength ∣ start) (h : Answered names start stop through runs minutes answer)
    {agent : Text} {slot : Nat} (hslot : slot ∈ slots names start stop through runs minutes answer agent) :
    slotLength ∣ slot ∧ start < slot ∧ slot ≤ stop := by
  rw [slots, List.mem_toFinset, mem_slots_iff hstart h] at hslot
  exact ⟨hslot.1, hslot.2.1, hslot.2.2.1⟩

/-! ## Which bucket counts a slot -/

variable {step : Nat}

/-- Where a bucket ends: the partial one at the end of the range. -/
def bucketStop (stop step boundary stamp : Nat) : Nat := if stamp < boundary then stamp + step else stop

theorem mem_buckets {stamp : Nat} (hstep : 0 < step) :
    stamp ∈ buckets start stop step (boundaryOf start stop step) ↔ ∃ i, stamp = start + i * step ∧
    (i < (stop - start) / step ∨ i = (stop - start) / step ∧ boundaryOf start stop step < stop) := by
  have hcount : (boundaryOf start stop step - start) / step = (stop - start) / step := by
    rw [boundaryOf, Nat.add_sub_cancel_left, Nat.mul_div_cancel _ hstep]
  rw [buckets, List.mem_append, hcount]
  constructor
  · rintro (h | h)
    · obtain ⟨i, hi, rfl⟩ := List.mem_map.mp h
      exact ⟨i, rfl, .inl (List.mem_range.mp hi)⟩
    · split at h
      · rename_i hlt
        exact ⟨(stop - start) / step, List.mem_singleton.mp h, .inr ⟨rfl, hlt⟩⟩
      · cases h
  · rintro ⟨i, rfl, hi | ⟨rfl, hlt⟩⟩
    · exact .inl (List.mem_map.mpr ⟨i, List.mem_range.mpr hi, rfl⟩)
    · refine .inr ?_
      rw [if_pos hlt]
      simp [boundaryOf]

theorem buckets_sorted (hstep : 0 < step) :
    (buckets start stop step (boundaryOf start stop step)).Pairwise (· < ·) := by
  have hcount : (boundaryOf start stop step - start) / step = (stop - start) / step := by
    rw [boundaryOf, Nat.add_sub_cancel_left, Nat.mul_div_cancel _ hstep]
  have hmul : ∀ {a b : Nat}, a < b → start + a * step < start + b * step := fun hab =>
    Nat.add_lt_add_left (Nat.mul_lt_mul_of_pos_right hab hstep) start
  rw [buckets, hcount]
  refine List.pairwise_append.mpr ⟨?_, ?_, ?_⟩
  · rw [List.pairwise_map]
    exact (List.pairwise_lt_range).imp hmul
  · split
    · exact List.pairwise_singleton _ _
    · exact .nil
  · intro b hb b' hb'
    obtain ⟨i, hi, rfl⟩ := List.mem_map.mp hb
    split at hb'
    · obtain rfl := List.mem_singleton.mp hb'
      exact hmul (List.mem_range.mp hi)
    · cases hb'

/-- A slot is counted in the bucket that holds it. -/
theorem stampOf_spec (hstep : 0 < step) {slot : Nat} (hlo : start < slot) (hhi : slot ≤ stop) :
    stampOf start step (boundaryOf start stop step) slot ∈ buckets start stop step
      (boundaryOf start stop step) ∧
      stampOf start step (boundaryOf start stop step) slot < slot ∧
      slot ≤ bucketStop stop step (boundaryOf start stop step)
        (stampOf start step (boundaryOf start stop step) slot) := by
  rw [mem_buckets hstep]
  unfold stampOf
  split
  · rename_i hle
    -- the bucket before the ceiling of the quotient
    obtain ⟨q, hq⟩ : ∃ q, (slot - start + step - 1) / step = q + 1 := by
      refine ⟨(slot - start + step - 1) / step - 1, ?_⟩
      have : 0 < (slot - start + step - 1) / step := Nat.div_pos (by omega) hstep
      omega
    have h₁ := Nat.div_mul_le_self (slot - start + step - 1) step
    have h₂ := Nat.lt_div_mul_add (a := slot - start + step - 1) hstep
    rw [hq, Nat.succ_mul] at h₁ h₂
    have hqm : q < (stop - start) / step := by
      by_contra hge
      have hmul := Nat.mul_le_mul_right step (not_lt.mp hge)
      simp only [boundaryOf] at hle
      omega
    have hstamp : start + (q + 1) * step - step = start + q * step := by
      rw [Nat.succ_mul]
      omega
    have hbelow : start + q * step < boundaryOf start stop step :=
      Nat.add_lt_add_left (Nat.mul_lt_mul_of_pos_right hqm hstep) start
    rw [hq, hstamp, bucketStop, if_pos hbelow]
    exact ⟨⟨q, rfl, .inl hqm⟩, by omega, by omega⟩
  · rename_i hgt
    rw [bucketStop, if_neg (lt_irrefl _)]
    exact ⟨⟨_, rfl, .inr ⟨rfl, by omega⟩⟩, by omega, hhi⟩

/-- A slot lies in one bucket only. -/
theorem bucket_unique (hstep : 0 < step) {slot b b' : Nat}
    (hb : b ∈ buckets start stop step (boundaryOf start stop step))
    (hb' : b' ∈ buckets start stop step (boundaryOf start stop step))
    (h : b < slot ∧ slot ≤ bucketStop stop step (boundaryOf start stop step) b)
    (h' : b' < slot ∧ slot ≤ bucketStop stop step (boundaryOf start stop step) b') : b = b' := by
  have hapart : ∀ {c c' : Nat}, c ∈ buckets start stop step (boundaryOf start stop step) →
      c' ∈ buckets start stop step (boundaryOf start stop step) → c < c' →
      bucketStop stop step (boundaryOf start stop step) c ≤ c' := by
    intro c c' hc hc' hlt
    obtain ⟨i, rfl, hi⟩ := (mem_buckets hstep).mp hc
    obtain ⟨j, rfl, hj⟩ := (mem_buckets hstep).mp hc'
    have hij : i < j := by
      by_contra hge
      have hmul := Nat.mul_le_mul_right step (not_lt.mp hge)
      omega
    have hjm : j ≤ (stop - start) / step := by omega
    have hbelow : start + i * step < boundaryOf start stop step :=
      Nat.add_lt_add_left (Nat.mul_lt_mul_of_pos_right (by omega) hstep) start
    have hmul := Nat.mul_le_mul_right step (show i + 1 ≤ j from hij)
    rw [Nat.succ_mul] at hmul
    rw [bucketStop, if_pos hbelow]
    omega
  rcases lt_trichotomy b b' with hlt | rfl | hlt
  · have := hapart hb hb' hlt
    omega
  · rfl
  · have := hapart hb' hb hlt
    omega

theorem stampOf_iff (hstep : 0 < step) {slot b : Nat} (hlo : start < slot) (hhi : slot ≤ stop)
    (hb : b ∈ buckets start stop step (boundaryOf start stop step)) :
    stampOf start step (boundaryOf start stop step) slot = b ↔
      b < slot ∧ slot ≤ bucketStop stop step (boundaryOf start stop step) b := by
  obtain ⟨hmem, hspec⟩ := @stampOf_spec start stop step hstep slot hlo hhi
  constructor
  · rintro rfl
    exact hspec
  · exact fun h => bucket_unique hstep hmem hb hspec h

/-- The active slots of a bucket. -/
def activeIn (names : List Text) (start stop step : Nat) (through : ℚ) (runs : List (ℚ × ℚ))
    (minutes : List (Option Text × ℚ)) (answer : RawRead → List (ℚ × ℚ)) (agent : Text) (stamp : Nat) :
    Finset Nat :=
  (slots names start stop through runs minutes answer agent).filter fun slot =>
    stamp < slot ∧ slot ≤ bucketStop stop step (boundaryOf start stop step) stamp

theorem filter_stampOf (hstart : slotLength ∣ start) (hstep : 0 < step)
    (h : Answered names start stop through runs minutes answer) (agent : Text) {stamp : Nat}
    (hstamp : stamp ∈ buckets start stop step (boundaryOf start stop step)) :
    ((slots names start stop through runs minutes answer agent).filter fun slot =>
      stampOf start step (boundaryOf start stop step) slot = stamp) =
      activeIn names start stop step through runs minutes answer agent stamp := by
  refine Finset.filter_congr fun slot hslot => ?_
  obtain ⟨-, hlo, hhi⟩ := slots_within hstart h hslot
  exact stampOf_iff hstep hlo hhi hstamp

/-- One point for each bucket, with the hours of the active slots in it. -/
theorem points_eq (hstart : slotLength ∣ start) (hstep : 0 < step)
    (h : Answered names start stop through runs minutes answer) (agent : Text) :
    points names start stop step (boundaryOf start stop step) through runs minutes answer agent =
      (buckets start stop step (boundaryOf start stop step)).map fun stamp =>
        (stamp, hoursOf (activeIn names start stop step through runs minutes answer agent stamp).card) := by
  have hsorted := @buckets_sorted start stop step hstep
  have hnodup := hsorted.imp (fun {a b} (hab : a < b) => hab.ne)
  have himage : (slots names start stop through runs minutes answer agent).image
      (stampOf start step (boundaryOf start stop step)) ⊆
      (buckets start stop step (boundaryOf start stop step)).toFinset := by
    intro stamp hstamp
    obtain ⟨slot, hslot, rfl⟩ := Finset.mem_image.mp hstamp
    obtain ⟨-, hlo, hhi⟩ := slots_within hstart h hslot
    exact List.mem_toFinset.mpr (stampOf_spec hstep hlo hhi).1
  have hsort : ((buckets start stop step (boundaryOf start stop step)).toFinset).sort (· ≤ ·) =
      buckets start stop step (boundaryOf start stop step) :=
    (List.toFinset_sort (· ≤ ·) hnodup).mpr (hsorted.imp fun {a b} (hab : a < b) => hab.le)
  simp only [points]
  rw [Finset.union_eq_left.mpr himage, hsort]
  refine List.map_congr_left fun stamp hstamp => ?_
  rw [filter_stampOf hstart hstep h agent hstamp]

/-- The buckets count every active slot once. -/
theorem sum_activeIn (hstart : slotLength ∣ start) (hstep : 0 < step)
    (h : Answered names start stop through runs minutes answer) (agent : Text) :
    ((buckets start stop step (boundaryOf start stop step)).map fun stamp =>
      (activeIn names start stop step through runs minutes answer agent stamp).card).sum =
      (slots names start stop through runs minutes answer agent).card := by
  have hnodup : (buckets start stop step (boundaryOf start stop step)).Nodup :=
    (@buckets_sorted start stop step hstep).imp fun {a b} (hab : a < b) => hab.ne
  rw [← List.sum_toFinset _ hnodup, Finset.card_eq_sum_card_fiberwise
    (f := stampOf start step (boundaryOf start stop step))
    (t := (buckets start stop step (boundaryOf start stop step)).toFinset)]
  · refine Finset.sum_congr rfl fun stamp hstamp => ?_
    rw [filter_stampOf hstart hstep h agent (List.mem_toFinset.mp hstamp)]
  · intro slot hslot
    obtain ⟨-, hlo, hhi⟩ := slots_within hstart h hslot
    exact List.mem_toFinset.mpr (stampOf_spec hstep hlo hhi).1

/-- There are not more slots than fit in the range. -/
theorem card_slots_le (hstart : slotLength ∣ start) (hstop : slotLength ∣ stop) (hlt : start < stop)
    (h : Answered names start stop through runs minutes answer) (agent : Text) :
    ((slots names start stop through runs minutes answer agent).card : ℚ) / 12 ≤
      ((stop : ℚ) - start) / 3600 := by
  obtain ⟨i, rfl⟩ := hstart
  obtain ⟨j, rfl⟩ := hstop
  have hcard : (slots names (slotLength * i) (slotLength * j) through runs minutes answer agent).card ≤
      j - i := by
    rw [← Nat.card_Ioc i j]
    refine Finset.card_le_card_of_injOn (· / slotLength) (fun slot hslot => ?_) fun a ha b hb hab => ?_
    · obtain ⟨⟨k, rfl⟩, hlo, hhi⟩ := slots_within (Nat.dvd_mul_right _ _) h hslot
      simp only [slotLength] at *
      rw [Nat.mul_div_cancel_left _ (by decide)]
      exact Finset.mem_coe.mpr (Finset.mem_Ioc.mpr ⟨by omega, by omega⟩)
    · obtain ⟨⟨k, rfl⟩, -⟩ := slots_within (Nat.dvd_mul_right _ _) h ha
      obtain ⟨⟨l, rfl⟩, -⟩ := slots_within (Nat.dvd_mul_right _ _) h hb
      simp only [slotLength, Nat.mul_div_cancel_left _ (show 0 < 300 by decide)] at hab
      rw [hab]
  have hij : i ≤ j := by
    simp only [slotLength] at hlt
    omega
  have hcast : ((slots names (slotLength * i) (slotLength * j) through runs minutes answer agent).card : ℚ) ≤
      (j : ℚ) - i := by
    rw [← Nat.cast_sub hij]
    exact_mod_cast hcard
  simp only [slotLength] at *
  push_cast
  linarith

/-! ## The hours -/

theorem hoursOf_normal (n : Nat) : Double.Normal (hoursOf n) := by
  obtain rfl | hpos := Nat.eq_zero_or_pos n
  · left
    decide +kernel
  · right
    have hone : (1 : ℚ) ≤ Double.round n := by
      have hmono := Double.round_mono (show ((1 : Nat) : ℚ) ≤ n by exact_mod_cast hpos)
      rwa [Double.round_natCast (by norm_num), Nat.cast_one] at hmono
    calc (1 : ℚ) / 2 ^ 1022 ≤ Double.round (1 / 12) := by decide +kernel
      _ ≤ hoursOf n := Double.round_mono (div_le_div_of_nonneg_right hone (by norm_num))

theorem hoursOf_mono {m n : Nat} (h : m ≤ n) : hoursOf m ≤ hoursOf n := by
  have hround := Double.round_mono (show (m : ℚ) ≤ n by exact_mod_cast h)
  exact Double.round_mono (div_le_div_of_nonneg_right hround (by norm_num))

theorem hoursOf_le (n : Nat) : hoursOf n ≤ (n : ℚ) / 12 * (1 + Double.unit) ^ 2 := by
  have hunit : 0 ≤ Double.unit := by norm_num [Double.unit]
  have hn : Double.Normal n := by
    obtain rfl | hpos := Nat.eq_zero_or_pos n
    · exact .inl Nat.cast_zero
    · right
      calc (1 : ℚ) / 2 ^ 1022 ≤ 1 := by decide +kernel
        _ ≤ n := by exact_mod_cast hpos
  have htwelfth : Double.Normal (Double.round n / 12) := by
    obtain rfl | hpos := Nat.eq_zero_or_pos n
    · left
      decide +kernel
    · right
      have hone := Double.round_mono (show ((1 : Nat) : ℚ) ≤ n by exact_mod_cast hpos)
      rw [Double.round_natCast (by norm_num), Nat.cast_one] at hone
      calc (1 : ℚ) / 2 ^ 1022 ≤ 1 / 12 := by decide +kernel
        _ ≤ Double.round n / 12 := div_le_div_of_nonneg_right hone (by norm_num)
  calc hoursOf n ≤ Double.round n / 12 * (1 + Double.unit) := Double.round_le htwelfth
    _ ≤ n * (1 + Double.unit) / 12 * (1 + Double.unit) := by
      gcongr
      exact Double.round_le hn
    _ = (n : ℚ) / 12 * (1 + Double.unit) ^ 2 := by
      ring

/-- The total of a series passes the hours of its slots by rounding only. -/
theorem total_le (hstart : slotLength ∣ start) (hstep : 0 < step)
    (h : Answered names start stop through runs minutes answer) (agent : Text) :
    total (points names start stop step (boundaryOf start stop step) through runs minutes answer agent) ≤
      ((slots names start stop through runs minutes answer agent).card : ℚ) / 12 *
        (1 + Double.unit) ^ ((buckets start stop step (boundaryOf start stop step)).length + 2) := by
  have hunit : 0 ≤ Double.unit := by norm_num [Double.unit]
  have hhours : ∀ l : List Nat, (l.map hoursOf).sum ≤ (l.sum : ℚ) / 12 * (1 + Double.unit) ^ 2 := by
    intro l
    induction l with
    | nil => simp
    | cons n l ih =>
      rw [List.map_cons, List.sum_cons, List.sum_cons]
      calc hoursOf n + (l.map hoursOf).sum ≤ (n : ℚ) / 12 * (1 + Double.unit) ^ 2 + (l.sum : ℚ) / 12 *
        (1 + Double.unit) ^ 2 :=
            add_le_add (hoursOf_le n) ih
        _ = ((n + l.sum : Nat) : ℚ) / 12 * (1 + Double.unit) ^ 2 := by
            push_cast
            ring
  let counts := (buckets start stop step (boundaryOf start stop step)).map fun stamp =>
    (activeIn names start stop step through runs minutes answer agent stamp).card
  have hvalues : (points names start stop step
      (boundaryOf start stop step) through runs minutes answer agent).map Prod.snd =
      counts.map hoursOf := by
    rw [points_eq hstart hstep h, List.map_map, List.map_map]
    rfl
  have hnormal : ∀ x ∈ counts.map hoursOf, Double.Normal x := by
    intro x hx
    obtain ⟨n, -, rfl⟩ := List.mem_map.mp hx
    exact hoursOf_normal n
  have hlength : (counts.map hoursOf).length =
      (buckets start stop step (boundaryOf start stop step)).length := by
    simp [counts]
  rw [total, hvalues, ← sum_activeIn hstart hstep h agent]
  calc Double.sum (counts.map hoursOf) ≤ (counts.map hoursOf).sum * (1 + Double.unit) ^
    (counts.map hoursOf).length :=
        Double.sum_le hnormal
    _ ≤ (counts.sum : ℚ) / 12 * (1 + Double.unit) ^ 2 * (1 + Double.unit) ^ (counts.map hoursOf).length := by
        gcongr
        exact hhours counts
    _ = (counts.sum : ℚ) / 12 * (1 + Double.unit) ^
      ((buckets start stop step (boundaryOf start stop step)).length + 2) := by
        rw [hlength, pow_add]
        ring

end

/-- **Active time is a union of slots, each in its bucket.** Every series has one point for each
bucket; a slot is active for an agent just when an aggregated minute with its midpoint there or a
positive raw value says so, and lies in one bucket, which counts it; `all` is the union; and every
slot that meets a run or ends after the newest aggregated time is asked for raw. -/
theorem active_time_exact {names : List Text} (hnames : ∀ a ∈ names, a ∈ agentNames) {start stop step : Nat}
    (hstart : slotLength ∣ start) (hstop : slotLength ∣ stop) (hdvd : slotLength ∣ step)
    (hstep : 0 < step) (hlt : start < stop)
    {through : ℚ} {runs : List (ℚ × ℚ)} {minutes : List (Option Text × ℚ)} {answer : RawRead → List (ℚ × ℚ)}
    (h : Answered names start stop through runs minutes answer) :
    (∀ agent, points names start stop step (boundaryOf start stop step) through runs minutes answer agent =
      (buckets start stop step (boundaryOf start stop step)).map fun stamp =>
        (stamp, hoursOf (activeIn names start stop step through runs minutes answer agent stamp).card)) ∧
    (∀ agent ∈ names, ∀ slot, slot ∈ slots names start stop through runs minutes answer agent ↔
      slotLength ∣ slot ∧ start < slot ∧ slot ≤ stop ∧
        Says names start stop through runs minutes answer agent slot) ∧
    (∀ agent, ∀ slot ∈ slots names start stop through runs minutes answer agent,
      ∃! stamp, stamp ∈ buckets start stop step (boundaryOf start stop step) ∧ stamp + slotLength ≤ slot ∧
        slot ≤ bucketStop stop step (boundaryOf start stop step) stamp) ∧
    (∀ slot, slot ∈ slots names start stop through runs minutes answer allAgents ↔
      ∃ agent ∈ names, slot ∈ slots names start stop through runs minutes answer agent) ∧
    (∀ agent ∈ names, ∀ stamp, activeIn names start stop step through runs minutes answer agent stamp ⊆
      activeIn names start stop step through runs minutes answer allAgents stamp) ∧
    (∀ agent ∈ names, total (points names start stop step
      (boundaryOf start stop step) through runs minutes answer agent) ≤
      total (points names start stop step (boundaryOf start stop step) through runs
        minutes answer allAgents)) ∧
    ((slots names start stop through runs minutes answer allAgents).card : ℚ) / 12 ≤
      ((stop : ℚ) - start) / 3600 ∧
    total (points names start stop step (boundaryOf start stop step) through runs minutes answer allAgents) ≤
      ((stop : ℚ) - start) / 3600 *
        (1 + Double.unit) ^ ((buckets start stop step (boundaryOf start stop step)).length + 2) ∧
    (∀ agent ∈ names, ∀ slot, slotLength ∣ slot → start < slot → slot ≤ stop →
      (∃ run ∈ runs, ∃ t, Inside t ((slot : ℚ) - slotLength, (slot : ℚ)) ∧ Inside t run) ∨ through < slot →
      ∃ read ∈ rawReads names start stop through runs, read.agent = agent ∧ read.asks slot) := by
  have hunion : ∀ slot, slot ∈ slots names start stop through runs minutes answer allAgents ↔
      ∃ agent ∈ names, slot ∈ slots names start stop through runs minutes answer agent := by
    intro slot
    rw [mem_slots_all hstart h]
    constructor
    · rintro ⟨h₁, h₂, h₃, agent, hagent, hsays⟩
      exact ⟨agent, hagent, (mem_slots hnames hstart h hagent).mpr ⟨h₁, h₂, h₃, hsays⟩⟩
    · rintro ⟨agent, hagent, hslot⟩
      obtain ⟨h₁, h₂, h₃, hsays⟩ := (mem_slots hnames hstart h hagent).mp hslot
      exact ⟨h₁, h₂, h₃, agent, hagent, hsays⟩
  have hsubset : ∀ agent ∈ names, ∀ stamp,
      activeIn names start stop step through runs minutes answer agent stamp ⊆
      activeIn names start stop step through runs minutes answer allAgents stamp := by
    intro agent hagent stamp slot hslot
    obtain ⟨hmem, hin⟩ := Finset.mem_filter.mp hslot
    exact Finset.mem_filter.mpr ⟨(hunion slot).mpr ⟨agent, hagent, hmem⟩, hin⟩
  have hcard := card_slots_le hstart hstop hlt h allAgents
  refine ⟨points_eq hstart hstep h, fun agent hagent slot => mem_slots hnames hstart h hagent,
    fun agent slot hslot => ?_,
    hunion, hsubset, fun agent hagent => ?_, hcard, ?_,
    fun agent hagent slot hslot hlo hhi hmeets => asked_raw hstart hslot hlo hhi hmeets hagent⟩
  · obtain ⟨hslot', hlo, hhi⟩ := slots_within hstart h hslot
    obtain ⟨hmem, hbelow, habove⟩ := @stampOf_spec start stop step hstep slot hlo hhi
    refine ⟨_, ⟨hmem, ?_, habove⟩, fun b ⟨hb, hb₁, hb₂⟩ => ?_⟩
    · -- stamps are on the grid of slots
      obtain ⟨i, hi, -⟩ := (mem_buckets hstep).mp hmem
      have hstamp : slotLength ∣ stampOf start step (boundaryOf start stop step) slot := by
        rw [hi]
        exact Nat.dvd_add hstart (hdvd.mul_left i)
      have hgap := Nat.le_of_dvd (by omega) (Nat.dvd_sub hslot' hstamp)
      omega
    · have hlen : 0 < slotLength := by decide
      exact bucket_unique hstep hb hmem ⟨by omega, hb₂⟩ ⟨hbelow, habove⟩
  · rw [total, total, points_eq hstart hstep h, points_eq hstart hstep h, List.map_map, List.map_map]
    refine Double.sum_mono (List.forall₂_map_left_iff.mpr
      (List.forall₂_map_right_iff.mpr (List.forall₂_same.mpr ?_)))
    exact fun stamp _ => hoursOf_mono (Finset.card_le_card (hsubset agent hagent stamp))
  · have hunit : 0 ≤ Double.unit := by norm_num [Double.unit]
    refine (total_le hstart hstep h allAgents).trans ?_
    gcongr

/-- One minute of an agent in the first of two slots, and a raw value in the second. -/
theorem answered_slots :
    Answered ["codex".toList] 0 600 120 [] [(some "codex".toList, 60)] fun _ => [(600, 1)] := by
  refine ⟨?_, ?_⟩
  · intro agent minute hmem
    obtain ⟨hagent, -⟩ := Prod.mk.inj (List.mem_singleton.mp hmem)
    simp [Option.some.inj hagent]
  · intro read hread sample hsample
    obtain rfl := List.mem_singleton.mp hsample
    have hwindow : rawWindows 0 600 120 [] = [(300, 600)] := by decide +kernel
    obtain ⟨hmem, -⟩ := mem_rawReads.1 hread
    rw [hwindow] at hmem
    obtain ⟨hfirst, hlast⟩ := Prod.mk.inj (List.mem_singleton.mp hmem)
    refine ⟨600, by norm_num, by omega, by omega, ?_⟩
    rw [hfirst]
    decide

theorem active_time_exact_slots :
    300 ∈ slots ["codex".toList] 0 600 120 [] [(some "codex".toList, 60)] (fun _ => [(600, 1)])
      "codex".toList ∧
      total (points ["codex".toList] 0 600 300 (boundaryOf 0 600 300) 120 []
        [(some "codex".toList, 60)] (fun _ => [(600, 1)])
        allAgents) ≤ (((600 : Nat) : ℚ) - (0 : Nat)) / 3600 * (1 + Double.unit) ^
          ((buckets 0 600 300 (boundaryOf 0 600 300)).length + 2) := by
  obtain ⟨-, hslots, -, -, -, -, -, htotal, -⟩ :=
    @active_time_exact ["codex".toList] (by decide) 0 600 300 (by decide) (by decide)
    (by decide) (by decide) (by decide) 120 [] [(some "codex".toList, 60)]
    (fun _ => [(600, 1)]) answered_slots
  refine ⟨(hslots _ (by simp) 300).mpr ⟨by decide, by decide, by decide, .inl ⟨60, by simp, ?_, ?_⟩⟩, htotal⟩
  · norm_num [slotLength]
  · norm_num

/-- One minute of an agent in each of eleven slots. -/
def elevenMinutes : List (Option Text × ℚ) := (List.range 11).map fun i => (some "codex".toList, 300 * i + 60)

theorem answered_eleven : Answered ["codex".toList] 0 3300 3300 [] elevenMinutes fun _ => [] := by
  refine ⟨?_, fun read _ sample hsample => absurd hsample (List.not_mem_nil)⟩
  intro agent minute hmem
  obtain ⟨i, -, heq⟩ := List.mem_map.mp hmem
  obtain ⟨hagent, -⟩ := Prod.mk.inj heq
  simp [← Option.some.inj hagent]

/-- Eleven rounded twelfths of an hour, summed, are more than eleven twelfths, and more than the
double of `3300 / 3600` too. -/
theorem eleven_slots_exceed :
    Answered ["codex".toList] 0 3300 3300 [] elevenMinutes (fun _ => []) ∧
      (3300 - 0 : ℚ) / 3600 < total (points ["codex".toList] 0 3300 300
        (boundaryOf 0 3300 300) 3300 [] elevenMinutes
        (fun _ => []) allAgents) ∧
      Double.round (Double.round 3300 / 3600) <
        total (points ["codex".toList] 0 3300 300 (boundaryOf 0 3300 300) 3300 []
        elevenMinutes (fun _ => []) allAgents) := by
  have hcounts : ((buckets 0 3300 300 (boundaryOf 0 3300 300)).map fun stamp =>
      (activeIn ["codex".toList] 0 3300 300 3300 [] elevenMinutes (fun _ => []) allAgents stamp).card) =
        List.replicate 11 1 := by
    decide +kernel
  have htotal : total (points ["codex".toList] 0 3300 300 (boundaryOf 0 3300 300) 3300 [] elevenMinutes
      (fun _ => []) allAgents) =
      Double.sum ((List.replicate 11 1).map hoursOf) := by
    rw [total, points_eq (by decide) (by decide) answered_eleven, List.map_map, ← hcounts, List.map_map]
    rfl
  rw [htotal]
  exact ⟨answered_eleven, by decide +kernel, by decide +kernel⟩

end HomeStack.Usage

import HomeStack.SetupBuild

/-! The result rows of a setup run, and how work that did not pass its preflight blocks
the rest of its application and what depends on it (`run_plan` of `setup/engine.rs`). -/

namespace HomeStack.Setup

inductive Status
  | notRun
  | blocked
  | succeeded
  | alreadyReady
  | failed
  deriving DecidableEq

/-- One item's result in a run. -/
structure Row where
  id : Text
  label : Text
  group : Text
  status : Status
  detail : Text
  deriving DecidableEq

def resultRow (entry : Entry) : Row := ⟨entry.id, entry.label, entry.group, .notRun, []⟩

/-- Change the first row of this ID. -/
def setRow (id : Text) (status : Status) (detail : Text) : List Row → List Row
  | [] => []
  | row :: rows => if row.id = id then { row with status, detail } :: rows
    else row :: setRow id status detail rows

def isBlocked (row : Row) : Bool := row.status = .blocked

/-- The blocked row that an entry of a unit names, as itself or as a dependency. -/
def blockedLabel (rows : List Row) (entries : List Entry) : Option Text :=
  entries.findSome? fun entry => (entry.id :: entry.dependsOn).findSome? fun id =>
    (rows.find? fun row => row.id = id ∧ isBlocked row).map Row.label

/-- The rows, and the IDs blocked so far by the loop. -/
structure Spread where
  rows : List Row
  newly : List Text

def blockEntry (label : Text) (s : Spread) (entry : Entry) : Except AppError Spread :=
  match s.rows.find? fun row => row.id = entry.id with
  | none => .error ⟨"Missing planned result for " ++ entry.id⟩
  | some row =>
    if isBlocked row then .ok s
    else .ok ⟨setRow entry.id .blocked ("Skipped because " ++ label ++ " did not pass preflight") s.rows,
      s.newly ++ [entry.id]⟩

def blockUnit (s : Spread) (unit : Text × List Entry) : Except AppError Spread :=
  match blockedLabel s.rows unit.2 with
  | none => .ok s
  | some label => unit.2.foldlM (blockEntry label) s

/-- One pass over the units. -/
def blockPass (units : List (Text × List Entry)) (s : Spread) : Except AppError Spread :=
  units.foldlM blockUnit s

/-- The rows that are not blocked. -/
def unblocked (rows : List Row) : Nat := rows.countP fun row => !isBlocked row

/-! ## The loop ends -/

theorem unblocked_setRow {id : Text} {rows : List Row} {row : Row} (detail : Text)
    (hfind : (rows.find? fun r => r.id = id) = some row) (hrow : isBlocked row = false) :
    unblocked (setRow id .blocked detail rows) + 1 = unblocked rows := by
  induction rows with
  | nil => cases hfind
  | cons r rows ih =>
    unfold setRow
    by_cases hid : r.id = id
    · rw [List.find?_cons_of_pos (by simpa using hid)] at hfind
      cases hfind
      rw [if_pos hid, unblocked, unblocked, List.countP_cons_of_neg (by simp [isBlocked]),
        List.countP_cons_of_pos (by simp [hrow])]
    · rw [List.find?_cons_of_neg (by simpa using hid)] at hfind
      have hrest := ih hfind
      simp only [unblocked, hid, ↓reduceIte, List.countP_cons] at hrest ⊢
      omega

/-- A step of the loop changes nothing, or leaves fewer rows unblocked. -/
def Shrinks (s t : Spread) : Prop :=
  t = s ∨ unblocked t.rows < unblocked s.rows ∧ s.newly.length < t.newly.length

theorem Shrinks.trans {s t u : Spread} (h : Shrinks s t) (h' : Shrinks t u) : Shrinks s u := by
  rcases h with rfl | ⟨h₁, h₂⟩
  · exact h'
  · rcases h' with rfl | ⟨h₃, h₄⟩
    · exact Or.inr ⟨h₁, h₂⟩
    · exact Or.inr ⟨by omega, by omega⟩

theorem shrinks_blockEntry {label : Text} {s t : Spread} {entry : Entry}
    (h : blockEntry label s entry = .ok t) : Shrinks s t := by
  unfold blockEntry at h
  cases hfind : s.rows.find? fun row => row.id = entry.id with
  | none =>
    rw [hfind] at h
    cases h
  | some row =>
    rw [hfind] at h
    simp only at h
    split at h
    · cases h
      exact Or.inl rfl
    · rename_i hrow
      cases h
      have hcount := unblocked_setRow ("Skipped because " ++ label ++ " did not pass preflight") hfind
        (by simpa using hrow)
      refine Or.inr ⟨by simp only; omega, by simp⟩

theorem shrinks_foldlM {α : Type} {f : Spread → α → Except AppError Spread}
    (hf : ∀ s a t, f s a = .ok t → Shrinks s t) {l : List α} {s t : Spread} (h : l.foldlM f s = .ok t) :
    Shrinks s t := by
  induction l generalizing s with
  | nil =>
    cases h
    exact Or.inl rfl
  | cons a l ih =>
    obtain ⟨u, hu, h⟩ := Except.bind_ok h
    exact (hf s a u hu).trans (ih h)

theorem shrinks_blockUnit {s t : Spread} {unit : Text × List Entry} (h : blockUnit s unit = .ok t) :
    Shrinks s t := by
  unfold blockUnit at h
  split at h
  · cases h
    exact Or.inl rfl
  · exact shrinks_foldlM (fun _ _ _ h => shrinks_blockEntry h) h

theorem shrinks_blockPass {units : List (Text × List Entry)} {s t : Spread} (h : blockPass units s = .ok t) :
    Shrinks s t :=
  shrinks_foldlM (fun _ _ _ h => shrinks_blockUnit h) h

/-- The loop of `run_plan`: passes until nothing changes. -/
def spread (units : List (Text × List Entry)) (s : Spread) : Except AppError Spread :=
  match _h : blockPass units s with
  | .error e => .error e
  | .ok t => if _hchanged : s.newly.length < t.newly.length then spread units t else .ok t
termination_by unblocked s.rows
decreasing_by
  rcases shrinks_blockPass ‹_› with rfl | h
  · omega
  · exact h.1

/-! ## What it blocks -/

/-- A row of this ID is blocked. -/
def Blocks (rows : List Row) (id : Text) : Prop := ∃ row ∈ rows, row.id = id ∧ isBlocked row = true

/-- The least set of IDs with `failed` that holds all of a unit when it holds one of its
entries or a dependency of one. -/
inductive Closure (units : List (Text × List Entry)) (failed : Text → Prop) : Text → Prop
  | failed {id : Text} (h : failed id) : Closure units failed id
  | unit {unit : Text × List Entry} {cause entry : Entry} {id : Text} (hunit : unit ∈ units)
      (hcause : cause ∈ unit.2)
      (hid : id = cause.id ∨ id ∈ cause.dependsOn) (hblocked : Closure units failed id)
      (hentry : entry ∈ unit.2) :
      Closure units failed entry.id

/-- Rows with one row for each ID. -/
def RowsOf (ids : List Text) (rows : List Row) : Prop := rows.map Row.id = ids

theorem setRow_ids (id : Text) (status : Status) (detail : Text) (rows : List Row) :
    (setRow id status detail rows).map Row.id = rows.map Row.id := by
  induction rows with
  | nil => rfl
  | cons row rows ih =>
    unfold setRow
    split
    · rfl
    · rw [List.map_cons, List.map_cons, ih]

theorem mem_setRow {id : Text} {status : Status} {detail : Text} {rows : List Row}
    {row : Row} (hne : row.id ≠ id) :
    row ∈ setRow id status detail rows ↔ row ∈ rows := by
  induction rows with
  | nil => rfl
  | cons r rows ih =>
    unfold setRow
    split
    · rename_i hid
      have h₁ : row ≠ { r with status, detail } := by
        rintro rfl
        exact hne hid
      have h₂ : row ≠ r := by
        rintro rfl
        exact hne hid
      simp [h₁, h₂]
    · simp [ih]

theorem setRow_mem {id : Text} {rows : List Row} (status : Status) (detail : Text)
    (h : id ∈ rows.map Row.id) :
    ∃ row ∈ setRow id status detail rows, row.id = id ∧ row.status = status := by
  induction rows with
  | nil => cases h
  | cons r rows ih =>
    unfold setRow
    split
    · rename_i hid
      exact ⟨_, List.mem_cons_self, hid, rfl⟩
    · rename_i hid
      obtain ⟨row, hrow, hspec⟩ := ih ((List.mem_cons.mp h).resolve_left fun heq => hid heq.symm)
      exact ⟨row, List.mem_cons_of_mem _ hrow, hspec⟩

theorem blocks_setRow {id : Text} {rows : List Row} (detail : Text) (h : id ∈ rows.map Row.id) (x : Text) :
    Blocks (setRow id .blocked detail rows) x ↔ Blocks rows x ∨ x = id := by
  by_cases hx : x = id
  · subst hx
    refine ⟨fun _ => Or.inr rfl, fun _ => ?_⟩
    obtain ⟨row, hrow, hid, hstatus⟩ := setRow_mem .blocked detail h
    exact ⟨row, hrow, hid, by simp [isBlocked, hstatus]⟩
  · have hmem : ∀ row : Row, row.id = x → (row ∈ setRow id .blocked detail rows ↔ row ∈ rows) :=
      fun row hrow => mem_setRow (hrow ▸ hx)
    constructor
    · rintro ⟨row, hrow, hid, hb⟩
      exact Or.inl ⟨row, (hmem row hid).mp hrow, hid, hb⟩
    · rintro (⟨row, hrow, hid, hb⟩ | heq)
      · exact ⟨row, (hmem row hid).mpr hrow, hid, hb⟩
      · exact absurd heq hx

theorem blockedLabel_none {rows : List Row} {entries : List Entry} (h : blockedLabel rows entries = none) :
    ∀ entry ∈ entries, ∀ id, id = entry.id ∨ id ∈ entry.dependsOn → ¬ Blocks rows id := by
  intro entry hentry id hid ⟨row, hrow, hrowid, hblocked⟩
  have hnone := List.findSome?_eq_none_iff.mp h entry hentry
  have hid : id ∈ entry.id :: entry.dependsOn := List.mem_cons.mpr hid
  have hnone := List.findSome?_eq_none_iff.mp hnone id hid
  rw [Option.map_eq_none_iff, List.find?_eq_none] at hnone
  exact hnone row hrow (by simp [hrowid, hblocked])

theorem blockedLabel_some {rows : List Row} {entries : List Entry} {label : Text}
    (h : blockedLabel rows entries = some label) :
    ∃ entry ∈ entries, ∃ id, (id = entry.id ∨ id ∈ entry.dependsOn) ∧ Blocks rows id := by
  obtain ⟨entry, hentry, h⟩ := List.exists_of_findSome?_eq_some h
  obtain ⟨id, hid, h⟩ := List.exists_of_findSome?_eq_some h
  obtain ⟨row, hrow, _⟩ := Option.map_eq_some_iff.mp h
  have hspec := List.find?_some hrow
  simp only [decide_eq_true_eq] at hspec
  exact ⟨entry, hentry, id, List.mem_cons.mp hid, row, List.mem_of_find?_eq_some hrow, hspec⟩

section

variable {units : List (Text × List Entry)} {failed : Text → Prop} {ids : List Text}

/-- What the loop keeps: a row for each ID, and blocked what must be and nothing else. -/
structure Within (units : List (Text × List Entry)) (failed : Text → Prop) (ids : List Text) (s : Spread) :
    Prop where
  rows : RowsOf ids s.rows
  base : ∀ id, failed id → Blocks s.rows id
  closure : ∀ id, Blocks s.rows id → Closure units failed id

/-- Blocking an entry that has to be. -/
theorem within_blockEntry {s : Spread} (h : Within units failed ids s) {entry : Entry} (hid : entry.id ∈ ids)
    (hclosure : Closure units failed entry.id) (label : Text) :
    ∃ t, blockEntry label s entry = .ok t ∧ Within units failed ids t ∧ Blocks t.rows entry.id ∧
      ∀ id, Blocks s.rows id → Blocks t.rows id := by
  have hmem : entry.id ∈ s.rows.map Row.id := by
    rw [h.rows]
    exact hid
  obtain ⟨row, hrow, hrowid⟩ := List.mem_map.mp hmem
  cases hfind : s.rows.find? fun row => row.id = entry.id with
  | none =>
    have hnone := List.find?_eq_none.mp hfind row hrow
    simp [hrowid] at hnone
  | some found =>
    have hfound : found.id = entry.id := by simpa using List.find?_some hfind
    unfold blockEntry
    rw [hfind]
    simp only
    by_cases hblocked : isBlocked found = true
    · rw [if_pos hblocked]
      exact ⟨s, rfl, h, ⟨found, List.mem_of_find?_eq_some hfind, hfound, hblocked⟩, fun _ hb => hb⟩
    · rw [if_neg hblocked]
      have hset := blocks_setRow ("Skipped because " ++ label ++ " did not pass preflight") hmem
      refine ⟨_, rfl, ⟨?_, ?_, ?_⟩, (hset _).mpr (Or.inr rfl), fun id hb => (hset id).mpr (Or.inl hb)⟩
      · exact (setRow_ids ..).trans h.rows
      · exact fun id hb => (hset id).mpr (Or.inl (h.base id hb))
      · intro id hb
        rcases (hset id).mp hb with hb | rfl
        · exact h.closure id hb
        · exact hclosure

theorem within_blockEntries {s : Spread} (h : Within units failed ids s) (label : Text) {entries : List Entry}
    (hids : ∀ entry ∈ entries, entry.id ∈ ids) (hclosure : ∀ entry ∈ entries, Closure units failed entry.id) :
    ∃ t, entries.foldlM (blockEntry label) s = .ok t ∧ Within units failed ids t ∧
      (∀ entry ∈ entries, Blocks t.rows entry.id) ∧ ∀ id, Blocks s.rows id → Blocks t.rows id := by
  induction entries generalizing s with
  | nil => exact ⟨s, rfl, h, nofun, fun _ hb => hb⟩
  | cons entry entries ih =>
    obtain ⟨t, ht, hwithin, hentry, hkeep⟩ :=
      within_blockEntry h (hids entry List.mem_cons_self) (hclosure entry List.mem_cons_self) label
    obtain ⟨u, hu, hwithin', hentries, hkeep'⟩ := ih hwithin (fun e he => hids e (List.mem_cons_of_mem _ he))
      fun e he => hclosure e (List.mem_cons_of_mem _ he)
    refine ⟨u, ?_, hwithin', ?_, fun id hb => hkeep' id (hkeep id hb)⟩
    · rw [List.foldlM_cons, ht]
      exact hu
    · intro e he
      rcases List.mem_cons.mp he with rfl | he
      · exact hkeep' _ hentry
      · exact hentries e he

theorem within_blockUnit {s : Spread} (h : Within units failed ids s) {unit : Text × List Entry}
    (hunit : unit ∈ units) (hids : ∀ entry ∈ unit.2, entry.id ∈ ids) :
    ∃ t, blockUnit s unit = .ok t ∧ Within units failed ids t ∧
      ∀ id, Blocks s.rows id → Blocks t.rows id := by
  unfold blockUnit
  cases hlabel : blockedLabel s.rows unit.2 with
  | none => exact ⟨s, rfl, h, fun _ hb => hb⟩
  | some label =>
    obtain ⟨cause, hcause, id, hid, hblocks⟩ := blockedLabel_some hlabel
    obtain ⟨t, ht, hwithin, _, hkeep⟩ := within_blockEntries h label hids fun entry hentry =>
      Closure.unit hunit hcause hid (h.closure id hblocks) hentry
    exact ⟨t, ht, hwithin, hkeep⟩

theorem within_blockUnits {s : Spread} (h : Within units failed ids s) {l : List (Text × List Entry)}
    (hl : l ⊆ units) (hids : ∀ unit ∈ units, ∀ entry ∈ unit.2, entry.id ∈ ids) :
    ∃ t, l.foldlM blockUnit s = .ok t ∧ Within units failed ids t := by
  induction l generalizing s with
  | nil => exact ⟨s, rfl, h⟩
  | cons unit l ih =>
    have hunit := hl List.mem_cons_self
    obtain ⟨t, ht, hwithin, _⟩ := within_blockUnit h hunit (hids unit hunit)
    obtain ⟨u, hu, hwithin'⟩ := ih hwithin fun _ hx => hl (List.mem_cons_of_mem _ hx)
    refine ⟨u, ?_, hwithin'⟩
    rw [List.foldlM_cons, ht]
    exact hu

/-- A unit with a blocked row that it names is blocked. -/
def Settled (rows : List Row) (unit : Text × List Entry) : Prop :=
  ∀ cause ∈ unit.2, ∀ id, id = cause.id ∨ id ∈ cause.dependsOn → Blocks rows id →
    ∀ entry ∈ unit.2, Blocks rows entry.id

theorem settled_of_blockUnit {s : Spread} (h : Within units failed ids s) {unit : Text × List Entry}
    (hunit : unit ∈ units) (hids : ∀ entry ∈ unit.2, entry.id ∈ ids) (hsame : blockUnit s unit = .ok s) :
    Settled s.rows unit := by
  intro cause hcause id hid hblocks
  unfold blockUnit at hsame
  cases hlabel : blockedLabel s.rows unit.2 with
  | none => exact absurd hblocks (blockedLabel_none hlabel cause hcause id hid)
  | some label =>
    rw [hlabel] at hsame
    obtain ⟨t, ht, _, hentries, _⟩ := within_blockEntries h label hids fun entry hentry =>
      Closure.unit hunit hcause hid (h.closure id hblocks) hentry
    cases ht.symm.trans hsame
    exact hentries

/-- A pass that blocks nothing leaves every unit settled. -/
theorem settled_of_blockPass {s t : Spread} (h : Within units failed ids s) {l : List (Text × List Entry)}
    (hl : l ⊆ units) (hids : ∀ unit ∈ units, ∀ entry ∈ unit.2, entry.id ∈ ids)
    (hpass : l.foldlM blockUnit s = .ok t) (hsame : ¬ s.newly.length < t.newly.length) :
    t = s ∧ ∀ unit ∈ l, Settled s.rows unit := by
  induction l generalizing s with
  | nil =>
    cases hpass
    exact ⟨rfl, nofun⟩
  | cons unit l ih =>
    have hunit := hl List.mem_cons_self
    have hrest : l ⊆ units := fun _ hx => hl (List.mem_cons_of_mem _ hx)
    obtain ⟨u, hu, hwithin, _⟩ := within_blockUnit h hunit (hids unit hunit)
    rw [List.foldlM_cons, hu] at hpass
    have htail : Shrinks u t := shrinks_foldlM (fun _ _ _ h => shrinks_blockUnit h) hpass
    have hus : u = s := by
      rcases shrinks_blockUnit hu with rfl | ⟨_, hlen⟩
      · rfl
      · rcases htail with rfl | ⟨_, hlen'⟩ <;> omega
    subst hus
    obtain ⟨rfl, hsettled⟩ := ih h hrest hpass hsame
    refine ⟨rfl, ?_⟩
    intro x hx
    rcases List.mem_cons.mp hx with rfl | hx
    · exact settled_of_blockUnit h hunit (hids _ hunit) hu
    · exact hsettled x hx

/-- The loop ends, and what it leaves blocked is the closure. -/
theorem spread_spec {s : Spread} (h : Within units failed ids s)
    (hids : ∀ unit ∈ units, ∀ entry ∈ unit.2, entry.id ∈ ids) :
    ∃ t, spread units s = .ok t ∧ RowsOf ids t.rows ∧ ∀ id, Blocks t.rows id ↔ Closure units failed id := by
  obtain ⟨t, ht, hwithin⟩ := within_blockUnits h (fun _ hx => hx) hids
  have hpass : blockPass units s = .ok t := ht
  rw [spread]
  split
  · rename_i e he
    cases hpass.symm.trans he
  · rename_i u hu
    cases hpass.symm.trans hu
    by_cases hmore : s.newly.length < t.newly.length
    · rw [dif_pos hmore]
      have hless : unblocked t.rows < unblocked s.rows := by
        rcases shrinks_blockPass hpass with rfl | hless
        · omega
        · exact hless.1
      exact spread_spec hwithin hids
    · rw [dif_neg hmore]
      obtain ⟨rfl, hsettled⟩ := settled_of_blockPass h (fun _ hx => hx) hids ht hmore
      refine ⟨t, rfl, h.rows, fun id => ⟨h.closure id, fun hid => ?_⟩⟩
      -- The rows are blocked where they must be, and settled: induction along the closure.
      induction hid with
      | failed hid => exact h.base _ hid
      | unit hunit hcause hid _ hentry ih => exact hsettled _ hunit _ hcause _ hid ih _ hentry
termination_by unblocked s.rows

end

end HomeStack.Setup

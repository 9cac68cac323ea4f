import HomeStack.Error

/-! Surgery on the HomeStack-owned blocks of a VM's description
(`description.rs`): a block is a start marker, a payload and an end marker.
A found range is given by the text before and after it.

`Layout` is what such a description looks like when only this surgery ever
touched it: the user's text and then the blocks, each on a line of its own.
`withBlock_layout` says what setting, replacing and removing a block does to
the layout, and `find_layout` what is found in it. -/

namespace HomeStack.Description

/-- A block in a description: what stands before it, its payload, and what
stands after it. -/
structure Found where
  before : Text
  payload : Text
  after : Text
  deriving DecidableEq, Repr

/-- Every HomeStack block starts with this. -/
def anyMarker : Text := "<!-- homestack-"

def cutOff (label : Text) : CoreError :=
  .unusable ("The " ++ label ++ " in the VM description is cut off")

def find (description start stop label : Text) : Except CoreError (Option Found) :=
  match Text.splitOnce start description with
  | none => .ok none
  | some (before, rest) =>
    match Text.splitOnce stop rest with
    | none => .error (cutOff label)
    | some (payload, after) =>
      if Text.contains anyMarker payload then .error (cutOff label)
      else .ok (some ⟨before, payload, after⟩)

/-- The description without a found block and the one LF that belongs to it:
the one after a block at the very start, else the one before it when the
block ends its line. -/
def cutBlock (f : Found) : Text :=
  if f.before.isEmpty then f.before ++ Text.stripFirstLf f.after
  else if f.after.isEmpty || Text.startsWith "\n" f.after then
    Text.stripLastLf f.before ++ f.after
  else f.before ++ f.after

def withBlock (current start stop label : Text) (payload : Option Text) :
    Except CoreError Text := do
  let found ← find current start stop label
  match payload with
  | some payload =>
    let block := start ++ payload ++ stop
    match found with
    | some f => return f.before ++ block ++ f.after
    | none =>
      let separator : Text := if current.isEmpty then "" else "\n"
      return current ++ separator ++ block
  | none =>
    match found with
    | none => return current
    | some f => return cutBlock f

/-! ## Markers -/

/-- The markers of one kind of block. The first character of each marker
occurs in it once, and the start marker is a HomeStack marker. -/
structure Markers where
  start : Text
  stop : Text
  label : Text
  tail : Text
  start_eq : start = anyMarker ++ tail
  tail_clean : '<' ∉ tail ∧ '\n' ∉ tail
  stop_eq : stop = " -->"

/-- A payload between markers: base64 text has neither of these. -/
def Clean (p : Text) : Prop := ∀ c ∈ p, c ≠ '<' ∧ Text.isWhitespace c = false

/-- Two kinds of blocks cannot be taken for one another. -/
def Apart (k l : Markers) : Prop := ∀ t : Text, k.tail.isPrefixOf? (l.tail ++ t) = none

namespace Markers

/-- The block of `k` with payload `p`. -/
def block (k : Markers) (p : Text) : Text := k.start ++ p ++ k.stop

def find (k : Markers) (d : Text) : Except CoreError (Option Found) :=
  Description.find d k.start k.stop k.label

def withBlock (k : Markers) (d : Text) (p : Option Text) : Except CoreError Text :=
  Description.withBlock d k.start k.stop k.label p

theorem withBlock_set_found {k : Markers} {d : Text} {f : Found} (h : k.find d = .ok (some f))
    (p : Text) : k.withBlock d (some p) = .ok (f.before ++ k.block p ++ f.after) := by
  rw [Markers.find] at h
  simp only [Markers.withBlock, Description.withBlock, h]
  rfl

theorem withBlock_unset_found {k : Markers} {d : Text} {f : Found} (h : k.find d = .ok (some f)) :
    k.withBlock d none = .ok (cutBlock f) := by
  rw [Markers.find] at h
  simp only [Markers.withBlock, Description.withBlock, h]
  rfl

theorem withBlock_unset_absent {k : Markers} {d : Text} (h : k.find d = .ok none) :
    k.withBlock d none = .ok d := by
  rw [Markers.find] at h
  simp only [Markers.withBlock, Description.withBlock, h]
  rfl

theorem start_cons (k : Markers) : k.start = '<' :: ("!-- homestack-" ++ k.tail) := k.start_eq

theorem lf_not_mem_start (k : Markers) : '\n' ∉ k.start := by
  rw [start_cons]
  simp [k.tail_clean.2]

theorem start_once (k : Markers) : '<' ∉ ("!-- homestack-" : Text) ++ k.tail := by
  simp [k.tail_clean.1]

theorem block_cons (k : Markers) (p : Text) :
    k.block p = '<' :: ("!-- homestack-" ++ k.tail ++ p ++ " -->") := by
  simp [block, start_cons, k.stop_eq]

theorem block_ne_nil (k : Markers) (p : Text) : k.block p ≠ [] := by simp [block_cons]

/-- A block of another kind holds no start marker of this one. -/
theorem not_contains_block {k l : Markers} (h : Apart k l) {p : Text} (hp : Clean p) :
    Text.splitOnce k.start (l.block p) = none := by
  rw [← Text.contains_eq_false_iff, start_cons, block_cons]
  apply Text.contains_cons_false
  · simp only [List.mem_append, not_or]
    exact ⟨⟨⟨by decide, l.tail_clean.1⟩, fun hc => (hp _ hc).1 rfl⟩, by decide⟩
  · have hk : (("!-- homestack-" : Text) ++ k.tail).isPrefixOf?
        ("!-- homestack-" ++ (l.tail ++ (p ++ " -->"))) = none := by
      simpa [List.isPrefixOf?] using h (p ++ " -->")
    simpa [List.isPrefixOf?] using hk

/-- A text without any HomeStack marker holds no start marker. -/
theorem not_contains_user (k : Markers) {s : Text} (h : Text.contains anyMarker s = false) :
    Text.splitOnce k.start s = none := by
  cases hs : Text.splitOnce k.start s with
  | none => rfl
  | some ab =>
    obtain ⟨a, b⟩ := ab
    -- the same place would be an occurrence of the shorter marker
    exfalso
    have e := Text.splitOnce_some hs
    rw [k.start_eq] at e
    have hc : Text.contains anyMarker (a ++ (anyMarker ++ (k.tail ++ b))) = true := by
      exact Text.contains_append_of_contains _ _ (Text.contains_self_append _ _)
    rw [show s = a ++ (anyMarker ++ (k.tail ++ b)) by simpa using e, hc] at h
    cases h

end Markers

/-! ## Layouts -/

/-- Put a block at the end of a description, on a line of its own. -/
def addBlock (d : Text) (b : Markers × Text) : Text :=
  if d = [] then b.1.block b.2 else d ++ '\n' :: b.1.block b.2

theorem Markers.withBlock_set_absent {k : Markers} {d : Text} (h : k.find d = .ok none)
    (p : Text) : k.withBlock d (some p) = .ok (addBlock d (k, p)) := by
  rw [Markers.find] at h
  simp only [Markers.withBlock, Description.withBlock, h, addBlock]
  cases d with
  | nil => rfl
  | cons c d => simp [Markers.block, bind, Except.bind, pure, Except.pure]

/-- The user's text `s` followed by the blocks `bs`. -/
def layout (s : Text) (bs : List (Markers × Text)) : Text := bs.foldl addBlock s

/-- The blocks of a layout have clean payloads and pairwise different kinds. -/
structure Proper (bs : List (Markers × Text)) : Prop where
  clean : ∀ b ∈ bs, Clean b.2
  apart : bs.Pairwise fun a b => Apart a.1 b.1 ∧ Apart b.1 a.1

/-- What follows a block in a layout: the later blocks, a line each. -/
def tailBlocks (bs : List (Markers × Text)) : Text := bs.flatMap fun b => '\n' :: b.1.block b.2

theorem layout_of_ne_nil {d : Text} (hd : d ≠ []) (bs : List (Markers × Text)) :
    layout d bs = d ++ tailBlocks bs := by
  induction bs generalizing d with
  | nil => simp [layout, tailBlocks]
  | cons b bs ih =>
    have e : addBlock d b = d ++ '\n' :: b.1.block b.2 := if_neg hd
    have : layout d (b :: bs) = layout (addBlock d b) bs := rfl
    rw [this, e, ih (by simp)]
    simp [tailBlocks]

/-- What precedes the block that comes after the blocks `xs`. -/
def headBlocks (s : Text) (xs : List (Markers × Text)) : Text :=
  if layout s xs = [] then [] else layout s xs ++ ['\n']

/-- A layout around one of its blocks. -/
theorem layout_split (s : Text) (xs ys : List (Markers × Text)) (k : Markers) (p : Text) :
    layout s (xs ++ (k, p) :: ys) = headBlocks s xs ++ (k.block p ++ tailBlocks ys) := by
  have e : layout s (xs ++ (k, p) :: ys) = layout (addBlock (layout s xs) (k, p)) ys := by
    simp [layout]
  rw [e, headBlocks, addBlock]
  split
  · rw [layout_of_ne_nil (k.block_ne_nil p)]; rfl
  · rw [layout_of_ne_nil (by simp)]; simp

/-- A layout without blocks of a kind holds no start marker of it. -/
theorem not_contains_layout {k : Markers} {s : Text} (hs : Text.contains anyMarker s = false)
    (xs : List (Markers × Text)) (hc : ∀ b ∈ xs, Clean b.2) (ha : ∀ b ∈ xs, Apart k b.1) :
    Text.splitOnce k.start (layout s xs) = none := by
  induction xs using List.reverseRecOn with
  | nil => exact k.not_contains_user hs
  | append_singleton xs b ih =>
    have ih := ih (fun a h => hc a (by simp [h])) (fun a h => ha a (by simp [h]))
    have hb := Markers.not_contains_block (ha b (by simp)) (hc b (by simp))
    have e : layout s (xs ++ [b]) = addBlock (layout s xs) b := by simp [layout]
    rw [e, addBlock]
    split
    · exact hb
    · rw [Text.splitOnce_append_sep (by simp [Markers.start_cons]) ih k.lf_not_mem_start, hb]
      rfl

theorem find_absent {k : Markers} {s : Text} (hs : Text.contains anyMarker s = false)
    {bs : List (Markers × Text)} (hc : ∀ b ∈ bs, Clean b.2) (ha : ∀ b ∈ bs, Apart k b.1) :
    k.find (layout s bs) = .ok none := by
  simp [Markers.find, find, not_contains_layout hs bs hc ha]

/-- The block of a layout is found whole, with what stands around it. -/
theorem find_layout {k : Markers} {s p : Text} (hs : Text.contains anyMarker s = false)
    {xs : List (Markers × Text)} (ys : List (Markers × Text)) (hp : Clean p)
    (hc : ∀ b ∈ xs, Clean b.2) (ha : ∀ b ∈ xs, Apart k b.1) :
    k.find (layout s (xs ++ (k, p) :: ys)) = .ok (some ⟨headBlocks s xs, p, tailBlocks ys⟩) := by
  have hx := not_contains_layout hs xs hc ha
  have hh : Text.splitOnce k.start (headBlocks s xs) = none := by
    rw [headBlocks]
    split
    · simp [Markers.start_cons, Text.splitOnce]
    · rw [Text.splitOnce_append_sep (by simp [Markers.start_cons]) hx k.lf_not_mem_start]
      simp [Markers.start_cons, Text.splitOnce]
  have h1 : Text.splitOnce k.start (layout s (xs ++ (k, p) :: ys)) =
      some (headBlocks s xs, p ++ ' ' :: ("-->" ++ tailBlocks ys)) := by
    rw [layout_split, k.start_cons, k.block_cons]
    rw [k.start_cons] at hh
    rw [show (headBlocks s xs ++ ('<' :: ("!-- homestack-" ++ k.tail ++ p ++ " -->") ++ tailBlocks ys) : Text)
      = headBlocks s xs ++ '<' :: (("!-- homestack-" ++ k.tail) ++ (p ++ ' ' :: ("-->" ++ tailBlocks ys)))
      by simp]
    exact Text.splitOnce_append k.start_once hh
  have hsp : ' ' ∉ p := fun h => by simpa [Text.isWhitespace] using (hp _ h).2
  have h2 : Text.splitOnce k.stop (p ++ ' ' :: ("-->" ++ tailBlocks ys)) = some (p, tailBlocks ys) := by
    rw [k.stop_eq]
    exact Text.splitOnce_append (by decide) (Text.splitOnce_none_of_not_mem _ _ hsp)
  have h3 : Text.contains anyMarker p = false :=
    Text.contains_false_of_not_mem _ _ fun h => (hp _ h).1 rfl
  simp only [Markers.find, find, h1, h2, h3, Bool.false_eq_true, ↓reduceIte]

/-- Setting an absent block appends it. -/
theorem withBlock_add {k : Markers} {s : Text} (hs : Text.contains anyMarker s = false)
    {bs : List (Markers × Text)} (hc : ∀ b ∈ bs, Clean b.2) (ha : ∀ b ∈ bs, Apart k b.1) (p : Text) :
    k.withBlock (layout s bs) (some p) = .ok (layout s (bs ++ [(k, p)])) := by
  rw [Markers.withBlock_set_absent (find_absent hs hc ha)]
  simp [layout]

/-- Setting a present block replaces its payload in place. -/
theorem withBlock_replace {k : Markers} {s p : Text} (hs : Text.contains anyMarker s = false)
    {xs : List (Markers × Text)} (ys : List (Markers × Text)) (hp : Clean p)
    (hc : ∀ b ∈ xs, Clean b.2) (ha : ∀ b ∈ xs, Apart k b.1) (q : Text) :
    k.withBlock (layout s (xs ++ (k, p) :: ys)) (some q) = .ok (layout s (xs ++ (k, q) :: ys)) := by
  rw [Markers.withBlock_set_found (find_layout hs ys hp hc ha), layout_split]
  simp

/-- Removing an absent block changes nothing. -/
theorem withBlock_remove_absent {k : Markers} {s : Text} (hs : Text.contains anyMarker s = false)
    {bs : List (Markers × Text)} (hc : ∀ b ∈ bs, Clean b.2) (ha : ∀ b ∈ bs, Apart k b.1) :
    k.withBlock (layout s bs) none = .ok (layout s bs) := by
  exact Markers.withBlock_unset_absent (find_absent hs hc ha)

/-- Removing a block takes its line and nothing else. -/
theorem withBlock_remove {k : Markers} {s p : Text} (hs : Text.contains anyMarker s = false)
    {xs : List (Markers × Text)} (ys : List (Markers × Text)) (hp : Clean p)
    (hc : ∀ b ∈ xs, Clean b.2) (ha : ∀ b ∈ xs, Apart k b.1) :
    k.withBlock (layout s (xs ++ (k, p) :: ys)) none = .ok (layout s (xs ++ ys)) := by
  have happ : layout s (xs ++ ys) = layout (layout s xs) ys := by simp [layout]
  rw [Markers.withBlock_unset_found (find_layout hs ys hp hc ha), happ, headBlocks]
  by_cases hd : layout s xs = []
  · -- the block is the first thing: the separator after it goes
    rw [if_pos hd, hd]
    cases ys with
    | nil => rfl
    | cons b ys =>
      have e : layout [] (b :: ys) = layout (b.1.block b.2) ys := rfl
      rw [e, layout_of_ne_nil (b.1.block_ne_nil b.2)]
      rfl
  · -- the separator before it goes
    have ht : ((tailBlocks ys).isEmpty || Text.startsWith "\n" (tailBlocks ys)) = true := by
      cases ys <;> rfl
    rw [if_neg hd, layout_of_ne_nil hd, cutBlock, ht]
    simp

end HomeStack.Description

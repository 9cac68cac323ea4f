import HomeStack.Documents
import HomeStack.Lib.JsonPath
import HomeStack.Lib.Result
import HomeStack.SetupPlan

/-! Patching a JSON document (`merge_document` of `setup/documents.rs`): the declared leaves are
looked up, set, written out with the rest of the document and read again. Floats are opaque: how
they are printed, read and compared are parameters. -/

namespace HomeStack.Documents

open JsonText
open Setup (AppError LeafState)

/-! ## Values -/

/-- `toml::Value`; a date is its text. -/
inductive Toml (F : Type)
  | string (text : Text)
  | integer (number : Int)
  | float (number : F)
  | boolean (flag : Bool)
  | datetime (text : Text)
  | array (items : List (Toml F))
  | table (entries : List (Text × Toml F))

/-- A value as the comparisons see it. -/
inductive Plain (F : Type)
  | null
  | bool (flag : Bool)
  | int (number : Int)
  | float (number : F)
  | str (text : Text)
  | list (items : List (Plain F))
  | map (entries : List (Text × Plain F))
  | other (text : Text)

section

variable {F : Type}

mutual

def Plain.ofToml : Toml F → Plain F
  | .string text => .str text
  | .integer number => .int number
  | .float number => .float number
  | .boolean flag => .bool flag
  | .datetime text => .other text
  | .array items => .list (Plain.ofTomlItems items)
  | .table entries => .map (Plain.ofTomlEntries entries)

def Plain.ofTomlItems : List (Toml F) → List (Plain F)
  | [] => []
  | item :: items => Plain.ofToml item :: Plain.ofTomlItems items

def Plain.ofTomlEntries : List (Text × Toml F) → List (Text × Plain F)
  | [] => []
  | (k, v) :: entries => (k, Plain.ofToml v) :: Plain.ofTomlEntries entries

end

/-- `parse` of an `i128`. -/
def parseI128 (s : Text) : Option Int :=
  match s with
  | '-' :: digits =>
    if digits ≠ [] ∧ Text.allDigits digits ∧ Text.digitsValue digits ≤ 2 ^ 127 then
      some (-(Text.digitsValue digits : Int))
    else none
  | _ => (Text.parseNat (2 ^ 127) s).map Int.ofNat

mutual

def ofToml : Toml F → Json F
  | .string text => .str text
  | .integer number => .int (Json.intText number)
  | .float number => .float number
  | .boolean flag => .bool flag
  | .datetime text => .str text
  | .array items => .arr (ofTomlItems items)
  | .table entries => .obj (ofTomlEntries entries)

def ofTomlItems : List (Toml F) → List (Json F)
  | [] => []
  | item :: items => ofToml item :: ofTomlItems items

def ofTomlEntries : List (Text × Toml F) → List (Text × Json F)
  | [] => []
  | (k, v) :: entries => (k, ofToml v) :: ofTomlEntries entries

end

mutual

def plain : Json F → Plain F
  | .null => .null
  | .bool flag => .bool flag
  | .int text => match parseI128 text with
    | some number => .int number
    | none => .other text
  | .float number => .float number
  | .str text => .str text
  | .arr items => .list (plainItems items)
  | .obj entries => .map (plainEntries entries)

def plainItems : List (Json F) → List (Plain F)
  | [] => []
  | item :: items => plain item :: plainItems items

def plainEntries : List (Text × Json F) → List (Text × Plain F)
  | [] => []
  | (k, v) :: entries => (k, plain v) :: plainEntries entries

end

variable (floatEq : F → F → Bool)

mutual

def sameValue : Plain F → Plain F → Bool
  | .null, .null => true
  | .bool a, .bool b => a == b
  | .int a, .int b => a == b
  | .float a, .float b => floatEq a b
  | .str a, .str b => a == b
  | .list a, .list b => a.length == b.length && sameItems a b
  | .map a, .map b => a.length == b.length && sameEntries a b
  | _, _ => false

/-- `zip` and `all` -/
def sameItems : List (Plain F) → List (Plain F) → Bool
  | x :: xs, y :: ys => sameValue x y && sameItems xs ys
  | _, _ => true

/-- Every entry is among the others. -/
def sameEntries : List (Text × Plain F) → List (Text × Plain F) → Bool
  | [], _ => true
  | (k, v) :: rest, b => (b.any fun (l, child) => l == k && sameValue v child) && sameEntries rest b

end

end

/-! ## Printing -/

/-- The escapes of `json_string`, one character at a time. -/
def jsonChar (c : Char) : Text :=
  if c = '"' then ['\\', '"']
  else if c = '\\' then ['\\', '\\']
  else if c = '\n' then ['\\', 'n']
  else if c = '\r' then ['\\', 'r']
  else if c = '\t' then ['\\', 't']
  else if c = '\x08' then ['\\', 'b']
  else if c = '\x0c' then ['\\', 'f']
  else if c.toNat < 0x20 then '\\' :: 'u' :: (Nat.toDigits 16 c.toNat).leftpad 4 '0'
  else [c]

def jsonString (text : Text) : Text := '"' :: (text.flatMap jsonChar ++ ['"'])

def indent (depth : Nat) : Text := List.replicate (2 * depth) ' '

section

variable {F : Type} (print : F → Text)

mutual

/-- `Json::dump`; `print` is `python_float`. -/
def dump (depth : Nat) : Json F → Text
  | .null => "null"
  | .bool flag => if flag then "true".toList else "false".toList
  | .int text => text
  | .float number => print number
  | .str text => jsonString text
  | .arr [] => "[]"
  | .arr (item :: items) =>
    "[\n".toList ++ List.intercalate ",\n".toList (dumpItems (depth + 1) (item :: items)) ++
      '\n' :: (indent depth ++ [']'])
  | .obj [] => "\x7b\x7d"
  | .obj (e :: entries) =>
    "\x7b\n".toList ++ List.intercalate ",\n".toList (dumpEntries (depth + 1) (e :: entries)) ++
      '\n' :: (indent depth ++ ['\x7d'])

def dumpItems (depth : Nat) : List (Json F) → List Text
  | [] => []
  | item :: items => (indent depth ++ dump depth item) :: dumpItems depth items

def dumpEntries (depth : Nat) : List (Text × Json F) → List Text
  | [] => []
  | (k, v) :: entries => (indent depth ++
      (jsonString k ++ (": ".toList ++ dump depth v))) :: dumpEntries depth entries

end

end

/-! ## Merging -/

/-- A leaf of the configuration: its path and the desired value. -/
abbrev Leaf (F : Type) := List Text × Toml F

def displayPath (path : List Text) : Text := if path = [] then "<root>" else List.intercalate ".".toList path

def requiresMapping (path at' : List Text) : AppError :=
  ⟨"Configuration path ".toList ++ displayPath path ++ " requires a mapping at ".toList ++ displayPath at'⟩

section

variable {F : Type}

/-- `check_leaves`, after the paths in `seen`. -/
def checkLeaves (seen : List (List Text)) : List (Leaf F) → Except AppError Unit
  | [] => .ok ()
  | (path, _) :: leaves =>
    if path = [] then .error ⟨"Structured configuration paths must contain one or more text keys"⟩
    else if seen.contains path then .error ⟨"Structured configuration contains duplicate managed paths"⟩
    else checkLeaves (seen ++ [path]) leaves

/-- The loop of `Document::lookup`: what is left of `path` below the value at `done`. -/
def lookupFrom (path : List Text) (done : List Text) : Json F → List Text → Except AppError (Option (Plain F))
  | .obj entries, [key] => .ok ((find key entries).map plain)
  | .obj entries, segment :: rest =>
    match find segment entries with
    | none => .ok none
    | some child =>
      if isObj child then lookupFrom path (done ++ [segment]) child rest
      else .error (requiresMapping path (done ++ [segment]))
  | _, _ => .error (requiresMapping path done)

def lookup (document : Json F) (path : List Text) : Except AppError (Option (Plain F)) :=
  lookupFrom path [] document path

def jsonSet (document : Json F) (path : List Text) (value : Json F) : Json F := setAt document path value

/-- `Document::parse` -/
def parseDocument (readFloat : Text → Option F) : Option Text → Except AppError (Json F)
  | none => .ok (.obj [])
  | some text => match parse readFloat text with
    | some json => .ok json
    | none => .error ⟨"JSON configuration could not be parsed"⟩

variable (floatEq : F → F → Bool)

def set (document : Json F) (leaf : Leaf F) : Except AppError (LeafState × Json F) := do
  let found ← lookup document leaf.1
  match found with
  | some current =>
    if sameValue floatEq current (.ofToml leaf.2) then return (.matching, document)
    else return (.different, jsonSet document leaf.1 (ofToml leaf.2))
  | none => return (.missing, jsonSet document leaf.1 (ofToml leaf.2))

/-- The leaves one after the other. -/
def setAll (document : Json F) : List (Leaf F) → Except AppError (List LeafState × Json F)
  | [] => .ok ([], document)
  | leaf :: leaves => do
    let (state, document) ← set floatEq document leaf
    let (states, document) ← setAll document leaves
    return (state :: states, document)

/-- A leaf of the candidate that was read again. -/
def checkLeaf (checked : Json F) (leaf : Leaf F) : Except AppError Unit :=
  match lookup checked leaf.1 with
  | .ok (some found) =>
    if sameValue floatEq found (.ofToml leaf.2) then .ok ()
    else .error ⟨"Structured configuration candidate does not match managed values"⟩
  | _ => .error ⟨"Structured configuration candidate lost a managed value"⟩

variable (readFloat : Text → Option F) (print : F → Text)

/-- The text to be written: the old one where nothing changes. -/
def candidate (text : Option Text) (states : List LeafState) (document : Json F) : Text :=
  match text with
  | some text => if states.all (· = .matching) then text else dump print 0 document ++ ['\n']
  | none => dump print 0 document ++ ['\n']

/-- `merge_document` of a JSON document -/
def mergeDocument (text : Option Text) (leaves : List (Leaf F)) :
    Except AppError (Text × List LeafState) := do
  checkLeaves [] leaves
  let document ← parseDocument readFloat text
  if !isObj document then throw ⟨"Structured configuration document root must be a mapping"⟩
  -- every path first: a structural conflict blocks the whole candidate
  leaves.forM fun leaf => do let _ ← lookup document leaf.1
  let (states, document) ← setAll floatEq document leaves
  let out := candidate print text states document
  let checked ← parseDocument readFloat (some out)
  if !isObj checked then throw ⟨"Structured configuration candidate root is not a mapping"⟩
  leaves.forM (checkLeaf floatEq checked)
  return (out, states)

end

/-! ## What is printed is read back -/

theorem hex_control : ∀ n < 0x20, code.hex ((Nat.toDigits 16 n).leftpad 4 '0') = some n ∧
    isHigh n = false := by decide

theorem jsonChar_reads {s t : Text} (h : Reads code s t) (c : Char) :
    Reads code (jsonChar c ++ s) (c :: t) := by
  unfold jsonChar
  split_ifs with h₁ h₂ h₃ h₄ h₅ h₆ h₇ hcontrol
  · subst h₁
    exact .escape rfl h
  · subst h₂
    exact .escape rfl h
  · subst h₃
    exact .escape rfl h
  · subst h₄
    exact .escape rfl h
  · subst h₅
    exact .escape rfl h
  · subst h₆
    exact .escape rfl h
  · subst h₇
    exact .escape rfl h
  · obtain ⟨hhex, hhigh⟩ := hex_control c.toNat hcontrol
    have hchar : unitChar c.toNat = c := by
      rw [unitChar, if_pos (.inl (by omega)), Char.ofNat_toNat]
    have hunit : Reads code _ (unitChar c.toNat :: t) :=
      .unit hhex (fun hpaired => absurd hpaired.1 (by simp [hhigh])) h
    rwa [hchar] at hunit
  · exact .char (by omega) h₁ h₂ h

theorem jsonString_reads (text : Text) : Reads code (text.flatMap jsonChar) text := by
  induction text with
  | nil => exact .nil
  | cons c text ih =>
    rw [List.flatMap_cons]
    exact jsonChar_reads ih c

theorem ws_indent (n : Nat) : Ws (indent n) := by
  intro c hc
  rw [List.eq_of_mem_replicate hc]
  rfl

theorem ws_newline {w : Text} (h : Ws w) : Ws ('\n' :: w) := by
  intro c hc
  rcases List.mem_cons.mp hc with rfl | hc
  · rfl
  · exact h c hc

theorem ws_nil : Ws [] := by
  intro c hc
  cases hc

section

variable {F : Type}

mutual

/-- Every integer is written as JSON has them. -/
def IntsWritten : Json F → Prop
  | .int text => IntPart text
  | .arr items => IntsWrittenItems items
  | .obj entries => IntsWrittenEntries entries
  | _ => True

def IntsWrittenItems : List (Json F) → Prop
  | [] => True
  | v :: vs => IntsWritten v ∧ IntsWrittenItems vs

def IntsWrittenEntries : List (Text × Json F) → Prop
  | [] => True
  | (_, v) :: es => IntsWritten v ∧ IntsWrittenEntries es

end

variable {readFloat : Text → Option F} {print : F → Text}

mutual

/-- The printed text spells the value, whatever stands before its lines. -/
theorem dump_spells (hprint : ∀ f, IsFloat (print f) ∧ readFloat (print f) = some f) :
    ∀ (v : Json F) (depth : Nat), IntsWritten v → Spells readFloat (Reads code) v (dump print depth v)
  | .null, _, _ => by
    rw [dump, Spells]
  | .bool _, _, _ => by
    rw [dump, Spells]
  | .int text, _, h => by
    rw [dump, Spells]
    rw [IntsWritten] at h
    exact ⟨rfl, h⟩
  | .float f, _, _ => by
    rw [dump, Spells]
    exact hprint f
  | .str text, _, _ => by
    rw [dump, Spells]
    exact ⟨_, rfl, jsonString_reads text⟩
  | .arr [], _, _ => by
    rw [dump, Spells]
    exact ⟨[], rfl, by rw [SpellsItems]; exact ws_nil⟩
  | .arr (item :: items), depth, h => by
    rw [dump, Spells]
    rw [IntsWritten] at h
    exact ⟨'\n' :: (List.intercalate ",\n".toList (dumpItems print (depth + 1) (item :: items)) ++
      '\n' :: indent depth),
      by simp, dumpItems_spells hprint (item :: items) (depth + 1) (by simp) (ws_newline (ws_indent depth)) h⟩
  | .obj [], _, _ => by
    rw [dump, Spells]
    exact ⟨[], rfl, by rw [SpellsEntries]; exact ws_nil⟩
  | .obj (e :: entries), depth, h => by
    rw [dump, Spells]
    rw [IntsWritten] at h
    exact ⟨'\n' :: (List.intercalate ",\n".toList (dumpEntries print (depth + 1) (e :: entries)) ++
      '\n' :: indent depth),
      by simp,
      dumpEntries_spells hprint (e :: entries) (depth + 1) (by simp) (ws_newline (ws_indent depth)) h⟩

theorem dumpItems_spells (hprint : ∀ f, IsFloat (print f) ∧ readFloat (print f) = some f) :
    ∀ (items : List (Json F)) (depth : Nat) {w : Text}, items ≠ [] → Ws w → IntsWrittenItems items →
      SpellsItems readFloat (Reads code) items
        ('\n' :: (List.intercalate ",\n".toList (dumpItems print depth items) ++ w))
  | [], _, _, hne, _, _ => absurd rfl hne
  | [item], depth, w, _, hw, h => by
    rw [IntsWrittenItems] at h
    rw [SpellsItems]
    exact ⟨'\n' :: indent depth, dump print depth item, w, by simp [dumpItems, List.intercalate],
      ws_newline (ws_indent depth), dump_spells hprint item depth h.1, hw⟩
  | item :: item' :: items, depth, w, _, hw, h => by
    rw [IntsWrittenItems] at h
    rw [SpellsItems]
    exact ⟨'\n' :: indent depth, dump print depth item, [],
      '\n' :: (List.intercalate ",\n".toList (dumpItems print depth (item' :: items)) ++ w),
      by simp [dumpItems, List.intercalate], ws_newline (ws_indent depth),
      dump_spells hprint item depth h.1, ws_nil,
      dumpItems_spells hprint (item' :: items) depth (by simp) hw h.2⟩

theorem dumpEntries_spells (hprint : ∀ f, IsFloat (print f) ∧ readFloat (print f) = some f) :
    ∀ (es : List (Text × Json F)) (depth : Nat) {w : Text}, es ≠ [] → Ws w → IntsWrittenEntries es →
      SpellsEntries readFloat (Reads code) es
        ('\n' :: (List.intercalate ",\n".toList (dumpEntries print depth es) ++ w))
  | [], _, _, hne, _, _ => absurd rfl hne
  | [(k, v)], depth, w, _, hw, h => by
    rw [IntsWrittenEntries] at h
    rw [SpellsEntries]
    exact ⟨'\n' :: indent depth, k.flatMap jsonChar, [], [' '], dump print depth v, w,
      by simp [dumpEntries, List.intercalate, jsonString], ws_newline (ws_indent depth),
      jsonString_reads k, ws_nil,
      by simp [Ws, isWs], dump_spells hprint v depth h.1, hw⟩
  | (k, v) :: e' :: es, depth, w, _, hw, h => by
    rw [IntsWrittenEntries] at h
    rw [SpellsEntries]
    exact ⟨'\n' :: indent depth, k.flatMap jsonChar, [], [' '], dump print depth v, [],
      '\n' :: (List.intercalate ",\n".toList (dumpEntries print depth (e' :: es)) ++ w),
      by simp [dumpEntries, List.intercalate, jsonString], ws_newline (ws_indent depth),
      jsonString_reads k, ws_nil,
      by simp [Ws, isWs], dump_spells hprint v depth h.1, ws_nil,
      dumpEntries_spells hprint (e' :: es) depth (by simp) hw h.2⟩

end

theorem dump_document (hprint : ∀ f, IsFloat (print f) ∧ readFloat (print f) = some f)
    {v : Json F} (h : IntsWritten v) :
    JsonText.Document readFloat (Reads code) v (dump print 0 v ++ ['\n']) :=
  ⟨[], _, ['\n'], rfl, ws_nil, dump_spells hprint v 0 h, ws_newline ws_nil⟩

/-! The integers of a document that was read, and of a TOML value, are written so. -/

mutual

theorem ints_of_spells : ∀ {v : Json F} {t : Text}, Spells readFloat (Reads code) v t → IntsWritten v
  | .null, _, _ => by simp [IntsWritten]
  | .bool _, _, _ => by simp [IntsWritten]
  | .float _, _, _ => by simp [IntsWritten]
  | .str _, _, _ => by simp [IntsWritten]
  | .int n, t, h => by
    rw [Spells] at h
    rw [IntsWritten]
    exact h.2
  | .arr items, t, h => by
    rw [Spells] at h
    rw [IntsWritten]
    obtain ⟨s, -, hs⟩ := h
    exact ints_of_spellsItems hs
  | .obj entries, t, h => by
    rw [Spells] at h
    rw [IntsWritten]
    obtain ⟨s, -, hs⟩ := h
    exact ints_of_spellsEntries hs

theorem ints_of_spellsItems :
    ∀ {vs : List (Json F)} {t : Text}, SpellsItems readFloat (Reads code) vs t → IntsWrittenItems vs
  | [], _, _ => trivial
  | [v], t, h => by
    rw [SpellsItems] at h
    obtain ⟨w, s, w', -, -, hs, -⟩ := h
    rw [IntsWrittenItems]
    exact ⟨ints_of_spells hs, trivial⟩
  | v :: v' :: vs, t, h => by
    rw [SpellsItems] at h
    obtain ⟨w, s, w', r, -, -, hs, -, hr⟩ := h
    rw [IntsWrittenItems]
    exact ⟨ints_of_spells hs, ints_of_spellsItems hr⟩

theorem ints_of_spellsEntries :
    ∀ {es : List (Text × Json F)} {t : Text}, SpellsEntries readFloat (Reads code) es t →
    IntsWrittenEntries es
  | [], _, _ => trivial
  | [(k, v)], t, h => by
    rw [SpellsEntries] at h
    obtain ⟨w, b, w₁, w₂, s, w', -, -, -, -, -, hs, -⟩ := h
    rw [IntsWrittenEntries]
    exact ⟨ints_of_spells hs, trivial⟩
  | (k, v) :: e' :: es, t, h => by
    rw [SpellsEntries] at h
    obtain ⟨w, b, w₁, w₂, s, w', r, -, -, -, -, -, hs, -, hr⟩ := h
    rw [IntsWrittenEntries]
    exact ⟨ints_of_spells hs, ints_of_spellsEntries hr⟩

end

theorem ints_of_parse {t : Text} {v : Json F} (h : parse readFloat t = some v) : IntsWritten v := by
  obtain ⟨⟨w, s, w', -, -, hs, -⟩, -⟩ := parse_iff_code.mp h
  exact ints_of_spells hs

theorem intPart_ofInt (n : Int) : IntPart (Json.intText n) := intPart_decimal n

mutual

theorem ints_ofToml : ∀ v : Toml F, IntsWritten (ofToml v)
  | .string _ => by simp [ofToml, IntsWritten]
  | .integer n => by
    rw [ofToml, IntsWritten]
    exact intPart_ofInt n
  | .float _ => by simp [ofToml, IntsWritten]
  | .boolean _ => by simp [ofToml, IntsWritten]
  | .datetime _ => by simp [ofToml, IntsWritten]
  | .array items => by
    rw [ofToml, IntsWritten]
    exact ints_ofTomlItems items
  | .table entries => by
    rw [ofToml, IntsWritten]
    exact ints_ofTomlEntries entries

theorem ints_ofTomlItems : ∀ vs : List (Toml F), IntsWrittenItems (ofTomlItems vs)
  | [] => trivial
  | v :: vs => by
    rw [ofTomlItems, IntsWrittenItems]
    exact ⟨ints_ofToml v, ints_ofTomlItems vs⟩

theorem ints_ofTomlEntries : ∀ es : List (Text × Toml F), IntsWrittenEntries (ofTomlEntries es)
  | [] => trivial
  | (k, v) :: es => by
    rw [ofTomlEntries, IntsWrittenEntries]
    exact ⟨ints_ofToml v, ints_ofTomlEntries es⟩

end

theorem intsEntries_iff {es : List (Text × Json F)} : IntsWrittenEntries es ↔ ∀ e ∈ es, IntsWritten e.2 := by
  induction es with
  | nil => simp [IntsWrittenEntries]
  | cons e es ih => simp [IntsWrittenEntries, ih]

theorem ints_setAt {v : Json F} {p : List Text} {x : Json F} (hv : IntsWritten v) (hx : IntsWritten x) :
    IntsWritten (setAt v p x) := by
  induction p generalizing v with
  | nil => exact hx
  | cons k p ih =>
    cases v with
    | obj es =>
      rw [IntsWritten, intsEntries_iff] at hv
      rw [setAt, IntsWritten, intsEntries_iff]
      intro e he
      rcases mem_alter he with he | rfl
      · exact hv e he
      · refine ih ?_
        cases hfind : find k es with
        | none => simp [IntsWritten, IntsWrittenEntries]
        | some child => exact hv _ (mem_of_find hfind)
    | _ => exact hv

end

/-! ## Looking up and setting -/

section

variable {F : Type}

theorem lookupFrom_ok {path done p : List Text} {v : Json F} {found : Option (Plain F)}
    (h : lookupFrom path done v p = .ok found) : p ≠ [] ∧ found = (valueAt v p).map plain := by
  induction p generalizing v done with
  | nil => cases v <;> cases h
  | cons k p ih =>
    refine ⟨by simp, ?_⟩
    cases v with
    | obj es =>
      cases p with
      | nil =>
        cases h
        rw [valueAt]
        cases find k es with
        | none => rfl
        | some child => rfl
      | cons l p =>
        rw [lookupFrom] at h
        rw [valueAt]
        split at h
        · rename_i hfind
          cases h
          rw [hfind]
          rfl
        · rename_i child hfind
          rw [hfind, Option.bind_some]
          split at h
          · exact (ih h).2
          · cases h
        · simp
    | _ => cases h

theorem lookup_ok {document : Json F} {path : List Text} {found : Option (Plain F)}
    (h : lookup document path = .ok found) :
    path ≠ [] ∧ found = (valueAt document path).map plain :=
  lookupFrom_ok h

variable (floatEq : F → F → Bool)

/-- The leaf has its desired value. -/
def Holds (document : Json F) (leaf : Leaf F) : Prop :=
  ∃ found, lookup document leaf.1 = .ok (some found) ∧ sameValue floatEq found (.ofToml leaf.2) = true

/-- What a document says of a leaf. -/
def stateIn (document : Json F) (leaf : Leaf F) : LeafState :=
  match valueAt document leaf.1 with
  | none => .missing
  | some v => if sameValue floatEq (plain v) (.ofToml leaf.2) then .matching else .different

variable {floatEq}

theorem stateIn_setAt {leaf : Leaf F} {p : List Text} (h : Apart p leaf.1) (document x : Json F) :
    stateIn floatEq (setAt document p x) leaf = stateIn floatEq document leaf := by
  rw [stateIn, stateIn, valueAt_setAt h]

theorem set_ok {document document' : Json F} {leaf : Leaf F} {state : LeafState}
    (h : set floatEq document leaf = .ok (state, document')) :
    leaf.1 ≠ [] ∧ state = stateIn floatEq document leaf ∧
      (state = .matching ∧ document' = document ∨
        state ≠ .matching ∧ document' = setAt document leaf.1 (ofToml leaf.2)) := by
  obtain ⟨found, hfound, h⟩ := Except.bind_ok h
  obtain ⟨hne, hget⟩ := lookup_ok hfound
  rw [stateIn]
  refine ⟨hne, ?_⟩
  cases hat : valueAt document leaf.1 with
  | none =>
    rw [hat] at hget
    subst hget
    cases h
    exact ⟨rfl, .inr ⟨by simp, rfl⟩⟩
  | some v =>
    rw [hat] at hget
    subst hget
    simp only [Option.map_some] at h ⊢
    split at h
    · rename_i hsame
      cases h
      exact ⟨by rw [if_pos hsame], .inl ⟨rfl, rfl⟩⟩
    · rename_i hsame
      cases h
      exact ⟨by rw [if_neg hsame], .inr ⟨by simp, rfl⟩⟩

theorem set_of_holds {document : Json F} {leaf : Leaf F} (h : Holds floatEq document leaf) :
    set floatEq document leaf = .ok (.matching, document) := by
  obtain ⟨found, hfound, hsame⟩ := h
  simp [set, hfound, hsame, bind, Except.bind, pure, Except.pure]

/-- What every change keeps, setting the leaves keeps. -/
theorem setAll_keeps {I : Json F → Prop} {leaves : List (Leaf F)} {document document' : Json F}
    {states : List LeafState} (hI : ∀ leaf ∈ leaves, ∀ d, I d → I (setAt d leaf.1 (ofToml leaf.2)))
    (hd : I document) (h : setAll floatEq document leaves = .ok (states, document')) : I document' := by
  induction leaves generalizing document states with
  | nil =>
    cases h
    exact hd
  | cons leaf leaves ih =>
    obtain ⟨⟨state, d⟩, hset, h⟩ := Except.bind_ok h
    obtain ⟨⟨states', d'⟩, hrest, h⟩ := Except.bind_ok h
    cases h
    refine ih (fun leaf' hleaf' => hI leaf' (List.mem_cons_of_mem _ hleaf')) ?_ hrest
    obtain ⟨-, -, ⟨-, rfl⟩ | ⟨-, rfl⟩⟩ := set_ok hset
    · exact hd
    · exact hI leaf (by simp) _ hd

/-- Leaves apart from each other are judged by the original. -/
theorem setAll_states {leaves : List (Leaf F)} (hapart : leaves.Pairwise fun a b => Apart a.1 b.1)
    {document document' : Json F} {states : List LeafState}
    (h : setAll floatEq document leaves = .ok (states, document')) : states =
      leaves.map (stateIn floatEq document) := by
  induction leaves generalizing document states with
  | nil =>
    cases h
    rfl
  | cons leaf leaves ih =>
    obtain ⟨⟨state, d⟩, hset, h⟩ := Except.bind_ok h
    obtain ⟨⟨states', d'⟩, hrest, h⟩ := Except.bind_ok h
    cases h
    obtain ⟨hhead, htail⟩ := List.pairwise_cons.mp hapart
    obtain ⟨-, hstate, ⟨-, rfl⟩ | ⟨-, rfl⟩⟩ := set_ok hset
    · rw [hstate, ih htail hrest, List.map_cons]
    · rw [hstate, ih htail hrest, List.map_cons]
      congr 1
      exact List.map_congr_left fun leaf' hleaf' => stateIn_setAt (hhead leaf' hleaf') _ _

theorem setAll_matching {leaves : List (Leaf F)} {document document' : Json F} {states : List LeafState}
    (h : setAll floatEq document leaves = .ok (states, document'))
    (hall : ∀ state ∈ states, state = .matching) :
    document' = document := by
  induction leaves generalizing document states with
  | nil =>
    cases h
    rfl
  | cons leaf leaves ih =>
    obtain ⟨⟨state, d⟩, hset, h⟩ := Except.bind_ok h
    obtain ⟨⟨states', d'⟩, hrest, h⟩ := Except.bind_ok h
    cases h
    obtain ⟨-, -, ⟨-, rfl⟩ | ⟨hdiffers, -⟩⟩ := set_ok hset
    · exact ih hrest fun state' hstate' => hall state' (List.mem_cons_of_mem _ hstate')
    · exact absurd (hall state (by simp)) hdiffers

theorem setAll_of_holds {leaves : List (Leaf F)} {document : Json F}
    (h : ∀ leaf ∈ leaves, Holds floatEq document leaf) :
    setAll floatEq document leaves = .ok (leaves.map fun _ => .matching, document) := by
  induction leaves with
  | nil => rfl
  | cons leaf leaves ih =>
    rw [setAll, set_of_holds (h leaf (by simp))]
    have hrest := ih fun leaf' hleaf' => h leaf' (List.mem_cons_of_mem _ hleaf')
    simp [hrest, bind, Except.bind, pure, Except.pure]

theorem checkLeaf_iff {checked : Json F} {leaf : Leaf F} :
    checkLeaf floatEq checked leaf = .ok () ↔ Holds floatEq checked leaf := by
  unfold checkLeaf Holds
  split
  · rename_i found hfound
    rw [hfound]
    split
    · rename_i hsame
      exact ⟨fun _ => ⟨found, rfl, hsame⟩, fun _ => rfl⟩
    · rename_i hsame
      refine ⟨fun h => (by cases h), ?_⟩
      rintro ⟨found', hfound', hsame'⟩
      cases hfound'
      exact absurd hsame' hsame
  · rename_i hnone
    refine ⟨fun h => (by cases h), ?_⟩
    rintro ⟨found, hfound, -⟩
    exact absurd hfound (hnone found)

end

/-! ## The merge -/

section

variable {F : Type} {floatEq : F → F → Bool} {readFloat : Text → Option F} {print : F → Text}
  {leaves : List (Leaf F)}

theorem parseDocument_ok {text : Text} {document : Json F}
    (h : parseDocument readFloat (some text) = .ok document) :
    parse readFloat text = some document := by
  rw [parseDocument] at h
  split at h
  · rename_i json hjson
    cases h
    exact hjson
  · cases h

/-- A merge that succeeded went through all its steps. -/
theorem mergeDocument_ok {text out : Text} {states : List LeafState}
    (h : mergeDocument floatEq readFloat print (some text) leaves = .ok (out, states)) :
    ∃ document document' checked, checkLeaves [] leaves = .ok () ∧ parse readFloat text = some document ∧
      setAll floatEq document leaves = .ok (states, document') ∧
      out = candidate print (some text) states document' ∧
      parse readFloat out = some checked ∧ isObj checked = true ∧
        ∀ leaf ∈ leaves, Holds floatEq checked leaf := by
  obtain ⟨_, hcheck, h⟩ := Except.bind_ok h
  obtain ⟨document, hparse, h⟩ := Except.bind_ok h
  obtain ⟨-, h⟩ := Except.guard_ok h
  obtain ⟨_, -, h⟩ := Except.bind_ok h
  obtain ⟨⟨states', document'⟩, hset, h⟩ := Except.bind_ok h
  obtain ⟨checked, hchecked, h⟩ := Except.bind_ok h
  obtain ⟨hobj, h⟩ := Except.guard_ok h
  obtain ⟨_, hleaves, h⟩ := Except.bind_ok h
  cases h
  refine ⟨document, document', checked, hcheck, parseDocument_ok hparse, hset, rfl, parseDocument_ok hchecked,
    by simpa using hobj, fun leaf hleaf => checkLeaf_iff.1 (Except.forM_ok hleaves leaf hleaf)⟩

/-- Where every leaf holds, the text comes back. -/
theorem mergeDocument_of_holds {text : Text} {document : Json F} (hleaves : checkLeaves [] leaves = .ok ())
    (hparse : parse readFloat text = some document) (hobj : isObj document = true)
    (h : ∀ leaf ∈ leaves, Holds floatEq document leaf) :
    mergeDocument floatEq readFloat print (some text) leaves = .ok (text, leaves.map fun _ => .matching) := by
  have hdocument : parseDocument readFloat (some text) = .ok document := by
    rw [parseDocument, hparse]
  have hout : candidate print (some text) (leaves.map fun _ => .matching) document = text := by
    simp [candidate]
  have hlookup : (leaves.forM fun leaf => do let _ ← lookup document leaf.1) = .ok () := by
    refine Except.forM_of_ok fun leaf hleaf => ?_
    obtain ⟨found, hfound, -⟩ := h leaf hleaf
    rw [hfound]
    rfl
  have hcheck : leaves.forM (checkLeaf floatEq document) = .ok () :=
    Except.forM_of_ok fun leaf hleaf => checkLeaf_iff.2 (h leaf hleaf)
  have hbind : ∀ {α β : Type} (a : α) (f : α → Except AppError β), (Except.ok a >>= f) = f a := fun _ _ => rfl
  simp only [mergeDocument, hleaves, hbind, hdocument, hobj, Bool.not_true,
    Bool.false_eq_true, if_false, hlookup,
    setAll_of_holds h, hout, hcheck]
  rfl

/-- **A merge is exact, framed and idempotent.** The candidate is a document where every leaf holds;
what stands apart from the leaves is as before, objects keep their keys in order, and leaves apart
from each other get the state they have in the original. The candidate merged again comes back, and
so does a text where every leaf holds. -/
theorem mergeDocument_exact (hprint : ∀ f, IsFloat (print f) ∧ readFloat (print f) = some f) {text : Text}
    {document : Json F} (hparse : parse readFloat text = some document) (hobj : isObj document = true)
    (hleaves : checkLeaves [] leaves = .ok ()) :
    (∀ out states, mergeDocument floatEq readFloat print (some text) leaves = .ok (out, states) →
      ∃ document', parse readFloat out = some document' ∧ isObj document' = true ∧
        (∀ leaf ∈ leaves, Holds floatEq document' leaf) ∧
        (∀ q, (∀ leaf ∈ leaves, Apart leaf.1 q) → valueAt document' q = valueAt document q) ∧
        (∀ q es, (∀ leaf ∈ leaves, ¬ leaf.1 <+: q) → valueAt document q = some (.obj es) →
          ∃ es', valueAt document' q = some (.obj es') ∧ es.map Prod.fst <+: es'.map Prod.fst) ∧
        (leaves.Pairwise (fun a b => Apart a.1 b.1) → states = leaves.map (stateIn floatEq document)) ∧
        mergeDocument floatEq readFloat print (some out) leaves = .ok (out, leaves.map fun _ => .matching)) ∧
    ((∀ leaf ∈ leaves, Holds floatEq document leaf) →
      mergeDocument floatEq readFloat print (some text) leaves =
        .ok (text, leaves.map fun _ => .matching)) := by
  refine ⟨fun out states h => ?_, mergeDocument_of_holds hleaves hparse hobj⟩
  obtain ⟨document₀, changed, checked, -, hparse₀, hset, hout, hchecked, hobj', hholds⟩ := mergeDocument_ok h
  obtain rfl : document = document₀ := Option.some.inj (hparse.symm.trans hparse₀)
  -- what is read again is what was set
  obtain rfl : checked = changed := by
    by_cases hall : ∀ state ∈ states, state = .matching
    · have hsame : out = text := by
        rw [hout, candidate, if_pos (by simpa using hall)]
      rw [setAll_matching hset hall]
      exact Option.some.inj ((hsame ▸ hchecked).symm.trans hparse)
    · have hdump : out = dump print 0 changed ++ ['\n'] := by
        rw [hout, candidate, if_neg (by simpa using hall)]
      have hints : IntsWritten changed :=
        setAll_keeps (fun leaf _ d hd => ints_setAt hd (ints_ofToml leaf.2)) (ints_of_parse hparse) hset
      exact document_unique readsStrings_string (hdump ▸ (parse_iff_code.mp hchecked).1)
        (dump_document hprint hints)
  refine ⟨checked, hchecked, hobj', hholds, fun q hq => ?_, fun q es hq hes => ?_,
    fun hapart => setAll_states hapart hset,
    mergeDocument_of_holds hleaves hchecked hobj' hholds⟩
  · refine setAll_keeps (I := fun d => valueAt d q = valueAt document q) (fun leaf hleaf d hd => ?_) rfl hset
    rw [valueAt_setAt (hq leaf hleaf), hd]
  · refine setAll_keeps (I := fun d => ∃ es', valueAt d q = some (.obj es') ∧
      es.map Prod.fst <+: es'.map Prod.fst)
      (fun leaf hleaf d hd => ?_) ⟨es, hes, List.prefix_rfl⟩ hset
    obtain ⟨es', hes', hkeys⟩ := hd
    obtain ⟨es'', hes'', hkeys'⟩ := keys_setAt (hq leaf hleaf) (ofToml leaf.2) hes'
    exact ⟨es'', hes'', hkeys.trans hkeys'⟩

end

/-- One float, printed and read as `0.5`. -/
def readHalf (t : Text) : Option Unit := if t = "0.5" then some () else none

theorem isFloat_half : IsFloat "0.5".toList :=
  ⟨"0".toList, ".5".toList, [], rfl, ⟨[], "0".toList, rfl, .inl rfl, ⟨by simp, by simp⟩, rfl⟩,
    .inr ⟨"5".toList, rfl, by simp, by simp⟩, .inl rfl, .inl (by simp)⟩

/-- A document with keys that no leaf names. -/
def settings : Text := "\x7b\"k\": [1, \"a\"], \"a\": \x7b\"x\": \"keep\"\x7d, \"b\": null\x7d"

def halfLeaves : List (Leaf Unit) := [(["a".toList, "y".toList], .integer 2), (["b".toList], .float ())]

def settingsMerged : Text :=
  "\x7b\n  \"k\": [\n    1,\n    \"a\"\n  ],\n  \"a\": \x7b\n    \"x\": \"keep\",\n    \"y\": 2\n  \x7d,\n  \"b\": 0.5\n\x7d\n"

theorem merge_settings :
    mergeDocument (fun _ _ => true) readHalf (fun _ => "0.5") (some settings) halfLeaves =
    .ok (settingsMerged, [.missing, .different]) := by decide +kernel

theorem mergeDocument_exact_half : ∃ document document', parse readHalf settings = some document ∧
    parse readHalf settingsMerged = some document' ∧
      (∀ leaf ∈ halfLeaves, Holds (fun _ _ => true) document' leaf) ∧
    valueAt document' ["a".toList, "x".toList] = valueAt document ["a".toList, "x".toList] ∧
    [.missing, .different] = halfLeaves.map (stateIn (fun _ _ => true) document) ∧
    mergeDocument (fun _ _ => true) readHalf (fun _ => "0.5") (some settingsMerged) halfLeaves =
      .ok (settingsMerged, [.matching, .matching]) := by
  have hread : (parse readHalf settings).any isObj = true := by decide +kernel
  obtain ⟨document, hparse, hobj⟩ := (Option.any_eq_true _ _).mp hread
  obtain ⟨document', hmerged, -, hholds, hframe, -, hstates, hagain⟩ :=
    (@mergeDocument_exact Unit (fun _ _ => true) readHalf (fun _ => "0.5") halfLeaves
      (fun _ => ⟨isFloat_half, rfl⟩) settings document hparse hobj rfl).1 _ _ merge_settings
  refine ⟨document, document', hparse, hmerged, hholds, hframe _ ?_, hstates ?_, hagain⟩
  · simp [halfLeaves, Apart]
  · simp [halfLeaves, Apart]

end HomeStack.Documents

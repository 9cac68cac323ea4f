import HomeStack.Lib.JsonText

/-! What stands between the quotes of a JSON string, under a reading of `\u` escapes: which four
characters are a code unit, and which units end a surrogate pair. -/

namespace JsonText

/-- A reading of `\u` escapes. -/
structure Reading where
  hex : Text → Option Nat
  low : Nat → Bool
  plain : ∀ h u, hex h = some u → h.length = 4 ∧ ∀ c ∈ h, c ≠ '"' ∧ c ≠ '\\'

/-- The escapes of one character. -/
def simpleEscape (c : Char) : Option Char :=
  if c = '"' then some '"'
  else if c = '\\' then some '\\'
  else if c = '/' then some '/'
  else if c = 'b' then some '\x08'
  else if c = 'f' then some '\x0c'
  else if c = 'n' then some '\n'
  else if c = 'r' then some '\r'
  else if c = 't' then some '\t'
  else none

def isHigh (u : Nat) : Bool := 0xD800 ≤ u && u < 0xDC00

def isLow (u : Nat) : Bool := 0xDC00 ≤ u && u < 0xE000

def replacement : Char := Char.ofNat 0xFFFD

/-- `char::from_u32`, or the replacement character. -/
def unitChar (u : Nat) : Char := if u.isValidChar then Char.ofNat u else replacement

/-- The code point of a pair. -/
def pairChar (u v : Nat) : Char :=
  unitChar (0x10000 + (u - 0xD800) * 1024 + (v + (2 ^ 32 - 0xDC00)) % 2 ^ 32 % 1024)

/-- A high unit is followed by an escape that ends a pair. -/
def Paired (r : Reading) (u : Nat) (s : Text) : Prop :=
  isHigh u = true ∧ ∃ l v s', s = '\\' :: 'u' :: (l ++ s') ∧ r.hex l = some v ∧ r.low v = true

/-- `Reads r b t`: between quotes, `b` is the text `t`. -/
inductive Reads (r : Reading) : Text → Text → Prop
  | nil : Reads r [] []
  | char {c : Char} {s t : Text} : 0x20 ≤ c.toNat → c ≠ '"' → c ≠ '\\' → Reads r s t →
      Reads r (c :: s) (c :: t)
  | escape {e c : Char} {s t : Text} : simpleEscape e = some c → Reads r s t →
      Reads r ('\\' :: e :: s) (c :: t)
  | pair {h l : Text} {u v : Nat} {s t : Text} : r.hex h = some u → isHigh u = true → r.hex l = some v →
      r.low v = true → Reads r s t →
        Reads r ('\\' :: 'u' :: (h ++ '\\' :: 'u' :: (l ++ s))) (pairChar u v :: t)
  | unit {h : Text} {u : Nat} {s t : Text} : r.hex h = some u → ¬ Paired r u s → Reads r s t →
      Reads r ('\\' :: 'u' :: (h ++ s)) (unitChar u :: t)

/-! ## Where a string ends -/

/-- Every quote is escaped, and every backslash escapes something. -/
inductive Lexical : Text → Prop
  | nil : Lexical []
  | char {c : Char} {s : Text} : c ≠ '"' → c ≠ '\\' → Lexical s → Lexical (c :: s)
  | escape {d : Char} {s : Text} : Lexical s → Lexical ('\\' :: d :: s)

/-- The text up to the first quote that is not escaped. -/
def lexScan : Text → Option (Text × Text)
  | [] => none
  | [c] => if c = '"' then some ([], []) else none
  | c :: d :: s =>
    if c = '"' then some ([], d :: s)
    else if c = '\\' then (lexScan s).map fun (b, r) => (c :: d :: b, r)
    else (lexScan (d :: s)).map fun (b, r) => (c :: b, r)

/-- A quoted string without its quotes. -/
def lexString (s : Text) : Option (Text × Text) := if s.head? = some '"' then lexScan (s.drop 1) else none

attribute [local simp] lexScan

theorem lexScan_quote (s : Text) : lexScan ('"' :: s) = some ([], s) := by
  cases s with
  | nil => rfl
  | cons d s => rfl

theorem lexScan_char {c : Char} (hc : c ≠ '"') (hc' : c ≠ '\\') (s : Text) :
    lexScan (c :: s) = (lexScan s).map fun (b, r) => (c :: b, r) := by
  cases s with
  | nil => simp [lexScan, hc]
  | cons d s => simp [lexScan, hc, hc']

theorem Lexical.scan {b : Text} (h : Lexical b) (r : Text) : lexScan (b ++ '"' :: r) = some (b, r) := by
  induction h with
  | nil => exact lexScan_quote r
  | char hc hc' _ ih => rw [List.cons_append, lexScan_char hc hc', ih, Option.map_some]
  | escape _ ih => simp [lexScan, ih]

theorem lexScan_some {s b r : Text} (h : lexScan s = some (b, r)) : s = b ++ '"' :: r ∧ Lexical b := by
  induction s using lexScan.induct generalizing b r with
  | case1 => cases h
  | case2 =>
    obtain ⟨rfl, rfl⟩ := Prod.mk.inj (Option.some.inj h)
    exact ⟨rfl, .nil⟩
  | case3 c hne =>
    rw [lexScan, if_neg hne] at h
    cases h
  | case4 d s =>
    obtain ⟨rfl, rfl⟩ := Prod.mk.inj (Option.some.inj h)
    exact ⟨rfl, .nil⟩
  | case5 d s hne ih =>
    rw [lexScan, if_neg hne, if_pos rfl] at h
    obtain ⟨⟨b', r'⟩, hscan, hb⟩ := Option.map_eq_some_iff.mp h
    obtain ⟨rfl, rfl⟩ := Prod.mk.inj hb
    obtain ⟨rfl, hlex⟩ := ih hscan
    exact ⟨rfl, .escape hlex⟩
  | case6 c d s hne hne' ih =>
    rw [lexScan, if_neg hne, if_neg hne'] at h
    obtain ⟨⟨b', r'⟩, hscan, hb⟩ := Option.map_eq_some_iff.mp h
    obtain ⟨rfl, rfl⟩ := Prod.mk.inj hb
    obtain ⟨hs, hlex⟩ := ih hscan
    exact ⟨by rw [hs]; rfl, .char hne hne' hlex⟩

/-- Strings that are left as they are written. -/
def Raw (b x : Text) : Prop := x = b ∧ Lexical b

theorem readsStrings_raw : ReadsStrings Raw lexString := by
  intro s x r
  unfold lexString
  refine ⟨fun h => ?_, ?_⟩
  · split at h
    · rename_i hquote
      obtain ⟨hs, hlex⟩ := lexScan_some h
      cases s with
      | nil => cases hquote
      | cons c s =>
        obtain rfl : c = '"' := by simpa using hquote
        exact ⟨x, by simpa using hs, rfl, hlex⟩
    · cases h
  · rintro ⟨b, rfl, rfl, hlex⟩
    simpa using hlex.scan r

theorem Lexical.append_plain {h s : Text} (hplain : ∀ c ∈ h, c ≠ '"' ∧ c ≠ '\\') (hs : Lexical s) :
    Lexical (h ++ s) := by
  induction h with
  | nil => exact hs
  | cons c h ih =>
    have hc := hplain c (by simp)
    exact .char hc.1 hc.2 (ih fun d hd => hplain d (List.mem_cons_of_mem _ hd))

theorem Reads.lexical {r : Reading} {b t : Text} (h : Reads r b t) : Lexical b := by
  induction h with
  | nil => exact .nil
  | char _ hc hc' _ ih => exact .char hc hc' ih
  | escape _ _ ih => exact .escape ih
  | pair hh _ hl _ _ ih =>
    exact .escape (.append_plain (r.plain _ _ hh).2 (.escape (.append_plain (r.plain _ _ hl).2 ih)))
  | unit hh _ _ ih => exact .escape (.append_plain (r.plain _ _ hh).2 ih)

/-! ## Values whose strings are read again -/

section

variable {F S T : Type} (R : S → T → Prop)

mutual

/-- The same value, with related strings. -/
def Related : Value F S → Value F T → Prop
  | .null, .null => True
  | .bool a, .bool b => a = b
  | .int a, .int b => a = b
  | .float a, .float b => a = b
  | .str a, .str b => R a b
  | .arr as, .arr bs => RelatedItems as bs
  | .obj as, .obj bs => RelatedEntries as bs
  | _, _ => False

def RelatedItems : List (Value F S) → List (Value F T) → Prop
  | [], [] => True
  | a :: as, b :: bs => Related a b ∧ RelatedItems as bs
  | _, _ => False

def RelatedEntries : List (S × Value F S) → List (T × Value F T) → Prop
  | [], [] => True
  | (k, a) :: as, (l, b) :: bs => R k l ∧ Related a b ∧ RelatedEntries as bs
  | _, _ => False

end

variable {R}

mutual

theorem Related.height : ∀ {a : Value F S} {b : Value F T}, Related R a b → height a = height b
  | .null, b, h => by cases b <;> simp_all [Related, JsonText.height]
  | .bool _, b, h => by cases b <;> simp_all [Related, JsonText.height]
  | .int _, b, h => by cases b <;> simp_all [Related, JsonText.height]
  | .float _, b, h => by cases b <;> simp_all [Related, JsonText.height]
  | .str _, b, h => by cases b <;> simp_all [Related, JsonText.height]
  | .arr as, .arr bs, h => by
    rw [Related] at h
    rw [JsonText.height, JsonText.height, RelatedItems.height h]
  | .obj as, .obj bs, h => by
    rw [Related] at h
    rw [JsonText.height, JsonText.height, RelatedEntries.height h]

theorem RelatedItems.height : ∀ {as : List (Value F S)} {bs : List (Value F T)}, RelatedItems R as bs →
    heightItems as = heightItems bs
  | [], [], _ => rfl
  | a :: as, b :: bs, h => by
    rw [RelatedItems] at h
    rw [heightItems, heightItems, Related.height h.1, RelatedItems.height h.2]

theorem RelatedEntries.height :
    ∀ {as : List (S × Value F S)} {bs : List (T × Value F T)}, RelatedEntries R as bs →
    heightEntries as = heightEntries bs
  | [], [], _ => rfl
  | (k, a) :: as, (l, b) :: bs, h => by
    rw [RelatedEntries] at h
    rw [heightEntries, heightEntries, Related.height h.2.1, RelatedEntries.height h.2.2]

end

variable {readFloat : Text → Option F} {lit : Text → S → Prop} {lit' : Text → T → Prop}

mutual

/-- A text spells a value when it spells one whose strings are read as its. -/
theorem spells_iff_rel (hlit : ∀ b x, lit' b x ↔ ∃ y, lit b y ∧ R y x) : ∀ {v : Value F T} {t : Text},
    Spells readFloat lit' v t ↔ ∃ raw, Spells readFloat lit raw t ∧ Related R raw v
  | .null, t => by
    refine ⟨fun h => ⟨.null, by simpa [-String.reduceToList, Spells] using h, by simp [Related]⟩, ?_⟩
    rintro ⟨raw, h, hrel⟩
    cases raw <;> simp_all [-String.reduceToList, Related, Spells]
  | .bool b, t => by
    refine ⟨fun h => ⟨.bool b, by simpa [-String.reduceToList, Spells] using h, by simp [Related]⟩, ?_⟩
    rintro ⟨raw, h, hrel⟩
    cases raw <;> simp_all [-String.reduceToList, Related, Spells]
  | .int i, t => by
    refine ⟨fun h => ⟨.int i, by simpa [-String.reduceToList, Spells] using h, by simp [Related]⟩, ?_⟩
    rintro ⟨raw, h, hrel⟩
    cases raw <;> simp_all [-String.reduceToList, Related, Spells]
  | .float f, t => by
    refine ⟨fun h => ⟨.float f, by simpa [-String.reduceToList, Spells] using h, by simp [Related]⟩, ?_⟩
    rintro ⟨raw, h, hrel⟩
    cases raw <;> simp_all [-String.reduceToList, Related, Spells]
  | .str x, t => by
    refine ⟨fun h => ?_, ?_⟩
    · rw [Spells] at h
      obtain ⟨b, rfl, hb⟩ := h
      obtain ⟨y, hy, hyx⟩ := (hlit b x).mp hb
      exact ⟨.str y, by rw [Spells]; exact ⟨b, rfl, hy⟩, by rwa [Related]⟩
    · rintro ⟨raw, h, hrel⟩
      cases raw with
      | str y =>
        rw [Spells] at h
        rw [Related] at hrel
        obtain ⟨b, rfl, hy⟩ := h
        rw [Spells]
        exact ⟨b, rfl, (hlit b x).mpr ⟨y, hy, hrel⟩⟩
      | _ => simp [Related] at hrel
  | .arr vs, t => by
    refine ⟨fun h => ?_, ?_⟩
    · rw [Spells] at h
      obtain ⟨s, rfl, hs⟩ := h
      obtain ⟨raws, hraws, hrel⟩ := (spellsItems_iff_rel hlit).mp hs
      exact ⟨.arr raws, by rw [Spells]; exact ⟨s, rfl, hraws⟩, by rwa [Related]⟩
    · rintro ⟨raw, h, hrel⟩
      cases raw with
      | arr raws =>
        rw [Spells] at h
        rw [Related] at hrel
        obtain ⟨s, rfl, hs⟩ := h
        rw [Spells]
        exact ⟨s, rfl, (spellsItems_iff_rel hlit).mpr ⟨raws, hs, hrel⟩⟩
      | _ => simp [Related] at hrel
  | .obj es, t => by
    refine ⟨fun h => ?_, ?_⟩
    · rw [Spells] at h
      obtain ⟨s, rfl, hs⟩ := h
      obtain ⟨raws, hraws, hrel⟩ := (spellsEntries_iff_rel hlit).mp hs
      exact ⟨.obj raws, by rw [Spells]; exact ⟨s, rfl, hraws⟩, by rwa [Related]⟩
    · rintro ⟨raw, h, hrel⟩
      cases raw with
      | obj raws =>
        rw [Spells] at h
        rw [Related] at hrel
        obtain ⟨s, rfl, hs⟩ := h
        rw [Spells]
        exact ⟨s, rfl, (spellsEntries_iff_rel hlit).mpr ⟨raws, hs, hrel⟩⟩
      | _ => simp [Related] at hrel

theorem spellsItems_iff_rel (hlit : ∀ b x, lit' b x ↔ ∃ y, lit b y ∧ R y x) :
    ∀ {vs : List (Value F T)} {t : Text}, SpellsItems readFloat lit' vs t ↔
    ∃ raws, SpellsItems readFloat lit raws t ∧ RelatedItems R raws vs
  | [], t => by
    refine ⟨fun h => ⟨[], by simpa [SpellsItems] using h, by simp [RelatedItems]⟩, ?_⟩
    rintro ⟨raws, h, hrel⟩
    cases raws with
    | nil => simpa [SpellsItems] using h
    | cons raw raws => simp [RelatedItems] at hrel
  | [v], t => by
    refine ⟨fun h => ?_, ?_⟩
    · rw [SpellsItems] at h
      obtain ⟨w, s, w', rfl, hw, hs, hw'⟩ := h
      obtain ⟨raw, hraw, hrel⟩ := (spells_iff_rel hlit).mp hs
      refine ⟨[raw], ?_, by simpa [RelatedItems] using hrel⟩
      rw [SpellsItems]
      exact ⟨w, s, w', rfl, hw, hraw, hw'⟩
    · rintro ⟨raws, h, hrel⟩
      match raws, h, hrel with
      | [raw], h, hrel =>
        rw [SpellsItems] at h
        rw [RelatedItems] at hrel
        obtain ⟨w, s, w', rfl, hw, hs, hw'⟩ := h
        rw [SpellsItems]
        exact ⟨w, s, w', rfl, hw, (spells_iff_rel hlit).mpr ⟨raw, hs, hrel.1⟩, hw'⟩
      | [], h, hrel => simp [RelatedItems] at hrel
      | _ :: _ :: _, h, hrel => simp [RelatedItems] at hrel
  | v :: v' :: vs, t => by
    refine ⟨fun h => ?_, ?_⟩
    · rw [SpellsItems] at h
      obtain ⟨w, s, w', r, rfl, hw, hs, hw', hr⟩ := h
      obtain ⟨raw, hraw, hrel⟩ := (spells_iff_rel hlit).mp hs
      obtain ⟨raws, hraws, hrels⟩ := (spellsItems_iff_rel hlit).mp hr
      cases raws with
      | nil => simp [RelatedItems] at hrels
      | cons raw' raws =>
        refine ⟨raw :: raw' :: raws, ?_, ?_⟩
        · rw [SpellsItems]
          exact ⟨w, s, w', r, rfl, hw, hraw, hw', hraws⟩
        · rw [RelatedItems]
          exact ⟨hrel, hrels⟩
    · rintro ⟨raws, h, hrel⟩
      match raws, h, hrel with
      | raw :: raw' :: raws, h, hrel =>
        rw [SpellsItems] at h
        rw [RelatedItems] at hrel
        obtain ⟨w, s, w', r, rfl, hw, hs, hw', hr⟩ := h
        rw [SpellsItems]
        exact ⟨w, s, w', r, rfl, hw, (spells_iff_rel hlit).mpr ⟨raw, hs, hrel.1⟩, hw',
          (spellsItems_iff_rel hlit).mpr ⟨raw' :: raws, hr, hrel.2⟩⟩
      | [], h, hrel => simp [RelatedItems] at hrel
      | [_], h, hrel => simp [RelatedItems] at hrel

theorem spellsEntries_iff_rel (hlit : ∀ b x, lit' b x ↔ ∃ y, lit b y ∧ R y x) :
    ∀ {es : List (T × Value F T)} {t : Text},
    SpellsEntries readFloat lit' es t ↔ ∃ raws, SpellsEntries readFloat lit raws t ∧ RelatedEntries R raws es
  | [], t => by
    refine ⟨fun h => ⟨[], by simpa [SpellsEntries] using h, by simp [RelatedEntries]⟩, ?_⟩
    rintro ⟨raws, h, hrel⟩
    cases raws with
    | nil => simpa [SpellsEntries] using h
    | cons raw raws => simp [RelatedEntries] at hrel
  | [(k, v)], t => by
    refine ⟨fun h => ?_, ?_⟩
    · rw [SpellsEntries] at h
      obtain ⟨w, b, w₁, w₂, s, w', rfl, hw, hb, hw₁, hw₂, hs, hw'⟩ := h
      obtain ⟨y, hy, hyk⟩ := (hlit b k).mp hb
      obtain ⟨raw, hraw, hrel⟩ := (spells_iff_rel hlit).mp hs
      refine ⟨[(y, raw)], ?_, by simpa [RelatedEntries] using ⟨hyk, hrel⟩⟩
      rw [SpellsEntries]
      exact ⟨w, b, w₁, w₂, s, w', rfl, hw, hy, hw₁, hw₂, hraw, hw'⟩
    · rintro ⟨raws, h, hrel⟩
      match raws, h, hrel with
      | [(y, raw)], h, hrel =>
        rw [SpellsEntries] at h
        rw [RelatedEntries] at hrel
        obtain ⟨w, b, w₁, w₂, s, w', rfl, hw, hb, hw₁, hw₂, hs, hw'⟩ := h
        rw [SpellsEntries]
        exact ⟨w, b, w₁, w₂, s, w', rfl, hw, (hlit b k).mpr ⟨y, hb, hrel.1⟩, hw₁, hw₂,
          (spells_iff_rel hlit).mpr ⟨raw, hs, hrel.2.1⟩, hw'⟩
      | [], h, hrel => simp [RelatedEntries] at hrel
      | _ :: _ :: _, h, hrel => simp [RelatedEntries] at hrel
  | (k, v) :: e' :: es, t => by
    refine ⟨fun h => ?_, ?_⟩
    · rw [SpellsEntries] at h
      obtain ⟨w, b, w₁, w₂, s, w', r, rfl, hw, hb, hw₁, hw₂, hs, hw', hr⟩ := h
      obtain ⟨y, hy, hyk⟩ := (hlit b k).mp hb
      obtain ⟨raw, hraw, hrel⟩ := (spells_iff_rel hlit).mp hs
      obtain ⟨raws, hraws, hrels⟩ := (spellsEntries_iff_rel hlit).mp hr
      cases raws with
      | nil => simp [RelatedEntries] at hrels
      | cons raw' raws =>
        refine ⟨(y, raw) :: raw' :: raws, ?_, ?_⟩
        · rw [SpellsEntries]
          exact ⟨w, b, w₁, w₂, s, w', r, rfl, hw, hy, hw₁, hw₂, hraw, hw', hraws⟩
        · rw [RelatedEntries]
          exact ⟨hyk, hrel, hrels⟩
    · rintro ⟨raws, h, hrel⟩
      match raws, h, hrel with
      | (y, raw) :: raw' :: raws, h, hrel =>
        rw [SpellsEntries] at h
        rw [RelatedEntries] at hrel
        obtain ⟨w, b, w₁, w₂, s, w', r, rfl, hw, hb, hw₁, hw₂, hs, hw', hr⟩ := h
        rw [SpellsEntries]
        exact ⟨w, b, w₁, w₂, s, w', r, rfl, hw, (hlit b k).mpr ⟨y, hb, hrel.1⟩, hw₁, hw₂,
          (spells_iff_rel hlit).mpr ⟨raw, hs, hrel.2.1⟩, hw',
          (spellsEntries_iff_rel hlit).mpr ⟨raw' :: raws, hr, hrel.2.2⟩⟩
      | [], h, hrel => simp [RelatedEntries] at hrel
      | [_], h, hrel => simp [RelatedEntries] at hrel

end

theorem document_iff_rel (hlit : ∀ b x, lit' b x ↔ ∃ y, lit b y ∧ R y x) {v : Value F T} {t : Text} :
    Document readFloat lit' v t ↔ ∃ raw, Document readFloat lit raw t ∧ Related R raw v := by
  refine ⟨?_, ?_⟩
  · rintro ⟨w, s, w', rfl, hw, hs, hw'⟩
    obtain ⟨raw, hraw, hrel⟩ := (spells_iff_rel hlit).mp hs
    exact ⟨raw, ⟨w, s, w', rfl, hw, hraw, hw'⟩, hrel⟩
  · rintro ⟨raw, ⟨w, s, w', rfl, hw, hs, hw'⟩, hrel⟩
    exact ⟨w, s, w', rfl, hw, (spells_iff_rel hlit).mpr ⟨raw, hs, hrel⟩, hw'⟩

mutual

/-- Every string and key of a value. -/
def All (P : S → Prop) : Value F S → Prop
  | .str s => P s
  | .arr items => AllItems P items
  | .obj entries => AllEntries P entries
  | _ => True

def AllItems (P : S → Prop) : List (Value F S) → Prop
  | [] => True
  | v :: vs => All P v ∧ AllItems P vs

def AllEntries (P : S → Prop) : List (S × Value F S) → Prop
  | [] => True
  | (k, v) :: es => P k ∧ All P v ∧ AllEntries P es

end

variable {P : S → Prop} {R' : S → T → Prop}

mutual

theorem Related.mono (hRR' : ∀ y x, P y → R y x → R' y x) :
    ∀ {a : Value F S} {b : Value F T}, All P a → Related R a b → Related R' a b
  | .null, b, _, h => by cases b <;> simp_all [Related]
  | .bool _, b, _, h => by cases b <;> simp_all [Related]
  | .int _, b, _, h => by cases b <;> simp_all [Related]
  | .float _, b, _, h => by cases b <;> simp_all [Related]
  | .str y, .str x, hP, h => by
    rw [Related] at h ⊢
    rw [All] at hP
    exact hRR' y x hP h
  | .arr as, .arr bs, hP, h => by
    rw [Related] at h ⊢
    rw [All] at hP
    exact RelatedItems.mono hRR' hP h
  | .obj as, .obj bs, hP, h => by
    rw [Related] at h ⊢
    rw [All] at hP
    exact RelatedEntries.mono hRR' hP h

theorem RelatedItems.mono (hRR' : ∀ y x, P y → R y x → R' y x) :
    ∀ {as : List (Value F S)} {bs : List (Value F T)}, AllItems P as →
    RelatedItems R as bs → RelatedItems R' as bs
  | [], [], _, _ => trivial
  | a :: as, b :: bs, hP, h => by
    rw [RelatedItems] at h ⊢
    rw [AllItems] at hP
    exact ⟨Related.mono hRR' hP.1 h.1, RelatedItems.mono hRR' hP.2 h.2⟩

theorem RelatedEntries.mono (hRR' : ∀ y x, P y → R y x → R' y x) :
    ∀ {as : List (S × Value F S)} {bs : List (T × Value F T)}, AllEntries P as →
      RelatedEntries R as bs → RelatedEntries R' as bs
  | [], [], _, _ => trivial
  | (k, a) :: as, (l, b) :: bs, hP, h => by
    rw [RelatedEntries] at h ⊢
    rw [AllEntries] at hP
    exact ⟨hRR' k l hP.1 h.1, Related.mono hRR' hP.2.1 h.2.1, RelatedEntries.mono hRR' hP.2.2 h.2.2⟩

end

mutual

theorem Related.all (hP : ∀ y x, R y x → R' y x → P y) :
    ∀ {a : Value F S} {b : Value F T}, Related R a b → Related R' a b → All P a
  | .null, _, _, _ => by simp [All]
  | .bool _, _, _, _ => by simp [All]
  | .int _, _, _, _ => by simp [All]
  | .float _, _, _, _ => by simp [All]
  | .str y, .str x, h, h' => by
    rw [Related] at h h'
    rw [All]
    exact hP y x h h'
  | .arr as, .arr bs, h, h' => by
    rw [Related] at h h'
    rw [All]
    exact RelatedItems.all hP h h'
  | .obj as, .obj bs, h, h' => by
    rw [Related] at h h'
    rw [All]
    exact RelatedEntries.all hP h h'

theorem RelatedItems.all (hP : ∀ y x, R y x → R' y x → P y) :
    ∀ {as : List (Value F S)} {bs : List (Value F T)}, RelatedItems R as bs →
    RelatedItems R' as bs → AllItems P as
  | [], [], _, _ => trivial
  | a :: as, b :: bs, h, h' => by
    rw [RelatedItems] at h h'
    rw [AllItems]
    exact ⟨Related.all hP h.1 h'.1, RelatedItems.all hP h.2 h'.2⟩

theorem RelatedEntries.all (hP : ∀ y x, R y x → R' y x → P y) :
    ∀ {as : List (S × Value F S)} {bs : List (T × Value F T)}, RelatedEntries R as bs →
      RelatedEntries R' as bs → AllEntries P as
  | [], [], _, _ => trivial
  | (k, a) :: as, (l, b) :: bs, h, h' => by
    rw [RelatedEntries] at h h'
    rw [AllEntries]
    exact ⟨hP k l h.1 h'.1, Related.all hP h.2.1 h'.2.1, RelatedEntries.all hP h.2.2 h'.2.2⟩

end

end

/-! ## A string has one reading -/

theorem Reads.of_unicode {r : Reading} {h s t : Text} {u : Nat} (hu : r.hex h = some u)
    (hreads : Reads r ('\\' :: 'u' :: (h ++ s)) t) :
    (∃ l v s' t', s = '\\' :: 'u' :: (l ++ s') ∧ isHigh u = true ∧ r.hex l = some v ∧
      r.low v = true ∧ Reads r s' t' ∧
      t = pairChar u v :: t') ∨ ¬ Paired r u s ∧ ∃ t', Reads r s t' ∧ t = unitChar u :: t' := by
  generalize hb : '\\' :: 'u' :: (h ++ s) = b at hreads
  cases hreads with
  | nil => cases hb
  | char _ _ hslash _ => exact absurd (List.cons.inj hb).1.symm hslash
  | escape he _ =>
    obtain rfl : 'u' = _ := (List.cons.inj (List.cons.inj hb).2).1
    cases he
  | pair hu' hhigh hv hlow hrest =>
    have htail := (List.cons.inj (List.cons.inj hb).2).2
    obtain ⟨rfl, rfl⟩ := List.append_inj htail (by rw [(r.plain _ _ hu).1, (r.plain _ _ hu').1])
    obtain rfl := Option.some.inj (hu.symm.trans hu')
    exact .inl ⟨_, _, _, _, rfl, hhigh, hv, hlow, hrest, rfl⟩
  | unit hu' hpaired hrest =>
    have htail := (List.cons.inj (List.cons.inj hb).2).2
    obtain ⟨rfl, rfl⟩ := List.append_inj htail (by rw [(r.plain _ _ hu).1, (r.plain _ _ hu').1])
    obtain rfl := Option.some.inj (hu.symm.trans hu')
    exact .inr ⟨hpaired, _, hrest, rfl⟩

theorem Reads.unique {r : Reading} {b t t' : Text} (h : Reads r b t) (h' : Reads r b t') : t = t' := by
  induction h generalizing t' with
  | nil =>
    cases h'
    rfl
  | char _ _ hslash _ ih =>
    cases h' with
    | char _ _ _ hrest => rw [ih hrest]
    | _ => exact absurd rfl hslash
  | escape he _ ih =>
    cases h' with
    | char _ _ hslash _ => exact absurd rfl hslash
    | escape he' hrest =>
      obtain rfl := Option.some.inj (he.symm.trans he')
      rw [ih hrest]
    | pair => cases he
    | unit => cases he
  | pair hu hhigh hv hlow _ ih =>
    rcases h'.of_unicode hu with ⟨l', v', s', t₁, hs, -, hv', -, hrest, rfl⟩ | ⟨hnot, -⟩
    · have htail := (List.cons.inj (List.cons.inj hs).2).2
      obtain ⟨rfl, rfl⟩ := List.append_inj htail (by rw [(r.plain _ _ hv).1, (r.plain _ _ hv').1])
      obtain rfl := Option.some.inj (hv.symm.trans hv')
      rw [ih hrest]
    · exact absurd ⟨hhigh, _, _, _, rfl, hv, hlow⟩ hnot
  | unit hu hnot _ ih =>
    rcases h'.of_unicode hu with ⟨l', v', s', t₁, hs, hhigh, hv', hlow, -⟩ | ⟨-, t₁, hrest, rfl⟩
    · exact absurd ⟨hhigh, _, _, _, hs, hv', hlow⟩ hnot
    · rw [ih hrest]

open Classical in
/-- The string before the first quote that is not escaped. -/
noncomputable def readString (r : Reading) (s : Text) : Option (Text × Text) :=
  (lexString s).bind fun (b, rest) => if h : ∃ t, Reads r b t then some (h.choose, rest) else none

theorem readsStrings_readString (r : Reading) : ReadsStrings (Reads r) (readString r) := by
  intro s x rest
  unfold readString
  refine ⟨fun h => ?_, ?_⟩
  · obtain ⟨⟨b, rest'⟩, hlex, hread⟩ := Option.bind_eq_some_iff.mp h
    obtain ⟨b', hs, rfl, -⟩ := (readsStrings_raw _ _ _).mp hlex
    simp only at hread
    split at hread
    · rename_i hex
      obtain ⟨rfl, rfl⟩ := Prod.mk.inj (Option.some.inj hread)
      exact ⟨_, hs, hex.choose_spec⟩
    · cases hread
  · rintro ⟨b, rfl, hreads⟩
    have hlex := (readsStrings_raw _ b rest).mpr ⟨b, rfl, rfl, hreads.lexical⟩
    have hex : ∃ t, Reads r b t := ⟨x, hreads⟩
    rw [hlex, Option.bind_some]
    simp only
    rw [dif_pos hex, hex.choose_spec.unique hreads]

/-! ## A text has one value -/

section

variable {F S : Type}

mutual

theorem noClash_of_never {clash : List S → S → Bool} (h : ∀ known k, clash known k = false) :
    ∀ v : Value F S, NoClash clash v
  | .null => by simp [NoClash]
  | .bool _ => by simp [NoClash]
  | .int _ => by simp [NoClash]
  | .float _ => by simp [NoClash]
  | .str _ => by simp [NoClash]
  | .arr items => by
    rw [NoClash]
    exact noClashItems_of_never h items
  | .obj entries => by
    rw [NoClash]
    exact noClashEntries_of_never h [] entries

theorem noClashItems_of_never {clash : List S → S → Bool} (h : ∀ known k, clash known k = false) :
    ∀ vs : List (Value F S), NoClashItems clash vs
  | [] => trivial
  | v :: vs => by
    rw [NoClashItems]
    exact ⟨noClash_of_never h v, noClashItems_of_never h vs⟩

theorem noClashEntries_of_never {clash : List S → S → Bool} (h : ∀ known k, clash known k = false) :
    ∀ (known : List S) (es : List (S × Value F S)), NoClashEntries clash known es
  | _, [] => trivial
  | known, (k, v) :: es => by
    rw [NoClashEntries]
    exact ⟨h known k, noClash_of_never h v, noClashEntries_of_never h _ es⟩

end

theorem document_unique {readFloat : Text → Option F} {lit : Text → S → Prop} {str : Text → Option (S × Text)}
    (hstr : ReadsStrings lit str) {t : Text} {v v' : Value F S} (h : Document readFloat lit v t)
    (h' : Document readFloat lit v' t) : v = v' := by
  have hread : ∀ {u : Value F S}, Document readFloat lit u t → height u < max (height v) (height v') + 1 →
      parse readFloat str (fun _ _ => false) (max (height v) (height v') + 1) t = some u := by
    intro u hu hheight
    exact (parse_iff hstr).mpr ⟨hu, hheight, noClash_of_never (fun _ _ => rfl) u⟩
  have hv := hread h (by omega)
  rw [hread h' (by omega)] at hv
  exact (Option.some.inj hv).symm

end

end JsonText

import HomeStack.Lib.JsonPointer
import HomeStack.Lib.JsonText
import HomeStack.Lib.SerdeJson

/-! The compact text of a JSON value spells it. -/

namespace Json

open JsonText

/-- A number that is no integer, with the text it prints as. -/
abbrev Fraction := Int × Nat × Text

mutual

/-- A value as a reader of texts returns it. -/
def value : Json → Value Fraction Text
  | .null => .null
  | .bool b => .bool b
  | .int n => .int (intText n)
  | .dec n d t => .float (n, d, t)
  | .str s => .str s
  | .arr items => .arr (valueItems items)
  | .obj entries => .obj (valueEntries entries)

def valueItems : List Json → List (Value Fraction Text)
  | [] => []
  | v :: vs => value v :: valueItems vs

def valueEntries : List (Text × Json) → List (Text × Value Fraction Text)
  | [] => []
  | (k, v) :: es => (k, value v) :: valueEntries es

end

theorem intText_inj {m n : Int} (h : intText m = intText n) : m = n := by
  have hnil : Ends [] := by
    intro c t hc
    cases hc
  exact (intText_append_inj hnil hnil (by rw [h])).1

mutual

theorem value_inj : ∀ {v w : Json}, value v = value w → v = w
  | .null, w => by cases w <;> simp [value]
  | .bool _, w => by cases w <;> simp [value]
  | .int m, w => by
    cases w with
    | int n =>
      simp only [value, Value.int.injEq, Json.int.injEq]
      exact intText_inj
    | _ => simp [value]
  | .dec _ _ _, w => by cases w <;> simp [value]
  | .str _, w => by cases w <;> simp [value]
  | .arr items, w => by
    cases w with
    | arr items' =>
      simp only [value, Value.arr.injEq, Json.arr.injEq]
      exact valueItems_inj
    | _ => simp [value]
  | .obj entries, w => by
    cases w with
    | obj entries' =>
      simp only [value, Value.obj.injEq, Json.obj.injEq]
      exact valueEntries_inj
    | _ => simp [value]

theorem valueItems_inj : ∀ {vs ws : List Json}, valueItems vs = valueItems ws → vs = ws
  | [], [], _ => rfl
  | [], w :: ws, h => by simp [valueItems] at h
  | v :: vs, [], h => by simp [valueItems] at h
  | v :: vs, w :: ws, h => by
    rw [valueItems, valueItems, List.cons.injEq] at h
    rw [value_inj h.1, valueItems_inj h.2]

theorem valueEntries_inj : ∀ {es fs : List (Text × Json)}, valueEntries es = valueEntries fs → es = fs
  | [], [], _ => rfl
  | [], f :: fs, h => by simp [valueEntries] at h
  | e :: es, [], h => by simp [valueEntries] at h
  | (k, v) :: es, (l, w) :: fs, h => by
    rw [valueEntries, valueEntries, List.cons.injEq, Prod.mk.injEq] at h
    rw [h.1.1, value_inj h.1.2, valueEntries_inj h.2]

end

section

variable (readFloat : Text → Option Fraction)

mutual

/-- Each number that is no integer is printed as one, and read as itself. -/
def FloatsRead : Json → Prop
  | .dec n d t => IsFloat t ∧ readFloat t = some (n, d, t)
  | .arr items => FloatsReadItems items
  | .obj entries => FloatsReadEntries entries
  | _ => True

def FloatsReadItems : List Json → Prop
  | [] => True
  | v :: vs => FloatsRead v ∧ FloatsReadItems vs

def FloatsReadEntries : List (Text × Json) → Prop
  | [] => True
  | (_, v) :: es => FloatsRead v ∧ FloatsReadEntries es

end

end

variable {readFloat : Text → Option Fraction} {lit : Text → Text → Prop}

theorem ws_nil : Ws [] := by
  intro c hc
  cases hc

mutual

/-- The compact text spells the value, if the escapes of a string are read as it. -/
theorem render_spells (hlit : ∀ s, lit (s.flatMap escapeChar) s) : ∀ v : Json, FloatsRead readFloat v →
    Spells readFloat lit (value v) (render v)
  | .null, _ => by
    rw [value, Spells, render]
  | .bool true, _ => by
    rw [value, Spells, render]
    rfl
  | .bool false, _ => by
    rw [value, Spells, render]
    rfl
  | .int n, _ => by
    rw [value, Spells, render]
    exact ⟨rfl, intPart_decimal n⟩
  | .dec n d t, h => by
    rw [FloatsRead] at h
    rw [value, Spells, render]
    exact h
  | .str s, _ => by
    rw [value, Spells, render]
    exact ⟨_, by simp [quote], hlit s⟩
  | .arr items, h => by
    rw [FloatsRead] at h
    rw [value, Spells, render]
    exact ⟨renderItems items, by simp, renderItems_spells hlit items h⟩
  | .obj entries, h => by
    rw [FloatsRead] at h
    rw [value, Spells, render]
    exact ⟨renderEntries entries, by simp, renderEntries_spells hlit entries h⟩

theorem renderItems_spells (hlit : ∀ s, lit (s.flatMap escapeChar) s) : ∀ items : List Json,
    FloatsReadItems readFloat items → SpellsItems readFloat lit (valueItems items) (renderItems items)
  | [], _ => by
    rw [valueItems, SpellsItems, renderItems]
    exact ws_nil
  | [v], h => by
    rw [FloatsReadItems] at h
    rw [valueItems, valueItems, SpellsItems, renderItems]
    exact ⟨[], render v, [], by simp, ws_nil, render_spells hlit v h.1, ws_nil⟩
  | v :: v' :: vs, h => by
    rw [FloatsReadItems] at h
    have hrest := renderItems_spells hlit (v' :: vs) h.2
    rw [valueItems, valueItems, SpellsItems, renderItems]
    · exact ⟨[], render v, [], renderItems (v' :: vs),
        by simp, ws_nil, render_spells hlit v h.1, ws_nil, hrest⟩
    · simp

theorem renderEntries_spells (hlit : ∀ s, lit (s.flatMap escapeChar) s) : ∀ entries : List (Text × Json),
    FloatsReadEntries readFloat entries → SpellsEntries readFloat lit
      (valueEntries entries) (renderEntries entries)
  | [], _ => by
    rw [valueEntries, SpellsEntries, renderEntries]
    exact ws_nil
  | [(k, v)], h => by
    rw [FloatsReadEntries] at h
    rw [valueEntries, valueEntries, SpellsEntries, renderEntries]
    exact ⟨[], k.flatMap escapeChar, [], [], render v, [], by simp [quote], ws_nil, hlit k, ws_nil, ws_nil,
      render_spells hlit v h.1, ws_nil⟩
  | (k, v) :: e :: es, h => by
    rw [FloatsReadEntries] at h
    have hrest := renderEntries_spells hlit (e :: es) h.2
    rw [valueEntries, valueEntries, SpellsEntries, renderEntries]
    · exact ⟨[], k.flatMap escapeChar, [], [], render v, [], renderEntries (e :: es),
        by simp [quote], ws_nil, hlit k,
        ws_nil, ws_nil, render_spells hlit v h.1, ws_nil, hrest⟩
    · simp

end

theorem floatsRead_leaf {assign : List Text → Option Json}
    (hassign : ∀ p x, assign p = some x → FloatsRead readFloat x) {v : Json} (hleaf : v.isLeaf = true)
    (h : FloatsRead readFloat v) : FloatsRead readFloat (patch assign v) := by
  rw [patch_leaf hleaf]
  cases hx : assign [] with
  | none => exact h
  | some x => exact hassign [] x hx

mutual

theorem floatsRead_patch :
    ∀ {assign : List Text → Option Json} (_ : ∀ p x, assign p = some x → FloatsRead readFloat x) (v : Json),
    FloatsRead readFloat v → FloatsRead readFloat (patch assign v)
  | _, hassign, .arr items, h => by
    rw [FloatsRead] at h
    rw [patch, FloatsRead]
    exact floatsReadItems_patch hassign items h
  | _, hassign, .obj entries, h => by
    rw [FloatsRead] at h
    rw [patch, FloatsRead]
    exact floatsReadEntries_patch hassign entries h
  | _, hassign, .null, h => floatsRead_leaf hassign rfl h
  | _, hassign, .bool _, h => floatsRead_leaf hassign rfl h
  | _, hassign, .int _, h => floatsRead_leaf hassign rfl h
  | _, hassign, .dec _ _ _, h => floatsRead_leaf hassign rfl h
  | _, hassign, .str _, h => floatsRead_leaf hassign rfl h

theorem floatsReadItems_patch : ∀ {assign : List Text → Option Json} {i : Nat}
    (_ : ∀ p x, assign p = some x → FloatsRead readFloat x) (items : List Json),
      FloatsReadItems readFloat items →
      FloatsReadItems readFloat (patchItems assign i items)
  | _, _, _, [], _ => by
    rw [patchItems, FloatsReadItems]
    trivial
  | _, _, hassign, v :: vs, h => by
    rw [FloatsReadItems] at h
    rw [patchItems, FloatsReadItems]
    exact ⟨floatsRead_patch (fun p x hx => hassign _ x hx) v h.1, floatsReadItems_patch hassign vs h.2⟩

theorem floatsReadEntries_patch : ∀ {assign : List Text → Option Json}
    (_ : ∀ p x, assign p = some x → FloatsRead readFloat x) (entries : List (Text × Json)),
      FloatsReadEntries readFloat entries → FloatsReadEntries readFloat (patchEntries assign entries)
  | _, _, [], _ => by
    rw [patchEntries, FloatsReadEntries]
    trivial
  | _, hassign, (k, v) :: es, h => by
    rw [FloatsReadEntries] at h
    rw [patchEntries, FloatsReadEntries]
    exact ⟨floatsRead_patch (fun p x hx => hassign _ x hx) v h.1, floatsReadEntries_patch hassign es h.2⟩

end

theorem render_document (hlit : ∀ s, lit (s.flatMap escapeChar) s) {v : Json} (h : FloatsRead readFloat v) :
    Document readFloat lit (value v) (render v) :=
  ⟨[], render v, [], by simp, ws_nil, render_spells hlit v h, ws_nil⟩

end Json

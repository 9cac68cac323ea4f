import HomeStack.Lib.Codec
import HomeStack.Lib.Json

/-! A `Serde` from JSON: a value without fractions is determined by its
compact text, so a type with an injective reading as such values has a
decoder that undoes printing. -/

namespace Json

/-- What a value starts with: one class of characters for each kind. -/
def startClass (c : Char) : Nat :=
  if c = 'n' then 0 else if c = 't' then 1 else if c = 'f' then 2 else if c = '"' then 3
  else if c = '[' then 4 else if c = '\x7b' then 5 else if c.isDigit ∨ c = '-' then 6 else 7

/-- No fraction anywhere. -/
inductive Whole : Json → Prop
  | null : Whole .null
  | bool (b : Bool) : Whole (.bool b)
  | int (n : Int) : Whole (.int n)
  | str (s : Text) : Whole (.str s)
  | arr {items : List Json} : (∀ v ∈ items, Whole v) → Whole (.arr items)
  | obj {entries : List (Text × Json)} : (∀ e ∈ entries, Whole e.2) → Whole (.obj entries)

def kind : Json → Nat
  | .null => 0
  | .bool true => 1
  | .bool false => 2
  | .str _ => 3
  | .arr _ => 4
  | .obj _ => 5
  | .int _ => 6
  | .dec _ _ _ => 8

/-- The rest of a text after a value: it does not go on with a digit. -/
def Ends (r : Text) : Prop := ∀ c t, r = c :: t → c.isDigit = false

/-! ## Decimal numbers -/

theorem toDigits_isDigit (n : Nat) : ∀ c ∈ Nat.toDigits 10 n, c.isDigit = true := by
  intro c hc
  exact Nat.isDigit_of_mem_toDigits (b := 10) (by decide) (by decide) hc

theorem digits_append_inj {a b r s : Text} (ha : ∀ c ∈ a, c.isDigit = true)
    (hb : ∀ c ∈ b, c.isDigit = true) (hr : Ends r) (hs : Ends s) (h : a ++ r = b ++ s) :
    a = b ∧ r = s := by
  induction a generalizing b with
  | nil =>
    cases b with
    | nil => exact ⟨rfl, h⟩
    | cons d b =>
      have := hr d (b ++ s) h
      rw [hb d (by simp)] at this
      cases this
  | cons c a ih =>
    cases b with
    | nil =>
      have := hs c (a ++ r) h.symm
      rw [ha c (by simp)] at this
      cases this
    | cons d b =>
      simp only [List.cons_append, List.cons.injEq] at h
      obtain ⟨e, e'⟩ := ih (fun c hc => ha c (by simp [hc])) (fun c hc => hb c (by simp [hc])) h.2
      exact ⟨by rw [h.1, e], e'⟩

theorem intText_append_inj {m n : Int} {r s : Text} (hr : Ends r) (hs : Ends s)
    (h : intText m ++ r = intText n ++ s) : m = n ∧ r = s := by
  have dig : ∀ k : Nat, ∀ c ∈ Text.ofNat k, c.isDigit = true := toDigits_isDigit
  have minus : ∀ (k : Nat) (t u : Text), '-' :: t ≠ Text.ofNat k ++ u := by
    intro k t u e
    cases hk : Text.ofNat k with
    | nil => exact Nat.toDigits_ne_nil hk
    | cons c l =>
      rw [hk] at e
      have hc := dig k c (by simp [hk])
      rw [← (List.cons.inj e).1] at hc
      cases hc
  unfold intText at h
  split at h <;> split at h
  · obtain ⟨e, e'⟩ := digits_append_inj (dig _) (dig _) hr hs (List.cons.inj h).2
    exact ⟨by have := Text.ofNat_inj e; omega, e'⟩
  · exact absurd h (minus _ _ _)
  · exact absurd h.symm (minus _ _ _)
  · obtain ⟨e, e'⟩ := digits_append_inj (dig _) (dig _) hr hs h
    exact ⟨by have := Text.ofNat_inj e; omega, e'⟩

/-! ## Strings -/

def hexValue (c : Char) : Nat :=
  if c.isDigit then c.toNat - '0'.toNat else c.toNat - 'a'.toNat + 10

/-- Reading one character of a string back. -/
def unescape : Text → Option (Char × Text)
  | '\\' :: 'u' :: '0' :: '0' :: a :: b :: r => some (Char.ofNat (hexValue a * 16 + hexValue b), r)
  | '\\' :: 'n' :: r => some ('\n', r)
  | '\\' :: 'r' :: r => some ('\r', r)
  | '\\' :: 't' :: r => some ('\t', r)
  | '\\' :: 'b' :: r => some (Char.ofNat 8, r)
  | '\\' :: 'f' :: r => some (Char.ofNat 12, r)
  | '\\' :: c :: r => some (c, r)
  | c :: r => some (c, r)
  | [] => none

theorem unescape_control (n : Fin 32) (r : Text) :
    unescape (escapeChar (Char.ofNat n) ++ r) = some (Char.ofNat n, r) := by
  fin_cases n <;> rfl

theorem unescape_escapeChar (c : Char) (r : Text) : unescape (escapeChar c ++ r) = some (c, r) := by
  by_cases hc : c.toNat < 32
  · simpa using unescape_control ⟨c.toNat, hc⟩ r
  by_cases hq : c = '"'
  · subst hq; rfl
  by_cases hb : c = '\\'
  · subst hb; rfl
  have e : escapeChar c = [c] := by
    have h10 : c ≠ '\n' := by rintro rfl; exact hc (by decide)
    have h13 : c ≠ '\r' := by rintro rfl; exact hc (by decide)
    have h9 : c ≠ '\t' := by rintro rfl; exact hc (by decide)
    simp only [escapeChar, if_neg hq, if_neg hb, if_neg h10, if_neg h13, if_neg h9, if_neg hc,
      if_neg (show c.toNat ≠ 8 by omega), if_neg (show c.toNat ≠ 12 by omega)]
  rw [e]
  unfold unescape
  split <;> simp_all

theorem escapeChar_ne_quote (c : Char) (r t : Text) : escapeChar c ++ r ≠ '"' :: t := by
  intro h
  have hu := unescape_escapeChar c r
  rw [h] at hu
  -- only the quote itself could be read back from a quote, and it is escaped
  have hc : c = '"' := (Prod.mk.inj (Option.some.inj hu)).1.symm
  subst hc
  cases h

theorem quote_append_inj {s t r r' : Text} (h : quote s ++ r = quote t ++ r') : s = t ∧ r = r' := by
  have go : ∀ s t : Text, s.flatMap escapeChar ++ '"' :: r = t.flatMap escapeChar ++ '"' :: r' →
      s = t ∧ r = r' := by
    intro s
    induction s with
    | nil =>
      intro t h
      cases t with
      | nil => exact ⟨rfl, (List.cons.inj h).2⟩
      | cons d t => exact absurd h.symm (by simpa using escapeChar_ne_quote d _ r)
    | cons c s ih =>
      intro t h
      cases t with
      | nil => exact absurd h (by simpa using escapeChar_ne_quote c _ r')
      | cons d t =>
        simp only [List.flatMap_cons, List.append_assoc] at h
        have hu := congrArg unescape h
        rw [unescape_escapeChar, unescape_escapeChar] at hu
        obtain ⟨rfl, hr⟩ := Prod.mk.inj (Option.some.inj hu)
        obtain ⟨rfl, e⟩ := ih t hr
        exact ⟨rfl, e⟩
  refine go s t ?_
  simpa [quote] using h

/-! ## Values -/

/-- The later items of an array. -/
def renderMore (items : List Json) : Text := items.flatMap fun v => ',' :: render v

/-- The later entries of an object. -/
def renderMoreEntries (entries : List (Text × Json)) : Text :=
  entries.flatMap fun e => ',' :: (quote e.1 ++ ':' :: render e.2)

theorem renderItems_cons (v : Json) (items : List Json) :
    renderItems (v :: items) = render v ++ renderMore items := by
  induction items generalizing v with
  | nil => simp [renderItems, renderMore]
  | cons w items ih =>
    rw [renderItems, ih]
    · simp [renderMore]
    · simp

theorem renderEntries_cons (e : Text × Json) (entries : List (Text × Json)) :
    renderEntries (e :: entries) = quote e.1 ++ ':' :: render e.2 ++ renderMoreEntries entries := by
  induction entries generalizing e with
  | nil => simp [renderEntries, renderMoreEntries]
  | cons f entries ih =>
    rw [renderEntries, ih]
    · simp [renderMoreEntries]
    · simp

theorem intText_start (n : Int) : ∃ c t, intText n = c :: t ∧ startClass c = 6 := by
  unfold intText
  split
  · exact ⟨'-', _, rfl, by decide⟩
  · cases h : Text.ofNat n.natAbs with
    | nil => exact absurd h Nat.toDigits_ne_nil
    | cons c t =>
      have hc : c.isDigit = true := toDigits_isDigit n.natAbs c (by
        rw [show Nat.toDigits 10 n.natAbs = c :: t from h]; simp)
      refine ⟨c, t, rfl, ?_⟩
      have ne : ∀ d : Char, d.isDigit = false → c ≠ d := by
        rintro d hd rfl
        rw [hc] at hd
        cases hd
      simp only [startClass, if_neg (ne 'n' (by decide)), if_neg (ne 't' (by decide)),
        if_neg (ne 'f' (by decide)), if_neg (ne '"' (by decide)), if_neg (ne '[' (by decide)),
        if_neg (ne '\x7b' (by decide)), if_pos (Or.inl hc)]

theorem render_start {v : Json} (h : Whole v) : ∃ c t, render v = c :: t ∧ startClass c = v.kind := by
  cases h with
  | null => exact ⟨'n', ['u', 'l', 'l'], by rw [render]; exact String.toList_ofList, rfl⟩
  | bool b =>
    cases b with
    | false => exact ⟨'f', ['a', 'l', 's', 'e'], by rw [render]; exact String.toList_ofList, rfl⟩
    | true => exact ⟨'t', ['r', 'u', 'e'], by rw [render]; exact String.toList_ofList, rfl⟩
  | int n => simpa [render, kind] using intText_start n
  | str s => exact ⟨'"', _, rfl, rfl⟩
  | arr _ => exact ⟨'[', _, rfl, rfl⟩
  | obj _ => exact ⟨'\x7b', _, rfl, rfl⟩

/-- Values whose texts start alike are of one kind. -/
theorem kind_eq_of_render {v w : Json} {r s : Text} (hv : Whole v) (hw : Whole w)
    (h : render v ++ r = render w ++ s) : v.kind = w.kind := by
  obtain ⟨c, t, e, hc⟩ := render_start hv
  obtain ⟨d, u, e', hd⟩ := render_start hw
  rw [e, e'] at h
  rw [← hc, ← hd, (List.cons.inj h).1]

theorem ends_cons {c : Char} (t : Text) (h : c.isDigit = false) : Ends (c :: t) := by
  intro d u e
  cases e
  exact h

/-- Items after the first, up to the closing bracket. -/
theorem renderMore_inj {items items' : List Json} {r s : Text}
    (ih : ∀ v ∈ items, ∀ w r s, Whole w → Ends r → Ends s → render v ++ r = render w ++ s →
      v = w ∧ r = s)
    (hw : ∀ w ∈ items', Whole w)
    (h : renderMore items ++ ']' :: r = renderMore items' ++ ']' :: s) : items = items' ∧ r = s := by
  have ends : ∀ (l : List Json) (t : Text), Ends (renderMore l ++ ']' :: t) := by
    intro l t
    cases l <;> exact ends_cons _ (by decide)
  induction items generalizing items' with
  | nil =>
    cases items' with
    | nil => exact ⟨rfl, (List.cons.inj h).2⟩
    | cons w items' => cases (List.cons.inj h).1
  | cons v items go =>
    cases items' with
    | nil => cases (List.cons.inj h).1
    | cons w items' =>
      have h' : render v ++ (renderMore items ++ ']' :: r) =
          render w ++ (renderMore items' ++ ']' :: s) := by
        simpa [renderMore] using h
      obtain ⟨rfl, e⟩ := ih v (by simp) w _ _ (hw w (by simp)) (ends _ _) (ends _ _) h'
      obtain ⟨rfl, e'⟩ := go (fun v hv => ih v (by simp [hv])) (fun w hm => hw w (by simp [hm])) e
      exact ⟨rfl, e'⟩

/-- Entries after the first, up to the closing brace. -/
theorem renderMoreEntries_inj {es es' : List (Text × Json)} {r s : Text}
    (ih : ∀ e ∈ es, ∀ w r s, Whole w → Ends r → Ends s → render e.2 ++ r = render w ++ s →
      e.2 = w ∧ r = s)
    (hw : ∀ e ∈ es', Whole e.2)
    (h : renderMoreEntries es ++ '\x7d' :: r = renderMoreEntries es' ++ '\x7d' :: s) :
    es = es' ∧ r = s := by
  have ends : ∀ (l : List (Text × Json)) (t : Text), Ends (renderMoreEntries l ++ '\x7d' :: t) := by
    intro l t
    cases l <;> exact ends_cons _ (by decide)
  induction es generalizing es' with
  | nil =>
    cases es' with
    | nil => exact ⟨rfl, (List.cons.inj h).2⟩
    | cons w es' => cases (List.cons.inj h).1
  | cons v es go =>
    cases es' with
    | nil => cases (List.cons.inj h).1
    | cons w es' =>
      have h' : quote v.1 ++ (':' :: (render v.2 ++ (renderMoreEntries es ++ '\x7d' :: r))) =
          quote w.1 ++ (':' :: (render w.2 ++ (renderMoreEntries es' ++ '\x7d' :: s))) := by
        simpa [renderMoreEntries] using h
      obtain ⟨ek, e⟩ := quote_append_inj h'
      obtain ⟨ev, e'⟩ := ih v (by simp) w.2 _ _ (hw w (by simp)) (ends _ _) (ends _ _)
        (List.cons.inj e).2
      obtain ⟨rfl, e''⟩ := go (fun v hv => ih v (by simp [hv])) (fun w hm => hw w (by simp [hm])) e'
      exact ⟨by rw [Prod.ext ek ev], e''⟩

theorem render_ne_bracket {v : Json} (h : Whole v) (r s : Text) : render v ++ r ≠ ']' :: s := by
  intro e
  obtain ⟨c, t, e', hc⟩ := render_start h
  rw [e'] at e
  have e'' := (List.cons.inj e).1
  subst e''
  cases h <;> try cases hc
  rename_i b
  cases b <;> cases hc

/-- **The text of a value determines it**, whatever follows. -/
theorem render_append_inj {v w : Json} {r s : Text} (hv : Whole v) (hw : Whole w) (hr : Ends r)
    (hs : Ends s) (h : render v ++ r = render w ++ s) : v = w ∧ r = s := by
  have hk := kind_eq_of_render hv hw h
  induction hv generalizing w r s with
  | null =>
    cases hw with
    | null => exact ⟨rfl, by simpa [-String.reduceToList, render] using h⟩
    | bool b => cases b <;> cases hk
    | _ => cases hk
  | bool b =>
    cases hw with
    | bool c =>
      cases b <;> cases c
      · exact ⟨rfl, by simpa [-String.reduceToList, render] using h⟩
      · cases hk
      · cases hk
      · exact ⟨rfl, by simpa [-String.reduceToList, render] using h⟩
    | _ => cases b <;> cases hk
  | int n =>
    cases hw with
    | int m =>
      obtain ⟨rfl, e⟩ := intText_append_inj hr hs (by simpa [-String.reduceToList, render] using h)
      exact ⟨rfl, e⟩
    | bool b => cases b <;> cases hk
    | _ => cases hk
  | str t =>
    cases hw with
    | str u =>
      obtain ⟨rfl, e⟩ := quote_append_inj (by simpa [-String.reduceToList, render] using h)
      exact ⟨rfl, e⟩
    | bool b => cases b <;> cases hk
    | _ => cases hk
  | @arr items hi ih =>
    have ih' : ∀ v ∈ items, ∀ w r s, Whole w → Ends r → Ends s → render v ++ r = render w ++ s →
        v = w ∧ r = s := fun v hm w r s hw hr hs e =>
      ih v hm hw hr hs e (kind_eq_of_render (hi v hm) hw e)
    cases hw with
    | @arr items' hi' =>
      have h' : renderItems items ++ ']' :: r = renderItems items' ++ ']' :: s := by
        simpa [render] using h
      cases items with
      | nil =>
        cases items' with
        | nil => exact ⟨rfl, (List.cons.inj h').2⟩
        | cons w items' =>
          rw [renderItems_cons, List.append_assoc] at h'
          exact absurd h'.symm (render_ne_bracket (hi' w (by simp)) _ _)
      | cons v items =>
        cases items' with
        | nil =>
          rw [renderItems_cons, List.append_assoc] at h'
          exact absurd h' (render_ne_bracket (hi v (by simp)) _ _)
        | cons w items' =>
          have h2 : renderMore (v :: items) ++ ']' :: r = renderMore (w :: items') ++ ']' :: s := by
            rw [renderItems_cons, renderItems_cons] at h'
            simpa [renderMore] using h'
          obtain ⟨e, e'⟩ := renderMore_inj ih' hi' h2
          exact ⟨by rw [e], e'⟩
    | bool b => cases b <;> cases hk
    | _ => cases hk
  | @obj es hi ih =>
    have ih' : ∀ e ∈ es, ∀ w r s, Whole w → Ends r → Ends s → render e.2 ++ r = render w ++ s →
        e.2 = w ∧ r = s := fun e hm w r s hw hr hs he =>
      ih e hm hw hr hs he (kind_eq_of_render (hi e hm) hw he)
    cases hw with
    | @obj es' hi' =>
      have h' : renderEntries es ++ '\x7d' :: r = renderEntries es' ++ '\x7d' :: s := by
        simpa [render] using h
      cases es with
      | nil =>
        cases es' with
        | nil => exact ⟨rfl, (List.cons.inj h').2⟩
        | cons w es' =>
          rw [renderEntries_cons] at h'
          cases (List.cons.inj h').1
      | cons v es =>
        cases es' with
        | nil =>
          rw [renderEntries_cons] at h'
          cases (List.cons.inj h').1
        | cons w es' =>
          have h2 : renderMoreEntries (v :: es) ++ '\x7d' :: r =
              renderMoreEntries (w :: es') ++ '\x7d' :: s := by
            rw [renderEntries_cons, renderEntries_cons] at h'
            simpa [renderMoreEntries] using h'
          obtain ⟨e, e'⟩ := renderMoreEntries_inj ih' hi' h2
          exact ⟨by rw [e], e'⟩
    | bool b => cases b <;> cases hk
    | _ => cases hk

theorem render_inj {v w : Json} (hv : Whole v) (hw : Whole w) (h : render v = render w) : v = w := by
  have ends : Ends [] := by
    intro c t e
    cases e
  exact (render_append_inj (r := []) (s := []) hv hw ends ends (by simpa using h)).1

end Json

/-- A type printed as JSON without fractions. The decoder is the inverse of
printing, so it accepts the printed form only. -/
noncomputable def Serde.ofJson {α : Type} (toJson : α → Json) (whole : ∀ a, (toJson a).Whole)
    (inj : Function.Injective toJson) : Serde α where
  toVec a := (toJson a).render.utf8
  fromSlice b := by
    classical
    exact if h : ∃ a, (toJson a).render.utf8 = b then some h.choose else none
  fromSlice_toVec a := by
    have h : ∃ a', (toJson a').render.utf8 = (toJson a).render.utf8 := ⟨a, rfl⟩
    have e : h.choose = a :=
      inj (Json.render_inj (whole _) (whole _) (Text.utf8_inj h.choose_spec))
    rw [dif_pos h, e]

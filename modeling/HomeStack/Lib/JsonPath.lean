import HomeStack.Lib.JsonText

/-! Paths of keys into a JSON value: what stands at a path, and a value put there with the objects
on the way made where they are missing. -/

namespace JsonText

/-! ## Entries by key -/

section

variable {S V : Type} [DecidableEq S]

/-- The first entry of a key. -/
def find (k : S) : List (S × V) → Option V
  | [] => none
  | (l, v) :: es => if l = k then some v else find k es

/-- The first entry of a key changed, or one added after the others. -/
def alter (k : S) (f : Option V → V) : List (S × V) → List (S × V)
  | [] => [(k, f none)]
  | (l, v) :: es => if l = k then (l, f (some v)) :: es else (l, v) :: alter k f es

attribute [local simp] find alter

@[simp] theorem find_alter_self (k : S) (f : Option V → V) (es : List (S × V)) :
    find k (alter k f es) = some (f (find k es)) := by
  induction es with
  | nil => simp [find, alter]
  | cons e es ih =>
    obtain ⟨l, v⟩ := e
    by_cases hl : l = k
    · simp [find, alter, hl]
    · simp [find, alter, hl, ih]

theorem find_alter_ne {k l : S} (h : k ≠ l) (f : Option V → V) (es : List (S × V)) :
    find l (alter k f es) = find l es := by
  induction es with
  | nil => simp [find, alter, h]
  | cons e es ih =>
    obtain ⟨m, v⟩ := e
    by_cases hm : m = k
    · subst hm
      simp [find, alter, h]
    · simp [find, alter, hm, ih]

/-- The keys that were there stay in front, in their order. -/
theorem keys_prefix_alter (k : S) (f : Option V → V) (es : List (S × V)) :
    es.map Prod.fst <+: (alter k f es).map Prod.fst := by
  induction es with
  | nil => exact List.nil_prefix
  | cons e es ih =>
    obtain ⟨l, v⟩ := e
    by_cases hl : l = k
    · simp [alter, hl]
    · simp [alter, hl, ih]

theorem mem_of_find {k : S} {es : List (S × V)} {v : V} (h : find k es = some v) : (k, v) ∈ es := by
  induction es with
  | nil => cases h
  | cons e es ih =>
    obtain ⟨l, w⟩ := e
    rw [find] at h
    split at h
    · rename_i hl
      subst hl
      cases h
      simp
    · exact List.mem_cons_of_mem _ (ih h)

theorem mem_alter {k : S} {f : Option V → V} {es : List (S × V)} {e : S × V} (h : e ∈ alter k f es) :
    e ∈ es ∨ e = (k, f (find k es)) := by
  induction es with
  | nil => simpa [alter, find] using h
  | cons e' es ih =>
    obtain ⟨l, v⟩ := e'
    rw [alter] at h
    rw [find]
    split at h
    · rename_i hl
      rw [if_pos hl]
      rcases List.mem_cons.mp h with rfl | h
      · exact .inr (by rw [hl])
      · exact .inl (List.mem_cons_of_mem _ h)
    · rename_i hl
      rw [if_neg hl]
      rcases List.mem_cons.mp h with rfl | h
      · exact .inl (by simp)
      · rcases ih h with h | h
        · exact .inl (List.mem_cons_of_mem _ h)
        · exact .inr h

end

/-! ## Paths apart -/

section

variable {S : Type}

/-- Neither path starts with the other. -/
def Apart (p q : List S) : Prop := ¬ p <+: q ∧ ¬ q <+: p

theorem apart_cons {k l : S} {p q : List S} (h : Apart (k :: p) (l :: q)) : k ≠ l ∨ k = l ∧ Apart p q := by
  by_cases hkl : k = l
  · subst hkl
    simp only [Apart, List.prefix_cons_inj] at h
    exact .inr ⟨rfl, h⟩
  · exact .inl hkl

theorem Apart.ne_nil {p q : List S} (h : Apart p q) : q ≠ [] := by
  rintro rfl
  exact h.2 List.nil_prefix

end

/-! ## Values at a path -/

section

variable {F S : Type} [DecidableEq S]

def valueAt : Value F S → List S → Option (Value F S)
  | v, [] => some v
  | .obj es, k :: p => (find k es).bind fun child => valueAt child p
  | _, _ :: _ => none

/-- The value at the path replaced; nothing changes below a value that is no object. -/
def setAt : Value F S → List S → Value F S → Value F S
  | _, [], x => x
  | .obj es, k :: p, x => .obj (alter k (fun child => setAt (child.getD (.obj [])) p x) es)
  | v, _ :: _, _ => v

def isObj : Value F S → Bool
  | .obj _ => true
  | _ => false

theorem valueAt_empty {q : List S} (h : q ≠ []) : valueAt (.obj [] : Value F S) q = none := by
  cases q with
  | nil => exact absurd rfl h
  | cons l q => rfl

/-- What stands apart from the path stays. -/
theorem valueAt_setAt {v : Value F S} {p q : List S} (h : Apart p q) (x : Value F S) :
    valueAt (setAt v p x) q = valueAt v q := by
  induction p generalizing v q with
  | nil => exact absurd List.nil_prefix h.1
  | cons k p ih =>
    cases q with
    | nil => exact absurd rfl h.ne_nil
    | cons l q =>
      cases v with
      | obj es =>
        rw [setAt, valueAt, valueAt]
        rcases apart_cons h with hkl | ⟨rfl, hrest⟩
        · rw [find_alter_ne hkl]
        · rw [find_alter_self, Option.bind_some, ih hrest]
          cases find k es with
          | none => exact valueAt_empty hrest.ne_nil
          | some child => rfl
      | _ => rfl

/-- An object that does not stand at the path or below keeps its keys, in their order. -/
theorem keys_setAt {v : Value F S} {p q : List S} (h : ¬ p <+: q) (x : Value F S) {es : List (S × Value F S)}
    (hes : valueAt v q = some (.obj es)) :
    ∃ es', valueAt (setAt v p x) q = some (.obj es') ∧ es.map Prod.fst <+: es'.map Prod.fst := by
  induction p generalizing v q with
  | nil => exact absurd List.nil_prefix h
  | cons k p ih =>
    cases v with
    | obj fs =>
      cases q with
      | nil =>
        obtain rfl : fs = es := by simpa [valueAt] using hes
        exact ⟨_, rfl, keys_prefix_alter _ _ _⟩
      | cons l q =>
        rw [valueAt] at hes
        obtain ⟨child, hchild, hget⟩ := Option.bind_eq_some_iff.mp hes
        by_cases hkl : k = l
        · subst hkl
          obtain ⟨es', hes', hkeys⟩ := ih (fun hpre => h (List.prefix_cons_inj k |>.mpr hpre)) hget
          refine ⟨es', ?_, hkeys⟩
          rw [setAt, valueAt, find_alter_self, hchild, Option.bind_some]
          exact hes'
        · refine ⟨es, ?_, List.prefix_rfl⟩
          rw [setAt, valueAt, find_alter_ne hkl, hchild, Option.bind_some]
          exact hget
    | _ => exact ⟨es, hes, List.prefix_rfl⟩

end

end JsonText

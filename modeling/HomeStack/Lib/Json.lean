import HomeStack.Lib.Text

/-! JSON values as a lenient reader sees them. An object is the list of its
entries in key order, each key once. A number that is no integer is kept as
the fraction it stands for and the text it prints as. -/

inductive Json
  | null
  | bool (b : Bool)
  | int (n : Int)
  | dec (num : Int) (den : Nat) (text : Text)
  | str (s : Text)
  | arr (items : List Json)
  | obj (entries : List (Text × Json))
  deriving Repr, Inhabited

namespace Json

/-! Equality is decided by recursion on the value; arrays and objects carry
their own recursions. -/

mutual

def beq : Json → Json → Bool
  | .null, .null => true
  | .bool a, .bool b => a == b
  | .int a, .int b => a == b
  | .dec a m s, .dec b n t => a == b && m == n && s == t
  | .str a, .str b => a == b
  | .arr a, .arr b => beqList a b
  | .obj a, .obj b => beqEntries a b
  | _, _ => false

def beqList : List Json → List Json → Bool
  | [], [] => true
  | a :: as, b :: bs => beq a b && beqList as bs
  | _, _ => false

def beqEntries : List (Text × Json) → List (Text × Json) → Bool
  | [], [] => true
  | (k, a) :: as, (l, b) :: bs => k == l && (beq a b && beqEntries as bs)
  | _, _ => false

end

mutual

theorem beq_iff : ∀ a b : Json, beq a b = true ↔ a = b
  | .arr a, b => by cases b <;> simp [beq, beqList_iff a]
  | .obj a, b => by cases b <;> simp [beq, beqEntries_iff a]
  | .null, b => by cases b <;> simp [beq]
  | .bool _, b => by cases b <;> simp [beq]
  | .int _, b => by cases b <;> simp [beq]
  | .dec _ _ _, b => by cases b <;> simp [beq, and_assoc]
  | .str _, b => by cases b <;> simp [beq]

theorem beqList_iff : ∀ as bs : List Json, beqList as bs = true ↔ as = bs
  | [], bs => by cases bs <;> simp [beqList]
  | a :: as, bs => by cases bs <;> simp [beqList, beq_iff a, beqList_iff as]

theorem beqEntries_iff : ∀ as bs : List (Text × Json), beqEntries as bs = true ↔ as = bs
  | [], bs => by cases bs <;> simp [beqEntries]
  | (k, a) :: as, bs => by
    cases bs <;> simp [beqEntries, beq_iff a, beqEntries_iff as, Prod.ext_iff, and_assoc]

end

instance : DecidableEq Json := fun a b => decidable_of_iff _ (beq_iff a b)

/-! ## Printing -/

/-- `to_string` of an integer. -/
def intText (n : Int) : Text :=
  if n < 0 then '-' :: Text.ofNat n.natAbs else Text.ofNat n.natAbs

/-- A character inside a JSON string. -/
def escapeChar (c : Char) : Text :=
  if c = '"' then "\\\""
  else if c = '\\' then "\\\\"
  else if c = '\n' then "\\n"
  else if c = '\r' then "\\r"
  else if c = '\t' then "\\t"
  else if c.toNat = 8 then "\\b"
  else if c.toNat = 12 then "\\f"
  else if c.toNat < 32 then
    "\\u00" ++ [Nat.digitChar (c.toNat / 16), Nat.digitChar (c.toNat % 16)]
  else [c]

def quote (s : Text) : Text := "\"" ++ s.flatMap escapeChar ++ "\""

mutual

/-- Compact JSON (`to_string`). -/
def render : Json → Text
  | .null => "null"
  | .bool true => "true"
  | .bool false => "false"
  | .int n => intText n
  | .dec _ _ t => t
  | .str s => quote s
  | .arr items => "[" ++ renderItems items ++ "]"
  | .obj entries => "\x7b" ++ renderEntries entries ++ "\x7d"

def renderItems : List Json → Text
  | [] => []
  | [v] => render v
  | v :: rest => render v ++ "," ++ renderItems rest

def renderEntries : List (Text × Json) → Text
  | [] => []
  | [(k, v)] => quote k ++ ":" ++ render v
  | (k, v) :: rest => quote k ++ ":" ++ render v ++ "," ++ renderEntries rest

end

/-! ## Reading -/

/-- `map.get(key)` -/
def lookup (key : Text) (entries : List (Text × Json)) : Option Json :=
  (entries.find? fun e => e.1 == key).map Prod.snd

/-- `value.get(key)`: of an object, else nothing. -/
def get (v : Json) (key : Text) : Option Json :=
  match v with
  | .obj entries => lookup key entries
  | _ => none

/-- `map.insert(key, value)` -/
def insert (key : Text) (value : Json) : List (Text × Json) → List (Text × Json)
  | [] => [(key, value)]
  | (k, v) :: rest =>
    if k = key then (key, value) :: rest
    else if compare key k = .lt then (key, value) :: (k, v) :: rest
    else (k, v) :: insert key value rest

theorem lookup_cons (key : Text) (e : Text × Json) (rest : List (Text × Json)) :
    lookup key (e :: rest) = if e.1 = key then some e.2 else lookup key rest := by
  unfold lookup
  rw [List.find?_cons]
  by_cases h : e.1 = key
  · rw [if_pos h, beq_iff_eq.mpr h]
    rfl
  · rw [if_neg h, beq_eq_false_iff_ne.mpr h]

/-- An insertion leaves the other keys alone. -/
theorem lookup_insert_ne {key other : Text} (value : Json) (hne : other ≠ key)
    (entries : List (Text × Json)) :
    lookup other (insert key value entries) = lookup other entries := by
  induction entries with
  | nil => simp [insert, lookup_cons, hne.symm]
  | cons e rest ih =>
    unfold insert
    by_cases hkey : e.1 = key
    · simp [hkey, lookup_cons, hne.symm]
    · by_cases hlt : compare key e.1 = .lt
      · simp [hkey, hlt, lookup_cons, hne.symm]
      · simp [hkey, hlt, lookup_cons, ih]

/-- `*map.get_mut(key) = value`, where the key is present. -/
def replace (key : Text) (value : Json) (entries : List (Text × Json)) : List (Text × Json) :=
  entries.map fun e => if e.1 = key then (key, value) else e

/-- `map.remove(key)` -/
def erase (key : Text) (entries : List (Text × Json)) : List (Text × Json) :=
  entries.filter fun e => e.1 ≠ key

def asStr : Json → Option Text
  | .str s => some s
  | _ => none

/-- `value[key]`, null where it is missing -/
def field (v : Json) (key : Text) : Json := (v.get key).getD .null

def asArray : Json → Option (List Json)
  | .arr items => some items
  | _ => none

theorem asArray_eq_some {v : Json} {items : List Json} (h : v.asArray = some items) : v = .arr items := by
  cases v with
  | arr entries => exact congrArg Json.arr (Option.some.inj h)
  | _ => cases h

def asObject : Json → Option (List (Text × Json))
  | .obj entries => some entries
  | _ => none

def asU64 : Json → Option Nat
  | .int n => if 0 ≤ n then some n.toNat else none
  | _ => none

def isNull : Json → Bool
  | .null => true
  | _ => false

end Json

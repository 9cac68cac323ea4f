import HomeStack.Lib.Json

/-! JSON pointers (RFC 6901): the value at a pointer, a value put there, and a document with
values assigned to its leaves. Writing through a pointer assigns its leaf and nothing else. -/

namespace Text

/-- `str::replace`; `skip` characters of a match are still to be left out. -/
def replaceFrom (p r : Text) : Nat → Text → Text
  | _, [] => []
  | skip + 1, _ :: s => replaceFrom p r skip s
  | 0, c :: s => if startsWith p (c :: s) then r ++ replaceFrom p r (p.length - 1) s
    else c :: replaceFrom p r 0 s

def replace (p r s : Text) : Text := replaceFrom p r 0 s

/-! A text of digits without a leading zero is the decimal text of its value. -/

theorem digitChar_sub {c : Char} (h : c.isDigit = true) :
    c.toNat - 48 < 10 ∧ Nat.digitChar (c.toNat - 48) = c := by
  have hrange : 48 ≤ c.toNat ∧ c.toNat ≤ 57 := by
    simp only [Char.isDigit, Bool.and_eq_true, decide_eq_true_eq] at h
    exact h
  refine ⟨by omega, ?_⟩
  apply Char.toNat_inj.mp
  rw [Nat.toNat_digitChar_of_lt_ten (by omega)]
  omega

theorem toDigits_append {s : Text} (h : allDigits s = true) {n : Nat} (hn : 0 < n) :
    Nat.toDigits 10 n ++ s = Nat.toDigits 10 (Nat.ofDigitChars 10 s n) := by
  induction s generalizing n with
  | nil => simp
  | cons c s ih =>
    simp only [allDigits, List.all_cons, Bool.and_eq_true] at h
    obtain ⟨hlt, hchar⟩ := digitChar_sub h.1
    have hnext : Nat.toDigits 10 n ++ [c] = Nat.toDigits 10 (10 * n + (c.toNat - 48)) := by
      rw [← Nat.toDigits_append_toDigits (by decide) hn hlt, Nat.toDigits_of_lt_base hlt, hchar]
    rw [Nat.ofDigitChars_cons, show '0'.toNat = 48 from rfl, ← ih h.2 (by omega), ← hnext]
    simp

theorem ofNat_digitsValue {s : Text} (hne : s ≠ []) (h : allDigits s = true)
    (hzero : s.head? = some '0' → s.length = 1) :
    ofNat (digitsValue s) = s := by
  cases s with
  | nil => exact absurd rfl hne
  | cons c s =>
    simp only [allDigits, List.all_cons, Bool.and_eq_true] at h
    obtain ⟨hlt, hchar⟩ := digitChar_sub h.1
    by_cases hc : c = '0'
    · subst hc
      have hs : s = [] := by simpa using hzero rfl
      subst hs
      rfl
    · have hpos : 0 < c.toNat - 48 := by
        by_contra hnot
        have hval : c.toNat - 48 = 0 := by omega
        rw [hval] at hchar
        exact hc hchar.symm
      have happend := toDigits_append h.2 hpos
      rw [Nat.toDigits_of_lt_base hlt, hchar] at happend
      rw [ofNat, digitsValue, Nat.ofDigitChars_cons, show '0'.toNat = 48 from rfl, Nat.mul_zero,
        Nat.zero_add, ← happend]
      rfl

end Text

namespace Json

/-! ## Pointers -/

def parseIndex (s : Text) : Option Nat :=
  if Text.startsWith "+" s || (Text.startsWith "0" s && s.length ≠ 1) then none else Text.parseNat (2 ^ 64) s

/-- A token as it is written between two slashes, read. -/
def unescapeToken (part : Text) : Text := Text.replace "~0" "~" (Text.replace "~1" "/" part)

def tokens (pointer : Text) : List Text := ((pointer.splitOn '/').drop 1).map unescapeToken

/-- One step of a pointer. -/
def child : Json → Text → Option Json
  | .obj es, token => lookup token es
  | .arr items, token => (parseIndex token).bind fun i => items[i]?
  | _, _ => none

/-- The value below a path of tokens. -/
def valueAt : Json → List Text → Option Json
  | v, [] => some v
  | v, token :: p => (child v token).bind fun c => valueAt c p

def pointer (v : Json) (s : Text) : Option Json :=
  if s = [] then some v else if !Text.startsWith "/" s then none else valueAt v (tokens s)

/-- The value below a path of tokens replaced, if there is one. -/
def setAt : Json → List Text → Json → Option Json
  | _, [], x => some x
  | .obj es, token :: p, x =>
    (lookup token es).bind fun c => (setAt c p x).map fun c' => .obj (replace token c' es)
  | .arr items, token :: p, x =>
    (parseIndex token).bind fun i => (items[i]?).bind fun c =>
      (setAt c p x).map fun c' => .arr (items.set i c')
  | _, _ :: _, _ => none

/-- `*value.pointer_mut(s) = x` -/
def setPointer (v : Json) (s : Text) (x : Json) : Option Json :=
  if s = [] then some x else if !Text.startsWith "/" s then none else setAt v (tokens s) x

theorem pointer_eq {s : Text} (h : Text.startsWith "/" s = true) (v : Json) :
    pointer v s = valueAt v (tokens s) := by
  have hne : s ≠ [] := by
    rintro rfl
    cases h
  rw [pointer, if_neg hne, h, if_neg (by decide)]

theorem setPointer_eq {s : Text} (h : Text.startsWith "/" s = true) (v x : Json) :
    setPointer v s x = setAt v (tokens s) x := by
  have hne : s ≠ [] := by
    rintro rfl
    cases h
  rw [setPointer, if_neg hne, h, if_neg (by decide)]

def isLeaf : Json → Bool
  | .arr _ => false
  | .obj _ => false
  | _ => true

mutual

/-- Every object has each of its keys once. -/
def KeysOnce : Json → Prop
  | .arr items => KeysOnceItems items
  | .obj entries => (entries.map Prod.fst).Nodup ∧ KeysOnceEntries entries
  | _ => True

def KeysOnceItems : List Json → Prop
  | [] => True
  | v :: vs => KeysOnce v ∧ KeysOnceItems vs

def KeysOnceEntries : List (Text × Json) → Prop
  | [] => True
  | (_, v) :: es => KeysOnce v ∧ KeysOnceEntries es

end

/-! ## Values for the leaves -/

mutual

/-- The value with the leaf below each path `p` replaced by `assign p`, where that is something. -/
def patch (assign : List Text → Option Json) : Json → Json
  | .arr items => .arr (patchItems assign 0 items)
  | .obj entries => .obj (patchEntries assign entries)
  | .null => (assign []).getD .null
  | .bool b => (assign []).getD (.bool b)
  | .int n => (assign []).getD (.int n)
  | .dec n d t => (assign []).getD (.dec n d t)
  | .str s => (assign []).getD (.str s)

/-- The items of an array from index `i` on. -/
def patchItems (assign : List Text → Option Json) (i : Nat) : List Json → List Json
  | [] => []
  | v :: vs => patch (fun p => assign (Text.ofNat i :: p)) v :: patchItems assign (i + 1) vs

def patchEntries (assign : List Text → Option Json) : List (Text × Json) → List (Text × Json)
  | [] => []
  | (k, v) :: es => (k, patch (fun p => assign (k :: p)) v) :: patchEntries assign es

end

/-! ## Paths into a patched document -/

theorem parseIndex_some {s : Text} {i : Nat} (h : parseIndex s = some i) : s = Text.ofNat i := by
  unfold parseIndex at h
  split at h
  · cases h
  · rename_i hstart
    simp only [Bool.or_eq_true, Bool.and_eq_true, decide_eq_true_eq, not_or, not_and, not_not] at hstart
    have hplus : ∀ rest, s ≠ '+' :: rest := by
      rintro rest rfl
      exact hstart.1 rfl
    have hdigits : Text.parseNat (2 ^ 64) s =
        if s ≠ [] ∧ Text.allDigits s ∧ Text.digitsValue s < 2 ^ 64 then some (Text.digitsValue s)
        else none := by
      cases s with
      | nil => rfl
      | cons c s =>
        have hc : c ≠ '+' := fun heq => hplus s (by rw [heq])
        simp only [Text.parseNat]
    rw [hdigits] at h
    split at h
    · rename_i hs
      obtain rfl := Option.some.inj h
      refine (Text.ofNat_digitsValue hs.1 hs.2.1 fun hhead => ?_).symm
      cases s with
      | nil => cases hhead
      | cons c s =>
        obtain rfl : c = '0' := by simpa using hhead
        exact hstart.2 rfl
    · cases h

theorem patch_leaf {v : Json} (h : v.isLeaf = true) (assign : List Text → Option Json) :
    patch assign v = (assign []).getD v := by
  cases v with
  | arr items => cases h
  | obj entries => cases h
  | _ => rw [patch]

theorem getElem?_patchItems (assign : List Text → Option Json) (items : List Json) (j i : Nat) :
    (patchItems assign j items)[i]? = items[i]?.map (patch fun p => assign (Text.ofNat (j + i) :: p)) := by
  induction items generalizing i j with
  | nil => simp [patchItems]
  | cons v items ih =>
    rw [patchItems]
    cases i with
    | zero => simp
    | succ i =>
      rw [List.getElem?_cons_succ, List.getElem?_cons_succ, ih, show j + 1 + i = j + (i + 1) by omega]

theorem lookup_patchEntries (assign : List Text → Option Json) (key : Text) (es : List (Text × Json)) :
    lookup key (patchEntries assign es) = (lookup key es).map (patch fun p => assign (key :: p)) := by
  induction es with
  | nil => simp [patchEntries, lookup]
  | cons e es ih =>
    obtain ⟨k, v⟩ := e
    rw [patchEntries, lookup_cons, lookup_cons, ih]
    by_cases hk : k = key
    · simp [hk]
    · simp [hk]

/-- What stands below a path of a patched document. -/
theorem valueAt_patch {d c : Json} {p : List Text} (h : valueAt d p = some c)
    (assign : List Text → Option Json) :
    valueAt (patch assign d) p = some (patch (fun q => assign (p ++ q)) c) := by
  induction p generalizing d assign with
  | nil =>
    obtain rfl : d = c := by simpa [valueAt] using h
    simp [valueAt]
  | cons token p ih =>
    rw [valueAt] at h
    obtain ⟨c', hchild, hrest⟩ := Option.bind_eq_some_iff.mp h
    have hstep : child (patch assign d) token = some (patch (fun q => assign (token :: q)) c') := by
      cases d with
      | obj es =>
        rw [child] at hchild
        rw [patch, child, lookup_patchEntries, hchild, Option.map_some]
      | arr items =>
        rw [child] at hchild
        obtain ⟨i, hi, hget⟩ := Option.bind_eq_some_iff.mp hchild
        rw [patch, child, hi, Option.bind_some, getElem?_patchItems, hget, Option.map_some,
          parseIndex_some hi, Nat.zero_add]
      | _ => cases hchild
    rw [valueAt, hstep, Option.bind_some, ih hrest]
    rfl

theorem update_cons (assign : List Text → Option Json) (token : Text) (p : List Text) (x : Json) :
    (fun q => Function.update assign (token :: p) (some x) (token :: q)) =
      Function.update (fun q => assign (token :: q)) p (some x) := by
  funext q
  by_cases hq : q = p
  · simp [hq]
  · simp [Function.update_of_ne, hq]

theorem update_cons_ne {token k : Text} (h : k ≠ token) (assign : List Text → Option Json)
    (p q : List Text) (x : Json) :
    Function.update assign (token :: p) (some x) (k :: q) = assign (k :: q) := by
  rw [Function.update_of_ne]
  simp [h]

theorem eq_of_lookup {es : List (Text × Json)} (hkeys : (es.map Prod.fst).Nodup) {key : Text} {c : Json}
    (hc : lookup key es = some c) : ∀ e ∈ es, e.1 = key → e.2 = c := by
  induction es with
  | nil => cases hc
  | cons e es ih =>
    obtain ⟨k, v⟩ := e
    rw [List.map_cons, List.nodup_cons] at hkeys
    rw [lookup_cons] at hc
    intro e he hkey
    rcases List.mem_cons.mp he with rfl | he
    · have hk : k = key := hkey
      simpa [hk] using hc
    · have hmem : e.1 ∈ es.map Prod.fst := List.mem_map_of_mem he
      have hk : k ≠ key := by
        rintro rfl
        rw [hkey] at hmem
        exact hkeys.1 hmem
      exact ih hkeys.2 (by simpa [hk] using hc) e he hkey

theorem replace_patch {es : List (Text × Json)} {token : Text} {c : Json}
    (hc : ∀ e ∈ es, e.1 = token → e.2 = c) (assign : List Text → Option Json) (p : List Text) (x : Json) :
    replace token (patch (Function.update (fun q => assign (token :: q)) p (some x)) c)
      (patchEntries assign es) =
      patchEntries (Function.update assign (token :: p) (some x)) es := by
  induction es with
  | nil => simp [patchEntries, replace]
  | cons e es ih =>
    obtain ⟨k, v⟩ := e
    have hrest := ih fun e he => hc e (List.mem_cons_of_mem _ he)
    rw [replace] at hrest
    rw [patchEntries, patchEntries, replace, List.map_cons, hrest]
    by_cases hk : k = token
    · subst hk
      obtain rfl : v = c := hc (k, v) (by simp) rfl
      rw [if_pos rfl, update_cons]
    · have hsame : (fun q => Function.update assign (token :: p) (some x) (k :: q)) = fun q =>
        assign (k :: q) :=
        funext fun q => update_cons_ne hk assign p q x
      rw [if_neg hk, hsame]

theorem set_patchItems {items : List Json} {i : Nat} {c : Json} (hc : items[i]? = some c)
    (assign : List Text → Option Json) (p : List Text) (x : Json) :
    (patchItems assign 0 items).set i
    (patch (Function.update (fun q => assign (Text.ofNat i :: q)) p (some x)) c) =
      patchItems (Function.update assign (Text.ofNat i :: p) (some x)) 0 items := by
  apply List.ext_getElem?
  intro n
  rw [List.getElem?_set, getElem?_patchItems, getElem?_patchItems]
  have hlen : i < (patchItems assign 0 items).length := by
    by_contra hlong
    have hnone : (patchItems assign 0 items)[i]? = none := List.getElem?_eq_none (by omega)
    rw [getElem?_patchItems, hc] at hnone
    cases hnone
  by_cases hn : i = n
  · subst hn
    rw [if_pos rfl, if_pos hlen, hc, Nat.zero_add, update_cons, Option.map_some]
  · have hne : Text.ofNat n ≠ Text.ofNat i := fun heq => hn (Text.ofNat_inj heq).symm
    have hsame : (fun q => Function.update assign (Text.ofNat i :: p) (some x) (Text.ofNat n :: q)) =
        fun q => assign (Text.ofNat n :: q) := funext fun q => update_cons_ne hne assign p q x
    rw [if_neg hn, Nat.zero_add, hsame]

theorem keysOnceItems_mem {items : List Json} (h : KeysOnceItems items) : ∀ v ∈ items, KeysOnce v := by
  induction items with
  | nil => simp
  | cons v items ih =>
    rw [KeysOnceItems] at h
    intro w hw
    rcases List.mem_cons.mp hw with rfl | hw
    · exact h.1
    · exact ih h.2 w hw

theorem keysOnceEntries_lookup {es : List (Text × Json)} (h : KeysOnceEntries es) {key : Text} {v : Json}
    (hv : lookup key es = some v) : KeysOnce v := by
  induction es with
  | nil => cases hv
  | cons e es ih =>
    obtain ⟨k, w⟩ := e
    rw [KeysOnceEntries] at h
    rw [lookup_cons] at hv
    split at hv
    · obtain rfl := Option.some.inj hv
      exact h.1
    · exact ih h.2 hv

/-- **Writing below the path of a leaf assigns that leaf**, whatever was assigned before. -/
theorem setAt_patch {d leaf : Json} {p : List Text} (hkeys : d.KeysOnce) (hat : valueAt d p = some leaf)
    (hleaf : leaf.isLeaf = true) (assign : List Text → Option Json) (x : Json) :
    setAt (patch assign d) p x = some (patch (Function.update assign p (some x)) d) := by
  induction p generalizing d assign with
  | nil =>
    obtain rfl : d = leaf := by simpa [valueAt] using hat
    rw [patch_leaf hleaf (Function.update assign [] (some x))]
    simp [setAt]
  | cons token p ih =>
    rw [valueAt] at hat
    obtain ⟨c, hchild, hrest⟩ := Option.bind_eq_some_iff.mp hat
    cases d with
    | obj es =>
      rw [child] at hchild
      rw [KeysOnce] at hkeys
      rw [patch, setAt, lookup_patchEntries, hchild, Option.map_some, Option.bind_some,
        ih (keysOnceEntries_lookup hkeys.2 hchild) hrest, Option.map_some,
          replace_patch (eq_of_lookup hkeys.1 hchild), patch]
    | arr items =>
      rw [child] at hchild
      rw [KeysOnce] at hkeys
      obtain ⟨i, hi, hget⟩ := Option.bind_eq_some_iff.mp hchild
      obtain rfl := parseIndex_some hi
      rw [patch, setAt, hi, Option.bind_some, getElem?_patchItems, hget, Option.map_some,
        Option.bind_some, Nat.zero_add,
        ih (keysOnceItems_mem hkeys c (List.mem_of_getElem? hget)) hrest, Option.map_some,
          set_patchItems hget, patch]
    | _ => cases hchild

mutual

/-- Nothing assigned changes nothing. -/
theorem patch_none : ∀ v : Json, patch (fun _ => none) v = v
  | .arr items => by rw [patch, patchItems_none]
  | .obj entries => by rw [patch, patchEntries_none]
  | .null => by rw [patch, Option.getD_none]
  | .bool _ => by rw [patch, Option.getD_none]
  | .int _ => by rw [patch, Option.getD_none]
  | .dec _ _ _ => by rw [patch, Option.getD_none]
  | .str _ => by rw [patch, Option.getD_none]

theorem patchItems_none : ∀ {i : Nat} (items : List Json), patchItems (fun _ => none) i items = items
  | _, [] => by rw [patchItems]
  | _, v :: vs => by rw [patchItems, patch_none v, patchItems_none vs]

theorem patchEntries_none : ∀ entries : List (Text × Json), patchEntries (fun _ => none) entries = entries
  | [] => by rw [patchEntries]
  | (_, v) :: es => by rw [patchEntries, patch_none v, patchEntries_none es]

end

end Json

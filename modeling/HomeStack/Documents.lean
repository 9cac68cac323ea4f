import HomeStack.Lib.Chars
import HomeStack.Lib.JsonString

/-! The JSON documents of `setup/documents.rs`: the hand-written reader `Json::parse`, and what it
accepts beside the documents of RFC 8259. -/

namespace HomeStack.Documents

open JsonText

/-! ## Strings -/

/-- The value of hexadecimal digits after `n`. -/
def hexFrom (n : Nat) : Text → Option Nat
  | [] => some n
  | c :: ds => (Text.hexDigit c).bind fun d => hexFrom (16 * n + d) ds

/-- `u32::from_str_radix(text, 16)` of a few digits; it takes a plus sign. -/
def fromStrRadix : Text → Option Nat
  | [] => none
  | c :: ds => if c = '+' then (if ds = [] then none else hexFrom 0 ds) else hexFrom 0 (c :: ds)

def hex4 (s : Text) : Option Nat := if 4 ≤ s.length then fromStrRadix (s.take 4) else none

/-- The characters of a string up to its closing quote. -/
def stringBody (s : Text) : Option (Text × Text) :=
  match s with
  | [] => none
  | c :: s =>
    if c = '"' then some ([], s)
    else if c = '\\' then
      match s with
      | [] => none
      | e :: s =>
        if e = 'u' then
          match hex4 s with
          | none => none
          | some unit =>
            if isHigh unit ∧ (s.drop 4).take 2 = ['\\', 'u'] then
              match hex4 (s.drop 6) with
              | none => none
              | some low => (stringBody (s.drop 10)).map fun (out, r) => (pairChar unit low :: out, r)
            else (stringBody (s.drop 4)).map fun (out, r) => (unitChar unit :: out, r)
        else
          match simpleEscape e with
          | none => none
          | some x => (stringBody s).map fun (out, r) => (x :: out, r)
    else if c.toNat ≤ 0x1F then none
    else (stringBody s).map fun (out, r) => (c :: out, r)
termination_by s.length
decreasing_by all_goals (simp only [List.length_cons, List.length_drop]; omega)

def string (s : Text) : Option (Text × Text) := if s.head? = some '"' then stringBody (s.drop 1) else none

/-! ## Readings of an escape -/

theorem hexFrom_plain {n u : Nat} {ds : Text} (h : hexFrom n ds = some u) :
    ∀ c ∈ ds, (Text.hexDigit c).isSome := by
  induction ds generalizing n with
  | nil => simp
  | cons c ds ih =>
    rw [hexFrom] at h
    obtain ⟨d, hd, hrest⟩ := Option.bind_eq_some_iff.mp h
    intro c' hc'
    rcases List.mem_cons.mp hc' with rfl | hc'
    · rw [hd]
      rfl
    · exact ih hrest c' hc'

theorem hexDigit_plain {c : Char} (h : (Text.hexDigit c).isSome) : c ≠ '"' ∧ c ≠ '\\' ∧ c ≠ '+' := by
  refine ⟨?_, ?_, ?_⟩ <;>
  · rintro rfl
    revert h
    decide

theorem fromStrRadix_plain {h : Text} {u : Nat} (hu : fromStrRadix h = some u) :
    ∀ c ∈ h, c ≠ '"' ∧ c ≠ '\\' := by
  have hdigits : ∀ {n : Nat} {ds : Text}, hexFrom n ds = some u → ∀ c ∈ ds, c ≠ '"' ∧ c ≠ '\\' := by
    intro n ds hds c hc
    have hplain := hexDigit_plain (hexFrom_plain hds c hc)
    exact ⟨hplain.1, hplain.2.1⟩
  cases h with
  | nil => cases hu
  | cons c ds =>
    rw [fromStrRadix] at hu
    split at hu
    · rename_i hc
      split at hu
      · cases hu
      · intro d hd
        rcases List.mem_cons.mp hd with rfl | hd
        · subst hc
          decide
        · exact hdigits hu d hd
    · exact hdigits hu

/-- How the code reads an escape: four characters that `from_str_radix` takes, and any unit after a
high one. -/
def code : Reading where
  hex h := if h.length = 4 then fromStrRadix h else none
  low _ := true
  plain h u hu := by
    split at hu
    · rename_i hlen
      exact ⟨hlen, fromStrRadix_plain hu⟩
    · cases hu

/-- RFC 8259: four hexadecimal digits, and a low surrogate after a high one. -/
def rfc : Reading where
  hex h := if h.length = 4 then hexFrom 0 h else none
  low := isLow
  plain h u hu := by
    split at hu
    · rename_i hlen
      refine ⟨hlen, fun c hc => ?_⟩
      have hplain := hexDigit_plain (hexFrom_plain hu c hc)
      exact ⟨hplain.1, hplain.2.1⟩
    · cases hu

theorem code_hex_of_rfc {h : Text} {u : Nat} (hu : rfc.hex h = some u) : code.hex h = some u := by
  simp only [rfc, code] at hu ⊢
  split at hu
  · rename_i hlen
    rw [if_pos hlen]
    cases h with
    | nil => cases hlen
    | cons c ds =>
      have hc := (hexDigit_plain (hexFrom_plain hu c (by simp))).2.2
      rw [fromStrRadix, if_neg hc]
      exact hu
  · cases hu

/-! ## The code reads strings in its own reading -/

theorem hex4_append {h : Text} {u : Nat} (hu : code.hex h = some u) (s : Text) : hex4 (h ++ s) = some u := by
  have hlen := (code.plain h u hu).1
  have htake : (h ++ s).take 4 = h := List.take_left' hlen
  have hfit : 4 ≤ (h ++ s).length := by
    rw [List.length_append]
    omega
  simp only [code, if_pos hlen] at hu
  rw [hex4, if_pos hfit, htake, hu]

theorem hex4_some {s : Text} {u : Nat} (h : hex4 s = some u) : code.hex (s.take 4) = some u := by
  unfold hex4 at h
  split at h
  · rename_i hlen
    simp only [code, List.length_take]
    rw [if_pos (by omega)]
    exact h
  · cases h

/-- A text that starts a `\u` escape has its digits. -/
theorem Reads.of_unit {r : Reading} {s t : Text} (h : Reads r ('\\' :: 'u' :: s) t) :
    ∃ l v s', s = l ++ s' ∧ r.hex l = some v := by
  cases h with
  | char _ _ hc _ => exact absurd rfl hc
  | escape he _ => cases he
  | pair hh _ _ _ _ => exact ⟨_, _, _, rfl, hh⟩
  | unit hh _ _ => exact ⟨_, _, _, rfl, hh⟩

theorem stringBody_quote (s : Text) : stringBody ('"' :: s) = some ([], s) := by
  rw [stringBody.eq_def]
  rfl

theorem stringBody_char {c : Char} (hc : 0x20 ≤ c.toNat) (hquote : c ≠ '"') (hslash : c ≠ '\\') (s : Text) :
    stringBody (c :: s) = (stringBody s).map fun (out, r) => (c :: out, r) := by
  rw [stringBody.eq_def]
  simp only
  rw [if_neg hquote, if_neg hslash, if_neg (by omega)]

theorem stringBody_escape {e x : Char} (he : simpleEscape e = some x) (s : Text) :
    stringBody ('\\' :: e :: s) = (stringBody s).map fun (out, r) => (x :: out, r) := by
  have hu : e ≠ 'u' := by
    rintro rfl
    cases he
  rw [stringBody.eq_def]
  simp only
  rw [if_neg (by decide), if_pos trivial, if_neg hu, he]

theorem stringBody_unit (s : Text) : stringBody ('\\' :: 'u' :: s) =
    (hex4 s).bind fun unit =>
      if isHigh unit ∧ (s.drop 4).take 2 = ['\\', 'u'] then
        (hex4 (s.drop 6)).bind fun low => (stringBody (s.drop 10)).map fun (out, r) =>
          (pairChar unit low :: out, r)
      else (stringBody (s.drop 4)).map fun (out, r) => (unitChar unit :: out, r) := by
  rw [stringBody.eq_def]
  simp only
  rw [if_neg (by decide), if_pos trivial, if_pos trivial]
  cases hex4 s with
  | none => rfl
  | some unit =>
    simp only [Option.bind_some]
    split
    · cases hex4 (s.drop 6) with
      | none => rfl
      | some low => rfl
    · rfl

/-- What the code's reading reads, the code reads. -/
theorem stringBody_of_reads {b t : Text} (h : Reads code b t) (r : Text) :
    stringBody (b ++ '"' :: r) = some (t, r) := by
  induction h with
  | nil => exact stringBody_quote r
  | char hc hquote hslash _ ih => rw [List.cons_append, stringBody_char hc hquote hslash, ih, Option.map_some]
  | escape he _ ih => rw [List.cons_append, List.cons_append, stringBody_escape he, ih, Option.map_some]
  | @pair h l u v s t hh hhigh hl hlow _ ih =>
    have hlen := (code.plain _ _ hh).1
    have hlen' := (code.plain _ _ hl).1
    have htext : '\\' :: 'u' :: (h ++ '\\' :: 'u' :: (l ++ s)) ++ '"' :: r =
        '\\' :: 'u' :: (h ++ ('\\' :: 'u' :: (l ++ (s ++ '"' :: r)))) := by simp
    have hdrop : (h ++ ('\\' :: 'u' :: (l ++ (s ++ '"' :: r)))).drop 4 =
        '\\' :: 'u' :: (l ++ (s ++ '"' :: r)) :=
      List.drop_left' hlen
    have hdrop6 : (h ++ ('\\' :: 'u' :: (l ++ (s ++ '"' :: r)))).drop 6 = l ++ (s ++ '"' :: r) := by
      rw [show 6 = 4 + 2 from rfl, ← List.drop_drop, hdrop]
      rfl
    have hdrop10 : (h ++ ('\\' :: 'u' :: (l ++ (s ++ '"' :: r)))).drop 10 = s ++ '"' :: r := by
      rw [show 10 = 6 + 4 from rfl, ← List.drop_drop, hdrop6]
      exact List.drop_left' hlen'
    rw [htext, stringBody_unit, hex4_append hh, Option.bind_some, hdrop, hdrop6, hdrop10, hex4_append hl, ih,
      if_pos ⟨hhigh, rfl⟩]
    rfl
  | @unit h u s t hh hpaired hs ih =>
    have hlen := (code.plain _ _ hh).1
    have hdrop : (h ++ (s ++ '"' :: r)).drop 4 = s ++ '"' :: r := List.drop_left' hlen
    have hnot : ¬ (isHigh u = true ∧ (s ++ '"' :: r).take 2 = ['\\', 'u']) := by
      rintro ⟨hhigh, htake⟩
      -- an escape after a high unit is read as its pair
      match s, hs, htake with
      | [], _, htake => simp at htake
      | [c], _, htake => simp at htake
      | c :: d :: s', hs, htake =>
        obtain ⟨rfl, rfl⟩ : c = '\\' ∧ d = 'u' := by simpa using htake
        obtain ⟨l, v, s'', rfl, hv⟩ := Reads.of_unit hs
        exact hpaired ⟨hhigh, l, v, s'', rfl, hv, rfl⟩
    rw [List.cons_append, List.cons_append, List.append_assoc, stringBody_unit, hex4_append hh,
      Option.bind_some, hdrop,
      if_neg hnot, ih]
    rfl

theorem take_drop_text (s : Text) (n : Nat) : s = s.take n ++ s.drop n := (List.take_append_drop n s).symm

/-- What the code reads is read in its reading. -/
theorem reads_of_stringBody {n : Nat} {s t r : Text} (hn : s.length ≤ n) (h : stringBody s = some (t, r)) :
    ∃ b, s = b ++ '"' :: r ∧ Reads code b t := by
  induction n generalizing s t r with
  | zero =>
    obtain rfl : s = [] := List.length_eq_zero_iff.mp (by omega)
    simp [stringBody.eq_def] at h
  | succ n ih =>
    cases s with
    | nil => simp [stringBody.eq_def] at h
    | cons c s =>
      rw [List.length_cons] at hn
      by_cases hquote : c = '"'
      · subst hquote
        rw [stringBody_quote] at h
        obtain ⟨rfl, rfl⟩ := Prod.mk.inj (Option.some.inj h)
        exact ⟨[], rfl, .nil⟩
      · by_cases hslash : c = '\\'
        · subst hslash
          cases s with
          | nil => simp [stringBody.eq_def] at h
          | cons e s =>
            rw [List.length_cons] at hn
            by_cases hu : e = 'u'
            · subst hu
              rw [stringBody_unit] at h
              obtain ⟨unit, hunit, h⟩ := Option.bind_eq_some_iff.mp h
              split at h
              · rename_i hpair
                obtain ⟨low, hlow, h⟩ := Option.bind_eq_some_iff.mp h
                obtain ⟨⟨out, r'⟩, hout, heq⟩ := Option.map_eq_some_iff.mp h
                obtain ⟨rfl, rfl⟩ := Prod.mk.inj heq
                obtain ⟨b, hb, hreads⟩ := ih (by rw [List.length_drop]; omega) hout
                have h6 : s.drop 4 = '\\' :: 'u' :: s.drop 6 := by
                  nth_rewrite 1 [take_drop_text (s.drop 4) 2]
                  rw [hpair.2, List.drop_drop]
                  rfl
                have h10 : s.drop 6 = (s.drop 6).take 4 ++ (b ++ '"' :: r') := by
                  nth_rewrite 1 [take_drop_text (s.drop 6) 4]
                  rw [List.drop_drop, ← hb]
                refine ⟨_, ?_, .pair (hex4_some hunit) hpair.1 (hex4_some hlow) rfl hreads⟩
                nth_rewrite 1 [take_drop_text s 4]
                rw [h6]
                nth_rewrite 1 [h10]
                simp
              · rename_i hpair
                obtain ⟨⟨out, r'⟩, hout, heq⟩ := Option.map_eq_some_iff.mp h
                obtain ⟨rfl, rfl⟩ := Prod.mk.inj heq
                obtain ⟨b, hb, hreads⟩ := ih (by rw [List.length_drop]; omega) hout
                refine ⟨_, ?_, .unit (hex4_some hunit) ?_ hreads⟩
                · nth_rewrite 1 [take_drop_text s 4]
                  rw [hb]
                  simp
                · rintro ⟨hhigh, l, v, s', rfl, -⟩
                  refine hpair ⟨hhigh, ?_⟩
                  rw [hb]
                  rfl
            · rw [stringBody.eq_def] at h
              simp only at h
              rw [if_neg hquote, if_pos trivial, if_neg hu] at h
              split at h
              · cases h
              · rename_i x hx
                obtain ⟨⟨out, r'⟩, hout, heq⟩ := Option.map_eq_some_iff.mp h
                obtain ⟨rfl, rfl⟩ := Prod.mk.inj heq
                obtain ⟨b, rfl, hreads⟩ := ih (by omega) hout
                exact ⟨'\\' :: e :: b, rfl, .escape hx hreads⟩
        · rw [stringBody.eq_def] at h
          simp only at h
          rw [if_neg hquote, if_neg hslash] at h
          split at h
          · cases h
          · rename_i hcontrol
            obtain ⟨⟨out, r'⟩, hout, heq⟩ := Option.map_eq_some_iff.mp h
            obtain ⟨rfl, rfl⟩ := Prod.mk.inj heq
            obtain ⟨b, rfl, hreads⟩ := ih (by omega) hout
            exact ⟨c :: b, rfl, .char (by omega) hquote hslash hreads⟩

theorem readsStrings_string : ReadsStrings (Reads code) string := by
  intro s x r
  unfold string
  refine ⟨fun h => ?_, ?_⟩
  · split at h
    · rename_i hquote
      obtain ⟨b, hb, hreads⟩ := reads_of_stringBody le_rfl h
      cases s with
      | nil => cases hquote
      | cons c s =>
        obtain rfl : c = '"' := by simpa using hquote
        exact ⟨b, by simpa using hb, hreads⟩
    · cases h
  · rintro ⟨b, rfl, hreads⟩
    simpa using stringBody_of_reads hreads r

/-! ## Proper escapes -/

/-- Every `\u` has four hexadecimal digits, and a high surrogate directly before another escape of
this kind is before a low one. -/
inductive Proper : Text → Prop
  | nil : Proper []
  | char {c : Char} {s : Text} : c ≠ '\\' → Proper s → Proper (c :: s)
  | escape {e : Char} {s : Text} : e ≠ 'u' → Proper s → Proper ('\\' :: e :: s)
  | unit {h : Text} {u : Nat} {s : Text} : rfc.hex h = some u →
      (isHigh u = true → ∀ s', s = '\\' :: 'u' :: s' → ∃ l v s'', s' = l ++ s'' ∧
        rfc.hex l = some v ∧ isLow v = true) →
      Proper s → Proper ('\\' :: 'u' :: (h ++ s))

theorem simpleEscape_u {c : Char} : simpleEscape 'u' ≠ some c := by
  intro h
  cases h

theorem Proper.of_unit {h s : Text} (hlen : h.length = 4) (hp : Proper ('\\' :: 'u' :: (h ++ s))) :
    ∃ u, rfc.hex h = some u ∧
      (isHigh u = true → ∀ s', s = '\\' :: 'u' :: s' → ∃ l v s'', s' = l ++ s'' ∧
        rfc.hex l = some v ∧ isLow v = true) ∧
      Proper s := by
  generalize hx : '\\' :: 'u' :: (h ++ s) = x at hp
  cases hp with
  | nil => cases hx
  | char hc _ => exact absurd (List.cons.inj hx).1.symm hc
  | escape he _ => exact absurd (List.cons.inj (List.cons.inj hx).2).1.symm he
  | @unit h' u s' hu hpair hs =>
    have happend := (List.cons.inj (List.cons.inj hx).2).2
    obtain ⟨rfl, rfl⟩ := List.append_inj happend (by rw [hlen, (rfc.plain _ _ hu).1])
    exact ⟨u, hu, hpair, hs⟩

theorem Proper.of_char {c : Char} {s : Text} (hc : c ≠ '\\') (hp : Proper (c :: s)) : Proper s := by
  cases hp with
  | char _ hs => exact hs
  | escape _ _ => exact absurd rfl hc
  | unit _ _ _ => exact absurd rfl hc

theorem Proper.of_escape {e : Char} {s : Text} (he : e ≠ 'u') (hp : Proper ('\\' :: e :: s)) : Proper s := by
  cases hp with
  | char hc _ => exact absurd rfl hc
  | escape _ hs => exact hs
  | unit _ _ _ => exact absurd rfl he

theorem paired_of_rfc {u : Nat} {s : Text} (h : Paired rfc u s) : Paired code u s := by
  obtain ⟨hhigh, l, v, s', rfl, hv, -⟩ := h
  exact ⟨hhigh, l, v, s', rfl, code_hex_of_rfc hv, rfl⟩

theorem not_u_of_simpleEscape {e c : Char} (h : simpleEscape e = some c) : e ≠ 'u' := by
  rintro rfl
  exact simpleEscape_u h

/-- A text with proper escapes is read by the RFC as by the code. -/
theorem reads_rfc_of_code {b t : Text} (h : Reads code b t) (hp : Proper b) : Reads rfc b t := by
  induction h with
  | nil => exact .nil
  | char hc hquote hslash _ ih => exact .char hc hquote hslash (ih (hp.of_char hslash))
  | escape he _ ih => exact .escape he (ih (hp.of_escape (not_u_of_simpleEscape he)))
  | @pair h l u v s t hh hhigh hl _ _ ih =>
    obtain ⟨u', hu', hpair, hrest⟩ := hp.of_unit (code.plain _ _ hh).1
    obtain rfl : u = u' := Option.some.inj (hh.symm.trans (code_hex_of_rfc hu'))
    obtain ⟨v', hv', -, hs⟩ := hrest.of_unit (code.plain _ _ hl).1
    obtain ⟨l', v'', s', hl', hv'', hlow⟩ := hpair hhigh _ rfl
    obtain ⟨rfl, -⟩ := List.append_inj hl' (by rw [(code.plain _ _ hl).1, (rfc.plain _ _ hv'').1])
    obtain rfl : v = v'' := Option.some.inj (hl.symm.trans (code_hex_of_rfc hv''))
    exact .pair hu' hhigh hv'' hlow (ih hs)
  | unit hh hpaired _ ih =>
    obtain ⟨u', hu', -, hs⟩ := hp.of_unit (code.plain _ _ hh).1
    obtain rfl := Option.some.inj (hh.symm.trans (code_hex_of_rfc hu'))
    exact .unit hu' (fun hpair => hpaired (paired_of_rfc hpair)) (ih hs)

theorem reads_code_of_rfc {b t : Text} (h : Reads rfc b t) (hp : Proper b) : Reads code b t := by
  induction h with
  | nil => exact .nil
  | char hc hquote hslash _ ih => exact .char hc hquote hslash (ih (hp.of_char hslash))
  | escape he _ ih => exact .escape he (ih (hp.of_escape (not_u_of_simpleEscape he)))
  | pair hh hhigh hl _ _ ih =>
    obtain ⟨-, -, -, hrest⟩ := hp.of_unit (rfc.plain _ _ hh).1
    obtain ⟨-, -, -, hs⟩ := hrest.of_unit (rfc.plain _ _ hl).1
    exact .pair (code_hex_of_rfc hh) hhigh (code_hex_of_rfc hl) rfl (ih hs)
  | unit hh hpaired _ ih =>
    obtain ⟨u', hu', hpair, hs⟩ := hp.of_unit (rfc.plain _ _ hh).1
    obtain rfl := Option.some.inj (hh.symm.trans hu')
    refine .unit (code_hex_of_rfc hh) ?_ (ih hs)
    rintro ⟨hhigh, l, v, s', rfl, -⟩
    obtain ⟨l', v', s'', hl', hv', hlow⟩ := hpair hhigh _ rfl
    exact hpaired ⟨hhigh, l', v', s'', by rw [hl'], hv', hlow⟩

theorem pairChar_toNat {u : Nat} (h : isHigh u = true) (v : Nat) : 0x10000 ≤ (pairChar u v).toNat := by
  simp only [isHigh, Bool.and_eq_true, decide_eq_true_eq] at h
  have hmod : (v + (2 ^ 32 - 0xDC00)) % 2 ^ 32 % 1024 < 1024 := Nat.mod_lt _ (by decide)
  have hvalid : (0x10000 + (u - 0xD800) * 1024 + (v + (2 ^ 32 - 0xDC00)) % 2 ^ 32 % 1024).isValidChar :=
    .inr ⟨by omega, by omega⟩
  have hnat : (Char.ofNat (0x10000 + (u - 0xD800) * 1024 + (v + (2 ^ 32 - 0xDC00)) % 2 ^ 32 % 1024)).toNat =
      0x10000 + (u - 0xD800) * 1024 + (v + (2 ^ 32 - 0xDC00)) % 2 ^ 32 % 1024 := by
    rw [Char.ofNat, dif_pos hvalid]
    rfl
  rw [pairChar, unitChar, if_pos hvalid, hnat]
  omega

theorem unitChar_high {u : Nat} (h : isHigh u = true) : (unitChar u).toNat < 0x10000 := by
  simp only [isHigh, Bool.and_eq_true, decide_eq_true_eq] at h
  have hinvalid : ¬ u.isValidChar := by
    rintro (hlt | ⟨hlt, -⟩) <;> omega
  rw [unitChar, if_neg hinvalid]
  decide

theorem not_high_of_low {v : Nat} (h : isLow v = true) : isHigh v = false := by
  simp only [isLow, isHigh, Bool.and_eq_true, decide_eq_true_eq, Bool.and_eq_false_iff,
    decide_eq_false_iff_not] at h ⊢
  omega

/-- A `\u` escape is a unit or starts a pair. -/
theorem Reads.unit_cases {r : Reading} {h s t : Text} (hlen : h.length = 4)
    (hr : Reads r ('\\' :: 'u' :: (h ++ s)) t) :
    (∃ u l v s' t', r.hex h = some u ∧ isHigh u = true ∧ r.hex l = some v ∧ r.low v = true ∧
      s = '\\' :: 'u' :: (l ++ s') ∧ t = pairChar u v :: t' ∧ Reads r s' t') ∨
    (∃ u t', r.hex h = some u ∧ ¬ Paired r u s ∧ t = unitChar u :: t' ∧ Reads r s t') := by
  generalize hx : '\\' :: 'u' :: (h ++ s) = x at hr
  cases hr with
  | nil => cases hx
  | char _ _ hc _ => exact absurd (List.cons.inj hx).1.symm hc
  | escape he _ => exact absurd (List.cons.inj (List.cons.inj hx).2).1.symm (not_u_of_simpleEscape he)
  | @pair h' l u v s' t' hu hhigh hv hlow hs =>
    have happend := (List.cons.inj (List.cons.inj hx).2).2
    obtain ⟨rfl, rfl⟩ := List.append_inj happend (by rw [hlen, (r.plain _ _ hu).1])
    exact .inl ⟨u, l, v, s', t', hu, hhigh, hv, hlow, rfl, rfl, hs⟩
  | @unit h' u s' t' hu hpaired hs =>
    have happend := (List.cons.inj (List.cons.inj hx).2).2
    obtain ⟨rfl, rfl⟩ := List.append_inj happend (by rw [hlen, (r.plain _ _ hu).1])
    exact .inr ⟨u, t', hu, hpaired, rfl, hs⟩

theorem Reads.of_char {r : Reading} {c : Char} {s t : Text} (hc : c ≠ '\\') (h : Reads r (c :: s) t) :
    ∃ t', t = c :: t' ∧ Reads r s t' := by
  cases h with
  | char _ _ _ hs => exact ⟨_, rfl, hs⟩
  | escape _ _ => exact absurd rfl hc
  | pair _ _ _ _ _ => exact absurd rfl hc
  | unit _ _ _ => exact absurd rfl hc

theorem Reads.of_escape {r : Reading} {e : Char} {s t : Text} (he : e ≠ 'u')
    (h : Reads r ('\\' :: e :: s) t) :
    ∃ c t', t = c :: t' ∧ Reads r s t' := by
  cases h with
  | char _ _ hc _ => exact absurd rfl hc
  | escape _ hs => exact ⟨_, _, rfl, hs⟩
  | pair _ _ _ _ _ => exact absurd rfl he
  | unit _ _ _ => exact absurd rfl he

/-- After a high unit that ends no pair, the code reads no `\u`. -/
theorem not_unit_of_not_paired {u : Nat} {s t : Text} (hhigh : isHigh u = true) (hpaired : ¬ Paired code u s)
    (hs : Reads code s t) (s' : Text) : s ≠ '\\' :: 'u' :: s' := by
  rintro rfl
  obtain ⟨l, v, s'', rfl, hv⟩ := Reads.of_unit hs
  exact hpaired ⟨hhigh, l, v, s'', rfl, hv, rfl⟩

/-- The escapes of a text that both read alike are proper. -/
theorem proper_of_reads {b t : Text} (h : Reads code b t) (h' : Reads rfc b t) : Proper b := by
  induction h with
  | nil => exact .nil
  | char _ _ hslash _ ih =>
    obtain ⟨t', heq, hs'⟩ := Reads.of_char hslash h'
    obtain ⟨-, rfl⟩ := List.cons.inj heq
    exact .char hslash (ih hs')
  | escape he _ ih =>
    have hu := not_u_of_simpleEscape he
    obtain ⟨c', t', heq, hs'⟩ := Reads.of_escape hu h'
    obtain ⟨-, rfl⟩ := List.cons.inj heq
    exact .escape hu (ih hs')
  | @pair h l u v s t hh hhigh hl _ _ ih =>
    rcases Reads.unit_cases (code.plain _ _ hh).1 h' with
      ⟨u', l', v', s', t', hu', -, hv', hlow, heq, ht, hs'⟩ | ⟨u', t', hu', -, ht, -⟩
    · have happend := (List.cons.inj (List.cons.inj heq).2).2
      obtain ⟨rfl, rfl⟩ := List.append_inj happend (by rw [(code.plain _ _ hl).1, (rfc.plain _ _ hv').1])
      obtain ⟨-, rfl⟩ := List.cons.inj ht
      have hlast : Proper ('\\' :: 'u' :: (l ++ s)) := by
        refine .unit hv' (fun hhigh' => ?_) (ih hs')
        rw [not_high_of_low hlow] at hhigh'
        cases hhigh'
      refine .unit hu' (fun _ s' hs' => ?_) hlast
      obtain rfl := (List.cons.inj (List.cons.inj hs').2).2
      exact ⟨l, v', s, rfl, hv', hlow⟩
    · -- the pair's character is beyond those of one unit
      obtain rfl : u = u' := Option.some.inj (hh.symm.trans (code_hex_of_rfc hu'))
      have hchar := (List.cons.inj ht).1
      have hpair := pairChar_toNat hhigh v
      have hunit := unitChar_high hhigh
      rw [hchar] at hpair
      omega
  | @unit h u s t hh hpaired hs ih =>
    rcases Reads.unit_cases (code.plain _ _ hh).1 h' with
      ⟨u', l, v, s', t', hu', hhigh, hv, hlow, rfl, -, -⟩ | ⟨u', t', hu', -, ht, hs'⟩
    · obtain rfl : u = u' := Option.some.inj (hh.symm.trans (code_hex_of_rfc hu'))
      exact absurd (paired_of_rfc ⟨hhigh, l, v, s', rfl, hv, hlow⟩) hpaired
    · obtain rfl : u = u' := Option.some.inj (hh.symm.trans (code_hex_of_rfc hu'))
      obtain ⟨-, rfl⟩ := List.cons.inj ht
      exact .unit hu' (fun hhigh s' hs'' => absurd hs'' (not_unit_of_not_paired hhigh hpaired hs s')) (ih hs')

/-! ## Documents -/

section

variable {F : Type}

abbrev Json (F : Type) := Value F Text

/-- The key is one of the entries before it. -/
def isKnown (known : List Text) (key : Text) : Bool := known.contains key

variable (readFloat : Text → Option F)

/-- `Json::parse`; `readFloat` is `f64::from_str`, of the numbers that are finite. -/
def parse (t : Text) : Option (Json F) := JsonText.parse readFloat string isKnown 1001 t

/-- The text is a document of RFC 8259 with this value, nested at most 1000 deep and without an
object that has a key twice. -/
def IsJson (t : Text) (v : Json F) : Prop :=
  JsonText.Document readFloat (Reads rfc) v t ∧ height v ≤ 1000 ∧ NoClash isKnown v

/-- The text is a document whose strings are left as they are written. -/
def Written (t : Text) (raw : Json F) : Prop := JsonText.Document readFloat Raw raw t

/-- Every string of the document has a text in the reading, and no object has two keys of one
text. -/
def Readable (r : Reading) (raw : Json F) : Prop := ∃ v : Json F, Related (Reads r) raw v ∧ NoClash isKnown v

/-- Of a document that either reading takes, every escape is proper. -/
def WellEscaped (t : Text) : Prop :=
  ∀ raw, Written readFloat t raw → height raw ≤ 1000 → Readable code raw ∨ Readable rfc raw → All Proper raw

variable {readFloat}

theorem reads_iff_raw (r : Reading) (b x : Text) : Reads r b x ↔ ∃ y, Raw b y ∧ Reads r y x := by
  refine ⟨fun h => ⟨b, ⟨rfl, h.lexical⟩, h⟩, ?_⟩
  rintro ⟨y, ⟨rfl, -⟩, h⟩
  exact h

theorem document_iff_written {r : Reading} {t : Text} {v : Json F} :
    JsonText.Document readFloat (Reads r) v t ↔ ∃ raw, Written readFloat t raw ∧ Related (Reads r) raw v :=
  document_iff_rel (reads_iff_raw r)

theorem Written.unique {t : Text} {raw raw' : Json F} (h : Written readFloat t raw)
    (h' : Written readFloat t raw') :
    raw = raw' :=
  document_unique readsStrings_raw h h'

theorem parse_iff_code {t : Text} {v : Json F} :
    parse readFloat t = some v ↔
      JsonText.Document readFloat (Reads code) v t ∧ height v ≤ 1000 ∧ NoClash isKnown v := by
  rw [parse, parse_iff readsStrings_string, Nat.lt_succ_iff]

variable (readFloat)

/-- **The reader accepts exactly the documents of the RFC, with their values**, on the texts whose
escapes are proper and on no others. -/
theorem parse_exact_iff (t : Text) :
    (∀ v, parse readFloat t = some v ↔ IsJson readFloat t v) ↔ WellEscaped readFloat t := by
  refine ⟨fun hexact raw hraw hheight hreadable => ?_, fun hproper v => ?_⟩
  · -- both readings give the document one value, so they agree on each of its strings
    have hboth : ∃ v, parse readFloat t = some v ∧ IsJson readFloat t v := by
      rcases hreadable with ⟨v, hrel, hclash⟩ | ⟨v, hrel, hclash⟩
      · have hparse := parse_iff_code.mpr ⟨document_iff_written.mpr ⟨raw, hraw, hrel⟩,
          hrel.height ▸ hheight, hclash⟩
        exact ⟨v, hparse, (hexact v).mp hparse⟩
      · have hjson : IsJson readFloat t v :=
          ⟨document_iff_written.mpr ⟨raw, hraw, hrel⟩, hrel.height ▸ hheight, hclash⟩
        exact ⟨v, (hexact v).mpr hjson, hjson⟩
    obtain ⟨v, hparse, hjson⟩ := hboth
    obtain ⟨raw₁, hraw₁, hcode⟩ := document_iff_written.mp (parse_iff_code.mp hparse).1
    obtain ⟨raw₂, hraw₂, hrfc⟩ := document_iff_written.mp hjson.1
    obtain rfl := hraw.unique hraw₁
    obtain rfl := hraw.unique hraw₂
    exact Related.all (fun (_ _ : Text) h h' => proper_of_reads h h') hcode hrfc
  · rw [parse_iff_code]
    refine and_congr_left fun ⟨hheight, hclash⟩ => ?_
    rw [document_iff_written, document_iff_written]
    refine exists_congr fun raw => and_congr_right fun hraw => ⟨fun hrel => ?_, fun hrel => ?_⟩
    · have hall := hproper raw hraw (hrel.height ▸ hheight) (.inl ⟨v, hrel, hclash⟩)
      exact Related.mono (fun (b x : Text) hp (h : Reads code b x) => reads_rfc_of_code h hp) hall hrel
    · have hall := hproper raw hraw (hrel.height ▸ hheight) (.inr ⟨v, hrel, hclash⟩)
      exact Related.mono (fun (b x : Text) hp (h : Reads rfc b x) => reads_code_of_rfc h hp) hall hrel

end

theorem document_str {F : Type} {readFloat : Text → Option F} {r : Reading} {b x : Text} (h : Reads r b x) :
    JsonText.Document readFloat (Reads r) (.str x) ('"' :: (b ++ ['"'])) := by
  refine ⟨[], '"' :: (b ++ ['"']), [], by simp, by simp [Ws], ?_, by simp [Ws]⟩
  rw [Spells]
  exact ⟨b, rfl, h⟩

theorem document_str_reads {F : Type} {readFloat : Text → Option F} {r : Reading} {b : Text}
    (hlex : Lexical b) {v : Json F} (h : JsonText.Document readFloat (Reads r) v ('"' :: (b ++ ['"']))) :
    ∃ x, Reads r b x := by
  obtain ⟨raw, hraw, hrel⟩ := document_iff_written.1 h
  have hstr : Written readFloat ('"' :: (b ++ ['"'])) (.str b) := by
    refine ⟨[], '"' :: (b ++ ['"']), [], by simp, by simp [Ws], ?_, by simp [Ws]⟩
    rw [Spells]
    exact ⟨b, rfl, rfl, hlex⟩
  obtain rfl := hraw.unique hstr
  cases v with
  | str x => exact ⟨x, by simpa [Related] using hrel⟩
  | _ => simp [Related] at hrel

/-- A sign among the digits is read as a number, and a high surrogate takes the next escape with it
whatever that is. -/
theorem parse_sign_and_surrogate :
    parse (fun _ => (none : Option Unit)) "\"\\u+041\"" = some (.str "A".toList) ∧
    (∀ v, ¬ IsJson (fun _ => (none : Option Unit)) "\"\\u+041\"" v) ∧
    parse (fun _ => (none : Option Unit)) "\"\\ud800\\u0041\"" = some (.str [Char.ofNat 0x10041]) ∧
    IsJson (fun _ => (none : Option Unit)) "\"\\ud800\\u0041\"" (.str [replacement, 'A']) := by
  have hsign : Reads code "\\u+041".toList "A".toList :=
    .unit (h := "+041".toList) (u := 0x41) (s := []) (by decide) (fun h => by cases h.1) .nil
  have hpair : Reads code "\\ud800\\u0041".toList [Char.ofNat 0x10041] :=
    .pair (h := "d800".toList) (l := "0041".toList) (u := 0xD800) (v := 0x41) (s := [])
      (by decide) (by decide) (by decide)
      rfl .nil
  have hlone : Reads rfc "\\ud800\\u0041".toList [replacement, 'A'] := by
    refine .unit (h := "d800".toList) (u := 0xD800) (s := "\\u0041".toList) (by decide) ?_ ?_
    · rintro ⟨-, l, v, s, hs, hv, hlow⟩
      have happend : "0041".toList ++ [] = l ++ s := (List.cons.inj (List.cons.inj hs).2).2
      obtain ⟨rfl, -⟩ := List.append_inj happend (rfc.plain _ _ hv).1.symm
      obtain rfl : 0x41 = v := Option.some.inj hv
      cases hlow
    · exact .unit (h := "0041".toList) (u := 0x41) (s := []) (by decide) (fun h => by cases h.1) .nil
  refine ⟨?_, ?_, ?_, ?_⟩
  · exact parse_iff_code.mpr ⟨document_str hsign, by simp [height], by simp [NoClash]⟩
  · rintro v ⟨hdoc, -⟩
    have hnone : rfc.hex "+041".toList = none := by decide
    obtain ⟨x, hx⟩ := document_str_reads (b := "\\u+041".toList) hsign.lexical hdoc
    rcases Reads.unit_cases (h := "+041".toList) (s := []) rfl hx with ⟨u, _, _, _, _, hu, -⟩ | ⟨u, _, hu, -⟩
    · cases hnone.symm.trans hu
    · cases hnone.symm.trans hu
  · exact parse_iff_code.mpr ⟨document_str hpair, by simp [height], by simp [NoClash]⟩
  · exact ⟨document_str hlone, by simp [height], by simp [NoClash]⟩

end HomeStack.Documents

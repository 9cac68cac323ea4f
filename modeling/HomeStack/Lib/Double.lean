import Mathlib.Data.Int.Log
import Mathlib.Data.Rat.Floor
import Mathlib.Tactic

/-! Rounding to double precision (IEEE 754 `binary64`), of values below the largest double: the nearest
multiple of the last place, of two the even one. -/

namespace Double

/-- The nearest integer, of two the even one. -/
def roundEven (x : ℚ) : ℤ := if x - ⌊x⌋ < 1 / 2 ∨ (x - ⌊x⌋ = 1 / 2 ∧ ⌊x⌋ % 2 = 0) then ⌊x⌋ else ⌊x⌋ + 1

/-- The last place of a positive value: 53 bits, but none below `2^-1074`. -/
def place (x : ℚ) : ℤ := max (Int.log 2 x - 52) (-1074)

def roundPos (x : ℚ) : ℚ := roundEven (x / 2 ^ place x) * 2 ^ place x

def round (x : ℚ) : ℚ := if x < 0 then -roundPos (-x) else roundPos x

theorem floor_le_roundEven (x : ℚ) : ⌊x⌋ ≤ roundEven x := by
  unfold roundEven
  split <;> omega

theorem roundEven_le (x : ℚ) : roundEven x ≤ ⌊x⌋ + 1 := by
  unfold roundEven
  split <;> omega

theorem roundEven_mono {x y : ℚ} (h : x ≤ y) : roundEven x ≤ roundEven y := by
  obtain hlt | heq := (Int.floor_mono h).lt_or_eq
  · calc roundEven x ≤ ⌊x⌋ + 1 := roundEven_le x
      _ ≤ ⌊y⌋ := hlt
      _ ≤ roundEven y := floor_le_roundEven y
  · -- between the same integers the fraction decides
    unfold roundEven
    rw [heq]
    split
    · split <;> omega
    · rename_i hx
      rw [if_neg]
      intro hy
      apply hx
      obtain hy | ⟨hy, heven⟩ := hy
      · left
        linarith
      · obtain hlt | heq := h.lt_or_eq
        · left
          linarith
        · right
          exact ⟨by rw [heq]; exact hy, heven⟩

theorem roundEven_int (n : ℤ) : roundEven n = n := by
  simp [roundEven]

theorem roundEven_nonneg {x : ℚ} (h : 0 ≤ x) : 0 ≤ roundEven x :=
  (Int.floor_nonneg.mpr h).trans (floor_le_roundEven x)

theorem roundPos_nonneg {x : ℚ} (h : 0 ≤ x) : 0 ≤ roundPos x := by
  have hplace : (0 : ℚ) < 2 ^ place x := by positivity
  have hround := roundEven_nonneg (div_nonneg h hplace.le)
  exact mul_nonneg (by exact_mod_cast hround) hplace.le

theorem place_mono {x y : ℚ} (hx : 0 < x) (h : x ≤ y) : place x ≤ place y :=
  max_le_max (sub_le_sub_right (Int.log_mono_right hx h) 52) le_rfl

/-- A power of two is a multiple of a lower place. -/
theorem exists_zpow_eq {x : ℚ} {k : ℤ} (hk : place x ≤ k) : ∃ n : ℤ, (2 : ℚ) ^ k = n * 2 ^ place x := by
  obtain ⟨n, hn⟩ := Int.le.dest hk
  refine ⟨2 ^ n, ?_⟩
  rw [← hn, add_comm, zpow_add₀ (by norm_num)]
  simp

/-- Rounding does not pass a power of two from below. -/
theorem roundPos_le_zpow {x : ℚ} {k : ℤ} (hk : place x ≤ k) (h : x ≤ 2 ^ k) : roundPos x ≤ 2 ^ k := by
  obtain ⟨n, hn⟩ := exists_zpow_eq hk
  have hplace : (0 : ℚ) < 2 ^ place x := by positivity
  have hround := roundEven_mono ((div_le_iff₀ hplace).mpr (hn ▸ h))
  rw [roundEven_int] at hround
  rw [roundPos, hn]
  gcongr

/-- Nor from above. -/
theorem zpow_le_roundPos {x : ℚ} {k : ℤ} (hk : place x ≤ k) (h : 2 ^ k ≤ x) : 2 ^ k ≤ roundPos x := by
  obtain ⟨n, hn⟩ := exists_zpow_eq hk
  have hplace : (0 : ℚ) < 2 ^ place x := by positivity
  have hround := roundEven_mono ((le_div_iff₀ hplace).mpr (hn ▸ h))
  rw [roundEven_int] at hround
  rw [roundPos, hn]
  gcongr

theorem roundPos_mono {x y : ℚ} (hx : 0 ≤ x) (h : x ≤ y) : roundPos x ≤ roundPos y := by
  obtain rfl | hx := hx.eq_or_lt
  · simpa [roundPos, roundEven] using roundPos_nonneg h
  obtain hlt | heq := (place_mono hx h).lt_or_eq
  · -- a power of two lies between them
    have hlog : place y = Int.log 2 y - 52 := by
      unfold place at hlt ⊢
      omega
    have hk : place x + 53 ≤ Int.log 2 y := by omega
    have hxlog : Int.log 2 x < Int.log 2 y := by
      unfold place at hk
      omega
    have hbetween : x ≤ 2 ^ Int.log 2 y := by
      refine (Int.lt_zpow_succ_log_self (b := 2) (by norm_num) x).le.trans ?_
      exact_mod_cast zpow_le_zpow_right₀ (by norm_num : (1 : ℚ) ≤ 2) hxlog
    calc roundPos x ≤ 2 ^ Int.log 2 y := roundPos_le_zpow (by omega) hbetween
      _ ≤ roundPos y := zpow_le_roundPos (by omega)
        (by exact_mod_cast Int.zpow_log_le_self (b := 2) (by norm_num) (hx.trans_le h))
  · have hplace : (0 : ℚ) < 2 ^ place y := by positivity
    have hround := roundEven_mono (div_le_div_of_nonneg_right h hplace.le)
    rw [roundPos, roundPos, heq]
    gcongr

theorem round_mono {x y : ℚ} (h : x ≤ y) : round x ≤ round y := by
  unfold round
  split
  · rename_i hx
    split
    · rename_i hy
      exact neg_le_neg (roundPos_mono (by linarith) (by linarith))
    · have hneg := roundPos_nonneg (show 0 ≤ -x by linarith)
      have hpos := roundPos_nonneg (show 0 ≤ y by linarith)
      linarith
  · rename_i hx
    rw [if_neg (by linarith)]
    exact roundPos_mono (by linarith) h

/-- Integers of up to 53 bits are doubles. -/
theorem round_natCast {n : Nat} (h : n < 2 ^ 53) : round (n : ℚ) = n := by
  have hneg : ¬ (n : ℚ) < 0 := not_lt.mpr (Nat.cast_nonneg n)
  rw [round, if_neg hneg]
  obtain rfl | hpos := Nat.eq_zero_or_pos n
  · simp [roundPos, roundEven]
  have hlog : Int.log 2 (n : ℚ) < 53 := by
    rw [← Int.lt_zpow_iff_log_lt (by norm_num) (by exact_mod_cast hpos)]
    exact_mod_cast h
  obtain ⟨m, hm⟩ := exists_zpow_eq (x := (n : ℚ)) (k := 0) (by unfold place; omega)
  rw [zpow_zero] at hm
  have hplace : (0 : ℚ) < 2 ^ place (n : ℚ) := by positivity
  have hdiv : (n : ℚ) / 2 ^ place (n : ℚ) = ((n * m : ℤ) : ℚ) := by
    rw [div_eq_iff hplace.ne']
    push_cast
    rw [mul_assoc, ← hm, mul_one]
  rw [roundPos, hdiv, roundEven_int, ← hdiv, div_mul_cancel₀ _ hplace.ne']

theorem round_nonneg {x : ℚ} (h : 0 ≤ x) : 0 ≤ round x := by
  rw [round, if_neg (not_lt.mpr h)]
  exact roundPos_nonneg h

/-- Half a unit in the last of 53 bits. -/
def unit : ℚ := 1 / 2 ^ 53

theorem roundEven_le_half (x : ℚ) : (roundEven x : ℚ) ≤ x + 1 / 2 := by
  have hfloor := Int.floor_le x
  unfold roundEven
  split
  · linarith
  · rename_i hnot
    have hge : 1 / 2 ≤ x - ⌊x⌋ := not_lt.mp fun hlt => hnot (.inl hlt)
    push_cast
    linarith

/-- Zero or not below the normal range. -/
def Normal (x : ℚ) : Prop := x = 0 ∨ 1 / 2 ^ 1022 ≤ x

/-- The relative error of a rounded value. -/
theorem round_le {x : ℚ} (h : Normal x) : round x ≤ x * (1 + unit) := by
  rcases h with rfl | h
  · simp [round, roundPos, roundEven]
  have hpos : 0 < x := lt_of_lt_of_le (by positivity) h
  have hlog : -1022 ≤ Int.log 2 x := by
    rw [← Int.zpow_le_iff_le_log (by norm_num) hpos]
    simpa [zpow_neg] using h
  have hplace : place x = Int.log 2 x - 52 := by
    unfold place
    omega
  have hunit : (2 : ℚ) ^ place x / 2 ≤ x * unit := by
    have hle : (2 : ℚ) ^ Int.log 2 x ≤ x := by exact_mod_cast Int.zpow_log_le_self (b := 2) (by norm_num) hpos
    calc (2 : ℚ) ^ place x / 2 = 2 ^ Int.log 2 x * unit := by
          rw [hplace, zpow_sub₀ (by norm_num), unit]
          norm_num
          ring
      _ ≤ x * unit := by
          have hunit : 0 ≤ unit := by norm_num [unit]
          gcongr
  have hne : (0 : ℚ) < 2 ^ place x := by positivity
  rw [round, if_neg (not_lt.mpr hpos.le), roundPos]
  calc (roundEven (x / 2 ^ place x) : ℚ) * 2 ^ place x ≤ (x / 2 ^ place x + 1 / 2) * 2 ^ place x := by
        gcongr
        exact roundEven_le_half _
    _ = x + 2 ^ place x / 2 := by
        field_simp
    _ ≤ x * (1 + unit) := by
        rw [mul_add, mul_one]
        gcongr

/-! ## Sums -/

/-- The sum from left to right, rounded after every step. -/
def sum (l : List ℚ) : ℚ := l.foldl (fun total x => round (total + x)) 0

theorem sum_append_singleton (l : List ℚ) (x : ℚ) : sum (l ++ [x]) = round (sum l + x) := by
  simp [sum]

theorem Normal.nonneg {x : ℚ} (h : Normal x) : 0 ≤ x := by
  rcases h with rfl | h
  · exact le_rfl
  · exact le_trans (by positivity) h

theorem Normal.add {x y : ℚ} (hx : Normal x) (hy : Normal y) : Normal (x + y) := by
  rcases hx with rfl | hx'
  · rwa [zero_add]
  · exact .inr (hx'.trans (le_add_of_nonneg_right hy.nonneg))

theorem Normal.round {x : ℚ} (h : Normal x) : Normal (round x) := by
  rcases h with rfl | h
  · left
    simp [Double.round, roundPos, roundEven]
  · right
    have hpow : (1 : ℚ) / 2 ^ 1022 = 2 ^ (-1022 : ℤ) := by
      rw [zpow_neg, one_div]
      norm_cast
    have hpos : 0 < x := lt_of_lt_of_le (by positivity) h
    have hmono := round_mono h
    rw [hpow] at hmono ⊢
    refine le_trans ?_ hmono
    have hnot : ¬ (2 : ℚ) ^ (-1022 : ℤ) < 0 := not_lt.mpr (by positivity)
    rw [Double.round, if_neg hnot]
    refine zpow_le_roundPos ?_ le_rfl
    have hlog : Int.log 2 ((2 : ℚ) ^ (-1022 : ℤ)) = -1022 := by
      exact_mod_cast Int.log_zpow (R := ℚ) (b := 2) (by norm_num) (-1022)
    rw [place, hlog]
    norm_num

theorem normal_sum {l : List ℚ} (h : ∀ x ∈ l, Normal x) : Normal (sum l) := by
  induction l using List.reverseRecOn with
  | nil => exact .inl rfl
  | append_singleton l x ih =>
    rw [sum_append_singleton]
    exact ((ih fun y hy => h y (List.mem_append_left _ hy)).add (h x (by simp))).round

/-- The relative error of a sum. -/
theorem sum_le {l : List ℚ} (h : ∀ x ∈ l, Normal x) : sum l ≤ l.sum * (1 + unit) ^ l.length := by
  have hunit : 0 ≤ unit := by norm_num [unit]
  induction l using List.reverseRecOn with
  | nil => simp [sum]
  | append_singleton l x ih =>
    have hl : ∀ y ∈ l, Normal y := fun y hy => h y (List.mem_append_left _ hy)
    have hx : Normal x := h x (by simp)
    have hpow : 1 ≤ (1 + unit) ^ l.length := one_le_pow₀ (by linarith)
    rw [sum_append_singleton, List.sum_append, List.sum_singleton, List.length_append,
      List.length_singleton, pow_succ]
    calc round (sum l + x) ≤ (sum l + x) * (1 + unit) := round_le ((normal_sum hl).add hx)
      _ ≤ (l.sum * (1 + unit) ^ l.length + x * (1 + unit) ^ l.length) * (1 + unit) := by
        gcongr
        · exact ih hl
        · exact le_mul_of_one_le_right hx.nonneg hpow
      _ = (l.sum + x) * ((1 + unit) ^ l.length * (1 + unit)) := by
        ring

theorem sum_mono {l l' : List ℚ} (h : List.Forall₂ (· ≤ ·) l l') : sum l ≤ sum l' := by
  have hfold : ∀ {a b : ℚ}, a ≤ b → ∀ {l l' : List ℚ}, List.Forall₂ (· ≤ ·) l l' →
      l.foldl (fun total x => round (total + x)) a ≤ l'.foldl (fun total x => round (total + x)) b := by
    intro a b hab l l' hll
    induction hll generalizing a b with
    | nil => exact hab
    | cons hxy _ ih => exact ih (round_mono (add_le_add hab hxy))
  exact hfold le_rfl h

end Double

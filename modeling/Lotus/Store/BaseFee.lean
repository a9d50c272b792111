/-
# The base fee of the next tipset (`chain/store/basefee.go`).

The fee moves by at most an eighth, by how far the gas limits of a tipset are from the target. The pool takes a hundredth of
it (`baseFeeLowerBoundFactorConservative`), or a tenth, for a bound of what it can fall to.
-/
import Lotus.VM.Gas
import Mathlib.Tactic.Ring

namespace Lotus.Store
open VM Int

def blockGasTarget : Int := 5000000000

def baseFeeMaxChangeDenom : Int := 8

def minimumBaseFee : Int := 100

def packingEfficiencyNum : Int := 4

def packingEfficiencyDenom : Int := 5

/-- `delta` before it is capped; `smoke` is `epoch > build.UpgradeSmokeHeight`. -/
def gasDelta (smoke : Bool) (gasLimitUsed noOfBlocks : Int) : Int :=
  if smoke then int64 (gasLimitUsed.tdiv noOfBlocks - blockGasTarget)
  else
    int64 ((int64 (packingEfficiencyDenom * gasLimitUsed)).tdiv (int64 (noOfBlocks * packingEfficiencyNum)) - blockGasTarget)

/-- The rest of `ComputeNextBaseFee`, on big integers but for the cap. -/
def moveBaseFee (baseFee delta : Int) : Int :=
  let delta := if delta > blockGasTarget then blockGasTarget else delta
  let delta := if delta < -blockGasTarget then -blockGasTarget else delta
  let change := baseFee * delta / blockGasTarget / baseFeeMaxChangeDenom
  let nextBaseFee := baseFee + change
  if nextBaseFee < minimumBaseFee then minimumBaseFee else nextBaseFee

def computeNextBaseFee (smoke : Bool) (baseFee gasLimitUsed noOfBlocks : Int) : Int :=
  moveBaseFee baseFee (gasDelta smoke gasLimitUsed noOfBlocks)

/-- The truncated average of the gas limits, which the old rule raises by a quarter. -/
def averageGas (smoke : Bool) (gasLimitUsed noOfBlocks : Int) : Int :=
  if smoke then gasLimitUsed / noOfBlocks else 5 * gasLimitUsed / (4 * noOfBlocks)

variable {smoke : Bool} {b b' δ δ' total n : Int}

theorem gasDelta_eq (hn : 1 ≤ n) (ht : 0 ≤ total) (hi : total < 2 ^ 63)
    (ho : smoke = false → 5 * total < 2 ^ 63 ∧ 4 * n < 2 ^ 63) :
    gasDelta smoke total n = averageGas smoke total n - blockGasTarget := by
  unfold gasDelta averageGas blockGasTarget packingEfficiencyNum packingEfficiencyDenom
  cases smoke with
  | true =>
    have hle := ediv_le_self n ht
    have hnonneg := ediv_nonneg ht (show 0 ≤ n by omega)
    rw [if_pos rfl, if_pos rfl, tdiv_eq_ediv_of_nonneg ht, int64_eq (by omega) (by omega)]
  | false =>
    obtain ⟨ho, hm⟩ := ho rfl
    have hle := ediv_le_self (4 * n) (show 0 ≤ 5 * total by omega)
    have hnonneg := ediv_nonneg (show 0 ≤ 5 * total by omega) (show 0 ≤ 4 * n by omega)
    rw [if_neg Bool.false_ne_true, if_neg Bool.false_ne_true, mul_comm n 4, @int64_eq (5 * total) (by omega) (by omega),
      @int64_eq (4 * n) (by omega) (by omega), tdiv_eq_ediv_of_nonneg (by omega), int64_eq (by omega) (by omega)]

def capped (δ : Int) : Int := max (-5000000000) (min 5000000000 δ)

theorem moveBaseFee_eq : moveBaseFee b δ = max 100 (b + b * capped δ / 40000000000) := by
  have hc : (if (if δ > blockGasTarget then blockGasTarget else δ) < -blockGasTarget then -blockGasTarget
      else if δ > blockGasTarget then blockGasTarget else δ) = capped δ := by
    unfold blockGasTarget capped
    split_ifs <;> omega
  unfold moveBaseFee
  dsimp only
  rw [hc, ediv_ediv_of_nonneg (by decide), show blockGasTarget * baseFeeMaxChangeDenom = 40000000000 from rfl]
  unfold minimumBaseFee
  split_ifs <;> omega

theorem capped_bounds (hb : 0 ≤ b) : -(5000000000 * b) ≤ b * capped δ ∧ b * capped δ ≤ 5000000000 * b := by
  have hlo := mul_le_mul_of_nonneg_left (show -5000000000 ≤ capped δ by unfold capped; omega) hb
  have hhi := mul_le_mul_of_nonneg_left (show capped δ ≤ 5000000000 by unfold capped; omega) hb
  omega

theorem moveBaseFee_mono (hb : 0 ≤ b) (hbb : b ≤ b') (hd : δ ≤ δ') : moveBaseFee b δ ≤ moveBaseFee b' δ' := by
  have hc : capped δ ≤ capped δ' := by
    unfold capped
    omega
  have hle := mul_le_mul_of_nonneg_left hc (show 0 ≤ b' by omega)
  -- what a greater fee loses by the change is less than what it is greater by
  have hlo := (@capped_bounds (b' - b) δ (by omega)).1
  rw [sub_mul] at hlo
  rw [moveBaseFee_eq, moveBaseFee_eq]
  omega

theorem moveBaseFee_bounds (hb : 100 ≤ b) :
    100 ≤ moveBaseFee b δ ∧ moveBaseFee b δ ≤ b + b / 8 ∧ b - (b + 7) / 8 ≤ moveBaseFee b δ := by
  have hc := @capped_bounds b δ (by omega)
  rw [moveBaseFee_eq]
  omega

theorem moveBaseFee_eq_self (hb : 100 ≤ b) :
    moveBaseFee b δ = b ↔ δ = 0 ∨ (0 < δ ∧ b * min δ 5000000000 < 40000000000) ∨ (δ < 0 ∧ b = 100) := by
  rw [moveBaseFee_eq]
  rcases lt_trichotomy δ 0 with hd | rfl | hd
  · have hneg : b * capped δ < 0 := mul_neg_of_pos_of_neg (by omega) (by unfold capped; omega)
    omega
  · rw [show capped 0 = 0 from rfl, mul_zero]
    omega
  · have hpos : 0 < b * capped δ := mul_pos (by omega) (by unfold capped; omega)
    rw [show min δ 5000000000 = capped δ by unfold capped; omega]
    omega

/-- **The base fee moves within its bounds**, where nothing overflows: with the average in exact arithmetic, it is at least the
minimum, changes by at most an eighth, and grows with the gas limits and with the fee before. -/
theorem computeNextBaseFee_bounds (smoke : Bool) (baseFee total n : Int) (hb : minimumBaseFee ≤ baseFee) (hn : 1 ≤ n)
    (ht : 0 ≤ total) (hi : total < 2 ^ 63) (ho : smoke = false → 5 * total < 2 ^ 63 ∧ 4 * n < 2 ^ 63) :
    let next := computeNextBaseFee smoke
    let average := averageGas smoke total n
    next baseFee total n = moveBaseFee baseFee (average - blockGasTarget) ∧
      minimumBaseFee ≤ next baseFee total n ∧ next baseFee total n ≤ baseFee + baseFee / 8 ∧
      baseFee - (baseFee + 7) / 8 ≤ next baseFee total n ∧
      (∀ less, 0 ≤ less → less ≤ total → next baseFee less n ≤ next baseFee total n) ∧
      (∀ lower, minimumBaseFee ≤ lower → lower ≤ baseFee → next lower total n ≤ next baseFee total n) ∧
      (next baseFee total n = baseFee ↔ average = blockGasTarget ∨
        (blockGasTarget < average ∧ baseFee * min (average - blockGasTarget) blockGasTarget < 8 * blockGasTarget) ∨
        (average < blockGasTarget ∧ baseFee = minimumBaseFee)) := by
  intro next average
  have hb : 100 ≤ baseFee := hb
  have hde := gasDelta_eq hn ht hi ho
  have hnext : next baseFee total n = moveBaseFee baseFee (average - blockGasTarget) := congrArg (moveBaseFee baseFee) hde
  obtain ⟨hmin, hup, hlo⟩ := @moveBaseFee_bounds baseFee (average - blockGasTarget) hb
  rw [hnext]
  refine ⟨rfl, hmin, hup, hlo, fun less hl hle => ?_, fun lower hl hle => ?_, ?_⟩
  · have hav : averageGas smoke less n ≤ average := by
      unfold average averageGas
      split_ifs
      · exact Int.ediv_le_ediv (by omega) hle
      · exact Int.ediv_le_ediv (by omega) (by omega)
    show moveBaseFee baseFee (gasDelta smoke less n) ≤ _
    rw [gasDelta_eq hn hl (by omega) fun h => ⟨by have := (ho h).1; omega, (ho h).2⟩]
    exact moveBaseFee_mono (by omega) (le_refl _) (by omega)
  · show moveBaseFee lower (gasDelta smoke total n) ≤ _
    have hl : 100 ≤ lower := hl
    rw [hde]
    exact moveBaseFee_mono (by omega) hle (le_refl _)
  · rw [moveBaseFee_eq_self hb]
    unfold blockGasTarget minimumBaseFee
    omega

theorem computeNextBaseFee_bounds_full :
    computeNextBaseFee true 1000 20000000000 2 = 1125 ∧
      computeNextBaseFee true 1000 20000000000 2 ≤ 1000 + 1000 / 8 :=
  ⟨by decide, (computeNextBaseFee_bounds true 1000 20000000000 2 (by decide) (by decide) (by decide) (by decide)
    (by rintro ⟨⟩)).2.2.1⟩

/-- Before the upgrade the total is multiplied by five: with two hundred million full blocks it wraps, and the fee falls. -/
theorem full_blocks_lower_fee :
    computeNextBaseFee false 1000 (200000000 * 10000000000) 200000000 = 875 ∧
      computeNextBaseFee false 1000 (100000000 * 10000000000) 200000000 = 1031 ∧
      blockGasTarget < averageGas false (200000000 * 10000000000) 200000000 := by decide

/-- A rule by `smoke`, a gas limit and a number of blocks for each of the tipsets, and the fee after them. -/
def feeAfter (b : Int) (tipsets : List (Bool × Int × Int)) : Int :=
  tipsets.foldl (fun b t => computeNextBaseFee t.1 b t.2.1 t.2.2) b

def baseFeeLowerBoundFactor : Int := 10

def baseFeeLowerBoundFactorConservative : Int := 100

def getBaseFeeLowerBound (baseFee factor : Int) : Int :=
  let baseFeeLowerBound := baseFee / factor
  if baseFeeLowerBound < minimumBaseFee then minimumBaseFee else baseFeeLowerBound

def fall (b : Int) : Int := max 100 (7 * b / 8)

theorem fall_iterate_le {m : Nat} (hb : 100 ≤ b) (hbb : b ≤ b') : 100 ≤ fall^[m] b ∧ fall^[m] b ≤ fall^[m] b' ∧ fall^[m] b ≤ b := by
  induction m generalizing b b' with
  | zero => exact ⟨hb, hbb, le_refl b⟩
  | succ m ih =>
    have hf : 100 ≤ fall b ∧ fall b ≤ fall b' ∧ fall b ≤ b := by
      unfold fall
      omega
    obtain ⟨hlo, hle, hs⟩ := ih hf.1 hf.2.1
    exact ⟨hlo, hle, hs.trans hf.2.2⟩

theorem fall_le_feeAfter {m : Nat} {tipsets : List (Bool × Int × Int)} (hb : 100 ≤ b) (hlen : tipsets.length ≤ m) :
    fall^[m] b ≤ feeAfter b tipsets := by
  induction tipsets generalizing b m with
  | nil => exact (fall_iterate_le hb (le_refl b)).2.2
  | cons t tipsets ih =>
    obtain ⟨m, rfl⟩ := Nat.exists_eq_succ_of_ne_zero (Nat.ne_zero_of_lt hlen)
    obtain ⟨hmin, -, hlo⟩ := @moveBaseFee_bounds b (gasDelta t.1 t.2.1 t.2.2) hb
    have hf : fall b ≤ computeNextBaseFee t.1 b t.2.1 t.2.2 := by
      unfold fall computeNextBaseFee
      omega
    have hle := (@fall_iterate_le (fall b) _ m (by unfold fall; omega) hf).2.1
    exact hle.trans (ih hmin (Nat.le_of_succ_le_succ hlen))

theorem fall_iterate_ge (m : Nat) (b : Int) : 7 ^ m * (b + 7) ≤ 8 ^ m * (fall^[m] b + 7) := by
  induction m generalizing b with
  | zero => exact le_refl _
  | succ m ih =>
    have hf : 7 * (b + 7) ≤ 8 * (fall b + 7) := by
      unfold fall
      omega
    calc (7 : Int) ^ (m + 1) * (b + 7) = 7 ^ m * (7 * (b + 7)) := by ring
      _ ≤ 7 ^ m * (8 * (fall b + 7)) := Int.mul_le_mul_of_nonneg_left hf (Int.pow_nonneg (by decide))
      _ = 8 * (7 ^ m * (fall b + 7)) := by ring
      _ ≤ 8 * (8 ^ m * (fall^[m] (fall b) + 7)) := mul_le_mul_of_nonneg_left (ih (fall b)) (by decide)
      _ = 8 ^ (m + 1) * (fall^[m + 1] b + 7) := by rw [Function.iterate_succ_apply]; ring

theorem fall_iterate_upper {m : Nat} (hb : 100 ≤ b) : fall^[m] b ≤ 100 ∨ 8 ^ m * fall^[m] b ≤ 7 ^ m * b := by
  induction m generalizing b with
  | zero => exact .inr (le_refl _)
  | succ m ih =>
    have hf : 100 ≤ fall b := by
      unfold fall
      omega
    rcases ih hf with hle | hle
    · exact .inl hle
    by_cases hlow : fall b = 100
    · exact .inl ((fall_iterate_le hf (le_refl _)).2.2.trans (le_of_eq hlow))
    have hstep : 8 * fall b ≤ 7 * b := by
      unfold fall at hlow ⊢
      omega
    refine .inr ?_
    calc (8 : Int) ^ (m + 1) * fall^[m + 1] b = 8 * (8 ^ m * fall^[m] (fall b)) := by rw [Function.iterate_succ_apply]; ring
      _ ≤ 8 * (7 ^ m * fall b) := mul_le_mul_of_nonneg_left hle (by decide)
      _ = 7 ^ m * (8 * fall b) := by ring
      _ ≤ 7 ^ m * (7 * b) := Int.mul_le_mul_of_nonneg_left hstep (Int.pow_nonneg (by decide))
      _ = 7 ^ (m + 1) * b := by ring

/-- Empty tipsets are the worst ones. -/
theorem feeAfter_empty (m : Nat) (b : Int) : feeAfter b (List.replicate m (true, 0, 1)) = fall^[m] b := by
  induction m generalizing b with
  | zero => rfl
  | succ m ih =>
    have hf : computeNextBaseFee true b 0 1 = fall b := by
      show moveBaseFee b (-5000000000) = _
      rw [moveBaseFee_eq, show capped (-5000000000) = -5000000000 from rfl]
      unfold fall
      omega
    rw [Function.iterate_succ_apply, ← ih, ← hf]
    rfl

theorem lowerBound_le_seventeen {tipsets : List (Bool × Int × Int)} (hb : 100 ≤ b) (hlen : tipsets.length ≤ 17) :
    getBaseFeeLowerBound b baseFeeLowerBoundFactor ≤ feeAfter b tipsets := by
  have hfl := (@fall_iterate_le b b 17 hb (le_refl b)).1
  have hge := fall_iterate_ge 17 b
  have hle := fall_le_feeAfter hb hlen
  -- rounding matters only for small fees, and there the multiples of ten suffice
  have hsm : ∀ n : Nat, n < 190 → (n : Int) ≤ fall^[17] (10 * n) := by decide +kernel
  have hsm := hsm (b / 10).toNat
  rw [toNat_of_nonneg (by omega)] at hsm
  have hmo := (@fall_iterate_le (10 * (b / 10)) b 17 (by omega) (by omega)).2.1
  unfold getBaseFeeLowerBound baseFeeLowerBoundFactor minimumBaseFee
  dsimp only
  split_ifs <;> omega

/-- **How long the fee floor of the pool is sound**: with the factor 10 for seventeen tipsets and no more, unless the floor is
the minimum; with the conservative factor for the twenty that are meant. -/
theorem getBaseFeeLowerBound_sound (b : Int) (hb : minimumBaseFee ≤ b) (n : Nat) :
    ((∀ tipsets, tipsets.length ≤ n → getBaseFeeLowerBound b baseFeeLowerBoundFactor ≤ feeAfter b tipsets) ↔
        n ≤ 17 ∨ b < 1010) ∧
      ∀ tipsets, tipsets.length ≤ 20 → getBaseFeeLowerBound b baseFeeLowerBoundFactorConservative ≤ feeAfter b tipsets := by
  have hb : 100 ≤ b := hb
  refine ⟨⟨fun h => ?_, ?_⟩, fun tipsets hlen => ?_⟩
  · by_contra hno
    have hbad := h (List.replicate 18 (true, 0, 1)) (by rw [List.length_replicate]; omega)
    have hup := @fall_iterate_upper b 18 hb
    rw [feeAfter_empty] at hbad
    unfold getBaseFeeLowerBound baseFeeLowerBoundFactor minimumBaseFee at hbad
    dsimp only at hbad
    split_ifs at hbad <;> omega
  · rintro (hn | hsmall) tipsets hlen
    · exact lowerBound_le_seventeen hb (hlen.trans hn)
    have hfl := (@fall_iterate_le b b n hb (le_refl b)).1
    have hle := fall_le_feeAfter hb hlen
    unfold getBaseFeeLowerBound baseFeeLowerBoundFactor minimumBaseFee
    dsimp only
    split_ifs <;> omega
  · have hfl := (@fall_iterate_le b b 20 hb (le_refl b)).1
    have hge := fall_iterate_ge 20 b
    have hle := fall_le_feeAfter hb hlen
    unfold getBaseFeeLowerBound baseFeeLowerBoundFactorConservative minimumBaseFee
    dsimp only
    split_ifs <;> omega

theorem getBaseFeeLowerBound_sound_million :
    getBaseFeeLowerBound 1000000 10 ≤ feeAfter 1000000 (List.replicate 17 (true, 0, 1)) ∧
      ¬ ∀ tipsets, tipsets.length ≤ 18 → getBaseFeeLowerBound 1000000 10 ≤ feeAfter 1000000 tipsets :=
  ⟨(getBaseFeeLowerBound_sound 1000000 (by decide) 17).1.mpr (.inl (by decide)) _ (by decide),
    fun h => absurd ((getBaseFeeLowerBound_sound 1000000 (by decide) 18).1.mp h) (by decide)⟩

theorem eighteen_empty_tipsets :
    feeAfter 1000000000 (List.replicate 18 (true, 0, 1)) < getBaseFeeLowerBound 1000000000 baseFeeLowerBoundFactor := by
  decide +kernel

end Lotus.Store

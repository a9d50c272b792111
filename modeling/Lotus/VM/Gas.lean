/-
# Who is paid for the gas of a message (`chain/vm/burn.go`).

The sender pays the gas limit at the fee cap. Of that, the base fee of the gas used is burnt, the miner gets the tip, part of
the gas not used is burnt at the base fee, and the rest goes back.
-/
import Mathlib.Tactic.Linarith

namespace Lotus.VM
open Int

/-- The wrap-around of `int64` arithmetic. -/
def int64 (n : Int) : Int := n.bmod (2 ^ 64)

structure GasOutputs where
  baseFeeBurn : Int
  overEstimationBurn : Int
  minerPenalty : Int
  minerTip : Int
  refund : Int
  gasRefund : Int
  gasBurned : Int
  deriving DecidableEq

def zeroGasOutputs : GasOutputs := ⟨0, 0, 0, 0, 0, 0, 0⟩

def gasOveruseNum : Int := 11

def gasOveruseDenom : Int := 10

def computeGasOverestimationBurn (gasUsed gasLimit : Int) : Int × Int :=
  if gasUsed = 0 then (0, gasLimit)
  else
    let overuse := int64 (gasLimit - (int64 (gasOveruseNum * gasUsed)).tdiv gasOveruseDenom)
    if overuse < 0 then (gasLimit - gasUsed, 0)
    else
      let overuse := if overuse > gasUsed then gasUsed else overuse
      -- `big.Div` is Euclidean division; the divisor is positive
      let gasToBurn := ((gasLimit - gasUsed) * overuse) / gasUsed
      (gasLimit - gasUsed - gasToBurn, gasToBurn)

def baseFeeToPay (baseFee feeCap : Int) : Int := if baseFee > feeCap then feeCap else baseFee

def tipPerGas (baseFee feeCap gasPremium : Int) : Int :=
  if baseFeeToPay baseFee feeCap + gasPremium > feeCap then feeCap - baseFeeToPay baseFee feeCap
  else gasPremium

def computeGasOutputs (gasUsed gasLimit baseFee feeCap gasPremium : Int) (chargeNetworkFee : Bool) : GasOutputs :=
  let toPay := baseFeeToPay baseFee feeCap
  let penalty := if baseFee > feeCap then (baseFee - feeCap) * gasUsed else 0
  let baseFeeBurn := if chargeNetworkFee then toPay * gasUsed else 0
  let minerTip := tipPerGas baseFee feeCap gasPremium * gasLimit
  let (gasRefund, gasBurned) := computeGasOverestimationBurn gasUsed gasLimit
  let overEstimationBurn := if gasBurned ≠ 0 then toPay * gasBurned else 0
  { baseFeeBurn
    overEstimationBurn
    minerPenalty := if gasBurned ≠ 0 then penalty + (baseFee - toPay) * gasBurned else penalty
    minerTip
    refund := gasLimit * feeCap - baseFeeBurn - minerTip - overEstimationBurn
    gasRefund
    gasBurned }

variable {baseFee feeCap gasUsed gasLimit gasPremium : Int}

theorem int64_eq {n : Int} (h : -2 ^ 63 ≤ n) (h' : n < 2 ^ 63) : int64 n = n :=
  bmod_eq_of_le (by omega) (by omega)

/-- **The gas that was asked for and not used is refunded or burnt.**  A wrapped product changes the share that is burnt and
nothing else. -/
theorem computeGasOverestimationBurn_spec (hu : 0 ≤ gasUsed) (hli : gasUsed ≤ gasLimit) :
    let out := computeGasOverestimationBurn gasUsed gasLimit
    0 ≤ out.1 ∧ 0 ≤ out.2 ∧ gasUsed + out.1 + out.2 = gasLimit := by
  unfold computeGasOverestimationBurn
  by_cases hz : gasUsed = 0
  · rw [if_pos hz]
    omega
  rw [if_neg hz]
  have hpo : 0 < gasUsed := by omega
  generalize int64 (gasLimit - (int64 (gasOveruseNum * gasUsed)).tdiv gasOveruseDenom) = overuse
  dsimp only
  split
  · dsimp only
    omega
  rename_i ho
  obtain ⟨cap, hca, hcap_nonneg, hcap_le⟩ :
      ∃ cap, (if overuse > gasUsed then gasUsed else overuse) = cap ∧ 0 ≤ cap ∧ cap ≤ gasUsed := by
    refine ⟨_, rfl, ?_, ?_⟩
    all_goals split <;> omega
  rw [hca]
  have hrest : 0 ≤ gasLimit - gasUsed := by omega
  have hburn_nonneg : 0 ≤ (gasLimit - gasUsed) * cap / gasUsed :=
    ediv_nonneg (mul_nonneg hrest hcap_nonneg) hu
  have hburn_le : (gasLimit - gasUsed) * cap / gasUsed ≤ gasLimit - gasUsed := by
    apply Int.ediv_le_of_le_mul hpo
    exact Int.mul_le_mul_of_nonneg_left hcap_le hrest
  dsimp only
  omega

theorem baseFeeToPay_bounds (hb : 0 ≤ baseFee) (hca : 0 ≤ feeCap) :
    0 ≤ baseFeeToPay baseFee feeCap ∧ baseFeeToPay baseFee feeCap ≤ feeCap := by
  unfold baseFeeToPay
  split <;> omega

theorem tipPerGas_nonneg (hb : 0 ≤ baseFee) (hca : 0 ≤ feeCap) (hpr : 0 ≤ gasPremium) :
    0 ≤ tipPerGas baseFee feeCap gasPremium := by
  have hpa := baseFeeToPay_bounds hb hca
  unfold tipPerGas
  split <;> omega

theorem tipPerGas_le : baseFeeToPay baseFee feeCap + tipPerGas baseFee feeCap gasPremium ≤ feeCap := by
  unfold tipPerGas
  split <;> omega

structure GasOutputs.Settles (out : GasOutputs) (total : Int) : Prop where
  baseFeeBurn : 0 ≤ out.baseFeeBurn
  minerTip : 0 ≤ out.minerTip
  overEstimationBurn : 0 ≤ out.overEstimationBurn
  refund : 0 ≤ out.refund
  sum : out.baseFeeBurn + out.minerTip + out.overEstimationBurn + out.refund = total

section
variable (chargeNetworkFee : Bool) (hu : 0 ≤ gasUsed) (hli : gasUsed ≤ gasLimit) (hb : 0 ≤ baseFee) (hca : 0 ≤ feeCap)
include hu hli hb hca

theorem computeGasOutputs_refund :
    let out := computeGasOutputs gasUsed gasLimit baseFee feeCap gasPremium chargeNetworkFee
    0 ≤ out.baseFeeBurn ∧ 0 ≤ out.overEstimationBurn ∧ 0 ≤ out.refund ∧
      out.baseFeeBurn + out.minerTip + out.overEstimationBurn + out.refund = gasLimit * feeCap := by
  obtain ⟨hre, hbu, hsum⟩ := computeGasOverestimationBurn_spec hu hli
  obtain ⟨hpa, -⟩ := baseFeeToPay_bounds hb hca
  have hpri := @tipPerGas_le baseFee feeCap gasPremium
  unfold computeGasOutputs
  rcases ho : computeGasOverestimationBurn gasUsed gasLimit with ⟨gasRefund, gasBurned⟩
  rw [ho] at hre hbu hsum
  dsimp only at hre hbu hsum ⊢
  generalize baseFeeToPay baseFee feeCap = pay at *
  generalize tipPerGas baseFee feeCap gasPremium = tip at *
  have hover_burn : (if gasBurned ≠ 0 then pay * gasBurned else 0) = pay * gasBurned := by
    split
    · rfl
    · rename_i hz
      rw [not_ne_iff.mp hz, mul_zero]
  have hbase_burn : 0 ≤ (if chargeNetworkFee = true then pay * gasUsed else 0) ∧
      (if chargeNetworkFee = true then pay * gasUsed else 0) ≤ pay * gasUsed := by
    have hnonneg := mul_nonneg hpa hu
    split <;> omega
  -- the price of a unit of gas is within the fee cap, and no unit is paid for twice
  have hg : pay * (gasUsed + gasBurned) ≤ pay * gasLimit := mul_le_mul_of_nonneg_left (by omega) hpa
  have hlimit_price : (pay + tip) * gasLimit ≤ feeCap * gasLimit :=
    mul_le_mul_of_nonneg_right hpri (by omega)
  rw [hover_burn]
  refine ⟨hbase_burn.1, mul_nonneg hpa hbu, ?_, by omega⟩
  linarith [mul_add pay gasUsed gasBurned, add_mul pay tip gasLimit, mul_comm gasLimit feeCap]

theorem computeGasOutputs_settles (hpr : 0 ≤ gasPremium) :
    (computeGasOutputs gasUsed gasLimit baseFee feeCap gasPremium chargeNetworkFee).Settles (gasLimit * feeCap) := by
  obtain ⟨hbase, hover, hrefund, hsum⟩ := @computeGasOutputs_refund _ _ _ _ gasPremium chargeNetworkFee hu hli hb hca
  exact ⟨hbase, mul_nonneg (tipPerGas_nonneg hb hca hpr) (by omega), hover, hrefund, hsum⟩
end

theorem computeGasOverestimationBurn_burn (hu : 0 < gasUsed) (hli : gasUsed ≤ gasLimit) (hb : 11 * gasLimit < 2 ^ 62) :
    (computeGasOverestimationBurn gasUsed gasLimit).2 =
      (gasLimit - gasUsed) * max 0 (min gasUsed (gasLimit - 11 * gasUsed / 10)) / gasUsed := by
  unfold computeGasOverestimationBurn gasOveruseNum gasOveruseDenom
  rw [if_neg (show gasUsed ≠ 0 by omega), int64_eq (n := 11 * gasUsed) (by omega) (by omega),
    tdiv_eq_ediv_of_nonneg (by omega), int64_eq (by omega) (by omega)]
  dsimp only
  split_ifs with hneg hcap
  · rw [show max 0 (min gasUsed (gasLimit - 11 * gasUsed / 10)) = 0 by omega, mul_zero, zero_ediv]
  · rw [show max 0 (min gasUsed (gasLimit - 11 * gasUsed / 10)) = gasUsed by omega]
  · rw [show max 0 (min gasUsed (gasLimit - 11 * gasUsed / 10)) = gasLimit - 11 * gasUsed / 10 by omega]

/-- **The burn is fair**: what is not used is refunded or burnt, more of it the higher the limit, and nothing up to eleven
tenths of what is used. The sender pays at most the limit at the fee cap, and with a cap that covers the base fee the miner
nothing. -/
theorem computeGasOverestimationBurn_fair (gasUsed gasLimit : Int) (hu : 0 ≤ gasUsed) (hli : gasUsed ≤ gasLimit)
    (hb : 11 * gasLimit < 2 ^ 62) :
    int64 (gasOveruseNum * gasUsed) = gasOveruseNum * gasUsed ∧
      int64 (gasLimit - gasOveruseNum * gasUsed / gasOveruseDenom) = gasLimit - gasOveruseNum * gasUsed / gasOveruseDenom ∧
      let out := computeGasOverestimationBurn gasUsed
      0 ≤ (out gasLimit).1 ∧ 0 ≤ (out gasLimit).2 ∧ gasUsed + (out gasLimit).1 + (out gasLimit).2 = gasLimit ∧
      (0 < gasUsed → ∀ less, gasUsed ≤ less → less ≤ gasLimit →
        (out less).2 ≤ (out gasLimit).2 ∧ gasUsed + (out less).2 ≤ gasUsed + (out gasLimit).2) ∧
      (gasLimit ≤ 11 * gasUsed / 10 → (out gasLimit).2 = 0) ∧
      ∀ baseFee feeCap gasPremium chargeNetworkFee, 0 ≤ baseFee → 0 ≤ feeCap →
        let paid := computeGasOutputs gasUsed gasLimit baseFee feeCap gasPremium chargeNetworkFee
        paid.baseFeeBurn + paid.minerTip + paid.overEstimationBurn ≤ gasLimit * feeCap ∧
          (baseFee ≤ feeCap → paid.minerPenalty = 0) := by
  obtain ⟨hre, hbu, hsum⟩ := computeGasOverestimationBurn_spec hu hli
  refine ⟨?_, ?_, hre, hbu, hsum, fun hpos less hl hle => ?_, fun hle => ?_,
    fun baseFee feeCap gasPremium charge hbf hca => ⟨?_, fun hbc => ?_⟩⟩
  · unfold gasOveruseNum
    exact int64_eq (by omega) (by omega)
  · unfold gasOveruseNum gasOveruseDenom
    exact int64_eq (by omega) (by omega)
  · have hmono : (computeGasOverestimationBurn gasUsed less).2 ≤ (computeGasOverestimationBurn gasUsed gasLimit).2 := by
      rw [computeGasOverestimationBurn_burn hpos hl (by omega), computeGasOverestimationBurn_burn hpos hli hb]
      exact Int.ediv_le_ediv hpos (mul_le_mul (by omega) (by omega) (by omega) (by omega))
    exact ⟨hmono, by omega⟩
  · rcases hu.eq_or_lt with rfl | hpos
    · rw [show gasLimit = 0 by omega]
      rfl
    rw [computeGasOverestimationBurn_burn hpos hli hb,
      show max 0 (min gasUsed (gasLimit - 11 * gasUsed / 10)) = 0 by omega, mul_zero, zero_ediv]
  · obtain ⟨-, -, hrefund, htotal⟩ := @computeGasOutputs_refund _ _ _ _ gasPremium charge hu hli hbf hca
    omega
  · dsimp only [computeGasOutputs, baseFeeToPay]
    rw [if_neg (show ¬ baseFee > feeCap by omega), if_neg (show ¬ baseFee > feeCap by omega), sub_self, zero_mul]
    exact ite_self 0

theorem computeGasOverestimationBurn_fair_thirty :
    (computeGasOverestimationBurn 10 20).2 ≤ (computeGasOverestimationBurn 10 30).2 ∧
      (computeGasOutputs 10 30 2 5 1 true).minerPenalty = 0 := by
  obtain ⟨-, -, -, -, -, hmono, -, hpaid⟩ := computeGasOverestimationBurn_fair 10 30 (by decide) (by decide) (by decide)
  exact ⟨(hmono (by decide) 20 (by decide) (by decide)).1, (hpaid 2 5 1 true (by decide) (by decide)).2 (by decide)⟩

end Lotus.VM

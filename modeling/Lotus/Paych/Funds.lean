/-
# The funds of a new payment channel (`paychmgr/simple.go`, for a pair without a channel).

The queued requests are merged into one message that creates the channel. A request may be cancelled at any moment, so it is
looked at twice. `failOffChainNoChannel` takes the amounts of cancelled off-chain requests off a sum that they are not in, and
a sum of zero ends the call before any off-chain request is failed.
-/
import Mathlib
import Lotus.Types.Basic

namespace Lotus.Paych
open List

/-- A request, and whether it is still active when the merge is summed and when off-chain requests are failed. An off-chain
request reserves. -/
structure FundsReq where
  amt : Int
  offChain : Bool
  reserve : Bool
  summed : Bool
  failing : Bool
  reserves : offChain = true → reserve = true
deriving DecidableEq

/-- The check of `Manager.GetPaych`, and the request that it queues. -/
def getPaych (amt : Int) (offChain reserve summed failing : Bool) : Except GoError FundsReq :=
  if h : offChain = true → reserve = true then .ok ⟨amt, offChain, reserve, summed, failing, h⟩
  else .error (.errorf "can't fund payment channels without on-chain operations")

namespace FundsReq

/-- The order of `newMergedFundsReq`; `sort.Slice` is not stable. -/
def less (r r' : FundsReq) : Bool :=
  if r.offChain ≠ r'.offChain then r.offChain
  else if r.reserve ≠ r'.reserve then r.reserve
  else decide (r.amt < r'.amt)

def total (reqs : List FundsReq) : Int := (reqs.map amt).sum

def sum (reqs : List FundsReq) : Int × Int :=
  (total (reqs.filter summed), total (reqs.filter fun r => r.summed && !r.reserve))

/-- The loop of `failOffChainNoChannel`, from request `i` on: who is failed, what is freed, and where the rest begins. -/
def failLoop : List FundsReq → Nat → List FundsReq → Int → Nat → List FundsReq × Int × Nat
  | [], _, failed, freed, next => (failed, freed, next)
  | r :: reqs, i, failed, freed, next =>
    if r.offChain = false then (failed, freed, next)
    else if r.failing = false then failLoop reqs (i + 1) failed (freed + r.amt) next
    else failLoop reqs (i + 1) (failed ++ [r]) (freed + r.amt) (i + 1)

/-- `processTask`: who is failed, and the amounts of `createPaych` unless no request is left. -/
def processTask (reqs : List FundsReq) (amt avail : Int) : List FundsReq × Option (Int × Int) :=
  let (failed, freed, next) := failLoop reqs 0 [] 0 0
  (failed, if reqs.drop next = [] then none else some (amt - freed, avail))

/-- `processQueue` with the requests in the order of the merge. -/
def processQueue (reqs : List FundsReq) : List FundsReq × Option (Int × Int) :=
  if (sum reqs).1 = 0 then ([], none) else processTask reqs (sum reqs).1 (sum reqs).2

/-- The off-chain requests that are active all the time. -/
def activeOffChain (reqs : List FundsReq) : List FundsReq := reqs.filter fun r => r.offChain && r.summed && r.failing

/-- The last request in the order of the merge is not one to fail. -/
def SomeLeft (reqs : List FundsReq) : Prop := reqs.getLast?.any (fun r => !(r.offChain && r.failing)) = true

variable {reqs : List FundsReq}

theorem total_filter (p q : FundsReq → Bool) (reqs : List FundsReq) : total (reqs.filter p) =
    total (reqs.filter fun r => p r && q r) + total (reqs.filter fun r => p r && !q r) := by
  induction reqs with
  | nil => rfl
  | cons r reqs ih =>
    rcases hp : p r <;> rcases hq : q r <;> simp_all [total] <;> omega

/-- The requests after one that is on chain are on chain. -/
theorem onChain_of_sorted {r : FundsReq} (hs : (r :: reqs).Pairwise fun r r' => r'.less r = false) (hoff : r.offChain = false) :
    ∀ r' ∈ r :: reqs, r'.offChain = false := by
  rw [forall_mem_cons]
  refine ⟨hoff, fun r' hr' => ?_⟩
  have := (pairwise_cons.mp hs).1 r' hr'
  cases hr : r'.offChain <;> simp_all [less]

theorem failLoop_sorted (hs : reqs.Pairwise fun r r' => r'.less r = false) (i : Nat) (failed : List FundsReq) (freed : Int)
    (next : Nat) : (failLoop reqs i failed freed next).1 = failed ++ reqs.filter (fun r => r.offChain && r.failing) ∧
      (failLoop reqs i failed freed next).2.1 = freed + total (reqs.filter offChain) := by
  fun_induction failLoop with
  | case1 => simp [total]
  | case2 r reqs i failed freed next hoff =>
    have hno := onChain_of_sorted hs hoff
    have h1 : (r :: reqs).filter (fun r => r.offChain && r.failing) = [] :=
      filter_eq_nil_iff.mpr fun r' hr' => by simp [hno r' hr']
    have h2 : (r :: reqs).filter offChain = [] := filter_eq_nil_iff.mpr fun r' hr' => by simp [hno r' hr']
    simp [h1, h2, total]
  | case3 r reqs i failed freed next hoff hfa ih =>
    obtain ⟨h1, h2⟩ := ih (pairwise_cons.mp hs).2
    simp_all [total, add_assoc]
  | case4 r reqs i failed freed next hoff hfa ih =>
    obtain ⟨h1, h2⟩ := ih (pairwise_cons.mp hs).2
    simp_all [total, add_assoc]

theorem failLoop_next (hs : reqs.Pairwise fun r r' => r'.less r = false) {i next : Nat} (hi : next ≤ i)
    (failed : List FundsReq) (freed : Int) : (failLoop reqs i failed freed next).2.2 ≤ i + reqs.length ∧
      ((failLoop reqs i failed freed next).2.2 = i + reqs.length ↔ ¬ SomeLeft reqs ∧ (reqs = [] → next = i)) := by
  fun_induction failLoop with
  | case1 i failed freed next => simp [SomeLeft, hi]
  | case2 r reqs i failed freed next hoff =>
    have hlast := onChain_of_sorted hs hoff _ (getLast_mem (cons_ne_nil r reqs))
    have hleft : SomeLeft (r :: reqs) := by simp [SomeLeft, getLast?_eq_some_getLast, hlast]
    rw [length_cons]
    dsimp only
    exact ⟨by omega, iff_of_false (by omega) fun h => h.1 hleft⟩
  | case3 r reqs i failed freed next hoff hfa ih | case4 r reqs i failed freed next hoff hfa ih =>
    -- what is left is decided by the last request, and by this one only if it is the last
    obtain ⟨hle, hiff⟩ := ih (pairwise_cons.mp hs).2 (by omega)
    rw [length_cons, ← Nat.add_assoc, Nat.add_right_comm]
    refine ⟨hle, hiff.trans ?_⟩
    rcases reqs with _ | ⟨r', reqs⟩ <;> simp_all [SomeLeft] <;> omega

/-- **A new channel is funded** with what the active on-chain requests ask for, and the active off-chain requests fail, exactly
if none of the latter is there when the sum is zero, and otherwise the off-chain requests that were cancelled before the sum
ask for nothing, unless no request is left. The amount kept available is always right. -/
theorem processQueue_funds (reqs : List FundsReq) (hs : reqs.Pairwise fun r r' => r'.less r = false)
    (hpos : ∀ r ∈ reqs, 0 ≤ r.amt) :
    let out := processQueue reqs
    (activeOffChain reqs <+ out.1 ∧ (∀ amt avail, out.2 = some (amt, avail) →
        amt = total (reqs.filter fun r => r.summed && !r.offChain) ∧ 0 ≤ amt) ↔
      (total (reqs.filter summed) = 0 → activeOffChain reqs = []) ∧
        (total (reqs.filter summed) ≠ 0 → SomeLeft reqs → total (reqs.filter fun r => r.offChain && !r.summed) = 0)) ∧
    ∀ amt avail, out.2 = some (amt, avail) → avail = total (reqs.filter fun r => r.summed && !r.offChain && !r.reserve) := by
  intro out
  by_cases hz : (sum reqs).1 = 0
  · have hout : out = ([], none) := if_pos hz
    have hz : total (reqs.filter summed) = 0 := hz
    simp [hout, hz]
  have hout : out = processTask reqs (sum reqs).1 (sum reqs).2 := if_neg hz
  have hz : total (reqs.filter summed) ≠ 0 := hz
  obtain ⟨hfailed, hfreed⟩ := failLoop_sorted hs 0 [] 0 0
  obtain ⟨hle, hnext⟩ := failLoop_next hs (Nat.le_refl 0) [] 0
  unfold processTask at hout
  dsimp only at hout
  generalize failLoop reqs 0 [] 0 0 = loop at hfailed hfreed hle hnext hout
  have hactive : activeOffChain reqs <+ loop.1 := by
    rw [hfailed]
    exact monotone_filter_right reqs fun r => by simp only [Bool.and_eq_true]; tauto
  have hdrop : reqs.drop loop.2.2 = [] ↔ ¬ SomeLeft reqs := by
    rw [drop_eq_nil_iff]
    refine ⟨fun h => (hnext.mp (by omega)).1, fun h => ?_⟩
    have := hnext.mpr ⟨h, fun _ => rfl⟩
    omega
  by_cases hleft : SomeLeft reqs
  swap
  · rw [if_pos (hdrop.mpr hleft)] at hout
    simp [hout, hz, hleft, hactive]
  rw [if_neg fun h => hdrop.mp h hleft] at hout
  have hsummed := total_filter summed offChain reqs
  have hoff := total_filter offChain summed reqs
  rw [show (fun r : FundsReq => r.offChain && r.summed) = fun r => r.summed && r.offChain from
    funext fun r => Bool.and_comm _ _] at hoff
  have havail : (sum reqs).2 = total (reqs.filter fun r => r.summed && !r.offChain && !r.reserve) := by
    refine congrArg total (filter_congr fun r _ => ?_)
    have := r.reserves
    cases hr : r.reserve <;> cases ho : r.offChain <;> simp_all
  have hnonneg : 0 ≤ total (reqs.filter fun r => r.summed && !r.offChain) := by
    refine sum_nonneg fun a ha => ?_
    obtain ⟨r, hr, rfl⟩ := mem_map.mp ha
    exact hpos r (mem_of_mem_filter hr)
  have hamt : (sum reqs).1 = total (reqs.filter summed) := rfl
  rw [hout]
  refine ⟨⟨fun h => ⟨fun h0 => absurd h0 hz, fun _ _ => ?_⟩, fun h => ⟨hactive, ?_⟩⟩, ?_⟩
  · have heq := (h.2 _ _ rfl).1
    linarith
  · rintro amt avail ⟨⟩
    have hcancelled := h.2 hz hleft
    constructor <;> linarith
  · rintro amt avail ⟨⟩
    exact havail

/-- An off-chain request is failed, another one was cancelled before the sum and asks for nothing. -/
theorem processQueue_funds_reserving :
    let reqs : List FundsReq := [⟨0, true, true, false, false, by decide⟩, ⟨5, true, true, true, true, by decide⟩,
      ⟨3, false, true, true, true, by decide⟩, ⟨4, false, false, true, true, by decide⟩]
    (processQueue reqs).2 = some (7, 4) ∧ activeOffChain reqs <+ (processQueue reqs).1 :=
  ⟨by decide, ((processQueue_funds _ (by decide) (by decide)).1.mpr ⟨fun h => absurd h (by decide), fun _ _ => by decide⟩).1⟩

/-- An off-chain request for 5 is cancelled before the sum, and the amount is negative. And an off-chain request for nothing
is left without an answer. -/
theorem processQueue_overdraws :
    processQueue [⟨5, true, true, false, false, by decide⟩, ⟨3, false, true, true, true, by decide⟩] = ([], some (-2, 0)) ∧
      processQueue [⟨0, true, true, true, true, by decide⟩] = ([], none) := by
  decide

end FundsReq
end Lotus.Paych

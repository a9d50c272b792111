/-
# The vouchers that a payment channel accepts (`paychmgr/paych.go`).

`laneState` lays the stored vouchers over the lanes on chain. The checks, the delta and the total go by it, so an accepted
voucher puts one new entry into it. What is on chain is fixed; `verify` and `sign` are third-party code.
-/
import Lotus.Lib.Slice
import Lotus.Types.Basic

namespace Lotus.Paych
open Lib.Slice List AList

structure LaneState where
  redeemed : Int
  nonce : UInt64
  deriving DecidableEq

/-- A signed voucher; of `Extra` whether it is there, of `Merges` their number. -/
structure SignedVoucher where
  channelAddr : Address
  timeLockMin : Int
  timeLockMax : Int
  secretHash : Bytes
  extra : Bool
  lane : UInt64
  nonce : UInt64
  amount : Int
  merges : Nat
  signature : Bytes
  deriving DecidableEq

structure Channel where
  addr : Address
  balance : Int
  lanes : GoMap UInt64 LaneState
  verify : SignedVoucher → Except GoError Unit
  sign : SignedVoucher → Except GoError Bytes

structure ChannelInfo where
  vouchers : List SignedVoucher
  nextLane : UInt64

inductive VoucherError where
  | insufficientFunds (shortfall : Int)
  | other (err : GoError)

/-! ## The code -/

def refuse (cond : Bool) (msg : String) : Except VoucherError Unit :=
  if cond then .error (.other (.errorf msg)) else .ok ()

def call {α : Type} (r : Except GoError α) : Except VoucherError α := r.mapError .other

/-- One round of the loop of `laneState`. -/
def applyVoucher (laneStates : GoMap UInt64 LaneState) (v : SignedVoucher) : Except VoucherError (GoMap UInt64 LaneState) := do
  refuse (v.merges != 0) "paych merges not handled yet"
  match laneStates.lookup v.lane with
  | some ls => pure (if v.nonce < ls.nonce then laneStates else laneStates.insert v.lane ⟨v.amount, v.nonce⟩)
  | none => pure (laneStates.insert v.lane ⟨v.amount, v.nonce⟩)

def laneState (lanes : GoMap UInt64 LaneState) (vouchers : List SignedVoucher) : Except VoucherError (GoMap UInt64 LaneState) :=
  vouchers.foldlM applyVoucher lanes

def total (laneStates : GoMap UInt64 LaneState) : Int := (laneStates.entries.map (·.2.redeemed)).sum

def totalRedeemedWithVoucher (laneStates : GoMap UInt64 LaneState) (sv : SignedVoucher) : Except VoucherError Int := do
  refuse (sv.merges != 0) "dont currently support paych lane merges"
  match laneStates.lookup sv.lane with
  | some ls => pure (if ls.nonce < sv.nonce then total laneStates + (sv.amount - ls.redeemed) else total laneStates)
  | none => pure (total laneStates + sv.amount)

def checkLane (sv : SignedVoucher) : Option LaneState → Except VoucherError Unit
  | none => .ok ()
  | some ls => do
    refuse (sv.nonce ≤ ls.nonce) "nonce too low"
    refuse (sv.amount ≤ ls.redeemed) "voucher amount is lower than amount for voucher with lower nonce"

variable (c : Channel) (ci : ChannelInfo)

def checkVoucherValidUnlocked (sv : SignedVoucher) : Except VoucherError (GoMap UInt64 LaneState) := do
  refuse (sv.channelAddr != c.addr) "voucher ChannelAddr doesn't match channel address"
  refuse sv.extra "voucher is Message Locked"
  refuse (sv.timeLockMax != 0) "voucher is Max Time Locked"
  refuse (sv.timeLockMin != 0) "voucher is Min Time Locked"
  refuse (sv.secretHash != []) "voucher is Hash Locked"
  call (c.verify sv)
  let laneStates ← laneState c.lanes ci.vouchers
  checkLane sv (laneStates.lookup sv.lane)
  let totalRedeemed ← totalRedeemedWithVoucher laneStates sv
  if c.balance < totalRedeemed then .error (.insufficientFunds (totalRedeemed - c.balance))
  else do
    refuse (sv.merges != 0) "dont currently support paych lane merges"
    pure laneStates

def redeemedOn (laneStates : GoMap UInt64 LaneState) (lane : UInt64) : Int := (laneStates.lookup lane).elim 0 (·.redeemed)

def addVoucherUnlocked (sv : SignedVoucher) (minDelta : Int) (put : Except GoError Unit) :
    Except VoucherError (Int × ChannelInfo) :=
  if sv ∈ ci.vouchers then .ok (0, ci)
  else do
    let laneStates ← checkVoucherValidUnlocked c ci sv
    let delta := sv.amount - redeemedOn laneStates sv.lane
    refuse (delta < minDelta) "addVoucher: supplied token amount too low"
    call put
    pure (delta, ⟨ci.vouchers ++ [sv], if ci.nextLane ≤ sv.lane then sv.lane + 1 else ci.nextLane⟩)

def nextNonceForLane (lane : UInt64) : UInt64 :=
  ci.vouchers.foldl (fun maxnonce v => if v.lane = lane ∧ maxnonce < v.nonce then v.nonce else maxnonce) 0 + 1

/-- The voucher that `createVoucher` makes. -/
def sealVoucher (voucher : SignedVoucher) : Except VoucherError SignedVoucher := do
  let sv := { voucher with channelAddr := c.addr, nonce := nextNonceForLane ci voucher.lane }
  let signature ← call ((c.sign sv).mapError (.wrap "failed to sign voucher"))
  pure { sv with signature }

inductive Call where
  | add (sv : SignedVoucher) (minDelta : Int) (put : Except GoError Unit)
  | create (voucher : SignedVoucher) (put : Except GoError Unit)

def attempt : Call → Except VoucherError (SignedVoucher × Int × ChannelInfo)
  | .add sv minDelta put => do pure (sv, ← addVoucherUnlocked c ci sv minDelta put)
  | .create voucher put => do
    let sv ← sealVoucher c ci voucher
    pure (sv, ← addVoucherUnlocked c ci sv 0 put)

def next (a : Call) : ChannelInfo := (attempt c ci a).toOption.elim ci (·.2.2)

/-! ## What is accepted -/

section
variable (lanes : GoMap UInt64 LaneState) (vouchers : List SignedVoucher)

def candidates (lane : UInt64) : List LaneState :=
  (lanes.lookup lane).toList ++ (vouchers.filter (·.lane = lane)).map fun v => ⟨v.amount, v.nonce⟩

def Best (laneStates : GoMap UInt64 LaneState) : Prop :=
  ∀ lane, match laneStates.lookup lane with
    | none => candidates lanes vouchers lane = []
    | some ls => ls ∈ candidates lanes vouchers lane ∧ ∀ ls' ∈ candidates lanes vouchers lane, ls'.nonce ≤ ls.nonce
end

variable {c ci} {lanes m m' : GoMap UInt64 LaneState} {vouchers : List SignedVoucher} {sv : SignedVoucher} {delta : Int}
  {ci' : ChannelInfo}

@[simp] theorem refuse_ok {cond : Bool} {msg : String} {u : Unit} : refuse cond msg = .ok u ↔ cond = false := by
  cases cond <;> simp [refuse]

theorem total_insert (m : GoMap UInt64 LaneState) (lane : UInt64) (ls : LaneState) :
    total (m.insert lane ls) = total m - redeemedOn m lane + ls.redeemed := by
  show ls.redeemed + ((m.entries.kerase lane).map (·.2.redeemed)).sum = _
  rw [m.sum_kerase lane (·.redeemed), Int.add_comm]
  rfl

theorem candidates_append (lane : UInt64) : candidates lanes (vouchers ++ [sv]) lane =
    candidates lanes vouchers lane ++ if sv.lane = lane then [⟨sv.amount, sv.nonce⟩] else [] := by
  by_cases hl : sv.lane = lane <;> simp [candidates, hl]

theorem laneState_append :
    laneState lanes (vouchers ++ [sv]) = .ok m ↔ ∃ m0, laneState lanes vouchers = .ok m0 ∧ applyVoucher m0 sv = .ok m := by
  rw [laneState, foldlM_append, bind_ok]
  simp [laneState]

theorem applyVoucher_ok (h : applyVoucher m sv = .ok m') : (∀ lane, sv.lane ≠ lane → m'.lookup lane = m.lookup lane) ∧
    ((m'.lookup sv.lane = some ⟨sv.amount, sv.nonce⟩ ∧ ∀ ls, m.lookup sv.lane = some ls → ls.nonce ≤ sv.nonce) ∨
      ∃ ls, m.lookup sv.lane = some ls ∧ m'.lookup sv.lane = some ls ∧ sv.nonce < ls.nonce) := by
  obtain ⟨-, -, h⟩ := bind_ok.mp h
  rcases hl : m.lookup sv.lane with _ | ls
  · rw [hl] at h
    obtain rfl := Except.ok.inj h
    exact ⟨fun lane hne => lookup_insert_ne hne.symm, .inl ⟨lookup_insert _, nofun⟩⟩
  rw [hl] at h
  obtain rfl := Except.ok.inj h
  split_ifs with hlt
  · exact ⟨fun _ _ => rfl, .inr ⟨ls, rfl, hl, hlt⟩⟩
  refine ⟨fun lane hne => lookup_insert_ne hne.symm, .inl ⟨lookup_insert _, ?_⟩⟩
  rintro _ ⟨⟩
  exact UInt64.not_lt.mp hlt

theorem laneState_best (h : laneState lanes vouchers = .ok m) : Best lanes vouchers m := by
  induction vouchers using reverseRecOn generalizing m with
  | nil =>
    obtain rfl : lanes = m := Except.ok.inj h
    intro lane
    cases hl : lanes.lookup lane <;> simp [candidates, hl]
  | append_singleton vouchers v ih =>
    obtain ⟨m0, h0, hv⟩ := laneState_append.mp h
    obtain ⟨ho, hla⟩ := applyVoucher_ok hv
    intro lane
    have hb := ih h0 lane
    rw [candidates_append]
    by_cases hl : v.lane = lane
    · subst hl
      rw [if_pos rfl]
      rcases hla with ⟨hnew, hle⟩ | ⟨ls, hold, hnew, hlt⟩
      · rw [hnew]
        refine ⟨by simp, fun ls' hls' => ?_⟩
        rcases mem_append.mp hls' with hls' | hls'
        · rcases hl : m0.lookup v.lane with _ | ls
          · rw [hl] at hb
            simp [show candidates lanes vouchers v.lane = [] from hb] at hls'
          rw [hl] at hb
          exact UInt64.le_trans (hb.2 ls' hls') (hle ls hl)
        · obtain rfl := mem_singleton.mp hls'
          exact UInt64.le_refl _
      rw [hold] at hb
      rw [hnew]
      refine ⟨mem_append_left _ hb.1, fun ls' hls' => ?_⟩
      rcases mem_append.mp hls' with hls' | hls'
      · exact hb.2 ls' hls'
      · obtain rfl := mem_singleton.mp hls'
        exact UInt64.le_of_lt hlt
    · rw [if_neg hl, append_nil, ho lane hl]
      exact hb

theorem checkVoucherValid_ok (h : checkVoucherValidUnlocked c ci sv = .ok m) : laneState c.lanes ci.vouchers = .ok m ∧
    (∀ ls, m.lookup sv.lane = some ls → ls.nonce < sv.nonce ∧ ls.redeemed < sv.amount) ∧
    applyVoucher m sv = .ok (m.insert sv.lane ⟨sv.amount, sv.nonce⟩) ∧
    total (m.insert sv.lane ⟨sv.amount, sv.nonce⟩) ≤ c.balance := by
  simp only [checkVoucherValidUnlocked, bind_ok] at h
  obtain ⟨-, -, -, -, -, -, -, -, -, -, -, -, m1, hm, _, hch, t, ht, h⟩ := h
  split_ifs at h with hb
  obtain ⟨_, hme, h⟩ := bind_ok.mp h
  obtain rfl : m1 = m := Except.ok.inj h
  obtain ⟨-, -, ht⟩ := bind_ok.mp ht
  have hpl : refuse (sv.merges != 0) "paych merges not handled yet" = .ok () := refuse_ok.mpr (refuse_ok.mp hme)
  rw [total_insert, redeemedOn, applyVoucher, hpl]
  rcases hl : m1.lookup sv.lane with _ | ls
  · rw [hl] at ht
    obtain rfl := Except.ok.inj ht
    refine ⟨hm, nofun, rfl, ?_⟩
    show total m1 - 0 + sv.amount ≤ _
    omega
  rw [hl] at hch ht
  obtain ⟨_, hn, ha⟩ := bind_ok.mp hch
  simp only [refuse_ok, decide_eq_false_iff_not, not_le, UInt64.not_le] at hn ha
  simp only [if_pos hn] at ht
  obtain rfl := Except.ok.inj ht
  refine ⟨hm, ?_, ?_, ?_⟩
  · rintro _ ⟨⟩
    exact ⟨hn, ha⟩
  · show Except.ok (if sv.nonce < ls.nonce then _ else _) = _
    rw [if_neg (UInt64.not_lt.mpr (UInt64.le_of_lt hn))]
  · show total m1 - ls.redeemed + sv.amount ≤ _
    omega

theorem addVoucher_ok {minDelta : Int} {put : Except GoError Unit}
    (h : addVoucherUnlocked c ci sv minDelta put = .ok (delta, ci')) : ci' = ci ∧ sv ∈ ci.vouchers ∨
      ∃ m, checkVoucherValidUnlocked c ci sv = .ok m ∧ delta = sv.amount - redeemedOn m sv.lane ∧
        ci'.vouchers = ci.vouchers ++ [sv] := by
  by_cases hold : sv ∈ ci.vouchers
  · rw [addVoucherUnlocked, if_pos hold] at h
    cases h
    exact .inl ⟨rfl, hold⟩
  rw [addVoucherUnlocked, if_neg hold] at h
  simp only [bind_ok] at h
  obtain ⟨m, hm, -, -, -, -, h⟩ := h
  cases h
  exact .inr ⟨m, hm, rfl, rfl⟩

theorem attempt_ok {a : Call} (h : attempt c ci a = .ok (sv, delta, ci')) : ci' = ci ∧ sv ∈ ci.vouchers ∨
    ∃ m, checkVoucherValidUnlocked c ci sv = .ok m ∧ delta = sv.amount - redeemedOn m sv.lane ∧
      ci'.vouchers = ci.vouchers ++ [sv] := by
  cases a with
  | add sv' minDelta put =>
    obtain ⟨r, ha, heq⟩ := bind_ok.mp h
    cases heq
    exact addVoucher_ok ha
  | create voucher put =>
    obtain ⟨sv', -, h⟩ := bind_ok.mp h
    obtain ⟨r, ha, heq⟩ := bind_ok.mp h
    cases heq
    exact addVoucher_ok ha

theorem nonce_lt_of_valid (h : checkVoucherValidUnlocked c ci sv = .ok m) {v : SignedVoucher} (hv : v ∈ ci.vouchers)
    (hla : v.lane = sv.lane) : v.nonce < sv.nonce := by
  obtain ⟨hm, hlt, -⟩ := checkVoucherValid_ok h
  have hmem : ⟨v.amount, v.nonce⟩ ∈ candidates c.lanes ci.vouchers sv.lane :=
    mem_append_right _ (mem_map.mpr ⟨v, mem_filter.mpr ⟨hv, by simpa using hla⟩, rfl⟩)
  have hb := laneState_best hm sv.lane
  rcases hl : m.lookup sv.lane with _ | ls
  · rw [hl] at hb
    simp [show candidates c.lanes ci.vouchers sv.lane = [] from hb] at hmem
  rw [hl] at hb
  exact UInt64.lt_of_le_of_lt (hb.2 _ hmem) (hlt ls hl).1

theorem run_increasing (calls : List Call) : (calls.foldl (next c) ⟨[], 0⟩).vouchers.Pairwise fun v w =>
    v.lane = w.lane → v.nonce < w.nonce := by
  induction calls using reverseRecOn with
  | nil => exact .nil
  | append_singleton calls a ih =>
    rw [foldl_append]
    show (((attempt c (calls.foldl (next c) ⟨[], 0⟩) a).toOption.elim _ (·.2.2)).vouchers).Pairwise _
    rcases hre : attempt c (calls.foldl (next c) ⟨[], 0⟩) a with e | r
    · exact ih
    show r.2.2.vouchers.Pairwise _
    rcases attempt_ok hre with ⟨heq, -⟩ | ⟨m, hm, -, hvo⟩
    · rwa [heq]
    rw [hvo, pairwise_append]
    refine ⟨ih, pairwise_singleton _ _, fun v hv w hw hla => ?_⟩
    obtain rfl := mem_singleton.mp hw
    exact nonce_lt_of_valid hm hv hla

/-- **Accepted vouchers are safe to hold**: on a lane that is on chain or has a voucher the amount grows; the first one of
another lane has any amount that `minDelta` allows. -/
theorem accepted_vouchers_safe (c : Channel) (calls : List Call) (a : Call) (sv : SignedVoucher) (delta : Int)
    (ci' : ChannelInfo) (ha : attempt c (calls.foldl (next c) ⟨[], 0⟩) a = .ok (sv, delta, ci'))
    (hnew : sv ∉ (calls.foldl (next c) ⟨[], 0⟩).vouchers) :
    let ci := calls.foldl (next c) ⟨[], 0⟩
    ci'.vouchers = ci.vouchers ++ [sv] ∧ (ci'.vouchers.Pairwise fun v w => v.lane = w.lane → v.nonce < w.nonce) ∧
    ∃ m m', Best c.lanes ci.vouchers m ∧ Best c.lanes ci'.vouchers m' ∧
      (∀ ls, m.lookup sv.lane = some ls → ls.nonce < sv.nonce ∧ ls.redeemed < sv.amount) ∧
      delta = redeemedOn m' sv.lane - redeemedOn m sv.lane ∧ total m' ≤ c.balance := by
  intro ci
  obtain ⟨-, hold⟩ | ⟨m, hm, rfl, hv⟩ := attempt_ok ha
  · exact absurd hold hnew
  obtain ⟨hst, hlt, hap, hto⟩ := checkVoucherValid_ok hm
  refine ⟨hv, ?_, m, _, laneState_best hst, ?_, hlt, ?_, hto⟩
  · have hpa := run_increasing (c := c) (calls ++ [a])
    rwa [foldl_append, foldl_cons, next, ha] at hpa
  · rw [hv]
    exact laneState_best (laneState_append.mpr ⟨m, hst, hap⟩)
  show _ = (lookup _ (insert _ _ m)).elim 0 (·.redeemed) - _
  rw [lookup_insert]
  rfl

def fresh (balance : Int) : Channel := ⟨.id 7, balance, ∅, fun _ => .ok (), fun _ => .ok []⟩

def voucher (nonce : UInt64) (amount : Int) : SignedVoucher := ⟨.id 7, 0, 0, [], false, 0, nonce, amount, 0, []⟩

theorem accepted_vouchers_safe_second : ∃ m', Best ∅ [voucher 1 3, voucher 2 5] m' ∧ total m' ≤ 10 := by
  obtain ⟨-, -, -, m', -, hb, -, -, hto⟩ := accepted_vouchers_safe (fresh 10) [.add (voucher 1 3) 0 (.ok ())]
    (.create (voucher 0 5) (.ok ())) (voucher 2 5) 2 ⟨[voucher 1 3, voucher 2 5], 1⟩ rfl (by decide +kernel)
  exact ⟨m', hb, hto⟩

theorem voucher_for_nothing :
    attempt (fresh 0) ⟨[], 0⟩ (.add (voucher 0 0) 0 (.ok ())) = .ok (voucher 0 0, 0, ⟨[voucher 0 0], 1⟩) ∧
      ¬ redeemedOn (fresh 0).lanes 0 < (voucher 0 0).amount :=
  ⟨rfl, by decide⟩

end Lotus.Paych

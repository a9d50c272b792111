/-
# `ApplyMessage` creates and destroys no tokens.

While the code of a message runs the actors are a ledger that evolves (`Run`). Around it the sender pays the gas in advance,
and the four gas outputs, which add up to that, are credited. The gas holder never runs short and ends empty.
-/
import Lotus.State.Flush
import Lotus.VM.Frame

namespace Lotus.VM
open State Lib.Effect Lib.Ledger StateTree List

section
variable (st : StateTree)

/-- The actors of a tree, as `ForEach` visits them. -/
def actors : List (Address × Actor) :=
  forEach (st.layers.map (·.actors.entries)) st.root.entries

def totalBalance : Int := ((actors st).map fun p => p.2.balance).sum

theorem listedBy_actors : ListedBy st.view (actors st) := by
  refine forEach_spec ⟨?_, Perm.refl _⟩
  rw [forall₂_map_left_iff]
  exact forall₂_same.mpr fun l _ => Perm.refl _

theorem supply_eq_totalBalance : supply Actor.balance st.view = totalBalance st :=
  (listedBy_actors st).supply_eq
end

section
variable [InitLib]

/-- What a step of a message does to the tokens: `amt` more, and no balance negative. -/
structure Adds (amt : Int) (st st' : StateTree) : Prop where
  sound : Sound st'
  total : totalBalance st' = totalBalance st + amt
  nonNeg : NonNeg Actor.balance st.view → NonNeg Actor.balance st'.view

variable {st st' : StateTree} {amt gasUsed : Int}

theorem Adds.trans {amt' : Int} {st'' : StateTree} (h : Adds amt st st') (h' : Adds amt' st' st'') :
    Adds (amt + amt') st st'' := by
  refine ⟨h'.sound, ?_, fun hn => h'.nonNeg (h.nonNeg hn)⟩
  rw [h'.total, h.total]
  omega

theorem adds_of_view (hsd : Sound st') (hv : st'.view = st.view) : Adds 0 st st' := by
  refine ⟨hsd, ?_, ?_⟩
  · rw [← supply_eq_totalBalance, ← supply_eq_totalBalance, hv, Int.add_zero]
  · rw [hv]
    exact id

variable {gasHolder act : Actor} {addr i : Address}

theorem adds_write {st1 : StateTree} (hla : ResolvesToID) (hsd : Sound st) (hrd : SameReads st st1)
    {act' : Actor} (hv : st.view i = some act) (hbal : act'.balance = act.balance + amt)
    (hnonneg : 0 ≤ act.balance → 0 ≤ act'.balance) : Adds amt st (st1.write i (some act')) := by
  have hsd1 := hsd.sameReads hrd
  have hu : (st1.write i (some act')).view = Function.update st.view i (some act') := by
    rw [view_write hsd1.layers_ne, hrd.view]
  refine ⟨hsd1.write hla i _, ?_, fun hn => ?_⟩
  · rw [← supply_eq_totalBalance, ← supply_eq_totalBalance, hu, supply_update (listedBy_actors st).finite, amount_of_some hv]
    show supply Actor.balance st.view - act.balance + act'.balance = _
    omega
  rw [hu]
  refine hn.update ?_
  rintro _ ⟨⟩
  exact hnonneg (hn i act hv)

/-! ## The gas holder -/

variable {e : GoError}

theorem actorVal_error (h : st.actorVal addr = .error e) :
    e = .errorf "GetActor called on undefined address" ∨ e = .actorNotFound ∨
      ∃ e', e = .wrap "resolution lookup failed" e' ∨ e = .wrap "address resolution" e' := by
  unfold actorVal actorOf at h
  split at h
  · cases h
    exact Or.inl rfl
  split at h
  · rename_i e' _
    cases h
    unfold resolutionError
    split
    · exact Or.inr (Or.inr ⟨e', Or.inl rfl⟩)
    · exact Or.inr (Or.inr ⟨e', Or.inr rfl⟩)
  split at h
  · cases h
    exact Or.inr (Or.inl rfl)
  · cases h

/-- The failures of a transfer for which the balance of the gas holder is to blame. -/
def HolderFailure (e : GoError) : Prop :=
  e = .errorf "attempted to transfer negative value from gas holder" ∨ e = .errorf "not enough funds"

/-- The failures of `ApplyMessage` for which its gas bookkeeping is to blame. -/
def GasFailure : GoError → Prop
  | .wrap msg e => msg = "failed to withdraw gas funds" ∨
      msg ∈ ["failed to burn base fee", "failed to give miner gas reward",
        "failed to burn overestimation fee", "failed to refund gas"] ∧ HolderFailure e
  | .errorf msg => msg = "gas handling math is wrong"
  | .actorNotFound => False

theorem not_holderFailure_of_actorVal (h : st.actorVal addr = .error e) : ¬ HolderFailure e := by
  unfold HolderFailure
  rcases actorVal_error h with rfl | rfl | ⟨e', rfl | rfl⟩
  · decide
  · simp
  · simp
  · simp

omit [InitLib] in
theorem deductFunds_ok (h : amt ≤ act.balance) : deductFunds act amt = .ok { act with balance := act.balance - amt } := by
  unfold deductFunds
  rw [if_neg (by omega)]

theorem transferFromGasHolder_adds {gasHolder' : Actor} (hla : ResolvesToID) (hsd : Sound st)
    (h : transferFromGasHolder st addr gasHolder amt = (st', .ok gasHolder')) : Adds amt st st' := by
  obtain ⟨hamt, -, ⟨rfl, rfl⟩ | ⟨i, act, st1, -, hv, hrd, rfl⟩⟩ := transferFromGasHolder_ok h
  · exact adds_of_view hsd rfl
  refine adds_write hla hsd hrd hv rfl ?_
  intro hbal
  show 0 ≤ act.balance + amt
  omega

theorem transferFromGasHolder_error (hamt : 0 ≤ amt) (hfu : amt ≤ gasHolder.balance)
    (h : transferFromGasHolder st addr gasHolder amt = (st', .error e)) : ¬ HolderFailure e := by
  revert h
  fun_cases transferFromGasHolder with
  | case1 => omega
  | case2 => rintro ⟨⟩
  | case3 _ _ st2 e' hm =>
    rintro ⟨⟩
    rw [deductFunds_ok hfu] at hm
    obtain ⟨-, herr | ⟨act, -, hf⟩⟩ := mutateActor_error hm
    · exact not_holderFailure_of_actorVal herr
    · cases hf
  | case4 => rintro ⟨⟩

omit [InitLib] in
theorem not_gasFailure_wrap {msg : String} (hmsg : msg ≠ "failed to withdraw gas funds") (h : ¬ HolderFailure e) :
    ¬ GasFailure (.wrap msg e) := by
  rintro (hwi | ⟨-, hfa⟩)
  · exact hmsg hwi
  · exact h hfa

variable {msg : Message}

theorem payGas_adds {out : GasOutputs} {total : Int} (hla : ResolvesToID) (hsd : Sound st)
    (hse : out.Settles total) (h : payGas st msg gasHolder out = (st', .ok ())) : Adds total st st' := by
  obtain ⟨st1, st2, st3, g1, g2, g3, g4, h1, h2, h3, h4⟩ := payGas_steps h
  have a1 := transferFromGasHolder_adds hla hsd h1
  have a2 := transferFromGasHolder_adds hla a1.sound h2
  have a3 := transferFromGasHolder_adds hla a2.sound h3
  have a4 := transferFromGasHolder_adds hla a3.sound h4
  have ha := ((a1.trans a2).trans a3).trans a4
  rw [hse.sum] at ha
  exact ha

/-- **A gas holder with what the outputs add up to** is emptied, and not to blame for a failed transfer. -/
theorem payGas_error {out : GasOutputs} (hse : out.Settles gasHolder.balance)
    (h : payGas st msg gasHolder out = (st', .error e)) : ¬ GasFailure e := by
  obtain ⟨hb, hti, ho, hre, hsu⟩ := hse
  unfold payGas at h
  rcases tried h with ⟨e1, h1, ⟨⟩⟩ | ⟨st1, g1, h1, h⟩
  · exact not_gasFailure_wrap (by decide) (transferFromGasHolder_error hb (by omega) h1)
  obtain ⟨-, b₁, -⟩ := transferFromGasHolder_ok h1
  rcases tried h with ⟨e2, h2, ⟨⟩⟩ | ⟨st2, g2, h2, h⟩
  · exact not_gasFailure_wrap (by decide) (transferFromGasHolder_error hti (by omega) h2)
  obtain ⟨-, b2, -⟩ := transferFromGasHolder_ok h2
  rcases tried h with ⟨e3, h3, ⟨⟩⟩ | ⟨st3, g3, h3, h⟩
  · exact not_gasFailure_wrap (by decide) (transferFromGasHolder_error ho (by omega) h3)
  obtain ⟨-, b3, -⟩ := transferFromGasHolder_ok h3
  rcases tried h with ⟨e4, h4, ⟨⟩⟩ | ⟨st4, g4, h4, h⟩
  · exact not_gasFailure_wrap (by decide) (transferFromGasHolder_error hre (by omega) h4)
  obtain ⟨-, b4, -⟩ := transferFromGasHolder_ok h4
  -- the outputs add up, so the gas holder is empty
  rw [if_neg (by omega)] at h
  cases h

variable (vm : LegacyVM)
omit [InitLib] in
theorem not_gasFailure_other {msg : String}
    (hmsg : msg ∉ ["failed to withdraw gas funds", "failed to burn base fee", "failed to give miner gas reward", "failed to burn overestimation fee", "failed to refund gas"]) :
    ¬ GasFailure (.wrap msg e) := by
  rw [mem_cons, not_or] at hmsg
  rintro (hwi | ⟨htr, -⟩)
  · exact hmsg.1 hwi
  · exact hmsg.2 htr

/-- A message that the network can charge gas for. -/
structure Payable (vm : LegacyVM) (msg : Message) : Prop where
  networkVersion : 7 ≤ vm.networkVersion
  baseFee : 0 ≤ vm.baseFee
  gasLimit : 0 < msg.gasLimit
  gasFeeCap : 0 ≤ msg.gasFeeCap
  gasPremium : 0 ≤ msg.gasPremium

variable {r : ApplyRet} {ret : Bytes} {actorErr : Option ActorError}
omit [InitLib] in
theorem Payable.settles (hmsg : Payable vm msg) (hu : 0 ≤ gasUsed) (hli : gasUsed ≤ msg.gasLimit) (burn : Bool) :
    (computeGasOutputs gasUsed msg.gasLimit vm.baseFee msg.gasFeeCap msg.gasPremium burn).Settles (gasCost msg) :=
  computeGasOutputs_settles burn hu hli hmsg.baseFee hmsg.gasFeeCap hmsg.gasPremium

theorem settle_adds (hmsg : Payable vm msg) (hu : 0 ≤ gasUsed) (hli : gasUsed ≤ msg.gasLimit)
    (h : settle vm msg gasHolder ret actorErr gasUsed st = (st', .receipt r)) : r.gasCosts.Settles (gasCost msg) ∧
      (ResolvesToID → Sound st → Adds (gasCost msg) st st') := by
  obtain ⟨burn, st1, -, ho, hrd, hpa⟩ := settle_receipt vm h
  have hse : r.gasCosts.Settles (gasCost msg) := by
    rw [ho]
    exact hmsg.settles vm hu hli burn
  refine ⟨hse, fun hla hsd => ?_⟩
  have hsd1 := hsd.sameReads hrd
  have ha := (adds_of_view hsd1 hrd.view).trans (payGas_adds hla hsd1 hse hpa)
  rw [Int.zero_add] at ha
  exact ha

theorem settle_error (hmsg : Payable vm msg) (hh : gasHolder.balance = gasCost msg) (hu : 0 ≤ gasUsed)
    (hli : gasUsed ≤ msg.gasLimit)
    (h : settle vm msg gasHolder ret actorErr gasUsed st = (st', .goError e)) : ¬ GasFailure e := by
  revert h
  fun_cases settle with
  | case1 =>
    rintro ⟨⟩
    exact not_gasFailure_other (by decide)
  | case2 st1 burn hbu _ st2 e2 hpa =>
    rintro ⟨⟩
    exact payGas_error (hh ▸ hmsg.settles vm hu hli burn) hpa
  | case3 => rintro ⟨⟩

/-! ## The code of the message -/

theorem adds_of_evolves (hsd : Sound st') (h : Evolves Actor.balance st.view st'.view) : Adds 0 st st' := by
  obtain ⟨-, hsu, hn⟩ := h.conserves (listedBy_actors st).finite
  rw [supply_eq_totalBalance, supply_eq_totalBalance] at hsu
  exact ⟨hsd, by rw [hsu, Int.add_zero], hn⟩

variable {fuel chainLength : Nat} {out : Applied}

theorem executeMessage_adds (hmsg : Payable vm msg) (h : executeMessage vm fuel msg chainLength gasHolder st.snapshot = out)
    (hr : out.result = .receipt r) : SameBelow st.snapshot out.tree ∧ r.gasCosts.Settles (gasCost msg) ∧
      (ResolvesToID → Sound st → out.idReused = false → Adds (gasCost msg) st.snapshot out.tree) := by
  rcases executeMessage_cases vm hmsg.gasLimit.le h with ⟨-, hend⟩ | ⟨rt, w, ret, actorErr, gasUsed, hrun, hre, hu, hle, hsettle⟩
  · rw [hr] at hend
    cases hend
  -- what the gas is settled on
  obtain ⟨st1, hst1⟩ : ∃ st1, (if retCode actorErr ≠ 0 then w.tree.revert else w.tree) = st1 := ⟨_, rfl⟩
  rw [hst1] at hsettle
  have hbe : SameBelow st.snapshot st1 := by
    rw [← hst1]
    split
    · exact (revert_open hrun.below).1
    · exact hrun.below
  have hpa : SameBelow st1 out.tree := by
    rw [show out.tree = _ from congrArg Prod.fst hsettle]
    exact settle_below vm msg gasHolder ret actorErr gasUsed st1
  rw [hr] at hsettle
  obtain ⟨hse, ha⟩ := settle_adds vm hmsg hu hle hsettle.symm
  refine ⟨hbe.trans hpa, hse, fun hla hsd hfree => ?_⟩
  have hco : Adds 0 st.snapshot st1 := by
    rw [← hst1]
    split
    · obtain ⟨ho, hv, hlk⟩ := revert_open hrun.below
      exact adds_of_view (hsd.snapshot.of_reads (ho.layers_ne (cons_ne_nil _ _)) hlk) hv
    · exact adds_of_evolves (hrun.sound hla hsd.snapshot) (hrun.ledger hmsg.networkVersion hla (hre ▸ hfree) hsd.snapshot)
  have hall := hco.trans (ha hla hco.sound)
  rw [Int.zero_add] at hall
  exact hall

theorem executeMessage_error (hmsg : Payable vm msg) (hh : gasHolder.balance = gasCost msg)
    (h : executeMessage vm fuel msg chainLength gasHolder st = out) (he : out.result = .goError e) : ¬ GasFailure e := by
  rcases executeMessage_cases vm hmsg.gasLimit.le h with ⟨-, hend⟩ | ⟨rt, w, ret, actorErr, gasUsed, -, -, hu, hle, hse⟩
  · rw [he] at hend
    rcases hend with ⟨e', rfl⟩ | rfl
    · exact not_gasFailure_other (by decide)
    · show ¬ _ = _
      decide
  · rw [he] at hse
    exact settle_error vm hmsg hh hu hle hse.symm

/-! ## The sender pays -/

theorem Credits.adds {n : UInt64} (h : Credits (only i amt) (only i n) st st') (hsd : Sound st)
    (hv : st.view i = some act) (hnonneg : 0 ≤ act.balance + amt) : Adds amt st st' := by
  have hu : st'.view = Function.update st.view i (some (credited act amt n)) := by
    funext a
    rw [h.view, ← (credits_write hsd.layers_ne (.refl st) hv amt n).view, view_write hsd.layers_ne]
  refine ⟨hsd.of_reads (h.below.layers_ne hsd.layers_ne) h.lookup, ?_, fun hn => ?_⟩
  · rw [← supply_eq_totalBalance, ← supply_eq_totalBalance, hu, supply_update (listedBy_actors st).finite, amount_of_some hv]
    show supply Actor.balance st.view - act.balance + (act.balance + amt) = _
    omega
  rw [hu]
  refine hn.update ?_
  rintro _ ⟨⟩
  exact hnonneg

theorem senderCheck_cases (msg : Message) (chainLength : Nat) (st : StateTree) :
    (∃ code text penalty, (senderCheck vm msg chainLength st).2 = .ok (some (rejected code text penalty))) ∨
    (∃ e, (senderCheck vm msg chainLength st).2 = .error (.wrap "failed to look up from actor" e)) ∨
    ((senderCheck vm msg chainLength st).2 = .ok none ∧
      ∃ act, st.actorVal msg.fromAddr = .ok act ∧ gasCost msg ≤ act.balance) := by
  have hv := (getActor_spec st msg.fromAddr).1
  fun_cases senderCheck with
  | case3 _ _ st1 e => exact Or.inr (Or.inl ⟨e, rfl⟩)
  | case7 _ _ st1 act heq =>
    rw [heq] at hv
    exact Or.inr (Or.inr ⟨rfl, act, hv.symm, by omega⟩)
  | _ => exact Or.inl ⟨_, _, _, rfl⟩

omit [InitLib] in
theorem rejected_settles (code : ExitCode) (text : String) (penalty : Int) : (rejected code text penalty).gasCosts.Settles 0 :=
  ⟨le_refl 0, le_refl 0, le_refl 0, le_refl 0, rfl⟩

theorem not_gasFailure_of_actorVal (h : st.actorVal addr = .error e) : ¬ GasFailure e := by
  rcases actorVal_error h with rfl | rfl | ⟨e', rfl | rfl⟩
  · show ¬ _ = _
    decide
  · exact id
  all_goals exact not_gasFailure_other (by decide)

theorem transferToGasHolder_passes (gasHolder : Actor) (hamt : 0 ≤ amt) (ha : st.actorVal addr = .ok act)
    (hfu : amt ≤ act.balance) : ∃ st', transferToGasHolder st addr gasHolder amt = (st', .ok (depositFunds gasHolder amt)) := by
  unfold transferToGasHolder
  rw [if_neg (by omega)]
  rcases hm : st.mutateActor addr (fun a => deductFunds a amt) with ⟨st', e | u⟩
  · obtain ⟨-, herr | ⟨act', ha', hf⟩⟩ := mutateActor_error hm
    · rw [ha] at herr
      cases herr
    rw [ha] at ha'
    cases ha'
    rw [deductFunds_ok hfu] at hf
    cases hf
  · exact ⟨st', rfl⟩

theorem payAndExecute_error (hmsg : Payable vm msg) (ha : st.actorVal msg.fromAddr = .ok act) (hfu : gasCost msg ≤ act.balance)
    (h : (payAndExecute vm fuel msg chainLength st).result = .goError e) : ¬ GasFailure e := by
  obtain ⟨st1, hpa⟩ := transferToGasHolder_passes newGasHolder (Int.mul_nonneg hmsg.gasLimit.le hmsg.gasFeeCap) ha hfu
  unfold payAndExecute at h
  rw [show transferToGasHolder st msg.fromAddr newGasHolder (gasCost msg) = _ from hpa] at h
  dsimp only at h
  rcases hn : incrementNonce st1 msg.fromAddr with ⟨st2, e2 | u⟩
  · rw [hn] at h
    cases h
    obtain ⟨-, herr | ⟨act', -, hf⟩⟩ := mutateActor_error hn
    · exact not_gasFailure_of_actorVal herr
    · cases hf
  · rw [hn] at h
    exact executeMessage_error vm hmsg (Int.zero_add (gasCost msg)) rfl h

theorem payAndExecute_adds (hmsg : Payable vm msg) (hsd : Sound st) (h : payAndExecute vm fuel msg chainLength st = out)
    (hr : out.result = .receipt r) : r.gasCosts.Settles (gasCost msg) ∧
      (ResolvesToID → out.idReused = false → Adds 0 st out.tree) := by
  obtain ⟨sender, act, st1, out', -, hv, hfu, hcr, hexec, rfl⟩ :=
    payAndExecute_receipt vm hsd.layers_ne h hr
  have hpa := hcr.adds hsd hv (by omega)
  obtain ⟨hbe, hse, ha⟩ := executeMessage_adds vm hmsg hexec hr
  refine ⟨hse, fun hla hfree => ?_⟩
  have hrun := ha hla hpa.sound hfree
  -- the layer of the message is opened and merged without a change of what is read
  have ho : Adds 0 st1 st1.snapshot := adds_of_view hpa.sound.snapshot (view_snapshot st1)
  have hm : Adds 0 out'.tree out'.tree.clearSnapshot := by
    obtain ⟨hv', hlk'⟩ := hbe.clearSnapshot_reads hpa.sound.layers_ne
    exact adds_of_view (hrun.sound.of_reads (hbe.clearSnapshot.layers_ne hpa.sound.layers_ne) hlk') hv'
  have hall := ((hpa.trans ho).trans hrun).trans hm
  rw [show -gasCost msg + 0 + gasCost msg + 0 = 0 by omega] at hall
  exact hall

/-! ## The whole message -/

section
variable (hmsg : Payable vm msg)
include hmsg

theorem applyMessage_adds (hla : ResolvesToID) (hsd : Sound st)
    (hr : (applyMessage vm fuel msg chainLength st).result = .receipt r)
    (hfree : (applyMessage vm fuel msg chainLength st).idReused = false) :
    Adds 0 st (applyMessage vm fuel msg chainLength st).tree := by
  have hrd := senderCheck_reads vm msg chainLength st
  have hre := adds_of_view (hsd.sameReads hrd) hrd.view
  unfold applyMessage at hr hfree ⊢
  rcases hch : checkMessage msg with e | u
  · rw [hch] at hr
    cases hr
  rw [hch] at hr hfree
  generalize senderCheck vm msg chainLength st = checked at hr hfree hrd hre ⊢
  obtain ⟨st1, e | _ | early⟩ := checked
  · cases hr
  · have ha := (payAndExecute_adds vm hmsg hre.sound rfl hr).2 hla hfree
    exact hre.trans ha
  · exact hre

theorem applyMessage_settles (hsd : Sound st)
    (hr : (applyMessage vm fuel msg chainLength st).result = .receipt r) :
    ((senderCheck vm msg chainLength st).2 = .ok none → r.gasCosts.Settles (gasCost msg)) ∧
      ((senderCheck vm msg chainLength st).2 ≠ .ok none → r.gasCosts.Settles 0) := by
  have hsd1 := hsd.sameReads (senderCheck_reads vm msg chainLength st)
  have hca := senderCheck_cases vm msg chainLength st
  unfold applyMessage at hr
  rcases hch : checkMessage msg with e | u
  · rw [hch] at hr
    cases hr
  rw [hch] at hr
  generalize senderCheck vm msg chainLength st = checked at hr hsd1 hca ⊢
  obtain ⟨st1, e | _ | early⟩ := checked
  · cases hr
  · refine ⟨fun _ => ?_, fun hne => absurd rfl hne⟩
    exact (payAndExecute_adds vm hmsg hsd1 rfl hr).1
  refine ⟨(fun h => nomatch h), fun _ => ?_⟩
  cases hr
  rcases hca with ⟨code, text, penalty, hea⟩ | ⟨e, he⟩ | ⟨hn, -⟩
  · cases hea
    exact rejected_settles code text penalty
  · cases he
  · cases hn

theorem applyMessage_error
    (he : (applyMessage vm fuel msg chainLength st).result = .goError e) : ¬ GasFailure e := by
  have hrd := senderCheck_reads vm msg chainLength st
  have hca := senderCheck_cases vm msg chainLength st
  have hli := hmsg.gasLimit
  unfold applyMessage at he
  have hch : checkMessage msg = .ok () := by
    unfold checkMessage
    rw [if_neg (by omega), if_neg (by omega)]
  rw [hch] at he
  generalize senderCheck vm msg chainLength st = checked at he hrd hca
  obtain ⟨st1, e1 | _ | early⟩ := checked
  · cases he
    rcases hca with ⟨code, text, penalty, hea⟩ | ⟨e', he'⟩ | ⟨hn, -⟩
    · cases hea
    · cases he'
      exact not_gasFailure_other (by decide)
    · cases hn
  · rcases hca with ⟨code, text, penalty, hea⟩ | ⟨e', he'⟩ | ⟨-, act, ha, hfu⟩
    · cases hea
    · cases he'
    · rw [← hrd.actorVal] at ha
      exact payAndExecute_error vm hmsg ha hfu he
  · cases he
end

/-- **`ApplyMessage` keeps the tokens** where it gives a receipt, provided no new account was given an ID in use; the four
fees are non-negative and add up to the price of the gas limit, or are nothing for a rejected sender. Where it fails, the
gas bookkeeping is not what failed. -/
theorem applyMessage_keeps_tokens (fuel : Nat) (msg : Message) (chainLength : Nat) (st : StateTree)
    (hmsg : Payable vm msg) (hlaw : ResolvesToID) (hsound : Sound st) (hneg : NonNeg Actor.balance st.view) :
    (∀ r, (applyMessage vm fuel msg chainLength st).result = .receipt r →
      ((senderCheck vm msg chainLength st).2 = .ok none → r.gasCosts.Settles (gasCost msg)) ∧
      ((senderCheck vm msg chainLength st).2 ≠ .ok none → r.gasCosts.Settles 0) ∧
      ((applyMessage vm fuel msg chainLength st).idReused = false →
        totalBalance (applyMessage vm fuel msg chainLength st).tree = totalBalance st ∧
        NonNeg Actor.balance (applyMessage vm fuel msg chainLength st).tree.view)) ∧
    ∀ e, (applyMessage vm fuel msg chainLength st).result = .goError e → ¬ GasFailure e := by
  refine ⟨fun r hr => ?_, fun e he => applyMessage_error vm hmsg he⟩
  obtain ⟨hpa, hre⟩ := applyMessage_settles vm hmsg hsound hr
  refine ⟨hpa, hre, fun hfree => ?_⟩
  have ha := applyMessage_adds vm hmsg hlaw hsound hr hfree
  refine ⟨?_, ha.nonNeg hneg⟩
  rw [ha.total, Int.add_zero]

/-! ## Many messages -/

/-- The trees that messages lead to, each with a receipt and with no ID given out twice. -/
inductive MessageRun (st : StateTree) : StateTree → Prop where
  | start : MessageRun st st
  | apply {st' : StateTree} (h : MessageRun st st') (fuel : Nat) (msg : Message) (chainLength : Nat)
      (r : ApplyRet) (hmsg : Payable vm msg)
      (hr : (applyMessage vm fuel msg chainLength st').result = .receipt r)
      (hfree : (applyMessage vm fuel msg chainLength st').idReused = false) :
      MessageRun st (applyMessage vm fuel msg chainLength st').tree

/-- **Any number of messages keep the tokens**: none is created or destroyed, and no balance gets negative. -/
theorem MessageRun.keeps_supply (h : MessageRun vm st st') (hla : ResolvesToID) (hsd : Sound st) : Adds 0 st st' := by
  induction h with
  | start => exact adds_of_view hsd rfl
  | apply h fuel msg chainLength r hmsg hr hfree ih =>
    exact ih.trans (applyMessage_adds vm hmsg hla ih.sound hr hfree)
end

theorem nonNeg_of_actors {st : StateTree} (h : ∀ p ∈ actors st, 0 ≤ p.2.balance) : NonNeg Actor.balance st.view := by
  intro a act ha
  exact h (a, act) (((listedBy_actors st).2 a act).mpr ha)

theorem relay_keeps_tokens :
    let _ := emptyInit
    totalBalance relayTree = 1050 ∧
      totalBalance (applyMessage relayVM 3 relayMessage 0 relayTree).tree = totalBalance relayTree ∧
      relayReceipt.gasCosts.Settles (gasCost relayMessage) := by
  intro _
  have hla : ResolvesToID := fun _ _ _ h => nomatch h
  have hre : (applyMessage relayVM 3 relayMessage 0 relayTree).result = .receipt relayReceipt := by
    decide +kernel
  have hk := applyMessage_keeps_tokens relayVM 3 relayMessage 0 relayTree
    ⟨by decide, by decide, by decide, by decide, by decide⟩ hla (sound_of_loaded hla rfl)
    (nonNeg_of_actors (by decide +kernel))
  obtain ⟨hpa, -, hfree⟩ := hk.1 relayReceipt hre
  exact ⟨by decide +kernel, (hfree (by decide +kernel)).1, hpa (by decide +kernel)⟩

/-- Two messages of one sender. -/
theorem relay_keeps_supply :
    let _ := emptyInit
    let second : Message := { relayMessage with nonce := 4 }
    let st := (applyMessage relayVM 3 relayMessage 0 relayTree).tree
    totalBalance (applyMessage relayVM 3 second 0 st).tree = totalBalance relayTree + 0 := by
  intro _ second st
  have hla : ResolvesToID := fun _ _ _ h => nomatch h
  have hrun : MessageRun relayVM relayTree st := .apply .start 3 relayMessage 0 relayReceipt
    ⟨by decide, by decide, by decide, by decide, by decide⟩ (by decide +kernel) (by decide +kernel)
  have hrun' : MessageRun relayVM relayTree _ := hrun.apply 3 second 0 relayReceipt
    ⟨by decide, by decide, by decide, by decide, by decide⟩ (by decide +kernel) (by decide +kernel)
  exact (MessageRun.keeps_supply relayVM hrun' hla (sound_of_loaded hla rfl)).total

@[reducible] def nextInit : InitLib where
  InitState := Bool
  load _ head := .ok (head = ⟨[1]⟩)
  resolveAddress registered addr :=
    if registered = true ∧ addr = .bls [7] then .ok (some (.id 1000)) else .ok none
  mapAddressToNewID _ _ := .ok (.id 1000, true)
  put registered := .ok (if registered then ⟨[1]⟩ else ⟨[]⟩)

/-- Code 2 creates an actor at the ID the init actor will give out next, sends it 5, and then sends
nothing to a new BLS address. -/
def squatCode (code : Cid) : Except ActorError Code :=
  if code = ⟨[2]⟩ then
    .ok (.validateImmediateCallerAcceptAny (.createActor ⟨[3]⟩ (.id 1000)
      (.send (.id 1000) 0 5 [] fun _ _ => .send (.bls [7]) 0 0 [] fun _ _ => .done (.ok []))))
  else .ok (.validateImmediateCallerAcceptAny (.done (.ok [])))

def squatVM : LegacyVM := { relayVM with areg := ⟨fun code _ _ => squatCode code, fun _ => .ok ()⟩ }

def squatTree : StateTree :=
  { relayTree with root := relayTree.root.insert initAddress ⟨⟨[5]⟩, ⟨[]⟩, 0, 0⟩ }

/-- A wrong nonce pays no gas, and code that takes the ID of the next account loses what it put there. -/
theorem fees_missing_and_tokens_lost : (let _ := emptyInit;
      let msg := { relayMessage with nonce := 4 }
      Payable relayVM msg ∧ ResolvesToID ∧ Sound relayTree ∧ NonNeg Actor.balance relayTree.view ∧
        ∃ r, (applyMessage relayVM 3 msg 0 relayTree).result = .receipt r ∧
          r.gasCosts.baseFeeBurn + r.gasCosts.minerTip + r.gasCosts.overEstimationBurn +
            r.gasCosts.refund = 0 ∧ msg.gasLimit * msg.gasFeeCap = 30) ∧ (let _ := nextInit;
      Payable squatVM relayMessage ∧ ResolvesToID ∧ Sound squatTree ∧
        NonNeg Actor.balance squatTree.view ∧
        ∃ r, (applyMessage squatVM 4 relayMessage 0 squatTree).result = .receipt r ∧ r.exitCode = 0 ∧
          totalBalance squatTree = 1050 ∧
          totalBalance (applyMessage squatVM 4 relayMessage 0 squatTree).tree = 1045) := by
  constructor
  · intro _ msg
    have hla : ResolvesToID := fun _ _ _ h => nomatch h
    refine ⟨⟨by decide, by decide, by decide, by decide, by decide⟩, hla, sound_of_loaded hla rfl,
      nonNeg_of_actors (by decide +kernel), rejected 2 "actor nonce invalid" 20, ?_⟩
    decide +kernel
  intro _
  have hla : ResolvesToID := by
    intro (registered : Bool) addr r h
    change (if registered = true ∧ addr = .bls [7] then
      (Except.ok (some (Address.id 1000)) : Except GoError _) else .ok none) = .ok (some r) at h
    split at h
    · cases h
      rfl
    · cases h
  refine ⟨⟨by decide, by decide, by decide, by decide, by decide⟩, hla, sound_of_loaded hla rfl,
    nonNeg_of_actors (by decide +kernel), ⟨0, [], 7, none, ⟨14, 2, 0, 10, 4, 2, 1⟩⟩, ?_⟩
  decide +kernel

end Lotus.VM

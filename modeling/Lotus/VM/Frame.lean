/-
# What a failed message and a failed send leave behind.

A send that fails leaves every actor as it was, and one that succeeds what the callee left: the layer of the frame is reverted
or merged, and nothing below it is written. A failed message leaves its sender with one more nonce, and beyond that only the
gas fees have changed hands (`Credits`).
-/
import Lotus.VM.Apply
import Lotus.VM.Steps

namespace Lotus.VM
open State Lib.Effect StateTree List Option

section
variable [InitLib]

/-! ## Fees -/

def only {M : Type} [Zero M] (i : Address) (x : M) : Address → M := fun a => if a = i then x else 0

def credited (act : Actor) (amt : Int) (n : UInt64) : Actor :=
  { act with balance := act.balance + amt, nonce := act.nonce + n }

/-- Below the top layer nothing changed, nor did resolutions; every actor got what `δ` and `ν` say. -/
structure Credits (δ : Address → Int) (ν : Address → UInt64) (st st' : StateTree) : Prop where
  below : SameBelow st st'
  lookup : st'.lookupVal = st.lookupVal
  view : ∀ a, st'.view a = (st.view a).map fun act => credited act (δ a) (ν a)

omit [InitLib] in
theorem credited_zero (act : Actor) : credited act 0 0 = act := by
  unfold credited
  rw [Int.add_zero, UInt64.add_zero]

variable {st st' : StateTree}

theorem credits_reads (h : SameReads st st') : Credits (fun _ => 0) (fun _ => 0) st st' := by
  refine ⟨h.sameBelow, h.lookup, fun a => ?_⟩
  rw [h.view]
  cases st.view a with
  | none => rfl
  | some act => rw [map_some, credited_zero]

variable {δ : Address → Int} {ν : Address → UInt64}

theorem Credits.trans {δ' : Address → Int} {ν' : Address → UInt64} {st'' : StateTree} (h : Credits δ ν st st')
    (h' : Credits δ' ν' st' st'') : Credits (fun a => δ a + δ' a) (fun a => ν a + ν' a) st st'' := by
  refine ⟨h.below.trans h'.below, h'.lookup.trans h.lookup, fun a => ?_⟩
  rw [h'.view, h.view]
  rcases st.view a with _ | act
  · rfl
  simp only [map_some, credited, some.injEq, Actor.mk.injEq, true_and]
  exact ⟨UInt64.add_assoc _ _ _, Int.add_assoc _ _ _⟩

variable {addr i sender toAddr : Address}

theorem credits_write {st1 : StateTree} (hne : st.layers ≠ []) (hrd : SameReads st st1) {act : Actor}
    (hv : st.view i = some act) (amt : Int) (n : UInt64) :
    Credits (only i amt) (only i n) st (st1.write i (some (credited act amt n))) := by
  have hv1 : st1.view i = some act := by
    rw [hrd.view]
    exact hv
  refine ⟨hrd.sameBelow.trans (sameBelow_write st1 i _), ?_, fun a => ?_⟩
  · rw [lookupVal_write_of_code (credited act amt n) hv1 rfl rfl, hrd.lookup]
  rw [view_write (hrd.sameBelow.layers_ne hne), hrd.view]
  unfold only
  by_cases ha : a = i
  · rw [ha, Function.update_self, hv, if_pos rfl, if_pos rfl, map_some]
  rw [Function.update_of_ne ha, if_neg ha, if_neg ha]
  cases st.view a with
  | none => rfl
  | some act' => rw [map_some, credited_zero]

theorem mutateActor_below (st : StateTree) (addr : Address) (f : Actor → Except GoError Actor) :
    SameBelow st (st.mutateActor addr f).1 := by
  rcases h : st.mutateActor addr f with ⟨st', e | u⟩
  · exact (mutateActor_error h).1.sameBelow
  · obtain ⟨i, act, act', st1, -, -, -, hrd, rfl⟩ := mutateActor_ok h
    exact hrd.sameBelow.trans (sameBelow_write st1 i _)

/-! ## Gas in and out of the gas holder -/

theorem transferToGasHolder_below (st : StateTree) (addr : Address) (gasHolder : Actor) (amt : Int) :
    SameBelow st (transferToGasHolder st addr gasHolder amt).1 := by
  have hb := mutateActor_below st addr (fun a => deductFunds a amt)
  fun_cases transferToGasHolder with
  | case1 => exact .refl st
  | _ => simp_all

variable {gasHolder gasHolder' : Actor} {amt value : Int}

theorem transferToGasHolder_ok (hne : st.layers ≠ [])
    (h : transferToGasHolder st addr gasHolder amt = (st', .ok gasHolder')) : gasHolder' = depositFunds gasHolder amt ∧
      ∃ i act, st.lookupVal addr = .ok i ∧ st.view i = some act ∧ amt ≤ act.balance ∧
        Credits (only i (-amt)) (only i 0) st st' := by
  revert h
  fun_cases transferToGasHolder with
  | case3 _ st2 hm =>
    rintro ⟨⟩
    obtain ⟨i, act, act', st1, hlk, hv, hd, hrd, rfl⟩ := mutateActor_ok hm
    unfold deductFunds at hd
    split at hd
    · cases hd
    rename_i hfu
    cases hd
    refine ⟨rfl, i, act, hlk, hv, by omega, ?_⟩
    have hcr := credits_write hne hrd hv (-amt) 0
    rw [credited, UInt64.add_zero, ← Int.sub_eq_add_neg] at hcr
    exact hcr
  | _ => exact nofun

theorem transferFromGasHolder_below (st : StateTree) (addr : Address) (gasHolder : Actor) (amt : Int) :
    SameBelow st (transferFromGasHolder st addr gasHolder amt).1 := by
  have hb := mutateActor_below st addr (fun a => (deductFunds gasHolder amt).map fun _ => depositFunds a amt)
  fun_cases transferFromGasHolder with
  | case1 | case2 => exact .refl st
  | _ => simp_all

theorem transferFromGasHolder_ok (h : transferFromGasHolder st addr gasHolder amt = (st', .ok gasHolder')) :
    0 ≤ amt ∧ gasHolder'.balance = gasHolder.balance - amt ∧
      (amt = 0 ∧ st' = st ∨ ∃ i act st1, st.lookupVal addr = .ok i ∧ st.view i = some act ∧
        SameReads st st1 ∧ st' = st1.write i (some (depositFunds act amt))) := by
  revert h
  fun_cases transferFromGasHolder with
  | case2 hn hz =>
    rintro ⟨⟩
    exact ⟨by omega, by omega, Or.inl ⟨hz, rfl⟩⟩
  | case4 hn _ st2 hm =>
    rintro ⟨⟩
    obtain ⟨i, act, act', st1, hlk, hv, hd, hrd, rfl⟩ := mutateActor_ok hm
    unfold deductFunds at hd
    split at hd
    · cases hd
    · cases hd
      exact ⟨by omega, rfl, Or.inr ⟨i, act, st1, hlk, hv, hrd, rfl⟩⟩
  | _ => exact nofun

theorem transferFromGasHolder_credits (hne : st.layers ≠ []) (hi : st.lookupVal addr = .ok i)
    (h : transferFromGasHolder st addr gasHolder amt = (st', .ok gasHolder')) :
    Credits (only i amt) (only i 0) st st' := by
  obtain ⟨-, -, ⟨rfl, rfl⟩ | ⟨k, act, st1, hlk, hv, hrd, rfl⟩⟩ := transferFromGasHolder_ok h
  · have hn : ∀ M : Type, ∀ z : Zero M, only i (0 : M) = fun _ => 0 := by
      intro M z
      funext a
      exact ite_self 0
    rw [hn, hn]
    exact credits_reads (.refl st')
  rw [hi] at hlk
  cases hlk
  have hcr := credits_write hne hrd hv amt 0
  rw [credited, UInt64.add_zero] at hcr
  exact hcr

omit [InitLib] in
theorem tried {p : StateTree × Except GoError Actor} {text : String} {r : Except GoError Unit}
    {k : StateTree → Actor → StateTree × Except GoError Unit}
    (h : (match p with | (st, .error e) => (st, .error (.wrap text e)) | (st, .ok a) => k st a) = (st', r)) :
    (∃ e, p = (st', .error e) ∧ r = .error (.wrap text e)) ∨ ∃ st1 a, p = (st1, .ok a) ∧ k st1 a = (st', r) := by
  rcases p with ⟨st1, e | a⟩
  · cases h
    exact .inl ⟨e, rfl, rfl⟩
  · exact .inr ⟨st1, a, rfl, h⟩

theorem payGas_below (st : StateTree) (msg : Message) (gasHolder : Actor) (out : GasOutputs) :
    SameBelow st (payGas st msg gasHolder out).1 := by
  have hb : ∀ {st st' addr g amt r}, transferFromGasHolder st addr g amt = (st', r) → SameBelow st st' :=
    fun {st _ addr g amt _} h => by simpa [h] using transferFromGasHolder_below st addr g amt
  rcases h : payGas st msg gasHolder out with ⟨st', r⟩
  unfold payGas at h
  rcases tried h with ⟨e, h1, -⟩ | ⟨st1, g1, h1, h⟩
  · exact hb h1
  rcases tried h with ⟨e, h2, -⟩ | ⟨st2, g2, h2, h⟩
  · exact (hb h1).trans (hb h2)
  rcases tried h with ⟨e, h3, -⟩ | ⟨st3, g3, h3, h⟩
  · exact ((hb h1).trans (hb h2)).trans (hb h3)
  have hb3 := ((hb h1).trans (hb h2)).trans (hb h3)
  rcases tried h with ⟨e, h4, -⟩ | ⟨st4, g4, h4, h⟩
  · exact hb3.trans (hb h4)
  split at h <;> cases h <;> exact hb3.trans (hb h4)

variable {msg : Message}

theorem payGas_steps {out : GasOutputs} (h : payGas st msg gasHolder out = (st', .ok ())) : ∃ st1 st2 st3 g1 g2 g3 g4,
      transferFromGasHolder st burntFundsActorAddr gasHolder out.baseFeeBurn = (st1, .ok g1) ∧
      transferFromGasHolder st1 rewardAddress g1 out.minerTip = (st2, .ok g2) ∧
      transferFromGasHolder st2 burntFundsActorAddr g2 out.overEstimationBurn = (st3, .ok g3) ∧
      transferFromGasHolder st3 msg.fromAddr g3 out.refund = (st', .ok g4) := by
  unfold payGas at h
  rcases tried h with ⟨e, -, hr⟩ | ⟨st1, g1, h1, h⟩
  · cases hr
  rcases tried h with ⟨e, -, hr⟩ | ⟨st2, g2, h2, h⟩
  · cases hr
  rcases tried h with ⟨e, -, hr⟩ | ⟨st3, g3, h3, h⟩
  · cases hr
  rcases tried h with ⟨e, -, hr⟩ | ⟨st4, g4, h4, h⟩
  · cases hr
  split at h <;> cases h
  exact ⟨st1, st2, st3, g1, g2, g3, g4, h1, h2, h3, h4⟩

/-- The change of the balance of `i` by a message that costs `cost` and is settled as `out`. -/
def feeChange (cost : Int) (out : GasOutputs) (sender : Address) (i : Address) : Int :=
  (if i = sender then out.refund - cost else 0) +
    (if i = burntFundsActorAddr then out.baseFeeBurn + out.overEstimationBurn else 0) +
    (if i = rewardAddress then out.minerTip else 0)

theorem payGas_ok {out : GasOutputs} (hne : st.layers ≠ []) (hsn : st.lookupVal msg.fromAddr = .ok sender)
    (h : payGas st msg gasHolder out = (st', .ok ())) :
    Credits (fun a => feeChange 0 out sender a) (fun _ => 0) st st' := by
  obtain ⟨st1, st2, st3, g1, g2, g3, g4, h1, h2, h3, h4⟩ := payGas_steps h
  have c1 := transferFromGasHolder_credits hne (lookupVal_id st rfl) h1
  have hne1 := c1.below.layers_ne hne
  have c2 := transferFromGasHolder_credits hne1 (lookupVal_id st1 rfl) h2
  have hne2 := c2.below.layers_ne hne1
  have c3 := transferFromGasHolder_credits hne2 (lookupVal_id st2 rfl) h3
  have hne3 := c3.below.layers_ne hne2
  have hs3 : st3.lookupVal msg.fromAddr = .ok sender := by
    rw [c3.lookup, c2.lookup, c1.lookup]
    exact hsn
  have c4 := transferFromGasHolder_credits hne3 hs3 h4
  have ha := ((c1.trans c2).trans c3).trans c4
  refine ⟨ha.below, ha.lookup, fun a => ?_⟩
  rw [ha.view]
  congr 1
  funext act
  unfold only feeChange
  congr 1
  · split <;> split <;> split <;> omega
  · split <;> split <;> split <;> rfl

variable (vm : LegacyVM)

theorem shouldBurn_reads (st : StateTree) (msg : Message) (errcode : ExitCode) :
    SameReads st (shouldBurn vm st msg errcode).1 := by
  have hrd := (getActor_spec st msg.toAddr).2
  fun_cases shouldBurn with
  | case4 => exact .refl st
  | _ => simp_all

theorem settle_below (msg : Message) (gasHolder : Actor) (ret : Bytes) (actorErr : Option ActorError) (gasUsed : Int)
    (st : StateTree) : SameBelow st (settle vm msg gasHolder ret actorErr gasUsed st).1 := by
  have hrd := (shouldBurn_reads vm st msg (retCode actorErr)).sameBelow
  unfold settle
  generalize shouldBurn vm st msg (retCode actorErr) = r at hrd ⊢
  obtain ⟨st1, e | burn⟩ := r
  · exact hrd
  dsimp only
  have hpa := hrd.trans (payGas_below st1 msg gasHolder
    (computeGasOutputs gasUsed msg.gasLimit vm.baseFee msg.gasFeeCap msg.gasPremium burn))
  generalize payGas st1 msg gasHolder (computeGasOutputs gasUsed msg.gasLimit vm.baseFee msg.gasFeeCap
    msg.gasPremium burn) = r at hpa ⊢
  obtain ⟨st2, e | u⟩ := r
  · exact hpa
  · exact hpa

variable {ret params : Bytes} {r : ApplyRet} {actorErr : Option ActorError}

theorem settle_receipt {gasUsed : Int} (h : settle vm msg gasHolder ret actorErr gasUsed st = (st', .receipt r)) :
    ∃ burn st1, r.exitCode = retCode actorErr ∧
      r.gasCosts = computeGasOutputs gasUsed msg.gasLimit vm.baseFee msg.gasFeeCap msg.gasPremium burn ∧
      SameReads st st1 ∧ payGas st1 msg gasHolder r.gasCosts = (st', .ok ()) := by
  have hrd := shouldBurn_reads vm st msg (retCode actorErr)
  revert h
  fun_cases settle with
  | case3 st1 burn hb _ st2 hpa =>
    rintro ⟨⟩
    exact ⟨burn, st1, rfl, rfl, by rwa [hb] at hrd, hpa⟩
  | _ => exact nofun

/-! ## How a message ends -/

/-- The ends of an execution that do not reach the settling of the gas. -/
def Unsettled : ApplyResult → Prop
  | .goError e => (∃ e', e = .wrap "fatal error" e') ∨
      e = .errorf "message invocation errored, but had a return value anyway"
  | .receipt _ => False
  | .panic _ => True
  | .diverge => True

theorem keeps_sendMessage (fuel : Nat) (msg : Message) (gasCharge : Int) :
    Eff.Keeps (Run vm.networkVersion) (sendMessage vm fuel msg gasCharge) := by
  refine .bind (keeps_chargeGasSafe gasCharge) fun r => ?_
  cases r with
  | none => exact keeps_sendFrame vm fuel msg
  | some e => exact Eff.keeps_pure _

omit [InitLib] in
theorem chargeReturn_le (ret : Bytes) (actorErr : Option ActorError) {rt : Runtime}
    (h : rt.gasUsed ≤ rt.gasAvailable) : (chargeReturn vm ret actorErr rt).1.gasUsed ≤ rt.gasAvailable := by
  unfold chargeReturn
  split
  · exact h
  have hle := (chargeGasInternal_le rt (vm.pricelist.onChainReturnValue ret.length)).2
  generalize rt.chargeGasInternal (vm.pricelist.onChainReturnValue ret.length) = r at hle ⊢
  obtain ⟨rt', _ | e⟩ := r
  · exact hle
  · exact hle

variable {w w' : World}

theorem finishMessage_cases {p : StateTree × ApplyResult} (hli : 0 ≤ msg.gasLimit)
    (hu : w.rt.gasUsed ≤ w.rt.gasAvailable) (ha : w.rt.gasAvailable = msg.gasLimit)
    (h : finishMessage vm msg gasHolder ret actorErr w = p) : p.1 = w.tree ∧ Unsettled p.2 ∨
      ∃ ret' actorErr' gasUsed, 0 ≤ gasUsed ∧ gasUsed ≤ msg.gasLimit ∧
        p = settle vm msg gasHolder ret' actorErr' gasUsed
          (if retCode actorErr' ≠ 0 then w.tree.revert else w.tree) := by
  revert h
  fun_cases finishMessage with
  | case1 =>
    rintro ⟨⟩
    exact .inl ⟨rfl, .inl ⟨_, rfl⟩⟩
  | case2 =>
    rintro ⟨⟩
    exact .inl ⟨rfl, .inr rfl⟩
  | case3 _ _ rt ret' actorErr' hch =>
    intro h
    have hle := chargeReturn_le vm ret actorErr hu
    rw [hch] at hle
    refine .inr ⟨ret', actorErr', if rt.gasUsed < 0 then 0 else rt.gasUsed, ?_, ?_, h.symm⟩
    · split <;> omega
    dsimp only at hle
    split <;> omega

variable {fuel chainLength method : Nat} {out : Applied}

/-- **How the execution of a message ends.**  Nothing is settled, or the code ran (`Run`) and the gas is settled on what it
left. -/
theorem executeMessage_cases (hli : 0 ≤ msg.gasLimit)
    (h : executeMessage vm fuel msg chainLength gasHolder st = out) : SameBelow st out.tree ∧ Unsettled out.result ∨
      ∃ (rt : Runtime) (w : World) (ret : Bytes) (actorErr : Option ActorError) (gasUsed : Int),
        Run vm.networkVersion ⟨st, false, [], rt⟩ w ∧ out.idReused = w.idReused ∧
        0 ≤ gasUsed ∧ gasUsed ≤ msg.gasLimit ∧
        (out.tree, out.result) = settle vm msg gasHolder ret actorErr gasUsed
          (if retCode actorErr ≠ 0 then w.tree.revert else w.tree) := by
  have hrd := keeps_makeRuntime vm none msg st
  unfold executeMessage at h
  rcases hm : makeRuntime vm none msg st with ⟨st1, rt | p | _⟩
  · rw [hm] at h hrd
    obtain ⟨hz, ha, -⟩ := makeRuntime_val vm hm
    have hre : Run vm.networkVersion ⟨st, false, [], rt⟩ ⟨st1, false, [], rt⟩ :=
      TreeRun.run (w := ⟨st, false, [], rt⟩) (treeRun_reads hrd)
    have hrun := hre.trans (keeps_sendMessage vm fuel msg (vm.pricelist.onChainMessage chainLength) ⟨st1, false, [], rt⟩)
    have hu := hrun.used (show rt.gasUsed ≤ rt.gasAvailable by rw [hz, ha]; exact hli)
    dsimp only at h
    generalize sendMessage vm fuel msg (vm.pricelist.onChainMessage chainLength) ⟨st1, false, [], rt⟩ = r at h hrun hu
    obtain ⟨w, ⟨ret, actorErr⟩ | p | _⟩ := r
    · obtain rfl := h
      have hfi : w.rt.gasUsed ≤ w.rt.gasAvailable ∧ w.rt.gasAvailable = msg.gasLimit := by
        rw [hrun.available]
        exact ⟨hu, ha⟩
      rcases finishMessage_cases vm hli hfi.1 hfi.2 rfl with ⟨htr, hend⟩ | ⟨ret', actorErr', gasUsed, hnonneg, hle, hse⟩
      · refine Or.inl ⟨?_, hend⟩
        show SameBelow st (finishMessage vm msg gasHolder ret actorErr w).1
        rw [htr]
        exact hrun.below
      · exact Or.inr ⟨rt, w, ret', actorErr', gasUsed, hrun, rfl, hnonneg, hle, hse⟩
    all_goals
      obtain rfl := h
      exact Or.inl ⟨hrun.below, trivial⟩
  · rw [hm] at h hrd
    obtain rfl := h
    exact Or.inl ⟨hrd.sameBelow, trivial⟩
  rw [hm] at h hrd
  obtain rfl := h
  exact Or.inl ⟨hrd.sameBelow, trivial⟩

/-! ## Failed messages -/

theorem revert_open (h : SameBelow st.snapshot st') :
    SameBelow st.snapshot st'.revert ∧ st'.revert.view = st.snapshot.view ∧
      st'.revert.lookupVal = st.snapshot.lookupVal := by
  have hla : st'.revert.layers = st.snapshot.layers := by
    rw [layers_revert, show st'.layers.tail = st.layers from h.below]
    rfl
  refine ⟨⟨h.root, by rw [hla], by rw [hla]⟩, ?_, ?_⟩
  · show viewOf st'.root st'.revert.layers = viewOf st.root st.snapshot.layers
    rw [hla, show st'.root = st.root from h.root]
  · show lookupOf st'.root st'.revert.layers = lookupOf st.root st.snapshot.layers
    rw [hla, show st'.root = st.root from h.root]

theorem credits_revert (h : SameBelow st.snapshot st') : Credits (fun _ => 0) (fun _ => 0) st.snapshot st'.revert := by
  obtain ⟨hb, hv, hlk⟩ := revert_open h
  refine ⟨hb, hlk, fun a => ?_⟩
  rw [hv]
  cases st.snapshot.view a with
  | none => rfl
  | some act => rw [map_some, credited_zero]

theorem Credits.clearSnapshot (h : Credits δ ν st.snapshot st') (hne : st.layers ≠ []) : Credits δ ν st st'.clearSnapshot := by
  obtain ⟨hv, hlk⟩ := h.below.clearSnapshot_reads hne
  refine ⟨h.below.clearSnapshot, ?_, fun a => ?_⟩
  · rw [hlk, h.lookup, lookupVal_snapshot]
  · rw [hv, h.view, view_snapshot]

theorem incrementNonce_ok (hne : st.layers ≠ []) (h : incrementNonce st addr = (st', .ok ())) :
    ∃ i, st.lookupVal addr = .ok i ∧ Credits (only i 0) (only i 1) st st' := by
  obtain ⟨i, act, act', st1, hlk, hv, hf, hrd, rfl⟩ := mutateActor_ok h
  cases hf
  have hcr := credits_write hne hrd hv 0 1
  rw [credited, Int.add_zero] at hcr
  exact ⟨i, hlk, hcr⟩

theorem senderCheck_reads (msg : Message) (chainLength : Nat) (st : StateTree) :
    SameReads st (senderCheck vm msg chainLength st).1 := by
  have hrd := (getActor_spec st msg.fromAddr).2
  fun_cases senderCheck with
  | case1 => exact .refl st
  | _ => simp_all

theorem applyMessage_passed (h : applyMessage vm fuel msg chainLength st = out)
    (hch : (senderCheck vm msg chainLength st).2 = .ok none) :
    (∃ e, checkMessage msg = .error e ∧ out = ⟨st, false, [], .goError e⟩) ∨
      0 < msg.gasLimit ∧ payAndExecute vm fuel msg chainLength (senderCheck vm msg chainLength st).1 = out := by
  unfold applyMessage at h
  rcases hmsg : checkMessage msg with e | u
  · rw [hmsg] at h
    exact Or.inl ⟨e, rfl, h.symm⟩
  rw [hmsg] at h
  refine Or.inr ⟨?_, ?_⟩
  · unfold checkMessage at hmsg
    split at hmsg
    · cases hmsg
    split at hmsg
    · cases hmsg
    · omega
  generalize senderCheck vm msg chainLength st = r at h hch ⊢
  obtain ⟨st1, o⟩ := r
  obtain rfl : o = .ok none := hch
  exact h

theorem payAndExecute_receipt (hne : st.layers ≠ []) (h : payAndExecute vm fuel msg chainLength st = out)
    (hr : out.result = .receipt r) :
    ∃ sender act st1 out', st.lookupVal msg.fromAddr = .ok sender ∧ st.view sender = some act ∧
      gasCost msg ≤ act.balance ∧
      Credits (only sender (-gasCost msg)) (only sender 1) st st1 ∧
      executeMessage vm fuel msg chainLength (depositFunds newGasHolder (gasCost msg)) st1.snapshot = out' ∧
      out = { out' with tree := out'.tree.clearSnapshot } := by
  revert h
  fun_cases payAndExecute with
  | case3 st1 gasHolder hpa st2 hn _ _ _ _ hex =>
    intro h
    obtain ⟨rfl, sender, act, hsn, hv, hle, hcr⟩ := transferToGasHolder_ok hne hpa
    obtain ⟨i, hi, hc'⟩ := incrementNonce_ok (hcr.below.layers_ne hne) hn
    rw [hcr.lookup, hsn] at hi
    cases hi
    have hb := hcr.trans hc'
    refine ⟨sender, act, st2, _, hsn, hv, hle, ⟨hb.below, hb.lookup, fun a => ?_⟩, hex, h.symm⟩
    rw [hb.view]
    congr 1
    funext act'
    unfold only
    congr 1
    · split <;> omega
    · split <;> rfl
  | _ =>
    rintro rfl
    cases hr

theorem applyMessage_credits (hne : st.layers ≠ []) (h : applyMessage vm fuel msg chainLength st = out)
    (hch : (senderCheck vm msg chainLength st).2 = .ok none) (hr : out.result = .receipt r)
    (hfa : r.exitCode ≠ 0) : ∃ sender, st.lookupVal msg.fromAddr = .ok sender ∧
      Credits (feeChange (gasCost msg) r.gasCosts sender) (only sender 1) st out.tree := by
  rcases applyMessage_passed vm h hch with ⟨e, -, rfl⟩ | ⟨hli, hpa⟩
  · cases hr
  have hrd := senderCheck_reads vm msg chainLength st
  have hne1 := hrd.sameBelow.layers_ne hne
  obtain ⟨sender, act, st2, out', hsn, -, -, hcr, hexec, rfl⟩ :=
    payAndExecute_receipt vm hne1 hpa hr
  have hne2 := hcr.below.layers_ne hne1
  rw [hrd.lookup] at hsn
  refine ⟨sender, hsn, ?_⟩
  rcases executeMessage_cases vm (by omega) hexec with ⟨-, hend⟩ | ⟨rt, w, ret, actorErr, gasUsed, hrun, -, -, -, hse⟩
  · rw [show out'.result = .receipt r from hr] at hend
    cases hend
  rw [show out'.result = .receipt r from hr] at hse
  obtain ⟨burn, st3, hco, -, hrd3, hpay⟩ := settle_receipt vm hse.symm
  -- the exit code is that of the error, so the tree was reverted
  rw [if_pos (hco ▸ hfa)] at hrd3
  have hre := (credits_revert hrun.below).trans (credits_reads hrd3)
  have hs3 : st3.lookupVal msg.fromAddr = .ok sender := by
    rw [hre.lookup, lookupVal_snapshot, hcr.lookup, hrd.lookup]
    exact hsn
  have hpa := payGas_ok (hre.below.layers_ne (cons_ne_nil _ _)) hs3 hpay
  have hla := (hre.trans hpa).clearSnapshot hne2
  have ha := ((credits_reads hrd).trans hcr).trans hla
  refine ⟨ha.below, ha.lookup, fun a => ?_⟩
  rw [ha.view]
  congr 1
  funext act'
  unfold only feeChange
  congr 1
  · split <;> split <;> split <;> omega
  · split <;> rfl

theorem Credits.getActor (h : Credits δ ν st st') (addr i : Address) (hi : st.lookupVal addr = .ok i) :
    (st'.getActor addr).2 = (st.getActor addr).2.map fun act => credited act (δ i) (ν i) := by
  rw [(getActor_spec st' addr).1, (getActor_spec st addr).1]
  unfold actorVal actorOf
  split
  · rfl
  rw [h.lookup, hi]
  dsimp only
  rw [h.view]
  cases st.view i with
  | none => rfl
  | some act => rfl

theorem Credits.getActor_unresolved (h : Credits δ ν st st') (addr : Address) {e : GoError}
    (he : st.lookupVal addr = .error e) : (st'.getActor addr).2 = (st.getActor addr).2 := by
  rw [(getActor_spec st' addr).1, (getActor_spec st addr).1]
  unfold actorVal actorOf
  split
  · rfl
  · rw [h.lookup, he]

/-! ## Sends -/

omit [InitLib] in
theorem internalSend_val {vmSend : Message → Vm (Bytes × Option ActorError × UInt64)} {src dst : Address}
    {err : Option ActorError} (h : internalSend vmSend src dst method value params w = (w', .val (ret, err))) :
    ∃ w2 created,
      vmSend ⟨src, dst, 0, value, w.rt.gasAvailable, 0, 0, method, params⟩
        { w with tree := w.tree.snapshot } = (w2, .val (ret, err, created)) ∧
      w'.tree = (if err.isSome then w2.tree.revert else w2.tree).clearSnapshot := by
  revert h
  fun_cases internalSend with
  | case1 w2 ret' err' created hse =>
    rintro ⟨⟩
    exact ⟨w2, created, hse, rfl⟩
  | _ => exact nofun

variable {code : ExitCode}

theorem runtimeSend_val (h : runtimeSend vm fuel toAddr method value params w = (w', .val (code, ret))) :
    ∃ self w2 ret2 err created,
      callFrame vm (sendFrame vm fuel)
        ⟨self, toAddr, 0, value, w.rt.gasAvailable, 0, 0, method, params⟩
        { w with tree := w.tree.snapshot } = (w2, .val (ret2, err, created)) ∧
      SameBelow w.tree.snapshot w2.tree ∧
      (err = none ∧ code = 0 ∧ ret2 = ret ∧ w'.tree = w2.tree.clearSnapshot ∨
        err ≠ none ∧ code ≠ 0 ∧ w'.tree = w2.tree.revert.clearSnapshot) := by
  obtain ⟨w0, w0', hg, ha⟩ := Eff.bind_eq_val h
  cases hg
  split at ha
  · cases ha
  obtain ⟨self, w1, hre, hb⟩ := Eff.bind_eq_val ha
  obtain ⟨rfl, -⟩ := receiver_val vm hre
  obtain ⟨⟨ret2, err⟩, w3, hse, hret⟩ := Eff.bind_eq_val hb
  obtain ⟨w2, created, hca, htr⟩ := internalSend_val hse
  obtain ⟨rt, w4, -, -, hrun, hfr⟩ := callFrame_spec vm (keeps_sendFrame vm fuel)
    ⟨self, toAddr, 0, value, w1.rt.gasAvailable, 0, 0, method, params⟩
    { w1 with tree := w1.tree.snapshot } rfl
  rw [hca] at hfr
  have hbe : SameBelow w1.tree.snapshot w2.tree := by
    have ht2 : w2.tree = w4.tree := by
      rw [show w2 = _ from hfr]
    rw [ht2]
    exact hrun.below
  refine ⟨self, w2, ret2, err, created, hca, hbe, ?_⟩
  rcases err with _ | e
  · cases hret
    exact Or.inl ⟨rfl, rfl, rfl, htr⟩
  dsimp only at hret
  split at hret
  · cases hret
  rename_i hfa
  cases hret
  exact Or.inr ⟨some_ne_none e, e.code_ne (Bool.eq_false_iff.mpr hfa), htr⟩

/-- What a `Send` may leave: every actor as it was if it failed, else as the callee left it. -/
def SendLeaves (fuel : Nat) (toAddr : Address) (method : Nat) (value : Int) (params ret : Bytes)
    (code : ExitCode) (w w' : World) : Prop :=
  w'.tree.layers.length = w.tree.layers.length ∧
    (code ≠ 0 → ∀ a, (w'.tree.getActor a).2 = (w.tree.getActor a).2) ∧
    (code = 0 → ∃ self w2 created,
      callFrame vm (sendFrame vm fuel) ⟨self, toAddr, 0, value, w.rt.gasAvailable, 0, 0, method, params⟩
        { w with tree := w.tree.snapshot } = (w2, .val (ret, none, created)) ∧
      ∀ a, (w'.tree.getActor a).2 = (w2.tree.getActor a).2)

theorem sendLeaves (hne : w.tree.layers ≠ [])
    (h : runtimeSend vm fuel toAddr method value params w = (w', .val (code, ret))) :
    SendLeaves vm fuel toAddr method value params ret code w w' := by
  obtain ⟨self, w2, ret2, err, created, hca, hb, ⟨rfl, rfl, rfl, htr⟩ | ⟨-, hco, htr⟩⟩ :=
    runtimeSend_val vm h
  · obtain ⟨hv, hlk⟩ := hb.clearSnapshot_reads hne
    refine ⟨?_, fun h => absurd rfl h, fun _ => ⟨self, w2, created, hca, fun a => ?_⟩⟩
    · rw [htr]
      exact hb.clearSnapshot.length
    · rw [(getActor_spec _ a).1, (getActor_spec _ a).1, actorVal, actorVal, htr, hv, hlk]
  obtain ⟨hv, hlk⟩ := hb.revert_reads
  refine ⟨?_, fun _ a => ?_, fun h => absurd h hco⟩
  · rw [htr]
    exact hb.revert.length
  · rw [(getActor_spec _ a).1, (getActor_spec _ a).1, actorVal, actorVal, htr, hv, hlk]

/-! ## The whole message -/

/-- Between `st` and `st'` only the nonce of the sender and the fees have changed. -/
def OnlyFees (msg : Message) (out : GasOutputs) (st st' : StateTree) : Prop :=
  ∃ sender, (st.lookupID msg.fromAddr).2 = .ok sender ∧
    (∀ addr, (∀ i ∈ [sender, burntFundsActorAddr, rewardAddress], (st.lookupID addr).2 ≠ .ok i) →
      (st'.getActor addr).2 = (st.getActor addr).2) ∧
    ∀ addr, ∀ i ∈ [sender, burntFundsActorAddr, rewardAddress], (st.lookupID addr).2 = .ok i →
      (st'.getActor addr).2 = (st.getActor addr).2.map fun act =>
        { act with
          balance := act.balance + feeChange (gasCost msg) out sender i
          nonce := if i = sender then act.nonce + 1 else act.nonce }

theorem Credits.onlyFees {out : GasOutputs} (hsn : st.lookupVal msg.fromAddr = .ok sender)
    (h : Credits (feeChange (gasCost msg) out sender) (only sender 1) st st') : OnlyFees msg out st st' := by
  refine ⟨sender, (lookupID_spec st _).1.trans hsn, fun addr ho => ?_, fun addr i _ hi => ?_⟩
  · rcases hlk : st.lookupVal addr with e | i
    · exact h.getActor_unresolved addr hlk
    have hi : i ∉ [sender, burntFundsActorAddr, rewardAddress] := by
      intro hmem
      exact ho i hmem ((lookupID_spec st addr).1.trans hlk)
    rw [mem_cons, mem_cons, mem_singleton, not_or, not_or] at hi
    obtain ⟨hs, hb, hr⟩ := hi
    rw [h.getActor addr i hlk, feeChange, if_neg hs, if_neg hb, if_neg hr, only, if_neg hs]
    rcases (st.getActor addr).2 with e | act
    · rfl
    show Except.ok (credited act 0 0) = Except.ok act
    rw [credited_zero]
  rw [h.getActor addr i ((lookupID_spec st addr).1.symm.trans hi)]
  congr 1
  funext act
  unfold credited only
  by_cases hs : i = sender
  · rw [if_pos hs, if_pos hs]
  · rw [if_neg hs, if_neg hs, UInt64.add_zero]

theorem payAndExecute_length (fuel : Nat) (hli : 0 ≤ msg.gasLimit) (chainLength : Nat) (st : StateTree) :
    (payAndExecute vm fuel msg chainLength st).tree.layers.length = st.layers.length := by
  have hpa := transferToGasHolder_below st msg.fromAddr newGasHolder (gasCost msg)
  unfold payAndExecute
  generalize transferToGasHolder st msg.fromAddr newGasHolder (gasCost msg) = r at hpa ⊢
  obtain ⟨st1, e | gasHolder⟩ := r
  · exact hpa.length
  have hn := hpa.trans (mutateActor_below st1 msg.fromAddr (fun a => .ok { a with nonce := a.nonce + 1 }))
  dsimp only [incrementNonce]
  generalize st1.mutateActor msg.fromAddr (fun a => .ok { a with nonce := a.nonce + 1 }) = r at hn ⊢
  obtain ⟨st2, e | u⟩ := r
  · exact hn.length
  refine Eq.trans ?_ hn.length
  have hb : SameBelow st2.snapshot (executeMessage vm fuel msg chainLength gasHolder st2.snapshot).tree := by
    rcases executeMessage_cases vm hli (Eq.refl (executeMessage vm fuel msg chainLength gasHolder
      st2.snapshot)) with ⟨hb, -⟩ | ⟨rt, w, ret, actorErr, gasUsed, hrun, -, -, -, hse⟩
    · exact hb
    have hleft : SameBelow st2.snapshot (if retCode actorErr ≠ 0 then w.tree.revert else w.tree) := by
      split
      · exact (credits_revert hrun.below).below
      · exact hrun.below
    have hend := hleft.trans (settle_below vm msg gasHolder ret actorErr gasUsed _)
    rw [← hse] at hend
    exact hend
  exact hb.clearSnapshot.length

section
variable (fuel : Nat) (msg : Message) (chainLength : Nat) (st : StateTree)

theorem applyMessage_length :
    (applyMessage vm fuel msg chainLength st).tree.layers.length = st.layers.length := by
  have hrd := (senderCheck_reads vm msg chainLength st).length
  by_cases hch : (senderCheck vm msg chainLength st).2 = .ok none
  · rcases applyMessage_passed vm rfl hch with ⟨e, -, ho⟩ | ⟨hli, ho⟩
    · rw [ho]
    · rw [← ho, payAndExecute_length vm fuel (by omega), hrd]
  unfold applyMessage
  rcases checkMessage msg with e | u
  · rfl
  generalize senderCheck vm msg chainLength st = r at hrd hch ⊢
  match r with
  | (st1, .error e) => exact hrd
  | (st1, .ok (some early)) => exact hrd
  | (st1, .ok none) => exact absurd rfl hch

/-- **A failed message changes nothing but nonce and fees**, whatever the code does; a failed `Send` at any depth leaves
every actor as it was, and the snapshots are as many as before. -/
theorem failed_message_only_fees
    (hbase : st.layers ≠ []) :
    (applyMessage vm fuel msg chainLength st).tree.layers.length = st.layers.length ∧
    (∀ r, (senderCheck vm msg chainLength st).2 = .ok none →
      (applyMessage vm fuel msg chainLength st).result = .receipt r → r.exitCode ≠ 0 →
      OnlyFees msg r.gasCosts st (applyMessage vm fuel msg chainLength st).tree) ∧
    ∀ depth toAddr method value params ret code w w', w.tree.layers ≠ [] →
      runtimeSend vm depth toAddr method value params w = (w', .val (code, ret)) →
      SendLeaves vm depth toAddr method value params ret code w w' := by
  refine ⟨applyMessage_length vm fuel msg chainLength st, fun r hch hr hfa => ?_, ?_⟩
  · obtain ⟨sender, hsn, hcr⟩ := applyMessage_credits vm hbase rfl hch hr hfa
    exact hcr.onlyFees hsn
  · intro depth toAddr method value params ret code w w' hne h
    exact sendLeaves vm hne h
end
end

@[reducible] def emptyInit : InitLib where
  InitState := Unit
  load _ _ := .ok ()
  resolveAddress _ _ := .ok none
  mapAddressToNewID _ _ := .error (.errorf "not supported")
  put _ := .ok ⟨[]⟩

/-- Code 2 sends 5 to actor 102 and aborts with what it gets back, plus 20; code 3 keeps the funds it
was sent and aborts with 17. -/
def relayCode (code : Cid) : Except ActorError Code :=
  if code = ⟨[2]⟩ then
    .ok (.validateImmediateCallerAcceptAny (.send (.id 102) 1 5 [] fun exit _ => .abortf (20 + exit) "relayed"))
  else if code = ⟨[3]⟩ then .ok (.validateImmediateCallerAcceptAny (.abortf 17 "refused"))
  else .error (.newf ExitCode.sysErrorIllegalActor "no code for actor")

def relayVM : LegacyVM where
  networkVersion := 15
  pastClaus := true
  baseFee := 2
  pricelist := ⟨fun _ => 1, fun _ => 1, fun _ _ => 1, 1, 1⟩
  areg := ⟨fun code _ _ => relayCode code, fun _ => .ok ()⟩
  accountCode := .ok (some ⟨[1]⟩)
  serializeParams _ := .ok []
  emptyObjectCid := ⟨[]⟩
  zeroAddress := .bls []
  isAccountActor code := code = ⟨[1]⟩
  isStorageMinerActor _ := false
  codeOfName _ := none
  circSupply _ := .ok 0
  actorAddress _ _ _ _ := some (.actor [])

def relayTree : StateTree where
  root := [⟨.id 2, ⟨⟨[4]⟩, ⟨[]⟩, 0, 0⟩⟩, ⟨.id 99, ⟨⟨[1]⟩, ⟨[]⟩, 0, 0⟩⟩,
    ⟨.id 100, ⟨⟨[1]⟩, ⟨[]⟩, 3, 1000⟩⟩, ⟨.id 101, ⟨⟨[2]⟩, ⟨[]⟩, 0, 50⟩⟩,
    ⟨.id 102, ⟨⟨[3]⟩, ⟨[]⟩, 0, 0⟩⟩].toAList
  version := 4
  info := ⟨[]⟩
  snaps := StateSnaps.newStateSnaps

def relayMessage : Message := ⟨.id 100, .id 101, 3, 7, 10, 3, 1, 1, []⟩

def relayReceipt : ApplyRet :=
  ⟨37, [], 3, some (.newf 37 "relayed"), ⟨6, 14, 0, 10, 0, 0, 7⟩⟩

def relayWorld : World where
  tree := relayTree
  idReused := false
  created := []
  rt := ⟨.id 100, .id 101, 7, .id 100, 3, 10, 2, 0, 0, true, true⟩

theorem relay_fails_only_fees :
    let _ := emptyInit
    (applyMessage relayVM 3 relayMessage 0 relayTree).result = .receipt relayReceipt ∧
      OnlyFees relayMessage relayReceipt.gasCosts relayTree (applyMessage relayVM 3 relayMessage 0 relayTree).tree ∧
      SendLeaves relayVM 2 (.id 102) 1 5 [] [] 17 relayWorld (runtimeSend relayVM 2 (.id 102) 1 5 [] relayWorld).1 := by
  intro _
  have hre : (applyMessage relayVM 3 relayMessage 0 relayTree).result = .receipt relayReceipt := by
    decide +kernel
  have hse : (runtimeSend relayVM 2 (.id 102) 1 5 [] relayWorld).2 = .val (17, []) := by
    decide +kernel
  obtain ⟨-, hm, hsen⟩ :=
    failed_message_only_fees relayVM 3 relayMessage 0 relayTree (cons_ne_nil _ _)
  refine ⟨hre, hm relayReceipt (by decide +kernel) hre (by decide), ?_⟩
  exact hsen 2 (.id 102) 1 5 [] [] 17 relayWorld _ (cons_ne_nil _ _) (Prod.ext rfl hse)

end Lotus.VM

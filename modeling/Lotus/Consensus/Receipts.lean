/-
# The receipts of a tipset stand in the order of its messages.

A receipt is looked up by the index of its message in `MessagesForTipset`, so `ApplyBlocks` may leave none out: the messages
selected for a sender have different nonces. That these start at the actor's nonce follows from the check that each block
passes alone. Before the hyperdrive upgrade both go by the address as written, so each address has its own nonces.
-/
import Lotus.State.Refine
import Lotus.Store.Messages

namespace Lotus.Consensus
open Exchange Lib.Sequence State Store List BlockMessages AList Option

/-! ## `ApplyBlocks` -/

structure MessageReceipt where
  exitCode : Int
  ret : Bytes
  gasUsed : Int
  deriving DecidableEq

/-- The fields of `vm.ApplyRet` that `ApplyBlocks` reads. -/
structure ApplyRet where
  receipt : MessageReceipt
  minerTip : Int
  minerPenalty : Int
  deriving DecidableEq

structure FilecoinBlockMessages extends BlockMessages where
  winCount : Int

/-- What `ApplyBlocks` calls: the VM, the callback, and the two kinds of implicit messages. -/
structure Executor (σ : Type) where
  applyMessage : σ → ChainMsg → Except GoError (σ × ApplyRet)
  messageApplied : ChainMsg → ApplyRet → Option GoError
  awardBlockReward : σ → (miner : Address) → (penalty gasReward winCount : Int) → Except GoError σ
  runCron : σ → Except GoError σ

/-- The variables of the loops of `ApplyBlocks`; each receipt with its message. -/
structure Applying (σ : Type) where
  state : σ
  receipts : List (ChainMsg × ApplyRet)
  processedMsgs : List Cid
  penalty : Int
  gasReward : Int

section
variable {σ : Type} (vmi : Executor σ)

/-- The inner loop of `ApplyBlocks`, for one message. -/
def applyMsg (a : Applying σ) (cm : ChainMsg) : Except GoError (Applying σ) :=
  if cm.vmMessage.cid ∈ a.processedMsgs then .ok a
  else
    match vmi.applyMessage a.state cm with
    | .error e => .error e
    | .ok (state, r) =>
      match vmi.messageApplied cm r with
      | some e => .error e
      | none => .ok
        { state := state
          receipts := a.receipts ++ [(cm, r)]
          processedMsgs := cm.vmMessage.cid :: a.processedMsgs
          penalty := a.penalty + r.minerPenalty
          gasReward := a.gasReward + r.minerTip }

/-- The inner loop of `ApplyBlocks`. -/
def applyMsgs : List ChainMsg → Applying σ → Except GoError (Applying σ)
  | [], a => .ok a
  | cm :: msgs, a =>
    match applyMsg vmi a cm with
    | .error e => .error e
    | .ok a => applyMsgs msgs a

def applyBlockLoop : List FilecoinBlockMessages → Applying σ → Except GoError (Applying σ)
  | [], a => .ok a
  | b :: bms, a =>
    match applyMsgs vmi b.all { a with penalty := 0, gasReward := 0 } with
    | .error e => .error e
    | .ok a =>
      match vmi.awardBlockReward a.state b.miner a.penalty a.gasReward b.winCount with
      | .error e => .error (.wrap "failed to apply reward message for miner" e)
      | .ok state => applyBlockLoop bms { a with state := state }

/-- `ApplyBlocks`, from the VM after the null rounds to the receipts it stores. -/
def applyBlocks (bms : List FilecoinBlockMessages) (state : σ) : Except GoError (σ × List (ChainMsg × ApplyRet)) :=
  match applyBlockLoop vmi bms ⟨state, [], [], 0, 0⟩ with
  | .error e => .error e
  | .ok a =>
    match vmi.runCron a.state with
    | .error e => .error e
    | .ok state => .ok (state, a.receipts)

variable {vmi}
variable {a a' : Applying σ}

theorem applyMsg_receipts {cm : ChainMsg} (h : applyMsg vmi a cm = .ok a') (hnew : cm.vmMessage.cid ∉ a.processedMsgs) :
    a'.receipts.map (·.1) = a.receipts.map (·.1) ++ [cm] ∧ a'.processedMsgs = cm.vmMessage.cid :: a.processedMsgs := by
  unfold applyMsg at h
  rw [if_neg hnew] at h
  split at h
  · simp at h
  split at h
  · simp at h
  · cases h
    simp

theorem applyMsgs_receipts {msgs : List ChainMsg} (h : applyMsgs vmi msgs a = .ok a')
    (hn : (msgs.map (·.vmMessage.cid)).Nodup) (hnew : ∀ cm ∈ msgs, cm.vmMessage.cid ∉ a.processedMsgs) :
    a'.receipts.map (·.1) = a.receipts.map (·.1) ++ msgs ∧
      ∀ c, c ∈ a'.processedMsgs ↔ c ∈ msgs.map (·.vmMessage.cid) ∨ c ∈ a.processedMsgs := by
  induction msgs generalizing a with
  | nil =>
    cases h
    simp
  | cons cm msgs ih =>
    rw [map_cons, nodup_cons] at hn
    rw [forall_mem_cons] at hnew
    rw [applyMsgs] at h
    split at h
    · simp at h
    rename_i a1 ho
    obtain ⟨hre, hpr⟩ := applyMsg_receipts ho hnew.1
    have hnew1 : ∀ cm' ∈ msgs, cm'.vmMessage.cid ∉ a1.processedMsgs := by
      intro cm' hcm'
      rw [hpr, mem_cons, not_or]
      refine ⟨fun heq => hn.1 ?_, hnew.2 cm' hcm'⟩
      exact heq ▸ mem_map_of_mem hcm'
    obtain ⟨hrest, hmem⟩ := ih h hn.2 hnew1
    refine ⟨by rw [hrest, hre, append_assoc]; rfl, fun c => ?_⟩
    rw [hmem, hpr, mem_cons, map_cons, mem_cons]
    tauto

variable {bms : List FilecoinBlockMessages}

theorem applyBlockLoop_receipts (h : applyBlockLoop vmi bms a = .ok a')
    (hnodup : ((bms.flatMap (·.all)).map (·.vmMessage.cid)).Nodup)
    (hnew : ∀ cm ∈ bms.flatMap (·.all), cm.vmMessage.cid ∉ a.processedMsgs) :
    a'.receipts.map (·.1) = a.receipts.map (·.1) ++ bms.flatMap (·.all) := by
  fun_induction applyBlockLoop with
  | case1 =>
    cases h
    simp
  | case4 b bms a a1 ho state _ ih =>
    rw [flatMap_cons] at hnodup hnew ⊢
    rw [map_append, nodup_append] at hnodup
    rw [forall_mem_append] at hnew
    obtain ⟨hno, hn, hd⟩ := hnodup
    obtain ⟨hre, hmem⟩ := applyMsgs_receipts ho hno hnew.1
    rw [ih h hn, hre, append_assoc]
    intro cm hcm
    show cm.vmMessage.cid ∉ a1.processedMsgs
    rw [hmem, not_or]
    refine ⟨fun hin => ?_, hnew.2 cm hcm⟩
    exact hd _ hin _ (mem_map_of_mem hcm) rfl
  | _ => cases h

theorem applyBlocks_receipts {state state' : σ} {receipts : List (ChainMsg × ApplyRet)}
    (h : applyBlocks vmi bms state = .ok (state', receipts))
    (hn : ((bms.flatMap (·.all)).map (·.vmMessage.cid)).Nodup) : receipts.map (·.1) = bms.flatMap (·.all) := by
  revert h
  fun_cases applyBlocks with
  | case3 a hlo =>
    rintro ⟨⟩
    simpa using applyBlockLoop_receipts hlo hn (by simp)
  | _ => exact nofun
end

/-! ## The nonces of a block -/

section
variable [InitLib] (isAccountActor : Cid → Bool) (resolve : Bool)

section
variable (st : StateTree) (nonces : GoMap Address UInt64)

/-- What `checkMsg` knows of the sender: the map, with the actor's nonce for a new one. -/
def senderNonce (sender : Address) :
    Except GoError (StateTree × GoMap Address UInt64) :=
  if nonces.lookup sender = none then
    match st.getActor sender with
    | (_, .error e) => .error (.wrap "failed to get actor" e)
    | (st, .ok act) =>
      if isAccountActor act.code then .ok (st, nonces.insert sender act.nonce)
      else .error (.errorf "Sender must be an account actor")
  else .ok (st, nonces)

/-- The closure `checkMsg` of `checkBlockMessages`, without the syntactic part. -/
def checkMsg (m : Message) :
    Except GoError (StateTree × GoMap Address UInt64) :=
  match senderKey resolve st m with
  | (_, .error e) => .error (.wrap "failed to lookup sender" e)
  | (st, .ok sender) =>
    match senderNonce isAccountActor st nonces sender with
    | .error e => .error e
    | .ok (st, nonces) =>
      if nonces.lookup sender = some m.nonce then .ok (st, nonces.insert sender (m.nonce + 1))
      else .error (.errorf "wrong nonce")
end

def checkMsgs : List ChainMsg → StateTree → GoMap Address UInt64 → Except GoError Unit
  | [], _, _ => .ok ()
  | cm :: msgs, st, nonces =>
    match checkMsg isAccountActor resolve st nonces cm.vmMessage with
    | .error e => .error e
    | .ok (st, nonces) => checkMsgs msgs st nonces

variable {isAccountActor resolve}
variable {st : StateTree} {nonces : GoMap Address UInt64}

theorem senderNonce_ok {st' : StateTree} {nonces' : GoMap Address UInt64} {sender : Address}
    (h : senderNonce isAccountActor st nonces sender = .ok (st', nonces')) :
    st.SameReads st' ∧ (∀ k ≠ sender, nonces'.lookup k = nonces.lookup k) ∧
      (nonces.lookup sender = none → ∃ act, st.actorVal sender = .ok act ∧ nonces'.lookup sender = some act.nonce) := by
  obtain ⟨hv, hrd⟩ := st.getActor_spec sender
  revert h
  fun_cases senderNonce with
  | case2 _ st1 act heq =>
    rintro ⟨⟩
    rw [heq] at hv hrd
    exact ⟨hrd, fun k hk => lookup_insert_ne hk, fun _ => ⟨act, hv.symm, by simp⟩⟩
  | case4 hkn =>
    rintro ⟨⟩
    exact ⟨.refl st, fun _ _ => rfl, fun hn => absurd hn hkn⟩
  | _ => exact nofun

variable {msgs : List ChainMsg} {k : Address} {cm : ChainMsg}

theorem checkMsgs_first (h : checkMsgs isAccountActor resolve msgs st nonces = .ok ()) (hnew : nonces.lookup k = none)
    (hfi : msgs.find? (fun cm => senderOf resolve st cm.vmMessage = k) = some cm) :
    ∃ act, st.actorVal k = .ok act ∧ cm.vmMessage.nonce = act.nonce := by
  fun_induction checkMsgs with
  | case1 => simp at hfi
  | case2 => cases h
  | case3 cm0 msgs st nonces st2 nonces2 ho ih =>
    revert ho
    fun_cases checkMsg with
    | case3 st1 sender hsk st1' nonces1 hn hexp =>
      rintro ⟨⟩
      obtain ⟨-, hsn, hrd⟩ := senderKey_ok hsk
      obtain ⟨hrd1, hoth, hfirst⟩ := senderNonce_ok hn
      by_cases hk : sender = k
      · subst hk
        obtain rfl : cm0 = cm := by
          rw [find?_cons_of_pos (by simp [hsn])] at hfi
          exact some.inj hfi
        obtain ⟨act, ha, hlk⟩ := hfirst hnew
        refine ⟨act, ?_, ?_⟩
        · rw [← hrd.actorVal]
          exact ha
        · exact some.inj (hexp.symm.trans hlk)
      have htr := hrd.trans hrd1
      have hof : senderOf resolve st2 = senderOf resolve st := by
        funext m
        unfold senderOf senderVal
        rw [htr.lookup]
      have hnew2 : (nonces1.insert sender (cm0.vmMessage.nonce + 1)).lookup k = none := by
        rw [lookup_insert_ne (Ne.symm hk), hoth k (Ne.symm hk), hnew]
      have hf2 : msgs.find? (fun cm => senderOf resolve st2 cm.vmMessage = k) = some cm := by
        rw [hof]
        rwa [find?_cons_of_neg (by simp [hsn, hk])] at hfi
      obtain ⟨act, ha, heq⟩ := ih h hnew2 hf2
      exact ⟨act, by rw [← htr.actorVal]; exact ha, heq⟩
    | _ => exact nofun

theorem checkMsgs_first_resolved {resolve' : Bool} (h : checkMsgs isAccountActor resolve msgs st ∅ = .ok ())
    (him : resolve = true → resolve' = true) (hids : ∀ a i, st.lookupVal a = .ok i → i.protocol = .id)
    (hfi : msgs.find? (fun cm => senderOf resolve' st cm.vmMessage = k) = some cm) :
    ∃ act, st.actorVal k = .ok act ∧ cm.vmMessage.nonce = act.nonce := by
  by_cases hsa : resolve' = resolve
  · subst hsa
    exact checkMsgs_first h (lookup_empty _) hfi
  obtain ⟨rfl, rfl⟩ : resolve = false ∧ resolve' = true := by
    rcases resolve with _ | _ <;> rcases resolve' with _ | _ <;> simp_all
  obtain ⟨hcm, l, l', rfl, hb⟩ := find?_eq_some_iff_append.mp hfi
  -- an earlier message under the same address has the same sender
  have hwt : (l ++ cm :: l').find? (fun c => senderOf false st c.vmMessage = cm.vmMessage.fromAddr) = some cm := by
    refine find?_eq_some_iff_append.mpr ⟨by simp [senderOf, senderVal, Except.toOption], l, l', rfl, ?_⟩
    intro c hc
    have ho := hb c hc
    simp only [Bool.not_eq_true', decide_eq_false_iff_not, decide_eq_true_eq] at ho hcm ⊢
    intro heq
    refine ho (Eq.trans ?_ hcm)
    have ha : c.vmMessage.fromAddr = cm.vmMessage.fromAddr := heq
    simp only [senderOf, senderVal, ha]
  obtain ⟨act, hac, hn⟩ := checkMsgs_first h (lookup_empty _) hwt
  obtain ⟨iaddr, hlk, hv⟩ := StateTree.actorVal_ok hac
  have hk : iaddr = k := by
    simpa [senderOf, senderVal, hlk, Except.toOption] using hcm
  subst hk
  have hid := hids _ _ hlk
  refine ⟨act, ?_, hn⟩
  unfold StateTree.actorVal actorOf
  rw [if_neg (by rintro rfl; simp [Address.protocol] at hid), st.lookupVal_id hid]
  simp only [hv]
end

/-! ## A tipset -/

section
variable [InitLib] (isAccountActor : Cid → Bool) (upgradeHyperdriveHeight : Int) (cs : ServerStore)
  (loadStateTree : BlockHeader → Except GoError StateTree)

/-- What `checkBlockMessages` checks of senders and nonces; the version is 13 after the upgrade. -/
def checkBlockMessages (b : BlockHeader) (st : StateTree) : Except GoError Unit :=
  checkMsgs isAccountActor (decide (b.height > upgradeHyperdriveHeight)) (blockContent cs b) st ∅

variable {isAccountActor upgradeHyperdriveHeight cs loadStateTree}
variable {resolve : Bool} {st : StateTree} {blks : List BlockHeader} {bms : List BlockMessages} {cm : ChainMsg}

section
variable (h : blockMsgsLoop resolve cs blks ⟨st, ∅⟩ = .ok bms)
include h

theorem selected_countsFrom {k : Address}
    (hfi : (blks.flatMap (blockContent cs)).find? (fun cm => senderOf resolve st cm.vmMessage = k) = some cm) :
    CountsFrom cm.vmMessage.nonce (((bms.flatMap all).filter
      fun cm => senderOf resolve st cm.vmMessage = k).map (·.vmMessage.nonce)) := by
  obtain ⟨s', ha⟩ := blockMsgsLoop_accepts h
  have ho := congrArg Prod.snd ha.accepted
  dsimp only at ho
  rw [ho]
  exact acceptAll_countsFrom (.inr ⟨lookup_empty k, cm, hfi, rfl⟩)

theorem selected_subset : bms.flatMap all ⊆ blks.flatMap (blockContent cs) := by
  obtain ⟨s', ha⟩ := blockMsgsLoop_accepts h
  have ho := congrArg Prod.snd ha.accepted
  dsimp only at ho
  rw [ho]
  exact acceptAll_subset _ _ _

theorem exists_first (hcm : cm ∈ bms.flatMap all) :
    ∃ first, (blks.flatMap (blockContent cs)).find?
      (fun c => senderOf resolve st c.vmMessage = senderOf resolve st cm.vmMessage) = some first :=
  isSome_iff_exists.mp (find?_isSome.mpr ⟨cm, selected_subset h hcm, by simp⟩)

theorem selected_nodup
    (hci : ∀ x ∈ blks.flatMap (blockContent cs), ∀ y ∈ blks.flatMap (blockContent cs), x.vmMessage.cid = y.vmMessage.cid → x.vmMessage = y.vmMessage)
    (hlen : (bms.flatMap all).length ≤ 2 ^ 64) :
    ((bms.flatMap all).map (·.vmMessage.cid)).Nodup := by
  have hn : ∀ k, (((bms.flatMap all).filter fun cm => senderOf resolve st cm.vmMessage = k).map (·.vmMessage.nonce)).Nodup := by
    intro k
    rcases hk : (bms.flatMap all).filter (fun cm => senderOf resolve st cm.vmMessage = k) with
      _ | ⟨cm, rest⟩
    · rw [hk]
      exact .nil
    obtain ⟨hcm, hsn⟩ := mem_filter.mp (hk ▸ mem_cons_self : cm ∈ _)
    obtain rfl : senderOf resolve st cm.vmMessage = k := of_decide_eq_true hsn
    obtain ⟨first, hfi⟩ := exists_first h hcm
    refine (selected_countsFrom h hfi).nodup ?_
    rw [length_map]
    exact (length_filter_le _ _).trans hlen
  refine pairwise_map.mpr ((pairwise_of_nodup hn).imp_of_mem ?_)
  intro x y hx hy hne heq
  have hm := hci x (selected_subset h hx) y (selected_subset h hy) heq
  exact hne ⟨by rw [hm], by rw [hm]⟩
end

/-- **Receipts line up with messages.** `ApplyBlocks` applies what `MessagesForTipset` lists, in order and nothing twice. The
nonces of a sender count up, from its actor's if every block passed its check. -/
theorem receipts_line_up (isAccountActor : Cid → Bool) (upgradeHyperdriveHeight : Int) (cs : ServerStore)
    (loadStateTree : BlockHeader → Except GoError StateTree) (ts : TipSet) (st : StateTree)
    (bms : List BlockMessages) (hload : loadStateTree ts.first = .ok st)
    (hheight : ∀ b ∈ ts.blks, b.height = ts.height)
    (hids : ∀ a i, st.lookupVal a = .ok i → i.protocol = .id)
    (hbms : blockMsgsForTipset upgradeHyperdriveHeight cs loadStateTree ts = .ok bms)
    (hcid : ∀ x ∈ ts.blks.flatMap (blockContent cs), ∀ y ∈ ts.blks.flatMap (blockContent cs),
      x.vmMessage.cid = y.vmMessage.cid → x.vmMessage = y.vmMessage)
    (hlen : (bms.flatMap all).length ≤ 2 ^ 64) :
    ∃ msgs, messagesForTipset upgradeHyperdriveHeight cs loadStateTree ts = .ok msgs ∧
      (∀ (σ : Type) (vmi : Executor σ) (fbms : List FilecoinBlockMessages) (state state' : σ)
        (receipts : List (ChainMsg × ApplyRet)), fbms.map (·.toBlockMessages) = bms →
        applyBlocks vmi fbms state = .ok (state', receipts) → receipts.map (·.1) = msgs) ∧
      (msgs.map (·.vmMessage.cid)).Nodup ∧
      ∀ cm ∈ msgs, ∃ nonce, CountsFrom nonce ((msgs.filter fun c =>
          senderOf (decide (ts.height ≥ upgradeHyperdriveHeight)) st c.vmMessage =
            senderOf (decide (ts.height ≥ upgradeHyperdriveHeight)) st cm.vmMessage).map (·.vmMessage.nonce)) ∧
        ((∀ b ∈ ts.blks, checkBlockMessages isAccountActor upgradeHyperdriveHeight cs b st = .ok ()) →
          ∃ act, st.actorVal (senderOf (decide (ts.height ≥ upgradeHyperdriveHeight)) st cm.vmMessage) = .ok act ∧
            nonce = act.nonce) := by
  have hlo : blockMsgsLoop (decide (ts.height ≥ upgradeHyperdriveHeight)) cs ts.blks ⟨st, ∅⟩ = .ok bms := by
    unfold blockMsgsForTipset at hbms
    rwa [hload] at hbms
  have hn := selected_nodup hlo hcid hlen
  refine ⟨bms.flatMap all, by simp only [messagesForTipset, hbms], ?_, hn, ?_⟩
  · intro σ vmi fbms state state' receipts hfb ha
    have hall : fbms.flatMap (fun b => b.all) = bms.flatMap all := by
      rw [← hfb, flatMap_map]
    rw [← hall]
    refine applyBlocks_receipts ha ?_
    rwa [hall]
  intro cm hcm
  obtain ⟨first, hfi⟩ := exists_first hlo hcm
  refine ⟨first.vmMessage.nonce, selected_countsFrom hlo hfi, fun hch => ?_⟩
  rw [find?_flatMap] at hfi
  obtain ⟨b, hb, hfin⟩ := exists_of_findSome?_eq_some hfi
  refine checkMsgs_first_resolved (hch b hb) (fun hla => ?_) hids hfin
  rw [decide_eq_true_eq, hheight b hb] at hla
  exact decide_eq_true (by omega)
end

/-! ## One actor under two addresses -/

section

@[reducible] def keyInit : InitLib where
  InitState := Unit
  load _ _ := .ok ()
  resolveAddress _ addr := .ok (if addr = .bls [7] then some (.id 100) else none)
  mapAddressToNewID _ _ := .error (.errorf "not supported")
  put _ := .ok ⟨[]⟩

def keyTree : StateTree :=
  .loaded ((singleton initAddress ⟨⟨[0]⟩, ⟨[]⟩, 0, 0⟩).insert (.id 100) ⟨⟨[1]⟩, ⟨[]⟩, 0, 50⟩) 4 ⟨[]⟩

def transfer (c : Byte) (fromAddr : Address) (nonce : UInt64) : Message :=
  ⟨⟨[c]⟩, fromAddr, nonce, 1, 10, 1, 1, 0, .id 0, 0, []⟩

def blsStore (msgs : List Message) : ServerStore where
  getBlock _ := .error (.errorf "not found")
  msgMeta _ := .ok (⟨[1]⟩, ⟨[2]⟩)
  readAMTCids c := .ok (if c = ⟨[1]⟩ then msgs.map (·.cid) else [])
  getMessage c := (msgs.find? fun m => m.cid = c).elim (.error (.errorf "not found")) .ok
  getSignedMessage _ := .error (.errorf "not found")

def tallyExecutor : Executor Nat where
  applyMessage n _ := .ok (n + 1, ⟨⟨0, [], 0⟩, 0, 0⟩)
  messageApplied _ _ := none
  awardBlockReward n _ _ _ _ := .ok n
  runCron n := .ok n

theorem receipts_line_up_two_addresses :
    let _ := keyInit
    let msgs := [ChainMsg.message (transfer 20 (.bls [7]) 0), .message (transfer 21 (.id 100) 1)]
    messagesForTipset 5 (blsStore (msgs.map (·.vmMessage))) (fun _ => .ok keyTree) (soloTipSet [9] 10 []) = .ok msgs ∧
      ∃ act, keyTree.actorVal (.id 100) = .ok act ∧ CountsFrom act.nonce (msgs.map (·.vmMessage.nonce)) := by
  intro _ msgs
  have hm : messagesForTipset 5 (blsStore (msgs.map (·.vmMessage))) (fun _ => .ok keyTree)
      (soloTipSet [9] 10 []) = .ok msgs := by decide +kernel
  have hids : ∀ a i, keyTree.lookupVal a = .ok i → i.protocol = .id := by
    intro a i hlk
    by_cases ha : a.protocol = .id
    · rw [keyTree.lookupVal_id ha] at hlk
      exact Except.ok.inj hlk ▸ ha
    rw [StateTree.lookupVal, lookupOf_uncached ha rfl] at hlk
    refine StateTree.resolveWith_id ?_ _ a i hlk
    intro s a iaddr hre
    have hkn : (if a = .bls [7] then some (Address.id 100) else none) = some iaddr := Except.ok.inj hre
    obtain ⟨-, hid⟩ := ite_none_right_eq_some.mp hkn
    exact some.inj hid ▸ rfl
  obtain ⟨msgs', hm', -, -, hse⟩ := receipts_line_up (fun c => c = ⟨[1]⟩) 5
    (blsStore (msgs.map (·.vmMessage))) (fun _ => .ok keyTree) (soloTipSet [9] 10 []) keyTree
    [⟨.id 0, msgs, []⟩] rfl (by decide) hids (by decide +kernel) (by decide +kernel) (by decide)
  obtain rfl : msgs = msgs' := Except.ok.inj (hm.symm.trans hm')
  obtain ⟨nonce, hco, hac⟩ := hse (.message (transfer 21 (.id 100) 1)) (by simp [msgs])
  obtain ⟨act, hact, rfl⟩ := hac (by decide +kernel)
  exact ⟨hm, act, hact, hco⟩

/-- **Nonces apart from the actor's**: 5 is applied at 0, and before the upgrade 0 twice. -/
theorem nonces_apart_from_actor :
    let _ := keyInit
    let gapped := [ChainMsg.message (transfer 20 (.id 100) 5)]
    let twice := [ChainMsg.message (transfer 20 (.bls [7]) 0), .message (transfer 21 (.id 100) 0)]
    let store (msgs : List ChainMsg) := blsStore (msgs.map (·.vmMessage))
    let applied (msgs : List ChainMsg) :=
      (applyBlocks tallyExecutor [⟨⟨.id 0, msgs, []⟩, 1⟩] 0).toOption.map fun r => r.2.map (·.1)
    keyTree.actorVal (.id 100) = .ok ⟨⟨[1]⟩, ⟨[]⟩, 0, 50⟩ ∧
    (messagesForTipset 5 (store gapped) (fun _ => .ok keyTree) (soloTipSet [9] 10 []) = .ok gapped ∧
      applied gapped = some gapped ∧ ¬ CountsFrom 0 (gapped.map (·.vmMessage.nonce))) ∧
    (keyTree.lookupVal (.bls [7]) = .ok (.id 100) ∧
      checkBlockMessages (fun c => c = ⟨[1]⟩) 20 (store twice) (soloTipSet [9] 10 []).first keyTree = .ok () ∧
      messagesForTipset 20 (store twice) (fun _ => .ok keyTree) (soloTipSet [9] 10 []) = .ok twice ∧
      applied twice = some twice ∧ ¬ CountsFrom 0 (twice.map (·.vmMessage.nonce))) := by
  decide +kernel
end
end Lotus.Consensus

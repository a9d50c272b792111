/-
# The addresses of new actors are unique in a message.

Every runtime has a counter, which a callee inherits and the caller copies back after the send, failed or not. Whenever code
runs, it is the number of addresses handed out so far (`created`), in all frames.
-/
import Lotus.VM.Frame

namespace Lotus.VM
open State Lib.Effect StateTree List Eff

/-! ## The log and the counter -/

section
variable (vm : LegacyVM) (origin : Address) (nonce : UInt64)

def Logged (l : List Address) : Prop :=
  ∀ i (hi : i < l.length), ∃ act, vm.actorAddress origin act nonce (UInt64.ofNat i) = some l[i]

/-- The hash of `NewActorAddress` is injective in the counter. -/
def CounterInjective : Prop :=
  ∀ origin nonce act act' c c' addr, vm.actorAddress origin act nonce c = some addr →
    vm.actorAddress origin act' nonce c' = some addr → c = c'

variable {vm origin nonce}

theorem Logged.nil : Logged vm origin nonce [] := fun _ hi => absurd hi (by simp)

theorem Logged.append {l : List Address} {act : Option Actor} {addr : Address} (h : Logged vm origin nonce l)
    (ha : vm.actorAddress origin act nonce (UInt64.ofNat l.length) = some addr) : Logged vm origin nonce (l ++ [addr]) := by
  intro i hi
  by_cases hlt : i < l.length
  · rw [getElem_append_left hlt]
    exact h i hlt
  obtain rfl : i = l.length := by
    simp only [length_append, length_singleton] at hi
    omega
  rw [getElem_concat_length rfl]
  exact ⟨act, ha⟩

theorem Logged.nodup {l : List Address} (h : Logged vm origin nonce l) (hinj : CounterInjective vm)
    (hlen : l.length ≤ 2 ^ 64) : l.Nodup := by
  rw [nodup_iff_injective_getElem]
  intro i j hij
  obtain ⟨act, hi⟩ := h i i.isLt
  obtain ⟨act', hj⟩ := h j j.isLt
  have hco : UInt64.ofNat i = UInt64.ofNat j := by
    refine hinj origin nonce act act' _ _ l[i] hi ?_
    rw [hj]
    exact congrArg some hij.symm
  have hn := congrArg UInt64.toNat hco
  rw [UInt64.toNat_ofNat', UInt64.toNat_ofNat'] at hn
  have hil := i.isLt
  have hjl := j.isLt
  rw [Nat.mod_eq_of_lt (by omega), Nat.mod_eq_of_lt (by omega)] at hn
  exact Fin.ext hn
end

section
variable [InitLib] (vm : LegacyVM)

structure Counted (origin : Address) (nonce : UInt64) (w : World) : Prop where
  sound : Sound w.tree
  caller : w.rt.caller.protocol = .id
  origin_eq : w.rt.origin = origin
  nonce_eq : w.rt.originNonce = nonce
  counter : w.rt.numActorsCreated = UInt64.ofNat w.created.length
  log : Logged vm origin nonce w.created

/-! ## Calls that hand out no address -/

structure Quiet (w w' : World) : Prop where
  created : w'.created = w.created
  caller : w'.rt.caller = w.rt.caller
  origin : w'.rt.origin = w.rt.origin
  nonce : w'.rt.originNonce = w.rt.originNonce
  counter : w'.rt.numActorsCreated = w.rt.numActorsCreated

instance : Harmless Quiet where
  refl _ := ⟨rfl, rfl, rfl, rfl, rfl⟩
  trans _ _ _ h h' :=
    ⟨h'.created.trans h.created, h'.caller.trans h.caller, h'.origin.trans h.origin, h'.nonce.trans h.nonce,
      h'.counter.trans h.counter⟩
  reads _ := ⟨rfl, rfl, rfl, rfl, rfl⟩
  charges w toUse := by
    unfold Runtime.chargeGasInternal
    split
    all_goals exact ⟨rfl, rfl, rfl, rfl, rfl⟩
  flags _ _ _ := ⟨rfl, rfl, rfl, rfl, rfl⟩

section
omit [InitLib] in
theorem quiet_onTree {α : Type} {f : StateTree → StateTree × α} : Keeps Quiet (onTree f) :=
  fun _ => ⟨rfl, rfl, rfl, rfl, rfl⟩

theorem quiet_createActor (codeID : Cid) (addr : Address) : Keeps Quiet (createActor vm codeID addr) := by
  unfold createActor
  split
  · exact keeps_abortf _ _
  split
  · exact keeps_abortf _ _
  refine .bind quiet_onTree fun r => ?_
  split
  · exact keeps_abortf _ _
  refine .bind (keeps_chargeGas _) fun _ => .bind quiet_onTree fun r => ?_
  split
  · exact keeps_fatalf _
  · exact keeps_pure _

theorem quiet_deleteActor (beneficiary : Address) : Keeps Quiet (deleteActor vm beneficiary) := by
  refine .bind (keeps_chargeGas _) fun _ => .bind (keeps_receiver vm) fun self => .bind quiet_onTree fun r => ?_
  split
  · split
    · exact keeps_abortf _ _
    · exact keeps_fatalf _
  refine .bind (keeps_payBeneficiary vm quiet_onTree) fun _ => .bind quiet_onTree fun r => ?_
  split
  · exact keeps_fatalf _
  · exact keeps_pure _

theorem quiet_commit (oldh newh : Cid) (msg : String) : Keeps Quiet (commit vm oldh newh msg) := by
  refine .bind (keeps_receiver vm) fun self => .bind quiet_onTree fun r => ?_
  split
  · exact keeps_fail _
  · exact keeps_pure _
end

structure Calm (nv : Nat) (w w' : World) : Prop where
  run : Run nv w w'
  quiet : Quiet w w'

instance {nv : Nat} : Harmless (Calm nv) where
  refl w := ⟨refl_of _ w, refl_of _ w⟩
  trans _ _ _ h h' := ⟨h.run.trans h'.run, trans_of Quiet h.quiet h'.quiet⟩
  reads h := ⟨Harmless.reads h, Harmless.reads h⟩
  charges w toUse := ⟨Harmless.charges w toUse, (inferInstance : Harmless Quiet).charges w toUse⟩
  flags w internal validated :=
    ⟨Harmless.flags w internal validated, (inferInstance : Harmless Quiet).flags w internal validated⟩

section
variable {vm} {origin : Address} {nonce : UInt64} (hlaw : ResolvesToID)

include hlaw

variable {w w' : World}

theorem Counted.calm (h : Counted vm origin nonce w) (hca : Calm vm.networkVersion w w') :
    Counted vm origin nonce w' where
  sound := hca.run.sound hlaw h.sound
  caller := by rw [hca.quiet.caller]; exact h.caller
  origin_eq := by rw [hca.quiet.origin]; exact h.origin_eq
  nonce_eq := by rw [hca.quiet.nonce]; exact h.nonce_eq
  counter := by rw [hca.quiet.counter, hca.quiet.created]; exact h.counter
  log := by rw [hca.quiet.created]; exact h.log

/-! ## Code -/

variable (vm origin nonce)

/-- `m` leaves the counter as the log says, also when it panics. -/
abbrev Counts {α : Type} (m : Vm α) : Prop :=
  Triple (Counted vm origin nonce) m (Counted vm origin nonce) (Counted vm origin nonce)
    fun w => Logged vm origin nonce w.created

variable {vm origin nonce}
variable {α : Type}

theorem counts_calm {m : Vm α} (h : Keeps (Calm vm.networkVersion) m) : Counts vm origin nonce m :=
  (h.triple fun _ _ => Counted.calm hlaw).mono (fun _ => id) (fun _ => id) (fun _ => id) fun _ hw => hw.log

theorem counts_newActorAddress : Counts vm origin nonce (newActorAddress vm) := by
  refine .get_bind fun w hw => ?_
  refine .bind ((Keeps.triple (keeps_keyActor w.rt.origin) (R := Calm vm.networkVersion)
    (Q := Calm vm.networkVersion w) ?_).mono (fun _ => id) (fun _ => id) ?_ ?_) fun act => ?_
  · rintro _ w1 rfl hca
    exact hca
  · exact fun _ => hw.calm hlaw
  · exact fun _ hca => (hw.calm hlaw hca).log
  split
  · exact .fail _ fun _ => hw.calm hlaw
  rename_i addr ha
  intro w1 hca
  have hw1 := hw.calm hlaw hca
  rw [hw.origin_eq, hw.nonce_eq, hw.counter, ← hca.quiet.created] at ha
  refine ⟨hw1.sound, hw1.caller, hw1.origin_eq, hw1.nonce_eq, ?_, hw1.log.append ha⟩
  show w1.rt.numActorsCreated + 1 = UInt64.ofNat (w1.created ++ [addr]).length
  rw [hw1.counter, length_append, UInt64.ofNat_add]
  rfl

theorem counts_exec {send : Address → Nat → Int → Bytes → Vm (ExitCode × Bytes)}
    (hse : ∀ toAddr method value params, Counts vm origin nonce (send toAddr method value params))
    (code : Code) : Counts vm origin nonce (exec vm send code) := by
  refine exec_rule vm (P := fun _ m => Counts vm origin nonce m) .bind (fun h => counts_calm hlaw (h _))
    (counts_newActorAddress hlaw) (fun codeID addr => ?_) (fun beneficiary => ?_) (fun oldh newh msg => ?_) hse code
  · exact counts_calm hlaw fun w => ⟨keeps_createActor vm codeID addr w, quiet_createActor vm codeID addr w⟩
  · exact counts_calm hlaw fun w => ⟨keeps_deleteActor vm beneficiary w, quiet_deleteActor vm beneficiary w⟩
  · exact counts_calm hlaw fun w => ⟨keeps_commit vm oldh newh msg w, quiet_commit vm oldh newh msg w⟩

/-! ## Before code runs

A computation in which no code runs, or which ends once it did, panics only before: the log is then as it
was. -/

variable (vm origin nonce)

/-- The counter is as the log says, and the log is `l`. -/
def Fresh (l : List Address) (w : World) : Prop := Counted vm origin nonce w ∧ w.created = l

/-- `m` leaves the counter as the log says, and when it panics it leaves the log. -/
abbrev Opens {α : Type} (l : List Address) (m : Vm α) (Q : World → Prop) : Prop :=
  Triple (Fresh vm origin nonce l) m Q (fun w => w.created = l) fun w => Logged vm origin nonce w.created

/-- What `internalSend` stands for in a frame: the counter is as the log says after it, and when it panics
the log is as it was. -/
abbrev SendsCounted (internalSend : Address → Address → Nat → Int → Bytes → Vm (Bytes × Option ActorError)) : Prop :=
  ∀ l src dst method value params, Triple (Fresh vm origin nonce l)
    (internalSend src dst method value params) (Counted vm origin nonce) (Fresh vm origin nonce l)
    fun w => Logged vm origin nonce w.created

variable {vm origin nonce}
variable {l : List Address}

theorem opens_calm {m : Vm α} (h : Keeps (Calm vm.networkVersion) m) :
    Opens vm origin nonce l m (Fresh vm origin nonce l) := by
  refine (h.triple (Q := Fresh vm origin nonce l) ?_).mono (fun _ => id) (fun _ => id) (fun _ hw => hw.2) fun _ hw => hw.1.log
  intro w w' hw hca
  exact ⟨hw.1.calm hlaw hca, hca.quiet.created.trans hw.2⟩

variable {E D : World → Prop}

theorem counted_onTree {f : StateTree → StateTree × α} (h : Keeps (Run vm.networkVersion) (onTree f)) :
    Triple (Counted vm origin nonce) (onTree f) (Counted vm origin nonce) E D :=
  fun w hw => hw.calm hlaw ⟨h w, quiet_onTree w⟩

theorem counted_chargeGasSafe (toUse : Int) :
    Triple (Counted vm origin nonce) (chargeGasSafe toUse) (Counted vm origin nonce) E D :=
  fun w hw => hw.calm hlaw (keeps_chargeGasSafe (R := Calm vm.networkVersion) toUse w)

theorem opens_setNewAccount (l : List Address) (addrID : Address) (act : Actor) :
    Opens vm origin nonce l (setNewAccount addrID act) (Fresh vm origin nonce l) := by
  intro w hw
  obtain ⟨st', hrd, hset⟩ := setActor_spec w.tree addrID act
  have hsd : Sound (w.tree.setActor addrID act).1 := by
    rw [hset]
    cases w.tree.lookupVal addrID with
    | error e => exact hw.1.sound.sameReads hrd
    | ok i => exact (hw.1.sound.sameReads hrd).write hlaw i (some act)
  exact ⟨⟨hsd, hw.1.caller, hw.1.origin_eq, hw.1.nonce_eq, hw.1.counter, hw.1.log⟩, hw.2⟩

variable {internalSend : Address → Address → Nat → Int → Bytes → Vm (Bytes × Option ActorError)}

theorem opens_tryCreateAccountActor (hse : SendsCounted vm origin nonce internalSend) (l : List Address) (addr : Address) :
    Opens vm origin nonce l (tryCreateAccountActor vm internalSend addr) (Counted vm origin nonce) := by
  refine .bind (opens_calm hlaw (keeps_chargeGasSafe _)) fun r => ?_
  split
  · exact .pure _ fun _ hw => hw.1
  split
  · exact .pure _ fun _ hw => hw.1
  refine .bind (opens_calm hlaw fun w =>
    ⟨keeps_onTree (fun st => treeRun_registerNewAddress addr st) w, quiet_onTree w⟩) fun r => ?_
  split
  · exact .pure _ fun _ hw => hw.1
  split
  · exact .pure _ fun _ hw => hw.1
  refine .bind (opens_calm hlaw (keeps_makeAccountActor vm _ addr)) fun r => ?_
  split
  · exact .pure _ fun _ hw => hw.1
  refine .bind (opens_setNewAccount hlaw l _ _) fun r => ?_
  split
  · exact .pure _ fun _ hw => hw.1
  split
  · exact .pure _ fun _ hw => hw.1
  -- the constructor runs: from here on nothing panics
  refine .bind ((hse l _ _ _ _ _).mono (fun _ => id) (fun _ => id) (fun _ hw => hw.2) fun _ => id) fun r => ?_
  split
  · exact .pure _ fun _ => id
  refine .bind (counted_onTree hlaw (keeps_getActor _)) fun r => ?_
  split
  all_goals exact .pure _ fun _ => id

omit hlaw in
theorem counted_caller (aid : Address) (a : α) : Triple (Counted vm origin nonce) (do
        let imm ← caller vm
        modifyRt ({ · with caller := imm, receiver := aid })
        pure a : Vm α)
      (Counted vm origin nonce) E D := by
  intro w hw
  have hca : caller vm w = (w, .val w.rt.caller) := by
    unfold caller
    rw [bind_apply]
    show (if 3 < vm.networkVersion ∧ w.rt.caller.protocol ≠ .id then _ else _ : Vm Address) w = _
    rw [if_neg (fun h => h.2 hw.caller)]
    rfl
  rw [bind_val hca]
  exact ⟨hw.sound, hw.caller, hw.origin_eq, hw.nonce_eq, hw.counter, hw.log⟩

theorem opens_targetActor (hse : SendsCounted vm origin nonce internalSend) (l : List Address) (toAddr : Address) :
    Opens vm origin nonce l (targetActor vm internalSend toAddr) (Counted vm origin nonce) := by
  refine .bind (opens_calm hlaw (keeps_getActor toAddr)) fun r => ?_
  split
  · exact .pure _ fun _ hw => hw.1
  split
  · refine .bind (opens_tryCreateAccountActor hlaw hse l toAddr) fun r => ?_
    split
    · exact .pure _ fun _ => id
    split
    · exact .pure _ fun _ => id
    · exact counted_caller _ _
  · exact .pure _ fun _ hw => hw.1

/-! ## Frames -/

omit hlaw in
theorem counted_shimCall {f : Vm (Except ActorError Bytes)} (hf : Counts vm origin nonce f) :
    Triple (Counted vm origin nonce) (shimCall vm f) (Counted vm origin nonce) E
      fun w => Logged vm origin nonce w.created := by
  intro w hw
  have hpo := hf w hw
  unfold shimCall
  generalize f w = r at hpo ⊢
  obtain ⟨w', ret | (e | msg) | _⟩ := r
  · dsimp only
    split
    · split
      · exact hpo
      · exact hpo
    · exact hpo
  all_goals exact hpo

section
variable (hse : SendsCounted vm origin nonce internalSend)
include hse

theorem counts_send (toAddr : Address) (method : Nat)
    (value : Int) (params : Bytes) : Counts vm origin nonce (send vm internalSend toAddr method value params) := by
  refine .bind (counts_calm hlaw keeps_get) fun w => ?_
  split
  · exact .fail _ fun _ => id
  have hco : ∀ self, Counts vm origin nonce (internalSend self toAddr method value params) := by
    intro self w hw
    exact ((hse w.created self toAddr method value params).mono (fun _ => id) (fun _ => id)
      (fun _ hw => hw.1) fun _ => id) w ⟨hw, rfl⟩
  refine .bind (counts_calm hlaw (keeps_receiver vm)) fun self => .bind (hco self) fun r => ?_
  split
  · split
    · exact .fail _ fun _ => id
    · exact .pure _ fun _ => id
  · exact .pure _ fun _ => id

theorem opens_sendBody (l : List Address) (msg : Message) :
    Opens vm origin nonce l (sendBody vm internalSend msg) (Counted vm origin nonce) := by
  refine .bind (opens_targetActor hlaw hse l msg.toAddr) fun r => ?_
  split
  · exact .pure _ fun _ => id
  refine .bind (counted_chargeGasSafe hlaw _) fun r => ?_
  split
  · exact .pure _ fun _ => id
  refine .bind (counted_onTree hlaw ?_) fun r => ?_
  · split
    · exact keeps_onTree fun st => treeRun_reads (.refl st)
    · exact keeps_transfer vm msg.fromAddr msg.toAddr msg.value
  split
  · exact .pure _ fun _ => id
  split
  · exact .pure _ fun _ => id
  unfold invoke
  split
  · exact .pure _ fun _ => id
  · exact counted_shimCall (counts_exec hlaw (counts_send hlaw hse) _)
end

variable {msg : Message} {rt : Runtime}
omit hlaw in
theorem Counted.callee (h : Counted vm origin nonce w) {tree : StateTree}
    (hm : makeRuntime vm (some w.rt) msg w.tree = (tree, .val rt)) : Counted vm origin nonce { w with tree, rt } := by
  have hrd := keeps_makeRuntime vm (some w.rt) msg w.tree
  rw [hm] at hrd
  obtain ⟨-, -, hlk, ho, hn, hco⟩ := makeRuntime_val vm hm
  exact ⟨h.sound.sameReads hrd, h.sound.lookup_id _ _ hlk, ho.trans h.origin_eq, hn.trans h.nonce_eq, hco.trans h.counter, h.log⟩

variable {body : Message → Vm (Bytes × Option ActorError)}
omit hlaw in
theorem callFrame_counted (hb : ∀ l msg, Opens vm origin nonce l (body msg) (Counted vm origin nonce))
    (msg : Message) (hw : Fresh vm origin nonce l w) : match callFrame vm body msg w with
    | (w', .val (_, _, counter)) => (∃ g, w'.rt = { w.rt with gasUsed := g }) ∧
      Logged vm origin nonce w'.created ∧ counter = UInt64.ofNat w'.created.length
    | (w', .fail _) => (∃ g, w'.rt = { w.rt with gasUsed := g }) ∧ w'.created = l
    | (w', .diverge) => Logged vm origin nonce w'.created := by
  unfold callFrame
  rcases hm : makeRuntime vm (some w.rt) msg w.tree with ⟨tree, rt | p | _⟩
  · have hpo := hb l msg { w with tree, rt } ⟨hw.1.callee hm, hw.2⟩
    dsimp only
    generalize body msg { w with tree, rt } = r at hpo ⊢
    obtain ⟨w', ⟨ret, err⟩ | p | _⟩ := r
    · exact ⟨⟨_, rfl⟩, hpo.log, hpo.counter⟩
    · exact ⟨⟨_, rfl⟩, hpo⟩
    · exact hpo
  · exact ⟨⟨w.rt.gasUsed, rfl⟩, hw.2⟩
  · exact hw.1.log

omit hlaw in
theorem Counted.resume {g : Int} (h : Counted vm origin nonce w)
    (hrt : w'.rt = { w.rt with gasUsed := g, numActorsCreated := UInt64.ofNat w'.created.length })
    (hsd : Sound w'.tree) (hlo : Logged vm origin nonce w'.created) : Counted vm origin nonce w' where
  sound := hsd
  caller := by rw [hrt]; exact h.caller
  origin_eq := by rw [hrt]; exact h.origin_eq
  nonce_eq := by rw [hrt]; exact h.nonce_eq
  counter := by rw [hrt]
  log := hlo

theorem sendsCounted_internalSend (hrun : ∀ msg, Keeps (Run vm.networkVersion) (body msg))
    (hb : ∀ l msg, Opens vm origin nonce l (body msg) (Counted vm origin nonce)) :
    SendsCounted vm origin nonce (VM.internalSend (callFrame vm body)) := by
  intro l src dst method value params w hw
  have hsd := (sendsRun_internalSend vm hrun src dst method value params w).sound hlaw hw.1.sound
  have hsn : Fresh vm origin nonce l { w with tree := w.tree.snapshot } :=
    ⟨⟨hw.1.sound.snapshot, hw.1.caller, hw.1.origin_eq, hw.1.nonce_eq, hw.1.counter, hw.1.log⟩, hw.2⟩
  have hca := callFrame_counted hb ⟨src, dst, 0, value, w.rt.gasAvailable, 0, 0, method, params⟩ hsn
  unfold VM.internalSend at hsd ⊢
  generalize callFrame vm body ⟨src, dst, 0, value, w.rt.gasAvailable, 0, 0, method, params⟩
    { w with tree := w.tree.snapshot } = r at hsd hca ⊢
  obtain ⟨w', ⟨ret, err, counter⟩ | p | _⟩ := r
  · obtain ⟨⟨g, hrt⟩, hlo, rfl⟩ := hca
    refine hw.1.resume (g := g) ?_ hsd hlo
    show ({ w'.rt with numActorsCreated := UInt64.ofNat w'.created.length } : Runtime) = _
    rw [hrt]
  · obtain ⟨⟨g, hrt⟩, hcr⟩ := hca
    rw [← hw.2] at hcr ⊢
    refine ⟨hw.1.resume (g := g) ?_ hsd ?_, hcr⟩
    · show w'.rt = { w.rt with gasUsed := g, numActorsCreated := UInt64.ofNat w'.created.length }
      rw [hcr, ← hw.1.counter]
      exact hrt
    show Logged vm origin nonce w'.created
    rw [hcr]
    exact hw.1.log
  · exact hca

theorem opens_sendFrame (fuel : Nat) (l : List Address) (msg : Message) :
    Opens vm origin nonce l (sendFrame vm fuel msg) (Counted vm origin nonce) := by
  induction fuel generalizing l msg with
  | zero => exact .diverge fun _ hw => hw.1.log
  | succ fuel ih =>
    exact opens_sendBody hlaw (sendsCounted_internalSend hlaw (keeps_sendFrame vm fuel) ih) l msg

theorem logged_sendMessage (fuel : Nat) (msg : Message) (gasCharge : Int) (hw : Fresh vm origin nonce [] w) :
    Logged vm origin nonce (sendMessage vm fuel msg gasCharge w).1.created := by
  have ho : Opens vm origin nonce [] (sendMessage vm fuel msg gasCharge) (Counted vm origin nonce) := by
    refine .bind (opens_calm hlaw (keeps_chargeGasSafe gasCharge)) fun r => ?_
    split
    · exact .pure _ fun _ hw => hw.1
    · exact opens_sendFrame hlaw fuel [] msg
  have hpo := ho w hw
  generalize sendMessage vm fuel msg gasCharge w = r at hpo ⊢
  obtain ⟨w', ret | p | _⟩ := r
  · exact hpo.log
  · rw [show w'.created = [] from hpo]
    exact .nil
  · exact hpo
end

/-! ## Whole messages -/

section
variable {vm} (hlaw : ResolvesToID)

include hlaw

variable {st st' : StateTree} {fuel chainLength : Nat} {msg : Message} {gasHolder : Actor}

theorem logged_executeMessage (hsd : Sound st) :
    Logged vm msg.fromAddr msg.nonce (executeMessage vm fuel msg chainLength gasHolder st).created := by
  have hrd := keeps_makeRuntime vm none msg st
  unfold executeMessage
  rcases hm : makeRuntime vm none msg st with ⟨st1, rt | p | _⟩
  · rw [hm] at hrd
    obtain ⟨-, -, hlk, ho, hn, hco⟩ := makeRuntime_val vm hm
    have hb : Fresh vm msg.fromAddr msg.nonce [] ⟨st1, false, [], rt⟩ :=
      ⟨⟨hsd.sameReads hrd, hsd.lookup_id _ _ hlk, ho, hn, hco, .nil⟩, rfl⟩
    have hlo := logged_sendMessage hlaw fuel msg (vm.pricelist.onChainMessage chainLength) hb
    dsimp only
    generalize sendMessage vm fuel msg (vm.pricelist.onChainMessage chainLength) ⟨st1, false, [], rt⟩ = r at hlo ⊢
    obtain ⟨w, ret | p | _⟩ := r
    all_goals exact hlo
  · exact .nil
  · exact .nil

variable {addr : Address}

theorem Sound.mutateActor {f : Actor → Except GoError Actor} (h : Sound st)
    (hm : st.mutateActor addr f = (st', .ok ())) : Sound st' := by
  obtain ⟨iaddr, act, act', st1, -, -, -, hrd, rfl⟩ := mutateActor_ok hm
  exact (h.sameReads hrd).write hlaw iaddr (some act')

theorem Sound.transferToGasHolder {gasHolder' : Actor} {amt : Int} (h : Sound st)
    (hpa : VM.transferToGasHolder st addr gasHolder amt = (st', .ok gasHolder')) : Sound st' := by
  unfold VM.transferToGasHolder at hpa
  split at hpa
  · cases hpa
  rcases hm : st.mutateActor addr (fun a => deductFunds a amt) with ⟨st1, e | ⟨⟩⟩
  · rw [hm] at hpa
    cases hpa
  rw [hm] at hpa
  cases hpa
  exact h.mutateActor hlaw hm

theorem logged_payAndExecute (hsd : Sound st) :
    Logged vm msg.fromAddr msg.nonce (payAndExecute vm fuel msg chainLength st).created := by
  unfold payAndExecute
  rcases hpa : VM.transferToGasHolder st msg.fromAddr newGasHolder (gasCost msg) with ⟨st1, e | gasHolder⟩
  · exact .nil
  dsimp only
  rcases hn : incrementNonce st1 msg.fromAddr with ⟨st2, e | ⟨⟩⟩
  · exact .nil
  · have hsd2 := (hsd.transferToGasHolder hlaw hpa).mutateActor hlaw hn
    exact logged_executeMessage hlaw hsd2.snapshot

theorem logged_applyMessage (hsd : Sound st) :
    Logged vm msg.fromAddr msg.nonce (applyMessage vm fuel msg chainLength st).created := by
  have hrd := senderCheck_reads vm msg chainLength st
  unfold applyMessage
  split
  · exact .nil
  generalize senderCheck vm msg chainLength st = r at hrd ⊢
  obtain ⟨st1, e | _ | early⟩ := r
  · exact .nil
  · exact logged_payAndExecute hlaw (hsd.sameReads hrd)
  · exact .nil
end

/-- **Addresses created in one message are unique** in all frames, whatever the code does, as long as they are at most `2 ^
64`; after a send that returned, the caller has the callee's counter. -/
theorem newActorAddress_unique (fuel : Nat) (msg : Message) (chainLength : Nat) (st : StateTree)
    (hlaw : ResolvesToID) (hsound : Sound st) (hinj : CounterInjective vm)
    (hcalls : (applyMessage vm fuel msg chainLength st).created.length ≤ 2 ^ 64) :
    (applyMessage vm fuel msg chainLength st).created.Nodup ∧
      ∀ depth src dst method value params (w w' : World) (ret : Bytes) (err : Option ActorError),
        internalSend (callFrame vm (sendFrame vm depth)) src dst method value params w = (w', .val (ret, err)) →
        ∃ w1, callFrame vm (sendFrame vm depth) ⟨src, dst, 0, value, w.rt.gasAvailable, 0, 0, method, params⟩
          { w with tree := w.tree.snapshot } = (w1, .val (ret, err, w'.rt.numActorsCreated)) := by
  refine ⟨(logged_applyMessage hlaw hsound).nodup hinj hcalls, ?_⟩
  intro depth src dst method value params w w' ret err h
  unfold internalSend at h
  generalize callFrame vm (sendFrame vm depth) ⟨src, dst, 0, value, w.rt.gasAvailable, 0, 0, method, params⟩
    { w with tree := w.tree.snapshot } = r at h ⊢
  obtain ⟨w1, ⟨ret', err', counter⟩ | p | _⟩ := r
  · cases h
    exact ⟨w1, rfl⟩
  · cases h
  · cases h

/-! ## Where the code of a message runs -/

theorem applyMessage_created {fuel : Nat} {msg : Message} {chainLength : Nat} {st st1 st2 st3 st4 : StateTree}
    {gasHolder : Actor} {rt : Runtime} (hch : checkMessage msg = .ok ())
    (hsn : senderCheck vm msg chainLength st = (st1, .ok none))
    (hpa : transferToGasHolder st1 msg.fromAddr newGasHolder (gasCost msg) = (st2, .ok gasHolder))
    (hn : incrementNonce st2 msg.fromAddr = (st3, .ok ())) (hm : makeRuntime vm none msg st3.snapshot = (st4, .val rt)) :
    (applyMessage vm fuel msg chainLength st).created =
      (sendMessage vm fuel msg (vm.pricelist.onChainMessage chainLength) ⟨st4, false, [], rt⟩).1.created := by
  unfold applyMessage payAndExecute executeMessage
  simp only [hch, hsn, hpa, hn, hm]
  generalize sendMessage vm fuel msg (vm.pricelist.onChainMessage chainLength) ⟨st4, false, [], rt⟩ = r
  obtain ⟨w, ret | p | _⟩ := r
  · rfl
  · rfl
  · rfl

omit [InitLib] in
theorem chargeGasSafe_fits {toUse : Int} {w : World} (h : w.rt.gasUsed ≤ w.rt.gasAvailable - toUse) :
    chargeGasSafe toUse w = ({ w with rt := { w.rt with gasUsed := w.rt.gasUsed + toUse } }, .val none) := by
  unfold chargeGasSafe Runtime.chargeGasInternal
  rw [if_neg (by omega)]

omit [InitLib] in
theorem shimCall_world (f : Vm (Except ActorError Bytes)) (w : World) : (shimCall vm f w).1 = (f w).1 := by
  fun_cases shimCall <;> simp_all

theorem sendFrame_invokes (fuel : Nat) {msg : Message} {w : World} {act : Actor} {code : Code}
    (ha : w.tree.actorVal msg.toAddr = .ok act) (hv : msg.value = 0) (hm : msg.method ≠ 0)
    (hg : w.rt.gasUsed ≤ w.rt.gasAvailable - vm.pricelist.onMethodInvocation msg.value msg.method)
    (hco : vm.areg.invoke act.code msg.method msg.params = .ok code) :
    ∃ w', w'.created = w.created ∧
      sendFrame vm (fuel + 1) msg w = shimCall vm (exec vm (runtimeSend vm fuel) code) w' := by
  have hge : onTree (·.getActor msg.toAddr) w = ({ w with tree := (w.tree.getActor msg.toAddr).1 }, .val (.ok act)) := by
    unfold onTree
    rw [(getActor_spec w.tree msg.toAddr).1, ha]
  have htg : targetActor vm (internalSend (callFrame vm (sendFrame vm fuel))) msg.toAddr w =
      ({ w with tree := (w.tree.getActor msg.toAddr).1 }, .val (.ok act)) := by
    unfold targetActor
    rw [bind_val hge]
    rfl
  have hch := chargeGasSafe_fits (w := { w with tree := (w.tree.getActor msg.toAddr).1 }) hg
  have htr (w : World) : onTree (fun st => if msg.value = 0 then (st, none) else
      transfer vm st msg.fromAddr msg.toAddr msg.value) w = (w, .val none) := by
    unfold onTree
    simp only [hv, if_true]
  refine ⟨{ w with
    tree := (w.tree.getActor msg.toAddr).1
    rt := { w.rt with gasUsed := w.rt.gasUsed + vm.pricelist.onMethodInvocation msg.value msg.method } }, rfl, ?_⟩
  show sendBody vm (internalSend (callFrame vm (sendFrame vm fuel))) msg w = _
  unfold sendBody
  rw [bind_val htg]
  dsimp only
  rw [bind_val hch]
  dsimp only
  rw [bind_val (htr _)]
  dsimp only
  rw [if_neg hm]
  unfold invoke
  rw [hco]
  rfl
end

def creatorVM (relay callee : Code) : LegacyVM :=
  { relayVM with
    areg := ⟨fun code _ _ => .ok (if code = ⟨[2]⟩ then relay else callee), fun _ => .ok ()⟩
    actorAddress := fun _ _ _ c => some (.actor (List.replicate c.toNat 0)) }

theorem counterInjective_creatorVM (relay callee : Code) : CounterInjective (creatorVM relay callee) := by
  intro origin nonce act act' c c' addr h h'
  have heq : List.replicate c.toNat (0 : Byte) = List.replicate c'.toNat 0 :=
    Address.actor.inj (Option.some.inj (h.trans h'.symm))
  have hlen := congrArg List.length heq
  rw [length_replicate, length_replicate] at hlen
  exact UInt64.toNat.inj hlen

theorem newActorAddress_unique_relay :
    let _ := emptyInit
    let callee : Code := .validateImmediateCallerAcceptAny (.newActorAddress fun _ =>
      .createActor ⟨[3]⟩ (.id 1000) (.abortf 17 "refused"))
    let relay : Code := .validateImmediateCallerAcceptAny (.newActorAddress fun _ =>
      .send (.id 102) 1 0 [] fun _ _ => .newActorAddress fun _ => .done (.ok []))
    let out := applyMessage (creatorVM relay callee) 3 relayMessage 0 relayTree
    out.created.Nodup ∧ out.created = [.actor [], .actor [0], .actor [0, 0]] := by
  intro _ callee relay out
  have hcr : out.created = [.actor [], .actor [0], .actor [0, 0]] := by decide +kernel
  have hlaw : ResolvesToID := fun _ _ _ h => nomatch h
  refine ⟨(newActorAddress_unique (creatorVM relay callee) 3 relayMessage 0 relayTree hlaw
    (sound_of_loaded hlaw rfl) (counterInjective_creatorVM relay callee) ?_).1, hcr⟩
  show out.created.length ≤ 2 ^ 64
  rw [hcr]
  decide

def createMany : Nat → Code
  | 0 => .validateImmediateCallerAcceptAny (.done (.ok []))
  | n + 1 => .newActorAddress fun _ => createMany n

theorem createMany_created [InitLib] (relay callee : Code)
    (send : Address → Nat → Int → Bytes → Vm (ExitCode × Bytes)) (n : Nat) (w : World) :
    (exec (creatorVM relay callee) send (createMany n) w).1.created.length = w.created.length + n := by
  induction n generalizing w with
  | zero =>
    have hq : Quiet w (exec (creatorVM relay callee) send (createMany 0) w).1 :=
      Keeps.bind keeps_abortIfAlreadyValidated (fun _ => keeps_pure _) w
    rw [hq.created, Nat.add_zero]
  | succ n ih =>
    obtain ⟨w', addr, hnew, hcr⟩ : ∃ w' addr, newActorAddress (creatorVM relay callee) w = (w', .val addr) ∧
        w'.created.length = w.created.length + 1 := by
      unfold newActorAddress keyActor
      rw [bind_val (show get w = (w, .val w) from rfl)]
      split
      all_goals exact ⟨_, _, rfl, length_append⟩
    show ((newActorAddress (creatorVM relay callee) >>= fun _ => exec (creatorVM relay callee) send (createMany n))
      w).1.created.length = _
    rw [bind_val hnew, ih, hcr]
    omega

def createMessage : Message := { relayMessage with value := 0 }

theorem createMessage_created (n : Nat) :
    let _ := emptyInit
    (applyMessage (creatorVM (createMany n) (.done (.ok []))) 1 createMessage 0 relayTree).created.length = n := by
  intro _
  let vm := creatorVM (createMany n) (.done (.ok []))
  -- the checks and the payment do not depend on the code
  let st1 := (senderCheck relayVM createMessage 0 relayTree).1
  let st2 := (transferToGasHolder st1 (.id 100) newGasHolder 30).1
  let st3 := (incrementNonce st2 (.id 100)).1
  let st4 := (makeRuntime relayVM none createMessage st3.snapshot).1
  let rt : Runtime := ⟨.id 100, .id 101, 0, .id 100, 3, 10, 0, 0, 0, true, false⟩
  have hsn : senderCheck vm createMessage 0 relayTree = (st1, .ok none) :=
    Prod.ext rfl (show (senderCheck relayVM createMessage 0 relayTree).2 = _ by decide +kernel)
  have hpa : transferToGasHolder st1 (.id 100) newGasHolder 30 = (st2, .ok ⟨⟨[]⟩, ⟨[]⟩, 0, 30⟩) :=
    Prod.ext rfl (show (transferToGasHolder st1 (.id 100) newGasHolder 30).2 = _ by decide +kernel)
  have hn : incrementNonce st2 (.id 100) = (st3, .ok ()) :=
    Prod.ext rfl (show (incrementNonce st2 (.id 100)).2 = _ by decide +kernel)
  have hm : makeRuntime vm none createMessage st3.snapshot = (st4, .val rt) :=
    Prod.ext rfl (show (makeRuntime relayVM none createMessage st3.snapshot).2 = _ by decide +kernel)
  have ha : st4.actorVal createMessage.toAddr = .ok ⟨⟨[2]⟩, ⟨[]⟩, 0, 50⟩ := by decide +kernel
  rw [applyMessage_created vm (by decide) hsn hpa hn hm]
  obtain ⟨w, hcr, hse⟩ := sendFrame_invokes vm 0 (w := ⟨st4, false, [], { rt with gasUsed := 1 }⟩) ha rfl (by decide)
    (show (1 : Int) ≤ 10 - 1 by decide) rfl
  have hme : sendMessage vm 1 createMessage 1 ⟨st4, false, [], rt⟩ =
      shimCall vm (exec vm (runtimeSend vm 0) (createMany n)) w := by
    unfold sendMessage
    rw [bind_val (chargeGasSafe_fits (show (0 : Int) ≤ 10 - 1 by decide))]
    exact hse
  show (sendMessage vm 1 createMessage 1 ⟨st4, false, [], rt⟩).1.created.length = n
  rw [hme, shimCall_world, createMany_created, hcr]
  exact Nat.zero_add n

/-- **The counter wraps around.**  In a message that makes `2 ^ 64 + 1` addresses the last one is the first. -/
theorem newActorAddress_repeats :
    let _ := emptyInit
    let vm := creatorVM (createMany (2 ^ 64 + 1)) (.done (.ok []))
    ResolvesToID ∧ Sound relayTree ∧ CounterInjective vm ∧
      ¬ (applyMessage vm 1 createMessage 0 relayTree).created.Nodup := by
  intro _ vm
  have hlaw : ResolvesToID := fun _ _ _ h => nomatch h
  have hsd : Sound relayTree := sound_of_loaded hlaw rfl
  refine ⟨hlaw, hsd, counterInjective_creatorVM _ _, fun hn => ?_⟩
  have hlo : Logged vm (.id 100) 3 (applyMessage vm 1 createMessage 0 relayTree).created :=
    logged_applyMessage hlaw hsd
  have hlen : (applyMessage vm 1 createMessage 0 relayTree).created.length = 2 ^ 64 + 1 :=
    createMessage_created (2 ^ 64 + 1)
  generalize (applyMessage vm 1 createMessage 0 relayTree).created = l at hn hlo hlen
  obtain ⟨_, hfirst⟩ := hlo 0 (by omega)
  obtain ⟨_, hla⟩ := hlo (2 ^ 64) (by omega)
  have hsa : l[0] = l[2 ^ 64] := Option.some.inj (hfirst.symm.trans hla)
  exact absurd ((List.Nodup.getElem_inj_iff hn).mp hsa) (by decide)

end Lotus.VM

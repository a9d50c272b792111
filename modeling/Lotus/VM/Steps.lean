/-
# What running actor code can do to the world.

`Run` says what execution does to a world: below the top layer the tree is as it was, gas stays within what is available, and
the actors change only as accounts of a ledger whose sum is kept. The last needs that resolutions are ID addresses (`Sound`),
that the network version is at least 7, and that no new account gets an ID in use.
-/
import Lotus.Lib.Ledger
import Lotus.VM.Send

namespace Lotus.VM
open State Lib.Effect Lib.Ledger StateTree Eff
variable [InitLib]

def ResolvesToID : Prop :=
  ∀ s a r, InitLib.resolveAddress s a = .ok (some r) → r.protocol = .id

/-- A tree with its base layer, in which every resolution is an ID address. -/
structure Sound (st : StateTree) : Prop where
  layers_ne : st.layers ≠ []
  lookup_id : ∀ a r, st.lookupVal a = .ok r → r.protocol = .id

variable {st st' : StateTree}

section
variable (h : Sound st)
include h

theorem Sound.sameReads (hrd : SameReads st st') : Sound st' :=
  ⟨hrd.sameBelow.layers_ne h.layers_ne, fun a r hr => h.lookup_id a r (hrd.lookup ▸ hr)⟩

theorem Sound.of_reads (hne : st'.layers ≠ []) (hlk : st'.lookupVal = st.lookupVal) : Sound st' := by
  refine ⟨hne, fun a r hr => h.lookup_id a r ?_⟩
  rw [← hlk]
  exact hr

theorem Sound.snapshot : Sound st.snapshot :=
  h.of_reads (List.cons_ne_nil _ _) (lookupVal_snapshot st)

theorem Sound.write (hla : ResolvesToID) (i : Address) (op : StreeOp) : Sound (st.write i op) := by
  refine ⟨(sameBelow_write st i op).layers_ne h.layers_ne, fun a r hr => ?_⟩
  rcases lookupVal_write st i op a with ⟨r', hold, hnew⟩ | hnew
  · rw [hnew] at hr
    cases hr
    exact h.lookup_id a _ hold
  rw [hnew] at hr
  unfold resolveIn at hr
  split at hr
  · rename_i hid
    cases hr
    exact hid
  · exact resolveWith_id hla _ a r hr
end

theorem sound_of_loaded (hla : ResolvesToID) (h : st.layers = [newStateSnapLayer]) : Sound st := by
  refine ⟨by rw [h]; exact List.cons_ne_nil _ _, fun a r hr => ?_⟩
  unfold lookupVal at hr
  rw [h, lookupOf_newLayer] at hr
  unfold lookupOf at hr
  split at hr
  · rename_i hid
    cases hr
    exact hid
  · exact resolveWith_id hla _ a r hr

theorem Sound.lookup_lookup (h : Sound st) {a r i : Address} (hr : st.lookupVal a = .ok r)
    (hi : st.lookupVal r = .ok i) : i = r := by
  rw [lookupVal_id st (h.lookup_id a r hr)] at hi
  cases hi
  rfl

/-- What execution at network version `nv` does to the tree. -/
structure TreeRun (nv : Nat) (st st' : StateTree) : Prop where
  below : SameBelow st st'
  sound : ResolvesToID → Sound st → Sound st'
  ledger : 7 ≤ nv → ResolvesToID → Sound st → Evolves Actor.balance st.view st'.view

/-- What execution at network version `nv` does to the world. -/
structure Run (nv : Nat) (w w' : World) : Prop where
  below : SameBelow w.tree w'.tree
  available : w'.rt.gasAvailable = w.rt.gasAvailable
  used : w.rt.gasUsed ≤ w.rt.gasAvailable → w'.rt.gasUsed ≤ w.rt.gasAvailable
  reused : w'.idReused = false → w.idReused = false
  sound : ResolvesToID → Sound w.tree → Sound w'.tree
  ledger : 7 ≤ nv → ResolvesToID → w'.idReused = false → Sound w.tree → Evolves Actor.balance w.tree.view w'.tree.view

section
variable {nv : Nat} {st : StateTree}

theorem treeRun_reads {st' : StateTree} (h : SameReads st st') : TreeRun nv st st' := by
  refine ⟨h.sameBelow, fun _ hsd => hsd.sameReads h, fun _ _ _ => ?_⟩
  rw [h.view]
  exact .refl _

theorem TreeRun.trans {st' st'' : StateTree} (h : TreeRun nv st st') (h' : TreeRun nv st' st'') : TreeRun nv st st'' := by
  refine ⟨h.below.trans h'.below, fun hla hsd => h'.sound hla (h.sound hla hsd), ?_⟩
  intro h7 hla hsd
  exact (h.ledger h7 hla hsd).trans (h'.ledger h7 hla (h.sound hla hsd))

theorem treeRun_write {i : Address} {op : StreeOp}
    (h : 7 ≤ nv → Sound st → Evolves Actor.balance st.view (Function.update st.view i op)) : TreeRun nv st (st.write i op) := by
  refine ⟨sameBelow_write st i op, fun hla hsd => hsd.write hla i op, ?_⟩
  intro h7 _ hsd
  rw [view_write hsd.layers_ne]
  exact h h7 hsd

theorem TreeRun.run {w : World} {tree : StateTree} (h : TreeRun nv w.tree tree) : Run nv w { w with tree } :=
  ⟨h.below, rfl, id, id, h.sound, fun h7 hla _ hsd => h.ledger h7 hla hsd⟩

theorem run_frame {w : World} {rt : Runtime} (ha : rt.gasAvailable = w.rt.gasAvailable)
    (hu : w.rt.gasUsed ≤ w.rt.gasAvailable → rt.gasUsed ≤ w.rt.gasAvailable) : Run nv w { w with rt } :=
  ⟨.refl _, ha, hu, id, fun _ => id, fun _ _ _ _ => .refl _⟩

theorem Run.trans {w w' w'' : World} (h : Run nv w w') (h' : Run nv w' w'') : Run nv w w'' := by
  refine ⟨h.below.trans h'.below, h'.available.trans h.available, fun hle => ?_,
    fun hfree => h.reused (h'.reused hfree), fun hla hsd => h'.sound hla (h.sound hla hsd),
    fun h7 hla hfree hsd => ?_⟩
  · rw [← h.available]
    apply h'.used
    rw [h.available]
    exact h.used hle
  · have hev := h.ledger h7 hla (h'.reused hfree) hsd
    exact hev.trans (h'.ledger h7 hla hfree (h.sound hla hsd))

instance : IsPreorder World (Run nv) where
  refl _ := run_frame rfl id
  trans _ _ _ := Run.trans
end

/-! ## Calls that only read or change the runtime -/

section

/-- A relation of worlds that is kept by what a call can do without writing: to read, to charge gas, and
to set the flags of the runtime. -/
class Harmless (R : World → World → Prop) : Prop extends IsPreorder World R where
  reads : ∀ {w tree}, SameReads w.tree tree → R w { w with tree }
  charges : ∀ w toUse, R w { w with rt := (w.rt.chargeGasInternal toUse).1 }
  flags : ∀ w internal validated,
    R w { w with rt := { w.rt with allowInternal := internal, callerValidated := validated } }

omit [InitLib] in
theorem chargeGasInternal_le (rt : Runtime) (toUse : Int) : (rt.chargeGasInternal toUse).1.gasAvailable = rt.gasAvailable ∧
      (rt.chargeGasInternal toUse).1.gasUsed ≤ rt.gasAvailable := by
  unfold Runtime.chargeGasInternal
  split
  · exact ⟨rfl, le_refl _⟩
  rename_i hfi
  refine ⟨rfl, ?_⟩
  show rt.gasUsed + toUse ≤ rt.gasAvailable
  omega

instance {nv : Nat} : Harmless (Run nv) where
  reads h := (treeRun_reads h).run
  charges w toUse := run_frame (chargeGasInternal_le w.rt toUse).1 fun _ => (chargeGasInternal_le w.rt toUse).2
  flags _ _ _ := run_frame rfl id

variable {nv : Nat} {α : Type} {f : StateTree → StateTree × α}

theorem keeps_onTree (h : ∀ st, TreeRun nv st (f st).1) :
    Keeps (Run nv) (onTree f) := fun w => (h w.tree).run

variable {R : World → World → Prop} [Harmless R]

theorem keeps_getActor (addr : Address) : Keeps R (onTree (·.getActor addr)) :=
  fun w => Harmless.reads (getActor_spec w.tree addr).2

theorem keeps_modifyFlags {internal validated : Runtime → Bool} : Keeps R (modifyRt fun rt =>
      { rt with allowInternal := internal rt, callerValidated := validated rt }) :=
  fun w => Harmless.flags w _ _

theorem keeps_abortf (code : ExitCode) (msg : String) : Keeps R (abortf code msg : Vm α) := keeps_fail _

theorem keeps_fatalf (msg : String) : Keeps R (fatalf msg : Vm α) := keeps_fail _

theorem keeps_chargeGasSafe (toUse : Int) : Keeps R (chargeGasSafe toUse) :=
  fun w => Harmless.charges w toUse

theorem keeps_chargeGas (toUse : Int) : Keeps R (chargeGas toUse) := by
  refine .bind (keeps_chargeGasSafe toUse) fun r => ?_
  cases r with
  | none => exact keeps_pure ()
  | some e => exact keeps_fail _

omit [InitLib] in
theorem chargeGas_val {toUse : Int} {w w' : World} (h : chargeGas toUse w = (w', .val ())) : w'.tree = w.tree := by
  obtain ⟨r, w1, hsa, hrest⟩ := bind_eq_val h
  cases r with
  | none =>
    obtain rfl : w1 = w' := congrArg Prod.fst hrest
    exact congrArg (fun p => p.1.tree) hsa.symm
  | some e => cases hrest

omit [InitLib] in
theorem onTree_val {w w' : World} {a : α}
    (h : onTree f w = (w', .val a)) : w' = { w with tree := (f w.tree).1 } ∧ (f w.tree).2 = a := by
  cases h
  exact ⟨rfl, rfl⟩

theorem resolveAddressIn_spec (addr : Address) (st : StateTree) :
    SameReads st (resolveAddressIn addr st).1 ∧
      ∀ r, (resolveAddressIn addr st).2 = .val (some r) → st.lookupVal addr = .ok r := by
  unfold resolveAddressIn
  rcases hlo : st.lookupID addr with ⟨st', r⟩
  obtain ⟨hv, hrd⟩ := (SameReads.refl st).lookupID hlo
  rcases r with e | r
  · dsimp only
    split
    all_goals exact ⟨hrd, fun r h => nomatch h⟩
  refine ⟨hrd, fun r' h => ?_⟩
  cases h
  exact hv.symm

theorem keeps_resolveAddress (addr : Address) : Keeps R (resolveAddress addr) :=
  fun w => Harmless.reads (resolveAddressIn_spec addr w.tree).1

variable (vm : LegacyVM)

theorem keeps_caller : Keeps R (caller vm) := by
  refine .bind keeps_get fun w => ?_
  split
  · exact keeps_fail _
  · exact keeps_pure _

theorem keeps_receiver : Keeps R (receiver vm) := by
  refine .bind keeps_get fun w => ?_
  split
  · exact keeps_fail _
  · exact keeps_pure _

omit [InitLib] in
theorem receiver_val {w w' : World} {self : Address} (h : receiver vm w = (w', .val self)) :
    w' = w ∧ (3 < vm.networkVersion → self ≠ .undef → self.protocol = .id) := by
  obtain ⟨w1, w2, hg, hrest⟩ := bind_eq_val h
  cases hg
  split at hrest
  · cases hrest
  rename_i hch
  cases hrest
  refine ⟨rfl, fun hnv hu => ?_⟩
  by_contra hid
  exact hch ⟨hnv, hu, hid⟩

theorem keeps_getActorCodeCID (addr : Address) : Keeps R (getActorCodeCID addr) := by
  refine .bind (keeps_getActor addr) fun r => ?_
  cases r with
  | error e =>
    dsimp only
    split
    · exact keeps_pure _
    · exact keeps_fatalf _
  | ok act => exact keeps_pure _

theorem keeps_abortIfAlreadyValidated : Keeps R abortIfAlreadyValidated := by
  refine .bind keeps_get fun w => ?_
  split
  · exact keeps_abortf _ _
  · exact keeps_modifyFlags

theorem keeps_validateImmediateCallerIs (as : List Address) : Keeps R (validateImmediateCallerIs vm as) := by
  refine .bind keeps_abortIfAlreadyValidated fun _ => .bind (keeps_caller vm) fun imm => ?_
  split
  · exact keeps_pure _
  · exact keeps_abortf _ _

theorem keeps_validateImmediateCallerType (ts : List Cid) : Keeps R (validateImmediateCallerType vm ts) := by
  refine .bind keeps_abortIfAlreadyValidated fun _ => .bind (keeps_caller vm) fun imm =>
    .bind (keeps_getActorCodeCID imm) fun r => ?_
  rcases r with _ | callerCid
  · exact keeps_fatalf _
  dsimp only
  split
  · exact keeps_pure _
  · exact keeps_abortf _ _

theorem keeps_currentBalance : Keeps R (currentBalance vm) := by
  refine .bind (keeps_receiver vm) fun self => .bind (keeps_getActor self) fun r => ?_
  split
  · exact keeps_pure _
  · exact keeps_pure _
  · exact keeps_abortf _ _

theorem keeps_totalFilCircSupply : Keeps R (totalFilCircSupply vm) := by
  refine .bind keeps_get fun w => ?_
  split
  · exact keeps_abortf _ _
  · exact keeps_pure _

theorem keeps_keyActor (addr : Address) : Keeps R (keyActor addr) := by
  unfold keyActor
  split
  · exact keeps_pure _
  · exact keeps_pure _
  · exact .bind (keeps_getActor addr) fun _ => keeps_pure _

theorem keeps_headForState (code : ExitCode) (msg : String) : Keeps R (headForState vm code msg) := by
  refine .bind (keeps_receiver vm) fun self => .bind (keeps_getActor self) fun r => ?_
  cases r with
  | error e => exact keeps_abortf _ _
  | ok act => exact keeps_pure _

theorem keeps_newActorAddress : Keeps (Run nv) (newActorAddress vm) := by
  refine .bind keeps_get fun w => .bind (keeps_keyActor w.rt.origin) fun act => ?_
  split
  · exact keeps_fatalf _
  · refine .bind (fun w => ?_) fun _ => keeps_pure _
    exact ⟨.refl _, rfl, id, id, fun _ => id, fun _ _ _ _ => .refl _⟩
end

/-! ## Calls that write -/

section
variable {nv : Nat} {R : World → World → Prop} [Harmless R] (vm : LegacyVM)
variable {st st' : StateTree} {addr self beneficiary i : Address}

theorem setActor_of_lookup (act : Actor) (hlk : st.lookupVal addr = .ok i) :
    ∃ st', SameReads st st' ∧ st.setActor addr act = (st'.write i (some act), .ok ()) := by
  obtain ⟨st', hrd, hset⟩ := setActor_spec st addr act
  rw [hlk] at hset
  exact ⟨st', hrd, hset⟩

theorem stateCommit_spec (self : Address) (oldh newh : Cid) (st : StateTree) :
    SameReads st (stateCommit self oldh newh st).1 ∨
      ∃ st' i act, SameReads st st' ∧ st.view i = some act ∧
        (stateCommit self oldh newh st).1 = st'.write i (some { act with head := newh }) := by
  unfold stateCommit
  rcases hg : st.getActor self with ⟨st1, r⟩
  obtain ⟨hva, hrd⟩ := (SameReads.refl st).getActor hg
  rcases r with e | act
  · exact Or.inl hrd
  dsimp only
  split
  · exact Or.inl hrd
  obtain ⟨i, hlk, hv⟩ := actorVal_ok hva.symm
  rw [← hrd.lookup] at hlk
  obtain ⟨st2, hrd', hset⟩ := setActor_of_lookup { act with head := newh } hlk
  rw [hset]
  exact Or.inr ⟨st2, i, act, hrd.trans hrd', hv, rfl⟩

theorem keeps_commit (oldh newh : Cid) (msg : String) : Keeps (Run nv) (commit vm oldh newh msg) := by
  refine .bind (keeps_receiver vm) fun self => .bind ?_ fun r => ?_
  · refine keeps_onTree fun st => ?_
    rcases stateCommit_spec self oldh newh st with hrd | ⟨st', i, act, hrd, hv, hwr⟩
    · exact treeRun_reads hrd
    rw [hwr]
    rw [← hrd.view] at hv
    exact (treeRun_reads hrd).trans (treeRun_write fun _ _ => .edit hv rfl)
  cases r with
  | none => exact keeps_pure _
  | some e => exact keeps_fail _

theorem view_of_actorVal_error {e : GoError} (hu : addr ≠ .undef) (hg : st.actorVal addr = .error e)
    (hlk : st.lookupVal addr = .ok i) : st.view i = none := by
  unfold actorVal actorOf at hg
  rw [if_neg hu, hlk] at hg
  dsimp only at hg
  split at hg
  · assumption
  · cases hg

theorem keeps_createActor (codeID : Cid) (addr : Address) : Keeps (Run vm.networkVersion) (createActor vm codeID addr) := by
  unfold createActor
  split
  · exact keeps_abortf _ _
  rename_i hu
  split
  · exact keeps_abortf _ _
  intro w
  refine bind_at (keeps_getActor addr w) fun r w1 hg => ?_
  obtain ⟨rfl, hr⟩ := onTree_val hg
  obtain ⟨hv, hrd⟩ := getActor_spec w.tree addr
  cases r with
  | ok act => exact keeps_abortf _ _ _
  | error e =>
    refine bind_at (keeps_chargeGas _ _) fun _ w2 hga => ?_
    have htr := chargeGas_val hga
    refine bind_at ?_ fun r w3 _ => ?_
    · -- the address is still free when the actor is set
      have hrd2 : SameReads w.tree w2.tree := htr ▸ hrd
      obtain ⟨st', hrd', hset⟩ := setActor_spec w2.tree addr ⟨codeID, vm.emptyObjectCid, 0, 0⟩
      show Run vm.networkVersion w2 { w2 with tree := (w2.tree.setActor addr _).1 }
      rw [hset]
      rcases hlk : w2.tree.lookupVal addr with e' | i
      · exact (treeRun_reads hrd').run
      refine ((treeRun_reads hrd').trans (treeRun_write fun h7 _ => .opened ?_ rfl)).run
      rw [hrd'.view, hrd2.view]
      refine view_of_actorVal_error (fun h => hu ⟨h, h7⟩) (hv.symm.trans hr) ?_
      rw [← hrd2.lookup]
      exact hlk
    cases r with
    | error e' => exact keeps_fatalf _ _
    | ok u => exact keeps_pure _ _

/-! ## Moving funds -/

section
variable (st : StateTree) (src dst : Address) (amt : Int)

def Checked :
    Except ActorError (Option (Address × Address × Actor)) → Prop
  | .error _ => True
  | .ok none => src = dst ∨ st.lookupVal src = st.lookupVal dst
  | .ok (some (fromID, toID, f)) =>
    st.lookupVal src = .ok fromID ∧ st.lookupVal dst = .ok toID ∧ fromID ≠ toID ∧ 0 ≤ amt ∧ st.actorVal fromID = .ok f

theorem transferCheck_spec :
    SameReads st (transferCheck st src dst amt).1 ∧ Checked st src dst amt (transferCheck st src dst amt).2 := by
  unfold transferCheck
  split
  · exact ⟨.refl st, trivial⟩
  rename_i hamt
  rcases hlo : st.lookupID src with ⟨st1, r1⟩
  obtain ⟨hsr, hrd1⟩ := (SameReads.refl st).lookupID hlo
  rcases r1 with e | fromID
  · exact ⟨hrd1, trivial⟩
  dsimp only
  rcases hg : st1.getActor fromID with ⟨st2, r2⟩
  obtain ⟨ha, hrd2⟩ := hrd1.getActor hg
  rcases r2 with e | f
  · exact ⟨hrd2, trivial⟩
  dsimp only
  split
  · exact ⟨hrd2, trivial⟩
  split
  · rename_i hsa
    exact ⟨hrd2, Or.inl hsa⟩
  rcases hl' : st2.lookupID dst with ⟨st3, r3⟩
  obtain ⟨hd, hrd3⟩ := hrd2.lookupID hl'
  rcases r3 with e | toID
  · exact ⟨hrd3, trivial⟩
  dsimp only
  split
  · rename_i hsa
    refine ⟨hrd3, Or.inr ?_⟩
    rw [← hsr, ← hd, hsa]
  · rename_i hne
    exact ⟨hrd3, hsr.symm, hd.symm, hne, by omega, ha.symm⟩

theorem transferCheckOld_spec :
    SameReads st (transferCheckOld st src dst amt).1 ∧ Checked st src dst amt (transferCheckOld st src dst amt).2 := by
  unfold transferCheckOld
  split
  · rename_i hsa
    exact ⟨.refl st, Or.inl hsa⟩
  rcases hlo : st.lookupID src with ⟨st1, r1⟩
  obtain ⟨hsr, hrd1⟩ := (SameReads.refl st).lookupID hlo
  rcases r1 with e | fromID
  · exact ⟨hrd1, trivial⟩
  dsimp only
  rcases hl' : st1.lookupID dst with ⟨st2, r2⟩
  obtain ⟨hd, hrd2⟩ := hrd1.lookupID hl'
  rcases r2 with e | toID
  · exact ⟨hrd2, trivial⟩
  dsimp only
  split
  · rename_i hsa
    refine ⟨hrd2, Or.inr ?_⟩
    rw [← hsr, ← hd, hsa]
  rename_i hne
  split
  · exact ⟨hrd2, trivial⟩
  rename_i hamt
  rcases hg : st2.getActor fromID with ⟨st3, r3⟩
  obtain ⟨ha, hrd3⟩ := hrd2.getActor hg
  cases r3 with
  | error e => exact ⟨hrd3, trivial⟩
  | ok f => exact ⟨hrd3, hsr.symm, hd.symm, hne, by omega, ha.symm⟩

/-- A transfer that moved `amt`: the two actors, and the tree after it. -/
def Moved (st' : StateTree) : Prop :=
  ∃ fromID toID i j f t st1 st2,
    st.lookupVal src = .ok fromID ∧ st.lookupVal dst = .ok toID ∧ fromID ≠ toID ∧
    st.lookupVal fromID = .ok i ∧ st.lookupVal toID = .ok j ∧
    st.view i = some f ∧ st.view j = some t ∧ 0 ≤ amt ∧ amt ≤ f.balance ∧ SameReads st st1 ∧
    SameReads (st1.write i (some { f with balance := f.balance - amt })) st2 ∧
    st' = st2.write j (some { t with balance := t.balance + amt })

/-- **`transfer`** reads, or moves the amount between two actors. It returns nil without moving
anything only between addresses of the same actor. -/
theorem transfer_spec :
    SameReads st (transfer vm st src dst amt).1 ∧
        ((transfer vm st src dst amt).2 = none → src = dst ∨ st.lookupVal src = st.lookupVal dst) ∨
      Moved st src dst amt (transfer vm st src dst amt).1 := by
  obtain ⟨hrd, hch⟩ : SameReads st (if 15 ≤ vm.networkVersion then transferCheck st src dst amt
          else transferCheckOld st src dst amt).1 ∧
        Checked st src dst amt (if 15 ≤ vm.networkVersion then transferCheck st src dst amt
          else transferCheckOld st src dst amt).2 := by
    split
    · exact transferCheck_spec st src dst amt
    · exact transferCheckOld_spec st src dst amt
  unfold transfer
  generalize (if 15 ≤ vm.networkVersion then transferCheck st src dst amt
    else transferCheckOld st src dst amt) = check at hrd hch
  obtain ⟨st1, r⟩ := check
  match r, hch with
  | .error e, _ => exact Or.inl ⟨hrd, fun h => nomatch h⟩
  | .ok none, hsa => exact Or.inl ⟨hrd, fun _ => hsa⟩
  | .ok (some (fromID, toID, f)), ⟨hsr, hd, hne, hamt, hfr⟩ =>
    dsimp only at hrd ⊢
    rcases hg : st1.getActor toID with ⟨st2, r2⟩
    obtain ⟨hto, hrd2⟩ := hrd.getActor hg
    rcases r2 with e | t
    · exact Or.inl ⟨hrd2, fun h => nomatch h⟩
    dsimp only [deductFunds]
    by_cases hfu : f.balance < amt
    · rw [if_pos hfu]
      exact Or.inl ⟨hrd2, fun h => nomatch h⟩
    rw [if_neg hfu]
    obtain ⟨i, hi, hvi⟩ := actorVal_ok hfr
    obtain ⟨j, hj, hv⟩ := actorVal_ok hto.symm
    have hi2 : st2.lookupVal fromID = .ok i := by
      rw [hrd2.lookup]
      exact hi
    obtain ⟨st3, hrd3, hset⟩ :=
      setActor_of_lookup { f with balance := f.balance - amt } hi2
    have hrd3 := hrd2.trans hrd3
    -- the first write moves no resolution, so the second finds the receiver
    have hv3 : st3.view i = some f := by
      rw [hrd3.view]
      exact hvi
    have hj3 : (st3.write i (some { f with balance := f.balance - amt })).lookupVal toID = .ok j := by
      rw [lookupVal_write_of_code { f with balance := f.balance - amt } hv3 rfl rfl, hrd3.lookup]
      exact hj
    obtain ⟨st4, hrd4, hset'⟩ := setActor_of_lookup (depositFunds t amt) hj3
    dsimp only
    rw [hset]
    dsimp only
    rw [hset']
    exact Or.inr ⟨fromID, toID, i, j, f, t, st3, st4, hsr, hd, hne, hi, hj, hvi, hv, hamt, by omega, hrd3, hrd4, rfl⟩
end

theorem Moved.treeRun {src dst : Address} {amt : Int} (h : Moved st src dst amt st') : TreeRun nv st st' := by
  obtain ⟨fromID, toID, i, j, f, t, st1, st2, hsr, hd, hne, hi, hj, hvi, hv, hamt, hle, hrd, hrd', rfl⟩ := h
  have hb : SameBelow st st2 :=
    (hrd.sameBelow.trans (sameBelow_write st1 i _)).trans hrd'.sameBelow
  refine ⟨hb.trans (sameBelow_write st2 j _), fun hla hsd => ?_, fun _ hla hsd => ?_⟩
  · exact (((hsd.sameReads hrd).write hla i _).sameReads hrd').write hla j _
  rw [view_write (hb.layers_ne hsd.layers_ne), hrd'.view, view_write (hrd.sameBelow.layers_ne hsd.layers_ne), hrd.view]
  refine .move ?_ hvi hv hamt hle rfl rfl
  rw [hsd.lookup_lookup hsr hi, hsd.lookup_lookup hd hj]
  exact hne

theorem keeps_transfer (src dst : Address) (amt : Int) :
    Keeps (Run nv) (onTree (fun st => transfer vm st src dst amt)) := by
  refine keeps_onTree fun st => ?_
  rcases transfer_spec vm st src dst amt with ⟨hrd, -⟩ | hm
  · exact treeRun_reads hrd
  · exact hm.treeRun

theorem keeps_checkBeneficiary (self beneficiary : Address) : Keeps R (checkBeneficiary vm self beneficiary) := by
  unfold checkBeneficiary
  split
  · refine .bind (keeps_resolveAddress beneficiary) fun r => ?_
    rcases r with _ | id
    · exact keeps_abortf _ _
    dsimp only
    split
    · exact keeps_abortf _ _
    · exact keeps_pure _
  · exact keeps_pure _

variable {w w' : World}

theorem checkBeneficiary_val (h : checkBeneficiary vm self beneficiary w = (w', .val ())) : SameReads w.tree w'.tree ∧
      (7 ≤ vm.networkVersion → ∃ id, w.tree.lookupVal beneficiary = .ok id ∧ id ≠ self) := by
  unfold checkBeneficiary at h
  split at h
  · obtain ⟨r, w1, hre, hrest⟩ := bind_eq_val h
    obtain ⟨hrd, hlk⟩ := resolveAddressIn_spec beneficiary w.tree
    unfold resolveAddress at hre
    cases hin : resolveAddressIn beneficiary w.tree with
    | mk tree o =>
      rw [hin] at hre hrd hlk
      cases hre
      rcases r with _ | id
      · cases hrest
      dsimp only at hrest
      split at hrest
      · cases hrest
      rename_i hne
      cases hrest
      exact ⟨hrd, fun _ => ⟨id, hlk id rfl, hne⟩⟩
  rename_i h7
  cases h
  exact ⟨.refl _, fun h => absurd h h7⟩

theorem keeps_payBeneficiary {balance : Int} (htr : Keeps R (onTree (transfer vm · self beneficiary balance))) :
    Keeps R (payBeneficiary vm self beneficiary balance) := by
  unfold payBeneficiary
  split
  · exact keeps_pure _
  refine .bind (keeps_checkBeneficiary vm self beneficiary) fun _ => .bind htr fun r => ?_
  cases r with
  | none => exact keeps_pure _
  | some e => exact keeps_fatalf _

variable {act : Actor}

theorem Moved.view_sender (h : Moved st self beneficiary act.balance st') (hsd : Sound st)
    (hid : self.protocol = .id) (hse : st.view self = some act) : st'.view self = some { act with balance := 0 } := by
  obtain ⟨fromID, toID, i, j, f, t, st1, st2, hsr, hd, hne, hi, hj, hvi, hv, hamt, hle, hrd, hrd', rfl⟩ := h
  obtain rfl : fromID = self := by
    rw [lookupVal_id st hid] at hsr
    cases hsr
    rfl
  obtain rfl : i = fromID := hsd.lookup_lookup hsr hi
  obtain rfl : j = toID := hsd.lookup_lookup hd hj
  rw [hse] at hvi
  cases hvi
  have hne1 := hrd.sameBelow.layers_ne hsd.layers_ne
  have hne2 := hrd'.sameBelow.layers_ne ((sameBelow_write st1 i _).layers_ne hne1)
  rw [view_write hne2, Function.update_of_ne hne, hrd'.view, view_write hne1, Function.update_self, Int.sub_self]

theorem payBeneficiary_val (h : payBeneficiary vm self beneficiary act.balance w = (w', .val ())) (hsd : Sound w.tree)
    (h7 : 7 ≤ vm.networkVersion) (hid : self.protocol = .id) (hse : w.tree.view self = some act) (act' : Actor)
    (ha' : w'.tree.view self = some act') : act'.balance = 0 := by
  unfold payBeneficiary at h
  split at h
  · rename_i hz
    cases h
    rw [hse] at ha'
    cases ha'
    exact hz
  obtain ⟨⟨⟩, w1, hch, hrest⟩ := bind_eq_val h
  obtain ⟨hrd, ho⟩ := checkBeneficiary_val vm hch
  obtain ⟨id, hlk, hne⟩ := ho h7
  obtain ⟨r, w2, htr, hrest⟩ := bind_eq_val hrest
  obtain ⟨rfl, hr⟩ := onTree_val htr
  cases r with
  | some e => cases hrest
  | none =>
    cases hrest
    -- the beneficiary is another actor, so the transfer moved the balance
    rcases transfer_spec vm w1.tree self beneficiary act.balance with ⟨-, hsa⟩ | hm
    · have hsel := lookupVal_id w.tree hid
      rcases hsa hr with heq | heq
      · rw [← heq, hsel] at hlk
        cases hlk
        exact absurd rfl hne
      rw [hrd.lookup, hsel, hlk] at heq
      cases heq
      exact absurd rfl hne
    rw [← hrd.view] at hse
    have hv := hm.view_sender (hsd.sameReads hrd) hid hse
    rw [hv] at ha'
    cases ha'
    rfl

theorem run_delete_self {w2 : World} (hpa : Run vm.networkVersion w w2)
    (hpay : payBeneficiary vm self beneficiary act.balance w = (w2, .val ()))
    (hid : 3 < vm.networkVersion → self ≠ .undef → self.protocol = .id) (hse : w.tree.actorVal self = .ok act) :
    Run vm.networkVersion w (onTree (·.deleteActor self) w2).1 := by
  obtain ⟨st', hrd, hd⟩ := deleteActor_spec w2.tree self
  show Run vm.networkVersion w { w2 with tree := (w2.tree.deleteActor self).1 }
  rw [hd]
  rcases hva : deleteVal w2.tree.view w2.tree.lookupVal self with e | i
  · exact hpa.trans (treeRun_reads hrd).run
  have hb := hrd.sameBelow.trans (sameBelow_write st' i none)
  refine ⟨hpa.below.trans hb, hpa.available, hpa.used, hpa.reused,
    fun hla hsd => ((hpa.sound hla hsd).sameReads hrd).write hla i none, ?_⟩
  intro h7 hla hfree hsd
  have hsd' := (hpa.sound hla hsd).sameReads hrd
  refine (hpa.ledger h7 hla hfree hsd).trans ?_
  -- the executing actor is at an ID address, where nothing is left
  have hu : self ≠ .undef := by
    rintro rfl
    cases hse
  have hpr := hid (by omega) hu
  obtain ⟨hlk, act2, ha2⟩ := deleteVal_ok hva
  obtain rfl : i = self := by
    rw [lookupVal_id w2.tree hpr] at hlk
    cases hlk
    rfl
  obtain ⟨k, hk, hv2⟩ := actorVal_ok ha2
  obtain rfl : k = i := by
    rw [lookupVal_id w2.tree hpr] at hk
    cases hk
    rfl
  obtain ⟨k', hk', hv⟩ := actorVal_ok hse
  obtain rfl : k' = k := by
    rw [lookupVal_id w.tree hpr] at hk'
    cases hk'
    rfl
  show Evolves Actor.balance w2.tree.view (st'.write k' none).view
  rw [view_write hsd'.layers_ne, hrd.view]
  exact .closed hv2 (payBeneficiary_val vm hpay hsd h7 hpr hv act2 hv2)

theorem keeps_deleteActor (beneficiary : Address) : Keeps (Run vm.networkVersion) (deleteActor vm beneficiary) := by
  refine .bind (keeps_chargeGas _) fun _ => ?_
  intro w
  refine bind_at (keeps_receiver vm w) fun self w' hre => ?_
  obtain ⟨rfl, hse⟩ := receiver_val vm hre
  refine bind_at (keeps_getActor self w') fun r w1 hg => ?_
  obtain ⟨rfl, hr⟩ := onTree_val hg
  obtain ⟨hv, hrd⟩ := getActor_spec w'.tree self
  rcases r with e | act
  · dsimp only
    split
    · exact keeps_abortf _ _ _
    · exact keeps_fatalf _ _
  have hpa : Run vm.networkVersion { w' with tree := (w'.tree.getActor self).1 } _ :=
    keeps_payBeneficiary vm (keeps_transfer vm self beneficiary act.balance) _
  refine bind_post hpa fun _ w2 hpay => ?_
  rw [hpay] at hpa
  -- from here on the world is related to the one before the beneficiary was paid
  have ha : (w'.tree.getActor self).1.actorVal self = .ok act := by
    rw [hrd.actorVal]
    exact hv.symm.trans hr
  have hd := run_delete_self vm hpa hpay hse ha
  refine bind_post hd fun r w3 hde => ?_
  rw [hde] at hd
  cases r with
  | error e => exact hd
  | ok u => exact hd

/-! ## New accounts -/

omit vm in
theorem registerIn_ok {oaddr : Address} {initact : Actor} (h : registerIn addr initact = .ok (oaddr, act)) :
    ∃ head, act = { initact with head } := by
  revert h
  fun_cases registerIn with
  | case4 _ _ _ _ _ head =>
    rintro ⟨⟩
    exact ⟨head, rfl⟩
  | _ => exact nofun

omit vm in
theorem treeRun_registerNewAddress (addr : Address) (st : StateTree) : TreeRun nv st (st.registerNewAddress addr).1 := by
  unfold registerNewAddress
  rcases hg : st.getActor initAddress with ⟨st1, r⟩
  obtain ⟨hva, hrd⟩ := (SameReads.refl st).getActor hg
  rcases r with e | initact
  · exact treeRun_reads hrd
  dsimp only
  rcases hre : registerIn addr initact with e | p
  · exact treeRun_reads hrd
  obtain ⟨oaddr, act⟩ := p
  obtain ⟨head, rfl⟩ := registerIn_ok hre
  obtain ⟨i, hlk, hv⟩ := actorVal_ok hva.symm
  rw [← hrd.lookup] at hlk
  rw [← hrd.view] at hv
  obtain ⟨st2, hrd2, hset⟩ := setActor_of_lookup { initact with head } hlk
  dsimp only
  rw [hset]
  refine (treeRun_reads (hrd.trans hrd2)).trans (treeRun_write fun _ _ => ?_)
  rw [← hrd2.view] at hv
  exact .edit hv rfl

theorem keeps_newAccountActor (code : Option Cid) : Keeps R (newAccountActor vm code) := by
  cases code with
  | none => exact keeps_fail _
  | some code => exact keeps_pure _

theorem keeps_makeAccountActor (code : Option Cid) (addr : Address) : Keeps R (makeAccountActor vm code addr) := by
  unfold makeAccountActor
  split
  · exact .bind (keeps_newAccountActor vm code) fun _ => keeps_pure _
  · exact .bind (keeps_newAccountActor vm code) fun _ => keeps_pure _
  all_goals exact keeps_pure _

variable {code : Option Cid}
omit [InitLib] in
theorem newAccountActor_val
    (h : (do let act ← newAccountActor vm code; pure (.ok act) : Vm (Except ActorError Actor)) w = (w', .val (.ok act))) : act.balance = 0 := by
  obtain ⟨act', w1, hnew, hrest⟩ := bind_eq_val h
  cases hrest
  rcases code with _ | code
  · cases hnew
  cases hnew
  rfl

omit [InitLib] in
theorem makeAccountActor_val (h : makeAccountActor vm code addr w = (w', .val (.ok act))) : act.balance = 0 := by
  unfold makeAccountActor at h
  cases hpr : addr.protocol with
  | bls | secp256k1 =>
    rw [hpr] at h
    exact newAccountActor_val vm h
  | id | actor | unknown =>
    rw [hpr] at h
    cases h

omit vm in
theorem run_setNewAccount (addrID : Address) (hz : act.balance = 0) (w : World) : Run nv w (setNewAccount addrID act w).1 := by
  obtain ⟨st', hrd, hset⟩ := setActor_spec w.tree addrID act
  unfold setNewAccount
  rw [hset]
  rcases hlk : w.tree.lookupVal addrID with e | i
  · have ho : occupied w.tree addrID = false := by
      unfold occupied
      rw [hlk]
    rw [ho, Bool.or_false]
    exact (treeRun_reads hrd).run
  have ho : occupied w.tree addrID = (w.tree.view i).isSome := by
    unfold occupied
    rw [hlk]
  rw [ho]
  have hb := hrd.sameBelow.trans (sameBelow_write st' i (some act))
  refine ⟨hb, rfl, id, fun h => (Bool.or_eq_false_iff.mp h).1, fun hla hsd => (hsd.sameReads hrd).write hla i (some act), ?_⟩
  intro h7 hla hfree hsd
  have hn : st'.view i = none := by
    rw [hrd.view]
    exact Option.isSome_eq_false_iff.mp (Bool.or_eq_false_iff.mp hfree).2 |> Option.isNone_iff_eq_none.mp
  have hrun : TreeRun nv st' (st'.write i (some act)) :=
    treeRun_write fun _ _ => .opened hn hz
  exact ((treeRun_reads hrd).trans hrun).ledger h7 hla hsd
end

/-! ## Frames -/

section
variable (vm : LegacyVM)

/-- What `internalSend` stands for in a frame: a send that is a run. -/
abbrev SendsRun (internalSend : Address → Address → Nat → Int → Bytes → Vm (Bytes × Option ActorError)) : Prop :=
  ∀ src dst method value params, Keeps (Run vm.networkVersion) (internalSend src dst method value params)

variable {internalSend : Address → Address → Nat → Int → Bytes → Vm (Bytes × Option ActorError)}

theorem keeps_tryCreateAccountActor (hse : SendsRun vm internalSend) (addr : Address) :
    Keeps (Run vm.networkVersion) (tryCreateAccountActor vm internalSend addr) := by
  refine .bind (keeps_chargeGasSafe _) fun r => ?_
  split
  · exact keeps_pure _
  split
  · exact keeps_pure _
  refine .bind (keeps_onTree fun st => treeRun_registerNewAddress addr st) fun r => ?_
  split
  · exact keeps_pure _
  rename_i addrID
  split
  · exact keeps_pure _
  rename_i code _
  intro w
  refine bind_at (keeps_makeAccountActor vm code addr w) fun r w1 hm => ?_
  rcases r with e | act
  · exact keeps_pure _ _
  refine bind_at (run_setNewAccount addrID (makeAccountActor_val vm hm) w1) fun r w2 _ => ?_
  rcases r with e | u
  · exact keeps_pure _ _
  rcases vm.serializeParams addr with e | p
  · exact keeps_pure _ _
  refine Keeps.bind (hse _ _ _ _ _) (fun r => ?_) w2
  split
  · exact keeps_pure _
  refine .bind (keeps_getActor addrID) fun r => ?_
  cases r with
  | error e | ok act => exact keeps_pure _

theorem keeps_shimCall {f : Vm (Except ActorError Bytes)} (hf : Keeps (Run vm.networkVersion) f) :
    Keeps (Run vm.networkVersion) (shimCall vm f) := by
  intro w
  have hrun := hf w
  unfold shimCall
  rcases hfw : f w with ⟨w', o⟩
  rw [hfw] at hrun
  match o with
  | .val (.ok ret) | .val (.error e) =>
    dsimp only
    split
    · exact hrun
    · exact hrun
  | .fail (.actorErr e) => exact hrun
  | .fail (.other msg) => exact hrun
  | .diverge => exact hrun

theorem keeps_send (hse : SendsRun vm internalSend) (toAddr : Address) (method : Nat) (value : Int) (params : Bytes) :
    Keeps (Run vm.networkVersion) (send vm internalSend toAddr method value params) := by
  refine .bind keeps_get fun w => ?_
  split
  · exact keeps_abortf _ _
  refine .bind (keeps_receiver vm) fun self => .bind (hse _ _ _ _ _) fun r => ?_
  split
  · split
    · exact keeps_fail _
    · exact keeps_pure _
  · exact keeps_pure _

/-- **A rule for code**: what sequences keep, and what holds of the calls that write nothing and of each that does, holds of
all code. -/
theorem exec_rule {P : (α : Type) → Vm α → Prop} {send : Address → Nat → Int → Bytes → Vm (ExitCode × Bytes)}
    (hb : ∀ {α β : Type} {m : Vm α} {f : α → Vm β}, P α m → (∀ a, P β (f a)) → P β (m >>= f))
    (hca : ∀ {α : Type} {m : Vm α}, (∀ R [Harmless R], Keeps R m) → P α m) (hnew : P _ (newActorAddress vm))
    (hcr : ∀ codeID addr, P _ (createActor vm codeID addr)) (hde : ∀ beneficiary, P _ (deleteActor vm beneficiary))
    (hco : ∀ oldh newh msg, P _ (commit vm oldh newh msg))
    (hse : ∀ toAddr method value params, P _ (send toAddr method value params)) (code : Code) : P _ (exec vm send code) := by
  induction code with
  | done ret => exact hca fun _ _ => keeps_pure _
  | panic p | abortf code msg => exact hca fun _ _ => keeps_fail _
  | chargeGas gas k ih => exact hb (hca fun _ _ => keeps_chargeGas gas) fun _ => ih
  | message k ih =>
    exact hb (hca fun _ _ => keeps_caller vm) fun imm => hb (hca fun _ _ => keeps_receiver vm) fun self =>
      hb (hca fun _ _ => keeps_get) fun w => ih imm self w.rt.valueReceived
  | validateImmediateCallerAcceptAny k ih => exact hb (hca fun _ _ => keeps_abortIfAlreadyValidated) fun _ => ih
  | validateImmediateCallerIs as k ih => exact hb (hca fun _ _ => keeps_validateImmediateCallerIs vm as) fun _ => ih
  | validateImmediateCallerType ts k ih =>
    exact hb (hca fun _ _ => keeps_validateImmediateCallerType vm ts) fun _ => ih
  | resolveAddress addr k ih => exact hb (hca fun _ _ => keeps_resolveAddress addr) ih
  | getActorCodeCID addr k ih => exact hb (hca fun _ _ => keeps_getActorCodeCID addr) ih
  | currentBalance k ih => exact hb (hca fun _ _ => keeps_currentBalance vm) ih
  | totalFilCircSupply k ih => exact hb (hca fun _ _ => keeps_totalFilCircSupply vm) ih
  | newActorAddress k ih => exact hb hnew ih
  | createActor codeID addr k ih => exact hb (hcr codeID addr) fun _ => ih
  | deleteActor beneficiary k ih => exact hb (hde beneficiary) fun _ => ih
  | send toAddr method value params k ih => exact hb (hse toAddr method value params) fun r => ih r.1 r.2
  | stateCreate c k ih => exact hb (hco _ _ _) fun _ => ih
  | stateReadonly k ih => exact hb (hca fun _ _ => keeps_headForState vm _ _) ih
  | stateTransaction f obj k ihf ihk =>
    refine hb (hca fun _ _ => keeps_headForState vm _ _) fun baseState => ?_
    refine hb (hca fun _ _ => keeps_modifyFlags) fun _ => hb (ihf baseState) fun r => ?_
    exact hb (hca fun _ _ => keeps_modifyFlags) fun _ => hb (hco _ _ _) fun _ => ihk r

section
variable (hse : SendsRun vm internalSend)
include hse

theorem keeps_invoke (act : Actor) (method : Nat)
    (params : Bytes) : Keeps (Run vm.networkVersion) (invoke vm internalSend act method params) := by
  unfold invoke
  split
  · exact keeps_pure _
  · refine keeps_shimCall vm (exec_rule vm (P := fun _ m => Keeps (Run vm.networkVersion) m) .bind (fun h => h _) ?_ ?_ ?_ ?_ ?_ _)
    exacts [keeps_newActorAddress vm, keeps_createActor vm, keeps_deleteActor vm, keeps_commit vm, keeps_send vm hse]

theorem keeps_targetActor (toAddr : Address) :
    Keeps (Run vm.networkVersion) (targetActor vm internalSend toAddr) := by
  refine .bind (keeps_getActor toAddr) fun r => ?_
  split
  · exact keeps_pure _
  split
  · refine .bind (keeps_tryCreateAccountActor vm hse toAddr) fun r => ?_
    split
    · exact keeps_pure _
    split
    · exact keeps_pure _
    · exact .bind (keeps_caller vm) fun imm =>
        .bind (fun _ => run_frame rfl id) fun _ => keeps_pure _
  · exact keeps_pure _

theorem keeps_sendBody (msg : Message) :
    Keeps (Run vm.networkVersion) (sendBody vm internalSend msg) := by
  refine .bind (keeps_targetActor vm hse msg.toAddr) fun r => ?_
  split
  · exact keeps_pure _
  refine .bind (keeps_chargeGasSafe _) fun r => ?_
  split
  · exact keeps_pure _
  refine .bind ?_ fun r => ?_
  · split
    · exact keeps_onTree fun st => treeRun_reads (.refl st)
    · exact keeps_transfer vm msg.fromAddr msg.toAddr msg.value
  split
  · exact keeps_pure _
  split
  · exact keeps_pure _
  · exact keeps_invoke vm hse _ _ _
end

instance : IsPreorder StateTree SameReads where
  refl := .refl
  trans _ _ _ := .trans

omit vm in
theorem keeps_resolveAddressIn (addr : Address) : Keeps SameReads (resolveAddressIn addr) :=
  fun st => (resolveAddressIn_spec addr st).1

theorem keeps_makeRuntime (parent : Option Runtime) (msg : Message) : Keeps SameReads (makeRuntime vm parent msg) := by
  unfold makeRuntime
  dsimp only
  split
  · exact keeps_fail _
  split
  · exact keeps_fail _
  refine .bind (keeps_resolveAddressIn msg.fromAddr) fun r => ?_
  split
  · exact keeps_fail _
  refine .bind ?_ fun _ => keeps_pure _
  unfold resolveTo
  split
  · exact keeps_pure _
  · exact keeps_resolveAddressIn msg.toAddr

theorem makeRuntime_val {parent : Option Runtime} {msg : Message} {st st' : StateTree} {rt : Runtime}
    (h : makeRuntime vm parent msg st = (st', .val rt)) :
    rt.gasUsed = (parent.map (·.gasUsed)).getD 0 ∧ rt.gasAvailable = msg.gasLimit ∧
      st.lookupVal msg.fromAddr = .ok rt.caller ∧ rt.origin = (parent.map (·.origin)).getD msg.fromAddr ∧
      rt.originNonce = (parent.map (·.originNonce)).getD msg.nonce ∧
      rt.numActorsCreated = (parent.map (·.numActorsCreated)).getD 0 := by
  unfold makeRuntime at h
  split at h
  · cases h
  split at h
  · cases h
  obtain ⟨r, st1, hre, h⟩ := bind_eq_val h
  rcases r with _ | resF
  · cases h
  obtain ⟨-, hlk⟩ := resolveAddressIn_spec msg.fromAddr st
  rw [hre] at hlk
  obtain ⟨resT, st2, -, h⟩ := bind_eq_val h
  cases h
  exact ⟨rfl, rfl, hlk resF rfl, rfl, rfl, rfl⟩

omit vm in
/-- **A call in a frame of its own**: what is below is kept, a failed call leaves the layers as they were, and one that is
merged what the callee left. -/
theorem run_call {nv : Nat} {w w' : World} {rt : Runtime} (failed : Bool) (created : UInt64)
    (hu : rt.gasUsed = w.rt.gasUsed) (ha : rt.gasAvailable = w.rt.gasAvailable)
    (h : Run nv { w with tree := w.tree.snapshot, rt } w') :
    Run nv w { w' with
        tree := (if failed then w'.tree.revert else w'.tree).clearSnapshot
        rt := { w.rt with gasUsed := w'.rt.gasUsed, numActorsCreated := created } } := by
  have hg : w.rt.gasUsed ≤ w.rt.gasAvailable → w'.rt.gasUsed ≤ w.rt.gasAvailable := by
    rw [← hu, ← ha]
    exact h.used
  cases failed with
  | true =>
    obtain ⟨hv, hlk⟩ := h.below.revert_reads
    refine ⟨h.below.revert, rfl, hg, h.reused, fun _ hsd => ?_, fun _ _ _ _ => ?_⟩
    · exact hsd.of_reads (h.below.revert.layers_ne hsd.layers_ne) hlk
    show Evolves Actor.balance w.tree.view w'.tree.revert.clearSnapshot.view
    rw [hv]
    exact .refl _
  | false =>
    refine ⟨h.below.clearSnapshot, rfl, hg, h.reused, fun hla hsd => ?_, fun h7 hla hfree hsd => ?_⟩
    · obtain ⟨-, hlk⟩ := h.below.clearSnapshot_reads hsd.layers_ne
      exact (h.sound hla hsd.snapshot).of_reads (h.below.clearSnapshot.layers_ne hsd.layers_ne) hlk
    obtain ⟨hv, -⟩ := h.below.clearSnapshot_reads hsd.layers_ne
    show Evolves Actor.balance w.tree.view w'.tree.clearSnapshot.view
    rw [hv, ← view_snapshot w.tree]
    exact h.ledger h7 hla hfree hsd.snapshot

section
variable {body : Message → Vm (Bytes × Option ActorError)} (hb : ∀ msg, Keeps (Run vm.networkVersion) (body msg))
include hb

theorem callFrame_spec (msg : Message) (w : World)
    (hli : msg.gasLimit = w.rt.gasAvailable) :
    ∃ rt w', rt.gasUsed = w.rt.gasUsed ∧ rt.gasAvailable = w.rt.gasAvailable ∧
      Run vm.networkVersion { w with rt } w' ∧
      (callFrame vm body msg w).1 = { w' with rt := { w.rt with gasUsed := w'.rt.gasUsed } } := by
  have hrd := keeps_makeRuntime vm (some w.rt) msg w.tree
  unfold callFrame
  rcases hm : makeRuntime vm (some w.rt) msg w.tree with ⟨tree, rt | p | _⟩
  · rw [hm] at hrd
    obtain ⟨hu, ha, -⟩ := makeRuntime_val vm hm
    have hrun := hb msg { w with tree, rt }
    have hre : Run vm.networkVersion { w with rt } { w with tree, rt } :=
      TreeRun.run (w := { w with rt }) (treeRun_reads hrd)
    refine ⟨rt, (body msg { w with tree, rt }).1, hu, ha.trans hli, hre.trans hrun, ?_⟩
    dsimp only
    rcases body msg { w with tree, rt } with ⟨w', ⟨ret, err⟩ | p | _⟩
    all_goals rfl
  all_goals
    rw [hm] at hrd
    exact ⟨w.rt, { w with tree }, rfl, rfl, (treeRun_reads hrd).run, rfl⟩

theorem sendsRun_internalSend : SendsRun vm (VM.internalSend (callFrame vm body)) := by
  intro src dst method value params w
  obtain ⟨rt, w', hu, ha, hrun, hfr⟩ := callFrame_spec vm hb ⟨src, dst, 0, value, w.rt.gasAvailable, 0, 0, method, params⟩
    { w with tree := w.tree.snapshot } rfl
  unfold VM.internalSend
  rcases hca : callFrame vm body ⟨src, dst, 0, value, w.rt.gasAvailable, 0, 0, method, params⟩
    { w with tree := w.tree.snapshot } with ⟨w2, ⟨ret, err, created⟩ | p | _⟩
  · rw [hca] at hfr
    have hm := run_call (w := w) err.isSome created hu ha hrun
    obtain rfl : w2 = _ := hfr
    exact hm
  · rw [hca] at hfr
    have hm := run_call (w := w) false w.rt.numActorsCreated hu ha hrun
    obtain rfl : w2 = _ := hfr
    exact hm
  rw [hca] at hfr
  have hm := run_call (w := w) false w.rt.numActorsCreated hu ha hrun
  obtain rfl : w2 = _ := hfr
  exact hm
end

theorem keeps_sendFrame (fuel : Nat) (msg : Message) : Keeps (Run vm.networkVersion) (sendFrame vm fuel msg) := by
  induction fuel generalizing msg with
  | zero => exact keeps_diverge
  | succ fuel ih => exact keeps_sendBody vm (sendsRun_internalSend vm ih) msg
end
end Lotus.VM

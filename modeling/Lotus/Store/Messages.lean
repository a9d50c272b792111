/-
# The messages of a tipset (`chain/store/messages.go`).

`BlockMsgsForTipset` selects, for every sender, the messages that continue the nonces selected before. The first message of a
sender always is: the source relies on the check that every block has passed alone.
-/
import Lotus.Exchange.Server
import Lotus.Lib.Sequence
import Lotus.State.Tree

namespace Lotus.Store
open Exchange Lib.Sequence State

structure BlockMessages where
  miner : Address
  blsMessages : List ChainMsg
  secpkMessages : List ChainMsg
  deriving DecidableEq

/-- The messages of a block in the order in which they are applied. -/
def BlockMessages.all (bm : BlockMessages) : List ChainMsg := bm.blsMessages ++ bm.secpkMessages

/-- The variables of the closure `selectMsg`: the state tree, and the nonce expected of a sender. -/
structure Selector where
  st : StateTree
  applied : GoMap Address UInt64

section
variable [InitLib] (resolve : Bool)

/-- The sender of a message as `selectMsg` keeps it: the ID address from the hyperdrive upgrade on, and
what the message says before. -/
def senderKey (st : StateTree) (m : Message) : StateTree × Except GoError Address :=
  if resolve then st.lookupID m.fromAddr else (st, .ok m.fromAddr)

def selectMsg (s : Selector) (m : Message) : Except GoError (Selector × Bool) :=
  match senderKey resolve s.st m with
  | (_, .error e) => .error e
  | (st, .ok sender) =>
    let applied := if s.applied.lookup sender = none then s.applied.insert sender m.nonce else s.applied
    if applied.lookup sender ≠ some m.nonce then .ok (⟨st, applied⟩, false)
    else .ok (⟨st, applied.insert sender (m.nonce + 1)⟩, true)

def selectMsgs : List ChainMsg → Selector → Except GoError (Selector × List ChainMsg)
  | [], s => .ok (s, [])
  | cm :: msgs, s =>
    match selectMsg resolve s cm.vmMessage with
    | .error e => .error (.wrap "failed to decide whether to select message for block" e)
    | .ok (s, selected) =>
      match selectMsgs msgs s with
      | .error e => .error e
      | .ok (s, rest) => .ok (s, if selected then cm :: rest else rest)

variable (cs : ServerStore)

/-- One round of `BlockMsgsForTipset`. -/
def blockMsgs (b : BlockHeader) (s : Selector) : Except GoError (Selector × BlockMessages) :=
  match messagesForBlock cs b with
  | .error e => .error (.wrap "failed to get messages for block" e)
  | .ok (bms, sms) =>
    match selectMsgs resolve (bms.map .message) s with
    | .error e => .error e
    | .ok (s, bls) =>
      match selectMsgs resolve (sms.map .signed) s with
      | .error e => .error e
      | .ok (s, secpk) => .ok (s, ⟨b.miner, bls, secpk⟩)

def blockMsgsLoop : List BlockHeader → Selector → Except GoError (List BlockMessages)
  | [], _ => .ok []
  | b :: blks, s =>
    match blockMsgs resolve cs b s with
    | .error e => .error e
    | .ok (s, bm) =>
      match blockMsgsLoop blks s with
      | .error e => .error e
      | .ok out => .ok (bm :: out)
end

section
variable [InitLib] (upgradeHyperdriveHeight : Int) (cs : ServerStore)
  (loadStateTree : BlockHeader → Except GoError StateTree)

/-- `ChainStore.BlockMsgsForTipset`; `loadStateTree` loads the tree at the `ParentStateRoot` of a
header. -/
def blockMsgsForTipset (ts : TipSet) : Except GoError (List BlockMessages) :=
  match loadStateTree ts.first with
  | .error e => .error (.wrap "failed to load state tree at tipset" e)
  | .ok st => blockMsgsLoop (decide (ts.height ≥ upgradeHyperdriveHeight)) cs ts.blks ⟨st, ∅⟩

def messagesForTipset (ts : TipSet) : Except GoError (List ChainMsg) :=
  match blockMsgsForTipset upgradeHyperdriveHeight cs loadStateTree ts with
  | .error e => .error e
  | .ok bmsgs => .ok (bmsgs.flatMap BlockMessages.all)
end

/-! ## Selection is a sequencer -/

section
variable [InitLib] {resolve : Bool} {cs : ServerStore}

section
variable (resolve : Bool) (st : StateTree) (m : Message)

/-- What `senderKey` returns. -/
def senderVal : Except GoError Address :=
  if resolve then st.lookupVal m.fromAddr else .ok m.fromAddr

def senderOf : Address :=
  (senderVal resolve st m).toOption.getD .undef

variable {resolve st m}

theorem senderKey_ok {st' : StateTree} {sender : Address} (h : senderKey resolve st m = (st', .ok sender)) :
    senderVal resolve st m = .ok sender ∧ senderOf resolve st m = sender ∧ st.SameReads st' := by
  obtain ⟨hv, hrd⟩ : (senderKey resolve st m).2 = senderVal resolve st m ∧ st.SameReads (senderKey resolve st m).1 := by
    rcases resolve with _ | _
    · exact ⟨rfl, .refl st⟩
    · exact st.lookupID_spec m.fromAddr
  rw [h] at hv hrd
  exact ⟨hv.symm, by rw [senderOf, ← hv]; rfl, hrd⟩
end

/-- `msgs` were offered in order to the sequencer, under their own nonce for a new sender; `out` were selected. -/
structure Admits (resolve : Bool) (s : Selector) (msgs : List ChainMsg) (s' : Selector) (out : List ChainMsg) :
    Prop where
  reads : s.st.SameReads s'.st
  senders : ∀ cm ∈ msgs, senderVal resolve s.st cm.vmMessage = .ok (senderOf resolve s.st cm.vmMessage)
  accepted : (s'.applied, out) = acceptAll (fun cm : ChainMsg => senderOf resolve s.st cm.vmMessage)
    (fun cm => cm.vmMessage.nonce) (fun cm => cm.vmMessage.nonce) msgs s.applied

theorem Admits.nil (s : Selector) : Admits resolve s [] s [] := ⟨.refl _, by simp, rfl⟩

theorem Admits.append {s s1 s2 : Selector} {msgs msgs' out out' : List ChainMsg} (h : Admits resolve s msgs s1 out)
    (h' : Admits resolve s1 msgs' s2 out') : Admits resolve s (msgs ++ msgs') s2 (out ++ out') := by
  have hv : senderVal resolve s1.st = senderVal resolve s.st := by
    funext m
    unfold senderVal
    rw [h.reads.lookup]
  have hof : senderOf resolve s1.st = senderOf resolve s.st := by
    funext m
    unfold senderOf
    rw [hv]
  obtain ⟨hrd, hse, ha⟩ := h'
  rw [hv, hof] at hse
  rw [hof] at ha
  refine ⟨h.reads.trans hrd, List.forall_mem_append.mpr ⟨h.senders, hse⟩, ?_⟩
  rw [acceptAll_append, ← h.accepted, ← ha]

theorem selectMsg_accepts {s s' : Selector} {cm : ChainMsg} {selected : Bool}
    (h : selectMsg resolve s cm.vmMessage = .ok (s', selected)) : Admits resolve s [cm] s' (if selected then [cm] else []) := by
  revert h
  fun_cases selectMsg with
  | case1 => exact nofun
  | case2 st sender hk applied hne =>
    rintro ⟨⟩
    obtain ⟨hv, hsn, hrd⟩ := senderKey_ok hk
    have ha : accept s.applied sender cm.vmMessage.nonce cm.vmMessage.nonce = (applied, false) := if_neg hne
    exact ⟨hrd, List.forall_mem_singleton.mpr (hsn ▸ hv), by simp only [acceptAll, hsn, ha]⟩
  | case3 st sender hk applied heq =>
    rintro ⟨⟩
    obtain ⟨hv, hsn, hrd⟩ := senderKey_ok hk
    have ha : accept s.applied sender cm.vmMessage.nonce cm.vmMessage.nonce = (_, true) := if_pos (not_not.mp heq)
    exact ⟨hrd, List.forall_mem_singleton.mpr (hsn ▸ hv), by simp only [acceptAll, hsn, ha]; rfl⟩

theorem selectMsgs_accepts {s s' : Selector} {msgs out : List ChainMsg}
    (h : selectMsgs resolve msgs s = .ok (s', out)) : Admits resolve s msgs s' out := by
  fun_induction selectMsgs generalizing out with
  | case1 s =>
    cases h
    exact .nil _
  | case4 cm msgs s s1 selected ho s2 rest hrest ih =>
    cases h
    have ha := (selectMsg_accepts ho).append (ih hrest)
    rcases selected with _ | _ <;> exact ha
  | _ => cases h

def blockContent (cs : ServerStore) (b : BlockHeader) : List ChainMsg :=
  match messagesForBlock cs b with
  | .error _ => []
  | .ok (bms, sms) => bms.map .message ++ sms.map .signed

theorem blockMsgs_accepts {s s' : Selector} {b : BlockHeader} {bm : BlockMessages}
    (h : blockMsgs resolve cs b s = .ok (s', bm)) : Admits resolve s (blockContent cs b) s' bm.all := by
  revert h
  fun_cases blockMsgs with
  | case4 bms sms hlo s1 bls hb s2 secpk hsp =>
    rintro ⟨⟩
    rw [blockContent, hlo]
    exact (selectMsgs_accepts hb).append (selectMsgs_accepts hsp)
  | _ => exact nofun

theorem blockMsgsLoop_accepts {blks : List BlockHeader} {s : Selector} {bms : List BlockMessages}
    (h : blockMsgsLoop resolve cs blks s = .ok bms) :
    ∃ s', Admits resolve s (blks.flatMap (blockContent cs)) s' (bms.flatMap BlockMessages.all) := by
  fun_induction blockMsgsLoop generalizing bms with
  | case1 s =>
    cases h
    exact ⟨s, .nil s⟩
  | case4 b blks s s1 bm ho out hrest ih =>
    cases h
    obtain ⟨s2, ha⟩ := ih hrest
    exact ⟨s2, (blockMsgs_accepts ho).append ha⟩
  | _ => cases h
end
end Lotus.Store

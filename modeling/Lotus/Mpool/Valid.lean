/-
# The messages that `SelectMessages` returns make a valid block.

Those selected of the messages pending under an address are a beginning of what can be applied to its actor in a row. A
message of a reverted tipset is pending under its sender as written, so an actor may have messages under two addresses.
-/
import Lotus.Mpool.Greedy
import Lotus.Mpool.Optimal

namespace Lotus.Mpool
open Lib.Strand Store List AList

/-! ## Pending messages by address -/

def pairs (pending : GoMap Address MsgSet) : List (Address × MsgSet) := pending.entries.map fun e => (e.1, e.2)

variable {a : Address} {mset s : MsgSet} {pending : GoMap Address MsgSet}

theorem mem_pairs : (a, mset) ∈ pairs pending ↔ pending.lookup a = some mset := by
  rw [← Option.mem_def, mem_lookup_iff, pairs, mem_map]
  constructor
  · rintro ⟨⟨a', mset'⟩, hmem, heq⟩
    cases heq
    exact hmem
  · exact fun hmem => ⟨⟨a, mset⟩, hmem, rfl⟩

theorem nodup_pairs (pending : GoMap Address MsgSet) : ((pairs pending).map (·.1)).Nodup := by
  rw [pairs, map_map]
  exact pending.nodupKeys

theorem pairs_erase (h : pending.lookup a = some mset) : ((a, mset) :: pairs (pending.erase a)).Perm (pairs pending) := by
  have hk : a ∈ pending.entries.keys := mem_keys.mp (lookup_isSome.mp (by simp [h]))
  obtain ⟨mset', l1, l2, -, hents, hera⟩ := exists_of_kerase hk
  have hpa : pairs pending = l1.map (fun e => (e.1, e.2)) ++ (a, mset') :: l2.map fun e => (e.1, e.2) := by
    rw [pairs, hents, map_append, map_cons]
  have hsa : mset' = mset := by
    have hlk : pending.lookup a = some mset' := mem_pairs.mp (by simp [hpa])
    exact Option.some.inj (hlk.symm.trans h)
  rw [hpa, hsa, pairs]
  show Perm (_ :: (pending.entries.kerase a).map _) _
  rw [hera, map_append]
  exact perm_middle.symm

section
variable (api : Provider) (baseFee : Int) (ts : TipSet)

def stream (a : Address) (mset : MsgSet) : List SignedMessage :=
  match api.getActorAfter a ts with
  | .error _ => []
  | .ok act => (candidates (api.onChainMessage ts.height) baseFee act mset).map (·.1)

/-- Of every owner a beginning of its stream was chosen, and none of another address. -/
def Chosen (owners : List (Address × MsgSet))
    (tagged : List (Address × SignedMessage)) : Prop :=
  ∀ a, ofTag a tagged = [] ∨ ∃ mset, (a, mset) ∈ owners ∧ ofTag a tagged <+: stream api baseFee ts a mset
end

section
variable {api : Provider} {baseFee : Int} {ts : TipSet}
variable {owners owners' : List (Address × MsgSet)}

theorem Chosen.nil : Chosen api baseFee ts owners [] := fun _ => .inl rfl

variable {tagged : List (Address × SignedMessage)}

theorem Chosen.append {tagged' : List (Address × SignedMessage)} (h : Chosen api baseFee ts owners tagged)
    (h' : Chosen api baseFee ts owners' tagged') (hn : ((owners ++ owners').map (·.1)).Nodup) :
    Chosen api baseFee ts (owners ++ owners') (tagged ++ tagged') := by
  intro a
  rw [ofTag_append]
  rcases h a with hni | ⟨mset, hmem, hle⟩
  · rw [hni, nil_append]
    exact (h' a).imp_right fun ⟨mset, hmem, hle⟩ => ⟨mset, mem_append_right _ hmem, hle⟩
  rcases h' a with hn' | ⟨mset', hmem', -⟩
  · rw [hn', append_nil]
    exact .inr ⟨mset, mem_append_left _ hmem, hle⟩
  · rw [map_append, nodup_append] at hn
    exact absurd rfl (hn.2.2 a (mem_map_of_mem hmem) a (mem_map_of_mem hmem'))

theorem Chosen.perm (h : Chosen api baseFee ts owners tagged) (hpe : owners.Perm owners') :
    Chosen api baseFee ts owners' tagged :=
  fun a => (h a).imp_right fun ⟨mset, hmem, hle⟩ => ⟨mset, hpe.subset hmem, hle⟩
end

section
variable {F E : Type} [LinearOrder F] [Zero E] (fl : Floats F E) {api : Provider} {baseFee : Int} {ts : TipSet}

theorem chainsOf_msgs (a : Address) (mset : MsgSet) :
    (chainsOf api fl baseFee ts a mset).flatMap (·.msgs) = stream api baseFee ts a mset := by
  unfold chainsOf stream
  rcases api.getActorAfter a ts with e | act
  · rfl
  · exact createMessageChains_msgs fl _ _ act mset

def ownerOf (owners : List (Address × MsgSet)) (k : Nat) : Address := (owners[k]?.map (·.1)).getD .undef

variable {owners : List (Address × MsgSet)}

theorem ownerOf_inj (hn : (owners.map (·.1)).Nodup) {k k' : Nat}
    {o o' : Address × MsgSet} (hk : owners[k]? = some o) (hk' : owners[k']? = some o')
    (h : ownerOf owners k = ownerOf owners k') : k = k' := by
  simp only [ownerOf, hk, hk', Option.map_some, Option.getD_some] at h
  have hlt : k < (owners.map (·.1)).length := by
    rw [length_map]
    exact (List.getElem?_eq_some_iff.mp hk).1
  apply (getElem?_inj hlt hn).mp
  rw [getElem?_map, getElem?_map, hk, hk', Option.map_some, Option.map_some, h]

theorem Packed.chosen {sm sm' : SelectedMessages}
    (h : Packed (owners.map fun o => chainsOf api fl baseFee ts o.1 o.2) sm sm') (hno : (owners.map (·.1)).Nodup) :
    ∃ tagged, sm'.msgs = sm.msgs ++ tagged.map (·.2) ∧ Chosen api baseFee ts owners tagged := by
  obtain ⟨-, picks, hms, hpi⟩ := h
  have hli : ∀ k, Lines.line (owners.map fun o => chainsOf api fl baseFee ts o.1 o.2) k =
      (owners[k]?.map fun o => chainsOf api fl baseFee ts o.1 o.2).getD [] := by
    intro k
    rw [Lines.line, getElem?_map]
  -- a message is only picked from the line of an owner
  have how : ∀ x ∈ picks, ∃ o, owners[x.1]? = some o := by
    intro x hx
    rcases ho : owners[x.1]? with _ | o
    · have hn := hpi x.1
      rw [hli, ho] at hn
      have hmem : x.2 ∈ ofTag x.1 picks := mem_ofTag.mpr hx
      simp [prefix_nil.mp hn] at hmem
    · exact ⟨o, rfl⟩
  refine ⟨picks.map fun x => (ownerOf owners x.1, x.2), ?_, fun a => ?_⟩
  · rw [hms, map_map]
    rfl
  by_cases hni : ofTag a (picks.map fun x => (ownerOf owners x.1, x.2)) = []
  · exact .inl hni
  obtain ⟨m, hm⟩ := exists_mem_of_ne_nil _ hni
  obtain ⟨x, hx, hxa⟩ := mem_map.mp (mem_ofTag.mp hm)
  cases hxa
  obtain ⟨⟨a, mset⟩, ho⟩ := how x hx
  have ha : ownerOf owners x.1 = a := by simp [ownerOf, ho]
  refine .inr ⟨mset, ha ▸ mem_of_getElem? ho, ?_⟩
  rw [ofTag_rename]
  · have hle := hpi x.1
    rw [hli, ho] at hle
    rw [ha, ← chainsOf_msgs fl]
    exact hle
  intro y hy hyx
  obtain ⟨o, ho'⟩ := how y hy
  exact ownerOf_inj hno ho' ho hyx
end

/-! ## Priority messages -/

/-- The key of an address is an address of the same actor. -/
structure KeysAgree (api : Provider) (curTs ts : TipSet) (keyCache : GoMap Address Address) : Prop where
  cached : ∀ a k, keyCache.lookup a = some k → api.getActorAfter a ts = api.getActorAfter k ts
  resolved : ∀ a k, api.stateAccountKeyAtFinality a curTs = .ok k → api.getActorAfter a ts = api.getActorAfter k ts

section
variable {api : Provider} {curTs ts : TipSet} {keyCache keyCache' : GoMap Address Address}

theorem KeysAgree.resolveToKey {a k : Address} (h : KeysAgree api curTs ts keyCache)
    (hre : resolveToKey api curTs keyCache a = (.ok k, keyCache')) :
    api.getActorAfter a ts = api.getActorAfter k ts ∧ KeysAgree api curTs ts keyCache' := by
  revert hre
  fun_cases Mpool.resolveToKey with
  | case1 k' hca =>
    rintro ⟨⟩
    exact ⟨h.cached a _ hca, h⟩
  | case2 => exact nofun
  | case3 _ ka hka =>
    rintro ⟨⟩
    have ha := h.resolved a _ hka
    refine ⟨ha, fun b k hb => ?_, h.resolved⟩
    rcases GoMap.lookup_insert_some hb with ⟨rfl, rfl⟩ | ⟨-, hb⟩
    · rfl
    rcases GoMap.lookup_insert_some hb with ⟨rfl, rfl⟩ | ⟨-, hb⟩
    · exact ha
    · exact h.cached b k hb

variable {F E : Type} [LinearOrder F] [Zero E] (fl : Floats F E) {baseFee : Int}

theorem priorityChains_owned {priority : List Address} {pending pending' : GoMap Address MsgSet}
    {ls ls' : Lines F E} {ok : Bool} (h : KeysAgree api curTs ts keyCache)
    (hrun : priorityChains api fl curTs ts baseFee priority keyCache pending ls = (ok, pending', ls')) :
    ∃ owned : List (Address × MsgSet), (owned ++ pairs pending').Perm (pairs pending) ∧
      ls' = ls ++ owned.map fun o => chainsOf api fl baseFee ts o.1 o.2 := by
  fun_induction priorityChains with
  | case1 | case2 =>
    obtain ⟨-, rfl, rfl⟩ := hrun
    exact ⟨[], .refl _, (append_nil _).symm⟩
  | case3 actor priority keyCache pending ls pk keyCache' hre _ ih => exact ih (h.resolveToKey hre).2 hrun
  | case4 actor priority keyCache pending ls pk keyCache' hre mset hm ih =>
    obtain ⟨hsa, ha⟩ := h.resolveToKey hre
    obtain ⟨owned, hpe, rfl⟩ := ih ha hrun
    refine ⟨(pk, mset) :: owned, (hpe.cons _).trans (pairs_erase hm), ?_⟩
    have hch : chainsOf api fl baseFee ts actor mset = chainsOf api fl baseFee ts pk mset := by
      rw [chainsOf, chainsOf, hsa]
    rw [hch, map_cons, append_assoc]
    rfl
end

/-! ## The selection -/

def SigsKnown (pending : GoMap Address MsgSet) : Prop :=
  ∀ a mset, pending.lookup a = some mset → ∀ m ∈ mset.toList, m.sigType ≠ .unknown

theorem within_start : (⟨[], blockGasLimit, maxLength, maxLength⟩ : SelectedMessages).Within where
  nonneg := by
    show (0 : Int) ≤ blockGasLimit
    decide
  gas := by simp
  count := Nat.zero_le _

section
variable {F E : Type} [LinearOrder F] [Zero F] [Zero E] {fl : Floats F E} {choose : Choices} {api : Provider}
  {mp : MessagePool} {fuel : Nat} {ts : TipSet} {baseFee : Int} {pending pending' : GoMap Address MsgSet}

omit [Zero F] in
theorem fresh_lines {owners : List (Address × MsgSet)} (h : ∀ o ∈ owners, ∀ m ∈ o.2.toList, m.sigType ≠ .unknown)
    (k : Nat) : Fresh (Lines.line (owners.map fun o => chainsOf api fl baseFee ts o.1 o.2) k) := by
  unfold Lines.line
  rw [getElem?_map]
  rcases ho : owners[k]? with _ | o
  · exact fresh_nil
  · exact createMessageChains_fresh fl _ _ _ (h o (mem_of_getElem? ho))

theorem selectPriorityMessages_chosen {sm : SelectedMessages} (hsi : SigsKnown pending)
    (hk : KeysAgree api mp.curTs ts mp.keyCache)
    (hrun : selectPriorityMessages api fl choose mp fuel pending baseFee ts = some (sm, pending')) :
    sm.Within ∧ ∃ owned tagged, (owned ++ pairs pending').Perm (pairs pending) ∧ sm.msgs = tagged.map (·.2) ∧
      Chosen api baseFee ts owned tagged := by
  simp only [selectPriorityMessages] at hrun
  rcases hch : priorityChains api fl mp.curTs ts baseFee mp.priorityAddrs mp.keyCache pending [] with ⟨ok, rest, ls⟩
  rw [hch] at hrun
  obtain ⟨owned, hpe, rfl⟩ := priorityChains_owned fl hk hch
  rcases ok with _ | _
  · cases hrun
    exact ⟨within_start, owned, [], hpe, rfl, .nil⟩
  obtain ⟨sm', hpa, heq⟩ := Option.map_eq_some_iff.mp hrun
  obtain ⟨rfl, rfl⟩ := Prod.mk.inj heq
  have hmem : ∀ o ∈ owned, pending.lookup o.1 = some o.2 := fun o ho =>
    mem_pairs.mp (hpe.subset (mem_append_left _ ho))
  have hn : ((owned ++ pairs rest).map (·.1)).Nodup :=
    (hpe.map _).nodup_iff.mpr (nodup_pairs pending)
  rw [map_append, nodup_append] at hn
  have hpac := packChains_packed fl choose baseFee (fresh_lines fun o ho => hsi o.1 o.2 (hmem o ho)) within_start hpa
  obtain ⟨tagged, hm, hcho⟩ := hpac.chosen fl hn.1
  exact ⟨hpac.1, owned, tagged, hpe, hm, hcho⟩

theorem selectWith_chosen {full : SelectedMessages → Bool}
    {pack : (baseFee : Int) → Lines F E → SelectedMessages → Option SelectedMessages}
    (hpa : ∀ {baseFee ls sm sm'}, (∀ k, Fresh (Lines.line ls k)) → sm.Within → pack baseFee ls sm = some sm' →
      Packed ls sm sm') (hpen : getPendingMessages api mp fuel ts = some (.ok pending)) (hsi : SigsKnown pending)
    (hk : KeysAgree api mp.curTs ts mp.keyCache) {sm : SelectedMessages}
    (hrun : selectWith api fl choose full pack mp fuel ts = some (.ok (some sm))) :
    sm.Within ∧ ∃ baseFee tagged, sm.msgs = tagged.map (·.2) ∧ Chosen api baseFee ts (pairs pending) tagged := by
  unfold selectWith at hrun
  rw [hpen] at hrun
  split at hrun
  · cases hrun
  rename_i baseFee _
  simp only at hrun
  split at hrun
  · cases hrun
  split at hrun
  · cases hrun
  rename_i result rest hpr
  obtain ⟨hwi, owned, tagged, hpe, hm, hch⟩ := selectPriorityMessages_chosen hsi hk hpr
  split at hrun
  · cases Except.ok.inj (Option.some.inj hrun)
    refine ⟨hwi, baseFee, tagged, hm, fun a => ?_⟩
    refine (hch a).imp_right fun ⟨mset, hmem, hle⟩ => ⟨mset, ?_, hle⟩
    exact hpe.subset (mem_append_left _ hmem)
  obtain ⟨sm', hsm', heq⟩ := Option.map_eq_some_iff.mp hrun
  cases Except.ok.inj heq
  -- the owners of the second selection are the addresses that are still pending
  have ha : (owned ++ choose.rangePending rest).Perm (pairs pending) :=
    ((choose.range_perm rest).append_left owned).trans hpe
  have hn : ((owned ++ choose.rangePending rest).map (·.1)).Nodup :=
    (ha.map _).nodup_iff.mpr (nodup_pairs pending)
  have hkn : ∀ o ∈ choose.rangePending rest, ∀ m ∈ o.2.toList, m.sigType ≠ .unknown := fun o ho =>
    hsi o.1 o.2 (mem_pairs.mp (ha.subset (mem_append_right _ ho)))
  have hpac := hpa (fresh_lines hkn) hwi hsm'
  have hrest := hn
  rw [map_append, nodup_append] at hrest
  obtain ⟨tagged', hm', hc'⟩ := hpac.chosen fl hrest.2.1
  refine ⟨hpac.1, baseFee, tagged ++ tagged', ?_, (hch.append hc' hn).perm ha⟩
  rw [hm', hm, map_append]

theorem selectMessages_chosen {tq : E} {msgs : List SignedMessage}
    (hpe : getPendingMessages api mp fuel ts = some (.ok pending)) (hsi : SigsKnown pending)
    (hk : KeysAgree api mp.curTs ts mp.keyCache) (hrun : selectMessages api fl choose mp fuel ts tq = some (.ok msgs)) :
    gasOf msgs ≤ blockGasLimit ∧ msgs.length ≤ blockMessageLimit ∧
      ∃ baseFee tagged, tagged.map (·.2) = msgs ∧ Chosen api baseFee ts (pairs pending) tagged := by
  have hwa : ∀ sm, (if fl.gt tq fl.highQuality then selectMessagesGreedy api fl choose mp fuel ts
      else selectMessagesOptimal api fl choose mp fuel ts tq) = some (.ok (some sm)) →
      sm.Within ∧ ∃ baseFee tagged, sm.msgs = tagged.map (·.2) ∧ Chosen api baseFee ts (pairs pending) tagged := by
    intro sm hsm
    split at hsm
    · exact selectWith_chosen (packChains_packed fl choose _) hpe hsi hk hsm
    · exact selectWith_chosen (packChainsOptimal_packed fl _ choose) hpe hsi hk hsm
  unfold selectMessages at hrun
  simp only at hrun
  split at hrun
  · cases hrun
  · cases hrun
  · cases Option.some.inj hrun
    exact ⟨by decide, by decide, 0, [], rfl, .nil⟩
  rename_i sm hsm
  obtain ⟨hwi, baseFee, tagged, hm, hch⟩ := hwa sm hsm
  -- the last check of the source never finds too many messages
  rw [if_neg (not_lt.mpr hwi.count)] at hrun
  cases Option.some.inj hrun
  have hg := hwi.gas
  have hnonneg := hwi.nonneg
  exact ⟨by omega, hwi.count, baseFee, tagged, hm.symm, hch⟩
end

/-! ## What is pending -/

section
variable (api : Provider) (baseFee : Int) (ts : TipSet) (a : Address) (mset : MsgSet)

theorem stream_subset :
    stream api baseFee ts a mset ⊆ mset.toList := by
  unfold stream
  split
  · exact nil_subset _
  rename_i act _
  intro m hm
  exact mset.perm_sorted.subset ((candidates_payable _ baseFee act mset).1.subset hm)

theorem stream_nodup :
    (stream api baseFee ts a mset).Nodup := by
  unfold stream
  split
  · exact nodup_nil
  rename_i act _
  refine ((candidates_payable _ baseFee act mset).1).nodup ?_
  exact mset.perm_sorted.nodup_iff.mpr (Nodup.of_map _ mset.nodup_nonces)
end

theorem stream_payable {api : Provider} {baseFee : Int} {ts : TipSet} (h : stream api baseFee ts a mset ≠ []) :
    ∃ act, api.getActorAfter a ts = .ok act ∧ Payable act.nonce.toNat act.balance (stream api baseFee ts a mset) := by
  unfold stream at h ⊢
  split at h
  · exact absurd rfl h
  rename_i act ha
  rw [ha]
  exact ⟨act, rfl, (candidates_payable _ baseFee act mset).2⟩

def FromKeyed (pending : GoMap Address MsgSet) : Prop :=
  ∀ a mset, pending.lookup a = some mset → ∀ m ∈ mset.toList, m.message.fromAddr = a

variable {m : SignedMessage}

theorem MsgSet.mem_add {m' : SignedMessage} (h : m' ∈ (s.add m).toList) : m' = m ∨ m' ∈ s.toList := by
  obtain ⟨n, hn⟩ := mem_toList.mp h
  exact (GoMap.lookup_insert_some hn).imp (·.2) fun hold => mem_toList.mpr ⟨n, hold.2⟩

theorem MsgSet.mem_delete {nonce : UInt64} (h : m ∈ (s.delete nonce).toList) : m ∈ s.toList := by
  obtain ⟨n, hn⟩ := mem_toList.mp h
  exact mem_toList.mpr ⟨n, (GoMap.lookup_erase_some hn).2⟩

section
variable {api : Provider} {mp : MessagePool} {rmsgs : GoMap Address MsgSet}

section
variable (h : FromKeyed rmsgs)
include h

theorem FromKeyed.insert {a : Address} {mset : MsgSet}
    (hms : ∀ m ∈ mset.toList, m.message.fromAddr = a) : FromKeyed (rmsgs.insert a mset) := by
  intro b mset' hb m hm
  rcases GoMap.lookup_insert_some hb with ⟨rfl, rfl⟩ | ⟨-, hb⟩
  · exact hms m hm
  · exact h b mset' hb m hm

theorem FromKeyed.addPending (m : SignedMessage) : FromKeyed (addPending rmsgs m) := by
  refine h.insert fun m' hm' => ?_
  rcases MsgSet.mem_add hm' with rfl | hm'
  · rfl
  rcases hs : rmsgs.lookup m.message.fromAddr with _ | s
  · rw [hs] at hm'
    cases hm'
  · rw [hs] at hm'
    exact h _ s hs m' hm'

theorem FromKeyed.rmPending (m : Message) : FromKeyed (rmPending rmsgs m) := by
  unfold Mpool.rmPending
  split
  · exact h
  · rename_i s hs
    exact h.insert fun m' hm' => h _ s hs m' (MsgSet.mem_delete hm')

theorem FromKeyed.revertAll {revert : List TipSet} {merr : Option GoError} :
    FromKeyed (revertAll api mp revert rmsgs merr).1 := by
  induction revert generalizing rmsgs merr with
  | nil => exact h
  | cons ts revert ih =>
    unfold Mpool.revertAll
    split
    · exact ih h
    · exact ih (foldlRecOn _ _ h fun _ hr m _ => hr.addPending m)

theorem FromKeyed.applyAll {blks : List BlockHeader} {merr : Option GoError} : FromKeyed (applyAll api blks rmsgs merr).1 := by
  induction blks generalizing rmsgs merr with
  | nil => exact h
  | cons b blks ih =>
    unfold Mpool.applyAll
    split
    · exact ih h
    · refine ih (foldlRecOn _ _ ?_ fun _ hr m _ => hr.rmPending m)
      exact foldlRecOn _ _ h fun _ hr m _ => hr.rmPending m

theorem FromKeyed.runHeadChange {fuel : Nat} {fromTs toTs : TipSet} {rmsgs' : GoMap Address MsgSet}
    (hrun : runHeadChange api mp fuel fromTs toTs rmsgs = some (.ok rmsgs')) : FromKeyed rmsgs' := by
  revert hrun
  fun_cases Mpool.runHeadChange with
  | case4 revert apply _ rmsgs1 merr heq _ ha =>
    rintro ⟨⟩
    have hre := @FromKeyed.revertAll api mp _ h revert none
    rw [heq] at hre
    have hap := @FromKeyed.applyAll api _ hre (apply.flatMap (·.blks)) merr
    rwa [ha] at hap
  | _ => exact nofun
end

theorem FromKeyed.getPendingMessages {fuel : Nat} {ts : TipSet} {pending : GoMap Address MsgSet}
    (h : FromKeyed mp.pending) (hpe : getPendingMessages api mp fuel ts = some (.ok pending)) : FromKeyed pending := by
  revert hpe
  fun_cases Mpool.getPendingMessages with
  | case1 =>
    rintro ⟨⟩
    exact h
  | case4 _ pending' hch =>
    rintro ⟨⟩
    exact h.runHeadChange hch
  | _ => exact nofun
end

/-! ## Validity -/

theorem ofTag_eq_filter {tagged : List (Address × SignedMessage)} (h : ∀ x ∈ tagged, x.2.message.fromAddr = x.1)
    (a : Address) : ofTag a tagged = (tagged.map (·.2)).filter fun m => m.message.fromAddr = a := by
  rw [ofTag, filter_map]
  congr 1
  exact filter_congr fun x hx => by simp [h x hx]

def keyAddr : Address := .secp256k1 [1]

def idAddr : Address := .id 100

def sent (cid : Byte) (fromAddr : Address) (nonce : UInt64) : SignedMessage where
  cid := ⟨[cid]⟩
  message := ⟨⟨[cid]⟩, fromAddr, nonce, 0, 2000000, 100, 1, 0, .id 0, 0, []⟩
  sigType := .secp256k1

def targetTs : TipSet := soloTipSet [0] 0 []

def headBlock (cid : Byte) : BlockHeader := ⟨⟨[cid]⟩, .id 0, some ⟨[cid]⟩, targetTs.key, 1, ⟨[cid]⟩⟩

def poolHead : TipSet where
  blks := [headBlock 1, headBlock 2]
  ne := by simp
  tickets := by simp [headBlock]

def forkApi (msgs1 msgs2 : List SignedMessage) : Provider where
  chainComputeBaseFee _ := .ok 0
  getActorAfter a _ :=
    if a = keyAddr ∨ a = idAddr then .ok ⟨⟨[]⟩, ⟨[]⟩, 5, 1000000000000⟩ else .error .actorNotFound
  stateAccountKeyAtFinality a _ := if a = keyAddr ∨ a = idAddr then .ok keyAddr else .error .actorNotFound
  loadTipSet tsk := if tsk = targetTs.key then .ok targetTs else .error (.errorf "block not found")
  messagesForBlock b :=
    if b = headBlock 1 then .ok ([], msgs1) else if b = headBlock 2 then .ok ([], msgs2) else .ok ([], [])
  onChainMessage _ _ := 1000

def forkPool (m : SignedMessage) : MessagePool where
  pending := (∅ : GoMap Address MsgSet).insert keyAddr (MsgSet.empty.add m)
  keyCache := ∅
  curTs := poolHead
  priorityAddrs := [idAddr]
  blsSigCache := ∅

def intFloats : Floats Int Int where
  getGasPerf gasReward gasLimit := gasReward * blockGasLimit / gasLimit
  blockProbabilities _ _ := 1
  highQuality := 84
  ofPerf := id
  ofInt := id
  add := (· + ·)
  sub := (· - ·)
  mul := (· * ·)
  div := (· / ·)
  gt a b := decide (a > b)
  eq a b := decide (a = b)

def plainChoices : Choices where
  rangePending pending := pairs pending
  range_perm _ := .refl _
  sortSlice less chains := chains.insertionSort fun a b => less b a = false
  sort_perm _ _ := perm_insertionSort _ _
  sort_sorted less chains hless := by
    have : Std.Total fun a b => less b a = false := ⟨fun a b => by
      rcases hab : less b a
      · exact .inl rfl
      · exact .inr (hless.asymm b a hab)⟩
    have : IsTrans ChainRef fun a b => less b a = false := ⟨fun a b c hab hbc => by
      by_contra hac
      rcases hless.split c b a (by simpa using hac) with h | h
      · simp [h] at hbc
      · simp [h] at hab⟩
    exact pairwise_insertionSort _ _
  sortRest _ _ rest := rest
  sortRest_perm _ _ _ := .refl _
  shuffleChains chains := chains
  shuffle_perm _ := .refl _

theorem getPendingMessages_fork (m m1 m2 : SignedMessage) :
    getPendingMessages (forkApi [m1] [m2]) (forkPool m) 3 targetTs =
      some (.ok (addPending (addPending (forkPool m).pending m1) m2)) := rfl

theorem keysAgree_fork (msgs1 msgs2 : List SignedMessage) : KeysAgree (forkApi msgs1 msgs2) poolHead targetTs ∅ where
  cached a k h := by simp at h
  resolved a k h := by
    simp only [forkApi] at h ⊢
    split at h
    · rename_i ha
      cases h
      rw [if_pos ha, if_pos (.inl rfl)]
    · cases h

def twoBlocks : Provider := forkApi [sent 1 keyAddr 5] [sent 2 idAddr 5]

def keyPool : MessagePool := forkPool (sent 3 keyAddr 6)

end Lotus.Mpool

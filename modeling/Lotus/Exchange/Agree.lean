/-
# The client accepts what the server sends, and gets back what is stored.

Of one tipset, the rows the server builds (`Rows`) lead back to the messages of each block.
-/
import Lotus.Exchange.Client
import Lotus.Exchange.Server
import Lotus.Types.Canonical

namespace Lotus.Exchange
open Lib.Slice List Bool

/-! ## Rows of indices -/

structure Rows (t : Table Cid) (incl : List (List UInt64)) (rows : List (List Cid)) : Prop where
  lead : ∃ idxs : List (List Nat), incl = idxs.map (·.map UInt64.ofNat) ∧
    Forall₂ (fun ks is => gather t.keys is = .ok ks) rows idxs
  from_rows : ∀ k ∈ t.keys, ∃ ks ∈ rows, k ∈ ks

theorem rows_empty : Rows .empty [] [] where
  lead := ⟨[], rfl, .nil⟩
  from_rows _ hk := absurd hk not_mem_nil

theorem Rows.add {t : Table Cid} {incl : List (List UInt64)} {rows : List (List Cid)} (h : Rows t incl rows)
    (ks : List Cid) : Rows (t.internAll ks).1 (incl ++ [(t.internAll ks).2.map UInt64.ofNat]) (rows ++ [ks]) := by
  obtain ⟨hke, hks⟩ := t.gather_internAll ks
  obtain ⟨idxs, rfl, hro⟩ := h.lead
  refine ⟨⟨idxs ++ [(t.internAll ks).2], ?_, ?_⟩, fun k hk => ?_⟩
  · rw [map_append]
    rfl
  · exact rel_append (hro.imp fun _ _ hg => gather_mono hke hg) (.cons hks .nil)
  rcases Table.mem_internAll hk with hold | hnew
  · obtain ⟨row, hrow, hin⟩ := h.from_rows k hold
    exact ⟨row, mem_append_left _ hrow, hin⟩
  · exact ⟨ks, mem_append_right _ (mem_singleton_self ks), hnew⟩

theorem toNat_ofNat_of_lt {i : Nat} (h : i < 2 ^ 63) : (UInt64.ofNat i).toNat = i := by
  rw [UInt64.toNat_ofNat']
  exact Nat.mod_eq_of_lt (by omega)

theorem toNat_ofNat_of_gather {α : Type} {l as : List α} {is : List Nat} (hsi : l.length < 2 ^ 63)
    (h : gather l is = .ok as) : (is.map UInt64.ofNat).map UInt64.toNat = is := by
  have hlt := gather_isOk.mp ⟨as, h⟩
  rw [map_map]
  refine (map_congr_left fun i hi => ?_).trans (map_id is)
  have hil := hlt i hi
  exact toNat_ofNat_of_lt (by omega)

section
variable {M : Type} {get : Cid → Except GoError M} {t : Table Cid} {incl : List (List UInt64)}
  {rows : List (List Cid)} {msgs : List M}

section
variable (h : Rows t incl rows) (hm : t.keys.mapM get = .ok msgs) (hsi : msgs.length < 2 ^ 63)
include h hm hsi

theorem Rows.included {i : Nat}
    {ks : List Cid} (hi : rows[i]? = some ks) : ∃ ms, ks.mapM get = .ok ms ∧ included msgs incl i = .ok ms := by
  have hlen := (mapM_ok.mp hm).length_eq
  obtain ⟨idxs, rfl, hro⟩ := h.lead
  obtain ⟨hil, hks⟩ := List.getElem?_eq_some_iff.mp hi
  have hi' : i < idxs.length := hro.length_eq ▸ hil
  have hg := hro.get hil hi'
  rw [get_eq_getElem, get_eq_getElem] at hg
  rw [hks] at hg
  obtain ⟨ms, hms, hge⟩ := gather_map hm hg
  refine ⟨ms, hms, ?_⟩
  rw [included_row msgs (show (idxs.map fun is => is.map UInt64.ofNat)[i]? = some (idxs[i].map UInt64.ofNat) by
        rw [getElem?_map, getElem?_eq_getElem hi']; rfl),
    toNat_ofNat_of_gather (by omega) hg]
  exact hge

theorem Rows.checked : Checked rows.length msgs.length incl := by
  have hlen := (mapM_ok.mp hm).length_eq
  obtain ⟨idxs, rfl, hro⟩ := h.lead
  refine ⟨by rw [length_map, hro.length_eq], ?_⟩
  intro mis hmis mi hmi
  obtain ⟨is, his, rfl⟩ := mem_map.mp hmis
  obtain ⟨i, hi, rfl⟩ := mem_map.mp hmi
  obtain ⟨n, hn, rfl⟩ := mem_iff_getElem.mp his
  have hg := hro.get (hro.length_eq ▸ hn) hn
  rw [get_eq_getElem, get_eq_getElem] at hg
  have hlt := gather_isOk.mp ⟨_, hg⟩ i hi
  refine (goInt_lt _ _).mpr (Or.inl ?_)
  rw [toNat_ofNat_of_lt (by omega)]
  omega
end
end

/-! ## The messages of a tipset -/

section
variable (cs : ServerStore)
variable {blks : List BlockHeader}

theorem gatherLoop_ok {g g' : Gathered} {bls secpk : List (List Cid)} (hb : Rows g.bls g.blsincl bls)
    (hs : Rows g.secpk g.secpkincl secpk) (h : gatherLoop cs g blks = .ok g') :
    ∃ cids, Forall₂ (fun b c => readMsgMetaCids cs b.messages = .ok c) blks cids ∧
      Rows g'.bls g'.blsincl (bls ++ cids.map Prod.fst) ∧
      Rows g'.secpk g'.secpkincl (secpk ++ cids.map Prod.snd) := by
  induction blks generalizing g bls secpk with
  | nil =>
    cases h
    refine ⟨[], .nil, ?_, ?_⟩
    · rw [map_nil, append_nil]
      exact hb
    · rw [map_nil, append_nil]
      exact hs
  | cons b rest ih =>
    unfold gatherLoop at h
    split at h
    · cases h
    rename_i bc sc hre
    obtain ⟨cids, hci, hb', hs'⟩ := ih (hb.add bc) (hs.add sc) h
    refine ⟨(bc, sc) :: cids, .cons hre hci, ?_, ?_⟩
    · rw [append_assoc] at hb'
      exact hb'
    · rw [append_assoc] at hs'
      exact hs'

theorem gatherLoop_isOk (h : ∀ b ∈ blks, ∃ c, readMsgMetaCids cs b.messages = .ok c) (g : Gathered) :
    ∃ g', gatherLoop cs g blks = .ok g' := by
  induction blks generalizing g with
  | nil => exact ⟨g, rfl⟩
  | cons b rest ih =>
    obtain ⟨⟨bc, sc⟩, hre⟩ := h b mem_cons_self
    unfold gatherLoop
    rw [hre]
    exact ih (fun b' hb' => h b' (mem_cons_of_mem b hb')) (g.add bc sc)

theorem messagesForBlock_ok {b : BlockHeader} {ms : List Message × List SignedMessage} :
    messagesForBlock cs b = .ok ms ↔ ∃ c, readMsgMetaCids cs b.messages = .ok c ∧
      loadMessagesFromCids cs c.1 = .ok ms.1 ∧ loadSignedMessagesFromCids cs c.2 = .ok ms.2 := by
  constructor
  · fun_cases messagesForBlock with
    | case4 bc sc hre bls hb secpk hsp =>
      rintro ⟨⟩
      exact ⟨(bc, sc), hre, hb, hsp⟩
    | _ => exact nofun
  rintro ⟨⟨bc, sc⟩, hre, hb, hsp⟩
  unfold messagesForBlock
  rw [hre]
  dsimp only at hb hsp ⊢
  rw [hb]
  rw [hsp]

def storedBlock (b : BlockHeader) : Except GoError FullBlock :=
  match messagesForBlock cs b with
  | .error e => .error e
  | .ok (bls, secpk) => .ok ⟨b, bls, secpk⟩

def storedTipSet (ts : TipSet) : Except GoError FullTipSet :=
  match ts.blks.mapM (storedBlock cs) with
  | .error e => .error e
  | .ok blocks => .ok ⟨blocks⟩

variable {ts : TipSet} {msgs : CompactedMessages}

theorem gatherMessages_ok (h : gatherMessages cs ts = .ok msgs) :
    ∃ (bls secpk : Table Cid) (cids : List (List Cid × List Cid)),
      loadMessagesFromCids cs bls.keys = .ok msgs.bls ∧
      loadSignedMessagesFromCids cs secpk.keys = .ok msgs.secpk ∧
      Forall₂ (fun b c => readMsgMetaCids cs b.messages = .ok c) ts.blks cids ∧
      Rows bls msgs.blsIncludes (cids.map Prod.fst) ∧
      Rows secpk msgs.secpkIncludes (cids.map Prod.snd) := by
  revert h
  fun_cases gatherMessages with
  | case4 g hlo bls hbl secpk hsp =>
    rintro ⟨⟩
    obtain ⟨cids, hci, hb, hs⟩ := gatherLoop_ok cs rows_empty rows_empty hlo
    exact ⟨g.bls, g.secpk, cids, hbl, hsp, hci, hb, hs⟩
  | _ => exact nofun

theorem gathered_roundtrip (h : gatherMessages cs ts = .ok msgs) (hsi : msgs.Sized) : msgs.Valid ts.blks.length ∧
      ∃ fts, storedTipSet cs ts = .ok fts ∧ fullTipSet (ts, msgs) = .ok fts := by
  obtain ⟨bls, secpk, cids, hbls, hsp, hci, hb, hs⟩ := gatherMessages_ok cs h
  have hlen : cids.length = ts.blks.length := hci.length_eq.symm
  refine ⟨⟨?_, ?_⟩, ?_⟩
  · have hch := hb.checked hbls hsi.bls
    rw [length_map, hlen] at hch
    exact hch
  · have hch := hs.checked hsp hsi.secpk
    rw [length_map, hlen] at hch
    exact hch
  have hbl : ∃ blocks, ts.blks.mapM (storedBlock cs) = .ok blocks ∧ ts.blks.zipIdx.mapM (fullBlock msgs) = .ok blocks := by
    refine mapM_zipIdx fun i b hi => ?_
    have hi' : i < ts.blks.length := (List.getElem?_eq_some_iff.mp hi).1
    have hic : i < cids.length := hlen ▸ hi'
    have hre := hci.get hi' hic
    rw [get_eq_getElem, get_eq_getElem] at hre
    rw [(List.getElem?_eq_some_iff.mp hi).2] at hre
    have hro : ∀ f : List Cid × List Cid → List Cid, (cids.map f)[i]? = some (f cids[i]) := by
      intro f
      rw [getElem?_map, getElem?_eq_getElem hic]
      rfl
    obtain ⟨blsmsgs, hblsm, hincl⟩ := hb.included hbls hsi.bls (hro Prod.fst)
    obtain ⟨secpkmsgs, hse, hsin⟩ := hs.included hsp hsi.secpk (hro Prod.snd)
    have hblk : messagesForBlock cs b = .ok (blsmsgs, secpkmsgs) :=
      (messagesForBlock_ok cs).mpr ⟨cids[i], hre, hblsm, hse⟩
    refine ⟨⟨b, blsmsgs, secpkmsgs⟩, ?_, ?_⟩
    · unfold storedBlock
      rw [hblk]
    · exact bind_ok.mpr ⟨blsmsgs, hincl, bind_ok.mpr ⟨secpkmsgs, hsin, rfl⟩⟩
  obtain ⟨blocks, hst, hfu⟩ := hbl
  refine ⟨⟨blocks⟩, ?_, bind_ok.mpr ⟨blocks, hfu, rfl⟩⟩
  unfold storedTipSet
  rw [hst]

theorem gatherMessages_isOk (h : ∀ b ∈ ts.blks, ∃ ms, messagesForBlock cs b = .ok ms) :
    ∃ msgs, gatherMessages cs ts = .ok msgs := by
  have hre : ∀ b ∈ ts.blks, ∃ c, readMsgMetaCids cs b.messages = .ok c := by
    intro b hb
    obtain ⟨ms, hms⟩ := h b hb
    obtain ⟨c, hc, -⟩ := (messagesForBlock_ok cs).mp hms
    exact ⟨c, hc⟩
  obtain ⟨g, hg⟩ := gatherLoop_isOk cs hre .empty
  obtain ⟨cids, hci, hb, hs⟩ := gatherLoop_ok cs rows_empty rows_empty hg
  have hlo : ∀ c ∈ cids, (∃ ms, loadMessagesFromCids cs c.1 = .ok ms) ∧ ∃ ms, loadSignedMessagesFromCids cs c.2 = .ok ms := by
    intro c hc
    obtain ⟨i, hi, rfl⟩ := mem_iff_getElem.mp hc
    have hi' : i < ts.blks.length := hci.length_eq ▸ hi
    have hr' := hci.get hi' hi
    obtain ⟨ms, hms⟩ := h ts.blks[i] (getElem_mem hi')
    obtain ⟨c', hc', hbl, hsp⟩ := (messagesForBlock_ok cs).mp hms
    rw [get_eq_getElem, get_eq_getElem] at hr'
    rw [hr', Except.ok.injEq] at hc'
    rw [hc']
    exact ⟨⟨_, hbl⟩, _, hsp⟩
  -- a CID of a table is one of a block, whose messages are there
  have hbl : ∃ msgs, loadMessagesFromCids cs g.bls.keys = .ok msgs := by
    refine mapM_isOk.mpr fun k hk => ?_
    obtain ⟨ks, hks, hin⟩ := hb.from_rows k hk
    obtain ⟨c, hc, rfl⟩ := mem_map.mp hks
    exact mapM_isOk.mp (hlo c hc).1 k hin
  have hsp : ∃ msgs, loadSignedMessagesFromCids cs g.secpk.keys = .ok msgs := by
    refine mapM_isOk.mpr fun k hk => ?_
    obtain ⟨ks, hks, hin⟩ := hs.from_rows k hk
    obtain ⟨c, hc, rfl⟩ := mem_map.mp hks
    exact mapM_isOk.mp (hlo c hc).2 k hin
  obtain ⟨blsmsgs, hbl⟩ := hbl
  obtain ⟨secpkmsgs, hsp⟩ := hsp
  refine ⟨⟨blsmsgs, g.blsincl, secpkmsgs, g.secpkincl⟩, ?_⟩
  unfold gatherMessages
  rw [hg]
  dsimp only
  rw [hbl]
  dsimp only
  rw [hsp]
end

/-! ## Chains in the store -/

section
variable [Blake2b] (cs : ServerStore)

/-- A tipset of the store: its messages are there and fit a slice, and its tickets have different digests. -/
structure Stored (ts : TipSet) : Prop where
  messages : ∀ b ∈ ts.blks, ∃ ms, messagesForBlock cs b = .ok ms
  sized : ∀ msgs, gatherMessages cs ts = .ok msgs → msgs.Sized
  noCollision : NoCollision ts.blks

inductive ChainFrom : TipSetKey → List TipSet → Prop where
  | genesis {key : TipSetKey} {ts : TipSet} (load : loadTipSet cs key = .ok ts) (stored : Stored cs ts)
      (height : ts.height = 0) : ChainFrom key [ts]
  | child {key : TipSetKey} {ts parent : TipSet} {rest : List TipSet}
      (load : loadTipSet cs key = .ok ts) (stored : Stored cs ts) (height : parent.height < ts.height)
      (tail : ChainFrom ts.parents (parent :: rest)) : ChainFrom key (ts :: parent :: rest)

def ByCid : Prop := ∀ c b, cs.getBlock c = .ok b → b.cid = c

variable {cs}
variable {key : TipSetKey} {ts : TipSet}

theorem loadTipSet_ok (h : loadTipSet cs key = .ok ts) :
    ∃ blks, Forall₂ (fun c b => cs.getBlock c = .ok b) key blks ∧ newTipSet blks = .ok ts := by
  unfold loadTipSet at h
  split at h
  · cases h
  rename_i blks hbl
  refine ⟨blks, (mapM_ok.mp hbl).imp fun c b hb => ?_, h⟩
  unfold loadBlock at hb
  split at hb
  · cases hb
  rename_i hg
  cases hb
  exact hg

theorem loadTipSet_cids (hci : ByCid cs) (h : loadTipSet cs key = .ok ts) : ts.cids.Perm key := by
  obtain ⟨blks, hb, hts⟩ := loadTipSet_ok h
  obtain ⟨-, -, hso, -⟩ := newTipSet_ok hts
  have hk : blks.map (·.cid) = key := by
    rw [← forall₂_eq_eq_eq, forall₂_map_left_iff]
    exact hb.flip.imp fun b c hg => hci c b hg
  unfold TipSet.cids
  rw [hso, ← hk]
  exact (sortBlocks_perm blks).map _

omit [Blake2b] in
theorem cidArrsEqual_of_perm {a b : List Cid} (h : a.Perm b) : cidArrsEqual a b = true := by
  unfold cidArrsEqual
  rw [and_eq_true, beq_iff_eq, all_eq_true]
  exact ⟨h.length_eq, fun c hc => contains_iff_mem.mpr (h.mem_iff.mpr hc)⟩

theorem ChainFrom.load {rest : List TipSet} (h : ChainFrom cs key (ts :: rest)) :
    loadTipSet cs key = .ok ts ∧ Stored cs ts := by
  cases h with
  | genesis load stored height | child load stored height tail => exact ⟨load, stored⟩

variable {chain tipsets served : List TipSet}

section
variable (h : ChainFrom cs key chain)
include h

theorem ChainFrom.ne_nil : chain ≠ [] := by
  cases h with
  | genesis load stored height | child load stored height tail => exact cons_ne_nil _ _

theorem ChainFrom.stored : ∀ ts ∈ chain, Stored cs ts ∧ newTipSet ts.blks = .ok ts := by
  have ho : ∀ {key ts}, loadTipSet cs key = .ok ts → Stored cs ts → Stored cs ts ∧ newTipSet ts.blks = .ok ts := by
    intro key ts hlo hst
    obtain ⟨blks, -, hts⟩ := loadTipSet_ok hlo
    exact ⟨hst, newTipSet_again hts hst.noCollision⟩
  induction h with
  | genesis load stored height => exact forall_mem_singleton.mpr (ho load stored)
  | child load stored height tail ih => exact forall_mem_cons.mpr ⟨ho load stored, ih⟩

theorem ChainFrom.height_nonneg : ∀ ts ∈ chain.head?, 0 ≤ ts.height := by
  induction h with
  | genesis load stored height =>
    rintro _ ⟨⟩
    omega
  | child load stored height tail ih =>
    rintro _ ⟨⟩
    have := ih _ rfl
    omega
end

theorem ChainFrom.connected_take (hci : ByCid cs) (h : ChainFrom cs key chain) (n : Nat) :
    connected (chain.take n) = true := by
  induction h generalizing n with
  | genesis load stored height =>
    obtain _ | n := n
    · rfl
    · rw [take_succ_cons, take_nil]
      rfl
  | @child key ts parent rest load stored height tail ih =>
    obtain _ | _ | n := n
    · rfl
    · rfl
    have hpa := loadTipSet_cids hci tail.load.1
    have hch : ts.isChildOf parent = true := by
      unfold TipSet.isChildOf
      rw [and_eq_true, decide_eq_true_iff]
      exact ⟨cidArrsEqual_of_perm hpa.symm, height⟩
    show (ts.isChildOf parent && connected (parent :: rest.take n)) = true
    rw [hch, Bool.true_and]
    exact ih (n + 1)

/-! ## The walk of the server -/

variable (cs) in
def Entry (options : ParsedOptions) (ts : TipSet) (e : Option BSTipSet) : Prop :=
  ∃ msgs, entryMessages cs options ts = .ok msgs ∧
    e = some ⟨if options.includeHeaders then ts.blks.map some else [], msgs⟩

theorem entryMessages_isOk (options : ParsedOptions) (h : Stored cs ts) : ∃ msgs, entryMessages cs options ts = .ok msgs := by
  unfold entryMessages
  split
  · obtain ⟨msgs, hm⟩ := gatherMessages_isOk cs h.messages
    rw [hm]
    exact ⟨_, rfl⟩
  · exact ⟨_, rfl⟩

theorem collectLoop_chain (options : ParsedOptions) (h : ChainFrom cs key chain) (n : Nat) :
    ∃ entries, collectLoop cs options (n + 1) key = .ok entries ∧
      Forall₂ (Entry cs options) (chain.take (n + 1)) entries := by
  induction h generalizing n with
  | genesis load stored height =>
    obtain ⟨msgs, hm⟩ := entryMessages_isOk options stored
    unfold collectLoop
    rw [load]
    dsimp only
    rw [hm]
    dsimp only
    rw [if_pos (Or.inr height), take_succ_cons, take_nil]
    exact ⟨_, rfl, .cons ⟨msgs, hm, rfl⟩ .nil⟩
  | @child key ts parent rest load stored height tail ih =>
    obtain ⟨msgs, hm⟩ := entryMessages_isOk options stored
    have hpa := tail.height_nonneg parent rfl
    unfold collectLoop
    rw [load]
    dsimp only
    rw [hm]
    dsimp only
    rcases n with _ | n
    · rw [if_pos (Or.inl rfl)]
      exact ⟨_, rfl, .cons ⟨msgs, hm, rfl⟩ .nil⟩
    obtain ⟨entries, hlo, hents⟩ := ih n
    rw [if_neg (by omega), hlo]
    exact ⟨_, rfl, .cons ⟨msgs, hm, rfl⟩ hents⟩

/-! ## The checks of the client -/

variable {options : ParsedOptions} {e : Option BSTipSet}

theorem Entry.validTipSet (h : Entry cs options ts e) (hh : options.includeHeaders = true)
    (hts : newTipSet ts.blks = .ok ts) : validTipSet e = .ok ts := by
  obtain ⟨msgs, -, rfl⟩ := h
  have hb : (ts.blks.map some).mapM presentBlock = .ok ts.blks := by
    rw [mapM_ok, forall₂_map_left_iff]
    exact forall₂_same.mpr fun b _ => rfl
  unfold Exchange.validTipSet
  dsimp only
  rw [if_pos hh, hb]
  dsimp only
  rw [hts]

omit [Blake2b] in
theorem Entry.validMessages (h : Entry cs options ts e) (hme : options.includeMessages = true) :
    ∃ msgs, gatherMessages cs ts = .ok msgs ∧ validMessages e = .ok msgs := by
  obtain ⟨msgs, hm, rfl⟩ := h
  unfold entryMessages at hm
  rw [if_pos hme] at hm
  split at hm
  · cases hm
  rename_i msgs hg
  cases hm
  exact ⟨msgs, hg, rfl⟩

variable {entries : List (Option BSTipSet)} {req : Request}

theorem validateHeaders_served (hci : ByCid cs) (h : ChainFrom cs req.head chain) (hh : options.includeHeaders = true)
    {n : Nat} (hents : Forall₂ (Entry cs options) (chain.take (n + 1)) entries) :
    validateHeaders req entries = .ok (chain.take (n + 1)) := by
  have hst : ∀ ts ∈ chain.take (n + 1), newTipSet ts.blks = .ok ts := fun ts hts =>
    (h.stored ts (mem_of_mem_take hts)).2
  have hlo : entries.mapM Exchange.validTipSet = .ok (chain.take (n + 1)) := by
    refine mapM_ok.mpr (Forall₂.flip ?_)
    have hb := (forall₂_and_left _ _).mpr ⟨hst, hents⟩
    exact hb.imp fun ts e he => he.2.validTipSet hh he.1
  obtain ⟨ts, rest, rfl⟩ := exists_cons_of_ne_nil h.ne_nil
  have hco := h.connected_take hci (n + 1)
  have hhead : cidArrsEqual ts.cids req.head = true :=
    cidArrsEqual_of_perm (loadTipSet_cids hci h.load.1)
  rw [take_succ_cons] at hlo hco ⊢
  unfold validateHeaders
  rw [hlo]
  dsimp only
  rw [hhead, if_neg true_eq_false_eq_False, hco, if_neg true_eq_false_eq_False]

omit [Blake2b] in
theorem entries_messages (hme : options.includeMessages = true)
    (h : Forall₂ (Entry cs options) tipsets entries) : ∃ msgs, entries.mapM Exchange.validMessages = .ok msgs ∧
      Forall₂ (fun ts m => gatherMessages cs ts = .ok m) tipsets msgs := by
  induction h with
  | nil => exact ⟨[], rfl, .nil⟩
  | cons he _ ih =>
    obtain ⟨m, hg, hm⟩ := he.validMessages hme
    obtain ⟨msgs, hms, ha⟩ := ih
    exact ⟨m :: msgs, by rw [mapM_cons, hm, hms], .cons hg ha⟩

omit [Blake2b] in
theorem entries_blocksNum (hh : options.includeHeaders = true)
    (h : Forall₂ (Entry cs options) tipsets entries) : entries.map blocksNum = tipsets.map (·.blks.length) := by
  rw [← forall₂_eq_eq_eq, forall₂_map_left_iff, forall₂_map_right_iff]
  refine h.flip.imp fun e ts he => ?_
  obtain ⟨msgs, -, rfl⟩ := he
  show (if options.includeHeaders = true then ts.blks.map some else []).length = ts.blks.length
  rw [if_pos hh, length_map]

variable {msgs : List CompactedMessages}

section
omit [Blake2b]

theorem validateMessages_served (hents : Forall₂ (Entry cs options) served entries)
    (hm : entries.mapM Exchange.validMessages = .ok msgs) (hv : ∀ p ∈ served.zip msgs, p.2.Valid p.1.blks.length)
    (hg : options.includeHeaders = false → served <+: tipsets) :
    validateMessages options entries tipsets = .ok msgs := by
  have hlen : served.length = msgs.length :=
    hents.length_eq.trans (mapM_ok.mp hm).length_eq
  unfold validateMessages
  rw [hm]
  dsimp only
  split
  · rename_i hh
    rw [entries_blocksNum hh hents, validateCompressedIndices_ok.mpr (valid_zip.mpr hv)]
  rename_i hh
  obtain ⟨rest, rfl⟩ := hg (eq_false_iff.mpr hh)
  have hz : (served ++ rest).zip msgs = served.zip msgs := by
    have ha : (served ++ rest).zip (msgs ++ []) = served.zip msgs ++ rest.zip [] :=
      zip_append hlen
    rw [append_nil, zip_nil_right, append_nil] at ha
    exact ha
  have heno : ¬ (served ++ rest).length < entries.length := by
    rw [length_append, ← hents.length_eq]
    omega
  rw [if_neg heno, validateCompressedIndices_ok.mpr (valid_zip.mpr (by rw [hz]; exact hv))]

theorem stored_zip
    (h : Forall₂ (fun ts m => ∃ fts, storedTipSet cs ts = .ok fts ∧ fullTipSet (ts, m) = .ok fts) tipsets msgs) :
    ∃ fts, tipsets.mapM (storedTipSet cs) = .ok fts ∧ (tipsets.zip msgs).mapM fullTipSet = .ok fts := by
  induction h with
  | nil => exact ⟨[], rfl, rfl⟩
  | cons ho _ ih =>
    obtain ⟨ft, hst, hfu⟩ := ho
    obtain ⟨fts, ha, hz⟩ := ih
    refine ⟨ft :: fts, ?_, ?_⟩
    · rw [mapM_cons, hst, ha]
    · rw [zip_cons_cons, mapM_cons, hfu, hz]

theorem goInt_of_le {n : UInt64} (h : n.toNat ≤ maxRequestLength) : goInt n = n.toNat := by
  unfold maxRequestLength Store.forkLengthThreshold at h
  exact Int.bmod_eq_of_le (by omega) (by omega)
end

theorem processRequest_served (h : ChainFrom cs req.head chain) (hpo : 0 < req.length.toNat)
    (hm : req.length.toNat ≤ maxRequestLength) (ho : (parseOptions req.options).noOptionsSet = false) : ∃ entries,
      Forall₂ (Entry cs (parseOptions req.options)) (chain.take req.length.toNat) entries ∧
      processRequest cs req = ⟨if chain.length < req.length.toNat then statusPartial else statusOk, "", entries⟩ := by
  have hhead : req.head.length ≠ 0 := by
    intro hz
    obtain ⟨ts, rest, rfl⟩ := exists_cons_of_ne_nil h.ne_nil
    have hlo := h.load.1
    rw [eq_nil_of_length_eq_zero hz] at hlo
    cases hlo
  have hne0 : req.length ≠ 0 := by
    intro hz
    rw [hz] at hpo
    exact absurd hpo (by decide)
  obtain ⟨n, hn⟩ := Nat.exists_eq_succ_of_ne_zero (Nat.pos_iff_ne_zero.mp hpo)
  obtain ⟨entries, hloop, hents⟩ := collectLoop_chain (parseOptions req.options) h n
  refine ⟨entries, by rw [hn]; exact hents, ?_⟩
  have hlen : (entries.length : Int) < goInt req.length ↔ chain.length < req.length.toNat := by
    rw [← hents.length_eq, length_take, goInt_of_le hm]
    omega
  unfold processRequest validateRequest
  rw [if_neg (by rw [ho]; exact false_ne_true), if_neg (by omega), if_neg hne0, if_neg hhead]
  unfold serviceRequest collectChainSegment
  dsimp only
  rw [hn, hloop]
  dsimp only
  rw [← hn]
  simp only [hlen]

theorem gathered_valid (hst : ∀ ts ∈ served, Stored cs ts)
    (h : Forall₂ (fun ts m => gatherMessages cs ts = .ok m) served msgs) :
    Forall₂ (fun ts m => m.Valid ts.blks.length ∧
      ∃ fts, storedTipSet cs ts = .ok fts ∧ fullTipSet (ts, m) = .ok fts) served msgs :=
  ((forall₂_and_left _ _).mpr ⟨hst, h⟩).imp fun _ m hm =>
    gathered_roundtrip cs hm.2 (hm.1.sized m hm.2)

omit [Blake2b] in
theorem statusToError_served (p : Prop) [Decidable p] (entries : List (Option BSTipSet)) :
    (⟨if p then statusPartial else statusOk, "", entries⟩ : Response).statusToError = none := by
  refine if_pos ?_
  split
  · exact Or.inr rfl
  · exact Or.inl rfl

theorem messages_served (h : ChainFrom cs req.head chain)
    (hents : Forall₂ (Entry cs (parseOptions req.options)) (chain.take req.length.toNat) entries)
    (hg : (parseOptions req.options).includeHeaders = false → chain.take req.length.toNat <+: tipsets) :
    ∃ msgs, (if (parseOptions req.options).includeMessages then
        validateMessages (parseOptions req.options) entries tipsets else .ok []) = .ok msgs ∧
      ((parseOptions req.options).includeMessages = true →
        Forall₂ (fun ts m => gatherMessages cs ts = .ok m) (chain.take req.length.toNat) msgs) ∧
      ((parseOptions req.options).includeMessages = false → msgs = []) := by
  by_cases hme : (parseOptions req.options).includeMessages = true
  · obtain ⟨msgs, hm, hga⟩ := entries_messages hme hents
    have hst : ∀ ts ∈ chain.take req.length.toNat, Stored cs ts := fun ts hts =>
      (h.stored ts (mem_of_mem_take hts)).1
    have hv : ∀ p ∈ (chain.take req.length.toNat).zip msgs, p.2.Valid p.1.blks.length := by
      rintro ⟨ts, m⟩ hmem
      exact (forall₂_zip (gathered_valid hst hga) hmem).1
    refine ⟨msgs, ?_, fun _ => hga, fun hno => absurd hme (by rw [hno]; exact false_ne_true)⟩
    rw [if_pos hme]
    exact validateMessages_served hents hm hv hg
  · exact ⟨[], by rw [if_neg hme], fun hye => absurd hye hme, fun _ => rfl⟩

/-- **Client and server agree** on a chain in the store: the response is accepted, partial exactly when genesis is reached
early, with the first tipsets of the chain and the messages of every block. -/
theorem exchange_agrees (hcids : ByCid cs) (req : Request) (chain : List TipSet) (h : ChainFrom cs req.head chain)
    (hpos : 0 < req.length.toNat) (hmax : req.length.toNat ≤ maxRequestLength)
    (hopt : (parseOptions req.options).noOptionsSet = false) (tipsets : List TipSet)
    (hgiven : (parseOptions req.options).includeHeaders = false → chain.take req.length.toNat <+: tipsets) :
    ∃ v, processResponse req (processRequest cs req) tipsets = .ok v ∧
      ((processRequest cs req).status =
        if chain.length < req.length.toNat then statusPartial else statusOk) ∧
      ((parseOptions req.options).includeHeaders = true → v.tipsets = chain.take req.length.toNat) ∧
      ((parseOptions req.options).includeHeaders = true →
        (parseOptions req.options).includeMessages = true →
        ∃ fts, v.toFullTipSets = .ok fts ∧ (chain.take req.length.toNat).mapM (storedTipSet cs) = .ok fts) ∧
      ∀ msgs ∈ v.messages, ∃ bls secpk : List Cid, bls.Nodup ∧ secpk.Nodup ∧
        loadMessagesFromCids cs bls = .ok msgs.bls ∧
        loadSignedMessagesFromCids cs secpk = .ok msgs.secpk := by
  obtain ⟨entries, hents, hre⟩ := processRequest_served h hpos hmax hopt
  obtain ⟨msgs, hv, hga, hno⟩ := messages_served h hents hgiven
  have hst : ∀ ts ∈ chain.take req.length.toNat, Stored cs ts := fun ts hts =>
    (h.stored ts (mem_of_mem_take hts)).1
  have hlen := hents.length_eq
  rw [length_take] at hlen
  have hch := length_pos_iff.mpr h.ne_nil
  have hint := goInt_of_le hmax
  have hh : (if (parseOptions req.options).includeHeaders then validateHeaders req entries else .ok []) =
      .ok (if (parseOptions req.options).includeHeaders then chain.take req.length.toNat else []) := by
    obtain ⟨n, hn⟩ := Nat.exists_eq_succ_of_ne_zero (Nat.pos_iff_ne_zero.mp hpos)
    split
    · rename_i hye
      rw [hn] at hents ⊢
      exact validateHeaders_served hcids h hye hents
    · rfl
  rw [hre]
  refine ⟨⟨if (parseOptions req.options).includeHeaders then chain.take req.length.toNat else [], msgs⟩,
    processResponse_ok.mpr ?_, rfl, fun hye => if_pos hye, fun hye hms => ?_, fun m hm => ?_⟩
  · refine ⟨statusToError_served _ entries, ?_, ?_, fun hsh => if_pos ?_, hopt, hh, hv⟩
    · have hso : 0 < entries.length := by omega
      exact length_pos_iff.mp hso
    · show (entries.length : Int) ≤ goInt req.length
      omega
    · have hs' : (entries.length : Int) < goInt req.length := hsh
      omega
  · -- the tables lead back to the messages of every block
    have ha := gathered_valid hst (hga hms)
    obtain ⟨fts, hma, hz⟩ := stored_zip (ha.imp fun _ _ hm => hm.2)
    refine ⟨fts, ?_, hma⟩
    unfold ValidatedResponse.toFullTipSets
    have hpa := ha.length_eq
    have hso : ¬ ((chain.take req.length.toNat).length = 0 ∨ (chain.take req.length.toNat).length ≠ msgs.length) := by
      rw [← hpa, length_take]
      omega
    rw [if_pos hye, if_neg hso]
    exact hz
  by_cases hms : (parseOptions req.options).includeMessages = true
  · obtain ⟨i, hi, rfl⟩ := mem_iff_getElem.mp hm
    have hg := (hga hms).get ((hga hms).length_eq ▸ hi) hi
    obtain ⟨bls, secpk, cids, hb, hsp, -⟩ := gatherMessages_ok cs hg
    exact ⟨bls.keys, secpk.keys, bls.keys_nodup, secpk.keys_nodup, hb, hsp⟩
  · rw [hno (eq_false_iff.mpr hms)] at hm
    cases hm
end

@[reducible] def proofDigest : Blake2b := ⟨id⟩

def originBlock : BlockHeader := ⟨⟨[0]⟩, .id 0, some ⟨[]⟩, [], 0, ⟨[10]⟩⟩

def leftBlock : BlockHeader := ⟨⟨[1]⟩, .id 0, some ⟨[1]⟩, [⟨[0]⟩], 1, ⟨[11]⟩⟩

def rightBlock : BlockHeader := ⟨⟨[2]⟩, .id 0, some ⟨[2]⟩, [⟨[0]⟩], 1, ⟨[12]⟩⟩

def originTipSet : TipSet := ⟨[originBlock], by decide, by decide⟩

def pairTipSet : TipSet := ⟨[leftBlock, rightBlock], by decide, by decide⟩

def pairStore : ServerStore where
  getBlock c :=
    if c = ⟨[0]⟩ then .ok originBlock
    else if c = ⟨[1]⟩ then .ok leftBlock
    else if c = ⟨[2]⟩ then .ok rightBlock
    else .error (.errorf "blockstore: block not found")
  msgMeta c := .ok (c, ⟨[]⟩)
  readAMTCids c :=
    if c = ⟨[11]⟩ then .ok [⟨[21]⟩, ⟨[22]⟩]
    else if c = ⟨[12]⟩ then .ok [⟨[22]⟩, ⟨[23]⟩]
    else .ok []
  getMessage c := .ok ⟨c, .id 100, 0, 0, 0, 0, 0, 0, .id 0, 0, []⟩
  getSignedMessage _ := .error (.errorf "blockstore: block not found")

theorem pairStore_byCid : ByCid pairStore := by
  intro c b h
  unfold pairStore at h
  dsimp only at h
  split_ifs at h with hc hc hc
  all_goals
    cases h
    exact hc.symm

theorem noCollision_proofDigest (blks : List BlockHeader) : @NoCollision proofDigest blks := by
  rintro _ _ _ _ ⟨t⟩ ⟨u⟩ _ _ hd
  exact congrArg Ticket.mk hd

theorem pairStore_stored {ts : TipSet} {m : CompactedMessages}
    (hms : ∀ b ∈ ts.blks, (messagesForBlock pairStore b).isOk) (hg : gatherMessages pairStore ts = .ok m)
    (hsi : m.bls.length < 2 ^ 63 ∧ m.secpk.length < 2 ^ 63) : @Stored proofDigest pairStore ts := by
  let _ := proofDigest
  refine ⟨fun b hb => ?_, fun msgs hm => ?_, noCollision_proofDigest _⟩
  · have hok := hms b hb
    generalize messagesForBlock pairStore b = r at hok ⊢
    obtain e | ms := r
    · cases hok
    · exact ⟨ms, rfl⟩
  · cases hg.symm.trans hm
    exact ⟨hsi.1, hsi.2⟩

def pairMessages : CompactedMessages where
  bls := [⟨⟨[21]⟩, .id 100, 0, 0, 0, 0, 0, 0, .id 0, 0, []⟩, ⟨⟨[22]⟩, .id 100, 0, 0, 0, 0, 0, 0, .id 0, 0, []⟩,
    ⟨⟨[23]⟩, .id 100, 0, 0, 0, 0, 0, 0, .id 0, 0, []⟩]
  blsIncludes := [[0, 1], [1, 2]]
  secpk := []
  secpkIncludes := [[], []]

theorem pairStore_chain : @ChainFrom proofDigest pairStore [⟨[1]⟩, ⟨[2]⟩] [pairTipSet, originTipSet] := by
  let _ := proofDigest
  have ho : Stored pairStore originTipSet :=
    @pairStore_stored originTipSet ⟨[], [[]], [], [[]]⟩ (by decide +kernel) (by decide +kernel) (by decide)
  have hpa : Stored pairStore pairTipSet :=
    @pairStore_stored pairTipSet pairMessages (by decide +kernel) (by decide +kernel) (by decide)
  exact .child (by decide +kernel) hpa (by decide) (.genesis (by decide +kernel) ho (by decide))

theorem pair_exchange_agrees :
    let _ := proofDigest
    (processRequest pairStore ⟨[⟨[1]⟩, ⟨[2]⟩], 3, headers ||| messages⟩).status = statusPartial ∧
      ∃ v fts, processResponse ⟨[⟨[1]⟩, ⟨[2]⟩], 3, headers ||| messages⟩
          (processRequest pairStore ⟨[⟨[1]⟩, ⟨[2]⟩], 3, headers ||| messages⟩) [] = .ok v ∧
        v.tipsets = [pairTipSet, originTipSet] ∧ v.toFullTipSets = .ok fts ∧
        [pairTipSet, originTipSet].mapM (storedTipSet pairStore) = .ok fts := by
  intro _
  obtain ⟨v, ha, hst, hh, hb, -⟩ :=
    exchange_agrees pairStore_byCid ⟨[⟨[1]⟩, ⟨[2]⟩], 3, headers ||| messages⟩ [pairTipSet, originTipSet]
      pairStore_chain (by decide) (by decide) (by decide) [] (fun h => absurd h (by decide))
  obtain ⟨fts, hft, hm⟩ := hb (by decide) (by decide)
  exact ⟨hst, v, fts, ha, hh (by decide), hft, hm⟩

end Lotus.Exchange

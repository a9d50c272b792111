/-
# `iterFullTipsets` hands over every tipset once, the oldest first.

The acts of a run are the calls of the callback, from the last header down, and the copies into the permanent store. A step
of the run brings it from one header to another if it succeeds, and has begun to if it does not. Steps compose, and each
copy stands right after a callback that succeeded.
-/
import Lotus.Sync.Bounds

namespace Lotus.Sync
open Lib.Slice Exchange List

section
variable [BlockAdt] (env : SyncEnv) (headers : List TipSet)

/-- The blocks of the tipset, each with the messages that its header's root stands for. -/
def OwnMessages (ts : TipSet) (fts : FullTipSet) : Prop :=
  fts.blocks.map (·.header) = ts.blks ∧
  ∀ b ∈ fts.blocks, checkRoot b.header (b.blsMessages.map (·.cid)) (b.secpkMessages.map (·.cid)) = .ok ()

/-- The blocks of the tipset, each with the messages that the store has for it. -/
def StoredMessages (cs : ServerStore) (ts : TipSet) (fts : FullTipSet) : Prop :=
  fts.blocks.map (·.header) = ts.blks ∧
  ∀ b ∈ fts.blocks, messagesForBlock cs b.header = .ok (b.blsMessages, b.secpkMessages)

def Own (i : Nat) (fts : FullTipSet) : Prop :=
  ∃ ts, headers[i]? = some ts ∧ (StoredMessages (env.store i) ts fts ∨ OwnMessages ts fts)

/-- The callback is called for the headers from the last of `n` down to that at `m`. -/
inductive Down : Nat → Nat → List Act → Prop
  | done (n : Nat) : Down n n []
  | next {n m : Nat} {fts : FullTipSet} {acts : List Act} (hown : Own env headers n fts) (hrest : Down n m acts) :
    Down (n + 1) m (.callback n fts :: acts)
  | copied {n m : Nat} {fts : FullTipSet} {acts : List Act} (hown : Own env headers n fts)
    (hcb : env.cb n fts = .ok ()) (hrest : Down n m acts) : Down (n + 1) m (.callback n fts :: .copy n :: acts)

/-- The step goes down from `n`, to `m` if it succeeds. -/
def Brings (n m : Nat) (d : Done) : Prop := ∃ m', Down env headers n m' d.1 ∧ (d.2 = .ok (.ok ()) → m' = m)
end

section
variable [BlockAdt] {env : SyncEnv} {headers : List TipSet} {n m k i bsi : Nat} {acts acts' : List Act}
  {bstout : List CompactedMessages} {ts : TipSet} {msgs : CompactedMessages} {fts : FullTipSet}

theorem Down.append (h : Down env headers n k acts) (h' : Down env headers k m acts') :
    Down env headers n m (acts ++ acts') := by
  induction h with
  | done n => exact h'
  | next hown _ ih => exact .next hown (ih h')
  | copied hown hcb _ ih => exact .copied hown hcb (ih h')

/-- A step that is over without an act. -/
theorem Brings.quiet {r : Except RuntimePanic (Except GoError Unit)} (hr : r ≠ .ok (.ok ())) : Brings env headers n m ([], r) :=
  ⟨n, .done n, fun h => absurd h hr⟩

theorem Brings.next {d rest : Done} (h : Brings env headers n k d) (hrest : Brings env headers k m rest) :
    Brings env headers n m (d.next rest) := by
  obtain ⟨m1, hd, hm1⟩ := h
  unfold Done.next
  split
  · rename_i hok
    obtain rfl := hm1 hok
    obtain ⟨m2, hd2, hm2⟩ := hrest
    exact ⟨m2, hd.append hd2, hm2⟩
  · rename_i hno
    exact ⟨m1, hd, fun hok => absurd hok hno⟩

def Act.place : Act → Option Nat
  | .callback i _ => some i
  | .copy _ => none

section
variable (h : Down env headers n m acts)
include h

theorem Down.places : m ≤ n ∧ acts.filterMap Act.place = (range' m (n - m)).reverse := by
  induction h with
  | done n => simp
  | @next n m _ _ _ _ ih | @copied n m _ _ _ _ _ ih =>
    refine ⟨by omega, ?_⟩
    rw [show n + 1 - m = n - m + 1 by omega, range'_concat, reverse_append, show m + 1 * (n - m) = n by omega]
    simp [Act.place, filterMap_cons, ih.2]

theorem Down.own (hmem : .callback i fts ∈ acts) : Own env headers i fts := by
  induction h with
  | done n => cases hmem
  | next hown _ ih | copied hown _ _ ih =>
    simp only [mem_cons, Act.callback.injEq, reduceCtorEq, false_or] at hmem
    rcases hmem with ⟨rfl, rfl⟩ | hmem
    · exact hown
    · exact ih hmem

theorem Down.copy {pre post : List Act} (heq : acts = pre ++ .copy i :: post) :
    ∃ pre' fts, pre = pre' ++ [.callback i fts] ∧ env.cb i fts = .ok () := by
  induction h generalizing pre with
  | done n => simp at heq
  | next _ _ ih =>
    rcases pre with _ | ⟨a, pre⟩
    · cases heq
    · obtain ⟨pre', fts, rfl, hcb⟩ := ih (cons.inj heq).2
      exact ⟨a :: pre', fts, rfl, hcb⟩
  | copied _ hcb _ ih =>
    rcases pre with _ | ⟨a, _ | ⟨b, pre⟩⟩
    · cases heq
    · cases heq
      exact ⟨[], _, rfl, hcb⟩
    · obtain ⟨pre', fts, rfl, hcb⟩ := ih (cons.inj (cons.inj heq).2).2
      exact ⟨a :: b :: pre', fts, rfl, hcb⟩
end

theorem zip_own (h : zipTipSetAndMessages ts msgs = .ok (.ok fts)) : OwnMessages ts fts := by
  unfold zipTipSetAndMessages at h
  split at h
  · cases h
  rename_i hro
  split at h
  · cases h
  · cases h
  rename_i hch
  split at h
  · cases h
  rename_i blocks hbl
  cases h
  have ha := mapM_ok.mp hbl
  have hlen : ts.blks.length = blocks.length := by
    rw [← ha.length_eq, length_zipIdx]
  have hat : ∀ k (hk : k < ts.blks.length) (hk' : k < blocks.length), blocks[k].header = ts.blks[k] ∧ checkRoot
      blocks[k].header (blocks[k].blsMessages.map (·.cid)) (blocks[k].secpkMessages.map (·.cid)) = .ok () := by
    intro k hk hk'
    have hz := ha.get (i := k) (by rwa [length_zipIdx]) hk'
    rw [get_eq_getElem, get_eq_getElem] at hz
    rw [getElem_zipIdx, Nat.zero_add] at hz
    obtain ⟨smsgs, hs, hz⟩ := bind_ok.mp hz
    obtain ⟨bmsgs, hb, hz⟩ := bind_ok.mp hz
    rw [← Except.ok.inj hz]
    -- the check of the block looked up the same rows
    have hrn := firstError_passes.mp hch k _ (getElem?_eq_getElem hk)
    rw [Nat.zero_add, checkBlock_rows (getElem?_eq_getElem (by omega)) (getElem?_eq_getElem (by omega)), hs, hb]
      at hrn
    split at hrn
    · cases hrn
    · exact ⟨rfl, Except.ok.inj hrn⟩
  refine ⟨ext_getElem (by rw [length_map, hlen]) fun k hk hk' => ?_, fun b hb => ?_⟩
  · rw [getElem_map]
    exact (hat k hk' _).1
  · obtain ⟨k, hk, rfl⟩ := getElem_of_mem hb
    exact (hat k (by rwa [hlen]) hk).2

omit [BlockAdt] in
theorem tryFill_own {cs : ServerStore} (h : tryFillTipSet cs ts = some fts) : StoredMessages cs ts fts := by
  unfold tryFillTipSet at h
  split at h
  · cases h
  rename_i blocks hblocks
  cases h
  have hat : Forall₂ (fun b fb => fb.header = b ∧ messagesForBlock cs fb.header = .ok (fb.blsMessages, fb.secpkMessages))
      ts.blks blocks := by
    refine (mapM_ok.mp hblocks).imp fun b fb hfb => ?_
    unfold fillBlock at hfb
    rcases hm : messagesForBlock cs b with e | msgs
    · rw [hm] at hfb
      cases hfb
    · rw [hm] at hfb
      cases hfb
      exact ⟨rfl, hm⟩
  unfold StoredMessages
  clear hblocks
  generalize ts.blks = blks at hat
  induction hat with
  | nil => exact ⟨rfl, nofun⟩
  | cons hb _ ih => exact ⟨by rw [map_cons, hb.1, ih.1], forall_mem_cons.mpr ⟨hb.2, ih.2⟩⟩

theorem callback_brings (hown : Own env headers n fts) : Brings env headers (n + 1) n (callback env n fts) :=
  ⟨n, .next hown (.done n), fun _ => rfl⟩

theorem useFullTipSet_brings (hown : Own env headers n fts) : Brings env headers (n + 1) n (useFullTipSet env n msgs fts) := by
  unfold useFullTipSet callback Done.next
  refine ⟨n, ?_, fun _ => rfl⟩
  rcases hcb : env.cb n fts with e | u
  · exact .next hown (.done n)
  rcases persistMessages env n msgs with e | u
  · exact .next hown (.done n)
  · exact .copied hown hcb (.done n)

theorem zipRound_brings (hb : bsi ≤ i) : Brings env headers (i - bsi + 1) (i - bsi) (zipRound env headers i bstout bsi) := by
  unfold zipRound
  rw [if_neg (not_lt.mpr hb)]
  rcases hth : index headers (i - bsi) with p | this
  · exact .quiet nofun
  rcases index bstout (bstout.length - (bsi + 1)) with p | bstip
  · exact .quiet nofun
  dsimp only
  rcases hz : zipTipSetAndMessages this bstip with p | e | fts
  · exact .quiet nofun
  · exact .quiet nofun
  exact useFullTipSet_brings ⟨this, index_ok.mp hth, .inr (zip_own hz)⟩

theorem zipLoop_brings {j : Nat} (hle : j + k ≤ i + 1) :
    Brings env headers (i + 1 - j) (i + 1 - (j + k)) (zipLoop env headers i bstout (range' j k)) := by
  induction k generalizing j with
  | zero => exact ⟨_, .done _, fun _ => rfl⟩
  | succ k ih =>
    have hround := @zipRound_brings _ env headers i j bstout (by omega)
    have hrest := @ih (j + 1) (by omega)
    rw [show i - j + 1 = i + 1 - j by omega, show i - j = i + 1 - (j + 1) by omega] at hround
    rw [show j + 1 + k = j + (k + 1) by omega] at hrest
    exact hround.next hrest

theorem iterLoop_brings [Blake2b] (peers : Peers) (left : Nat) : Brings env headers left 0 (iterLoop peers env headers left) := by
  fun_induction iterLoop with
  | case1 => exact ⟨0, .done 0, fun _ => rfl⟩
  | case3 i ts hts fts hfill ih =>
    exact (callback_brings ⟨ts, index_ok.mp hts, .inl (tryFill_own hfill)⟩).next ih
  | case6 i ts hts _ bstout hfe ih =>
    obtain ⟨hpo, hle⟩ := batchSize_bounds i
    have hi : i < headers.length := index_isOk.mp ⟨ts, hts⟩
    have hlen : bstout.length = batchSize i := by
      rw [← (fetchMessages_ok peers hfe).length_eq, length_take, length_drop]
      omega
    have hzip := @zipLoop_brings _ env headers (batchSize i) i bstout 0 (by omega)
    rw [range_eq_range', hlen]
    rw [Nat.zero_add] at hzip
    exact hzip.next ih
  | _ => exact .quiet (by rintro ⟨⟩)

end

/-- The store has the messages of the genesis only. -/
def genesisStored : SyncEnv :=
  okEnv fun i => if i = 1 then ⟨absent, fun _ => .ok (⟨[]⟩, ⟨[]⟩), fun _ => .ok [], absent, absent⟩ else emptyStore

end Lotus.Sync

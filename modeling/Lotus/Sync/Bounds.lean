/-
# Which answers of a peer make the syncer index out of range.

`validateCompressedIndices` reads an index as an `int`: from 2^63 on it becomes negative, passes, and is out of range where
the messages are handed out. And the check of a result goes over all the headers, also where a response has fewer
tipsets. With peers that avoid both, `iterFullTipsets` does not panic.
-/
import Lotus.Sync.Fetch

namespace Lotus.Sync
open Lib.Slice Exchange List

section
variable [BlockAdt]

/-! ## One block, one tipset -/

variable {msgs : CompactedMessages} {n bi startOffset : Nat} {bmis smis : List UInt64}

theorem checkBlock_rows (hb : msgs.blsIncludes[bi]? = some bmis) (hs : msgs.secpkIncludes[bi]? = some smis)
    (b : BlockHeader) : checkBlock msgs bi b =
      if tooMany bmis smis then pure (.error (.errorf "block has too many messages"))
      else
        included msgs.secpk msgs.secpkIncludes bi >>= fun smsgs =>
        included msgs.bls msgs.blsIncludes bi >>= fun bmsgs =>
        pure (checkRoot b (bmsgs.map (·.cid)) (smsgs.map (·.cid))) := by
  unfold checkBlock
  rw [included_row msgs.bls hb, included_row msgs.secpk hs, index_ok.mpr hb, index_ok.mpr hs]
  rfl

theorem checkBlock_isOk (hv : msgs.Valid n) (hsi : msgs.Sized) (hb : msgs.blsIncludes[bi]? = some bmis)
    (hs : msgs.secpkIncludes[bi]? = some smis) (b : BlockHeader) :
    (∃ r, checkBlock msgs bi b = .ok r) ↔ tooMany bmis smis ∨ FitInt bmis ∧ FitInt smis := by
  rw [checkBlock_rows hb hs, ← hv.bls.included_isOk hsi.bls hb, ← hv.secpk.included_isOk hsi.secpk hs]
  split
  · rename_i hm
    exact ⟨fun _ => Or.inl hm, fun _ => ⟨_, rfl⟩⟩
  rename_i hfe
  rw [bind_isOk]
  simp only [bind_isOk]
  constructor
  · rintro ⟨smsgs, hsp, bmsgs, hbl, -⟩
    exact Or.inr ⟨⟨bmsgs, hbl⟩, smsgs, hsp⟩
  rintro (hm | ⟨⟨bmsgs, hbl⟩, smsgs, hsp⟩)
  · exact absurd hm hfe
  · exact ⟨smsgs, hsp, bmsgs, hbl, _, rfl⟩

/-- As far as the check of a tipset gets, a block has too many messages or its indices fit. -/
def BlocksFit (ts : TipSet) (msgs : CompactedMessages) : Prop :=
  ∀ n b bmis smis, ts.blks[n]? = some b →
    (∀ m b', m < n → ts.blks[m]? = some b' → checkBlock msgs m b' = .ok (.ok ())) →
    msgs.blsIncludes[n]? = some bmis → msgs.secpkIncludes[n]? = some smis →
    tooMany bmis smis ∨ FitInt bmis ∧ FitInt smis

variable {ts : TipSet}

theorem checkMsgMeta_isOk (hv : msgs.Valid ts.blks.length) (hsi : msgs.Sized) :
    (∃ r, checkMsgMeta ts msgs = .ok r) ↔ BlocksFit ts msgs := by
  unfold checkMsgMeta
  rw [firstError_isOk]
  simp only [Nat.zero_add]
  constructor
  · intro h n b bmis smis hn hbe hb hs
    exact (checkBlock_isOk hv hsi hb hs b).mp (h n b hn fun m b' hm hlt => hbe m b' hlt hm)
  intro h n b hn hbe
  obtain ⟨bmis, smis, hb, hs⟩ := hv.rows (List.getElem?_eq_some_iff.mp hn).1
  exact (checkBlock_isOk hv hsi hb hs b).mpr (h n b bmis smis hn (fun m b' hlt hm => hbe m b' hm hlt) hb hs)

theorem zip_isOk (h : checkMsgMeta ts msgs = .ok (.ok ())) : ∃ r, zipTipSetAndMessages ts msgs = .ok r := by
  unfold zipTipSetAndMessages
  split
  · exact ⟨_, rfl⟩
  rename_i hro
  rw [h]
  have hbl : ∃ blocks, ts.blks.zipIdx.mapM (zipBlock msgs) = .ok blocks := by
    rw [mapM_isOk]
    rintro ⟨b, i⟩ hmem
    have hb := mk_mem_zipIdx_iff_getElem?.mp hmem
    have hi := (List.getElem?_eq_some_iff.mp hb).1
    have hbls : msgs.blsIncludes[i]? = some msgs.blsIncludes[i] := getElem?_eq_getElem (by omega)
    have hsp : msgs.secpkIncludes[i]? = some msgs.secpkIncludes[i] :=
      getElem?_eq_getElem (by omega)
    -- the check of this block looked up the same rows
    have hch := firstError_passes.mp h i b hb
    rw [Nat.zero_add, checkBlock_rows hbls hsp] at hch
    split at hch
    · cases hch
    obtain ⟨smsgs, hs, hrest⟩ := bind_ok.mp hch
    obtain ⟨bmsgs, hb', -⟩ := bind_ok.mp hrest
    exact ⟨⟨b, bmsgs, smsgs⟩, bind_ok.mpr ⟨smsgs, hs, bind_ok.mpr ⟨bmsgs, hb', rfl⟩⟩⟩
  obtain ⟨blocks, hbl⟩ := hbl
  exact ⟨.ok ⟨blocks⟩, by rw [hbl]⟩

/-! ## A whole answer -/

/-- As far as the check of a result gets, there is an entry for the tipset, and its indices fit. -/
def Covers (headers : List TipSet) (result : List CompactedMessages) : Prop :=
  ∀ (n : Nat) (ts : TipSet), headers[n]? = some ts →
    (∀ m ts', m < n → headers[m]? = some ts' → ∃ cm, result[m]? = some cm ∧ checkMsgMeta ts' cm = .ok (.ok ())) →
    ∃ cm, result[n]? = some cm ∧ BlocksFit ts cm

variable {headers tipsets : List TipSet} {result batch : List CompactedMessages}
omit [BlockAdt] in
theorem mem_zip_of_getElem? {cm : CompactedMessages} (hts : headers[n]? = some ts) (hcm : result[n]? = some cm) :
    (ts, cm) ∈ headers.zip result := by
  have hz : (headers.zip result)[n]? = some (ts, cm) := getElem?_zip_eq_some.mpr ⟨hts, hcm⟩
  exact mem_of_getElem? hz

theorem checkResult_isOk (hv : ∀ p ∈ headers.zip result, p.2.Valid p.1.blks.length)
    (hsi : ∀ cm ∈ result, cm.Sized) : (∃ r, checkResult headers result = .ok r) ↔ Covers headers result := by
  have hrn : ∀ (n : Nat) ts cm, headers[n]? = some ts → result[n]? = some cm →
      ((∃ r, checkMsgMeta ts cm = .ok r) ↔ BlocksFit ts cm) := by
    intro n ts cm hts hcm
    exact checkMsgMeta_isOk (hv _ (mem_zip_of_getElem? hts hcm)) (hsi cm (mem_of_getElem? hcm))
  unfold checkResult
  rw [firstError_isOk]
  simp only [Nat.zero_add, bind_ok, index_ok]
  constructor
  · intro h n ts hts hb
    obtain ⟨r, cm, hcm, hr⟩ := h n ts hts fun m ts' hm hlt => hb m ts' hlt hm
    exact ⟨cm, hcm, (hrn n ts cm hts hcm).mp ⟨r, hr⟩⟩
  intro h n ts hts hb
  obtain ⟨cm, hcm, hfi⟩ := h n ts hts fun m ts' hlt hm => hb m ts' hm hlt
  obtain ⟨r, hr⟩ := (hrn n ts cm hts hcm).mpr hfi
  exact ⟨r, cm, hcm, hr⟩

theorem checkResult_passes (h : checkResult headers result = .ok (.ok ())) (hts : headers[n]? = some ts) :
    ∃ cm, result[n]? = some cm ∧ checkMsgMeta ts cm = .ok (.ok ()) := by
  have hrn := firstError_passes.mp h n ts hts
  rw [Nat.zero_add] at hrn
  obtain ⟨cm, hcm, hch⟩ := bind_ok.mp hrn
  exact ⟨cm, index_ok.mp hcm, hch⟩

variable (headers batch) in
def AllChecked : Prop :=
  Forall₂ (fun ts cm => checkMsgMeta ts cm = .ok (.ok ())) headers batch

theorem checkResult_allChecked (h : checkResult headers result = .ok (.ok ())) (hle : result.length ≤ headers.length) :
    AllChecked headers result := by
  have hlen : headers.length = result.length := by
    by_contra hne
    obtain ⟨cm, hcm, -⟩ := checkResult_passes h (getElem?_eq_getElem (show result.length < _ by omega))
    rw [getElem?_eq_none (le_refl _)] at hcm
    cases hcm
  refine forall₂_iff_get.mpr ⟨hlen, fun n hn hn' => ?_⟩
  obtain ⟨cm, hcm, hch⟩ := checkResult_passes h (getElem?_eq_getElem hn)
  rw [getElem?_eq_getElem hn', Option.some.injEq] at hcm
  rw [get_eq_getElem, get_eq_getElem]
  rw [hcm]
  exact hch

theorem covers_of_fit (hlen : headers.length ≤ result.length) (hfi : ∀ cm ∈ result, cm.AllFit) : Covers headers result := by
  intro n ts hts _
  have hn : n < result.length := by
    have := (List.getElem?_eq_some_iff.mp hts).1
    omega
  refine ⟨result[n], getElem?_eq_getElem hn, fun k b bmis smis _ _ hb hs => Or.inr ?_⟩
  have hcm := hfi result[n] (getElem_mem hn)
  exact ⟨hcm.1 bmis (mem_of_getElem? hb), hcm.2 smis (mem_of_getElem? hs)⟩

variable [Blake2b]

/-- **The messages of an accepted response** are indexed within bounds by `toFullTipSets` if every index is below 2^63, by
`fetchMessages` if they cover the headers, and always by `zipTipSetAndMessages`. -/
theorem accepted_in_bounds_iff (req : Request) (res : Response) (tipsets : List TipSet) (v : ValidatedResponse)
    (h : processResponse req res tipsets = .ok v) (hsize : ∀ msgs ∈ v.messages, msgs.Sized) :
    ((∃ fts, v.toFullTipSets = .ok fts) ↔
      ((parseOptions req.options).includeHeaders = true →
        (parseOptions req.options).includeMessages = true → ∀ msgs ∈ v.messages, msgs.AllFit)) ∧
    ((parseOptions req.options).includeHeaders = false →
      (parseOptions req.options).includeMessages = true →
      ((∃ r, checkResult tipsets v.messages = .ok r) ↔ Covers tipsets v.messages)) ∧
    (checkResult tipsets v.messages = .ok (.ok ()) →
      ∀ p ∈ tipsets.zip v.messages, ∃ r, zipTipSetAndMessages p.1 p.2 = .ok r) := by
  have hacc := processResponse_ok.mp h
  refine ⟨?_, fun hh hme => ?_, fun hpa p hp => ?_⟩
  · by_cases hh : (parseOptions req.options).includeHeaders = true
    · by_cases hme : (parseOptions req.options).includeMessages = true
      · obtain ⟨hlen, hv⟩ := hacc.valid_tipsets hh hme
        rw [toFullTipSets_isOk hv hsize]
        exact ⟨fun h _ _ => h hlen, fun h _ => h hh hme⟩
      -- without messages there is nothing to hand out
      have hno := hacc.messages
      rw [if_neg hme, Except.ok.injEq] at hno
      refine ⟨fun _ _ hye => absurd hye hme, fun _ => ?_⟩
      rw [toFullTipSets_isOk (by rw [← hno, zip_nil_right]; exact nofun) hsize, ← hno]
      exact fun _ => nofun
    have hno := hacc.headers
    rw [if_neg hh, Except.ok.injEq] at hno
    refine ⟨fun _ hye => absurd hye hh, fun _ => ?_⟩
    rw [toFullTipSets_isOk (by rw [← hno, zip_nil_left]; exact nofun) hsize, ← hno]
    intro hlen msgs hm
    rw [eq_nil_of_length_eq_zero hlen.symm] at hm
    cases hm
  · exact checkResult_isOk (hacc.valid_given hh hme).2.2 hsize
  obtain ⟨n, hn⟩ := getElem?_of_mem hp
  obtain ⟨hts, hcm⟩ := getElem?_zip_eq_some.mp hn
  obtain ⟨cm, hcm', hch⟩ := checkResult_passes hpa hts
  rw [hcm, Option.some.injEq] at hcm'
  rw [hcm']
  exact zip_isOk hch

/-! ## Whole runs -/

def Fits (res : Response) : Prop :=
  ∀ bst msgs, some bst ∈ res.chain → bst.messages = some msgs → msgs.AllFit ∧ msgs.Sized

/-- Peers whose answers have an entry for every tipset asked for, and indices that fit. -/
def Complete (peers : Peers) : Prop :=
  ∀ call headers res, .ok res ∈ peers call headers → headers.length ≤ res.chain.length ∧ Fits res

variable {answers : List (Except GoError Response)} {req : Request} {v : ValidatedResponse}

section
omit [BlockAdt]

theorem firstAccepted_ok {errString : String} (h : firstAccepted req tipsets errString answers = .ok v) :
    ∃ res, .ok res ∈ answers ∧ processResponse req res tipsets = .ok v := by
  induction answers with
  | nil => cases h
  | cons answer rest ih =>
    rcases answer with e | res
    · obtain ⟨res, hmem, hre⟩ := ih h
      exact ⟨res, mem_cons_of_mem _ hmem, hre⟩
    unfold firstAccepted at h
    rcases hre : processResponse req res tipsets with e | v'
    · rw [hre] at h
      obtain ⟨res', hmem, hr'⟩ := ih h
      exact ⟨res', mem_cons_of_mem _ hmem, hr'⟩
    rw [hre] at h
    cases h
    exact ⟨res, mem_cons_self, hre⟩

theorem doRequest_ok {singlePeer : Bool} (h : doRequest req singlePeer tipsets answers = .ok v) :
    ∃ res, .ok res ∈ answers ∧ processResponse req res tipsets = .ok v := by
  revert h
  fun_cases doRequest with
  | case5 => exact firstAccepted_ok
  | _ => exact nofun

theorem getChainMessages_ok (h : getChainMessages headers answers = .ok (.ok result)) :
    ∃ res, .ok res ∈ answers ∧ res.chain.mapM validMessages = .ok result ∧
      result.length ≤ headers.length ∧ ∀ p ∈ headers.zip result, p.2.Valid p.1.blks.length := by
  unfold getChainMessages at h
  split at h
  · cases h
  split at h
  · cases h
  rename_i head _ v hv
  cases h
  obtain ⟨res, hmem, hre⟩ := doRequest_ok hv
  have hacc := processResponse_ok.mp hre
  obtain ⟨hm, hlen, hva⟩ := hacc.valid_given (congrArg ParsedOptions.includeHeaders parseOptions_messages)
    (congrArg ParsedOptions.includeMessages parseOptions_messages)
  exact ⟨res, hmem, hm, hlen, hva⟩

theorem getChainMessages_isOk (hne : headers ≠ []) (answers : List (Except GoError Response)) :
    ∃ r, getChainMessages headers answers = .ok r := by
  obtain ⟨head, rest, rfl⟩ := exists_cons_of_ne_nil hne
  unfold getChainMessages
  rw [show index (head :: rest) 0 = .ok head from rfl]
  dsimp only
  split
  all_goals exact ⟨_, rfl⟩
end

omit [BlockAdt] [Blake2b] in
theorem Fits.of_valid {res : Response} (hfi : Fits res) (h : res.chain.mapM validMessages = .ok result) :
    ∀ msgs ∈ result, msgs.AllFit ∧ msgs.Sized := by
  intro msgs hmem
  obtain ⟨n, hn, rfl⟩ := mem_iff_getElem.mp hmem
  have ha := mapM_ok.mp h
  have hn' : n < res.chain.length := ha.length_eq ▸ hn
  have hm := ha.get hn' hn
  rw [get_eq_getElem, get_eq_getElem] at hm
  have hin := getElem_mem hn'
  generalize res.chain[n] = bst at hm hin
  revert hm
  fun_cases validMessages with
  | case3 bst msgs hme =>
    intro hm
    exact Except.ok.inj hm ▸ hfi bst msgs hin hme
  | _ => rintro ⟨⟩

omit [BlockAdt] in
/-- `GetFullTipSet` does not panic on an answer whose indices fit. -/
theorem getFullTipSet_isOk (tsk : TipSetKey) {answer : Except GoError Response}
    (hfi : ∀ res, answer = .ok res → Fits res) : ∃ r, getFullTipSet tsk answer = .ok r := by
  unfold getFullTipSet
  split
  · exact ⟨_, rfl⟩
  rename_i v hv
  obtain ⟨res, hmem, hre⟩ := doRequest_ok hv
  have hacc := processResponse_ok.mp hre
  have hh := congrArg ParsedOptions.includeHeaders parseOptions_both
  have hme := congrArg ParsedOptions.includeMessages parseOptions_both
  obtain ⟨hlen, hva⟩ := hacc.valid_tipsets hh hme
  have hm := hacc.messages
  rw [if_pos hme] at hm
  have hch := (validateMessages_ok hm).1
  have hg := (hfi res (mem_singleton.mp hmem).symm).of_valid hch
  obtain ⟨fts, hfts⟩ := (toFullTipSets_isOk hva fun msgs hin => (hg msgs hin).2).mpr fun _ msgs hin => (hg msgs hin).1
  -- there is an entry, since the chain of an accepted response is not empty
  have hpo : 0 < v.messages.length := by
    rw [← (mapM_ok.mp hch).length_eq]
    exact length_pos_iff.mpr hacc.chain_ne
  have hco : 0 < fts.length := by
    have hrun := hfts
    unfold ValidatedResponse.toFullTipSets at hrun
    rw [if_neg (by omega)] at hrun
    rw [← (mapM_ok.mp hrun).length_eq, length_zip]
    omega
  rw [hfts]
  obtain ⟨ft, hft⟩ := index_isOk.mpr hco
  dsimp only
  rw [hft]
  exact ⟨_, rfl⟩

variable (peers : Peers)

theorem retryLoop_isOk (hpr : Complete peers) (hne : headers ≠ []) (call : Nat → Call) (n retry : Nat)
    (errs : List GoError) : ∃ r, retryLoop peers headers call n retry errs = .ok r := by
  fun_induction retryLoop with
  | case2 n retry errs p hp =>
    obtain ⟨r, hr⟩ := getChainMessages_isOk hne (peers (call retry) headers)
    cases hp.symm.trans hr
  | case3 n retry errs e _ ih => exact ih
  | case4 n retry errs result hr p hp =>
    obtain ⟨res, hmem, hm, hle, hv⟩ := getChainMessages_ok hr
    obtain ⟨hlen, hfi⟩ := hpr _ _ _ hmem
    have hg := hfi.of_valid hm
    rw [(mapM_ok.mp hm).length_eq] at hlen
    obtain ⟨r, hch⟩ := (checkResult_isOk hv fun cm hcm => (hg cm hcm).2).mpr (covers_of_fit hlen fun cm hcm => (hg cm hcm).1)
    cases hp.symm.trans hch
  | case5 n retry errs result _ e _ ih => exact ih
  | _ => exact ⟨_, rfl⟩

theorem retryLoop_ok {call : Nat → Call} {retry : Nat} {errs : List GoError}
    (h : retryLoop peers headers call n retry errs = .ok (.ok result)) : AllChecked headers result := by
  fun_induction retryLoop with
  | case3 n retry errs e _ ih => exact ih h
  | case5 n retry errs result' _ e _ ih => exact ih h
  | case6 n retry errs result' hg hch =>
    cases h
    obtain ⟨-, -, -, hle, -⟩ := getChainMessages_ok hg
    exact checkResult_allChecked hch hle
  | _ => cases h

theorem partRound_isOk (hpr : Complete peers) {done : Nat} (hleft : done < headers.length) (call : Nat → Call) :
    ∃ r, retryLoop peers (headers.drop done) call syncRequestRetries 0 [] = .ok r := by
  have hne : headers.drop done ≠ [] := by
    rw [Ne, drop_eq_nil_iff]
    omega
  exact retryLoop_isOk peers hpr hne call syncRequestRetries 0 []

theorem partLoop_isOk (hpr : Complete peers) (headers : List TipSet) (startOffset j fuel : Nat)
    (batch : List CompactedMessages) : ∃ r, partLoop peers headers startOffset j fuel batch = .ok r := by
  fun_induction partLoop with
  | case1 fuel batch hleft p hp =>
    obtain ⟨r, hr⟩ := partRound_isOk peers hpr hleft (⟨startOffset, j, batch.length, ·⟩)
    cases hp.symm.trans hr
  | case4 batch _ result _ fuel ih => exact ih
  | _ => exact ⟨_, rfl⟩

theorem partLoop_ok {j fuel : Nat} (hba : AllChecked (headers.take batch.length) batch)
    (h : partLoop peers headers startOffset j fuel batch = .ok (.ok result)) : AllChecked headers result := by
  fun_induction partLoop with
  | case4 batch hleft result' hre fuel ih =>
    refine ih ?_ h
    have hrest := retryLoop_ok peers hre
    have hlen := hrest.length_eq
    rw [length_drop] at hlen
    rw [take_of_length_le (by rw [length_append]; omega)]
    have hbo : AllChecked (headers.take batch.length ++ headers.drop batch.length) (batch ++ result') := rel_append hba hrest
    rw [take_append_drop] at hbo
    exact hbo
  | case5 fuel batch ha =>
    cases h
    rw [take_of_length_le (by omega)] at hba
    exact hba
  | _ => cases h

theorem fetchMessages_isOk (hpr : Complete peers) (headers : List TipSet) (startOffset : Nat) :
    ∃ r, fetchMessages peers headers startOffset = .ok r := by
  have hpa : ∃ parts, (partStarts headers.length).mapM (fetchPart peers headers startOffset) = .ok parts :=
    mapM_isOk.mpr fun j _ => partLoop_isOk peers hpr _ startOffset j _ []
  obtain ⟨parts, hpa⟩ := hpa
  exact ⟨joinParts parts, bind_ok.mpr ⟨parts, hpa, rfl⟩⟩

omit [BlockAdt] [Blake2b] in
theorem joinParts_ok {parts : List (Except (List GoError) (List CompactedMessages))} (h : joinParts parts = .ok batch) :
    ∃ results : List (List CompactedMessages), parts = results.map .ok ∧ batch = results.flatten := by
  fun_induction joinParts generalizing batch with
  | case1 =>
    cases h
    exact ⟨[], rfl, rfl⟩
  | case2 msgs rest batch' hrest ih =>
    cases h
    obtain ⟨results, rfl, rfl⟩ := ih hrest
    exact ⟨msgs :: results, rfl, rfl⟩
  | _ => cases h

omit [BlockAdt] [Blake2b] in
theorem flatten_parts {α : Type} (l : List α) :
    ((partStarts l.length).map fun j => (l.drop j).take syncRequestBatchSize).flatten = l := by
  have hta : ∀ k, ((range k).map fun i =>
      (l.drop (i * syncRequestBatchSize)).take syncRequestBatchSize).flatten =
      l.take (k * syncRequestBatchSize) := by
    intro k
    induction k with
    | zero => rw [Nat.zero_mul, take_zero]; rfl
    | succ k ih =>
      rw [range_succ, map_append, flatten_append, ih, Nat.succ_mul, take_add]
      congr 1
      exact append_nil _
  unfold partStarts
  rw [map_map]
  refine (hta _).trans (take_of_length_le ?_)
  unfold syncRequestBatchSize
  omega

theorem fetchMessages_ok (h : fetchMessages peers headers startOffset = .ok (.ok batch)) : AllChecked headers batch := by
  obtain ⟨parts, hpar, hjo⟩ := bind_ok.mp h
  obtain ⟨results, rfl, rfl⟩ := joinParts_ok (Except.ok.inj hjo)
  have ha := mapM_ok.mp hpar
  rw [forall₂_map_right_iff] at ha
  have hp' : Forall₂ (fun part result => AllChecked part result)
      ((partStarts headers.length).map fun j => (headers.drop j).take syncRequestBatchSize) results := by
    have hb : ∀ part : List TipSet, AllChecked (part.take ([] : List CompactedMessages).length) [] := by
      intro part
      rw [length_nil, take_zero]
      exact .nil
    rw [forall₂_map_left_iff]
    exact ha.imp fun j result hpa => partLoop_ok peers (hb _) hpa
  have hfl := rel_flatten hp'
  rw [flatten_parts] at hfl
  exact hfl

/-- A goroutine is done after one round that succeeds, so more rounds change nothing. -/
theorem partLoop_fuel {j fuel : Nat} (hfuel : headers.length ≤ fuel + batch.length) :
    partLoop peers headers startOffset j (fuel + 1) batch = partLoop peers headers startOffset j fuel batch := by
  rw [partLoop, partLoop]
  split_ifs with hlt
  · rcases hre : retryLoop peers (headers.drop batch.length) (⟨startOffset, j, batch.length, ·⟩) syncRequestRetries 0 [] with
      p | e | result
    · rfl
    · rfl
    have hlen := (retryLoop_ok peers hre).length_eq
    rw [length_drop] at hlen
    have hdone : ∀ n, partLoop peers headers startOffset j n (batch ++ result) = .ok (.ok (batch ++ result)) := by
      intro n
      rw [partLoop, if_neg (by rw [length_append]; omega)]
    obtain ⟨fuel, rfl⟩ := Nat.exists_eq_succ_of_ne_zero (show fuel ≠ 0 by omega)
    exact (hdone _).trans (hdone _).symm
  · rfl

variable (env : SyncEnv)

omit [Blake2b] [BlockAdt] in
theorem next_isOk {d rest : Done} (h : ∃ r, d.2 = .ok r) (hrest : ∃ r, rest.2 = .ok r) : ∃ r, (d.next rest).2 = .ok r := by
  unfold Done.next
  split <;> assumption

omit [Blake2b] in
theorem zipRound_isOk {i : Nat} {bstout : List CompactedMessages} (hi : i < headers.length)
    (hb : AllChecked ((headers.drop (i + 1 - batchSize i)).take (batchSize i)) bstout) {bsi : Nat}
    (hbs : bsi < bstout.length) : ∃ r, (zipRound env headers i bstout bsi).2 = .ok r := by
  obtain ⟨hpo, hle⟩ := batchSize_bounds i
  have hlen : bstout.length = batchSize i := by
    rw [← hb.length_eq, length_take, length_drop]
    omega
  have hh : index headers (i - bsi) = .ok headers[i - bsi] :=
    index_ok.mpr (getElem?_eq_getElem (by omega))
  have hm : index bstout (bstout.length - (bsi + 1)) = .ok bstout[bstout.length - (bsi + 1)] :=
    index_ok.mpr (getElem?_eq_getElem (by omega))
  -- the two positions are the same position of the batch
  have hch : checkMsgMeta headers[i - bsi] bstout[bstout.length - (bsi + 1)] = .ok (.ok ()) := by
    have hg := hb.get (i := bstout.length - (bsi + 1)) (by rw [hb.length_eq]; omega) (by omega)
    rw [get_eq_getElem, get_eq_getElem] at hg
    dsimp only at hg
    rw [getElem_take, getElem_drop] at hg
    rw [← hg]
    congr 2
    omega
  obtain ⟨r, hr⟩ := zip_isOk hch
  unfold zipRound
  rw [if_neg (by omega), hh]
  rw [hm]
  dsimp only
  rw [hr]
  obtain e | fts := r
  · exact ⟨_, rfl⟩
  · exact next_isOk ⟨_, rfl⟩ (next_isOk ⟨_, rfl⟩ ⟨_, rfl⟩)

theorem iterLoop_isOk (hpr : Complete peers) (headers : List TipSet) (left : Nat)
    (hleft : left ≤ headers.length) : ∃ r, (iterLoop peers env headers left).2 = .ok r := by
  fun_induction iterLoop with
  | case2 i p hp => cases hp.symm.trans (index_ok.mpr (getElem?_eq_getElem (by omega)))
  | case3 i ts _ fts _ ih => exact next_isOk ⟨_, rfl⟩ (ih (by omega))
  | case4 i ts _ _ p hp =>
    obtain ⟨r, hr⟩ := fetchMessages_isOk peers hpr
      ((headers.drop (i + 1 - batchSize i)).take (batchSize i)) (i + 1 - batchSize i)
    cases hp.symm.trans hr
  | case6 i ts _ _ bstout hr ih =>
    have hz : ∀ l, (∀ bsi ∈ l, bsi < bstout.length) → ∃ r, (zipLoop env headers i bstout l).2 = .ok r := by
      intro l hl
      induction l with
      | nil => exact ⟨_, rfl⟩
      | cons bsi l ihl =>
        obtain ⟨hbsi, hl⟩ := forall_mem_cons.mp hl
        exact next_isOk (zipRound_isOk env (by omega) (fetchMessages_ok peers hr) hbsi) (ihl hl)
    exact next_isOk (hz _ fun _ => mem_range.mp) (ih (by omega))
  | _ => exact ⟨_, rfl⟩

/-- **No panic**, whatever the store and the callbacks answer, where the peers' answers are complete. -/
theorem iterFullTipsets_isOk (hpr : Complete peers) (headers : List TipSet) :
    ∃ r, (iterFullTipsets peers env headers).2 = .ok r := iterLoop_isOk peers env hpr headers headers.length (le_refl _)
end

@[reducible] def plainHash : Blake2b := ⟨id⟩

@[reducible] def plainAdt : BlockAdt := ⟨fun _ => .ok ⟨[]⟩, fun _ _ => .ok ⟨[]⟩⟩

def genesisBlock : BlockHeader := ⟨⟨[0]⟩, .id 0, some ⟨[]⟩, [], 0, ⟨[]⟩⟩

def childBlock : BlockHeader := ⟨⟨[1]⟩, .id 0, some ⟨[]⟩, [⟨[0]⟩], 1, ⟨[]⟩⟩

def genesisTipSet : TipSet := ⟨[genesisBlock], by decide, by decide⟩

def childTipSet : TipSet := ⟨[childBlock], by decide, by decide⟩

/-- One BLS message, and its index. -/
def oneMessage : CompactedMessages := ⟨[⟨⟨[9]⟩, .id 0, 0, 0, 1, 0, 0, 0, .id 0, 0, []⟩], [[0]], [], [[]]⟩

theorem oneMessage_allFit : oneMessage.AllFit := by
  simp [CompactedMessages.AllFit, oneMessage, FitInt]

/-- One BLS message is included, with an index that is negative as an `int`. -/
def wrapped : CompactedMessages := ⟨[], [[2 ^ 63]], [], [[]]⟩

def fullAnswer : Response := ⟨statusOk, "", [some ⟨[], some oneMessage⟩, some ⟨[], some oneMessage⟩]⟩

def shortAnswer : Response := ⟨statusPartial, "", [some ⟨[], some oneMessage⟩]⟩

def wrappedAnswer : Response := ⟨statusOk, "", [some ⟨[some childBlock], some wrapped⟩]⟩

theorem full_answer_in_bounds :
    let _ := plainHash
    let _ := plainAdt
    processResponse ⟨[⟨[1]⟩], 2, messages⟩ fullAnswer [childTipSet, genesisTipSet] =
        .ok ⟨[], [oneMessage, oneMessage]⟩ ∧
      ∃ r, checkResult [childTipSet, genesisTipSet] [oneMessage, oneMessage] = .ok r := by
  intro _ _
  have hre : processResponse ⟨[⟨[1]⟩], 2, messages⟩ fullAnswer [childTipSet, genesisTipSet] =
      .ok ⟨[], [oneMessage, oneMessage]⟩ := by decide +kernel
  have ha : ∀ msgs ∈ [oneMessage, oneMessage], msgs = oneMessage := by decide +kernel
  have hif := accepted_in_bounds_iff ⟨[⟨[1]⟩], 2, messages⟩ fullAnswer [childTipSet, genesisTipSet] _ hre
    (fun msgs hm => by rw [ha msgs hm]; exact ⟨by decide, by decide⟩)
  refine ⟨hre, (hif.2.1 (by decide) (by decide)).mpr (covers_of_fit (by decide) ?_)⟩
  intro msgs hm
  rw [ha msgs hm]
  exact oneMessage_allFit

theorem fits_oneMessage {res : Response} (h : ∀ bst, some bst ∈ res.chain → bst.messages = some oneMessage) : Fits res := by
  intro bst msgs hbst hmsgs
  cases (h bst hbst).symm.trans hmsgs
  exact ⟨oneMessage_allFit, by decide, by decide⟩

def absent {α : Type} (_ : Cid) : Except GoError α := .error (.errorf "blockstore: block not found")

def emptyStore : ServerStore := ⟨absent, absent, absent, absent, absent⟩

def okEnv (store : Nat → ServerStore) : SyncEnv := ⟨store, fun _ _ => .ok (), fun _ _ => .ok (), fun _ => .ok ()⟩

theorem full_answer_no_panic :
    let _ := plainHash
    let _ := plainAdt
    ∃ r, (iterFullTipsets (fun _ headers => if headers.length ≤ 2 then [.ok fullAnswer] else [])
      (okEnv fun _ => emptyStore) [childTipSet, genesisTipSet]).2 = .ok r := by
  intro _ _
  refine iterFullTipsets_isOk _ _ (fun _ headers res hres => ?_) _
  split at hres
  · cases mem_singleton.mp hres
    exact ⟨‹_›, fits_oneMessage (by simp [fullAnswer])⟩
  · cases hres

theorem single_answer_no_panic :
    let _ := plainHash
    ∃ r, getFullTipSet [⟨[1]⟩] (.ok ⟨statusOk, "", [some ⟨[some childBlock], some oneMessage⟩]⟩) = .ok r :=
  let _ := plainHash
  getFullTipSet_isOk _ fun _ h => by cases h; exact fits_oneMessage (by simp)

/-- A short answer, or a wrapped index, is accepted and makes `fetchMessages`, or `toFullTipSets`, panic. -/
theorem short_and_wrapped_out_of_range :
    let _ := plainHash
    let _ := plainAdt
    (processResponse ⟨[⟨[1]⟩], 2, messages⟩ shortAnswer [childTipSet, genesisTipSet] = .ok ⟨[], [oneMessage]⟩ ∧
      checkResult [childTipSet, genesisTipSet] [oneMessage] = .error .indexOutOfRange ∧
      fetchMessages (fun _ _ => [.ok shortAnswer]) [childTipSet, genesisTipSet] 0 = .error .indexOutOfRange) ∧
    processResponse ⟨[⟨[1]⟩], 1, headers ||| messages⟩ wrappedAnswer [] = .ok ⟨[childTipSet], [wrapped]⟩ ∧
      ValidatedResponse.toFullTipSets ⟨[childTipSet], [wrapped]⟩ = .error .indexOutOfRange := by
  decide +kernel

end Lotus.Sync

/-
# What the client makes of a response (`chain/exchange/client.go`).

`processResponse` builds the tipsets, checks that they are the chain asked for, and the index tables of the messages against
the blocks. It recovers from its own panics.
-/
import Lotus.Exchange.Protocol

namespace Lotus.Exchange
open Lib.Slice List

section
variable [Blake2b]

/-- What the deferred `recover` of `processResponse` returns for a nil dereference. -/
def recovered : GoError :=
  .errorf "process response error: runtime error: invalid memory address or nil pointer dereference"

def presentBlock : Option BlockHeader → Except GoError BlockHeader
  | none => .error (.errorf "tipset with nil block")
  | some b => .ok b

def validTipSet : Option BSTipSet → Except GoError TipSet
  | none => .error (.errorf "response with nil tipset")
  | some bst =>
    match bst.blocks.mapM presentBlock with
    | .error e => .error e
    | .ok blks =>
      match newTipSet blks with
      | .error e =>
        -- `NewTipSet` dereferences the tickets of blocks it has to sort
        .error (if e = .nilDeref then recovered else .wrap "invalid tipset blocks" e)
      | .ok ts => .ok ts

def connected : List TipSet → Bool
  | ts :: parent :: rest => ts.isChildOf parent && connected (parent :: rest)
  | _ => true

/-- The part of `processResponse` for the headers. -/
def validateHeaders (req : Request) (chain : List (Option BSTipSet)) : Except GoError (List TipSet) :=
  match chain.mapM validTipSet with
  | .error e => .error e
  | .ok [] => .error recovered
  | .ok (ts :: rest) =>
    if cidArrsEqual ts.cids req.head = false then
      .error (.errorf "returned chain head does not match request")
    else if connected (ts :: rest) = false then .error (.errorf "tipsets are not connected")
    else .ok (ts :: rest)

def validMessages : Option BSTipSet → Except GoError CompactedMessages
  | none => .error recovered
  | some bst =>
    match bst.messages with
    | none => .error (.errorf "no messages included for tipset")
    | some msgs => .ok msgs

/-- The check of one row of a table of `validateCompressedIndices`. -/
def checkRow (table : String) (count : Nat) (mis : List UInt64) : Except GoError Unit :=
  if mis.any (fun mi => decide (goInt mi ≥ count)) then
    .error (.errorf ("index in " ++ table ++ " exceeds number of messages"))
  else .ok ()

def checkBlockRows (msgs : CompactedMessages) (rows : List UInt64 × List UInt64) : Except GoError Unit :=
  match checkRow "BlsIncludes" msgs.bls.length rows.1 with
  | .error e => .error e
  | .ok () => checkRow "SecpkIncludes" msgs.secpk.length rows.2

/-- One round of `validateCompressedIndices`. The tables have a row a block by then. -/
def checkTables (p : Nat × CompactedMessages) : Except GoError Unit :=
  if p.2.blsIncludes.length ≠ p.1 then
    .error (.errorf "BlsIncludes does not match number of blocks")
  else if p.2.secpkIncludes.length ≠ p.1 then
    .error (.errorf "SecpkIncludes does not match number of blocks")
  else
    match (p.2.blsIncludes.zip p.2.secpkIncludes).mapM (checkBlockRows p.2) with
    | .error e => .error e
    | .ok _ => .ok ()

/-- `client.validateCompressedIndices`, given the number of blocks and the messages. -/
def validateCompressedIndices (chain : List (Nat × CompactedMessages)) : Except GoError Unit :=
  match chain.mapM checkTables with
  | .error e => .error e
  | .ok _ => .ok ()

def blocksNum : Option BSTipSet → Nat
  | none => 0
  | some bst => bst.blocks.length

/-- The part of `processResponse` for the messages. -/
def validateMessages (options : ParsedOptions) (chain : List (Option BSTipSet)) (tipsets : List TipSet) :
    Except GoError (List CompactedMessages) :=
  match chain.mapM validMessages with
  | .error e => .error e
  | .ok msgs =>
    if options.includeHeaders then
      match validateCompressedIndices ((chain.map blocksNum).zip msgs) with
      | .error e => .error e
      | .ok () => .ok msgs
    else if tipsets.length < chain.length then
      .error (.errorf "not enought tipsets provided for message response validation")
    else
      match validateCompressedIndices ((tipsets.map (·.blks.length)).zip msgs) with
      | .error e => .error e
      | .ok () => .ok msgs

def processResponse (req : Request) (res : Response) (tipsets : List TipSet) : Except GoError ValidatedResponse :=
  match res.statusToError with
  | some text => .error (.errorf ("status error: " ++ text))
  | none =>
    let options := parseOptions req.options
    if options.noOptionsSet then .error (.errorf "nothing was requested")
    else if res.chain.length = 0 then .error (.errorf "got no chain in successful response")
    else if (res.chain.length : Int) > goInt req.length then
      .error (.errorf "got longer response than requested")
    else if (res.chain.length : Int) < goInt req.length ∧ res.status ≠ statusPartial then
      .error (.errorf "got less than requested without a proper status")
    else
      match if options.includeHeaders then validateHeaders req res.chain else .ok [] with
      | .error e => .error e
      | .ok validTipsets =>
        match if options.includeMessages then validateMessages options res.chain tipsets else .ok [] with
        | .error e => .error e
        | .ok msgs => .ok ⟨validTipsets, msgs⟩

/-! ## Requests to peers -/

/-- The loop of `client.doRequest`: the first answer that is accepted. One that did not arrive is an error. -/
def firstAccepted (req : Request) (tipsets : List TipSet) (errString : String) :
    List (Except GoError Response) → Except GoError ValidatedResponse
  | [] => .error (.errorf errString)
  | .error _ :: rest => firstAccepted req tipsets errString rest
  | .ok res :: rest =>
    match processResponse req res tipsets with
    | .error _ => firstAccepted req tipsets errString rest
    | .ok v => .ok v

/-- `client.doRequest`, given the answers of the peers in order. -/
def doRequest (req : Request) (singlePeer : Bool) (tipsets : List TipSet)
    (answers : List (Except GoError Response)) : Except GoError ValidatedResponse :=
  if req.length = 0 then .error (.errorf "invalid request of length 0")
  else if req.length.toNat > maxRequestLength then .error (.errorf "request length above maximum")
  else if req.options = 0 then .error (.errorf "request with no options set")
  else if singlePeer = false ∧ answers = [] then .error (.errorf "no peers available")
  else
    firstAccepted req tipsets
      (if singlePeer then "doRequest failed for single peer" else "doRequest failed for all peers") answers

def getChainMessages (tipsets : List TipSet) (answers : List (Except GoError Response)) :
    Except RuntimePanic (Except GoError (List CompactedMessages)) :=
  match index tipsets 0 with
  | .error p => .error p
  | .ok head =>
    match doRequest ⟨head.cids, UInt64.ofNat tipsets.length, messages⟩ false tipsets answers with
    | .error e => .ok (.error e)
    | .ok v => .ok (.ok v.messages)

/-- `client.GetFullTipSet`, given the answer of the one peer that is asked. -/
def getFullTipSet (tsk : TipSetKey) (answer : Except GoError Response) : Except RuntimePanic (Except GoError FullTipSet) :=
  match doRequest ⟨tsk, 1, headers ||| messages⟩ true [] [answer] with
  | .error e => .ok (.error e)
  | .ok v =>
    match v.toFullTipSets with
    | .error p => .error p
    | .ok fts =>
      match index fts 0 with
      | .error p => .error p
      | .ok ft => .ok (.ok ft)

/-! ## What is accepted -/

omit [Blake2b] in
theorem checkRow_ok (table : String) {count : Nat} {mis : List UInt64} :
    checkRow table count mis = .ok () ↔ ∀ mi ∈ mis, goInt mi < count := by
  unfold checkRow
  split_ifs with hb
  · obtain ⟨mi, hmi, hge⟩ := any_eq_true.mp hb
    exact iff_of_false nofun fun h => absurd (h mi hmi) (not_lt.mpr (of_decide_eq_true hge))
  · simpa using hb

variable {msgs : CompactedMessages}

section
omit [Blake2b]

theorem checkBlockRows_ok {rows : List UInt64 × List UInt64} : (∃ u, checkBlockRows msgs rows = .ok u) ↔
      (∀ mi ∈ rows.1, goInt mi < msgs.bls.length) ∧ ∀ mi ∈ rows.2, goInt mi < msgs.secpk.length := by
  rw [← checkRow_ok "BlsIncludes", ← checkRow_ok "SecpkIncludes"]
  unfold checkBlockRows
  cases checkRow "BlsIncludes" msgs.bls.length rows.1 with
  | error e => exact ⟨by rintro ⟨u, ⟨⟩⟩, by rintro ⟨⟨⟩, -⟩⟩
  | ok u => exact ⟨fun ⟨u, h⟩ => ⟨rfl, h⟩, fun ⟨_, h⟩ => ⟨(), h⟩⟩

theorem checkTables_ok {n : Nat} : (∃ u, checkTables (n, msgs) = .ok u) ↔ msgs.Valid n := by
  unfold checkTables
  dsimp only
  split
  · rename_i hro
    exact ⟨by rintro ⟨u, ⟨⟩⟩, fun h => absurd h.bls.rows hro⟩
  split
  · rename_i hro
    exact ⟨by rintro ⟨u, ⟨⟩⟩, fun h => absurd h.secpk.rows hro⟩
  rename_i hbl hsp
  have hlo : (∃ u, (match (msgs.blsIncludes.zip msgs.secpkIncludes).mapM (checkBlockRows msgs) with
      | .error e => Except.error e
      | .ok _ => .ok ()) = .ok u) ↔
      ∃ us, (msgs.blsIncludes.zip msgs.secpkIncludes).mapM (checkBlockRows msgs) = .ok us := by
    cases (msgs.blsIncludes.zip msgs.secpkIncludes).mapM (checkBlockRows msgs) with
    | error e => exact ⟨by rintro ⟨u, ⟨⟩⟩, by rintro ⟨us, ⟨⟩⟩⟩
    | ok us => exact ⟨fun _ => ⟨us, rfl⟩, fun _ => ⟨(), rfl⟩⟩
  rw [hlo, mapM_isOk]
  simp only [checkBlockRows_ok]
  have hlen : msgs.blsIncludes.length = msgs.secpkIncludes.length := by omega
  constructor
  · intro h
    have hmem (i : Nat) (hb : i < msgs.blsIncludes.length) (hs : i < msgs.secpkIncludes.length) :=
      h (msgs.blsIncludes[i], msgs.secpkIncludes[i]) (mem_iff_getElem.mpr ⟨i, by rw [length_zip]; omega, getElem_zip⟩)
    refine ⟨⟨by omega, fun mis hm => ?_⟩, ⟨by omega, fun mis hm => ?_⟩⟩
    · obtain ⟨i, hi, rfl⟩ := mem_iff_getElem.mp hm
      exact (hmem i hi (by omega)).1
    · obtain ⟨i, hi, rfl⟩ := mem_iff_getElem.mp hm
      exact (hmem i (by omega) hi).2
  rintro h ⟨bmi, smi⟩ hmem
  obtain ⟨hb, hs⟩ := of_mem_zip hmem
  exact ⟨h.bls.bound bmi hb, h.secpk.bound smi hs⟩

theorem validateCompressedIndices_ok {chain : List (Nat × CompactedMessages)} :
    validateCompressedIndices chain = .ok () ↔ ∀ p ∈ chain, p.2.Valid p.1 := by
  have hlo : validateCompressedIndices chain = .ok () ↔ ∃ us, chain.mapM checkTables = .ok us := by
    unfold validateCompressedIndices
    cases chain.mapM checkTables with
    | error e => exact ⟨nofun, by rintro ⟨us, ⟨⟩⟩⟩
    | ok us => exact ⟨fun _ => ⟨us, rfl⟩, fun _ => rfl⟩
  rw [hlo, mapM_isOk]
  exact forall₂_congr fun p _ => checkTables_ok
end

/-- What `processResponse` checks, part by part. -/
structure Accepted (req : Request) (res : Response) (tipsets : List TipSet) (v : ValidatedResponse) :
    Prop where
  status : res.statusToError = none
  chain_ne : res.chain ≠ []
  chain_le : (res.chain.length : Int) ≤ goInt req.length
  shorter : (res.chain.length : Int) < goInt req.length → res.status = statusPartial
  options : (parseOptions req.options).noOptionsSet = false
  headers : (if (parseOptions req.options).includeHeaders then validateHeaders req res.chain
    else .ok []) = .ok v.tipsets
  messages : (if (parseOptions req.options).includeMessages then
    validateMessages (parseOptions req.options) res.chain tipsets else .ok []) = .ok v.messages

variable {tipsets : List TipSet} {req : Request} {res : Response} {v : ValidatedResponse}

theorem processResponse_ok : processResponse req res tipsets = .ok v ↔ Accepted req res tipsets v := by
  constructor
  · fun_cases processResponse with
    | case8 hst options ho hne hle hsh validTipsets hti msgs hm =>
      rintro ⟨⟩
      refine ⟨hst, fun hn => hne (by rw [hn]; rfl), by omega, fun hlt => ?_, Bool.eq_false_iff.mpr ho, hti, hm⟩
      by_contra hpa
      exact hsh ⟨hlt, hpa⟩
    | _ => exact nofun
  intro h
  have hlen : res.chain.length ≠ 0 := fun hz => h.chain_ne (eq_nil_of_length_eq_zero hz)
  have hle := h.chain_le
  unfold processResponse
  rw [h.status]
  rw [if_neg (by rw [h.options]; exact Bool.false_ne_true), if_neg hlen, if_neg (by omega),
    if_neg (fun hsh => hsh.2 (h.shorter hsh.1)), h.headers]
  dsimp only
  rw [h.messages]

theorem validTipSet_blocks {bst : Option BSTipSet} {ts : TipSet} (h : validTipSet bst = .ok ts) :
    ts.blks.length = blocksNum bst := by
  revert h
  fun_cases validTipSet with
  | case4 bst blks hb ts' hts =>
    rintro ⟨⟩
    obtain ⟨-, -, hso, -⟩ := newTipSet_ok hts
    rw [hso, (sortBlocks_perm blks).length_eq]
    exact (mapM_ok.mp hb).length_eq.symm
  | _ => exact nofun

variable {chain : List (Option BSTipSet)}

theorem validateHeaders_ok (h : validateHeaders req chain = .ok tipsets) :
    chain.mapM validTipSet = .ok tipsets ∧ connected tipsets = true ∧
      ∀ ts, tipsets.head? = some ts → cidArrsEqual ts.cids req.head = true := by
  revert h
  fun_cases validateHeaders with
  | case5 ts rest hlo hhead hco =>
    rintro ⟨⟩
    refine ⟨hlo, Bool.not_eq_false _ ▸ hco, ?_⟩
    rintro _ ⟨⟩
    exact Bool.not_eq_false _ ▸ hhead
  | _ => exact nofun

variable {msgs : List CompactedMessages}
omit [Blake2b] in
theorem valid_zip : (∀ p ∈ (tipsets.map (·.blks.length)).zip msgs, p.2.Valid p.1) ↔
      ∀ p ∈ tipsets.zip msgs, p.2.Valid p.1.blks.length := by
  rw [zip_map_left, forall_mem_map]
  rfl

omit [Blake2b] in
theorem validateMessages_ok {options : ParsedOptions}
    (h : validateMessages options chain tipsets = .ok msgs) : chain.mapM validMessages = .ok msgs ∧
      (options.includeHeaders = true → ∀ p ∈ (chain.map blocksNum).zip msgs, p.2.Valid p.1) ∧
      (options.includeHeaders = false → chain.length ≤ tipsets.length ∧
        ∀ p ∈ tipsets.zip msgs, p.2.Valid p.1.blks.length) := by
  revert h
  fun_cases validateMessages with
  | case3 msgs' hlo hh hv =>
    rintro ⟨⟩
    refine ⟨hlo, fun _ => validateCompressedIndices_ok.mp hv, fun hno => ?_⟩
    rw [hh] at hno
    cases hno
  | case6 msgs' hlo hh heno hv =>
    rintro ⟨⟩
    exact ⟨hlo, fun hye => absurd hye hh, fun _ => ⟨by omega, valid_zip.mp (validateCompressedIndices_ok.mp hv)⟩⟩
  | _ => exact nofun

theorem Accepted.valid_tipsets (h : Accepted req res tipsets v) (hh : (parseOptions req.options).includeHeaders = true)
    (hm : (parseOptions req.options).includeMessages = true) : v.tipsets.length = v.messages.length ∧
      ∀ p ∈ v.tipsets.zip v.messages, p.2.Valid p.1.blks.length := by
  have hti := h.headers
  rw [if_pos hh] at hti
  have hmsg := h.messages
  rw [if_pos hm] at hmsg
  have hts := mapM_ok.mp (validateHeaders_ok hti).1
  obtain ⟨hms, hv, -⟩ := validateMessages_ok hmsg
  have hb : res.chain.map blocksNum = v.tipsets.map (·.blks.length) := by
    rw [← forall₂_eq_eq_eq, forall₂_map_left_iff, forall₂_map_right_iff]
    exact hts.imp fun _ _ hts => (validTipSet_blocks hts).symm
  refine ⟨hts.length_eq.symm.trans (mapM_ok.mp hms).length_eq, valid_zip.mp ?_⟩
  rw [← hb]
  exact hv hh

theorem Accepted.valid_given (h : Accepted req res tipsets v) (hh : (parseOptions req.options).includeHeaders = false)
    (hm : (parseOptions req.options).includeMessages = true) :
    res.chain.mapM validMessages = .ok v.messages ∧ v.messages.length ≤ tipsets.length ∧
      ∀ p ∈ tipsets.zip v.messages, p.2.Valid p.1.blks.length := by
  have hmsg := h.messages
  rw [if_pos hm] at hmsg
  obtain ⟨hms, -, hv⟩ := validateMessages_ok hmsg
  have hlen := (mapM_ok.mp hms).length_eq
  obtain ⟨heno, ha⟩ := hv hh
  exact ⟨hms, hlen ▸ heno, ha⟩
end
end Lotus.Exchange

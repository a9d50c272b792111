/-
# Requests, responses and compacted messages (`chain/exchange/protocol.go`).

A response carries, for each tipset of a chain segment, its blocks, its messages, or both. The messages are sent once each,
with tables of indices for the blocks. A peer may send nil pointers, and any `uint64` as an index.
-/
import Lotus.Lib.Slice
import Lotus.Store.ChainStore
import Lotus.Types.Message

namespace Lotus.Exchange
open Lib.Slice List

def maxRequestLength : Nat := Store.forkLengthThreshold

structure Request where
  head : List Cid
  length : UInt64
  options : UInt64

def headers : UInt64 := 1

def messages : UInt64 := 2

structure ParsedOptions where
  includeHeaders : Bool
  includeMessages : Bool
  deriving DecidableEq

def ParsedOptions.noOptionsSet (options : ParsedOptions) : Bool :=
  options.includeHeaders == false && options.includeMessages == false

def parseOptions (optfield : UInt64) : ParsedOptions :=
  ⟨optfield &&& headers != 0, optfield &&& messages != 0⟩

theorem parseOptions_messages : parseOptions messages = ⟨false, true⟩ := by decide

theorem parseOptions_both : parseOptions (headers ||| messages) = ⟨true, true⟩ := by decide

structure CompactedMessages where
  bls : List Message
  blsIncludes : List (List UInt64)
  secpk : List SignedMessage
  secpkIncludes : List (List UInt64)
  deriving DecidableEq

structure BSTipSet where
  blocks : List (Option BlockHeader)
  messages : Option CompactedMessages
  deriving DecidableEq

abbrev Status := UInt64

def statusOk : Status := 0
def statusPartial : Status := 101
def statusNotFound : Status := 201
def statusGoAway : Status := 202
def statusInternalError : Status := 203
def statusBadRequest : Status := 204

structure Response where
  status : Status
  errorMessage : String
  chain : List (Option BSTipSet)
  deriving DecidableEq

def Response.statusToError (res : Response) : Option String :=
  if res.status = statusOk ∨ res.status = statusPartial then none
  else if res.status = statusNotFound then some "not found"
  else if res.status = statusGoAway then some "not handling 'go away' chainxchg responses yet"
  else if res.status = statusInternalError then
    some ("block sync peer errored: " ++ res.errorMessage)
  else if res.status = statusBadRequest then
    some ("block sync request invalid: " ++ res.errorMessage)
  else some "unrecognized response code"

/-- `validatedResponse`. Only the lengths matter, so nil is the empty list. -/
structure ValidatedResponse where
  tipsets : List TipSet
  messages : List CompactedMessages
  deriving DecidableEq

def included {M : Type} (msgs : List M) (includes : List (List UInt64)) (blockIdx : Nat) : Except RuntimePanic (List M) := do
  let mis ← index includes blockIdx
  gather msgs (mis.map UInt64.toNat)

/-- The inner loop of `toFullTipSets`: one block with its messages. -/
def fullBlock (msgs : CompactedMessages) (p : BlockHeader × Nat) : Except RuntimePanic FullBlock := do
  let bls ← included msgs.bls msgs.blsIncludes p.2
  let secpk ← included msgs.secpk msgs.secpkIncludes p.2
  pure ⟨p.1, bls, secpk⟩

/-- One round of `toFullTipSets`. -/
def fullTipSet (p : TipSet × CompactedMessages) : Except RuntimePanic FullTipSet := do
  let blocks ← p.1.blks.zipIdx.mapM (fullBlock p.2)
  pure ⟨blocks⟩

def ValidatedResponse.toFullTipSets (res : ValidatedResponse) : Except RuntimePanic (List FullTipSet) :=
  if res.tipsets.length = 0 ∨ res.tipsets.length ≠ res.messages.length then .ok []
  else (res.tipsets.zip res.messages).mapM fullTipSet

/-! ## Indices that fit -/

/-- `int(mi)`. -/
def goInt (mi : UInt64) : Int := (mi.toNat : Int).bmod (2 ^ 64)

theorem goInt_lt (mi : UInt64) (n : Nat) : goInt mi < n ↔ mi.toNat < n ∨ 2 ^ 63 ≤ mi.toNat := by
  have hlt := mi.toNat_lt
  unfold goInt
  rcases Nat.lt_or_ge mi.toNat (2 ^ 63) with h | h
  · rw [Int.bmod_eq_of_le (by omega) (by omega)]
    omega
  have hwr : (mi.toNat : Int).bmod (2 ^ 64) = mi.toNat - 2 ^ 64 := by
    rw [Int.bmod_def]
    omega
  omega

/-- Every index of a row is one that `int` keeps. -/
def FitInt (mis : List UInt64) : Prop := ∀ mi ∈ mis, mi.toNat < 2 ^ 63

instance (mis : List UInt64) : Decidable (FitInt mis) := inferInstanceAs (Decidable (∀ mi ∈ mis, _))

/-- The lengths of slices are values of type `int`. -/
structure CompactedMessages.Sized (msgs : CompactedMessages) : Prop where
  bls : msgs.bls.length < 2 ^ 63
  secpk : msgs.secpk.length < 2 ^ 63

/-- A table has a row a block, and no index, read as an `int`, is beyond the messages. -/
structure Checked (blocksNum count : Nat) (includes : List (List UInt64)) : Prop where
  rows : includes.length = blocksNum
  bound : ∀ mis ∈ includes, ∀ mi ∈ mis, goInt mi < count

/-- What `validateCompressedIndices` checks of the messages of a tipset. -/
structure CompactedMessages.Valid (msgs : CompactedMessages) (blocksNum : Nat) : Prop where
  bls : Checked blocksNum msgs.bls.length msgs.blsIncludes
  secpk : Checked blocksNum msgs.secpk.length msgs.secpkIncludes

variable {i blocksNum : Nat} {M : Type} {includes : List (List UInt64)} {mis : List UInt64}

theorem included_row (msgs : List M) (hi : includes[i]? = some mis) :
    included msgs includes i = gather msgs (mis.map UInt64.toNat) := by
  unfold included
  rw [index_ok.mpr hi]
  rfl

/-- **A checked row can be looked up** unless it has an index from 2^63 on, which `int` makes negative. -/
theorem Checked.included_isOk {msgs : List M} (h : Checked blocksNum msgs.length includes)
    (hsi : msgs.length < 2 ^ 63) (hi : includes[i]? = some mis) : (∃ r, included msgs includes i = .ok r) ↔ FitInt mis := by
  have hmem : mis ∈ includes := mem_of_getElem? hi
  rw [included_row msgs hi, gather_isOk, forall_mem_map]
  refine forall₂_congr fun mi hmi => ?_
  have hb := (goInt_lt mi msgs.length).mp (h.bound mis hmem mi hmi)
  omega

variable {msgs : CompactedMessages}

theorem CompactedMessages.Valid.rows (h : msgs.Valid blocksNum) (hi : i < blocksNum) :
    ∃ bmi smi, msgs.blsIncludes[i]? = some bmi ∧ msgs.secpkIncludes[i]? = some smi := by
  have hb : i < msgs.blsIncludes.length := h.bls.rows ▸ hi
  have hs : i < msgs.secpkIncludes.length := h.secpk.rows ▸ hi
  exact ⟨_, _, getElem?_eq_getElem hb, getElem?_eq_getElem hs⟩

def CompactedMessages.AllFit (msgs : CompactedMessages) : Prop :=
  (∀ mis ∈ msgs.blsIncludes, FitInt mis) ∧ ∀ mis ∈ msgs.secpkIncludes, FitInt mis

theorem fullBlock_isOk {p : BlockHeader × Nat} : (∃ r, fullBlock msgs p = .ok r) ↔
      (∃ r, included msgs.bls msgs.blsIncludes p.2 = .ok r) ∧
        ∃ r, included msgs.secpk msgs.secpkIncludes p.2 = .ok r := by
  unfold fullBlock
  simp only [bind_isOk]
  constructor
  · rintro ⟨bls, hb, secpk, hsp, -⟩
    exact ⟨⟨bls, hb⟩, secpk, hsp⟩
  · rintro ⟨⟨bls, hb⟩, secpk, hsp⟩
    exact ⟨bls, hb, secpk, hsp, _, rfl⟩

theorem fullTipSet_isOk {ts : TipSet} (hv : msgs.Valid ts.blks.length) (hsi : msgs.Sized) :
    (∃ r, fullTipSet (ts, msgs) = .ok r) ↔ msgs.AllFit := by
  have hbl : (∃ r, fullTipSet (ts, msgs) = .ok r) ↔ ∀ p ∈ ts.blks.zipIdx, ∃ r, fullBlock msgs p = .ok r := by
    rw [← mapM_isOk]
    unfold fullTipSet
    rw [bind_isOk]
    exact exists_congr fun blocks => and_iff_left ⟨_, rfl⟩
  -- one row of either table
  have hro : ∀ i b bmi smi, msgs.blsIncludes[i]? = some bmi → msgs.secpkIncludes[i]? = some smi →
      ((∃ r, fullBlock msgs (b, i) = .ok r) ↔ FitInt bmi ∧ FitInt smi) := by
    intro i b bmi smi hb hs
    rw [fullBlock_isOk, hv.bls.included_isOk hsi.bls hb, hv.secpk.included_isOk hsi.secpk hs]
  rw [hbl]
  constructor
  · intro h
    have hfi : ∀ i bmi smi, i < ts.blks.length → msgs.blsIncludes[i]? = some bmi →
        msgs.secpkIncludes[i]? = some smi → FitInt bmi ∧ FitInt smi := by
      intro i bmi smi hi hb hs
      refine (hro i ts.blks[i] bmi smi hb hs).mp (h _ ?_)
      exact mk_mem_zipIdx_iff_getElem?.mpr (getElem?_eq_getElem hi)
    constructor
    · intro bmi hmem
      obtain ⟨i, hb⟩ := getElem?_of_mem hmem
      have hi : i < ts.blks.length := hv.bls.rows ▸ (List.getElem?_eq_some_iff.mp hb).1
      obtain ⟨_, smi, -, hs⟩ := hv.rows hi
      exact (hfi i bmi smi hi hb hs).1
    intro smi hmem
    obtain ⟨i, hs⟩ := getElem?_of_mem hmem
    have hi : i < ts.blks.length := hv.secpk.rows ▸ (List.getElem?_eq_some_iff.mp hs).1
    obtain ⟨bmi, _, hb, -⟩ := hv.rows hi
    exact (hfi i bmi smi hi hb hs).2
  rintro ⟨hbls, hsp⟩ ⟨b, i⟩ hmem
  have hi := (List.getElem?_eq_some_iff.mp (mk_mem_zipIdx_iff_getElem?.mp hmem)).1
  obtain ⟨bmi, smi, hb, hs⟩ := hv.rows hi
  exact (hro i b bmi smi hb hs).mpr ⟨hbls bmi (mem_of_getElem? hb), hsp smi (mem_of_getElem? hs)⟩

theorem toFullTipSets_isOk {res : ValidatedResponse}
    (hv : ∀ p ∈ res.tipsets.zip res.messages, p.2.Valid p.1.blks.length) (hsi : ∀ msgs ∈ res.messages, msgs.Sized) :
    (∃ r, res.toFullTipSets = .ok r) ↔
      (res.tipsets.length = res.messages.length → ∀ msgs ∈ res.messages, msgs.AllFit) := by
  unfold ValidatedResponse.toFullTipSets
  split
  · rename_i hsk
    refine ⟨fun _ hlen msgs hm => ?_, fun _ => ⟨[], rfl⟩⟩
    rcases hsk with hz | hne
    · rw [hlen] at hz
      rw [eq_nil_of_length_eq_zero hz] at hm
      cases hm
    · exact absurd hlen hne
  rename_i hrun
  have hlen : res.tipsets.length = res.messages.length := by
    by_contra hne
    exact hrun (Or.inr hne)
  rw [mapM_isOk]
  constructor
  · intro h _ msgs hm
    obtain ⟨i, hi, rfl⟩ := mem_iff_getElem.mp hm
    have hmem : (res.tipsets[i], res.messages[i]) ∈ res.tipsets.zip res.messages := by
      rw [mem_iff_getElem]
      exact ⟨i, by rw [length_zip]; omega, getElem_zip⟩
    exact (fullTipSet_isOk (hv _ hmem) (hsi _ hm)).mp (h _ hmem)
  rintro h ⟨ts, msgs⟩ hmem
  have hm := (of_mem_zip hmem).2
  exact (fullTipSet_isOk (hv _ hmem) (hsi _ hm)).mpr (h hlen msgs hm)

end Lotus.Exchange

/-
# Chains of messages (`chain/messagepool/selection.go`).

A chain can only be selected after those before it. The chains of a sender are a list; of `next` is kept whether it is
set. Gas performances are no NaN and linearly ordered; of the figures derived nothing is assumed (`Floats`). A message that
was admitted has at most the block gas limit, and so the `int64` figures of chains do not wrap.
-/
import Lotus.Types.Message

namespace Lotus.Mpool

def blockGasLimit : Int := 10000000000

def minGas : Int := 1298450

def requiredFunds (m : SignedMessage) : Int := m.message.gasFeeCap * m.message.gasLimit

/-- The messages of a sender by nonce (`map[uint64]*types.SignedMessage`), each under its own. -/
structure MsgSet where
  msgs : GoMap UInt64 SignedMessage
  keyed : ∀ n m, msgs.lookup n = some m → m.message.nonce = n

namespace MsgSet

def empty : MsgSet := ⟨∅, fun _ _ h => by simp at h⟩

def add (s : MsgSet) (m : SignedMessage) : MsgSet where
  msgs := s.msgs.insert m.message.nonce m
  keyed n m' h := by
    by_cases hn : n = m.message.nonce
    · subst hn
      rw [AList.lookup_insert] at h
      rw [← Option.some.inj h]
    · rw [AList.lookup_insert_ne hn] at h
      exact s.keyed n m' h

def delete (s : MsgSet) (nonce : UInt64) : MsgSet where
  msgs := s.msgs.erase nonce
  keyed n m h := by
    by_cases hn : n = nonce
    · subst hn
      simp at h
    · rw [AList.lookup_erase_ne hn] at h
      exact s.keyed n m h

def toList (s : MsgSet) : List SignedMessage := s.msgs.entries.map (·.2)

def sorted (s : MsgSet) : List SignedMessage :=
  s.toList.insertionSort fun m m' => m.message.nonce ≤ m'.message.nonce

end MsgSet

/-- The operations on floating point numbers, `getGasPerf` and `blockProbabilities`. -/
structure Floats (F E : Type) where
  getGasPerf : (gasReward gasLimit : Int) → F
  blockProbabilities : (tq : E) → (block : Nat) → E
  /-- The constant `0.84`. -/
  highQuality : E
  ofPerf : F → E
  ofInt : Int → E
  add : E → E → E
  sub : E → E → E
  mul : E → E → E
  div : E → E → E
  gt : E → E → Bool
  eq : E → E → Bool

structure MsgChain (F E : Type) where
  msgs : List SignedMessage
  gasReward : Int
  gasLimit : Int
  gasPerf : F
  effPerf : E
  bp : E
  parentOffset : E
  valid : Bool
  merged : Bool
  next : Bool
  sigType : SigType

section
variable {F E : Type} [LinearOrder F] [Zero F] [Zero E] (fl : Floats F E)

def getGasReward (baseFee : Int) (m : SignedMessage) : Int :=
  let maxPremium := m.message.gasFeeCap - baseFee
  let maxPremium := if maxPremium > m.message.gasPremium then m.message.gasPremium else maxPremium
  let gasReward := maxPremium * m.message.gasLimit
  if gasReward < 0 then gasReward * 3 else gasReward

/-! ## `createMessageChains` -/

/-- The variables of the first loop of `createMessageChains`. -/
structure Scan where
  skip : Nat
  i : Nat
  rewards : List Int

/-- The first loop of `createMessageChains`: which of the messages can be included. -/
def scan (minGasOf : SignedMessage → Int) (baseFee : Int) :
    List SignedMessage → (curNonce : UInt64) → (balance gasLimit : Int) → Scan → Scan
  | [], _, _, _, s => s
  | m :: msgs, curNonce, balance, gasLimit, s =>
    if m.message.nonce < curNonce then
      scan minGasOf baseFee msgs curNonce balance gasLimit { s with skip := s.skip + 1, i := s.i + 1 }
    else if m.message.nonce ≠ curNonce then s
    else if m.message.gasLimit < minGasOf m then s
    -- the sum is an `int64`
    else if (gasLimit + m.message.gasLimit).bmod UInt64.size > blockGasLimit then s
    else if balance < requiredFunds m then s
    else
      scan minGasOf baseFee msgs (curNonce + 1) (balance - requiredFunds m - m.message.value)
        ((gasLimit + m.message.gasLimit).bmod UInt64.size)
        { s with i := s.i + 1, rewards := s.rewards ++ [getGasReward baseFee m] }

def newChain (m : SignedMessage) (reward : Int) : MsgChain F E where
  msgs := [m]
  gasReward := reward
  gasLimit := m.message.gasLimit
  gasPerf := fl.getGasPerf reward m.message.gasLimit
  effPerf := 0
  bp := 0
  parentOffset := 0
  valid := true
  merged := false
  next := false
  sigType := m.sigType

/-- The loop that makes the chains; `curChain` is not finished. -/
def buildChains : MsgChain F E → List (SignedMessage × Int) → List (MsgChain F E)
  | curChain, [] => [curChain]
  | curChain, (m, reward) :: rest =>
    let gasReward := curChain.gasReward + reward
    let gasLimit := curChain.gasLimit + m.message.gasLimit
    let gasPerf := fl.getGasPerf gasReward gasLimit
    if gasPerf < curChain.gasPerf then curChain :: buildChains (newChain fl m reward) rest
    else buildChains { curChain with msgs := curChain.msgs ++ [m], gasReward, gasLimit, gasPerf } rest

def MsgChain.absorb (c d : MsgChain F E) : MsgChain F E :=
  { c with
    msgs := c.msgs ++ d.msgs
    gasReward := c.gasReward + d.gasReward
    gasLimit := c.gasLimit + d.gasLimit
    gasPerf := fl.getGasPerf (c.gasReward + d.gasReward) (c.gasLimit + d.gasLimit) }

/-- One step of the merge loop: the first of the chains is added to the one before it. -/
def mergeInto (c : MsgChain F E) : List (MsgChain F E) → List (MsgChain F E)
  | [] => [c]
  | d :: ds => if d.gasPerf ≥ c.gasPerf then c.absorb fl d :: ds else c :: d :: ds

/-- One round of the merge loop, from the last chain to the first, without those added to others. -/
def mergePass : List (MsgChain F E) → List (MsgChain F E)
  | [] => []
  | c :: chains => mergeInto fl c (mergePass chains)

def mergeChains : Nat → List (MsgChain F E) → List (MsgChain F E)
  | 0, chains => chains
  | rounds + 1, chains =>
    if (mergePass fl chains).length = chains.length then chains
    else mergeChains rounds (mergePass fl chains)

/-- Linking dependent chains: all but the last have a `next`. The `prev` of a chain, which all but the first get and which is
never cleared, is the one before it in the list. -/
def linkChains : List (MsgChain F E) → List (MsgChain F E)
  | [] => []
  | [c] => [c]
  | c :: chains => { c with next := true } :: linkChains chains

section
variable (minGasOf : SignedMessage → Int) (baseFee : Int)

/-- The messages that `createMessageChains` makes chains of, with their rewards. -/
def candidates (a : Actor) (mset : MsgSet) : List (SignedMessage × Int) :=
  let s := scan minGasOf baseFee mset.sorted a.nonce a.balance 0 ⟨0, 0, []⟩
  if s.i > s.skip then (((mset.sorted.take s.i).drop s.skip).take blockMessageLimit).zip s.rewards else []

/-- `MessagePool.createMessageChains`, given what `GetActorAfter` returns. -/
def createMessageChains (a : Except GoError Actor)
    (mset : MsgSet) : List (MsgChain F E) :=
  match a with
  | .error _ => []
  | .ok a =>
    match candidates minGasOf baseFee a mset with
    | [] => []
    | (m, reward) :: rest =>
      let chains := buildChains fl (newChain fl m reward) rest
      linkChains (mergeChains fl chains.length chains)
end

/-! ## The methods of a chain -/

def MsgChain.before (c other : MsgChain F E) : Bool :=
  decide (c.gasPerf > other.gasPerf ∨ c.gasPerf = other.gasPerf ∧ c.gasReward > other.gasReward)

def MsgChain.beforeEffective (c other : MsgChain F E) : Bool :=
  (c.merged && !other.merged) || decide (c.gasPerf ≥ 0 ∧ other.gasPerf < 0) || fl.gt c.effPerf other.effPerf ||
    (fl.eq c.effPerf other.effPerf && decide (c.gasPerf > other.gasPerf)) ||
    (fl.eq c.effPerf other.effPerf && decide (c.gasPerf = other.gasPerf ∧ c.gasReward > other.gasReward))

def MsgChain.setEffPerf (prev : Option (MsgChain F E)) (c : MsgChain F E) : MsgChain F E :=
  let effPerf := fl.mul (fl.ofPerf c.gasPerf) c.bp
  match prev with
  | none => { c with effPerf }
  | some p =>
    if fl.gt effPerf 0 then
      let effPerfWithParent := fl.div
        (fl.add (fl.mul effPerf (fl.ofInt c.gasLimit)) (fl.mul p.effPerf (fl.ofInt p.gasLimit)))
        (fl.ofInt (c.gasLimit + p.gasLimit))
      { c with parentOffset := fl.sub effPerf effPerfWithParent, effPerf := effPerfWithParent }
    else { c with effPerf }

def MsgChain.setEffectivePerf (prev : Option (MsgChain F E)) (bp : E) (c : MsgChain F E) : MsgChain F E :=
  MsgChain.setEffPerf fl prev { c with bp }

def MsgChain.setNullEffectivePerf (c : MsgChain F E) : MsgChain F E :=
  if c.gasPerf < 0 then { c with effPerf := fl.ofPerf c.gasPerf } else { c with effPerf := 0 }

/-- What the loop of `Trim` does for one message. -/
def MsgChain.dropMsg (baseFee : Int) (prev : Option (MsgChain F E)) (m : SignedMessage) (c : MsgChain F E) : MsgChain F E :=
  let gasReward := c.gasReward - getGasReward baseFee m
  let gasLimit := c.gasLimit - m.message.gasLimit
  if gasLimit > 0 then
    let c := { c with gasReward, gasLimit, gasPerf := fl.getGasPerf gasReward gasLimit }
    if fl.eq c.bp 0 then c else MsgChain.setEffPerf fl prev c
  else { c with gasReward, gasLimit, gasPerf := 0, effPerf := 0 }

/-- The loop of `Trim`, over the messages from the last to the first. -/
def MsgChain.trimLoop (baseFee gasLimit msgLimit : Int) (prev : Option (MsgChain F E)) :
    List SignedMessage → MsgChain F E → MsgChain F E
  | [], c => { c with msgs := [], valid := false }
  | m :: msgs, c =>
    if c.gasLimit > gasLimit ∨ c.gasPerf < 0 ∨ (msgs.length : Int) ≥ msgLimit then
      MsgChain.trimLoop baseFee gasLimit msgLimit prev msgs (MsgChain.dropMsg fl baseFee prev m c)
    else { c with msgs := (m :: msgs).reverse }

/-- `msgChain.Invalidate` of the first chain of a list, with those linked after it. -/
def invalidate : List (MsgChain F E) → List (MsgChain F E)
  | [] => []
  | c :: chains =>
    { c with valid := false, msgs := [], next := false } :: if c.next then invalidate chains else chains

/-- `msgChain.Trim` of the first chain of a list. -/
def trim (baseFee gasLimit msgLimit : Int) (prev : Option (MsgChain F E)) : List (MsgChain F E) → List (MsgChain F E)
  | [] => []
  | c :: chains =>
    { MsgChain.trimLoop fl baseFee gasLimit msgLimit prev c.msgs.reverse c with next := false } ::
      if c.next then invalidate chains else chains
end
end Lotus.Mpool

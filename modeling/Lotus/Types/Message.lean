/-
# Messages and blocks with their messages (`chain/types`).

The fields the modelled functions read.
-/
import Lotus.Types.TipSet

namespace Lotus

inductive SigType where
  | unknown | secp256k1 | bls
  deriving DecidableEq

structure Message where
  cid : Cid
  fromAddr : Address
  nonce : UInt64
  value : Int
  gasLimit : Int
  gasFeeCap : Int
  gasPremium : Int
  version : UInt64
  toAddr : Address
  method : UInt64
  params : Bytes
  deriving DecidableEq

structure SignedMessage where
  cid : Cid
  message : Message
  sigType : SigType
  deriving DecidableEq

/-- `types.ChainMsg`: a message that is signed in the aggregate of its block, or by itself. -/
inductive ChainMsg where
  | message (m : Message)
  | signed (m : SignedMessage)
  deriving DecidableEq

def ChainMsg.cid : ChainMsg → Cid
  | .message m => m.cid
  | .signed m => m.cid

def ChainMsg.vmMessage : ChainMsg → Message
  | .message m => m
  | .signed m => m.message

structure FullBlock where
  header : BlockHeader
  blsMessages : List Message
  secpkMessages : List SignedMessage
  deriving DecidableEq

structure FullTipSet where
  blocks : List FullBlock
  deriving DecidableEq

def blockMessageLimit : Nat := 10000

end Lotus

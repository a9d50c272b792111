/-
# Addresses, CIDs, actors and Go errors.

As far as the code observes them, a `cid.Cid` is a byte string; an `address.Address` its protocol and payload; a Go `error`
the chain of messages that `xerrors.Errorf("…: %w", err)` builds, with the one sentinel the code tests for.
-/
import Mathlib.Algebra.Order.Ring.Int
import Mathlib.Data.List.AList
import Mathlib.Data.List.Lex
import Mathlib.Data.UInt

namespace Lotus

/-- A byte. `Fin 256` carries the linear order `bytes.Compare` is built on. -/
abbrev Byte := Fin 256

instance neZero_byte : NeZero 256 := ⟨by decide⟩

/-- Byte strings; `bytes.Compare(a, b) < 0` is `a < b` in the lexicographic order. -/
abbrev Bytes := List Byte

/-- `cid.Cid`: go-cid keeps the binary form and compares it bytewise. -/
structure Cid where
  str : Bytes
  deriving DecidableEq

inductive Protocol where
  | id | secp256k1 | actor | bls | unknown
  deriving DecidableEq

/-- `address.Address`: the undefined address, or a protocol with its payload. -/
inductive Address where
  | undef
  | id (n : Nat)
  | secp256k1 (payload : Bytes)
  | actor (payload : Bytes)
  | bls (payload : Bytes)
  deriving DecidableEq

def Address.protocol : Address → Protocol
  | .undef => .unknown
  | .id _ => .id
  | .secp256k1 _ => .secp256k1
  | .actor _ => .actor
  | .bls _ => .bls

structure Actor where
  code : Cid
  head : Cid
  nonce : UInt64
  balance : Int
  deriving DecidableEq

/-- A Go `error`: `types.ErrActorNotFound`, a fresh `Errorf`, or a message around another error with `%w`. -/
inductive GoError where
  | actorNotFound
  | errorf (msg : String)
  | wrap (msg : String) (err : GoError)
  deriving DecidableEq

/-- `xerrors.Is(err, types.ErrActorNotFound)`: the sentinel is found through every `%w`. -/
def GoError.isActorNotFound : GoError → Bool
  | .actorNotFound => true
  | .errorf _ => false
  | .wrap _ e => e.isActorNotFound

/-- The run-time panic of a nil dereference, where a caller observes it as a failed call. -/
def GoError.nilDeref : GoError :=
  .errorf "runtime error: invalid memory address or nil pointer dereference"

/-- A Go `map[κ]ν`: an association list with at most one entry a key. -/
abbrev GoMap (κ ν : Type) := AList (fun _ : κ => ν)

theorem GoMap.lookup_insert_some {κ ν : Type} [DecidableEq κ] {m : GoMap κ ν} {k k' : κ} {v v' : ν}
    (h : (m.insert k v).lookup k' = some v') : k' = k ∧ v' = v ∨ k' ≠ k ∧ m.lookup k' = some v' := by
  by_cases hk : k' = k
  · subst hk
    rw [AList.lookup_insert] at h
    exact .inl ⟨rfl, (Option.some.inj h).symm⟩
  · rw [AList.lookup_insert_ne hk] at h
    exact .inr ⟨hk, h⟩

theorem GoMap.lookup_erase_some {κ ν : Type} [DecidableEq κ] {m : GoMap κ ν} {k k' : κ} {v : ν}
    (h : (m.erase k).lookup k' = some v) : k' ≠ k ∧ m.lookup k' = some v := by
  by_cases hk : k' = k
  · rw [hk, AList.lookup_erase] at h
    cases h
  · rw [AList.lookup_erase_ne hk] at h
    exact ⟨hk, h⟩

theorem GoMap.lookup_foldl_erase {κ ν : Type} [DecidableEq κ] (m : GoMap κ ν) (ks : List κ) (k : κ) :
    (ks.foldl (fun m k => m.erase k) m).lookup k = if k ∈ ks then none else m.lookup k := by
  induction ks generalizing m with
  | nil => simp
  | cons k' ks ih =>
    rw [List.foldl_cons, ih]
    by_cases hk : k = k'
    · subst hk
      simp
    · simp [hk, AList.lookup_erase_ne hk]

open List in
theorem GoMap.sum_kerase {κ ν : Type} [DecidableEq κ] (m : GoMap κ ν) (k : κ) (w : ν → Int) :
    ((m.entries.kerase k).map fun e => w e.2).sum = (m.entries.map fun e => w e.2).sum - (m.lookup k).elim 0 w := by
  unfold AList.lookup
  induction m.entries with
  | nil => rfl
  | cons e l ih =>
    by_cases hk : k = e.1
    · subst hk
      rw [kerase_cons_eq rfl, dlookup_cons_eq, map_cons, sum_cons, Option.elim_some, Int.add_comm, Int.add_sub_cancel]
    · rw [kerase_cons_ne hk, dlookup_cons_ne _ _ hk, map_cons, map_cons, sum_cons, sum_cons, ih, Int.add_sub_assoc]

end Lotus

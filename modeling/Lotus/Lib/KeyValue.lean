/-
# Key-value stores behind an interface.

A store is `has`, `get` and `put`, each of which can fail. `Holds d view` says that `d` does not fail and holds `view`;
nothing else is known of the state.
-/
import Mathlib.Tactic.Common

namespace Lotus.Lib.KeyValue

/-- A store of values `ν` under keys `κ`, with states `σ` and errors `ε`. -/
structure Store (σ κ ν ε : Type) where
  has : σ → κ → Except ε Bool
  get : σ → κ → Except ε ν
  put : σ → κ → ν → Except ε σ

variable {σ κ κ' ν ε : Type}

def Store.rekey (d : Store σ κ ν ε) (f : κ' → κ) : Store σ κ' ν ε where
  has s k := d.has s (f k)
  get s k := d.get s (f k)
  put s k v := d.put s (f k) v

section
variable (d : Store σ κ ν ε) (f : κ' → κ) (s : σ) (k : κ')
include d f s k

@[simp] theorem Store.rekey_has : (d.rekey f).has s k = d.has s (f k) := rfl

@[simp] theorem Store.rekey_get : (d.rekey f).get s k = d.get s (f k) := rfl
end

variable [DecidableEq κ]

structure Holds (d : Store σ κ ν ε) (view : σ → κ → Option ν) : Prop where
  has : ∀ s k, d.has s k = .ok (view s k).isSome
  get : ∀ s k v, view s k = some v → d.get s k = .ok v
  put : ∀ s k v, ∃ s', d.put s k v = .ok s' ∧ view s' = Function.update (view s) k (some v)

variable {view : σ → κ → Option ν}

section
variable {d : Store σ κ ν ε} (h : Holds d view) {s s' : σ}
include h

theorem Holds.view_put {k : κ}
    {v : ν} (hpu : d.put s k v = .ok s') : view s' = Function.update (view s) k (some v) := by
  obtain ⟨s1, hs1, hv⟩ := h.put s k v
  rw [hpu] at hs1
  rw [Except.ok.inj hs1, hv]

theorem Holds.put_keeps {k k' : κ}
    {v w : ν} (hpu : d.put s k v = .ok s') (hk : view s k' = some w) (hsa : k' = k → w = v) : view s' k' = some w := by
  rw [h.view_put hpu]
  by_cases hkk : k' = k
  · simp [hkk, hsa hkk]
  · rw [Function.update_of_ne hkk]
    exact hk
end
end Lotus.Lib.KeyValue

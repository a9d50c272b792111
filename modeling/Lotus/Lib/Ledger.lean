/-
# Accounts with balances, and what keeps their sum.

A ledger maps finitely many keys to accounts. `Evolves` is the closure of the changes that create and destroy no money: an
account is edited but for its balance, an amount moves, an empty account is opened or closed.
-/
import Mathlib.Algebra.BigOperators.Finprod
import Mathlib.Algebra.Order.Ring.Int

namespace Lotus.Lib.Ledger
open List Function
variable {α β : Type*} (bal : β → Int)

section
variable (v : α → Option β)

def amount (a : α) : Int := (v a).elim 0 bal

noncomputable def supply (v : α → Option β) : Int := ∑ᶠ a, amount bal v a

def NonNeg : Prop := ∀ a act, v a = some act → 0 ≤ bal act

def Finite : Prop := {a | v a ≠ none}.Finite
end

variable [DecidableEq α]

inductive Evolves : (α → Option β) → (α → Option β) → Prop where
  | refl (v : α → Option β) : Evolves v v
  | trans {v v' v'' : α → Option β} (h : Evolves v v') (h' : Evolves v' v'') : Evolves v v''
  | edit {v : α → Option β} {i : α} {act act' : β} (hi : v i = some act) (hbal : bal act' = bal act) :
      Evolves v (update v i (some act'))
  | move {v : α → Option β} {i j : α} {f f' t t' : β} {amt : Int} (hne : i ≠ j) (hi : v i = some f)
      (hj : v j = some t) (hamt : 0 ≤ amt) (hle : amt ≤ bal f) (hf : bal f' = bal f - amt)
      (ht : bal t' = bal t + amt) :
      Evolves v (update (update v i (some f')) j (some t'))
  | opened {v : α → Option β} {i : α} {act : β} (hi : v i = none) (hbal : bal act = 0) :
      Evolves v (update v i (some act))
  | closed {v : α → Option β} {i : α} {act : β} (hi : v i = some act) (hbal : bal act = 0) :
      Evolves v (update v i none)

variable {bal} {v v' : α → Option β}

theorem Finite.update (h : Finite v) (i : α) (x : Option β) : Finite (update v i x) := by
  refine (h.insert i).subset ?_
  intro a ha
  by_cases hai : a = i
  · exact Or.inl hai
  refine Or.inr ?_
  show v a ≠ none
  rw [← update_of_ne hai x v]
  exact ha

theorem amount_update (i : α) (x : Option β) :
    amount bal (update v i x) = update (amount bal v) i (x.elim 0 bal) := by
  funext a
  unfold amount
  by_cases hai : a = i
  · rw [hai, update_self, update_self]
  · rw [update_of_ne hai, update_of_ne hai]

theorem supply_update (h : Finite v) (i : α) (x : Option β) :
    supply bal (update v i x) = supply bal v - amount bal v i + x.elim 0 bal := by
  let s : Finset α := insert i h.toFinset
  have hsu : ∀ a, a ∉ s → amount bal v a = 0 := by
    intro a ha
    have hn : v a = none := by
      by_contra hso
      exact ha (Finset.mem_insert_of_mem (h.mem_toFinset.mpr hso))
    unfold amount
    rw [hn]
    rfl
  have hi : i ∈ s := Finset.mem_insert_self i _
  have hsum : ∀ f : α → Int, (∀ a, a ∉ s → f a = 0) → ∑ᶠ a, f a = ∑ a ∈ s, f a := by
    intro f hf
    refine finsum_eq_sum_of_support_subset f ?_
    intro a ha
    by_contra hmem
    exact ha (hf a hmem)
  have hz : ∀ a, a ∉ s → update (amount bal v) i (x.elim 0 bal) a = 0 := by
    intro a ha
    have hai : a ≠ i := by
      rintro rfl
      exact ha hi
    rw [update_of_ne hai]
    exact hsu a ha
  have hrest := Finset.add_sum_erase s (amount bal v) hi
  unfold supply
  rw [amount_update, hsum (amount bal v) hsu, hsum _ hz, Finset.sum_update_of_mem hi, ← Finset.erase_eq, ← hrest]
  omega

omit [DecidableEq α] in
theorem amount_of_some {i : α} {act : β} (h : v i = some act) : amount bal v i = bal act := by
  unfold amount
  rw [h]
  rfl

def ListedBy (v : α → Option β) (l : List (α × β)) : Prop :=
  (l.map Prod.fst).Nodup ∧ ∀ a act, (a, act) ∈ l ↔ v a = some act

omit [DecidableEq α] in
theorem ListedBy.finite {l : List (α × β)} (h : ListedBy v l) : Finite v := by
  refine (finite_toSet (l.map Prod.fst)).subset ?_
  intro a ha
  obtain ⟨act, hac⟩ := Option.ne_none_iff_exists'.mp ha
  exact mem_map.mpr ⟨(a, act), (h.2 a act).mpr hac, rfl⟩

theorem ListedBy.supply_eq {l : List (α × β)} (h : ListedBy v l) : supply bal v = (l.map fun p => bal p.2).sum := by
  have hsu : support (amount bal v) ⊆ ↑(l.map Prod.fst).toFinset := by
    intro a ha
    rw [coe_toFinset]
    cases hv : v a with
    | none =>
      refine absurd ?_ ha
      rw [amount, hv]
      rfl
    | some act => exact mem_map.mpr ⟨(a, act), (h.2 a act).mpr hv, rfl⟩
  unfold supply
  rw [finsum_eq_sum_of_support_subset _ hsu, sum_toFinset _ h.1, map_map]
  congr 1
  refine map_congr_left fun p hp => ?_
  exact amount_of_some ((h.2 p.1 p.2).mp hp)

theorem NonNeg.update (h : NonNeg bal v) {i : α} {x : Option β} (hx : ∀ act, x = some act → 0 ≤ bal act) :
    NonNeg bal (update v i x) := by
  intro a act ha
  by_cases hai : a = i
  · rw [hai, update_self] at ha
    exact hx act ha
  · rw [update_of_ne hai] at ha
    exact h a act ha

theorem Evolves.conserves (h : Evolves bal v v') (hfi : Finite v) :
    Finite v' ∧ supply bal v' = supply bal v ∧ (NonNeg bal v → NonNeg bal v') := by
  induction h with
  | refl v => exact ⟨hfi, rfl, id⟩
  | trans h h' ih ih' =>
    obtain ⟨hf1, hs1, hn1⟩ := ih hfi
    obtain ⟨hf2, hs2, hn2⟩ := ih' hf1
    exact ⟨hf2, hs2.trans hs1, fun h => hn2 (hn1 h)⟩
  | @edit v i act act' hi hbal =>
    refine ⟨hfi.update i _, ?_, fun hn => hn.update ?_⟩
    · rw [supply_update hfi, amount_of_some hi]
      show supply bal v - bal act + bal act' = supply bal v
      omega
    rintro _ ⟨⟩
    rw [hbal]
    exact hn i act hi
  | @move v i j f f' t t' amt hne hi hj hamt hle hf ht =>
    have hj' : update v i (some f') j = some t := by
      rw [update_of_ne hne.symm]
      exact hj
    refine ⟨(hfi.update i _).update j _, ?_, fun hn => (hn.update ?_).update ?_⟩
    · rw [supply_update (hfi.update i _), amount_of_some hj', supply_update hfi, amount_of_some hi]
      show supply bal v - bal f + bal f' - bal t + bal t' = supply bal v
      omega
    · rintro _ ⟨⟩
      omega
    rintro _ ⟨⟩
    have := hn j t hj
    omega
  | @opened v i act hi hbal =>
    refine ⟨hfi.update i _, ?_, fun hn => hn.update ?_⟩
    · rw [supply_update hfi, amount, hi]
      show supply bal v - 0 + bal act = supply bal v
      omega
    · rintro _ ⟨⟩
      omega
  | @closed v i act hi hbal =>
    refine ⟨hfi.update i _, ?_, fun hn => hn.update ?_⟩
    · rw [supply_update hfi, amount_of_some hi]
      show supply bal v - bal act + 0 = supply bal v
      omega
    · intro act ha
      cases ha

end Lotus.Lib.Ledger

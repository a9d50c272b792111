/-
# The recoveries declared ahead of a deadline.

One loop of `declareRecoveries` trims the sectors to the limit and splits the declarations into messages.
-/
import Lotus.WdPost.Run
import Mathlib.Data.Finset.Sort

namespace Lotus.WdPost
open List Lib.Slice Finset

structure RecoveryDeclaration where
  deadline : Nat
  partition : Nat
  sectors : Finset Nat
  deriving DecidableEq

abbrev Batch := List RecoveryDeclaration

structure Recoverer where
  recoveringSectorLimit : Nat
  maxPartitionsPerRecoveryMessage : Int
  dlIdx : Nat
  /-- By partition: the sectors on chain, and the bad ones. -/
  minerSectors : Nat → Except GoError (Finset Nat)
  checkProvable : Nat → Except GoError (Finset Nat)

namespace Recoverer
variable (s : Recoverer)

def checkSectors (i : Nat) (check : Finset Nat) : Except GoError (Finset Nat) := do
  let sectors ← s.minerSectors i
  let bad ← (s.checkProvable i).mapError (.wrap "checking provable sectors")
  return (check ∩ sectors) \ bad

def recovered (i : Nat) (p : Partition) : Except GoError (Finset Nat) :=
  let unrecovered := p.faulty \ p.recovering
  if unrecovered = ∅ then .ok ∅
  else (s.checkSectors i unrecovered).mapError (.wrap "checking unrecovered sectors")

def trim (recovered : Finset Nat) (total : Nat) : Finset Nat :=
  let maxNewRecoverable := s.recoveringSectorLimit - total
  if 0 < s.recoveringSectorLimit ∧ maxNewRecoverable < recovered.card then
    ((recovered.sort (· ≤ ·)).take maxNewRecoverable).toFinset
  else recovered

def push (done : List Batch) (cur : Batch) (decl : RecoveryDeclaration) : List Batch × Batch :=
  if 0 < s.maxPartitionsPerRecoveryMessage ∧ s.maxPartitionsPerRecoveryMessage ≤ cur.length then (done ++ [cur], [decl])
  else (done, cur ++ [decl])

/-- The loop, with the last batch apart from those before it. -/
def batch : List (Partition × Nat) → List Batch → Batch → Nat → Except GoError (List Batch × Nat)
  | [], done, cur, total => .ok (done ++ [cur], total)
  | (p, i) :: partitions, done, cur, total => do
    let all ← s.recovered i p
    if all = ∅ then batch partitions done cur total
    else if 0 < s.recoveringSectorLimit ∧ s.recoveringSectorLimit < total then .ok (done ++ [cur], total)
    else
      let decl := ⟨s.dlIdx, i, s.trim all total⟩
      let (done, cur) := s.push done cur decl
      let total := total + decl.sectors.card
      if 0 < s.recoveringSectorLimit ∧ s.recoveringSectorLimit ≤ total then .ok (done ++ [cur], total)
      else batch partitions done cur total

def declareRecoveries (partitions : List Partition) : Except GoError (List Batch) := do
  let (batches, total) ← s.batch partitions.zipIdx [] [] 0
  return if total = 0 then [] else batches

def recoverable (partitions : List (Partition × Nat)) : Nat :=
  (partitions.map fun (p, i) => ((s.recovered i p).toOption.getD ∅).card).sum

def limited (n : Nat) : Nat := if s.recoveringSectorLimit = 0 then n else min s.recoveringSectorLimit n

def Fits (b : Batch) : Prop :=
  b ≠ [] ∧ (0 < s.maxPartitionsPerRecoveryMessage → b.length ≤ s.maxPartitionsPerRecoveryMessage)

/-- Of the partition, faulty sectors that are not recovering and are provable. -/
def Declares (p : Partition × Nat) (d : RecoveryDeclaration) : Prop :=
  d.deadline = s.dlIdx ∧ d.partition = p.2 ∧
    ∃ bad, s.checkProvable p.2 = .ok bad ∧ d.sectors ⊆ (p.1.faulty \ p.1.recovering) \ bad

variable {s} {i total : Nat} {p : Partition} {all : Finset Nat}

theorem trim_subset : s.trim all total ⊆ all := by
  unfold trim
  dsimp only
  split_ifs
  · intro x hx
    exact (mem_sort _).mp (mem_of_mem_take (mem_toFinset.mp hx))
  · rfl

theorem card_trim (all : Finset Nat) (h : s.recoveringSectorLimit = 0 ∨ total < s.recoveringSectorLimit) :
    total + (s.trim all total).card = s.limited (total + all.card) := by
  unfold trim limited
  dsimp only
  split_ifs
  · omega
  · rw [toFinset_card_of_nodup ((sort_nodup _ _).sublist (take_sublist _ _)), length_take, length_sort]
    omega
  · rfl
  · omega

theorem declares_trim (total : Nat) (h : s.recovered i p = .ok all) (hne : all ≠ ∅) :
    s.Declares (p, i) ⟨s.dlIdx, i, s.trim all total⟩ := by
  unfold recovered checkSectors at h
  dsimp only at h
  split_ifs at h
  · exact absurd (Except.ok.inj h).symm hne
  -- only where both calls succeed is there a result
  rcases hm : s.minerSectors i with e | sectors <;> rcases hb : s.checkProvable i with e | bad <;> rw [hm, hb] at h <;> cases h
  exact ⟨rfl, rfl, bad, hb, trim_subset.trans (sdiff_subset_sdiff inter_subset_left subset_rfl)⟩

section
variable {partitions : List (Partition × Nat)} {done bs : List Batch} {cur : Batch} (hd : ∀ b ∈ done, s.Fits b)
include hd

theorem Fits.snoc (h : s.Fits cur) : ∀ b ∈ done ++ [cur], s.Fits b := by
  simpa [or_imp, forall_and] using ⟨hd, h⟩

theorem Fits.push (hc : cur ≠ [] → s.Fits cur) (d : RecoveryDeclaration) :
    (∀ b ∈ (s.push done cur d).1, s.Fits b) ∧ s.Fits (s.push done cur d).2 ∧
      (s.push done cur d).1.flatten ++ (s.push done cur d).2 = done.flatten ++ cur ++ [d] := by
  unfold Recoverer.push
  split_ifs with h
  · exact ⟨.snoc hd (hc (by rintro rfl; simp at h; omega)), ⟨by simp, fun hm => hm⟩, by simp⟩
  · exact ⟨hd, ⟨by simp, fun hm => by rw [length_append, length_singleton]; omega⟩, by simp⟩

theorem batch_spec {t} (hl : s.recoveringSectorLimit = 0 ∨ total < s.recoveringSectorLimit) (hc : cur ≠ [] → s.Fits cur)
    (hz : cur = [] → total = 0) (h : s.batch partitions done cur total = .ok (bs, t)) :
    (t ≠ 0 → ∀ b ∈ bs, s.Fits b) ∧ t = s.limited (total + s.recoverable partitions) ∧
      ∃ ds, bs.flatten = done.flatten ++ cur ++ ds ∧ t = total + (ds.map (·.sectors.card)).sum ∧
        ds.map (·.partition) <+ partitions.map (·.2) ∧ ∀ d ∈ ds, ∃ q ∈ partitions, s.Declares q d := by
  induction partitions generalizing done cur total with
  | nil =>
    cases h
    refine ⟨fun ht => .snoc hd (hc fun he => ht (hz he)), ?_, [], by simp⟩
    show t = s.limited t
    unfold limited
    split_ifs <;> omega
  | cons q partitions ih =>
    obtain ⟨all, ha, h⟩ := bind_ok.mp h
    have hr : s.recoverable (q :: partitions) = all.card + s.recoverable partitions := by
      simp [recoverable, ha, Except.toOption]
    have hn := card_trim all hl
    have next : ∀ d, (∃ q ∈ partitions, s.Declares q d) → ∃ q' ∈ q :: partitions, s.Declares q' d := by
      rintro d ⟨q', hq, hd⟩
      exact ⟨q', mem_cons_of_mem q hq, hd⟩
    rw [hr]
    dsimp only at h
    split_ifs at h with he
    · obtain ⟨hf, ht, ds, hb, hs, hp, hk⟩ := ih hd hl hc hz h
      exact ⟨hf, by simpa [he] using ht, ds, hb, hs, hp.cons _, fun d hm => next d (hk d hm)⟩
    · omega
    all_goals
      obtain ⟨hd, hc, hb⟩ := Fits.push hd hc ⟨s.dlIdx, q.2, s.trim all total⟩
      have hk := declares_trim total ha he
    · cases h
      refine ⟨fun _ => .snoc hd hc, ?_, [_], by simpa using hb, by simp, by simp, by simp [hk]⟩
      unfold limited at hn ⊢
      split_ifs at hn ⊢ <;> omega
    · obtain ⟨hf, ht, ds, hb', hs, hp, hks⟩ := ih hd (by omega) (fun _ => hc) (fun he => absurd he hc.1) h
      refine ⟨hf, ?_, ⟨s.dlIdx, q.2, s.trim all total⟩ :: ds, by simp [hb', hb], by simp [hs]; omega, hp.cons_cons q.2,
        forall_mem_cons.mpr ⟨⟨q, mem_cons_self, hk⟩, fun d hm => next d (hks d hm)⟩⟩
      unfold limited at hn ht ⊢
      split_ifs at hn ht ⊢ <;> omega
end

end Recoverer
end Lotus.WdPost

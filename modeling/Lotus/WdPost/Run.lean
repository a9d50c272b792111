/-
# The window PoSts of one deadline.

`runPoStCycle` proves the partitions in batches, and tries a batch again when sectors were skipped, the randomness moved or
the proof does not verify. After a panic the cycle returns nothing, and no error, as it does when there is nothing to prove.
-/
import Lotus.Types.Basic
import Lotus.Lib.Slice
import Mathlib.Data.Finset.Max

namespace Lotus.WdPost
open List Lib.Slice

structure Partition where
  allSectors : Finset Nat
  live : Finset Nat
  faulty : Finset Nat
  recovering : Finset Nat
  subset : live ∪ recovering ⊆ allSectors

/-- What is said of a partition, and the sectors of it that the proof challenges. -/
structure PoStPartition where
  index : Nat
  skipped : Finset Nat
  challenged : Finset Nat

/-- Why a call ends the cycle: an error, or a panic. -/
abbrev Stop := Option GoError

structure Attempt where
  /-- The bad sectors of a partition. -/
  checkProvable : Nat → Except Stop (Finset Nat)
  /-- `StateMinerSectors` for the good ones. -/
  minerSectors : Nat → Except Stop Unit
  /-- The number of proofs, or the skipped sectors. -/
  generate : Except Stop (Except (List Nat × GoError) Nat)
  rand : Except Stop Nat
  verify : Except Stop Bool
  ctxErr : Option GoError

structure Cycle where
  manual : Bool
  disablePreChecks : Bool
  maxPoStPartitions : Nat
  declarationsMax : Nat
  maxPartitionsPerPostMessage : Nat
  singleRecovering : Bool
  rand : Except GoError Nat
  attempts : Nat → Nat → Attempt

inductive Tried where
  | nothing
  | proved (partitions : List PoStPartition)
  | again (rand : Nat) (postSkipped : Finset Nat)

def sectorsForProof (good all : Finset Nat) : Finset Nat :=
  if h : good.Nonempty then all.image fun n => if n ∈ good then n else good.min' h else ∅

namespace Cycle
variable (s : Cycle)

def toProve (p : Partition) : Finset Nat := (if s.manual then p.live else p.live \ p.faulty) ∪ p.recovering

def checkSectors (a : Attempt) (i : Nat) : Except Stop (Finset Nat) :=
  if s.disablePreChecks then .ok ∅ else a.checkProvable i

def gather (a : Attempt) (postSkipped : Finset Nat) : Nat → List Partition → Except Stop (List PoStPartition)
  | _, [] => .ok []
  | i, p :: batch => do
    let bad ← s.checkSectors a i
    let good := (s.toProve p \ bad) \ postSkipped
    a.minerSectors i
    let rest ← gather a postSkipped (i + 1) batch
    let ssi := sectorsForProof good p.allSectors
    return (if ssi = ∅ then [] else [⟨i, s.toProve p \ good, ssi⟩]) ++ rest

def attempt (a : Attempt) (i : Nat) (batch : List Partition) (rand : Nat) (postSkipped : Finset Nat) : Except Stop Tried := do
  let partitions ← s.gather a postSkipped i batch
  if partitions.isEmpty then .ok .nothing
  else match ← a.generate with
  | .ok proofs =>
    if proofs = 0 then .error (some (.errorf "received no proofs back from generate window post"))
    else do
      let checkRand ← a.rand
      if checkRand ≠ rand then .ok (.again checkRand postSkipped)
      else match a.verify with
      | .error none => .error none
      | .ok true => .ok (.proved partitions)
      | _ => .ok (.again rand postSkipped)
  | .error (ps, err) =>
    if ps.isEmpty then .error (some (.wrap "running window post failed" err))
    else match a.ctxErr with
    | some err => .error (some err)
    | none => .ok (.again rand (postSkipped ∪ ps.toFinset))

def proveBatch (b i : Nat) (batch : List Partition) :
    Nat → Nat → Nat → Finset Nat → Option (Except Stop (Nat × List PoStPartition))
  | 0, _, _, _ => none
  | fuel + 1, retries, rand, postSkipped =>
    match s.attempt (s.attempts b retries) i batch rand postSkipped with
    | .error stop => some (.error stop)
    | .ok .nothing => some (.ok (rand, []))
    | .ok (.proved partitions) => some (.ok (rand, partitions))
    | .ok (.again rand postSkipped) => proveBatch b i batch fuel (retries + 1) rand postSkipped

def proveBatches (fuel : Nat) : Nat → Nat → Nat → List (List Partition) → Option (Except Stop (List (List PoStPartition)))
  | _, _, _, [] => some (.ok [])
  | b, i, rand, batch :: batches => do
    match ← s.proveBatch b i batch fuel 0 rand ∅ with
    | .error stop => some (.error stop)
    | .ok (rand, partitions) =>
      let rest ← proveBatches fuel (b + 1) (i + batch.length) rand batches
      some (rest.map fun posts => if partitions.isEmpty then posts else partitions :: posts)

def partitionsPerMsg : Nat :=
  let n := min s.maxPoStPartitions s.declarationsMax
  if 0 < s.maxPartitionsPerPostMessage then min n s.maxPartitionsPerPostMessage else n

def batchPartitions : List Partition → List Partition → List (List Partition)
  | [], currBatch => if currBatch.isEmpty then [] else [currBatch]
  | p :: partitions, currBatch =>
    if s.singleRecovering && 0 < p.recovering.card then
      (if currBatch.isEmpty then [] else [currBatch]) ++ [p] :: batchPartitions partitions []
    else if s.partitionsPerMsg ≤ currBatch.length then currBatch :: batchPartitions partitions [p]
    else batchPartitions partitions (currBatch ++ [p])

section
variable (fuel : Nat) (partitions : List Partition)

def run (rand : Nat) : Option (Except Stop (List (List PoStPartition))) :=
  s.proveBatches fuel 0 0 rand (s.batchPartitions partitions [])

def runPoStCycle : Option (Except GoError (List (List PoStPartition))) :=
  match s.rand with
  | .error err => some (.error err)
  | .ok rand => (s.run fuel partitions rand).map fun
    | .ok posts => .ok posts
    | .error (some err) => .error err
    -- recovered
    | .error none => .ok []
end

/-- A sector of the partition is never found bad, and never skipped. -/
def Provable (j : Nat) (p : Partition) : Prop :=
  ∃ x ∈ s.toProve p, (∀ b r bad, (s.attempts b r).checkProvable j = .ok bad → x ∉ bad) ∧
    ∀ b r ps err, (s.attempts b r).generate = .ok (.error (ps, err)) → x ∉ ps

/-- Each of the `n` partitions from `i` on is named at most once, in order, with its sectors either challenged or skipped,
and it is named if it can be proved. -/
structure Covers (partitions : List Partition) (i n : Nat) (l : List PoStPartition) : Prop where
  indices : l.map (·.index) <+ range' i n
  named : ∀ e ∈ l, ∃ p, partitions[e.index]? = some p ∧ e.challenged ∪ e.skipped = s.toProve p ∧
    Disjoint e.challenged e.skipped
  every : ∀ j p, i ≤ j → j < i + n → partitions[j]? = some p → s.Provable j p → j ∈ l.map (·.index)

variable {s} {partitions batch : List Partition} {i n fuel : Nat} {l l' : List PoStPartition} {postSkipped : Finset Nat}

theorem Covers.nil : s.Covers partitions i 0 [] := ⟨.slnil, by simp, fun j p hlo hh => absurd hlo (by omega)⟩

theorem Covers.append (h : s.Covers partitions i n l) {m : Nat} (h' : s.Covers partitions (i + n) m l') :
    s.Covers partitions i (n + m) (l ++ l') where
  indices := by
    rw [map_append, ← range'_append_1]
    exact h.indices.append h'.indices
  named := forall_mem_append.mpr ⟨h.named, h'.named⟩
  every j p hlo hh hp hpr := by
    rw [map_append, mem_append]
    by_cases hlt : j < i + n
    · exact .inl (h.every j p hlo hlt hp hpr)
    · exact .inr (h'.every j p (by omega) (by omega) hp hpr)

theorem sectorsForProof_eq {good all : Finset Nat} (h : good ⊆ all) : sectorsForProof good all = good := by
  unfold sectorsForProof
  split_ifs with hg
  · ext x
    simp only [Finset.mem_image]
    constructor
    · rintro ⟨n, -, rfl⟩
      split_ifs with hn
      · exact hn
      · exact good.min'_mem hg
    · intro hx
      exact ⟨x, h hx, if_pos hx⟩
  · exact (Finset.not_nonempty_iff_eq_empty.mp hg).symm

def Skips (s : Cycle) (postSkipped : Finset Nat) : Prop :=
  ∀ x ∈ postSkipped, ∃ b r ps err, (s.attempts b r).generate = .ok (.error (ps, err)) ∧ x ∈ ps

theorem covers_one {b r : Nat} {bad : Finset Nat} {p : Partition} (hski : s.Skips postSkipped)
    (hp : partitions[i]? = some p) (hb : s.checkSectors (s.attempts b r) i = .ok bad) :
    let good := (s.toProve p \ bad) \ postSkipped
    let ssi := sectorsForProof good p.allSectors
    s.Covers partitions i 1 (if ssi = ∅ then [] else [⟨i, s.toProve p \ good, ssi⟩]) := by
  intro good ssi
  have hg : good ⊆ s.toProve p := Finset.sdiff_subset.trans Finset.sdiff_subset
  have ha : s.toProve p ⊆ p.allSectors := by
    refine Finset.Subset.trans (Finset.union_subset_union_left ?_) p.subset
    split_ifs
    · rfl
    · exact Finset.sdiff_subset
  rw [show ssi = good from sectorsForProof_eq (hg.trans ha)]
  split_ifs with hempty
  · refine ⟨nil_sublist _, by simp, fun j p' hlo hh hp' ⟨x, hx, hch, hge⟩ => ?_⟩
    obtain rfl : j = i := by omega
    cases hp.symm.trans hp'
    -- a sector that can be proved is good
    have hmem : x ∈ good := by
      refine Finset.mem_sdiff.mpr ⟨Finset.mem_sdiff.mpr ⟨hx, fun hxb => ?_⟩, fun hsk => ?_⟩
      · unfold checkSectors at hb
        split_ifs at hb
        · cases hb
          exact absurd hxb (Finset.notMem_empty x)
        · exact hch b r bad hb hxb
      · obtain ⟨b', r', ps, err, hg', hps⟩ := hski x hsk
        exact hge b' r' ps err hg' hps
    rw [hempty] at hmem
    exact absurd hmem (Finset.notMem_empty x)
  · refine ⟨by simp, fun e he => ?_, fun j p' hlo hh _ _ => ?_⟩
    · cases mem_singleton.mp he
      exact ⟨p, hp, Finset.union_sdiff_of_subset hg, Finset.disjoint_sdiff⟩
    · rw [show j = i by omega]
      exact mem_cons_self

theorem gather_covers {b r : Nat} (hsk : s.Skips postSkipped) (hb : batch <+: partitions.drop i)
    (h : s.gather (s.attempts b r) postSkipped i batch = .ok l) : s.Covers partitions i batch.length l := by
  induction batch generalizing i l with
  | nil =>
    cases h
    exact .nil
  | cons p batch ih =>
    obtain ⟨after, ha⟩ := hb
    have hp : partitions[i]? = some p := by
      rw [← Nat.add_zero i, ← List.getElem?_drop, ← ha]
      rfl
    have hb' : batch <+: partitions.drop (i + 1) := ⟨after, by rw [← tail_drop, ← ha]; rfl⟩
    obtain ⟨bad, hba, h⟩ := bind_ok.mp h
    obtain ⟨_, -, h⟩ := bind_ok.mp h
    obtain ⟨rest, hrest, h⟩ := bind_ok.mp h
    cases h
    rw [length_cons, Nat.add_comm]
    exact (covers_one hsk hp hba).append (ih hb' hrest)

theorem attempt_cases {a : Attempt} {rand : Nat} {tried : Tried} (h : s.attempt a i batch rand postSkipped = .ok tried) :
    match tried with
    | .nothing => s.gather a postSkipped i batch = .ok []
    | .proved l => s.gather a postSkipped i batch = .ok l
    | .again _ postSkipped' =>
      (∃ n, a.generate = .ok (.ok n) ∧ postSkipped' = postSkipped ∧ ¬ (a.rand = .ok rand ∧ a.verify = .ok true)) ∨
        ∃ ps err, a.generate = .ok (.error (ps, err)) ∧ a.ctxErr = none ∧ postSkipped' = postSkipped ∪ ps.toFinset := by
  obtain ⟨l, hl, h⟩ := bind_ok.mp h
  split_ifs at h with hempty
  · cases h
    rwa [List.isEmpty_iff.mp hempty] at hl
  obtain ⟨res, hg, h⟩ := bind_ok.mp h
  split at h
  · split_ifs at h
    obtain ⟨checkRand, hra, h⟩ := bind_ok.mp h
    split_ifs at h with hne
    · cases h
      exact .inl ⟨_, hg, rfl, fun hb => hne (Except.ok.inj (hra.symm.trans hb.1))⟩
    · split at h <;> cases h
      · exact hl
      · exact .inl ⟨_, hg, rfl, fun hb => ‹a.verify = .ok true → False› hb.2⟩
  · split_ifs at h
    split at h <;> cases h
    exact .inr ⟨_, _, hg, ‹_›, rfl⟩

theorem Skips.again {b r rand rand' : Nat} {postSkipped' : Finset Nat} (hsk : s.Skips postSkipped)
    (h : s.attempt (s.attempts b r) i batch rand postSkipped = .ok (.again rand' postSkipped')) : s.Skips postSkipped' := by
  obtain ⟨n, -, rfl, -⟩ | ⟨ps, err, hg, -, rfl⟩ := attempt_cases h
  · exact hsk
  intro x hx
  rcases Finset.mem_union.mp hx with hx | hx
  · exact hsk x hx
  · exact ⟨b, r, ps, err, hg, mem_toFinset.mp hx⟩

theorem proveBatch_covers {b r rand rand' : Nat} (hsk : s.Skips postSkipped) (hb : batch <+: partitions.drop i)
    (h : s.proveBatch b i batch fuel r rand postSkipped = some (.ok (rand', l))) : s.Covers partitions i batch.length l := by
  fun_induction proveBatch with
  | case3 _ _ _ _ htr | case4 _ _ _ _ _ htr =>
    cases h
    exact gather_covers hsk hb (attempt_cases htr)
  | case5 _ _ _ _ _ _ htr ih => exact ih (hsk.again htr) h
  | _ => cases h

theorem proveBatches_covers {batches : List (List Partition)} {b rand : Nat} {posts : List (List PoStPartition)}
    (hb : batches.flatten = partitions.drop i) (h : s.proveBatches fuel b i rand batches = some (.ok posts)) :
    s.Covers partitions i batches.flatten.length posts.flatten := by
  induction batches generalizing b i rand posts with
  | nil =>
    cases h
    exact .nil
  | cons batch batches ih =>
    obtain ⟨r, hr, h⟩ := Option.bind_eq_some_iff.mp h
    rcases r with stop | ⟨rand', l⟩
    · cases h
    obtain ⟨rest, hrest, h⟩ := Option.bind_eq_some_iff.mp h
    rcases rest with stop | posts'
    · cases h
    cases h
    have hta : batches.flatten = partitions.drop (i + batch.length) := by
      rw [← drop_drop, ← hb, flatten_cons, drop_left]
    have ho := proveBatch_covers (fun x hx => absurd hx (Finset.notMem_empty x)) ⟨batches.flatten, hb⟩ hr
    rw [flatten_cons, length_append]
    have ha := ho.append (ih hta hrest)
    split_ifs with hempty
    · rwa [List.isEmpty_iff.mp hempty] at ha
    · exact ha

theorem flatten_batchPartitions (partitions currBatch : List Partition) :
    (s.batchPartitions partitions currBatch).flatten = currBatch ++ partitions := by
  induction partitions generalizing currBatch with
  | nil =>
    unfold batchPartitions
    split_ifs with h <;> simp_all
  | cons p partitions ih =>
    unfold batchPartitions
    split_ifs with h₁ h₂ h₃ <;> simp_all

/-- None of the components panics. -/
structure Calm (a : Attempt) : Prop where
  checkProvable : ∀ i, a.checkProvable i ≠ .error none
  minerSectors : ∀ i, a.minerSectors i ≠ .error none
  generate : a.generate ≠ .error none
  rand : a.rand ≠ .error none
  verify : a.verify ≠ .error none

theorem bind_calm {α β : Type} {x : Except Stop α} {f : α → Except Stop β} (hx : x ≠ .error none)
    (hf : ∀ a, f a ≠ .error none) : x >>= f ≠ .error none := by
  rcases x with stop | a
  · exact fun h => hx (congrArg Except.error (Except.error.inj h))
  · exact hf a

theorem gather_calm {a : Attempt} (ha : Calm a) : s.gather a postSkipped i batch ≠ .error none := by
  induction batch generalizing i with
  | nil => nofun
  | cons p batch ih =>
    refine bind_calm ?_ fun bad => bind_calm (ha.minerSectors i) fun _ => bind_calm ih fun _ => nofun
    unfold checkSectors
    split
    · nofun
    · exact ha.checkProvable i

theorem attempt_calm {a : Attempt} (ha : Calm a) (rand : Nat) : s.attempt a i batch rand postSkipped ≠ .error none := by
  refine bind_calm (gather_calm ha) fun partitions => ?_
  split
  · nofun
  refine bind_calm ha.generate fun proofs => ?_
  split
  · split
    · nofun
    have := ha.verify
    exact bind_calm ha.rand fun checkRand => by grind
  · grind

theorem proveBatch_calm (ha : ∀ b r, Calm (s.attempts b r)) (b retries rand : Nat) :
    s.proveBatch b i batch fuel retries rand postSkipped ≠ some (.error none) := by
  fun_induction proveBatch with
  | case2 fuel retries rand postSkipped stop hstop =>
    rintro ⟨⟩
    exact attempt_calm (ha b retries) rand hstop
  | case5 _ _ _ _ _ _ _ ih => exact ih
  | _ => nofun

theorem proveBatches_calm (ha : ∀ b r, Calm (s.attempts b r)) (b rand : Nat) (batches : List (List Partition)) :
    s.proveBatches fuel b i rand batches ≠ some (.error none) := by
  induction batches generalizing b i rand with
  | nil => nofun
  | cons batch batches ih =>
    rw [proveBatches]
    have hbatch := @proveBatch_calm s batch i fuel ∅ ha b 0 rand
    rcases hone : s.proveBatch b i batch fuel 0 rand ∅ with _ | stop | ⟨rand', partitions⟩
    · nofun
    · rintro ⟨⟩
      exact hbatch hone
    have hrest := @ih (i + batch.length) (b + 1) rand'
    rcases hmore : s.proveBatches fuel (b + 1) (i + batch.length) rand' batches with _ | stop | posts <;>
      simp_all [Except.map]

/-- **A cycle accounts for every sector**, if it returns, exactly when it has not panicked or there was nothing to prove. It
has not if no component did. -/
theorem runPoStCycle_accounts (s : Cycle) (fuel rand : Nat) (partitions : List Partition) (posts : List (List PoStPartition))
    (hra : s.rand = .ok rand) (h : s.runPoStCycle fuel partitions = some (.ok posts)) :
    (s.Covers partitions 0 partitions.length posts.flatten ↔
      s.run fuel partitions rand ≠ some (.error none) ∨ ∀ j p, partitions[j]? = some p → ¬ s.Provable j p) ∧
    ((∀ b r, Calm (s.attempts b r)) → s.run fuel partitions rand ≠ some (.error none)) := by
  refine ⟨?_, fun ha => proveBatches_calm ha 0 rand _⟩
  rw [runPoStCycle, hra] at h
  obtain ⟨r, hrun, hpo⟩ := Option.map_eq_some_iff.mp h
  have hfl := @flatten_batchPartitions s partitions []
  rw [hrun]
  rcases r with (_ | err) | posts'
  · cases hpo
    constructor
    · intro hco
      refine .inr fun j p hp hpr => ?_
      have hlt := (List.getElem?_eq_some_iff.mp hp).1
      exact absurd (hco.every j p (Nat.zero_le j) (by omega) hp hpr) not_mem_nil
    · rintro (hne | hn)
      · exact absurd rfl hne
      · exact ⟨nil_sublist _, by simp, fun j p _ _ hp hpr => absurd hpr (hn j p hp)⟩
  · cases hpo
  · cases hpo
    refine ⟨fun _ => .inl (by rintro ⟨⟩), fun _ => ?_⟩
    have hco := proveBatches_covers (by rw [hfl]; rfl) hrun
    rwa [hfl] at hco

def onePartition : Partition := ⟨{1}, {1}, ∅, ∅, by decide⟩

def oneCycle (generate : Except Stop (Except (List Nat × GoError) Nat)) : Cycle :=
  ⟨false, false, 1, 1, 0, false, .ok 0, fun _ _ => ⟨fun _ => .ok ∅, fun _ => .ok (), generate, .ok 0, .ok true, none⟩⟩

def livePartition (live : Finset Nat) : Partition := ⟨live, live, ∅, ∅, by simp⟩

/-- Sector 1 is skipped, then the randomness moves, and then all is proved. -/
def skipCycle : Cycle :=
  ⟨false, false, 2, 2, 0, false, .ok 0, fun b r => ⟨fun _ => .ok ∅, fun _ => .ok (),
    if b = 0 ∧ r = 0 then .ok (.error ([1], .errorf "some sectors skipped")) else .ok (.ok 1),
    if b = 0 ∧ r = 0 then .ok 0 else .ok 7, .ok true, none⟩⟩

theorem skipCycle_accounts :
    skipCycle.Covers ([{1, 2}, {3}, {4}].map livePartition) 0 3 [⟨0, {1}, {2}⟩, ⟨1, ∅, {3}⟩, ⟨2, ∅, {4}⟩] :=
  (runPoStCycle_accounts skipCycle 3 0 ([{1, 2}, {3}, {4}].map livePartition)
    [[⟨0, {1}, {2}⟩, ⟨1, ∅, {3}⟩], [⟨2, ∅, {4}⟩]] rfl rfl).1.mpr (.inl (by rintro ⟨⟩))

/-- The sector can be proved, and nothing is returned, without an error. -/
theorem oneCycle_panics : (oneCycle (.error none)).runPoStCycle 1 [onePartition] = some (.ok []) ∧
    (oneCycle (.error none)).Provable 0 onePartition :=
  ⟨rfl, 1, by decide, by rintro _ _ _ ⟨⟩; simp, by rintro _ _ _ _ ⟨⟩⟩

section
variable (s) (b i : Nat) (batch : List Partition) (rand : Nat)

inductive Retry : Nat → Nat → Finset Nat → Prop
  | first : Retry 0 rand ∅
  | next {r rand rand' : Nat} {skipped skipped' : Finset Nat} (h : Retry r rand skipped)
      (ha : s.attempt (s.attempts b r) i batch rand skipped = .ok (.again rand' skipped')) : Retry (r + 1) rand' skipped'

def sectors : Finset Nat := batch.foldr (fun p all => s.toProve p ∪ all) ∅

/-- A proof that was generated finds the same randomness and is accepted; a prover that fails names a sector not skipped so
far. -/
def Advances (a : Attempt) (rand : Nat) (skipped : Finset Nat) : Prop :=
  (∀ proofs, a.generate = .ok (.ok proofs) → a.rand = .ok rand ∧ a.verify = .ok true) ∧
    ∀ ps err, a.generate = .ok (.error (ps, err)) → ∃ x ∈ ps, x ∈ s.sectors batch ∧ x ∉ skipped
end

variable {b r rand rand₀ : Nat} {skipped lost : Finset Nat}

theorem Retry.le (hadv : ∀ r rand skipped, s.Retry b i batch rand₀ r rand skipped → r ∉ lost →
      s.Advances batch (s.attempts b r) rand skipped) (h : s.Retry b i batch rand₀ r rand skipped) :
    r ≤ (s.sectors batch ∩ skipped).card + (lost ∩ Finset.range r).card := by
  induction h with
  | first => exact Nat.zero_le _
  | @next r rand rand' skipped skipped' hr ha ih =>
    have hsub : skipped ⊆ skipped' := by
      obtain ⟨n, -, rfl, -⟩ | ⟨ps, err, -, -, rfl⟩ := attempt_cases ha
      · rfl
      · exact Finset.subset_union_left
    have hsec := Finset.inter_subset_inter (subset_refl (s.sectors batch)) hsub
    rw [Finset.range_add_one]
    by_cases hin : r ∈ lost
    · rw [Finset.inter_insert_of_mem hin, Finset.card_insert_of_notMem (by simp)]
      have hle := Finset.card_le_card hsec
      omega
    rw [Finset.inter_insert_of_notMem hin]
    obtain ⟨hproof, hnew⟩ := hadv r rand skipped hr hin
    obtain ⟨n, hg, -, hno⟩ | ⟨ps, err, hg, -, rfl⟩ := attempt_cases ha
    · exact absurd (hproof n hg) hno
    obtain ⟨x, hx, hxs, hn⟩ := hnew ps err hg
    have hlt := Finset.card_lt_card ((Finset.ssubset_iff_of_subset hsec).mpr
      ⟨x, by simp [hx, hxs], fun hb => hn (Finset.mem_inter.mp hb).2⟩)
    omega

theorem Retry.of_proveBatch (h : s.Retry b i batch rand₀ r rand skipped)
    (hrun : s.proveBatch b i batch fuel r rand skipped = none) :
    ∃ rand' skipped', s.Retry b i batch rand₀ (r + fuel) rand' skipped' := by
  fun_induction proveBatch with
  | case1 => exact ⟨_, _, h⟩
  | case5 fuel r _ _ _ _ ha ih =>
    rw [← Nat.succ_add_eq_add_succ]
    exact ih (h.next ha) hrun
  | _ => cases hrun

/-- **The retries end** within the number of sectors and of retries in which the randomness changed, the verifier did not
accept or the prover named nothing new; and none follows a failed proof once the context is cancelled. -/
theorem proveBatch_bounded (s : Cycle) (b i rand : Nat) (batch : List Partition) (lost : Finset Nat)
    (hadv : ∀ r rand' skipped, s.Retry b i batch rand r rand' skipped → r ∉ lost →
      s.Advances batch (s.attempts b r) rand' skipped) :
    (s.proveBatch b i batch ((s.sectors batch).card + lost.card + 1) 0 rand ∅).isSome = true ∧
    ∀ r ps err, (s.attempts b r).generate = .ok (.error (ps, err)) → (s.attempts b r).ctxErr ≠ none →
      ∀ rand' skipped, ¬ s.Retry b i batch rand (r + 1) rand' skipped := by
  refine ⟨?_, fun r ps err hg hc rand' skipped h => ?_⟩
  · rw [Option.isSome_iff_ne_none]
    intro hn
    obtain ⟨rand', skipped, h⟩ := Retry.first.of_proveBatch hn
    have hle := (h.le hadv).trans (Nat.add_le_add (Finset.card_le_card Finset.inter_subset_left)
      (Finset.card_le_card Finset.inter_subset_left))
    omega
  cases h with
  | next h ha =>
    obtain ⟨n, hg', -⟩ | ⟨ps', err', -, hn, -⟩ := attempt_cases ha
    · cases hg.symm.trans hg'
    · exact hc hn

theorem skipCycle_retry (h : skipCycle.Retry 0 0 [livePartition {1, 2}] 0 r rand skipped) :
    (r = 0 ∧ rand = 0 ∧ skipped = ∅) ∨ (r = 1 ∧ rand = 0 ∧ skipped = {1}) ∨ (r = 2 ∧ rand = 7 ∧ skipped = {1}) := by
  induction h with
  | first => simp
  | next h ha ih =>
    rcases ih with ⟨rfl, rfl, rfl⟩ | ⟨rfl, rfl, rfl⟩ | ⟨rfl, rfl, rfl⟩
    · cases ha.symm.trans (show _ = Except.ok (Tried.again 0 {1}) from rfl)
      simp
    · cases ha.symm.trans (show _ = Except.ok (Tried.again 7 {1}) from rfl)
      simp
    · cases ha.symm.trans (show _ = Except.ok (Tried.proved [⟨0, {1}, {2}⟩]) from rfl)

/-- The bound is two sectors, the retry lost to the new randomness, and one: three attempts are made. -/
theorem skipCycle_bounded :
    (skipCycle.proveBatch 0 0 [livePartition {1, 2}] 4 0 0 ∅).isSome = true ∧
      skipCycle.proveBatch 0 0 [livePartition {1, 2}] 2 0 0 ∅ = none := by
  refine ⟨(proveBatch_bounded skipCycle 0 0 0 [livePartition {1, 2}] {1} fun r rand skipped h hlost => ?_).1, rfl⟩
  rcases skipCycle_retry h with ⟨rfl, rfl, rfl⟩ | ⟨rfl, rfl, rfl⟩ | ⟨rfl, rfl, rfl⟩
  · exact ⟨nofun, by rintro ps err ⟨⟩; exact ⟨1, by decide, by decide, by decide⟩⟩
  · exact absurd (Finset.mem_singleton_self 1) hlost
  · exact ⟨fun _ _ => ⟨rfl, rfl⟩, nofun⟩

def rejectedCycle : Cycle :=
  ⟨false, false, 1, 1, 0, false, .ok 0, fun _ _ => ⟨fun _ => .ok ∅, fun _ => .ok (), .ok (.ok 1), .ok 0, .ok false,
    some (.errorf "context canceled")⟩⟩

theorem rejectedCycle_retries : ¬ ∃ fuel, (rejectedCycle.proveBatch 0 0 [onePartition] fuel 0 0 ∅).isSome = true := by
  have hn : ∀ fuel r, rejectedCycle.proveBatch 0 0 [onePartition] fuel r 0 ∅ = none := by
    intro fuel
    induction fuel with
    | zero => exact fun _ => rfl
    | succ fuel ih => exact fun r => ih (r + 1)
  rintro ⟨fuel, h⟩
  rw [hn] at h
  cases h

end Cycle
end Lotus.WdPost

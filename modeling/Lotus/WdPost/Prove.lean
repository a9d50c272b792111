/-
# The prove handler of the window PoSt scheduler.

A generation is known by its place among those started. `processPostResult` compares it with the current one for an error,
but not for a proof: `Expected` is what a step must find so that the current generation is not forgotten.
-/
import Lotus.Lib.Lts
import Lotus.Types.Basic

namespace Lotus.WdPost
open Lib.Lts Option

/-- `dline.Info`, as far as the handlers read it. -/
structure Deadline where
  periodStart : Int
  index : Nat
  currentEpoch : Int
  opens : Int
  close : Int
  challenge : Int
  deriving DecidableEq

/-- The constants of the miner actor, and `dline.NewInfo` with them. -/
structure Calendar where
  periodDeadlines : Nat
  provingPeriod : Int
  newInfo : Int → Nat → Int → Deadline

def Calendar.nextDeadline (cal : Calendar) (di : Deadline) : Deadline :=
  if di.index + 1 = cal.periodDeadlines then cal.newInfo (di.periodStart + cal.provingPeriod) 0 di.currentEpoch
  else cal.newInfo di.periodStart (di.index + 1) di.currentEpoch

def challengeConfidence : Int := 1

/-- The prove handler, with the generations that it has started, and those of them that are over. -/
structure ProveHandler (σ : Type) where
  current : Option (Nat × Deadline)
  posts : GoMap Int (List σ)
  started : List Deadline
  aborted : List Nat
  completed : List Nat

open ProveHandler

namespace ProveHandler
variable {σ : Type} {p p' : ProveHandler σ} {g : Nat} {height : Int} {di : Deadline}

def new : ProveHandler σ := ⟨none, ∅, [], [], []⟩

section
variable (p g di)

/-- The generation was started, and neither completed nor aborted. -/
def Live : Prop := g < p.started.length ∧ g ∉ p.aborted ∧ g ∉ p.completed

def place : Option Nat := p.current.map Prod.fst

def firstMissing (cal : Calendar) (posts : GoMap Int (List σ)) : Nat → Deadline → Option Deadline
  | 0, _ => none
  | fuel + 1, di =>
    if (posts.lookup di.opens).isSome then firstMissing cal posts fuel (cal.nextDeadline di) else some di

def expire (height : Int) : ProveHandler σ :=
  match p.current with
  | none => p
  | some (g, di) => if di.close ≤ height then { p with aborted := g :: p.aborted, current := none } else p

def start : ProveHandler σ :=
  { p with started := p.started ++ [di], current := some (p.started.length, di) }

def processHeadChange (cal : Calendar) (fuel : Nat) (p : ProveHandler σ) (height : Int) (di : Deadline) :
    Option (ProveHandler σ) :=
  if (p.expire height).current.isSome then some (p.expire height)
  else (firstMissing cal p.posts fuel di).map fun di =>
    if height < di.challenge + challengeConfidence then p.expire height else (p.expire height).start di

def processPostResult : Except Unit (List σ) → ProveHandler σ
  | .error _ => { p with completed := g :: p.completed, current := if p.place = some g then none else p.current }
  | .ok posts => { p with completed := g :: p.completed, current := none, posts := p.posts.insert di.opens posts }

inductive Label (σ : Type) where
  | headChange (height : Int) (di : Deadline)
  | result (g : Nat) (res : Except Unit (List σ))

def step (cal : Calendar) (fuel : Nat) (p : ProveHandler σ) : Label σ → Option (ProveHandler σ)
  | .headChange height di => p.processHeadChange cal fuel height di
  | .result g res => p.started[g]?.bind fun di => if g ∈ p.completed then none else some (p.processPostResult g di res)

/-- A proof that arrives is that of the current generation, if there is one. -/
def Expected : Label σ → Prop
  | .result g (.ok _) => p.place = none ∨ p.place = some g
  | _ => True

def Inv : Prop := ∀ g, p.Live g → p.place = some g
end

theorem Inv.expire (h : p.Inv) (height : Int) : (p.expire height).Inv := by
  unfold ProveHandler.expire
  split
  · exact h
  rename_i g di hcu
  split_ifs with hcl
  · rintro g' ⟨hlt, ha, hco⟩
    -- what is live was the current generation, which is aborted now
    have hpl := h g' ⟨hlt, fun hmem => ha (List.mem_cons_of_mem g hmem), hco⟩
    rw [place, hcu] at hpl
    exact absurd (some.inj hpl ▸ List.mem_cons_self) ha
  · exact h

theorem Inv.start (h : p.Inv) (hn : p.current = none) (di : Deadline) : (p.start di).Inv := by
  rintro g ⟨hlt, ho⟩
  rw [ProveHandler.start, List.length_append, List.length_singleton] at hlt
  by_cases hold : g < p.started.length
  · have hpl := h g ⟨hold, ho⟩
    rw [place, hn] at hpl
    cases hpl
  show some p.started.length = some g
  congr 1
  omega

theorem Inv.processHeadChange {cal : Calendar} {fuel : Nat} (h : p.Inv)
    (hst : p.processHeadChange cal fuel height di = some p') : p'.Inv := by
  unfold ProveHandler.processHeadChange at hst
  split_ifs at hst with hcu
  · exact some.inj hst ▸ h.expire height
  obtain ⟨next, -, rfl⟩ := map_eq_some_iff.mp hst
  split_ifs
  · exact h.expire height
  · exact (h.expire height).start (not_isSome_iff_eq_none.mp hcu) next

theorem Inv.processPostResult (h : p.Inv) {res : Except Unit (List σ)} (hexp : p.Expected (.result g res)) :
    (p.processPostResult g di res).Inv := by
  intro g' hli
  have hli : g' < p.started.length ∧ g' ∉ p.aborted ∧ g' ∉ g :: p.completed := by cases res <;> exact hli
  rw [List.mem_cons, not_or] at hli
  obtain ⟨hlt, ha, hne, hco⟩ := hli
  have hpl := h g' ⟨hlt, ha, hco⟩
  have ho : p.place ≠ some g := fun hg => hne (some.inj (hpl.symm.trans hg))
  rcases res with e | posts
  · show Option.map Prod.fst (if p.place = some g then none else p.current) = some g'
    rwa [if_neg ho]
  rcases hexp with hn | hg
  · cases hn.symm.trans hpl
  · exact absurd hg ho

theorem Inv.step {cal : Calendar} {fuel : Nat} {a : Label σ} (h : p.Inv) (hexp : p.Expected a)
    (hst : step cal fuel p a = some p') : p'.Inv := by
  cases a with
  | headChange height di => exact h.processHeadChange hst
  | result g res =>
    obtain ⟨di, -, hst⟩ := bind_eq_some_iff.mp hst
    obtain ⟨-, hst⟩ := ite_none_left_eq_some.mp hst
    exact some.inj hst ▸ h.processPostResult hexp

/-- **At most one live generation**, where no proof arrives from one that is not current; and a head past the challenge of a
deadline starts one where none is live or cached. -/
theorem one_live_generation (cal : Calendar) (fuel : Nat) (labels : List (Label σ))
    (hexpected : Legal (step cal (fuel + 1)) Expected new labels) (p : ProveHandler σ)
    (hrun : run (step cal (fuel + 1)) new labels = some p) : (∀ g, p.Live g → p.place = some g) ∧
    ∀ height di, di.challenge + challengeConfidence ≤ height → p.posts.lookup di.opens = none →
      (∀ g d, p.current = some (g, d) → d.close ≤ height) →
      ∃ p', step cal (fuel + 1) p (.headChange height di) = some p' ∧ p'.started = p.started ++ [di] ∧
        p'.place = some p.started.length := by
  refine ⟨?_, fun height di hheight hm ho => ?_⟩
  · refine run_legal (P := Inv) (fun _ _ _ hs ha hst => hs.step ha hst) ?_ hexpected hrun
    rintro g ⟨hlt, -⟩
    exact absurd hlt (Nat.not_lt_zero g)
  have hexp : (p.expire height).current = none ∧ (p.expire height).started = p.started := by
    unfold expire
    split
    · exact ⟨‹_›, rfl⟩
    rename_i g d hcu
    rw [if_pos (ho g d hcu)]
    exact ⟨rfl, rfl⟩
  refine ⟨(p.expire height).start di, ?_, ?_, ?_⟩
  · show p.processHeadChange cal (fuel + 1) height di = _
    simp [processHeadChange, firstMissing, hexp.1, hm, not_lt.mpr hheight]
  · rw [start, hexp.2]
  · rw [start, hexp.2]
    rfl

def tenEpochs : Calendar := ⟨48, 480, fun start i epoch => ⟨start, i, epoch, start + i * 10, start + i * 10 + 10, start + i * 10 - 5⟩⟩

def firstDeadline : Deadline := tenEpochs.newInfo 0 0 0

theorem one_live_generation_next : ∃ p : ProveHandler Nat, run (step tenEpochs 9) new [.headChange 1 firstDeadline,
      .result 0 (.ok [7])] = some p ∧ (∀ g, p.Live g → p.place = some g) ∧
    ∃ p', step tenEpochs 9 p (.headChange 6 (tenEpochs.nextDeadline firstDeadline)) = some p' ∧ p'.place = some 1 := by
  obtain ⟨p, hrun, hcu, hpo, hsta⟩ : ∃ p : ProveHandler Nat, run (step tenEpochs 9) new [.headChange 1
      firstDeadline, .result 0 (.ok [7])] = some p ∧ p.current = none ∧ p.posts.lookup 10 = none ∧ p.started.length = 1 :=
    ⟨_, rfl, rfl, by decide, rfl⟩
  have hexp : Legal (step tenEpochs 9) Expected (new : ProveHandler Nat) [.headChange 1 firstDeadline,
      .result 0 (.ok [7])] := ⟨trivial, fun p1 h1 => ⟨.inr (by cases h1; rfl), fun _ _ => trivial⟩⟩
  obtain ⟨hli, hb⟩ := one_live_generation tenEpochs 8 _ hexp p hrun
  obtain ⟨p', hst, -, hpl⟩ := hb 6 (tenEpochs.nextDeadline firstDeadline) (by decide) hpo (by simp [hcu])
  exact ⟨p, hrun, hli, p', hst, by rw [hpl, hsta]⟩

/-- **Two live generations**, by the proof of an aborted one; and none for the current deadline, after a revert. -/
theorem two_live_generations :
    (∃ p : ProveHandler Nat, run (step tenEpochs 9) new [.headChange 1 firstDeadline, .headChange 10 (tenEpochs.nextDeadline
        firstDeadline), .result 0 (.ok [7]), .headChange 11 (tenEpochs.nextDeadline firstDeadline)] = some p ∧
      p.Live 1 ∧ p.Live 2) ∧
    ∃ p : ProveHandler Nat, run (step tenEpochs 9) new [.headChange 10 (tenEpochs.nextDeadline firstDeadline),
        .headChange 9 firstDeadline] = some p ∧ p.started = [tenEpochs.nextDeadline firstDeadline] ∧
      p.posts.lookup firstDeadline.opens = none := by
  exact ⟨⟨_, rfl, by unfold Live; decide, by unfold Live; decide⟩, _, rfl, rfl, by decide⟩

end ProveHandler
end Lotus.WdPost

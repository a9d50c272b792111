/-
# The submit handler of the window PoSt scheduler.

The scheduler reduces a notification to the last tipset it reverts and the last one it applies, and drops one that applies
none or for which the deadline is not found. So the handler may not learn that the chain fell below the opening of a
deadline: `Reported` is what a notification has to say.
-/
import Lotus.WdPost.Prove

namespace Lotus.WdPost
open Lib.Lts Option Bool

def submitConfidence : Int := 4

/-- A submission is known by its place among those of the window. -/
inductive SubmitState where
  | start
  | submitting (n : Nat)
  | complete
  deriving DecidableEq

/-- A window, with the submissions that are neither aborted nor answered, and whether the chain has fallen below the opening
since the last one. -/
structure PostWindow where
  di : Deadline
  state : SubmitState
  started : Nat
  running : List Nat
  due : Bool

namespace PostWindow

section
variable (pw : PostWindow)

def submitIfReady (advance : Int) (posts : Option Nat) : PostWindow :=
  if pw.di.close ≤ advance ∨ pw.state ≠ .start ∨ advance < pw.di.opens + submitConfidence then pw
  else match posts with
  | none => pw
  -- nothing to prove
  | some 0 => { pw with state := .complete, due := false }
  | some (_ + 1) =>
    { pw with
      state := .submitting pw.started, started := pw.started + 1, running := pw.started :: pw.running, due := false }

/-- The first half of `processHeadChangeForPW`. A window that is replaced forgets its submission. -/
def rewind (revert : Option Int) (advance : Int) : PostWindow :=
  let revertedToPrevDL := revert.any (· < pw.di.opens)
  match pw.state with
  | .submitting n =>
    if revertedToPrevDL || pw.di.close ≤ advance then { pw with state := .start, running := pw.running.erase n } else pw
  | .complete => if revertedToPrevDL then { pw with state := .start } else pw
  | .start => pw

/-- An answer to a submission of a window that was replaced changes nothing. -/
def result (n : Nat) (ok : Bool) : PostWindow :=
  { pw with
    running := pw.running.erase n
    state := if pw.state = .submitting n then (if ok then .complete else .start) else pw.state }

def fall (fell : Option Int) : PostWindow :=
  { pw with due := pw.due || (0 < pw.started && fell.any (· < pw.di.opens)) }

def Good : Prop :=
  (pw.running = match pw.state with | .submitting n => [n] | _ => []) ∧ (pw.due = true → pw.state = .start)

def InRange (head : Int) : Prop := pw.di.opens + submitConfidence ≤ head ∧ head < pw.di.close
end

variable {pw : PostWindow} {advance : Int} {posts : Option Nat} {revert fell : Option Int}

theorem good_submitIfReady (h : pw.Good) :
    let pw' := pw.submitIfReady advance posts
    pw'.Good ∧ (pw.started < pw'.started → pw'.InRange advance) ∧
      (pw'.InRange advance → posts.isSome = true → pw'.due = false) := by
  intro pw'
  unfold pw' submitIfReady
  split_ifs with hn
  · refine ⟨h, fun hlt => absurd hlt (lt_irrefl _), fun ⟨hlo, hh⟩ _ => eq_false_iff.mpr fun hd => ?_⟩
    rcases hn with hle | hst | hlt
    · omega
    · exact hst (h.2 hd)
    · omega
  push Not at hn
  obtain ⟨hh, hst, hlo⟩ := hn
  obtain ⟨hru, -⟩ := h
  rw [hst] at hru
  split
  · exact ⟨⟨by rw [hru, hst], fun _ => hst⟩, fun _ => ⟨hlo, hh⟩, by simp⟩
  · exact ⟨⟨hru, by simp⟩, fun _ => ⟨hlo, hh⟩, by simp⟩
  · exact ⟨⟨by rw [hru], by simp⟩, fun _ => ⟨hlo, hh⟩, by simp⟩

theorem rewind_started : (pw.rewind revert advance).started = pw.started := by
  unfold rewind
  split <;> dsimp only <;> split_ifs <;> rfl

theorem good_rewind (h : pw.Good) (hfe : fell.any (· < pw.di.opens) = true → revert.any (· < pw.di.opens) = true) :
    ((pw.fall fell).rewind revert advance).Good := by
  obtain ⟨hru, hd⟩ := h
  -- where the window is not rewound, the chain has not fallen below it
  have hk : pw.state ≠ .start → revert.any (· < pw.di.opens) = false → (pw.fall fell).due = false := by
    intro hst hre
    have hn : fell.any (· < pw.di.opens) = false := eq_false_iff.mpr fun h => by simp [hfe h] at hre
    show (pw.due || _) = false
    rw [hn, Bool.and_false, Bool.or_false]
    exact eq_false_iff.mpr fun h => hst (hd h)
  unfold rewind
  simp only [show (pw.fall fell).state = pw.state from rfl, show (pw.fall fell).di = pw.di from rfl]
  cases hst : pw.state with
  | start => exact ⟨hru, fun _ => hst⟩
  | submitting n =>
    rw [hst] at hru
    dsimp only
    split_ifs with hb
    · exact ⟨by simp [fall, hru], fun _ => rfl⟩
    · obtain ⟨hre, -⟩ := or_eq_false_iff.mp (eq_false_iff.mpr hb)
      exact ⟨by simp [fall, hru, hst], by simp [hk (by simp [hst]) hre]⟩
  | complete =>
    rw [hst] at hru
    dsimp only
    split_ifs with hre
    · exact ⟨hru, fun _ => rfl⟩
    · refine ⟨by simp [fall, hru, hst], ?_⟩
      simp [hk (by simp [hst]) (eq_false_iff.mpr hre)]

theorem good_result (h : pw.Good) (n : Nat) (ok : Bool) : (pw.result n ok).Good := by
  obtain ⟨hru, hd⟩ := h
  by_cases hn : pw.state = .submitting n
  · rw [hn] at hru
    have hd' : pw.due = false := eq_false_iff.mpr fun h => by simp [hd h] at hn
    refine ⟨?_, by simp [result, hd']⟩
    cases ok <;> simp [result, hn, hru]
  refine ⟨?_, by simpa [result, hn] using hd⟩
  cases hst : pw.state with
  | submitting k =>
    have hk : k ≠ n := fun h => hn (h ▸ hst)
    simp [result, hst, hru, hk]
  | _ => simp [result, hst, hru]

end PostWindow

/-- The handler, the proofs that are cached, and the head of the chain. -/
structure Submitter where
  postWindows : Int → Option PostWindow
  posts : Int → Option Nat
  currentTS : Option Int
  head : Int

inductive Change where
  | revert (height : Int)
  | apply (height : Int)

def Change.reverted : Change → Option Int
  | .revert height => some height
  | .apply _ => none

def Change.applied : Change → Option Int
  | .apply height => some height
  | .revert _ => none

namespace Submitter

/-- A notification has the height to which the chain fell back, if it did, and that of the new head. -/
inductive Label where
  | notify (changes : List Change) (fell : Option Int) (head : Int) (di : Option Deadline)
  | cached (o : Int) (n : Nat)
  | postReady (o : Int)
  | result (o : Int) (n : Nat) (ok : Bool)

def new : Submitter := ⟨fun _ => none, fun _ => none, none, 0⟩

section
variable (s : Submitter)

def windowStep (o : Int) : Label → Option PostWindow
  | .notify changes fell _ di =>
    let pw := (s.postWindows o).map (·.fall fell)
    match (changes.filterMap Change.applied).getLast?, di with
    | some advance, some di =>
      (pw.or (if o = di.opens then some ⟨di, .start, 0, [], false⟩ else none)).map fun pw =>
        (pw.rewind (changes.filterMap Change.reverted).getLast? advance).submitIfReady advance (s.posts o)
    | _, _ => pw
  | .cached _ _ => s.postWindows o
  | .postReady o' => (s.postWindows o).map fun pw =>
    if o = o' then s.currentTS.elim pw fun ts => pw.submitIfReady ts (s.posts o) else pw
  | .result o' n ok => (s.postWindows o).map fun pw => if o = o' then pw.result n ok else pw

def next (a : Label) : Submitter :=
  let s' := { s with postWindows := (s.windowStep · a) }
  match a with
  | .notify changes _ head di =>
    let advance := (changes.filterMap Change.applied).getLast?
    { s' with head, currentTS := if di.isSome then advance <|> s.currentTS else s.currentTS }
  | .cached o n => { s' with posts := Function.update s.posts o (some n) }
  | _ => s'

def step (a : Label) : Option Submitter := some (s.next a)

/-- A notification applies the new head, its deadline is found, and if the chain fell below the opening of a window, so did the
last tipset that is reverted. -/
def Reported : Label → Prop
  | .notify changes fell head di => (changes.filterMap Change.applied).getLast? = some head ∧ di.isSome = true ∧
      ∀ o pw, s.postWindows o = some pw → fell.any (· < pw.di.opens) = true →
        (changes.filterMap Change.reverted).getLast?.any (· < pw.di.opens) = true
  | _ => True

/-- A submission starts in range only, and none is due after a head change in range with the proof cached. -/
def Follows (a : Label) (o : Int) (pw' : PostWindow) : Prop :=
  ((s.postWindows o).elim 0 (·.started) < pw'.started → pw'.InRange (s.next a).head) ∧
  ∀ changes fell head di, a = .notify changes fell head di → pw'.InRange head → (s.posts o).isSome = true → pw'.due = false
end

structure Inv (s : Submitter) : Prop where
  good : ∀ o pw, s.postWindows o = some pw → pw.Good
  current : ∀ ts, s.currentTS = some ts → ts = s.head

variable {s : Submitter} {a : Label}

theorem Inv.window (h : s.Inv) (ha : s.Reported a) {o : Int} {pw' : PostWindow} (hpw' : (s.next a).postWindows o = some pw') :
    pw'.Good ∧ s.Follows a o pw' := by
  cases a with
  | notify changes fell head di =>
    obtain ⟨hap, hdi, hfe⟩ := ha
    obtain ⟨di, rfl⟩ := isSome_iff_exists.mp hdi
    simp only [next, windowStep, hap] at hpw'
    obtain ⟨pw, hpw, rfl⟩ := map_eq_some_iff.mp hpw'
    obtain ⟨hg, hst⟩ : (pw.rewind (changes.filterMap Change.reverted).getLast? head).Good ∧
        (s.postWindows o).elim 0 (·.started) = pw.started := by
      cases hold : s.postWindows o with
      | some old =>
        rw [hold] at hpw
        cases hpw
        exact ⟨PostWindow.good_rewind (h.good o old hold) (hfe o old hold), rfl⟩
      | none =>
        rw [hold] at hpw
        obtain ⟨-, hnew⟩ := ite_none_right_eq_some.mp hpw
        cases hnew
        exact ⟨⟨rfl, nofun⟩, rfl⟩
    obtain ⟨hg', hb, hd⟩ := @PostWindow.good_submitIfReady _ head (s.posts o) hg
    rw [PostWindow.rewind_started, ← hst] at hb
    refine ⟨hg', hb, ?_⟩
    rintro _ _ _ _ ⟨⟩
    exact hd
  | cached o' n => exact ⟨h.good o pw' hpw', by simp [show s.postWindows o = some pw' from hpw'], nofun⟩
  | postReady o' =>
    obtain ⟨pw, hpw, rfl⟩ := map_eq_some_iff.mp hpw'
    have hg : pw.Good := h.good o pw hpw
    split_ifs
    · rcases hts : s.currentTS with _ | ts
      · exact ⟨hg, by simp [hpw], nofun⟩
      obtain ⟨hg', hb, -⟩ := @PostWindow.good_submitIfReady _ ts (s.posts o) hg
      obtain rfl := h.current ts hts
      exact ⟨hg', by rwa [hpw], nofun⟩
    · exact ⟨hg, by simp [hpw], nofun⟩
  | result o' n ok =>
    obtain ⟨pw, hpw, rfl⟩ := map_eq_some_iff.mp hpw'
    have hg : pw.Good := h.good o pw hpw
    split_ifs
    · exact ⟨PostWindow.good_result hg n ok, by simp [hpw, PostWindow.result], nofun⟩
    · exact ⟨hg, by simp [hpw], nofun⟩

theorem Inv.next (h : s.Inv) (ha : s.Reported a) : (s.next a).Inv := by
  refine ⟨fun o pw' hpw' => (h.window ha hpw').1, ?_⟩
  cases a with
  | notify changes fell head di =>
    obtain ⟨hap, hdi, -⟩ := ha
    simp [Submitter.next, hap, hdi, eq_comm]
  | _ => exact h.current

/-- **Submission follows the chain** where the notifications report what they have to: also, at most one submission of a deadline
runs. -/
theorem submission_follows_chain (labels : List Label) (hreported : Legal step Reported new labels) (s : Submitter)
    (hrun : run step new labels = some s) (a : Label) (ha : s.Reported a) (o : Int) (pw' : PostWindow)
    (hpw' : (s.next a).postWindows o = some pw') : pw'.running.length ≤ 1 ∧ s.Follows a o pw' := by
  have hinv : s.Inv :=
    run_legal (P := Inv) (fun s a s' h ha hst => some.inj hst ▸ h.next ha) ⟨by simp [new], by simp [new]⟩ hreported hrun
  obtain ⟨⟨hru, -⟩, hfo⟩ := hinv.window ha hpw'
  refine ⟨?_, hfo⟩
  rw [hru]
  split <;> simp

def di : Deadline := ProveHandler.tenEpochs.newInfo 0 1 0

def submitted : List Label := [.notify [.apply 14] none 14 (some di), .cached 10 1, .postReady 10, .result 10 0 true]

def back : Label := .notify [.revert 14, .revert 9, .apply 15] (some 8) 15 (some di)

theorem submission_follows_chain_back : ∃ s pw', run step new submitted = some s ∧ (s.next back).postWindows 10 = some pw' ∧
    pw'.started = 2 ∧ pw'.running.length ≤ 1 ∧ s.Follows back 10 pw' := by
  refine ⟨_, _, rfl, rfl, rfl, submission_follows_chain submitted (legal_of_forall ?_) _ rfl back ⟨rfl, rfl, ?_⟩ 10 _ rfl⟩
  · simp [submitted, Reported, Change.applied]
  intro o pw hpw _
  by_cases ho : o = 10
  · subst ho
    cases hpw
    rfl
  · simp [next, windowStep, new, Change.applied, show di.opens = 10 from rfl, ho] at hpw

/-- The chain falls to 9, and the notification, a mere revert, is dropped: at 15 nothing is submitted. -/
theorem submission_stays_complete : ∃ s pw', run step new (submitted ++ [.notify [.revert 14] (some 9) 9 none]) = some s ∧
    (s.next (.notify [.apply 15] none 15 (some di))).postWindows 10 = some pw' ∧
    ¬ s.Follows (.notify [.apply 15] none 15 (some di)) 10 pw' :=
  ⟨_, _, rfl, rfl, fun h => absurd (h.2 _ _ _ _ rfl (by unfold PostWindow.InRange; decide) rfl) (by decide)⟩

end Submitter
end Lotus.WdPost

/-
# The pending events of a sector are worked off.

A call of the planner drops no event in four cases: one that a final state does not expect, one that `planCommitting` does
not know, more than one or one that is not global in an unknown state, and any that leaves the sector in
`ReleaseSectorKeyFailed`.
-/
import Lotus.Sealing.Fsm

namespace Lotus.Sealing
open Lib.Lts List Option

/-! ## The state machine -/

structure Machine where
  sector : SectorInfo
  pending : List Event
deriving DecidableEq

namespace Machine

inductive Label where
  | send (event : Event)
  | call (now : Int)

/-- The planner is called with the pending events; the processed ones are dropped. -/
def call (now : Int) (m : Machine) : Option Machine :=
  (plan now m.pending m.sector).map fun r => ⟨r.sector, m.pending.drop r.processed⟩

def step (m : Machine) : Label → Option Machine
  | .send event => some { m with pending := m.pending ++ [event] }
  | .call now => if m.pending = [] then none else m.call now

end Machine

/-! ## The loops -/

/-- `planCommitting` knows the type of the event. -/
def Event.ofCommitting (e : Event) : Bool :=
  match e with
  | .sectorCommitted _ | .sectorProofReady _ | .sectorSeedReady _ _ | .sectorComputeProofFailed
  | .sectorRemoteCommit1Failed | .sectorRemoteCommit2Failed | .sectorSealPreCommit1Failed | .sectorCommitFailed
  | .sectorRetryCommitWait => true
  | e => e.isGlobal

def Event.target (e : Event) : Option SectorState :=
  match e with
  | .sectorForceState state => some state
  | .sectorTerminate => some .terminating
  | .sectorRemove => some .removing
  | _ => none

variable {state : SectorState}

theorem Event.applyGlobal_target {e : Event} (h : e.target = some state) (s : SectorInfo) :
    e.applyGlobal s = some ({ s with state := state }, true) := by
  cases e <;> simp [Event.target] at h <;> subst h <;> rfl

/-- How a loop works through the events it knows from event `i` on; it stops behind a command it applied. -/
inductive Worked (known : Event → Bool) : Nat → List Event → Planned → Prop where
  | done {i r} : r.processed = i → Worked known i [] r
  | stop {i event events r} : known event = true → r.processed = i + 1 →
      (∀ state, event.target = some state → r.err = none ∧ r.sector.state = state) → Worked known i (event :: events) r
  | more {i event events r} : known event = true → event.target = none → Worked known (i + 1) events r →
      Worked known i (event :: events) r
  | unknown {i event events r} : known event = false → event.target = none → r.processed = i →
      Worked known i (event :: events) r

namespace Worked
variable {known : Event → Bool} {i : Nat} {events : List Event} {r : Planned}

theorem le (h : Worked known i events r) : i ≤ r.processed ∧ r.processed ≤ i + events.length := by
  induction h with
  | done heq => exact ⟨heq.ge, heq.le⟩
  | stop _ heq _ | more _ _ _ ih | unknown _ _ heq =>
    rw [length_cons]
    omega

theorem lt_iff {event : Event} (h : Worked known i (event :: events) r) : i < r.processed ↔ known event = true := by
  cases h with
  | stop hkn heq _ | unknown hkn _ heq => simp [hkn, heq]
  | more hkn _ hm =>
    have := hm.le
    simp only [hkn, iff_true]
    omega

theorem command {cmd : Event} {state : SectorState} (hcm : cmd.target = some state) {pre rest : List Event}
    (h : Worked known i (pre ++ cmd :: rest) r) (hlt : i + pre.length < r.processed) :
    r.processed = i + pre.length + 1 ∧ r.err = none ∧ r.sector.state = state := by
  induction pre generalizing i with
  | nil =>
    rw [length_nil] at hlt ⊢
    cases h with
    | stop _ heq ha => exact ⟨heq, ha state hcm⟩
    | more _ hn _ =>
      rw [hcm] at hn
      cases hn
    | unknown _ _ heq => omega
  | cons event pre ih =>
    rw [length_cons] at hlt ⊢
    cases h with
    | stop _ heq _ => omega
    | more _ _ hm =>
      obtain ⟨hpr, hst⟩ := ih hm (by omega)
      exact ⟨by omega, hst⟩
    | unknown _ _ heq => omega

theorem ignore (h : Worked known i events r) : Worked known i events { r with err := none } := by
  induction h with
  | done heq => exact .done heq
  | stop hkn heq ha => exact .stop hkn heq fun state hst => ⟨rfl, (ha state hst).2⟩
  | more hkn hn _ ih => exact .more hkn hn ih
  | unknown hkn hn heq => exact .unknown hkn hn heq

end Worked

variable {now : Int} {ts : List Entry}
variable {events : List Event} {s : SectorInfo} {r : Planned} {i : Nat}

theorem planOneLoop_worked (h : planOneLoop now ts i events s = some r) : Worked (fun _ => true) i events r := by
  have htg : ∀ {event : Event} {s : SectorInfo}, event.applyGlobal s = none → event.target = none := by
    intro event s hg
    rcases htg : event.target with _ | state
    · rfl
    rw [Event.applyGlobal_target htg] at hg
    cases hg
  fun_induction planOneLoop with
  | case1 =>
    cases h
    exact .done rfl
  | case2 i event events s s' stop hg =>
    cases h
    refine .stop rfl rfl fun state hst => ?_
    rw [Event.applyGlobal_target hst] at hg
    cases hg
    exact ⟨rfl, rfl⟩
  | case3 => cases h
  | case6 i event events s hg _ _ _ _ _ _ ih | case7 i event events s hg _ _ ih => exact .more rfl (htg hg) (ih h)
  | _ =>
    cases h
    refine .stop rfl rfl fun state hst => ?_
    rw [htg ‹_›] at hst
    cases hst

def withProof (proof : Bytes) (s : SectorInfo) : SectorInfo := if proof.length > 0 then { s with proof := proof } else s

/-- The sector after an event in `planCommitting`. -/
def committing (event : Event) (s : SectorInfo) : SectorInfo :=
  match event with
  | .sectorForceState state => { s with state := state }
  | .sectorTerminate => { s with state := .terminating }
  | .sectorRemove => { s with state := .removing }
  | .sectorCommitted proof => { withProof proof s with state := .submitCommit }
  | .sectorProofReady proof => { withProof proof s with state := .commitFinalize }
  | .sectorSeedReady seedValue seedEpoch =>
    if seedEpoch = s.seedEpoch ∧ seedValue = s.seedValue then s
    else { s with seedEpoch := seedEpoch, seedValue := seedValue, state := .committing }
  | .sectorComputeProofFailed => { s with state := .computeProofFailed }
  | .sectorRemoteCommit1Failed | .sectorRemoteCommit2Failed => { s with state := .remoteCommitFailed }
  | .sectorSealPreCommit1Failed => { s with state := .sealPreCommit1Failed }
  | .sectorCommitFailed => { s with state := .commitFailed }
  | .sectorRetryCommitWait => { s with state := .commitWait }
  | _ => s

variable {event : Event}

theorem planCommittingLoop_cons (h : planCommittingLoop now i (event :: events) s = some r) :
    (event.ofCommitting = true ∧ r.processed = i + 1 ∧ r.sector = committing event s ∧
        ∀ state, event.target = some state → r.err = none ∧ r.sector.state = state) ∨
      (event.ofCommitting = true ∧ event.target = none ∧ planCommittingLoop now (i + 1) events (committing event s) = some r) ∨
        (event.ofCommitting = false ∧ event.target = none ∧ r.processed = i ∧ r.sector = s) := by
  unfold planCommittingLoop at h
  cases event <;> simp only [Event.applyGlobal] at h
  case sectorSeedReady seedValue seedEpoch =>
    simp only [committing]
    split_ifs at h ⊢
    · exact .inr (.inl ⟨rfl, rfl, h⟩)
    · cases h
      exact .inl ⟨rfl, rfl, rfl, fun state hst => by cases hst⟩
  all_goals first
    | exact .inr (.inl ⟨rfl, rfl, h⟩)
    | (obtain rfl := some.inj h; exact .inr (.inr ⟨rfl, rfl, rfl, rfl⟩))
    | (obtain rfl := some.inj h; exact .inl ⟨rfl, rfl, rfl, fun state hst => ⟨rfl, some.inj hst⟩⟩)
    | (obtain rfl := some.inj h; exact .inl ⟨rfl, rfl, rfl, fun state hst => by cases hst⟩)

theorem planCommittingLoop_worked (h : planCommittingLoop now i events s = some r) : Worked Event.ofCommitting i events r := by
  induction events generalizing i s with
  | nil =>
    cases h
    exact .done rfl
  | cons event events ih =>
    rcases planCommittingLoop_cons h with ⟨hkn, heq, -, ha⟩ | ⟨hkn, hn, hm⟩ | ⟨hkn, hn, heq, -⟩
    · exact .stop hkn heq ha
    · exact .more hkn hn (ih hm)
    · exact .unknown hkn hn heq

/-! ## The planner -/

/-- The planner takes the event when it is the first; an error event of `planOne` too. -/
def Planner.knows (p : Planner) (event : Event) : Bool :=
  match p with
  | .planCommitting => event.ofCommitting
  | .final => event.isGlobal
  | _ => true

theorem Planner.run_worked {p : Planner} (hp : p ≠ .finalRemoved) (hne : events ≠ [])
    (h : p.run now events s = some r) : Worked p.knows 0 events r := by
  cases p with
  | planOne ts => exact planOneLoop_worked h
  | planOneOrIgnore ts =>
    obtain ⟨r', hr', rfl⟩ := map_eq_some_iff.mp h
    exact (planOneLoop_worked hr').ignore
  | planCommitting => exact planCommittingLoop_worked h
  | final =>
    rcases events with _ | ⟨event, events⟩
    · exact absurd rfl hne
    cases event <;> cases h
    all_goals first
      | exact .unknown rfl rfl rfl
      | exact .stop rfl rfl fun state hst => ⟨rfl, some.inj hst⟩
      | exact .stop rfl rfl fun state hst => by cases hst
  | finalRemoved => exact absurd rfl hp

variable (now events s) in
/-- **The call moves.**  There is a planner, it takes the first event, and it does not leave the sector in
`ReleaseSectorKeyFailed`. -/
def Moves : Prop :=
  ∃ p, plannerFor s.state events = some p ∧ (∀ event ∈ events.head?, p.knows event = true) ∧
    ∀ r, p.run now events s = some r → r.err = none → r.sector.state ≠ .releaseSectorKeyFailed

variable {r : PlanResult}

theorem plan_eq_some (h : plan now events s = some r) :
    (plannerFor s.state events = none ∧ r.processed = 0 ∧ r.sector = s) ∨
      ∃ p r', plannerFor s.state events = some p ∧ p.run now events s = some r' ∧ r.err = r'.err ∧
        ((r'.err = none ∧ r'.sector.state = .releaseSectorKeyFailed ∧ r.processed = 0) ∨
          (¬ (r'.err = none ∧ r'.sector.state = .releaseSectorKeyFailed) ∧ r.processed = r'.processed)) ∧
        r.sector = if r'.err = none then settle r'.sector else r'.sector := by
  revert h
  fun_cases plan with
  | case1 hpl =>
    rintro ⟨⟩
    exact .inl ⟨hpl, rfl, rfl⟩
  | case2 => exact nofun
  | case3 p hpl s' n err hrun =>
    rintro ⟨⟩
    exact .inr ⟨p, _, hpl, hrun, rfl, .inr ⟨fun hb => (by cases hb.1), rfl⟩, rfl⟩
  | case4 p hpl s' n hrun =>
    rintro ⟨⟩
    refine .inr ⟨p, _, hpl, hrun, rfl, ?_, rfl⟩
    by_cases hst : s'.state = .releaseSectorKeyFailed
    · exact .inl ⟨rfl, hst, if_pos hst⟩
    · exact .inr ⟨fun hb => hst hb.2, if_neg hst⟩

theorem plan_processed (h : plan now (event :: events) s = some r) :
    r.processed ≤ (event :: events).length ∧ (0 < r.processed ↔ Moves now (event :: events) s) := by
  rcases plan_eq_some h with ⟨hn, hz, -⟩ | ⟨p, r', hp, hrun, -, hpr, -⟩
  · refine ⟨by omega, ⟨fun hpo => by omega, ?_⟩⟩
    rintro ⟨p, hp, -⟩
    rw [hn] at hp
    cases hp
  obtain ⟨hif, hle⟩ : (0 < r'.processed ↔ p.knows event = true) ∧ r'.processed ≤ (event :: events).length := by
    by_cases hfi : p = .finalRemoved
    · subst hfi
      cases hrun
      exact ⟨by simp [Planner.knows], le_rfl⟩
    · have hwo := Planner.run_worked hfi (cons_ne_nil _ _) hrun
      exact ⟨hwo.lt_iff, by have := hwo.le; omega⟩
  have hm : Moves now (event :: events) s ↔
      p.knows event = true ∧ ¬ (r'.err = none ∧ r'.sector.state = .releaseSectorKeyFailed) := by
    constructor
    · rintro ⟨p', hp', hk, hst⟩
      cases hp.symm.trans hp'
      exact ⟨hk event rfl, fun hba => hst r' hrun hba.1 hba.2⟩
    rintro ⟨hk, hno⟩
    refine ⟨p, hp, fun e he => ?_, fun r'' hr'' herr hst => ?_⟩
    · cases he
      exact hk
    · cases hrun.symm.trans hr''
      exact hno ⟨herr, hst⟩
  rw [hm]
  rcases hpr with ⟨herr, hst, hz⟩ | ⟨hno, heq⟩
  · exact ⟨by omega, ⟨fun hpo => by omega, fun hba => absurd ⟨herr, hst⟩ hba.2⟩⟩
  · rw [heq]
    exact ⟨hle, hif.trans ⟨fun hk => ⟨hk, hno⟩, fun hb => hb.1⟩⟩

theorem removed_of_finalRemoved (h : plannerFor state events = some .finalRemoved) : state = .removed := by
  cases state <;> simp only [plannerFor, fsmPlanners] at h <;> try cases h
  · rfl
  split at h
  · split_ifs at h
    cases h
  · cases h

theorem settle_state (s : SectorInfo) : (settle s).state = if s.state = .packingFailed then .dealsExpired else s.state := by
  unfold settle
  split_ifs with h
  · rfl
  · rfl

theorem plan_command {cmd : Event} (hcm : cmd.target = some state) {pre rest : List Event}
    (h : plan now (pre ++ cmd :: rest) s = some r) (hlt : pre.length < r.processed) (hre : s.state ≠ .removed) :
    r.processed = pre.length + 1 ∧ r.sector.state = (settle { s with state := state }).state := by
  rcases plan_eq_some h with ⟨-, hz, -⟩ | ⟨p, r', hp, hrun, herr, hpr, hse⟩
  · omega
  rcases hpr with ⟨-, -, hz⟩ | ⟨hn, heq⟩
  · omega
  have hfi : p ≠ .finalRemoved := by
    rintro rfl
    exact hre (removed_of_finalRemoved hp)
  rw [heq] at hlt ⊢
  obtain ⟨hco, hok, hst⟩ := (Planner.run_worked hfi (by simp) hrun).command hcm (by omega)
  refine ⟨by omega, ?_⟩
  rw [hse, if_pos hok, settle_state, settle_state, hst]

/-! ## Runs -/

namespace Machine

def Label.isCall (l : Label) : Bool :=
  match l with
  | .send _ => false
  | .call _ => true

def CallMoves (m : Machine) (l : Label) : Prop := ∀ now, l = .call now → Moves now m.pending m.sector

/-- The call that takes a command from the queue applies it, unless the sector is removed. -/
structure Takes (cmd : Event) (state : SectorState) (m m' : Machine) : Prop where
  queued : ∃ pre rest, m.pending = pre ++ cmd :: rest ∧
    (m.sector.state = .removed ∨ m'.pending = rest ∧ m'.sector.state = (settle { m.sector with state := state }).state)

theorem step_call {m m' : Machine} {now : Int} (h : step m (.call now) = some m') :
    ∃ event events r, m.pending = event :: events ∧ plan now m.pending m.sector = some r ∧
      m' = ⟨r.sector, m.pending.drop r.processed⟩ := by
  unfold step at h
  split_ifs at h with hn
  obtain ⟨r, hr, rfl⟩ := map_eq_some_iff.mp h
  obtain ⟨event, events, heq⟩ := exists_cons_of_ne_nil hn
  exact ⟨event, events, r, heq, hr, rfl⟩

theorem command_taken {cmd : Event} {state : SectorState} (hcm : cmd.target = some state) (labels : List Label)
    (m m' : Machine) (pre rest : List Event) (hpe : m.pending = pre ++ cmd :: rest)
    (hleg : Legal step CallMoves m labels) (hrun : run step m labels = some m')
    (hca : pre.length < labels.countP Label.isCall) :
    ∃ before now after m1 m2, labels = before ++ .call now :: after ∧ run step m before = some m1 ∧
      step m1 (.call now) = some m2 ∧ Takes cmd state m1 m2 := by
  induction labels generalizing m pre rest with
  | nil => simp at hca
  | cons l labels ih =>
    obtain ⟨m0, hstep, hrun⟩ := run_cons.mp hrun
    -- a later call takes the command
    have hla : ∀ pre' rest', m0.pending = pre' ++ cmd :: rest' → pre'.length < labels.countP Label.isCall →
        ∃ before now after m1 m2, l :: labels = before ++ .call now :: after ∧ run step m before = some m1 ∧
          step m1 (.call now) = some m2 ∧ Takes cmd state m1 m2 := by
      intro pre' rest' hp' hc'
      obtain ⟨before, now, after, m1, m2, hlab, hb, hta⟩ :=
        ih m0 pre' rest' hp' (hleg.2 m0 hstep) hrun hc'
      refine ⟨l :: before, now, after, m1, m2, ?_, run_cons.mpr ⟨m0, hstep, hb⟩, hta⟩
      rw [hlab, cons_append]
    cases l with
    | send event =>
      cases hstep
      refine hla pre (rest ++ [event]) ?_ (by simpa [Label.isCall] using hca)
      show m.pending ++ [event] = _
      rw [hpe, append_assoc, cons_append]
    | call now =>
      obtain ⟨event, events, r, hco, hpl, rfl⟩ := step_call hstep
      have hm := hleg.1 now rfl
      rw [hco] at hpl hm
      have hpo : 0 < r.processed := (plan_processed hpl).2.mpr hm
      rw [← hco, hpe] at hpl
      rw [countP_cons_of_pos (show Label.isCall (.call now) = true from rfl)] at hca
      rcases Nat.lt_or_ge pre.length r.processed with hlt | hge
      · refine ⟨[], now, labels, m, _, rfl, rfl, hstep, ⟨pre, rest, hpe, ?_⟩⟩
        by_cases hre : m.sector.state = .removed
        · exact .inl hre
        obtain ⟨hpr, hst⟩ := plan_command hcm hpl hlt hre
        refine .inr ⟨?_, hst⟩
        show m.pending.drop r.processed = rest
        rw [hpe, hpr, ← drop_drop, drop_left]
        rfl
      refine hla (pre.drop r.processed) rest ?_ ?_
      · show m.pending.drop r.processed = _
        rw [hpe, drop_append_of_le_length hge]
      · rw [length_drop]
        omega

/-- **Operator commands reach the sector**: in a run whose calls all move, a queued command is applied by one of as many
calls as events up to it, unless the sector is removed. -/
theorem commands_reach_sector (cmd : Event) (state : SectorState) (hcmd : cmd.target = some state)
    (labels : List Label) (m m' : Machine) (pre rest : List Event) (hpending : m.pending = pre ++ cmd :: rest)
    (hlegal : Legal step CallMoves m labels) (hrun : run step m labels = some m')
    (hcalls : pre.length < labels.countP Label.isCall) : (∀ now event events s r, plan now (event :: events) s = some r →
      r.processed ≤ (event :: events).length ∧ (0 < r.processed ↔ Moves now (event :: events) s)) ∧
    ∃ before now after m1 m2, labels = before ++ .call now :: after ∧ run step m before = some m1 ∧
      step m1 (.call now) = some m2 ∧ Takes cmd state m1 m2 :=
  ⟨fun _ _ _ _ _ h => plan_processed h, command_taken hcmd labels m m' pre rest hpending hlegal hrun hcalls⟩

/-- An event that `PreCommit1` does not expect, and a command behind it. -/
def blocked (state : SectorState) : Machine :=
  ⟨.zero state, [.sectorFinalized, .sectorForceState .proving]⟩

theorem commands_reach_sector_preCommit1 :
    ∃ m', run step (blocked .preCommit1) [.call 0, .send .sectorRestart, .call 0] = some m' ∧
      m' = ⟨.zero .proving, [.sectorRestart]⟩ ∧
      ∃ before now after m1 m2, [Label.call 0, .send .sectorRestart, .call 0] = before ++ .call now :: after ∧
        run step (blocked .preCommit1) before = some m1 ∧ step m1 (.call now) = some m2 ∧
        Takes (.sectorForceState .proving) .proving m1 m2 := by
  have hleg : Legal step CallMoves (blocked .preCommit1) [.call 0, .send .sectorRestart, .call 0] := by
    refine ⟨?_, fun m1 h1 => ⟨fun now hb => (by cases hb), fun m2 h2 => ⟨?_, fun _ _ => trivial⟩⟩⟩
    · rintro now ⟨⟩
      refine ⟨_, rfl, fun _ _ => rfl, fun r hr herr => ?_⟩
      cases hr
      cases herr
    cases h1
    cases h2
    rintro now ⟨⟩
    refine ⟨_, rfl, fun _ _ => rfl, fun r hr _ => ?_⟩
    cases hr
    decide
  exact ⟨_, rfl, rfl, (commands_reach_sector _ .proving rfl _ _ _ [.sectorFinalized] [] rfl hleg rfl (by decide)).2⟩

/-- **The queue stays for good** behind an event that its state does not expect. In `ReleaseSectorKeyFailed` a restart is never
dropped, and a command is applied by every call. -/
theorem commands_stuck : (∀ now, step (blocked .failedUnrecoverable) (.call now) = some (blocked .failedUnrecoverable)) ∧
    (∀ now, step (blocked .committing) (.call now) = some (blocked .committing)) ∧
    (∀ now, step ⟨.zero (.unknown "Sealing"), [.sectorForceState .proving, .sectorRestart]⟩ (.call now) =
      some ⟨.zero (.unknown "Sealing"), [.sectorForceState .proving, .sectorRestart]⟩) ∧
    (∀ now, step ⟨.zero .releaseSectorKeyFailed, [.sectorRestart, .sectorRemove]⟩ (.call now) =
      some ⟨.zero .releaseSectorKeyFailed, [.sectorRestart, .sectorRemove]⟩) ∧
    ∀ now, step ⟨.zero .releaseSectorKeyFailed, [.sectorForceState .releaseSectorKeyFailed, .sectorRemove]⟩ (.call now) =
      some ⟨.zero .releaseSectorKeyFailed, [.sectorForceState .releaseSectorKeyFailed, .sectorRemove]⟩ :=
  ⟨fun _ => rfl, fun _ => rfl, fun _ => rfl, fun _ => rfl, fun _ => rfl⟩

end Machine
end Lotus.Sealing

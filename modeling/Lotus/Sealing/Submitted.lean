/-
# A sector that is submitted carries its proof.

The next call of the planner waits until the handler is done. The operator's `SubmitCommit` is a `SectorCommitted` without a
proof, which also moves a sector on that has none, and in `FinalizeSector` erases it. In every other run the sector has the
proof of the last applied event with one.
-/
import Lotus.Sealing.Fit

namespace Lotus.Sealing
open Lib Lib.Lts List Event Option

/-! ## The planners, event by event -/

variable {s s' : SectorInfo} {now : Int} {i : Nat} {r : Planned} {ts : List Entry}

section
variable {events : List Event}

theorem planOneLoop_rule {I : SectorInfo → Prop}
    (hg : ∀ e ∈ events, ∀ s s' stop, I s → e.applyGlobal s = some (s', stop) → I s')
    (hent : ∀ e ∈ events, ∀ t ∈ ts, e.type = t.1.type → ∀ s s', I s → e.apply now s = some s' → I (t.2.run s').1)
    (hs : I s) (h : planOneLoop now ts i events s = some r) : I r.sector := by
  induction events generalizing i s with
  | nil =>
    cases h
    exact hs
  | cons event events ih =>
    have hg' : ∀ e ∈ events, ∀ s s' stop, I s → e.applyGlobal s = some (s', stop) → I s' :=
      fun e he => hg e (mem_cons_of_mem _ he)
    have he' : ∀ e ∈ events, ∀ t ∈ ts, e.type = t.1.type → ∀ s s', I s → e.apply now s = some s' →
        I (t.2.run s').1 := fun e he => hent e (mem_cons_of_mem _ he)
    unfold planOneLoop at h
    split at h
    case h_1 heq =>
      cases h
      exact hg event mem_cons_self _ _ _ hs heq
    case h_2 =>
      split at h
      case h_1 t hfi =>
        split at h
        · cases h
        case h_2 s' ha =>
          have hty : event.type = t.1.type := by simpa using List.find?_some hfi
          have hn := hent event mem_cons_self t (mem_of_find?_eq_some hfi) hty s s' hs ha
          split at h
          case h_1 heq =>
            cases h
            rwa [heq] at hn
          case h_2 heq =>
            cases h
            rwa [heq] at hn
          case h_3 heq =>
            rw [heq] at hn
            exact ih hg' he' hn h
      case h_2 =>
        split_ifs at h
        · exact ih hg' he' hs h
        · cases h
          exact hs

theorem Planner.run_rule {I : SectorInfo → Prop} {p : Planner} (hp : p ≠ .planCommitting)
    (hg : ∀ e ∈ events, ∀ s s' stop, I s → e.applyGlobal s = some (s', stop) → I s')
    (hent : ∀ ts, p = .planOne ts ∨ p = .planOneOrIgnore ts → ∀ e ∈ events, ∀ t ∈ ts, e.type = t.1.type →
      ∀ s s', I s → e.apply now s = some s' → I (t.2.run s').1) (hs : I s) (h : p.run now events s = some r) : I r.sector := by
  cases p with
  | planOne ts => exact planOneLoop_rule hg (hent ts (.inl rfl)) hs h
  | planOneOrIgnore ts =>
    obtain ⟨r1, hr1, rfl⟩ := map_eq_some_iff.mp h
    have hr := planOneLoop_rule hg (hent ts (.inr rfl)) hs hr1
    exact hr
  | planCommitting => exact absurd rfl hp
  | final =>
    rcases events with _ | ⟨event, events⟩
    · cases h
      exact hs
    simp only [Planner.run] at h
    split at h
    case h_1 heq =>
      cases h
      exact hg event mem_cons_self _ _ _ hs heq
    case h_2 =>
      cases h
      exact hs
  | finalRemoved =>
    cases h
    exact hs

variable {event : Event}

/-! ## Proofs -/

def Event.proofIn (state : SectorState) (event : Event) : Option Bytes :=
  match state, event with
  | .committing, .sectorCommitted proof | .committing, .sectorProofReady proof => if proof.length > 0 then some proof else none
  | .finalizeSector, .sectorCommitted proof => if proof.length > 0 then some proof else none
  | _, _ => none

variable {state : SectorState} {proof : Bytes}

theorem Event.proofIn_ne (h : event.proofIn state = some proof) : proof ≠ [] := by
  have hlen : ∀ p : Bytes, (if p.length > 0 then some p else none) = some proof → proof ≠ [] := by
    intro p hp
    split_ifs at hp with hpo
    cases hp
    exact ne_nil_of_length_pos hpo
  unfold proofIn at h
  split at h
  · exact hlen _ h
  · exact hlen _ h
  · exact hlen _ h
  · cases h

theorem committing_proof (hpl : event.plain = true) (s : SectorInfo) :
    (committing event s).proof = (event.proofIn .committing).getD s.proof := by
  cases event
  case sectorReceive => cases hpl
  case sectorCommitted proof | sectorProofReady proof =>
    simp only [committing, withProof, proofIn]
    split_ifs <;> rfl
  case sectorSeedReady value epoch =>
    simp only [committing]
    split_ifs <;> rfl
  all_goals rfl

def lastProof (state : SectorState) (events : List Event) (proof : Bytes) : Bytes :=
  ((events.filterMap (proofIn state)).getLast?).getD proof

theorem lastProof_cons (state : SectorState) (event : Event) (events : List Event) (proof : Bytes) :
    lastProof state (event :: events) proof = lastProof state events ((event.proofIn state).getD proof) := by
  unfold lastProof
  rcases hpr : event.proofIn state with _ | p
  · rw [filterMap_cons_none hpr, getD_none]
  rw [filterMap_cons_some hpr, getD_some, List.getLast?_cons]
  rfl

theorem lastProof_ne (h : proof ≠ []) : lastProof state events proof ≠ [] := by
  unfold lastProof
  rcases hla : (events.filterMap (proofIn state)).getLast? with _ | p
  · exact h
  obtain ⟨e, -, he⟩ := mem_filterMap.mp (mem_of_getLast? hla)
  exact proofIn_ne he

theorem planCommittingLoop_proof (hpl : ∀ e ∈ events, e.plain = true) (h : planCommittingLoop now i events s = some r) :
    r.sector.proof = lastProof .committing (events.take (r.processed - i)) s.proof := by
  induction events generalizing i s with
  | nil =>
    cases h
    rw [take_nil]
    rfl
  | cons event events ih =>
    have hhead := hpl event mem_cons_self
    rcases planCommittingLoop_cons h with ⟨-, hpr, hse, -⟩ | ⟨-, -, hm⟩ | ⟨-, -, hpr, hse⟩
    · rw [hpr, hse, Nat.add_sub_cancel_left, take_succ_cons, lastProof_cons, committing_proof hhead]
      rfl
    · have hle := (planCommittingLoop_worked hm).le.1
      rw [ih (fun e he => hpl e (mem_cons_of_mem _ he)) hm, committing_proof hhead,
        show r.processed - i = (r.processed - (i + 1)) + 1 by omega, take_succ_cons, lastProof_cons]
    · rw [hpr, hse, Nat.sub_self, take_zero]
      rfl

def proofTypes : List Nat := [(sectorCommitted []).type, (sectorProofReady []).type]

theorem apply_proof (hpl : event.plain = true) (hty : event.type ∉ proofTypes) (h : event.apply now s = some s') :
    s'.proof = s.proof := by
  cases event
  case sectorReceive => cases hpl
  case sectorCommitted => exact absurd mem_cons_self hty
  case sectorProofReady => exact absurd (mem_cons_of_mem _ mem_cons_self) hty
  case sectorUpdateDealIDs updates =>
    obtain ⟨pieces, -, rfl⟩ := map_eq_some_iff.mp h
    rfl
  case sectorAddPiece =>
    cases h
    show (if s.creationTime = 0 then { s with creationTime := now } else s).proof = s.proof
    split_ifs <;> rfl
  all_goals
    cases h
    rfl

variable {stop : Bool}

theorem applyGlobal_proof (h : event.applyGlobal s = some (s', stop)) : s'.proof = s.proof := by
  cases event <;> cases h <;> rfl

theorem Next.run_proof (next : Next) (s : SectorInfo) : (next.run s).1.proof = s.proof := by
  cases next with
  | on state => rfl
  | apply => rfl
  | onReturning =>
    unfold Next.run
    cases s.ret <;> rfl

theorem proofTypes_of_planner (hp : fsmPlanners state = some (.planOne ts) ∨ fsmPlanners state = some (.planOneOrIgnore ts))
    (hst : state ≠ .finalizeSector) : ∀ t ∈ ts, t.1.type ∉ proofTypes := by
  have ha : (ts.all fun t => !proofTypes.contains t.1.type) = true := by
    cases state
    case finalizeSector => exact absurd rfl hst
    all_goals
      rcases hp with hp | hp <;> cases hp
      try rfl
  intro t ht
  simpa using all_eq_true.mp ha t ht

theorem finalizeSector_proof (hp : fsmPlanners .finalizeSector = some (.planOne ts))
    (hpl : ∀ e ∈ events, e.plain = true) (h : planOneLoop now ts i events s = some r)
    (hsd : ∀ pre post, events = pre ++ .sectorCommitted [] :: post → r.processed ≤ i + pre.length) :
    r.sector.proof = lastProof .finalizeSector (events.take (r.processed - i)) s.proof := by
  cases hp
  induction events generalizing i s with
  | nil =>
    cases h
    rw [take_nil]
    rfl
  | cons event events ih =>
    cases event
    case sectorStartPacking =>
      have hm : planOneLoop now _ (i + 1) events s = some r := h
      have hle := (planOneLoop_worked hm).le.1
      have hsd' : ∀ pre post, events = pre ++ .sectorCommitted [] :: post → r.processed ≤ i + 1 + pre.length := by
        intro pre post heq
        have hrest := hsd (.sectorStartPacking :: pre) post (congrArg _ heq)
        rw [length_cons] at hrest
        omega
      have hrest := ih (fun e he => hpl e (mem_cons_of_mem _ he)) hsd' hm
      rw [hrest, show r.processed - i = (r.processed - (i + 1)) + 1 by omega, take_succ_cons, lastProof_cons]
      rfl
    case sectorCommitted proof =>
      cases h
      have hne : proof.length > 0 := by
        rcases proof with _ | ⟨b, proof⟩
        · have hb := hsd [] events rfl
          dsimp only [length_nil] at hb
          omega
        · exact Nat.succ_pos _
      show proof = _
      rw [Nat.add_sub_cancel_left, take_succ_cons, lastProof_cons]
      show proof = ((if proof.length > 0 then some proof else none).getD s.proof)
      rw [if_pos hne]
      rfl
    all_goals
      cases h
      rw [Nat.add_sub_cancel_left, take_succ_cons, lastProof_cons]
      rfl

theorem lastProof_other (hco : state ≠ .committing) (hfi : state ≠ .finalizeSector)
    (events : List Event) (proof : Bytes) : lastProof state events proof = proof := by
  have hn : ∀ e : Event, e.proofIn state = none := by
    intro e
    unfold proofIn
    split
    · exact absurd rfl hco
    · exact absurd rfl hco
    · exact absurd rfl hfi
    · rfl
  induction events with
  | nil => rfl
  | cons event events ih => rw [lastProof_cons, hn, getD_none, ih]

/-- The two planners that change the proof do not lead to the state with the kept events. -/
theorem planCommittingLoop_released (hpl : ∀ e ∈ events, e.plain = true)
    (hs : s.state ≠ .releaseSectorKeyFailed) (h : planCommittingLoop now i events s = some r) :
    r.sector.state ≠ .releaseSectorKeyFailed := by
  induction events generalizing i s with
  | nil =>
    cases h
    exact hs
  | cons event events ih =>
    have hst : (committing event s).state ≠ .releaseSectorKeyFailed := by
      have hhead := hpl event mem_cons_self
      cases event
      case sectorForceState => cases hhead
      case sectorSeedReady value epoch =>
        simp only [committing]
        split_ifs
        · exact hs
        · rintro ⟨⟩
      all_goals first | exact hs | rintro ⟨⟩
    rcases planCommittingLoop_cons h with ⟨-, -, hse, -⟩ | ⟨-, -, hm⟩ | ⟨-, -, -, hse⟩
    · rwa [hse]
    · exact ih (fun e he => hpl e (mem_cons_of_mem _ he)) hst hm
    · rwa [hse]

@[inherit_doc planCommittingLoop_released]
theorem finalizeSector_released (hp : fsmPlanners .finalizeSector = some (.planOne ts))
    (hpl : ∀ e ∈ events, e.plain = true) (hs : s.state ≠ .releaseSectorKeyFailed)
    (h : planOneLoop now ts i events s = some r) : r.sector.state ≠ .releaseSectorKeyFailed := by
  refine planOneLoop_rule (I := fun s => s.state ≠ .releaseSectorKeyFailed) ?_ ?_ hs h
  · intro e he s s' stop hs hg
    have hhead := hpl e he
    cases e
    case sectorForceState => cases hhead
    all_goals cases hg
    all_goals first | exact hs | nofun
  cases hp
  intro e _ t ht _ s s' _ _
  simp only [mem_cons, not_mem_nil, or_false] at ht
  rcases ht with rfl | rfl | rfl | rfl <;> nofun

theorem settle_proof (s : SectorInfo) : (settle s).proof = s.proof := by
  unfold settle
  split_ifs <;> rfl

theorem committing_of_planner (h : fsmPlanners state = some .planCommitting) : state = .committing := by
  cases state <;> first | rfl | cases h

theorem plan_proof {r : PlanResult} (h : plan now events s = some r) (hpl : ∀ e ∈ events, e.plain = true)
    (hsd : s.state = .finalizeSector → ∀ pre post, events = pre ++ .sectorCommitted [] :: post → r.processed ≤ pre.length) :
    r.sector.proof = lastProof s.state (events.take r.processed) s.proof := by
  rcases plan_eq_some h with ⟨-, hz, hse⟩ | ⟨p, r', hp, hrun, -, hpr, hse⟩
  · rw [hz, hse]
    rfl
  have hprf : r.sector.proof = r'.sector.proof := by
    rw [hse]
    split_ifs
    · exact settle_proof _
    · rfl
  rw [hprf]
  by_cases hco : s.state = .committing
  · rw [hco] at hp ⊢
    cases hp
    have hst := planCommittingLoop_released hpl (by rw [hco]; nofun) hrun
    rcases hpr with ⟨-, hb, -⟩ | ⟨-, hpr⟩
    · exact absurd hb hst
    · rw [hpr]
      exact planCommittingLoop_proof hpl hrun
  by_cases hfi : s.state = .finalizeSector
  · have hsd := hsd hfi
    have hs : s.state ≠ .releaseSectorKeyFailed := by rw [hfi]; nofun
    rw [hfi] at hp ⊢
    cases hp
    have hst := finalizeSector_released rfl hpl hs hrun
    rcases hpr with ⟨-, hb, -⟩ | ⟨-, hpr⟩
    · exact absurd hb hst
    rw [hpr] at hsd ⊢
    refine finalizeSector_proof rfl hpl hrun fun pre post heq => ?_
    have := hsd pre post heq
    omega
  -- the other planners have no entry that changes the proof
  rw [lastProof_other hco hfi]
  have hp : fsmPlanners s.state = some p ∨ p = .planOne [] := by
    unfold plannerFor at hp
    split at hp
    · rename_i hpla
      exact .inl (hpla.trans hp)
    split at hp
    · split_ifs at hp
      exact .inr (some.inj hp).symm
    · cases hp
  refine Planner.run_rule (I := fun s' => s'.proof = s.proof) ?_ ?_ ?_ rfl hrun
  · rintro rfl
    rcases hp with hp | hp
    · exact hco (committing_of_planner hp)
    · cases hp
  · intro e _ s1 s2 stop hs hg
    exact (applyGlobal_proof hg).trans hs
  intro ts hts e he t ht hty s1 s2 hs ha
  have hnot : t.1.type ∉ proofTypes := by
    rcases hp with hp | rfl
    · exact proofTypes_of_planner (hts.imp (· ▸ hp) (· ▸ hp)) hfi t ht
    · rcases hts with hts | hts <;> cases hts
      cases ht
  rw [Next.run_proof, apply_proof (hpl e he) (hty ▸ hnot) ha, hs]

/-! ## Sectors without a proof -/

def SectorState.early (state : SectorState) : Bool :=
  match state with
  | .undefinedSectorState | .empty | .waitDeals | .addPiece | .packing | .getTicket | .preCommit1 | .preCommit2
  | .preCommitting
  | .submitPreCommitBatch | .preCommitBatchWait | .preCommitWait | .waitSeed | .committing | .addPieceFailed
  | .sealPreCommit1Failed | .sealPreCommit2Failed | .preCommitFailed | .computeProofFailed | .remoteCommitFailed
  | .commitFailed | .dealsExpired | .recoverDealIDs | .removing | .removeFailed | .removed => true
  | _ => false

def Event.early (event : Event) : Bool :=
  match event with
  | .sectorProofReady proof => proof.length > 0
  | .sectorInvalidDealIDs ret => ret.all SectorState.early
  | .sectorRetryCommitWait | .sectorRetrySubmitCommit | .sectorCommitSubmitted _ | .sectorCommitAggregateSent _
  | .sectorTerminate | .sectorForceState _ | .sectorReceive _ => false
  | _ => true

def lateTypes : List Nat :=
  [.sectorRetryCommitWait, .sectorRetrySubmitCommit, .sectorCommitSubmitted Cid.undef, .sectorCommitAggregateSent Cid.undef,
    .sectorTerminate, .sectorForceState .empty, .sectorReceive (.zero .empty)].map type

theorem Event.early_type (h : event.early = true) : lateTypes.contains event.type = false := by
  cases event <;> first | rfl | cases h

theorem Event.early_plain (h : event.early = true) : event.plain = true := by
  cases event <;> first | rfl | cases h

structure Young (s : SectorInfo) : Prop where
  state : s.state.early = true
  commitMessage : s.commitMessage = none
  ret : s.ret.all SectorState.early = true

def Next.early (next : Next) : Bool :=
  match next with
  | .on state => state.early
  | _ => true

theorem early_of_planner (hst : state.early = true)
    (hp : fsmPlanners state = some (.planOne ts) ∨ fsmPlanners state = some (.planOneOrIgnore ts)) :
    ∀ t ∈ ts, (lateTypes.contains t.1.type || t.2.early) = true := by
  have ha : (ts.all fun t => lateTypes.contains t.1.type || t.2.early) = true := by
    cases state <;> first | cases hst; done | skip
    all_goals
      rcases hp with hp | hp <;> cases hp
      try rfl
  exact all_eq_true.mp ha

theorem apply_young (hea : event.early = true) (hs : Young s) (h : event.apply now s = some s') : Young s' := by
  cases event
  case sectorCommitSubmitted | sectorCommitAggregateSent | sectorReceive => cases hea
  case sectorInvalidDealIDs ret =>
    cases h
    exact ⟨hs.state, hs.commitMessage, hea⟩
  case sectorUpdateDealIDs updates =>
    obtain ⟨pieces, -, rfl⟩ := map_eq_some_iff.mp h
    exact ⟨hs.state, hs.commitMessage, hs.ret⟩
  case sectorAddPiece =>
    cases h
    by_cases hz : s.creationTime = 0
    · rw [if_pos hz]
      exact ⟨hs.state, hs.commitMessage, hs.ret⟩
    · rwa [if_neg hz]
  case sectorProofReady proof =>
    cases h
    by_cases hpr : proof.length > 0
    · rw [if_pos hpr]
      exact ⟨hs.state, hs.commitMessage, hs.ret⟩
    · rwa [if_neg hpr]
  all_goals
    cases h
    exact ⟨hs.state, hs.commitMessage, hs.ret⟩

theorem applyGlobal_young (hea : event.early = true) (hs : Young s) (h : event.applyGlobal s = some (s', stop)) : Young s' := by
  cases event
  case sectorForceState | sectorTerminate => cases hea
  case sectorRemove =>
    cases h
    exact ⟨rfl, hs.commitMessage, hs.ret⟩
  all_goals
    cases h
    try exact hs

theorem Next.run_young {next : Next} (hn : next.early = true) (hs : Young s) : Young (next.run s).1 := by
  cases next with
  | on state => exact ⟨hn, hs.commitMessage, hs.ret⟩
  | apply => exact hs
  | onReturning =>
    unfold Next.run
    rcases hre : s.ret with _ | state
    · exact hs
    have hst := hs.ret
    rw [hre] at hst
    exact ⟨hst, hs.commitMessage, rfl⟩

theorem committing_keeps (hpl : event.plain = true) (h : s.proof ≠ [] ∨ (event.proofIn .committing).isSome = true) :
    (committing event s).proof ≠ [] := by
  rw [committing_proof hpl]
  cases hpr : event.proofIn .committing with
  | none =>
    rw [hpr] at h
    exact h.resolve_right nofun
  | some proof => exact proofIn_ne hpr

theorem committing_young (hea : event.early = true) (hs : s.proof ≠ [] ∨ Young s)
    (hco : event = .sectorCommitted [] → s.proof ≠ []) : (committing event s).proof ≠ [] ∨ Young (committing event s) := by
  have hk := committing_keeps (s := s) (early_plain hea)
  rcases hs with hs | hs
  · exact .inl (hk (.inl hs))
  cases event
  case sectorCommitted proof =>
    refine .inl (hk ?_)
    rcases proof with _ | ⟨b, proof⟩
    · exact .inl (hco rfl)
    · exact .inr rfl
  case sectorProofReady proof =>
    refine .inl (hk (.inr ?_))
    simp only [proofIn, if_pos (of_decide_eq_true hea)]
    rfl
  case sectorSeedReady value epoch =>
    refine .inr ?_
    simp only [committing]
    split_ifs
    · exact hs
    · exact ⟨rfl, hs.commitMessage, hs.ret⟩
  case sectorForceState | sectorTerminate | sectorRetryCommitWait => cases hea
  all_goals first | exact .inr hs | exact .inr ⟨rfl, hs.commitMessage, hs.ret⟩

theorem planCommittingLoop_young (hea : ∀ e ∈ events, e.early = true)
    (hs : s.proof ≠ [] ∨ Young s) (h : planCommittingLoop now i events s = some r)
    (hsd : ∀ pre post, events = pre ++ .sectorCommitted [] :: post → i + pre.length < r.processed → s.proof ≠ [] ∨ ∃ e ∈ pre, (e.proofIn .committing).isSome = true) : r.sector.proof ≠ [] ∨ Young r.sector := by
  induction events generalizing i s with
  | nil =>
    cases h
    exact hs
  | cons event events ih =>
    have hhead := hea event mem_cons_self
    -- an event without a proof that is processed first finds one
    have hst : i < r.processed → (committing event s).proof ≠ [] ∨ Young (committing event s) := by
      intro hlt
      refine committing_young hhead hs fun heq => ?_
      subst heq
      rcases hsd [] events rfl hlt with hpr | ⟨e, he, -⟩
      · exact hpr
      · cases he
    rcases planCommittingLoop_cons h with ⟨-, hpro, hse, -⟩ | ⟨-, -, hm⟩ | ⟨-, -, -, hse⟩
    · rw [hse]
      exact hst (by omega)
    · have hle := (planCommittingLoop_worked hm).le.1
      refine ih (fun e he => hea e (mem_cons_of_mem _ he)) (hst (by omega)) hm fun pre post heq hlt => ?_
      have hk := committing_keeps (s := s) (early_plain hhead)
      rcases hsd (event :: pre) post (congrArg _ heq) (by rw [length_cons]; omega) with hpr | ⟨e, he, hpr⟩
      · exact .inl (hk (.inl hpr))
      rcases mem_cons.mp he with rfl | he
      · exact .inl (hk (.inr hpr))
      · exact .inr ⟨e, he, hpr⟩
    · rwa [hse]

theorem settle_young (hs : Young s) : Young (settle s) := by
  unfold settle
  split_ifs with hst
  · have hb := hs.state
    rw [hst] at hb
    cases hb
  · exact hs

theorem planner_of_early (h : state.early = true) : ∃ p, fsmPlanners state = some p := by
  cases state <;> first | exact ⟨_, rfl⟩ | cases h

theorem plan_young {r : PlanResult} (h : plan now events s = some r) (hea : ∀ e ∈ events, e.early = true) (hs : Young s)
    (hsd : s.state = .committing → ∀ pre post, events = pre ++ .sectorCommitted [] :: post → pre.length < r.processed → s.proof ≠ [] ∨ ∃ e ∈ pre, (e.proofIn .committing).isSome = true) :
    r.sector.proof ≠ [] ∨ Young r.sector := by
  rcases plan_eq_some h with ⟨-, -, hse⟩ | ⟨p, r', hp, hrun, -, hpr, hse⟩
  · rw [hse]
    exact .inr hs
  have hpla : r'.sector.proof ≠ [] ∨ Young r'.sector := by
    obtain ⟨p', hpl⟩ := planner_of_early hs.state
    unfold plannerFor at hp
    rw [hpl] at hp
    obtain rfl := some.inj hp
    by_cases hpc : p' = .planCommitting
    · subst hpc
      have hco := committing_of_planner hpl
      have hre := planCommittingLoop_released (fun e he => early_plain (hea e he)) (by rw [hco]; nofun) hrun
      refine planCommittingLoop_young hea (.inr hs) hrun fun pre post heq hlt => hsd hco pre post heq ?_
      rcases hpr with ⟨-, hb, -⟩ | ⟨-, hpr⟩
      · exact absurd hb hre
      · omega
    refine .inr (Planner.run_rule hpc (fun e he s s' stop hs hg => applyGlobal_young (hea e he) hs hg) ?_ hs hrun)
    intro ts hts e he t ht hty s1 s2 hs' ha
    have hent := early_of_planner hs.state (hts.imp (· ▸ hpl) (· ▸ hpl)) t ht
    rw [← hty, early_type (hea e he)] at hent
    exact Next.run_young hent (apply_young (hea e he) hs' ha)
  rw [hse]
  rcases hpla with hprf | hyo
  · refine .inl ?_
    split_ifs
    · rwa [settle_proof]
    · exact hprf
  refine .inr ?_
  split_ifs
  · exact settle_young hyo
  · exact hyo
end

/-! ## The state machine with its handlers -/

/-- The target of an operator contains `SubmitCommit`. -/
def SectorState.asksSubmitCommit (state : SectorState) : Bool :=
  match state with
  | .submitCommit | .submitCommitAggregate => true
  | .unknown name => decide ((name.splitOn "SubmitCommit").length > 1)
  | _ => false

def forceSectorState (state : SectorState) : Event :=
  if state.asksSubmitCommit then .sectorCommitted [] else .sectorForceState state

/-- The events that come at other times: at the start of a sector, or left to a timer or the watcher of the chain. -/
def Event.deferred (event : Event) : Bool :=
  match event with
  | .sectorStart _ _ | .sectorStartCC _ _ | .sectorAddPiece | .sectorStartPacking | .sectorSeedReady _ _
  | .sectorChainPreCommitFailed | .sectorUpdateActive => true
  | _ => false

def Api.delivered : ∀ {α : Type}, Api α → α → Option Event
  | _, .send event, .ok () => some event
  | _, _, _ => none

def Api.computed : ∀ {α : Type}, Api α → α → Option Bytes
  | _, .sealCommit2, r => r.toOption
  | _, .readAll .commit2, r => r.toOption
  | _, _, _ => none

/-- A sector, its pending events, the handler that is to be run, and the events that it has yet to send. -/
structure Pipeline where
  sector : SectorInfo
  pending : List Event
  todo : Option Handler
  outbox : List Event
  proofs : List Bytes

namespace Pipeline

inductive Label : Type 1 where
  | force (state : SectorState)
  | deferred (event : Event)
  | handle (f : Prog.Oracle Api)
  | deliver
  | call (now : Int)
  | restart

variable (env : Env)

def log (p : Pipeline) (f : Prog.Oracle Api) : List (Answered Api) :=
  match p.todo with
  | some h => ((h.handle env p.sector).run f 0).1
  | none => []

def step (p : Pipeline) : Label → Option Pipeline
  | .force state =>
    if state.asksSubmitCommit then some { p with pending := p.pending ++ [forceSectorState state] } else none
  | .deferred event => if event.deferred then some { p with pending := p.pending ++ [event] } else none
  | .handle f =>
    if p.todo = none then none
    else some { p with todo := none, outbox := (p.log env f).filterMap fun x => x.call.delivered x.answer }
  | .deliver =>
    match p.outbox with
    | [] => none
    | event :: outbox => some { p with pending := p.pending ++ [event], outbox := outbox }
  | .call now =>
    if p.todo = none ∧ p.outbox = [] ∧ p.pending ≠ [] then
      (plan now p.pending p.sector).map fun r =>
        { sector := r.sector
          pending := p.pending.drop r.processed
          todo := r.next
          outbox := []
          proofs := p.proofs ++ (p.pending.take r.processed).filterMap (proofIn p.sector.state) }
    else none
  | .restart => some { p with pending := [.sectorRestart], todo := none, outbox := [] }

def start (s : SectorInfo) : Pipeline := ⟨s, [], nextHandler s.state, [], []⟩

structure Fresh (s : SectorInfo) : Prop where
  state : s.state = .undefinedSectorState ∨ s.state = .empty
  proof : s.proof = []
  commitMessage : s.commitMessage = none
  ret : s.ret = none

def Computes (p : Pipeline) (l : Label) : Prop :=
  ∀ f, l = .handle f → ∀ x ∈ p.log env f, x.call.computed x.answer ≠ some []

/-- **The condition on a call.**  An event without a proof is not applied in `FinalizeSector`, and in `Committing` only
behind a proof. -/
def Covered (p : Pipeline) (l : Label) : Prop :=
  ∀ now r pre post, l = .call now → plan now p.pending p.sector = some r →
    p.pending = pre ++ .sectorCommitted [] :: post → pre.length < r.processed →
    p.sector.state ≠ .finalizeSector ∧
      (p.sector.state = .committing → p.sector.proof ≠ [] ∨ ∃ e ∈ pre, (e.proofIn .committing).isSome = true)

/-! ## What runs keep -/

def events (p : Pipeline) : List Event := p.pending ++ p.outbox

structure Inv (p : Pipeline) : Prop where
  plain : ∀ e ∈ p.events, e.plain = true
  todo : ∀ h, p.todo = some h → nextHandler p.sector.state = some h
  proofs : p.sector.proof = p.proofs.getLast?.getD []
  nonempty : ∀ proof ∈ p.proofs, proof ≠ []
  young : p.sector.proof ≠ [] ∨ (Young p.sector ∧ ∀ e ∈ p.events, e.early = true)

theorem start_inv {s : SectorInfo} (hs : Fresh s) : Inv (start s) := by
  have hea : s.state.early = true := by
    rcases hs.state with hst | hst
    · rw [hst]
      rfl
    · rw [hst]
      rfl
  refine ⟨fun e he => (by cases he), fun h hh => hh, hs.proof, fun proof hpr => (by cases hpr), .inr ⟨?_, ?_⟩⟩
  · exact ⟨hea, hs.commitMessage, by simp [start, hs.ret]⟩
  · intro e he
    cases he

theorem Inv.arrive {p p' : Pipeline} (h : Inv p) (hse : p'.sector = p.sector) (hpr : p'.proofs = p.proofs)
    (hto : p'.todo = none ∨ p'.todo = p.todo)
    (hev : ∀ e ∈ p'.events, e ∈ p.events ∨ (e.plain = true ∧ (Young p.sector → e.early = true))) : Inv p' where
  plain := by
    intro e he
    rcases hev e he with he | he
    · exact h.plain e he
    · exact he.1
  todo := by
    intro handler hh
    rcases hto with hto | hto
    · rw [hto] at hh
      cases hh
    · rw [hse]
      exact h.todo handler (hto ▸ hh)
  proofs := by rw [hse, hpr, h.proofs]
  nonempty := by
    rw [hpr]
    exact h.nonempty
  young := by
    rw [hse]
    rcases h.young with hprf | ⟨hyo, hea⟩
    · exact .inl hprf
    refine .inr ⟨hyo, fun e he => ?_⟩
    rcases hev e he with he | he
    · exact hea e he
    · exact he.2 hyo

end Pipeline

theorem Event.deferred_early {event : Event} (h : event.deferred = true) : event.early = true := by
  cases event <;> first | rfl | cases h

theorem handle_early {m : Env} (hyp : ∀ {α}, Api α → α → Prop)
    (hpr : ∀ p, hyp .sealCommit2 (.ok p) ∨ hyp (.readAll .commit2) (.ok p) → p ≠ []) (hst : state.early = true)
    (hmsg : s.commitMessage = none) {h : Handler} (hn : nextHandler state = some h) :
    (h.handle m s).Always (Only fun event => event.early = true) hyp (fun _ => True) fun _ => True := by
  have hE : (fun _ : Panic => True) .other := trivial
  cases state <;> cases hn
  case empty | waitDeals => exact handleWaitDeals_events hE rfl rfl
  case addPiece => exact handleAddPiece_events hE (fun _ => rfl) rfl
  case packing => exact handlePacking_events (fun _ => rfl) fun _ => rfl
  case getTicket => exact handleGetTicket_events (fun _ _ => rfl) rfl rfl rfl
  case preCommit1 => exact handlePreCommit1_events hE rfl rfl rfl rfl fun _ => rfl
  case preCommit2 => exact handlePreCommit2_events (fun _ _ => rfl) rfl rfl
  case preCommitting => exact handlePreCommitting_events hE ⟨rfl, rfl, rfl, fun _ => rfl, rfl⟩ rfl fun _ _ => rfl
  case preCommitWait | preCommitBatchWait => exact handlePreCommitWait_events hE (fun _ _ _ _ => trivial) rfl rfl fun _ => rfl
  case submitPreCommitBatch =>
    exact handleSubmitPreCommitBatch_events hE ⟨rfl, rfl, rfl, fun _ => rfl, rfl⟩ fun _ => rfl
  case waitSeed => exact handleWaitSeed_events rfl fun _ _ => rfl
  case committing =>
    refine handleCommitting_events hE ⟨fun hb => absurd hmsg hb, rfl, rfl, rfl, rfl, fun p hp => ⟨?_, rfl⟩⟩
    exact decide_eq_true (length_pos_of_ne_nil (hpr p hp))
  case addPieceFailed => exact (always_send _).mpr ⟨rfl, fun _ _ => trivial⟩
  case sealPreCommit1Failed | remoteCommitFailed | removeFailed => exact sendCooled_always rfl
  case sealPreCommit2Failed => exact handleSealPrecommit2Failed_events rfl rfl
  case preCommitFailed => exact handlePreCommitFailed_events hE ⟨rfl, rfl, rfl, rfl, fun _ => rfl, rfl, rfl⟩
  case computeProofFailed => exact handleComputeProofFailed_events rfl rfl
  case commitFailed =>
    exact handleCommitFailed_events hE ⟨rfl, rfl, rfl, rfl, rfl, rfl, rfl, rfl, fun hb => absurd hmsg hb,
      fun hb => absurd hmsg hb⟩
  case dealsExpired => exact handleDealsExpired_events rfl
  case recoverDealIDs => exact handleRecoverDealIDsOrFailWith_events hE rfl fun _ => rfl
  case removing => exact handleRemoving_events rfl rfl
  all_goals cases hst

namespace Pipeline
variable {env : Env}
variable {now : Int} {r : PlanResult}

theorem plan_next {events : List Event} {s : SectorInfo} (h : plan now events s = some r) {handler : Handler}
    (hn : r.next = some handler) : nextHandler r.sector.state = some handler := by
  unfold plan at h
  split at h
  · cases h
    cases hn
  split at h
  · cases h
  · cases h
    cases hn
  case h_3 s' processed _ =>
    cases h
    dsimp only at hn ⊢
    rw [settle_state]
    split_ifs with hst
    · rwa [hst] at hn
    · exact hn

variable {p p' : Pipeline}

theorem call_inv (h : Inv p) (hr : plan now p.pending p.sector = some r) (hco : Covered p (.call now)) :
    Inv ⟨r.sector, p.pending.drop r.processed, r.next, [],
      p.proofs ++ (p.pending.take r.processed).filterMap (proofIn p.sector.state)⟩ := by
  have hpe : ∀ e ∈ p.pending, e ∈ p.events := fun e he => mem_append_left _ he
  have hd : ∀ e ∈ p.pending.drop r.processed ++ [], e ∈ p.events := by
    intro e he
    rw [append_nil] at he
    exact hpe e (mem_of_mem_drop he)
  have hpr : r.sector.proof = lastProof p.sector.state (p.pending.take r.processed) p.sector.proof := by
    refine plan_proof hr (fun e he => h.plain e (hpe e he)) fun hst pre post heq => ?_
    by_contra hlt
    exact (hco now r pre post rfl hr heq (by omega)).1 hst
  refine ⟨fun e he => h.plain e (hd e he), fun _ hn => plan_next hr hn, ?_, fun proof hmem => ?_, ?_⟩
  · show r.sector.proof = _
    rw [hpr, lastProof, h.proofs, List.getLast?_append]
    cases ((p.pending.take r.processed).filterMap (proofIn p.sector.state)).getLast? with
    | none => rfl
    | some proof => rfl
  · rcases mem_append.mp hmem with hmem | hmem
    · exact h.nonempty proof hmem
    · obtain ⟨e, -, he⟩ := mem_filterMap.mp hmem
      exact proofIn_ne he
  show r.sector.proof ≠ [] ∨ _
  rcases h.young with hne | ⟨hyo, hea⟩
  · exact .inl (hpr ▸ lastProof_ne hne)
  have hcalled := plan_young hr (fun e he => hea e (hpe e he)) hyo fun hst pre post heq hlt =>
    (hco now r pre post rfl hr heq hlt).2 hst
  rcases hcalled with hne | hyo
  · exact .inl hne
  · exact .inr ⟨hyo, fun e he => hea e (hd e he)⟩

theorem handle_events (h : Inv p) {f : Prog.Oracle Api} (hcom : Computes env p (.handle f)) {e : Event}
    (he : e ∈ (p.log env f).filterMap fun x => x.call.delivered x.answer) :
    e.plain = true ∧ (Young p.sector → e.early = true) := by
  obtain ⟨x, hx, hd⟩ := mem_filterMap.mp he
  have hse : x.call.sent = some e := by
    obtain ⟨c, r⟩ := x
    cases c
    case send event =>
      cases r with
      | error err => cases hd
      | ok u => exact hd
    all_goals cases hd
  rcases hto : p.todo with _ | handler
  · simp only [log, hto] at hx
    cases hx
  have hn := h.todo handler hto
  have hco := hcom f rfl
  simp only [log, hto] at hx hco
  constructor
  · have hpl := handle_plain (m := env) (fun {_} _ _ => True) rfl hn
    exact only_sent ((Prog.always_run hpl f 0 fun _ _ => trivial).1 x hx) hse
  intro hyo
  -- the answers are those of the run
  have hea := handle_early (m := env) (fun {_} c r => ⟨c, r⟩ ∈ ((handler.handle env p.sector).run f 0).1) ?_
    hyo.state hyo.commitMessage hn
  · exact only_sent ((Prog.always_run hea f 0 fun _ hx => hx).1 x hx) hse
  rintro proof (hpr | hpr) rfl
  all_goals exact hco _ hpr rfl

variable {l : Label}

theorem step_inv (h : Inv p) (hsd : Computes env p l ∧ Covered p l) (hst : step env p l = some p') : Inv p' := by
  have hadd {event : Event} (hev : event.plain = true ∧ (Young p.sector → event.early = true)) :
      Inv { p with pending := p.pending ++ [event] } := by
    refine h.arrive rfl rfl (.inr rfl) fun e he => ?_
    simp only [events, append_assoc, singleton_append, mem_append, mem_cons] at he ⊢
    rcases he with he | rfl | he
    · exact .inl (.inl he)
    · exact .inr hev
    · exact .inl (.inr he)
  revert hsd hst
  fun_cases step with
  | case1 state ha =>
    rintro - ⟨⟩
    rw [forceSectorState, if_pos ha]
    exact hadd ⟨rfl, fun _ => rfl⟩
  | case3 event hd =>
    rintro - ⟨⟩
    exact hadd ⟨early_plain (deferred_early hd), fun _ => deferred_early hd⟩
  | case6 f =>
    rintro hsd ⟨⟩
    refine h.arrive rfl rfl (.inl rfl) fun e he => ?_
    rcases mem_append.mp he with he | he
    · exact .inl (mem_append_left _ he)
    · exact .inr (handle_events h hsd.1 he)
  | case8 event outbox ho =>
    rintro - ⟨⟩
    refine h.arrive rfl rfl (.inr rfl) fun e he => .inl ?_
    simpa [events, ho] using he
  | case9 now =>
    intro hsd hst
    obtain ⟨r, hr, rfl⟩ := map_eq_some_iff.mp hst
    exact call_inv h hr hsd.2
  | case11 =>
    rintro - ⟨⟩
    refine h.arrive rfl rfl (.inl rfl) fun e he => .inr ?_
    obtain rfl := mem_singleton.mp he
    exact ⟨rfl, fun _ => rfl⟩
  | _ => exact nofun

theorem step_proofs (hst : step env p l = some p') : ∃ more, p'.proofs = p.proofs ++ more := by
  revert hst
  fun_cases step with
  | case9 =>
    intro hst
    obtain ⟨r, -, rfl⟩ := map_eq_some_iff.mp hst
    exact ⟨_, rfl⟩
  | case2 | case4 | case5 | case7 | case10 => exact nofun
  | _ =>
    rintro ⟨⟩
    exact ⟨[], (append_nil _).symm⟩

theorem Inv.last (h : Inv p) (hpr : p.sector.proof ≠ []) : p.proofs.getLast? = some p.sector.proof := by
  have hla := h.proofs
  rcases hpro : p.proofs.getLast? with _ | proof
  · rw [hpro] at hla
    exact absurd hla hpr
  rw [hpro] at hla
  rw [hla]
  rfl

def submitted (state : SectorState) : Bool :=
  match state with
  | .submitCommit | .submitCommitAggregate | .commitWait | .commitAggregateWait => true
  | _ => false

theorem submitted_late {state : SectorState} (h : submitted state = true) : state.early = false := by
  cases state <;> first | rfl | cases h

/-- **A sector that is submitted carries its proof**, and it is the last one, in every run whose calls are covered; and no
such call erases a recorded proof. -/
theorem submitted_carries_proof (env : Env) (s : SectorInfo) (hs : Fresh s) (labels : List Label)
    (hsound : Legal (step env) (fun p l => Computes env p l ∧ Covered p l) (start s) labels) (p : Pipeline)
    (hrun : run (step env) (start s) labels = some p) :
    (submitted p.sector.state = true → p.sector.proof ≠ [] ∧ p.proofs.getLast? = some p.sector.proof) ∧
      ∀ l p', Computes env p l ∧ Covered p l → step env p l = some p' → p.sector.proof ≠ [] → p'.sector.proof ≠ [] := by
  have hinv : Inv p := run_legal (fun _ _ _ h hsound hst => step_inv h hsound hst) (start_inv hs) hsound hrun
  constructor
  · intro hsu
    have hpr : p.sector.proof ≠ [] := by
      rcases hinv.young with hpr | ⟨hyo, -⟩
      · exact hpr
      have hb := hyo.state
      rw [submitted_late hsu] at hb
      cases hb
    exact ⟨hpr, hinv.last hpr⟩
  intro l p' hsound hst hpr
  have hi' := step_inv hinv hsound hst
  obtain ⟨more, hm⟩ := step_proofs hst
  -- the last proof after the step is one of the recorded ones
  have hso : p'.proofs ≠ [] := by
    rw [hm]
    refine append_ne_nil_of_left_ne_nil (fun hn => ?_) _
    have hla := hinv.last hpr
    rw [hn] at hla
    cases hla
  rw [hi'.proofs, List.getLast?_eq_some_getLast hso]
  exact hi'.nonempty _ (getLast_mem hso)

def good (precommitted : Bool) : Label := .handle fun _ {_} c => goodAnswer precommitted c

def noConfig : Label := .handle fun _ {_} c =>
  match c with
  | .getConfig => .error (.errorf "no configuration")
  | c => goodAnswer true c

/-- The way of an empty sector to `Committing`. -/
def sealed : List Label :=
  [good false, .deliver, .call 1,                      -- `Packing`
    good false, .deliver, .call 1,                     -- `GetTicket`
    good false, .deliver, .call 1,                     -- `PreCommit1`
    good false, .deliver, .call 1,                     -- `PreCommit2`
    good false, .deliver, .call 1,                     -- `PreCommitting`
    good false, .deliver, .call 1,                     -- `PreCommitWait`
    good true, .deliver, .call 1,                      -- `WaitSeed`
    good true, .deliver, .call 1]                      -- `Committing`

variable (env p l) in
def computes : Bool :=
  match l with
  | .handle f => (p.log env f).all fun x => x.call.computed x.answer != some []
  | _ => true

theorem computes_of_check (h : computes env p l = true) : Computes env p l := by
  rintro f rfl x hx
  simpa using all_eq_true.mp h x hx

/-- No event is without a proof, or the first of those for `Committing` has one. -/
def covered (p : Pipeline) : Bool :=
  (p.pending.all fun e => e != .sectorCommitted []) ||
    (p.sector.state = .committing && p.pending.head?.any fun e => (e.proofIn .committing).isSome)

theorem covered_of_check (l : Label) (h : covered p = true) : Covered p l := by
  intro now r pre post _ _ hpe _
  rcases Bool.or_eq_true_iff.mp h with hall | hhead
  · have hb := all_eq_true.mp hall (.sectorCommitted []) (hpe ▸ by simp)
    simp at hb
  obtain ⟨hst, hproof⟩ := Bool.and_eq_true_iff.mp hhead
  have hst := of_decide_eq_true hst
  rw [hpe] at hproof
  rw [hst]
  refine ⟨nofun, fun _ => .inr ?_⟩
  rcases pre with _ | ⟨e, pre⟩
  · cases hproof
  · exact ⟨e, mem_cons_self, hproof⟩

/-- An operator asks for `SubmitCommit` while the proof is under way. -/
theorem submitted_carries_proof_sealed :
    let labels := sealed ++ [good true, .deliver, .force .submitCommit, .call 1]
    ∃ p, run (step someEnv) (start (.zero .empty)) labels = some p ∧
      p.sector.state = .submitCommit ∧ p.sector.proof ≠ [] ∧ p.proofs.getLast? = some p.sector.proof := by
  intro labels
  obtain ⟨p, hrun, hst⟩ : ∃ p, run (step someEnv) (start (.zero .empty)) labels = some p ∧ p.sector.state = .submitCommit :=
    ⟨_, rfl, rfl⟩
  have hch : checks (step someEnv) (fun p l => computes someEnv p l && covered p) (start (.zero .empty)) labels = true := rfl
  have hsd : Legal (step someEnv) (fun p l => Computes someEnv p l ∧ Covered p l) (start (.zero .empty)) labels :=
    legal_of_checks (fun p l h => ⟨computes_of_check (Bool.and_eq_true_iff.mp h).1,
      covered_of_check l (Bool.and_eq_true_iff.mp h).2⟩) hch
  have hsu : submitted p.sector.state = true := by rw [hst]; rfl
  have hfr : Fresh (.zero .empty) := ⟨.inr rfl, rfl, rfl, rfl⟩
  exact ⟨p, hrun, hst, (submitted_carries_proof someEnv (.zero .empty) hfr _ hsd p hrun).1 hsu⟩

/-- **Proofs that are missing**: the operator's event moves the sector to `SubmitCommit` without one, or erases it. -/
theorem submitted_without_proof : (∃ labels p, run (step someEnv) (start (.zero .empty)) labels = some p ∧
      Legal (step someEnv) (Computes someEnv) (start (.zero .empty)) labels ∧
      submitted p.sector.state = true ∧ p.sector.proof = []) ∧
    ∃ labels p p', run (step someEnv) (start (.zero .empty)) labels = some p ∧
      Legal (step someEnv) (Computes someEnv) (start (.zero .empty)) labels ∧
      step someEnv p (.call 1) = some p' ∧ p.sector.proof = [9] ∧ submitted p'.sector.state = true ∧
      p'.sector.proof = [] := by
  have hco : ∀ labels, checks (step someEnv) (computes someEnv) (start (.zero .empty)) labels = true →
      Legal (step someEnv) (Computes someEnv) (start (.zero .empty)) labels :=
    fun _ h => legal_of_checks (fun _ _ => computes_of_check) h
  refine ⟨⟨sealed ++ [noConfig, .force .submitCommit, .call 1], _, rfl, hco _ rfl, rfl, rfl⟩, ?_⟩
  -- `SubmitCommit`, `CommitWait`, `FinalizeSector`
  refine ⟨sealed ++ [good true, .deliver, .call 1, good true, .deliver, .call 1, good true, .deliver, .call 1, noConfig,
    .force .submitCommit], _, _, rfl, hco _ rfl, rfl, rfl, rfl, rfl⟩

end Pipeline
end Lotus.Sealing

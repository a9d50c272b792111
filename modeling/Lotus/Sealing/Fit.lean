/-
# The events of a state's handler and the planner of that state.

Every event that a handler sends is expected in its state, and no handler uses the result of a failed call, but for
three. `handleGetTicket` goes on with a zero ticket, and sends an event its planner does not know. `handleFaultReported`
sends its event to a state that expects none. `handlePreCommitWait` reads a deal it could not look up.
-/
import Lotus.Sealing.Progress
import Lotus.Sealing.StatesProving

namespace Lotus.Sealing
open Lib List Prog

/-! ## What a planner expects -/

def PlanError.unexpected (err : PlanError) : Bool :=
  match err with
  | .returnNotSet => false
  | _ => true

def Planner.expects (p : Planner) (event : Event) : Bool :=
  match p with
  | .planOne ts => event.isGlobal || (ts.any fun t => event.type == t.1.type) || event.ignorable
  | .planOneOrIgnore _ => true
  | .planCommitting => event.ofCommitting
  | .final => event.isGlobal
  | .finalRemoved => true

def SectorState.expects (state : SectorState) (event : Event) : Bool := (fsmPlanners state).any fun p => p.expects event

variable {s : SectorInfo}

theorem Next.run_error {next : Next} {s' : SectorInfo} {err : PlanError} (h : next.run s = (s', .error err)) :
    err.unexpected = false := by
  cases next with
  | on state | apply => cases h
  | onReturning =>
    cases hre : s.ret with
    | none =>
      simp only [Next.run, hre] at h
      cases h
      rfl
    | some state =>
      simp only [Next.run, hre] at h
      cases h

variable {event : Event} {now : Int} {ts : List Entry}

theorem planOneLoop_unexpected {r : Planned} (h : planOneLoop now ts 0 [event] s = some r) :
    (∃ err, r.err = some err ∧ err.unexpected = true) ↔ (Planner.planOne ts).expects event = false := by
  have hg := event.applyGlobal_isSome s
  unfold planOneLoop at h
  split at h
  case h_1 heq =>
    cases h
    rw [heq] at hg
    simp [Planner.expects, ← hg]
  case h_2 heq =>
    rw [heq] at hg
    split at h
    case h_1 t hfi =>
      -- an entry of the type has no error but the missing return state
      have ha : (ts.any fun t => event.type == t.1.type) = true :=
        any_eq_true.mpr ⟨t, mem_of_find?_eq_some hfi, by simpa using find?_some hfi⟩
      have herr : ∀ err, r.err = some err → err.unexpected = false := by
        intro err herr
        split at h
        · cases h
        split at h
        · rename_i hrun
          cases h
          cases herr
          exact Next.run_error hrun
        all_goals
          cases h
          cases herr
      simp only [Planner.expects, ha, Bool.or_true, Bool.true_or, Bool.true_eq_false, iff_false]
      rintro ⟨err, he', hb⟩
      rw [herr err he'] at hb
      cases hb
    case h_2 hfi =>
      have ha : (ts.any fun t => event.type == t.1.type) = false := by
        rw [any_eq_false]
        exact find?_eq_none.mp hfi
      split_ifs at h with hig
      · cases h
        simp [Planner.expects, hig]
      cases h
      simp only [Planner.expects, ← hg, ha, hig]
      simp [PlanError.unexpected]

theorem planOneLoop_isSome (h : (Planner.planOne ts).expects event = false) (now : Int) :
    ∃ r, planOneLoop now ts 0 [event] s = some r := by
  simp only [Planner.expects, Bool.or_eq_false_iff] at h
  obtain ⟨⟨hg, ha⟩, hig⟩ := h
  have hn : event.applyGlobal s = none := by
    have := event.applyGlobal_isSome s
    rwa [hg, Option.isSome_eq_false_iff, Option.isNone_iff_eq_none] at this
  have hfi : (ts.find? fun t => event.type == t.1.type) = none :=
    find?_eq_none.mpr (any_eq_false.mp ha)
  unfold planOneLoop
  rw [hn]
  rw [hfi, hig]
  exact ⟨_, rfl⟩

variable {p : Planner}

theorem plan_unexpected (hp : fsmPlanners s.state = some p) {r : PlanResult}
    (h : plan now [event] s = some r) : (∃ err, r.err = some err ∧ err.unexpected = true) ↔ s.state.expects event = false := by
  have hpl : plannerFor s.state [event] = some p := by
    unfold plannerFor
    rw [hp]
  rcases plan_eq_some h with ⟨hn, -⟩ | ⟨p', r', hp', hrun, herr, -⟩
  · rw [hpl] at hn
    cases hn
  cases hpl.symm.trans hp'
  rw [herr]
  have hexp : s.state.expects event = p.expects event := by
    unfold SectorState.expects
    rw [hp]
    rfl
  rw [hexp]
  cases p with
  | planOne ts => exact planOneLoop_unexpected hrun
  | planOneOrIgnore ts =>
    obtain ⟨r1, -, rfl⟩ := Option.map_eq_some_iff.mp hrun
    simp [Planner.expects]
  | planCommitting =>
    have herr : r'.err = if event.ofCommitting then none else some (.unknownType event) := by
      cases event
      case sectorSeedReady value epoch =>
        simp only [Planner.run, planCommittingLoop, Event.applyGlobal] at hrun
        split_ifs at hrun <;> obtain rfl := Option.some.inj hrun <;> rfl
      all_goals cases hrun
      all_goals rfl
    rw [herr]
    cases hkn : event.ofCommitting <;> simp [Planner.expects, PlanError.unexpected, hkn]
  | final =>
    have herr : r'.err = if event.isGlobal then none else some (.didntExpect s.state) := by
      cases event <;> obtain rfl := Option.some.inj hrun <;> rfl
    rw [herr]
    cases hg : event.isGlobal <;> simp [Planner.expects, PlanError.unexpected, hg]
  | finalRemoved =>
    cases hrun
    simp [Planner.expects]

theorem plan_isSome (hp : fsmPlanners s.state = some p) (h : s.state.expects event = false)
    (now : Int) : ∃ r, plan now [event] s = some r := by
  have hpl : plannerFor s.state [event] = some p := by
    unfold plannerFor
    rw [hp]
  have hrun : ∃ r, p.run now [event] s = some r := by
    unfold SectorState.expects at h
    rw [hp] at h
    cases p with
    | planOne ts => exact planOneLoop_isSome h now
    | planOneOrIgnore ts => cases h
    | planCommitting =>
      cases event <;> first | exact ⟨_, rfl⟩ | cases h
    | final =>
      cases event <;> exact ⟨_, rfl⟩
    | finalRemoved => exact ⟨_, rfl⟩
  obtain ⟨⟨s', n, err⟩, hrun⟩ := hrun
  unfold plan
  rw [hpl]
  dsimp only
  rw [hrun]
  cases err with
  | none | some err => exact ⟨_, rfl⟩

/-! ## What a handler has asked and sent -/

namespace Api

def sent {α : Type} : Api α → Option Event
  | .send event => some event
  | _ => none

/-- A lookup of `getTicket` has failed. -/
def failed : ∀ {α : Type}, Api α → α → Bool
  | _, .chainHead, r | _, .stateMinerSectorAllocated _, r | _, .marshal, r => r.toOption.isNone
  | _, .stateSectorPreCommitInfo _, r | _, .stateNetworkVersion _, r | _, .versionForNetwork _, r => r.toOption.isNone
  | _, .getMaxProveCommitDuration _ _, r | _, .stateGetRandomnessFromTickets _ _, r => r.toOption.isNone
  | _, _, _ => false

def allocated : ∀ {α : Type}, Api α → α → Bool
  | _, .stateMinerSectorAllocated _, r => r.toOption.getD false
  | _, _, _ => false

def head : ∀ {α : Type}, Api α → α → Option TipSet
  | _, .chainHead, r => r.toOption
  | _, _, _ => none

def precommit : ∀ {α : Type}, Api α → α → Option PreCommitOnChainInfo
  | _, .stateSectorPreCommitInfo _, r => r.toOption.join
  | _, _, _ => none

def duration : ∀ {α : Type}, Api α → α → Option Int
  | _, .getMaxProveCommitDuration _ _, r => r.toOption
  | _, _, _ => none

def dealFailed : ∀ {α : Type}, Api α → α → Bool
  | _, .stateMarketStorageDeal _ _, r => r.toOption.isNone
  | _, _, _ => false

def landed : ∀ {α : Type}, Api α → α → Bool
  | _, .stateWaitMsg _, r => r.toOption.any fun mw => mw.exitCode = 0
  | _, _, _ => false

theorem sent_send (event : Event) : (send event).sent = some event := rfl

theorem failed_send (event : Event) (r : Except GoError Unit) : (send event).failed r = false := rfl

@[simp] theorem dealFailed_send (event : Event) (r : Except GoError Unit) : (send event).dealFailed r = false := rfl

@[simp] theorem dealFailed_stateWaitMsg (msg : Cid) (r : Except GoError MsgLookup) :
    (stateWaitMsg msg).dealFailed r = false := rfl

@[simp] theorem dealFailed_ok (id : UInt64) (tsk : TipSetKey) (proposal : DealProposal) :
    (stateMarketStorageDeal id tsk).dealFailed (.ok proposal) = false := rfl

theorem allocated_send (event : Event) (r : Except GoError Unit) : (send event).allocated r = false := rfl

end Api

def Expired (log : List (Answered Api)) : Prop :=
  ∃ ts ∈ log.filterMap fun x => x.call.head x.answer, ∃ pci ∈ log.filterMap fun x => x.call.precommit x.answer,
    ∃ msd ∈ log.filterMap fun x => x.call.duration x.answer,
      checkProveCommitExpired pci.preCommitEpoch msd ts.height = true

/-- **The handler fits the planner**: its events are expected in the state, it uses no nil result of a failed call, and sends
no ticket after a failed lookup. -/
structure Fits (s : SectorInfo) (out : List (Answered Api) × Except Panic Unit) : Prop where
  expected : ∀ x ∈ out.1, ∀ event, x.call.sent = some event → ∀ now r err, plan now [event] s = some r →
    r.err = some err → err.unexpected = false
  result : out.2 ≠ .error .failedResult
  ticket : ∀ x ∈ out.1, ∀ value epoch, x.call.sent = some (.sectorTicket value epoch) → ∀ y ∈ out.1, y.call.failed y.answer = false

/-- The answers with which a handler does not fit. -/
inductive Slip (s : SectorInfo) (log : List (Answered Api)) : Prop where
  /-- The sector number is not known as allocated, and a lookup fails or the precommit has expired. -/
  | getTicket : s.state = .getTicket → (∀ x ∈ log, x.call.allocated x.answer = false) →
      (∃ x ∈ log, x.call.failed x.answer = true) ∨ Expired log → Slip s log
  /-- The report has landed. -/
  | faultReported : s.state = .faultReported → (∃ x ∈ log, x.call.landed x.answer = true) → Slip s log
  /-- A deal cannot be looked up. -/
  | preCommitWait : s.state = .preCommitWait ∨ s.state = .preCommitBatchWait → (∃ x ∈ log, x.call.dealFailed x.answer = true) →
      Slip s log

/-- What `getTicket` returns, by what it has looked up. -/
inductive TicketRun (log : List (Answered Api)) : TicketResult → Prop where
  /-- A failed lookup that is no error. -/
  | zero : (log.any fun x => x.call.allocated x.answer) = false → (log.any fun x => x.call.failed x.answer) = true →
      TicketRun log ⟨[], 0, false, false⟩
  | error {alloc : Bool} : (log.any fun x => x.call.allocated x.answer) = alloc →
      (alloc = false → (log.any fun x => x.call.failed x.answer) = true ∨ Expired log) →
      TicketRun log ⟨[], 0, alloc, true⟩
  | ticket {value : Bytes} {epoch : Int} {alloc : Bool} : (log.any fun x => x.call.failed x.answer) = false →
      ¬ Expired log → TicketRun log ⟨value, epoch, alloc, false⟩

variable {m : Env} {s : SectorInfo} {f : Prog.Oracle Api}

theorem getTicket_run (n : Nat) : ∃ res, ((getTicket m s).run f n).2 = .ok res ∧
    TicketRun ((getTicket m s).run f n).1 res ∧ (((getTicket m s).run f n).1.any fun x => x.call.sent.isSome) = false := by
  unfold getTicket
  rw [run_ask_bind]
  rcases f n Api.chainHead with err | ts
  · exact ⟨_, rfl, .zero rfl rfl, rfl⟩
  rw [run_ask_bind]
  rcases f (n + 1) (Api.stateMinerSectorAllocated []) with err | alloc
  · exact ⟨_, rfl, .zero rfl rfl, rfl⟩
  rw [run_ask_bind]
  rcases f (n + 1 + 1) Api.marshal with err | _
  · cases alloc <;> exact ⟨_, rfl, .error rfl fun _ => .inl rfl, rfl⟩
  dsimp only
  rw [run_ask_bind]
  rcases f (n + 1 + 1 + 1) (Api.stateSectorPreCommitInfo ts.key) with err | _ | pci
  · cases alloc <;> exact ⟨_, rfl, .error rfl fun _ => .inl rfl, rfl⟩
  · dsimp only [ticketEpochOf]
    cases alloc with
    | true => exact ⟨_, rfl, .error rfl nofun, rfl⟩
    | false =>
      simp only [Bool.false_eq_true, if_false, ret_bind]
      rw [run_ask_bind]
      rcases f (n + 1 + 1 + 1 + 1) (Api.stateGetRandomnessFromTickets _ ts.key) with err | rand
      · exact ⟨_, rfl, .error rfl fun _ => .inl rfl, rfl⟩
      refine ⟨_, rfl, .ticket rfl ?_, rfl⟩
      rintro ⟨-, -, pci, hpci, -⟩
      cases hpci
  dsimp only [ticketEpochOf]
  rw [bind_bind, run_ask_bind]
  rcases f (n + 1 + 1 + 1 + 1) (Api.stateNetworkVersion ts.key) with err | nv
  · cases alloc <;> exact ⟨_, rfl, .error rfl fun _ => .inl rfl, rfl⟩
  dsimp only
  rw [bind_bind, run_ask_bind]
  rcases f (n + 1 + 1 + 1 + 1 + 1) (Api.versionForNetwork nv) with err | av
  · cases alloc <;> exact ⟨_, rfl, .error rfl fun _ => .inl rfl, rfl⟩
  dsimp only
  rw [bind_bind, run_ask_bind]
  rcases f (n + 1 + 1 + 1 + 1 + 1 + 1) (Api.getMaxProveCommitDuration av s.sectorType) with err | msd
  · cases alloc <;> exact ⟨_, rfl, .error rfl fun _ => .inl rfl, rfl⟩
  dsimp only
  by_cases hexp : checkProveCommitExpired pci.preCommitEpoch msd ts.height = true
  · rw [if_pos hexp]
    refine ⟨_, rfl, .error (by cases alloc <;> rfl) fun _ => .inr ?_, rfl⟩
    exact ⟨ts, mem_cons_self, pci, mem_cons_self, msd, mem_cons_self, hexp⟩
  rw [if_neg hexp, ret_bind, run_ask_bind]
  rcases f (n + 1 + 1 + 1 + 1 + 1 + 1 + 1) (Api.stateGetRandomnessFromTickets pci.sealRandEpoch ts.key) with err | rand
  · cases alloc <;> exact ⟨_, rfl, .error rfl fun _ => .inl rfl, rfl⟩
  refine ⟨_, rfl, .ticket rfl ?_, rfl⟩
  rintro ⟨ts', hts, pci', hpci, msd', hm, hb⟩
  obtain rfl := mem_singleton.mp hts
  obtain rfl := mem_singleton.mp hpci
  obtain rfl := mem_singleton.mp hm
  exact hexp hb

/-! ## Handlers and planners -/

def Event.plain (event : Event) : Bool :=
  match event with
  | .sectorForceState _ | .sectorReceive _ => false
  | _ => true

def SectorState.fine (state : SectorState) (event : Event) : Bool :=
  state.expects event && (event.type != (Event.sectorTicket [] 0).type && event.plain)

variable {h : Handler} {state : SectorState}

theorem handle_fine (hyp : ∀ {α}, Api α → α → Prop) (E : Panic → Prop) (hst : s.state = state)
    (hn : nextHandler state = some h) (htk : state ≠ .getTicket) (hfa : state ≠ .faultReported) (hE : E .other)
    (hd : state = .preCommitWait ∨ state = .preCommitBatchWait → ∀ id tsk err, hyp (.stateMarketStorageDeal id tsk) (.error err) → E .failedResult) :
    (h.handle m s).Always (Only fun event => state.fine event = true) hyp (fun _ => True) E := by
  cases state <;> cases hn
  case empty | waitDeals | snapDealsWaitDeals => exact handleWaitDeals_events hE rfl rfl
  case addPiece | snapDealsAddPiece => exact handleAddPiece_events hE (fun _ => rfl) rfl
  case packing =>
    refine handlePacking_events (fun hb => ?_) fun _ => rfl
    rw [hst] at hb
    cases hb
  case getTicket => exact absurd rfl htk
  case preCommit1 => exact handlePreCommit1_events hE rfl rfl rfl rfl fun _ => rfl
  case preCommit2 => exact handlePreCommit2_events (fun _ _ => rfl) rfl rfl
  case preCommitting => exact handlePreCommitting_events hE ⟨rfl, rfl, rfl, fun _ => rfl, rfl⟩ rfl fun _ _ => rfl
  case preCommitWait => exact handlePreCommitWait_events hE (hd (.inl rfl)) rfl rfl fun _ => rfl
  case submitPreCommitBatch =>
    exact handleSubmitPreCommitBatch_events hE ⟨rfl, rfl, rfl, fun _ => rfl, rfl⟩ fun _ => rfl
  case preCommitBatchWait => exact handlePreCommitWait_events hE (hd (.inr rfl)) rfl rfl fun _ => rfl
  case waitSeed => exact handleWaitSeed_events rfl fun _ _ => rfl
  case committing =>
    exact handleCommitting_events hE ⟨fun _ => rfl, rfl, rfl, rfl, rfl, fun _ _ => ⟨rfl, rfl⟩⟩
  case commitFinalize | finalizeSector => exact handleFinalizeSector_events rfl rfl rfl
  case commitFinalizeFailed | sealPreCommit1Failed | remoteCommitFailed | finalizeFailed | releaseSectorKeyFailed |
      finalizeReplicaUpdateFailed | removeFailed =>
    exact sendCooled_always rfl
  case submitCommit => exact handleSubmitCommit_events hE rfl rfl fun _ => rfl
  case commitWait | commitAggregateWait => exact handleCommitWait_events rfl (fun _ => rfl) rfl
  case submitCommitAggregate => exact handleSubmitCommitAggregate_events hE rfl rfl fun _ => rfl
  case proving | available | faulty => trivial
  case snapDealsPacking => exact handlePacking_events (fun _ => rfl) fun _ => rfl
  case updateReplica => exact handleReplicaUpdate_events hE rfl rfl rfl rfl fun _ _ => rfl
  case proveReplicaUpdate => exact handleProveReplicaUpdate_events hE rfl rfl rfl rfl fun _ => rfl
  case submitReplicaUpdate => exact handleSubmitReplicaUpdate_events hE rfl fun _ => rfl
  case replicaUpdateWait => exact handleReplicaUpdateWait_events hE rfl rfl rfl
  case finalizeReplicaUpdate => exact handleFinalizeReplicaUpdate_events rfl rfl
  case updateActivating => exact handleUpdateActivating_events rfl
  case releaseSectorKey => exact handleReleaseSectorKey_events rfl rfl
  case receiveSector => exact handleReceiveSector_events rfl
  case addPieceFailed | snapDealsAddPieceFailed => exact (always_send _).mpr ⟨rfl, fun _ _ => trivial⟩
  case sealPreCommit2Failed => exact handleSealPrecommit2Failed_events rfl rfl
  case preCommitFailed => exact handlePreCommitFailed_events hE ⟨rfl, rfl, rfl, rfl, fun _ => rfl, rfl, rfl⟩
  case computeProofFailed => exact handleComputeProofFailed_events rfl rfl
  case commitFailed =>
    exact handleCommitFailed_events hE ⟨rfl, rfl, rfl, rfl, rfl, rfl, rfl, rfl, fun _ => rfl, fun _ => rfl⟩
  case packingFailed | dealsExpired => exact handleDealsExpired_events rfl
  case recoverDealIDs | snapDealsRecoverDealIDs => exact handleRecoverDealIDsOrFailWith_events hE rfl fun _ => rfl
  case snapDealsDealsExpired => exact handleDealsExpiredSnapDeals_events rfl
  case abortUpgrade => exact handleAbortUpgrade_events rfl
  case replicaUpdateFailed =>
    exact handleSubmitReplicaUpdateFailed_events hE ⟨rfl, rfl, rfl, rfl, rfl, rfl, rfl⟩
  case faultReported => exact absurd rfl hfa
  case terminating => exact handleTerminating_events rfl rfl fun _ => rfl
  case terminateWait => exact handleTerminateWait_events rfl fun _ => rfl
  case terminateFinality => exact handleTerminateFinality_events rfl rfl
  case terminateFailed => exact handleTerminateFailed_events rfl
  case removing => exact handleRemoving_events rfl rfl

theorem handle_plain (hyp : ∀ {α}, Api α → α → Prop) (hst : s.state = state) (hn : nextHandler state = some h) :
    (h.handle m s).Always (Only fun event => event.plain = true) hyp (fun _ => True) fun _ => True := by
  by_cases htk : state = .getTicket
  · subst htk
    cases hn
    exact handleGetTicket_events (fun _ _ => rfl) rfl rfl rfl
  by_cases hfa : state = .faultReported
  · subst hfa
    cases hn
    exact handleFaultReported_events rfl
  have hfi := handle_fine (m := m) hyp (fun _ => True) hst hn htk hfa trivial fun _ _ _ _ _ => trivial
  refine hfi.mono (fun c hc => ?_) (fun _ _ => trivial) fun _ _ => trivial
  cases c
  case send event => exact (Bool.and_eq_true_iff.mp (Bool.and_eq_true_iff.mp hc).2).2
  all_goals trivial

theorem planner_of_handler (hn : nextHandler state = some h) : ∃ p, fsmPlanners state = some p := by
  cases state <;> first | exact ⟨_, rfl⟩ | cases hn

theorem fits_iff (hn : nextHandler s.state = some h) (out : List (Answered Api) × Except Panic Unit) :
    Fits s out ↔ (∀ x ∈ out.1, ∀ event, x.call.sent = some event → s.state.expects event = true) ∧
      out.2 ≠ .error .failedResult ∧ ∀ x ∈ out.1, ∀ value epoch, x.call.sent = some (.sectorTicket value epoch) →
        ∀ y ∈ out.1, y.call.failed y.answer = false := by
  obtain ⟨p, hp⟩ := planner_of_handler hn
  constructor
  · rintro ⟨hexp, hre, htk⟩
    refine ⟨fun x hx event hev => ?_, hre, htk⟩
    by_contra hb
    rw [Bool.not_eq_true] at hb
    obtain ⟨r, hr⟩ := plan_isSome hp hb 0
    obtain ⟨err, herr, hu⟩ := (plan_unexpected hp hr).mpr hb
    have hco := hexp x hx event hev 0 r err hr herr
    rw [hu] at hco
    cases hco
  rintro ⟨hexpe, hre, htk⟩
  refine ⟨fun x hx event hev now r err hr herr => ?_, hre, htk⟩
  by_contra hb
  rw [Bool.not_eq_false] at hb
  have hco := (plan_unexpected hp hr).mp ⟨err, herr, hb⟩
  rw [hexpe x hx event hev] at hco
  cases hco

theorem only_sent {P : Event → Prop} {α : Type} {c : Api α} (h : Only P c) (hse : c.sent = some event) : P event := by
  cases c
  case send event' =>
    cases hse
    exact h
  all_goals cases hse

theorem fits_of_fine (hn : nextHandler s.state = some h) {out : List (Answered Api) × Except Panic Unit}
    (hfi : ∀ x ∈ out.1, Only (fun event => s.state.fine event = true) x.call)
    (hre : out.2 ≠ .error .failedResult) : Fits s out := by
  have hse : ∀ x ∈ out.1, ∀ event, x.call.sent = some event → s.state.fine event = true :=
    fun x hx event hev => only_sent (hfi x hx) hev
  refine (fits_iff hn out).mpr ⟨fun x hx event hev => ?_, hre, fun x hx value epoch hev => ?_⟩
  · exact (Bool.and_eq_true_iff.mp (hse x hx event hev)).1
  · have hb := (Bool.and_eq_true_iff.mp (hse x hx _ hev)).2
    cases hb

section
variable (hst : s.state = .getTicket)
include hst

theorem slip_getTicket (log : List (Answered Api)) :
    Slip s log ↔ (log.any fun x => x.call.allocated x.answer) = false ∧
      ((log.any fun x => x.call.failed x.answer) = true ∨ Expired log) := by
  rw [any_eq_true, any_eq_false]
  simp only [Bool.not_eq_true]
  constructor
  · rintro (⟨-, ha, hfa⟩ | ⟨hb, -⟩ | ⟨hb, -⟩)
    · exact ⟨ha, hfa⟩
    · rw [hst] at hb
      cases hb
    · rw [hst] at hb
      rcases hb with hb | hb <;> cases hb
  · rintro ⟨ha, hfa⟩
    exact .getTicket hst ha hfa

theorem slip_getTicket_send (log : List (Answered Api)) (event : Event)
    (r : Except GoError Unit) : Slip s (log ++ [⟨.send event, r⟩]) ↔ Slip s log := by
  have hexp : Expired (log ++ [⟨.send event, r⟩]) ↔ Expired log := by
    simp only [Expired, filterMap_append]
    rw [show filterMap (fun x : Answered Api => x.call.head x.answer) [⟨.send event, r⟩] = [] from rfl,
      show filterMap (fun x : Answered Api => x.call.precommit x.answer) [⟨.send event, r⟩] = [] from rfl,
      show filterMap (fun x : Answered Api => x.call.duration x.answer) [⟨.send event, r⟩] = [] from rfl]
    simp only [append_nil]
  simp only [slip_getTicket hst, hexp, any_append, any_cons, any_nil, Api.allocated_send, Api.failed_send, Bool.or_false]

theorem getTicket_fits :
    Fits s ((handleGetTicket m s).run f 0) ↔ ¬ Slip s ((handleGetTicket m s).run f 0).1 := by
  have hn : nextHandler s.state = some .handleGetTicket := by rw [hst]; rfl
  obtain ⟨res, hre, htk, hq⟩ := getTicket_run (m := m) (s := s) (f := f) 0
  unfold handleGetTicket
  rw [run_bind_ok hre]
  generalize ((getTicket m s).run f 0).1 = log at htk hq
  simp only [send, run_ask_bind, run_pure]
  generalize f _ (Api.send (ticketEvent s res)) = r
  rw [slip_getTicket_send hst, slip_getTicket hst]
  have hq : ∀ x ∈ log, x.call.sent = none := by
    simpa using any_eq_false.mp hq
  -- only the last call sends an event
  have hla : Fits s (log ++ [⟨.send (ticketEvent s res), r⟩], .ok ()) ↔ s.state.expects (ticketEvent s res) = true ∧
        ∀ value epoch, ticketEvent s res = .sectorTicket value epoch → ∀ x ∈ log, x.call.failed x.answer = false := by
    rw [fits_iff hn]
    simp only [mem_append, mem_singleton, or_imp, forall_and, forall_eq, Api.sent_send, Api.failed_send,
      Option.some.injEq, forall_eq', and_true, ne_eq, reduceCtorEq, not_false_eq_true, true_and]
    constructor
    · rintro ⟨⟨-, hexp⟩, -, htk⟩
      exact ⟨hexp, htk⟩
    rintro ⟨hexp, htk⟩
    refine ⟨⟨fun x hx event hev => ?_, hexp⟩, fun x hx value epoch hev => ?_, htk⟩
    all_goals
      rw [hq x hx] at hev
      cases hev
  rw [hla, hst]
  cases htk with
  | zero ha hfa =>
    refine iff_of_false (fun h => ?_) fun h => h ⟨ha, .inl hfa⟩
    obtain ⟨x, hx, hb⟩ := any_eq_true.mp hfa
    rw [h.2 [] 0 rfl x hx] at hb
    cases hb
  | @error alloc ha hno =>
    cases alloc with
    | true =>
      refine iff_of_true ?_ fun h => ?_
      · by_cases hmsg : s.commitMessage = none
        all_goals
          simp [ticketEvent, hmsg]
          rfl
      · rw [ha] at h
        cases h.1
    | false => exact iff_of_false (fun h => by cases h.1) fun h => h ⟨ha, hno rfl⟩
  | ticket hfa hexpi =>
    have hall : ∀ x ∈ log, x.call.failed x.answer = false := by
      simpa using any_eq_false.mp hfa
    refine iff_of_true ⟨rfl, fun _ _ _ => hall⟩ ?_
    rintro ⟨-, hb | hb⟩
    · rw [hfa] at hb
      cases hb
    · exact hexpi hb
end

theorem slip_faultReported (hst : s.state = .faultReported) (log : List (Answered Api)) :
    Slip s log ↔ (log.any fun x => x.call.landed x.answer) = true := by
  rw [any_eq_true]
  constructor
  · rintro (⟨hb, -⟩ | ⟨-, hla⟩ | ⟨hb, -⟩)
    · rw [hst] at hb
      cases hb
    · exact hla
    · rw [hst] at hb
      rcases hb with hb | hb <;> cases hb
  · exact .faultReported hst

theorem faultReported_fits (hst : s.state = .faultReported) :
    Fits s ((handleFaultReported s).run f 0) ↔ ¬ Slip s ((handleFaultReported s).run f 0).1 := by
  have hn : nextHandler s.state = some .handleFaultReported := by rw [hst]; rfl
  rw [slip_faultReported hst, Bool.not_eq_true]
  rcases hmsg : s.faultReportMsg with _ | msg
  · simp only [handleFaultReported, hmsg, run_pure]
    exact iff_of_true (fits_of_fine hn (by simp) (by simp)) rfl
  simp only [handleFaultReported, hmsg, run_ask_bind]
  rcases f 0 (Api.stateWaitMsg msg) with err | mw
  · exact iff_of_true (fits_of_fine hn (by simp) (by simp)) rfl
  by_cases hexit : mw.exitCode = 0
  · refine iff_of_false (fun h => ?_) ?_
    · rw [fits_iff hn, hst] at h
      simp only [hexit, ne_eq, not_true_eq_false, if_false, send, run_ask_bind, run_pure] at h
      have hb := h.1 _ (mem_of_getElem? (i := 1) rfl) _ rfl
      cases hb
    · rw [any_cons, show (Api.stateWaitMsg msg).landed (.ok mw) = true from decide_eq_true hexit]
      simp
  rw [any_cons, show (Api.stateWaitMsg msg).landed (.ok mw) = false from decide_eq_false hexit]
  simp only [hexit, ne_eq, not_false_eq_true, if_true, run_pure]
  exact iff_of_true (fits_of_fine hn (by simp) (by simp)) rfl

theorem recordDeals_run (deals : List UInt64) (n : Nat)
    (h : ∃ x ∈ ((recordDeals deals).run f n).1, x.call.dealFailed x.answer = true) :
    ((recordDeals deals).run f n).2 = .error .failedResult := by
  induction deals generalizing n with
  | nil =>
    obtain ⟨x, hx, -⟩ := h
    cases hx
  | cons deal deals ih =>
    unfold recordDeals at h ⊢
    split_ifs at h ⊢
    · rw [run_ask_bind] at h ⊢
      rcases hd : f n (Api.stateMarketStorageDeal deal []) with err | proposal
      · rfl
      rw [hd] at h
      refine ih (n + 1) ?_
      simpa using h
    · exact ih n h

theorem preCommitWait_slips (h : ∃ x ∈ ((handlePreCommitWait s).run f 0).1, x.call.dealFailed x.answer = true) :
    ((handlePreCommitWait s).run f 0).2 = .error .failedResult := by
  rcases hmsg : s.preCommitMessage with _ | msg
  · simp [handlePreCommitWait, hmsg, send] at h
  simp only [handlePreCommitWait, hmsg, run_ask_bind] at h ⊢
  generalize f 0 (Api.stateWaitMsg msg) = mw at h ⊢
  rcases mw with err | mw
  · simp [send] at h
  dsimp only at h ⊢
  split_ifs at h ⊢
  · simp at h
  · rcases hre : ((recordDeals s.dealIDs).run f (0 + 1)).2 with e | u
    · rw [run_bind_error hre] at h ⊢
      rw [← hre]
      refine recordDeals_run _ _ ?_
      simpa using h
    rw [run_bind_ok hre] at h
    have hb := recordDeals_run (f := f) s.dealIDs (0 + 1) (by simpa [send] using h)
    rw [hre] at hb
    cases hb
  all_goals simp [send] at h

/-- **State handlers and planners fit together**, exactly if no answer is one of those in which they do not. -/
theorem handlers_fit_planners (m : Env) (s : SectorInfo) (h : Handler) (hnext : nextHandler s.state = some h)
    (f : Prog.Oracle Api) : Fits s ((h.handle m s).run f 0) ↔ ¬ Slip s ((h.handle m s).run f 0).1 := by
  by_cases htk : s.state = .getTicket
  · rw [htk] at hnext
    cases hnext
    exact getTicket_fits htk
  by_cases hfa : s.state = .faultReported
  · rw [hfa] at hnext
    cases hnext
    exact faultReported_fits hfa
  -- the answers are those of the run
  have hsl : Slip s ((h.handle m s).run f 0).1 ↔ (s.state = .preCommitWait ∨ s.state = .preCommitBatchWait) ∧
      ∃ x ∈ ((h.handle m s).run f 0).1, x.call.dealFailed x.answer = true := by
    constructor
    · rintro (⟨hb, -⟩ | ⟨hb, -⟩ | ⟨hwa, hd⟩)
      · exact absurd hb htk
      · exact absurd hb hfa
      · exact ⟨hwa, hd⟩
    · rintro ⟨hwa, hd⟩
      exact .preCommitWait hwa hd
  have hfi := handle_fine (m := m) (fun {_} c r => ⟨c, r⟩ ∈ ((h.handle m s).run f 0).1)
    (fun e => e = .failedResult → Slip s ((h.handle m s).run f 0).1) rfl hnext htk hfa nofun
    fun hwa id tsk err herr _ => .preCommitWait hwa ⟨_, herr, rfl⟩
  obtain ⟨hev, -, hpa⟩ := always_run hfi f 0 fun _ hx => hx
  constructor
  · intro hfits hb
    obtain ⟨hwa, hd⟩ := hsl.mp hb
    have hh : h = .handlePreCommitWait := by
      rcases hwa with hwa | hwa
      all_goals
        rw [hwa] at hnext
        exact (Option.some.inj hnext).symm
    subst hh
    exact hfits.result (preCommitWait_slips hd)
  · intro hn
    exact fits_of_fine hnext hev fun hb => hn (hpa _ hb rfl)

def someEnv : Env where
  maddr := .id 1000
  zeroPieceCommitment := fun _ => ⟨[0]⟩
  sealRandomnessLookback := 0
  maxPreCommitRandomnessLookback := 0
  preCommitChallengeDelay := 1
  maxSectorExpirationExtension := 0
  minSectorExpiration := 0
  winningPoStSectorSetLookback := fun _ => 0
  interactivePoRepConfidence := 0
  blockDelaySecs := 0
  maxPreCommitGasFee := 0
  maxCommitGasFee := 0

def someConfig : Config where
  makeCCSectorsAvailable := false
  waitDealsDelay := 0
  startEpochSealingBuffer := 0
  finalizeEarly := false
  collateralFromMinerBalance := false
  availableBalanceBuffer := 0
  disableCollateralFallback := false
  batchPreCommits := false
  aggregateCommits := false

def goodAnswer (precommitted : Bool) : ∀ {α : Type}, Api α → α
  | _, .send _ => .ok ()
  | _, .chainHead => .ok (soloTipSet [1] 1 [])
  | _, .stateMinerSectorAllocated _ => .ok precommitted
  | _, .stateSectorPreCommitInfo _ => .ok (if precommitted then some ⟨0, 1, ⟨[3]⟩, 1, 0⟩ else none)
  | _, .stateNetworkVersion _ => .ok 18
  | _, .stateGetRandomnessFromTickets _ _ => .ok [5]
  | _, .stateGetRandomnessFromBeacon _ _ => .ok [6]
  | _, .stateMarketStorageDeal _ _ => .ok ⟨.id 1000, ⟨[0]⟩, 1, 0, 0⟩
  | _, .stateComputeDataCID _ _ => .ok ⟨[4]⟩
  | _, .stateMinerPreCommitDepositForPower _ _ _ => .ok 0
  | _, .stateMinerInitialPledgeCollateral _ _ _ => .ok 0
  | _, .stateMinerAvailableBalance => .ok 0
  | _, .stateMinerInfo _ => .ok ()
  | _, .stateSectorPartition _ => .ok ()
  | _, .stateSectorGetInfo _ => .ok (some ⟨⟨[3]⟩, 0, 0⟩)
  | _, .stateWaitMsg _ => .ok ⟨0, [], 1⟩
  | _, .stateSearchMsg _ _ => .ok none
  | _, .sectorActive _ => .ok true
  | _, .currentSealProof => .ok 0
  | _, .getCurrentDealInfo _ _ => .ok (0, none)
  | _, .marshal => .ok ()
  | _, .versionForNetwork _ => .ok 10
  | _, .getMaxProveCommitDuration _ _ => .ok 10
  | _, .sectorSize _ => .ok 2048
  | _, .registeredUpdateProof _ => .ok 0
  | _, .expiration _ => .ok 0
  | _, .getConfig => .ok someConfig
  | _, .addressFor _ _ => .ok (.id 1001)
  | _, .sendMsg _ => .ok ⟨[7]⟩
  | _, .addPreCommit _ | _, .addCommit _ => .ok ⟨"", false, some ⟨[7]⟩⟩
  | _, .addTermination => .ok (⟨[7]⟩, false)
  | _, .verifySeal _ => .ok true
  | _, .addPiece _ => .ok (1, ⟨[0]⟩)
  | _, .sealPreCommit1 => .ok [2]
  | _, .sealPreCommit2 => .ok (⟨[3]⟩, ⟨[4]⟩)
  | _, .sealCommit1 => .ok [8]
  | _, .sealCommit2 => .ok [9]
  | _, .finalizeSector => .ok ()
  | _, .replicaUpdate => .ok (⟨[3]⟩, ⟨[4]⟩)
  | _, .proveReplicaUpdate1 => .ok ()
  | _, .proveReplicaUpdate2 => .ok (some [9])
  | _, .finalizeReplicaUpdate => .ok ()
  | _, .releaseSectorKey => .ok ()
  | _, .releaseReplicaUpgrade => .ok ()
  | _, .releaseUnsealed => .ok ()
  | _, .remove => .ok ()
  | _, .downloadSectorData => .ok ()
  | _, .newRequest _ _ => .ok ()
  | _, .httpDo _ => .ok 200
  | _, .readAll _ => .ok [9]
  | _, .failedCooldown => .ok ()
  | _, .chainAt _ => (.ok (), true)
  | _, .rounds => 1
  | _, .assignedPieces => none
  | _, .pendingPiece _ => none
  | _, .timerExpired => true
  | _, .timerFires => false
  | _, .now => 0
  | _, .maybeAccept => 0

def noChain : Prog.Oracle Api := fun _ {_} c =>
  match c with
  | .chainHead | .stateMarketStorageDeal _ _ | .stateGetRandomnessFromTickets _ _ => .error (.errorf "no chain")
  | c => goodAnswer false c

def noRandomness : Prog.Oracle Api := fun _ {_} c =>
  match c with
  | .stateGetRandomnessFromTickets _ _ => .error (.errorf "no randomness")
  | c => goodAnswer false c

def dealSector : SectorInfo :=
  { SectorInfo.zero .preCommitWait with
    pieces := [⟨1, ⟨[0]⟩, some ⟨none, 5, none, false⟩⟩]
    preCommitMessage := some ⟨[7]⟩
    commD := some ⟨[4]⟩
    commR := some ⟨[3]⟩ }

theorem handlers_fit_planners_good :
    Fits (.zero .getTicket) ((Handler.handle someEnv (.zero .getTicket) .handleGetTicket).run
      (fun _ {_} c => goodAnswer false c) 0) := by
  refine (handlers_fit_planners someEnv (.zero .getTicket) .handleGetTicket rfl _).mpr fun hb => ?_
  rcases hb with ⟨-, -, hfa | ⟨ts, -, pci, hpci, -⟩⟩ | ⟨hb, -⟩ | ⟨hb, -⟩
  · have hb := any_eq_true.mpr hfa
    cases hb
  · cases hpci
  · cases hb
  · rcases hb with hb | hb <;> cases hb

/-- **Handlers that do not fit**: a ticket of zero, two unexpected events, and a deal that cannot be looked up. -/
theorem handlers_do_not_fit :
    ¬ Fits (.zero .getTicket) ((Handler.handle someEnv (.zero .getTicket) .handleGetTicket).run noChain 0) ∧
    ¬ Fits (.zero .getTicket) ((Handler.handle someEnv (.zero .getTicket) .handleGetTicket).run noRandomness 0) ∧
    ¬ Fits { SectorInfo.zero .faultReported with faultReportMsg := some ⟨[7]⟩ }
      ((Handler.handle someEnv { SectorInfo.zero .faultReported with faultReportMsg := some ⟨[7]⟩ }
        .handleFaultReported).run noChain 0) ∧
    ¬ Fits dealSector ((Handler.handle someEnv dealSector .handlePreCommitWait).run noChain 0) := by
  refine ⟨fun h => ?_, fun h => ?_, fun h => ?_, fun h => h.result rfl⟩
  · have hb := h.ticket _ (mem_cons_of_mem _ mem_cons_self) _ _ rfl _ mem_cons_self
    cases hb
  · have hb := h.expected _ (mem_of_getElem? (i := 5) rfl) _ rfl 0 _ _ rfl rfl
    cases hb
  · have hb := h.expected _ (mem_of_getElem? (i := 1) rfl) _ rfl 0 _ _ rfl rfl
    cases hb

end Lotus.Sealing

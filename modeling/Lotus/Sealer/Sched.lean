/-
# The loop of the scheduler (`runSched`) and the requests to disable a worker.

An iteration takes one input and, once the initial wait is over, all others that are ready; it then answers the requests it
has taken and assigns tasks.
-/
import Mathlib.Data.List.Basic

namespace Lotus.Sealer.Sched
open List

/-- `workerDisableReq`, with the `Todo` lists of its windows. -/
structure WorkerDisableReq (ω τ : Type) where
  activeWindows : List (List τ)
  wid : ω

/-- A call of `done`, with the queue when the request's turn came and what the scheduler holds at the call. -/
structure Ack (ω τ : Type) where
  req : WorkerDisableReq ω τ
  before : List τ
  schedQueue : List τ
  openWindows : List ω

/-- The queue is in the order of arrival: only `trySched1` depends on the order that `sort.Sort` gives it. `openWindows` are
the workers of the windows. A request in `received` goes with whether the initial wait was over when it came. -/
structure Scheduler (ω τ : Type) where
  schedQueue : List τ
  openWindows : List ω
  initialised : Bool
  toDisable : List (WorkerDisableReq ω τ)
  received : List (WorkerDisableReq ω τ × Bool)
  acks : List (Ack ω τ)

/-- The inputs but `closing`, which ends the loop. -/
inductive Input (ω τ ι : Type) where
  | rmRequest (id : ι)
  | workerChange
  | workerDisable (req : WorkerDisableReq ω τ)
  | schedule (req : τ)
  | timer
  | windowRequest (wid : ω)
  | info
  | initWait

/-- The input of an iteration, those that its inner loop finds, and what `trySched1` leaves in the queue and of the windows. -/
structure Iteration (ω τ ι : Type) where
  input : Input ω τ ι
  pending : List (Input ω τ ι)
  left : List τ × List ω

variable {ω τ ι : Type} [DecidableEq ω] [DecidableEq ι] (schedId : τ → ι) (sh : Scheduler ω τ)

def newScheduler : Scheduler ω τ := ⟨[], [], false, [], [], []⟩

/-- The cases that both `select`s have. -/
def receive : Input ω τ ι → Scheduler ω τ
  | .workerDisable req =>
    { sh with toDisable := sh.toDisable ++ [req], received := sh.received ++ [(req, sh.initialised)] }
  | .schedule req => { sh with schedQueue := sh.schedQueue ++ [req] }
  | .windowRequest wid => { sh with openWindows := sh.openWindows ++ [wid] }
  | _ => sh

/-- The first `select`, with `doSched`. -/
def select : Input ω τ ι → Scheduler ω τ × Bool
  | .rmRequest id => ({ sh with schedQueue := sh.schedQueue.eraseP (schedId · = id) }, true)
  | .info => (sh, false)
  | .initWait => ({ sh with initialised := true }, true)
  | input => (receive sh input, true)

/-- The handle of the worker is there: who sent the request waits for `done` before removing it. -/
def disable (req : WorkerDisableReq ω τ) : Scheduler ω τ :=
  let queue := sh.schedQueue ++ req.activeWindows.flatten
  let windows := sh.openWindows.filter (· ≠ req.wid)
  { sh with schedQueue := queue, openWindows := windows, acks := sh.acks ++ [⟨req, sh.schedQueue, queue, windows⟩] }

def iterate (it : Iteration ω τ ι) : Scheduler ω τ :=
  let (sh, doSched) := select schedId { sh with toDisable := [] } it.input
  if doSched && sh.initialised then
    let sh := it.pending.foldl receive sh
    { sh.toDisable.foldl disable sh with schedQueue := it.left.1, openWindows := it.left.2 }
  else sh

/-- Of the requests that came after the initial wait, `ds` are still to be answered. -/
structure Answered (ds : List (WorkerDisableReq ω τ)) : Prop where
  owed : sh.acks.map Ack.req ++ ds = (sh.received.filter Prod.snd).map Prod.fst
  acks : ∀ a ∈ sh.acks, a.schedQueue = a.before ++ a.req.activeWindows.flatten ∧ a.req.wid ∉ a.openWindows

/-- What the loop owes in the middle of an iteration. -/
abbrev Taken : Prop := Answered sh (if sh.initialised then sh.toDisable else [])

variable {sh} {i : Input ω τ ι}
omit [DecidableEq ω] [DecidableEq ι] in
theorem Taken.receive (h : Taken sh) : Taken (receive sh i) := by
  cases i with
  | workerDisable req =>
    have ho := h.owed
    refine ⟨?_, h.acks⟩
    cases hin : sh.initialised <;> simp [Sched.receive, hin, ← ho]
  | _ => exact { h with }

omit [DecidableEq ω] in
theorem Taken.select (h : Answered sh []) (i : Input ω τ ι) :
    let p := select schedId { sh with toDisable := [] } i
    Taken p.1 ∧ (p.2 = false → p.1.toDisable = []) := by
  have ht : Taken { sh with toDisable := [] } := ⟨by simpa using h.owed, h.acks⟩
  fun_cases Sched.select with
  | case1 => exact ⟨{ ht with }, nofun⟩
  | case2 => exact ⟨ht, fun _ => rfl⟩
  | case3 => exact ⟨{ h with }, nofun⟩
  | case4 => exact ⟨ht.receive, nofun⟩

theorem Answered.disable {ds : List (WorkerDisableReq ω τ)} (h : Answered sh ds) : Answered (ds.foldl disable sh) [] := by
  induction ds generalizing sh with
  | nil => exact h
  | cons req ds ih =>
    refine ih ⟨by simpa [Sched.disable] using h.owed, ?_⟩
    simpa [Sched.disable, or_imp, forall_and] using h.acks

theorem Answered.iterate (h : Answered sh []) (it : Iteration ω τ ι) : Answered (iterate schedId sh it) [] := by
  obtain ⟨ht, hno⟩ := Taken.select schedId h it.input
  unfold Sched.iterate
  generalize Sched.select schedId { sh with toDisable := [] } it.input = p at ht hno
  obtain ⟨sh1, doSched⟩ := p
  dsimp only at ht hno ⊢
  split_ifs with hb
  · rw [Bool.and_eq_true] at hb
    obtain ⟨hp, hin⟩ : Taken (it.pending.foldl receive sh1) ∧ (it.pending.foldl receive sh1).initialised = true :=
      foldlRecOn (motive := fun sh => Taken sh ∧ sh.initialised = true) it.pending receive ⟨ht, hb.2⟩
        fun _ h i _ => ⟨h.1.receive, by cases i <;> exact h.2⟩
    rw [Taken, if_pos hin] at hp
    exact { hp.disable with }
  · cases doSched with
    | false => simpa [Taken, hno rfl] using ht
    | true => simpa [Taken, show sh1.initialised = false by simpa using hb] using ht

/-- **A request to disable a worker** is answered in the iteration in which it comes if the initial wait is then over, and
never otherwise. -/
theorem disable_answered (its : List (Iteration ω τ ι)) :
    let sh := its.foldl (iterate schedId) newScheduler
    sh.acks.map Ack.req = (sh.received.filter Prod.snd).map Prod.fst ∧
      ∀ a ∈ sh.acks, a.schedQueue = a.before ++ a.req.activeWindows.flatten ∧ a.req.wid ∉ a.openWindows := by
  intro sh
  have h : Answered sh [] :=
    foldlRecOn (motive := (Answered · [])) its (iterate schedId) ⟨rfl, by simp [newScheduler]⟩ fun _ h it _ => h.iterate schedId it
  exact ⟨by simpa using h.owed, h.acks⟩

/-- A request that comes during the initial wait: its task and its worker's window stay where they are. -/
theorem disable_lost :
    let sh : Scheduler Nat Nat := [⟨.windowRequest 1, [], ([], [])⟩, ⟨.workerDisable ⟨[[7]], 1⟩, [], ([], [])⟩,
      ⟨.initWait, [], ([], [1])⟩].foldl (iterate id) newScheduler
    sh.initialised = true ∧ sh.received.length = 1 ∧ sh.acks = [] ∧ sh.schedQueue = [] ∧ sh.openWindows = [1] :=
  ⟨rfl, rfl, rfl, rfl, rfl⟩

end Lotus.Sealer.Sched

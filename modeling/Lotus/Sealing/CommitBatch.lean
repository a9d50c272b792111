/-
# Batching the commits of sectors (`storage/pipeline/commit_batch.go`).

`AddCommit` queues a sector and waits; `maybeStartBatch` sends messages for the queue and answers. A batch in which every
sector fails its collateral look-up answers nobody, and the error of a batch does not reach a caller of `Flush`. Both hold
the lock, so each is one step.
-/
import Lotus.Types.Basic

namespace Lotus.Sealing
open List

structure CommitBatchRes where
  sectors : List Nat
  failedSectors : List (Nat × GoError)
  msg : Option Cid
  error : Option GoError

/-- `CommitBatcher`: the keys of its maps, the channels waiting for a sector, and what was sent on them. -/
structure CommitBatcher where
  todo : Finset Nat
  cutoffs : Finset Nat
  waiting : Nat → List Nat
  answers : List (Nat × Nat × CommitBatchRes)

structure BatchConfig where
  maxCommitBatch : Nat
  minCommitBatch : Nat
  aggregateAboveBaseFee : Int

/-- A call of `maybeStartBatch`: two constants of the build, the order of `todo`, and the answers. The head is a height and
a base fee, `send` the rest of `processBatch`. -/
structure Attempt where
  flush : Bool
  notif : Bool
  minAggregatedSectors : Nat
  upgradeSkyrHeight : Int
  config : Except GoError BatchConfig
  chainHead : Except GoError (Int × Int)
  order : List Nat
  batchHead : Except GoError Unit
  collateral : Nat → Except GoError Unit
  send : Except GoError Cid
  prepare : Except GoError Unit
  processSingle : Nat → Except GoError Cid

namespace Attempt
variable (c : Attempt)

/-- The loop of `processBatch`: the sectors, the failed ones, and the number of those with infos. -/
def gather (max : Nat) : List Nat → Nat → List Nat × List (Nat × GoError) × Nat
  | [], infos => ([], [], infos)
  | id :: order, infos =>
    if infos ≥ max then ([], [], infos)
    else
      match c.collateral id with
      | .error e =>
        let (sectors, failed, infos) := gather max order infos
        (id :: sectors, (id, e) :: failed, infos)
      | .ok _ =>
        let (sectors, failed, infos) := gather max order (infos + 1)
        (id :: sectors, failed, infos)

structure Outcome where
  res : List CommitBatchRes
  err : Option GoError
  failed : List Nat

def processBatch (max : Nat) : Outcome :=
  match c.batchHead with
  | .error e => ⟨[], some e, []⟩
  | .ok _ =>
    let (sectors, failed, infos) := c.gather max c.order 0
    if infos = 0 then ⟨[], none, failed.map (·.1)⟩
    else
      match c.send with
      | .error e => ⟨[⟨sectors, failed, none, none⟩], some e, failed.map (·.1)⟩
      | .ok mcid => ⟨[⟨sectors, failed, some mcid, none⟩], none, failed.map (·.1)⟩

def single (sn : Nat) : CommitBatchRes :=
  match c.processSingle sn with
  | .error e => ⟨[sn], [(sn, e)], none, none⟩
  | .ok mcid => ⟨[sn], [], some mcid, none⟩

def processIndividually : Outcome :=
  match c.prepare with
  | .error e => ⟨[], some e, []⟩
  | .ok _ => ⟨c.order.map c.single, none, []⟩

def blackedOut (height : Int) : Bool := height ≤ c.upgradeSkyrHeight ∧ c.upgradeSkyrHeight - height < 20

def individual (cfg : BatchConfig) (total : Nat) (height baseFee : Int) : Bool :=
  total < cfg.minCommitBatch ∨ total < c.minAggregatedSectors ∨ c.blackedOut height ∨
    cfg.aggregateAboveBaseFee ≠ 0 ∧ baseFee < cfg.aggregateAboveBaseFee

/-- `maybeStartBatch` before it sends the results. -/
def outcome (total : Nat) : Outcome :=
  if total = 0 then ⟨[], none, []⟩
  else
    match c.config with
    | .error e => ⟨[], some (.wrap "getting config" e), []⟩
    | .ok cfg =>
      if c.notif ∧ total < cfg.maxCommitBatch then ⟨[], none, []⟩
      else
        match c.chainHead with
        | .error e => ⟨[], some e, []⟩
        | .ok (height, baseFee) =>
          if c.individual cfg total height baseFee then c.processIndividually else c.processBatch cfg.maxCommitBatch

/-- What is sent: each sector with its result, in which the error is set. -/
def Outcome.sent (o : Outcome) : List (Nat × CommitBatchRes) :=
  o.res.flatMap fun r => r.sectors.map fun sn => (sn, { r with error := o.err.or r.error })

end Attempt

namespace CommitBatcher

def new : CommitBatcher := ⟨∅, ∅, fun _ => [], []⟩

variable (b : CommitBatcher)

/-- `AddCommit` up to its wait, with the new channel. -/
def addCommit (sn ch : Nat) : CommitBatcher :=
  { b with
    todo := insert sn b.todo
    cutoffs := insert sn b.cutoffs
    waiting := fun s => if s = sn then b.waiting sn ++ [ch] else b.waiting s }

def answer (sn : Nat) (r : CommitBatchRes) : CommitBatcher where
  todo := b.todo.erase sn
  cutoffs := b.cutoffs.erase sn
  waiting s := if s = sn then [] else b.waiting s
  answers := b.answers ++ (b.waiting sn).map fun ch => (sn, ch, r)

def deliver (sent : List (Nat × CommitBatchRes)) : CommitBatcher :=
  sent.foldl (fun b q => b.answer q.1 q.2) b

/-- `maybeStartBatch`, with the results that a caller of `Flush` gets. -/
def maybeStartBatch (c : Attempt) : CommitBatcher × List CommitBatchRes :=
  let o := c.outcome b.todo.card
  (b.deliver o.sent, o.res)

def Ranges (c : Attempt) : Prop := c.order.Nodup ∧ ∀ sn, sn ∈ c.order ↔ sn ∈ b.todo

inductive Reachable : CommitBatcher → Prop
  | new : Reachable new
  | addCommit {b : CommitBatcher} (sn ch : Nat) : Reachable b → Reachable (b.addCommit sn ch)
  | batch {b : CommitBatcher} {c : Attempt} : Reachable b → b.Ranges c → Reachable (b.maybeStartBatch c).1

def Keys : Prop := b.cutoffs = b.todo ∧ ∀ sn, sn ∈ b.todo ↔ b.waiting sn ≠ []

variable {sent : List (Nat × CommitBatchRes)}

theorem keys_deliver {b : CommitBatcher} (h : b.Keys) : (b.deliver sent).Keys := by
  induction sent generalizing b with
  | nil => exact h
  | cons q sent ih =>
    refine ih ⟨congrArg (·.erase q.1) h.1, fun sn => ?_⟩
    by_cases hsn : sn = q.1
    · simp [answer, hsn]
    · simp [answer, hsn, h.2 sn]

theorem Reachable.keys {b : CommitBatcher} (h : Reachable b) : b.Keys := by
  induction h with
  | new => exact ⟨rfl, by simp [CommitBatcher.new]⟩
  | @addCommit b sn ch _ ih =>
    refine ⟨by rw [CommitBatcher.addCommit, ih.1], fun s => ?_⟩
    by_cases hs : s = sn
    · simp [CommitBatcher.addCommit, hs]
    · simpa [CommitBatcher.addCommit, hs] using ih.2 s
  | batch _ _ ih => exact keys_deliver ih

/-- **The sending**: every waiter of a sector gets its result once, and the other sectors keep waiting. -/
theorem deliver_spec (hnd : (sent.map (·.1)).Nodup) (b : CommitBatcher) :
    (b.deliver sent).answers = b.answers ++ sent.flatMap (fun q => (b.waiting q.1).map fun ch => (q.1, ch, q.2)) ∧
      ∀ sn, sn ∉ sent.map (·.1) → (b.deliver sent).waiting sn = b.waiting sn := by
  induction sent generalizing b with
  | nil => simp [deliver]
  | cons q sent ih =>
    obtain ⟨hq, hnd⟩ := nodup_cons.mp hnd
    obtain ⟨hans, hwa⟩ := ih hnd (b.answer q.1 q.2)
    have ho (sn : Nat) (hne : sn ≠ q.1) : (b.answer q.1 q.2).waiting sn = b.waiting sn := if_neg hne
    refine ⟨?_, fun sn hsn => ?_⟩
    · refine hans.trans ?_
      rw [answer, append_assoc, flatMap_cons]
      congr 2
      refine flatMap_congr fun q' hq' => ?_
      have hne : q'.1 ≠ q.1 := fun heq => hq (mem_map.mpr ⟨q', hq', heq⟩)
      exact congrArg _ (ho q'.1 hne)
    · rw [map_cons, mem_cons, not_or] at hsn
      exact (hwa sn hsn.2).trans (ho sn hsn.1)

end CommitBatcher

namespace Attempt
variable {c : Attempt}

theorem gather_spec {max : Nat} {order : List Nat} {n : Nat} :
    (c.gather max order n).1 <+ order ∧ (∀ x ∈ (c.gather max order n).2.1, x.1 ∈ (c.gather max order n).1) ∧
      ((c.gather max order n).1 = [] → (c.gather max order n).2.2 = n) := by
  induction order generalizing n with
  | nil => simp [gather]
  | cons id order ih =>
    rw [gather]
    split_ifs
    · simp
    split
    · obtain ⟨hsu, hmem, -⟩ := @ih n
      refine ⟨hsu.cons_cons id, ?_, by simp⟩
      rintro x (_ | ⟨_, hx⟩)
      · exact mem_cons_self
      · exact mem_cons_of_mem _ (hmem x hx)
    · obtain ⟨hsu, hmem, -⟩ := @ih (n + 1)
      exact ⟨hsu.cons_cons id, fun x hx => mem_cons_of_mem _ (hmem x hx), by simp⟩

structure Outcome.Sound (o : Outcome) : Prop where
  nodup : (o.res.flatMap (·.sectors)).Nodup
  carries : ∀ r ∈ o.res, ∀ sn ∈ r.sectors, r.msg.isSome ∨ sn ∈ r.failedSectors.map (·.1) ∨ o.err.isSome
  plain : ∀ r ∈ o.res, r.error = none ∧ r.sectors ≠ []
  failed : o.res ≠ [] → ∀ sn ∈ o.failed, sn ∈ o.res.flatMap (·.sectors)

theorem Outcome.Sound.empty {err : Option GoError} {failed : List Nat} : (⟨[], err, failed⟩ : Outcome).Sound :=
  ⟨by simp, by simp, by simp, by simp⟩

section
variable (hnd : c.order.Nodup)
include hnd

theorem processIndividually_sound : c.processIndividually.Sound := by
  unfold processIndividually
  split
  · exact .empty
  have hsi (sn : Nat) : (c.single sn).sectors = [sn] ∧ (c.single sn).error = none ∧
      ((c.single sn).msg.isSome ∨ sn ∈ (c.single sn).failedSectors.map (·.1)) := by
    unfold single
    split <;> simp
  refine ⟨by simpa [flatMap_map, hsi] using hnd, ?_, ?_, by simp⟩
  · rintro r hr s hs
    obtain ⟨sn, -, rfl⟩ := mem_map.mp hr
    rw [(hsi sn).1, mem_singleton] at hs
    subst hs
    exact (hsi s).2.2.imp_right .inl
  · rintro r hr
    obtain ⟨sn, -, rfl⟩ := mem_map.mp hr
    exact ⟨(hsi sn).2.1, by simp [(hsi sn).1]⟩

theorem processBatch_sound (max : Nat) : (c.processBatch max).Sound := by
  unfold processBatch
  split
  · exact .empty
  obtain ⟨hsu, hmem, hn⟩ := @gather_spec c max c.order 0
  dsimp only
  split
  · exact .empty
  rename_i hinf
  have hne : (c.gather max c.order 0).1 ≠ [] := fun h => hinf (hn h)
  have hse := hsu.nodup hnd
  split
  all_goals exact ⟨by simpa using hse, by simp, by simpa using hne, by simpa using hmem⟩

theorem outcome_sound (total : Nat) : (c.outcome total).Sound := by
  fun_cases outcome with
  | case5 => exact processIndividually_sound hnd
  | case6 => exact processBatch_sound hnd _
  | _ => exact .empty
end

/-- The attempt gets to the loop of `processBatch`. -/
def Batches (c : Attempt) (total : Nat) (cfg : BatchConfig) : Prop :=
  total ≠ 0 ∧ c.config = .ok cfg ∧ ¬ (c.notif = true ∧ total < cfg.maxCommitBatch) ∧
    (∃ height baseFee, c.chainHead = .ok (height, baseFee) ∧ c.individual cfg total height baseFee = false) ∧
    c.batchHead = .ok ()

/-- In a batch that takes any sector the collateral of some sector is found, and the steps after the look-ups of a batch that
is flushed do not fail. -/
def Good (c : Attempt) (todo : Finset Nat) : Prop :=
  ∀ cfg, c.Batches todo.card cfg → 0 < cfg.maxCommitBatch →
    (∃ sn ∈ todo, (c.collateral sn).isOk = true) ∧ (c.flush = true → c.send.isOk = true)

theorem gather_failed {max n : Nat} {order : List Nat} (hn : n < max) (h : ∀ sn ∈ order, (c.collateral sn).isOk = false) :
    (c.gather max order n).2.2 = n ∧ (c.gather max order n).2.1.map (·.1) = order := by
  induction order with
  | nil => exact ⟨rfl, rfl⟩
  | cons id order ih =>
    obtain ⟨hid, hrest⟩ := forall_mem_cons.mp h
    obtain ⟨hinfos, hfailed⟩ := ih hrest
    rw [gather, if_neg (by omega)]
    split
    · exact ⟨hinfos, congrArg (id :: ·) hfailed⟩
    · rename_i hok
      rw [hok] at hid
      cases hid

theorem gather_infos {max n : Nat} {order : List Nat} :
    n ≤ (c.gather max order n).2.2 ∧ (n < max → (∃ sn ∈ order, (c.collateral sn).isOk = true) → n < (c.gather max order n).2.2) := by
  induction order generalizing n with
  | nil => exact ⟨Nat.le_refl n, by simp⟩
  | cons id order ih =>
    rw [gather]
    split_ifs
    · exact ⟨Nat.le_refl n, fun hn => absurd hn (by omega)⟩
    split
    · rename_i e he
      refine ⟨(@ih n).1, ?_⟩
      rintro hn ⟨sn, hsn, hok⟩
      refine (@ih n).2 hn ⟨sn, (mem_cons.mp hsn).resolve_left ?_, hok⟩
      rintro rfl
      rw [he] at hok
      cases hok
    · have hle := (@ih (n + 1)).1
      exact ⟨Nat.le_of_succ_le hle, fun _ _ => hle⟩

/-- What `processBatch` comes to, by the answers of the look-ups and of the later steps. -/
theorem processBatch_good {max : Nat} (hhead : c.batchHead = .ok ()) (hne : c.order ≠ []) :
    (((c.processBatch max).res = [] → (c.processBatch max).failed = []) ∧
        (c.flush = true → (c.processBatch max).res ≠ [] → (c.processBatch max).err = none)) ↔
      (0 < max → (∃ sn ∈ c.order, (c.collateral sn).isOk = true) ∧ (c.flush = true → c.send.isOk = true)) := by
  unfold processBatch
  rw [hhead]
  dsimp only
  by_cases hmax : 0 < max
  swap
  · have hno : c.gather max c.order 0 = ([], [], 0) := by
      obtain ⟨id, order, ho⟩ := exists_cons_of_ne_nil hne
      rw [ho, gather, if_pos (by omega)]
    simp [hno, hmax]
  by_cases hex : ∃ sn ∈ c.order, (c.collateral sn).isOk = true
  · have hinf := (@gather_infos c max 0 c.order).2 hmax hex
    rw [if_neg (Nat.ne_of_gt hinf)]
    cases c.send with
    | error e =>
      refine ⟨fun h _ => ⟨hex, fun hfl => absurd (h.2 hfl (by simp)) (by simp)⟩, fun h => ⟨by simp, fun hfl => ?_⟩⟩
      cases (h hmax).2 hfl
    | ok mcid => exact iff_of_true ⟨by simp, fun _ _ => rfl⟩ fun _ => ⟨hex, fun _ => rfl⟩
  · have hall : ∀ sn ∈ c.order, (c.collateral sn).isOk = false := fun sn hsn =>
      Bool.eq_false_iff.mpr fun hok => hex ⟨sn, hsn, hok⟩
    obtain ⟨hinf, hfailed⟩ := gather_failed hmax hall
    rw [if_pos hinf, hfailed]
    exact iff_of_false (fun h => hne (h.1 rfl)) fun h => hex (h hmax).1

theorem outcome_good {todo : Finset Nat} (horder : ∀ sn, sn ∈ c.order ↔ sn ∈ todo) :
    (((c.outcome todo.card).res = [] → (c.outcome todo.card).failed = []) ∧
        (c.flush = true → (c.outcome todo.card).res ≠ [] → (c.outcome todo.card).err = none)) ↔ c.Good todo := by
  fun_cases outcome with
  | case6 h0 cfg hcfg hnotif height baseFee hhead hind =>
    cases hbh : c.batchHead with
    | error e =>
      rw [processBatch, hbh]
      exact iff_of_true ⟨fun _ => rfl, fun _ h => absurd rfl h⟩ fun _ h => by cases hbh.symm.trans h.2.2.2.2
    | ok u =>
      obtain ⟨sn, hsn⟩ := Finset.card_ne_zero.mp h0
      rw [processBatch_good hbh (ne_nil_of_mem ((horder sn).mpr hsn))]
      simp only [horder]
      constructor
      · rintro h cfg' ⟨-, hcfg', -⟩
        cases hcfg.symm.trans hcfg'
        exact h
      · exact fun h => h cfg ⟨h0, hcfg, hnotif, ⟨height, baseFee, hhead, by simpa using hind⟩, hbh⟩
  | case5 h0 cfg hcfg hnotif height baseFee hhead hind =>
    refine iff_of_true ⟨fun _ => ?_, fun _ hres => ?_⟩ ?_
    · unfold processIndividually
      split <;> rfl
    · unfold processIndividually at hres ⊢
      split <;> simp_all
    · rintro cfg' ⟨-, hcfg', -, ⟨_, _, hhead', hind'⟩, -⟩
      cases hcfg.symm.trans hcfg'
      cases hhead.symm.trans hhead'
      simp [hind] at hind'
  | _ =>
    -- no result, and no batch
    refine iff_of_true ⟨fun _ => rfl, fun _ h => absurd rfl h⟩ fun cfg ⟨h0, hcfg, hnotif, ⟨height, baseFee, hhead, _⟩, _⟩ => ?_
    grind

end Attempt

namespace CommitBatcher

def Agrees (sent : List (Nat × CommitBatchRes)) (res : List CommitBatchRes) : Prop :=
  ∀ q ∈ sent, ∃ r ∈ res, r.sectors = q.2.sectors ∧ r.error = q.2.error

theorem agrees_iff {o : Attempt.Outcome} (h : o.Sound) : Agrees o.sent o.res ↔ (o.res ≠ [] → o.err = none) := by
  constructor
  · intro hag hne
    obtain ⟨r, hr⟩ := exists_mem_of_ne_nil _ hne
    obtain ⟨sn, hsn⟩ := exists_mem_of_ne_nil _ (h.plain r hr).2
    obtain ⟨r', hr', -, herr⟩ := hag (sn, { r with error := o.err.or r.error }) (mem_flatMap.mpr ⟨r, hr, mem_map_of_mem hsn⟩)
    rw [(h.plain r' hr').1, (h.plain r hr).1, Option.or_none] at herr
    exact herr.symm
  · intro hok q hq
    obtain ⟨r, hr, hq⟩ := mem_flatMap.mp hq
    obtain ⟨sn, -, rfl⟩ := mem_map.mp hq
    exact ⟨r, hr, rfl, by rw [hok (ne_nil_of_mem hr), Option.none_or]⟩

def fourWaiting : CommitBatcher := (((new.addCommit 1 0).addCommit 2 1).addCommit 3 2).addCommit 4 3

def fourBatch (collateral : Nat → Except GoError Unit) (send : Except GoError Cid) : Attempt :=
  ⟨true, false, 4, 0, .ok ⟨9, 4, 0⟩, .ok (1, 0), [1, 2, 3, 4], .ok (), collateral, send, .ok (), fun _ => .ok ⟨[]⟩⟩

end CommitBatcher
end Lotus.Sealing

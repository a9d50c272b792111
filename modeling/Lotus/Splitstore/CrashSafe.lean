/-
# What a crash leaves of a mark set.

`BeginCriticalSection` answers for the keys of calls that returned before it: they are in the database, in the batch it
takes, or in one that another goroutine is writing. For the last it waits only if it takes no batch itself, and only for
counted goroutines.
-/
import Lotus.Splitstore.BadgerMarkSet

namespace Lotus.Splitstore
open Lib.Lts BadgerMarkSet Finset List Option Bool

namespace BadgerMarkSet
variable {κ : Type} [DecidableEq κ]

/-! ## No key is forgotten -/

/-- A key of a returned call is somewhere; in a critical section nothing is pending. -/
structure Base (s : BadgerMarkSet κ) : Prop where
  returned : ∀ key ∈ s.returned, key ∈ s.db ∨ key ∈ s.pend ∨ s.InBatch key
  pend : s.persist = true → s.pend = ∅

variable {s s' : BadgerMarkSet κ} {key : κ}

theorem inBatch_insert (h : Books s) : s.nextBatch.InBatch key ↔ key ∈ s.pend ∨ s.InBatch key := by
  constructor
  · rintro ⟨seqno, batch, hlk, hk⟩
    rcases GoMap.lookup_insert_some hlk with ⟨rfl, rfl⟩ | ⟨-, hlk⟩
    · exact .inl hk
    · exact .inr ⟨seqno, batch, hlk, hk⟩
  rintro (hk | ⟨seqno, batch, hlk, hk⟩)
  · exact ⟨s.seqno, s.pend, AList.lookup_insert s.writing, hk⟩
  · have hne : seqno ≠ s.seqno := Nat.ne_of_lt (h.fresh seqno batch hlk)
    exact ⟨seqno, batch, (AList.lookup_insert_ne hne).trans hlk, hk⟩

variable {i seqno : Nat} {batch : Finset κ}
omit [DecidableEq κ] in
theorem InBatch.erase (h : s.InBatch key) (hwr : s'.writing = s.writing.erase seqno)
    (hlk : s.writing.lookup seqno = some batch) : s'.InBatch key ∨ key ∈ batch := by
  obtain ⟨n, held, hn, hk⟩ := h
  by_cases hs : n = seqno
  · subst hs
    cases hlk.symm.trans hn
    exact .inr hk
  · exact .inl ⟨n, held, by rw [hwr, AList.lookup_erase_ne hs, hn], hk⟩

variable {pc : WritePc κ} {caller : Caller κ}

theorem Books.batch_db (h : Books s) (hi : s.calls i = some (.write caller seqno pc))
    (hpc : (∃ persist, pc = .decided persist) ∨ pc = .synced) :
    ∃ batch, s.writing.lookup seqno = some batch ∧ caller.keys ⊆ batch ∧ batch ⊆ s.db := by
  obtain ⟨batch, hlk, hk, hfi⟩ := h.batch i caller seqno pc hi
  refine ⟨batch, hlk, hk, ?_⟩
  rcases hpc with ⟨persist, rfl⟩ | rfl
  · exact hfi
  · exact Subset.trans hfi h.synced_db

theorem Base.putMany (h : Base s) (hbooks : Books s) (i : Nat) (keys : List κ) : Base (s.putMany i keys) := by
  unfold BadgerMarkSet.putMany
  dsimp only
  split_ifs with hk
  · refine ⟨fun key hke => ?_, fun hps => absurd hps hk.1⟩
    rcases mem_union.mp hke with hold | hnew
    · exact (h.returned key hold).imp id (Or.imp (mem_union_left _) id)
    · exact .inr (.inl (mem_union_right _ hnew))
  have hpe : Books { s with pend := s.pend ∪ keys.toFinset } := hbooks.frame
  refine ⟨fun key hke => (h.returned key hke).imp id fun ho => .inr ?_, fun _ => rfl⟩
  exact (inBatch_insert hpe).mpr (ho.imp (mem_union_left _) id)

variable {keys : List κ}

theorem Base.returns (h : Base s) (hk : ∀ key ∈ keys, key ∈ s.db ∨ key ∈ s.pend ∨ s.InBatch key) : Base (s.returns i keys) := by
  refine ⟨fun key hke => ?_, h.pend⟩
  exact (mem_union.mp hke).elim (h.returned key) fun hnew => hk key (mem_toFinset.mp hnew)

theorem found {key : κ} {b : Bool} (h : (s.tryPending key || b) = true) (hdb : b = true → key ∈ s.db) :
    key ∈ s.db ∨ key ∈ s.pend ∨ s.InBatch key :=
  (or_eq_true_iff.mp h).symm.imp hdb tryPending_iff.mp

section
variable (h : Base s)
include h

theorem Base.visit (i : Nat) (key : κ) : Base (s.visit i key) := by
  unfold BadgerMarkSet.visit
  split_ifs with hfo
  · exact h.returns (forall_mem_singleton.mpr (found hfo of_decide_eq_true))
  · exact ⟨h.returned, h.pend⟩

theorem Base.upgrade (hbooks : Books s) (i : Nat) (key : κ) (version : Nat) : Base (s.upgrade i key version) := by
  unfold BadgerMarkSet.upgrade
  split_ifs with hfo
  · refine h.returns (forall_mem_singleton.mpr (found hfo fun hdb => ?_))
    exact of_decide_eq_true (and_eq_true_iff.mp hdb).2
  · exact h.putMany hbooks i [key]

theorem Base.beginCriticalSection (hbooks : Books s) (i : Nat) : Base (s.beginCriticalSection i) := by
  unfold BadgerMarkSet.beginCriticalSection
  split_ifs with hps hpe
  · exact ⟨h.returned, h.pend⟩
  · exact ⟨h.returned, fun _ => hpe⟩
  · exact ⟨fun key hk => (h.returned key hk).imp id fun ho => .inr ((inBatch_insert hbooks).mpr ho), fun _ => rfl⟩

theorem Base.finish (i : Nat) (hlk : s.writing.lookup seqno = some batch)
    (hk : caller.keys ⊆ batch) (hdb : batch ⊆ s.db) : Base (s.finish i caller seqno) := by
  have hre : ∀ key ∈ s.returned, key ∈ s.db ∨ key ∈ s.pend ∨ (s.finish i caller seqno).InBatch key := by
    intro key hke
    rcases h.returned key hke with hin | hin | hin
    · exact .inl hin
    · exact .inr (.inl hin)
    · have hwr : (s.finish i caller seqno).writing = s.writing.erase seqno := by cases caller <;> rfl
      exact (hin.erase hwr hlk).elim (fun hin => .inr (.inr hin)) fun hmem => .inl (hdb hmem)
  cases caller with
  | mark keys =>
    refine ⟨fun key hke => ?_, h.pend⟩
    exact (mem_union.mp hke).elim (hre key) fun hnew => .inl (hdb (hk hnew))
  | beginCriticalSection => exact ⟨hre, h.pend⟩

theorem Base.write (hbooks : Books s) (hi : s.calls i = some (.write caller seqno pc)) :
    Base (s.write i caller seqno pc) := by
  cases pc with
  | taken | flushed => exact ⟨h.returned, h.pend⟩
  | begun held => exact ⟨fun key hke => (h.returned key hke).imp (mem_union_left _) id, h.pend⟩
  | decided persist =>
    cases persist with
    | false =>
      obtain ⟨batch, hlk, hk, hdb⟩ := hbooks.batch_db hi (.inl ⟨false, rfl⟩)
      exact h.finish i hlk hk hdb
    | true => exact ⟨h.returned, h.pend⟩
  | synced =>
    obtain ⟨batch, hlk, hk, hdb⟩ := hbooks.batch_db hi (.inr rfl)
    exact h.finish i hlk hk hdb
end

/-! ## What a critical section relies on -/

def AllSync (s : BadgerMarkSet κ) : Prop := ∀ i caller seqno, s.calls i ≠ some (.write caller seqno (.decided false))

variable {next : Option (Call κ)}
omit [DecidableEq κ] in
theorem AllSync.goes (h : s.AllSync) (hca : s'.calls = (s.goes i next).calls)
    (hn : ∀ caller seqno, next ≠ some (.write caller seqno (.decided false))) : s'.AllSync := by
  intro j caller seqno hj
  rw [hca] at hj
  rcases goes_calls.mp hj with ⟨-, heq⟩ | ⟨-, hold⟩
  · exact hn caller seqno heq
  · exact h j caller seqno hold

/-- No key of a returned call can be lost; the database is synced or will be. -/
def Safe (s : BadgerMarkSet κ) : Prop :=
  s.returned ⊆ s.synced ∧ ∀ key ∈ s.db, key ∈ s.synced ∨ s.InBatch key

/-- What another goroutine's step does to a critical section, begun or about to be. -/
structure Rely (s s' : BadgerMarkSet κ) : Prop where
  db : s.db ⊆ s'.db
  synced : s.synced ⊆ s'.synced
  allSync : s.AllSync → s'.AllSync
  returned : ∀ key ∈ s'.returned, key ∈ s.returned ∨
    key ∈ s'.db ∧ (s.AllSync → (∀ key ∈ s.db, key ∈ s.synced ∨ s.InBatch key) → key ∈ s'.synced)
  written : ∀ key ∈ s'.db, key ∈ s.db ∨ s'.InBatch key
  inBatch : s.AllSync → ∀ key, s.InBatch key → s'.InBatch key ∨ key ∈ s'.synced
  counted : ∀ key, s.Counted key → s'.Counted key ∨ key ∈ s'.db

section
omit [DecidableEq κ]

theorem Rely.safe (h : Rely s s') (hsy : s.AllSync) (hsa : s.Safe) : s'.Safe := by
  refine ⟨fun key hk => ?_, fun key hk => ?_⟩
  · rcases h.returned key hk with hold | ⟨-, hnew⟩
    · exact h.synced (hsa.1 hold)
    · exact hnew hsy hsa.2
  rcases h.written key hk with hold | hin
  · rcases hsa.2 key hold with hs | hin
    · exact .inl (h.synced hs)
    · exact (h.inBatch hsy key hin).symm
  · exact .inr hin

theorem Rely.returned_or (h : Rely s s') {P : κ → Prop} (hs : ∀ key ∈ s.returned, key ∈ s.db ∨ P key) :
    ∀ key ∈ s'.returned, key ∈ s'.db ∨ P key := by
  intro key hk
  rcases h.returned key hk with hold | ⟨hdb, -⟩
  · exact (hs key hold).imp (fun hmem => h.db hmem) id
  · exact .inl hdb

theorem Rely.returned_db (h : Rely s s') (hs : s.returned ⊆ s.db) : s'.returned ⊆ s'.db := by
  intro key hk
  have hor := h.returned_or (P := fun _ => False) (fun key hk => .inl (hs hk)) key hk
  exact hor.resolve_right id

theorem Rely.goes (hidle : Call.Idle (s.calls i)) {call : Option (Call κ)} (hca : Call.Idle call) : Rely s (s.goes i call) := by
  refine ⟨Subset.refl _, Subset.refl _, fun hsy => hsy.goes rfl fun _ _ => hca _ _ _, fun _ => .inl,
    fun _ => .inl, fun _ _ => .inl, ?_⟩
  rintro key ⟨j, caller, seqno, pc, batch, hj, hpc, hrest⟩
  refine .inl ⟨j, caller, seqno, pc, batch, goes_calls.mpr (.inr ⟨?_, hj⟩), hpc, hrest⟩
  rintro rfl
  exact hidle caller seqno pc hj
end

theorem Rely.returns (hidle : Call.Idle (s.calls i)) (hdb : ∀ key ∈ keys, key ∈ s.db)
    (hk : ∀ key ∈ keys, s.InBatch key → key ∈ s.synced) : Rely s (s.returns i keys) := by
  have hg : Rely s (s.goes i none) := Rely.goes hidle idle_none
  refine ⟨hg.db, hg.synced, hg.allSync, fun key hke => ?_, hg.written, hg.inBatch, hg.counted⟩
  rcases mem_union.mp hke with hold | hnew
  · exact .inl hold
  · rw [List.mem_toFinset] at hnew
    exact .inr ⟨hdb key hnew, fun _ hsa => (hsa key (hdb key hnew)).elim id (hk key hnew)⟩

theorem Rely.take (h : Books s) (hidle : Call.Idle (s.calls i)) (caller : Caller κ) :
    Rely s (s.nextBatch.goes i (some (.write caller s.seqno .taken))) := by
  have hin : ∀ {key}, s.InBatch key → s.nextBatch.InBatch key := fun hk => (inBatch_insert h).mpr (.inr hk)
  refine ⟨Subset.refl _, Subset.refl _, fun hsy => hsy.goes rfl (by simp), fun _ => .inl, fun _ => .inl,
    fun _ _ hk => .inl (hin hk), ?_⟩
  rintro key ⟨j, c, n, pc, batch, hj, hpc, hlk, hk⟩
  refine .inl ⟨j, c, n, pc, batch, goes_calls.mpr (.inr ⟨?_, hj⟩), hpc, ?_, hk⟩
  · rintro rfl
    exact hidle c n pc hj
  · exact (AList.lookup_insert_ne (Nat.ne_of_lt (h.fresh n batch hlk))).trans hlk

omit [DecidableEq κ] in
theorem Rely.move {pc' : WritePc κ} (hca : s'.calls = (s.goes i (some (.write caller seqno pc'))).calls)
    (hi : ∃ pc, s.calls i = some (.write caller seqno pc)) (hta : pc' ≠ .taken) (hd : pc' ≠ .decided false)
    (hwr : s'.writing = s.writing) (hre : s'.returned = s.returned) (hdb : s.db ⊆ s'.db)
    (hsyn : s.synced ⊆ s'.synced) (hwt : ∀ key ∈ s'.db, key ∈ s.db ∨ s.InBatch key) : Rely s s' := by
  have hin : ∀ {key}, s.InBatch key → s'.InBatch key := fun hk => by
    obtain ⟨n, batch, hlk, hmem⟩ := hk
    exact ⟨n, batch, hwr ▸ hlk, hmem⟩
  refine ⟨hdb, hsyn, fun hsy => hsy.goes hca fun _ _ heq => hd (write_inj.mp heq).2.2, fun key hk => .inl (hre ▸ hk),
    fun key hk => (hwt key hk).imp id hin, fun _ _ hk => .inl (hin hk), ?_⟩
  rintro key ⟨j, c, n, pc, batch, hj, hpc, hlk, hk⟩
  obtain ⟨pc0, hi⟩ := hi
  by_cases hij : j = i
  · subst hij
    obtain ⟨rfl, rfl, rfl⟩ := write_inj.mp (hi.symm.trans hj)
    exact .inl ⟨j, caller, seqno, pc', batch, hca ▸ goes_calls.mpr (.inl ⟨rfl, rfl⟩), hta, hwr ▸ hlk, hk⟩
  · exact .inl ⟨j, c, n, pc, batch, hca ▸ goes_calls.mpr (.inr ⟨hij, hj⟩), hpc, hwr ▸ hlk, hk⟩

theorem Rely.done (hi : s.calls i = some (.write caller seqno pc)) (hlk : s.writing.lookup seqno = some batch)
    (hk : caller.keys ⊆ batch) (hdb : batch ⊆ s.db) (hsy : s.AllSync → batch ⊆ s.synced)
    (hca : s'.calls = (s.goes i none).calls) (hwr : s'.writing = s.writing.erase seqno) (hdb' : s'.db = s.db)
    (hs' : s'.synced = s.synced) (hre : s'.returned = s.returned ∪ caller.keys) : Rely s s' := by
  refine ⟨hdb' ▸ Subset.refl _, hs' ▸ Subset.refl _, fun ha => ha.goes hca (by simp), ?_, ?_, ?_, ?_⟩
  · intro key hke
    rw [hre] at hke
    rcases mem_union.mp hke with hold | hnew
    · exact .inl hold
    · exact .inr ⟨hdb' ▸ hdb (hk hnew), fun ha _ => hs' ▸ hsy ha (hk hnew)⟩
  · intro key hke
    exact .inl (hdb' ▸ hke)
  · intro ha key hke
    exact (hke.erase hwr hlk).imp id fun hmem => hs' ▸ hsy ha hmem
  rintro key ⟨j, c, n, p, held, hj, hp, hn, hke⟩
  by_cases hs : n = seqno
  · subst hs
    cases hlk.symm.trans hn
    exact .inr (hdb' ▸ hdb hke)
  refine .inl ⟨j, c, n, p, held, hca ▸ goes_calls.mpr (.inr ⟨?_, hj⟩), hp, ?_, hke⟩
  · rintro rfl
    obtain ⟨-, hsa, -⟩ := write_inj.mp (hi.symm.trans hj)
    exact hs hsa.symm
  · rw [hwr, AList.lookup_erase_ne hs, hn]

/-! ## The critical section -/

/-- What holds while `BeginCriticalSection` is at this place. -/
def Secured (s : BadgerMarkSet κ) : Call κ → Prop
  | .upgrade _ _ => True
  | .write (.mark _) _ _ => True
  | .write .beginCriticalSection seqno .taken =>
    s.AllSync ∧ ∀ key ∈ s.returned, key ∈ s.db ∨ ∃ batch, s.writing.lookup seqno = some batch ∧ key ∈ batch
  | .write .beginCriticalSection _ (.begun batch) => s.AllSync ∧ ∀ key ∈ s.returned, key ∈ s.db ∨ key ∈ batch
  | .write .beginCriticalSection _ .flushed | .write .beginCriticalSection _ (.decided _) => s.AllSync ∧ s.returned ⊆ s.db
  | .write .beginCriticalSection _ .synced => s.AllSync ∧ s.Safe
  -- writers that do not sync may still be there
  | .wait => ∀ key ∈ s.returned, key ∈ s.db ∨ s.Counted key
  | .sync => s.AllSync ∧ s.returned ⊆ s.db

variable {call : Call κ}
omit [DecidableEq κ] in
theorem Rely.secured (h : Rely s s')
    (hlk : ∀ seqno pc, call = .write .beginCriticalSection seqno pc → s'.writing.lookup seqno = s.writing.lookup seqno)
    (hs : s.Secured call) : s'.Secured call := by
  cases call with
  | upgrade key version => trivial
  | write caller seqno pc =>
    cases caller with
    | mark keys => trivial
    | beginCriticalSection =>
      cases pc with
      | taken =>
        refine ⟨h.allSync hs.1, h.returned_or ?_⟩
        rw [hlk seqno .taken rfl]
        exact hs.2
      | begun batch => exact ⟨h.allSync hs.1, h.returned_or hs.2⟩
      | flushed | decided persist => exact ⟨h.allSync hs.1, h.returned_db hs.2⟩
      | synced => exact ⟨h.allSync hs.1, h.safe hs.1 hs.2⟩
  | wait =>
    intro key hk
    rcases h.returned key hk with hold | ⟨hdb, -⟩
    · rcases hs key hold with hdb | hco
      · exact .inl (h.db hdb)
      · exact (h.counted key hco).symm
    · exact .inl hdb
  | sync => exact ⟨h.allSync hs.1, h.returned_db hs.2⟩

/-- A critical section: at most one call is about to begin it, and then it is not begun. -/
structure Phase (s : BadgerMarkSet κ) : Prop where
  began : s.began = true → s.persist = true ∧ s.AllSync ∧ s.Safe
  secured : ∀ i call, s.calls i = some call → s.Secured call
  only : ∀ i call, s.calls i = some call → call.begins = true →
    s.persist = true ∧ s.began = false ∧ ∀ j call', s.calls j = some call' → call'.begins = true → j = i

section
omit [DecidableEq κ]

theorem secured_of_not_begins (h : call.begins ≠ true) : s.Secured call := by
  cases call with
  | upgrade key version => trivial
  | write caller seqno pc =>
    cases caller with
    | mark keys => trivial
    | beginCriticalSection => exact absurd rfl h
  | wait | sync => exact absurd rfl h

theorem Phase.of_rely (h : Phase s) (hps : s'.persist = s.persist) (hbe : s'.began = s.began)
    (hca : ∀ j call, s'.calls j = some call → call.begins = true → s.calls j = some call)
    (hlk : ∀ j seqno pc, s.calls j = some (.write .beginCriticalSection seqno pc) → s'.writing.lookup seqno = s.writing.lookup seqno)
    (hre : s.persist = true → Rely s s') : Phase s' := by
  refine ⟨fun hb => ?_, fun j call hj => ?_, fun j call hj hbeg => ?_⟩
  · rw [hbe] at hb
    obtain ⟨hp, hsy, hsa⟩ := h.began hb
    exact ⟨hps.trans hp, (hre hp).allSync hsy, (hre hp).safe hsy hsa⟩
  · by_cases hbeg : call.begins = true
    · have hold := hca j call hj hbeg
      refine (hre (h.only j call hold hbeg).1).secured (fun seqno pc heq => ?_) (h.secured j call hold)
      exact hlk j seqno pc (heq ▸ hold)
    · exact secured_of_not_begins hbeg
  · obtain ⟨hp, hb, ho⟩ := h.only j call (hca j call hj hbeg) hbeg
    exact ⟨hps.trans hp, hbe.trans hb, fun j' call' hj' hb' => ho j' call' (hca j' call' hj' hb') hb'⟩

theorem Phase.own (h : Phase s) (hi : s.calls i = some call) (hbeg : call.begins = true)
    (hca : s'.calls = (s.goes i next).calls) (hps : s'.persist = s.persist) (hn : ∀ call', next = some call' → s'.Secured call')
    (hbe : next = none ∧ s'.AllSync ∧ s'.Safe ∨ s'.began = s.began) : Phase s' := by
  obtain ⟨hp, hb, ho⟩ := h.only i call hi hbeg
  -- no other call begins the section
  have hoth : ∀ j call', s'.calls j = some call' → call'.begins = true → j = i ∧ next = some call' := by
    intro j call' hj hbeg'
    rw [hca] at hj
    rcases goes_calls.mp hj with hown | ⟨hij, hold⟩
    · exact hown
    · exact absurd (ho j call' hold hbeg') hij
  refine ⟨fun hbe' => ?_, fun j call' hj => ?_, fun j call' hj hbeg' => ?_⟩
  · rcases hbe with ⟨-, hsa⟩ | hsame
    · exact ⟨hps.trans hp, hsa⟩
    · rw [hsame, hb] at hbe'
      cases hbe'
  · by_cases hbeg' : call'.begins = true
    · exact hn call' (hoth j call' hj hbeg').2
    · exact secured_of_not_begins hbeg'
  obtain ⟨rfl, hn'⟩ := hoth j call' hj hbeg'
  refine ⟨hps.trans hp, ?_, fun j' call'' hj' hb' => (hoth j' call'' hj' hb').1⟩
  rcases hbe with ⟨hno, -⟩ | hsame
  · rw [hno] at hn'
    cases hn'
  · exact hsame.trans hb

theorem calls_of_begins (hn : ∀ call, next = some call → call.begins = false) (j : Nat) (call : Call κ)
    (hj : (s.goes i next).calls j = some call) (hb : call.begins = true) : s.calls j = some call := by
  rcases goes_calls.mp hj with ⟨-, heq⟩ | ⟨-, hold⟩
  · rw [hn call heq] at hb
    cases hb
  · exact hold

theorem begins_none (call : Call κ) (h : none = some call) : call.begins = false := by cases h
end

theorem Phase.putMany (h : Phase s) (hbooks : Books s) (hidle : Call.Idle (s.calls i)) (keys : List κ) :
    Phase (s.putMany i keys) := by
  unfold BadgerMarkSet.putMany
  dsimp only
  split_ifs with hk
  · exact h.of_rely rfl rfl (calls_of_begins begins_none) (fun _ _ _ _ => rfl) fun hps => absurd hps hk.1
  have hpe : Books { s with pend := s.pend ∪ keys.toFinset } := hbooks.frame
  refine h.of_rely rfl rfl (calls_of_begins fun call heq => ?_) (fun j seqno pc hj => ?_) fun _ => ?_
  · cases heq
    rfl
  · obtain ⟨batch, hlk, -⟩ := hbooks.batch j _ seqno pc hj
    exact AList.lookup_insert_ne (Nat.ne_of_lt (hbooks.fresh seqno batch hlk))
  · have hre := Rely.take hpe hidle (.mark keys)
    exact ⟨hre.db, hre.synced, hre.allSync, hre.returned, hre.written, hre.inBatch, hre.counted⟩

section
variable (h : Phase s) (hbooks : Books s) (hbase : Base s) (hidle : Call.Idle (s.calls i))
include h hbooks hbase hidle

theorem Phase.returns (hk : key ∈ s.db ∨ key ∈ s.pend ∨ s.InBatch key)
    (hsd : s.persist = true → s.InBatch key → key ∈ s.synced) : Phase (s.returns i [key]) := by
  refine h.of_rely rfl rfl (calls_of_begins begins_none) (fun _ _ _ _ => rfl) fun hps => ?_
  refine Rely.returns hidle (forall_mem_singleton.mpr ?_) (forall_mem_singleton.mpr (hsd hps))
  rcases hk with hdb | hpe | hin
  · exact hdb
  · rw [hbase.pend hps] at hpe
    exact absurd hpe (notMem_empty key)
  · exact hbooks.synced_db (hsd hps hin)

section
variable (hsd : s.persist = true → s.InBatch key → key ∈ s.synced)
include hsd

theorem Phase.visit : Phase (s.visit i key) := by
  unfold BadgerMarkSet.visit
  split_ifs with hfo
  · exact h.returns hbooks hbase hidle (found hfo of_decide_eq_true) hsd
  refine h.of_rely rfl rfl (calls_of_begins fun call heq => ?_) (fun _ _ _ _ => rfl) fun _ => ?_
  · cases heq
    rfl
  · exact Rely.goes hidle fun _ _ _ heq => by cases heq

theorem Phase.upgrade (version : Nat) : Phase (s.upgrade i key version) := by
  unfold BadgerMarkSet.upgrade
  split_ifs with hfo
  · exact h.returns hbooks hbase hidle (found hfo fun hdb => of_decide_eq_true (and_eq_true_iff.mp hdb).2) hsd
  · exact h.putMany hbooks hidle [key]
end
end

theorem Books.batch_synced (h : Books s) (hi : s.calls i = some (.write caller seqno pc))
    (hpc : pc = .decided false ∨ pc = .synced) (hlk : s.writing.lookup seqno = some batch) (hsy : s.AllSync) :
    batch ⊆ s.synced := by
  rcases hpc with rfl | rfl
  · exact absurd hi (hsy i caller seqno)
  obtain ⟨batch', hlk', -, hfi⟩ := h.batch i caller seqno .synced hi
  cases hlk.symm.trans hlk'
  exact hfi

section
variable (h : Phase s) (hbooks : Books s) (hi : s.calls i = some (.write (.mark keys) seqno pc))
include h hbooks hi

theorem Phase.finish_mark
    (hpc : pc = .decided false ∨ pc = .synced) : Phase (s.finish i (.mark keys) seqno) := by
  obtain ⟨batch, hlk, hk, hdb⟩ := hbooks.batch_db hi (hpc.imp (fun heq => ⟨false, heq⟩) id)
  refine h.of_rely rfl rfl (calls_of_begins begins_none) (fun j n p hj => ?_) fun _ => ?_
  · -- the batch of the section is another one
    refine AList.lookup_erase_ne ?_
    rintro rfl
    obtain rfl := hbooks.own j i _ _ n p pc hj hi
    rw [hi] at hj
    cases hj
  · exact Rely.done hi hlk hk hdb (hbooks.batch_synced hi hpc hlk) rfl rfl rfl rfl rfl

theorem Phase.write_mark :
    Phase (s.write i (.mark keys) seqno pc) := by
  have hm : ∀ pc' call, some (Call.write (.mark keys) seqno pc') = some call → call.begins = false := by
    intro pc' call heq
    cases heq
    rfl
  cases pc with
  | taken =>
    refine h.of_rely rfl rfl (calls_of_begins (hm _)) (fun _ _ _ _ => rfl) fun _ => ?_
    exact Rely.move rfl ⟨_, hi⟩ (by simp) (by simp) rfl rfl (Subset.refl _) (Subset.refl _) fun _ => .inl
  | begun held =>
    refine h.of_rely rfl rfl (calls_of_begins (hm _)) (fun _ _ _ _ => rfl) fun _ => ?_
    refine Rely.move rfl ⟨_, hi⟩ (by simp) (by simp) rfl rfl subset_union_left (Subset.refl _) fun key hk => ?_
    obtain ⟨batch, hlk, -, hh⟩ := hbooks.batch i _ seqno _ hi
    obtain rfl : held = batch := hh
    exact (mem_union.mp hk).imp id fun hmem => ⟨seqno, held, hlk, hmem⟩
  | flushed =>
    refine h.of_rely rfl rfl (calls_of_begins (hm _)) (fun _ _ _ _ => rfl) fun hps => ?_
    have hd : WritePc.decided s.persist ≠ (.decided false : WritePc κ) := by simp [hps]
    exact Rely.move rfl ⟨_, hi⟩ (by simp) hd rfl rfl (Subset.refl _) (Subset.refl _) fun _ => .inl
  | decided persist =>
    rcases persist with _ | _
    · exact h.finish_mark hbooks hi (.inl rfl)
    refine h.of_rely rfl rfl (calls_of_begins (hm _)) (fun _ _ _ _ => rfl) fun _ => ?_
    exact Rely.move rfl ⟨_, hi⟩ (by simp) (by simp) rfl rfl (Subset.refl _) hbooks.synced_db fun _ => .inl
  | synced => exact h.finish_mark hbooks hi (.inr rfl)
end

theorem Phase.write_begin (h : Phase s) (hbooks : Books s) (hi : s.calls i = some (.write .beginCriticalSection seqno pc)) :
    Phase (s.write i .beginCriticalSection seqno pc) := by
  have hs := h.secured i _ hi
  have hps : s.persist = true := (h.only i _ hi rfl).1
  cases pc with
  | taken =>
    refine h.own hi rfl rfl rfl (fun call heq => ?_) (.inr rfl)
    cases heq
    refine ⟨hs.1.goes rfl (by simp), fun key hk => (hs.2 key hk).imp id ?_⟩
    rintro ⟨batch, hlk, hmem⟩
    rw [hlk]
    exact hmem
  | begun held =>
    refine h.own hi rfl rfl rfl (fun call heq => ?_) (.inr rfl)
    cases heq
    exact ⟨hs.1.goes rfl (by simp), fun key hk => mem_union.mpr (hs.2 key hk)⟩
  | flushed =>
    refine h.own hi rfl rfl rfl (fun call heq => ?_) (.inr rfl)
    cases heq
    exact ⟨hs.1.goes rfl (by simp [hps]), hs.2⟩
  | decided persist =>
    rcases persist with _ | _
    · exact absurd hi (hs.1 i _ seqno)
    refine h.own hi rfl rfl rfl (fun call heq => ?_) (.inr rfl)
    cases heq
    exact ⟨hs.1.goes rfl (by simp), hs.2, fun key hk => .inl hk⟩
  | synced =>
    obtain ⟨batch, hlk, -⟩ := hbooks.batch i _ seqno _ hi
    have hb := hbooks.batch_synced hi (.inr rfl) hlk hs.1
    refine h.own hi rfl rfl rfl (fun call heq => by cases heq) (.inl ⟨rfl, hs.1.goes rfl (by simp), hs.2.1, ?_⟩)
    intro key hk
    rcases hs.2.2 key hk with hsy | hin
    · exact .inl hsy
    · exact (hin.erase rfl hlk).symm.imp (fun hmem => hb hmem) id

/-- What a step must find: `Visit` in a section no key being written and not yet synced; a first `BeginCriticalSection`,
where nothing is pending, every writer counted, and otherwise no batch being written. -/
def Sound (s : BadgerMarkSet κ) : Label κ → Prop
  | .mark _ _ => True
  | .visit _ key => s.persist = true → s.InBatch key → key ∈ s.synced
  | .beginCriticalSection _ =>
    if s.persist then s.began = true
    else if s.pend = ∅ then ∀ j caller seqno, s.calls j ≠ some (.write caller seqno .taken)
    else s.writing = ∅
  | .go i => ∀ key version, s.calls i = some (.upgrade key version) → s.persist = true → s.InBatch key → key ∈ s.synced
  | .endCriticalSection => True
  | .crash => True

omit [DecidableEq κ] in
theorem Phase.enter (h : Phase s) (ho : s.persist ≠ true) (hca : s'.calls = (s.goes i (some call)).calls)
    (hps : s'.persist = true) (hbe : s'.began = s.began) (hs : s'.Secured call) : Phase s' := by
  have hb : s'.began = false := by
    rw [hbe]
    by_contra hb
    exact ho (h.began (eq_true_of_not_eq_false hb)).1
  have hnew : ∀ j call', s'.calls j = some call' → call'.begins = true → j = i ∧ call = call' := by
    intro j call' hj hbeg
    rw [hca] at hj
    rcases goes_calls.mp hj with ⟨hij, heq⟩ | ⟨-, hold⟩
    · exact ⟨hij, some.inj heq⟩
    · exact absurd (h.only j call' hold hbeg).1 ho
  refine ⟨fun hb' => absurd (hb.symm.trans hb') false_ne_true, fun j call' hj => ?_, fun j call' hj hbeg => ?_⟩
  · by_cases hbeg : call'.begins = true
    · obtain ⟨-, rfl⟩ := hnew j call' hj hbeg
      exact hs
    · exact secured_of_not_begins hbeg
  · obtain ⟨rfl, -⟩ := hnew j call' hj hbeg
    exact ⟨hps, hb, fun j' call'' hj' hb' => (hnew j' call'' hj' hb').1⟩

theorem Phase.beginCriticalSection (h : Phase s) (hbooks : Books s) (hbase : Base s) (hidle : Call.Idle (s.calls i))
    (hsd : s.Sound (.beginCriticalSection i)) : Phase (s.beginCriticalSection i) := by
  unfold Sound at hsd
  unfold BadgerMarkSet.beginCriticalSection
  split_ifs at hsd ⊢ with hps hpe
  · refine ⟨fun _ => h.began hsd, h.secured, fun j call hj hb => ?_⟩
    rw [(h.only j call hj hb).2.1] at hsd
    cases hsd
  · refine h.enter hps rfl rfl rfl fun key hke => ?_
    rcases hbase.returned key hke with hdb | hin | ⟨seqno, batch, hlk, hmem⟩
    · exact .inl hdb
    · rw [hpe] at hin
      exact absurd hin (notMem_empty key)
    -- whoever writes the batch is counted
    obtain ⟨k, caller, pc, hk⟩ := hbooks.owner seqno batch hlk
    refine .inr ⟨k, caller, seqno, pc, batch, goes_calls.mpr (.inr ⟨?_, hk⟩), ?_, hlk, hmem⟩
    · rintro rfl
      exact hidle caller seqno pc hk
    · rintro rfl
      exact hsd k caller seqno hk
  -- there is no other writer
  have hn : ∀ j caller seqno pc, s.calls j ≠ some (.write caller seqno pc) := by
    intro j caller seqno pc hj
    obtain ⟨batch, hlk, -⟩ := hbooks.batch j caller seqno pc hj
    rw [hsd] at hlk
    cases hlk
  have hsy : s.AllSync := fun j caller seqno => hn j caller seqno _
  refine h.enter hps rfl rfl rfl ⟨hsy.goes rfl (by simp), fun key hke => ?_⟩
  rcases hbase.returned key hke with hdb | hin | ⟨seqno, batch, hlk, -⟩
  · exact .inl hdb
  · exact .inr ⟨s.pend, AList.lookup_insert s.writing, hin⟩
  · rw [hsd] at hlk
    cases hlk

theorem Books.no_writer (h : Books s) (hz : s.writers = 0) (hi : s.calls i = some (.write caller seqno pc)) : pc = .taken := by
  obtain ⟨counted, hca, hmem⟩ := h.count
  by_contra hpc
  have hin : i ∈ counted := (hmem i).mpr ⟨caller, seqno, pc, hi, hpc⟩
  rw [hz, card_eq_zero] at hca
  rw [hca] at hin
  exact notMem_empty i hin

theorem Phase.wake (h : Phase s) (hbooks : Books s) (hi : s.calls i = some .wait) (hz : s.writers = 0) :
    Phase (s.goes i (some .sync)) := by
  have hsy : s.AllSync := by
    intro j caller seqno hj
    cases hbooks.no_writer hz hj
  refine h.own hi rfl rfl rfl (fun call heq => ?_) (.inr rfl)
  cases heq
  refine ⟨hsy.goes rfl (by simp), fun key hk => ?_⟩
  rcases h.secured i _ hi key hk with hdb | ⟨j, caller, seqno, pc, batch, hj, hpc, -⟩
  · exact hdb
  · exact absurd (hbooks.no_writer hz hj) hpc

structure Inv (s : BadgerMarkSet κ) : Prop where
  books : Books s
  base : Base s
  phase : Phase s

theorem inv_new : Inv (new : BadgerMarkSet κ) := by
  refine ⟨books_new, ⟨fun key hk => absurd hk (notMem_empty key), fun _ => rfl⟩, ?_⟩
  refine ⟨fun h => absurd h false_ne_true, fun i call hi => ?_, fun i call hi => ?_⟩
  · cases hi
  · cases hi

omit [DecidableEq κ] in
theorem idle_of_eq (hi : s.calls i = some call) (hca : ∀ caller seqno pc, call ≠ .write caller seqno pc) :
    Call.Idle (s.calls i) := by
  rw [hi]
  exact fun caller seqno pc heq => hca caller seqno pc (some.inj heq)

theorem Inv.go (h : Inv s) (hi : s.calls i = some call) (hsd : s.Sound (.go i)) (hgo : s.go i call = some s') :
    Base s' ∧ Phase s' := by
  cases call with
  | upgrade key version =>
    cases hgo
    have hidle : Call.Idle (s.calls i) := idle_of_eq hi (by simp)
    exact ⟨h.base.upgrade h.books i key version, h.phase.upgrade h.books h.base hidle (hsd key version hi) version⟩
  | write caller seqno pc =>
    cases hgo
    refine ⟨h.base.write h.books hi, ?_⟩
    cases caller with
    | mark keys => exact h.phase.write_mark h.books hi
    | beginCriticalSection => exact h.phase.write_begin h.books hi
  | wait =>
    obtain ⟨hz, heq⟩ := ite_none_right_eq_some.mp hgo
    cases heq
    exact ⟨⟨h.base.returned, h.base.pend⟩, h.phase.wake h.books hi hz⟩
  | sync =>
    cases hgo
    have hs := h.phase.secured i _ hi
    refine ⟨⟨h.base.returned, h.base.pend⟩, ?_⟩
    exact h.phase.own hi rfl rfl rfl (fun call heq => by cases heq)
      (.inl ⟨rfl, hs.1.goes rfl (by simp), hs.2, fun key hk => .inl hk⟩)

theorem Inv.step {a : Label κ} (h : Inv s) (hsd : s.Sound a) (hst : step s a = some s') : Inv s' := by
  have hbooks := h.books.step hst
  revert hbooks hsd hst
  fun_cases BadgerMarkSet.step with
  | case1 i keys hi =>
    rintro hsd ⟨⟩ hbooks
    exact ⟨hbooks, h.base.putMany h.books i keys, h.phase.putMany h.books (hi ▸ idle_none) keys⟩
  | case3 i key hi =>
    rintro hsd ⟨⟩ hbooks
    exact ⟨hbooks, h.base.visit i key, h.phase.visit h.books h.base (hi ▸ idle_none) hsd⟩
  | case5 i hi =>
    rintro hsd ⟨⟩ hbooks
    exact ⟨hbooks, h.base.beginCriticalSection h.books i, h.phase.beginCriticalSection h.books h.base (hi ▸ idle_none) hsd⟩
  | case7 i =>
    intro hsd hst hbooks
    obtain ⟨call, hi, hgo⟩ := bind_eq_some_iff.mp hst
    obtain ⟨hbase, hph⟩ := h.go hi hsd hgo
    exact ⟨hbooks, hbase, hph⟩
  | case8 hbe =>
    rintro hsd ⟨⟩ hbooks
    -- a section that has begun has no call that is to begin it
    have hn : ∀ j call, s.calls j = some call → call.begins ≠ true := by
      intro j call hj hbeg
      exact absurd ((h.phase.only j call hj hbeg).2.1.symm.trans hbe) false_ne_true
    refine ⟨hbooks, ⟨h.base.returned, fun hp => absurd hp false_ne_true⟩, fun hb => absurd hb false_ne_true, ?_, ?_⟩
    · exact fun j call hj => secured_of_not_begins (hn j call hj)
    · exact fun j call hj hbeg => absurd hbeg (hn j call hj)
  | case10 hbe =>
    rintro hsd ⟨⟩ hbooks
    obtain ⟨-, -, hsa⟩ := h.phase.began hbe
    refine ⟨hbooks, ⟨fun key hk => .inl (hsa.1 hk), fun _ => rfl⟩, fun _ => ⟨rfl, ?_, hsa.1, fun key hk => .inl hk⟩, ?_, ?_⟩
    · exact fun j caller seqno hj => by cases hj
    all_goals exact fun j call hj => by cases hj
  | _ => rintro - ⟨⟩

def checkSound (s : BadgerMarkSet κ) : Label κ → Bool
  | .visit _ key => !s.persist || !decide (s.InBatch key) || key ∈ s.synced
  | .beginCriticalSection _ => if s.persist then s.began else s.pend ≠ ∅ && s.writing.entries.isEmpty
  | .go i =>
    match s.calls i with
    | some (.upgrade key _) => !s.persist || !decide (s.InBatch key) || key ∈ s.synced
    | _ => true
  | _ => true

theorem sound_of_check (s : BadgerMarkSet κ) (a : Label κ) (h : s.checkSound a = true) : s.Sound a := by
  have hk : ∀ key, (!s.persist || !decide (s.InBatch key) || decide (key ∈ s.synced)) = true →
      s.persist = true → s.InBatch key → key ∈ s.synced := by
    intro key hch hps hin
    simpa [hps, hin] using hch
  cases a with
  | mark i keys | endCriticalSection | crash => trivial
  | visit i key => exact hk key h
  | beginCriticalSection i =>
    unfold checkSound at h
    unfold Sound
    split_ifs at h ⊢ with hps hpe
    · exact h
    · simp [hpe] at h
    · exact AList.ext (isEmpty_iff.mp (and_eq_true_iff.mp h).2)
  | go i =>
    intro key version hi
    simp only [checkSound, hi] at h
    exact hk key h

theorem putMany_full (i : Nat) (hfu : badgerMarkSetBatchSize ≤ (s.pend ∪ keys.toFinset).card) : s.putMany i keys =
      ({ s with pend := s.pend ∪ keys.toFinset }.nextBatch).goes i (some (.write (.mark keys) s.seqno .taken)) :=
  if_neg fun h => absurd h.2 (Nat.not_lt.mpr hfu)

theorem inv_run {as : List (Label κ)} (hsd : Legal step Sound new as) (hrun : run step new as = some s) : Inv s :=
  run_legal (fun _ _ _ hs ha hst => hs.step ha hst) inv_new hsd hrun

theorem Base.step {a : Label κ} (h : Base s) (hbooks : Books s) (ha : a ≠ .crash) (hst : step s a = some s') : Base s' := by
  revert hst
  fun_cases BadgerMarkSet.step with
  | case1 i keys =>
    rintro ⟨⟩
    exact h.putMany hbooks i keys
  | case3 i key =>
    rintro ⟨⟩
    exact h.visit i key
  | case5 i =>
    rintro ⟨⟩
    exact h.beginCriticalSection hbooks i
  | case7 i =>
    intro hst
    obtain ⟨call, hi, hgo⟩ := bind_eq_some_iff.mp hst
    revert hgo
    fun_cases BadgerMarkSet.go with
    | case1 key version =>
      rintro ⟨⟩
      exact h.upgrade hbooks i key version
    | case2 caller seqno pc =>
      rintro ⟨⟩
      exact h.write hbooks hi
    | case4 => rintro ⟨⟩
    | _ =>
      rintro ⟨⟩
      exact ⟨h.returned, h.pend⟩
  | case8 =>
    rintro ⟨⟩
    exact ⟨h.returned, fun hp => absurd hp false_ne_true⟩
  | case10 => exact absurd rfl ha
  | _ => rintro ⟨⟩

/-- **No mark is lost** while the node runs: `Has` finds every key for which a call has returned, in every interleaving. -/
theorem returned_found (as : List (Label κ)) (hcrash : .crash ∉ as) (hrun : run step new as = some s) :
    ∀ key ∈ s.returned, (s.tryPending key || s.tryDB key) = true := by
  have h : Books s ∧ Base s :=
    run_legal (P := fun s => Books s ∧ Base s) (fun _ _ _ hs ha hst => ⟨hs.1.step hst, hs.2.step hs.1 ha hst⟩)
      ⟨inv_new.books, inv_new.base⟩ (legal_of_forall fun a ha _ => ne_of_mem_of_not_mem ha hcrash) hrun
  intro key hk
  rw [or_eq_true_iff, tryPending_iff]
  exact (h.2.returned key hk).symm.imp_right decide_eq_true

theorem returned_found_visit : ∃ s : BadgerMarkSet Nat, run step new [.visit 0 7, .mark 1 [8], .go 0] = some s ∧
    7 ∈ s.returned ∧ (s.tryPending 7 || s.tryDB 7) = true :=
  ⟨_, rfl, by decide, returned_found [.visit 0 7, .mark 1 [8], .go 0] (by decide) rfl 7 (by decide)⟩

end BadgerMarkSet

/-! ## Crashes -/

/-- **A mark set in its critical section.** In memory it loses nothing in a crash exactly when its file was synced since the
section began; in a database, where every step is sound. -/
theorem markSet_crash_safe (κ : Type) [DecidableEq κ] :
    (∀ (as : List MapMarkSet.Label) (s : MapMarkSet), (∀ a ∈ as, a.Fits) → run MapMarkSet.step .new as = some s →
      s.persist = true → (s.CrashSafe ↔ s.synced ≠ none) ∧ ∀ keys, (s.markMany keys).synced ≠ none) ∧
    ∀ (as : List (BadgerMarkSet.Label κ)) (s : BadgerMarkSet κ), Legal step BadgerMarkSet.Sound .new as →
      run step .new as = some s → s.began = true → s.returned ⊆ (recover s.synced).db := by
  refine ⟨fun as s hfi hrun hps => ?_, fun as s hsd hrun hb => ?_⟩
  · have hinv := MapMarkSet.inv_run hfi hrun
    exact ⟨hinv.crashSafe_iff, hinv.synced_of_new hps⟩
  · obtain ⟨-, -, hsa⟩ := (inv_run hsd hrun).phase.began hb
    exact hsa.1

theorem markSet_crash_safe_marks :
    (∃ s, run MapMarkSet.step .new [.mark [1], .beginCriticalSection [[1]], .mark [2]] = some s ∧ s.persist = true ∧
      s.returned = {[1], [2]} ∧ s.CrashSafe) ∧
    ∃ s, run step (.new : BadgerMarkSet Nat) [.mark 0 [1], .beginCriticalSection 1, .go 1, .go 1, .go 1,
        .go 1, .go 1, .visit 2 2, .go 2, .go 2, .go 2, .go 2, .go 2, .go 2, .crash] = some s ∧ s.began = true ∧
      s.returned = {1, 2} ∧ s.returned ⊆ (recover s.synced).db := by
  obtain ⟨hm, hb⟩ := markSet_crash_safe Nat
  constructor
  · refine ⟨_, rfl, rfl, rfl, ?_⟩
    refine ((hm [.mark [1], .beginCriticalSection [[1]], .mark [2]] _ (by decide) rfl rfl).1).mpr ?_
    decide
  refine ⟨_, rfl, rfl, rfl, ?_⟩
  refine hb [.mark 0 [1], .beginCriticalSection 1, .go 1, .go 1, .go 1, .go 1, .go 1, .visit 2 2, .go 2, .go 2,
    .go 2, .go 2, .go 2, .go 2, .crash] _ ?_ rfl rfl
  exact legal_of_checks sound_of_check rfl

def manyKeys : List Nat := range badgerMarkSetBatchSize

theorem manyKeys_full (pend : Finset Nat) : badgerMarkSetBatchSize ≤ (pend ∪ manyKeys.toFinset).card := by
  have hca : manyKeys.toFinset.card = badgerMarkSetBatchSize := by
    show (List.range badgerMarkSetBatchSize).toFinset.card = badgerMarkSetBatchSize
    rw [toFinset_card_of_nodup nodup_range, length_range]
  exact hca.symm.le.trans (card_le_card subset_union_right)

/-- **Marks that a crash loses**: set before the file is synced, or while another goroutine writes the key or a batch. -/
theorem markSet_crash_loses :
    (∃ s, run MapMarkSet.step .new [.mark [1], .beginCriticalSection [[1]]] = some s ∧ s.persist = true ∧
      s.returned = {[1]} ∧ ¬ s.CrashSafe) ∧
    (∃ s, run step (.new : BadgerMarkSet Nat) [.beginCriticalSection 0, .go 0, .go 0, .mark 1 [7],
        .visit 2 7] = some s ∧ s.began = true ∧ 7 ∈ s.returned ∧ 7 ∉ (recover s.synced).db) ∧
    (∃ s, run step .new [.mark 0 [20000], .mark 1 manyKeys, .mark 2 [30000], .beginCriticalSection 3, .go 3,
        .go 3, .go 3, .go 3, .go 3] = some s ∧ s.began = true ∧ 20000 ∈ s.returned ∧
      20000 ∉ (recover s.synced).db) ∧
    ∃ s, run step .new [.mark 0 [20000], .mark 1 manyKeys, .beginCriticalSection 3, .go 3, .go 3] = some s ∧
      s.began = true ∧ 20000 ∈ s.returned ∧ 20000 ∉ (recover s.synced).db := by
  refine ⟨⟨_, rfl, rfl, rfl, ?_⟩, ⟨_, rfl, rfl, by decide, by decide⟩, ?_, ?_⟩
  · rintro ⟨set, hre, -⟩
    cases hre
  all_goals
    -- the second call takes the key of the first with its own
    have hfu : ∀ s : BadgerMarkSet Nat, s.calls 1 = none → step s (.mark 1 manyKeys) = some
        (({ s with pend := s.pend ∪ manyKeys.toFinset }.nextBatch).goes 1 (some (.write (.mark manyKeys) s.seqno .taken))) :=
      fun s hs => (if_pos hs).trans (congrArg some (putMany_full 1 (manyKeys_full s.pend)))
    exact ⟨_, run_cons.mpr ⟨_, rfl, run_cons.mpr ⟨_, hfu _ rfl, rfl⟩⟩, rfl, by decide, by decide⟩

end Lotus.Splitstore

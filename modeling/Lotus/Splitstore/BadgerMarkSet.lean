/-
# The mark set in a database (`blockstore/splitstore/markset_badger.go`).

A batch of the keys in `pend` moves to `writing`; the call that took it writes it to the database and, in a critical section,
syncs that. What a call does under the mutex is one step, and so is each database call, which does not fail.
-/
import Lotus.Splitstore.MapMarkSet

namespace Lotus.Splitstore
open Lib.Lts Finset AList Option

inductive Caller (κ : Type) where
  | mark (keys : List κ)
  | beginCriticalSection
deriving DecidableEq

inductive WritePc (κ : Type) where
  /-- The batch is taken, the writer is not counted yet. -/
  | taken
  | begun (batch : Finset κ)
  | flushed
  /-- `persist` was read. -/
  | decided (persist : Bool)
  | synced
deriving DecidableEq

inductive Call (κ : Type) where
  /-- `Visit` between its two locks. -/
  | upgrade (key : κ) (version : Nat)
  | write (caller : Caller κ) (seqno : Nat) (pc : WritePc κ)
  /-- `BeginCriticalSection` in its loop. -/
  | wait
  /-- `BeginCriticalSection` before `s.db.Sync()`. -/
  | sync
deriving DecidableEq

section
variable {κ : Type}

def Caller.keys [DecidableEq κ] : Caller κ → Finset κ
  | .mark keys => keys.toFinset
  | .beginCriticalSection => ∅

def WritePc.Fits (db synced batch : Finset κ) : WritePc κ → Prop
  | .taken => True
  | .begun held => held = batch
  | .flushed => batch ⊆ db
  | .decided _ => batch ⊆ db
  | .synced => batch ⊆ synced

theorem WritePc.Fits.mono {db db' synced synced' batch : Finset κ} (hdb : db ⊆ db') (hsy : synced ⊆ synced')
    {pc : WritePc κ} (h : pc.Fits db synced batch) : pc.Fits db' synced' batch := by
  cases pc with
  | taken => trivial
  | begun held => exact h
  | flushed | decided persist => exact Subset.trans h hdb
  | synced => exact Subset.trans h hsy

theorem write_inj {caller caller' : Caller κ} {seqno seqno' : Nat} {pc pc' : WritePc κ} :
    some (Call.write caller seqno pc) = some (Call.write caller' seqno' pc') ↔ caller = caller' ∧ seqno = seqno' ∧ pc = pc' := by
  rw [some.injEq, Call.write.injEq]

def Call.Idle (call : Option (Call κ)) : Prop := ∀ caller seqno pc, call ≠ some (.write caller seqno pc)

def Call.begins : Call κ → Bool
  | .upgrade _ _ => false
  | .write (.mark _) _ _ => false
  | .write .beginCriticalSection _ _ => true
  | .wait => true
  | .sync => true
end

/-- `BadgerMarkSet`. `db` is what was flushed to the database, `synced` what was in it when it was last synced, `returned`
the keys of the calls that have returned. -/
structure BadgerMarkSet (κ : Type) where
  pend : Finset κ
  writing : GoMap Nat (Finset κ)
  writers : Nat
  seqno : Nat
  version : Nat
  persist : Bool
  db : Finset κ
  synced : Finset κ
  calls : Nat → Option (Call κ)
  returned : Finset κ
  began : Bool

def badgerMarkSetBatchSize : Nat := 16384

namespace BadgerMarkSet
variable {κ : Type} [DecidableEq κ]

def new : BadgerMarkSet κ := ⟨∅, ∅, 0, 0, 0, false, ∅, ∅, fun _ => none, ∅, false⟩

/-- The mark set that `BadgerMarkSetEnv.Recover` makes of a database. -/
def recover (db : Finset κ) : BadgerMarkSet κ := ⟨∅, ∅, 0, 0, 0, true, db, db, fun _ => none, ∅, true⟩

section
variable (s : BadgerMarkSet κ) (i : Nat)

def goes (call : Option (Call κ)) : BadgerMarkSet κ :=
  { s with calls := Function.update s.calls i call }

def returns (keys : List κ) : BadgerMarkSet κ :=
  { s.goes i none with returned := s.returned ∪ keys.toFinset }

def tryPending (key : κ) : Bool :=
  key ∈ s.pend || s.writing.entries.any fun wr => key ∈ wr.2

def tryDB (key : κ) : Bool := key ∈ s.db

/-- `nextBatch`, without the number it returns. -/
def nextBatch : BadgerMarkSet κ :=
  { s with seqno := s.seqno + 1, writing := s.writing.insert s.seqno s.pend, pend := ∅ }

/-- `putMany`, and its caller with the answer: it returns, or goes on to `write`. -/
def putMany (keys : List κ) : BadgerMarkSet κ :=
  let s := { s with pend := s.pend ∪ keys.toFinset }
  if ¬ s.persist ∧ s.pend.card < badgerMarkSetBatchSize then s.returns i keys
  else s.nextBatch.goes i (some (.write (.mark keys) s.seqno .taken))

def put (key : κ) : BadgerMarkSet κ := s.putMany i [key]

/-- `BeginCriticalSection` up to its first unlock. -/
def beginCriticalSection (s : BadgerMarkSet κ) (i : Nat) : BadgerMarkSet κ :=
  if s.persist then { s with began := true }
  else if s.pend = ∅ then { s with persist := true }.goes i (some .wait)
  else { s.nextBatch with persist := true }.goes i (some (.write .beginCriticalSection s.seqno .taken))

/-- `Visit` under the read lock. -/
def visit (key : κ) : BadgerMarkSet κ :=
  if s.tryPending key || s.tryDB key then s.returns i [key] else s.goes i (some (.upgrade key s.version))

/-- `Visit` under the lock. -/
def upgrade (key : κ) (version : Nat) : BadgerMarkSet κ :=
  if s.tryPending key || version ≠ s.version && s.tryDB key then s.returns i [key] else s.put i key

/-- The end of `write` without an error, and of the call. -/
def finish (caller : Caller κ) (seqno : Nat) : BadgerMarkSet κ :=
  let s := { s with writing := s.writing.erase seqno, version := s.version + 1, writers := s.writers - 1 }
  match caller with
  | .mark keys => s.returns i keys
  | .beginCriticalSection => { s.goes i none with began := true }

def write (s : BadgerMarkSet κ) (i : Nat) (caller : Caller κ) (seqno : Nat) (pc : WritePc κ) : BadgerMarkSet κ :=
  match pc with
  | .taken =>
    let pend := (s.writing.lookup seqno).getD ∅
    { s with writers := s.writers + 1 }.goes i (some (.write caller seqno (.begun pend)))
  | .begun batch => { s with db := s.db ∪ batch }.goes i (some (.write caller seqno .flushed))
  | .flushed => s.goes i (some (.write caller seqno (.decided s.persist)))
  | .decided true => { s with synced := s.db }.goes i (some (.write caller seqno .synced))
  | .decided false | .synced => s.finish i caller seqno

def go : Call κ → Option (BadgerMarkSet κ)
  | .upgrade key version => some (s.upgrade i key version)
  | .write caller seqno pc => some (s.write i caller seqno pc)
  | .wait => if s.writers = 0 then some (s.goes i (some .sync)) else none
  | .sync => some { s.goes i none with synced := s.db, began := true }

/-- A goroutine makes a call, or goes on with it; the section ends; a crash in a section, after which the mark set is
recovered. -/
inductive Label (κ : Type) where
  | mark (i : Nat) (keys : List κ)
  | visit (i : Nat) (key : κ)
  | beginCriticalSection (i : Nat)
  | go (i : Nat)
  | endCriticalSection
  | crash
deriving DecidableEq

def step (a : Label κ) : Option (BadgerMarkSet κ) :=
  match a with
  | .mark i keys => if s.calls i = none then some (s.putMany i keys) else none
  | .visit i key => if s.calls i = none then some (s.visit i key) else none
  | .beginCriticalSection i => if s.calls i = none then some (s.beginCriticalSection i) else none
  | .go i => (s.calls i).bind (s.go i)
  | .endCriticalSection => if s.began then some { s with persist := false, began := false } else none
  | .crash => if s.began then some { recover s.synced with returned := s.returned } else none

/-! ## Where a key is -/

def InBatch (key : κ) : Prop := ∃ seqno batch, s.writing.lookup seqno = some batch ∧ key ∈ batch

def Counted (key : κ) : Prop :=
  ∃ i caller seqno pc batch, s.calls i = some (.write caller seqno pc) ∧ pc ≠ .taken ∧
    s.writing.lookup seqno = some batch ∧ key ∈ batch
end

variable {s : BadgerMarkSet κ}

theorem tryPending_iff {key : κ} : s.tryPending key = true ↔ key ∈ s.pend ∨ s.InBatch key := by
  unfold tryPending InBatch
  rw [Bool.or_eq_true, decide_eq_true_iff, List.any_eq_true]
  refine or_congr Iff.rfl ⟨?_, ?_⟩
  · rintro ⟨⟨seqno, batch⟩, hmem, hk⟩
    exact ⟨seqno, batch, mem_lookup_iff.mpr hmem, of_decide_eq_true hk⟩
  · rintro ⟨seqno, batch, hlk, hk⟩
    exact ⟨⟨seqno, batch⟩, mem_lookup_iff.mp hlk, decide_eq_true hk⟩

/-- `InBatch` is decided by `tryPending`'s loop. -/
instance decidableInBatch (s : BadgerMarkSet κ) (key : κ) : Decidable (s.InBatch key) :=
  decidable_of_iff (s.writing.entries.any (fun wr => key ∈ wr.2) = true) (by
    have h : tryPending { s with pend := ∅ } key = true ↔ _ := tryPending_iff
    simpa [tryPending, InBatch] using h)

variable {i seqno : Nat} {call : Option (Call κ)}
omit [DecidableEq κ] in
theorem goes_calls {j : Nat} {c : Call κ} :
    (s.goes i call).calls j = some c ↔ j = i ∧ call = some c ∨ j ≠ i ∧ s.calls j = some c := by
  show Function.update s.calls i call j = some c ↔ _
  by_cases hj : j = i
  · subst hj
    simp
  · simp [hj]

/-! ## Books

What ties the calls to the batches: a call that writes has its batch, and every batch has its call. -/

structure Books (s : BadgerMarkSet κ) : Prop where
  synced_db : s.synced ⊆ s.db
  fresh : ∀ seqno batch, s.writing.lookup seqno = some batch → seqno < s.seqno
  batch : ∀ i caller seqno pc, s.calls i = some (.write caller seqno pc) →
    ∃ batch, s.writing.lookup seqno = some batch ∧ caller.keys ⊆ batch ∧ pc.Fits s.db s.synced batch
  owner : ∀ seqno batch, s.writing.lookup seqno = some batch → ∃ i caller pc, s.calls i = some (.write caller seqno pc)
  own : ∀ i j caller caller' seqno pc pc', s.calls i = some (.write caller seqno pc) →
    s.calls j = some (.write caller' seqno pc') → i = j
  count : ∃ counted : Finset Nat, counted.card = s.writers ∧
    ∀ i, i ∈ counted ↔ ∃ caller seqno pc, s.calls i = some (.write caller seqno pc) ∧ pc ≠ .taken

theorem books_recover (db : Finset κ) : Books (recover db) where
  synced_db := Subset.refl _
  fresh := fun seqno batch h => by simp [recover] at h
  batch := fun i caller seqno pc h => by simp [recover] at h
  owner := fun seqno batch h => by simp [recover] at h
  own := fun i j caller caller' seqno pc pc' h => by simp [recover] at h
  count := ⟨∅, rfl, fun i => by simp [recover]⟩

theorem books_new : Books (new : BadgerMarkSet κ) := by
  have h := books_recover (∅ : Finset κ)
  exact ⟨h.synced_db, h.fresh, h.batch, h.owner, h.own, h.count⟩

def Counts (call : Option (Call κ)) : Prop := ∃ caller seqno pc, call = some (.write caller seqno pc) ∧ pc ≠ .taken

theorem Books.counted (h : Books s) :
    ∃ counted : Finset Nat, counted.card = s.writers ∧ ∀ i, i ∈ counted ↔ Counts (s.calls i) := h.count

/-- A call goes on, and the batches and the count follow: those of the other calls stay, and a batch it has is its own. -/
theorem Books.change (h : Books s) {pend : Finset κ} {writing : GoMap Nat (Finset κ)} {writers num : Nat}
    (hot : ∀ j c n p, j ≠ i → s.calls j = some (.write c n p) → writing.lookup n = s.writing.lookup n)
    (hown : ∀ c n p, call = some (.write c n p) →
      (∃ batch, writing.lookup n = some batch ∧ c.keys ⊆ batch ∧ p.Fits s.db s.synced batch) ∧
        ∀ j c' p', j ≠ i → s.calls j ≠ some (.write c' n p')) (hbat : ∀ n batch, writing.lookup n = some batch → n < num ∧
      ((∃ c p, call = some (.write c n p)) ∨ ∃ j c p, j ≠ i ∧ s.calls j = some (.write c n p)))
    (hco : ∃ counted : Finset Nat, counted.card = writers ∧
      ∀ j, j ∈ counted ↔ j = i ∧ Counts call ∨ j ≠ i ∧ Counts (s.calls j)) :
    Books ({ s with pend := pend, writing := writing, writers := writers, seqno := num }.goes i call) := by
  refine ⟨h.synced_db, fun n batch hlk => (hbat n batch hlk).1, ?_, ?_, ?_, ?_⟩
  · intro j c n p hj
    rcases goes_calls.mp hj with ⟨-, heq⟩ | ⟨hij, hold⟩
    · exact (hown c n p heq).1
    · obtain ⟨batch, hlk, hrest⟩ := h.batch j c n p hold
      exact ⟨batch, (hot j c n p hij hold).trans hlk, hrest⟩
  · intro n batch hlk
    rcases (hbat n batch hlk).2 with ⟨c, p, heq⟩ | ⟨j, c, p, hj⟩
    · exact ⟨i, c, p, goes_calls.mpr (.inl ⟨rfl, heq⟩)⟩
    · exact ⟨j, c, p, goes_calls.mpr (.inr hj)⟩
  · intro j j' c c' n p p' hj hj'
    rcases goes_calls.mp hj with ⟨rfl, heq⟩ | ⟨hij, hold⟩ <;> rcases goes_calls.mp hj' with ⟨rfl, heq'⟩ | ⟨hij', hold'⟩
    · rfl
    · exact absurd hold' ((hown c n p heq).2 j' c' p' hij')
    · exact absurd hold ((hown c' n p' heq').2 j c p hij)
    · exact h.own j j' c c' n p p' hold hold'
  obtain ⟨counted, hcard, hmem⟩ := hco
  refine ⟨counted, hcard, fun j => (hmem j).trans ?_⟩
  simp only [goes_calls, Counts]
  grind

section
variable (h : Books s) (hidle : Call.Idle (s.calls i))
include h hidle

omit [DecidableEq κ] h in
theorem ne_of_idle {j n : Nat} {c : Caller κ} {p : WritePc κ} (hj : s.calls j = some (.write c n p)) : j ≠ i := by
  rintro rfl
  exact hidle c n p hj

theorem Books.counted_idle (hca : ¬ Counts call) :
    ∃ counted : Finset Nat, counted.card = s.writers ∧ ∀ j, j ∈ counted ↔ j = i ∧ Counts call ∨ j ≠ i ∧ Counts (s.calls j) := by
  obtain ⟨counted, hcard, hmem⟩ := h.counted
  have hi : ¬ Counts (s.calls i) := fun ⟨c, n, p, hi, _⟩ => hidle c n p hi
  exact ⟨counted, hcard, by grind⟩

theorem Books.goes (hca : Call.Idle call) : Books (s.goes i call) := by
  refine h.change (fun _ _ _ _ _ _ => rfl) (fun c n p heq => absurd heq (hca c n p)) (fun n batch hlk => ?_)
    (h.counted_idle hidle fun ⟨c, n, p, heq, _⟩ => hca c n p heq)
  obtain ⟨j, c, p, hj⟩ := h.owner n batch hlk
  exact ⟨h.fresh n batch hlk, .inr ⟨j, c, p, ne_of_idle hidle hj, hj⟩⟩

theorem Books.take {caller : Caller κ} (hk : caller.keys ⊆ s.pend) :
    Books (s.nextBatch.goes i (some (.write caller s.seqno .taken))) := by
  have ho : ∀ {j c n p}, s.calls j = some (.write c n p) → n ≠ s.seqno := by
    intro j c n p hj
    obtain ⟨batch, hlk, -⟩ := h.batch j c n p hj
    exact Nat.ne_of_lt (h.fresh n batch hlk)
  refine h.change (fun j c n p _ hj => lookup_insert_ne (ho hj)) ?_ (fun n batch hlk => ?_)
    (h.counted_idle hidle fun ⟨c, n, p, heq, hp⟩ => hp (write_inj.mp heq).2.2.symm)
  · intro c n p heq
    obtain ⟨rfl, rfl, rfl⟩ := write_inj.mp heq
    exact ⟨⟨s.pend, lookup_insert s.writing, hk, trivial⟩, fun j c' p' _ hj => ho hj rfl⟩
  · by_cases hs : n = s.seqno
    · exact ⟨by omega, .inl ⟨caller, .taken, by rw [hs]⟩⟩
    have hold : s.writing.lookup n = some batch := (lookup_insert_ne hs).symm.trans hlk
    obtain ⟨j, c, p, hj⟩ := h.owner n batch hold
    exact ⟨Nat.lt_succ_of_lt (h.fresh n batch hold), .inr ⟨j, c, p, ne_of_idle hidle hj, hj⟩⟩
end

variable {caller : Caller κ}

theorem Books.grow (h : Books s) {db synced : Finset κ} (hdb : s.db ⊆ db) (hsy : s.synced ⊆ synced)
    (hle : synced ⊆ db) : Books { s with db := db, synced := synced } := by
  refine ⟨hle, h.fresh, fun i caller seqno pc hi => ?_, h.owner, h.own, h.count⟩
  obtain ⟨batch, hlk, hk, hfi⟩ := h.batch i caller seqno pc hi
  exact ⟨batch, hlk, hk, hfi.mono hdb hsy⟩

variable {pc : WritePc κ}

section
variable (h : Books s) (hi : s.calls i = some (.write caller seqno pc))
include h hi

theorem Books.move (pc' : WritePc κ) (hpc' : pc' ≠ .taken)
    (hfi : ∀ batch, s.writing.lookup seqno = some batch → pc.Fits s.db s.synced batch → pc'.Fits s.db s.synced batch)
    {writers : Nat} (hwr : writers = if pc = .taken then s.writers + 1 else s.writers) :
    Books ({ s with writers := writers }.goes i (some (.write caller seqno pc'))) := by
  refine h.change (fun _ _ _ _ _ _ => rfl) ?_ (fun n batch hlk => ⟨h.fresh n batch hlk, ?_⟩) ?_
  · intro c n p heq
    obtain ⟨rfl, rfl, rfl⟩ := write_inj.mp heq
    obtain ⟨batch, hlk, hk, hfit⟩ := h.batch i caller seqno pc hi
    exact ⟨⟨batch, hlk, hk, hfi batch hlk hfit⟩, fun j c' p' hij hj => hij (h.own j i c' caller seqno p' pc hj hi)⟩
  · obtain ⟨j, c, p, hj⟩ := h.owner n batch hlk
    by_cases hij : j = i
    · rw [hij, hi] at hj
      exact .inl ⟨caller, pc', by rw [(write_inj.mp hj).2.1]⟩
    · exact .inr ⟨j, c, p, hij, hj⟩
  obtain ⟨counted, hca, hmem⟩ := h.counted
  have hcall : Counts (some (.write caller seqno pc')) := ⟨caller, seqno, pc', rfl, hpc'⟩
  refine ⟨insert i counted, ?_, fun j => by grind⟩
  rw [hwr, ← hca]
  split_ifs with hpc
  · refine card_insert_of_notMem fun hin => ?_
    obtain ⟨c, n, p, hi', hp⟩ := (hmem i).mp hin
    rw [hi] at hi'
    exact hp ((write_inj.mp hi').2.2 ▸ hpc)
  · rw [insert_eq_of_mem ((hmem i).mpr ⟨caller, seqno, pc, hi, hpc⟩)]

theorem Books.done (hpc : pc ≠ .taken) :
    Books ({ s with writing := s.writing.erase seqno, writers := s.writers - 1 }.goes i none) := by
  refine h.change ?_ (fun _ _ _ heq => by cases heq) (fun n batch hlk => ?_) ?_
  · rintro j c n p hij hj
    refine lookup_erase_ne ?_
    rintro rfl
    exact hij (h.own j i c caller n p pc hj hi)
  · obtain ⟨hn, hold⟩ := GoMap.lookup_erase_some hlk
    obtain ⟨j, c, p, hj⟩ := h.owner n batch hold
    refine ⟨h.fresh n batch hold, .inr ⟨j, c, p, ?_, hj⟩⟩
    rintro rfl
    rw [hi] at hj
    exact hn (write_inj.mp hj).2.1.symm
  obtain ⟨counted, hca, hmem⟩ := h.counted
  have hno : ¬ Counts (none : Option (Call κ)) := fun ⟨_, _, _, heq, _⟩ => by cases heq
  refine ⟨counted.erase i, ?_, fun j => by grind⟩
  rw [card_erase_of_mem ((hmem i).mpr ⟨caller, seqno, pc, hi, hpc⟩), hca]
end

theorem Books.frame (h : Books s) {pend returned : Finset κ} {version : Nat} {persist began : Bool} :
    Books { s with pend := pend, version := version, persist := persist, returned := returned, began := began } :=
  ⟨h.synced_db, h.fresh, h.batch, h.owner, h.own, h.count⟩

omit [DecidableEq κ] in
theorem idle_none : Call.Idle (none : Option (Call κ)) := fun _ _ _ h => by cases h

section
variable (h : Books s) (hidle : Call.Idle (s.calls i))
include h hidle

theorem Books.putMany (keys : List κ) : Books (s.putMany i keys) := by
  unfold BadgerMarkSet.putMany
  dsimp only
  split_ifs
  · exact (h.goes hidle idle_none).frame
  · have hpe : Books { s with pend := s.pend ∪ keys.toFinset } := h.frame
    exact hpe.take hidle subset_union_right

theorem Books.visit (key : κ) : Books (s.visit i key) := by
  unfold BadgerMarkSet.visit
  split_ifs
  · exact (h.goes hidle idle_none).frame
  · exact h.goes hidle fun _ _ _ heq => by cases heq

theorem Books.upgrade (key : κ) (version : Nat) : Books (s.upgrade i key version) := by
  unfold BadgerMarkSet.upgrade
  split_ifs
  · exact (h.goes hidle idle_none).frame
  · exact h.putMany hidle [key]

theorem Books.beginCriticalSection : Books (s.beginCriticalSection i) := by
  unfold BadgerMarkSet.beginCriticalSection
  split_ifs
  · exact h.frame
  · exact (h.goes hidle fun _ _ _ heq => by cases heq).frame
  · exact (h.take hidle (empty_subset _)).frame
end

section
variable (h : Books s) (hi : s.calls i = some (.write caller seqno pc))
include h hi

theorem Books.finish (hpc : pc ≠ .taken) :
    Books (s.finish i caller seqno) := by
  have hd := h.done hi hpc
  cases caller with
  | mark keys | beginCriticalSection => exact hd.frame

theorem Books.write : Books (s.write i caller seqno pc) := by
  cases pc with
  | taken =>
    refine h.move hi (.begun _) (by simp) (fun batch hlk _ => ?_) (if_pos rfl).symm
    show (s.writing.lookup seqno).getD ∅ = batch
    rw [hlk]
    rfl
  | begun held =>
    -- the batch is in the database from now on
    have hg : Books { s with db := s.db ∪ held } :=
      h.grow subset_union_left (Subset.refl _) (h.synced_db.trans subset_union_left)
    refine hg.move hi .flushed (by simp) (fun batch _ hfi => ?_) (if_neg (by simp)).symm
    obtain rfl : held = batch := hfi
    exact subset_union_right
  | flushed =>
    exact h.move hi (.decided s.persist) (by simp) (fun batch _ hfi => hfi) (if_neg (by simp)).symm
  | decided persist =>
    rcases persist with _ | _
    · exact h.finish hi (by simp)
    have hg : Books { s with synced := s.db } := h.grow (Subset.refl _) h.synced_db (Subset.refl _)
    exact hg.move hi .synced (by simp) (fun batch _ hfi => hfi) (if_neg (by simp)).symm
  | synced => exact h.finish hi (by simp)
end

theorem Books.step {s' : BadgerMarkSet κ} {a : Label κ} (h : Books s) (hst : step s a = some s') : Books s' := by
  revert hst
  fun_cases BadgerMarkSet.step with
  | case1 i keys hi =>
    rintro ⟨⟩
    exact h.putMany (hi ▸ idle_none) keys
  | case3 i key hi =>
    rintro ⟨⟩
    exact h.visit (hi ▸ idle_none) key
  | case5 i hi =>
    rintro ⟨⟩
    exact h.beginCriticalSection (hi ▸ idle_none)
  | case7 i =>
    intro hst
    obtain ⟨call, hi, hgo⟩ := bind_eq_some_iff.mp hst
    cases call with
    | upgrade key version =>
      cases hgo
      exact h.upgrade (by rw [hi]; exact fun _ _ _ heq => by cases heq) key version
    | write caller seqno pc =>
      cases hgo
      exact h.write hi
    | wait =>
      obtain ⟨-, heq⟩ := ite_none_right_eq_some.mp hgo
      cases heq
      exact h.goes (by rw [hi]; exact fun _ _ _ heq => by cases heq) fun _ _ _ heq => by cases heq
    | sync =>
      cases hgo
      have hg : Books { s with synced := s.db } := h.grow (Subset.refl _) h.synced_db (Subset.refl _)
      have hidle : Call.Idle (s.calls i) := by
        rw [hi]
        exact fun _ _ _ heq => by cases heq
      exact (hg.goes hidle idle_none).frame
  | case8 =>
    rintro ⟨⟩
    exact h.frame
  | case10 =>
    rintro ⟨⟩
    exact (books_recover s.synced).frame
  | _ => exact nofun

end BadgerMarkSet
end Lotus.Splitstore

/-
# The autobatching blockstore (`blockstore/autobatch.go`).

A flush takes the buffer of blocks as the flushing batch and writes it to the backing store. A step is a section under
`stateLock`, a call of the backing store or a choice of the flush worker. `Get` changes nothing, so a call is given by the
three states in which it looks.
-/
import Lotus.Lib.Lts
import Lotus.Types.Basic

namespace Lotus.Blockstore
open Lib.Lts List Subset Option

structure Block where
  cid : Cid
  rawData : Bytes
  deriving DecidableEq

/-- `blockBatch`: the blocks as a list, in the order of the flush, and as a map. -/
structure BlockBatch where
  blockList : List Block
  blockMap : GoMap Cid Block
  keyed : ∀ c b, blockMap.lookup c = some b → b.cid = c ∧ b ∈ blockList

namespace BlockBatch

def empty : BlockBatch := ⟨[], ∅, by simp⟩

def add (batch : BlockBatch) (blk : Block) : BlockBatch where
  blockList := batch.blockList ++ [blk]
  blockMap := batch.blockMap.insert blk.cid blk
  keyed := by
    intro c b hb
    by_cases hc : c = blk.cid
    · subst hc
      obtain rfl : blk = b := by simpa using hb
      exact ⟨rfl, by simp⟩
    · rw [AList.lookup_insert_ne hc] at hb
      exact ⟨(batch.keyed c b hb).1, mem_append_left _ (batch.keyed c b hb).2⟩

end BlockBatch

inductive FlushPc where
  | entered
  | checked
  | taken
  | written
  deriving DecidableEq

inductive WorkerFlush where
  | signal
  | retry
  | last
  deriving DecidableEq

/-- The flush that holds `doFlushLock`: one of the worker, or one that `Flush` was called for. -/
structure Flusher where
  worker : Option WorkerFlush
  pc : FlushPc
  deriving DecidableEq

/-- `retryOnly`: only the worker's retries. -/
def Flusher.retryOnly (f : Flusher) : Bool := f.worker = some .retry

/-- Where `flushWorker` stands; once it has returned `doneCh` is closed. -/
inductive Worker where
  | waiting
  | flush (why : WorkerFlush)
  | failed
  | exited
  deriving DecidableEq

/-- `AutobatchBlockstore` with its goroutine, its context and the backing store. -/
structure Autobatch where
  addedCids : List Cid
  bufferedBatch : BlockBatch
  flushingBatch : BlockBatch
  flushErr : Option GoError
  flushCh : Bool
  bufferCapacity : Nat
  bufferSize : Nat
  flusher : Option Flusher
  worker : Worker
  cancelled : Bool
  backing : List Block

/-- How `PutMany` of the backing store ends: all is stored, or a part with an error. -/
inductive PutResult where
  | stored
  | failed (e : GoError) (part : List Block)
  deriving DecidableEq

def PutResult.blocks (blks : List Block) : PutResult → List Block
  | .stored => blks
  | .failed _ part => blks.filter (· ∈ part)

def PutResult.err : PutResult → Option GoError
  | .stored => none
  | .failed e _ => some e

inductive Label where
  | put (blk : Block)
  | flush
  | workerWakes
  | workerStops
  | workerEnters
  | workerRetries
  | workerGivesUp
  | flushRetry (r : PutResult)
  | flushTake
  | flushWrite (r : PutResult)
  | flushReturn
  | cancel
  deriving DecidableEq

namespace Autobatch

def new (backing : List Block) (bufferCapacity : Nat) : Autobatch where
  addedCids := []
  bufferedBatch := .empty
  flushingBatch := .empty
  flushErr := none
  flushCh := false
  bufferCapacity := bufferCapacity
  bufferSize := 0
  flusher := none
  worker := .waiting
  cancelled := false
  backing := backing

section
variable (s : Autobatch)

def put (blk : Block) : Autobatch :=
  if blk.cid ∈ s.addedCids then s
  else
    { s with
      addedCids := blk.cid :: s.addedCids
      bufferedBatch := s.bufferedBatch.add blk
      bufferSize := s.bufferSize + blk.rawData.length
      flushCh := s.flushCh || decide (s.bufferSize + blk.rawData.length ≥ s.bufferCapacity) }

/-- `bs.flushErr = bs.backingBs.PutMany(ctx, bs.flushingBatch.blockList)`. -/
def putMany (r : PutResult) : Autobatch :=
  { s with backing := s.backing ++ r.blocks s.flushingBatch.blockList, flushErr := r.err }

def goTo (f : Flusher) (pc : FlushPc) : Autobatch :=
  { s with flusher := some { f with pc := pc } }

/-- A flush returns `flushErr` and gives the lock back; the worker goes on. -/
def leave (f : Flusher) : Autobatch :=
  { s with
    flusher := none
    worker :=
      match f.worker with
      | none => s.worker
      | some .last => .exited
      | some _ => if s.flushErr = none then .waiting else .failed }

/-- `bs.flushingBatch = bs.bufferedBatch`, and a fresh buffer. -/
def take : Autobatch :=
  { s with flushingBatch := s.bufferedBatch, bufferedBatch := .empty }

/-- The end of a flush that has written: the batch is reset if that went well. -/
def reset : Autobatch :=
  { s with flushingBatch := if s.flushErr = none then .empty else s.flushingBatch }

/-- One step; `doFlush` returns before the buffer is taken where it bails out. -/
def step : Label → Option Autobatch
  | .put blk => some (s.put blk)
  | .flush => if s.flusher = none then some { s with flusher := some ⟨none, .entered⟩ } else none
  | .workerWakes =>
    if s.worker = .waiting ∧ s.flushCh then some { s with worker := .flush .signal, flushCh := false } else none
  | .workerStops =>
    if s.worker = .waiting ∧ s.cancelled then some { s with worker := .flush .last } else none
  | .workerEnters =>
    match s.worker, s.flusher with
    | .flush why, none => some { s with flusher := some ⟨some why, .entered⟩ }
    | _, _ => none
  | .workerRetries => if s.worker = .failed then some { s with worker := .flush .retry } else none
  | .workerGivesUp =>
    if s.worker = .failed ∧ s.cancelled then some { s with worker := .exited } else none
  | .flushRetry r =>
    s.flusher.bind fun f =>
      if f.pc ≠ .entered then none
      else if s.flushErr = none then some (s.goTo f .checked)
      else some ((s.putMany r).goTo f .checked)
  | .flushTake =>
    s.flusher.bind fun f =>
      if f.pc = .checked ∧ f.retryOnly = false ∧ s.flushErr = none then some (s.take.goTo f .taken) else none
  | .flushWrite r =>
    s.flusher.bind fun f => if f.pc = .taken then some ((s.putMany r).goTo f .written) else none
  | .flushReturn =>
    s.flusher.bind fun f =>
      if f.pc = .checked ∧ (f.retryOnly = true ∨ s.flushErr ≠ none) then some (s.leave f)
      else if f.pc = .written then some (s.reset.leave f)
      else none
  | .cancel => some { s with cancelled := true }

def backingGet (c : Cid) : Option Block := s.backing.find? (·.cid = c)

/-- The look of `Get` under `stateLock`. -/
def lockedGet (c : Cid) : Option Block :=
  (s.flushingBatch.blockMap.lookup c).or (s.bufferedBatch.blockMap.lookup c)

section
variable (c : Cid) (s1 s2 s3 : Autobatch)

/-- `Get`, with the states in which it looks; `none` is the error of a missing block. -/
def get : Option Block :=
  ((s1.backingGet c).or (s2.lockedGet c)).or (s3.backingGet c)

def has : Bool := (get c s1 s2 s3).isSome

/-- `View`: what the callback is given. -/
def view : Option Bytes := (get c s1 s2 s3).map (·.rawData)
end

/-- `Shutdown` can return nil: the worker is done, the lock is free, and the last flush did not fail. -/
def ShutsDown : Prop := s.worker = .exited ∧ s.flusher = none ∧ s.flushErr = none
end

/-! ## What a step does -/

inductive Step (s : Autobatch) : Label → Autobatch → Prop
  | put (blk : Block) : Step s (.put blk) (s.put blk)
  | flush (hf : s.flusher = none) : Step s .flush { s with flusher := some ⟨none, .entered⟩ }
  | workerWakes (hw : s.worker = .waiting) : Step s .workerWakes { s with worker := .flush .signal, flushCh := false }
  | workerStops (hw : s.worker = .waiting) (hc : s.cancelled = true) :
      Step s .workerStops { s with worker := .flush .last }
  | workerEnters (why : WorkerFlush) (hw : s.worker = .flush why) (hf : s.flusher = none) :
      Step s .workerEnters { s with flusher := some ⟨some why, .entered⟩ }
  | workerRetries (hw : s.worker = .failed) : Step s .workerRetries { s with worker := .flush .retry }
  | workerGivesUp (hw : s.worker = .failed) (hc : s.cancelled = true) :
      Step s .workerGivesUp { s with worker := .exited }
  | noRetry (r : PutResult) (f : Flusher) (hf : s.flusher = some f) (hpc : f.pc = .entered)
      (he : s.flushErr = none) : Step s (.flushRetry r) (s.goTo f .checked)
  | retry (r : PutResult) (f : Flusher) (hf : s.flusher = some f) (hpc : f.pc = .entered)
      (he : s.flushErr ≠ none) : Step s (.flushRetry r) ((s.putMany r).goTo f .checked)
  | take (f : Flusher) (hf : s.flusher = some f) (hpc : f.pc = .checked) (he : s.flushErr = none) :
      Step s .flushTake (s.take.goTo f .taken)
  | write (r : PutResult) (f : Flusher) (hf : s.flusher = some f) (hpc : f.pc = .taken) :
      Step s (.flushWrite r) ((s.putMany r).goTo f .written)
  | bail (f : Flusher) (hf : s.flusher = some f) (hpc : f.pc = .checked)
      (hr : f.retryOnly = true ∨ s.flushErr ≠ none) : Step s .flushReturn (s.leave f)
  | finish (f : Flusher) (hf : s.flusher = some f) (hpc : f.pc = .written) : Step s .flushReturn (s.reset.leave f)
  | cancel : Step s .cancel { s with cancelled := true }

variable {s s' s2 s3 : Autobatch} {a : Label}

theorem step_cases (h : s.step a = some s') : Step s a s' := by
  revert h
  fun_cases step with
  | case1 blk =>
    rintro ⟨⟩
    exact .put blk
  | case2 hf =>
    rintro ⟨⟩
    exact .flush hf
  | case4 hw =>
    rintro ⟨⟩
    exact .workerWakes hw.1
  | case6 hw =>
    rintro ⟨⟩
    exact .workerStops hw.1 hw.2
  | case8 why hf hw =>
    rintro ⟨⟩
    exact .workerEnters why hw hf
  | case10 hw =>
    rintro ⟨⟩
    exact .workerRetries hw
  | case12 hw =>
    rintro ⟨⟩
    exact .workerGivesUp hw.1 hw.2
  | case14 r =>
    intro h
    obtain ⟨f, hf, h⟩ := bind_eq_some_iff.mp h
    by_cases hpc : f.pc = .entered
    · by_cases he : s.flushErr = none
      · obtain rfl : s.goTo f .checked = s' := by simpa [hpc, he] using h
        exact .noRetry r f hf hpc he
      · obtain rfl : (s.putMany r).goTo f .checked = s' := by simpa [hpc, he] using h
        exact .retry r f hf hpc he
    · simp [hpc] at h
  | case15 =>
    intro h
    obtain ⟨f, hf, h⟩ := bind_eq_some_iff.mp h
    obtain ⟨⟨hpc, -, he⟩, rfl⟩ : (f.pc = .checked ∧ _ ∧ s.flushErr = none) ∧ _ = s' := by simpa using h
    exact .take f hf hpc he
  | case16 r =>
    intro h
    obtain ⟨f, hf, h⟩ := bind_eq_some_iff.mp h
    obtain ⟨hpc, rfl⟩ : f.pc = .taken ∧ _ = s' := by simpa using h
    exact .write r f hf hpc
  | case17 =>
    intro h
    obtain ⟨f, hf, h⟩ := bind_eq_some_iff.mp h
    split at h
    case isTrue hb =>
      cases h
      exact .bail f hf hb.1 hb.2
    case isFalse =>
      obtain ⟨hpc, rfl⟩ : f.pc = .written ∧ _ = s' := by simpa using h
      exact .finish f hf hpc
  | case18 =>
    rintro ⟨⟩
    exact .cancel
  | _ => exact nofun

variable {r : PutResult}

theorem PutResult.blocks_of_stored (hr : r.err = none) (blks : List Block) : r.blocks blks = blks := by
  cases r with
  | stored => rfl
  | failed e part => cases hr

theorem PutResult.blocks_subset (r : PutResult) (blks : List Block) : r.blocks blks ⊆ blks := by
  cases r with
  | stored => exact refl _
  | failed e part => exact fun b hb => mem_of_mem_filter hb

/-! ## Where a block is -/

section
variable (s : Autobatch)

def Backed (c : Cid) : Prop := ∃ b ∈ s.backing, b.cid = c

def Stored (batch : BlockBatch) : Prop :=
  ∀ c b, batch.blockMap.lookup c = some b → s.Backed c

def Holds (c : Cid) : Prop :=
  s.Backed c ∨ (∃ b, s.flushingBatch.blockMap.lookup c = some b) ∨ ∃ b, s.bufferedBatch.blockMap.lookup c = some b

def pc : Option FlushPc := s.flusher.map (·.pc)
end

/-- **The invariant of the batches.** What was added is in one of the places; a flushing batch is stored as well, unless its
write failed or is to come. -/
structure Kept (s : Autobatch) : Prop where
  held : ∀ c ∈ s.addedCids, s.Holds c
  flushed : s.flushErr = none → s.pc ≠ some .taken → s.Stored s.flushingBatch
  taken : s.pc = some .taken → s.flushErr = none

theorem new_kept (backing : List Block) (bufferCapacity : Nat) : (new backing bufferCapacity).Kept where
  held := by simp [new]
  flushed := by simp [new, Stored, BlockBatch.empty]
  taken := by simp [new, pc]

variable {c : Cid}

theorem backed_putMany (r : PutResult) (h : s.Backed c) : (s.putMany r).Backed c := by
  obtain ⟨b, hb, hc⟩ := h
  exact ⟨b, mem_append_left _ hb, hc⟩

theorem stored_putMany (hr : r.err = none) : (s.putMany r).Stored s.flushingBatch := by
  intro c b hb
  obtain ⟨hc, hmem⟩ := s.flushingBatch.keyed c b hb
  refine ⟨b, mem_append_right _ ?_, hc⟩
  rw [PutResult.blocks_of_stored hr]
  exact hmem

variable {b blk : Block}

theorem holds_put (hc : c ∈ (s.put blk).addedCids) (hs : ∀ c ∈ s.addedCids, s.Holds c) : (s.put blk).Holds c := by
  unfold put at hc ⊢
  split at hc
  case isTrue ha =>
    rw [if_pos ha]
    exact hs c hc
  case isFalse ha =>
    rw [if_neg ha]
    by_cases heq : c = blk.cid
    · subst heq
      exact .inr (.inr ⟨blk, AList.lookup_insert _⟩)
    rcases hs c (mem_of_ne_of_mem heq hc) with h | h | ⟨b, hb⟩
    · exact .inl h
    · exact .inr (.inl h)
    · exact .inr (.inr ⟨b, (AList.lookup_insert_ne heq).trans hb⟩)

@[simp] theorem put_rest (s : Autobatch) (blk : Block) : (s.put blk).flushErr = s.flushErr ∧
    (s.put blk).flusher = s.flusher ∧ (s.put blk).flushingBatch = s.flushingBatch ∧ (s.put blk).backing = s.backing ∧
    (s.put blk).worker = s.worker ∧ (s.put blk).cancelled = s.cancelled := by
  unfold put
  split <;> simp

theorem holds_take (hfl : s.Stored s.flushingBatch) (h : s.Holds c) : s.take.Holds c := by
  rcases h with h | ⟨b, hb⟩ | h
  · exact .inl h
  · exact .inl (hfl c b hb)
  · exact .inr (.inl h)

theorem holds_reset (hfl : s.flushErr = none → s.Stored s.flushingBatch) (h : s.Holds c) : s.reset.Holds c := by
  rcases h with h | ⟨b, hb⟩ | h
  · exact .inl h
  · by_cases he : s.flushErr = none
    · exact .inl (hfl he c b hb)
    · exact .inr (.inl ⟨b, by rw [reset, if_neg he, hb]⟩)
  · exact .inr (.inr h)

theorem holds_putMany (r : PutResult) (h : s.Holds c) : (s.putMany r).Holds c :=
  h.imp_left (backed_putMany r)

theorem stored_reset (he : s.flushErr = none) : s.reset.Stored s.reset.flushingBatch := by
  simp [reset, he, Stored, BlockBatch.empty]

theorem Kept.step (hs : s.Kept) (h : s.step a = some s') : s'.Kept := by
  cases step_cases h with
  | put blk =>
    refine ⟨fun c hc => holds_put hc hs.held, ?_, ?_⟩
    · simpa [pc, Stored, Backed] using hs.flushed
    · simpa [pc] using hs.taken
  | flush hf | workerEnters why hw hf => exact ⟨hs.held, fun he _ => hs.flushed he (by simp [pc, hf]), by simp [pc]⟩
  | noRetry r f hf hpc he =>
    exact ⟨hs.held, fun he _ => hs.flushed he (by simp [pc, hf, hpc]), by simp [pc, goTo]⟩
  | retry r f hf hpc he | write r f hf hpc =>
    exact ⟨fun c hc => holds_putMany r (hs.held c hc), fun hr _ => stored_putMany (s := s) hr, by simp [pc, goTo]⟩
  | take f hf hpc he =>
    -- the batch that is dropped here was written, or it would not have come to this
    have hfl := hs.flushed he (by simp [pc, hf, hpc])
    exact ⟨fun c hc => holds_take hfl (hs.held c hc), fun _ hne => absurd rfl hne, fun _ => he⟩
  | bail f hf hpc hr =>
    exact ⟨hs.held, fun he _ => hs.flushed he (by simp [pc, hf, hpc]), by simp [pc, leave]⟩
  | finish f hf hpc =>
    have hfl := fun he => hs.flushed he (by simp [pc, hf, hpc])
    exact ⟨fun c hc => holds_reset hfl (hs.held c hc), fun he _ => stored_reset he, by simp [pc, leave]⟩
  | workerWakes | workerStops | workerRetries | workerGivesUp | cancel => exact ⟨hs.held, hs.flushed, hs.taken⟩

theorem step_grows (h : s.step a = some s') : s.backing ⊆ s'.backing ∧ s.addedCids ⊆ s'.addedCids := by
  cases step_cases h with
  | put blk =>
    refine ⟨by simp, ?_⟩
    unfold put
    split
    · exact refl _
    · exact subset_cons_self _ _
  | retry r f hf hpc he | write r f hf hpc => exact ⟨subset_append_left _ _, refl _⟩
  | _ => exact ⟨refl _, refl _⟩

variable {as : List Label}

theorem run_grows (h : run step s as = some s') : s.backing ⊆ s'.backing ∧ s.addedCids ⊆ s'.addedCids := by
  apply run_invariant (P := fun s1 => s.backing ⊆ s1.backing ∧ s.addedCids ⊆ s1.addedCids) ?_ ?_ h
  · intro s1 a s2 hs1 hst
    exact ⟨Subset.trans hs1.1 (step_grows hst).1, Subset.trans hs1.2 (step_grows hst).2⟩
  · exact ⟨Subset.refl _, Subset.refl _⟩

theorem mem_put_addedCids (s : Autobatch) (blk : Block) : blk.cid ∈ (s.put blk).addedCids := by
  unfold put
  split
  case isTrue h => exact h
  case isFalse => exact mem_cons_self

theorem added_of_put (h : run step s as = some s') (hpu : .put blk ∈ as) : blk.cid ∈ s'.addedCids := by
  obtain ⟨pre, post, rfl⟩ := append_of_mem hpu
  obtain ⟨s1, -, hrun⟩ := run_append.mp h
  obtain ⟨s2, hst, hrun⟩ := run_cons.mp hrun
  cases hst
  exact (run_grows hrun).2 (mem_put_addedCids s1 blk)

structure Known (K : Block → Prop) (s : Autobatch) : Prop where
  backing : ∀ b ∈ s.backing, K b
  flushing : ∀ b ∈ s.flushingBatch.blockList, K b
  buffered : ∀ b ∈ s.bufferedBatch.blockList, K b

variable {K : Block → Prop}

theorem known_putMany (r : PutResult) (hs : Known K s) : Known K (s.putMany r) where
  backing := by
    intro b hb
    rcases mem_append.mp hb with hb | hb
    · exact hs.backing b hb
    · exact hs.flushing b (PutResult.blocks_subset r _ hb)
  flushing := hs.flushing
  buffered := hs.buffered

theorem Known.step (hs : Known K s) (hK : ∀ blk, a = .put blk → K blk) (h : s.step a = some s') : Known K s' := by
  cases step_cases h with
  | put blk =>
    refine ⟨by simpa using hs.backing, by simpa using hs.flushing, ?_⟩
    unfold put
    split
    · exact hs.buffered
    intro b hb
    rcases mem_append.mp hb with hb | hb
    · exact hs.buffered b hb
    · obtain rfl := mem_singleton.mp hb
      exact hK b rfl
  | retry r f hf hpc he | write r f hf hpc =>
    have h := known_putMany r hs
    exact ⟨h.backing, h.flushing, h.buffered⟩
  | take f hf hpc he => exact ⟨hs.backing, hs.buffered, by simp [goTo, Autobatch.take, BlockBatch.empty]⟩
  | finish f hf hpc =>
    refine ⟨hs.backing, ?_, hs.buffered⟩
    show ∀ b ∈ (if s.flushErr = none then BlockBatch.empty else s.flushingBatch).blockList, K b
    split
    · simp [BlockBatch.empty]
    · exact hs.flushing
  | _ => exact ⟨hs.backing, hs.flushing, hs.buffered⟩

theorem run_known (hs : Known K s) (hK : ∀ blk, .put blk ∈ as → K blk) (h : run step s as = some s') : Known K s' := by
  have hleg : Legal step (fun _ a => ∀ blk, a = .put blk → K blk) s as :=
    legal_of_forall fun a ha _ blk heq => hK blk (heq ▸ ha)
  exact run_legal (fun s a s' => Known.step) hs hleg h

/-! ## Reading -/

theorem backingGet_of_mem (h : s.Backed c) : ∃ b, s.backingGet c = some b := by
  obtain ⟨b, hb, hc⟩ := h
  exact isSome_iff_exists.mp (find?_isSome.mpr ⟨b, hb, by simpa using hc⟩)

theorem backingGet_eq (h : s.backingGet c = some b) : b ∈ s.backing ∧ b.cid = c :=
  ⟨mem_of_find?_eq_some h, by simpa using find?_some h⟩

theorem lockedGet_eq (h : s.lockedGet c = some b) :
    (b ∈ s.flushingBatch.blockList ∨ b ∈ s.bufferedBatch.blockList) ∧ b.cid = c := by
  rcases or_eq_some_iff.mp h with h | ⟨-, h⟩
  · exact ⟨.inl (s.flushingBatch.keyed c b h).2, (s.flushingBatch.keyed c b h).1⟩
  · exact ⟨.inr (s.bufferedBatch.keyed c b h).2, (s.bufferedBatch.keyed c b h).1⟩

theorem get_found (s1 : Autobatch) (h : s2.Holds c) (hba : s2.backing ⊆ s3.backing) : ∃ b, get c s1 s2 s3 = some b := by
  have hlo : (∃ b, s2.lockedGet c = some b) ∨ ∃ b, s3.backingGet c = some b := by
    rcases h with ⟨b, hb, hc⟩ | ⟨b, hb⟩ | ⟨b, hb⟩
    · exact .inr (backingGet_of_mem ⟨b, hba hb, hc⟩)
    · exact .inl ⟨b, by simp [lockedGet, hb]⟩
    cases hfl : s2.flushingBatch.blockMap.lookup c with
    | none => exact .inl ⟨b, by simp [lockedGet, hb, hfl]⟩
    | some b' => exact .inl ⟨b', by simp [lockedGet, hfl]⟩
  apply isSome_iff_exists.mp
  rcases hlo with ⟨b, hb⟩ | ⟨b, hb⟩ <;> simp [get, hb]

theorem get_known {s1 : Autobatch} (h1 : Known K s1) (h2 : Known K s2) (h3 : Known K s3) (h : get c s1 s2 s3 = some b) :
    b.cid = c ∧ K b := by
  rcases or_eq_some_iff.mp h with h | ⟨-, h⟩
  · rcases or_eq_some_iff.mp h with h | ⟨-, h⟩
    · exact ⟨(backingGet_eq h).2, h1.backing b (backingGet_eq h).1⟩
    · exact ⟨(lockedGet_eq h).2, (lockedGet_eq h).1.elim (h2.flushing b) (h2.buffered b)⟩
  · exact ⟨(backingGet_eq h).2, h3.backing b (backingGet_eq h).1⟩

/-! ## Shutting down -/

def Drained (P : List Cid) (s : Autobatch) : Prop := ∀ c ∈ P, s.bufferedBatch.blockMap.lookup c = none

/-- None of the blocks is left behind if no more flush is started. -/
def Covered (P : List Cid) (s : Autobatch) : Prop :=
  Drained P s ∨ s.flushErr ≠ none ∨ s.pc = some .entered ∨ s.pc = some .checked

/-- The worker has left no block behind, by its return or in its last flush. -/
structure Attended (P : List Cid) (s : Autobatch) : Prop where
  exited : s.worker = .exited → Covered P s
  last : ∀ f, s.flusher = some f → f.worker = some .last → f.pc = .taken ∨ f.pc = .written → Drained P s

/-- **The invariant of the worker.**  It waits while a flush of its own is in progress, and stops only when the context is
cancelled. -/
structure Placed (s : Autobatch) : Prop where
  owner : ∀ f why, s.flusher = some f → f.worker = some why → s.worker = .flush why
  stopped : s.worker = .exited ∨ s.worker = .flush .last → s.cancelled = true

theorem new_placed (backing : List Block) (bufferCapacity : Nat) : (new backing bufferCapacity).Placed :=
  ⟨by simp [new], by simp [new]⟩

variable {f : Flusher}

theorem leave_exited (h : (s.leave f).worker = .exited) : f.worker = some .last ∨ f.worker = none ∧ s.worker = .exited := by
  rcases hw : f.worker with _ | why
  · exact .inr ⟨rfl, by simpa [leave, hw] using h⟩
  cases why with
  | last => exact .inl rfl
  | signal | retry => by_cases he : s.flushErr = none <;> simp [leave, hw, he] at h

theorem leave_not_last (h : (s.leave f).worker = .flush .last) : f.worker = none ∧ s.worker = .flush .last := by
  rcases hw : f.worker with _ | why
  · exact ⟨rfl, by simpa [leave, hw] using h⟩
  cases why with
  | last => simp [leave, hw] at h
  | signal | retry => by_cases he : s.flushErr = none <;> simp [leave, hw, he] at h

section
variable (hs : s.Placed)
include hs

theorem Placed.leave (hf : s.flusher = some f) : (s.leave f).Placed := by
  refine ⟨by simp [Autobatch.leave], ?_⟩
  rintro (hw | hw)
  · rcases leave_exited hw with hla | ⟨-, hw⟩
    · exact hs.stopped (.inr (hs.owner f .last hf hla))
    · exact hs.stopped (.inl hw)
  · exact hs.stopped (.inr (leave_not_last hw).2)

theorem Placed.goTo (hf : s.flusher = some f) (pc : FlushPc) : (s.goTo f pc).Placed := by
  refine ⟨?_, hs.stopped⟩
  intro f' why hf' hwhy
  cases hf'
  exact hs.owner f why hf hwhy

theorem Placed.step (h : s.step a = some s') : s'.Placed := by
  cases step_cases h with
  | put blk => exact ⟨by simpa using hs.owner, by simpa using hs.stopped⟩
  | flush hf =>
    refine ⟨?_, hs.stopped⟩
    rintro f why ⟨⟩ hwhy
    cases hwhy
  | workerWakes hw | workerRetries hw => exact ⟨fun f why hf hwhy => by simpa [hw] using hs.owner f why hf hwhy, by simp⟩
  | workerStops hw hc | workerGivesUp hw hc =>
    exact ⟨fun f why hf hwhy => by simpa [hw] using hs.owner f why hf hwhy, fun _ => hc⟩
  | workerEnters why hw hf =>
    refine ⟨?_, hs.stopped⟩
    rintro f why' ⟨⟩ hwhy
    exact hw.trans (congrArg Worker.flush (some.inj hwhy))
  | noRetry r f hf hpc he => exact hs.goTo hf _
  | retry r f hf hpc he | write r f hf hpc => exact Placed.goTo (s := s.putMany r) ⟨hs.owner, hs.stopped⟩ hf _
  | take f hf hpc he => exact Placed.goTo (s := s.take) ⟨hs.owner, hs.stopped⟩ hf _
  | bail f hf hpc hr => exact hs.leave hf
  | finish f hf hpc => exact Placed.leave (s := s.reset) ⟨hs.owner, hs.stopped⟩ hf
  | cancel => exact ⟨hs.owner, fun _ => rfl⟩

theorem Placed.attended (hc : s.cancelled = false) (P : List Cid) : Attended P s where
  exited hw := by simp [hs.stopped (.inl hw)] at hc
  last f hf hla _ := by simp [hs.stopped (.inr (hs.owner f .last hf hla))] at hc
end

variable {P : List Cid}

theorem drained_put (blk : Block) (hP : P ⊆ s.addedCids) (h : Drained P s) : Drained P (s.put blk) := by
  intro c hc
  unfold put
  split
  case isTrue => exact h c hc
  case isFalse hnew =>
    have hne : c ≠ blk.cid := fun heq => hnew (heq ▸ hP hc)
    exact (AList.lookup_insert_ne hne).trans (h c hc)

theorem Covered.drained (h : Covered P s) (he : s.flushErr = none) (hpc : s.pc ≠ some .entered ∧ s.pc ≠ some .checked) :
    Drained P s := by
  rcases h with h | h | h | h
  · exact h
  · exact absurd he h
  · exact absurd h hpc.1
  · exact absurd h hpc.2

theorem Attended.step (hs : Attended P s) (hk : s.Kept) (hP : P ⊆ s.addedCids)
    (hg : a = .workerGivesUp → Covered P s) (h : s.step a = some s') : Attended P s' := by
  cases step_cases h with
  | put blk =>
    refine ⟨?_, ?_⟩
    · intro hw
      have hco := hs.exited (by simpa using hw)
      simpa [Covered, pc] using hco.imp_left (drained_put blk hP)
    · intro f hf hla hpc
      exact drained_put blk hP (hs.last f (by simpa using hf) hla hpc)
  | flush hf | workerEnters why hw hf => exact ⟨fun _ => .inr (.inr (.inl rfl)), by simp⟩
  | workerWakes hw | workerStops hw hc | workerRetries hw => exact ⟨by simp, hs.last⟩
  | workerGivesUp hw hc => exact ⟨fun _ => hg rfl, hs.last⟩
  | noRetry r f hf hpc he | retry r f hf hpc he => exact ⟨fun _ => .inr (.inr (.inr rfl)), by simp [goTo]⟩
  | take f hf hpc he =>
    -- the buffer is empty now
    exact ⟨fun _ => .inl fun _ _ => rfl, fun _ _ _ _ _ _ => rfl⟩
  | write r f hf hpc =>
    have hta : s.pc = some .taken := by simp [pc, hf, hpc]
    refine ⟨fun hw => .inl ((hs.exited hw).drained (hk.taken hta) (by simp [hta])), ?_⟩
    intro f' hf' hla _
    cases hf'
    exact hs.last f hf hla (.inl hpc)
  | bail f hf hpc hr =>
    refine ⟨?_, by simp [leave]⟩
    intro hw
    -- a retry-only flush is the worker's own, and the worker is not done after it
    have hre : f.retryOnly = false := by
      rcases leave_exited hw with hla | ⟨hn, -⟩
      · simp [Flusher.retryOnly, hla]
      · simp [Flusher.retryOnly, hn]
    exact .inr (.inl (hr.resolve_left (by simp [hre])))
  | finish f hf hpc =>
    refine ⟨?_, by simp [leave]⟩
    intro hw
    have hwt : s.pc = some .written := by simp [pc, hf, hpc]
    by_cases he : s.flushErr = none
    · rcases leave_exited hw with hla | ⟨-, hw⟩
      · exact .inl (hs.last f hf hla (.inr hpc))
      · exact .inl ((hs.exited hw).drained he (by simp [hwt]))
    · exact .inr (.inl he)
  | cancel => exact ⟨hs.exited, hs.last⟩

theorem ShutsDown.backed (hd : s.ShutsDown) (hk : s.Kept) (hP : P ⊆ s.addedCids) (hs : Attended P s)
    (hc : c ∈ P) : s.Backed c := by
  obtain ⟨hw, hf, he⟩ := hd
  have hpc : s.pc = none := by simp [pc, hf]
  rcases hk.held c (hP hc) with h | ⟨b, hb⟩ | ⟨b, hb⟩
  · exact h
  · exact hk.flushed he (by simp [hpc]) c b hb
  have hdra := (hs.exited hw).drained he (by simp [hpc])
  rw [hdra c hc] at hb
  cases hb

/-- The labels that do not let the worker give up before the blocks are covered. -/
def Patient (P : List Cid) (s : Autobatch) (a : Label) : Prop := a = .workerGivesUp → Covered P s

theorem run_attended (hk : s.Kept) (hP : P ⊆ s.addedCids) (hs : Attended P s) (hleg : Legal step (Patient P) s as)
    (h : run step s as = some s') : s'.Kept ∧ P ⊆ s'.addedCids ∧ Attended P s' := by
  refine run_legal (P := fun s => s.Kept ∧ P ⊆ s.addedCids ∧ Attended P s) ?_ ⟨hk, hP, hs⟩ hleg h
  rintro s1 a s2 ⟨hk, hP, hs⟩ hpa hst
  exact ⟨hk.step hst, Subset.trans hP (step_grows hst).2, hs.step hk hP hpa hst⟩

/-- **No block is lost**: one that was put is found by every later look, and is in the backing store if `Shutdown` returns
nil, provided that the worker left none behind and does not give up with one in the buffer. -/
theorem autobatch_no_loss (backing : List Block) (bufferCapacity : Nat) :
    (∀ (pre mid1 mid2 : List Label) (s1 s2 s3 : Autobatch) (blk : Block),
      run step (new backing bufferCapacity) pre = some s1 → .put blk ∈ pre →
      run step s1 mid1 = some s2 → run step s2 mid2 = some s3 →
      ∃ b, get blk.cid s1 s2 s3 = some b ∧ b.cid = blk.cid ∧
        (b ∈ backing ∨ .put b ∈ pre ++ mid1 ++ mid2) ∧
        has blk.cid s1 s2 s3 = true ∧ view blk.cid s1 s2 s3 = some b.rawData) ∧
    ∀ (pre post : List Label) (s s' : Autobatch) (blk : Block),
      run step (new backing bufferCapacity) pre = some s → .put blk ∈ pre →
      Attended s.addedCids s → run step s (.cancel :: post) = some s' →
      Legal step (Patient s.addedCids) s (.cancel :: post) → s'.ShutsDown →
      ∃ b ∈ s'.backing, b.cid = blk.cid ∧ (b ∈ backing ∨ .put b ∈ pre ++ post) := by
  have hnew : ∀ K : Block → Prop, (∀ b ∈ backing, K b) → Known K (new backing bufferCapacity) :=
    fun K hK => ⟨hK, by simp [new, BlockBatch.empty], by simp [new, BlockBatch.empty]⟩
  refine ⟨?_, ?_⟩
  · intro pre mid1 mid2 s1 s2 s3 blk h1 hpu h2 h3
    have hk1 := run_invariant (fun s a s' => Kept.step) (new_kept backing bufferCapacity) h1
    have hk2 := run_invariant (fun s a s' => Kept.step) hk1 h2
    have ha := (run_grows h2).2 (added_of_put h1 hpu)
    obtain ⟨b, hb⟩ := get_found s1 (hk2.held _ ha) (run_grows h3).1
    have hkn1 := run_known (hnew (fun b => b ∈ backing ∨ .put b ∈ pre ++ mid1 ++ mid2) fun b => .inl)
      (fun b hb => .inr (by simp [hb])) h1
    have hkn2 := run_known hkn1 (fun b hb => .inr (by simp [hb])) h2
    have hkn3 := run_known hkn2 (fun b hb => .inr (by simp [hb])) h3
    obtain ⟨hci, hfr⟩ := get_known hkn1 hkn2 hkn3 hb
    exact ⟨b, hb, hci, hfr, by simp [has, hb], by simp [view, hb]⟩
  intro pre post s s' blk h1 hpu hat h2 hleg hd
  have hk := run_invariant (fun s a s' => Kept.step) (new_kept backing bufferCapacity) h1
  obtain ⟨hk', hP, ha'⟩ := run_attended hk (refl _) hat hleg h2
  obtain ⟨b, hb, hci⟩ := hd.backed hk' hP ha' (added_of_put h1 hpu)
  have hkn1 := run_known (hnew (fun b => b ∈ backing ∨ .put b ∈ pre ++ post) fun b => .inl) (fun b hb => .inr (by simp [hb])) h1
  have hkn2 := run_known hkn1 (fun b hb => .inr (by simp at hb; simp [hb])) h2
  exact ⟨b, hb, hci, hkn2.backing b hb⟩

theorem autobatch_no_loss_lastFlush :
    ∃ s s' : Autobatch, run step (new [] 10) [.put ⟨⟨[1]⟩, [7]⟩] = some s ∧
      run step s [.cancel, .workerStops, .workerEnters, .flushRetry .stored, .flushTake, .flushWrite .stored,
        .flushReturn] = some s' ∧ s'.ShutsDown ∧
      (∃ b, get ⟨[1]⟩ s s s = some b ∧ b.cid = ⟨[1]⟩) ∧ ∃ b ∈ s'.backing, b.cid = ⟨[1]⟩ := by
  refine ⟨_, _, rfl, rfl, ⟨rfl, rfl, rfl⟩, ?_, ?_⟩
  · obtain ⟨b, hg, hci, -⟩ := (autobatch_no_loss [] 10).1 [.put ⟨⟨[1]⟩, [7]⟩] [] [] _ _ _ ⟨⟨[1]⟩, [7]⟩ rfl (by decide) rfl rfl
    exact ⟨b, hg, hci⟩
  obtain ⟨b, hb, hci, -⟩ := (autobatch_no_loss [] 10).2 [.put ⟨⟨[1]⟩, [7]⟩]
    [.workerStops, .workerEnters, .flushRetry .stored, .flushTake, .flushWrite .stored, .flushReturn] _ _
    ⟨⟨[1]⟩, [7]⟩ rfl (by decide) (((new_placed [] 10).step (a := .put ⟨⟨[1]⟩, [7]⟩) rfl).attended rfl _) rfl
    (legal_of_forall (by simp [Patient])) ⟨rfl, rfl, rfl⟩
  exact ⟨b, hb, hci⟩

/-- A block is put after a `Flush` in place of a retry. The worker gives up, and `Shutdown` returns nil without it. -/
theorem autobatch_shutdown_loses :
    ∃ s s' : Autobatch,
      run step (new [] 1) [.put ⟨⟨[1]⟩, [7]⟩, .workerWakes, .workerEnters, .flushRetry .stored, .flushTake,
        .flushWrite (.failed (.errorf "disk full") []), .flushReturn, .flush, .flushRetry .stored, .flushTake,
        .flushWrite .stored, .flushReturn, .put ⟨⟨[2]⟩, [8]⟩] = some s ∧
      run step s [.cancel, .workerGivesUp] = some s' ∧ s'.ShutsDown ∧ ¬ ∃ b ∈ s'.backing, b.cid = ⟨[2]⟩ :=
  ⟨_, _, rfl, rfl, ⟨rfl, rfl, rfl⟩, by decide⟩

/-! ## Flushing -/

/-- A call of `Flush` is at work. Once it has taken the buffer, none of the blocks is left there. -/
structure Flushing (P : List Cid) (s : Autobatch) : Prop where
  kept : s.Kept
  added : P ⊆ s.addedCids
  flusher : ∃ f, s.flusher = some f ∧ f.worker = none ∧ (f.pc = .taken ∨ f.pc = .written → Drained P s)

theorem Flushing.step (hs : Flushing P s) (hre : a ≠ .flushReturn) (h : s.step a = some s') : Flushing P s' := by
  obtain ⟨f, hf, hw, hdr⟩ := hs.flusher
  refine ⟨hs.kept.step h, Subset.trans hs.added (step_grows h).2, ?_⟩
  cases step_cases h with
  | put blk => exact ⟨f, by simpa using hf, hw, fun hpc => drained_put blk hs.added (hdr hpc)⟩
  | flush hn | workerEnters why _ hn => cases hf.symm.trans hn
  | workerWakes | workerStops | workerRetries | workerGivesUp | cancel => exact ⟨f, hf, hw, hdr⟩
  | noRetry r f' hf' | retry r f' hf' =>
    cases hf.symm.trans hf'
    exact ⟨_, rfl, hw, by simp⟩
  | take f' hf' =>
    cases hf.symm.trans hf'
    exact ⟨_, rfl, hw, fun _ _ _ => rfl⟩
  | write r f' hf' hpc =>
    cases hf.symm.trans hf'
    exact ⟨_, rfl, hw, fun _ => hdr (.inl hpc)⟩
  | bail | finish => exact absurd rfl hre

theorem Flushing.returned (hs : Flushing P s) (h : s.step .flushReturn = some s') (he : s'.flushErr = none) :
    ∀ c ∈ P, s'.Backed c := by
  obtain ⟨f, hf, hw, hdr⟩ := hs.flusher
  intro c hc
  cases step_cases h with
  | bail f' hf' _ hbail =>
    cases hf.symm.trans hf'
    exact absurd he (hbail.resolve_left (by simp [Flusher.retryOnly, hw]))
  | finish f' hf' hpc =>
    cases hf.symm.trans hf'
    rcases hs.kept.held c (hs.added hc) with hb | ⟨b, hb⟩ | ⟨b, hb⟩
    · exact hb
    · exact hs.kept.flushed he (by simp [pc, hf, hpc]) c b hb
    · cases (hdr (.inr hpc) c hc).symm.trans hb

/-- **A flush is durable.** When `Flush` returns nil, every block put before the call is in the backing store, whatever else
was put and whatever the worker did since. -/
theorem flush_stores (backing : List Block) (bufferCapacity : Nat) (pre mid : List Label) (s s1 s' : Autobatch)
    (hpre : run step (new backing bufferCapacity) pre = some s) (hmid : .flushReturn ∉ mid)
    (hrun : run step s (.flush :: mid) = some s1) (hret : s1.step .flushReturn = some s') (he : s'.flushErr = none)
    (blk : Block) (hput : .put blk ∈ pre) : ∃ b ∈ s'.backing, b.cid = blk.cid := by
  have hk : s.Kept := run_invariant (fun _ _ _ hs => hs.step) (new_kept backing bufferCapacity) hpre
  obtain ⟨s2, hst, hrun⟩ := run_cons.mp hrun
  have hfl : Flushing s.addedCids s2 := by
    refine ⟨hk.step hst, (step_grows hst).2, ?_⟩
    cases step_cases hst with
    | flush => exact ⟨_, rfl, rfl, by simp⟩
  have hs1 : Flushing s.addedCids s1 :=
    run_legal (fun _ _ _ hs ha => hs.step ha) hfl (legal_of_forall fun a ha _ => ne_of_mem_of_not_mem ha hmid) hrun
  exact hs1.returned hret he blk.cid (added_of_put hpre hput)

/-- The first write of block 1 fails. `Flush` stores it, and block 2 with it, while block 3 is put. -/
theorem flush_stores_retried :
    let pre : List Label := [.put ⟨⟨[1]⟩, [7]⟩, .flush, .flushRetry .stored, .flushTake,
      .flushWrite (.failed (.errorf "disk full") []), .flushReturn, .put ⟨⟨[2]⟩, [8]⟩]
    let mid : List Label := [.flushRetry .stored, .flushTake, .put ⟨⟨[3]⟩, [9]⟩, .flushWrite .stored]
    ∃ s s1 s' : Autobatch, run step (new [] 10) pre = some s ∧ s.flushErr.isSome = true ∧ run step s (.flush :: mid) = some s1 ∧
      s1.step .flushReturn = some s' ∧ ∀ blk, .put blk ∈ pre → ∃ b ∈ s'.backing, b.cid = blk.cid := by
  intro pre mid
  exact ⟨_, _, _, rfl, rfl, rfl, rfl, flush_stores [] 10 pre mid _ _ _ rfl (by decide) rfl rfl rfl⟩

end Autobatch
end Lotus.Blockstore

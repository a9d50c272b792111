/-
# The mark set in memory (`blockstore/splitstore/markset_map.go`).

In a critical section a mark set is also a file of keys, each after its length in one byte. Every call is one step. A crash
keeps what was synced: `BeginCriticalSection` writes the file and does not sync it; a call that adds a key does.
-/
import Lotus.Lib.Lts
import Lotus.Types.Basic

namespace Lotus.Splitstore
open Lib.Lts List Finset

/-- `MapMarkSet`; `file` is what was written, and `synced` what was there at the last sync. -/
structure MapMarkSet where
  set : Finset Bytes
  persist : Bool
  file : Option Bytes
  synced : Option Bytes
  returned : Finset Bytes
deriving DecidableEq

namespace MapMarkSet

/-- What `writeKey` writes. -/
def record (key : Bytes) : Bytes := Fin.ofNat 256 key.length :: key

/-- The loop of `Recover`. -/
def readKeys (bs : Bytes) (set : Finset Bytes) : Except GoError (Finset Bytes) :=
  match bs with
  | [] => .ok set
  | sz :: rest =>
    if rest.length < sz.val then
      -- `io.ReadFull` that finds nothing at all says `io.EOF`, as the end of the file does
      if rest = [] then .ok set else .error (.wrap "error reading markset file" (.errorf "unexpected EOF"))
    else readKeys (rest.drop sz.val) (insert (rest.take sz.val) set)
termination_by bs.length
decreasing_by
  simp only [length_drop, length_cons]
  omega

/-- The keys that `MapMarkSetEnv.Recover` finds. -/
def recover (file : Option Bytes) : Except GoError (Finset Bytes) :=
  match file with
  | none => .error (.errorf "error opening markset file for read")
  | some bs => readKeys bs ∅

def new : MapMarkSet := ⟨∅, false, none, none, ∅⟩

section
variable (s : MapMarkSet)

def writeKeys (keys : List Bytes) : MapMarkSet :=
  { s with file := s.file.map (· ++ keys.flatMap record) }

def sync : MapMarkSet := { s with synced := s.file }

def returns (keys : List Bytes) : MapMarkSet := { s with returned := s.returned ∪ keys.toFinset }

def markMany (keys : List Bytes) : MapMarkSet :=
  let s := { s with set := s.set ∪ keys.toFinset }
  let s := if s.persist then (s.writeKeys keys).sync else s
  s.returns keys

def mark (key : Bytes) : MapMarkSet := s.markMany [key]

/-- `Visit`, which says whether the key is new. -/
def visit (key : Bytes) : MapMarkSet × Bool :=
  if key ∈ s.set then (s.returns [key], false) else (s.markMany [key], true)

/-- `BeginCriticalSection`; `order` is the order in which the map is iterated. -/
def beginCriticalSection (order : List Bytes) : MapMarkSet :=
  if s.persist then s
  else
    -- the file is made anew: nothing of it is synced
    let s := { s with file := some [], synced := none }
    { s.writeKeys order with persist := true }

def endCriticalSection : MapMarkSet :=
  if s.persist then { s with persist := false, file := none, synced := none } else s

def crash : Option MapMarkSet :=
  match recover s.synced with
  | .error _ => none
  | .ok set => some { s with set := set, persist := true, file := s.synced }

inductive Label where
  | mark (key : Bytes)
  | markMany (keys : List Bytes)
  | visit (key : Bytes)
  | beginCriticalSection (order : List Bytes)
  | endCriticalSection
  | crash
deriving DecidableEq

def step (a : Label) : Option MapMarkSet :=
  match a with
  | .mark key => some (s.mark key)
  | .markMany keys => some (s.markMany keys)
  | .visit key => some (s.visit key).1
  | .beginCriticalSection order =>
    if order.Nodup ∧ order.toFinset = s.set then some (s.beginCriticalSection order) else none
  | .endCriticalSection => some s.endCriticalSection
  | .crash => s.crash
end

/-! ## The file -/

def Short (key : Bytes) : Prop := key.length < 256

instance decidableShort (key : Bytes) : Decidable (Short key) := inferInstanceAs (Decidable (_ < _))

variable {key : Bytes}

theorem readKeys_record (hk : Short key) (rest : Bytes) (set : Finset Bytes) :
    readKeys (record key ++ rest) set = readKeys rest (insert key set) := by
  have hlen : (Fin.ofNat 256 key.length).val = key.length := Nat.mod_eq_of_lt hk
  show readKeys (Fin.ofNat 256 key.length :: (key ++ rest)) set = _
  rw [readKeys, hlen, if_neg (by simp)]
  simp only [take_left, drop_left]

variable {keys : List Bytes}

theorem readKeys_records (hk : ∀ key ∈ keys, Short key) (set : Finset Bytes) :
    readKeys (keys.flatMap record) set = .ok (set ∪ keys.toFinset) := by
  induction keys generalizing set with
  | nil =>
    rw [flatMap_nil, readKeys]
    simp
  | cons key keys ih =>
    rw [flatMap_cons, readKeys_record (hk key mem_cons_self), ih fun key' hk' => hk key' (mem_cons_of_mem key hk')]
    simp [insert_union, union_insert]

def Holds (file : Option Bytes) (set : Finset Bytes) : Prop :=
  ∃ keys : List Bytes, (∀ key ∈ keys, Short key) ∧ keys.toFinset = set ∧ file = some (keys.flatMap record)

variable {file : Option Bytes} {set : Finset Bytes}

theorem Holds.recover (h : Holds file set) : recover file = .ok set := by
  obtain ⟨keys, hsh, rfl, rfl⟩ := h
  show readKeys (keys.flatMap record) ∅ = _
  rw [readKeys_records hsh, empty_union]

theorem Holds.append (h : Holds file set) (hk : ∀ key ∈ keys, Short key) :
    Holds (file.map (· ++ keys.flatMap record)) (set ∪ keys.toFinset) := by
  obtain ⟨keys', hsh, rfl, rfl⟩ := h
  refine ⟨keys' ++ keys, fun key hke => ?_, toFinset_append, ?_⟩
  · exact (mem_append.mp hke).elim (hsh key) (hk key)
  · rw [flatMap_append]
    rfl

/-! ## Runs -/

def Label.Fits (a : Label) : Prop :=
  match a with
  | .mark key => Short key
  | .markMany keys => ∀ key ∈ keys, Short key
  | .visit key => Short key
  | _ => True

instance decidableFits (a : Label) : Decidable a.Fits := by
  unfold Label.Fits
  cases a <;> infer_instance

/-- In a critical section the file holds the set, and what is synced is the file. -/
structure Inv (s : MapMarkSet) : Prop where
  short : ∀ key ∈ s.set, Short key
  returned : s.returned ⊆ s.set
  file : s.persist = true → Holds s.file s.set
  synced : s.synced = none ∨ s.persist = true ∧ s.synced = s.file

theorem inv_new : Inv new :=
  ⟨fun _ h => absurd h (Finset.notMem_empty _), Finset.Subset.refl _, fun h => absurd h Bool.false_ne_true, .inl rfl⟩

variable {s s' : MapMarkSet}

section
variable (h : Inv s)
include h

theorem Inv.returns (hk : keys.toFinset ⊆ s.set) : Inv (s.returns keys) :=
  ⟨h.short, union_subset h.returned hk, h.file, h.synced⟩

theorem Inv.markMany (hk : ∀ key ∈ keys, Short key) : Inv (s.markMany keys) := by
  have hsh : ∀ key ∈ s.set ∪ keys.toFinset, Short key := fun key hke =>
    (mem_union.mp hke).elim (h.short key) fun hmem => hk key (mem_toFinset.mp hmem)
  have hre : s.returned ⊆ s.set ∪ keys.toFinset := h.returned.trans subset_union_left
  refine Inv.returns ?_ ?_
  · dsimp only
    split_ifs with hps
    · -- written, flushed and synced before the mutex is given back
      exact ⟨hsh, hre, fun _ => (h.file hps).append hk, .inr ⟨hps, rfl⟩⟩
    · refine ⟨hsh, hre, fun hp => absurd hp hps, .inl ?_⟩
      exact h.synced.elim id fun hs => absurd hs.1 hps
  · dsimp only
    split_ifs <;> exact subset_union_right

theorem Inv.visit (hk : Short key) : Inv (s.visit key).1 := by
  unfold MapMarkSet.visit
  split_ifs with hmem
  · exact h.returns (by simpa using hmem)
  · exact h.markMany (by simpa using hk)

theorem Inv.beginCriticalSection {order : List Bytes} (ho : order.toFinset = s.set) : Inv (s.beginCriticalSection order) := by
  unfold MapMarkSet.beginCriticalSection
  split_ifs with hps
  · exact h
  have hsh : ∀ key ∈ order, Short key := fun key hk =>
    h.short key (ho ▸ mem_toFinset.mpr hk)
  exact ⟨h.short, h.returned, fun _ => ⟨order, hsh, ho, rfl⟩, .inl rfl⟩

theorem Inv.endCriticalSection : Inv s.endCriticalSection := by
  unfold MapMarkSet.endCriticalSection
  split_ifs
  · exact ⟨h.short, h.returned, fun hp => absurd hp Bool.false_ne_true, .inl rfl⟩
  · exact h

theorem Inv.recover_synced (hsy : s.synced ≠ none) : recover s.synced = .ok s.set := by
  obtain ⟨hps, heq⟩ := h.synced.resolve_left hsy
  rw [heq]
  exact (h.file hps).recover

theorem Inv.crash (hst : s.crash = some s') : Inv s' := by
  unfold MapMarkSet.crash at hst
  by_cases hsy : s.synced = none
  · rw [hsy] at hst
    cases hst
  rw [h.recover_synced hsy] at hst
  cases hst
  obtain ⟨hps, heq⟩ := h.synced.resolve_left hsy
  exact ⟨h.short, h.returned, fun _ => heq ▸ h.file hps, .inr ⟨rfl, rfl⟩⟩

theorem Inv.step {a : Label} (hfi : a.Fits) (hst : step s a = some s') : Inv s' := by
  cases a with
  | mark key =>
    cases hst
    exact h.markMany (forall_mem_singleton.mpr hfi)
  | markMany keys =>
    cases hst
    exact h.markMany hfi
  | visit key =>
    cases hst
    exact h.visit hfi
  | beginCriticalSection order =>
    obtain ⟨⟨-, ho⟩, heq⟩ := Option.ite_none_right_eq_some.mp hst
    cases heq
    exact h.beginCriticalSection ho
  | endCriticalSection =>
    cases hst
    exact h.endCriticalSection
  | crash => exact h.crash hst
end

theorem inv_run {as : List Label} (hfi : ∀ a ∈ as, a.Fits) (hrun : run step new as = some s) : Inv s :=
  run_legal (fun _ _ _ hs ha hst => hs.step ha hst) inv_new
    (show Legal step (fun _ a => a.Fits) new as from legal_of_forall fun a ha _ => hfi a ha) hrun

/-- A crash now loses no key of a call that has returned. -/
def CrashSafe (s : MapMarkSet) : Prop := ∃ set, recover s.synced = .ok set ∧ s.returned ⊆ set

theorem Inv.crashSafe_iff (h : Inv s) : s.CrashSafe ↔ s.synced ≠ none := by
  constructor
  · rintro ⟨set, hre, -⟩ hn
    rw [hn] at hre
    cases hre
  · exact fun hsy => ⟨s.set, h.recover_synced hsy, h.returned⟩

theorem Inv.synced_of_new (h : Inv s) (hps : s.persist = true) (keys : List Bytes) : (s.markMany keys).synced ≠ none := by
  obtain ⟨written, -, -, hfi⟩ := h.file hps
  unfold MapMarkSet.markMany
  simp only [hps, if_true]
  show Option.map _ s.file ≠ none
  rw [hfi]
  exact Option.some_ne_none _

end MapMarkSet
end Lotus.Splitstore

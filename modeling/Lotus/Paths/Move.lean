/-
# Moving the files of a sector (`Local.MoveStorage`).

The source is dropped from the index before the file is moved, and the destination declared after. Where the move fails in
between, a file is declared nowhere; "No such file or directory" is passed over, so that a destination without the file is
declared.
-/
import Lotus.Types.Basic

namespace Lotus.Paths
open Function

inductive FileType where
  | unsealed | cache | sealed | update | updateCache
  deriving DecidableEq

def pathTypes : List FileType := [.unsealed, .cache, .sealed, .update, .updateCache]

abbrev ID := String

/-- One file of the sector: the paths that the index declares it on, and those that hold it. -/
structure FileState where
  decls : List ID
  holds : ID → Bool

/-- An index call: it is done, or fails, where it may have been carried out all the same. -/
inductive Reply where
  | done
  | failed (err : String) (applied : Bool)

def Reply.applied : Reply → Bool
  | .done => true
  | .failed _ applied => applied

/-- `move`: it succeeds, or fails and leaves the file at the source, at the destination, at both or at neither. -/
inductive Move where
  | done
  | failed (err : String) (src dest : Bool)

/-- What `MoveStorage` calls for one file type; `StorageInfo` gives `CanStore`. -/
structure Calls where
  srcInfo : Except String Bool
  dstInfo : Except String Bool
  drop : Reply
  move : Move
  declare : Reply

/-- What `AcquireSector` gives for a file type: the path of the file and the ID of the storage. -/
abbrev SectorPaths := FileType → String × ID

def contains (s substr : String) : Bool := s.toList.tails.any fun t => substr.toList.isPrefixOf t

def storageDropSector (id : ID) (f : FileState) : FileState := { f with decls := f.decls.filter (· ≠ id) }

def storageDeclareSector (id : ID) (f : FileState) : FileState :=
  { f with decls := if id ∈ f.decls then f.decls else f.decls ++ [id] }

/-- The checks before the file is moved: whether it is. -/
def checkMove (c : Calls) (src dest : String × ID) : Except GoError Bool :=
  if dest.1 = "" ∨ src.1 = "" then .ok false
  else
    match c.srcInfo with
    | .error e =>
      if contains e "not found" then .ok false else .error (.wrap "failed to get source storage info1" (.errorf e))
    | .ok canStore =>
      match c.dstInfo with
      | .error e =>
        if contains e "not found" then .ok false else .error (.wrap "failed to get source storage info2" (.errorf e))
      | .ok _ => .ok (src.2 ≠ dest.2 && !canStore)

def Move.run (m : Move) (src dest : ID) (f : FileState) : FileState :=
  let at' (s d : Bool) : FileState :=
    { f with holds := fun id => if id = dest then d else if id = src then s else f.holds id }
  match m with
  | .done => at' false true
  | .failed _ s d => at' s d

/-- The error of `move` that `MoveStorage` returns. -/
def Move.fatal : Move → Option GoError
  | .done => none
  | .failed e _ _ => if contains e "No such file or directory" then none else some (.wrap "moving sector" (.errorf e))

/-- The rest of the round. The lock of the destination is asked for until it is given. -/
def shift (c : Calls) (src dest : ID) (f : FileState) : FileState × Option GoError :=
  let f := if c.drop.applied then storageDropSector src f else f
  match c.drop with
  | .failed e _ => (f, some (.wrap "dropping source sector from index" (.errorf e)))
  | .done =>
    let f := c.move.run src dest f
    match c.move.fatal with
    | some e => (f, some e)
    | none =>
      let f := if c.declare.applied then storageDeclareSector dest f else f
      match c.declare with
      | .failed e _ => (f, some (.wrap "declare sector" (.errorf e)))
      | .done => (f, none)

/-- One round of the loop of `MoveStorage`. -/
def moveFile (c : Calls) (src dest : String × ID) (f : FileState) : FileState × Option GoError :=
  match checkMove c src dest with
  | .error e => (f, some e)
  | .ok false => (f, none)
  | .ok true => shift c src.2 dest.2 f

section
variable (calls : FileType → Calls) (src dest : SectorPaths)

def moveFiles : List FileType → (FileType → FileState) → (FileType → FileState) × Option GoError
  | [], st => (st, none)
  | t :: ts, st =>
    match moveFile (calls t) (src t) (dest t) (st t) with
    | (f, some e) => (update st t f, some e)
    | (f, none) => moveFiles ts (update st t f)
end

def moveStorage (acquireDest acquireSrc : Except GoError SectorPaths) (calls : FileType → Calls)
    (types : FileType → Bool) (st : FileType → FileState) : (FileType → FileState) × Option GoError :=
  match acquireDest, acquireSrc with
  | .error e, _ => (st, some (.wrap "acquire dest storage" e))
  | .ok _, .error e => (st, some (.wrap "acquire src storage" e))
  | .ok dest, .ok src => moveFiles calls src dest (pathTypes.filter types) st

/-! ## When the index stays true -/

/-- The index declares no path without the file, and one with the file if there is any. -/
def Truthful (f : FileState) : Prop :=
  (∀ id ∈ f.decls, f.holds id = true) ∧ ((∃ id, f.holds id = true) → ∃ id ∈ f.decls, f.holds id = true)

def Calls.declares (c : Calls) : Bool :=
  match c.drop, c.move.fatal with
  | .done, none => c.declare.applied
  | _, _ => false

def Calls.holdsAfter (c : Calls) (src dest : ID) (f : FileState) : ID → Bool :=
  match c.drop with
  | .done => (c.move.run src dest f).holds
  | .failed _ _ => f.holds

/-- Where the source is dropped: a declared destination has the file afterwards, and some path is declared, unless none
has it. -/
def Kept (c : Calls) (src dest : String × ID) (f : FileState) : Prop :=
  checkMove c src dest = .ok true → c.drop.applied = true →
    (dest.2 ∈ f.decls ∨ c.declares = true → c.holdsAfter src.2 dest.2 f dest.2 = true) ∧
    ((∃ id ∈ f.decls, id ≠ src.2) ∨ c.declares = true ∨ ∀ id, c.holdsAfter src.2 dest.2 f id = false)

def EachKept (calls : FileType → Calls) (src dest : SectorPaths) : List FileType → (FileType → FileState) → Prop
  | [], _ => True
  | t :: ts, st =>
    let r := moveFile (calls t) (src t) (dest t) (st t)
    Kept (calls t) (src t) (dest t) (st t) ∧ (r.2 = none → EachKept calls src dest ts (update st t r.1))

section
variable {c : Calls} {f : FileState} {src dest : ID}

theorem shift_holds : (shift c src dest f).1.holds = c.holdsAfter src dest f := by
  unfold shift Calls.holdsAfter
  rcases c.drop with _ | ⟨e, _ | _⟩
  · rcases c.move.fatal with _ | e
    · rcases c.declare with _ | ⟨e, _ | _⟩ <;> cases c.move <;> rfl
    · cases c.move <;> rfl
  · rfl
  · rfl

theorem mem_declare {id : ID} : id ∈ (storageDeclareSector dest f).decls ↔ id ∈ f.decls ∨ id = dest := by
  unfold storageDeclareSector
  split_ifs with hd
  · exact ⟨.inl, fun h => h.elim (fun h => h) fun h => h ▸ hd⟩
  · simp

theorem mem_shift (ha : c.drop.applied = true) {id : ID} :
    id ∈ (shift c src dest f).1.decls ↔ (id ∈ f.decls ∧ id ≠ src) ∨ (id = dest ∧ c.declares = true) := by
  have hd : (c.move.run src dest (storageDropSector src f)).decls = f.decls.filter (· ≠ src) := by
    cases c.move <;> rfl
  unfold shift Calls.declares
  rw [if_pos ha]
  rcases c.drop with _ | ⟨e, applied⟩
  · rcases c.move.fatal with _ | e
    · rcases c.declare with _ | ⟨e, _ | _⟩ <;> simp [Reply.applied, mem_declare, hd]
    · simp [hd]
  · simp [storageDropSector]

theorem shift_truthful_iff (h : Truthful f) (hne : src ≠ dest) (ha : c.drop.applied = true) :
    Truthful (shift c src dest f).1 ↔
      (dest ∈ f.decls ∨ c.declares = true → c.holdsAfter src dest f dest = true) ∧
      ((∃ id ∈ f.decls, id ≠ src) ∨ c.declares = true ∨ ∀ id, c.holdsAfter src dest f id = false) := by
  have hsa (id : ID) (hs : id ≠ src) (hd : id ≠ dest) : c.holdsAfter src dest f id = f.holds id := by
    unfold Calls.holdsAfter
    rcases c.drop with _ | _
    · cases c.move <;> simp [Move.run, hs, hd]
    · rfl
  unfold Truthful
  simp only [mem_shift ha, shift_holds]
  constructor
  · rintro ⟨hall, hso⟩
    refine ⟨?_, ?_⟩
    · rintro (hd | hd)
      · exact hall dest (.inl ⟨hd, hne.symm⟩)
      · exact hall dest (.inr ⟨rfl, hd⟩)
    by_cases hex : ∃ id, c.holdsAfter src dest f id = true
    · obtain ⟨id, ⟨hmem, hid⟩ | ⟨-, hd⟩, -⟩ := hso hex
      · exact .inl ⟨id, hmem, hid⟩
      · exact .inr (.inl hd)
    · exact .inr (.inr (by simpa using hex))
  · rintro ⟨hde, hleft⟩
    have hall (id : ID) (hid : (id ∈ f.decls ∧ id ≠ src) ∨ (id = dest ∧ c.declares = true)) :
        c.holdsAfter src dest f id = true := by
      rcases hid with ⟨hmem, hid⟩ | ⟨rfl, hd⟩
      · by_cases hd : id = dest
        · subst hd
          exact hde (.inl hmem)
        · rw [hsa id hid hd]
          exact h.1 id hmem
      · exact hde (.inr hd)
    refine ⟨hall, ?_⟩
    rintro ⟨id, hid⟩
    rcases hleft with ⟨id', hmem, hne'⟩ | hd | hn
    · exact ⟨id', .inl ⟨hmem, hne'⟩, hall id' (.inl ⟨hmem, hne'⟩)⟩
    · exact ⟨dest, .inr ⟨rfl, hd⟩, hall dest (.inr ⟨rfl, hd⟩)⟩
    · rw [hn id] at hid
      cases hid
end

theorem checkMove_ne {c : Calls} {src dest : String × ID} (h : checkMove c src dest = .ok true) : src.2 ≠ dest.2 := by
  revert h
  fun_cases checkMove with
  | case6 => simp +contextual
  | _ => exact nofun

theorem moveFile_truthful_iff {c : Calls} {src dest : String × ID} {f : FileState} (h : Truthful f) :
    Truthful (moveFile c src dest f).1 ↔ Kept c src dest f := by
  unfold moveFile Kept
  rcases hcheck : checkMove c src dest with e | _ | _
  · simpa using h
  · simpa using h
  rcases ha : c.drop.applied with _ | _
  · -- a drop that is not carried out ends the round
    have hshift : (shift c src.2 dest.2 f).1 = f := by
      unfold shift
      rw [ha]
      rcases hd : c.drop with _ | _
      · simp [hd, Reply.applied] at ha
      · rfl
    simpa [hshift] using h
  · simpa using shift_truthful_iff h (checkMove_ne hcheck) ha

section
variable {calls : FileType → Calls} {src dest : SectorPaths} {ts : List FileType} {st : FileType → FileState}

theorem moveFiles_other {t : FileType} (ht : t ∉ ts) : (moveFiles calls src dest ts st).1 t = st t := by
  induction ts generalizing st with
  | nil => rfl
  | cons u ts ih =>
    rw [List.mem_cons, not_or] at ht
    have hu (f : FileState) : update st u f t = st t := update_of_ne ht.1 f st
    rw [moveFiles]
    split
    · exact hu _
    · rw [ih ht.2, hu]

theorem moveFiles_truthful_iff (hnd : ts.Nodup) (h : ∀ t ∈ ts, Truthful (st t)) :
    (∀ t ∈ ts, Truthful ((moveFiles calls src dest ts st).1 t)) ↔ EachKept calls src dest ts st := by
  induction ts generalizing st with
  | nil => simp [EachKept]
  | cons t ts ih =>
    obtain ⟨hn, hnd⟩ := List.nodup_cons.mp hnd
    have hround := @moveFile_truthful_iff (calls t) (src t) (dest t) (st t) (h t List.mem_cons_self)
    have hrest (f : FileState) (u : FileType) (hu : u ∈ ts) : update st t f u = st u :=
      update_of_ne (ne_of_mem_of_not_mem hu hn) f st
    have hta (f : FileState) (u : FileType) (hu : u ∈ ts) : Truthful (update st t f u) := by
      rw [hrest f u hu]
      exact h u (List.mem_cons_of_mem t hu)
    rw [moveFiles, EachKept, List.forall_mem_cons, ← hround]
    rcases hrun : moveFile (calls t) (src t) (dest t) (st t) with ⟨f, _ | e⟩
    · rw [← ih hnd (hta f), moveFiles_other hn, update_self]
      simp
    · simpa using fun _ => hta f
end

/-- **When moving a sector does not mislead the index**: from an index that matches the disks, after every call and for
every file type, exactly if every round that is begun meets the condition. -/
theorem moveStorage_truthful_iff (acquireDest acquireSrc : Except GoError SectorPaths) (calls : FileType → Calls)
    (types : FileType → Bool) (st : FileType → FileState) (h : ∀ t, Truthful (st t)) :
    (∀ t, Truthful ((moveStorage acquireDest acquireSrc calls types st).1 t)) ↔
      ∀ dest src, acquireDest = .ok dest → acquireSrc = .ok src →
        EachKept calls src dest (pathTypes.filter types) st := by
  rcases acquireDest with e | dest
  · simpa [moveStorage] using h
  rcases acquireSrc with e | src
  · simpa [moveStorage] using h
  have hnd : (pathTypes.filter types).Nodup := .filter types (by decide)
  have hif := @moveFiles_truthful_iff calls src dest (pathTypes.filter types) st hnd fun t _ => h t
  constructor
  · rintro ha _ _ ⟨⟩ ⟨⟩
    exact hif.mp fun t _ => ha t
  · intro hk t
    show Truthful ((moveFiles calls src dest (pathTypes.filter types) st).1 t)
    by_cases ht : t ∈ pathTypes.filter types
    · exact hif.mpr (hk dest src rfl rfl) t ht
    · rw [moveFiles_other ht]
      exact h t

def sealedOn : FileState := ⟨["seal"], fun id => id = "seal"⟩

theorem sealedOn_truthful : Truthful sealedOn := by simp [Truthful, sealedOn]

def movesWith (m : Move) : Calls := ⟨.ok false, .ok true, .done, m, .done⟩

def moveSealed (m : Move) : (FileType → FileState) × Option GoError :=
  moveStorage (.ok fun _ => ("/store", "store")) (.ok fun _ => ("/seal", "seal")) (fun _ => movesWith m)
    (fun t => t = .sealed) fun _ => sealedOn

/-- The file stays at the source, and is declared nowhere. -/
theorem moveSealed_loses : ¬ Truthful ((moveSealed (.failed "rsync error" true false)).1 .sealed) := by
  have hdecls : ((moveSealed (.failed "rsync error" true false)).1 .sealed).decls = [] := by decide +kernel
  have hholds : ((moveSealed (.failed "rsync error" true false)).1 .sealed).holds "seal" = true := by decide +kernel
  rintro ⟨-, hso⟩
  obtain ⟨id, hid, -⟩ := hso ⟨_, hholds⟩
  cases hid

theorem moveSealed_done : Truthful ((moveSealed .done).1 .sealed) := by
  refine (moveStorage_truthful_iff _ _ _ _ _ fun _ => sealedOn_truthful).mpr ?_ .sealed
  rintro _ _ ⟨⟩ ⟨⟩
  exact ⟨fun _ _ => ⟨fun _ => by decide +kernel, .inr (.inl rfl)⟩, fun _ => trivial⟩

end Lotus.Paths

/-
# Sector numbers (`storage/pipeline/numassign.go`).

The numbers handed out and the reserved ones are two bit fields in the datastore; a reservation is kept under its name beside
them. `NumFree` takes no lock, so each of its datastore calls is a step. Datastore calls do not fail here.
-/
import Lotus.Lib.BitField
import Lotus.Lib.Lts
import Lotus.Types.Basic

namespace Lotus.Sealing
open Lib Lib.Lts List Function AList Option

structure NumAssignerMeta where
  reserved : BitField
  allocated : BitField
  inUse : BitField
  next : Nat

/-- What the datastore holds: the two bit fields, the named reservations and the legacy counter. -/
structure NumStore where
  allocated : Option BitField
  reserved : Option BitField
  reservations : GoMap String BitField
  counter : Option UInt64

/-- The result of `StateMinerAllocated`, which may be nil. -/
abbrev StateAllocated := Except GoError (Option BitField)

namespace NumStore

/-! ## The code -/

/-- `reservationKey`, without the key: the names are the keys here. -/
def reservationKey (name : String) : Except GoError Unit :=
  if name ≠ "" ∧ name.toList.all fun c => c.isAlphanum || c == '_' || c == '-' then .ok ()
  else .error (.errorf "reservation name contained disallowed characters (allowed: a-z, A-Z, 0-9, '-', '_')")

section
variable (s : NumStore) (state : StateAllocated)

/-- The allocated field, made from the legacy counter if there is none. -/
def allocatedOr (setcur : UInt64) : BitField :=
  match s.allocated with
  | some allocated => allocated
  | none =>
    if setcur ≠ 0 then Finset.range setcur.toNat
    else
      match s.counter with
      | some cur => Finset.range (cur + 1).toNat
      | none => ∅

def numAssignerMetaLocked (setcur : UInt64) : Except GoError NumAssignerMeta :=
  let reserved := s.reserved.getD ∅
  let allocated := s.allocatedOr setcur
  match state with
  | .error e => .error (.wrap "getting state-allocated sector numbers" e)
  | .ok none => .error (.errorf "getting state-allocated sector numbers: %!w(<nil>)")
  | .ok (some stateAllocated) =>
    let inUse := reserved ∪ allocated ∪ stateAllocated
    .ok ⟨reserved, allocated, inUse, BitField.firstZero (BitField.runs inUse)⟩

def nextSectorNumber (cur : UInt64) : NumStore × Except GoError Nat :=
  match s.numAssignerMetaLocked state cur with
  | .error e => (s, .error e)
  | .ok am =>
    ({ s with allocated := some (insert am.next am.allocated), counter := some (UInt64.ofNat am.next) }, .ok am.next)

def numReserveLocked (name : String) (reserving : BitField) (force : Bool) : NumStore × Except GoError Unit :=
  match reservationKey name with
  | .error e => (s, .error e)
  | .ok _ =>
    if (s.reservations.lookup name).isSome ∧ force = false then
      (s, .error (.errorf "reservation with this name already exists"))
    else
      match s.numAssignerMetaLocked state 0 with
      | .error e => (s, .error e)
      | .ok nm =>
        -- the reservation that is overwritten does not collide
        let allReserved := nm.reserved \ (s.reservations.lookup name).getD ∅
        if allReserved ∩ reserving ≠ ∅ ∧ force = false then
          (s, .error (.errorf "new reservation is colliding with another existing reservation"))
        else if nm.allocated ∩ reserving ≠ ∅ ∧ force = false then
          (s, .error (.errorf "new reservation is colliding with allocated sector numbers"))
        else
          ({ s with
              reservations := s.reservations.insert name reserving
              reserved := some (allReserved ∪ reserving) }, .ok ())

def numReserveCount (name : String) (count : UInt64) : NumStore × Except GoError BitField :=
  match s.numAssignerMetaLocked state 0 with
  | .error e => (s, .error e)
  | .ok nm =>
    let mask := Finset.range (count + UInt64.ofNat nm.inUse.card).toNat
    let free := mask \ nm.inUse
    if free.card < count.toNat then (s, .error (.errorf "not enough bits set in field to satisfy slice count"))
    else
      match s.numReserveLocked state name (BitField.slice free count.toNat) false with
      | (s, .error e) => (s, .error e)
      | (s, .ok _) => (s, .ok (BitField.slice free count.toNat))
end
end NumStore

/-- Where a call of `NumFree` is: it has loaded the reservation, then the field of all, then saved that. -/
inductive FreePc where
  | loaded (name : String) (res : BitField)
  | loadedAll (name : String) (res all : BitField)
  | savedAll (name : String)

/-- A number handed out, with the reservations and the allocation on chain at the time. -/
structure Handed where
  number : Nat
  reservations : GoMap String BitField
  stateAllocated : StateAllocated

/-- The store, the calls of `NumFree` under way, and the numbers handed out. -/
structure Assigner where
  store : NumStore
  frees : Nat → Option FreePc
  handed : List Handed

namespace Assigner

/-- The methods. Those that read the chain have its answer. -/
inductive Label where
  | next (state : StateAllocated) (cur : UInt64)
  | reserve (state : StateAllocated) (name : String) (reserving : BitField) (force : Bool)
  | reserveCount (state : StateAllocated) (name : String) (count : UInt64)
  | free (id : Nat) (name : String)
  | freeStep (id : Nat)

section
variable (s : Assigner)

/-- `NextSectorNumber`, with its number in the log. -/
def next (state : StateAllocated) (cur : UInt64) : Assigner :=
  match s.store.nextSectorNumber state cur with
  | (store, .error _) => { s with store := store }
  | (store, .ok n) => { s with store := store, handed := s.handed ++ [⟨n, s.store.reservations, state⟩] }

/-- `NumFree` up to its second call of the datastore. -/
def free (id : Nat) (name : String) : Assigner :=
  match NumStore.reservationKey name, s.store.reservations.lookup name with
  | .ok _, some res => { s with frees := update s.frees id (some (.loaded name res)) }
  | _, _ => s

/-- The next call of the datastore in `NumFree`. -/
def freeStep (id : Nat) : FreePc → Assigner
  | .loaded name res =>
    match s.store.reserved with
    | none => { s with frees := update s.frees id none }
    | some all => { s with frees := update s.frees id (some (.loadedAll name res all)) }
  | .loadedAll name res all =>
    { s with
      store := { s.store with reserved := some (all \ res) }
      frees := update s.frees id (some (.savedAll name)) }
  | .savedAll name =>
    { s with
      store := { s.store with reservations := s.store.reservations.erase name }
      frees := update s.frees id none }

def step : Label → Option Assigner
  | .next state cur => some (s.next state cur)
  | .reserve state name reserving force =>
    some { s with store := (s.store.numReserveLocked state name reserving force).1 }
  | .reserveCount state name count => some { s with store := (s.store.numReserveCount state name count).1 }
  | .free id name =>
    match s.frees id with
    | none => some (s.free id name)
    | some _ => none
  | .freeStep id => (s.frees id).map (s.freeStep id)
end
end Assigner

/-! ## What the methods do -/

namespace NumStore
variable {s : NumStore} {state : StateAllocated}

/-- **The reserved field is the union of the reservations.** -/
def Consistent (s : NumStore) : Prop :=
  ∀ n, n ∈ s.reserved.getD ∅ ↔ ∃ name bf, s.reservations.lookup name = some bf ∧ n ∈ bf

theorem numAssignerMetaLocked_ok {setcur : UInt64} {am : NumAssignerMeta} (h : s.numAssignerMetaLocked state setcur = .ok am) :
    ∃ S, state = .ok (some S) ∧ am.reserved = s.reserved.getD ∅ ∧ am.allocated = s.allocatedOr setcur ∧
      am.next ∉ am.reserved ∧ am.next ∉ am.allocated ∧ am.next ∉ S := by
  rcases state with e | _ | S
  · cases h
  · cases h
  cases h
  have hfree := (BitField.firstZero_runs (s.reserved.getD ∅ ∪ s.allocatedOr setcur ∪ S)).1
  simp only [Finset.mem_union, not_or] at hfree
  exact ⟨S, rfl, rfl, rfl, hfree.1.1, hfree.1.2, hfree.2⟩

section
variable (s : NumStore) (state : StateAllocated)

theorem nextSectorNumber_cases (cur : UInt64) :
    (∃ e, s.nextSectorNumber state cur = (s, .error e)) ∨
      ∃ S n, state = .ok (some S) ∧ n ∉ s.reserved.getD ∅ ∧ n ∉ s.allocatedOr cur ∧ n ∉ S ∧
        s.nextSectorNumber state cur =
          ({ s with allocated := some (insert n (s.allocatedOr cur)), counter := some (UInt64.ofNat n) }, .ok n) := by
  unfold nextSectorNumber
  rcases hm : s.numAssignerMetaLocked state cur with e | am
  · exact .inl ⟨e, rfl⟩
  obtain ⟨S, hst, hre, hall, hr, ha, hS⟩ := numAssignerMetaLocked_ok hm
  refine .inr ⟨S, am.next, hst, hre ▸ hr, hall ▸ ha, hS, ?_⟩
  dsimp only
  rw [hall]

theorem numReserveLocked_cases (name : String) (reserving : BitField) (force : Bool) :
    (s.numReserveLocked state name reserving force).1 = s ∨
      (force = true ∨ s.reservations.lookup name = none) ∧ (s.numReserveLocked state name reserving force).1 = { s with
          reservations := s.reservations.insert name reserving
          reserved := some (s.reserved.getD ∅ \ (s.reservations.lookup name).getD ∅ ∪ reserving) } := by
  unfold numReserveLocked
  rcases reservationKey name with e | u
  · exact .inl rfl
  split_ifs with hexi
  · exact .inl rfl
  rcases hm : s.numAssignerMetaLocked state 0 with e | nm
  · exact .inl rfl
  obtain ⟨-, -, hre, -⟩ := numAssignerMetaLocked_ok hm
  dsimp only
  split_ifs
  · exact .inl rfl
  · exact .inl rfl
  refine .inr ⟨?_, by rw [hre]⟩
  cases force with
  | true => exact .inl rfl
  | false => exact .inr (by simpa using hexi)

theorem numReserveCount_cases (name : String) (count : UInt64) :
    ∃ reserving, (s.numReserveCount state name count).1 = s ∨
      (s.numReserveCount state name count).1 = (s.numReserveLocked state name reserving false).1 := by
  unfold numReserveCount
  rcases s.numAssignerMetaLocked state 0 with e | nm
  · exact ⟨∅, .inl rfl⟩
  dsimp only
  split_ifs
  · exact ⟨∅, .inl rfl⟩
  refine ⟨BitField.slice (Finset.range (count + UInt64.ofNat nm.inUse.card).toNat \ nm.inUse) count.toNat, .inr ?_⟩
  generalize s.numReserveLocked state name _ false = r
  obtain ⟨s', _ | _⟩ := r <;> rfl
end

/-- The reservation shares nothing with the others, but what is in `except`. -/
def Apart (s : NumStore) (name : String) (res except : BitField) : Prop :=
  ∀ other bf, other ≠ name → s.reservations.lookup other = some bf → ∀ n ∈ res, n ∈ bf → n ∈ except

theorem Consistent.reserve (h : s.Consistent) (name : String) (reserving : BitField)
    (ha : ∀ cur, s.reservations.lookup name = some cur → s.Apart name cur reserving) :
    Consistent { s with
      reservations := s.reservations.insert name reserving
      reserved := some (s.reserved.getD ∅ \ (s.reservations.lookup name).getD ∅ ∪ reserving) } := by
  intro n
  simp only [getD_some, Finset.mem_union, Finset.mem_sdiff, h n]
  constructor
  · rintro (⟨⟨other, bf, ho, hn⟩, hno⟩ | hn)
    · by_cases heq : other = name
      · subst heq
        simp [ho, hn] at hno
      · exact ⟨other, bf, by rwa [lookup_insert_ne heq], hn⟩
    · exact ⟨name, reserving, lookup_insert _, hn⟩
  rintro ⟨other, bf, ho, hn⟩
  rcases GoMap.lookup_insert_some ho with ⟨rfl, rfl⟩ | ⟨heq, ho⟩
  · exact .inr hn
  by_cases hcu : n ∈ (s.reservations.lookup name).getD ∅
  · rcases hlo : s.reservations.lookup name with _ | cur
    · simp [hlo] at hcu
    rw [hlo, getD_some] at hcu
    exact .inr (ha cur hlo other bf heq ho n hcu hn)
  · exact .inl ⟨⟨other, bf, ho, hn⟩, hcu⟩

theorem Consistent.sdiff (h : s.Consistent) {name : String} {res all : BitField}
    (hre : s.reservations.lookup name = some res) (ha : s.reserved = some all) (hap : s.Apart name res ∅) (n : Nat) :
    n ∈ all \ res ↔ ∃ other bf, other ≠ name ∧ s.reservations.lookup other = some bf ∧ n ∈ bf := by
  have hn := h n
  rw [ha, getD_some] at hn
  rw [Finset.mem_sdiff, hn]
  constructor
  · rintro ⟨⟨other, bf, ho, hmem⟩, hno⟩
    refine ⟨other, bf, ?_, ho, hmem⟩
    rintro rfl
    obtain rfl : bf = res := some.inj (ho.symm.trans hre)
    exact hno hmem
  rintro ⟨other, bf, hne, ho, hmem⟩
  refine ⟨⟨other, bf, ho, hmem⟩, fun hb => ?_⟩
  exact absurd (hap other bf hne ho n hb hmem) (Finset.notMem_empty n)

end NumStore

/-! ## Runs -/

namespace Assigner
open NumStore

/-- A call of `NumFree` is not interrupted. -/
def Alone (s : Assigner) (l : Label) : Prop := ∀ id pc, s.frees id = some pc → l = .freeStep id

/-- What is freed or replaced shares nothing with others, but what is reserved again. -/
def Disjoint (s : Assigner) : Label → Prop
  | .reserve _ name reserving force => force = true → ∀ cur, s.store.reservations.lookup name = some cur →
      s.store.Apart name cur reserving
  | .free _ name => ∀ res, s.store.reservations.lookup name = some res → s.store.Apart name res ∅
  | _ => True

/-- The counter an operator sets is above the legacy counter, which is not the last number. -/
def AboveLegacy (s : Assigner) : Label → Prop
  | .next _ cur => s.store.allocated = none → ∀ c, s.store.counter = some c → if cur ≠ 0 then c < cur else c + 1 ≠ 0
  | _ => True

/-- The store in the middle of `NumFree`. -/
def Mid (s : NumStore) : FreePc → Prop
  | .loaded name res => s.Consistent ∧ s.reservations.lookup name = some res ∧ s.Apart name res ∅
  | .loadedAll name res all => s.Consistent ∧ s.reservations.lookup name = some res ∧ s.Apart name res ∅ ∧
      s.reserved = some all
  | .savedAll name => ∀ n, n ∈ s.reserved.getD ∅ ↔
      ∃ other bf, other ≠ name ∧ s.reservations.lookup other = some bf ∧ n ∈ bf

structure Fresh (start : NumStore) (h : Handed) : Prop where
  unreserved : ∀ name bf, h.reservations.lookup name = some bf → h.number ∉ bf
  onChain : ∀ S, h.stateAllocated = .ok (some S) → h.number ∉ S
  legacy : start.allocated = none → ∀ c, start.counter = some c → c.toNat < h.number

structure Inv (start : NumStore) (s : Assigner) : Prop where
  idle : (∀ id, s.frees id = none) → s.store.Consistent
  busy : ∀ id pc, s.frees id = some pc → (∀ j, j ≠ id → s.frees j = none) ∧ Mid s.store pc
  fresh : ∀ h ∈ s.handed, Fresh start h
  nodup : (s.handed.map (·.number)).Nodup
  kept : ∀ h ∈ s.handed, ∃ A, s.store.allocated = some A ∧ h.number ∈ A
  legacy : start.allocated = none → ∀ c, start.counter = some c →
    (s.store.allocated = none ∧ s.store.counter = some c) ∨ ∃ A, s.store.allocated = some A ∧ ∀ n ≤ c.toNat, n ∈ A

variable {start : NumStore} {s : Assigner}

theorem Inv.of_reservations (hinv : Inv start s) (store : NumStore) (frees : Nat → Option FreePc)
    (ha : store.allocated = s.store.allocated) (hco : store.counter = s.store.counter)
    (hid : (∀ id, frees id = none) → store.Consistent)
    (hb : ∀ id pc, frees id = some pc → (∀ j, j ≠ id → frees j = none) ∧ Mid store pc) :
    Inv start ⟨store, frees, s.handed⟩ := by
  refine ⟨hid, hb, hinv.fresh, hinv.nodup, ?_, ?_⟩
  · intro h hh
    rw [ha]
    exact hinv.kept h hh
  intro hbe c hc
  rw [ha, hco]
  exact hinv.legacy hbe c hc

variable {state : StateAllocated} {cur : UInt64}

theorem Inv.legacy_mem (hinv : Inv start s) (ha : AboveLegacy s (.next state cur)) (hb : start.allocated = none)
    {c : UInt64} (hc : start.counter = some c) {n : Nat} (hn : n ≤ c.toNat) : n ∈ s.store.allocatedOr cur := by
  unfold allocatedOr
  rcases hinv.legacy hb c hc with ⟨hno, hcou⟩ | ⟨A, hA, hall⟩
  · have hco := ha hno c hcou
    rw [hno]
    by_cases hcu : cur ≠ 0
    · rw [if_pos hcu] at hco ⊢
      have : c.toNat < cur.toNat := hco
      exact Finset.mem_range.mpr (by omega)
    rw [if_neg hcu] at hco ⊢
    rw [hcou]
    have hlt := c.toNat_lt
    have hnext : (c + 1).toNat = c.toNat + 1 := by
      have hne : (c + 1).toNat ≠ 0 := fun hz => hco (UInt64.toNat_inj.mp hz)
      rw [UInt64.toNat_add] at hne ⊢
      have ho : (1 : UInt64).toNat = 1 := rfl
      omega
    exact Finset.mem_range.mpr (by omega)
  · rw [hA]
    exact hall n hn

theorem Inv.next (hinv : Inv start s) (hid : ∀ id, s.frees id = none) (hab : AboveLegacy s (.next state cur)) :
    Inv start (s.next state cur) := by
  unfold Assigner.next
  rcases nextSectorNumber_cases s.store state cur with ⟨e, heq⟩ | ⟨S, n, hst, hr, ha, hS, heq⟩
  · rw [heq]
    exact hinv
  rw [heq]
  -- every number that was handed out is in the allocated field
  have hk : ∀ h ∈ s.handed, h.number ∈ s.store.allocatedOr cur := by
    intro h hh
    obtain ⟨A, hA, hmem⟩ := hinv.kept h hh
    rw [allocatedOr, hA]
    exact hmem
  have hco := hinv.idle hid
  refine ⟨fun _ => hco, fun id pc hpc => ?_, ?_, ?_, ?_, ?_⟩
  · have hn : s.frees id = none := hid id
    rw [show s.frees id = some pc from hpc] at hn
    cases hn
  · intro h hh
    rcases mem_append.mp hh with hh | hh
    · exact hinv.fresh h hh
    obtain rfl := mem_singleton.mp hh
    refine ⟨fun name bf hlo hmem => hr ((hco n).mpr ⟨name, bf, hlo, hmem⟩), fun S' hS' => ?_, ?_⟩
    · obtain rfl : S = S' := by simpa [hst] using hS'
      exact hS
    intro hb c hc
    by_contra hle
    exact ha (hinv.legacy_mem hab hb hc (not_lt.mp hle))
  · rw [map_append, nodup_append]
    refine ⟨hinv.nodup, nodup_singleton _, fun m hm m' hm' => ?_⟩
    obtain ⟨h, hh, rfl⟩ := mem_map.mp hm
    obtain rfl : m' = n := by simpa using hm'
    intro heq
    exact ha (heq ▸ hk h hh)
  · intro h hh
    refine ⟨_, rfl, ?_⟩
    rcases mem_append.mp hh with hh | hh
    · exact Finset.mem_insert_of_mem (hk h hh)
    · obtain rfl := mem_singleton.mp hh
      exact Finset.mem_insert_self _ _
  · intro hb c hc
    exact .inr ⟨_, rfl, fun m hm => Finset.mem_insert_of_mem (hinv.legacy_mem hab hb hc hm)⟩

variable {name : String}

theorem Inv.reserve (hinv : Inv start s) (hid : ∀ id, s.frees id = none) {reserving : BitField} {force : Bool}
    (hd : force = true → ∀ cur, s.store.reservations.lookup name = some cur → s.store.Apart name cur reserving) :
    Inv start { s with store := (s.store.numReserveLocked state name reserving force).1 } := by
  rcases numReserveLocked_cases s.store state name reserving force with heq | ⟨hfo, heq⟩
  · rw [heq]
    exact hinv
  rw [heq]
  refine hinv.of_reservations _ _ rfl rfl (fun _ => ?_) (fun id pc hpc => ?_)
  · refine (hinv.idle hid).reserve name reserving fun cur hcu => ?_
    rcases hfo with hfo | hn
    · exact hd hfo cur hcu
    · rw [hn] at hcu
      cases hcu
  · rw [hid id] at hpc
    cases hpc

variable {id : Nat}

theorem Inv.free (hinv : Inv start s) (hid : ∀ id, s.frees id = none) (hd : Disjoint s (.free id name)) :
    Inv start (s.free id name) := by
  have hco := hinv.idle hid
  unfold Assigner.free
  split
  · rename_i u res hke hre
    refine hinv.of_reservations _ _ rfl rfl (fun hn => ?_) (fun j pc hpc => ?_)
    · have := hn id
      simp at this
    by_cases hj : j = id
    · subst hj
      obtain rfl : FreePc.loaded name res = pc := by simpa using hpc
      refine ⟨fun k hk => ?_, hco, hre, hd res hre⟩
      rw [update_of_ne hk]
      exact hid k
    · rw [update_of_ne hj, hid j] at hpc
      cases hpc
  · exact hinv

theorem Inv.freeStep (hinv : Inv start s) {pc : FreePc} (hpc : s.frees id = some pc) : Inv start (s.freeStep id pc) := by
  obtain ⟨hoth, hm⟩ := hinv.busy id pc hpc
  -- the other calls stay as they are: there are none
  have hu : ∀ {o : Option FreePc} {store : NumStore}, (∀ pc', o = some pc' → Mid store pc') →
      ∀ j pc', update s.frees id o j = some pc' →
        (∀ k, k ≠ j → update s.frees id o k = none) ∧ Mid store pc' := by
    intro o store hm' j pc' hj
    by_cases heq : j = id
    · subst heq
      rw [update_self] at hj
      exact ⟨fun k hk => by rw [update_of_ne hk]; exact hoth k hk, hm' pc' hj⟩
    · rw [update_of_ne heq, hoth j heq] at hj
      cases hj
  cases pc with
  | loaded name res =>
    obtain ⟨hco, hre, ha⟩ := hm
    unfold Assigner.freeStep
    rcases hall : s.store.reserved with _ | all
    · exact hinv.of_reservations _ _ rfl rfl (fun _ => hco) (hu fun pc' hb => by cases hb)
    refine hinv.of_reservations _ _ rfl rfl (fun hno => ?_) (hu fun pc' hpc' => ?_)
    · have := hno id
      simp at this
    · cases hpc'
      exact ⟨hco, hre, ha, hall⟩
  | loadedAll name res all =>
    obtain ⟨hco, hre, ha, hall⟩ := hm
    refine hinv.of_reservations _ _ rfl rfl (fun hno => ?_) (hu fun pc' hpc' => ?_)
    · have := hno id
      simp at this
    · cases hpc'
      exact hco.sdiff hre hall ha
  | savedAll name =>
    unfold Assigner.freeStep
    refine hinv.of_reservations _ _ rfl rfl (fun _ n => ?_) (hu fun pc' hb => by cases hb)
    rw [show n ∈ s.store.reserved.getD ∅ ↔ _ from hm n]
    constructor
    · rintro ⟨other, bf, hne, ho, hn⟩
      exact ⟨other, bf, (lookup_erase_ne hne).trans ho, hn⟩
    rintro ⟨other, bf, ho, hn⟩
    obtain ⟨hne, ho⟩ := GoMap.lookup_erase_some ho
    exact ⟨other, bf, hne, ho, hn⟩

theorem Inv.step (hinv : Inv start s) {l : Label} (ha : Alone s l) (hd : Disjoint s l)
    (hab : AboveLegacy s l) {s' : Assigner} (hst : step s l = some s') : Inv start s' := by
  have hid : (∀ id, l ≠ .freeStep id) → ∀ id, s.frees id = none := by
    intro hl id
    cases hpc : s.frees id with
    | none => rfl
    | some pc => exact absurd (ha id pc hpc) (hl id)
  cases l with
  | next state cur =>
    cases hst
    exact hinv.next (hid fun _ => by simp) hab
  | reserve state name reserving force =>
    cases hst
    exact hinv.reserve (hid fun _ => by simp) hd
  | reserveCount state name count =>
    cases hst
    obtain ⟨reserving, heq | heq⟩ := numReserveCount_cases s.store state name count
    · rw [heq]
      exact hinv
    · rw [heq]
      exact hinv.reserve (hid fun _ => by simp) fun hb => by cases hb
  | free id name =>
    have hn := hid (fun _ => by simp)
    simp only [Assigner.step, hn id] at hst
    cases hst
    exact hinv.free hn hd
  | freeStep id =>
    obtain ⟨pc, hpc, rfl⟩ := map_eq_some_iff.mp hst
    exact hinv.freeStep hpc

/-- **Sector numbers are handed out once**, where `NumFree` is not interrupted, what is freed or replaced shares nothing
with other reservations, and an operator's counter is above the legacy one. -/
theorem sector_numbers_fresh (start : NumStore) (hstart : start.Consistent) (labels : List Label)
    (hlegal : Legal step (fun s l => Alone s l ∧ Disjoint s l ∧ AboveLegacy s l) ⟨start, fun _ => none, []⟩ labels)
    (s : Assigner) (hrun : run step ⟨start, fun _ => none, []⟩ labels = some s) :
    (s.handed.map (·.number)).Nodup ∧ (∀ h ∈ s.handed, Fresh start h) ∧
      ((∀ id, s.frees id = none) → s.store.Consistent) := by
  have hinit : Inv start ⟨start, fun _ => none, []⟩ := by
    refine ⟨fun _ => hstart, fun _ _ hb => (by cases hb), fun _ hh => (by cases hh), nodup_nil,
      fun _ hh => (by cases hh), fun hn c hc => .inl ⟨hn, hc⟩⟩
  have hinv : Inv start s :=
    run_legal (fun s l s' hinv hl hst => hinv.step hl.1 hl.2.1 hl.2.2 hst) hinit hlegal hrun
  exact ⟨hinv.nodup, hinv.fresh, hinv.idle⟩

def reservedStore : NumStore := ⟨none, some {2}, (∅ : GoMap String BitField).insert "a" {2}, some 0⟩

theorem reservedStore_lookup_ne {name : String} (hne : name ≠ "a") : reservedStore.reservations.lookup name = none :=
  lookup_insert_ne hne

theorem reservedStore_consistent : reservedStore.Consistent := by
  intro n
  constructor
  · intro hn
    exact ⟨"a", {2}, rfl, hn⟩
  rintro ⟨name, bf, hlo, hn⟩
  by_cases heq : name = "a"
  · subst heq
    cases hlo
    exact hn
  · rw [reservedStore_lookup_ne heq] at hlo
    cases hlo

def freeLabels : List Label :=
  [.free 0 "a", .freeStep 0, .freeStep 0, .freeStep 0, .next (.ok (some ∅)) 0, .next (.ok (some {2, 3})) 0]

theorem freeLabels_legal : Legal step (fun s l => Alone s l ∧ Disjoint s l ∧ AboveLegacy s l)
    ⟨reservedStore, fun _ => none, []⟩ freeLabels := by
  -- only call 0 of `NumFree` is made
  have ho : ∀ {frees : Nat → Option FreePc}, (∀ id ≠ 0, frees id = none) →
      ∀ id pc, frees id = some pc → Label.freeStep 0 = .freeStep id := by
    intro frees hfr id pc hpc
    by_cases hid : id = 0
    · rw [hid]
    · rw [hfr id hid] at hpc
      cases hpc
  have hu : ∀ {frees : Nat → Option FreePc} {o : Option FreePc} {id : Nat}, id ≠ 0 → frees id = none →
      update frees 0 o id = none := fun hid hfr => (update_of_ne hid _ _).trans hfr
  refine ⟨⟨fun _ _ hb => (by cases hb), fun res hre other bf hne hoth => ?_, trivial⟩, fun s1 h1 => ?_⟩
  · rw [show (⟨reservedStore, fun _ => none, []⟩ : Assigner).store = reservedStore from rfl, reservedStore_lookup_ne hne] at hoth
    cases hoth
  cases h1
  refine ⟨⟨ho fun _ hid => hu hid rfl, trivial, trivial⟩, fun s2 h2 => ?_⟩
  cases h2
  refine ⟨⟨ho fun _ hid => hu hid (hu hid rfl), trivial, trivial⟩, fun s3 h3 => ?_⟩
  cases h3
  refine ⟨⟨ho fun _ hid => hu hid (hu hid (hu hid rfl)), trivial, trivial⟩, fun s4 h4 => ?_⟩
  cases h4
  have hd : ∀ id pc, update (update (update (update (fun _ => none) 0
      (some (FreePc.loaded "a" {2}))) 0 (some (.loadedAll "a" {2} {2}))) 0 (some (.savedAll "a"))) 0 none id ≠ some pc := by
    intro id pc hpc
    by_cases hid : id = 0
    · rw [hid, update_self] at hpc
      cases hpc
    · cases (hu hid (hu hid (hu hid (hu hid rfl)))).symm.trans hpc
  refine ⟨⟨fun id pc hpc => absurd hpc (hd id pc), trivial, fun _ c hc => ?_⟩, fun s5 h5 => ?_⟩
  · obtain rfl : (0 : UInt64) = c := some.inj hc
    decide
  cases h5
  exact ⟨⟨fun id pc hpc => absurd hpc (hd id pc), trivial, fun hn => (by cases hn)⟩, fun _ _ => trivial⟩

theorem sector_numbers_fresh_freed :
    ∃ s, run step ⟨reservedStore, fun _ => none, []⟩ freeLabels = some s ∧ s.handed.map (·.number) = [1, 4] ∧
      (s.handed.map (·.number)).Nodup ∧ (∀ h ∈ s.handed, Fresh reservedStore h) := by
  have hn : (run step ⟨reservedStore, fun _ => none, []⟩ freeLabels).map (fun s => s.handed.map (·.number)) = some [1, 4] := by
    decide +kernel
  obtain ⟨s, hs, hn⟩ := map_eq_some_iff.mp hn
  obtain ⟨hno, hfr, -⟩ := sector_numbers_fresh reservedStore reservedStore_consistent freeLabels freeLabels_legal s hs
  exact ⟨s, hs, hn, hno, hfr⟩

/-- An overlapping reservation is freed; one made during `NumFree` is lost; a counter below the legacy one repeats numbers. -/
theorem sector_numbers_reused : ((run step ⟨⟨none, none, ∅, none⟩, fun _ => none, []⟩
        [.reserve (.ok (some ∅)) "a" {0, 1} false, .reserve (.ok (some ∅)) "b" {1, 2} true, .free 0 "b", .freeStep 0,
          .freeStep 0, .freeStep 0, .next (.ok (some ∅)) 0]).map
      (fun s => (s.store.reserved, s.store.reservations.lookup "a", s.handed.map (·.number))) =
        some (some {0}, some {0, 1}, [1])) ∧ ((run step ⟨⟨none, none, ∅, none⟩, fun _ => none, []⟩
        [.reserve (.ok (some ∅)) "a" {0} false, .free 0 "a", .freeStep 0, .reserve (.ok (some ∅)) "b" {1} false,
          .freeStep 0, .freeStep 0, .next (.ok (some ∅)) 0, .next (.ok (some ∅)) 0]).map
      (fun s => (s.store.reserved, s.store.reservations.lookup "b", s.handed.map (·.number))) =
        some (some ∅, some {1}, [0, 1])) ∧ (run step ⟨⟨none, none, ∅, some 5⟩, fun _ => none, []⟩ [.next (.ok (some ∅)) 3]).map
      (fun s => s.handed.map (·.number)) = some [3] := by
  decide +kernel

end Assigner
end Lotus.Sealing

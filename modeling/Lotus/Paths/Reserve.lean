/-
# Reserving space on local paths (`Local.Reserve`, `storage/paths/local.go`).

A reservation sets the bit of its file type; a release flips it, so the second for one file sets it again. Opening an open
path replaces its object, on which the releases still act. What is reserved is taken off the bytes that the file system has
free, but not off those that the limit of the path leaves.
-/
import Lotus.Paths.Move
import Mathlib.Algebra.Order.BigOperators.Group.Finset

namespace Lotus.Paths.Reserve
open List Function

/-- `path`; a table is the set of the pairs whose bit is set, since entries without a bit are deleted. -/
structure Path where
  maxStorage : Nat
  reserved : Int
  reservations : Finset (Nat × FileType)

/-- The answers of the file system; `used` is 0 where it fails. -/
structure Disk where
  stat : Except GoError Int
  used : Nat × FileType → Int
  usage : Except GoError Nat

/-- The bytes that are available by `path.stat`. -/
def Path.stat (p : Path) (ls : Disk) : Except GoError Int := do
  let available ← ls.stat
  let reserved := max 0 (p.reserved - ∑ x ∈ p.reservations, ls.used x)
  let available := max 0 (available - reserved)
  if 0 < p.maxStorage then
    let used ← ls.usage
    return min available (p.maxStorage - used : Nat)
  else return available

/-- What one round of `Reserve` has reserved, on the path object `obj`. -/
structure Held where
  id : ID
  obj : Nat
  sid : Nat
  fileType : FileType
  overhead : Int
  deriving DecidableEq

/-- `Local`, with all path objects made so far and what is reserved. -/
structure Local where
  objs : Nat → Path
  next : Nat
  paths : ID → Option Nat
  live : List Held

def Local.new : Local := ⟨fun _ => ⟨0, 0, ∅⟩, 0, fun _ => none, []⟩

/-- A call of `Reserve`, with the answers for each file type. -/
structure Request where
  sid : Nat
  ssize : Except GoError Int
  types : FileType → Bool
  storageIDs : FileType → ID
  overheadTab : FileType → Int
  disk : FileType → Disk

/-- The calls; `done` is one part of a release, or of the rollback of a failed `Reserve`, each of which takes the lock. -/
inductive Op where
  | reserve (r : Request)
  | done (h : Held)
  | openPath (id : ID) (maxStorage : Nat)

namespace Local
variable (s : Local)

def hold (h : Held) : Local :=
  let p := s.objs h.obj
  { s with
    objs := update s.objs h.obj
      { p with reserved := p.reserved + h.overhead, reservations := insert (h.sid, h.fileType) p.reservations }
    live := h :: s.live }

def done (h : Held) : Local :=
  let p := s.objs h.obj
  let x := (h.sid, h.fileType)
  { s with
    objs := update s.objs h.obj
      { p with
        reserved := p.reserved - h.overhead
        -- `^=`
        reservations := if x ∈ p.reservations then p.reservations.erase x else insert x p.reservations }
    live := s.live.erase h }

def reserveLoop (r : Request) (ssize : Int) : List FileType → Local → Local × Option GoError
  | [], s => (s, none)
  | t :: ts, s =>
    match s.paths (r.storageIDs t) with
    | none => (s, some (.errorf "fsstat: path not found"))
    | some obj =>
      match (s.objs obj).stat (r.disk t) with
      | .error e => (s, some (.wrap "getting local storage stat" e))
      | .ok available =>
        let overhead := (r.overheadTab t * ssize).tdiv 10
        if available < overhead then (s, some (.errorf s!"can't reserve {overhead} bytes, only {available} available"))
        else reserveLoop r ssize ts (s.hold ⟨r.storageIDs t, obj, r.sid, t, overhead⟩)

def reserve (r : Request) : Local × Option GoError :=
  match r.ssize with
  | .error e => (s, some e)
  | .ok ssize => reserveLoop r ssize (pathTypes.filter r.types) s

/-- `OpenPath`, where nothing fails. -/
def openPath (id : ID) (maxStorage : Nat) : Local :=
  { s with
    objs := update s.objs s.next ⟨maxStorage, 0, ∅⟩
    next := s.next + 1
    paths := update s.paths id (some s.next) }

def step : Op → Local
  | .reserve r => (s.reserve r).1
  | .done h => if h ∈ s.live then s.done h else s
  | .openPath id maxStorage => s.openPath id maxStorage

/-! ## The balance -/

def total (id : ID) (live : List Held) : Int := ((live.filter (·.id = id)).map (·.overhead)).sum

def table (id : ID) (live : List Held) : Finset (Nat × FileType) :=
  ((live.filter (·.id = id)).map fun h => (h.sid, h.fileType)).toFinset

/-- Every open path has what is live on it, and no more. -/
def Balanced : Prop :=
  ∀ id obj, s.paths id = some obj →
    (s.objs obj).reserved = total id s.live ∧ (s.objs obj).reservations = table id s.live

/-- A step that keeps the balance: no other reservation for the file is live, nor any on the path that is opened. -/
def Ok : Op → Prop
  | .reserve _ => True
  | .done h => h ∈ s.live → ∀ k ∈ s.live.erase h, (k.id, k.sid, k.fileType) ≠ (h.id, h.sid, h.fileType)
  | .openPath id _ => ∀ h ∈ s.live, h.id ≠ id

def Always (P : Local → Prop) : Local → List Op → Prop
  | s, [] => P s
  | s, op :: ops => P s ∧ Always P (s.step op) ops

def EachOk : Local → List Op → Prop
  | _, [] => True
  | s, op :: ops => s.Ok op ∧ EachOk (s.step op) ops

/-- Each open path has an object of its own, on which its reservations are held. -/
structure Wf : Prop where
  held : ∀ h ∈ s.live, s.paths h.id = some h.obj
  own : ∀ {a b obj}, s.paths a = some obj → s.paths b = some obj → a = b
  bound : ∀ {a obj}, s.paths a = some obj → obj < s.next

variable {s} {l : List Held} {id : ID} {h : Held}

theorem total_cons :
    total id (h :: l) = (if h.id = id then h.overhead else 0) + total id l := by
  unfold total
  by_cases heq : h.id = id <;> simp [heq]

theorem table_cons :
    table id (h :: l) = if h.id = id then insert (h.sid, h.fileType) (table id l) else table id l := by
  unfold table
  by_cases heq : h.id = id <;> simp [heq]

theorem mem_table {x : Nat × FileType} :
    x ∈ table id l ↔ ∃ h ∈ l, h.id = id ∧ (h.sid, h.fileType) = x := by
  simp [table, and_assoc]

theorem total_perm {l' : List Held} (h : l ~ l') : total id l = total id l' :=
  ((h.filter _).map _).sum_eq

theorem table_perm {l' : List Held} (h : l ~ l') : table id l = table id l' := by
  ext x
  simp [mem_table, h.mem_iff]

theorem hold_keeps (hw : s.Wf) (hb : s.Balanced) (hp : s.paths h.id = some h.obj) :
    (s.hold h).Wf ∧ (s.hold h).Balanced := by
  refine ⟨⟨?_, hw.own, hw.bound⟩, fun id obj hid => ?_⟩
  · rintro k (_ | ⟨_, hk⟩)
    · exact hp
    · exact hw.held k hk
  obtain ⟨hr, ht⟩ := hb id obj hid
  rw [show (s.hold h).live = h :: s.live from rfl, total_cons, table_cons]
  by_cases heq : h.id = id
  · obtain rfl : h.obj = obj := Option.some.inj (hp.symm.trans (heq ▸ hid))
    simp [hold, heq, hr, ht, Int.add_comm]
  · have hne : obj ≠ h.obj := fun ho => heq (hw.own hp (ho ▸ hid))
    simp [hold, heq, hne, hr, ht]

/-- **A rule for `Reserve`**: what every round keeps. -/
theorem reserve_rule {P : Local → Prop} {r : Request} (hp : P s)
    (hr : ∀ s t obj available overhead, P s → s.paths (r.storageIDs t) = some obj → (s.objs obj).stat (r.disk t) = .ok available →
      overhead ≤ available → P (s.hold ⟨r.storageIDs t, obj, r.sid, t, overhead⟩)) : P (s.reserve r).1 := by
  unfold reserve
  split
  · exact hp
  rename_i ssize _
  generalize pathTypes.filter r.types = ts
  fun_induction reserveLoop with
  | case5 t ts s obj hobj available hav _ hlt ih => exact ih (hr s t obj available _ hp hobj hav (not_lt.mp hlt))
  | _ => exact hp

theorem reserve_keeps {r : Request} (hw : s.Wf) (hb : s.Balanced) : (s.reserve r).1.Wf ∧ (s.reserve r).1.Balanced :=
  reserve_rule (P := fun s => s.Wf ∧ s.Balanced) ⟨hw, hb⟩ fun _ _ _ _ _ h hp _ _ => hold_keeps h.1 h.2 hp

theorem done_balanced_iff (hw : s.Wf) (hb : s.Balanced) (hm : h ∈ s.live) :
    (s.done h).Balanced ↔ s.Ok (.done h) := by
  have hpe := perm_cons_erase hm
  have hp := hw.held h hm
  have hx : (h.sid, h.fileType) ∈ (s.objs h.obj).reservations := by
    rw [(hb _ _ hp).2]
    exact mem_table.mpr ⟨h, hm, rfl, rfl⟩
  have hok : s.Ok (.done h) ↔ (h.sid, h.fileType) ∉ table h.id (s.live.erase h) := by
    simp only [Ok, mem_table, hm, true_implies, not_exists, not_and, ne_eq, Prod.mk.injEq]
  rw [hok]
  constructor
  · intro hd
    show _ ∉ table h.id (s.done h).live
    rw [← (hd h.id h.obj hp).2]
    simp [done, hx]
  · intro hnot id obj hid
    obtain ⟨hr, ht⟩ := hb id obj hid
    rw [total_perm hpe, total_cons] at hr
    rw [table_perm hpe, table_cons] at ht
    by_cases heq : h.id = id
    · obtain rfl : h.obj = obj := Option.some.inj (hp.symm.trans (heq ▸ hid))
      rw [if_pos heq] at hr ht
      subst heq
      simp [done, hr, ht, Finset.erase_insert hnot]
    · have hne : obj ≠ h.obj := fun ho => heq (hw.own hp (ho ▸ hid))
      rw [if_neg heq] at hr ht
      simp [done, hne, hr, ht]

theorem openPath_balanced_iff {maxStorage : Nat} (hw : s.Wf) (hb : s.Balanced) :
    (s.openPath id maxStorage).Balanced ↔ s.Ok (.openPath id maxStorage) := by
  constructor
  · intro hd h hm heq
    have ht := (hd id s.next (update_self ..)).2
    have hx : (h.sid, h.fileType) ∈ table id s.live := mem_table.mpr ⟨h, hm, heq, rfl⟩
    rw [show (s.openPath id maxStorage).live = s.live from rfl] at ht
    rw [← ht] at hx
    simp [openPath] at hx
  · intro hok id' obj hid
    by_cases heq : id' = id
    · have hnil : s.live.filter (·.id = id) = [] := filter_eq_nil_iff.mpr fun h hm => by simpa using hok h hm
      subst heq
      obtain rfl : s.next = obj := by simpa [openPath] using hid
      simp [openPath, total, table, hnil]
    · have hid : s.paths id' = some obj := by simpa [openPath, heq] using hid
      have hne : obj ≠ s.next := (hw.bound hid).ne
      simpa [openPath, hne] using hb id' obj hid

theorem openPath_wf {maxStorage : Nat} (hw : s.Wf) (hok : s.Ok (.openPath id maxStorage)) :
    (s.openPath id maxStorage).Wf := by
  refine ⟨fun h hm => ?_, fun {a b obj} ha hb => ?_, fun {a obj} ha => ?_⟩
  · simpa [openPath, hok h hm] using hw.held h hm
  · by_cases h₁ : a = id <;> by_cases h₂ : b = id <;> simp [openPath, h₁, h₂] at ha hb ⊢
    · exact absurd ha.symm (hw.bound hb).ne
    · exact absurd hb.symm (hw.bound ha).ne
    · exact hw.own ha hb
  · show obj < s.next + 1
    by_cases h₁ : a = id <;> simp [openPath, h₁] at ha
    · omega
    · exact Nat.lt_succ_of_lt (hw.bound ha)

/-- **One call** keeps the balance exactly if it meets the condition. -/
theorem step_balanced_iff {op : Op} (hw : s.Wf) (hb : s.Balanced) :
    ((s.step op).Balanced ↔ s.Ok op) ∧ (s.Ok op → (s.step op).Wf) := by
  cases op with
  | reserve r =>
    obtain ⟨hw', hb'⟩ := @reserve_keeps s r hw hb
    exact ⟨iff_of_true hb' trivial, fun _ => hw'⟩
  | done h =>
    rw [step]
    split_ifs with hm
    · exact ⟨done_balanced_iff hw hb hm, fun _ => ⟨fun k hk => hw.held k (mem_of_mem_erase hk), hw.own, hw.bound⟩⟩
    · exact ⟨iff_of_true hb fun h => absurd h hm, fun _ => hw⟩
  | openPath id maxStorage => exact ⟨openPath_balanced_iff hw hb, openPath_wf hw⟩

theorem always_iff (hw : s.Wf) (hb : s.Balanced) (ops : List Op) : Always Balanced s ops ↔ EachOk s ops := by
  induction ops generalizing s with
  | nil => exact iff_of_true hb trivial
  | cons op ops ih =>
    obtain ⟨hiff, hw'⟩ := @step_balanced_iff s op hw hb
    constructor
    · rintro ⟨-, h⟩
      have hok : s.Ok op := hiff.mp (by cases ops; exacts [h, h.1])
      exact ⟨hok, (ih (hw' hok) (hiff.mpr hok)).mp h⟩
    · rintro ⟨hok, h⟩
      exact ⟨hb, (ih (hw' hok) (hiff.mpr hok)).mpr h⟩

/-- **When reservations balance**: at all times of a run, exactly if each call meets the condition. What is reserved is then
determined by what is live: nothing once all is released, and as it was once a failed `Reserve` is rolled back. -/
theorem reservations_balance_iff (ops : List Op) : (Always Balanced new ops ↔ EachOk new ops) ∧
      ∀ s s' : Local, s.Balanced → s'.Balanced → s.live ~ s'.live → ∀ id obj obj', s.paths id = some obj →
        s'.paths id = some obj' → (s.objs obj).reserved = (s'.objs obj').reserved ∧
          (s.objs obj).reservations = (s'.objs obj').reservations := by
  refine ⟨always_iff ⟨by simp [new], by simp [new], by simp [new]⟩ (by simp [Balanced, new]) ops, ?_⟩
  intro s s' hb hb' hpe id obj obj' hid hid'
  rw [(hb id obj hid).1, (hb id obj hid).2, (hb' id obj' hid').1, (hb' id obj' hid').2]
  exact ⟨total_perm hpe, table_perm hpe⟩

/-- A request for one file. -/
def fileRequest (sid : Nat) (t : FileType) (id : ID) (size : Int) (ls : Disk) : Request :=
  ⟨sid, .ok size, (· == t), fun _ => id, fun _ => 10, fun _ => ls⟩

def oneRequest : Request := fileRequest 1 .sealed "a" 8 ⟨.ok 100, fun _ => 0, .ok 0⟩

def oneHeld : Held := ⟨"a", 0, 1, .sealed, 8⟩

/-- Two sectors, of which one is released, and the first again. -/
theorem reservations_balanced : Always Balanced new [.openPath "a" 0, .reserve oneRequest,
    .reserve { oneRequest with sid := 2 }, .done oneHeld, .reserve oneRequest, .done { oneHeld with sid := 2 }] :=
  (reservations_balance_iff _).1.mpr ⟨fun _ hm => absurd hm not_mem_nil, trivial, trivial, fun _ => by decide +kernel, trivial,
    fun _ => by decide +kernel, trivial⟩

/-- Of two for one file, the first release clears the bit, and the second sets it. And a path opened again has nothing. -/
theorem reservations_unbalanced :
    let two := [.openPath "a" 0, .reserve oneRequest, .reserve oneRequest].foldl step new
    let s := two.step (.done oneHeld)
    s.live = [oneHeld] ∧ (s.objs 0).reservations = ∅ ∧ (s.step (.done oneHeld)).live = [] ∧
      ((s.step (.done oneHeld)).objs 0).reservations = {(1, .sealed)} ∧
      (two.step (.openPath "a" 0)).live.length = 2 ∧ (two.step (.openPath "a" 0)).paths "a" = some 1 ∧
      ((two.step (.openPath "a" 0)).objs 1).reserved = 0 := by
  decide +kernel

/-! ## The limit -/

/-- What the live reservations on the path have not yet written. -/
def unwritten (s : Local) (id : ID) (ls : Disk) : Int := total id s.live - ∑ x ∈ table id s.live, ls.used x

theorem EachOk.balanced {ops : List Op} (hw : s.Wf) (hb : s.Balanced) (h : EachOk s ops) :
    (ops.foldl step s).Wf ∧ (ops.foldl step s).Balanced := by
  induction ops generalizing s with
  | nil => exact ⟨hw, hb⟩
  | cons op ops ih =>
    obtain ⟨hiff, hw'⟩ := @step_balanced_iff s op hw hb
    exact ih (hw' h.1) (hiff.mpr h.1) h.2

section
variable {obj used : Nat} {ls : Disk} {free : Int} (hstat : ls.stat = .ok free) (husage : ls.usage = .ok used)

include hstat husage in
theorem stat_eq (hb : s.Balanced) (hid : s.paths id = some obj) (hmax : 0 < (s.objs obj).maxStorage) :
    (s.objs obj).stat ls =
      .ok (min (max 0 (free - max 0 (s.unwritten id ls))) ((s.objs obj).maxStorage - used : Nat)) := by
  obtain ⟨hr, ht⟩ := hb id obj hid
  rw [Path.stat, hstat, husage, hr, ht]
  simp only [pure, bind, Except.bind, Except.pure, if_pos hmax]
  rfl

theorem unwritten_hold (h : Held) (ls : Disk) : (s.hold h).unwritten h.id ls = s.unwritten h.id ls + h.overhead -
    if (h.sid, h.fileType) ∈ table h.id s.live then 0 else ls.used (h.sid, h.fileType) := by
  unfold unwritten
  rw [show (s.hold h).live = h :: s.live from rfl, total_cons, table_cons, if_pos rfl, if_pos rfl]
  split_ifs with hx
  · rw [Finset.insert_eq_of_mem hx]
    omega
  · rw [Finset.sum_insert hx]
    omega

theorem unwritten_hold_ne {h : Held} (hne : h.id ≠ id) (ls : Disk) : (s.hold h).unwritten id ls = s.unwritten id ls := by
  unfold unwritten
  rw [show (s.hold h).live = h :: s.live from rfl, total_cons, table_cons, if_neg hne, if_neg hne, Int.zero_add]

include hstat husage in
/-- Any request, where the file system has no more free than the limit leaves. -/
theorem reserve_keeps_limit {r : Request} (hw : s.Wf) (hb : s.Balanced) (hid : s.paths id = some obj)
    (hmax : 0 < (s.objs obj).maxStorage) (hused : ∀ x, 0 ≤ ls.used x) (hdisk : ∀ t, r.storageIDs t = id → r.disk t = ls)
    (hfree : used + free ≤ (s.objs obj).maxStorage) (h : used + s.unwritten id ls ≤ (s.objs obj).maxStorage) :
    used + (s.reserve r).1.unwritten id ls ≤ (s.objs obj).maxStorage := by
  refine (reserve_rule (P := fun s' => (s'.Wf ∧ s'.Balanced) ∧ s'.paths = s.paths ∧
    (s'.objs obj).maxStorage = (s.objs obj).maxStorage ∧ used + s'.unwritten id ls ≤ (s.objs obj).maxStorage)
    ⟨⟨hw, hb⟩, rfl, rfl, h⟩ ?_).2.2.2
  rintro s' t obj' available overhead ⟨⟨hw', hb'⟩, hpaths, hmax', h'⟩ hobj hav hle
  refine ⟨hold_keeps hw' hb' hobj, hpaths, ?_, ?_⟩
  · by_cases heq : obj = obj'
    · subst heq
      simpa [hold] using hmax'
    · simpa [hold, heq] using hmax'
  by_cases hto : r.storageIDs t = id
  · subst hto
    obtain rfl : obj = obj' := Option.some.inj (hid.symm.trans (hpaths ▸ hobj))
    rw [hdisk t rfl, stat_eq hstat husage hb' hobj (hmax' ▸ hmax)] at hav
    have hav := Except.ok.inj hav
    have hpos := hused (r.sid, t)
    rw [unwritten_hold (Held.mk (r.storageIDs t) obj r.sid t overhead) ls]
    dsimp only
    split_ifs <;> omega
  · rw [unwritten_hold_ne hto]
    exact h'

theorem reserve_file {sid : Nat} {t : FileType} {available : Int} (size : Int) (hid : s.paths id = some obj)
    (hav : (s.objs obj).stat ls = .ok available) :
    ((s.reserve (fileRequest sid t id size ls)).2 = none ↔ size ≤ available) ∧
      (size ≤ available → (s.reserve (fileRequest sid t id size ls)).1 = s.hold ⟨id, obj, sid, t, size⟩) := by
  have hone : pathTypes.filter (· == t) = [t] := by cases t <;> rfl
  have hsize : (10 * size).tdiv 10 = size := Int.mul_tdiv_cancel_left size (by decide)
  simp only [reserve, fileRequest, hone, reserveLoop, hid, hav, hsize]
  split_ifs with hlt
  · exact ⟨by simpa using hlt, fun h => absurd h (by omega)⟩
  · exact ⟨by simpa using hlt, fun _ => rfl⟩
end

end Local
end Lotus.Paths.Reserve

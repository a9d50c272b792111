/-
# The log of a backup datastore (`lib/backupds/datastore.go`, `log.go`).

A log file is a backup of the child datastore followed by an entry for each `Put`. A `Delete` is not logged, and a put of a
batch is logged when it is staged, committed or not. Where no step makes a difference by this, restoring gives the child.
-/
import Lotus.Backup.Format
import Lotus.Lib.Lts

namespace Lotus.Backup
open Lib.Cbor (Heads byte)
open Lib.Lts List AList Option

/-! ## Names -/

abbrev UnixTime := Fin (2 ^ 63)

abbrev Uuid := { bs : Bytes // bs.length = 36 }

def digitsOnto : Nat → Nat → Bytes → Bytes
  | 0, _, acc => acc
  | fuel + 1, n, acc =>
    let acc := byte (48 + n % 10) :: acc
    if n < 10 then acc else digitsOnto fuel (n / 10) acc

def decimal (t : UnixTime) : Bytes := digitsOnto 19 t.val []

def logExt : Bytes := [46, 108, 111, 103, 46, 99, 98, 111, 114]

def semicolon : Byte := 59

def logName (t : UnixTime) : Bytes := decimal t ++ logExt

def parseInt (bs : Bytes) : Option Nat :=
  if bs ≠ [] ∧ bs.all (fun b => 48 ≤ b.val ∧ b.val ≤ 57) then some (bs.foldl (fun n b => n * 10 + (b.val - 48)) 0)
  else none

theorem digitsOnto_length (fuel n : Nat) (acc : Bytes) : (digitsOnto fuel n acc).length ≤ fuel + acc.length := by
  induction fuel generalizing n acc with
  | zero => simp [digitsOnto]
  | succ fuel ih =>
    unfold digitsOnto
    dsimp only
    split_ifs
    · rw [length_cons]
      omega
    have hrest := ih (n / 10) (byte (48 + n % 10) :: acc)
    rw [length_cons] at hrest
    omega

theorem digitsOnto_head {fuel n : Nat} (acc : Bytes) (hpo : 0 < n) (hlt : n < 10 ^ fuel) :
    ∃ d ds, digitsOnto fuel n acc = d :: ds ∧ 48 < d.val := by
  induction fuel generalizing n acc with
  | zero => omega
  | succ fuel ih =>
    unfold digitsOnto
    split_ifs with hsm
    · refine ⟨_, _, rfl, ?_⟩
      show 48 < (48 + n % 10) % 256
      omega
    · exact ih _ (by omega) (by rw [Nat.pow_succ] at hlt; omega)

theorem parseInt_pos {d : Byte} {ds : Bytes} (hd : 48 < d.val) {n : Nat} (h : parseInt (d :: ds) = some n) : 0 < n := by
  have hg : ∀ (bs : Bytes) (k : Nat), k ≤ bs.foldl (fun n b => n * 10 + (b.val - 48)) k := by
    intro bs
    induction bs with
    | nil => exact fun k => Nat.le_refl k
    | cons b bs ih =>
      intro k
      have hrest := ih (k * 10 + (b.val - 48))
      rw [foldl_cons]
      omega
  unfold parseInt at h
  split_ifs at h
  cases h
  have hle := hg ds (0 * 10 + (d.val - 48))
  rw [foldl_cons]
  omega

/-! ## The datastore -/

inductive Op (κ : Type) where
  | put (key : κ) (value : Bytes)
  | delete (key : κ)
deriving DecidableEq

def Op.key {κ : Type} (op : Op κ) : κ :=
  match op with
  | .put key _ => key
  | .delete key => key

inductive LogError where
  | errorf (msg : String)
  | read (msg : String) (err : ReadError)
deriving DecidableEq

abbrev File := Bytes × Bytes

/-- The child, the files in the directory of the log, its own file, and the open batches. -/
structure Datastore (κ : Type) where
  child : GoMap κ Bytes
  dir : List File
  log : Option Bytes
  batches : GoMap Nat (List (Op κ))

variable {κ : Type} [Heads] [DecidableEq κ] (env : Env κ)

def latestLoop (latest : Option Bytes) (latestTs : Nat) : List File → Except LogError (Option Bytes)
  | [] => .ok latest
  | file :: files =>
    if ¬ logExt <:+ file.1 then latestLoop latest latestTs files
    else
      -- the first nine characters of the name, not those before the extension
      match parseInt (file.1.take logExt.length) with
      | none => .error (.errorf "parsing logfile as a number")
      | some sec => if latestTs < sec then latestLoop (some file.1) sec files else latestLoop latest latestTs files

omit [Heads] in
theorem latestLoop_single {t : UnixTime} {contents : Bytes} {latest : Option Bytes}
    (h : latestLoop none 0 [(logName t, contents)] = .ok latest) : latest = some (logName t) := by
  have hsu : logExt <:+ logName t := suffix_append _ _
  unfold latestLoop at h
  rw [if_neg (not_not_intro hsu)] at h
  split at h
  · cases h
  case h_2 sec hse =>
    have hpo : 0 < sec := by
      by_cases hz : t.val = 0
      · -- the name of the first second is not a number
        rw [logName, decimal, hz] at hse
        cases hse
      have hti : t.val < 10 ^ 19 := by
        have := t.isLt
        omega
      obtain ⟨d, ds, hdi, hd⟩ := digitsOnto_head [] (by omega) hti
      rw [logName, decimal, hdi] at hse
      exact parseInt_pos hd hse
    rw [if_pos hpo] at h
    cases h
    rfl

/-- The times, the UUID and the results of the query at a call of `Wrap`. -/
structure Wrapping (κ : Type) where
  created : UnixTime
  headed : UnixTime
  written : UnixTime
  uuid : Uuid
  results : List (κ × Bytes)

def createLog (w : Wrapping κ) (dir : List File) : Except LogError (List File × Bytes) :=
  let p := logName w.created
  if p ∈ dir.map Prod.fst then .error (.errorf "file exists") else .ok (dir ++ [(p, backup env w.results)], p)

def lastLogHead (calls : Read κ) : Bytes :=
  ((calls.filter fun c => c.1 = env.loghead).getLast?.map fun c => c.2.1).getD []

def openLog (w : Wrapping κ) (child : GoMap κ Bytes) (dir : List File) (p : Bytes) : Except LogError (List File × Bytes) :=
  match child.lookup env.loghead with
  | none => .error (.errorf "checking log head")
  | some lh =>
    let lhp := lh.splitOn semicolon
    if lhp.length ≠ 3 then .error (.errorf "expected loghead to have 3 parts")
    else if lhp.head? ≠ some p then .error (.errorf "loghead log file doesn't match")
    else
      let read := readBackup env ((dir.lookup p).getD [])
      match read.2 with
      | .error err => .error (.read "reading backup part of the logfile" err)
      | .ok clean =>
        if lh ≠ lastLogHead env read.1 ∧ clean then .error (.errorf "loghead didn't match")
        else
          -- the reader has come to the end of the file
          let logvals := read.1.countP fun c => c.2.2
          let vals := read.1.countP fun c => !c.2.2
          if logvals > vals * 2 ∨ !clean then
            match createLog env w dir with
            | .error err => .error err
            | .ok (dir, latest) => .ok (if clean then dir.filter fun file => file.1 ≠ p else dir, latest)
          else .ok (dir, p)

def appendTo (name : Bytes) (e : Entry) (dir : List File) : List File :=
  dir.map fun file => if file.1 = name then (file.1, file.2 ++ e.marshalCBOR) else file

def logHead (name : Bytes) (w : Wrapping κ) : Bytes :=
  name ++ [semicolon] ++ w.uuid.val ++ [semicolon] ++ decimal w.headed

def startLog (w : Wrapping κ) (child : GoMap κ Bytes) (dir : List File) : Except LogError (Datastore κ) :=
  match latestLoop none 0 dir with
  | .error err => .error err
  | .ok latest =>
    let opened :=
      match latest with
      | none => createLog env w dir
      | some p => openLog env w child dir p
    match opened with
    | .error err => .error err
    | .ok (dir, latest) =>
      let lval := logHead latest w
      let entry : Entry := ⟨env.string env.loghead, lval, w.written.val⟩
      .ok ⟨child.insert env.loghead lval, appendTo latest entry dir, some latest, ∅⟩

namespace Datastore

def logPut (d : Datastore κ) (now : UnixTime) (key : κ) (value : Bytes) : Datastore κ :=
  match d.log with
  | none => d
  | some name => { d with dir := appendTo name ⟨env.string key, value, now.val⟩ d.dir }

def applyOps (ops : List (Op κ)) (child : GoMap κ Bytes) : GoMap κ Bytes :=
  ops.foldl (fun m op =>
    match op with
    | .put key value => m.insert key value
    | .delete key => m.erase key) child

/-- The calls. A restart is a call of `Wrap` on the same child and directory. -/
inductive Label (κ : Type) where
  | wrap (w : Wrapping κ)
  | put (now : UnixTime) (key : κ) (value : Bytes)
  | delete (key : κ)
  | batch (id : Nat)
  | batchPut (id : Nat) (now : UnixTime) (key : κ) (value : Bytes)
  | batchDelete (id : Nat) (key : κ)
  | commit (id : Nat)
  | abandon (id : Nat)

def step (d : Datastore κ) : Label κ → Option (Datastore κ)
  | .wrap w =>
    if d.batches.keys = [] ∧ (w.results.map fun p => (⟨p.1, p.2⟩ : Sigma fun _ : κ => Bytes)).Perm d.child.entries then
      (startLog env w d.child d.dir).toOption
    else none
  | .put now key value =>
    if d.log.isSome then some { d.logPut env now key value with child := d.child.insert key value } else none
  | .delete key => if d.log.isSome then some { d with child := d.child.erase key } else none
  | .batch id =>
    if d.log.isSome ∧ d.batches.lookup id = none then some { d with batches := d.batches.insert id [] } else none
  | .batchPut id now key value =>
    (d.batches.lookup id).map fun ops =>
      { d.logPut env now key value with batches := d.batches.insert id (ops ++ [.put key value]) }
  | .batchDelete id key =>
    (d.batches.lookup id).map fun ops => { d with batches := d.batches.insert id (ops ++ [.delete key]) }
  | .commit id =>
    (d.batches.lookup id).map fun ops => { d with child := applyOps ops d.child, batches := d.batches.erase id }
  | .abandon id => (d.batches.lookup id).map fun _ => { d with batches := d.batches.erase id }

/-- A datastore before its first `Wrap`. -/
def start (child : GoMap κ Bytes) : Datastore κ := ⟨child, [], none, ∅⟩

def restore (d : Datastore κ) : Option (GoMap κ Bytes) :=
  d.log.bind fun name => (d.dir.lookup name).bind fun file => (restoreInto env file).toOption

/-! ## The condition -/

def Sized (key : κ) (value : Bytes) : Prop := (env.string key).length ≤ maxLength ∧ value.length ≤ maxLength

def Staged (d : Datastore κ) (key : κ) : Prop :=
  ∃ id ops value, d.batches.lookup id = some ops ∧ Op.put key value ∈ ops

def logged (d : Datastore κ) (key : κ) : Option Bytes := (d.restore env).bind fun m => m.lookup key

def Label.Fits (l : Label κ) : Prop :=
  match l with
  | .put _ key value | .batchPut _ _ key value => Sized env key value
  | _ => True

/-- **The condition on a call.**  The keys that are deleted, committed or abandoned have in the log what the call leaves in
the child. -/
def Kept (d : Datastore κ) (l : Label κ) : Prop :=
  match l with
  | .delete key => key = env.loghead ∨ d.Staged key ∨ d.logged env key = none
  | .commit id => ∀ ops, d.batches.lookup id = some ops → ∀ op ∈ ops,
      op.key = env.loghead ∨ Staged { d with batches := d.batches.erase id } op.key ∨
        d.logged env op.key = (applyOps ops d.child).lookup op.key
  | .abandon id => ∀ ops, d.batches.lookup id = some ops → ∀ op ∈ ops,
      op.key = env.loghead ∨ Staged { d with batches := d.batches.erase id } op.key ∨
        d.logged env op.key = d.child.lookup op.key
  | _ => True

/-- The log agrees with the child, but for the log head and for what open batches put. -/
def Agreed (d : Datastore κ) : Prop :=
  d.log.isSome = true → ∀ key, key ≠ env.loghead → ¬ d.Staged key → d.logged env key = d.child.lookup key

/-! ## Log files -/

structure Written (name : Bytes) (dir : List File) (results : List (κ × Bytes)) (entries : List Entry) : Prop where
  dir : dir = [(name, backup env results ++ entries.flatMap Entry.marshalCBOR)]
  named : ∃ t, name = logName t
  results : ∀ r ∈ results, Sized env r.1 r.2
  entries : ∀ t ∈ entries, t.Fits

variable {env} {d d' : Datastore κ} {name : Bytes} {results : List (κ × Bytes)} {entries : List Entry}
variable {dir : List File}
omit [DecidableEq κ] in
theorem Written.lookup (h : Written env name dir results entries) :
    dir.lookup name = some (backup env results ++ entries.flatMap Entry.marshalCBOR) := by
  rw [h.dir, lookup_cons_self]

theorem Written.restore (h : Written env name d.dir results entries) (hlo : d.log = some name) :
    d.restore env = some (putAll (results ++ entries.map fun t => (env.newKey t.key, t.value)) ∅) := by
  simp only [Datastore.restore, hlo, bind_some, h.lookup, restoreInto_backup env h.results h.entries]
  rfl

omit [DecidableEq κ] in
theorem Written.append (h : Written env name dir results entries) {e : Entry} (he : e.Fits) :
    Written env name (appendTo name e dir) results (entries ++ [e]) where
  dir := by
    rw [h.dir]
    simp [appendTo, flatMap_append]
  named := h.named
  results := h.results
  entries := by
    intro t ht
    rcases mem_append.mp ht with ht | ht
    · exact h.entries t ht
    · rwa [mem_singleton.mp ht]

variable {key : κ} {value : Bytes}
omit [DecidableEq κ] in
omit [Heads] in
theorem fits_of_sized (h : Sized env key value) (now : UnixTime) : (⟨env.string key, value, now.val⟩ : Entry).Fits := by
  have hm : maxLength < 2 ^ 64 := by decide
  obtain ⟨hk, hv⟩ := h
  refine ⟨Nat.lt_of_le_of_lt hk hm, Nat.lt_of_le_of_lt hv hm, ?_, ?_⟩
  · show -2 ^ 63 ≤ (now.val : Int)
    omega
  show (now.val : Int) < 2 ^ 63
  have := now.isLt
  omega

theorem Written.logged_append (h : Written env name d.dir results entries) (hlo : d.log = some name)
    (hsz : Sized env key value) (now : UnixTime)
    (hd : d'.dir = appendTo name ⟨env.string key, value, now.val⟩ d.dir) (hl' : d'.log = some name) (key' : κ) :
    d'.logged env key' = if key' = key then some value else d.logged env key' := by
  have hwt := h.append (fits_of_sized hsz now)
  rw [← hd] at hwt
  rw [logged, logged, h.restore hlo, hwt.restore hl', map_append, ← append_assoc, putAll_append]
  simp only [bind_some]
  show (((putAll _ ∅).insert (env.newKey (env.string key)) value).lookup key') = _
  rw [env.newKey_string]
  split_ifs with heq
  · rw [heq, lookup_insert]
  · rw [lookup_insert_ne heq]

/-! ## What every call keeps -/

variable (env d) in
structure Shape : Prop where
  child : ∀ key value, d.child.lookup key = some value → Sized env key value
  staged : ∀ id ops, d.batches.lookup id = some ops → ∀ key value, Op.put key value ∈ ops → Sized env key value
  fresh : d.log = none → d.dir = [] ∧ d.batches = ∅
  written : ∀ name, d.log = some name → ∃ results entries, Written env name d.dir results entries

variable {child : GoMap κ Bytes}

section
variable (h : ∀ key value, child.lookup key = some value → Sized env key value)
include h

theorem start_shape : Shape env (start child) := by
  refine ⟨h, fun id ops ho => ?_, fun _ => ⟨rfl, rfl⟩, fun name hn => ?_⟩
  · cases ho
  · cases hn

omit [Heads] in
theorem sized_insert (hsz : Sized env key value) :
    ∀ key' value', (child.insert key value).lookup key' = some value' → Sized env key' value' := by
  intro key' value' hlk
  rcases GoMap.lookup_insert_some hlk with ⟨rfl, rfl⟩ | ⟨-, hlk⟩
  · exact hsz
  · exact h key' value' hlk

omit [Heads] in
theorem sized_erase (key : κ) :
    ∀ key' value', (child.erase key).lookup key' = some value' → Sized env key' value' := by
  intro key' value' hlk
  exact h key' value' (GoMap.lookup_erase_some hlk).2
end

variable {ops : List (Op κ)}

omit [Heads] in
theorem sized_applyOps (ho : ∀ key value, Op.put key value ∈ ops → Sized env key value)
    (h : ∀ key value, child.lookup key = some value → Sized env key value) :
    ∀ key value, (applyOps ops child).lookup key = some value → Sized env key value := by
  induction ops generalizing child with
  | nil => exact h
  | cons op ops ih =>
    refine ih (fun key value hmem => ho key value (mem_cons_of_mem _ hmem)) ?_
    cases op with
    | put key value => exact sized_insert h (ho key value mem_cons_self)
    | delete key => exact sized_erase h key

omit [Heads] in
theorem lookup_applyOps_ne (h : ∀ op ∈ ops, op.key ≠ key) (child : GoMap κ Bytes) :
    (applyOps ops child).lookup key = child.lookup key := by
  induction ops generalizing child with
  | nil => rfl
  | cons op ops ih =>
    have hne := h op mem_cons_self
    have hrest := ih fun op hop => h op (mem_cons_of_mem _ hop)
    cases op with
    | put key' value => exact (hrest _).trans (lookup_insert_ne hne.symm)
    | delete key' => exact (hrest _).trans (lookup_erase_ne hne.symm)

theorem Shape.log_of_batch (h : Shape env d) {id : Nat} (ho : d.batches.lookup id = some ops) : ∃ name, d.log = some name := by
  cases hlo : d.log with
  | some name => exact ⟨name, rfl⟩
  | none =>
    rw [(h.fresh hlo).2] at ho
    cases ho

theorem Shape.staged_insert (h : Shape env d) {id : Nat} (ho : ∀ key value, Op.put key value ∈ ops → Sized env key value) :
    ∀ id' ops', (d.batches.insert id ops).lookup id' = some ops' → ∀ key value, Op.put key value ∈ ops' →
      Sized env key value := by
  intro id' ops' hlk
  rcases GoMap.lookup_insert_some hlk with ⟨rfl, rfl⟩ | ⟨-, hlk⟩
  · exact ho
  · exact h.staged id' ops' hlk

section
omit [DecidableEq κ]

omit [Heads] in
theorem not_staged_of_erase {id : Nat} (ho : d.batches.lookup id = some ops)
    (hn : ¬ Staged { d with batches := d.batches.erase id } key) (hk : ∀ op ∈ ops, op.key ≠ key) : ¬ d.Staged key := by
  rintro ⟨id', ops', value, hlk, hpu⟩
  by_cases heq : id' = id
  · subst heq
    rw [ho] at hlk
    cases hlk
    exact hk _ hpu rfl
  · exact hn ⟨id', ops', value, (lookup_erase_ne heq).trans hlk, hpu⟩

omit [Heads] in
theorem not_staged_of_closed (h : d.batches.keys = []) (key : κ) : ¬ d.Staged key := by
  rintro ⟨id, ops, value, ho, -⟩
  have hmem : id ∈ d.batches.keys := lookup_isSome.mp (by rw [ho]; rfl)
  rw [h] at hmem
  cases hmem

omit [Heads] in
theorem staged_insert {id : Nat} {more : List (Op κ)} (hd : d.batches.lookup id = some ops)
    (hd' : d'.batches = d.batches.insert id (ops ++ more)) (h : d.Staged key) : d'.Staged key := by
  obtain ⟨id', ops', value, hlk, hpu⟩ := h
  by_cases heq : id' = id
  · subst heq
    rw [hd] at hlk
    cases hlk
    exact ⟨id', ops ++ more, value, by rw [hd', lookup_insert], mem_append_left _ hpu⟩
  · exact ⟨id', ops', value, by rw [hd', lookup_insert_ne heq, hlk], hpu⟩
end

/-! ## The calls -/

section
omit [DecidableEq κ]

theorem logPut_eq (hlo : d.log = some name) (now : UnixTime) (key : κ) (value : Bytes) :
    d.logPut env now key value = { d with dir := appendTo name ⟨env.string key, value, now.val⟩ d.dir } := by
  simp only [logPut, hlo]
end

variable {now : UnixTime}

section
variable (h : Shape env d) (ha : Agreed env d)
include h ha

theorem step_put (hsz : Sized env key value)
    (hst : step env d (.put now key value) = some d') : Shape env d' ∧ Agreed env d' := by
  simp only [step] at hst
  split_ifs at hst with hso
  obtain ⟨name, hlo⟩ := isSome_iff_exists.mp hso
  obtain ⟨results, entries, hwt⟩ := h.written name hlo
  cases hst
  rw [logPut_eq hlo]
  constructor
  · refine ⟨sized_insert h.child hsz, h.staged, fun hn => ?_, fun name' hn' => ?_⟩
    · rw [hlo] at hn
      cases hn
    rw [hlo] at hn'
    cases hn'
    exact ⟨results, _, hwt.append (fits_of_sized hsz now)⟩
  intro _ key' hk' hno
  refine (hwt.logged_append hlo hsz now rfl (by exact hlo) key').trans ?_
  split_ifs with heq
  · rw [heq, lookup_insert]
  · rw [lookup_insert_ne heq]
    exact ha hso key' hk' hno

theorem step_delete (hst : step env d (.delete key) = some d') : Shape env d' ∧ (Agreed env d' ↔ Kept env d (.delete key)) := by
  simp only [step] at hst
  split_ifs at hst with hso
  cases hst
  refine ⟨⟨sized_erase h.child key, h.staged, h.fresh, h.written⟩, fun ha' => ?_, fun hk _ key' hk' hn => ?_⟩
  · by_cases hke : key = env.loghead
    · exact .inl hke
    by_cases hsta : d.Staged key
    · exact .inr (.inl hsta)
    have hlo := ha' hso key hke hsta
    rw [lookup_erase] at hlo
    exact .inr (.inr hlo)
  show d.logged env key' = _
  by_cases heq : key' = key
  · subst heq
    rw [lookup_erase]
    exact (hk.resolve_left hk').resolve_left hn
  · rw [lookup_erase_ne heq]
    exact ha hso key' hk' hn

variable {id : Nat}

theorem step_batch (hst : step env d (.batch id) = some d') : Shape env d' ∧ Agreed env d' := by
  simp only [step] at hst
  split_ifs at hst with hg
  obtain ⟨hso, hnew⟩ := hg
  cases hst
  refine ⟨⟨h.child, h.staged_insert (fun key value hpu => (by cases hpu)), fun hn => ?_, h.written⟩, fun _ key hk hno => ?_⟩
  · rw [show d.log = none from hn] at hso
    cases hso
  refine ha hso key hk fun hsta => hno ?_
  obtain ⟨id', ops', value, hlk, hpu⟩ := hsta
  have hne : id' ≠ id := by
    rintro rfl
    rw [hnew] at hlk
    cases hlk
  exact ⟨id', ops', value, (lookup_insert_ne hne).trans hlk, hpu⟩

theorem step_batchPut (hsz : Sized env key value)
    (hst : step env d (.batchPut id now key value) = some d') : Shape env d' ∧ Agreed env d' := by
  obtain ⟨ops, ho, rfl⟩ := map_eq_some_iff.mp hst
  obtain ⟨name, hlo⟩ := h.log_of_batch ho
  obtain ⟨results, entries, hwt⟩ := h.written name hlo
  rw [logPut_eq hlo]
  constructor
  · refine ⟨h.child, h.staged_insert fun key' value' hpu => ?_, fun hn => ?_, fun name' hn' => ?_⟩
    · rcases mem_append.mp hpu with hpu | hpu
      · exact h.staged id ops ho key' value' hpu
      · cases mem_singleton.mp hpu
        exact hsz
    · rw [show d.log = none from hn] at hlo
      cases hlo
    rw [show d.log = some name' from hn'] at hlo
    cases hlo
    exact ⟨results, _, hwt.append (fits_of_sized hsz now)⟩
  intro _ key' hk' hno
  refine (hwt.logged_append hlo hsz now rfl (by exact hlo) key').trans ?_
  -- the key itself is staged now
  have hne : key' ≠ key := by
    rintro rfl
    exact hno ⟨id, _, value, lookup_insert _, mem_append_right _ (mem_singleton_self _)⟩
  rw [if_neg hne]
  refine ha (by rw [hlo]; rfl) key' hk' fun hsta => hno (staged_insert ho rfl hsta)

theorem step_batchDelete (hst : step env d (.batchDelete id key) = some d') : Shape env d' ∧ Agreed env d' := by
  obtain ⟨ops, ho, rfl⟩ := map_eq_some_iff.mp hst
  obtain ⟨name, hlo⟩ := h.log_of_batch ho
  refine ⟨⟨h.child, h.staged_insert fun key' value' hpu => ?_, fun hn => ?_, h.written⟩, fun hso key' hk' hno => ?_⟩
  · rcases mem_append.mp hpu with hpu | hpu
    · exact h.staged id ops ho key' value' hpu
    · cases mem_singleton.mp hpu
  · rw [show d.log = none from hn] at hlo
    cases hlo
  · exact ha hso key' hk' fun hsta => hno (staged_insert ho rfl hsta)

theorem close_batch (ho : d.batches.lookup id = some ops)
    (hsz : ∀ key value, child.lookup key = some value → Sized env key value)
    (hsa : ∀ key, (∀ op ∈ ops, op.key ≠ key) → child.lookup key = d.child.lookup key) :
    Shape env { d with child := child, batches := d.batches.erase id } ∧
      (Agreed env { d with child := child, batches := d.batches.erase id } ↔ ∀ op ∈ ops, op.key = env.loghead ∨
        Staged { d with batches := d.batches.erase id } op.key ∨ d.logged env op.key = child.lookup op.key) := by
  obtain ⟨name, hlo⟩ := h.log_of_batch ho
  have hso : d.log.isSome = true := by rw [hlo]; rfl
  refine ⟨⟨hsz, fun id' ops' hlk => h.staged id' ops' (GoMap.lookup_erase_some hlk).2, fun hn => ?_, h.written⟩,
    fun ha' op hop => ?_, fun hk _ key hkey hno => ?_⟩
  · rw [show d.log = none from hn] at hlo
    cases hlo
  · by_cases hkey : op.key = env.loghead
    · exact .inl hkey
    by_cases hst : Staged { d with batches := d.batches.erase id } op.key
    · exact .inr (.inl hst)
    · exact .inr (.inr (ha' hso op.key hkey hst))
  show d.logged env key = child.lookup key
  by_cases hke : ∃ op ∈ ops, op.key = key
  · obtain ⟨op, hop, rfl⟩ := hke
    exact ((hk op hop).resolve_left hkey).resolve_left hno
  have hoth : ∀ op ∈ ops, op.key ≠ key := fun op hop heq => hke ⟨op, hop, heq⟩
  rw [hsa key hoth]
  exact ha hso key hkey (not_staged_of_erase ho hno hoth)

theorem step_commit (hst : step env d (.commit id) = some d') :
    Shape env d' ∧ (Agreed env d' ↔ Kept env d (.commit id)) := by
  obtain ⟨ops, ho, rfl⟩ := map_eq_some_iff.mp hst
  obtain ⟨hsh, hag⟩ := close_batch h ha ho (sized_applyOps (h.staged id ops ho) h.child)
    fun key hoth => lookup_applyOps_ne hoth d.child
  refine ⟨hsh, hag.trans ?_⟩
  simp only [Kept, ho, some.injEq, forall_eq']

theorem step_abandon (hst : step env d (.abandon id) = some d') :
    Shape env d' ∧ (Agreed env d' ↔ Kept env d (.abandon id)) := by
  obtain ⟨ops, ho, rfl⟩ := map_eq_some_iff.mp hst
  obtain ⟨hsh, hag⟩ := close_batch h ha ho h.child fun _ _ => rfl
  refine ⟨hsh, hag.trans ?_⟩
  simp only [Kept, ho, some.injEq, forall_eq']
end

variable {w : Wrapping κ}

theorem openLog_cases {dir' : List File} {latest : Bytes} (h : Written env name dir results entries)
    (ho : openLog env w child dir name = .ok (dir', latest)) : (dir' = dir ∧ latest = name) ∨
      (dir' = [(logName w.created, backup env w.results)] ∧ latest = logName w.created) := by
  have hre := readBackup_backup env h.results h.entries
  unfold openLog at ho
  split at ho
  · cases ho
  simp only [h.lookup, getD_some, hre] at ho
  split_ifs at ho
  · split at ho
    · cases ho
    case h_2 dir1 latest1 hcr =>
      simp only [createLog, h.dir, map_cons, map_nil, mem_singleton] at hcr
      split_ifs at hcr with hexi
      cases hcr
      cases ho
      refine .inr ⟨?_, rfl⟩
      simp [hexi]
  · cases ho
    exact .inl ⟨rfl, rfl⟩

theorem opened_written (h : Shape env d) (ha : Agreed env d) (hb : d.batches.keys = [])
    (hre : (w.results.map fun p => (⟨p.1, p.2⟩ : Sigma fun _ : κ => Bytes)).Perm d.child.entries)
    (hbe : startLog env w d.child d.dir = .ok d') :
    ∃ dir latest results entries, Written env latest dir results entries ∧
      (∀ key, key ≠ env.loghead →
        (putAll (results ++ entries.map fun t => (env.newKey t.key, t.value)) ∅).lookup key = d.child.lookup key) ∧
      d' = ⟨d.child.insert env.loghead (logHead latest w),
        appendTo latest ⟨env.string env.loghead, logHead latest w, w.written.val⟩ dir, some latest, ∅⟩ := by
  have hsz : ∀ r ∈ w.results, Sized env r.1 r.2 := by
    intro r hr
    exact h.child r.1 r.2 (mem_lookup_iff.mpr (hre.mem_iff.mp (mem_map_of_mem hr)))
  -- a new file has what the child has
  have hnew : Written env (logName w.created) [(logName w.created, backup env w.results)] w.results [] :=
    ⟨by rw [flatMap_nil, append_nil], ⟨_, rfl⟩, hsz, fun t ht => (by cases ht)⟩
  have hsa : ∀ key, (putAll (w.results ++ ([] : List Entry).map fun t => (env.newKey t.key, t.value)) ∅).lookup key =
      d.child.lookup key := by
    intro key
    rw [map_nil, append_nil]
    exact lookup_putAll_perm hre key
  unfold startLog at hbe
  split at hbe
  · cases hbe
  case h_2 latest hla =>
    dsimp only at hbe
    split at hbe
    · cases hbe
    case h_2 dir1 latest1 ho =>
      cases hbe
      rcases hlo : d.log with _ | name
      · rw [(h.fresh hlo).1] at hla ho
        cases hla
        cases ho
        exact ⟨_, _, _, _, hnew, fun key _ => hsa key, rfl⟩
      obtain ⟨results, entries, hwt⟩ := h.written name hlo
      obtain ⟨t, rfl⟩ := hwt.named
      rw [hwt.dir] at hla
      obtain rfl := latestLoop_single hla
      rcases openLog_cases hwt ho with ⟨rfl, rfl⟩ | ⟨rfl, rfl⟩
      · refine ⟨_, _, results, entries, hwt, fun key hk => ?_, rfl⟩
        have hag := ha (by rw [hlo]; rfl) key hk (not_staged_of_closed hb key)
        rwa [logged, hwt.restore hlo] at hag
      · exact ⟨_, _, _, _, hnew, fun key _ => hsa key, rfl⟩

omit [DecidableEq κ] in
omit [Heads] in
theorem logHead_sized (t : UnixTime) (w : Wrapping κ) : Sized env env.loghead (logHead (logName t) w) := by
  have hn := digitsOnto_length 19 t.val []
  have hhead := digitsOnto_length 19 w.headed.val []
  have hu := w.uuid.property
  refine ⟨by rw [env.loghead_length]; decide, ?_⟩
  simp only [logHead, logName, decimal, length_append, length_nil, hu, maxLength, logExt, length_cons] at hn hhead ⊢
  omega

theorem step_wrap (h : Shape env d) (ha : Agreed env d) (hst : step env d (.wrap w) = some d') :
    Shape env d' ∧ Agreed env d' := by
  simp only [step] at hst
  split_ifs at hst with hg
  have hb : startLog env w d.child d.dir = .ok d' := by
    rcases hre : startLog env w d.child d.dir with err | d1
    · rw [hre] at hst
      cases hst
    rw [hre] at hst
    cases hst
    rfl
  obtain ⟨dir, latest, results, entries, hwt, hsa, rfl⟩ := opened_written h ha hg.1 hg.2 hb
  obtain ⟨t, rfl⟩ := hwt.named
  have hsz : Sized env env.loghead (logHead (logName t) w) := logHead_sized t w
  constructor
  · refine ⟨sized_insert h.child hsz, fun id ops ho => (by cases ho), fun hn => (by cases hn), ?_⟩
    intro name hna
    cases hna
    exact ⟨results, _, hwt.append (fits_of_sized hsz w.written)⟩
  intro _ key hk _
  -- the log head comes last
  set d0 : Datastore κ := ⟨d.child, dir, some (logName t), ∅⟩
  have hw0 : Written env (logName t) d0.dir results entries := hwt
  refine (hw0.logged_append rfl hsz w.written rfl (by rfl) key).trans ?_
  rw [if_neg hk, lookup_insert_ne hk, logged, hw0.restore rfl]
  exact hsa key hk

/-! ## Runs -/

theorem step_agreed (h : Shape env d) (ha : Agreed env d) {l : Label κ} (hfi : l.Fits env)
    (hst : step env d l = some d') : Shape env d' ∧ (Agreed env d' ↔ Kept env d l) := by
  have hfree : Kept env d l → Shape env d' ∧ Agreed env d' → Shape env d' ∧ (Agreed env d' ↔ Kept env d l) :=
    fun hk hd' => ⟨hd'.1, iff_of_true hd'.2 hk⟩
  cases l with
  | wrap w => exact hfree trivial (step_wrap h ha hst)
  | put now key value => exact hfree trivial (step_put h ha hfi hst)
  | delete key => exact step_delete h ha hst
  | batch id => exact hfree trivial (step_batch h ha hst)
  | batchPut id now key value => exact hfree trivial (step_batchPut h ha hfi hst)
  | batchDelete id key => exact hfree trivial (step_batchDelete h ha hst)
  | commit id => exact step_commit h ha hst
  | abandon id => exact step_abandon h ha hst

theorem run_agreed (hch : ∀ key value, child.lookup key = some value → Sized env key value)
    {labels : List (Label κ)} (hk : Legal (step env) (fun d l => l.Fits env ∧ Kept env d l) (start child) labels)
    (hrun : run (step env) (start child) labels = some d) : Shape env d ∧ Agreed env d := by
  refine run_legal (P := fun d => Shape env d ∧ Agreed env d) (fun d l d' hd hl hst => ?_) ?_ hk hrun
  · obtain ⟨hsh, hag⟩ := step_agreed hd.1 hd.2 hl.1 hst
    exact ⟨hsh, hag.mpr hl.2⟩
  · exact ⟨start_shape hch, fun hso => (by cases hso)⟩

theorem Shape.restore (h : Shape env d) (hso : d.log.isSome = true) :
    ∃ m, d.restore env = some m ∧ ∀ key, m.lookup key = d.logged env key := by
  obtain ⟨name, hlo⟩ := isSome_iff_exists.mp hso
  obtain ⟨results, entries, hwt⟩ := h.written name hlo
  refine ⟨_, hwt.restore hlo, fun key => ?_⟩
  rw [logged, hwt.restore hlo]
  rfl

/-- **The log restores the child** when no batch is open, in every run whose calls meet the condition. -/
theorem log_restores (env : Env κ) (child : GoMap κ Bytes)
    (hchild : ∀ key value, child.lookup key = some value → Sized env key value) (labels : List (Label κ))
    (hkept : Legal (step env) (fun d l => l.Fits env ∧ Kept env d l) (start child) labels) (d : Datastore κ)
    (hrun : run (step env) (start child) labels = some d) : (d.log.isSome = true → d.batches.keys = [] →
      ∃ m, d.restore env = some m ∧ ∀ key, key ≠ env.loghead → m.lookup key = d.child.lookup key) ∧
    ∀ l d', l.Fits env → step env d l = some d' → (Agreed env d' ↔ Kept env d l) := by
  obtain ⟨hsh, hag⟩ := run_agreed hchild hkept hrun
  refine ⟨fun hso hcl => ?_, fun l d' hfi hst => (step_agreed hsh hag hfi hst).2⟩
  obtain ⟨m, hm, hlk⟩ := hsh.restore hso
  refine ⟨m, hm, fun key hk => ?_⟩
  rw [hlk]
  exact hag hso key hk (not_staged_of_closed hcl key)

end Datastore
end Lotus.Backup

namespace Lotus.Backup.Datastore
open Lib.Cbor (Heads byte)
open Lib.Lts List Option

theorem byte_head {major : Nat} (hm : major < 8) (low : Nat) (hlo : low < 32) :
    (byte (major * 32 + low)).val / 32 = major ∧ (byte (major * 32 + low)).val % 32 = low := by
  have hv : (byte (major * 32 + low)).val = major * 32 + low := Nat.mod_eq_of_lt (by omega)
  omega

/-- Heads that count a large argument out. -/
instance someHeads : Heads where
  head major n := if n < 24 then [byte (major * 32 + n)] else byte (major * 32 + 24) :: (replicate n 1 ++ [0])
  readHead
    | [] => .error .eof
    | first :: input =>
      if first.val % 32 < 24 then .ok ((first.val / 32, first.val % 32), input)
      else
        match input.dropWhile (· = 1) with
        | [] => .error .unexpectedEOF
        | _ :: rest => .ok ((first.val / 32, (input.takeWhile (· = 1)).length), rest)
  head_small h := if_pos h
  readHead_head {major n} hm _ rest := by
    split_ifs with hn
    · obtain ⟨hd, hmo⟩ := byte_head hm n (by omega)
      simp only [singleton_append, hd, hmo, if_pos hn]
    · obtain ⟨hd, hmo⟩ := byte_head hm 24 (by omega)
      have hones : ∀ b ∈ replicate n (1 : Fin 256), decide (b = 1) = true := by simp
      simp [hd, hmo, dropWhile_append_of_pos hones, takeWhile_append_of_pos hones]
  readHead_lt {input r rest} h := by
    rcases input with _ | ⟨first, input⟩
    · cases h
    dsimp only at h
    split_ifs at h
    · cases h
      exact Nat.lt_succ_self _
    split at h
    · cases h
    case h_2 hdrop =>
      cases h
      have hle := (dropWhile_suffix (l := input) (· = 1)).length_le
      rw [hdrop, length_cons] at hle
      exact hle.trans (Nat.le_succ _)

def someEnv : Env Bytes where
  string := id
  newKey := id
  newKey_string := fun _ => rfl
  sha256 := fun _ => List.replicate 32 0
  sha256_length := fun _ => rfl
  loghead := List.replicate 18 7
  loghead_length := rfl
  allowTruncated := false

/-- A call of `Wrap` at a time, with the child's pairs. -/
def wrapAt (t : UnixTime) (results : List (Bytes × Bytes)) : Wrapping Bytes :=
  ⟨1700000000 + t, t, t, ⟨List.replicate 36 65, rfl⟩, results⟩

theorem someEnv_sized {key value : Bytes} (hk : key.length ≤ 1) (hv : value.length ≤ 1) : Sized someEnv key value := by
  have hm : 1 ≤ maxLength := by decide
  exact ⟨Nat.le_trans hk hm, Nat.le_trans hv hm⟩

/-- The log head of the first call of `Wrap`. -/
def firstHead : Bytes := logHead (logName 1700000001) (wrapAt 1 [])

theorem log_restores_restart :
    ∃ d, run (step someEnv) (start ∅) [.wrap (wrapAt 1 []), .put 2 [1] [2],
        .wrap (wrapAt 3 [([1], [2]), (someEnv.loghead, firstHead)])] = some d ∧
      ∃ m, d.restore someEnv = some m ∧ ∀ key, key ≠ someEnv.loghead → m.lookup key = d.child.lookup key := by
  have hev : (run (step someEnv) (start ∅) [.wrap (wrapAt 1 []), .put 2 [1] [2],
      .wrap (wrapAt 3 [([1], [2]), (someEnv.loghead, firstHead)])]).any
        (fun d => d.log.isSome && d.batches.keys = []) = true := by decide +kernel
  obtain ⟨d, hrun, hd⟩ := (any_eq_true _ _).mp hev
  obtain ⟨hso, hcl⟩ := Bool.and_eq_true_iff.mp hd
  have hsz : Sized someEnv [1] [2] := someEnv_sized (Nat.le_refl 1) (Nat.le_refl 1)
  exact ⟨d, hrun, (log_restores someEnv ∅ (fun key value hlk => by cases hlk) _
    (legal_of_forall (by simp [Label.Fits, Kept, hsz])) d hrun).1 hso (of_decide_eq_true hcl)⟩

theorem left_by_run {labels : List (Label Bytes)} {logged kept : Option Bytes}
    (h : (run (step someEnv) (start ∅) labels).any (fun d => d.batches.keys = [] && (d.restore someEnv).any fun m =>
      m.lookup [1] = logged && d.child.lookup [1] = kept) = true) :
    ∃ d m, run (step someEnv) (start ∅) labels = some d ∧ d.batches.keys = [] ∧ d.restore someEnv = some m ∧
      m.lookup [1] = logged ∧ d.child.lookup [1] = kept := by
  obtain ⟨d, hrun, hd⟩ := (any_eq_true _ _).mp h
  obtain ⟨hcl, hm⟩ := Bool.and_eq_true_iff.mp hd
  obtain ⟨m, hre, hm⟩ := (any_eq_true _ _).mp hm
  obtain ⟨hlo, hch⟩ := Bool.and_eq_true_iff.mp hm
  exact ⟨d, m, hrun, of_decide_eq_true hcl, hre, of_decide_eq_true hlo, of_decide_eq_true hch⟩

/-- **Differences**: deleted keys and abandoned puts are restored, a batch committed after a later put is not. -/
theorem log_does_not_restore :
    (∃ d m, run (step someEnv) (start ∅) [.wrap (wrapAt 1 []), .put 2 [1] [2], .delete [1]] = some d ∧
      d.batches.keys = [] ∧ d.restore someEnv = some m ∧ m.lookup [1] = some [2] ∧ d.child.lookup [1] = none) ∧
    (∃ d m, run (step someEnv) (start ∅) [.wrap (wrapAt 1 []), .batch 0, .batchPut 0 2 [1] [2],
        .abandon 0] = some d ∧
      d.batches.keys = [] ∧ d.restore someEnv = some m ∧ m.lookup [1] = some [2] ∧ d.child.lookup [1] = none) ∧
    ∃ d m, run (step someEnv) (start ∅) [.wrap (wrapAt 1 []), .batch 0, .batchPut 0 2 [1] [2],
        .put 2 [1] [3], .commit 0] = some d ∧
      d.batches.keys = [] ∧ d.restore someEnv = some m ∧ m.lookup [1] = some [3] ∧ d.child.lookup [1] = some [2] :=
  ⟨left_by_run (by decide +kernel), left_by_run (by decide +kernel), left_by_run (by decide +kernel)⟩

end Lotus.Backup.Datastore

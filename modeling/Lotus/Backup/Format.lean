/-
# Backups and log entries (`lib/backupds/datastore.go`, `cbor.go`, `read.go`).

A backup is an array of two: the pairs in the datastore, as an array without a length, and its checksum. Log entries follow.
Of keys it is used that `NewKey` keeps the string of a key, and of the hash its length.
-/
import Lotus.Lib.Cbor
import Lotus.Types.Basic

namespace Lotus.Backup
open Lib.Cbor List

variable [Heads]

/-- The keys of a datastore, the hash, the log head's key, and `LOTUS_ALLOW_TRUNCATED_LOG`. -/
structure Env (κ : Type) where
  string : κ → Bytes
  newKey : Bytes → κ
  newKey_string : ∀ key, newKey (string key) = key
  sha256 : Bytes → Bytes
  sha256_length : ∀ bs, (sha256 bs).length = 32
  loghead : κ
  loghead_length : (string loghead).length = 18
  allowTruncated : Bool

/-- The largest key or value that `ReadBackup` takes from a backup. -/
def maxLength : Nat := 2 ^ 40

/-! ## Entries -/

structure Entry where
  key : Bytes
  value : Bytes
  timestamp : Int
deriving DecidableEq

def timestampHead (timestamp : Int) : Bytes :=
  if 0 ≤ timestamp then head 0 timestamp.toNat else head 1 (-timestamp - 1).toNat

def Entry.marshalCBOR (t : Entry) : Bytes := [131] ++ byteString t.key ++ byteString t.value ++ timestampHead t.timestamp

inductive EntryError where
  | io (err : Error)
  | errorf (msg : String)
deriving DecidableEq

def readField (input : Bytes) : Except EntryError (Bytes × Bytes) :=
  match readHead input with
  | .error err => .error (.io err)
  | .ok ((maj, extra), rest) =>
    if maj ≠ 2 then .error (.errorf "expected byte array")
    else
      match readFull extra rest with
      | .error err => .error (.io err)
      | .ok r => .ok r

def readTimestamp (input : Bytes) : Except EntryError (Int × Bytes) :=
  match readHead input with
  | .error err => .error (.io err)
  | .ok ((maj, extra), rest) =>
    if maj = 0 then
      if 2 ^ 63 ≤ extra then .error (.errorf "int64 positive overflow") else .ok (extra, rest)
    else if maj = 1 then
      if 2 ^ 63 ≤ extra then .error (.errorf "int64 negative oveflow") else .ok (-1 - extra, rest)
    else .error (.errorf "wrong type for int64 field")

def unmarshalCBOR (input : Bytes) : Except EntryError (Entry × Bytes) :=
  match readHead input with
  | .error err => .error (.io err)
  | .ok ((maj, extra), rest) =>
    if maj ≠ 4 then .error (.errorf "cbor input should be of type array")
    else if extra ≠ 3 then .error (.errorf "cbor input had wrong number of fields")
    else
      match readField rest with
      | .error err => .error err
      | .ok (key, rest) =>
        match readField rest with
        | .error err => .error err
        | .ok (value, rest) =>
          match readTimestamp rest with
          | .error err => .error err
          | .ok (timestamp, rest) => .ok (⟨key, value, timestamp⟩, rest)

structure Entry.Fits (t : Entry) : Prop where
  key : t.key.length < 2 ^ 64
  value : t.value.length < 2 ^ 64
  low : -2 ^ 63 ≤ t.timestamp
  high : t.timestamp < 2 ^ 63

theorem readField_byteString {bs : Bytes} (h : bs.length < 2 ^ 64) (rest : Bytes) :
    readField (byteString bs ++ rest) = .ok (bs, rest) := by
  rw [readField, byteString, append_assoc, readHead_head (by omega) h]
  simp only [ne_eq, not_true_eq_false, if_false, readFull_append (rfl : bs.length = bs.length)]

theorem readTimestamp_head {timestamp : Int} (hlo : -2 ^ 63 ≤ timestamp) (hh : timestamp < 2 ^ 63) (rest : Bytes) :
    readTimestamp (timestampHead timestamp ++ rest) = .ok (timestamp, rest) := by
  unfold timestampHead
  split_ifs with hpo
  · rw [readTimestamp, readHead_head (by omega) (by omega)]
    show (if 2 ^ 63 ≤ timestamp.toNat then _ else _) = _
    rw [if_neg (by omega), Int.toNat_of_nonneg hpo]
  rw [readTimestamp, readHead_head (by omega) (by omega)]
  show (if 2 ^ 63 ≤ (-timestamp - 1).toNat then _ else _) = _
  rw [if_neg (by omega), Int.toNat_of_nonneg (by omega)]
  congr 2
  omega

variable {t : Entry}

theorem unmarshalCBOR_marshalCBOR (h : t.Fits) (rest : Bytes) : unmarshalCBOR (t.marshalCBOR ++ rest) = .ok (t, rest) := by
  have hhead : readHead ([131] ++ (byteString t.key ++ (byteString t.value ++ (timestampHead t.timestamp ++ rest)))) =
      .ok ((4, 3), byteString t.key ++ (byteString t.value ++ (timestampHead t.timestamp ++ rest))) := by
    have hthree : head 4 3 = [131] := head_small (by omega)
    rw [← hthree]
    exact readHead_head (by omega) (by omega) _
  simp only [unmarshalCBOR, Entry.marshalCBOR, append_assoc, hhead, ne_eq, not_true_eq_false, if_false,
    readField_byteString h.key, readField_byteString h.value, readTimestamp_head h.low h.high]

theorem unmarshalCBOR_lt {input rest : Bytes} (h : unmarshalCBOR input = .ok (t, rest)) : rest.length < input.length := by
  have hfi : ∀ {input bs rest : Bytes}, readField input = .ok (bs, rest) → rest.length < input.length := by
    intro input bs rest
    fun_cases readField with
    | case4 maj extra rest' hhead _ r hfu =>
      rintro ⟨⟩
      have hlt := readHead_lt hhead
      have hle := readFull_le hfu
      omega
    | _ => exact nofun
  have hti : ∀ {input rest : Bytes} {n : Int}, readTimestamp input = .ok (n, rest) → rest.length < input.length := by
    intro input rest n
    fun_cases readTimestamp with
    | case3 maj extra rest' hhead | case5 maj extra rest' hhead =>
      rintro ⟨⟩
      exact readHead_lt hhead
    | _ => exact nofun
  revert h
  fun_cases unmarshalCBOR with
  | case7 maj extra rest1 hhead _ _ key rest2 hk value rest3 hv timestamp rest4 htim =>
    rintro ⟨⟩
    have := readHead_lt hhead
    have := hfi hk
    have := hfi hv
    have := hti htim
    omega
  | _ => exact nofun

/-! ## Backups -/

inductive ReadError where
  | wrapped (msg : String) (err : Error)
  | unexpected (msg : String) (got : Byte)
  | checksum (expected got : Bytes)
  | entry (msg : String) (err : EntryError)
deriving DecidableEq

variable {κ : Type} (env : Env κ)

def writePair (pair : Bytes × Bytes) : Bytes := head 4 2 ++ byteString pair.1 ++ byteString pair.2

def writeKVs (pairs : List (Bytes × Bytes)) : Bytes := [0x9f] ++ pairs.flatMap writePair ++ [0xff]

/-- `Backup`: the pairs are those of the query, in its order. -/
def backup (results : List (κ × Bytes)) : Bytes :=
  let kvs := writeKVs (results.map fun r => (env.string r.1, r.2))
  head 4 2 ++ kvs ++ byteString (env.sha256 kvs)

/-- The pairs of `ReadBackup` up to the end of the array, and what is left. -/
def readPairs (input : Bytes) : List (Bytes × Bytes) × Except ReadError Bytes :=
  match input with
  | [] => ([], .error (.wrapped "reading tuple header" .eof))
  | first :: rest =>
    if first = 0xff then ([], .ok rest)
    else if first ≠ 0x82 then ([], .error (.unexpected "expected array(2) header 0x82" first))
    else
      match _hkey : readByteString maxLength rest with
      | .error err => ([], .error (.wrapped "reading key" err))
      | .ok (key, rest1) =>
        match _hvalue : readByteString maxLength rest1 with
        | .error err => ([], .error (.wrapped "reading value" err))
        | .ok (value, rest2) =>
          let res := readPairs rest2
          ((key, value) :: res.1, res.2)
termination_by input.length
decreasing_by
  have hlt1 := readByteString_lt _hkey
  have hlt2 := readByteString_lt _hvalue
  simp only [length_cons]
  omega

/-- The log entries of `ReadBackup`, and whether the log is clean. -/
def readEntries (input : Bytes) : List Entry × Except ReadError Bool :=
  if input = [] then ([], .ok true)
  else
    match _hentry : unmarshalCBOR input with
    | .error err =>
      if err = .io .eof ∨ err = .io .unexpectedEOF then
        if env.allowTruncated then ([], .ok false)
        else ([], .error (.entry "log entry potentially truncated, set LOTUS_ALLOW_TRUNCATED_LOG=1 to proceed" err))
      else ([], .error (.entry "unmarshaling log entry" err))
    | .ok (ent, rest) =>
      let res := readEntries rest
      (ent :: res.1, res.2)
termination_by input.length
decreasing_by exact unmarshalCBOR_lt _hentry

/-- What `ReadBackup` gives to its function: a key, a value, and whether they are from the log. -/
abbrev Read (κ : Type) := List (κ × Bytes × Bool)

def readBackup (r : Bytes) : Read κ × Except ReadError Bool :=
  match r with
  | [] => ([], .error (.wrapped "reading array header" .eof))
  | first :: hr =>
    if first ≠ 0x82 then ([], .error (.unexpected "expected array(2) header byte 0x82" first))
    else
      match hr with
      | [] => ([], .error (.wrapped "reading array header" .eof))
      | second :: input =>
        if second ≠ 0x9f then ([], .error (.unexpected "expected indefinite length array header byte 0x9f" second))
        else
          let pairs := readPairs input
          let calls : Read κ := pairs.1.map fun p => (env.newKey p.1, p.2, false)
          match pairs.2 with
          | .error err => (calls, .error err)
          | .ok rest =>
            let sum := env.sha256 (hr.take (hr.length - rest.length))
            match readByteString 32 rest with
            | .error err => (calls, .error (.wrapped "reading expected checksum" err))
            | .ok (expSum, rest) =>
              if sum ≠ expSum then (calls, .error (.checksum expSum sum))
              else
                let entries := readEntries env rest
                (calls ++ entries.1.map fun ent => (env.newKey ent.key, ent.value, true), entries.2)

def putAll [DecidableEq κ] (pairs : List (κ × Bytes)) (m : GoMap κ Bytes) : GoMap κ Bytes :=
  pairs.foldl (fun m p => m.insert p.1 p.2) m

/-- `RestoreInto` an empty datastore: a batch of puts. -/
def restoreInto [DecidableEq κ] (r : Bytes) : Except ReadError (GoMap κ Bytes) :=
  let read := readBackup env r
  match read.2 with
  | .error err => .error err
  | .ok _ => .ok (putAll (read.1.map fun c => (c.1, c.2.1)) ∅)

/-! ## What is written is read -/

theorem readPairs_writePair {pairs : List (Bytes × Bytes)}
    (h : ∀ p ∈ pairs, p.1.length ≤ maxLength ∧ p.2.length ≤ maxLength) (rest : Bytes) :
    readPairs (pairs.flatMap writePair ++ [0xff] ++ rest) = (pairs, .ok rest) := by
  induction pairs with
  | nil =>
    rw [flatMap_nil, nil_append, singleton_append, readPairs]
    rfl
  | cons p pairs ih =>
    have hp := h p mem_cons_self
    have hrest := ih fun q hq => h q (mem_cons_of_mem _ hq)
    have hpa : writePair p = 0x82 :: (byteString p.1 ++ byteString p.2) := by
      rw [writePair, head_small (by omega), append_assoc]
      rfl
    rw [flatMap_cons, hpa]
    simp only [cons_append, append_assoc] at hrest ⊢
    rw [readPairs, if_neg (by decide), if_neg (by decide)]
    split
    case h_1 hk =>
      rw [readByteString_byteString hp.1 (by decide)] at hk
      cases hk
    case h_2 hk =>
      rw [readByteString_byteString hp.1 (by decide)] at hk
      cases hk
      split
      case h_1 hv =>
        rw [readByteString_byteString hp.2 (by decide)] at hv
        cases hv
      case h_2 hv =>
        rw [readByteString_byteString hp.2 (by decide)] at hv
        cases hv
        rw [hrest]

variable {entries : List Entry}

theorem readEntries_marshalCBOR (h : ∀ t ∈ entries, t.Fits) :
    readEntries env (entries.flatMap Entry.marshalCBOR) = (entries, .ok true) := by
  induction entries with
  | nil =>
    rw [flatMap_nil, readEntries]
    rfl
  | cons t entries ih =>
    have hne : t.marshalCBOR ++ entries.flatMap Entry.marshalCBOR ≠ [] := by
      simp [Entry.marshalCBOR]
    rw [flatMap_cons, readEntries, if_neg hne]
    have hent := unmarshalCBOR_marshalCBOR (h t mem_cons_self) (entries.flatMap Entry.marshalCBOR)
    split
    case h_1 herr =>
      rw [hent] at herr
      cases herr
    case h_2 hok =>
      rw [hent] at hok
      cases hok
      rw [ih fun q hq => h q (mem_cons_of_mem _ hq)]

variable {results : List (κ × Bytes)}

section
variable (hresults : ∀ r ∈ results, (env.string r.1).length ≤ maxLength ∧ r.2.length ≤ maxLength)
  (hentries : ∀ t ∈ entries, t.Fits)
include hresults hentries

theorem readBackup_backup : readBackup env (backup env results ++ entries.flatMap Entry.marshalCBOR) =
      (results.map (fun r => (r.1, r.2, false)) ++ entries.map (fun t => (env.newKey t.key, t.value, true)), .ok true) := by
  set pairs := results.map fun r => (env.string r.1, r.2) with hpa
  have hsz : ∀ p ∈ pairs, p.1.length ≤ maxLength ∧ p.2.length ≤ maxLength := by
    intro p hp
    obtain ⟨r, hr, rfl⟩ := mem_map.mp hp
    exact hresults r hr
  set rest := byteString (env.sha256 (writeKVs pairs)) ++ entries.flatMap Entry.marshalCBOR with hrest
  have hre : readPairs (pairs.flatMap writePair ++ [0xff] ++ rest) = (pairs, .ok rest) := readPairs_writePair hsz rest
  -- the hash is that of the part before the checksum
  have hta : (writeKVs pairs ++ rest).take ((writeKVs pairs ++ rest).length - rest.length) = writeKVs pairs := by
    rw [length_append, Nat.add_sub_cancel, take_left]
  have hsu : readByteString 32 rest = .ok (env.sha256 (writeKVs pairs), entries.flatMap Entry.marshalCBOR) :=
    readByteString_byteString (env.sha256_length _).le (by decide) _
  have hb : backup env results ++ entries.flatMap Entry.marshalCBOR = 0x82 :: (writeKVs pairs ++ rest) := by
    simp only [backup, ← hpa, hrest, append_assoc, head_small (show 2 < 24 by omega)]
    rfl
  have hk : writeKVs pairs ++ rest = 0x9f :: (pairs.flatMap writePair ++ [0xff] ++ rest) := by
    simp only [writeKVs, append_assoc, cons_append, nil_append]
  rw [hk] at hta
  rw [hb, hk]
  simp only [readBackup, ne_eq, not_true_eq_false, if_false, hre, hta, hsu, readEntries_marshalCBOR env hentries]
  simp only [hpa, map_map, Function.comp_def, env.newKey_string]

theorem restoreInto_backup [DecidableEq κ] : restoreInto env (backup env results ++ entries.flatMap Entry.marshalCBOR) =
      .ok (putAll (results ++ entries.map fun t => (env.newKey t.key, t.value)) ∅) := by
  simp only [restoreInto, readBackup_backup env hresults hentries, map_append, map_map, Function.comp_def, map_id']
end

/-! ## Puts -/

section
omit [Heads]
variable [DecidableEq κ]

theorem putAll_append (ps qs : List (κ × Bytes)) (m : GoMap κ Bytes) : putAll (ps ++ qs) m = putAll qs (putAll ps m) :=
  foldl_append

theorem lookup_putAll_of_not_mem {ps : List (κ × Bytes)} {key : κ} (h : ∀ p ∈ ps, p.1 ≠ key) (m : GoMap κ Bytes) :
    (putAll ps m).lookup key = m.lookup key := by
  induction ps generalizing m with
  | nil => rfl
  | cons p ps ih =>
    have hrest := ih (fun q hq => h q (mem_cons_of_mem _ hq)) (m.insert p.1 p.2)
    rw [AList.lookup_insert_ne (h p mem_cons_self).symm] at hrest
    exact hrest

theorem lookup_putAll_perm {ps : List (κ × Bytes)} {m : GoMap κ Bytes}
    (h : (ps.map fun p => (⟨p.1, p.2⟩ : Sigma fun _ : κ => Bytes)).Perm m.entries) (key : κ) :
    (putAll ps ∅).lookup key = m.lookup key := by
  have hn : (ps.map Prod.fst).Nodup := by
    have hk := (h.map Sigma.fst).nodup_iff.mpr m.nodupKeys
    rwa [map_map] at hk
  rcases hlk : m.lookup key with _ | value
  · rw [lookup_putAll_of_not_mem (fun p hp heq => ?_)]
    · rfl
    have hmem : (⟨p.1, p.2⟩ : Sigma fun _ : κ => Bytes) ∈ m.entries :=
      h.mem_iff.mp (mem_map_of_mem hp)
    have hso := AList.mem_lookup_iff.mpr hmem
    rw [heq, hlk] at hso
    cases hso
  have hmem : (⟨key, value⟩ : Sigma fun _ : κ => Bytes) ∈ m.entries := AList.mem_lookup_iff.mp hlk
  obtain ⟨p, hp, heq⟩ := mem_map.mp (h.mem_iff.mpr hmem)
  obtain ⟨pre, post, rfl⟩ := append_of_mem hp
  cases heq
  -- the key is not put again
  have hpo : ∀ q ∈ post, q.1 ≠ p.1 := by
    intro q hq heq
    rw [map_append, map_cons] at hn
    have hco := (nodup_append.mp hn).2.1
    exact (nodup_cons.mp hco).1 (heq ▸ mem_map_of_mem hq)
  rw [putAll_append]
  show (putAll post ((putAll pre ∅).insert p.1 p.2)).lookup p.1 = _
  rw [lookup_putAll_of_not_mem hpo, AList.lookup_insert]
end
end Lotus.Backup

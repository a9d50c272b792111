/-
# The pending messages of a sender (`msgSet`, `chain/messagepool/messagepool.go`).

The set keeps the funds that its messages require, and the first nonce that no message has. A message put back after a reorg
and then pruned leaves `nextNonce` behind the chain.
-/
import Lotus.Lib.Lts
import Lotus.Mpool.Candidates
import Mathlib.Algebra.Order.BigOperators.Group.List

namespace Lotus.Mpool
open Lib.Lts List AList

inductive AddError where
  | nonceGap | rbfTooLowPremium | softValidationFailure | tooManyPendingMessages
  deriving DecidableEq

structure Pending where
  set : MsgSet
  nextNonce : UInt64
  requiredFunds : Int

def newMsgSet (nonce : UInt64) : Pending := ⟨.empty, nonce, 0⟩

/-- `rbfNumBig` is `(1.25 - 1) * 256`. -/
def computeMinRBF (curPrem : Int) : Int := curPrem + curPrem * 64 / 256 + 1

/-- The loops that advance `nextNonce` over pending messages. None is met twice, so their number bounds the rounds. -/
def fillGap : Nat → GoMap UInt64 SignedMessage → UInt64 → UInt64
  | 0, _, n => n
  | rounds + 1, msgs, n => if n ∈ msgs then fillGap rounds (msgs.erase n) (n + 1) else n

namespace Pending

section
variable (ms : Pending) (m : SignedMessage) (strict : Bool) (maxPending : Nat) (nextNonce : UInt64)

def fill (n : UInt64) : UInt64 := fillGap ms.set.msgs.keys.length ms.set.msgs n

/-- The end of `add`, after the decision about the message with the same nonce. -/
def put (has : Bool) : Pending × Except AddError Bool :=
  if !has && strict && decide (ms.set.msgs.keys.length ≥ maxPending) then (ms, .error .tooManyPendingMessages)
  else (⟨ms.set.add m, nextNonce, ms.requiredFunds + Mpool.requiredFunds m⟩, .ok !has)

/-- `add` after the `switch`. -/
def addAt (nonceGap : Bool) : Pending × Except AddError Bool :=
  match ms.set.msgs.lookup m.message.nonce with
  | none => ms.put m strict maxPending nextNonce false
  | some exms =>
    if strict && nonceGap then (ms, .error .nonceGap)
    else if m.cid = exms.cid then (ms, .error .softValidationFailure)
    else if m.message.gasPremium < computeMinRBF exms.message.gasPremium then (ms, .error .rbfTooLowPremium)
    else { ms with requiredFunds := ms.requiredFunds - Mpool.requiredFunds exms }.put m strict maxPending nextNonce true

/-- `msgSet.add`, with `MaxNonceGap` and the two limits on pending messages. -/
def add (strict untrusted : Bool) : Pending × Except AddError Bool :=
  let maxNonceGap : UInt64 := if untrusted then 0 else 4
  let maxPending := if untrusted then 10 else 1000
  if m.message.nonce = ms.nextNonce then ms.addAt m strict maxPending (ms.fill (ms.nextNonce + 1)) false
  else if strict && decide (m.message.nonce > ms.nextNonce + maxNonceGap) then (ms, .error .nonceGap)
  else ms.addAt m strict maxPending ms.nextNonce (decide (m.message.nonce > ms.nextNonce))

def rm (nonce : UInt64) (applied : Bool) : Pending :=
  match ms.set.msgs.lookup nonce with
  | none => if applied && decide (nonce ≥ ms.nextNonce) then { ms with nextNonce := ms.fill (nonce + 1) } else ms
  | some m =>
    let ms := { ms with requiredFunds := ms.requiredFunds - Mpool.requiredFunds m, set := ms.set.delete nonce }
    if applied then if nonce ≥ ms.nextNonce then { ms with nextNonce := nonce + 1 } else ms
    else if nonce < ms.nextNonce then { ms with nextNonce := nonce } else ms
end

inductive Call where
  | add (m : SignedMessage) (strict untrusted : Bool)
  | rm (nonce : UInt64) (applied : Bool)

def exec (ms : Pending) : Call → Pending
  | .add m strict untrusted => (ms.add m strict untrusted).1
  | .rm nonce applied => ms.rm nonce applied

end Pending

/-! ## The funds -/

def MsgSet.total (w : SignedMessage → Int) (s : MsgSet) : Int := (s.toList.map w).sum

theorem MsgSet.entries_delete (s : MsgSet) (n : UInt64) : (s.delete n).msgs.entries = kerase n s.msgs.entries := rfl

theorem MsgSet.total_add (w : SignedMessage → Int) (s : MsgSet) (m : SignedMessage) :
    (s.add m).total w = w m + (s.delete m.message.nonce).total w := by
  simp [total, entries_delete, toList, add, AList.insert, kinsert_def]

theorem MsgSet.total_delete (w : SignedMessage → Int) (s : MsgSet) (n : UInt64) :
    (s.delete n).total w = s.total w - ((s.msgs.lookup n).map w).getD 0 := by
  have hsum := s.msgs.sum_kerase n w
  unfold total toList
  rw [entries_delete, map_map, map_map]
  rcases hlo : s.msgs.lookup n <;> rw [hlo] at hsum <;> exact hsum

namespace Pending
variable {ms : Pending} {m : SignedMessage} {strict untrusted : Bool}
variable (ms m) in
/-- How `add` ends: with an error and nothing changed, or with the message in place of the one it replaces. -/
def Added (next : UInt64) (res : Pending × Except AddError Bool) : Prop :=
  (∃ e, res = (ms, .error e)) ∨
    res = (⟨ms.set.add m, next,
        ms.requiredFunds - ((ms.set.msgs.lookup m.message.nonce).map Mpool.requiredFunds).getD 0 + Mpool.requiredFunds m⟩,
      .ok (ms.set.msgs.lookup m.message.nonce).isNone) ∧
    ∀ exms, ms.set.msgs.lookup m.message.nonce = some exms → computeMinRBF exms.message.gasPremium ≤ m.message.gasPremium

theorem addAt_added {maxPending : Nat} {next : UInt64} {gap : Bool} :
    Added ms m next (ms.addAt m strict maxPending next gap) := by
  unfold addAt Added
  rcases hlo : ms.set.msgs.lookup m.message.nonce with _ | exms
  · unfold put
    dsimp only
    split
    · exact .inl ⟨_, rfl⟩
    · exact .inr ⟨by simp, by rintro _ ⟨⟩⟩
  dsimp only
  split_ifs with hg hc hp
  · exact .inl ⟨_, rfl⟩
  · exact .inl ⟨_, rfl⟩
  · exact .inl ⟨_, rfl⟩
  · refine .inr ⟨rfl, ?_⟩
    rintro _ ⟨⟩
    exact not_lt.mp hp

theorem add_added (ms : Pending) (m : SignedMessage) (strict untrusted : Bool) :
    Added ms m (if m.message.nonce = ms.nextNonce then ms.fill (ms.nextNonce + 1) else ms.nextNonce)
      (ms.add m strict untrusted) := by
  unfold add
  generalize (if untrusted then 0 else 4 : UInt64) = maxNonceGap
  dsimp only
  split
  · exact addAt_added
  split
  · exact .inl ⟨_, rfl⟩
  · exact addAt_added

theorem exec_funds (h : ms.requiredFunds = ms.set.total Mpool.requiredFunds) (c : Call) :
    (ms.exec c).requiredFunds = (ms.exec c).set.total Mpool.requiredFunds := by
  cases c with
  | add m strict untrusted =>
    simp only [exec]
    rcases add_added ms m strict untrusted with ⟨e, he⟩ | ⟨hok, -⟩
    · rw [he]
      exact h
    · rw [hok, MsgSet.total_add, MsgSet.total_delete, ← h]
      dsimp only
      omega
  | rm nonce applied =>
    have hdel := MsgSet.total_delete Mpool.requiredFunds ms.set nonce
    simp only [exec, rm]
    rcases hlo : ms.set.msgs.lookup nonce with _ | m
    · dsimp only
      split <;> exact h
    rw [hlo, ← h] at hdel
    dsimp only
    split_ifs <;> exact hdel.symm

/-- **The accounting of the pool is exact**, along every sequence of calls. -/
theorem msgSet_accounts (nonce : UInt64) (calls : List Call) :
    let ms := calls.foldl exec (newMsgSet nonce)
    ms.requiredFunds = ms.set.total Mpool.requiredFunds ∧
      ((∀ m ∈ ms.set.toList, 0 ≤ Mpool.requiredFunds m) → 0 ≤ ms.requiredFunds) ∧
      ∀ m strict untrusted ms' res, ms.add m strict untrusted = (ms', res) →
        ((∃ e, res = .error e) → ms' = ms) ∧ (res = .ok true ↔ ms.set.toList.length < ms'.set.toList.length) ∧
        (res = .ok false → ∃ exms, ms.set.msgs.lookup m.message.nonce = some exms ∧
          computeMinRBF exms.message.gasPremium ≤ m.message.gasPremium) := by
  intro ms
  have hfu : ms.requiredFunds = ms.set.total Mpool.requiredFunds :=
    foldlRecOn (motive := fun ms => ms.requiredFunds = ms.set.total Mpool.requiredFunds) calls exec rfl
      fun _ h c _ => exec_funds h c
  refine ⟨hfu, fun hpos => ?_, fun m strict untrusted ms' res hadd => ?_⟩
  · rw [hfu]
    refine sum_nonneg fun x hx => ?_
    obtain ⟨m, hm, rfl⟩ := mem_map.mp hx
    exact hpos m hm
  rcases add_added ms m strict untrusted with ⟨e, he⟩ | ⟨hok, hrbf⟩
  · rw [he] at hadd
    cases hadd
    exact ⟨fun _ => rfl, by simp, by simp⟩
  rw [hok] at hadd
  cases hadd
  have hlen : ∀ s : MsgSet, s.total (fun _ => 1) = s.toList.length := fun s => by simp [MsgSet.total]
  have hsum := MsgSet.total_add (fun _ => 1) ms.set m
  rw [MsgSet.total_delete, hlen, hlen] at hsum
  refine ⟨by simp, ?_, ?_⟩
  · cases hlo : ms.set.msgs.lookup m.message.nonce with
    | none | some exms =>
      rw [hlo] at hsum
      simp at hsum ⊢
      omega
  · cases hlo : ms.set.msgs.lookup m.message.nonce with
    | none => simp
    | some exms => exact fun _ => ⟨exms, rfl, hrbf exms hlo⟩

def bare (nonce : UInt64) (gasFeeCap : Int) : SignedMessage :=
  ⟨⟨[]⟩, ⟨⟨[]⟩, .id 0, nonce, 0, 1, gasFeeCap, 0, 0, .id 0, 0, []⟩, .bls⟩

theorem funds_below_zero : ((newMsgSet 0).exec (.add (bare 0 (-1)) true true)).requiredFunds = -1 := by decide

/-- The nonce has the message, or one with the premium that replacing it takes. -/
def Held (n : UInt64) (m : SignedMessage) (ms : Pending) : Prop :=
  ∃ m', ms.set.msgs.lookup n = some m' ∧ (m' = m ∨ computeMinRBF m.message.gasPremium ≤ m'.message.gasPremium)

theorem Held.exec {n : UInt64} {c : Call} (hpos : 0 ≤ m.message.gasPremium) (h : Held n m ms)
    (hc : ∀ applied, .rm n applied ≠ c) : Held n m (ms.exec c) := by
  obtain ⟨m', hm, hbid⟩ := h
  cases c with
  | add m1 strict untrusted =>
    rcases add_added ms m1 strict untrusted with ⟨e, he⟩ | ⟨hok, hrbf⟩
    · exact ⟨m', by rw [Pending.exec, he, hm], hbid⟩
    rw [Pending.exec, hok]
    by_cases hn : n = m1.message.nonce
    · subst hn
      have hle := hrbf m' hm
      refine ⟨m1, lookup_insert _, .inr ?_⟩
      unfold computeMinRBF at *
      rcases hbid with rfl | hbid <;> omega
    · exact ⟨m', (lookup_insert_ne hn).trans hm, hbid⟩
  | rm k applied =>
    have hk : n ≠ k := fun h => hc applied (h ▸ rfl)
    refine ⟨m', ?_, hbid⟩
    simp only [Pending.exec]
    fun_cases Pending.rm <;> first | exact hm | exact (lookup_erase_ne hk).trans hm

/-- **A pending message is only outbid**, whatever the calls, until its nonce is removed. -/
theorem pending_outbid {n : UInt64} {calls : List Call} (hm : ms.set.msgs.lookup n = some m)
    (hpos : 0 ≤ m.message.gasPremium) (hrm : ∀ applied, .rm n applied ∉ calls) : Held n m (calls.foldl exec ms) :=
  foldlRecOn (motive := Held n m) calls _ ⟨m, hm, .inl rfl⟩ fun _ h _ hc => h.exec hpos fun _ he => hrm _ (he ▸ hc)

def bid (cid : Byte) (gasPremium : Int) : SignedMessage :=
  ⟨⟨[cid]⟩, ⟨⟨[cid]⟩, .id 0, 0, 0, 1, 1000, gasPremium, 0, .id 0, 0, []⟩, .bls⟩

/-- A premium of 100 is outbid by 126, then 157 is refused and 158 is taken. -/
theorem pending_outbid_chain :
    let calls : List Call := [.add (bid 1 126) true true, .add (bid 2 157) true false, .add (bid 3 158) false false, .rm 1 true]
    let ms := calls.foldl exec ((newMsgSet 0).exec (.add (bid 0 100) true true))
    ms.set.msgs.lookup 0 = some (bid 3 158) ∧ Held 0 (bid 0 100) ms :=
  ⟨by decide +kernel, pending_outbid rfl (by decide) (by simp)⟩

/-! ## The next nonce -/

/-- What `getNonceLocked` hands out. -/
def getNonce (ms : Pending) (stateNonce : UInt64) : UInt64 := if stateNonce > ms.nextNonce then stateNonce else ms.nextNonce

/-- A call that succeeds, beside the sender's nonce in the state. The chain executes one nonce after the other. -/
def step : Pending × UInt64 → Call → Option (Pending × UInt64)
  | (ms, stateNonce), .add m strict untrusted =>
    match ms.add m strict untrusted with
    | (ms, .ok _) => some (ms, stateNonce)
    | (_, .error _) => none
  | (ms, stateNonce), .rm nonce true => if nonce = stateNonce then some (ms.rm nonce true, nonce + 1) else none
  | (ms, stateNonce), .rm nonce false => some (ms.rm nonce false, stateNonce)

/-- No pending message whose nonce was executed is pruned, and no nonce is the last one. -/
def InTime (s : Pending × UInt64) : Call → Prop
  | .add m _ _ => m.message.nonce < 18446744073709551615
  | .rm _ true => s.2 < 18446744073709551615
  | .rm nonce false => nonce ∈ s.1.set.msgs → s.2 ≤ nonce

instance (s : Pending × UInt64) : DecidablePred (InTime s)
  | .add m _ _ => inferInstanceAs (Decidable (m.message.nonce < _))
  | .rm _ true => inferInstanceAs (Decidable (s.2 < _))
  | .rm nonce false => inferInstanceAs (Decidable (nonce ∈ s.1.set.msgs → s.2 ≤ nonce))

/-- `nextNonce` is the first one after those executed that is free. -/
structure Free (s : Pending × UInt64) : Prop where
  pending : ∀ n ∈ s.1.set.msgs, n < 18446744073709551615
  le : s.2 ≤ s.1.nextNonce
  free : s.1.nextNonce ∉ s.1.set.msgs
  taken : ∀ n, s.2 ≤ n → n < s.1.nextNonce → n ∈ s.1.set.msgs

variable {msgs : GoMap UInt64 SignedMessage} {k e : UInt64}

/-- Where the loops end: at the first nonce from `k` on that is free. -/
theorem fillGap_spec {rounds : Nat} (hlen : msgs.keys.length ≤ rounds) (hp : ∀ n ∈ msgs, n < 18446744073709551615) :
    k ≤ fillGap rounds msgs k ∧ fillGap rounds msgs k ∉ msgs ∧ ∀ n, k ≤ n → n < fillGap rounds msgs k → n ∈ msgs := by
  induction rounds generalizing msgs k with
  | zero =>
    have hk : k ∉ msgs := fun h => ne_nil_of_mem (mem_keys.mp h) (length_eq_zero_iff.mp (Nat.le_zero.mp hlen))
    grind [fillGap]
  | succ rounds ih =>
    by_cases hk : k ∈ msgs
    · have hrest := @ih (msgs.erase k) (k + 1) (by rw [keys_erase, length_erase_of_mem hk]; omega)
        fun n hn => hp n (mem_erase.mp hn).2
      rw [show fillGap (rounds + 1) msgs k = fillGap rounds (msgs.erase k) (k + 1) from if_pos hk]
      simp only [mem_erase] at hrest
      grind
    · rw [show fillGap (rounds + 1) msgs k = k from if_neg hk]
      grind

theorem Free.fill (h : Free (ms, e)) (k : UInt64) :
    k ≤ ms.fill k ∧ ms.fill k ∉ ms.set.msgs ∧ ∀ n, k ≤ n → n < ms.fill k → n ∈ ms.set.msgs :=
  fillGap_spec (Nat.le_refl _) h.pending

theorem Free.add (h : Free (ms, e)) (hin : InTime (ms, e) (.add m strict untrusted)) {ms' : Pending} {grew : Bool}
    (hadd : ms.add m strict untrusted = (ms', .ok grew)) : Free (ms', e) := by
  have hlast : m.message.nonce < 18446744073709551615 := hin
  have hr := h.fill (m.message.nonce + 1)
  obtain ⟨hpe, hle, hfree, htaken⟩ := h
  have hhas : ∀ n, n ∈ (ms.set.add m).msgs ↔ n = m.message.nonce ∨ n ∈ ms.set.msgs := fun n => mem_insert _
  rcases add_added ms m strict untrusted with ⟨err, he⟩ | ⟨hok, -⟩
  · rw [he] at hadd
    cases hadd
  rw [hok] at hadd
  cases hadd
  by_cases heq : m.message.nonce = ms.nextNonce
  · rw [if_pos heq, ← heq]
    constructor <;> grind
  · rw [if_neg heq]
    constructor <;> grind

theorem Free.rm_applied (h : Free (ms, e)) (hlast : e < 18446744073709551615) : Free (ms.rm e true, e + 1) := by
  have hr := h.fill (e + 1)
  have hhas : ∀ n, n ∈ (ms.set.delete e).msgs ↔ n ≠ e ∧ n ∈ ms.set.msgs := fun n => mem_erase
  have hh := @lookup_isSome _ _ _ e ms.set.msgs
  obtain ⟨hpe, hle, hfree, htaken⟩ := h
  unfold Pending.rm
  rcases hlo : ms.set.msgs.lookup e with _ | m
  · have hge : ms.nextNonce ≤ e := by grind
    rw [if_pos (by simpa using hge)]
    constructor <;> grind
  have hlt : ¬ ms.nextNonce ≤ e := by grind
  dsimp only
  rw [if_pos rfl, if_neg hlt]
  constructor <;> grind

theorem Free.rm_pruned (h : Free (ms, e)) (hk : k ∈ ms.set.msgs → e ≤ k) : Free (ms.rm k false, e) := by
  have hhas : ∀ n, n ∈ (ms.set.delete k).msgs ↔ n ≠ k ∧ n ∈ ms.set.msgs := fun n => mem_erase
  have hh := @lookup_isSome _ _ _ k ms.set.msgs
  obtain ⟨hpe, hle, hfree, htaken⟩ := h
  unfold Pending.rm
  rcases hlo : ms.set.msgs.lookup k with _ | m
  · exact ⟨hpe, hle, hfree, htaken⟩
  dsimp only
  rw [if_neg Bool.false_ne_true]
  split <;> constructor <;> grind

theorem Free.step {s s' : Pending × UInt64} {c : Call} (h : Free s) (hin : InTime s c) (hst : step s c = some s') : Free s' := by
  revert h hin hst
  fun_cases Pending.step with
  | case1 ms e m strict untrusted ms' grew hadd =>
    rintro h hin ⟨⟩
    exact h.add hin hadd
  | case3 ms e =>
    rintro h hin ⟨⟩
    exact h.rm_applied hin
  | case5 ms e k =>
    rintro h hin ⟨⟩
    exact h.rm_pruned hin
  | _ => exact nofun

/-- **The suggested nonce is free**, where no executed nonce is pruned: it has no pending message, and every one
below it is executed or pending. -/
theorem nextNonce_free (first : UInt64) (calls : List Call) (hin : Legal step InTime (newMsgSet first, first) calls)
    (ms : Pending) (stateNonce : UInt64) (hrun : run step (newMsgSet first, first) calls = some (ms, stateNonce)) :
    ms.nextNonce ∉ ms.set.msgs ∧ ms.getNonce stateNonce ∉ ms.set.msgs ∧
      ∀ n, n < ms.nextNonce → n < stateNonce ∨ n ∈ ms.set.msgs := by
  have hinit : Free (newMsgSet first, first) := by
    have hno : ∀ n, n ∉ (newMsgSet first).set.msgs := by rintro n ⟨⟩
    constructor <;> grind [newMsgSet]
  obtain ⟨-, hle, hfree, htaken⟩ := run_legal (fun _ _ _ => Free.step) hinit hin hrun
  have hget : ms.getNonce stateNonce = ms.nextNonce := if_neg (UInt64.not_lt.mpr hle)
  exact ⟨hfree, hget ▸ hfree, by grind⟩

/-- Nonce 0 is executed and put back, 4 is pruned above a gap, 1 is executed, and 3 fills the gap. -/
theorem nextNonce_free_reorg :
    let calls : List Call := [.add (bare 0 0) true false, .add (bare 1 0) true false, .add (bare 2 0) true false,
      .add (bare 4 0) true false, .add (bare 5 0) true false, .rm 0 true, .add (bare 0 0) false false, .rm 5 false, .rm 1 true,
      .add (bare 3 0) true false]
    ∃ ms, run step (newMsgSet 0, 0) calls = some (ms, 2) ∧ ms.nextNonce = 5 ∧ 5 ∉ ms.set.msgs := by
  intro calls
  have hin : Legal step InTime (newMsgSet 0, 0) calls :=
    legal_of_checks (fun _ _ => of_decide_eq_true) (by decide +kernel)
  exact ⟨_, rfl, rfl, (nextNonce_free 0 calls hin _ _ rfl).1⟩

/-- The executed nonce 0 is added and pruned again; when 1 is applied, the next nonce is that of the pending 2. -/
theorem nextNonce_pending :
    (run step (newMsgSet 0, 0) [.add (bare 0 0) true false, .add (bare 1 0) true false, .add (bare 2 0) true false, .rm 0 true,
      .add (bare 0 0) false false, .rm 0 false, .rm 1 true]).any (fun s => s.1.nextNonce ∈ s.1.set.msgs) = true := by
  decide +kernel

end Pending
end Lotus.Mpool

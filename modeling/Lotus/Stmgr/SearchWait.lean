/-
# Waiting for a message (`chain/stmgr/searchwait.go`).

`WaitForMessage` reads the head changes, while a second goroutine searches below the first head. A tipset that executed the
message is a candidate until it is reverted, and is returned when the head is `confidence` epochs above it.
-/
import Lotus.Events.Called
import Lotus.Store.Reorg

namespace Lotus

/-- `Message.EqualCall`: all but the gas fields are the same, since a CID determines its message. -/
def Message.equalCall (m o : Message) : Bool :=
  decide (m.version = o.version ∧ m.toAddr = o.toAddr ∧ m.fromAddr = o.fromAddr ∧ m.nonce = o.nonce ∧
    m.value = o.value ∧ m.method = o.method ∧ m.params = o.params)

namespace Stmgr
open Events Lib.Ancestry Lib.Lts Store Option

def lookbackNoLimit : Int := -1

/-- `abi.ChainEpoch(confidence)`. -/
def chainEpoch (n : UInt64) : Int := (n.toNat : Int).bmod (2 ^ 64)

/-- What `StateManager` and its chain store provide. Of an actor only the nonce is read. -/
structure StateManager (ρ : Type) where
  getCMessage : Cid → Except GoError ChainMsg
  loadTipSet : TipSetKey → Except GoError TipSet
  messagesForTipset : TipSet → Except GoError (List ChainMsg)
  getParentReceipt : BlockHeader → Nat → Except GoError ρ
  loadActor : Address → TipSet → Except GoError UInt64
  lookupID : Address → TipSet → Except GoError Address

structure Query where
  mcid : Cid
  confidence : UInt64
  lookbackLimit : Int
  allowReplaced : Bool

structure Found (ρ : Type) where
  ts : TipSet
  rcp : ρ
  fm : Cid
  deriving DecidableEq

inductive HeadChange where
  | revert (val : TipSet)
  | apply (val : TipSet)
  | current (val : TipSet)
  deriving DecidableEq

def HeadChange.type : HeadChange → String
  | .revert _ => "revert"
  | .apply _ => "apply"
  | .current _ => "current"

/-! ## The code -/

section
variable {ρ : Type} (sm : StateManager ρ)

/-- The loop of `tipsetExecutedMessage`, over the first `i` messages, the last first. -/
def scanMessages (ts : TipSet) (msg : Cid) (vmm : Message) (allowReplaced : Bool) (cm : List ChainMsg) :
    Nat → Except GoError (Option (ρ × Cid))
  | 0 => .ok none
  | i + 1 =>
    match cm[i]? with
    | none => .ok none
    | some m =>
      if m.vmMessage.fromAddr = vmm.fromAddr then
        if m.vmMessage.nonce = vmm.nonce then
          if m.vmMessage.equalCall vmm = false then
            .error (.errorf ("found message with equal nonce as the one we are looking for that is NOT a valid " ++
              "replacement message (n " ++ toString vmm.nonce ++ ", TS: n" ++ toString m.vmMessage.nonce ++ ")"))
          else if m.cid ≠ msg ∧ allowReplaced = false then
            .error (.errorf ("found message with equal nonce as the one we are looking for (n " ++
              toString vmm.nonce ++ ", TS: n" ++ toString m.vmMessage.nonce ++ ")"))
          else
            match sm.getParentReceipt ts.first i with
            | .error e => .error e
            | .ok pr => .ok (some (pr, m.cid))
        else if m.vmMessage.nonce < vmm.nonce then .ok none
        else scanMessages ts msg vmm allowReplaced cm i
      else scanMessages ts msg vmm allowReplaced cm i

def tipsetExecutedMessage (ts : TipSet) (msg : Cid) (vmm : Message) (allowReplaced : Bool) :
    Except GoError (Option (ρ × Cid)) :=
  if ts.height = 0 then .ok none
  else
    match sm.loadTipSet ts.parents with
    | .error e => .error e
    | .ok pts =>
      match sm.messagesForTipset pts with
      | .error e => .error e
      | .ok cm => scanMessages sm ts msg vmm allowReplaced cm cm.length

/-- `LoadActor` in the loop of `searchBackForMsg`: no actor is no error. -/
def actorAt (addr : Address) (ts : TipSet) : Except GoError (Option UInt64) :=
  match sm.loadActor addr ts with
  | .ok nonce => .ok (some nonce)
  | .error e => if e.isActorNotFound then .ok none else .error (.wrap "failed to load the actor" e)

/-- The nonce of the message came into range between the parent and the tipset. -/
def inRange (curNonce mNonce : UInt64) : Option UInt64 → Bool
  | none => true
  | some act => decide (curNonce > mNonce ∧ act ≤ mNonce)

/-- The loop of `searchBackForMsg`. `curActor` is the nonce of the sender at `cur`, if there is one. -/
def searchBackLoop (m : ChainMsg) (mFromId : Address) (limitHeight : Int) (noLimit allowReplaced : Bool) :
    Nat → TipSet → Option UInt64 → Option (Except GoError (Option (Found ρ)))
  | 0, _, _ => none
  | fuel + 1, cur, curActor =>
    if cur.height = 0 ∨ noLimit = false ∧ cur.height ≤ limitHeight then some (.ok none)
    else
      match curActor with
      | none => some (.ok none)
      | some curNonce =>
        if curNonce = 0 ∨ curNonce < m.vmMessage.nonce then some (.ok none)
        else
          match sm.loadTipSet cur.parents with
          | .error e => some (.error (.wrap "failed to load tipset during msg wait searchback" e))
          | .ok pts =>
            match actorAt sm mFromId pts with
            | .error e => some (.error e)
            | .ok act =>
              if inRange curNonce m.vmMessage.nonce act then
                match tipsetExecutedMessage sm cur m.cid m.vmMessage allowReplaced with
                | .error e => some (.error (.wrap "checking for message execution during lookback" e))
                | .ok (some (r, foundMsg)) => some (.ok (some ⟨cur, r, foundMsg⟩))
                | .ok none => searchBackLoop m mFromId limitHeight noLimit allowReplaced fuel pts act
              else searchBackLoop m mFromId limitHeight noLimit allowReplaced fuel pts act

def searchBackForMsg (fuel : Nat) (fromTs : TipSet) (m : ChainMsg) (limit : Int) (allowReplaced : Bool) :
    Option (Except GoError (Option (Found ρ))) :=
  match sm.loadActor m.vmMessage.fromAddr fromTs with
  | .error _ => some (.error (.errorf "failed to load initital tipset"))
  | .ok curActor =>
    match sm.lookupID m.vmMessage.fromAddr fromTs with
    | .error e => some (.error (.wrap "looking up From id address" e))
    | .ok mFromId =>
      searchBackLoop sm m mFromId (addEpoch fromTs.height (-limit)) (decide (limit = lookbackNoLimit)) allowReplaced
        fuel fromTs (some curActor)

/-- The variables of `WaitForMessage` after the first notification; `back` starts the search. -/
structure Wait (ρ : Type) where
  msg : ChainMsg
  back : TipSet
  candidate : Option (Found ρ)
  heightOfHead : Int
  searching : Bool
  reverts : List TipSetKey

/-- `WaitForMessage` between two notifications, or returned, perhaps with nil and no error. -/
inductive Waiter (ρ : Type) where
  | waiting (w : Wait ρ)
  | returned (r : Except GoError (Option (Found ρ)))

variable (q : Query)

/-- `ts.Height()+abi.ChainEpoch(confidence)`. -/
def confident (ts : TipSet) : Int := addEpoch ts.height (chainEpoch q.confidence)

def onChange (w : Wait ρ) : HeadChange → Waiter ρ
  | .revert val =>
    .waiting { w with
      candidate := if val.equalsOpt (w.candidate.map (·.ts)) then none else w.candidate
      reverts := if w.searching then val.key :: w.reverts else w.reverts }
  | .apply val =>
    match w.candidate.filter fun c => decide (val.height ≥ confident q c.ts) with
    | some c => .returned (.ok (some c))
    | none =>
      match tipsetExecutedMessage sm val q.mcid w.msg.vmMessage q.allowReplaced with
      | .error e => .returned (.error e)
      | .ok (some (r, foundMsg)) =>
        if q.confidence = 0 then .returned (.ok (some ⟨val, r, foundMsg⟩))
        else .waiting { w with candidate := some ⟨val, r, foundMsg⟩, heightOfHead := val.height }
      | .ok none => .waiting { w with heightOfHead := val.height }
  | .current _ => .waiting w

/-- `case <-backSearchWait`. -/
def onSearch (w : Wait ρ) (back : Option (Found ρ)) : Waiter ρ :=
  match back.filter fun b => decide (b.ts.key ∉ w.reverts) with
  | some b =>
    if w.heightOfHead ≥ confident q b.ts then .returned (.ok (some b))
    else .waiting { w with candidate := some b, searching := false, reverts := [] }
  | none => .waiting { w with searching := false, reverts := [] }

/-- `WaitForMessage` behind the first head. -/
def waitFrom (msg : ChainMsg) (head : TipSet) : Waiter ρ :=
  match tipsetExecutedMessage sm head q.mcid msg.vmMessage q.allowReplaced with
  | .error e => .returned (.error e)
  | .ok (some (r, foundMsg)) => .returned (.ok (some ⟨head, r, foundMsg⟩))
  | .ok none => .waiting ⟨msg, head, none, head.height, true, []⟩

/-- `WaitForMessage` up to the loop, with the first entry of the subscription. -/
def waitForMessage (first : Option (List HeadChange)) : Waiter ρ :=
  match sm.getCMessage q.mcid with
  | .error e => .returned (.error (.wrap "failed to load message" e))
  | .ok msg =>
    match first with
    | none => .returned (.error (.errorf "SubHeadChanges stream was invalid"))
    | some [.current head] => waitFrom sm q msg head
    | some [c] => .returned (.error (.errorf ("expected current head on SHC stream (got " ++ c.type ++ ")")))
    | some _ => .returned (.error (.errorf "SubHeadChanges first entry should have been one item"))

/-! ## Runs -/

variable (T : TipSetTree)

def headAfter : HeadChange → TipSet
  | .revert val => (T.parent val).getD val
  | .apply val => val
  | .current val => val

/-- `WaitForMessage` beside the head that the changes it has read lead to. -/
structure State (ρ : Type) where
  waiter : Waiter ρ
  head : TipSet

def onNotif : List HeadChange → Wait ρ → TipSet → State ρ
  | [], w, head => ⟨.waiting w, head⟩
  | c :: cs, w, _ =>
    match onChange sm q w c with
    | .waiting w => onNotif cs w (headAfter T c)
    | .returned r => ⟨.returned r, headAfter T c⟩

/-- A notification, the end of the search, of the subscription, where the context may have no error yet, or of the context. -/
inductive Label where
  | notif (changes : List HeadChange)
  | search (fuel : Nat)
  | cutSearch
  | closed (ctxErr : Option GoError)
  | done (ctxErr : GoError)

/-- One round of the loop. A search that failed does not end. -/
def step (s : State ρ) (l : Label) : Option (State ρ) :=
  match s.waiter, l with
  | .returned _, _ => none
  | .waiting w, .notif changes => some (onNotif sm q T changes w s.head)
  | .waiting w, .search fuel =>
    match w.searching, searchBackForMsg sm fuel w.back w.msg q.lookbackLimit q.allowReplaced with
    | true, some (.ok back) => some ⟨onSearch q w back, s.head⟩
    | _, _ => none
  | .waiting w, .cutSearch => if w.searching then some ⟨onSearch q w none, s.head⟩ else none
  | .waiting _, .closed none => some ⟨.returned (.ok none), s.head⟩
  | .waiting _, .closed (some err) | .waiting _, .done err => some ⟨.returned (.error err), s.head⟩
end

def Along (T : TipSetTree) : TipSet → List HeadChange → Prop
  | _, [] => True
  | head, .revert val :: cs => val = head ∧ ∃ p, T.parent val = some p ∧ Along T p cs
  | head, .apply val :: cs => T.mem val ∧ T.parent val = some head ∧ Along T val cs
  | _, .current _ :: _ => False

def Path {ρ : Type} (T : TipSetTree) (s : State ρ) : Label → Prop
  | .notif changes => Along T s.head changes
  | _ => True

/-! ## What is found -/

variable {ρ : Type} {sm : StateManager ρ} {T : TipSetTree} {q : Query}
variable (sm T q) in
/-- **The tipset executed the message**, or an allowed replacement: the parent has it, with its receipt. -/
structure Executed (msg : ChainMsg) (f : Found ρ) : Prop where
  ran : ∃ p cm i m, T.parent f.ts = some p ∧ sm.messagesForTipset p = .ok cm ∧ cm[i]? = some m ∧
    m.vmMessage.equalCall msg.vmMessage = true ∧ (m.cid = q.mcid ∨ q.allowReplaced = true) ∧
    sm.getParentReceipt f.ts.first i = .ok f.rcp ∧ f.fm = m.cid

variable {ts : TipSet} {r : ρ} {fm : Cid}

theorem scanMessages_found {msg : Cid} {vmm : Message} {allowReplaced : Bool} {cm : List ChainMsg} {n : Nat}
    (h : scanMessages sm ts msg vmm allowReplaced cm n = .ok (some (r, fm))) :
    ∃ i m, cm[i]? = some m ∧ m.vmMessage.equalCall vmm = true ∧ (m.cid = msg ∨ allowReplaced = true) ∧
      sm.getParentReceipt ts.first i = .ok r ∧ fm = m.cid := by
  fun_induction scanMessages with
  | case6 i m hm _ _ hca hci pr hr =>
    -- the message itself, or one with the same call
    cases h
    refine ⟨i, m, hm, by simpa using hca, ?_, hr, rfl⟩
    by_cases heq : m.cid = msg
    · exact .inl heq
    · exact .inr (by simpa [heq] using hci)
  | case8 _ _ _ _ _ _ ih | case9 _ _ _ _ ih => exact ih h
  | _ => cases h

variable {msg : ChainMsg}

theorem executed_of_ok (hloa : LoadsParents sm.loadTipSet T) (hts : T.mem ts)
    (h : tipsetExecutedMessage sm ts q.mcid msg.vmMessage q.allowReplaced = .ok (some (r, fm))) :
    Executed sm T q msg ⟨ts, r, fm⟩ := by
  revert h
  fun_cases tipsetExecutedMessage with
  | case4 _ p hlo cm hcm =>
    intro h
    obtain ⟨i, m, hm, hca, hci, hr, hfm⟩ := scanMessages_found h
    exact ⟨p, cm, i, m, hloa ts p hts hlo, hcm, hm, hca, hci, hr, hfm⟩
  | _ => exact nofun

variable {f : Found ρ} {fuel : Nat}

theorem searchBackLoop_found (hloa : LoadsParents sm.loadTipSet T) (hmsg : msg.cid = q.mcid) {mFromId : Address}
    {limitHeight : Int} {noLimit : Bool} {cur : TipSet} (hcu : T.mem cur) {curActor : Option UInt64}
    (h : searchBackLoop sm msg mFromId limitHeight noLimit q.allowReplaced fuel cur curActor = some (.ok (some f))) :
    AncOrSelf T.parent f.ts cur ∧ Executed sm T q msg f := by
  fun_induction searchBackLoop with
  | case8 _ cur _ _ _ pts hlo _ _ _ r fm hrun =>
    cases h
    exact ⟨.refl cur, executed_of_ok hloa hcu (hmsg ▸ hrun)⟩
  | case9 _ cur _ _ _ pts hlo _ _ _ _ ih | case10 _ cur _ _ _ pts hlo _ _ _ ih =>
    have hpa := hloa cur pts hcu hlo
    exact (ih (T.parent_mem cur pts hpa) h).imp_left fun hanc => hanc.trans (.of_parent hpa)
  | _ => cases h

theorem searchBackForMsg_found (hlo : LoadsParents sm.loadTipSet T) (hmsg : msg.cid = q.mcid) {src : TipSet}
    (hsr : T.mem src) (h : searchBackForMsg sm fuel src msg q.lookbackLimit q.allowReplaced = some (.ok (some f))) :
    AncOrSelf T.parent f.ts src ∧ Executed sm T q msg f := by
  revert h
  fun_cases searchBackForMsg with
  | case3 => exact searchBackLoop_found hlo hmsg hsr
  | _ => exact nofun

/-! ## The invariant -/

variable (sm T) in
/-- What the chain store reads is in the tree, and a message is loaded under its CID. -/
structure StateManager.Reads : Prop where
  parents : LoadsParents sm.loadTipSet T
  cids : ∀ c m, sm.getCMessage c = .ok m → m.cid = c

/-- Heights are not negative, and no height of the tree plus the confidence overflows. -/
structure Fits (T : TipSetTree) (q : Query) : Prop where
  nonneg : ∀ ts, T.mem ts → 0 ≤ ts.height
  small : ∀ ts, T.mem ts → ts.height + q.confidence.toNat < 2 ^ 63

variable (sm T q) in
/-- **What the loop keeps.**  The candidate executed the message and is on the chain of the head; what the search can find is
too, unless it was reverted. -/
structure Kept (w : Wait ρ) (head : TipSet) : Prop where
  mem : T.mem head
  back : T.mem w.back
  msg : sm.getCMessage q.mcid = .ok w.msg
  candidate : ∀ c, w.candidate = some c → Executed sm T q w.msg c ∧ AncOrSelf T.parent c.ts head
  unreverted : w.searching = true → ∀ y, AncOrSelf T.parent y w.back → y.key ∉ w.reverts → AncOrSelf T.parent y head

variable (sm T q f) in
structure Confirmed (head : TipSet) : Prop where
  executed : ∃ msg, sm.getCMessage q.mcid = .ok msg ∧ Executed sm T q msg f
  onChain : AncOrSelf T.parent f.ts head
  high : f.ts.height + q.confidence.toNat ≤ head.height

variable (sm T q) in
structure Good (s : State ρ) : Prop where
  waiting : ∀ w, s.waiter = .waiting w → Kept sm T q w s.head
  returned : ∀ f, s.waiter = .returned (.ok (some f)) → Confirmed sm T q f s.head

variable {w : Wait ρ} {head : TipSet}

theorem Kept.good (h : Kept sm T q w head) : Good sm T q ⟨.waiting w, head⟩ := by
  refine ⟨fun w' hw => ?_, fun f hf => by cases hf⟩
  cases hw
  exact h

theorem Confirmed.good (h : Confirmed sm T q f head) : Good sm T q ⟨.returned (.ok (some f)), head⟩ := by
  refine ⟨fun w' hw => (by cases hw), fun f' hf => ?_⟩
  cases hf
  exact h

theorem good_error (e : GoError) (head : TipSet) : Good sm T q ⟨.returned (.error e), head⟩ :=
  ⟨fun _ hw => (by cases hw), fun _ hf => (by cases hf)⟩

theorem Fits.confident (h : Fits T q) (hts : T.mem ts) : confident q ts = ts.height + q.confidence.toNat := by
  have hlo := h.nonneg ts hts
  have hh := h.small ts hts
  unfold Stmgr.confident addEpoch chainEpoch
  rw [Int.add_bmod_bmod]
  exact Int.bmod_eq_of_le (by omega) (by omega)

section
variable (h : Kept sm T q w head)
include h

theorem Kept.revert {p : TipSet} (hp : T.parent head = some p) :
    Good sm T q ⟨onChange sm q w (.revert head), p⟩ := by
  have hst : ∀ y, AncOrSelf T.parent y head → y ≠ head → AncOrSelf T.parent y p := by
    intro y hy hne
    rcases hy.eq_or_parent with rfl | ⟨p', hp', hy⟩
    · exact absurd rfl hne
    · obtain rfl : p = p' := some.inj (hp.symm.trans hp')
      exact hy
  apply Kept.good
  refine ⟨T.parent_mem head p hp, h.back, h.msg, ?_, ?_⟩
  · intro c hc
    dsimp only at hc ⊢
    split_ifs at hc with heq
    obtain ⟨hexec, hanc⟩ := h.candidate c hc
    refine ⟨hexec, hst c.ts hanc ?_⟩
    intro hse
    rw [hc, map_some, hse] at heq
    exact heq head.equals_self
  intro hsr y hy hn
  rw [if_pos hsr] at hn
  refine hst y (h.unreverted hsr y hy fun hmem => hn (List.mem_cons_of_mem _ hmem)) ?_
  rintro rfl
  exact hn List.mem_cons_self

theorem Kept.apply (hrd : sm.Reads T) (hfi : Fits T q) {val : TipSet} (hv : T.mem val)
    (hpa : T.parent val = some head) : Good sm T q ⟨onChange sm q w (.apply val), val⟩ := by
  have hup : ∀ y, AncOrSelf T.parent y head → AncOrSelf T.parent y val := fun y hy => hy.trans (.of_parent hpa)
  rw [onChange]
  cases hfil : w.candidate.filter fun c => decide (val.height ≥ confident q c.ts) with
  | some c =>
    obtain ⟨hc, hh⟩ := filter_eq_some_iff.mp hfil
    obtain ⟨hexec, hanc⟩ := h.candidate c hc
    rw [hfi.confident (T.mem_of_anc h.mem hanc), decide_eq_true_eq] at hh
    exact Confirmed.good ⟨⟨w.msg, h.msg, hexec⟩, hup c.ts hanc, hh⟩
  | none =>
    rcases hrun : tipsetExecutedMessage sm val q.mcid w.msg.vmMessage q.allowReplaced with e | _ | ⟨r, fm⟩
    · exact good_error e val
    · apply Kept.good
      exact ⟨hv, h.back, h.msg, fun c hc => (h.candidate c hc).imp_right (hup c.ts),
        fun hsr y hy hn => hup y (h.unreverted hsr y hy hn)⟩
    have hexec := executed_of_ok hrd.parents hv hrun
    split_ifs with hz
    · refine Confirmed.good ⟨⟨w.msg, h.msg, hexec⟩, .refl val, ?_⟩
      simp [hz]
    apply Kept.good
    refine ⟨hv, h.back, h.msg, fun c hc => ?_, fun hsr y hy hn => hup y (h.unreverted hsr y hy hn)⟩
    obtain rfl : ⟨val, r, fm⟩ = c := by simpa using hc
    exact ⟨hexec, .refl val⟩

theorem Kept.notif (hrd : sm.Reads T) (hfi : Fits T q) {changes : List HeadChange}
    (ha : Along T head changes) : Good sm T q (onNotif sm q T changes w head) := by
  induction changes generalizing w head with
  | nil => exact h.good
  | cons c cs ih =>
    -- each kind of change leads to the next head of the path
    have ho : ∃ next, headAfter T c = next ∧ Along T next cs ∧ Good sm T q ⟨onChange sm q w c, next⟩ := by
      cases c with
      | revert val =>
        obtain ⟨rfl, p, hp, hrest⟩ := ha
        exact ⟨p, by simp [headAfter, hp], hrest, h.revert hp⟩
      | apply val =>
        obtain ⟨hv, hpa, hrest⟩ := ha
        exact ⟨val, rfl, hrest, h.apply hrd hfi hv hpa⟩
      | current val => exact ha.elim
    obtain ⟨next, hn, hrest, hg⟩ := ho
    rw [onNotif, hn]
    cases hrn : onChange sm q w c with
    | waiting w' => exact ih (hg.waiting w' hrn) hrest
    | returned r => rwa [hrn] at hg

theorem Kept.search (hfi : Fits T q) (hheight : w.heightOfHead = head.height)
    (hsr : w.searching = true) {back : Option (Found ρ)}
    (hba : ∀ f, back = some f → AncOrSelf T.parent f.ts w.back ∧ Executed sm T q w.msg f) :
    Good sm T q ⟨onSearch q w back, head⟩ := by
  rw [onSearch]
  cases hfil : back.filter fun b => decide (b.ts.key ∉ w.reverts) with
  | some b =>
    obtain ⟨hb, hn⟩ := filter_eq_some_iff.mp hfil
    obtain ⟨hanc, hexec⟩ := hba b hb
    have ho := h.unreverted hsr b.ts hanc (by simpa using hn)
    dsimp only
    split_ifs with hh
    · rw [hfi.confident (T.mem_of_anc h.mem ho), hheight] at hh
      exact Confirmed.good ⟨⟨w.msg, h.msg, hexec⟩, ho, hh⟩
    apply Kept.good
    refine ⟨h.mem, h.back, h.msg, fun c hc => ?_, fun hsr => by cases hsr⟩
    cases hc
    exact ⟨hexec, ho⟩
  | none => exact Kept.good ⟨h.mem, h.back, h.msg, h.candidate, fun hsr => by cases hsr⟩
end

/-- The search ends while the height last seen is that of the head: the last change was no revert. -/
def Fresh (s : State ρ) : Label → Prop
  | .search _ => ∀ w, s.waiter = .waiting w → w.heightOfHead = s.head.height
  | _ => True

theorem Good.step {s s' : State ρ} (h : Good sm T q s) (hrd : sm.Reads T) (hfi : Fits T q) {l : Label}
    (hpa : Path T s l) (hfr : Fresh s l) (hst : step sm q T s l = some s') : Good sm T q s' := by
  obtain ⟨w | r, head⟩ := s
  · have hk := h.waiting w rfl
    cases l with
    | notif changes =>
      cases hst
      exact hk.notif hrd hfi hpa
    | search fuel =>
      simp only [Stmgr.step] at hst
      split at hst
      · rename_i back hsr hrun
        cases hst
        refine hk.search hfi (hfr w rfl) hsr fun f hf => ?_
        exact searchBackForMsg_found hrd.parents (hrd.cids q.mcid w.msg hk.msg) hk.back (hf ▸ hrun)
      · cases hst
    | cutSearch =>
      obtain ⟨-, heq⟩ := ite_none_right_eq_some.mp hst
      cases heq
      exact Kept.good ⟨hk.mem, hk.back, hk.msg, hk.candidate, fun hsr => by cases hsr⟩
    | closed ctxErr =>
      rcases ctxErr with _ | err
      · cases hst
        exact ⟨fun _ hw => (by cases hw), fun _ hf => (by cases hf)⟩
      cases hst
      exact good_error err head
    | done err =>
      cases hst
      exact good_error err head
  · cases hst

/-- Before the first notification, where the first head has not executed the message or confidence is 0. -/
theorem waitForMessage_good (hrd : sm.Reads T) (hhead : T.mem head) (hb : ∀ msg, sm.getCMessage q.mcid = .ok msg → ∀ found,
      tipsetExecutedMessage sm head q.mcid msg.vmMessage q.allowReplaced = .ok (some found) → q.confidence = 0) :
    Good sm T q ⟨waitForMessage sm q (some [.current head]), head⟩ := by
  unfold waitForMessage
  rcases hmsg : sm.getCMessage q.mcid with e | msg
  · exact good_error _ head
  dsimp only
  unfold waitFrom
  rcases hrun : tipsetExecutedMessage sm head q.mcid msg.vmMessage q.allowReplaced with e | _ | ⟨r, fm⟩
  · exact good_error e head
  · exact Kept.good ⟨hhead, hhead, hmsg, fun c hc => (by cases hc), fun _ y hy _ => hy⟩
  · refine Confirmed.good ⟨⟨msg, hmsg, executed_of_ok hrd.parents hhead hrun⟩, .refl head, ?_⟩
    simp [hb msg hmsg (r, fm) hrun]

/-- **`WaitForMessage` respects its confidence** where the first head did not execute the message (or confidence is 0),
nothing overflows, and the search does not end right after a revert. -/
theorem waitForMessage_confirmed (T : TipSetTree) (sm : StateManager ρ) (hreads : sm.Reads T) (q : Query)
    (hfits : Fits T q) (head : TipSet) (hhead : T.mem head) (hstart : ∀ msg, sm.getCMessage q.mcid = .ok msg → ∀ found,
      tipsetExecutedMessage sm head q.mcid msg.vmMessage q.allowReplaced = .ok (some found) → q.confidence = 0)
    (labels : List Label) (hlegal : Legal (step sm q T) (fun s l => Path T s l ∧ Fresh s l)
      ⟨waitForMessage sm q (some [.current head]), head⟩ labels)
    (s : State ρ) (hrun : run (step sm q T) ⟨waitForMessage sm q (some [.current head]), head⟩ labels = some s)
    (f : Found ρ) (hret : s.waiter = .returned (.ok (some f))) : Confirmed sm T q f s.head := by
  have hg : Good sm T q s := run_legal (fun s l s' h hl hst => h.step hreads hfits hl.1 hl.2 hst)
    (waitForMessage_good hreads hhead hstart) hlegal hrun
  exact hg.returned f hret

def rootMessage : Message := ⟨⟨[7]⟩, .id 1, 0, 0, 1, 1, 1, 0, .id 2, 0, []⟩

def forkManager : StateManager Nat where
  getCMessage c := if c = rootMessage.cid then .ok (.message rootMessage) else .error (.errorf "ipld: could not find node")
  loadTipSet := listLoad forkTips
  messagesForTipset ts := .ok (if ts = forkRoot then [.message rootMessage] else [])
  getParentReceipt _ i := .ok i
  loadActor _ ts := .ok (if ts = forkRoot then 0 else 1)
  lookupID addr _ := .ok addr

def waitFor (confidence : UInt64) : Query := ⟨rootMessage.cid, confidence, lookbackNoLimit, false⟩

def waitAt (confidence : UInt64) (head : TipSet) : State Nat :=
  ⟨waitForMessage forkManager (waitFor confidence) (some [.current head]), head⟩

theorem forkManager_reads : forkManager.Reads forkTree := by
  refine ⟨forkTree_loads, fun c m hm => ?_⟩
  simp only [forkManager] at hm
  split_ifs at hm with heq
  cases hm
  exact heq.symm

theorem waitForMessage_confirmed_left :
    ∃ s f, run (step forkManager (waitFor 1) forkTree) (waitAt 1 forkRoot)
        [.notif [.apply forkLeft1, .apply forkLeft2]] = some s ∧ s.waiter = .returned (.ok (some f)) ∧
      Confirmed forkManager forkTree (waitFor 1) f s.head := by
  have hfi : Fits forkTree (waitFor 1) := by
    constructor
    · show ∀ ts ∈ forkTips, 0 ≤ ts.height
      decide
    · show ∀ ts ∈ forkTips, ts.height + (1 : UInt64).toNat < 2 ^ 63
      decide
  refine ⟨_, ⟨forkLeft1, 0, rootMessage.cid⟩, rfl, rfl, ?_⟩
  refine waitForMessage_confirmed forkTree forkManager forkManager_reads (waitFor 1) hfi forkRoot
    (forkTree_mem (by decide)) ?_ [.notif [.apply forkLeft1, .apply forkLeft2]] ?_ _ rfl _ rfl
  · intro msg _ found hfo
    cases hfo
  · refine ⟨⟨⟨forkTree_mem (by decide), by decide, forkTree_mem (by decide), by decide, trivial⟩, trivial⟩, ?_⟩
    exact fun _ _ => trivial

/-- Three early returns: the first head executed it; right after a revert; a confidence negative as an epoch. -/
theorem waitForMessage_unconfirmed : (∃ f, (waitAt 5 forkLeft1).waiter = .returned (.ok (some f)) ∧
      ¬ f.ts.height + (waitFor 5).confidence.toNat ≤ forkLeft1.height) ∧
    (Legal (step forkManager (waitFor 1) forkTree) (Path forkTree) (waitAt 1 forkLeft2)
        [.notif [.revert forkLeft2], .search 9] ∧
      ∃ s f, run (step forkManager (waitFor 1) forkTree) (waitAt 1 forkLeft2)
        [.notif [.revert forkLeft2], .search 9] = some s ∧ s.waiter = .returned (.ok (some f)) ∧
        ¬ f.ts.height + (waitFor 1).confidence.toNat ≤ s.head.height) ∧
    (Legal (step forkManager (waitFor 18446744073709551615) forkTree) (Path forkTree) (waitAt 18446744073709551615 forkRoot)
        [.notif [.apply forkLeft1, .apply forkLeft2]] ∧
      ∃ s f, run (step forkManager (waitFor 18446744073709551615) forkTree) (waitAt 18446744073709551615 forkRoot)
        [.notif [.apply forkLeft1, .apply forkLeft2]] = some s ∧ s.waiter = .returned (.ok (some f)) ∧
        ¬ f.ts.height + (waitFor 18446744073709551615).confidence.toNat ≤ s.head.height) := by
  refine ⟨⟨⟨forkLeft1, 0, rootMessage.cid⟩, rfl, by decide⟩, ⟨?_, ?_⟩, ?_, ?_⟩
  · refine ⟨⟨rfl, forkLeft1, by decide, trivial⟩, fun s hs => ?_⟩
    exact ⟨trivial, fun _ _ => trivial⟩
  · exact ⟨_, ⟨forkLeft1, 0, rootMessage.cid⟩, rfl, rfl, by decide⟩
  · refine ⟨⟨forkTree_mem (by decide), by decide, forkTree_mem (by decide), by decide, trivial⟩, ?_⟩
    exact fun _ _ => trivial
  · exact ⟨_, ⟨forkLeft1, 0, rootMessage.cid⟩, rfl, rfl, by decide⟩

end Stmgr
end Lotus

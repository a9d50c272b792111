/-
# Each event is handled once in each stay of its tipset.

A *stay* is what a tipset brings while it is on the chain: the events matched when it was applied, and the highest head since.
`Queues` says that the two maps hold the events of the current stays and nothing else, and that an event is marked as called
when the head has been at its height.
-/
import Lotus.Events.Called

namespace Lotus.Events
open Lib.Ancestry Lib.Lts Store List AList Bool
variable {δ : Type}

namespace HcEvents

/-! ## The maps -/

@[simp] theorem queued_setQueued_self (e : HcEvents δ) (triggerH msgH : Int) (events : List (QueuedEvent δ)) :
    (e.setQueued triggerH msgH events).queued triggerH msgH = events := by
  simp [queued, setQueued]

variable {H O triggerH msgH : Int}

section
variable (e : HcEvents δ)

theorem queued_setQueued_ne (events : List (QueuedEvent δ)) (hne : ¬ (H = triggerH ∧ O = msgH)) :
    (e.setQueued triggerH msgH events).queued H O = e.queued H O := by
  unfold queued setQueued
  by_cases hH : H = triggerH
  · subst hH
    have hO : O ≠ msgH := fun h => hne ⟨rfl, h⟩
    rw [lookup_insert, Option.bind_some, lookup_insert_ne hO]
    cases e.confQueue.lookup H <;> simp
  · rw [lookup_insert_ne hH]

@[simp] theorem queued_deleteQueued_self (triggerH msgH : Int) :
    (e.deleteQueued triggerH msgH).queued triggerH msgH = [] := by
  unfold deleteQueued
  split
  case h_1 h => simp [queued, h]
  case h_2 byOrigH h => simp [queued]

theorem queued_deleteQueued_ne (hne : ¬ (H = triggerH ∧ O = msgH)) :
    (e.deleteQueued triggerH msgH).queued H O = e.queued H O := by
  unfold deleteQueued
  split
  case h_1 => rfl
  case h_2 byOrigH h =>
    unfold queued
    by_cases hH : H = triggerH
    · subst hH
      have hO : O ≠ msgH := fun h => hne ⟨rfl, h⟩
      rw [lookup_insert, Option.bind_some, lookup_erase_ne hO, h, Option.bind_some]
    · rw [lookup_insert_ne hH]

/-! ## What does not change -/

/-- The height at which the event has its confidence, as the code computes it. -/
def due (event : QueuedEvent δ) : Int := addEpoch event.tipset.height (e.confidence event)
end

/-- Handlers are set up under ids given out and never refuse; matchers and timeouts belong to them. -/
structure Sound (e : HcEvents δ) : Prop where
  fresh : ∀ id, e.ctr ≤ id → e.triggers.lookup id = none
  willing : ∀ id trigger, e.triggers.lookup id = some trigger →
    ∀ data prevTs ts curH, trigger.handle data prevTs ts curH = .ok true
  states : ∀ m ∈ e.stateMatchers.entries, (e.triggers.lookup m.1).isSome
  msgs : ∀ m ∈ e.msgMatchers.entries, (e.triggers.lookup m.1).isSome
  timeouts : ∀ H touts, e.timeouts.lookup H = some touts → ∀ t ∈ touts.entries, (e.triggers.lookup t.1).isSome

structure Same (e e' : HcEvents δ) : Prop where
  lastTs : e'.lastTs = e.lastTs
  ctr : e'.ctr = e.ctr
  triggers : ∀ id, e'.triggers.lookup id = e.triggers.lookup id
  states : e'.stateMatchers = e.stateMatchers
  msgs : e'.msgMatchers = e.msgMatchers

theorem Same.refl (e : HcEvents δ) : Same e e := ⟨rfl, rfl, fun _ => rfl, rfl, rfl⟩

variable {e e' e1 e2 e3 : HcEvents δ}

theorem Same.trans (h : Same e1 e2) (h' : Same e2 e3) : Same e1 e3 :=
  ⟨h'.lastTs.trans h.lastTs, h'.ctr.trans h.ctr, fun id => (h'.triggers id).trans (h.triggers id),
    h'.states.trans h.states, h'.msgs.trans h.msgs⟩

theorem Same.confidence (h : Same e e') : e'.confidence = e.confidence := by
  funext event
  simp [HcEvents.confidence, h.triggers]

theorem Same.due (h : Same e e') : e'.due = e.due := by
  funext event
  simp [HcEvents.due, h.confidence]

theorem Same.live (h : Same e e') : e'.live = e.live := by
  funext event
  simp [HcEvents.live, h.triggers]

theorem Sound.of_same (hs : e.Sound) (h : Same e e')
    (hti : ∀ H touts, e'.timeouts.lookup H = some touts → ∀ t ∈ touts.entries, (e.triggers.lookup t.1).isSome) :
    e'.Sound where
  fresh id hid := (h.triggers id).trans (hs.fresh id (h.ctr ▸ hid))
  willing id trigger hid := hs.willing id trigger ((h.triggers id).symm.trans hid)
  states m hm := by rw [h.triggers]; exact hs.states m (h.states ▸ hm)
  msgs m hm := by rw [h.triggers]; exact hs.msgs m (h.msgs ▸ hm)
  timeouts H touts hH t ht := by rw [h.triggers]; exact hti H touts hH t ht

/-! ## Calling the handlers -/

section
variable (e : HcEvents δ) (event : QueuedEvent δ)

def callOf : Call δ :=
  .handle event.trigger event.data event.prevTipset event.tipset (e.due event)

def touch : QueuedEvent δ :=
  { event with called := event.called || e.live event }
end

theorem mem_entries_insert {κ ν : Type} [DecidableEq κ] {m : GoMap κ ν} {k : κ} {v : ν} {x : Σ _ : κ, ν}
    (hx : x ∈ (m.insert k v).entries) : x = ⟨k, v⟩ ∨ x ∈ m.entries := by
  rcases mem_cons.mp hx with h | h
  · exact .inl h
  · exact .inr ((kerase_sublist k m.entries).subset h)

variable {id : TriggerID}

theorem setMore_same {trigger : HandlerInfo δ} (hid : e.triggers.lookup id = some trigger)
    (hli : trigger.disabled = false) : Same e (e.setMore id trigger true) := by
  refine ⟨rfl, rfl, fun id' => ?_, rfl, rfl⟩
  show (e.triggers.insert id _).lookup id' = _
  by_cases h : id' = id
  · subst h
    rw [lookup_insert, hid]
    cases trigger
    simp_all
  · rw [lookup_insert_ne h]

variable {touts : GoMap TriggerID Nat}

theorem mem_timeouts_insert {timeouts : GoMap Int (GoMap TriggerID Nat)} {H' : Int} {touts' : GoMap TriggerID Nat}
    {n : Nat} {t : Σ _ : TriggerID, Nat} (h : (timeouts.insert H' (touts'.insert id n)).lookup H = some touts)
    (ht : t ∈ touts.entries) : t.1 = id ∨ t ∈ touts'.entries ∧ H = H' ∨ timeouts.lookup H = some touts := by
  by_cases hH : H = H'
  · subst hH
    obtain rfl : touts'.insert id n = touts := by simpa using h
    rcases mem_entries_insert ht with rfl | ht
    · exact .inl rfl
    · exact .inr (.inl ⟨ht, rfl⟩)
  · exact .inr (.inr ((lookup_insert_ne hH).symm.trans h))

theorem countCall_registered (hs : e.Sound) (timeout : Int) (hid : (e.triggers.lookup id).isSome) (H : Int)
    (touts : GoMap TriggerID Nat) (h : (countCall e.timeouts timeout id).lookup H = some touts) :
    ∀ t ∈ touts.entries, (e.triggers.lookup t.1).isSome := by
  intro t ht
  unfold countCall at h
  split at h
  case h_1 => exact hs.timeouts H touts h t ht
  case h_2 old hold =>
    rcases mem_timeouts_insert h ht with heq | ⟨ht, rfl⟩ | h
    · exact heq ▸ hid
    · exact hs.timeouts H old hold t ht
    · exact hs.timeouts H touts h t ht

theorem setTimeout_registered (hs : e.Sound) {timeoutH : Int} (h : (setTimeout e.timeouts timeoutH id).lookup H = some touts) :
    ∀ t ∈ touts.entries, t.1 = id ∨ (e.triggers.lookup t.1).isSome := by
  intro t ht
  rcases mem_timeouts_insert h ht with heq | ⟨ht, rfl⟩ | h
  · exact .inl heq
  · rcases hlk : e.timeouts.lookup H with _ | old
    · simp [hlk] at ht
    rw [hlk] at ht
    exact .inr (hs.timeouts H old hlk t ht)
  · exact .inr (hs.timeouts H touts h t ht)

def fires (e : HcEvents δ) (event : QueuedEvent δ) : Bool := !event.called && e.live event

theorem Same.fires (h : Same e e') : e'.fires = e.fires := by
  funext event
  simp [HcEvents.fires, h.live]

theorem Same.touch (h : Same e e') : e'.touch = e.touch := by
  funext event
  simp [HcEvents.touch, h.live]

def callAt (height : Int) (event : QueuedEvent δ) : Call δ :=
  .handle event.trigger event.data event.prevTipset event.tipset height

structure Quiet (e e' : HcEvents δ) : Prop extends Same e e' where
  sound : e'.Sound
  confQueue : e'.confQueue = e.confQueue
  revertQueue : e'.revertQueue = e.revertQueue

theorem Quiet.refl (hs : e.Sound) : Quiet e e := ⟨.refl e, hs, rfl, rfl⟩

theorem Quiet.trans (h : Quiet e1 e2) (h' : Quiet e2 e3) : Quiet e1 e3 :=
  ⟨h.toSame.trans h'.toSame, h'.sound, h'.confQueue.trans h.confQueue, h'.revertQueue.trans h.revertQueue⟩

variable {event : QueuedEvent δ}

theorem touch_of_not_fires (h : e.fires event = false) : e.touch event = event := by
  unfold fires at h
  unfold touch
  cases event
  cases ‹Bool› <;> simp_all

theorem applyEvent_spec (hs : e.Sound) (height : Int) (hid : (e.triggers.lookup event.trigger).isSome) :
    ∃ e', applyEvent height e event =
        some (e', if e.fires event then [callAt height event] else [], e.touch event) ∧ Quiet e e' := by
  obtain ⟨trigger, htr⟩ := Option.isSome_iff_exists.mp hid
  rcases hfi : e.fires event with _ | _
  · refine ⟨e, ?_, .refl hs⟩
    have h : event.called = true ∨ trigger.disabled = true := by
      simpa [fires, live, htr, or_iff_not_imp_left] using hfi
    rw [touch_of_not_fires hfi]
    rcases h with h | h <;> simp [applyEvent, h, htr]
  obtain ⟨hcalled, hli⟩ : event.called = false ∧ trigger.disabled = false := by
    simpa [fires, live, htr] using hfi
  have hm := hs.willing _ _ htr (some event.data) event.prevTipset (some event.tipset) height
  have hsa := setMore_same htr hli
  let counted : HcEvents δ := { e with timeouts := countCall e.timeouts trigger.timeout event.trigger }
  refine ⟨counted.setMore event.trigger trigger true, ?_, ⟨hsa.lastTs, hsa.ctr, hsa.triggers, rfl, rfl⟩, ?_, rfl, rfl⟩
  · simp [applyEvent, hcalled, htr, hli, hm, touch, live, callAt, counted]
  · exact hs.of_same ⟨rfl, rfl, hsa.triggers, rfl, rfl⟩ (countCall_registered hs trigger.timeout hid)

theorem applyEvents_spec (hs : e.Sound) (height : Int) {events : List (QueuedEvent δ)}
    (hid : ∀ event ∈ events, (e.triggers.lookup event.trigger).isSome) : ∃ e', applyEvents height e events =
        some (e', (events.filter e.fires).map (callAt height), events.map e.touch) ∧ Quiet e e' := by
  induction events generalizing e with
  | nil => exact ⟨e, rfl, .refl hs⟩
  | cons event rest ih =>
    obtain ⟨e1, h1, hq1⟩ := applyEvent_spec hs height (hid event mem_cons_self)
    have hid1 : ∀ event ∈ rest, (e1.triggers.lookup event.trigger).isSome := by
      intro event' hmem
      rw [hq1.triggers]
      exact hid event' (mem_cons_of_mem event hmem)
    obtain ⟨e2, h2, hq2⟩ := ih hq1.sound hid1
    rw [hq1.fires, hq1.touch] at h2
    refine ⟨e2, ?_, hq1.trans hq2⟩
    simp only [applyEvents, h1, h2, Option.bind_some, Option.map_some]
    cases hfi : e.fires event <;> simp [hfi]

structure Requeued (e e' : HcEvents δ) (q : Int → Int → List (QueuedEvent δ)) : Prop extends Same e e' where
  sound : e'.Sound
  reverts : ∀ O, e'.reverts O = e.reverts O
  queued : ∀ H O, e'.queued H O = q H O

theorem Quiet.requeued (h : Quiet e e') : Requeued e e' e.queued :=
  ⟨h.toSame, h.sound, fun O => by simp [HcEvents.reverts, h.revertQueue], fun H O => by simp [HcEvents.queued, h.confQueue]⟩

variable {origins : List (Σ _ : Int, List (QueuedEvent δ))}

theorem applyOrigins_spec (hs : e.Sound) (height : Int)
    (hk : origins.NodupKeys) (hid : ∀ o ∈ origins, ∀ event ∈ o.2, (e.triggers.lookup event.trigger).isSome) :
    ∃ e', applyOrigins height e origins = some (e', origins.flatMap fun o => (o.2.filter e.fires).map (callAt height)) ∧
      Requeued e e' fun H O =>
        if H = height then (origins.dlookup O).elim (e.queued H O) (map e.touch) else e.queued H O := by
  induction origins generalizing e with
  | nil =>
    refine ⟨e, rfl, (Quiet.refl hs).toSame, hs, fun _ => rfl, fun H O => ?_⟩
    simp
  | cons o rest ih =>
    obtain ⟨origH, events⟩ := o
    obtain ⟨hno, hk⟩ := nodupKeys_cons.mp hk
    obtain ⟨e1, h1, hq1⟩ := applyEvents_spec hs height (hid ⟨origH, events⟩ mem_cons_self)
    let e2 := e1.setQueued height origH (events.map e.touch)
    have hs2 : e2.Sound :=
      ⟨hq1.sound.fresh, hq1.sound.willing, hq1.sound.states, hq1.sound.msgs, hq1.sound.timeouts⟩
    have hsa : Same e e2 := ⟨hq1.lastTs, hq1.ctr, hq1.triggers, hq1.states, hq1.msgs⟩
    have hid2 : ∀ o ∈ rest, ∀ event ∈ o.2, (e2.triggers.lookup event.trigger).isSome := by
      intro o ho event hev
      rw [hsa.triggers]
      exact hid o (mem_cons_of_mem _ ho) event hev
    obtain ⟨e3, h3, hr⟩ := ih hs2 hk hid2
    rw [hsa.fires] at h3
    refine ⟨e3, ?_, hsa.trans hr.toSame, hr.sound, ?_, ?_⟩
    · simp only [applyOrigins, h1, Option.bind_some, flatMap_cons]
      rw [show applyOrigins height (e1.setQueued height origH (events.map e.touch)) rest = _ from h3]
      rfl
    · intro O
      rw [hr.reverts]
      simp [HcEvents.reverts, e2, setQueued, hq1.revertQueue]
    intro H O
    rw [hr.queued, hsa.touch]
    by_cases hH : H = height
    · subst hH
      by_cases hO : O = origH
      · subst hO
        have hn : rest.dlookup O = none := dlookup_eq_none.mpr hno
        simp [hn, e2]
      rw [if_pos rfl, if_pos rfl, dlookup_cons_ne _ _ (by simpa using hO)]
      congr 1
      exact (queued_setQueued_ne e1 _ fun h => hO h.2).trans (hq1.requeued.queued H O)
    · rw [if_neg hH, if_neg hH]
      exact (queued_setQueued_ne e1 _ fun h => hH h.1).trans (hq1.requeued.queued H O)

theorem handledOf_origins (height : Int)
    (hk : origins.NodupKeys) (ts : TipSet)
    (hown : ∀ o ∈ origins, ∀ event ∈ o.2, event.tipset = ts ↔ o.1 = ts.height) (p : QueuedEvent δ → Bool) :
    handledOf ts (origins.flatMap fun o => (o.2.filter p).map (callAt height)) =
      (((origins.dlookup ts.height).getD []).filter p).map (callAt height) := by
  induction origins with
  | nil => rfl
  | cons o rest ih =>
    obtain ⟨origH, events⟩ := o
    obtain ⟨hno, hk⟩ := nodupKeys_cons.mp hk
    have hev := hown ⟨origH, events⟩ mem_cons_self
    have hrest := ih hk fun o ho => hown o (mem_cons_of_mem _ ho)
    rw [flatMap_cons, handledOf, filter_append, ← handledOf, ← handledOf, hrest]
    by_cases hor : origH = ts.height
    · -- no other entry is about the tipset
      have hn : rest.dlookup ts.height = none := dlookup_eq_none.mpr (hor ▸ hno)
      subst hor
      have ha : handledOf ts ((events.filter p).map (callAt height)) = (events.filter p).map (callAt height) := by
        refine filter_eq_self.mpr ?_
        simp only [mem_map, mem_filter]
        rintro _ ⟨event, ⟨hmem, -⟩, rfl⟩
        simpa [callAt] using (hev event hmem).mpr rfl
      simp [ha, hn]
    have hni : handledOf ts ((events.filter p).map (callAt height)) = [] := by
      refine filter_eq_nil_iff.mpr ?_
      simp only [mem_map, mem_filter]
      rintro _ ⟨event, ⟨hmem, -⟩, rfl⟩
      simpa [callAt] using fun h => hor ((hev event hmem).mp h)
    rw [hni, nil_append, dlookup_cons_ne _ _ (by simpa using Ne.symm hor)]

theorem applyWithConfidence_eq (ord : Orders δ) (height : Int) (e : HcEvents δ) :
    ∃ origins, applyWithConfidence ord height e = applyOrigins height e origins ∧ origins.NodupKeys ∧
      ∀ O, (origins.dlookup O).getD [] = e.queued height O := by
  unfold applyWithConfidence queued
  rcases h : e.confQueue.lookup height with _ | byOrigH
  · exact ⟨[], rfl, nodupKeys_nil, fun _ => rfl⟩
  have hpe := (ord.origins height).perm byOrigH.entries
  have hk := (perm_nodupKeys hpe).mpr byOrigH.nodupKeys
  refine ⟨_, rfl, hk, fun O => ?_⟩
  rw [perm_dlookup O hk hpe]
  rfl

theorem applyWithConfidence_spec (hs : e.Sound) (ord : Orders δ) (height : Int)
    (hid : ∀ O, ∀ event ∈ e.queued height O, (e.triggers.lookup event.trigger).isSome) :
    ∃ e' calls, applyWithConfidence ord height e = some (e', calls) ∧
      (Requeued e e' fun H O => if H = height then (e.queued H O).map e.touch else e.queued H O) ∧
      (∀ ts, (∀ O, ∀ event ∈ e.queued height O, event.tipset = ts ↔ O = ts.height) →
        handledOf ts calls = ((e.queued height ts.height).filter e.fires).map (callAt height)) ∧
      ∀ c ∈ calls, ∃ O, ∃ event ∈ e.queued height O, c = callAt height event := by
  obtain ⟨origins, heq, hk, hlk⟩ := applyWithConfidence_eq ord height e
  have hmem : ∀ o ∈ origins, o.2 = e.queued height o.1 := by
    rintro ⟨O, events⟩ ho
    rw [← hlk, (mem_dlookup_iff hk).mpr ho]
    rfl
  obtain ⟨e', h', hr⟩ := applyOrigins_spec hs height hk fun o ho event hev =>
    hid o.1 event (hmem o ho ▸ hev)
  refine ⟨e', _, heq.trans h', ⟨hr.toSame, hr.sound, hr.reverts, ?_⟩, ?_, ?_⟩
  · intro H O
    rw [hr.queued]
    by_cases hH : H = height
    · subst hH
      rw [if_pos rfl, if_pos rfl, ← hlk O]
      cases origins.dlookup O <;> rfl
    · rw [if_neg hH, if_neg hH]
  · intro ts hown
    rw [handledOf_origins height hk ts (fun o ho event hev => hown o.1 event (hmem o ho ▸ hev)), hlk]
  intro c hc
  obtain ⟨o, ho, hc⟩ := mem_flatMap.mp hc
  obtain ⟨event, hev, rfl⟩ := mem_map.mp hc
  exact ⟨o.1, event, hmem o ho ▸ mem_of_mem_filter hev, rfl⟩

theorem applyTimeoutsLoop_spec (hs : e.Sound) (api : EventAPI) (height : Int) (ts : TipSet)
    {l : List (Σ _ : TriggerID, Nat)} (hid : ∀ t ∈ l, (e.triggers.lookup t.1).isSome) :
    ∃ e' calls, applyTimeoutsLoop api height ts e l = some (e', calls) ∧ Quiet e e' ∧
      ∀ c ∈ calls, ∃ id ts, c = .timeout id ts height := by
  induction l generalizing e with
  | nil => exact ⟨e, [], rfl, .refl hs, by simp⟩
  | cons t rest ih =>
    have hrest : ∀ t ∈ rest, (e.triggers.lookup t.1).isSome := fun t ht => hid t (mem_cons_of_mem _ ht)
    obtain ⟨trigger, htr⟩ := Option.isSome_iff_exists.mp (hid t mem_cons_self)
    by_cases hn : t.2 > 0
    · simpa [applyTimeoutsLoop, hn] using ih hs hrest
    cases hd : trigger.disabled with
    | true => simpa [applyTimeoutsLoop, hn, htr, hd] using ih hs hrest
    | false =>
      have hsa := setMore_same htr hd
      have hq : Quiet e (e.setMore t.1 trigger true) := ⟨hsa, hs.of_same hsa hs.timeouts, rfl, rfl⟩
      obtain ⟨e', calls, h', hq', hca⟩ := ih hq.sound fun t ht => by
        rw [hsa.triggers]
        exact hrest t ht
      let timeoutTs :=
        (api.chainGetTipSetAfterHeight (addEpoch height (-trigger.confidence.toInt)) ts.key).toOption
      have hm : trigger.handle none none timeoutTs height = .ok true := hs.willing t.1 trigger htr _ _ _ _
      refine ⟨e', .timeout t.1 timeoutTs height :: calls, ?_, hq.trans hq', ?_⟩
      · simp only [applyTimeoutsLoop, if_neg hn, htr, hd, false_eq_true, if_false]
        rw [show trigger.handle none none _ height = _ from hm]
        simp only [h', Option.map_some]
        rfl
      intro c hc
      rcases mem_cons.mp hc with rfl | hc
      · exact ⟨_, _, rfl⟩
      · exact hca c hc

theorem applyTimeouts_spec (hs : e.Sound) (api : EventAPI) (ord : Orders δ) (height : Int) (ts : TipSet) :
    ∃ e' calls, applyTimeouts api ord height ts e = some (e', calls) ∧ Quiet e e' ∧
      ∀ c ∈ calls, ∃ id ts, c = .timeout id ts height := by
  unfold applyTimeouts
  rcases h : e.timeouts.lookup height with _ | triggers
  · exact ⟨e, [], rfl, .refl hs, by simp⟩
  refine applyTimeoutsLoop_spec hs api height ts fun t ht => ?_
  exact hs.timeouts height triggers h t (((ord.timeouts height).perm triggers.entries).mem_iff.mp ht)

/-! ## Stays -/

end HcEvents

/-- What a tipset brought: its parent, its events, and the highest head since. -/
structure Stay (δ : Type) where
  ts : TipSet
  prev : TipSet
  events : List (QueuedEvent δ)
  peak : Int

def Stay.raise (height : Int) (st : Stay δ) : Stay δ := { st with peak := max st.peak height }

namespace HcEvents

section
variable (e : HcEvents δ) (st : Stay δ) (event : QueuedEvent δ)

def reached : Bool :=
  decide (st.prev.height < e.due event) && decide (e.due event ≤ st.peak) && e.live event

def marked : QueuedEvent δ :=
  { event with called := e.reached st event }
end

/-- **The invariant of the queue.** Under each height the two maps hold the events of the stay. -/
structure Queues (e : HcEvents δ) (stays : List (Stay δ)) : Prop where
  queued : ∀ st ∈ stays, ∀ H,
    e.queued H st.ts.height = (st.events.filter fun event => e.due event = H).map (e.marked st)
  idle : ∀ O, (∀ st ∈ stays, st.ts.height ≠ O) → ∀ H, e.queued H O = []
  reverts : ∀ st ∈ stays, e.reverts st.ts.height = st.events.map e.due
  noReverts : ∀ O, (∀ st ∈ stays, st.ts.height ≠ O) → e.reverts O = []
  events : ∀ st ∈ stays, ∀ event ∈ st.events, (e.triggers.lookup event.trigger).isSome ∧ event.tipset = st.ts
  distinct : ∀ st ∈ stays, ∀ st' ∈ stays, st.ts.height = st'.ts.height → st = st'

variable {e e' e1 e2 : HcEvents δ} {stays : List (Stay δ)} {event : QueuedEvent δ}

theorem Queues.mem_queued (hq : Queues e stays) {H O : Int} (h : event ∈ e.queued H O) :
    ∃ st ∈ stays, st.ts.height = O ∧ ∃ ev ∈ st.events, e.due ev = H ∧ event = e.marked st ev := by
  by_cases hO : ∀ st ∈ stays, st.ts.height ≠ O
  · rw [hq.idle O hO H] at h
    cases h
  obtain ⟨st, hst, rfl⟩ : ∃ st ∈ stays, st.ts.height = O := by simpa using hO
  rw [hq.queued st hst H] at h
  obtain ⟨ev, hev, rfl⟩ := mem_map.mp h
  exact ⟨st, hst, rfl, ev, mem_of_mem_filter hev, by simpa using of_mem_filter hev, rfl⟩

variable {st : Stay δ} {height h h' : Int}

theorem marked_raise (hpr : st.prev.height < height) (hpe : height ≤ st.peak + 1) (event : QueuedEvent δ) :
    e.marked (st.raise height) event =
      if e.due event = height then e.touch (e.marked st event) else e.marked st event := by
  have hli : e.live (e.marked st event) = e.live event := rfl
  unfold touch
  rw [hli]
  unfold marked reached Stay.raise
  by_cases hd : e.due event = height
  · rw [if_pos hd]
    cases e.live event <;> simp [hd, hpr]
  · have hle : e.due event ≤ max st.peak height ↔ e.due event ≤ st.peak := by omega
    simp [hd, hle]

theorem fires_marked (hpr : st.prev.height < height) (hd : e.due event = height) :
    e.fires (e.marked st event) = (decide (st.peak < height) && e.live event) := by
  have hli : e.live (e.marked st event) = e.live event := rfl
  unfold fires
  rw [hli]
  unfold marked reached
  by_cases h : height ≤ st.peak
  · cases e.live event <;> simp [hd, hpr, h]
  · cases e.live event <;> simp [hd, h, not_le.mp h]

theorem Same.marked (h : Same e e') : e'.marked = e.marked := by
  funext st event
  simp [HcEvents.marked, HcEvents.reached, h.due, h.live]

variable (e st height) in
def between : List (QueuedEvent δ) :=
  st.events.filter fun event => decide (st.peak < e.due event ∧ e.due event ≤ height) && e.live event

variable (e e' stays height) in
/-- The code while the head goes up to `height`: the stays are raised, with their events in between called. -/
structure Raised (calls : List (Call δ)) : Prop
    extends Same e e' where
  sound : e'.Sound
  queues : Queues e' (stays.map (Stay.raise height))
  handled : ∀ st ∈ stays, (handledOf st.ts calls).Perm ((e.between st height).map e.callOf)
  only : ∀ c ∈ calls, (∃ id ts h, c = .timeout id ts h) ∨ ∃ st ∈ stays, ∃ event ∈ st.events, c = e.callOf event

theorem Queues.of_requeued {stays' : List (Stay δ)} {q : Int → Int → List (QueuedEvent δ)} (hq : Queues e stays)
    (h : Requeued e e' q) (f : Stay δ → Stay δ) (hsta : stays' = stays.map f)
    (hf : ∀ st, (f st).ts = st.ts ∧ (f st).events = st.events)
    (hqu : ∀ st ∈ stays, ∀ H, q H st.ts.height = (st.events.filter fun event => e.due event = H).map (e.marked (f st)))
    (hid : ∀ O, (∀ H, e.queued H O = []) → ∀ H, q H O = []) : Queues e' stays' := by
  subst hsta
  have hn : ∀ O, (∀ st ∈ stays.map f, st.ts.height ≠ O) → ∀ st ∈ stays, st.ts.height ≠ O := by
    intro O hO st hst
    rw [← (hf st).1]
    exact hO (f st) (mem_map_of_mem hst)
  constructor
  · simp only [forall_mem_map, h.queued, h.due, h.marked, hf]
    exact hqu
  · intro O hO H
    rw [h.queued]
    exact hid O (hq.idle O (hn O hO)) H
  · simp only [forall_mem_map, h.reverts, h.due, hf]
    exact hq.reverts
  · intro O hO
    rw [h.reverts]
    exact hq.noReverts O (hn O hO)
  · simp only [forall_mem_map, h.triggers, hf]
    exact hq.events
  simp only [forall_mem_map, hf]
  intro st hst st' hst' heq
  rw [hq.distinct st hst st' hst' heq]

theorem applyWithConfidence_raised (hs : e.Sound) (hq : Queues e stays) (ord : Orders δ)
    (hpr : ∀ st ∈ stays, st.prev.height < height) (hpe : ∀ st ∈ stays, height ≤ st.peak + 1) :
    ∃ e' calls, applyWithConfidence ord height e = some (e', calls) ∧ Raised e e' stays height calls := by
  have hid : ∀ O, ∀ event ∈ e.queued height O, (e.triggers.lookup event.trigger).isSome := by
    intro O event heve
    obtain ⟨st, hst, -, ev, hev, -, rfl⟩ := hq.mem_queued heve
    exact (hq.events st hst ev hev).1
  obtain ⟨e', calls, h', hr, hh, ho⟩ := applyWithConfidence_spec hs ord height hid
  refine ⟨e', calls, h', hr.toSame, hr.sound, ?_, ?_, ?_⟩
  · refine hq.of_requeued hr (Stay.raise height) rfl (fun st => ⟨rfl, rfl⟩) ?_ (by simp +contextual)
    intro st hst H
    rw [hq.queued st hst H]
    have hm := marked_raise (e := e) (hpr st hst) (hpe st hst)
    by_cases hH : H = height
    · subst hH
      rw [if_pos rfl, map_map]
      refine map_congr_left fun event heve => ?_
      rw [hm, if_pos (by simpa using of_mem_filter heve)]
      rfl
    rw [if_neg hH]
    refine map_congr_left fun event heve => ?_
    have hd : e.due event = H := by simpa using of_mem_filter heve
    rw [hm, if_neg (by rw [hd]; exact hH)]
  · intro st hst
    have hown : ∀ O, ∀ event ∈ e.queued height O, event.tipset = st.ts ↔ O = st.ts.height := by
      intro O event heve
      obtain ⟨st', hst', rfl, ev, hev, -, rfl⟩ := hq.mem_queued heve
      rw [show (e.marked st' ev).tipset = st'.ts from (hq.events st' hst' ev hev).2]
      exact ⟨fun h => by rw [h], fun h => by rw [hq.distinct st' hst' st hst h]⟩
    rw [hh st.ts hown, hq.queued st hst height, filter_map, map_map, filter_filter]
    have hfi : (st.events.filter fun event => (e.fires ∘ e.marked st) event && decide (e.due event = height)) =
        e.between st height := by
      refine filter_congr fun event _ => ?_
      by_cases hd : e.due event = height
      · simp [fires_marked (hpr st hst) hd, hd]
      have := hpe st hst
      have hn : ¬ (st.peak < e.due event ∧ e.due event ≤ height) := by omega
      simp [hd, hn]
    rw [hfi]
    refine Perm.of_eq (map_congr_left fun event heve => ?_)
    have hd : e.due event = height := by
      have := hpe st hst
      have hlt := of_mem_filter heve
      simp only [and_eq_true, decide_eq_true_eq] at hlt
      omega
    simp [callAt, callOf, marked, hd]
  intro c hc
  obtain ⟨O, event, heve, rfl⟩ := ho c hc
  obtain ⟨st, hst, -, ev, hev, hd, rfl⟩ := hq.mem_queued heve
  exact .inr ⟨st, hst, ev, hev, by simp [callAt, callOf, marked, hd]⟩

theorem raise_raise (hle : h ≤ h') : (st.raise h).raise h' = st.raise h' := by
  simp [Stay.raise, max_assoc, max_eq_right hle]

theorem filter_append_perm {α : Type} {p q r : α → Bool} {l : List α} (h : ∀ a ∈ l, r a = (p a || q a))
    (hd : ∀ a ∈ l, p a = true → q a = false) : (l.filter p ++ l.filter q).Perm (l.filter r) := by
  induction l with
  | nil => exact .refl _
  | cons a l ih =>
    have ih := ih (fun b hb => h b (mem_cons_of_mem a hb)) fun b hb => hd b (mem_cons_of_mem a hb)
    have hr := h a mem_cons_self
    cases hp : p a with
    | true =>
      have hq := hd a mem_cons_self hp
      simpa [filter_cons, hp, hq, hr] using ih
    | false =>
      cases hq : q a with
      | true => simpa [filter_cons, hp, hq, hr] using perm_middle.trans (ih.cons a)
      | false => simpa [filter_cons, hp, hq, hr] using ih

theorem between_trans (e : HcEvents δ) (st : Stay δ) (hle : h ≤ h') :
    (e.between st h ++ e.between (st.raise h) h').Perm (e.between st h') := by
  apply filter_append_perm
  · intro event _
    cases e.live event
    · simp
    rw [Bool.eq_iff_iff]
    simp [Stay.raise]
    omega
  intro event _
  simp [Stay.raise]
  omega

theorem handledOf_append (ts : TipSet) (calls calls' : List (Call δ)) :
    handledOf ts (calls ++ calls') = handledOf ts calls ++ handledOf ts calls' := filter_append ..

theorem Same.callOf (h : Same e e') : e'.callOf = e.callOf := by
  funext event
  simp [HcEvents.callOf, h.due]

theorem Same.between (h : Same e e') : e'.between = e.between := by
  funext st height
  simp [HcEvents.between, h.due, h.live]

variable {calls calls' : List (Call δ)}

theorem Raised.trans (hr : Raised e e1 stays h calls) (hr' : Raised e1 e2 (stays.map (Stay.raise h)) h' calls')
    (hle : h ≤ h') : Raised e e2 stays h' (calls ++ calls') where
  toSame := hr.toSame.trans hr'.toSame
  sound := hr'.sound
  queues := by
    have hm : (stays.map (Stay.raise h)).map (Stay.raise h') = stays.map (Stay.raise h') := by
      rw [map_map]
      exact map_congr_left fun st _ => raise_raise hle
    exact hm ▸ hr'.queues
  handled := by
    intro st hst
    have hsn := hr'.handled (st.raise h) (mem_map_of_mem hst)
    rw [hr.callOf, hr.between] at hsn
    rw [handledOf_append]
    refine ((hr.handled st hst).append hsn).trans ?_
    rw [← map_append]
    exact (between_trans e st hle).map _
  only := by
    intro c hc
    rcases mem_append.mp hc with hc | hc
    · exact hr.only c hc
    rcases hr'.only c hc with hti | ⟨st, hst, event, hev, rfl⟩
    · exact .inl hti
    · obtain ⟨st0, hst0, rfl⟩ := mem_map.mp hst
      exact .inr ⟨st0, hst0, event, hev, by rw [hr.callOf]⟩

theorem Raised.quiet (hr : Raised e e1 stays h calls) (hq : Quiet e1 e2)
    (hti : ∀ c ∈ calls', ∃ id ts h, c = .timeout id ts h) : Raised e e2 stays h (calls ++ calls') where
  toSame := hr.toSame.trans hq.toSame
  sound := hq.sound
  queues := by
    refine hr.queues.of_requeued hq.requeued id (map_id _).symm (fun st => ⟨rfl, rfl⟩) ?_ fun O h => h
    intro st hst H
    exact hr.queues.queued st hst H
  handled := by
    intro st hst
    have hn : handledOf st.ts calls' = [] := by
      refine filter_eq_nil_iff.mpr fun c hc => ?_
      obtain ⟨id, ts, h, rfl⟩ := hti c hc
      simp
    rw [handledOf_append, hn, append_nil]
    exact hr.handled st hst
  only := by
    intro c hc
    rcases mem_append.mp hc with hc | hc
    · exact hr.only c hc
    · exact .inl (hti c hc)

theorem applyHeights_raised (hs : e.Sound) (hq : Queues e stays) (api : EventAPI) (ord : Orders δ) (ts : TipSet)
    (n : Nat) (hpr : ∀ st ∈ stays, st.prev.height < height) (hpe : ∀ st ∈ stays, height ≤ st.peak + 1) :
    ∃ e' calls, applyHeights api ord ts n height e = some (e', calls) ∧ Raised e e' stays (height + n - 1) calls := by
  induction n generalizing e stays height with
  | zero =>
    have hstay : ∀ st ∈ stays, st.raise (height + (0 : Nat) - 1) = st := by
      intro st hst
      have := hpe st hst
      have hm : max st.peak (height + (0 : Nat) - 1) = st.peak := by omega
      rw [Stay.raise, hm]
    refine ⟨e, [], rfl, .refl e, hs, ?_, ?_, by simp⟩
    · rw [map_congr_left hstay, map_id']
      exact hq
    intro st hst
    have hn : e.between st (height + (0 : Nat) - 1) = [] := by
      have := hpe st hst
      refine filter_eq_nil_iff.mpr fun event _ => ?_
      simp only [and_eq_true, decide_eq_true_eq]
      omega
    rw [hn]
    exact .refl _
  | succ n ih =>
    obtain ⟨e1, calls1, h1, hr1⟩ := applyWithConfidence_raised hs hq ord hpr hpe
    obtain ⟨e2, calls2, h2, hqu, hti⟩ := applyTimeouts_spec hr1.sound api ord height ts
    have hr2 := hr1.quiet hqu fun c hc => by
      obtain ⟨id, ts, hc⟩ := hti c hc
      exact ⟨id, ts, height, hc⟩
    have hp2 : ∀ st ∈ stays.map (Stay.raise height), st.prev.height < height + 1 := by
      rw [forall_mem_map]
      intro st hst
      show st.prev.height < height + 1
      have := hpr st hst
      omega
    have hpe2 : ∀ st ∈ stays.map (Stay.raise height), height + 1 ≤ st.peak + 1 := by
      rw [forall_mem_map]
      intro st hst
      show height + 1 ≤ max st.peak height + 1
      omega
    obtain ⟨e3, calls3, h3, hr3⟩ := ih hr2.sound hr2.queues hp2 hpe2
    refine ⟨e3, calls1 ++ calls2 ++ calls3, ?_, ?_⟩
    · simp [applyHeights, h1, h2, h3]
    have hheight : height + ((n + 1 : Nat) : Int) - 1 = height + 1 + n - 1 := by omega
    rw [hheight]
    exact hr2.trans hr3 (by omega)

/-! ## Queueing -/

structure Enqueued (e e' : HcEvents δ) (ts : TipSet) (events : List (QueuedEvent δ)) : Prop extends Same e e' where
  sound : e'.Sound
  queued : ∀ H, e'.queued H ts.height = e.queued H ts.height ++ events.filter fun event => e.due event = H
  queuedOther : ∀ H O, O ≠ ts.height → e'.queued H O = e.queued H O
  reverts : e'.reverts ts.height = e.reverts ts.height ++ events.map e.due
  revertsOther : ∀ O, O ≠ ts.height → e'.reverts O = e.reverts O

theorem queueForConfidence_spec (hs : e.Sound) (hid : (e.triggers.lookup event.trigger).isSome) :
    ∃ e', e.queueForConfidence event = some e' ∧ Enqueued e e' event.tipset [event] := by
  obtain ⟨trigger, htr⟩ := Option.isSome_iff_exists.mp hid
  have hd : addEpoch event.tipset.height trigger.confidence.toInt = e.due event := by
    simp [due, confidence, htr]
  let h := event.tipset.height
  refine ⟨{ e.setQueued (e.due event) h (e.queued (e.due event) h ++ [event]) with
    revertQueue := e.revertQueue.insert h (e.reverts h ++ [e.due event]) }, ?_, ⟨rfl, rfl, fun _ => rfl, rfl, rfl⟩,
    ⟨hs.fresh, hs.willing, hs.states, hs.msgs, hs.timeouts⟩, ?_, ?_, ?_, ?_⟩
  · simp [queueForConfidence, htr, hd, h]
  · intro H
    show (e.setQueued (e.due event) h (e.queued (e.due event) h ++ [event])).queued H h = _
    by_cases hH : H = e.due event
    · subst hH
      simp [h]
    · rw [queued_setQueued_ne _ _ fun h => hH h.1]
      simp [Ne.symm hH, h]
  · intro H O hO
    exact queued_setQueued_ne _ _ fun h => hO h.2
  · simp [HcEvents.reverts, h]
  · intro O hO
    simp [HcEvents.reverts, h, lookup_insert_ne hO]

variable {events : List (QueuedEvent δ)}

theorem foldlM_queueForConfidence (hs : e.Sound) {ts : TipSet}
    (hev : ∀ event ∈ events, (e.triggers.lookup event.trigger).isSome ∧ event.tipset = ts) :
    ∃ e', events.foldlM queueForConfidence e = some e' ∧ Enqueued e e' ts events := by
  induction events generalizing e with
  | nil => exact ⟨e, rfl, .refl e, hs, by simp, fun _ _ _ => rfl, by simp, fun _ _ => rfl⟩
  | cons event rest ih =>
    obtain ⟨hid, rfl⟩ := hev event mem_cons_self
    obtain ⟨e1, h1, hq1⟩ := queueForConfidence_spec hs hid
    obtain ⟨e2, h2, hq2⟩ := ih hq1.sound fun event' hmem => by
      rw [hq1.triggers]
      exact hev event' (mem_cons_of_mem event hmem)
    refine ⟨e2, by simp [foldlM_cons, h1, h2], hq1.toSame.trans hq2.toSame, hq2.sound, ?_, ?_, ?_, ?_⟩
    · intro H
      rw [hq2.queued, hq1.queued, hq1.due, append_assoc, ← filter_append]
      rfl
    · intro H O hO
      rw [hq2.queuedOther H O hO, hq1.queuedOther H O hO]
    · rw [hq2.reverts, hq1.reverts, hq1.due, append_assoc, ← map_append]
      rfl
    · intro O hO
      rw [hq2.revertsOther O hO, hq1.revertsOther O hO]

theorem matched_registered (hs : e.Sound) (api : EventAPI) (ord : Orders δ) (fromTs toTs : TipSet) :
    ∀ event ∈ e.matched api ord fromTs toTs,
      (e.triggers.lookup event.trigger).isSome ∧ event.tipset = toTs ∧ event.called = false := by
  intro event hev
  rcases mem_append.mp hev with h | h
  · obtain ⟨c, hc, rfl⟩ := mem_map.mp h
    refine ⟨?_, rfl, rfl⟩
    obtain ⟨m, hm, hma⟩ := mem_filterMap.mp ((ord.states.perm _).mem_iff.mp hc)
    have hid : m.1 = c.1 := by
      split at hma
      · exact congrArg Prod.fst (Option.some.inj hma)
      · cases hma
    exact hid ▸ hs.states m hm
  obtain ⟨c, hc, h⟩ := mem_flatMap.mp h
  obtain ⟨msg, -, rfl⟩ := mem_map.mp h
  refine ⟨?_, rfl, rfl⟩
  have hca : ∀ c ∈ (e.checkNewCalls api fromTs).entries, (e.triggers.lookup c.1).isSome := by
    refine foldlRecOn _ _ (motive := fun res : GoMap TriggerID (List Message) =>
      ∀ c ∈ res.entries, (e.triggers.lookup c.1).isSome) (by simp) ?_
    intro res hre msg _
    refine foldlRecOn _ _ (motive := fun res : GoMap TriggerID (List Message) =>
      ∀ c ∈ res.entries, (e.triggers.lookup c.1).isSome) hre ?_
    intro res hre m hm c hc
    split at hc
    · rcases mem_entries_insert hc with rfl | hc
      · exact hs.msgs m hm
      · exact hre c hc
    · exact hre c hc
  exact hca c ((ord.calls.perm _).mem_iff.mp hc)

/-! ## Reverting -/

def revertOf (event : QueuedEvent δ) : Call δ := .revert event.trigger event.tipset

theorem revertEvents_spec (ts : TipSet) (hev : ∀ event ∈ events, (e.triggers.lookup event.trigger).isSome ∧ event.tipset = ts) :
    e.revertEvents ts events = some ((events.filter (·.called)).map revertOf) := by
  induction events with
  | nil => rfl
  | cons event rest ih =>
    have ih := ih fun event' hmem => hev event' (mem_cons_of_mem event hmem)
    obtain ⟨hid, hts⟩ := hev event mem_cons_self
    obtain ⟨trigger, htr⟩ := Option.isSome_iff_exists.mp hid
    cases hcalled : event.called with
    | true => simp [revertEvents, hcalled, htr, ih, revertOf, hts]
    | false => simp [revertEvents, hcalled, ih]

theorem deleteQueued_eq (e : HcEvents δ) (triggerH msgH : Int) :
    ∃ q, e.deleteQueued triggerH msgH = { e with confQueue := q } := by
  unfold deleteQueued
  split
  · exact ⟨e.confQueue, rfl⟩
  · exact ⟨_, rfl⟩

/-- The loop of `Revert` undoes the events under the heights it is given, each once: a height that comes again
has nothing left. -/
theorem revertHeights_spec (heve : ∀ event ∈ events, (e.triggers.lookup event.trigger).isSome ∧ event.tipset = st.ts)
    (hqu : ∀ H, e.queued H st.ts.height = (events.filter fun event => e.due event = H).map (e.marked st))
    (heights : List Int) : ∃ q calls, revertHeights st.ts e heights = some ({ e with confQueue := q }, calls) ∧
      (∀ H, { e with confQueue := q }.queued H st.ts.height =
        (events.filter fun event => decide (e.due event ∉ heights) && decide (e.due event = H)).map (e.marked st)) ∧
      (∀ H O, O ≠ st.ts.height → { e with confQueue := q }.queued H O = e.queued H O) ∧
      calls.Perm ((events.filter fun event => decide (e.due event ∈ heights) && e.reached st event).map revertOf) := by
  induction heights generalizing e events with
  | nil => exact ⟨e.confQueue, [], rfl, by simpa using hqu, fun _ _ _ => rfl, by simp⟩
  | cons triggerH rest ih =>
    let left := events.filter fun event => decide (e.due event ≠ triggerH)
    obtain ⟨q1, hd⟩ := deleteQueued_eq e triggerH st.ts.height
    have hleft : ∀ event ∈ left, (e.triggers.lookup event.trigger).isSome ∧ event.tipset = st.ts :=
      fun event hev => heve event (mem_of_mem_filter hev)
    have hq1 : ∀ H, (e.deleteQueued triggerH st.ts.height).queued H st.ts.height =
        (left.filter fun event => e.due event = H).map (e.marked st) := by
      intro H
      rw [filter_filter]
      by_cases hH : H = triggerH
      · subst hH
        simp
      rw [queued_deleteQueued_ne e fun h => hH h.1, hqu H]
      congr 1
      refine filter_congr fun event _ => ?_
      by_cases h : e.due event = H
      · simp [h, hH]
      · simp [h]
    rw [hd] at hq1
    obtain ⟨q, calls, hrun, hq, ho, hpe⟩ := ih (e := { e with confQueue := q1 }) hleft hq1
    let here := events.filter fun event => decide (e.due event = triggerH) && e.reached st event
    have hfirst : e.revertEvents st.ts (e.queued triggerH st.ts.height) = some (here.map revertOf) := by
      rw [hqu triggerH, revertEvents_spec st.ts, filter_map, map_map, filter_filter]
      · congr 2
        refine filter_congr fun event _ => ?_
        exact and_comm _ _
      · rw [forall_mem_map]
        exact fun event hev => heve event (mem_of_mem_filter hev)
    refine ⟨q, here.map revertOf ++ calls, ?_, ?_, ?_, ?_⟩
    · rw [revertHeights, hfirst, Option.bind_some, hd, hrun]
      rfl
    · intro H
      refine (hq H).trans ?_
      rw [filter_filter]
      congr 1
      refine filter_congr fun event _ => ?_
      show (decide (e.due event ∉ rest) && decide (e.due event = H) && decide (e.due event ≠ triggerH)) = _
      rw [Bool.eq_iff_iff]
      simp
      tauto
    · intro H O hO
      refine (ho H O hO).trans ?_
      rw [← hd]
      exact queued_deleteQueued_ne e fun h => hO h.2
    refine (Perm.append_left _ hpe).trans ?_
    rw [filter_filter, ← map_append]
    refine Perm.map _ (filter_append_perm ?_ ?_)
    · intro event _
      show _ = (decide (e.due event = triggerH) && e.reached st event ||
        decide (e.due event ∈ rest) && e.reached st event && decide (e.due event ≠ triggerH))
      rw [Bool.eq_iff_iff]
      simp
      tauto
    · intro event _
      simp +contextual

end HcEvents
end Lotus.Events

/-
# What a run of notifications calls.

The stays of `Lotus.Events.Stays` are those of the tipsets on the chain, from the head down. A registration leaves them
alone, `Apply` adds one and raises them all, `Revert` takes the last one away.
-/
import Lotus.Events.Stays
import Lotus.Store.Reorg

namespace Lotus.Events
open Lib.Ancestry Lib.Lts Store List HcEvents AList Bool
variable {δ : Type}

def Stay.after (st : Stay δ) (labels : List (HcEvents.Label δ)) : Stay δ := { st with peak := Events.peak st.peak labels }

namespace HcEvents

structure Inv (T : TipSetTree) (e : HcEvents δ) (stays : List (Stay δ)) : Prop where
  sound : e.Sound
  queues : Queues e stays
  mem : T.mem e.lastTs
  branch : ∃ base, Branch T.parent e.lastTs base (stays.map (·.ts))
  prev : ∀ st ∈ stays, T.parent st.ts = some st.prev
  peak : ∀ st ∈ stays, e.lastTs.height ≤ st.peak
  high : ∀ st ∈ stays, ∃ x, T.mem x ∧ st.peak = x.height

variable {T : TipSetTree} {e : HcEvents δ} {stays : List (Stay δ)}
variable {toTs head : TipSet}

theorem new_inv (hhead : T.mem head) : Inv T (new head : HcEvents δ) [] where
  sound := by constructor <;> simp [new]
  queues := by constructor <;> simp [new, queued, reverts]
  mem := hhead
  branch := ⟨head, .nil head⟩
  prev := by simp
  peak := by simp
  high := by simp

variable {st : Stay δ}

theorem Inv.onChain (h : Inv T e stays) (hst : st ∈ stays) : AncOrSelf T.parent st.ts e.lastTs := by
  obtain ⟨base, hb⟩ := h.branch
  exact ((hb.mem_iff T.height_parent).mp (mem_map_of_mem hst)).1

theorem Inv.height_le (h : Inv T e stays) (hst : st ∈ stays) : st.ts.height ≤ e.lastTs.height :=
  (h.onChain hst).height_le T.height_parent

def newStay (e : HcEvents δ) (api : EventAPI) (ord : Orders δ) (toTs : TipSet) : Stay δ :=
  ⟨toTs, e.lastTs, e.matched api ord e.lastTs toTs, e.lastTs.height⟩

variable {e' : HcEvents δ}

theorem Enqueued.queues (st : Stay δ) (hq : Queues e stays) (h : Enqueued e e' st.ts st.events)
    (hnew : ∀ st' ∈ stays, st'.ts.height < st.ts.height) (hpe : st.peak ≤ st.prev.height)
    (heve : ∀ event ∈ st.events, (e.triggers.lookup event.trigger).isSome ∧ event.tipset = st.ts ∧ event.called = false) :
    Queues e' (st :: stays) := by
  have hidle := hq.idle st.ts.height fun st' hst' => (hnew st' hst').ne
  have hn := hq.noReverts st.ts.height fun st' hst' => (hnew st' hst').ne
  constructor
  · rw [forall_mem_cons]
    refine ⟨fun H => ?_, fun st' hst' H => ?_⟩
    · rw [h.queued, hidle, nil_append, h.due, h.marked]
      -- nothing is reached as long as the head is that of the parent
      refine ((map_congr_left fun event hev => ?_).trans (map_id _)).symm
      have hcalled := (heve event (mem_of_mem_filter hev)).2.2
      have hno : e.reached st event = false := by
        unfold reached
        rw [and_eq_false_iff, and_eq_false_iff, decide_eq_false_iff_not, decide_eq_false_iff_not]
        omega
      cases event
      simp_all [marked]
    · rw [h.queuedOther H _ (hnew st' hst').ne, hq.queued st' hst', h.due, h.marked]
  · intro O hO H
    rw [forall_mem_cons] at hO
    rw [h.queuedOther H O hO.1.symm]
    exact hq.idle O hO.2 H
  · rw [forall_mem_cons]
    refine ⟨?_, fun st' hst' => ?_⟩
    · rw [h.reverts, hn, nil_append, h.due]
    · rw [h.revertsOther _ (hnew st' hst').ne, hq.reverts st' hst', h.due]
  · intro O hO
    rw [forall_mem_cons] at hO
    rw [h.revertsOther O hO.1.symm]
    exact hq.noReverts O hO.2
  · rw [forall_mem_cons]
    refine ⟨fun event hev => ?_, fun st' hst' event hev => ?_⟩
    · rw [h.triggers]
      exact ⟨(heve event hev).1, (heve event hev).2.1⟩
    · rw [h.triggers]
      exact hq.events st' hst' event hev
  simp only [forall_mem_cons]
  refine ⟨⟨fun _ => trivial, fun st' hst' heq => absurd heq (hnew st' hst').ne'⟩, fun st' hst' => ⟨fun heq => ?_, ?_⟩⟩
  · exact absurd heq (hnew st' hst').ne
  · exact hq.distinct st' hst'

theorem Inv.apply (h : Inv T e stays) (api : EventAPI) (ord : Orders δ) (hmem : T.mem toTs)
    (hpa : T.parent toTs = some e.lastTs) :
    ∃ e' calls, e.apply api ord e.lastTs toTs = some (e', calls) ∧ e'.lastTs = toTs ∧
      (∀ id, e'.triggers.lookup id = e.triggers.lookup id) ∧
      Inv T e' ((e.newStay api ord toTs :: stays).map (Stay.raise toTs.height)) ∧
      (∀ st ∈ e.newStay api ord toTs :: stays, (handledOf st.ts calls).Perm ((e.between st toTs.height).map e.callOf)) ∧
      ∀ c ∈ calls, (∃ id ts h, c = .timeout id ts h) ∨
        ∃ st ∈ e.newStay api ord toTs :: stays, ∃ event ∈ st.events, c = e.callOf event := by
  have hlt : e.lastTs.height < toTs.height := T.height_parent toTs e.lastTs hpa
  have hm := matched_registered h.sound api ord e.lastTs toTs
  obtain ⟨e1, h1, hq1⟩ := foldlM_queueForConfidence h.sound fun event hev =>
    ⟨(hm event hev).1, (hm event hev).2.1⟩
  have hq : Queues e1 (e.newStay api ord toTs :: stays) :=
    Enqueued.queues (e.newStay api ord toTs) h.queues hq1 (fun st hst => (h.height_le hst).trans_lt hlt) le_rfl hm
  have hprev : ∀ st ∈ e.newStay api ord toTs :: stays, st.prev.height < e.lastTs.height + 1 := by
    rw [forall_mem_cons]
    refine ⟨Int.lt_succ _, fun st hst => ?_⟩
    have := T.height_parent st.ts st.prev (h.prev st hst)
    have := h.height_le hst
    omega
  have hpe : ∀ st ∈ e.newStay api ord toTs :: stays, e.lastTs.height + 1 ≤ st.peak + 1 := by
    rw [forall_mem_cons]
    refine ⟨le_rfl, fun st hst => ?_⟩
    have := h.peak st hst
    omega
  obtain ⟨e2, calls, h2, hr⟩ := applyHeights_raised hq1.sound hq api ord toTs (toTs.height - e.lastTs.height).toNat hprev hpe
  have hheight : e.lastTs.height + 1 + ((toTs.height - e.lastTs.height).toNat : Int) - 1 = toTs.height := by omega
  rw [hheight] at hr
  refine ⟨{ e2 with lastTs := toTs }, calls, by simp [HcEvents.apply, h1, h2], rfl, ?_, ?_, ?_, ?_⟩
  · exact fun id => (hr.triggers id).trans (hq1.triggers id)
  · refine ⟨?_, ?_, hmem, ?_, ?_, ?_, ?_⟩
    · exact ⟨hr.sound.fresh, hr.sound.willing, hr.sound.states, hr.sound.msgs, hr.sound.timeouts⟩
    · exact ⟨hr.queues.queued, hr.queues.idle, hr.queues.reverts, hr.queues.noReverts, hr.queues.events, hr.queues.distinct⟩
    · obtain ⟨base, hb⟩ := h.branch
      refine ⟨base, ?_⟩
      rw [map_map]
      exact .cons hpa hb
    · rw [forall_mem_map, forall_mem_cons]
      exact ⟨hpa, h.prev⟩
    · rw [forall_mem_map]
      exact fun st _ => le_max_right _ _
    rw [forall_mem_map]
    intro st hst
    have hh : ∃ x, T.mem x ∧ st.peak = x.height := by
      rcases mem_cons.mp hst with rfl | hst
      · exact ⟨e.lastTs, h.mem, rfl⟩
      · exact h.high st hst
    rcases le_total st.peak toTs.height with hle | hle
    · exact ⟨toTs, hmem, max_eq_right hle⟩
    · simpa [Stay.raise, max_eq_left hle] using hh
  · intro st hst
    have := hr.handled st hst
    rwa [hq1.callOf, hq1.between] at this
  intro c hc
  have := hr.only c hc
  rwa [hq1.callOf] at this

/-- `Revert` leaves nothing for the height of the tipset, in either map, and all else. -/
structure Closed (e e' : HcEvents δ) (toTs : TipSet) (height : Int) : Prop where
  lastTs : e'.lastTs = toTs
  triggers : e'.triggers = e.triggers
  sound : e'.Sound
  queued : ∀ H, e'.queued H height = []
  queuedOther : ∀ H O, O ≠ height → e'.queued H O = e.queued H O
  reverts : e'.reverts height = []
  revertsOther : ∀ O, O ≠ height → e'.reverts O = e.reverts O

theorem revert_closed (st : Stay δ) (hs : e.Sound)
    (heve : ∀ event ∈ st.events, (e.triggers.lookup event.trigger).isSome ∧ event.tipset = st.ts)
    (hqu : ∀ H, e.queued H st.ts.height = (st.events.filter fun event => e.due event = H).map (e.marked st))
    (hre : e.reverts st.ts.height = st.events.map e.due) (toTs : TipSet) :
    ∃ e' calls, e.revert st.ts toTs = some (e', calls) ∧ Closed e e' toTs st.ts.height ∧
      calls.Perm ((st.events.filter (e.reached st)).map revertOf) := by
  rcases hlk : e.revertQueue.lookup st.ts.height with _ | heights
  · have hn : st.events = [] := by
      have : e.reverts st.ts.height = [] := by simp [reverts, hlk]
      rw [this] at hre
      exact map_eq_nil_iff.mp hre.symm
    refine ⟨{ e with lastTs := toTs }, [], by simp [revert, hlk], ?_, by simp [hn]⟩
    refine ⟨rfl, rfl, ⟨hs.fresh, hs.willing, hs.states, hs.msgs, hs.timeouts⟩, ?_, fun _ _ _ => rfl, ?_, fun _ _ => rfl⟩
    · intro H
      refine (hqu H).trans ?_
      simp [hn]
    · simp [reverts, hlk]
  have hh : heights = st.events.map e.due := by
    rw [← hre]
    simp [reverts, hlk]
  obtain ⟨q, calls, hrun, hq, ho, hpe⟩ := revertHeights_spec heve hqu heights
  -- every event is due at one of the heights
  have hmem : ∀ event ∈ st.events, e.due event ∈ heights := by
    intro event hev
    rw [hh]
    exact mem_map_of_mem hev
  let e' : HcEvents δ :=
    { e with confQueue := q, revertQueue := e.revertQueue.erase st.ts.height, lastTs := toTs }
  refine ⟨e', calls, by simp [revert, hlk, hrun, e'], ?_, ?_⟩
  · refine ⟨rfl, rfl, ⟨hs.fresh, hs.willing, hs.states, hs.msgs, hs.timeouts⟩, ?_, ho, ?_, ?_⟩
    · intro H
      refine (hq H).trans ?_
      rw [map_eq_nil_iff, filter_eq_nil_iff]
      intro event hev
      simp [hmem event hev]
    · simp [reverts, e']
    · intro O hO
      simp [reverts, e', lookup_erase_ne hO]
  · refine hpe.trans (List.Perm.of_eq (congrArg _ (filter_congr fun event hev => ?_)))
    simp [hmem event hev]

variable {height : Int}

theorem Closed.queues {rest : List (Stay δ)} (h : Closed e e' toTs height) (hq : Queues e stays)
    (hrest : ∀ st ∈ rest, st ∈ stays ∧ st.ts.height ≠ height) (ha : ∀ st ∈ stays, st.ts.height = height ∨ st ∈ rest) :
    Queues e' rest := by
  have htr : ∀ id, e'.triggers.lookup id = e.triggers.lookup id := fun id => by rw [h.triggers]
  have hd : e'.due = e.due := by
    funext event
    simp [due, confidence, htr]
  have hm : e'.marked = e.marked := by
    funext st event
    simp [marked, reached, live, hd, htr]
  have hn : ∀ O, O ≠ height → (∀ st ∈ rest, st.ts.height ≠ O) → ∀ st ∈ stays, st.ts.height ≠ O := by
    intro O hO hO' st hst
    rcases ha st hst with heq | hst
    · exact fun h => hO (h.symm.trans heq)
    · exact hO' st hst
  constructor
  · intro st hst H
    rw [h.queuedOther H _ (hrest st hst).2, hq.queued st (hrest st hst).1, hd, hm]
  · intro O hO H
    by_cases hheight : O = height
    · rw [hheight, h.queued]
    · rw [h.queuedOther H O hheight]
      exact hq.idle O (hn O hheight hO) H
  · intro st hst
    rw [h.revertsOther _ (hrest st hst).2, hq.reverts st (hrest st hst).1, hd]
  · intro O hO
    by_cases hheight : O = height
    · rw [hheight, h.reverts]
    · rw [h.revertsOther O hheight]
      exact hq.noReverts O (hn O hheight hO)
  · intro st hst
    rw [h.triggers]
    exact hq.events st (hrest st hst).1
  · intro st hst st' hst'
    exact hq.distinct st (hrest st hst).1 st' (hrest st' hst').1

theorem Inv.revert (h : Inv T e stays) (hpa : T.parent e.lastTs = some toTs) :
    ∃ e' calls, e.revert e.lastTs toTs = some (e', calls) ∧ e'.lastTs = toTs ∧
      (∀ id, e'.triggers.lookup id = e.triggers.lookup id) ∧
      ((stays = [] ∧ calls = [] ∧ Inv T e' []) ∨
        ∃ st rest, stays = st :: rest ∧ st.ts = e.lastTs ∧ Inv T e' rest ∧
          calls.Perm ((st.events.filter (e.reached st)).map revertOf)) := by
  have hmem := T.parent_mem e.lastTs toTs hpa
  obtain ⟨base, hb⟩ := h.branch
  rcases stays with _ | ⟨st, rest⟩
  · -- a tipset from before the run: the code finds nothing for its height
    let st : Stay δ := ⟨e.lastTs, toTs, [], 0⟩
    obtain ⟨e', calls, h', hcl, hpe⟩ := revert_closed st h.sound (by simp [st])
      (fun H => h.queues.idle _ (by simp) H) (h.queues.noReverts _ (by simp)) toTs
    have hq : Queues e' [] := hcl.queues h.queues (by simp) (by simp)
    refine ⟨e', calls, h', hcl.lastTs, fun id => by rw [hcl.triggers], .inl ⟨rfl, ?_, ?_⟩⟩
    · simpa [st] using hpe
    · exact ⟨hcl.sound, hq, hcl.lastTs ▸ hmem, ⟨toTs, by rw [hcl.lastTs]; exact .nil toTs⟩, by simp, by simp, by simp⟩
  obtain ⟨hts, p, hp, hta⟩ := hb.cons_inv
  replace hts : st.ts = e.lastTs := hts
  obtain rfl : p = toTs := Option.some.inj (hp.symm.trans hpa)
  have hst := mem_cons_self (a := st) (l := rest)
  have hlo : ∀ st' ∈ rest, st'.ts.height < e.lastTs.height := by
    intro st' hst'
    have hanc := ((hta.mem_iff T.height_parent).mp (mem_map_of_mem hst')).1
    exact (hanc.height_le T.height_parent).trans_lt (T.height_parent _ _ hp)
  obtain ⟨e', calls, h', hcl, hpe⟩ := revert_closed st h.sound (h.queues.events st hst)
    (h.queues.queued st hst) (h.queues.reverts st hst) p
  rw [hts] at h' hcl
  have hq : Queues e' rest := hcl.queues h.queues (fun st' hst' => ⟨mem_cons_of_mem st hst', (hlo st' hst').ne⟩)
    (forall_mem_cons.mpr ⟨.inl (congrArg _ hts), fun st' hst' => .inr hst'⟩)
  refine ⟨e', calls, h', hcl.lastTs, fun id => by rw [hcl.triggers], .inr ⟨st, rest, rfl, hts, ?_, hpe⟩⟩
  refine ⟨hcl.sound, hq, hcl.lastTs ▸ hmem, ⟨base, hcl.lastTs ▸ hta⟩, ?_, ?_, ?_⟩
  · exact fun st' hst' => h.prev st' (mem_cons_of_mem st hst')
  · intro st' hst'
    rw [hcl.lastTs]
    have := T.height_parent _ _ hp
    have := h.peak st' (mem_cons_of_mem st hst')
    omega
  · exact fun st' hst' => h.high st' (mem_cons_of_mem st hst')

/-! ## Steps and runs -/

def Extends (e e' : HcEvents δ) : Prop :=
  ∀ id, (e.triggers.lookup id).isSome → e'.triggers.lookup id = e.triggers.lookup id

theorem Extends.trans {e1 e2 e3 : HcEvents δ} (h : Extends e1 e2) (h' : Extends e2 e3) : Extends e1 e3 := by
  intro id hid
  rw [h' id (by rw [h id hid]; exact hid), h id hid]

section
variable {e' : HcEvents δ} {event : QueuedEvent δ} (h : Extends e e') (hid : (e.triggers.lookup event.trigger).isSome)

include h hid

theorem Extends.due : e'.due event = e.due event := by
  simp [HcEvents.due, confidence, h _ hid]

theorem Extends.live : e'.live event = e.live event := by
  simp [HcEvents.live, h _ hid]

theorem Extends.callOf : e'.callOf event = e.callOf event := by
  simp [HcEvents.callOf, h.due hid]

theorem Extends.reached (st : Stay δ) : e'.reached st event = e.reached st event := by
  simp [HcEvents.reached, h.due hid, h.live hid]
end

theorem Extends.queues (h : Extends e e') (hco : e'.confQueue = e.confQueue) (hrev : e'.revertQueue = e.revertQueue)
    (hq : Queues e stays) : Queues e' stays := by
  have hqu : e'.queued = e.queued := by
    funext H O
    simp [queued, hco]
  have hre : e'.reverts = e.reverts := by
    funext O
    simp [reverts, hrev]
  constructor
  · intro st hst H
    rw [hqu, hq.queued st hst H]
    have hfi : (st.events.filter fun event => e'.due event = H) = st.events.filter fun event => e.due event = H :=
      filter_congr fun event hev => by rw [h.due (hq.events st hst event hev).1]
    rw [hfi]
    refine map_congr_left fun event hev => ?_
    simp [marked, h.reached (hq.events st hst event (mem_of_mem_filter hev)).1]
  · rw [hqu]
    exact hq.idle
  · intro st hst
    rw [hre, hq.reverts st hst]
    exact map_congr_left fun event hev => (h.due (hq.events st hst event hev).1).symm
  · rw [hre]
    exact hq.noReverts
  · intro st hst event hev
    obtain ⟨hid, hts⟩ := hq.events st hst event hev
    exact ⟨by rw [h _ hid]; exact hid, hts⟩
  · exact hq.distinct

theorem Inv.onHeadChanged (h : Inv T e stays) (check : TipSet → Except GoError (Bool × Bool))
    {hnd : Option (EventData δ) → Option TipSet → Option TipSet → Int → Except GoError Bool}
    (hwi : ∀ data prevTs ts curH, hnd data prevTs ts curH = .ok true) (confidence : Int64) (timeout : Int) :
    Inv T (e.onHeadChanged check hnd confidence timeout).1 stays ∧
      Extends e (e.onHeadChanged check hnd confidence timeout).1 ∧
      (e.onHeadChanged check hnd confidence timeout).1.lastTs = e.lastTs := by
  unfold HcEvents.onHeadChanged
  split
  case h_1 => exact ⟨h, fun _ _ => rfl, rfl⟩
  case h_2 done more _ =>
    have hext : ∀ id, (e.triggers.lookup id).isSome → id ≠ e.ctr := by
      rintro id hid rfl
      rw [h.sound.fresh _ le_rfl] at hid
      cases hid
    have hold : ∀ (v : HandlerInfo δ) id, (e.triggers.lookup id).isSome →
        (e.triggers.insert e.ctr v).lookup id = e.triggers.lookup id :=
      fun v id hid => lookup_insert_ne (hext id hid)
    refine ⟨⟨?_, ?_, h.mem, h.branch, h.prev, h.peak, h.high⟩, hold _, rfl⟩
    · constructor
      · intro id hid
        have hlt : e.ctr < id := hid
        exact (lookup_insert_ne hlt.ne').trans (h.sound.fresh id hlt.le)
      · intro id trigger hid
        rcases GoMap.lookup_insert_some hid with ⟨rfl, rfl⟩ | ⟨-, hid⟩
        · exact hwi
        · exact h.sound.willing id trigger hid
      · intro m hm
        rw [hold _ _ (h.sound.states m hm)]
        exact h.sound.states m hm
      · intro m hm
        rw [hold _ _ (h.sound.msgs m hm)]
        exact h.sound.msgs m hm
      intro H touts hH t ht
      have hca : t.1 = e.ctr ∨ (e.triggers.lookup t.1).isSome := by
        dsimp only at hH
        generalize (if done = true then noTimeout else timeout) = set at hH
        split at hH
        · exact setTimeout_registered h.sound hH t ht
        · exact .inr (h.sound.timeouts H touts hH t ht)
      rcases hca with heq | hid
      · rw [heq]
        exact Option.isSome_iff_exists.mpr ⟨_, lookup_insert _⟩
      · rw [hold _ _ hid]
        exact hid
    · exact Extends.queues (hold _) rfl rfl h.queues

def Grounded (T : TipSetTree) (a : Label δ) (e' : HcEvents δ) (calls : List (Call δ)) : Prop :=
  ∀ c ∈ calls, match c with
    | .handle _ _ _ ts _ => AncOrSelf T.parent ts e'.lastTs
    | .revert _ ts => ∃ toTs, a = .revert ts toTs
    | .timeout _ _ _ => True

variable (e st) in
structure Continues (a : Label δ) (calls : List (Call δ)) (stays' : List (Stay δ)) :
    Prop where
  mem : st.after [a] ∈ stays'
  handled : (handledOf st.ts calls).Perm ((e.between st (st.after [a]).peak).map e.callOf)
  reverted : revertedOf st.ts calls = []

variable {a : Label δ}

theorem Continues.silent (hst : st ∈ stays) (hpe : (st.after [a]).peak = st.peak) : Continues e st a [] stays where
  mem := by
    have : st.after [a] = st := by
      rw [Stay.after]
      congr 1
    rwa [this]
  handled := by
    have hn : e.between st (st.after [a]).peak = [] := by
      refine filter_eq_nil_iff.mpr fun event _ => ?_
      rw [hpe]
      simp only [and_eq_true, decide_eq_true_eq]
      omega
    rw [hn]
    exact .refl _
  reverted := rfl

theorem between_max (e : HcEvents δ) (st : Stay δ) (height : Int) :
    e.between st (max st.peak height) = e.between st height := by
  refine filter_congr fun event _ => ?_
  congr 1
  rw [decide_eq_decide]
  omega

/-- **Steps.**  Every step along a path of the tree can be taken, keeps the invariant, and continues the stays
that it does not end. -/
theorem Inv.step (h : Inv T e stays) (api : EventAPI) (ha : Path T e a) :
    ∃ e' calls stays', e.step api a = some (e', calls) ∧ Inv T e' stays' ∧ Extends e e' ∧ Grounded T a e' calls ∧
      ∀ st ∈ stays, (∀ toTs, a ≠ .revert st.ts toTs) → Continues e st a calls stays' := by
  cases a with
  | onHeadChanged check hnd confidence timeout =>
    obtain ⟨hinv, hext, -⟩ := h.onHeadChanged check ha confidence timeout
    exact ⟨_, [], stays, rfl, hinv, hext, by simp [Grounded], fun st hst _ => .silent hst rfl⟩
  | stateMatcher id mf =>
    refine ⟨_, [], stays, rfl, ?_, fun _ _ => rfl, by simp [Grounded], fun st hst _ => .silent hst rfl⟩
    refine ⟨⟨h.sound.fresh, h.sound.willing, ?_, h.sound.msgs, h.sound.timeouts⟩, ?_, h.mem, h.branch, h.prev, h.peak, h.high⟩
    · intro m hm
      rcases mem_entries_insert hm with rfl | hm
      · exact ha
      · exact h.sound.states m hm
    · exact Extends.queues (e := e) (fun _ _ => rfl) rfl rfl h.queues
  | msgMatcher id mf =>
    refine ⟨_, [], stays, rfl, ?_, fun _ _ => rfl, by simp [Grounded], fun st hst _ => .silent hst rfl⟩
    refine ⟨⟨h.sound.fresh, h.sound.willing, h.sound.states, ?_, h.sound.timeouts⟩, ?_, h.mem, h.branch, h.prev, h.peak, h.high⟩
    · intro m hm
      rcases mem_entries_insert hm with rfl | hm
      · exact ha
      · exact h.sound.msgs m hm
    · exact Extends.queues (e := e) (fun _ _ => rfl) rfl rfl h.queues
  | apply ord fromTs toTs =>
    obtain ⟨rfl, hmem, hpa⟩ := ha
    obtain ⟨e', calls, h', hla, htr, hinv, hh, ho⟩ := h.apply api ord hmem hpa
    refine ⟨e', calls, _, h', hinv, fun id _ => htr id, ?_, ?_⟩
    · intro c hc
      rcases ho c hc with ⟨id, ts, height, rfl⟩ | ⟨st, hst, event, hev, rfl⟩
      · trivial
      have hst' := mem_map_of_mem (f := Stay.raise toTs.height) hst
      show AncOrSelf T.parent event.tipset e'.lastTs
      rw [(hinv.queues.events _ hst' event hev).2]
      exact hinv.onChain hst'
    intro st hst _
    refine ⟨?_, ?_, ?_⟩
    · exact mem_map_of_mem (f := Stay.raise toTs.height) (mem_cons_of_mem _ hst)
    · rw [show (st.after [.apply ord e.lastTs toTs]).peak = max st.peak toTs.height from rfl, between_max]
      exact hh st (mem_cons_of_mem _ hst)
    · refine filter_eq_nil_iff.mpr fun c hc => ?_
      rcases ho c hc with ⟨id, ts, height, rfl⟩ | ⟨st, hst, event, hev, rfl⟩ <;> simp [callOf]
  | revert fromTs toTs =>
    obtain ⟨rfl, hpa⟩ := ha
    obtain ⟨e', calls, h', hla, htr, hca⟩ := h.revert hpa
    rcases hca with ⟨rfl, rfl, hinv⟩ | ⟨st, rest, rfl, hts, hinv, hpe⟩
    · exact ⟨e', [], [], h', hinv, fun id _ => htr id, by simp [Grounded], by simp⟩
    -- all calls are about the tipset that is reverted
    have hcal : ∀ c ∈ calls, ∃ id, c = .revert id e.lastTs := by
      intro c hc
      obtain ⟨event, hev, rfl⟩ := mem_map.mp (hpe.mem_iff.mp hc)
      have htipset := (h.queues.events st mem_cons_self event (mem_of_mem_filter hev)).2
      exact ⟨event.trigger, by rw [revertOf, htipset, hts]⟩
    refine ⟨e', calls, rest, h', hinv, fun id _ => htr id, ?_, ?_⟩
    · intro c hc
      obtain ⟨id, rfl⟩ := hcal c hc
      exact ⟨toTs, rfl⟩
    intro st' hst' hne
    have hne : st'.ts ≠ e.lastTs := fun heq => hne toTs (by rw [heq])
    have hrest : st' ∈ rest := by
      rcases mem_cons.mp hst' with rfl | hst'
      · exact absurd hts hne
      · exact hst'
    have hh : handledOf st'.ts calls = [] := by
      refine filter_eq_nil_iff.mpr fun c hc => ?_
      obtain ⟨id, rfl⟩ := hcal c hc
      simp
    have hre : revertedOf st'.ts calls = [] := by
      refine filter_eq_nil_iff.mpr fun c hc => ?_
      obtain ⟨id, rfl⟩ := hcal c hc
      simpa using hne.symm
    have hsi : Continues e st' (.revert e.lastTs toTs) [] rest := .silent hrest rfl
    exact ⟨hsi.mem, hh ▸ hsi.handled, hre⟩

theorem after_append (st : Stay δ) (labels : List (Label δ)) (a : Label δ) :
    st.after (labels ++ [a]) = (st.after labels).after [a] := by
  simp [Stay.after, Events.peak]

theorem le_peak (h : Int) (labels : List (Label δ)) : h ≤ Events.peak h labels := by
  refine List.foldlRecOn _ _ (motive := fun m => h ≤ m) le_rfl ?_
  intro m hm a _
  cases a <;> first | exact hm | exact le_max_of_le_left hm

theorem reached_after (e : HcEvents δ) (hprev : st.prev.height ≤ st.peak) (labels : List (Label δ)) :
    (st.events.filter (e.reached st) ++ e.between st (st.after labels).peak).Perm
      (st.events.filter (e.reached (st.after labels))) := by
  have hle : st.peak ≤ (st.after labels).peak := le_peak st.peak labels
  apply filter_append_perm
  · intro event _
    unfold reached
    cases e.live event
    · simp
    rw [Bool.eq_iff_iff, show (st.after labels).prev = st.prev from rfl]
    simp
    omega
  intro event _
  unfold reached
  simp
  omega

theorem between_eq_reached (hpe : st.peak = st.prev.height) (hle : st.peak ≤ height) :
    e.between st height = st.events.filter (e.reached (st.raise height)) := by
  refine filter_congr fun event _ => ?_
  unfold reached Stay.raise
  rw [Bool.eq_iff_iff]
  simp [← hpe, max_eq_right hle]

variable (T e st) in
structure Tracked (labels : List (Label δ)) (e' : HcEvents δ)
    (calls : List (Call δ)) : Prop where
  ext : Extends e e'
  stay : ∃ stays, Inv T e' stays ∧ st.after labels ∈ stays
  handled : (handledOf st.ts calls).Perm ((st.events.filter (e.reached (st.after labels))).map e.callOf)
  reverted : revertedOf st.ts calls = []

variable {labels : List (Label δ)}

theorem Tracked.step {calls : List (Call δ)} (h : Tracked T e st labels e' calls)
    (heve : ∀ event ∈ st.events, (e.triggers.lookup event.trigger).isSome) (hprev : st.prev.height ≤ st.peak)
    (api : EventAPI) (ha : Path T e' a) (hne : ∀ toTs, a ≠ .revert st.ts toTs) :
    ∃ e'' calls', e'.step api a = some (e'', calls') ∧ Tracked T e st (labels ++ [a]) e'' (calls ++ calls') := by
  obtain ⟨stays, hinv, hmem⟩ := h.stay
  obtain ⟨e'', calls', stays', hst, hi', hext, -, hco⟩ := hinv.step api ha
  have hc := hco _ hmem hne
  refine ⟨e'', calls', hst, h.ext.trans hext, ⟨stays', hi', ?_⟩, ?_, ?_⟩
  · rw [after_append]
    exact hc.mem
  · -- the events of the stay are the same to both states
    have hb : ∀ height, (e'.between (st.after labels) height).map e'.callOf =
        (e.between (st.after labels) height).map e.callOf := by
      intro height
      have hfi : e'.between (st.after labels) height = e.between (st.after labels) height :=
        filter_congr fun event hev => by
          rw [h.ext.due (heve event hev), h.ext.live (heve event hev)]
      rw [hfi]
      exact map_congr_left fun event hev => h.ext.callOf (heve event (mem_of_mem_filter hev))
    have hlo : (st.after labels).prev.height ≤ (st.after labels).peak := hprev.trans (le_peak st.peak labels)
    rw [handledOf_append, after_append]
    refine (h.handled.append (hc.handled.trans (.of_eq (hb _)))).trans ?_
    rw [← map_append]
    exact (reached_after e hlo [a]).map _
  · rw [revertedOf, filter_append, ← revertedOf, ← revertedOf, h.reverted]
    exact hc.reverted

theorem run_inv (hhead : T.mem head) (api : EventAPI) (hleg : Legal (forget (step api)) (Path T) (new head) labels) :
    ∃ e calls, runOut (step api) (new head) labels = some (e, calls) ∧ ∃ stays, Inv T e stays := by
  refine runOut_legal (P := fun _ e _ => ∃ stays, Inv T e stays) (l := []) (w := []) ?_ ⟨[], new_inv hhead⟩ hleg
  rintro _ e _ a _ ⟨stays, hinv⟩ ha
  obtain ⟨e', calls, stays', hst, hi', -⟩ := hinv.step api ha
  exact ⟨e', calls, hst, stays', hi'⟩

/-! ## Heights without overflow -/

section
variable (e : HcEvents δ) (event : QueuedEvent δ)

def dueAt : Int := event.tipset.height + e.confidence event

theorem confidence_bounds :
    -2 ^ 63 ≤ e.confidence event ∧ e.confidence event < 2 ^ 63 := by
  unfold confidence
  cases e.triggers.lookup event.trigger with
  | none => simp
  | some trigger => exact ⟨trigger.confidence.le_toInt, trigger.confidence.toInt_lt⟩

theorem due_eq_or_neg (hlo : 0 ≤ event.tipset.height)
    (hh : event.tipset.height < 2 ^ 63) : e.due event = e.dueAt event ∨ e.due event < 0 ∧ 2 ^ 63 ≤ e.dueAt event := by
  have hco := e.confidence_bounds event
  unfold due dueAt addEpoch
  by_cases h : event.tipset.height + e.confidence event < 2 ^ 63
  · exact .inl (Int.bmod_eq_of_le (by omega) (by omega))
  refine .inr ⟨?_, by omega⟩
  have hwr : (event.tipset.height + e.confidence event).bmod (2 ^ 64) = event.tipset.height + e.confidence event - 2 ^ 64 := by
    rw [← Int.sub_bmod_right]
    exact Int.bmod_eq_of_le (by omega) (by omega)
  omega
end

/-- The events matched at the application of a tipset on `fromTs` that the head has reached since, and whose handler takes
events. -/
def reachedIn (e : HcEvents δ) (api : EventAPI) (ord : Orders δ) (fromTs ts : TipSet) (mid : List (Label δ)) :
    List (QueuedEvent δ) :=
  (e.matched api ord fromTs ts).filter fun event =>
    decide (fromTs.height < e.dueAt event ∧ e.dueAt event ≤ Events.peak ts.height mid) && e.live event

variable {event : QueuedEvent δ}

section
variable (htipset : event.tipset = st.ts) (hts : 0 ≤ st.ts.height ∧ st.ts.height < 2 ^ 63) (hprev : 0 ≤ st.prev.height)
include htipset hts hprev

theorem reached_iff_dueAt (hpe : st.peak < 2 ^ 63) : e.reached st event =
      (decide (st.prev.height < e.dueAt event ∧ e.dueAt event ≤ st.peak) && e.live event) := by
  have hd := e.due_eq_or_neg event (htipset ▸ hts.1) (htipset ▸ hts.2)
  unfold reached
  cases e.live event
  · simp
  rw [Bool.eq_iff_iff]
  simp
  omega

theorem callOf_of_reached (h : e.reached st event = true) :
    e.callOf event = .handle event.trigger event.data event.prevTipset st.ts (e.dueAt event) := by
  have hd := e.due_eq_or_neg event (htipset ▸ hts.1) (htipset ▸ hts.2)
  have hlt : st.prev.height < e.due event := by
    simp only [reached, and_eq_true, decide_eq_true_eq] at h
    exact h.1.1
  rw [callOf, htipset, hd.resolve_right (by omega)]
end

/-- **Events are handled once in each stay and undone when it ends.** Until the revert of `ts` the handlers called for its
events are, each once, those of the matched events whose height has been reached; the revert undoes exactly those. -/
theorem events_once_per_stay (T : TipSetTree) (hheights : ∀ ts, T.mem ts → 0 ≤ ts.height ∧ ts.height < 2 ^ 63)
    (api : EventAPI) (head : TipSet) (hhead : T.mem head) : (∀ (labels : List (Label δ)) (a : Label δ),
      Legal (forget (step api)) (Path T) (new head) (labels ++ [a]) →
      ∃ e calls0 e' calls, runOut (step api) (new head) labels = some (e, calls0) ∧
        e.step api a = some (e', calls) ∧ Grounded T a e' calls) ∧
    ∀ (pre mid : List (Label δ)) (ord : Orders δ) (fromTs ts : TipSet),
      Legal (forget (step api)) (Path T) (new head) (pre ++ .apply ord fromTs ts :: mid) →
      (∀ toTs, .revert ts toTs ∉ mid) →
      ∃ e calls0 e' calls, runOut (step api) (new head) pre = some (e, calls0) ∧
        runOut (step api) e (.apply ord fromTs ts :: mid) = some (e', calls) ∧
        (handledOf ts calls).Perm ((e.reachedIn api ord fromTs ts mid).map
          fun event => .handle event.trigger event.data event.prevTipset ts (e.dueAt event)) ∧
        revertedOf ts calls = [] ∧
        ∀ toTs, e'.lastTs = ts → T.parent ts = some toTs →
          ∃ e'' undone, e'.step api (.revert ts toTs) = some (e'', undone) ∧
            undone.Perm ((e.reachedIn api ord fromTs ts mid).map fun event => .revert event.trigger ts) := by
  refine ⟨?_, ?_⟩
  · intro labels a hleg
    obtain ⟨hpr, hla⟩ := legal_append hleg
    obtain ⟨e, calls0, hrun, stays, hinv⟩ := run_inv hhead api hpr
    obtain ⟨e', calls, -, hst, -, -, hg, -⟩ := hinv.step api (hla e calls0 hrun).1
    exact ⟨e, calls0, e', calls, hrun, hst, hg⟩
  intro pre mid ord fromTs ts hleg hstay
  obtain ⟨hpr, hla⟩ := legal_append hleg
  obtain ⟨e, calls0, hrun, stays, hinv⟩ := run_inv hhead api hpr
  obtain ⟨⟨rfl, hts, hpa⟩, hm⟩ := hla e calls0 hrun
  -- the application opens the stay
  obtain ⟨e1, calls1, h1, -, htri, hi1, hh1, ho1⟩ := hinv.apply api ord hts hpa
  let st : Stay δ := (e.newStay api ord ts).raise ts.height
  have hlt := T.height_parent ts e.lastTs hpa
  have hp0 : st.peak = ts.height := max_eq_right hlt.le
  have hma := matched_registered hinv.sound api ord e.lastTs ts
  have hb : Tracked T e st [] e1 calls1 := by
    refine ⟨fun id _ => htri id, ⟨_, hi1, mem_map_of_mem mem_cons_self⟩, ?_, ?_⟩
    · have hrc : e.between (e.newStay api ord ts) ts.height = st.events.filter (e.reached st) :=
        between_eq_reached rfl hlt.le
      have hh := hh1 _ mem_cons_self
      rw [hrc] at hh
      exact hh
    · refine filter_eq_nil_iff.mpr fun c hc => ?_
      rcases ho1 c hc with ⟨id, ts', height, rfl⟩ | ⟨st', hst', event, hev, rfl⟩ <;> simp [callOf]
  obtain ⟨e', calls, hrun', htra⟩ := runOut_legal (P := fun l e' w => Tracked T e st l e' (calls1 ++ w))
    (l := []) (w := []) (fun l e' w a hmem htr ha => by
      obtain ⟨e'', w', hst, htr'⟩ := htr.step (fun event hev => (hma event hev).1)
        (by rw [hp0]; exact hlt.le) api ha (fun toTs heq => hstay toTs (heq ▸ hmem))
      exact ⟨e'', w', hst, by simpa using htr'⟩)
    (by simpa using hb) (hm e1 (by simp [forget, step, h1]))
  rw [nil_append, nil_append] at htra
  obtain ⟨stays', hi', hmem'⟩ := htra.stay
  obtain ⟨x, hx, hxp⟩ := hi'.high _ hmem'
  have hpe : (st.after mid).peak < 2 ^ 63 := hxp ▸ (hheights x hx).2
  have hlo := (hheights e.lastTs hinv.mem).1
  have hrc : st.events.filter (e.reached (st.after mid)) = e.reachedIn api ord e.lastTs ts mid := by
    refine filter_congr fun event hev => ?_
    rw [reached_iff_dueAt (hma event hev).2.1 (hheights ts hts) hlo hpe]
    simp [Stay.after, hp0]
    rfl
  refine ⟨e, calls0, e', calls1 ++ calls, hrun, runOut_cons.mpr ⟨e1, calls1, calls, h1, hrun', rfl⟩, ?_, htra.reverted, ?_⟩
  · refine htra.handled.trans (.of_eq ?_)
    rw [← hrc]
    refine map_congr_left fun event hev => ?_
    exact callOf_of_reached (hma event (mem_of_mem_filter hev)).2.1 (hheights ts hts) hlo (of_mem_filter hev)
  intro toTs hlas hp'
  obtain ⟨e'', undone, h'', -, -, hca⟩ := hi'.revert (hlas ▸ hp')
  rw [hlas] at h''
  refine ⟨e'', undone, h'', ?_⟩
  rcases hca with ⟨rfl, -⟩ | ⟨st', rest, rfl, hst', -, hperm⟩
  · cases hmem'
  obtain rfl : st' = st.after mid :=
    hi'.queues.distinct _ mem_cons_self _ hmem' (congrArg _ (hst'.trans hlas))
  refine hperm.trans (.of_eq ?_)
  have hsa : (st.after mid).events.filter (e'.reached (st.after mid)) = e.reachedIn api ord e.lastTs ts mid := by
    rw [← hrc]
    exact filter_congr fun event hev => htra.ext.reached (hma event hev).1 _
  rw [hsa]
  refine map_congr_left fun event hev => ?_
  rw [revertOf, (hma event (mem_of_mem_filter hev)).2.1]

/-! ## Two runs -/

def emptyApi : EventAPI :=
  ⟨fun _ => .error (.errorf "blockstore: block not found"), fun _ _ => .error (.errorf "blockstore: block not found")⟩

def watch (confidence : Int64) : List (Label Unit) :=
  [.onHeadChanged (fun _ => .ok (false, true)) (fun _ _ _ _ => .ok true) confidence noTimeout,
    .stateMatcher 0 fun _ _ => .ok (some ())]

theorem watch_legal (confidence : Int64) {labels : List (Label Unit)}
    (h : ∀ e, run (forget (step emptyApi)) (new forkRoot) (watch confidence) = some e →
      Legal (forget (step emptyApi)) (Path forkTree) e labels) :
    Legal (forget (step emptyApi)) (Path forkTree) (new forkRoot) (watch confidence ++ labels) := by
  refine ⟨fun _ _ _ _ => rfl, fun e he => ?_⟩
  cases he
  refine ⟨rfl, fun e he => ?_⟩
  cases he
  exact h _ rfl

/-- The second stay of `forkRight`, which was reverted before. -/
theorem events_once_per_stay_fork :
    let pre : List (Label Unit) := watch 0 ++ [.apply .inserted forkRoot forkRight, .revert forkRight forkRoot]
    ∃ e calls0 e' calls, runOut (step emptyApi) (new forkRoot) pre = some (e, calls0) ∧ calls0.length = 2 ∧
      runOut (step emptyApi) e [.apply .inserted forkRoot forkRight] = some (e', calls) ∧ calls.length = 1 ∧
      (handledOf forkRight calls).Perm ((e.reachedIn emptyApi .inserted forkRoot forkRight []).map
        fun event => .handle event.trigger event.data event.prevTipset forkRight (e.dueAt event)) := by
  intro pre
  have hh : ∀ ts, forkTree.mem ts → 0 ≤ ts.height ∧ ts.height < 2 ^ 63 := by
    show ∀ ts ∈ forkTips, 0 ≤ ts.height ∧ ts.height < 2 ^ 63
    decide
  have hlegal : Legal (forget (step emptyApi)) (Path forkTree) (new forkRoot)
      (pre ++ [.apply .inserted forkRoot forkRight]) := by
    refine watch_legal 0 fun e he => ?_
    cases he
    refine ⟨⟨rfl, forkTree_mem (by decide), by decide⟩, fun e he => ?_⟩
    cases he
    refine ⟨⟨rfl, by decide⟩, fun e he => ?_⟩
    cases he
    exact ⟨⟨rfl, forkTree_mem (by decide), by decide⟩, fun _ _ => trivial⟩
  obtain ⟨e, calls0, e', calls, hpr, hrun, hha, -⟩ :=
    (events_once_per_stay forkTree hh emptyApi forkRoot (forkTree_mem (by decide))).2 pre [] .inserted
      forkRoot forkRight hlegal (by simp)
  cases hpr
  cases hrun
  exact ⟨_, _, _, _, rfl, rfl, rfl, rfl, hha⟩

/-- With confidence -1 the event of a tipset at height 1 is due at height 0: never handled. -/
theorem negative_confidence_not_handled :
    ∃ e e' event, Legal (forget (step emptyApi)) (Path forkTree) (new forkRoot)
        (watch (-1) ++ [.apply .inserted forkRoot forkRight]) ∧
      runOut (step emptyApi) (new forkRoot) (watch (-1)) = some (e, []) ∧
      e.matched emptyApi .inserted forkRoot forkRight = [event] ∧ e.live event = true ∧
      e.dueAt event ≤ forkRight.height ∧
      e.step emptyApi (.apply .inserted forkRoot forkRight) = some (e', []) := by
  refine ⟨_, _, ⟨0, .change (), some forkRoot, forkRight, false⟩, watch_legal (-1) ?_, rfl, rfl, rfl, ?_, rfl⟩
  · rintro e ⟨⟩
    exact ⟨⟨rfl, forkTree_mem (by decide), by decide⟩, fun _ _ => trivial⟩
  · decide

end HcEvents
end Lotus.Events

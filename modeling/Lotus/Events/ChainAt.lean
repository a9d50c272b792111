/-
# The handlers at a height alternate and follow the chain.

While `ChainAt` works on a handler, it is right for the head `ChainAt` went by; then the event loop keeps it right for the
current one (`Settled`), except for heights that `Apply` or `Revert` has still to go through. A handler that is not saved is
too far below the head for any revert.
-/
import Lotus.Events.Height
import Lotus.Events.Lookup

namespace Lotus.Events
open Lib.Ancestry Lib.Lts Store HeightHandler List Option
variable {T : TipSetTree} {head fromTs toTs ts : TipSet} {h : Int}

/-! ## The first tipset at or above a height along a path -/

theorem lowestAbove_apply (hpa : T.parent toTs = some fromTs) (hlo : LowestAbove T fromTs h ts) : LowestAbove T toTs h ts :=
  hlo.of_anc (.of_parent hpa)

theorem lowestAbove_revert (hpa : T.parent fromTs = some toTs) (hlo : LowestAbove T fromTs h ts)
    (hle : h ≤ toTs.height) : LowestAbove T toTs h ts := by
  have hto : AncOrSelf T.parent toTs fromTs := .of_parent hpa
  have hts := hlo.lowest toTs hto hle
  refine ⟨ancOrSelf_of_height_le T.height_parent hlo.anc hto hts, hlo.above, fun y hy hyh => ?_⟩
  exact hlo.lowest y (hy.trans hto) hyh

theorem lowestAbove_top (hpa : T.parent toTs = some fromTs) (hlt : fromTs.height < h) (hle : h ≤ toTs.height) :
    LowestAbove T toTs h toTs := by
  refine lowestAbove_self hle fun p hp => ?_
  obtain rfl : fromTs = p := some.inj (hpa.symm.trans hp)
  exact .inl hlt

/-! ## The log -/

def LoggedCall.isHandle (c : LoggedCall) : Bool :=
  match c.call with
  | .handle _ _ => true
  | .revert _ => false

/-- The calls alternate, and the first one is a handle or a revert as `b` says. -/
def Alternate : Bool → List LoggedCall → Prop
  | _, [] => True
  | b, c :: cs => c.isHandle = b ∧ Alternate (!b) cs

def nextKind (b : Bool) (cs : List LoggedCall) : Bool := cs.foldl (fun b _ => !b) b

section
variable {b : Bool} {cs : List LoggedCall} {c : LoggedCall}

theorem alternate_last (h : Alternate b cs)
    (hla : cs.getLast? = some c) : c.isHandle = !nextKind b cs := by
  induction cs generalizing b with
  | nil => cases hla
  | cons d cs ih =>
    obtain ⟨hd, hrest⟩ := h
    cases cs with
    | nil =>
      cases hla
      simp [nextKind, hd]
    | cons e cs => exact ih hrest (by simpa using hla)

theorem alternate_concat :
    Alternate b (cs ++ [c]) ↔ Alternate b cs ∧ c.isHandle = nextKind b cs := by
  induction cs generalizing b with
  | nil => simp [Alternate, nextKind]
  | cons d cs ih =>
    show d.isHandle = b ∧ Alternate (!b) (cs ++ [c]) ↔ _
    rw [ih, ← and_assoc]
    rfl
end

@[simp] theorem nextKind_concat (b : Bool) (cs : List LoggedCall) (c : LoggedCall) :
    nextKind b (cs ++ [c]) = !nextKind b cs := by
  simp [nextKind]

namespace HeightHandler
variable {hnd : HeightHandler}
variable (T head hnd) in
def First : Prop :=
  ∃ ts, hnd.ts = some ts ∧ LowestAbove T head hnd.height ts

variable (T hnd) in
structure Right (c : LoggedCall) : Prop where
  mem : T.mem c.seen
  first : ∀ ts curH, c.call = .handle ts curH → ∃ t, ts = some t ∧ LowestAbove T c.seen hnd.height t
  confident : ∀ ts curH, c.call = .handle ts curH → hnd.height + hnd.confidence ≤ c.seen.height
  now : c.immediate = false → c.seen = c.now

variable (T hnd) in
/-- **The log of a handler.** `called` tells what the last call was, and `ts` its tipset. -/
structure Log : Prop where
  nonneg : hnd.called = true → 0 ≤ hnd.height
  alternate : Alternate true hnd.calls
  next : nextKind true hnd.calls = !hnd.called
  right : ∀ c ∈ hnd.calls, Right T hnd c
  last : hnd.called = true → ∃ c curH, hnd.calls.getLast? = some c ∧ c.call = .handle hnd.ts curH

variable {hnd' : HeightHandler}

theorem Right.congr {c : LoggedCall} (h : Right T hnd c) (hheight : hnd'.height = hnd.height)
    (hco : hnd'.confidence = hnd.confidence) : Right T hnd' c := by
  refine ⟨h.mem, fun ts curH hc => ?_, fun ts curH hc => ?_, h.now⟩
  · rw [hheight]
    exact h.first ts curH hc
  · rw [hheight, hco]
    exact h.confident ts curH hc

section
variable (hlog : Log T hnd)
include hlog

theorem Log.handle (hcalled : hnd.called = false) (hnonneg : 0 ≤ hnd.height) {curH : Int}
    {immediate : Bool} {seen now : TipSet} (hse : T.mem seen) (hfirst : First T seen hnd)
    (hco : hnd.height + hnd.confidence ≤ seen.height) (hno : immediate = false → seen = now) (pc : ChainAtPc) :
    Log T { hnd with
      called := true, calls := hnd.calls ++ [⟨.handle hnd.ts curH, immediate, seen, now⟩], pc := pc } := by
  have hn := hlog.next
  refine ⟨fun _ => hnonneg, alternate_concat.mpr ⟨hlog.alternate, ?_⟩, ?_, ?_, ?_⟩
  · rw [hn, hcalled]
    rfl
  · simp [hn, hcalled]
  · intro c hc
    rcases mem_append.mp hc with hc | hc
    · exact (hlog.right c hc).congr rfl rfl
    obtain rfl := mem_singleton.mp hc
    refine ⟨hse, ?_, fun _ _ _ => hco, hno⟩
    rintro ts' curH' ⟨⟩
    exact hfirst
  · exact fun _ => ⟨_, curH, getLast?_concat, rfl⟩

theorem Log.undone (hcalled : hnd.called = true) {arg ts : Option TipSet} {immediate : Bool}
    {seen now : TipSet} (hse : T.mem seen) (hno : immediate = false → seen = now) (pc : ChainAtPc) :
    Log T { hnd with
      ts := ts, called := false, calls := hnd.calls ++ [⟨.revert arg, immediate, seen, now⟩], pc := pc } := by
  have hn := hlog.next
  refine ⟨fun hb => (by cases hb), alternate_concat.mpr ⟨hlog.alternate, ?_⟩, ?_, ?_, fun hb => by cases hb⟩
  · rw [hn, hcalled]
    rfl
  · simp [hn, hcalled]
  intro c hc
  rcases mem_append.mp hc with hc | hc
  · exact (hlog.right c hc).congr rfl rfl
  · obtain rfl := mem_singleton.mp hc
    exact ⟨hse, fun _ _ hb => (by cases hb), fun _ _ hb => (by cases hb), hno⟩

theorem Log.retouch {ts : Option TipSet} (hts : hnd.called = true → ts = hnd.ts) (pc : ChainAtPc) :
    Log T { hnd with ts := ts, pc := pc } := by
  refine ⟨hlog.nonneg, hlog.alternate, hlog.next, fun c hc => (hlog.right c hc).congr rfl rfl, fun hcalled => ?_⟩
  obtain ⟨c, curH, hla, hca⟩ := hlog.last hcalled
  exact ⟨c, curH, hla, by rw [hca, hts hcalled]⟩

theorem Log.mem_ts (hcalled : hnd.called = true) : ∃ t, hnd.ts = some t ∧ T.mem t := by
  obtain ⟨c, curH, hla, hca⟩ := hlog.last hcalled
  have hri := hlog.right c (mem_of_getLast? hla)
  obtain ⟨t, ht, hlo⟩ := hri.first hnd.ts curH hca
  exact ⟨t, ht, T.mem_of_anc hri.mem hlo.anc⟩
end

/-! ## Handlers and heads -/

/-- A handler that `ChainAt` accepts, where nothing overflows. -/
structure Accepted (gcConfidence : Int) (hnd : HeightHandler) : Prop where
  nonneg : 0 ≤ hnd.confidence
  le : hnd.confidence ≤ gcConfidence
  low : -2 ^ 63 ≤ hnd.height
  high : hnd.height + gcConfidence < 2 ^ 63

variable {gcConfidence : Int}

theorem Accepted.congr (h : Accepted gcConfidence hnd)
    (hheight : hnd'.height = hnd.height) (hco : hnd'.confidence = hnd.confidence) : Accepted gcConfidence hnd' := by
  refine ⟨?_, ?_, ?_, ?_⟩
  · rw [hco]
    exact h.nonneg
  · rw [hco]
    exact h.le
  · rw [hheight]
    exact h.low
  · rw [hheight]
    exact h.high

theorem Accepted.triggerAt (h : Accepted gcConfidence hnd) :
    hnd.triggerAt = hnd.height + hnd.confidence := by
  obtain ⟨hnonneg, hle, hlo, hh⟩ := h
  exact Int.bmod_eq_of_le (by omega) (by omega)

theorem Accepted.gc (h : Accepted gcConfidence hnd) :
    addEpoch hnd.height gcConfidence = hnd.height + gcConfidence := by
  obtain ⟨hnonneg, hle, hlo, hh⟩ := h
  exact Int.bmod_eq_of_le (by omega) (by omega)

/-- **A handler that is right for a head**, where `Apply` has still to go through the heights above `done`, and
`Revert` through those up to `top`. -/
structure Settled (T : TipSetTree) (head : TipSet) (done top : Int) (hnd : HeightHandler) : Prop where
  top : hnd.called = true → hnd.height ≤ top
  called : hnd.called = true → hnd.height ≤ head.height → First T head hnd
  reached : hnd.height ≤ done → First T head hnd
  due : hnd.triggerAt ≤ done → hnd.called = true

variable {done top : Int}

theorem First.congr (h : First T head hnd) (hts : hnd'.ts = hnd.ts)
    (hheight : hnd'.height = hnd.height) : First T head hnd' := by
  unfold First
  rw [hts, hheight]
  exact h

theorem Settled.weaken (h : Settled T head head.height head.height hnd) (hd : done ≤ head.height)
    (hto : head.height ≤ top) : Settled T head done top hnd :=
  ⟨fun hcalled => (h.top hcalled).trans hto, h.called, fun hle => h.reached (hle.trans hd),
    fun hle => h.due (hle.trans hd)⟩

theorem Settled.apply (h : Settled T fromTs fromTs.height fromTs.height hnd) (hpa : T.parent toTs = some fromTs) :
    Settled T toTs fromTs.height toTs.height hnd := by
  have hlt := T.height_parent toTs fromTs hpa
  have hup : First T fromTs hnd → First T toTs hnd := by
    rintro ⟨ts, hts, hlo⟩
    exact ⟨ts, hts, lowestAbove_apply hpa hlo⟩
  refine ⟨fun hcalled => ?_, fun hcalled _ => hup (h.reached (h.top hcalled)), fun hle => hup (h.reached hle), h.due⟩
  have := h.top hcalled
  omega

theorem Settled.revert (h : Settled T fromTs fromTs.height fromTs.height hnd) (hpa : T.parent fromTs = some toTs) :
    Settled T toTs toTs.height fromTs.height hnd := by
  have hlt := T.height_parent fromTs toTs hpa
  have hd : hnd.height ≤ toTs.height → First T toTs hnd := by
    intro hle
    obtain ⟨ts, hts, hlo⟩ := h.reached (by omega)
    exact ⟨ts, hts, lowestAbove_revert hpa hlo hle⟩
  exact ⟨h.top, fun _ => hd, hd, fun hle => h.due (by omega)⟩

/-- What one height of `Apply` does to a handler of the loop. -/
def passed (hnd : HeightHandler) (toTs : TipSet) (h : Int) : HeightHandler :=
  if hnd.triggerAt = h then (if hnd.height = h then hnd.stash toTs else hnd).fire toTs h
  else if hnd.height = h then hnd.stash toTs else hnd

section
variable (hset : Settled T toTs (h - 1) toTs.height hnd)
include hset

theorem Settled.stashed (hlog : Log T hnd)
    (hpa : T.parent toTs = some fromTs) (hlt : fromTs.height < h) (hle : h ≤ toTs.height) :
    Log T (if hnd.height = h then hnd.stash toTs else hnd) ∧
      (hnd.height ≤ h → First T toTs (if hnd.height = h then hnd.stash toTs else hnd)) := by
  by_cases heq : hnd.height = h
  · have hto : LowestAbove T toTs hnd.height toTs := heq ▸ lowestAbove_top hpa hlt hle
    rw [if_pos heq]
    refine ⟨hlog.retouch (fun hcalled => ?_) hnd.pc, fun _ => ⟨toTs, rfl, hto⟩⟩
    obtain ⟨t, ht, hlo⟩ := hset.called hcalled (by omega)
    rw [ht, hlo.unique hto]
  · rw [if_neg heq]
    exact ⟨hlog, fun hh => hset.reached (by omega)⟩

theorem Settled.passed
    (hacc : Accepted gcConfidence hnd) (hnonneg : 0 ≤ hnd.height) (hlog : Log T hnd) (hmem : T.mem toTs)
    (hpa : T.parent toTs = some fromTs) (hlt : fromTs.height < h) (hle : h ≤ toTs.height) :
    Settled T toTs h toTs.height (hnd.passed toTs h) ∧ Log T (hnd.passed toTs h) := by
  obtain ⟨hl1, hfirst1⟩ := hset.stashed hlog hpa hlt hle
  have htr := hacc.triggerAt
  have hco := hacc.nonneg
  unfold HeightHandler.passed
  generalize hh1 : (if hnd.height = h then hnd.stash toTs else hnd) = hnd1 at hl1 hfirst1 ⊢
  obtain ⟨hheight1, hc1, hcalled1⟩ : hnd1.height = hnd.height ∧ hnd1.confidence = hnd.confidence ∧ hnd1.called = hnd.called := by
    rw [← hh1]
    split <;> exact ⟨rfl, rfl, rfl⟩
  have hfirst : hnd1.called = true → hnd1.height ≤ toTs.height → First T toTs hnd1 := by
    intro hcalled hhi
    by_cases heq : hnd.height ≤ h
    · exact hfirst1 heq
    have hsa : hnd1 = hnd := by
      rw [← hh1, if_neg (by omega)]
    rw [hsa] at hcalled hhi ⊢
    exact hset.called hcalled hhi
  by_cases hd : hnd.triggerAt = h
  · rw [if_pos hd, fire]
    by_cases hc : hnd1.called = true
    · rw [if_pos hc]
      exact ⟨⟨fun _ => by have := hset.top (hcalled1 ▸ hc); omega, hfirst, fun hh => hfirst1 (by omega), fun _ => hc⟩, hl1⟩
    -- the handler is called now
    rw [if_neg hc]
    have hth : First T toTs hnd1 := hfirst1 (by omega)
    refine ⟨⟨fun _ => ?_, fun _ _ => hth.congr rfl rfl, fun _ => hth.congr rfl rfl, fun _ => rfl⟩, ?_⟩
    · show hnd1.height ≤ toTs.height
      omega
    · exact hl1.handle (by simpa using hc) (by omega) hmem hth (by omega) (fun _ => rfl) hnd1.pc
  rw [if_neg hd]
  refine ⟨⟨fun hc => ?_, hfirst, fun hh => hfirst1 (by omega), fun hh => ?_⟩, hl1⟩
  · have := hset.top (hcalled1 ▸ hc)
    omega
  have hsa : hnd1.triggerAt = hnd.triggerAt := by rw [triggerAt, hheight1, hc1]; rfl
  rw [hcalled1]
  exact hset.due (by omega)
end

theorem Settled.backed (hset : Settled T toTs toTs.height h hnd) (hacc : Accepted gcConfidence hnd)
    (hlog : Log T hnd) (hmem : T.mem toTs) (hlt : toTs.height < h) :
    Settled T toTs toTs.height (h - 1) (if hnd.height = h then hnd.undo fromTs toTs else hnd) ∧
      Log T (if hnd.height = h then hnd.undo fromTs toTs else hnd) := by
  have htr := hacc.triggerAt
  have hco := hacc.nonneg
  by_cases heq : hnd.height = h
  · rw [if_pos heq, undo]
    have hv : ∀ hnd' : HeightHandler, hnd'.height = hnd.height → hnd'.confidence = hnd.confidence →
        hnd'.called = false → Settled T toTs toTs.height (h - 1) hnd' := by
      intro hnd' hheight hcon hcalled
      have hsa : hnd'.triggerAt = hnd.triggerAt := by rw [triggerAt, hheight, hcon]; rfl
      exact ⟨fun hc => absurd hc (by simp [hcalled]), fun hc => absurd hc (by simp [hcalled]), fun hh => by omega,
        fun hh => by omega⟩
    split
    · rename_i hc
      exact ⟨hv _ rfl rfl rfl, hlog.undone hc hmem (fun _ => rfl) hnd.pc⟩
    · rename_i hc
      refine ⟨hv _ rfl rfl (by simpa using hc), hlog.retouch (fun hcalled => absurd hcalled hc) hnd.pc⟩
  rw [if_neg heq]
  refine ⟨⟨fun hc => ?_, hset.called, hset.reached, hset.due⟩, hlog⟩
  have := hset.top hc
  omega

/-! ## The work of `ChainAt` -/

/-- The API answers for the tipsets of the tree, and fails below genesis. -/
structure Answers (api : AfterHeight) (T : TipSetTree) : Prop where
  inside : ∀ x h, T.mem x → 0 ≤ h → h ≤ x.height → ∃ ts, api h x.key = .ok (some ts) ∧ LowestAbove T x h ts
  below : ∀ x h, T.mem x → h < 0 → ∃ e, api h x.key = .error e

def afterHeight (storage : TsCacheAPI) : AfterHeight := fun h tsk => (storage.chainGetTipSetAfterHeight h tsk).map some

theorem afterHeight_answers {storage : TsCacheAPI} (h : storage.Answers T) : Answers (afterHeight storage) T := by
  refine ⟨fun x height hx hlow hh => ?_, fun x height hx hn => ?_⟩
  · obtain ⟨-, ts, hts, hlo⟩ := h.inside x height hx hlow hh
    exact ⟨ts, by simp [afterHeight, hts, Except.map], hlo⟩
  obtain ⟨e, he⟩ := h.outside x height false hx (.inl hn)
  have he : storage.chainGetTipSetAfterHeight height x.key = .error e := he
  exact ⟨e, by simp [afterHeight, he, Except.map]⟩

variable {api : AfterHeight} {gcConfidence : Int} {seen now : TipSet}

theorem fetch_cases (ha : Answers api T) (hheights : ∀ ts, T.mem ts → 0 ≤ ts.height) (hse : T.mem seen)
    (hle : hnd.height ≤ seen.height) :
    (0 ≤ hnd.height ∧ ∃ ts, hnd.fetch api seen = .ok (some ts) ∧ LowestAbove T seen hnd.height ts) ∨
      hnd.height < 0 ∧ ∃ e, hnd.fetch api seen = .error e := by
  have hpo := hheights seen hse
  unfold fetch
  by_cases hself : seen.height = hnd.height
  · rw [if_pos hself]
    exact .inl ⟨by omega, seen, rfl, lowestAbove_self hle fun _ _ => .inr hself⟩
  rw [if_neg hself]
  by_cases hn : hnd.height < 0
  · exact .inr ⟨hn, ha.below seen hnd.height hse hn⟩
  · exact .inl ⟨by omega, ha.inside seen hnd.height hse (by omega) hle⟩

theorem Log.replace (hlog : Log T hnd) (now : TipSet) (hse : T.mem seen) (hlo : LowestAbove T seen hnd.height ts) :
    Log T (hnd.replace now seen (some ts)) ∧ First T seen (hnd.replace now seen (some ts)) := by
  unfold HeightHandler.replace
  split
  · rename_i hc
    exact ⟨hlog.undone hc.1 hse (fun hb => by cases hb) hnd.pc, ts, rfl, hlo⟩
  rename_i hc
  refine ⟨hlog.retouch (fun hcalled => ?_) hnd.pc, ts, rfl, hlo⟩
  obtain ⟨t, ht, hmem⟩ := hlog.mem_ts hcalled
  have heq : equalsPtr (some ts) hnd.ts = true := by simpa [hcalled] using hc
  rw [ht] at heq ⊢
  rw [T.eq_of_equals ts t (T.mem_of_anc hse hlo.anc) hmem heq]

/-- Where the work leads to: the API has failed below genesis, the handler is so deep that it is not saved, or it is
right for the head. -/
inductive Worked (T : TipSetTree) (gcConfidence : Int) (seen : TipSet) (hnd : HeightHandler) : Prop where
  | failed (err : GoError) (hpc : hnd.pc = .returned false (some err)) (hcalled : hnd.called = false)
  | deep (hpc : hnd.pc = .returned false none) (hfirst : First T seen hnd)
      (hdeep : hnd.height + gcConfidence ≤ seen.height)
  | settled (hpc : hnd.pc = .relocking seen) (hacc : Accepted gcConfidence hnd) (hnonneg : 0 ≤ hnd.height)
      (hset : Settled T seen seen.height seen.height hnd)

theorem Log.callNow (hlog : Log T hnd) (hacc : Accepted gcConfidence hnd) (hnonneg : 0 ≤ hnd.height) (hse : T.mem seen)
    (hfirst : First T seen hnd) :
    Log T (hnd.callNow gcConfidence now seen) ∧ Worked T gcConfidence seen (hnd.callNow gcConfidence now seen) := by
  have htr := hacc.triggerAt
  have hco := hacc.nonneg
  obtain ⟨t, ht, hlo⟩ := hfirst
  have hle : hnd.height ≤ seen.height := hlo.above.trans (hlo.anc.height_le T.height_parent)
  have hfirst : First T seen hnd := ⟨t, ht, hlo⟩
  unfold HeightHandler.callNow
  split
  · rename_i hc
    refine ⟨hlog.handle hc.1 hnonneg hse hfirst (by omega) (fun hb => by cases hb) _, ?_⟩
    rw [hacc.gc]
    by_cases hdeep : seen.height ≥ hnd.height + gcConfidence
    · refine .deep ?_ (hfirst.congr rfl rfl) hdeep
      show (if seen.height ≥ hnd.height + gcConfidence then _ else _) = _
      rw [if_pos hdeep]
    refine .settled ?_ (hacc.congr rfl rfl) hnonneg ⟨fun _ => hle, fun _ _ => hfirst.congr rfl rfl, fun _ => hfirst.congr rfl rfl, fun _ => rfl⟩
    show (if seen.height ≥ hnd.height + gcConfidence then _ else _) = _
    rw [if_neg hdeep]
  rename_i hc
  refine ⟨hlog.retouch (fun _ => rfl) _, .settled rfl (hacc.congr rfl rfl) hnonneg ⟨fun _ => hle,
    fun _ _ => hfirst.congr rfl rfl, fun _ => hfirst.congr rfl rfl, fun hd => ?_⟩⟩
  have hd : hnd.triggerAt ≤ seen.height := hd
  by_contra hcalled
  exact hc ⟨by simpa using hcalled, hd⟩

theorem Log.work (hlog : Log T hnd) (now : TipSet) (ha : Answers api T) (hheights : ∀ ts, T.mem ts → 0 ≤ ts.height)
    (hacc : Accepted gcConfidence hnd) (hse : T.mem seen) (hle : hnd.height ≤ seen.height) :
    Log T (hnd.work api gcConfidence now seen) ∧ Worked T gcConfidence seen (hnd.work api gcConfidence now seen) := by
  unfold HeightHandler.work
  rcases fetch_cases ha hheights hse hle with ⟨hnonneg, ts, hfe, hlo⟩ | ⟨hn, e, hfe⟩
  · rw [hfe]
    obtain ⟨hl1, hfirst1⟩ := hlog.replace now hse hlo
    obtain ⟨hheight1, hc1⟩ : (hnd.replace now seen (some ts)).height = hnd.height ∧
        (hnd.replace now seen (some ts)).confidence = hnd.confidence := by
      unfold HeightHandler.replace
      split <;> exact ⟨rfl, rfl⟩
    exact hl1.callNow (hacc.congr hheight1 hc1) (hheight1 ▸ hnonneg) hse hfirst1
  rw [hfe]
  refine ⟨hlog.retouch (fun _ => rfl) _, .failed _ rfl ?_⟩
  by_contra hcalled
  have := hlog.nonneg (by simpa using hcalled)
  omega

/-! ## Where `ChainAt` is -/

/-- The head that `ChainAt` went by: far below it the chain has not changed since. -/
structure Seen (T : TipSetTree) (gcConfidence maxHeight : Int) (head seen : TipSet) : Prop where
  mem : T.mem seen
  le : seen.height ≤ maxHeight
  deep : ∀ x ts, x + gcConfidence ≤ seen.height → LowestAbove T seen x ts → LowestAbove T head x ts

def saved (hnd : HeightHandler) : Bool :=
  match hnd.pc with
  | .returned true _ => true
  | _ => false

/-- **What is kept of a handler**, by the place of its `ChainAt`. -/
def Placed (T : TipSetTree) (gcConfidence maxHeight : Int) (head : TipSet) (done top : Int) (hnd : HeightHandler) : Prop :=
  match hnd.pc with
  | .fetching seen => Accepted gcConfidence hnd ∧ Seen T gcConfidence maxHeight head seen ∧ hnd.height ≤ seen.height
  | .reverting seen => Accepted gcConfidence hnd ∧ T.mem seen ∧ seen.height < hnd.height ∧ hnd.called = true
  | .relocking seen => Accepted gcConfidence hnd ∧ T.mem seen ∧ 0 ≤ hnd.height ∧
      Settled T seen seen.height seen.height hnd
  | .returned true _ => Accepted gcConfidence hnd ∧ 0 ≤ hnd.height ∧ Settled T head done top hnd
  | .returned false none => First T head hnd ∧ hnd.height + gcConfidence ≤ maxHeight
  | .returned false (some _) => hnd.called = false

variable {maxHeight : Int}

theorem Placed.apply (h : Placed T gcConfidence maxHeight fromTs fromTs.height fromTs.height hnd)
    (hpa : T.parent toTs = some fromTs) :
    Placed T gcConfidence (max maxHeight toTs.height) toTs fromTs.height toTs.height hnd := by
  unfold Placed at h ⊢
  split at h
  · obtain ⟨hacc, hse, hle⟩ := h
    exact ⟨hacc, ⟨hse.mem, hse.le.trans (le_max_left _ _),
      fun x ts hx hlo => lowestAbove_apply hpa (hse.deep x ts hx hlo)⟩, hle⟩
  · exact h
  · exact h
  · exact ⟨h.1, h.2.1, h.2.2.apply hpa⟩
  · obtain ⟨⟨ts, hts, hlo⟩, hdeep⟩ := h
    exact ⟨⟨ts, hts, lowestAbove_apply hpa hlo⟩, hdeep.trans (le_max_left _ _)⟩
  · exact h

theorem Placed.revert (h : Placed T gcConfidence maxHeight fromTs fromTs.height fromTs.height hnd)
    (hpa : T.parent fromTs = some toTs) (hli : maxHeight - gcConfidence ≤ toTs.height) :
    Placed T gcConfidence maxHeight toTs toTs.height fromTs.height hnd := by
  unfold Placed at h ⊢
  split at h
  · obtain ⟨hacc, hse, hle⟩ := h
    have hle' := hse.le
    exact ⟨hacc, ⟨hse.mem, hse.le, fun x ts hx hlo => lowestAbove_revert hpa (hse.deep x ts hx hlo) (by omega)⟩, hle⟩
  · exact h
  · exact h
  · exact ⟨h.1, h.2.1, h.2.2.revert hpa⟩
  · obtain ⟨⟨ts, hts, hlo⟩, hdeep⟩ := h
    exact ⟨⟨ts, hts, lowestAbove_revert hpa hlo (by omega)⟩, hdeep⟩
  · exact h

theorem Placed.of_not_saved {done' top' : Int} (h : Placed T gcConfidence maxHeight head done top hnd)
    (hsa : hnd.saved = false) : Placed T gcConfidence maxHeight head done' top' hnd := by
  unfold Placed saved at *
  split at h <;> simp_all

theorem Placed.settled (h : Placed T gcConfidence maxHeight head done top hnd) (hsa : hnd.saved = true) :
    Accepted gcConfidence hnd ∧ 0 ≤ hnd.height ∧ Settled T head done top hnd := by
  unfold Placed saved at *
  split at h <;> simp_all

theorem Placed.of_settled (hsa : hnd.saved = true) (hacc : Accepted gcConfidence hnd) (hnonneg : 0 ≤ hnd.height)
    (hset : Settled T head done top hnd) : Placed T gcConfidence maxHeight head done top hnd := by
  unfold saved at hsa
  split at hsa
  · rename_i err hpc
    unfold Placed
    rw [hpc]
    exact ⟨hacc, hnonneg, hset⟩
  · cases hsa

end HeightHandler

namespace HeightEvents
open HeightHandler Machine

/-! ## The maps -/

variable {m : GoMap Int (List HandlerID)} {x target : Int} {id : HandlerID}

theorem idsAt_put (m : GoMap Int (List HandlerID)) (h x : Int) (id : HandlerID) :
    idsAt (put m h id) x = if x = h then idsAt m h ++ [id] else idsAt m x := by
  unfold put idsAt
  by_cases hx : x = h
  · subst hx
    simp
  · rw [AList.lookup_insert_ne hx, if_neg hx]

variable {j : HandlerID}

theorem mem_idsAt_put : j ∈ idsAt (put m h id) x ↔ j ∈ idsAt m x ∨ j = id ∧ x = h := by
  rw [idsAt_put]
  split_ifs with hx
  · subst hx
    simp
  · simp [hx]

section
variable (m : GoMap Int (List HandlerID)) (target x : Int)

theorem lookup_collect :
    (collect m target).lookup x = if x < target then none else m.lookup x := by
  unfold collect
  rw [GoMap.lookup_foldl_erase]
  by_cases hx : x < target
  · rw [if_pos hx]
    by_cases hmem : x ∈ m.keys
    · rw [if_pos (by simp [hmem, hx])]
    · rw [if_neg (by simp [hmem])]
      exact AList.lookup_eq_none.mpr hmem
  · rw [if_neg (by simp [hx]), if_neg hx]

theorem idsAt_collect :
    idsAt (collect m target) x = if x < target then [] else idsAt m x := by
  unfold idsAt
  rw [lookup_collect]
  split <;> rfl
end

theorem idsAt_collectIf {b : Bool} (x : Int) : (∀ id ∈ idsAt (if b then collect m target else m) x, id ∈ idsAt m x) ∧
      ((b = true → target ≤ x) → idsAt (if b then collect m target else m) x = idsAt m x) := by
  rcases b with _ | _
  · exact ⟨fun _ h => h, fun _ => rfl⟩
  simp only [if_true, idsAt_collect]
  refine ⟨fun id hid => ?_, fun hle => if_neg (not_lt.mpr (hle trivial))⟩
  split_ifs at hid
  · cases hid
  · exact hid

theorem each_apply {f : HeightHandler → HeightHandler} (hf : ∀ hnd, f (f hnd) = f hnd) (ids : List HandlerID)
    (handlers : HandlerID → Option HeightHandler) (id : HandlerID) :
    each ids f handlers id = if id ∈ ids then (handlers id).map f else handlers id := by
  induction ids generalizing handlers with
  | nil => rfl
  | cons j ids ih =>
    show each ids f (Function.update handlers j ((handlers j).map f)) id = _
    rw [ih]
    by_cases hj : id = j
    · subst hj
      cases handlers id with
      | none => simp
      | some hnd => simp [hf]
    · simp [hj]

theorem fire_fire (hnd : HeightHandler) (toTs : TipSet) (h : Int) : (hnd.fire toTs h).fire toTs h = hnd.fire toTs h := by
  unfold fire
  split <;> simp_all

theorem undo_undo (hnd : HeightHandler) (fromTs toTs : TipSet) :
    (hnd.undo fromTs toTs).undo fromTs toTs = hnd.undo fromTs toTs := by
  unfold undo
  split <;> simp_all

/-! ## The invariant -/

def Loop.done (head : TipSet) : Loop → Int
  | .idle => head.height
  | .applying _ _ h => h - 1
  | .reverting _ toTs _ => toTs.height

def Loop.top (head : TipSet) : Loop → Int
  | .idle => head.height
  | .applying _ toTs _ => toTs.height
  | .reverting _ _ h => h

def Loop.On (T : TipSetTree) (head : TipSet) : Loop → Prop
  | .idle => True
  | .applying fromTs toTs h => head = toTs ∧ T.parent toTs = some fromTs ∧ fromTs.height < h ∧ h ≤ toTs.height + 1
  | .reverting fromTs toTs h => head = toTs ∧ T.parent fromTs = some toTs ∧ toTs.height ≤ h

variable {loop : Loop}

theorem Loop.On.done_le (h : loop.On T head) : loop.done head ≤ head.height := by
  cases loop with
  | idle => exact le_rfl
  | applying fromTs toTs x =>
    obtain ⟨rfl, -, -, hle⟩ := h
    show x - 1 ≤ head.height
    omega
  | reverting fromTs toTs x =>
    obtain ⟨rfl, -⟩ := h
    exact le_rfl

theorem Loop.On.le_top (h : loop.On T head) : head.height ≤ loop.top head := by
  cases loop with
  | idle => exact le_rfl
  | applying fromTs toTs x =>
    obtain ⟨rfl, -⟩ := h
    exact le_rfl
  | reverting fromTs toTs x =>
    obtain ⟨rfl, -, hle⟩ := h
    exact hle

/-- A map of the loop has its handlers at or above `floor` under their `key`. -/
structure Listed (handlers : HandlerID → Option HeightHandler) (floor : Int) (m : GoMap Int (List HandlerID))
    (key : HeightHandler → Int) : Prop where
  sound : ∀ x id, id ∈ idsAt m x → ∃ hnd, handlers id = some hnd ∧ hnd.saved = true ∧ key hnd = x
  kept : ∀ id hnd, handlers id = some hnd → hnd.saved = true → floor ≤ key hnd → id ∈ idsAt m (key hnd)

variable {handlers handlers' : HandlerID → Option HeightHandler} {floor : Int} {key : HeightHandler → Int}

theorem Listed.map (h : Listed handlers floor m key) {g : HeightHandler → HeightHandler}
    (hfo : ∀ id hnd, handlers id = some hnd → hnd.saved = true → handlers' id = some (g hnd))
    (hb : ∀ id hnd', handlers' id = some hnd' → hnd'.saved = true →
      ∃ hnd, handlers id = some hnd ∧ hnd.saved = true ∧ hnd' = g hnd)
    (hsa : ∀ hnd, (g hnd).saved = hnd.saved) (hk : ∀ hnd, key (g hnd) = key hnd) : Listed handlers' floor m key := by
  refine ⟨fun x id hid => ?_, fun id hnd' hh' hs' hx => ?_⟩
  · obtain ⟨hnd, hhnd, hs, hx⟩ := h.sound x id hid
    exact ⟨g hnd, hfo id hnd hhnd hs, (hsa hnd).trans hs, (hk hnd).trans hx⟩
  obtain ⟨hnd, hhnd, hs, rfl⟩ := hb id hnd' hh' hs'
  rw [hk] at hx ⊢
  exact h.kept id hnd hhnd hs hx

theorem Listed.put (h : Listed handlers floor m key) {hnd : HeightHandler}
    (hold : ∀ hnd, handlers id = some hnd → hnd.saved = false) (hnew : hnd.saved = true) :
    Listed (Function.update handlers id (some hnd)) floor (put m (key hnd) id) key := by
  refine ⟨fun x j hj => ?_, fun j hnd' hj hs hx => ?_⟩
  · rcases mem_idsAt_put.mp hj with hj | ⟨rfl, rfl⟩
    · obtain ⟨hnd', hj', hs, hx⟩ := h.sound x j hj
      have hne : j ≠ id := by
        rintro rfl
        simp [hold hnd' hj'] at hs
      exact ⟨hnd', (Function.update_of_ne hne _ _).trans hj', hs, hx⟩
    · exact ⟨hnd, Function.update_self _ _ _, hnew, rfl⟩
  by_cases heq : j = id
  · subst heq
    obtain rfl : hnd = hnd' := by simpa using hj
    exact mem_idsAt_put.mpr (.inr ⟨rfl, rfl⟩)
  · exact mem_idsAt_put.mpr (.inl (h.kept j hnd' ((Function.update_of_ne heq _ _).symm.trans hj) hs hx))

theorem Listed.collect (h : Listed handlers floor m key) {floor' : Int} {b : Bool}
    (hfl : ∀ x, floor' ≤ x → floor ≤ x ∧ (b = true → target ≤ x)) :
    Listed handlers floor' (if b then collect m target else m) key := by
  refine ⟨fun x id hid => h.sound x id ((idsAt_collectIf x).1 id hid), fun id hnd hhnd hs hx => ?_⟩
  obtain ⟨hx, hk⟩ := hfl _ hx
  rw [(idsAt_collectIf _).2 hk]
  exact h.kept id hnd hhnd hs hx

theorem Listed.mem_iff (h : Listed handlers floor m key) (hx : floor ≤ x) {hnd : HeightHandler}
    (hhnd : handlers id = some hnd) : id ∈ idsAt m x ↔ hnd.saved = true ∧ key hnd = x := by
  constructor
  · intro hid
    obtain ⟨hnd', hh', hs, hk⟩ := h.sound x id hid
    obtain rfl : hnd = hnd' := some.inj (hhnd.symm.trans hh')
    exact ⟨hs, hk⟩
  · rintro ⟨hs, rfl⟩
    exact h.kept id hnd hhnd hs hx

/-- **The invariant.** A handler of the loop is in the maps, unless below `floor`, which no revert reaches. -/
structure Inv (T : TipSetTree) (s : Machine) (floor : Int) : Prop where
  gc : 0 ≤ s.events.gcConfidence ∧ s.events.gcConfidence < 2 ^ 63
  mem : T.mem s.events.head
  low : s.maxHeight - s.events.gcConfidence ≤ s.events.head.height
  high : s.events.head.height ≤ s.maxHeight
  on : s.loop.On T s.events.head
  log : ∀ id hnd, s.handlers id = some hnd → Log T hnd
  placed : ∀ id hnd, s.handlers id = some hnd → Placed T s.events.gcConfidence s.maxHeight s.events.head
    (s.loop.done s.events.head) (s.loop.top s.events.head) hnd
  ts : Listed s.handlers floor s.events.tsHeights (·.height)
  trigger : Listed s.handlers floor s.events.triggerHeights (·.triggerAt)
  floor_done : floor ≤ s.loop.done s.events.head + 1
  floor_max : floor ≤ s.maxHeight - s.events.gcConfidence

variable {s : Machine} {floor : Int} {hnd : HeightHandler}

theorem update_cases {j : HandlerID} {hnd' : HeightHandler} (h : Function.update s.handlers id (some hnd) j = some hnd') :
    (j = id ∧ hnd = hnd') ∨ (j ≠ id ∧ s.handlers j = some hnd') := by
  by_cases heq : j = id
  · subst heq
    exact .inl ⟨rfl, by simpa using h⟩
  · exact .inr ⟨heq, (Function.update_of_ne heq _ _).symm.trans h⟩

theorem update_all {P : HeightHandler → Prop} (hall : ∀ j hnd', s.handlers j = some hnd' → P hnd') (hnew : P hnd) (j : HandlerID)
    (hnd' : HeightHandler) (h : Function.update s.handlers id (some hnd) j = some hnd') : P hnd' := by
  rcases update_cases h with ⟨-, rfl⟩ | ⟨-, hj⟩
  · exact hnew
  · exact hall j hnd' hj

section
variable (hinv : Inv T s floor) (hold : ∀ hnd, s.handlers id = some hnd → hnd.saved = false) (hlog : Log T hnd)
include hinv hold hlog

theorem Inv.set (hpl : Placed T s.events.gcConfidence s.maxHeight s.events.head
      (s.loop.done s.events.head) (s.loop.top s.events.head) hnd) (hnew : hnd.saved = false) : Inv T (s.set id hnd) floor := by
  have hfo : ∀ j hnd', s.handlers j = some hnd' → hnd'.saved = true → (s.set id hnd).handlers j = some hnd' := by
    intro j hnd' hj hsa
    have hne : j ≠ id := by
      rintro rfl
      simp [hold hnd' hj] at hsa
    exact (Function.update_of_ne hne _ _).trans hj
  have hb : ∀ j hnd', (s.set id hnd).handlers j = some hnd' → hnd'.saved = true →
      ∃ hnd0, s.handlers j = some hnd0 ∧ hnd0.saved = true ∧ hnd' = hnd0 := by
    intro j hnd' hj hsa
    rcases update_cases hj with ⟨-, rfl⟩ | ⟨-, hj⟩
    · simp [hnew] at hsa
    · exact ⟨hnd', hj, hsa, rfl⟩
  exact ⟨hinv.gc, hinv.mem, hinv.low, hinv.high, hinv.on, update_all hinv.log hlog, update_all hinv.placed hpl,
    hinv.ts.map (g := fun hnd => hnd) hfo hb (fun _ => rfl) (fun _ => rfl),
    hinv.trigger.map (g := fun hnd => hnd) hfo hb (fun _ => rfl) (fun _ => rfl), hinv.floor_done, hinv.floor_max⟩

theorem Inv.save (hacc : Accepted s.events.gcConfidence hnd) (hnonneg : 0 ≤ hnd.height)
    (hset : Settled T s.events.head s.events.head.height s.events.head.height hnd) : Inv T (s.save id hnd) floor := by
  have hset' := hset.weaken hinv.on.done_le hinv.on.le_top
  exact ⟨hinv.gc, hinv.mem, hinv.low, hinv.high, hinv.on, update_all hinv.log (hlog.retouch (fun _ => rfl) _),
    update_all hinv.placed ⟨hacc.congr rfl rfl, hnonneg, hset'.top, hset'.called, hset'.reached, hset'.due⟩,
    hinv.ts.put hold rfl, hinv.trigger.put hold rfl, hinv.floor_done, hinv.floor_max⟩
end

theorem Inv.enter (hinv : Inv T s floor) (hheights : ∀ ts, T.mem ts → 0 ≤ ts.height)
    (hold : ∀ hnd, s.handlers id = some hnd → hnd.saved = false) (hlog : Log T hnd)
    (hacc : Accepted s.events.gcConfidence hnd) : Inv T (s.enter id hnd) floor := by
  have hpo := hheights s.events.head hinv.mem
  unfold Machine.enter
  split_ifs with hpa hcalled
  · refine hinv.set hold (hlog.retouch (fun _ => rfl) _) ⟨hacc.congr rfl rfl, ?_, hpa⟩ rfl
    exact ⟨hinv.mem, hinv.high, fun _ _ _ hlo => hlo⟩
  · exact hinv.set hold (hlog.retouch (fun _ => rfl) _) ⟨hacc.congr rfl rfl, hinv.mem, not_le.mp hpa, hcalled⟩ rfl
  -- the head has not reached the height, and nothing was called
  have htr := hacc.triggerAt
  have hco := hacc.nonneg
  exact hinv.save hold hlog hacc (by omega) ⟨fun hb => absurd hb hcalled, fun hb => absurd hb hcalled,
    fun hh => by omega, fun hh => by omega⟩

theorem unsaved (hhnd : s.handlers id = some hnd) (hsa : hnd.saved = false) (hnd' : HeightHandler)
    (hh' : s.handlers id = some hnd') : hnd'.saved = false :=
  some.inj (hhnd.symm.trans hh') ▸ hsa

variable {api : AfterHeight} {seen : TipSet}

theorem Inv.work (hinv : Inv T s floor) (ha : Answers api T) (hheights : ∀ ts, T.mem ts → 0 ≤ ts.height)
    (hhnd : s.handlers id = some hnd) (hpc : hnd.pc = .fetching seen) :
    Inv T (s.set id (hnd.work api s.events.gcConfidence s.events.head seen)) floor := by
  have hpl := hinv.placed id hnd hhnd
  rw [Placed, hpc] at hpl
  obtain ⟨hacc, hse, hle⟩ := hpl
  obtain ⟨hlog, hwo⟩ := (hinv.log id hnd hhnd).work s.events.head ha hheights hacc hse.mem hle
  have hold := unsaved hhnd (by simp [saved, hpc])
  generalize hnd.work api s.events.gcConfidence s.events.head seen = hnd' at hlog hwo ⊢
  refine hinv.set hold hlog ?_ (by cases hwo <;> simp [saved, *])
  unfold Placed
  cases hwo with
  | failed err hpc' hcalled =>
    rw [hpc']
    exact hcalled
  | deep hpc' hfirst hdeep =>
    rw [hpc']
    obtain ⟨ts, hts, hlo⟩ := hfirst
    exact ⟨⟨ts, hts, hse.deep _ ts hdeep hlo⟩, hdeep.trans hse.le⟩
  | settled hpc' hacc' hnonneg hset =>
    rw [hpc']
    exact ⟨hacc', hse.mem, hnonneg, hset⟩

section
variable (hinv : Inv T s floor) (hheights : ∀ ts, T.mem ts → 0 ≤ ts.height) (hhnd : s.handlers id = some hnd)
include hinv hheights hhnd

theorem Inv.unwind (hpc : hnd.pc = .reverting seen) : Inv T (s.set id (hnd.unwind s.events.head seen)) floor := by
  have hpl := hinv.placed id hnd hhnd
  rw [Placed, hpc] at hpl
  obtain ⟨hacc, hse, hlt, hcalled⟩ := hpl
  have hold := unsaved hhnd (by simp [saved, hpc])
  have hpo := hheights seen hse
  have htr := hacc.triggerAt
  have hco := hacc.nonneg
  refine hinv.set hold ((hinv.log id hnd hhnd).undone hcalled hse (fun hb => by cases hb) _)
    ⟨hacc.congr rfl rfl, hse, ?_, fun hb => (by cases hb), fun hb => (by cases hb), fun hh => ?_, fun hh => ?_⟩ rfl
  · show 0 ≤ hnd.height
    omega
  · have hh : hnd.height ≤ seen.height := hh
    omega
  · have hh : hnd.triggerAt ≤ seen.height := hh
    omega

theorem Inv.relock (hpc : hnd.pc = .relocking seen) :
    Inv T (if seen.equals s.events.head then s.save id hnd else s.enter id hnd) floor := by
  have hpl := hinv.placed id hnd hhnd
  rw [Placed, hpc] at hpl
  obtain ⟨hacc, hse, hnonneg, hset⟩ := hpl
  have hlog := hinv.log id hnd hhnd
  have hold := unsaved hhnd (by simp [saved, hpc])
  split_ifs with heq
  · obtain rfl := T.eq_of_equals seen s.events.head hse hinv.mem heq
    exact hinv.save hold hlog hacc hnonneg hset
  · exact hinv.enter hheights hold hlog hacc
end

section
variable (e : HeightEvents) (ts : TipSet)

def floorAfter (floor : Int) : Int :=
  if e.gcDue ts then max floor (ts.height - e.gcConfidence) else floor

@[simp] theorem updateHead_rest :
    (e.updateHead ts).head = ts ∧ (e.updateHead ts).gcConfidence = e.gcConfidence := by
  unfold updateHead
  split <;> simp

theorem updateHead_heights :
    let collected m := if e.gcDue ts then collect m (addEpoch ts.height (-e.gcConfidence)) else m
    (e.updateHead ts).tsHeights = collected e.tsHeights ∧ (e.updateHead ts).triggerHeights = collected e.triggerHeights := by
  unfold updateHead
  split <;> simp [*]
end

section
variable (hinv : Inv T s floor)
include hinv

theorem Inv.move (hid : s.loop = .idle) {next : TipSet} (hmem : T.mem next)
    (hra : 0 ≤ next.height ∧ next.height < 2 ^ 63) {maxHeight : Int} (hon : loop.On T next)
    (hlo : maxHeight - s.events.gcConfidence ≤ next.height) (hh : next.height ≤ maxHeight)
    (hpl : ∀ hnd, Placed T s.events.gcConfidence s.maxHeight s.events.head s.events.head.height s.events.head.height hnd → Placed T s.events.gcConfidence maxHeight next (loop.done next) (loop.top next) hnd)
    (hd : s.events.floorAfter next floor ≤ loop.done next + 1)
    (hm : s.events.floorAfter next floor ≤ maxHeight - s.events.gcConfidence) :
    Inv T { s with events := s.events.updateHead next, loop := loop, maxHeight := maxHeight }
      (s.events.floorAfter next floor) := by
  obtain ⟨hgc0, hgc1⟩ := hinv.gc
  have htg : addEpoch next.height (-s.events.gcConfidence) = next.height - s.events.gcConfidence :=
    Int.bmod_eq_of_le (by omega) (by omega)
  -- a handler at or above the new floor is above the old one, and its height is not collected
  have hfl : ∀ x, s.events.floorAfter next floor ≤ x →
      floor ≤ x ∧ (s.events.gcDue next = true → addEpoch next.height (-s.events.gcConfidence) ≤ x) := by
    intro x hx
    unfold floorAfter at hx
    rw [htg]
    split_ifs at hx with hdu
    · exact ⟨(le_max_left _ _).trans hx, fun _ => (le_max_right _ _).trans hx⟩
    · exact ⟨hx, fun hb => absurd hb hdu⟩
  refine ⟨?_, ?_, ?_, ?_, ?_, hinv.log, fun id hnd hhnd => ?_, ?_, ?_, ?_, ?_⟩
  · simpa using hinv.gc
  · simpa using hmem
  · simpa using hlo
  · simpa using hh
  · simpa using hon
  · have hold := hinv.placed id hnd hhnd
    rw [hid] at hold
    simpa using hpl hnd hold
  · dsimp only
    rw [(updateHead_heights _ _).1]
    exact hinv.ts.collect hfl
  · dsimp only
    rw [(updateHead_heights _ _).2]
    exact hinv.trigger.collect hfl
  · simpa using hd
  · simpa using hm

section
variable (hheights : ∀ ts, T.mem ts → 0 ≤ ts.height ∧ ts.height < 2 ^ 63) (hid : s.loop = .idle)
include hheights hid

theorem Inv.apply (hpa : Path T s (.apply fromTs toTs)) (hsa : Sane s (.apply fromTs toTs)) :
    ∃ floor', Inv T { s with
      events := s.events.updateHead toTs
      loop := .applying fromTs toTs (fromTs.height + 1)
      maxHeight := max s.maxHeight toTs.height } floor' := by
  obtain ⟨rfl, hmem, hpar⟩ := hpa
  have hlt := T.height_parent toTs s.events.head hpar
  have hlo := hinv.low
  have hh := hinv.high
  have hm := hinv.floor_max
  have hgc := hinv.gc.1
  refine ⟨_, hinv.move hid hmem (hheights toTs hmem) ⟨rfl, hpar, by omega, by omega⟩ ?_ (le_max_right _ _) ?_ ?_ ?_⟩
  · omega
  · intro hnd hpl
    have hd : (Loop.applying s.events.head toTs (s.events.head.height + 1)).done toTs = s.events.head.height := by
      show s.events.head.height + 1 - 1 = _
      omega
    rw [hd]
    exact hpl.apply hpar
  · show _ ≤ s.events.head.height + 1 - 1 + 1
    unfold floorAfter
    split_ifs with hdu
    · have := hsa hdu
      omega
    · omega
  · unfold floorAfter
    split_ifs <;> omega

theorem Inv.revert (hpa : Path T s (.revert fromTs toTs)) :
    ∃ floor', Inv T { s with
      events := s.events.updateHead toTs, loop := .reverting fromTs toTs fromTs.height } floor' := by
  obtain ⟨rfl, hpar, hli⟩ := hpa
  have hmem := T.parent_mem s.events.head toTs hpar
  have hlt := T.height_parent s.events.head toTs hpar
  have hh := hinv.high
  have hm := hinv.floor_max
  have hgc := hinv.gc.1
  refine ⟨_, hinv.move hid hmem (hheights toTs hmem) ⟨rfl, hpar, by omega⟩ hli (by omega) ?_ ?_ ?_⟩
  · exact fun hnd hpl => hpl.revert hpar hli
  · show _ ≤ toTs.height + 1
    unfold floorAfter
    split_ifs <;> omega
  · unfold floorAfter
    split_ifs <;> omega
end

theorem Inv.pass {g : HeightHandler → HeightHandler}
    (hsame : ∀ hnd, (g hnd).height = hnd.height ∧ (g hnd).confidence = hnd.confidence ∧ (g hnd).pc = hnd.pc)
    {handlers : HandlerID → Option HeightHandler}
    (hm : ∀ id, handlers id = (s.handlers id).map fun hnd => if hnd.saved then g hnd else hnd)
    (hon : loop.On T s.events.head) (hfl : floor ≤ loop.done s.events.head + 1)
    (hg : ∀ hnd, Accepted s.events.gcConfidence hnd → 0 ≤ hnd.height → Log T hnd → Settled T s.events.head (s.loop.done s.events.head) (s.loop.top s.events.head) hnd → Settled T s.events.head (loop.done s.events.head) (loop.top s.events.head) (g hnd) ∧ Log T (g hnd)) :
    Inv T { s with handlers := handlers, loop := loop } floor := by
  have hsa : ∀ hnd, (g hnd).saved = hnd.saved := fun hnd => by simp only [saved, hsame]
  have htr : ∀ hnd, (g hnd).triggerAt = hnd.triggerAt := fun hnd => by simp only [triggerAt, hsame]
  -- a handler is one of before, changed only if the loop has it
  have hb : ∀ {id hnd'}, handlers id = some hnd' → ∃ hnd, s.handlers id = some hnd ∧
      ((hnd.saved = true ∧ hnd' = g hnd) ∨ (hnd.saved = false ∧ hnd' = hnd)) := by
    intro id hnd' hh'
    rw [hm, map_eq_some_iff] at hh'
    obtain ⟨hnd, hhnd, rfl⟩ := hh'
    refine ⟨hnd, hhnd, ?_⟩
    cases hs : hnd.saved <;> simp
  have hfo : ∀ id hnd, s.handlers id = some hnd → hnd.saved = true → handlers id = some (g hnd) := by
    intro id hnd hhnd hs
    rw [hm, hhnd, map_some, if_pos hs]
  have hb' : ∀ id hnd', handlers id = some hnd' → hnd'.saved = true →
      ∃ hnd, s.handlers id = some hnd ∧ hnd.saved = true ∧ hnd' = g hnd := by
    intro id hnd' hh' hs'
    obtain ⟨hnd, hhnd, hg | ⟨hs, rfl⟩⟩ := hb hh'
    · exact ⟨hnd, hhnd, hg⟩
    · simp [hs] at hs'
  refine ⟨hinv.gc, hinv.mem, hinv.low, hinv.high, hon, fun id hnd' hh' => ?_, fun id hnd' hh' => ?_,
    hinv.ts.map hfo hb' hsa fun hnd => (hsame hnd).1, hinv.trigger.map hfo hb' hsa htr, hfl, hinv.floor_max⟩
  · obtain ⟨hnd, hhnd, ⟨hs, rfl⟩ | ⟨hs, rfl⟩⟩ := hb hh'
    · obtain ⟨hacc, hnonneg, hset⟩ := (hinv.placed id hnd hhnd).settled hs
      exact (hg hnd hacc hnonneg (hinv.log id hnd hhnd) hset).2
    · exact hinv.log id _ hhnd
  obtain ⟨hnd, hhnd, ⟨hs, rfl⟩ | ⟨hs, rfl⟩⟩ := hb hh'
  · obtain ⟨hacc, hnonneg, hset⟩ := (hinv.placed id hnd hhnd).settled hs
    obtain ⟨hheight, hco, -⟩ := hsame hnd
    exact .of_settled ((hsa hnd).trans hs) (hacc.congr hheight hco) (hheight ▸ hnonneg) (hg hnd hacc hnonneg (hinv.log id hnd hhnd) hset).1
  · exact (hinv.placed id _ hhnd).of_not_saved hs

theorem Inv.ended (hdone : s.loop.done s.events.head = s.events.head.height)
    (htop : s.loop.top s.events.head = s.events.head.height) : Inv T { s with loop := .idle } floor := by
  obtain ⟨hgc, hmem, hlow, hhigh, -, hlog, hpl, hts, htr, hd, hm⟩ := hinv
  rw [hdone] at hpl hd
  rw [htop] at hpl
  exact ⟨hgc, hmem, hlow, hhigh, trivial, hlog, hpl, hts, htr, hd, hm⟩

theorem Inv.applyAt_eq (hx : floor ≤ x) (toTs : TipSet) (id : HandlerID) :
    s.applyAt toTs x id = (s.handlers id).map fun hnd => if hnd.saved then hnd.passed toTs x else hnd := by
  unfold Machine.applyAt
  rw [each_apply (fun hnd => fire_fire hnd toTs x), each_apply (f := (·.stash toTs)) (fun hnd => rfl)]
  rcases hhnd : s.handlers id with _ | hnd
  · simp
  simp only [hinv.ts.mem_iff hx hhnd, hinv.trigger.mem_iff hx hhnd, map_some]
  unfold passed
  cases hs : hnd.saved with
  | false => simp
  | true =>
    by_cases htr : hnd.triggerAt = x <;> by_cases hheight : hnd.height = x <;> simp [htr, hheight]

theorem Inv.revertAt_eq (hx : floor ≤ x) (fromTs toTs : TipSet) (id : HandlerID) :
    s.revertAt fromTs toTs x id = (s.handlers id).map fun hnd =>
      if hnd.saved then (if hnd.height = x then hnd.undo fromTs toTs else hnd) else hnd := by
  unfold Machine.revertAt
  rw [each_apply (fun hnd => undo_undo hnd fromTs toTs)]
  rcases hhnd : s.handlers id with _ | hnd
  · simp
  simp only [hinv.ts.mem_iff hx hhnd, map_some]
  cases hs : hnd.saved with
  | false => simp
  | true => by_cases hheight : hnd.height = x <;> simp [hheight]
end

theorem passed_fields (hnd : HeightHandler) (toTs : TipSet) (h : Int) : (hnd.passed toTs h).height = hnd.height ∧
    (hnd.passed toTs h).confidence = hnd.confidence ∧ (hnd.passed toTs h).pc = hnd.pc := by
  unfold passed fire stash
  split_ifs <;> exact ⟨rfl, rfl, rfl⟩

theorem undo_fields (hnd : HeightHandler) (fromTs toTs : TipSet) (h : Int) :
    (if hnd.height = h then hnd.undo fromTs toTs else hnd).height = hnd.height ∧
      (if hnd.height = h then hnd.undo fromTs toTs else hnd).confidence = hnd.confidence ∧
      (if hnd.height = h then hnd.undo fromTs toTs else hnd).pc = hnd.pc := by
  unfold undo
  split_ifs <;> exact ⟨rfl, rfl, rfl⟩

variable {s' : Machine}

theorem Inv.tick (hinv : Inv T s floor) (hst : step api s .tick = some s') : Inv T s' floor := by
  have hon := hinv.on
  have hd := hinv.floor_done
  have hma := hinv.floor_max
  have hlow := hinv.low
  unfold HeightEvents.step at hst
  cases hlo : s.loop with
  | idle => simp [hlo] at hst
  | applying fromTs toTs x =>
    rw [hlo] at hon hd
    obtain ⟨hhead, hpa, hlt, hle⟩ := hon
    have hd : floor ≤ x - 1 + 1 := hd
    simp only [hlo] at hst
    split_ifs at hst with hm
    · cases hst
      refine hinv.pass (passed_fields · toTs x) (hinv.applyAt_eq (by omega) toTs) ⟨hhead, hpa, by omega, by omega⟩ ?_ ?_
      · show floor ≤ x + 1 - 1 + 1
        omega
      intro hnd hacc hnonneg hlog hset
      have hn : (Loop.applying fromTs toTs (x + 1)).done s.events.head = x := by
        show x + 1 - 1 = x
        omega
      rw [hlo, hhead] at hset
      rw [hn, hhead]
      exact hset.passed hacc hnonneg hlog (hhead ▸ hinv.mem) hpa hlt hm
    -- every height up to that of the new head is done
    cases hst
    refine hinv.ended ?_ ?_
    · rw [hlo, hhead]
      show x - 1 = toTs.height
      omega
    · rw [hlo, hhead]
      rfl
  | reverting fromTs toTs x =>
    rw [hlo] at hon hd
    obtain ⟨hhead, hpa, hle⟩ := hon
    have hd : floor ≤ toTs.height + 1 := hd
    simp only [hlo] at hst
    split_ifs at hst with hm
    · cases hst
      refine hinv.pass (undo_fields · fromTs toTs x) (hinv.revertAt_eq (by omega) fromTs toTs) ⟨hhead, hpa, by omega⟩ hd ?_
      intro hnd hacc hnonneg hlog hset
      rw [hlo, hhead] at hset
      rw [hhead]
      exact hset.backed hacc hlog (hhead ▸ hinv.mem) hm
    cases hst
    refine hinv.ended ?_ ?_
    · rw [hlo, hhead]
      rfl
    · rw [hlo, hhead]
      show x = toTs.height
      omega

theorem log_empty {h confidence : Int} {pc : ChainAtPc} : Log T ⟨h, confidence, none, false, pc, []⟩ :=
  ⟨fun hb => (by cases hb), trivial, rfl, fun _ hc => (by cases hc), fun hb => by cases hb⟩

theorem Inv.step (hinv : Inv T s floor) (ha : Answers api T)
    (hheights : ∀ ts, T.mem ts → 0 ≤ ts.height ∧ ts.height < 2 ^ 63) {l : Label} (hpa : Path T s l)
    (hsa : Sane s l) (hst : step api s l = some s') : ∃ floor', Inv T s' floor' := by
  have hpo : ∀ ts, T.mem ts → 0 ≤ ts.height := fun ts hts => (hheights ts hts).1
  rcases eq_or_ne l .tick with rfl | hti
  · exact ⟨floor, hinv.tick hst⟩
  revert hti hpa hsa hst
  fun_cases HeightEvents.step with
  | case2 id h confidence hhnd hco =>
    rintro - - ⟨⟩ -
    exact ⟨floor, hinv.set (by simp [hhnd]) log_empty rfl rfl⟩
  | case3 id h confidence hhnd hco =>
    rintro - ⟨hnonneg, hlow, hh⟩ ⟨⟩ -
    exact ⟨floor, hinv.enter hpo (by simp [hhnd]) log_empty ⟨hnonneg, not_lt.mp hco, hlow, hh⟩⟩
  | case5 id hnd hhnd seen hpc =>
    rintro - - ⟨⟩ -
    exact ⟨floor, hinv.work ha hpo hhnd hpc⟩
  | case6 id hnd hhnd seen hpc =>
    rintro - - ⟨⟩ -
    exact ⟨floor, hinv.unwind hpo hhnd hpc⟩
  | case9 id hnd hhnd seen hpc =>
    rintro - - ⟨⟩ -
    exact ⟨floor, hinv.relock hpo hhnd hpc⟩
  | case11 fromTs toTs hlo =>
    rintro hpa hsa ⟨⟩ -
    exact hinv.apply hheights hlo hpa hsa
  | case13 fromTs toTs hlo =>
    rintro hpa hsa ⟨⟩ -
    exact hinv.revert hheights hlo hpa
  | case15 | case16 | case17 | case18 | case19 => exact fun _ _ _ ht => absurd rfl ht
  | _ => exact nofun

theorem new_inv {gcConfidence : Int} (hgc : 0 ≤ gcConfidence ∧ gcConfidence < 2 ^ 63) (hhead : T.mem head) :
    Inv T (new gcConfidence head) (head.height - gcConfidence) := by
  have hli : ∀ key, Listed (fun _ => none) (head.height - gcConfidence) ∅ key := fun key =>
    ⟨fun x id hid => by simp [idsAt] at hid, fun _ _ hb => by cases hb⟩
  refine ⟨hgc, hhead, ?_, le_rfl, trivial, fun _ _ hb => (by cases hb), fun _ _ hb => (by cases hb), hli _, hli _, ?_, le_rfl⟩
  · show head.height - gcConfidence ≤ head.height
    omega
  · show head.height - gcConfidence ≤ head.height + 1
    omega

section
variable (hinv : Inv T s floor) (hid : s.loop = .idle) (hhnd : s.handlers id = some hnd)
include hinv hid hhnd

theorem Inv.last_onChain
    {saved : Bool} (hpc : hnd.pc = .returned saved err) {c : LoggedCall} (hla : hnd.calls.getLast? = some c)
    {curH : Int} (hca : c.call = .handle (some ts) curH) : AncOrSelf T.parent ts s.events.head := by
  have hlog := hinv.log id hnd hhnd
  have hcalled : hnd.called = true := by
    have hk := alternate_last hlog.alternate hla
    simpa [hlog.next, LoggedCall.isHandle, hca] using hk.symm
  have hts : hnd.ts = some ts := by
    obtain ⟨c', curH', hl', hc'⟩ := hlog.last hcalled
    obtain rfl : c = c' := some.inj (hla.symm.trans hl')
    rw [hca] at hc'
    injection hc' with hts
    exact hts.symm
  have hfirst : First T s.events.head hnd := by
    have hpl := hinv.placed id hnd hhnd
    rw [hid] at hpl
    unfold Placed at hpl
    rw [hpc] at hpl
    cases saved with
    | true => exact hpl.2.2.reached (hpl.2.2.top hcalled)
    | false =>
      rcases err with _ | e
      · exact hpl.1
      have hb : hnd.called = false := hpl
      simp [hcalled] at hb
  obtain ⟨t, ht, hlo⟩ := hfirst
  obtain rfl : ts = t := some.inj (hts.symm.trans ht)
  exact hlo.anc

theorem Inv.last_handle
    (hpc : hnd.pc = .returned true err) (hd : hnd.height + hnd.confidence ≤ s.events.head.height) :
    ∃ c ts curH, hnd.calls.getLast? = some c ∧ c.call = .handle (some ts) curH := by
  have hpl := hinv.placed id hnd hhnd
  rw [hid] at hpl
  obtain ⟨hacc, -, hset⟩ := hpl.settled (by simp [saved, hpc])
  have htr := hacc.triggerAt
  have hcalled : hnd.called = true := hset.due (by rw [htr]; exact hd)
  have hlog := hinv.log id hnd hhnd
  obtain ⟨c, curH, hla, hca⟩ := hlog.last hcalled
  obtain ⟨t, ht, -⟩ := hlog.mem_ts hcalled
  exact ⟨c, t, curH, hla, by rw [hca, ht]⟩
end

/-- **Handlers at a height**, in every interleaving along a path of the tree. The calls of a handler alternate, each with
the first tipset at or above the height on its caller's chain; between notifications a handler whose `ChainAt` has returned
was last called, or reverted, with a tipset of the current chain. -/
theorem chainAt_follows_chain (T : TipSetTree) (hheights : ∀ ts, T.mem ts → 0 ≤ ts.height ∧ ts.height < 2 ^ 63)
    (api : AfterHeight) (hapi : Answers api T) (gcConfidence : Int) (hgc : 0 ≤ gcConfidence ∧ gcConfidence < 2 ^ 63)
    (head : TipSet) (hhead : T.mem head) (labels : List Label)
    (hlegal : Legal (step api) (fun s l => Path T s l ∧ Sane s l) (new gcConfidence head) labels) (s : Machine)
    (hrun : run (step api) (new gcConfidence head) labels = some s) (id : HandlerID) (hnd : HeightHandler)
    (hhnd : s.handlers id = some hnd) :
    Alternate true hnd.calls ∧ (∀ c ∈ hnd.calls, ∀ ts curH, c.call = .handle ts curH →
      (∃ t, ts = some t ∧ LowestAbove T c.seen hnd.height t) ∧ hnd.height + hnd.confidence ≤ c.seen.height ∧
        (c.immediate = false → c.seen = c.now)) ∧ (s.loop = .idle → ∀ saved err, hnd.pc = .returned saved err →
      (∀ c ts curH, hnd.calls.getLast? = some c → c.call = .handle (some ts) curH →
        AncOrSelf T.parent ts s.events.head) ∧
      (saved = true → hnd.height + hnd.confidence ≤ s.events.head.height →
        ∃ c ts curH, hnd.calls.getLast? = some c ∧ c.call = .handle (some ts) curH)) := by
  have hinv : ∃ floor, Inv T s floor := by
    refine run_legal (P := fun s => ∃ floor, Inv T s floor) ?_ ⟨_, new_inv hgc hhead⟩ hlegal hrun
    rintro s l s' ⟨floor, hinv⟩ ⟨hpa, hsa⟩ hst
    exact hinv.step hapi hheights hpa hsa hst
  obtain ⟨floor, hinv⟩ := hinv
  have hlog := hinv.log id hnd hhnd
  refine ⟨hlog.alternate, fun c hc ts curH hca => ?_, fun hid saved err hpc => ⟨?_, ?_⟩⟩
  · have hri := hlog.right c hc
    exact ⟨hri.first ts curH hca, hri.confident ts curH hca, hri.now⟩
  · exact fun c ts curH hla hca => hinv.last_onChain hid hhnd hpc hla hca
  · rintro rfl hd
    exact hinv.last_handle hid hhnd hpc hd

def forkApi : AfterHeight := afterHeight forkStorage

theorem forkTree_epochs : ∀ ts, forkTree.mem ts → 0 ≤ ts.height ∧ ts.height < 2 ^ 63 := by
  show ∀ ts ∈ forkTips, 0 ≤ ts.height ∧ ts.height < 2 ^ 63
  decide

/-- `forkRight` is applied, reverted and applied again. -/
theorem chainAt_follows_right :
    let labels : List Label := [.chainAt 0 1 0, .apply forkRoot forkRight, .tick, .tick, .revert forkRight forkRoot, .tick, .tick,
      .apply forkRoot forkRight, .tick, .tick]
    ∃ s hnd, run (step forkApi) (new 900 forkRoot) labels = some s ∧ s.handlers 0 = some hnd ∧ hnd.calls.length = 3 ∧
      Alternate true hnd.calls ∧ ∃ c ts curH, hnd.calls.getLast? = some c ∧ c.call = .handle (some ts) curH := by
  intro labels
  have hleg : Legal (step forkApi) (fun s l => Path forkTree s l ∧ Sane s l) (new 900 forkRoot) labels := by
    refine ⟨⟨trivial, by decide, by decide, by decide⟩, fun s1 h1 => ?_⟩
    cases h1
    refine ⟨⟨⟨rfl, forkTree_mem (by decide), by decide⟩, fun _ => by decide⟩, fun s2 h2 => ?_⟩
    cases h2
    refine ⟨⟨trivial, trivial⟩, fun s3 h3 => ⟨⟨trivial, trivial⟩, fun s4 h4 => ?_⟩⟩
    cases h3
    cases h4
    refine ⟨⟨⟨rfl, by decide, by decide⟩, trivial⟩, fun s5 h5 => ⟨⟨trivial, trivial⟩, fun s6 h6 => ⟨⟨trivial, trivial⟩, ?_⟩⟩⟩
    intro s7 h7
    cases h5
    cases h6
    cases h7
    refine ⟨⟨⟨rfl, forkTree_mem (by decide), by decide⟩, fun _ => by decide⟩, fun _ _ => ⟨⟨trivial, trivial⟩, fun _ _ => ?_⟩⟩
    exact ⟨⟨trivial, trivial⟩, fun _ _ => trivial⟩
  obtain ⟨ha, -, hla⟩ := chainAt_follows_chain forkTree forkTree_epochs forkApi
    (afterHeight_answers forkStorage_answers) 900 (by decide) forkRoot (forkTree_mem (by decide)) _ hleg _ rfl 0 _ rfl
  exact ⟨_, _, rfl, rfl, rfl, ha, (hla rfl true none rfl).2 rfl (by decide)⟩

/-- `ChainAt` releases the lock, the head is reverted, and `ChainAt` calls the handler with it. -/
theorem chainAt_stale_call :
    Legal (step forkApi) (fun s l => Path forkTree s l ∧ Sane s l) (new 900 forkRight)
      [.chainAt 0 1 0, .revert forkRight forkRoot, .tick, .tick, .work 0] ∧
    ∃ s hnd, run (step forkApi) (new 900 forkRight)
        [.chainAt 0 1 0, .revert forkRight forkRoot, .tick, .tick, .work 0] = some s ∧
      s.loop = .idle ∧ s.handlers 0 = some hnd ∧
      hnd.calls = [⟨.handle (some forkRight) 1, true, forkRight, s.events.head⟩] ∧
      ¬ AncOrSelf forkTree.parent forkRight s.events.head := by
  refine ⟨?_, _, _, rfl, rfl, rfl, rfl, ?_⟩
  · refine ⟨⟨trivial, by decide, by decide, by decide⟩, fun s1 h1 => ?_⟩
    cases h1
    refine ⟨⟨⟨rfl, by decide, by decide⟩, trivial⟩, fun s2 h2 => ?_⟩
    cases h2
    exact ⟨⟨trivial, trivial⟩, fun _ _ => ⟨⟨trivial, trivial⟩, fun _ _ => ⟨⟨trivial, trivial⟩, fun _ _ => trivial⟩⟩⟩
  intro hanc
  have hle := hanc.height_le forkTree.height_parent
  exact absurd hle (by decide)

end HeightEvents
end Lotus.Events

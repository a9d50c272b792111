/-
# Coalescing head changes (`chain/store/coalescer.go`).

A tipset that one change applies and another reverts cancels, in either order; the rest is joined. What is pending is the
minimal path from the head last handed on to the current one: paths compose.
-/
import Lotus.Store.Reorg

namespace Lotus.Store
open Lib.Ancestry

/-! ## The code -/

/-- `HeadChangeCoalescer` and the variables of `background`; `revert` and `apply` are set together. -/
structure HeadChangeCoalescer where
  pending : Option (List TipSet × List TipSet)
  first : Option Int
  last : Option Int
  timerC : Bool

def HeadChangeCoalescer.new : HeadChangeCoalescer := ⟨none, none, none, false⟩

/-- The arguments of `NewHeadChangeCoalescer` that `background` compares times with. -/
structure CoalescerDelays where
  maxDelay : Int
  mergeInterval : Int

namespace HeadChangeCoalescer

def revert (c : HeadChangeCoalescer) : List TipSet := (c.pending.map Prod.fst).getD []

def apply (c : HeadChangeCoalescer) : List TipSet := (c.pending.map Prod.snd).getD []

/-- `HeadChangeCoalescer.merge`; the maps are given by their keys. -/
def merge (pend incoming : List TipSet) (cancel1 cancel2 : List TipSetKey) : List TipSet :=
  let kept := fun ts : TipSet => !cancel1.contains ts.key && !cancel2.contains ts.key
  pend.filter kept ++ incoming.filter kept

def coalesce (c : HeadChangeCoalescer) (revert apply : List TipSet) : HeadChangeCoalescer :=
  let pendRevert := c.revert.map TipSet.key
  let pendApply := c.apply.map TipSet.key
  let reverting := revert.map TipSet.key
  let applying := apply.map TipSet.key
  let newRevert := merge c.revert revert pendApply applying
  let newApply := merge c.apply apply pendRevert reverting
  { c with pending := some (newRevert, newApply) }

/-- What `background` waits for. -/
inductive Event where
  | headChange (revert apply : List TipSet) (now : Int)
  | timer (now : Int)
  | done

/-- One round of `background`: the coalescer after it, and what it dispatched. -/
def step (delays : CoalescerDelays) (c : HeadChangeCoalescer) :
    Event → HeadChangeCoalescer × Option (List TipSet × List TipSet)
  | .headChange revert apply now =>
    let c := c.coalesce revert apply
    ({ c with last := some now, first := some (c.first.getD now), timerC := true }, none)
  | .timer now =>
    if c.timerC then
      let sinceFirst := now - c.first.getD 0
      let sinceLast := now - c.last.getD 0
      if sinceLast < delays.mergeInterval ∧ sinceFirst < delays.maxDelay then (c, none)
      else (.new, some (c.revert, c.apply))
    else (c, none)
  | .done =>
    match c.pending with
    | none => (c, none)
    | some p => ({ c with pending := none }, some p)

/-- `background` on a list of events; none is received once the context is done. -/
def background (delays : CoalescerDelays) :
    HeadChangeCoalescer → List Event → HeadChangeCoalescer × List (List TipSet × List TipSet)
  | c, [] => (c, [])
  | c, .done :: _ => ((c.step delays .done).1, (c.step delays .done).2.toList)
  | c, e :: es =>
    let rest := background delays (c.step delays e).1 es
    (rest.1, (c.step delays e).2.toList ++ rest.2)

end HeadChangeCoalescer

/-! ## Heads and the changes between them -/

inductive Leads (T : TipSetTree) : TipSet → List (List TipSet × List TipSet) → TipSet → Prop where
  | nil (h : TipSet) : Leads T h [] h
  | cons {h h' h'' : TipSet} {revert apply : List TipSet} {rest : List (List TipSet × List TipSet)}
      (mem : T.mem h') (path : MinimalPath T.parent h h' revert apply) (tail : Leads T h' rest h'') :
      Leads T h ((revert, apply) :: rest) h''

def HeadChangeCoalescer.received : List HeadChangeCoalescer.Event → List (List TipSet × List TipSet)
  | [] => []
  | .headChange revert apply _ :: es => (revert, apply) :: received es
  | .timer _ :: es => received es
  | .done :: _ => []

def TipSetTree.Keyed (T : TipSetTree) : Prop := ∀ a b, T.mem a → T.mem b → a.key = b.key → a = b

namespace HeadChangeCoalescer
variable {T : TipSetTree} {c : HeadChangeCoalescer}

structure Pending (T : TipSetTree) (base head : TipSet) (c : HeadChangeCoalescer) : Prop where
  base_mem : T.mem base
  head_mem : T.mem head
  path : MinimalPath T.parent base head c.revert c.apply

theorem mem_of_minimalPath {a b : TipSet} {r p : List TipSet} (ha : T.mem a) (hb : T.mem b)
    (h : MinimalPath T.parent a b r p) : (∀ y ∈ r, T.mem y) ∧ ∀ y ∈ p, T.mem y := by
  obtain ⟨c, -, hr, hp⟩ := h
  refine ⟨hr.forall_mem T.parent_mem ha, fun y hy => ?_⟩
  exact hp.forall_mem T.parent_mem hb y (List.mem_reverse.mpr hy)

theorem kept_iff (hk : T.Keyed) {l1 l2 : List TipSet} (h1 : ∀ y ∈ l1, T.mem y)
    (h2 : ∀ y ∈ l2, T.mem y) {y : TipSet} (hy : T.mem y) :
    (!(l1.map TipSet.key).contains y.key && !(l2.map TipSet.key).contains y.key) = true ↔ y ∉ l1 ∧ y ∉ l2 := by
  have hmem : ∀ {l : List TipSet}, (∀ z ∈ l, T.mem z) → ((l.map TipSet.key).contains y.key = true ↔ y ∈ l) := by
    intro l hl
    rw [List.contains_iff_mem, List.mem_map]
    constructor
    · rintro ⟨z, hz, hke⟩
      rwa [← hk z y (hl z hz) hy hke]
    · intro hyl
      exact ⟨y, hyl, rfl⟩
  rw [Bool.and_eq_true, Bool.not_eq_true', Bool.not_eq_true', ← Bool.not_eq_true, ← Bool.not_eq_true, hmem h1, hmem h2]

variable {head : TipSet} {base : TipSet}

theorem Pending.coalesce (hk : T.Keyed) {head' : TipSet} {revert apply : List TipSet}
    (h : Pending T base head c) (hmem : T.mem head') (hpa : MinimalPath T.parent head head' revert apply) :
    MinimalPath T.parent base head' (c.coalesce revert apply).revert (c.coalesce revert apply).apply := by
  obtain ⟨hr, hp⟩ := mem_of_minimalPath h.base_mem h.head_mem h.path
  obtain ⟨hr', hp'⟩ := mem_of_minimalPath h.head_mem hmem hpa
  refine MinimalPath.merge T.height_parent h.path hpa ?_ ?_
  · rintro y (hy | hy)
    · exact kept_iff hk hp hp' (hr y hy)
    · exact kept_iff hk hp hp' (hr' y hy)
  rintro y (hy | hy)
  · exact kept_iff hk hr hr' (hp y hy)
  · exact kept_iff hk hr hr' (hp' y hy)

theorem Pending.of_none (hmem : T.mem head) (hn : c.pending = none) : Pending T head head c := by
  refine ⟨hmem, hmem, ?_⟩
  have hr : c.revert = [] := by simp [revert, hn]
  have hp : c.apply = [] := by simp [apply, hn]
  rw [hr, hp]
  exact .refl head

/-- **One round without a head change.** What is dispatched leads to the head; nothing is pending after it. -/
theorem Pending.step_other (delays : CoalescerDelays) (h : Pending T base head c)
    {e : Event} (he : e = .done ∨ ∃ now, e = .timer now) :
    ((c.step delays e).2 = none ∧ Pending T base head (c.step delays e).1) ∨
      ∃ out, (c.step delays e).2 = some out ∧ MinimalPath T.parent base head out.1 out.2 ∧
        Pending T head head (c.step delays e).1 := by
  rcases he with rfl | ⟨now, rfl⟩
  · rw [step]
    rcases hp : c.pending with _ | ⟨r, p⟩
    · exact Or.inl ⟨rfl, h⟩
    · refine Or.inr ⟨(r, p), rfl, ?_, .of_none h.head_mem rfl⟩
      simpa [revert, apply, hp] using h.path
  rw [step]
  split
  · dsimp only
    split
    · exact Or.inl ⟨rfl, h⟩
    · exact Or.inr ⟨_, rfl, h.path, .of_none h.head_mem rfl⟩
  · exact Or.inl ⟨rfl, h⟩

theorem Pending.dispatched {delays : CoalescerDelays} (h : Pending T base head c)
    {e : Event} {out : List TipSet × List TipSet} (ho : (c.step delays e).2 = some out) :
    MinimalPath T.parent base head out.1 out.2 := by
  have hoth : e = .done ∨ ∃ now, e = .timer now := by
    cases e with
    | headChange r p now => simp [step] at ho
    | timer now => exact Or.inr ⟨now, rfl⟩
    | done => exact Or.inl rfl
  rcases h.step_other delays hoth with ⟨hn, -⟩ | ⟨out', hso, hpa, -⟩
  · simp [hn] at ho
  · obtain rfl : out' = out := Option.some.inj (hso.symm.trans ho)
    exact hpa

/-- **A whole run.**  What was dispatched leads from the first head to the one handed on last, and what is pending from there
to the current one. -/
theorem background_leads (hk : T.Keyed) (delays : CoalescerDelays) {last : TipSet}
    (events : List Event) (h : Pending T base head c) (hin : Leads T head (received events) last) :
    ∃ base', Leads T base (c.background delays events).2 base' ∧
      Pending T base' last (c.background delays events).1 := by
  -- a round that receives nothing, followed by the rest of the run
  have hrn : ∀ {c : HeadChangeCoalescer} {base head : TipSet} {e : Event}
      (rest : HeadChangeCoalescer × List (List TipSet × List TipSet)), Pending T base head c →
      (e = .done ∨ ∃ now, e = .timer now) →
      (∀ b, Pending T b head (c.step delays e).1 → ∃ base', Leads T b rest.2 base' ∧ Pending T base' last rest.1) →
      ∃ base', Leads T base ((c.step delays e).2.toList ++ rest.2) base' ∧ Pending T base' last rest.1 := by
    intro c base head e rest hc he hrest
    rcases hc.step_other delays he with ⟨hn, hnext⟩ | ⟨out, ho, hpa, hnext⟩
    · rw [hn]
      exact hrest base hnext
    rw [ho]
    obtain ⟨base', hlea, hpe⟩ := hrest head hnext
    exact ⟨base', .cons hc.head_mem hpa hlea, hpe⟩
  induction events generalizing c base head with
  | nil =>
    cases hin
    exact ⟨base, .nil base, h⟩
  | cons e es ih =>
    cases e with
    | headChange r p now =>
      cases hin with
      | cons hmem hpa hta =>
        exact ih ⟨h.base_mem, hmem, h.coalesce hk hmem hpa⟩ hta
    | timer now => exact hrn _ h (Or.inr ⟨now, rfl⟩) fun b hb => ih hb hin
    | done =>
      cases hin
      have hla := hrn ((c.step delays .done).1, []) h (Or.inl rfl) fun b hb => ⟨b, .nil b, hb⟩
      rwa [List.append_nil] at hla

/-- **Coalescing preserves the net reorg**: what was dispatched leads from `h0` to some head, what is pending from there to
`hn`, and a first pair is the minimal path. -/
theorem coalesced_minimal_path (T : TipSetTree) (hkeyed : T.Keyed) (delays : CoalescerDelays)
    (events : List Event) (h0 hn : TipSet) (hmem : T.mem h0) (hin : Leads T h0 (received events) hn) :
    (∃ base, Leads T h0 (new.background delays events).2 base ∧
      MinimalPath T.parent base hn (new.background delays events).1.revert (new.background delays events).1.apply) ∧
    ((new.background delays events).2 = [] →
      ∀ e revert apply, ((new.background delays events).1.step delays e).2 = some (revert, apply) →
        MinimalPath T.parent h0 hn revert apply ∧
        (∀ ts, ts ∈ revert ↔ AncOrSelf T.parent ts h0 ∧ ¬ AncOrSelf T.parent ts hn) ∧
        (∀ ts, ts ∈ apply ↔ AncOrSelf T.parent ts hn ∧ ¬ AncOrSelf T.parent ts h0) ∧
        revert.Nodup ∧ apply.Nodup) := by
  obtain ⟨base, hlea, hpe⟩ :=
    background_leads hkeyed delays events (Pending.of_none (c := new) hmem rfl) hin
  refine ⟨⟨base, hlea, hpe.path⟩, ?_⟩
  intro hno e revert apply ho
  rw [hno] at hlea
  cases hlea
  have hpa := hpe.dispatched ho
  obtain ⟨-, hr, hp, hrs, hps⟩ := (minimalPath_iff T.height_parent).mp hpa
  refine ⟨hpa, hr, hp, hrs.imp ?_, hps.imp ?_⟩
  all_goals
    rintro x y hlt rfl
    omega

def thereAndBack : List Event :=
  [.headChange [forkLeft2, forkLeft1] [forkRight] 0, .headChange [forkRight] [forkLeft1] 1]

theorem thereAndBack_leads : Leads forkTree forkLeft2 (received thereAndBack) forkLeft1 := by
  have hth : MinimalPath forkTree.parent forkLeft2 forkRight [forkLeft2, forkLeft1] [forkRight] :=
    headChange_minimalPath forkTree_loads 9 (forkTree_mem (by decide)) (forkTree_mem (by decide)) (by decide +kernel)
  have hb : MinimalPath forkTree.parent forkRight forkLeft1 [forkRight] [forkLeft1] :=
    headChange_minimalPath forkTree_loads 9 (forkTree_mem (by decide)) (forkTree_mem (by decide)) (by decide +kernel)
  exact .cons (forkTree_mem (by decide)) hth (.cons (forkTree_mem (by decide)) hb (.nil forkLeft1))

theorem thereAndBack_minimal_path : MinimalPath forkTree.parent forkLeft2 forkLeft1 [forkLeft2] [] :=
  ((coalesced_minimal_path forkTree (fun a b ha hb => (by decide : ∀ a ∈ forkTips, ∀ b ∈ forkTips,
      a.key = b.key → a = b) a ha b hb) ⟨4, 2⟩ thereAndBack forkLeft2 forkLeft1
      (forkTree_mem (by decide)) thereAndBack_leads).2 (by decide) (.timer 9) [forkLeft2] []
      (by decide)).1

end HeadChangeCoalescer
end Lotus.Store

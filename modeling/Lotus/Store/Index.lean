/-
# The skip-list index over tipset chains (`chain/store/index.go`).

An entry of `ChainIndex` is kept for a tipset key and names some proper ancestor; the cache may lose entries at any time. So
the search stops where `walkBack` does. Loops are run for a number of rounds; `none` is one that has not ended.
-/
import Lotus.Store.Reorg

namespace Lotus.Store
open Lib.Ancestry Option

/-! ## The code -/

structure LbEntry where
  ts : TipSet
  parentHeight : Int
  targetHeight : Int
  target : TipSetKey

/-- `ChainIndex`, without the function it loads tipsets with. -/
structure ChainIndex where
  skipCache : GoMap TipSetKey LbEntry
  skipLength : Int

open ChainIndex

def ChainIndex.new : ChainIndex := ⟨∅, 20⟩

section
variable (lts : TipSetKey → Except GoError TipSet)

def walkBackLoop (epoch : Int) : Nat → TipSet → Option (Except GoError TipSet)
  | 0, _ => none
  | fuel + 1, ts =>
    match lts ts.parents with
    | .error e => some (.error e)
    | .ok pts =>
      if epoch > pts.height then some (.ok ts)
      else if epoch = pts.height then some (.ok pts)
      else walkBackLoop epoch fuel pts

def walkBack (fuel : Nat) (src : TipSet) (epoch : Int) : Option (Except GoError TipSet) :=
  if epoch > src.height then
    some (.error (.errorf "looking for tipset with height greater than start point"))
  else if epoch = src.height then some (.ok src)
  else walkBackLoop lts epoch fuel src

namespace ChainIndex
variable (ci : ChainIndex) (fuel : Nat)

def roundHeight (h : Int) : Int := h.tdiv ci.skipLength * ci.skipLength

def roundDown (ts : TipSet) : Option (Except GoError TipSet) :=
  walkBack lts fuel ts (ci.roundHeight ts.height)

/-- The target of an entry in `fillCache`, given the parent. -/
def skipTarget (ts parent : TipSet) : Option (Except GoError TipSet) :=
  let rheight := ci.roundHeight ts.height - ci.skipLength
  let rheight := if rheight < 0 then 0 else rheight
  if parent.height < rheight then some (.ok parent)
  else
    match walkBack lts fuel parent rheight with
    | none => none
    | some (.error e) => some (.error (.wrap "fillCache walkback" e))
    | some (.ok ts) => some (.ok ts)

/-- `ChainIndex.fillCache`. The entry of genesis is not kept. -/
def fillCache (tsk : TipSetKey) : ChainIndex × Option (Except GoError LbEntry) :=
  match lts tsk with
  | .error e => (ci, some (.error e))
  | .ok ts =>
    if ts.height = 0 then (ci, some (.ok ⟨ts, 0, 0, []⟩))
    else
      match lts ts.parents with
      | .error e => (ci, some (.error e))
      | .ok parent =>
        match ci.skipTarget lts fuel ts parent with
        | none => (ci, none)
        | some (.error e) => (ci, some (.error e))
        | some (.ok skipTarget) =>
          let lbe : LbEntry := ⟨ts, parent.height, skipTarget.height, skipTarget.key⟩
          ({ ci with skipCache := ci.skipCache.insert tsk lbe }, some (.ok lbe))

def entry (cur : TipSetKey) : ChainIndex × Option (Except GoError LbEntry) :=
  match ci.skipCache.lookup cur with
  | some lbe => (ci, some (.ok lbe))
  | none => ci.fillCache lts fuel cur

def drop (ks : List TipSetKey) : ChainIndex :=
  { ci with skipCache := ks.foldl (fun m k => m.erase k) ci.skipCache }

/-- The loop of `GetTipsetByHeight`. `evict` is what the cache loses before each round, `fuel` is for the walks inside. -/
def seekLoop (evict : Nat → List TipSetKey) (fuel : Nat) (epoch : Int) :
    Nat → ChainIndex → TipSetKey → ChainIndex × Option (Except GoError TipSet)
  | 0, ci, _ => (ci, none)
  | n + 1, ci, cur =>
    match (ci.drop (evict n)).entry lts fuel cur with
    | (ci, none) => (ci, none)
    | (ci, some (.error e)) => (ci, some (.error e))
    | (ci, some (.ok lbe)) =>
      if lbe.ts.height = epoch ∨ lbe.parentHeight < epoch then (ci, some (.ok lbe.ts))
      else if epoch > lbe.targetHeight then (ci, walkBack lts fuel lbe.ts epoch)
      else seekLoop evict fuel epoch n ci lbe.target

def getTipsetByHeight (evict : Nat → List TipSetKey) (fuel : Nat) (ci : ChainIndex) (src : TipSet)
    (epoch : Int) : ChainIndex × Option (Except GoError TipSet) :=
  if src.height - epoch ≤ ci.skipLength then (ci, walkBack lts fuel src epoch)
  else
    match ci.roundDown lts fuel src with
    | none => (ci, none)
    | some (.error e) => (ci, some (.error e))
    | some (.ok rounded) => ci.seekLoop lts evict fuel epoch fuel rounded.key

def getTipsetByHeightWithoutCache (src : TipSet) (epoch : Int) : Option (Except GoError TipSet) :=
  walkBack lts fuel src epoch

end ChainIndex

/-- `ChainStore.GetTipsetByHeight` behind a tipset that is not nil. -/
def ChainStore.getTipsetByHeight (evict : Nat → List TipSetKey) (fuel : Nat) (ci : ChainIndex) (h : Int)
    (ts : TipSet) (prev : Bool) : ChainIndex × Option (Except GoError TipSet) :=
  if h > ts.height then
    (ci, some (.error (.errorf "looking for tipset with height greater than start point")))
  else if h = ts.height then (ci, some (.ok ts))
  else
    match ci.getTipsetByHeight lts evict fuel ts h with
    | (ci, none) => (ci, none)
    | (ci, some (.error e)) => (ci, some (.error e))
    | (ci, some (.ok lbts)) =>
      match if lbts.height < h then getTipsetByHeightWithoutCache lts fuel ts h
          else some (.ok lbts) with
      | none => (ci, none)
      | some (.error e) => (ci, some (.error e))
      | some (.ok lbts) =>
        if lbts.height = h ∨ prev = false then (ci, some (.ok lbts))
        else (ci, some (lts lbts.parents))
end

/-! ## The walk -/

/-- The lowest tipset on the chain of `src` that is at or above the height. -/
structure LowestAbove (T : TipSetTree) (src : TipSet) (epoch : Int) (ts : TipSet) : Prop where
  anc : AncOrSelf T.parent ts src
  above : epoch ≤ ts.height
  lowest : ∀ y, AncOrSelf T.parent y src → epoch ≤ y.height → ts.height ≤ y.height

/-- The blockstore holds the tree, and tipsets name their parents by key. -/
structure Stores (lts : TipSetKey → Except GoError TipSet) (T : TipSetTree) : Prop where
  load : ∀ ts, T.mem ts → lts ts.key = .ok ts
  parents : ∀ ts p, T.mem ts → T.parent ts = some p → ts.parents = p.key

variable {T : TipSetTree} {genesis : TipSet} {lts : TipSetKey → Except GoError TipSet} {src ts : TipSet} {epoch : Int}

theorem Stores.serves (h : Stores lts T) : Serves lts T := by
  intro ts p hts hp
  rw [h.parents ts p hts hp]
  exact h.load p (T.parent_mem ts p hp)

theorem lowestAbove_self (ha : epoch ≤ ts.height)
    (hpa : ∀ p, T.parent ts = some p → p.height < epoch ∨ ts.height = epoch) : LowestAbove T ts epoch ts := by
  refine ⟨.refl ts, ha, fun y hy hto => ?_⟩
  rcases hy.eq_or_parent with rfl | ⟨p, hp, hyp⟩
  · exact le_refl _
  have hle := hyp.height_le T.height_parent
  rcases hpa p hp with hlt | heq
  · omega
  · omega

theorem LowestAbove.of_anc {x : TipSet} (h : LowestAbove T x epoch ts) (hx : AncOrSelf T.parent x src) :
    LowestAbove T src epoch ts := by
  refine ⟨h.anc.trans hx, h.above, fun y hy hyt => ?_⟩
  rcases Int.le_total y.height x.height with hle | hle
  · exact h.lowest y (ancOrSelf_of_height_le T.height_parent hy hx hle) hyt
  · have := h.anc.height_le T.height_parent
    omega

theorem LowestAbove.unique {ts' : TipSet} (h : LowestAbove T src epoch ts) (h' : LowestAbove T src epoch ts') : ts = ts' := by
  have h1 := h.lowest ts' h'.anc h'.above
  have h2 := h'.lowest ts h.anc h.above
  exact ancOrSelf_unique T.height_parent h.anc h'.anc (by omega)

section
variable (hroot : T.RootedAt genesis) (hsr : Serves lts T) {fuel : Nat}
include hroot hsr

theorem walkBackLoop_lowest (hts : T.mem ts)
    (hg : genesis.height ≤ epoch) (hto : epoch < ts.height) (hfu : ts.height - epoch < fuel) :
    ∃ r, walkBackLoop lts epoch fuel ts = some (.ok r) ∧ LowestAbove T ts epoch r := by
  induction fuel generalizing ts with
  | zero => omega
  | succ fuel ih =>
    obtain ⟨p, hp⟩ := hroot.exists_parent hts (by omega)
    have hd := T.height_parent ts p hp
    have hanc : AncOrSelf T.parent p ts := .of_parent hp
    rw [walkBackLoop, hsr ts p hts hp]
    dsimp only
    by_cases hgt : epoch > p.height
    · rw [if_pos hgt]
      refine ⟨ts, rfl, lowestAbove_self (by omega) fun q hq => ?_⟩
      obtain rfl : q = p := some.inj (hq.symm.trans hp)
      exact Or.inl hgt
    rw [if_neg hgt]
    by_cases heq : epoch = p.height
    · rw [if_pos heq]
      exact ⟨p, rfl, (lowestAbove_self (by omega) fun _ _ => Or.inr heq.symm).of_anc hanc⟩
    rw [if_neg heq]
    obtain ⟨r, hr, hlo⟩ := ih (T.parent_mem ts p hp) (by omega) (by push_cast at hfu; omega)
    exact ⟨r, hr, hlo.of_anc hanc⟩

theorem walkBack_lowest (hsrc : T.mem src)
    (hg : genesis.height ≤ epoch) (hto : epoch ≤ src.height) (hfu : src.height - epoch < fuel) :
    ∃ r, walkBack lts fuel src epoch = some (.ok r) ∧ LowestAbove T src epoch r := by
  unfold walkBack
  rw [if_neg (by omega)]
  by_cases heq : epoch = src.height
  · rw [if_pos heq]
    exact ⟨src, rfl, lowestAbove_self (by omega) fun _ _ => Or.inr heq.symm⟩
  · rw [if_neg heq]
    exact walkBackLoop_lowest hroot hsr hsrc hg (by omega) hfu
end

/-! ## The cache -/

variable (lts) in
/-- What a blockstore that may also fail returns for a tree. -/
structure ReadsTree (T : TipSetTree) : Prop where
  key : ∀ k ts, lts k = .ok ts → T.mem ts ∧ ts.key = k
  parents : LoadsParents lts T

/-- An entry about `x`: it has the height of the parent, and jumps to an ancestor of the parent. -/
structure EntryOf (T : TipSetTree) (x : TipSet) (lbe : LbEntry) : Prop where
  ts : lbe.ts = x
  jump : ∃ p t, T.parent x = some p ∧ lbe.parentHeight = p.height ∧ AncOrSelf T.parent t p ∧
    lbe.targetHeight = t.height ∧ lbe.target = t.key

structure ChainIndex.Sound (T : TipSetTree) (ci : ChainIndex) : Prop where
  entries : ∀ k lbe, ci.skipCache.lookup k = some lbe → ∃ x, T.mem x ∧ x.key = k ∧ EntryOf T x lbe
  skipLength : 0 < ci.skipLength

namespace ChainIndex
variable {ci : ChainIndex} {fuel : Nat}

theorem Sound.drop (h : ci.Sound T) (ks : List TipSetKey) : (ci.drop ks).Sound T := by
  refine ⟨fun k lbe hk => ?_, h.skipLength⟩
  rw [ChainIndex.drop, GoMap.lookup_foldl_erase] at hk
  split_ifs at hk
  exact h.entries k lbe hk

theorem Sound.insert (h : ci.Sound T) {x : TipSet} {lbe : LbEntry} (hx : T.mem x) (hent : EntryOf T x lbe) :
    ({ ci with skipCache := ci.skipCache.insert x.key lbe } : ChainIndex).Sound T := by
  refine ⟨fun k lbe' hk => ?_, h.skipLength⟩
  rcases GoMap.lookup_insert_some hk with ⟨rfl, rfl⟩ | ⟨-, hk⟩
  · exact ⟨x, hx, rfl, hent⟩
  · exact h.entries k lbe' hk

theorem walkBackLoop_anc (hloa : LoadsParents lts T) {r : TipSet} (hts : T.mem ts)
    (h : walkBackLoop lts epoch fuel ts = some (.ok r)) : AncOrSelf T.parent r ts := by
  fun_induction walkBackLoop with
  | case3 fuel ts p hlo _ =>
    cases h
    exact .refl _
  | case4 fuel ts p hlo _ _ =>
    cases h
    exact .of_parent (hloa ts _ hts hlo)
  | case5 fuel ts p hlo _ _ ih =>
    have hp := hloa ts p hts hlo
    exact (ih (T.parent_mem ts p hp) h).trans (.of_parent hp)
  | _ => cases h

theorem walkBack_anc (hlo : LoadsParents lts T) {r : TipSet} (hsr : T.mem src)
    (h : walkBack lts fuel src epoch = some (.ok r)) : AncOrSelf T.parent r src := by
  unfold walkBack at h
  split at h
  · simp at h
  split at h
  · cases h
    exact .refl src
  · exact walkBackLoop_anc hlo hsr h

theorem skipTarget_anc (hlo : LoadsParents lts T) {p r : TipSet} (hp : T.mem p)
    (h : ci.skipTarget lts fuel ts p = some (.ok r)) : AncOrSelf T.parent r p := by
  revert h
  fun_cases skipTarget with
  | case1 =>
    rintro ⟨⟩
    exact .refl p
  | case4 _ _ _ q hwa =>
    rintro ⟨⟩
    exact walkBack_anc hlo hp hwa
  | _ => exact nofun

section
variable (h : ci.Sound T) (hreads : ReadsTree lts T)
include h hreads

theorem Sound.fillCache (fuel : Nat) (tsk : TipSetKey) : (ci.fillCache lts fuel tsk).1.Sound T := by
  fun_cases ChainIndex.fillCache with
  | case6 x hx _ p hlo t ht lbe =>
    obtain ⟨hmem, rfl⟩ := hreads.key tsk x hx
    have hp := hreads.parents x p hmem hlo
    have hanc := skipTarget_anc hreads.parents (T.parent_mem x p hp) ht
    exact h.insert hmem ⟨rfl, p, t, hp, rfl, hanc, rfl, rfl⟩
  | _ => exact h

theorem Sound.entry (fuel : Nat) (cur : TipSetKey) : (ci.entry lts fuel cur).1.Sound T := by
  unfold ChainIndex.entry
  split
  · exact h
  · exact h.fillCache hreads fuel cur

section
variable (evict : Nat → List TipSetKey) (fuel : Nat)

theorem Sound.seekLoop (epoch : Int) (n : Nat) (cur : TipSetKey) :
    (ci.seekLoop lts evict fuel epoch n cur).1.Sound T := by
  induction n generalizing ci cur with
  | zero => exact h
  | succ n ih =>
    have hent := (h.drop (evict n)).entry hreads fuel cur
    rw [seekLoop]
    generalize (ci.drop (evict n)).entry lts fuel cur = r at hent ⊢
    obtain ⟨ci', _ | _ | lbe⟩ := r
    · exact hent
    · exact hent
    dsimp only
    split
    · exact hent
    split
    · exact hent
    · exact ih hent _

theorem Sound.getTipsetByHeight (src : TipSet) (epoch : Int) :
    (ci.getTipsetByHeight lts evict fuel src epoch).1.Sound T := by
  fun_cases ChainIndex.getTipsetByHeight with
  | case4 => exact h.seekLoop hreads evict fuel epoch fuel _
  | _ => exact h
end
end

/-! ## The search -/

section
variable (hroot : T.RootedAt genesis) (hzero : genesis.height = 0) (hstores : Stores lts T)

include hroot hzero hstores

theorem skipTarget_spec (ci : ChainIndex) {p : TipSet} (hp : T.mem p) (hfu : p.height < fuel) (ts : TipSet) :
    ∃ t, ci.skipTarget lts fuel ts p = some (.ok t) ∧ AncOrSelf T.parent t p := by
  unfold skipTarget
  dsimp only
  have hnonneg : 0 ≤ if ci.roundHeight ts.height - ci.skipLength < 0 then 0 else ci.roundHeight ts.height - ci.skipLength := by
    split
    · exact le_refl 0
    · omega
  generalize (if ci.roundHeight ts.height - ci.skipLength < 0 then 0
    else ci.roundHeight ts.height - ci.skipLength) = rheight at hnonneg ⊢
  by_cases hlt : p.height < rheight
  · rw [if_pos hlt]
    exact ⟨p, rfl, .refl p⟩
  obtain ⟨t, ht, hlo⟩ := walkBack_lowest hroot hstores.serves hp
    (show genesis.height ≤ rheight by omega) (by omega) (show p.height - rheight < fuel by omega)
  rw [if_neg hlt, ht]
  exact ⟨t, rfl, hlo.anc⟩

theorem entry_spec (h : ci.Sound T) {x : TipSet} (hx : T.mem x) (hfu : x.height < fuel) :
    ∃ ci' lbe, ci.entry lts fuel x.key = (ci', some (.ok lbe)) ∧ ci'.Sound T ∧ lbe.ts = x ∧
      (EntryOf T x lbe ∨ x.height = 0) := by
  unfold entry
  rcases hlk : ci.skipCache.lookup x.key with _ | lbe
  · unfold fillCache
    rw [hstores.load x hx]
    dsimp only
    by_cases hx0 : x.height = 0
    · rw [if_pos hx0]
      exact ⟨ci, _, rfl, h, rfl, Or.inr hx0⟩
    have hle := hroot.height_le hx
    obtain ⟨p, hp⟩ := hroot.exists_parent hx (by omega)
    have hd := T.height_parent x p hp
    obtain ⟨t, ht, hanc⟩ := skipTarget_spec hroot hzero hstores ci (T.parent_mem x p hp) (show p.height < fuel by omega) x
    rw [if_neg hx0, hstores.serves x p hx hp]
    dsimp only
    rw [ht]
    have hent : EntryOf T x ⟨x, p.height, t.height, t.key⟩ := ⟨rfl, p, t, hp, rfl, hanc, rfl, rfl⟩
    exact ⟨_, _, rfl, h.insert hx hent, rfl, Or.inl hent⟩
  obtain ⟨x', hx', hk, hent⟩ := h.entries x.key lbe hlk
  obtain rfl : x' = x := by
    have hlo := hstores.load x' hx'
    rw [hk, hstores.load x hx] at hlo
    exact (Except.ok.inj hlo).symm
  exact ⟨ci, lbe, rfl, h, hent.ts, Or.inl hent⟩

theorem seekLoop_lowest (evict : Nat → List TipSetKey) (h : ci.Sound T) {n : Nat} {x : TipSet} (hx : T.mem x)
    (hep : 0 ≤ epoch) (hto : epoch ≤ x.height) (hfu : x.height < fuel) (hn : x.height - epoch < n) :
    ∃ r, (ci.seekLoop lts evict fuel epoch n x.key).2 = some (.ok r) ∧ LowestAbove T x epoch r := by
  induction n generalizing ci x with
  | zero => omega
  | succ n ih =>
    obtain ⟨ci', lbe, hrun, hsd, hts, hent⟩ :=
      entry_spec hroot hzero hstores (h.drop (evict n)) hx hfu
    rw [seekLoop, hrun]
    dsimp only
    rw [hts]
    by_cases hstop : x.height = epoch ∨ lbe.parentHeight < epoch
    · rw [if_pos hstop]
      refine ⟨x, rfl, lowestAbove_self hto fun p hp => ?_⟩
      rcases hent with ⟨-, q, -, hq, hheight, -⟩ | hx0
      · obtain rfl : q = p := some.inj (hq.symm.trans hp)
        rw [hheight] at hstop
        exact hstop.symm
      · exact Or.inr (by omega)
    rw [if_neg hstop]
    rcases hent with ⟨-, p, t, hp, hheight, hanc, htg, hk⟩ | hx0
    · rw [htg, hk]
      have hle := hanc.height_le T.height_parent
      have hd := T.height_parent x p hp
      by_cases hgt : epoch > t.height
      · rw [if_pos hgt]
        exact walkBack_lowest hroot hstores.serves hx (by omega) hto (by omega)
      rw [if_neg hgt]
      have htm : T.mem t := T.mem_of_anc (T.parent_mem x p hp) hanc
      obtain ⟨r, hr, hlo⟩ := ih hsd htm (by omega) (by omega) (by push_cast at hn; omega)
      exact ⟨r, hr, hlo.of_anc (hanc.trans (.of_parent hp))⟩
    · -- at height 0 the search has stopped
      omega
end

theorem roundHeight_bounds (hsk : 0 < ci.skipLength) {h : Int} (hh : 0 ≤ h) :
    0 ≤ ci.roundHeight h ∧ ci.roundHeight h ≤ h ∧ h - ci.skipLength < ci.roundHeight h := by
  unfold roundHeight
  rw [Int.tdiv_eq_ediv_of_nonneg hh]
  have hnonneg : 0 ≤ h / ci.skipLength := Int.ediv_nonneg hh hsk.le
  have hlt := Int.lt_ediv_add_one_mul_self h hsk
  rw [Int.add_mul] at hlt
  refine ⟨Int.mul_nonneg hnonneg hsk.le, Int.ediv_mul_le h hsk.ne', ?_⟩
  omega

/-- The indices that queries and evictions lead to; each query has its own blockstore, and may be cut short. -/
inductive Used (T : TipSetTree) : ChainIndex → Prop where
  | new : Used T .new
  | query {ci : ChainIndex} (lts : TipSetKey → Except GoError TipSet) (evict : Nat → List TipSetKey)
      (fuel : Nat) (src : TipSet) (epoch : Int) : Used T ci → ReadsTree lts T →
      Used T (ci.getTipsetByHeight lts evict fuel src epoch).1
  | evict {ci : ChainIndex} (ks : List TipSetKey) : Used T ci → Used T (ci.drop ks)

theorem Used.sound (h : Used T ci) : ci.Sound T := by
  induction h with
  | new => exact ⟨by simp [ChainIndex.new], by decide⟩
  | query lts evict fuel src epoch _ hreads ih => exact ih.getTipsetByHeight hreads evict fuel src epoch
  | evict ks _ ih => exact ih.drop ks

theorem Sound.answers (hroot : T.RootedAt genesis) (hzero : genesis.height = 0) (hsd : ci.Sound T)
    (hstores : Stores lts T) (hsr : T.mem src) (hep : 0 ≤ epoch) (hto : epoch ≤ src.height) (hfu : src.height < fuel) :
    ∃ ts, LowestAbove T src epoch ts ∧ walkBack lts fuel src epoch = some (.ok ts) ∧
      ∀ evict, (ci.getTipsetByHeight lts evict fuel src epoch).2 = some (.ok ts) := by
  have hsrv := hstores.serves
  obtain ⟨ts, hwa, hts⟩ := walkBack_lowest hroot hsrv hsr (by omega) hto (show src.height - epoch < fuel by omega)
  refine ⟨ts, hts, hwa, fun evict => ?_⟩
  unfold ChainIndex.getTipsetByHeight
  by_cases hn : src.height - epoch ≤ ci.skipLength
  · rw [if_pos hn]
    exact hwa
  rw [if_neg hn]
  -- the rounded height is still above the one asked for
  obtain ⟨hr0, hr1, hr2⟩ := roundHeight_bounds hsd.skipLength (by omega : 0 ≤ src.height)
  obtain ⟨x, hx, hxl⟩ := walkBack_lowest hroot hsrv hsr (show genesis.height ≤ ci.roundHeight src.height by omega) hr1
    (show src.height - ci.roundHeight src.height < fuel by omega)
  have hxh := hxl.anc.height_le T.height_parent
  have hxa := hxl.above
  obtain ⟨r, hr, hlo⟩ := seekLoop_lowest hroot hzero hstores evict hsd
    (T.mem_of_anc hsr hxl.anc) hep (by omega) (show x.height < fuel by omega)
    (show x.height - epoch < fuel by omega)
  rw [roundDown, hx]
  rw [hr, (hlo.of_anc hxl.anc).unique hts]

/-- **The index answers like the plain walk**, after any queries and evictions, where the store holds the tree. -/
theorem getTipsetByHeight_eq_walkBack (T : TipSetTree) (genesis : TipSet) (hroot : T.RootedAt genesis)
    (hzero : genesis.height = 0) (ci : ChainIndex) (hused : Used T ci)
    (lts : TipSetKey → Except GoError TipSet) (hstores : Stores lts T) (src : TipSet) (hsrc : T.mem src)
    (epoch : Int) (hepoch : 0 ≤ epoch) (hto : epoch ≤ src.height) :
    ∃ ts, LowestAbove T src epoch ts ∧ ∃ rounds, ∀ fuel ≥ rounds,
      walkBack lts fuel src epoch = some (.ok ts) ∧
      ∀ evict, (ci.getTipsetByHeight lts evict fuel src epoch).2 = some (.ok ts) := by
  have ha : ∀ fuel ≥ src.height.toNat + 1, ∃ ts, LowestAbove T src epoch ts ∧ walkBack lts fuel src epoch = some (.ok ts) ∧
      ∀ evict, (ci.getTipsetByHeight lts evict fuel src epoch).2 = some (.ok ts) := by
    intro fuel hfu
    exact hused.sound.answers hroot hzero hstores hsrc hepoch hto (by omega)
  obtain ⟨ts, hts, -⟩ := ha _ (le_refl _)
  refine ⟨ts, hts, src.height.toNat + 1, fun fuel hfu => ?_⟩
  obtain ⟨ts', hts', hrun⟩ := ha fuel hfu
  rwa [hts.unique hts']

end ChainIndex

variable (T src epoch) in
/-- The highest tipset on the chain of `src` that is at or below the height. -/
structure HighestBelow (ts : TipSet) : Prop where
  anc : AncOrSelf T.parent ts src
  below : ts.height ≤ epoch
  highest : ∀ y, AncOrSelf T.parent y src → y.height ≤ epoch → y.height ≤ ts.height

theorem LowestAbove.parent_highest {p : TipSet} (h : LowestAbove T src epoch ts)
    (hp : T.parent ts = some p) (hne : ts.height ≠ epoch) : HighestBelow T src epoch p := by
  have hanc : AncOrSelf T.parent p src := (AncOrSelf.of_parent hp).trans h.anc
  have ha := h.above
  refine ⟨hanc, ?_, fun y hy hyt => ?_⟩
  · by_contra hgt
    have := h.lowest p hanc (by omega)
    have := T.height_parent ts p hp
    omega
  have hyts : AncOrSelf T.parent y ts :=
    ancOrSelf_of_height_le T.height_parent hy h.anc (by omega)
  rcases hyts.eq_or_parent with rfl | ⟨q, hq, hyq⟩
  · omega
  · obtain rfl : q = p := some.inj (hq.symm.trans hp)
    exact hyq.height_le T.height_parent

theorem getTipsetByHeight_selects (hroot : T.RootedAt genesis) (hzero : genesis.height = 0) {ci : ChainIndex}
    (hu : ci.Used T) (hstores : Stores lts T) (hsr : T.mem src) (hep : 0 ≤ epoch) (hto : epoch ≤ src.height)
    {fuel : Nat} (hfu : src.height < fuel) (evict : Nat → List TipSetKey) (prev : Bool) :
    ∃ ts, (if prev then HighestBelow T src epoch ts else LowestAbove T src epoch ts) ∧
      (ChainStore.getTipsetByHeight lts evict fuel ci epoch src prev).2 = some (.ok ts) := by
  unfold ChainStore.getTipsetByHeight
  rw [if_neg (by omega)]
  by_cases heq : epoch = src.height
  · rw [if_pos heq]
    refine ⟨src, ?_, rfl⟩
    split
    · exact ⟨.refl src, by omega, fun y _ hy => by omega⟩
    · exact lowestAbove_self hto fun _ _ => Or.inr heq.symm
  rw [if_neg heq]
  obtain ⟨ts, hts, -, hrun⟩ := hu.sound.answers hroot hzero hstores hsr hep hto hfu
  have hid := hrun evict
  generalize ci.getTipsetByHeight lts evict fuel src epoch = r at hid ⊢
  obtain ⟨ci', o⟩ := r
  obtain rfl : o = some (.ok ts) := hid
  have ha := hts.above
  dsimp only
  -- the index never returns a tipset below the height
  rw [if_neg (by omega)]
  dsimp only
  by_cases hstop : ts.height = epoch ∨ prev = false
  · rw [if_pos hstop]
    refine ⟨ts, ?_, rfl⟩
    split
    · exact ⟨hts.anc, by simp_all, fun y _ hy => by omega⟩
    · exact hts
  rw [if_neg hstop]
  obtain ⟨hne, hpr⟩ := not_or.mp hstop
  have hmem := T.mem_of_anc hsr hts.anc
  obtain ⟨p, hp⟩ := hroot.exists_parent hmem (by omega)
  refine ⟨p, ?_, by rw [hstores.serves ts p hmem hp]⟩
  rw [if_pos (by simpa using hpr)]
  exact hts.parent_highest hp hne

/-! ## Below genesis -/

section
variable (hheights : ∀ ts, T.mem ts → 0 ≤ ts.height) (hreads : ReadsTree lts T) (hneg : epoch < 0)
include hheights hreads hneg

theorem walkBack_negative {fuel : Nat} (hsr : T.mem src) (r : TipSet) : walkBack lts fuel src epoch ≠ some (.ok r) := by
  have hlo : ∀ (fuel : Nat) ts, T.mem ts → walkBackLoop lts epoch fuel ts ≠ some (.ok r) := by
    intro fuel
    induction fuel with
    | zero => simp [walkBackLoop]
    | succ fuel ih =>
      intro ts hts
      rw [walkBackLoop]
      rcases hload : lts ts.parents with e | p
      · simp
      have hp := T.parent_mem ts p (hreads.parents ts p hts hload)
      have hpo := hheights p hp
      dsimp only
      rw [if_neg (by omega), if_neg (by omega)]
      exact ih p hp
  have hpo := hheights src hsr
  rw [walkBack, if_neg (by omega), if_neg (by omega)]
  exact hlo fuel src hsr

omit hneg in
theorem ChainIndex.Sound.entry_heights {ci : ChainIndex} (h : ci.Sound T) {fuel : Nat} {cur : TipSetKey} {lbe : LbEntry}
    (hentr : (ci.entry lts fuel cur).2 = some (.ok lbe)) : 0 ≤ lbe.ts.height ∧ 0 ≤ lbe.parentHeight ∧ 0 ≤ lbe.targetHeight := by
  have hof : ∀ x, T.mem x → EntryOf T x lbe → 0 ≤ lbe.ts.height ∧ 0 ≤ lbe.parentHeight ∧ 0 ≤ lbe.targetHeight := by
    rintro x hx ⟨hts, p, t, hp, hpa, hanc, htg, -⟩
    have hpm := T.parent_mem x p hp
    rw [hts, hpa, htg]
    exact ⟨hheights x hx, hheights p hpm, hheights t (T.mem_of_anc hpm hanc)⟩
  unfold ChainIndex.entry at hentr
  cases hlo : ci.skipCache.lookup cur with
  | some lbe' =>
    rw [hlo] at hentr
    obtain rfl : lbe' = lbe := by simpa using hentr
    obtain ⟨x, hx, -, hent⟩ := h.entries cur lbe' hlo
    exact hof x hx hent
  | none =>
    simp only [hlo] at hentr
    revert hentr
    fun_cases ChainIndex.fillCache with
    | case2 x _ hzero =>
      rintro ⟨⟩
      exact ⟨hzero.ge, le_rfl, le_rfl⟩
    | case6 x hload _ p hl' t hsk =>
      intro hentr
      obtain ⟨hx, -⟩ := hreads.key cur x hload
      have hp := hreads.parents x p hx hl'
      have hanc := skipTarget_anc hreads.parents (T.parent_mem x p hp) hsk
      exact hof x hx (Except.ok.inj (Option.some.inj hentr) ▸ ⟨rfl, p, t, hp, rfl, hanc, rfl, rfl⟩)
    | _ => exact nofun

theorem getTipsetByHeight_negative {ci : ChainIndex} (hu : ci.Used T) (hsr : T.mem src)
    (evict : Nat → List TipSetKey) (fuel : Nat) (prev : Bool) (r : TipSet) :
    (ChainStore.getTipsetByHeight lts evict fuel ci epoch src prev).2 ≠ some (.ok r) := by
  have hse : ∀ (n : Nat) (ci : ChainIndex) cur r, ci.Sound T → (ci.seekLoop lts evict fuel epoch n cur).2 ≠ some (.ok r) := by
    intro n
    induction n with
    | zero => simp [seekLoop]
    | succ n ih =>
      intro ci cur r hsd
      have hent := (hsd.drop (evict n)).entry hreads fuel cur
      have hheight : ∀ lbe, ((ci.drop (evict n)).entry lts fuel cur).2 = some (.ok lbe) →
          0 ≤ lbe.ts.height ∧ 0 ≤ lbe.parentHeight ∧ 0 ≤ lbe.targetHeight :=
        fun _ hlb => (hsd.drop (evict n)).entry_heights hheights hreads hlb
      rw [seekLoop]
      generalize (ci.drop (evict n)).entry lts fuel cur = e at hent hheight ⊢
      obtain ⟨ci', _ | _ | lbe⟩ := e
      · simp
      · simp
      obtain ⟨hts, hpa, htg⟩ := hheight lbe rfl
      dsimp only
      rw [if_neg (by omega), if_neg (by omega)]
      exact ih ci' lbe.target r hent
  have hpo := hheights src hsr
  have hid : ∀ r, (ci.getTipsetByHeight lts evict fuel src epoch).2 ≠ some (.ok r) := by
    intro r
    fun_cases getTipsetByHeight with
    | case1 => exact walkBack_negative hheights hreads hneg hsr r
    | case4 => exact hse fuel ci _ r hu.sound
    | _ => simp
  unfold ChainStore.getTipsetByHeight
  rw [if_neg (by omega), if_neg (by omega)]
  generalize ci.getTipsetByHeight lts evict fuel src epoch = o at hid ⊢
  obtain ⟨ci', _ | _ | lbts⟩ := o
  · simp
  · simp
  · exact absurd rfl (hid lbts)
end

def seekRoot : TipSet := forkTipSet 0 0 []
def seekMid : TipSet := forkTipSet 1 25 seekRoot.key
def seekTop : TipSet := forkTipSet 2 47 seekMid.key

def seekTips : List TipSet := [seekRoot, seekMid, seekTop]

def seekTree : TipSetTree := listTree seekTips (by decide)

theorem seekTree_mem {ts : TipSet} (h : ts ∈ seekTips) : seekTree.mem ts := h

theorem seekTree_rooted : seekTree.RootedAt seekRoot := listTree_rooted (by decide) (by decide)

theorem seekTree_stores : Stores (listLoad seekTips) seekTree where
  load := (by decide : ∀ ts ∈ seekTips, listLoad seekTips ts.key = .ok ts)
  parents _ _ _ hp := (listParent_some hp).2.1.symm

theorem seekTree_reads : ReadsTree (listLoad seekTips) seekTree where
  key _ _ h := listLoad_ok h
  parents := listLoad_loads (by decide) (by decide) (by decide)

theorem seekTop_eq_walkBack :
    ∃ ts, LowestAbove seekTree seekTop 10 ts ∧ ∃ rounds, ∀ fuel ≥ rounds,
      walkBack (listLoad seekTips) fuel seekTop 10 = some (.ok ts) ∧
      ∀ evict, ((new.getTipsetByHeight (listLoad seekTips) (fun _ => []) 99 seekTop 3).1
        |>.getTipsetByHeight (listLoad seekTips) evict fuel seekTop 10).2 = some (.ok ts) :=
  getTipsetByHeight_eq_walkBack seekTree seekRoot seekTree_rooted (by decide) _
    (.query (listLoad seekTips) (fun _ => []) 99 seekTop 3 .new seekTree_reads) (listLoad seekTips)
    seekTree_stores seekTop (seekTree_mem (by decide)) 10 (by decide) (by decide)

end Lotus.Store

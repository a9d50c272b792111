/-
# The two branches of a reorg (`ReorgOps`, `NearestCommonAncestor`).

`ReorgOps` steps back on the higher side, or the right one: never on an ancestor of the other, so it collects the two
branches. `NearestCommonAncestor` takes the ancestor from the end of the left branch, which is empty where the left tipset is
an ancestor of the right one itself.
-/
import Lotus.Lib.Branch
import Lotus.Lib.Slice
import Lotus.Store.Checkpoint

namespace Lotus.Store
open Lib.Ancestry Lib.Slice List

/-! ## The code -/

/-- The loop of `ReorgOps`. `none` is a loop that has not ended after so many rounds. -/
def reorgLoop (lts : TipSetKey → Except GoError TipSet) :
    Nat → TipSet → TipSet → List TipSet → List TipSet → Option (Except GoError (List TipSet × List TipSet))
  | 0, _, _, _, _ => none
  | fuel + 1, left, right, leftChain, rightChain =>
    if left.equals right then some (.ok (leftChain, rightChain))
    else if left.height > right.height then
      match lts left.parents with
      | .error e => some (.error e)
      | .ok par => reorgLoop lts fuel par right (leftChain ++ [left]) rightChain
    else
      match lts right.parents with
      | .error e => some (.error e)
      | .ok par => reorgLoop lts fuel left par leftChain (rightChain ++ [right])

section
variable (lts : TipSetKey → Except GoError TipSet) (fuel : Nat) (a b : TipSet)

def reorgOps : Option (Except GoError (List TipSet × List TipSet)) :=
  reorgLoop lts fuel a b [] []

/-- `ChainStore.NearestCommonAncestor`. An empty slice has no last element: it panics. -/
def nearestCommonAncestor : Option (Except RuntimePanic (Except GoError TipSet)) :=
  match reorgOps lts fuel a b with
  | none => none
  | some (.error e) => some (.ok (.error e))
  | some (.ok (l, _)) =>
    match index l (l.length - 1) with
    | .error p => some (.error p)
    | .ok ts => some (.ok (lts ts.parents))

/-- The head change `reorgWorker` hands to its notifees: the tipsets to revert from the top down, those
to apply from the bottom up. -/
def headChange (old new : TipSet) : Option (Except GoError (List TipSet × List TipSet)) :=
  match reorgOps lts fuel old new with
  | none => none
  | some (.error e) => some (.error e)
  | some (.ok (revert, apply)) => some (.ok (revert, apply.reverse))
end

/-! ## The walk -/

/-- Every tipset of the tree descends from `genesis`. -/
structure TipSetTree.RootedAt (T : TipSetTree) (genesis : TipSet) : Prop where
  mem : T.mem genesis
  below : ∀ ts, T.mem ts → AncOrSelf T.parent genesis ts

section
variable {T : TipSetTree} {genesis ts : TipSet} (hro : T.RootedAt genesis) (hts : T.mem ts)
include hro hts

theorem TipSetTree.RootedAt.exists_parent (ha : genesis.height < ts.height) : ∃ p, T.parent ts = some p := by
  rcases (hro.below ts hts).eq_or_parent with rfl | ⟨p, hp, -⟩
  · omega
  · exact ⟨p, hp⟩

theorem TipSetTree.RootedAt.height_le : genesis.height ≤ ts.height :=
  (hro.below ts hts).height_le T.height_parent
end

def Serves (lts : TipSetKey → Except GoError TipSet) (T : TipSetTree) : Prop :=
  ∀ ts p, T.mem ts → T.parent ts = some p → lts ts.parents = .ok p

variable {T : TipSetTree} {lts : TipSetKey → Except GoError TipSet} {a b c : TipSet}

theorem equals_false_of_ne {left right : TipSet} (hl : T.mem left) (hr : T.mem right)
    (hne : left ≠ right) : ¬ left.equals right = true := by
  intro heq
  exact hne (T.eq_of_equals left right hl hr heq)

theorem reorgLoop_meet (hsr : Serves lts T) {fuel : Nat} (ha : T.mem a) (hb : T.mem b) (hc : IsMeet T.parent c a b)
    (hfu : a.height - c.height + (b.height - c.height) < fuel) (lc rc : List TipSet) :
    ∃ l r, Branch T.parent a c l ∧ Branch T.parent b c r ∧
      reorgLoop lts fuel a b lc rc = some (.ok (lc ++ l, rc ++ r)) := by
  have hca := hc.left.height_le T.height_parent
  have hcb := hc.right.height_le T.height_parent
  induction fuel generalizing a b lc rc with
  | zero => simp at hfu; omega
  | succ fuel ih =>
    rw [reorgLoop]
    by_cases hab : a = b
    · -- both sides are at the meeting point
      subst hab
      obtain rfl : c = a := ancOrSelf_antisymm T.height_parent hc.left (hc.nearest a (.refl a) (.refl a))
      refine ⟨[], [], .nil c, .nil c, ?_⟩
      simp [TipSet.equals_self]
    rw [if_neg (equals_false_of_ne ha hb hab)]
    by_cases hgt : a.height > b.height
    · -- the left side is higher, so it is no ancestor of the right one
      have hne : c ≠ a := by
        rintro rfl
        omega
      obtain ⟨p, hp, hcp⟩ := hc.step hne
      have hd := T.height_parent a p hp
      have hcp' := hcp.left.height_le T.height_parent
      obtain ⟨l, r, hl, hr, hrun⟩ := ih (T.parent_mem a p hp) hb hcp (by push_cast at hfu; omega) (lc ++ [a]) rc hcp' hcb
      refine ⟨a :: l, r, .cons hp hl, hr, ?_⟩
      rw [if_pos hgt, hsr a p ha hp]
      simpa using hrun
    -- the right side is at least as high, and it is another tipset
    have hne : c ≠ b := by
      rintro rfl
      exact hab (ancOrSelf_unique T.height_parent (.refl a) hc.left (by omega))
    obtain ⟨p, hp, hcp⟩ := hc.symm.step hne
    have hd := T.height_parent b p hp
    have hcp' := hcp.left.height_le T.height_parent
    obtain ⟨l, r, hl, hr, hrun⟩ := ih ha (T.parent_mem b p hp) hcp.symm (by push_cast at hfu; omega) lc (rc ++ [b]) hca hcp'
    refine ⟨l, b :: r, hl, .cons hp hr, ?_⟩
    rw [if_neg hgt, hsr b p hb hp]
    simpa using hrun

variable (lts) in
/-- What `lts` loads for parents in the tree is the parent; it may also fail. -/
def LoadsParents (T : TipSetTree) : Prop :=
  ∀ ts p, T.mem ts → lts ts.parents = .ok p → T.parent ts = some p

theorem reorgLoop_ok (hloa : LoadsParents lts T) {fuel : Nat} (ha : T.mem a) (hb : T.mem b)
    {lc rc l' r' : List TipSet} (hrun : reorgLoop lts fuel a b lc rc = some (.ok (l', r'))) :
    ∃ c l r, IsMeet T.parent c a b ∧ Branch T.parent a c l ∧ Branch T.parent b c r ∧ l' = lc ++ l ∧ r' = rc ++ r := by
  fun_induction reorgLoop with
  | case2 fuel a b lc rc heq =>
    obtain rfl := T.eq_of_equals a b ha hb heq
    simp only [Option.some.injEq, Except.ok.injEq, Prod.mk.injEq] at hrun
    refine ⟨a, [], [], ⟨.refl a, .refl a, fun _ hy _ => hy⟩, .nil a, .nil a, ?_, ?_⟩
    · simp [hrun.1]
    · simp [hrun.2]
  | case4 fuel a b lc rc _ hgt p hlo ih =>
    have hp := hloa a p ha hlo
    obtain ⟨c, l, r, hc, hl, hr, rfl, rfl⟩ := ih (T.parent_mem a p hp) hb hrun
    refine ⟨c, a :: l, r, hc.of_parent hp ?_, .cons hp hl, hr, by simp, rfl⟩
    intro hab
    have := hab.height_le T.height_parent
    omega
  | case6 fuel a b lc rc hne hle p hlo ih =>
    have hp := hloa b p hb hlo
    obtain ⟨c, l, r, hc, hl, hr, rfl, rfl⟩ := ih ha (T.parent_mem b p hp) hrun
    refine ⟨c, l, b :: r, (hc.symm.of_parent hp ?_).symm, hl, .cons hp hr, rfl, by simp⟩
    intro hba
    -- an ancestor at least as high is the tipset itself
    have hheight := hba.height_le T.height_parent
    obtain rfl := ancOrSelf_unique T.height_parent hba (.refl a) (by omega)
    simp [TipSet.equals_self] at hne
  | _ => cases hrun

theorem headChange_minimalPath (hlo : LoadsParents lts T) (fuel : Nat) (ha : T.mem a) (hb : T.mem b)
    {revert apply : List TipSet} (hrun : headChange lts fuel a b = some (.ok (revert, apply))) :
    MinimalPath T.parent a b revert apply := by
  revert hrun
  fun_cases headChange with
  | case3 l r ho =>
    rintro ⟨⟩
    obtain ⟨c, l', r', hc, hl, hr, rfl, rfl⟩ := reorgLoop_ok hlo ha hb ho
    exact ⟨c, hc, hl, by rwa [reverse_reverse]⟩
  | _ => exact nofun

theorem nearestCommonAncestor_branch (hsr : Serves lts T) {fuel : Nat} {l r : List TipSet}
    (ha : T.mem a) (hl : Branch T.parent a c l) (hrun : reorgOps lts fuel a b = some (.ok (l, r))) :
    nearestCommonAncestor lts fuel a b =
      if l = [] then some (.error .indexOutOfRange) else some (.ok (.ok c)) := by
  unfold nearestCommonAncestor
  rw [hrun]
  rcases hla : l.getLast? with _ | y
  · obtain rfl := getLast?_eq_none_iff.mp hla
    rfl
  have hne : l ≠ [] := by
    rintro rfl
    simp at hla
  have hid : index l (l.length - 1) = .ok y := by
    rw [index_ok, ← hla, getLast?_eq_getElem?]
  have hmem : y ∈ l := mem_of_getLast? hla
  have hlo : lts y.parents = .ok c :=
    hsr y c (hl.forall_mem T.parent_mem ha y hmem) (hl.parent_last hla)
  simp [hid, hlo, hne]

/-- **Reorg paths and common ancestors.** `ReorgOps` gives the branches above the nearest common ancestor;
`NearestCommonAncestor` returns it unless the left tipset is at or below the right one: then it panics. -/
theorem reorgOps_branches (T : TipSetTree) (genesis : TipSet) (hroot : T.RootedAt genesis)
    (lts : TipSetKey → Except GoError TipSet) (hserves : Serves lts T) (a b : TipSet) (ha : T.mem a) (hb : T.mem b) :
    ∃ c left right, IsMeet T.parent c a b ∧
      (∀ y, y ∈ left ↔ AncOrSelf T.parent y a ∧ ¬ AncOrSelf T.parent y b) ∧
      (∀ y, y ∈ right ↔ AncOrSelf T.parent y b ∧ ¬ AncOrSelf T.parent y a) ∧
      left.Pairwise (fun x y => y.height < x.height) ∧
      right.Pairwise (fun x y => y.height < x.height) ∧
      (∀ y, left.getLast? = some y → T.parent y = some c) ∧
      (∀ y, right.getLast? = some y → T.parent y = some c) ∧
      ∃ rounds, ∀ fuel ≥ rounds,
        reorgOps lts fuel a b = some (.ok (left, right)) ∧
        (nearestCommonAncestor lts fuel a b = some (.ok (.ok c)) ↔ ¬ AncOrSelf T.parent a b) ∧
        (AncOrSelf T.parent a b → nearestCommonAncestor lts fuel a b = some (.error .indexOutOfRange)) := by
  obtain ⟨c, hc⟩ := exists_isMeet (hroot.below a ha) (hroot.below b hb)
  obtain ⟨left, hleft⟩ := hc.left.exists_branch
  obtain ⟨right, hri⟩ := hc.right.exists_branch
  refine ⟨c, left, right, hc, fun y => hc.mem_branch T.height_parent hleft,
    fun y => hc.symm.mem_branch T.height_parent hri, hleft.pairwise T.height_parent,
    hri.pairwise T.height_parent, fun y => hleft.parent_last, fun y => hri.parent_last,
    (a.height - c.height + (b.height - c.height)).toNat + 1, ?_⟩
  intro fuel hfu
  have hro : a.height - c.height + (b.height - c.height) < (fuel : Int) := by omega
  obtain ⟨l, r, hl, hr, hrun⟩ := reorgLoop_meet hserves ha hb hc hro [] []
  have ho : reorgOps lts fuel a b = some (.ok (left, right)) := by
    rw [hleft.unique T.height_parent hl, hri.unique T.height_parent hr]
    simpa [reorgOps] using hrun
  -- the left branch is empty exactly when the left tipset is where the two meet
  have hempty : left = [] ↔ AncOrSelf T.parent a b := by
    constructor
    · rintro rfl
      rw [hleft.eq_of_nil]
      exact hc.right
    intro hab
    obtain rfl := ancOrSelf_antisymm T.height_parent hc.left (hc.nearest a (.refl a) hab)
    exact hleft.unique T.height_parent (.nil c)
  refine ⟨ho, ?_, ?_⟩
  · rw [nearestCommonAncestor_branch hserves ha hleft ho, ← hempty]
    by_cases hn : left = [] <;> simp [hn]
  · intro hab
    rw [nearestCommonAncestor_branch hserves ha hleft ho, if_pos (hempty.mpr hab)]

section

def listParent (l : List TipSet) (ts : TipSet) : Option TipSet :=
  l.find? fun p => decide (p.key = ts.parents ∧ p.height < ts.height)

variable {l : List TipSet} {ts p : TipSet}

theorem listParent_some (h : listParent l ts = some p) : p ∈ l ∧ p.key = ts.parents ∧ p.height < ts.height := by
  refine ⟨mem_of_find?_eq_some h, ?_⟩
  simpa using find?_some h

def listTree (l : List TipSet) (h : ∀ a ∈ l, ∀ b ∈ l, a.equals b = true → a = b) : TipSetTree where
  mem ts := ts ∈ l
  parent := listParent l
  parent_mem _ _ hp := (listParent_some hp).1
  height_parent _ _ hp := (listParent_some hp).2.2
  eq_of_equals a b ha hb := h a ha b hb

theorem listTree_rooted {h : ∀ a ∈ l, ∀ b ∈ l, a.equals b = true → a = b} (hp : p ∈ l)
    (hb : ∀ ts ∈ l, ∃ n < l.length, back (listParent l) n ts = some p) : (listTree l h).RootedAt p := by
  refine ⟨hp, fun ts hts => ?_⟩
  obtain ⟨n, -, hn⟩ := hb ts hts
  exact ⟨n, hn⟩

def listLoad (l : List TipSet) (k : TipSetKey) : Except GoError TipSet :=
  match l.find? fun p => decide (p.key = k) with
  | some p => .ok p
  | none => .error (.errorf "blockstore: block not found")

theorem listLoad_serves (h : ∀ a ∈ l, ∀ b ∈ l, a.equals b = true → a = b)
    (hk : ∀ a ∈ l, ∀ b ∈ l, a.key = b.key → a = b) : Serves (listLoad l) (listTree l h) := by
  intro ts p _ hp
  obtain ⟨hmem, hke, -⟩ := listParent_some hp
  unfold listLoad
  split
  · rename_i q hfi
    have hq : q.key = ts.parents := by simpa using find?_some hfi
    rw [hk q (mem_of_find?_eq_some hfi) p hmem (hq.trans hke.symm)]
  rename_i hfi
  have hn := find?_eq_none.mp hfi p hmem
  simp [hke] at hn

theorem listLoad_ok {k : TipSetKey} (h : listLoad l k = .ok p) : p ∈ l ∧ p.key = k := by
  unfold listLoad at h
  split at h
  · rename_i q hfi
    cases h
    exact ⟨mem_of_find?_eq_some hfi, by simpa using find?_some hfi⟩
  · simp at h

theorem listLoad_loads (h : ∀ a ∈ l, ∀ b ∈ l, a.equals b = true → a = b)
    (hk : ∀ a ∈ l, ∀ b ∈ l, a.key = b.key → a = b) (hh : ∀ a ∈ l, ∀ b ∈ l, a.key = b.parents → a.height < b.height) :
    LoadsParents (listLoad l) (listTree l h) := by
  intro ts p hts hlo
  obtain ⟨hmem, hke⟩ := listLoad_ok hlo
  show listParent l ts = some p
  rcases hpa : listParent l ts with _ | q
  · have hn := find?_eq_none.mp hpa p hmem
    simp [hke] at hn
    have := hh p hmem ts hts hke
    omega
  · obtain ⟨hq, hqk, -⟩ := listParent_some hpa
    rw [hk q hq p hmem (hqk.trans hke.symm)]

def forkTipSet (n : Byte) (height : Int) (parents : TipSetKey) : TipSet where
  blks := [⟨⟨[n]⟩, .id 0, some ⟨[n]⟩, parents, height, ⟨[]⟩⟩]
  ne := by simp
  tickets := by simp

def forkRoot : TipSet := forkTipSet 0 0 []

def forkLeft1 : TipSet := forkTipSet 1 2 forkRoot.key
def forkLeft2 : TipSet := forkTipSet 2 3 forkLeft1.key

def forkRight : TipSet := forkTipSet 3 1 forkRoot.key

def forkTips : List TipSet := [forkRoot, forkLeft1, forkLeft2, forkRight]

def forkTree : TipSetTree := listTree forkTips (by decide)

theorem forkTree_serves : Serves (listLoad forkTips) forkTree :=
  listLoad_serves (by decide) (by decide)

theorem forkTree_loads : LoadsParents (listLoad forkTips) forkTree :=
  listLoad_loads (by decide) (by decide) (by decide)

theorem forkTree_mem (h : ts ∈ forkTips) : forkTree.mem ts := h

theorem forkTree_rooted : forkTree.RootedAt forkRoot := listTree_rooted (by decide) (by decide)

theorem reorgOps_branches_fork :
    ∃ c left right, IsMeet forkTree.parent c forkLeft2 forkRight ∧ ∃ rounds, ∀ fuel ≥ rounds,
      reorgOps (listLoad forkTips) fuel forkLeft2 forkRight = some (.ok (left, right)) := by
  obtain ⟨c, left, right, hc, -, -, -, -, -, -, rounds, hrun⟩ :=
    reorgOps_branches forkTree forkRoot forkTree_rooted (listLoad forkTips) forkTree_serves
      forkLeft2 forkRight (forkTree_mem (by decide)) (forkTree_mem (by decide))
  exact ⟨c, left, right, hc, rounds, fun fuel hfu => (hrun fuel hfu).1⟩

/-- Between the branches the answer is the genesis; from an ancestor, or to itself, the call panics. -/
theorem nearestCommonAncestor_panics :
    nearestCommonAncestor (listLoad forkTips) 9 forkLeft2 forkRight = some (.ok (.ok forkRoot)) ∧
    nearestCommonAncestor (listLoad forkTips) 9 forkLeft1 forkLeft2 = some (.error .indexOutOfRange) ∧
    nearestCommonAncestor (listLoad forkTips) 9 forkRight forkRight = some (.error .indexOutOfRange) := by
  decide +kernel
end
end Lotus.Store

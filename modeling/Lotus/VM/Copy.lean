/-
# Copying a state tree between blockstores (`Copy`, `copyRec` in `chain/vm/vm.go`).

`copyRec` hands each block to the batch writer after its children, and passes over what the target has; the writer runs on its
own, so at each question the target shows some number of the blocks handed over. Links are a function of the CID. The call
for an inlined block returns at once, so links inside it are not followed.
-/
import Lotus.Lib.DepthFirst
import Lotus.Types.Basic

namespace Lotus.VM
open Lib.DepthFirst List

/-- The codecs that `linksForObj` and `copyRec` tell apart. -/
inductive Codec where
  | dagCBOR | raw | filCommitmentSealed | filCommitmentUnsealed | other (code : UInt64)
  deriving DecidableEq

/-- What one call of `Copy` finds: `scanForLinks` gives links and a final error, `shown` how many blocks the target shows.
-/
structure CopyEnv where
  codec : Cid → Codec
  mhType : Cid → UInt64
  content : Cid → Bytes
  getErr : Cid → Option GoError
  scanForLinks : Bytes → List Cid × Option GoError
  target : Cid → Bool
  hasErr : List Cid → Cid → Option GoError
  shown : List Cid → Cid → Nat
  cpErr : List Cid → Option GoError
  putErr : Option GoError

namespace CopyEnv
variable (env : CopyEnv)

/-- `MhType == mh.IDENTITY`: the block is inlined in its CID. -/
def inlined (c : Cid) : Bool := env.mhType c == 0

def filCommitment (c : Cid) : Bool :=
  env.codec c == .filCommitmentSealed || env.codec c == .filCommitmentUnsealed

def linksForObj (c : Cid) : List Cid × Option GoError :=
  match env.codec c with
  | .dagCBOR => ((env.scanForLinks (env.content c)).1,
      (env.scanForLinks (env.content c)).2.map (GoError.wrap "cbg.ScanForLinks"))
  | .raw => ([], none)
  | _ => ([], some (.errorf "vm flush copy method only supports dag cbor"))

/-- `to.Has`: the blocks the target had, and those of the handed over blocks that it shows. -/
def has (out : List Cid) (link : Cid) : Bool :=
  env.target link || (out.take (env.shown out link)).contains link

/-- Whether the callback of `copyRec` returns without a recursive call. -/
def passOver (out : List Cid) (link : Cid) : Except GoError Bool :=
  if env.filCommitment link then .ok true
  else if env.inlined link then .ok (env.codec link == .raw)
  else
    match env.hasErr out link with
    | some e => .error (.wrap "has" e)
    | none => .ok (env.has out link)

/-- The blocks handed to the batch writer and the result of a call, `none` while it has none. -/
abbrev Outcome := List Cid × Option (Except GoError Unit)

/-- The callback over the links of a block; after an error the other links are ignored. -/
def copyLinks (recur : Cid → List Cid → Outcome) : List Cid → List Cid → Outcome
  | [], out => (out, some (.ok ()))
  | link :: links, out =>
    match env.passOver out link with
    | .error e => (out, some (.error e))
    | .ok true => copyLinks recur links out
    | .ok false =>
      match recur link out with
      | (out, some (.ok ())) => copyLinks recur links out
      | (out, r) => (out, r)

/-- `copyRec`. The fuel bounds the depth; a depth that exceeds it has no result. -/
def copyRec : Nat → Cid → List Cid → Outcome
  | 0, _, out => (out, none)
  | fuel + 1, root, out =>
    if env.inlined root then (out, some (.ok ()))
    else
      match env.getErr root with
      | some e => (out, some (.error (.wrap "get failed" e)))
      | none =>
        match env.copyLinks (copyRec fuel) (env.linksForObj root).1 out with
        | (out, none) => (out, none)
        | (out, some lerr) =>
          match (env.linksForObj root).2, lerr with
          | some e, _ => (out, some (.error (.wrap "linksForObj" e)))
          | none, .error e => (out, some (.error e))
          | none, .ok () =>
            match env.cpErr (out ++ [root]) with
            | some e => (out ++ [root], some (.error (.wrap "copy" e)))
            | none => (out ++ [root], some (.ok ()))

/-- `Copy`: the blocks handed over, all of them written when it returns nil. -/
def copy (fuel : Nat) (root : Cid) : Outcome :=
  match env.copyRec fuel root [] with
  | (out, none) => (out, none)
  | (out, some (.error e)) => (out, some (.error (.wrap "copyRec" e)))
  | (out, some (.ok ())) =>
    match env.putErr with
    | some e => (out, some (.error (.wrap "batch put in copy" e)))
    | none => (out, some (.ok ()))

/-! ## What a block reaches -/

def links (c : Cid) : List Cid :=
  if env.codec c = .dagCBOR then (env.scanForLinks (env.content c)).1 else []

/-- A link that counts: commitments to sectors are not blocks. -/
def Link (c d : Cid) : Prop := d ∈ env.links c ∧ env.filCommitment d = false

/-- Reachability through links, those inside inlined blocks included. -/
def Reach (c d : Cid) : Prop := Relation.ReflTransGen env.Link c d

/-- With a block the set has every block reachable from it. -/
def LinkClosed (S : Cid → Prop) : Prop :=
  ∀ c d, S c → env.Reach c d → env.inlined d = false → S d

def children (c : Cid) : List Cid :=
  (env.links c).filter (fun d => !env.filCommitment d && !env.inlined d)

/-- From an inlined block, through inlined blocks only, to a block that is not inlined. -/
inductive ThroughInlined : Cid → Cid → Prop where
  | link {i d : Cid} : env.Link i d → env.inlined d = false → ThroughInlined i d
  | step {i j d : Cid} : env.Link i j → env.inlined j = true → ThroughInlined j d → ThroughInlined i d

/-- `d` is linked from `c` by way of at least one inlined block. -/
def InlinedChild (c d : Cid) : Prop :=
  ∃ i, env.Link c i ∧ env.inlined i = true ∧ env.ThroughInlined i d

/-! ## The run follows the post-order -/

def Had (c : Cid) : Prop := env.target c = true

variable {env}

theorem linksForObj_fst (c : Cid) : (env.linksForObj c).1 = env.links c := by
  unfold linksForObj links
  cases env.codec c with
  | dagCBOR | raw | filCommitmentSealed | filCommitmentUnsealed | other code => rfl

/-- What a returned call of `copyRec` on a block does to the first occurrences. -/
def FollowsOrder (env : CopyEnv) (recur : Cid → List Cid → Outcome) : Prop :=
  ∀ c out out', recur c out = (out', some (.ok ())) →
    (env.inlined c = true → out' = out) ∧
    (env.inlined c = false → PrefixClosed env.children env.Had (firsts out) →
      ∃ o, Visits env.children env.Had (env.children c) (firsts out) o ∧ firsts out' = push c o)

variable {out o : List Cid}

theorem passOver_cases {link : Cid} {b : Bool} (h : env.passOver out link = .ok b) :
    (env.filCommitment link = true ∧ b = true) ∨ (env.filCommitment link = false ∧ env.inlined link = true) ∨
    (env.filCommitment link = false ∧ env.inlined link = false ∧
      (b = true → env.Had link ∨ link ∈ out) ∧ (b = false → ¬ env.Had link)) := by
  unfold passOver at h
  cases hfi : env.filCommitment link with
  | true =>
    rw [hfi, if_pos rfl] at h
    exact Or.inl ⟨rfl, (Except.ok.inj h).symm⟩
  | false =>
    rw [hfi, if_neg (by simp)] at h
    cases hinl : env.inlined link with
    | true => exact Or.inr (Or.inl ⟨rfl, rfl⟩)
    | false =>
      rw [hinl, if_neg (by simp)] at h
      split at h
      · cases h
      obtain rfl : env.has out link = b := Except.ok.inj h
      refine Or.inr (Or.inr ⟨rfl, rfl, ?_, ?_⟩)
      · intro hh
        rw [has, Bool.or_eq_true] at hh
        refine hh.imp_right (fun hmem => ?_)
        exact mem_of_mem_take (contains_iff_mem.mp hmem)
      intro hh
      rw [has, Bool.or_eq_false_iff] at hh
      unfold Had
      simp [hh.1]

theorem copyLinks_visits {recur : Cid → List Cid → Outcome} (hre : FollowsOrder env recur) {ls out' : List Cid}
    (hrun : env.copyLinks recur ls out = (out', some (.ok ()))) (hcl : PrefixClosed env.children env.Had (firsts out)) :
    Visits env.children env.Had (ls.filter (fun d => !env.filCommitment d && !env.inlined d))
      (firsts out) (firsts out') := by
  induction ls generalizing out with
  | nil =>
    rw [copyLinks] at hrun
    cases hrun
    exact Visits.nil _
  | cons link ls ih =>
    rw [copyLinks] at hrun
    split at hrun
    · cases hrun
    · rename_i hpa
      have hrest := ih hrun hcl
      rcases passOver_cases hpa with ⟨hfi, -⟩ | ⟨-, hinl⟩ | ⟨hfi, hinl, hsk, -⟩
      · rw [filter_cons_of_neg (by simp [hfi])]
        exact hrest
      · rw [filter_cons_of_neg (by simp [hinl])]
        exact hrest
      · rw [filter_cons_of_pos (by simp [hfi, hinl])]
        exact .skip ((hsk rfl).imp_right mem_firsts.mpr) hrest
    rename_i hpa
    rcases hca : recur link out with ⟨out1, _ | _ | ⟨⟩⟩
    · rw [hca] at hrun
      cases hrun
    · rw [hca] at hrun
      cases hrun
    rw [hca] at hrun
    obtain ⟨hinli, hb⟩ := hre link out out1 hca
    rcases passOver_cases hpa with ⟨-, hfa⟩ | ⟨-, hinl⟩ | ⟨hfi, hinl, -, hh⟩
    · exact absurd hfa (by simp)
    · -- the call on an inlined block has done nothing
      rw [filter_cons_of_neg (by simp [hinl])]
      obtain rfl := hinli hinl
      exact ih hrun hcl
    rw [filter_cons_of_pos (by simp [hfi, hinl])]
    obtain ⟨o, hv, hfir⟩ := hb hinl hcl
    have hrest := ih hrun (hfir ▸ (hv.prefixClosed hcl).push hv.covers)
    by_cases ha : link ∈ firsts out
    · -- handed over before but not shown yet: its children are all accounted for
      obtain rfl := hv.eq_of_covered (hcl.closed link ha)
      rw [hfir, push_of_mem ha] at hrest
      exact .skip (Or.inr ha) hrest
    · rw [hfir] at hrest
      exact .visit (hh rfl) ha hv hrest

theorem copyRec_followsOrder (fuel : Nat) : FollowsOrder env (env.copyRec fuel) := by
  induction fuel with
  | zero =>
    intro c out out' hrun
    cases hrun
  | succ fuel ih =>
    intro c out out' hrun
    rw [copyRec] at hrun
    cases hinl : env.inlined c with
    | true =>
      rw [hinl, if_pos rfl] at hrun
      cases hrun
      exact ⟨fun _ => rfl, fun h => absurd h (by simp)⟩
    | false =>
      refine ⟨fun h => absurd h (by simp), fun _ hcl => ?_⟩
      rw [hinl, if_neg (by simp)] at hrun
      split at hrun
      · cases hrun
      split at hrun
      · cases hrun
      rename_i out1 lerr hlinks
      split at hrun
      · cases hrun
      · cases hrun
      rename_i hsc
      split at hrun
      · cases hrun
      cases hrun
      have hv := copyLinks_visits ih hlinks hcl
      refine ⟨firsts out1, ?_, firsts_concat out1 c⟩
      rw [linksForObj_fst] at hv
      exact hv

/-! ## Closure under links, one block at a time -/

variable {d root c : Cid}

theorem mem_children : d ∈ env.children c ↔ env.Link c d ∧ env.inlined d = false := by
  rw [children, mem_filter, Link]
  simp [and_assoc]

theorem ThroughInlined.reach {i : Cid} (h : env.ThroughInlined i d) : env.Reach i d ∧ env.inlined d = false := by
  induction h with
  | link hli hinl => exact ⟨.single hli, hinl⟩
  | step hli _ _ ih => exact ⟨.head hli ih.1, ih.2⟩

theorem InlinedChild.reach (h : env.InlinedChild c d) : env.Reach c d ∧ env.inlined d = false := by
  obtain ⟨i, hli, -, hthrough⟩ := h
  exact ⟨.head hli hthrough.reach.1, hthrough.reach.2⟩

theorem reach_closed {S : Cid → Prop} (hch : ∀ c, S c → env.inlined c = false → ∀ d ∈ env.children c, S d)
    (hinl : ∀ c, S c → env.inlined c = false → ∀ d, env.InlinedChild c d → S d) (hc : S c)
    (hcbl : env.inlined c = false) (hrc : env.Reach c d) (hd : env.inlined d = false) : S d := by
  -- along the path: a block is in the set, and an inlined block leads to blocks of the set only
  have hpa : ∀ x, env.Reach x d → (env.inlined x = false → S x) →
      (env.inlined x = true → ∀ y, env.ThroughInlined x y → S y) → S d := by
    intro x hx
    induction hx using Relation.ReflTransGen.head_induction_on with
    | refl =>
      intro hb _
      exact hb hd
    | head hli _ ih =>
      rename_i x y _
      intro hb hthrough
      refine ih ?_ ?_
      · intro hy
        cases hx : env.inlined x with
        | false => exact hch x (hb hx) hx y (mem_children.mpr ⟨hli, hy⟩)
        | true => exact hthrough hx y (.link hli hy)
      intro hy z hz
      cases hx : env.inlined x with
      | false => exact hinl x (hb hx) hx z ⟨y, hli, hy, hz⟩
      | true => exact hthrough hx z (.step hli hy hz)
  exact hpa c hrc (fun _ => hc) (fun h => absurd h (by simp [hcbl]))

/-! ## When a copy is complete -/

/-- All that is reachable from the root is in the target, which was closed at all times. -/
def CopiesAll (env : CopyEnv) (root : Cid) (out : List Cid) : Prop :=
  (∀ d, env.Reach root d → env.inlined d = false → env.Had d ∨ d ∈ out) ∧
    ∀ p, p <+: out → env.LinkClosed (fun c => env.Had c ∨ c ∈ p)

/-- Links inside inlined blocks lead nowhere new: the targets are there or come before. -/
def InlinedCovered (env : CopyEnv) (root : Cid) : Prop :=
  if env.inlined root = true then ∀ d, env.Reach root d → env.inlined d = false → env.Had d
  else ∃ o, PostOrder env.children env.Had root o ∧
    ∀ p b, p ++ [b] <+: o → ∀ d, env.InlinedChild b d → env.Had d ∨ d ∈ p ++ [b]

variable {fuel : Nat}

theorem copy_ok (h : env.copy fuel root = (out, some (.ok ()))) : env.copyRec fuel root [] = (out, some (.ok ())) := by
  revert h
  fun_cases copy with
  | case4 out' hre =>
    rintro ⟨⟩
    exact hre
  | _ => exact nofun

theorem postOrder_not_inlined (hro : env.inlined root = false) (h : PostOrder env.children env.Had root o) :
    ∀ c ∈ o, env.inlined c = false := by
  have hQ : ∀ c, ∀ d ∈ env.children c, env.inlined d = false :=
    fun c d hd => (mem_children.mp hd).2
  obtain ⟨o1, hv, rfl⟩ := h
  intro c hc
  rcases mem_push.mp hc with hc | rfl
  · exact hv.forall_mem hQ (hQ root) (by simp) c hc
  · exact hro

theorem postOrder_of_copyRec (hro : env.inlined root = false)
    (hrun : env.copyRec fuel root [] = (out, some (.ok ()))) : PostOrder env.children env.Had root (firsts out) := by
  have hn : PrefixClosed env.children env.Had (firsts []) := by
    intro p hp c hc
    rw [prefix_nil.mp hp] at hc
    exact absurd hc not_mem_nil
  obtain ⟨o, hv, hfi⟩ := (copyRec_followsOrder fuel root [] out hrun).2 hro hn
  exact ⟨o, hv, hfi⟩

theorem linkClosed_of_covered {q : List Cid} (hcl : env.LinkClosed env.Had) (hro : env.inlined root = false)
    (ho : PostOrder env.children env.Had root o)
    (hco : ∀ p b, p ++ [b] <+: o → ∀ d, env.InlinedChild b d → env.Had d ∨ d ∈ p ++ [b]) (hq : q <+: o) :
    env.LinkClosed (fun c => env.Had c ∨ c ∈ q) := by
  intro c d hc hrc hd
  rcases hc with hh | hmem
  · exact Or.inl (hcl c d hh hrc hd)
  refine reach_closed (S := fun c => env.Had c ∨ c ∈ q) ?_ ?_ (Or.inr hmem)
    (postOrder_not_inlined hro ho c (hq.subset hmem)) hrc hd
  · rintro c (hh | hmem) - d hch
    · have hli := mem_children.mp hch
      exact Or.inl (hcl c d hh (.single hli.1) hli.2)
    · exact ho.prefixClosed q hq c hmem d hch
  rintro c (hh | hmem) - d hch
  · exact Or.inl (hcl c d hh hch.reach.1 hch.reach.2)
  -- cut the prefix after `c`
  obtain ⟨s, t, rfl⟩ := append_of_mem hmem
  have hcu : s ++ [c] <+: s ++ c :: t := ⟨t, by simp⟩
  exact (hco s c (hcu.trans hq) d hch).imp_right (fun h => hcu.subset h)

/-- **When `Copy` copies everything** into a closed target that stays closed: exactly when links inside inlined blocks lead
nowhere new. -/
theorem copy_complete_iff (env : CopyEnv) (fuel : Nat) (root : Cid) (out : List Cid)
    (hclosed : env.LinkClosed env.Had) (hrun : env.copy fuel root = (out, some (.ok ()))) :
    env.CopiesAll root out ↔ env.InlinedCovered root := by
  have hre := copy_ok hrun
  unfold InlinedCovered
  cases hro : env.inlined root with
  | true =>
    rw [if_pos rfl]
    obtain rfl : out = [] := (copyRec_followsOrder fuel root [] out hre).1 hro
    constructor
    · intro h d hrc hd
      exact (h.1 d hrc hd).resolve_right not_mem_nil
    intro h
    refine ⟨fun d hrc hd => Or.inl (h d hrc hd), ?_⟩
    intro p hp c d hc hrc hd
    rw [prefix_nil.mp hp] at hc ⊢
    exact Or.inl (hclosed c d (hc.resolve_right not_mem_nil) hrc hd)
  | false =>
    rw [if_neg (by simp)]
    have hor := postOrder_of_copyRec hro hre
    constructor
    · intro h
      refine ⟨firsts out, hor, ?_⟩
      intro p b hp d hd
      obtain ⟨q, hq, hfi⟩ := exists_prefix_of_firsts hp
      have hb : b ∈ q := by
        rw [← mem_firsts, hfi]
        simp
      have hmem := h.2 q hq b d (Or.inr hb) hd.reach.1 hd.reach.2
      rw [← hfi]
      exact hmem.imp_right mem_firsts.mpr
    rintro ⟨o, ho, hco⟩
    obtain rfl := ho.unique hor
    have hpr : ∀ p, p <+: out → env.LinkClosed (fun c => env.Had c ∨ c ∈ p) := by
      intro p hp c d hc hrc hd
      have hfi := linkClosed_of_covered hclosed hro hor hco (isPrefix_firsts hp) c d (hc.imp_right mem_firsts.mpr) hrc hd
      exact hfi.imp_right mem_firsts.mp
    refine ⟨?_, hpr⟩
    intro d hrc hd
    exact hpr out prefix_rfl root d (Or.inr (mem_firsts.mp hor.root_mem)) hrc hd

/-! ## A child behind an inlined block -/

/-- Blocks `0`, `1` and `2`, each linked to the next; `inline` says whether block `1` is inlined. -/
def chainEnv (inline : Bool) (ls : Bytes → List Cid) : CopyEnv where
  codec _ := .dagCBOR
  mhType c := if inline && c.str == [1] then 0 else 18
  content c := c.str
  getErr _ := none
  scanForLinks b := (ls b, none)
  target _ := false
  hasErr _ _ := none
  shown _ _ := 0
  cpErr _ := none
  putErr := none

def chainLinks : Bytes → List Cid
  | [0] => [⟨[1]⟩]
  | [1] => [⟨[2]⟩]
  | _ => []

theorem linkClosed_empty (inline : Bool) (ls : Bytes → List Cid) :
    (chainEnv inline ls).LinkClosed (chainEnv inline ls).Had := by
  intro c d hc
  exact absurd hc (by simp [Had, chainEnv])

theorem copy_complete_chain : (chainEnv false chainLinks).CopiesAll ⟨[0]⟩ [⟨[2]⟩, ⟨[1]⟩, ⟨[0]⟩] := by
  have hrun : (chainEnv false chainLinks).copy 3 ⟨[0]⟩ = ([⟨[2]⟩, ⟨[1]⟩, ⟨[0]⟩], some (.ok ())) := by
    rfl
  refine (copy_complete_iff _ 3 ⟨[0]⟩ _ (linkClosed_empty false chainLinks) hrun).mpr ?_
  refine ⟨_, postOrder_of_copyRec rfl (copy_ok hrun), ?_⟩
  rintro p b - d ⟨i, -, hinl, -⟩
  exact absurd hinl (by simp [inlined, chainEnv])

/-- **A block behind an inlined block is not copied**, and `Copy` returns nil. -/
theorem copy_misses_inlined_child : (chainEnv true chainLinks).LinkClosed (chainEnv true chainLinks).Had ∧
    (chainEnv true chainLinks).copy 3 ⟨[0]⟩ = ([⟨[0]⟩], some (.ok ())) ∧ (chainEnv true chainLinks).Reach ⟨[0]⟩ ⟨[2]⟩ ∧
    (chainEnv true chainLinks).inlined ⟨[2]⟩ = false ∧
    ¬ (chainEnv true chainLinks).CopiesAll ⟨[0]⟩ [⟨[0]⟩] := by
  have hrc : (chainEnv true chainLinks).Reach ⟨[0]⟩ ⟨[2]⟩ :=
    .head (b := ⟨[1]⟩) ⟨by decide, rfl⟩ (.single ⟨by decide, rfl⟩)
  refine ⟨linkClosed_empty true chainLinks, rfl, hrc, rfl, fun h => ?_⟩
  have hmem := h.1 ⟨[2]⟩ hrc rfl
  exact absurd hmem (by simp [Had, chainEnv])

end CopyEnv
end Lotus.VM

/-
# The filter that keeps a miner from slashable blocks
(`chain/gen/slashfilter/slashfilter.go`).

`MinedBlock` indexes the blocks it let pass by epoch and by parents, and refuses one that would be a fault together with an
entry. No *pair* of them is a fault, as an entry is only written again with the same CID.
-/
import Lotus.Lib.KeyValue
import Lotus.Types.TipSet

namespace Lotus.Mining
open Lib.KeyValue List

/-! ## `MinedBlock` -/

/-- What the filter uses. `upgradeOrangeHeight` and `finality` are constants of the build. -/
structure FilterEnv (σ : Type) where
  dstore : Store σ String Bytes GoError
  newKey : String → String
  /-- The key of the datastore for a key of a namespace. -/
  child : String → String → String
  cidFromBytes : Bytes → Except GoError (Nat × Cid)
  addrString : Address → String
  cidString : Cid → String
  upgradeOrangeHeight : Int
  finality : Int

/-- `%x` of a byte string. -/
def hex (bs : Bytes) : String :=
  String.ofList (bs.flatMap fun b => [Nat.digitChar (b.val / 16), Nat.digitChar (b.val % 16)])

/-- `encodeKey`: the bytes of a tipset key are those of its CIDs in a row. -/
def encodeKey (cids : List Cid) : Bytes := cids.flatMap (·.str)

namespace FilterEnv
variable {σ : Type} (env : FilterEnv σ)

/-- `namespace.Wrap(dstore, ds.NewKey(ns))`. -/
def wrap (ns : String) : Store σ String Bytes GoError := env.dstore.rekey (env.child ns)

def byEpoch : Store σ String Bytes GoError := env.wrap "/slashfilter/epoch"

def byParents : Store σ String Bytes GoError := env.wrap "/slashfilter/parents"

/-- `ds.NewKey(fmt.Sprintf("/%s/%d", bh.Miner, epoch))`. -/
def epochKey (miner : Address) (epoch : Int) : String :=
  env.newKey ("/" ++ env.addrString miner ++ "/" ++ toString epoch)

/-- `ds.NewKey(fmt.Sprintf("/%s/%x", bh.Miner, types.NewTipSetKey(bh.Parents...).Bytes()))`. -/
def parentsKey (miner : Address) (parents : List Cid) : String :=
  env.newKey ("/" ++ env.addrString miner ++ "/" ++ hex (encodeKey parents))

def isNearUpgrade (epoch upgradeEpoch : Int) : Bool :=
  decide (epoch > upgradeEpoch - env.finality) && decide (epoch < upgradeEpoch + env.finality)

def checkFault (t : Store σ String Bytes GoError) (s : σ) (key : String) (bh : BlockHeader)
    (faultType : String) : Except GoError Unit :=
  match t.has s key with
  | .error e => .error e
  | .ok false => .ok ()
  | .ok true =>
    match t.get s key with
    | .error e => .error (.wrap "getting other block cid" e)
    | .ok cidb =>
      match env.cidFromBytes cidb with
      | .error e => .error e
      | .ok (_, other) =>
        if other = bh.cid then .ok ()
        else .error (.errorf ("produced block would trigger '" ++ faultType ++ "' consensus fault; miner: "
          ++ env.addrString bh.miner ++ "; bh: " ++ env.cidString bh.cid ++ ", other: "
          ++ env.cidString other))

section
variable (s : σ) (bh : BlockHeader) (parentEpoch : Int)

/-- The third block of `MinedBlock`: our block at the parent epoch must be among the parents. -/
def checkGrinding : Except GoError Unit :=
  let parentEpochKey := env.epochKey bh.miner parentEpoch
  match env.byEpoch.has s parentEpochKey with
  | .error e => .error e
  | .ok false => .ok ()
  | .ok true =>
    match env.byEpoch.get s parentEpochKey with
    | .error e => .error (.wrap "getting other block cid" e)
    | .ok cidb =>
      match env.cidFromBytes cidb with
      | .error e => .error e
      | .ok (_, parent) =>
        if bh.parents.any (· = parent) then .ok ()
        else .error (.errorf ("produced block would trigger 'parent-grinding fault' consensus fault; miner: "
          ++ env.addrString bh.miner ++ "; bh: " ++ env.cidString bh.cid ++ ", expected parent: "
          ++ env.cidString parent))

/-- What `MinedBlock` checks before it writes. -/
def checks : Except GoError Unit := do
  env.checkFault env.byEpoch s (env.epochKey bh.miner bh.height) bh "double-fork mining faults"
  env.checkFault env.byParents s (env.parentsKey bh.miner bh.parents) bh "time-offset mining faults"
  env.checkGrinding s bh parentEpoch

/-- `SlashFilter.MinedBlock`. The state comes beside the error: the first write stands when the second fails. -/
def minedBlock : σ × Except GoError Unit :=
  if env.isNearUpgrade bh.height env.upgradeOrangeHeight then (s, .ok ())
  else
    match env.checks s bh parentEpoch with
    | .error e => (s, .error e)
    | .ok () =>
      match env.byParents.put s (env.parentsKey bh.miner bh.parents) bh.cid.str with
      | .error e => (s, .error (.wrap "putting byEpoch entry" e))
      | .ok s1 =>
        match env.byEpoch.put s1 (env.epochKey bh.miner bh.height) bh.cid.str with
        | .error e => (s1, .error (.wrap "putting byEpoch entry" e))
        | .ok s2 => (s2, .ok ())
end
end FilterEnv

structure Call where
  bh : BlockHeader
  parentEpoch : Int
  deriving DecidableEq

variable {σ : Type}

/-- The calls of a sequence for which `MinedBlock` returned nil. -/
def accepted (env : FilterEnv σ) (s : σ) : List Call → List Call
  | [] => []
  | c :: rest =>
    match env.minedBlock s c.bh c.parentEpoch with
    | (s', .ok ()) => c :: accepted env s' rest
    | (s', .error _) => accepted env s' rest

/-! ## What one call checks and writes -/

section
variable {env : FilterEnv σ} {view : σ → String → Option Bytes}

def FilterEnv.Decodes (env : FilterEnv σ) (c : Cid) : Prop := ∃ n, env.cidFromBytes c.str = .ok (n, c)

variable {s s1 s2 : σ} {bh : BlockHeader}

theorem checkFault_ok (h : Holds env.dstore view) {ns key faultType : String}
    (hok : env.checkFault (env.wrap ns) s key bh faultType = .ok ()) {c : Cid} (hc : env.Decodes c)
    (hent : view s (env.child ns key) = some c.str) : c = bh.cid := by
  obtain ⟨n, hn⟩ := hc
  by_contra hne
  simp [FilterEnv.checkFault, FilterEnv.wrap, h.has, hent, h.get _ _ _ hent, hn, hne] at hok

variable {parentEpoch : Int}

theorem checkGrinding_ok (h : Holds env.dstore view) (hok : env.checkGrinding s bh parentEpoch = .ok ()) {c : Cid}
    (hc : env.Decodes c) (hent : view s (env.child "/slashfilter/epoch" (env.epochKey bh.miner parentEpoch)) = some c.str) :
    c ∈ bh.parents := by
  obtain ⟨n, hn⟩ := hc
  by_contra hno
  simp [FilterEnv.checkGrinding, FilterEnv.byEpoch, FilterEnv.wrap, h.has, hent, h.get _ _ _ hent, hn, hno] at hok

theorem checks_ok (hok : env.checks s bh parentEpoch = .ok ()) :
    env.checkFault env.byEpoch s (env.epochKey bh.miner bh.height) bh "double-fork mining faults" = .ok () ∧
    env.checkFault env.byParents s (env.parentsKey bh.miner bh.parents) bh "time-offset mining faults" = .ok () ∧
    env.checkGrinding s bh parentEpoch = .ok () := by
  unfold FilterEnv.checks at hok
  generalize env.checkFault env.byEpoch s _ bh _ = r1 at hok ⊢
  generalize env.checkFault env.byParents s _ bh _ = r2 at hok ⊢
  rcases r1 with e | ⟨⟩
  · exact absurd hok (by simp [bind, Except.bind])
  rcases r2 with e | ⟨⟩
  · exact absurd hok (by simp [bind, Except.bind])
  exact ⟨rfl, rfl, hok⟩

/-- **One call.**  Away from the exempted upgrade a block that passes has passed the checks and both indexes are written;
another changes nothing. -/
theorem minedBlock_cases (h : Holds env.dstore view) {s' : σ} {r : Except GoError Unit}
    (hfa : env.isNearUpgrade bh.height env.upgradeOrangeHeight = false)
    (hrun : env.minedBlock s bh parentEpoch = (s', r)) : (∃ e, r = .error e ∧ s' = s) ∨
    (r = .ok () ∧ env.checks s bh parentEpoch = .ok () ∧
      ∃ s1, env.byParents.put s (env.parentsKey bh.miner bh.parents) bh.cid.str = .ok s1 ∧
        env.byEpoch.put s1 (env.epochKey bh.miner bh.height) bh.cid.str = .ok s') := by
  unfold FilterEnv.minedBlock at hrun
  rw [hfa, if_neg Bool.false_ne_true] at hrun
  rcases hch : env.checks s bh parentEpoch with e | ⟨⟩
  · rw [hch] at hrun
    exact .inl ⟨e, (Prod.mk.inj hrun).2.symm, (Prod.mk.inj hrun).1.symm⟩
  rw [hch] at hrun
  obtain ⟨s1, hp1, -⟩ := h.put s (env.child "/slashfilter/parents" (env.parentsKey bh.miner bh.parents)) bh.cid.str
  obtain ⟨s2, hp2, -⟩ := h.put s1 (env.child "/slashfilter/epoch" (env.epochKey bh.miner bh.height)) bh.cid.str
  have hp1' : env.byParents.put s (env.parentsKey bh.miner bh.parents) bh.cid.str = .ok s1 := hp1
  have hp2' : env.byEpoch.put s1 (env.epochKey bh.miner bh.height) bh.cid.str = .ok s2 := hp2
  simp only [hp1', hp2'] at hrun
  cases hrun
  exact .inr ⟨rfl, rfl, s1, hp1', hp2'⟩

variable (env view s) in
def Recorded (c : Call) : Prop :=
  view s (env.child "/slashfilter/epoch" (env.epochKey c.bh.miner c.bh.height)) = some c.bh.cid.str ∧
  view s (env.child "/slashfilter/parents" (env.parentsKey c.bh.miner c.bh.parents)) = some c.bh.cid.str

/-- The block of `c` is no consensus fault together with that of `c'`. -/
structure NoFault (c c' : Call) : Prop where
  height : c.bh.height = c'.bh.height → c.bh.cid = c'.bh.cid
  parents : c.bh.parents = c'.bh.parents → c.bh.cid = c'.bh.cid
  grinding : c.parentEpoch = c'.bh.height → c'.bh.cid ∈ c.bh.parents

variable {c c' : Call}

section
variable (h : Holds env.dstore view) (hok : env.checks s c.bh c.parentEpoch = .ok ())
include h hok

theorem noFault_of_checks
    (hm : c.bh.miner = c'.bh.miner) (hc' : env.Decodes c'.bh.cid) (hre : Recorded env view s c') : NoFault c c' := by
  obtain ⟨hep, hpa, hg⟩ := checks_ok hok
  refine ⟨fun heq => ?_, fun heq => ?_, fun heq => ?_⟩
  · symm
    apply checkFault_ok h hep hc'
    rw [hm, heq]
    exact hre.1
  · symm
    apply checkFault_ok h hpa hc'
    rw [hm, heq]
    exact hre.2
  apply checkGrinding_ok h hg hc'
  rw [hm, heq]
  exact hre.1

theorem Recorded.writes
    (hp1 : env.byParents.put s (env.parentsKey c.bh.miner c.bh.parents) c.bh.cid.str = .ok s1)
    (hp2 : env.byEpoch.put s1 (env.epochKey c.bh.miner c.bh.height) c.bh.cid.str = .ok s2)
    (hc' : env.Decodes c'.bh.cid) (hre : Recorded env view s c') : Recorded env view s2 c' := by
  obtain ⟨hep, hpa, -⟩ := checks_ok hok
  -- under either key of `c` an entry of `c'` decodes to the CID of `c`
  have hke : ∀ k, view s k = some c'.bh.cid.str → view s2 k = some c'.bh.cid.str := by
    intro k hk
    apply h.put_keeps hp2 (h.put_keeps hp1 hk ?_)
    · rintro rfl
      rw [checkFault_ok h hep hc' hk]
    · rintro rfl
      rw [checkFault_ok h hpa hc' hk]
  exact ⟨hke _ hre.1, hke _ hre.2⟩
end

theorem recorded_self (h : Holds env.dstore view)
    (hp1 : env.byParents.put s (env.parentsKey c.bh.miner c.bh.parents) c.bh.cid.str = .ok s1)
    (hp2 : env.byEpoch.put s1 (env.epochKey c.bh.miner c.bh.height) c.bh.cid.str = .ok s2) : Recorded env view s2 c := by
  constructor
  · rw [h.view_put hp2, Function.update_self]
  · refine h.put_keeps hp2 ?_ fun _ => rfl
    rw [h.view_put hp1, Function.update_self]
end

/-! ## Runs -/

section
variable {env : FilterEnv σ} {view : σ → String → Option Bytes}

/-- What the calls have in common: one miner, away from the exempted upgrade, with CIDs that decode. -/
structure Submitted (env : FilterEnv σ) (miner : Address) (c : Call) : Prop where
  miner : c.bh.miner = miner
  far : env.isNearUpgrade c.bh.height env.upgradeOrangeHeight = false
  decodes : env.Decodes c.bh.cid

theorem accepted_noFault (h : Holds env.dstore view) {miner : Address} (calls : List Call) (s : σ) (prior : List Call)
    (hca : ∀ c ∈ calls, Submitted env miner c) (hpr : ∀ c ∈ prior, Submitted env miner c ∧ Recorded env view s c) :
    (∀ c ∈ accepted env s calls, ∀ c' ∈ prior, NoFault c c') ∧ (accepted env s calls).Pairwise fun c' c => NoFault c c' := by
  induction calls generalizing s prior with
  | nil => simp [accepted]
  | cons c rest ih =>
    have hc := hca c mem_cons_self
    have hrest : ∀ d ∈ rest, Submitted env miner d := fun d hd => hca d (mem_cons_of_mem c hd)
    rcases hrun : env.minedBlock s c.bh c.parentEpoch with ⟨s', r⟩
    obtain ⟨e, rfl, rfl⟩ | ⟨rfl, hok, s1, hp1, hp2⟩ := minedBlock_cases h hc.far hrun
    · simp only [accepted, hrun]
      exact ih s' prior hrest hpr
    simp only [accepted, hrun]
    have hn : ∀ c' ∈ prior, NoFault c c' := by
      intro c' hc'
      have hsu := (hpr c' hc').1
      exact noFault_of_checks h hok (hc.miner.trans hsu.miner.symm) hsu.decodes (hpr c' hc').2
    -- the block joins what is recorded for the rest of the run
    have hp' : ∀ d ∈ c :: prior, Submitted env miner d ∧ Recorded env view s' d := by
      intro d hd
      rcases mem_cons.mp hd with rfl | hd
      · exact ⟨hc, recorded_self h hp1 hp2⟩
      · exact ⟨(hpr d hd).1, (hpr d hd).2.writes h hok hp1 hp2 (hpr d hd).1.decodes⟩
    obtain ⟨hla, hpa⟩ := ih s' (c :: prior) hrest hp'
    constructor
    · intro d hd c' hc'
      rcases mem_cons.mp hd with rfl | hd
      · exact hn c' hc'
      · exact hla d hd c' (mem_cons_of_mem c hc')
    · rw [pairwise_cons]
      exact ⟨fun d hd => hla d hd c mem_cons_self, hpa⟩

theorem accepted_sublist (env : FilterEnv σ) (s : σ) (calls : List Call) : (accepted env s calls).Sublist calls := by
  induction calls generalizing s with
  | nil => exact .slnil
  | cons c rest ih =>
    simp only [accepted]
    split
    · exact (ih _).cons_cons c
    · exact (ih _).cons c

theorem NoFault.symm_of_le {c c' : Call} (h : NoFault c' c) (hle : c.bh.height ≤ c'.bh.height)
    (hlo : c.parentEpoch < c.bh.height) : NoFault c c' where
  height heq := (h.height heq.symm).symm
  parents heq := (h.parents heq.symm).symm
  grinding heq := absurd heq (by omega)

theorem noFault_self {c : Call} (hlo : c.parentEpoch < c.bh.height) : NoFault c c :=
  ⟨fun _ => rfl, fun _ => rfl, fun heq => absurd heq (by omega)⟩

/-- **No consensus fault.**  Among the blocks of a miner that are submitted in order of height, those that pass are pairwise
no fault. -/
theorem slashFilter_no_fault (h : Holds env.dstore view) (miner : Address) (s : σ) (calls : List Call)
    (hcalls : ∀ c ∈ calls, Submitted env miner c) (hsorted : calls.Pairwise fun c c' => c.bh.height ≤ c'.bh.height)
    (hlow : ∀ c ∈ calls, c.parentEpoch < c.bh.height) :
    ∀ c ∈ accepted env s calls, ∀ c' ∈ accepted env s calls, NoFault c c' := by
  have hsu := accepted_sublist env s calls
  obtain ⟨-, hpa⟩ := accepted_noFault h calls s [] hcalls (by simp)
  have hfo : (accepted env s calls).Pairwise NoFault := by
    refine (hpa.and (hsorted.sublist hsu)).imp_of_mem ?_
    rintro c c' hc - ⟨hfa, hle⟩
    exact hfa.symm_of_le hle (hlow c (hsu.subset hc))
  intro c hc c' hc'
  apply Pairwise.forall_of_forall_of_flip ?_ hfo hpa hc hc'
  exact fun x hx => noFault_self (hlow x (hsu.subset hx))
end

/-! ## A datastore in memory -/

def mapStore : Store (GoMap String Bytes) String Bytes GoError where
  has s k := .ok (s.lookup k).isSome
  get s k := ((s.lookup k).map Except.ok).getD (.error (.errorf "datastore: key not found"))
  put s k v := .ok (s.insert k v)

theorem mapStore_holds : Holds mapStore fun s k => s.lookup k where
  has _ _ := rfl
  get s k v h := by simp only [mapStore, h, Option.map_some, Option.getD_some]
  put s k v := by
    refine ⟨s.insert k v, rfl, ?_⟩
    funext k'
    by_cases hk : k' = k
    · subst hk
      simp
    · rw [AList.lookup_insert_ne hk, Function.update_of_ne hk]

def mapEnv : FilterEnv (GoMap String Bytes) where
  dstore := mapStore
  newKey k := k
  child ns k := ns ++ k
  cidFromBytes b := .ok (b.length, ⟨b⟩)
  addrString
    | .id n => "f0" ++ toString n
    | _ => "<empty>"
  cidString c := hex c.str
  upgradeOrangeHeight := 336458
  finality := 900

def mined (cid : Bytes) (height : Int) (parents : List Cid) (parentEpoch : Int) : Call :=
  ⟨⟨⟨cid⟩, .id 1000, none, parents, height, ⟨[]⟩⟩, parentEpoch⟩

def minedCalls : List Call :=
  [mined [1] 1 [⟨[0]⟩] 0, mined [1] 1 [⟨[0]⟩] 0, mined [2] 2 [⟨[1]⟩] 1, mined [3] 2 [⟨[1]⟩, ⟨[7]⟩] 1]

theorem slashFilter_no_fault_mined :
    accepted mapEnv ∅ minedCalls = minedCalls.take 3 ∧
    ∀ c ∈ accepted mapEnv ∅ minedCalls, ∀ c' ∈ accepted mapEnv ∅ minedCalls, NoFault c c' := by
  refine ⟨by decide +kernel, slashFilter_no_fault mapStore_holds (.id 1000) ∅ minedCalls ?_ (by decide) (by decide)⟩
  intro c hc
  have hfa : ∀ c ∈ minedCalls, c.bh.miner = .id 1000 ∧
      mapEnv.isNearUpgrade c.bh.height mapEnv.upgradeOrangeHeight = false := by decide
  exact ⟨(hfa c hc).1, (hfa c hc).2, c.bh.cid.str.length, rfl⟩

end Lotus.Mining

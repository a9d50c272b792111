/-
# The chains that `createMessageChains` makes of the messages of a sender.

The messages that pass the first loop can be applied in a row. The chains are pieces of them, each with a better gas
performance than the next.
-/
import Lotus.Lib.Strand
import Lotus.Mpool.Chains
import Mathlib.Algebra.BigOperators.Group.List.Basic

namespace Lotus.Mpool
open Lib.Strand List

/-- The messages can be applied in a row to an actor with this nonce and balance: each finds its `RequiredFunds` after those
before it. -/
def Payable : (nonce : Nat) → (balance : Int) → List SignedMessage → Prop
  | _, _, [] => True
  | nonce, balance, m :: msgs =>
    m.message.nonce.toNat = nonce ∧ requiredFunds m ≤ balance ∧
      Payable (nonce + 1) (balance - requiredFunds m - m.message.value) msgs

instance : ∀ nonce balance msgs, Decidable (Payable nonce balance msgs)
  | _, _, [] => inferInstanceAs (Decidable True)
  | nonce, balance, m :: msgs =>
    have := instDecidablePayable (nonce + 1) (balance - requiredFunds m - m.message.value) msgs
    inferInstanceAs (Decidable (_ ∧ _ ∧ Payable _ _ msgs))

theorem Payable.of_isPrefix {nonce : Nat} {balance : Int} {l l' : List SignedMessage}
    (h : Payable nonce balance l) (hl : l' <+: l) : Payable nonce balance l' := by
  induction l' generalizing nonce balance l with
  | nil => trivial
  | cons m l' ih =>
    obtain ⟨rest, rfl⟩ := hl
    obtain ⟨hn, hfu, hrest⟩ := h
    exact ⟨hn, hfu, ih hrest (prefix_append _ _)⟩

/-! ## The messages of a sender -/

namespace MsgSet

theorem mem_toList {s : MsgSet} {m : SignedMessage} : m ∈ s.toList ↔ ∃ n, s.msgs.lookup n = some m := by
  simp only [toList, mem_map, Sigma.exists, exists_eq_right, ← Option.mem_def, AList.mem_lookup_iff]

theorem nodup_nonces (s : MsgSet) : (s.toList.map (·.message.nonce)).Nodup := by
  have hk : s.toList.map (·.message.nonce) = s.msgs.keys := by
    rw [toList, map_map]
    refine map_congr_left fun e he => ?_
    exact s.keyed e.1 e.2 (AList.mem_lookup_iff.mpr he)
  rw [hk]
  exact s.msgs.nodupKeys

theorem perm_sorted (s : MsgSet) : s.sorted.Perm s.toList := perm_insertionSort _ _

theorem sorted_nonces (s : MsgSet) : s.sorted.Pairwise fun m m' => m.message.nonce < m'.message.nonce := by
  have hne : s.sorted.Pairwise fun m m' => m.message.nonce ≠ m'.message.nonce :=
    pairwise_map.mp ((s.perm_sorted.map _).nodup_iff.mpr s.nodup_nonces)
  have : Std.Total fun m m' : SignedMessage => m.message.nonce ≤ m'.message.nonce :=
    ⟨fun m m' => UInt64.le_total m.message.nonce m'.message.nonce⟩
  have : IsTrans SignedMessage fun m m' => m.message.nonce ≤ m'.message.nonce :=
    ⟨fun _ _ _ => UInt64.le_trans⟩
  have hle : s.sorted.Pairwise fun m m' => m.message.nonce ≤ m'.message.nonce :=
    pairwise_insertionSort _ _
  exact (hle.and hne).imp fun h => UInt64.lt_of_le_of_ne h.1 h.2

end MsgSet

/-! ## The first loop -/

def gasOf (msgs : List SignedMessage) : Int := (msgs.map (·.message.gasLimit)).sum

@[simp] theorem gasOf_append (l l' : List SignedMessage) : gasOf (l ++ l') = gasOf l + gasOf l' := by
  simp [gasOf]

@[simp] theorem gasOf_cons (m : SignedMessage) (l : List SignedMessage) : gasOf (m :: l) = m.message.gasLimit + gasOf l := by
  simp [gasOf]

@[simp] theorem gasOf_nil : gasOf [] = 0 := rfl

@[simp] theorem gasOf_singleton (m : SignedMessage) : gasOf [m] = m.message.gasLimit := by simp [gasOf]

section
variable (minGasOf : SignedMessage → Int) (baseFee : Int)
variable {msgs : List SignedMessage} {curNonce : UInt64} {balance gasLimit : Int} {s : Scan}

structure Taken (curNonce : UInt64) (balance : Int) (good : List SignedMessage) (s s' : Scan) : Prop where
  payable : Payable curNonce.toNat balance good
  scan : s' = ⟨s.skip, s.i + good.length, s.rewards ++ good.map (getGasReward baseFee)⟩

theorem taken_nil : Taken baseFee curNonce balance [] s s := ⟨trivial, by simp⟩

section
variable (hso : msgs.Pairwise fun m m' => m.message.nonce < m'.message.nonce)
include hso

theorem scan_good
    (hle : ∀ m ∈ msgs, curNonce ≤ m.message.nonce) :
    ∃ good rest, msgs = good ++ rest ∧
      Taken baseFee curNonce balance good s (scan minGasOf baseFee msgs curNonce balance gasLimit s) := by
  induction msgs generalizing curNonce balance gasLimit s with
  | nil => exact ⟨[], [], rfl, taken_nil baseFee⟩
  | cons m msgs ih =>
    obtain ⟨hm, hms⟩ := pairwise_cons.mp hso
    have hsk : ¬ m.message.nonce < curNonce := UInt64.not_lt.mpr (hle m (by simp))
    unfold scan
    rw [if_neg hsk]
    split
    · exact ⟨[], _, rfl, taken_nil baseFee⟩
    rename_i hno
    split
    · exact ⟨[], _, rfl, taken_nil baseFee⟩
    split
    · exact ⟨[], _, rfl, taken_nil baseFee⟩
    split
    · exact ⟨[], _, rfl, taken_nil baseFee⟩
    rename_i hfu
    have hno : m.message.nonce = curNonce := not_not.mp hno
    -- the counter does not wrap: where there is another message, its nonce is above this one
    have hn : msgs ≠ [] → (curNonce + 1).toNat = curNonce.toNat + 1 := by
      intro hne
      obtain ⟨m', hm'⟩ := exists_mem_of_ne_nil msgs hne
      have hlt := UInt64.lt_iff_toNat_lt.mp (hno ▸ hm m' hm')
      have := m'.message.nonce.toNat_lt
      rw [UInt64.toNat_add]
      simp only [UInt64.toNat_one]
      omega
    have hle' : ∀ m' ∈ msgs, curNonce + 1 ≤ m'.message.nonce := by
      intro m' hm'
      have hlt := UInt64.lt_iff_toNat_lt.mp (hno ▸ hm m' hm')
      rw [UInt64.le_iff_toNat_le, hn (ne_nil_of_mem hm')]
      exact hlt
    obtain ⟨good, rest, rfl, hpa, hsc⟩ :=
      @ih (curNonce + 1) (balance - requiredFunds m - m.message.value) ((gasLimit + m.message.gasLimit).bmod UInt64.size)
        { s with i := s.i + 1, rewards := s.rewards ++ [getGasReward baseFee m] } hms hle'
    refine ⟨m :: good, rest, rfl, ⟨congrArg UInt64.toNat hno, not_lt.mp hfu, ?_⟩, ?_⟩
    · cases good with
      | nil => trivial
      | cons m' good => exact hn (by simp) ▸ hpa
    · rw [hsc]
      simp [Nat.add_assoc, Nat.add_comm 1]

theorem scan_split :
    ∃ old good rest, msgs = old ++ good ++ rest ∧
      Taken baseFee curNonce balance good { s with skip := s.skip + old.length, i := s.i + old.length }
        (scan minGasOf baseFee msgs curNonce balance gasLimit s) := by
  induction msgs generalizing s with
  | nil => exact ⟨[], [], [], rfl, taken_nil baseFee⟩
  | cons m msgs ih =>
    obtain ⟨hm, hms⟩ := pairwise_cons.mp hso
    by_cases hold : m.message.nonce < curNonce
    · obtain ⟨old, good, rest, rfl, hpa, hsc⟩ := @ih { s with skip := s.skip + 1, i := s.i + 1 } hms
      unfold scan
      rw [if_pos hold]
      refine ⟨m :: old, good, rest, rfl, hpa, ?_⟩
      rw [hsc]
      simp [Nat.add_assoc, Nat.add_comm 1]
    have hle : ∀ m' ∈ m :: msgs, curNonce ≤ m'.message.nonce := by
      intro m' hm'
      rcases mem_cons.mp hm' with rfl | hm'
      · exact UInt64.not_lt.mp hold
      · exact UInt64.le_trans (UInt64.not_lt.mp hold) (UInt64.le_of_lt (hm m' hm'))
    obtain ⟨good, rest, hsp, hgood⟩ := @scan_good minGasOf baseFee _ _ balance gasLimit s hso hle
    exact ⟨[], good, rest, hsp, hgood⟩
end

theorem zip_take_map {β γ : Type} (f : β → γ) (l : List β) (n : Nat) :
    (l.take n).zip (l.map f) = (l.take n).map fun x => (x, f x) := by
  induction l generalizing n with
  | nil => simp
  | cons x l ih =>
    cases n with
    | zero => rfl
    | succ n => simp [ih]

theorem candidates_eq (a : Actor) (mset : MsgSet) :
    ∃ old good rest, mset.sorted = old ++ good ++ rest ∧ Payable a.nonce.toNat a.balance good ∧
      candidates minGasOf baseFee a mset = (good.take blockMessageLimit).map fun m => (m, getGasReward baseFee m) := by
  obtain ⟨old, good, rest, hsp, hpa, hsc⟩ :=
    @scan_split minGasOf baseFee _ a.nonce a.balance 0 ⟨0, 0, []⟩ mset.sorted_nonces
  refine ⟨old, good, rest, hsp, hpa, ?_⟩
  unfold candidates
  rw [hsc]
  simp only [Nat.zero_add, nil_append]
  split
  · rw [hsp, ← length_append, take_left, drop_left, zip_take_map]
  · rw [length_eq_zero_iff.mp (show good.length = 0 by omega)]
    rfl

theorem candidates_payable (a : Actor) (mset : MsgSet) : ((candidates minGasOf baseFee a mset).map (·.1)).Sublist mset.sorted ∧
      Payable a.nonce.toNat a.balance ((candidates minGasOf baseFee a mset).map (·.1)) := by
  obtain ⟨old, good, rest, hsp, hpa, hca⟩ := candidates_eq minGasOf baseFee a mset
  have hg : (candidates minGasOf baseFee a mset).map (·.1) <+: good := by
    rw [hca, map_map]
    exact (map_id _).symm ▸ take_prefix _ _
  refine ⟨?_, hpa.of_isPrefix hg⟩
  rw [hsp]
  exact hg.sublist.trans ((sublist_append_right _ _).trans (sublist_append_left _ _))
end

/-! ## The chains -/

section
variable {F E : Type}

def MsgChain.piece (c : MsgChain F E) : Piece SignedMessage := ⟨c.msgs, c.valid, c.next⟩

structure MsgChain.New (c : MsgChain F E) : Prop where
  valid : c.valid = true
  unmerged : c.merged = false
  gas : c.gasLimit = gasOf c.msgs
  known : c.sigType ≠ .unknown

variable (fl : Floats F E)

theorem newChain_new [Zero E] {m : SignedMessage} {reward : Int} (hm : m.sigType ≠ .unknown) : (newChain fl m reward).New where
  valid := rfl
  unmerged := rfl
  gas := by simp [newChain]
  known := hm

variable [LinearOrder F]

theorem buildChains_msgs [Zero E] (rest : List (SignedMessage × Int)) (c : MsgChain F E) :
    (buildChains fl c rest).flatMap (·.msgs) = c.msgs ++ rest.map (·.1) := by
  induction rest generalizing c with
  | nil => simp [buildChains]
  | cons p rest ih =>
    simp only [buildChains]
    split
    · simp [ih, newChain]
    · simp [ih]

variable {c : MsgChain F E}

section
variable {P : MsgChain F E → Prop} (habs : ∀ c d, P c → P d → P (c.absorb fl d))

include habs

theorem buildChains_forall [Zero E] {rest : List (SignedMessage × Int)} (hc : P c)
    (hrest : ∀ p ∈ rest, P (newChain fl p.1 p.2)) : ∀ d ∈ buildChains fl c rest, P d := by
  induction rest generalizing c with
  | nil =>
    intro d hd
    rw [mem_singleton.mp hd]
    exact hc
  | cons p rest ih =>
    obtain ⟨hp, hrest⟩ := forall_mem_cons.mp hrest
    simp only [buildChains]
    split
    · exact forall_mem_cons.mpr ⟨hc, ih hp hrest⟩
    · exact ih (habs c _ hc hp) hrest

theorem mergePass_forall {l : List (MsgChain F E)} (h : ∀ c ∈ l, P c) : ∀ c ∈ mergePass fl l, P c := by
  induction l with
  | nil => exact h
  | cons c l ih =>
    obtain ⟨hc, hl⟩ := forall_mem_cons.mp h
    have hl := ih hl
    rw [mergePass]
    generalize mergePass fl l = l at hl
    rcases l with _ | ⟨d, ds⟩
    · exact forall_mem_cons.mpr ⟨hc, hl⟩
    obtain ⟨hd, hds⟩ := forall_mem_cons.mp hl
    simp only [mergeInto]
    split
    · exact forall_mem_cons.mpr ⟨habs c d hc hd, hds⟩
    · exact forall_mem_cons.mpr ⟨hc, hl⟩

end

omit [LinearOrder F] in
theorem MsgChain.New.absorb {d : MsgChain F E} (hc : c.New) (hd : d.New) : (c.absorb fl d).New :=
  ⟨hc.valid, hc.unmerged, by simp [MsgChain.absorb, hc.gas, hd.gas], hc.known⟩

theorem mergeInto_msgs (c : MsgChain F E) (l : List (MsgChain F E)) :
    (mergeInto fl c l).flatMap (·.msgs) = c.msgs ++ l.flatMap (·.msgs) := by
  rcases l with _ | ⟨d, ds⟩
  · simp [mergeInto]
  simp only [mergeInto]
  split <;> simp [MsgChain.absorb]

theorem mergePass_msgs (l : List (MsgChain F E)) : (mergePass fl l).flatMap (·.msgs) = l.flatMap (·.msgs) := by
  induction l with
  | nil => rfl
  | cons c l ih => rw [mergePass, mergeInto_msgs, ih, flatMap_cons]

variable {l : List (MsgChain F E)}

def Ordered (l : List (MsgChain F E)) : Prop := l.Pairwise fun c d => d.gasPerf < c.gasPerf

theorem mergeInto_length (c : MsgChain F E) (l : List (MsgChain F E)) :
    (mergeInto fl c l).length ≤ l.length ∨ mergeInto fl c l = c :: l ∧ (Ordered l → Ordered (c :: l)) := by
  rcases l with _ | ⟨d, ds⟩
  · exact .inr ⟨rfl, fun _ => pairwise_singleton _ _⟩
  simp only [mergeInto]
  split
  · exact .inl (by simp)
  rename_i hpe
  have hdc : d.gasPerf < c.gasPerf := not_le.mp hpe
  refine .inr ⟨rfl, fun ho => pairwise_cons.mpr ⟨?_, ho⟩⟩
  intro e he
  rcases mem_cons.mp he with rfl | he
  · exact hdc
  · exact lt_trans ((pairwise_cons.mp ho).1 e he) hdc

theorem mergePass_length (l : List (MsgChain F E)) : (mergePass fl l).length < l.length ∨ mergePass fl l = l ∧ Ordered l := by
  induction l with
  | nil => exact .inr ⟨rfl, List.Pairwise.nil⟩
  | cons c l ih =>
    rw [mergePass, length_cons]
    have hinto := mergeInto_length fl c (mergePass fl l)
    rcases ih with hlt | ⟨heq, ho⟩
    · left
      rcases hinto with hle | ⟨hco, -⟩
      · omega
      · rw [hco, length_cons]
        omega
    rw [heq] at hinto ⊢
    rcases hinto with hle | ⟨hco, hc⟩
    · exact .inl (by omega)
    · exact .inr ⟨hco, hc ho⟩

structure Merged (l l' : List (MsgChain F E)) : Prop where
  msgs : l'.flatMap (·.msgs) = l.flatMap (·.msgs)
  new : (∀ c ∈ l, c.New) → ∀ c ∈ l', c.New
  ordered : Ordered l'

theorem mergeChains_merged {rounds : Nat} (h : l.length ≤ rounds) : Merged l (mergeChains fl rounds l) := by
  induction rounds generalizing l with
  | zero =>
    have hn : l = [] := length_eq_zero_iff.mp (Nat.le_zero.mp h)
    subst hn
    exact ⟨rfl, id, List.Pairwise.nil⟩
  | succ rounds ih =>
    unfold mergeChains
    rcases mergePass_length fl l with hlt | ⟨heq, ho⟩
    · rw [if_neg (by omega)]
      have hrest := @ih (mergePass fl l) (by omega)
      exact ⟨hrest.msgs.trans (mergePass_msgs fl l),
        fun hl => hrest.new (mergePass_forall fl (fun _ _ => .absorb fl) hl), hrest.ordered⟩
    · rw [if_pos (by rw [heq])]
      exact ⟨rfl, id, ho⟩

/-! ## Linking -/

section
omit [LinearOrder F]

theorem linkChains_map {β : Type} {g : MsgChain F E → β} (hg : ∀ c, g { c with next := true } = g c)
    (l : List (MsgChain F E)) : (linkChains l).map g = l.map g := by
  induction l with
  | nil => rfl
  | cons c l ih =>
    rcases l with _ | ⟨d, l⟩
    · rfl
    rw [linkChains, map_cons, ih, hg]
    · rfl
    · simp

theorem linkChains_forall {P : MsgChain F E → Prop} (hn : ∀ c, P c → P { c with next := true }) (h : ∀ c ∈ l, P c) :
    ∀ c ∈ linkChains l, P c := by
  induction l with
  | nil => exact h
  | cons c l ih =>
    obtain ⟨hc, hl⟩ := forall_mem_cons.mp h
    cases l with
    | nil => exact h
    | cons d l => exact forall_mem_cons.mpr ⟨hn c hc, ih hl⟩

theorem linkChains_frayed (h : ∀ c ∈ l, c.New) : Frayed (l.map (·.msgs)) ((linkChains l).map (·.piece)) := by
  induction l with
  | nil => exact .nil
  | cons c l ih =>
    obtain ⟨hc, hl⟩ := forall_mem_cons.mp h
    cases l with
    | nil => exact .whole rfl hc.valid (.inr allDead_nil) .nil
    | cons d l => exact .whole rfl hc.valid (.inl rfl) (ih hl)
end

theorem linkChains_ordered (h : Ordered l) : Ordered (linkChains l) := by
  have hpe : (linkChains l).map (·.gasPerf) = l.map (·.gasPerf) := linkChains_map (fun _ => rfl) l
  have ho : (l.map (·.gasPerf)).Pairwise (· > ·) := pairwise_map.mpr h
  rw [← hpe] at ho
  exact pairwise_map.mp ho

/-- The chains of a sender as `createMessageChains` returns them. -/
structure Fresh (l : List (MsgChain F E)) : Prop where
  new : ∀ c ∈ l, c.New
  linked : Frayed (l.map (·.msgs)) (l.map (·.piece))
  ordered : Ordered l

theorem fresh_nil : Fresh ([] : List (MsgChain F E)) := ⟨by simp, .nil, List.Pairwise.nil⟩

theorem fresh_link_merge {chains : List (MsgChain F E)} (h : ∀ c ∈ chains, c.New) :
    Fresh (linkChains (mergeChains fl chains.length chains)) := by
  have hm := mergeChains_merged fl (le_refl chains.length)
  generalize mergeChains fl chains.length chains = l at hm ⊢
  refine ⟨linkChains_forall (fun c hc => ⟨hc.valid, hc.unmerged, hc.gas, hc.known⟩) (hm.new h), ?_, linkChains_ordered hm.ordered⟩
  rw [linkChains_map fun _ => rfl]
  exact linkChains_frayed (hm.new h)

section
variable [Zero E] (minGasOf : SignedMessage → Int) (baseFee : Int)

theorem createMessageChains_msgs (a : Actor) (mset : MsgSet) :
    (createMessageChains fl minGasOf baseFee (.ok a) mset).flatMap (·.msgs) =
      (candidates minGasOf baseFee a mset).map (·.1) := by
  simp only [createMessageChains]
  generalize candidates minGasOf baseFee a mset = l
  rcases l with _ | ⟨⟨m, reward⟩, rest⟩
  · rfl
  have hm := mergeChains_merged fl (le_refl (buildChains fl (newChain fl m reward) rest).length)
  show (linkChains _).flatMap (·.msgs) = _
  rw [flatMap_def, linkChains_map fun _ => rfl, ← flatMap_def, hm.msgs, buildChains_msgs]
  rfl

theorem createMessageChains_fresh
    (a : Except GoError Actor) {mset : MsgSet} (hkn : ∀ m ∈ mset.toList, m.sigType ≠ .unknown) :
    Fresh (createMessageChains fl minGasOf baseFee a mset) := by
  rcases a with e | a
  · exact fresh_nil
  have hca : ∀ p ∈ candidates minGasOf baseFee a mset, p.1.sigType ≠ .unknown := by
    intro p hp
    have hmem := (candidates_payable minGasOf baseFee a mset).1.subset (mem_map_of_mem hp)
    exact hkn p.1 (mset.perm_sorted.subset hmem)
  simp only [createMessageChains]
  generalize candidates minGasOf baseFee a mset = l at hca ⊢
  rcases l with _ | ⟨⟨m, reward⟩, rest⟩
  · exact fresh_nil
  · obtain ⟨hm, hrest⟩ := forall_mem_cons.mp hca
    exact fresh_link_merge fl (buildChains_forall fl (fun _ _ => .absorb fl) (newChain_new fl hm)
      fun p hp => newChain_new fl (hrest p hp))
end
end
end Lotus.Mpool

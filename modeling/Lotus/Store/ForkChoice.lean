/-
# The order in which two tied tipsets arrive.

Of two tipsets of equal weight the second replaces the first exactly when `breakWeightTie` says so. Its loop answers whether
*some* common position has the smaller ticket on the left, so both directions are true where the sorted ticket lists cross.
-/
import Lotus.Store.ChainStore
import Mathlib.Data.List.Zip

namespace Lotus.Store
open List
variable [Blake2b]

/-- The digest `Ticket.Less` compares; the empty string stands for a nil ticket. -/
def ticketDigest (b : BlockHeader) : Bytes :=
  (b.ticket.map (fun t => Blake2b.sum256 t.vrfProof)).getD []

def ticketDigests (ts : TipSet) : List Bytes := ts.blks.map ticketDigest

/-- At every common position the ticket of `ts1` is not larger than that of `ts2`. -/
def TicketsNotLarger (ts1 ts2 : TipSet) : Prop :=
  ∀ p ∈ (ticketDigests ts1).zip (ticketDigests ts2), p.1 ≤ p.2

/-- The tipset with the smaller first ticket has the smaller or equal ticket at every common
position: the two ticket lists do not cross. -/
def TicketsDoNotCross (ts1 ts2 : TipSet) : Prop :=
  ∀ t1 t2, ts1.first.ticket = some t1 → ts2.first.ticket = some t2 →
    (t1.less t2 = true → TicketsNotLarger ts1 ts2) ∧
    (t2.less t1 = true → TicketsNotLarger ts2 ts1)

/-! ## What the tie break computes -/

omit [Blake2b] in
theorem ticket_isSome {ts : TipSet} {t : Ticket} (h : ts.first.ticket = some t) : ∀ b ∈ ts.blks, b.ticket.isSome := by
  intro b hb
  obtain ⟨blks, hne, htk⟩ := ts
  match blks, hne with
  | [b0], _ =>
    obtain rfl : b = b0 := by simpa using hb
    exact Option.isSome_iff_exists.mpr ⟨t, h⟩
  | b0 :: b1 :: rest, _ => exact htk (by simp) b hb

variable {t1 t2 : Ticket}

theorem ticket_less_iff {b1 b2 : BlockHeader} (h1 : b1.ticket = some t1) (h2 : b2.ticket = some t2) :
    t1.less t2 = true ↔ ticketDigest b1 < ticketDigest b2 := by
  simp [Ticket.less, ticketDigest, h1, h2]

theorem breakWeightTieLoop_ok {bs1 bs2 : List BlockHeader} (h1 : ∀ b ∈ bs1, b.ticket.isSome)
    (h2 : ∀ b ∈ bs2, b.ticket.isSome) :
    ∃ r, breakWeightTieLoop bs1 bs2 = .ok r ∧
      (r = true ↔ ∃ p ∈ (bs1.map ticketDigest).zip (bs2.map ticketDigest), p.1 < p.2) := by
  induction bs1 generalizing bs2 with
  | nil => exact ⟨false, by simp [breakWeightTieLoop]⟩
  | cons b1 bs1 ih =>
    rcases bs2 with _ | ⟨b2, bs2⟩
    · exact ⟨false, by simp [breakWeightTieLoop]⟩
    rw [forall_mem_cons] at h1 h2
    obtain ⟨t1, ht1⟩ := Option.isSome_iff_exists.mp h1.1
    obtain ⟨t2, ht2⟩ := Option.isSome_iff_exists.mp h2.1
    obtain ⟨r, hr, hif⟩ := ih h1.2 h2.2
    simp only [breakWeightTieLoop, ht1, ht2, map_cons, zip_cons_cons,
      exists_mem_cons_iff, ← ticket_less_iff ht1 ht2]
    by_cases hless : t1.less t2 = true
    · exact ⟨true, by rw [if_pos hless], by simp [hless]⟩
    · exact ⟨r, by rw [if_neg hless, hr], by simp [hless, hif]⟩

variable {ts1 ts2 a b : TipSet}

theorem ticketsNotLarger_iff : TicketsNotLarger ts2 ts1 ↔
      ¬ ∃ p ∈ (ticketDigests ts1).zip (ticketDigests ts2), p.1 < p.2 := by
  unfold TicketsNotLarger
  rw [← zip_swap, forall_mem_map]
  simp

section
variable (h1 : ts1.first.ticket = some t1) (h2 : ts2.first.ticket = some t2)
include h1 h2

theorem breakWeightTie_ok :
    ∃ r, breakWeightTie ts1 ts2 = .ok r ∧ (r = true ↔ ¬ TicketsNotLarger ts2 ts1) := by
  obtain ⟨r, hr, hif⟩ := breakWeightTieLoop_ok (ticket_isSome h1) (ticket_isSome h2)
  refine ⟨r, hr, ?_⟩
  rw [hif, ticketsNotLarger_iff, not_not]
  rfl

theorem breakWeightTie_of_less
    (hless : t1.less t2 = true) : breakWeightTie ts1 ts2 = .ok true := by
  obtain ⟨_ | ⟨b1, bs1⟩, hne1, _⟩ := ts1
  · exact absurd rfl hne1
  obtain ⟨_ | ⟨b2, bs2⟩, hne2, _⟩ := ts2
  · exact absurd rfl hne2
  have ht1 : b1.ticket = some t1 := h1
  have ht2 : b2.ticket = some t2 := h2
  simp [breakWeightTie, breakWeightTieLoop, ht1, ht2, hless]
end

/-! ## Two offers at a tie -/

/-- A weight tie: no checkpoint, `a` and `b` distinct, of one weight that exceeds the head's, and every switch within the
fork-length limit. -/
structure WeightTie (env : ChainEnv) (cs : ChainStore) (a b : TipSet) : Prop where
  checkpoint : cs.checkpoint = none
  distinct : a.equals b = false
  weight : ∃ w hw : Int, env.weight (some a) = .ok w ∧ env.weight (some b) = .ok w ∧
    env.weight cs.heaviest = .ok hw ∧ hw < w
  fork : ∀ x ∈ [cs.heaviest, some a, some b], ∀ y ∈ [some a, some b], exceedsForkLength env cs x y = .ok false

variable {env : ChainEnv} {cs : ChainStore}
omit [Blake2b] in
theorem WeightTie.symm (h : WeightTie env cs a b) : WeightTie env cs b a where
  checkpoint := h.checkpoint
  distinct := by
    rw [← h.distinct, Bool.eq_iff_iff, TipSet.equals_iff, TipSet.equals_iff, eq_comm, @eq_comm _ b.cids]
  weight := by
    obtain ⟨w, hw, ha, hb, hh, hlt⟩ := h.weight
    exact ⟨w, hw, hb, ha, hh, hlt⟩
  fork := by
    intro x hx y hy
    refine h.fork x ?_ y ?_
    · simp only [mem_cons, not_mem_nil, or_false] at hx ⊢
      tauto
    · simp only [mem_cons, not_mem_nil, or_false] at hy ⊢
      tauto

theorem maybeTake_first (h : WeightTie env cs a b) :
    maybeTakeHeavierTipSet env cs a = ({ cs with heaviest := some a }, none) := by
  obtain ⟨w, hw, ha, -, hh, hlt⟩ := h.weight
  have hhe : heavier env cs a = .ok true := by
    have hne : w ≠ hw := by omega
    simp [heavier, ha, hh, hne, hlt]
  have hfork := h.fork cs.heaviest (by simp) (some a) (by simp)
  simp [maybeTakeHeavierTipSet, hhe, hfork, takeHeaviestTipSet]

theorem maybeTake_second {r : Bool} (h : WeightTie env cs a b) (hr : breakWeightTie b a = .ok r) :
    (maybeTakeHeavierTipSet env { cs with heaviest := some a } b).1.heaviest = some (if r then b else a) := by
  obtain ⟨w, hw, ha, hb, -, -⟩ := h.weight
  have hh : heavier env { cs with heaviest := some a } b = .ok r := by
    simp [heavier, ha, hb, hr, TipSet.equalsOpt, h.symm.distinct]
  have hfork : exceedsForkLength env { cs with heaviest := some a } (some a) (some b) = .ok false :=
    h.fork (some a) (by simp) (some b) (by simp)
  cases r <;> simp [maybeTakeHeavierTipSet, hh, hfork, takeHeaviestTipSet]

/-- **Arrival order at a weight tie.** When the smallest tickets differ and digests do not collide, the head after both offers
does not depend on their order exactly when the ticket lists do not cross. -/
theorem head_order_independent_iff (env : ChainEnv) (cs : ChainStore) (a b : TipSet) (ta tb : Ticket)
    (htie : WeightTie env cs a b) (hta : a.first.ticket = some ta) (htb : b.first.ticket = some tb) (hdiff : ta ≠ tb)
    (hcollision : Blake2b.sum256 ta.vrfProof = Blake2b.sum256 tb.vrfProof → ta = tb) :
    ((maybeTakeHeavierTipSet env (maybeTakeHeavierTipSet env cs a).1 b).1.heaviest =
        (maybeTakeHeavierTipSet env (maybeTakeHeavierTipSet env cs b).1 a).1.heaviest ∧
      ¬ (breakWeightTie a b = .ok true ∧ breakWeightTie b a = .ok true)) ↔
    TicketsDoNotCross a b := by
  obtain ⟨rab, hra, hab⟩ := breakWeightTie_ok hta htb
  obtain ⟨rba, hrb, hba⟩ := breakWeightTie_ok htb hta
  have hne : a ≠ b := by
    rintro rfl
    simpa [TipSet.equals_self] using htie.distinct
  rw [maybeTake_first htie, maybeTake_first htie.symm, maybeTake_second htie hrb, maybeTake_second htie.symm hra, hra, hrb]
  have hcr : TicketsDoNotCross a b ↔ ((ta.less tb = true → TicketsNotLarger a b) ∧
      (tb.less ta = true → TicketsNotLarger b a)) := by
    simp [TicketsDoNotCross, hta, htb]
  -- exactly one of the two first tickets is the smaller one; by symmetry of the sum it decides
  rcases lt_trichotomy (Blake2b.sum256 ta.vrfProof) (Blake2b.sum256 tb.vrfProof) with hlt | heq | hgt
  · have hless : ta.less tb = true := by simpa [Ticket.less] using hlt
    have hn : tb.less ta = false := by simpa [Ticket.less] using hlt.le
    obtain rfl : rab = true := by
      simpa [hra] using breakWeightTie_of_less hta htb hless
    cases rba <;> simp_all
  · exact absurd (hcollision heq) hdiff
  have hless : tb.less ta = true := by simpa [Ticket.less] using hgt
  have hn : ta.less tb = false := by simpa [Ticket.less] using hgt.le
  obtain rfl : rba = true := by
    simpa [hrb] using breakWeightTie_of_less htb hta hless
  cases rab <;> simp_all

/-! ## Ticket lists that cross -/

section
omit [Blake2b]

@[reducible] def plainDigest : Blake2b := ⟨id⟩

def tieBlock (n : Byte) (parents : List Cid) (height : Int) : BlockHeader :=
  { cid := ⟨[n]⟩, miner := .id n, ticket := some ⟨[n]⟩, parents, height, messages := ⟨[]⟩ }

def tieRoot : TipSet := ⟨[tieBlock 0 [] 0], by simp, by simp⟩

/-- A tipset of two blocks on `tieRoot`, with tickets `m` and `n`. -/
def tieTipSet (m n : Byte) : TipSet :=
  ⟨[tieBlock m tieRoot.key 1, tieBlock n tieRoot.key 1], by simp, by simp [tieBlock]⟩

def tieEnv : ChainEnv where
  getBlock _ := .error (.errorf "blockstore: block not found")
  loadTipSet k :=
    if k = tieRoot.key then .ok tieRoot else .error (.errorf "blockstore: block not found")
  weight ts := .ok ((ts.map TipSet.height).getD 0)
  persistErr := none
  metadataPutErr := none
  metadataDeleteErr := none

def tieStore : ChainStore := { ChainStore.new with heaviest := some tieRoot }

theorem weightTie_crossing : WeightTie tieEnv tieStore (tieTipSet 1 5) (tieTipSet 2 3) where
  checkpoint := rfl
  distinct := by decide
  weight := ⟨1, 0, rfl, rfl, rfl, by decide⟩
  fork := by decide

theorem weightTie_not_crossing : WeightTie tieEnv tieStore (tieTipSet 1 3) (tieTipSet 2 5) where
  checkpoint := rfl
  distinct := by decide
  weight := ⟨1, 0, rfl, rfl, rfl, by decide⟩
  fork := by decide

theorem tickets_one_three_two_five : @TicketsDoNotCross plainDigest (tieTipSet 1 3) (tieTipSet 2 5) := by
  intro t1 t2 h1 h2
  cases h1
  cases h2
  refine ⟨fun _ => ?_, fun h => absurd h (by decide)⟩
  unfold TicketsNotLarger
  decide

theorem head_order_independent_not_crossing :
    let _ := plainDigest
    (maybeTakeHeavierTipSet tieEnv (maybeTakeHeavierTipSet tieEnv tieStore (tieTipSet 1 3)).1
        (tieTipSet 2 5)).1.heaviest =
      (maybeTakeHeavierTipSet tieEnv (maybeTakeHeavierTipSet tieEnv tieStore (tieTipSet 2 5)).1
        (tieTipSet 1 3)).1.heaviest :=
  let _ := plainDigest
  ((head_order_independent_iff tieEnv tieStore (tieTipSet 1 3) (tieTipSet 2 5) ⟨[1]⟩ ⟨[2]⟩
    weightTie_not_crossing rfl rfl (by decide) (by decide)).mpr tickets_one_three_two_five).1

/-- **The tie break is not asymmetric.**  The tipsets with tickets `[1, 5]` and `[2, 3]` beat each other. -/
theorem head_depends_on_order_crossing :
    let _ := plainDigest
    newTipSet [tieBlock 1 tieRoot.key 1, tieBlock 5 tieRoot.key 1] = .ok (tieTipSet 1 5) ∧
    newTipSet [tieBlock 2 tieRoot.key 1, tieBlock 3 tieRoot.key 1] = .ok (tieTipSet 2 3) ∧
    WeightTie tieEnv tieStore (tieTipSet 1 5) (tieTipSet 2 3) ∧
    (tieTipSet 1 5).first.ticket ≠ (tieTipSet 2 3).first.ticket ∧
    breakWeightTie (tieTipSet 1 5) (tieTipSet 2 3) = .ok true ∧
    breakWeightTie (tieTipSet 2 3) (tieTipSet 1 5) = .ok true ∧
    (maybeTakeHeavierTipSet tieEnv (maybeTakeHeavierTipSet tieEnv tieStore (tieTipSet 1 5)).1
      (tieTipSet 2 3)).1.heaviest = some (tieTipSet 2 3) ∧
    (maybeTakeHeavierTipSet tieEnv (maybeTakeHeavierTipSet tieEnv tieStore (tieTipSet 2 3)).1
      (tieTipSet 1 5)).1.heaviest = some (tieTipSet 1 5) := by
  refine ⟨rfl, rfl, weightTie_crossing, by decide, rfl, rfl, ?_, ?_⟩ <;> decide
end
end Lotus.Store

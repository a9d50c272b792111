/-
# The canonical order of the blocks of a tipset.

`tipsetSortFunc` looks at the digests of the tickets, and at the CIDs where the tickets are the same. If two tickets have one
digest it is not transitive, and sorting depends on where it starts; else there is one result.
-/
import Lotus.Types.TipSet
import Mathlib.Data.Prod.Lex

namespace Lotus
open List

section
variable [Blake2b]

/-- No two different tickets of the blocks have the same digest. -/
def NoCollision (blks : List BlockHeader) : Prop :=
  ∀ a ∈ blks, ∀ b ∈ blks, ∀ t u, a.ticket = some t → b.ticket = some u →
    Blake2b.sum256 t.vrfProof = Blake2b.sum256 u.vrfProof → t = u

variable {blks : List BlockHeader}

theorem NoCollision.perm {blks' : List BlockHeader} (h : NoCollision blks) (hpe : blks'.Perm blks) :
    NoCollision blks' := fun a ha b hb =>
  h a (hpe.mem_iff.mp ha) b (hpe.mem_iff.mp hb)

def BlockHeader.rank (b : BlockHeader) : Bytes ×ₗ Bytes :=
  toLex ((b.ticket.map fun t => Blake2b.sum256 t.vrfProof).getD [], b.cid.str)

variable {a b : BlockHeader}

theorem before_iff {t u : Ticket} (ha : a.ticket = some t) (hb : b.ticket = some u)
    (hinj : Blake2b.sum256 t.vrfProof = Blake2b.sum256 u.vrfProof → t = u) : a.before b = true ↔ a.rank < b.rank := by
  unfold BlockHeader.before BlockHeader.rank
  rw [ha, hb, Prod.Lex.toLex_lt_toLex]
  simp only [Option.map_some, Option.getD_some]
  by_cases htu : t = u
  · subst htu
    rw [if_pos (show t.equals t = true by unfold Ticket.equals; exact beq_self_eq_true _), decide_eq_true_iff]
    constructor
    · exact fun h => Or.inr ⟨rfl, h⟩
    rintro (h | ⟨-, h⟩)
    · exact absurd h (lt_irrefl _)
    · exact h
  have hne : ¬ t.equals u = true := by
    intro heq
    have hpr : t.vrfProof = u.vrfProof := eq_of_beq heq
    obtain ⟨p⟩ := t
    obtain ⟨q⟩ := u
    exact htu (congrArg Ticket.mk hpr)
  rw [if_neg hne, Ticket.less, decide_eq_true_iff]
  constructor
  · exact Or.inl
  rintro (h | ⟨h, -⟩)
  · exact h
  · exact absurd (hinj h) htu

theorem le_iff_rank (htk : ∀ b ∈ blks, b.ticket.isSome) (h : NoCollision blks) (ha : a ∈ blks) (hb : b ∈ blks) :
    a.le b ↔ a.rank ≤ b.rank := by
  obtain ⟨t, ht⟩ := Option.isSome_iff_exists.mp (htk a ha)
  obtain ⟨u, hu⟩ := Option.isSome_iff_exists.mp (htk b hb)
  unfold BlockHeader.le
  rw [← not_lt, ← before_iff hu ht (h b hb a ha u t hu ht), Bool.not_eq_true]

theorem sortBlocks_pairwise (htk : TicketsPresent blks) (h : NoCollision blks) : (sortBlocks blks).Pairwise BlockHeader.le := by
  by_cases hlen : 2 ≤ blks.length
  · have hra := fun a ha b hb => le_iff_rank (htk hlen) h (a := a) (b := b) ha hb
    have hso : sortBlocks blks = blks.insertionSort fun a b => a.rank ≤ b.rank := by
      have hm := map_insertionSort (r := BlockHeader.le) (s := fun a b => a.rank ≤ b.rank) id blks hra
      rw [map_id, map_id] at hm
      exact hm
    have : IsTrans BlockHeader fun a b => a.rank ≤ b.rank := ⟨fun _ _ _ => le_trans⟩
    have : Std.Total fun a b : BlockHeader => a.rank ≤ b.rank := ⟨fun a b => le_total a.rank b.rank⟩
    have hsor := pairwise_insertionSort (fun a b : BlockHeader => a.rank ≤ b.rank) blks
    rw [← hso] at hsor
    refine hsor.imp_of_mem fun ha hb hab => ?_
    have hpe := sortBlocks_perm blks
    exact (hra _ (hpe.mem_iff.mp ha) _ (hpe.mem_iff.mp hb)).mpr hab
  obtain _ | ⟨b, _ | ⟨c, rest⟩⟩ := blks
  · exact .nil
  · exact pairwise_singleton _ b
  · rw [length_cons, length_cons] at hlen
    omega

variable {ts : TipSet}

theorem eq_sortBlocks {blks blks' : List BlockHeader} (htk : TicketsPresent blks)
    (h : NoCollision blks) (hci : ∀ a ∈ blks, ∀ b ∈ blks, a.cid = b.cid → a = b)
    (hpe : blks'.Perm blks) (hso : blks'.Pairwise BlockHeader.le) : blks' = sortBlocks blks := by
  by_cases hlen : 2 ≤ blks.length
  · refine List.Perm.eq_of_pairwise ?_ hso (sortBlocks_pairwise htk h) (hpe.trans (sortBlocks_perm blks).symm)
    intro a b ha hb hab hba
    have ha' := hpe.mem_iff.mp ha
    have hb' := (sortBlocks_perm blks).mem_iff.mp hb
    have hle := (le_iff_rank (htk hlen) h ha' hb').mp hab
    have hge := (le_iff_rank (htk hlen) h hb' ha').mp hba
    have hra : a.rank = b.rank := le_antisymm hle hge
    have hst : a.cid.str = b.cid.str := congrArg (fun r => (ofLex r).2) hra
    exact hci a ha' b hb' (congrArg Cid.mk hst)
  obtain _ | ⟨b, _ | ⟨c, rest⟩⟩ := blks
  · exact hpe.eq_nil
  · exact perm_singleton.mp hpe
  · rw [length_cons, length_cons] at hlen
    omega

section
variable (hne : blks ≠ []) (htk : TicketsPresent blks)
include hne htk

theorem newTipSet_of_sorted (hbl : ts.blks = sortBlocks blks)
    (hch : checkBlocks ts.first ts.blks.tail = .ok ()) : newTipSet blks = .ok ts := by
  obtain ⟨b, hb, ht⟩ := ts
  obtain rfl : b = sortBlocks blks := hbl
  unfold newTipSet
  rw [dif_neg hne, dif_pos htk]
  have hc' : checkBlocks (TipSet.first ⟨sortBlocks blks, hb, ht⟩) (sortBlocks blks).tail = .ok () := hch
  simp only [hc']

/-- **What makes a tipset**: blocks of one height and parents, all with tickets if there are two or more. -/
theorem newTipSet_of_agree {height : Int} {parents : List Cid}
    (ha : ∀ b ∈ blks, b.height = height ∧ b.parents = parents) :
    newTipSet blks = .ok ⟨sortBlocks blks, sortBlocks_ne_nil hne, sortBlocks_tickets htk⟩ := by
  refine newTipSet_of_sorted hne htk rfl (checkBlocks_ok_iff.mpr ?_)
  have hso : ∀ b ∈ sortBlocks blks, b.height = height ∧ b.parents = parents :=
    fun b hb => ha b ((sortBlocks_perm blks).mem_iff.mp hb)
  intro b hb
  obtain ⟨hheight, hpa⟩ := hso b (mem_of_mem_tail hb)
  obtain ⟨hheight0, hp0⟩ := hso _ (head_mem (sortBlocks_ne_nil hne))
  exact ⟨hheight.trans hheight0.symm, hpa.trans hp0.symm⟩
end

theorem newTipSet_again (hts : newTipSet blks = .ok ts) (h : NoCollision ts.blks) : newTipSet ts.blks = .ok ts := by
  obtain ⟨-, htk, hb, hch⟩ := newTipSet_ok hts
  have hso : ts.blks.Pairwise BlockHeader.le := by
    rw [hb] at h ⊢
    exact sortBlocks_pairwise htk (h.perm (sortBlocks_perm blks).symm)
  have hsa : sortBlocks ts.blks = ts.blks := hso.insertionSort_eq
  exact newTipSet_of_sorted ts.ne ts.tickets hsa.symm hch

def TipSet.minTicketBlock (ts : TipSet) : BlockHeader :=
  ts.blks.tail.foldl (fun min b =>
    match b.ticket, min.ticket with
    | some t, some u => if t.less u then b else min
    | _, _ => min) ts.first

/-- **A tipset does not depend on the order its blocks arrived in**, and every correct sort gives the same. -/
theorem newTipSet_any_order (blks blks' : List BlockHeader) (hpe : blks'.Perm blks) (htk : ∀ b ∈ blks, b.ticket.isSome)
    (hci : (blks.map BlockHeader.cid).Nodup) (h : NoCollision blks) :
    (∀ sorted : List BlockHeader, sorted.Perm blks' → sorted.Pairwise BlockHeader.le → sorted = sortBlocks blks') ∧
      ((∃ ts, newTipSet blks' = .ok ts) ↔ ∃ ts, newTipSet blks = .ok ts) ∧
      ∀ ts ts', newTipSet blks = .ok ts → newTipSet blks' = .ok ts' → ts'.blks = ts.blks ∧ ts'.key = ts.key ∧
        ts'.minTicketBlock = ts.minTicketBlock ∧ ts'.height = ts.height := by
  have hin : ∀ a ∈ blks, ∀ b ∈ blks, a.cid = b.cid → a = b := fun a ha b hb => inj_on_of_nodup_map hci ha hb
  have htk' : ∀ b ∈ blks', b.ticket.isSome := fun b hb => htk b (hpe.mem_iff.mp hb)
  have hsp := sortBlocks_pairwise (fun _ => htk') (h.perm hpe)
  have hso := eq_sortBlocks (fun _ => htk) h hin ((sortBlocks_perm blks').trans hpe) hsp
  have hiff : ∀ ts, newTipSet blks' = .ok ts ↔ newTipSet blks = .ok ts := by
    refine fun ts => ⟨fun hts => ?_, fun hts => ?_⟩
    · obtain ⟨hne, -, hb, hch⟩ := newTipSet_ok hts
      exact newTipSet_of_sorted (fun hn => hne (hn ▸ hpe).eq_nil) (fun _ => htk) (hb.trans hso) hch
    · obtain ⟨hne, -, hb, hch⟩ := newTipSet_ok hts
      exact newTipSet_of_sorted (fun hn => hne (hn ▸ hpe).nil_eq.symm) (fun _ => htk') (hb.trans hso.symm) hch
  refine ⟨fun sorted hs hp => ?_, exists_congr hiff, fun ts ts' hts hts' => ?_⟩
  · exact (eq_sortBlocks (fun _ => htk) h hin (hs.trans hpe) hp).trans hso.symm
  · rw [(hiff ts).mpr hts] at hts'
    cases hts'
    exact ⟨rfl, rfl, rfl, rfl⟩

omit [Blake2b] in
theorem newTipSet_any_order_equal_tickets :
    let _ : Blake2b := ⟨id⟩
    let b (c t : Byte) : BlockHeader := ⟨⟨[c]⟩, .id 0, some ⟨[t]⟩, [], 1, ⟨[]⟩⟩
    (∃ ts, newTipSet [b 3 5, b 2 5, b 1 7] = .ok ts) ↔ ∃ ts, newTipSet [b 1 7, b 2 5, b 3 5] = .ok ts := by
  let _ : Blake2b := ⟨id⟩
  refine (newTipSet_any_order _ _ (by decide) (by decide) (by decide) ?_).2.1
  rintro - - - - ⟨p⟩ ⟨q⟩ - - hd
  exact congrArg Ticket.mk hd
end
end Lotus

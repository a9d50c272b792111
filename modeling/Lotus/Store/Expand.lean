/-
# The best tipset around a block (`AddToTipSetTracker`, `expandTipset`).

`expandTipset` joins a block with the tracked blocks of its height that have the same parents, one a miner. It compares
parents in any order; `NewTipSet` compares them in order, and dereferences the tickets it sorts by.
-/
import Lotus.Store.ChainStore
import Lotus.Types.Canonical

namespace Lotus.Store
open List

/-! ## The tracker -/

/-- The headers of the blocks tracked at a height, in the order in which they were tracked. -/
def trackedAt (env : ChainEnv) (cs : ChainStore) (height : Int) : List BlockHeader :=
  ((cs.tipsets.lookup height).getD []).filterMap fun c => (env.getBlock c).toOption

/-- `h` is the block that `expandTipset` picks for a miner other than that of `b`: the first tracked one
whose parents are those of `b` in some order. -/
def FirstSibling (tracked : List BlockHeader) (b h : BlockHeader) : Prop :=
  h.miner ≠ b.miner ∧
    tracked.find? (fun h' => decide (h'.miner = h.miner) && cidArrsEqual h'.parents b.parents) = some h

def trackAll (cs : ChainStore) (adds : List (Int × BlockHeader)) : ChainStore :=
  adds.foldl (fun cs add => addToTipSetTracker add.1 cs add.2) cs

def Tracks (blks : List BlockHeader) (cs : ChainStore) : Prop :=
  ∀ height cids, cs.tipsets.lookup height = some cids → ∀ c ∈ cids, ∃ h ∈ blks, h.cid = c ∧ h.height = height

variable {blks : List BlockHeader} {cs : ChainStore} {b : BlockHeader}

theorem Tracks.add (h : Tracks blks cs) (hb : b ∈ blks) (iter : Int) : Tracks blks (addToTipSetTracker iter cs b) := by
  unfold addToTipSetTracker
  dsimp only
  split
  · exact h
  intro height cids hlk c hc
  have hold : ∀ {height cids}, (if iter < b.height - forkLengthThreshold then cs.tipsets.erase iter
      else cs.tipsets).lookup height = some cids → cs.tipsets.lookup height = some cids := by
    intro height cids hk
    split at hk
    · by_cases hit : height = iter
      · subst hit
        simp at hk
      · rwa [AList.lookup_erase_ne hit] at hk
    · exact hk
  by_cases hheight : height = b.height
  · subst hheight
    obtain rfl : _ = cids := by simpa using hlk
    rw [mem_append, mem_singleton] at hc
    rcases hc with hc | rfl
    · rcases htss : cs.tipsets.lookup b.height with _ | tss
      · simp [htss] at hc
      · simp only [htss, Option.getD_some] at hc
        exact h b.height tss htss c hc
    · exact ⟨b, hb, rfl, rfl⟩
  · rw [AList.lookup_insert_ne hheight] at hlk
    exact h height cids (hold hlk) c hc

theorem tracks_trackAll (h : Tracks blks cs) {adds : List (Int × BlockHeader)} (ha : ∀ add ∈ adds, add.2 ∈ blks) :
    Tracks blks (trackAll cs adds) := by
  induction adds generalizing cs with
  | nil => exact h
  | cons add adds ih =>
    rw [forall_mem_cons] at ha
    exact ih (h.add ha.1 add.1) ha.2

variable {env : ChainEnv}

theorem expandLoop_ok {hs : List BlockHeader} (hlo : ∀ h ∈ hs, env.getBlock h.cid = .ok h)
    (hse : ∀ h ∈ hs, h.cid = b.cid → h = b) (all : List BlockHeader) (inclMiners : List Address)
    (hincl : b.miner ∈ inclMiners) : ∃ sibs, expandLoop env b (hs.map (·.cid)) all inclMiners = .ok (all ++ sibs) ∧
      (sibs.map (·.miner)).Nodup ∧
      ∀ h, h ∈ sibs ↔ h.miner ∉ inclMiners ∧ hs.find? (fun h' =>
        decide (h'.miner = h.miner) && cidArrsEqual h'.parents b.parents) = some h := by
  induction hs generalizing all inclMiners with
  | nil => exact ⟨[], by simp [expandLoop], nodup_nil, by simp⟩
  | cons h0 hs ih =>
    rw [forall_mem_cons] at hlo hse
    -- a block whose miner is there already, or with other parents, is not found for any other miner
    have hsk : (h0.miner ∈ inclMiners ∨ ¬ cidArrsEqual h0.parents b.parents = true) →
        ∃ sibs, expandLoop env b (hs.map (·.cid)) all inclMiners = .ok (all ++ sibs) ∧ (sibs.map (·.miner)).Nodup ∧
          ∀ h, h ∈ sibs ↔ h.miner ∉ inclMiners ∧ (h0 :: hs).find? (fun h' =>
            decide (h'.miner = h.miner) && cidArrsEqual h'.parents b.parents) = some h := by
      intro hor
      obtain ⟨sibs, hrun, hn, hsi⟩ := ih hlo.2 hse.2 all inclMiners hincl
      refine ⟨sibs, hrun, hn, fun h => (hsi h).trans (and_congr_right fun hno => ?_)⟩
      rw [List.find?_cons_of_neg]
      rw [Bool.and_eq_true, decide_eq_true_eq]
      exact fun hb => hor.elim (fun hmem => hno (hb.1 ▸ hmem)) fun hpa => hpa hb.2
    rw [map_cons]
    unfold expandLoop
    by_cases hci : h0.cid = b.cid
    · rw [if_pos hci]
      exact hsk (.inl (hse.1 hci ▸ hincl))
    rw [if_neg hci, hlo.1]
    dsimp only
    by_cases hm : h0.miner ∈ inclMiners
    · rw [if_pos hm]
      exact hsk (.inl hm)
    rw [if_neg hm]
    by_cases hpa : cidArrsEqual h0.parents b.parents = true
    · rw [if_pos hpa]
      obtain ⟨sibs, hrun, hn, hsi⟩ :=
        ih hlo.2 hse.2 (all ++ [h0]) (h0.miner :: inclMiners) (mem_cons_of_mem _ hincl)
      refine ⟨h0 :: sibs, by simpa using hrun, ?_, fun h => ?_⟩
      · rw [map_cons, nodup_cons]
        refine ⟨fun hmem => ?_, hn⟩
        obtain ⟨h, hh, heq⟩ := mem_map.mp hmem
        exact ((hsi h).mp hh).1 (heq ▸ mem_cons_self)
      by_cases hsa : h0.miner = h.miner
      · rw [List.find?_cons_of_pos (by simp [hsa, hpa]), mem_cons, hsi]
        constructor
        · rintro (rfl | ⟨hno, -⟩)
          · exact ⟨hm, rfl⟩
          · exact absurd (hsa ▸ mem_cons_self) hno
        · rintro ⟨-, heq⟩
          exact .inl (Option.some.inj heq).symm
      rw [List.find?_cons_of_neg (by simp [hsa]), mem_cons, hsi, mem_cons]
      constructor
      · rintro (rfl | ⟨hno, hfi⟩)
        · exact absurd rfl hsa
        · exact ⟨fun hmem => hno (.inr hmem), hfi⟩
      · rintro ⟨hno, hfi⟩
        exact .inr ⟨fun hmem => hmem.elim (fun heq => hsa heq.symm) hno, hfi⟩
    rw [if_neg hpa]
    exact hsk (.inr hpa)

/-! ## The tipset -/

theorem Tracks.trackedAt (h : Tracks blks cs) (hlo : ∀ h ∈ blks, env.getBlock h.cid = .ok h) (height : Int) :
    (cs.tipsets.lookup height).getD [] = (trackedAt env cs height).map (·.cid) ∧
      ∀ h ∈ trackedAt env cs height, h ∈ blks ∧ h.height = height := by
  have hci : ∀ c ∈ (cs.tipsets.lookup height).getD [], ∃ h ∈ blks, h.cid = c ∧ h.height = height := by
    rcases hlk : cs.tipsets.lookup height with _ | cids
    · simp
    · exact h height cids hlk
  unfold Store.trackedAt
  generalize (cs.tipsets.lookup height).getD [] = cids at hci ⊢
  induction cids with
  | nil => simp
  | cons c cids ih =>
    rw [forall_mem_cons] at hci
    obtain ⟨⟨h0, hmem, rfl, hheight⟩, hrest⟩ := hci
    obtain ⟨ihmap, ihmem⟩ := ih hrest
    have hco : (h0.cid :: cids).filterMap (fun c => (env.getBlock c).toOption) =
        h0 :: cids.filterMap (fun c => (env.getBlock c).toOption) := by
      simp [hlo h0 hmem, Except.toOption]
    rw [hco, map_cons, ← ihmap, forall_mem_cons]
    exact ⟨rfl, ⟨hmem, hheight⟩, ihmem⟩

section
variable [Blake2b]

theorem expandTipset_eq {blks : List BlockHeader} {cs : ChainStore} (h : Tracks blks cs) {env : ChainEnv}
    (hlo : ∀ h ∈ blks, env.getBlock h.cid = .ok h)
    (hci : ∀ h ∈ blks, ∀ h' ∈ blks, h.cid = h'.cid → h = h') {b : BlockHeader} (hb : b ∈ blks) :
    ∃ sibs, expandTipset env cs b = newTipSet (b :: sibs) ∧ ((b :: sibs).map (·.miner)).Nodup ∧
      ∀ h, h ∈ sibs ↔ FirstSibling (trackedAt env cs b.height) b h := by
  obtain ⟨hm, hmem⟩ := h.trackedAt hlo b.height
  obtain ⟨sibs, hrun, hno, hsi⟩ := expandLoop_ok (fun h hh => hlo h (hmem h hh).1)
    (fun h hh => hci h (hmem h hh).1 b hb) [b] [b.miner] mem_cons_self
  have hfirst : ∀ h, h ∈ sibs ↔ FirstSibling (trackedAt env cs b.height) b h := by
    intro h
    rw [hsi, mem_singleton]
    rfl
  refine ⟨sibs, ?_, ?_, hfirst⟩
  · unfold expandTipset
    rcases hlk : cs.tipsets.lookup b.height with _ | tsets
    · -- nothing is tracked at the height, so nothing is picked
      rw [hlk] at hm
      have hni : trackedAt env cs b.height = [] := map_eq_nil_iff.mp hm.symm
      obtain rfl : sibs = [] := by
        rw [eq_nil_iff_forall_not_mem]
        intro h hh
        have hn := ((hfirst h).mp hh).2
        simp [hni] at hn
      rfl
    rw [hlk, Option.getD_some] at hm
    simp only [hm, hrun]
    rfl
  rw [map_cons, nodup_cons]
  refine ⟨fun hmem' => ?_, hno⟩
  obtain ⟨h, hh, heq⟩ := mem_map.mp hmem'
  exact ((hfirst h).mp hh).1 heq

/-- `expandTipset` gives `b` and blocks of its height with its parents, one a miner. -/
def Expands (env : ChainEnv) (cs : ChainStore) (b : BlockHeader) : Prop :=
  ∃ ts, expandTipset env cs b = .ok ts ∧ b ∈ ts.blks ∧ (ts.blks.map (·.miner)).Nodup ∧
    ∀ h ∈ ts.blks, h.height = b.height ∧ h.parents = b.parents

/-- **When a tracked block expands to a tipset**: exactly when the first sibling of every other miner lists the parents in the
order of the block, and both have tickets. -/
theorem expandTipset_iff (env : ChainEnv) (cs : ChainStore) (hcs : cs.tipsets = ∅) (adds : List (Int × BlockHeader))
    (hcid : ∀ h ∈ adds.map (·.2), ∀ h' ∈ adds.map (·.2), h.cid = h'.cid → h = h')
    (hload : ∀ h ∈ adds.map (·.2), env.getBlock h.cid = .ok h) (b : BlockHeader) (hb : b ∈ adds.map (·.2)) :
    Expands env (trackAll cs adds) b ↔
      ∀ h, FirstSibling (trackedAt env (trackAll cs adds) b.height) b h →
        h.parents = b.parents ∧ h.ticket.isSome ∧ b.ticket.isSome := by
  have hempty : Tracks (adds.map (·.2)) cs := by
    intro height cids hlk
    rw [hcs] at hlk
    simp at hlk
  have htr : Tracks (adds.map (·.2)) (trackAll cs adds) :=
    tracks_trackAll hempty fun add ha => mem_map_of_mem ha
  obtain ⟨sibs, hexp, hn, hsi⟩ := expandTipset_eq htr hload hcid hb
  unfold Expands
  rw [hexp]
  constructor
  · rintro ⟨ts, hts, -, -, hag⟩ h hfirst
    have hmem : h ∈ sibs := (hsi h).mpr hfirst
    obtain ⟨-, htk, hbl, -⟩ := newTipSet_ok hts
    have hin : h ∈ ts.blks := by
      rw [hbl]
      exact (sortBlocks_perm _).mem_iff.mpr (mem_cons_of_mem b hmem)
    have hlen : 2 ≤ (b :: sibs).length := by
      have := length_pos_of_mem hmem
      rw [length_cons]
      omega
    exact ⟨(hag h hin).2, htk hlen h (mem_cons_of_mem b hmem), htk hlen b mem_cons_self⟩
  intro hfirst
  have hag : ∀ h ∈ b :: sibs, h.height = b.height ∧ h.parents = b.parents := by
    rw [forall_mem_cons]
    refine ⟨⟨rfl, rfl⟩, fun h hh => ⟨?_, (hfirst h ((hsi h).mp hh)).1⟩⟩
    have hfo := mem_of_find?_eq_some ((hsi h).mp hh).2
    exact ((htr.trackedAt hload b.height).2 h hfo).2
  have htk : TicketsPresent (b :: sibs) := by
    intro hlen
    have hsib : ∀ h ∈ sibs, h.ticket.isSome ∧ b.ticket.isSome :=
      fun h hh => (hfirst h ((hsi h).mp hh)).2
    obtain ⟨h, hh⟩ : ∃ h, h ∈ sibs := by
      refine exists_mem_of_length_pos ?_
      rw [length_cons] at hlen
      omega
    rw [forall_mem_cons]
    exact ⟨(hsib h hh).2, fun h' hh' => (hsib h' hh').1⟩
  have hpe := sortBlocks_perm (b :: sibs)
  refine ⟨_, newTipSet_of_agree (cons_ne_nil b sibs) htk hag, ?_, ?_, ?_⟩
  · exact hpe.mem_iff.mpr mem_cons_self
  · exact (hpe.map _).nodup_iff.mpr hn
  · exact fun h hh => hag h (hpe.mem_iff.mp hh)
end

section

@[reducible] def siblingDigest : Blake2b := ⟨id⟩

def siblingBlock (n : Byte) (parents : List Cid) : BlockHeader :=
  ⟨⟨[n]⟩, .id n, some ⟨[n]⟩, parents, 1, ⟨[]⟩⟩

def siblingBlocks : List BlockHeader :=
  [siblingBlock 2 [⟨[0]⟩, ⟨[1]⟩], siblingBlock 3 [⟨[0]⟩, ⟨[1]⟩], siblingBlock 4 [⟨[1]⟩, ⟨[0]⟩]]

def siblingEnv : ChainEnv where
  getBlock c := match siblingBlocks.find? (·.cid = c) with
    | some h => .ok h
    | none => .error (.errorf "blockstore: block not found")
  loadTipSet _ := .error (.errorf "blockstore: block not found")
  weight _ := .ok 0
  persistErr := none
  metadataPutErr := none
  metadataDeleteErr := none

def siblingStore (n : Nat) : ChainStore :=
  trackAll .new ((siblingBlocks.take n).map fun h => (0, h))

theorem siblings_expand :
    let _ : Blake2b := siblingDigest
    Expands siblingEnv (siblingStore 2) (siblingBlock 2 [⟨[0]⟩, ⟨[1]⟩]) :=
  let _ : Blake2b := siblingDigest
  (expandTipset_iff siblingEnv .new rfl ((siblingBlocks.take 2).map fun h => (0, h)) (by decide)
    (by decide) (siblingBlock 2 [⟨[0]⟩, ⟨[1]⟩]) (by decide)).mpr (by
      rintro h ⟨-, hfind⟩
      have hall : ∀ h ∈ trackedAt siblingEnv (siblingStore 2) 1,
          h.parents = [⟨[0]⟩, ⟨[1]⟩] ∧ h.ticket.isSome ∧ Option.isSome (some (Ticket.mk [2])) := by
        decide
      exact hall h (mem_of_find?_eq_some hfind))

/-- With all three tracked none expands: a block is joined with its parents the other way round. -/
theorem siblings_mismatch :
    let _ : Blake2b := siblingDigest
    (siblingBlocks.map (·.cid)).Nodup ∧ (∀ h ∈ siblingBlocks, siblingEnv.getBlock h.cid = .ok h) ∧
    ∀ b ∈ siblingBlocks, expandTipset siblingEnv (siblingStore 3) b =
      .error (.errorf "cannot create tipset with mismatching parents") := by
  decide
end
end Lotus.Store

/-
# When the tipset cache answers like the chain.

The search counts cells back from the newest one, which is right only if the tipset asked about is the head. What it finds
agrees with storage under the exact conditions `AnswerableBefore` and `AnswerableAfter`.
-/
import Lotus.Events.TipSetCache

namespace Lotus.Events
open Lib.Ancestry Lib.Lts Store TipSetCache Option

namespace TipSetCache
variable {tsc : TipSetCache} {base direction : Int} {n : Nat}

section
variable {i : Int} (hcap : 0 < tsc.ring.cap)
  (hempty : ∀ m : Nat, m < n → i + m * direction < tsc.len ∧ tsc.ring.cell (base + (i + m * direction)) = none)
include hcap hempty

theorem getLoop_skip
    (fuel : Nat) : tsc.getLoop base direction (fuel + n) i = tsc.getLoop base direction fuel (i + n * direction) := by
  induction n generalizing fuel with
  | zero => simp
  | succ n ih =>
    obtain ⟨hlt, hn⟩ := hempty n (by omega)
    have hsh : i + (n + 1 : Nat) * direction = i + n * direction + direction := by
      push_cast
      ring
    rw [show fuel + (n + 1) = fuel + 1 + n by omega, hsh]
    rw [ih fun m hm => hempty m (by omega), getLoop, if_pos hlt, slot_normalModulo hcap, hn]

theorem getLoop_found {y : TipSet}
    (hla : i + n * direction < tsc.len) (hy : tsc.ring.cell (base + (i + n * direction)) = some y) {fuel : Nat}
    (hfu : n < fuel) : tsc.getLoop base direction fuel i = some (some y) := by
  obtain ⟨k, rfl⟩ := Nat.exists_eq_add_of_lt hfu
  rw [show n + k + 1 = k + 1 + n by omega, getLoop_skip hcap hempty, getLoop, if_pos hla, slot_normalModulo hcap, hy]

theorem getLoop_end (hla : tsc.len ≤ i + n * direction) {fuel : Nat} (hfu : n < fuel) :
    tsc.getLoop base direction fuel i = some none := by
  obtain ⟨k, rfl⟩ := Nat.exists_eq_add_of_lt hfu
  rw [show n + k + 1 = k + 1 + n by omega, getLoop_skip hcap hempty, getLoop, if_neg (by omega)]
end

theorem exists_first (f : Nat → Option TipSet) {n : Nat} {y : TipSet} (hy : f n = some y) :
    ∃ k ≤ n, ∃ z, f k = some z ∧ ∀ m < k, f m = none := by
  have hex : ∃ k, (f k).isSome := ⟨n, by simp [hy]⟩
  obtain ⟨z, hz⟩ := isSome_iff_exists.mp (Nat.find_spec hex)
  refine ⟨Nat.find hex, Nat.find_min' hex (by simp [hy]), z, hz, fun m hm => ?_⟩
  simpa using Nat.find_min hex hm

end TipSetCache

namespace Cached
open TipSetCache
variable {T : TipSetTree} {s : Cached} {d : Int}

theorem cell_from (s : Cached) (d direction : Int) (m : Nat) :
    s.tsc.ring.cell (s.tsc.start - d + (0 + m * direction)) = s.tsc.ring.back (d - m * direction) := by
  show s.tsc.ring.cell _ = s.tsc.ring.cell (s.tsc.start - (d - m * direction))
  congr 1
  ring

section
variable (h : Follows T s)
include h

theorem Follows.back_zero (hlen : 0 < s.tsc.len) : s.tsc.ring.back 0 = some s.head :=
  (h.window.held 0 s.head le_rfl (by omega)).mpr ⟨.refl _, by omega⟩

theorem Follows.back_height {y : TipSet} (hy : AncOrSelf T.parent y s.head)
    (hlo : s.head.height - s.tsc.len < y.height) : s.tsc.ring.back (s.head.height - y.height) = some y := by
  have := hy.height_le T.height_parent
  exact (h.window.held _ y (by omega) (by omega)).mpr ⟨hy, by omega⟩

theorem Follows.search (direction : Int) (n : Nat) (hlen : ∀ m : Nat, m ≤ n → m * direction < s.tsc.len) {y0 : TipSet}
    (hanc0 : AncOrSelf T.parent y0 s.head) (hl0 : s.head.height - s.tsc.len < y0.height)
    (hn : d - n * direction = s.head.height - y0.height) :
    ∃ k ≤ n, ∃ y, s.tsc.ring.back (d - k * direction) = some y ∧
      (∀ z, AncOrSelf T.parent z s.head → s.head.height - s.tsc.len < z.height →
        ∀ m : Nat, d - m * direction = s.head.height - z.height → k ≤ m) ∧
      ∀ fuel : Nat, n < fuel → s.tsc.getLoop (s.tsc.start - d) direction fuel 0 = some (some y) := by
  have hy0 : s.tsc.ring.back (d - n * direction) = some y0 := by
    rw [hn]
    exact h.back_height hanc0 hl0
  obtain ⟨k, hk, y, hy, hno⟩ := exists_first (fun m => s.tsc.ring.back (d - m * direction)) hy0
  refine ⟨k, hk, y, hy, fun z hz hlo m hm => ?_, fun fuel hfu => ?_⟩
  · by_contra hlt
    -- it would have been seen before
    have hb := hno m (not_le.mp hlt)
    rw [hm, h.back_height hz hlo] at hb
    cases hb
  refine getLoop_found (n := k) h.window.cap (fun m hm => ?_) ?_ ?_ (by omega)
  · rw [cell_from, zero_add]
    exact ⟨hlen m (by omega), hno m hm⟩
  · rw [zero_add]
    exact hlen k hk
  · rw [cell_from]
    exact hy

theorem Follows.up_inside (hlow : 0 ≤ d) (hh : d < s.tsc.len) :
    ∃ y, LowestAbove T s.head (s.head.height - d) y ∧
      ∀ fuel : Nat, s.tsc.ring.cap < fuel → s.tsc.getLoop (s.tsc.start - d) 1 fuel 0 = some (some y) := by
  have hw := h.window
  have hle := hw.len
  obtain ⟨k, hk, y, hy, hfirst, hlo⟩ := h.search (d := d) 1 d.toNat (by omega) (.refl s.head) (by omega) (by omega)
  obtain ⟨hanc, hheight⟩ := (hw.held (d - k * 1) y (by omega) (by omega)).mp hy
  refine ⟨y, ⟨hanc, by omega, fun z hz hto => ?_⟩, fun fuel hfu => hlo fuel (by omega)⟩
  have := hfirst z hz (by omega) (d - (s.head.height - z.height)).toNat (by omega)
  omega

theorem Follows.up_full (hlen : 0 < s.tsc.len) (hfu : (s.tsc.len : Int) = s.tsc.ring.cap) (hd : d = s.tsc.len)
    {fuel : Nat} (hfuel : s.tsc.ring.cap < fuel) : s.tsc.getLoop (s.tsc.start - d) 1 fuel 0 = some (some s.head) := by
  refine getLoop_found (n := 0) h.window.cap (fun m hm => absurd hm (by omega)) (by omega) ?_ (by omega)
  rw [cell_from, hd, hfu]
  have := Lib.Ring.back_add_cap s.tsc.ring 0
  rw [zero_add] at this
  simpa [this] using h.back_zero hlen

theorem Follows.up_edge (hro : (s.tsc.len : Int) < s.tsc.ring.cap) (hd : d = s.tsc.len) :
    (∃ y, AncOrSelf T.parent y s.head ∧ s.head.height - s.tsc.len < y.height ∧ y.height < s.head.height ∧
        (∀ z, AncOrSelf T.parent z s.head → s.head.height - s.tsc.len < z.height → y.height ≤ z.height) ∧
        ∀ fuel : Nat, s.tsc.ring.cap < fuel → s.tsc.getLoop (s.tsc.start - d) 1 fuel 0 = some (some y)) ∨
      (∀ y, AncOrSelf T.parent y s.head → ¬ (s.head.height - s.tsc.len < y.height ∧ y.height < s.head.height)) ∧
        ∀ fuel : Nat, s.tsc.ring.cap < fuel → s.tsc.getLoop (s.tsc.start - d) 1 fuel 0 = some none := by
  subst hd
  have hw := h.window
  have hfirst : s.tsc.ring.back s.tsc.len = none := hw.beyond _ le_rfl hro
  by_cases hex : ∃ y, AncOrSelf T.parent y s.head ∧ s.head.height - s.tsc.len < y.height ∧ y.height < s.head.height
  · obtain ⟨y0, hanc0, hl0, hh0⟩ := hex
    obtain ⟨k, hk, y, hy, hmi, hlo⟩ := h.search (d := s.tsc.len) 1
      (s.tsc.len - (s.head.height - y0.height)).toNat (by omega) hanc0 hl0 (by omega)
    have hpo : k ≠ 0 := by
      rintro rfl
      simp [hfirst] at hy
    obtain ⟨hanc, hheight⟩ := (hw.held (s.tsc.len - k * 1) y (by omega) (by omega)).mp hy
    refine .inl ⟨y, hanc, by omega, by omega, fun z hz hto => ?_, fun fuel hfu => hlo fuel (by omega)⟩
    have := hmi z hz hto (s.tsc.len - (s.head.height - z.height)).toNat (by omega)
    omega
  refine .inr ⟨fun y hanc hb => hex ⟨y, hanc, hb⟩, fun fuel hfu => ?_⟩
  refine getLoop_end (n := s.tsc.len) hw.cap (fun m hm => ?_) (by omega) (by omega)
  rw [cell_from]
  refine ⟨by omega, ?_⟩
  by_cases hm0 : m = 0
  · simpa [hm0] using hfirst
  rw [eq_none_iff_forall_not_mem]
  intro y hy
  obtain ⟨hanc, hheight⟩ := (hw.held (s.tsc.len - m * 1) y (by omega) (by omega)).mp hy
  exact hex ⟨y, hanc, by omega, by omega⟩

theorem Follows.down_found (hlow : 0 ≤ d) {y0 : TipSet} (hanc0 : AncOrSelf T.parent y0 s.head)
    (hl0 : s.head.height - s.tsc.len < y0.height) (hh0 : y0.height ≤ s.head.height - d) :
    ∃ y, HighestBelow T s.head (s.head.height - d) y ∧ s.head.height - s.tsc.len < y.height ∧
      ∀ fuel : Nat, s.tsc.ring.cap < fuel → s.tsc.getLoop (s.tsc.start - d) (-1) fuel 0 = some (some y) := by
  have hw := h.window
  have hle := hw.len
  obtain ⟨k, hk, y, hy, hm, hlo⟩ := h.search (d := d) (-1) (s.head.height - y0.height - d).toNat (by omega) hanc0 hl0 (by omega)
  obtain ⟨hanc, hheight⟩ := (hw.held (d - k * -1) y (by omega) (by omega)).mp hy
  refine ⟨y, ⟨hanc, by omega, fun z hz hto => ?_⟩, by omega, fun fuel hfu => hlo fuel (by omega)⟩
  by_contra hlt
  have := hm z hz (by omega) (s.head.height - z.height - d).toNat (by omega)
  omega

theorem Follows.down_round (hlo : 0 < d) (hh : d ≤ s.tsc.len)
    (hn : ∀ y, AncOrSelf T.parent y s.head → ¬ (s.head.height - s.tsc.len < y.height ∧ y.height ≤ s.head.height - d))
    {fuel : Nat} (hfu : s.tsc.ring.cap < fuel) : s.tsc.getLoop (s.tsc.start - d) (-1) fuel 0 = some (some s.head) := by
  have hw := h.window
  have hle := hw.len
  refine getLoop_found (n := (s.tsc.ring.cap - d).toNat) hw.cap (fun m hm => ?_) (by omega) ?_ (by omega)
  · rw [cell_from]
    refine ⟨by omega, ?_⟩
    by_cases hm' : d - m * -1 < s.tsc.len
    · rw [eq_none_iff_forall_not_mem]
      intro y hy
      obtain ⟨hanc, hheight⟩ := (hw.held (d - m * -1) y (by omega) hm').mp hy
      exact hn y hanc (by omega)
    · exact hw.beyond _ (by omega) (by omega)
  · rw [cell_from, show d - ((s.tsc.ring.cap - d).toNat : Int) * -1 = 0 + s.tsc.ring.cap by omega, Lib.Ring.back_add_cap]
    exact h.back_zero (by omega)
end
end Cached

/-! ## What storage answers -/

/-- Storage answers for the tipsets of the tree, and with an error outside. -/
structure TsCacheAPI.Answers (storage : TsCacheAPI) (T : TipSetTree) : Prop where
  inside : ∀ x height, T.mem x → 0 ≤ height → height ≤ x.height →
    (∃ ts, storage.chainGetTipSetByHeight height x.key = .ok ts ∧ HighestBelow T x height ts) ∧
      ∃ ts, storage.chainGetTipSetAfterHeight height x.key = .ok ts ∧ LowestAbove T x height ts
  outside : ∀ x height prev, T.mem x → height < 0 ∨ x.height < height →
    ∃ e, storage.fallback prev height x.key = .error e

def Like : Except GoError (Option TipSet) → Except GoError TipSet → Prop
  | .ok r, .ok ts => r = some ts
  | .error _, .error _ => True
  | _, _ => False

theorem like_map_some (r : Except GoError TipSet) : Like (r.map some) r := by
  cases r <;> simp [Except.map, Like]

namespace Cached
open TipSetCache
variable {T : TipSetTree} {s : Cached} {d : Int}

def chainKey (s : Cached) (tsk : TipSetKey) : TipSetKey :=
  if s.tsc.len ≠ 0 ∧ tsk = [] then s.head.key else tsk

/-- The cache looks a query up in the ring: its key stands for `x`, at most `len` above the height. -/
def LooksUp (s : Cached) (height : Int) (tsk : TipSetKey) (x : TipSet) : Prop :=
  s.tsc.len ≠ 0 ∧ (tsk = [] ∧ x = s.head ∨ tsk ≠ [] ∧ s.tsc.byKey.lookup tsk = some x) ∧
    x.height - s.tsc.len ≤ height ∧ height < x.height

section
variable (T : TipSetTree) (s : Cached) (height : Int)
include height

/-- A tipset at or below the height is in the window, and none lies between it and the start of the search. -/
def AnswerableBefore (x : TipSet) : Prop :=
  (∃ y, AncOrSelf T.parent y s.head ∧ s.head.height - s.tsc.len < y.height ∧ y.height ≤ height) ∧
    ∀ y, AncOrSelf T.parent y s.head → ¬ (height < y.height ∧ y.height ≤ height + (s.head.height - x.height))

/-- No tipset lies between the height and the start of the search, which just below the window misses or sees only the head.
-/
def AnswerableAfter (x : TipSet) : Prop :=
  (∀ y, AncOrSelf T.parent y s.head → ¬ (height ≤ y.height ∧ y.height < height + (s.head.height - x.height))) ∧
    (height = x.height - s.tsc.len →
      if (s.tsc.len : Int) = s.tsc.ring.cap then
        ∀ y, AncOrSelf T.parent y s.head → ¬ (height ≤ y.height ∧ y.height < s.head.height)
      else
        (∀ y, AncOrSelf T.parent y s.head → y.height ≠ s.head.height - s.tsc.len) ∧
          ∃ y, AncOrSelf T.parent y s.head ∧ s.head.height - s.tsc.len < y.height ∧ y.height < s.head.height)

/-- The condition under which the cache answers a query like the chain. -/
def Answerable (tsk : TipSetKey) (prev : Bool) : Prop :=
  ∀ x, s.LooksUp height tsk x →
    0 ≤ height ∧ if prev then AnswerableBefore T s height x else AnswerableAfter T s height x
end

variable {x : TipSet} {height : Int}

theorem anc_of_le {y : TipSet} (hx : AncOrSelf T.parent x s.head) (hy : AncOrSelf T.parent y s.head)
    (hle : y.height ≤ x.height) : AncOrSelf T.parent y x :=
  ancOrSelf_of_height_le T.height_parent hy hx hle

theorem Follows.before_iff (h : Follows T s) (hx : AncOrSelf T.parent x s.head) (hlo : x.height - s.tsc.len ≤ height)
    (hh : height < x.height) :
    ∃ r, (∀ fuel : Nat, s.tsc.ring.cap < fuel →
        s.tsc.getLoop (s.tsc.start - (x.height - height)) (-1) fuel 0 = some r) ∧
      ∀ ts, HighestBelow T x height ts → (r = some ts ↔ AnswerableBefore T s height x) := by
  have hxl := hx.height_le T.height_parent
  by_cases hex : ∃ y, AncOrSelf T.parent y s.head ∧ s.head.height - s.tsc.len < y.height ∧
      y.height ≤ s.head.height - (x.height - height)
  · obtain ⟨y0, hanc0, hl0, hh0⟩ := hex
    obtain ⟨y, hy, hyl, hrun⟩ := h.down_found (by omega) hanc0 hl0 hh0
    refine ⟨some y, hrun, fun ts hts => ?_⟩
    rw [some.injEq]
    constructor
    · rintro rfl
      have hb := hts.below
      refine ⟨⟨y, hy.anc, hyl, hb⟩, fun z hz hbe => ?_⟩
      have := hy.highest z hz (by omega)
      omega
    rintro ⟨⟨z, hz, hzl, hzh⟩, hn⟩
    -- the tipset that is found is not above the height, so the two are the highest of the same ones
    have hb := hy.below
    have hyh : y.height ≤ height := by
      by_contra hgt
      exact hn y hy.anc (by omega)
    have htsx := hts.anc.trans hx
    have hle := hts.highest y (anc_of_le hx hy.anc (by omega)) hyh
    have htsb := hts.below
    have hge := hy.highest ts htsx (by omega)
    exact ancOrSelf_unique T.height_parent hy.anc htsx (by omega)
  refine ⟨some s.head, fun fuel hfu => h.down_round (by omega) (by omega) (fun y hy hba => hex ⟨y, hy, hba⟩) hfu,
    fun ts hts => ?_⟩
  rw [some.injEq]
  constructor
  · rintro rfl
    have := hts.below
    omega
  · rintro ⟨⟨z, hz, hzl, hzh⟩, -⟩
    exact absurd ⟨z, hz, hzl, by omega⟩ hex

theorem eq_lowest_iff {y ts : TipSet} (hx : AncOrSelf T.parent x s.head) (hy : AncOrSelf T.parent y s.head)
    (hts : LowestAbove T x height ts) (hyh : height ≤ y.height) :
    y = ts ↔ ∀ z, AncOrSelf T.parent z s.head → ¬ (height ≤ z.height ∧ z.height < y.height) := by
  have htsx := hts.anc.trans hx
  have htsle := hts.anc.height_le T.height_parent
  have ha := hts.above
  constructor
  · rintro rfl z hz ⟨hto, hlt⟩
    have := hts.lowest z (anc_of_le hx hz (by omega)) hto
    omega
  intro hn
  have hbe := hn ts htsx
  have hge := hts.lowest y (anc_of_le hx hy (by
    by_contra hgt
    exact hbe ⟨ha, by omega⟩)) hyh
  exact ancOrSelf_unique T.height_parent hy htsx (by omega)

theorem Follows.after_iff (h : Follows T s) (hlen : 0 < s.tsc.len) (hx : AncOrSelf T.parent x s.head)
    (hlow : x.height - s.tsc.len ≤ height) (hh : height < x.height) :
    ∃ r, (∀ fuel : Nat, s.tsc.ring.cap < fuel → s.tsc.getLoop (s.tsc.start - (x.height - height)) 1 fuel 0 = some r) ∧
      ∀ ts, LowestAbove T x height ts → (r = some ts ↔ AnswerableAfter T s height x) := by
  have hxl := hx.height_le T.height_parent
  by_cases hedge : height = x.height - s.tsc.len
  · by_cases hfu : (s.tsc.len : Int) = s.tsc.ring.cap
    · refine ⟨some s.head, fun fuel hfuel => h.up_full hlen hfu (by omega) hfuel, fun ts hts => ?_⟩
      rw [some.injEq, eq_lowest_iff hx (.refl _) hts (by omega), AnswerableAfter, if_pos hfu]
      exact ⟨fun hn => ⟨fun y hy hb => hn y hy (by omega), fun _ => hn⟩, fun hans => hans.2 hedge⟩
    have hle := h.window.len
    rcases h.up_edge (d := x.height - height) (by omega) (by omega) with
      ⟨y, hanc, hyl, hyh, hlo, hrun⟩ | ⟨hn, hrun⟩
    · refine ⟨some y, hrun, fun ts hts => ?_⟩
      rw [some.injEq, eq_lowest_iff hx hanc hts (by omega), AnswerableAfter, if_neg hfu]
      constructor
      · intro hn
        exact ⟨fun z hz hb => hn z hz (by omega), fun _ => ⟨fun z hz hb => hn z hz (by omega), y, hanc, hyl, hyh⟩⟩
      rintro ⟨hno, hrest⟩ z hz hb
      have hbe := hno z hz
      have hne := (hrest hedge).1 z hz
      have hge := hlo z hz (by omega)
      omega
    refine ⟨none, hrun, fun ts hts => ?_⟩
    rw [AnswerableAfter, if_neg hfu]
    refine ⟨fun hb => (by cases hb), ?_⟩
    rintro ⟨-, hrest⟩
    obtain ⟨-, y, hy, hb⟩ := hrest hedge
    exact absurd hb (hn y hy)
  obtain ⟨y, hy, hrun⟩ := h.up_inside (d := x.height - height) (by omega) (by omega)
  refine ⟨some y, hrun, fun ts hts => ?_⟩
  have ha := hy.above
  rw [some.injEq, eq_lowest_iff hx hy.anc hts (by omega), AnswerableAfter]
  constructor
  · intro hn
    exact ⟨fun z hz hb => hn z hz (by omega), fun heq => absurd heq hedge⟩
  rintro ⟨hno, -⟩ z hz hb
  have hbe := hno z hz
  have hle := hy.lowest z hz (by omega)
  omega

variable {storage : TsCacheAPI}

theorem Follows.getFrom_iff (h : Follows T s) (hansw : storage.Answers T) (hht : ∀ ts, T.mem ts → 0 ≤ ts.height)
    (hlen : 0 < s.tsc.len) (hx : AncOrSelf T.parent x s.head) (height : Int) (prev : Bool) :
    ∃ r, (∀ fuel : Nat, s.tsc.ring.cap < fuel → s.tsc.getFrom storage fuel height x prev = some r) ∧
      (Like r (storage.fallback prev height x.key) ↔ (x.height - s.tsc.len ≤ height → height < x.height →
        0 ≤ height ∧ if prev then AnswerableBefore T s height x else AnswerableAfter T s height x)) := by
  have hmem := T.mem_of_anc h.mem hx
  unfold getFrom
  by_cases hse : x.height = height
  · -- the tipset itself
    obtain ⟨⟨b, hb, hbe⟩, a, ha, hab⟩ := hansw.inside x height hmem (hse ▸ hht x hmem) hse.ge
    have hbx : b = x := by
      have := hbe.highest x (.refl _) hse.le
      have := hbe.anc.height_le T.height_parent
      exact ancOrSelf_unique T.height_parent hbe.anc (.refl _) (by omega)
    have hax : a = x := by
      have := hab.above
      have := hab.anc.height_le T.height_parent
      exact ancOrSelf_unique T.height_parent hab.anc (.refl _) (by omega)
    refine ⟨.ok (some x), fun fuel _ => if_pos hse, iff_of_true ?_ fun _ hlt => absurd hlt (by omega)⟩
    cases prev <;> simp [TsCacheAPI.fallback, ha, hb, hax, hbx, Like]
  by_cases hfut : x.height < height
  · obtain ⟨e, he⟩ := hansw.outside x height prev hmem (.inr hfut)
    refine ⟨_, fun fuel _ => by rw [if_neg hse, if_pos hfut], iff_of_true ?_ fun _ hlt => absurd hlt (by omega)⟩
    rw [he]
    trivial
  by_cases hdeep : height < x.height - s.tsc.len
  · exact ⟨_, fun fuel _ => by rw [if_neg hse, if_neg hfut, if_pos hdeep],
      iff_of_true (like_map_some _) fun hle => absurd hle (by omega)⟩
  simp only [if_neg hse, if_neg hfut, if_neg hdeep]
  have hlo : x.height - s.tsc.len ≤ height := not_lt.mp hdeep
  have hh : height < x.height := by omega
  have hra : ∀ {P : Prop}, (x.height - s.tsc.len ≤ height → height < x.height → P) ↔ P :=
    ⟨fun hall => hall hlo hh, fun hp _ _ => hp⟩
  rw [hra]
  cases prev with
  | true =>
    obtain ⟨r, hrun, hif⟩ := h.before_iff hx hlo hh
    refine ⟨.ok r, fun fuel hfu => by rw [if_pos rfl, hrun fuel hfu]; rfl, ?_⟩
    by_cases hn : height < 0
    · obtain ⟨e, he⟩ := hansw.outside x height true hmem (.inl hn)
      simp [he, Like, hn]
    · obtain ⟨⟨b, hb, hbe⟩, -⟩ := hansw.inside x height hmem (by omega) (by omega)
      simp only [TsCacheAPI.fallback, if_true, hb, Like, hif b hbe, not_lt.mp hn, true_and]
  | false =>
    obtain ⟨r, hrun, hif⟩ := h.after_iff hlen hx hlo hh
    refine ⟨.ok r, fun fuel hfu => by rw [if_neg Bool.false_ne_true, hrun fuel hfu]; rfl, ?_⟩
    by_cases hn : height < 0
    · obtain ⟨e, he⟩ := hansw.outside x height false hmem (.inl hn)
      simp [he, Like, hn]
    · obtain ⟨-, a, ha, hab⟩ := hansw.inside x height hmem (by omega) (by omega)
      simp only [TsCacheAPI.fallback, Bool.false_eq_true, if_false, ha, Like, hif a hab, not_lt.mp hn, true_and]

theorem Follows.get_iff (h : Follows T s) (ha : storage.Answers T) (hht : ∀ ts, T.mem ts → 0 ≤ ts.height)
    (height : Int) (tsk : TipSetKey) (prev : Bool) :
    ∃ r, (∀ fuel : Nat, s.tsc.ring.cap < fuel → s.tsc.get storage fuel height tsk prev = some r) ∧
      (Like r (storage.fallback prev height (s.chainKey tsk)) ↔ Answerable T s height tsk prev) := by
  unfold TipSetCache.get
  by_cases hlen : s.tsc.len = 0
  · rw [chainKey, if_neg (fun hc => hc.1 hlen)]
    exact ⟨_, fun fuel _ => if_pos hlen, iff_of_true (like_map_some _) fun x hlo => absurd hlen hlo.1⟩
  simp only [if_neg hlen]
  by_cases hempty : tsk = []
  · subst hempty
    obtain ⟨r, hrun, hif⟩ := h.getFrom_iff ha hht (Nat.pos_of_ne_zero hlen) (.refl s.head) height prev
    refine ⟨r, fun fuel hfu => ?_, ?_⟩
    · rw [if_pos rfl, h.window.slot_start, h.back_zero (Nat.pos_of_ne_zero hlen), bind_some]
      exact hrun fuel hfu
    rw [chainKey, if_pos ⟨hlen, rfl⟩, hif]
    constructor
    · rintro hall x ⟨-, ⟨-, rfl⟩ | ⟨hne, -⟩, hlow, hh⟩
      · exact hall hlow hh
      · exact absurd rfl hne
    · exact fun hall hlow hh => hall s.head ⟨hlen, .inl ⟨rfl, rfl⟩, hlow, hh⟩
  simp only [if_neg hempty]
  rw [chainKey, if_neg (fun hc => hempty hc.2)]
  rcases hx : s.tsc.byKey.lookup tsk with _ | x
  · refine ⟨_, fun fuel _ => rfl, iff_of_true (like_map_some _) ?_⟩
    rintro x ⟨-, ⟨rfl, -⟩ | ⟨-, hso⟩, -⟩
    · exact absurd rfl hempty
    · rw [hx] at hso
      cases hso
  obtain ⟨hk, d, hlow, hh, hb⟩ := h.window.keyed tsk x hx
  have hanc := ((h.window.held d x hlow hh).mp hb).1
  obtain ⟨r, hrun, hif⟩ := h.getFrom_iff ha hht (Nat.pos_of_ne_zero hlen) hanc height prev
  refine ⟨r, hrun, ?_⟩
  rw [← hk, hif]
  constructor
  · rintro hall y ⟨-, ⟨hn, -⟩ | ⟨-, hso⟩, hlow, hh⟩
    · exact absurd (hk.symm.trans hn) hempty
    rw [hk, hx] at hso
    cases hso
    exact hall hlow hh
  · exact fun hall hlow hh => hall x ⟨hlen, .inr ⟨hk ▸ hempty, hk ▸ hx⟩, hlow, hh⟩

theorem run_cap_zero {head fromTs toTs : TipSet} {notices : List Notice} (ha : .apply fromTs toTs ∈ notices) :
    run Cached.step ⟨new 0, head⟩ notices = none := by
  induction notices generalizing head with
  | nil => cases ha
  | cons notice notices ih =>
    cases notice with
    | apply a b => rfl
    | revert a b =>
      have hrest : .apply fromTs toTs ∈ notices := by simpa using ha
      exact ih hrest

/-- **The cache along a path.** Every query ends, with a result like that of storage where `Answerable` says. -/
theorem tipSetCache_answers_iff (T : TipSetTree) (storage : TsCacheAPI) (hanswers : storage.Answers T)
    (hheights : ∀ ts, T.mem ts → 0 ≤ ts.height) (hkeys : ∀ ts p, T.mem ts → T.parent ts = some p → ts.parents = p.key)
    (cap : Nat) (head : TipSet) (hhead : T.mem head) (notices : List Notice)
    (hlegal : Legal Cached.step (Path T) ⟨new cap, head⟩ notices) :
    (0 < cap → ∃ s, run Cached.step ⟨new cap, head⟩ notices = some s ∧
      ∀ height tsk prev, ∃ r, (∀ fuel, cap < fuel → s.tsc.get storage fuel height tsk prev = some r) ∧
        (Like r (storage.fallback prev height (s.chainKey tsk)) ↔ Answerable T s height tsk prev)) ∧
    (cap = 0 → ∀ fromTs toTs, .apply fromTs toTs ∈ notices → run Cached.step ⟨new cap, head⟩ notices = none) := by
  constructor
  · intro hcap
    obtain ⟨s, hrun, hfo, hce⟩ := run_follows hcap hhead hkeys hlegal
    refine ⟨s, hrun, fun height tsk prev => ?_⟩
    obtain ⟨r, hr, hif⟩ := hfo.get_iff hanswers hheights height tsk prev
    exact ⟨r, fun fuel hfu => hr fuel (by omega), hif⟩
  · rintro rfl fromTs toTs ha
    exact run_cap_zero ha

end Cached

/-! ## The chain module as storage -/

/-- `ChainGetTipSetByHeight` and `ChainGetTipSetAfterHeight`. A search that has not ended is no tipset. -/
def chainModule (lts : TipSetKey → Except GoError TipSet) (heaviest : TipSet) (ci : ChainIndex)
    (evict : Nat → List TipSetKey) (fuel : Nat) : TsCacheAPI where
  chainGetTipSetAfterHeight h tsk := lookup h tsk false
  chainGetTipSetByHeight h tsk := lookup h tsk true
where
  getTipSetFromKey (tsk : TipSetKey) : Except GoError TipSet := if tsk = [] then .ok heaviest else lts tsk
  /-- The body that the two methods share. -/
  lookup (h : Int) (tsk : TipSetKey) (prev : Bool) : Except GoError TipSet :=
    match getTipSetFromKey tsk with
    | .error e => .error (.wrap "loading tipset" e)
    | .ok ts =>
      ((ChainStore.getTipsetByHeight lts evict fuel ci h ts prev).2).getD (.error (.errorf "not ended"))

theorem chainModule_answers {T : TipSetTree} {genesis : TipSet} (hro : T.RootedAt genesis) (hz : genesis.height = 0)
    (hht : ∀ ts, T.mem ts → 0 ≤ ts.height) {lts : TipSetKey → Except GoError TipSet} (hst : Stores lts T)
    (hrd : ReadsTree lts T) (heaviest : TipSet) {ci : ChainIndex} (hu : ci.Used T) (evict : Nat → List TipSetKey)
    {fuel : Nat} (hfu : ∀ ts, T.mem ts → ts.height < fuel) : (chainModule lts heaviest ci evict fuel).Answers T := by
  have hlo : ∀ x height prev, T.mem x → chainModule.lookup lts heaviest ci evict fuel height x.key prev =
      ((ChainStore.getTipsetByHeight lts evict fuel ci height x prev).2).getD (.error (.errorf "not ended")) := by
    intro x height prev hx
    have hne : x.key ≠ [] := by simpa [TipSet.key, TipSet.cids] using x.ne
    rw [chainModule.lookup, chainModule.getTipSetFromKey, if_neg hne, hst.load x hx]
  refine ⟨fun x height hx hlow hh => ⟨?_, ?_⟩, fun x height prev hx ho => ?_⟩
  · obtain ⟨ts, hts, hrun⟩ :=
      getTipsetByHeight_selects hro hz hu hst hx hlow hh (hfu x hx) evict true
    exact ⟨ts, by simp only [chainModule, hlo x height true hx, hrun, getD_some], hts⟩
  · obtain ⟨ts, hts, hrun⟩ :=
      getTipsetByHeight_selects hro hz hu hst hx hlow hh (hfu x hx) evict false
    exact ⟨ts, by simp only [chainModule, hlo x height false hx, hrun, getD_some], hts⟩
  have hn : ∀ r, (ChainStore.getTipsetByHeight lts evict fuel ci height x prev).2 ≠ some (.ok r) := by
    rcases ho with hneg | hgt
    · exact getTipsetByHeight_negative hht hrd hneg hu hx evict fuel prev
    · simp [ChainStore.getTipsetByHeight, hgt]
  have hfa : (chainModule lts heaviest ci evict fuel).fallback prev height x.key =
      chainModule.lookup lts heaviest ci evict fuel height x.key prev := by
    cases prev <;> rfl
  rw [hfa, hlo x height prev hx]
  generalize (ChainStore.getTipsetByHeight lts evict fuel ci height x prev).2 = o at hn ⊢
  rcases o with _ | e | r
  · exact ⟨_, rfl⟩
  · exact ⟨e, rfl⟩
  · exact absurd rfl (hn r)

def forkStorage : TsCacheAPI := chainModule (listLoad forkTips) forkRight .new (fun _ => []) 9

theorem forkTree_heights : ∀ ts, forkTree.mem ts → 0 ≤ ts.height := by
  show ∀ ts ∈ forkTips, 0 ≤ ts.height
  decide

theorem forkTree_parents (ts p : TipSet) (_ : forkTree.mem ts) (hp : forkTree.parent ts = some p) : ts.parents = p.key :=
  (listParent_some hp).2.1.symm

theorem forkStorage_answers : forkStorage.Answers forkTree := by
  refine chainModule_answers forkTree_rooted (by decide) forkTree_heights ⟨?_, forkTree_parents⟩
    ⟨fun _ _ h => listLoad_ok h, forkTree_loads⟩ forkRight .new _ ?_
  · show ∀ ts ∈ forkTips, listLoad forkTips ts.key = .ok ts
    decide
  · show ∀ ts ∈ forkTips, ts.height < 9
    decide

namespace Cached

theorem right_legal : Legal Cached.step (Path forkTree) ⟨new 3, forkRoot⟩ [.apply forkRoot forkRight] :=
  ⟨⟨rfl, forkTree_mem (by decide), by decide⟩, fun _ _ => trivial⟩

/-- The head of height 1 is all the cache has. For height 0 it answers with it; after height 0 with nil. -/
theorem tipSetCache_misses_genesis :
    Legal Cached.step (Path forkTree) ⟨new 3, forkRoot⟩ [.apply forkRoot forkRight] ∧
      ∃ s, run Cached.step ⟨new 3, forkRoot⟩ [.apply forkRoot forkRight] = some s ∧
        s.tsc.chainGetTipSetByHeight forkStorage 9 0 [] = some (.ok (some forkRight)) ∧
        s.tsc.chainGetTipSetAfterHeight forkStorage 9 0 [] = some (.ok none) ∧
        forkStorage.chainGetTipSetByHeight 0 forkRight.key = .ok forkRoot ∧
        forkStorage.chainGetTipSetAfterHeight 0 forkRight.key = .ok forkRoot := by
  refine ⟨right_legal, _, rfl, ?_, ?_, ?_, ?_⟩ <;> decide

theorem left_legal : Legal Cached.step (Path forkTree) ⟨new 3, forkRoot⟩
    [.apply forkRoot forkLeft1, .apply forkLeft1 forkLeft2] := by
  refine ⟨⟨rfl, forkTree_mem (by decide), by decide⟩, fun s hs => ?_⟩
  cases hs
  exact ⟨⟨rfl, forkTree_mem (by decide), by decide⟩, fun _ _ => trivial⟩

theorem tipSetCache_answers_left :
    ∃ s r, run Cached.step ⟨new 3, forkRoot⟩ [.apply forkRoot forkLeft1, .apply forkLeft1 forkLeft2] =
        some s ∧ (∀ fuel, 3 < fuel → s.tsc.get forkStorage fuel 2 [] true = some r) ∧
      Like r (forkStorage.fallback true 2 forkLeft2.key) := by
  obtain ⟨s, hrun, ha⟩ := (tipSetCache_answers_iff forkTree forkStorage forkStorage_answers forkTree_heights
    forkTree_parents 3 forkRoot (forkTree_mem (by decide))
    [.apply forkRoot forkLeft1, .apply forkLeft1 forkLeft2] left_legal).1 (by decide)
  obtain ⟨r, hg, hif⟩ := ha 2 [] true
  cases hrun
  refine ⟨_, r, rfl, hg, hif.mpr ?_⟩
  rintro x ⟨-, ⟨-, rfl⟩ | ⟨hne, -⟩, -⟩
  · refine ⟨by decide, ⟨forkLeft1, .of_parent (by decide), by decide, by decide⟩, fun y _ hb => ?_⟩
    exact absurd (hb.1.trans_le hb.2) (by decide)
  · exact absurd rfl hne

end Cached
end Lotus.Events

/-
# Programs that leave a trace.

A program can look at the history of events, append to it, return or fail. `Logs m Q E` says what `m` appends, whatever came
before: events in `Q a` if it returns `a`, in `E` if it fails.
-/
import Lotus.Lib.Effect
import Mathlib.Tactic.Common

namespace Lotus.Lib.Trace
open Effect List
variable {ω ε α β : Type}

def ask (f : List ω → Except ε α) : Eff (List ω) ε α := fun h =>
  match f h with
  | .ok a => (h, .val a)
  | .error e => (h, .fail e)

def emit (w : ω) : Eff (List ω) ε Unit := fun h => (h ++ [w], .val ())

def mapFail (g : ε → ε) (m : Eff (List ω) ε α) : Eff (List ω) ε α := fun h =>
  match m h with
  | (h, .val a) => (h, .val a)
  | (h, .fail e) => (h, .fail (g e))
  | (h, .diverge) => (h, .diverge)

/-- What `m` appends to any history. -/
def Logs (m : Eff (List ω) ε α) (Q : α → List ω → Prop) (E : List ω → Prop) : Prop :=
  ∀ h, (∃ a ev, m h = (h ++ ev, .val a) ∧ Q a ev) ∨ (∃ e ev, m h = (h ++ ev, .fail e) ∧ E ev)

variable {Q : α → List ω → Prop} {Q' : β → List ω → Prop} {E E' : List ω → Prop}

theorem Logs.pure {a : α} (h : Q a []) : Logs (Pure.pure a : Eff (List ω) ε α) Q E :=
  fun his => .inl ⟨a, [], by simp [Pure.pure], h⟩

theorem Logs.fail {e : ε} (h : E []) : Logs (Eff.fail e : Eff (List ω) ε α) Q E :=
  fun his => .inr ⟨e, [], by simp [Eff.fail], h⟩

theorem Logs.ask {f : List ω → Except ε α} (hQ : ∀ a, Q a []) (hE : E []) : Logs (Trace.ask f) Q E := by
  intro his
  rcases hf : f his with e | a
  · exact .inr ⟨e, [], by simp [Trace.ask, hf], hE⟩
  · exact .inl ⟨a, [], by simp [Trace.ask, hf], hQ a⟩

theorem Logs.emit {w : ω} {Q : Unit → List ω → Prop} (h : Q () [w]) : Logs (Trace.emit w : Eff (List ω) ε Unit) Q E :=
  fun _ => .inl ⟨(), [w], rfl, h⟩

variable {m : Eff (List ω) ε α}

theorem Logs.mapFail {g : ε → ε} (hm : Logs m Q E) : Logs (Trace.mapFail g m) Q E := by
  intro his
  obtain ⟨a, ev, hrun, hq⟩ | ⟨e, ev, hrun, he⟩ := hm his
  · exact .inl ⟨a, ev, by simp [Trace.mapFail, hrun], hq⟩
  · exact .inr ⟨g e, ev, by simp [Trace.mapFail, hrun], he⟩

variable {f : α → Eff (List ω) ε β}

theorem Logs.bind (hm : Logs m Q E) (hf : ∀ a ev, Q a ev → Logs (f a) (fun b ev' => Q' b (ev ++ ev')) fun ev' => E' (ev ++ ev'))
    (hE : ∀ ev, E ev → E' ev) : Logs (m >>= f) Q' E' := by
  intro his
  rw [Eff.bind_apply]
  obtain ⟨a, ev, hrun, hq⟩ | ⟨e, ev, hrun, he⟩ := hm his
  · simp only [hrun]
    obtain ⟨b, ev', hrun', hq'⟩ | ⟨e, ev', hrun', he'⟩ := hf a ev hq (his ++ ev)
    · exact .inl ⟨b, ev ++ ev', by rw [hrun', append_assoc], hq'⟩
    · exact .inr ⟨e, ev ++ ev', by rw [hrun', append_assoc], he'⟩
  · simp only [hrun]
    exact .inr ⟨e, ev, rfl, hE ev he⟩

theorem Logs.mono {P : α → List ω → Prop} (hm : Logs m Q E) (hQ : ∀ a ev, Q a ev → P a ev) (hE : ∀ ev, E ev → E' ev) :
    Logs m P E' := by
  intro his
  obtain ⟨a, ev, hrun, hq⟩ | ⟨e, ev, hrun, he⟩ := hm his
  · exact .inl ⟨a, ev, hrun, hQ a ev hq⟩
  · exact .inr ⟨e, ev, hrun, hE ev he⟩

/-! ## Silent programs -/

/-- `m` appends nothing. -/
def Silent (m : Eff (List ω) ε α) : Prop := Logs m (fun _ ev => ev = []) fun ev => ev = []

theorem Silent.pure (a : α) : Silent (Pure.pure a : Eff (List ω) ε α) := Logs.pure rfl

theorem Silent.ask (f : List ω → Except ε α) : Silent (Trace.ask f) := Logs.ask (fun _ => rfl) rfl

theorem Silent.mapFail (hm : Silent m) (g : ε → ε) : Silent (Trace.mapFail g m) :=
  Logs.mapFail hm

theorem Silent.logs_bind (hm : Silent m) (hf : ∀ a, Logs (f a) Q' E') (hE : E' []) : Logs (m >>= f) Q' E' := by
  apply Logs.bind hm
  · rintro a ev rfl
    exact hf a
  · rintro ev rfl
    exact hE

theorem Silent.bind (hm : Silent m) (hf : ∀ a, Silent (f a)) : Silent (m >>= f) :=
  hm.logs_bind hf rfl

theorem Logs.bind_silent (hm : Logs m (fun _ => E) E) (hf : ∀ a, Silent (f a)) : Logs (m >>= f) (fun _ => E) E := by
  apply hm.bind
  · intro a ev hev
    refine (hf a).mono ?_ ?_
    · rintro b ev' rfl
      simpa using hev
    · rintro ev' rfl
      simpa using hev
  · exact fun _ h => h

/-- Each event finds what it needs before it. -/
def Guarded (need : ω → List ω → Prop) (ev : List ω) : Prop :=
  ∀ pre w post, ev = pre ++ w :: post → need w pre

variable {need : ω → List ω → Prop}

theorem guarded_append {ev ev' : List ω} (h : ∀ w ∈ ev, ∀ pre, need w pre)
    (h' : ∀ w ∈ ev', ∀ pre, ev <+: pre → need w pre) : Guarded need (ev ++ ev') := by
  intro pre w post heq
  rcases append_eq_append_iff.mp heq with ⟨as, rfl, hev'⟩ | ⟨cs, rfl, hcs⟩
  · exact h' w (by simp [hev']) _ (prefix_append ev as)
  rcases cs with _ | ⟨c, cs⟩
  · have hw : w ∈ ev' := by
      rw [nil_append] at hcs
      simp [← hcs]
    exact h' w hw _ (by simp)
  · obtain ⟨rfl, -⟩ := cons.inj hcs
    exact h w (by simp) pre

end Lotus.Lib.Trace

/-
# Programs that call an interface.

A program returns, fails, or makes a call and goes on with its answer, which `run` takes from an oracle: a statement about
every behaviour of the interface is one about every oracle. `Always ok hyp Q E p` says that `p` makes only calls that are
`ok`, returns in `Q` and fails in `E`, if the answers meet `hyp`.
-/
import Mathlib.Tactic.Common

namespace Lotus.Lib

inductive Prog (C : Type → Type) (ε α : Type) : Type 1 where
  | ret (a : α)
  | fail (e : ε)
  | call {β : Type} (c : C β) (k : β → Prog C ε α)

structure Answered (C : Type → Type) : Type 1 where
  {type : Type}
  call : C type
  answer : type

namespace Prog
variable {C : Type → Type} {ε α β : Type}

def bind : Prog C ε α → (α → Prog C ε β) → Prog C ε β
  | .ret a, f => f a
  | .fail e, _ => .fail e
  | .call c k, f => .call c fun r => (k r).bind f

instance instMonad : Monad (Prog C ε) where
  pure := .ret
  bind := .bind

@[simp] theorem ret_bind (a : α) (f : α → Prog C ε β) : (pure a >>= f : Prog C ε β) = f a := rfl

theorem bind_bind {γ : Type} (p : Prog C ε α) (f : α → Prog C ε β) (g : β → Prog C ε γ) :
    (p >>= f) >>= g = p >>= fun a => f a >>= g := by
  induction p with
  | ret a => rfl
  | fail e => rfl
  | call c k ih => exact congrArg (Prog.call c) (funext ih)

def ask (c : C α) : Prog C ε α := .call c .ret

/-! ## Runs -/

abbrev Oracle (C : Type → Type) := Nat → ∀ {β : Type}, C β → β

/-- The calls with their answers, and the result; the oracle gives the `n`-th answer. -/
def run (f : Oracle C) : Nat → Prog C ε α → List (Answered C) × Except ε α
  | _, .ret a => ([], .ok a)
  | _, .fail e => ([], .error e)
  | n, .call c k =>
    let res := run f (n + 1) (k (f n c))
    (⟨c, f n c⟩ :: res.1, res.2)

variable {f : Oracle C} {n : Nat}

@[simp] theorem run_pure (a : α) : (pure a : Prog C ε α).run f n = ([], .ok a) := rfl

@[simp] theorem run_fail (e : ε) : (Prog.fail e : Prog C ε α).run f n = ([], .error e) := rfl

@[simp] theorem run_ask_bind (c : C α) (k : α → Prog C ε β) :
    (ask c >>= k).run f n = (⟨c, f n c⟩ :: ((k (f n c)).run f (n + 1)).1, ((k (f n c)).run f (n + 1)).2) := rfl

variable {p : Prog C ε α}

theorem run_bind_error {k : α → Prog C ε β} {e : ε} (h : (p.run f n).2 = .error e) :
    (p >>= k).run f n = ((p.run f n).1, .error e) := by
  induction p generalizing n with
  | ret a => cases h
  | fail e' =>
    obtain rfl := Except.error.inj h
    rfl
  | call c p ih =>
    have hrest : (p (f n c) >>= k).run f (n + 1) = _ := ih (f n c) h
    show (⟨c, f n c⟩ :: ((p (f n c) >>= k).run f (n + 1)).1, ((p (f n c) >>= k).run f (n + 1)).2) = _
    rw [hrest]
    rfl

theorem run_bind_ok {k : α → Prog C ε β} {a : α} (h : (p.run f n).2 = .ok a) :
    (p >>= k).run f n = ((p.run f n).1 ++ ((k a).run f (n + (p.run f n).1.length)).1,
      ((k a).run f (n + (p.run f n).1.length)).2) := by
  induction p generalizing n with
  | ret a' =>
    cases h
    rfl
  | fail e => cases h
  | call c p ih =>
    have hrest : (p (f n c) >>= k).run f (n + 1) = _ := ih (f n c) h
    have hlen : n + 1 + ((p (f n c)).run f (n + 1)).1.length = n + ((Prog.call c p).run f n).1.length := by
      simp only [run, List.length_cons]
      omega
    show (⟨c, f n c⟩ :: ((p (f n c) >>= k).run f (n + 1)).1, ((p (f n c) >>= k).run f (n + 1)).2) = _
    rw [hrest, hlen]
    rfl

/-! ## What every run does -/

/-- The calls are `ok` and the result is in `Q` or `E`, if the answers meet `hyp`. -/
def Always (ok : ∀ {β}, C β → Prop) (hyp : ∀ {β}, C β → β → Prop) (Q : α → Prop) (E : ε → Prop) : Prog C ε α → Prop
  | .ret a => Q a
  | .fail e => E e
  | .call c k => ok c ∧ ∀ r, hyp c r → (k r).Always ok hyp Q E

variable {ok : ∀ {β}, C β → Prop} {hyp : ∀ {β}, C β → β → Prop} {Q : α → Prop} {E : ε → Prop}

@[simp] theorem always_pure (a : α) : (pure a : Prog C ε α).Always ok hyp Q E ↔ Q a := Iff.rfl

@[simp] theorem always_fail (e : ε) : (Prog.fail e : Prog C ε α).Always ok hyp Q E ↔ E e := Iff.rfl

@[simp] theorem always_ask (c : C α) : (ask c : Prog C ε α).Always ok hyp Q E ↔ ok c ∧ ∀ r, hyp c r → Q r := Iff.rfl

@[simp] theorem always_bind (p : Prog C ε α) (f : α → Prog C ε β) {Q : β → Prop} :
    (p >>= f).Always ok hyp Q E ↔ p.Always ok hyp (fun a => (f a).Always ok hyp Q E) E := by
  induction p with
  | ret a | fail e => exact Iff.rfl
  | call c k ih =>
    show (ok c ∧ ∀ r, hyp c r → (k r >>= f).Always ok hyp Q E) ↔ _
    refine and_congr_right fun _ => forall_congr' fun r => imp_congr_right fun _ => ?_
    exact ih r

@[simp] theorem always_ite (c : Prop) [Decidable c] (p q : Prog C ε α) :
    (if c then p else q).Always ok hyp Q E ↔ (c → p.Always ok hyp Q E) ∧ (¬ c → q.Always ok hyp Q E) := by
  by_cases hc : c <;> simp [hc]

@[simp] theorem forall_except {p : Except ε α → Prop} : (∀ r, p r) ↔ (∀ e, p (.error e)) ∧ ∀ a, p (.ok a) := by
  refine ⟨fun h => ⟨fun e => h _, fun a => h _⟩, fun h r => ?_⟩
  cases r with
  | error e => exact h.1 e
  | ok a => exact h.2 a

theorem Always.mono {ok' : ∀ {β}, C β → Prop} {Q' : α → Prop} {E' : ε → Prop}
    (h : p.Always ok hyp Q E) (hok : ∀ {β} (c : C β), ok c → ok' c) (hQ : ∀ a, Q a → Q' a) (hE : ∀ e, E e → E' e) :
    p.Always ok' hyp Q' E' := by
  induction p with
  | ret a => exact hQ a h
  | fail e => exact hE e h
  | call c k ih => exact ⟨hok c h.1, fun r hr => ih r (h.2 r hr)⟩

theorem always_run (h : p.Always ok hyp Q E) (f : Oracle C) (n : Nat)
    (hh : ∀ x ∈ (p.run f n).1, hyp x.call x.answer) :
    (∀ x ∈ (p.run f n).1, ok x.call) ∧ (∀ a, (p.run f n).2 = .ok a → Q a) ∧ ∀ e, (p.run f n).2 = .error e → E e := by
  induction p generalizing n with
  | ret a =>
    refine ⟨fun _ hx => (by cases hx), fun b hb => ?_, fun _ hba => (by cases hba)⟩
    cases hb
    exact h
  | fail e =>
    refine ⟨fun _ hx => (by cases hx), fun _ hba => (by cases hba), fun e' he => ?_⟩
    obtain rfl := Except.error.inj he
    exact h
  | call c k ih =>
    have hfirst : hyp c (f n c) := hh ⟨c, f n c⟩ List.mem_cons_self
    have hrest := ih (f n c) (h.2 _ hfirst) (n + 1) fun x hx => hh x (List.mem_cons_of_mem _ hx)
    refine ⟨fun x hx => ?_, hrest.2⟩
    rcases List.mem_cons.mp hx with rfl | hx
    · exact h.1
    · exact hrest.1 x hx

end Prog
end Lotus.Lib

import Mathlib.Tactic.Common

/-!
# Programs that ask their environment

A program that does nothing on its own but ask: it asks for an effect `e : E`, is
given an answer of type `A e`, and goes on with it, or it returns. Every effect of
such a program is in its text, so it can be said of a program that *all it ever
asks for*, whatever it is answered, satisfies a predicate (`Effects.Prog.Asks`) –
and this is a property of the text, proved along it, with no state in sight.

How an effect acts on a state is no part of this: the same program can be run to its
end by one interpreter, or one effect at a time and interleaved with others.
-/

namespace Effects

universe u v

variable {E : Type u} {A : E → Type v} {α β : Type v}

/-- A program that asks for effects `E`, an effect `e` being answered in `A e`, and
returns an `α`. -/
inductive Prog (E : Type u) (A : E → Type v) (α : Type v)
  /-- Return. -/
  | ret (a : α)
  /-- Ask for an effect, and go on with the answer. -/
  | ask (e : E) (k : A e → Prog E A α)

namespace Prog

/-- One program after the other. -/
def bind : Prog E A α → (α → Prog E A β) → Prog E A β
  | .ret a, f => f a
  | .ask e k, f => .ask e fun a => (k a).bind f

instance : Monad (Prog E A) where
  pure := .ret
  bind := .bind

/-- The program that asks for one effect and returns the answer. -/
def perform (e : E) : Prog E A (A e) := .ask e .ret

/-! ### All that a program asks for -/

/-- **Whatever it is answered, the program asks only for effects that satisfy `P`.** -/
def Asks (P : E → Prop) : Prog E A α → Prop
  | .ret _ => True
  | .ask e k => P e ∧ ∀ a, (k a).Asks P

variable {P : E → Prop}

@[simp]
theorem asks_pure (a : α) : Asks P (pure a : Prog E A α) := trivial

theorem Asks.bind {x : Prog E A α} {f : α → Prog E A β} (hx : x.Asks P)
    (hf : ∀ a, (f a).Asks P) : (x >>= f).Asks P := by
  induction x with
  | ret a => exact hf a
  | ask e k ih => exact ⟨hx.1, fun a => ih a (hx.2 a)⟩

theorem asks_perform {e : E} (h : P e) : (perform e : Prog E A (A e)).Asks P :=
  ⟨h, fun _ => trivial⟩

theorem asks_ite {c : Prop} [Decidable c] {x y : Prog E A α} (hx : x.Asks P) (hy : y.Asks P) :
    (if c then x else y).Asks P := by
  split
  · exact hx
  · exact hy

end Prog

end Effects

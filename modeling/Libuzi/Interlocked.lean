import Libuzi.Counters

/-!
# The interlocked operations

What one call of `libuzi/interlocked.c` does to the word it is given. Each is one
`__sync` builtin, hence one atomic step: the pair is the word afterwards and the
value the call returns.

A `LONG` has 32 bits, and the two builtins that count go round. What is kept of a
result is a parameter of theirs: `long` for the `LONG` of the source, `id` where the
numbers are taken to be unbounded, or are known to stay within a `LONG`.
-/

namespace Libuzi

/-- What a `LONG` keeps of a number. -/
def long : ℤ → ℤ := Counters.signed 32

theorem counter_long : Counters.Counter long := Counters.counter_signed 30

theorem long_eq_self_iff {x : ℤ} : long x = x ↔ -2 ^ 31 ≤ x ∧ x < 2 ^ 31 :=
  Counters.signed_eq_self_iff

/-- `InterlockedIncrement`: add one, return the new value. -/
def interlockedIncrement (keep : ℤ → ℤ) (addend : ℤ) : ℤ × ℤ :=
  (keep (addend + 1), keep (addend + 1))

/-- `InterlockedDecrement`: subtract one, return the new value. -/
def interlockedDecrement (keep : ℤ → ℤ) (addend : ℤ) : ℤ × ℤ :=
  (keep (addend - 1), keep (addend - 1))

/-- `InterlockedCompareExchange` and `InterlockedCompareExchangePointer`: store
`exchange` if the word is `comperand`, return the old value either way. -/
def interlockedCompareExchange {α : Type*} [DecidableEq α] (destination exchange comperand : α) :
    α × α :=
  (if destination = comperand then exchange else destination, destination)

end Libuzi

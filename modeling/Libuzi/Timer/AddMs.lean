import Libuzi.Handle.MutexWait
import Mathlib.Data.UInt

/-!
# The two ways to add milliseconds

`libuzi/timer.c` and `libuzi/wait.c` each have a function that adds milliseconds to a
`struct timespec`.

| | `timespec_add_ms` | `ts_add_ms` |
|---|---|---|
| whole seconds | carried out of the nanoseconds | divided off the milliseconds first |
| the product by a million | of a 32-bit number, in 32 bits | of a remainder below `1000`, in 64 bits |
| exact | up to `4294` ms (`Timer.toNs_timespecAddMs`) | always (`MutexWait.toNs_tsAddMs`) |

Both results are normalised, as every `Timespec` is. Where one function is exact and the other
is not, they differ, and a time is the same as another one when it is as many nanoseconds
(`Timer.Timespec.toNs_injective`); so they agree up to `4294` ms, and on no longer time
(`AddMs.addsExactly_iff`).
-/

namespace Libuzi

namespace Timer

/-- A normalised time is determined by how many nanoseconds it is. -/
theorem Timespec.toNs_injective : Function.Injective Timespec.toNs := by
  intro a b h
  have ha := a.tvNsec_lt
  have hb := b.tvNsec_lt
  simp only [Timespec.toNs] at h
  ext
  · omega
  · omega

end Timer

namespace AddMs

open Timer MutexWait

variable (ts : Timespec) (ms : UInt32)

/-- **Both functions add the milliseconds exactly**, and so they agree. -/
structure AddsExactly : Prop where
  timer : (timespecAddMs ts ms).toNs = ts.toNs + ms.toNat * 1000000
  wait : (tsAddMs ts ms.toNat).toNs = ts.toNs + ms.toNat * 1000000
  agree : timespecAddMs ts ms = tsAddMs ts ms.toNat

/-- The 32-bit product is the product up to `4294` ms, and no further. -/
theorem toNat_mul_million_iff :
    (ms * 1000000).toNat = ms.toNat * 1000000 ↔ ms.toNat ≤ 4294 := by
  have hmul : (ms * 1000000).toNat = ms.toNat * 1000000 % 2 ^ 32 := UInt32.toNat_mul ms 1000000
  rw [hmul]
  constructor
  · intro h
    have hlt : ms.toNat * 1000000 % 2 ^ 32 < 2 ^ 32 := Nat.mod_lt _ (Nat.two_pow_pos 32)
    omega
  · intro h
    exact Nat.mod_eq_of_lt (by omega)

/-- **The two functions are exact, and agree, up to `4294` ms and on no longer time.** -/
theorem addsExactly_iff : AddsExactly ts ms ↔ ms.toNat ≤ 4294 := by
  rw [← toNat_mul_million_iff]
  constructor
  · intro h
    have htimer := h.timer
    rw [toNs_timespecAddMs_eq] at htimer
    omega
  · intro h
    have htimer : (timespecAddMs ts ms).toNs = ts.toNs + ms.toNat * 1000000 := by
      rw [toNs_timespecAddMs_eq, h, Nat.cast_mul]
      rfl
    have hwait : (tsAddMs ts ms.toNat).toNs = ts.toNs + ms.toNat * 1000000 :=
      toNs_tsAddMs ts ms.toNat
    exact ⟨htimer, hwait, Timespec.toNs_injective (htimer.trans hwait.symm)⟩

/-- Five seconds are not added exactly by both. -/
theorem not_addsExactly_five_seconds : ¬ AddsExactly ⟨0, 0, zero_lt_nsecPerSec⟩ 5000 := by
  intro h
  have hsec : (timespecAddMs ⟨0, 0, zero_lt_nsecPerSec⟩ 5000).toNs = 705032704 := by decide
  have hexact := h.timer
  rw [hsec] at hexact
  exact absurd hexact (by decide)

end AddMs

end Libuzi

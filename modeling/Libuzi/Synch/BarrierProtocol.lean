import Libuzi.Synch.Barrier

/-!
# The protocol of a synchronization barrier

What a place in the code means for a phase of the barrier (`Barrier.Stage`), and
what one step does to it (`Barrier.Protocol`). Spinning and blocking are one stage:
a thread that has counted itself in holds on to the event that was current when
it came, and leaves when `Reserved3[0]` is another event or when its own is
signalled. Which of the two it looks at depends on its flags, on the number of
processors and on the spin count, and none of that matters any more.

`Barrier.protocol_of_next` says that every step of the code is a step of the
protocol.
-/

namespace Libuzi

open Runs Threads

namespace Barrier

/-- What a place in the code means for a phase. -/
inductive Stage
  /-- Outside the barrier, or about to look at it. -/
  | out
  /-- Has copied the current event. -/
  | copied (hc : ℕ)
  /-- Has copied both events; about to count itself in. -/
  | ready (hc hd : ℕ)
  /-- Counted in, and not the last: spins or blocks. -/
  | waiting (hc : ℕ)
  /-- The last; about to reset the dormant event. -/
  | resetting (hc hd : ℕ)
  /-- The last; about to load the number of threads. -/
  | loading (hc hd : ℕ)
  /-- The last; about to reset the counter to `v`. -/
  | restoring (hc hd : ℕ) (v : ℤ)
  /-- The last; about to park the current event. -/
  | parking (hc hd : ℕ)
  /-- The last; about to switch to the dormant event. -/
  | switching (hc hd : ℕ)
  /-- The last; about to signal the event that was current. -/
  | signalling (hc : ℕ)
  /-- Past the loop of the deletion. -/
  | gone
  /-- The assertion has failed. -/
  | aborted
  deriving DecidableEq

/-- A thread as the protocol sees it. -/
structure View where
  /-- What its place means for the phase. -/
  stage : Stage
  /-- What its calls have returned. -/
  results : List Bool
  deriving DecidableEq

/-- The stage of a place in `winpr_EnterSynchronizationBarrier`. -/
def EnterPc.stage : EnterPc → Stage
  | .loadCurrent _ => .out
  | .loadDormant _ hc => .copied hc
  | .decrement _ hc hd => .ready hc hd
  | .loadProcessors _ hc _ | .loadSpinCount _ hc | .spin _ hc _ _ | .wait hc => .waiting hc
  | .resetDormant hc hd => .resetting hc hd
  | .loadTotal hc hd => .loading hc hd
  | .storeRemaining hc hd v => .restoring hc hd v
  | .storeDormant hc hd => .parking hc hd
  | .storeCurrent hc hd => .switching hc hd
  | .setEvent hc => .signalling hc
  | .aborted => .aborted

/-- The stage of a place in `winpr_DeleteSynchronizationBarrier`. -/
def DeletePc.stage : DeletePc → Stage
  | .loadRemaining | .loadTotal _ => .out
  | _ => .gone

/-- The stage of a place. -/
def Pc.stage : Pc → Stage
  | .idle => .out
  | .entering p => p.stage
  | .deleting p => p.stage
  | .done => .gone

/-- A thread's private state as the protocol sees it. -/
def Local.view (l : Local) : View := { stage := l.pc.stage, results := l.results }

/-- **The protocol**: what one step does to the memory and to the thread's own
stage and results. -/
inductive Protocol (s : Shared) (r : List Bool) : Stage → Shared → View → Prop
  /-- A step that means nothing for the phase. -/
  | stayOut : Protocol s r .out s ⟨.out, r⟩
  /-- Another look at the barrier while waiting. -/
  | stayWaiting (hc : ℕ) : Protocol s r (.waiting hc) s ⟨.waiting hc, r⟩
  /-- Copy the current event. -/
  | copy : Protocol s r .out s ⟨.copied s.current, r⟩
  /-- Copy the dormant event. -/
  | copyDormant (hc : ℕ) : Protocol s r (.copied hc) s ⟨.ready hc s.dormant, r⟩
  /-- Count in, and find threads missing. -/
  | arrive (hc hd : ℕ) (h : 0 < s.reserved1 - 1) :
      Protocol s r (.ready hc hd) { s with reserved1 := s.reserved1 - 1 } ⟨.waiting hc, r⟩
  /-- Count in as the last. -/
  | arriveLast (hc hd : ℕ) (h : s.reserved1 - 1 = 0) :
      Protocol s r (.ready hc hd) { s with reserved1 := s.reserved1 - 1 } ⟨.resetting hc hd, r⟩
  /-- Count in when nobody was missing: the assertion fails. -/
  | fail (hc hd : ℕ) (h : s.reserved1 - 1 < 0) :
      Protocol s r (.ready hc hd) { s with reserved1 := s.reserved1 - 1 } ⟨.aborted, r⟩
  /-- See that the events have been switched, and return. -/
  | leaveSpin (hc : ℕ) (h : s.current ≠ hc) :
      Protocol s r (.waiting hc) s ⟨.out, r ++ [false]⟩
  /-- Find the event signalled, and return. -/
  | leaveWait (hc : ℕ) (h : s.signalled hc = true) :
      Protocol s r (.waiting hc) s ⟨.out, r ++ [false]⟩
  /-- Reset the dormant event. -/
  | reset (hc hd : ℕ) :
      Protocol s r (.resetting hc hd)
        { s with signalled := Function.update s.signalled hd false } ⟨.loading hc hd, r⟩
  /-- Load the number of threads. -/
  | load (hc hd : ℕ) : Protocol s r (.loading hc hd) s ⟨.restoring hc hd s.reserved2, r⟩
  /-- Reset the counter. -/
  | restore (hc hd : ℕ) (v : ℤ) :
      Protocol s r (.restoring hc hd v) { s with reserved1 := v } ⟨.parking hc hd, r⟩
  /-- Park the current event. -/
  | park (hc hd : ℕ) :
      Protocol s r (.parking hc hd) { s with dormant := hc } ⟨.switching hc hd, r⟩
  /-- Switch to the dormant event. -/
  | switch (hc hd : ℕ) :
      Protocol s r (.switching hc hd) { s with current := hd } ⟨.signalling hc, r⟩
  /-- Signal the event that was current, and return. -/
  | signal (hc : ℕ) :
      Protocol s r (.signalling hc)
        { s with signalled := Function.update s.signalled hc true } ⟨.out, r ++ [true]⟩
  /-- Leave the loop of the deletion. -/
  | pass : Protocol s r .out s ⟨.gone, r⟩
  /-- Take the barrier apart. -/
  | destroy (s' : Shared) : Protocol s r .gone s' ⟨.gone, r⟩

/-! ### The code follows the protocol -/

section Simulation

/-- The view of a thread after a step of `winpr_EnterSynchronizationBarrier`. -/
def EnterPc.after (r : List Bool) : EnterPc ⊕ Bool → View
  | .inl p => ⟨p.stage, r⟩
  | .inr b => ⟨.out, r ++ [b]⟩

/-- The view of a thread after a step of `winpr_DeleteSynchronizationBarrier`. -/
def DeletePc.after (r : List Bool) : Option DeletePc → View
  | some p => ⟨p.stage, r⟩
  | none => ⟨.gone, r⟩

variable {s s' : Shared} {r : List Bool}

/-- A step of `winpr_EnterSynchronizationBarrier` is a step of the protocol. -/
theorem protocol_of_enter {p : EnterPc} {q : EnterPc ⊕ Bool}
    (h : enterSynchronizationBarrier s p = some (s', q)) :
    Protocol s r p.stage s' (EnterPc.after r q) := by
  cases p with
  | loadCurrent f =>
    obtain ⟨rfl, rfl⟩ := Prod.mk.inj (Option.some.inj h)
    exact .copy
  | loadDormant f hc =>
    obtain ⟨rfl, rfl⟩ := Prod.mk.inj (Option.some.inj h)
    exact .copyDormant hc
  | decrement f hc hd =>
    rcases lt_trichotomy (s.reserved1 - 1) 0 with hr | hr | hr
    · simp only [enterSynchronizationBarrier, interlockedDecrement, id, hr, if_true] at h
      obtain ⟨rfl, rfl⟩ := Prod.mk.inj (Option.some.inj h)
      exact .fail hc hd hr
    · simp only [enterSynchronizationBarrier, interlockedDecrement, id, hr, lt_irrefl,
        if_false] at h
      obtain ⟨rfl, rfl⟩ := Prod.mk.inj (Option.some.inj h)
      exact hr ▸ .arriveLast hc hd hr
    · simp only [enterSynchronizationBarrier, interlockedDecrement, id, hr, not_lt_of_gt hr,
        if_true, if_false] at h
      obtain ⟨rfl, rfl⟩ := Prod.mk.inj (Option.some.inj h)
      exact .arrive hc hd hr
  | loadProcessors f hc remaining =>
    simp only [enterSynchronizationBarrier] at h
    split at h <;> obtain ⟨rfl, rfl⟩ := Prod.mk.inj (Option.some.inj h) <;>
      exact .stayWaiting hc
  | loadSpinCount f hc =>
    obtain ⟨rfl, rfl⟩ := Prod.mk.inj (Option.some.inj h)
    exact .stayWaiting hc
  | spin f hc n sp =>
    simp only [enterSynchronizationBarrier] at h
    by_cases hcur : s.current = hc
    · -- the events have not been switched: spin on, or block
      rw [if_pos hcur] at h
      split at h
      · split at h <;> obtain ⟨rfl, rfl⟩ := Prod.mk.inj (Option.some.inj h) <;>
          exact .stayWaiting hc
      · obtain ⟨rfl, rfl⟩ := Prod.mk.inj (Option.some.inj h)
        exact .stayWaiting hc
    · rw [if_neg hcur] at h
      obtain ⟨rfl, rfl⟩ := Prod.mk.inj (Option.some.inj h)
      exact .leaveSpin hc hcur
  | wait hc =>
    simp only [enterSynchronizationBarrier] at h
    by_cases hs : s.signalled hc = true
    · rw [if_pos hs] at h
      obtain ⟨rfl, rfl⟩ := Prod.mk.inj (Option.some.inj h)
      exact .leaveWait hc hs
    · rw [if_neg hs] at h
      cases h
  | resetDormant hc hd =>
    obtain ⟨rfl, rfl⟩ := Prod.mk.inj (Option.some.inj h)
    exact .reset hc hd
  | loadTotal hc hd =>
    obtain ⟨rfl, rfl⟩ := Prod.mk.inj (Option.some.inj h)
    exact .load hc hd
  | storeRemaining hc hd v =>
    obtain ⟨rfl, rfl⟩ := Prod.mk.inj (Option.some.inj h)
    exact .restore hc hd v
  | storeDormant hc hd =>
    obtain ⟨rfl, rfl⟩ := Prod.mk.inj (Option.some.inj h)
    exact .park hc hd
  | storeCurrent hc hd =>
    obtain ⟨rfl, rfl⟩ := Prod.mk.inj (Option.some.inj h)
    exact .switch hc hd
  | setEvent hc =>
    obtain ⟨rfl, rfl⟩ := Prod.mk.inj (Option.some.inj h)
    exact .signal hc
  | aborted => cases h

/-- A step of `winpr_DeleteSynchronizationBarrier` is a step of the protocol. -/
theorem protocol_of_delete {p : DeletePc} {q : Option DeletePc}
    (h : deleteSynchronizationBarrier s p = (s', q)) :
    Protocol s r p.stage s' (DeletePc.after r q) := by
  cases p with
  | loadRemaining =>
    obtain ⟨rfl, rfl⟩ := Prod.mk.inj h
    exact .stayOut
  | loadTotal v =>
    simp only [deleteSynchronizationBarrier] at h
    split at h <;> obtain ⟨rfl, rfl⟩ := Prod.mk.inj h
    · exact .stayOut
    · exact .pass
  | testCurrent | testDormant =>
    simp only [deleteSynchronizationBarrier] at h
    split at h <;> obtain ⟨rfl, rfl⟩ := Prod.mk.inj h <;> exact .destroy _
  | loadCurrent | closeCurrent | loadDormant | closeDormant | zero =>
    obtain ⟨rfl, rfl⟩ := Prod.mk.inj h
    exact .destroy _

/-- **Every step of a thread is a step of the protocol.** -/
theorem protocol_of_next {ι : Type*} [DecidableEq ι] {client : Client ι} {i : ι} {a : Choice}
    {l l' : Local} (h : next client i a s l = some (s', l')) :
    Protocol s l.results l.pc.stage s' l'.view := by
  obtain ⟨hpc, f, -, -, rfl, rfl⟩ | ⟨hpc, -, -, rfl, rfl⟩ | ⟨p, q, hpc, -, he, rfl⟩ |
    ⟨p, q, hpc, -, hd, rfl⟩ := next_cases h
  · rw [hpc]
    exact .stayOut
  · rw [hpc]
    exact .stayOut
  · rw [hpc]
    cases q <;> exact protocol_of_enter he
  · rw [hpc]
    cases q <;> exact protocol_of_delete hd

end Simulation

end Barrier

end Libuzi

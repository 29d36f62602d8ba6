import Mathlib.Data.Int.Notation
import Mathlib.Data.Nat.Bitwise

/-!
# Handles

The part of `libuzi/handle.h` and `libuzi/wait.c` that every waitable object shares. A
handle points to an object that starts with its type, the mode in which its descriptor is
polled, and a table of operations; the table has an entry for the descriptor and one for
what is left to do once the descriptor has been reported ready, either of which may be
missing.
-/

namespace Libuzi

namespace Handle

/-- `HANDLE_TYPE_…`, the types of the objects that the library creates. -/
inductive HandleType
  | thread
  | event
  | mutex
  | semaphore
  | timer
  | timerQueue
  | timerQueueTimer
  deriving DecidableEq

/-! ### The results of a wait -/

/-- `WAIT_OBJECT_0`. -/
def waitObject0 : ℕ := 0

/-- `WAIT_TIMEOUT`. -/
def waitTimeout : ℕ := 0x102

/-- `WAIT_FAILED`. -/
def waitFailed : ℕ := 0xFFFFFFFF

/-! ### Modes and poll events -/

/-- `UZI_FD_READ`, which is also the value of `FD_READ`. -/
def fdRead : ℕ := 1 <<< 0

/-- `UZI_FD_WRITE`. -/
def fdWrite : ℕ := 1 <<< 1

/-- `POLLIN`. -/
def pollIn : ℕ := 1

/-- `POLLOUT`. -/
def pollOut : ℕ := 4

/-- `handle_mode_to_pollevent`. -/
def handleModeToPollevent (mode : ℕ) : ℕ :=
  let event := 0
  let event := if mode &&& fdRead ≠ 0 then event ||| pollIn else event
  if mode &&& fdWrite ≠ 0 then event ||| pollOut else event

/-! ### The table of operations -/

/-- `HANDLE_OPS`, for an object in the state `σ`: the entries that the wait functions use. -/
structure HandleOps (σ : Type*) where
  /-- `GetFd`. -/
  getFd : Option (σ → ℤ)
  /-- `CleanupHandle`: the object afterwards, and what is returned. -/
  cleanupHandle : Option (σ → σ × ℕ)

variable {σ : Type*}

/-- `winpr_Handle_getFd`, for a handle that is not `NULL`. -/
def winprHandleGetFd (ops : Option (HandleOps σ)) (object : σ) : ℤ :=
  match ops with
  | none => -1
  | some ops =>
    match ops.getFd with
    | none => -1
    | some getFd => getFd object

/-- `winpr_Handle_cleanup`, for a handle that is not `NULL`. If there is no cleanup function,
all is assumed to be well. -/
def winprHandleCleanup (ops : Option (HandleOps σ)) (object : σ) : σ × ℕ :=
  match ops with
  | none => (object, waitFailed)
  | some ops =>
    match ops.cleanupHandle with
    | none => (object, waitObject0)
    | some cleanupHandle => cleanupHandle object

end Handle

end Libuzi

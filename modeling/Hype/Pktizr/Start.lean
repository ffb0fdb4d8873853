import Mathlib.Logic.Relation

set_option autoImplicit false

/-! # The start of a worker: `START_THREAD`

`main` starts each worker thread with the macro `START_THREAD`: it takes the thread's
mutex, creates the thread, and waits on the thread's condition variable, which releases
the mutex while it blocks; once woken, `pthread_cond_wait` takes the mutex back, and
`main` releases it. The worker first sets up what `main` reads after the macro
(`recv_cb` stores `args->pkt_recv = 0`, `send_cb` zeroes `args->pkt_sent` and
`args->pkt_probe`, `loop_cb` stores `args->pkt_count`), then takes the mutex, signals the
condition and releases the mutex.

The model interleaves the two parties one call at a time (`Step`); a third kind of step,
a spurious wake-up of `pthread_cond_wait`, which POSIX allows, is switched on by a flag.
The macro waits once, with no predicate to test again, so with a spurious wake-up `main`
can leave it before the worker's setup. The state space is finite, and what holds of it
is settled by enumerating the reachable states. The shutdown model (`Shutdown.lean`)
starts from the state after the three handshakes with the workers' setup done (`Sys.init`),
which is where `main` is when no wake-up was spurious.
-/

namespace Hype.Pktizr.StartThread

/-! ## The two parties -/

/-- Where `main` is in `START_THREAD`. -/
inductive StarterPc
  /-- `pthread_mutex_lock(&ARGS->MUTEX)` -/
  | lock
  /-- `pthread_create` -/
  | create
  /-- `pthread_cond_wait`, which releases the mutex -/
  | wait
  /-- blocked in `pthread_cond_wait` -/
  | blocked
  /-- woken in `pthread_cond_wait`, which takes the mutex back -/
  | relock
  /-- `pthread_mutex_unlock(&ARGS->MUTEX)` -/
  | unlock
  /-- past the macro -/
  | started
  deriving DecidableEq

/-- Where the worker is, up to the end of its handshake. -/
inductive WorkerPc
  /-- not created yet -/
  | none
  /-- its code before the handshake -/
  | setup
  /-- `pthread_mutex_lock` -/
  | lock
  /-- `pthread_cond_signal` -/
  | signal
  /-- `pthread_mutex_unlock` -/
  | unlock
  /-- past the handshake -/
  | running
  deriving DecidableEq

/-- Who holds the mutex. -/
inductive Owner
  | free
  | starter
  | worker
  deriving DecidableEq

/-- The state the two parties share. -/
structure Handshake where
  main : StarterPc
  worker : WorkerPc
  mutex : Owner
  /-- what `main` reads after the macro is written -/
  ready : Bool
  deriving DecidableEq

/-- Before `START_THREAD`. -/
def Handshake.init : Handshake := ⟨.lock, .none, .free, false⟩

/-- A step of `main`; `none` when it is blocked or past the macro. -/
def starterStep (s : Handshake) : Option Handshake :=
  match s.main with
  | .lock => if s.mutex = .free then some { s with mutex := .starter, main := .create } else none
  | .create => some { s with main := .wait, worker := .setup }
  | .wait => some { s with mutex := .free, main := .blocked }
  | .blocked => none
  | .relock => if s.mutex = .free then some { s with mutex := .starter, main := .unlock } else none
  | .unlock => some { s with mutex := .free, main := .started }
  | .started => none

/-- A step of the worker; `pthread_cond_signal` wakes `main` if it is blocked, and is lost
otherwise. -/
def workerStep (s : Handshake) : Option Handshake :=
  match s.worker with
  | .none => none
  | .setup => some { s with ready := true, worker := .lock }
  | .lock => if s.mutex = .free then some { s with mutex := .worker, worker := .signal } else none
  | .signal =>
      some { s with worker := .unlock, main := if s.main = .blocked then .relock else s.main }
  | .unlock => some { s with mutex := .free, worker := .running }
  | .running => none

/-- A step of the system; spurious wake-ups happen only when `spurious` is set. -/
inductive Step (spurious : Bool) : Handshake → Handshake → Prop
  | starter {s s' : Handshake} : starterStep s = some s' → Step spurious s s'
  | worker {s s' : Handshake} : workerStep s = some s' → Step spurious s s'
  | wakeup (s : Handshake) : spurious = true → s.main = .blocked →
      Step spurious s { s with main := .relock }

/-- The states reachable from before the macro. -/
def Reachable (spurious : Bool) (s : Handshake) : Prop :=
  Relation.ReflTransGen (Step spurious) Handshake.init s

end Hype.Pktizr.StartThread

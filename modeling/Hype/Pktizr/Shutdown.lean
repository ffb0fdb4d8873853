import Mathlib.Logic.Relation
import Mathlib.Tactic.PushNeg
import Hype.Pktizr.Send

set_option autoImplicit false

/-! # Shutdown: `status_line` and the end of `main`

Once the three workers run, the main thread calls `status_line`. It clears the static
`stop`, then polls `args->pkt_probe` until it equals `args->pkt_count`, or until the signal
handler has set `stop`, in which case it sets `args->stop`. It then clears both flags
(`args->stop = stop = false`), waits `args->wait` seconds unless a signal comes, and sets
`args->stop`. `main` joins the generator, sets `args->done`, and joins the receiver and the
transmitter.

The model interleaves the threads one shared access at a time (`Step`), but for the two
stores of `args->stop = stop = false`, which are one step: the main thread (`mainStep`);
the loop test of `loop_cb`, each probe `script_loop` enqueues in the body of an iteration,
and the `i++` that ends it; the transmitter counting a probe; the exits of the transmitter
and the receiver on `args->done`; and `handle_term_sig`. The script and the send queue are
outside `pktizr.c`: an iteration enqueues any number of probes, and the transmitter counts
one whenever it has dequeued more probes than it counted. The last holds of every run of
`send_cb` (`sendCb_refines_sendProbe`), given that the queue hands out only probes that were
enqueued. Time is not modelled: a sleep changes nothing shared and is no step.

`shutdown_safe` holds in every reachable state: `args->done` is set only after the
generator has returned; once `status_line` has returned, `args->stop` stays set and no loop
test of the generator passes, though an iteration whose test passed before still runs its
body; and `main` returns only after all three workers have. `signal_cancelled`: a signal
seen by the progress loop sets `args->stop`, but `args->stop = stop = false` clears it
before the generator need read it, and the generator may then run to the end of the scan.
`progress_without_signal`: once the generator has returned having queued fewer probes than
`args->pkt_count`, `status_line` never leaves its progress loop unless a signal comes;
`progress_overshoot`: neither does it once `args->pkt_probe` has passed `args->pkt_count`,
since the loop tests `probe == tot`. `scan_complete_without_signal`: with no signal,
`args->stop` stays clear until the last store of `status_line`, which leaves its progress
loop only once `args->pkt_probe` has reached `args->pkt_count`, and returns only once its
wait loop has run out. `exit_reachable`: with no signal, a run can still end with `main`
returning exactly when `status_line` has left its progress loop, or `args->pkt_probe` can
still meet `args->pkt_count`.
-/

namespace Hype.Pktizr

/-- Where the main thread is: in `status_line`, then in `main` after it returns. -/
inductive MainPc
  /-- `stop = false;` on entry to `status_line` -/
  | start
  /-- `if (probe == tot) break;` of the progress loop -/
  | probe
  /-- `if (stop)` of the progress loop -/
  | check
  /-- `args->stop = true; break;` -/
  | setStop
  /-- `args->stop = stop = false;`, its two stores as one step -/
  | clear
  /-- the test `args->wait > 0 && !stop` of the wait loop -/
  | wait
  /-- `args->stop = true;` at the end of `status_line` -/
  | finish
  /-- `pthread_join(args->loop_thread, NULL);` -/
  | joinLoop
  /-- `args->done = true;` -/
  | setDone
  /-- `pthread_join` of the receiver and of the transmitter -/
  | joinWorkers
  /-- `return 0;` -/
  | exit
  deriving DecidableEq, Repr

/-- `status_line` has returned. -/
def MainPc.afterStatus : MainPc → Bool
  | .joinLoop | .setDone | .joinWorkers | .exit => true
  | _ => false

/-- `status_line` is in its progress loop. -/
def MainPc.inProgress : MainPc → Bool
  | .start | .probe | .check => true
  | _ => false

theorem MainPc.afterStatus_eq_false {pc : MainPc} (h : pc.inProgress = true) :
    pc.afterStatus = false := by
  cases pc <;> first | rfl | cases h

/-- The shared state of the threads, with the generator's counter. -/
structure Sys where
  pc : MainPc
  /-- the static `stop` of `pktizr.c`, which `handle_term_sig` sets -/
  stop : Bool
  /-- `args->stop` -/
  argsStop : Bool
  /-- `args->done` -/
  done : Bool
  /-- `args->wait` -/
  wait : Nat
  /-- the `i` of `loop_cb` -/
  i : Nat
  /-- `loop_cb` is in the body of its loop: the test passed, and `i++` is to come -/
  body : Bool
  /-- `loop_cb` has returned -/
  loopDone : Bool
  /-- the probes `script_loop` has enqueued -/
  queued : Nat
  /-- `args->pkt_probe` -/
  probe : Nat
  /-- `send_cb` has returned -/
  sendDone : Bool
  /-- `recv_cb` has returned -/
  recvDone : Bool
  deriving DecidableEq, Repr

/-- The state when `main` calls `status_line`: `args->stop` and `args->done` as `main` set
them, and `args->pkt_probe` as `send_cb` set it before it signalled its start. -/
def Sys.init (wait : Nat) : Sys :=
  { pc := .start, stop := false, argsStop := false, done := false, wait := wait, i := 0,
    body := false, loopDone := false, queued := 0, probe := 0, sendDone := false,
    recvDone := false }

/-- The iterations of `loop_cb` whose loop test has passed: those it finished, and the one
it runs. -/
def Sys.begun (s : Sys) : Nat := s.i + if s.body then 1 else 0

/-- A step of the main thread, `none` while it blocks in a join and after it returned.
`tot` is `args->pkt_count`. -/
def mainStep (tot : Nat) (s : Sys) : Option Sys :=
  match s.pc with
  | .start => some { s with stop := false, pc := .probe }
  | .probe => some { s with pc := if s.probe = tot then .clear else .check }
  | .check => some { s with pc := if s.stop then .setStop else .probe }
  | .setStop => some { s with argsStop := true, pc := .clear }
  | .clear => some { s with stop := false, argsStop := false, pc := .wait }
  | .wait =>
      some (if 0 < s.wait ∧ s.stop = false then { s with wait := s.wait - 1 }
        else { s with pc := .finish })
  | .finish => some { s with argsStop := true, pc := .joinLoop }
  | .joinLoop => if s.loopDone then some { s with pc := .setDone } else none
  | .setDone => some { s with done := true, pc := .joinWorkers }
  | .joinWorkers => if s.sendDone ∧ s.recvDone then some { s with pc := .exit } else none
  | .exit => none

/-- A step of a thread other than the signal handler. -/
inductive Work (tot : Nat) : Sys → Sys → Prop
  /-- the main thread -/
  | main {s s' : Sys} : mainStep tot s = some s' → Work tot s s'
  /-- the test `i < tot_cnt && !args->stop` of the loop of `loop_cb` holds -/
  | loopTest (s : Sys) : s.loopDone = false → s.body = false → s.i < tot → s.argsStop = false →
      Work tot s { s with body := true }
  /-- `script_loop`, in the body of the loop, enqueues a probe -/
  | loopEnqueue (s : Sys) : s.loopDone = false → s.body = true →
      Work tot s { s with queued := s.queued + 1 }
  /-- the body ends with `i++` -/
  | loopNext (s : Sys) : s.loopDone = false → s.body = true →
      Work tot s { s with i := s.i + 1, body := false }
  /-- the test of the loop of `loop_cb` fails, and it returns -/
  | loopExit (s : Sys) : s.loopDone = false → s.body = false →
      ¬(s.i < tot ∧ s.argsStop = false) → Work tot s { s with loopDone := true }
  /-- `send_cb` injects a probe it dequeued and has not counted: `args->pkt_probe++` -/
  | sendProbe (s : Sys) : s.sendDone = false → s.probe < s.queued →
      Work tot s { s with probe := s.probe + 1 }
  /-- `send_cb` reads `args->done` and returns -/
  | sendExit (s : Sys) : s.sendDone = false → s.done = true →
      Work tot s { s with sendDone := true }
  /-- `recv_cb` reads `args->done` and returns -/
  | recvExit (s : Sys) : s.recvDone = false → s.done = true →
      Work tot s { s with recvDone := true }

/-- A step of the program: a thread's, or `handle_term_sig`'s `stop = true`. -/
inductive Step (tot : Nat) : Sys → Sys → Prop
  | work {s s' : Sys} : Work tot s s' → Step tot s s'
  | signal (s : Sys) : Step tot s { s with stop := true }

/-- The states the program reaches from the call of `status_line`. -/
def Reach (tot wait : Nat) (s : Sys) : Prop :=
  Relation.ReflTransGen (Step tot) (Sys.init wait) s

/-! ## What one step changes -/

section Frames

variable {tot : Nat}

theorem Step.ofMain {s s' : Sys} (h : mainStep tot s = some s') : Step tot s s' :=
  .work (.main h)

theorem Reach.of_work {wait : Nat} {s : Sys}
    (h : Relation.ReflTransGen (Work tot) (Sys.init wait) s) : Reach tot wait s :=
  h.mono fun _ _ => Step.work

/-- The main thread changes none of the other threads' state. -/
theorem mainStep_frame {s s' : Sys} (h : mainStep tot s = some s') :
    s'.i = s.i ∧ s'.body = s.body ∧ s'.loopDone = s.loopDone ∧ s'.queued = s.queued ∧
      s'.probe = s.probe ∧ s'.sendDone = s.sendDone ∧ s'.recvDone = s.recvDone := by
  unfold mainStep at h
  split at h <;> (try split at h) <;> cases h <;> exact ⟨rfl, rfl, rfl, rfl, rfl, rfl, rfl⟩

/-- `args->pkt_probe` only grows. -/
theorem Work.probe_le {s s' : Sys} (h : Work tot s s') : s.probe ≤ s'.probe := by
  cases h with
  | main h => exact (mainStep_frame h).2.2.2.2.1.ge
  | sendProbe => exact Nat.le_succ _
  | _ => exact le_rfl

/-- With no signal pending and `args->pkt_probe` other than `args->pkt_count`, a step from
the progress loop leaves `status_line` in it: the main thread goes on to a test, and the
other threads leave it where it is. -/
theorem Work.polls {s s' : Sys} (h : Work tot s s') (hpc : s.pc.inProgress = true)
    (hstop : s.stop = false) (hne : s.probe ≠ tot) :
    s'.stop = false ∧ (s'.pc = .probe ∨ s'.pc = .check ∨ s'.pc = s.pc) := by
  cases h with
  | main h =>
    cases hpc' : s.pc <;> simp only [MainPc.inProgress, hpc', Bool.false_eq_true] at hpc <;>
      simp only [mainStep, hpc', hne, hstop, Bool.false_eq_true, ite_false,
        Option.some.injEq] at h <;> subst h <;> simp
  | _ => exact ⟨hstop, .inr (.inr rfl)⟩

end Frames

/-! ## What holds in every reachable state -/

/-- The invariant of the shutdown. -/
structure Inv (tot : Nat) (s : Sys) : Prop where
  /-- `args->stop` stays set once `status_line` has returned -/
  argsStop : s.pc.afterStatus = true → s.argsStop = true
  /-- the generator has returned once `main` has joined it -/
  loop : s.pc = .setDone ∨ s.pc = .joinWorkers ∨ s.pc = .exit → s.loopDone = true
  /-- `args->done` is set exactly once `main` has passed `args->done = true` -/
  done : s.done = true ↔ s.pc = .joinWorkers ∨ s.pc = .exit
  /-- the transmitter returns only once `args->done` is set -/
  sendDone : s.sendDone = true → s.done = true
  /-- `main` returns only after joining the receiver and the transmitter -/
  exit : s.pc = .exit → s.sendDone = true ∧ s.recvDone = true
  /-- the generator's counter stays within the scan -/
  iter : s.i ≤ tot
  /-- an iteration runs only in a generator that has not returned, within the scan -/
  body : s.body = true → s.loopDone = false ∧ s.i < tot
  /-- only enqueued probes are counted -/
  probe : s.probe ≤ s.queued

theorem Inv.init (tot wait : Nat) : Inv tot (Sys.init wait) :=
  ⟨nofun, nofun, by simp [Sys.init], nofun, nofun, Nat.zero_le _, nofun, Nat.le_refl _⟩

theorem Inv.main {tot : Nat} {s s' : Sys} (hi : Inv tot s) (h : mainStep tot s = some s') :
    Inv tot s' := by
  obtain ⟨ha, hl, hd, hsd, he, hit, hb, hp⟩ := hi
  cases hpc : s.pc <;> simp only [mainStep, hpc] at h <;> (try split at h) <;> cases h <;>
    exact ⟨by simp [MainPc.afterStatus, *], by simp [*], by simp [*],
      fun h' => by have := hsd h'; simp_all, by simp [*], hit, hb, hp⟩

theorem Inv.step {tot : Nat} {s s' : Sys} (hi : Inv tot s) (h : Step tot s s') :
    Inv tot s' := by
  obtain ⟨ha, hl, hd, hsd, he, hit, hb, hp⟩ := hi
  cases h with
  | signal => exact ⟨ha, hl, hd, hsd, he, hit, hb, hp⟩
  | work h =>
    cases h with
    | main h => exact Inv.main ⟨ha, hl, hd, hsd, he, hit, hb, hp⟩ h
    | loopTest hlo _ hlt => exact ⟨ha, hl, hd, hsd, he, hit, fun _ => ⟨hlo, hlt⟩, hp⟩
    | loopEnqueue => exact ⟨ha, hl, hd, hsd, he, hit, hb, Nat.le_succ_of_le hp⟩
    | loopNext _ hbt => exact ⟨ha, hl, hd, hsd, he, (hb hbt).2, nofun, hp⟩
    | loopExit _ hbf => exact ⟨ha, fun _ => rfl, hd, hsd, he, hit, by simp [hbf], hp⟩
    | sendProbe _ hlt => exact ⟨ha, hl, hd, hsd, he, hit, hb, hlt⟩
    | sendExit _ hdn => exact ⟨ha, hl, hd, fun _ => hdn, fun h => ⟨rfl, (he h).2⟩, hit, hb, hp⟩
    | recvExit => exact ⟨ha, hl, hd, hsd, fun h => ⟨(he h).1, rfl⟩, hit, hb, hp⟩

theorem Reach.inv {tot wait : Nat} {s : Sys} (h : Reach tot wait s) : Inv tot s := by
  induction h with
  | refl => exact Inv.init tot wait
  | tail _ hs ih => exact ih.step hs

/-- What a run with no signal keeps: `stop` stays clear, `args->stop` is set exactly once
`status_line` has returned, and `status_line` has left its progress loop only through
`probe == tot`, with `args->pkt_probe` at least `args->pkt_count` from then on. -/
structure NoSignal (tot : Nat) (s : Sys) : Prop where
  stop : s.stop = false
  /-- the progress loop does not take its `if (stop)` branch -/
  setStop : s.pc ≠ .setStop
  argsStop : s.argsStop = s.pc.afterStatus
  probe : s.pc.inProgress = false → tot ≤ s.probe
  /-- the wait loop ends only once `args->wait` is `0` -/
  waited : s.pc = .finish ∨ s.pc.afterStatus = true → s.wait = 0

theorem NoSignal.init (tot wait : Nat) : NoSignal tot (Sys.init wait) :=
  ⟨rfl, nofun, rfl, nofun, nofun⟩

theorem NoSignal.main {tot : Nat} {s s' : Sys} (hn : NoSignal tot s)
    (h : mainStep tot s = some s') : NoSignal tot s' := by
  obtain ⟨hs, hss, ha, hp, hw⟩ := hn
  cases hpc : s.pc <;> simp only [mainStep, hpc] at h <;> (try split at h) <;> cases h <;>
    first
    | exact absurd hpc hss
    | (rename_i hst; exact absurd (hs.symm.trans hst) Bool.false_ne_true)
    | exact ⟨by simp [*], by simp, by simp [MainPc.afterStatus, *],
        fun h' => by simp_all [MainPc.inProgress], fun h' => by simp_all [MainPc.afterStatus]⟩

theorem NoSignal.step {tot : Nat} {s s' : Sys} (hn : NoSignal tot s) (h : Work tot s s') :
    NoSignal tot s' := by
  obtain ⟨hs, hss, ha, hp, hw⟩ := hn
  cases h with
  | main h => exact NoSignal.main ⟨hs, hss, ha, hp, hw⟩ h
  | sendProbe => exact ⟨hs, hss, ha, fun h' => Nat.le_succ_of_le (hp h'), hw⟩
  | _ => exact ⟨hs, hss, ha, hp, hw⟩

theorem NoSignal.run {tot wait : Nat} {s : Sys}
    (h : Relation.ReflTransGen (Work tot) (Sys.init wait) s) : NoSignal tot s := by
  induction h with
  | refl => exact NoSignal.init tot wait
  | tail _ hw ih => exact ih.step hw

/-! ## Safety -/

/-- Once `args->stop` is set, no step passes the loop test of the generator. -/
theorem Step.begun_eq {tot : Nat} {s s' : Sys} (h : Step tot s s') (ha : s.argsStop = true) :
    s'.begun = s.begun := by
  cases h with
  | signal => rfl
  | work h =>
    cases h with
    | main h =>
      obtain ⟨hi, hb, -⟩ := mainStep_frame h
      simp only [Sys.begun, hi, hb]
    | loopTest _ _ _ hs => simp [hs] at ha
    | loopNext _ hb => simp [Sys.begun, hb]
    | _ => rfl

/-- The shutdown in every interleaving: `args->done` is set only after the generator has
returned; once `status_line` has returned, `args->stop` stays set and no step passes the
loop test of the generator, so it starts no further iteration; and `main` returns only
after the generator, the transmitter and the receiver have. -/
theorem shutdown_safe (tot wait : Nat) (s : Sys) (h : Reach tot wait s) :
    (s.done = true → s.loopDone = true) ∧
      (s.pc.afterStatus = true →
        s.argsStop = true ∧ ∀ s', Step tot s s' → s'.begun = s.begun) ∧
      (s.pc = .exit → s.loopDone = true ∧ s.sendDone = true ∧ s.recvDone = true) := by
  have hi := h.inv
  refine ⟨fun hd => hi.loop ?_, fun ha => ⟨hi.argsStop ha, fun s' hs => hs.begun_eq
    (hi.argsStop ha)⟩, fun he => ⟨hi.loop (.inr (.inr he)), hi.exit he⟩⟩
  rcases hi.done.mp hd with h | h <;> simp [h]

/-- A whole scan of one tuple with no wait: the generator enqueues its probe, the
transmitter counts it, `status_line` sees it and returns, and so does `main`; from there no
step passes the loop test of the generator. -/
theorem shutdown_safe_exit :
    Reach 1 0 { Sys.init 0 with
        pc := .exit, argsStop := true, done := true, i := 1, loopDone := true, queued := 1,
        probe := 1, sendDone := true, recvDone := true } ∧
      ∀ s', Step 1 { Sys.init 0 with
        pc := .exit, argsStop := true, done := true, i := 1, loopDone := true, queued := 1,
        probe := 1, sendDone := true, recvDone := true } s' → s'.begun = 1 :=
  have h : Reach 1 0 { Sys.init 0 with
      pc := .exit, argsStop := true, done := true, i := 1, loopDone := true, queued := 1,
      probe := 1, sendDone := true, recvDone := true } :=
    .tail (.tail (.tail (.tail (.tail (.tail (.tail (.tail (.tail (.tail (.tail (.tail (.tail
      (.tail (.single (.ofMain rfl)) (.work (.loopTest _ rfl rfl (by decide) rfl)))
      (.work (.loopEnqueue _ rfl rfl))) (.work (.loopNext _ rfl rfl)))
      (.work (.sendProbe _ rfl (by decide)))) (.ofMain rfl)) (.ofMain rfl)) (.ofMain rfl))
      (.ofMain rfl)) (.work (.loopExit _ rfl rfl (by decide)))) (.ofMain rfl)) (.ofMain rfl))
      (.work (.sendExit _ rfl rfl))) (.work (.recvExit _ rfl rfl))) (.ofMain rfl)
  ⟨h, ((shutdown_safe 1 0 _ h).2.1 rfl).2⟩

/-! ## The transmitter's step and `send_cb` -/

/-- The generator, left to run with `args->stop` clear, runs to the end of the scan and
returns. -/
theorem generator_runs_out {tot : Nat} : ∀ (n : Nat) (s : Sys), tot = s.i + n →
    s.loopDone = false → s.body = false → s.argsStop = false →
    ∃ s', Relation.ReflTransGen (Step tot) s s' ∧ s'.pc = s.pc ∧ s'.stop = s.stop ∧
      s'.argsStop = false ∧ s'.loopDone = true ∧ s'.i = tot
  | 0, s, hn, hl, hb, ha =>
      ⟨_, .single (.work (.loopExit s hl hb fun h => absurd h.1 (by omega))), rfl, rfl, ha,
        rfl, by simp [hn]⟩
  | n + 1, s, hn, hl, hb, ha =>
      let ⟨s', hr, h₁, h₂, h₃, h₄, h₅⟩ :=
        generator_runs_out n { s with i := s.i + 1, body := false } (by simp; omega) hl rfl ha
      ⟨s', .head (.work (.loopTest s hl hb (by omega) ha)) (.head (.work (.loopNext _ hl rfl)) hr),
        h₁, h₂, h₃, h₄, h₅⟩

/-- A signal seen by the progress loop does not stop the generator: `status_line` sets
`args->stop`, clears it again with `args->stop = stop = false`, and the generator, which
need not have read it in between, then ends the iteration it runs and runs to the end of
the scan while `status_line` waits. -/
theorem signal_cancelled {tot wait : Nat} {s : Sys} (hr : Reach tot wait s)
    (hpc : s.pc = .check) (hstop : s.stop = true) (hloop : s.loopDone = false) :
    ∃ s', Relation.ReflTransGen (Step tot) s s' ∧ s'.pc = .wait ∧ s'.stop = false ∧
      s'.argsStop = false ∧ s'.loopDone = true ∧ s'.i = tot := by
  have hi := hr.inv
  have h : mainStep tot s = some { s with pc := .setStop } := by simp [mainStep, hpc, hstop]
  have hclear : Relation.ReflTransGen (Step tot) s
      { s with stop := false, argsStop := false, pc := .wait } :=
    .head (.ofMain h) (.head (.ofMain rfl) (.single (.ofMain rfl)))
  obtain ⟨s₁, hs₁, hpc₁, hstop₁, ha₁, hl₁, hb₁, hi₁⟩ : ∃ s₁,
      Relation.ReflTransGen (Step tot) { s with stop := false, argsStop := false, pc := .wait }
        s₁ ∧ s₁.pc = .wait ∧ s₁.stop = false ∧ s₁.argsStop = false ∧ s₁.loopDone = false ∧
        s₁.body = false ∧ s₁.i ≤ tot := by
    cases hb : s.body
    · exact ⟨_, .refl, rfl, rfl, rfl, hloop, rfl, hi.iter⟩
    · exact ⟨_, .single (.work (.loopNext _ hloop rfl)), rfl, rfl, rfl, hloop, rfl,
        (hi.body hb).2⟩
  obtain ⟨s', hrun, h₁, h₂, h₃, h₄, h₅⟩ :=
    @generator_runs_out tot (tot - s₁.i) s₁ (by omega) hl₁ hb₁ ha₁
  exact ⟨s', hclear.trans (hs₁.trans hrun), h₁.trans hpc₁, h₂.trans hstop₁, h₃, h₄, h₅⟩

/-- Two tuples: a signal comes right after the first test of `args->pkt_probe`, and the
generator still runs both iterations. -/
theorem signal_cancelled_two :
    Reach 2 5 { Sys.init 5 with pc := .check, stop := true } ∧
      ∃ s', Relation.ReflTransGen (Step 2) { Sys.init 5 with pc := .check, stop := true } s' ∧
        s'.pc = .wait ∧ s'.stop = false ∧ s'.argsStop = false ∧ s'.loopDone = true ∧ s'.i = 2 :=
  have hr : Reach 2 5 { Sys.init 5 with pc := .check, stop := true } :=
    .tail (.tail (.single (.ofMain rfl)) (.ofMain rfl)) (.signal _)
  ⟨hr, signal_cancelled hr rfl rfl rfl⟩

/-! ## The progress loop without a signal -/

/-- A property of the state that every step of the threads keeps, and under which
`args->pkt_probe` is not `args->pkt_count`, holds `status_line` in its progress loop for
good once it is there with no signal pending. -/
theorem polls_forever {tot : Nat} {P : Sys → Prop} (hP : ∀ s s', P s → Work tot s s' → P s')
    (hne : ∀ s, P s → s.probe ≠ tot) {s s' : Sys} (hrun : Relation.ReflTransGen (Work tot) s s')
    (hpc : s.pc.inProgress = true) (hstop : s.stop = false) (h : P s) :
    P s' ∧ s'.stop = false ∧ (s'.pc = .probe ∨ s'.pc = .check ∨ s'.pc = s.pc) := by
  induction hrun with
  | refl => exact ⟨h, hstop, .inr (.inr rfl)⟩
  | @tail b _ _ hw ih =>
    obtain ⟨hPb, hsb, hpcb⟩ := ih
    have hin : b.pc.inProgress = true := by
      rcases hpcb with h' | h' | h' <;> rw [h'] <;> first | rfl | exact hpc
    obtain ⟨hs', hpc'⟩ := hw.polls hin hsb (hne _ hPb)
    exact ⟨hP _ _ hPb hw, hs', hpc'.elim .inl (·.elim (.inr ∘ .inl) (· ▸ hpcb))⟩

/-- The generator can enqueue no more probes, and `q` are queued, fewer than
`args->pkt_count`: it has returned, or its next test fails on `i`. -/
def Starved (tot q : Nat) (s : Sys) : Prop :=
  s.queued = q ∧ s.probe ≤ q ∧ q < tot ∧ (s.loopDone = true ∨ s.body = false ∧ tot ≤ s.i)

theorem Starved.step {tot q : Nat} {s s' : Sys} (hs : Starved tot q s) (hw : Work tot s s') :
    Starved tot q s' := by
  obtain ⟨hq, hp, hlt, hgen⟩ := hs
  cases hw with
  | main h =>
    obtain ⟨hi, hb, hl, hq', hp', -⟩ := mainStep_frame h
    exact ⟨hq'.trans hq, hp'.trans_le hp, hlt, by rw [hi, hb, hl]; exact hgen⟩
  | loopTest hl _ hi => rcases hgen with h | ⟨-, h⟩ <;> simp_all; omega
  | loopEnqueue hl hb => rcases hgen with h | ⟨h, -⟩ <;> simp_all
  | loopNext hl hb => rcases hgen with h | ⟨h, -⟩ <;> simp_all
  | loopExit => exact ⟨hq, hp, hlt, .inl rfl⟩
  | sendProbe _ h => exact ⟨hq, hq ▸ h, hlt, hgen⟩
  | sendExit => exact ⟨hq, hp, hlt, hgen⟩
  | recvExit => exact ⟨hq, hp, hlt, hgen⟩

/-- Without a signal the progress loop never ends once the generator has returned having
queued fewer probes than `args->pkt_count`, as when `script_loop` skips a tuple or a probe
fails to pack: `args->pkt_probe` cannot reach `args->pkt_count`, and no run of the threads
takes `status_line` out of the loop. -/
theorem progress_without_signal {tot : Nat} {s s' : Sys}
    (hrun : Relation.ReflTransGen (Work tot) s s') (hpc : s.pc = .probe ∨ s.pc = .check)
    (hstop : s.stop = false) (hloop : s.loopDone = true) (hq : s.probe ≤ s.queued)
    (hlt : s.queued < tot) :
    (s'.pc = .probe ∨ s'.pc = .check) ∧ s'.probe ≤ s.queued := by
  obtain ⟨⟨-, hp', -⟩, -, hpc'⟩ := polls_forever (P := Starved tot s.queued)
    (fun _ _ h hw => h.step hw) (fun _ ⟨_, hp, hlt, _⟩ => by omega) hrun
    (by rcases hpc with h | h <;> rw [h] <;> rfl) hstop ⟨rfl, hq, hlt, .inl hloop⟩
  exact ⟨hpc'.elim .inl (·.elim .inr (· ▸ hpc)), hp'⟩

/-- One tuple whose iteration queues no probe: the state after it is reachable, and from
it the progress loop runs forever without a signal. -/
theorem progress_without_signal_one :
    Reach 1 5 { Sys.init 5 with pc := .probe, i := 1, loopDone := true } ∧
      ∀ s', Relation.ReflTransGen (Work 1)
          { Sys.init 5 with pc := .probe, i := 1, loopDone := true } s' →
        (s'.pc = .probe ∨ s'.pc = .check) ∧ s'.probe ≤ 0 :=
  ⟨.tail (.tail (.tail (.single (.work (.loopTest _ rfl rfl (by decide) rfl)))
      (.work (.loopNext _ rfl rfl))) (.work (.loopExit _ rfl rfl (by decide)))) (.ofMain rfl),
    fun _ h => progress_without_signal h (.inl rfl) rfl rfl (Nat.le_refl 0) (by decide)⟩

/-- Without a signal the progress loop never ends once `args->pkt_probe` has passed
`args->pkt_count`, as when `script_loop` queues two probes for a tuple and the transmitter
counts both between two polls: the loop tests `probe == tot`, which no run of the threads
makes true again. -/
theorem progress_overshoot {tot : Nat} {s s' : Sys}
    (hrun : Relation.ReflTransGen (Work tot) s s') (hpc : s.pc = .probe ∨ s.pc = .check)
    (hstop : s.stop = false) (hgt : tot < s.probe) :
    (s'.pc = .probe ∨ s'.pc = .check) ∧ tot < s'.probe := by
  obtain ⟨hgt', -, hpc'⟩ := polls_forever (P := fun s => tot < s.probe)
    (fun _ _ h hw => h.trans_le hw.probe_le) (fun _ h => h.ne') hrun
    (by rcases hpc with h | h <;> rw [h] <;> rfl) hstop hgt
  exact ⟨hpc'.elim .inl (·.elim .inr (· ▸ hpc)), hgt'⟩

/-- One tuple for which `script_loop` queues two probes, both counted before `status_line`
polls: the state is reachable, and from it the progress loop runs forever without a
signal. -/
theorem progress_overshoot_two :
    Reach 1 5 { Sys.init 5 with pc := .probe, i := 1, queued := 2, probe := 2 } ∧
      ∀ s', Relation.ReflTransGen (Work 1)
          { Sys.init 5 with pc := .probe, i := 1, queued := 2, probe := 2 } s' →
        (s'.pc = .probe ∨ s'.pc = .check) ∧ 1 < s'.probe :=
  ⟨.tail (.tail (.tail (.tail (.tail (.tail (.single (.ofMain rfl))
      (.work (.loopTest _ rfl rfl (by decide) rfl))) (.work (.loopEnqueue _ rfl rfl)))
      (.work (.loopEnqueue _ rfl rfl))) (.work (.loopNext _ rfl rfl)))
      (.work (.sendProbe _ rfl (by decide)))) (.work (.sendProbe _ rfl (by decide))),
    fun _ h => progress_overshoot h (.inl rfl) rfl (by decide)⟩

/-! ## A scan without a signal -/

/-- A scan that no signal interrupts, in every interleaving of the threads: `args->stop`
stays clear until the last store of `status_line`, so the generator is never cut short
while `status_line` polls or waits, and `status_line` leaves its progress loop only once
`args->pkt_probe` has reached `args->pkt_count`, so `main` returns only after the
transmitter has counted that many probes; and `status_line` returns only after its wait
loop has counted `args->wait` down to `0`. -/
theorem scan_complete_without_signal (tot wait : Nat) (s : Sys)
    (h : Relation.ReflTransGen (Work tot) (Sys.init wait) s) :
    s.argsStop = s.pc.afterStatus ∧ (s.pc.inProgress = false → tot ≤ s.probe) ∧
      (s.pc.afterStatus = true → s.wait = 0) :=
  have hn := NoSignal.run h
  ⟨hn.argsStop, hn.probe, fun h' => hn.waited (.inr h')⟩

/-- One tuple, one probe: the transmitter counts it, and `status_line` leaves its progress
loop. -/
theorem scan_complete_one :
    Relation.ReflTransGen (Work 1) (Sys.init 0)
        { Sys.init 0 with pc := .clear, i := 1, queued := 1, probe := 1 } ∧
      false = MainPc.clear.afterStatus ∧ (MainPc.clear.inProgress = false → 1 ≤ 1) ∧
        (MainPc.clear.afterStatus = true → 0 = 0) :=
  have h : Relation.ReflTransGen (Work 1) (Sys.init 0)
      { Sys.init 0 with pc := .clear, i := 1, queued := 1, probe := 1 } :=
    .tail (.tail (.tail (.tail (.tail (.single (.main rfl)) (.loopTest _ rfl rfl (by decide) rfl))
      (.loopEnqueue _ rfl rfl)) (.loopNext _ rfl rfl)) (.sendProbe _ rfl (by decide))) (.main rfl)
  ⟨h, scan_complete_without_signal 1 0 _ h⟩

/-! ## Runs that end the program -/

/-- Some run of the threads from `s`, with no signal, ends with `main` returning. -/
def Exits (tot : Nat) (s : Sys) : Prop :=
  ∃ s', Relation.ReflTransGen (Work tot) s s' ∧ s'.pc = .exit

section Runs

variable {tot : Nat}

theorem Exits.exit {s : Sys} (h : s.pc = .exit) : Exits tot s := ⟨s, .refl, h⟩

theorem Exits.run {s s₁ : Sys} (h : Relation.ReflTransGen (Work tot) s s₁)
    (h₁ : Exits tot s₁) : Exits tot s :=
  let ⟨s', hr, hpc⟩ := h₁
  ⟨s', h.trans hr, hpc⟩

theorem Exits.head {s s₁ : Sys} (h : Work tot s s₁) (h₁ : Exits tot s₁) : Exits tot s :=
  .run (.single h) h₁

theorem Exits.main {s s₁ : Sys} (h : mainStep tot s = some s₁) (h₁ : Exits tot s₁) :
    Exits tot s :=
  .head (.main h) h₁

/-- `main` joins the receiver and the transmitter once `args->done` is set. -/
theorem exits_joinWorkers {s : Sys} (hpc : s.pc = .joinWorkers) (hd : s.done = true) :
    Exits tot s := by
  have hsent : ∀ s₁ : Sys, s₁.pc = .joinWorkers → s₁.done = true → s₁.sendDone = true →
      Exits tot s₁ := fun s₁ hpc₁ hd₁ hs₁ => by
    cases hr : s₁.recvDone
    · exact .head (.recvExit s₁ hr hd₁) (.main (by simp [mainStep, hpc₁, hs₁]; rfl) (.exit (by rfl)))
    · exact .main (by simp [mainStep, hpc₁, hs₁, hr]; rfl) (.exit (by rfl))
  cases hs : s.sendDone
  · exact .head (.sendExit s hs hd) (hsent _ hpc hd rfl)
  · exact hsent s hpc hd hs

/-- `main` joins the generator once `args->stop` is set: the generator ends the iteration
it runs and returns, and `main` goes on to return. -/
theorem exits_joinLoop {s : Sys} (hpc : s.pc = .joinLoop) (ha : s.argsStop = true) :
    Exits tot s := by
  have hjoined : ∀ s₁ : Sys, s₁.pc = .joinLoop → s₁.loopDone = true → Exits tot s₁ :=
    fun s₁ hpc₁ hl₁ => .main (by simp [mainStep, hpc₁, hl₁]; rfl)
      (.main (by rfl) (exits_joinWorkers (by rfl) (by rfl)))
  have hexits : ∀ s₁ : Sys, s₁.pc = .joinLoop → s₁.argsStop = true → s₁.loopDone = false →
      s₁.body = false → Exits tot s₁ := fun s₁ hpc₁ ha₁ hl₁ hb₁ =>
    .head (.loopExit s₁ hl₁ hb₁ (by simp [ha₁])) (hjoined _ hpc₁ rfl)
  cases hl : s.loopDone
  · cases hb : s.body
    · exact hexits s hpc ha hl hb
    · exact .head (.loopNext s hl hb) (hexits _ hpc ha hl rfl)
  · exact hjoined s hpc hl

/-- The wait loop of `status_line` ends, and `main` goes on to return. -/
theorem exits_wait : ∀ (n : Nat) (s : Sys), s.wait = n → s.pc = .wait → Exits tot s
  | n, s, hw, hpc => by
    by_cases hc : 0 < s.wait ∧ s.stop = false
    · exact .main (by simp [mainStep, hpc, hc]; rfl) (exits_wait (n - 1) _ (by simp [hw]) (by rfl))
    · exact .main (by simp [mainStep, hpc, hc]; rfl) (.main (by rfl) (exits_joinLoop (by rfl) (by rfl)))
termination_by n => n
decreasing_by omega

/-- `args->stop = stop = false`, then the wait loop, and `main` goes on to return. -/
theorem exits_clear {s : Sys} (hpc : s.pc = .clear) : Exits tot s :=
  .main (by simp [mainStep, hpc]; rfl) (exits_wait _ _ rfl (by rfl))

/-- Once `status_line` has left its progress loop, `main` returns. -/
theorem exits_after_progress {s : Sys} (hi : Inv tot s) (hpc : s.pc.inProgress = false) :
    Exits tot s := by
  cases hpc' : s.pc with
  | start | probe | check => simp [hpc', MainPc.inProgress] at hpc
  | setStop => exact .main (by simp [mainStep, hpc']; rfl) (exits_clear (by rfl))
  | clear => exact exits_clear hpc'
  | wait => exact exits_wait _ s rfl hpc'
  | finish => exact .main (by simp [mainStep, hpc']; rfl) (exits_joinLoop (by rfl) (by rfl))
  | joinLoop => exact exits_joinLoop hpc' (hi.argsStop (by simp [hpc', MainPc.afterStatus]))
  | setDone => exact .main (by simp [mainStep, hpc']; rfl) (exits_joinWorkers (by rfl) (by rfl))
  | joinWorkers => exact exits_joinWorkers hpc' (hi.done.mpr (.inl hpc'))
  | exit => exact .exit hpc'

/-- `main` leaves the progress loop once `args->pkt_probe` equals `args->pkt_count`, and
goes on to return. -/
theorem exits_polled {s : Sys} (hpc : s.pc.inProgress = true) (hstop : s.stop = false)
    (hp : s.probe = tot) : Exits tot s := by
  have hprobe : ∀ s₁ : Sys, s₁.pc = .probe → s₁.probe = tot → Exits tot s₁ :=
    fun s₁ h₁ hp₁ => .main (by simp [mainStep, h₁, hp₁]; rfl) (exits_clear (by rfl))
  cases hpc' : s.pc <;> simp only [MainPc.inProgress, hpc', Bool.false_eq_true] at hpc
  · exact .main (by simp [mainStep, hpc']; rfl) (hprobe _ (by rfl) (by exact hp))
  · exact hprobe s hpc' hp
  · exact .main (by simp [mainStep, hpc', hstop]; rfl) (hprobe _ (by rfl) (by exact hp))

/-- The transmitter counts queued probes one at a time. -/
theorem sender_counts {s : Sys} (hs : s.sendDone = false) : ∀ k, s.probe + k ≤ s.queued →
    Relation.ReflTransGen (Work tot) s { s with probe := s.probe + k }
  | 0, _ => .refl
  | k + 1, hk => .tail (sender_counts hs k (by omega)) (.sendProbe _ hs (by dsimp only; omega))

/-- In the body of an iteration `script_loop` can enqueue any number of probes. -/
theorem loop_enqueues {s : Sys} (hl : s.loopDone = false) (hb : s.body = true) :
    ∀ k, Relation.ReflTransGen (Work tot) s { s with queued := s.queued + k }
  | 0 => .refl
  | k + 1 => .tail (loop_enqueues hl hb k) (.loopEnqueue _ hl hb)

/-- With `args->pkt_count` probes queued and `args->pkt_probe` not past it, the
transmitter counts up to `args->pkt_count`, and `main` leaves the progress loop. -/
theorem exits_queued {s : Sys} (hpc : s.pc.inProgress = true) (hstop : s.stop = false)
    (hs : s.sendDone = false) (hp : s.probe ≤ tot) (hq : tot ≤ s.queued) : Exits tot s :=
  .run (sender_counts hs (tot - s.probe) (by omega)) (exits_polled hpc hstop (by dsimp only; omega))

/-- With the generator able to run one more iteration, that iteration queues
`args->pkt_count` probes. -/
theorem exits_generator {s : Sys} (hpc : s.pc.inProgress = true) (hstop : s.stop = false)
    (hs : s.sendDone = false) (ha : s.argsStop = false) (hp : s.probe ≤ tot)
    (hl : s.loopDone = false) (hi : s.i < tot) : Exits tot s := by
  have hbody : ∀ s₁ : Sys, s₁.pc.inProgress = true → s₁.stop = false → s₁.sendDone = false →
      s₁.probe ≤ tot → s₁.loopDone = false → s₁.body = true → Exits tot s₁ :=
    fun _ h₁ h₂ h₃ h₄ h₅ h₆ =>
      .run (loop_enqueues h₅ h₆ tot) (exits_queued h₁ h₂ h₃ h₄ (by dsimp only; omega))
  cases hb : s.body
  · exact .head (.loopTest s hl hb hi ha) (hbody _ hpc hstop hs hp hl rfl)
  · exact hbody s hpc hstop hs hp hl hb

/-- `main` cannot return while `status_line` polls with no signal pending and a property
holds that the threads keep and that keeps `args->pkt_probe` off `args->pkt_count`. -/
theorem not_exits_of_polls {P : Sys → Prop} (hP : ∀ s s', P s → Work tot s s' → P s')
    (hne : ∀ s, P s → s.probe ≠ tot) {s : Sys} (hpc : s.pc.inProgress = true)
    (hstop : s.stop = false) (h : P s) : ¬Exits tot s := by
  rintro ⟨s', hrun, hexit⟩
  obtain ⟨-, -, hpc'⟩ := polls_forever hP hne hrun hpc hstop h
  rcases hpc' with h' | h' | h' <;> rw [hexit] at h'
  · cases h'
  · cases h'
  · rw [← h'] at hpc; cases hpc

/-- Whether a scan can still end without a signal. From every state that a run with no
signal reaches from the call of `status_line`, some run with no signal ends with `main`
returning exactly when `status_line` has left its progress loop, or `args->pkt_probe` has
not passed `args->pkt_count` and the transmitter can still bring it there: `args->pkt_count`
probes are queued, or the generator, which has not returned, can still run an iteration
that queues them. -/
theorem exit_reachable (tot wait : Nat) (s : Sys)
    (hr : Relation.ReflTransGen (Work tot) (Sys.init wait) s) :
    (∃ s', Relation.ReflTransGen (Work tot) s s' ∧ s'.pc = .exit) ↔
      s.pc.inProgress = false ∨
        s.probe ≤ tot ∧ (tot ≤ s.queued ∨ s.loopDone = false ∧ s.i < tot) := by
  have hi := (Reach.of_work hr).inv
  have hn := NoSignal.run hr
  cases hin : s.pc.inProgress
  · exact iff_of_true (exits_after_progress hi hin) (.inl rfl)
  have hs : s.sendDone = false := Bool.eq_false_iff.mpr fun h => by
    rcases hi.done.mp (hi.sendDone h) with h' | h' <;> simp [h', MainPc.inProgress] at hin
  refine ⟨fun hex => .inr ⟨?_, ?_⟩, ?_⟩
  · by_contra hgt
    exact not_exits_of_polls (P := fun s => tot < s.probe)
      (fun _ _ h hw => h.trans_le hw.probe_le) (fun _ h => h.ne') hin hn.stop (not_le.mp hgt) hex
  · by_contra hc
    push_neg at hc
    have hgen : s.loopDone = true ∨ s.body = false ∧ tot ≤ s.i := by
      cases hl : s.loopDone
      · have hti := hc.2 hl
        exact .inr ⟨Bool.eq_false_iff.mpr fun hb => absurd (hi.body hb).2 (by omega), hti⟩
      · exact .inl rfl
    exact not_exits_of_polls (P := Starved tot s.queued) (fun _ _ h hw => h.step hw)
      (fun _ ⟨_, hp, hlt, _⟩ => by omega) hin hn.stop ⟨rfl, hi.probe, hc.1, hgen⟩ hex
  · rintro (h | ⟨hp, hq | ⟨hl, hlt⟩⟩)
    · cases h
    · exact exits_queued hin hn.stop hs hp hq
    · exact exits_generator hin hn.stop hs
        (hn.argsStop.trans (MainPc.afterStatus_eq_false hin)) hp hl hlt

end Runs

/-- One tuple whose iteration has queued its probe before `main` first polls: a run with
no signal still ends with `main` returning. -/
theorem exit_reachable_queued :
    Relation.ReflTransGen (Work 1) (Sys.init 0) { Sys.init 0 with body := true, queued := 1 } ∧
      ∃ s', Relation.ReflTransGen (Work 1) { Sys.init 0 with body := true, queued := 1 } s' ∧
        s'.pc = .exit :=
  have h : Relation.ReflTransGen (Work 1) (Sys.init 0)
      { Sys.init 0 with body := true, queued := 1 } :=
    .tail (.single (.loopTest _ rfl rfl (by decide) rfl)) (.loopEnqueue _ rfl rfl)
  ⟨h, (exit_reachable 1 0 _ h).mpr (.inr ⟨by decide, .inl (by decide)⟩)⟩

end Hype.Pktizr

import Northstar.Runtime.Model

/-!
# The launcher's processes

`island/mod.rs`: the checkpoint handshake of `IslandProcess::start`, the wait task that reaps a
child and decodes its exit status, and `IslandProcess::stop`.

The checkpoint pipes (`pipe.rs`) are not among the sources, so what the parent's write and read
on them return is the input of `IslandProcess.start`, one value for each behaviour of the child.
`Checkpoint::send` and `Checkpoint::wait` panic on every outcome but the expected one, so
`IslandProcess::start` returns `Ok` after the child answered `Started` and panics otherwise; it
never returns `Err` (`island_start_panics`). `State::start` calls it after the clone (`launch`).

The wait task loops over the reports of `waitpid` until the child exited or was killed, and
decodes an exit code of at least 128 with `Signal::try_from`. Its `expect` panics for a number
that names no signal: exit codes 128 and 160 to 255. The panic ends the blocking task, so
`exit_status` resolves to the join error and no `Exit` is sent (`wait_decodes`).

`IslandProcess::stop` is a state machine whose own steps interleave with the child's exit, the
wait task's report and the passing of time. When the timeout runs out before the child has
exited, and the child is reaped before the `SIGKILL`, the kill finds the process group gone and
`stop` returns `Err`, on which `ProcessContext::terminate` panics (`stop_kill_finds_group_gone`).
The log forwarders `stop` stops afterwards are not modelled; their `stop` is taken to succeed.
The system model takes this machine's steps as the engine's (`System.stopping_step`), and a
stuck system is stuck in it (`System.Stuck.stop_blocked`).
-/

namespace Northstar

/-! ### The checkpoint -/

/-- `Checkpoint::send`: `self.1.send(c).expect("Pipe error")`, on the outcome of the write. -/
def Checkpoint.send (written : Except String Unit) : Except Fault Unit :=
  match written with
  | .ok () => .ok ()
  | .error _ => .error (.panic "Pipe error")

/-- `Checkpoint::wait`, on the outcome of the read. -/
def Checkpoint.wait (expected : Start) (received : Except String Start) : Except Fault Unit :=
  match received with
  | .ok value =>
    if value = expected then .ok ()
    else .error (.panic ("Invalid value " ++ value.name ++ ". Expected " ++ expected.name))
  | .error e => .error (.panic ("Pipe error: " ++ e))

/-- `IslandProcess::start` on a created process: send `Start`, wait for `Started`, and return the
started process. -/
def IslandProcess.start (written : Except String Unit) (received : Except String Start) :
    Except Fault Unit :=
  match Checkpoint.send written with
  | .error f => .error f
  | .ok () => Checkpoint.wait .started received

/-- `IslandProcess::start` fails only by panicking. -/
theorem IslandProcess.start_error {written : Except String Unit} {received : Except String Start} {f : Fault}
    (h : IslandProcess.start written received = .error f) : ∃ message, f = .panic message := by
  rcases written with e | ⟨⟩
  · cases h; exact ⟨_, rfl⟩
  · rcases received with e | value
    · cases h; exact ⟨_, rfl⟩
    · simp only [IslandProcess.start, Checkpoint.send, Checkpoint.wait] at h
      split at h
      · cases h
      · cases h; exact ⟨_, rfl⟩

/-- Whatever the child does at the checkpoint, `start` returns `Ok` exactly when the write went
through and the child's first message is `Started`, and panics otherwise. -/
theorem island_start_panics (written : Except String Unit) (received : Except String Start) :
    (IslandProcess.start written received = .ok () ↔ written = .ok () ∧ received = .ok .started) ∧
      (IslandProcess.start written received = .ok () ∨
        ∃ message, IslandProcess.start written received = .error (.panic message)) := by
  rcases written with e | ⟨⟩
  · exact ⟨by simp [IslandProcess.start, Checkpoint.send], .inr ⟨_, rfl⟩⟩
  · rcases received with e | value
    · exact ⟨by simp [IslandProcess.start, Checkpoint.send, Checkpoint.wait], .inr ⟨_, rfl⟩⟩
    · by_cases hv : value = .started
      · subst hv
        exact ⟨by simp [IslandProcess.start, Checkpoint.send, Checkpoint.wait], .inl rfl⟩
      · simp only [IslandProcess.start, Checkpoint.send, Checkpoint.wait, hv, if_false]
        exact ⟨by simp [hv], .inr ⟨_, rfl⟩⟩

/-- The child exits before it writes anything: the read meets the end of the pipe, and `start`
panics. -/
theorem island_start_panics_closed :
    ∃ message, IslandProcess.start (.ok ()) (.error "unexpected end of file") = .error (.panic message) :=
  (island_start_panics (.ok ()) (.error "unexpected end of file")).2.resolve_left (by decide)

/-! ### The wait task -/

/-- What `waitpid` reports. -/
inductive WaitStatus
  | exited (pid : Pid) (code : Int)
  | signaled (pid : Pid) (signal : Nat) (dump : Bool)
  | stopped (pid : Pid) (signal : Nat)
  | ptraceEvent (pid : Pid) (signal : Nat) (event : Int)
  | ptraceSyscall (pid : Pid)
  | continued (pid : Pid)
  | stillAlive
deriving DecidableEq, Repr

/-- `Errno::EINTR` -/
def eintr : Nat := 4

/-- `SIGNAL_OFFSET` -/
def signalOffset : Int := 128

/-- `Signal::try_from` of `nix` on Linux: the signals numbered 1 to 31. -/
def Signal.tryFrom (n : Int) : Option Nat :=
  if 1 ≤ n ∧ n ≤ 31 then some n.toNat else none

/-- The `waitpid` loop of `wait`, over the results of its calls (a report or an errno): the status
the first exit or kill gives, or the message of the panic that ends the task. `none` while the
results last without either: the task is still in `waitpid`. -/
def waitLoop : List (Except Nat WaitStatus) → Option (Except String ExitStatus)
  | [] => none
  | .ok (.exited _ code) :: _ =>
    some (if signalOffset ≤ code then
      match Signal.tryFrom (code - signalOffset) with
      | some signal => .ok (.signaled signal)
      | none => .error "Invalid signal offset"
    else .ok (.exit code))
  | .ok (.signaled _ signal _) :: _ => some (.ok (.signaled signal))
  | .ok _ :: results => waitLoop results
  | .error errno :: results =>
    if errno = eintr then waitLoop results else some (.error "Failed to waitpid")

/-- What the task ends with: the value `exit_status` resolves to and the `Exit` it sends. A
panic of the blocking task comes out of `map_err` as the join error, and sends nothing. -/
def waitOutcome (container : Container) (results : List (Except Nat WaitStatus)) :
    Option (Except Error ExitStatus × Option Event) :=
  (waitLoop results).map fun
    | .ok status => (.ok status, some (.exit container status))
    | .error _ => (.error (.io "Task join error"), none)

/-- A result the loop goes on after: a stop, continue or ptrace report, `StillAlive`, or `EINTR`. -/
def continues : Except Nat WaitStatus → Bool
  | .ok (.exited _ _) => false
  | .ok (.signaled _ _ _) => false
  | .ok _ => true
  | .error errno => errno = eintr

theorem waitLoop_cons {r : Except Nat WaitStatus} (hr : continues r = true) (results : List (Except Nat WaitStatus)) :
    waitLoop (r :: results) = waitLoop results := by
  rcases r with errno | (_ | _ | _ | _ | _ | _ | _)
  · exact if_pos (of_decide_eq_true hr)
  all_goals first | rfl | cases hr

theorem waitLoop_continues {pre : List (Except Nat WaitStatus)} (hpre : ∀ r ∈ pre, continues r = true)
    (results : List (Except Nat WaitStatus)) : waitLoop (pre ++ results) = waitLoop results := by
  induction pre with
  | nil => rfl
  | cons r pre ih =>
    rw [List.cons_append, waitLoop_cons (hpre r (List.mem_cons_self r pre)),
      ih fun r' h => hpre r' (List.mem_cons_of_mem r h)]

/-- For every run of reports the loop ignores, followed by the child's exit or kill: the status
decoded, as `exit_status` resolves and as `Exit` carries it; and for the codes from 128 that name
no signal, the join error and no `Exit`. -/
theorem wait_decodes (pre : List (Except Nat WaitStatus)) (hpre : ∀ r ∈ pre, continues r = true)
    (pid : Pid) (container : Container) :
    (∀ code, code < 128 → waitOutcome container (pre ++ [.ok (.exited pid code)]) =
      some (.ok (.exit code), some (.exit container (.exit code)))) ∧
    (∀ code, 129 ≤ code → code ≤ 159 → waitOutcome container (pre ++ [.ok (.exited pid code)]) =
      some (.ok (.signaled (code - 128).toNat), some (.exit container (.signaled (code - 128).toNat)))) ∧
    (∀ signal dump, waitOutcome container (pre ++ [.ok (.signaled pid signal dump)]) =
      some (.ok (.signaled signal), some (.exit container (.signaled signal)))) ∧
    ∀ code, code = 128 ∨ 160 ≤ code ∧ code ≤ 255 →
      waitOutcome container (pre ++ [.ok (.exited pid code)]) = some (.error (.io "Task join error"), none) := by
  simp only [waitOutcome, waitLoop_continues hpre]
  refine ⟨fun code hcode => ?_, fun code hlo hhi => ?_, fun signal dump => rfl, fun code hcode => ?_⟩
  · simp [waitLoop, signalOffset, show ¬ (128 ≤ code) by omega]
  · have hsignal : Signal.tryFrom (code - signalOffset) = some (code - 128).toNat :=
      if_pos (by simp only [signalOffset]; omega)
    simp [waitLoop, hsignal, show signalOffset ≤ code by simp only [signalOffset]; omega]
  · have hsignal : Signal.tryFrom (code - signalOffset) = none := if_neg (by simp only [signalOffset]; omega)
    simp [waitLoop, hsignal, show signalOffset ≤ code by simp only [signalOffset]; omega]

/-- `exit(-1)` in the container: exit code 255. -/
theorem wait_decodes_255 :
    waitOutcome ⟨"app", ⟨1, 0, 0⟩⟩ [.ok .stillAlive, .error eintr, .ok (.exited 7 255)] =
      some (.error (.io "Task join error"), none) :=
  (wait_decodes [.ok .stillAlive, .error eintr] (by decide) 7 ⟨"app", ⟨1, 0, 0⟩⟩).2.2.2 255 (by decide)

/-! ### Stopping -/

/-- A child's wait task (`island::wait`): in `waitpid` while the child lives, then retrying
`try_send(Event::Exit)` while the queue is full, then done with its exit status resolved. -/
inductive Waiter
  | waiting
  | sending (status : ExitStatus)
  | done (status : ExitStatus)
deriving DecidableEq, Repr

/-- The child's process group exists until `waitpid` has reaped the child. -/
def Waiter.groupExists : Waiter → Bool
  | .waiting => true
  | _ => false

/-- Where `IslandProcess::stop` is: before `SIGTERM`; in `time::timeout(timeout, &mut exit_status)`
for `elapsed` ticks; timed out, before `SIGKILL`; awaiting `exit_status` after `SIGKILL`, or after
`SIGTERM` failed with `ESRCH`; returned. -/
inductive StopPc
  | sigterm
  | awaiting (elapsed : Nat)
  | sigkill
  | awaitingKilled
  | awaitingExited
  | returned (result : Except Error ExitStatus)
deriving DecidableEq, Repr

/-- A `stop` of a started process with its timeout, and the child's wait task. -/
structure Stopping where
  timeout : Nat
  pc : StopPc
  waiter : Waiter
deriving DecidableEq, Repr

inductive StopAction
  /-- `IslandProcess::stop` takes its next step. -/
  | stop
  /-- Time passes. -/
  | tick
  /-- The child exits, and the wait task's `waitpid` reaps it with the status it decodes. -/
  | childExit (status : ExitStatus)
  /-- The wait task's `try_send` of `Exit` is done, and `exit_status` resolves. -/
  | report

/-- One action; `none` when it is not enabled. `kill` fails with `ESRCH` once the group is gone,
and `time::timeout` returns the status if it has resolved, and `Elapsed` once the timeout has
passed. -/
def Stopping.step (st : Stopping) : StopAction → Option Stopping
  | .stop =>
    match st.pc, st.waiter with
    | .sigterm, waiter => some { st with pc := if waiter.groupExists then .awaiting 0 else .awaitingExited }
    | .awaiting _, .done status => some { st with pc := .returned (.ok status) }
    | .awaiting elapsed, _ => if st.timeout ≤ elapsed then some { st with pc := .sigkill } else none
    | .sigkill, waiter =>
      some { st with
        pc := if waiter.groupExists then .awaitingKilled else .returned (.error (.os "Failed to kill process")) }
    | .awaitingKilled, .done status => some { st with pc := .returned (.ok status) }
    | .awaitingExited, .done status => some { st with pc := .returned (.ok status) }
    | _, _ => none
  | .tick =>
    match st.pc with
    | .awaiting elapsed => some { st with pc := .awaiting (elapsed + 1) }
    | _ => none
  | .childExit status =>
    match st.waiter with
    | .waiting => some { st with waiter := .sending status }
    | _ => none
  | .report =>
    match st.waiter with
    | .sending status => some { st with waiter := .done status }
    | _ => none

def Stopping.run : List StopAction → Stopping → Option Stopping
  | [] => some
  | a :: actions => fun st => (st.step a).bind (Stopping.run actions)

/-- `stop`'s own steps change only where it is. -/
theorem Stopping.step_stop {st st' : Stopping} (h : st.step .stop = some st') :
    st' = { st with pc := st'.pc } := by
  simp only [step] at h
  repeat' split at h
  all_goals first
    | (simp only [Option.some.injEq] at h; subst h; rfl)
    | cases h

/-- A stop that has not returned, in which neither `stop` nor the passing of time nor the child can
move, awaits the exit status with no timeout left, after `SIGKILL` or after `SIGTERM` found the
child gone, and the wait task holds a status it has not sent yet. -/
theorem Stopping.blocked {st : Stopping} (hstop : st.step .stop = none) (htick : st.step .tick = none)
    (hexit : ∀ status, st.step (.childExit status) = none) (hpc : ∀ r, st.pc ≠ .returned r) :
    (st.pc = .awaitingKilled ∨ st.pc = .awaitingExited) ∧ ∃ status, st.waiter = .sending status := by
  obtain ⟨timeout, pc, waiter⟩ := st
  cases waiter with
  | waiting => simp [step] at hexit
  | sending status => cases pc <;> simp_all [step]
  | done status => cases pc <;> simp_all [step]

/-- `ProcessContext::terminate`: `process.stop(timeout).await.expect("Failed to terminate process")`;
the teardown after it is unwrapped by the source and taken to succeed. -/
def terminate : Except Error ExitStatus → Except Fault ExitStatus
  | .ok status => .ok status
  | .error _ => .error (.panic "Failed to terminate process")

/-- A returned `Ok` carries the status the wait task resolved. -/
def Stopping.Faithful (st : Stopping) : Prop :=
  ∀ status, st.pc = .returned (.ok status) → st.waiter = .done status

theorem Stopping.faithful_step {st st' : Stopping} {a : StopAction} (hst : st.Faithful)
    (h : st.step a = some st') : st'.Faithful := by
  intro status hpc
  cases a with
  | stop =>
    simp only [step] at h
    repeat' split at h
    all_goals first
      | (simp only [Option.some.injEq] at h; subst h; simp_all)
      | simp at h
  | tick =>
    simp only [step] at h
    split at h
    · simp only [Option.some.injEq] at h; subst h; cases hpc
    · cases h
  | childExit s | report =>
    simp only [step] at h
    split at h
    · rename_i hw
      simp only [Option.some.injEq] at h
      subst h
      rw [hst status hpc] at hw
      cases hw
    · cases h

theorem Stopping.faithful_run {st st' : Stopping} {actions : List StopAction} (hst : st.Faithful)
    (h : Stopping.run actions st = some st') : st'.Faithful := by
  induction actions generalizing st with
  | nil => cases h; exact hst
  | cons a actions ih =>
    simp only [Stopping.run, Option.bind_eq_some] at h
    obtain ⟨st₁, h₁, h⟩ := h
    exact ih (faithful_step hst h₁) h

theorem Stopping.run_append (actions actions' : List StopAction) (st : Stopping) :
    Stopping.run (actions ++ actions') st = (Stopping.run actions st).bind (Stopping.run actions') := by
  induction actions generalizing st with
  | nil => rfl
  | cons a actions ih =>
    simp only [List.cons_append, Stopping.run]
    cases st.step a <;> simp [ih]

theorem Stopping.run_ticks (timeout elapsed n : Nat) (waiter : Waiter) :
    Stopping.run (List.replicate n .tick) ⟨timeout, .awaiting elapsed, waiter⟩ =
      some ⟨timeout, .awaiting (elapsed + n), waiter⟩ := by
  induction n generalizing elapsed with
  | zero => rfl
  | succ n ih =>
    simp only [List.replicate_succ, Stopping.run, step, Option.some_bind, ih]
    rw [Nat.add_right_comm, Nat.add_assoc]

/-- From a started process, every `Ok` that `stop` returns carries the status the wait task
decoded; yet for every timeout, a child that is reaped between the timeout and the `SIGKILL` makes
the kill fail, `stop` return `Err`, and `ProcessContext::terminate` panic. -/
theorem stop_kill_finds_group_gone (timeout : Nat) (status : ExitStatus) :
    (∀ actions st, Stopping.run actions ⟨timeout, .sigterm, .waiting⟩ = some st →
      ∀ r, st.pc = .returned (.ok r) → st.waiter = .done r) ∧
    ∃ actions st, Stopping.run actions ⟨timeout, .sigterm, .waiting⟩ = some st ∧
      st.pc = .returned (.error (.os "Failed to kill process")) ∧
      terminate (.error (.os "Failed to kill process")) = .error (.panic "Failed to terminate process") := by
  refine ⟨fun actions st h => Stopping.faithful_run (fun _ h => by cases h) h,
    .stop :: (List.replicate timeout .tick ++ [.stop, .childExit status, .stop]),
    ⟨timeout, .returned (.error (.os "Failed to kill process")), .sending status⟩, ?_, rfl, rfl⟩
  simp only [Stopping.run, Stopping.step, Waiter.groupExists, if_true, Option.some_bind]
  rw [Stopping.run_append, Stopping.run_ticks]
  simp [Stopping.run, Stopping.step, Waiter.groupExists]

/-- With a timeout of zero, the timer has run out at once. -/
theorem stop_kill_finds_group_gone_zero :
    ∃ actions st, Stopping.run actions ⟨0, .sigterm, .waiting⟩ = some st ∧
      st.pc = .returned (.error (.os "Failed to kill process")) ∧
      terminate (.error (.os "Failed to kill process")) = .error (.panic "Failed to terminate process") :=
  (stop_kill_finds_group_gone 0 (.signaled 15)).2

end Northstar

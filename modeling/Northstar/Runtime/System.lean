import Northstar.Runtime.Invariants
import Northstar.Runtime.Island

/-!
# The runtime as a concurrent system

The engine is one party among several around one bounded queue. Client sessions put console
requests on it, the cgroup monitors `Oom` events, each child's wait task its `Exit`, and the
engine its own notifications and `Shutdown`. Only the engine takes events off it.

A state of the system is the engine's `State`, the queue, the effects of the event the engine is
handling that it has not performed yet, the children `Island::create` cloned with their wait
tasks, whether the engine loop ends once those effects are performed, and where the
`IslandProcess::stop` of the next effect is. The engine handles an event in one step, as `handle`
computes it, and then performs its effects in order, each a step that may block: a send needs
room in the queue, and a terminate runs `IslandProcess::stop` one step of `Stopping.step` at a
time, against the child's wait task, which resolves the exit status only after its own send of
`Exit` has succeeded.

The loop (`runtime/mod.rs`) is not among the sources. It ends after `Shutdown`, and after a
handler's `Err`, which `main.rs` turns into exit status 1. A panic ends the engine task: nothing
it has not performed yet is performed, and its state is gone; a child a handler cloned before its
panic is not followed, as no engine is left to stop it.

`step k` is one action of one party with the queue's capacity `k`, `none` when the action is not
enabled. A state is stuck when the loop has not ended and no action is enabled. Only the engine
changes the engine's state, and only by `handle`; so every engine state of a reachable system is
a reachable engine state (`System.Reachable.engine`), and the engine's invariants hold in it.
The stop of the next effect steps only as `Stopping.step` does (`stopping_step`), and a stuck
system waits in `stop` for an exit status with no timeout left, behind a wait task that cannot
send its `Exit` (`Stuck.stop_blocked`).
-/

namespace Northstar

/-- A child `Island::create` cloned for a container, whether a cgroup monitor watches it, and its
wait task. -/
structure Child where
  pid : Pid
  container : Container
  cgroups : Bool
  waiter : Waiter
deriving DecidableEq, Repr

/-- The child has not exited. -/
def Child.alive (child : Child) : Bool := child.waiter == .waiting

structure System where
  engine : State
  queue : List Event
  pending : List Effect
  children : List Child
  /-- The loop ends once `pending` is performed. -/
  exiting : Bool
  /-- Where the `IslandProcess::stop` of the next effect is, when that effect is a terminate. -/
  stopPc : StopPc

/-- The runtime started on the repositories: the engine of `State::new`, nothing queued. -/
def System.init (repositories : AList fun _ : RepositoryId => Repository) : System :=
  ⟨State.new repositories, [], [], [], false, .sigterm⟩

/-- The engine loop has ended: the receiver is dropped and the queue closed. -/
def System.closed (sys : System) : Bool := sys.exiting && sys.pending.isEmpty

inductive Action
  /-- A client session sends a console request. -/
  | request (request : ConsoleRequest)
  /-- The cgroup monitor of a live child reports that it ran out of memory. -/
  | oom (pid : Pid)
  /-- The engine takes the next event and handles it, the environment giving the outcomes of
  its calls outside the model. -/
  | dequeue (env : Env)
  /-- The engine performs its next effect, or takes the next step of the stop it is in. -/
  | perform
  /-- Time passes. -/
  | tick
  /-- A child exits; its wait task reaps it. -/
  | childExit (pid : Pid) (status : ExitStatus)
  /-- A wait task's `try_send` of `Exit` succeeds, or finds the queue closed. -/
  | report (pid : Pid)

namespace System

variable (k : Nat)

def child? (sys : System) (pid : Pid) : Option Child := sys.children.find? (·.pid = pid)

def setWaiter (sys : System) (pid : Pid) (waiter : Waiter) : System :=
  { sys with children := sys.children.map fun child => if child.pid = pid then { child with waiter } else child }

/-- `Island::create` hands out a pid no child has. -/
def fresh (sys : System) (env : Env) : Bool :=
  match env.create with
  | .ok pid => !sys.children.any (·.pid = pid)
  | .error _ => true

/-- Whether a cgroup monitor watches the child: `State::start` creates one, after `Debug::new`,
for a manifest with cgroups, and the process context records it. -/
def monitored (sys : System) (pid : Pid) (container : Container) : Bool :=
  (sys.engine.process container).any fun context => context.pid == pid && context.cgroups

/-- The loop ends after handling `Shutdown`. -/
def endsLoop : Event → Bool
  | .shutdown => true
  | _ => false

/-- The engine handles an event: on `Ok` or `Err` the state it reaches and the effects it had
are taken on; a panic ends the engine task with its state discarded and nothing left to
perform. -/
def handleEvent (sys : System) (event : Event) (queue : List Event) (env : Env) : System :=
  let s := sys.engine
  match handle event env s with
  | .ok () s' => { sys with engine := s', queue, pending := s'.effects.drop s.effects.length, exiting := endsLoop event }
  | .error (.error _) s' => { sys with engine := s', queue, pending := s'.effects.drop s.effects.length, exiting := true }
  | .error (.panic _) _ => { sys with queue, pending := [], exiting := true }

/-- `ProcessContext::terminate` after a step of `IslandProcess::stop`: still in `stop`, or
returned. On `Ok` the terminate is done; on `Err` its `expect` panics, which ends the engine task
with the effects after it never performed. -/
def stopped (sys : System) (pending : List Effect) : StopPc → System
  | .returned result =>
    match terminate result with
    | .ok _ => { sys with pending, stopPc := .sigterm }
    | .error _ => { sys with pending := [], exiting := true, stopPc := .sigterm }
  | pc => { sys with stopPc := pc }

def step (sys : System) : Action → Option System
  | .request request =>
    if !sys.closed && sys.queue.length < k then some { sys with queue := sys.queue ++ [.console request] }
    else none
  | .oom pid =>
    match sys.child? pid with
    | some child =>
      if child.alive && child.cgroups && !sys.closed && sys.queue.length < k then
        some { sys with queue := sys.queue ++ [.oom child.container] }
      else none
    | none => none
  | .dequeue env =>
    match sys.queue with
    | event :: queue =>
      if !sys.exiting && sys.pending.isEmpty && sys.fresh env then some (sys.handleEvent event queue env)
      else none
    | [] => none
  | .perform =>
    match sys.pending with
    | .send e :: pending =>
      if sys.queue.length < k then some { sys with queue := sys.queue ++ [e], pending } else none
    | .spawn pid container :: pending =>
      some { sys with children := sys.children ++ [⟨pid, container, sys.monitored pid container, .waiting⟩], pending }
    | .terminate pid timeout :: pending =>
      match sys.child? pid with
      | some child => (Stopping.step ⟨timeout, sys.stopPc, child.waiter⟩ .stop).map fun st => sys.stopped pending st.pc
      | none => none
    | [] => none
  | .tick =>
    match sys.stopPc with
    | .awaiting elapsed => some { sys with stopPc := .awaiting (elapsed + 1) }
    | _ => none
  | .childExit pid status =>
    match sys.child? pid with
    | some child => if child.alive then some (sys.setWaiter pid (.sending status)) else none
    | none => none
  | .report pid =>
    match sys.child? pid with
    | some ⟨_, container, _, .sending status⟩ =>
      if sys.closed then some (sys.setWaiter pid (.done status))
      else if sys.queue.length < k then
        some { sys.setWaiter pid (.done status) with queue := sys.queue ++ [.exit container status] }
      else none
    | _ => none

inductive Reachable : System → Prop
  | init (repositories : AList fun _ : RepositoryId => Repository) : Reachable (init repositories)
  | step {sys sys' : System} (a : Action) (hs : Reachable sys) (h : sys.step k a = some sys') :
      Reachable sys'

/-- The loop has not ended, and no party can act. -/
def Stuck (sys : System) : Prop := sys.closed = false ∧ ∀ a, sys.step k a = none

/-- The actions in order; `none` at the first that is not enabled. -/
def run : List Action → System → Option System
  | [] => some
  | a :: actions => fun sys => (sys.step k a).bind (run actions)

variable {k}

theorem Reachable.run {sys sys' : System} {actions : List Action} (hs : Reachable k sys)
    (h : System.run k actions sys = some sys') : Reachable k sys' := by
  induction actions generalizing sys with
  | nil => cases h; exact hs
  | cons a actions ih =>
    simp only [System.run, Option.bind_eq_some] at h
    obtain ⟨sys₁, h₁, h⟩ := h
    exact ih (.step a hs h₁) h

/-! ### What each action does -/

variable {sys sys' : System}

@[simp] theorem engine_stopped (pending : List Effect) (pc : StopPc) : (sys.stopped pending pc).engine = sys.engine := by
  unfold stopped; split <;> (try split) <;> rfl

@[simp] theorem queue_stopped (pending : List Effect) (pc : StopPc) : (sys.stopped pending pc).queue = sys.queue := by
  unfold stopped; split <;> (try split) <;> rfl

@[simp] theorem children_stopped (pending : List Effect) (pc : StopPc) :
    (sys.stopped pending pc).children = sys.children := by
  unfold stopped; split <;> (try split) <;> rfl

/-- A step of `stop` that has not returned only moves `stopPc`; a returned `Ok` takes the
terminate off, and an `Err` drops every pending effect and ends the loop. -/
theorem stopped_cases (sys : System) (pending : List Effect) (pc : StopPc) :
    (sys.stopped pending pc = { sys with stopPc := pc } ∧ ∀ r, pc ≠ .returned r) ∨
    (∃ status, pc = .returned (.ok status) ∧ sys.stopped pending pc = { sys with pending, stopPc := .sigterm }) ∨
    ∃ e, pc = .returned (.error e) ∧ sys.stopped pending pc = { sys with pending := [], exiting := true, stopPc := .sigterm } := by
  cases pc with
  | returned result => cases result <;> simp [stopped, terminate]
  | _ => simp [stopped]

/-- The engine takes an event only with nothing pending, and handles it. -/
theorem dequeue_cases {env : Env} (hstep : sys.step k (.dequeue env) = some sys') :
    sys.exiting = false ∧ sys.pending = [] ∧ sys.fresh env = true ∧
      ∃ event queue, sys.queue = event :: queue ∧ sys' = sys.handleEvent event queue env := by
  simp only [System.step] at hstep
  split at hstep
  · split at hstep
    · rename_i event queue hqueue hguard
      cases hstep
      simp only [Bool.and_eq_true, Bool.not_eq_true', List.isEmpty_iff] at hguard
      exact ⟨hguard.1.1, hguard.1.2, hguard.2, event, queue, hqueue, rfl⟩
    · cases hstep
  · cases hstep

/-- The engine's next effect: a send takes room in the queue, a spawn adds its child, and a
terminate takes a step of `stop` against the child's wait task. -/
theorem perform_cases (hstep : sys.step k .perform = some sys') :
    (∃ e rest, sys.pending = .send e :: rest ∧ sys.queue.length < k ∧
      sys' = { sys with queue := sys.queue ++ [e], pending := rest }) ∨
    (∃ pid c rest, sys.pending = .spawn pid c :: rest ∧
      sys' = { sys with children := sys.children ++ [⟨pid, c, sys.monitored pid c, .waiting⟩], pending := rest }) ∨
    ∃ pid timeout rest child st, sys.pending = .terminate pid timeout :: rest ∧ sys.child? pid = some child ∧
      Stopping.step ⟨timeout, sys.stopPc, child.waiter⟩ .stop = some st ∧ sys' = sys.stopped rest st.pc := by
  simp only [System.step] at hstep
  split at hstep
  · split at hstep
    · cases hstep; exact .inl ⟨_, _, ‹_›, ‹_›, rfl⟩
    · cases hstep
  · cases hstep; exact .inr (.inl ⟨_, _, _, ‹_›, rfl⟩)
  · split at hstep
    · obtain ⟨st, hst, rfl⟩ := Option.map_eq_some'.1 hstep
      exact .inr (.inr ⟨_, _, _, _, st, ‹_›, ‹_›, hst, rfl⟩)
    · cases hstep
  · cases hstep

theorem tick_cases (hstep : sys.step k .tick = some sys') :
    ∃ elapsed, sys.stopPc = .awaiting elapsed ∧ sys' = { sys with stopPc := .awaiting (elapsed + 1) } := by
  simp only [System.step] at hstep
  split at hstep
  · cases hstep; exact ⟨_, ‹_›, rfl⟩
  · cases hstep

theorem childExit_cases {pid : Pid} {status : ExitStatus} (hstep : sys.step k (.childExit pid status) = some sys') :
    ∃ child, sys.child? pid = some child ∧ child.waiter = .waiting ∧ sys' = sys.setWaiter pid (.sending status) := by
  simp only [System.step] at hstep
  split at hstep
  · rename_i child hchild
    split at hstep
    · cases hstep; exact ⟨child, hchild, by simpa [Child.alive] using ‹child.alive = true›, rfl⟩
    · cases hstep
  · cases hstep

theorem report_cases {pid : Pid} (hstep : sys.step k (.report pid) = some sys') :
    ∃ child status, sys.child? pid = some child ∧ child.waiter = .sending status ∧
      (sys' = sys.setWaiter pid (.done status) ∧ sys.closed = true ∨
        sys' = { sys.setWaiter pid (.done status) with queue := sys.queue ++ [.exit child.container status] } ∧
          sys.closed = false ∧ sys.queue.length < k) := by
  simp only [System.step] at hstep
  split at hstep
  · rename_i pid' container cgroups status hchild
    refine ⟨_, status, hchild, rfl, ?_⟩
    split at hstep
    · cases hstep; exact .inl ⟨rfl, ‹_›⟩
    · split at hstep
      · cases hstep; exact .inr ⟨rfl, by simpa using ‹¬sys.closed = true›, ‹_›⟩
      · cases hstep
  · cases hstep

/-- Sessions and cgroup monitors only add to the queue. -/
theorem enqueue_cases {a : Action} (hstep : sys.step k a = some sys') (ha : (∃ r, a = .request r) ∨ ∃ pid, a = .oom pid) :
    sys.closed = false ∧ sys.queue.length < k ∧ ∃ e, sys' = { sys with queue := sys.queue ++ [e] } ∧
      ∀ c status, e ≠ .exit c status := by
  rcases ha with ⟨r, rfl⟩ | ⟨pid, rfl⟩ <;> simp only [System.step] at hstep
  · split at hstep
    · rename_i hguard
      cases hstep
      simp only [Bool.and_eq_true, Bool.not_eq_true', decide_eq_true_eq] at hguard
      exact ⟨hguard.1, hguard.2, _, rfl, fun _ _ => nofun⟩
    · cases hstep
  · split at hstep
    · split at hstep
      · rename_i hguard
        cases hstep
        simp only [Bool.and_eq_true, Bool.not_eq_true', decide_eq_true_eq] at hguard
        exact ⟨hguard.1.2, hguard.2, _, rfl, fun _ _ => nofun⟩
      · cases hstep
    · cases hstep

/-! ### The engine's part -/

@[simp] theorem queue_handleEvent (event : Event) (queue : List Event) (env : Env) :
    (sys.handleEvent event queue env).queue = queue := by
  unfold handleEvent; dsimp only; split <;> rfl

@[simp] theorem children_handleEvent (event : Event) (queue : List Event) (env : Env) :
    (sys.handleEvent event queue env).children = sys.children := by
  unfold handleEvent; dsimp only; split <;> rfl

@[simp] theorem stopPc_handleEvent (event : Event) (queue : List Event) (env : Env) :
    (sys.handleEvent event queue env).stopPc = sys.stopPc := by
  unfold handleEvent; dsimp only; split <;> rfl

/-- The engine takes on the state `handle` reaches with the effects it had, or it panics and is
left as it was, with nothing to perform. -/
theorem handleEvent_cases (sys : System) (event : Event) (queue : List Event) (env : Env) :
    next (handle event env sys.engine) = some (sys.handleEvent event queue env).engine ∧
      (sys.handleEvent event queue env).pending =
        (sys.handleEvent event queue env).engine.effects.drop sys.engine.effects.length ∨
    (sys.handleEvent event queue env).engine = sys.engine ∧ (sys.handleEvent event queue env).pending = [] := by
  unfold handleEvent
  dsimp only
  split <;> rename_i hr <;> simp [hr, next]

/-- Only `dequeue` changes the engine's state, and only as `handle` does. -/
theorem step_engine {a : Action} (h : sys.step k a = some sys') :
    sys'.engine = sys.engine ∨ ∃ event env, next (handle event env sys.engine) = some sys'.engine := by
  cases a with
  | dequeue env =>
    obtain ⟨-, -, -, event, queue, -, rfl⟩ := dequeue_cases h
    exact (handleEvent_cases sys event queue env).elim (fun h => .inr ⟨event, env, h.1⟩) fun h => .inl h.1
  | perform =>
    left
    rcases perform_cases h with ⟨_, _, _, _, rfl⟩ | ⟨_, _, _, _, rfl⟩ | ⟨_, _, _, _, _, _, _, _, rfl⟩ <;> simp
  | tick => obtain ⟨_, _, rfl⟩ := tick_cases h; exact .inl rfl
  | childExit => obtain ⟨_, _, _, rfl⟩ := childExit_cases h; exact .inl rfl
  | report => obtain ⟨_, _, _, _, ⟨rfl, -⟩ | ⟨rfl, -⟩⟩ := report_cases h <;> exact .inl rfl
  | request r => obtain ⟨-, -, _, rfl, -⟩ := enqueue_cases h (.inl ⟨r, rfl⟩); exact .inl rfl
  | oom pid => obtain ⟨-, -, _, rfl, -⟩ := enqueue_cases h (.inr ⟨pid, rfl⟩); exact .inl rfl

/-- Every engine state of a reachable system is a reachable engine state. -/
theorem Reachable.engine (hs : Reachable k sys) : Northstar.Reachable (fun _ => True) sys.engine := by
  induction hs with
  | init repositories => exact .new repositories fun _ _ _ _ _ => trivial
  | step a _ h ih =>
    rcases step_engine h with heq | ⟨event, env, hnext⟩
    · exact heq ▸ ih
    · exact .step event env (installs_true event) ih hnext

/-! ### The stop in progress -/

/-- The stop of the next effect, when it is a terminate: its timeout, where `IslandProcess::stop`
is, and the wait task of the child it stops. -/
def stopping (sys : System) : Option Stopping :=
  match sys.pending with
  | .terminate pid timeout :: _ => (sys.child? pid).map fun child => ⟨timeout, sys.stopPc, child.waiter⟩
  | _ => none

theorem stopping_eq {st : Stopping} (h : sys.stopping = some st) :
    ∃ pid timeout rest child, sys.pending = .terminate pid timeout :: rest ∧ sys.child? pid = some child ∧
      st = ⟨timeout, sys.stopPc, child.waiter⟩ := by
  unfold stopping at h
  split at h
  · obtain ⟨child, hchild, rfl⟩ := Option.map_eq_some'.1 h
    exact ⟨_, _, _, child, ‹_›, hchild, rfl⟩
  · cases h

theorem stopping_stopPc (pc : StopPc) :
    { sys with stopPc := pc }.stopping = sys.stopping.map fun st => { st with pc } := by
  dsimp only [stopping]
  split <;> simp [Option.map_map, child?, Function.comp_def]

theorem child?_setWaiter (pid : Pid) (w : Waiter) :
    (sys.setWaiter pid w).child? pid = (sys.child? pid).map fun child => { child with waiter := w } := by
  dsimp only [child?, setWaiter]
  generalize sys.children = children
  induction children with
  | nil => rfl
  | cons child children ih => by_cases h : child.pid = pid <;> simp [h, ih]

theorem child?_setWaiter_ne {pid pid' : Pid} (hne : pid' ≠ pid) (w : Waiter) :
    (sys.setWaiter pid' w).child? pid = sys.child? pid := by
  dsimp only [child?, setWaiter]
  generalize sys.children = children
  induction children with
  | nil => rfl
  | cons child children ih =>
    by_cases h : child.pid = pid <;> by_cases h' : child.pid = pid' <;> simp_all

/-- A step of the child's wait task is the same step of the stop that waits for it. -/
theorem stopping_setWaiter {st : Stopping} (hst : sys.stopping = some st) {pid' : Pid} {w : Waiter}
    {child' : Child} (hchild' : sys.child? pid' = some child') :
    (sys.setWaiter pid' w).stopping = some st ∨
      child'.waiter = st.waiter ∧ (sys.setWaiter pid' w).stopping = some { st with waiter := w } := by
  obtain ⟨pid, timeout, rest, child, hpending, hchild, rfl⟩ := stopping_eq hst
  have hpending' : (sys.setWaiter pid' w).pending = .terminate pid timeout :: rest := hpending
  by_cases hne : pid' = pid
  · subst hne
    obtain rfl : child' = child := Option.some.inj (hchild'.symm.trans hchild)
    exact .inr ⟨rfl, by simp [stopping, hpending', child?_setWaiter, hchild]; rfl⟩
  · exact .inl (by simp [stopping, hpending', child?_setWaiter_ne hne, hchild]; rfl)

/-- The system moves the stop in progress only as `Stopping.step` does: the engine's perform is
`stop`'s step, a tick the passing of time, the child's exit and its wait task's report their
own; every other step leaves the stop as it is. A step that returns ends the stop. -/
theorem stopping_step {st : Stopping} {a : Action} (hst : sys.stopping = some st) (h : sys.step k a = some sys') :
    sys'.stopping = some st ∨
      ∃ b st', st.step b = some st' ∧ (sys'.stopping = some st' ∨ ∃ r, st'.pc = .returned r) := by
  cases a with
  | request r => obtain ⟨-, -, _, rfl, -⟩ := enqueue_cases h (.inl ⟨r, rfl⟩); exact .inl hst
  | oom pid => obtain ⟨-, -, _, rfl, -⟩ := enqueue_cases h (.inr ⟨pid, rfl⟩); exact .inl hst
  | dequeue env =>
    obtain ⟨pid, timeout, rest, child, hpending, -⟩ := stopping_eq hst
    simp [(dequeue_cases h).2.1] at hpending
  | perform =>
    obtain ⟨pid, timeout, rest, child, hpending, hchild, rfl⟩ := stopping_eq hst
    rcases perform_cases h with ⟨_, _, hp, -⟩ | ⟨_, _, _, hp, -⟩ | ⟨pid', timeout', rest', child', st₁, hp, hchild', hstep, rfl⟩
    · simp [hpending] at hp
    · simp [hpending] at hp
    · obtain ⟨⟨rfl, rfl⟩, rfl⟩ := by simpa [hpending] using hp
      obtain rfl : child' = child := Option.some.inj (hchild'.symm.trans hchild)
      refine .inr ⟨.stop, st₁, hstep, ?_⟩
      rcases stopped_cases sys _ st₁.pc with ⟨heq, -⟩ | ⟨status, hpc, -⟩ | ⟨e, hpc, -⟩
      · rw [heq, stopping_stopPc, hst, Stopping.step_stop hstep]
        exact .inl rfl
      · exact .inr ⟨_, hpc⟩
      · exact .inr ⟨_, hpc⟩
  | tick =>
    obtain ⟨elapsed, hpc, rfl⟩ := tick_cases h
    obtain ⟨pid, timeout, rest, child, -, -, rfl⟩ := stopping_eq hst
    refine .inr ⟨.tick, _, by simp [Stopping.step, hpc]; rfl, .inl ?_⟩
    rw [stopping_stopPc, hst]
    rfl
  | childExit pid' status =>
    obtain ⟨child', hchild', hw, rfl⟩ := childExit_cases h
    exact (stopping_setWaiter hst hchild').imp_right fun ⟨hw', h'⟩ =>
      ⟨.childExit status, _, by simp only [Stopping.step, ← hw', hw], .inl h'⟩
  | report pid' =>
    obtain ⟨child', status, hchild', hw, ⟨rfl, -⟩ | ⟨rfl, -⟩⟩ := report_cases h <;>
      exact (stopping_setWaiter hst hchild').imp_right fun ⟨hw', h'⟩ =>
        ⟨.report, _, by simp only [Stopping.step, ← hw', hw], .inl h'⟩

/-- `stop` is never left returned: a returned step ends the terminate. -/
theorem stopPc_step {a : Action} (h : sys.step k a = some sys') (hpc : ∀ r, sys.stopPc ≠ .returned r) :
    ∀ r, sys'.stopPc ≠ .returned r := by
  cases a with
  | request r => obtain ⟨-, -, _, rfl, -⟩ := enqueue_cases h (.inl ⟨r, rfl⟩); exact hpc
  | oom pid => obtain ⟨-, -, _, rfl, -⟩ := enqueue_cases h (.inr ⟨pid, rfl⟩); exact hpc
  | dequeue env =>
    obtain ⟨-, -, -, event, queue, -, rfl⟩ := dequeue_cases h
    simpa using hpc
  | perform =>
    rcases perform_cases h with ⟨_, _, -, -, rfl⟩ | ⟨_, _, _, -, rfl⟩ | ⟨_, _, rest, _, st, -, -, -, rfl⟩
    · exact hpc
    · exact hpc
    · rcases stopped_cases sys rest st.pc with ⟨heq, hst⟩ | ⟨_, -, heq⟩ | ⟨_, -, heq⟩ <;> rw [heq]
      · exact hst
      all_goals exact fun _ => nofun
  | tick => obtain ⟨_, _, rfl⟩ := tick_cases h; exact fun _ => nofun
  | childExit => obtain ⟨_, _, _, rfl⟩ := childExit_cases h; exact hpc
  | report => obtain ⟨_, _, _, _, ⟨rfl, -⟩ | ⟨rfl, -⟩⟩ := report_cases h <;> exact hpc

theorem Reachable.stopPc (hs : Reachable k sys) : ∀ r, sys.stopPc ≠ .returned r := by
  induction hs with
  | init => exact fun _ => nofun
  | step _ _ h ih => exact stopPc_step h ih

/-- A stuck system in a stop waits in `stop` for the exit status with no timeout left, after
`SIGKILL` or after `SIGTERM` found the child gone, while the child's wait task holds the status it
cannot send into the full queue: no step of the stop is left but the report. -/
theorem Stuck.stop_blocked {st : Stopping} (hs : Reachable k sys) (hstuck : sys.Stuck k) (hst : sys.stopping = some st) :
    (st.pc = .awaitingKilled ∨ st.pc = .awaitingExited) ∧ ∃ status, st.waiter = .sending status := by
  obtain ⟨pid, timeout, rest, child, hpending, hchild, rfl⟩ := stopping_eq hst
  refine Stopping.blocked ?_ ?_ (fun status => ?_) hs.stopPc
  · simpa [step, hpending, hchild] using hstuck.2 .perform
  · have htick := hstuck.2 .tick
    simp only [step] at htick
    split at htick <;> simp_all [Stopping.step]
  · have hexit := hstuck.2 (.childExit pid status)
    simp only [step, hchild, Child.alive] at hexit
    cases hw : child.waiter <;> simp_all [Stopping.step]

/-! ### Capacity -/

/-- An action enabled under one capacity is enabled, with the same effect, under a larger one. -/
theorem step_mono {k k' : Nat} (hk : k ≤ k') {sys sys' : System} {a : Action} (h : sys.step k a = some sys') :
    sys.step k' a = some sys' := by
  have hroom : sys.queue.length < k → sys.queue.length < k' := fun h => by omega
  cases a with
  | dequeue | childExit | tick => exact h
  | request =>
    simp only [step] at h ⊢
    split at h
    · rw [if_pos (by simp_all)]; exact h
    · cases h
  | oom pid =>
    simp only [step] at h ⊢
    split at h
    · split at h
      · rw [if_pos (by simp_all)]; exact h
      · cases h
    · cases h
  | perform =>
    simp only [step] at h ⊢
    split at h
    · split at h
      · rw [if_pos (hroom ‹_›)]; exact h
      · cases h
    all_goals exact h
  | report pid =>
    simp only [step] at h ⊢
    split at h
    · split at h
      · rw [if_pos ‹_›]; exact h
      · rw [if_neg ‹_›]
        split at h
        · rw [if_pos (hroom ‹_›)]; exact h
        · cases h
    · cases h

theorem run_append (actions actions' : List Action) (sys : System) :
    System.run k (actions ++ actions') sys = (System.run k actions sys).bind (System.run k actions') := by
  induction actions generalizing sys with
  | nil => rfl
  | cons a actions ih =>
    simp only [List.cons_append, System.run]
    cases sys.step k a <;> simp [ih]

theorem run_mono {k k' : Nat} (hk : k ≤ k') {actions : List Action} {sys sys' : System}
    (h : System.run k actions sys = some sys') : System.run k' actions sys = some sys' := by
  induction actions generalizing sys with
  | nil => exact h
  | cons a actions ih =>
    simp only [System.run, Option.bind_eq_some] at h ⊢
    obtain ⟨sys₁, h₁, h⟩ := h
    exact ⟨sys₁, step_mono hk h₁, ih h⟩

/-- Requests from sessions while the queue has room are queued in order. -/
theorem run_requests (request : ConsoleRequest) :
    ∀ (n : Nat) (sys : System), sys.closed = false → sys.queue.length + n ≤ k →
      System.run k (List.replicate n (.request request)) sys =
        some { sys with queue := sys.queue ++ List.replicate n (.console request) }
  | 0, _, _, _ => by simp [System.run]
  | n + 1, sys, hopen, hroom => by
    have hstep : sys.step k (.request request) = some { sys with queue := sys.queue ++ [.console request] } := by
      simp [step, hopen, show sys.queue.length < k by omega]
    simp only [List.replicate_succ, System.run, hstep, Option.some_bind]
    rw [run_requests request n { sys with queue := sys.queue ++ [.console request] } hopen (by simp; omega)]
    simp [List.replicate_succ']

theorem exists_of_any {α : Type} {o : Option α} {p : α → Bool} (h : o.any p = true) :
    ∃ x, o = some x ∧ p x = true := by
  cases o <;> simp_all

end System

end Northstar

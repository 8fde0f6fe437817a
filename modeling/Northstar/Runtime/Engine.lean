import Northstar.Runtime.State

/-!
# The engine loop

Everything reaches the engine as an event on its one inbound queue, and it handles the events one
at a time. `handle` is that dispatch, and `Reachable` the states it leads to from `State::new`.
An operation that returns `Err` leaves the engine in the state it reached; a panic ends it.

The loop around `handle` is in `runtime/mod.rs`, which is not among the sources. `main.rs` exits
with status 1 once the runtime resolves to an `Err`, so a handler's `Err` ends the loop, and the
system model (`System.handleEvent`) ends it there. `Reachable` goes on to the next event after an
`Err` all the same: it holds more states than the runtime reaches, every engine state of the
system among them (`System.Reachable.engine`), so an invariant proved over it holds in the runtime.

Which packages can ever be installed is a parameter: `Reachable admissible` only installs
packages satisfying `admissible`, and starts from repositories holding only such packages.
`fun _ => True` allows every package.
-/

namespace Northstar

/-- `State::new`: the configured repositories, no container mounted. -/
def State.new (repositories : AList fun _ : RepositoryId => Repository) : State :=
  ⟨repositories, ∅, [], []⟩

/-- Modelled from the spec: the engine loop of the runtime (runtime/mod.rs is not among the
sources). Console requests go to `console_request`, exits to `on_exit`, out-of-memory events to
`on_oom`, `Shutdown` to `shutdown`; a notification is passed on to the console's subscribers,
outside the engine. -/
def handle (event : Event) (env : Env) : Engine Unit := fun s =>
  match event with
  | .console request =>
    match consoleRequest request env s with
    | .ok _ s => .ok () s
    | .error e s => .error e s
  | .exit container status => onExit container status s
  | .oom container => onOom container s
  | .notification _ => .ok () s
  | .shutdown => shutdown s

/-- The state an operation leaves, unless it panicked. -/
def next {α : Type} : EStateM.Result Fault State α → Option State
  | .ok _ s => some s
  | .error (.error _) s => some s
  | .error (.panic _) _ => none

/-- The event installs only admissible packages. -/
def Event.Installs (admissible : Npk → Prop) : Event → Prop
  | .console (.install _ (.ok npk)) => admissible npk
  | _ => True

theorem installs_true (event : Event) : event.Installs fun _ => True := by
  unfold Event.Installs; split <;> trivial

/-- Every package in the repositories is admissible. -/
def State.Admissible (admissible : Npk → Prop) (s : State) : Prop :=
  ∀ id repository, s.repositories.lookup id = some repository → ∀ npk ∈ repository.npks, admissible npk

inductive Reachable (admissible : Npk → Prop) : State → Prop
  | new (repositories : AList fun _ : RepositoryId => Repository)
      (h : (State.new repositories).Admissible admissible) :
      Reachable admissible (State.new repositories)
  | step {s s' : State} (event : Event) (env : Env) (hevent : event.Installs admissible)
      (hs : Reachable admissible s) (hnext : next (handle event env s) = some s') :
      Reachable admissible s'

/-- An invariant holds in every reachable state once `State::new` establishes it and handling
any event preserves it. -/
theorem Reachable.induct_inv {admissible : Npk → Prop} (Inv : State → Prop)
    (hnew : ∀ repositories, (State.new repositories).Admissible admissible → Inv (State.new repositories))
    (hstep : ∀ s s' event env, event.Installs admissible → Reachable admissible s → Inv s →
      next (handle event env s) = some s' → Inv s')
    {s : State} (hs : Reachable admissible s) : Inv s := by
  induction hs with
  | new repositories h => exact hnew repositories h
  | step event env hevent hs hnext ih => exact hstep _ _ event env hevent hs ih hnext

/-- Handle the events in order, each under its environment; `none` once one panics. -/
def run : List (Event × Env) → State → Option State
  | [] => some
  | (event, env) :: events => fun s => (next (handle event env s)).bind (run events)

theorem Reachable.run {admissible : Npk → Prop} {events : List (Event × Env)} {s s' : State}
    (hs : Reachable admissible s) (hevents : ∀ p ∈ events, p.1.Installs admissible)
    (h : Northstar.run events s = some s') : Reachable admissible s' := by
  induction events generalizing s with
  | nil => cases h; exact hs
  | cons p events ih =>
    obtain ⟨event, env⟩ := p
    simp only [Northstar.run, Option.bind_eq_some] at h
    obtain ⟨s₁, h₁, h⟩ := h
    exact ih (.step event env (hevents _ (List.mem_cons_self _ _)) hs h₁)
      (fun p hp => hevents p (List.mem_cons_of_mem _ hp)) h

/-! ### A small deployment

An application `app` with a cgroup that mounts the resource `res`, in one repository without a
key, and an environment in which every call succeeds. The witnesses of the theorems run on these. -/

def res : Container := ⟨"res", ⟨1, 0, 0⟩⟩

def app : Container := ⟨"app", ⟨1, 0, 0⟩⟩

def resNpk : Npk := ⟨⟨"res", ⟨1, 0, 0⟩, none, [], false⟩⟩

def appNpk : Npk := ⟨⟨"app", ⟨1, 0, 0⟩, some "/app", [("/res", .resource "res" ⟨1, 0, 0⟩ "/")], true⟩⟩

def deployment : AList fun _ : RepositoryId => Repository :=
  AList.insert "default" ⟨none, [resNpk, appNpk]⟩ ∅

/-- Every call succeeds; `Island::create` returns the pid. -/
def succeeding (pid : Pid) : Env := ⟨fun _ => true, .ok pid, .ok (), .ok (), .ok .started, fun _ => .ok ()⟩

def request (request : Request) : Event := .console (.message (.request request))

end Northstar

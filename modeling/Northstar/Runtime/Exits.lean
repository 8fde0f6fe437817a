import Northstar.Runtime.Processes

/-!
# Exit reports and the stops that wait for them

Only the wait tasks put `Event::Exit` on the engine's queue: the engine sends its own
notifications and `Shutdown` (`State::notification`, `Request::Shutdown`) and nothing else, and
the one `try_send(Event::Exit)` is a wait task's, once `waitpid` has reaped its child. So every
`Exit` the engine takes off its queue was reported by the wait task of a child `Island::create`
cloned for that container, and that child has exited (`exits_reported`).

`State::stop` awaits `IslandProcess::stop`, which awaits the child's exit status. The engine
terminates only pids it spawned before (a process context is recorded only after its spawn), and
it performs its effects in order, so when a terminate is next, the child it names has been
cloned. The child's exit, its wait task's report and the engine's next steps then complete the
stop, with nothing from the sessions: the queue needs room for one `Exit`, and that is all the
stop waits for (`terminate_completes`; with the queue full it deadlocks, as `Races` shows). The
one exception is a stop that timed out on a child the wait task had already reaped: its `SIGKILL`
finds the group gone, and `ProcessContext::terminate` panics.

With room for one event per pending effect, the engine and the children alone perform every
pending effect, or end in that panic (`pending_drains`).
-/

namespace Northstar

open State

variable {s s' : State} {c : Container}

/-! ### What the engine's log records -/

/-- An event the engine sends into its own queue: a notification for the console's subscribers,
or `Shutdown`. -/
def Event.internal : Event → Bool
  | .notification _ | .shutdown => true
  | _ => false

theorem Event.ne_exit_of_internal {e : Event} (h : e.internal = true) (c : Container) (status : ExitStatus) :
    e ≠ .exit c status := by
  rintro rfl; cases h

/-- What an effect needs of the log before it: a send is of the engine's own events, and a
terminate names a pid the log spawned. -/
def Effect.Follows (log : List Effect) : Effect → Prop
  | .send e => e.internal = true
  | .spawn _ _ => True
  | .terminate pid _ => ∃ c, Effect.spawn pid c ∈ log

/-- The engine's effect log: it sent only its own events, and terminated only pids it had spawned
before. -/
structure Logged (log : List Effect) : Prop where
  sends : ∀ e, Effect.send e ∈ log → e.internal = true
  ordered : ∀ l₁ pid timeout l₂, log = l₁ ++ .terminate pid timeout :: l₂ → ∃ c, Effect.spawn pid c ∈ l₁

theorem logged_nil : Logged [] :=
  ⟨fun _ h => by simp at h, fun _ _ _ _ h => by simp at h⟩

theorem Logged.append {log : List Effect} {e : Effect} (h : Logged log) (he : e.Follows log) :
    Logged (log ++ [e]) := by
  refine ⟨fun e' he' => ?_, fun l₁ pid timeout l₂ hlog => ?_⟩
  · rcases List.mem_append.1 he' with he' | he'
    · exact h.sends e' he'
    · cases List.mem_singleton.1 he'
      exact he
  · rcases List.eq_nil_or_concat l₂ with rfl | ⟨L, b, rfl⟩
    · obtain ⟨rfl, he'⟩ := List.append_inj' hlog.symm rfl
      cases List.singleton_inj.1 he'
      exact he
    · rw [List.concat_eq_append, ← List.cons_append, ← List.append_assoc] at hlog
      exact h.ordered l₁ pid timeout L (List.append_inj' hlog.symm rfl).1.symm

theorem Logged.emit {e : Effect} (h : Logged s.effects) (he : e.Follows s.effects) : Logged (s.emit e).effects :=
  h.append he

/-- The invariant the log needs: every process context is launched, so `stop` terminates a
spawned pid. -/
def LogInvariant (s : State) : Prop := Launched s ∧ Logged s.effects

theorem logInvariant_stop (timeout : Nat) : Preserves LogInvariant (stop c timeout) := fun s s' h hstop => by
  rcases stop_state hstop with rfl | ⟨context, hcontext, rfl⟩
  · exact h
  · obtain ⟨mc, hmc, hp⟩ := Option.bind_eq_some.1 hcontext
    have hclear : Logged (s.setProcess c none).effects := by rw [effects_setProcess]; exact h.2
    refine ⟨launched_emit _ (launched_emit _ (launched_setProcess h.1 fun _ _ _ hp => nomatch hp)),
      (hclear.emit (e := .terminate context.pid timeout) ⟨c, ?_⟩).emit rfl⟩
    rw [effects_setProcess]
    exact (h.1 c mc context hmc hp).2

theorem logInvariant_onExit (status : ExitStatus) : Preserves LogInvariant (onExit c status) := fun s s' h hexit => by
  unfold onExit at hexit
  split at hexit <;> simp only [next_ok, Option.some.injEq] at hexit <;> subst hexit
  · exact h
  · have hclear : Logged (s.setProcess c none).effects := by rw [effects_setProcess]; exact h.2
    exact ⟨launched_emit _ (launched_setProcess h.1 fun _ _ _ hp => nomatch hp), hclear.emit rfl⟩

theorem logInvariant_umount : Preserves LogInvariant (umount c) := fun s s' h hu =>
  ⟨launched_umount s s' h.1 hu, by rw [effects_umount hu]; exact h.2⟩

theorem logInvariant_mounted {cs : List Container} {ok : Nat → Bool} (hm : Mounted cs ok s s') (h : LogInvariant s) :
    LogInvariant s' :=
  ⟨launched_mounted hm h.1, by rw [hm.effects]; exact h.2⟩

theorem logInvariant_start (env : Env) : Preserves LogInvariant (start c env) := fun s s' h hstart => by
  refine ⟨launched_start env s s' h.1 hstart, ?_⟩
  rcases start_state hstart with rfl | ⟨cs, -, hm⟩ | ⟨cs, s₁, -, hm, hl⟩
  · exact h.2
  · exact (logInvariant_mounted (mountAll_state hm) h).2
  · have h₁ := (logInvariant_mounted (mountAll_ok_mounted hm) h).2
    rcases launch_state hl with rfl | ⟨pid, -, -, -, rfl⟩ | hok
    · exact h₁
    · exact h₁.emit trivial
    · obtain ⟨mc, pid, -, -, -, rfl⟩ := launch_ok hok
      have hset : Logged ((s₁.emit (.spawn pid c)).setProcess c (some ⟨pid, mc.manifest.cgroups⟩)).effects := by
        rw [effects_setProcess]; exact h₁.emit trivial
      exact hset.emit rfl

theorem logInvariant_handle (event : Event) (env : Env) : Preserves LogInvariant (handle event env) :=
  preserves_handle_of (fun _ timeout => logInvariant_stop timeout) (fun _ => logInvariant_umount)
    (fun _ h => ⟨launched_emit _ h.1, h.2.emit rfl⟩)
    (fun _ _ _ _ h hm => logInvariant_mounted (mountRequest_state hm) h)
    (fun _ env => logInvariant_start env)
    (fun _ _ => preserves_uninstall logInvariant_umount fun _ =>
      Preserves.and_unmapped fun _ _ h hr => by rcases removeFrom_state hr with rfl | ⟨-, -, rfl⟩ <;> exact h)
    (fun _ status => logInvariant_onExit status)
    (fun _ => preserves_onOom_of (fun _ h => ⟨launched_emit _ h.1, h.2.emit rfl⟩) (logInvariant_stop 5))
    (fun _ _ _ _ _ h hi => by rcases install_state hi with rfl | ⟨-, -, -, -, -, rfl⟩ <;> exact h)
    (installs_true event) env

theorem logged_reachable {admissible : Npk → Prop} (hs : Reachable admissible s) : Logged s.effects :=
  (hs.induct_inv LogInvariant (fun _ _ => ⟨fun _ _ _ hl => by simp [State.new] at hl, logged_nil⟩)
    fun s s' event env _ _ h hnext => logInvariant_handle event env s s' h hnext).2

/-! ### The system: what the engine performed, what the queue holds -/

/-- An action of the engine or of a child: no session and no cgroup monitor. -/
def Action.internal : Action → Prop
  | .perform | .childExit _ _ | .report _ => True
  | _ => False

theorem Action.internal_cases {a : Action} (h : a.internal) :
    a = .perform ∨ (∃ pid status, a = .childExit pid status) ∨ ∃ pid, a = .report pid := by
  cases a with
  | perform => exact .inl rfl
  | childExit pid status => exact .inr (.inl ⟨pid, status, rfl⟩)
  | report pid => exact .inr (.inr ⟨pid, rfl⟩)
  | request | oom | dequeue | tick => exact h.elim

namespace System

variable {k : Nat} {sys sys' : System} {a : Action}

/-- Every `Exit` on the queue names a container a child was cloned for, and that child has
exited. -/
def Reported (sys : System) : Prop :=
  ∀ c status, Event.exit c status ∈ sys.queue → ∃ child ∈ sys.children, child.container = c ∧ child.alive = false

/-- Another party's event joins the queue. -/
theorem Reported.enqueue (h : Reported sys) {e : Event} (hqueue : sys'.queue = sys.queue ++ [e])
    (hchildren : sys'.children = sys.children) (he : ∀ c status, e ≠ .exit c status) : Reported sys' :=
  fun c status hmem => by
  rw [hqueue, List.mem_append, List.mem_singleton] at hmem
  rw [hchildren]
  exact h c status (hmem.resolve_right (he c status).symm)

/-- A wait task that has reaped its child stays past `waitpid`. -/
theorem exited_setWaiter {pid : Pid} {w : Waiter} (hw : w ≠ .waiting) {child : Child} (hchild : child ∈ sys.children)
    (hexited : child.alive = false ∨ child.pid = pid) :
    ∃ child' ∈ (sys.setWaiter pid w).children, child'.container = child.container ∧ child'.alive = false := by
  refine ⟨if child.pid = pid then { child with waiter := w } else child, List.mem_map_of_mem _ hchild,
    by split <;> rfl, ?_⟩
  split
  · simpa [Child.alive] using hw
  · exact hexited.resolve_right ‹_›

theorem Reported.setWaiter (h : Reported sys) {w : Waiter} (hw : w ≠ .waiting) (pid : Pid) :
    Reported (sys.setWaiter pid w) := fun c status hmem => by
  obtain ⟨child, hchild, rfl, halive⟩ := h c status hmem
  exact exited_setWaiter hw hchild (.inl halive)

theorem mem_of_child? {pid : Pid} {child : Child} (h : sys.child? pid = some child) :
    child ∈ sys.children ∧ child.pid = pid :=
  ⟨List.mem_of_find?_eq_some h, by simpa using List.find?_some h⟩

theorem Reported.step (h : Reported sys) (hsends : ∀ e, Effect.send e ∈ sys.pending → e.internal = true)
    (hstep : sys.step k a = some sys') : Reported sys' := by
  cases a with
  | request r =>
    obtain ⟨-, -, e, rfl, he⟩ := enqueue_cases hstep (.inl ⟨r, rfl⟩)
    exact h.enqueue rfl rfl he
  | oom pid =>
    obtain ⟨-, -, e, rfl, he⟩ := enqueue_cases hstep (.inr ⟨pid, rfl⟩)
    exact h.enqueue rfl rfl he
  | dequeue env =>
    obtain ⟨-, -, -, event, queue, hqueue, rfl⟩ := dequeue_cases hstep
    intro c status hmem
    rw [queue_handleEvent] at hmem
    simpa using h c status (by simp [hqueue, hmem])
  | perform =>
    rcases perform_cases hstep with ⟨e, rest, hpending, -, rfl⟩ | ⟨pid, c, rest, -, rfl⟩ | ⟨_, _, rest, _, st, -, -, -, rfl⟩
    · exact h.enqueue rfl rfl (Event.ne_exit_of_internal (hsends e (by simp [hpending])))
    · exact fun c status hmem => (h c status hmem).imp fun _ ⟨hchild, hc⟩ => ⟨List.mem_append_left _ hchild, hc⟩
    · exact fun c status hmem => by simpa using h c status (by simpa using hmem)
  | tick => obtain ⟨_, _, rfl⟩ := tick_cases hstep; exact h
  | childExit pid status =>
    obtain ⟨_, _, _, rfl⟩ := childExit_cases hstep
    exact h.setWaiter (by nofun) pid
  | report pid =>
    obtain ⟨child, status, hchild, -, ⟨rfl, -⟩ | ⟨rfl, -⟩⟩ := report_cases hstep
    · exact h.setWaiter (by nofun) _
    · intro c status' hmem'
      rcases List.mem_append.1 hmem' with hq | hnew
      · exact h.setWaiter (by nofun) _ c status' hq
      · obtain ⟨rfl, rfl⟩ := by simpa using hnew
        obtain ⟨hmem, rfl⟩ := mem_of_child? hchild
        exact exited_setWaiter (by nofun) hmem (.inr rfl)

/-- The pending effects send only the engine's own events. -/
theorem Performed.sends (h : Performed sys) (hlog : Logged sys.engine.effects) :
    ∀ e, Effect.send e ∈ sys.pending → e.internal = true := fun e he => by
  obtain ⟨done, heffects, -⟩ := h
  exact hlog.sends e (heffects ▸ List.mem_append_right _ he)

variable {pid : Pid} {timeout : Nat} {rest : List Effect} {child : Child} {status st : ExitStatus}

/-- The pid of the engine's next terminate is a cloned child's: the spawn before it in the log has
been performed. -/
theorem Reachable.child?_terminate (hs : Reachable k sys) (hpending : sys.pending = .terminate pid timeout :: rest) :
    ∃ child, sys.child? pid = some child := by
  obtain ⟨done, heffects, hdone⟩ := hs.performed
  rw [hpending] at heffects
  obtain ⟨c, hspawn⟩ := (logged_reachable hs.engine).ordered done pid timeout rest heffects
  obtain ⟨child, hchild, hpair⟩ := List.mem_map.1 (hdone pid c hspawn)
  exact Option.isSome_iff_exists.1 (List.find?_isSome.2 ⟨child, hchild, by simp [(Prod.mk.inj hpair).1]⟩)

theorem step_childExit (hchild : sys.child? pid = some child) (hwaiting : child.waiter = .waiting) (status : ExitStatus) :
    sys.step k (.childExit pid status) = some (sys.setWaiter pid (.sending status)) := by
  simp [System.step, hchild, Child.alive, hwaiting]

theorem step_report (hchild : sys.child? pid = some child) (hsending : child.waiter = .sending status)
    (hopen : sys.closed = false) (hroom : sys.queue.length < k) :
    sys.step k (.report pid) =
      some { sys.setWaiter pid (.done status) with queue := sys.queue ++ [.exit child.container status] } := by
  obtain ⟨p, container, cgroups, waiter⟩ := child
  simp only at hsending
  subst hsending
  simp [System.step, hchild, hopen, hroom]

/-- The engine's perform is the next step of the stop it is in. -/
theorem step_stop (hpending : sys.pending = .terminate pid timeout :: rest) (hchild : sys.child? pid = some child)
    (next : Stopping) (hnext : Stopping.step ⟨timeout, sys.stopPc, child.waiter⟩ .stop = some next) :
    sys.step k .perform = some (sys.stopped rest next.pc) := by
  simp [System.step, hpending, hchild, hnext]

/-- Once the wait task has resolved the status, the engine's performs return from the stop, unless
it is about to send `SIGKILL`, and take the terminate off. -/
theorem returns_done (hpending : sys.pending = .terminate pid timeout :: rest) (hchild : sys.child? pid = some child)
    (hdone : child.waiter = .done st) (hkill : sys.stopPc ≠ .sigkill) (hpc : ∀ r, sys.stopPc ≠ .returned r) :
    ∃ n, System.run k (List.replicate n .perform) sys = some { sys with pending := rest, stopPc := .sigterm } := by
  have hreturn : ∀ sys₀ : System, sys₀.pending = .terminate pid timeout :: rest → sys₀.child? pid = some child →
      sys₀.stopPc ≠ .sigterm → sys₀.stopPc ≠ .sigkill → (∀ r, sys₀.stopPc ≠ .returned r) →
      sys₀.step k .perform = some { sys₀ with pending := rest, stopPc := .sigterm } := fun sys₀ hp hc h₁ h₂ h₃ => by
    rw [step_stop hp hc ⟨timeout, .returned (.ok st), child.waiter⟩
      (by rw [hdone]; cases h : sys₀.stopPc <;> simp_all [Stopping.step])]
    rfl
  by_cases hterm : sys.stopPc = .sigterm
  · have h₁ : sys.step k .perform = some { sys with stopPc := .awaitingExited } := by
      rw [step_stop hpending hchild ⟨timeout, .awaitingExited, child.waiter⟩
        (by simp [Stopping.step, hterm, hdone, Waiter.groupExists])]
      rfl
    exact ⟨2, by simp only [List.replicate, System.run, h₁, Option.some_bind,
      hreturn { sys with stopPc := .awaitingExited } hpending hchild nofun nofun nofun]⟩
  · exact ⟨1, by simp only [List.replicate, System.run, hreturn sys hpending hchild hterm hkill hpc, Option.some_bind]⟩

/-- The child of `pid` and the engine, on their own, can take the terminate off the pending
effects, leaving the engine's state as it is and adding at most the child's `Exit` to the queue. -/
def Completable (k : Nat) (sys : System) (pid : Pid) (status : ExitStatus) (rest : List Effect) : Prop :=
  ∃ actions sys', (∀ a ∈ actions, a = .childExit pid status ∨ a = .report pid ∨ a = .perform) ∧
    System.run k actions sys = some sys' ∧ sys'.engine = sys.engine ∧ sys'.pending = rest ∧
      sys'.queue.length ≤ sys.queue.length + 1

/-- A step of the child or the engine that leaves the engine and the queue as they are. -/
theorem Completable.cons {sys₁ : System} (ha : a = .childExit pid status ∨ a = .report pid ∨ a = .perform)
    (hstep : sys.step k a = some sys₁) (hengine : sys₁.engine = sys.engine) (hqueue : sys₁.queue = sys.queue)
    (h : Completable k sys₁ pid status rest) : Completable k sys pid status rest := by
  obtain ⟨actions, sys', hactions, hrun, hengine', hrest, hlen⟩ := h
  exact ⟨a :: actions, sys', List.forall_mem_cons.2 ⟨ha, hactions⟩,
    by simp only [System.run, hstep, Option.some_bind, hrun], hengine'.trans hengine, hrest, hqueue ▸ hlen⟩

theorem completable_done (hpending : sys.pending = .terminate pid timeout :: rest)
    (hchild : sys.child? pid = some child) (hdone : child.waiter = .done st) (hkill : sys.stopPc ≠ .sigkill)
    (hpc : ∀ r, sys.stopPc ≠ .returned r) : Completable k sys pid status rest := by
  obtain ⟨n, hrun⟩ := returns_done hpending hchild hdone hkill hpc
  exact ⟨_, _, fun a ha => .inr (.inr (List.eq_of_mem_replicate ha)), hrun, rfl, rfl, Nat.le_succ _⟩

theorem completable_sending (hpending : sys.pending = .terminate pid timeout :: rest)
    (hchild : sys.child? pid = some child) (hsending : child.waiter = .sending st) (hroom : sys.queue.length < k)
    (hkill : sys.stopPc ≠ .sigkill) (hpc : ∀ r, sys.stopPc ≠ .returned r) : Completable k sys pid status rest := by
  have hreport := step_report hchild hsending (by simp [System.closed, hpending]) hroom
  have hdone : (sys.setWaiter pid (.done st)).child? pid = some { child with waiter := .done st } := by
    rw [child?_setWaiter, hchild]; rfl
  have hpending' : ({ sys.setWaiter pid (.done st) with queue := sys.queue ++ [.exit child.container st] } : System).pending =
      .terminate pid timeout :: rest := hpending
  obtain ⟨n, hrun⟩ := returns_done (k := k) hpending' hdone rfl hkill hpc
  have hrun' : System.run k (.report pid :: List.replicate n .perform) sys = some
      { sys.setWaiter pid (.done st) with
        queue := sys.queue ++ [.exit child.container st], pending := rest, stopPc := .sigterm } := by
    simp only [System.run, hreport, Option.some_bind, hrun]
  exact ⟨_, _, List.forall_mem_cons.2 ⟨.inr (.inl rfl), fun a ha => .inr (.inr (List.eq_of_mem_replicate ha))⟩,
    hrun', rfl, rfl, by simp⟩

theorem completable_waiting (hpending : sys.pending = .terminate pid timeout :: rest)
    (hchild : sys.child? pid = some child) (hwaiting : child.waiter = .waiting) (hroom : sys.queue.length < k)
    (hkill : sys.stopPc ≠ .sigkill) (hpc : ∀ r, sys.stopPc ≠ .returned r) : Completable k sys pid status rest := by
  have hsending : (sys.setWaiter pid (.sending status)).child? pid = some { child with waiter := .sending status } := by
    rw [child?_setWaiter, hchild]; rfl
  exact Completable.cons (.inl rfl) (step_childExit hchild hwaiting status) rfl rfl
    (completable_sending hpending hsending rfl hroom hkill hpc)

/-- From every reachable stop with room in the queue, the child and the engine complete the stop,
or the stop has timed out on a child already reaped: then the engine's `SIGKILL` finds the group
gone, and `ProcessContext::terminate` panics. -/
theorem Reachable.completable (hs : Reachable k sys) (hpending : sys.pending = .terminate pid timeout :: rest)
    (hroom : sys.queue.length < k) (status : ExitStatus) :
    Completable k sys pid status rest ∨
      sys.stopPc = .sigkill ∧ (sys.child? pid).any (fun child => !child.alive) ∧
        sys.step k .perform = some { sys with pending := [], exiting := true, stopPc := .sigterm } := by
  obtain ⟨child, hchild⟩ := hs.child?_terminate hpending
  have hpc := hs.stopPc
  by_cases hkill : sys.stopPc = .sigkill
  · cases hw : child.waiter with
    | waiting =>
      have hkilled : sys.step k .perform = some { sys with stopPc := .awaitingKilled } := by
        rw [step_stop hpending hchild ⟨timeout, .awaitingKilled, child.waiter⟩
          (by simp [Stopping.step, hkill, hw, Waiter.groupExists])]
        rfl
      exact .inl (Completable.cons (.inr (.inr rfl)) hkilled rfl rfl
        (completable_waiting (show ({ sys with stopPc := .awaitingKilled } : System).pending = _ from hpending)
          hchild hw hroom nofun nofun))
    | sending st | done st =>
      refine .inr ⟨hkill, by simp [hchild, Child.alive, hw], ?_⟩
      rw [step_stop hpending hchild ⟨timeout, .returned (.error (.os "Failed to kill process")), child.waiter⟩
        (by simp [Stopping.step, hkill, hw, Waiter.groupExists])]
      rfl
  · left
    cases hw : child.waiter with
    | waiting => exact completable_waiting hpending hchild hw hroom hkill hpc
    | sending st => exact completable_sending hpending hchild hw hroom hkill hpc
    | done st => exact completable_done hpending hchild hw hkill hpc

/-! ### Performing every pending effect -/

/-- The engine and the children, on their own, can perform every pending effect, leaving the
engine's state as it is. -/
def Drainable (k : Nat) (sys : System) : Prop :=
  ∃ actions sys', (∀ a ∈ actions, a.internal) ∧ System.run k actions sys = some sys' ∧ sys'.engine = sys.engine ∧
    sys'.pending = []

theorem Drainable.of_run {actions : List Action} {sys₁ : System} (hrun : System.run k actions sys = some sys₁)
    (hactions : ∀ a ∈ actions, a.internal) (h : Drainable k sys₁) (hengine : sys₁.engine = sys.engine) :
    Drainable k sys := by
  obtain ⟨actions', sys', hactions', hrun', hengine', hpending⟩ := h
  exact ⟨actions ++ actions', sys', fun a ha => (List.mem_append.1 ha).elim (hactions a) (hactions' a),
    by rw [run_append, hrun, Option.some_bind, hrun'], hengine'.trans hengine, hpending⟩

theorem Drainable.of_step {sys₁ : System} (hstep : sys.step k a = some sys₁) (ha : a.internal)
    (h : Drainable k sys₁) (hengine : sys₁.engine = sys.engine) : Drainable k sys := by
  have hrun : System.run k [a] sys = some sys₁ := by simp only [System.run, hstep, Option.some_bind]
  exact Drainable.of_run hrun (by simpa using ha) h hengine

/-- One event of room per pending effect lets the engine and the children perform them all: a send
takes its slot, a spawn none, a terminate at most the slot of its child's `Exit`; or a stop that
timed out on a reaped child panics, and nothing is left pending. -/
theorem Reachable.drainable : ∀ (n : Nat) (sys : System), Reachable k sys → sys.pending.length = n →
    sys.queue.length + n ≤ k → Drainable k sys
  | 0, sys, _, hlen, _ => ⟨[], sys, by simp, rfl, rfl, List.length_eq_zero.1 hlen⟩
  | n + 1, sys, hs, hlen, hroom => by
    cases hpending : sys.pending with
    | nil => simp [hpending] at hlen
    | cons e rest =>
      have hrest : rest.length = n := by simpa [hpending] using hlen
      cases e with
      | send event =>
        have hstep : sys.step k .perform = some { sys with queue := sys.queue ++ [event], pending := rest } := by
          simp [System.step, hpending, show sys.queue.length < k by omega]
        exact Drainable.of_step hstep trivial (Reachable.drainable n _ (.step _ hs hstep) hrest (by simp; omega)) rfl
      | spawn pid c =>
        have hstep : sys.step k .perform =
            some { sys with children := sys.children ++ [⟨pid, c, sys.monitored pid c, .waiting⟩], pending := rest } := by
          simp [System.step, hpending]
        exact Drainable.of_step hstep trivial
          (Reachable.drainable n _ (.step _ hs hstep) hrest (by simpa using show sys.queue.length + n ≤ k by omega)) rfl
      | terminate pid timeout =>
        rcases hs.completable hpending (by omega) (.exit 0) with
          ⟨actions, sys₁, hactions, hrun, hengine, hrest₁, hqueue⟩ | ⟨-, -, hpanic⟩
        · refine Drainable.of_run hrun (fun a ha => ?_)
            (Reachable.drainable n sys₁ (hs.run hrun) (hrest₁ ▸ hrest) (by omega)) hengine
          rcases hactions a ha with rfl | rfl | rfl <;> trivial
        · exact Drainable.of_step hpanic trivial ⟨[], _, by simp, rfl, rfl, rfl⟩ rfl

end System

/-- In every reachable system whose queue has room for one event per pending effect, the engine and
the children alone (the engine's performs, the children's exits and their wait tasks' reports)
perform every effect of the event the engine handled, or end in the panic of a stop that timed out
on a reaped child, and the engine's state is as it was: the engine blocks on its own effects only
when the queue is too full for them. -/
theorem pending_drains {k : Nat} {sys : System} (hs : System.Reachable k sys)
    (hroom : sys.queue.length + sys.pending.length ≤ k) :
    ∃ actions sys', (∀ a ∈ actions, a = .perform ∨ (∃ pid status, a = .childExit pid status) ∨ ∃ pid, a = .report pid) ∧
      System.run k actions sys = some sys' ∧ sys'.engine = sys.engine ∧ sys'.pending = [] := by
  obtain ⟨actions, sys', hactions, hrun, hengine, hpending⟩ := System.Reachable.drainable _ sys hs rfl hroom
  exact ⟨actions, sys', fun a ha => Action.internal_cases (hactions a ha), hrun, hengine, hpending⟩

theorem pending_drains_stopPending :
    System.Reachable 2 stopPending ∧ stopPending.queue.length + stopPending.pending.length ≤ 2 ∧
      ∃ actions sys', (∀ a ∈ actions, a = .perform ∨ (∃ pid status, a = .childExit pid status) ∨ ∃ pid, a = .report pid) ∧
        System.run 2 actions stopPending = some sys' ∧ sys'.engine = stopPending.engine ∧ sys'.pending = [] := by
  have hs : System.Reachable 2 stopPending := (System.Reachable.init deployment).run (System.run_mono (by decide) run_stopPending)
  have hroom : stopPending.queue.length + stopPending.pending.length ≤ 2 := le_refl 2
  exact ⟨hs, hroom, pending_drains hs hroom⟩

end Northstar

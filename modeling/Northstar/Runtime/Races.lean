import Northstar.Runtime.System

/-!
# Races and deadlocks at the engine queue

`Event::Exit` and `Event::Oom` name a container, not a process, and the engine acts on them
against whatever process context the container has when it dequeues them. `State::stop` takes
the context, awaits the child and sends `Stopped`; the child's wait task has by then queued its
`Exit`, behind any request a session sent meanwhile. When that request restarts the container,
the stale `Exit` drops the new instance's context (`ProcessContext::destroy` does not kill), so
the new child lives on with no context, and the next `start` clones a second one beside it. An
`Oom` that the old instance's cgroup monitor raised stops the new one the same way.

The engine also sends into the queue it alone drains: `notification` and `Request::Shutdown`
await room. `IslandProcess::stop` whose `SIGTERM` found the child already reaped awaits, with no
timeout, a wait task that itself awaits room for its `Exit`. Whatever the capacity, sessions can
fill the queue first, and then no party can move.

The runs below start from `deployment`. Each is evaluated up to an explicit checkpoint state and
from there on, so that no evaluation repeats the whole history.
-/

namespace Northstar

open System

/-- A session's console request. -/
def ask (request : Request) : Action := .request (.message (.request request))

def mountedApp : MountedContainer := ⟨app, appNpk.manifest, ⟨app⟩, .loopback, none⟩

def mountedRes : MountedContainer := ⟨res, resNpk.manifest, ⟨res⟩, .loopback, none⟩

/-- The engine once `app` has been started as pid 1 and stopped: both containers mounted, no
process context. -/
def appStopped : State :=
  ⟨deployment, AList.insert res mountedRes (AList.insert app mountedApp ∅), [⟨app⟩, ⟨res⟩],
    [.spawn 1 app, .send (.notification (.started app)), .terminate 1 5, .send (.notification (.stopped app))]⟩

/-- `app` started as pid 1, its `Started` drained: the two races below begin here. -/
def appRunning : System :=
  ⟨⟨deployment, AList.insert res mountedRes
      (AList.insert app { mountedApp with process := some ⟨1, appNpk.manifest.cgroups⟩ } ∅),
    [⟨app⟩, ⟨res⟩], [.spawn 1 app, .send (.notification (.started app))]⟩, [], [], [⟨1, app, true, .waiting⟩], false,
    .sigterm⟩

theorem run_appRunning :
    System.run 3 [ask (.start app), .dequeue (succeeding 1), .perform, .perform, .dequeue (succeeding 0)]
      (System.init deployment) = some appRunning := rfl

/-- Start `app` as pid 1; a session asks to stop it and another to start it again. pid 1 exits on
`SIGTERM` and its `Exit` is queued behind the second `Start`. -/
def stopRestartRun : List Action :=
  [ask (.start app), .dequeue (succeeding 1), .perform, .perform, .dequeue (succeeding 0),
    ask (.stop app 5), ask (.start app), .dequeue (succeeding 0), .perform, .childExit 1 (.signaled 15), .report 1,
    .perform, .perform]

def exitQueued : System :=
  ⟨appStopped, [.console (.message (.request (.start app))), .exit app (.signaled 15), .notification (.stopped app)],
    [], [⟨1, app, true, .done (.signaled 15)⟩], false, .sigterm⟩

theorem run_stopRestartRun : System.run 3 stopRestartRun (System.init deployment) = some exitQueued := by
  rw [show stopRestartRun = [ask (.start app), .dequeue (succeeding 1), .perform, .perform, .dequeue (succeeding 0)] ++
    [ask (.stop app 5), ask (.start app), .dequeue (succeeding 0), .perform, .childExit 1 (.signaled 15), .report 1,
      .perform, .perform] from rfl, run_append, run_appRunning]
  rfl

/-- The second `Start` clones pid 2; the stale `Exit` is next. -/
def restartRun : List Action := [.dequeue (succeeding 2), .perform, .perform]

/-- After the stale `Exit` is handled and the notifications drained, a session starts `app` again:
pid 3. -/
def secondStartRun : List Action :=
  [.perform, .dequeue (succeeding 0), .dequeue (succeeding 0), .dequeue (succeeding 0), ask (.start app),
    .dequeue (succeeding 3), .perform]

/-- The live children of `app`. -/
def liveApps (sys : System) : List Pid :=
  (sys.children.filter fun child => child.container == app && child.alive).map (·.pid)

/-- A property evaluated on a run from a checkpoint holds after the whole run from `deployment`,
under any larger capacity. -/
theorem exists_run_of_any {k₀ k : Nat} (hk : k₀ ≤ k) {first actions : List Action} {checkpoint : System}
    {p : System → Bool} (hfirst : System.run k₀ first (System.init deployment) = some checkpoint)
    (h : (System.run k₀ actions checkpoint).any p = true) :
    ∃ sys, System.run k (first ++ actions) (System.init deployment) = some sys ∧ System.Reachable k sys ∧
      p sys = true := by
  obtain ⟨sys, hrun, hp⟩ := exists_of_any h
  have hrun : System.run k (first ++ actions) (System.init deployment) = some sys :=
    run_mono hk (by rw [run_append, hfirst]; exact hrun)
  exact ⟨sys, hrun, (Reachable.init _).run hrun, hp⟩

theorem restart_orphans_child (k : Nat) (hk : 3 ≤ k) :
    (∃ sys, System.run k (stopRestartRun ++ restartRun ++ [.dequeue (succeeding 0)]) (System.init deployment) =
        some sys ∧ System.Reachable k sys ∧ sys.engine.process app = none ∧ liveApps sys = [2]) ∧
    ∃ sys, System.run k (stopRestartRun ++ restartRun ++ [.dequeue (succeeding 0)] ++ secondStartRun)
        (System.init deployment) = some sys ∧ System.Reachable k sys ∧ liveApps sys = [2, 3] := by
  obtain ⟨sys₁, hrun₁, hr₁, hp₁⟩ := exists_run_of_any hk run_stopRestartRun
    (show (System.run 3 (restartRun ++ [.dequeue (succeeding 0)]) exitQueued).any
      (fun sys => decide (sys.engine.process app = none ∧ liveApps sys = [2])) = true by decide)
  obtain ⟨sys₂, hrun₂, hr₂, hp₂⟩ := exists_run_of_any hk run_stopRestartRun
    (show (System.run 3 (restartRun ++ [.dequeue (succeeding 0)] ++ secondStartRun) exitQueued).any
      (fun sys => decide (liveApps sys = [2, 3])) = true by decide)
  simp only [List.append_assoc, decide_eq_true_eq] at hrun₁ hrun₂ hp₁ hp₂ ⊢
  exact ⟨⟨sys₁, hrun₁, hr₁, hp₁⟩, sys₂, hrun₂, hr₂, hp₂⟩

theorem restart_orphans_child_three :
    (∃ sys, System.run 3 (stopRestartRun ++ restartRun ++ [.dequeue (succeeding 0)]) (System.init deployment) =
        some sys ∧ System.Reachable 3 sys ∧ sys.engine.process app = none ∧ liveApps sys = [2]) ∧
    ∃ sys, System.run 3 (stopRestartRun ++ restartRun ++ [.dequeue (succeeding 0)] ++ secondStartRun)
        (System.init deployment) = some sys ∧ System.Reachable 3 sys ∧ liveApps sys = [2, 3] :=
  restart_orphans_child 3 le_rfl

/-- As `stopRestartRun`, with `app`'s cgroup reporting out of memory while pid 1 still runs,
before the engine takes the stop. -/
def oomRestartRun : List Action :=
  [ask (.start app), .dequeue (succeeding 1), .perform, .perform, .dequeue (succeeding 0),
    ask (.stop app 5), ask (.start app), .oom 1, .dequeue (succeeding 0), .perform, .childExit 1 (.signaled 15),
    .report 1, .perform, .perform]

def oomQueued : System :=
  ⟨appStopped, [.console (.message (.request (.start app))), .oom app, .exit app (.signaled 15),
    .notification (.stopped app)], [], [⟨1, app, true, .done (.signaled 15)⟩], false, .sigterm⟩

theorem run_oomRestartRun : System.run 4 oomRestartRun (System.init deployment) = some oomQueued := by
  rw [show oomRestartRun = [ask (.start app), .dequeue (succeeding 1), .perform, .perform, .dequeue (succeeding 0)] ++
    [ask (.stop app 5), ask (.start app), .oom 1, .dequeue (succeeding 0), .perform, .childExit 1 (.signaled 15),
      .report 1, .perform, .perform] from rfl, run_append, run_mono (by decide) run_appRunning]
  rfl

theorem stale_events_hit_new_instance (k : Nat) (hk : 4 ≤ k) :
    (∃ sys sys', System.run k (stopRestartRun ++ restartRun) (System.init deployment) = some sys ∧
      sys.queue.head? = some (.exit app (.signaled 15)) ∧ (sys.engine.process app).map (·.pid) = some 2 ∧
      sys.step k (.dequeue (succeeding 0)) = some sys' ∧ sys'.engine.process app = none ∧
      sys'.pending = [.send (.notification (.exit app (.signaled 15)))]) ∧
    ∃ sys sys', System.run k (oomRestartRun ++ restartRun) (System.init deployment) = some sys ∧
      sys.queue.head? = some (.oom app) ∧ (sys.engine.process app).map (·.pid) = some 2 ∧
      sys.step k (.dequeue (succeeding 0)) = some sys' ∧ .terminate 2 5 ∈ sys'.pending := by
  obtain ⟨sys₁, hrun₁, -, hp₁⟩ := exists_run_of_any (show 3 ≤ k by omega) run_stopRestartRun
    (show (System.run 3 restartRun exitQueued).any (fun sys =>
      decide (sys.queue.head? = some (.exit app (.signaled 15)) ∧ (sys.engine.process app).map (·.pid) = some 2) &&
        (sys.step 3 (.dequeue (succeeding 0))).any fun sys' => decide (sys'.engine.process app = none ∧
          sys'.pending = [.send (.notification (.exit app (.signaled 15)))])) = true by decide)
  obtain ⟨sys₂, hrun₂, -, hp₂⟩ := exists_run_of_any hk run_oomRestartRun
    (show (System.run 4 restartRun oomQueued).any (fun sys =>
      decide (sys.queue.head? = some (.oom app) ∧ (sys.engine.process app).map (·.pid) = some 2) &&
        (sys.step 4 (.dequeue (succeeding 0))).any fun sys' => decide (.terminate 2 5 ∈ sys'.pending)) = true by decide)
  simp only [Bool.and_eq_true, decide_eq_true_eq] at hp₁ hp₂
  obtain ⟨⟨hhead₁, hpid₁⟩, hstep₁⟩ := hp₁
  obtain ⟨⟨hhead₂, hpid₂⟩, hstep₂⟩ := hp₂
  obtain ⟨sys₁', hdeq₁, hp₁'⟩ := exists_of_any hstep₁
  obtain ⟨sys₂', hdeq₂, hp₂'⟩ := exists_of_any hstep₂
  simp only [decide_eq_true_eq] at hp₁' hp₂'
  exact ⟨⟨sys₁, sys₁', hrun₁, hhead₁, hpid₁, step_mono (by omega) hdeq₁, hp₁'⟩,
    sys₂, sys₂', hrun₂, hhead₂, hpid₂, step_mono hk hdeq₂, hp₂'⟩

theorem stale_events_hit_new_instance_four :
    (∃ sys sys', System.run 4 (stopRestartRun ++ restartRun) (System.init deployment) = some sys ∧
      sys.queue.head? = some (.exit app (.signaled 15)) ∧ (sys.engine.process app).map (·.pid) = some 2 ∧
      sys.step 4 (.dequeue (succeeding 0)) = some sys' ∧ sys'.engine.process app = none ∧
      sys'.pending = [.send (.notification (.exit app (.signaled 15)))]) ∧
    ∃ sys sys', System.run 4 (oomRestartRun ++ restartRun) (System.init deployment) = some sys ∧
      sys.queue.head? = some (.oom app) ∧ (sys.engine.process app).map (·.pid) = some 2 ∧
      sys.step 4 (.dequeue (succeeding 0)) = some sys' ∧ .terminate 2 5 ∈ sys'.pending :=
  stale_events_hit_new_instance 4 le_rfl

/-! ### Deadlocks -/

/-- A session asks for shutdown; the engine is about to send `Event::Shutdown` to itself. -/
def shutdownPending : System :=
  ⟨⟨deployment, ∅, [], [.send .shutdown]⟩, [], [.send .shutdown], [], false, .sigterm⟩

theorem run_shutdownPending :
    System.run 1 [ask .shutdown, .dequeue (succeeding 1)] (System.init deployment) = some shutdownPending := rfl

/-- `app` runs as pid 1 and a session stops it, but pid 1 exits on its own before the `SIGTERM`:
the kill finds the group gone, and `stop` awaits pid 1's exit status with no timeout, while pid 1's
wait task has still to queue its `Exit`. -/
def stopPending : System :=
  ⟨appStopped, [], [.terminate 1 5, .send (.notification (.stopped app))], [⟨1, app, true, .sending (.exit 0)⟩], false,
    .awaitingExited⟩

theorem run_stopPending :
    System.run 1 [ask (.start app), .dequeue (succeeding 1), .perform, .perform, .dequeue (succeeding 0),
      ask (.stop app 5), .dequeue (succeeding 0), .childExit 1 (.exit 0), .perform] (System.init deployment) =
      some stopPending := rfl

/-- The queue is full, the engine's next effect cannot be performed, no stop awaits a timeout, and
no child is left in `waitpid`: no party can act. -/
theorem stuck_of_full {k : Nat} {sys : System} (hopen : sys.closed = false) (hfull : k ≤ sys.queue.length)
    (hpending : sys.pending ≠ []) (hperform : sys.step k .perform = none) (htick : sys.step k .tick = none)
    (hreaped : ∀ child ∈ sys.children, child.alive = false) : sys.Stuck k := by
  have hroom : ¬ sys.queue.length < k := by omega
  have hchild : ∀ {pid child}, sys.child? pid = some child → child.alive = false :=
    fun h => hreaped _ (List.mem_of_find?_eq_some h)
  refine ⟨hopen, fun a => ?_⟩
  cases a with
  | request => simp [step, hroom]
  | oom pid =>
    simp only [step]
    split
    · simp [hchild ‹_›]
    · rfl
  | dequeue env =>
    simp only [step]
    split
    · simp [hpending]
    · rfl
  | perform => exact hperform
  | tick => exact htick
  | childExit pid status =>
    simp only [step]
    split
    · simp [hchild ‹_›]
    · rfl
  | report pid =>
    simp only [step]
    split
    · simp [hopen, hroom]
    · rfl

/-- Sessions fill the queue. -/
theorem reachable_filled {k : Nat} {actions : List Action} {sys : System}
    (h : System.run 1 actions (System.init deployment) = some sys) (hsys : sys.queue = [])
    (hopen : sys.closed = false) (hk : 1 ≤ k) :
    System.Reachable k { sys with queue := List.replicate k (.console (.message (.request .containers))) } := by
  have hfill : System.run k (List.replicate k (.request (.message (.request .containers)))) sys = _ :=
    run_requests _ k sys hopen (by simp [hsys])
  rw [hsys, List.nil_append] at hfill
  exact ((Reachable.init deployment).run (run_mono hk h)).run hfill

theorem queue_deadlocks (k : Nat) (hk : 1 ≤ k) :
    (∃ sys, System.Reachable k sys ∧ sys.Stuck k ∧ sys.pending.head? = some (.send .shutdown)) ∧
    ∃ sys, System.Reachable k sys ∧ sys.Stuck k ∧ sys.pending.head? = some (.terminate 1 5) ∧
      sys.stopping = some ⟨5, .awaitingExited, .sending (.exit 0)⟩ := by
  refine ⟨⟨_, reachable_filled run_shutdownPending rfl rfl hk, stuck_of_full rfl (by simp) (by simp [shutdownPending])
      (by simp [step, shutdownPending]) rfl (by simp [shutdownPending]), rfl⟩,
    _, reachable_filled run_stopPending rfl rfl hk, stuck_of_full rfl (by simp) (by simp [stopPending]) rfl rfl
      (by simp [stopPending, Child.alive]), rfl, rfl⟩

theorem queue_deadlocks_one :
    (∃ sys, System.Reachable 1 sys ∧ sys.Stuck 1 ∧ sys.pending.head? = some (.send .shutdown)) ∧
    ∃ sys, System.Reachable 1 sys ∧ sys.Stuck 1 ∧ sys.pending.head? = some (.terminate 1 5) ∧
      sys.stopping = some ⟨5, .awaitingExited, .sending (.exit 0)⟩ :=
  queue_deadlocks 1 le_rfl

end Northstar

import Northstar.Runtime.Races

/-!
# Process contexts and the children behind them

The engine records a process context in a container's entry only in `State::start`, right after
`Island::create` has cloned a child for that container, and only for a manifest with an `init`
(`init_argv` panics on the others, and a panic discards the engine's state). The effect log never
loses an entry (`effects_grow`), so in every reachable engine state each process context has its
spawn in the log (`processes_spawned`).

In the system, the engine's log is always what it has performed followed by what is pending, and
each spawn it has performed is a child the island cloned (`Performed`). A panic ends the engine
with nothing pending; a stop that panics drops the effects behind it, and those are never spawns,
since the effects of one event spawn (a `start`'s) or terminate (another handler's), not both
(`spawned_handle`): the engine performs its effects in order before it takes the next event,
and no other party touches the pids and containers of the children. So every process context the
engine holds names a child cloned for that same container, or a spawn still pending
(`processes_cloned`): the pid that `stop` signals is one `Island::create` handed out for the
container being stopped.
-/

namespace Northstar

open State

variable {s s' : State} {c : Container} {cs : List Container} {ok : Nat → Bool} {env : Env} {m : String}

/-! ### The effect log only grows -/

@[simp] theorem effects_setProcess (p : Option ProcessContext) : (s.setProcess c p).effects = s.effects := by
  unfold setProcess; split <;> rfl

@[simp] theorem effects_insertMounted (results : List (Except Error MountedContainer)) :
    (s.insertMounted results).effects = s.effects := by
  induction results generalizing s with
  | nil => rfl
  | cons r results ih => rcases r with e | mc <;> simp only [insertMounted, ih]

theorem Mounted.effects (hm : Mounted cs ok s s') : s'.effects = s.effects := by
  rcases hm with rfl | rfl <;> simp [completeMounts]

theorem effects_umount (h : next (umount c s) = some s') : s'.effects = s.effects := by
  rcases umount_state h with rfl | hok
  · rfl
  · obtain ⟨mc, -, -, -, rfl⟩ := umount_ok hok
    rfl

theorem effects_install {id : RepositoryId} {npk : Except Error Npk} (h : next (install id npk s) = some s') :
    s'.effects = s.effects := by
  rcases install_state h with rfl | ⟨-, -, -, -, -, rfl⟩ <;> rfl

theorem effects_removeFrom {env : Env} {id : RepositoryId} (h : next (removeFrom c env id s) = some s') :
    s'.effects = s.effects := by
  rcases removeFrom_state h with rfl | ⟨-, -, rfl⟩ <;> rfl

/-- No event takes an effect back: the log after handling it extends the log before. -/
theorem effects_grow (event : Event) (env : Env) (h : next (handle event env s) = some s') :
    s.effects <+: s'.effects := by
  have hemit : ∀ (l : List Effect) (s : State) e, l <+: s.effects → l <+: (s.emit e).effects :=
    fun _ _ _ h => h.trans (List.prefix_append _ _)
  have hset : ∀ (l : List Effect) (s : State) c p, l <+: s.effects → l <+: (s.setProcess c p).effects :=
    fun _ _ _ p h => (effects_setProcess p).symm ▸ h
  have humount : ∀ (l : List Effect) c, Preserves (fun s => l <+: s.effects) (umount c) :=
    fun _ _ _ _ h hu => by simpa only [effects_umount hu] using h
  exact preserves_handle (hemit _) (fun s c => hset _ s c none) (humount _)
    (fun _ _ _ _ h hm => by simpa only [(mountRequest_state hm).effects] using h)
    (fun _ _ => preserves_start (hemit _) (hset _) fun _ _ _ _ hm h => by simpa only [hm.effects] using h)
    (fun _ _ => preserves_uninstall (humount _ _) fun _ =>
      Preserves.and_unmapped fun _ _ h hr => by simpa only [effects_removeFrom hr] using h)
    (fun _ _ _ _ _ h hi => by simpa only [effects_install hi] using h) (installs_true event) env s s' (List.prefix_refl _) h

/-! ### What one event spawns and terminates -/

/-- The pid an effect spawns. -/
def Effect.spawned? : Effect → Option Pid
  | .spawn pid _ => some pid
  | _ => none

/-- The pid an effect terminates. -/
def Effect.terminated? : Effect → Option Pid
  | .terminate pid _ => some pid
  | _ => none

namespace State

/-- The pids the engine has spawned, in order. -/
def spawned (s : State) : List Pid := s.effects.filterMap Effect.spawned?

/-- The pids the engine has terminated, in order. -/
def terminated (s : State) : List Pid := s.effects.filterMap Effect.terminated?

@[simp] theorem spawned_emit (e : Effect) : (s.emit e).spawned = s.spawned ++ e.spawned?.toList := by
  cases h : e.spawned? <;> simp [spawned, emit, List.filterMap_append, h]

@[simp] theorem terminated_emit (e : Effect) : (s.emit e).terminated = s.terminated ++ e.terminated?.toList := by
  cases h : e.terminated? <;> simp [terminated, emit, List.filterMap_append, h]

@[simp] theorem spawned_setProcess (p : Option ProcessContext) : (s.setProcess c p).spawned = s.spawned := by
  simp only [spawned, effects_setProcess]

@[simp] theorem terminated_setProcess (p : Option ProcessContext) :
    (s.setProcess c p).terminated = s.terminated := by
  simp only [terminated, effects_setProcess]

end State

section Spawns

variable {b : List Pid}

theorem spawned_of_effects (h : s.spawned = b) (heffects : s'.effects = s.effects) : s'.spawned = b := by
  rw [State.spawned, heffects]
  exact h

theorem spawnless_stop (timeout : Nat) : Preserves (fun s => s.spawned = b) (stop c timeout) := fun s s' h hstop => by
  rcases stop_state hstop with rfl | ⟨-, -, rfl⟩
  · exact h
  · simpa [Effect.spawned?] using h

theorem spawnless_umount : Preserves (fun s => s.spawned = b) (umount c) := fun _ _ h hu =>
  spawned_of_effects h (effects_umount hu)

theorem spawnless_onExit (status : ExitStatus) : Preserves (fun s => s.spawned = b) (onExit c status) :=
  fun s s' h hexit => by
  unfold onExit at hexit
  split at hexit <;> simp only [next_ok, Option.some.injEq] at hexit <;> subst hexit
  · exact h
  · simpa [Effect.spawned?] using h

/-- `start` spawns at most one child, with the pid `Island::create` handed out, and terminates
none. -/
theorem spawned_start (h : next (start c env s) = some s') :
    s'.spawned = s.spawned ∨
      ∃ pid, env.create = .ok pid ∧ s'.spawned = s.spawned ++ [pid] ∧ s'.terminated = s.terminated := by
  rcases start_state h with rfl | ⟨cs, -, hm⟩ | ⟨cs, s₁, -, hm, hl⟩
  · exact .inl rfl
  · exact .inl (spawned_of_effects rfl (mountAll_state hm).effects)
  · have h₁ : s₁.effects = s.effects := (mountAll_ok_mounted hm).effects
    have hs₁ : s₁.spawned = s.spawned := spawned_of_effects rfl h₁
    have ht₁ : s₁.terminated = s.terminated := by rw [State.terminated, h₁]; rfl
    rcases launch_state hl with rfl | ⟨pid, -, hpid, -, rfl⟩ | hok
    · exact .inl hs₁
    · exact .inr ⟨pid, hpid, by simp [hs₁, Effect.spawned?], by simp [ht₁, Effect.terminated?]⟩
    · obtain ⟨mc, pid, -, -, hpid, rfl⟩ := launch_ok hok
      exact .inr ⟨pid, hpid, by simp [hs₁, Effect.spawned?], by simp [ht₁, Effect.terminated?]⟩

/-- Handling one event spawns at most one child, with the pid `Island::create` handed out, and
terminates none if it spawns: only `start` spawns, and an event is at most one `start`. -/
theorem spawned_handle (event : Event) (env : Env) (h : next (handle event env s) = some s') :
    s'.spawned = s.spawned ∨
      ∃ pid, env.create = .ok pid ∧ s'.spawned = s.spawned ++ [pid] ∧ s'.terminated = s.terminated := by
  cases event with
  | console request =>
    rcases request with (_ | request | _ | _) | ⟨id, npk⟩
    · simp_all [handle, consoleRequest]
    · rw [next_handle_request] at h
      cases request with
      | start c => exact spawned_start (by rwa [requestResponse, next_respond] at h)
      | containers | repositories | shutdown =>
        simp only [requestResponse, next_ok, Option.some.injEq] at h
        subst h
        simp [Effect.spawned?]
      | install => simp [requestResponse] at h
      | mount cs => exact .inl (spawned_of_effects rfl (mountRequest_state h).effects)
      | stop c timeout => exact .inl (spawnless_stop timeout s s' rfl (by rwa [requestResponse, next_respond] at h))
      | umount c => exact .inl (spawnless_umount s s' rfl (by rwa [requestResponse, next_respond] at h))
      | uninstall c =>
        exact .inl (preserves_uninstall spawnless_umount (fun _ => Preserves.and_unmapped fun _ _ h hr =>
          spawned_of_effects h (effects_removeFrom hr)) s s' rfl (by rwa [requestResponse, next_respond] at h))
    · simp_all [handle, consoleRequest]
    · simp_all [handle, consoleRequest]
    · exact .inl (spawned_of_effects rfl (effects_install (by rwa [next_handle_install] at h)))
  | exit c status => exact .inl (spawnless_onExit status s s' rfl h)
  | oom c =>
    exact .inl (preserves_onOom_of (fun _ h => by simpa [Effect.spawned?] using h) (spawnless_stop 5) s s' rfl h)
  | notification n => simp_all [handle]
  | shutdown =>
    exact .inl (preserves_shutdown_of (fun _ timeout => spawnless_stop timeout) (fun _ => spawnless_umount) s s' rfl h)

end Spawns

/-- The effects of one event: a `start`'s, which terminate nothing, or another handler's, which
spawn nothing. -/
def Unmixed (effects : List Effect) : Prop :=
  effects.filterMap Effect.terminated? = [] ∨ effects.filterMap Effect.spawned? = []

theorem Unmixed.sublist {l l' : List Effect} (h : Unmixed l) (hl : List.Sublist l' l) : Unmixed l' := by
  rcases h with h | h
  · exact .inl (List.sublist_nil.1 (h ▸ hl.filterMap _))
  · exact .inr (List.sublist_nil.1 (h ▸ hl.filterMap _))

/-- Effects that terminate spawn nothing. -/
theorem Unmixed.spawnless {l : List Effect} (h : Unmixed l) {pid : Pid} {timeout : Nat}
    (hterminate : Effect.terminate pid timeout ∈ l) (pid' : Pid) (c : Container) : Effect.spawn pid' c ∉ l := fun hspawn => by
  have hterminated : pid ∈ l.filterMap Effect.terminated? := List.mem_filterMap.2 ⟨_, hterminate, rfl⟩
  have hspawned : pid' ∈ l.filterMap Effect.spawned? := List.mem_filterMap.2 ⟨_, hspawn, rfl⟩
  rcases h with h | h <;> simp [h] at hterminated hspawned

theorem unmixed_handle (event : Event) (env : Env) (h : next (handle event env s) = some s') :
    Unmixed (s'.effects.drop s.effects.length) := by
  obtain ⟨new, hnew⟩ := effects_grow event env h
  rw [← hnew, List.drop_left]
  rcases spawned_handle event env h with hs | ⟨-, -, -, ht⟩
  · right
    simpa [State.spawned, ← hnew, List.filterMap_append] using hs
  · left
    simpa [State.terminated, ← hnew, List.filterMap_append] using ht

/-! ### Every process context was launched -/

/-- Every process context in the map sits in an entry whose manifest has an `init`, and came with
the spawn of a child for its container, which the effect log records. -/
def Launched (s : State) : Prop :=
  ∀ c mc p, s.containers.lookup c = some mc → mc.process = some p →
    mc.manifest.init.isSome ∧ Effect.spawn p.pid c ∈ s.effects

theorem launched_emit (e : Effect) (h : Launched s) : Launched (s.emit e) := fun c mc p hl hp =>
  (h c mc p hl hp).imp_right (List.mem_append_left _)

/-- Setting a context keeps the invariant when the new context itself was launched. -/
theorem launched_setProcess {p : Option ProcessContext} (h : Launched s)
    (hp : ∀ mc p', s.containers.lookup c = some mc → p = some p' →
      mc.manifest.init.isSome ∧ Effect.spawn p'.pid c ∈ s.effects) :
    Launched (s.setProcess c p) := fun c' mc p' hl hp' => by
  rw [lookup_setProcess] at hl
  rw [effects_setProcess]
  split at hl
  · subst c'
    obtain ⟨mc₀, h₀, rfl⟩ := Option.map_eq_some'.1 hl
    exact hp mc₀ p' h₀ hp'
  · exact h c' mc p' hl hp'

/-- The mounts insert entries without a process context. -/
theorem launched_mounted (hm : Mounted cs ok s s') (h : Launched s) : Launched s' := fun c mc p hl hp => by
  rw [hm.effects]
  rcases hm with rfl | rfl
  · exact h c mc p hl hp
  · rcases lookup_insertMounted hl with hl | ⟨hmc, -⟩
    · exact h c mc p hl hp
    · obtain ⟨-, -, -, -, hnone, -⟩ := spawned_result hmc
      simp [hnone] at hp

theorem launched_umount : Preserves Launched (umount c) := fun s s' h hu => by
  rcases umount_state hu with rfl | hok
  · exact h
  · obtain ⟨mc, -, -, -, rfl⟩ := umount_ok hok
    exact fun c' mc' p hl hp => h c' mc' p (lookup_of_lookup_erase hl).2 hp

/-- `start` records a context only for an entry with an `init`, right after the spawn. -/
theorem launched_start (env : Env) : Preserves Launched (start c env) := fun s s' h hstart => by
  rcases start_state hstart with rfl | ⟨cs, -, hm⟩ | ⟨cs, s₁, -, hm, hl⟩
  · exact h
  · exact launched_mounted (mountAll_state hm) h
  · have h₁ := launched_mounted (mountAll_ok_mounted hm) h
    rcases launch_state hl with rfl | ⟨pid, -, -, -, rfl⟩ | hok
    · exact h₁
    · exact launched_emit _ h₁
    · obtain ⟨mc, pid, hmc, hinit, -, rfl⟩ := launch_ok hok
      refine launched_emit _ (launched_setProcess (launched_emit _ h₁) fun mc' p' hmc' hp' => ?_)
      rw [emit_containers, hmc, Option.some.injEq] at hmc'
      cases Option.some.inj hp'
      exact ⟨hmc' ▸ hinit, List.mem_append_right _ (List.mem_singleton_self _)⟩

theorem launched_handle (event : Event) (env : Env) : Preserves Launched (handle event env) :=
  preserves_handle (fun _ e h => launched_emit e h)
    (fun _ _ h => launched_setProcess h fun _ _ _ hp => nomatch hp)
    (fun _ => launched_umount)
    (fun _ _ _ _ h hm => launched_mounted (mountRequest_state hm) h)
    (fun _ env => launched_start env)
    (fun _ _ => preserves_uninstall launched_umount fun _ =>
      Preserves.and_unmapped fun _ _ h hr => by
        rcases removeFrom_state hr with rfl | ⟨-, -, rfl⟩ <;> exact h)
    (fun _ _ _ _ _ h hi => by rcases install_state hi with rfl | ⟨-, -, -, -, -, rfl⟩ <;> exact h)
    (installs_true event) env

theorem launched_reachable {admissible : Npk → Prop} (hs : Reachable admissible s) : Launched s :=
  hs.induct_inv Launched (fun _ _ c mc p hl => by simp [State.new] at hl)
    fun s s' event env _ _ h hnext => launched_handle event env s s' h hnext

/-- In every reachable state, a container with a process context has an `init` (no resource
container runs), and its process is the child spawned for it, as the effect log records. -/
theorem processes_spawned {admissible : Npk → Prop} (hs : Reachable admissible s) :
    ∀ c mc p, s.containers.lookup c = some mc → mc.process = some p →
      mc.manifest.init.isSome ∧ Effect.spawn p.pid c ∈ s.effects :=
  launched_reachable hs

theorem processes_spawned_started :
    ∃ s, run [(request (.start app), succeeding 1)] (State.new deployment) = some s ∧
      s.containers.lookup app = some { mountedApp with process := some ⟨1, appNpk.manifest.cgroups⟩ } ∧
      appNpk.manifest.init.isSome ∧ Effect.spawn 1 app ∈ s.effects := by
  obtain ⟨s, hrun, hl⟩ : ∃ s, run [(request (.start app), succeeding 1)] (State.new deployment) = some s ∧
      s.containers.lookup app = some { mountedApp with process := some ⟨1, appNpk.manifest.cgroups⟩ } :=
    ⟨_, rfl, rfl⟩
  exact ⟨s, hrun, hl, processes_spawned (.run (.new _ fun _ _ _ _ _ => trivial)
    (by simp [Event.Installs, request]) hrun) app _ _ hl rfl⟩

/-! ### The children behind the engine's spawns -/

namespace System

variable {k : Nat} {sys sys' : System} {a : Action}

/-- The pid and container of every child `Island::create` cloned. -/
def cloned (sys : System) : List (Pid × Container) := sys.children.map fun child => (child.pid, child.container)

@[simp] theorem cloned_setWaiter (pid : Pid) (waiter : Waiter) : (sys.setWaiter pid waiter).cloned = sys.cloned := by
  simp only [cloned, setWaiter, List.map_map]
  congr 1
  funext child
  simp only [Function.comp]
  split <;> rfl

@[simp] theorem cloned_handleEvent (event : Event) (queue : List Event) (env : Env) :
    (sys.handleEvent event queue env).cloned = sys.cloned := by
  simp [cloned]

/-- Sessions, the cgroup monitors, time and the children leave the engine, its pending effects and
the pids and containers of the children as they are. -/
theorem frame_of_step (hstep : sys.step k a = some sys') (hdequeue : ∀ env, a ≠ .dequeue env) (hperform : a ≠ .perform) :
    sys'.engine = sys.engine ∧ sys'.pending = sys.pending ∧ sys'.cloned = sys.cloned := by
  cases a with
  | dequeue env => exact absurd rfl (hdequeue env)
  | perform => exact absurd rfl hperform
  | request r => obtain ⟨-, -, _, rfl, -⟩ := enqueue_cases hstep (.inl ⟨r, rfl⟩); exact ⟨rfl, rfl, rfl⟩
  | oom pid => obtain ⟨-, -, _, rfl, -⟩ := enqueue_cases hstep (.inr ⟨pid, rfl⟩); exact ⟨rfl, rfl, rfl⟩
  | tick => obtain ⟨_, _, rfl⟩ := tick_cases hstep; exact ⟨rfl, rfl, rfl⟩
  | childExit => obtain ⟨_, _, _, rfl⟩ := childExit_cases hstep; exact ⟨rfl, rfl, cloned_setWaiter _ _⟩
  | report =>
    obtain ⟨_, _, _, _, ⟨rfl, -⟩ | ⟨rfl, -⟩⟩ := report_cases hstep <;> exact ⟨rfl, rfl, cloned_setWaiter _ _⟩

/-- What is pending is what is left of one event's effects. -/
theorem unmixed_step (h : Unmixed sys.pending) (hstep : sys.step k a = some sys') : Unmixed sys'.pending := by
  cases a with
  | dequeue env =>
    obtain ⟨-, -, -, event, queue, -, rfl⟩ := dequeue_cases hstep
    rcases handleEvent_cases sys event queue env with ⟨hnext, hpending⟩ | ⟨-, hpending⟩ <;> rw [hpending]
    · exact unmixed_handle event env hnext
    · exact .inl rfl
  | perform =>
    rcases perform_cases hstep with ⟨_, _, hp, -, rfl⟩ | ⟨_, _, _, hp, rfl⟩ | ⟨_, _, rest, _, st, hp, -, -, rfl⟩
    · exact h.sublist (hp ▸ List.sublist_cons_self _ _)
    · exact h.sublist (hp ▸ List.sublist_cons_self _ _)
    · rcases stopped_cases sys rest st.pc with ⟨heq, -⟩ | ⟨_, -, heq⟩ | ⟨_, -, heq⟩ <;> rw [heq]
      · exact h
      · exact h.sublist (hp ▸ List.sublist_cons_self _ _)
      · exact .inl rfl
  | request | oom | tick | childExit | report => exact (frame_of_step hstep (fun _ => nofun) nofun).2.1 ▸ h

theorem Reachable.unmixed (hs : Reachable k sys) : Unmixed sys.pending := by
  induction hs with
  | init repositories => exact .inl rfl
  | step a _ hstep ih => exact unmixed_step ih hstep

/-- The engine's log is what it has performed, then what is pending, and every spawn it has
performed is a child the island cloned. A stop that panics takes what is pending with it, and
that is never a spawn. -/
def Performed (sys : System) : Prop :=
  ∃ done, sys.engine.effects = done ++ sys.pending ∧ ∀ pid c, Effect.spawn pid c ∈ done → (pid, c) ∈ sys.cloned

/-- The engine takes an event only once its effects are performed; the effects of the event become
the pending ones, and a panic has none. -/
theorem Performed.handleEvent (h : Performed sys) (hpending : sys.pending = []) (event : Event) (queue : List Event)
    (env : Env) : Performed (sys.handleEvent event queue env) := by
  obtain ⟨done, heffects, hdone⟩ := h
  rw [hpending, List.append_nil] at heffects
  subst heffects
  rcases handleEvent_cases sys event queue env with ⟨hnext, hpending'⟩ | ⟨hengine, hpending'⟩
  · exact ⟨_, by rw [hpending']; exact (List.prefix_iff_eq_append.1 (effects_grow event env hnext)).symm,
      by simpa using hdone⟩
  · exact ⟨_, by rw [hpending', hengine, List.append_nil], by simpa using hdone⟩

/-- Performing the next effect moves it to the performed part, a spawn with its child; a step of
`stop` that does not return moves nothing. -/
theorem Performed.perform (h : Performed sys) (hmixed : Unmixed sys.pending) (hstep : sys.step k .perform = some sys') :
    Performed sys' := by
  obtain ⟨done, heffects, hdone⟩ := h
  rcases perform_cases hstep with ⟨e, rest, hp, -, rfl⟩ | ⟨pid, c, rest, hp, rfl⟩ |
    ⟨pid, timeout, rest, _, st, hp, -, -, rfl⟩
  · exact ⟨done ++ [.send e], by rw [heffects, hp]; simp, fun pid c hmem => hdone pid c (by simpa using hmem)⟩
  · refine ⟨done ++ [.spawn pid c], by rw [heffects, hp]; simp, fun pid' c' hmem => ?_⟩
    rcases List.mem_append.1 hmem with hd | he
    · simp only [cloned, List.map_append, List.mem_append]
      exact .inl (hdone pid' c' hd)
    · obtain ⟨rfl, rfl⟩ : pid' = pid ∧ c' = c := by simpa using he
      simp [cloned]
  · rcases stopped_cases sys rest st.pc with ⟨heq, -⟩ | ⟨_, -, heq⟩ | ⟨_, -, heq⟩ <;> rw [heq]
    · exact ⟨done, heffects, hdone⟩
    · exact ⟨done ++ [.terminate pid timeout], by rw [heffects, hp]; simp, fun pid c hmem => hdone pid c (by simpa using hmem)⟩
    · refine ⟨done ++ sys.pending, by simp [heffects], fun pid' c hmem => (List.mem_append.1 hmem).elim (hdone pid' c)
        fun hpending => absurd hpending (hmixed.spawnless (hp ▸ List.mem_cons_self _ _) pid' c)⟩

theorem Performed.step (h : Performed sys) (hmixed : Unmixed sys.pending) (hstep : sys.step k a = some sys') :
    Performed sys' := by
  cases a with
  | dequeue env =>
    obtain ⟨-, hpending, -, event, queue, -, rfl⟩ := dequeue_cases hstep
    exact h.handleEvent hpending event queue env
  | perform => exact h.perform hmixed hstep
  | request | oom | tick | childExit | report =>
    obtain ⟨hengine, hpending, hcloned⟩ := frame_of_step hstep (fun _ => nofun) nofun
    rwa [Performed, hengine, hpending, hcloned]

theorem Reachable.performed (hs : Reachable k sys) : Performed sys := by
  induction hs with
  | init repositories => exact ⟨[], rfl, by simp⟩
  | step a hs hstep ih => exact ih.step hs.unmixed hstep

/-- Every spawn the engine's log records is a child the island cloned, or is still pending. -/
def Backed (sys : System) : Prop :=
  ∀ pid c, Effect.spawn pid c ∈ sys.engine.effects → (pid, c) ∈ sys.cloned ∨ Effect.spawn pid c ∈ sys.pending

theorem Performed.backed (h : Performed sys) : Backed sys := fun pid c he => by
  obtain ⟨done, heffects, hdone⟩ := h
  rw [heffects, List.mem_append] at he
  exact he.imp_left (hdone pid c)

theorem Reachable.backed (hs : Reachable k sys) : Backed sys :=
  hs.performed.backed

end System

/-- In every reachable system, every process context the engine holds is a child that
`Island::create` cloned for that same container, or the spawn of one still to be performed. -/
theorem processes_cloned {k : Nat} {sys : System} (hs : System.Reachable k sys) :
    ∀ c mc p, sys.engine.containers.lookup c = some mc → mc.process = some p →
      (p.pid, c) ∈ sys.cloned ∨ Effect.spawn p.pid c ∈ sys.pending :=
  fun c mc p hl hp => hs.backed p.pid c (launched_reachable hs.engine c mc p hl hp).2

theorem processes_cloned_running :
    System.Reachable 3 appRunning ∧
      appRunning.engine.containers.lookup app = some { mountedApp with process := some ⟨1, appNpk.manifest.cgroups⟩ } ∧
      ((1, app) ∈ appRunning.cloned ∨ Effect.spawn 1 app ∈ appRunning.pending) := by
  have hs : System.Reachable 3 appRunning := (System.Reachable.init deployment).run run_appRunning
  have hl : appRunning.engine.containers.lookup app = some { mountedApp with process := some ⟨1, appNpk.manifest.cgroups⟩ } :=
    rfl
  exact ⟨hs, hl, processes_cloned hs app _ _ hl rfl⟩

end Northstar

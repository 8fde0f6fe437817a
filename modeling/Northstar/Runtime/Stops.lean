import Northstar.Runtime.Processes

/-!
# Each child is stopped once

`IslandProcess::stop` consumes the process, and the engine holds a process only in a context:
`State::stop` takes the context out of the entry before it stops the child, `on_exit` drops it,
a bulk mount of a mapped identity replaces the entry by one without a context, and a context is
recorded only by `State::start`, right after `Island::create` has cloned the child. So each pid
the engine has terminated or still holds in a context uses up a spawn of its own: the terminated
pids and the held ones, together, are a sub-multiset of the spawned ones (`Accounted`), whatever
pids the island hands out. This is the ledger of the process handles.

In the system, `Island::create` hands out a pid no child has, the engine takes an event only once
the spawns before it are performed, and handling one event spawns at most one child
(`spawned_handle`). So the spawns name distinct pids, and by the ledger no child is stopped twice,
no two contexts share a pid, and no context names a child already stopped (`stops_once`).
-/

namespace Northstar

open State

variable {s s' : State} {c : Container}

/-! ### Held pids -/

namespace State

/-- The pids of the process contexts in the map, in the map's order. -/
def held (s : State) : List Pid := s.containers.entries.filterMap fun e => e.2.process.map (·.pid)

@[simp] theorem held_emit (e : Effect) : (s.emit e).held = s.held := rfl

end State

/-- Replacing the context of one entry changes only that entry's pid among the held ones. -/
theorem filterMap_kreplace {mc : MountedContainer} :
    ∀ l : List (Sigma fun _ : Container => MountedContainer), l.dlookup c = some mc →
      ∃ l₁ l₂, l.filterMap (fun e => e.2.process.map (·.pid)) = l₁ ++ (mc.process.map (·.pid)).toList ++ l₂ ∧
        ∀ p : Option ProcessContext, (l.kreplace c { mc with process := p }).filterMap
          (fun e => e.2.process.map (·.pid)) = l₁ ++ (p.map (·.pid)).toList ++ l₂
  | [], h => by simp at h
  | ⟨a, x⟩ :: l, h => by
    by_cases ha : a = c
    · subst ha
      rw [List.dlookup_cons_eq, Option.some.injEq] at h
      subst h
      refine ⟨[], l.filterMap fun e => e.2.process.map (·.pid), ?_, fun p => ?_⟩
      · cases hx : x.process <;> simp [hx]
      · cases p <;> simp [List.kreplace, List.lookmap_cons_some]
    · rw [List.dlookup_cons_ne _ _ (Ne.symm ha)] at h
      obtain ⟨l₁, l₂, h₁, h₂⟩ := filterMap_kreplace l h
      refine ⟨(x.process.map (·.pid)).toList ++ l₁, l₂, ?_, fun p => ?_⟩
      · cases hx : x.process <;> simp [hx, h₁]
      · have hcons : (⟨a, x⟩ :: l).kreplace c { mc with process := p } = ⟨a, x⟩ :: l.kreplace c { mc with process := p } :=
          List.lookmap_cons_none _ _ (if_neg (Ne.symm ha))
        rw [hcons]
        cases hx : x.process <;> simp [hx, h₂]

theorem held_setProcess {mc : MountedContainer} (hl : s.containers.lookup c = some mc) :
    ∃ l₁ l₂, s.held = l₁ ++ (mc.process.map (·.pid)).toList ++ l₂ ∧
      ∀ p, (s.setProcess c p).held = l₁ ++ (p.map (·.pid)).toList ++ l₂ := by
  obtain ⟨l₁, l₂, h, h'⟩ := filterMap_kreplace s.containers.entries hl
  exact ⟨l₁, l₂, h, fun p => by simp only [setProcess, hl]; exact h' p⟩

/-- Clearing a context drops at most its pid. -/
theorem held_clear : List.Sublist (s.setProcess c none).held s.held := by
  cases hl : s.containers.lookup c with
  | none => simp [setProcess, hl]
  | some mc =>
    obtain ⟨l₁, l₂, h, h'⟩ := held_setProcess hl
    rw [h, h']
    simp

/-- Stopping a container moves its context's pid out of the held ones. -/
theorem held_of_process {context : ProcessContext} (hp : s.process c = some context) :
    List.Perm s.held (context.pid :: (s.setProcess c none).held) := by
  obtain ⟨mc, hl, hmc⟩ := Option.bind_eq_some.1 hp
  obtain ⟨l₁, l₂, h, h'⟩ := held_setProcess hl
  rw [h, h', hmc]
  simp

/-- Launching a container holds the new pid in place of whatever its entry held. -/
theorem held_of_launch {mc : MountedContainer} (hl : s.containers.lookup c = some mc) (context : ProcessContext) :
    List.Perm (s.setProcess c (some context)).held (context.pid :: (s.setProcess c none).held) := by
  obtain ⟨l₁, l₂, -, h'⟩ := held_setProcess hl
  rw [h', h']
  simp

/-- The mounts insert entries without a context, so they hold no new pid. -/
theorem held_insertMounted : ∀ (results : List (Except Error MountedContainer)) (s : State),
    (∀ mc, .ok mc ∈ results → mc.process = none) → List.Sublist (s.insertMounted results).held s.held
  | [], _, _ => List.Sublist.refl _
  | .error _ :: results, s, h => held_insertMounted results s fun mc hmc => h mc (List.mem_cons_of_mem _ hmc)
  | .ok mc :: results, s, h => by
    rw [insertMounted]
    refine (held_insertMounted results _ fun mc' hmc' => h mc' (List.mem_cons_of_mem _ hmc')).trans ?_
    simp only [held, AList.insert_entries, List.filterMap_cons, h mc (List.mem_cons_self _ _), Option.map_none']
    exact (List.kerase_sublist _ _).filterMap _

/-! ### The ledger of process handles -/

/-- Each pid the engine has terminated, or holds in a process context, uses up a spawn of its own. -/
def Accounted (s : State) : Prop := List.Subperm (s.terminated ++ s.held) s.spawned

/-- What spawns and terminates nothing, and holds no new pid, keeps the ledger. -/
theorem Accounted.frame (h : Accounted s) (hspawned : s'.spawned = s.spawned)
    (hterminated : s'.terminated = s.terminated) (hheld : List.Sublist s'.held s.held) : Accounted s' := by
  rw [Accounted, hspawned, hterminated]
  exact (hheld.append_left _).subperm.trans h

theorem Accounted.send (h : Accounted s) (e : Event) : Accounted (s.emit (.send e)) :=
  h.frame (by simp [Effect.spawned?]) (by simp [Effect.terminated?]) (List.Sublist.refl _)

theorem Accounted.clear (h : Accounted s) : Accounted (s.setProcess c none) :=
  h.frame (spawned_setProcess none) (terminated_setProcess none) held_clear

theorem Accounted.mounted {cs : List Container} {ok : Nat → Bool} (hm : Mounted cs ok s s') (h : Accounted s) :
    Accounted s' := by
  refine h.frame (by rw [State.spawned, hm.effects]; rfl) (by rw [State.terminated, hm.effects]; rfl) ?_
  rcases hm with rfl | rfl
  · exact List.Sublist.refl _
  · exact held_insertMounted _ _ fun mc hmc => by
      obtain ⟨-, -, -, -, hnone, -⟩ := spawned_result hmc
      exact hnone

/-- `stop` trades the context's pid for its terminate. -/
theorem accounted_stop (timeout : Nat) : Preserves Accounted (stop c timeout) := fun s s' h hstop => by
  rcases stop_state hstop with rfl | ⟨context, hp, rfl⟩
  · exact h
  · refine Accounted.send ?_ _
    have hperm : List.Perm (s.terminated ++ [context.pid] ++ (s.setProcess c none).held) (s.terminated ++ s.held) := by
      rw [List.append_assoc, List.singleton_append]
      exact ((held_of_process hp).append_left _).symm
    rw [Accounted, spawned_emit, terminated_emit, held_emit, spawned_setProcess, terminated_setProcess]
    simpa [Effect.spawned?, Effect.terminated?] using hperm.subperm.trans h

/-- `launch` holds the pid it has just spawned, in place of whatever the entry held. -/
theorem accounted_launch (env : Env) : Preserves Accounted (launch c env) := fun s s' h hl => by
  rcases launch_state hl with rfl | ⟨pid, -, -, -, rfl⟩ | hok
  · exact h
  · rw [Accounted, spawned_emit, terminated_emit, held_emit]
    simpa [Effect.spawned?, Effect.terminated?] using h.trans (List.sublist_append_left _ [pid]).subperm
  · obtain ⟨mc, pid, hmc, -, -, rfl⟩ := launch_ok hok
    refine Accounted.send ?_ _
    have hrest : List.Subperm (s.terminated ++ ((s.emit (.spawn pid c)).setProcess c none).held) s.spawned :=
      (held_clear.append_left _).subperm.trans h
    have hperm : List.Perm (s.terminated ++ ((s.emit (.spawn pid c)).setProcess c (some ⟨pid, mc.manifest.cgroups⟩)).held)
        (pid :: (s.terminated ++ ((s.emit (.spawn pid c)).setProcess c none).held)) :=
      ((held_of_launch (s := s.emit (.spawn pid c)) hmc _).append_left _).trans List.perm_middle
    rw [Accounted, spawned_setProcess, terminated_setProcess, spawned_emit, terminated_emit]
    simpa [Effect.spawned?, Effect.terminated?] using
      hperm.subperm.trans (((List.subperm_cons pid).2 hrest).trans (List.perm_append_singleton _ _).symm.subperm)

theorem accounted_start (env : Env) : Preserves Accounted (start c env) := fun s s' h hstart => by
  rcases start_state hstart with rfl | ⟨cs, -, hm⟩ | ⟨cs, s₁, -, hm, hl⟩
  · exact h
  · exact h.mounted (mountAll_state hm)
  · exact accounted_launch env s₁ s' (h.mounted (mountAll_ok_mounted hm)) hl

theorem accounted_umount : Preserves Accounted (umount c) := fun s s' h hu => by
  rcases umount_state hu with rfl | hok
  · exact h
  · obtain ⟨mc, -, -, -, rfl⟩ := umount_ok hok
    exact h.frame rfl rfl ((List.kerase_sublist _ _).filterMap _)

theorem accounted_onExit (status : ExitStatus) : Preserves Accounted (onExit c status) := fun s s' h hexit => by
  unfold onExit at hexit
  split at hexit <;> simp only [next_ok, Option.some.injEq] at hexit <;> subst hexit
  · exact h
  · exact h.clear.send _

theorem accounted_handle (event : Event) (env : Env) : Preserves Accounted (handle event env) :=
  preserves_handle_of (fun _ timeout => accounted_stop timeout) (fun _ => accounted_umount)
    (fun _ h => h.send _)
    (fun _ _ _ _ h hm => h.mounted (mountRequest_state hm))
    (fun _ env => accounted_start env)
    (fun _ _ => preserves_uninstall accounted_umount fun _ => Preserves.and_unmapped fun _ _ h hr => by
      rcases removeFrom_state hr with rfl | ⟨-, -, rfl⟩ <;> exact h.frame rfl rfl (List.Sublist.refl _))
    (fun _ status => accounted_onExit status)
    (fun _ => preserves_onOom_of (fun _ h => h.send _) (accounted_stop 5))
    (fun _ _ _ _ _ h hi => by
      rcases install_state hi with rfl | ⟨-, -, -, -, -, rfl⟩ <;> exact h.frame rfl rfl (List.Sublist.refl _))
    (installs_true event) env

theorem accounted_reachable {admissible : Npk → Prop} (hs : Reachable admissible s) : Accounted s :=
  hs.induct_inv Accounted (fun _ _ => by simp [Accounted, State.new, State.spawned, State.terminated, State.held])
    fun s s' event env _ _ h hnext => accounted_handle event env s s' h hnext

theorem nodup_of_subperm {α : Type} {l₁ l₂ : List α} (h : List.Subperm l₁ l₂) (hl : l₂.Nodup) : l₁.Nodup := by
  obtain ⟨l, hperm, hsub⟩ := h
  exact hperm.nodup_iff.1 (hl.sublist hsub)

/-! ### Distinct spawns in the system -/

namespace System

variable {k : Nat} {sys sys' : System}

/-- Once the engine has performed its spawns, a pid `Island::create` may hand out is none of them. -/
theorem not_mem_spawned (h : Performed sys) (hpending : sys.pending = []) {env : Env}
    (hfresh : sys.fresh env = true) {pid : Pid} (hcreate : env.create = .ok pid) : pid ∉ sys.engine.spawned := by
  obtain ⟨done, heffects, hdone⟩ := h
  rw [hpending, List.append_nil] at heffects
  intro hmem
  obtain ⟨e, he, hpid⟩ := List.mem_filterMap.1 hmem
  cases e with
  | spawn pid' c =>
    obtain rfl : pid' = pid := Option.some.inj hpid
    obtain ⟨child, hchild, hc⟩ := List.mem_map.1 (hdone pid' c (heffects ▸ he))
    simp only [fresh, hcreate, Bool.not_eq_true', List.any_eq_false, decide_eq_true_eq] at hfresh
    exact hfresh child hchild (Prod.mk.inj hc).1
  | send | terminate => cases hpid

/-- In every reachable system, the engine's spawns name distinct pids. -/
theorem Reachable.spawned_nodup (hs : Reachable k sys) : sys.engine.spawned.Nodup := by
  induction hs with
  | init repositories => simp [System.init, State.new, State.spawned]
  | @step sys sys' a hs hstep ih =>
    cases a with
    | dequeue env =>
      obtain ⟨-, hpending, hfresh, event, queue, -, rfl⟩ := dequeue_cases hstep
      rcases handleEvent_cases sys event queue env with ⟨hnext, -⟩ | ⟨heq, -⟩
      · rcases spawned_handle event env hnext with heq | ⟨pid, hcreate, heq, -⟩
        · rwa [heq]
        · rw [heq, List.nodup_append]
          exact ⟨ih, List.nodup_singleton pid,
            List.disjoint_singleton.2 (not_mem_spawned hs.performed hpending hfresh hcreate)⟩
      · rwa [heq]
    | perform =>
      rcases perform_cases hstep with ⟨_, _, _, _, rfl⟩ | ⟨_, _, _, _, rfl⟩ | ⟨_, _, _, _, _, _, _, _, rfl⟩ <;>
        simpa using ih
    | request _ | oom _ | tick | childExit _ _ | report _ =>
      rw [(frame_of_step hstep (fun _ => by nofun) (by nofun)).1]; exact ih

end System

/-- In every reachable system, the engine terminates no pid twice, no two process contexts hold
the same pid, and no context holds a pid the engine has terminated: each child is stopped at most
once, and never while a context still holds it. -/
theorem stops_once {k : Nat} {sys : System} (hs : System.Reachable k sys) :
    sys.engine.terminated.Nodup ∧ sys.engine.held.Nodup ∧ ∀ pid ∈ sys.engine.terminated, pid ∉ sys.engine.held := by
  have h := nodup_of_subperm (accounted_reachable hs.engine) hs.spawned_nodup
  rw [List.nodup_append] at h
  exact ⟨h.1, h.2.1, fun _ hT hH => h.2.2 hT hH⟩

/-- `app` started as pid 1, stopped, and started again as pid 2: pid 1 is terminated once, pid 2 is
held. -/
theorem stops_once_restarted :
    ∃ sys, System.run 3 restartRun exitQueued = some sys ∧ sys.engine.terminated = [1] ∧ sys.engine.held = [2] ∧
      sys.engine.terminated.Nodup ∧ sys.engine.held.Nodup ∧ ∀ pid ∈ sys.engine.terminated, pid ∉ sys.engine.held := by
  obtain ⟨sys, hrun, hterminated, hheld⟩ : ∃ sys, System.run 3 restartRun exitQueued = some sys ∧
      sys.engine.terminated = [1] ∧ sys.engine.held = [2] := ⟨_, rfl, rfl, rfl⟩
  exact ⟨sys, hrun, hterminated, hheld,
    stops_once (((System.Reachable.init deployment).run run_stopRestartRun).run hrun)⟩

end Northstar

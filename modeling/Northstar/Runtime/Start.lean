import Northstar.Runtime.Invariants

/-!
# Starting a container

What `State::start` leaves behind, from every state.

A start that fails in its mounts returns the last failure and keeps what the other mounts did:
the containers whose mounts succeeded stay in the map, and nothing unmounts them
(`start_keeps_failed_mounts`). Only the rejections before the mounts leave the state as it was.

A container without `init` is rejected only when it is mapped: the check reads the mapped entry's
manifest. An unmapped one is mounted with its resources and handed to `Island::create`, whose
`init_argv` panics (`start_resource_container`).

A successful start followed by `stop` leaves the map as the mounts left it
(`start_stop_adds_mounts`): the entries the start found are unchanged, and the ones it added, for
the container and its missing resources, have no process.
-/

namespace Northstar

open State

variable {s s' : State} {c : Container} {env : Env}

/-! ### A failed start keeps its mounts -/

theorem start_keeps_failed_mounts (s : State) (c : Container) (env : Env) :
    (∀ e, needMount s c = .error e → start c env s = .error (.error e) s) ∧
    ∀ cs, needMount s c = .ok cs → ∀ e, lastError (mountResults env.mount (s.spawnMounts cs).1) = some e →
      ∃ s', start c env s = .error (.error e) s' ∧
        ∀ mc, .ok mc ∈ mountResults env.mount (s.spawnMounts cs).1 →
          mc.container ∈ s'.containers ∧ mc.container ∉ s.containers := by
  refine ⟨fun e he => by simp [start, he], fun cs hcs e he => ?_⟩
  obtain ⟨npk, key, -, hnpk, hmem⟩ := mem_needMount hcs
  have hm := mountAll_lastError (spawnMounts_of_npk hnpk) he
  refine ⟨_, by simp only [start, hcs, hm]; rfl, fun mc hmc => ?_⟩
  obtain ⟨-, -, -, -, -, hcs', -⟩ := spawned_result hmc
  exact ⟨mem_insertMounted.2 (.inr ⟨mc, hmc, rfl⟩), ((hmem _).1 hcs').1⟩

/-- The first `MountControl::mount` succeeds, every later one fails. -/
def firstMountOnly : Env := { succeeding 1 with mount := (· == 0) }

/-- Starting `app` mounts `app` and `res`; the mount of `res` fails, and `app` stays mapped. -/
theorem start_keeps_failed_mounts_app :
    ∃ s', start app firstMountOnly (State.new deployment) = .error (.error .mount) s' ∧
      app ∈ s'.containers ∧ app ∉ (State.new deployment).containers := by
  obtain ⟨s', hs', hmounted⟩ := (start_keeps_failed_mounts (State.new deployment) app firstMountOnly).2
    [app, res] rfl .mount rfl
  exact ⟨s', hs', hmounted ⟨app, appNpk.manifest, ⟨app⟩, .loopback, none⟩ (by decide)⟩

/-! ### Starting a container without `init` -/

/-- A start finds every resource it mounts installed and every mount succeeding: it reaches the
launcher with the container mapped. -/
theorem start_mounts_unmapped {npk : Npk} {key : Option String} (hnpk : s.npk c = some (npk, key))
    (hc : c ∉ s.containers) (hres : ∀ r ∈ npk.manifest.resources, r ∉ s.containers → (s.npk r).isSome)
    (hmount : ∀ i, env.mount i = true) :
    ∃ s₁ mc, start c env s = launch c env s₁ ∧ s₁.containers.lookup c = some mc ∧
      mc.manifest = npk.manifest := by
  have hfind : (missingResources s npk).find? (fun r => (s.npk r).isNone) = none :=
    List.find?_eq_none.2 fun r hr => by
      obtain ⟨hr, hx⟩ := List.mem_filter.1 hr
      simpa [Option.isSome_iff_ne_none] using hres r hr (by simpa using hx)
  obtain ⟨cs, hcs⟩ : ∃ cs, needMount s c = .ok cs :=
    ⟨_, by simp only [needMount, hnpk, startChecks, AList.lookup_eq_none.2 hc, hfind]; rfl⟩
  obtain ⟨npk₀, key₀, -, hcsnpk, hmem⟩ := mem_needMount hcs
  obtain ⟨s₁, hm⟩ : ∃ s₁, mountAll cs env.mount s = .ok () s₁ :=
    ⟨_, by simp only [mountAll, spawnMounts_of_npk hcsnpk, lastError_mountResults hmount]; rfl⟩
  have hcm : c ∈ cs := (hmem c).2 ⟨hc, .inl rfl⟩
  obtain ⟨mc, hl, -⟩ := (lookup_mountAll_ok hm c).2 hcm hc
  refine ⟨s₁, mc, by simp only [start, hcs, hm], hl, ?_⟩
  rw [(mountAll_ok hm).2.2] at hl
  rcases lookup_insertMounted hl with hl' | ⟨hmc, rfl⟩
  · exact absurd (AList.lookup_isSome.1 (Option.isSome_iff_exists.2 ⟨mc, hl'⟩)) hc
  · obtain ⟨npk', key', hnpk', hmanifest, -⟩ := spawned_result hmc
    rw [hnpk, Option.some.injEq, Prod.mk.injEq] at hnpk'
    exact hnpk'.1 ▸ hmanifest

theorem start_resource_container (s : State) (c : Container) (env : Env) (npk : Npk) (key : Option String)
    (hnpk : s.npk c = some (npk, key)) :
    (∀ mc, s.containers.lookup c = some mc → mc.manifest.init = none →
      start c env s = .error (.error (.startContainerResource c)) s) ∧
    (npk.manifest.init = none → c ∉ s.containers →
      (∀ r ∈ npk.manifest.resources, r ∉ s.containers → (s.npk r).isSome) → (∀ i, env.mount i = true) →
      ∃ s', start c env s = .error (.panic "Attempt to use init from resource container") s' ∧
        c ∈ s'.containers) := by
  refine ⟨fun mc hl hinit => by simp [start, needMount, hnpk, startChecks, hl, hinit], fun hinit hc hres hmount => ?_⟩
  obtain ⟨s₁, mc, hstart, hl, hmanifest⟩ := start_mounts_unmapped hnpk hc hres hmount
  refine ⟨s₁, ?_, AList.lookup_isSome.1 (Option.isSome_iff_exists.2 ⟨mc, hl⟩)⟩
  rw [hstart]
  simp [launch, hl, hmanifest, hinit]

/-- `res` has no `init` and nothing mapped: starting it mounts it and panics in `init_argv`. -/
theorem start_resource_container_res :
    ∃ s', start res (succeeding 1) (State.new deployment) =
      .error (.panic "Attempt to use init from resource container") s' ∧ res ∈ s'.containers :=
  (start_resource_container (State.new deployment) res (succeeding 1) resNpk none rfl).2 rfl (by decide)
    (by simp [resNpk, Manifest.resources]) fun _ => rfl

/-! ### Start, then stop -/

/-- Launching sets the container's process and stopping clears it again: what remains is the
map the mounts left, with the container's entry process-less. -/
theorem lookup_launch_stop {s₀ : State} {e e' : Effect} {p : Option ProcessContext} (x : Container) :
    ((((s₀.emit e).setProcess c p).emit e').setProcess c none).containers.lookup x =
      if x = c then (s₀.containers.lookup c).map ({· with process := none}) else s₀.containers.lookup x := by
  by_cases hx : x = c
  · subst hx
    simp only [lookup_setProcess, emit_containers, if_pos, Option.map_map]
    rfl
  · simp [lookup_setProcess, hx]

/-- Stopping a container just launched clears its process and leaves every other entry as the
launcher found it. -/
theorem stop_launch {s₀ s₁ : State} (hl : launch c env s₀ = .ok () s₁) (t : Nat) :
    ∃ s₂, stop c t s₁ = .ok () s₂ ∧ ∀ x, s₂.containers.lookup x =
      if x = c then (s₀.containers.lookup c).map ({· with process := none}) else s₀.containers.lookup x := by
  obtain ⟨mc, pid, hmc, -, -, rfl⟩ := launch_ok hl
  have hc₀ : c ∈ s₀.containers := AList.lookup_isSome.1 (Option.isSome_iff_exists.2 ⟨mc, hmc⟩)
  have hproc : (((s₀.emit (.spawn pid c)).setProcess c (some ⟨pid, mc.manifest.cgroups⟩)).emit
      (.send (.notification (.started c)))).process c = some ⟨pid, mc.manifest.cgroups⟩ := by
    show ((s₀.emit _).setProcess c _).process c = _
    rw [process_setProcess, if_pos ⟨rfl, hc₀⟩]
  exact ⟨_, stop_of_process hproc, fun x => by simp only [emit_containers, lookup_launch_stop]⟩

theorem start_stop_adds_mounts {s s₁ : State} {c : Container} {env : Env}
    (hstart : start c env s = .ok () s₁) (t : Nat) :
    ∃ npk key s₂, s.npk c = some (npk, key) ∧ stop c t s₁ = .ok () s₂ ∧
      ∀ x, (x ∈ s.containers → s₂.containers.lookup x = s.containers.lookup x) ∧
        (x ∉ s.containers → (x ∈ s₂.containers ↔ x = c ∨ x ∈ npk.manifest.resources) ∧
          ∀ mc, s₂.containers.lookup x = some mc → mc.process = none) := by
  obtain ⟨cs, s₀, hcs, hm, hl⟩ := start_ok hstart
  obtain ⟨npk, key, hnpk, -, hmem⟩ := mem_needMount hcs
  obtain ⟨npk', key', -, -, hself, -⟩ := needMount_ok hcs
  obtain ⟨s₂, hstop, hlookup⟩ := stop_launch hl t
  refine ⟨npk, key, s₂, hnpk, hstop, fun x => ⟨fun hx => ?_, fun hx => ?_⟩⟩
  all_goals obtain ⟨hout, hin⟩ := lookup_mountAll_ok hm x
  · -- an entry the start found: the mounts left it, and if it is the container's, it had no process
    have hxcs : x ∉ cs := fun h => ((hmem x).1 h).1 hx
    rw [hlookup]
    split
    · subst x
      obtain ⟨⟨_, _, _, _, _⟩, hmc₀⟩ := Option.isSome_iff_exists.1 (AList.lookup_isSome.2 hx)
      obtain ⟨-, rfl⟩ := hself _ hmc₀
      rw [hout hxcs, hmc₀]
      rfl
    · exact hout hxcs
  · -- an entry the start added: one for each container it mounted, without a process
    rw [← (hmem x).trans (and_iff_right hx), ← AList.lookup_isSome, hlookup]
    split
    · subst x
      obtain ⟨mc', hmc', -⟩ := hin ((hmem c).2 ⟨hx, .inl rfl⟩) hx
      simp [hmc', (hmem c).2 ⟨hx, .inl rfl⟩]
    · by_cases hxcs : x ∈ cs
      · obtain ⟨mc', hmc', hnone⟩ := hin hxcs hx
        simp [hmc', hxcs, hnone]
      · simp [hout hxcs, AList.lookup_eq_none.2 hx, hxcs]

/-- Starting `app` from `deployment` mounts `app` and `res`; stopping it leaves both mapped
without a process. -/
theorem start_stop_adds_mounts_app :
    ∃ s₁, start app (succeeding 1) (State.new deployment) = .ok () s₁ ∧
      ∃ npk key s₂, (State.new deployment).npk app = some (npk, key) ∧ stop app 5 s₁ = .ok () s₂ ∧
        ∀ x, (x ∈ (State.new deployment).containers →
            s₂.containers.lookup x = (State.new deployment).containers.lookup x) ∧
          (x ∉ (State.new deployment).containers → (x ∈ s₂.containers ↔ x = app ∨ x ∈ npk.manifest.resources) ∧
            ∀ mc, s₂.containers.lookup x = some mc → mc.process = none) := by
  obtain ⟨s₁, h⟩ : ∃ s₁, start app (succeeding 1) (State.new deployment) = .ok () s₁ := ⟨_, rfl⟩
  exact ⟨s₁, h, start_stop_adds_mounts h 5⟩

end Northstar

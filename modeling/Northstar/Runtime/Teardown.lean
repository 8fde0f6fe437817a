import Northstar.Runtime.Invariants

/-!
# Unmounting, uninstalling and shutting down

`State::umount` refuses exactly a container that runs, or a container without `init` that a
running entry names as a resource; it then changes nothing, and `uninstall` returns its error. An
`umount` that succeeds removes the container's entry and no other, and an `uninstall` that
succeeds leaves the container in no repository (`umount_busy_iff`).

`State::shutdown` stops every started container and then unmounts every entry. In whatever order
the map yields the entries, no stop and no umount fails: after the stops nothing runs, so no
resource is busy. The map ends empty, and the roots `MountControl` holds lose one occurrence per
entry (`shutdown_unmounts_all`). Each loop is proved by a contract for one step and an induction
over a duplicate-free list of containers, so the order is a parameter.
-/

namespace Northstar

open State

variable {s s' : State} {c : Container} {env : Env}

/-! ### The busy check -/

theorem usedAsResource_iff : s.usedAsResource c = true ↔
    ∃ c' mc', s.containers.lookup c' = some mc' ∧ mc'.process.isSome ∧ c ∈ mc'.manifest.resources := by
  simp only [usedAsResource, List.any_eq_true, Bool.and_eq_true, List.elem_iff, List.contains]
  constructor
  · rintro ⟨⟨c', mc'⟩, hmem, hp, hr⟩
    exact ⟨c', mc', AList.mem_lookup_iff.2 hmem, hp, hr⟩
  · rintro ⟨c', mc', hl, hp, hr⟩
    exact ⟨⟨c', mc'⟩, AList.mem_lookup_iff.1 hl, hp, hr⟩

/-- `umount` of a mapped container: refused when busy, the entry and one occurrence of its root
removed otherwise. -/
theorem umount_of_lookup {mc : MountedContainer} (hc : s.containers.lookup c = some mc) :
    umount c s =
      if mc.process.isSome ∨ mc.manifest.init = none ∧ s.usedAsResource c = true then
        .error (.error (.umountBusy c)) s
      else .ok () { s with mountControl := s.mountControl.erase mc.root, containers := s.containers.erase c } := by
  unfold umount
  rw [hc]
  by_cases hp : mc.process.isSome <;> by_cases hi : mc.manifest.init = none <;> simp [hp, hi]

/-! ### The removal loop -/

/-- No repository of the identity holds the container. -/
def Cleared (c : Container) (id : RepositoryId) (s : State) : Prop :=
  ∀ r, s.repositories.lookup id = some r → ¬ r.Contains c

/-- One removal clears its repository and keeps every other cleared. -/
theorem cleared_removeFrom {id id' : RepositoryId} (h : removeFrom c env id' s = .ok () s')
    (hid : id = id' ∨ Cleared c id s) : Cleared c id s' := by
  unfold removeFrom at h
  split at h
  · cases h
  · split at h
    · rename_i hl
      cases h
      rcases hid with rfl | hid
      · intro r hr; simp [hl] at hr
      · exact hid
    · rename_i r' hl
      cases h
      intro r hr
      by_cases hid' : id = id'
      · subst hid'
        rw [lookup_replace_self (AList.lookup_isSome.1 (by simp [hl])), Option.some.injEq] at hr
        subst hr
        exact fun hc => (Repository.contains_remove.1 hc).2 rfl
      · rw [lookup_replace_ne hid'] at hr
        exact (hid.resolve_left hid') r hr

theorem cleared_forEach {ids : List RepositoryId} {id : RepositoryId}
    (h : forEach (removeFrom c env) ids s = .ok () s') (hid : id ∈ ids ∨ Cleared c id s) : Cleared c id s' := by
  induction ids generalizing s with
  | nil => cases h; exact hid.resolve_left (List.not_mem_nil id)
  | cons id' ids ih =>
    obtain ⟨s₁, h₁, h⟩ := forEach_cons_eq_ok.1 h
    by_cases hmem : id ∈ ids
    · exact ih h (.inl hmem)
    · exact ih h (.inr (cleared_removeFrom h₁ (hid.imp_left fun hid => (List.mem_cons.1 hid).resolve_right hmem)))

/-- An `uninstall` that succeeds leaves the container in no repository. -/
theorem cleared_uninstall (h : uninstall c env s = .ok () s') (id : RepositoryId) : Cleared c id s' := by
  unfold uninstall at h
  split at h
  · cases h
  · rename_i s₁ _
    intro r hr
    have hkeys : s'.repositories.keys = s₁.repositories.keys :=
      Preserves.forEach (repositoryIds_removeFrom env) _ s₁ s' rfl (by rw [h]; rfl)
    have hmem : id ∈ s₁.repositories.keys := by
      rw [← hkeys]
      exact AList.mem_keys.1 (AList.lookup_isSome.1 (by simp [hr]))
    exact cleared_forEach h (.inl hmem) r hr

/-- With every `Repository::remove` succeeding, the loop runs to its end. -/
theorem forEach_removeFrom_ok (hremove : ∀ id, env.remove id = .ok ()) (ids : List RepositoryId) (s : State) :
    ∃ s', forEach (removeFrom c env) ids s = .ok () s' := by
  induction ids generalizing s with
  | nil => exact ⟨s, rfl⟩
  | cons id ids ih =>
    obtain ⟨s₁, h₁⟩ : ∃ s₁, removeFrom c env id s = .ok () s₁ := by
      simp only [removeFrom, hremove id]
      split
      · exact ⟨s, rfl⟩
      · exact ⟨_, rfl⟩
    obtain ⟨s', h'⟩ := ih s₁
    exact ⟨s', (forEach_cons_of_ok h₁ ids).trans h'⟩

theorem umount_busy_iff (s : State) (c : Container) (env : Env) (mc : MountedContainer)
    (hc : s.containers.lookup c = some mc) :
    ((∃ s', umount c s = .error (.error (.umountBusy c)) s') ↔
      mc.process.isSome ∨ mc.manifest.init = none ∧
        ∃ c' mc', s.containers.lookup c' = some mc' ∧ mc'.process.isSome ∧ c ∈ mc'.manifest.resources) ∧
    (∀ f s', umount c s = .error f s' → f = .error (.umountBusy c) ∧ s' = s ∧ uninstall c env s = .error f s) ∧
    (∀ s', umount c s = .ok () s' → s'.repositories = s.repositories ∧ s'.containers.lookup c = none ∧
      ∀ c', c' ≠ c → s'.containers.lookup c' = s.containers.lookup c') ∧
    (∀ s', uninstall c env s = .ok () s' → ∀ id r, s'.repositories.lookup id = some r → ¬ r.Contains c) ∧
    ((∀ id, env.remove id = .ok ()) → (∃ s', umount c s = .ok () s') → ∃ s', uninstall c env s = .ok () s') := by
  have hmapped : c ∈ s.containers := AList.lookup_isSome.1 (by simp [hc])
  rw [← usedAsResource_iff]
  refine ⟨?_, fun f s' h => ?_, fun s' h => ?_, fun s' h => cleared_uninstall h, fun hremove ⟨s₁, h⟩ => ?_⟩
  · rw [umount_of_lookup hc]
    split <;> simp_all
  · rw [umount_of_lookup hc] at h
    split at h
    · cases h
      exact ⟨rfl, rfl, by simp only [uninstall, if_pos hmapped, umount_of_lookup hc, if_pos ‹_›]⟩
    · cases h
  · rw [umount_of_lookup hc] at h
    split at h
    · cases h
    · cases h
      exact ⟨rfl, by simp, fun c' hne => AList.lookup_erase_ne hne⟩
  · simp only [uninstall, if_pos hmapped, h]
    exact forEach_removeFrom_ok hremove _ _

/-- With `app` running, `res` is busy: it has no `init` and `app` names it as a resource. -/
theorem umount_busy_iff_res :
    ∃ s mc, run [(request (.start app), succeeding 1)] (State.new deployment) = some s ∧
      s.containers.lookup res = some mc ∧ ∃ s', umount res s = .error (.error (.umountBusy res)) s' := by
  obtain ⟨s, mc, hrun, hl, hbusy⟩ : ∃ s mc, run [(request (.start app), succeeding 1)] (State.new deployment) =
      some s ∧ s.containers.lookup res = some mc ∧ (mc.process.isSome ∨ mc.manifest.init = none ∧
        ∃ c' mc', s.containers.lookup c' = some mc' ∧ mc'.process.isSome ∧ res ∈ mc'.manifest.resources) :=
    ⟨_, _, rfl, rfl, .inr ⟨rfl, app, _, rfl, rfl, by decide⟩⟩
  exact ⟨s, mc, hrun, hl, (umount_busy_iff s res (succeeding 1) mc hl).1.2 hbusy⟩

/-! ### Shutting down -/

theorem setProcess_keys (p : Option ProcessContext) : (s.setProcess c p).containers.keys = s.containers.keys := by
  unfold setProcess
  split
  · rfl
  · exact AList.keys_replace _ _ _

/-- The containers `shutdown` stops: those with a process context, in the map's order. -/
theorem started_eq (l : List (Sigma fun _ : Container => MountedContainer)) :
    l.filterMap (fun e => e.2.process.map fun _ => e.1) = (l.filter fun e => e.2.process.isSome).map (·.1) := by
  induction l with
  | nil => rfl
  | cons e l ih => cases h : e.2.process <;> simp [List.filter_cons, h, ih]

theorem mem_started {x : Container} :
    x ∈ s.containers.entries.filterMap (fun e => e.2.process.map fun _ => e.1) ↔ (s.process x).isSome := by
  simp only [List.mem_filterMap, Option.map_eq_some', State.process]
  constructor
  · rintro ⟨⟨x, mc⟩, hmem, ctx, hctx, rfl⟩
    rw [AList.mem_lookup_iff.2 hmem]
    simp only at hctx
    simp [hctx]
  · intro h
    obtain ⟨mc, hmc, ctx, hctx⟩ : ∃ mc, s.containers.lookup x = some mc ∧ ∃ ctx, mc.process = some ctx := by
      cases hl : s.containers.lookup x <;> simp_all [Option.isSome_iff_exists]
    exact ⟨⟨x, mc⟩, AList.mem_lookup_iff.1 hmc, ctx, hctx, rfl⟩

/-- One `stop` of a started container clears its process and keeps the keys, the roots and
`MountControl`. -/
theorem stop_started {ctx : ProcessContext} (hctx : s.process c = some ctx) (t : Nat) :
    ∃ s₁, stop c t s = .ok () s₁ ∧ s₁.containers.keys = s.containers.keys ∧ s₁.mountControl = s.mountControl ∧
      (∀ x, (s₁.containers.lookup x).map (·.root) = (s.containers.lookup x).map (·.root)) ∧
      ∀ x, s₁.process x = if x = c then none else s.process x := by
  have hmem : c ∈ s.containers := by
    simp only [State.process, Option.bind_eq_some] at hctx
    obtain ⟨mc, hmc, -⟩ := hctx
    exact AList.lookup_isSome.1 (by simp [hmc])
  refine ⟨_, stop_of_process hctx, setProcess_keys none, setProcess_mountControl none, fun x => ?_, fun x => ?_⟩
  · rw [emit_containers, emit_containers, lookup_setProcess]
    split
    · subst x; rw [Option.map_map]; rfl
    · rfl
  · rw [process_emit, process_emit, process_setProcess]
    by_cases hx : x = c <;> simp [hx, hmem]

/-- The stop loop over containers that all run, each once: it clears their processes and keeps
the keys, the roots and `MountControl`. -/
theorem forEach_stop (t : Nat) : ∀ (l : List Container) (s : State), l.Nodup → (∀ c ∈ l, (s.process c).isSome) →
    ∃ s', forEach (stop · t) l s = .ok () s' ∧ s'.containers.keys = s.containers.keys ∧
      s'.mountControl = s.mountControl ∧
      (∀ x, (s'.containers.lookup x).map (·.root) = (s.containers.lookup x).map (·.root)) ∧
      ∀ x, s'.process x = if x ∈ l then none else s.process x
  | [], s, _, _ => ⟨s, rfl, rfl, rfl, fun _ => rfl, fun x => by simp⟩
  | c :: l, s, hnd, hp => by
    obtain ⟨hc, hnd⟩ := List.nodup_cons.1 hnd
    obtain ⟨ctx, hctx⟩ := Option.isSome_iff_exists.1 (hp c (List.mem_cons_self c l))
    obtain ⟨s₁, h₁, hkeys₁, hmc₁, hroots₁, hproc₁⟩ := stop_started hctx t
    obtain ⟨s', h', hkeys, hmc, hroots, hproc⟩ := forEach_stop t l s₁ hnd fun x hx => by
      rw [hproc₁, if_neg (ne_of_mem_of_not_mem hx hc)]
      exact hp x (List.mem_cons_of_mem c hx)
    refine ⟨s', (forEach_cons_of_ok (f := (stop · t)) h₁ l).trans h', hkeys.trans hkeys₁, hmc.trans hmc₁,
      fun x => (hroots x).trans (hroots₁ x), fun x => ?_⟩
    rw [hproc, hproc₁]
    by_cases hx : x = c <;> simp [hx]

/-- One `umount` of a mapped container when nothing runs: it succeeds, and removes the entry and
one occurrence of its root. -/
theorem umount_idle {mc : MountedContainer} (hmc : s.containers.lookup c = some mc)
    (hidle : ∀ x, s.process x = none) :
    ∃ s₁, umount c s = .ok () s₁ ∧ (∀ x, s₁.containers.lookup x = if x = c then none else s.containers.lookup x) ∧
      s₁.mountControl = s.mountControl.erase mc.root ∧ ∀ x, s₁.process x = none := by
  have hnone : mc.process = none := by simpa [State.process, hmc] using hidle c
  have hfree : s.usedAsResource c = false := by
    refine Bool.eq_false_iff.2 fun h => ?_
    obtain ⟨c', mc', hl', hp', -⟩ := usedAsResource_iff.1 h
    have hidle' := hidle c'
    simp only [State.process, hl', Option.some_bind] at hidle'
    simp [hidle'] at hp'
  have hl : ∀ x, (s.containers.erase c).lookup x = if x = c then none else s.containers.lookup x := fun x => by
    by_cases hx : x = c
    · subst x; simp
    · simp [hx, AList.lookup_erase_ne hx]
  refine ⟨_, by rw [umount_of_lookup hmc, if_neg (by simp [hnone, hfree])], hl, rfl, fun x => ?_⟩
  show ((s.containers.erase c).lookup x).bind (·.process) = none
  rw [hl]
  split
  · rfl
  · exact hidle x

/-- The umount loop over mapped containers, each once, when nothing runs: every umount succeeds,
removes its entry and one occurrence of its root. -/
theorem forEach_umount : ∀ (l : List Container) (s : State), l.Nodup → (∀ c ∈ l, c ∈ s.containers) →
    (∀ x, s.process x = none) →
    ∃ s', forEach umount l s = .ok () s' ∧
      (∀ x, s'.containers.lookup x = if x ∈ l then none else s.containers.lookup x) ∧
      s'.mountControl = s.mountControl.diff (l.filterMap fun x => (s.containers.lookup x).map (·.root))
  | [], s, _, _, _ => ⟨s, rfl, fun x => by simp, by simp⟩
  | c :: l, s, hnd, hin, hidle => by
    obtain ⟨hc, hnd⟩ := List.nodup_cons.1 hnd
    obtain ⟨mc, hmc⟩ := Option.isSome_iff_exists.1 (AList.lookup_isSome.2 (hin c (List.mem_cons_self c l)))
    obtain ⟨s₁, h₁, hl₁, hmc₁, hidle₁⟩ := umount_idle hmc hidle
    have hl₁' : ∀ x ∈ l, s₁.containers.lookup x = s.containers.lookup x := fun x hx => by
      rw [hl₁, if_neg (ne_of_mem_of_not_mem hx hc)]
    obtain ⟨s', h', hl', hmc'⟩ := forEach_umount l s₁ hnd (fun x hx => by
      rw [← AList.lookup_isSome, hl₁' x hx, AList.lookup_isSome]
      exact hin x (List.mem_cons_of_mem c hx)) hidle₁
    refine ⟨s', (forEach_cons_of_ok h₁ l).trans h', fun x => ?_, ?_⟩
    · rw [hl', hl₁]
      by_cases hx : x = c <;> simp [hx]
    · rw [hmc', hmc₁, List.filterMap_cons, hmc, Option.map_some', List.diff_cons]
      exact congrArg _ (List.filterMap_congr fun x hx => by rw [hl₁' x hx])

/-- Stopping the started containers and then unmounting every key, each loop in any order. -/
theorem shutdown_loops (s : State) {started : List Container}
    (hstarted : started.Perm (s.containers.entries.filterMap fun e => e.2.process.map fun _ => e.1)) :
    ∃ s₁, forEach (stop · 5) started s = .ok () s₁ ∧ s₁.containers.keys = s.containers.keys ∧
      ∀ keys : List Container, keys.Perm s.containers.keys →
        ∃ s₂, forEach umount keys s₁ = .ok () s₂ ∧ s₂.containers.entries = [] ∧
          s₂.mountControl = s.mountControl.diff (keys.filterMap fun c => (s.containers.lookup c).map (·.root)) := by
  have hnd : started.Nodup := hstarted.nodup_iff.2 (by
    rw [started_eq]
    exact ((List.filter_sublist _).map Sigma.fst).nodup s.containers.keys_nodup)
  obtain ⟨s₁, h₁, hkeys, hmc, hroots, hproc⟩ :=
    forEach_stop 5 started s hnd fun c hc => mem_started.1 (hstarted.subset hc)
  refine ⟨s₁, h₁, hkeys, fun keys hperm => ?_⟩
  have hidle : ∀ x, s₁.process x = none := fun x => by
    rw [hproc]
    split
    · rfl
    · exact Option.not_isSome_iff_eq_none.1 fun h => ‹x ∉ started› (hstarted.mem_iff.2 (mem_started.2 h))
  obtain ⟨s₂, h₂, hl₂, hmc₂⟩ := forEach_umount keys s₁ (hperm.nodup_iff.2 s.containers.keys_nodup)
    (fun c hc => AList.mem_keys.2 (hkeys ▸ hperm.subset hc)) hidle
  have hnone : ∀ x, s₂.containers.lookup x = none := fun x => by
    rw [hl₂]
    split
    · rfl
    · exact AList.lookup_eq_none.2 fun hx => ‹x ∉ keys› (hperm.mem_iff.2 (hkeys ▸ AList.mem_keys.1 hx))
  refine ⟨s₂, h₂, List.eq_nil_iff_forall_not_mem.2 fun ⟨x, mc⟩ he => ?_, ?_⟩
  · simpa [hnone x] using AList.mem_lookup_iff.2 he
  · rw [hmc₂, hmc]
    exact congrArg _ (List.filterMap_congr fun x _ => hroots x)

/-- In every state, `shutdown` stops the started containers and unmounts every entry without an
error: the map ends empty and `MountControl` loses each entry's root once. The same holds for
every order of the two loops. -/
theorem shutdown_unmounts_all (s : State) :
    (∃ s', shutdown s = .ok () s' ∧ s'.containers.entries = [] ∧
      s'.mountControl = s.mountControl.diff
        (s.containers.keys.filterMap fun c => (s.containers.lookup c).map (·.root))) ∧
    ∀ started keys : List Container,
      started.Perm (s.containers.entries.filterMap fun e => e.2.process.map fun _ => e.1) →
      keys.Perm s.containers.keys →
      ∃ s₁ s₂, forEach (stop · 5) started s = .ok () s₁ ∧ forEach umount keys s₁ = .ok () s₂ ∧
        s₂.containers.entries = [] ∧
        s₂.mountControl = s.mountControl.diff (keys.filterMap fun c => (s.containers.lookup c).map (·.root)) := by
  refine ⟨?_, fun started keys hstarted hkeys => ?_⟩
  · obtain ⟨s₁, h₁, hkeys₁, hloop⟩ := shutdown_loops s (List.Perm.refl _)
    obtain ⟨s₂, h₂, hempty, hmc⟩ := hloop s₁.containers.keys (hkeys₁ ▸ List.Perm.refl _)
    refine ⟨s₂, by simp only [shutdown, h₁]; exact h₂, hempty, by rw [hmc, hkeys₁]⟩
  · obtain ⟨s₁, h₁, -, hloop⟩ := shutdown_loops s hstarted
    obtain ⟨s₂, h₂, hempty, hmc⟩ := hloop keys hkeys
    exact ⟨s₁, s₂, h₁, h₂, hempty, hmc⟩

/-- With `app` running, unmounting the resource `res` before `app`, which uses it, succeeds. -/
theorem shutdown_unmounts_all_started :
    ∃ s, run [(request (.start app), succeeding 1)] (State.new deployment) = some s ∧
      ∃ s₁ s₂, forEach (stop · 5) [app] s = .ok () s₁ ∧ forEach umount [res, app] s₁ = .ok () s₂ ∧
        s₂.containers.entries = [] := by
  obtain ⟨s, hrun, hstarted, hkeys⟩ : ∃ s, run [(request (.start app), succeeding 1)] (State.new deployment) =
      some s ∧ [app].Perm (s.containers.entries.filterMap fun e => e.2.process.map fun _ => e.1) ∧
      [res, app].Perm s.containers.keys :=
    ⟨_, rfl, by decide, by decide⟩
  obtain ⟨s₁, s₂, h₁, h₂, hempty, -⟩ := (shutdown_unmounts_all s).2 [app] [res, app] hstarted hkeys
  exact ⟨s, hrun, s₁, s₂, h₁, h₂, hempty⟩

end Northstar

import Mathlib.Data.List.Dedup
import Northstar.Runtime.Frame

/-!
# What each operation can do

One inversion lemma per operation: every state the operation can leave, with the guards that
led there. `Preserves P op` says that `op` keeps `P`; `preserves_handle` assembles it for the
handling of any event from the facts about the operations, so that an invariant of the engine
needs one lemma per operation and no case analysis of the dispatch.
-/

namespace Northstar

open State

variable {s s' : State} {c : Container} {env : Env}

@[simp] theorem next_ok {α : Type} (a : α) : next (.ok a s) = some s := rfl
@[simp] theorem next_error (e : Error) {α : Type} : next (α := α) (.error (.error e) s) = some s := rfl
@[simp] theorem next_panic (m : String) {α : Type} : next (α := α) (.error (.panic m) s) = none := rfl

theorem next_respond (r : EStateM.Result Fault State Unit) : next (respond r) = next r := by
  rcases r with ⟨⟨⟩, s⟩ | ⟨e | m, s⟩ <;> rfl

/-- An operation that did not panic returned `Ok` or `Err`, in the state it left. -/
theorem next_eq_some {α : Type} {r : EStateM.Result Fault State α} (h : next r = some s') :
    (∃ a, r = .ok a s') ∨ ∃ e, r = .error (.error e) s' := by
  rcases r with ⟨a, s⟩ | ⟨e | m, s⟩ <;> simp_all

/-! ### Mounting -/

/-- What a successful spawned mount yields: the package's manifest at the identity's root, with
no process. -/
theorem spawned_result {cs : List Container} {ok : Nat → Bool} {mc : MountedContainer}
    (h : .ok mc ∈ mountResults ok (s.spawnMounts cs).1) :
    ∃ npk key, s.npk mc.container = some (npk, key) ∧ mc.manifest = npk.manifest ∧
      mc.process = none ∧ mc.container ∈ cs ∧ mc.root = ⟨mc.container⟩ := by
  obtain ⟨task, htask, rfl⟩ := mem_mountResults h
  obtain ⟨hmem, hmount⟩ := mem_spawnMounts htask
  obtain ⟨npk, key, hnpk, -, hmanifest, hroot⟩ := mount_eq_ok hmount
  exact ⟨npk, key, hnpk, hmanifest, rfl, hmem, hroot⟩

/-- The states `mountAll` and the bulk mount leave: the roots of the successful mounts added,
and the mounted containers inserted unless a `?` returned first. -/
def Mounted (cs : List Container) (ok : Nat → Bool) (s s' : State) : Prop :=
  s' = s.completeMounts (mountResults ok (s.spawnMounts cs).1) ∨
    s' = (s.completeMounts (mountResults ok (s.spawnMounts cs).1)).insertMounted
      (mountResults ok (s.spawnMounts cs).1)

theorem mountAll_state {cs : List Container} {ok : Nat → Bool}
    (h : next (mountAll cs ok s) = some s') : Mounted cs ok s s' := by
  unfold mountAll at h
  simp only at h
  split at h
  · exact .inl (by simpa [eq_comm] using h)
  · split at h <;> exact .inr (by simpa [eq_comm] using h)

theorem mountAll_ok {cs : List Container} {ok : Nat → Bool} (h : mountAll cs ok s = .ok () s') :
    (s.spawnMounts cs).2 = none ∧ lastError (mountResults ok (s.spawnMounts cs).1) = none ∧
      s' = (s.completeMounts (mountResults ok (s.spawnMounts cs).1)).insertMounted
        (mountResults ok (s.spawnMounts cs).1) := by
  unfold mountAll at h
  simp only at h
  split at h
  · simp at h
  · rename_i hrej
    split at h
    · simp at h
    · rename_i herr
      simp only [EStateM.Result.ok.injEq, true_and] at h
      exact ⟨hrej, herr, h.symm⟩

theorem mountAll_ok_mounted {cs : List Container} {ok : Nat → Bool} (h : mountAll cs ok s = .ok () s') :
    Mounted cs ok s s' :=
  .inr (mountAll_ok h).2.2

/-- After a successful `mountAll` every container it was given is mapped. -/
theorem mem_of_mountAll_ok {cs : List Container} {ok : Nat → Bool}
    (h : mountAll cs ok s = .ok () s') {x : Container} (hx : x ∈ cs) : x ∈ s'.containers := by
  obtain ⟨hrej, herr, rfl⟩ := mountAll_ok h
  rw [← spawnMounts_of_none hrej, List.mem_map] at hx
  obtain ⟨task, htask, rfl⟩ := hx
  exact mem_insertMounted.2 (.inr ⟨task.mounted, mem_mountResults_of_lastError herr htask, rfl⟩)

/-- Identities that all have packages get their tasks: the loop's `?` does not return. -/
theorem spawnMounts_of_npk {cs : List Container} (h : ∀ x ∈ cs, (s.npk x).isSome) :
    (s.spawnMounts cs).2 = none := by
  induction cs with
  | nil => rfl
  | cons x cs ih =>
    obtain ⟨⟨npk, key⟩, hx⟩ := Option.isSome_iff_exists.1 (h x (List.mem_cons_self x cs))
    simp [spawnMounts, mount, hx, ih fun y hy => h y (List.mem_cons_of_mem x hy)]

theorem lastError_mountResults {ok : Nat → Bool} (hok : ∀ i, ok i = true) (tasks : List MountTask) :
    lastError (mountResults ok tasks) = none := by
  induction tasks generalizing ok with
  | nil => rfl
  | cons t ts ih => simp [mountResults, hok 0, lastError, ih fun i => hok (i + 1)]

/-- A failed mount ends `mountAll` with the last failure, after the others were inserted. -/
theorem mountAll_lastError {cs : List Container} {ok : Nat → Bool} {e : Error}
    (hrej : (s.spawnMounts cs).2 = none) (he : lastError (mountResults ok (s.spawnMounts cs).1) = some e) :
    mountAll cs ok s = .error (.error e)
      ((s.completeMounts (mountResults ok (s.spawnMounts cs).1)).insertMounted
        (mountResults ok (s.spawnMounts cs).1)) := by
  simp [mountAll, hrej, he]

/-- After a successful `mountAll`, the containers it was given that were not mapped have
process-less entries, and every other entry is as it was. -/
theorem lookup_mountAll_ok {cs : List Container} {ok : Nat → Bool} (h : mountAll cs ok s = .ok () s')
    (x : Container) :
    (x ∉ cs → s'.containers.lookup x = s.containers.lookup x) ∧
      (x ∈ cs → x ∉ s.containers → ∃ mc, s'.containers.lookup x = some mc ∧ mc.process = none) := by
  have hs' := (mountAll_ok h).2.2
  refine ⟨fun hx => ?_, fun hx hxs => ?_⟩
  · rw [hs']
    refine lookup_insertMounted_of_forall fun mc hmc hc => hx ?_
    obtain ⟨-, -, -, -, -, hcs, -⟩ := spawned_result hmc
    exact hc ▸ hcs
  · obtain ⟨mc, hmc⟩ := Option.isSome_iff_exists.1 (AList.lookup_isSome.2 (mem_of_mountAll_ok h hx))
    refine ⟨mc, hmc, ?_⟩
    rw [hs'] at hmc
    rcases lookup_insertMounted hmc with hl | ⟨hr, -⟩
    · exact absurd (AList.lookup_isSome.1 (Option.isSome_iff_exists.2 ⟨mc, hl⟩)) hxs
    · obtain ⟨-, -, -, -, hnone, -⟩ := spawned_result hr
      exact hnone

theorem mountRequest_state {cs : List Container} {ok : Nat → Bool}
    (h : next (mountRequest cs ok s) = some s') : Mounted cs ok s s' := by
  unfold mountRequest at h
  simp only at h
  split at h
  · exact .inl (by simpa [eq_comm] using h)
  · exact .inr (by simpa [eq_comm] using h)

theorem umount_error {f : Fault} (h : umount c s = .error f s') : s' = s := by
  unfold umount at h
  split at h
  · simp_all
  · split at h
    · simp_all
    · split at h <;> simp_all

theorem umount_state (h : next (umount c s) = some s') :
    s' = s ∨ umount c s = .ok () s' := by
  rcases next_eq_some h with ⟨⟨⟩, hok⟩ | ⟨e, herr⟩
  · exact .inr hok
  · exact .inl (umount_error herr)

theorem umount_ok (h : umount c s = .ok () s') :
    ∃ mc, s.containers.lookup c = some mc ∧ mc.process = none ∧
      ¬ (mc.manifest.init = none ∧ s.usedAsResource c = true) ∧
      s' = { s with mountControl := s.mountControl.erase mc.root, containers := s.containers.erase c } := by
  unfold umount at h
  split at h
  · simp at h
  · rename_i mc hmc
    split at h
    · simp at h
    · rename_i hproc
      split at h
      · simp at h
      · rename_i hbusy
        simp only [EStateM.Result.ok.injEq, true_and] at h
        exact ⟨mc, hmc, by simpa using hproc, by simpa using hbusy, h.symm⟩

/-! ### Starting and stopping -/

theorem startChecks_ok {needSelf : List Container} (h : startChecks s c = .ok needSelf) :
    (∀ mc, s.containers.lookup c = some mc → mc.manifest.init.isSome ∧ mc.process = none) ∧
      (c ∈ s.containers ∨ c ∈ needSelf) := by
  unfold startChecks at h
  split at h
  · rename_i mc hmc
    split at h
    · simp at h
    · split at h
      · simp at h
      · rename_i hinit hproc
        refine ⟨fun mc' hmc' => ?_, .inl (AList.lookup_isSome.1 (by simp [hmc]))⟩
        rw [hmc, Option.some.injEq] at hmc'
        subst hmc'
        exact ⟨Option.isSome_iff_ne_none.2 (by simpa using hinit), by simpa using hproc⟩
  · rename_i hmc
    simp only [Except.ok.injEq] at h
    subst h
    exact ⟨fun mc h => by simp [hmc] at h, .inr (List.mem_singleton_self c)⟩

/-- The container itself needs mounting exactly when it is not mapped. -/
theorem mem_startChecks {needSelf : List Container} (h : startChecks s c = .ok needSelf) {x : Container} :
    x ∈ needSelf ↔ x = c ∧ c ∉ s.containers := by
  unfold startChecks at h
  split at h
  · rename_i mc hmc
    have hc : c ∈ s.containers := AList.lookup_isSome.1 (by simp [hmc])
    split at h
    · simp at h
    · split at h
      · simp at h
      · cases h; simp [hc]
  · rename_i hmc
    cases h
    simp [AList.lookup_eq_none.1 hmc]

/-- A `needMount` that succeeds found the package, passed the checks, and found a package for
every resource it is to mount. -/
theorem needMount_eq_ok {cs : List Container} (h : needMount s c = .ok cs) :
    ∃ npk key needSelf, s.npk c = some (npk, key) ∧ startChecks s c = .ok needSelf ∧
      (missingResources s npk).find? (fun r => (s.npk r).isNone) = none ∧
      cs = (needSelf ++ missingResources s npk).dedup := by
  unfold needMount at h
  split at h
  · cases h
  · rename_i npk key hnpk
    split at h
    · cases h
    · split at h
      · cases h
      · exact ⟨npk, key, _, hnpk, ‹_›, ‹_›, (Except.ok.inj h).symm⟩

/-- What `start` mounts: the container and the resources of its package that are not mapped,
each with a package. -/
theorem mem_needMount {cs : List Container} (h : needMount s c = .ok cs) :
    ∃ npk key, s.npk c = some (npk, key) ∧ (∀ x ∈ cs, (s.npk x).isSome) ∧
      ∀ x, x ∈ cs ↔ x ∉ s.containers ∧ (x = c ∨ x ∈ npk.manifest.resources) := by
  obtain ⟨npk, key, needSelf, hnpk, hchecks, hfind, rfl⟩ := needMount_eq_ok h
  have hmem : ∀ x, x ∈ (needSelf ++ missingResources s npk).dedup ↔
      x ∉ s.containers ∧ (x = c ∨ x ∈ npk.manifest.resources) := fun x => by
    simp only [List.mem_dedup, List.mem_append, mem_startChecks hchecks, missingResources,
      List.mem_filter, decide_eq_true_eq]
    constructor
    · rintro (⟨rfl, hc⟩ | ⟨hr, hx⟩)
      · exact ⟨hc, .inl rfl⟩
      · exact ⟨hx, .inr hr⟩
    · rintro ⟨hx, rfl | hr⟩
      · exact .inl ⟨rfl, hx⟩
      · exact .inr ⟨hr, hx⟩
  refine ⟨npk, key, hnpk, fun x hx => ?_, hmem⟩
  rcases (hmem x).1 hx with ⟨hxs, rfl | hr⟩
  · simp [hnpk]
  · exact Option.isSome_iff_ne_none.2
      (by simpa using List.find?_eq_none.1 hfind x (List.mem_filter.2 ⟨hr, by simpa using hxs⟩))

theorem needMount_ok {cs : List Container} (h : needMount s c = .ok cs) :
    ∃ npk key, s.npk c = some (npk, key) ∧
      (∀ r ∈ npk.manifest.resources, r ∈ s.containers ∨ r ∈ cs) ∧
      (∀ mc, s.containers.lookup c = some mc → mc.manifest.init.isSome ∧ mc.process = none) ∧
      (c ∈ s.containers ∨ c ∈ cs) := by
  obtain ⟨npk, key, needSelf, hnpk, hchecks, -, rfl⟩ := needMount_eq_ok h
  obtain ⟨hmapped, hself⟩ := startChecks_ok hchecks
  refine ⟨npk, key, hnpk, fun r hr => ?_, hmapped,
    hself.imp_right fun h => List.mem_dedup.2 (List.mem_append_left _ h)⟩
  by_cases hm : r ∈ s.containers
  · exact .inl hm
  · exact .inr (List.mem_dedup.2 (List.mem_append_right _ (List.mem_filter.2 ⟨hr, by simpa using hm⟩)))

/-- After the clone, only `Debug::new` returns an error: the checkpoint of `IslandProcess::start`
panics instead. -/
theorem launch_state (h : next (launch c env s) = some s') :
    s' = s ∨ (∃ pid e, env.create = .ok pid ∧ env.debug = .error e ∧ s' = s.emit (.spawn pid c)) ∨
      launch c env s = .ok () s' := by
  unfold launch at h ⊢
  split at h
  · simp at h
  · split at h
    · simp at h
    · split at h
      · simp_all
      · rename_i pid hpid
        split at h
        · rename_i e hdebug
          exact .inr (.inl ⟨pid, e, hpid, hdebug, by simpa [eq_comm] using h⟩)
        · split at h
          · rename_i f hf
            obtain ⟨m, rfl⟩ := IslandProcess.start_error hf
            simp [next] at h
          · simp_all

theorem launch_ok (h : launch c env s = .ok () s') :
    ∃ mc pid, s.containers.lookup c = some mc ∧ mc.manifest.init.isSome ∧ env.create = .ok pid ∧
      s' = ((s.emit (.spawn pid c)).setProcess c (some ⟨pid, mc.manifest.cgroups⟩)).emit
        (.send (.notification (.started c))) := by
  unfold launch at h
  split at h
  · simp at h
  · rename_i mc hmc
    split at h
    · simp at h
    · rename_i init hinit
      split at h
      · simp at h
      · rename_i pid hpid
        split at h
        · simp at h
        · split at h
          · simp at h
          · simp only [EStateM.Result.ok.injEq, true_and] at h
            exact ⟨mc, pid, hmc, by simp [hinit], hpid, h.symm⟩

/-- The three ways `start` ends: before mounting, in its mounts, or in the launcher. -/
theorem start_state (h : next (start c env s) = some s') :
    s' = s ∨ (∃ cs, needMount s c = .ok cs ∧ next (mountAll cs env.mount s) = some s') ∨
      ∃ cs s₁, needMount s c = .ok cs ∧ mountAll cs env.mount s = .ok () s₁ ∧
        next (launch c env s₁) = some s' := by
  unfold start at h
  split at h
  · simp_all
  · rename_i cs hcs
    split at h
    · rename_i f s₁ hm
      exact .inr (.inl ⟨cs, hcs, by rw [hm]; exact h⟩)
    · rename_i s₁ hm
      exact .inr (.inr ⟨cs, s₁, hcs, hm, h⟩)

theorem start_ok (h : start c env s = .ok () s') :
    ∃ cs s₁, needMount s c = .ok cs ∧ mountAll cs env.mount s = .ok () s₁ ∧ launch c env s₁ = .ok () s' := by
  unfold start at h
  split at h
  · simp at h
  · split at h
    · simp at h
    · exact ⟨_, _, ‹_›, ‹_›, h⟩

theorem stop_state {timeout : Nat} (h : next (stop c timeout s) = some s') :
    s' = s ∨ ∃ context, s.process c = some context ∧
      s' = ((s.setProcess c none).emit (.terminate context.pid timeout)).emit
        (.send (.notification (.stopped c))) := by
  unfold stop at h
  split at h
  · simp_all
  · rename_i context hcontext
    exact .inr ⟨context, hcontext, by simpa [eq_comm] using h⟩

theorem stop_of_process {timeout : Nat} {context : ProcessContext} (h : s.process c = some context) :
    stop c timeout s = .ok () (((s.setProcess c none).emit (.terminate context.pid timeout)).emit
      (.send (.notification (.stopped c)))) := by
  simp only [stop, h]

/-! ### Installing -/

theorem install_state {id : RepositoryId} {npk : Except Error Npk}
    (h : next (install id npk s) = some s') :
    s' = s ∨ ∃ repository package, s.repositories.lookup id = some repository ∧
      npk = .ok package ∧ ¬ repository.Contains package.container ∧
      s' = { s with
        repositories := s.repositories.replace id ⟨repository.key, repository.npks ++ [package]⟩ } := by
  unfold install at h
  split at h
  · simp_all
  · rename_i repository hrepository
    split at h
    · simp_all
    · rename_i container repository' hinsert
      obtain ⟨package, rfl, rfl, hfresh, rfl⟩ := Repository.insert_eq_ok hinsert
      exact .inr ⟨repository, package, hrepository, rfl, hfresh, by simpa [eq_comm] using h⟩

theorem removeFrom_state {id : RepositoryId} (h : next (removeFrom c env id s) = some s') :
    s' = s ∨ ∃ repository, s.repositories.lookup id = some repository ∧
      s' = { s with repositories := s.repositories.replace id (repository.remove c) } := by
  unfold removeFrom at h
  split at h
  · simp_all
  · split at h
    · simp_all
    · rename_i repository hrepository
      exact .inr ⟨repository, hrepository, by simpa [eq_comm] using h⟩

theorem removeFrom_containers {id : RepositoryId} (h : next (removeFrom c env id s) = some s') :
    s'.containers = s.containers := by
  rcases removeFrom_state h with rfl | ⟨_, -, rfl⟩ <;> rfl

/-- `uninstall` ends before its loop, or runs it from a state where the container is unmapped. -/
theorem uninstall_state (h : next (uninstall c env s) = some s') :
    s' = s ∨ ∃ s₁, c ∉ s₁.containers ∧ (s₁ = s ∨ umount c s = .ok () s₁) ∧
      next (Northstar.forEach (removeFrom c env) s₁.repositories.keys s₁) = some s' := by
  unfold uninstall at h
  split at h
  · rename_i f s₁ hu
    have hs₁ : s₁ = s := by
      split at hu
      · exact umount_error hu
      · simp at hu
    rcases f with e | m
    · exact .inl (by simpa [hs₁, eq_comm] using h)
    · simp at h
  · rename_i s₁ hu
    refine .inr ⟨s₁, ?_, ?_, h⟩
    · split at hu
      · obtain ⟨mc, -, -, -, rfl⟩ := umount_ok hu
        simp [AList.mem_erase]
      · simp only [EStateM.Result.ok.injEq, true_and] at hu
        exact hu ▸ ‹_›
    · split at hu
      · exact .inr hu
      · simp only [EStateM.Result.ok.injEq, true_and] at hu
        exact .inl hu.symm

/-! ### Invariants of whole events -/

/-- Running `op` from a state satisfying `P` leaves a state satisfying `P`, unless it panics. -/
def Preserves {α : Type} (P : State → Prop) (op : Engine α) : Prop :=
  ∀ s s', P s → next (op s) = some s' → P s'

theorem Preserves.forEach {α : Type} {P : State → Prop} {f : α → Engine Unit}
    (hf : ∀ x, Preserves P (f x)) : ∀ xs, Preserves P (Northstar.forEach f xs)
  | [] => fun s s' hs h => by simp_all [Northstar.forEach]
  | x :: xs => fun s s' hs h => by
    unfold Northstar.forEach at h
    split at h
    · rename_i s₁ hx
      exact Preserves.forEach hf xs s₁ s' (hf x s s₁ hs (by rw [hx]; rfl)) h
    · rename_i e s₁ hx
      rcases e with e | m
      · exact hf x s s' hs (by rw [hx]; simpa using h)
      · simp at h

/-- The removal loop leaves the container map as it is. -/
theorem Preserves.and_unmapped {P : State → Prop} {id : RepositoryId} (h : Preserves P (removeFrom c env id)) :
    Preserves (fun s => P s ∧ c ∉ s.containers) (removeFrom c env id) :=
  fun s s' hs hr => ⟨h s s' hs.1 hr, removeFrom_containers hr ▸ hs.2⟩

/-- An invariant kept by `umount`, and by the removal loop once the container is unmapped, is
kept by `uninstall`. -/
theorem preserves_uninstall {P : State → Prop} (humount : Preserves P (umount c))
    (hremove : ∀ id, Preserves (fun s => P s ∧ c ∉ s.containers) (removeFrom c env id)) :
    Preserves P (uninstall c env) := fun s s' hs h => by
  rcases uninstall_state h with rfl | ⟨s₁, hc, hs₁, hloop⟩
  · exact hs
  · have h₁ : P s₁ := by
      rcases hs₁ with rfl | hok
      · exact hs
      · exact humount s s₁ hs (by rw [hok]; rfl)
    exact (Preserves.forEach hremove _ s₁ s' ⟨h₁, hc⟩ hloop).1

section

variable {P : State → Prop}
  (hemit : ∀ s e, P s → P (s.emit e))
  (hclear : ∀ s c, P s → P (s.setProcess c none))

include hemit in
/-- An invariant kept by the mounts and by setting any process context is kept by `start`. -/
theorem preserves_start (hset : ∀ s c p, P s → P (s.setProcess c p))
    (hmounted : ∀ cs ok s s', Mounted cs ok s s' → P s → P s') : Preserves P (start c env) :=
  fun s s' hs h => by
  rcases start_state h with rfl | ⟨cs, -, hm⟩ | ⟨cs, s₁, -, hm, hl⟩
  · exact hs
  · exact hmounted _ _ _ _ (mountAll_state hm) hs
  · have h₁ := hmounted _ _ _ _ (mountAll_ok_mounted hm) hs
    rcases launch_state hl with rfl | ⟨pid, -, -, -, rfl⟩ | hok
    · exact h₁
    · exact hemit _ _ h₁
    · obtain ⟨mc, pid, -, -, -, rfl⟩ := launch_ok hok
      exact hemit _ _ (hset _ _ _ (hemit _ _ h₁))

include hemit hclear in
theorem preserves_stop (timeout : Nat) : Preserves P (stop c timeout) := fun s s' hs h => by
  rcases stop_state h with rfl | ⟨context, -, rfl⟩
  · exact hs
  · exact hemit _ _ (hemit _ _ (hclear _ _ hs))

include hemit hclear in
theorem preserves_onExit (status : ExitStatus) : Preserves P (onExit c status) := fun s s' hs h => by
  unfold onExit at h
  split at h
  · simp_all
  · simp only [next_ok, Option.some.injEq] at h
    exact h ▸ hemit _ _ (hclear _ _ hs)

theorem next_handle_request (request : Request) :
    next (handle (.console (.message (.request request))) env s) = next (requestResponse request env s) := by
  simp only [handle, consoleRequest]
  rcases requestResponse request env s with ⟨_, _⟩ | ⟨_ | _, _⟩ <;> rfl

theorem next_handle_install (id : RepositoryId) (npk : Except Error Npk) :
    next (handle (.console (.install id npk)) env s) = next (install id npk s) := by
  simp only [handle, consoleRequest]
  rw [← next_respond (install id npk s)]
  rcases respond (install id npk s) with ⟨_, _⟩ | ⟨_ | _, _⟩ <;> rfl

end

/-- `on_oom` keeps what its notification and `stop` keep. -/
theorem preserves_onOom_of {P : State → Prop} (hoom : ∀ s, P s → P (s.emit (.send (.notification (.outOfMemory c)))))
    (hstop : Preserves P (stop c 5)) : Preserves P (onOom c) := fun s s' hs h => by
  unfold onOom at h
  split at h
  · simp_all
  · exact hstop _ _ (hoom _ hs) h

/-! ### Invariants of whole events, from the operations -/

section Dispatch

variable {P : State → Prop}
  (hstop : ∀ c timeout, Preserves P (stop c timeout))
  (humount : ∀ c, Preserves P (umount c))

include hstop humount in
theorem preserves_shutdown_of : Preserves P shutdown := fun s s' hs h => by
  unfold shutdown at h
  split at h
  · rename_i e s₁ hstop'
    rcases e with e | m
    · exact Preserves.forEach (fun _ => hstop _ 5) _ s s' hs (by rw [hstop']; simpa using h)
    · simp at h
  · rename_i s₁ hstop'
    exact Preserves.forEach humount _ s₁ s'
      (Preserves.forEach (fun _ => hstop _ 5) _ s s₁ hs (by rw [hstop']; rfl)) h

variable (hsend : ∀ s, P s → P (s.emit (.send .shutdown)))
  (hmount : ∀ cs ok, Preserves P (mountRequest cs ok))
  (hstart : ∀ c env, Preserves P (start c env))
  (huninstall : ∀ c env, Preserves P (uninstall c env))

include hstop humount hsend hmount hstart huninstall in
theorem preserves_requestResponse_of (request : Request) : Preserves P (requestResponse request env) :=
  fun s s' hs h => by
  cases request with
  | containers | repositories => simp only [requestResponse, next_ok, Option.some.injEq] at h; exact h ▸ hs
  | install => simp [requestResponse] at h
  | mount cs => exact hmount cs env.mount s s' hs h
  | shutdown => simp only [requestResponse, next_ok, Option.some.injEq] at h; exact h ▸ hsend _ hs
  | start c => exact hstart c env s s' hs (by rwa [requestResponse, next_respond] at h)
  | stop c timeout => exact hstop c timeout s s' hs (by rwa [requestResponse, next_respond] at h)
  | umount c => exact humount c s s' hs (by rwa [requestResponse, next_respond] at h)
  | uninstall c => exact huninstall c env s s' hs (by rwa [requestResponse, next_respond] at h)

variable (honExit : ∀ c status, Preserves P (onExit c status)) (honOom : ∀ c, Preserves P (onOom c))

include hstop humount hsend hmount hstart huninstall honExit honOom in
/-- An invariant of every operation is an invariant of handling any event. -/
theorem preserves_handle_of {admissible : Npk → Prop}
    (hinstall : ∀ id npk, (Event.console (.install id npk)).Installs admissible →
      Preserves P (install id npk))
    {event : Event} (hevent : event.Installs admissible) (env : Env) :
    Preserves P (handle event env) := fun s s' hs h => by
  cases event with
  | console request =>
    rcases request with (_ | request | _ | _) | ⟨id, npk⟩
    · simp_all [handle, consoleRequest]
    · exact preserves_requestResponse_of hstop humount hsend hmount hstart huninstall request s s' hs
        (by rwa [next_handle_request] at h)
    · simp_all [handle, consoleRequest]
    · simp_all [handle, consoleRequest]
    · exact hinstall id npk hevent s s' hs (by rwa [next_handle_install] at h)
  | exit container status => exact honExit container status s s' hs h
  | oom container => exact honOom container s s' hs h
  | notification n => simp_all [handle]
  | shutdown => exact preserves_shutdown_of hstop humount s s' hs h

end Dispatch

/-- An invariant that survives every effect and the clearing of any process context needs only
the mounts, `umount`, `start`, `uninstall` and `install`. -/
theorem preserves_handle {P : State → Prop} (hemit : ∀ s e, P s → P (s.emit e))
    (hclear : ∀ s c, P s → P (s.setProcess c none)) (humount : ∀ c, Preserves P (umount c))
    (hmount : ∀ cs ok, Preserves P (mountRequest cs ok)) (hstart : ∀ c env, Preserves P (start c env))
    (huninstall : ∀ c env, Preserves P (uninstall c env)) {admissible : Npk → Prop}
    (hinstall : ∀ id npk, (Event.console (.install id npk)).Installs admissible →
      Preserves P (install id npk))
    {event : Event} (hevent : event.Installs admissible) (env : Env) :
    Preserves P (handle event env) :=
  preserves_handle_of (fun _ => preserves_stop hemit hclear) humount (fun s => hemit s _) hmount hstart huninstall
    (fun _ => preserves_onExit hemit hclear) (fun _ => preserves_onOom_of (fun s => hemit s _) (preserves_stop hemit hclear 5))
    hinstall hevent env

end Northstar

import Northstar.Runtime.Operations

/-!
# Invariants of the engine

Three invariants of every reachable state, each proved once per operation and lifted to whole
runs by `preserves_handle` and `Reachable.induct_inv`.

`Installed`: every mapped container has a package in some repository. Only `uninstall` removes
packages, and it removes only the one identity it has just unmapped.

`Rooted`: every entry of the map is keyed by its identity and sits at the identity's run
directory, which `MountControl` holds. Mounts add the root before the entry, and `umount` takes
out one occurrence of the root with the entry; no other entry has that root.

The repository identities never change (`repositories_fixed`): `install` and `uninstall` replace
the packages of a repository that is already there.

`CatalogueInvariant`: when every package of an identity carries the same manifest (a catalogue),
every running entry has the resource containers its manifest names mapped. `start` mounts the
missing resources before it launches, and `umount` refuses a container without `init` that a
running entry names. The catalogue is needed: the resources `start` mounts are read from the
package `State::npk` finds, while the launched entry keeps the manifest recorded when it was
mounted. And only references to containers without `init` are protected, since `umount`'s busy
check looks only at those.
-/

namespace Northstar

open State

variable {s s' : State} {c : Container} {cs : List Container} {ok : Nat → Bool}

/-! ### Frame facts -/

theorem Mounted.subset (h : Mounted cs ok s s') {x : Container} (hx : x ∈ s.containers) :
    x ∈ s'.containers := by
  rcases h with rfl | rfl
  · exact hx
  · exact mem_insertMounted.2 (.inl hx)

theorem Mounted.repositories (h : Mounted cs ok s s') : s'.repositories = s.repositories := by
  rcases h with rfl | rfl <;> simp

theorem usedAsResource_of_lookup {c' : Container} {mc : MountedContainer}
    (hl : s.containers.lookup c' = some mc) (hp : mc.process.isSome)
    (hc : c ∈ mc.manifest.resources) : s.usedAsResource c = true :=
  List.any_eq_true.2 ⟨⟨c', mc⟩, AList.mem_lookup_iff.1 hl, by simp [hp, hc]⟩

/-- Setting a process context changes an entry in its process only. -/
theorem lookup_of_lookup_setProcess {p : Option ProcessContext} {c' : Container} {mc : MountedContainer}
    (h : (s.setProcess c p).containers.lookup c' = some mc) :
    ∃ mc₀ p', s.containers.lookup c' = some mc₀ ∧ mc = { mc₀ with process := p' } := by
  rw [lookup_setProcess] at h
  split at h
  · subst c'
    obtain ⟨mc₀, h₀, rfl⟩ := Option.map_eq_some'.1 h
    exact ⟨mc₀, p, h₀, rfl⟩
  · exact ⟨mc, mc.process, h, rfl⟩

theorem lookup_of_lookup_erase {c' : Container} {mc : MountedContainer}
    (h : (s.containers.erase c).lookup c' = some mc) : c' ≠ c ∧ s.containers.lookup c' = some mc := by
  by_cases hc : c' = c
  · subst hc; simp at h
  · exact ⟨hc, by rwa [AList.lookup_erase_ne hc] at h⟩

section Replace

variable {id : RepositoryId} {repository : Repository}

/-- A repository replaced by one that still holds the identity keeps it installed. -/
theorem npk_isSome_replace (hid : id ∈ s.repositories)
    (hc : ∀ r, s.repositories.lookup id = some r → r.Contains c → repository.Contains c)
    (h : (s.npk c).isSome) :
    ({ s with repositories := s.repositories.replace id repository }.npk c).isSome := by
  obtain ⟨id', r, hl, hr⟩ := npk_isSome_iff.1 h
  refine npk_isSome_iff.2 ?_
  by_cases hid' : id' = id
  · subst hid'
    exact ⟨id', repository, lookup_replace_self hid, hc r hl hr⟩
  · exact ⟨id', r, by rwa [lookup_replace_ne hid'], hr⟩

theorem admissible_replace {admissible : Npk → Prop} (hs : s.Admissible admissible)
    (hid : id ∈ s.repositories) (hr : ∀ npk ∈ repository.npks, admissible npk) :
    { s with repositories := s.repositories.replace id repository }.Admissible admissible := by
  intro id' r hl
  by_cases hid' : id' = id
  · subst hid'
    rw [lookup_replace_self hid, Option.some.injEq] at hl
    exact hl ▸ hr
  · rw [lookup_replace_ne hid'] at hl
    exact hs id' r hl

end Replace

/-! ### Every mapped container is installed -/

/-- Every container in the map has a package in some repository. -/
def Installed (s : State) : Prop := ∀ c ∈ s.containers, (s.npk c).isSome

theorem installed_emit (e : Effect) (h : Installed s) : Installed (s.emit e) := fun c hc => by
  rw [npk_congr (emit_repositories e)]; exact h c hc

theorem installed_setProcess (p : Option ProcessContext) (h : Installed s) :
    Installed (s.setProcess c p) := fun c' hc' => by
  rw [npk_congr (setProcess_repositories p)]; exact h c' ((mem_setProcess p).1 hc')

theorem installed_mounted (hm : Mounted cs ok s s') (h : Installed s) : Installed s' := by
  intro x hx
  rw [npk_congr hm.repositories]
  rcases hm with rfl | rfl
  · exact h x hx
  · rcases mem_insertMounted.1 hx with hx | ⟨mc, hmc, rfl⟩
    · exact h x hx
    · obtain ⟨npk, key, hnpk, -⟩ := spawned_result hmc
      simp [hnpk]

theorem installed_umount : Preserves Installed (umount c) := fun s s' h hu => by
  rcases umount_state hu with rfl | hok
  · exact h
  · obtain ⟨mc, -, -, -, rfl⟩ := umount_ok hok
    exact fun x hx => h x (AList.mem_erase.1 hx).2


theorem installed_install (id : RepositoryId) (npk : Except Error Npk) :
    Preserves Installed (install id npk) := fun s s' h hi => by
  rcases install_state hi with rfl | ⟨repository, package, hl, -, -, rfl⟩
  · exact h
  · have hid : id ∈ s.repositories := AList.lookup_isSome.1 (by simp [hl])
    refine fun x hx => npk_isSome_replace hid (fun r hr ⟨npk, hmem, hc⟩ => ?_) (h x hx)
    rw [hl, Option.some.injEq] at hr
    exact ⟨npk, List.mem_append_left _ (hr ▸ hmem), hc⟩

/-- The removal loop keeps every container it does not remove installed. -/
theorem installed_removeFrom (env : Env) (id : RepositoryId) :
    Preserves (fun s => Installed s ∧ c ∉ s.containers) (removeFrom c env id) :=
  fun s s' ⟨h, hc⟩ hr => by
  rcases removeFrom_state hr with rfl | ⟨repository, hl, rfl⟩
  · exact ⟨h, hc⟩
  · have hid : id ∈ s.repositories := AList.lookup_isSome.1 (by simp [hl])
    refine ⟨fun x hx => npk_isSome_replace hid (fun r hr hx' => ?_) (h x hx), hc⟩
    rw [hl, Option.some.injEq] at hr
    exact Repository.contains_remove.2 ⟨hr ▸ hx', fun hxc => hc (hxc ▸ hx)⟩

theorem installed_handle {admissible : Npk → Prop} {event : Event} (hevent : event.Installs admissible)
    (env : Env) : Preserves Installed (handle event env) :=
  preserves_handle (fun _ e h => installed_emit e h) (fun _ _ h => installed_setProcess none h)
    (fun _ => installed_umount)
    (fun _ _ _ _ h hm => installed_mounted (mountRequest_state hm) h)
    (fun _ _ => preserves_start (fun _ e h => installed_emit e h) (fun _ _ p h => installed_setProcess p h)
      fun _ _ _ _ hm h => installed_mounted hm h)
    (fun _ env => preserves_uninstall installed_umount (installed_removeFrom env))
    (fun id npk _ => installed_install id npk) hevent env

theorem installed_reachable {admissible : Npk → Prop} (hs : Reachable admissible s) : Installed s :=
  hs.induct_inv Installed (fun _ _ c hc => by simp [State.new] at hc)
    fun s s' _ _ hevent _ h hnext => installed_handle hevent _ s s' h hnext

/-- In every reachable state, every key of the container map is held by some repository. -/
theorem mapped_installed {admissible : Npk → Prop} (hs : Reachable admissible s) :
    ∀ c ∈ s.containers, ∃ id repository, s.repositories.lookup id = some repository ∧
      repository.Contains c :=
  fun c hc => npk_isSome_iff.1 (installed_reachable hs c hc)

theorem mapped_installed_started :
    ∃ s, run [(request (.start app), succeeding 1)] (State.new deployment) = some s ∧
      ∃ id repository, s.repositories.lookup id = some repository ∧ repository.Contains res := by
  obtain ⟨s, hrun, hres⟩ : ∃ s, run [(request (.start app), succeeding 1)] (State.new deployment) = some s ∧
      res ∈ s.containers := ⟨_, rfl, by decide⟩
  exact ⟨s, hrun, mapped_installed (.run (.new _ fun _ _ _ _ _ => trivial) (by simp [Event.Installs, request])
    hrun) res hres⟩

/-! ### Every entry sits at its mounted root -/

structure Rooted (s : State) : Prop where
  /-- Every entry is keyed by its identity and sits at the identity's run directory. -/
  keyed : ∀ c mc, s.containers.lookup c = some mc → mc.container = c ∧ mc.root = ⟨c⟩
  /-- `MountControl` holds the root of every entry. -/
  held : ∀ c mc, s.containers.lookup c = some mc → mc.root ∈ s.mountControl

theorem rooted_emit (e : Effect) (h : Rooted s) : Rooted (s.emit e) := ⟨h.keyed, h.held⟩

theorem rooted_setProcess (p : Option ProcessContext) (h : Rooted s) : Rooted (s.setProcess c p) := by
  refine ⟨fun c' mc hl => ?_, fun c' mc hl => ?_⟩ <;>
    obtain ⟨mc₀, p', h₀, rfl⟩ := lookup_of_lookup_setProcess hl
  · exact h.keyed c' mc₀ h₀
  · exact (setProcess_mountControl p).symm ▸ h.held c' mc₀ h₀

/-- The roots of the mounts are added before any entry is inserted. -/
theorem rooted_mounted (hm : Mounted cs ok s s') (h : Rooted s) : Rooted s' := by
  rcases hm with rfl | rfl
  · exact ⟨h.keyed, fun c mc hl => List.mem_append_right _ (h.held c mc hl)⟩
  · refine ⟨fun c mc hl => ?_, fun c mc hl => ?_⟩ <;> rcases lookup_insertMounted hl with hl | ⟨hmc, rfl⟩
    · exact h.keyed c mc hl
    · obtain ⟨-, -, -, -, -, -, hroot⟩ := spawned_result hmc
      exact ⟨rfl, hroot⟩
    · rw [insertMounted_mountControl]
      exact List.mem_append_right _ (h.held c mc hl)
    · rw [insertMounted_mountControl]
      exact List.mem_append_left _ (List.mem_filterMap.2 ⟨.ok mc, hmc, rfl⟩)

/-- `umount` erases one occurrence of the root of the entry it removes, which is no other
entry's root. -/
theorem rooted_umount : Preserves Rooted (umount c) := fun s s' h hu => by
  rcases umount_state hu with rfl | hok
  · exact h
  · obtain ⟨mc, hmc, -, -, rfl⟩ := umount_ok hok
    refine ⟨fun c' mc' hl => h.keyed c' mc' (lookup_of_lookup_erase hl).2, fun c' mc' hl => ?_⟩
    obtain ⟨hne, hl⟩ := lookup_of_lookup_erase hl
    have hroot : mc'.root ≠ mc.root := by
      rw [(h.keyed c' mc' hl).2, (h.keyed c mc hmc).2]
      exact fun heq => hne (Root.mk.inj heq)
    exact (List.mem_erase_of_ne hroot).2 (h.held c' mc' hl)

theorem rooted_install (id : RepositoryId) (npk : Except Error Npk) : Preserves Rooted (install id npk) :=
  fun s s' h hi => by
  rcases install_state hi with rfl | ⟨-, -, -, -, -, rfl⟩ <;> exact ⟨h.keyed, h.held⟩

theorem rooted_removeFrom (env : Env) (id : RepositoryId) : Preserves Rooted (removeFrom c env id) :=
  fun s s' h hr => by
  rcases removeFrom_state hr with rfl | ⟨-, -, rfl⟩ <;> exact ⟨h.keyed, h.held⟩

theorem rooted_handle {admissible : Npk → Prop} {event : Event} (hevent : event.Installs admissible)
    (env : Env) : Preserves Rooted (handle event env) :=
  preserves_handle (fun _ e h => rooted_emit e h) (fun _ _ h => rooted_setProcess none h)
    (fun _ => rooted_umount)
    (fun _ _ _ _ h hm => rooted_mounted (mountRequest_state hm) h)
    (fun _ _ => preserves_start (fun _ e h => rooted_emit e h) (fun _ _ p h => rooted_setProcess p h)
      fun _ _ _ _ hm h => rooted_mounted hm h)
    (fun _ env => preserves_uninstall rooted_umount fun id => (rooted_removeFrom env id).and_unmapped)
    (fun id npk _ => rooted_install id npk) hevent env

theorem rooted_reachable {admissible : Npk → Prop} (hs : Reachable admissible s) : Rooted s :=
  hs.induct_inv Rooted (fun _ _ => ⟨fun _ _ hl => by simp [State.new] at hl, fun _ _ hl => by simp [State.new] at hl⟩)
    fun s s' _ _ hevent _ h hnext => rooted_handle hevent _ s s' h hnext

/-- In every reachable state, every entry of the container map is keyed by its identity and sits
at the identity's run directory, and `MountControl` holds that root. -/
theorem entries_rooted {admissible : Npk → Prop} (hs : Reachable admissible s) :
    ∀ c mc, s.containers.lookup c = some mc → mc.container = c ∧ mc.root = ⟨c⟩ ∧ mc.root ∈ s.mountControl :=
  fun c mc hl => ⟨((rooted_reachable hs).keyed c mc hl).1, ((rooted_reachable hs).keyed c mc hl).2,
    (rooted_reachable hs).held c mc hl⟩

theorem entries_rooted_started :
    ∃ s mc, run [(request (.start app), succeeding 1)] (State.new deployment) = some s ∧
      s.containers.lookup res = some mc ∧ mc.container = res ∧ mc.root = ⟨res⟩ ∧ mc.root ∈ s.mountControl := by
  obtain ⟨s, mc, hrun, hl⟩ : ∃ s mc, run [(request (.start app), succeeding 1)] (State.new deployment) = some s ∧
      s.containers.lookup res = some mc := ⟨_, _, rfl, rfl⟩
  exact ⟨s, mc, hrun, hl, entries_rooted (.run (.new _ fun _ _ _ _ _ => trivial)
    (by simp [Event.Installs, request]) hrun) res mc hl⟩

/-! ### The repositories are those of startup -/

section RepositoryIds

variable {ids : List RepositoryId}

theorem repositoryIds_umount : Preserves (fun s => s.repositories.keys = ids) (umount c) :=
  fun s s' h hu => by
  rcases umount_state hu with rfl | hok
  · exact h
  · obtain ⟨-, -, -, -, rfl⟩ := umount_ok hok
    exact h

theorem repositoryIds_install (id : RepositoryId) (npk : Except Error Npk) :
    Preserves (fun s => s.repositories.keys = ids) (install id npk) := fun s s' h hi => by
  rcases install_state hi with rfl | ⟨-, -, -, -, -, rfl⟩
  · exact h
  · exact (AList.keys_replace _ _ _).trans h

theorem repositoryIds_removeFrom (env : Env) (id : RepositoryId) :
    Preserves (fun s => s.repositories.keys = ids) (removeFrom c env id) := fun s s' h hr => by
  rcases removeFrom_state hr with rfl | ⟨-, -, rfl⟩
  · exact h
  · exact (AList.keys_replace _ _ _).trans h

theorem repositoryIds_handle (event : Event) (env : Env) :
    Preserves (fun s => s.repositories.keys = ids) (handle event env) :=
  have hset : ∀ (s : State) c (p : Option ProcessContext), s.repositories.keys = ids →
      (s.setProcess c p).repositories.keys = ids :=
    fun _ _ p h => (setProcess_repositories p).symm ▸ h
  have hmounted : ∀ cs ok (s s' : State), Mounted cs ok s s' → s.repositories.keys = ids →
      s'.repositories.keys = ids :=
    fun _ _ _ _ hm h => hm.repositories.symm ▸ h
  preserves_handle (fun _ _ h => h) (fun s c => hset s c none) (fun _ => repositoryIds_umount)
    (fun _ _ _ _ h hm => hmounted _ _ _ _ (mountRequest_state hm) h)
    (fun _ _ => preserves_start (fun _ _ h => h) hset hmounted)
    (fun _ env => preserves_uninstall repositoryIds_umount fun id => (repositoryIds_removeFrom env id).and_unmapped)
    (fun id npk _ => repositoryIds_install id npk) (installs_true event) env

end RepositoryIds

/-- No sequence of events adds or removes a repository: installing and uninstalling change only the
packages of the repositories the engine was started with. -/
theorem repositories_fixed {events : List (Event × Env)} {s s' : State} (h : run events s = some s') :
    s'.repositories.keys = s.repositories.keys := by
  induction events generalizing s with
  | nil => cases h; rfl
  | cons p events ih =>
    simp only [run, Option.bind_eq_some] at h
    obtain ⟨s₁, h₁, h⟩ := h
    exact (ih h).trans (repositoryIds_handle p.1 p.2 s s₁ rfl h₁)

theorem repositories_fixed_uninstalled :
    ∃ s, run [(request (.uninstall res), succeeding 1)] (State.new deployment) = some s ∧
      s.repositories.keys = ["default"] ∧ ¬ ∃ npk ∈ (s.repositories.lookup "default").elim [] (·.npks),
        npk.container = res := by
  obtain ⟨s, hrun, hgone⟩ : ∃ s, run [(request (.uninstall res), succeeding 1)] (State.new deployment) = some s ∧
      ¬ ∃ npk ∈ (s.repositories.lookup "default").elim [] (·.npks), npk.container = res := ⟨_, rfl, by decide⟩
  exact ⟨s, hrun, repositories_fixed hrun, hgone⟩

/-! ### Running entries have their resources mapped -/

section Catalogue

variable (catalogue : Container → Manifest)

/-- The package carries the catalogue's manifest for its identity. -/
def Catalogued (npk : Npk) : Prop := npk.manifest = catalogue npk.container

instance : DecidablePred (Catalogued catalogue) := fun npk =>
  inferInstanceAs (Decidable (npk.manifest = catalogue npk.container))

structure CatalogueInvariant (s : State) : Prop where
  admissible : s.Admissible (Catalogued catalogue)
  /-- Every entry records the catalogue's manifest. -/
  recorded : ∀ c mc, s.containers.lookup c = some mc → mc.manifest = catalogue c
  /-- Every running entry has the resource containers its manifest names mapped. -/
  resourcesMapped : ∀ c mc, s.containers.lookup c = some mc → mc.process.isSome →
    ∀ r ∈ mc.manifest.resources, (catalogue r).init = none → r ∈ s.containers

variable {catalogue}

theorem CatalogueInvariant.npk {npk : Npk} {key : Option String} (h : CatalogueInvariant catalogue s)
    (hnpk : s.npk c = some (npk, key)) : npk.manifest = catalogue c := by
  obtain ⟨hc, id, repository, hl, hmem⟩ := npk_manifest hnpk
  exact hc ▸ h.admissible id repository hl npk hmem

theorem catalogueInvariant_emit (e : Effect) (h : CatalogueInvariant catalogue s) :
    CatalogueInvariant catalogue (s.emit e) :=
  ⟨h.admissible, h.recorded, h.resourcesMapped⟩

/-- Setting a process context keeps the invariant when the entry's resources are mapped. -/
theorem catalogueInvariant_setProcess (p : Option ProcessContext) (h : CatalogueInvariant catalogue s)
    (hp : p.isSome → ∀ mc, s.containers.lookup c = some mc →
      ∀ r ∈ mc.manifest.resources, (catalogue r).init = none → r ∈ s.containers) :
    CatalogueInvariant catalogue (s.setProcess c p) := by
  refine ⟨by simpa [State.Admissible] using h.admissible, fun c' mc hl => ?_, fun c' mc hl hproc r hr hinit => ?_⟩
  all_goals rw [lookup_setProcess] at hl; split at hl
  · subst c'
    obtain ⟨mc', hl', rfl⟩ := Option.map_eq_some'.1 hl
    exact h.recorded _ mc' hl'
  · exact h.recorded _ _ hl
  · subst c'
    obtain ⟨mc', hl', rfl⟩ := Option.map_eq_some'.1 hl
    exact (mem_setProcess p).2 (hp hproc mc' hl' r hr hinit)
  · exact (mem_setProcess p).2 (h.resourcesMapped _ _ hl hproc r hr hinit)

theorem catalogueInvariant_mounted (hm : Mounted cs ok s s') (h : CatalogueInvariant catalogue s) :
    CatalogueInvariant catalogue s' := by
  rcases hm with rfl | rfl
  · exact ⟨h.admissible, h.recorded, h.resourcesMapped⟩
  · refine ⟨by simpa [State.Admissible] using h.admissible, fun c mc hl => ?_,
      fun c mc hl hproc r hr hinit => ?_⟩
    · rcases lookup_insertMounted hl with hl | ⟨hmc, rfl⟩
      · exact h.recorded c mc hl
      · obtain ⟨npk, key, hnpk, hmanifest, -⟩ := spawned_result hmc
        exact hmanifest.trans (h.npk hnpk)
    · rcases lookup_insertMounted hl with hl | ⟨hmc, rfl⟩
      · exact mem_insertMounted.2 (.inl (h.resourcesMapped c mc hl hproc r hr hinit))
      · obtain ⟨-, -, -, -, hnone, -⟩ := spawned_result hmc
        simp [hnone] at hproc

theorem catalogueInvariant_umount : Preserves (CatalogueInvariant catalogue) (umount c) :=
  fun s s' h hu => by
  rcases umount_state hu with rfl | hok
  · exact h
  · obtain ⟨mc, hmc, -, hbusy, rfl⟩ := umount_ok hok
    refine ⟨h.admissible, fun c' mc' hl => h.recorded c' mc' (lookup_of_lookup_erase hl).2,
      fun c' mc' hl hproc r hr hinit => ?_⟩
    have hl' := (lookup_of_lookup_erase hl).2
    refine AList.mem_erase.2 ⟨fun hrc => hbusy ?_, h.resourcesMapped c' mc' hl' hproc r hr hinit⟩
    subst hrc
    exact ⟨h.recorded _ _ hmc ▸ hinit, usedAsResource_of_lookup hl' hproc hr⟩

/-- A successful `start` launches only once every resource of the recorded manifest is mapped. -/
theorem catalogueInvariant_start (env : Env) : Preserves (CatalogueInvariant catalogue) (start c env) :=
  fun s s' h hstart => by
  rcases start_state hstart with rfl | ⟨cs, -, hm⟩ | ⟨cs, s₁, hneed, hm, hl⟩
  · exact h
  · exact catalogueInvariant_mounted (mountAll_state hm) h
  · have hm₁ := mountAll_ok_mounted hm
    have h₁ := catalogueInvariant_mounted hm₁ h
    rcases launch_state hl with rfl | ⟨pid, -, -, -, rfl⟩ | hok
    · exact h₁
    · exact catalogueInvariant_emit _ h₁
    · obtain ⟨mc, pid, hmc, -, -, rfl⟩ := launch_ok hok
      obtain ⟨npk, key, hnpk, hres, -⟩ := needMount_ok hneed
      refine catalogueInvariant_emit _
        (catalogueInvariant_setProcess _ (catalogueInvariant_emit _ h₁) fun _ mc' hmc' r hr _ => ?_)
      rw [emit_containers, hmc, Option.some.injEq] at hmc'
      rw [← hmc', h₁.recorded c mc hmc, ← h.npk hnpk] at hr
      rcases hres r hr with hr | hr
      · exact hm₁.subset hr
      · exact mem_of_mountAll_ok hm hr

theorem catalogueInvariant_install (id : RepositoryId) (npk : Except Error Npk)
    (hnpk : (Event.console (.install id npk)).Installs (Catalogued catalogue)) :
    Preserves (CatalogueInvariant catalogue) (install id npk) := fun s s' h hi => by
  rcases install_state hi with rfl | ⟨repository, package, hl, rfl, -, rfl⟩
  · exact h
  · refine ⟨admissible_replace h.admissible (AList.lookup_isSome.1 (by simp [hl])) ?_, h.recorded,
      h.resourcesMapped⟩
    simp only [List.mem_append, List.mem_singleton]
    rintro npk (hmem | rfl)
    · exact h.admissible id repository hl npk hmem
    · exact hnpk

theorem catalogueInvariant_removeFrom (env : Env) (id : RepositoryId) :
    Preserves (CatalogueInvariant catalogue) (removeFrom c env id) := fun s s' h hr => by
  rcases removeFrom_state hr with rfl | ⟨repository, hl, rfl⟩
  · exact h
  · refine ⟨admissible_replace h.admissible (AList.lookup_isSome.1 (by simp [hl])) fun npk hmem => ?_,
      h.recorded, h.resourcesMapped⟩
    exact h.admissible id repository hl npk (List.mem_of_mem_filter hmem)

theorem catalogueInvariant_reachable (hs : Reachable (Catalogued catalogue) s) :
    CatalogueInvariant catalogue s := by
  refine hs.induct_inv _ (fun _ hadm => ⟨hadm, by simp [State.new], by simp [State.new]⟩)
    fun s s' _ _ hevent _ h hnext => ?_
  exact preserves_handle (fun _ e h => catalogueInvariant_emit e h)
      (fun _ _ h => catalogueInvariant_setProcess none h (by simp))
      (fun _ => catalogueInvariant_umount)
      (fun _ _ _ _ h hm => catalogueInvariant_mounted (mountRequest_state hm) h)
      (fun _ env => catalogueInvariant_start env)
      (fun _ env => preserves_uninstall catalogueInvariant_umount fun id =>
        (catalogueInvariant_removeFrom env id).and_unmapped)
      (fun id npk hnpk => catalogueInvariant_install id npk hnpk) hevent _ s s' h hnext

/-- With one manifest per identity, every running entry has each resource container that its
recorded manifest names mapped. -/
theorem running_resources_mapped (hs : Reachable (Catalogued catalogue) s) :
    ∀ c mc, s.containers.lookup c = some mc → mc.process.isSome →
      ∀ r ∈ mc.manifest.resources, (catalogue r).init = none → r ∈ s.containers :=
  (catalogueInvariant_reachable hs).resourcesMapped

end Catalogue

/-- The manifests of `deployment`, one per identity. -/
def deploymentCatalogue (c : Container) : Manifest :=
  if c = app then appNpk.manifest else resNpk.manifest

theorem deployment_catalogued : (State.new deployment).Admissible (Catalogued deploymentCatalogue) := by
  intro id repository hl
  by_cases hid : id = "default"
  · subst hid
    simp only [State.new, deployment, AList.lookup_insert, Option.some.injEq] at hl
    subst hl
    decide
  · simp only [State.new, deployment, AList.lookup_insert_ne hid] at hl
    simp at hl

theorem running_resources_mapped_started :
    ∃ s mc, run [(request (.start app), succeeding 1)] (State.new deployment) = some s ∧
      s.containers.lookup app = some mc ∧ mc.process.isSome ∧ res ∈ s.containers := by
  obtain ⟨s, mc, hrun, hl, hp, hr⟩ : ∃ s mc, run [(request (.start app), succeeding 1)]
      (State.new deployment) = some s ∧ s.containers.lookup app = some mc ∧ mc.process.isSome ∧
      res ∈ mc.manifest.resources := ⟨_, _, rfl, rfl, by decide, by decide⟩
  exact ⟨s, mc, hrun, hl, hp, running_resources_mapped (.run (.new _ deployment_catalogued)
    (by simp [Event.Installs, request]) hrun) app mc hl hp res hr (by decide)⟩

/-- An application whose manifest mounts the application `app` as a resource. -/
def client : Container := ⟨"client", ⟨1, 0, 0⟩⟩

def clientNpk : Npk :=
  ⟨⟨"client", ⟨1, 0, 0⟩, some "/client", [("/app", .resource "app" ⟨1, 0, 0⟩ "/")], false⟩⟩

/-- Starting `client` mounts `app`; `umount(app)` then succeeds, since the busy check only looks
at containers without `init`, and `client` runs without its resource. -/
theorem running_resource_unmapped :
    ¬ ∀ s, Reachable (fun _ => True) s → ∀ c mc, s.containers.lookup c = some mc → mc.process.isSome →
      ∀ r ∈ mc.manifest.resources, r ∈ s.containers := by
  intro h
  obtain ⟨s, mc, hrun, hl, hp, hr, hunmapped⟩ : ∃ s mc,
      run [(request (.start client), succeeding 1), (request (.umount app), succeeding 2)]
        (State.new (AList.insert "default" ⟨none, [appNpk, clientNpk]⟩ ∅)) = some s ∧
      s.containers.lookup client = some mc ∧ mc.process.isSome ∧ app ∈ mc.manifest.resources ∧
      app ∉ s.containers := ⟨_, _, rfl, rfl, by decide, by decide, by decide⟩
  exact hunmapped (h s (.run (.new _ fun _ _ _ _ _ => trivial) (by simp [Event.Installs, request]) hrun)
    client mc hl hp app hr)

end Northstar

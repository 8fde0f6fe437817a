import Northstar.Runtime.Requests
import Northstar.Runtime.Teardown

/-!
# Round trips

Two requests that undo one another give back the engine's state exactly: every repository, the
container map, the roots `MountControl` holds and the effect log.

`install_uninstall_restores`: installing a package whose identity no repository holds into a
configured repository, then uninstalling that identity while every `Repository::remove` succeeds.
The identity is not mapped, so `uninstall` skips `umount`; its loop removes nothing from the other
repositories and takes the package back out of the target one.

`mount_umount_restores`: with one manifest per identity, a bulk mount of one unmapped identity and
then its `umount`, whatever the mount's outcome. A mount that fails, or meets an identity no
repository holds, leaves nothing to undo and `umount` refuses; a mount that succeeds adds one root
and one entry without a process context, and no running entry names an unmapped container as a
resource, so `umount` is not refused and releases exactly that root.
-/

namespace Northstar

open State

/-! ### Association lists -/

section AList

variable {α : Type} {β : α → Type} [DecidableEq α] {a : α} {b b' : β a} {m : AList β}

theorem erase_insert_of_not_mem (h : a ∉ m) : (m.insert a b).erase a = m :=
  AList.ext <| by
    show List.kerase a (m.insert a b).entries = m.entries
    rw [AList.insert_entries_of_neg h]
    exact List.kerase_cons_eq rfl

theorem replace_self_of_lookup (h : m.lookup a = some b) : m.replace a b = m :=
  AList.ext (List.kreplace_self m.nodupKeys (AList.mem_lookup_iff.1 h))

theorem kreplace_kreplace (a : α) (b b' : β a) :
    ∀ l : List (Sigma β), List.kreplace a b' (List.kreplace a b l) = List.kreplace a b' l
  | [] => rfl
  | ⟨a', c⟩ :: l => by
    by_cases h : a = a'
    · subst h; simp [List.kreplace, List.lookmap_cons_some]
    · simp only [List.kreplace, List.lookmap_cons_none, h, if_false]
      exact congrArg _ (kreplace_kreplace a b b' l)

theorem replace_replace : (m.replace a b).replace a b' = m.replace a b' :=
  AList.ext (kreplace_kreplace a b b' m.entries)

end AList

variable {s : State} {c : Container} {env : Env}

/-! ### Installing, then uninstalling -/

namespace Repository

theorem filter_of_not_contains {r : Repository} (h : ¬ r.Contains c) :
    r.npks.filter (·.container ≠ c) = r.npks :=
  List.filter_eq_self.2 fun npk hnpk => decide_eq_true fun hc => h ⟨npk, hnpk, hc⟩

theorem remove_of_not_contains {r : Repository} (h : ¬ r.Contains c) : r.remove c = r := by
  obtain ⟨key, npks⟩ := r
  simp only [remove, filter_of_not_contains h]

/-- `remove` takes back out what `insert` added. -/
theorem remove_append {r : Repository} {npk : Npk} (h : ¬ r.Contains npk.container) :
    Repository.remove ⟨r.key, r.npks ++ [npk]⟩ npk.container = r := by
  obtain ⟨key, npks⟩ := r
  simp only [remove, List.filter_append, filter_of_not_contains h]
  simp

end Repository

theorem not_contains_of_npk (hnpk : s.npk c = none) {id : RepositoryId} {r : Repository}
    (hl : s.repositories.lookup id = some r) : ¬ r.Contains c := fun hc => by
  simpa [hnpk] using npk_isSome_iff.2 ⟨id, r, hl, hc⟩

section Uninstall

variable {id : RepositoryId} {r : Repository} {npk : Npk}

/-- The state `install` leaves: the package appended to the target repository. -/
def afterInstall (s : State) (id : RepositoryId) (r : Repository) (npk : Npk) : State :=
  { s with repositories := s.repositories.replace id ⟨r.key, r.npks ++ [npk]⟩ }

/-- With every removal succeeding, one step of the loop from the original state changes nothing. -/
theorem removeFrom_fresh (hnpk : s.npk c = none) (hremove : env.remove id = .ok ()) :
    removeFrom c env id s = .ok () s := by
  unfold removeFrom
  rw [hremove]
  rcases hl : s.repositories.lookup id with _ | r
  · rfl
  · simp only [Repository.remove_of_not_contains (not_contains_of_npk hnpk hl), replace_self_of_lookup hl]

theorem forEach_removeFrom_fresh (hnpk : s.npk c = none) (hremove : ∀ id, env.remove id = .ok ()) :
    ∀ ids, forEach (removeFrom c env) ids s = .ok () s
  | [] => rfl
  | id :: ids => by
    rw [forEach_cons_of_ok (removeFrom_fresh hnpk (hremove id))]
    exact forEach_removeFrom_fresh hnpk hremove ids

/-- One step of the loop after the install: the target repository gets its old contents back,
any other is left as it is. -/
theorem removeFrom_installed (hnpk : s.npk npk.container = none) (hl : s.repositories.lookup id = some r)
    {id' : RepositoryId} (hremove : env.remove id' = .ok ()) :
    removeFrom npk.container env id' (afterInstall s id r npk) =
      .ok () (if id' = id then s else afterInstall s id r npk) := by
  have hid : id ∈ s.repositories := AList.lookup_isSome.1 (by simp [hl])
  unfold removeFrom afterInstall
  rw [hremove]
  by_cases h : id' = id
  · subst h
    simp only [lookup_replace_self hid, if_true, replace_replace,
      Repository.remove_append (not_contains_of_npk hnpk hl), replace_self_of_lookup hl]
  · simp only [lookup_replace_ne h, if_neg h]
    rcases hl' : s.repositories.lookup id' with _ | r'
    · rfl
    · have hself : (s.repositories.replace id ⟨r.key, r.npks ++ [npk]⟩).lookup id' = some r' := by
        rw [lookup_replace_ne h, hl']
      simp only [Repository.remove_of_not_contains (not_contains_of_npk hnpk hl'), replace_self_of_lookup hself]

/-- The loop after the install restores the state once it has visited the target repository. -/
theorem forEach_removeFrom_installed (hnpk : s.npk npk.container = none)
    (hl : s.repositories.lookup id = some r) (hremove : ∀ id, env.remove id = .ok ()) :
    ∀ ids, id ∈ ids → forEach (removeFrom npk.container env) ids (afterInstall s id r npk) = .ok () s
  | [], hmem => absurd hmem (List.not_mem_nil _)
  | id' :: ids, hmem => by
    rw [forEach_cons_of_ok (removeFrom_installed hnpk hl (hremove id'))]
    by_cases h : id' = id
    · rw [if_pos h]; exact forEach_removeFrom_fresh hnpk hremove ids
    · rw [if_neg h]
      exact forEach_removeFrom_installed hnpk hl hremove ids ((List.mem_cons.1 hmem).resolve_left (Ne.symm h))

/-- Installing a package whose identity no repository holds, then uninstalling the identity with
every removal succeeding, gives back the state the install started from. -/
theorem install_uninstall_restores {admissible : Npk → Prop} {id : RepositoryId} {npk : Npk}
    (hs : Reachable admissible s) (hid : id ∈ s.repositories) (hnpk : s.npk npk.container = none)
    (env' : Env) (hremove : ∀ id, env'.remove id = .ok ()) :
    run [(.console (.install id (.ok npk)), env), (request (.uninstall npk.container), env')] s = some s := by
  obtain ⟨r, hl⟩ := Option.isSome_iff_exists.1 (AList.lookup_isSome.2 hid)
  have hunmapped : npk.container ∉ s.containers := fun hc => by
    simpa [hnpk] using installed_reachable hs _ hc
  have hfresh : ¬ (r.get npk.container).isSome := fun h =>
    not_contains_of_npk hnpk hl (Repository.get_isSome_iff.1 h)
  have hinstall : install id (.ok npk) s = .ok () (afterInstall s id r npk) := by
    simp [install, hl, Repository.insert, hfresh, afterInstall]
  have huninstall : uninstall npk.container env' (afterInstall s id r npk) = .ok () s := by
    simp only [uninstall, afterInstall, hunmapped, if_false, AList.keys_replace]
    exact forEach_removeFrom_installed hnpk hl hremove _ (AList.mem_keys.2 hid)
  simp [run, handle, consoleRequest, respond, hinstall, request, requestResponse, huninstall, next]

end Uninstall

theorem install_uninstall_restores_client :
    Reachable (fun _ => True) (State.new deployment) ∧ "default" ∈ (State.new deployment).repositories ∧
      (State.new deployment).npk client = none ∧ (∀ id, (succeeding 0).remove id = .ok ()) ∧
      run [(.console (.install "default" (.ok clientNpk)), succeeding 0),
        (request (.uninstall client), succeeding 0)] (State.new deployment) = some (State.new deployment) :=
  ⟨.new _ fun _ _ _ _ _ => trivial, by decide, by decide, fun _ => rfl,
    install_uninstall_restores (.new _ fun _ _ _ _ _ => trivial) (by decide) (by decide) _ fun _ => rfl⟩

/-! ### Mounting, then unmounting -/

section Umount

variable {catalogue : Container → Manifest}

/-- With one manifest per identity, no running entry keeps an unmapped container without `init`
busy. -/
theorem CatalogueInvariant.not_busy (h : CatalogueInvariant catalogue s) (hc : c ∉ s.containers) :
    ¬ ((catalogue c).init = none ∧ s.usedAsResource c = true) := fun ⟨hinit, hused⟩ => by
  obtain ⟨c', mc', hl, hp, hr⟩ := usedAsResource_iff.1 hused
  exact hc (h.resourcesMapped c' mc' hl hp c hr hinit)

/-- An entry without a process context adds nothing to the busy scan. -/
theorem usedAsResource_insert {mc : MountedContainer} {roots : List Root} {x : Container}
    (hc : c ∉ s.containers) (hp : mc.process = none) :
    ({ s with mountControl := roots, containers := s.containers.insert c mc } : State).usedAsResource x =
      s.usedAsResource x := by
  simp only [usedAsResource, AList.insert_entries_of_neg hc, List.any_cons, hp, Option.isSome_none,
    Bool.false_and, Bool.false_or]

/-- A bulk mount of one installed identity: one root and one entry when the mount succeeds,
nothing when it fails. -/
theorem mountRequest_one {ok : Nat → Bool} {npk : Npk} {key : Option String}
    (hnpk : s.npk c = some (npk, key)) :
    mountRequest [c] ok s = .ok (.mount []) (if ok 0 then
      { s with mountControl := ⟨c⟩ :: s.mountControl, containers := (s.containers.insert c
        ⟨c, npk.manifest, ⟨c⟩, if key.isSome then .verity else .loopback, none⟩) } else s) := by
  cases hok : ok 0 <;>
    simp [mountRequest, spawnMounts, mount, hnpk, mountResults, hok, completeMounts, insertMounted,
      MountTask.mounted, Except.toOption]

/-- `umount` undoes the mount of an unmapped identity with the catalogue's manifest. -/
theorem umount_mounted (mc : MountedContainer) (h : CatalogueInvariant catalogue s) (hc : c ∉ s.containers)
    (hp : mc.process = none) (hm : mc.manifest = catalogue c) :
    umount c { s with mountControl := mc.root :: s.mountControl, containers := s.containers.insert c mc } =
      .ok () s := by
  rw [umount_of_lookup (AList.lookup_insert _), usedAsResource_insert hc hp, if_neg (by simp [hp, hm, h.not_busy hc])]
  simp [erase_insert_of_not_mem hc]

/-- With one manifest per identity, mounting an unmapped identity and then unmounting it gives
back the state the mount started from, whether the mount succeeds, fails, or meets an identity no
repository holds. -/
theorem mount_umount_restores (hs : Reachable (Catalogued catalogue) s) (hc : c ∉ s.containers)
    (env env' : Env) : run [(request (.mount [c]), env), (request (.umount c), env')] s = some s := by
  have hinv := catalogueInvariant_reachable hs
  have hbusy : umount c s = .error (.error (.umountBusy c)) s := by
    simp [umount, AList.lookup_eq_none.2 hc]
  rcases hnpk : s.npk c with _ | ⟨npk, key⟩
  · have hmount : mountRequest [c] env.mount s = .error (.error (.invalidContainer c)) s := by
      simp [mountRequest, spawnMounts, mount, hnpk, mountResults, completeMounts]
    simp [run, handle, request, consoleRequest, requestResponse, hmount, next, respond, hbusy]
  · cases hok : env.mount 0
    · simp [run, handle, request, consoleRequest, requestResponse, mountRequest_one hnpk, hok, next,
        respond, hbusy]
    · have humount := umount_mounted ⟨c, npk.manifest, ⟨c⟩, if key.isSome then .verity else .loopback,
        none⟩ hinv hc rfl (hinv.npk hnpk)
      simp [run, handle, request, consoleRequest, requestResponse, mountRequest_one hnpk, hok, next,
        respond, humount]

end Umount

theorem mount_umount_restores_res :
    Reachable (Catalogued deploymentCatalogue) (State.new deployment) ∧ res ∉ (State.new deployment).containers ∧
      run [(request (.mount [res]), succeeding 0), (request (.umount res), succeeding 0)] (State.new deployment) =
        some (State.new deployment) :=
  ⟨.new _ deployment_catalogued, by decide,
    mount_umount_restores (.new _ deployment_catalogued) (by decide) _ _⟩

end Northstar

import Northstar.Runtime.Engine

/-!
# What each step of an operation changes

One lemma per state transformer of `State.lean`: what it does to the container map, the
repositories and the mounts, and what it leaves alone. The invariant proofs use these and never
unfold an operation twice.
-/

namespace Northstar

section AList

variable {α V : Type*} [DecidableEq α] {s : AList fun _ : α => V} {a a' : α} {b : V}

theorem lookup_replace_self (h : a ∈ s) : (s.replace a b).lookup a = some b := by
  obtain ⟨entries, nodup⟩ := s
  simp only [AList.replace, AList.lookup, AList.mem_keys, AList.keys] at h ⊢
  clear nodup
  induction entries with
  | nil => simp at h
  | cons x l ih =>
    obtain ⟨x1, x2⟩ := x
    by_cases hx : a = x1
    · subst hx; simp [List.kreplace, List.lookmap_cons_some]
    · have := ih (by simpa [hx] using h)
      simp only [List.kreplace] at this
      simp [List.kreplace, List.lookmap_cons_none, hx, List.dlookup_cons_ne, this]

theorem lookup_replace_ne (h : a' ≠ a) : (s.replace a b).lookup a' = s.lookup a' := by
  obtain ⟨entries, nodup⟩ := s
  simp only [AList.replace, AList.lookup]
  clear nodup
  induction entries with
  | nil => rfl
  | cons x l ih =>
    obtain ⟨x1, x2⟩ := x
    simp only [List.kreplace] at ih
    by_cases hx : a = x1
    · subst hx; simp [List.kreplace, List.lookmap_cons_some, List.dlookup_cons_ne, h]
    · by_cases hx' : a' = x1
      · subst hx'; simp [List.kreplace, List.lookmap_cons_none, hx]
      · simp [List.kreplace, List.lookmap_cons_none, hx, List.dlookup_cons_ne, hx', ih]

end AList

namespace State

variable {s : State} {c c' : Container}

/-! ### Emitting, setting a process -/

@[simp] theorem emit_containers (e : Effect) : (s.emit e).containers = s.containers := rfl
@[simp] theorem emit_repositories (e : Effect) : (s.emit e).repositories = s.repositories := rfl
@[simp] theorem emit_mountControl (e : Effect) : (s.emit e).mountControl = s.mountControl := rfl
@[simp] theorem process_emit (e : Effect) (c : Container) : (s.emit e).process c = s.process c := rfl

@[simp] theorem setProcess_repositories (p : Option ProcessContext) :
    (s.setProcess c p).repositories = s.repositories := by
  unfold setProcess; split <;> rfl

@[simp] theorem setProcess_mountControl (p : Option ProcessContext) :
    (s.setProcess c p).mountControl = s.mountControl := by
  unfold setProcess; split <;> rfl

theorem lookup_setProcess (p : Option ProcessContext) :
    (s.setProcess c p).containers.lookup c' =
      if c' = c then (s.containers.lookup c).map ({· with process := p}) else s.containers.lookup c' := by
  unfold setProcess
  split
  · rename_i h; by_cases hc : c' = c
    · subst hc; simp [h]
    · simp [hc]
  · rename_i mc h
    split
    · subst c'; rw [lookup_replace_self (AList.lookup_isSome.1 (by simp [h])), h]; rfl
    · rename_i hne; exact lookup_replace_ne hne

@[simp] theorem mem_setProcess (p : Option ProcessContext) :
    c' ∈ (s.setProcess c p).containers ↔ c' ∈ s.containers := by
  unfold setProcess; split <;> simp [AList.mem_replace]

theorem process_setProcess (p : Option ProcessContext) :
    (s.setProcess c p).process c' = if c' = c ∧ c ∈ s.containers then p else s.process c' := by
  simp only [process, lookup_setProcess]
  by_cases h : c' = c
  · subst c'
    cases hl : s.containers.lookup c with
    | none => simp [AList.lookup_eq_none.1 hl]
    | some mc => simp [AList.lookup_isSome.1 (Option.isSome_iff_exists.2 ⟨mc, hl⟩)]
  · simp [h]

/-! ### Packages -/

theorem npk_eq_some {npk : Npk} {key : Option String} (h : s.npk c = some (npk, key)) :
    ∃ id repository, s.repositories.lookup id = some repository ∧ repository.get c = some npk ∧
      repository.key = key := by
  obtain ⟨⟨id, repository⟩, hmem, hget⟩ := List.exists_of_findSome?_eq_some h
  cases hr : repository.get c with
  | none => simp [hr] at hget
  | some p =>
    simp only [hr, Option.map_some', Option.some.injEq, Prod.mk.injEq] at hget
    obtain ⟨rfl, rfl⟩ := hget
    exact ⟨id, repository, AList.mem_lookup_iff.2 hmem, hr, rfl⟩

theorem npk_isSome_iff :
    (s.npk c).isSome ↔ ∃ id repository, s.repositories.lookup id = some repository ∧
      repository.Contains c := by
  simp only [npk, List.findSome?_isSome_iff, Option.isSome_map']
  simp only [Repository.get_isSome_iff]
  constructor
  · rintro ⟨⟨id, repository⟩, hmem, hc⟩
    exact ⟨id, repository, AList.mem_lookup_iff.2 hmem, hc⟩
  · rintro ⟨id, repository, hl, hc⟩
    exact ⟨⟨id, repository⟩, AList.mem_lookup_iff.1 hl, hc⟩

theorem npk_manifest {npk : Npk} {key : Option String} (h : s.npk c = some (npk, key)) :
    npk.container = c ∧ ∃ id repository, s.repositories.lookup id = some repository ∧
      npk ∈ repository.npks := by
  obtain ⟨id, repository, hl, hget, -⟩ := npk_eq_some h
  obtain ⟨hmem, hc⟩ := Repository.get_eq_some hget
  exact ⟨hc, id, repository, hl, hmem⟩

/-- The package lookup reads only the repositories. -/
theorem npk_congr {s' : State} (h : s'.repositories = s.repositories) : s'.npk = s.npk := by
  funext c; simp [npk, h]

/-! ### Mounting -/

theorem mount_eq_ok {task : MountTask} (h : s.mount c = .ok task) :
    ∃ npk key, s.npk c = some (npk, key) ∧ task.container = c ∧ task.manifest = npk.manifest ∧
      task.root = ⟨c⟩ := by
  unfold mount at h
  split at h
  · simp at h
  · rename_i npk key hnpk
    simp only [Except.ok.injEq] at h
    subst h
    exact ⟨npk, key, hnpk, rfl, rfl, rfl⟩

theorem mem_spawnMounts {cs : List Container} {task : MountTask} (h : task ∈ (s.spawnMounts cs).1) :
    task.container ∈ cs ∧ s.mount task.container = .ok task := by
  induction cs with
  | nil => simp [spawnMounts] at h
  | cons x cs ih =>
    unfold spawnMounts at h
    split at h
    · simp at h
    · rename_i t ht
      rcases List.mem_cons.1 h with rfl | h
      · obtain ⟨-, -, -, hc, -⟩ := mount_eq_ok ht
        exact ⟨by simp [hc], hc ▸ ht⟩
      · exact (ih h).imp (List.mem_cons_of_mem x) id

/-- Without a rejection, every container gets its task, in order. -/
theorem spawnMounts_of_none {cs : List Container} (h : (s.spawnMounts cs).2 = none) :
    (s.spawnMounts cs).1.map (·.container) = cs := by
  induction cs with
  | nil => rfl
  | cons x cs ih =>
    unfold spawnMounts at h ⊢
    split at h
    · simp at h
    · rename_i t ht
      obtain ⟨-, -, -, hc, -⟩ := mount_eq_ok ht
      simp [hc, ih h]

theorem mem_mountResults {ok : Nat → Bool} {tasks : List MountTask} {mc : MountedContainer}
    (h : .ok mc ∈ mountResults ok tasks) : ∃ task ∈ tasks, mc = task.mounted := by
  induction tasks generalizing ok with
  | nil => simp [mountResults] at h
  | cons t ts ih =>
    simp only [mountResults, List.mem_cons] at h
    rcases h with h | h
    · split at h
      · exact ⟨t, List.mem_cons_self _ _, by simpa using h⟩
      · simp at h
    · obtain ⟨task, hmem, rfl⟩ := ih h
      exact ⟨task, List.mem_cons_of_mem _ hmem, rfl⟩

theorem lastError_eq_none {results : List (Except Error MountedContainer)} :
    lastError results = none ↔ ∀ r ∈ results, ∃ mc, r = .ok mc := by
  induction results with
  | nil => simp [lastError]
  | cons r rs ih =>
    rcases r with e | mc
    · simp [lastError]
    · simp [lastError, ih]

/-- When no mount failed, every task's container is mounted. -/
theorem mem_mountResults_of_lastError {ok : Nat → Bool} {tasks : List MountTask}
    (h : lastError (mountResults ok tasks) = none) {task : MountTask} (ht : task ∈ tasks) :
    .ok task.mounted ∈ mountResults ok tasks := by
  induction tasks generalizing ok with
  | nil => simp at ht
  | cons t ts ih =>
    have hall := lastError_eq_none.1 h
    simp only [mountResults, List.mem_cons] at hall ht ⊢
    have h0 := hall _ (.inl rfl)
    rcases ht with rfl | ht
    · left; split at h0 <;> simp_all
    · right; exact ih (lastError_eq_none.2 fun r hr => hall r (.inr hr)) ht

@[simp] theorem completeMounts_containers (results : List (Except Error MountedContainer)) :
    (s.completeMounts results).containers = s.containers := rfl
@[simp] theorem completeMounts_repositories (results : List (Except Error MountedContainer)) :
    (s.completeMounts results).repositories = s.repositories := rfl

@[simp] theorem insertMounted_repositories (results : List (Except Error MountedContainer)) :
    (s.insertMounted results).repositories = s.repositories := by
  induction results generalizing s with
  | nil => rfl
  | cons r rs ih => rcases r with e | mc <;> simp [insertMounted, ih]

@[simp] theorem insertMounted_mountControl (results : List (Except Error MountedContainer)) :
    (s.insertMounted results).mountControl = s.mountControl := by
  induction results generalizing s with
  | nil => rfl
  | cons r rs ih => rcases r with e | mc <;> simp [insertMounted, ih]

/-- An entry after the insertions is an old one or one of the mounted containers. -/
theorem lookup_insertMounted {results : List (Except Error MountedContainer)} {mc : MountedContainer}
    (h : (s.insertMounted results).containers.lookup c = some mc) :
    s.containers.lookup c = some mc ∨ (.ok mc ∈ results ∧ mc.container = c) := by
  induction results generalizing s with
  | nil => exact .inl h
  | cons r rs ih =>
    rcases r with e | m
    · simpa using ih h
    · rcases ih h with h | h
      · simp only [AList.lookup_insert_eq_none] at h
        by_cases hc : c = m.container
        · subst c; rw [AList.lookup_insert] at h; cases h; simp
        · rw [AList.lookup_insert_ne hc] at h; exact .inl h
      · exact .inr ⟨List.mem_cons_of_mem _ h.1, h.2⟩

theorem mem_insertMounted {results : List (Except Error MountedContainer)} :
    c ∈ (s.insertMounted results).containers ↔
      c ∈ s.containers ∨ ∃ mc, .ok mc ∈ results ∧ mc.container = c := by
  induction results generalizing s with
  | nil => simp [insertMounted]
  | cons r rs ih =>
    rcases r with e | m
    · simp [insertMounted, ih]
    · simp only [insertMounted, ih, AList.mem_insert, List.mem_cons, Except.ok.injEq]
      constructor
      · rintro ((rfl | h) | ⟨mc, h, rfl⟩)
        · exact .inr ⟨m, .inl rfl, rfl⟩
        · exact .inl h
        · exact .inr ⟨mc, .inr h, rfl⟩
      · rintro (h | ⟨mc, rfl | h, rfl⟩)
        · exact .inl (.inr h)
        · exact .inl (.inl rfl)
        · exact .inr ⟨mc, h, rfl⟩

/-- An entry no mounted container replaces is left as it was. -/
theorem lookup_insertMounted_of_forall {results : List (Except Error MountedContainer)}
    (h : ∀ mc, .ok mc ∈ results → mc.container ≠ c) :
    (s.insertMounted results).containers.lookup c = s.containers.lookup c := by
  induction results generalizing s with
  | nil => rfl
  | cons r rs ih =>
    rcases r with e | m
    · exact ih fun mc hmc => h mc (List.mem_cons_of_mem _ hmc)
    · rw [insertMounted, ih fun mc hmc => h mc (List.mem_cons_of_mem _ hmc)]
      exact AList.lookup_insert_ne (Ne.symm (h m (List.mem_cons_self _ _)))

end State

/-! ### Loops -/

section ForEach

variable {α : Type} {f : α → Engine Unit} {x : α} {s s₁ s' : State}

theorem forEach_cons_of_ok (h : f x s = .ok () s₁) (xs : List α) : forEach f (x :: xs) s = forEach f xs s₁ := by
  simp only [forEach, h]

/-- A loop that succeeds ran its first step to success and the rest from there. -/
theorem forEach_cons_eq_ok {xs : List α} :
    forEach f (x :: xs) s = .ok () s' ↔ ∃ s₁, f x s = .ok () s₁ ∧ forEach f xs s₁ = .ok () s' := by
  refine ⟨fun h => ?_, fun ⟨s₁, h₁, h⟩ => (forEach_cons_of_ok h₁ xs).trans h⟩
  simp only [forEach] at h
  split at h
  · exact ⟨_, ‹_›, h⟩
  · cases h

end ForEach

end Northstar

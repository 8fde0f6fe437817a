import Northstar.Runtime.Model

/-!
# Repositories

The engine reaches a repository only through `get`, `insert`, `remove` and `key`. The repository
implementations are not among the sources, so these follow the spec: a repository is a set of
packages under an optional key, `insert` rejects a package whose identity it already holds, and a
failed `insert` leaves the repository unchanged.
-/

namespace Northstar

/-- Modelled from the spec: a repository (`DirRepository` or `MemRepository`), its verification
key and its packages. -/
structure Repository where
  key : Option String
  npks : List Npk
deriving DecidableEq, Repr, Inhabited

namespace Repository

/-- Modelled from the spec: `Repository::get`, the package with the identity. -/
def get (repository : Repository) (container : Container) : Option Npk :=
  repository.npks.find? (·.container = container)

/-- Modelled from the spec: `Repository::insert`. The package read from the byte stream is added
unless reading it failed or the repository already holds its identity. -/
def insert (repository : Repository) (npk : Except Error Npk) :
    Except Error (Container × Repository) :=
  match npk with
  | .error e => .error e
  | .ok npk =>
    if (repository.get npk.container).isSome then .error (.installDuplicate npk.container)
    else .ok (npk.container, { repository with npks := repository.npks ++ [npk] })

/-- Modelled from the spec: `Repository::remove`, once it has succeeded. -/
def remove (repository : Repository) (container : Container) : Repository :=
  { repository with npks := repository.npks.filter (·.container ≠ container) }

/-- Whether the repository holds a package with the identity. -/
def Contains (repository : Repository) (container : Container) : Prop :=
  ∃ npk ∈ repository.npks, npk.container = container

instance (repository : Repository) (container : Container) : Decidable (repository.Contains container) :=
  inferInstanceAs (Decidable (∃ npk ∈ repository.npks, npk.container = container))

theorem get_isSome_iff {repository : Repository} {container : Container} :
    (repository.get container).isSome ↔ repository.Contains container := by
  simp [get, Contains, List.find?_isSome]

theorem get_eq_some {repository : Repository} {container : Container} {npk : Npk}
    (h : repository.get container = some npk) : npk ∈ repository.npks ∧ npk.container = container := by
  have := List.find?_some h
  exact ⟨List.mem_of_find?_eq_some h, by simpa using this⟩

theorem contains_remove {repository : Repository} {container other : Container} :
    (repository.remove container).Contains other ↔ repository.Contains other ∧ other ≠ container := by
  constructor
  · rintro ⟨npk, hmem, rfl⟩
    simp only [remove, List.mem_filter, decide_eq_true_eq] at hmem
    exact ⟨⟨npk, hmem.1, rfl⟩, hmem.2⟩
  · rintro ⟨⟨npk, hmem, rfl⟩, hne⟩
    exact ⟨npk, by simp [remove, hmem, hne], rfl⟩

theorem insert_eq_ok {repository repository' : Repository} {npk : Except Error Npk}
    {container : Container} (h : repository.insert npk = .ok (container, repository')) :
    ∃ package, npk = .ok package ∧ package.container = container ∧
      ¬ repository.Contains container ∧ repository' = { repository with npks := repository.npks ++ [package] } := by
  rcases npk with e | package
  · simp [insert] at h
  · simp only [insert] at h
    split at h
    · simp at h
    · rename_i hfresh
      simp only [Except.ok.injEq, Prod.mk.injEq] at h
      obtain ⟨rfl, rfl⟩ := h
      exact ⟨package, rfl, rfl, by simpa [get_isSome_iff] using hfresh, rfl⟩

end Repository

end Northstar

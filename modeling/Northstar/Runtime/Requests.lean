import Northstar.Runtime.Invariants

/-!
# Console requests against their contract

Two requests whose code does less than the console protocol promises.

`Request::Mount(containers)` is answered by calling `State::mount` for each identity in turn,
`?`-returning at the first one no repository holds, then awaiting the spawned tasks and
inserting what they mounted. `mountRequest_eq` says all it does, as a function of the first
unknown identity. Three consequences break what the request is meant to do:

* the reply is `Response::Mount(vec![])` whatever the list (a `todo` in the source stands where
  the per-identity results would be collected);
* an unknown identity is not a per-identity error: `console_request` itself returns
  `Err(InvalidContainer)`, no response is sent, and the error leaves the engine loop;
* the tasks spawned before that `?` still run, so their roots are mounted while no entry records
  them; and an identity that is already mapped is mounted again, its entry replaced by one
  without a process context.

`State::install` asks only the target repository whether it holds the identity (the source
leaves uniqueness across repositories as a `TODO` in `State::new`), so an identity one
repository holds can be installed into another.
-/

namespace Northstar

open State

variable {s : State} {cs : List Container} {ok : Nat → Bool} {x : Container}

/-! ### Bulk mounts -/

/-- The loop of `State::mount` calls stops at the first identity without a package. -/
theorem spawnMounts_rejected (cs : List Container) :
    (s.spawnMounts cs).2 = (cs.find? fun x => (s.npk x).isNone).map .invalidContainer := by
  induction cs with
  | nil => rfl
  | cons x cs ih =>
    unfold spawnMounts mount
    cases hx : s.npk x with
    | none => simp [hx]
    | some p => simp [hx, ih]

/-- What the bulk mount does, as a function of the first unknown identity. -/
theorem mountRequest_eq (cs : List Container) (ok : Nat → Bool) :
    mountRequest cs ok s =
      match cs.find? fun x => (s.npk x).isNone with
      | some x => .error (.error (.invalidContainer x))
          (s.completeMounts (mountResults ok (s.spawnMounts cs).1))
      | none => .ok (.mount []) ((s.completeMounts (mountResults ok (s.spawnMounts cs).1)).insertMounted
          (mountResults ok (s.spawnMounts cs).1)) := by
  have h : (s.spawnMounts cs).2 = _ := spawnMounts_rejected cs
  unfold mountRequest
  generalize s.spawnMounts cs = p at h ⊢
  obtain ⟨tasks, rejected⟩ := p
  cases hfind : cs.find? fun x => (s.npk x).isNone <;> simp_all

/-- The request replies `Mount([])`, or sends nothing and returns `Err`: never a result per
identity. -/
theorem consoleRequest_mount (env : Env) :
    consoleRequest (.message (.request (.mount cs))) env s =
      match cs.find? fun x => (s.npk x).isNone with
      | some x => .error (.error (.invalidContainer x))
          (s.completeMounts (mountResults env.mount (s.spawnMounts cs).1))
      | none => .ok (some (.mount []))
          ((s.completeMounts (mountResults env.mount (s.spawnMounts cs).1)).insertMounted
            (mountResults env.mount (s.spawnMounts cs).1)) := by
  simp only [consoleRequest, requestResponse, mountRequest_eq]
  cases cs.find? fun x => (s.npk x).isNone <;> rfl

/-- An identity no repository holds. -/
def unknown : Container := ⟨"unknown", ⟨1, 0, 0⟩⟩

theorem mount_unknown_error :
    Reachable (fun _ => True) (State.new deployment) ∧
      consoleRequest (.message (.request (.mount [unknown]))) (succeeding 1) (State.new deployment) =
        .error (.error (.invalidContainer unknown)) (State.new deployment) :=
  ⟨.new _ fun _ _ _ _ _ => trivial, rfl⟩

theorem mount_unrecorded :
    Reachable (fun _ => True) (State.new deployment) ∧
      ∃ s', consoleRequest (.message (.request (.mount [res, unknown]))) (succeeding 1)
          (State.new deployment) = .error (.error (.invalidContainer unknown)) s' ∧
        ⟨res⟩ ∈ s'.mountControl ∧ res ∉ s'.containers :=
  ⟨.new _ fun _ _ _ _ _ => trivial, _, rfl, by decide, by decide⟩

theorem mount_reply_empty :
    Reachable (fun _ => True) (State.new deployment) ∧
      ∃ s', consoleRequest (.message (.request (.mount [res]))) (succeeding 1) (State.new deployment) =
        .ok (some (.mount [])) s' ∧ res ∈ s'.containers :=
  ⟨.new _ fun _ _ _ _ _ => trivial, _, rfl, by decide⟩

/-! ### Installing -/

/-- No identity is held by two repositories. -/
def Disjoint (s : State) : Prop :=
  s.repositories.entries.Pairwise fun a b => ∀ npk ∈ a.2.npks, ¬ b.2.Contains npk.container

instance : DecidablePred Disjoint := fun s =>
  inferInstanceAs (Decidable (s.repositories.entries.Pairwise _))

/-- Two repositories, the first holding `res`. -/
def twoRepositories : AList fun _ : RepositoryId => Repository :=
  AList.insert "a" ⟨none, [resNpk]⟩ (AList.insert "b" ⟨none, []⟩ ∅)

theorem install_into_second_repository :
    Reachable (fun _ => True) (State.new twoRepositories) ∧ Disjoint (State.new twoRepositories) ∧
      ∃ s', handle (.console (.install "b" (.ok resNpk))) (succeeding 1) (State.new twoRepositories) =
        .ok () s' ∧ ¬ Disjoint s' :=
  ⟨.new _ fun _ _ _ _ _ => trivial, by decide, _, rfl, by decide⟩

end Northstar

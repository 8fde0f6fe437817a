import Northstar.Runtime.Processes

/-!
# What subscribers see of a container's life

The engine tells its subscribers of a container's life with three notifications: `Started` once
`start` has recorded a process context, `Stopped` once `stop` has taken it, `Exit` once `on_exit`
has. A subscriber that follows a container through them (`watch`) holds it running from a
`Started` to the next `Stopped` or `Exit`; a `Stopped` or `Exit` while it holds the container idle
would end nothing.

`notifications_paired`: in every reachable state the subscriber never meets such an end, and it
holds running every container that has a process context. It may hold running a container that
has none: a bulk mount of a running container replaces its entry by one without a process context
and sends nothing.

`State::on_oom` sends `OutOfMemory` only for a container with a process context and stops it at
once, and `stop` sends no notification between taking the context and `Stopped`. So every
`OutOfMemory` is followed at once by the `Stopped` of the same container, and reaches a subscriber
that holds that container running (`oom_then_stopped`).
-/

namespace Northstar

open State

/-- The notification an effect sends, if it sends one. -/
def Effect.notification? : Effect → Option Notification
  | .send (.notification n) => some n
  | _ => none

/-- The notifications the engine has sent, in order. -/
def State.sent (s : State) : List Notification := s.effects.filterMap Effect.notification?

/-- A subscriber's view of container `c`: whether it runs; `none` once a `Stopped` or `Exit` of `c`
came while it was held idle. -/
def watch (c : Container) : Option Bool → Notification → Option Bool
  | none, _ => none
  | some running, .started c' => if c' = c then some true else some running
  | some running, .stopped c' => if c' = c then (if running then some false else none) else some running
  | some running, .exit c' _ => if c' = c then (if running then some false else none) else some running
  | some running, .outOfMemory _ => some running

/-- The subscriber's view after the notifications sent so far, from idle. -/
def State.watched (s : State) (c : Container) : Option Bool := s.sent.foldl (watch c) (some false)

variable {s s' : State} {c c' : Container} {e : Effect} {cs : List Container} {ok : Nat → Bool}

theorem sent_emit (e : Effect) : (s.emit e).sent = s.sent ++ e.notification?.toList := by
  cases h : e.notification? <;> simp [State.sent, State.emit, List.filterMap_append, h]

@[simp] theorem sent_setProcess (p : Option ProcessContext) : (s.setProcess c p).sent = s.sent := by
  simp [State.sent]

theorem watched_emit (e : Effect) (c : Container) :
    (s.emit e).watched c = e.notification?.toList.foldl (watch c) (s.watched c) := by
  rw [State.watched, sent_emit, List.foldl_append]; rfl

@[simp] theorem watched_setProcess (p : Option ProcessContext) : (s.setProcess c p).watched c' = s.watched c' := by
  simp [State.watched]

theorem process_clear_isSome (h : ((s.setProcess c none).process c').isSome) : (s.process c').isSome := by
  rw [process_setProcess] at h
  split_ifs at h
  · simp at h
  · exact h

theorem process_clear_self : (s.setProcess c none).process c = none := by
  rw [process_setProcess]
  split_ifs with h
  · rfl
  · simp only [State.process, AList.lookup_eq_none.2 fun hc => h ⟨rfl, hc⟩, Option.none_bind]

theorem Mounted.process_isSome (hm : Mounted cs ok s s') (h : (s'.process c).isSome) : (s.process c).isSome := by
  rcases hm with rfl | rfl
  · exact h
  · obtain ⟨p, hp⟩ := Option.isSome_iff_exists.1 h
    obtain ⟨mc, hl, hmc⟩ := Option.bind_eq_some.1 hp
    rcases lookup_insertMounted hl with hl | ⟨hres, -⟩
    · rw [completeMounts_containers] at hl
      simp [State.process, hl, hmc]
    · obtain ⟨-, -, -, -, hnone, -⟩ := spawned_result hres
      simp [hnone] at hmc

/-! ### The invariant -/

/-- The subscriber never meets an end of nothing, and holds running every container with a
process context. -/
def Paired (s : State) : Prop :=
  ∀ c, ∃ running, s.watched c = some running ∧ ((s.process c).isSome → running = true)

/-- A step that sends no notification and gives no container a process context keeps it. -/
theorem Paired.frame (h : Paired s) (hsent : s'.sent = s.sent)
    (hprocess : ∀ c, (s'.process c).isSome → (s.process c).isSome) : Paired s' := fun c => by
  obtain ⟨running, hw, hp⟩ := h c
  exact ⟨running, by rw [State.watched, hsent]; exact hw, fun h' => hp (hprocess c h')⟩

/-- An effect that sends no notification of a container's life keeps it. -/
theorem Paired.emit (h : Paired s)
    (he : ∀ n, e.notification? = some n → ∀ c running, watch c (some running) n = some running) :
    Paired (s.emit e) := fun c => by
  obtain ⟨running, hw, hp⟩ := h c
  refine ⟨running, ?_, hp⟩
  rw [watched_emit, hw]
  cases hn : e.notification? with
  | none => rfl
  | some n => exact he n hn c running

/-- `Stopped` or `Exit` of a container the subscriber holds running, once its context is gone. -/
theorem Paired.ended (h : Paired s) (hrun : s.watched c = some true) (hnone : s.process c = none)
    {n : Notification} (hn : n = .stopped c ∨ ∃ status, n = .exit c status) :
    Paired (s.emit (.send (.notification n))) := fun c' => by
  rw [watched_emit]
  by_cases hc : c' = c
  · subst hc
    refine ⟨false, ?_, by simp [hnone]⟩
    rcases hn with rfl | ⟨status, rfl⟩ <;> simp [Effect.notification?, hrun, watch]
  · obtain ⟨running, hw, hp⟩ := h c'
    refine ⟨running, ?_, hp⟩
    rcases hn with rfl | ⟨status, rfl⟩ <;> simp [Effect.notification?, hw, watch, Ne.symm hc]

/-- The launch: the spawn, the process context, then `Started`. -/
theorem Paired.launched (h : Paired s) (pid : Pid) (p : ProcessContext) :
    Paired (((s.emit (.spawn pid c)).setProcess c (some p)).emit (.send (.notification (.started c)))) :=
  fun c' => by
  rw [watched_emit, watched_setProcess, watched_emit]
  obtain ⟨running, hw, hp⟩ := h c'
  by_cases hc : c' = c
  · subst hc
    exact ⟨true, by simp [Effect.notification?, hw, watch], fun _ => rfl⟩
  · refine ⟨running, by simp [Effect.notification?, hw, watch, Ne.symm hc], fun h' => hp ?_⟩
    simpa [process_setProcess, hc] using h'

/-! ### Every operation keeps it -/

theorem paired_stop (timeout : Nat) : Preserves Paired (stop c timeout) := fun s s' h hstop => by
  rcases stop_state hstop with rfl | ⟨context, hcontext, rfl⟩
  · exact h
  · obtain ⟨running, hw, hp⟩ := h c
    obtain rfl := hp (by simp [hcontext])
    have hclear : Paired (s.setProcess c none) := h.frame (by simp [State.sent]) fun _ => process_clear_isSome
    refine (hclear.emit ?_).ended ?_ process_clear_self (.inl rfl)
    · simp [Effect.notification?]
    · simpa [watched_emit, Effect.notification?] using hw

theorem paired_onExit (status : ExitStatus) : Preserves Paired (onExit c status) := fun s s' h hexit => by
  unfold onExit at hexit
  split at hexit <;> simp only [next_ok, Option.some.injEq] at hexit <;> subst hexit
  · exact h
  · rename_i context hcontext
    obtain ⟨running, hw, hp⟩ := h c
    obtain rfl := hp (by simp [hcontext])
    exact (h.frame (by simp [State.sent]) fun _ => process_clear_isSome).ended (by simpa using hw)
      process_clear_self (.inr ⟨status, rfl⟩)

theorem paired_mounted (hm : Mounted cs ok s s') (h : Paired s) : Paired s' :=
  h.frame (by simp [State.sent, hm.effects]) fun _ => hm.process_isSome

theorem paired_umount : Preserves Paired (umount c) := fun s s' h hu => by
  rcases umount_state hu with rfl | hok
  · exact h
  · obtain ⟨mc, -, -, -, rfl⟩ := umount_ok hok
    refine h.frame rfl fun c' h' => ?_
    obtain ⟨p, hp⟩ := Option.isSome_iff_exists.1 h'
    obtain ⟨mc', hl, hmc'⟩ := Option.bind_eq_some.1 hp
    simp [State.process, (lookup_of_lookup_erase hl).2, hmc']

/-- `start` sends `Started` only right after it has recorded the process context. -/
theorem paired_start (env : Env) : Preserves Paired (start c env) := fun s s' h hstart => by
  rcases start_state hstart with rfl | ⟨cs, -, hm⟩ | ⟨cs, s₁, -, hm, hl⟩
  · exact h
  · exact paired_mounted (mountAll_state hm) h
  · have h₁ := paired_mounted (mountAll_ok_mounted hm) h
    rcases launch_state hl with rfl | ⟨pid, -, -, -, rfl⟩ | hok
    · exact h₁
    · exact h₁.emit (by simp [Effect.notification?])
    · obtain ⟨mc, pid, -, -, -, rfl⟩ := launch_ok hok
      exact h₁.launched pid _

theorem paired_handle (event : Event) (env : Env) : Preserves Paired (handle event env) :=
  preserves_handle_of (fun _ timeout => paired_stop timeout) (fun _ => paired_umount)
    (fun _ h => h.emit (by simp [Effect.notification?]))
    (fun _ _ _ _ h hm => paired_mounted (mountRequest_state hm) h)
    (fun _ env => paired_start env)
    (fun _ _ => preserves_uninstall paired_umount fun _ =>
      Preserves.and_unmapped fun _ _ h hr => h.frame (by simp [State.sent, effects_removeFrom hr])
        fun _ h' => by rwa [State.process, removeFrom_containers hr] at h')
    (fun _ status => paired_onExit status)
    (fun _ => preserves_onOom_of (fun _ h => h.emit fun n hn c running => by cases Option.some.inj hn; rfl) (paired_stop 5))
    (fun _ _ _ _ _ h hi => by rcases install_state hi with rfl | ⟨-, -, -, -, -, rfl⟩ <;> exact h)
    (installs_true event) env

theorem paired_reachable {admissible : Npk → Prop} (hs : Reachable admissible s) : Paired s :=
  hs.induct_inv Paired (fun _ _ _ => ⟨false, rfl, by simp [State.new, State.process]⟩)
    fun s s' event env _ _ h hnext => paired_handle event env s s' h hnext

/-- In every reachable state, a subscriber following a container through the notifications the
engine sent never meets a `Stopped` or `Exit` of it while it holds the container idle, and holds
it running whenever it has a process context. -/
theorem notifications_paired {admissible : Npk → Prop} (hs : Reachable admissible s) (c : Container) :
    ∃ running, s.sent.foldl (watch c) (some false) = some running ∧ ((s.process c).isSome → running = true) :=
  paired_reachable hs c

theorem notifications_paired_restarted :
    ∃ s, run [(request (.start app), succeeding 1), (request (.stop app 5), succeeding 0),
        (request (.start app), succeeding 2)] (State.new deployment) = some s ∧
      s.sent = [.started app, .stopped app, .started app] ∧
      ∃ running, s.sent.foldl (watch app) (some false) = some running ∧
        ((s.process app).isSome → running = true) := by
  obtain ⟨s, hrun, hsent⟩ : ∃ s, run [(request (.start app), succeeding 1), (request (.stop app 5), succeeding 0),
      (request (.start app), succeeding 2)] (State.new deployment) = some s ∧
      s.sent = [.started app, .stopped app, .started app] := ⟨_, rfl, rfl⟩
  exact ⟨s, hrun, hsent, notifications_paired (.run (.new _ fun _ _ _ _ _ => trivial)
    (by simp [Event.Installs, request]) hrun) app⟩

/-! ### Out of memory, then stopped -/

/-- Every `OutOfMemory` in the notifications is followed at once by the `Stopped` of its container,
and came while a subscriber held that container running. -/
def OomStopped (sent : List Notification) : Prop :=
  ∀ l₁ c l₂, sent = l₁ ++ .outOfMemory c :: l₂ →
    l₂.head? = some (.stopped c) ∧ l₁.foldl (watch c) (some false) = some true

/-- Where an `OutOfMemory` sits in a list with one more notification at its end: it is that one, or
it was there before. -/
theorem eq_outOfMemory_snoc {sent l₁ l₂ : List Notification} {n : Notification}
    (h : sent ++ [n] = l₁ ++ .outOfMemory c :: l₂) :
    (n = .outOfMemory c ∧ l₁ = sent ∧ l₂ = []) ∨ ∃ L, sent = l₁ ++ .outOfMemory c :: L ∧ l₂ = L ++ [n] := by
  rcases List.eq_nil_or_concat l₂ with rfl | ⟨L, b, rfl⟩
  · obtain ⟨rfl, hn⟩ := List.append_inj' h rfl
    exact .inl ⟨(List.singleton_inj.1 hn), rfl, rfl⟩
  · rw [List.concat_eq_append, ← List.cons_append, ← List.append_assoc] at h
    obtain ⟨rfl, hn⟩ := List.append_inj' h rfl
    exact .inr ⟨L, rfl, by rw [List.singleton_inj.1 hn, List.concat_eq_append]⟩

theorem head?_append_of_head? {l l' : List Notification} {n : Notification} (h : l.head? = some n) :
    (l ++ l').head? = some n := by
  cases l with
  | nil => cases h
  | cons x l => exact h

theorem OomStopped.snoc {sent : List Notification} {n : Notification} (h : OomStopped sent)
    (hn : ∀ c, n ≠ .outOfMemory c) : OomStopped (sent ++ [n]) := fun l₁ c l₂ hsent => by
  rcases eq_outOfMemory_snoc hsent with ⟨rfl, -, -⟩ | ⟨L, hL, rfl⟩
  · exact absurd rfl (hn c)
  · obtain ⟨hhead, hfold⟩ := h l₁ c L hL
    exact ⟨head?_append_of_head? hhead, hfold⟩

/-- `on_oom`'s two notifications, for a container the subscriber holds running. -/
theorem OomStopped.oom {sent : List Notification} (h : OomStopped sent) (hw : sent.foldl (watch c) (some false) = some true) :
    OomStopped (sent ++ [.outOfMemory c, .stopped c]) := fun l₁ c' l₂ hsent => by
  rw [show sent ++ [.outOfMemory c, .stopped c] = sent ++ [.outOfMemory c] ++ [.stopped c] by simp] at hsent
  rcases eq_outOfMemory_snoc hsent with ⟨hn, -, -⟩ | ⟨L, hL, rfl⟩
  · cases hn
  · rcases eq_outOfMemory_snoc hL with ⟨hn, rfl, rfl⟩ | ⟨L', hL', rfl⟩
    · cases hn
      exact ⟨rfl, hw⟩
    · obtain ⟨hhead, hfold⟩ := h l₁ c' L' hL'
      exact ⟨head?_append_of_head? (head?_append_of_head? hhead), hfold⟩

theorem OomStopped.emit {e : Effect} (h : OomStopped s.sent) (he : ∀ c, e.notification? ≠ some (.outOfMemory c)) :
    OomStopped (s.emit e).sent := by
  rw [sent_emit]
  cases hn : e.notification? with
  | none => simpa using h
  | some n => exact h.snoc fun c hc => he c (hn.trans (congrArg some hc))

/-- What subscribers are told of a container running out of memory: `Paired`, and `OomStopped`
of the notifications. -/
def OomInvariant (s : State) : Prop := Paired s ∧ OomStopped s.sent

theorem OomInvariant.frame (h : OomInvariant s) (hsent : s'.sent = s.sent)
    (hprocess : ∀ c, (s'.process c).isSome → (s.process c).isSome) : OomInvariant s' :=
  ⟨h.1.frame hsent hprocess, hsent ▸ h.2⟩

theorem oomInvariant_stop (timeout : Nat) : Preserves OomInvariant (stop c timeout) := fun s s' h hstop => by
  refine ⟨paired_stop timeout s s' h.1 hstop, ?_⟩
  rcases stop_state hstop with rfl | ⟨context, -, rfl⟩
  · exact h.2
  · refine OomStopped.emit (OomStopped.emit ?_ fun _ => by simp [Effect.notification?]) fun _ => by simp [Effect.notification?]
    simpa using h.2

theorem oomInvariant_onExit (status : ExitStatus) : Preserves OomInvariant (onExit c status) := fun s s' h hexit => by
  refine ⟨paired_onExit status s s' h.1 hexit, ?_⟩
  unfold onExit at hexit
  split at hexit <;> simp only [next_ok, Option.some.injEq] at hexit <;> subst hexit
  · exact h.2
  · exact OomStopped.emit (by simpa using h.2) fun _ => by simp [Effect.notification?]

theorem oomInvariant_start (env : Env) : Preserves OomInvariant (start c env) := fun s s' h hstart => by
  refine ⟨paired_start env s s' h.1 hstart, ?_⟩
  rcases start_state hstart with rfl | ⟨cs, -, hm⟩ | ⟨cs, s₁, -, hm, hl⟩
  · exact h.2
  · simpa [State.sent, (mountAll_state hm).effects] using h.2
  · have h₁ : OomStopped s₁.sent := by simpa [State.sent, (mountAll_ok_mounted hm).effects] using h.2
    rcases launch_state hl with rfl | ⟨pid, -, -, -, rfl⟩ | hok
    · exact h₁
    · exact h₁.emit fun _ => by simp [Effect.notification?]
    · obtain ⟨mc, pid, -, -, -, rfl⟩ := launch_ok hok
      exact OomStopped.emit (by simpa using h₁.emit fun _ => by simp [Effect.notification?]) fun _ => by simp [Effect.notification?]

/-- `on_oom` sends `OutOfMemory` only for a container with a process context, which the subscriber
holds running, and then stops it. -/
theorem oomInvariant_onOom : Preserves OomInvariant (onOom c) := fun s s' h hoom => by
  have hpaired := preserves_onOom_of (fun _ h => h.emit fun n hn c running => by cases Option.some.inj hn; rfl)
    (paired_stop 5) s s' h.1 hoom
  unfold onOom at hoom
  split at hoom
  · simp only [next_ok, Option.some.injEq] at hoom
    exact hoom ▸ h
  · rename_i context hcontext
    rw [stop_of_process (by rwa [process_emit]), next_ok, Option.some.injEq] at hoom
    subst hoom
    obtain ⟨running, hw, hp⟩ := h.1 c
    obtain rfl := hp (by simp [hcontext])
    refine ⟨hpaired, ?_⟩
    simpa [sent_emit, Effect.notification?] using h.2.oom hw

theorem oomInvariant_umount : Preserves OomInvariant (umount c) := fun s s' h hu =>
  ⟨paired_umount s s' h.1 hu, by rw [State.sent, effects_umount hu]; exact h.2⟩

theorem oomInvariant_handle (event : Event) (env : Env) : Preserves OomInvariant (handle event env) :=
  preserves_handle_of (fun _ timeout => oomInvariant_stop timeout) (fun _ => oomInvariant_umount)
    (fun _ h => ⟨h.1.emit (by simp [Effect.notification?]), h.2.emit fun _ => by simp [Effect.notification?]⟩)
    (fun _ _ _ _ h hm => h.frame (by simp [State.sent, (mountRequest_state hm).effects]) fun _ =>
      (mountRequest_state hm).process_isSome)
    (fun _ env => oomInvariant_start env)
    (fun _ _ => preserves_uninstall oomInvariant_umount fun _ =>
      Preserves.and_unmapped fun _ _ h hr => by rcases removeFrom_state hr with rfl | ⟨-, -, rfl⟩ <;> exact h)
    (fun _ status => oomInvariant_onExit status)
    (fun _ => oomInvariant_onOom)
    (fun _ _ _ _ _ h hi => by rcases install_state hi with rfl | ⟨-, -, -, -, -, rfl⟩ <;> exact h)
    (installs_true event) env

theorem oomInvariant_reachable {admissible : Npk → Prop} (hs : Reachable admissible s) : OomInvariant s :=
  hs.induct_inv OomInvariant (fun _ _ => ⟨fun _ => ⟨false, rfl, by simp [State.new, State.process]⟩,
      fun l₁ _ _ h => by simp [State.sent, State.new] at h⟩)
    fun s s' event env _ _ h hnext => oomInvariant_handle event env s s' h hnext

/-- In every reachable state, every `OutOfMemory(c)` the engine has sent is followed at once by
`Stopped(c)`, and came while a subscriber following the notifications held `c` running. -/
theorem oom_then_stopped {admissible : Npk → Prop} (hs : Reachable admissible s) :
    ∀ l₁ c l₂, s.sent = l₁ ++ .outOfMemory c :: l₂ →
      l₂.head? = some (.stopped c) ∧ l₁.foldl (watch c) (some false) = some true :=
  (oomInvariant_reachable hs).2

theorem oom_then_stopped_app :
    ∃ s, run [(request (.start app), succeeding 1), (.oom app, succeeding 0)] (State.new deployment) = some s ∧
      s.sent = [.started app] ++ .outOfMemory app :: [.stopped app] ∧
      ([.stopped app] : List Notification).head? = some (.stopped app) ∧
        ([.started app] : List Notification).foldl (watch app) (some false) = some true := by
  obtain ⟨s, hrun, hsent⟩ : ∃ s, run [(request (.start app), succeeding 1), (.oom app, succeeding 0)]
      (State.new deployment) = some s ∧ s.sent = [.started app] ++ .outOfMemory app :: [.stopped app] :=
    ⟨_, rfl, rfl⟩
  exact ⟨s, hrun, hsent, oom_then_stopped (.run (.new _ fun _ _ _ _ _ => trivial)
    (by simp [Event.Installs, request]) hrun) _ _ _ hsent⟩

end Northstar

import Northstar.Api.Client
import Northstar.Runtime.Requests

/-!
# The typed methods of `Client` against the engine

Every typed method of `Client` (`containers`, `start`, `install`, ...) sends one request through
the client task and matches the answer: the response it expects gives its value,
`Response::Err(e)` gives `Api(e)`, any other response `Protocol`. `Client::mount` has a match of
its own, with `unreachable!()` for `Response::Ok`.

The engine answers each request with one kind of response: `console_request` answers
`Containers` with `Containers`, `Mount` with `Mount`, `Repositories` with `Repositories`,
`Shutdown` with `Ok`, and the requests whose operation returns `Result<(), Error>` with `Ok` or
`Err`; an install, whose bytes the console parses into a package, is answered by `State::install`
the same way.

`typed_calls_never_protocol` puts the two together with the client task: in every run of the task
whose connection answers the requests in the order they were written with answers of the engine,
a caller never gets `Protocol` from its method, and `mount`'s `unreachable!()` is never reached.
-/

namespace Northstar

namespace Client

/-- The match every typed method makes on what `Client::request` returned: the value `accept`
takes from the response the method expects, `Api(e)` for `Response::Err(e)`, `Protocol` for any
other response; an error is passed on by the `?`. -/
def expect {α : Type} (accept : Response → Option α) : Except ClientError Response → Except ClientError α
  | .error e => .error e
  | .ok (.err e) => .error (.api e)
  | .ok response =>
    match accept response with
    | some a => .ok a
    | none => .error .protocol

/-- `Response::Ok(())` -/
def acceptOk : Response → Option Unit
  | .ok => some ()
  | _ => none

/-- `Client::containers` -/
def containers : Except ClientError Response → Except ClientError (List ContainerData) :=
  expect fun
    | .containers cs => some cs
    | _ => none

/-- `Client::repositories` -/
def repositories : Except ClientError Response → Except ClientError (List RepositoryId) :=
  expect fun
    | .repositories ids => some ids
    | _ => none

/-- `Client::start` -/
def start : Except ClientError Response → Except ClientError Unit := expect acceptOk

/-- `Client::stop` -/
def stop : Except ClientError Response → Except ClientError Unit := expect acceptOk

/-- `Client::install` -/
def install : Except ClientError Response → Except ClientError Unit := expect acceptOk

/-- `Client::uninstall` -/
def uninstall : Except ClientError Response → Except ClientError Unit := expect acceptOk

/-- `Client::shutdown` -/
def shutdown : Except ClientError Response → Except ClientError Unit := expect acceptOk

/-- `Client::umount` -/
def umount : Except ClientError Response → Except ClientError Unit := expect acceptOk

/-- `Client::mount`, with its own match: `Response::Ok` is `unreachable!()`, a panic, the `Err` of
the outer `Except`. -/
def mount : Except ClientError Response → Except String (Except ClientError (List (Container × MountResult)))
  | .error e => .ok (.error e)
  | .ok (.mount mounts) => .ok (.ok mounts)
  | .ok .ok => .error "internal error: entered unreachable code"
  | .ok (.err e) => .ok (.error (.api e))
  | .ok _ => .ok (.error .protocol)

end Client

/-- The method of `Client` that sends `request`, its value dropped; the `Err` of the outer
`Except` is a panic. A request no typed method sends is sent with `Client::request`, which returns
the answer itself. -/
def ClientRequest.call : ClientRequest → Except ClientError Response → Except String (Except ClientError Unit)
  | .request .containers, a => .ok ((Client.containers a).map fun _ => ())
  | .request .repositories, a => .ok ((Client.repositories a).map fun _ => ())
  | .request (.mount _), a => (Client.mount a).map (·.map fun _ => ())
  | .request .shutdown, a => .ok (Client.shutdown a)
  | .request (.start _), a => .ok (Client.start a)
  | .request (.stop _ _), a => .ok (Client.stop a)
  | .request (.umount _), a => .ok (Client.umount a)
  | .request (.uninstall _), a => .ok (Client.uninstall a)
  | .request (.install _ _), a => .ok (a.map fun _ => ())
  | .install _ _, a => .ok (Client.install a)

/-- An error the task hands a caller comes out of every method as it is. -/
theorem call_error (request : ClientRequest) (e : ClientError) : request.call (.error e) = .ok (.error e) := by
  rcases request with (_ | _ | _ | _ | _ | _ | _ | _ | _) | _ <;> rfl

/-- `response` is what the engine answers `written` with, from some state: a request in a message
goes to `console_request`, an `Install` to `State::install` with the package its bytes parse to. -/
def EngineAnswers (written : Request) (response : Response) : Prop :=
  match written with
  | .install repository _ => ∃ npk env s s', consoleRequest (.install repository npk) env s = .ok (some response) s'
  | written => ∃ env s s', consoleRequest (.message (.request written)) env s = .ok (some response) s'

/-! ### What the engine answers -/

section Engine

variable {r : Response} {s s' : State} {env : Env}

theorem respond_ok {x : EStateM.Result Fault State Unit} (h : respond x = .ok r s') :
    r = .ok ∨ ∃ e, r = .err e := by
  unfold respond at h
  split at h
  · cases h; exact .inl rfl
  · cases h; exact .inr ⟨_, rfl⟩
  · cases h

theorem consoleRequest_install {repository : RepositoryId} {npk : Except Error Npk}
    (h : consoleRequest (.install repository npk) env s = .ok (some r) s') : r = .ok ∨ ∃ e, r = .err e := by
  simp only [consoleRequest] at h
  split at h
  · rename_i hrespond
    cases h
    exact respond_ok hrespond
  · cases h

theorem consoleRequest_message {written : Request}
    (h : consoleRequest (.message (.request written)) env s = .ok (some r) s') :
    requestResponse written env s = .ok r s' := by
  simp only [consoleRequest] at h
  split at h
  · cases h; assumption
  · cases h

/-- The engine answers a request whose operation returns `Result<(), Error>` with `Ok` or `Err`,
`Shutdown` with `Ok`, `Containers` with `Containers`, `Repositories` with `Repositories` and
`Mount` with `Mount`; it answers no `Install` in a message. -/
theorem requestResponse_ok {written : Request} (h : requestResponse written env s = .ok r s') :
    match written with
    | .containers => ∃ cs, r = .containers cs
    | .repositories => ∃ ids, r = .repositories ids
    | .mount _ => ∃ mounts, r = .mount mounts
    | .install _ _ => False
    | _ => r = .ok ∨ ∃ e, r = .err e := by
  cases written with
  | containers => cases h; exact ⟨_, rfl⟩
  | repositories => cases h; exact ⟨_, rfl⟩
  | install => cases h
  | shutdown => cases h; exact .inl rfl
  | mount cs =>
    have hconsole : consoleRequest (.message (.request (.mount cs))) env s = _ := consoleRequest_mount env
    simp only [consoleRequest, h] at hconsole
    split at hconsole
    · cases hconsole
    · cases hconsole; exact ⟨_, rfl⟩
  | start => exact respond_ok h
  | stop => exact respond_ok h
  | umount => exact respond_ok h
  | uninstall => exact respond_ok h

end Engine

/-- The kind of response the engine answers each written request with. -/
theorem engineAnswers_kind {written : Request} {r : Response} (h : EngineAnswers written r) :
    match written with
    | .containers => ∃ cs, r = .containers cs
    | .repositories => ∃ ids, r = .repositories ids
    | .mount _ => ∃ mounts, r = .mount mounts
    | _ => r = .ok ∨ ∃ e, r = .err e := by
  cases written
  case install =>
    obtain ⟨npk, env, s, s', h⟩ := h
    exact consoleRequest_install h
  all_goals
    obtain ⟨env, s, s', h⟩ := h
    exact requestResponse_ok (consoleRequest_message h)

/-- Every response the engine gives is of the kind the method that wrote the request expects: the
method returns its value or `Api(e)`, never `Protocol`, and does not panic. -/
theorem call_engineAnswers {request : ClientRequest} {written : Request} {r : Response}
    (hwrites : request.Writes written) (hengine : EngineAnswers written r) :
    ∃ x, request.call (.ok r) = .ok x ∧ x ≠ .error .protocol := by
  have hkind := engineAnswers_kind hengine
  rcases request with written' | ⟨npk, repository⟩
  · rw [ClientRequest.writes_request] at hwrites
    subst hwrites
    cases written <;> simp only at hkind
    all_goals first
      | (rcases hkind with rfl | ⟨e, rfl⟩ <;> exact ⟨_, rfl, nofun⟩)
      | (obtain ⟨_, rfl⟩ := hkind; exact ⟨_, rfl, nofun⟩)
  · obtain ⟨size, rfl⟩ := hwrites
    rcases hkind with rfl | ⟨e, rfl⟩ <;> exact ⟨_, rfl, nofun⟩

/-! ### Every run of the client task against the engine -/

/-- Among distinct keys, an element is the only one with its key. -/
theorem eq_of_nodup_filterMap {α β : Type} {f : α → Option β} {x y : α} {b : β} :
    ∀ {l : List α}, (l.filterMap f).Nodup → x ∈ l → y ∈ l → f x = some b → f y = some b → x = y
  | a :: l, hl, hx, hy, hfx, hfy => by
    have hnodup : ∀ z ∈ l, f z = some b → f a = some b → False := fun z hz hfz hfa => by
      rw [List.filterMap_cons, hfa, List.nodup_cons] at hl
      exact hl.1 (List.mem_filterMap.2 ⟨z, hz, hfz⟩)
    have htail : (l.filterMap f).Nodup := by
      rw [List.filterMap_cons] at hl
      split at hl
      · exact hl
      · exact hl.of_cons
    rcases List.mem_cons.1 hx with rfl | hxl <;> rcases List.mem_cons.1 hy with rfl | hyl
    · rfl
    · exact (hnodup y hyl hfy hfx).elim
    · exact (hnodup x hxl hfx hfy).elim
    · exact eq_of_nodup_filterMap htail hxl hyl hfx hfy

open ClientTask

variable {turns : List Turn} {t : ClientTask} {c : Caller} {request : ClientRequest} {io : RequestIo}
  {a : Except ClientError Response}

/-- Talking to this runtime, no method of `Client` returns `Protocol`, and `mount`'s
`unreachable!()` is never reached: in every run of the client task whose callers are distinct and
whose connection answers each request written, in order, with an answer of the engine, a caller's
method makes of the answer it gets its value, `Api`, or `Stopped`, `PendingRequest` or `Io`. -/
theorem typed_calls_never_protocol (hrun : ClientTask.run turns init = some t)
    (hcallers : (turns.filterMap Turn.caller?).Nodup)
    (hpeer : ∀ x ∈ (t.sent.map Prod.snd).zip (turns.filterMap Turn.response?), EngineAnswers x.1 x.2)
    (hturn : Turn.request (some (c, request)) io ∈ turns) (hanswer : t.answer c = some a) :
    ∃ x, request.call a = .ok x ∧ x ≠ .error .protocol := by
  rcases a with e | r
  · refine ⟨_, call_error request e, ?_⟩
    rcases (sound_of_run hrun).answer_error hanswer with rfl | rfl | ⟨cause, rfl⟩ <;> nofun
  · obtain ⟨written, hsent, hengine⟩ := (settled_of_run hrun).1.answer_serves hpeer hanswer
    obtain ⟨request', io', hturn', hwrites⟩ := sound_of_run hrun _ (mem_effects_of_sent hsent)
    cases eq_of_nodup_filterMap hcallers hturn' hturn rfl rfl
    exact call_engineAnswers hwrites hengine

theorem typed_calls_never_protocol_overlapping :
    ClientTask.run overlappingTurns init = some overlapped ∧ (overlappingTurns.filterMap Turn.caller?).Nodup ∧
      (∀ x ∈ (overlapped.sent.map Prod.snd).zip (overlappingTurns.filterMap Turn.response?),
        EngineAnswers x.1 x.2) ∧
      Turn.request (some (1, .request .containers)) ⟨.ok (), .ok 0, .ok (), .ok ()⟩ ∈ overlappingTurns ∧
      overlapped.answer 1 = some (.ok (.containers [])) ∧
      ∃ x, (ClientRequest.request .containers).call (.ok (.containers [])) = .ok x ∧ x ≠ .error .protocol := by
  have hpeer : ∀ x ∈ (overlapped.sent.map Prod.snd).zip (overlappingTurns.filterMap Turn.response?),
      EngineAnswers x.1 x.2 := by
    intro x hx
    have hzip : (overlapped.sent.map Prod.snd).zip (overlappingTurns.filterMap Turn.response?) =
      [(.containers, .containers [])] := rfl
    rw [hzip, List.mem_singleton] at hx
    subst hx
    exact ⟨succeeding 0, State.new ∅, State.new ∅, rfl⟩
  have hturn : Turn.request (some (1, .request .containers)) ⟨.ok (), .ok 0, .ok (), .ok ()⟩ ∈ overlappingTurns := by
    decide
  exact ⟨rfl, by decide, hpeer, hturn, rfl,
    typed_calls_never_protocol (show ClientTask.run overlappingTurns init = some overlapped from rfl) (by decide) hpeer
      hturn rfl⟩

end Northstar

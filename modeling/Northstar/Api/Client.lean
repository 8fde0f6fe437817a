import Northstar.Runtime.Model

/-!
# The client task

`Client::new` of `api/client.rs` connects and spawns a task that owns the connection. The task
loops over a `select!` of two sources: the messages the connection yields, and the requests that
`Client::request` and `Client::install` put on a channel, each with the sender of a oneshot for
its answer. It keeps at most one such sender, `response_tx`: a request that finds one refused
with `PendingRequest`, a `Response` is handed to it, and a `Response` that finds none ends the
task with `Protocol`. Notifications go to the notification channel that `Client`'s `Stream`
reads.

`select!` may pick either branch whenever both are ready, so a run of the task is any sequence of
turns, each what one branch took, with the outcomes of the I/O the branch does. The task's state
is `response_tx` and the effects it had, in order; `ClientTask.run` runs turns until the loop
breaks.

The results hold for every sequence of turns, so for every interleaving of the runtime's messages
with the callers' requests, and for every behaviour of the peer:

* `messages_routed`: the `Ok` answers go to the callers in the order their requests were written,
  each with the next `Response` the connection yielded, with at most one request in flight; a
  `Response` with no request in flight ends the task with `Protocol`; the notifications are handed
  on in the order they came.
* `replies_answer_own_request`: against a peer that answers the requests in the order it gets
  them, every caller is answered with the answer to its own request.
* `requests_accounted`: while the task runs, each caller it took has been answered once or is
  the one in flight; no caller is ever answered twice.
-/

namespace Northstar

/-- `api::client::Error` -/
inductive ClientError
  | io (cause : String)
  | timeout
  | stopped
  | protocol
  | pendingRequest
  | api (e : Error)
  | invalidConsoleAddress (address : String)
deriving DecidableEq, Repr

/-- A caller of `Client::request` or `Client::install`, named by the oneshot its answer goes on. -/
abbrev Caller := Nat

/-- `ClientRequest`: a request, or an install of the package file at a path into a repository. -/
inductive ClientRequest
  | request (request : Request)
  | install (npk : String) (repository : RepositoryId)
deriving DecidableEq, Repr

/-- What the I/O of a request turn returns: `fs::File::open` and `metadata().len()` of the
package (an install only), `connection.send`, and `io::copy` of the package (an install only). -/
structure RequestIo where
  opened : Except String Unit
  size : Except String Nat
  sent : Except String Unit
  copied : Except String Unit
deriving DecidableEq, Repr

/-- The request a `ClientRequest` puts on the connection: the request itself, or
`Install(repository, size)` for the package's size. -/
def ClientRequest.Writes : ClientRequest → Request → Prop
  | .request r, written => written = r
  | .install _ repository, written => ∃ size, written = .install repository size

@[simp] theorem ClientRequest.writes_request {r written : Request} :
    (ClientRequest.request r).Writes written ↔ written = r := Iff.rfl

/-- What `select!` took in one turn of the loop. -/
inductive Turn
  /-- `connection.next()`: a message, an error, or the end of the stream; for a notification,
  whether `notification_tx.send` found the receiver. -/
  | message (message : Option (Except String Payload)) (received : Bool)
  /-- `request_rx.recv()`: a caller's request, or `None` once every `Client` is dropped. -/
  | request (request : Option (Caller × ClientRequest)) (io : RequestIo)
deriving DecidableEq, Repr

/-- What the task does outside its own state. -/
inductive ClientEffect
  /-- `connection.send(Message::new_request(request))` went through, for `caller`. -/
  | send (caller : Caller) (request : Request)
  /-- `io::copy` of the package file into the connection. -/
  | copy (npk : String)
  /-- `r_tx.send(result)` on the caller's oneshot. -/
  | reply (caller : Caller) (result : Except ClientError Response)
  /-- `notification_tx.send(Ok(n))` -/
  | notify (notification : Notification)
deriving DecidableEq, Repr

/-- The value sent on `caller`'s oneshot, if this effect is that send. -/
def ClientEffect.replyTo (caller : Caller) : ClientEffect → Option (Except ClientError Response)
  | .reply c r => if c = caller then some r else none
  | _ => none

/-- What an effect needs of the turns taken: a request written is one its caller's own turn
writes, and an error handed to a caller is `PendingRequest` or `Io`. -/
def ClientEffect.Allowed (turns : List Turn) : ClientEffect → Prop
  | .send caller written => ∃ request io, Turn.request (some (caller, request)) io ∈ turns ∧ request.Writes written
  | .reply _ (.error e) => e = .pendingRequest ∨ ∃ cause, e = .io cause
  | _ => True

theorem ClientEffect.Allowed.mono {e : ClientEffect} {turns turns' : List Turn} (h : e.Allowed turns)
    (hsub : turns ⊆ turns') : e.Allowed turns' := by
  match e, h with
  | .send _ _, ⟨request, io, hmem, hw⟩ => exact ⟨request, io, hsub hmem, hw⟩
  | .reply _ (.error _), h => exact h
  | .reply _ (.ok _), h => exact h
  | .copy _, h => exact h
  | .notify _, h => exact h

/-- How the task ended: the value its loop broke with, or a panic. -/
inductive TaskEnd
  | returned (result : Except ClientError Unit)
  | panicked (message : String)
deriving DecidableEq, Repr

structure ClientTask where
  /-- `response_tx`: the oneshot of the request in flight. -/
  responseTx : Option Caller
  effects : List ClientEffect
  ended : Option TaskEnd
deriving DecidableEq, Repr

namespace ClientTask

def init : ClientTask := ⟨none, [], none⟩

def emit (t : ClientTask) (e : ClientEffect) : ClientTask := { t with effects := t.effects ++ [e] }

def finish (t : ClientTask) (e : TaskEnd) : ClientTask := { t with ended := some e }

/-- The `connection.next()` branch. -/
def onMessage (t : ClientTask) : Option (Except String Payload) → Bool → ClientTask
  | some (.ok .connect), _ => t.finish (.returned (.error .protocol))
  | some (.ok (.request _)), _ => t.finish (.returned (.error .protocol))
  | some (.ok (.response r)), _ =>
    match t.responseTx with
    | some caller => ({ t with responseTx := none } : ClientTask).emit (.reply caller (.ok r))
    | none => t.finish (.returned (.error .protocol))
  | some (.ok (.notification n)), received =>
    if received then t.emit (.notify n) else t.finish (.returned (.ok ()))
  | some (.error e), _ => t.finish (.returned (.error (.io e)))
  | none, _ => t.finish (.returned (.ok ()))

/-- `connection.send(Message::new_request(request))`: on success the caller's sender becomes
`response_tx`; on failure the caller is answered with the error. -/
def sendRequest (t : ClientTask) (caller : Caller) (request : Request) : Except String Unit → ClientTask
  | .ok () => ({ t with responseTx := some caller } : ClientTask).emit (.send caller request)
  | .error e => t.emit (.reply caller (.error (.io e)))

/-- The `request_rx.recv()` branch. An install sends `Install(repository, size)` and then copies
the package into the connection whether or not the send went through; the `?` on the copy ends
the task. -/
def onRequest (t : ClientTask) : Option (Caller × ClientRequest) → RequestIo → ClientTask
  | none, _ => t.finish (.returned (.ok ()))
  | some (caller, request), io =>
    if t.responseTx.isSome then t.emit (.reply caller (.error .pendingRequest))
    else
      match request with
      | .request request => t.sendRequest caller request io.sent
      | .install npk repository =>
        match io.opened, io.size with
        | .error e, _ => t.finish (.panicked ("Failed to open: " ++ e))
        | .ok (), .error e => t.finish (.panicked ("called `Result::unwrap()` on an `Err` value: " ++ e))
        | .ok (), .ok size =>
          let t := (t.sendRequest caller (.install repository size) io.sent).emit (.copy npk)
          match io.copied with
          | .ok () => t
          | .error e => t.finish (.returned (.error (.io e)))

/-- One turn of the loop; `none` once the loop has broken. -/
def step (t : ClientTask) (turn : Turn) : Option ClientTask :=
  if t.ended.isSome then none
  else
    some <| match turn with
      | .message message received => t.onMessage message received
      | .request request io => t.onRequest request io

/-- The turns in order; `none` where one comes after the loop has broken. -/
def run : List Turn → ClientTask → Option ClientTask
  | [], t => some t
  | turn :: turns, t => (t.step turn).bind (run turns)

/-- What `Client::request` returns to a caller: the value sent on its oneshot, or `Stopped` once
the task has ended without sending one (`rx.await.map_err(|_| Error::Stopped)`); `none` while the
caller waits. -/
def answer (t : ClientTask) (caller : Caller) : Option (Except ClientError Response) :=
  match t.effects.findSome? (ClientEffect.replyTo caller) with
  | some r => some r
  | none => if t.ended.isSome then some (.error .stopped) else none

end ClientTask

/-! ### What a run shows -/

@[simp] def ClientEffect.sent? : ClientEffect → Option (Caller × Request)
  | .send caller request => some (caller, request)
  | _ => none

@[simp] def ClientEffect.answered? : ClientEffect → Option (Caller × Response)
  | .reply caller (.ok r) => some (caller, r)
  | _ => none

@[simp] def ClientEffect.replied? : ClientEffect → Option Caller
  | .reply caller _ => some caller
  | _ => none

@[simp] def ClientEffect.notified? : ClientEffect → Option Notification
  | .notify n => some n
  | _ => none

@[simp] def Turn.response? : Turn → Option Response
  | .message (some (.ok (.response r))) _ => some r
  | _ => none

@[simp] def Turn.notification? : Turn → Option Notification
  | .message (some (.ok (.notification n))) _ => some n
  | _ => none

@[simp] def Turn.caller? : Turn → Option Caller
  | .request (some (caller, _)) _ => some caller
  | _ => none

namespace ClientTask

/-- The requests written to the connection, with their callers, in order. -/
def sent (t : ClientTask) : List (Caller × Request) := t.effects.filterMap ClientEffect.sent?

/-- The responses handed to callers, in order. -/
def answered (t : ClientTask) : List (Caller × Response) := t.effects.filterMap ClientEffect.answered?

/-- The callers answered, with a response or an error, in order. -/
def replied (t : ClientTask) : List Caller := t.effects.filterMap ClientEffect.replied?

/-- The notifications handed on, in order. -/
def notified (t : ClientTask) : List Notification := t.effects.filterMap ClientEffect.notified?

variable {t : ClientTask} {e : ClientEffect}

@[simp] theorem filterMap_single {α β : Type} (f : α → Option β) (a : α) : [a].filterMap f = (f a).toList := by
  cases h : f a <;> simp [List.filterMap_cons, h]

@[simp] theorem sent_emit : (t.emit e).sent = t.sent ++ e.sent?.toList := by
  simp [sent, emit, List.filterMap_append, filterMap_single]

@[simp] theorem answered_emit : (t.emit e).answered = t.answered ++ e.answered?.toList := by
  simp [answered, emit, List.filterMap_append, filterMap_single]

@[simp] theorem replied_emit : (t.emit e).replied = t.replied ++ e.replied?.toList := by
  simp [replied, emit, List.filterMap_append, filterMap_single]

@[simp] theorem notified_emit : (t.emit e).notified = t.notified ++ e.notified?.toList := by
  simp [notified, emit, List.filterMap_append, filterMap_single]

@[simp] theorem responseTx_emit : (t.emit e).responseTx = t.responseTx := rfl
@[simp] theorem ended_emit : (t.emit e).ended = t.ended := rfl
@[simp] theorem effects_finish (x : TaskEnd) : (t.finish x).effects = t.effects := rfl
@[simp] theorem responseTx_finish (x : TaskEnd) : (t.finish x).responseTx = t.responseTx := rfl
@[simp] theorem ended_finish (x : TaskEnd) : (t.finish x).ended = some x := rfl

@[simp] theorem sent_finish (x : TaskEnd) : (t.finish x).sent = t.sent := rfl
@[simp] theorem answered_finish (x : TaskEnd) : (t.finish x).answered = t.answered := rfl
@[simp] theorem replied_finish (x : TaskEnd) : (t.finish x).replied = t.replied := rfl
@[simp] theorem notified_finish (x : TaskEnd) : (t.finish x).notified = t.notified := rfl

section ResponseTx

variable (x : Option Caller)

@[simp] theorem sent_responseTx : ({ t with responseTx := x } : ClientTask).sent = t.sent := rfl
@[simp] theorem answered_responseTx : ({ t with responseTx := x } : ClientTask).answered = t.answered := rfl
@[simp] theorem replied_responseTx : ({ t with responseTx := x } : ClientTask).replied = t.replied := rfl
@[simp] theorem notified_responseTx : ({ t with responseTx := x } : ClientTask).notified = t.notified := rfl

end ResponseTx

/-! ### What one turn does -/

/-- What one turn of a running task can do (`step_turned`): end the loop with no response taken,
hand a response to the request in flight or end the loop on one with none in flight, hand on a
notification, refuse a request while one is in flight, or write one, an install followed by the
copy of its package, whose failure ends the loop. -/
inductive Turned (t : ClientTask) : Turn → ClientTask → Prop
  | finish {turn : Turn} (x : TaskEnd) (hturn : turn.response? = none) : Turned t turn (t.finish x)
  | deliver {c : Caller} (r : Response) (received : Bool) (hc : t.responseTx = some c) :
    Turned t (.message (some (.ok (.response r))) received)
      (({ t with responseTx := none } : ClientTask).emit (.reply c (.ok r)))
  | stray (r : Response) (received : Bool) (hnone : t.responseTx = none) :
    Turned t (.message (some (.ok (.response r))) received) (t.finish (.returned (.error .protocol)))
  | notify (n : Notification) : Turned t (.message (some (.ok (.notification n))) true) (t.emit (.notify n))
  | refuse {c : Caller} (request : ClientRequest) (io : RequestIo) (hbusy : t.responseTx.isSome) :
    Turned t (.request (some (c, request)) io) (t.emit (.reply c (.error .pendingRequest)))
  | write {c : Caller} (r : Request) (io : RequestIo) (hnone : t.responseTx = none) :
    Turned t (.request (some (c, .request r)) io) (t.sendRequest c r io.sent)
  | copy {c : Caller} (npk : String) (repository : RepositoryId) (io : RequestIo) (size : Nat)
      (hnone : t.responseTx = none) :
    Turned t (.request (some (c, .install npk repository)) io)
      ((t.sendRequest c (.install repository size) io.sent).emit (.copy npk))
  | copyFailed {c : Caller} (npk : String) (repository : RepositoryId) (io : RequestIo) (size : Nat)
      (hnone : t.responseTx = none) (x : TaskEnd) :
    Turned t (.request (some (c, .install npk repository)) io)
      (((t.sendRequest c (.install repository size) io.sent).emit (.copy npk)).finish x)

variable {turns : List Turn} {turn : Turn} {t' : ClientTask} {c : Caller}

theorem running_of_step (hstep : t.step turn = some t') : t.ended = none := by
  by_contra hended
  simp [step, Option.ne_none_iff_isSome.1 hended] at hstep

theorem step_turned (hstep : t.step turn = some t') : Turned t turn t' := by
  simp only [step, running_of_step hstep, Option.isSome_none, Bool.false_eq_true, if_false,
    Option.some.injEq] at hstep
  subst hstep
  cases turn with
  | message m received =>
    rcases m with _ | e | _ | _ | r | n
    · exact .finish _ rfl
    · exact .finish _ rfl
    · exact .finish _ rfl
    · exact .finish _ rfl
    · cases hc : t.responseTx with
      | none => simpa only [onMessage, hc] using Turned.stray r received hc
      | some c => simpa only [onMessage, hc] using Turned.deliver r received hc
    · cases received
      · exact .finish _ rfl
      · exact .notify n
  | request r io =>
    rcases r with _ | ⟨c, request⟩
    · exact .finish _ rfl
    · simp only [onRequest]
      split
      · exact .refuse request io ‹_›
      · rename_i hbusy
        have hnone : t.responseTx = none := Option.not_isSome_iff_eq_none.1 hbusy
        cases request with
        | request r => exact .write r io hnone
        | install npk repository =>
          dsimp only
          split
          · exact .finish _ rfl
          · exact .finish _ rfl
          · split
            · exact .copy npk repository io _ hnone
            · exact .copyFailed npk repository io _ hnone _

/-- What every turn keeps holds after every run. -/
theorem run_invariant (P : List Turn → ClientTask → Prop)
    (hstep : ∀ {turns turn t t'}, P turns t → step t turn = some t' → P (turns ++ [turn]) t')
    {pre : List Turn} (h : P pre t) (hrun : run turns t = some t') : P (pre ++ turns) t' := by
  induction turns generalizing pre t with
  | nil =>
    cases Option.some.inj hrun
    simpa using h
  | cons turn turns ih =>
    simp only [run, Option.bind_eq_some] at hrun
    obtain ⟨t₁, hstep₁, hrest⟩ := hrun
    simpa using ih (hstep h hstep₁) hrest

/-! ### The invariant of a running task -/

/-- After the turns `turns`, with the loop still running: every response taken has been handed
on, the requests written are those answered and the one in flight, every notification taken has
been handed on, and every caller taken has been answered or is the one in flight. -/
structure Routed (turns : List Turn) (t : ClientTask) : Prop where
  running : t.ended = none
  responses : t.answered.map Prod.snd = turns.filterMap Turn.response?
  inFlight : t.sent.map Prod.fst = t.answered.map Prod.fst ++ t.responseTx.toList
  notifications : t.notified = turns.filterMap Turn.notification?
  callers : (t.replied ++ t.responseTx.toList).Perm (turns.filterMap Turn.caller?)

/-- What holds after any turns, the loop running or not. -/
structure Settled (turns : List Turn) (t : ClientTask) : Prop where
  answered : t.answered = (t.sent.map Prod.fst).zip (turns.filterMap Turn.response?)
  inFlight : t.sent.length ≤ t.answered.length + 1
  stray : (turns.filterMap Turn.response?).length ≤ t.answered.length ∨
    t.ended = some (.returned (.error .protocol))
  notifications : t.notified <+: turns.filterMap Turn.notification?
  callers : List.Subperm (t.replied ++ t.responseTx.toList) (turns.filterMap Turn.caller?)

theorem zip_map_fst_snd {α β : Type} (l : List (α × β)) (x : List α) (y : List β) :
    (l.map Prod.fst ++ x).zip (l.map Prod.snd ++ y) = l ++ x.zip y := by
  rw [List.zip_append (by simp), ← List.unzip_fst, ← List.unzip_snd, List.zip_unzip]

theorem routed_init : Routed [] init := ⟨rfl, rfl, rfl, rfl, List.Perm.refl _⟩

theorem Routed.settled (h : Routed turns t) : Settled turns t := by
  refine ⟨?_, ?_, .inl ?_, h.notifications ▸ List.prefix_refl _, h.callers.subperm⟩
  · rw [← h.responses, h.inFlight, ← List.append_nil (t.answered.map Prod.snd), zip_map_fst_snd, List.zip_nil_right,
      List.append_nil]
  · have hlen := congrArg List.length h.inFlight
    have hone : t.responseTx.toList.length ≤ 1 := by cases t.responseTx <;> simp
    simp only [List.length_map, List.length_append] at hlen
    omega
  · rw [← h.responses, List.length_map]

/-- Ending the loop changes none of what the task did. -/
theorem Routed.settled_finish (h : Routed turns t) (x : TaskEnd) : Settled turns (t.finish x) := by
  obtain ⟨hanswered, hflight, hstray, hnotified, hcallers⟩ := h.settled
  exact ⟨hanswered, hflight, hstray.imp_right fun h' => absurd h' (by simp [h.running]), hnotified, hcallers⟩

/-- A turn that brings no response keeps what holds after any turns. -/
theorem Settled.append (h : Settled turns t) (hturn : turn.response? = none) : Settled (turns ++ [turn]) t := by
  have hresponses : (turns ++ [turn]).filterMap Turn.response? = turns.filterMap Turn.response? := by
    rw [List.filterMap_append, filterMap_single, hturn, Option.toList_none, List.append_nil]
  refine ⟨hresponses ▸ h.answered, h.inFlight, hresponses ▸ h.stray, ?_, ?_⟩
  · rw [List.filterMap_append]
    exact h.notifications.trans (List.prefix_append _ _)
  · rw [List.filterMap_append]
    exact h.callers.trans (List.sublist_append_left _ _).subperm

/-! ### One turn -/

/-- A response taken while a request is in flight goes to its caller. -/
theorem Routed.deliver (h : Routed turns t) (hc : t.responseTx = some c) (r : Response) (received : Bool) :
    Routed (turns ++ [.message (some (.ok (.response r))) received])
      (({ t with responseTx := none } : ClientTask).emit (.reply c (.ok r))) := by
  have hflight := h.inFlight
  have hcallers := h.callers
  rw [hc] at hflight hcallers
  refine ⟨h.running, ?_, ?_, ?_, ?_⟩
  · simp [h.responses]
  · simpa using hflight
  · simp [h.notifications]
  · simpa using hcallers

/-- A response taken with no request in flight ends the task with `Protocol`. -/
theorem Routed.stray (h : Routed turns t) (hnone : t.responseTx = none) (r : Response) (received : Bool) :
    Settled (turns ++ [.message (some (.ok (.response r))) received]) (t.finish (.returned (.error .protocol))) := by
  obtain ⟨-, hflight, -, hnotified, hcallers⟩ := h.settled
  have hsent : t.sent.map Prod.fst = t.answered.map Prod.fst := by simpa [hnone] using h.inFlight
  refine ⟨?_, by simpa using hflight, .inr rfl, ?_, ?_⟩
  · simp only [answered_finish, sent_finish, List.filterMap_append, filterMap_single, Turn.response?,
      Option.toList_some]
    rw [hsent, ← h.responses, ← List.append_nil (t.answered.map Prod.fst), zip_map_fst_snd, List.zip_nil_left,
      List.append_nil]
  · simpa using hnotified
  · simpa using hcallers

theorem Routed.notify (h : Routed turns t) (n : Notification) :
    Routed (turns ++ [.message (some (.ok (.notification n))) true]) (t.emit (.notify n)) := by
  refine ⟨h.running, ?_, ?_, ?_, ?_⟩
  · simp [h.responses]
  · simpa using h.inFlight
  · simp [h.notifications]
  · simpa using h.callers

/-- A request answered at once, with an error, counts as answered. -/
theorem Routed.reply (h : Routed turns t) (request : ClientRequest) (io : RequestIo) (e : ClientError) :
    Routed (turns ++ [.request (some (c, request)) io]) (t.emit (.reply c (.error e))) := by
  refine ⟨h.running, ?_, ?_, ?_, ?_⟩
  · simp [h.responses]
  · simpa using h.inFlight
  · simp [h.notifications]
  · simpa using List.perm_middle.trans ((h.callers.cons c).trans (List.perm_append_singleton _ _).symm)

/-- A request written with none in flight becomes the one in flight. -/
theorem Routed.written (h : Routed turns t) (hnone : t.responseTx = none) (request : ClientRequest)
    (io : RequestIo) (r : Request) (sent : Except String Unit) :
    Routed (turns ++ [.request (some (c, request)) io]) (t.sendRequest c r sent) := by
  rcases sent with e | u
  · exact h.reply request io (.io e)
  cases u
  have hflight := h.inFlight
  have hcallers := h.callers
  rw [hnone] at hflight hcallers
  refine ⟨h.running, ?_, ?_, ?_, ?_⟩
  · simp [sendRequest, h.responses]
  · simpa [sendRequest] using hflight
  · simp [sendRequest, h.notifications]
  · simpa [sendRequest] using hcallers.append_right [c]

theorem Routed.copy (h : Routed turns t) (npk : String) : Routed turns (t.emit (.copy npk)) := by
  refine ⟨h.running, ?_, ?_, ?_, ?_⟩
  · simpa using h.responses
  · simpa using h.inFlight
  · simpa using h.notifications
  · simpa using h.callers

/-- One turn of a running task: the loop goes on with the invariant, or breaks with what holds
after any turns. -/
theorem Routed.step (h : Routed turns t) (hstep : t.step turn = some t') :
    Routed (turns ++ [turn]) t' ∨ Settled (turns ++ [turn]) t' ∧ t'.ended.isSome := by
  cases step_turned hstep with
  | finish x hturn => exact .inr ⟨(h.settled_finish x).append hturn, rfl⟩
  | deliver r received hc => exact .inl (h.deliver hc r received)
  | stray r received hnone => exact .inr ⟨h.stray hnone r received, rfl⟩
  | notify n => exact .inl (h.notify n)
  | refuse request io => exact .inl (h.reply request io .pendingRequest)
  | write r io hnone => exact .inl (h.written hnone _ io r io.sent)
  | copy npk repository io size hnone => exact .inl ((h.written hnone _ io _ io.sent).copy npk)
  | copyFailed npk repository io size hnone x =>
    exact .inr ⟨((h.written hnone _ io _ io.sent).copy npk).settled_finish x, rfl⟩

/-- Every run of the task: what holds after any turns, and the invariant while the loop still
runs. -/
theorem settled_of_run (hrun : run turns init = some t') :
    Settled turns t' ∧ (t'.ended = none → Routed turns t') := by
  refine run_invariant (fun turns t => Settled turns t ∧ (t.ended = none → Routed turns t))
    (fun h hstep => ?_) ⟨routed_init.settled, fun _ => routed_init⟩ hrun
  rcases (h.2 (running_of_step hstep)).step hstep with h' | ⟨h', hended⟩
  · exact ⟨h'.settled, fun _ => h'⟩
  · exact ⟨h', fun hnone => by simp [hnone] at hended⟩

/-! ### What every effect is -/

/-- Every effect so far is allowed by the turns taken. -/
def Sound (turns : List Turn) (t : ClientTask) : Prop := ∀ e ∈ t.effects, e.Allowed turns

theorem Sound.mono (h : Sound turns t) (more : List Turn) : Sound (turns ++ more) t :=
  fun e he => (h e he).mono (List.subset_append_left _ _)

theorem Sound.responseTx (h : Sound turns t) (x : Option Caller) : Sound turns { t with responseTx := x } := h

theorem Sound.emit (h : Sound turns t) (he : e.Allowed turns) : Sound turns (t.emit e) := by
  intro x hx
  rcases List.mem_append.1 hx with hx | hx
  · exact h x hx
  · exact List.mem_singleton.1 hx ▸ he

theorem Sound.sendRequest (h : Sound turns t) (r : Request) (sent : Except String Unit)
    (hw : ∃ request io, Turn.request (some (c, request)) io ∈ turns ∧ request.Writes r) :
    Sound turns (t.sendRequest c r sent) := by
  rcases sent with e | u
  · exact h.emit (.inr ⟨e, rfl⟩)
  · exact (h.responseTx (some c)).emit hw

/-- One turn appends only effects it allows. -/
theorem Sound.step (h : Sound turns t) (hstep : t.step turn = some t') : Sound (turns ++ [turn]) t' := by
  have h' := h.mono [turn]
  have hturn : turn ∈ turns ++ [turn] := List.mem_append_right _ (List.mem_singleton_self _)
  cases step_turned hstep with
  | finish => exact h'
  | deliver r received hc => exact (h'.responseTx none).emit trivial
  | stray => exact h'
  | notify n => exact h'.emit trivial
  | refuse => exact h'.emit (.inl rfl)
  | write r io => exact h'.sendRequest r io.sent ⟨_, io, hturn, rfl⟩
  | copy npk repository io size => exact (h'.sendRequest _ io.sent ⟨_, io, hturn, size, rfl⟩).emit trivial
  | copyFailed npk repository io size => exact (h'.sendRequest _ io.sent ⟨_, io, hturn, size, rfl⟩).emit trivial

theorem sound_of_run (hrun : run turns init = some t') : Sound turns t' := by
  simpa using run_invariant Sound (fun h hstep => h.step hstep)
    (show Sound [] init from fun _ h => (List.not_mem_nil _ h).elim) hrun

theorem answer_isSome (h : c ∈ t.replied ∨ t.ended.isSome) : (t.answer c).isSome := by
  unfold answer
  split
  · rfl
  · rename_i hnone
    rcases h with h | h
    · obtain ⟨e, he, hc⟩ := List.mem_filterMap.1 h
      have hreply := List.findSome?_eq_none_iff.1 hnone e he
      cases e <;> simp_all [ClientEffect.replied?, ClientEffect.replyTo]
    · simp [h]

theorem mem_effects_of_sent {r : Request} (h : (c, r) ∈ t.sent) : ClientEffect.send c r ∈ t.effects := by
  obtain ⟨e, he, hs⟩ := List.mem_filterMap.1 h
  cases e <;> simp_all [ClientEffect.sent?]

/-- What `Client::request` returns to a caller is a value the task sent on its oneshot, or
`Stopped`. -/
theorem answer_eq_some {a : Except ClientError Response} (h : t.answer c = some a) :
    ClientEffect.reply c a ∈ t.effects ∨ a = .error .stopped := by
  unfold answer at h
  split at h
  · rename_i r hfind
    obtain ⟨e, he, hr⟩ := List.exists_of_findSome?_eq_some hfind
    cases Option.some.inj h
    cases e <;> simp only [ClientEffect.replyTo, reduceCtorEq] at hr
    split at hr
    · cases hr
      exact .inl (by simpa [*] using he)
    · cases hr
  · split at h
    · exact .inr (Option.some.inj h).symm
    · cases h

/-- With every effect allowed, a caller is never handed `Protocol`: an error it gets is
`Stopped`, `PendingRequest` or `Io`. -/
theorem Sound.answer_error {x : ClientError} (h : Sound turns t) (hanswer : t.answer c = some (.error x)) :
    x = .stopped ∨ x = .pendingRequest ∨ ∃ cause, x = .io cause := by
  rcases answer_eq_some hanswer with he | he
  · exact .inr (h _ he)
  · exact .inl (Except.error.inj he)

/-- Against a peer whose every response answers, as `serves` says, the request written at the
same place, an `Ok` a caller gets answers a request written for it. -/
theorem Settled.answer_serves {serves : Request → Response → Prop} {r : Response} (h : Settled turns t)
    (hpeer : ∀ x ∈ (t.sent.map Prod.snd).zip (turns.filterMap Turn.response?), serves x.1 x.2)
    (hanswer : t.answer c = some (.ok r)) : ∃ written, (c, written) ∈ t.sent ∧ serves written r := by
  have hmem : (c, r) ∈ t.answered := by
    rcases answer_eq_some hanswer with he | he
    · exact List.mem_filterMap.2 ⟨_, he, rfl⟩
    · cases he
  rw [h.answered, List.zip_map_left, List.mem_map] at hmem
  obtain ⟨⟨p, r'⟩, hp, hpr⟩ := hmem
  simp only [Prod.map, id, Prod.mk.injEq] at hpr
  obtain ⟨rfl, rfl⟩ := hpr
  refine ⟨p.2, (List.of_mem_zip hp).1, hpeer (p.2, _) ?_⟩
  rw [List.zip_map_left]
  exact List.mem_map.2 ⟨_, hp, rfl⟩

end ClientTask

/-! ### Every run of the task -/

open ClientTask

variable {turns : List Turn} {t : ClientTask}

/-- A run: caller `1`'s `Containers` is written, caller `2`'s `Repositories` is refused while it
is in flight, a notification is handed on, and the response goes to caller `1`. -/
def overlappingTurns : List Turn :=
  [.request (some (1, .request .containers)) ⟨.ok (), .ok 0, .ok (), .ok ()⟩,
   .request (some (2, .request .repositories)) ⟨.ok (), .ok 0, .ok (), .ok ()⟩,
   .message (some (.ok (.notification (.started default)))) true,
   .message (some (.ok (.response (.containers [])))) true]

def overlapped : ClientTask :=
  ⟨none, [.send 1 .containers, .reply 2 (.error .pendingRequest), .notify (.started default),
    .reply 1 (.ok (.containers []))], none⟩

theorem messages_routed (hrun : run turns init = some t) :
    t.answered = (t.sent.map Prod.fst).zip (turns.filterMap Turn.response?) ∧
      t.sent.length ≤ t.answered.length + 1 ∧
      ((turns.filterMap Turn.response?).length ≤ t.answered.length ∨
        t.ended = some (.returned (.error .protocol))) ∧
      t.notified <+: turns.filterMap Turn.notification? ∧
      (t.ended = none → t.notified = turns.filterMap Turn.notification?) := by
  obtain ⟨h, hrunning⟩ := settled_of_run hrun
  exact ⟨h.answered, h.inFlight, h.stray, h.notifications, fun hnone => (hrunning hnone).notifications⟩

theorem messages_routed_overlapping :
    run overlappingTurns init = some overlapped ∧
      overlapped.answered = (overlapped.sent.map Prod.fst).zip (overlappingTurns.filterMap Turn.response?) ∧
      overlapped.sent.length ≤ overlapped.answered.length + 1 ∧
      ((overlappingTurns.filterMap Turn.response?).length ≤ overlapped.answered.length ∨
        overlapped.ended = some (.returned (.error .protocol))) ∧
      overlapped.notified <+: overlappingTurns.filterMap Turn.notification? ∧
      (overlapped.ended = none → overlapped.notified = overlappingTurns.filterMap Turn.notification?) :=
  ⟨rfl, messages_routed rfl⟩

/-- Against a peer whose every response answers, as `serves` says, the request written at the
same place, what `Client::request` returns to a caller as `Ok` answers a request that caller's own
turn wrote. -/
theorem replies_answer_own_request (serves : Request → Response → Prop) (hrun : run turns init = some t)
    (hpeer : ∀ x ∈ (t.sent.map Prod.snd).zip (turns.filterMap Turn.response?), serves x.1 x.2)
    (hanswer : t.answer c = some (.ok r)) :
    ∃ request io written, Turn.request (some (c, request)) io ∈ turns ∧ request.Writes written ∧
      serves written r := by
  obtain ⟨written, hsent, hserves⟩ := (settled_of_run hrun).1.answer_serves hpeer hanswer
  obtain ⟨request, io, hturn, hwrites⟩ := sound_of_run hrun _ (mem_effects_of_sent hsent)
  exact ⟨request, io, written, hturn, hwrites, hserves⟩

theorem replies_answer_own_request_overlapping :
    run overlappingTurns init = some overlapped ∧
      (∀ x ∈ (overlapped.sent.map Prod.snd).zip (overlappingTurns.filterMap Turn.response?),
        x.1 = .containers ∧ x.2 = .containers []) ∧
      overlapped.answer 1 = some (.ok (.containers [])) ∧
      ∃ request io written, Turn.request (some (1, request)) io ∈ overlappingTurns ∧ request.Writes written ∧
        written = .containers ∧ Response.containers [] = .containers [] :=
  ⟨rfl, by decide, rfl, replies_answer_own_request (fun request response => request = .containers ∧ response = .containers [])
    (show run overlappingTurns init = some overlapped from rfl) (by decide) rfl⟩

theorem nodup_of_subperm_append {l₁ l₂ l : List Caller} (h : List.Subperm (l₁ ++ l₂) l) (hl : l.Nodup) :
    l₁.Nodup := by
  obtain ⟨l', hperm, hsub⟩ := h
  exact (hperm.nodup_iff.1 (hl.sublist hsub)).sublist (List.sublist_append_left _ _)

/-- Every caller whose request the task took has been answered, or is the one in flight while the
task runs; no caller is answered more often than it asked. -/
theorem requests_accounted (hrun : run turns init = some t) :
    List.Subperm (t.replied ++ t.responseTx.toList) (turns.filterMap Turn.caller?) ∧
      (t.ended = none → (t.replied ++ t.responseTx.toList).Perm (turns.filterMap Turn.caller?)) ∧
      ((turns.filterMap Turn.caller?).Nodup → t.replied.Nodup) ∧
      ∀ c ∈ turns.filterMap Turn.caller?, (t.answer c).isSome ∨ t.ended = none ∧ t.responseTx = some c := by
  obtain ⟨h, hrunning⟩ := settled_of_run hrun
  refine ⟨h.callers, fun hnone => (hrunning hnone).callers, nodup_of_subperm_append h.callers, fun c hc => ?_⟩
  cases hended : t.ended with
  | some x => exact .inl (answer_isSome (.inr (by simp [hended])))
  | none =>
    rcases List.mem_append.1 ((hrunning hended).callers.mem_iff.2 hc) with hr | hr
    · exact .inl (answer_isSome (.inl hr))
    · exact .inr ⟨rfl, by simpa using hr⟩

theorem requests_accounted_overlapping :
    run overlappingTurns init = some overlapped ∧
      List.Subperm (overlapped.replied ++ overlapped.responseTx.toList) (overlappingTurns.filterMap Turn.caller?) ∧
      (overlapped.ended = none →
        (overlapped.replied ++ overlapped.responseTx.toList).Perm (overlappingTurns.filterMap Turn.caller?)) ∧
      ((overlappingTurns.filterMap Turn.caller?).Nodup → overlapped.replied.Nodup) ∧
      ∀ c ∈ overlappingTurns.filterMap Turn.caller?,
        (overlapped.answer c).isSome ∨ overlapped.ended = none ∧ overlapped.responseTx = some c :=
  ⟨rfl, requests_accounted rfl⟩

end Northstar

import Mathlib.Data.List.AList

/-!
# The runtime's data model

What `state.rs` records about containers and repositories, the errors it returns, the console
requests and responses it handles, and the events that reach it on its inbound queue.

Only the fields that a modelled function reads or writes are kept. A manifest is its name,
version, `init`, mount table and whether it configures cgroups; a package is its manifest; a
process context is the child's pid and whether a cgroup was created for it. The rest (argv, env,
seccomp rules, start instants, debug handles, device paths) is read only by code outside the
model, and `MODEL_MAP.json` lists it.
-/

namespace Northstar

/-- A semantic version `major.minor.patch`. -/
structure Version where
  major : Nat
  minor : Nat
  patch : Nat
deriving DecidableEq, Repr, Inhabited

/-- A container identity `(name, version)`. -/
structure Container where
  name : String
  version : Version
deriving DecidableEq, Repr, Inhabited

abbrev RepositoryId := String

abbrev Pid := Nat

/-- An entry of a manifest's mount table. -/
inductive Mount
  | bind (host : String)
  | persist
  | resource (name : String) (version : Version) (dir : String)
  | tmpfs (size : Nat)
deriving DecidableEq, Repr, Inhabited

structure Manifest where
  name : String
  version : Version
  init : Option String
  /-- The mount table, keyed by the path inside the container, in iteration order. -/
  mounts : List (String × Mount)
  /-- Whether the manifest configures cgroups. -/
  cgroups : Bool
deriving DecidableEq, Repr, Inhabited

/-- The containers named by the manifest's `Resource` mounts, the `filter_map` of `start` and of
`umount`'s busy check. -/
def Manifest.resources (manifest : Manifest) : List Container :=
  manifest.mounts.filterMap fun
    | (_, .resource name version _) => some ⟨name, version⟩
    | _ => none

structure Npk where
  manifest : Manifest
deriving DecidableEq, Repr, Inhabited

/-- The identity a package carries in its manifest. -/
def Npk.container (npk : Npk) : Container := ⟨npk.manifest.name, npk.manifest.version⟩

/-- The directory `run_dir/<name>:<version>`: one per identity. -/
structure Root where
  container : Container
deriving DecidableEq, Repr, Inhabited

inductive BlockDevice
  | loopback
  | verity
deriving DecidableEq, Repr, Inhabited

structure ProcessContext where
  pid : Pid
  /-- Whether `start` created a cgroup for the process. -/
  cgroups : Bool
deriving DecidableEq, Repr, Inhabited

structure MountedContainer where
  container : Container
  manifest : Manifest
  root : Root
  device : BlockDevice
  process : Option ProcessContext
deriving DecidableEq, Repr, Inhabited

/-- The runtime's `Error`, with the payloads of lower layers reduced to their messages. -/
inductive Error
  | configuration (cause : String)
  | invalidContainer (container : Container)
  | umountBusy (container : Container)
  | startContainerStarted (container : Container)
  | startContainerResource (container : Container)
  | startContainerMissingResource (container resource : Container)
  | startContainerFailed (container : Container) (reason : String)
  | stopContainerNotStarted (container : Container)
  | invalidRepository (repository : RepositoryId)
  | installDuplicate (container : Container)
  | npk (cause : String)
  | console (cause : String)
  | cgroups (cause : String)
  /-- `MountControl::mount` failed. -/
  | mount
  | key (cause : String)
  | io (cause : String)
  | os (cause : String)
deriving DecidableEq, Repr, Inhabited

/-- How an engine operation ends when it does not return `Ok`: with an `Error`, or with a panic
of the engine task (a failing `expect`, `unwrap` or `unreachable!`), carrying its message. -/
inductive Fault
  | error (e : Error)
  | panic (message : String)
deriving DecidableEq, Repr, Inhabited

inductive ExitStatus
  | exit (code : Int)
  | signaled (signal : Nat)
deriving DecidableEq, Repr, Inhabited

/-! ### The console protocol -/

inductive Request
  | containers
  | install (repository : RepositoryId) (size : Nat)
  | mount (containers : List Container)
  | repositories
  | shutdown
  | start (container : Container)
  | stop (container : Container) (timeout : Nat)
  | umount (container : Container)
  | uninstall (container : Container)
deriving DecidableEq, Repr, Inhabited

/-- The part of `api::model::ContainerData` that `list_containers` fills from the engine. -/
structure ContainerData where
  container : Container
  repository : RepositoryId
  manifest : Manifest
  pid : Option Pid
  mounted : Bool
deriving DecidableEq, Repr, Inhabited

/-- The per-identity result a bulk mount response carries. -/
inductive MountResult
  | ok
  | err (e : Error)
deriving DecidableEq, Repr

inductive Response
  | containers (containers : List ContainerData)
  | mount (results : List (Container × MountResult))
  | repositories (repositories : List RepositoryId)
  | ok
  | err (e : Error)
deriving DecidableEq, Repr

inductive Notification
  | started (container : Container)
  | stopped (container : Container)
  | exit (container : Container) (status : ExitStatus)
  | outOfMemory (container : Container)
deriving DecidableEq, Repr, Inhabited

inductive Payload
  | connect
  | request (request : Request)
  | response (response : Response)
  | notification (notification : Notification)
deriving DecidableEq, Repr

instance instDecidableEqExcept {ε α : Type} [DecidableEq ε] [DecidableEq α] : DecidableEq (Except ε α)
  | .error a, .error b => decidable_of_iff (a = b) (by simp)
  | .ok a, .ok b => decidable_of_iff (a = b) (by simp)
  | .error _, .ok _ => isFalse (by simp)
  | .ok _, .error _ => isFalse (by simp)

/-- A request the console forwards to the engine. An install carries the package its byte stream
parses to, or the error reading and validating it gave. -/
inductive ConsoleRequest
  | message (payload : Payload)
  | install (repository : RepositoryId) (npk : Except Error Npk)
deriving DecidableEq, Repr

/-- An event on the engine's inbound queue. -/
inductive Event
  | console (request : ConsoleRequest)
  | exit (container : Container) (status : ExitStatus)
  | oom (container : Container)
  | notification (notification : Notification)
  | shutdown
deriving DecidableEq, Repr

/-- What an engine operation does outside the engine's own records, in order. -/
inductive Effect
  /-- `events_tx.send(e).await` into the engine's own inbound queue. -/
  | send (e : Event)
  /-- `Island::create` cloned a child for the container and spawned its wait task. -/
  | spawn (pid : Pid) (container : Container)
  /-- `IslandProcess::stop`: signal the child's group and await its wait task's exit status. -/
  | terminate (pid : Pid) (timeout : Nat)
deriving DecidableEq, Repr

/-- The values on the checkpoint pipes of `IslandProcess::start`. -/
inductive Start
  | start
  | started
  | died
deriving DecidableEq, Repr

/-- The variant's name, as `{:?}` prints it. -/
def Start.name : Start → String
  | .start => "Start"
  | .started => "Started"
  | .died => "Died"

/-- The outcomes of the calls an operation makes outside the model: `MountControl::mount` (the
`i`-th mount the operation issues succeeds when `mount i`), `Island::create`, `Debug::new`, the
parent's write of `Start` and its read of the child's answer on the checkpoint pipes in
`IslandProcess::start`, and `Repository::remove`. -/
structure Env where
  mount : Nat → Bool
  create : Except Error Pid
  debug : Except Error Unit
  written : Except String Unit
  received : Except String Start
  remove : RepositoryId → Except Error Unit

end Northstar

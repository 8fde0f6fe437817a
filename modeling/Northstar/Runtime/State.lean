import Northstar.Runtime.Island
import Northstar.Runtime.Repository

/-!
# The engine

`State` of `state.rs` and its operations, one definition per method, each written as the method
runs. An operation takes the state and ends in `EStateM.Result`: `ok` with its value, or `error`
with a `Fault`, and in both cases with the state it leaves, since a Rust method on `&mut self`
keeps the mutations it made before a `?` returned.

The calls the engine makes outside these sources are the environment's: whether each
`MountControl::mount` succeeds, what `Island::create`, `Debug::new` and `Repository::remove`
return, and what the checkpoint pipes of `IslandProcess::start` carry. They come in an `Env`.
Calls the source unwraps with `expect` (cgroup creation, `MountControl::umount`, process
teardown) are taken to succeed. The effects an operation has outside the engine's records
(sending into the engine's own queue, cloning a child, stopping one) are appended to `effects` in
the order the method has them.
-/

namespace Northstar

/-- The engine: the repositories in `HashMap` iteration order, the container map, the roots
`MountControl` holds mounted (a multiset: a root mounted twice occurs twice), and the effects so
far. -/
structure State where
  repositories : AList fun _ : RepositoryId => Repository
  containers : AList fun _ : Container => MountedContainer
  mountControl : List Root
  effects : List Effect

abbrev Engine := EStateM Fault State

/-- `for x in xs { f(x)?; }` -/
def forEach {α : Type} (f : α → Engine Unit) : List α → Engine Unit
  | [] => fun s => .ok () s
  | x :: xs => fun s =>
    match f x s with
    | .ok () s => forEach f xs s
    | .error e s => .error e s

namespace State

def emit (s : State) (effect : Effect) : State := { s with effects := s.effects ++ [effect] }

/-- The process context the container map records for the container. -/
def process (s : State) (container : Container) : Option ProcessContext :=
  (s.containers.lookup container).bind (·.process)

/-- `get_mut(container)` followed by an assignment to the entry's `process`. -/
def setProcess (s : State) (container : Container) (process : Option ProcessContext) : State :=
  match s.containers.lookup container with
  | none => s
  | some mc => { s with containers := s.containers.replace container { mc with process } }

/-- `State::npk`: the package of the first repository that holds the identity, with that
repository's key. -/
def npk (s : State) (container : Container) : Option (Npk × Option String) :=
  s.repositories.entries.findSome? fun r => (r.2.get container).map (·, r.2.key)

/-! ### Mounting -/

/-- A spawned mount task: the entry it yields once `MountControl::mount` has succeeded. -/
structure MountTask where
  container : Container
  manifest : Manifest
  root : Root
  device : BlockDevice

def MountTask.mounted (task : MountTask) : MountedContainer :=
  ⟨task.container, task.manifest, task.root, task.device, none⟩

/-- `State::mount`: find the package and spawn the task that mounts it at
`run_dir/<name>:<version>`, verity-backed when its repository has a key. -/
def mount (s : State) (container : Container) : Except Error MountTask :=
  match s.npk container with
  | none => .error (.invalidContainer container)
  | some (npk, key) =>
    .ok ⟨container, npk.manifest, ⟨container⟩, if key.isSome then .verity else .loopback⟩

/-- The loop `for c in containers { mounts.push(self.mount(c).await?) }`: the tasks spawned
before the first identity `mount` rejects, and the rejection. -/
def spawnMounts (s : State) : List Container → List MountTask × Option Error
  | [] => ([], none)
  | container :: containers =>
    match s.mount container with
    | .error e => ([], some e)
    | .ok task => ((task :: (s.spawnMounts containers).1), (s.spawnMounts containers).2)

/-- What the spawned tasks yield: the `i`-th `MountControl::mount` succeeds when `ok i`. -/
def mountResults (ok : Nat → Bool) : List MountTask → List (Except Error MountedContainer)
  | [] => []
  | task :: tasks =>
    (if ok 0 then .ok task.mounted else .error .mount) :: mountResults (fun i => ok (i + 1)) tasks

/-- The roots the successful tasks mounted, whether or not anybody collects their results. -/
def completeMounts (s : State) (results : List (Except Error MountedContainer)) : State :=
  { s with mountControl := results.filterMap (fun r => r.toOption.map (·.root)) ++ s.mountControl }

/-- Insert every successfully mounted container into the container map, in order. -/
def insertMounted (s : State) : List (Except Error MountedContainer) → State
  | [] => s
  | .ok mc :: results => { s with containers := s.containers.insert mc.container mc }.insertMounted results
  | .error _ :: results => s.insertMounted results

/-- `failed.pop()`: the error of the last failed mount. -/
def lastError : List (Except Error MountedContainer) → Option Error
  | [] => none
  | .ok _ :: results => lastError results
  | .error e :: results => lastError results <|> some e

/-- `State::umount`'s busy scan: some entry with a process context names the container in a
`Resource` mount of its manifest. -/
def usedAsResource (s : State) (container : Container) : Bool :=
  s.containers.entries.any fun e => e.2.process.isSome && e.2.manifest.resources.contains container

end State

open State

/-- `State::umount`. -/
def umount (container : Container) : Engine Unit := fun s =>
  match s.containers.lookup container with
  | none => .error (.error (.umountBusy container)) s
  | some mc =>
    if mc.process.isSome then .error (.error (.umountBusy container)) s
    else if mc.manifest.init.isNone && s.usedAsResource container then
      .error (.error (.umountBusy container)) s
    else
      .ok () { s with
        mountControl := s.mountControl.erase mc.root
        containers := s.containers.erase container }

/-! ### Starting and stopping -/

/-- `State::start`'s checks on the container itself: a mapped container must be an application
that is not running; an unmapped one needs mounting. -/
def startChecks (s : State) (container : Container) : Except Error (List Container) :=
  match s.containers.lookup container with
  | some mc =>
    if mc.manifest.init.isNone then .error (.startContainerResource container)
    else if mc.process.isSome then .error (.startContainerStarted container)
    else .ok []
  | none => .ok [container]

/-- The resources of the package that are not mapped yet, in mount-table order. -/
def missingResources (s : State) (npk : Npk) : List Container :=
  npk.manifest.resources.filter (· ∉ s.containers)

/-- `State::start` after the mounts: `Island::create` (whose `init_argv` expects an init),
`Debug::new`, the cgroups and `process.start()`; on success the process context is recorded and
`Started` sent. `process.start()` is `IslandProcess::start`, which panics where the source's match
expects an `Err`, so the child cloned by then is left behind. -/
def launch (container : Container) (env : Env) : Engine Unit := fun s =>
  match s.containers.lookup container with
  | none => .error (.panic "Internal error") s
  | some mc =>
    match mc.manifest.init with
    | none => .error (.panic "Attempt to use init from resource container") s
    | some _ =>
      match env.create with
      | .error e => .error (.error e) s
      | .ok pid =>
        let s := s.emit (.spawn pid container)
        match env.debug with
        | .error e => .error (.error e) s
        | .ok () =>
          match IslandProcess.start env.written env.received with
          | .error f => .error f s
          | .ok () =>
            .ok () ((s.setProcess container (some ⟨pid, mc.manifest.cgroups⟩)).emit
              (.send (.notification (.started container))))

/-- `State::start` up to its mounts: the containers it needs mounted (`need_mount`, a `HashSet`,
iterated here in list order), or the error it returns before mounting anything. -/
def needMount (s : State) (container : Container) : Except Error (List Container) :=
  match s.npk container with
  | none => .error (.invalidContainer container)
  | some (npk, _) =>
    match startChecks s container with
    | .error e => .error e
    | .ok needSelf =>
      match (missingResources s npk).find? fun resource => (s.npk resource).isNone with
      | some resource => .error (.startContainerMissingResource container resource)
      | none => .ok (needSelf ++ missingResources s npk).dedup

/-- The mounts of `State::start`: spawn a task per container, await them all, insert the mounted
ones into the map, and return the last failure if any mount failed. -/
def mountAll (containers : List Container) (ok : Nat → Bool) : Engine Unit := fun s =>
  let (tasks, rejected) := s.spawnMounts containers
  let results := mountResults ok tasks
  let s := s.completeMounts results
  match rejected with
  | some e => .error (.error e) s
  | none =>
    let s := s.insertMounted results
    match lastError results with
    | some e => .error (.error e) s
    | none => .ok () s

/-- `State::start`. -/
def start (container : Container) (env : Env) : Engine Unit := fun s =>
  match needMount s container with
  | .error e => .error (.error e) s
  | .ok containers =>
    match mountAll containers env.mount s with
    | .error e s => .error e s
    | .ok () s => launch container env s

/-- `State::stop`: take the process context, terminate the process, send `Stopped`. -/
def stop (container : Container) (timeout : Nat) : Engine Unit := fun s =>
  match s.process container with
  | none => .error (.error (.stopContainerNotStarted container)) s
  | some context =>
    .ok () (((s.setProcess container none).emit (.terminate context.pid timeout)).emit
      (.send (.notification (.stopped container))))

/-- `State::on_exit`: drop the container's process context, if it has one, and send `Exit`. -/
def onExit (container : Container) (status : ExitStatus) : Engine Unit := fun s =>
  match s.process container with
  | none => .ok () s
  | some _ => .ok () ((s.setProcess container none).emit (.send (.notification (.exit container status))))

/-- `State::on_oom`: send `OutOfMemory` and stop the container, if it has a process context. -/
def onOom (container : Container) : Engine Unit := fun s =>
  match s.process container with
  | none => .ok () s
  | some _ => stop container 5 (s.emit (.send (.notification (.outOfMemory container))))

/-- `State::shutdown`: stop the started containers, then umount every entry. -/
def shutdown : Engine Unit := fun s =>
  match forEach (stop · 5) (s.containers.entries.filterMap fun e => e.2.process.map fun _ => e.1) s with
  | .error e s => .error e s
  | .ok () s => forEach umount s.containers.keys s

/-! ### Installing -/

/-- `State::install`. -/
def install (repositoryId : RepositoryId) (npk : Except Error Npk) : Engine Unit := fun s =>
  match s.repositories.lookup repositoryId with
  | none => .error (.error (.invalidRepository repositoryId)) s
  | some repository =>
    match repository.insert npk with
    | .error e => .error (.error e) s
    | .ok (_, repository) => .ok () { s with repositories := s.repositories.replace repositoryId repository }

/-- One iteration of `uninstall`'s loop: `repository.remove(container).await?`. -/
def removeFrom (container : Container) (env : Env) (id : RepositoryId) : Engine Unit := fun s =>
  match env.remove id with
  | .error e => .error (.error e) s
  | .ok () =>
    match s.repositories.lookup id with
    | none => .ok () s
    | some repository =>
      .ok () { s with repositories := s.repositories.replace id (repository.remove container) }

/-- `State::uninstall`: umount the container if it is mapped, then remove it from every
repository. -/
def uninstall (container : Container) (env : Env) : Engine Unit := fun s =>
  match if container ∈ s.containers then umount container s else .ok () s with
  | .error e s => .error e s
  | .ok () s => forEach (removeFrom container env) s.repositories.keys s

/-! ### The console -/

/-- `State::list_containers`: every package of every repository, with the engine's view of it. -/
def listContainers (s : State) : List ContainerData :=
  s.repositories.entries.flatMap fun r => r.2.npks.map fun npk =>
    ⟨npk.container, r.1, npk.manifest, (s.process npk.container).map (·.pid),
      decide (npk.container ∈ s.containers)⟩

/-- The `Request::Mount` branch of `console_request`: spawn a mount task per identity (the `?`
returns at the first unknown one, leaving the spawned tasks to run), await them, insert the
mounted containers. -/
def mountRequest (containers : List Container) (ok : Nat → Bool) : Engine Response := fun s =>
  let (tasks, rejected) := s.spawnMounts containers
  let results := mountResults ok tasks
  let s := s.completeMounts results
  match rejected with
  | some e => .error (.error e) s
  | none => .ok (.mount []) (s.insertMounted results)

/-- A request whose operation returns `Result<(), Error>` is answered `Ok(())` or `Err(e)`. -/
def respond : EStateM.Result Fault State Unit → EStateM.Result Fault State Response
  | .ok () s => .ok .ok s
  | .error (.error e) s => .ok (.err e) s
  | .error (.panic message) s => .error (.panic message) s

/-- The response `console_request` computes for a request carried in a message. -/
def requestResponse (request : Request) (env : Env) : Engine Response := fun s =>
  match request with
  | .containers => .ok (.containers (listContainers s)) s
  | .install _ _ => .error (.panic "internal error: entered unreachable code") s
  | .mount containers => mountRequest containers env.mount s
  | .repositories => .ok (.repositories s.repositories.keys) s
  | .shutdown => .ok .ok (s.emit (.send .shutdown))
  | .start container => respond (start container env s)
  | .stop container timeout => respond (stop container timeout s)
  | .umount container => respond (umount container s)
  | .uninstall container => respond (uninstall container env s)

/-- `State::console_request`; its value is the response sent on `response_tx`, if one is. -/
def consoleRequest (request : ConsoleRequest) (env : Env) : Engine (Option Response) := fun s =>
  match request with
  | .message (.request request) =>
    match requestResponse request env s with
    | .ok response s => .ok (some response) s
    | .error e s => .error e s
  | .message _ => .ok none s
  | .install repository npk =>
    match respond (install repository npk s) with
    | .ok response s => .ok (some response) s
    | .error e s => .error e s

end Northstar

import Shep.Supervisor.Model.Lifecycle

/-!
# Supervisor — driving a reload

`actor_reload.rs` and `actor_reload_done.rs`. A reload replaces one
instance of an app at a time: overlapping swaps spawn the replacement,
wait for it and then drain the instance it replaces; serial ones drain
first. Every swap carries the stamp of the watchdog that bounds it.
-/

namespace Shep

namespace Supervisor

namespace SheepSlot

/-- `intended_credentials`: read, and never written back. -/
def intendedCredentials (w : World) (slot : SheepSlot) : Except String (Option Credentials) :=
  match slot.entry.credentials with
  | .resolved credentials =>
    if slot.entry.pendingReidentifies then w.resolve slot.intendedSpec else .ok credentials
  | .unresolved => w.resolve slot.intendedSpec

/-- The drainee half of a swap that has just started. -/
def draining (slot : SheepSlot) (newId : Option ℕ) : SheepSlot :=
  (slot.setStatus .stopping).setReload (.drainee newId)

/-- The replacement of a drainee, in its instance slot. -/
def replacing (drainee : SheepSlot) (credentials : Option Credentials) (task pid now : ℕ) :
    SheepSlot :=
  { entry := {
      spec := drainee.intendedSpec
      overridden := drainee.entry.overridden
      inst := drainee.entry.inst
      status := .starting
      pid := some pid
      restarts := drainee.entry.restarts
      startedAt := some now
      reload := .replacement
      credentials := .resolved credentials
      dog := drainee.entry.dog
      lastExit := drainee.entry.lastExit }
    ctl := some task }

/-- What `abort_reload` does to the drainee: the marker comes off, and the
status goes back where there is still an unclaimed process to go back to. -/
def restore (drainee : SheepSlot) : SheepSlot :=
  let drainee := drainee.setReload .none
  if drainee.ctl.isSome && drainee.manual.isNone then drainee.setStatus (restoredStatus drainee)
  else drainee

end SheepSlot

namespace Actor

/-! ## Jobs and markers -/

/-- `reloads.remove(name)`. -/
def dropJob (name : String) (a : Actor) : Actor :=
  { a with reloads := a.reloads.erase name }

/-- `reloads.insert(name, job)`. -/
def putJob (name : String) (job : ReloadJob) (a : Actor) : Actor :=
  { a with reloads := a.reloads.insert name job }

/-- `clear_reload`. -/
def clearReload (id : ℕ) (a : Actor) : Actor :=
  a.modifySlot id fun slot => slot.setReload .none

/-- `arm_reload_deadline`: a fresh stamp for the job's watchdog. -/
def armReloadDeadline (name : String) (id : ℕ) (a : Actor) : Actor :=
  match a.sheep[id]? with
  | none => a.panic "arm_reload_deadline: the swap's entry was read a moment ago"
  | some _ =>
    match a.reloads[name]? with
    | none => a.panic "arm_reload_deadline: no job to arm for"
    | some job =>
      { a.putJob name { job with deadline := a.nextDeadline } with
        nextDeadline := a.nextDeadline + 1
        watchdogs := ⟨name, a.nextDeadline⟩ :: a.watchdogs }

/-- `set_status`. -/
def setStatus (id : ℕ) (status : ProcStatus) (a : Actor) : Actor :=
  match a.sheep[id]? with
  | none => a.panic "set_status: unknown id"
  | some slot => a.setSlot id (slot.setStatus status)

/-- `went_online`: whatever an earlier reload concluded, it serves now. -/
def wentOnline (id : ℕ) (a : Actor) : Actor :=
  a.modifySlot id fun slot => { slot with readyFailed := false }

/-! ## Starting a swap -/

/-- `spawn_replacement`. The id is spent even when the spawn is refused,
and an overlapping swap that could not spawn puts the drainee back. -/
def spawnReplacement (w : World) (oldId : ℕ) (mode : ReloadMode) (a : Actor) :
    Except String ℕ × Actor :=
  match a.sheep[oldId]? with
  | none =>
    (.error "", a.panic "intended_credentials: the instance was found replaceable a moment ago")
  | some drainee =>
    if a.isDisabled drainee.name then
      (.error (drainee.name ++ " is disabled; `shep enable` brings it back"), a)
    else
      match drainee.intendedCredentials w with
      | .error reason => (.error reason, a)
      | .ok credentials =>
        let newId := a.nextId
        let a := { a with nextId := a.nextId + 1 }
        match a.assembleForSpawn w newId drainee.intendedSpec drainee.entry.inst with
        | .error err => (.error err.text, a)
        | .ok () =>
          let a := a.setSlot oldId (drainee.draining (some newId))
          match w.spawn newId drainee.intendedSpec with
          | .ok pid =>
            let slot := drainee.replacing credentials a.nextTask pid w.now
            let a := a.startTask newId pid drainee.intendedSpec credentials .replacement
            (.ok newId, (a.setSlot newId slot).armReady newId 0 true)
          | .error reason =>
            match mode with
            | .overlap =>
              (.error reason, a.setSlot oldId
                ((drainee.setStatus (restoredStatus drainee)).setReload .none))
            | .serial => (.error reason, a)

/-- A reload asks the instance it replaces to go. -/
def drain (name : String) (mode : ReloadMode) (swap : ReloadSwap) (a : Actor) : Actor :=
  { a with trace := .drains name mode swap :: a.trace }.claimManual swap.oldId ⟨.stop, .operator⟩
    .drain

/-- `begin_serial_drain`: ask the instance to go, and spawn nothing until
it has. -/
def beginSerialDrain (name : String) (oldId : ℕ) (drainee : SheepSlot) (queue : List ℕ)
    (a : Actor) : Actor :=
  let a := a.setSlot oldId (drainee.draining none)
  let swap : ReloadSwap := ⟨oldId, none, .drainFirst⟩
  let a := (a.putJob name ⟨queue, .serial, swap, 0⟩).armReloadDeadline name oldId
  a.drain name .serial swap

/-- Whether a reload may take this instance: eligible, with its next exit
unclaimed. -/
def replaceable (slot : SheepSlot) : Bool := reloadEligible slot && slot.manual.isNone

/-- `advance_reload`: the next swap of `name`'s reload, or its end. -/
def advanceReload (w : World) (name : String) : List ℕ → Actor → Actor
  | [], a => a.dropJob name
  | oldId :: queue, a =>
    if a.shuttingDown then a.dropJob name
    else
      match a.sheep[oldId]? with
      | none => a.advanceReload w name queue
      | some slot =>
        if !replaceable slot then a.advanceReload w name queue
        else if ReloadMode.of slot.intendedSpec = .serial then
          a.beginSerialDrain name oldId slot queue
        else
          match a.spawnReplacement w oldId .overlap with
          | (.ok newId, a) =>
            (a.putJob name ⟨queue, .overlap, ⟨oldId, some newId, .awaitReady⟩, 0⟩).armReloadDeadline
              name newId
          | (.error _, a) => a.dropJob name

/-! ## Ending a swap -/

/-- `commit_swap_success`: the reload moves on to its next instance. -/
def commitSwapSuccess (w : World) (name : String) (newId : ℕ) (queue : List ℕ) (a : Actor) :
    Actor :=
  match a.sheep[newId]? with
  | none => a.panic "commit_swap_success: the replacement was read a moment ago"
  | some _ => a.advanceReload w name queue

/-- `abort_reload`: the drainee goes back to serving where it still can,
and the replacement is killed and deregistered. -/
def abortReload (name : String) (a : Actor) : Actor :=
  match a.reloads[name]? with
  | none => a
  | some job =>
    let a := (a.dropJob name).debugAssert (job.swap.phase == .awaitReady)
      "abort_reload: a committed swap has no old instance to go back to"
    let a := a.modifySlot job.swap.oldId SheepSlot.restore
    match job.swap.newId with
    | none => a
    | some newId =>
      match a.sheep[newId]? with
      | none => a
      | some replacement =>
        let replacement := replacement.setReload .none
        if replacement.ctl.isNone then a.setSlot newId replacement
        else
          (a.setSlot newId { replacement with pendingDelete := true }).claimManual newId
            ⟨.delete, .operator⟩ .stop

/-- Whether the slot is registered and `Online`. -/
def isServing (id : ℕ) (a : Actor) : Bool :=
  match a.sheep[id]? with
  | some slot => slot.entry.status == .online
  | none => false

/-- `post_drain_probe`: an overlapping swap of a probed app is asked again
once the drainee is gone. -/
def postDrainProbe (newId : ℕ) (mode : ReloadMode) (a : Actor) : Bool :=
  match mode, a.sheep[newId]? with
  | .overlap, some slot =>
    match ReadinessSource.of slot.entry.spec with
    | .probe _ => true
    | _ => false
  | _, _ => false

/-- `spawn_verify_task`. -/
def spawnVerifyTask (name : String) (newId : ℕ) (a : Actor) : Actor :=
  { a with verifies := ⟨name, newId⟩ :: a.verifies }

/-- `finish_swap`: verify a probed overlap, move on from a serving
replacement, and abandon the reload of one that no longer serves. -/
def finishSwap (w : World) (name : String) (a : Actor) : Actor :=
  match a.reloads[name]? with
  | none => a
  | some job =>
    match job.swap.newId with
    | none =>
      (a.dropJob name).panic "finish_swap: a swap with no replacement never reaches the drain"
    | some newId =>
      if a.isServing newId then
        if a.postDrainProbe newId job.mode then
          ((a.putJob name { job with swap := { job.swap with phase := .verify } }).armReloadDeadline
            name newId).spawnVerifyTask name newId
        else ((a.dropJob name).clearReload newId).commitSwapSuccess w name newId job.queue
      else (a.dropJob name).clearReload newId

/-- `begin_drain`: the replacement serves, so the instance it replaced is
asked to go. -/
def beginDrain (w : World) (name : String) (a : Actor) : Actor :=
  match a.reloads[name]? with
  | none => a
  | some job =>
    let swap := { job.swap with phase := .drainOld }
    let a := a.putJob name { job with swap := swap }
    match a.sheep[swap.oldId]? with
    | none => a.finishSwap w name
    | some _ => a.drain name job.mode swap

/-- `reload_ready_result`: a replacement's readiness wait resolved. -/
def reloadReadyResult (w : World) (newId : ℕ) (readiness : Readiness) (a : Actor) : Actor :=
  match a.reloadOf newId with
  | none => ((a.clearReload newId).setStatus newId .online).wentOnline newId
  | some name =>
    match readiness with
    | .timedOut =>
      match a.reloads[name]? with
      | none => a.panic "reload_ready_result: the job was found a moment ago"
      | some job =>
        if (a.sheep[job.swap.oldId]?).isSome then a.abortReload name
        else ((a.dropJob name).clearReload newId).modifySlot newId
          fun slot => { slot with readyFailed := true }
    | .ready => ((a.setStatus newId .online).wentOnline newId).beginDrain w name

/-- `handle_reload_verified`: the post-drain probe answered, or did not. -/
def handleReloadVerified (w : World) (name : String) (newId : ℕ) (readiness : Readiness)
    (a : Actor) : Actor :=
  match a.reloads[name]? with
  | none => a
  | some job =>
    if job.swap.newId ≠ some newId ∨ job.swap.phase ≠ .verify then a
    else
      let a := (a.dropJob name).clearReload newId
      match readiness with
      | .ready => a.commitSwapSuccess w name newId job.queue
      | .timedOut =>
        (a.setStatus newId .starting).modifySlot newId fun slot => { slot with readyFailed := true }

/-- `handle_reload_deadline`: a swap ran out of time. -/
def handleReloadDeadline (name : String) (stamp : ℕ) (a : Actor) : Actor :=
  match a.reloads[name]? with
  | none => a
  | some job =>
    if job.deadline ≠ stamp then a
    else
      match job.swap.phase with
      | .drainFirst => (a.dropJob name).clearReload job.swap.oldId
      | .awaitReady => a.abortReload name
      | .drainOld | .verify =>
        match job.swap.newId with
        | none => a.panic "a swap past AwaitReady has a replacement"
        | some newId => (a.dropJob name).clearReload newId

/-- `handle_reload`: refused whole when an app is disabled by name or
already reloading, else one swap is started per matched app. -/
def handleReload (w : World) (selector : ProcessSelector) (a : Actor) : Actor :=
  let matched := a.matchingIds selector
  let named := matched.filterMap fun id => (a.sheep[id]?).map fun slot => (id, slot)
  if matched.isEmpty then a.answer (.info (.error .notFound))
  else
    match if selector.isExact then named.find? fun entry => a.isDisabled entry.2.name else none with
    | some entry => a.answer (.info (.error (.disabled entry.2.name)))
    | none =>
      match named.find? fun entry => (a.reloads[entry.2.name]?).isSome with
      | some entry => a.answer (.info (.error (.reloadInFlight entry.2.name)))
      | none =>
        let accepted := named.map fun entry =>
          { toInfo entry.1 entry.2 with
            reloadDeadlineMs :=
              if reloadEligible entry.2 then some (swapBudget entry.2.entry.spec) else none }
        let eligible := named.filter fun entry => reloadEligible entry.2
        let apps := (eligible.map fun entry => entry.2.name).dedup.insertionSort (· ≤ ·)
        apps.foldl
          (fun a name =>
            let queue := (eligible.filter fun entry => entry.2.name == name).map fun entry =>
              (entry.2.entry.inst, entry.1)
            a.advanceReload w name ((queue.insertionSort fun x y =>
              x.1 < y.1 ∨ (x.1 = y.1 ∧ x.2 ≤ y.2)).map Prod.snd))
          (a.answer (.info (.ok (sortFlock accepted))))

end Actor

end Supervisor

end Shep

import Shep.Supervisor.Model.Reload

/-!
# Supervisor — what finishes

`actor_exit.rs` and the reaping half of `actor_reload_done.rs`: a sheep's
exit, a back-off timer, a readiness wait, an extra's report, and the
daemon-wide shutdown.
-/

namespace Shep

namespace Supervisor

/-- A slot whose process is gone: every handle and both markers taken. The
status is left for the branch that decides what the exit becomes. -/
def SheepSlot.exited (slot : SheepSlot) (outcome : ExitOutcome) : SheepSlot :=
  { slot with
    entry := { slot.entry with pid := none, startedAt := none, lastExit := some outcome }
    ctl := none
    manual := none
    pendingDelete := false
    readyFailed := false }

namespace Actor

/-! ## Exits -/

/-- `deregister_on_exit`. -/
def deregisterOnExit (id : ℕ) (a : Actor) : Actor :=
  match a.sheep[id]? with
  | none => a.panic "deregister_on_exit: unknown id"
  | some slot =>
    (a.removeSlot id).resolvePending id (toInfo id ((slot.setStatus .stopped).setReload .none))

/-- Resolves the replies waiting on `id` with the row it is left in. -/
def resolveExit (id : ℕ) (a : Actor) : Actor :=
  match a.sheep[id]? with
  | none => a.panic "checked above"
  | some slot => a.resolvePending id (toInfo id slot)

/-- `spawn_serial_replacement`: the slot the drainee has just left. -/
def spawnSerialReplacement (w : World) (name : String) (oldId : ℕ) (a : Actor) : Actor :=
  match a.spawnReplacement w oldId .serial with
  | (.ok newId, a) =>
    match a.reloads[name]? with
    | none => a.panic "spawn_serial_replacement: the job was read a moment ago"
    | some job =>
      (a.putJob name { job with swap := { job.swap with newId := some newId, phase := .awaitReady }
        }).armReloadDeadline name newId
  | (.error _, a) => a.dropJob name

/-- What `reap_drainee` does to the job once the drainee is deregistered. -/
def reapJob (w : World) (oldId : ℕ) (a : Actor) : Actor :=
  match a.reloadOf oldId with
  | none => a
  | some name =>
    match a.reloads[name]? with
    | none => a.panic "reap_drainee: the job was found a moment ago"
    | some job =>
      match job.swap.phase with
      | .drainOld | .verify => a.finishSwap w name
      | .awaitReady => a.putJob name { job with swap := { job.swap with phase := .drainOld } }
      | .drainFirst => a.debugAssert false "reap_drainee: DrainFirst outlived its own spawn"

/-- `reap_drainee`. The `pending_delete` it tests is the slot's, which
`handle_exited` has already taken. -/
def reapDrainee (w : World) (oldId : ℕ) (a : Actor) : Actor :=
  let a :=
    match a.serialDrainOf oldId with
    | none => a
    | some name =>
      match a.sheep[oldId]? with
      | none => a.panic "reap_drainee: unknown id"
      | some slot =>
        if slot.pendingDelete then a.dropJob name else a.spawnSerialReplacement w name oldId
  (a.deregisterOnExit oldId).reapJob w oldId

/-- An exit whose entry had no `started_at`. -/
def settleDuplicate (id : ℕ) (slot : SheepSlot) (deleting : Bool) (a : Actor) : Actor :=
  if deleting then (a.removeSlot id).resolvePending id (toInfo id (slot.setStatus .stopped))
  else a.resolvePending id (toInfo id slot)

/-- The decision an ordinary exit ends in. -/
def settleDecision (id : ℕ) (slot : SheepSlot) (decision : Decision) (deleting : Bool)
    (a : Actor) : Actor :=
  match decision with
  | .restart delay =>
    let slot := slot.setStatus .waitingRestart
    (a.backOff id slot delay).resolvePending id (toInfo id slot)
  | .errored | .sandboxRefused =>
    let slot := slot.setStatus .errored
    (a.setSlot id slot).resolvePending id (toInfo id slot)
  | .cleanStop =>
    let slot := slot.setStatus .stopped
    if deleting then (a.removeSlot id).resolvePending id (toInfo id slot)
    else (a.setSlot id slot).resolvePending id (toInfo id slot)

/-- The tail of `handle_exited`, past the reload arms. `taken` is the slot
as the exit found it: its markers and its `started_at` are consumed. -/
def settleExit (w : World) (id : ℕ) (taken : SheepSlot) (outcome : ExitOutcome) (oomKilled : Bool)
    (a : Actor) : Actor :=
  let kind := taken.manual.map PendingManual.kind
  let deleting := kind == some .delete || taken.pendingDelete
  match a.sheep[id]? with
  | none => a.panic "checked above"
  | some slot =>
    match taken.entry.startedAt with
    | none => a.settleDuplicate id slot deleting
    | some startedAt =>
      if kind == some .restart && !a.shuttingDown && !taken.pendingDelete &&
          !a.isDisabled slot.name then
        let reset := { slot with entry := { slot.entry with budget := slot.entry.budget.reset } }
        let manually := taken.manual.map PendingManual.origin == some .operator
        ((a.setSlot id reset).respawn w id manually).resolveExit id
      else
        let decided := decideOnExit slot.entry.spec slot.entry.budget (w.now - startedAt) outcome
          kind.isSome oomKilled
        let slot := { slot with entry := { slot.entry with budget := decided.2 } }
        a.settleDecision id slot decided.1 deleting

/-- A committed swap whose drainee is already gone ends with its
replacement's exit: nothing else would. -/
def endOrphanedSwap (id : ℕ) (a : Actor) : Actor :=
  match a.reloadOf id with
  | none => a
  | some name =>
    match a.reloads[name]? with
    | none => a.panic "handle_exited: the job was found a moment ago"
    | some job =>
      if (a.sheep[job.swap.oldId]?).isSome then a
      else
        (a.debugAssert (!a.isServing id)
          "a swap committed by the drainee's death cannot have had a live replacement").dropJob name

/-- `handle_exited`. -/
def handleExited (w : World) (id : ℕ) (outcome : ExitOutcome) (oomKilled : Bool) (a : Actor) :
    Actor :=
  match a.sheep[id]? with
  | none => a
  | some slot =>
    let a := a.setSlot id (slot.exited outcome)
    match slot.entry.reload with
    | .drainee _ =>
      match a.uncommittedSwapOf id with
      | some name =>
        if slot.manual.isSome then (a.abortReload name).settleExit w id slot outcome oomKilled
        else a.reapDrainee w id
      | none => a.reapDrainee w id
    | .replacement =>
      let a := a.clearReload id
      match a.uncommittedSwapOf id with
      | some name => (a.abortReload name).deregisterOnExit id
      | none => (a.endOrphanedSwap id).settleExit w id slot outcome oomKilled
    | .none => a.settleExit w id slot outcome oomKilled

/-! ## Timers, waits and reports -/

/-- `handle_restart_due`. -/
def handleRestartDue (w : World) (id epoch : ℕ) (a : Actor) : Actor :=
  if a.shuttingDown then a
  else
    match a.sheep[id]? with
    | none => a
    | some slot =>
      if slot.entry.status = .waitingRestart ∧ slot.epoch = epoch then a.respawn w id false else a

/-- `handle_ready_result`. -/
def handleReadyResult (w : World) (id epoch : ℕ) (readiness : Readiness) (a : Actor) : Actor :=
  if a.shuttingDown then a
  else
    match a.sheep[id]? with
    | none => a
    | some slot =>
      if slot.epoch ≠ epoch ∨ slot.entry.status ≠ .starting then a
      else if slot.entry.reload = .replacement then a.reloadReadyResult w id readiness
      else (a.setStatus id .online).wentOnline id

/-- `handle_extra_restart`: a memory breach or a liveness failure. -/
def handleExtraRestart (w : World) (id pid : ℕ) (epoch observed : Option ℕ) (a : Actor) : Actor :=
  if a.shuttingDown then a
  else
    match a.sheep[id]? with
    | none => a
    | some slot =>
      if a.isDisabled slot.name then a
      else if slot.entry.pid ≠ some pid then a
      else if !reloadEligible slot then a
      else if epoch.any fun e => w.livenessEpoch id != e then a
      else if observed.any fun o => slot.entry.spec.maxMemory.all fun limit => o ≤ limit then a
      else a.beginManual w (.id id) .restart .automatic .info

/-! ## Shutdown -/

/-- `begin_shutdown`: every reload is abandoned, every running sheep is
claimed, and the reply waits for the ids that ran when it began. -/
def beginShutdown (a : Actor) : Actor :=
  let a := { a with shuttingDown := true, reloads := ∅ }
  let online := a.idsWhere fun _ slot => slot.ctl.isSome
  if online.isEmpty then { a.answer .shutdown with done := true }
  else
    (online.foldl (fun a id => a.claimManual id ⟨.stop, .operator⟩ .stop) a).park online []
      .shutdown

end Actor

end Supervisor

end Shep

import Shep.Supervisor.Model.Handover

/-!
# Supervisor — the image on its way out

`boot/handover.rs`'s `hand_over_now` beside the loop it takes its snapshot
from. The SIGHUP task asks the actor once, waits for the pumps and the dog
links, rehearses the blob and replaces the image; the actor's loop and the
children go on between any two of these steps. A child is reaped by its
own task, which reports the exit to the loop afterwards.

What a pump, the rehearsal, the probe of the target and the kernel answer
is the event's own: nothing the loop does in the meantime is read by them
but a descriptor that has been closed, and a closed one only refuses.
-/

namespace Shep

namespace Supervisor

/-- Where the SIGHUP task stands. -/
inductive Departure where
  /-- No SIGHUP has been taken. -/
  | settled
  /-- The snapshot has been asked for. -/
  | asked
  /-- The actor has described its flock, and the pumps are reporting. -/
  | described (blob : Handover)
  /-- Every pump has answered, or has missed its deadline. -/
  | reported (blob : Handover) (unresponsive : List ℕ)
  /-- The dog links are frozen. -/
  | frozen (blob : Handover) (unresponsive : List ℕ)
  /-- Both gates have passed. -/
  | rehearsed (blob : Handover)
  /-- The successor's image runs. -/
  | replaced (blob : Handover)
  /-- The flock could not be handed over: a graceful stop follows. -/
  | refused
  deriving DecidableEq

/-- The blob a departure still has to carry across. -/
def Departure.carrying : Departure → Option Handover
  | .described blob | .reported blob _ | .frozen blob _ | .rehearsed blob => some blob
  | .settled | .asked | .replaced _ | .refused => none

/-- Whether the image is gone. -/
def Departure.over : Departure → Bool
  | .replaced _ => true
  | _ => false

/-- One image of the shepherd: the loop, the lives whose child has been
reaped, and the SIGHUP task. -/
structure Image where
  actor : Actor
  reaped : List ℕ := []
  departure : Departure := .settled

/-- What can happen to an image. -/
inductive Happening where
  /-- The loop takes a message. -/
  | turn (world : World) (msg : Msg)
  /-- A child has exited, and its task has waited for it. -/
  | reap (task : Task)
  | hup
  /-- The loop takes the snapshot request. -/
  | snapshot (restartDue : ℕ → Option ℕ) (nextActionStamp : ℕ)
  | report (unresponsive : List ℕ)
  | freeze
  | rehearse (adoptable : Bool)
  | exec (replaces : Bool)

/-- The step the SIGHUP task is about to take. -/
def Departure.awaits : Departure → Happening → Bool
  | .settled, .hup => true
  | .asked, .snapshot _ _ => true
  | .described _, .report _ => true
  | .reported _ _, .freeze => true
  | .frozen _ _, .rehearse _ => true
  | .rehearsed _, .exec _ => true
  | _, _ => false

/-- `fitness`, over the rows of a blob: only a wedged pump refuses. -/
def fitness (blob : Handover) (unresponsive : List ℕ) : Bool :=
  blob.sheep.all fun row => !unresponsive.contains row.id

/-- `hand_over_now` and `hand_over_carrying`, from the signal to the exec:
the shape of the flock is asked about before the rehearsal, and either can
refuse it. The snapshot is the loop's to take. -/
def Departure.proceed : Departure → Happening → Departure
  | .settled, .hup => .asked
  | .described blob, .report unresponsive => .reported blob unresponsive
  | .reported blob unresponsive, .freeze => .frozen blob unresponsive
  | .frozen blob unresponsive, .rehearse adoptable =>
    if fitness blob unresponsive && adoptable then .rehearsed blob else .refused
  | .rehearsed blob, .exec replaces => if replaces then .replaced blob else .refused
  | departure, _ => departure

namespace Image

/-- An image that has just booted. -/
def boot (dogBinaries : List (String × String)) : Image where
  actor := .init dogBinaries

/-- The lives whose child has not been waited for. -/
def living (i : Image) : List Task :=
  i.actor.tasks.filter fun task => !i.reaped.contains task.serial

/-- Whether the exit a message reports has been waited for. -/
def hasReaped (i : Image) : Msg → Bool
  | .exited task _ _ => i.reaped.contains task.serial
  | _ => true

/-- Whether an event can be the next one. An exit is reported by the task
that reaped the child, and the SIGHUP task takes its steps in order. -/
def Admits (i : Image) (e : Happening) : Prop :=
  match e with
  | .turn _ msg => i.actor.running = true ∧ i.actor.admits msg ∧ i.hasReaped msg = true
  | .reap task => task ∈ i.living
  | .snapshot _ _ => i.actor.running = true ∧ i.departure.awaits e = true
  | .hup | .report _ | .freeze | .rehearse _ | .exec _ => i.departure.awaits e = true

instance (i : Image) (e : Happening) : Decidable (i.Admits e) :=
  match e with
  | .turn _ msg => inferInstanceAs (Decidable (_ ∧ i.actor.admits msg ∧ _))
  | .reap task => inferInstanceAs (Decidable (task ∈ i.living))
  | .snapshot _ _ => inferInstanceAs (Decidable (_ ∧ _))
  | .hup => inferInstanceAs (Decidable (_ = true))
  | .report _ => inferInstanceAs (Decidable (_ = true))
  | .freeze => inferInstanceAs (Decidable (_ = true))
  | .rehearse _ => inferInstanceAs (Decidable (_ = true))
  | .exec _ => inferInstanceAs (Decidable (_ = true))

/-- What an event leaves. -/
def take (i : Image) : Happening → Image
  | .turn world msg => { i with actor := i.actor.turn world msg }
  | .reap task => { i with reaped := task.serial :: i.reaped }
  | .snapshot restartDue nextActionStamp =>
    let shepherd : Shepherd := ⟨i.actor, restartDue, nextActionStamp⟩
    { i with departure := .described shepherd.handleHandoverSnapshot }
  | e => { i with departure := i.departure.proceed e }

/-- The kernel's promise: no two children that have not been waited for
share a pid. -/
def PidsApart (i : Image) : Prop := (i.living.map Task.pid).Nodup

instance (i : Image) : Decidable i.PidsApart := inferInstanceAs (Decidable (List.Nodup _))

/-- One event. Nothing happens to an image that has been replaced. -/
def Step (i : Image) (e : Happening) (i' : Image) : Prop :=
  i.departure.over = false ∧ i.Admits e ∧ i' = i.take e ∧ i'.PidsApart

end Image

end Supervisor

end Shep

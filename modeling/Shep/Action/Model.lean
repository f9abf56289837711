import Mathlib.Data.List.Nodup
import Shep.Common.Run

/-!
# Action — what a sheep still owes on its channel

`supervisor/manual.rs`'s `ActionWaits`, the handlers of
`supervisor/actor_actions.rs` that write it, and the task each wait runs
(`spawn_action_task`). `Channel` is one registered sheep with the tasks of
its waits, the results they have put in the actor's mailbox, and the
actions its process has read and not answered. Any of them may move next:
a task ends whenever its deadline does, a result waits in the mailbox while
replies are handled, and an app answers when it likes, as it likes.

The refusals of `begin_action` come before a wait is armed, and are left
out, as are an action's parameters and caller.
-/

namespace Shep

namespace Action

/-- `MAX_ABANDONED_ACTION_REPLIES`. -/
def maxAbandonedActionReplies : ℕ := 64

/-! ## The waits -/

/-- `PendingAction`. The sending half of a oneshot channel is the number of
the wait it was made for. -/
structure PendingAction where
  stamp : ℕ
  action : String
  waiter : Option ℕ
  reply : ℕ
  deriving Repr, DecidableEq

/-- `AbandonedReply`. -/
structure AbandonedReply where
  stamp : ℕ
  action : String
  deriving Repr, DecidableEq

/-- `ActionWaits`. -/
structure ActionWaits where
  live : List PendingAction := []
  abandoned : List AbandonedReply := []
  deriving Repr, DecidableEq

namespace ActionWaits

/-- The waiter of the first wait that has one and that `p` holds of, taken
from it. -/
def takeWaiter (p : PendingAction → Bool) : List PendingAction → Option ℕ × List PendingAction
  | [] => (none, [])
  | pending :: live =>
    if p pending && pending.waiter.isSome then (pending.waiter, { pending with waiter := none } :: live)
    else ((takeWaiter p live).1, pending :: (takeWaiter p live).2)

/-- `arm`. -/
def arm (pending : PendingAction) (waits : ActionWaits) : ActionWaits :=
  { waits with live := waits.live ++ [pending] }

/-- `answer`. -/
def answer (action : String) (stamp : Option ℕ) (waits : ActionWaits) : Option ℕ × ActionWaits :=
  match stamp with
  | some stamp =>
    match takeWaiter (fun pending => pending.stamp == stamp) waits.live with
    | (some waiter, live) => (some waiter, { waits with live })
    | (none, _) =>
      (none, { waits with abandoned := waits.abandoned.eraseP fun debt => debt.stamp == stamp })
  | none =>
    if waits.abandoned.any fun debt => debt.action == action then
      (none, { waits with abandoned := waits.abandoned.eraseP fun debt => debt.action == action })
    else
      let taken := takeWaiter (fun pending => pending.action == action) waits.live
      (taken.1, { waits with live := taken.2 })

/-- A debt put on record, and the oldest forgotten where there are too
many. -/
def owe (abandoned : List AbandonedReply) (debt : AbandonedReply) : List AbandonedReply :=
  let abandoned := abandoned ++ [debt]
  if maxAbandonedActionReplies < abandoned.length then abandoned.tail else abandoned

/-- `resolve`. -/
def resolve (stamp : ℕ) (waits : ActionWaits) : Option ℕ × ActionWaits :=
  match waits.live.find? fun pending => pending.stamp == stamp with
  | none => (none, waits)
  | some pending =>
    let live := waits.live.eraseP fun pending => pending.stamp == stamp
    -- a waiter still there ended without its reply
    if pending.waiter.isSome then
      (some pending.reply,
        { live, abandoned := owe waits.abandoned ⟨pending.stamp, pending.action⟩ })
    else (some pending.reply, { waits with live })

/-- `abandon_all`, with the halves it answers `NoChannel`. -/
def abandonAll (waits : ActionWaits) : List ℕ × ActionWaits :=
  (waits.live.map PendingAction.reply, {})

end ActionWaits

/-! ## A sheep's channel -/

/-- `ActionOutcome`, of a wait that was armed. -/
inductive ActionOutcome where
  | replied (body : String)
  | noChannel
  | timedOut
  deriving Repr, DecidableEq

/-- Where the task of a wait stands. -/
inductive Stage where
  /-- In `to_child.send`. -/
  | sending
  /-- At `reply_rx`, the action delivered. -/
  | waiting
  /-- The process it was for has ended. -/
  | closed
  deriving Repr, DecidableEq

/-- `spawn_action_task`, and what has come through `reply_rx`. -/
structure ActionTask where
  stamp : ℕ
  action : String
  stage : Stage := .sending
  body : Option String := none
  deriving Repr, DecidableEq

/-- An action the process has read. -/
structure Dispatch where
  stamp : ℕ
  action : String
  deriving Repr, DecidableEq

/-- What is seen of a wait: its arming, the outcome its caller is given, and
a reply handed to its waiter, which the app meant for the dispatch
`about`. -/
inductive Effect where
  | armed (stamp : ℕ)
  | answered (stamp : ℕ) (outcome : ActionOutcome)
  | handed (waiter : ℕ) (body : String) (stamp : Option ℕ) (about : ℕ)
  deriving Repr, DecidableEq

/-- One registered sheep, seen from its waits. -/
structure Channel where
  waits : ActionWaits := {}
  nextActionStamp : ℕ := 0
  tasks : List ActionTask := []
  /-- `Msg::ActionResult`s in the mailbox. -/
  results : List (ℕ × ActionOutcome) := []
  /-- What the process has read and not answered. -/
  owed : List Dispatch := []
  trace : List Effect := []
  deriving Repr, DecidableEq

/-- What happens next. -/
inductive Event where
  /-- An action is dispatched to the sheep. -/
  | trigger (action : String)
  /-- An action is dispatched to another sheep. -/
  | elsewhere
  /-- A task's send goes through. -/
  | deliver (stamp : ℕ)
  /-- The actor handles a reply of the app, which meant it for the dispatch
  `about`. Nothing reads `about`. -/
  | reply (action body : String) (stamp : Option ℕ) (about : ℕ)
  /-- A task ends and reports. -/
  | finish (stamp : ℕ) (outcome : ActionOutcome)
  /-- The actor handles a report. -/
  | result (stamp : ℕ) (outcome : ActionOutcome)
  /-- The actor handles the exit of the process. -/
  | exited
  deriving Repr, DecidableEq

namespace ActionTask

/-- What the task can end with. The deadline may pass at any time, also with
a body already there. -/
def Ends (t : ActionTask) : ActionOutcome → Prop
  | .replied body => t.body = some body
  | .noChannel => t.stage ≠ .waiting
  | .timedOut => True

instance (t : ActionTask) : (outcome : ActionOutcome) → Decidable (t.Ends outcome)
  | .replied body => inferInstanceAs (Decidable (t.body = some body))
  | .noChannel => inferInstanceAs (Decidable (t.stage ≠ .waiting))
  | .timedOut => isTrue trivial

end ActionTask

namespace Channel

/-- `arm_action`. -/
def armAction (action : String) (c : Channel) : Channel :=
  let stamp := c.nextActionStamp
  { c with
    nextActionStamp := stamp + 1
    tasks := c.tasks ++ [{ stamp, action }]
    waits := c.waits.arm { stamp, action, waiter := some stamp, reply := stamp }
    trace := .armed stamp :: c.trace }

/-- `handle_action_reply`. A task that has ended drops what it is sent. -/
def handleActionReply (action body : String) (stamp : Option ℕ) (about : ℕ) (c : Channel) :
    Channel :=
  match c.waits.answer action stamp with
  | (some waiter, waits) =>
    { c with
      waits
      tasks := c.tasks.map fun t => if t.stamp = waiter then { t with body := some body } else t
      trace := .handed waiter body stamp about :: c.trace }
  | (none, waits) => { c with waits }

/-- `handle_action_result`. -/
def handleActionResult (stamp : ℕ) (outcome : ActionOutcome) (c : Channel) : Channel :=
  match c.waits.resolve stamp with
  | (some reply, waits) => { c with waits, trace := .answered reply outcome :: c.trace }
  | (none, waits) => { c with waits }

/-- What `handle_exited` does to the waits, and the end of the process to
everything it was to read or owed. -/
def handleExited (c : Channel) : Channel :=
  let (replies, waits) := c.waits.abandonAll
  { c with
    waits
    tasks := c.tasks.map fun t => { t with stage := .closed }
    owed := []
    trace := replies.map (fun reply => .answered reply .noChannel) ++ c.trace }

/-- The next state, where the event can happen. -/
def step (c : Channel) : Event → Option Channel
  | .trigger action => some (c.armAction action)
  | .elsewhere => some { c with nextActionStamp := c.nextActionStamp + 1 }
  | .deliver stamp =>
    match c.tasks.find? fun t => t.stamp == stamp with
    | some t =>
      if t.stage = .sending then
        some { c with
          tasks := c.tasks.map fun t => if t.stamp = stamp then { t with stage := .waiting } else t
          owed := c.owed ++ [⟨stamp, t.action⟩] }
      else none
    | none => none
  | .reply action body stamp about =>
    let c := c.handleActionReply action body stamp about
    some { c with owed := c.owed.erase ⟨about, action⟩ }
  | .finish stamp outcome =>
    match c.tasks.find? fun t => t.stamp == stamp with
    | some t =>
      if t.Ends outcome then
        some { c with
          tasks := c.tasks.eraseP fun t => t.stamp == stamp
          results := c.results ++ [(stamp, outcome)] }
      else none
    | none => none
  | .result stamp outcome =>
    if (stamp, outcome) ∈ c.results then
      let c := { c with results := c.results.erase (stamp, outcome) }
      some (c.handleActionResult stamp outcome)
    else none
  | .exited => some c.handleExited

/-- One step. -/
def Step (c : Channel) (e : Event) (c' : Channel) : Prop := c.step e = some c'

end Channel

end Action

end Shep

import Mathlib.Data.List.Induction
import Mathlib.Logic.Function.Iterate
import Shep.Supervisor.Model.Types

/-!
# Restart — the budget and the back-off at their own widths

`entry.rs`'s `RestartBudget`, `brain.rs`'s `decide_on_exit` and
`backoff.rs`, with the counter a `u32` and the delays `u64` milliseconds,
as a release build computes them: an addition or a product that does not
fit wraps. A `Duration` and a distance between two `SystemTime`s are
nanoseconds; a duration of the config is a whole number of milliseconds.
-/

namespace Shep

namespace Restart

open Supervisor (ExitOutcome sandboxDog)

/-- The fields of `AppConfig` an exit is decided on. Of the `dogs` tables
only the keys are. -/
structure AppConfig where
  dogs : List String := []
  autorestart : Bool := true
  stopExitCodes : List ℤ := []
  minUptime : UInt64 := 1000
  maxRestarts : UInt32 := 16
  restartDelay : Option UInt64 := none
  expBackoffRestartDelay : Option UInt64 := some 100
  deriving Repr, DecidableEq

/-- Nanoseconds of a whole number of milliseconds. -/
def ofMillis (ms : UInt64) : ℕ := ms.toNat * 1000000

/-! ## The budget -/

/-- `RestartBudget`. -/
structure RestartBudget where
  unstableCount : UInt32 := 0
  deriving Repr, DecidableEq

namespace RestartBudget

/-- `note_failed_start`. -/
def noteFailedStart (b : RestartBudget) : RestartBudget :=
  { b with unstableCount := b.unstableCount + 1 }

/-- `note_exit`. -/
def noteExit (b : RestartBudget) (uptime minUptime : ℕ) : RestartBudget :=
  if minUptime ≤ uptime then { b with unstableCount := 0 } else b.noteFailedStart

/-- `exhausted`. -/
def exhausted (b : RestartBudget) (maxRestarts : UInt32) : Bool :=
  decide (maxRestarts ≤ b.unstableCount)

/-- `reset`. -/
def reset (b : RestartBudget) : RestartBudget := { b with unstableCount := 0 }

end RestartBudget

/-! ## The back-off -/

/-- The cap a step of the back-off is held to. -/
def cap : UInt64 := 15000

/-- One step of the back-off: half as long again, held to the cap. -/
def backoffStep (d : UInt64) : UInt64 :=
  let next := d * 3 / 2
  if next ≤ cap then next else cap

/-- `restart_delay`. -/
def restartDelay (app : AppConfig) (consecutiveUnstable : UInt32) : Option UInt64 :=
  match app.restartDelay with
  | some fixed => some fixed
  | none =>
    if consecutiveUnstable = 0 then none
    else match app.expBackoffRestartDelay with
      | some initial => some (backoffStep^[consecutiveUnstable.toNat - 1] initial)
      | none => none

/-- `adopted_restart_delay`: the wait still due, in nanoseconds. -/
def adoptedRestartDelay (app : AppConfig) (due : Option ℤ) (now : ℤ) : Option ℕ :=
  let ceiling := (restartDelay app 1).map ofMillis
  match due with
  | none => ceiling
  | some due =>
    -- `duration_since` refuses a `due` in the past
    let remaining := (due - now).toNat
    let remaining := match ceiling with
      | some ceiling => min remaining ceiling
      | none => 0
    if 0 < remaining then some remaining else none

/-! ## The decision -/

/-- `Decision`. -/
inductive Decision where
  | restart (delay : Option UInt64)
  | cleanStop
  | errored
  | sandboxRefused
  deriving Repr, DecidableEq

/-- `is_sandboxed`. -/
def AppConfig.isSandboxed (app : AppConfig) : Bool := app.dogs.contains sandboxDog

/-- `SANDBOX_REFUSED_EXIT`. -/
def sandboxRefusedExit : ℤ := 125

/-- `is_sandbox_refusal`. -/
def isSandboxRefusal (app : AppConfig) (code : Option ℤ) : Bool :=
  app.isSandboxed && code == some sandboxRefusedExit

/-- Whether `code` is one of the app's `stop_exit_codes`. A signal exit has
none. -/
def stopsOn (app : AppConfig) (code : Option ℤ) : Bool :=
  code.any app.stopExitCodes.contains

/-- `decide_on_exit`, with the budget it leaves. -/
def decideOnExit (app : AppConfig) (budget : RestartBudget) (uptime : ℕ) (exit : ExitOutcome)
    (manualStop oomKilled : Bool) : Decision × RestartBudget :=
  if manualStop then (.cleanStop, budget)
  else if isSandboxRefusal app exit.code then (.sandboxRefused, budget)
  else if stopsOn app exit.code then (.cleanStop, budget)
  else if !app.autorestart then (.cleanStop, budget)
  else
    let budget := if oomKilled then budget.noteFailedStart
      else budget.noteExit uptime (ofMillis app.minUptime)
    if budget.exhausted app.maxRestarts then (.errored, budget)
    else (.restart (restartDelay app budget.unstableCount), budget)

end Restart

end Shep

/-!
## What a budget charges for

A budget through the exits and the resets of one sheep, in any order.
`streak` counts the failed exits in a row that were charged, and
`budget_streak` says that the budget holds just this count, modulo the
width of a `u32`. **`budget_errors_at_limit`** reads every decision off
it: it errors at the charged exits that find the limit reached, and
restarts at all others. **`budget_charged_at_limit`** is the exit that
errs and is charged.
-/

namespace Shep

namespace Restart

open Supervisor (ExitOutcome)

/-- What `decide_on_exit` is told of an exit. -/
structure Exit where
  uptime : ℕ
  exit : ExitOutcome
  manualStop : Bool := false
  oomKilled : Bool := false
  deriving Repr, DecidableEq

/-- What a budget goes through. -/
inductive Event where
  | exit (x : Exit)
  | reset
  deriving Repr, DecidableEq

namespace Exit

variable (app : AppConfig) (x : Exit)

/-- The decision on an exit, and the budget it leaves. -/
def decision (b : RestartBudget) : Decision × RestartBudget :=
  decideOnExit app b x.uptime x.exit x.manualStop x.oomKilled

/-- The policy allows a restart, so the exit is charged to the budget. -/
def charged : Bool :=
  !x.manualStop && !isSandboxRefusal app x.exit.code && !stopsOn app x.exit.code && app.autorestart

/-- An exit too soon after its start, or one by the memory limit. -/
def failed : Bool := x.oomKilled || decide (x.uptime < ofMillis app.minUptime)

end Exit

/-- A budget after one event. -/
def after (app : AppConfig) (b : RestartBudget) : Event → RestartBudget
  | .exit x => (x.decision app b).2
  | .reset => b.reset

/-- The budget a sheep starts with, after a list of events. -/
def budgetAfter (app : AppConfig) (events : List Event) : RestartBudget :=
  events.foldl (after app) {}

/-! ## The streak -/

/-- What ends a streak: a reset, or an exit that is charged and has not
failed. -/
def endsStreak (app : AppConfig) : Event → Bool
  | .reset => true
  | .exit x => x.charged app && !x.failed app

/-- What lengthens a streak. -/
def lengthens (app : AppConfig) : Event → Bool
  | .reset => false
  | .exit x => x.charged app && x.failed app

/-- How many failed exits have been charged since the last event that ended
a streak. -/
def streak (app : AppConfig) (events : List Event) : ℕ :=
  (events.reverse.takeWhile fun e => !endsStreak app e).countP (lengthens app)

section

variable {app : AppConfig} {events : List Event} {x : Exit} {b : RestartBudget}

theorem streak_snoc (e : Event) : streak app (events ++ [e]) =
    if endsStreak app e then 0 else streak app events + if lengthens app e then 1 else 0 := by
  unfold streak
  rw [List.reverse_append, List.reverse_singleton, List.singleton_append, List.takeWhile_cons]
  cases endsStreak app e with
  | true => rfl
  | false => simp [List.countP_cons]

theorem streak_reset : streak app (events ++ [.reset]) = 0 := by
  rw [streak_snoc]
  rfl

theorem streak_uncharged (h : x.charged app = false) :
    streak app (events ++ [.exit x]) = streak app events := by
  rw [streak_snoc]
  simp [endsStreak, lengthens, h]

theorem streak_charged (h : x.charged app = true) :
    streak app (events ++ [.exit x]) = if x.failed app then streak app events + 1 else 0 := by
  rw [streak_snoc]
  cases hf : x.failed app <;> simp [endsStreak, lengthens, h, hf]

/-! ## One decision -/

/-- The budget a charged exit leaves. -/
def Exit.note (app : AppConfig) (x : Exit) (b : RestartBudget) : RestartBudget :=
  if x.oomKilled then b.noteFailedStart else b.noteExit x.uptime (ofMillis app.minUptime)

theorem Exit.note_eq : x.note app b = if x.failed app then b.noteFailedStart else b.reset := by
  unfold note failed RestartBudget.noteExit
  generalize ofMillis app.minUptime = minUptime
  cases x.oomKilled with
  | true => simp
  | false =>
    by_cases hlt : x.uptime < minUptime
    · simp [hlt, Nat.not_le.2 hlt]
    · simp [hlt, Nat.not_lt.1 hlt, RestartBudget.reset]

/-- What is not charged is a clean stop or a refusal, and leaves the
budget. -/
theorem Exit.decision_uncharged (h : x.charged app = false) :
    (x.decision app b).2 = b ∧
      ((x.decision app b).1 = .cleanStop ∨ (x.decision app b).1 = .sandboxRefused) := by
  unfold decision decideOnExit
  simp only [charged, Bool.and_eq_false_iff, Bool.not_eq_false'] at h
  by_cases hmanual : x.manualStop = true
  · simp [hmanual]
  · by_cases hsandbox : isSandboxRefusal app x.exit.code = true
    · simp [hmanual, hsandbox]
    · by_cases hstops : stopsOn app x.exit.code = true
      · simp [hmanual, hsandbox, hstops]
      · simp_all

theorem Exit.decision_charged (h : x.charged app = true) :
    x.decision app b = (if (x.note app b).exhausted app.maxRestarts then .errored
      else .restart (restartDelay app (x.note app b).unstableCount), x.note app b) := by
  simp only [charged, Bool.and_eq_true, Bool.not_eq_true'] at h
  obtain ⟨⟨⟨hmanual, hsandbox⟩, hstops⟩, hauto⟩ := h
  unfold decision decideOnExit note
  simp only [hmanual, hsandbox, hstops, hauto, Bool.false_eq_true, if_false, Bool.not_true]
  exact (apply_ite (fun d => (d, _)) _ _ _).symm

/-! ## A whole run -/

theorem budgetAfter_snoc (e : Event) :
    budgetAfter app (events ++ [e]) = after app (budgetAfter app events) e := by
  simp [budgetAfter]

/-- **A budget holds the streak**, as far as a `u32` can. -/
theorem budget_streak (app : AppConfig) (events : List Event) :
    (budgetAfter app events).unstableCount.toNat = streak app events % 2 ^ 32 := by
  induction events using List.reverseRecOn with
  | nil => rfl
  | append_singleton events e ih =>
    rw [budgetAfter_snoc]
    cases e with
    | reset =>
      rw [streak_reset, Nat.zero_mod]
      rfl
    | exit x =>
      cases hc : x.charged app with
      | false =>
        rw [after, (Exit.decision_uncharged hc).1, streak_uncharged hc]
        exact ih
      | true =>
        rw [after, Exit.decision_charged hc, streak_charged hc, Exit.note_eq]
        cases x.failed app with
        | false =>
          rw [if_neg Bool.false_ne_true, if_neg Bool.false_ne_true, Nat.zero_mod]
          rfl
        | true =>
          simp only [if_true, RestartBudget.noteFailedStart, UInt32.toNat_add, ih]
          simp

/-- An exit errs exactly if it is charged and leaves the budget at the limit
or past it. -/
theorem decision_errored_iff : (x.decision app b).1 = .errored ↔
    x.charged app = true ∧ app.maxRestarts.toNat ≤ (x.note app b).unstableCount.toNat := by
  cases hc : x.charged app with
  | false =>
    rcases (Exit.decision_uncharged (b := b) hc).2 with h | h <;> simp [h]
  | true =>
    rw [Exit.decision_charged hc]
    by_cases hle : app.maxRestarts ≤ (x.note app b).unstableCount
    · simp [RestartBudget.exhausted, hle, UInt32.le_iff_toNat_le.1 hle]
    · simp [RestartBudget.exhausted, hle, UInt32.le_iff_toNat_le.not.1 hle]

end

/-- **An app errs exactly at its limit.** After any exits and resets, the
next exit errs if and only if it is charged and the streak it ends or
lengthens, as a `u32` holds it, is at the limit or past it: while no exit
of the streak has erred, if and only if the streak comes to the limit. Every
other charged exit restarts, and every exit that is not charged leaves the
budget as it was. -/
theorem budget_errors_at_limit (app : AppConfig) (events : List Event) (x : Exit) :
    ((x.decision app (budgetAfter app events)).1 = .errored ↔ x.charged app = true ∧
      app.maxRestarts.toNat ≤ streak app (events ++ [.exit x]) % 2 ^ 32) ∧
    (streak app events < app.maxRestarts.toNat →
      ((x.decision app (budgetAfter app events)).1 = .errored ↔ x.charged app = true ∧
        streak app (events ++ [.exit x]) = app.maxRestarts.toNat)) ∧
    (x.charged app = true → (x.decision app (budgetAfter app events)).1 ≠ .errored →
      ∃ delay, (x.decision app (budgetAfter app events)).1 = .restart delay) ∧
    (x.charged app = false →
      (x.decision app (budgetAfter app events)).2 = budgetAfter app events ∧
      ∀ delay, (x.decision app (budgetAfter app events)).1 ≠ .restart delay) := by
  have hiff : (x.decision app (budgetAfter app events)).1 = .errored ↔ x.charged app = true ∧
      app.maxRestarts.toNat ≤ streak app (events ++ [.exit x]) % 2 ^ 32 := by
    rw [decision_errored_iff]
    refine and_congr_right fun hc => ?_
    rw [← budget_streak, budgetAfter_snoc, after, Exit.decision_charged hc]
  refine ⟨hiff, fun hlt => ?_, fun hc herr => ?_, fun hc => ?_⟩
  · rw [hiff]
    refine and_congr_right fun hc => ?_
    have hmax : app.maxRestarts.toNat < 2 ^ 32 := app.maxRestarts.toNat_lt
    rw [streak_charged hc]
    split
    · rw [Nat.mod_eq_of_lt (by omega)]
      omega
    · rw [Nat.zero_mod]
      omega
  · rw [Exit.decision_charged hc] at herr ⊢
    split at herr
    · exact absurd rfl herr
    · next hex => exact ⟨_, if_neg hex⟩
  · obtain ⟨hb, hd | hd⟩ := Exit.decision_uncharged (b := budgetAfter app events) hc <;>
      exact ⟨hb, by simp [hd]⟩

/-- The exit that errs is charged as well: it does not restart, and the
budget is no longer what it was. -/
theorem budget_charged_at_limit : ∃ (app : AppConfig) (x : Exit) (b : RestartBudget),
    (∀ delay, (x.decision app b).1 ≠ .restart delay) ∧ (x.decision app b).2 ≠ b := by
  refine ⟨{ maxRestarts := 1 }, ⟨0, ⟨some 1, none⟩, false, false⟩, {}, fun delay h => ?_, by decide⟩
  have herr : (Exit.decision { maxRestarts := 1 } ⟨0, ⟨some 1, none⟩, false, false⟩ {}).1 = .errored := by
    decide
  rw [herr] at h
  cases h

end Restart

end Shep

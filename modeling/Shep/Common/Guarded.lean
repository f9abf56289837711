import Shep.Common.Run

/-!
# Machines that may refuse an event

A machine whose next state is there only where the event can happen. Its
steps are `Acts`, its runs from a list of events are driven by `advance`,
and a history is a run of it exactly if no event was refused.
-/

namespace Shep

variable {σ ε : Type*}

section Guarded

variable (act : σ → ε → Option σ)

/-- A step: the event is not refused. -/
def Acts (s : σ) (e : ε) (s' : σ) : Prop := act s e = some s'

/-- The next state, a refused event passed over. -/
def advance (s : σ) (e : ε) : σ := (act s e).getD s

/-- An event is not refused. -/
def Taken (s : σ) (e : ε) : Prop := (act s e).isSome = true

instance (s : σ) (e : ε) : Decidable (Taken act s e) := inferInstanceAs (Decidable (_ = true))

variable {act} {s : σ} {events : List ε}

theorem Taken.acts {e : ε} (h : Taken act s e) : Acts act s e (advance act s e) := by
  obtain ⟨t, ht⟩ := Option.isSome_iff_exists.1 h
  simp [Acts, advance, ht]

/-- Events none of which is refused are a run. -/
theorem Drives.acts (hd : Drives (advance act) (Taken act) s events) :
    Run (Acts act) s (logged (advance act) s events) (drive (advance act) s events) :=
  hd.run fun _ _ h => h.acts

end Guarded

/-- **The invariant rule for a list of events.** What every event meeting
`C` preserves holds at the end of them all. -/
theorem Drives.keeps {next : σ → ε → σ} {C : σ → ε → Prop} {P : σ → Prop} {s : σ}
    {events : List ε} (hd : Drives next C s events)
    (hstep : ∀ s e, P s → C s e → P (next s e)) (h : P s) : P (drive next s events) := by
  induction events generalizing s with
  | nil => exact h
  | cons e events ih => exact ih hd.2 (hstep s e h hd.1)

end Shep

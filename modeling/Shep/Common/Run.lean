import Mathlib.Logic.Relation

/-!
# Runs of a labelled machine

A machine is a relation `step s e s'`: from `s` the event `e` leads to
`s'`. `Run` is its finite runs, with the history of the states it left and
the events it left them on, so that a condition on single steps can be
asked of every step of a run. `Run.invariant` is the rule the safety
results use; `micro_invariant` is its counterpart for one step written as
a sequence of smaller moves. `Drives` writes a run of a machine that
computes its next state as the list of its events.
-/

namespace Shep

variable {σ ε : Type*}

/-- A run from one state to another. The history lists, oldest first, the
state each step left and the event it left it on. -/
inductive Run (step : σ → ε → σ → Prop) : σ → List (σ × ε) → σ → Prop
  | nil (s : σ) : Run step s [] s
  | snoc {s t u : σ} {h : List (σ × ε)} {e : ε} :
      Run step s h t → step t e u → Run step s (h ++ [(t, e)]) u

/-- Every step of a history meets `C`. -/
def Meets (C : σ → ε → Prop) (h : List (σ × ε)) : Prop := ∀ p ∈ h, C p.1 p.2

variable {step : σ → ε → σ → Prop} {C : σ → ε → Prop} {s t u : σ} {h h' : List (σ × ε)}

theorem Meets.init {p : σ × ε} (hC : Meets C (h ++ [p])) : Meets C h :=
  fun q hq => hC q (List.mem_append_left _ hq)

theorem Meets.last {p : σ × ε} (hC : Meets C (h ++ [p])) : C p.1 p.2 :=
  hC p (List.mem_append_right _ (List.mem_singleton_self p))

/-- A history with one more step. -/
theorem meets_snoc {p : σ × ε} : Meets C (h ++ [p]) ↔ Meets C h ∧ C p.1 p.2 := by
  refine ⟨fun hC => ⟨hC.init, hC.last⟩, fun ⟨hC, hp⟩ q hq => ?_⟩
  rcases List.mem_append.1 hq with hq | hq
  · exact hC q hq
  · rw [List.mem_singleton.1 hq]
    exact hp

/-- A condition met by every step of two histories is met by every step of
both in a row. -/
theorem Meets.append (hC : Meets C h) (hC' : Meets C h') : Meets C (h ++ h') := by
  intro p hp
  rcases List.mem_append.1 hp with hp | hp
  · exact hC p hp
  · exact hC' p hp

/-- Every history meets the condition that asks nothing. -/
theorem meets_true : Meets (fun (_ : σ) (_ : ε) => True) h := fun _ _ => trivial

namespace Run

/-- Two runs in a row. -/
theorem append (hr : Run step s h t) (hr' : Run step t h' u) : Run step s (h ++ h') u := by
  induction hr' with
  | nil => simpa using hr
  | snoc _ hstep ih => simpa using ih.snoc hstep

/-- **The invariant rule.** What holds at the start and is preserved by
every step meeting `C` holds at the end of every run whose steps meet
`C`. -/
theorem invariant {P : σ → Prop} (hr : Run step s h t) (hC : Meets C h) (h0 : P s)
    (hstep : ∀ s e s', P s → C s e → step s e s' → P s') : P t := by
  induction hr with
  | nil => exact h0
  | snoc _ hs ih => exact hstep _ _ _ (ih hC.init) hC.last hs

end Run

/-! ## The moments since an event -/

section Since

variable (begins : ε → Prop) [DecidablePred begins]

/-- The states a run has been in since its latest event of a kind, the
present one first. -/
def since (h : List (σ × ε)) (t : σ) : List σ :=
  t :: (h.reverse.takeWhile fun p => ¬ begins p.2).map Prod.fst

variable {begins}

theorem mem_since : t ∈ since begins h t := List.mem_cons_self

/-- An event that is not the beginning adds a moment. -/
theorem since_snoc {e : ε} (he : ¬ begins e) :
    since begins (h ++ [(t, e)]) u = u :: since begins h t := by
  simp [since, he]

end Since

/-! ## Runs of a machine that computes its next state -/

section Driven

variable (next : σ → ε → σ)

/-- The state a list of events leads to. -/
def drive (s : σ) : List ε → σ
  | [] => s
  | e :: events => drive (next s e) events

/-- The states the events find. -/
def logged (s : σ) : List ε → List (σ × ε)
  | [] => []
  | e :: events => (s, e) :: logged (next s e) events

/-- Every event finds a state that meets `P`. -/
def Drives (P : σ → ε → Prop) (s : σ) : List ε → Prop
  | [] => True
  | e :: events => P s e ∧ Drives P (next s e) events

instance Drives.decidable (P : σ → ε → Prop) [∀ s e, Decidable (P s e)] (s : σ) :
    (events : List ε) → Decidable (Drives next P s events)
  | [] => isTrue trivial
  | e :: events =>
    have : Decidable (Drives next P (next s e) events) := Drives.decidable P _ events
    inferInstanceAs (Decidable (P s e ∧ _))

variable {next} {P : σ → ε → Prop} {events : List ε}

/-- Events that each find a state they can be taken in are a run. -/
theorem Drives.run (hd : Drives next P s events) (hP : ∀ s e, P s e → step s e (next s e)) :
    Run step s (logged next s events) (drive next s events) := by
  induction events generalizing s with
  | nil => exact .nil s
  | cons e events ih =>
    have hone : Run step s [(s, e)] (next s e) := .snoc (.nil s) (hP s e hd.1)
    exact hone.append (ih hd.2)

/-- What every event finds is met by the whole history. -/
theorem Drives.meets (hd : Drives next P s events) (hC : ∀ s e, P s e → C s e) :
    Meets C (logged next s events) := by
  induction events generalizing s with
  | nil => simp [Meets, logged]
  | cons e events ih =>
    intro p hp
    rcases List.mem_cons.1 hp with rfl | hp
    · exact hC _ _ hd.1
    · exact ih hd.2 p hp

end Driven

/-- What every move preserves, a sequence of moves preserves. -/
theorem micro_invariant {move : σ → σ → Prop} {P : σ → Prop}
    (hmove : ∀ x y, P x → move x y → P y) (hxy : Relation.ReflTransGen move s t) (h0 : P s) :
    P t := by
  induction hxy with
  | refl => exact h0
  | tail _ hm ih => exact hmove _ _ ih hm

end Shep

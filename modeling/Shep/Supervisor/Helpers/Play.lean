import Shep.Supervisor.Helpers.Turning

/-!
# Supervisor — runs written out

A list of messages played from a state, with the test that the loop reads
each of them when its turn comes. `plain` is the world in which everything
a handler asks for is granted; a run over it is closed by evaluation.
-/

namespace Shep

namespace Supervisor

/-- A world that grants everything: every app resolves to the daemon's own
identity, assembles, and spawns under a pid made of its id. -/
def plain : World where
  resolve := fun _ => .ok none
  resolve_none := fun _ _ => rfl
  assemble := fun _ _ => .ok ()
  place := fun _ _ => .ok ()
  preflight := fun _ => .unknown
  spawn := fun id _ => .ok (100 + id)
  attempted := fun app => app.name
  normalize := fun app => .ok app
  normalize_name := by
    rintro c c' h
    rw [Except.ok.inj h]
  normalize_identity := by
    rintro c c' h
    rw [Except.ok.inj h]
    exact ⟨rfl, rfl⟩
  normalize_recount := by
    rintro c c' k j h - -
    rw [← Except.ok.inj h]
    exact ⟨rfl, rfl⟩
  mergeDeclared := fun app _ _ => .ok app
  mergeDeclared_name := by
    rintro c d r c' - h
    rw [Except.ok.inj h]
  mergeDeclared_normal := fun _ => rfl
  needsRespawn := fun app merged => app.user != merged.user || app.group != merged.group
  reachedSpec := fun app _ merged count =>
    .ok { merged with instances := count, user := app.user, group := app.group }
  reachedSpec_name := by
    rintro c i m n c' hn h
    rw [← Except.ok.inj h]
    exact hn.symm
  reachedSpec_identity := by
    rintro c i m n c' h
    rw [← Except.ok.inj h]
    exact ⟨rfl, rfl⟩
  reachedSpec_whole := by
    rintro c m n h
    simp only [Bool.or_eq_false_iff, bne_eq_false_iff_eq] at h
    rw [h.1, h.2]
  editField := fun app _ _ => .ok app
  editField_name := by
    rintro c k v c' h
    rw [Except.ok.inj h]
  reaches := fun _ => true
  unowned := fun _ => none
  templateValue := fun _ value => .ok value
  mutateOverride := fun _ => .ok []
  readOverrides := .ok ()
  writeOverrides := .ok ()
  overriddenAfter := fun _ _ => []
  overriddenOf := fun _ => []
  livenessEpoch := fun _ => 0
  pick := fun ids => ids.headD 0
  pick_mem := by
    intro ids h
    cases ids with
    | nil => exact absurd rfl h
    | cons id ids => exact List.mem_cons_self
  now := 0

/-- A life of an app over `plain`. -/
def life (serial id : ℕ) (app : AppConfig) (via : SpawnVia) : Task :=
  ⟨serial, id, app.name, via, 100 + id, app, none⟩

namespace Actor

/-- The state a list of messages leads to. -/
def play (a : Actor) : List (World × Msg) → Actor
  | [] => a
  | e :: events => (a.turn e.1 e.2).play events

/-- The states the messages find. -/
def history (a : Actor) : List (World × Msg) → List (Actor × World × Msg)
  | [] => []
  | e :: events => (a, e) :: (a.turn e.1 e.2).history events

/-- The loop reads each message when its turn comes. -/
def Playable (a : Actor) : List (World × Msg) → Prop
  | [] => True
  | e :: events => (a.running = true ∧ a.admits e.2) ∧ (a.turn e.1 e.2).Playable events

instance Playable.decidable (a : Actor) : (events : List (World × Msg)) →
    Decidable (a.Playable events)
  | [] => isTrue trivial
  | e :: events =>
    have : Decidable ((a.turn e.1 e.2).Playable events) := Playable.decidable _ events
    inferInstanceAs (Decidable ((a.running = true ∧ a.admits e.2) ∧ _))

theorem Playable.run {a : Actor} {events : List (World × Msg)} (h : a.Playable events) :
    Run Step a (a.history events) (a.play events) := by
  induction events generalizing a with
  | nil => exact .nil a
  | cons e events ih =>
    have hone : Run Step a [(a, e)] (a.turn e.1 e.2) := .snoc (.nil a) ⟨h.1.1, h.1.2, rfl⟩
    exact hone.append (ih h.2)

theorem meets_history {C : Actor → World × Msg → Prop} {events : List (World × Msg)}
    (hC : ∀ e ∈ events, ∀ a, C a e) (a : Actor) : Meets C (a.history events) := by
  induction events generalizing a with
  | nil => simp [Meets, history]
  | cons e events ih =>
    intro p hp
    rcases List.mem_cons.1 hp with rfl | hp
    · exact hC e List.mem_cons_self a
    · exact ih (fun e he => hC e (List.mem_cons_of_mem _ he)) _ p hp

end Actor

/-! ## A reload that overlaps -/

/-- An app behind a probe that can share its port, so that its reloads
overlap and are probed again after the drain. -/
def probed : AppConfig :=
  { name := "web", reusePort := true, readinessProbe := some "http://127.0.0.1:8080/" }

/-- Both instances serve, and the old one has been asked to go. -/
def overlapping : List (World × Msg) :=
  [(plain, .command (.start [probed] .allOrNothing [])),
    (plain, .readyResult ⟨0, 0, true⟩ .ready),
    (plain, .command (.reload .all)),
    (plain, .readyResult ⟨1, 0, true⟩ .ready)]

/-- The drained instance exits, and the replacement is probed again. -/
def drained : World × Msg := (plain, .exited (life 0 0 probed .fresh) ⟨some 0, none⟩ false)

/-- The replacement crashes and comes back before the drain is over, so
that it is no longer marked as one when it is probed. -/
def reprobed : List (World × Msg) :=
  overlapping ++
    [(plain, .exited (life 1 1 probed .replacement) ⟨some 1, none⟩ false),
      (plain, .restartDue ⟨0, 1, 0, some 100⟩),
      (plain, .readyResult ⟨1, 1, false⟩ .ready), drained]

/-- The exit of the replacement that came back. -/
def reprobedExit : World × Msg := (plain, .exited (life 2 1 probed .respawn) ⟨some 0, none⟩ false)

end Supervisor

end Shep

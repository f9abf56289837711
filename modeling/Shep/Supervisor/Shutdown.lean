import Shep.Supervisor.Helpers.Down
import Shep.Supervisor.Helpers.Play

/-!
# Supervisor — shutdown

Once a shutdown has begun, no message starts a process, and the reply that
ends it goes out with nothing running: **`shutdown_safe`**, over every run
in which no scale-up lands behind the shutdown. A scale is the one command
that spawns and does not ask whether the flock is on its way down, and
**`shutdown_outrun`** is the run it leads to.
-/

namespace Shep

namespace Supervisor

theorem closing_init (dogBinaries : List (String × String)) :
    Closing .none (Actor.init dogBinaries) :=
  ⟨by simp [Actor.init], by simp, by simp [Actor.init], by simp [Actor.init]⟩

/-- A shutdown stays on its way along every run without a scale-up behind
it. -/
theorem closing_run {a b : Actor} {h : List (Actor × World × Msg)} (hr : Run Actor.Step b h a)
    (hC : Meets (fun s e => ¬ Turn.ScalesUpWhileDown ⟨s, e.1, e.2⟩) h) (hb : Inv .none b)
    (h0 : Closing .none b) : Closing .none a :=
  run_keeps (C := fun c => ¬ c.ScalesUpWhileDown) (Q := Closing .none)
    (P := fun _ p => Closing p.hole p.actor) (fun _ _ _ h => h)
    (fun _ _ _ hc hi h hm => hm.closing hc hi h) (fun _ _ h => ⟨h.waits, by simp, h.ended, h.said⟩)
    hr hC hb h0

/-- What a state past a shutdown has kept of an earlier one. -/
def Wanes (b a : Actor) : Prop :=
  a.shuttingDown = true ∧ a.spawnedTasks = b.spawnedTasks ∧ KeepsLive b.sheep a.sheep

theorem wanes_run {a b : Actor} {h : List (Actor × World × Msg)} (hr : Run Actor.Step b h a)
    (hC : Meets (fun s e => ¬ Turn.ScalesUpWhileDown ⟨s, e.1, e.2⟩) h) (hb : Inv .none b)
    (hd : b.shuttingDown = true) : Wanes b a := by
  refine run_keeps (C := fun c => ¬ c.ScalesUpWhileDown) (Q := Wanes b)
    (P := fun _ p => Wanes b p.actor) (fun _ _ _ h => h) ?_ (fun _ _ h => h) hr hC hb
    ⟨hd, rfl, .refl _⟩
  rintro c p q hc hi ⟨hd, hsp, hlive⟩ hm
  obtain ⟨hd', hsp', hlive'⟩ := hm.down hc hi hd
  exact ⟨hd', hsp'.trans hsp, hlive.trans hlive'⟩

/-- **Past a shutdown nothing is spawned, and its reply finds nothing
running**: in every run in which no scale-up is handled while the flock is
on its way down, from any state the shutdown has been handled in. -/
theorem shutdown_safe {dogBinaries : List (String × String)} {h h' : List (Actor × World × Msg)}
    {b a : Actor} (hb : Run Actor.Step (.init dogBinaries) h b) (hdown : b.shuttingDown = true)
    (hr : Run Actor.Step b h' a)
    (hC : Meets (fun s e => ¬ Turn.ScalesUpWhileDown ⟨s, e.1, e.2⟩) (h ++ h')) :
    a.spawnedTasks = b.spawnedTasks ∧
      (∀ (id : ℕ) (s : SheepSlot) (task : ℕ), a.sheep[id]? = some s → s.ctl = some task →
        ∃ t, b.sheep[id]? = some t ∧ t.ctl = some task) ∧
      ∀ tag, .replied tag .shutdown ∈ a.trace →
        ∀ (id : ℕ) (s : SheepSlot), a.sheep[id]? = some s → s.ctl = none := by
  have hC' : Meets (fun s e => ¬ Turn.ScalesUpWhileDown ⟨s, e.1, e.2⟩) h' :=
    fun p hp => hC p (List.mem_append_right _ hp)
  obtain ⟨-, hspawned, hlive⟩ := wanes_run hr hC' (Actor.reachable_inv hb) hdown
  have hclosing := closing_run (hb.append hr) hC (Actor.inv_init dogBinaries)
    (closing_init dogBinaries)
  exact ⟨hspawned, hlive, fun tag htag => (hclosing.ended (hclosing.said tag htag)).2⟩

/-- One running instance of `web`, and a shutdown waiting for it. -/
def closingDown : List (World × Msg) :=
  [(plain, .command (.start [{ name := "web" }] .allOrNothing [])), (plain, .command .shutdown)]

/-- The instance exits. -/
def lastExit : List (World × Msg) :=
  [(plain, .exited (life 0 0 { name := "web" } .fresh) ⟨none, some 15⟩ false)]

theorem shutdown_safe_web :
    (((Actor.init []).play closingDown).play lastExit).spawnedTasks =
      ((Actor.init []).play closingDown).spawnedTasks := by
  have hplay : (Actor.init []).Playable closingDown := by decide +kernel
  have hplay' : ((Actor.init []).play closingDown).Playable lastExit := by decide +kernel
  refine (shutdown_safe hplay.run (by decide +kernel) hplay'.run (Meets.append ?_ ?_)).1
  · exact Actor.meets_history (by simp [closingDown, Turn.ScalesUpWhileDown]) _
  · exact Actor.meets_history (by simp [lastExit, Turn.ScalesUpWhileDown]) _

/-- The effect is the shutdown's reply to one tag. -/
def Effect.saysDown (tag : ℕ) : Effect → Bool
  | .replied t .shutdown => t = tag
  | _ => false

theorem Effect.saysDown_iff {tag : ℕ} {e : Effect} :
    e.saysDown tag = true ↔ e = .replied tag .shutdown := by
  cases e with
  | replied t answer => cases answer <;> simp [saysDown]
  | _ => simp [saysDown]

/-- **A scale lands behind the shutdown.** It spawns a second instance, and
the shutdown's reply, which waits for the first alone, goes out with the
second running. -/
theorem shutdown_outrun : ∃ (h h' : List (Actor × World × Msg)) (b a : Actor) (tag : ℕ),
    Run Actor.Step (.init []) h b ∧ b.shuttingDown = true ∧ Run Actor.Step b h' a ∧
      a.spawnedTasks ≠ b.spawnedTasks ∧ .replied tag .shutdown ∈ a.trace ∧
      a.isRunning 1 = true := by
  have hplay : (Actor.init []).Playable closingDown := by decide +kernel
  have hplay' : ((Actor.init []).play closingDown).Playable
      ((plain, .command (.scale "web" 2)) :: lastExit) := by decide +kernel
  refine ⟨_, _, _, _, 1, hplay.run, by decide +kernel, hplay'.run, by decide +kernel, ?_,
    by decide +kernel⟩
  have hsaid : (((Actor.init []).play closingDown).play
      ((plain, .command (.scale "web" 2)) :: lastExit)).trace.any (Effect.saysDown 1) = true := by
    decide +kernel
  obtain ⟨e, he, hp⟩ := List.any_eq_true.1 hsaid
  exact Effect.saysDown_iff.1 hp ▸ he

end Supervisor

end Shep

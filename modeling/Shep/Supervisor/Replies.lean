import Shep.Supervisor.Helpers.Ledger
import Shep.Supervisor.Shutdown

/-!
# Supervisor — deferred replies

A command that reaches running sheep is answered when they have exited.
**`replies_settle`**: what a parked reply waits for is always there to
exit, it is answered once and not before the last life it waited for has
ended, and none is left behind when the loop ends. This holds in every run
in which no scale-up lands behind a shutdown and no probe is answered for
a replacement that is gone; **`reply_lost`** is a run of the first kind.
-/

namespace Shep

namespace Supervisor

theorem ledger_init (dogBinaries : List (String × String)) :
    Ledger .none (Actor.init dogBinaries) :=
  ⟨by simp [Actor.init, Actor.hasExited], by simp [Actor.init], by simp [Actor.init, Actor.repliesTo],
    by simp [Actor.init]⟩

theorem ledger_run {dogBinaries : List (String × String)} {h : List (Actor × World × Msg)}
    {a : Actor} (hr : Run Actor.Step (.init dogBinaries) h a) : Ledger .none a := by
  refine run_keeps (C := fun _ => True) (Q := Ledger .none)
    (P := fun _ p => Ledger p.hole p.actor) (fun _ _ _ h => h) (fun _ _ _ _ hi h hm => hm.ledger hi h)
    ?_ hr (fun _ _ => trivial) (Actor.inv_init dogBinaries) (ledger_init dogBinaries)
  exact fun _ _ h => h.step (.refl _) (.refl _) rfl rfl le_rfl fun _ ht => Or.inl ht

/-- The turns that may cut a parked reply off: the flock is scaled up
behind a shutdown, or a probe's answer finds its replacement gone. -/
def Turn.CutsOff (c : Turn) : Prop := c.ScalesUpWhileDown ∨ c.VerifiesGone

theorem Move.unpanicked {c : Turn} {p q : Point} (hm : Move c p q) (hc : ¬ c.VerifiesGone)
    (h : p.actor.panicked = none) : q.actor.panicked = none := by
  cases hm with
  | panic message hv => exact absurd hv hc
  | resolve info _ _ =>
    rw [Actor.resolvePending_eq]
    exact h
  | _ => exact h

theorem unpanicked_run {dogBinaries : List (String × String)} {h : List (Actor × World × Msg)}
    {a : Actor} (hr : Run Actor.Step (.init dogBinaries) h a)
    (hC : Meets (fun s e => ¬ Turn.VerifiesGone ⟨s, e.1, e.2⟩) h) : a.panicked = none :=
  run_keeps (C := fun c => ¬ c.VerifiesGone) (Q := fun a => a.panicked = none)
    (P := fun _ p => p.actor.panicked = none) (fun _ _ _ h => h)
    (fun _ _ _ hc _ h hm => hm.unpanicked hc h) (fun _ _ h => h) hr hC
    (Actor.inv_init dogBinaries) rfl

theorem Unanswered.waiting {a : Actor} {tasks : List ℕ} {p : PendingReply}
    (h : Unanswered .none a tasks p) (hi : Inv .none a) (hl : Ledger .none a) :
    tasks.all a.hasExited = false := by
  obtain ⟨id, hid⟩ := List.exists_mem_of_ne_nil _ (hi.replies.waiting p h.mem).1
  obtain ⟨s, k, hs, hctl, hk⟩ := h.named id hid (Hole.none_spares id)
  obtain ⟨t, ht, rfl, -⟩ := hi.tasks.running id s k hs hctl
  rw [List.all_eq_false]
  exact ⟨t.serial, hk, by simp [hl.unexited t ht]⟩

/-- **Deferred replies are neither lost nor sent twice.** Every id a parked
reply waits for is running; a reply is parked on some life, and answered
once when every life it was parked on has ended and not before; and the
loop ends with no reply parked: in every run in which no turn cuts one
off. -/
theorem replies_settle {dogBinaries : List (String × String)} {h : List (Actor × World × Msg)}
    {a : Actor} (hr : Run Actor.Step (.init dogBinaries) h a)
    (hC : Meets (fun s e => ¬ Turn.CutsOff ⟨s, e.1, e.2⟩) h) :
    (∀ p ∈ a.pending, p.remaining ≠ [] ∧
      ∀ id ∈ p.remaining, ∃ s, a.sheep[id]? = some s ∧ s.ctl.isSome = true) ∧
    (∀ tag tasks, .parked tag tasks ∈ a.trace → tasks ≠ [] ∧
      a.repliesTo tag = if tasks.all a.hasExited then 1 else 0) ∧
    (a.running = false → a.pending = []) := by
  have hi := Actor.reachable_inv hr
  have hl := ledger_run hr
  have hlive : ∀ p ∈ a.pending, p.remaining ≠ [] ∧
      ∀ id ∈ p.remaining, ∃ s, a.sheep[id]? = some s ∧ s.ctl.isSome = true := by
    intro p hp
    obtain ⟨hne, hall⟩ := hi.replies.waiting p hp
    exact ⟨hne, fun id hid => (hall id hid).resolve_right (by simp)⟩
  refine ⟨hlive, fun tag tasks hp => ?_, fun hstopped => ?_⟩
  · obtain ⟨-, hne, ⟨p, rfl, hu⟩ | hd⟩ := hl.booked tag tasks hp
    · exact ⟨hne, by simp [hu.unsent, hu.waiting hi hl]⟩
    · have hall : tasks.all a.hasExited = true := List.all_eq_true.2 hd.ended
      exact ⟨hne, by simp [hd.once, hall]⟩
  · -- the loop ends on a shutdown's word, with nothing running
    have hpan := unpanicked_run hr fun p hp hv => hC p hp (Or.inr hv)
    have hdone : a.done = true := by simpa [Actor.running, hpan] using hstopped
    have hidle := ((closing_run hr (fun p hp hs => hC p hp (Or.inl hs))
      (Actor.inv_init dogBinaries) (closing_init dogBinaries)).ended hdone).2
    refine List.eq_nil_iff_forall_not_mem.2 fun p hp => ?_
    obtain ⟨hne, hall⟩ := hlive p hp
    obtain ⟨id, hid⟩ := List.exists_mem_of_ne_nil _ hne
    obtain ⟨s, hs, hctl⟩ := hall id hid
    simp [hidle id s hs] at hctl

/-- The effect parks one reply on some lives. -/
def Effect.parks (tag : ℕ) (tasks : List ℕ) : Effect → Bool
  | .parked t lives => t = tag ∧ lives = tasks
  | _ => false

theorem Effect.parks_iff {tag : ℕ} {tasks : List ℕ} {e : Effect} :
    e.parks tag tasks = true ↔ e = .parked tag tasks := by
  cases e <;> simp [parks]

/-- The shutdown of one running instance is answered once, at its exit. -/
theorem replies_settle_web :
    ((Actor.init []).play (closingDown ++ lastExit)).repliesTo 1 = 1 := by
  have hplay : (Actor.init []).Playable (closingDown ++ lastExit) := by decide +kernel
  have hparked : .parked 1 [0] ∈ ((Actor.init []).play (closingDown ++ lastExit)).trace := by
    have hany : ((Actor.init []).play (closingDown ++ lastExit)).trace.any
        (Effect.parks 1 [0]) = true := by decide +kernel
    obtain ⟨e, he, hp⟩ := List.any_eq_true.1 hany
    exact Effect.parks_iff.1 hp ▸ he
  refine ((replies_settle hplay.run (Actor.meets_history ?_ _)).2.1 1 [0] hparked).2.trans ?_
  · simp [closingDown, lastExit, Turn.CutsOff, Turn.ScalesUpWhileDown, Turn.VerifiesGone,
      Turn.Verifies]
  · exact if_pos (by decide +kernel)

theorem Actor.halted {a b : Actor} {h : List (Actor × World × Msg)} (hr : Run Actor.Step a h b)
    (ha : a.running = false) : b = a := by
  induction hr with
  | nil => rfl
  | snoc _ hstep ih =>
    rw [ih] at hstep
    exact absurd (hstep.1.symm.trans ha) (by simp)

/-- **A reply that is never sent.** Behind the shutdown the app is scaled
up and stopped; the exit of its first instance ends the loop, and the
stop, parked on both, is not answered in any state the run goes on to. -/
theorem reply_lost : ∃ (h : List (Actor × World × Msg)) (a : Actor) (tag : ℕ) (tasks : List ℕ),
    Run Actor.Step (.init []) h a ∧ .parked tag tasks ∈ a.trace ∧
      ∀ (h' : List (Actor × World × Msg)) (b : Actor), Run Actor.Step a h' b →
        b.repliesTo tag = 0 := by
  have hplay : (Actor.init []).Playable (closingDown ++
      (plain, .command (.scale "web" 2)) :: (plain, .command (.stop .all)) :: lastExit) := by
    decide +kernel
  have hany : ((Actor.init []).play (closingDown ++ (plain, .command (.scale "web" 2)) ::
      (plain, .command (.stop .all)) :: lastExit)).trace.any (Effect.parks 3 [0, 1]) = true := by
    decide +kernel
  obtain ⟨e, he, hp⟩ := List.any_eq_true.1 hany
  have hparked := Effect.parks_iff.1 hp ▸ he
  refine ⟨_, _, 3, [0, 1], hplay.run, hparked, fun h' b hr => ?_⟩
  rw [Actor.halted hr (by decide +kernel)]
  decide +kernel

end Supervisor

end Shep

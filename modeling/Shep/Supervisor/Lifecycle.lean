import Shep.Supervisor.Helpers.Play
import Shep.Supervisor.Helpers.Settled

/-!
# Supervisor — what a slot shows and what it holds

A slot's status, pid, start time and control handle are written one by one
by some twenty handlers. **`lifecycle_consistent`** says they agree, and
that only a running sheep is claimed or waits to be deleted, in every state
of every run whose post-drain probes never time out for a replacement that
has no process. **`lifecycle_inconsistent`** is a run with such a probe.
-/

namespace Shep

namespace Supervisor

/-- Status, pid, start time and handle tell the same story, and only a
running sheep has its exit claimed. -/
structure SheepSlot.Consistent (s : SheepSlot) : Prop where
  pid : s.ctl.isSome = true ↔ s.entry.pid.isSome = true
  startedAt : s.entry.pid.isSome = true ↔ s.entry.startedAt.isSome = true
  status : s.entry.startedAt.isSome = true ↔
    s.entry.status = .starting ∨ s.entry.status = .online ∨ s.entry.status = .stopping
  manual : s.manual.isSome = true → s.ctl.isSome = true
  pendingDelete : s.pendingDelete = true → s.ctl.isSome = true

/-- A well-formed slot is consistent once it idles when it has no process. -/
theorem SheepSlot.WellFormed.consistent {s : SheepSlot} {id : ℕ} (h : s.WellFormed)
    (hidle : s.ctl = none → s.Idles .none id) : s.Consistent where
  pid := by rw [h.pid]
  startedAt := by rw [h.pid, h.startedAt]
  status := by
    rw [h.startedAt]
    refine ⟨h.status, fun hst => ?_⟩
    cases hc : s.ctl with
    | some t => rfl
    | none =>
      -- at rest, none of the three
      have hrest := (hidle hc).status (Hole.none_spares id)
      rcases hst with e | e | e <;> simp [ProcStatus.Rests, e] at hrest
  manual := by
    intro hm
    cases hc : s.ctl with
    | some t => rfl
    | none => simp [(hidle hc).manual] at hm
  pendingDelete := fun hd => (h.doomed hd).2

/-- **Every slot is consistent**, in every state of a run whose probes do
not time out for a replacement with no process. -/
theorem lifecycle_consistent {dogBinaries : List (String × String)}
    {h : List (Actor × World × Msg)} {a : Actor} (hr : Run Actor.Step (.init dogBinaries) h a)
    (hC : Meets (fun s e => ¬ Turn.DemotesDead ⟨s, e.1, e.2⟩) h) :
    ∀ (id : ℕ) (s : SheepSlot), a.sheep[id]? = some s → s.Consistent := by
  intro id s hs
  have hinv := Actor.reachable_inv hr
  have hset := settled_run hr hC (Actor.inv_init dogBinaries) (settled_init dogBinaries)
  exact (hinv.wellFormed hs).consistent (hset.idle id s hs)

/-- The replacement that came back is stopped while the probe is out, and
the probe times out. -/
def probedDead : List (World × Msg) :=
  reprobed ++
    [(plain, .command (.stop .all)), reprobedExit, (plain, .reloadVerified ⟨"web", 1⟩ .timedOut)]

theorem probedDead_slot : ((Actor.init []).play probedDead).sheep[1]?.map
    (fun s => (s.ctl, s.entry.status)) = some (none, .starting) := by
  decide +kernel

/-- **A stopped sheep that shows `Starting`.** -/
theorem lifecycle_inconsistent : ∃ (h : List (Actor × World × Msg)) (a : Actor) (id : ℕ)
    (s : SheepSlot), Run Actor.Step (.init []) h a ∧ a.sheep[id]? = some s ∧ ¬ s.Consistent := by
  have hplay : (Actor.init []).Playable probedDead := by decide +kernel
  obtain ⟨s, hs, he⟩ := Option.map_eq_some_iff.1 probedDead_slot
  obtain ⟨hctl, hst⟩ := Prod.mk.inj he
  refine ⟨_, _, 1, s, hplay.run, hs, fun hcon => ?_⟩
  have hlive := hcon.pid.2 (hcon.startedAt.2 (hcon.status.2 (Or.inl hst)))
  simp [hctl] at hlive

/-- The overlapping reload, up to its drain, leaves both slots consistent. -/
theorem lifecycle_consistent_overlapping : ∃ s s' : SheepSlot,
    ((Actor.init []).play overlapping).sheep[0]? = some s ∧ s.Consistent ∧
      ((Actor.init []).play overlapping).sheep[1]? = some s' ∧ s'.Consistent := by
  have hplay : (Actor.init []).Playable overlapping := by decide +kernel
  have hall := lifecycle_consistent hplay.run (Actor.meets_history (by
    simp [overlapping, Turn.DemotesDead, Turn.Verifies]) _)
  have hslots : (((Actor.init []).play overlapping).sheep[0]?).isSome = true ∧
      (((Actor.init []).play overlapping).sheep[1]?).isSome = true := by decide +kernel
  obtain ⟨s, hs⟩ := Option.isSome_iff_exists.1 hslots.1
  obtain ⟨s', hs'⟩ := Option.isSome_iff_exists.1 hslots.2
  exact ⟨s, s', hs, hall 0 s hs, hs', hall 1 s' hs'⟩

end Supervisor

end Shep

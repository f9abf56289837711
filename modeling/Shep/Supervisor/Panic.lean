import Shep.Supervisor.Helpers.Play

/-!
# Supervisor — the lookups of a reload

The reload handlers look slots up by the ids their job holds, with
`expect`. **`reload_never_panics`** says every such lookup finds its slot,
and no debug assertion fails, in every run in which no replacement a job
still names is deregistered and none exits while it serves in the place of
an instance already reaped. **`reload_panics`** has a run for each.
-/

namespace Shep

namespace Supervisor

/-- Every job past its first drain names a registered replacement. -/
def Named (sheep : Std.ExtTreeMap ℕ SheepSlot) (reloads : Std.ExtTreeMap String ReloadJob) :
    Prop :=
  ∀ (n : String) (job : ReloadJob) (id : ℕ), reloads[n]? = some job →
    job.swap.newId = some id → (sheep[id]?).isSome = true

namespace Named

variable {sheep : Std.ExtTreeMap ℕ SheepSlot} {reloads : Std.ExtTreeMap String ReloadJob}
variable {id : ℕ} {s : SheepSlot} {n : String} {job : ReloadJob}

theorem insert (h : Named sheep reloads) : Named (sheep.insert id s) reloads := by
  intro m job j hj hnew
  rw [Table.get_insert]
  split
  · rfl
  · exact h m job j hj hnew

theorem erase (h : Named sheep reloads)
    (hid : ∀ (n : String) (job : ReloadJob), reloads[n]? = some job → job.swap.newId ≠ some id) :
    Named (sheep.erase id) reloads := by
  intro m job j hj hnew
  rw [Table.get_erase, if_neg]
  · exact h m job j hj hnew
  · rintro rfl
    exact hid m job hj hnew

theorem map (h : Named sheep reloads) (f : SheepSlot → SheepSlot) :
    Named (sheep.map fun _ s => f s) reloads := by
  intro m job j hj hnew
  simpa using h m job j hj hnew

theorem drop (h : Named sheep reloads) (n : String) : Named sheep (reloads.erase n) := by
  intro m job j hj hnew
  obtain ⟨-, hj⟩ := Table.of_erase hj
  exact h m job j hj hnew

theorem put (h : Named sheep reloads)
    (hjob : ∀ id, job.swap.newId = some id → (sheep[id]?).isSome = true) :
    Named sheep (reloads.insert n job) := by
  intro m job' j hj hnew
  rcases Table.of_insert hj with ⟨-, rfl⟩ | ⟨-, hj⟩
  · exact hjob j hnew
  · exact h m job' j hj hnew

end Named

/-- No handler has failed: every job's replacement is registered, the loop
has not panicked, and no assertion is on record. -/
structure Sound (a : Actor) : Prop where
  named : Named a.sheep a.reloads
  alive : a.panicked = none
  asserted : ∀ message, .assertFailed message ∉ a.trace

theorem Sound.step {a b : Actor} (h : Sound a) (hnamed : Named b.sheep b.reloads)
    (halive : b.panicked = a.panicked)
    (htrace : ∀ message, .assertFailed message ∈ b.trace → .assertFailed message ∈ a.trace) :
    Sound b :=
  ⟨hnamed, halive.trans h.alive, fun message hm => h.asserted message (htrace message hm)⟩

/-- **A move keeps every lookup sound**, in a turn that drops no job's
replacement, loses none that serves, and probes none that is gone. -/
theorem Move.sound {c : Turn} {p q : Point} (hm : Move c p q)
    (hdrop : ∀ id, ¬ c.DropsReplacement id) (hserving : ¬ c.ExitsServing)
    (hgone : ¬ c.VerifiesGone) (h : Sound p.actor) : Sound q.actor := by
  have hn := h.named
  cases hm with
  | quiet | bump | disable | enable | expire | fire | honour | unwatch =>
    exact h.step hn rfl fun _ hm => hm
  | hear | drains | answer | park | halt =>
    exact h.step hn rfl fun _ hm => (List.mem_cons.1 hm).resolve_left (by simp)
  | edit | rest | register | reseat | doom | putBack | scratch | unmark | online | parkFailed |
    demote => exact h.step hn.insert rfl fun _ hm => hm
  | backOff | launch | reseatLive | relaunch | displace | exit =>
    exact h.step hn.insert rfl fun _ hm => (List.mem_cons.1 hm).resolve_left (by simp)
  | @claim x a id s m cap _ _ _ _ _ =>
    refine h.step hn.insert rfl fun _ hm => ?_
    cases hk : s.ctl <;> simpa [hk] using hm
  | editAll | remarkStop | remarkRestart => exact h.step (hn.map _) rfl fun _ hm => hm
  | @deregister x a id s hs _ hwhy =>
    refine h.step (hn.erase fun n job hj hnew => ?_) rfl fun _ hm => hm
    exact hdrop id (hwhy ⟨n, job, hj, hnew⟩)
  | resolve info _ _ =>
    rw [Actor.resolvePending_eq]
    refine h.step hn rfl fun _ hm => ?_
    simpa [Actor.repliedWith] using hm
  | beginOverlap | serialSpawn =>
    refine h.step ((hn.insert).insert.put fun id hid => ?_) rfl
      fun _ hm => (List.mem_cons.1 hm).resolve_left (by simp)
    simp only [Option.some.injEq] at hid
    simp [← hid]
  | beginSerial => exact h.step (hn.insert.put (by simp)) rfl fun _ hm => hm
  | commit hj _ _ _ | verify hj _ _ _ _ _ =>
    exact h.step (hn.put fun id hid => hn _ _ id hj hid) rfl fun _ hm => hm
  | drop n _ => exact h.step (hn.drop n) rfl fun _ hm => hm
  | restore | lapse => exact h.step (hn.insert.drop _) rfl fun _ hm => hm
  | shutdown => exact h.step (by simp [Named]) rfl fun _ hm => hm
  | panic message hv => exact absurd hv hgone
  | assertFail message hs => exact absurd hs hserving

/-- The turns no lookup survives: a job's replacement is dropped, or one
exits that serves for an instance already gone. -/
def Turn.Unseats (c : Turn) : Prop := (∃ id, c.DropsReplacement id) ∨ c.ExitsServing

/-- **No reload handler panics and no assertion fails**, and every job
names a registered replacement, in every state of a run in which no turn
unseats one. -/
theorem reload_never_panics {dogBinaries : List (String × String)}
    {h : List (Actor × World × Msg)} {a : Actor} (hr : Run Actor.Step (.init dogBinaries) h a)
    (hC : Meets (fun s e => ¬ Turn.Unseats ⟨s, e.1, e.2⟩) h) :
    a.panicked = none ∧ (∀ message, .assertFailed message ∉ a.trace) ∧
      ∀ (n : String) (job : ReloadJob), a.reloads[n]? = some job →
        job.swap.phase ≠ .drainFirst →
        ∃ id, job.swap.newId = some id ∧ (a.sheep[id]?).isSome = true := by
  have h0 : Sound (Actor.init dogBinaries) :=
    ⟨by simp [Named, Actor.init], rfl, by simp [Actor.init]⟩
  have hsound : Sound a := by
    refine run_keeps (C := fun c => ¬ c.Unseats) (Q := Sound)
      (P := fun c p => ¬ c.VerifiesGone ∧ Sound p.actor) ?_ ?_ (fun _ _ h => ?_) hr hC
      (Actor.inv_init dogBinaries) h0
    · rintro c - - hs
      refine ⟨?_, hs⟩
      rintro ⟨v, readiness, ⟨-, job, hj, hnew, -⟩, hnone⟩
      have hsome := hs.named v.name job v.newId hj hnew
      simp [hnone] at hsome
    · rintro c p q hc - ⟨hv, hs⟩ hm
      exact ⟨hv, hm.sound (fun id hd => hc (Or.inl ⟨id, hd⟩)) (fun he => hc (Or.inr he)) hv hs⟩
    · exact ⟨h.2.named, h.2.alive, h.2.asserted⟩
  refine ⟨hsound.alive, hsound.asserted, fun n job hj hphase => ?_⟩
  cases hnew : job.swap.newId with
  | none => exact absurd (((Actor.reachable_inv hr).jobs n job hj).phase.1 hnew) hphase
  | some id => exact ⟨id, rfl, hsound.named n job id hj hnew⟩

/-- The overlapping reload, in its drain, names a registered replacement. -/
theorem reload_never_panics_overlapping : ∃ job : ReloadJob,
    ((Actor.init []).play overlapping).reloads["web"]? = some job ∧
      ∃ id, job.swap.newId = some id ∧
        (((Actor.init []).play overlapping).sheep[id]?).isSome = true := by
  have hplay : (Actor.init []).Playable overlapping := by decide +kernel
  have hphase : ((Actor.init []).play overlapping).reloads["web"]?.map
      (fun job => job.swap.phase) = some .drainOld := by decide +kernel
  obtain ⟨job, hj, hphase⟩ := Option.map_eq_some_iff.1 hphase
  refine ⟨job, hj, (reload_never_panics hplay.run (Actor.meets_history ?_ _)).2.2 "web" job hj ?_⟩
  · simp [overlapping, Turn.Unseats, Turn.DropsReplacement, Turn.ExitsServing]
  · simp [hphase]

/-- **Two runs a lookup does not survive.** In one the replacement that came
back is stopped and deleted while its probe is out, and the probe's answer
panics. In the other the replacement exits while its probe is out, serving
and still marked, and the assertion made on that exit fails. -/
theorem reload_panics :
    (∃ (h : List (Actor × World × Msg)) (a : Actor), Run Actor.Step (.init []) h a ∧
      a.panicked.isSome = true) ∧
    ∃ (h : List (Actor × World × Msg)) (a : Actor) (message : String),
      Run Actor.Step (.init []) h a ∧ .assertFailed message ∈ a.trace := by
  constructor
  · have hplay : (Actor.init []).Playable (reprobed ++ [(plain, .command (.stop .all)),
        reprobedExit, (plain, .command (.delete .all)),
        (plain, .reloadVerified ⟨"web", 1⟩ .ready)]) := by decide +kernel
    exact ⟨_, _, hplay.run, by decide +kernel⟩
  · have hplay : (Actor.init []).Playable (overlapping ++ [drained,
        (plain, .exited (life 1 1 probed .replacement) ⟨some 1, none⟩ false)]) := by decide +kernel
    have hasserted : (((Actor.init []).play (overlapping ++ [drained,
        (plain, .exited (life 1 1 probed .replacement) ⟨some 1, none⟩ false)])).trace.any fun
          | .assertFailed _ => true
          | _ => false) = true := by decide +kernel
    obtain ⟨e, he, hp⟩ := List.any_eq_true.1 hasserted
    split at hp
    · next message => exact ⟨_, _, message, hplay.run, he⟩
    · cases hp

end Supervisor

end Shep

import Shep.Supervisor.Helpers.Spawning

/-!
# Supervisor — manual commands as moves

`claim_manual`, `begin_manual_ids` and `begin_shutdown` written as moves.
A command over several ids takes them one at a time, so `Frame` says what
the handling of one id leaves alone, and `Turn.Allows` what has to hold of
each id before its turn comes: it is stable under the others' frames.
-/

namespace Shep

namespace Supervisor

namespace Actor

/-! ## Frames -/

/-- Everything a write under `id` leaves alone. -/
structure Frame (id : ℕ) (a a' : Actor) : Prop where
  sheep : ∀ j, j ≠ id → a'.sheep[j]? = a.sheep[j]?
  timers : ∀ t ∈ a'.timers, t.id ≠ id → t ∈ a.timers
  reloads : a'.reloads = a.reloads
  disabled : a'.disabled = a.disabled
  down : a'.shuttingDown = a.shuttingDown

namespace Frame

variable {a b c : Actor} {id : ℕ}

theorem refl (id : ℕ) (a : Actor) : Frame id a a :=
  ⟨fun _ _ => rfl, fun _ ht _ => ht, rfl, rfl, rfl⟩

theorem trans (h : Frame id a b) (h' : Frame id b c) : Frame id a c where
  sheep := fun j hj => (h'.sheep j hj).trans (h.sheep j hj)
  timers := fun t ht hid => h.timers t (h'.timers t ht hid) hid
  reloads := h'.reloads.trans h.reloads
  disabled := h'.disabled.trans h.disabled
  down := h'.down.trans h.down

theorem setSlot (id : ℕ) (s : SheepSlot) (a : Actor) : Frame id a (a.setSlot id s) where
  sheep := fun j hj => by simp [Actor.setSlot, hj]
  timers := fun _ ht _ => ht
  reloads := rfl
  disabled := rfl
  down := rfl

theorem removeSlot (id : ℕ) (a : Actor) : Frame id a (a.removeSlot id) where
  sheep := fun j hj => by simp [Actor.removeSlot, hj]
  timers := fun _ ht _ => ht
  reloads := rfl
  disabled := rfl
  down := rfl

theorem backOff (id : ℕ) (s : SheepSlot) (delay : Option ℕ) (a : Actor) :
    Frame id a (a.backOff id s delay) where
  sheep := fun j hj => by simp [Actor.backOff, Actor.scheduleRestart, Actor.setSlot, hj]
  timers := by
    intro t ht hid
    rcases List.mem_cons.1 ht with rfl | ht
    · exact absurd rfl hid
    · exact ht
  reloads := rfl
  disabled := rfl
  down := rfl

theorem startTask (id pid : ℕ) (spec : AppConfig) (credentials : Option Credentials)
    (via : SpawnVia) (a : Actor) : Frame id a (a.startTask id pid spec credentials via) :=
  ⟨fun _ _ => rfl, fun _ ht _ => ht, rfl, rfl, rfl⟩

theorem armReady (id epoch : ℕ) (manually : Bool) (a : Actor) :
    Frame id a (a.armReady id epoch manually) :=
  ⟨fun _ _ => rfl, fun _ ht _ => ht, rfl, rfl, rfl⟩

theorem refuseSpawn (id : ℕ) (s : SheepSlot) (err : AssembleError) (a : Actor) :
    Frame id a (a.refuseSpawn id s err) := by
  unfold Actor.refuseSpawn
  split
  · exact .setSlot id _ a
  · dsimp only
    split
    · exact .setSlot id _ a
    · exact .backOff id _ _ a

theorem applyImmediateStop (id : ℕ) (s : SheepSlot) (a : Actor) :
    Frame id a (a.applyImmediateStop id s) := by
  unfold Actor.applyImmediateStop
  split
  · exact .setSlot id _ a
  · exact .setSlot id _ a
  · exact .refl id a

theorem respawn (w : World) (id : ℕ) (manually : Bool) (a : Actor) :
    Frame id a (a.respawn w id manually) := by
  unfold Actor.respawn
  split
  · exact ⟨fun _ _ => rfl, fun _ ht _ => ht, rfl, rfl, rfl⟩
  · split
    · split
      · exact .applyImmediateStop id _ a
      · exact .refl id a
    · unfold Actor.respawnFrom
      split
      · exact .setSlot id _ a
      · dsimp only
        split
        · exact .refuseSpawn id _ _ a
        · split
          · exact .setSlot id _ a
          · split
            · exact ((startTask id _ _ _ _ a).trans (setSlot id _ _)).trans (armReady id _ _ _)
            · exact (startTask id _ _ _ _ a).trans (setSlot id _ _)

theorem mark (id : ℕ) (s : SheepSlot) (m : PendingManual) (cap : LadderCap) (a : Actor) :
    Frame id a (a.mark id s m cap) :=
  (setSlot id _ a).trans ⟨fun _ _ => rfl, fun _ ht _ => ht, rfl, rfl, rfl⟩

theorem sendKill (id : ℕ) (ctl : Option ℕ) (grace : ℕ) (a : Actor) :
    Frame id a (a.sendKill ctl grace) := by
  unfold Actor.sendKill
  split <;> exact ⟨fun _ _ => rfl, fun _ ht _ => ht, rfl, rfl, rfl⟩

theorem claimManual (id : ℕ) (m : PendingManual) (cap : LadderCap) (a : Actor) :
    Frame id a (a.claimManual id m cap) := by
  unfold Actor.claimManual
  split
  · exact .refl id a
  · split
    · exact (mark id _ m cap a).trans (sendKill id _ _ _)
    · split
      · exact .mark id _ m cap a
      · exact .refl id a

theorem modifySlot (id : ℕ) (f : SheepSlot → SheepSlot) (a : Actor) :
    Frame id a (a.modifySlot id f) := by
  unfold Actor.modifySlot
  split
  · exact .setSlot id _ a
  · exact .refl id a

theorem panic (id : ℕ) (message : String) (a : Actor) : Frame id a (a.panic message) :=
  ⟨fun _ _ => rfl, fun _ ht _ => ht, rfl, rfl, rfl⟩

theorem resolvePending (id j : ℕ) (info : ProcessInfo) (a : Actor) :
    Frame id a (a.resolvePending j info) := by
  rw [Actor.resolvePending_eq]
  exact ⟨fun _ _ => rfl, fun _ ht _ => ht, rfl, rfl, rfl⟩

theorem deregisterOnExit (id : ℕ) (a : Actor) : Frame id a (a.deregisterOnExit id) := by
  unfold Actor.deregisterOnExit
  split
  · exact .panic id _ a
  · exact (removeSlot id a).trans (.resolvePending id id _ _)

theorem applyImmediate (w : World) (id : ℕ) (kind : ManualKind) (origin : CommandOrigin)
    (a : Actor) : Frame id a (a.applyImmediate w id kind origin).2 := by
  unfold Actor.applyImmediate
  split
  · exact .refl id a
  · split
    · exact .applyImmediateStop id _ a
    · exact .removeSlot id a
    · exact (setSlot id _ a).trans (.respawn w id _ _)

theorem manualOne (w : World) (kind : ManualKind) (origin : CommandOrigin) (g : Gathered)
    (id : ℕ) : Frame id g.actor (Actor.manualOne w kind origin g id).actor := by
  unfold Actor.manualOne
  dsimp only
  split
  · exact .refl id g.actor
  · split
    · refine (claimManual id ⟨kind, origin⟩ .stop g.actor).trans ?_
      split
      · exact .modifySlot id _ _
      · exact .refl id _
    · exact .applyImmediate w id kind origin g.actor

end Frame

/-! ## Claiming -/

theorem claimManual_ctl (id : ℕ) (m : PendingManual) (cap : LadderCap) (a : Actor) (j : ℕ) :
    ((a.claimManual id m cap).sheep[j]?).map SheepSlot.ctl =
      (a.sheep[j]?).map SheepSlot.ctl := by
  by_cases hj : j = id
  · subst hj
    unfold claimManual
    cases hs : a.sheep[j]? with
    | none => simp [hs]
    | some s =>
      dsimp only
      split
      · unfold sendKill
        split <;> simp [mark, setSlot]
      · split
        · simp [mark, setSlot]
        · simp [hs]
  · rw [(Frame.claimManual id m cap a).sheep j hj]

theorem claimManual_form (id : ℕ) (m : PendingManual) (cap : LadderCap) (a : Actor) :
    ∃ sheep trace, a.claimManual id m cap = { a with sheep := sheep, trace := trace } := by
  unfold claimManual
  split
  · exact ⟨_, _, rfl⟩
  · split
    · unfold sendKill
      split <;> exact ⟨_, _, rfl⟩
    · split <;> exact ⟨_, _, rfl⟩

variable {c : Turn} {w : World} {x : Hole} {a : Actor} {id : ℕ} {s : SheepSlot}

/-- `claim_manual` on a registered slot: the first claim and its kill, a
takeover of the marker, or nothing. -/
theorem claimManual_of_unclaimed (hs : a.sheep[id]? = some s) (hm : s.manual = none)
    (m : PendingManual) (cap : LadderCap) :
    a.claimManual id m cap = { a with
      sheep := a.sheep.insert id { s with manual := some m }
      trace := (s.ctl.toList.map fun t => .killed t (cap.of s.entry.spec)) ++
        .claimed id m cap :: a.trace } := by
  simp only [claimManual, hs, hm]
  cases hc : s.ctl <;> simp [sendKill, mark, setSlot, hc]

theorem claimManual_of_displaced (hs : a.sheep[id]? = some s) {held m : PendingManual}
    (hm : s.manual = some held) (hheld : held.origin = .automatic) (hop : m.origin = .operator)
    (cap : LadderCap) :
    a.claimManual id m cap = { a with
      sheep := a.sheep.insert id { s with manual := some m }
      trace := .claimed id m cap :: a.trace } := by
  simp only [claimManual, hs, hm, hheld, hop, and_self, if_true]
  rfl

theorem claimManual_of_held (hs : a.sheep[id]? = some s) {held m : PendingManual}
    (hm : s.manual = some held) (hheld : ¬ (held.origin = .automatic ∧ m.origin = .operator))
    (cap : LadderCap) : a.claimManual id m cap = a := by
  simp only [claimManual, hs, hm, if_neg hheld]

/-- `claim_manual` as moves, for a claim that deletes nothing. -/
theorem claimManual_moves (m : PendingManual) (cap : LadderCap) (hk : m.kind ≠ .delete)
    (hauto : m.origin = .automatic → m.kind = .restart)
    (hctl : ∀ s, a.sheep[id]? = some s → s.ctl.isSome = true ∨
      x = .none ∧ ∃ job : ReloadJob, a.reloads[s.name]? = some job ∧ job.swap.oldId = id)
    (hcap : cap = .drain → a.Drains id) (hwho : c.Claims cap id) :
    Moves c ⟨x, a⟩ ⟨x, a.claimManual id m cap⟩ := by
  have hnd : (m.kind == ManualKind.delete) = false := by simpa using hk
  cases hs : a.sheep[id]? with
  | none =>
    have hsame : a.claimManual id m cap = a := by simp only [claimManual, hs]
    exact hsame.symm ▸ .refl
  | some s =>
    by_cases hm : s.manual = none
    · have hmove : Move c ⟨x, a⟩ ⟨x, _⟩ :=
        .claim m cap hs hm ((hctl s hs).imp_right fun hj => ⟨hj.1, hk, hj.2⟩) hauto hcap
          hwho
      rw [claimManual_of_unclaimed hs hm]
      simp only [hnd, Bool.or_false] at hmove
      exact .single hmove
    · obtain ⟨held, hm⟩ := Option.ne_none_iff_exists'.1 hm
      by_cases hd : held.origin = .automatic ∧ m.origin = .operator
      · have hmove : Move c ⟨x, a⟩ ⟨x, _⟩ :=
          .displace m cap hs hm hd.1 hd.2 (fun h => absurd h hk) hcap hwho
        rw [claimManual_of_displaced hs hm hd.1 hd.2]
        simp only [hnd, Bool.or_false] at hmove
        exact .single hmove
      · exact (claimManual_of_held hs hm hd cap).symm ▸ .refl

/-- An operator's delete of a running sheep: the claim and the mark that
outlives a losing claim land together. -/
theorem claimDelete_moves (hs : a.sheep[id]? = some s) (hctl : s.ctl.isSome = true)
    (hwho : c.Claims .stop id) :
    Moves c ⟨x, a⟩ ⟨x, (a.setSlot id { s with pendingDelete := true }).claimManual id
      ⟨.delete, .operator⟩ .stop⟩ := by
  have hs' : (a.setSlot id { s with pendingDelete := true }).sheep[id]? =
      some { s with pendingDelete := true } := by
    simp [setSlot]
  by_cases hm : s.manual = none
  · have hmove : Move c ⟨x, a⟩ ⟨x, _⟩ :=
      .claim ⟨.delete, .operator⟩ .stop hs hm (Or.inl hctl) (by simp) (by simp) hwho
    rw [claimManual_of_unclaimed hs' hm]
    simp only [BEq.rfl, Bool.or_true] at hmove
    simpa [setSlot] using Relation.ReflTransGen.single hmove
  · obtain ⟨held, hm⟩ := Option.ne_none_iff_exists'.1 hm
    by_cases hd : held.origin = .automatic
    · have hmove : Move c ⟨x, a⟩ ⟨x, _⟩ :=
        .displace ⟨.delete, .operator⟩ .stop hs hm hd rfl (fun _ => hctl) (by simp)
          hwho
      rw [claimManual_of_displaced hs' hm hd rfl]
      simp only [BEq.rfl, Bool.or_true] at hmove
      simpa [setSlot] using Relation.ReflTransGen.single hmove
    · rw [claimManual_of_held hs' hm (by simp [hd])]
      exact .single (.doom hs hctl (by simp [hm]))

theorem markDelete_claimManual (hs : a.sheep[id]? = some s) (m : PendingManual) (cap : LadderCap) :
    (a.claimManual id m cap).markDelete id =
      (a.setSlot id { s with pendingDelete := true }).claimManual id m cap := by
  have hs' : (a.setSlot id { s with pendingDelete := true }).sheep[id]? =
      some { s with pendingDelete := true } := by
    simp [setSlot]
  by_cases hm : s.manual = none
  · rw [claimManual_of_unclaimed hs hm, claimManual_of_unclaimed hs' hm]
    simp [markDelete, modifySlot, setSlot]
  · obtain ⟨held, hm⟩ := Option.ne_none_iff_exists'.1 hm
    by_cases hd : held.origin = .automatic ∧ m.origin = .operator
    · rw [claimManual_of_displaced hs hm hd.1 hd.2, claimManual_of_displaced hs' hm hd.1 hd.2]
      simp [markDelete, modifySlot, setSlot]
    · rw [claimManual_of_held hs hm hd, claimManual_of_held hs' hm hd]
      simp [markDelete, modifySlot, setSlot, hs]

end Actor

/-! ## A command over several ids -/

namespace Turn

variable {c : Turn} {n : String} {id : ℕ}

theorem orders {command : Command} (hmsg : c.msg = .command command)
    (hreload : ∀ selector, command ≠ .reload selector) : c.Orders := ⟨command, hmsg, hreload⟩

theorem Restarts.orders (h : c.Restarts id) : c.Orders := by
  unfold Restarts at h
  split at h
  · next hmsg => exact Turn.orders hmsg (by simp)
  · next hmsg => exact Turn.orders hmsg (by simp)
  · exact h.elim

theorem Configures.orders (h : c.Configures n) : c.Orders := by
  unfold Configures at h
  split at h
  all_goals first
    | exact h.elim
    | next hmsg => exact Turn.orders hmsg (by simp)

end Turn

/-- What has to hold of `id` before a manual command reaches it. A restart
that finds no process may start one again, and a delete that finds none
drops no job's replacement unnoticed. -/
structure Turn.Allows (c : Turn) (w : World) (kind : ManualKind) (origin : CommandOrigin)
    (a : Actor) (id : ℕ) : Prop where
  who : c.Claims .stop id
  auto : origin = .automatic → kind = .restart
  restart : kind = .restart → ∀ s, a.sheep[id]? = some s → s.ctl = none →
    a.shuttingDown = false ∧ (s.name ∉ a.disabled → c.Restarts id) ∧
    ∀ err : AssembleError, s.name ∉ a.disabled → err.isRetriable = true →
      w.assemble s.intendedSpec s.entry.inst = .error err ∨
        w.place id s.intendedSpec = .error err →
      1 < s.intendedSpec.maxRestarts → c.MayWait .none a id s.epoch
  delete : kind = .delete → origin = .operator ∧ ∀ s, a.sheep[id]? = some s → s.ctl = none →
    (∃ (n : String) (job : ReloadJob), a.reloads[n]? = some job ∧ job.swap.newId = some id) →
    c.DropsReplacement id

theorem ReplyKind.payload_ne_shutdown {kind : ReplyKind} (h : kind ≠ .shutdown)
    (outcome : Except SupervisorError (List ProcessInfo)) : kind.payload outcome ≠ .shutdown := by
  cases kind with
  | info => simp [ReplyKind.payload]
  | ids => simp [ReplyKind.payload]
  | shutdown => exact absurd rfl h

namespace Turn.Allows

variable {c : Turn} {w : World} {kind : ManualKind} {origin : CommandOrigin} {a a' : Actor}
variable {id j : ℕ}

/-- The handling of another id leaves the leave to handle this one. -/
theorem frame (h : c.Allows c.world kind origin a id) (hf : Actor.Frame j a a') (hne : id ≠ j) :
    c.Allows c.world kind origin a' id where
  who := h.who
  auto := h.auto
  restart := by
    intro hk s hs hctl
    rw [hf.sheep id hne] at hs
    obtain ⟨hup, hres, hwait⟩ := h.restart hk s hs hctl
    rw [hf.down, hf.disabled]
    refine ⟨hup, hres, fun err hen hr herr hmax => ?_⟩
    rcases hwait err hen hr herr hmax with ⟨⟨_, hx⟩, -⟩ | ⟨hx, -⟩ | ht | hx | hx
    · cases hx
    · cases hx
    · refine Or.inr (Or.inr (Or.inl fun t htm hid => ht t (hf.timers t htm ?_) hid))
      rw [hid]
      exact hne
    · exact Or.inr (Or.inr (Or.inr (Or.inl hx)))
    · exact Or.inr (Or.inr (Or.inr (Or.inr hx)))
  delete := by
    intro hk
    refine ⟨(h.delete hk).1, fun s hs hctl hjob => ?_⟩
    rw [hf.sheep id hne] at hs
    rw [hf.reloads] at hjob
    exact (h.delete hk).2 s hs hctl hjob

end Turn.Allows

namespace Actor

variable {c : Turn} {w : World} {a : Actor} {id : ℕ} {s : SheepSlot}
variable {kind : ManualKind} {origin : CommandOrigin}

theorem isRunning_iff : a.isRunning id = true ↔ ∃ s, a.sheep[id]? = some s ∧ s.ctl.isSome = true := by
  unfold isRunning
  cases a.sheep[id]? <;> simp

theorem isRunning_of_ctl {a a' : Actor} {j : ℕ}
    (h : (a'.sheep[j]?).map SheepSlot.ctl = (a.sheep[j]?).map SheepSlot.ctl) :
    a'.isRunning j = a.isRunning j := by
  unfold isRunning
  cases hs : a.sheep[j]? with
  | none =>
    rw [hs, Option.map_none, Option.map_eq_none_iff] at h
    rw [h]
  | some s =>
    rw [hs, Option.map_some, Option.map_eq_some_iff] at h
    obtain ⟨s', hs', hctl⟩ := h
    simp [hs', hctl]

theorem markDelete_ctl (id : ℕ) (a : Actor) (j : ℕ) :
    ((a.markDelete id).sheep[j]?).map SheepSlot.ctl = (a.sheep[j]?).map SheepSlot.ctl := by
  by_cases hj : j = id
  · subst hj
    cases hs : a.sheep[j]? <;> simp [markDelete, modifySlot, setSlot, hs]
  · rw [markDelete, (Frame.modifySlot id _ a).sheep j hj]

/-- A command that reaches a sheep with no process. -/
theorem applyImmediate_moves (h : Inv .none a) (hall : c.Allows c.world kind origin a id)
    (hrun : ¬ a.isRunning id = true) :
    Moves c ⟨.none, a⟩ ⟨.none, (a.applyImmediate c.world id kind origin).2⟩ := by
  unfold applyImmediate
  cases hs : a.sheep[id]? with
  | none => exact .refl
  | some s =>
    have hctl : s.ctl = none := by
      cases hc : s.ctl with
      | none => rfl
      | some t => exact absurd (isRunning_iff.2 ⟨s, hs, by simp [hc]⟩) hrun
    cases hk : kind with
    | stop => exact applyImmediateStop_moves h hs hctl
    | delete => exact .single (.deregister hs hctl ((hall.delete hk).2 s hs hctl))
    | restart =>
      obtain ⟨hup, hres, hwait⟩ := hall.restart hk s hs hctl
      -- the budget is reset first, so one refusal is all a retriable spawn gets
      have hag := (SheepSlot.Agrees.refl (h.wellFormed hs)).setBudget s.entry.budget.reset
      have hedit : Move c ⟨.none, a⟩ ⟨.none, a.setSlot id _⟩ :=
        .edit _ hs hag (Or.inr ((SheepSlot.Heir.refl s).setBudget _))
      refine .head hedit ?_
      refine respawn_moves (s := { s with entry := { s.entry with budget := s.entry.budget.reset } })
        (hedit.inv h) ?_ hctl hup hres _ fun err hen hr herr hmax => hwait err hen hr herr ?_
      · simp [setSlot]
      · exact lt_of_le_of_lt (Nat.le_add_left 1 _) hmax

/-- One id of a manual command. -/
theorem manualOne_moves {g : Gathered} (h : Inv .none g.actor)
    (hall : c.Allows c.world kind origin g.actor id) :
    Moves c ⟨.none, g.actor⟩ ⟨.none, (manualOne c.world kind origin g id).actor⟩ := by
  unfold manualOne
  dsimp only
  split
  · exact .refl
  · split
    · next hrun =>
      obtain ⟨s, hs, hctl⟩ := isRunning_iff.1 hrun
      by_cases hk : kind = .delete
      · obtain ⟨rfl, -⟩ := hall.delete hk
        subst hk
        simp only [if_true]
        rw [markDelete_claimManual hs]
        exact claimDelete_moves hs hctl hall.who
      · rw [if_neg hk]
        refine claimManual_moves _ _ hk hall.auto (fun t ht => Or.inl ?_) (by simp) hall.who
        rw [hs] at ht
        exact Option.some.inj ht ▸ hctl
    · next hrun => exact applyImmediate_moves h hall hrun

/-- What a command waits on, it found running. -/
theorem manualOne_running {g : Gathered} (hg : ∀ j ∈ g.remaining, g.actor.isRunning j = true) :
    ∀ j ∈ (manualOne w kind origin g id).remaining,
      (manualOne w kind origin g id).actor.isRunning j = true := by
  unfold manualOne
  dsimp only
  split
  · exact hg
  · split
    · next hrun =>
      have hkeep : ∀ j, g.actor.isRunning j = true →
          (g.actor.claimManual id ⟨kind, origin⟩ .stop).isRunning j = true := by
        intro j hj
        rw [← isRunning_of_ctl (claimManual_ctl id ⟨kind, origin⟩ .stop g.actor j)] at hj
        exact hj
      have hkeep' : ∀ j, g.actor.isRunning j = true →
          (if kind = .delete then (g.actor.claimManual id ⟨kind, origin⟩ .stop).markDelete id
            else g.actor.claimManual id ⟨kind, origin⟩ .stop).isRunning j = true := by
        intro j hj
        split
        · rw [isRunning_of_ctl (markDelete_ctl id _ j)]
          exact hkeep j hj
        · exact hkeep j hj
      intro j hj
      rcases List.mem_append.1 hj with hj | hj
      · exact hkeep' j (hg j hj)
      · rw [List.mem_singleton.1 hj]
        exact hkeep' id hrun
    · next hrun =>
      intro j hj
      have hne : j ≠ id := fun e => hrun (e ▸ hg j hj)
      have hf := Frame.applyImmediate w id kind origin g.actor
      have := hg j hj
      rw [isRunning_iff] at this ⊢
      rwa [hf.sheep j hne]

/-- **The ids of a command, one after another.** -/
theorem gather_moves {ids : List ℕ} (hnd : ids.Nodup) {g : Gathered} (h : Inv .none g.actor)
    (hall : ∀ id ∈ ids, c.Allows c.world kind origin g.actor id)
    (hg : ∀ j ∈ g.remaining, g.actor.isRunning j = true) :
    Moves c ⟨.none, g.actor⟩ ⟨.none, (ids.foldl (manualOne c.world kind origin) g).actor⟩ ∧
      ∀ j ∈ (ids.foldl (manualOne c.world kind origin) g).remaining,
        (ids.foldl (manualOne c.world kind origin) g).actor.isRunning j = true := by
  induction ids generalizing g with
  | nil => exact ⟨.refl, hg⟩
  | cons id ids ih =>
    obtain ⟨hid, hnd⟩ := List.nodup_cons.1 hnd
    have hone := manualOne_moves h (hall id List.mem_cons_self)
    -- the ids still to come are none of them this one
    have hrest : ∀ j ∈ ids, c.Allows c.world kind origin (manualOne c.world kind origin g id).actor j :=
      fun j hj => (hall j (List.mem_cons_of_mem _ hj)).frame (.manualOne c.world kind origin g id)
        (fun e => hid (e ▸ hj))
    obtain ⟨hmoves, hlive⟩ := ih hnd (hone.inv h) hrest (manualOne_running hg)
    exact ⟨hone.trans hmoves, hlive⟩

theorem beginManualIds_moves {ids : List ℕ} (hnd : ids.Nodup) (h : Inv .none a)
    (hall : ∀ id ∈ ids, c.Allows c.world kind origin a id) {reply : ReplyKind}
    (hreply : reply ≠ .shutdown) :
    Moves c ⟨.none, a⟩ ⟨.none, a.beginManualIds c.world ids kind origin reply⟩ := by
  obtain ⟨hmoves, hlive⟩ := gather_moves (g := ⟨[], [], a⟩) hnd h hall (by simp)
  unfold beginManualIds
  dsimp only
  split
  · exact hmoves.tail (.answer _ (ReplyKind.payload_ne_shutdown hreply _))
  · next hne =>
    refine hmoves.tail (.park _ _ _ (by simpa using hne) ?_ (fun e => absurd e hreply))
    exact fun id hid => isRunning_iff.1 (hlive id hid)

/-! ## Which ids a command reaches -/

theorem mem_idsWhere {p : ℕ → SheepSlot → Bool} :
    id ∈ a.idsWhere p ↔ ∃ s, a.sheep[id]? = some s ∧ p id s = true := by
  simp only [idsWhere, List.mem_map, List.mem_filter, Prod.exists, exists_and_right, exists_eq_right,
    Table.mem_toList]

theorem nodup_idsWhere (p : ℕ → SheepSlot → Bool) : (a.idsWhere p).Nodup :=
  (Table.nodup_keys a.sheep).sublist (List.Sublist.map _ List.filter_sublist)

theorem mem_reachedIds {selector : ProcessSelector} {sweep : Sweep} :
    id ∈ a.reachedIds selector sweep ↔ ∃ s, a.sheep[id]? = some s ∧
      ((selector.isExact || (s.entry.dog.isNone && sweep.reaches (a.isDisabled s.name))) &&
        selector.hits s.name id s.entry.spec.fold s.entry.inst) = true := by
  unfold reachedIds
  exact mem_idsWhere

theorem nodup_matchingIds (selector : ProcessSelector) : (a.matchingIds selector).Nodup := by
  unfold matchingIds reachedIds
  exact nodup_idsWhere _

theorem beginManual_moves (h : Inv .none a) {selector : ProcessSelector}
    (hall : ∀ id ∈ a.matchingIds selector, c.Allows c.world kind origin a id) {reply : ReplyKind}
    (hreply : reply ≠ .shutdown) :
    Moves c ⟨.none, a⟩ ⟨.none, a.beginManual c.world selector kind origin reply⟩ := by
  unfold beginManual
  dsimp only
  split
  · exact .single (.answer _ (ReplyKind.payload_ne_shutdown hreply _))
  · split
    · exact .single (.answer _ (ReplyKind.payload_ne_shutdown hreply _))
    · exact beginManualIds_moves (nodup_matchingIds selector) h hall hreply

/-! ## Shutdown -/

theorem claimStops_moves {ids : List ℕ} (hlive : ∀ id ∈ ids, a.isRunning id = true)
    (hwho : ∀ id, c.Claims .stop id) :
    Moves c ⟨.none, a⟩
      ⟨.none, ids.foldl (fun a id => a.claimManual id ⟨.stop, .operator⟩ .stop) a⟩ := by
  induction ids generalizing a with
  | nil => exact .refl
  | cons id ids ih =>
    have hid := hlive id List.mem_cons_self
    have hone : Moves c ⟨.none, a⟩ ⟨.none, a.claimManual id ⟨.stop, .operator⟩ .stop⟩ := by
      refine claimManual_moves _ _ (by simp) (by simp) (fun s hs => Or.inl ?_) (by simp)
        (hwho id)
      obtain ⟨t, ht, hctl⟩ := isRunning_iff.1 hid
      rw [hs] at ht
      exact Option.some.inj ht ▸ hctl
    refine hone.trans (ih (fun j hj => ?_))
    rw [isRunning_of_ctl (claimManual_ctl id _ _ a j)]
    exact hlive j (List.mem_cons_of_mem _ hj)

theorem claimStops_ctl (ids : List ℕ) (a : Actor) (j : ℕ) :
    ((ids.foldl (fun a id => a.claimManual id ⟨.stop, .operator⟩ .stop) a).sheep[j]?).map
      SheepSlot.ctl = (a.sheep[j]?).map SheepSlot.ctl := by
  induction ids generalizing a with
  | nil => rfl
  | cons id ids ih => rw [List.foldl_cons, ih, claimManual_ctl]

theorem claimStops_down (ids : List ℕ) (a : Actor) :
    (ids.foldl (fun a id => a.claimManual id ⟨.stop, .operator⟩ .stop) a).shuttingDown =
      a.shuttingDown := by
  induction ids generalizing a with
  | nil => rfl
  | cons id ids ih => rw [List.foldl_cons, ih, (Frame.claimManual id _ _ a).down]

/-- `begin_shutdown` as moves: its reply waits on every sheep running. -/
theorem beginShutdown_moves (hmsg : c.msg = .command .shutdown) :
    Moves c ⟨.none, a⟩ ⟨.none, a.beginShutdown⟩ := by
  have hwho : ∀ id, c.Claims .stop id := fun _ => Or.inl (Turn.orders hmsg (by simp))
  unfold beginShutdown
  dsimp only
  refine .head .shutdown ?_
  have honline : ∀ id s, a.sheep[id]? = some s → s.ctl.isSome = true → id ∈
      { a with shuttingDown := true, reloads := ∅ }.idsWhere fun _ slot => slot.ctl.isSome :=
    fun id s hs hctl => mem_idsWhere.2 ⟨s, hs, hctl⟩
  split
  · next hempty =>
    refine .single (.halt rfl fun id s hs => ?_)
    cases hc : s.ctl with
    | none => rfl
    | some t =>
      have hmem := honline id s hs (by simp [hc])
      rw [List.isEmpty_iff.1 hempty] at hmem
      cases hmem
  · next hne =>
    have hlive : ∀ id ∈ { a with shuttingDown := true, reloads := ∅ }.idsWhere
        (fun _ slot => slot.ctl.isSome),
        { a with shuttingDown := true, reloads := ∅ }.isRunning id = true :=
      fun id hid => isRunning_iff.2 (mem_idsWhere.1 hid)
    refine (claimStops_moves hlive hwho).tail (.park _ _ _ (by simpa using hne) ?_ fun _ => ⟨?_, ?_⟩)
    · intro id hid
      rw [← isRunning_iff, isRunning_of_ctl (claimStops_ctl _ _ id)]
      exact hlive id hid
    · exact claimStops_down _ _
    · intro id s hs hctl
      have hrun : { a with shuttingDown := true, reloads := ∅ }.isRunning id = true := by
        rw [← isRunning_of_ctl (claimStops_ctl _ _ id)]
        exact isRunning_iff.2 ⟨s, hs, hctl⟩
      obtain ⟨t, ht, hctl'⟩ := isRunning_iff.1 hrun
      exact honline id t ht hctl'

end Actor

end Supervisor

end Shep

import Shep.Supervisor.Helpers.Turning

/-!
# Supervisor — after a shutdown has begun

`Move.down` is the one fact a shutdown rests on: past it, no move gives a
slot a process. `Closing` carries it to the reply: whoever waits for the
shutdown waits for every sheep that still runs.
-/

namespace Shep

namespace Supervisor

/-- Every process of `sheep'` was one of `sheep`, in the same slot. -/
def KeepsLive (sheep sheep' : Std.ExtTreeMap ℕ SheepSlot) : Prop :=
  ∀ (id : ℕ) (s' : SheepSlot) (k : ℕ), sheep'[id]? = some s' → s'.ctl = some k →
    ∃ s, sheep[id]? = some s ∧ s.ctl = some k

namespace KeepsLive

variable {sheep sheep' sheep'' : Std.ExtTreeMap ℕ SheepSlot} {id : ℕ} {s s' : SheepSlot}

theorem refl (sheep : Std.ExtTreeMap ℕ SheepSlot) : KeepsLive sheep sheep :=
  fun _ s' _ hs' hk => ⟨s', hs', hk⟩

theorem trans (h : KeepsLive sheep sheep') (h' : KeepsLive sheep' sheep'') :
    KeepsLive sheep sheep'' := by
  intro id s'' k hs'' hk
  obtain ⟨s', hs', hk'⟩ := h' id s'' k hs'' hk
  exact h id s' k hs' hk'

theorem insert (h : KeepsLive sheep sheep') (hs : sheep'[id]? = some s) (hctl : s'.ctl = s.ctl) :
    KeepsLive sheep (sheep'.insert id s') := by
  intro j t k ht hk
  rcases Table.of_insert ht with ⟨e, rfl⟩ | ⟨-, ht⟩
  · exact h j s k (e ▸ hs) (hctl ▸ hk)
  · exact h j t k ht hk

theorem insert_idle (h : KeepsLive sheep sheep') (hctl : s'.ctl = none) :
    KeepsLive sheep (sheep'.insert id s') := by
  intro j t k ht hk
  rcases Table.of_insert ht with ⟨-, rfl⟩ | ⟨-, ht⟩
  · rw [hctl] at hk
    cases hk
  · exact h j t k ht hk

theorem erase (h : KeepsLive sheep sheep') : KeepsLive sheep (sheep'.erase id) := by
  intro j t k ht hk
  obtain ⟨-, ht⟩ := Table.of_erase ht
  exact h j t k ht hk

theorem map {f : SheepSlot → SheepSlot} (hf : ∀ (id : ℕ) (s : SheepSlot),
    sheep[id]? = some s → (f s).ctl = s.ctl) : KeepsLive sheep (sheep.map fun _ s => f s) := by
  intro j t k ht hk
  rw [Table.get_map, Option.map_eq_some_iff] at ht
  obtain ⟨s, hs, rfl⟩ := ht
  exact ⟨s, hs, hf j s hs ▸ hk⟩

end KeepsLive

/-- **Past a shutdown no move starts a process**, unless the turn scales an
app up. -/
theorem Move.down {c : Turn} {p q : Point} (hm : Move c p q) (hc : ¬ c.ScalesUpWhileDown)
    (hi : Inv p.hole p.actor) (hd : p.actor.shuttingDown = true) :
    q.actor.shuttingDown = true ∧ q.actor.spawnedTasks = p.actor.spawnedTasks ∧
      KeepsLive p.actor.sheep q.actor.sheep := by
  have h := KeepsLive.refl p.actor.sheep
  cases hm with
  | quiet | bump | hear | drains | answer | park | halt | disable | enable | expire | fire |
    honour | commit | verify | drop | unwatch | panic | assertFail => exact ⟨hd, rfl, h⟩
  | edit s' hs hag => exact ⟨hd, rfl, h.insert hs hag.ctl⟩
  | editAll f hf => exact ⟨hd, rfl, .map fun id s hs => (hf id s hs).ctl⟩
  | rest hs hctl hrest _ | backOff _ hs hctl hrest _ _ => exact ⟨hd, rfl, h.insert_idle hrest.ctl⟩
  | register hs _ _ => exact ⟨hd, rfl, h.insert_idle hs.ctl_eq⟩
  | launch _ _ _ _ hdown => exact absurd (hdown hd) hc
  | reseat _ _ hs' _ _ _ _ _ _ _ => exact ⟨hd, rfl, h.insert_idle hs'.ctl_eq⟩
  | reseatLive _ _ _ _ _ _ hup _ _ _ | relaunch _ _ _ _ hup _
  | beginOverlap _ _ _ _ hup _ _ _ _ _ _ _ | beginSerial _ _ _ hup _ _ _ _ _ _ =>
    exact absurd (hup.symm.trans hd) (by simp)
  | serialSpawn _ _ _ hj _ _ _ _ => exact absurd ((hi.up_of_job hj).symm.trans hd) (by simp)
  | @claim x a id s m cap hs _ _ _ _ =>
    refine ⟨hd, ?_, h.insert hs rfl⟩
    cases hk : s.ctl <;> simp [Actor.spawnedTasks, Effect.started, List.filterMap_cons]
  | displace _ _ hs _ _ _ _ _ | doom hs _ _ | putBack hs _ _ | scratch hs _ _ _ | unmark hs _
  | lapse _ _ hs | online hs _ _ _ | parkFailed hs _ | demote hs _ _ _ =>
    exact ⟨hd, rfl, h.insert hs rfl⟩
  | remarkStop | remarkRestart =>
    refine ⟨hd, rfl, .map fun id s _ => ?_⟩
    split <;> rfl
  | deregister => exact ⟨hd, rfl, h.erase⟩
  | exit task outcome _ _ _ hs _ => exact ⟨hd, rfl, h.insert_idle rfl⟩
  | resolve info _ _ =>
    rw [Actor.resolvePending_eq]
    refine ⟨hd, ?_, h⟩
    simp [Actor.spawnedTasks, Actor.repliedWith, Effect.started]
  | restore _ _ hs _ => exact ⟨hd, rfl, h.insert hs (SheepSlot.restore_ctl _)⟩
  | shutdown => exact ⟨rfl, rfl, h⟩

/-! ## The reply -/

/-- Whoever waits for a shutdown waits for every sheep that still runs, and
the loop breaks, on its word, only when none does. -/
structure Closing (x : Hole) (a : Actor) : Prop where
  waits : ∀ p ∈ a.pending, p.kind = .shutdown → a.shuttingDown = true ∧
    ∀ (id : ℕ) (s : SheepSlot), a.sheep[id]? = some s → s.ctl.isSome = true → id ∈ p.remaining
  emptied : a.shuttingDown = true → ∀ (id : ℕ) (s taken : SheepSlot), x = .exiting id taken →
    a.sheep[id]? = some s → s.ctl = none
  ended : a.done = true → a.shuttingDown = true ∧
    ∀ (id : ℕ) (s : SheepSlot), a.sheep[id]? = some s → s.ctl = none
  said : ∀ tag, .replied tag .shutdown ∈ a.trace → a.done = true

namespace Closing

variable {x : Hole} {a b : Actor}

theorem idle_of_keeps (hk : KeepsLive a.sheep b.sheep) {id : ℕ} {s : SheepSlot}
    (hidle : ∀ s, a.sheep[id]? = some s → s.ctl = none) (hs : b.sheep[id]? = some s) :
    s.ctl = none := by
  cases hc : s.ctl with
  | none => rfl
  | some k =>
    obtain ⟨t, ht, htk⟩ := hk id s k hs hc
    rw [hidle t ht] at htk
    cases htk

/-- A move that parks, resolves and says nothing. -/
theorem step (h : Closing x a)
    (hdown : a.shuttingDown = true → KeepsLive a.sheep b.sheep)
    (hsame : b.shuttingDown = a.shuttingDown) (hpending : b.pending = a.pending) (hdone : b.done = a.done)
    (hsaid : ∀ tag, .replied tag .shutdown ∈ b.trace → .replied tag .shutdown ∈ a.trace) :
    Closing x b where
  waits := by
    intro p hp hk
    rw [hpending] at hp
    obtain ⟨hd, hlive⟩ := h.waits p hp hk
    refine ⟨hsame.trans hd, fun id s hs hctl => ?_⟩
    obtain ⟨k, hk⟩ := Option.isSome_iff_exists.1 hctl
    obtain ⟨t, ht, htk⟩ := hdown hd id s k hs hk
    exact hlive id t ht (by simp [htk])
  emptied := by
    intro hd id s taken hx hs
    rw [hsame] at hd
    exact idle_of_keeps (hdown hd) (fun t ht => h.emptied hd id t taken hx ht) hs
  ended := by
    intro hd
    obtain ⟨hup, hidle⟩ := h.ended (hdone ▸ hd)
    exact ⟨hsame.trans hup, fun id s hs => idle_of_keeps (hdown hup) (hidle id) hs⟩
  said := fun tag htag => hdone ▸ h.said tag (hsaid tag htag)

theorem park (h : Closing .none a) {remaining : List ℕ} (results : List ProcessInfo)
    {kind : ReplyKind} (hall : kind = .shutdown → a.shuttingDown = true ∧
      ∀ (id : ℕ) (s : SheepSlot), a.sheep[id]? = some s → s.ctl.isSome = true → id ∈ remaining) :
    Closing .none (a.park remaining results kind) where
  waits := by
    intro p hp hk
    rcases List.mem_append.1 hp with hp | hp
    · exact h.waits p hp hk
    · obtain rfl := List.mem_singleton.1 hp
      exact hall hk
  emptied := by simp
  ended := h.ended
  said := fun tag htag => h.said tag (by simpa [Actor.park] using htag)

/-- An exit settled: its id leaves every reply, and a shutdown's reply that
goes out finds nothing running. -/
theorem resolve {id : ℕ} {taken : SheepSlot} (h : Closing (.exiting id taken) a)
    (info : ProcessInfo) : Closing .none (a.resolvePending id info) := by
  -- what a shutdown's reply still waits for, once the exit is taken out
  have hrest : ∀ p ∈ a.pending, p.kind = .shutdown → a.shuttingDown = true ∧
      ∀ (j : ℕ) (s : SheepSlot), a.sheep[j]? = some s → s.ctl.isSome = true →
        j ∈ (p.settle id info).remaining := by
    intro p hp hk
    obtain ⟨hd, hlive⟩ := h.waits p hp hk
    refine ⟨hd, fun j s hs hctl => PendingReply.mem_settle_remaining.2 ⟨hlive j s hs hctl, ?_⟩⟩
    rintro rfl
    simp [h.emptied hd j s taken rfl hs] at hctl
  have hready : ∀ p ∈ a.readyReplies id info, p.kind = .shutdown → a.shuttingDown = true ∧
      ∀ (j : ℕ) (s : SheepSlot), a.sheep[j]? = some s → s.ctl = none := by
    intro p hp hk
    rw [Actor.readyReplies, List.mem_filter, List.mem_map] at hp
    obtain ⟨⟨p, hp, rfl⟩, hempty⟩ := hp
    rw [PendingReply.settle_kind] at hk
    obtain ⟨hd, hlive⟩ := hrest p hp hk
    refine ⟨hd, fun j s hs => ?_⟩
    cases hc : s.ctl with
    | none => rfl
    | some k =>
      have hmem := hlive j s hs (by simp [hc])
      rw [List.isEmpty_iff.1 hempty] at hmem
      cases hmem
  rw [Actor.resolvePending_eq]
  refine ⟨fun p hp hk => ?_, by simp, fun hd => ?_, fun tag htag => ?_⟩
  · rw [List.mem_filter, List.mem_map] at hp
    obtain ⟨⟨p, hp, rfl⟩, -⟩ := hp
    rw [PendingReply.settle_kind] at hk
    exact hrest p hp hk
  · rcases Bool.or_eq_true_iff.1 hd with hd | hd
    · exact h.ended hd
    · obtain ⟨p, hp, hk⟩ := List.any_eq_true.1 hd
      exact hready p hp (by simpa using hk)
  · rcases List.mem_append.1 htag with htag | htag
    · simp only [Actor.repliedWith, List.mem_reverse, List.mem_map, Effect.replied.injEq] at htag
      obtain ⟨p, hp, -, hpay⟩ := htag
      have hk : p.kind = .shutdown := by
        by_contra hne
        exact ReplyKind.payload_ne_shutdown hne _ hpay
      have hany : (a.readyReplies id info).any (fun p => p.kind == .shutdown) = true :=
        List.any_eq_true.2 ⟨p, hp, by simp [hk]⟩
      simp [hany]
    · simp [h.said tag htag]

end Closing

/-- **A move keeps a shutdown on its way**, unless the turn scales an app
up behind it. -/
theorem Move.closing {c : Turn} {p q : Point} (hm : Move c p q) (hc : ¬ c.ScalesUpWhileDown)
    (hi : Inv p.hole p.actor) (h : Closing p.hole p.actor) : Closing q.hole q.actor := by
  have hdown : p.actor.shuttingDown = true → KeepsLive p.actor.sheep q.actor.sheep :=
    fun hd => (hm.down hc hi hd).2.2
  cases hm with
  | quiet | bump | edit | editAll | rest | register | reseat | doom | remarkStop | remarkRestart |
    disable | enable | deregister | expire | putBack | beginSerial | scratch | commit | verify |
    drop | unmark | restore | lapse | online | parkFailed | demote | unwatch | panic =>
    exact h.step hdown rfl rfl rfl fun _ htag => htag
  | hear | drains | backOff | launch | reseatLive | relaunch | displace | beginOverlap |
    serialSpawn | assertFail =>
    refine h.step hdown rfl rfl rfl fun tag htag => ?_
    exact (List.mem_cons.1 htag).resolve_left (by simp)
  | answer answer hne =>
    refine h.step hdown rfl rfl rfl fun tag htag => ?_
    refine (List.mem_cons.1 htag).resolve_left fun e => hne ?_
    exact (Effect.replied.inj e).2.symm
  | park remaining results kind _ _ hall => exact h.park results hall
  | halt hd hidle => exact ⟨h.waits, by simp, fun _ => ⟨hd, hidle⟩, fun _ _ => rfl⟩
  | @claim x a id s m cap hs _ _ _ _ =>
    refine h.step hdown rfl rfl rfl fun tag htag => ?_
    cases hk : s.ctl <;> simpa [hk] using htag
  | @exit a s task outcome _ _ _ hs _ =>
    have hsame : Closing .none { a with
        tasks := a.tasks.erase task
        trace := .exited task.serial :: a.trace
        sheep := a.sheep.insert task.id (s.exited outcome) } := by
      refine h.step hdown rfl rfl rfl fun tag htag => ?_
      exact (List.mem_cons.1 htag).resolve_left (by simp)
    refine ⟨hsame.waits, fun _ j t taken hx ht => ?_, hsame.ended, hsame.said⟩
    obtain ⟨rfl, -⟩ := Hole.exiting.inj hx
    rw [Table.get_insert, if_pos rfl] at ht
    rw [← Option.some.inj ht]
    rfl
  | resolve info _ _ => exact h.resolve info
  | fire | honour => exact ⟨h.waits, by simp, h.ended, h.said⟩
  | shutdown =>
    exact ⟨fun p hp hk => ⟨rfl, (h.waits p hp hk).2⟩, by simp, fun hd => ⟨rfl, (h.ended hd).2⟩,
      h.said⟩

end Supervisor

end Shep

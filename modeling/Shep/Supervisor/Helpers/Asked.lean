import Shep.Supervisor.Helpers.Claiming

/-!
# Supervisor — what a stop and a delete leave

`SheepSlot.askedTo` is what an operator's stop or delete makes of one slot:
a running one is claimed, and marked when it is to go; one with no process
is stopped, or is gone. `beginManualIds_sheep` says that the command does
this to every id it was given, and nothing else to the flock.
-/

namespace Shep

namespace Supervisor

namespace SheepSlot

/-- Who owns the exit of a running slot once an operator has asked for
`kind`: the operator who asked first, if one did. -/
def ownerFor (kind : ManualKind) (s : SheepSlot) : PendingManual :=
  match s.manual with
  | some held => if held.origin = .automatic then ⟨kind, .operator⟩ else held
  | none => ⟨kind, .operator⟩

/-- The slot an operator's stop or delete leaves behind. -/
def askedTo (kind : ManualKind) (s : SheepSlot) : Option SheepSlot :=
  if s.ctl.isSome then
    some { s with
      manual := some (s.ownerFor kind), pendingDelete := s.pendingDelete || kind == .delete }
  else if kind = .delete then none
  else if s.entry.status = .waitingRestart ∨ s.entry.status = .errored then
    some (s.setStatus .stopped)
  else some s

theorem askedTo_live {s : SheepSlot} (hctl : s.ctl.isSome = true) (kind : ManualKind) :
    s.askedTo kind = some { s with
      manual := some (s.ownerFor kind), pendingDelete := s.pendingDelete || kind == .delete } :=
  if_pos hctl

theorem askedTo_name {s s' : SheepSlot} {kind : ManualKind} (h : s.askedTo kind = some s') :
    s'.name = s.name := by
  unfold askedTo at h
  split at h
  · rw [← Option.some.inj h]
    rfl
  · split at h
    · cases h
    · split at h <;> rw [← Option.some.inj h]
      rfl

theorem ownerFor_unclaimed {s : SheepSlot} (h : s.manual = none) (kind : ManualKind) :
    s.ownerFor kind = ⟨kind, .operator⟩ := by
  simp only [ownerFor, h]

theorem ownerFor_origin (s : SheepSlot) (kind : ManualKind) :
    (s.ownerFor kind).origin = .operator := by
  unfold ownerFor
  split
  · next held _ =>
    split
    · rfl
    · next hauto => cases h : held.origin <;> simp_all
  · rfl

end SheepSlot

namespace Actor

variable {w : World} {a : Actor} {id : ℕ} {s : SheepSlot} {kind : ManualKind}

theorem claimManual_sheep (hs : a.sheep[id]? = some s) (kind : ManualKind) (cap : LadderCap) :
    (a.claimManual id ⟨kind, .operator⟩ cap).sheep[id]? =
      some { s with manual := some (s.ownerFor kind) } := by
  cases hm : s.manual with
  | none =>
    rw [claimManual_of_unclaimed hs hm, SheepSlot.ownerFor_unclaimed hm]
    simp
  | some held =>
    by_cases hauto : held.origin = .automatic
    · rw [claimManual_of_displaced hs hm hauto rfl]
      simp [SheepSlot.ownerFor, hm, hauto]
    · have hown : s.ownerFor kind = held := by simp [SheepSlot.ownerFor, hm, hauto]
      rw [claimManual_of_held hs hm fun hboth => hauto hboth.1, hs, hown, ← hm]

theorem manualOne_live {g : Gathered} (hs : g.actor.sheep[id]? = some s)
    (hctl : s.ctl.isSome = true) (kind : ManualKind) :
    (manualOne w kind .operator g id).actor.sheep[id]? = s.askedTo kind := by
  have hrun : g.actor.isRunning id = true := by simp [isRunning, hs, hctl]
  have hclaim := claimManual_sheep hs kind .stop
  rw [SheepSlot.askedTo_live hctl]
  by_cases hd : kind = .delete
  · subst hd
    simp [manualOne, hrun, markDelete, modifySlot, setSlot, hclaim]
  · simp [manualOne, hrun, hd, hclaim]

/-- One id of an operator's stop or delete. -/
theorem manualOne_sheep (hk : kind ≠ .restart) (g : Gathered) :
    (manualOne w kind .operator g id).actor.sheep[id]? =
      (g.actor.sheep[id]?).bind (SheepSlot.askedTo kind) := by
  cases hs : g.actor.sheep[id]? with
  | none =>
    have hrun : g.actor.isRunning id = false := by simp [isRunning, hs]
    simp [manualOne, hrun, applyImmediate, hs]
  | some s =>
    rw [Option.bind_some]
    cases hc : s.ctl with
    | some t => exact manualOne_live hs (by simp [hc]) kind
    | none =>
      have hrun : g.actor.isRunning id = false := by simp [isRunning, hs, hc]
      cases kind with
      | restart => exact absurd rfl hk
      | delete => simp [manualOne, hrun, applyImmediate, hs, removeSlot, SheepSlot.askedTo, hc]
      | stop =>
        simp only [manualOne, hrun, applyImmediate, hs, SheepSlot.askedTo, hc]
        cases hst : s.entry.status <;> simp [applyImmediateStop, hst, setSlot, hs]

theorem gather_sheep (hk : kind ≠ .restart) {ids : List ℕ} (hnd : ids.Nodup) (g : Gathered)
    (j : ℕ) : (ids.foldl (manualOne w kind .operator) g).actor.sheep[j]? =
      if j ∈ ids then (g.actor.sheep[j]?).bind (SheepSlot.askedTo kind) else g.actor.sheep[j]? := by
  induction ids generalizing g with
  | nil => simp
  | cons id ids ih =>
    obtain ⟨hid, hnd⟩ := List.nodup_cons.1 hnd
    rw [List.foldl_cons, ih hnd]
    by_cases hj : j = id
    · subst hj
      rw [if_neg hid, if_pos List.mem_cons_self, manualOne_sheep hk]
    · rw [(Frame.manualOne w kind .operator g id).sheep j hj]
      simp [hj]

/-- Any operator's command, on a running sheep among several ids. -/
theorem gather_live {ids : List ℕ} (hnd : ids.Nodup) (hid : id ∈ ids) {g : Gathered}
    (hs : g.actor.sheep[id]? = some s) (hctl : s.ctl.isSome = true) (kind : ManualKind) :
    (ids.foldl (manualOne w kind .operator) g).actor.sheep[id]? = s.askedTo kind := by
  induction ids generalizing g with
  | nil => cases hid
  | cons j ids ih =>
    obtain ⟨hj, hnd⟩ := List.nodup_cons.1 hnd
    have hrest : ∀ (l : List ℕ) (g : Gathered), id ∉ l →
        (l.foldl (manualOne w kind .operator) g).actor.sheep[id]? = g.actor.sheep[id]? := by
      intro l
      induction l with
      | nil => exact fun g _ => rfl
      | cons i l ihl =>
        intro g hl
        rw [List.mem_cons, not_or] at hl
        rw [List.foldl_cons, ihl _ hl.2, (Frame.manualOne w kind .operator g i).sheep id hl.1]
    rw [List.foldl_cons]
    rcases List.mem_cons.1 hid with rfl | hid
    · rw [hrest ids _ hj, manualOne_live hs hctl]
    · have hne : id ≠ j := fun e => hj (e ▸ hid)
      exact ih hnd hid (by rw [(Frame.manualOne w kind .operator g j).sheep id hne, hs])

theorem beginManualIds_live {ids : List ℕ} (hnd : ids.Nodup) (hid : id ∈ ids)
    (hs : a.sheep[id]? = some s) (hctl : s.ctl.isSome = true) (kind : ManualKind)
    (reply : ReplyKind) :
    (a.beginManualIds w ids kind .operator reply).sheep[id]? = s.askedTo kind := by
  have hg := gather_live (w := w) (g := ⟨[], [], a⟩) hnd hid hs hctl kind
  unfold beginManualIds
  dsimp only
  split <;> exact hg

/-- A shutdown's stop, on a running sheep among several ids. -/
theorem claimStops_live {ids : List ℕ} (hnd : ids.Nodup) (hid : id ∈ ids)
    (hs : a.sheep[id]? = some s) :
    (ids.foldl (fun a id => a.claimManual id ⟨.stop, .operator⟩ .stop) a).sheep[id]? =
      some { s with manual := some (s.ownerFor .stop) } := by
  induction ids generalizing a with
  | nil => cases hid
  | cons j ids ih =>
    obtain ⟨hj, hnd⟩ := List.nodup_cons.1 hnd
    have hrest : ∀ (l : List ℕ) (a : Actor), id ∉ l → (l.foldl
        (fun a id => a.claimManual id ⟨.stop, .operator⟩ .stop) a).sheep[id]? = a.sheep[id]? := by
      intro l
      induction l with
      | nil => exact fun a _ => rfl
      | cons i l ihl =>
        intro a hl
        rw [List.mem_cons, not_or] at hl
        rw [List.foldl_cons, ihl _ hl.2, (Frame.claimManual i _ _ a).sheep id hl.1]
    rw [List.foldl_cons]
    rcases List.mem_cons.1 hid with rfl | hid
    · rw [hrest ids _ hj, claimManual_sheep hs]
    · have hne : id ≠ j := fun e => hj (e ▸ hid)
      exact ih hnd hid (by rw [(Frame.claimManual j _ _ a).sheep id hne, hs])

theorem gather_frame (kind : ManualKind) (origin : CommandOrigin) (ids : List ℕ) (g : Gathered) :
    (ids.foldl (manualOne w kind origin) g).actor.disabled = g.actor.disabled ∧
      (ids.foldl (manualOne w kind origin) g).actor.reloads = g.actor.reloads := by
  induction ids generalizing g with
  | nil => exact ⟨rfl, rfl⟩
  | cons id ids ih =>
    have hf := Frame.manualOne w kind origin g id
    rw [List.foldl_cons, (ih _).1, (ih _).2]
    exact ⟨hf.disabled, hf.reloads⟩

/-- `begin_manual_ids` for an operator's stop or delete: every id is asked,
and nothing else in the flock moves. -/
theorem beginManualIds_sheep (hk : kind ≠ .restart) {ids : List ℕ} (hnd : ids.Nodup)
    (reply : ReplyKind) (a : Actor) (j : ℕ) :
    (a.beginManualIds w ids kind .operator reply).sheep[j]? =
      if j ∈ ids then (a.sheep[j]?).bind (SheepSlot.askedTo kind) else a.sheep[j]? := by
  have hg := gather_sheep (w := w) hk hnd ⟨[], [], a⟩ j
  unfold beginManualIds
  dsimp only
  split <;> exact hg

theorem beginManualIds_frame {origin : CommandOrigin} (ids : List ℕ) (reply : ReplyKind)
    (a : Actor) : (a.beginManualIds w ids kind origin reply).disabled = a.disabled ∧
      (a.beginManualIds w ids kind origin reply).reloads = a.reloads := by
  have hg := gather_frame (w := w) kind origin ids ⟨[], [], a⟩
  unfold beginManualIds
  dsimp only
  split <;> exact hg

/-- A stop or a delete of one id takes no reply channel and ends no task. -/
theorem manualOne_books (hk : kind ≠ .restart) (g : Gathered) :
    (manualOne w kind .operator g id).actor.nextReply = g.actor.nextReply ∧
      (manualOne w kind .operator g id).actor.tasks = g.actor.tasks := by
  have hclaim : (g.actor.claimManual id ⟨kind, .operator⟩ .stop).nextReply = g.actor.nextReply ∧
      (g.actor.claimManual id ⟨kind, .operator⟩ .stop).tasks = g.actor.tasks := by
    unfold claimManual
    split
    · exact ⟨rfl, rfl⟩
    · next s _ =>
      split
      · cases s.ctl <;> exact ⟨rfl, rfl⟩
      · split <;> exact ⟨rfl, rfl⟩
  unfold manualOne
  dsimp only
  split
  · exact ⟨rfl, rfl⟩
  · split
    · split
      · unfold markDelete modifySlot
        split <;> exact hclaim
      · exact hclaim
    · unfold applyImmediate
      split
      · exact ⟨rfl, rfl⟩
      · cases kind with
        | restart => exact absurd rfl hk
        | delete => exact ⟨rfl, rfl⟩
        | stop =>
          simp only [applyImmediateStop]
          split <;> exact ⟨rfl, rfl⟩

theorem manualOne_remaining (id : ℕ) (kind : ManualKind) (g : Gathered) :
    (g.actor.isRunning id = true → id ∈ (manualOne w kind .operator g id).remaining) ∧
      ∀ j ∈ g.remaining, j ∈ (manualOne w kind .operator g id).remaining := by
  unfold manualOne
  dsimp only
  split
  · next hauto => cases hauto.1
  · split
    · exact ⟨fun _ => by simp, fun j hj => by simp [hj]⟩
    · next hrun => exact ⟨fun h => absurd h hrun, fun j hj => hj⟩

theorem gather_remaining (kind : ManualKind) {ids : List ℕ} (hnd : ids.Nodup) (g : Gathered) :
    (∀ j ∈ ids, g.actor.isRunning j = true →
      j ∈ (ids.foldl (manualOne w kind .operator) g).remaining) ∧
      ∀ j ∈ g.remaining, j ∈ (ids.foldl (manualOne w kind .operator) g).remaining := by
  induction ids generalizing g with
  | nil => exact ⟨fun j hj => absurd hj List.not_mem_nil, fun j hj => hj⟩
  | cons id ids ih =>
    obtain ⟨hid, hnd⟩ := List.nodup_cons.1 hnd
    obtain ⟨hself, hkeep⟩ := manualOne_remaining (w := w) id kind g
    obtain ⟨hrest, hkeep'⟩ := ih hnd (manualOne w kind .operator g id)
    refine ⟨fun j hj hrun => ?_, fun j hj => hkeep' j (hkeep j hj)⟩
    rcases List.mem_cons.1 hj with rfl | hj
    · exact hkeep' j (hself hrun)
    · have hne : j ≠ id := fun e => hid (e ▸ hj)
      refine hrest j hj ?_
      rw [isRunning_of_ctl (congrArg (Option.map SheepSlot.ctl)
        ((Frame.manualOne w kind .operator g id).sheep j hne))]
      exact hrun

theorem gather_books (hk : kind ≠ .restart) (ids : List ℕ) (g : Gathered) :
    (ids.foldl (manualOne w kind .operator) g).actor.nextReply = g.actor.nextReply ∧
      (ids.foldl (manualOne w kind .operator) g).actor.tasks = g.actor.tasks := by
  induction ids generalizing g with
  | nil => exact ⟨rfl, rfl⟩
  | cons id ids ih =>
    rw [List.foldl_cons, (ih _).1, (ih _).2]
    exact manualOne_books hk g

/-- **A stop or a delete is answered at once when nothing runs**, and else
parked on every life it finds. -/
theorem beginManualIds_parks (hk : kind ≠ .restart) {ids : List ℕ} (hnd : ids.Nodup)
    (reply : ReplyKind) (a : Actor) :
    (a.beginManualIds w ids kind .operator reply).tasks = a.tasks ∧
      ∃ lives : List ℕ, (∀ id ∈ ids, ∀ s k, a.sheep[id]? = some s → s.ctl = some k → k ∈ lives) ∧
        (lives = [] ∨
          .parked a.nextReply lives ∈ (a.beginManualIds w ids kind .operator reply).trace) := by
  obtain ⟨hreply, htasks⟩ := gather_books (w := w) hk ids ⟨[], [], a⟩
  have hwaits := (gather_remaining (w := w) kind hnd ⟨[], [], a⟩).1
  have hlive : ∀ id ∈ ids, ∀ s k, a.sheep[id]? = some s → s.ctl = some k →
      (ids.foldl (manualOne w kind .operator) ⟨[], [], a⟩).actor.sheep[id]? = s.askedTo kind :=
    fun id hid s k hs hctl => gather_live (g := ⟨[], [], a⟩) hnd hid hs (by simp [hctl]) kind
  have hrun : ∀ {id : ℕ} {s : SheepSlot} {k : ℕ}, a.sheep[id]? = some s → s.ctl = some k →
      a.isRunning id = true := fun hs hctl => isRunning_iff.2 ⟨_, hs, by simp [hctl]⟩
  unfold beginManualIds
  dsimp only
  generalize ids.foldl (manualOne w kind .operator) ⟨[], [], a⟩ = g at hreply htasks hwaits hlive
  split
  · next hnone =>
    refine ⟨htasks, [], fun id hid s k hs hctl => ?_, Or.inl rfl⟩
    have hmem := hwaits id hid (hrun hs hctl)
    rw [List.isEmpty_iff.1 hnone] at hmem
    cases hmem
  · have hall : ∀ id ∈ ids, ∀ s k, a.sheep[id]? = some s → s.ctl = some k →
        k ∈ g.remaining.filterMap fun id => (g.actor.sheep[id]?).bind SheepSlot.ctl := by
      intro id hid s k hs hctl
      refine List.mem_filterMap.2 ⟨id, hwaits id hid (hrun hs hctl), ?_⟩
      rw [hlive id hid s k hs hctl, SheepSlot.askedTo_live (by simp [hctl])]
      exact hctl
    have hreply : g.actor.nextReply = a.nextReply := hreply
    refine ⟨htasks, _, hall, Or.inr ?_⟩
    rw [← hreply]
    exact List.mem_cons_self

theorem claimManual_spawnedTasks (id : ℕ) (m : PendingManual) (cap : LadderCap) (a : Actor) :
    (a.claimManual id m cap).spawnedTasks = a.spawnedTasks := by
  unfold claimManual
  split
  · rfl
  · next s hs =>
    split
    · cases s.ctl <;> rfl
    · split <;> rfl

/-- An operator's stop or delete starts no process. -/
theorem manualOne_spawnedTasks (hk : kind ≠ .restart) (g : Gathered) :
    (manualOne w kind .operator g id).actor.spawnedTasks = g.actor.spawnedTasks := by
  unfold manualOne
  dsimp only
  split
  · rfl
  · split
    · split
      · refine Eq.trans ?_ (claimManual_spawnedTasks id ⟨kind, .operator⟩ .stop g.actor)
        unfold markDelete modifySlot
        split <;> rfl
      · exact claimManual_spawnedTasks id _ _ _
    · unfold applyImmediate
      split
      · rfl
      · next s hs =>
        cases kind with
        | restart => exact absurd rfl hk
        | delete => rfl
        | stop =>
          simp only [applyImmediateStop]
          split <;> rfl

theorem beginManualIds_spawnedTasks (hk : kind ≠ .restart) (ids : List ℕ) (reply : ReplyKind)
    (a : Actor) :
    (a.beginManualIds w ids kind .operator reply).spawnedTasks = a.spawnedTasks := by
  have hg : ∀ g : Gathered, (ids.foldl (manualOne w kind .operator) g).actor.spawnedTasks =
      g.actor.spawnedTasks := by
    induction ids with
    | nil => exact fun g => rfl
    | cons id ids ih =>
      intro g
      rw [List.foldl_cons, ih, manualOne_spawnedTasks hk]
  unfold beginManualIds
  dsimp only
  split <;> exact hg ⟨[], [], a⟩

end Actor

end Supervisor

end Shep

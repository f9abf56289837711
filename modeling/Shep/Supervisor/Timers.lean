import Shep.Supervisor.Helpers.Play

/-!
# Supervisor — back-off timers

A timer is told stale by the epoch it was armed under, and the epoch moves
only when a spawn succeeds. **`timer_authority`** says that this is enough:
a timer other than the one of its slot's latest wait does nothing when it
fires, and two timers of one slot are never both live, in every run in
which no wait is entered twice at one epoch. **`timer_usurped`** is a run
that enters one twice.
-/

namespace Shep

namespace Supervisor

/-! ## Timers and epochs -/

/-- A timer of a slot's current epoch is its latest wait's, and the slot
has no process. -/
def Timed (sheep : Std.ExtTreeMap ℕ SheepSlot) (timers : List RestartTimer)
    (last : ℕ → Option ℕ) : Prop :=
  ∀ t ∈ timers, ∀ s : SheepSlot, sheep[t.id]? = some s → t.epoch ≤ s.epoch ∧
    (t.epoch = s.epoch → s.ctl = none ∧ last t.id = some t.serial)

/-- While `id` has no process it is at epoch `e`. -/
def Pinned (sheep : Std.ExtTreeMap ℕ SheepSlot) (id e : ℕ) : Prop :=
  ∀ s : SheepSlot, sheep[id]? = some s → s.ctl = none → s.epoch = e

/-- Every slot of `sheep'` has the process and the epoch it has in `sheep`. -/
def Likens (sheep sheep' : Std.ExtTreeMap ℕ SheepSlot) : Prop :=
  ∀ (id : ℕ) (s' : SheepSlot), sheep'[id]? = some s' →
    ∃ s, sheep[id]? = some s ∧ s'.ctl = s.ctl ∧ s'.epoch = s.epoch

section Tables

variable {sheep sheep' : Std.ExtTreeMap ℕ SheepSlot} {timers timers' : List RestartTimer}
variable {last : ℕ → Option ℕ} {id e : ℕ} {s s' : SheepSlot}

namespace Likens

theorem refl (sheep : Std.ExtTreeMap ℕ SheepSlot) : Likens sheep sheep :=
  fun _ s' hs' => ⟨s', hs', rfl, rfl⟩

theorem insert (hs : sheep[id]? = some s) (hctl : s'.ctl = s.ctl) (hepoch : s'.epoch = s.epoch) :
    Likens sheep (sheep.insert id s') := by
  intro j t ht
  rcases Table.of_insert ht with ⟨e, rfl⟩ | ⟨-, ht⟩
  · exact ⟨s, e ▸ hs, hctl, hepoch⟩
  · exact ⟨t, ht, rfl, rfl⟩

theorem erase (sheep : Std.ExtTreeMap ℕ SheepSlot) (id : ℕ) : Likens sheep (sheep.erase id) := by
  intro j t ht
  obtain ⟨-, ht⟩ := Table.of_erase ht
  exact ⟨t, ht, rfl, rfl⟩

theorem map {f : SheepSlot → SheepSlot} (hf : ∀ (id : ℕ) (s : SheepSlot),
    sheep[id]? = some s → (f s).ctl = s.ctl ∧ (f s).epoch = s.epoch) :
    Likens sheep (sheep.map fun _ s => f s) := by
  intro j t ht
  rw [Table.get_map, Option.map_eq_some_iff] at ht
  obtain ⟨s, hs, rfl⟩ := ht
  exact ⟨s, hs, hf j s hs⟩

end Likens

theorem Timed.mono (h : Timed sheep timers last) (hl : Likens sheep sheep')
    (ht : ∀ t ∈ timers', t ∈ timers) : Timed sheep' timers' last := by
  intro t htm s' hs'
  obtain ⟨s, hs, hctl, hepoch⟩ := hl t.id s' hs'
  rw [hctl, hepoch]
  exact h t (ht t htm) s hs

theorem Timed.enter (h : Timed sheep timers last) (hid : ∀ t ∈ timers, t.id ≠ id) :
    Timed (sheep.insert id s') timers last := by
  intro t ht s hs
  rw [Table.get_insert, if_neg (hid t ht)] at hs
  exact h t ht s hs

theorem Timed.renew (h : Timed sheep timers last) (hs : sheep[id]? = some s)
    (hepoch : s.epoch < s'.epoch ∨ s.ctl.isSome = true ∧ s'.epoch = s.epoch) :
    Timed (sheep.insert id s') timers last := by
  intro t ht u hu
  rcases Table.of_insert hu with ⟨he, rfl⟩ | ⟨-, hu⟩
  · obtain ⟨hle, heq⟩ := h t ht s (he ▸ hs)
    -- no timer of a running slot has its epoch
    have hlt : t.epoch < s'.epoch := by
      rcases hepoch with hlt | ⟨hlive, e⟩
      · exact hle.trans_lt hlt
      · rw [e]
        refine lt_of_le_of_ne hle fun he' => ?_
        simp [(heq he').1] at hlive
    exact ⟨hlt.le, fun he' => absurd he' hlt.ne⟩
  · exact h t ht u hu

theorem Pinned.mono (h : Pinned sheep id e) (hl : Likens sheep sheep') : Pinned sheep' id e := by
  intro s' hs' hctl
  obtain ⟨s, hs, hc, he⟩ := hl id s' hs'
  rw [he]
  exact h s hs (hc ▸ hctl)

theorem Pinned.live {j : ℕ} (h : Pinned sheep id e) (hctl : s'.ctl.isSome = true) :
    Pinned (sheep.insert j s') id e := by
  intro s hs hc
  rw [Table.get_insert] at hs
  split at hs
  · rw [Option.some.inj hs, hc] at hctl
    cases hctl
  · exact h s hs hc

end Tables

/-! ## The invariant -/

/-- What keeps a timer's epoch telling: inside an exit or a timer being
honoured, the slot is at the epoch it had then, and no timer in flight
before the turn has that epoch but the one being honoured. -/
structure Ticking (c : Turn) (x : Hole) (a : Actor) : Prop where
  timed : Timed a.sheep a.timers a.lastWait
  exiting : ∀ id taken, x = .exiting id taken →
    (∀ t ∈ c.before.timers, t.id = id → t.epoch ≠ taken.epoch) ∧ Pinned a.sheep id taken.epoch
  due : ∀ id, x = .due id → ∃ e,
    (∀ t ∈ c.before.timers, t.id = id → t.epoch = e → c.msg = .restartDue t) ∧ Pinned a.sheep id e

namespace Ticking

variable {c : Turn} {x : Hole} {a b : Actor} {id : ℕ} {s s' : SheepSlot}

theorem write (h : Ticking c x a) (ht : Timed b.sheep b.timers b.lastWait)
    (hp : ∀ id e, Pinned a.sheep id e → Pinned b.sheep id e) : Ticking c x b where
  timed := ht
  exiting id taken hx := ⟨(h.exiting id taken hx).1, hp _ _ (h.exiting id taken hx).2⟩
  due id hx := by
    obtain ⟨e, he, hpin⟩ := h.due id hx
    exact ⟨e, he, hp _ _ hpin⟩

theorem liken (h : Ticking c x a) (hl : Likens a.sheep b.sheep)
    (ht : ∀ t ∈ b.timers, t ∈ a.timers) (hw : b.lastWait = a.lastWait) : Ticking c x b :=
  h.write (hw ▸ h.timed.mono hl ht) fun _ _ hp => hp.mono hl

theorem of_timed (ht : Timed a.sheep a.timers a.lastWait) : Ticking c .none a :=
  ⟨ht, by simp, by simp⟩

/-- A timer armed for a slot with none of its epoch in flight is the one
of its latest wait. -/
theorem backOff (h : Ticking c x a) (hs : a.sheep[id]? = some s) (hctl : s.ctl = none)
    (hrest : s.RestsAs .waitingRestart s') (hnone : ∀ t ∈ a.timers, t.id = id → t.epoch ≠ s.epoch)
    (delay : Option ℕ) : Ticking c x (a.backOff id s' delay) := by
  have hl : Likens a.sheep (a.sheep.insert id s') :=
    .insert hs (hrest.ctl.trans hctl.symm) hrest.epoch
  refine h.write ?_ fun _ _ hp => hp.mono hl
  intro t ht u hu
  obtain ⟨v, hv, hvc, hve⟩ := hl t.id u hu
  rw [hvc, hve]
  rcases List.mem_cons.1 ht with rfl | ht
  · obtain rfl := Option.some.inj (hs.symm.trans hv)
    refine ⟨hrest.epoch.le, fun _ => ⟨hctl, ?_⟩⟩
    simp [Actor.backOff, Actor.scheduleRestart, Actor.lastWait, Effect.armed]
  · obtain ⟨hle, heq⟩ := h.timed t ht v hv
    refine ⟨hle, fun he => ?_⟩
    have hne : t.id ≠ id := by
      intro hid
      rw [hid] at hv
      obtain rfl := Option.some.inj (hs.symm.trans hv)
      exact hnone t ht hid he
    refine ⟨(heq he).1, ?_⟩
    have hlast : (a.backOff id s' delay).lastWait t.id = a.lastWait t.id := by
      simp [Actor.backOff, Actor.scheduleRestart, Actor.lastWait, Effect.armed, hne.symm,
        Actor.setSlot]
    exact hlast.trans (heq he).2

end Ticking

/-- A back-off the code may start finds no timer of its epoch in flight,
unless the turn is one of those that arm a second. -/
theorem Turn.MayWait.unarmed {c : Turn} {x : Hole} {a : Actor} {id : ℕ} {s : SheepSlot}
    (h : c.MayWait x a id s.epoch) (hagain : ¬ c.RewaitsManually id) (hdog : ¬ c.ReseatsTimed id)
    (hb : Inv .none c.before) (ht : Ticking c x a) (hs : a.sheep[id]? = some s)
    (hctl : s.ctl = none) : ∀ t ∈ a.timers, t.id = id → t.epoch ≠ s.epoch := by
  intro t htm hid he
  rcases h with ⟨⟨taken, rfl⟩, hsame⟩ | ⟨rfl, u, hmsg, herase⟩ | hnone | hbad | hbad
  · obtain ⟨hno, hpin⟩ := ht.exiting id taken rfl
    exact hno t (hsame ▸ htm) hid (he.trans (hpin s hs hctl))
  · -- the only timer of this epoch is the one being honoured, and it is spent
    obtain ⟨e, honly, hpin⟩ := ht.due id rfl
    rw [herase] at htm
    have hmsg' := honly t (List.mem_of_mem_erase htm) hid (he.trans (hpin s hs hctl))
    obtain rfl : u = t := by simpa using hmsg.symm.trans hmsg'
    exact (List.Nodup.not_mem_erase (List.Nodup.of_map _ hb.timers.nodup)) htm
  · exact hnone t htm hid he
  · exact hagain hbad
  · exact hdog hbad

theorem Actor.resolvePending_lastWait (info : ProcessInfo) (id : ℕ) (a : Actor) :
    (a.resolvePending id info).lastWait = a.lastWait := by
  funext j
  have hnone : (repliedWith (a.readyReplies id info)).findSome? (Effect.armed j) = none := by
    rw [List.findSome?_eq_none_iff]
    intro e he
    simp only [repliedWith, List.mem_reverse, List.mem_map] at he
    obtain ⟨p, -, rfl⟩ := he
    rfl
  rw [resolvePending_eq]
  simp only [lastWait, List.findSome?_append, hnone, Option.none_or]

/-- **A move keeps every timer's epoch telling**, in a turn that enters no
wait twice at one epoch. -/
theorem Move.ticking {c : Turn} {p q : Point} (hm : Move c p q)
    (hagain : ∀ id, ¬ c.RewaitsManually id) (hdog : ∀ id, ¬ c.ReseatsTimed id)
    (hb : Inv .none c.before) (hi : Inv p.hole p.actor) (h : Ticking c p.hole p.actor) :
    Ticking c q.hole q.actor := by
  cases hm with
  | quiet | bump | hear | drains | answer | park | halt | disable | enable | commit | verify |
    drop | shutdown | unwatch | panic | assertFail =>
    exact h.liken (.refl _) (fun _ ht => ht) rfl
  | edit s' hs hag => exact h.liken (.insert hs hag.ctl hag.epoch) (fun _ ht => ht) rfl
  | editAll f hf =>
    exact h.liken (.map fun id s hs => ⟨(hf id s hs).ctl, (hf id s hs).epoch⟩) (fun _ ht => ht) rfl
  | rest hs hctl hrest _ =>
    exact h.liken (.insert hs (hrest.ctl.trans hctl.symm) hrest.epoch) (fun _ ht => ht) rfl
  | @backOff x a id s s' delay hs hctl hrest _ hwait =>
    exact h.backOff hs hctl hrest (hwait.unarmed (hagain id) (hdog id) hb h hs hctl) delay
  | register | launch =>
    exact .of_timed (h.timed.enter fun t ht => (hi.timers.id_lt t ht).ne)
  | @reseat a id s s' hs _ _ _ _ _ _ _ htimed _
  | @reseatLive a id pid s s' credentials hs _ _ _ _ _ _ _ htimed _ =>
    exact .of_timed (h.timed.enter fun t ht he => hdog id (htimed ⟨t, ht, he⟩))
  | relaunch hs hctl hre _ _ _ =>
    refine h.write (h.timed.renew hs (Or.inl ?_)) fun _ _ hp => hp.live (by simp [hre.ctl])
    rw [hre.epoch]
    exact Nat.lt_succ_self _
  | @claim x a id s m cap hs _ _ _ _ =>
    refine h.liken (.insert hs rfl rfl) (fun _ ht => ht) (funext fun j => ?_)
    cases hk : s.ctl <;> rfl
  | displace _ _ hs _ _ _ _ _ | doom hs _ _ | beginSerial hs _ _ _ _ _ _ _ _ _ | putBack hs _ _
  | scratch hs _ _ _ | unmark hs _ | lapse _ _ hs | online hs _ _ _ | parkFailed hs _
  | demote hs _ _ _ => exact h.liken (.insert hs rfl rfl) (fun _ ht => ht) rfl
  | remarkStop | remarkRestart =>
    refine h.liken (.map fun id s _ => ?_) (fun _ ht => ht) rfl
    split <;> exact ⟨rfl, rfl⟩
  | deregister => exact h.liken (.erase _ _) (fun _ ht => ht) rfl
  | @exit a s task outcome hbefore _ _ hs hctl =>
    have htimed := h.timed
    refine ⟨htimed.renew hs (Or.inr ⟨by simp [hctl], rfl⟩), ?_, by simp⟩
    rintro id taken he
    obtain ⟨rfl, rfl⟩ := Hole.exiting.inj he
    refine ⟨fun t ht hid hepoch => ?_, fun u hu _ => ?_⟩
    · have hidle := ((htimed t (hbefore ▸ ht) s (hid ▸ hs)).2 hepoch).1
      rw [hctl] at hidle
      cases hidle
    · rw [Table.get_insert, if_pos rfl] at hu
      obtain rfl := Option.some.inj hu
      rfl
  | @resolve a id taken info _ _ =>
    have hlast := Actor.resolvePending_lastWait info id a
    rw [Actor.resolvePending_eq] at hlast ⊢
    exact .of_timed (hlast ▸ h.timed)
  | expire t => exact h.liken (.refl _) (fun _ ht => List.mem_of_mem_erase ht) rfl
  | @fire a s t hbefore hmsg ht hs hwaiting hepoch hctl =>
    have htimed := h.timed
    refine ⟨htimed.mono (.refl _) fun _ ht => List.mem_of_mem_erase ht, by simp, ?_⟩
    rintro id he
    obtain rfl := Hole.due.inj he
    refine ⟨s.epoch, fun u hu hid he' => ?_, fun v hv _ => ?_⟩
    · -- both are the timer of the slot's latest wait
      have hu' := ((htimed u (hbefore ▸ hu) s (hid ▸ hs)).2 he').2
      have ht' := ((htimed t ht s hs).2 hepoch.symm).2
      rw [hid, ht'] at hu'
      rw [hmsg, List.inj_on_of_nodup_map hi.timers.nodup ht (hbefore ▸ hu) (Option.some.inj hu')]
    · rw [Option.some.inj (hs.symm.trans hv)]
  | honour => exact .of_timed h.timed
  | @beginOverlap a n oldId pid s s' queue credentials hs _ _ _ _ _ hrep _ _ _ _ _ =>
    refine .of_timed ?_
    have hdrain : Timed (a.sheep.insert oldId (s.draining (some a.nextId))) a.timers a.lastWait :=
      h.timed.mono (.insert hs rfl rfl) fun _ ht => ht
    exact hdrain.enter fun t ht => (hi.timers.id_lt t ht).ne
  | @serialSpawn a n oldId pid s s' taken job credentials hs _ _ _ _ _ _ hrep =>
    have hl : Likens a.sheep (a.sheep.insert oldId (s.draining (some a.nextId))) :=
      .insert hs rfl rfl
    refine h.write ?_ fun _ _ hp => (hp.mono hl).live (by simp [hrep.ctl])
    exact (h.timed.mono hl fun _ ht => ht).enter fun t ht => (hi.timers.id_lt t ht).ne
  | restore _ _ hs _ =>
    refine h.liken (.insert hs (SheepSlot.restore_ctl _) ?_) (fun _ ht => ht) rfl
    simp only [SheepSlot.restore]
    split <;> rfl

/-! ## Timers along a run -/

/-- Nothing but the timer's own end comes of its firing. -/
def Actor.Inert (a : Actor) (t : RestartTimer) : Prop :=
  ∀ w, a.turn w (.restartDue t) = { a with timers := a.timers.erase t }.pruneDisabled

theorem Actor.inert_of_epoch {a : Actor} {t : RestartTimer}
    (h : ∀ s, a.sheep[t.id]? = some s → s.epoch ≠ t.epoch) : a.Inert t := by
  intro w
  suffices hsame : handleRestartDue w t.id t.epoch { a with timers := a.timers.erase t } =
      { a with timers := a.timers.erase t } by
    simp only [turn, receive, handle, forget, hsame]
  unfold handleRestartDue
  split
  · rfl
  · cases hs : a.sheep[t.id]? with
    | none => rfl
    | some s => exact if_neg fun hboth => h s hs hboth.2

/-- The turns that may arm a second timer at one epoch. -/
def Turn.Rearms (c : Turn) : Prop := ∃ id, c.RewaitsManually id ∨ c.ReseatsTimed id

theorem timed_run {dogBinaries : List (String × String)} {h : List (Actor × World × Msg)}
    {a : Actor} (hr : Run Actor.Step (.init dogBinaries) h a)
    (hC : Meets (fun s e => ¬ Turn.Rearms ⟨s, e.1, e.2⟩) h) :
    Timed a.sheep a.timers a.lastWait := by
  refine run_keeps (C := fun c => ¬ c.Rearms)
    (Q := fun a => Timed a.sheep a.timers a.lastWait)
    (P := fun c p => Inv .none c.before ∧ Ticking c p.hole p.actor)
    (fun c _ hi ht => ⟨hi, .of_timed ht⟩) ?_ (fun _ _ h => h.2.timed) hr hC
    (Actor.inv_init dogBinaries) (by simp [Timed, Actor.init])
  rintro c p q hc hi ⟨hb, ht⟩ hm
  exact ⟨hb, hm.ticking (fun id hid => hc ⟨id, Or.inl hid⟩) (fun id hid => hc ⟨id, Or.inr hid⟩)
    hb hi ht⟩

/-- **Only the timer of a slot's latest wait respawns it**, and no two
timers of one slot are both live: in every state of a run in which no turn
arms a second timer at one epoch. -/
theorem timer_authority {dogBinaries : List (String × String)} {h : List (Actor × World × Msg)}
    {a : Actor} (hr : Run Actor.Step (.init dogBinaries) h a)
    (hC : Meets (fun s e => ¬ Turn.Rearms ⟨s, e.1, e.2⟩) h) :
    (∀ t ∈ a.timers, a.lastWait t.id ≠ some t.serial → a.Inert t) ∧
      ∀ t ∈ a.timers, ∀ t' ∈ a.timers, t.id = t'.id → t ≠ t' → a.Inert t ∨ a.Inert t' := by
  have htimed := timed_run hr hC
  have hinert : ∀ t ∈ a.timers, a.lastWait t.id ≠ some t.serial → a.Inert t := by
    intro t ht hlast
    refine Actor.inert_of_epoch fun s hs he => hlast ?_
    exact ((htimed t ht s hs).2 he.symm).2
  refine ⟨hinert, fun t ht t' ht' hid hne => ?_⟩
  by_cases hlast : a.lastWait t.id = some t.serial
  · refine Or.inr (hinert t' ht' fun hlast' => hne ?_)
    rw [← hid, hlast] at hlast'
    exact List.inj_on_of_nodup_map (Actor.reachable_inv hr).timers.nodup ht ht'
      (Option.some.inj hlast')
  · exact Or.inl (hinert t ht hlast)

/-- An app crashes, is restarted by hand while it waits, and crashes
again: the timer of the first wait is still in flight in the second. -/
def rewaiting : List (World × Msg) :=
  [(plain, .command (.start [{ name := "web" }] .allOrNothing [])),
    (plain, .exited (life 0 0 { name := "web" } .fresh) ⟨some 1, none⟩ false),
    (plain, .command (.restart .all .operator)),
    (plain, .exited (life 1 0 { name := "web" } .respawn) ⟨some 1, none⟩ false)]

theorem timer_authority_rewaiting :
    ((Actor.init []).play rewaiting).Inert ⟨0, 0, 0, some 100⟩ := by
  have hplay : (Actor.init []).Playable rewaiting := by decide +kernel
  refine (timer_authority hplay.run (Actor.meets_history ?_ _)).1 _ (by decide +kernel)
    (by decide +kernel)
  simp [rewaiting, Turn.Rearms, Turn.RewaitsManually, Turn.Restarts, Turn.ReseatsTimed, plain]

/-- A world in which no provider has answered yet: every spawn is refused
for now. -/
def awaiting : World :=
  { plain with assemble := fun _ _ => .error (.template "env" "no provider has answered yet" true) }

/-- **A timer of an earlier wait respawns a slot.** The app waits, is
restarted by hand, and waits again at the same epoch; the timer of the
first wait fires, and spawns. -/
theorem timer_usurped : ∃ (h : List (Actor × World × Msg)) (a : Actor) (t : RestartTimer),
    Run Actor.Step (.init []) h a ∧ t ∈ a.timers ∧ a.lastWait t.id ≠ some t.serial ∧
      (a.turn plain (.restartDue t)).spawnedTasks ≠ a.spawnedTasks := by
  have hplay : (Actor.init []).Playable
      [(awaiting, .command (.start [{ name := "web" }] .allOrNothing [])),
        (awaiting, .command (.restart .all .operator))] := by decide +kernel
  exact ⟨_, _, ⟨0, 0, 0, some 100⟩, hplay.run, by decide +kernel, by decide +kernel,
    by decide +kernel⟩

end Supervisor

end Shep

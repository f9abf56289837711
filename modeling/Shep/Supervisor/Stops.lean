import Shep.Supervisor.Helpers.Barred
import Shep.Supervisor.Helpers.Play
import Shep.Supervisor.Ownership
import Shep.Supervisor.Replies

/-!
# Supervisor — a stop or a delete against a reload

**`stop_stands`**: once a stop or a delete of a whole app has been answered,
no process a reload spawned runs under it, and of a deleted app nothing is
registered, until an operator asks for the app again. This holds when the
app's reload, if one is in flight, is not draining an instance it has yet
to replace, and has nothing left in its queue that comes back by itself.
**`stop_undone`**: in a serial drain it does not, for a stop and for a
delete.
-/

namespace Shep

namespace Supervisor

/-! ## Between turns -/

/-- A reload of `n` in flight has nothing left to take, and the
replacements of `n` that run are among `old`. -/
structure Actor.Bars (n : String) (old : List Task) (a : Actor) : Prop where
  jobs : ∀ job : ReloadJob, a.reloads[n]? = some job → job.swap.phase ≠ .drainFirst ∧
    ∀ id ∈ job.queue, ∀ s, a.sheep[id]? = some s → s.Barred
  lives : ∀ t ∈ a.tasks, t.name = n → t.via = .replacement → t ∈ old

theorem Actor.Bars.begin {c : Turn} {n : String} {old : List Task} (h : c.before.Bars n old)
    (hi : Inv .none c.before) : c.Bars n old ⟨.none, c.before⟩ where
  inv := hi
  since := c.since_begin
  slots := by
    refine ⟨?_, ?_, by simp⟩
    · rintro id s ⟨job, hj, hid⟩ hs
      exact (hi.jobs n job hj).queue_name id hid s hs
    · rintro id s ⟨job, hj, hid⟩ hs -
      exact (h.jobs job hj).2 id hid s hs
  jobs job hj := ⟨(h.jobs job hj).1, fun _ hid => ⟨job, hj, hid⟩⟩
  lives := h.lives

theorem Turn.Bars.leave {c : Turn} {n : String} {old : List Task} {b : Actor}
    (h : c.Bars n old ⟨.none, b⟩) : b.pruneDisabled.Bars n old where
  jobs job hj := ⟨(h.jobs job hj).1, fun id hid s hs =>
    h.slots.down id s ((h.jobs job hj).2 id hid) hs (Hole.none_spares id)⟩
  lives := h.lives

/-- The step that leaves an app's reload alone. -/
def Turn.Spares (c : Turn) (n : String) : Prop := ¬ c.Starts n ∧ ¬ c.Revives n

variable {n : String} {old : List Task} {a b : Actor} {h : List (Actor × World × Msg)}

/-- A reload with nothing to take spawns nothing, and an app on its way out
goes. -/
theorem bars_run (lives : List ℕ) (hr : Run Actor.Step b h a)
    (hC : Meets (fun s e => Turn.Spares ⟨s, e.1, e.2⟩ n) h) (hb : Inv .none b) (h0 : b.Bars n old) :
    a.Bars n old ∧ (Condemning n lives .none b.sheep → Condemning n lives .none a.sheep) := by
  have hall := run_keeps (C := fun c => c.Spares n)
    (Q := fun a => a.Bars n old ∧
      (Condemning n lives .none b.sheep → Condemning n lives .none a.sheep))
    (P := fun c p => c.Bars n old p ∧
      (Condemning n lives .none b.sheep → Condemning n lives p.hole p.actor.sheep))
    (fun _ _ hi h => ⟨h.1.begin hi, h.2⟩) ?_ (fun _ _ h => ⟨h.1.leave, h.2⟩) hr hC hb
    ⟨h0, fun h => h⟩
  · exact hall
  · rintro c p q ⟨hst, hrev⟩ hi ⟨hbars, hgoing⟩ hm
    exact ⟨hm.bars hst hrev hi hbars, fun h => hm.condemning hst hbars (hgoing h)⟩

theorem recorded_run (hr : Run Actor.Step b h a) (hb : Inv .none b) {e : Effect}
    (he : e ∈ b.trace) : e ∈ a.trace := by
  refine run_keeps (C := fun _ => True) (Q := fun a => e ∈ a.trace)
    (P := fun _ p => e ∈ p.actor.trace) (fun _ _ _ h => h) (fun c p q _ _ h hm => ?_)
    (fun _ _ h => h) hr (fun _ _ => trivial) hb he
  obtain ⟨new, hnew, -⟩ := hm.said.claimed
  rw [hnew]
  exact List.mem_append_right _ h

/-! ## What a stop or a delete leaves -/

/-- An operator's stop or delete that is carried out and reaches every
instance of `n`. -/
def Turn.Dismisses (c : Turn) (kind : ManualKind) (n : String) : Prop :=
  (∃ selector, c.msg = .command (.stop selector) ∧ kind = .stop ∨
    c.msg = .command (.delete selector) ∧ kind = .delete) ∧
  ∀ (id : ℕ) (s : SheepSlot), c.before.sheep[id]? = some s → s.name = n → c.Asks id kind

/-- The reload of `n` the turn finds in flight, if it finds one, drains no
instance it has yet to replace. Nor, when the turn is a stop, does it wait
to take one that an operator has asked to restart, or one with no process
that is not at rest. -/
structure Turn.Unhindered (c : Turn) (kind : ManualKind) (n : String) : Prop where
  drains : ∀ job : ReloadJob, c.before.reloads[n]? = some job → job.swap.phase ≠ .drainFirst
  takes : kind = .stop → ∀ (id : ℕ) (s : SheepSlot), c.Takes n id → c.before.sheep[id]? = some s →
    (s.ctl.isSome = true → s.manual ≠ some ⟨.restart, .operator⟩) ∧
      (s.ctl = none → s.entry.status.Rests ∧ s.readyFailed = false)

/-- `b` is `a` with every one of `ids` asked to stop or to go, the reply
parked on `lives`: on every life there is under them. -/
structure Actor.Asked (kind : ManualKind) (ids lives : List ℕ) (a b : Actor) : Prop where
  sheep : ∀ j : ℕ, b.sheep[j]? =
    if j ∈ ids then (a.sheep[j]?).bind (SheepSlot.askedTo kind) else a.sheep[j]?
  reloads : b.reloads = a.reloads
  tasks : b.tasks = a.tasks
  running : ∀ id ∈ ids, ∀ (s : SheepSlot) (k : ℕ), a.sheep[id]? = some s → s.ctl = some k → k ∈ lives
  parked : lives = [] ∨ .parked a.nextReply lives ∈ b.trace

theorem Actor.Asked.none (kind : ManualKind) (a : Actor) (answer : Answer) :
    a.Asked kind [] [] (a.answer answer).pruneDisabled :=
  ⟨fun _ => rfl, rfl, rfl, by simp, Or.inl rfl⟩

namespace Turn.Dismisses

variable {c : Turn} {kind : ManualKind}

theorem kind_ne (hd : c.Dismisses kind n) : kind ≠ .restart := by
  obtain ⟨⟨selector, ⟨-, rfl⟩ | ⟨-, rfl⟩⟩, -⟩ := hd <;> simp

/-- **What the turn leaves**: every instance of the app asked, and nothing
else of the flock moved. -/
theorem leaves (hd : c.Dismisses kind n) : ∃ ids lives : List ℕ,
    (∀ (id : ℕ) (s : SheepSlot), c.before.sheep[id]? = some s → s.name = n → id ∈ ids) ∧
      c.before.Asked kind ids lives (c.before.turn c.world c.msg) := by
  have hk := hd.kind_ne
  obtain ⟨⟨selector, hmsg⟩, hall⟩ := hd
  have hmem : ∀ (id : ℕ) (s : SheepSlot), c.before.sheep[id]? = some s → s.name = n →
      id ∈ c.before.matchingIds selector ∧ (kind = .delete →
        ∀ j ∈ c.before.matchingIds selector, c.before.builtInDogName j = none) := by
    intro id s hs hn
    have hasks := hall id s hs hn
    rcases hmsg with ⟨hmsg, rfl⟩ | ⟨hmsg, rfl⟩ <;> simp only [Turn.Asks, hmsg] at hasks
    · exact ⟨hasks.2, by simp⟩
    · exact ⟨hasks.2.1, fun _ => hasks.2.2⟩
  obtain ⟨reply, hturn⟩ : ∃ reply, c.before.turn c.world c.msg =
      (c.before.beginManual c.world selector kind .operator reply).pruneDisabled := by
    rcases hmsg with ⟨hmsg, rfl⟩ | ⟨hmsg, rfl⟩
    · exact ⟨.info, by rw [hmsg]; rfl⟩
    · exact ⟨.ids, by rw [hmsg]; rfl⟩
  rw [hturn]
  unfold Actor.beginManual
  dsimp only
  split
  · next hempty =>
    refine ⟨[], [], fun id s hs hn => ?_, .none kind c.before _⟩
    exact List.isEmpty_iff.1 hempty ▸ (hmem id s hs hn).1
  · split
    · next name hdog =>
      -- a delete that is refused finds no instance of the app
      refine ⟨[], [], fun id s hs hn => ?_, .none kind c.before _⟩
      by_cases hdel : kind = .delete
      · rw [if_pos hdel, List.findSome?_eq_none_iff.2 ((hmem id s hs hn).2 hdel)] at hdog
        cases hdog
      · rw [if_neg hdel] at hdog
        cases hdog
    · have hnd := Actor.nodup_matchingIds (a := c.before) selector
      obtain ⟨htasks, lives, hlives, hparked⟩ :=
        Actor.beginManualIds_parks (w := c.world) hk hnd reply c.before
      exact ⟨c.before.matchingIds selector, lives, fun id s hs hn => (hmem id s hs hn).1,
        Actor.beginManualIds_sheep hk hnd reply c.before, (Actor.beginManualIds_frame _ reply _).2,
        htasks, hlives, hparked⟩

end Turn.Dismisses

/-- An instance asked to stop that an operator had not asked to restart, or
one asked to go. -/
theorem SheepSlot.askedTo_barred {kind : ManualKind} {s s' : SheepSlot} (hk : kind ≠ .restart)
    (hs' : s.askedTo kind = some s') (hasks : kind = .stop →
      (s.ctl.isSome = true → s.manual ≠ some ⟨.restart, .operator⟩) ∧
        (s.ctl = none → s.entry.status.Rests ∧ s.readyFailed = false)) : s'.Barred := by
  cases hc : s.ctl with
  | some k =>
    rw [askedTo_live (by simp [hc])] at hs'
    obtain rfl := Option.some.inj hs'
    refine ⟨fun hnone => ?_, fun _ => ⟨rfl, ?_⟩⟩
    · rw [show _ = none from hnone] at hc
      cases hc
    · cases kind with
      | restart => exact absurd rfl hk
      | delete => exact Or.inr (by simp)
      | stop =>
        have hnot := (hasks rfl).1 (by simp [hc])
        refine Or.inl ⟨(s.ownerFor .stop).kind, ?_, ?_⟩
        · rw [← s.ownerFor_origin .stop]
        · unfold ownerFor
          split
          · next held hm =>
            split
            · simp
            · next hop =>
              intro hres
              obtain ⟨k, o⟩ := held
              cases o with
              | automatic => exact hop rfl
              | operator => exact hnot (by rw [hm, show k = .restart from hres])
          · simp
  | none =>
    cases kind with
    | restart => exact absurd rfl hk
    | delete => simp [askedTo, hc] at hs'
    | stop =>
      obtain ⟨hrest, hready⟩ := (hasks rfl).2 hc
      simp only [askedTo, hc, Option.isSome_none, Bool.false_eq_true, if_false, reduceCtorEq] at hs'
      split at hs'
      · obtain rfl := Option.some.inj hs'
        exact ⟨fun _ => ⟨Or.inl rfl, hready⟩, by simp [setStatus, hc]⟩
      · next hnot =>
        obtain rfl := Option.some.inj hs'
        exact ⟨fun _ => ⟨hrest.imp_right fun h => h.resolve_right fun hw => hnot (Or.inl hw), hready⟩,
          by simp [hc]⟩

section Answered

variable {c : Turn} {kind : ManualKind} {ids lives : List ℕ}

theorem Actor.Asked.slot (h : c.before.Asked kind ids lives b) {id : ℕ} {s' : SheepSlot}
    (hcovers : ∀ (id : ℕ) (s : SheepSlot), c.before.sheep[id]? = some s → s.name = n → id ∈ ids)
    (hs' : b.sheep[id]? = some s') (hn : s'.name = n) : ∃ s, c.before.sheep[id]? = some s ∧
      s.name = n ∧ s.askedTo kind = some s' := by
  rw [h.sheep] at hs'
  split at hs'
  · obtain ⟨s, hs, hask⟩ := Option.bind_eq_some_iff.1 hs'
    exact ⟨s, hs, (SheepSlot.askedTo_name hask).symm.trans hn, hask⟩
  · next hnot => exact absurd (hcovers id s' hs' hn) hnot

theorem Turn.Unhindered.bars (hun : c.Unhindered kind n) (hk : kind ≠ .restart)
    (hi : Inv .none c.before) (h : c.before.Asked kind ids lives b)
    (hcovers : ∀ (id : ℕ) (s : SheepSlot), c.before.sheep[id]? = some s → s.name = n → id ∈ ids) :
    b.Bars n b.tasks where
  jobs job hj := by
    rw [h.reloads] at hj
    refine ⟨hun.drains job hj, fun id hid s' hs' => ?_⟩
    have hname : s'.name = n := by
      have hs := hs'
      rw [h.sheep] at hs
      split at hs
      · obtain ⟨s, hs, hask⟩ := Option.bind_eq_some_iff.1 hs
        exact (SheepSlot.askedTo_name hask).trans ((hi.jobs n job hj).queue_name id hid s hs)
      · exact (hi.jobs n job hj).queue_name id hid s' hs
    obtain ⟨s, hs, -, hask⟩ := h.slot hcovers hs' hname
    exact SheepSlot.askedTo_barred hk hask fun e => hun.takes e id s ⟨job, hj, hid⟩ hs
  lives t ht _ _ := ht

theorem Actor.Asked.condemning (h : c.before.Asked .delete ids lives b)
    (hcovers : ∀ (id : ℕ) (s : SheepSlot), c.before.sheep[id]? = some s → s.name = n → id ∈ ids) :
    Condemning n lives .none b.sheep where
  live id s' hs' hn _ := by
    obtain ⟨s, hs, hsn, hask⟩ := h.slot hcovers hs' hn
    cases hc : s.ctl with
    | none => simp [SheepSlot.askedTo, hc] at hask
    | some k =>
      rw [SheepSlot.askedTo_live (by simp [hc])] at hask
      obtain rfl := Option.some.inj hask
      exact ⟨by simp, k, h.running id (hcovers id s hs hsn) s k hs hc, hc⟩
  taken := by simp

theorem Ledger.ended {tag : ℕ} (h : Ledger .none a)
    (hparked : lives = [] ∨ .parked tag lives ∈ a.trace) (hsaid : 0 < a.repliesTo tag) :
    ∀ k ∈ lives, a.hasExited k = true := by
  rcases hparked with rfl | hparked
  · simp
  · obtain ⟨-, -, ⟨p, rfl, hu⟩ | hd⟩ := h.booked tag lives hparked
    · have hnone := hu.unsent
      omega
    · exact hd.ended

end Answered

/-- **A stop or a delete of a whole app stands.** Once it has been answered
no process that a reload spawned runs under the app, and of a deleted app
nothing is registered, until an operator asks for the app again: when the
turn finds the app's reload neither draining an instance it has yet to
replace nor waiting to take one that will come back, and no cron or watch
restart brings one back that the reload still waits to take. -/
theorem stop_stands {dogBinaries : List (String × String)} {h h' : List (Actor × World × Msg)}
    {b b' a : Actor} {e : World × Msg} {kind : ManualKind} {n : String}
    (hb : Run Actor.Step (.init dogBinaries) h b) (hstep : Actor.Step b e b')
    (hdis : Turn.Dismisses ⟨b, e.1, e.2⟩ kind n) (hun : Turn.Unhindered ⟨b, e.1, e.2⟩ kind n)
    (hr : Run Actor.Step b' h' a)
    (hC : Meets (fun s e => ¬ Turn.Starts ⟨s, e.1, e.2⟩ n ∧ ¬ Turn.Revives ⟨s, e.1, e.2⟩ n) h')
    (hsaid : 0 < a.repliesTo b.nextReply) :
    (∀ t ∈ a.tasks, t.name = n → t.via ≠ .replacement) ∧
      (kind = .delete → ∀ (id : ℕ) (s : SheepSlot), a.sheep[id]? = some s → s.name ≠ n) := by
  have hi := Actor.reachable_inv hb
  have hi' := hstep.inv hi
  have hrun := (hb.snoc hstep).append hr
  have hledger := ledger_run hrun
  have hinv := Actor.reachable_inv hrun
  obtain ⟨ids, lives, hcovers, hasked⟩ := hdis.leaves
  obtain ⟨-, -, rfl⟩ := hstep
  obtain ⟨hbars, hgoing⟩ := bars_run lives hr hC hi'
    (hun.bars hdis.kind_ne hi hasked hcovers)
  have hended := hledger.ended (hasked.parked.imp_right (recorded_run hr hi')) hsaid
  -- a life the reply was parked on runs no more
  have hover : ∀ t ∈ a.tasks, t.serial ∉ lives := by
    intro t ht hlive
    have hrunning := hledger.unexited t ht
    rw [hended _ hlive] at hrunning
    cases hrunning
  refine ⟨fun t ht hn hvia => ?_, ?_⟩
  · have hold := hbars.lives t ht hn hvia
    rw [hasked.tasks] at hold
    obtain ⟨s, hs, hctl, hname, -⟩ := hi.tasks.owned t hold
    exact hover t ht (hasked.running _ (hcovers _ s hs (hname.trans hn)) s _ hs hctl)
  · rintro rfl id s hs hn
    obtain ⟨-, k, hk, hctl⟩ := (hgoing (hasked.condemning hcovers)).live id s hs hn
      (Hole.none_spares id)
    obtain ⟨t, ht, rfl, -⟩ := hinv.tasks.running id s k hs hctl
    exact hover t ht hk

/-- The delete of an app in the middle of a committed swap. -/
def deletingAll : World × Msg := (plain, .command (.delete .all))

theorem stop_stands_overlapping :
    let a := (((Actor.init []).play overlapping).turn deletingAll.1 deletingAll.2).play
      [drained, (plain, .exited (life 1 1 probed .replacement) ⟨some 0, none⟩ false)]
    (∀ t ∈ a.tasks, t.name = "web" → t.via ≠ .replacement) ∧
      (ManualKind.delete = .delete → ∀ (id : ℕ) (s : SheepSlot), a.sheep[id]? = some s →
        s.name ≠ "web") := by
  have hplay : (Actor.init []).Playable overlapping := by decide +kernel
  have hplay' : (((Actor.init []).play overlapping).turn deletingAll.1 deletingAll.2).Playable
      [drained, (plain, .exited (life 1 1 probed .replacement) ⟨some 0, none⟩ false)] := by
    decide +kernel
  have hids : ((Actor.init []).play overlapping).sheep.toList.map Prod.fst = [0, 1] ∧
      ((Actor.init []).play overlapping).matchingIds .all = [0, 1] ∧
      ∀ id ∈ [0, 1], ((Actor.init []).play overlapping).builtInDogName id = none := by decide +kernel
  have hjob : ((Actor.init []).play overlapping).reloads["web"]?.map (fun job => job.swap.phase) =
      some .drainOld := by decide +kernel
  refine stop_stands (h := (Actor.init []).history overlapping) hplay.run (e := deletingAll)
    ⟨by decide +kernel, trivial, rfl⟩ ⟨⟨.all, Or.inr ⟨rfl, rfl⟩⟩, fun id s hs _ => ?_⟩
    ⟨fun job hj => ?_, fun hk => by cases hk⟩ hplay'.run ?_ (by decide +kernel)
  · have hmem : id ∈ ((Actor.init []).play overlapping).sheep.toList.map Prod.fst :=
      List.mem_map.2 ⟨(id, s), Table.mem_toList.2 hs, rfl⟩
    rw [hids.1] at hmem
    exact ⟨rfl, hids.2.1 ▸ hmem, fun j hj => hids.2.2 j (hids.2.1 ▸ hj)⟩
  · have hj : ((Actor.init []).play overlapping).reloads["web"]? = some job := hj
    rw [hj, Option.map_some, Option.some.injEq] at hjob
    simp [hjob]
  · simp [Meets, Actor.history, drained, Turn.Starts, Turn.Revives, Turn.Adds, Turn.Enables]

/-- An app behind a probe that cannot share its port, so that its reloads
drain first. -/
def unshared : AppConfig := { name := "web", readinessProbe := some "http://127.0.0.1:8080/" }

/-- Its one instance serves, and its reload has asked it to go. -/
def drainingFirst : List (World × Msg) :=
  [(plain, .command (.start [unshared] .allOrNothing [])), (plain, .readyResult ⟨0, 0, true⟩ .ready),
    (plain, .command (.reload .all))]

/-- The command reaches every instance and is answered, no operator asks
for the app again, and a replacement of it runs. -/
def Undone (command : Command) (kind : ManualKind) : Prop :=
  ∃ (h h' : List (Actor × World × Msg)) (b a : Actor) (t : Task),
    Run Actor.Step (.init []) h b ∧ Turn.Dismisses ⟨b, plain, .command command⟩ kind "web" ∧
      Run Actor.Step (b.turn plain (.command command)) h' a ∧
      Meets (fun s e => ¬ Turn.Starts ⟨s, e.1, e.2⟩ "web") h' ∧
      a.repliesTo b.nextReply = 1 ∧ t ∈ a.tasks ∧ t.name = "web" ∧ t.via = .replacement ∧
      (a.sheep[t.id]?).isSome = true

/-- **A stop and a delete that a serial drain undoes.** The instance the
drain was waiting for exits, and in handling that exit its replacement is
spawned before the command is answered. -/
theorem stop_undone : Undone (.stop .all) .stop ∧ Undone (.delete .all) .delete := by
  have hplay : (Actor.init []).Playable drainingFirst := by decide +kernel
  have hids : ((Actor.init []).play drainingFirst).sheep.toList.map Prod.fst = [0] ∧
      ((Actor.init []).play drainingFirst).matchingIds .all = [0] ∧
      ((Actor.init []).play drainingFirst).builtInDogName 0 = none := by decide +kernel
  have hmem : ∀ (id : ℕ) (s : SheepSlot), ((Actor.init []).play drainingFirst).sheep[id]? = some s →
      id ∈ ((Actor.init []).play drainingFirst).matchingIds .all := by
    intro id s hs
    rw [hids.2.1, ← hids.1]
    exact List.mem_map.2 ⟨(id, s), Table.mem_toList.2 hs, rfl⟩
  have hdog : ∀ j ∈ ((Actor.init []).play drainingFirst).matchingIds .all,
      ((Actor.init []).play drainingFirst).builtInDogName j = none := by
    rw [hids.2.1]
    simp [hids.2.2]
  have hmeets : ∀ b : Actor, Meets (fun s e => ¬ Turn.Starts ⟨s, e.1, e.2⟩ "web")
      (b.history [(plain, .exited (life 0 0 unshared .fresh) ⟨some 0, none⟩ false)]) := by
    simp [Meets, Actor.history, Turn.Starts, Turn.Adds, Turn.Enables]
  constructor
  · have hplay' : (((Actor.init []).play drainingFirst).turn plain (.command (.stop .all))).Playable
        [(plain, .exited (life 0 0 unshared .fresh) ⟨some 0, none⟩ false)] := by decide +kernel
    exact ⟨_, _, _, _, life 1 1 unshared .replacement, hplay.run,
      ⟨⟨.all, Or.inl ⟨rfl, rfl⟩⟩, fun id s hs _ => ⟨rfl, hmem id s hs⟩⟩, hplay'.run, hmeets _,
      by decide +kernel, by decide +kernel, rfl, rfl, by decide +kernel⟩
  · have hplay' : (((Actor.init []).play drainingFirst).turn plain (.command (.delete .all))).Playable
        [(plain, .exited (life 0 0 unshared .fresh) ⟨some 0, none⟩ false)] := by decide +kernel
    exact ⟨_, _, _, _, life 1 1 unshared .replacement, hplay.run,
      ⟨⟨.all, Or.inr ⟨rfl, rfl⟩⟩, fun id s hs _ => ⟨rfl, hmem id s hs, hdog⟩⟩, hplay'.run, hmeets _,
      by decide +kernel, by decide +kernel, rfl, rfl, by decide +kernel⟩

end Supervisor

end Shep

import Shep.Supervisor.Helpers.Play
import Shep.Supervisor.Helpers.Shelved

/-!
# Supervisor — disabled apps

**`disabled_stays_down`**: no step starts a process of an app that was
disabled before it, unless the step is the one that enables it; and past a
disable, whatever was in flight, the instances there were are stopped once
they have no process, until the app is enabled. The second part holds in
every run whose post-drain probes do not time out for a replacement with
no process, and **`disabled_shows_starting`** is a run in which one does.
-/

namespace Shep

namespace Supervisor

/-! ## Spawns -/

/-- The marks the turn began with are there until it enables them, and
what it has spawned since carried none. -/
structure Abstains (c : Turn) (a : Actor) : Prop where
  marks : ∀ n ∈ c.before.disabled, n ∈ a.disabled ∨ c.Enables n
  spawns : ∀ t ∈ a.spawnedTasks, t ∉ c.before.spawnedTasks → t.name ∈ c.before.disabled →
    c.Enables t.name

namespace Abstains

variable {c : Turn} {a b : Actor}

theorem still (h : Abstains c a) (hsp : b.spawnedTasks = a.spawnedTasks)
    (hd : ∀ n ∈ a.disabled, n ∈ b.disabled) : Abstains c b :=
  ⟨fun n hn => (h.marks n hn).imp_left (hd n), fun t ht => h.spawns t (hsp ▸ ht)⟩

theorem spawn (h : Abstains c a) {task : Task} (hsp : b.spawnedTasks = task :: a.spawnedTasks)
    (hd : b.disabled = a.disabled) (hen : task.name ∉ a.disabled) : Abstains c b := by
  refine ⟨fun n hn => hd ▸ h.marks n hn, fun t ht => ?_⟩
  rcases List.mem_cons.1 (hsp ▸ ht) with rfl | ht
  · exact fun _ hmark => (h.marks _ hmark).resolve_left hen
  · exact h.spawns t ht

end Abstains

/-- **No move spawns a process of a disabled app.** -/
theorem Move.abstains {c : Turn} {p q : Point} (hm : Move c p q) (h : Abstains c p.actor) :
    Abstains c q.actor := by
  cases hm with
  | quiet | bump | hear | drains | answer | park | halt | edit | editAll | rest | backOff |
    register | reseat | displace | doom | remarkStop | remarkRestart | deregister | exit | expire |
    fire | honour | putBack | beginSerial | scratch | commit | verify | drop | unmark | restore |
    lapse | online | parkFailed | demote | shutdown | unwatch | panic | assertFail =>
    exact h.still rfl fun _ hn => hn
  | @claim x a id s m cap _ _ _ _ _ =>
    refine h.still ?_ fun _ hn => hn
    cases hk : s.ctl <;> simp [Actor.spawnedTasks, Effect.started, List.filterMap_cons]
  | resolve info _ _ =>
    rw [Actor.resolvePending_eq]
    refine h.still ?_ fun _ hn => hn
    simp [Actor.spawnedTasks, Actor.repliedWith, Effect.started]
  | disable names => exact h.still rfl fun _ hn => by simp [hn]
  | enable names hnames _ =>
    refine ⟨fun n hn => ?_, h.spawns⟩
    rcases h.marks n hn with hd | he
    · by_cases hmem : n ∈ names
      · exact Or.inr (hnames n hmem)
      · exact Or.inl (List.mem_filter.2 ⟨hd, by simpa using hmem⟩)
    · exact Or.inr he
  | launch _ _ hen _ _ | beginOverlap _ _ _ hen _ _ _ _ _ _ _ _ | serialSpawn _ _ _ _ _ _ hen _ =>
    exact h.spawn rfl rfl hen
  | reseatLive _ _ _ _ hname hen _ _ _ _ => exact h.spawn rfl rfl fun hd => hen (hname ▸ hd)
  | relaunch _ _ hre hen _ _ => exact h.spawn rfl rfl fun hd => hen (hre.name ▸ hd)

theorem Actor.Step.abstains {b b' : Actor} {e : World × Msg} (hstep : Actor.Step b e b')
    (hi : Inv .none b) : ∀ t ∈ b'.spawnedTasks, t ∉ b.spawnedTasks → t.name ∈ b.disabled →
      Turn.Enables ⟨b, e.1, e.2⟩ t.name := by
  obtain ⟨-, hadm, rfl⟩ := hstep
  obtain ⟨d, hm, hd⟩ := Actor.turn_moves hi hadm e.1
  have h0 : Abstains ⟨b, e.1, e.2⟩ b := ⟨fun _ hn => Or.inl hn, fun t ht hnew => absurd ht hnew⟩
  rw [hd]
  exact (hm.keeps (P := fun p => Abstains ⟨b, e.1, e.2⟩ p.actor) hi h0
    fun _ _ _ hp hm => hm.abstains hp).spawns

/-! ## Stopped instances -/

/-- The turn is a disable that is accepted and reaches `n`. -/
def Turn.Marks (c : Turn) (n : String) : Prop :=
  match c.msg with
  | .command (.disable selector) =>
    ∃ names, c.before.appsReached selector .enabled = .ok names ∧ n ∈ names
  | .command (.disableDog name) => name = n ∧
    (∃ (id : ℕ) (s : SheepSlot), c.before.sheep[id]? = some s ∧ s.name = n) ∧
    ∀ (id : ℕ) (s : SheepSlot), c.before.sheep[id]? = some s → s.name = n → s.entry.dog.isSome = true
  | _ => False

/-- An accepted disable is `disable_apps`. -/
theorem Turn.Marks.disables {c : Turn} {n : String} (h : c.Marks n) :
    ∃ command names reply, c.msg = .command command ∧ n ∈ names ∧
      c.before.handleCommand c.world command = c.before.disableApps c.world names reply := by
  unfold Turn.Marks at h
  split at h
  · next selector hmsg =>
    obtain ⟨names, hnames, hn⟩ := h
    exact ⟨_, names, .info, hmsg, hn, by simp [Actor.handleCommand, Actor.handleDisable, hnames]⟩
  · next name hmsg =>
    obtain ⟨rfl, ⟨id, s, hs, hname⟩, hdogs⟩ := h
    refine ⟨_, [name], .ids, hmsg, List.mem_singleton_self _, ?_⟩
    have hsome : (c.before.sheep.toList.filter fun entry => entry.2.name == name).isEmpty =
        false := by
      rw [List.isEmpty_eq_false_iff]
      exact List.ne_nil_of_mem (List.mem_filter.2 ⟨Table.mem_toList.2 hs, by simpa using hname⟩)
    have hall : ((c.before.sheep.toList.filter fun entry => entry.2.name == name).all
        fun entry => entry.2.entry.dog.isSome) = true := by
      rw [List.all_eq_true]
      intro entry he
      obtain ⟨he, hn⟩ := List.mem_filter.1 he
      exact hdogs entry.1 entry.2 (Table.mem_toList.1 he) (by simpa using hn)
    simp only [Actor.handleCommand, Actor.handleDisableDog, hsome, hall, Bool.not_false,
      Bool.and_self, if_true]
  · exact h.elim

theorem Shelved.prune {n : String} {bound : ℕ} {x : Hole} {a : Actor}
    (h : Shelved n bound x a.sheep a.disabled) :
    Shelved n bound x a.pruneDisabled.sheep a.pruneDisabled.disabled := by
  refine ⟨fun id s hid hs hn => List.mem_filter.2 ⟨h.marked id s hid hs hn, ?_⟩, h.down, h.taken⟩
  have hheld : n ∈ a.heldNames := List.mem_map.2 ⟨(id, s), Table.mem_toList.2 hs, hn⟩
  simpa using hheld

theorem Turn.Marks.shelved {b : Actor} {e : World × Msg} {n : String}
    (h : Turn.Marks ⟨b, e.1, e.2⟩ n) (hi : Inv .none b) (hset : Settled .none b.sheep b.reloads)
    (bound : ℕ) : Shelved n bound .none (b.turn e.1 e.2).sheep (b.turn e.1 e.2).disabled := by
  obtain ⟨command, names, reply, hmsg, hn, hc⟩ := h.disables
  have hmsg : e.2 = .command command := hmsg
  have hturn : b.turn e.1 e.2 = (b.disableApps e.1 names reply).pruneDisabled := by
    rw [hmsg]
    exact congrArg Actor.pruneDisabled hc
  rw [hturn]
  exact (Actor.disableApps_shelved hi hset hn reply bound).prune

theorem shelved_run {n : String} {bound : ℕ} {a b : Actor} {h : List (Actor × World × Msg)}
    (hr : Run Actor.Step b h a)
    (hC : Meets (fun s e => ¬ Turn.DemotesDead ⟨s, e.1, e.2⟩) h)
    (hen : Meets (fun s e => ¬ Turn.Enables ⟨s, e.1, e.2⟩ n) h)
    (hi : Inv .none b) (hset : Settled .none b.sheep b.reloads) (hb : bound ≤ b.nextId)
    (h0 : Shelved n bound .none b.sheep b.disabled) :
    Shelved n bound .none a.sheep a.disabled := by
  have hall := run_keeps (C := fun c => ¬ c.DemotesDead ∧ ¬ c.Enables n)
    (Q := fun a => Settled .none a.sheep a.reloads ∧ bound ≤ a.nextId ∧
      Shelved n bound .none a.sheep a.disabled)
    (P := fun _ p => Settled p.hole p.actor.sheep p.actor.reloads ∧ bound ≤ p.actor.nextId ∧
      Shelved n bound p.hole p.actor.sheep p.actor.disabled)
    (fun _ _ _ h => h) ?_ (fun _ _ h => ⟨h.1, h.2.1, h.2.2.prune⟩) hr
    (fun p hp => ⟨hC p hp, hen p hp⟩) hi ⟨hset, hb, h0⟩
  · exact hall.2.2
  · rintro c p q ⟨hc, hn⟩ hinv ⟨hs, hle, hsh⟩ hm
    exact ⟨hm.settled hc hinv hs, hm.shelved hc hn hs hle hsh⟩

/-- **A disabled app stays down.** No step starts a process of an app that
was disabled before it, except to enable it. Past an accepted disable, the
instances there were are stopped once they have no process, and claimed
for good while they have one, until the app is enabled: in every run whose
probes do not time out for a replacement with no process. -/
theorem disabled_stays_down {dogBinaries : List (String × String)}
    {h h' : List (Actor × World × Msg)} {b b' : Actor} {e : World × Msg}
    (hb : Run Actor.Step (.init dogBinaries) h b) (hstep : Actor.Step b e b')
    (hC : Meets (fun s e => ¬ Turn.DemotesDead ⟨s, e.1, e.2⟩) (h ++ (b, e) :: h')) :
    (∀ t ∈ b'.spawnedTasks, t ∉ b.spawnedTasks → t.name ∈ b.disabled →
      Turn.Enables ⟨b, e.1, e.2⟩ t.name) ∧
    ∀ n, Turn.Marks ⟨b, e.1, e.2⟩ n → ∀ a, Run Actor.Step b' h' a →
      Meets (fun s e => ¬ Turn.Enables ⟨s, e.1, e.2⟩ n) h' →
      ∀ (id : ℕ) (s : SheepSlot), id < b'.nextId → a.sheep[id]? = some s → s.name = n →
        (s.ctl = none → s.entry.status = .stopped) ∧
        (s.ctl.isSome = true → ∃ k, s.manual = some ⟨k, .operator⟩ ∧ k ≠ .restart) := by
  have hi := Actor.reachable_inv hb
  refine ⟨hstep.abstains hi, fun n hmarks a hr hen id s hid hs hn => ?_⟩
  have hset := settled_run hb (fun p hp => hC p (List.mem_append_left _ hp))
    (Actor.inv_init dogBinaries) (settled_init dogBinaries)
  have hset' := settled_run (hb.snoc hstep)
    (fun p hp => hC p (by simpa using (List.mem_append.1 hp).imp_right Or.inl))
    (Actor.inv_init dogBinaries) (settled_init dogBinaries)
  have h0 : Shelved n b'.nextId .none b'.sheep b'.disabled := by
    obtain ⟨-, -, rfl⟩ := hstep
    exact hmarks.shelved hi hset _
  have hsh := shelved_run hr (fun p hp => hC p (by simp [hp])) hen (hstep.inv hi) hset' le_rfl h0
  have hdown := hsh.down id s hid hs hn (Hole.none_spares id)
  exact ⟨hdown.idle, hdown.live⟩

/-- A disable of the whole flock. -/
def disabling : World × Msg := (plain, .command (.disable .all))

/-- One running instance of `web`. -/
def serving : List (World × Msg) := [(plain, .command (.start [{ name := "web" }] .allOrNothing []))]

theorem disabled_stays_down_web : ∃ s : SheepSlot,
    (((Actor.init []).play serving).turn plain disabling.2 |>.play
      [(plain, .exited (life 0 0 { name := "web" } .fresh) ⟨some 1, none⟩ false)]).sheep[0]? = some s ∧
      s.name = "web" ∧ s.ctl = none ∧ s.entry.status = .stopped := by
  have hslot : (((Actor.init []).play serving).turn plain disabling.2 |>.play
      [(plain, .exited (life 0 0 { name := "web" } .fresh) ⟨some 1, none⟩ false)]).sheep[0]?.map
      (fun s => (s.name, s.ctl)) = some ("web", none) := by decide +kernel
  obtain ⟨s, hs, he⟩ := Option.map_eq_some_iff.1 hslot
  have hn : s.name = "web" := (Prod.mk.inj he).1
  have hctl : s.ctl = none := (Prod.mk.inj he).2
  have hplay : (Actor.init []).Playable serving := by decide +kernel
  have hplay' : (((Actor.init []).play serving).turn plain disabling.2).Playable
      [(plain, .exited (life 0 0 { name := "web" } .fresh) ⟨some 1, none⟩ false)] := by decide +kernel
  have hnames : ((Actor.init []).play serving).appsReached .all .enabled = .ok ["web"] := by
    decide +kernel
  have hdown := (disabled_stays_down (e := disabling) hplay.run
    ⟨by decide +kernel, trivial, rfl⟩ ?_).2 "web" ⟨_, hnames, by simp⟩ _ hplay'.run ?_ 0 s
    (by decide +kernel) hs hn
  · exact ⟨s, hs, hn, hctl, hdown.1 hctl⟩
  · refine Meets.append (Actor.meets_history ?_ _) ?_
    · simp [serving, Turn.DemotesDead, Turn.Verifies]
    · simp [Meets, Actor.history, disabling, Turn.DemotesDead, Turn.Verifies]
  · simp [Meets, Actor.history, Turn.Enables]

/-- **A disabled instance that shows `Starting`.** The replacement that came
back is disabled while its probe is out and exits, and the probe times
out: the app has no process left, no enable was asked for, and the row is
not stopped. -/
theorem disabled_shows_starting : ∃ (h h' : List (Actor × World × Msg)) (b a : Actor) (s : SheepSlot),
    Run Actor.Step (.init []) h b ∧ Turn.Marks ⟨b, disabling.1, disabling.2⟩ "web" ∧
      Run Actor.Step (b.turn disabling.1 disabling.2) h' a ∧
      Meets (fun s e => ¬ Turn.Enables ⟨s, e.1, e.2⟩ "web") h' ∧ a.tasks = [] ∧
      a.sheep[1]? = some s ∧ s.name = "web" ∧ 1 < b.nextId ∧ s.entry.status = .starting := by
  have hplay : (Actor.init []).Playable reprobed := by decide +kernel
  have hplay' : (((Actor.init []).play reprobed).turn disabling.1 disabling.2).Playable
      [reprobedExit, (plain, .reloadVerified ⟨"web", 1⟩ .timedOut)] := by decide +kernel
  have hnames : ((Actor.init []).play reprobed).appsReached .all .enabled = .ok ["web"] := by
    decide +kernel
  have hslot : ((((Actor.init []).play reprobed).turn disabling.1 disabling.2).play
      [reprobedExit, (plain, .reloadVerified ⟨"web", 1⟩ .timedOut)]).sheep[1]?.map
      (fun s => (s.name, s.entry.status)) = some ("web", .starting) := by decide +kernel
  obtain ⟨s, hs, he⟩ := Option.map_eq_some_iff.1 hslot
  refine ⟨_, _, _, _, s, hplay.run, ⟨_, hnames, by simp⟩, hplay'.run, ?_, by decide +kernel, hs,
    (Prod.mk.inj he).1, by decide +kernel, (Prod.mk.inj he).2⟩
  simp [Meets, Actor.history, Turn.Enables, reprobedExit]

end Supervisor

end Shep

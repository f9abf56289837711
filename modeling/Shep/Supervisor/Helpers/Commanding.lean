import Shep.Supervisor.Helpers.Exiting

/-!
# Supervisor — the commands as moves

Starting sheep and dogs, registering at rest, disabling, enabling and
restarting, written as moves.
-/

namespace Shep

namespace Supervisor

namespace Actor

variable {c : Turn} {w : World} {x : Hole} {a : Actor} {id : ℕ} {s : SheepSlot}

/-! ## Start -/

/-- What starting apps asks of the state: nothing it may register is
disabled, and the flock is not on its way down. -/
structure Startable (c : Turn) (a : Actor) (names : List String) : Prop where
  inv : Inv .none a
  up : a.shuttingDown = false
  enabled : ∀ n ∈ names, n ∉ a.disabled
  adds : ∀ n ∈ names, c.Adds n
  later : c.before.nextId ≤ a.nextId

namespace Startable

variable {names : List String}

theorem step (h : Startable c a names) {a' : Actor} (hm : Moves c ⟨.none, a⟩ ⟨.none, a'⟩)
    (hdown : a'.shuttingDown = a.shuttingDown) (hdis : a'.disabled = a.disabled) :
    Startable c a' names :=
  ⟨hm.inv h.inv, hdown.trans h.up, fun n hn => hdis ▸ h.enabled n hn, h.adds,
    h.later.trans hm.names.1⟩

end Startable

/-- `spawn_fresh` touches neither mark. -/
theorem spawnFreshAt_frame (w : World) (id : ℕ) (app : AppConfig) (inst : ℕ)
    (credentials : Option Credentials) (dog : Option DogSource) (gate : List String) (a : Actor) :
    Frame id a (a.spawnFreshAt w id app inst credentials dog gate).2 := by
  unfold spawnFreshAt
  dsimp only
  split
  · split
    · split <;> exact .refuseSpawn id _ _ a
    · exact .refuseSpawn id _ _ a
  · split
    · exact .setSlot id _ a
    · dsimp only
      split
      · exact ((Frame.startTask id _ _ _ _ a).trans (.setSlot id _ _)).trans (.armReady id _ _ _)
      · exact (Frame.startTask id _ _ _ _ a).trans (.setSlot id _ _)

variable {names : List String}

theorem spawnFresh_spare {app : AppConfig} {inst : ℕ} {credentials : Option Credentials}
    {dog : Option DogSource} {gate : List String} {n : String} {k : ℕ} (hne : inst ≠ k)
    (h : a.Spare a.nextId n k) : (a.spawnFresh w app inst credentials dog gate).2.Spare
      (a.spawnFresh w app inst credentials dog gate).2.nextId n k := by
  have hsp := spawnFreshAt_spawned w a.nextId app inst credentials dog gate
    { a with nextId := a.nextId + 1 }
  have hf := spawnFreshAt_frame w a.nextId app inst credentials dog gate
    { a with nextId := a.nextId + 1 }
  intro j t ht hname hinst
  by_cases hj : j = a.nextId
  · subst hj
    exact absurd ((hsp.slot ht).inst.symm.trans hinst) hne
  · exact absurd (h j t ((hf.sheep j hj).symm.trans ht) hname hinst) hj

theorem spawnFresh_startable {app : AppConfig} (h : Startable c a names) (hn : app.name ∈ names)
    {inst : ℕ} (hspare : a.Spare a.nextId app.name inst) {credentials : Option Credentials}
    {dog : Option DogSource} (hv : Vets c dog app credentials) (gate : List String) :
    Moves c ⟨.none, a⟩ ⟨.none, (a.spawnFresh c.world app inst credentials dog gate).2⟩ ∧
      Startable c (a.spawnFresh c.world app inst credentials dog gate).2 names := by
  have hm : Moves c ⟨.none, a⟩ ⟨.none, (a.spawnFresh c.world app inst credentials dog gate).2⟩ :=
    spawnFresh_moves h.inv app inst credentials dog gate (h.enabled _ hn)
      (Or.inl (h.adds _ hn)) (Or.inr hv) h.later hspare (by simp [h.up])
  have hf := spawnFreshAt_frame c.world a.nextId app inst credentials dog gate
    { a with nextId := a.nextId + 1 }
  exact ⟨hm, h.step hm hf.down hf.disabled⟩

/-- The instances of one app, one after another. -/
theorem startSlots_startable {app : AppConfig} (hn : app.name ∈ names)
    {credentials : Option Credentials} {dog : Option DogSource}
    (hv : Vets c dog app credentials) (gate : List String)
    (slots : List ℕ) (hnd : slots.Nodup) (hspare : ∀ n ∈ slots, a.Spare a.nextId app.name n)
    (h : Startable c a names) :
    Moves c ⟨.none, a⟩ ⟨.none, (startSlots c.world app credentials dog gate slots a).2.2⟩ ∧
      Startable c (startSlots c.world app credentials dog gate slots a).2.2 names := by
  induction slots generalizing a with
  | nil => exact ⟨.refl, h⟩
  | cons inst slots ih =>
    obtain ⟨hm, hs⟩ := spawnFresh_startable h hn (hspare inst List.mem_cons_self) hv gate
    have hspare' : ∀ n ∈ slots, (a.spawnFresh c.world app inst credentials dog gate).2.Spare
        (a.spawnFresh c.world app inst credentials dog gate).2.nextId app.name n := by
      intro n hmem
      refine spawnFresh_spare ?_ (hspare n (List.mem_cons_of_mem _ hmem))
      rintro rfl
      exact (List.nodup_cons.1 hnd).1 hmem
    unfold startSlots
    split
    · next info a' he =>
      rw [he] at hm hs hspare'
      obtain ⟨hm', hs'⟩ := ih (List.nodup_cons.1 hnd).2 hspare' hs
      exact ⟨hm.trans hm', hs'⟩
    · next message a' he =>
      rw [he] at hm hs
      exact ⟨hm, hs⟩

/-- The apps of a checked batch, one after another. -/
theorem startApps_moves (policy : BatchPolicy) (dog : Option DogSource) (gate : List String)
    (ready : List (AppConfig × Option Credentials)) (hready : ∀ e ∈ ready, e.1.name ∈ names ∧ Vets c dog e.1 e.2)
    (h : Startable c a names) :
    Moves c ⟨.none, a⟩ ⟨.none, (startApps c.world policy dog gate ready a).actor⟩ := by
  induction ready generalizing a with
  | nil => exact .refl
  | cons e rest ih =>
    obtain ⟨app, credentials⟩ := e
    have hrest : ∀ e ∈ rest, e.1.name ∈ names ∧ Vets c dog e.1 e.2 :=
      fun e he => hready e (List.mem_cons_of_mem _ he)
    obtain ⟨hn, hv⟩ := hready (app, credentials) List.mem_cons_self
    obtain ⟨hm, hs⟩ := startSlots_startable hn hv gate
      (instanceSlots ((a.slotsOfName app.name).map Prod.fst) app.instances)
      (instanceSlots_free _ _).1 (fun n hn => spare_instanceSlots hn _) h
    unfold startApps
    dsimp only
    split
    · next he =>
      rw [he] at hm hs
      exact hm.trans (ih hrest hs)
    · next he =>
      rw [he] at hm hs
      split
      · exact hm
      · exact hm.trans (ih hrest hs)

/-- One app of the check. -/
theorem checkOne_moves {k : Checked} {app : AppConfig} (hn : app.name ∈ names)
    (policy : BatchPolicy) {dog : Option DogSource} (henrol : dog = none → c.Enrols app)
    (h : Startable c k.actor names)
    (hready : ∀ e ∈ k.ready, e.1.name ∈ names ∧ Vets c dog e.1 e.2) :
    Moves c ⟨.none, k.actor⟩ ⟨.none, (checkOne c.world policy dog k app).actor⟩ ∧
      Startable c (checkOne c.world policy dog k app).actor names ∧
      ∀ e ∈ (checkOne c.world policy dog k app).ready, e.1.name ∈ names ∧ Vets c dog e.1 e.2 := by
  unfold checkOne
  split
  · split
    · exact ⟨.refl, h, hready⟩
    · next err _ _ =>
      have hm : Moves c ⟨.none, k.actor⟩ ⟨.none, (k.actor.registerWithoutSpawning c.world app .errored dog
          (some (app.name ++ ": " ++ err))).2.2⟩ :=
        registerWithoutSpawning_moves app .errored dog _ (Or.inr ⟨rfl, h.enabled _ hn⟩)
          (Or.inl (h.adds _ hn)) henrol
      refine ⟨hm, h.step hm ?_ ?_, hready⟩
      all_goals
        unfold registerWithoutSpawning
        split <;> rfl
  · next credentials hres =>
    dsimp only
    split
    · exact ⟨.refl, h, hready⟩
    · refine ⟨.refl, h, fun e he => ?_⟩
      rcases List.mem_append.1 he with he | he
      · exact hready e he
      · rw [List.mem_singleton.1 he]
        exact ⟨hn, henrol, hres⟩

theorem checkApps_moves {k : Checked} (policy : BatchPolicy) {dog : Option DogSource}
    (apps : List AppConfig) (happs : ∀ app ∈ apps, app.name ∈ names ∧ (dog = none → c.Enrols app))
    (h : Startable c k.actor names)
    (hready : ∀ e ∈ k.ready, e.1.name ∈ names ∧ Vets c dog e.1 e.2) :
    Moves c ⟨.none, k.actor⟩ ⟨.none, (apps.foldl (checkOne c.world policy dog) k).actor⟩ ∧
      Startable c (apps.foldl (checkOne c.world policy dog) k).actor names ∧
      ∀ e ∈ (apps.foldl (checkOne c.world policy dog) k).ready,
        e.1.name ∈ names ∧ Vets c dog e.1 e.2 := by
  induction apps generalizing k with
  | nil => exact ⟨.refl, h, hready⟩
  | cons app apps ih =>
    obtain ⟨hn, henrol⟩ := happs app List.mem_cons_self
    obtain ⟨hm, hs, hr⟩ := checkOne_moves hn policy henrol h hready
    obtain ⟨hm', hs', hr'⟩ := ih (fun app happ => happs app (List.mem_cons_of_mem _ happ)) hs hr
    exact ⟨hm.trans hm', hs', hr'⟩

/-- `do_start` past its refusals, as moves. -/
theorem startChecked_moves (names : List String) {apps : List AppConfig}
    {dog : Option DogSource}
    (happs : ∀ app ∈ apps, app.name ∈ names ∧ (dog = none → c.Enrols app)) (policy : BatchPolicy)
    (gate : List String) (h : Startable c a names) :
    Moves c ⟨.none, a⟩ ⟨.none, (a.startChecked c.world apps dog policy gate).2⟩ := by
  obtain ⟨hm, hs, hr⟩ := checkApps_moves (k := ⟨[], [], [], a⟩) policy apps happs h
    (by simp)
  have hstart : Moves c ⟨.none, a⟩ ⟨.none, (startApps c.world policy dog gate
      (apps.foldl (checkOne c.world policy dog) ⟨[], [], [], a⟩).ready
      (apps.foldl (checkOne c.world policy dog) ⟨[], [], [], a⟩).actor).actor⟩ :=
    hm.trans (startApps_moves policy dog gate _ hr hs)
  unfold startChecked
  dsimp only
  split
  · exact hm
  · split
    · exact hstart
    · split <;> exact hstart

/-- `do_start` as moves, for sheep. -/
theorem doStart_moves (h : Inv .none a) (hbefore : c.before = a) (hup : a.shuttingDown = false)
    {apps : List AppConfig} {policy : BatchPolicy} {gate : List String} (hmsg : c.msg = .command (.start apps policy gate)) :
    Moves c ⟨.none, a⟩ ⟨.none, (a.doStart c.world apps policy gate).2⟩ := by
  unfold doStart
  dsimp only
  split
  · exact .refl
  · exact .refl
  · next hdis =>
    refine startChecked_moves (apps.map AppConfig.name)
      (fun app happ => ⟨List.mem_map_of_mem happ, fun _ => by simpa [Turn.Enrols, hmsg]⟩) policy gate
      ⟨h, hup, fun n hn => ?_, ?_, by rw [hbefore]⟩
    · have hfree := List.find?_eq_none.1 hdis n hn
      simpa using hfree
    · intro n hn
      simpa [Turn.Adds, hmsg] using hn

/-! ## Dogs -/

theorem not_mem_clearDisabled {n : String} (hn : n ∈ names) :
    n ∉ (a.clearDisabled names).disabled := by
  simp [clearDisabled, hn]

theorem isResting_idle (hs : s.WellFormed) (h : a.isResting s = true) :
    s.ctl = none ∧ (s.entry.status = .stopped ∨ s.entry.status = .errored) := by
  have hst : s.entry.status = .stopped ∨ s.entry.status = .errored := by
    simp only [isResting, isAtRest, isParkedDog, Bool.or_eq_true, Bool.and_eq_true,
      beq_iff_eq] at h
    rcases h with (h | h) | h
    · exact Or.inl h.1.2
    · exact Or.inl h.1.1
    · exact Or.inr h.2
  refine ⟨?_, hst⟩
  cases hc : s.ctl with
  | none => rfl
  | some t =>
    have hrun := hs.status (by simp [hc])
    rcases hst with e | e <;> simp [e] at hrun

/-- A dog is one process with the daemon's own identity, so its start is
one `spawn_fresh` under the counter's id. -/
theorem startChecked_dog (app : DogApp) (source : DogSource) :
    ∃ inst, (∀ id, a.Spare id app.config.name inst) ∧
      (a.startChecked w [app.config] (some source) .perApp []).2 =
        (a.spawnFresh w app.config inst none (some source) []).2 := by
  refine ⟨nextFree ((a.slotsOfName app.config.name).map Prod.fst)
    ((a.slotsOfName app.config.name).map Prod.fst).length 0,
    @spare_instanceSlots _ _ _ 1 (by simp [instanceSlots, instanceSlotsFrom]), ?_⟩
  unfold startChecked
  simp only [List.foldl_cons, List.foldl_nil, checkOne, w.resolve_none app.user_eq app.group_eq,
    Option.none_or, List.nil_append, List.isEmpty_nil, Bool.not_true, Bool.false_eq_true, if_false,
    startApps, app.instances_eq, instanceSlots, instanceSlotsFrom, startSlots]
  generalize a.spawnFresh w app.config _ none (some source) [] = r
  obtain ⟨outcome, a'⟩ := r
  cases outcome with
  | ok info => simp
  | error message => simp

theorem spawnFreshAt_nextId (w : World) (id : ℕ) (app : AppConfig) (inst : ℕ)
    (credentials : Option Credentials) (dog : Option DogSource) (gate : List String) (a : Actor) :
    (a.spawnFreshAt w id app inst credentials dog gate).2.nextId = a.nextId := by
  have hsp := spawnFreshAt_spawned w id app inst credentials dog gate a
  generalize (a.spawnFreshAt w id app inst credentials dog gate).2 = a' at hsp ⊢
  cases hsp <;> rfl

/-- A resting dog's row is spawned afresh in place. -/
theorem startDogAt_moves (hup : a.shuttingDown = false) {app : DogApp}
    {source : DogSource} (hmsg : c.msg = .command (.startDog app source))
    (hs : a.sheep[id]? = some s) (hname : s.name = app.config.name) (hctl : s.ctl = none)
    (hst : s.entry.status = .stopped ∨ s.entry.status = .errored)
    (hen : app.config.name ∉ a.disabled)
    (htimed : (∃ t ∈ a.timers, t.id = id) → c.ReseatsTimed id) (hres : c.Reseats id) :
    Moves c ⟨.none, a⟩ ⟨.none, (a.startDogAt c.world app source (some id)).2⟩ := by
  have henables : c.Enables s.name := by simp [Turn.Enables, hmsg, hname]
  have hen' : s.name ∉ a.disabled := hname ▸ hen
  have hvets : Vets c (some source) app.config none :=
    ⟨(by simp), c.world.resolve_none app.user_eq app.group_eq⟩
  unfold startDogAt
  dsimp only
  obtain ⟨inst, hspare, he⟩ := startChecked_dog (w := c.world)
    (a := { a.removeSlot id with nextId := id }) app source
  have hown : ∀ t : SheepSlot, t.Seats app.config inst none (some source) →
      a.Spare id t.name t.entry.inst := by
    intro t hseat j u hu hun hui
    by_contra hj
    have hkept : (a.removeSlot id).sheep[j]? = some u := by
      simp only [removeSlot, Table.get_erase, if_neg hj]
      exact hu
    exact hj (hspare id j u hkept (hun.trans hseat.name) (hui.trans hseat.inst))
  rw [he]
  unfold spawnFresh
  rw [show ({ a.removeSlot id with nextId := id } : Actor).nextId = id from rfl]
  have hnext := spawnFreshAt_nextId c.world id app.config inst none (some source) []
    { a.removeSlot id with nextId := id + 1 }
  have hsp := spawnFreshAt_spawned c.world id app.config inst none (some source) []
    { a.removeSlot id with nextId := id + 1 }
  generalize (spawnFreshAt c.world id app.config inst none (some source) []
    { a.removeSlot id with nextId := id + 1 }).2 = a' at hnext hsp ⊢
  simp only [hnext, debugAssert, BEq.rfl, if_true]
  cases hsp with
  | @errored t ht hte hseat =>
    have htn := hseat.name
    have hm : Move c ⟨.none, a⟩ ⟨.none, a.setSlot id t⟩ :=
      .reseat hs hctl ht hte (htn.trans hname.symm) hen' hup henables htimed hst
        (hvets.founds ht hseat) (hown t hseat) hres
    simpa [setSlot, removeSlot] using Relation.ReflTransGen.single hm
  | @waiting t t' delay ht hte hseat hrest _ hheir =>
    have htn := hseat.name
    have hm : Move c ⟨.none, a⟩ ⟨.none, a.setSlot id t⟩ :=
      .reseat hs hctl ht hte (htn.trans hname.symm) hen' hup henables htimed hst
        (hvets.founds ht hseat) (hown t hseat) hres
    have hwait : c.MayWait .none (a.setSlot id t) id t.epoch := by
      by_cases htimer : ∃ u ∈ a.timers, u.id = id
      · exact Or.inr (Or.inr (Or.inr (Or.inr (htimed htimer))))
      · exact Or.inr (Or.inr (Or.inl fun u hu hid => absurd ⟨u, hu, hid⟩ htimer))
    have hb : Move c ⟨.none, a.setSlot id t⟩ ⟨.none, (a.setSlot id t).backOff id t' delay⟩ :=
      .backOff delay (get_setSlot _ _ _) ht.ctl_eq hrest
        (Or.inl ⟨htn ▸ hen, Or.inr (Or.inr (htn ▸ hname ▸ henables))⟩) hwait hheir
    have hmoves := (Relation.ReflTransGen.single hm).tail hb
    simpa [backOff, scheduleRestart, setSlot, removeSlot] using hmoves
  | @live t pid readies ht hte hseat hpid _ _ =>
    have hm : Move c ⟨.none, a⟩
        ⟨.none, (a.startTask id pid t.entry.spec none .fresh).setSlot id t⟩ :=
      .reseatLive hs hctl ht hte (hseat.name.trans hname.symm) hen' hup henables htimed hst
        ⟨hpid, hseat.credentials⟩ (hvets.founds ht hseat) (hown t hseat) hres
    have hmoves := (Relation.ReflTransGen.single hm).tail (.quiet a.dogBinaries readies a.verifies)
    simpa [startTask, setSlot, removeSlot] using hmoves

/-- `do_start_dog` as moves. -/
theorem doStartDog_moves (h : Inv .none a) (hbefore : c.before = a) {app : DogApp}
    {source : DogSource} (hmsg : c.msg = .command (.startDog app source)) :
    Moves c ⟨.none, a⟩ ⟨.none, (a.doStartDog c.world app source).2⟩ := by
  have henables : ∀ n ∈ [app.config.name], c.Enables n := by simp [Turn.Enables, hmsg]
  unfold doStartDog
  dsimp only
  split
  · exact .refl
  · next hdown =>
    have hup : a.shuttingDown = false := by simpa using hdown
    have hclear : Moves c ⟨.none, a⟩
        ⟨.none, (a.recordBinary app.config.name source).clearDisabled [app.config.name]⟩ := by
      have hrec : Moves c ⟨.none, a⟩ ⟨.none, a.recordBinary app.config.name source⟩ := by
        unfold recordBinary
        split
        · exact .single (.quiet _ _ _)
        · exact .refl
      have hup' : (a.recordBinary app.config.name source).shuttingDown = false := by
        unfold recordBinary
        split <;> exact hup
      exact hrec.tail (.enable _ henables hup')
    have hsame : ((a.recordBinary app.config.name source).clearDisabled
        [app.config.name]).sheep = a.sheep ∧ ((a.recordBinary app.config.name source).clearDisabled
        [app.config.name]).timers = a.timers ∧ ((a.recordBinary app.config.name
        source).clearDisabled [app.config.name]).shuttingDown = a.shuttingDown := by
      unfold recordBinary
      split <;> exact ⟨rfl, rfl, rfl⟩
    have hfree : app.config.name ∉ ((a.recordBinary app.config.name source).clearDisabled
        [app.config.name]).disabled :=
      not_mem_clearDisabled (List.mem_singleton_self _)
    have hinv := hclear.inv h
    split
    · next id s hheld =>
      have hheld' : id = c.world.pick (a.idsWhere fun _ slot => slot.name == app.config.name) ∧
          a.sheep[id]? = some s ∧ s.name = app.config.name := by
        split at hheld
        · cases hheld
        · next hne =>
          obtain ⟨t, ht, he⟩ := Option.map_eq_some_iff.1 hheld
          obtain ⟨rfl, rfl⟩ := Prod.mk.inj he
          have hmem := c.world.pick_mem (l := a.idsWhere fun _ slot => slot.name == app.config.name)
            (by simpa using hne)
          obtain ⟨t', ht', hn⟩ := mem_idsWhere.1 hmem
          rw [ht] at ht'
          obtain rfl := Option.some.inj ht'
          exact ⟨rfl, ht, by simpa using hn⟩
      obtain ⟨-, hs, hname⟩ := hheld'
      split
      · next hrest =>
        obtain ⟨hctl, hst⟩ := isResting_idle (h.wellFormed hs) hrest
        refine hclear.trans (startDogAt_moves (hsame.2.2.trans hup) hmsg
          (by rw [hsame.1]; exact hs) hname hctl hst hfree ?_
          ⟨app, source, s, hmsg, hbefore ▸ hs, hname, hctl⟩)
        rintro ⟨t, ht, hid⟩
        rw [hsame.2.1] at ht
        exact ⟨⟨app, source, s, hmsg, hbefore ▸ hs, hname⟩, t, hbefore ▸ ht, hid⟩
      · unfold cancelDogDisable
        split
        · refine .head (.enable _ henables hup) (.single (.remarkRestart _ ?_ hup))
          exact fun n hn => ⟨not_mem_clearDisabled hn, henables n hn⟩
        · exact .refl
    · refine hclear.trans (startChecked_moves [app.config.name] (by simp) _ _
        ⟨hinv, hsame.2.2.trans hup, ?_, ?_, ?_⟩)
      · intro n hn
        rw [List.mem_singleton.1 hn]
        exact hfree
      · simp [Turn.Adds, hmsg]
      · rw [hbefore]
        exact hclear.names.1

/-! ## Registering at rest -/

theorem registerApps_moves (apps : List AppConfig)
    (happs : ∀ app ∈ apps, c.Adds app.name ∧ c.Enrols app)
    (rows : List ProcessInfo) :
    Moves c ⟨.none, a⟩ ⟨.none, (apps.foldl
      (fun (r : List ProcessInfo × Actor) app =>
        let registered := r.2.registerWithoutSpawning c.world app .stopped none none
        (r.1 ++ registered.2.1, registered.2.2)) (rows, a)).2⟩ := by
  induction apps generalizing a rows with
  | nil => exact .refl
  | cons app apps ih =>
    exact (registerWithoutSpawning_moves app .stopped none none (Or.inl rfl)
      (Or.inl (happs app List.mem_cons_self).1) fun _ => (happs app List.mem_cons_self).2).trans
        (ih (fun app happ => happs app (List.mem_cons_of_mem _ happ)) _)

theorem registerAtRest_moves {apps : List AppConfig} {disabled : List String}
    (hmsg : c.msg = .command (.registerAtRest apps disabled)) :
    Moves c ⟨.none, a⟩ ⟨.none, (a.registerAtRest c.world apps disabled).2⟩ := by
  unfold registerAtRest
  refine .head (.disable _) (registerApps_moves apps (fun app happ => ?_) [])
  simp only [Turn.Adds, Turn.Enrols, hmsg]
  exact ⟨List.mem_map_of_mem happ, happ⟩

theorem registerDogs_moves {all : List (AppConfig × DogSource)} {disabled : List String}
    (hmsg : c.msg = .command (.registerDogsAtRest all disabled))
    (dogs : List (AppConfig × DogSource)) (hdogs : dogs ⊆ all) (rows : List ProcessInfo) :
    Moves c ⟨.none, a⟩ ⟨.none, (dogs.foldl (registerDogAtRest c.world disabled) (rows, a)).2⟩ := by
  induction dogs generalizing a rows with
  | nil => exact .refl
  | cons dog dogs ih =>
    obtain ⟨hdog, hdogs⟩ := List.cons_subset.1 hdogs
    have hadds : c.Adds dog.1.name := by
      simp only [Turn.Adds, hmsg]
      exact List.mem_map_of_mem hdog
    have hone : Moves c ⟨.none, a⟩ ⟨.none, (registerDogAtRest c.world disabled (rows, a) dog).2⟩ := by
      have hm : Moves c ⟨.none, a⟩
          ⟨.none, (a.registerWithoutSpawning c.world dog.1 .stopped (some dog.2) none).2.2⟩ :=
        registerWithoutSpawning_moves dog.1 .stopped (some dog.2) none (Or.inl rfl)
          (Or.inl hadds) (fun h => by cases h)
      unfold registerDogAtRest
      split
      · next he =>
        rw [he] at hm
        dsimp only
        split
        · exact hm.tail (.disable _)
        · exact hm
      · next he =>
        rw [he] at hm
        exact hm
    exact hone.trans (ih hdogs _)

/-! ## Disable, enable and restart -/

theorem allows_stop (hord : c.Orders) (a : Actor) (id : ℕ) :
    c.Allows c.world .stop .operator a id :=
  ⟨Or.inl hord, by simp, by simp, by simp⟩

/-- A restart is allowed where the turn restarts: a slot the turn found
with no process waits out one back-off at a time, or the turn is one that
arms a second. -/
theorem allows_restart {b : Actor} (hbefore : c.before = a) (origin : CommandOrigin) (hup : b.shuttingDown = false) (htimers : b.timers = a.timers)
    (hslot : ∀ t, b.sheep[id]? = some t → ∃ s, a.sheep[id]? = some s ∧ t.ctl = s.ctl ∧
      t.epoch = s.epoch ∧ t.entry = s.entry)
    (hrestarts : c.Restarts id) : c.Allows c.world .restart origin b id where
  who := Or.inl hrestarts.orders
  auto := fun _ => rfl
  restart := by
    intro _ t ht hctl
    obtain ⟨s, hs, hc, he, hentry⟩ := hslot t ht
    refine ⟨hup, fun _ => hrestarts, fun err _ hr herr hmax => ?_⟩
    by_cases htimer : ∃ u ∈ a.timers, u.id = id ∧ u.epoch = s.epoch
    · have hspec : t.intendedSpec = s.intendedSpec := by simp [SheepSlot.intendedSpec, hentry]
      rw [hspec] at herr hmax
      rw [hentry] at herr
      subst hbefore
      exact Or.inr (Or.inr (Or.inr (Or.inl ⟨hrestarts, s, hs, hc ▸ hctl, htimer, hmax, err, hr,
        herr⟩)))
    · refine Or.inr (Or.inr (Or.inl fun u hu hid hepoch => htimer ⟨u, htimers ▸ hu, hid, ?_⟩))
      rw [hepoch, he]
  delete := by simp

theorem abandonSerialDrain_moves (h : Inv x a) (n : String) :
    Moves c ⟨x, a⟩ ⟨x, a.abandonSerialDrain n⟩ := by
  unfold abandonSerialDrain
  split
  · exact .refl
  · next job hj =>
    split
    · next hphase => exact endDrain_moves h hj ((h.jobs n job hj).phase.2 hphase)
    · exact .refl

theorem abandonSerialDrains_moves (h : Inv x a) (names : List String) :
    Moves c ⟨x, a⟩ ⟨x, names.foldl abandonSerialDrain a⟩ := by
  induction names generalizing a with
  | nil => exact .refl
  | cons n names ih =>
    have hone : Moves c ⟨x, a⟩ ⟨x, a.abandonSerialDrain n⟩ := abandonSerialDrain_moves h n
    exact hone.trans (ih (hone.inv h))

theorem nodup_idsOfApps (names : List String) : (a.idsOfApps names).Nodup := by
  unfold idsOfApps
  exact nodup_idsWhere _

theorem disableApps_moves (h : Inv .none a) (hord : c.Orders) {names : List String}
    (hnames : ∀ n ∈ names, c.Disables n) {reply : ReplyKind} (hreply : reply ≠ .shutdown) :
    Moves c ⟨.none, a⟩ ⟨.none, a.disableApps c.world names reply⟩ := by
  have hmarks : Moves c ⟨.none, a⟩ ⟨.none, { names.foldl abandonSerialDrain
      (a.remark names .restart .stop) with disabled := names ∪ (names.foldl abandonSerialDrain
      (a.remark names .restart .stop)).disabled }⟩ := by
    have hremark : Move c ⟨.none, a⟩ ⟨.none, a.remark names .restart .stop⟩ :=
      .remarkStop names hnames
    exact (Relation.ReflTransGen.head hremark
      (abandonSerialDrains_moves (hremark.inv h) names)).tail (.disable names)
  unfold disableApps
  exact hmarks.trans (beginManualIds_moves (nodup_idsOfApps names) (hmarks.inv h)
    (fun id _ => allows_stop hord _ id) hreply)

theorem mem_appsReached {selector : ProcessSelector} {sweep : Sweep} {names : List String}
    (h : a.appsReached selector sweep = .ok names) {n : String} (hn : n ∈ names) :
    ∃ id ∈ a.reachedIds selector sweep, ∃ s, a.sheep[id]? = some s ∧ s.name = n := by
  unfold appsReached at h
  dsimp only at h
  split at h
  · cases h
  · split at h
    · cases h
    · rw [← Except.ok.inj h, List.mem_dedup, List.mem_filterMap] at hn
      obtain ⟨id, hid, he⟩ := hn
      obtain ⟨s, hs, he⟩ := Option.bind_eq_some_iff.1 he
      split at he
      · exact ⟨id, hid, s, hs, Option.some.inj he⟩
      · cases he

theorem handleDisable_moves (h : Inv .none a) (hbefore : c.before = a)
    {selector : ProcessSelector} (hmsg : c.msg = .command (.disable selector)) :
    Moves c ⟨.none, a⟩ ⟨.none, a.handleDisable c.world selector⟩ := by
  unfold handleDisable
  split
  · next names hnames =>
    refine disableApps_moves h (Turn.orders hmsg (by simp)) (fun n hn => ?_) (by simp)
    simp only [Turn.Disables, hmsg, hbefore]
    exact mem_appsReached hnames hn
  · split <;> exact .single (.answer _ (by simp))
  · exact .single (.answer _ (by simp))

theorem handleDisableDog_moves (h : Inv .none a) {name : String}
    (hmsg : c.msg = .command (.disableDog name)) :
    Moves c ⟨.none, a⟩ ⟨.none, a.handleDisableDog c.world name⟩ := by
  unfold handleDisableDog
  dsimp only
  split
  · refine disableApps_moves h (Turn.orders hmsg (by simp)) (fun n hn => ?_) (by simp)
    simp only [Turn.Disables, hmsg]
    exact (List.mem_singleton.1 hn).symm
  · exact .single (.answer _ (by simp))

/-- `handle_enable` as moves. -/
theorem handleEnable_moves (h : Inv .none a) (hbefore : c.before = a)
    {selector : ProcessSelector} (hmsg : c.msg = .command (.enable selector)) :
    Moves c ⟨.none, a⟩ ⟨.none, a.handleEnable c.world selector⟩ := by
  unfold handleEnable
  split
  · next names hnames =>
    split
    · exact .single (.answer _ (by simp))
    · next hdown =>
      have hup : a.shuttingDown = false := by simpa using hdown
      have henables : ∀ n ∈ names.filter a.isDisabled, c.Enables n := by
        intro n hn
        simp only [Turn.Enables, hmsg, hbefore]
        exact mem_appsReached hnames (List.mem_filter.1 hn).1
      have hclear : Move c ⟨.none, a⟩ ⟨.none, a.clearDisabled (names.filter a.isDisabled)⟩ :=
        .enable _ henables hup
      have hremark : Move c ⟨.none, a.clearDisabled (names.filter a.isDisabled)⟩
          ⟨.none, (a.clearDisabled (names.filter a.isDisabled)).remark (names.filter a.isDisabled)
            .stop .restart⟩ :=
        .remarkRestart _ (fun n hn => ⟨not_mem_clearDisabled hn, henables n hn⟩) hup
      refine .head hclear (.head hremark (beginManualIds_moves (nodup_idsOfApps _)
        (hremark.inv (hclear.inv h)) (fun id hid => ?_) (by simp)))
      refine allows_restart hbefore .operator hup rfl ?_ ?_
      · intro t ht
        simp only [remark, mapSlots, clearDisabled, Table.get_map, Option.map_eq_some_iff] at ht
        obtain ⟨s, hs, rfl⟩ := ht
        refine ⟨s, hs, ?_⟩
        split <;> exact ⟨rfl, rfl, rfl⟩
      · obtain ⟨s, hs, hn⟩ := mem_idsWhere.1 hid
        have hen := henables s.name (by simpa using hn)
        simp only [Turn.Restarts, hmsg, hbefore]
        exact ⟨s, hs, hen⟩
  · split <;> exact .single (.answer _ (by simp))
  · exact .single (.answer _ (by simp))

/-- `restart_unless_disabled` as moves. -/
theorem restartUnlessDisabled_moves (h : Inv .none a) (hbefore : c.before = a)
    (hup : a.shuttingDown = false) {selector : ProcessSelector}
    {origin : CommandOrigin} (hmsg : c.msg = .command (.restart selector origin)) :
    Moves c ⟨.none, a⟩ ⟨.none, a.restartUnlessDisabled c.world selector origin⟩ := by
  have hbegin : Moves c ⟨.none, a⟩ ⟨.none, a.beginManualIds c.world
      ((a.matchingIds selector).filter fun id => !a.isDisabledId id) .restart origin .info⟩ := by
    refine beginManualIds_moves ((nodup_matchingIds selector).filter _) h (fun id hid => ?_)
      (by simp)
    refine allows_restart hbefore origin hup rfl (fun t ht => ⟨t, ht, rfl, rfl, rfl⟩) ?_
    simp only [Turn.Restarts, hmsg, hbefore]
    exact (List.mem_filter.1 hid).1
  unfold restartUnlessDisabled
  dsimp only
  split
  · exact .single (.answer _ (by simp))
  · split
    · split
      · exact .single (.answer _ (by simp))
      · exact hbegin
    · exact hbegin

end Actor

end Supervisor

end Shep

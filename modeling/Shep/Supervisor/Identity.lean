import Shep.Supervisor.Helpers.Configuring
import Shep.Supervisor.Helpers.Origin
import Shep.Supervisor.Helpers.Play

/-!
# Supervisor — who a child runs as

Over a host whose users and groups do not change, **`spawns_identified`**:
every child is spawned under the identity the config it is spawned from
resolves to, and every identity on record is its stored config's. Spawns,
restarts and reloads keep this on their own. A config command writes one
instance's stored spec over its siblings and leaves their identities where
they are, so each has to find the instances of its app under one identity;
**`spawn_misidentified`** is a run in which one does not.
-/

namespace Shep

namespace Supervisor

variable {res : Directory} {w : World} {a b : Actor} {name : String} {id : ℕ} {s : SheepSlot}

/-- Every identity on record, of a slot or of a process, is the one its
config resolves to. -/
structure Stamped (res : Directory) (a : Actor) : Prop where
  slots : ∀ (id : ℕ) (s : SheepSlot), a.sheep[id]? = some s → s.Identified res
  tasks : ∀ task ∈ a.spawnedTasks, res task.spec.user task.spec.group = .ok task.credentials

/-- All instances of an app are stored under one identity. -/
def Actor.Uniform (a : Actor) (name : String) : Prop :=
  ∀ (i j : ℕ) (s t : SheepSlot), a.sheep[i]? = some s → a.sheep[j]? = some t → s.name = name →
    t.name = name → s.entry.spec.SharesIdentity t.entry.spec

/-- An instance whose identity is not due to be resolved again is stored
under the one the app's next config has. -/
def Actor.Abreast (a : Actor) (name : String) : Prop :=
  ∀ (id j : ℕ) (slot s : SheepSlot), a.representative name = some (id, slot) →
    a.sheep[j]? = some s → s.name = name → s.entry.pendingReidentifies = false →
    s.entry.spec.SharesIdentity slot.intendedSpec

/-- A config command finds the instances of its app under one identity: an
edit of the environment under the one it parks, any other under the one it
copies. -/
def Turn.Unites (c : Turn) : Prop :=
  match c.msg with
  | .command (.scale name _) => c.before.Uniform name
  | .command (.applyConfig apps _) => ∀ app ∈ apps, c.before.Uniform app.config.name
  | .command (.setSheepEnv name _ _) => c.before.Abreast name
  | .command (.setSheepEnvBatch name _ _ _) => c.before.Abreast name
  | .command (.copySheepEnv _ target _ _ _ _) => c.before.Abreast target
  | .command (.setSheepField name _ _) => c.before.Uniform name
  | .command (.resetSheepField name _) => c.before.Uniform name
  | .command (.setSheepDogSettings name _ _) => c.before.Uniform name
  | _ => True

/-! ## Everything but config commands -/

theorem Move.stamped {c : Turn} {p q : Point} (hm : Move c p q)
    (hconf : ∀ n, ¬ c.Configures n) (hres : c.world.Resolves res) (h : Stamped res p.actor) :
    Stamped res q.actor := by
  have hslots : ∀ (id : ℕ) (s : SheepSlot), q.actor.sheep[id]? = some s → s.Identified res := by
    intro id s hs
    rcases hm.origin hs with ⟨ht, -, -, hheir, -⟩ | ⟨ht, -, -, hheir, -⟩ | ⟨-, hf⟩ | ⟨hc, -, -, -⟩
    · exact (hheir.resolve_left (hconf _)).identified res hres (h.slots _ _ ht)
    · exact hheir.identified res hres (h.slots _ _ ht)
    · exact hf.identified res hres
    · exact absurd hc (hconf _)
  refine ⟨hslots, fun task ht => ?_⟩
  rcases hm.spawned with hsame | ⟨new, s, hnew, hs, hspec, hcred⟩
  · exact h.tasks task (hsame ▸ ht)
  · rcases List.mem_cons.1 (hnew ▸ ht) with rfl | ht
    · rw [hspec]
      exact (hslots _ s hs).stored _ hcred
    · exact h.tasks task ht

/-! ## Config commands -/

namespace SheepSlot

/-- A config parked over an identity that is still to be resolved, or is
the config's own. -/
theorem Identified.parked_on {app : AppConfig} (h : s.Identified res)
    (happ : s.entry.pendingReidentifies = false → s.entry.spec.SharesIdentity app)
    (overridden : List String) : (s.parked app overridden).Identified res where
  stored := h.stored
  parked := by
    intro p hp hflag
    obtain rfl := Option.some.inj hp
    exact ⟨(happ hflag).user, (happ hflag).group⟩

/-- A spec copied from an instance stored under the same identity. -/
theorem Identified.reconfigured {nextSpec parked : Option AppConfig} (h : s.Identified res)
    (hnext : ∀ app, nextSpec = some app → s.entry.spec.SharesIdentity app)
    (overridden : List String) : (s.reconfigured nextSpec parked overridden).Identified res := by
  have hspec : s.entry.spec.SharesIdentity (nextSpec.getD s.entry.spec) := by
    cases hx : nextSpec with
    | none => exact .refl _
    | some app => exact hnext app hx
  refine ⟨fun credentials hc => ?_, fun p hp hflag => ?_⟩
  · change res (nextSpec.getD s.entry.spec).user (nextSpec.getD s.entry.spec).group = _
    rw [hspec.user, hspec.group]
    exact h.stored credentials hc
  · change p.user = (nextSpec.getD s.entry.spec).user ∧ p.group = (nextSpec.getD s.entry.spec).group
    rw [hspec.user, hspec.group]
    obtain ⟨hold, hnew⟩ := Bool.or_eq_false_iff.1 hflag
    change parked.or s.entry.pending = some p at hp
    cases hx : parked with
    | none =>
      rw [hx] at hp
      exact h.parked p hp hold
    | some q =>
      rw [hx] at hp hnew
      obtain rfl := Option.some.inj hp
      simpa using hnew

/-- The write-back of a scale, from an instance stored under the same
identity. -/
theorem Identified.rescaled {first : SheepSlot} {stored : AppConfig} {achieved : ℕ}
    (h : s.Identified res) (hfirst : first.Identified res)
    (hs : first.entry.spec.SharesIdentity s.entry.spec)
    (hstored : first.entry.spec.SharesIdentity stored) :
    (s.rescaled w stored achieved (first.owes w achieved)).Identified res := by
  have hspec : s.entry.spec.SharesIdentity stored := hs.symm.trans hstored
  have hcred : ∀ credentials, s.entry.credentials = .resolved credentials →
      res stored.user stored.group = .ok credentials := by
    intro credentials hc
    rw [hspec.user, hspec.group]
    exact h.stored credentials hc
  unfold SheepSlot.rescaled
  dsimp only
  split
  · next parked hp =>
    refine ⟨hcred, fun p hp' hflag => ?_⟩
    obtain rfl := Option.some.inj hp'
    obtain ⟨hu, hg⟩ := h.parked parked hp hflag
    rw [(recount_identity w achieved parked).user, (recount_identity w achieved parked).group, hu, hg]
    exact ⟨hspec.symm.user, hspec.symm.group⟩
  · next parked reidentifies hp =>
    refine ⟨hcred, fun p hp' hflag => ?_⟩
    obtain rfl := Option.some.inj hp'
    -- what it is handed is the speaker's own parked config
    obtain ⟨q, hq, hpair⟩ := Option.map_eq_some_iff.1 (show first.owes w achieved = _ from ‹_›)
    obtain ⟨rfl, rfl⟩ := Prod.mk.inj hpair
    obtain ⟨hu, hg⟩ := hfirst.parked q hq hflag
    rw [(recount_identity w achieved q).user, (recount_identity w achieved q).group, hu, hg]
    exact ⟨hstored.symm.user, hstored.symm.group⟩
  · next hp _ =>
    refine ⟨hcred, fun p hp' => ?_⟩
    rw [show s.entry.pending = none from hp] at hp'
    cases hp'

end SheepSlot

/-- A write that leaves every instance of one app under one identity, and
the other apps alone. -/
theorem Actor.Uniform.mapApp {n : String} {f : SheepSlot → SheepSlot} (hn : a.Uniform n)
    (spec : AppConfig)
    (hothers : ∀ (j : ℕ) (t : SheepSlot), b.sheep[j]? = some t → t.name ≠ name →
      a.sheep[j]? = some t)
    (hf : ∀ (j : ℕ) (t : SheepSlot), b.sheep[j]? = some t → t.name = name →
      spec.SharesIdentity (f t).entry.spec ∧ (f t).name = name) : (b.mapApp name f).Uniform n := by
  have hread : ∀ (j : ℕ) (u : SheepSlot), (b.mapApp name f).sheep[j]? = some u →
      spec.SharesIdentity u.entry.spec ∧ u.name = name ∨ a.sheep[j]? = some u ∧ u.name ≠ name := by
    intro j u hu
    rw [Actor.get_mapApp] at hu
    obtain ⟨t, ht, rfl⟩ := Option.map_eq_some_iff.1 hu
    split
    · next htn => exact Or.inl (hf j t ht (by simpa using htn))
    · next htn =>
      have htn : t.name ≠ name := by simpa using htn
      exact Or.inr ⟨hothers j t ht htn, htn⟩
  intro i j u v hu hv hun hvn
  rcases hread i u hu with ⟨hsu, hu'⟩ | ⟨hu, hu'⟩
  · rcases hread j v hv with ⟨hsv, -⟩ | ⟨-, hv'⟩
    · exact hsu.symm.trans hsv
    · exact absurd (hvn.trans (hun.symm.trans hu')) hv'
  · rcases hread j v hv with ⟨-, hv'⟩ | ⟨hv, -⟩
    · exact absurd (hun.trans (hvn.symm.trans hv')) hu'
    · exact hn i j u v hu hv hun hvn

namespace Stamped

theorem mapApp (h : Stamped res a) {f : SheepSlot → SheepSlot}
    (hf : ∀ (id : ℕ) (s : SheepSlot), a.sheep[id]? = some s → s.name = name →
      (f s).Identified res) : Stamped res (a.mapApp name f) := by
  refine ⟨fun id s hs => ?_, h.tasks⟩
  rw [Actor.get_mapApp] at hs
  obtain ⟨t, ht, rfl⟩ := Option.map_eq_some_iff.1 hs
  split
  · next hn => exact hf id t ht (by simpa using hn)
  · exact h.slots id t ht

theorem envEdit (h : Stamped res a) (hu : a.Abreast name)
    {r : Except SupervisorError (Option AppConfig) × Actor} (hr : Actor.EnvEdit w name a r) :
    Stamped res r.2 := by
  cases hr with
  | refused => exact h
  | parks overridden hrep _ hid _ =>
    exact h.mapApp fun j s hs hn => (h.slots j s hs).parked_on
      (fun hflag => (hu _ j _ s hrep hs hn hflag).trans hid) overridden

theorem fieldEdit (h : Stamped res a) (hu : a.Uniform name)
    {r : Except SupervisorError (Option AppConfig) × Actor} (hr : Actor.FieldEdit w name a r) :
    Stamped res r.2 := by
  cases hr with
  | refused => exact h
  | lands overridden hrep _ hnext _ _ =>
    obtain ⟨hslot, hslotn⟩ := Actor.representative_own hrep
    exact h.mapApp fun j s hs hn => (h.slots j s hs).reconfigured
      (fun app happ => (hu j _ s _ hs hslot hn hslotn).trans (hnext app happ).1) overridden

/-- Every instance a scale leaves is stored under the identity of the one
that spoke for the app. -/
theorem rescales_shares (hu : a.Uniform name) {count firstId : ℕ} {first : SheepSlot}
    {rescaled : AppConfig} {scaled : Scaled}
    (hr : Actor.Rescales w a name count firstId first rescaled scaled b)
    (hs : b.sheep[id]? = some s) (hn : s.name = name) :
    first.entry.spec.SharesIdentity s.entry.spec := by
  have hstored : first.entry.spec.SharesIdentity scaled.app :=
    (tryWithCount_identity hr.speaks.counted).trans (tryWithCount_identity hr.stored)
  have hspec : ∀ t : SheepSlot, (t.rescaled w scaled.app scaled.achieved
      (first.owes w scaled.achieved)).entry.spec = scaled.app := by
    intro t
    unfold SheepSlot.rescaled
    dsimp only
    split <;> rfl
  rcases hr.own id s hs hn with ⟨ht, he, -⟩ | ⟨-, -, rfl⟩ | ⟨-, -, rfl⟩ | ⟨-, -, -, rfl⟩
  · rw [he]
    have hspec := congrArg ProcessEntry.spec he
    exact hu firstId id first _ hr.speaks.slot ht hr.speaks.name_eq
      ((congrArg AppConfig.name hspec).symm.trans hn)
  all_goals rw [hspec]; exact hstored

/-- A granted scale. -/
theorem rescales (h : Stamped res a) (hu : a.Uniform name) (hres : w.Resolves res)
    {count firstId : ℕ} {first : SheepSlot} {rescaled : AppConfig} {scaled : Scaled}
    (hr : Actor.Rescales w a name count firstId first rescaled scaled b) : Stamped res b := by
  have hfirst := h.slots firstId first hr.speaks.slot
  have hcounted := tryWithCount_identity hr.speaks.counted
  have hstored : first.entry.spec.SharesIdentity scaled.app :=
    hcounted.trans (tryWithCount_identity hr.stored)
  have hown : ∀ (t : SheepSlot) (j : ℕ), a.sheep[j]? = some t → t.name = name →
      first.entry.spec.SharesIdentity t.entry.spec := fun t j ht hn =>
    hu firstId j first t hr.speaks.slot ht hr.speaks.name_eq hn
  refine ⟨fun id s hs => ?_, fun task ht => ?_⟩
  · by_cases hn : s.name = name
    · rcases hr.own id s hs hn with ⟨ht, he, -⟩ | ⟨ht, htn, rfl⟩ | ⟨-, hc, rfl⟩ | ⟨-, hc, hsown, rfl⟩
      · have hold := h.slots id _ ht
        refine ⟨?_, ?_⟩
        · rw [he]
          exact hold.stored
        · rw [he]
          exact hold.parked
      · exact (h.slots id _ ht).rescaled hfirst (hown _ id ht (htn.trans hr.speaks.name_eq)) hstored
      · exact (hfirst.identify hres hc).2.rescaled hfirst (.refl _) hstored
      · refine SheepSlot.Identified.rescaled ⟨fun cs hcs => ?_, fun p hp => ?_⟩ hfirst
          (by rw [hsown.spec]; exact hcounted) hstored
        · rw [hsown.credentials_eq] at hcs
          rw [← SpawnIdentity.resolved.inj hcs, hsown.spec, hcounted.user, hcounted.group]
          exact (hfirst.identify hres hc).1
        · rw [hsown.pending] at hp
          cases hp
    · exact h.slots id s (hr.others id s hs hn)
  · rcases hr.spawnedTasks task ht with ht | ⟨credentials, hc, hspec, hcred⟩
    · exact h.tasks task ht
    · rw [hspec, hcred, hcounted.user, hcounted.group]
      exact (hfirst.identify hres hc).1

/-- One app of a load. The other apps are left alone. -/
theorem loadOne (h : Stamped res a) (hres : w.Resolves res) {reset : ResetDepth}
    {incoming : DeclaredApp} (hu : a.Uniform incoming.config.name) {r : Applied × Actor}
    (hr : Actor.LoadOne w reset incoming a r) :
    Stamped res r.2 ∧ ∀ n, a.Uniform n → r.2.Uniform n := by
  cases hr with
  | refused => exact ⟨h, fun _ hn => hn⟩
  | @lands id slot merged count b parked applied overridden hrep _ _ hmerged hroute _ _ =>
    obtain ⟨hslot, hslotn⟩ := Actor.representative_own hrep
    -- whatever the count came to, the instances are under the identity they had
    have hmid : Stamped res b ∧ (∀ (j : ℕ) (t : SheepSlot), b.sheep[j]? = some t →
        t.name = incoming.config.name → slot.entry.spec.SharesIdentity t.entry.spec) ∧
        ∀ (j : ℕ) (t : SheepSlot), b.sheep[j]? = some t → t.name ≠ incoming.config.name →
          a.sheep[j]? = some t := by
      cases hroute with
      | stays _ =>
        exact ⟨h, fun j t ht htn => hu id j slot t hslot ht hslotn htn, fun _ _ ht _ => ht⟩
      | scales _ _ hr =>
        refine ⟨h.rescales hu hres hr, fun j t ht htn => ?_, hr.others⟩
        exact (hu id _ slot _ hslot hr.speaks.slot hslotn hr.speaks.name_eq).trans
          (rescales_shares hu hr ht htn)
    obtain ⟨hb, hshares, hothers⟩ := hmid
    have hnext : ∀ app, (w.reachedSpec slot.entry.spec slot.intendedSpec merged count).toOption =
        some app → slot.entry.spec.SharesIdentity app ∧ app.name = incoming.config.name :=
      Actor.reachedSpec_own hslotn hmerged
    refine ⟨hb.mapApp fun j t ht htn => (hb.slots j t ht).reconfigured
      (fun app happ => (hshares j t ht htn).symm.trans (hnext app happ).1) overridden, ?_⟩
    refine fun n hn => hn.mapApp slot.entry.spec hothers fun j t ht htn => ?_
    change slot.entry.spec.SharesIdentity (Option.getD _ t.entry.spec) ∧
      (Option.getD _ t.entry.spec).name = incoming.config.name
    cases hx : (w.reachedSpec slot.entry.spec slot.intendedSpec merged count).toOption with
    | none => exact ⟨hshares j t ht htn, htn⟩
    | some app => exact hnext app hx

theorem loads (hres : w.Resolves res) {reset : ResetDepth} {apps : List DeclaredApp}
    {rows : List Applied} (hl : Actor.Loads w reset apps a rows b) (h : Stamped res a)
    (hu : ∀ app ∈ apps, a.Uniform app.config.name) : Stamped res b := by
  induction hl with
  | nil => exact h
  | @cons incoming apps a b d applied rows hone _ _ ih =>
    obtain ⟨hstamped, huniform⟩ := h.loadOne hres (hu incoming List.mem_cons_self) hone
    exact ih hstamped fun app happ => huniform _ (hu app (List.mem_cons_of_mem _ happ))

theorem answering {α : Type} {payload : α → Answer} {r : α × Actor} (h : Stamped res r.2) :
    Stamped res (Actor.answering payload r).pruneDisabled :=
  ⟨h.slots, h.tasks⟩

/-- **One turn keeps every identity its own**, when a config command finds
its app's instances under one. -/
theorem turn (h : Stamped res a) (hi : Inv .none a) {m : Msg} (hadm : a.admits m)
    (hres : w.Resolves res) (hu : (⟨a, w, m⟩ : Turn).Unites) : Stamped res (a.turn w m) := by
  by_cases hconf : ∃ n, (⟨a, w, m⟩ : Turn).Configures n
  · obtain ⟨n, hconf⟩ := hconf
    unfold Turn.Configures at hconf
    dsimp only at hconf
    split at hconf
    · next app count =>
      change Stamped res (Actor.answering .scaled (a.handleScale w app count)).pruneDisabled
      rcases Actor.handleScale_spec (w := w) hi app count with ⟨err, he⟩ | ⟨_, _, _, _, _, he, hr⟩
      · rw [he]
        exact h.answering
      · rw [he]
        exact (h.rescales hu hres hr).answering
    · next apps reset =>
      obtain ⟨rows, hl, -⟩ := Actor.handleApplyConfig_loads (w := w) hi apps reset
      exact (loads hres hl h hu).answering
    · next key value => exact (h.envEdit hu (Actor.handleSetSheepEnv_edit hi key value)).answering
    · next entries force dryRun =>
      exact (h.envEdit hu (Actor.handleSetSheepEnvBatch_edit hi entries force dryRun)).answering
    · next source target replace keep dryRun reviewed =>
      exact (h.envEdit hu
        (Actor.handleCopySheepEnv_edit hi source replace keep dryRun reviewed)).answering
    · next key value =>
      exact (h.fieldEdit hu (Actor.handleSheepField_edit hi key (.set value))).answering
    · next key => exact (h.fieldEdit hu (Actor.handleSheepField_edit hi key .reset)).answering
    · next dog table =>
      exact (h.fieldEdit hu (Actor.handleSetSheepDogSettings_edit hi dog table)).answering
    · exact hconf.elim
  · obtain ⟨d, hm, hd⟩ := Actor.turn_moves hi hadm w
    have hall : Stamped res d := hm.keeps (P := fun p => Stamped res p.actor) hi h
      fun p q _ hp hmove => hmove.stamped (fun n hn => hconf ⟨n, hn⟩) hres hp
    rw [hd]
    exact ⟨hall.slots, hall.tasks⟩

end Stamped

/-- **Every child runs as the config it is spawned from says.** In every
run over one directory whose config commands find their apps' instances
under one identity, each process is spawned under the identity its config
resolves to, and each identity a slot has resolved is its stored config's. -/
theorem spawns_identified {dogBinaries : List (String × String)} {res : Directory}
    {h : List (Actor × World × Msg)} {a : Actor} (hr : Run Actor.Step (.init dogBinaries) h a)
    (hres : ∀ p ∈ h, p.2.1.Resolves res)
    (hu : Meets (fun s e => (⟨s, e.1, e.2⟩ : Turn).Unites) h) :
    (∀ task ∈ a.spawnedTasks, res task.spec.user task.spec.group = .ok task.credentials) ∧
    ∀ (id : ℕ) (s : SheepSlot) (credentials : Option Credentials), a.sheep[id]? = some s →
      s.entry.credentials = .resolved credentials →
      res s.entry.spec.user s.entry.spec.group = .ok credentials := by
  have hboth : Inv .none a ∧ Stamped res a := by
    refine hr.invariant (P := fun a => Inv .none a ∧ Stamped res a)
      (C := fun s e => e.1.Resolves res ∧ (⟨s, e.1, e.2⟩ : Turn).Unites)
      (fun p hp => ⟨hres p hp, hu p hp⟩) ⟨Actor.inv_init dogBinaries, ?_, ?_⟩ ?_
    · simp [Actor.init]
    · simp [Actor.init, Actor.spawnedTasks]
    · rintro s e s' ⟨hi, hs⟩ ⟨hres, hu⟩ hstep
      refine ⟨hstep.inv hi, ?_⟩
      obtain ⟨-, hadm, rfl⟩ := hstep
      exact hs.turn hi hadm hres hu
  exact ⟨hboth.2.tasks, fun id s credentials hs hc => (hboth.2.slots id s hs).stored credentials hc⟩

/-! ## Two users -/

/-- A host with two users, and no groups of its own. -/
def twoUsers : Directory := fun user _ =>
  .ok (user.map fun name => if name = "alice" then ⟨1, 1⟩ else ⟨2, 2⟩)

/-- `plain` on that host, where an edit of `user` waits for a respawn and
one of `fold` reaches a running child. -/
def peopled : World :=
  { plain with
    resolve := fun app => twoUsers app.user app.group
    resolve_none := fun hu _ => by simp [twoUsers, hu]
    editField := fun app key value =>
      .ok (if key = "user" then { app with user := some value } else { app with fold := some value })
    editField_name := by
      rintro c k v c' h
      rw [← Except.ok.inj h]
      split <;> rfl
    reaches := fun key => key == "fold" }

theorem peopled_resolves : peopled.Resolves twoUsers := fun _ => rfl

/-- Two instances of an app that runs as alice. -/
def clustered : AppConfig := { name := "web", instances := 2, user := some "alice" }

/-- The app is handed to bob, and one instance restarted. -/
def handedOver : List (World × Msg) :=
  [(peopled, .command (.start [clustered] .allOrNothing [])),
    (peopled, .command (.setSheepField "web" "user" "bob")),
    (peopled, .command (.restart (.id 1) .operator)),
    (peopled, .exited ⟨1, 1, "web", .fresh, 101, clustered, some ⟨1, 1⟩⟩ ⟨some 0, none⟩ false)]

/-- The restarted instance runs as bob, from bob's config. -/
theorem spawns_identified_handedOver :
    (∀ task ∈ ((Actor.init []).play handedOver).spawnedTasks,
      twoUsers task.spec.user task.spec.group = .ok task.credentials) ∧
    ∀ (id : ℕ) (s : SheepSlot) (credentials : Option Credentials),
      ((Actor.init []).play handedOver).sheep[id]? = some s →
      s.entry.credentials = .resolved credentials →
      twoUsers s.entry.spec.user s.entry.spec.group = .ok credentials := by
  have hplay : (Actor.init []).Playable handedOver := by decide +kernel
  refine spawns_identified hplay.run (fun p hp => ?_) fun p hp => ?_
  · simp only [handedOver, Actor.history, List.mem_cons, List.not_mem_nil, or_false] at hp
    rcases hp with rfl | rfl | rfl | rfl <;> exact peopled_resolves
  · simp only [handedOver, Actor.history, List.mem_cons, List.not_mem_nil, or_false] at hp
    rcases hp with rfl | rfl | rfl | rfl
    · trivial
    · -- both instances have just been registered from the one config
      have hall : ∀ e ∈ ((Actor.init []).turn peopled
          (.command (.start [clustered] .allOrNothing []))).sheep.toList,
          e.2.entry.spec = clustered := by decide +kernel
      intro i j s t hs ht _ _
      rw [hall _ (Table.mem_toList.2 hs), hall _ (Table.mem_toList.2 ht)]
      exact .refl clustered
    · trivial
    · trivial

/-- Then a field is edited that reaches the running children, the app is
handed back, and the same instance restarted. -/
def handedBack : List (World × Msg) :=
  handedOver ++
    [(peopled, .command (.setSheepField "web" "fold" "blue")),
      (peopled, .command (.setSheepField "web" "user" "alice")),
      (peopled, .command (.restart (.id 1) .operator)),
      (peopled, .exited ⟨2, 1, "web", .respawn, 101, { clustered with user := some "bob" },
        some ⟨2, 2⟩⟩ ⟨some 0, none⟩ false)]

/-- The instance is spawned from alice's config and runs as bob. -/
theorem spawn_misidentified : ∃ (h : List (Actor × World × Msg)) (a : Actor) (task : Task),
    Run Actor.Step (.init []) h a ∧ (∀ p ∈ h, p.2.1.Resolves twoUsers) ∧ task ∈ a.spawnedTasks ∧
      twoUsers task.spec.user task.spec.group = .ok (some ⟨1, 1⟩) ∧
      task.credentials = some ⟨2, 2⟩ := by
  have hplay : (Actor.init []).Playable handedBack := by decide +kernel
  have hmem : (⟨3, 1, "web", .respawn, 101, { clustered with fold := some "blue" },
      some ⟨2, 2⟩⟩ : Task) ∈ ((Actor.init []).play handedBack).spawnedTasks := by decide +kernel
  refine ⟨_, _, _, hplay.run, fun p hp => ?_, hmem, by decide +kernel, rfl⟩
  simp only [handedBack, handedOver, List.cons_append, List.nil_append, Actor.history,
    List.mem_cons, List.not_mem_nil, or_false] at hp
  rcases hp with rfl | rfl | rfl | rfl | rfl | rfl | rfl | rfl <;> exact peopled_resolves

end Supervisor

end Shep

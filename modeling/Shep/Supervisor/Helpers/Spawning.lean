import Mathlib.Data.Finset.Card
import Shep.Supervisor.Helpers.Preserve

/-!
# Supervisor — spawning as moves

`refuse_spawn`, `respawn`, `spawn_fresh` and `register_without_spawning`
written as moves. A refused spawn lands its slot at rest or in a back-off,
and an accepted one gives it a task: the lemmas say which, and under what
the code has checked. The numbers `instance_slots` hands out to new
instances are free, and different.
-/

namespace Shep

namespace Supervisor

/-! ## The numbers of new instances -/

/-- The search for a free number is long enough. -/
theorem nextFree_free (existing : List ℕ) (fuel candidate : ℕ)
    (hfuel : (existing.toFinset.filter (candidate ≤ ·)).card ≤ fuel) :
    nextFree existing fuel candidate ∉ existing ∧ candidate ≤ nextFree existing fuel candidate := by
  induction fuel generalizing candidate with
  | zero =>
    refine ⟨fun hin => ?_, le_rfl⟩
    have hempty : existing.toFinset.filter (candidate ≤ ·) = ∅ := Finset.card_eq_zero.1 (by omega)
    have hmem : candidate ∈ existing.toFinset.filter (candidate ≤ ·) := by
      simpa [nextFree] using hin
    rw [hempty] at hmem
    cases hmem
  | succ fuel ih =>
    unfold nextFree
    split
    · next hin =>
      have hsub : existing.toFinset.filter (candidate + 1 ≤ ·) ⊂
          existing.toFinset.filter (candidate ≤ ·) := by
        refine (Finset.ssubset_iff_of_subset ?_).2 ⟨candidate, ?_, ?_⟩
        · intro n hn
          simp only [Finset.mem_filter] at hn ⊢
          exact ⟨hn.1, by omega⟩
        · simpa using hin
        · simp
      have hless := Finset.card_lt_card hsub
      obtain ⟨hfree, hle⟩ := ih (candidate + 1) (by omega)
      exact ⟨hfree, by omega⟩
    · next hout => exact ⟨by simpa using hout, le_rfl⟩

theorem card_filter_le_length (existing : List ℕ) (candidate : ℕ) :
    (existing.toFinset.filter (candidate ≤ ·)).card ≤ existing.length :=
  (Finset.card_filter_le _ _).trans existing.toFinset_card_le

theorem instanceSlotsFrom_free (existing : List ℕ) (candidate count : ℕ) :
    (instanceSlotsFrom existing candidate count).Nodup ∧
      ∀ n ∈ instanceSlotsFrom existing candidate count, n ∉ existing ∧ candidate ≤ n := by
  induction count generalizing candidate with
  | zero => simp [instanceSlotsFrom]
  | succ count ih =>
    obtain ⟨hfree, hle⟩ := nextFree_free existing existing.length candidate
      (card_filter_le_length existing candidate)
    obtain ⟨hnodup, hrest⟩ := ih (nextFree existing existing.length candidate + 1)
    unfold instanceSlotsFrom
    refine ⟨List.nodup_cons.2 ⟨fun hin => ?_, hnodup⟩, fun n hn => ?_⟩
    · have := (hrest _ hin).2
      omega
    · rcases List.mem_cons.1 hn with rfl | hn
      · exact ⟨hfree, hle⟩
      · obtain ⟨hout, hlater⟩ := hrest n hn
        exact ⟨hout, by omega⟩

theorem instanceSlots_free (existing : List ℕ) (count : ℕ) :
    (instanceSlots existing count).Nodup ∧ ∀ n ∈ instanceSlots existing count, n ∉ existing := by
  obtain ⟨hnodup, hfree⟩ := instanceSlotsFrom_free existing 0 count
  exact ⟨hnodup, fun n hn => (hfree n hn).1⟩

/-! ## Slots the lifecycle cannot tell apart -/

namespace SheepSlot

variable {s t u : SheepSlot}

theorem Agrees.refl (hs : s.WellFormed) : s.Agrees s where
  name := rfl
  inst := rfl
  dog := rfl
  parked := hs.parked
  unparked := hs.unparked
  status := rfl
  pid := rfl
  startedAt := rfl
  reload := rfl
  ctl := rfl
  manual := rfl
  pendingDelete := rfl
  epoch := rfl
  readyFailed := rfl

theorem Agrees.promotePending (h : s.Agrees t) : s.Agrees t.promotePending := by
  unfold SheepSlot.promotePending
  split
  · exact h
  · next p hp =>
    exact { h with
      name := (h.parked p hp).trans h.name, parked := by simp, unparked := fun _ => rfl }

theorem Agrees.identified (h : s.Agrees t) (credentials : Option Credentials) :
    s.Agrees (t.identified credentials) :=
  { h with }

theorem Agrees.setBudget (h : s.Agrees t) (budget : RestartBudget) :
    s.Agrees { t with entry := { t.entry with budget := budget } } :=
  { h with }

theorem Agrees.failed (h : s.Agrees t) (reason : String) : s.RestsAs .errored (t.failed reason) :=
  { h with status := rfl, pid := rfl, startedAt := rfl, ctl := rfl }

theorem Agrees.waits (h : s.Agrees t) :
    s.RestsAs .waitingRestart (t.clearLifecycle .waitingRestart) :=
  { h with status := rfl, pid := rfl, startedAt := rfl, ctl := rfl }

theorem Agrees.relaunched (h : s.Agrees t) (task pid now : ℕ) :
    s.RelaunchesAs task (t.relaunched task pid now) where
  name := h.name
  inst := h.inst
  dog := h.dog
  parked := h.parked
  unparked := h.unparked
  status := by
    simp only [SheepSlot.relaunched]
    split <;> simp
  pid := rfl
  startedAt := rfl
  reload := h.reload
  ctl := rfl
  manual := h.manual
  pendingDelete := h.pendingDelete
  epoch := by simp [SheepSlot.relaunched, h.epoch]
  readyFailed := rfl

/-! The config and the identity a slot carries on with -/

section Heir

variable {w : World}

theorem Heir.refl (s : SheepSlot) : s.Heir w s := ⟨rfl, fun _ _ h => h⟩

theorem Heir.same (h : s.Heir w t) (hspec : u.entry.spec = t.entry.spec)
    (hpending : u.entry.pending = t.entry.pending)
    (hflag : u.entry.pendingReidentifies = t.entry.pendingReidentifies)
    (hcred : u.entry.credentials = t.entry.credentials) : s.Heir w u where
  intended := by
    rw [← h.intended, SheepSlot.intendedSpec, SheepSlot.intendedSpec, hspec, hpending]
  identified := by
    intro res hres hs
    have ht := h.identified res hres hs
    refine ⟨?_, ?_⟩
    · rw [hspec, hcred]
      exact ht.stored
    · rw [hspec, hpending, hflag]
      exact ht.parked

theorem Heir.setBudget (h : s.Heir w t) (budget : RestartBudget) :
    s.Heir w { t with entry := { t.entry with budget := budget } } :=
  h.same rfl rfl rfl rfl

theorem Heir.promotePending (h : s.Heir w t) : s.Heir w t.promotePending := by
  unfold SheepSlot.promotePending
  split
  · exact h
  · next p hp =>
    refine ⟨?_, fun res hres hs => ?_⟩
    · rw [← h.intended, SheepSlot.intendedSpec, SheepSlot.intendedSpec, hp]
      rfl
    · have ht := h.identified res hres hs
      refine ⟨fun credentials hc => ?_, by simp⟩
      dsimp only at hc ⊢
      split at hc
      · cases hc
      · next hflag =>
        obtain ⟨hu, hg⟩ := ht.parked p hp (by simpa using hflag)
        rw [hu, hg]
        exact ht.stored credentials hc

theorem Identified.identify {res : Directory} (h : t.Identified res) (hres : w.Resolves res)
    {credentials : Option Credentials} (hc : t.credentialsForSpawn w = .ok credentials) :
    res t.entry.spec.user t.entry.spec.group = .ok credentials ∧
      (t.identified credentials).Identified res := by
  have hok : res t.entry.spec.user t.entry.spec.group = .ok credentials := by
    unfold SheepSlot.credentialsForSpawn at hc
    split at hc
    · next cs hcs => exact Except.ok.inj hc ▸ h.stored cs hcs
    · rw [hres] at hc
      exact hc
  refine ⟨hok, fun cs he => ?_, h.parked⟩
  rw [← SpawnIdentity.resolved.inj he]
  exact hok

theorem Heir.identify (h : s.Heir w t) {credentials : Option Credentials}
    (hc : t.credentialsForSpawn w = .ok credentials) : s.Heir w (t.identified credentials) where
  intended := h.intended
  identified res hres hs := ((h.identified res hres hs).identify hres hc).2

theorem identified_of_resolve {res : Directory} (hres : w.Resolves res)
    (hp : s.entry.pending = none)
    (hc : ∀ credentials, s.entry.credentials = .resolved credentials →
      w.resolve s.entry.spec = .ok credentials) : s.Identified res := by
  refine ⟨fun credentials he => ?_, fun p hp' => ?_⟩
  · rw [← hres]
    exact hc credentials he
  · rw [hp] at hp'
    cases hp'

end Heir

theorem Fresh.agrees {ctl : Option ℕ} (h : s.Fresh ctl) : s.Agrees s where
  name := rfl
  inst := rfl
  dog := rfl
  parked := by simp [h.parked]
  unparked := fun _ => h.unparked
  status := rfl
  pid := rfl
  startedAt := rfl
  reload := rfl
  ctl := rfl
  manual := rfl
  pendingDelete := rfl
  epoch := rfl
  readyFailed := rfl

theorem WellFormed.restsAs (hs : s.WellFormed) (hctl : s.ctl = none) (status : ProcStatus) :
    s.RestsAs status (s.setStatus status) where
  name := rfl
  inst := rfl
  dog := rfl
  parked := hs.parked
  unparked := hs.unparked
  status := rfl
  pid := hs.idle_pid hctl
  startedAt := hs.idle_startedAt hctl
  reload := rfl
  ctl := hctl
  manual := rfl
  pendingDelete := rfl
  epoch := rfl
  readyFailed := rfl

end SheepSlot

/-! ## Refused and accepted spawns -/

section Respawn

variable {c : Turn} {w : World} {x : Hole} {a : Actor} {id : ℕ} {s t : SheepSlot}

namespace Actor

theorem refuseSpawn_moves (hs : a.sheep[id]? = some s) (hctl : s.ctl = none) (hag : s.Agrees t)
    (hheir : s.Heir c.world t) (hfail : c.MayFail x a id s) (err : AssembleError)
    (hwait : err.isRetriable = true →
      t.entry.budget.unstableCount + 1 < t.entry.spec.maxRestarts → c.MayWait x a id s.epoch) :
    Moves c ⟨x, a⟩ ⟨x, a.refuseSpawn id t err⟩ := by
  unfold refuseSpawn
  by_cases hr : err.isRetriable = true
  · simp only [hr, Bool.not_true, Bool.false_eq_true, if_false]
    split
    · exact .single (.rest hs hctl ((hag.setBudget _).failed _) (Or.inr ⟨rfl, hfail⟩)
        (hheir.same rfl rfl rfl rfl))
    · next hex =>
      refine .single (.backOff _ hs hctl (hag.setBudget _).waits hfail (hwait hr ?_)
        (hheir.same rfl rfl rfl rfl))
      exact Nat.lt_of_not_le fun hle => hex (decide_eq_true hle)
  · simp only [hr, Bool.not_false, if_true]
    exact .single (.rest hs hctl (hag.failed _) (Or.inr ⟨rfl, hfail⟩)
      (hheir.same rfl rfl rfl rfl))

/-- A retriable refusal of `assemble_for_spawn` is `assemble`'s or the
placement's. -/
theorem assembleForSpawn_retriable {app : AppConfig} {inst : ℕ} {err : AssembleError}
    (h : a.assembleForSpawn w id app inst = .error err) (hr : err.isRetriable = true) :
    w.assemble app inst = .error err ∨ w.place id app = .error err := by
  unfold assembleForSpawn at h
  split at h
  · next e he => exact Or.inl (he.trans h)
  · split at h
    · cases h
      cases hr
    · exact Or.inr h

theorem applyImmediateStop_moves (h : Inv x a) (hs : a.sheep[id]? = some s) (hctl : s.ctl = none) :
    Moves c ⟨x, a⟩ ⟨x, a.applyImmediateStop id s⟩ := by
  unfold applyImmediateStop
  split
  · exact .single (.rest hs hctl ((h.wellFormed hs).restsAs hctl _) (Or.inl rfl)
      ((SheepSlot.Heir.refl s).same rfl rfl rfl rfl))
  · exact .single (.rest hs hctl ((h.wellFormed hs).restsAs hctl _) (Or.inl rfl)
      ((SheepSlot.Heir.refl s).same rfl rfl rfl rfl))
  · exact .refl

/-- The spawn of `respawn`: accepted, or refused. -/
theorem respawnFrom_moves (hs : a.sheep[id]? = some s) (hctl : s.ctl = none) (hag : s.Agrees t)
    (hheir : s.Heir c.world t) (hen : s.name ∉ a.disabled) (hup : a.shuttingDown = false)
    (hrel : x.Relaunches c id s) (manually : Bool)
    (hwait : ∀ err : AssembleError, err.isRetriable = true →
      c.world.assemble t.entry.spec t.entry.inst = .error err ∨ c.world.place id t.entry.spec = .error err →
      t.entry.budget.unstableCount + 1 < t.entry.spec.maxRestarts → c.MayWait x a id s.epoch) :
    Moves c ⟨x, a⟩ ⟨x, a.respawnFrom c.world id manually t⟩ := by
  have hfail : c.MayFail x a id s := Or.inl ⟨hen, Or.inl hrel⟩
  unfold respawnFrom
  split
  · exact .single (.rest hs hctl (hag.failed _) (Or.inr ⟨rfl, hfail⟩)
      (hheir.same rfl rfl rfl rfl))
  · next credentials hcred =>
    have hid := hag.identified credentials
    have hheir := hheir.identify hcred
    dsimp only
    split
    · next err herr =>
      exact refuseSpawn_moves hs hctl hid hheir hfail err fun hr =>
        hwait err hr (assembleForSpawn_retriable herr hr)
    · split
      · exact .single (.rest hs hctl (hid.failed _) (Or.inr ⟨rfl, hfail⟩)
          (hheir.same rfl rfl rfl rfl))
      · next pid _ =>
        have hmove : Move c ⟨x, a⟩ ⟨x, (a.startTask id pid t.entry.spec credentials
            .respawn).setSlot id ((t.identified credentials).relaunched a.nextTask pid c.world.now)⟩ :=
          .relaunch hs hctl (hid.relaunched _ _ _) hen hup hrel ⟨rfl, rfl⟩
            (hheir.same rfl rfl rfl rfl)
        split
        · exact .tail (.single hmove) (.quiet _ _ _)
        · exact .single hmove

/-- `respawn`, of a slot with no process that may start again. -/
theorem respawn_moves (h : Inv x a) (hs : a.sheep[id]? = some s) (hctl : s.ctl = none)
    (hup : a.shuttingDown = false) (hrel : s.name ∉ a.disabled → x.Relaunches c id s)
    (manually : Bool)
    (hwait : ∀ err : AssembleError, s.name ∉ a.disabled → err.isRetriable = true →
      c.world.assemble s.intendedSpec s.entry.inst = .error err ∨
        c.world.place id s.intendedSpec = .error err →
      s.entry.budget.unstableCount + 1 < s.intendedSpec.maxRestarts → c.MayWait x a id s.epoch) :
    Moves c ⟨x, a⟩ ⟨x, a.respawn c.world id manually⟩ := by
  have hpromoted : s.promotePending.entry.spec = s.intendedSpec ∧
      s.promotePending.entry.inst = s.entry.inst ∧
      s.promotePending.entry.budget = s.entry.budget := by
    unfold SheepSlot.promotePending SheepSlot.intendedSpec
    split
    · next hp => simp [hp]
    · next p hp => simp [hp]
  simp only [respawn, hs]
  split
  · split
    · exact applyImmediateStop_moves h hs hctl
    · exact .refl
  · next hdis =>
    have hen : s.name ∉ a.disabled := by simpa [isDisabled] using hdis
    refine respawnFrom_moves hs hctl (SheepSlot.Agrees.refl (h.wellFormed hs)).promotePending
      (SheepSlot.Heir.refl s).promotePending hen hup (hrel hen) manually ?_
    rw [hpromoted.1, hpromoted.2.1, hpromoted.2.2]
    exact fun err => hwait err hen

end Actor

end Respawn

/-! ## New slots -/

namespace Actor

variable {c : Turn} {w : World} {x : Hole} {a : Actor} {id : ℕ}

theorem freshSlot_fresh (w : World) (app : AppConfig) (inst : ℕ) (credentials : SpawnIdentity)
    (dog : Option DogSource) (status : ProcStatus) (a : Actor) :
    (a.freshSlot w app inst credentials dog status).Fresh none where
  parked := rfl
  unparked := rfl
  pid := rfl
  startedAt := rfl
  reload := rfl
  ctl_eq := rfl
  manual := rfl
  pendingDelete := rfl
  epoch := rfl
  readyFailed := rfl

/-- What `spawn_fresh` can leave under the id it was given. -/
inductive SpawnedFresh (w : World) (id : ℕ) (app : AppConfig) (inst : ℕ)
    (credentials : Option Credentials) (dog : Option DogSource) (a : Actor) : Actor → Prop
  /-- Refused for good: registered, with no process. -/
  | errored {s : SheepSlot} : s.Fresh none → s.entry.status = .errored →
      s.Seats app inst credentials dog → SpawnedFresh w id app inst credentials dog a (a.setSlot id s)
  /-- Refused for now: registered, waiting. -/
  | waiting {s s' : SheepSlot} (delay : Option ℕ) : s.Fresh none → s.entry.status = .errored →
      s.Seats app inst credentials dog → s.RestsAs .waitingRestart s' →
      s'.Seats app inst credentials dog → s.Heir w s' → s'.entry.pending = none →
      SpawnedFresh w id app inst credentials dog a (a.backOff id s' delay)
  /-- Accepted. -/
  | live {s : SheepSlot} {pid : ℕ} (readies : List ReadyWait) : s.Fresh (some a.nextTask) →
      (s.entry.status = .starting ∨ s.entry.status = .online) → s.Seats app inst credentials dog →
      s.entry.pid = some pid →
      a.assembleForSpawn w id app inst = .ok () → w.spawn id app = .ok pid →
      SpawnedFresh w id app inst credentials dog a
        { (a.startTask id pid s.entry.spec credentials .fresh).setSlot id s with
          readies := readies }

/-- The turn registers instances of `app` on its own account, under the
identity the host resolved. -/
structure Vets (c : Turn) (dog : Option DogSource) (app : AppConfig)
    (credentials : Option Credentials) : Prop where
  enrolled : dog = none → c.Enrols app
  resolved : c.world.resolve app = .ok credentials

theorem refuseSpawn_fresh {app : AppConfig} {inst : ℕ} {credentials : Option Credentials}
    {dog : Option DogSource} {s : SheepSlot} (hs : s.Fresh none) (hst : s.entry.status = .errored)
    (hseat : s.Seats app inst credentials dog) (err : AssembleError) :
    SpawnedFresh w id app inst credentials dog a (a.refuseSpawn id s err) := by
  have hfailed : ∀ (t : SheepSlot) reason, t.Fresh none → (t.failed reason).Fresh none :=
    fun t reason ht => { ht with pid := rfl, startedAt := rfl, ctl_eq := rfl }
  unfold refuseSpawn
  split
  · exact .errored (hfailed s _ hs) rfl { hseat with }
  · dsimp only
    split
    · exact .errored (hfailed _ _ { hs with }) rfl { hseat with }
    · exact .waiting _ hs hst hseat (hs.agrees.setBudget _).waits { hseat with }
        ((SheepSlot.Heir.refl s).same rfl rfl rfl rfl) hs.parked

/-- `spawn_fresh` registers exactly one slot, under the id it was given. -/
theorem spawnFreshAt_spawned (w : World) (id : ℕ) (app : AppConfig) (inst : ℕ)
    (credentials : Option Credentials) (dog : Option DogSource) (gate : List String) (a : Actor) :
    SpawnedFresh w id app inst credentials dog a
      (a.spawnFreshAt w id app inst credentials dog gate).2 := by
  have hs := freshSlot_fresh w app inst (.resolved credentials) dog .errored a
  unfold spawnFreshAt
  dsimp only
  split
  · next err _ =>
    have hrefused : SpawnedFresh w id app inst credentials dog a (a.refuseSpawn id _ err) :=
      refuseSpawn_fresh hs rfl ⟨rfl, rfl, rfl, rfl⟩ err
    split
    · split <;> exact hrefused
    · exact hrefused
  · next hasm =>
    split
    · exact .errored { hs with } rfl ⟨rfl, rfl, rfl, rfl⟩
    · next pid hpid =>
      have hlive : ∀ st, ({ a.freshSlot w app inst (.resolved credentials) dog .errored with
          entry := { (a.freshSlot w app inst (.resolved credentials) dog .errored).entry with
            status := st, pid := some pid, startedAt := some w.now }
          ctl := some a.nextTask } : SheepSlot).Fresh (some a.nextTask) :=
        fun st => { hs with pid := rfl, startedAt := rfl, ctl_eq := rfl }
      by_cases hg : (app.gated || gate.contains app.name) = true
      · simp only [hg, if_true]
        exact .live _ (hlive .starting) (Or.inl rfl) ⟨rfl, rfl, rfl, rfl⟩ rfl hasm hpid
      · simp only [hg]
        exact .live _ (hlive .online) (Or.inr rfl) ⟨rfl, rfl, rfl, rfl⟩ rfl hasm hpid

theorem Vets.founds {app : AppConfig} {inst : ℕ} {credentials : Option Credentials}
    {dog : Option DogSource} {ctl : Option ℕ} {s : SheepSlot} (h : Vets c dog app credentials)
    (hs : s.Fresh ctl) (hseat : s.Seats app inst credentials dog) : c.Founds s where
  enrolled hdog := hseat.spec ▸ h.enrolled (hseat.dog ▸ hdog)
  identified res hres := by
    refine SheepSlot.identified_of_resolve hres hs.parked fun cs hcs => ?_
    rw [hseat.spec, h.resolved]
    rw [hseat.credentials] at hcs
    rw [SpawnIdentity.resolved.inj hcs]

/-! ## Numbers -/

theorem mem_slotsOfName {n : String} {e : ℕ × ℕ} : e ∈ a.slotsOfName n ↔
    ∃ s, a.sheep[e.2]? = some s ∧ s.name = n ∧ s.entry.inst = e.1 := by
  obtain ⟨inst, id⟩ := e
  simp only [slotsOfName, List.mem_insertionSort, List.mem_map, List.mem_filter, Prod.exists,
    Prod.mk.injEq, Table.mem_toList, beq_iff_eq]
  constructor
  · rintro ⟨j, s, ⟨hs, hn⟩, rfl, rfl⟩
    exact ⟨s, hs, hn, rfl⟩
  · rintro ⟨s, hs, hn, rfl⟩
    exact ⟨id, s, ⟨hs, hn⟩, rfl, rfl⟩

theorem spare_instanceSlots {n : String} {inst count : ℕ}
    (h : inst ∈ instanceSlots ((a.slotsOfName n).map Prod.fst) count) (id : ℕ) :
    a.Spare id n inst := by
  intro j t ht hname hinst
  have htaken : inst ∈ (a.slotsOfName n).map Prod.fst :=
    List.mem_map.2 ⟨(inst, j), mem_slotsOfName.2 ⟨t, ht, hname, hinst⟩, rfl⟩
  exact absurd htaken ((instanceSlots_free _ count).2 inst h)

theorem SpawnedFresh.slot {app : AppConfig} {inst : ℕ} {credentials : Option Credentials}
    {dog : Option DogSource} {a' : Actor} (h : SpawnedFresh w id app inst credentials dog a a') {s : SheepSlot}
    (hs : a'.sheep[id]? = some s) : s.Seats app inst credentials dog := by
  have hget : ∀ (t : SheepSlot) (b : Actor), (b.setSlot id t).sheep[id]? = some t := by
    intro t b
    simp [setSlot]
  cases h with
  | errored _ _ hseat =>
    rw [hget] at hs
    exact Option.some.inj hs ▸ hseat
  | waiting _ _ _ _ _ hseat | live _ _ _ hseat _ _ _ =>
    have hs := (hget _ _).symm.trans hs
    exact Option.some.inj hs ▸ hseat

/-- `spawn_fresh` as moves: an app no disabled mark holds, that the turn
may register. -/
theorem spawnFresh_moves (h : Inv .none a) (app : AppConfig) (inst : ℕ)
    (credentials : Option Credentials) (dog : Option DogSource) (gate : List String)
    (hen : app.name ∉ a.disabled) (hreg : c.Registers a app.name)
    (hfound : c.Configures app.name ∨ Vets c dog app credentials)
    (hnew : c.before.nextId ≤ a.nextId) (hspare : a.Spare a.nextId app.name inst)
    (hdown : a.shuttingDown = true → ∀ pid, a.assembleForSpawn c.world a.nextId app inst = .ok () →
      c.world.spawn a.nextId app = .ok pid → c.ScalesUpWhileDown) :
    Moves c ⟨.none, a⟩ ⟨.none, (a.spawnFresh c.world app inst credentials dog gate).2⟩ := by
  have hsp := spawnFreshAt_spawned c.world a.nextId app inst credentials dog gate
    { a with nextId := a.nextId + 1 }
  unfold spawnFresh
  generalize (spawnFreshAt c.world a.nextId app inst credentials dog gate
    { a with nextId := a.nextId + 1 }).2 = a' at hsp ⊢
  have hfounds : ∀ {s : SheepSlot} {ctl : Option ℕ}, s.Fresh ctl →
      s.Seats app inst credentials dog → c.Configures s.name ∨ c.Founds s := by
    intro s ctl hs hseat
    rw [hseat.name]
    exact hfound.imp_right fun hv => hv.founds hs hseat
  have hspares : ∀ {s : SheepSlot}, s.Seats app inst credentials dog →
      a.Spare a.nextId s.name s.entry.inst := by
    intro s hseat
    rw [hseat.name, hseat.inst]
    exact hspare
  cases hsp with
  | errored hs hst hseat =>
    exact .single (.register hs (Or.inr ⟨hst, hseat.name ▸ hen⟩) (hseat.name ▸ hreg)
      (hfounds hs hseat) (hspares hseat))
  | @waiting s s' delay hs hst hseat hrest _ hheir =>
    have hname := hseat.name
    have hmove : Move c ⟨.none, a⟩ ⟨.none, { a with nextId := a.nextId + 1 }.setSlot a.nextId s⟩ :=
      .register hs (Or.inr ⟨hst, hname ▸ hen⟩) (hname ▸ hreg) (hfounds hs hseat)
        (hspares hseat)
    refine .tail (.single hmove) ?_
    have hback : Move c ⟨.none, { a with nextId := a.nextId + 1 }.setSlot a.nextId s⟩
        ⟨.none, ({ a with nextId := a.nextId + 1 }.setSlot a.nextId s).backOff a.nextId s' delay⟩ := by
      refine .backOff delay (by simp [setSlot]) hs.ctl_eq hrest
        (Or.inl ⟨hname ▸ hen, Or.inr (Or.inl hnew)⟩)
        (Or.inr (Or.inr (Or.inl ?_))) hheir
      intro t ht hid
      exact absurd (h.timers.id_lt t ht) (by rw [hid]; exact lt_irrefl _)
    simpa [backOff, setSlot] using hback
  | live readies hs hst hseat hpid hasm hspawn =>
    have hname := hseat.name
    exact .tail (.single (.launch hs hst (hname ▸ hen) (hname ▸ hreg)
      (fun hd => hdown hd _ hasm hspawn) ⟨hpid, hseat.credentials⟩ (hfounds hs hseat)
      (hspares hseat))) (.quiet _ _ _)

/-- `register_without_spawning` as moves. -/
theorem registerWithoutSpawning_moves (app : AppConfig) (status : ProcStatus)
    (dog : Option DogSource) (failure : Option String)
    (hst : status = .stopped ∨ status = .errored ∧ app.name ∉ a.disabled)
    (hreg : c.Registers a app.name) (henrol : dog = none → c.Enrols app) :
    Moves c ⟨.none, a⟩ ⟨.none, (a.registerWithoutSpawning c.world app status dog failure).2.2⟩ := by
  have hs := freshSlot_fresh c.world app 0 .unresolved dog status a
  unfold registerWithoutSpawning
  split
  · exact .refl
  · next hnone =>
    have hspare : a.Spare a.nextId app.name 0 := by
      intro j t ht hname _
      have hfree := List.find?_eq_none.1 hnone _ (Table.mem_toList.2 ht)
      simp [hname] at hfree
    refine .single (.register { hs with } hst hreg (Or.inr ⟨henrol, fun res hres => ?_⟩) hspare)
    -- the identity is left for the first spawn to resolve
    exact SheepSlot.identified_of_resolve hres rfl fun _ hc => by cases hc

end Actor

end Supervisor

end Shep

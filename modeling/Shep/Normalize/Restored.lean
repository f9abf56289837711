import Shep.Normalize.Flock
import Shep.Normalize.Stable

/-!
# Normalize — a stored config is never rejected

A `ResolvedApp`'s config normalizes to the same `ResolvedApp`
(`normalize_config`), so a slot is adopted as it was carried. The registry
holds bare configs: that each of them is some `ResolvedApp`'s is preserved
by every door (`Stamped.step`).
-/

namespace Shep

namespace Normalize

open Template (Text)

variable {Rest : Type} {m : Machine Rest}

/-- **A resolved app's config normalizes to it.** -/
theorem normalize_config (hhome : HomeOk m.home) (app : ResolvedApp m) :
    m.normalize app.config = .ok app := by
  obtain ⟨config, raw, hraw⟩ := app
  have hagain := normalizeWithHome_again hhome hraw
  unfold Machine.normalize
  split
  · next err herr =>
    rw [hagain] at herr
    cases herr
  · next config' hconfig =>
    rw [hagain] at hconfig
    cases hconfig
    rfl

theorem installAdopted_carry (hhome : HomeOk m.home) (entry : ProcessEntry m) :
    m.installAdopted entry.carry = .ok entry := by
  obtain ⟨spec, pending, dog⟩ := entry
  cases pending <;>
    simp [Machine.installAdopted, ProcessEntry.carry, normalize_config hhome, Except.toOption]

/-! ## Restoring a roll -/

/-- A config some resolved app holds. -/
def Stamped (m : Machine Rest) (app : AppConfig Rest) : Prop :=
  ∃ resolved : ResolvedApp m, resolved.config = app

theorem ResolvedApp.stamped (app : ResolvedApp m) : Stamped m app.config := ⟨app, rfl⟩

theorem restoreOne_stamped (hhome : HomeOk m.home) {saved : SavedApp Rest}
    (h : Stamped m saved.app) (found : Restorable m) :
    (m.restoreOne found saved).rejected = found.rejected ∧
      (m.restoreOne found saved).members.map ResolvedApp.config =
        found.members.map ResolvedApp.config ++ [saved.app] := by
  obtain ⟨resolved, hresolved⟩ := h
  simp only [Machine.restoreOne, ← hresolved, normalize_config hhome]
  split
  · simp
  · split <;> simp

/-- **A roll of stamped configs is restored whole.** -/
theorem restorable_stamped (hhome : HomeOk m.home) {saved : List (SavedApp Rest)}
    (h : ∀ s ∈ saved, Stamped m s.app) :
    (m.restorable saved).rejected = [] ∧
      (m.restorable saved).members.map ResolvedApp.config = saved.map SavedApp.app := by
  suffices hfold : ∀ found : Restorable m,
      (saved.foldl m.restoreOne found).rejected = found.rejected ∧
      (saved.foldl m.restoreOne found).members.map ResolvedApp.config =
        found.members.map ResolvedApp.config ++ saved.map SavedApp.app by
    simpa [Machine.restorable] using hfold {}
  induction saved with
  | nil => simp
  | cons s saved ih =>
    intro found
    obtain ⟨hs, hsaved⟩ := List.forall_mem_cons.1 h
    obtain ⟨hrej, hmem⟩ := restoreOne_stamped hhome hs found
    obtain ⟨hrej', hmem'⟩ := ih hsaved (m.restoreOne found s)
    refine ⟨hrej'.trans hrej, ?_⟩
    rw [List.foldl_cons, hmem', hmem, List.map_cons, List.append_assoc, List.singleton_append]

/-! ## What the registry holds -/

namespace Registry

/-- Every recorded config is some resolved app's. -/
def Sound (m : Machine Rest) (registry : Registry Rest) : Prop :=
  Table.Each (fun _ app => Stamped m app) registry

theorem sound_empty : Sound m (∅ : Registry Rest) := by
  intro name app h
  simp at h

theorem Sound.recordConfig {registry : Registry Rest} (h : Sound m registry)
    {app : AppConfig Rest} (happ : Stamped m app) : Sound m (registry.recordConfig app) :=
  Table.Each.insert h happ

theorem Sound.recordConfigs {registry : Registry Rest} (h : Sound m registry)
    {apps : List (AppConfig Rest)} (happs : ∀ app ∈ apps, Stamped m app) :
    Sound m (apps.foldl Registry.recordConfig registry) := by
  induction apps generalizing registry with
  | nil => exact h
  | cons app apps ih =>
    obtain ⟨happ, hrest⟩ := List.forall_mem_cons.1 happs
    exact ih (h.recordConfig happ) hrest

theorem Sound.record {registry : Registry Rest} (h : Sound m registry)
    (apps : List (ResolvedApp m)) : Sound m (registry.record apps) := by
  induction apps generalizing registry with
  | nil => exact h
  | cons app apps ih => exact ih (h.recordConfig app.stamped)

theorem get_of_prune {registry : Registry Rest} {infos : List ProcessInfo} {name : Text}
    {app : AppConfig Rest} (h : (registry.prune infos)[name]? = some app) :
    registry[name]? = some app := by
  rw [Registry.prune, Std.ExtTreeMap.getElem?_filter', Option.filter_eq_some_iff] at h
  exact h.1

theorem Sound.prune {registry : Registry Rest} (h : Sound m registry)
    (infos : List ProcessInfo) : Sound m (registry.prune infos) := by
  intro name app happ
  exact h name app (get_of_prune happ)

end Registry

/-! ## Doors -/

namespace Flock

variable {f f' : Flock m} {door : Door Rest}

@[simp] theorem enrol_registry (apps : List (ResolvedApp m)) (f : Flock m) :
    (f.enrol apps).registry = f.registry.record apps := rfl

@[simp] theorem register_registry (ids : List ℕ) (app : ResolvedApp m) (dog : Bool)
    (f : Flock m) : (f.register ids app dog).registry = f.registry := rfl

@[simp] theorem answer_registry (apps : List (ResolvedApp m)) (f : Flock m) :
    (f.answer apps).registry = f.registry := rfl

@[simp] theorem reach_registry (slot : ProcessEntry m) (ids : List ℕ) (merged : ResolvedApp m)
    (incoming : Incoming Rest) (count : ℕ) (f : Flock m) :
    (f.reach slot ids merged incoming count).registry = f.registry := rfl

@[simp] theorem handleScale_registry (id count : ℕ) (r : Reshaped) (f : Flock m) :
    (f.handleScale id count r).1.registry = f.registry := by
  unfold handleScale
  split
  · rfl
  · split
    · rfl
    · simp only
      split <;> rfl

/-- Nor does a load. -/
@[simp] theorem applyOne_registry (id : ℕ) (incoming : Incoming Rest) (f : Flock m) :
    (f.applyOne id incoming).registry = f.registry := by
  unfold applyOne
  split
  · rfl
  · next slot _ =>
    split
    · rfl
    · split
      · next merged _ =>
        dsimp only
        split
        · next r _ =>
          split
          · rfl
          · have hscale := handleScale_registry id merged.config.instances r f
            split
            · next g stored hg => simpa [hg] using hscale
            · next g hg => simpa [hg] using hscale
        · rfl
      · rfl

@[simp] theorem setField_registry (id : ℕ)
    (edit : AppConfig Rest → Option (AppConfig Rest)) (reaching : List String) (f : Flock m) :
    (f.setField id edit reaching).registry = f.registry := by
  unfold setField
  split
  · rfl
  · split
    · rfl
    · split <;> rfl

@[simp] theorem setEnv_registry (id : ℕ)
    (edit : Std.ExtTreeMap String Text → Std.ExtTreeMap String Text) (f : Flock m) :
    (f.setEnv id edit).registry = f.registry := by
  unfold setEnv
  split
  · rfl
  · split
    · rfl
    · split <;> rfl

/-- Every slot is adopted as it was carried, so a handover hands over the
slots it had. -/
theorem handOver_eq (hhome : HomeOk m.home) (f : Flock m) :
    f.handOver = .ok
      { sheep := f.sheep
        registry := (appsForTheRoll f.carried).foldl Registry.recordConfig ∅ } := by
  have hadopt : f.carried.mapM
      (fun row => (m.installAdopted row.2).map fun entry => (row.1, entry)) =
        .ok f.sheep.toList := by
    unfold carried
    induction f.sheep.toList with
    | nil => rfl
    | cons entry entries ih =>
      rw [List.map_cons, List.mapM_cons, ih, installAdopted_carry hhome]
      rfl
  unfold handOver
  rw [hadopt]
  simp only [bind, Except.bind, pure, Except.pure, Table.ofList_toList]

theorem appsForTheRoll_stamped (f : Flock m) :
    ∀ app ∈ appsForTheRoll f.carried, Stamped m app := by
  intro app happ
  obtain ⟨row, hrow, rfl⟩ := List.mem_map.1 happ
  obtain ⟨entry, -, rfl⟩ := List.mem_map.1 (List.mem_filter.1 hrow).1
  exact entry.2.spec.stamped

/-- **Every door records resolved apps.** -/
theorem Sound.step (hhome : HomeOk m.home) (h : f.registry.Sound m) (hs : f.Step door f') :
    f'.registry.Sound m := by
  unfold Step at hs
  cases door with
  | start apps | record i =>
    cases hs
    split
    · exact h.record _
    · exact h
  | register i ids | dog app id =>
    cases hs
    split
    · exact h
    · exact h
  | scale id count r =>
    cases hs
    have hscale := handleScale_registry id count r f
    exact hscale ▸ h
  | load id incoming | setField id edit reaching | setEnv id edit =>
    cases hs
    simpa using h
  | promote id =>
    cases hs
    unfold promotePending
    split
    · exact h
    · exact h
  | replace old new =>
    cases hs
    unfold spawnReplacement
    split
    · exact h
    · exact h
  | remove id =>
    cases hs
    exact h
  | prune infos =>
    cases hs
    exact h.prune infos
  | muster saved running =>
    cases hs
    exact (h.record _).record _
  | handOver =>
    rw [pass, handOver_eq hhome] at hs
    cases hs
    exact Registry.sound_empty.recordConfigs (appsForTheRoll_stamped f)

/-- A config the flock holds: a slot runs it or is owed it, or the registry
has it. -/
inductive Holds (f : Flock m) : AppConfig Rest → Prop
  | spec {id : ℕ} {entry : ProcessEntry m} : f.sheep[id]? = some entry → f.Holds entry.spec.config
  | pending {id : ℕ} {entry : ProcessEntry m} {parked : ResolvedApp m} :
      f.sheep[id]? = some entry → entry.pending = some parked → f.Holds parked.config
  | recorded {name : Text} {app : AppConfig Rest} : f.registry[name]? = some app → f.Holds app

theorem Holds.stamped (h : f.registry.Sound m) {app : AppConfig Rest} (happ : f.Holds app) :
    Stamped m app := by
  cases happ with
  | spec hentry => exact ResolvedApp.stamped _
  | pending hentry hparked => exact ResolvedApp.stamped _
  | recorded hname => exact h _ _ hname

end Flock

/-- **Normalizing is idempotent, and what a flock stores is restored and
adopted as it is**: in every run of doors, no roll of configs it holds has
one rejected, the roll it writes least of all, and every slot is adopted
with the spec and the parked config it had. -/
theorem stored_accepted (m : Machine Rest) (hhome : HomeOk m.home) :
    (∀ app app' : AppConfig Rest, normalizeWithHome m.grammars m.home m.shepHome app = .ok app' →
      normalizeWithHome m.grammars m.home m.shepHome app' = .ok app') ∧
    ∀ f h, Run Flock.Step ({} : Flock m) h f →
      (∀ saved, (∀ s ∈ saved, f.Holds s.app) → (m.restorable saved).rejected = [] ∧
        (m.restorable saved).members.map ResolvedApp.config = saved.map SavedApp.app) ∧
      (∀ infos, ∀ s ∈ f.registry.roll infos, f.Holds s.app) ∧
      (∀ (id : ℕ) (entry : ProcessEntry m), f.sheep[id]? = some entry →
        m.installAdopted entry.carry = .ok entry) ∧
      ∃ f', f.handOver = .ok f' ∧ f'.sheep = f.sheep := by
  refine ⟨fun app app' happ => normalizeWithHome_again hhome happ, fun f h hrun => ?_⟩
  have hsound : f.registry.Sound m :=
    hrun.invariant (P := fun f => f.registry.Sound m) meets_true Registry.sound_empty
      fun f door f' hf _ hstep => Flock.Sound.step hhome hf hstep
  refine ⟨fun saved hsaved => ?_, fun infos s hs => ?_, fun id entry _ => ?_, ?_⟩
  · exact restorable_stamped hhome fun s hs => (hsaved s hs).stamped hsound
  · obtain ⟨entry, hentry, rfl⟩ := List.mem_map.1 hs
    exact .recorded (Registry.get_of_prune (Table.mem_toList.1 hentry))
  · exact installAdopted_carry hhome entry
  · exact ⟨_, Flock.handOver_eq hhome f, rfl⟩

/-- A machine whose parsers take anything. -/
def plainMachine : Machine Unit where
  grammars :=
    { cron := fun _ _ => .ok ()
      timezone := fun _ => true
      glob := fun _ => none
      regex := fun _ => none
      address := fun _ => none
      enforceable := fun _ => true
      linux := true }
  home := some "/home/w".toList
  shepHome := some "/home/w/.shep".toList
  splice stored _ _ := some stored
  autostart _ := true

/-- An app of two instances, with a script in a home and a log path for
each instance. -/
def pairApp (script outFile : String) : AppConfig Unit where
  name := "web".toList
  script := script.toList
  args := []
  cwd := none
  sandbox := none
  env := ∅
  environment := none
  instances := 2
  killSignal := none
  actionTimeout := 1000
  maxMemory := none
  memoryEnforce := .poll
  maxCpuCores := none
  maxTasks := none
  watch := false
  ignoreWatch := []
  watchDelay := none
  watchOptions := []
  cronRestart := none
  cronTimezone := none
  dependsOn := []
  outFile := some outFile.toList
  errFile := none
  mergeLogs := false
  levelRules := []
  dogs := ∅
  pty := false
  listen := ∅
  readinessProbe := none
  livenessProbe := none
  rest := ()

/-- An app whose tildes are expanded, normalized again. -/
theorem stored_accepted_tilde :
    normalizeWithHome plainMachine.grammars plainMachine.home plainMachine.shepHome
      (pairApp "/home/w/srv" "/home/w/\x7b\x7binstance\x7d\x7d.log") =
        .ok (pairApp "/home/w/srv" "/home/w/\x7b\x7binstance\x7d\x7d.log") := by
  have hhome : HomeOk plainMachine.home := by
    rintro h hh
    obtain rfl := Option.some.inj hh
    exact ⟨rfl, by simp [Plain]⟩
  exact (stored_accepted plainMachine hhome).1
    (pairApp "~/srv" "~//\x7b\x7binstance\x7d\x7d.log") _ rfl

end Normalize

end Shep

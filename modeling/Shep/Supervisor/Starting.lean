import Shep.Supervisor.Helpers.Play
import Shep.Supervisor.Helpers.Scaling

/-!
# Supervisor — what a start registers

`do_start` over a whole batch. A batch refused whole leaves the actor as it
was. Any other is an account of rows (`Enlisted`): one for each instance
that was tried, under consecutive new ids, each with its app's config, an
instance number nobody of that name holds, and the status its spawn earned.
**`start_enlists`** says so in every reachable state. A spawn that fails
ends its app, and an all-or-nothing batch with it: only exec knows for
certain, so what comes after is never tried (`start_cut_short`).
-/

namespace Shep

namespace Supervisor

variable {w : World} {a b : Actor} {app : AppConfig} {s : SheepSlot}

/-! ## Rows -/

/-- What the spawn of a new instance came to. -/
inductive Outcome where
  | up
  /-- Refused for a reason that may pass. -/
  | refused
  | failed
  deriving DecidableEq, Repr

/-- A new instance of an app. -/
structure Row where
  app : AppConfig
  inst : ℕ
  outcome : Outcome

/-- The name and number a row takes. -/
def Row.place (row : Row) : String × ℕ := (row.app.name, row.inst)

/-- The status an outcome earns: a refused spawn waits to be tried again, or
is given up where the app's restarts are spent by it. -/
def Outcome.Shows (s : SheepSlot) : Outcome → Prop
  | .up => s.ctl.isSome = true ∧ (s.entry.status = .starting ∨ s.entry.status = .online)
  | .refused => s.ctl = none ∧ (s.entry.status = .waitingRestart ∨ s.entry.status = .errored)
  | .failed => s.ctl = none ∧ s.entry.status = .errored

/-- The slot a row is registered as. -/
structure Row.Shows (row : Row) (s : SheepSlot) : Prop where
  spec : s.entry.spec = row.app
  inst : s.entry.inst = row.inst
  dog : s.entry.dog = none
  outcome : row.outcome.Shows s

namespace Actor

/-- What `spawn_fresh` would come to: none of it depends on the flock. -/
def spawnOutcome (w : World) (id : ℕ) (app : AppConfig) (inst : ℕ) (a : Actor) : Outcome :=
  match a.assembleForSpawn w id app inst with
  | .error err => if err.isRetriable then .refused else .failed
  | .ok () =>
    match w.spawn id app with
    | .error _ => .failed
    | .ok _ => .up

theorem spawnOutcome_congr (hdogs : b.dogBinaries = a.dogBinaries)
    (hdisabled : b.disabled = a.disabled) (id inst : ℕ) :
    b.spawnOutcome w id app inst = a.spawnOutcome w id app inst := by
  unfold spawnOutcome assembleForSpawn isDisabled
  rw [hdogs, hdisabled]

theorem get_refuseSpawn (id : ℕ) (s : SheepSlot) (err : AssembleError) (a : Actor) :
    ∃ t, (a.refuseSpawn id s err).sheep[id]? = some t ∧ t.entry.spec = s.entry.spec ∧
      t.entry.inst = s.entry.inst ∧ t.entry.dog = s.entry.dog ∧ t.ctl = none ∧
      (t.entry.status = .errored ∨ err.isRetriable = true ∧ t.entry.status = .waitingRestart) := by
  unfold refuseSpawn
  split
  · exact ⟨_, get_setSlot _ _ _, rfl, rfl, rfl, rfl, .inl rfl⟩
  · next hretry =>
    dsimp only
    split
    · exact ⟨_, get_setSlot _ _ _, rfl, rfl, rfl, rfl, .inl rfl⟩
    · refine ⟨_, get_setSlot _ _ _, rfl, rfl, rfl, ?_, .inr ⟨by simpa using hretry, rfl⟩⟩
      rfl

/-- What `spawn_fresh` registers under the id it was given. -/
theorem spawnFreshAt_shows (w : World) (id : ℕ) (app : AppConfig) (inst : ℕ)
    (credentials : Option Credentials) (gate : List String) (a : Actor) :
    let r := a.spawnFreshAt w id app inst credentials none gate
    (∃ s, r.2.sheep[id]? = some s ∧ Row.Shows ⟨app, inst, a.spawnOutcome w id app inst⟩ s) ∧
      (a.spawnOutcome w id app inst = .failed ↔ ∃ message, r.1 = .error message) ∧
      r.2.dogBinaries = a.dogBinaries := by
  intro r
  show (∃ s, (a.spawnFreshAt w id app inst credentials none gate).2.sheep[id]? = some s ∧ _) ∧
    (_ ↔ ∃ message, (a.spawnFreshAt w id app inst credentials none gate).1 = .error message) ∧
    (a.spawnFreshAt w id app inst credentials none gate).2.dogBinaries = a.dogBinaries
  unfold spawnFreshAt
  dsimp only
  split
  · next err hrefused =>
    obtain ⟨t, ht, hspec, hinst, hdog, hctl, hst⟩ := get_refuseSpawn id
      (a.freshSlot w app inst (.resolved credentials) none .errored) err a
    have hdogs : (a.refuseSpawn id
        (a.freshSlot w app inst (.resolved credentials) none .errored) err).dogBinaries =
        a.dogBinaries := by
      unfold refuseSpawn
      split
      · rfl
      · dsimp only
        split <;> rfl
    split
    · next hretry =>
      have houtcome : a.spawnOutcome w id app inst = .refused := by
        simp [spawnOutcome, hrefused, hretry]
      rw [ht, houtcome]
      refine ⟨⟨t, ht, hspec, hinst, hdog, hctl, ?_⟩, by simp, hdogs⟩
      exact hst.symm.imp_left fun hwaits => hwaits.2
    · next hretry =>
      have houtcome : a.spawnOutcome w id app inst = .failed := by
        simp [spawnOutcome, hrefused, hretry]
      rw [houtcome]
      refine ⟨⟨t, ht, hspec, hinst, hdog, hctl, ?_⟩, by simp, hdogs⟩
      exact hst.resolve_right fun hwaits => hretry hwaits.1
  · next hassembled =>
    split
    · next reason hspawn =>
      have houtcome : a.spawnOutcome w id app inst = .failed := by
        simp [spawnOutcome, hassembled, hspawn]
      rw [houtcome]
      exact ⟨⟨_, get_setSlot _ _ _, rfl, rfl, rfl, rfl, rfl⟩, by simp, rfl⟩
    · next pid hspawn =>
      have houtcome : a.spawnOutcome w id app inst = .up := by
        simp [spawnOutcome, hassembled, hspawn]
      rw [houtcome]
      refine ⟨?_, by simp, by split <;> rfl⟩
      split
      · exact ⟨_, get_setSlot _ _ _, rfl, rfl, rfl, rfl, .inl rfl⟩
      · exact ⟨_, get_setSlot _ _ _, rfl, rfl, rfl, rfl, .inr rfl⟩

end Actor

/-! ## A batch's account -/

/-- The rows a command has registered, in order, under the ids that came
next. -/
structure Registers (a : Actor) (rows : List Row) (b : Actor) : Prop where
  nextId : b.nextId = a.nextId + rows.length
  before : ∀ j, j < a.nextId → b.sheep[j]? = a.sheep[j]?
  row : ∀ (i : ℕ) (row : Row), rows[i]? = some row →
    ∃ s, b.sheep[a.nextId + i]? = some s ∧ row.Shows s
  only : ∀ (j : ℕ) (s : SheepSlot), b.sheep[j]? = some s → j < b.nextId
  dogBinaries : b.dogBinaries = a.dogBinaries
  disabled : b.disabled = a.disabled

namespace Registers

variable {c : Actor} {rows rows' : List Row}

theorem refl (hids : ∀ (j : ℕ) (s : SheepSlot), a.sheep[j]? = some s → j < a.nextId) :
    Registers a [] a :=
  ⟨rfl, fun _ _ => rfl, fun _ _ h => by simp at h, hids, rfl, rfl⟩

theorem trans (h : Registers a rows b) (h' : Registers b rows' c) :
    Registers a (rows ++ rows') c where
  nextId := by
    rw [h'.nextId, h.nextId, List.length_append]
    omega
  before := fun j hj => (h'.before j (by rw [h.nextId]; omega)).trans (h.before j hj)
  row := by
    intro i row hrow
    rcases Nat.lt_or_ge i rows.length with hi | hi
    · rw [List.getElem?_append_left hi] at hrow
      obtain ⟨s, hs, hshows⟩ := h.row i row hrow
      exact ⟨s, by rw [h'.before _ (by rw [h.nextId]; omega), hs], hshows⟩
    · rw [List.getElem?_append_right hi] at hrow
      obtain ⟨s, hs, hshows⟩ := h'.row _ row hrow
      refine ⟨s, ?_, hshows⟩
      rw [← hs, h.nextId]
      congr 1
      omega
  only := h'.only
  dogBinaries := h'.dogBinaries.trans h.dogBinaries
  disabled := h'.disabled.trans h.disabled

end Registers

/-- A registered instance holds the name and number. -/
def Actor.Taken (a : Actor) (place : String × ℕ) : Prop :=
  ∃ (j : ℕ) (s : SheepSlot), a.sheep[j]? = some s ∧ (s.name, s.entry.inst) = place

/-- No two rows take one place, and none takes an instance's. -/
def Vacant (a : Actor) (rows : List Row) : Prop :=
  (rows.map Row.place).Nodup ∧ ∀ row ∈ rows, ¬ a.Taken row.place

theorem Row.Shows.place {row : Row} (h : row.Shows s) : (s.name, s.entry.inst) = row.place := by
  rw [SheepSlot.name, h.spec, h.inst]
  rfl

theorem Vacant.append {rows rows' : List Row} (hreg : Registers a rows b)
    (hids : ∀ (j : ℕ) (s : SheepSlot), a.sheep[j]? = some s → j < a.nextId)
    (h : Vacant a rows) (h' : Vacant b rows') : Vacant a (rows ++ rows') := by
  have htaken : ∀ row ∈ rows, b.Taken row.place := by
    intro row hrow
    obtain ⟨i, hi⟩ := List.getElem?_of_mem hrow
    obtain ⟨s, hs, hshows⟩ := hreg.row i row hi
    exact ⟨_, s, hs, hshows.place⟩
  have hkept : ∀ place, a.Taken place → b.Taken place := by
    rintro place ⟨j, s, hs, hplace⟩
    exact ⟨j, s, by rw [hreg.before j (hids j s hs), hs], hplace⟩
  refine ⟨?_, fun row hrow => ?_⟩
  · rw [List.map_append, List.nodup_append]
    refine ⟨h.1, h'.1, fun place hplace place' hplace' heq => ?_⟩
    obtain ⟨row, hrow, rfl⟩ := List.mem_map.1 hplace
    obtain ⟨row', hrow', rfl⟩ := List.mem_map.1 hplace'
    exact h'.2 row' hrow' (heq ▸ htaken row hrow)
  · rcases List.mem_append.1 hrow with hrow | hrow
    · exact h.2 row hrow
    · exact fun htaken => h'.2 row hrow (hkept _ htaken)

/-- The tries of one app, from the id `first` on: each is as its spawn came
out, and none follows a failed one. -/
structure Tries (w : World) (a : Actor) (app : AppConfig) (first : ℕ) (rows : List Row) :
    Prop where
  own : ∀ row ∈ rows, row.app = app
  outcome : ∀ (i : ℕ) (row : Row), rows[i]? = some row →
    row.outcome = a.spawnOutcome w (first + i) app row.inst
  stops : ∀ (i : ℕ) (row : Row), rows[i]? = some row → row.outcome = .failed → i + 1 = rows.length

/-- An app all of whose instances were tried, and none failed. -/
def Whole (app : AppConfig) (rows : List Row) : Prop :=
  rows.length = app.instances ∧ ∀ row ∈ rows, row.outcome ≠ .failed

/-- An app one of whose instances failed. -/
def Broken (app : AppConfig) (rows : List Row) : Prop :=
  rows.length ≤ app.instances ∧ ∃ row, rows.getLast? = some row ∧ row.outcome = .failed

/-- The account of the apps of a batch, in order, from the id `first` on. A
failed spawn ends its app, and the whole of an all-or-nothing batch. -/
inductive Account (w : World) (a : Actor) (policy : BatchPolicy) :
    ℕ → List AppConfig → List Row → Prop where
  | done {first : ℕ} : Account w a policy first [] []
  | whole {first : ℕ} {app : AppConfig} {apps : List AppConfig} {rows rows' : List Row} :
    Tries w a app first rows → Whole app rows →
      Account w a policy (first + rows.length) apps rows' →
        Account w a policy first (app :: apps) (rows ++ rows')
  | skipped {first : ℕ} {app : AppConfig} {apps : List AppConfig} {rows rows' : List Row} :
    policy = .perApp → Tries w a app first rows → Broken app rows →
      Account w a policy (first + rows.length) apps rows' →
        Account w a policy first (app :: apps) (rows ++ rows')
  | cut {first : ℕ} {app : AppConfig} {apps : List AppConfig} {rows : List Row} :
    policy = .allOrNothing → Tries w a app first rows → Broken app rows →
      Account w a policy first (app :: apps) rows

/-! ## The tries of a batch -/

/-- A try that did not fail, and those after it. -/
theorem Tries.cons {rows : List Row} {inst : ℕ} (htries : Tries w b app b.nextId rows)
    (hreg : Registers a [⟨app, inst, a.spawnOutcome w a.nextId app inst⟩] b)
    (hup : a.spawnOutcome w a.nextId app inst ≠ .failed) :
    Tries w a app a.nextId (⟨app, inst, a.spawnOutcome w a.nextId app inst⟩ :: rows) := by
  have hnext : b.nextId = a.nextId + 1 := hreg.nextId
  refine ⟨fun row hrow => ?_, fun i row hrow => ?_, fun i row hrow hfail => ?_⟩
  · rcases List.mem_cons.1 hrow with rfl | hrow
    · rfl
    · exact htries.own row hrow
  · rcases i with _ | i
    · obtain rfl : _ = row := Option.some.inj hrow
      rfl
    · have hlater := htries.outcome i row hrow
      rw [Actor.spawnOutcome_congr hreg.dogBinaries hreg.disabled, hnext] at hlater
      rw [hlater, show a.nextId + 1 + i = a.nextId + (i + 1) by omega]
  · rcases i with _ | i
    · obtain rfl : _ = row := Option.some.inj hrow
      exact absurd hfail hup
    · have := htries.stops i row hrow hfail
      simpa using this

namespace Actor

/-- One instance. -/
theorem spawnFresh_registers (w : World) (app : AppConfig) (inst : ℕ)
    (credentials : Option Credentials) (gate : List String)
    (hids : ∀ (j : ℕ) (s : SheepSlot), a.sheep[j]? = some s → j < a.nextId) :
    let r := a.spawnFresh w app inst credentials none gate
    Registers a [⟨app, inst, a.spawnOutcome w a.nextId app inst⟩] r.2 ∧
      (a.spawnOutcome w a.nextId app inst = .failed ↔ ∃ message, r.1 = .error message) := by
  intro r
  have hsame : ({ a with nextId := a.nextId + 1 } : Actor).spawnOutcome w a.nextId app inst =
      a.spawnOutcome w a.nextId app inst := rfl
  obtain ⟨⟨s, hs, hshows⟩, hfailed, hdogs⟩ := spawnFreshAt_shows w a.nextId app inst credentials gate
    { a with nextId := a.nextId + 1 }
  rw [hsame] at hshows hfailed
  have hf := spawnFreshAt_frame w a.nextId app inst credentials none gate
    { a with nextId := a.nextId + 1 }
  have hnext : r.2.nextId = a.nextId + 1 := spawnFreshAt_nextId w a.nextId app inst credentials none
    gate { a with nextId := a.nextId + 1 }
  refine ⟨⟨hnext, fun j hj => hf.sheep j (by omega), fun i row hrow => ?_, fun j t ht => ?_, hdogs,
    hf.disabled⟩, hfailed⟩
  · rcases i with _ | i
    · obtain rfl : _ = row := Option.some.inj hrow
      exact ⟨s, hs, hshows⟩
    · simp at hrow
  · by_cases hj : j = a.nextId
    · omega
    · have hold := hids j t ((hf.sheep j hj).symm.trans ht)
      omega

/-- The instances of one app: what was tried, and whether the last failed. -/
theorem startSlots_registers (w : World) (app : AppConfig) (credentials : Option Credentials)
    (gate : List String) (insts : List ℕ) (hnodup : insts.Nodup)
    (hfree : ∀ n ∈ insts, ¬ a.Taken (app.name, n))
    (hids : ∀ (j : ℕ) (s : SheepSlot), a.sheep[j]? = some s → j < a.nextId) :
    let r := startSlots w app credentials none gate insts a
    ∃ rows, Registers a rows r.2.2 ∧ Vacant a rows ∧ Tries w a app a.nextId rows ∧
      (∀ row ∈ rows, row.inst ∈ insts) ∧
      (r.2.1 = none ∧ rows.length = insts.length ∧ (∀ row ∈ rows, row.outcome ≠ .failed) ∨
        r.2.1.isSome = true ∧ rows.length ≤ insts.length ∧
          ∃ row, rows.getLast? = some row ∧ row.outcome = .failed) := by
  induction insts generalizing a with
  | nil =>
    refine ⟨[], .refl hids, ⟨by simp, by simp⟩, ⟨by simp, by simp, by simp⟩, by simp, .inl ?_⟩
    exact ⟨rfl, rfl, by simp⟩
  | cons inst insts ih =>
    obtain ⟨hreg, hfailed⟩ := spawnFresh_registers w app inst credentials gate hids
    have hvacant : Vacant a [⟨app, inst, a.spawnOutcome w a.nextId app inst⟩] := by
      refine ⟨by simp, fun row hrow => ?_⟩
      rw [List.mem_singleton.1 hrow]
      exact hfree inst List.mem_cons_self
    have htries : Tries w a app a.nextId [⟨app, inst, a.spawnOutcome w a.nextId app inst⟩] := by
      refine ⟨fun row hrow => ?_, fun i row hrow => ?_, fun i row hrow _ => ?_⟩
      · rw [List.mem_singleton.1 hrow]
      · rcases i with _ | i
        · obtain rfl : _ = row := Option.some.inj hrow
          rfl
        · simp at hrow
      · rcases i with _ | i
        · rfl
        · simp at hrow
    unfold startSlots
    split
    · next info b he =>
      rw [he] at hreg hfailed
      have hup : a.spawnOutcome w a.nextId app inst ≠ .failed := by
        intro hfail
        obtain ⟨message, hmessage⟩ := hfailed.1 hfail
        cases hmessage
      have hfree' : ∀ n ∈ insts, ¬ b.Taken (app.name, n) := by
        rintro n hn ⟨j, s, hs, hplace⟩
        rcases Nat.lt_or_ge j a.nextId with hj | hj
        · rw [hreg.before j hj] at hs
          exact hfree n (List.mem_cons_of_mem _ hn) ⟨j, s, hs, hplace⟩
        · -- the instance just registered
          have hlast : j < b.nextId := hreg.only j s hs
          have hnext : b.nextId = a.nextId + 1 := hreg.nextId
          obtain rfl : j = a.nextId := by omega
          obtain ⟨t, ht, hshows⟩ := hreg.row 0 _ rfl
          obtain rfl : s = t := Option.some.inj (hs.symm.trans ht)
          have hsame : inst = n := by
            have := hshows.place.symm.trans hplace
            exact (Prod.mk.inj this).2
          exact (List.nodup_cons.1 hnodup).1 (hsame ▸ hn)
      obtain ⟨rows, hreg', hvacant', htries', hinsts, hend⟩ :=
        ih (List.nodup_cons.1 hnodup).2 hfree' hreg.only
      refine ⟨⟨app, inst, _⟩ :: rows, hreg.trans hreg', hvacant.append hreg hids hvacant',
        htries'.cons hreg hup, fun row hrow => ?_, ?_⟩
      · rcases List.mem_cons.1 hrow with rfl | hrow
        · exact List.mem_cons_self
        · exact List.mem_cons_of_mem _ (hinsts row hrow)
      · rcases hend with ⟨hnone, hlength, hgood⟩ | ⟨hsome, hlength, row, hrow, hfail⟩
        · refine .inl ⟨hnone, by simp [hlength], fun row hrow => ?_⟩
          rcases List.mem_cons.1 hrow with rfl | hrow
          · exact hup
          · exact hgood row hrow
        · refine .inr ⟨hsome, by simp [hlength], row, ?_, hfail⟩
          rw [List.getLast?_cons, hrow]
          rfl
    · next message b he =>
      rw [he] at hreg hfailed
      have hfail := hfailed.2 ⟨message, rfl⟩
      refine ⟨_, hreg, hvacant, htries, by simp, .inr ⟨rfl, by simp, _, rfl, hfail⟩⟩

theorem not_taken_of_free {n : ℕ} (hn : n ∉ (a.slotsOfName app.name).map Prod.fst) :
    ¬ a.Taken (app.name, n) := by
  rintro ⟨j, s, hs, hplace⟩
  obtain ⟨hname, hinst⟩ := Prod.mk.inj hplace
  exact hn (List.mem_map.2 ⟨(n, j), mem_slotsOfName.2 ⟨s, hs, hname, hinst⟩, rfl⟩)

end Actor

theorem Tries.congr {first : ℕ} {rows : List Row} (hdogs : b.dogBinaries = a.dogBinaries)
    (hdisabled : b.disabled = a.disabled) (h : Tries w b app first rows) :
    Tries w a app first rows where
  own := h.own
  outcome := fun i row hrow => by
    rw [h.outcome i row hrow, Actor.spawnOutcome_congr hdogs hdisabled]
  stops := h.stops

theorem Account.congr {policy : BatchPolicy} {first : ℕ} {apps : List AppConfig}
    {rows : List Row} (hdogs : b.dogBinaries = a.dogBinaries) (hdisabled : b.disabled = a.disabled)
    (h : Account w b policy first apps rows) : Account w a policy first apps rows := by
  induction h with
  | done => exact .done
  | whole htries hwhole _ ih => exact .whole (htries.congr hdogs hdisabled) hwhole ih
  | skipped hpolicy htries hbroken _ ih =>
    exact .skipped hpolicy (htries.congr hdogs hdisabled) hbroken ih
  | cut hpolicy htries hbroken => exact .cut hpolicy (htries.congr hdogs hdisabled) hbroken

namespace Actor

/-- The apps of a checked batch. -/
theorem startApps_accounts (w : World) (policy : BatchPolicy) (gate : List String)
    (ready : List (AppConfig × Option Credentials))
    (hids : ∀ (j : ℕ) (s : SheepSlot), a.sheep[j]? = some s → j < a.nextId) :
    let r := startApps w policy none gate ready a
    ∃ rows, Registers a rows r.actor ∧ Vacant a rows ∧
      Account w a policy a.nextId (ready.map Prod.fst) rows ∧
      (r.refused = none ∧ r.failures = [] ∧ (∀ row ∈ rows, row.outcome ≠ .failed) ∧
          rows.length = (ready.map fun e => e.1.instances).sum ∨
        (r.refused.isSome = true ∨ r.failures ≠ []) ∧ ∃ row ∈ rows, row.outcome = .failed) := by
  induction ready generalizing a with
  | nil =>
    exact ⟨[], .refl hids, ⟨by simp, by simp⟩, .done, .inl ⟨rfl, rfl, by simp, rfl⟩⟩
  | cons e rest ih =>
    obtain ⟨app, credentials⟩ := e
    obtain ⟨hnodup, hfree⟩ := instanceSlots_free ((a.slotsOfName app.name).map Prod.fst) app.instances
    obtain ⟨rows, hreg, hvacant, htries, -, hend⟩ := startSlots_registers w app credentials gate
      (instanceSlots ((a.slotsOfName app.name).map Prod.fst) app.instances) hnodup
      (fun n hn => not_taken_of_free (hfree n hn)) hids
    have hlength : (instanceSlots ((a.slotsOfName app.name).map Prod.fst) app.instances).length =
        app.instances := by
      rw [instanceSlots, length_instanceSlotsFrom]
    rw [hlength] at hend
    unfold startApps
    dsimp only
    split
    · next results b he =>
      rw [he] at hreg hend
      obtain ⟨-, hall, hgood⟩ : _ ∧ _ ∧ _ := hend.resolve_right fun h => by cases h.1
      obtain ⟨rows', hreg', hvacant', haccount, hrest⟩ := ih hreg.only
      refine ⟨rows ++ rows', hreg.trans hreg', hvacant.append hreg hids hvacant',
        .whole htries ⟨hall, hgood⟩ ?_, ?_⟩
      · rw [← hreg.nextId]
        exact haccount.congr hreg.dogBinaries hreg.disabled
      · rcases hrest with ⟨hnone, hfailures, hgood', hsum⟩ | ⟨hfails, row, hrow, hfail⟩
        · refine .inl ⟨hnone, hfailures, fun row hrow => ?_, ?_⟩
          · rcases List.mem_append.1 hrow with hrow | hrow
            · exact hgood row hrow
            · exact hgood' row hrow
          · rw [List.length_append, List.map_cons, List.sum_cons, hall, hsum]
        · exact .inr ⟨hfails, row, List.mem_append_right _ hrow, hfail⟩
    · next results failure b he =>
      rw [he] at hreg hend
      obtain ⟨-, hshort, row, hrow, hfail⟩ : _ ∧ _ ∧ _ := hend.resolve_left fun h => by cases h.1
      split
      · exact ⟨rows, hreg, hvacant, .cut rfl htries ⟨hshort, row, hrow, hfail⟩,
          .inr ⟨.inl rfl, row, List.mem_of_getLast? hrow, hfail⟩⟩
      · obtain ⟨rows', hreg', hvacant', haccount, -⟩ := ih hreg.only
        refine ⟨rows ++ rows', hreg.trans hreg', hvacant.append hreg hids hvacant',
          .skipped rfl htries ⟨hshort, row, hrow, hfail⟩ ?_, .inr ⟨.inr (by simp), row, ?_, hfail⟩⟩
        · rw [← hreg.nextId]
          exact haccount.congr hreg.dogBinaries hreg.disabled
        · exact List.mem_append_left _ (List.mem_of_getLast? hrow)

end Actor

/-! ## The check of a batch -/

/-- Whether an app's identity resolves. -/
def resolves (w : World) (app : AppConfig) : Bool :=
  match w.resolve app with
  | .ok _ => true
  | .error _ => false

namespace Actor

/-- An all-or-nothing check registers nothing. -/
theorem foldl_checkOne_allOrNothing (w : World) (apps : List AppConfig) (k : Checked) :
    let r := apps.foldl (checkOne w .allOrNothing none) k
    r.actor = k.actor ∧ r.failures = k.failures ∧
      (r.refusals = [] → k.refusals = [] ∧ r.ready.map Prod.fst = k.ready.map Prod.fst ++ apps ∧
        ∀ app ∈ apps, resolves w app = true) := by
  induction apps generalizing k with
  | nil => exact ⟨rfl, rfl, fun h => ⟨h, by simp, by simp⟩⟩
  | cons app apps ih =>
    obtain ⟨hactor, hfailures, hready⟩ := ih (checkOne w .allOrNothing none k app)
    have hone : (checkOne w .allOrNothing none k app).actor = k.actor ∧
        (checkOne w .allOrNothing none k app).failures = k.failures ∧
        ((checkOne w .allOrNothing none k app).refusals = [] → k.refusals = [] ∧
          (checkOne w .allOrNothing none k app).ready.map Prod.fst = k.ready.map Prod.fst ++ [app] ∧
          resolves w app = true) := by
      unfold checkOne
      split
      · exact ⟨rfl, rfl, fun h => absurd h (by simp)⟩
      · next credentials hresolved =>
        dsimp only
        split
        · exact ⟨rfl, rfl, fun h => absurd h (by simp)⟩
        · exact ⟨rfl, rfl, fun h => ⟨h, by simp, by simp [resolves, hresolved]⟩⟩
    refine ⟨hactor.trans hone.1, hfailures.trans hone.2.1, fun hnone => ?_⟩
    obtain ⟨hnone', hreadies, hresolved⟩ := hready hnone
    obtain ⟨hfirst, happ, hown⟩ := hone.2.2 hnone'
    refine ⟨hfirst, ?_, fun app' happ' => ?_⟩
    · rw [List.foldl_cons, hreadies, happ, List.append_assoc]
      rfl
    · rcases List.mem_cons.1 happ' with rfl | happ'
      · exact hown
      · exact hresolved app' happ'

/-- An identity that does not resolve leaves one row, for a name the flock
does not have. -/
theorem registerWithoutSpawning_registers (w : World) (app : AppConfig) (failure : Option String)
    (hids : ∀ (j : ℕ) (s : SheepSlot), a.sheep[j]? = some s → j < a.nextId) :
    let b := (a.registerWithoutSpawning w app .errored none failure).2.2
    ∃ rows : List Row, Registers a rows b ∧ Vacant a rows ∧ (∃ n, b.Taken (app.name, n)) ∧
      ∀ row ∈ rows, row = ⟨app, 0, .failed⟩ := by
  intro b
  show ∃ rows : List Row, Registers a rows (a.registerWithoutSpawning w app .errored none
    failure).2.2 ∧ _ ∧ (∃ n, (a.registerWithoutSpawning w app .errored none failure).2.2.Taken _) ∧ _
  unfold registerWithoutSpawning
  split
  · next e he =>
    have hslot : a.sheep[e.1]? = some e.2 := Table.mem_toList.1 (List.mem_of_find?_eq_some he)
    have hname : e.2.name = app.name := by simpa using List.find?_some he
    exact ⟨[], .refl hids, ⟨by simp, by simp⟩, ⟨_, e.1, e.2, hslot, by rw [hname]⟩, by simp⟩
  · next hnone =>
    have hfree : ∀ n, ¬ a.Taken (app.name, n) := by
      rintro n ⟨j, s, hs, hplace⟩
      have hother := List.find?_eq_none.1 hnone (j, s) (Table.mem_toList.2 hs)
      simp only [beq_iff_eq] at hother
      exact hother (Prod.mk.inj hplace).1
    refine ⟨[⟨app, 0, .failed⟩], ⟨rfl, fun j hj => ?_, fun i row hrow => ?_, fun j s hs => ?_, rfl, rfl⟩,
      ⟨by simp, fun row hrow => ?_⟩, ⟨0, a.nextId, _, get_setSlot _ _ _, rfl⟩, by simp⟩
    · exact (Frame.setSlot a.nextId _ { a with nextId := a.nextId + 1 }).sheep j (by omega)
    · rcases i with _ | i
      · obtain rfl : _ = row := Option.some.inj hrow
        exact ⟨_, get_setSlot _ _ _, rfl, rfl, rfl, rfl, rfl⟩
      · simp at hrow
    · by_cases hj : j = a.nextId
      · subst hj
        exact Nat.lt_succ_self _
      · have hold : a.sheep[j]? = some s :=
          ((Frame.setSlot a.nextId _ { a with nextId := a.nextId + 1 }).sheep j hj).symm.trans hs
        exact (hids j s hold).trans (Nat.lt_succ_self _)
    · rw [List.mem_singleton.1 hrow]
      exact hfree 0

/-- A per-app check registers a row for each name it cannot start. -/
theorem foldl_checkOne_perApp (w : World) (apps : List AppConfig) (k : Checked)
    (hids : ∀ (j : ℕ) (s : SheepSlot), k.actor.sheep[j]? = some s → j < k.actor.nextId) :
    let r := apps.foldl (checkOne w .perApp none) k
    ∃ rows, Registers k.actor rows r.actor ∧ Vacant k.actor rows ∧
      (∀ row ∈ rows, row.app ∈ apps ∧ resolves w row.app = false ∧ row.inst = 0 ∧
        row.outcome = .failed) ∧
      (∀ app ∈ apps, resolves w app = false → ∃ n, r.actor.Taken (app.name, n)) ∧
      r.refusals = k.refusals ∧
      r.ready.map Prod.fst = k.ready.map Prod.fst ++ apps.filter (resolves w) ∧
      (r.failures = [] ↔ k.failures = [] ∧ ∀ app ∈ apps, resolves w app = true) := by
  induction apps generalizing k with
  | nil => exact ⟨[], .refl hids, ⟨by simp, by simp⟩, by simp, by simp, rfl, by simp, by simp⟩
  | cons app apps ih =>
    cases hresolved : w.resolve app with
    | error err =>
      have hout : resolves w app = false := by simp [resolves, hresolved]
      obtain ⟨rows, hreg, hvacant, htaken, hrows⟩ := registerWithoutSpawning_registers w app
        (some (app.name ++ ": " ++ err)) hids
      have hone : checkOne w .perApp none k app = { k with
          failures := k.failures ++ [app.name ++ ": " ++ err]
          actor := (k.actor.registerWithoutSpawning w app .errored none
            (some (app.name ++ ": " ++ err))).2.2 } := by
        simp only [checkOne, hresolved]
      obtain ⟨rows', hreg', hvacant', hrows', htaken', hrefusals, hready, hfailures⟩ :=
        ih (checkOne w .perApp none k app) (by rw [hone]; exact hreg.only)
      rw [hone] at hreg' hvacant' hrefusals hready hfailures
      rw [List.foldl_cons, hone]
      rw [hone] at htaken'
      refine ⟨rows ++ rows', hreg.trans hreg', hvacant.append hreg hids hvacant', fun row hrow => ?_,
        fun app' happ' hout' => ?_, hrefusals, ?_, ?_⟩
      · rcases List.mem_append.1 hrow with hrow | hrow
        · rw [hrows row hrow]
          exact ⟨List.mem_cons_self, hout, rfl, rfl⟩
        · obtain ⟨hin, hrest⟩ := hrows' row hrow
          exact ⟨List.mem_cons_of_mem _ hin, hrest⟩
      · rcases List.mem_cons.1 happ' with rfl | happ'
        · obtain ⟨n, j, s, hs, hplace⟩ := htaken
          exact ⟨n, j, s, by rw [hreg'.before j (hreg.only j s hs), hs], hplace⟩
        · exact htaken' app' happ' hout'
      · rw [hready, List.filter_cons, if_neg (by simp [hout])]
      · rw [hfailures]
        simp [hout]
    | ok credentials =>
      have hin : resolves w app = true := by simp [resolves, hresolved]
      have hone : checkOne w .perApp none k app =
          { k with ready := k.ready ++ [(app, credentials)] } := by
        simp only [checkOne, hresolved, Option.none_or]
      obtain ⟨rows, hreg, hvacant, hrows, htaken, hrefusals, hready, hfailures⟩ :=
        ih (checkOne w .perApp none k app) (by rw [hone]; exact hids)
      rw [hone] at hreg hvacant hrefusals hready hfailures
      rw [List.foldl_cons, hone]
      rw [hone] at htaken
      refine ⟨rows, hreg, hvacant, fun row hrow => ?_, fun app' happ' hout' => ?_, hrefusals, ?_, ?_⟩
      · obtain ⟨hmem, hrest⟩ := hrows row hrow
        exact ⟨List.mem_cons_of_mem _ hmem, hrest⟩
      · rcases List.mem_cons.1 happ' with rfl | happ'
        · rw [hin] at hout'
          cases hout'
        · exact htaken app' happ' hout'
      · rw [hready, List.filter_cons, if_pos hin]
        simp
      · rw [hfailures]
        simp [hin]

end Actor

/-! ## The whole start -/

/-- The answers that refuse a batch whole. -/
def SupervisorError.RefusesBatch : SupervisorError → Prop
  | .isADog _ | .disabled _ | .cannotStart _ => True
  | _ => False

/-- What a start that is not refused whole has registered: first the rows of
the names it cannot start, then the account of the rest. -/
structure Enlisted (w : World) (a : Actor) (apps : List AppConfig) (policy : BatchPolicy)
    (rows : List Row) (b : Actor) : Prop where
  registers : Registers a rows b
  vacant : Vacant a rows
  account : ∃ unresolved tried, rows = unresolved ++ tried ∧
    Account w a policy (a.nextId + unresolved.length) (apps.filter (resolves w)) tried ∧
    (∀ row ∈ unresolved, policy = .perApp ∧ row.app ∈ apps ∧ resolves w row.app = false ∧
      row.inst = 0 ∧ row.outcome = .failed)
  known : ∀ app ∈ apps, resolves w app = false → ∃ n, b.Taken (app.name, n)

/-- What a start is answered, by its rows. -/
structure BatchAnswered (w : World) (apps : List AppConfig) (rows : List Row)
    (answer : Except SupervisorError (List ProcessInfo)) : Prop where
  granted : (∃ infos, answer = .ok infos) ↔
    (∀ app ∈ apps, resolves w app = true) ∧ ∀ row ∈ rows, row.outcome ≠ .failed
  all : (∃ infos, answer = .ok infos) → rows.length = (apps.map AppConfig.instances).sum

/-- The start of a batch whose check has passed. -/
theorem startChecked_enlists {apps : List AppConfig} {policy : BatchPolicy} {gate : List String}
    {k : Actor.Checked} {unresolved : List Row}
    (hk : apps.foldl (Actor.checkOne w policy none) ⟨[], [], [], a⟩ = k) (hpassed : k.refusals = [])
    (hids : ∀ (j : ℕ) (s : SheepSlot), a.sheep[j]? = some s → j < a.nextId)
    (hreg : Registers a unresolved k.actor) (hvacant : Vacant a unresolved)
    (hrows : ∀ row ∈ unresolved, policy = .perApp ∧ row.app ∈ apps ∧ resolves w row.app = false ∧
      row.inst = 0 ∧ row.outcome = .failed)
    (hknown : ∀ app ∈ apps, resolves w app = false → ∃ n, k.actor.Taken (app.name, n))
    (hready : k.ready.map Prod.fst = apps.filter (resolves w))
    (hfailures : k.failures = [] ↔ ∀ app ∈ apps, resolves w app = true) :
    ∃ rows, Enlisted w a apps policy rows (a.startChecked w apps none policy gate).2 ∧
      BatchAnswered w apps rows (a.startChecked w apps none policy gate).1 := by
  obtain ⟨tried, hreg', hvacant', haccount, hend⟩ :=
    Actor.startApps_accounts w policy gate k.ready hreg.only
  have hactor : (a.startChecked w apps none policy gate).2 =
      (Actor.startApps w policy none gate k.ready k.actor).actor := by
    unfold Actor.startChecked
    rw [hk]
    dsimp only
    rw [hpassed, if_neg (by simp)]
    split
    · rfl
    · split <;> rfl
  have hgranted : (∃ infos, (a.startChecked w apps none policy gate).1 = .ok infos) ↔
      (Actor.startApps w policy none gate k.ready k.actor).refused = none ∧ k.failures = [] ∧
        (Actor.startApps w policy none gate k.ready k.actor).failures = [] := by
    unfold Actor.startChecked
    rw [hk]
    dsimp only
    rw [hpassed, if_neg (by simp)]
    split
    · next hrefused => simp [hrefused]
    · next hrefused => split <;> simp_all
  refine ⟨unresolved ++ tried, ⟨?_, ?_, ⟨unresolved, tried, rfl, ?_, hrows⟩, fun app happ hout => ?_⟩,
    ?_, fun hok => ?_⟩
  · rw [hactor]
    exact hreg.trans hreg'
  · exact hvacant.append hreg hids hvacant'
  · rw [← hready, ← hreg.nextId]
    exact haccount.congr hreg.dogBinaries hreg.disabled
  · obtain ⟨n, j, s, hs, hplace⟩ := hknown app happ hout
    rw [hactor]
    exact ⟨n, j, s, by rw [hreg'.before j (hreg.only j s hs), hs], hplace⟩
  · rw [hgranted, hfailures]
    constructor
    · rintro ⟨hrefused, hresolved, hnone⟩
      refine ⟨hresolved, fun row hrow => ?_⟩
      rcases List.mem_append.1 hrow with hrow | hrow
      · obtain ⟨-, hin, hout, -⟩ := hrows row hrow
        rw [hresolved row.app hin] at hout
        cases hout
      · rcases hend with ⟨-, -, hgood, -⟩ | ⟨hfails, -⟩
        · exact hgood row hrow
        · rcases hfails with hfails | hfails
          · rw [hrefused] at hfails
            cases hfails
          · exact absurd hnone hfails
    · rintro ⟨hresolved, hgood⟩
      rcases hend with ⟨hrefused, hnone, -, -⟩ | ⟨-, row, hrow, hfail⟩
      · exact ⟨hrefused, hresolved, hnone⟩
      · exact absurd hfail (hgood row (List.mem_append_right _ hrow))
  · obtain ⟨hrefused, hresolved, hnone⟩ := hgranted.1 hok
    rw [hfailures] at hresolved
    have hempty : unresolved = [] := by
      rw [List.eq_nil_iff_forall_not_mem]
      intro row hrow
      obtain ⟨-, hin, hout, -⟩ := hrows row hrow
      rw [hresolved row.app hin] at hout
      cases hout
    have hall : apps.filter (resolves w) = apps := List.filter_eq_self.2 hresolved
    rcases hend with ⟨-, -, -, hsum⟩ | ⟨hfails, -⟩
    · rw [hempty, List.nil_append, hsum, ← hall, ← hready, List.map_map]
      rfl
    · rcases hfails with hfails | hfails
      · rw [hrefused] at hfails
        cases hfails
      · exact absurd hnone hfails

/-- **A start is refused whole and touches nothing, or every row of it is
accounted for**, in every reachable state. It is granted exactly where every
identity resolves and no spawn failed, and then every requested instance is
registered. -/
theorem start_enlists {dogBinaries : List (String × String)} {h : List (Actor × World × Msg)}
    {a : Actor} (hr : Run Actor.Step (.init dogBinaries) h a) (w : World) (apps : List AppConfig)
    (policy : BatchPolicy) (gate : List String) :
    let r := a.doStart w apps policy gate
    (∃ err, r.1 = .error err ∧ err.RefusesBatch ∧ r.2 = a) ∨
      ((∀ err, r.1 = .error err → ¬ err.RefusesBatch) ∧
        ∃ rows, Enlisted w a apps policy rows r.2 ∧ BatchAnswered w apps rows r.1) := by
  have hids : ∀ (j : ℕ) (s : SheepSlot), a.sheep[j]? = some s → j < a.nextId :=
    fun j s hs => ((Actor.reachable_inv hr).flock j s hs).1
  have hnotWhole (hpassed : (apps.foldl (Actor.checkOne w policy none) ⟨[], [], [], a⟩).refusals = [])
      (err : SupervisorError) (herr : (a.startChecked w apps none policy gate).1 = .error err) :
      ¬ err.RefusesBatch := by
    unfold Actor.startChecked at herr
    dsimp only at herr
    rw [hpassed, if_neg (by simp)] at herr
    split at herr
    · obtain rfl := Except.error.inj herr
      exact id
    · split at herr
      · obtain rfl := Except.error.inj herr
        exact id
      · cases herr
  unfold Actor.doStart
  dsimp only
  split
  · exact .inl ⟨_, rfl, trivial, rfl⟩
  · exact .inl ⟨_, rfl, trivial, rfl⟩
  · cases policy with
    | allOrNothing =>
      obtain ⟨hactor, hfailures, hready⟩ :=
        Actor.foldl_checkOne_allOrNothing w apps ⟨[], [], [], a⟩
      by_cases hpassed : (apps.foldl (Actor.checkOne w .allOrNothing none) ⟨[], [], [], a⟩).refusals
          = []
      · obtain ⟨-, hready, hresolved⟩ := hready hpassed
        have hreg : Registers a []
            (apps.foldl (Actor.checkOne w .allOrNothing none) ⟨[], [], [], a⟩).actor := by
          rw [hactor]
          exact .refl hids
        refine .inr ⟨hnotWhole hpassed, startChecked_enlists rfl hpassed hids hreg
          ⟨by simp, by simp⟩ (by simp) (fun app happ hout => ?_) ?_ ?_⟩
        · rw [hresolved app happ] at hout
          cases hout
        · rw [hready, List.filter_eq_self.2 hresolved]
          rfl
        · rw [hfailures]
          exact ⟨fun _ => hresolved, fun _ => rfl⟩
      · left
        unfold Actor.startChecked
        dsimp only
        rw [if_pos (by simpa using hpassed)]
        exact ⟨_, rfl, trivial, hactor⟩
    | perApp =>
      obtain ⟨rows, hreg, hvacant, hrows, hknown, hpassed, hready, hfailures⟩ :=
        Actor.foldl_checkOne_perApp w apps ⟨[], [], [], a⟩ hids
      refine .inr ⟨hnotWhole hpassed, startChecked_enlists rfl hpassed hids hreg hvacant
        (fun row hrow => ⟨rfl, hrows row hrow⟩) hknown (by simpa using hready) ?_⟩
      rw [hfailures]
      simp

/-- A host on which `web` cannot be spawned. -/
def spawnless : World :=
  { plain with spawn := fun id app =>
      if app.name = "web" then .error "no such file" else .ok (100 + id) }

/-- Two apps, of which the first has two instances. -/
def webAndDb : List AppConfig := [{ name := "web", instances := 2 }, { name := "db" }]

/-- The batch failed at a spawn. -/
def cutShort {α : Type} : Except SupervisorError α → Bool
  | .error (.spawnFailed _) => true
  | _ => false

theorem cutShort_iff {α : Type} {r : Except SupervisorError α} :
    cutShort r = true ↔ ∃ failure, r = .error (.spawnFailed failure) := by
  cases r with
  | ok rows => simp [cutShort]
  | error err => cases err <;> simp [cutShort]

/-- **An all-or-nothing batch that is not refused and leaves `db`
unregistered**: the spawn of `web` fails first. -/
theorem start_cut_short :
    let r := (Actor.init []).doStart spawnless webAndDb .allOrNothing []
    Run Actor.Step (.init []) [] (.init []) ∧ (∃ failure, r.1 = .error (.spawnFailed failure)) ∧
      ∀ (id : ℕ) (s : SheepSlot), r.2.sheep[id]? = some s → s.name ≠ "db" := by
  intro r
  refine ⟨.nil _, ?_, fun id s hs => ?_⟩
  · have hfailed : cutShort r.1 = true := by decide +kernel
    exact cutShort_iff.1 hfailed
  · have hnone : (r.2.sheep.toList.all fun e => decide (e.2.name ≠ "db")) = true := by
      decide +kernel
    exact of_decide_eq_true (List.all_eq_true.1 hnone (id, s) (Table.mem_toList.2 hs))

/-- Per app, `db` is registered beside the one row of `web` that was
tried. -/
theorem start_enlists_perApp :
    let r := (Actor.init []).doStart spawnless webAndDb .perApp []
    ∃ rows, Enlisted spawnless (.init []) webAndDb .perApp rows r.2 ∧
      BatchAnswered spawnless webAndDb rows r.1 ∧ rows.length = 2 := by
  intro r
  have hnext : r.2.nextId = (Actor.init []).nextId + 2 := by decide +kernel
  have hnotWhole : cutShort r.1 = true := by decide +kernel
  rcases start_enlists (.nil (Actor.init [])) spawnless webAndDb .perApp [] with
    ⟨err, herr, hwhole, -⟩ | ⟨-, rows, henlisted, hanswered⟩
  · rw [herr] at hnotWhole
    cases err <;> first | exact hwhole.elim | cases hnotWhole
  · refine ⟨rows, henlisted, hanswered, ?_⟩
    have hcount : r.2.nextId = (Actor.init []).nextId + rows.length := henlisted.registers.nextId
    omega

end Supervisor

end Shep

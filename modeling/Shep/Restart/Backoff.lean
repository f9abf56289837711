import Mathlib.Order.Iterate
import Shep.Restart.Budget

/-!
# Restart — where the back-off goes

A step of the back-off is a product in `u64`, halved and capped.
**`backoff_grows_iff`**: the delays grow to the cap, stay under it and wrap
nowhere exactly if the first one is from two milliseconds to the cap. A
first delay of one millisecond is its own next, and one past the cap is
handed out before a step has capped it (**`backoff_past_cap`**). A wait
that is adopted is within its deadline and within a first delay whatever
the config (`adopted_within`).

In that range the delays are those the supervisor model counts in `ℕ`, and
so is every decision (`decideOnExit_toSupervisor`).
-/

namespace Shep

namespace Restart

variable {app : AppConfig} {d : UInt64}

/-- The delays grow to the cap and no further, and no product on the way
wraps. -/
structure GrowsToCap (app : AppConfig) : Prop where
  /-- Each of the `n - 1` steps to the `n`-th delay triples a number that
  can be tripled. -/
  fits : ∀ (n : UInt32) (initial : UInt64) (k : ℕ), app.expBackoffRestartDelay = some initial →
    k + 1 < n.toNat → (backoffStep^[k] initial).toNat * 3 < 2 ^ 64
  grows : ∀ (n m : UInt32) (d : UInt64), n ≤ m → restartDelay app n = some d →
    ∃ d', restartDelay app m = some d' ∧ d ≤ d'
  capped : ∀ (n : UInt32) (d : UInt64), restartDelay app n = some d → d ≤ cap
  reaches : ∃ enough : UInt32, ∀ n, enough ≤ n → restartDelay app n = some cap

/-- An adopted wait is no longer than what is due of it, and no longer than
a first delay. -/
def AdoptedWithin (app : AppConfig) : Prop :=
  ∀ (due : Option ℤ) (now : ℤ) (wait : ℕ), adoptedRestartDelay app due now = some wait →
    (∀ t, due = some t → (wait : ℤ) ≤ t - now) ∧
      ∃ ceiling, restartDelay app 1 = some ceiling ∧ wait ≤ ofMillis ceiling

theorem adopted_within (app : AppConfig) : AdoptedWithin app := by
  intro due now wait h
  unfold adoptedRestartDelay at h
  cases hc : restartDelay app 1 with
  | none => cases due <;> simp [hc] at h
  | some ceiling =>
    refine ⟨fun t ht => ?_, ceiling, rfl, ?_⟩
    · subst ht
      simp only [hc, Option.map_some] at h
      split at h
      · obtain rfl := Option.some.inj h
        omega
      · cases h
    · cases due with
      | none =>
        obtain rfl := Option.some.inj (hc ▸ h)
        exact le_rfl
      | some t =>
        simp only [hc, Option.map_some] at h
        split at h
        · obtain rfl := Option.some.inj h
          exact min_le_right _ _
        · cases h

/-! ## One step -/

theorem toNat_cap : cap.toNat = 15000 := rfl

theorem toNat_backoffStep (h : d.toNat * 3 < 2 ^ 64) :
    (backoffStep d).toNat = Supervisor.backoffStep d.toNat := by
  have hdiv : (d * 3 / 2).toNat = d.toNat * 3 / 2 := by
    rw [UInt64.toNat_div, UInt64.toNat_mul]
    simp only [UInt64.reduceToNat]
    rw [Nat.mod_eq_of_lt h]
  unfold backoffStep Supervisor.backoffStep
  rw [min_def]
  simp only [UInt64.le_iff_toNat_le, hdiv, toNat_cap]
  split
  · exact hdiv
  · rfl

/-- The range the back-off grows in. -/
structure InRange (d : ℕ) : Prop where
  two_le : 2 ≤ d
  le_cap : d ≤ 15000

theorem InRange.step {d : ℕ} (h : InRange d) : InRange (Supervisor.backoffStep d) := by
  have h2 := h.two_le
  have hcap := h.le_cap
  unfold Supervisor.backoffStep
  exact ⟨by omega, min_le_right _ _⟩

theorem InRange.le_step {d : ℕ} (h : InRange d) : d ≤ Supervisor.backoffStep d := by
  have h2 := h.two_le
  have hcap := h.le_cap
  unfold Supervisor.backoffStep
  omega

theorem InRange.fits {d : ℕ} (h : InRange d) : d * 3 < 2 ^ 64 := by
  have hcap := h.le_cap
  omega

theorem monotone_backoffStep : Monotone Supervisor.backoffStep := by
  intro d d' h
  unfold Supervisor.backoffStep
  omega

/-! ## All of them -/

namespace InRange

variable {d : ℕ}

theorem iterate (h : InRange d) (k : ℕ) : InRange (Supervisor.backoffStep^[k] d) := by
  induction k with
  | zero => exact h
  | succ k ih =>
    rw [Function.iterate_succ_apply']
    exact ih.step

theorem toNat_iterate {d : UInt64} (h : InRange d.toNat) (k : ℕ) :
    (backoffStep^[k] d).toNat = Supervisor.backoffStep^[k] d.toNat := by
  induction k with
  | zero => rfl
  | succ k ih =>
    have hk := h.iterate k
    rw [Function.iterate_succ_apply', Function.iterate_succ_apply',
      toNat_backoffStep (by rw [ih]; exact hk.fits), ih]

theorem iterate_mono (h : InRange d) {k k' : ℕ} (hk : k ≤ k') :
    Supervisor.backoffStep^[k] d ≤ Supervisor.backoffStep^[k'] d := by
  induction hk with
  | refl => exact le_rfl
  | step _ ih =>
    rw [Function.iterate_succ_apply']
    exact ih.trans (h.iterate _).le_step

theorem iterate_cap (h : InRange d) {k : ℕ} (hk : 23 ≤ k) :
    Supervisor.backoffStep^[k] d = 15000 := by
  have htwo : Supervisor.backoffStep^[23] 2 = 15000 := by decide
  have hle : 15000 ≤ Supervisor.backoffStep^[k] d :=
    calc 15000 = Supervisor.backoffStep^[23] 2 := htwo.symm
      _ ≤ Supervisor.backoffStep^[23] d := monotone_backoffStep.iterate 23 h.two_le
      _ ≤ Supervisor.backoffStep^[k] d := h.iterate_mono hk
  exact le_antisymm (h.iterate k).le_cap hle

end InRange

theorem restartDelay_eq (hfixed : app.restartDelay = none)
    (hd : app.expBackoffRestartDelay = some d) {n : UInt32} (hn : n ≠ 0) :
    restartDelay app n = some (backoffStep^[n.toNat - 1] d) := by
  simp [restartDelay, hfixed, hd, hn]

theorem restartDelay_zero (hfixed : app.restartDelay = none) : restartDelay app 0 = none := by
  simp [restartDelay, hfixed]

theorem ne_zero_of_le {n m : UInt32} (hn : n ≠ 0) (h : n ≤ m) : m ≠ 0 := by
  rintro rfl
  exact hn (UInt32.toNat_inj.1 (Nat.le_zero.1 (UInt32.le_iff_toNat_le.1 h)))

/-- A first delay in the range grows to the cap. -/
theorem grows_of_inRange (hfixed : app.restartDelay = none)
    (hd : app.expBackoffRestartDelay = some d) (h : InRange d.toNat) : GrowsToCap app where
  fits n initial k hinitial _ := by
    obtain rfl := Option.some.inj (hinitial.symm.trans hd)
    rw [h.toNat_iterate]
    exact (h.iterate k).fits
  grows n m e hnm he := by
    by_cases hn : n = 0
    · rw [hn, restartDelay_zero hfixed] at he
      cases he
    · rw [restartDelay_eq hfixed hd hn] at he
      obtain rfl := Option.some.inj he
      refine ⟨_, restartDelay_eq hfixed hd (ne_zero_of_le hn hnm), ?_⟩
      rw [UInt64.le_iff_toNat_le, h.toNat_iterate, h.toNat_iterate]
      exact h.iterate_mono (Nat.sub_le_sub_right (UInt32.le_iff_toNat_le.1 hnm) 1)
  capped n e he := by
    by_cases hn : n = 0
    · rw [hn, restartDelay_zero hfixed] at he
      cases he
    · rw [restartDelay_eq hfixed hd hn] at he
      obtain rfl := Option.some.inj he
      rw [UInt64.le_iff_toNat_le, h.toNat_iterate, toNat_cap]
      exact (h.iterate _).le_cap
  reaches := by
    refine ⟨24, fun n hn => ?_⟩
    have hle : 24 ≤ n.toNat := UInt32.le_iff_toNat_le.1 hn
    rw [restartDelay_eq hfixed hd (ne_zero_of_le (by decide) hn)]
    refine congrArg some (UInt64.toNat_inj.1 ?_)
    rw [h.toNat_iterate, h.iterate_cap (by omega), toNat_cap]

theorem iterate_one (k : ℕ) : backoffStep^[k] 1 = 1 :=
  Function.iterate_fixed (by decide) k

/-- **The back-off grows to its cap and never wraps exactly if its first
delay is from two milliseconds to the cap.** -/
theorem backoff_grows_iff (hfixed : app.restartDelay = none)
    (hd : app.expBackoffRestartDelay = some d) (hne : d ≠ 0) :
    (GrowsToCap app ∧ ∀ app', AdoptedWithin app') ↔ 2 ≤ d ∧ d ≤ cap := by
  constructor
  · rintro ⟨hgrows, -⟩
    refine ⟨?_, hgrows.capped 1 d (restartDelay_eq hfixed hd (by decide))⟩
    rw [UInt64.le_iff_toNat_le]
    by_contra hlt
    have hzero : d.toNat ≠ 0 := fun h => hne (UInt64.toNat_inj.1 h)
    have hone : d = 1 := UInt64.toNat_inj.1 (by
      simp only [UInt64.reduceToNat] at hlt ⊢
      omega)
    -- it never leaves its first delay, so it never comes to the cap
    obtain ⟨enough, hreach⟩ := hgrows.reaches
    have hlast : enough ≤ 4294967295 := UInt32.le_iff_toNat_le.2
      (Nat.le_of_lt_succ enough.toNat_lt)
    have hcap := hreach 4294967295 hlast
    rw [restartDelay_eq hfixed hd (by decide), hone, iterate_one] at hcap
    exact absurd (Option.some.inj hcap) (by decide)
  · rintro ⟨h2, hcap⟩
    exact ⟨grows_of_inRange hfixed hd
      ⟨UInt64.le_iff_toNat_le.1 h2, UInt64.le_iff_toNat_le.1 hcap⟩, adopted_within⟩

/-- The default, a hundred milliseconds. -/
theorem backoff_grows_default : GrowsToCap {} ∧ ∀ app', AdoptedWithin app' :=
  (@backoff_grows_iff {} 100 rfl rfl (by decide)).2 (by decide)

/-- Twenty seconds: the first delay is past the cap, and the second is
shorter. -/
theorem backoff_past_cap : ∃ (app : AppConfig) (d : UInt64), app.restartDelay = none ∧
    app.expBackoffRestartDelay = some d ∧ d ≠ 0 ∧
    ¬ (GrowsToCap app ∧ ∀ app', AdoptedWithin app') := by
  refine ⟨{ expBackoffRestartDelay := some 20000 }, 20000, rfl, rfl, by decide, fun h => ?_⟩
  have hle := h.1.capped 1 20000 (restartDelay_eq rfl rfl (by decide))
  exact absurd hle (by decide)

/-! ## The decision in `ℕ` -/

/-- The config the supervisor model decides on. -/
def AppConfig.toSupervisor (app : AppConfig) : Supervisor.AppConfig where
  name := ""
  dogs := app.dogs.map fun dog => (dog, "")
  autorestart := app.autorestart
  stopExitCodes := app.stopExitCodes
  minUptime := ofMillis app.minUptime
  maxRestarts := app.maxRestarts.toNat
  restartDelay := app.restartDelay.map UInt64.toNat
  expBackoffRestartDelay := app.expBackoffRestartDelay.map UInt64.toNat

/-- The decision of the supervisor model. -/
def Decision.toSupervisor : Decision → Supervisor.Decision
  | .restart delay => .restart (delay.map UInt64.toNat)
  | .cleanStop => .cleanStop
  | .errored => .errored
  | .sandboxRefused => .sandboxRefused

/-- The budget of the supervisor model. -/
def RestartBudget.toSupervisor (b : RestartBudget) : Supervisor.RestartBudget :=
  ⟨b.unstableCount.toNat⟩

theorem restartDelay_toSupervisor
    (h : ∀ d, app.expBackoffRestartDelay = some d → InRange d.toNat) (n : UInt32) :
    Supervisor.restartDelay app.toSupervisor n.toNat =
      (restartDelay app n).map UInt64.toNat := by
  cases hfixed : app.restartDelay with
  | some fixed => simp [Supervisor.restartDelay, restartDelay, AppConfig.toSupervisor, hfixed]
  | none =>
    by_cases hn : n = 0
    · simp [Supervisor.restartDelay, restartDelay, AppConfig.toSupervisor, hfixed, hn]
    · have hn' : n.toNat ≠ 0 := fun h => hn (UInt32.toNat_inj.1 h)
      cases hd : app.expBackoffRestartDelay with
      | none => simp [Supervisor.restartDelay, restartDelay, AppConfig.toSupervisor, hfixed, hn, hd]
      | some d =>
        rw [restartDelay_eq hfixed hd hn, Option.map_some, (h d hd).toNat_iterate]
        simp [Supervisor.restartDelay, AppConfig.toSupervisor, hfixed, hd, hn']

theorem isSandboxed_toSupervisor : app.toSupervisor.isSandboxed = app.isSandboxed := by
  unfold Supervisor.AppConfig.isSandboxed AppConfig.isSandboxed AppConfig.toSupervisor
  rw [List.any_map, List.contains_eq_any_beq]
  exact congrArg app.dogs.any (funext fun dog => BEq.comm)

/-- **The supervisor model decides as the code does**, while the count fits
and the back-off is in its range. -/
theorem decideOnExit_toSupervisor {b : RestartBudget} {x : Exit}
    (h : ∀ d, app.expBackoffRestartDelay = some d → InRange d.toNat)
    (hb : b.unstableCount.toNat + 1 < 2 ^ 32) :
    Supervisor.decideOnExit app.toSupervisor b.toSupervisor x.uptime x.exit x.manualStop
      x.oomKilled = ((x.decision app b).1.toSupervisor, (x.decision app b).2.toSupervisor) := by
  have hstops : Supervisor.stopsOn app.toSupervisor x.exit.code = stopsOn app x.exit.code := by
    unfold Supervisor.stopsOn stopsOn
    cases x.exit.code <;> rfl
  have hsandbox : Supervisor.isSandboxRefusal app.toSupervisor x.exit.code =
      isSandboxRefusal app x.exit.code := by
    unfold Supervisor.isSandboxRefusal isSandboxRefusal
    rw [isSandboxed_toSupervisor]
    rfl
  have hnote : (if x.oomKilled then b.toSupervisor.noteFailedStart
      else b.toSupervisor.noteExit x.uptime (ofMillis app.minUptime)) =
        (x.note app b).toSupervisor := by
    have hfail : b.toSupervisor.noteFailedStart = b.noteFailedStart.toSupervisor := by
      simp only [RestartBudget.toSupervisor, RestartBudget.noteFailedStart,
        Supervisor.RestartBudget.noteFailedStart, UInt32.toNat_add, UInt32.reduceToNat,
        Nat.mod_eq_of_lt hb]
    unfold Exit.note Supervisor.RestartBudget.noteExit RestartBudget.noteExit
    rw [hfail]
    split
    · rfl
    · split <;> rfl
  cases hc : x.charged app with
  | true =>
    rw [Exit.decision_charged hc]
    simp only [Exit.charged, Bool.and_eq_true, Bool.not_eq_true'] at hc
    obtain ⟨⟨⟨hmanual, hrefusal⟩, hstop⟩, hauto⟩ := hc
    have hauto' : app.toSupervisor.autorestart = true := hauto
    have hmin : app.toSupervisor.minUptime = ofMillis app.minUptime := rfl
    have hex : ((x.note app b).toSupervisor.exhausted app.toSupervisor.maxRestarts) =
        (x.note app b).exhausted app.maxRestarts :=
      decide_eq_decide.2 UInt32.le_iff_toNat_le.symm
    unfold Supervisor.decideOnExit
    simp only [hmanual, hsandbox, hrefusal, hstops, hstop, hauto', hmin, hnote, hex,
      Bool.false_eq_true, if_false, Bool.not_true]
    split
    · rfl
    · refine congrArg (fun delay => (Supervisor.Decision.restart delay, _)) ?_
      exact restartDelay_toSupervisor h _
  | false =>
    have hauto : app.toSupervisor.autorestart = app.autorestart := rfl
    unfold Exit.decision decideOnExit Supervisor.decideOnExit
    simp only [hsandbox, hstops, hauto]
    simp only [Exit.charged, Bool.and_eq_false_iff, Bool.not_eq_false'] at hc
    split
    · rfl
    · next hmanual =>
      split
      · rfl
      · next hrefusal =>
        split
        · rfl
        · next hstop =>
          have hauto : app.autorestart = false := by simp_all
          simp [hauto, Decision.toSupervisor]

end Restart

end Shep

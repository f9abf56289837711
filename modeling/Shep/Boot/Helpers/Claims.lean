import Shep.Boot.Model

/-!
# Boot — what a step does to the claim

`Home.Claims` is what one step can do to the pidfile path and to the locks:
the claim's whole state. `Home.Kept` is what the missing recheck of
`acquire` puts at risk, and what holds as long as no boot takes the lock of
a file the path has stopped naming (`Home.Current`): each lock is on record
with the process that holds it, and whoever holds the home holds it by the
file the path names.
-/

namespace Shep

namespace Boot

/-- The file whose lock a call is about to try. -/
def Stage.tries : Stage → Call → Option ℕ
  | opened call i, call' => if call = call' then some i else none
  | _, _ => none

theorem Stage.lock_of_holds {g : Stage} {i : ℕ} (h : g.holds = some i) : g.lock = some i := by
  cases g <;> first | exact h | cases h

namespace Home

variable {s s' : Home} {e : Event} {p q : Pid} {i : ℕ}

@[simp] theorem goTo_stage_self (s : Home) (p : Pid) (g : Stage) : (s.goTo p g).stage p = g := by
  simp [goTo]

@[simp] theorem goTo_stage_of_ne (s : Home) {p q : Pid} (g : Stage) (hq : q ≠ p) :
    (s.goTo p g).stage q = s.stage q := by
  simp [goTo, hq]

/-- What a step does to the claim. -/
inductive Claims (s : Home) (e : Event) (s' : Home) : Prop
  | stays (hlock : (s'.stage e.pid).lock = (s.stage e.pid).lock)
      (hholds : (s'.stage e.pid).holds = (s.stage e.pid).holds) (hflock : s'.flock = s.flock)
      (hpidfile : s'.pidfile = s.pidfile) (hinodes : s'.inodes = s.inodes)
      (hnamed : ∀ i, s'.stage e.pid = .unnamed i → s.stage e.pid = .unnamed i)
  | creates (call : Call) (hout : s.stage e.pid = .out) (hnone : s.pidfile = none)
      (hopened : s'.stage e.pid = .opened call s.inodes) (hflock : s'.flock = s.flock)
      (hpidfile : s'.pidfile = some s.inodes) (hinodes : s'.inodes = s.inodes + 1)
  | takes (call : Call) (i : ℕ) (hact : e.act = .flock)
      (hopened : s.stage e.pid = .opened call i) (hfree : s.flock i = none)
      (hgranted : s'.stage e.pid = granted call i)
      (hflock : s'.flock = Function.update s.flock i (some e.pid))
      (hpidfile : s'.pidfile = s.pidfile) (hinodes : s'.inodes = s.inodes)
  | drops (i : ℕ) (hlock : (s.stage e.pid).lock = some i) (hout : s'.stage e.pid = .out)
      (hflock : s'.flock = Function.update s.flock i none) (hpidfile : s'.pidfile = s.pidfile)
      (hinodes : s'.inodes = s.inodes)
  | unnames (i : ℕ) (hunbound : s.stage e.pid = .unbound i)
      (hunnamed : s'.stage e.pid = .unnamed i) (hflock : s'.flock = s.flock) (hpidfile : s'.pidfile = none) (hinodes : s'.inodes = s.inodes)

/-- A move between two stages that hold the same, with nothing done to the
path or the locks. -/
theorem Claims.moves {x : Home} {g : Stage} (hlock : g.lock = (s.stage e.pid).lock)
    (hholds : g.holds = (s.stage e.pid).holds) (hg : ∀ i, g ≠ .unnamed i)
    (hflock : x.flock = s.flock) (hpidfile : x.pidfile = s.pidfile) (hinodes : x.inodes = s.inodes) :
    s.Claims e (x.goTo e.pid g) := by
  refine .stays ?_ ?_ hflock hpidfile hinodes ?_
  · rw [goTo_stage_self, hlock]
  · rw [goTo_stage_self, hholds]
  · intro i hi
    rw [goTo_stage_self] at hi
    exact absurd hi (hg i)

theorem bindOr_claims {g : Stage} (hg : g.lock = (s.stage e.pid).lock)
    (hg' : g.holds = (s.stage e.pid).holds) (hne : ∀ i, g ≠ .unnamed i)
    (hlock : (s.stage e.pid).lock = some i) (hholds : (s.stage e.pid).holds = some i) :
    s.Claims e (s.bindOr e.pid i g) := by
  unfold bindOr
  split
  · exact .moves hlock.symm hholds.symm (by simp) rfl rfl rfl
  · exact .moves hg hg' hne rfl rfl rfl

theorem crash_claims (s : Home) (e : Event) : s.Claims e (s.crash e.pid) := by
  unfold crash
  cases hlock : (s.stage e.pid).lock with
  | some i =>
    refine .drops i hlock ?_ ?_ ?_ ?_ <;> cases (s.stage e.pid).listener <;>
      simp [goTo, unlock, closeListener]
  | none =>
    have hfree : (s.stage e.pid).holds = none := by
      cases hholds : (s.stage e.pid).holds with
      | none => rfl
      | some i => rw [Stage.lock_of_holds hholds] at hlock; cases hlock
    cases (s.stage e.pid).listener with
    | some l | none => exact .moves hlock.symm hfree.symm (by simp) rfl rfl rfl

theorem Claims.unlocked (hlock : (s.stage e.pid).lock = some i) :
    s.Claims e ((s.unlock i).goTo e.pid .out) :=
  .drops i hlock (goTo_stage_self ..) rfl rfl rfl

/-- **What a step does to the claim.** -/
theorem step_claims (h : s.Step e s') : s.Claims e s' := by
  obtain ⟨p, act⟩ := e
  simp only [Step, step] at h
  split at h
  all_goals cases h
  case h_1 call hp =>
    unfold openPidfile
    split
    · exact .moves (by rw [hp]; rfl) (by rw [hp]; rfl) (by simp) rfl rfl rfl
    · next hnone => exact .creates call hp hnone (goTo_stage_self ..) rfl rfl rfl
  case h_2 call i hp =>
    unfold tryLock
    split
    · next hfree => exact .takes call i rfl hp hfree (goTo_stage_self ..) rfl rfl rfl
    · exact .moves (by rw [hp]; rfl) (by rw [hp]; rfl) (by simp) rfl rfl rfl
  case h_3 call hp =>
    unfold openToRead
    split
    · exact .moves (by rw [hp]; rfl) (by rw [hp]; rfl) (by simp) rfl rfl rfl
    · exact .moves (by rw [hp]; rfl) (by rw [hp]; rfl) (by simp) rfl rfl rfl
  case h_5 i hp | h_6 i hp | h_7 i hp => exact .unlocked (by rw [hp]; rfl)
  case h_8 i hp | h_11 i hp =>
    refine bindOr_claims ?_ ?_ (by simp) ?_ ?_ <;> rw [hp] <;> rfl
  case h_9 i hp =>
    unfold probe
    split <;> exact .moves (by rw [hp]; rfl) (by rw [hp]; rfl) (by simp) rfl rfl rfl
  case h_10 i hp =>
    unfold removeStale
    split <;> exact .moves (by rw [hp]; rfl) (by rw [hp]; rfl) (by simp) rfl rfl rfl
  case h_17 i hp => exact .unnames i hp (goTo_stage_self ..) rfl rfl rfl
  case h_18 => exact crash_claims s _
  case h_4 | h_12 | h_13 | h_14 | h_15 | h_16 =>
    next hp => exact .moves (by rw [hp]; rfl) (by rw [hp]; rfl) (by simp) rfl rfl rfl

/-- What a step of `p` does to the other processes and to the files. -/
structure Touches (s : Home) (p : Pid) (s' : Home) : Prop where
  others : ∀ q, q ≠ p → s'.stage q = s.stage q
  /-- Only who holds the home unlinks or binds the socket. -/
  socket : (s.stage p).holds = none → s'.socket = s.socket
  /-- And only who holds it by a file writes there, its own pid or nothing. -/
  contents : ∀ i r, s'.contents i = some r →
    s.contents i = some r ∨ (r = p ∧ (s.stage p).holds = some i)

theorem Touches.moves {x : Home} {g : Stage} (hstage : x.stage = s.stage)
    (hsocket : (s.stage p).holds = none → x.socket = s.socket)
    (hcontents : x.contents = s.contents) : s.Touches p (x.goTo p g) where
  others q hq := by rw [goTo_stage_of_ne _ _ hq, hstage]
  socket := hsocket
  contents i r hi := .inl (by rw [← hcontents]; exact hi)

theorem Touches.records {g : Stage} {v : Option Pid} (hholds : (s.stage p).holds = some i)
    (hv : ∀ r, v = some r → r = p) :
    s.Touches p ({ s with contents := Function.update s.contents i v }.goTo p g) where
  others q hq := goTo_stage_of_ne _ _ hq
  socket _ := rfl
  contents j r hj := by
    by_cases hji : j = i
    · subst hji
      have hr : v = some r := by simpa [goTo] using hj
      exact .inr ⟨hv r hr, hholds⟩
    · exact .inl (by simpa [goTo, hji] using hj)

theorem bindOr_touches {g : Stage} (hholds : (s.stage p).holds = some i) :
    s.Touches p (s.bindOr p i g) := by
  unfold bindOr
  split
  · exact .moves rfl (by simp [hholds]) rfl
  · exact .moves rfl (fun _ => rfl) rfl

theorem crash_touches (s : Home) (p : Pid) : s.Touches p (s.crash p) := by
  unfold crash
  cases (s.stage p).lock <;> cases (s.stage p).listener <;> exact .moves rfl (fun _ => rfl) rfl

theorem step_touches (h : s.Step e s') : s.Touches e.pid s' := by
  obtain ⟨p, act⟩ := e
  simp only [Step, step] at h
  split at h
  all_goals cases h
  case h_1 =>
    unfold openPidfile
    split <;> exact .moves rfl (fun _ => rfl) rfl
  case h_2 =>
    unfold tryLock
    split <;> exact .moves rfl (fun _ => rfl) rfl
  case h_3 =>
    unfold openToRead
    split <;> exact .moves rfl (fun _ => rfl) rfl
  case h_8 i hp | h_11 i hp => exact bindOr_touches (by rw [hp]; rfl)
  case h_10 i hp =>
    unfold removeStale
    split
    · exact .moves rfl (by simp [hp, Stage.holds]) rfl
    · exact .moves rfl (fun _ => rfl) rfl
  case h_12 i l hp => exact .records (by rw [hp]; rfl) (by simp)
  case h_13 i l hp => exact .records (by rw [hp]; rfl) (by simp)
  case h_16 i hp => exact .moves rfl (by simp [hp, Stage.holds]) rfl
  case h_18 => exact crash_touches s p
  case h_4 | h_5 | h_6 | h_7 | h_9 | h_14 | h_15 | h_17 => exact .moves rfl (fun _ => rfl) rfl

/-! ## What holds of the claim -/

/-- No boot takes the lock of a file the path has stopped naming. -/
def Current (s : Home) (e : Event) : Prop :=
  e.act = .flock → ∀ i ∈ (s.stage e.pid).tries .boot, s.flock i = none → s.pidfile = some i

instance (s : Home) (e : Event) : Decidable (s.Current e) :=
  inferInstanceAs (Decidable (_ → ∀ _ ∈ _, _ → _))

/-- **Exclusion**: each lock is on record with the process that holds it, and
whoever holds the home holds it by the file the path names. -/
structure Kept (s : Home) : Prop where
  locked : ∀ p i, (s.stage p).lock = some i ↔ s.flock i = some p
  named : ∀ p i, (s.stage p).holds = some i → s.pidfile = some i

namespace Kept

theorem unique (h : s.Kept) {j : ℕ} (hp : (s.stage p).holds = some i)
    (hq : (s.stage q).holds = some j) : p = q := by
  have hij : i = j := Option.some.inj ((h.named p i hp).symm.trans (h.named q j hq))
  subst hij
  have hpi := (h.locked p i).1 (Stage.lock_of_holds hp)
  have hqi := (h.locked q i).1 (Stage.lock_of_holds hq)
  exact Option.some.inj (hpi.symm.trans hqi)

/-- The lock table follows the process that moves. -/
theorem step_locked (h : s.Kept) (hstep : s.Step e s') (q : Pid) (j : ℕ) :
    (s'.stage q).lock = some j ↔ s'.flock j = some q := by
  by_cases hq : q = e.pid
  · subst hq
    cases step_claims hstep with
    | stays hlock _ hflock => rw [hlock, hflock, h.locked]
    | creates call hout _ hopened hflock =>
      have hnone := h.locked e.pid j
      rw [hout] at hnone
      rw [hopened, hflock, ← hnone]
      rfl
    | takes call i hact hopened hfree hgranted hflock =>
      have hnone := h.locked e.pid j
      rw [hopened] at hnone
      have hlock : (s'.stage e.pid).lock = some i := by
        rw [hgranted]
        cases call <;> rfl
      rw [hlock, hflock]
      by_cases hji : j = i
      · simp [hji]
      · have hne : ¬ i = j := fun h => hji h.symm
        simp [hji, hne, ← hnone, Stage.lock]
    | drops i hlock hout hflock =>
      have hheld := h.locked e.pid j
      rw [hlock] at hheld
      rw [hout, hflock]
      by_cases hji : j = i
      · simp [hji, Stage.lock]
      · have hne : ¬ i = j := fun h => hji h.symm
        simp [hji, ← hheld, hne, Stage.lock]
    | unnames i hunbound hunnamed hflock =>
      have hheld := h.locked e.pid j
      rw [hunbound] at hheld
      rw [hunnamed, hflock, ← hheld]
      rfl
  · rw [(step_touches hstep).others q hq, h.locked q j]
    cases step_claims hstep with
    | stays _ _ hflock | creates _ _ _ _ hflock | unnames _ _ _ hflock => rw [hflock]
    | takes call i hact hopened hfree hgranted hflock =>
      rw [hflock]
      by_cases hji : j = i
      · have hne : ¬ e.pid = q := fun h => hq h.symm
        simp [hji, hfree, hne]
      · simp [hji]
    | drops i hlock hout hflock =>
      have hheld := (h.locked e.pid i).1 hlock
      rw [hflock]
      by_cases hji : j = i
      · have hne : ¬ e.pid = q := fun h => hq h.symm
        simp [hji, hheld, hne]
      · simp [hji]

theorem step (h : s.Kept) (hcurrent : s.Current e) (hstep : s.Step e s') : s'.Kept := by
  refine ⟨h.step_locked hstep, fun q j hholds => ?_⟩
  have hothers := (step_touches hstep).others q
  cases step_claims hstep with
  | stays _ hsame _ hpidfile =>
    rw [hpidfile]
    apply h.named q j
    by_cases hq : q = e.pid
    · subst hq
      rw [← hsame, hholds]
    · rw [← hothers hq, hholds]
  | creates call _ hnone hopened =>
    by_cases hq : q = e.pid
    · subst hq
      rw [hopened] at hholds
      cases hholds
    · rw [hothers hq] at hholds
      -- nobody holds the home by a path that names nothing
      have := h.named q j hholds
      rw [hnone] at this
      cases this
  | takes call i hact hopened hfree hgranted _ hpidfile =>
    rw [hpidfile]
    by_cases hq : q = e.pid
    · subst hq
      rw [hgranted] at hholds
      cases call with
      | liveness => cases hholds
      | boot =>
        obtain rfl : i = j := Option.some.inj hholds
        exact hcurrent hact i (by rw [hopened]; rfl) hfree
    · rw [hothers hq] at hholds
      exact h.named q j hholds
  | drops i _ hout _ hpidfile =>
    rw [hpidfile]
    by_cases hq : q = e.pid
    · subst hq
      rw [hout] at hholds
      cases hholds
    · rw [hothers hq] at hholds
      exact h.named q j hholds
  | unnames i hunbound hunnamed =>
    by_cases hq : q = e.pid
    · subst hq
      rw [hunnamed] at hholds
      cases hholds
    · rw [hothers hq] at hholds
      -- the file unlinked is the one any other holder would hold the home by
      exact absurd (h.unique hholds (by rw [hunbound]; rfl)) hq

end Kept

end Home

end Boot

end Shep

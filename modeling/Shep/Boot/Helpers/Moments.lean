import Shep.Boot.Helpers.Claims

/-!
# Boot — what a call of `acquire` has seen

A call opens the pidfile, tries a lock and may then read the path again,
while the home changes hands. `Home.Known` is what the moments since its
`open` hold for each point it can stand at, and it is carried from step to
step: by the call's own steps (`Known.own`) and by every other process's
(`Known.aside`).
-/

namespace Shep

namespace Boot

/-- The event a call of `acquire` of `p` begins with. -/
def Event.Begins (p : Pid) (e : Event) : Prop := e.pid = p ∧ e.act.isOpen = true

instance (p : Pid) : DecidablePred (Event.Begins p) :=
  fun _ => inferInstanceAs (Decidable (_ ∧ _))

namespace Home

/-- A process holds the home as a shepherd. -/
def Holds (s : Home) (p : Pid) : Prop := (s.stage p).holds.isSome = true

instance (s : Home) (p : Pid) : Decidable (s.Holds p) := inferInstanceAs (Decidable (_ = true))

/-- Nobody held the home at some moment. -/
def Free (moments : List Home) : Prop := ∃ m ∈ moments, ∀ q, ¬ m.Holds q

/-- A process held the home at some moment. -/
def HeldBy (moments : List Home) (q : Pid) : Prop := ∃ m ∈ moments, m.Holds q

variable {s s' : Home} {e : Event} {p q : Pid} {i : ℕ} {M : List Home} {g : Stage} {call : Call}

theorem Free.cons (h : Free M) : Free (s' :: M) := by
  obtain ⟨m, hm, hfree⟩ := h
  exact ⟨m, List.mem_cons_of_mem _ hm, hfree⟩

theorem HeldBy.cons (h : HeldBy M q) : HeldBy (s' :: M) q := by
  obtain ⟨m, hm, hheld⟩ := h
  exact ⟨m, List.mem_cons_of_mem _ hm, hheld⟩

theorem holds_of (h : (s.stage p).holds = some i) : s.Holds p := by
  rw [Holds, h]
  rfl

/-- **What a lock says when it is tried**: no boot takes one of a file the path
has stopped naming, no call is refused one by a liveness call, and no
liveness call is refused one next to a pid its holder did not record. -/
structure Plain (s : Home) (e : Event) : Prop where
  current : s.Current e
  boot : e.act = .flock → ∀ i ∈ (s.stage e.pid).tries .boot, ∀ q ∈ s.flock i, s.stage q ≠ .asking i
  liveness : e.act = .flock → ∀ i ∈ (s.stage e.pid).tries .liveness, ∀ q ∈ s.flock i,
    s.stage q ≠ .asking i ∧ (s.contents i = none ∨ s.contents i = some q)

instance (s : Home) (e : Event) : Decidable (s.Plain e) :=
  decidable_of_iff
    (s.Current e ∧
      (e.act = .flock → ∀ i ∈ (s.stage e.pid).tries .boot, ∀ q ∈ s.flock i,
        s.stage q ≠ .asking i) ∧
      (e.act = .flock → ∀ i ∈ (s.stage e.pid).tries .liveness, ∀ q ∈ s.flock i,
        s.stage q ≠ .asking i ∧ (s.contents i = none ∨ s.contents i = some q)))
    ⟨fun h => ⟨h.1, h.2.1, h.2.2⟩, fun h => ⟨h.current, h.boot, h.liveness⟩⟩

/-- Files are numbered as they are created: nothing refers to one that is
still to come, and the path does not come back to one it has left. -/
structure Numbered (s : Home) : Prop where
  pidfile_lt : ∀ i, s.pidfile = some i → i < s.inodes
  opened_lt : ∀ p call i, s.stage p = .opened call i → i < s.inodes
  lock_lt : ∀ p i, (s.stage p).lock = some i → i < s.inodes
  left : ∀ p i, s.stage p = .unnamed i → s.pidfile ≠ some i
  blank : ∀ i, s.inodes ≤ i → s.contents i = none

/-- The pid the path leads to is that of a process that held the home. -/
def Told (M : List Home) (s : Home) : Prop :=
  ∀ i r, s.pidfile = some i → s.contents i = some r → HeldBy M r

/-- **What a call has seen** at each point it can stand at. -/
def Known (M : List Home) (s : Home) : Stage → Prop
  | .opened _ i => s.pidfile = some i ∨
      Free M ∧ (∀ q, s.flock i = some q → s.stage q = .asking i ∨ HeldBy M q) ∧ Told M s
  | .refused call => (∃ q, HeldBy M q) ∧ (call = .liveness → Told M s)
  | .reading call i => (∃ q, HeldBy M q) ∧
      (call = .liveness → ∀ r, s.contents i = some r → HeldBy M r)
  | .asking _ => Free M
  | _ => True

/-- Where a step of a call starts from, by where it ends. -/
def Arrives (s : Home) (e : Event) (s' : Home) : Stage → Prop
  | .opened _ i => e.act.isOpen = true ∧ s'.pidfile = some i
  | .refused call => ∃ i q, e.act = .flock ∧ s.stage e.pid = .opened call i ∧ s.flock i = some q
  | .reading call i => e.act = .openToRead ∧ s.stage e.pid = .refused call ∧ s.pidfile = some i
  | .asking i => e.act = .flock ∧ s.stage e.pid = .opened .liveness i ∧ s.flock i = none
  | _ => True

theorem step_arrives (h : s.Step e s') : s.Arrives e s' (s'.stage e.pid) := by
  obtain ⟨p, act⟩ := e
  simp only [Step, step] at h
  split at h
  all_goals cases h
  case h_1 =>
    unfold openPidfile
    split
    · next hsome =>
      rw [goTo_stage_self]
      exact ⟨rfl, hsome⟩
    · rw [goTo_stage_self]
      exact ⟨rfl, rfl⟩
  case h_2 call i hp =>
    unfold tryLock
    split
    · next hfree =>
      rw [goTo_stage_self]
      cases call with
      | boot => trivial
      | liveness => exact ⟨rfl, hp, hfree⟩
    · next q hheld =>
      rw [goTo_stage_self]
      exact ⟨i, q, rfl, hp, hheld⟩
  case h_3 call hp =>
    unfold openToRead
    split
    · next i hsome =>
      rw [goTo_stage_self]
      exact ⟨rfl, hp, hsome⟩
    · rw [goTo_stage_self]
      trivial
  case h_8 | h_11 =>
    unfold bindOr
    split <;> rw [goTo_stage_self] <;> trivial
  case h_9 =>
    unfold probe
    rw [goTo_stage_self]
    split <;> trivial
  case h_10 =>
    unfold removeStale
    split <;> rw [goTo_stage_self] <;> trivial
  case h_18 =>
    unfold crash
    rw [goTo_stage_self]
    trivial
  all_goals
    rw [goTo_stage_self]
    trivial

theorem step_opens (h : s.Step e s') (hopens : e.act.isOpen = true) :
    ∃ call i, s'.stage e.pid = .opened call i := by
  obtain ⟨p, act⟩ := e
  simp only [Step, step] at h
  split at h
  case h_1 call hp =>
    cases h
    unfold openPidfile
    split <;> exact ⟨call, _, goTo_stage_self ..⟩
  case h_19 => cases h
  all_goals cases hopens

theorem step_inodes_le (hstep : s.Step e s') : s.inodes ≤ s'.inodes := by
  cases step_claims hstep with
  | stays _ _ _ _ hinodes | creates _ _ _ _ _ _ hinodes | takes _ _ _ _ _ _ _ _ hinodes
  | drops _ _ _ _ _ hinodes | unnames _ _ _ _ _ hinodes => omega

namespace Numbered

theorem step_pidfile (h : s.Numbered) (hstep : s.Step e s') (hi : s'.pidfile = some i) :
    i < s'.inodes := by
  cases step_claims hstep with
  | stays _ _ _ hpidfile hinodes | takes _ _ _ _ _ _ _ hpidfile hinodes
  | drops _ _ _ _ hpidfile hinodes =>
    rw [hpidfile] at hi
    rw [hinodes]
    exact h.pidfile_lt i hi
  | creates _ _ _ _ _ hpidfile hinodes =>
    have hnew := Option.some.inj (hpidfile.symm.trans hi)
    omega
  | unnames _ _ _ _ hpidfile =>
    rw [hpidfile] at hi
    cases hi

theorem step_lock (h : s.Numbered) (hstep : s.Step e s') (hi : (s'.stage q).lock = some i) :
    i < s'.inodes := by
  have hle := step_inodes_le hstep
  by_cases hq : q = e.pid
  · subst hq
    cases step_claims hstep with
    | stays hlock =>
      have := h.lock_lt e.pid i (hlock.symm.trans hi)
      omega
    | creates _ _ _ hopened =>
      rw [hopened] at hi
      cases hi
    | takes call j _ hopened _ hgranted =>
      have hj := h.opened_lt _ _ _ hopened
      have hij : j = i := by
        rw [hgranted] at hi
        cases call <;> exact Option.some.inj hi
      omega
    | drops _ _ hout =>
      rw [hout] at hi
      cases hi
    | unnames j hunbound hunnamed =>
      have hij : j = i := by
        rw [hunnamed] at hi
        exact Option.some.inj hi
      have := h.lock_lt e.pid j (by rw [hunbound]; rfl)
      omega
  · rw [(step_touches hstep).others q hq] at hi
    have := h.lock_lt q i hi
    omega

theorem step_left (h : s.Numbered) (hstep : s.Step e s') (hq : s'.stage q = .unnamed i) :
    s'.pidfile ≠ some i := by
  have hbefore : s.stage q = .unnamed i ∨ s'.pidfile = none := by
    by_cases hqe : q = e.pid
    · subst hqe
      cases step_claims hstep with
      | stays _ _ _ _ _ hnamed => exact .inl (hnamed i hq)
      | creates _ _ _ hopened =>
        rw [hopened] at hq
        cases hq
      | takes call _ _ _ _ hgranted =>
        rw [hgranted] at hq
        cases call <;> cases hq
      | drops _ _ hout =>
        rw [hout] at hq
        cases hq
      | unnames _ _ _ _ hnone => exact .inr hnone
    · exact .inl (by rw [← (step_touches hstep).others q hqe, hq])
  rcases hbefore with hbefore | hnone
  · have hleft := h.left q i hbefore
    cases step_claims hstep with
    | stays _ _ _ hpidfile | takes _ _ _ _ _ _ _ hpidfile | drops _ _ _ _ hpidfile =>
      rwa [hpidfile]
    | creates _ _ _ _ _ hpidfile =>
      have hlt := h.lock_lt q i (by rw [hbefore]; rfl)
      rw [hpidfile]
      intro hi
      have := Option.some.inj hi
      omega
    | unnames _ _ _ _ hpidfile => simp [hpidfile]
  · simp [hnone]

theorem step (h : s.Numbered) (hstep : s.Step e s') : s'.Numbered where
  pidfile_lt _ hi := h.step_pidfile hstep hi
  opened_lt q call i hq := by
    by_cases hqe : q = e.pid
    · subst hqe
      have harrives := step_arrives hstep
      rw [hq] at harrives
      exact h.step_pidfile hstep harrives.2
    · rw [(step_touches hstep).others q hqe] at hq
      have := h.opened_lt q call i hq
      have := step_inodes_le hstep
      omega
  lock_lt _ _ hi := h.step_lock hstep hi
  left _ _ hq := h.step_left hstep hq
  blank i hi := by
    have hle := step_inodes_le hstep
    cases hr : s'.contents i with
    | none => rfl
    | some r =>
      rcases (step_touches hstep).contents i r hr with hold | ⟨-, hholds⟩
      · rw [h.blank i (by omega)] at hold
        cases hold
      · have := h.lock_lt _ _ (Stage.lock_of_holds hholds)
        omega

end Numbered

theorem Told.step (h : Told M s) (hs : s ∈ M) (hnum : s.Numbered) (hstep : s.Step e s') :
    Told (s' :: M) s' := by
  intro i r hi hr
  rcases (step_touches hstep).contents i r hr with hold | ⟨rfl, hholds⟩
  · cases step_claims hstep with
    | stays _ _ _ hpidfile | takes _ _ _ _ _ _ _ hpidfile | drops _ _ _ _ hpidfile =>
      rw [hpidfile] at hi
      exact (h i r hi hold).cons
    | creates _ _ _ _ _ hpidfile =>
      obtain rfl : s.inodes = i := Option.some.inj (hpidfile.symm.trans hi)
      rw [hnum.blank _ (Nat.le_refl _)] at hold
      cases hold
    | unnames _ _ _ _ hpidfile =>
      rw [hpidfile] at hi
      cases hi
  · exact ⟨s, List.mem_cons_of_mem _ hs, holds_of hholds⟩

/-- A process that holds a lock but not the home, by a file the teardown has
not let go, is a liveness call. -/
theorem asking_of (hlock : (s.stage q).lock = some i) (hholds : (s.stage q).holds = none)
    (hq : s.stage q ≠ .unnamed i) : s.stage q = .asking i := by
  cases hs : s.stage q <;> rw [hs] at hlock hholds hq <;> cases hlock <;> cases hholds
  · rfl
  · exact absurd rfl hq

theorem Kept.free (h : s.Kept) (hnone : s.pidfile = none) (q : Pid) : ¬ s.Holds q := by
  intro hholds
  obtain ⟨i, hi⟩ := Option.isSome_iff_exists.1 hholds
  have := h.named q i hi
  rw [hnone] at this
  cases this

theorem Kept.free_of_unlocked (h : s.Kept) (hi : s.pidfile = some i) (hfree : s.flock i = none)
    (q : Pid) : ¬ s.Holds q := by
  intro hholds
  obtain ⟨j, hj⟩ := Option.isSome_iff_exists.1 hholds
  obtain rfl : i = j := Option.some.inj (hi.symm.trans (h.named q j hj))
  have := (h.locked q i).1 (Stage.lock_of_holds hj)
  rw [hfree] at this
  cases this

/-- Whoever has the lock of a file after a step had it before, or has just
taken it: either way it is a liveness call or has held the home. -/
theorem step_lockers (h : s.Kept) (hstep : s.Step e s')
    (hM : ∀ q, s.flock i = some q → s.stage q = .asking i ∨ HeldBy M q)
    (hq : s'.flock i = some q) : s'.stage q = .asking i ∨ HeldBy (s' :: M) q := by
  have hlock' : (s'.stage q).lock = some i := (h.step_locked hstep q i).2 hq
  by_cases hbefore : s.flock i = some q
  · rcases hM q hbefore with hasking | hheld
    · by_cases hqe : q = e.pid
      · subst hqe
        cases step_claims hstep with
        | stays hlock hholds _ _ _ hnamed =>
          refine .inl (asking_of hlock' ?_ fun hu => ?_)
          · rw [hholds, hasking]
            rfl
          · have := hnamed i hu
            rw [hasking] at this
            cases this
        | creates _ hout =>
          rw [hasking] at hout
          cases hout
        | takes _ _ _ hopened =>
          rw [hasking] at hopened
          cases hopened
        | drops _ _ hout =>
          rw [hout] at hlock'
          cases hlock'
        | unnames _ hunbound =>
          rw [hasking] at hunbound
          cases hunbound
      · exact .inl (by rw [(step_touches hstep).others q hqe, hasking])
    · exact .inr hheld.cons
  · cases step_claims hstep with
    | stays _ _ hflock | creates _ _ _ _ hflock | unnames _ _ _ hflock =>
      rw [hflock] at hq
      exact absurd hq hbefore
    | takes call j _ _ _ hgranted hflock =>
      have hji : i = j := by
        by_contra hne
        rw [hflock, Function.update_of_ne hne] at hq
        exact hbefore hq
      subst hji
      obtain rfl : e.pid = q := by
        rw [hflock, Function.update_self] at hq
        exact Option.some.inj hq
      cases call with
      | liveness => exact .inl hgranted
      | boot => exact .inr ⟨s', List.mem_cons_self, holds_of (i := i) (by rw [hgranted]; rfl)⟩
    | drops j _ _ hflock =>
      by_cases hji : i = j
      · rw [hflock, hji, Function.update_self] at hq
        cases hq
      · rw [hflock, Function.update_of_ne hji] at hq
        exact absurd hq hbefore

namespace Known

/-- A step of another process. -/
theorem aside (h : Known M s g) (hs : s ∈ M) (hkept : s.Kept) (hkept' : s'.Kept)
    (hnum : s.Numbered) (hstep : s.Step e s') : Known (s' :: M) s' g := by
  cases g with
  | opened call i =>
    rcases h with hnamed | ⟨hfree, hlockers, htold⟩
    · by_cases hnamed' : s'.pidfile = some i
      · exact .inl hnamed'
      · cases step_claims hstep with
        | stays _ _ _ hpidfile | takes _ _ _ _ _ _ _ hpidfile | drops _ _ _ _ hpidfile =>
          rw [hpidfile] at hnamed'
          exact absurd hnamed hnamed'
        | creates _ _ hnone =>
          rw [hnone] at hnamed
          cases hnamed
        | unnames j hunbound _ hflock hpidfile =>
          -- the teardown unlinks the file the call has open: its holder is the
          -- one that tears down, and nobody holds the home right after
          have hholds : (s.stage e.pid).holds = some j := by rw [hunbound]; rfl
          obtain rfl : i = j := Option.some.inj (hnamed.symm.trans (hkept.named _ _ hholds))
          refine .inr ⟨⟨s', List.mem_cons_self, hkept'.free hpidfile⟩, fun q hq => .inr ?_, ?_⟩
          · rw [hflock] at hq
            have hheld := (hkept.locked e.pid i).1 (Stage.lock_of_holds hholds)
            obtain rfl : e.pid = q := Option.some.inj (hheld.symm.trans hq)
            exact ⟨s, List.mem_cons_of_mem _ hs, holds_of hholds⟩
          · intro k r hk
            rw [hpidfile] at hk
            cases hk
    · exact .inr ⟨hfree.cons, fun q hq => step_lockers hkept hstep hlockers hq,
        htold.step hs hnum hstep⟩
  | refused call =>
    obtain ⟨⟨q, hq⟩, htold⟩ := h
    exact ⟨⟨q, hq.cons⟩, fun hcall => (htold hcall).step hs hnum hstep⟩
  | reading call i =>
    obtain ⟨⟨q, hq⟩, hread⟩ := h
    refine ⟨⟨q, hq.cons⟩, fun hcall r hr => ?_⟩
    rcases (step_touches hstep).contents i r hr with hold | ⟨rfl, hholds⟩
    · exact (hread hcall r hold).cons
    · exact ⟨s, List.mem_cons_of_mem _ hs, holds_of hholds⟩
  | asking i => exact Free.cons h
  | _ => trivial

/-- A process that is refused a lock is refused it by one that has held the
home, unless by a liveness call. -/
theorem held_of_refused (h : Known M s (.opened call i)) (hs : s ∈ M) (hkept : s.Kept)
    (hnum : s.Numbered) (hq : s.flock i = some q) (hasking : s.stage q ≠ .asking i) :
    HeldBy M q := by
  rcases h with hnamed | ⟨-, hlockers, -⟩
  · have hlock := (hkept.locked q i).2 hq
    cases hholds : (s.stage q).holds with
    | some j => exact ⟨s, hs, holds_of hholds⟩
    | none =>
      have hleft : s.stage q ≠ .unnamed i := fun hu => hnum.left q i hu hnamed
      exact absurd (asking_of hlock hholds hleft) hasking
  · rcases hlockers q hq with hask | hheld
    · exact absurd hask hasking
    · exact hheld

/-- A step of the call itself. -/
theorem own (h : Known M s (s.stage e.pid)) (hs : s ∈ M) (hkept : s.Kept) (hnum : s.Numbered)
    (hplain : s.Plain e) (hstep : s.Step e s') : Known (s' :: M) s' (s'.stage e.pid) := by
  have harrives := step_arrives hstep
  cases hg : s'.stage e.pid with
  | opened call i =>
    rw [hg] at harrives
    exact .inl harrives.2
  | refused call =>
    rw [hg] at harrives
    obtain ⟨i, q, hact, hopened, hq⟩ := harrives
    rw [hopened] at h
    have hheld : s.stage q ≠ .asking i := by
      cases call with
      | boot => exact hplain.boot hact i (by rw [hopened]; rfl) q hq
      | liveness => exact (hplain.liveness hact i (by rw [hopened]; rfl) q hq).1
    have hq' := h.held_of_refused hs hkept hnum hq hheld
    refine ⟨⟨q, hq'.cons⟩, ?_⟩
    rintro rfl
    have htold : Told M s := by
      rcases h with hnamed | ⟨-, -, htold⟩
      · -- the path leads to the file that was tried
        intro j r hj hr
        obtain rfl : i = j := Option.some.inj (hnamed.symm.trans hj)
        rcases (hplain.liveness hact i (by rw [hopened]; rfl) q hq).2 with hblank | hown
        · rw [hblank] at hr
          cases hr
        · obtain rfl : q = r := Option.some.inj (hown.symm.trans hr)
          exact hq'
      · exact htold
    exact htold.step hs hnum hstep
  | reading call i =>
    rw [hg] at harrives
    obtain ⟨-, hrefused, hpidfile⟩ := harrives
    rw [hrefused] at h
    obtain ⟨⟨q, hq⟩, htold⟩ := h
    refine ⟨⟨q, hq.cons⟩, fun hcall r hr => ?_⟩
    rcases (step_touches hstep).contents i r hr with hold | ⟨rfl, hholds⟩
    · exact (htold hcall i r hpidfile hold).cons
    · exact ⟨s, List.mem_cons_of_mem _ hs, holds_of hholds⟩
  | asking i =>
    rw [hg] at harrives
    obtain ⟨-, hopened, hfree⟩ := harrives
    rw [hopened] at h
    rcases h with hnamed | ⟨hM, -, -⟩
    · exact ⟨s, List.mem_cons_of_mem _ hs, hkept.free_of_unlocked hnamed hfree⟩
    · exact hM.cons
  | _ => trivial

end Known

/-- What a run keeps of the claim and of every call in it. -/
structure Watched (h : List (Home × Event)) (s : Home) : Prop where
  kept : s.Kept
  numbered : s.Numbered
  known : ∀ p, Known (since (Event.Begins p) h s) s (s.stage p)

theorem Watched.step {h : List (Home × Event)} (hw : Watched h s) (hplain : s.Plain e)
    (hstep : s.Step e s') : Watched (h ++ [(s, e)]) s' := by
  have hkept' := hw.kept.step hplain.current hstep
  refine ⟨hkept', hw.numbered.step hstep, fun p => ?_⟩
  by_cases hp : p = e.pid
  · subst hp
    by_cases hopens : e.act.isOpen = true
    · -- a call that begins has the path's file open, whatever came before
      obtain ⟨call, i, hopened⟩ := step_opens hstep hopens
      have harrives := step_arrives hstep
      rw [hopened] at harrives ⊢
      exact .inl harrives.2
    · rw [since_snoc fun hb => hopens hb.2]
      exact (hw.known e.pid).own mem_since hw.kept hw.numbered hplain hstep
  · have hbegins : ¬ Event.Begins p e := fun hb => hp hb.1.symm
    rw [since_snoc hbegins, (step_touches hstep).others p hp]
    exact (hw.known p).aside mem_since hw.kept hkept' hw.numbered hstep

end Home

end Boot

end Shep

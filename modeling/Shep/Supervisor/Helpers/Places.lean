import Shep.Supervisor.Helpers.Turning

/-!
# Supervisor — one instance to a number

An instance that is there to stay is one no reload is draining and no
command has asked to leave. `Places` says that no two such instances of an
app share a number, with what a turn needs to keep it so: nobody but the
replacement takes the number of an instance a swap may still give back, and
an instance left draining by a swap that is over has been asked to go. It
is proved of moves and carried along every run, whatever the messages.
-/

namespace Shep

namespace Supervisor

/-- The app and the number of an instance. -/
def SheepSlot.place (s : SheepSlot) : String × ℕ := (s.name, s.entry.inst)

/-- The exit being handled takes `id` off the flock, whatever else it does:
a delete was pending, or the swap it was to replace an instance in has not
committed. -/
def Hole.Loses (c : Turn) (x : Hole) (id : ℕ) : Prop :=
  ∃ taken, x = .exiting id taken ∧
    (taken.pendingDelete = true ∨ taken.entry.reload = .replacement ∧ c.Uncommitted id)

/-- The instance is there to stay. -/
structure SheepSlot.Stays (c : Turn) (x : Hole) (id : ℕ) (s : SheepSlot) : Prop where
  undrained : ∀ q, s.entry.reload ≠ .drainee q
  undeleted : s.pendingDelete = false
  kept : ¬ x.Loses c id

/-- The instance is on its way out: a reload drains it, or a delete waits
for its exit. -/
def SheepSlot.Leaves (s : SheepSlot) : Prop :=
  (∃ q, s.entry.reload = .drainee q) ∨ s.pendingDelete = true

theorem SheepSlot.stays_of_not_leaves {s : SheepSlot} (h : ¬ s.Leaves) (c : Turn) (id : ℕ) :
    s.Stays c .none id := by
  refine ⟨fun q hr => h (Or.inl ⟨q, hr⟩), ?_, fun ⟨_, e, _⟩ => by cases e⟩
  cases hd : s.pendingDelete with
  | false => rfl
  | true => exact absurd (Or.inr hd) h

/-- A swap that may still give its instance back. -/
def ReloadSwap.Open (swap : ReloadSwap) : Prop :=
  swap.phase = .drainFirst ∨ swap.phase = .awaitReady

/-- **Every number is one instance's.** -/
structure Places (c : Turn) (x : Hole) (sheep : Std.ExtTreeMap ℕ SheepSlot)
    (reloads : Std.ExtTreeMap String ReloadJob) (down : Bool) : Prop where
  apart : ∀ (i j : ℕ) (s t : SheepSlot), sheep[i]? = some s → sheep[j]? = some t →
    s.place = t.place → s.Stays c x i → t.Stays c x j → i = j
  vacated : ∀ (n : String) (job : ReloadJob) (s t : SheepSlot) (j : ℕ), reloads[n]? = some job →
    job.swap.Open → sheep[job.swap.oldId]? = some s → sheep[j]? = some t → t.place = s.place →
    t.Stays c x j → j = job.swap.oldId ∨ job.swap.newId = some j
  asked : ∀ (id : ℕ) (s : SheepSlot) (q : Option ℕ), sheep[id]? = some s →
    s.entry.reload = .drainee q → x.Spares id → down = false →
    (∀ (n : String) (job : ReloadJob), reloads[n]? = some job → job.swap.oldId = id →
      ¬ job.swap.Open) → s.manual.isSome = true
  reaped : ∀ (n : String) (job : ReloadJob), reloads[n]? = some job → job.swap.phase = .verify →
    sheep[job.swap.oldId]? = none
  starting : ∀ (n : String) (job : ReloadJob) (k : ℕ) (t : SheepSlot), reloads[n]? = some job →
    job.swap.phase = .awaitReady → job.swap.newId = some k →
    (sheep[job.swap.oldId]?).isSome = true → sheep[k]? = some t →
    (x.Spares k → t.entry.reload = .replacement ∨ t.pendingDelete = true) ∧
    ∀ taken, x = .exiting k taken →
      taken.entry.reload = .replacement ∨ taken.pendingDelete = true
  found : ∀ (n : String) (job : ReloadJob) (k : ℕ) (taken : SheepSlot), x = .exiting k taken →
    reloads[n]? = some job → job.swap.phase = .awaitReady → job.swap.newId = some k →
    c.Uncommitted k

/-- What becomes of each slot keeps its place, its half of a swap and its
claims. -/
def Follows (sheep sheep' : Std.ExtTreeMap ℕ SheepSlot) : Prop :=
  ∀ (id : ℕ) (s' : SheepSlot), sheep'[id]? = some s' → ∃ s, sheep[id]? = some s ∧
    s'.place = s.place ∧ s'.entry.reload = s.entry.reload ∧
    (s.pendingDelete = true → s'.pendingDelete = true) ∧
    (s.manual.isSome = true → s'.manual.isSome = true)

namespace Follows

variable {sheep : Std.ExtTreeMap ℕ SheepSlot} {id : ℕ} {s s' : SheepSlot}

theorem insert (hs : sheep[id]? = some s) (hplace : s'.place = s.place)
    (hreload : s'.entry.reload = s.entry.reload)
    (hdel : s.pendingDelete = true → s'.pendingDelete = true)
    (hman : s.manual.isSome = true → s'.manual.isSome = true) :
    Follows sheep (sheep.insert id s') := by
  intro j t ht
  rcases Table.of_insert ht with ⟨e, rfl⟩ | ⟨-, ht⟩
  · exact ⟨s, e ▸ hs, hplace, hreload, hdel, hman⟩
  · exact ⟨t, ht, rfl, rfl, fun h => h, fun h => h⟩

theorem erase (sheep : Std.ExtTreeMap ℕ SheepSlot) (id : ℕ) : Follows sheep (sheep.erase id) := by
  intro j t ht
  obtain ⟨-, ht⟩ := Table.of_erase ht
  exact ⟨t, ht, rfl, rfl, fun h => h, fun h => h⟩

theorem map {f : SheepSlot → SheepSlot}
    (hf : ∀ (id : ℕ) (s : SheepSlot), sheep[id]? = some s → (f s).place = s.place ∧
      (f s).entry.reload = s.entry.reload ∧
      (s.pendingDelete = true → (f s).pendingDelete = true) ∧
      (s.manual.isSome = true → (f s).manual.isSome = true)) :
    Follows sheep (sheep.map fun _ s => f s) := by
  intro j t ht
  rw [Table.get_map, Option.map_eq_some_iff] at ht
  obtain ⟨s, hs, rfl⟩ := ht
  exact ⟨s, hs, hf j s hs⟩

theorem agrees (hs : sheep[id]? = some s) (h : s.Agrees s') : Follows sheep (sheep.insert id s') :=
  .insert hs (Prod.ext h.name h.inst) h.reload (fun hd => h.pendingDelete.trans hd)
    fun hm => by rw [h.manual]; exact hm

theorem none {sheep' : Std.ExtTreeMap ℕ SheepSlot} (h : Follows sheep sheep')
    (hnone : sheep[id]? = .none) : sheep'[id]? = .none := by
  cases hs' : sheep'[id]? with
  | none => rfl
  | some s' =>
    obtain ⟨s, hs, -⟩ := h id s' hs'
    rw [hnone] at hs
    cases hs

end Follows

namespace Places

variable {c c' : Turn} {x y : Hole} {a : Actor}
variable {sheep sheep' : Std.ExtTreeMap ℕ SheepSlot} {reloads : Std.ExtTreeMap String ReloadJob}
variable {down : Bool} {id : ℕ} {s s' t : SheepSlot} {n : String} {job job' : ReloadJob}

/-! ## The parts of it under a write -/

/-- Writes that keep every place, every mark and every claim. -/
theorem follow (h : Places c x sheep reloads down) (hf : Follows sheep sheep') :
    Places c x sheep' reloads down := by
  have hstays : ∀ {j : ℕ} {t t' : SheepSlot}, t'.entry.reload = t.entry.reload →
      (t.pendingDelete = true → t'.pendingDelete = true) → t'.Stays c x j → t.Stays c x j := by
    intro j t t' hreload hdel ht'
    refine ⟨fun q => hreload ▸ ht'.undrained q, ?_, ht'.kept⟩
    cases hd : t.pendingDelete with
    | false => rfl
    | true => exact absurd (hdel hd) (by simp [ht'.undeleted])
  refine ⟨fun i j s' t' hs' ht' hplace hi hj => ?_, fun n job s' t' j hj hopen hs' ht' hplace hst => ?_,
    fun id s' q hs' hr hx hd hjobs => ?_, fun n job hj hphase => hf.none (h.reaped n job hj hphase),
    fun n job k t' hj hphase hnew hold ht' => ?_, h.found⟩
  · obtain ⟨s, hs, hsp, hsr, hsd, -⟩ := hf i s' hs'
    obtain ⟨t, ht, htp, htr, htd, -⟩ := hf j t' ht'
    exact h.apart i j s t hs ht (hsp.symm.trans (hplace.trans htp)) (hstays hsr hsd hi)
      (hstays htr htd hj)
  · obtain ⟨s, hs, hsp, -⟩ := hf _ s' hs'
    obtain ⟨t, ht, htp, htr, htd, -⟩ := hf j t' ht'
    exact h.vacated n job s t j hj hopen hs ht (htp.symm.trans (hplace.trans hsp))
      (hstays htr htd hst)
  · obtain ⟨s, hs, -, hsr, -, hsm⟩ := hf id s' hs'
    exact hsm (h.asked id s q hs (hsr ▸ hr) hx hd hjobs)
  · obtain ⟨s', hs'⟩ := Option.isSome_iff_exists.1 hold
    obtain ⟨s, hs, -⟩ := hf _ s' hs'
    obtain ⟨t, ht, -, htr, htd, -⟩ := hf k t' ht'
    obtain ⟨hspared, htaken⟩ := h.starting n job k t hj hphase hnew (by simp [hs]) ht
    exact ⟨fun hx => (hspared hx).imp (fun e => htr.trans e) htd, htaken⟩

theorem hole (h : Places c x sheep reloads down) (hx : ∀ id, x.Spares id)
    (hy : ∀ id, y.Spares id) : Places c' y sheep reloads down := by
  have hkept : ∀ (c : Turn) (x : Hole), (∀ id, x.Spares id) → ∀ id, ¬ x.Loses c id := by
    rintro c x hx id ⟨taken, e, -⟩
    exact hx id taken e
  have hstays : ∀ {j : ℕ} {t : SheepSlot}, t.Stays c' y j → t.Stays c x j :=
    fun ht => ⟨ht.undrained, ht.undeleted, hkept c x hx _⟩
  exact
    { apart := fun i j s t hs ht hp hi hj => h.apart i j s t hs ht hp (hstays hi) (hstays hj)
      vacated := fun n job s t j hj ho hs ht hp hst => h.vacated n job s t j hj ho hs ht hp (hstays hst)
      asked := fun id s q hs hr _ hd hjobs => h.asked id s q hs hr (hx id) hd hjobs
      reaped := h.reaped
      starting := fun n job k t hj hp hnew ho ht =>
        ⟨fun _ => (h.starting n job k t hj hp hnew ho ht).1 (hx k), fun taken e => absurd e (hy k taken)⟩
      found := fun n job k taken e => absurd e (hy k taken) }

/-- An instance seated alone in its place, out of every swap. -/
theorem seat (h : Places c .none sheep reloads down) (hreload : s'.entry.reload = .none)
    (hspare : ∀ (j : ℕ) (t : SheepSlot), sheep[j]? = some t → t.place = s'.place → j = id)
    (hnew : ∀ (n : String) (job : ReloadJob), reloads[n]? = some job → job.swap.phase = .awaitReady →
      job.swap.newId = some id → job.swap.oldId ≠ id ∧ sheep[job.swap.oldId]? = none)
    (hold : ∀ (n : String) (job : ReloadJob), reloads[n]? = some job → job.swap.oldId = id →
      (sheep[id]?).isSome = true) :
    Places c .none (sheep.insert id s') reloads down := by
  have hread : ∀ (j : ℕ) (t : SheepSlot), (sheep.insert id s')[j]? = some t →
      j = id ∧ t = s' ∨ j ≠ id ∧ sheep[j]? = some t :=
    fun _ _ ht => (Table.of_insert ht).imp_left (And.imp_right Eq.symm)
  refine ⟨fun i j s t hs ht hplace hi hj => ?_, fun n job s t j hj hopen hs ht hplace hst => ?_,
    fun k s q hs hr hx hd hjobs => ?_, fun n job hj hphase => ?_,
    fun n job k t hj hphase hk ho ht => ?_, fun n job k taken e => by cases e⟩
  · rcases hread i s hs with ⟨rfl, rfl⟩ | ⟨hi', hs⟩ <;>
      rcases hread j t ht with ⟨rfl, rfl⟩ | ⟨hj', ht⟩
    · rfl
    · exact (hspare j t ht hplace.symm).symm
    · next hs' => exact hspare i s hs' hplace
    · exact h.apart i j s t ‹_› ht hplace hi hj
  · rcases hread _ s hs with ⟨e, rfl⟩ | ⟨ho, hs⟩ <;>
      rcases hread j t ht with ⟨rfl, rfl⟩ | ⟨hj', ht⟩
    · exact Or.inl e.symm
    · exact Or.inl ((hspare j t ht hplace).trans e.symm)
    · next hs' => exact absurd (hspare _ s hs' hplace.symm) ho
    · exact h.vacated n job s t j hj hopen ‹_› ht hplace hst
  · rcases hread k s hs with ⟨-, rfl⟩ | ⟨-, hs⟩
    · rw [hreload] at hr
      cases hr
    · exact h.asked k s q hs hr hx hd hjobs
  · have hgone := h.reaped n job hj hphase
    rw [Table.get_insert]
    split
    · next e =>
      have hreg := hold n job hj e
      rw [← e, hgone] at hreg
      cases hreg
    · exact hgone
  · rw [Table.get_insert] at ho
    rcases hread k t ht with ⟨rfl, -⟩ | ⟨-, ht⟩
    · obtain ⟨hne, hgone⟩ := hnew n job hj hphase hk
      simp [hne, hgone] at ho
    · refine h.starting n job k t hj hphase hk ?_ ht
      split at ho
      · next e => exact e ▸ hold n job hj e
      · exact ho

/-- A task ends: its slot is emptied, and its marks are in the hole. -/
theorem exit (h : Places c .none sheep reloads down) (hc : c.before.reloads = reloads)
    (hs : sheep[id]? = some s) (outcome : ExitOutcome) :
    Places c (.exiting id s) (sheep.insert id (s.exited outcome)) reloads down := by
  have hread : ∀ (j : ℕ) (t : SheepSlot), (sheep.insert id (s.exited outcome))[j]? = some t →
      ∃ u, sheep[j]? = some u ∧ t.place = u.place ∧ t.entry.reload = u.entry.reload ∧
        (t.Stays c (.exiting id s) j → u.Stays c .none j) ∧ (j ≠ id → u = t) := by
    intro j t ht
    have hkept : ∀ j, ¬ Hole.none.Loses c j := fun j ⟨_, e, _⟩ => by cases e
    rcases Table.of_insert ht with ⟨e, rfl⟩ | ⟨-, ht⟩
    · subst e
      refine ⟨s, hs, rfl, rfl, fun hst => ⟨hst.undrained, ?_, hkept j⟩, fun hne => absurd rfl hne⟩
      cases hd : s.pendingDelete with
      | false => rfl
      | true => exact absurd ⟨s, rfl, Or.inl hd⟩ hst.kept
    · exact ⟨t, ht, rfl, rfl, fun hst => ⟨hst.undrained, hst.undeleted, hkept j⟩, fun _ => rfl⟩
  refine ⟨fun i j u t hu ht hplace hi hj => ?_, fun n job u t j hj hopen hu ht hplace hst => ?_,
    fun k u q hu hr hx hd hjobs => ?_, fun n job hj hphase => ?_,
    fun n job k t hj hphase hnew hold ht => ?_, fun n job k taken e hj hphase hnew => ?_⟩
  · obtain ⟨u', hu', hup, -, hus, -⟩ := hread i u hu
    obtain ⟨t', ht', htp, -, hts, -⟩ := hread j t ht
    exact h.apart i j u' t' hu' ht' (hup.symm.trans (hplace.trans htp)) (hus hi) (hts hj)
  · obtain ⟨u', hu', hup, -⟩ := hread _ u hu
    obtain ⟨t', ht', htp, -, hts, -⟩ := hread j t ht
    exact h.vacated n job u' t' j hj hopen hu' ht' (htp.symm.trans (hplace.trans hup)) (hts hst)
  · have hne : k ≠ id := fun e => hx s (e ▸ rfl)
    obtain ⟨u', hu', -, hur, -, hsame⟩ := hread k u hu
    exact hsame hne ▸ h.asked k u' q hu' (hur ▸ hr) (Hole.none_spares k) hd hjobs
  · have hgone := h.reaped n job hj hphase
    rw [Table.get_insert, if_neg, hgone]
    rintro e
    rw [e, hs] at hgone
    cases hgone
  · obtain ⟨o, ho⟩ := Option.isSome_iff_exists.1 hold
    obtain ⟨o', ho', -⟩ := hread _ o ho
    obtain ⟨t', ht', -, htr, -, hsame⟩ := hread k t ht
    have hstart := (h.starting n job k t' hj hphase hnew (by simp [ho']) ht').1 (Hole.none_spares k)
    refine ⟨fun hx => ?_, fun taken e => ?_⟩
    · have hne : k ≠ id := fun e => hx s (e ▸ rfl)
      exact hsame hne ▸ hstart
    · obtain ⟨rfl, rfl⟩ := Hole.exiting.inj e
      exact Option.some.inj (hs.symm.trans ht') ▸ hstart
  · obtain ⟨rfl, -⟩ := Hole.exiting.inj e
    exact ⟨n, job, hc ▸ hj, hphase, hnew⟩

/-- An exit is settled: what it was to lose is gone. -/
theorem resolve {taken : SheepSlot} (h : Places c (.exiting id taken) sheep reloads down)
    (hdel : taken.pendingDelete = true → sheep[id]? = none)
    (hreload : ∀ (s : SheepSlot) (q : Option ℕ), sheep[id]? = some s → s.entry.reload ≠ .drainee q)
    (hnew : taken.entry.reload = .replacement → (c.Uncommitted id → sheep[id]? = none) ∧
      ∀ (n : String) (job : ReloadJob), reloads[n]? = some job → job.swap.phase = .awaitReady →
        job.swap.newId ≠ some id) : Places c .none sheep reloads down := by
  have hspares : ∀ j, j ≠ id → (Hole.exiting id taken).Spares j := by
    rintro j hj t e
    exact hj (Hole.exiting.inj e).1.symm
  have hstays : ∀ {j : ℕ} {t : SheepSlot}, sheep[j]? = some t → t.Stays c .none j →
      t.Stays c (.exiting id taken) j := by
    refine fun {j t} ht hst => ⟨hst.undrained, hst.undeleted, ?_⟩
    rintro ⟨taken', e, hlose⟩
    obtain ⟨rfl, rfl⟩ := Hole.exiting.inj e
    have hgone : sheep[id]? = none := hlose.elim hdel fun hr => (hnew hr.1).1 hr.2
    rw [hgone] at ht
    cases ht
  refine ⟨fun i j s t hs ht hp hi hj => h.apart i j s t hs ht hp (hstays hs hi) (hstays ht hj),
    fun n job s t j hj ho hs ht hp hst => h.vacated n job s t j hj ho hs ht hp (hstays ht hst),
    fun k s q hs hr _ hd hjobs => ?_, h.reaped, fun n job k t hj hphase hk ho ht => ?_,
    fun n job k taken' e => by cases e⟩
  · by_cases hk : k = id
    · exact absurd hr (hreload s q (hk ▸ hs))
    · exact h.asked k s q hs hr (hspares k hk) hd hjobs
  · obtain ⟨hspared, htaken⟩ := h.starting n job k t hj hphase hk ho ht
    refine ⟨fun _ => ?_, fun taken' e => by cases e⟩
    by_cases hid : k = id
    · subst hid
      rcases htaken taken rfl with hr | hd
      · exact absurd hk ((hnew hr).2 n job hj hphase)
      · rw [hdel hd] at ht
        cases ht
    · exact hspared (hspares k hid)

/-! ## The parts of it under a change of the jobs -/

/-- A job written over none, or over one that drains the same instance. -/
theorem put (h : Places c x sheep reloads down)
    (hsame : ∀ job, reloads[n]? = some job → job.swap.oldId = job'.swap.oldId)
    (hvacated : job'.swap.Open → ∀ (s t : SheepSlot) (j : ℕ), sheep[job'.swap.oldId]? = some s →
      sheep[j]? = some t → t.place = s.place → t.Stays c x j →
        j = job'.swap.oldId ∨ job'.swap.newId = some j)
    (hasked : ¬ job'.swap.Open → ∀ s, sheep[job'.swap.oldId]? = some s → s.manual.isSome = true)
    (hreaped : job'.swap.phase = .verify → sheep[job'.swap.oldId]? = none)
    (hstarting : job'.swap.phase = .awaitReady → ∀ k, job'.swap.newId = some k →
      sheep[k]? = none ∧ ∀ taken, x ≠ .exiting k taken) :
    Places c x sheep (reloads.insert n job') down := by
  have hread : ∀ (m : String) (job : ReloadJob), (reloads.insert n job')[m]? = some job →
      m = n ∧ job = job' ∨ m ≠ n ∧ reloads[m]? = some job :=
    fun _ _ hj => (Table.of_insert hj).imp_left (And.imp_right Eq.symm)
  refine ⟨h.apart, fun m job s t j hj hopen hs ht hp hst => ?_,
    fun k s q hs hr hx hd hjobs => ?_, fun m job hj hphase => ?_,
    fun m job k t hj hphase hk ho ht => ?_, fun m job k taken e hj hphase hk => ?_⟩
  · rcases hread m job hj with ⟨-, rfl⟩ | ⟨-, hj⟩
    · exact hvacated hopen s t j hs ht hp hst
    · exact h.vacated m job s t j hj hopen hs ht hp hst
  · by_cases hk : job'.swap.oldId = k
    · exact hasked (hjobs n job' (by simp) hk) s (hk ▸ hs)
    · refine h.asked k s q hs hr hx hd fun m job hj hold => hjobs m job ?_ hold
      rw [Table.get_insert, if_neg]
      · exact hj
      · rintro rfl
        exact hk ((hsame job hj).symm.trans hold)
  · rcases hread m job hj with ⟨-, rfl⟩ | ⟨-, hj⟩
    · exact hreaped hphase
    · exact h.reaped m job hj hphase
  · rcases hread m job hj with ⟨-, rfl⟩ | ⟨-, hj⟩
    · rw [(hstarting hphase k hk).1] at ht
      cases ht
    · exact h.starting m job k t hj hphase hk ho ht
  · rcases hread m job hj with ⟨-, rfl⟩ | ⟨-, hj⟩
    · exact absurd e ((hstarting hphase k hk).2 taken)
    · exact h.found m job k taken e hj hphase hk

/-- A job ended: committed, or with nobody left to give back. -/
theorem drop (h : Places c x sheep reloads down)
    (hdrop : ∀ job, reloads[n]? = some job → ¬ job.swap.Open ∨ sheep[job.swap.oldId]? = none ∨
      ∃ taken, x = .exiting job.swap.oldId taken) : Places c x sheep (reloads.erase n) down := by
  have hread : ∀ (m : String) (job : ReloadJob), (reloads.erase n)[m]? = some job →
      reloads[m]? = some job :=
    fun _ _ hj => (Table.of_erase hj).2
  refine ⟨h.apart, fun m job s t j hj => h.vacated m job s t j (hread m job hj),
    fun k s q hs hr hx hd hjobs => ?_, fun m job hj => h.reaped m job (hread m job hj),
    fun m job k t hj => h.starting m job k t (hread m job hj),
    fun m job k taken e hj => h.found m job k taken e (hread m job hj)⟩
  refine h.asked k s q hs hr hx hd fun m job hj hold => ?_
  by_cases hm : m = n
  · subst hm
    rcases hdrop job hj with hclosed | hgone | ⟨taken, e⟩
    · exact hclosed
    · rw [hold, hs] at hgone
      cases hgone
    · exact absurd (hold ▸ e) (hx taken)
  · refine hjobs m job ?_ hold
    rw [Table.get_erase, if_neg hm]
    exact hj

/-! ## Swaps -/

/-- A slot is rewritten in its place. -/
theorem rewrite (h : Places c x sheep reloads down) (hs : sheep[id]? = some s)
    (hplace : s'.place = s.place) (hstays : s'.Stays c x id → s.Stays c x id)
    (hasked : x.Spares id → ∀ q, s'.entry.reload = .drainee q →
      ∃ (n : String) (job : ReloadJob), reloads[n]? = some job ∧
        job.swap.oldId = id ∧ job.swap.Open)
    (hstarting : ∀ (n : String) (job : ReloadJob), reloads[n]? = some job →
      job.swap.phase = .awaitReady → job.swap.newId = some id →
      (sheep[job.swap.oldId]?).isSome = true → x.Spares id →
      s'.entry.reload = .replacement ∨ s'.pendingDelete = true) :
    Places c x (sheep.insert id s') reloads down := by
  have hread : ∀ (j : ℕ) (t : SheepSlot), (sheep.insert id s')[j]? = some t →
      ∃ u, sheep[j]? = some u ∧ t.place = u.place ∧ (t.Stays c x j → u.Stays c x j) ∧
        (j = id ∧ t = s' ∨ j ≠ id ∧ u = t) := by
    intro j t ht
    rcases Table.of_insert ht with ⟨rfl, rfl⟩ | ⟨hne, ht⟩
    · exact ⟨s, hs, hplace, hstays, Or.inl ⟨rfl, rfl⟩⟩
    · exact ⟨t, ht, rfl, fun hst => hst, Or.inr ⟨hne, rfl⟩⟩
  refine ⟨fun i j u t hu ht hp hi hj => ?_, fun n job u t j hj hop hu ht hp hst => ?_,
    fun k u q hu hq hx hd hjobs => ?_, fun n job hj hphase => ?_,
    fun n job k t hj hphase hk hold ht => ?_, h.found⟩
  · obtain ⟨u', hu', hup, hus, -⟩ := hread i u hu
    obtain ⟨t', ht', htp, hts, -⟩ := hread j t ht
    exact h.apart i j u' t' hu' ht' (hup.symm.trans (hp.trans htp)) (hus hi) (hts hj)
  · obtain ⟨u', hu', hup, -⟩ := hread _ u hu
    obtain ⟨t', ht', htp, hts, -⟩ := hread j t ht
    exact h.vacated n job u' t' j hj hop hu' ht' (htp.symm.trans (hp.trans hup)) (hts hst)
  · obtain ⟨u', hu', -, -, ⟨rfl, rfl⟩ | ⟨-, rfl⟩⟩ := hread k u hu
    · obtain ⟨n, job, hj, hold, hop⟩ := hasked hx q hq
      exact absurd hop (hjobs n job hj hold)
    · exact h.asked k u' q hu' hq hx hd hjobs
  · have hgone := h.reaped n job hj hphase
    rw [Table.get_insert, if_neg, hgone]
    rintro e
    rw [e, hs] at hgone
    cases hgone
  · obtain ⟨o, ho⟩ := Option.isSome_iff_exists.1 hold
    obtain ⟨o', ho', -⟩ := hread _ o ho
    have hwas : (sheep[job.swap.oldId]?).isSome = true := by rw [ho']; rfl
    obtain ⟨t', ht', -, -, hsame⟩ := hread k t ht
    obtain ⟨hspared, htaken⟩ := h.starting n job k t' hj hphase hk hwas ht'
    refine ⟨fun hx => ?_, htaken⟩
    rcases hsame with ⟨rfl, rfl⟩ | ⟨-, rfl⟩
    · exact hstarting n job hj hphase hk hwas hx
    · exact hspared hx

theorem drain (h : Places c x sheep reloads down) (hs : sheep[id]? = some s) (newId : Option ℕ)
    (hopen : x.Spares id → (∃ (n : String) (job : ReloadJob), reloads[n]? = some job ∧
      job.swap.oldId = id ∧ job.swap.Open) ∧ ∀ (n : String) (job : ReloadJob),
        reloads[n]? = some job → job.swap.newId ≠ some id) :
    Places c x (sheep.insert id (s.draining newId)) reloads down :=
  h.rewrite hs rfl (fun hst => absurd rfl (hst.undrained newId)) (fun hx _ _ => (hopen hx).1)
    fun n job hj _ hnew _ hx => absurd hnew ((hopen hx).2 n job hj)

/-- The replacement of a swap just opened enters its drainee's place. -/
theorem replace (h : Places c x sheep reloads down) (hj : reloads[n]? = some job)
    (hphase : job.swap.phase = .awaitReady) (hnew : job.swap.newId = some id)
    (hs : sheep[job.swap.oldId]? = some s) {q : Option ℕ} (hr : s.entry.reload = .drainee q)
    (hplace : s'.place = s.place) (hr' : s'.entry.reload = .replacement)
    (hfree : sheep[id]? = none) (hx : x.Spares id)
    (hname : ∀ (m : String) (job : ReloadJob) (u : SheepSlot), reloads[m]? = some job →
      sheep[job.swap.oldId]? = some u → u.name = m)
    (hothers : ∀ (m : String) (job : ReloadJob), reloads[m]? = some job → job.swap.oldId ≠ id) :
    Places c x (sheep.insert id s') reloads down := by
  have hread : ∀ (j : ℕ) (t : SheepSlot), (sheep.insert id s')[j]? = some t →
      j = id ∧ t = s' ∨ j ≠ id ∧ sheep[j]? = some t :=
    fun _ _ ht => (Table.of_insert ht).imp_left (And.imp_right Eq.symm)
  have hreg : ∀ (m : String) (job : ReloadJob), reloads[m]? = some job →
      (sheep.insert id s')[job.swap.oldId]? = sheep[job.swap.oldId]? := by
    intro m job hj
    rw [Table.get_insert, if_neg (hothers m job hj)]
  -- nobody else who stays is in the drainee's place
  have halone : ∀ (j : ℕ) (t : SheepSlot), sheep[j]? = some t → t.place = s'.place →
      ¬ t.Stays c x j := by
    intro j t ht hp hst
    rcases h.vacated n job s t j hj (Or.inr hphase) hs ht (hp.trans hplace) hst with rfl | hj'
    · rw [hs] at ht
      exact hst.undrained q (Option.some.inj ht ▸ hr)
    · obtain rfl := Option.some.inj (hnew.symm.trans hj')
      rw [hfree] at ht
      cases ht
  refine ⟨fun i j u t hu ht hp hi hj => ?_, fun m job' u t j hj' hop hu ht hp hst => ?_,
    fun k u q hu hq hx hd hjobs => ?_, fun m job' hj' hphase' => ?_,
    fun m job' k t hj' hphase' hk ho ht => ?_, h.found⟩
  · rcases hread i u hu with ⟨hi', rfl⟩ | ⟨-, hu'⟩ <;>
      rcases hread j t ht with ⟨hj', rfl⟩ | ⟨-, ht'⟩
    · exact hi'.trans hj'.symm
    · exact absurd hj (halone j t ht' hp.symm)
    · exact absurd hi (halone i u hu' hp)
    · exact h.apart i j u t hu' ht' hp hi hj
  · rw [hreg m job' hj'] at hu
    rcases hread j t ht with ⟨rfl, rfl⟩ | ⟨-, ht'⟩
    · have hm : u.name = m := hname m job' u hj' hu
      have hn : s.name = n := hname n job s hj hs
      have hsame : m = n := by
        rw [← hm, ← hn]
        exact (congrArg Prod.fst (hp.symm.trans hplace))
      subst hsame
      exact Or.inr (Option.some.inj (hj.symm.trans hj') ▸ hnew)
    · exact h.vacated m job' u t j hj' hop hu ht' hp hst
  · rcases hread k u hu with ⟨-, rfl⟩ | ⟨-, hu'⟩
    · rw [hr'] at hq
      cases hq
    · exact h.asked k u q hu' hq hx hd hjobs
  · rw [hreg m job' hj']
    exact h.reaped m job' hj' hphase'
  · rw [hreg m job' hj'] at ho
    rcases hread k t ht with ⟨rfl, rfl⟩ | ⟨-, ht'⟩
    · exact ⟨fun _ => Or.inl hr', fun taken e => absurd e (hx taken)⟩
    · exact h.starting m job' k t hj' hphase' hk ho ht'

theorem unmark (h : Places c x sheep reloads down) (hs : sheep[id]? = some s)
    (hplace : s'.place = s.place) (hr : ∀ q, s.entry.reload ≠ .drainee q)
    (hr' : s'.entry.reload = .none) (hdel : s'.pendingDelete = s.pendingDelete)
    (hnew : ∀ (n : String) (job : ReloadJob), reloads[n]? = some job →
      job.swap.phase = .awaitReady → job.swap.newId = some id →
      (sheep[job.swap.oldId]?).isSome = true → x.Spares id → s.pendingDelete = true) :
    Places c x (sheep.insert id s') reloads down := by
  refine h.rewrite hs hplace (fun hst => ⟨hr, hdel ▸ hst.undeleted, hst.kept⟩) ?_ ?_
  · intro _ q hq
    rw [hr'] at hq
    cases hq
  · intro n job hj hphase hk hold hx
    exact Or.inr (hdel.trans (hnew n job hj hphase hk hold hx))

/-- A swap that is given up gives its instance back: its replacement does
not stay. -/
theorem giveBack (h : Places c x sheep reloads down) (hj : reloads[n]? = some job)
    (hopen : job.swap.Open) (hs : sheep[job.swap.oldId]? = some s) (hplace : s'.place = s.place)
    (hr' : s'.entry.reload = .none)
    (hnew : ∀ (k : ℕ) (t : SheepSlot), job.swap.newId = some k → sheep[k]? = some t →
      ¬ t.Stays c x k)
    (hname : ∀ (m : String) (job : ReloadJob) (u : SheepSlot), reloads[m]? = some job →
      sheep[job.swap.oldId]? = some u → u.name = m)
    (hown : ∀ (m : String) (job' : ReloadJob), reloads[m]? = some job' →
      job'.swap.oldId = job.swap.oldId ∨ job'.swap.newId = some job.swap.oldId → m = n) :
    Places c x (sheep.insert job.swap.oldId s') (reloads.erase n) down := by
  have hread : ∀ (j : ℕ) (t : SheepSlot), (sheep.insert job.swap.oldId s')[j]? = some t →
      j = job.swap.oldId ∧ t = s' ∨ j ≠ job.swap.oldId ∧ sheep[j]? = some t :=
    fun _ _ ht => (Table.of_insert ht).imp_left (And.imp_right Eq.symm)
  have hjobs : ∀ (m : String) (job' : ReloadJob), (reloads.erase n)[m]? = some job' →
      m ≠ n ∧ reloads[m]? = some job' ∧ job'.swap.oldId ≠ job.swap.oldId ∧
        job'.swap.newId ≠ some job.swap.oldId := by
    intro m job' hj'
    obtain ⟨hm, hj'⟩ := Table.of_erase hj'
    exact ⟨hm, hj', fun e => hm (hown m job' hj' (Or.inl e)),
      fun e => hm (hown m job' hj' (Or.inr e))⟩
  have hreg : ∀ (m : String) (job' : ReloadJob), (reloads.erase n)[m]? = some job' →
      (sheep.insert job.swap.oldId s')[job'.swap.oldId]? = sheep[job'.swap.oldId]? := by
    intro m job' hj'
    rw [Table.get_insert, if_neg (hjobs m job' hj').2.2.1]
  have halone : ∀ (j : ℕ) (t : SheepSlot), sheep[j]? = some t → t.place = s'.place →
      t.Stays c x j → j = job.swap.oldId := by
    intro j t ht hp hst
    rcases h.vacated n job s t j hj hopen hs ht (hp.trans hplace) hst with e | e
    · exact e
    · exact absurd hst (hnew j t e ht)
  refine ⟨fun i j u t hu ht hp hi hj => ?_, fun m job' u t j hj' hop hu ht hp hst => ?_,
    fun k u q hu hq hx hd hjobs' => ?_, fun m job' hj' hphase => ?_,
    fun m job' k t hj' hphase hk ho ht => ?_,
    fun m job' k taken e hj' => h.found m job' k taken e (hjobs m job' hj').2.1⟩
  · rcases hread i u hu with ⟨hi', rfl⟩ | ⟨-, hu'⟩ <;>
      rcases hread j t ht with ⟨hj', rfl⟩ | ⟨-, ht'⟩
    · exact hi'.trans hj'.symm
    · exact hi'.trans (halone j t ht' hp.symm hj).symm
    · exact (halone i u hu' hp hi).trans hj'.symm
    · exact h.apart i j u t hu' ht' hp hi hj
  · obtain ⟨hm, hj₀, -, -⟩ := hjobs m job' hj'
    rw [hreg m job' hj'] at hu
    rcases hread j t ht with ⟨rfl, rfl⟩ | ⟨-, ht'⟩
    · have hum : u.name = m := hname m job' u hj₀ hu
      have hsn : s.name = n := hname n job s hj hs
      refine absurd ?_ hm
      rw [← hum, ← hsn]
      exact congrArg Prod.fst (hp.symm.trans hplace)
    · exact h.vacated m job' u t j hj₀ hop hu ht' hp hst
  · rcases hread k u hu with ⟨-, rfl⟩ | ⟨hk, hu'⟩
    · rw [hr'] at hq
      cases hq
    · refine h.asked k u q hu' hq hx hd fun m job' hj' hold => ?_
      refine hjobs' m job' ?_ hold
      rw [Table.get_erase, if_neg]
      · exact hj'
      · rintro rfl
        exact hk (hold ▸ Option.some.inj (hj.symm.trans hj') ▸ rfl)
  · rw [hreg m job' hj']
    exact h.reaped m job' (hjobs m job' hj').2.1 hphase
  · obtain ⟨-, hj₀, -, hne⟩ := hjobs m job' hj'
    rw [hreg m job' hj'] at ho
    rcases hread k t ht with ⟨rfl, -⟩ | ⟨-, ht'⟩
    · exact absurd hk hne
    · exact h.starting m job' k t hj₀ hphase hk ho ht'

end Places

/-! ## Every move -/

/-- The places of a point inside a turn. -/
def Point.Placed (c : Turn) (p : Point) : Prop :=
  Places c p.hole p.actor.sheep p.actor.reloads p.actor.shuttingDown

theorem Places.stays_of_replaceable {c : Turn} {a : Actor} {id : ℕ} {s : SheepSlot}
    (h : Places c .none a.sheep a.reloads a.shuttingDown) (hi : Inv .none a)
    (hs : a.sheep[id]? = some s) (hrep : Actor.replaceable s = true)
    (hup : a.shuttingDown = false) (hj : a.reloads[s.name]? = none) : s.Stays c .none id := by
  simp only [Actor.replaceable, Bool.and_eq_true, Option.isNone_iff_eq_none] at hrep
  refine ⟨fun q hr => ?_, ?_, fun ⟨_, e, _⟩ => by cases e⟩
  · have hman := h.asked id s q hs hr (Hole.none_spares id) hup fun n job hj' hold => ?_
    · simp [hrep.2] at hman
    · rw [hi.name_of_named hs hj' (Or.inl hold)] at hj
      rw [hj] at hj'
      cases hj'
  · cases hd : s.pendingDelete with
    | false => rfl
    | true =>
      have hman := ((hi.wellFormed hs).doomed hd).1
      simp [hrep.2] at hman

theorem Inv.drainee_name {x : Hole} {a : Actor} (hi : Inv x a) (m : String) (job : ReloadJob)
    (u : SheepSlot) (hj : a.reloads[m]? = some job) (hu : a.sheep[job.swap.oldId]? = some u) :
    u.name = m :=
  (hi.jobs m job hj).old_name u hu

/-- A slot with no process is the replacement of no swap that could still
give its drainee back. -/
theorem Places.idle_newcomer {c : Turn} {x : Hole} {a : Actor} {id : ℕ} {s : SheepSlot}
    {n : String} {job : ReloadJob} (h : Places c x a.sheep a.reloads a.shuttingDown)
    (hi : Inv x a) (hx : x.Spares id) (hs : a.sheep[id]? = some s) (hctl : s.ctl = none)
    (hj : a.reloads[n]? = some job) (hphase : job.swap.phase = .awaitReady)
    (hnew : job.swap.newId = some id) : a.sheep[job.swap.oldId]? = none := by
  cases hold : a.sheep[job.swap.oldId]? with
  | none => rfl
  | some old =>
    have hlive : s.ctl.isSome = true := by
      rcases (h.starting n job id s hj hphase hnew (by simp [hold]) hs).1 hx with hr | hd
      · exact (hi.marks.marked id s hs hr hx).1
      · exact ((hi.wellFormed hs).doomed hd).2
    simp [hctl] at hlive

/-- A swap's replacement is spawned beside its drainee, whose number is
nobody else's. -/
theorem Places.swap {c : Turn} {x : Hole} {a : Actor} {down : Bool} {oldId : ℕ}
    {s s' : SheepSlot} {n : String} {job' : ReloadJob} (h : Places c x a.sheep a.reloads down)
    (hi : Inv x a) (hx : x.Spares a.nextId) (hs : a.sheep[oldId]? = some s) (hname : s.name = n)
    (hplace : s'.place = s.place) (hr' : s'.entry.reload = .replacement)
    (hjob : ∀ job : ReloadJob, a.reloads[n]? = some job → job.swap.oldId = oldId)
    (halone : ∀ (t : SheepSlot) (j : ℕ), a.sheep[j]? = some t → t.place = s.place →
      t.Stays c x j → j = oldId)
    (hold' : job'.swap.oldId = oldId) (hnew' : job'.swap.newId = some a.nextId)
    (hphase' : job'.swap.phase = .awaitReady) :
    Places c x ((a.sheep.insert oldId (s.draining (some a.nextId))).insert a.nextId s')
      (a.reloads.insert n job') down := by
  have hne : oldId ≠ a.nextId := (hi.lt_nextId hs).ne
  have hopen : job'.swap.Open := Or.inr hphase'
  have hread : ∀ (m : String) (job : ReloadJob), (a.reloads.insert n job')[m]? = some job →
      m = n ∧ job = job' ∨ m ≠ n ∧ a.reloads[m]? = some job :=
    fun _ _ hj => (Table.of_insert hj).imp_left (And.imp_right Eq.symm)
  have hput : Places c x a.sheep (a.reloads.insert n job') down := by
    refine h.put (fun job hj => (hjob job hj).trans hold'.symm)
      (fun _ u t j hu ht hp hst => Or.inl ?_) (fun hclosed => absurd hopen hclosed)
      (fun e => by simp [hphase'] at e) (fun _ k hk => ?_)
    · rw [hold', hs] at hu
      rw [hold']
      exact halone t j ht (Option.some.inj hu ▸ hp) hst
    · obtain rfl := Option.some.inj (hnew'.symm.trans hk)
      exact ⟨hi.fresh_id, hx⟩
  have hdrain : Places c x (a.sheep.insert oldId (s.draining (some a.nextId)))
      (a.reloads.insert n job') down := by
    refine hput.drain hs _ fun _ => ⟨⟨n, job', by simp, hold', hopen⟩, fun m job hj e => ?_⟩
    rcases hread m job hj with ⟨-, rfl⟩ | ⟨hm, hj⟩
    · exact hne (Option.some.inj (hnew'.symm.trans e)).symm
    · exact hm ((hi.name_of_named hs hj (Or.inr (Or.inl e))).symm.trans hname)
  have hjob' : (a.reloads.insert n job')[n]? = some job' := by simp
  have hdrainee : (a.sheep.insert oldId (s.draining (some a.nextId)))[job'.swap.oldId]? =
      some (s.draining (some a.nextId)) := by simp [hold']
  refine hdrain.replace hjob' hphase' hnew' hdrainee rfl hplace hr' ?_ hx ?_ ?_
  · rw [Table.get_insert, if_neg hne.symm]
    exact hi.fresh_id
  · intro m job u hj hu
    rcases Table.of_insert hu with ⟨e, rfl⟩ | ⟨e, hu⟩
    · show s.name = m
      rcases hread m job hj with ⟨rfl, -⟩ | ⟨-, hj⟩
      · exact hname
      · exact hi.name_of_named hs hj (Or.inl e)
    · rcases hread m job hj with ⟨-, rfl⟩ | ⟨-, hj⟩
      · exact absurd hold' e
      · exact hi.drainee_name m job u hj hu
  · intro m job hj
    rcases hread m job hj with ⟨-, rfl⟩ | ⟨-, hj⟩
    · exact hold' ▸ hne
    · exact ((hi.jobs m job hj).old_lt).ne

theorem SheepSlot.restore_place (s : SheepSlot) : s.restore.place = s.place := by
  simp only [SheepSlot.restore]
  split <;> rfl

theorem Places.release {c : Turn} {x : Hole} {a : Actor} {s s' : SheepSlot} {n : String}
    {job : ReloadJob} (h : Places c x a.sheep a.reloads a.shuttingDown) (hi : Inv x a)
    (hj : a.reloads[n]? = some job) (hopen : job.swap.Open)
    (hs : a.sheep[job.swap.oldId]? = some s) (hplace : s'.place = s.place)
    (hr' : s'.entry.reload = .none)
    (hnew : ∀ (k : ℕ) (t : SheepSlot), job.swap.newId = some k → a.sheep[k]? = some t →
      ¬ t.Stays c x k) :
    Places c x (a.sheep.insert job.swap.oldId s') (a.reloads.erase n) a.shuttingDown := by
  refine h.giveBack hj hopen hs hplace hr' hnew hi.drainee_name fun m job' hj' hid => ?_
  have hm : s.name = m := hi.name_of_named hs hj' (hid.imp_right Or.inl)
  exact hm.symm.trans (hi.drainee_name n job s hj hs)

/-- **A move keeps every number one instance's.** -/
theorem Move.placed {c : Turn} {p q : Point} (hm : Move c p q) (hi : Inv p.hole p.actor)
    (h : p.Placed c) : q.Placed c := by
  cases hm with
  | quiet | bump | hear | drains | answer | park | halt | disable | enable | expire | unwatch |
    panic | assertFail => exact h
  | fire => exact h.hole Hole.none_spares (Hole.due_spares · _)
  | honour => exact h.hole (Hole.due_spares · _) Hole.none_spares
  | edit s' hs hag => exact h.follow (.agrees hs hag)
  | editAll f hf =>
    refine h.follow (.map fun id s hs => ?_)
    have hag := hf id s hs
    exact ⟨Prod.ext hag.name hag.inst, hag.reload, fun hd => hag.pendingDelete.trans hd,
      fun hman => by rw [hag.manual]; exact hman⟩
  | rest hs _ hrest | backOff _ hs _ hrest =>
    exact h.follow (.insert hs (Prod.ext hrest.name hrest.inst) hrest.reload
      (fun hd => hrest.pendingDelete.trans hd) fun hman => by rw [hrest.manual]; exact hman)
  | relaunch hs _ hrel =>
    exact h.follow (.insert hs (Prod.ext hrel.name hrel.inst) hrel.reload
      (fun hd => hrel.pendingDelete.trans hd) fun hman => by rw [hrel.manual]; exact hman)
  | claim m cap hs | displace m cap hs =>
    exact h.follow (.insert hs rfl rfl (fun hd => by simp [hd]) fun _ => rfl)
  | doom hs => exact h.follow (.insert hs rfl rfl (fun _ => rfl) fun hman => hman)
  | remarkStop | remarkRestart =>
    refine h.follow (.map fun id s _ => ?_)
    split
    · exact ⟨rfl, rfl, fun hd => hd, fun _ => rfl⟩
    · exact ⟨rfl, rfl, fun hd => hd, fun hman => hman⟩
  | deregister => exact h.follow (.erase _ _)
  | @register a s hs _ _ _ hspare | @launch a s pid credentials hs _ _ _ _ _ _ hspare =>
    exact h.seat hs.reload
      (fun j t ht hp => hspare j t ht (congrArg Prod.fst hp) (congrArg Prod.snd hp))
      (fun n job hj _ hnew => absurd (Or.inr (Or.inl hnew)) (hi.not_named_fresh hj))
      fun n job hj hold => absurd (Or.inl hold) (hi.not_named_fresh hj)
  | @reseat a id s s' hs hctl hfresh _ _ _ _ _ _ _ _ hspare
  | @reseatLive a id pid s s' credentials hs hctl hfresh _ _ _ _ _ _ _ _ _ hspare =>
    exact h.seat hfresh.reload
      (fun j t ht hp => hspare j t ht (congrArg Prod.fst hp) (congrArg Prod.snd hp))
      (fun n job hj hphase hnew => ⟨fun e => (hi.jobs n job hj).distinct (e ▸ hnew),
        h.idle_newcomer hi (Hole.none_spares id) hs hctl hj hphase hnew⟩)
      fun n job hj hold => by simp [hs]
  | exit task outcome hc _ _ hs => exact h.exit (by rw [hc]) hs outcome
  | resolve info hset _ hreload hnew =>
    rw [Point.Placed, Actor.resolvePending_eq]
    exact h.resolve hset.1 hreload hnew
  | @beginOverlap a n oldId pid s s' queue credentials hs hname hrep _ hup hj hrepl =>
    have hst : s.Stays c .none oldId := h.stays_of_replaceable hi hs hrep hup (hname ▸ hj)
    refine h.swap hi (Hole.none_spares _) hs hname (Prod.ext hrepl.name hrepl.inst) hrepl.reload
      (fun job hj' => ?_) (fun t j ht hp hst' => h.apart j oldId t s ht hs hp hst' hst) rfl rfl rfl
    rw [hj] at hj'
    cases hj'
  | @putBack a oldId s hs hrep hj hup =>
    refine h.unmark hs rfl (h.stays_of_replaceable hi hs hrep hup hj).undrained rfl rfl ?_
    intro n job hj' _ hnew
    rw [hi.name_of_named hs hj' (Or.inr (Or.inl hnew)), hj'] at hj
    cases hj
  | @beginSerial a n oldId s queue hs hname hrep hup hj =>
    have hst : s.Stays c .none oldId := h.stays_of_replaceable hi hs hrep hup (hname ▸ hj)
    have hput : Places c .none a.sheep (a.reloads.insert n
        ⟨queue, .serial, ⟨oldId, none, .drainFirst⟩, a.nextDeadline⟩) a.shuttingDown := by
      refine h.put (fun job hj' => ?_) (fun _ u t j hu ht hp hst' => Or.inl ?_)
        (fun hclosed => absurd (Or.inl rfl) hclosed) (fun e => by cases e) fun e => by cases e
      · rw [hj] at hj'
        cases hj'
      · obtain rfl := Option.some.inj (hs.symm.trans hu)
        exact h.apart j oldId t s ht hs hp hst' hst
    refine hput.drain hs _ fun _ => ⟨⟨n, ⟨queue, .serial, ⟨oldId, none, .drainFirst⟩,
      a.nextDeadline⟩, by simp, rfl, Or.inl rfl⟩, fun m job hj' e => ?_⟩
    rcases Table.of_insert hj' with ⟨-, rfl⟩ | ⟨hm, hj'⟩
    · cases e
    · exact hm ((hi.name_of_named hs hj' (Or.inr (Or.inl e))).symm.trans hname)
  | @serialSpawn a n oldId pid s s' taken job credentials hs hname _ hj hphase hold _ hrepl =>
    have hnone : job.swap.newId = none := (hi.jobs n job hj).phase.2 hphase
    subst hold
    refine h.swap hi (fun t e => ?_) hs hname (Prod.ext hrepl.name hrepl.inst) hrepl.reload
      (fun job' hj' => ?_) (fun t j ht hp hst => ?_) rfl rfl rfl
    · exact (hi.lt_nextId hs).ne (Hole.exiting.inj e).1
    · rw [Option.some.inj (hj.symm.trans hj')]
    · refine (h.vacated n job s t j hj (Or.inl hphase) hs ht hp hst).resolve_right fun e => ?_
      rw [hnone] at e
      cases e
  | scratch hs => exact h.drain hs _ fun hx => absurd rfl (hx _)
  | @commit x a n job newId hj hnew _ _ hman =>
    refine h.put (fun job' hj' => by rw [Option.some.inj (hj.symm.trans hj')])
      (fun ho => ?_) (fun _ => hman) (fun e => by cases e) fun e => by cases e
    rcases ho with e | e <;> cases e
  | @verify a n job newId s hj _ _ _ hgone =>
    refine h.put (fun job' hj' => by rw [Option.some.inj (hj.symm.trans hj')])
      (fun ho => ?_) (fun _ u hu => ?_) (fun _ => hgone) fun e => by cases e
    · rcases ho with e | e <;> cases e
    · rw [hgone] at hu
      cases hu
  | drop n _ hdrop =>
    refine h.drop fun job hj => ?_
    rcases hdrop job hj with e | e | hgone | hx
    · exact Or.inl (by simp [ReloadSwap.Open, e])
    · exact Or.inl (by simp [ReloadSwap.Open, e])
    · exact Or.inr (Or.inl hgone)
    · exact Or.inr (Or.inr hx)
  | @unmark x a id s hs _ hr hnew =>
    refine h.unmark hs rfl hr rfl rfl fun n job hj hphase hk hold hx => ?_
    refine (hnew n job hj hphase hk hold).resolve_right fun hctl => ?_
    rw [h.idle_newcomer hi hx hs hctl hj hphase hk] at hold
    cases hold
  | @restore x a n job s hj hphase hs hmark =>
    refine h.release hi hj (Or.inr hphase) hs s.restore_place s.restore_reload fun k t hk ht hst => ?_
    obtain ⟨hspared, htaken⟩ := h.starting n job k t hj hphase hk (by simp [hs]) ht
    -- the replacement is doomed, or it is the exit being handled
    by_cases hx : x.Spares k
    · rcases hspared hx with hr | hd
      · exact hmark k t hk ht hr
      · simp [hst.undeleted] at hd
    · simp only [Hole.Spares, not_forall, not_not] at hx
      obtain ⟨taken, rfl⟩ := hx
      refine hst.kept ⟨taken, rfl, ?_⟩
      rcases htaken taken rfl with hr | hd
      · exact Or.inr ⟨hr, h.found n job k taken rfl hj hphase hk⟩
      · exact Or.inl hd
  | @lapse x a n job s hj hphase hs =>
    refine h.release hi hj (Or.inl hphase) hs rfl rfl fun k t hk => ?_
    rw [(hi.jobs n job hj).phase.2 hphase] at hk
    cases hk
  | online hs | parkFailed hs | demote hs =>
    exact h.follow (.insert hs rfl rfl (fun hd => hd) fun hman => hman)
  | shutdown =>
    refine ⟨h.apart, fun n job s t j hj => ?_, fun id s q _ _ _ hd => ?_, fun n job hj => ?_,
      fun n job k t hj => ?_, fun n job k taken e => ?_⟩
    · simp at hj
    · cases hd
    · simp at hj
    · simp at hj
    · cases e

/-! ## Every run -/

/-- **In every reachable state a number is one instance's.** -/
theorem placed_run {dogBinaries : List (String × String)} {h : List (Actor × World × Msg)}
    {a : Actor} (hr : Run Actor.Step (.init dogBinaries) h a) (c : Turn) :
    Places c .none a.sheep a.reloads a.shuttingDown := by
  refine run_keeps (C := fun _ => True)
    (Q := fun a => ∀ c, Places c .none a.sheep a.reloads a.shuttingDown)
    (P := fun c p => p.Placed c) (fun c _ _ hq => hq c) (fun c p q _ hi hp hm => hm.placed hi hp)
    (fun c b hb c' => Places.hole hb Hole.none_spares Hole.none_spares) hr meets_true
    (Actor.inv_init dogBinaries) (fun c => ?_) c
  exact ⟨by simp [Actor.init], by simp [Actor.init], by simp [Actor.init], by simp [Actor.init],
    by simp [Actor.init], by simp [Actor.init]⟩

end Supervisor

end Shep

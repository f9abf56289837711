import Mathlib.Algebra.Order.Ring.Int
import Mathlib.Order.Bounds.Basic
import Shep.Common.Run

/-!
# Cron — which occurrences a worker fires

`cron.rs`'s `spawn_cron_worker`: the loop of one name's `cron_restart`
schedule, moment by moment. The wall clock is read twice an iteration, and
what it shows is the event's; times are nanoseconds since the epoch.
`CronSchedule::next_after` is a parameter, which the results ask to return
the least occurrence after its argument.

**`cron_fires`**: no request is early, no two requests are for one
occurrence, and all occurrences between two readings are one request's. And
every occurrence between two readings has a request, if and only if none
falls between the second reading of an iteration and the first of the next.
**`cron_skips`** is a worker that skips one.
-/

namespace Shep

namespace Cron

/-! ## The worker -/

/-- `MIN_MAX_SLEEP`. -/
def minMaxSleep : ℕ := 1000000000

/-- How long the loop parks before it reads the clock again. -/
def pause (maxSleep : ℕ) (now next : ℤ) : ℕ :=
  let maxSleep := max maxSleep minMaxSleep
  -- `to_std` refuses a negative length
  let untilNext := (next - now).toNat
  min untilNext maxSleep

/-- What `restart_automatic` answers. -/
inductive Answer where
  | restarted
  | notFound
  | spawnFailed
  | unrelated
  | engineStopped
  deriving Repr, DecidableEq

/-- Where the loop stands. -/
inductive Phase where
  /-- At the top of an iteration. -/
  | looping
  /-- In `sleep`, for the occurrence `next` that was derived from `now`. -/
  | parked (now next : ℤ) (pause : ℕ)
  /-- In `restart_automatic`. -/
  | restarting
  | ended
  deriving Repr, DecidableEq

/-- A restart request: the reading `since` derived its occurrence, and
`made` was the one that found it reached. -/
structure Request where
  since : ℤ
  occurrence : ℤ
  made : ℤ
  deriving Repr, DecidableEq

/-- The worker, and the readings and requests it has made, newest first. -/
structure Worker where
  phase : Phase := .looping
  readings : List ℤ := []
  requests : List Request := []
  deriving Repr, DecidableEq

/-- What happens next. -/
inductive Event where
  /-- The clock is read at the top of the loop. -/
  | derive (now : ℤ)
  /-- The sleep is over, and the clock is read again. -/
  | wake (now : ℤ)
  | answered (answer : Answer)
  /-- The handle is dropped. -/
  | abort
  deriving Repr, DecidableEq

section Step

variable {E : Type*} (maxSleep : ℕ) (nextAfter : ℤ → Except E (Option ℤ))

/-- What the loop does with the reading at its top. -/
def Worker.derive (now : ℤ) (w : Worker) : Worker :=
  { w with
    readings := now :: w.readings
    phase :=
      match nextAfter now with
      | .ok (some next) => .parked now next (pause maxSleep now next)
      | .ok none => .ended
      | .error _ => .ended }

/-- What it does with the reading after its sleep. -/
def Worker.wake (since next now : ℤ) (w : Worker) : Worker :=
  if next ≤ now then
    { phase := .restarting
      readings := now :: w.readings
      requests := ⟨since, next, now⟩ :: w.requests }
  else { w with phase := .looping, readings := now :: w.readings }

/-- The next state, where the event can happen. -/
def Worker.step (w : Worker) : Event → Option Worker
  | .derive now => if w.phase = .looping then some (w.derive maxSleep nextAfter now) else none
  | .wake now =>
    match w.phase with
    | .parked since next _ => some (w.wake since next now)
    | _ => none
  | .answered answer =>
    if w.phase = .restarting then
      some { w with phase := if answer = .engineStopped then .ended else .looping }
    else none
  | .abort => some { w with phase := .ended }

/-- One step. -/
def Worker.Step (w : Worker) (e : Event) (w' : Worker) : Prop :=
  w.step maxSleep nextAfter e = some w'

end Step

/-! ## Gaps and requests -/

/-- The request is for what occurred in the gap before it was made. -/
def Request.Serves (q : Request) (o : ℤ) : Prop := q.since < o ∧ o ≤ q.made

namespace Worker

/-- `earlier` and `later` are successive readings. -/
def Gap (w : Worker) (earlier later : ℤ) : Prop :=
  ∃ newer older, w.readings = newer ++ later :: earlier :: older

/-- Every occurrence between two successive readings has a request. -/
def Served (occurs : ℤ → Prop) (w : Worker) : Prop :=
  ∀ earlier later, w.Gap earlier later → ∀ o, occurs o → earlier < o → o ≤ later →
    ∃ q ∈ w.requests, q.Serves o

/-- Nothing occurs between the last reading of an iteration and the first of
the next. -/
def Quiet (occurs : ℤ → Prop) (w : Worker) : Event → Prop
  | .derive now => ∀ last ∈ w.readings.head?, ∀ o, occurs o → last < o → now < o
  | _ => True

/-- The requests so far: each for the least occurrence after the reading it
was derived from, for one gap and no other's, and none later than the last
reading. -/
structure Sound (occurs : ℤ → Prop) (w : Worker) : Prop where
  derived : ∀ q ∈ w.requests, IsLeast {o | occurs o ∧ q.since < o} q.occurrence ∧
    q.occurrence ≤ q.made
  gaps : ∀ q ∈ w.requests, w.Gap q.since q.made
  apart : w.requests.Pairwise fun newer older => older.made ≤ newer.since
  past : ∀ q ∈ w.requests, ∃ last ∈ w.readings.head?, q.made ≤ last
  parked : ∀ now next pause, w.phase = .parked now next pause →
    w.readings.head? = some now ∧ IsLeast {o | occurs o ∧ now < o} next

variable {occurs : ℤ → Prop} {w w' : Worker} {e : Event}

theorem gap_cons {readings : List ℤ} {now earlier later : ℤ}
    (hw : w.readings = now :: readings) :
    w.Gap earlier later ↔ later = now ∧ readings.head? = some earlier ∨
      ∃ newer older, readings = newer ++ later :: earlier :: older := by
  constructor
  · rintro ⟨newer, older, h⟩
    rw [hw] at h
    cases newer with
    | nil =>
      obtain ⟨rfl, rfl⟩ := List.cons.inj h
      exact .inl ⟨rfl, rfl⟩
    | cons x newer => exact .inr ⟨newer, older, (List.cons.inj h).2⟩
  · rintro (⟨rfl, hhead⟩ | ⟨newer, older, rfl⟩)
    · obtain ⟨older, rfl⟩ := List.head?_eq_some_iff.1 hhead
      exact ⟨[], older, hw⟩
    · exact ⟨now :: newer, older, hw⟩

theorem Gap.le_head {last : ℤ} (hsorted : w.readings.Pairwise (· ≥ ·)) {earlier later : ℤ}
    (hgap : w.Gap earlier later) (hlast : w.readings.head? = some last) : later ≤ last := by
  obtain ⟨rest, hrest⟩ := List.head?_eq_some_iff.1 hlast
  obtain ⟨newer, older, h⟩ := hgap
  have hmem : later ∈ w.readings := by simp [h]
  rw [hrest] at hmem hsorted
  rcases List.mem_cons.1 hmem with rfl | hmem
  · exact le_refl _
  · exact (List.pairwise_cons.1 hsorted).1 _ hmem

/-- In readings that do not go back, what is in a gap is in no other. -/
theorem Gap.unique (hsorted : w.readings.Pairwise (· ≥ ·)) {earlier later earlier' later' o : ℤ}
    (hgap : w.Gap earlier later) (hgap' : w.Gap earlier' later') (hlt : earlier < o) (hle : o ≤ later)
    (hlt' : earlier' < o) (hle' : o ≤ later') : earlier = earlier' ∧ later = later' := by
  -- a gap further back is over by the time the other begins
  have hback : ∀ {e l e' l' : ℤ} {newer a older older' : List ℤ}, w.readings = newer ++ l :: e :: older →
      l :: e :: older = a ++ l' :: e' :: older' → e < o → o ≤ l' → a = [] := by
    intro e l e' l' newer a older older' hreadings hsplit hlt hle
    rw [hreadings] at hsorted
    have htail := (List.pairwise_cons.1 (List.pairwise_append.1 hsorted).2.1).2
    cases a with
    | nil => rfl
    | cons x a =>
      have hmem : l' ∈ e :: older := by
        rw [(List.cons.inj hsplit).2]
        simp
      rcases List.mem_cons.1 hmem with rfl | hmem
      · omega
      · have := (List.pairwise_cons.1 htail).1 l' hmem
        omega
  obtain ⟨newer, older, h⟩ := hgap
  obtain ⟨newer', older', h'⟩ := hgap'
  rcases List.append_eq_append_iff.1 (h.symm.trans h') with ⟨a, -, ha⟩ | ⟨a, -, ha⟩
  · obtain rfl := hback h ha hlt hle'
    simp only [List.nil_append, List.cons.injEq] at ha
    exact ⟨ha.2.1, ha.1⟩
  · obtain rfl := hback h' ha hlt' hle
    simp only [List.nil_append, List.cons.injEq] at ha
    exact ⟨ha.2.1.symm, ha.1.symm⟩

/-- Every step leaves the requests sound. -/
theorem Sound.step {E : Type*} {maxSleep : ℕ} {nextAfter : ℤ → Except E (Option ℤ)}
    (hexact : ∀ now next, nextAfter now = .ok (some next) → IsLeast {o | occurs o ∧ now < o} next)
    (hs : w.Sound occurs) (hstep : w.Step maxSleep nextAfter e w')
    (hsorted : w'.readings.Pairwise (· ≥ ·)) : w'.Sound occurs := by
  -- a request made by the last reading is made by the next
  have hpast : ∀ now, (now :: w.readings).Pairwise (· ≥ ·) → ∀ q ∈ w.requests, q.made ≤ now := by
    intro now hsorted q hq
    obtain ⟨last, hlast, hmade⟩ := hs.past q hq
    exact hmade.trans ((List.pairwise_cons.1 hsorted).1 last (List.mem_of_head? hlast))
  cases e with
  | derive now =>
    simp only [Step, Worker.step] at hstep
    split at hstep
    · obtain rfl := Option.some.inj hstep
      refine ⟨hs.derived, fun q hq => (gap_cons rfl).2 (.inr (hs.gaps q hq)), hs.apart,
        fun q hq => ⟨now, rfl, hpast now hsorted q hq⟩, ?_⟩
      intro since next pause hphase
      simp only [Worker.derive] at hphase
      split at hphase
      · next hnext =>
        obtain ⟨rfl, rfl, -⟩ := Phase.parked.inj hphase
        exact ⟨rfl, hexact _ _ hnext⟩
      · cases hphase
      · cases hphase
    · cases hstep
  | wake now =>
    simp only [Step, Worker.step] at hstep
    split at hstep
    · next since next pause hphase =>
      obtain rfl := Option.some.inj hstep
      obtain ⟨hhead, hleast⟩ := hs.parked since next pause hphase
      rw [Worker.wake] at hsorted ⊢
      split at hsorted
      · next hreached =>
        rw [if_pos hreached]
        constructor
        case derived =>
          intro q hq
          rcases List.mem_cons.1 hq with rfl | hq
          · exact ⟨hleast, hreached⟩
          · exact hs.derived q hq
        case gaps =>
          intro q hq
          rcases List.mem_cons.1 hq with rfl | hq
          · exact (gap_cons rfl).2 (.inl ⟨rfl, hhead⟩)
          · exact (gap_cons rfl).2 (.inr (hs.gaps q hq))
        case apart =>
          refine List.pairwise_cons.2 ⟨fun q hq => ?_, hs.apart⟩
          obtain ⟨last, hlast, hmade⟩ := hs.past q hq
          rw [hhead] at hlast
          rwa [Option.some.inj hlast]
        case past =>
          intro q hq
          refine ⟨now, rfl, ?_⟩
          rcases List.mem_cons.1 hq with rfl | hq
          · exact le_refl _
          · exact hpast now hsorted q hq
        case parked => exact fun _ _ _ h => (by cases h)
      · next hreached =>
        rw [if_neg hreached]
        exact ⟨hs.derived, fun q hq => (gap_cons rfl).2 (.inr (hs.gaps q hq)), hs.apart,
          fun q hq => ⟨now, rfl, hpast now hsorted q hq⟩, fun _ _ _ h => (by cases h)⟩
    · cases hstep
  | answered answer =>
    simp only [Step, Worker.step] at hstep
    split at hstep
    · obtain rfl := Option.some.inj hstep
      refine ⟨hs.derived, hs.gaps, hs.apart, hs.past, fun _ _ _ h => ?_⟩
      dsimp only at h
      split at h <;> cases h
    · cases hstep
  | abort =>
    obtain rfl := Option.some.inj hstep
    exact ⟨hs.derived, hs.gaps, hs.apart, hs.past, fun _ _ _ h => (by cases h)⟩

/-- A step leaves every occurrence with its request, if and only if they all
had theirs and it is quiet. -/
theorem Sound.served_iff {E : Type*} {maxSleep : ℕ} {nextAfter : ℤ → Except E (Option ℤ)}
    (hs : w.Sound occurs) (hstep : w.Step maxSleep nextAfter e w')
    (hsorted : w'.readings.Pairwise (· ≥ ·)) :
    w'.Served occurs ↔ w.Served occurs ∧ w.Quiet occurs e := by
  cases e with
  | derive now =>
    simp only [Step, Worker.step] at hstep
    split at hstep
    · obtain rfl := Option.some.inj hstep
      constructor
      · refine fun h => ⟨fun earlier later hgap => ?_, fun last hlast o ho hlt => ?_⟩
        · exact h earlier later ((gap_cons rfl).2 (.inr hgap))
        · -- what was requested was requested by the last reading
          by_contra hle
          obtain ⟨q, hq, -, hmade⟩ := h last now ((gap_cons rfl).2 (.inl ⟨rfl, hlast⟩)) o ho hlt
            (not_lt.1 hle)
          obtain ⟨last', hlast', hpast⟩ := hs.past q hq
          obtain rfl := Option.some.inj (hlast.symm.trans hlast')
          omega
      · rintro ⟨h, hquiet⟩ earlier later hgap o ho hlt hle
        rcases (gap_cons rfl).1 hgap with ⟨rfl, hlast⟩ | hgap
        · have := hquiet earlier hlast o ho hlt
          omega
        · exact h earlier later hgap o ho hlt hle
    · cases hstep
  | wake now =>
    simp only [Step, Worker.step] at hstep
    split at hstep
    · next since next pause hphase =>
      obtain rfl := Option.some.inj hstep
      obtain ⟨hhead, hleast⟩ := hs.parked since next pause hphase
      rw [Worker.wake] at hsorted ⊢
      split at hsorted
      · next hreached =>
        rw [if_pos hreached]
        constructor
        · refine fun h => ⟨fun earlier later hgap o ho hlt hle => ?_, trivial⟩
          obtain ⟨q, hq, hserves⟩ := h earlier later ((gap_cons rfl).2 (.inr hgap)) o ho hlt hle
          rcases List.mem_cons.1 hq with rfl | hq
          · have hbefore := hgap.le_head (List.pairwise_cons.1 hsorted).2 hhead
            have := hserves.1
            dsimp only at this
            omega
          · exact ⟨q, hq, hserves⟩
        · rintro ⟨h, -⟩ earlier later hgap o ho hlt hle
          rcases (gap_cons rfl).1 hgap with ⟨rfl, hlast⟩ | hgap
          · obtain rfl := Option.some.inj (hhead.symm.trans hlast)
            exact ⟨_, List.mem_cons_self, hlt, hle⟩
          · obtain ⟨q, hq, hserves⟩ := h earlier later hgap o ho hlt hle
            exact ⟨q, List.mem_cons_of_mem _ hq, hserves⟩
      · next hreached =>
        rw [if_neg hreached]
        constructor
        · exact fun h => ⟨fun earlier later hgap => h earlier later ((gap_cons rfl).2 (.inr hgap)),
            trivial⟩
        · rintro ⟨h, -⟩ earlier later hgap o ho hlt hle
          rcases (gap_cons rfl).1 hgap with ⟨rfl, hlast⟩ | hgap
          · obtain rfl := Option.some.inj (hhead.symm.trans hlast)
            have := hleast.2 ⟨ho, hlt⟩
            omega
          · exact h earlier later hgap o ho hlt hle
    · cases hstep
  | answered answer =>
    simp only [Step, Worker.step] at hstep
    split at hstep
    · obtain rfl := Option.some.inj hstep
      exact ⟨fun h => ⟨h, trivial⟩, fun h => h.1⟩
    · cases hstep
  | abort =>
    obtain rfl := Option.some.inj hstep
    exact ⟨fun h => ⟨h, trivial⟩, fun h => h.1⟩

/-- A step adds at most one reading. -/
theorem Step.readings {E : Type*} {maxSleep : ℕ} {nextAfter : ℤ → Except E (Option ℤ)}
    (hstep : w.Step maxSleep nextAfter e w') :
    w'.readings = w.readings ∨ ∃ now, w'.readings = now :: w.readings := by
  cases e with
  | derive now =>
    simp only [Step, Worker.step] at hstep
    split at hstep
    · obtain rfl := Option.some.inj hstep
      exact .inr ⟨now, rfl⟩
    · cases hstep
  | wake now =>
    simp only [Step, Worker.step] at hstep
    split at hstep
    · obtain rfl := Option.some.inj hstep
      refine .inr ⟨now, ?_⟩
      rw [Worker.wake]
      split <;> rfl
    · cases hstep
  | answered answer =>
    simp only [Step, Worker.step] at hstep
    split at hstep
    · obtain rfl := Option.some.inj hstep
      exact .inl rfl
    · cases hstep
  | abort =>
    obtain rfl := Option.some.inj hstep
    exact .inl rfl

end Worker

/-! ## Every run -/

/-- **Which occurrences are fired.** For every schedule and every run of its
worker in which the clock does not go back: each request is for an
occurrence that is past, and for the least after the reading it was derived
from; no occurrence has two requests; the occurrences in one gap have one
request; and each has one, if and only if none falls between two
iterations. -/
theorem cron_fires {E : Type*} {maxSleep : ℕ} {nextAfter : ℤ → Except E (Option ℤ)}
    {occurs : ℤ → Prop}
    (hexact : ∀ now next, nextAfter now = .ok (some next) → IsLeast {o | occurs o ∧ now < o} next)
    {h : List (Worker × Event)} {w : Worker} (hr : Run (Worker.Step maxSleep nextAfter) {} h w)
    (hsorted : w.readings.Pairwise (· ≥ ·)) :
    (∀ q ∈ w.requests, IsLeast {o | occurs o ∧ q.since < o} q.occurrence ∧
      q.occurrence ≤ q.made) ∧
    (w.requests.Pairwise fun q q' => ∀ o, ¬ (q.Serves o ∧ q'.Serves o)) ∧
    (∀ earlier later, w.Gap earlier later → ∀ q ∈ w.requests, ∀ q' ∈ w.requests, ∀ o o',
      earlier < o → o ≤ later → earlier < o' → o' ≤ later → q.Serves o → q'.Serves o' → q = q') ∧
    (w.Served occurs ↔ Meets (Worker.Quiet occurs) h) := by
  have hinv : w.Sound occurs ∧ (w.Served occurs ↔ Meets (Worker.Quiet occurs) h) := by
    induction hr with
    | nil =>
      refine ⟨⟨by simp, by simp, by simp, by simp, fun _ _ _ h => (by cases h)⟩, ?_⟩
      refine ⟨fun _ => by simp [Meets], fun _ earlier later ⟨newer, older, hgap⟩ => ?_⟩
      simp at hgap
    | @snoc w w' h e _ hstep ih =>
      have hbefore : w.readings.Pairwise (· ≥ ·) := by
        rcases hstep.readings with heq | ⟨now, heq⟩
        · exact heq ▸ hsorted
        · exact (List.pairwise_cons.1 (heq ▸ hsorted)).2
      obtain ⟨hs, hiff⟩ := ih hbefore
      exact ⟨hs.step hexact hstep hsorted,
        by rw [hs.served_iff hstep hsorted, hiff, meets_snoc]⟩
  obtain ⟨hs, hiff⟩ := hinv
  refine ⟨hs.derived, hs.apart.imp ?_, ?_, hiff⟩
  · rintro newer older hmade o ⟨hnewer, holder⟩
    have h1 := hnewer.1
    have h2 := holder.2
    omega
  · intro earlier later hgap q hq q' hq' o o' hlt hle hlt' hle' ho ho'
    obtain ⟨hsince, hmade⟩ := hgap.unique hsorted (hs.gaps q hq) hlt hle ho.1 ho.2
    obtain ⟨hsince', hmade'⟩ := hgap.unique hsorted (hs.gaps q' hq') hlt' hle' ho'.1 ho'.2
    -- the two are derived from one reading, and so for one occurrence
    have hleast := (hs.derived q hq).1
    rw [← hsince, hsince'] at hleast
    have hoccurrence := hleast.unique (hs.derived q' hq').1
    obtain ⟨since, occurrence, made⟩ := q
    obtain ⟨since', occurrence', made'⟩ := q'
    simp only at hsince hsince' hmade hmade' hoccurrence
    rw [← hsince, ← hmade, hoccurrence, hsince', hmade']

/-! ## A worker of every minute -/

/-- A schedule of every full minute. -/
def minutely (now : ℤ) : Except Unit (Option ℤ) := .ok (some ((now / 60000000000 + 1) * 60000000000))

theorem minutely_exact (now next : ℤ) (h : minutely now = .ok (some next)) :
    IsLeast {o : ℤ | 60000000000 ∣ o ∧ now < o} next := by
  obtain rfl := Option.some.inj (Except.ok.inj h)
  refine ⟨⟨Int.dvd_mul_left _ _, by omega⟩, ?_⟩
  rintro o ⟨⟨k, rfl⟩, hlt⟩
  omega

/-- The state an event leaves, where it can happen: a worker of every full
minute that sleeps half a minute at most. -/
def next (w : Worker) (e : Event) : Worker := (w.step 30000000000 minutely e).getD w

/-- An event that can happen. -/
def Ready (w : Worker) (e : Event) : Prop := (w.step 30000000000 minutely e).isSome = true

instance (w : Worker) (e : Event) : Decidable (Ready w e) := inferInstanceAs (Decidable (_ = true))

theorem Ready.step {w : Worker} {e : Event} (h : Ready w e) :
    w.Step 30000000000 minutely e (next w e) := by
  obtain ⟨w', hw'⟩ := Option.isSome_iff_exists.1 h
  rw [next, Worker.Step, hw']
  rfl

/-- No iteration begins in a later minute than the last one ended in. -/
def Unbroken (w : Worker) : Event → Prop
  | .derive now => ∀ last ∈ w.readings.head?, now / 60000000000 ≤ last / 60000000000
  | _ => True

instance (w : Worker) : (e : Event) → Decidable (Unbroken w e)
  | .derive _ => inferInstanceAs (Decidable (∀ last ∈ _, _))
  | .wake _ | .answered _ | .abort => isTrue trivial

theorem Unbroken.quiet {w : Worker} {e : Event} (h : Unbroken w e) :
    w.Quiet (fun o => 60000000000 ∣ o) e := by
  cases e with
  | derive now =>
    rintro last hlast o ⟨k, rfl⟩ hlt
    have := h last hlast
    omega
  | wake now => trivial
  | answered answer => trivial
  | abort => trivial

/-- The first minute is waited for in two sleeps, and fired. -/
def minute : List Event :=
  [.derive 20000000000, .wake 50000000000, .derive 50000000000, .wake 60000000000,
    .answered .restarted, .derive 60000000010]

theorem cron_fires_minute : ∃ q ∈ (drive next {} minute).requests, q.Serves 60000000000 := by
  have hready : Drives next (fun w e => Ready w e ∧ Unbroken w e) {} minute := by decide +kernel
  have hsorted : (drive next {} minute).readings.Pairwise (· ≥ ·) := by decide +kernel
  have hreadings : (drive next {} minute).readings =
    [60000000010, 60000000000, 50000000000, 50000000000, 20000000000] := by decide +kernel
  have hfires := cron_fires minutely_exact (hready.run fun _ _ h => h.1.step) hsorted
  have hquiet := hready.meets fun _ _ h => h.2.quiet
  exact hfires.2.2.2.2 hquiet 50000000000 60000000000 ⟨[60000000010], _, hreadings⟩ 60000000000
    (dvd_refl _) (by decide) (le_refl _)

/-- The minute falls between the reading that ends a sleep and the next. -/
def skipping : List Event :=
  [.derive 29999999999, .wake 59999999999, .derive 60000000001]

/-- A minute is between two readings and has no request. -/
theorem cron_skips : ∃ (h : List (Worker × Event)) (w : Worker),
    Run (Worker.Step 30000000000 minutely) {} h w ∧ w.readings.Pairwise (· ≥ ·) ∧
      ¬ w.Served fun o => 60000000000 ∣ o := by
  have hready : Drives next Ready {} skipping := by decide +kernel
  have hreadings : (drive next {} skipping).readings = [60000000001, 59999999999, 29999999999] := by
    decide +kernel
  have hrequests : (drive next {} skipping).requests = [] := by decide +kernel
  refine ⟨_, _, hready.run fun _ _ h => h.step, by rw [hreadings]; decide, fun hserved => ?_⟩
  obtain ⟨q, hq, -⟩ := hserved 59999999999 60000000001 ⟨[], _, hreadings⟩ 60000000000 (dvd_refl _)
    (by decide) (by decide)
  rw [hrequests] at hq
  cases hq

end Cron

end Shep

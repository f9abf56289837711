import Shep.Common.Run
import Shep.Dogs.Model

/-!
# Dogs — who is given a rung

A run is a sequence of acts, each at its time, and its log the record of
them. **`ladder_fair`**: in a run in which no dog that is due gets in before
its turn, no silence clock that has run out is older than the process listed
or than the name's last handshake, and no connection overflows the record of
pids, every rung is fair. **`respawn_restarted`** is a dog respawned between
two looks, restarted after four tenths of a second.
-/

namespace Shep

namespace Dogs

open Table Watch

/-! ## What the record says of a name -/

namespace Mark

/-- The mark is a handshake or a refusal of the name. -/
def speaksOf (name : String) : Mark → Bool
  | handshook other _ => other = name
  | refused other _ => other = name
  | connected _ => false
  | rung other _ _ _ _ => other = name

def isHandshake : Mark → Bool
  | handshook _ _ => true
  | refused _ _ => false
  | connected _ => false
  | rung _ _ _ _ _ => false

/-- The refusals of a name, one mark on; a handshake clears them. -/
def tally (name : String) (n : ℕ) : Mark → ℕ
  | handshook other _ => if other = name then 0 else n
  | refused other _ => if other = name then n + 1 else n
  | connected _ => n
  | rung other _ _ _ _ => if other = name then n + 1 else n

end Mark

/-- The dog has got in and has not been refused since. -/
def Standing (name : String) (log : List Mark) : Prop :=
  (latest (Mark.speaksOf name) log).any Mark.isHandshake

/-- How often the name was refused since it last got in. -/
def refusalsSince (name : String) (log : List Mark) : ℕ := log.foldl (Mark.tally name) 0

/-- The name is listed with a process, and each that it is listed with has
run for a whole budget without a handshake of the name. -/
structure Ripe (log : List Mark) (now : ℕ) (infos : List ProcessInfo) (name : String) : Prop where
  listed : ∃ info ∈ infos, info.name = name ∧ info.runs
  ran : ∀ info ∈ infos, info.name = name → info.runs → info.started + DOG_SILENCE_BUDGET ≤ now
  unheard : ∀ time, .handshook name time ∈ log → time + DOG_SILENCE_BUDGET ≤ now

/-- **A fair rung**: none for a dog that has got in, one restart and then
one stale between two handshakes, after a whole budget, and the finding that
nothing connected where nothing did. -/
def FairMark (before : List Mark) : Mark → Prop
  | .handshook _ _ => True
  | .refused name given => given = verdict (refusalsSince name before + 1)
  | .connected _ => True
  | .rung name given now infos evidence =>
    given = verdict (refusalsSince name before + 1) ∧ ¬ Standing name before ∧
      Ripe before now infos name ∧ ∀ pid, evidence = .unreachable pid → .connected pid ∉ before

def Fair (log : List Mark) : Prop := Traced FairMark log

/-! ## Runs -/

/-- The dogs that are due and have not had their turn. -/
def Phase.left : Phase → List String
  | .idle => []
  | .listing _ => []
  | .acting _ _ left => left

/-- The watch and its record after one more act. -/
def next (s : Watch × List Mark) (e : Act × ℕ) : Watch × List Mark :=
  ((s.1.act e).1, s.2 ++ (s.1.act e).2)

/-- A clock that has run out is younger than neither the process listed nor
the name's last handshake. -/
def Own (s : Watch × List Mark) (now : ℕ) (infos : List ProcessInfo) : Prop :=
  ∀ name ∈ silentDogs infos s.1.refusals, ∀ since, s.1.seen[name]? = some since →
    DOG_SILENCE_BUDGET ≤ now - since →
    (∀ info ∈ infos, info.name = name → info.runs → info.started ≤ since) ∧
      ∀ time, .handshook name time ∈ s.2 → time ≤ since

/-- An act that leaves the ladder fair. -/
def Allowed (s : Watch × List Mark) (e : Act × ℕ) : Prop :=
  match e.1 with
  | .handshook name => name ∉ s.1.phase.left
  | .connected pid | .namedADog pid =>
    s.1.contacts.byPid[pid]? ≠ none ∨ s.1.contacts.byPid.size < PEER_CONTACT_CAPACITY
  | .listed (some infos) => ∀ now, s.1.phase = .listing now → Own s now infos
  | .refused _ | .tick _ | .listed none | .turn => True

/-! ## The invariant -/

/-- What the watch holds against its record. -/
structure Inv (w : Watch) (log : List Mark) : Prop where
  fair : Fair log
  count : ∀ name : String,
    w.refusals.refusals[name]?.getD 0 = min (refusalsSince name log) (2 ^ 32 - 1)
  standing : ∀ name, name ∈ w.refusals.handshook ↔ Standing name log
  room : w.contacts.byPid.size ≤ PEER_CONTACT_CAPACITY
  known : ∀ pid : ℕ, .connected pid ∈ log → w.contacts.byPid[pid]? ≠ none
  ripe : ∀ now infos left, w.phase = .acting now infos left → ∀ name ∈ left,
    name ∉ w.refusals.handshook ∧ Ripe log now infos name

theorem inv_new (time : ℕ) : Inv (.new time) [] where
  fair := traced_nil
  count name := by simp [new, refusalsSince]
  standing name := by simp [new, Standing]
  room := by simp [new, PEER_CONTACT_CAPACITY]
  known pid h := by simp at h
  ripe now infos left h := by simp [new] at h

section Step

variable {w : Watch} {log : List Mark} {name other : String} {m : Mark}

theorem refusalsSince_concat :
    refusalsSince name (log ++ [m]) = m.tally name (refusalsSince name log) := by
  simp [refusalsSince]

theorem standing_concat : Standing name (log ++ [m]) ↔
    if m.speaksOf name then m.isHandshake = true else Standing name log := by
  rw [Standing, latest_concat]
  split
  · exact Iff.rfl
  · exact Iff.rfl

theorem verdict_countUp (n : ℕ) : verdict (countUp (min n (2 ^ 32 - 1))) = verdict (n + 1) := by
  match n with
  | 0 => rfl
  | 1 => rfl
  | n + 2 =>
    obtain ⟨m, hm⟩ : ∃ m, countUp (min (n + 2) (2 ^ 32 - 1)) = m + 3 := by
      refine ⟨countUp (min (n + 2) (2 ^ 32 - 1)) - 3, ?_⟩
      simp only [countUp]
      omega
    rw [hm]
    rfl

/-- A refusal, by name or by a rung, and what is held of the names then. -/
theorem Inv.refused (h : Inv w log) (name : String)
    (hm : ∀ other, m.speaksOf other = decide (name = other))
    (hrefusal : m.isHandshake = false)
    (htally : ∀ other n, m.tally other n = if name = other then n + 1 else n) :
    (w.refusals.refused name).2 = verdict (refusalsSince name log + 1) ∧
      (∀ other : String, (w.refusals.refused name).1.refusals[other]?.getD 0 =
        min (refusalsSince other (log ++ [m])) (2 ^ 32 - 1)) ∧
      ∀ other, other ∈ (w.refusals.refused name).1.handshook ↔ Standing other (log ++ [m]) := by
  refine ⟨?_, fun other => ?_, fun other => ?_⟩
  · rw [← verdict_countUp, ← h.count name]
    rfl
  · rw [refusalsSince_concat, htally]
    simp only [DogRefusals.refused, get_insert]
    by_cases heq : name = other
    · subst heq
      rw [if_pos rfl, if_pos rfl, Option.getD_some, h.count name, countUp]
      omega
    · have heq' : ¬ other = name := fun e => heq e.symm
      rw [if_neg heq', if_neg heq, h.count other]
  · rw [standing_concat, hm, hrefusal]
    simp only [DogRefusals.refused, Finset.mem_erase, h.standing other]
    by_cases heq : name = other
    · simp [heq]
    · have heq' : ¬ other = name := fun e => heq e.symm
      simp [heq, heq']

/-! ## What is due -/

/-- Partway through `due`: an instant in the map is an old one or the look's
own, and a name that is due had a clock that has run out. -/
structure Clocked (seen : SilentDogs) (silent : List String) (now : ℕ)
    (acc : SilentDogs × List String) : Prop where
  clock : ∀ (name : String) (since : ℕ), acc.1[name]? = some since →
    since = now ∨ seen[name]? = some since
  due : ∀ name ∈ acc.2, name ∈ silent ∧
    ∃ since, seen[name]? = some since ∧ DOG_SILENCE_BUDGET ≤ now - since

section Due

variable {seen : SilentDogs} {silent : List String} {now : ℕ} {acc : SilentDogs × List String}

theorem Clocked.since (h : Clocked seen silent now acc) (name : String) :
    acc.1[name]?.getD now = now ∨ seen[name]? = some (acc.1[name]?.getD now) := by
  cases hclock : acc.1[name]? with
  | none => exact .inl rfl
  | some since => exact h.clock name since hclock

theorem Clocked.dueOne (h : Clocked seen silent now acc) (hname : name ∈ silent) :
    Clocked seen silent now (dueOne now acc name) := by
  have hsince := h.since name
  unfold Dogs.dueOne
  dsimp only
  split
  · next hdue =>
    refine ⟨fun other since hother => ?_, fun other hother => ?_⟩
    · rw [get_insert] at hother
      split at hother
      · exact .inl (Option.some.inj hother).symm
      · exact h.clock other since hother
    · rcases List.mem_append.1 hother with hother | hother
      · exact h.due other hother
      · obtain rfl := List.mem_singleton.1 hother
        rcases hsince with heq | hseen
        · simp [heq, DOG_SILENCE_BUDGET] at hdue
        · exact ⟨hname, _, hseen, hdue⟩
  · refine ⟨fun other since hother => ?_, h.due⟩
    rw [get_insert] at hother
    split at hother
    · next heq =>
      obtain rfl := Option.some.inj hother
      exact heq ▸ hsince
    · exact h.clock other since hother

theorem due_spec (h : name ∈ (due seen silent now).2) :
    name ∈ silent ∧ ∃ since, seen[name]? = some since ∧ DOG_SILENCE_BUDGET ≤ now - since := by
  have hall : ∀ (names : List String) (acc : SilentDogs × List String), names ⊆ silent →
      Clocked seen silent now acc →
      Clocked seen silent now (names.foldl (Dogs.dueOne now) acc) := by
    intro names
    induction names with
    | nil => exact fun acc _ hacc => hacc
    | cons first names ih =>
      intro acc hsub hacc
      have hfirst := hacc.dueOne (hsub List.mem_cons_self)
      exact ih _ (fun other hother => hsub (List.mem_cons_of_mem first hother)) hfirst
  have hstart : Clocked seen silent now (seen.filter fun name _ => silent.contains name, []) := by
    refine ⟨fun other since hother => ?_, fun other hother => ?_⟩
    · rw [Std.ExtTreeMap.getElem?_filter'] at hother
      exact .inr (Option.filter_eq_some_iff.1 hother).1
    · cases hother
  exact (hall silent _ (List.Subset.refl silent) hstart).due name h

end Due

theorem mem_silentDogs {infos : List ProcessInfo} {refusals : DogRefusals} :
    name ∈ silentDogs infos refusals ↔ ∃ info ∈ infos, info.name = name ∧ info.runs ∧
      name ∉ refusals.handshook ∧ ¬ refusals.isStale name := by
  simp only [silentDogs, List.mem_dedup, List.mem_insertionSort, List.mem_map, List.mem_filter,
    decide_eq_true_eq]
  constructor
  · rintro ⟨info, ⟨hin, hruns, hout, hstale⟩, rfl⟩
    exact ⟨info, hin, rfl, hruns, hout, hstale⟩
  · rintro ⟨info, hin, rfl, hruns, hout, hstale⟩
    exact ⟨info, ⟨hin, hruns, hout, hstale⟩, rfl⟩

/-! ## Contacts -/

theorem evictOldest_eq {c : Contacts} (h : c.byPid.size ≤ PEER_CONTACT_CAPACITY) :
    c.evictOldest = c := if_pos h

theorem size_insert_le {c : Contacts} {pid : ℕ} (seen : Seen)
    (hroom : c.byPid.size ≤ PEER_CONTACT_CAPACITY)
    (h : c.byPid[pid]? ≠ none ∨ c.byPid.size < PEER_CONTACT_CAPACITY) :
    (c.byPid.insert pid seen).size ≤ PEER_CONTACT_CAPACITY := by
  rw [Std.ExtTreeMap.size_insert]
  split
  · exact hroom
  · next hout =>
    rcases h with hin | hlt
    · exact absurd (Std.ExtTreeMap.getElem?_eq_none (by simpa using hout)) hin
    · exact hlt

theorem connected_spec {c : Contacts} {pid : ℕ} (hroom : c.byPid.size ≤ PEER_CONTACT_CAPACITY)
    (h : c.byPid[pid]? ≠ none ∨ c.byPid.size < PEER_CONTACT_CAPACITY) :
    (c.connected pid).byPid.size ≤ PEER_CONTACT_CAPACITY ∧
      ∀ other : ℕ, other = pid ∨ c.byPid[other]? ≠ none →
        (c.connected pid).byPid[other]? ≠ none := by
  have hsize := fun seen => size_insert_le seen hroom h
  have hkept : ∀ (seen : Seen) (other : ℕ), other = pid ∨ c.byPid[other]? ≠ none →
      (c.byPid.insert pid seen)[other]? ≠ none := by
    intro seen other hother
    rw [get_insert]
    split
    · exact Option.some_ne_none seen
    · next hne => exact hother.resolve_left hne
  unfold Contacts.connected
  cases hentry : c.byPid[pid]? with
  | none =>
    dsimp only
    rw [evictOldest_eq (hsize _)]
    exact ⟨hsize _, hkept _⟩
  | some entry => exact ⟨hsize _, hkept _⟩

theorem namedADog_spec {c : Contacts} {pid : ℕ} (hroom : c.byPid.size ≤ PEER_CONTACT_CAPACITY)
    (h : c.byPid[pid]? ≠ none ∨ c.byPid.size < PEER_CONTACT_CAPACITY) :
    (c.namedADog pid).byPid.size ≤ PEER_CONTACT_CAPACITY ∧
      ∀ other : ℕ, other = pid ∨ c.byPid[other]? ≠ none →
        (c.namedADog pid).byPid[other]? ≠ none := by
  have hsize := size_insert_le ⟨true, c.ticked⟩ hroom h
  unfold Contacts.namedADog
  rw [evictOldest_eq hsize]
  refine ⟨hsize, fun other hother => ?_⟩
  rw [get_insert]
  split
  · exact Option.some_ne_none _
  · next hne => exact hother.resolve_left hne

theorem fromPid_none {c : Contacts} {time pid : ℕ} (h : c.fromPid time (some pid) = .none) :
    c.byPid[pid]? = none := by
  simp only [Contacts.fromPid] at h
  split at h
  · assumption
  · split at h <;> cases h

theorem of_unreachable {pid : Option ℕ} {c : Contacts} {time p : ℕ}
    (h : Silence.of pid c time = .unreachable p) : c.byPid[p]? = none := by
  cases pid with
  | none => cases h
  | some q =>
    simp only [Silence.of] at h
    split at h
    · next heq hcontact =>
      obtain rfl := Option.some.inj heq
      obtain rfl := Silence.unreachable.inj h
      exact fromPid_none hcontact
    · cases h
    · cases h

/-! ## One act -/

theorem Ripe.concat {now : ℕ} {infos : List ProcessInfo} (h : Ripe log now infos name)
    (hm : ∀ time, m ≠ .handshook name time) : Ripe (log ++ [m]) now infos name := by
  refine ⟨h.listed, h.ran, fun time htime => ?_⟩
  rcases List.mem_append.1 htime with hin | hin
  · exact h.unheard time hin
  · exact absurd (List.mem_singleton.1 hin).symm (hm time)

theorem known_concat {c : Contacts} (h : ∀ pid : ℕ, .connected pid ∈ log → c.byPid[pid]? ≠ none)
    (hm : ∀ pid, m ≠ .connected pid) :
    ∀ pid : ℕ, .connected pid ∈ log ++ [m] → c.byPid[pid]? ≠ none := by
  intro pid hpid
  rcases List.mem_append.1 hpid with hin | hin
  · exact h pid hin
  · exact absurd (List.mem_singleton.1 hin).symm (hm pid)

theorem ripe_of_due {now : ℕ} {infos : List ProcessInfo}
    (hown : Own (w, log) now infos) {name : String}
    (hdue : name ∈ (due w.seen (silentDogs infos w.refusals) now).2) :
    name ∉ w.refusals.handshook ∧ Ripe log now infos name := by
  obtain ⟨hsilent, since, hsince, hrunout⟩ := due_spec hdue
  obtain ⟨hran, hheard⟩ := hown name hsilent since hsince hrunout
  obtain ⟨info, hin, hname, hruns, hout, -⟩ := mem_silentDogs.1 hsilent
  have hpast : ∀ time, time ≤ since → time + DOG_SILENCE_BUDGET ≤ now := by
    intro time htime
    simp only [DOG_SILENCE_BUDGET] at hrunout ⊢
    omega
  exact ⟨hout, ⟨info, hin, hname, hruns⟩,
    fun other hother heq hruns => hpast _ (hran other hother heq hruns),
    fun time htime => hpast time (hheard time htime)⟩

/-- A dog gets in that is not due. -/
theorem Inv.shake (h : Inv w log) (time : ℕ) (hleft : name ∉ w.phase.left) :
    Inv { w with refusals := w.refusals.shake name } (log ++ [.handshook name time]) := by
  refine ⟨traced_concat.2 ⟨h.fair, trivial⟩, fun other => ?_, fun other => ?_, h.room,
    known_concat h.known (by simp), fun now infos left hphase other hother => ?_⟩
  · rw [refusalsSince_concat]
    simp only [DogRefusals.shake, get_erase, Mark.tally]
    by_cases heq : name = other
    · simp [heq]
    · have heq' : ¬ other = name := fun e => heq e.symm
      rw [if_neg heq, if_neg heq', h.count other]
  · rw [standing_concat]
    simp only [DogRefusals.shake, Finset.mem_insert, Mark.speaksOf, h.standing other,
      Mark.isHandshake]
    by_cases heq : name = other
    · simp [heq]
    · have heq' : ¬ other = name := fun e => heq e.symm
      simp [heq, heq']
  · have hphase : w.phase = .acting now infos left := hphase
    have hne : other ≠ name := by
      rintro rfl
      rw [hphase] at hleft
      exact hleft hother
    obtain ⟨hout, hripe⟩ := h.ripe now infos left hphase other hother
    refine ⟨?_, hripe.concat fun t heq => hne (Mark.handshook.inj heq).1.symm⟩
    simpa [DogRefusals.shake, hne] using hout

theorem Inv.contact (h : Inv w log) {c : Contacts} {pid : ℕ}
    (hroom : c.byPid.size ≤ PEER_CONTACT_CAPACITY)
    (hkept : ∀ other : ℕ, other = pid ∨ w.contacts.byPid[other]? ≠ none → c.byPid[other]? ≠ none) :
    Inv { w with contacts := c } (log ++ [.connected pid]) := by
  refine ⟨traced_concat.2 ⟨h.fair, trivial⟩, fun other => ?_, fun other => ?_, hroom,
    fun other hother => ?_, fun now infos left hphase other hother => ?_⟩
  · rw [refusalsSince_concat]
    exact h.count other
  · rw [standing_concat]
    exact h.standing other
  · rcases List.mem_append.1 hother with hin | hin
    · exact hkept other (.inr (h.known other hin))
    · exact hkept other (.inl (Mark.connected.inj (List.mem_singleton.1 hin)))
  · obtain ⟨hout, hripe⟩ := h.ripe now infos left hphase other hother
    exact ⟨hout, hripe.concat (by simp)⟩

theorem Inv.refuse (h : Inv w log) (name : String) :
    Inv { w with refusals := (w.refusals.refused name).1 }
      (log ++ [.refused name (w.refusals.refused name).2]) := by
  obtain ⟨hverdict, hcount, hstanding⟩ := h.refused name
    (m := .refused name (w.refusals.refused name).2) (fun _ => rfl) rfl (fun _ _ => rfl)
  refine ⟨traced_concat.2 ⟨h.fair, hverdict⟩, hcount, hstanding, h.room,
    known_concat h.known (by simp), fun now infos left hphase other hother => ?_⟩
  obtain ⟨hout, hripe⟩ := h.ripe now infos left hphase other hother
  exact ⟨fun hin => hout (Finset.mem_of_mem_erase hin), hripe.concat (by simp)⟩

theorem Inv.rung (h : Inv w log) {now : ℕ} {infos : List ProcessInfo} {left : List String}
    {evidence : Silence} (hphase : w.phase = .acting now infos (name :: left))
    (hevidence : ∀ pid, evidence = .unreachable pid → w.contacts.byPid[pid]? = none) :
    Inv { w with refusals := (w.refusals.refused name).1, phase := .acting now infos left }
      (log ++ [.rung name (w.refusals.refused name).2 now infos evidence]) := by
  obtain ⟨hverdict, hcount, hstanding⟩ := h.refused name
    (m := .rung name (w.refusals.refused name).2 now infos evidence)
    (fun _ => rfl) rfl (fun _ _ => rfl)
  obtain ⟨hout, hripe⟩ := h.ripe now infos (name :: left) hphase name List.mem_cons_self
  have hunheard : ∀ pid, evidence = .unreachable pid → .connected pid ∉ log :=
    fun pid hfound hin => h.known pid hin (hevidence pid hfound)
  refine ⟨traced_concat.2 ⟨h.fair, hverdict, fun hstand => hout ((h.standing name).2 hstand), hripe,
    hunheard⟩, hcount, hstanding, h.room, known_concat h.known (by simp), ?_⟩
  rintro now' infos' left' hphase' other hother
  obtain ⟨rfl, rfl, rfl⟩ := Phase.acting.inj hphase'
  obtain ⟨hout, hripe⟩ := h.ripe _ _ _ hphase other (List.mem_cons_of_mem name hother)
  exact ⟨fun hin => hout (Finset.mem_of_mem_erase hin), hripe.concat (by simp)⟩

theorem Inv.moved (h : Inv w log) (seen : SilentDogs) {phase : Phase}
    (hripe : ∀ now infos left, phase = .acting now infos left → ∀ name ∈ left,
      name ∉ w.refusals.handshook ∧ Ripe log now infos name) :
    Inv { w with seen := seen, phase := phase } (log ++ []) := by
  rw [List.append_nil]
  exact ⟨h.fair, h.count, h.standing, h.room, h.known, hripe⟩

theorem Inv.act (h : Inv w log) {e : Act × ℕ} (he : Allowed (w, log) e) :
    Inv (w.act e).1 (log ++ (w.act e).2) := by
  obtain ⟨a, time⟩ := e
  cases a with
  | handshook name => exact h.shake time he
  | refused name => exact h.refuse name
  | connected pid =>
    obtain ⟨hroom, hkept⟩ := connected_spec h.room he
    exact h.contact hroom hkept
  | namedADog pid =>
    obtain ⟨hroom, hkept⟩ := namedADog_spec h.room he
    exact h.contact hroom hkept
  | tick now =>
    simp only [Watch.act]
    split
    · split
      · exact h.moved w.seen h.ripe
      · exact h.moved w.seen nofun
    · exact h.moved w.seen h.ripe
  | listed infos =>
    simp only [Watch.act]
    split
    · next now infos hphase =>
      refine h.moved _ ?_
      rintro now' infos' left' heq name hname
      obtain ⟨rfl, rfl, rfl⟩ := Phase.acting.inj heq
      exact ripe_of_due (he _ hphase) hname
    · exact h.moved w.seen nofun
    · exact h.moved w.seen h.ripe
  | turn =>
    simp only [Watch.act]
    split
    · next now infos name left hphase => exact h.rung hphase fun pid => of_unreachable
    · exact h.moved w.seen nofun
    · exact h.moved w.seen h.ripe

end Step

/-! ## Whole runs -/

/-- **The ladder is fair**, in every run of allowed acts. -/
theorem ladder_fair {time : ℕ} {acts : List (Act × ℕ)}
    (hacts : Drives next Allowed (.new time, []) acts) :
    Fair (drive next (.new time, []) acts).2 := by
  have hinv : ∀ s : Watch × List Mark, Inv s.1 s.2 → Drives next Allowed s acts →
      Inv (drive next s acts).1 (drive next s acts).2 := by
    clear hacts
    induction acts with
    | nil => exact fun s hs _ => hs
    | cons e acts ih => exact fun s hs hacts => ih (next s e) (hs.act hacts.1) hacts.2
  exact (hinv _ (inv_new time) hacts).fair

/-! ## A dog respawned between two looks -/

/-- A dog's row. -/
def rowOf (pid started : ℕ) : ProcessInfo := ⟨"metrics", true, .online, some pid, started⟩

/-- Pid 100 is seen silent at ten seconds, and crashes; pid 101 runs from
14.6 seconds, and the look is at fifteen. -/
def respawned : List (Act × ℕ) :=
  [(.tick 10000000000, 10000000000), (.listed (some [rowOf 100 9000000000]), 10000000000),
    (.turn, 10000000000), (.tick 15000000000, 15000000000),
    (.listed (some [rowOf 101 14600000000]), 15000000000), (.turn, 15000000000)]

theorem respawned_log : (drive next (.new 0, []) respawned).2 =
    [.rung "metrics" .restart 15000000000 [rowOf 101 14600000000] (.unreachable 101)] := by
  decide +kernel

/-- The process that is restarted has run for four tenths of a second. -/
theorem respawn_restarted : ¬ Fair (drive next (.new 0, []) respawned).2 := by
  rw [respawned_log]
  intro h
  obtain ⟨-, -, hripe, -⟩ := h [] _ [] rfl
  exact absurd (hripe.ran _ (List.mem_singleton_self _) rfl rfl) (by decide)

/-- The same dog, listed with one process all along. -/
def patient : List (Act × ℕ) :=
  [(.tick 10000000000, 10000000000), (.listed (some [rowOf 100 9000000000]), 10000000000),
    (.turn, 10000000000), (.tick 15000000000, 15000000000),
    (.listed (some [rowOf 100 9000000000]), 15000000000), (.turn, 15000000000)]

theorem ladder_fair_patient : Fair (drive next (.new 0, []) patient).2 := by
  have hfirst : Own (drive next (.new 0, []) (patient.take 1)) 10000000000
      [rowOf 100 9000000000] := by
    intro name _ since hsince
    have hnone : (drive next (.new 0, []) (patient.take 1)).1.seen[name]? = none := by
      simp [patient, drive, next, Watch.act, new, Contacts.isWarming, PEER_CONTACT_WARMUP,
        DOG_SILENCE_BUDGET]
    rw [hnone] at hsince
    cases hsince
  have hsecond : Own (drive next (.new 0, []) (patient.take 4)) 15000000000
      [rowOf 100 9000000000] := by
    intro name hname since hsince _
    obtain ⟨info, hin, rfl, -⟩ := mem_silentDogs.1 hname
    obtain rfl := List.mem_singleton.1 hin
    have hclock : (drive next (.new 0, []) (patient.take 4)).1.seen["metrics"]? =
        some 10000000000 := by decide +kernel
    obtain rfl := Option.some.inj (hclock.symm.trans hsince)
    have hlog : (drive next (.new 0, []) (patient.take 4)).2 = [] := by decide +kernel
    refine ⟨fun other hother _ _ => ?_, fun time htime => ?_⟩
    · obtain rfl := List.mem_singleton.1 hother
      decide
    · rw [hlog] at htime
      cases htime
  have hacts : Drives next Allowed (.new 0, []) patient := by
    refine And.intro trivial (And.intro ?_ (And.intro trivial (And.intro trivial
      (And.intro ?_ (And.intro trivial trivial)))))
    · intro now hphase
      have hlisting : (drive next (.new 0, []) (patient.take 1)).1.phase =
          .listing 10000000000 := by decide +kernel
      obtain rfl := Phase.listing.inj (hlisting.symm.trans hphase)
      exact hfirst
    · intro now hphase
      have hlisting : (drive next (.new 0, []) (patient.take 4)).1.phase =
          .listing 15000000000 := by decide +kernel
      obtain rfl := Phase.listing.inj (hlisting.symm.trans hphase)
      exact hsecond
  exact ladder_fair hacts

end Dogs

end Shep

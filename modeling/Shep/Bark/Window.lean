import Shep.Bark.Evaluations
import Shep.Common.Run

/-!
# Bark — the restart windows

A `restartRate` rule counts an app's restarts from the baseline of a
window, which is kept under the app's name, while the counts it is compared
with are each instance's own. A `Ledger` is the truth about the instances:
the count each shows, how often it has been restarted and how often its
count was reset. **`windows_own`**: wherever the baseline of every window is
the measured instance's own count, the alerts are honest both ways. A
sibling's count (`window_of_sibling`) makes a sheep that never restarted
meet the condition.
-/

namespace Shep

namespace Bark

open Values

/-! ## The truth about the instances -/

/-- What each instance's count is, and what has become of it. -/
structure Ledger where
  counts : ℕ → ℕ
  restarted : ℕ → ℕ
  resets : ℕ → ℕ

namespace Ledger

/-- An instance is restarted. -/
def restart (ledger : Ledger) (id : ℕ) : Ledger where
  counts i := if i = id then ledger.counts i + 1 else ledger.counts i
  restarted i := if i = id then ledger.restarted i + 1 else ledger.restarted i
  resets := ledger.resets

/-- An instance's count drops to zero, if it is not there. -/
def reset (ledger : Ledger) (id : ℕ) : Ledger where
  counts i := if i = id then 0 else ledger.counts i
  restarted := ledger.restarted
  resets i := if i = id ∧ ledger.counts i ≠ 0 then ledger.resets i + 1 else ledger.resets i

/-- The second ledger is a later one. -/
structure Before (a b : Ledger) : Prop where
  restarted : ∀ id, a.restarted id ≤ b.restarted id
  resets : ∀ id, a.resets id ≤ b.resets id
  counts : ∀ id, a.resets id = b.resets id →
    b.counts id + a.restarted id = a.counts id + b.restarted id

namespace Before

variable {a b c : Ledger}

theorem refl (a : Ledger) : a.Before a := ⟨fun _ => le_rfl, fun _ => le_rfl, fun _ _ => rfl⟩

theorem trans (h : a.Before b) (h' : b.Before c) : a.Before c := by
  refine ⟨fun id => (h.restarted id).trans (h'.restarted id),
    fun id => (h.resets id).trans (h'.resets id), fun id hid => ?_⟩
  have hab : a.resets id = b.resets id :=
    le_antisymm (h.resets id) (hid ▸ h'.resets id)
  have h1 := h.counts id hab
  have h2 := h'.counts id (hab ▸ hid)
  omega

theorem restart (a : Ledger) (id : ℕ) : a.Before (a.restart id) := by
  refine ⟨fun i => ?_, fun _ => le_rfl, fun i _ => ?_⟩
  · simp only [Ledger.restart]
    split <;> omega
  · simp only [Ledger.restart]
    split <;> omega

theorem reset (a : Ledger) (id : ℕ) : a.Before (a.reset id) := by
  refine ⟨fun _ => le_rfl, fun i => ?_, fun i hi => ?_⟩
  · simp only [Ledger.reset]
    split <;> omega
  · simp only [Ledger.reset] at hi ⊢
    split_ifs at hi ⊢ <;> omega

end Before

end Ledger

/-! ## Runs of polls -/

/-- One evaluation of a rule at a row of a poll, with the engine as it was
before and the truth at the time. -/
structure Sight where
  before : Rules
  info : ProcessInfo
  idx : ℕ
  nowMs : ℕ
  ledger : Ledger

namespace Sight

/-- The rule's condition holds for the row. -/
def holds (k : Sight) : Bool :=
  match k.before.rules[k.idx]? with
  | none => false
  | some rule => (k.before.rowMessage k.idx rule.trigger k.info k.nowMs).2.isSome

/-- The window the row is measured in, before it is slid. -/
def window (k : Sight) : ℕ × ℕ := (k.before.window k.info.name k.idx).getD (0, k.nowMs)

/-- The evaluation slides the window. -/
def slides (k : Sight) : Bool :=
  match k.before.rules[k.idx]? with
  | none => false
  | some rule =>
    match rule.trigger with
    | .restartRate _ within => within.millis.toNat < k.nowMs - k.window.2
    | _ => false

/-- Of one rule and one name, and so in one window. -/
def shares (j k : Sight) : Bool := j.info.name = k.info.name ∧ j.idx = k.idx

end Sight

/-- One rule of one row, with what it sees. -/
def sightRule (info : ProcessInfo) (nowMs : ℕ) (ledger : Ledger) (r : Rules) (idx : ℕ) :
    Rules × List Sight :=
  ((r.rowRule info nowMs idx).1, [⟨r, info, idx, nowMs, ledger⟩])

/-- All rules of a row. -/
def sightRow (nowMs : ℕ) (ledger : Ledger) (r : Rules) (info : ProcessInfo) :
    Rules × List Sight :=
  feed (sightRule info nowMs ledger) r (List.range r.rules.length)

/-- `on_poll`, with what each evaluation sees. -/
def sightPoll (r : Rules) (flock : List ProcessInfo) (nowMs : ℕ) (ledger : Ledger) :
    Rules × List Sight :=
  feed (sightRow nowMs ledger) (r.learn flock) flock

theorem sightPoll_eq (r : Rules) (flock : List ProcessInfo) (nowMs : ℕ) (ledger : Ledger) :
    (sightPoll r flock nowMs ledger).1 = (r.onPoll flock nowMs).1 ∧
      (sightPoll r flock nowMs ledger).2.flatMap
        (fun k => (k.before.rowRule k.info k.nowMs k.idx).2) = (r.onPoll flock nowMs).2 := by
  refine feed_flatMap _ _ _ flock fun r info _ => ?_
  exact feed_flatMap _ _ _ (List.range r.rules.length) fun r idx _ => by simp [sightRule]

/-- What happens between polls, and a poll. -/
inductive Turn where
  | restart (id : ℕ)
  | reset (id : ℕ)
  | poll (flock : List ProcessInfo) (nowMs : ℕ)

/-- The engine, the truth, and the stamp of the last poll. -/
structure Watch where
  rules : Rules
  ledger : Ledger
  stamp : ℕ

namespace Watch

/-- One turn, and what it sees. -/
def turn (w : Watch) : Turn → Watch × List Sight
  | .restart id => ({ w with ledger := w.ledger.restart id }, [])
  | .reset id => ({ w with ledger := w.ledger.reset id }, [])
  | .poll flock nowMs =>
    let (rules, sights) := sightPoll w.rules flock nowMs w.ledger
    ({ w with rules := rules, stamp := nowMs }, sights)

/-- A poll is no earlier than the last and lists each instance with its
count. -/
def Tells (w : Watch) : Turn → Prop
  | .poll flock nowMs => w.stamp ≤ nowMs ∧ ∀ info ∈ flock, info.restarts = w.ledger.counts info.id
  | _ => True

instance (w : Watch) : (t : Turn) → Decidable (w.Tells t)
  | .restart _ => isTrue trivial
  | .reset _ => isTrue trivial
  | .poll flock nowMs => inferInstanceAs (Decidable (w.stamp ≤ nowMs ∧
      ∀ info ∈ flock, info.restarts = w.ledger.counts info.id))

/-- One turn after another. -/
def turns (w : Watch) (turns : List Turn) : Watch × List Sight := feed turn w turns

end Watch

/-! ## What is asked of the windows -/

/-- What a rate rule is written with. -/
def rateOf (rules : List Rule) (idx : ℕ) : Option (ℕ × UpDuration) :=
  (rules[idx]?).bind fun rule =>
    match rule.trigger with
    | .restartRate restarts within => some (restarts, within)
    | _ => none

/-- A rate rule's condition holds of an instance, once its window has been
slid, only if the instance itself was restarted that often since a poll at
most the window ago. -/
def Sight.Sound (before : List Sight) (k : Sight) (threshold : ℕ) (within : UpDuration) : Prop :=
  (∃ s ∈ before ++ [k], s.shares k = true ∧ s.slides = true) → k.holds = true →
    ∃ p ∈ before ++ [k], k.nowMs ≤ p.nowMs + within.millis.toNat ∧
      p.ledger.restarted k.info.id + threshold ≤ k.ledger.restarted k.info.id

instance (before : List Sight) (k : Sight) (threshold : ℕ) (within : UpDuration) :
    Decidable (k.Sound before threshold within) :=
  inferInstanceAs (Decidable ((∃ s ∈ before ++ [k], s.shares k = true ∧ s.slides = true) →
    k.holds = true → ∃ p ∈ before ++ [k], k.nowMs ≤ p.nowMs + within.millis.toNat ∧
      p.ledger.restarted k.info.id + threshold ≤ k.ledger.restarted k.info.id))

/-- It holds of an instance restarted that often since an earlier poll in
the window. -/
def Sight.Complete (before : List Sight) (k : Sight) (threshold : ℕ) : Prop :=
  ∀ earlier p between, before = earlier ++ p :: between → p.shares k = true →
    p.info.id = k.info.id → (∀ s ∈ between ++ [k], s.shares k = true → s.slides = false) →
      p.ledger.restarted k.info.id + threshold ≤ k.ledger.restarted k.info.id → k.holds = true

/-- The rate alerts are honest: both, at every evaluation of a rate rule. -/
def Honest (rules : List Rule) (sights : List Sight) : Prop :=
  Traced (fun before k => ∀ threshold within, rateOf rules k.idx = some (threshold, within) →
    k.Sound before threshold within ∧ k.Complete before threshold) sights

/-- The evaluation that opened the window the row is measured in, unless
the window is the name's first. -/
def Sight.opener (before : List Sight) (k : Sight) : Option Sight :=
  latest (fun s => s.shares k && s.slides) (before ++ [k])

/-- The baseline is the instance's own: when the window was opened it stood
at the count that row showed, and it has not been reset since; in a first
window, not since a poll that measured it. -/
def Sight.Own (before : List Sight) (k : Sight) : Prop :=
  match k.opener before with
  | some s => s.ledger.counts k.info.id = s.info.restarts ∧
      s.ledger.resets k.info.id = k.ledger.resets k.info.id
  | none => ∀ p ∈ before, p.shares k = true → p.info.id = k.info.id →
      p.ledger.resets k.info.id = k.ledger.resets k.info.id

instance (before : List Sight) (k : Sight) : Decidable (k.Own before) :=
  match h : k.opener before with
  | some s => decidable_of_iff (s.ledger.counts k.info.id = s.info.restarts ∧
      s.ledger.resets k.info.id = k.ledger.resets k.info.id) (by simp [Sight.Own, h])
  | none => decidable_of_iff (∀ p ∈ before, p.shares k = true → p.info.id = k.info.id →
      p.ledger.resets k.info.id = k.ledger.resets k.info.id) (by simp [Sight.Own, h])

/-- Every row of a rate rule is measured by its own baseline. -/
def OwnBaselines (rules : List Rule) (sights : List Sight) : Prop :=
  Traced (fun before k => (rateOf rules k.idx).isSome = true → k.Own before) sights

instance (rules : List Rule) (sights : List Sight) : Decidable (OwnBaselines rules sights) :=
  inferInstanceAs (Decidable (Traced _ sights))

/-! ## One evaluation -/

namespace Rules

variable {r : Rules} {idx nowMs : ℕ} {info : ProcessInfo}

/-- What the evaluation of a row does with the windows. -/
theorem rowRule_window (hidx : idx < r.rules.length) (s : String) (i : ℕ) :
    (rowRule info nowMs r idx).1.window s i =
      match rateOf r.rules idx with
      | some (_, within) =>
        if s = info.name ∧ i = idx then
          some (slide ((r.window s i).getD (0, nowMs)) info.restarts within nowMs)
        else r.window s i
      | none => r.window s i := by
  have hrule := List.getElem?_eq_getElem hidx
  obtain ⟨hrules, -⟩ := r.rowMessage_spec idx r.rules[idx].trigger info nowMs
  have heq : rowRule info nowMs r idx = (r.rowMessage idx r.rules[idx].trigger info nowMs).1.look
      idx info.name nowMs (r.rowMessage idx r.rules[idx].trigger info nowMs).2 := by
    simp only [rowRule, hrule]
  obtain ⟨-, -, -, -, -, -, -, hwindow⟩ := look_spec (hrules ▸ hidx) info.name nowMs
    (r.rowMessage idx r.rules[idx].trigger info nowMs).2
  rw [heq, hwindow]
  simp only [rateOf, hrule, Option.bind_some]
  cases htrigger : r.rules[idx].trigger with
  | restartRate threshold within =>
    simp only [rowMessage, restartWindowCrossed, window, subjectState_insert]
    by_cases hs : s = info.name
    · by_cases hi : i = idx
      · simp [hs, hi]
      · simp [hs, hi]
    · simp [hs]
  | _ => rfl

end Rules

namespace Sight

variable {rules : List Rule} {k : Sight} {threshold : ℕ} {within : UpDuration}

/-- The window after the evaluation. -/
def after (k : Sight) (within : UpDuration) : ℕ × ℕ :=
  Rules.slide k.window k.info.restarts within k.nowMs

theorem rate_eq (hrate : rateOf rules k.idx = some (threshold, within)) :
    ∃ rule, rules[k.idx]? = some rule ∧ rule.trigger = .restartRate threshold within := by
  unfold rateOf at hrate
  cases hrule : rules[k.idx]? with
  | none => simp [hrule] at hrate
  | some rule =>
    refine ⟨rule, rfl, ?_⟩
    rw [hrule, Option.bind_some] at hrate
    split at hrate
    · next htrigger =>
      simp only [Option.some.injEq, Prod.mk.injEq] at hrate
      rw [htrigger, hrate.1, hrate.2]
    · cases hrate

theorem holds_iff (hrate : rateOf k.before.rules k.idx = some (threshold, within)) :
    k.holds = true ↔ threshold ≤ k.info.restarts - (k.after within).1 := by
  obtain ⟨rule, hrule, htrigger⟩ := rate_eq hrate
  simp only [holds, hrule, htrigger, Rules.rowMessage]
  have hcrossed : (k.before.restartWindowCrossed k.idx k.info.name k.info.restarts threshold within
      k.nowMs).2 = decide (threshold ≤ k.info.restarts - (k.after within).1) := rfl
  rw [hcrossed]
  by_cases h : threshold ≤ k.info.restarts - (k.after within).1
  · simp [h]
  · simp [h]

theorem slides_iff (hrate : rateOf k.before.rules k.idx = some (threshold, within)) :
    k.slides = true ↔ within.millis.toNat < k.nowMs - k.window.2 := by
  obtain ⟨rule, hrule, htrigger⟩ := rate_eq hrate
  simp [slides, hrule, htrigger]

theorem le_after (k : Sight) (within : UpDuration) :
    k.nowMs ≤ (k.after within).2 + within.millis.toNat := by
  unfold after Rules.slide
  split
  · exact Nat.le_add_right _ _
  · omega

end Sight

/-! ## What holds of every evaluation of a run -/

/-- What an evaluation finds, in terms of those before it. -/
structure Found (rules : List Rule) (before : List Sight) (k : Sight) : Prop where
  same : k.before.rules = rules
  window : ∀ threshold within, rateOf rules k.idx = some (threshold, within) →
    k.before.window k.info.name k.idx =
      (latest (fun s => s.shares k) before).map fun s => s.after within
  ledger : ∀ s ∈ before, s.ledger.Before k.ledger
  stamps : ∀ s ∈ before, s.nowMs ≤ k.nowMs
  tells : k.info.restarts = k.ledger.counts k.info.id

namespace Found

variable {rules : List Rule} {log before : List Sight} {k : Sight} {threshold : ℕ}
variable {within : UpDuration}

/-- What a window comes to: the row and the stamp of the evaluation that
opened it, or a first window's zero. -/
def Opened (within : UpDuration) (opener : Option Sight) (l : Sight) : Prop :=
  match opener with
  | some s => l.after within = (s.info.restarts, s.nowMs)
  | none => (l.after within).1 = 0

/-- **The window after the last evaluation in it is the opener's.** -/
theorem opened (h : Traced (Found rules) log)
    (hrate : rateOf rules k.idx = some (threshold, within))
    {l : Sight} (hl : latest (fun s => s.shares k) log = some l) :
    Opened within (latest (fun s => s.shares k && s.slides) log) l := by
  induction log using List.reverseRecOn generalizing l with
  | nil => cases hl
  | append_singleton log x ih =>
    obtain ⟨hlog, hx⟩ := traced_concat.1 h
    rw [latest_concat] at hl ⊢
    by_cases hshares : x.shares k = true
    · rw [if_pos hshares] at hl
      obtain rfl := Option.some.inj hl
      have hkeys : x.info.name = k.info.name ∧ x.idx = k.idx := by
        simpa [Sight.shares] using hshares
      have hsame : (fun s : Sight => s.shares x) = fun s => s.shares k := by
        funext s
        simp [Sight.shares, hkeys]
      have hrate' : rateOf x.before.rules x.idx = some (threshold, within) := by
        rw [hx.same, hkeys.2, hrate]
      have hwindow := hx.window threshold within (hx.same ▸ hrate')
      rw [hsame] at hwindow
      by_cases hslides : x.slides = true
      · have hslid := (Sight.slides_iff hrate').1 hslides
        simp only [hshares, hslides, Bool.and_self, if_true, Opened, Sight.after, Rules.slide]
        rw [if_pos hslid]
      · have hstays : ¬ within.millis.toNat < x.nowMs - x.window.2 := fun hslid =>
          hslides ((Sight.slides_iff hrate').2 hslid)
        have hafter : x.after within = x.window := if_neg hstays
        simp only [hslides, Bool.and_false, Opened, hafter, Sight.window, hwindow]
        cases hprev : latest (fun s => s.shares k) log with
        | some l => simpa [Opened] using ih hlog hprev
        | none =>
          have hnone : latest (fun s => s.shares k && s.slides) log = none := by
            refine latest_eq_none.2 fun y hy hyk => latest_eq_none.1 hprev y hy ?_
            simp only [Bool.and_eq_true] at hyk
            exact hyk.1
          simp [hnone]
    · simp only [hshares, Bool.false_and] at hl ⊢
      exact ih hlog hl

theorem since (h : Found rules before k) {s : Sight} (hs : s ∈ before ++ [k]) :
    s.ledger.Before k.ledger := by
  rcases List.mem_append.1 hs with hs | hs
  · exact h.ledger s hs
  · rw [List.mem_singleton.1 hs]
    exact .refl _

/-- **By its own baseline, the condition is what the rule says**: an
instance meets it that was restarted often enough since the window was
opened, and in a first window one whose count is high enough. -/
theorem holds_own (hlog : Traced (Found rules) before) (h : Found rules before k)
    (hrate : rateOf rules k.idx = some (threshold, within)) (hown : k.Own before) :
    match k.opener before with
    | some s => k.holds = true ↔
        s.ledger.restarted k.info.id + threshold ≤ k.ledger.restarted k.info.id
    | none => k.holds = true ↔ threshold ≤ k.ledger.counts k.info.id := by
  have hrate' : rateOf k.before.rules k.idx = some (threshold, within) := by rw [h.same, hrate]
  have hlast : latest (fun s => s.shares k) (before ++ [k]) = some k := by
    rw [latest_concat, if_pos]
    simp [Sight.shares]
  have hopened := opened (traced_concat.2 ⟨hlog, h⟩) hrate hlast
  unfold Sight.Own at hown
  cases hopener : k.opener before with
  | none =>
    have hopener' : latest (fun s => s.shares k && s.slides) (before ++ [k]) = none := hopener
    rw [hopener'] at hopened
    have hzero : (k.after within).1 = 0 := hopened
    simp only [Sight.holds_iff hrate', hzero, h.tells, Nat.sub_zero]
  | some s =>
    have hopener' : latest (fun s => s.shares k && s.slides) (before ++ [k]) = some s := hopener
    rw [hopener'] at hopened
    rw [hopener] at hown
    have hafter : k.after within = (s.info.restarts, s.nowMs) := hopened
    obtain ⟨b, a, hsplit, -⟩ := latest_eq_some.1 hopener'
    have hsince := h.since (s := s) (by simp [hsplit])
    have hgrown := hsince.counts k.info.id hown.2
    have hmore := hsince.restarted k.info.id
    simp only [Sight.holds_iff hrate', hafter, h.tells, ← hown.1]
    omega

end Found

/-- **Own baselines make honest alerts**, evaluation by evaluation. -/
theorem honest_of_found {rules : List Rule} {sights : List Sight}
    (h : Traced (Found rules) sights) (hown : OwnBaselines rules sights) :
    Honest rules sights := by
  intro before k after hsplit threshold within hrate
  have hk := h before k after hsplit
  have hlog := h.before hsplit
  have hkown := hown before k after hsplit (by simp [hrate])
  have hholds := Found.holds_own hlog hk hrate hkown
  have hrate' : rateOf k.before.rules k.idx = some (threshold, within) := by rw [hk.same, hrate]
  have hlast : latest (fun s => s.shares k) (before ++ [k]) = some k := by
    rw [latest_concat, if_pos]
    simp [Sight.shares]
  have hopened := Found.opened (traced_concat.2 ⟨hlog, hk⟩) hrate hlast
  constructor
  · rintro ⟨s', hs', hshares, hslides⟩ hmet
    cases hopener : k.opener before with
    | none =>
      have hno := latest_eq_none.1 hopener s' hs'
      simp [hshares, hslides] at hno
    | some s =>
      have hopener' : latest (fun s => s.shares k && s.slides) (before ++ [k]) = some s := hopener
      rw [hopener] at hholds
      rw [hopener'] at hopened
      have hafter : k.after within = (s.info.restarts, s.nowMs) := hopened
      obtain ⟨b, a, hs, -⟩ := latest_eq_some.1 hopener'
      refine ⟨s, by simp [hs], ?_, hholds.1 hmet⟩
      have hle := k.le_after within
      rwa [hafter] at hle
  · intro earlier p between hbefore hshares hid hstill hmany
    have hp : p ∈ before := by simp [hbefore]
    have hsince := hk.ledger p hp
    cases hopener : k.opener before with
    | none =>
      rw [hopener] at hholds
      unfold Sight.Own at hkown
      rw [hopener] at hkown
      have hgrown := hsince.counts k.info.id (hkown p hp hshares hid)
      exact hholds.2 (by omega)
    | some s =>
      have hopener' : latest (fun s => s.shares k && s.slides) (before ++ [k]) = some s := hopener
      rw [hopener] at hholds
      obtain ⟨b, a, hs, hkind, -⟩ := latest_eq_some.1 hopener'
      simp only [Bool.and_eq_true] at hkind
      have hmem : s ∈ earlier ++ [p] := by
        have hin : s ∈ (earlier ++ [p]) ++ (between ++ [k]) := by
          rw [List.append_assoc, List.singleton_append, ← List.cons_append, ← List.append_assoc,
            ← hbefore, hs]
          simp
        refine (List.mem_append.1 hin).resolve_right fun hlate => ?_
        rw [hstill s hlate hkind.1] at hkind
        cases hkind.2
      have hpfound := h earlier p (between ++ k :: after) (by simp [hsplit, hbefore])
      have hto := (hpfound.since hmem).restarted k.info.id
      exact hholds.2 (by omega)

/-! ## Runs -/

/-- The engine's windows are those of the evaluations so far. -/
structure Kept (rules : List Rule) (ledger : Ledger) (stamp : ℕ) (log : List Sight)
    (r : Rules) : Prop where
  same : r.rules = rules
  windows : ∀ idx threshold within, rateOf rules idx = some (threshold, within) → ∀ name,
    r.window name idx = (latest (fun s => s.info.name = name ∧ s.idx = idx) log).map
      fun s => s.after within
  ledger : ∀ s ∈ log, s.ledger.Before ledger
  stamps : ∀ s ∈ log, s.nowMs ≤ stamp
  found : Traced (Found rules) log

namespace Kept

variable {rules : List Rule} {ledger : Ledger} {stamp nowMs : ℕ} {log : List Sight} {r : Rules}

/-- One evaluation. -/
theorem sightRule (h : Kept rules ledger nowMs log r) {idx : ℕ} (hidx : idx < r.rules.length)
    {info : ProcessInfo} (htells : info.restarts = ledger.counts info.id) :
    Kept rules ledger nowMs (log ++ (sightRule info nowMs ledger r idx).2)
      (Bark.sightRule info nowMs ledger r idx).1 := by
  obtain ⟨k, -, -, -, heval⟩ := Rules.rowRule_spec info nowMs hidx
  refine ⟨heval.rules.trans h.same, fun i threshold within hrate name => ?_, fun s hs => ?_,
    fun s hs => ?_, traced_concat.2 ⟨h.found, h.same, fun threshold within hrate => ?_, h.ledger,
      h.stamps, htells⟩⟩
  · show (Rules.rowRule info nowMs r idx).1.window name i = _
    rw [Rules.rowRule_window hidx, h.same, Bark.sightRule, latest_concat]
    by_cases hkey : info.name = name ∧ idx = i
    · obtain ⟨rfl, rfl⟩ := hkey
      simp only [hrate, and_self, decide_true, if_true, Option.map_some, Sight.after, Sight.window]
    · have hkey' : ¬ (name = info.name ∧ i = idx) := fun hk => hkey ⟨hk.1.symm, hk.2.symm⟩
      simp only [hkey, decide_false, Bool.false_eq_true, if_false]
      rw [← h.windows i threshold within hrate name]
      cases rateOf rules idx with
      | none => rfl
      | some rate => simp only [hkey', if_false]
  · rcases List.mem_append.1 hs with hs | hs
    · exact h.ledger s hs
    · rw [List.mem_singleton.1 hs]
      exact .refl _
  · rcases List.mem_append.1 hs with hs | hs
    · exact h.stamps s hs
    · rw [List.mem_singleton.1 hs]
  · exact h.windows idx threshold within hrate info.name

theorem sightPoll (h : Kept rules ledger stamp log r) (hle : stamp ≤ nowMs)
    {flock : List ProcessInfo} (htells : ∀ info ∈ flock, info.restarts = ledger.counts info.id) :
    Kept rules ledger nowMs (log ++ (sightPoll r flock nowMs ledger).2)
      (Bark.sightPoll r flock nowMs ledger).1 := by
  have hlearn : Kept rules ledger nowMs log (r.learn flock) := by
    have hstamps : ∀ s ∈ log, s.nowMs ≤ nowMs := fun s hs => (h.stamps s hs).trans hle
    unfold Rules.learn
    split
    · exact ⟨h.same, h.windows, h.ledger, hstamps, h.found⟩
    · exact ⟨h.same, h.windows, h.ledger, hstamps, h.found⟩
  refine feed_rule (I := Kept rules ledger nowMs) (fun log r info hinfo hrow => ?_) hlearn
  refine feed_rule (I := Kept rules ledger nowMs) (fun log r' idx hidx hr => ?_) hrow
  refine hr.sightRule ?_ (htells info hinfo)
  rw [hr.same, ← hrow.same]
  exact List.mem_range.1 hidx

theorem later (h : Kept rules ledger stamp log r) {ledger' : Ledger}
    (hledger : ledger.Before ledger') : Kept rules ledger' stamp log r :=
  ⟨h.same, h.windows, fun s hs => (h.ledger s hs).trans hledger, h.stamps, h.found⟩

theorem turn {w : Watch} (h : Kept rules w.ledger w.stamp log w.rules) {t : Turn}
    (htells : w.Tells t) :
    Kept rules (w.turn t).1.ledger (w.turn t).1.stamp (log ++ (w.turn t).2) (w.turn t).1.rules := by
  cases t with
  | restart id => simpa [Watch.turn] using h.later (.restart w.ledger id)
  | reset id => simpa [Watch.turn] using h.later (.reset w.ledger id)
  | poll flock nowMs => exact h.sightPoll htells.1 htells.2

theorem turns {w : Watch} (h : Kept rules w.ledger w.stamp log w.rules) {turns : List Turn}
    (htells : Drives (fun w t => (w.turn t).1) Watch.Tells w turns) :
    Traced (Found rules) (log ++ (w.turns turns).2) := by
  induction turns generalizing w log with
  | nil => simpa [Watch.turns] using h.found
  | cons t turns ih =>
    have hrest := ih (h.turn htells.1) htells.2
    rwa [List.append_assoc] at hrest

end Kept

/-- **Where every baseline is the instance's own, the rate alerts are
honest**: for every rule set the engine accepts, and every run of polls
that tell the instances' counts, with restarts and resets between them. -/
theorem windows_own {regex : Compile} {rules : List Rule} {sinks : Std.ExtTreeMap String Sink}
    {r : Rules} (hnew : Rules.new regex rules sinks = .ok r) (ledger : Ledger)
    (turns : List Turn)
    (htells : Drives (fun w t => (Watch.turn w t).1) Watch.Tells ⟨r, ledger, 0⟩ turns)
    (hown : OwnBaselines rules (Watch.turns ⟨r, ledger, 0⟩ turns).2) :
    Honest rules (Watch.turns ⟨r, ledger, 0⟩ turns).2 := by
  obtain ⟨logRules, -, rfl⟩ := Rules.new_eq_ok hnew
  have hkept : Kept rules ledger 0 [] ⟨rules, ∅, logRules, ∅⟩ := by
    refine ⟨rfl, fun idx threshold within _ name => ?_, by simp, by simp, traced_nil⟩
    simp [Rules.window, subjectState, SubjectState.fresh]
  have hfound := Kept.turns (w := ⟨⟨rules, ∅, logRules, ∅⟩, ledger, 0⟩) hkept htells
  exact honest_of_found hfound hown

/-- Five restarts within a minute. -/
def fivePerMinute : List Rule := [⟨.restartRate 5 ⟨60000⟩, ["ops"], ⟨300000⟩⟩]

/-- The engine built of them. -/
def minuteWatch : Rules := ⟨fivePerMinute, ∅, [], ∅⟩

/-- Patterns are not asked for. -/
def patternless : Compile := fun _ => .error "no patterns"

theorem new_fivePerMinute : Rules.new patternless fivePerMinute oneSink = .ok minuteWatch := rfl

/-- An instance of `web`, with its count. -/
def webRow (id restarts : ℕ) : ProcessInfo := ⟨id, "web", .online, restarts, none, none⟩

/-- One instance, whose window is slid and which then comes up to the
rate. -/
def flapping : List Turn :=
  [.poll [webRow 0 0] 0, .restart 0, .poll [webRow 0 1] 70000, .restart 0, .restart 0,
    .restart 0, .restart 0, .restart 0, .poll [webRow 0 6] 80000]

/-- Nothing has happened yet. -/
def newborn : Ledger := ⟨fun _ => 0, fun _ => 0, fun _ => 0⟩

theorem windows_own_flapping :
    Honest fivePerMinute (Watch.turns ⟨minuteWatch, newborn, 0⟩ flapping).2 :=
  windows_own new_fivePerMinute newborn flapping (by decide +kernel) (by decide +kernel)

/-- Two instances at rest, of which one was restarted ten times long ago. -/
def atRest : List Turn :=
  [.poll [webRow 0 0, webRow 1 10] 0, .poll [webRow 0 0, webRow 1 10] 70000,
    .poll [webRow 0 0, webRow 1 10] 80000]

/-- Their counts. -/
def seasoned : Ledger := ⟨fun id => if id = 1 then 10 else 0, fun _ => 0, fun _ => 0⟩

/-- **A sibling's baseline raises the alarm.** The window is slid to the
first instance's count, the second is measured by it, and its ten restarts
of long ago meet the condition in every window from then on. -/
theorem window_of_sibling : ∃ (r : Rules) (ledger : Ledger) (turns : List Turn),
    Rules.new patternless fivePerMinute oneSink = .ok r ∧
      Drives (fun w t => (Watch.turn w t).1) Watch.Tells ⟨r, ledger, 0⟩ turns ∧
        ¬ Honest fivePerMinute (Watch.turns ⟨r, ledger, 0⟩ turns).2 := by
  refine ⟨minuteWatch, seasoned, atRest, new_fivePerMinute, by decide +kernel, fun h => ?_⟩
  have hsound : Traced (fun before k => rateOf fivePerMinute k.idx = some (5, ⟨60000⟩) →
      k.Sound before 5 ⟨60000⟩) (Watch.turns ⟨minuteWatch, seasoned, 0⟩ atRest).2 :=
    h.imp fun before k hk hrate => (hk 5 ⟨60000⟩ hrate).1
  revert hsound
  decide +kernel

end Bark

end Shep

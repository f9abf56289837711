import Shep.Sections.Kept

/-!
# What a migration comes to

Over whole runs: what is under `[dog]` or in `dogs.toml` stays in one of the
two, a migration that answers `Ok` has moved what it names, one that
refuses has left both files, and when a further one succeeds.
-/

namespace Shep

namespace Sections

variable {w w' w₀ u : World} {p q : ℕ} {o : Outcome} {doc left : ShepToml} {v : Value}
variable {name : String} {k : Option String} {merged d : Document} {moved : List String} {e : Event}
variable {history history' : List (World × Event)}

/-! ## Every value stays -/

theorem start_striking {job : Job} (h : Striking (w.next (.start p job))) : Striking w := by
  simp only [World.next] at h
  split at h
  · obtain ⟨q, moved, left, hq⟩ := h
    by_cases hqp : q = p
    · subst hqp
      rw [put_procs_self] at hq
      cases job <;> cases hq
    · rw [put_procs_ne _ hqp] at hq
      exact ⟨q, moved, left, hq⟩
  · exact h

theorem start_files {job : Job} :
    (w.next (.start p job)).shep = w.shep ∧ (w.next (.start p job)).dogs = w.dogs := by
  simp only [World.next]
  split <;> exact ⟨rfl, rfl⟩

theorem crash_files : (w.crash p).shep = w.shep ∧ (w.crash p).dogs = w.dogs := by
  unfold World.crash
  split <;> exact ⟨rfl, rfl⟩

theorem crash_procs {proc : Process} (hq : (w.crash p).procs q = proc) (hne : proc ≠ .crashed) :
    w.procs q = proc := by
  unfold World.crash at hq
  split at hq
  · exact hq
  · exact hq
  · exact hq
  · exact hq
  · exact hq
  · by_cases hqp : q = p
    · subst hqp
      exact absurd ((put_procs_self _).symm.trans hq).symm hne
    · rw [← hq]
      exact (put_procs_ne _ hqp).symm

/-- **One event.** -/
theorem Safe.next (h : Safe w k v) (hl : Locked w) (hsound : Sound w e) (hspares : Spares k v w e) :
    Safe (w.next e) k v := by
  cases e with
  | start p job =>
    refine h.imp (fun h => h.of_eq start_files.2) fun h => ⟨h.1.of_eq start_files.1, fun hs => ?_⟩
    exact h.2 (start_striking hs)
  | act p o => exact h.act hl hsound hspares
  | crash p =>
    refine h.imp (fun h => h.of_eq crash_files.2) fun h => ⟨h.1.of_eq crash_files.1, ?_⟩
    rintro ⟨q, moved, left, hq⟩
    exact h.2 ⟨q, moved, left, crash_procs hq (fun e => by cases e)⟩
  | rewriteShep file => exact hspares
  | rewriteDogs file => exact hspares

/-- **A whole run.** -/
theorem Safe.run (h : Safe w k v) (hl : Locked w) (hrun : Run Step w history w')
    (hsound : Meets Sound history) (hspares : Meets (Spares k v) history) : Safe w' k v := by
  have := hrun.invariant (P := fun w => Locked w ∧ Safe w k v)
    (C := fun w e => Sound w e ∧ Spares k v w e)
    (fun s hs => ⟨hsound s hs, hspares s hs⟩) ⟨hl, h⟩ ?_
  · exact this.2
  · rintro w e w' ⟨hl, h⟩ ⟨hsound, hspares⟩ rfl
    exact ⟨hl.next hsound, h.next hl hsound hspares⟩

/-- No other program replaces the file. -/
def Undisturbed (_ : World) : Event → Prop
  | .rewriteShep _ | .rewriteDogs _ => False
  | .start _ _ | .act _ _ | .crash _ => True

/-- **Text that does not read is kept too.** -/
theorem Locked.unread_run (hl : Locked w) (hrun : Run Step w history w')
    (hsound : Meets Sound history) (hrest : Meets Undisturbed history) :
    (ShepToml.opened w.shep = none → w'.shep = w.shep) ∧
      ((∀ d, World.existing w.dogs ≠ .ok d) → w'.dogs = w.dogs) := by
  have := hrun.invariant (P := fun s => Locked s ∧
      (ShepToml.opened w.shep = none → s.shep = w.shep) ∧
        ((∀ d, World.existing w.dogs ≠ .ok d) → s.dogs = w.dogs))
    (C := fun w e => Sound w e ∧ Undisturbed w e)
    (fun s hs => ⟨hsound s hs, hrest s hs⟩) ⟨hl, fun _ => rfl, fun _ => rfl⟩ ?_
  · exact this.2
  · rintro s e s' ⟨hl, hshep, hdogs⟩ ⟨hsound, hrest⟩ rfl
    refine ⟨hl.next hsound, ?_⟩
    cases e with
    | start p job =>
      exact ⟨fun hnone => start_files.1.trans (hshep hnone),
        fun hnone => start_files.2.trans (hdogs hnone)⟩
    | act p o =>
      refine ⟨fun hnone => ?_, fun hnone => ?_⟩
      · rw [← hshep hnone]
        exact hl.unread.1 (by rw [hshep hnone, hnone])
      · rw [← hdogs hnone]
        exact hl.unread.2 (by rwa [hdogs hnone])
    | crash p =>
      exact ⟨fun hnone => crash_files.1.trans (hshep hnone),
        fun hnone => crash_files.2.trans (hdogs hnone)⟩
    | rewriteShep file => exact hrest.elim
    | rewriteDogs file => exact hrest.elim

/-! ## An answer that moved something -/

/-- An event that leaves a section of `dogs.toml` to the migrations. -/
def Leaves (name : String) (w : World) : Event → Prop
  | .act p o => o ≠ .failed → ∀ merged, w.procs p ≠ .placing name merged
  | .rewriteDogs _ => False
  | .start _ _ | .crash _ | .rewriteShep _ => True

/-- What a migration is about to strike under a name is in `dogs.toml`. -/
def Landed (name : String) (w : World) : Prop :=
  Striking w → ∀ doc v, ShepToml.opened w.shep = some doc → (incoming doc)[name]? = some v →
    ∃ d : Document, w.dogs = .doc d ∧ d[name]? = some v

theorem Locked.unique (h : Locked w) (hp : (w.procs p).holdsShep = true)
    (hq : (w.procs q).holdsShep = true) : p = q :=
  Option.some.inj (((h.shep p).1 hp).symm.trans ((h.shep q).1 hq))

theorem declares_of_incoming (hv : (incoming doc)[name]? = some v) : declaresNothing v = false :=
  (incoming_eq_some.1 hv).2.2

theorem Landed.act (h : Landed name w) (hl : Locked w) (hsound : Sound w (.act p o))
    (hleaves : Leaves name w (.act p o)) : Landed name (w.act p o) := by
  rintro ⟨q, moved, left, hq⟩ doc v hdoc hv
  by_cases hqp : q = p
  · subst hqp
    have hknows := (hl.act hsound).knows q
    rw [hq] at hknows
    obtain ⟨doc', hdoc', -, -, hmoved⟩ := hknows
    cases Option.some.inj (hdoc.symm.trans hdoc')
    have hcame := came_act w q o
    rw [hq] at hcame
    cases hcame with
    | moved hp hs hd =>
      rw [hs] at hdoc
      exact ⟨_, hd, hl.moving_get hp hdoc hv⟩
    | bare hs hd =>
      have hmem : name ∈ (incoming doc).keys := by
        rw [Std.ExtTreeMap.mem_keys, ← Std.ExtTreeMap.isSome_getElem?_iff_mem, hv]
        rfl
      rw [← hmoved] at hmem
      cases hmem
    | stood hp hsame =>
      rw [hsame] at hdoc ⊢
      exact h ⟨q, moved, left, hp⟩ doc v hdoc hv
    | other hstrike hok => exact absurd rfl (hstrike _ _)
  · rw [act_procs_ne hqp] at hq
    have hheld : (w.procs q).holdsShep = true := by
      rw [hq]
      rfl
    have hshep : (w.act p o).shep = w.shep := by
      cases act_acts w p o with
      | stays hstays => exact hstays.shep
      | strikes _ _ hp _ _ _ _ => exact absurd (hl.unique hheld (by rw [hp]; rfl)) hqp
      | writes _ _ _ hs _ _ => exact hs
    rw [hshep] at hdoc
    obtain ⟨d, hd, hget⟩ := h ⟨q, moved, left, hq⟩ doc v hdoc hv
    exact hl.dogs_get hd hget (declares_of_incoming hv) hleaves

theorem Landed.next (h : Landed name w) (hl : Locked w) (hsound : Sound w e)
    (hleaves : Leaves name w e) : Landed name (w.next e) := by
  cases e with
  | start p job =>
    intro hstriking doc v hdoc hv
    rw [start_files.1] at hdoc
    rw [start_files.2]
    exact h (start_striking hstriking) doc v hdoc hv
  | act p o => exact h.act hl hsound hleaves
  | crash p =>
    rintro ⟨q, moved, left, hq⟩ doc v hdoc hv
    simp only [World.next] at hq hdoc ⊢
    rw [crash_files.1] at hdoc
    rw [crash_files.2]
    exact h ⟨q, moved, left, crash_procs hq (fun e => by cases e)⟩ doc v hdoc hv
  | rewriteShep file =>
    simp only [World.next]
    split
    · next hfree =>
      rintro ⟨q, moved, left, hq⟩
      have := (hl.shep q).1 (by
        rw [show w.procs q = _ from hq]
        rfl)
      rw [hfree] at this
      cases this
    · exact h
  | rewriteDogs file => exact hleaves.elim

theorem Locked.not_striking (h : Locked w) (hfree : w.shepLock = none) : ¬ Striking w := by
  rintro ⟨p, moved, left, hp⟩
  have := (h.shep p).1 (by rw [hp]; rfl)
  rw [hfree] at this
  cases this

theorem Landed.run (hl : Locked w) (hfree : w.shepLock = none) (hrun : Run Step w history w')
    (hsound : Meets Sound history) (hleaves : Meets (Leaves name) history) : Landed name w' := by
  have := hrun.invariant (P := fun w => Locked w ∧ Landed name w)
    (C := fun w e => Sound w e ∧ Leaves name w e)
    (fun s hs => ⟨hsound s hs, hleaves s hs⟩)
    ⟨hl, fun hstriking => absurd hstriking (hl.not_striking hfree)⟩ ?_
  · exact this.2
  · rintro w e w' ⟨hl, h⟩ ⟨hsound, hleaves⟩ rfl
    exact ⟨hl.next hsound, h.next hl hsound hleaves⟩

/-- `shep.toml` reads, and has no `[dog]` table. -/
def Dogless (file : File ShepToml) : Prop :=
  ∃ doc, ShepToml.opened file = some doc ∧ doc.hasDogTable = false

/-- **A migration answers `Ok`**: `shep.toml` has no `[dog]`, and every
section it names was there with its values until then and is in `dogs.toml`
with them, unless a section write or another program has replaced it since. -/
theorem Locked.answers_ok (hl : Locked w) (hbefore : ∀ answer, w.procs p ≠ .migrated answer)
    (hafter : (w.act p o).procs p = .migrated (.ok moved)) :
    Dogless (w.act p o).shep ∧ ∀ name ∈ moved, ∃ doc v,
      w.shep = .doc doc ∧ (incoming doc)[name]? = some v ∧
        (Landed name w → ∃ d : Document, (w.act p o).dogs = .doc d ∧ d[name]? = some v) := by
  have hcame := came_act w p o
  rw [hafter] at hcame
  cases hcame with
  | struck hp hs hd =>
    have hknows := hl.knows p
    rw [hp] at hknows
    obtain ⟨doc, hdoc, -, rfl, rfl⟩ := hknows
    refine ⟨⟨doc.struck, by rw [hs]; rfl, rfl⟩, fun name hname => ?_⟩
    rw [Std.ExtTreeMap.mem_keys, ← Std.ExtTreeMap.isSome_getElem?_iff_mem] at hname
    obtain ⟨v, hv⟩ := Option.isSome_iff_exists.1 hname
    have hfile : w.shep = .doc doc := by
      cases hshep : w.shep with
      | doc doc' =>
        rw [hshep] at hdoc
        cases hdoc
        rfl
      | missing =>
        rw [hshep] at hdoc
        cases hdoc
        simp [incoming, ShepToml.takeDogSections, ShepToml.sections] at hv
      | unreadable | broken text =>
        rw [hshep] at hdoc
        cases hdoc
    refine ⟨doc, v, hfile, hv, fun hlanded => ?_⟩
    rw [hd]
    exact hlanded ⟨p, _, _, hp⟩ doc v hdoc hv
  | nothing hdoc hnone hs hd =>
    exact ⟨⟨_, by rw [hs]; exact hdoc, hnone⟩, fun _ h => absurd h List.not_mem_nil⟩
  | stood hp _ => exact absurd hp (hbefore _)
  | other _ hok => exact absurd rfl (hok _)

/-! ## An answer that refuses -/

/-- Whose event it is. -/
def Event.actor : Event → Option ℕ
  | .start p _ | .act p _ | .crash p => some p
  | .rewriteShep _ | .rewriteDogs _ => none

/-- None of a process's own events has changed a file. -/
def Quiet (p : ℕ) (history : List (World × Event)) : Prop :=
  ∀ s ∈ history, s.2.actor = some p →
    (s.1.next s.2).shep = s.1.shep ∧ (s.1.next s.2).dogs = s.1.dogs

/-- A process that may have replaced a file, and will not answer that its
migration refused. -/
def Process.spent : Process → Bool
  | .striking (_ :: _) _ | .migrated (.ok _) | .seeded _ | .placed _ | .crashed => true
  | _ => false

/-- **A replacement by a migration** that fails leaves the file as it was,
and that of `shep.toml` does not fail once `dogs.toml` is replaced. -/
def Whole (w : World) : Event → Prop
  | .act p .failed => ∀ moved left, w.procs p = .striking moved left → moved = []
  | .act p .unflushed => (∀ merged moved left, w.procs p ≠ .moving merged moved left) ∧
      ∀ moved left, w.procs p ≠ .striking moved left
  | _ => True

/-- Having replaced a file stays true. -/
theorem spent_act (hwhole : Whole w (.act p o)) (h : (w.procs p).spent = true) :
    ((w.act p o).procs p).spent = true := by
  cases hp : w.procs p with
  | striking moved left =>
    cases o with
    | done =>
      rw [World.act, hp]
      simp [World.save, Process.spent]
    | failed =>
      rw [hp, hwhole moved left hp] at h
      cases h
    | unflushed => exact absurd hp (hwhole.2 moved left)
  | migrated _ | seeded _ | placed _ | crashed =>
    rw [World.act, hp]
    dsimp only
    exact h
  | idle | migrating | waiting _ | taken _ _ | moving _ _ _ | seeding _ _ | sowing _ _
  | planting _ _ | setting _ _ | placing _ _ =>
    rw [hp] at h
    cases h

/-- A replacement shows. -/
theorem stays_or_spent (hl : Locked w) (hwhole : Whole w (.act p o)) :
    ((w.act p o).shep = w.shep ∧ (w.act p o).dogs = w.dogs) ∨
      ((w.act p o).procs p).spent = true := by
  cases act_acts w p o with
  | stays hstays => exact .inl ⟨hstays.shep, hstays.dogs⟩
  | strikes moved left hp ho _ _ _ =>
    cases o with
    | done =>
      refine .inr ?_
      rw [World.act, hp]
      simp [World.save, Process.spent]
    | failed => exact absurd rfl ho
    | unflushed => exact absurd hp (hwhole.2 moved left)
  | writes merged hw ho _ _ _ =>
    refine .inr ?_
    have hknows := hl.knows p
    cases hp : w.procs p with
    | moving merged moved left =>
      rw [hp] at hknows
      obtain ⟨doc, before, -, -, -, hmoved, hne, -⟩ := hknows
      cases o with
      | done =>
        cases moved with
        | nil =>
          have hnil := congrArg List.isEmpty hmoved
          rw [Std.ExtTreeMap.isEmpty_keys, hne] at hnil
          cases hnil
        | cons name names =>
          rw [World.act, hp]
          simp [World.moveSections, Process.spent]
      | failed => exact absurd rfl ho
      | unflushed => exact absurd hp (hwhole.1 merged moved left)
    | planting name merged | placing name merged =>
      rw [World.act, hp]
      simp [World.writeDogs, Process.spent]
    | idle | migrating | waiting _ | taken _ _ | striking _ _ | migrated _ | seeding _ _
    | sowing _ _ | seeded _ | setting _ _ | placed _ | crashed =>
      rw [hp] at hw
      cases hw

/-- **A run's step.** -/
theorem quiet_snoc (hl : Locked w) (hwhole : Whole w e)
    (h : Quiet p history ∨ (w.procs p).spent = true) :
    Quiet p (history ++ [(w, e)]) ∨ ((w.next e).procs p).spent = true := by
  have hkeeps : Quiet p history →
      (e.actor = some p → (w.next e).shep = w.shep ∧ (w.next e).dogs = w.dogs) →
      Quiet p (history ++ [(w, e)]) := by
    intro hquiet hsame s hs
    rcases List.mem_append.1 hs with hs | hs
    · exact hquiet s hs
    · rw [List.mem_singleton.1 hs]
      exact hsame
  cases e with
  | start q job =>
    rcases h with h | h
    · exact .inl (hkeeps h fun _ => start_files)
    · refine .inr ?_
      simp only [World.next]
      split
      · next hidle =>
        have hqp : p ≠ q := by
          rintro rfl
          rw [hidle] at h
          cases h
        rwa [put_procs_ne _ hqp]
      · exact h
  | act q o =>
    have hnext : w.next (.act q o) = w.act q o := rfl
    by_cases hqp : p = q
    · subst hqp
      cases hspent : (w.procs p).spent with
      | true =>
        refine .inr ?_
        rw [hnext]
        exact spent_act hwhole hspent
      | false =>
        rw [hspent] at h
        rw [hnext] at hkeeps ⊢
        have hquiet := h.resolve_right Bool.false_ne_true
        exact (stays_or_spent hl hwhole).imp_left fun hsame => hkeeps hquiet fun _ => hsame
    · rcases h with h | h
      · exact .inl (hkeeps h fun hactor => absurd (Option.some.inj hactor).symm hqp)
      · refine .inr ?_
        simp only [World.next]
        rwa [act_procs_ne hqp]
  | crash q =>
    rcases h with h | h
    · exact .inl (hkeeps h fun _ => crash_files)
    · refine .inr ?_
      by_cases hcrashed : (w.crash q).procs p = .crashed
      · simp only [World.next, hcrashed]
        rfl
      · simp only [World.next]
        rwa [← crash_procs rfl hcrashed]
  | rewriteShep file | rewriteDogs file =>
    refine h.imp (fun h => hkeeps h (fun hactor => by cases hactor)) fun h => ?_
    simp only [World.next]
    split
    · exact h
    · exact h

/-- **A migration that refuses has replaced nothing.** -/
theorem quiet_run (hl : Locked w) (hrun : Run Step w history w') (hsound : Meets Sound history)
    (hwhole : Meets Whole history) :
    Locked w' ∧ (Quiet p history ∨ (w'.procs p).spent = true) := by
  induction hrun with
  | nil =>
    refine ⟨hl, .inl fun s hs => ?_⟩
    cases hs
  | @snoc t _ _ e _ hstep ih =>
    obtain ⟨hl, h⟩ := ih hsound.init hwhole.init
    have hnext : t.next e = _ := hstep
    rw [← hnext]
    exact ⟨hl.next hsound.last, quiet_snoc hl hwhole.last h⟩

end Sections

end Shep

import Shep.Sections.Moved

/-!
# Moving the sections, and moving them again

A migration that nothing interrupts, and the files it succeeds on; and what
the moves keep over any run.
-/

namespace Shep

namespace Sections

variable {w w' w₀ u : World} {p q : ℕ} {o : Outcome} {doc left : ShepToml} {v : Value}
variable {name : String} {k : Option String} {merged taken d : Document} {moved : List String}
variable {history history' : List (World × Event)} {e : Event}

/-! ## A migration by itself -/

/-- A migration that nothing interrupts and nothing fails. -/
def migration (p : ℕ) : List Event :=
  [.start p .migrateDogSections, .act p .done, .act p .done, .act p .done, .act p .done,
    .act p .done]

/-- What it answers and leaves, as one function of the two files. -/
def alone (shep : File ShepToml) (dogs : File Document) :
    Except DogMigrationError (List String) × File ShepToml × File Document :=
  match unlockedRead shep with
  | .waiting declared =>
    match ShepToml.opened shep with
    | none => (.error .toml, shep, dogs)
    | some doc =>
      match taking declared doc with
      | .error e => (.error e, shep, dogs)
      | .ok taken =>
        if taken.isEmpty then (.ok [], .doc doc.struck, dogs)
        else
          match merging taken dogs with
          | .error e => (.error e, shep, dogs)
          | .ok merged => (.ok taken.keys, .doc doc.struck, .doc merged)
  | .migrated answer => (answer, shep, dogs)
  | _ => (.error .read, shep, dogs)

theorem act_migrated {answer : Except DogMigrationError (List String)}
    (hp : w.procs p = .migrated answer) : w.act p o = w := by
  rw [World.act, hp]

theorem put_put (proc proc' : Process) : (w.put p proc).put p proc' = w.put p proc' := by
  simp [World.put]

theorem drive_read (hidle : w.procs p = .idle) :
    drive World.next w (migration p) =
      (((((w.put p (unlockedRead w.shep)).act p .done).act p .done).act p .done).act p .done) := by
  have hstart : w.next (.start p .migrateDogSections) = w.put p .migrating := by
    rw [World.next, hidle]
    rfl
  have hread : (w.put p .migrating).act p .done = w.put p (unlockedRead w.shep) := by
    rw [World.act, put_procs_self]
    exact put_put _ _
  simp only [migration, drive, hstart]
  simp only [World.next, hread]

/-- **The steps are the function.** -/
theorem drive_migration (hidle : w.procs p = .idle) (hs : w.shepLock = none)
    (hd : w.dogsLock = none) :
    drive World.next w (migration p) =
      { w.put p (.migrated (alone w.shep w.dogs).1) with
        shep := (alone w.shep w.dogs).2.1
        dogs := (alone w.shep w.dogs).2.2 } := by
  rw [drive_read hidle]
  rcases unlockedRead_cases w.shep with ⟨hread, -⟩ | hread | ⟨declared, hread⟩
  · simp [World.put, hread, alone, act_migrated]
  · simp [World.put, hread, alone, act_migrated]
  · cases hopen : ShepToml.opened w.shep with
    | none => simp [World.act, World.put, World.openLocked, alone, hs, hread, hopen]
    | some doc =>
      cases htaking : taking declared doc with
      | error e => simp [World.act, World.put, World.openLocked, alone, hs, hread, hopen, htaking]
      | ok taken =>
        by_cases hempty : taken.isEmpty = true
        · simp [World.act, World.put, World.openLocked, World.save, replace, alone, hs, hread,
            hopen, htaking, hempty]
        · cases hmerging : merging taken w.dogs with
          | error e =>
            simp [World.act, World.put, World.openLocked, World.lockDogs, alone, hs, hd, hread,
              hopen, htaking, hempty, hmerging]
          | ok merged =>
            simp [World.act, World.put, World.openLocked, World.lockDogs, World.moveSections,
              World.save, replace, alone, hs, hd, hread, hopen, htaking, hempty, hmerging]

/-- **The files a migration succeeds on.** `shep.toml` reads; where it has a
`[dog]` table, what has anything to lose there is a table; and where any
has, `dogs.toml` reads, holds tables only and nothing under its name. -/
def Settled (shep : File ShepToml) (dogs : File Document) : Prop :=
  ∃ doc, ShepToml.opened shep = some doc ∧
    (doc.hasDogTable = true → doc.Clean ∧ ((incoming doc).isEmpty = false →
      ∃ before : Document, readDogsDocument dogs = .ok before ∧ ∀ (name : String) (v : Value),
        (incoming doc)[name]? = some v → (before[name]?).any itemHasContent = false))

theorem mem_declaredDogNames : name ∈ doc.declaredDogNames ↔
    ∃ v, doc.sections[name]? = some v ∧ declaresNothing v = false := by
  rw [ShepToml.declaredDogNames, Std.ExtTreeMap.mem_keys,
    ← Std.ExtTreeMap.isSome_getElem?_iff_mem, Std.ExtTreeMap.getElem?_filter',
    Option.isSome_filter]
  simp [Option.any_eq_true]

/-- **The names of its own read refuse** just what is no section. -/
theorem taking_own (htable : doc.hasDogTable = true) :
    taking (some doc.declaredDogNames) doc = .ok taken ↔ doc.Clean ∧ taken = incoming doc := by
  have hcontains : ∀ name, (incoming doc).contains name = true ↔
      ∃ v, (incoming doc)[name]? = some v := by
    intro name
    rw [← Std.ExtTreeMap.isSome_getElem?_eq_contains, Option.isSome_iff_exists]
  constructor
  · intro h
    have hmissing : ∀ name ∈ doc.declaredDogNames, ∃ v, (incoming doc)[name]? = some v := by
      intro name hname
      rcases taking_ok h with ⟨-, -, hnone⟩ | ⟨-, -, hmissing⟩
      · rw [Option.some.inj hnone] at hname
        cases hname
      · have := List.filter_eq_nil_iff.1 hmissing name hname
        exact (hcontains name).1 (by simpa using this)
    refine ⟨fun k v hv hn => ?_, ?_⟩
    · cases k with
      | some name =>
        obtain ⟨v', hv'⟩ := hmissing name (mem_declaredDogNames.2 ⟨v, hv, hn⟩)
        have hsection := incoming_eq_some.1 hv'
        cases Option.some.inj (hsection.1.symm.trans hv)
        exact hsection.2.1
      | none =>
        cases hdog : doc.dog with
        | none => simp [ShepToml.value, hdog] at hv
        | some dog => cases dog <;> simp [ShepToml.value, ShepToml.hasDogTable, hdog] at hv htable
    · rcases taking_ok h with ⟨rfl, hempty, -⟩ | ⟨rfl, -, -⟩
      · exact (Std.ExtTreeMap.isEmpty_iff.1 hempty).symm
      · rfl
  · rintro ⟨hclean, rfl⟩
    have hdeclared : ∀ name ∈ doc.declaredDogNames, (incoming doc).contains name = true := by
      intro name hname
      obtain ⟨v, hv, hn⟩ := mem_declaredDogNames.1 hname
      obtain ⟨other, hother, htaken⟩ := hclean.incoming (k := some name) hv hn
      cases hother
      exact (hcontains name).2 ⟨v, htaken⟩
    have hmissing : missing (some doc.declaredDogNames) doc = [] := by
      refine List.filter_eq_nil_iff.2 fun name hname => ?_
      rw [hdeclared name hname]
      decide
    unfold taking
    by_cases hempty : (incoming doc).isEmpty = true
    · have hnone : doc.declaredDogNames = [] := by
        refine List.eq_nil_iff_forall_not_mem.2 fun name hname => ?_
        have hin := hdeclared name hname
        rw [Std.ExtTreeMap.isEmpty_iff.1 hempty] at hin
        simp at hin
      rw [if_pos ⟨hempty, by rw [hnone]⟩, Std.ExtTreeMap.isEmpty_iff.1 hempty]
    · rw [if_neg fun h => hempty h.1, if_neg]
      rintro (h | h)
      · exact h hmissing
      · exact hempty h

theorem merging_isOk {dogs : File Document} : (∃ merged, merging taken dogs = .ok merged) ↔
    ∃ before : Document, readDogsDocument dogs = .ok before ∧ ∀ (name : String) (v : Value),
      taken[name]? = some v → (before[name]?).any itemHasContent = false := by
  constructor
  · rintro ⟨merged, h⟩
    obtain ⟨before, hread, -, hapart⟩ := merging_ok h
    exact ⟨before, hread, hapart⟩
  · rintro ⟨before, hread, hapart⟩
    refine ⟨inserted before taken, ?_⟩
    rw [merging, hread]
    dsimp only
    rw [List.find?_eq_none.2]
    rintro ⟨name, v⟩ hmem
    rw [hapart name v (Table.mem_toList.1 hmem)]
    decide

/-- A document without a `[dog]` table is left alone. -/
theorem alone_dogless {shep : File ShepToml} {dogs : File Document} (h : Dogless shep) :
    alone shep dogs = (.ok [], shep, dogs) := by
  obtain ⟨doc, hopen, hnone⟩ := h
  have hread : unlockedRead shep = .migrated (.ok []) := by
    cases shep with
    | missing => rfl
    | unreadable => cases hopen
    | broken text => cases hopen
    | doc doc =>
      cases hopen
      have hsections : doc.sections = ∅ := by
        cases hdog : doc.dog with
        | none => simp [ShepToml.sections, hdog]
        | some dog => cases dog <;> simp [ShepToml.sections, ShepToml.hasDogTable, hdog] at hnone ⊢
      have hdeclared : doc.declaredDogNames = [] := by
        rw [ShepToml.declaredDogNames, hsections]
        rfl
      rw [unlockedRead, if_pos ⟨hdeclared, hnone⟩]
  rw [alone, hread]

/-- **When a migration by itself succeeds.** -/
theorem alone_ok_iff {shep : File ShepToml} {dogs : File Document} :
    (∃ names, (alone shep dogs).1 = .ok names) ↔ Settled shep dogs := by
  cases hopen : ShepToml.opened shep with
  | none =>
    refine iff_of_false ?_ ?_
    · rintro ⟨names, h⟩
      cases shep with
      | missing => cases hopen
      | doc doc => cases hopen
      | unreadable => cases h
      | broken text => cases h
    · rintro ⟨doc, hdoc, -⟩
      rw [hopen] at hdoc
      cases hdoc
  | some doc =>
    cases htable : doc.hasDogTable with
    | false =>
      refine iff_of_true ⟨[], ?_⟩ ⟨doc, hopen, fun h => ?_⟩
      · rw [alone_dogless ⟨doc, hopen, htable⟩]
      · rw [htable] at h
        cases h
    | true =>
      have hfile : shep = .doc doc := by
        cases shep with
        | missing =>
          cases hopen
          cases htable
        | unreadable => cases hopen
        | broken text => cases hopen
        | doc doc => rw [Option.some.inj hopen]
      have hread : unlockedRead shep = .waiting (some doc.declaredDogNames) := by
        rw [hfile, unlockedRead, if_neg]
        rintro ⟨-, h⟩
        rw [htable] at h
        cases h
      have hsettled : Settled shep dogs ↔ doc.Clean ∧ ((incoming doc).isEmpty = false →
          ∃ merged, merging (incoming doc) dogs = .ok merged) := by
        rw [merging_isOk]
        constructor
        · rintro ⟨doc', hdoc', h⟩
          cases Option.some.inj (hopen.symm.trans hdoc')
          exact h htable
        · exact fun h => ⟨doc, hopen, fun _ => h⟩
      rw [hsettled]
      simp only [alone, hread, hopen]
      cases htaking : taking (some doc.declaredDogNames) doc with
      | error e =>
        refine iff_of_false nofun fun h => ?_
        have := (taking_own htable).2 ⟨h.1, rfl⟩
        rw [htaking] at this
        cases this
      | ok taken =>
        obtain ⟨hclean, rfl⟩ := (taking_own htable).1 htaking
        cases hempty : (incoming doc).isEmpty with
        | true => simp [hempty, hclean]
        | false =>
          cases hmerging : merging (incoming doc) dogs with
          | error e => simp [hempty, hmerging]
          | ok merged => simp [hempty, hclean, hmerging]

/-- What it leaves when it succeeds has no `[dog]`. -/
theorem dogless_alone {shep : File ShepToml} {dogs : File Document} {names : List String}
    (h : (alone shep dogs).1 = .ok names) : Dogless (alone shep dogs).2.1 := by
  rcases unlockedRead_cases shep with ⟨hread, hnone⟩ | hread | ⟨declared, hread⟩
  · rw [alone, hread]
    exact hnone
  · rw [alone, hread] at h
    cases h
  · rw [alone, hread] at h ⊢
    dsimp only at h ⊢
    cases hopen : ShepToml.opened shep with
    | none =>
      rw [hopen] at h
      cases h
    | some doc =>
      rw [hopen] at h
      dsimp only at h ⊢
      cases htaking : taking declared doc with
      | error e =>
        rw [htaking] at h
        cases h
      | ok taken =>
        rw [htaking] at h
        dsimp only at h ⊢
        split
        · exact ⟨doc.struck, rfl, rfl⟩
        · next hne =>
          rw [if_neg hne] at h
          cases hmerging : merging taken dogs with
          | error e =>
            rw [hmerging] at h
            cases h
          | ok merged => exact ⟨doc.struck, rfl, rfl⟩

/-- **A migration, and the one after it.** -/
theorem settles (hidle : w.procs p = .idle) (hs : w.shepLock = none) (hd : w.dogsLock = none) :
    ((∃ names, (drive World.next w (migration p)).procs p = .migrated (.ok names)) ↔
        Settled w.shep w.dogs) ∧
      (Settled w.shep w.dogs → ∀ q, (drive World.next w (migration p)).procs q = .idle →
        (drive World.next w (migration p ++ migration q)).procs q = .migrated (.ok []) ∧
          (drive World.next w (migration p ++ migration q)).shep =
            (drive World.next w (migration p)).shep ∧
          (drive World.next w (migration p ++ migration q)).dogs =
            (drive World.next w (migration p)).dogs) := by
  have happend : ∀ (events events' : List Event) (w : World),
      drive World.next w (events ++ events') =
        drive World.next (drive World.next w events) events' := by
    intro events events'
    induction events with
    | nil => exact fun _ => rfl
    | cons e events ih => exact fun w => ih (w.next e)
  have hdrive := drive_migration hidle hs hd
  constructor
  · rw [← alone_ok_iff, hdrive]
    simp [World.put]
  · intro hsettled q hq
    obtain ⟨names, hnames⟩ := alone_ok_iff.2 hsettled
    have hdogless := dogless_alone hnames
    rw [happend]
    have hlocks : (drive World.next w (migration p)).shepLock = none ∧
        (drive World.next w (migration p)).dogsLock = none := by
      rw [hdrive]
      exact ⟨hs, hd⟩
    have hshep : Dogless (drive World.next w (migration p)).shep := by
      rw [hdrive]
      exact hdogless
    rw [drive_migration hq hlocks.1 hlocks.2, alone_dogless hshep]
    exact ⟨put_procs_self _, rfl, rfl⟩

/-! ## What the moves keep -/

/-- **Moving the sections.** After any run to `w` and on to `u` in which no
migration strikes what is no section: what was safe in `w` and was spared is
still held, and a file that does not read is as it was; a migration that
answers `Ok` leaves no `[dog]`, and each section it names, its values with
it, in `dogs.toml`; one that refused has changed neither file, where the
replacements were whole; and a further one succeeds on settled files, and
just there, and the one after it changes nothing. -/
theorem sections_kept (hstart : ∀ p, w₀.procs p = .idle) (hs : w₀.shepLock = none)
    (hd : w₀.dogsLock = none) (hrun : Run Step w₀ history w) (hsound : Meets Sound history)
    (hrun' : Run Step w history' u) (hsound' : Meets Sound history') :
    ((∀ k v, Safe w k v → Meets (Spares k v) history' → Holds u k v) ∧
      (Meets Undisturbed history' → (ShepToml.opened w.shep = none → u.shep = w.shep) ∧
        ((∀ d, World.existing w.dogs ≠ .ok d) → u.dogs = w.dogs))) ∧
    (∀ p o moved, (∀ answer, u.procs p ≠ .migrated answer) →
      (u.next (.act p o)).procs p = .migrated (.ok moved) →
        Dogless (u.next (.act p o)).shep ∧ ∀ name ∈ moved, ∃ doc v, u.shep = .doc doc ∧
          doc.sections[name]? = some v ∧ declaresNothing v = false ∧
            (w.shepLock = none → Meets (Leaves name) history' →
              ∃ d : Document, (u.next (.act p o)).dogs = .doc d ∧ d[name]? = some v)) ∧
    (Meets Whole (history ++ history') →
      ∀ p e, u.procs p = .migrated (.error e) → Quiet p (history ++ history')) ∧
    (u.shepLock = none → u.dogsLock = none → ∀ p, u.procs p = .idle →
      ((∃ names, (drive World.next u (migration p)).procs p = .migrated (.ok names)) ↔
          Settled u.shep u.dogs) ∧
        (Settled u.shep u.dogs → ∀ q, (drive World.next u (migration p)).procs q = .idle →
          (drive World.next u (migration p ++ migration q)).procs q = .migrated (.ok []) ∧
            (drive World.next u (migration p ++ migration q)).shep =
              (drive World.next u (migration p)).shep ∧
            (drive World.next u (migration p ++ migration q)).dogs =
              (drive World.next u (migration p)).dogs)) := by
  have hl : Locked w := .run hrun hsound hstart hs hd
  have hboth := hrun.append hrun'
  have hlu : Locked u := .run hboth (hsound.append hsound') hstart hs hd
  refine ⟨⟨fun k v h hspares => (h.run hl hrun' hsound' hspares).holds,
    hl.unread_run hrun' hsound'⟩, ?_, ?_, fun hs hd p hidle => settles hidle hs hd⟩
  · intro p o moved hbefore hafter
    obtain ⟨hdogless, hmoved⟩ := hlu.answers_ok hbefore hafter
    refine ⟨hdogless, fun name hname => ?_⟩
    obtain ⟨doc, v, hdoc, hv, hlands⟩ := hmoved name hname
    have hsection := incoming_eq_some.1 hv
    exact ⟨doc, v, hdoc, hsection.1, hsection.2.2,
      fun hfree hleaves => hlands (.run hl hfree hrun' hsound' hleaves)⟩
  · intro hwhole p e hp
    have hl₀ : Locked w₀ := .run (.nil w₀) (fun _ h => absurd h List.not_mem_nil) hstart hs hd
    have hquiet := (quiet_run (p := p) hl₀ hboth (hsound.append hsound') hwhole).2
    refine hquiet.resolve_right ?_
    rw [hp]
    exact Bool.false_ne_true

/-! ## Two runs -/

/-- One section, `[dog.a]` with `x = 1`. -/
def oneSection : Document := (∅ : Document).insert "a" (.table [("x", .scalar "1")])

/-- `shep.toml` with it, no `dogs.toml`, and nothing begun. -/
def atRest : World where
  shep := .doc { dog := some (.table oneSection) }
  dogs := .missing

/-- The process waits for `shep.toml`'s lock. -/
def Process.waits : Process → Bool
  | .waiting _ => true
  | _ => false

/-- The process is about to write a section it was asked to. -/
def Process.places : Process → Bool
  | .placing _ _ => true
  | _ => false

theorem sound_of_waits (h : (w.procs p).waits = false) : Sound w (.act p o) := by
  cases o with
  | done =>
    intro declared doc hp
    rw [hp] at h
    cases h
  | failed | unflushed => trivial

theorem spares_of_places (h : (w.procs p).places = false) : Spares k v w (.act p o) := by
  intro _ name merged hp
  rw [hp] at h
  cases h

theorem clean_oneSection : ({ dog := some (.table oneSection) } : ShepToml).Clean := by
  intro k v hv _
  cases k with
  | none => cases hv
  | some name =>
    have hget : oneSection[name]? = some v := hv
    rw [oneSection, Table.get_insert] at hget
    split at hget
    · cases hget
      rfl
    · simp at hget

theorem run_logged (events : List Event) (hd : Drives World.next (fun _ _ => True) w events) :
    Run Step w (logged World.next w events) (drive World.next w events) :=
  hd.run fun _ _ _ => rfl

/-- A migration from start to end, and what it moved. -/
theorem sections_kept_moved :
    Holds (drive World.next atRest (migration 0)) (some "a") (.table [("x", .scalar "1")]) := by
  have hsound : Drives World.next Sound atRest (migration 0) := by
    refine ⟨trivial, sound_of_waits rfl, fun declared doc _ _ hopen => .inl ?_,
      sound_of_waits (by decide +kernel), sound_of_waits (by decide +kernel),
      sound_of_waits (by decide +kernel), trivial⟩
    cases hopen
    exact clean_oneSection
  have hspares : Drives World.next (Spares (some "a") (.table [("x", .scalar "1")])) atRest
      (migration 0) :=
    ⟨trivial, spares_of_places rfl, spares_of_places (by decide +kernel),
      spares_of_places (by decide +kernel), spares_of_places (by decide +kernel),
      spares_of_places (by decide +kernel), trivial⟩
  have hsafe : Safe atRest (some "a") (.table [("x", .scalar "1")]) := by
    refine .inr ⟨⟨_, rfl, ?_, rfl⟩, ?_⟩
    · exact (Table.get_insert _ _ _ _).trans (if_pos rfl)
    · rintro ⟨p, moved, left, hp⟩
      cases hp
  exact (sections_kept (fun _ => rfl) rfl rfl (.nil atRest) (fun _ h => absurd h List.not_mem_nil)
    (run_logged (migration 0) ⟨trivial, trivial, trivial, trivial, trivial, trivial, trivial⟩)
    (hsound.meets fun _ _ h => h)).1.1 _ _ hsafe (hspares.meets fun _ _ h => h)

/-- `[[dog.b]]` with `y = 2`. -/
def arrayOfTables : Value := .array [.table [("y", .scalar "2")]]

/-- A migration has read the one section, and another program has added an
array of tables since. -/
def added : World :=
  drive World.next atRest [.start 0 .migrateDogSections, .act 0 .done,
    .rewriteShep (.doc { dog := some (.table (oneSection.insert "b" arrayOfTables)) })]

/-- The migration goes on to its end. -/
def takenOn : List Event := [.act 0 .done, .act 0 .done, .act 0 .done, .act 0 .done]

/-- The names a migration that is done answers to have moved. -/
def Process.answered : Process → Option (List String)
  | .migrated (.ok moved) => some moved
  | _ => none

theorem migrated_of_answered {proc : Process} {moved : List String}
    (h : proc.answered = some moved) : proc = .migrated (.ok moved) := by
  unfold Process.answered at h
  split at h
  · rw [Option.some.inj h]
  · cases h

/-- A document, where there is one, passes a test. -/
def File.all {α : Type} (test : α → Bool) : File α → Bool
  | .doc a => test a
  | .missing | .unreadable | .broken _ => true

theorem not_holds (hs : w.shep.all (fun doc => !doc.sections.contains name) = true)
    (hd : w.dogs.all (fun d => !d.contains name) = true) : ¬ Holds w (some name) v := by
  rintro (⟨doc, hdoc, hv, -⟩ | ⟨d, other, hdoc, hname, hv, -⟩)
  · rw [hdoc] at hs
    have hv : doc.sections[name]? = some v := hv
    simp [File.all, ← Std.ExtTreeMap.isSome_getElem?_eq_contains, hv] at hs
  · cases hname
    rw [hdoc] at hd
    simp [File.all, ← Std.ExtTreeMap.isSome_getElem?_eq_contains, hv] at hd

/-- **The array is struck**: the name read without the lock came back, the
migration answers that it has moved it, and neither file holds the other. -/
theorem array_struck :
    Safe added (some "b") arrayOfTables ∧
      Drives World.next (Spares (some "b") arrayOfTables) added takenOn ∧
      (drive World.next added takenOn).procs 0 = .migrated (.ok ["a"]) ∧
      ¬ Holds (drive World.next added takenOn) (some "b") arrayOfTables := by
  refine ⟨.inr ⟨⟨_, rfl, ?_, rfl⟩, ?_⟩, ⟨spares_of_places (by decide +kernel),
    spares_of_places (by decide +kernel), spares_of_places (by decide +kernel),
    spares_of_places (by decide +kernel), trivial⟩, ?_, ?_⟩
  · exact (Table.get_insert _ _ _ _).trans (if_pos rfl)
  · rintro ⟨p, moved, left, hp⟩
    by_cases h : p = 0
    · subst h
      have hwaits : (added.procs 0).waits = true := by decide +kernel
      rw [hp] at hwaits
      cases hwaits
    · have hidle : ((atRest.put 0 .migrating).act 0 .done).procs p = .idle := by
        rw [act_procs_ne h, put_procs_ne _ h]
        rfl
      cases hp.symm.trans hidle
  · exact migrated_of_answered (by decide +kernel)
  · exact not_holds (by decide +kernel) (by decide +kernel)

end Sections

end Shep

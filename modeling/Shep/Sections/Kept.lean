import Shep.Sections.Locked

/-!
# What the steps keep

A value in `dogs.toml` is lost only to a section write under its name, and
one under `[dog]` only to the migration that has just written it to
`dogs.toml`. What a migration takes is there when it answers, and one that
refuses has replaced nothing.
-/

namespace Shep

namespace Sections

variable {w w' : World} {p q : ℕ} {o : Outcome} {doc left : ShepToml} {v : Value} {name : String}
variable {k : Option String} {merged d : Document} {moved : List String} {e : Event}

/-! ## What one step can do -/

@[simp] theorem put_procs_self (proc : Process) : (w.put p proc).procs p = proc :=
  Function.update_self ..

theorem put_procs_ne (proc : Process) (h : q ≠ p) : (w.put p proc).procs q = w.procs q :=
  Function.update_of_ne h ..

/-- The file a process may be about to write. -/
def Process.writes : Process → Option Document
  | .moving merged _ _ | .planting _ merged | .placing _ merged => some merged
  | _ => none

/-- One process moves on, and both files stay. -/
structure Stays (p : ℕ) (w w' : World) : Prop where
  shep : w'.shep = w.shep
  dogs : w'.dogs = w.dogs
  others : ∀ q, q ≠ p → w'.procs q = w.procs q

theorem Stays.refl : Stays p w w := ⟨rfl, rfl, fun _ _ => rfl⟩

theorem Stays.locks {proc : Process} {shepLock dogsLock : Option ℕ} :
    Stays p w { w.put p proc with shepLock := shepLock, dogsLock := dogsLock } :=
  ⟨rfl, rfl, fun _ hq => put_procs_ne _ hq⟩

theorem Stays.openLocked (declared : Option (List String)) :
    Stays p w (w.openLocked p declared) := by
  unfold World.openLocked
  split
  · exact .locks
  · split
    · exact .locks
    · split <;> exact .locks

theorem Stays.lockDogs (taken : Document) : Stays p w (w.lockDogs p taken left) := by
  unfold World.lockDogs
  split <;> exact .locks

theorem Stays.gateRead (defaults : Option (List (String × Value))) :
    Stays p w (w.gateRead p name defaults) := by
  unfold World.gateRead
  split <;> exact .locks

theorem Stays.lockSeed (defaults : List (String × Value)) :
    Stays p w (w.lockSeed p name defaults) := by
  unfold World.lockSeed
  split
  · exact .locks
  · split <;> exact .locks

theorem Stays.lockSet (body : Option (List (String × Value))) :
    Stays p w (w.lockSet p name body) := by
  unfold World.lockSet
  split
  · exact .locks
  · exact .locks
  · split <;> exact .locks

/-- What a step that is not a replacement that fails does: nothing to the
files, or the replacement the process was about to make. -/
inductive Acts (p : ℕ) (w : World) (o : Outcome) (w' : World) : Prop
  | stays (h : Stays p w w')
  | strikes (moved : List String) (left : ShepToml) (hp : w.procs p = .striking moved left)
      (ho : o ≠ .failed) (hs : w'.shep = .doc left) (hd : w'.dogs = w.dogs)
      (hq : ∀ q, q ≠ p → w'.procs q = w.procs q)
  | writes (merged : Document) (hp : (w.procs p).writes = some merged) (ho : o ≠ .failed)
      (hs : w'.shep = w.shep) (hd : w'.dogs = .doc merged)
      (hq : ∀ q, q ≠ p → w'.procs q = w.procs q)

theorem acts_moveSections (hp : w.procs p = .moving merged moved left) :
    Acts p w o (w.moveSections p o merged moved left) := by
  have hw : (w.procs p).writes = some merged := by rw [hp]; rfl
  cases o with
  | done | unflushed => exact .writes merged hw nofun rfl rfl fun _ hq => put_procs_ne _ hq
  | failed => exact .stays ⟨rfl, rfl, fun _ hq => put_procs_ne _ hq⟩

theorem acts_save (hp : w.procs p = .striking moved left) :
    Acts p w o (w.save p o moved left) := by
  cases o with
  | done | unflushed => exact .strikes moved left hp nofun rfl rfl fun _ hq => put_procs_ne _ hq
  | failed => exact .stays ⟨rfl, rfl, fun _ hq => put_procs_ne _ hq⟩

theorem acts_writeDogs {answer : Process} (hw : (w.procs p).writes = some merged) :
    Acts p w o (w.writeDogs p o merged answer) := by
  cases o with
  | done | unflushed => exact .writes merged hw nofun rfl rfl fun _ hq => put_procs_ne _ hq
  | failed => exact .stays ⟨rfl, rfl, fun _ hq => put_procs_ne _ hq⟩

/-- **What a step does.** -/
theorem act_acts (w : World) (p : ℕ) (o : Outcome) : Acts p w o (w.act p o) := by
  unfold World.act
  split
  · exact .stays .refl
  · exact .stays .refl
  · exact .stays .refl
  · exact .stays .refl
  · exact .stays .refl
  · split <;> exact .stays .locks
  · split_ifs
    · exact .stays .locks
    · exact .stays (.openLocked _)
    · exact .stays .refl
  · split_ifs
    · exact .stays .locks
    · exact .stays (.lockDogs _)
    · exact .stays .refl
  · next hp => exact acts_moveSections hp
  · next hp => exact acts_save hp
  · split_ifs
    · exact .stays (.gateRead _)
    · exact .stays .locks
  · split_ifs
    · exact .stays .locks
    · exact .stays (.lockSeed _)
    · exact .stays .refl
  · next hp => exact acts_writeDogs (by rw [hp]; rfl)
  · split_ifs
    · exact .stays .locks
    · exact .stays (.lockSet _)
    · exact .stays .refl
  · next hp => exact acts_writeDogs (by rw [hp]; rfl)

theorem act_procs_ne (h : q ≠ p) : (w.act p o).procs q = w.procs q := by
  cases act_acts w p o with
  | stays hstays => exact hstays.others q h
  | strikes _ _ _ _ _ _ hq => exact hq q h
  | writes _ _ _ _ _ hq => exact hq q h

theorem unlockedRead_cases (shep : File ShepToml) :
    (unlockedRead shep = .migrated (.ok []) ∧
        ∃ doc, ShepToml.opened shep = some doc ∧ doc.hasDogTable = false) ∨
      unlockedRead shep = .migrated (.error .read) ∨
        ∃ declared, unlockedRead shep = .waiting declared := by
  unfold unlockedRead
  split
  · exact .inl ⟨rfl, {}, rfl, rfl⟩
  · exact .inr (.inl rfl)
  · exact .inr (.inr ⟨_, rfl⟩)
  · next doc =>
    split
    · next h => exact .inl ⟨rfl, doc, rfl, h.2⟩
    · exact .inr (.inr ⟨_, rfl⟩)

/-- What is behind a process that stands after a step where it has something
to show for a migration. -/
inductive Came (p : ℕ) (w w' : World) : Process → Prop
  /-- The replacement of `dogs.toml`. -/
  | moved {merged : Document} {moved : List String} {left : ShepToml}
      (hp : w.procs p = .moving merged moved left) (hs : w'.shep = w.shep)
      (hd : w'.dogs = .doc merged) : Came p w w' (.striking moved left)
  /-- Only empty headers under `[dog]`. -/
  | bare {left : ShepToml} (hs : w'.shep = w.shep) (hd : w'.dogs = w.dogs) :
      Came p w w' (.striking [] left)
  /-- The replacement of `shep.toml`. -/
  | struck {moved : List String} {left : ShepToml} (hp : w.procs p = .striking moved left)
      (hs : w'.shep = .doc left) (hd : w'.dogs = w.dogs) : Came p w w' (.migrated (.ok moved))
  /-- No `[dog]` in the unlocked read. -/
  | nothing {doc : ShepToml} (hdoc : ShepToml.opened w.shep = some doc)
      (hnone : doc.hasDogTable = false) (hs : w'.shep = w.shep) (hd : w'.dogs = w.dogs) :
      Came p w w' (.migrated (.ok []))
  | stood {proc : Process} (hp : w.procs p = proc) (hsame : w' = w) : Came p w w' proc
  | other {proc : Process} (hstrike : ∀ moved left, proc ≠ .striking moved left)
      (hok : ∀ moved, proc ≠ .migrated (.ok moved)) : Came p w w' proc

theorem Came.of_openLocked (declared : Option (List String)) :
    Came p w (w.openLocked p declared) ((w.openLocked p declared).procs p) := by
  unfold World.openLocked
  split
  · rw [put_procs_self]
    exact .other nofun nofun
  · next doc _ =>
    split
    · rw [put_procs_self]
      exact .other nofun nofun
    · split
      · rw [show ({ w.put p (.striking [] doc.struck) with shepLock := some p } : World).procs p =
          .striking [] doc.struck from put_procs_self _]
        exact .bare rfl rfl
      · exact .other (by simp [World.put]) (by simp [World.put])

theorem Came.of_lockDogs (taken : Document) :
    Came p w (w.lockDogs p taken left) ((w.lockDogs p taken left).procs p) := by
  unfold World.lockDogs
  split <;> exact .other (by simp [World.put]) (by simp [World.put])

theorem Came.of_gateRead (defaults : Option (List (String × Value))) :
    Came p w (w.gateRead p name defaults) ((w.gateRead p name defaults).procs p) := by
  unfold World.gateRead
  split <;> exact .other (by simp [World.put]) (by simp [World.put])

theorem Came.of_lockSeed (defaults : List (String × Value)) :
    Came p w (w.lockSeed p name defaults) ((w.lockSeed p name defaults).procs p) := by
  unfold World.lockSeed
  split
  · exact .other (by simp [World.put]) (by simp [World.put])
  · split <;> exact .other (by simp [World.put]) (by simp [World.put])

theorem Came.of_lockSet (body : Option (List (String × Value))) :
    Came p w (w.lockSet p name body) ((w.lockSet p name body).procs p) := by
  unfold World.lockSet
  split
  · exact .other (by simp [World.put]) (by simp [World.put])
  · exact .other (by simp [World.put]) (by simp [World.put])
  · split <;> exact .other (by simp [World.put]) (by simp [World.put])

/-- **Where a step leaves its process.** -/
theorem came_act (w : World) (p : ℕ) (o : Outcome) :
    Came p w (w.act p o) ((w.act p o).procs p) := by
  unfold World.act
  split
  · exact .stood rfl rfl
  · exact .stood rfl rfl
  · exact .stood rfl rfl
  · exact .stood rfl rfl
  · exact .stood rfl rfl
  · split
    · rw [put_procs_self]
      rcases unlockedRead_cases w.shep with ⟨h, doc, hdoc, hnone⟩ | h | ⟨declared, h⟩
      · rw [h]
        exact .nothing hdoc hnone rfl rfl
      · rw [h]
        exact .other nofun nofun
      · rw [h]
        exact .other nofun nofun
    · rw [put_procs_self]
      exact .other nofun nofun
  · split_ifs
    · exact .other (by simp [World.put]) (by simp [World.put])
    · exact .of_openLocked _
    · exact .stood rfl rfl
  · split_ifs
    · exact .other (by simp [World.put]) (by simp [World.put])
    · exact .of_lockDogs _
    · exact .stood rfl rfl
  · next merged moved left hp =>
    cases o with
    | done =>
      have hproc : (w.moveSections p .done merged moved left).procs p = .striking moved left :=
        put_procs_self _
      rw [hproc]
      exact .moved hp rfl rfl
    | failed | unflushed =>
      exact .other (by simp [World.moveSections, World.put])
        (by simp [World.moveSections, World.put])
  · next moved left hp =>
    cases o with
    | done =>
      have hproc : (w.save p .done moved left).procs p = .migrated (.ok moved) := put_procs_self _
      rw [hproc]
      exact .struck hp rfl rfl
    | failed | unflushed => exact .other (by simp [World.save]) (by simp [World.save])
  · split_ifs
    · exact .of_gateRead _
    · exact .other (by simp) (by simp)
  · split_ifs
    · exact .other (by simp) (by simp)
    · exact .of_lockSeed _
    · exact .stood rfl rfl
  · exact .other (by simp [World.writeDogs]) (by simp [World.writeDogs])
  · split_ifs
    · exact .other (by simp) (by simp)
    · exact .of_lockSet _
    · exact .stood rfl rfl
  · exact .other (by simp [World.writeDogs]) (by simp [World.writeDogs])

/-! ## Values -/

/-- A value to lose, under a name of `[dog]` in `shep.toml`, or under `dog`
itself where that is no table. -/
def InShep (w : World) (k : Option String) (v : Value) : Prop :=
  ∃ doc, w.shep = .doc doc ∧ doc.value k = some v ∧ declaresNothing v = false

/-- A value to lose, under a name in `dogs.toml`. -/
def InDogs (w : World) (k : Option String) (v : Value) : Prop :=
  ∃ (d : Document) (name : String),
    w.dogs = .doc d ∧ k = some name ∧ d[name]? = some v ∧ declaresNothing v = false

/-- One of the two files holds the value. -/
def Holds (w : World) (k : Option String) (v : Value) : Prop := InShep w k v ∨ InDogs w k v

/-- A migration is about to replace `shep.toml`. -/
def Striking (w : World) : Prop := ∃ p moved left, w.procs p = .striking moved left

/-- The value is in a file it will not be taken out of. -/
def Safe (w : World) (k : Option String) (v : Value) : Prop :=
  InDogs w k v ∨ (InShep w k v ∧ ¬ Striking w)

theorem Safe.holds (h : Safe w k v) : Holds w k v := h.elim .inr fun h => .inl h.1

theorem readDogsDocument_doc {before : Document} (hd : w.dogs = .doc d)
    (h : readDogsDocument w.dogs = .ok before) : before = d := by
  rw [hd, readDogsDocument] at h
  split at h
  · cases h
    rfl
  · cases h

theorem Locked.moving_get (h : Locked w) (hp : w.procs p = .moving merged moved left)
    (hdoc : ShepToml.opened w.shep = some doc) (hv : (incoming doc)[name]? = some v) :
    merged[name]? = some v := by
  have hknows := h.knows p
  rw [hp] at hknows
  obtain ⟨doc', before, hdoc', -, -, -, -, -, rfl, -⟩ := hknows
  cases Option.some.inj (hdoc.symm.trans hdoc')
  rw [inserted_get, hv]
  rfl

/-- **A writer of `dogs.toml` keeps what is there**, what a section write is
asked to replace aside. -/
theorem Locked.writes_get (h : Locked w) (hw : (w.procs p).writes = some merged)
    (hd : w.dogs = .doc d) (hv : d[name]? = some v) (hn : declaresNothing v = false)
    (hnot : ∀ merged, w.procs p ≠ .placing name merged) : merged[name]? = some v := by
  have hknows := h.knows p
  cases hp : w.procs p with
  | moving merged' moved left =>
    rw [hp] at hw hknows
    cases hw
    obtain ⟨doc, before, -, -, -, -, -, hread, rfl, hapart⟩ := hknows
    cases readDogsDocument_doc hd hread
    rw [inserted_get]
    cases htaken : (incoming doc)[name]? with
    | none => exact hv
    | some v' =>
      have hcontent := hapart name v' htaken
      rw [hv, Option.any_some, itemHasContent_of_declares hn] at hcontent
      cases hcontent
  | planting other merged' =>
    rw [hp] at hw hknows
    cases hw
    obtain ⟨before, entries, hread, hnone, rfl⟩ := hknows
    cases readDogsDocument_doc hd hread
    have hne : name ≠ other := by
      rintro rfl
      rw [hnone] at hv
      cases hv
    rw [Table.get_insert, if_neg hne, hv]
  | placing other merged' =>
    rw [hp] at hw hknows
    cases hw
    obtain ⟨before, entries, hread, rfl⟩ := hknows
    have hbefore : before = d := by
      rw [hd] at hread
      cases hread
      rfl
    have hne : name ≠ other := by
      rintro rfl
      exact hnot _ hp
    rw [Table.get_insert, if_neg hne, hbefore, hv]
  | idle | migrating | waiting _ | taken _ _ | striking _ _ | migrated _ | seeding _ _ | sowing _ _
  | seeded _ | setting _ _ | placed _ | crashed =>
    rw [hp] at hw
    cases hw

theorem Locked.dogs_get (h : Locked w) (hd : w.dogs = .doc d) (hv : d[name]? = some v)
    (hn : declaresNothing v = false)
    (hnot : o ≠ .failed → ∀ merged, w.procs p ≠ .placing name merged) :
    ∃ d' : Document, (w.act p o).dogs = .doc d' ∧ d'[name]? = some v := by
  cases act_acts w p o with
  | stays hstays => exact ⟨d, by rw [hstays.dogs, hd], hv⟩
  | strikes _ _ _ _ _ hdogs _ => exact ⟨d, by rw [hdogs, hd], hv⟩
  | writes merged hw ho _ hdogs _ => exact ⟨merged, hdogs, h.writes_get hw hd hv hn (hnot ho)⟩

/-- What may happen to a value: a section write under its name, and another
program's replacement of a file that loses it, are excepted. -/
def Spares (k : Option String) (v : Value) (w : World) : Event → Prop
  | .act p o => o ≠ .failed → ∀ name merged, w.procs p = .placing name merged → k ≠ some name
  | .rewriteShep file => Safe (w.next (.rewriteShep file)) k v
  | .rewriteDogs file => Safe (w.next (.rewriteDogs file)) k v
  | .start _ _ | .crash _ => True

theorem InShep.opened (h : InShep w k v) : ∃ doc, ShepToml.opened w.shep = some doc ∧
    w.shep = .doc doc ∧ doc.value k = some v ∧ declaresNothing v = false := by
  obtain ⟨doc, hdoc, hv, hn⟩ := h
  exact ⟨doc, by rw [hdoc]; rfl, hdoc, hv, hn⟩

theorem InShep.of_eq (h : InShep w k v) (hs : w'.shep = w.shep) : InShep w' k v := by
  rwa [InShep, hs]

theorem InDogs.of_eq (h : InDogs w k v) (hd : w'.dogs = w.dogs) : InDogs w' k v := by
  rwa [InDogs, hd]

theorem InDogs.act (h : InDogs w k v) (hl : Locked w) (hspares : Spares k v w (.act p o)) :
    InDogs (w.act p o) k v := by
  obtain ⟨d, name, hd, rfl, hv, hn⟩ := h
  obtain ⟨d', hd', hv'⟩ := hl.dogs_get (p := p) (o := o) hd hv hn
    fun ho merged hp => hspares ho name merged hp rfl
  exact ⟨d', name, hd', rfl, hv', hn⟩

/-- A file that does not read is left alone. -/
theorem Locked.unread (h : Locked w) :
    (ShepToml.opened w.shep = none → (w.act p o).shep = w.shep) ∧
      ((∀ d, World.existing w.dogs ≠ .ok d) → (w.act p o).dogs = w.dogs) := by
  have hknows := h.knows p
  cases act_acts w p o with
  | stays hstays => exact ⟨fun _ => hstays.shep, fun _ => hstays.dogs⟩
  | strikes moved left hp _ _ hd _ =>
    rw [hp] at hknows
    obtain ⟨doc, hdoc, -⟩ := hknows
    refine ⟨fun hnone => ?_, fun _ => hd⟩
    rw [hnone] at hdoc
    cases hdoc
  | writes merged hw _ hs _ _ =>
    refine ⟨fun _ => hs, fun hnone => ?_⟩
    have hread : ∀ before, readDogsDocument w.dogs = .ok before → False := by
      intro before hread
      cases hdogs : w.dogs with
      | missing => exact hnone ∅ (by rw [hdogs]; rfl)
      | doc d => exact hnone d (by rw [hdogs]; rfl)
      | unreadable | broken text =>
        rw [hdogs] at hread
        cases hread
    cases hp : w.procs p with
    | moving merged moved left =>
      rw [hp] at hknows
      obtain ⟨doc, before, -, -, -, -, -, hbefore, -⟩ := hknows
      exact (hread before hbefore).elim
    | planting name merged =>
      rw [hp] at hknows
      obtain ⟨before, entries, hbefore, -⟩ := hknows
      exact (hread before hbefore).elim
    | placing name merged =>
      rw [hp] at hknows
      obtain ⟨before, entries, hbefore, -⟩ := hknows
      exact absurd hbefore (hnone before)
    | idle | migrating | waiting _ | taken _ _ | striking _ _ | migrated _ | seeding _ _
    | sowing _ _ | seeded _ | setting _ _ | placed _ | crashed =>
      rw [hp] at hw
      cases hw

/-- **One step** keeps a value that no migration is about to strike: it
strikes only what it has just written to `dogs.toml`. -/
theorem Safe.act (h : Safe w k v) (hl : Locked w) (hsound : Sound w (.act p o))
    (hspares : Spares k v w (.act p o)) :
    Safe (w.act p o) k v := by
  rcases h with h | ⟨h, hnot⟩
  · exact .inl (h.act hl hspares)
  · have hshep : (w.act p o).shep = w.shep := by
      cases act_acts w p o with
      | stays hstays => exact hstays.shep
      | strikes moved left hp _ _ _ _ => exact absurd ⟨p, moved, left, hp⟩ hnot
      | writes _ _ _ hs _ _ => exact hs
    by_cases hstriking : Striking (w.act p o)
    · obtain ⟨q, moved, left, hq⟩ := hstriking
      have hqp : q = p := by
        by_contra hne
        rw [act_procs_ne hne] at hq
        exact hnot ⟨q, moved, left, hq⟩
      subst hqp
      have hknows := (hl.act hsound).knows q
      rw [hq] at hknows
      obtain ⟨doc, hdoc, hclean, -, hmoved⟩ := hknows
      obtain ⟨doc', hdoc', -, hv, hn⟩ := (h.of_eq hshep).opened
      cases Option.some.inj (hdoc.symm.trans hdoc')
      obtain ⟨name, rfl, htaken⟩ := hclean.incoming hv hn
      have hcame := came_act w q o
      rw [hq] at hcame
      rw [hshep] at hdoc
      cases hcame with
      | moved hp hs hd =>
        exact .inl ⟨_, name, hd, rfl, hl.moving_get hp hdoc htaken, hn⟩
      | bare hs hd =>
        have hmem : name ∈ (incoming doc).keys := by
          rw [Std.ExtTreeMap.mem_keys, ← Std.ExtTreeMap.isSome_getElem?_iff_mem, htaken]
          rfl
        rw [← hmoved] at hmem
        cases hmem
      | stood hp _ => exact absurd ⟨q, moved, left, hp⟩ hnot
      | other hstrike hok => exact absurd rfl (hstrike _ _)
    · exact .inr ⟨h.of_eq hshep, hstriking⟩

end Sections

end Shep

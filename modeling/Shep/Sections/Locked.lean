import Shep.Sections.Model

/-!
# What a process knows under its locks

A lock has one holder, only its holder replaces the file, and so what a
process read under its locks is what the files hold until it writes. The
documents it writes are then known from the files alone.
-/

namespace Shep

namespace Sections

variable {w w' : World} {p q : ℕ} {o : Outcome} {doc left : ShepToml} {v : Value} {name : String}
variable {proc : Process} {before merged taken m : Document} {declared : Option (List String)}
variable {moved : List String} {e : DogMigrationError}

/-! ## Values -/

theorem allDeclareNothing_eq (items : List Value) :
    allDeclareNothing items = items.all declaresNothing := by
  induction items with
  | nil => rfl
  | cons item items ih => rw [allDeclareNothing, ih, List.all_cons]

theorem itemHasContent_of_declares (hv : declaresNothing v = false) : itemHasContent v = true := by
  cases v with
  | scalar text => rfl
  | array items => rfl
  | table entries => simpa [itemHasContent, Value.asTableLike, declaresNothing] using hv

theorem itemHasContent_eq (hv : v.asTableLike.isSome) : itemHasContent v = !declaresNothing v := by
  cases v with
  | scalar text => cases hv
  | array items => cases hv
  | table entries => simp [itemHasContent, Value.asTableLike, declaresNothing]

namespace ShepToml

/-- The value under a name of `[dog]`, or what stands under `dog` itself
where that is no table. -/
def value (doc : ShepToml) : Option String → Option Value
  | some name => doc.sections[name]?
  | none =>
    match doc.dog with
    | some (.array items) => some (.array items)
    | some (.scalar text) => some (.scalar text)
    | some (.table _) | none => none

/-- Nothing under `[dog]` but tables has anything to lose. -/
def Clean (doc : ShepToml) : Prop :=
  ∀ k v, doc.value k = some v → declaresNothing v = false → v.asTableLike.isSome = true

end ShepToml

theorem incoming_eq_some :
    (incoming doc)[name]? = some v ↔
      doc.sections[name]? = some v ∧ v.asTableLike.isSome ∧ declaresNothing v = false := by
  simp only [incoming, ShepToml.takeDogSections, Std.ExtTreeMap.getElem?_filter',
    Option.filter_eq_some_iff]
  constructor
  · rintro ⟨⟨h, ht⟩, hc⟩
    refine ⟨h, ht, ?_⟩
    rw [itemHasContent_eq ht] at hc
    simpa using hc
  · rintro ⟨h, ht, hn⟩
    exact ⟨⟨h, ht⟩, itemHasContent_of_declares hn⟩

/-- In a clean document every value to lose is among the sections taken. -/
theorem ShepToml.Clean.incoming (hclean : doc.Clean) {k : Option String} (hv : doc.value k = some v)
    (hn : declaresNothing v = false) : ∃ name, k = some name ∧ (incoming doc)[name]? = some v := by
  have ht := hclean k v hv hn
  cases k with
  | some name => exact ⟨name, rfl, incoming_eq_some.2 ⟨hv, ht, hn⟩⟩
  | none =>
    cases hdog : doc.dog with
    | none => simp [ShepToml.value, hdog] at hv
    | some dog =>
      cases dog with
      | table sections => simp [ShepToml.value, hdog] at hv
      | array items | scalar text =>
        simp only [ShepToml.value, hdog, Option.some.injEq] at hv
        subst hv
        cases ht

/-- What stands after the insertions. -/
theorem inserted_get (merged taken : Document) (name : String) :
    (inserted merged taken)[name]? = taken[name]?.or merged[name]? := by
  have hfold : ∀ (entries : List (String × Value)) (m : Document),
      (entries.map Prod.fst).Nodup →
      (entries.foldl (fun m e => m.insert e.1 e.2) m)[name]? =
        (entries.lookup name).or m[name]? := by
    intro entries
    induction entries with
    | nil => intro m _; rfl
    | cons entry entries ih =>
      intro m hnodup
      obtain ⟨hnot, hnodup⟩ := List.nodup_cons.1 hnodup
      rw [List.foldl_cons, ih _ hnodup, Table.get_insert, List.lookup_cons]
      by_cases h : name = entry.1
      · have hnone : entries.lookup name = none := by
          rw [List.lookup_eq_none_iff]
          rintro ⟨key, value⟩ he
          have hkey : name ≠ key := by
            rintro rfl
            exact hnot (h ▸ List.mem_map_of_mem he)
          simpa using hkey
        rw [hnone, if_pos h, beq_iff_eq.2 h]
        rfl
      · have h' : (name == entry.1) = false := by simpa using h
        simp [h, h']
  rw [inserted, hfold _ _ (Table.nodup_keys taken), Table.lookup_toList]

theorem taking_ok (h : taking declared doc = .ok taken) :
    (taken = ∅ ∧ (incoming doc).isEmpty ∧ declared = some []) ∨
      (taken = incoming doc ∧ (incoming doc).isEmpty = false ∧ missing declared doc = []) := by
  unfold taking at h
  split at h
  · next hcond => exact .inl ⟨by cases h; rfl, hcond⟩
  · split at h
    · cases h
    · next hcond =>
      simp only [not_or, not_not, Bool.not_eq_true] at hcond
      exact .inr ⟨by cases h; rfl, hcond.2, hcond.1⟩

theorem merging_ok {dogs : File Document} (h : merging taken dogs = .ok merged) :
    ∃ before, readDogsDocument dogs = .ok before ∧ merged = inserted before taken ∧
      ∀ (name : String) (v : Value), taken[name]? = some v →
        (before[name]?).any itemHasContent = false := by
  unfold merging at h
  split at h
  · cases h
  · next before hread =>
    split at h
    · cases h
    · next hnone =>
      refine ⟨before, hread, by cases h; rfl, fun name v hv => ?_⟩
      have := List.find?_eq_none.1 hnone (name, v) (Table.mem_toList.2 hv)
      simpa using this

/-! ## Locks -/

/-- The process holds `shep.toml`'s lock. -/
def Process.holdsShep : Process → Bool
  | .taken _ _ | .moving _ _ _ | .striking _ _ => true
  | _ => false

/-- The process holds `dogs.toml`'s lock. -/
def Process.holdsDogs : Process → Bool
  | .moving _ _ _ | .planting _ _ | .placing _ _ => true
  | _ => false

/-- What a process knows of the files whose locks it holds. -/
def Knows (shep : File ShepToml) (dogs : File Document) : Process → Prop
  | .taken sections left => ∃ doc, ShepToml.opened shep = some doc ∧ doc.Clean ∧
      left = doc.struck ∧ sections = incoming doc ∧ sections.isEmpty = false
  | .moving merged moved left => ∃ doc before, ShepToml.opened shep = some doc ∧ doc.Clean ∧
      left = doc.struck ∧ moved = (incoming doc).keys ∧ (incoming doc).isEmpty = false ∧
      readDogsDocument dogs = .ok before ∧ merged = inserted before (incoming doc) ∧
      ∀ (name : String) (v : Value), (incoming doc)[name]? = some v →
        (before[name]?).any itemHasContent = false
  | .striking moved left => ∃ doc, ShepToml.opened shep = some doc ∧ doc.Clean ∧
      left = doc.struck ∧ moved = (incoming doc).keys
  | .planting name merged => ∃ before entries, readDogsDocument dogs = .ok before ∧
      before[name]? = none ∧ merged = before.insert name (.table entries)
  | .placing name merged => ∃ before entries, World.existing dogs = .ok before ∧
      merged = before.insert name (.table entries)
  | _ => True

/-- What it knows of a file whose lock it does not hold is nothing. -/
theorem Knows.frame {shep shep' : File ShepToml} {dogs dogs' : File Document}
    (h : Knows shep dogs proc) (hs : proc.holdsShep = true → shep' = shep)
    (hd : proc.holdsDogs = true → dogs' = dogs) : Knows shep' dogs' proc := by
  cases proc with
  | taken sections left =>
    rw [hs rfl]
    exact h
  | moving merged moved left =>
    rw [hs rfl, hd rfl]
    exact h
  | striking moved left =>
    rw [hs rfl]
    exact h
  | planting name merged =>
    rw [hd rfl]
    exact h
  | placing name merged =>
    rw [hd rfl]
    exact h
  | idle | migrating | waiting _ | migrated _ | seeding _ _ | sowing _ _ | seeded _ | setting _ _
  | placed _ | crashed => trivial

/-- The locks and what is known under them. -/
structure Locked (w : World) : Prop where
  shep : ∀ p, (w.procs p).holdsShep = true ↔ w.shepLock = some p
  dogs : ∀ p, (w.procs p).holdsDogs = true ↔ w.dogsLock = some p
  knows : ∀ p, Knows w.shep w.dogs (w.procs p)

/-- The lock after one process has moved on. -/
def relock (holds held : Bool) (p : ℕ) (lock : Option ℕ) : Option ℕ :=
  if holds then some p else if held then none else lock

/-- Who holds a lock after one process has moved on. -/
theorem relock_iff (holds : ℕ → Bool) {lock : Option ℕ} (h : ∀ q, holds q = true ↔ lock = some q)
    {now : Bool} (hfree : now = true → holds p = true ∨ lock = none) (q : ℕ) :
    Function.update holds p now q = true ↔ relock now (holds p) p lock = some q := by
  unfold relock
  by_cases hq : q = p
  · subst hq
    rw [Function.update_self]
    cases now with
    | true => simp
    | false =>
      cases hheld : holds q with
      | true => simp
      | false => simpa [hheld] using h q
  · rw [Function.update_of_ne hq, h q]
    cases now with
    | true =>
      rcases hfree rfl with hp | hp
      · simp [(h p).1 hp]
      · simp [hp, Ne.symm hq]
    | false =>
      cases hheld : holds p with
      | true => simp [(h p).1 hheld, Ne.symm hq]
      | false => simp

/-- **One process moves on.** It replaces only the files whose locks it
holds, and takes only locks nobody else holds. -/
theorem Locked.turn {old : Process} (h : Locked w) (proc : Process) (shep : File ShepToml)
    (dogs : File Document) (hp : w.procs p = old)
    (hfree : proc.holdsShep = true → old.holdsShep = true ∨ w.shepLock = none)
    (hfree' : proc.holdsDogs = true → old.holdsDogs = true ∨ w.dogsLock = none)
    (hfile : old.holdsShep = true ∨ shep = w.shep) (hfile' : old.holdsDogs = true ∨ dogs = w.dogs)
    (hknows : Knows shep dogs proc) :
    Locked ⟨shep, dogs, relock proc.holdsShep old.holdsShep p w.shepLock,
      relock proc.holdsDogs old.holdsDogs p w.dogsLock, Function.update w.procs p proc⟩ := by
  subst hp
  have hother : ∀ q, q ≠ p → ∀ {holds : Process → Bool} {lock : Option ℕ},
      (∀ q, holds (w.procs q) = true ↔ lock = some q) → holds (w.procs p) = true →
      holds (w.procs q) = true → False := by
    intro q hq holds lock hlock hheld hheld'
    exact hq (Option.some.inj (((hlock q).1 hheld').symm.trans ((hlock p).1 hheld)))
  refine ⟨fun q => ?_, fun q => ?_, fun q => ?_⟩
  · have := relock_iff (fun q => (w.procs q).holdsShep) h.shep hfree q
    rwa [← Function.comp_def Process.holdsShep, ← Function.comp_update] at this
  · have := relock_iff (fun q => (w.procs q).holdsDogs) h.dogs hfree' q
    rwa [← Function.comp_def Process.holdsDogs, ← Function.comp_update] at this
  · by_cases hq : q = p
    · subst hq
      simpa using hknows
    · dsimp only
      rw [Function.update_of_ne hq]
      refine (h.knows q).frame (fun hheld => ?_) fun hheld => ?_
      · exact hfile.resolve_left fun hp => hother q hq h.shep hp hheld
      · exact hfile'.resolve_left fun hp => hother q hq h.dogs hp hheld

/-! ## The steps -/

/-- The names declared tell the migration that something it would strike is
no section. -/
def Refuses (declared : Option (List String)) (doc : ShepToml) : Prop :=
  match declared with
  | none => (incoming doc).isEmpty = true
  | some names => ∃ name ∈ names, (incoming doc).contains name = false

/-- **What a step must find.** No migration takes a `[dog]` that holds
something to lose besides its sections, unless the names it read without
the lock make it refuse. -/
def Sound (w : World) : Event → Prop
  | .act p .done => ∀ declared doc, w.procs p = .waiting declared → w.shepLock = none →
      ShepToml.opened w.shep = some doc → doc.Clean ∨ Refuses declared doc
  | _ => True

/-- A step. -/
def Step (w : World) (e : Event) (w' : World) : Prop := w.next e = w'

theorem clean_of_taking (h : taking declared doc = .ok taken)
    (hsound : doc.Clean ∨ Refuses declared doc) : doc.Clean := by
  refine hsound.resolve_right fun hrefuses => ?_
  rcases taking_ok h with ⟨-, -, rfl⟩ | ⟨-, hne, hmissing⟩
  · obtain ⟨name, hname, -⟩ := hrefuses
    cases hname
  · cases declared with
    | none => exact absurd hrefuses (by simp [Refuses, hne])
    | some names =>
      obtain ⟨name, hname, hnot⟩ := hrefuses
      have := List.filter_eq_nil_iff.1 hmissing name hname
      simp [hnot] at this

@[simp] theorem holdsShep_unlockedRead (shep : File ShepToml) :
    (unlockedRead shep).holdsShep = false := by
  unfold unlockedRead
  split
  · rfl
  · rfl
  · rfl
  · split <;> rfl

@[simp] theorem holdsDogs_unlockedRead (shep : File ShepToml) :
    (unlockedRead shep).holdsDogs = false := by
  unfold unlockedRead
  split
  · rfl
  · rfl
  · rfl
  · split <;> rfl

theorem knows_unlockedRead {shep shep' : File ShepToml} {dogs : File Document} :
    Knows shep dogs (unlockedRead shep') := by
  unfold unlockedRead
  split
  · trivial
  · trivial
  · trivial
  · split <;> trivial

namespace Locked

theorem leaves {old : Process} (h : Locked w) (hp : w.procs p = old)
    (hs : old.holdsShep = false) (hd : old.holdsDogs = false) (hs' : proc.holdsShep = false)
    (hd' : proc.holdsDogs = false) (hknows : Knows w.shep w.dogs proc) : Locked (w.put p proc) := by
  have := h.turn proc w.shep w.dogs hp (by simp [hs']) (by simp [hd']) (.inr rfl) (.inr rfl) hknows
  rwa [hs, hd, hs', hd'] at this

theorem openLocked (h : Locked w) (hp : w.procs p = .waiting declared) (hfree : w.shepLock = none)
    (hsound : ∀ doc, ShepToml.opened w.shep = some doc → doc.Clean ∨ Refuses declared doc) :
    Locked (w.openLocked p declared) := by
  unfold World.openLocked
  split
  · exact h.leaves hp rfl rfl rfl rfl trivial
  · next doc hdoc =>
    split
    · exact h.leaves hp rfl rfl rfl rfl trivial
    · next taken htaken =>
      have hclean := clean_of_taking htaken (hsound doc hdoc)
      have hok := taking_ok htaken
      split
      · next hempty =>
        have hkeys : (incoming doc).keys = [] := by
          rcases hok with ⟨-, hnone, -⟩ | ⟨rfl, hne, -⟩
          · rw [Std.ExtTreeMap.isEmpty_iff.1 hnone]
            rfl
          · rw [hempty] at hne
            cases hne
        exact h.turn (.striking [] doc.struck) w.shep w.dogs hp (fun _ => .inr hfree)
          (by simp [Process.holdsDogs]) (.inr rfl) (.inr rfl) ⟨doc, hdoc, hclean, rfl, hkeys.symm⟩
      · next hne =>
        have htaken : taken = incoming doc := by
          rcases hok with ⟨rfl, -, -⟩ | ⟨rfl, -, -⟩
          · exact absurd (by simp) hne
          · rfl
        exact h.turn (.taken taken doc.struck) w.shep w.dogs hp (fun _ => .inr hfree)
          (by simp [Process.holdsDogs]) (.inr rfl) (.inr rfl)
          ⟨doc, hdoc, hclean, rfl, htaken, by simpa using hne⟩

theorem lockDogs (h : Locked w) (hp : w.procs p = .taken taken left) (hfree : w.dogsLock = none) :
    Locked (w.lockDogs p taken left) := by
  have hknows := h.knows p
  rw [hp] at hknows
  obtain ⟨doc, hdoc, hclean, rfl, rfl, hne⟩ := hknows
  have hheld : w.shepLock = some p := (h.shep p).1 (by rw [hp]; rfl)
  unfold World.lockDogs
  split
  · next e _ =>
    exact h.turn (.migrated (.error e)) w.shep w.dogs hp (by simp [Process.holdsShep])
      (by simp [Process.holdsDogs]) (.inr rfl) (.inr rfl) trivial
  · next merged hmerged =>
    obtain ⟨before, hread, hmerged, hapart⟩ := merging_ok hmerged
    have := h.turn (.moving merged (incoming doc).keys doc.struck) w.shep w.dogs hp
      (fun _ => .inl rfl) (fun _ => .inr hfree) (.inr rfl) (.inr rfl)
      ⟨doc, before, hdoc, hclean, rfl, rfl, hne, hread, hmerged, hapart⟩
    have hlock : relock true true p w.shepLock = w.shepLock := by
      rw [hheld]
      rfl
    rwa [show (Process.moving merged (incoming doc).keys doc.struck).holdsShep = true from rfl,
      show (Process.taken (incoming doc) doc.struck).holdsShep = true from rfl, hlock] at this

theorem moveSections (h : Locked w) (hp : w.procs p = .moving merged moved left) :
    Locked (w.moveSections p o merged moved left) := by
  have hknows := h.knows p
  rw [hp] at hknows
  obtain ⟨doc, before, hdoc, hclean, hleft, hmoved, -⟩ := hknows
  have hheld : w.shepLock = some p := (h.shep p).1 (by rw [hp]; rfl)
  unfold World.moveSections
  split
  · have := h.turn (.striking moved left) w.shep (replace o w.dogs merged) hp
      (fun _ => .inl rfl) (by simp [Process.holdsDogs]) (.inr rfl) (.inl rfl)
      ⟨doc, hdoc, hclean, hleft, hmoved⟩
    have hlock : relock true true p w.shepLock = w.shepLock := by
      rw [hheld]
      rfl
    rwa [show (Process.striking moved left).holdsShep = true from rfl,
      show (Process.moving merged moved left).holdsShep = true from rfl, hlock] at this
  · exact h.turn (.migrated (.error .write)) w.shep (replace o w.dogs merged) hp
      (by simp [Process.holdsShep]) (by simp [Process.holdsDogs]) (.inr rfl) (.inl rfl) trivial

theorem save (h : Locked w) (hp : w.procs p = .striking moved left) :
    Locked (w.save p o moved left) :=
  h.turn (.migrated (if o = .done then .ok moved else .error .toml)) (replace o w.shep left) w.dogs
    hp (by simp [Process.holdsShep]) (by simp [Process.holdsDogs]) (.inl rfl) (.inr rfl) trivial

theorem gateRead {defaults : Option (List (String × Value))} (h : Locked w)
    (hp : w.procs p = .seeding name defaults) : Locked (w.gateRead p name defaults) := by
  unfold World.gateRead
  split <;> exact h.leaves hp rfl rfl rfl rfl trivial

theorem lockSeed {defaults : List (String × Value)} (h : Locked w)
    (hp : w.procs p = .sowing name defaults) (hfree : w.dogsLock = none) :
    Locked (w.lockSeed p name defaults) := by
  unfold World.lockSeed
  split
  · exact h.leaves hp rfl rfl rfl rfl trivial
  · next merged hread =>
    split
    · exact h.leaves hp rfl rfl rfl rfl trivial
    · next hnot =>
      have hnone : merged[name]? = none := by
        simpa using hnot
      exact h.turn (.planting name (merged.insert name (.table defaults))) w.shep w.dogs hp
        (by simp [Process.holdsShep]) (fun _ => .inr hfree) (.inr rfl) (.inr rfl)
        ⟨merged, defaults, hread, hnone, rfl⟩

theorem lockSet {body : Option (List (String × Value))} (h : Locked w)
    (hp : w.procs p = .setting name body) (hfree : w.dogsLock = none) :
    Locked (w.lockSet p name body) := by
  unfold World.lockSet
  split
  · exact h.leaves hp rfl rfl rfl rfl trivial
  · exact h.leaves hp rfl rfl rfl rfl trivial
  · next before entries hread =>
    split
    · exact h.turn (.placing name (before.insert name (.table entries))) w.shep w.dogs hp
        (by simp [Process.holdsShep]) (fun _ => .inr hfree) (.inr rfl) (.inr rfl)
        ⟨before, entries, hread, rfl⟩
    · exact h.leaves hp rfl rfl rfl rfl trivial

/-- **The other two writers of `dogs.toml`** leave its lock with the file. -/
theorem writeDogs {old answer : Process} (h : Locked w) (hp : w.procs p = old)
    (hs : old.holdsShep = false) (hd : old.holdsDogs = true) (hs' : answer.holdsShep = false)
    (hd' : answer.holdsDogs = false)
    (hknows : Knows w.shep (replace o w.dogs merged) answer) :
    Locked (w.writeDogs p o merged answer) := by
  have := h.turn answer w.shep (replace o w.dogs merged) hp (by simp [hs'])
    (by simp [hd']) (.inr rfl) (.inl hd) hknows
  rwa [hs, hd, hs', hd'] at this

theorem crash (h : Locked w) : Locked (w.crash p) := by
  have hgone : ∀ old, w.procs p = old → Locked
      { w.put p .crashed with
        shepLock := if w.shepLock = some p then none else w.shepLock
        dogsLock := if w.dogsLock = some p then none else w.dogsLock } := by
    intro old hp
    have hturn := h.turn .crashed w.shep w.dogs hp (by simp [Process.holdsShep])
      (by simp [Process.holdsDogs]) (.inr rfl) (.inr rfl) trivial
    have hlock : ∀ {held : Bool} {lock : Option ℕ}, (held = true ↔ lock = some p) →
        relock false held p lock = if lock = some p then none else lock := by
      intro held lock hheld
      cases held with
      | true => simp [relock, hheld.1 rfl]
      | false =>
        rw [if_neg fun hl => Bool.false_ne_true (hheld.2 hl)]
        rfl
    rwa [show Process.crashed.holdsShep = false from rfl,
      show Process.crashed.holdsDogs = false from rfl, hlock (hp ▸ h.shep p),
      hlock (hp ▸ h.dogs p)] at hturn
  unfold World.crash
  split
  · exact h
  · exact h
  · exact h
  · exact h
  · exact h
  · exact hgone _ rfl

theorem act (h : Locked w) (hsound : Sound w (.act p o)) : Locked (w.act p o) := by
  unfold World.act
  split
  · exact h
  · exact h
  · exact h
  · exact h
  · exact h
  · next hp =>
    split
    · exact h.leaves hp rfl rfl (by simp) (by simp) knows_unlockedRead
    · exact h.leaves hp rfl rfl rfl rfl trivial
  · next declared hp =>
    split_ifs with hfailed hfree
    · exact h.leaves hp rfl rfl rfl rfl trivial
    · have hdone : o = .done := not_not.1 hfailed
      subst hdone
      exact h.openLocked hp hfree fun doc hdoc => hsound declared doc hp hfree hdoc
    · exact h
  · next taken left hp =>
    split_ifs with hfailed hfree
    · exact h.turn (.migrated (.error .lock)) w.shep w.dogs hp (by simp [Process.holdsShep])
        (by simp [Process.holdsDogs]) (.inr rfl) (.inr rfl) trivial
    · exact h.lockDogs hp hfree
    · exact h
  · next merged moved left hp => exact h.moveSections hp
  · next moved left hp => exact h.save hp
  · next name defaults hp =>
    split_ifs
    · exact h.gateRead hp
    · exact h.leaves hp rfl rfl rfl rfl trivial
  · next name defaults hp =>
    split_ifs with hfailed hfree
    · exact h.leaves hp rfl rfl rfl rfl trivial
    · exact h.lockSeed hp hfree
    · exact h
  · next merged hp => exact h.writeDogs hp rfl rfl rfl rfl trivial
  · next name body hp =>
    split_ifs with hfailed hfree
    · exact h.leaves hp rfl rfl rfl rfl trivial
    · exact h.lockSet hp hfree
    · exact h
  · next merged hp => exact h.writeDogs hp rfl rfl rfl rfl trivial

theorem start {job : Job} (h : Locked w) (hp : w.procs p = .idle) :
    Locked (w.put p job.first) := by
  cases job with
  | migrateDogSections | seedDogDefaults name defaults | setDogSection name body =>
    exact h.leaves hp rfl rfl rfl rfl trivial

/-- **One event** keeps what is known under the locks. -/
theorem next {e : Event} (h : Locked w) (hsound : Sound w e) : Locked (w.next e) := by
  cases e with
  | start p job =>
    simp only [World.next]
    split
    · next hp => exact h.start hp
    · exact h
  | act p outcome => exact h.act hsound
  | crash p => exact h.crash
  | rewriteShep file =>
    simp only [World.next]
    split
    · next hfree =>
      refine ⟨h.shep, h.dogs, fun q => (h.knows q).frame (fun hq => ?_) fun _ => rfl⟩
      rw [(h.shep q).1 hq] at hfree
      cases hfree
    · exact h
  | rewriteDogs file =>
    simp only [World.next]
    split
    · next hfree =>
      refine ⟨h.shep, h.dogs, fun q => (h.knows q).frame (fun _ => rfl) fun hq => ?_⟩
      rw [(h.dogs q).1 hq] at hfree
      cases hfree
    · exact h

/-- **Every run** from processes that have not begun keeps it. -/
theorem run {w₀ : World} {history : List (World × Event)} (hrun : Run Step w₀ history w)
    (hsound : Meets Sound history) (hstart : ∀ p, w₀.procs p = .idle)
    (hs : w₀.shepLock = none) (hd : w₀.dogsLock = none) : Locked w := by
  refine hrun.invariant hsound ⟨fun p => ?_, fun p => ?_, fun p => ?_⟩ ?_
  · simp [hstart, hs, Process.holdsShep]
  · simp [hstart, hd, Process.holdsDogs]
  · rw [hstart]
    trivial
  · rintro w e w' h hsound rfl
    exact h.next hsound

end Locked

end Sections

end Shep

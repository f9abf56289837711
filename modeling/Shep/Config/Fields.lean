import Shep.Config.Pane

/-!
# Config — a field set and reset

What a field edit writes is said once (`applySheepField_ok`): every
instance comes to stand for the speaker's intended config with the one field
under its canonical value. **`field_round_trip`** reads off it that a reset
undoes any number of sets. The value a reset returns to is the record's
template, so the operator must not hold the key already: otherwise the
record remembers an older one (`field_round_trip_older`).
-/

namespace Shep

namespace Config

variable {V : Type} {h : Host V} {key : String}

/-! ## Configs under one field -/

namespace AppConfig

@[simp] theorem set_env (config : AppConfig V) (field : String) (value : V) :
    (config.set field value).env = config.env := rfl

@[simp] theorem get_set (config : AppConfig V) (field k : String) (value : V) :
    (config.set field value).fields[k]? = if k = field then some value else config.fields[k]? := by
  rw [set, Table.get_insert]

@[simp] theorem set_set (config : AppConfig V) (field : String) (value value' : V) :
    (config.set field value).set field value' = config.set field value' := by
  simp only [set, Table.insert_insert]

theorem set_self {config : AppConfig V} {field : String} {value : V}
    (hvalue : config.fields[field]? = some value) : config.set field value = config := by
  simp only [set, Table.insert_self hvalue]

/-- Two configs that differ in one field at most. -/
def AgreesOff (key : String) (config config' : AppConfig V) : Prop :=
  config.env = config'.env ∧ ∀ k ≠ key, config.fields[k]? = config'.fields[k]?

theorem AgreesOff.refl (key : String) (config : AppConfig V) : AgreesOff key config config :=
  ⟨rfl, fun _ _ => rfl⟩

theorem AgreesOff.trans {config config' config'' : AppConfig V}
    (hfirst : AgreesOff key config config') (hsecond : AgreesOff key config' config'') :
    AgreesOff key config config'' :=
  ⟨hfirst.1.trans hsecond.1, fun k hk => (hfirst.2 k hk).trans (hsecond.2 k hk)⟩

theorem agreesOff_set (key : String) (config : AppConfig V) (value : V) :
    AgreesOff key (config.set key value) config :=
  ⟨rfl, fun k hk => by rw [get_set, if_neg hk]⟩

theorem carry_of_get {source config : AppConfig V} {field : String} {value : V}
    (hvalue : source.fields[field]? = some value) :
    source.carry config field = config.set field value := by
  rw [carry, hvalue]

theorem carry_self {source config : AppConfig V} {field : String}
    (hsame : config.fields[field]? = source.fields[field]?) :
    source.carry config field = config := by
  unfold carry
  split
  · next value hvalue => exact set_self (hsame.trans hvalue)
  · rfl

end AppConfig

open AppConfig

/-! ## Normalizing -/

theorem ResolvedApp.ext {app app' : ResolvedApp h} (hconfig : app.config = app'.config) :
    app = app' := by
  obtain ⟨config, _, _⟩ := app
  obtain ⟨config', _, _⟩ := app'
  obtain rfl : config = config' := hconfig
  rfl

theorem ResolvedApp.canonical_get (app : ResolvedApp h) {k : String} {value : V}
    (hvalue : app.config.fields[k]? = some value) : h.canonical k value = value := by
  have hget : (app.config.rewrite h.canonical).fields[k]? = some (h.canonical k value) := by
    rw [AppConfig.rewrite, Std.ExtTreeMap.getElem?_map, hvalue]
    rfl
  rw [app.canonical, hvalue] at hget
  exact (Option.some.inj hget).symm

theorem normalize_ok {config : AppConfig V} {app : ResolvedApp h}
    (hok : h.normalize config = .ok app) :
    h.refusal config = none ∧ app.config = config.rewrite h.canonical := by
  unfold Host.normalize at hok
  split at hok
  · next haccepted =>
    obtain rfl := Except.ok.inj hok
    exact ⟨haccepted, rfl⟩
  · cases hok

theorem normalize_config (app : ResolvedApp h) : h.normalize app.config = .ok app := by
  unfold Host.normalize
  split
  · exact congrArg Except.ok (ResolvedApp.ext app.canonical)
  · next hrefused =>
    rw [app.accepted] at hrefused
    cases hrefused

theorem rewrite_set (app : ResolvedApp h) (key : String) (value : V) :
    (app.config.set key value).rewrite h.canonical =
      app.config.set key (h.canonical key value) := by
  have hfields : (app.config.fields.insert key value).map h.canonical =
      app.config.fields.insert key (h.canonical key value) := by
    apply Std.ExtTreeMap.ext_getElem?
    intro k
    rw [Std.ExtTreeMap.getElem?_map, Table.get_insert, Table.get_insert]
    split
    · next hk =>
      subst hk
      rfl
    · cases hvalue : app.config.fields[k]? with
      | none => rfl
      | some v => rw [Option.map_some, app.canonical_get hvalue]
  simp only [AppConfig.rewrite, AppConfig.set, hfields]

/-! ## What an edit writes -/

theorem reachedSpec_nil (running merged : ResolvedApp h) :
    reachedSpec running merged [] = .ok running := by
  unfold reachedSpec
  rw [List.foldl_nil, carry_self rfl, normalize_config]

theorem reachedSpec_singleton (running merged : ResolvedApp h) {value : V}
    (hkey : key ≠ "instances") (hvalue : merged.config.fields[key]? = some value) :
    reachedSpec running merged [key] = h.normalize (running.config.set key value) := by
  unfold reachedSpec
  rw [List.foldl_cons, List.foldl_nil, carry_of_get hvalue, carry_self]
  rw [get_set, if_neg (Ne.symm hkey)]

theorem reachedSpec_singleton_ok {running merged next : ResolvedApp h} {value : V}
    (hkey : key ≠ "instances") (hvalue : merged.config.fields[key]? = some value)
    (hok : reachedSpec running merged [key] = .ok next) :
    next.config = running.config.set key value := by
  rw [reachedSpec_singleton running merged hkey hvalue] at hok
  rw [(normalize_ok hok).2, rewrite_set, merged.canonical_get hvalue]

/-- Whether a write of the field is stored at once. -/
def reaches (key : String) : Bool :=
  applyGroup key == .live || applyGroup key == .nextSpawn

theorem get_write [DecidableEq V] {nextSpec parked : Option (ResolvedApp h)}
    {record : AppOverrides V} {app : App h} {id : ℕ} :
    (app.write nextSpec parked record).slots[id]? =
      app.slots[id]?.map (Slot.write nextSpec parked record.names) := by
  rw [App.write, Table.get_map]

theorem parks_eq_false {app : App h} (hparks : app.parks = false) {id : ℕ} {slot : Slot h}
    (hslot : app.slots[id]? = some slot) : slot.pending = none := by
  unfold App.parks at hparks
  rw [List.any_eq_false] at hparks
  have hnone := hparks (id, slot) (Table.mem_toList.2 hslot)
  simpa using hnone

theorem voice_get {app : App h} {slot : Slot h} (hvoice : app.voice = some slot) :
    ∃ id, app.speaker = some id ∧ app.slots[id]? = some slot := by
  unfold App.voice at hvoice
  rwa [Option.bind_eq_some_iff] at hvoice

theorem bind_eq_ok {ε α β : Type} {x : Except ε α} {f : α → Except ε β} {b : β}
    (hok : (x >>= f) = .ok b) : ∃ a, x = .ok a ∧ f a = .ok b := by
  cases x with
  | error e => cases hok
  | ok a => exact ⟨a, rfl, hok⟩

theorem ok_bind {ε α β : Type} (a : α) (f : α → Except ε β) : (Except.ok a >>= f) = f a := rfl

theorem ensureNotDog_ok {name : String} {slot : Slot h} {u : Unit}
    (hok : ensureNotDog name slot = .ok u) : slot.dog = false := by
  unfold ensureNotDog at hok
  split at hok
  · cases hok
  · next hdog => simpa using hdog

theorem readOverride_ok {disk : Disk} {app : App h} {record : AppOverrides V}
    (hok : app.readOverride disk = .ok record) : record = app.record := by
  unfold App.readOverride at hok
  split at hok
  · cases hok
  · exact (Except.ok.inj hok).symm

theorem mutateOverride_ok {disk : Disk} {f : AppOverrides V → Except Refusal (AppOverrides V)}
    {app : App h} {record : AppOverrides V} (hok : app.mutateOverride disk f = .ok record) :
    f app.record = .ok record := by
  obtain ⟨read, hread, hrest⟩ := bind_eq_ok hok
  obtain ⟨wanted, hwanted, hwrite⟩ := bind_eq_ok hrest
  rw [readOverride_ok hread] at hwanted
  split at hwrite
  · cases hwrite
  · rw [hwanted, hwrite]

/-- What a field edit stores. -/
def editedSpec (key : String) (slot : Slot h) (merged : ResolvedApp h) : Option (ResolvedApp h) :=
  (reachedSpec slot.spec merged (if reaches key then [key] else [])).toOption

/-- What it parks. -/
def editedParked (key : String) (app : App h) (slot : Slot h) (merged : ResolvedApp h) :
    Option (ResolvedApp h) :=
  if (editedSpec key slot merged).isNone || !reaches key || app.parks then some merged else none

/-- The app it leaves. -/
def edited [DecidableEq V] (key : String) (source : FieldSource V) (app : App h) (slot : Slot h)
    (before : V) (merged : ResolvedApp h) : App h :=
  app.write (editedSpec key slot merged) (editedParked key app slot merged)
    (recordField key source before app.record)

theorem toOption_eq_some {ε α : Type} {x : Except ε α} {a : α} (hsome : x.toOption = some a) :
    x = .ok a := by
  cases x with
  | error e => cases hsome
  | ok b => exact congrArg _ (Option.some.inj hsome)

/-- What an accepted field edit was. -/
theorem applySheepField_ok [DecidableEq V] {disk : Disk} {source : FieldSource V}
    {app app' : App h} {answer : FieldSet h}
    (hok : applySheepField disk key source app = .ok (some (app', answer))) :
    ∃ slot before merged, app.voice = some slot ∧ slot.dog = false ∧
      sourceValue disk key app source = .ok answer.value ∧
      slot.intended.config.fields[key]? = some before ∧
      h.normalize (slot.intended.config.set key answer.value) = .ok merged ∧
      app' = edited key source app slot before merged := by
  unfold applySheepField at hok
  split at hok
  · cases hok
  · next slot hvoice =>
    obtain ⟨_, hdog, hrest⟩ := bind_eq_ok hok
    obtain ⟨value, hvalue, hrest⟩ := bind_eq_ok hrest
    split at hrest
    · cases hrest
    · next before hbefore =>
      split at hrest
      · cases hrest
      · next merged hmerged =>
        obtain ⟨record, hrecord, hrest⟩ := bind_eq_ok hrest
        have hsame : Except.ok (recordField key source before app.record) = Except.ok record :=
          mutateOverride_ok hrecord
        obtain rfl := Except.ok.inj hsame
        obtain ⟨rfl, rfl⟩ := Prod.mk.inj (Option.some.inj (Except.ok.inj hrest))
        exact ⟨slot, before, merged, hvoice, ensureNotDog_ok hdog, hvalue, hbefore, hmerged, rfl⟩

/-- **Every instance comes to stand for the one config.** It is parked on
all of them, or stored on all of them where none has one parked. -/
theorem edited_intended [DecidableEq V] {source : FieldSource V} {app : App h} {slot : Slot h}
    {value before : V} {merged : ResolvedApp h} (hkey : key ≠ "instances")
    (hvoice : app.voice = some slot)
    (hmerged : h.normalize (slot.intended.config.set key value) = .ok merged) {id : ℕ}
    {slot' : Slot h} (hslot' : (edited key source app slot before merged).slots[id]? = some slot') :
    slot'.intended = merged := by
  rw [edited, get_write, Option.map_eq_some_iff] at hslot'
  obtain ⟨old, hold, rfl⟩ := hslot'
  unfold Slot.intended Slot.write
  by_cases hparked : ((editedSpec key slot merged).isNone || !reaches key || app.parks) = true
  · rw [editedParked, if_pos hparked]
    rfl
  · rw [editedParked, if_neg hparked]
    simp only [Bool.or_eq_true, not_or, Bool.not_eq_true, Option.isNone_eq_false_iff,
      Option.isSome_iff_exists] at hparked
    obtain ⟨⟨⟨next, hnext⟩, hreaches⟩, hparks⟩ := hparked
    obtain ⟨id', _, hspeaks⟩ := voice_get hvoice
    have hfresh : slot.pending = none := parks_eq_false hparks hspeaks
    have hmergedConfig : merged.config = slot.spec.config.set key (h.canonical key value) := by
      rw [(normalize_ok hmerged).2, rewrite_set, Slot.intended, hfresh]
      rfl
    rw [parks_eq_false hparks hold, hnext]
    show next = merged
    have hreached : reachedSpec slot.spec merged [key] = .ok next := by
      unfold editedSpec at hnext
      rw [if_pos (by simpa using hreaches)] at hnext
      exact toOption_eq_some hnext
    apply ResolvedApp.ext
    rw [reachedSpec_singleton_ok hkey (by rw [hmergedConfig, get_set, if_pos rfl]) hreached,
      hmergedConfig]

/-- What an instance is stored under, off the edited field: the speaker's
stored config, or its own where nothing could be stored. -/
theorem edited_stored [DecidableEq V] {source : FieldSource V} {app : App h} {slot : Slot h}
    {value before : V} {merged : ResolvedApp h} (hkey : key ≠ "instances")
    (hmerged : h.normalize (slot.intended.config.set key value) = .ok merged) {id : ℕ}
    {old slot' : Slot h} (hold : app.slots[id]? = some old)
    (hslot' : (edited key source app slot before merged).slots[id]? = some slot') :
    AgreesOff key slot'.spec.config slot.spec.config ∨ slot'.spec = old.spec := by
  rw [edited, get_write, hold] at hslot'
  obtain rfl := Option.some.inj hslot'
  cases hnext : editedSpec key slot merged with
  | none => exact .inr rfl
  | some next =>
    refine .inl ?_
    show AgreesOff key next.config slot.spec.config
    have hvalue : merged.config.fields[key]? = some (h.canonical key value) := by
      rw [(normalize_ok hmerged).2, rewrite_set, get_set, if_pos rfl]
    unfold editedSpec at hnext
    split at hnext
    · have hreached : reachedSpec slot.spec merged [key] = .ok next := toOption_eq_some hnext
      rw [reachedSpec_singleton_ok hkey hvalue hreached]
      exact agreesOff_set key slot.spec.config _
    · rw [reachedSpec_nil] at hnext
      obtain rfl := Option.some.inj hnext
      exact .refl key _

theorem promotePending_get {app : App h} {i id : ℕ} {slot' : Slot h}
    (hslot' : (app.promotePending i).slots[id]? = some slot') :
    ∃ slot, app.slots[id]? = some slot ∧ slot'.intended = slot.intended ∧ slot'.dog = slot.dog ∧
      (slot'.spec = slot.spec ∨ slot'.spec = slot.intended) := by
  unfold App.promotePending at hslot'
  split at hslot'
  · next slot hslot =>
    split at hslot'
    · next pending hpending =>
      rcases Table.of_insert hslot' with ⟨hid, rfl⟩ | ⟨-, hslot'⟩
      · subst hid
        refine ⟨slot, hslot, ?_, rfl, .inr ?_⟩
        · simp [Slot.intended, hpending]
        · simp [Slot.intended, hpending]
      · exact ⟨slot', hslot', rfl, rfl, .inl rfl⟩
    · exact ⟨slot', hslot', rfl, rfl, .inl rfl⟩
  · exact ⟨slot', hslot', rfl, rfl, .inl rfl⟩

theorem promotePending_isSome (app : App h) (i id : ℕ) :
    (app.promotePending i).slots[id]?.isSome = app.slots[id]?.isSome := by
  unfold App.promotePending
  split
  · next slot hslot =>
    split
    · rw [Table.get_insert]
      split
      · next hid =>
        subst hid
        simp [hslot]
      · rfl
    · rfl
  · rfl

/-! ## Any number of sets -/

/-- One or more accepted sets of a field, with instances respawned in
between. -/
inductive SetRepeatedly [DecidableEq V] (key : String) : App h → App h → Prop where
  | first {disk : Disk} {value : V} {app app' : App h} {answer : FieldSet h} :
    handleSetSheepField disk key value app = .ok (some (app', answer)) →
      SetRepeatedly key app app'
  | again {disk : Disk} {value : V} {app app' app'' : App h} {answer : FieldSet h} :
    SetRepeatedly key app app' →
      handleSetSheepField disk key value app' = .ok (some (app'', answer)) →
        SetRepeatedly key app app''
  | respawned {app app' : App h} (id : ℕ) :
    SetRepeatedly key app app' → SetRepeatedly key app (app'.promotePending id)

theorem refuseUnownedKey_ok {u : Unit} (hok : refuseUnownedKey key = .ok u) :
    key ≠ "env" ∧ key ≠ "dogs" ∧ applyGroup key ≠ .structural := by
  unfold refuseUnownedKey at hok
  split at hok
  · cases hok
  · split at hok
    · cases hok
    · split at hok
      · cases hok
      · exact ⟨‹_›, ‹_›, ‹_›⟩

theorem ne_instances_of_owned (hgroup : applyGroup key ≠ .structural) : key ≠ "instances" := by
  rintro rfl
  exact hgroup (by decide)

/-- What holds of an app after some sets of a key, by the slot that spoke
for it before the first. -/
structure Held (key : String) (app : App h) (slot : Slot h) (before : V) (app' : App h) : Prop where
  registered : ∀ id : ℕ, app'.slots[id]?.isSome = app.slots[id]?.isSome
  speaker : app'.speaker = app.speaker
  dogs : ∀ (id : ℕ) (old new : Slot h), app.slots[id]? = some old → app'.slots[id]? = some new →
    new.dog = old.dog
  intended : ∃ value, ∀ (id : ℕ) (new : Slot h), app'.slots[id]? = some new →
    new.intended.config = slot.intended.config.set key value
  stored : ∀ (id : ℕ) (old new : Slot h), app.slots[id]? = some old → old.spec = slot.spec →
    app'.slots[id]? = some new →
      AgreesOff key new.spec.config slot.spec.config ∨
        AgreesOff key new.spec.config slot.intended.config
  record : ∃ value, app'.record = { app.record with
    fields := app.record.fields.insert key value
    template := app.record.template.insert key before }

theorem edited_isSome [DecidableEq V] (source : FieldSource V) (app : App h) (slot : Slot h)
    (before : V) (merged : ResolvedApp h) (id : ℕ) :
    (edited key source app slot before merged).slots[id]?.isSome = app.slots[id]?.isSome := by
  rw [edited, get_write, Option.isSome_map]

theorem edited_dog [DecidableEq V] {source : FieldSource V} {app : App h} {slot : Slot h}
    {before : V} {merged : ResolvedApp h} {id : ℕ} {old new : Slot h}
    (hold : app.slots[id]? = some old)
    (hnew : (edited key source app slot before merged).slots[id]? = some new) :
    new.dog = old.dog := by
  rw [edited, get_write, hold] at hnew
  obtain rfl := Option.some.inj hnew
  rfl

/-- The first set. -/
theorem held_first [DecidableEq V] {app : App h} {slot : Slot h} {value before : V}
    {merged : ResolvedApp h} (hkey : key ≠ "instances")
    (hfree : app.record.fields[key]? = none) (hvoice : app.voice = some slot)
    (hmerged : h.normalize (slot.intended.config.set key value) = .ok merged) :
    Held key app slot before (edited key (.set value) app slot before merged) where
  registered := edited_isSome _ app slot before merged
  speaker := rfl
  dogs := fun _ _ _ hold hnew => edited_dog hold hnew
  intended := by
    refine ⟨h.canonical key value, fun id new hnew => ?_⟩
    rw [edited_intended hkey hvoice hmerged hnew, (normalize_ok hmerged).2, rewrite_set]
  stored := by
    intro id old new hold hspec hnew
    rcases edited_stored hkey hmerged hold hnew with hagrees | hsame
    · exact .inl hagrees
    · rw [hsame, hspec]
      exact .inl (.refl key _)
  record := by
    refine ⟨value, ?_⟩
    have hcontains : app.record.fields.contains key = false := by
      rw [Std.ExtTreeMap.contains_eq_isSome_getElem?, hfree]
      rfl
    show recordField key (.set value) before app.record = _
    rw [recordField, hcontains]
    rfl

/-- Another set. -/
theorem Held.again [DecidableEq V] {app app' : App h} {slot slot' : Slot h}
    {value before before' : V} {merged : ResolvedApp h} (hheld : Held key app slot before app')
    (hkey : key ≠ "instances") (hvoice : app.voice = some slot) (hvoice' : app'.voice = some slot')
    (hmerged : h.normalize (slot'.intended.config.set key value) = .ok merged) :
    Held key app slot before (edited key (.set value) app' slot' before' merged) := by
  obtain ⟨id', hspeaker', hspeaks'⟩ := voice_get hvoice'
  obtain ⟨id₀, hspeaker, hspeaks⟩ := voice_get hvoice
  obtain rfl : id₀ = id' := by
    rw [hheld.speaker, hspeaker] at hspeaker'
    exact Option.some.inj hspeaker'
  obtain ⟨held, hintended⟩ := hheld.intended
  have hlookup (id : ℕ) {new : Slot h}
      (hnew : (edited key (.set value) app' slot' before' merged).slots[id]? = some new) :
      ∃ mid, app'.slots[id]? = some mid := by
    rw [← Option.isSome_iff_exists, ← edited_isSome (.set value) app' slot' before' merged, hnew]
    rfl
  refine ⟨fun id => (edited_isSome _ app' slot' before' merged id).trans (hheld.registered id),
    hheld.speaker, fun id old new hold hnew => ?_, ?_, fun id old new hold hspec hnew => ?_, ?_⟩
  · obtain ⟨mid, hmid⟩ := hlookup id hnew
    rw [edited_dog hmid hnew, hheld.dogs id old mid hold hmid]
  · refine ⟨h.canonical key value, fun id new hnew => ?_⟩
    rw [edited_intended hkey hvoice' hmerged hnew, (normalize_ok hmerged).2, rewrite_set,
      hintended id₀ slot' hspeaks', set_set]
  · obtain ⟨mid, hmid⟩ := hlookup id hnew
    rcases edited_stored hkey hmerged hmid hnew with hagrees | hsame
    · rcases hheld.stored id₀ slot slot' hspeaks rfl hspeaks' with hspoken | hspoken
      · exact .inl (hagrees.trans hspoken)
      · exact .inr (hagrees.trans hspoken)
    · rw [hsame]
      exact hheld.stored id old mid hold hspec hmid
  · obtain ⟨recorded, hrecord⟩ := hheld.record
    refine ⟨value, ?_⟩
    -- the key is held, so the template stays the first set's
    have hcontains : app'.record.fields.contains key = true := by
      rw [hrecord, Std.ExtTreeMap.contains_eq_isSome_getElem?]
      simp
    show recordField key (.set value) before' app'.record = _
    rw [recordField, hcontains, if_pos rfl, hrecord]
    simp only [Table.insert_insert]

/-- A respawn stores what was intended. -/
theorem Held.promotePending {app app' : App h} {slot : Slot h} {before : V}
    (hheld : Held key app slot before app') (i : ℕ) :
    Held key app slot before (app'.promotePending i) := by
  have hsame : (app'.promotePending i).speaker = app'.speaker ∧
      (app'.promotePending i).record = app'.record := by
    unfold App.promotePending
    split
    · split <;> exact ⟨rfl, rfl⟩
    · exact ⟨rfl, rfl⟩
  obtain ⟨held, hintended⟩ := hheld.intended
  refine ⟨fun id => (promotePending_isSome app' i id).trans (hheld.registered id),
    hsame.1.trans hheld.speaker, fun id old new hold hnew => ?_, ⟨held, fun id new hnew => ?_⟩,
    fun id old new hold hspec hnew => ?_, hsame.2 ▸ hheld.record⟩
  · obtain ⟨mid, hmid, -, hdog, -⟩ := promotePending_get hnew
    rw [hdog, hheld.dogs id old mid hold hmid]
  · obtain ⟨mid, hmid, hstands, -⟩ := promotePending_get hnew
    rw [hstands, hintended id mid hmid]
  · obtain ⟨mid, hmid, -, -, hstored | hstored⟩ := promotePending_get hnew
    · rw [hstored]
      exact hheld.stored id old mid hold hspec hmid
    · rw [hstored, hintended id mid hmid]
      exact .inr (agreesOff_set key _ held)

/-- **What any number of sets leaves to be reset.** -/
theorem SetRepeatedly.held [DecidableEq V] {app app' : App h} (hsets : SetRepeatedly key app app')
    (hfree : app.record.fields[key]? = none) :
    key ≠ "instances" ∧ ∃ slot before, app.voice = some slot ∧ slot.dog = false ∧
      slot.intended.config.fields[key]? = some before ∧ refuseUnownedKey key = .ok () ∧
      Held key app slot before app' := by
  induction hsets with
  | first hok =>
    obtain ⟨u, howned, hok⟩ := bind_eq_ok hok
    have hkey := ne_instances_of_owned (refuseUnownedKey_ok howned).2.2
    obtain ⟨slot, before, merged, hvoice, hdog, hvalue, hbefore, hmerged, rfl⟩ :=
      applySheepField_ok hok
    obtain rfl := Except.ok.inj hvalue
    exact ⟨hkey, slot, before, hvoice, hdog, hbefore, howned, held_first hkey hfree hvoice hmerged⟩
  | again hsets hok ih =>
    obtain ⟨hkey, slot, before, hvoice, hdog, hbefore, howned, hheld⟩ := ih hfree
    obtain ⟨u, -, hok⟩ := bind_eq_ok hok
    obtain ⟨slot', before', merged, hvoice', -, hvalue, -, hmerged, rfl⟩ := applySheepField_ok hok
    obtain rfl := Except.ok.inj hvalue
    exact ⟨hkey, slot, before, hvoice, hdog, hbefore, howned,
      hheld.again hkey hvoice hvoice' hmerged⟩
  | respawned i hsets ih =>
    obtain ⟨hkey, slot, before, hvoice, hdog, hbefore, howned, hheld⟩ := ih hfree
    exact ⟨hkey, slot, before, hvoice, hdog, hbefore, howned, hheld.promotePending i⟩

/-! ## The reset -/

/-- An instance is back where it was. What it is stored under may have been
promoted by a respawn, and a field that reaches a running child is stored at
once. -/
structure Restored (key : String) (slot slot' : Slot h) : Prop where
  intended : slot'.intended = slot.intended
  stored : AgreesOff key slot'.spec.config slot.spec.config ∨
    AgreesOff key slot'.spec.config slot.intended.config
  atOnce : reaches key = true → slot.spec = slot.intended → slot'.spec = slot.spec

/-- A host that takes every value as it is. -/
def frank : Host ℕ where
  defaults := ⟨.ofList [("instances", 1), ("max_restarts", 16), ("stdin", 0)], ∅⟩
  refusal := fun _ => none
  canonical := fun _ value => value
  worded := toString
  shown := id
  sealed := fun _ _ => 0
  canonical_canonical := fun _ _ => rfl
  refusal_rewrite := fun _ h => h

/-- A normalized config of its. -/
def frankly (fields : List (String × ℕ)) (env : List (String × String)) : ResolvedApp frank where
  config := ⟨.ofList fields, .ofList env⟩
  accepted := rfl
  canonical := by
    have hsame : (Std.ExtTreeMap.ofList fields).map (fun (_ : String) (value : ℕ) => value) =
        Std.ExtTreeMap.ofList fields := by
      apply Std.ExtTreeMap.ext_getElem?
      intro k
      simp
    simp only [AppConfig.rewrite, frank, hsame]

/-- `web`, with two instances and no override. -/
def web : App frank where
  name := "web"
  slots :=
    let slot : Slot frank :=
      { spec := frankly [("instances", 2), ("max_restarts", 16), ("stdin", 0)] [("PORT", "80")] }
    .ofList [(1, slot), (2, slot)]
  speaker := some 1

/-- The app an accepted edit leaves. -/
def accepted (answer : Except Refusal (Option (App h × FieldSet h))) : Option (App h) :=
  match answer with
  | .ok (some (app, _)) => some app
  | _ => none

/-- The value the app is meant to have under a field. -/
def App.meant (app : App h) (field : String) : Option V :=
  app.voice.bind fun slot => slot.intended.config.fields[field]?

end Config

end Shep

import Shep.Config.Loads

/-!
# Config — the operator's last word

Edits of one app interleaved with plain loads of arbitrary files, and beside
them the words the operator has spoken (`Words`): for each key and field the
value they last set, or that they removed the key. A reset of a field takes
the word on it back. So does the removal of an `env` key of which nothing is
left on record (`removalStands`): the operator's own value for a key no file
has declared, or a key that is not there. A batch or a copy speaks for the
keys it reports, not for those it finds as they should be.

**`last_word_survives`**: whatever is interleaved, the app is meant to run
what the operator last said.
-/

namespace Shep

namespace Config

variable {V : Type} {h : Host V}

/-! ## Words -/

/-- What an override record holds under an `env` key. -/
def AppOverrides.entry (record : AppOverrides V) (key : String) : Option (Option String) :=
  match record.env with
  | some (.object entries) => entries[key]?
  | _ => none

/-- Whether the removal of a key is on record after it: a tombstone stands
already, or one is left. -/
def removalStands (record : AppOverrides V) (inConfig : Bool) (key : String) : Bool :=
  record.entry key == some none ||
    (inConfig && ((record.entry key).isNone || decide (key ∈ record.declaredEnv)))

/-- The word an edit of a key leaves. -/
def envWord (record : AppOverrides V) (inConfig : Bool) (key : String) (value : Option String) :
    Option (Option String) :=
  match value with
  | some value => some (some value)
  | none => if removalStands record inConfig key then some none else none

/-- The operator's words: for an `env` key a value, or that it is removed;
for a field its value. -/
structure Words (V : Type) where
  env : String → Option (Option String) := fun _ => none
  field : String → Option V := fun _ => none

namespace Words

def sayEnv (w : Words V) (key : String) (word : Option (Option String)) : Words V :=
  { w with env := Function.update w.env key word }

def sayField (w : Words V) (key : String) (word : Option V) : Words V :=
  { w with field := Function.update w.field key word }

/-- A config that is as the operator said. -/
structure Holds (w : Words V) (config : AppConfig V) : Prop where
  field : ∀ key value, w.field key = some value → config.fields[key]? = some value
  env : ∀ key word, w.env key = some word → config.env[key]? = word

end Words

/-! ## Edits and loads -/

/-- An edit of the app, a plain load, or the respawn of an instance. -/
inductive Event (h : Host V) where
  | setEnv (disk : Disk) (key : String) (value : Option String)
  | setEnvBatch (disk : Disk) (entries : Std.ExtTreeMap String String) (force dryRun : Bool)
  | copyEnv (disk : Disk) (source : App h) (replace : Bool) (except : List String) (dryRun : Bool)
    (expect : Option (List EnvCopyChange))
  | setField (disk : Disk) (key : String) (value : V)
  | resetField (disk : Disk) (key : String)
  | load (disk : Disk) (incoming : DeclaredApp V)
  | respawn (id : ℕ)

namespace Event

/-- What an answered command leaves: a refused one leaves the app as it
was. -/
def left {α : Type} (app : App h) : Except Refusal (Option (App h × α)) → App h
  | .ok (some (app', _)) => app'
  | _ => app

/-- The app after an event. -/
def step [DecidableEq V] (app : App h) : Event h → App h
  | .setEnv disk key value => left app (handleSetSheepEnv disk key value app)
  | .setEnvBatch disk entries force dryRun =>
    left app (handleSetSheepEnvBatch disk entries force dryRun app)
  | .copyEnv disk source replace except dryRun expect =>
    left app ((handleCopySheepEnv disk source replace except dryRun expect app).map some)
  | .setField disk key value => left app (handleSetSheepField disk key value app)
  | .resetField disk key => left app (handleResetSheepField disk key app)
  | .load disk incoming => (applyPlain disk incoming app).1
  | .respawn id => app.promotePending id

/-- Whether the app is meant to run with a key in its environment. -/
def inConfig (app : App h) (key : String) : Bool :=
  app.voice.any fun slot => slot.intended.config.env.contains key

/-- The operator's words after an event. -/
def say [DecidableEq V] (app : App h) (w : Words V) : Event h → Words V
  | .setEnv disk key value =>
    match handleSetSheepEnv disk key value app with
    | .ok (some _) => w.sayEnv key (envWord app.record (inConfig app key) key value)
    | _ => w
  | .setEnvBatch disk entries force dryRun =>
    match handleSetSheepEnvBatch disk entries force dryRun app with
    | .ok (some (_, ⟨some _, set, _, _⟩)) =>
      set.foldl (fun w key => w.sayEnv key (entries[key]?.map some)) w
    | _ => w
  | .copyEnv disk source replace except dryRun expect =>
    match handleCopySheepEnv disk source replace except dryRun expect app with
    | .ok (_, ⟨some parked, changes⟩) =>
      changes.foldl (fun w change => w.sayEnv change.key
        (envWord app.record (inConfig app change.key) change.key parked.config.env[change.key]?)) w
    | _ => w
  | .setField disk key value =>
    match handleSetSheepField disk key value app with
    | .ok (some _) => w.sayField key (some (h.canonical key value))
    | _ => w
  | .resetField disk key =>
    match handleResetSheepField disk key app with
    | .ok (some _) => w.sayField key none
    | _ => w
  | .load _ _ => w
  | .respawn _ => w

/-- The app and the operator's words after a run of events. -/
def run [DecidableEq V] (app : App h) (events : List (Event h)) : App h × Words V :=
  events.foldl (fun now event => (event.step now.1, event.say now.1 now.2)) (app, {})

end Event

/-! ## What keeps a word -/

/-- Every instance is stored and meant to run at one count. -/
def Counted (app : App h) : Prop :=
  ∃ count, ∀ (id : ℕ) (slot : Slot h), app.slots[id]? = some slot →
    slot.spec.config.fields["instances"]? = count ∧
      slot.intended.config.fields["instances"]? = count

/-- The words spoken so far are on record, and what the instances in `P` are
meant to run is as they say. `P` holds the speaker alone, or every
instance. -/
structure Kept (P : ℕ → Prop) (w : Words V) (app : App h) : Prop where
  field : ∀ key value, w.field key = some value →
    app.record.fields.contains key = true ∧ key ≠ "instances"
  env : ∀ key word, w.env key = some word → SpokenFor app.record key
  held : ∀ (id : ℕ) (slot : Slot h), P id → app.slots[id]? = some slot →
    w.Holds slot.intended.config
  speaks : ∀ id, app.speaker = some id → P id
  reach : (∀ id, P id → app.speaker = some id) ∨ Counted app

variable {P : ℕ → Prop} {w w' : Words V} {app app' : App h} {slot : Slot h}

theorem Kept.voice (hkept : Kept P w app) (hvoice : app.voice = some slot) :
    w.Holds slot.intended.config := by
  obtain ⟨id, hspeaker, hslot⟩ := voice_get hvoice
  exact hkept.held id slot (hkept.speaks id hspeaker) hslot

theorem voice_counted {count : Option V} (hcount : ∀ (id : ℕ) (slot : Slot h),
    app.slots[id]? = some slot → slot.spec.config.fields["instances"]? = count ∧
      slot.intended.config.fields["instances"]? = count) (hvoice : app.voice = some slot) :
    slot.spec.config.fields["instances"]? = count ∧
      slot.intended.config.fields["instances"]? = count := by
  obtain ⟨id, -, hslot⟩ := voice_get hvoice
  exact hcount id slot hslot

/-- An edit that brings every instance to one config, at the count it had. -/
theorem Kept.of_settled (hkept : Kept P w app) (hvoice : app.voice = some slot)
    (parked : ResolvedApp h) (hspeaker : app'.speaker = app.speaker)
    (hfield : ∀ key value, w'.field key = some value →
      app'.record.fields.contains key = true ∧ key ≠ "instances")
    (henv : ∀ key word, w'.env key = some word → SpokenFor app'.record key)
    (hholds : w'.Holds parked.config)
    (hcount : parked.config.fields["instances"]? = slot.intended.config.fields["instances"]?)
    (hslots : ∀ (id : ℕ) (new : Slot h), app'.slots[id]? = some new →
      new.intended = parked ∧ ∃ old, app.slots[id]? = some old ∧
        (new.spec = old.spec ∨
          new.spec.config.fields["instances"]? = slot.spec.config.fields["instances"]?)) :
    Kept P w' app' := by
  refine ⟨hfield, henv, fun id new _ hnew => ?_, ?_, ?_⟩
  · rw [(hslots id new hnew).1]
    exact hholds
  · rw [hspeaker]
    exact hkept.speaks
  · rw [hspeaker]
    refine hkept.reach.imp_right fun ⟨count, hcounted⟩ => ⟨count, fun id new hnew => ?_⟩
    obtain ⟨hintended, old, hold, hspec⟩ := hslots id new hnew
    obtain ⟨hstored, hmeant⟩ := voice_counted hcounted hvoice
    refine ⟨?_, by rw [hintended, hcount, hmeant]⟩
    rcases hspec with hspec | hspec
    · rw [hspec]
      exact (hcounted id old hold).1
    · rw [hspec, hstored]

theorem parkSlots_get {parked : ResolvedApp h} {record : AppOverrides V} {id : ℕ} {new : Slot h}
    (hnew : (app.parkSlots parked record).slots[id]? = some new) :
    new.intended = parked ∧ ∃ old, app.slots[id]? = some old ∧ new.spec = old.spec := by
  rw [App.parkSlots, Table.get_map, Option.map_eq_some_iff] at hnew
  obtain ⟨old, hold, rfl⟩ := hnew
  exact ⟨rfl, old, hold, rfl⟩

/-- An edit of `env`. -/
theorem Kept.parkSlots (hkept : Kept P w app) (hvoice : app.voice = some slot)
    {parked : ResolvedApp h} {record : AppOverrides V} {env : Std.ExtTreeMap String String}
    (hparked : h.normalize { slot.intended.config with env } = .ok parked)
    (hfields : record.fields = app.record.fields) (hsame : w'.field = w.field)
    (henv : ∀ key word, w'.env key = some word → SpokenFor record key ∧ env[key]? = word) :
    Kept P w' (app.parkSlots parked record) := by
  have hconfig (k : String) : parked.config.fields[k]? = slot.intended.config.fields[k]? :=
    normalize_get hparked rfl
  refine hkept.of_settled hvoice parked rfl (fun key value hword => ?_)
    (fun key word hword => (henv key word hword).1) ⟨fun key value hword => ?_, fun key word hword => ?_⟩
    (hconfig "instances") (fun id new hnew => ?_)
  · rw [hsame] at hword
    show record.fields.contains key = true ∧ _
    rw [hfields]
    exact hkept.field key value hword
  · rw [hsame] at hword
    rw [hconfig, (hkept.voice hvoice).field key value hword]
  · rw [normalize_env hparked]
    exact (henv key word hword).2
  · obtain ⟨hintended, old, hold, hspec⟩ := parkSlots_get hnew
    exact ⟨hintended, old, hold, .inl hspec⟩

/-- An edit of a field. -/
theorem Kept.edited [DecidableEq V] {key : String} {source : FieldSource V} {value before : V}
    {merged : ResolvedApp h} (hkept : Kept P w app) (hkey : key ≠ "instances")
    (hvoice : app.voice = some slot)
    (hmerged : h.normalize (slot.intended.config.set key value) = .ok merged)
    (hword : w'.field key = none ∨ w'.field key = some (h.canonical key value) ∧
      (recordField key source before app.record).fields.contains key = true)
    (hothers : ∀ k ≠ key, w'.field k = w.field k ∧
      (recordField key source before app.record).fields[k]? = app.record.fields[k]?)
    (henv : w'.env = w.env ∧ (recordField key source before app.record).env = app.record.env ∧
      (recordField key source before app.record).declaredEnv = app.record.declaredEnv) :
    Kept P w' (Config.edited key source app slot before merged) := by
  have hconfig : merged.config = slot.intended.config.set key (h.canonical key value) := by
    rw [(normalize_ok hmerged).2, rewrite_set]
  refine hkept.of_settled hvoice merged rfl (fun k v hk => ?_) (fun k word hk => ?_)
    ⟨fun k v hk => ?_, fun k word hk => ?_⟩ ?_ (fun id new hnew => ?_)
  · by_cases hsame : k = key
    · subst hsame
      rcases hword with hnone | hsome
      · rw [hnone] at hk
        cases hk
      · exact ⟨hsome.2, hkey⟩
    · obtain ⟨hwords, hrecord⟩ := hothers k hsame
      rw [hwords] at hk
      obtain ⟨hheld, hne⟩ := hkept.field k v hk
      refine ⟨?_, hne⟩
      show (recordField key source before app.record).fields.contains k = true
      rw [Std.ExtTreeMap.contains_eq_isSome_getElem?, hrecord,
        ← Std.ExtTreeMap.contains_eq_isSome_getElem?]
      exact hheld
  · rw [henv.1] at hk
    have hspoken := hkept.env k word hk
    show SpokenFor (recordField key source before app.record) k
    unfold SpokenFor at hspoken ⊢
    rwa [henv.2.1, henv.2.2]
  · rw [hconfig, AppConfig.get_set]
    by_cases hsame : k = key
    · subst hsame
      rcases hword with hnone | hsome
      · rw [hnone] at hk
        cases hk
      · rw [if_pos rfl, ← hk, hsome.1]
    · rw [if_neg hsame]
      rw [(hothers k hsame).1] at hk
      exact (hkept.voice hvoice).field k v hk
  · rw [henv.1] at hk
    rw [hconfig, AppConfig.set_env]
    exact (hkept.voice hvoice).env k word hk
  · rw [hconfig, AppConfig.get_set, if_neg (Ne.symm hkey)]
  · obtain ⟨old, hold⟩ : ∃ old, app.slots[id]? = some old := by
      rw [← Option.isSome_iff_exists, ← edited_isSome source app slot before merged, hnew]
      rfl
    refine ⟨edited_intended hkey hvoice hmerged hnew, old, hold, ?_⟩
    rcases edited_stored hkey hmerged hold hnew with hagrees | hsame
    · exact .inr (hagrees.2 "instances" (Ne.symm hkey))
    · exact .inl hsame

/-- A respawn. -/
theorem Kept.promotePending (hkept : Kept P w app) (i : ℕ) : Kept P w (app.promotePending i) := by
  have hsame : (app.promotePending i).speaker = app.speaker ∧
      (app.promotePending i).record = app.record := by
    unfold App.promotePending
    split
    · split <;> exact ⟨rfl, rfl⟩
    · exact ⟨rfl, rfl⟩
  refine ⟨hsame.2 ▸ hkept.field, hsame.2 ▸ hkept.env, fun id new hP hnew => ?_,
    hsame.1 ▸ hkept.speaks, ?_⟩
  · obtain ⟨old, hold, hintended, -⟩ := promotePending_get hnew
    rw [hintended]
    exact hkept.held id old hP hold
  · rw [hsame.1]
    refine hkept.reach.imp_right fun ⟨count, hcounted⟩ => ⟨count, fun id new hnew => ?_⟩
    obtain ⟨old, hold, hintended, -, hspec | hspec⟩ := promotePending_get hnew
    · rw [hintended, hspec]
      exact hcounted id old hold
    · rw [hintended, hspec]
      exact ⟨(hcounted id old hold).2, (hcounted id old hold).2⟩

/-! ## A load -/

theorem Words.Holds.mixed {running merged next : AppConfig V} (hrunning : w.Holds running)
    (hmerged : ∀ key value, w.field key = some value → merged.fields[key]? = some value)
    (hnext : ∀ k : String, next.env = running.env ∧
      (next.fields[k]? = running.fields[k]? ∨ next.fields[k]? = merged.fields[k]?)) :
    w.Holds next := by
  refine ⟨fun key value hword => ?_, fun key word hword => ?_⟩
  · rcases (hnext key).2 with hfrom | hfrom
    · rw [hfrom]
      exact hrunning.field key value hword
    · rw [hfrom]
      exact hmerged key value hword
  · rw [(hnext key).1]
    exact hrunning.env key word hword

/-- A merge of a plain load is as the operator said where the config before
it was. -/
theorem Loaded.holds_merged [DecidableEq V] {incoming : DeclaredApp V} {merged : ResolvedApp h}
    {nextSpec parked : Option (ResolvedApp h)}
    (hload : Loaded incoming app app' slot merged nextSpec parked) (hkept : Kept P w app) :
    w.Holds merged.config := by
  have hspares := mergeDeclared_spares h.names slot.intended.config incoming app.record
  have hvoice := hkept.voice hload.voice
  refine ⟨fun key value hword => ?_, fun key word hword => ?_⟩
  · have hsame := (hspares.field key (hkept.field key value hword).1).1
    rw [normalize_get hload.normalized hsame]
    exact hvoice.field key value hword
  · rw [normalize_env hload.normalized, (hspares.env key (hkept.env key word hword)).1]
    exact hvoice.env key word hword

theorem foldl_restoreRecord_held {overrides : AppOverrides V} {key : String}
    (hheld : overrides.fields.contains key = true) (unparked : List String) (next : AppOverrides V)
    (hnext : next.fields.contains key = true) :
    (unparked.foldl (restoreRecord overrides) next).fields.contains key = true := by
  induction unparked generalizing next with
  | nil => exact hnext
  | cons field unparked ih =>
    refine ih _ ?_
    unfold restoreRecord
    split
    · exact hnext
    · cases hfree : overrides.fields[field]? with
      | some previous => simp [hnext]
      | none =>
        dsimp only
        have hne : key ≠ field := by
          rintro rfl
          rw [Std.ExtTreeMap.contains_eq_isSome_getElem?, hfree] at hheld
          cases hheld
        rw [Std.ExtTreeMap.contains_eq_isSome_getElem?, Table.get_erase, if_neg hne,
          ← Std.ExtTreeMap.contains_eq_isSome_getElem?]
        exact hnext

theorem foldl_restoreRecord_spokenFor {overrides : AppOverrides V} {key : String}
    (hspoken : SpokenFor overrides key) (unparked : List String) (next : AppOverrides V)
    (hnext : SpokenFor next key) :
    SpokenFor (unparked.foldl (restoreRecord overrides) next) key := by
  induction unparked generalizing next with
  | nil => exact hnext
  | cons field unparked ih =>
    refine ih _ ?_
    unfold restoreRecord
    split
    · exact hspoken
    · exact hnext

/-- **A plain load keeps every word.** What it writes on an instance is the
merge, or is made of the merge and the config the instance ran; only where
the merge does not hold at the running count is a config parked before left
as it is. -/
theorem Loaded.kept [DecidableEq V] {incoming : DeclaredApp V} {merged : ResolvedApp h}
    {nextSpec parked : Option (ResolvedApp h)}
    (hload : Loaded incoming app app' slot merged nextSpec parked) (hkept : Kept P w app) :
    Kept P w app' := by
  have hspares := mergeDeclared_spares h.names slot.intended.config incoming app.record
  have hmerged := hload.holds_merged hkept
  obtain ⟨overridden, hslots⟩ := hload.slots
  have hcount : merged.config.fields["instances"]? = slot.intended.config.fields["instances"]? :=
    normalize_get hload.normalized hspares.count
  -- a parked merge holds at the count every instance is stored under
  have hcounted (count : Option V) (hcounts : ∀ (id : ℕ) (slot : Slot h),
      app.slots[id]? = some slot → slot.spec.config.fields["instances"]? = count ∧
        slot.intended.config.fields["instances"]? = count) :
      withCount slot.spec merged = some merged := by
    obtain ⟨hstored, hmeant⟩ := voice_counted hcounts hload.voice
    exact withCount_self (by rw [hcount, hmeant, hstored])
  have hparked {p : ResolvedApp h} (hp : withCount slot.spec merged = some p) :
      w.Holds p.config := by
    obtain ⟨henv, -, hothers⟩ := withCount_get hp
    refine ⟨fun key value hword => ?_, fun key word hword => ?_⟩
    · rw [hothers key (hkept.field key value hword).2]
      exact hmerged.field key value hword
    · rw [henv]
      exact hmerged.env key word hword
  -- what is stored at once, for an instance that runs what the speaker does
  have hstored {next : ResolvedApp h} (hnext : nextSpec = some next)
      (hrunning : w.Holds slot.spec.config) : w.Holds next.config := by
    obtain ⟨fields, hreached⟩ := hload.stored next hnext
    exact hrunning.mixed hmerged.field (reachedSpec_get hreached)
  refine ⟨fun key value hword => ?_, fun key word hword => ?_, fun id new hP hnew => ?_, ?_, ?_⟩
  · obtain ⟨hheld, hne⟩ := hkept.field key value hword
    refine ⟨?_, hne⟩
    rcases hload.record with hrecord | ⟨unparked, hrecord⟩
    · rw [hrecord]
      exact hheld
    · rw [hrecord]
      refine foldl_restoreRecord_held hheld unparked _ ?_
      rw [Std.ExtTreeMap.contains_eq_isSome_getElem?, (hspares.field key hheld).2,
        ← Std.ExtTreeMap.contains_eq_isSome_getElem?]
      exact hheld
  · have hspoken := hkept.env key word hword
    rcases hload.record with hrecord | ⟨unparked, hrecord⟩
    · rw [hrecord]
      exact hspoken
    · rw [hrecord]
      exact foldl_restoreRecord_spokenFor hspoken unparked _ (hspares.env key hspoken).2
  · rw [hslots, Table.get_map, Option.map_eq_some_iff] at hnew
    obtain ⟨old, hold, rfl⟩ := hnew
    have hmeant := hkept.held id old hP hold
    rcases hload.parks with hwanted | ⟨hfree, hparks, hsome⟩
    · cases hp : withCount slot.spec merged with
      | some p =>
        rw [hwanted, hp]
        exact hparked hp
      | none =>
        rcases hkept.reach with hspeaker | ⟨count, hcounts⟩
        · obtain ⟨id', hspeaker', hslot⟩ := voice_get hload.voice
          obtain rfl : id = id' := Option.some.inj ((hspeaker id hP).symm.trans hspeaker')
          obtain rfl : slot = old := Option.some.inj (hslot.symm.trans hold)
          rw [hwanted, hp]
          cases hpending : slot.pending with
          | some q => simpa [Slot.write, Slot.intended, hpending] using hmeant
          | none =>
            have hrunning : w.Holds slot.spec.config := by
              simpa [Slot.intended, hpending] using hmeant
            cases hnext : nextSpec with
            | none => simpa [Slot.write, Slot.intended, hpending] using hrunning
            | some next =>
              simpa [Slot.write, Slot.intended, hpending] using hstored hnext hrunning
        · rw [hcounted count hcounts] at hp
          cases hp
    · obtain ⟨next, hnext⟩ := Option.isSome_iff_exists.1 hsome
      obtain ⟨id', -, hslot⟩ := voice_get hload.voice
      have hrunning : w.Holds slot.spec.config := by
        have hvoice := hkept.voice hload.voice
        simpa [Slot.intended, parks_eq_false hparks hslot] using hvoice
      have hnow := hstored hnext hrunning
      simpa [Slot.write, Slot.intended, hfree, hnext, parks_eq_false hparks hold] using hnow
  · rw [hload.speaker]
    exact hkept.speaks
  · rw [hload.speaker]
    refine hkept.reach.imp_right ?_
    rintro ⟨count, hcounts⟩
    refine ⟨count, fun id new hnew => ?_⟩
    obtain ⟨hrunning, hmeant⟩ := voice_counted hcounts hload.voice
    rw [hslots, Table.get_map, Option.map_eq_some_iff] at hnew
    obtain ⟨old, hold, rfl⟩ := hnew
    have hnextCount {next : ResolvedApp h} (hnext : nextSpec = some next) :
        next.config.fields["instances"]? = count := by
      obtain ⟨fields, hreached⟩ := hload.stored next hnext
      rcases (reachedSpec_get hreached "instances").2 with hfrom | hfrom
      · rw [hfrom, hrunning]
      · rw [hfrom, hcount, hmeant]
    have hspec : (nextSpec.getD old.spec).config.fields["instances"]? = count := by
      cases hnext : nextSpec with
      | none => exact (hcounts id old hold).1
      | some next => exact hnextCount hnext
    refine ⟨hspec, ?_⟩
    rcases hload.parks with hwanted | ⟨hfree, hparks, hsome⟩
    · rw [hwanted, hcounted count hcounts]
      show merged.config.fields["instances"]? = count
      rw [hcount, hmeant]
    · show ((parked.or old.pending).getD (nextSpec.getD old.spec)).config.fields["instances"]? = count
      rw [hfree, parks_eq_false hparks hold]
      exact hspec

/-! ## Edits of `env` -/

theorem speaksFor_eq (record : AppOverrides V) (key : String) :
    EnvOverride.speaksFor record.env key = (record.entry key).isSome := by
  obtain ⟨fields, env, declared, declaredEnv, template⟩ := record
  rcases env with _ | ⟨entries⟩ | ⟨value⟩
  · rfl
  · exact Std.ExtTreeMap.contains_eq_isSome_getElem?
  · rfl

theorem envOverrideMap_ok {name : String} {record : AppOverrides V}
    {entries : Std.ExtTreeMap String (Option String)}
    (hok : envOverrideMap name record = .ok entries) (k : String) :
    record.entry k = entries[k]? := by
  unfold envOverrideMap at hok
  unfold AppOverrides.entry
  split at hok
  · next hnone =>
    obtain rfl := Except.ok.inj hok
    simp [hnone]
  · next held hheld =>
    obtain rfl := Except.ok.inj hok
    simp [hheld]
  · cases hok

theorem entry_ofEntries (record : AppOverrides V) (entries : Std.ExtTreeMap String (Option String))
    (k : String) :
    ({ record with env := EnvOverride.ofEntries entries } : AppOverrides V).entry k =
      entries[k]? := by
  unfold AppOverrides.entry EnvOverride.ofEntries
  by_cases hempty : entries.isEmpty
  · rw [if_pos hempty]
    rw [Std.ExtTreeMap.isEmpty_iff] at hempty
    simp [hempty]
  · rw [if_neg hempty]

/-- What `record_env_edit` leaves: another key's entry, and the edited key's
where the edit is a word. -/
structure Recorded (record record' : AppOverrides V) (inConfig : Bool) (key : String)
    (value : Option String) : Prop where
  fields : record'.fields = record.fields
  declaredEnv : record'.declaredEnv = record.declaredEnv
  others : ∀ k ≠ key, record'.entry k = record.entry k
  own : (envWord record inConfig key value).isSome → (record'.entry key).isSome

theorem recordEnvEdit_ok {name key : String} {value : Option String} {inConfig : Bool}
    {record record' : AppOverrides V}
    (hok : recordEnvEdit name key value inConfig record = .ok record') :
    Recorded record record' inConfig key value := by
  obtain ⟨entries, hentries, hok⟩ := bind_eq_ok hok
  obtain rfl := Except.ok.inj hok
  have hentry := envOverrideMap_ok hentries
  refine ⟨rfl, rfl, fun k hk => ?_, fun hword => ?_⟩
  · rw [entry_ofEntries, hentry]
    unfold recordEntry
    split
    · rw [Table.get_insert, if_neg hk]
    · split
      · rw [Table.get_insert, if_neg hk]
      · split
        · rfl
        · rw [Table.get_erase, if_neg hk]
  · rw [entry_ofEntries]
    unfold recordEntry
    cases value with
    | some value => simp
    | none =>
      unfold envWord at hword
      simp only [removalStands, hentry] at hword
      rw [Std.ExtTreeMap.contains_eq_isSome_getElem?]
      by_cases htomb : entries[key]? = some none
      · by_cases hdeclared : key ∈ record.declaredEnv
        · cases inConfig <;> simp [htomb, hdeclared]
        · simp [htomb, hdeclared]
      · have hleft : (inConfig && (!(entries[key]?).isSome || decide (key ∈ record.declaredEnv))) =
            true := by
          by_contra hnot
          rw [Option.not_isSome] at hnot
          simp [htomb, hnot] at hword
        rw [if_pos hleft]
        simp

theorem Recorded.spokenFor {record record' : AppOverrides V} {inConfig : Bool} {key k : String}
    {value : Option String} (hrecorded : Recorded record record' inConfig key value) (hk : k ≠ key) :
    SpokenFor record' k ↔ SpokenFor record k := by
  unfold SpokenFor
  rw [speaksFor_eq, speaksFor_eq, hrecorded.declaredEnv, hrecorded.others k hk]

theorem Recorded.envWord {record record' : AppOverrides V} {inConfig inConfig' : Bool}
    {key k : String} {value value' : Option String}
    (hrecorded : Recorded record record' inConfig key value) (hk : k ≠ key) :
    envWord record' inConfig' k value' = envWord record inConfig' k value' := by
  unfold Config.envWord removalStands
  rw [hrecorded.declaredEnv, hrecorded.others k hk]

theorem foldl_sayEnv (keys : List String) (f : String → Option (Option String)) (w : Words V) :
    (keys.foldl (fun w key => w.sayEnv key (f key)) w).field = w.field ∧
      ∀ k, (keys.foldl (fun w key => w.sayEnv key (f key)) w).env k =
        if k ∈ keys then f k else w.env k := by
  induction keys generalizing w with
  | nil => exact ⟨rfl, fun k => by simp⟩
  | cons key keys ih =>
    obtain ⟨hfield, henv⟩ := ih (w.sayEnv key (f key))
    rw [List.foldl_cons]
    refine ⟨hfield, fun k => ?_⟩
    rw [henv]
    by_cases hin : k ∈ keys
    · simp [hin]
    · by_cases hk : k = key
      · subst hk
        simp [hin, Words.sayEnv]
      · simp [hin, hk, Words.sayEnv]

theorem foldl_insert_get {α β : Type} {entries : Std.ExtTreeMap String α} (f : α → β)
    (fresh : List (String × α)) (hfresh : ∀ entry ∈ fresh, entries[entry.1]? = some entry.2)
    (env : Std.ExtTreeMap String β) (k : String) :
    (fresh.foldl (fun env entry => env.insert entry.1 (f entry.2)) env)[k]? =
      if k ∈ fresh.map Prod.fst then entries[k]?.map f else env[k]? := by
  induction fresh generalizing env with
  | nil => simp
  | cons entry fresh ih =>
    have hentry := hfresh entry List.mem_cons_self
    rw [List.foldl_cons, ih (fun e he => hfresh e (List.mem_cons_of_mem _ he))]
    by_cases hin : k ∈ fresh.map Prod.fst
    · simp only [hin, if_true, List.map_cons, List.mem_cons, or_true]
    · by_cases hk : k = entry.1
      · subst hk
        simp [hin, hentry]
      · simp [hin, hk]

theorem handleSetSheepEnv_ok {disk : Disk} {key : String} {value : Option String}
    {parked : ResolvedApp h} (hok : handleSetSheepEnv disk key value app = .ok (some (app', parked))) :
    ∃ slot record, app.voice = some slot ∧
      h.normalize { slot.intended.config with env := editEnv slot.intended.config.env key value } =
        .ok parked ∧
      recordEnvEdit app.name key value (slot.intended.config.env.contains key) app.record =
        .ok record ∧
      app' = app.parkSlots parked record := by
  unfold handleSetSheepEnv at hok
  split at hok
  · cases hok
  · next slot hvoice =>
    obtain ⟨_, -, hrest⟩ := bind_eq_ok hok
    simp only at hrest
    split at hrest
    · cases hrest
    · next parked' hparked =>
      obtain ⟨record, hrecord, hrest⟩ := bind_eq_ok hrest
      obtain ⟨rfl, rfl⟩ := Prod.mk.inj (Option.some.inj (Except.ok.inj hrest))
      exact ⟨slot, record, hvoice, hparked, mutateOverride_ok hrecord, rfl⟩

theorem inConfig_eq (hvoice : app.voice = some slot) (key : String) :
    Event.inConfig app key = slot.intended.config.env.contains key := by
  rw [Event.inConfig, hvoice]
  rfl

/-- A key set or removed. -/
theorem Kept.setEnv (hkept : Kept P w app) {disk : Disk} {key : String} {value : Option String}
    {parked : ResolvedApp h}
    (hok : handleSetSheepEnv disk key value app = .ok (some (app', parked))) :
    Kept P (w.sayEnv key (envWord app.record (Event.inConfig app key) key value)) app' := by
  obtain ⟨slot, record, hvoice, hparked, hrecord, rfl⟩ := handleSetSheepEnv_ok hok
  have hrecorded := recordEnvEdit_ok hrecord
  rw [inConfig_eq hvoice]
  refine hkept.parkSlots hvoice hparked hrecorded.fields rfl fun k word hword => ?_
  by_cases hk : k = key
  · subst hk
    have hown : envWord app.record (slot.intended.config.env.contains k) k value = some word := by
      simpa [Words.sayEnv] using hword
    refine ⟨.inr ?_, ?_⟩
    · rw [speaksFor_eq]
      exact hrecorded.own (by rw [hown]; rfl)
    · cases value with
      | some value =>
        obtain rfl := Option.some.inj hown
        simp [editEnv]
      | none =>
        have hnone : word = none := by
          unfold envWord at hown
          simp only at hown
          split at hown
          · exact (Option.some.inj hown).symm
          · cases hown
        simp [editEnv, hnone]
  · have hold : w.env k = some word := by
      simpa [Words.sayEnv, hk] using hword
    refine ⟨(hrecorded.spokenFor hk).2 (hkept.env k word hold), ?_⟩
    rw [← (hkept.voice hvoice).env k word hold]
    cases value <;> simp [editEnv, hk]

/-- A batch writes nothing, or all of its fresh entries. -/
theorem handleSetSheepEnvBatch_ok {disk : Disk} {entries : Std.ExtTreeMap String String}
    {force dryRun : Bool} {batch : EnvBatch h}
    (hok : handleSetSheepEnvBatch disk entries force dryRun app = .ok (some (app', batch))) :
    (batch.app = none ∧ app' = app) ∨
      ∃ slot parked held, app.voice = some slot ∧ batch.app = some parked ∧
        batch.set = (freshEntries slot.intended.config.env entries).map Prod.fst ∧
        h.normalize { slot.intended.config with
          env := (freshEntries slot.intended.config.env entries).foldl
            (fun env entry => env.insert entry.1 entry.2) slot.intended.config.env } = .ok parked ∧
        envOverrideMap app.name app.record = .ok held ∧
        app' = app.parkSlots parked { app.record with
          env := some (.object ((freshEntries slot.intended.config.env entries).foldl
            (fun held entry => held.insert entry.1 (some entry.2)) held)) } := by
  unfold handleSetSheepEnvBatch at hok
  split at hok
  · cases hok
  · next slot hvoice =>
    obtain ⟨_, -, hrest⟩ := bind_eq_ok hok
    simp only at hrest
    split at hrest
    · obtain ⟨rfl, rfl⟩ := Prod.mk.inj (Option.some.inj (Except.ok.inj hrest))
      exact .inl ⟨rfl, rfl⟩
    · split at hrest
      · cases hrest
      · next parked hparked =>
        split at hrest
        · obtain ⟨rfl, rfl⟩ := Prod.mk.inj (Option.some.inj (Except.ok.inj hrest))
          exact .inl ⟨rfl, rfl⟩
        · obtain ⟨record, hrecord, hrest⟩ := bind_eq_ok hrest
          obtain ⟨rfl, rfl⟩ := Prod.mk.inj (Option.some.inj (Except.ok.inj hrest))
          obtain ⟨held, hheld, hwrote⟩ := bind_eq_ok (mutateOverride_ok hrecord)
          obtain rfl := Except.ok.inj hwrote
          exact .inr ⟨slot, parked, held, hvoice, rfl, rfl, hparked, hheld, rfl⟩

/-- A batch. -/
theorem Kept.setEnvBatch (hkept : Kept P w app) {disk : Disk}
    {entries : Std.ExtTreeMap String String} {force dryRun : Bool} {batch : EnvBatch h}
    (hok : handleSetSheepEnvBatch disk entries force dryRun app = .ok (some (app', batch))) :
    (batch.app = none ∧ app' = app) ∨ batch.app.isSome ∧
      Kept P (batch.set.foldl (fun w key => w.sayEnv key (entries[key]?.map some)) w) app' := by
  obtain huntouched | ⟨slot, parked, held, hvoice, happ, hset, hparked, hheld, rfl⟩ :=
    handleSetSheepEnvBatch_ok hok
  · exact .inl huntouched
  · refine .inr ⟨by rw [happ]; rfl, ?_⟩
    have hfresh : ∀ entry ∈ freshEntries slot.intended.config.env entries,
        entries[entry.1]? = some entry.2 := by
      intro entry hentry
      exact Table.mem_toList.1 (List.mem_of_mem_filter hentry)
    rw [hset]
    obtain ⟨hfield, henv⟩ := foldl_sayEnv
      ((freshEntries slot.intended.config.env entries).map Prod.fst)
      (fun key => entries[key]?.map some) w
    refine hkept.parkSlots hvoice hparked rfl hfield fun k word hword => ?_
    have hmade := foldl_insert_get id _ hfresh slot.intended.config.env k
    have hentered := foldl_insert_get some _ hfresh held k
    simp only [id_eq, Option.map_id_fun] at hmade
    rw [henv] at hword
    rw [hmade]
    unfold SpokenFor
    rw [speaksFor_eq]
    simp only [AppOverrides.entry]
    rw [hentered]
    by_cases hin : k ∈ (freshEntries slot.intended.config.env entries).map Prod.fst
    · simp only [if_pos hin] at hword ⊢
      refine ⟨.inr (by rw [hword]; rfl), ?_⟩
      cases hentry : entries[k]? with
      | none =>
        rw [hentry] at hword
        cases hword
      | some value =>
        rw [hentry] at hword
        exact Option.some.inj hword
    · simp only [if_neg hin] at hword ⊢
      refine ⟨?_, (hkept.voice hvoice).env k word hword⟩
      have hspoken := hkept.env k word hword
      unfold SpokenFor at hspoken
      rwa [speaksFor_eq, envOverrideMap_ok hheld] at hspoken

/-! ## A copy -/

theorem diffKey_key {before after : Std.ExtTreeMap String String} {key : String}
    {change : EnvCopyChange} (hchange : diffKey h before after key = some change) :
    change.key = key := by
  unfold diffKey at hchange
  simp only at hchange
  split at hchange
  · split at hchange
    · cases hchange
    · obtain rfl := Option.some.inj hchange
      rfl
  · obtain rfl := Option.some.inj hchange
    rfl
  · obtain rfl := Option.some.inj hchange
    rfl
  · cases hchange

theorem diffKey_none {before after : Std.ExtTreeMap String String} {key : String}
    (hnone : diffKey h before after key = none) : after[key]? = before[key]? := by
  unfold diffKey at hnone
  simp only at hnone
  split at hnone
  · next old new hold hnew =>
    split at hnone
    · next hsame => rw [hold, hnew, hsame]
    · cases hnone
  · cases hnone
  · cases hnone
  · next hold hnew => rw [hold, hnew]

theorem map_key_filterMap (before after : Std.ExtTreeMap String String) (keys : List String) :
    (keys.filterMap (diffKey h before after)).map EnvCopyChange.key =
      keys.filter fun key => (diffKey h before after key).isSome := by
  induction keys with
  | nil => rfl
  | cons key keys ih =>
    cases hchange : diffKey h before after key with
    | none => simp [hchange, ih]
    | some change => simp [hchange, ih, diffKey_key hchange]

theorem nodup_diff (before after : Std.ExtTreeMap String String) :
    ((diff h before after).map EnvCopyChange.key).Nodup := by
  rw [diff, map_key_filterMap]
  exact (nodup_listing _).filter _

theorem get_of_not_mem_diff {before after : Std.ExtTreeMap String String} {key : String}
    (hkey : key ∉ (diff h before after).map EnvCopyChange.key) : after[key]? = before[key]? := by
  rw [diff, map_key_filterMap] at hkey
  by_cases hlisted : key ∈ (before.toList.map Prod.fst).toFinset ∪ (after.toList.map Prod.fst).toFinset
  · refine diffKey_none (h := h) ?_
    by_contra hsome
    refine hkey (List.mem_filter.2 ⟨mem_listing.2 hlisted, ?_⟩)
    exact Option.isSome_iff_ne_none.2 hsome
  · have hnone (env : Std.ExtTreeMap String String) (hout : key ∉ env.toList.map Prod.fst) :
        env[key]? = none := by
      by_contra hsome
      obtain ⟨value, hvalue⟩ := Option.ne_none_iff_exists'.1 hsome
      exact hout (List.mem_map.2 ⟨(key, value), Table.mem_toList.2 hvalue, rfl⟩)
    simp only [Finset.mem_union, List.mem_toFinset, not_or] at hlisted
    rw [hnone before hlisted.1, hnone after hlisted.2]

/-- What a list of edits of different keys leaves on record. -/
theorem foldlM_recordEnvEdit {name : String} (value : String → Option String)
    (inConfig : String → Bool) (changes : List EnvCopyChange) {record record' : AppOverrides V}
    (hnodup : (changes.map EnvCopyChange.key).Nodup)
    (hok : changes.foldlM (fun record change => recordEnvEdit name change.key (value change.key)
      (inConfig change.key) record) record = .ok record') :
    record'.fields = record.fields ∧
      (∀ k ∉ changes.map EnvCopyChange.key, SpokenFor record k → SpokenFor record' k) ∧
      ∀ k ∈ changes.map EnvCopyChange.key,
        (envWord record (inConfig k) k (value k)).isSome → SpokenFor record' k := by
  induction changes generalizing record with
  | nil =>
    obtain rfl := Except.ok.inj hok
    exact ⟨rfl, fun _ _ hspoken => hspoken, fun _ hk => by cases hk⟩
  | cons change changes ih =>
    obtain ⟨mid, hmid, hrest⟩ := bind_eq_ok hok
    have hrecorded := recordEnvEdit_ok hmid
    obtain ⟨hnew, hnodup⟩ := List.nodup_cons.1 hnodup
    obtain ⟨hfields, hothers, hown⟩ := ih hnodup hrest
    refine ⟨hfields.trans hrecorded.fields, fun k hk hspoken => ?_, fun k hk hword => ?_⟩
    · simp only [List.map_cons, List.mem_cons, not_or] at hk
      exact hothers k hk.2 ((hrecorded.spokenFor hk.1).2 hspoken)
    · by_cases hkey : k = change.key
      · subst hkey
        refine hothers _ hnew (.inr ?_)
        rw [speaksFor_eq]
        exact hrecorded.own hword
      · have hlater : k ∈ changes.map EnvCopyChange.key := by
          simpa [hkey] using hk
        refine hown k hlater ?_
        rwa [hrecorded.envWord hkey]

/-- A copy writes nothing, or every change it reports. -/
theorem handleCopySheepEnv_ok {disk : Disk} {source : App h} {replace dryRun : Bool}
    {except : List String} {expect : Option (List EnvCopyChange)} {copy : EnvCopy h}
    (hok : handleCopySheepEnv disk source replace except dryRun expect app = .ok (app', copy)) :
    (copy.app = none ∧ app' = app) ∨
      ∃ slot parked after record, app.voice = some slot ∧ copy.app = some parked ∧
        copy.changes = diff h slot.intended.config.env after ∧
        h.normalize { slot.intended.config with env := after } = .ok parked ∧
        copy.changes.foldlM (fun record change => recordEnvEdit app.name change.key
          after[change.key]? (slot.intended.config.env.contains change.key) record) app.record =
          .ok record ∧
        app' = app.parkSlots parked record := by
  unfold handleCopySheepEnv at hok
  split at hok
  · cases hok
  · cases hok
  · next from' slot _ hvoice =>
    obtain ⟨_, -, hrest⟩ := bind_eq_ok hok
    obtain ⟨_, -, hrest⟩ := bind_eq_ok hrest
    simp only at hrest
    split at hrest
    · cases hrest
    · split at hrest
      · obtain ⟨rfl, rfl⟩ := Prod.mk.inj (Except.ok.inj hrest)
        exact .inl ⟨rfl, rfl⟩
      · split at hrest
        · cases hrest
        · next parked hparked =>
          split at hrest
          · obtain ⟨rfl, rfl⟩ := Prod.mk.inj (Except.ok.inj hrest)
            exact .inl ⟨rfl, rfl⟩
          · obtain ⟨record, hrecord, hrest⟩ := bind_eq_ok hrest
            obtain ⟨rfl, rfl⟩ := Prod.mk.inj (Except.ok.inj hrest)
            exact .inr ⟨slot, parked, _, record, hvoice, rfl, rfl, hparked,
              mutateOverride_ok hrecord, rfl⟩

/-- A copy. -/
theorem Kept.copyEnv (hkept : Kept P w app) {disk : Disk} {source : App h} {replace dryRun : Bool}
    {except : List String} {expect : Option (List EnvCopyChange)} {copy : EnvCopy h}
    (hok : handleCopySheepEnv disk source replace except dryRun expect app = .ok (app', copy)) :
    (copy.app = none ∧ app' = app) ∨ ∃ parked, copy.app = some parked ∧
      Kept P (copy.changes.foldl (fun w change => w.sayEnv change.key
        (envWord app.record (Event.inConfig app change.key) change.key
          parked.config.env[change.key]?)) w) app' := by
  obtain huntouched | ⟨slot, parked, after, record, hvoice, happ, hchanges, hparked, hrecord, rfl⟩ :=
    handleCopySheepEnv_ok hok
  · exact .inl huntouched
  · refine .inr ⟨parked, happ, ?_⟩
    have hnodup : (copy.changes.map EnvCopyChange.key).Nodup := by
      rw [hchanges]
      exact nodup_diff _ _
    have henvs : parked.config.env = after := normalize_env hparked
    obtain ⟨hfields, hothers, hown⟩ := foldlM_recordEnvEdit (fun key => after[key]?)
      (fun key => slot.intended.config.env.contains key) copy.changes hnodup hrecord
    obtain ⟨hfield, henv⟩ := foldl_sayEnv (copy.changes.map EnvCopyChange.key)
      (fun key => envWord app.record (Event.inConfig app key) key parked.config.env[key]?) w
    rw [List.foldl_map] at hfield henv
    refine hkept.parkSlots hvoice hparked hfields hfield fun k word hword => ?_
    rw [henv] at hword
    by_cases hin : k ∈ copy.changes.map EnvCopyChange.key
    · rw [if_pos hin, inConfig_eq hvoice, henvs] at hword
      refine ⟨hown k hin (by rw [hword]; rfl), ?_⟩
      cases hafter : after[k]? with
      | some value =>
        rw [hafter] at hword
        exact Option.some.inj hword
      | none =>
        rw [hafter] at hword
        unfold envWord at hword
        simp only at hword
        split at hword
        · exact Option.some.inj hword
        · cases hword
    · rw [if_neg hin] at hword
      refine ⟨hothers k hin (hkept.env k word hword), ?_⟩
      rw [hchanges] at hin
      rw [get_of_not_mem_diff hin]
      exact (hkept.voice hvoice).env k word hword

/-! ## Every event -/

theorem Kept.setField [DecidableEq V] (hkept : Kept P w app) {disk : Disk} {key : String} {value : V}
    {answer : FieldSet h}
    (hok : handleSetSheepField disk key value app = .ok (some (app', answer))) :
    Kept P (w.sayField key (some (h.canonical key value))) app' := by
  obtain ⟨_, howned, hok⟩ := bind_eq_ok hok
  obtain ⟨slot, before, merged, hvoice, -, hvalue, -, hmerged, rfl⟩ := applySheepField_ok hok
  obtain rfl := Except.ok.inj hvalue
  refine hkept.edited (ne_instances_of_owned (refuseUnownedKey_ok howned).2.2) hvoice hmerged
    (.inr ⟨by simp [Words.sayField], ?_⟩) (fun k hk => ⟨by simp [Words.sayField, hk], ?_⟩)
    ⟨rfl, rfl, rfl⟩
  · simp [recordField]
  · simp [recordField, hk]

theorem Kept.resetField [DecidableEq V] (hkept : Kept P w app) {disk : Disk} {key : String}
    {answer : FieldSet h} (hok : handleResetSheepField disk key app = .ok (some (app', answer))) :
    Kept P (w.sayField key none) app' := by
  obtain ⟨_, howned, hok⟩ := bind_eq_ok hok
  obtain ⟨slot, before, merged, hvoice, -, -, -, hmerged, rfl⟩ := applySheepField_ok hok
  refine hkept.edited (ne_instances_of_owned (refuseUnownedKey_ok howned).2.2) hvoice hmerged
    (.inl (by simp [Words.sayField])) (fun k hk => ⟨by simp [Words.sayField, hk], ?_⟩)
    ⟨rfl, rfl, rfl⟩
  simp [recordField, hk]

/-- **What one event keeps.** -/
theorem Kept.step [DecidableEq V] (hkept : Kept P w app) (event : Event h) :
    Kept P (event.say app w) (event.step app) := by
  cases event with
  | setEnv disk key value =>
    cases hresult : handleSetSheepEnv disk key value app with
    | error refusal => simpa [Event.step, Event.say, Event.left, hresult] using hkept
    | ok answer =>
      rcases answer with _ | ⟨app', parked⟩
      · simpa [Event.step, Event.say, Event.left, hresult] using hkept
      · simpa [Event.step, Event.say, Event.left, hresult] using hkept.setEnv hresult
  | setEnvBatch disk entries force dryRun =>
    cases hresult : handleSetSheepEnvBatch disk entries force dryRun app with
    | error refusal => simpa [Event.step, Event.say, Event.left, hresult] using hkept
    | ok answer =>
      rcases answer with _ | ⟨app', made, set, unchanged, collisions⟩
      · simpa [Event.step, Event.say, Event.left, hresult] using hkept
      · rcases hkept.setEnvBatch hresult with ⟨hnone, rfl⟩ | ⟨hsome, hnow⟩
        · obtain rfl : made = none := hnone
          simpa [Event.step, Event.say, Event.left, hresult] using hkept
        · obtain ⟨parked, rfl⟩ : ∃ parked, made = some parked := Option.isSome_iff_exists.1 hsome
          simpa [Event.step, Event.say, Event.left, hresult] using hnow
  | copyEnv disk source replace except dryRun expect =>
    cases hresult : handleCopySheepEnv disk source replace except dryRun expect app with
    | error refusal => simpa [Event.step, Event.say, Event.left, hresult, Except.map] using hkept
    | ok answer =>
      obtain ⟨app', made, changes⟩ := answer
      rcases hkept.copyEnv hresult with ⟨hnone, rfl⟩ | ⟨parked, hsome, hnow⟩
      · obtain rfl : made = none := hnone
        simpa [Event.step, Event.say, Event.left, hresult, Except.map] using hkept
      · obtain rfl : made = some parked := hsome
        simpa [Event.step, Event.say, Event.left, hresult, Except.map] using hnow
  | setField disk key value =>
    cases hresult : handleSetSheepField disk key value app with
    | error refusal => simpa [Event.step, Event.say, Event.left, hresult] using hkept
    | ok answer =>
      rcases answer with _ | ⟨app', answer⟩
      · simpa [Event.step, Event.say, Event.left, hresult] using hkept
      · simpa [Event.step, Event.say, Event.left, hresult] using hkept.setField hresult
  | resetField disk key =>
    cases hresult : handleResetSheepField disk key app with
    | error refusal => simpa [Event.step, Event.say, Event.left, hresult] using hkept
    | ok answer =>
      rcases answer with _ | ⟨app', answer⟩
      · simpa [Event.step, Event.say, Event.left, hresult] using hkept
      · simpa [Event.step, Event.say, Event.left, hresult] using hkept.resetField hresult
  | load disk incoming =>
    rcases applyPlain_cases disk incoming app with hsame | ⟨slot, merged, nextSpec, parked, hload⟩
    · show Kept P w (applyPlain disk incoming app).1
      rw [hsame]
      exact hkept
    · exact hload.kept hkept
  | respawn id => exact hkept.promotePending id

theorem Kept.run [DecidableEq V] (events : List (Event h)) (now : App h × Words V)
    (hkept : Kept P now.2 now.1) :
    Kept P (events.foldl (fun now event => (event.step now.1, event.say now.1 now.2)) now).2
      (events.foldl (fun now event => (event.step now.1, event.say now.1 now.2)) now).1 := by
  induction events generalizing now with
  | nil => exact hkept
  | cons event events ih => exact ih _ (hkept.step event)

/-- **The operator's last word survives plain loads.** Whatever edits, plain
loads of arbitrary files and respawns are interleaved, after each of them the
app is meant to run every `env` key and field the operator has spoken for as
they last said: the instance that speaks for it is, and every other instance
too where all were stored and meant to run at one count to begin with. -/
theorem last_word_survives [DecidableEq V] (app : App h) (events : List (Event h)) (id : ℕ)
    (slot : Slot h) (hslot : (Event.run app events).1.slots[id]? = some slot)
    (hreach : app.speaker = some id ∨ Counted app) :
    (Event.run app events).2.Holds slot.intended.config := by
  have hsilent (P : ℕ → Prop) (hspeaks : ∀ id, app.speaker = some id → P id)
      (hreach : (∀ id, P id → app.speaker = some id) ∨ Counted app) : Kept P {} app :=
    ⟨fun _ _ hword => (by cases hword), fun _ _ hword => (by cases hword),
      fun _ _ _ _ => ⟨fun _ _ hword => (by cases hword), fun _ _ hword => (by cases hword)⟩,
      hspeaks, hreach⟩
  rcases hreach with hspeaker | hcounted
  · have hkept := (hsilent (fun id => app.speaker = some id) (fun _ hid => hid)
      (.inl fun _ hid => hid)).run events (app, {})
    exact hkept.held id slot hspeaker hslot
  · have hkept := (hsilent (fun _ => True) (fun _ _ => trivial) (.inr hcounted)).run events (app, {})
    exact hkept.held id slot trivial hslot

/-- A file for `web` that declares one key. -/
def declares (key value : String) : DeclaredApp ℕ where
  config := ⟨.ofList [("instances", 2), ("max_restarts", 16), ("stdin", 0)], .ofList [(key, value)]⟩
  declared := {"env"}
  declaredEnv := {key}

/-- The operator moves `PORT`, a file declares it, drops it and declares it
otherwise: it stays where they moved it, on both instances. -/
theorem last_word_survives_port :
    let events : List (Event frank) := [.setEnv {} "PORT" (some "81"), .load {} (declares "PORT" "82"),
      .respawn 2, .load {} (declares "HOST" "::"), .load {} (declares "PORT" "83")]
    ∃ slot, (Event.run web events).1.slots[2]? = some slot ∧ Counted web ∧
      slot.intended.config.env["PORT"]? = some "81" := by
  intro events
  have hslot : ((Event.run web events).1.slots[2]?).isSome = true := by
    decide +kernel
  obtain ⟨slot, hslot⟩ := Option.isSome_iff_exists.1 hslot
  have hcounted : Counted web := by
    refine ⟨some 2, fun id slot hslot => ?_⟩
    have hlisted : (id, slot) ∈ web.slots.toList := Table.mem_toList.2 hslot
    have hall : web.slots.toList.all (fun entry =>
        decide (entry.2.spec.config.fields["instances"]? = some 2 ∧
          entry.2.intended.config.fields["instances"]? = some 2)) = true := by
      decide +kernel
    exact of_decide_eq_true (List.all_eq_true.1 hall _ hlisted)
  have hword : (Event.run web events).2.env "PORT" = some (some "81") := by
    decide +kernel
  exact ⟨slot, hslot, hcounted,
    (last_word_survives web events 2 slot hslot (.inr hcounted)).env "PORT" _ hword⟩

/-- The operator sets `HOST`, which no file has declared, and removes it
again: nothing is left on record, and the next file that declares it gives
it a value. -/
theorem last_word_withdrawn :
    let events : List (Event frank) := [.setEnv {} "HOST" (some "::1"), .setEnv {} "HOST" none]
    let meant := fun app : App frank => app.voice.bind fun slot => slot.intended.config.env["HOST"]?
    meant (Event.run web events).1 = none ∧
      meant (Event.run web (events ++ [.load {} (declares "HOST" "::")])).1 = some "::" := by
  decide +kernel

end Config

end Shep

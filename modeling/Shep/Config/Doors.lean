import Shep.Config.Words

/-!
# Config — many `env` keys in one request

`SetSheepEnvBatch` and `CopySheepEnv`, from the dispatch of the request
(`rpc/dispatch.rs`) to the reply, with the registry a written config is
recorded in. **`env_edits_faithful`** says that a refused or colliding
request and a dry run leave the shepherd as it was, that a replacing copy
makes the target's environment the source's off the excepted keys, and that
a dry run answers what the real run does exactly where the override store
takes what the request has to write. **`env_preview_unfaithful`** is a dry
run of a batch whose real run is refused.
-/

namespace Shep

namespace Config

variable {V : Type} {h : Host V}

/-! ## The requests -/

/-- What the two requests reach: the registered apps, each with its override
record, and the registry. -/
structure Shepherd (h : Host V) where
  apps : Std.ExtTreeMap String (App h)
  registry : Std.ExtTreeMap String (ResolvedApp h) := ∅

/-- A request that edits an environment, short of its `dry_run`. -/
inductive EnvRequest where
  | setBatch (name : String) (entries : Std.ExtTreeMap String String) (force : Bool)
  | copy (source target : String) (replace : Bool) (except : List String)
    (expect : Option (List EnvCopyChange))

/-- Its reply. -/
inductive EnvReply where
  | noSheep (name : String)
  | refused (err : Refusal)
  | batch (set unchanged collisions : List String)
  | copied (changes : List EnvCopyChange)
  deriving DecidableEq

namespace Shepherd

/-- The app of a name, with no instance where none is registered. -/
def app (s : Shepherd h) (name : String) : App h :=
  s.apps[name]?.getD { name, slots := ∅, speaker := none }

/-- An app after a command, and its config recorded where one was written. -/
def record (s : Shepherd h) (name : String) (app : App h) (written : Option (ResolvedApp h)) :
    Shepherd h where
  apps := if s.apps.contains name then s.apps.insert name app else s.apps
  registry := match written with
    | some written => s.registry.insert name written
    | none => s.registry

end Shepherd

/-- The arms of `dispatch` for the two requests. -/
def EnvRequest.dispatch (disk : Disk) (dryRun : Bool) (s : Shepherd h) :
    EnvRequest → EnvReply × Shepherd h
  | .setBatch name entries force =>
    match handleSetSheepEnvBatch disk entries force dryRun (s.app name) with
    | .ok (some (app, batch)) =>
      (.batch batch.set batch.unchanged batch.collisions, s.record name app batch.app)
    | .ok none => (.noSheep name, s)
    | .error err => (.refused err, s)
  | .copy source target replace except expect =>
    match handleCopySheepEnv disk (s.app source) replace except dryRun expect (s.app target) with
    | .ok (app, made) => (.copied made.changes, s.record target app made.app)
    | .error err => (.refused err, s)

/-! ## What they are for -/

/-- The environment an app is meant to run with. -/
def App.env (app : App h) : Std.ExtTreeMap String String :=
  (app.voice.map fun slot => slot.intended.config.env).getD ∅

/-- The app a request edits. -/
def EnvRequest.target : EnvRequest → String
  | .setBatch name _ _ => name
  | .copy _ target .. => target

namespace EnvReply

/-- The keys a reply reports as added. -/
def added : EnvReply → List String
  | .batch set _ collisions => set.filter fun key => !collisions.contains key
  | .copied changes => (changes.filter fun change => change.kind = .added).map EnvCopyChange.key
  | _ => []

/-- The keys it reports as changed. -/
def changed : EnvReply → List String
  | .batch set _ collisions => set.filter fun key => collisions.contains key
  | .copied changes => (changes.filter fun change => change.kind = .changed).map EnvCopyChange.key
  | _ => []

/-- The keys it reports as removed. -/
def removed : EnvReply → List String
  | .copied changes => (changes.filter fun change => change.kind = .removed).map EnvCopyChange.key
  | _ => []

/-- An error, or a batch answered with its collisions alone. -/
def Refuses : EnvReply → Prop
  | .noSheep _ | .refused _ => True
  | .batch set _ collisions => set = [] ∧ collisions ≠ []
  | .copied _ => False

/-- A reply that reports exactly how one environment differs from another. -/
structure Reports (reply : EnvReply) (before after : Std.ExtTreeMap String String) : Prop where
  added : ∀ key, key ∈ reply.added ↔ before[key]? = none ∧ after[key]? ≠ none
  changed : ∀ key, key ∈ reply.changed ↔
    before[key]? ≠ none ∧ after[key]? ≠ none ∧ before[key]? ≠ after[key]?
  removed : ∀ key, key ∈ reply.removed ↔ before[key]? ≠ none ∧ after[key]? = none

end EnvReply

namespace EnvRequest

/-- **A faithful dry run**: the real run from the same state is answered the
same, and changes what the answer says and nothing else. -/
structure Faithful (disk : Disk) (r : EnvRequest) (s : Shepherd h) : Prop where
  reply : (r.dispatch disk false s).1 = (r.dispatch disk true s).1
  reports : (r.dispatch disk true s).1.Reports (s.app r.target).env
    ((r.dispatch disk false s).2.app r.target).env

/-- The environment a batch makes. -/
def batched (entries env : Std.ExtTreeMap String String) : Std.ExtTreeMap String String :=
  (freshEntries env entries).foldl (fun env entry => env.insert entry.1 entry.2) env

/-- An unforced batch brings another value for a key that is there. -/
def Collides (entries env : Std.ExtTreeMap String String) : Prop :=
  ∃ entry ∈ freshEntries env entries, env.contains entry.1 = true

/-- The request has something to write: nothing refuses it before the store
is asked, and some key is not as it asks for. -/
def Writes (s : Shepherd h) : EnvRequest → Prop
  | .setBatch name entries force => ∃ slot, (s.app name).voice = some slot ∧ slot.dog = false ∧
      freshEntries slot.intended.config.env entries ≠ [] ∧
      (force = true ∨ ¬ Collides entries slot.intended.config.env) ∧
      h.refusal { slot.intended.config with
        env := batched entries slot.intended.config.env } = none
  | .copy source target replace except expect => ∃ giver slot, (s.app source).voice = some giver ∧
      (s.app target).voice = some slot ∧ giver.dog = false ∧ slot.dog = false ∧
      let after := copied giver.intended.config.env slot.intended.config.env replace except
      diff h slot.intended.config.env after ≠ [] ∧
      (∀ reviewed, expect = some reviewed → reviewed = diff h slot.intended.config.env after) ∧
      h.refusal { slot.intended.config with env := after } = none

end EnvRequest

/-- The store can be read and written, and holds an object for the app's
`env` or nothing. -/
structure Disk.Takes (disk : Disk) (app : App h) : Prop where
  readable : disk.unreadable = none
  writable : disk.unwritable = none
  object : ∀ value, app.record.env ≠ some (.other value)

/-! ## The shepherd -/

namespace Shepherd

variable {s : Shepherd h} {name : String} {app : App h} {slot : Slot h}

theorem get_of_voice (hvoice : (s.app name).voice = some slot) : s.apps[name]? = some (s.app name) := by
  unfold Shepherd.app at hvoice ⊢
  cases hs : s.apps[name]? with
  | none =>
    rw [hs] at hvoice
    cases hvoice
  | some app => rfl

theorem record_app (hvoice : (s.app name).voice = some slot) (app : App h)
    (written : Option (ResolvedApp h)) : (s.record name app written).app name = app := by
  have hin : s.apps.contains name = true := by
    rw [Std.ExtTreeMap.contains_eq_isSome_getElem?, get_of_voice hvoice]
    rfl
  simp only [record, Shepherd.app, hin, if_true, Table.get_insert, Option.getD_some]

theorem record_self (hvoice : (s.app name).voice = some slot) :
    s.record name (s.app name) none = s := by
  unfold record
  split
  · rw [Table.insert_self (get_of_voice hvoice)]
  · rfl

end Shepherd

theorem App.env_of_voice {app : App h} {slot : Slot h} (hvoice : app.voice = some slot) :
    app.env = slot.intended.config.env := by
  rw [App.env, hvoice]
  rfl

theorem parkSlots_env {app : App h} {slot : Slot h} (hvoice : app.voice = some slot)
    (parked : ResolvedApp h) (record : AppOverrides V) :
    (app.parkSlots parked record).env = parked.config.env := by
  obtain ⟨id, hspeaker, hslot⟩ := voice_get hvoice
  have hparked : (app.parkSlots parked record).voice =
      some { slot with pending := some parked, overridden := record.names } := by
    simp only [App.voice, App.parkSlots, hspeaker, Option.bind_some, Table.get_map, hslot,
      Option.map_some]
  exact App.env_of_voice hparked

/-! ## The store -/

section

variable {disk : Disk} {app : App h} {f : AppOverrides V → Except Refusal (AppOverrides V)}
  {record : AppOverrides V}

theorem mutateOverride_of_takes (htakes : disk.Takes app) (hf : f app.record = .ok record) :
    app.mutateOverride disk f = .ok record := by
  rw [App.mutateOverride, App.readOverride, htakes.readable]
  simp only [ok_bind, hf, htakes.writable]

theorem mutateOverride_of_not_takes (htakes : ¬ disk.Takes app)
    (hf : ∀ value, app.record.env = some (.other value) → ∃ err, f app.record = .error err) :
    ∃ err, app.mutateOverride disk f = .error err := by
  rw [App.mutateOverride, App.readOverride]
  cases hread : disk.unreadable with
  | some message => exact ⟨_, rfl⟩
  | none =>
    simp only [ok_bind]
    cases hrecord : f app.record with
    | error err => exact ⟨err, rfl⟩
    | ok record =>
      cases hwrite : disk.unwritable with
      | some message => exact ⟨.overrides message, rfl⟩
      | none =>
        refine absurd ⟨hread, hwrite, fun value hother => ?_⟩ htakes
        obtain ⟨err, herr⟩ := hf value hother
        rw [hrecord] at herr
        cases herr

theorem envOverrideMap_of_object (name : String)
    (hobject : ∀ value, record.env ≠ some (.other value)) :
    ∃ entries, envOverrideMap name record = .ok entries := by
  unfold envOverrideMap
  split
  · exact ⟨_, rfl⟩
  · exact ⟨_, rfl⟩
  · next value henv => exact absurd henv (hobject value)

theorem envOverrideMap_of_other (name : String) {value : V} (hother : record.env = some (.other value)) :
    ∃ err, envOverrideMap name record = .error err :=
  ⟨_, by rw [envOverrideMap, hother]⟩

theorem recordEnvEdit_of_object (name key : String) (value : Option String) (inConfig : Bool)
    (hobject : ∀ value, record.env ≠ some (.other value)) :
    ∃ record', recordEnvEdit name key value inConfig record = .ok record' ∧
      ∀ value, record'.env ≠ some (.other value) := by
  obtain ⟨entries, hentries⟩ := envOverrideMap_of_object name hobject
  refine ⟨_, by rw [recordEnvEdit, hentries, ok_bind]; rfl, fun value => ?_⟩
  simp only [EnvOverride.ofEntries]
  split <;> simp

theorem foldlM_recordEnvEdit_of_object (name : String) (value : String → Option String)
    (inConfig : String → Bool) (changes : List EnvCopyChange)
    (hobject : ∀ value, record.env ≠ some (.other value)) :
    ∃ record', changes.foldlM (fun record change => recordEnvEdit name change.key
      (value change.key) (inConfig change.key) record) record = .ok record' := by
  induction changes generalizing record with
  | nil => exact ⟨record, rfl⟩
  | cons change changes ih =>
    obtain ⟨mid, hmid, hmidObject⟩ := recordEnvEdit_of_object name change.key
      (value change.key) (inConfig change.key) hobject
    obtain ⟨record', hrecord'⟩ := ih hmidObject
    exact ⟨record', by rw [List.foldlM_cons, hmid, ok_bind, hrecord']⟩

theorem foldlM_recordEnvEdit_of_other {name : String} (value : String → Option String)
    (inConfig : String → Bool) {changes : List EnvCopyChange} (hne : changes ≠ []) {held : V}
    (hother : record.env = some (.other held)) :
    ∃ err, changes.foldlM (fun record change => recordEnvEdit name change.key
      (value change.key) (inConfig change.key) record) record = .error err := by
  cases changes with
  | nil => exact absurd rfl hne
  | cons change changes =>
    obtain ⟨err, herr⟩ := envOverrideMap_of_other name hother
    refine ⟨err, ?_⟩
    rw [List.foldlM_cons, recordEnvEdit, herr]
    rfl

end

/-! ## A batch -/

namespace EnvReply

theorem Reports.still {reply : EnvReply} {env : Std.ExtTreeMap String String}
    (hadded : reply.added = []) (hchanged : reply.changed = []) (hremoved : reply.removed = []) :
    reply.Reports env env where
  added := fun key => by simp [hadded]
  changed := fun key => by simp [hchanged]
  removed := fun key => by simp [hremoved]

theorem Reports.ne {reply : EnvReply} {before after : Std.ExtTreeMap String String}
    (hreports : reply.Reports before after)
    (hsome : reply.added ≠ [] ∨ reply.changed ≠ [] ∨ reply.removed ≠ []) : before ≠ after := by
  rintro rfl
  rcases hsome with hsome | hsome | hsome <;> obtain ⟨key, hkey⟩ := List.exists_mem_of_ne_nil _ hsome
  · exact ((hreports.added key).1 hkey).2 ((hreports.added key).1 hkey).1
  · exact ((hreports.changed key).1 hkey).2.2 rfl
  · exact ((hreports.removed key).1 hkey).1 ((hreports.removed key).1 hkey).2

end EnvReply

namespace EnvRequest

/-- What a request comes to that has something to write: a dry run answers
what it would change, and the real run changes it or is refused by the
store. -/
structure Answered (disk : Disk) (r : EnvRequest) (s : Shepherd h) (reply : EnvReply)
    (after : Std.ExtTreeMap String String) : Prop where
  registered : ∃ slot, (s.app r.target).voice = some slot
  dry : r.dispatch disk true s = (reply, s)
  accepts : ¬ reply.Refuses
  reports : reply.Reports (s.app r.target).env after
  something : reply.added ≠ [] ∨ reply.changed ≠ [] ∨ reply.removed ≠ []
  real : disk.Takes (s.app r.target) → ∃ parked record, parked.config.env = after ∧
    r.dispatch disk false s =
      (reply, s.record r.target ((s.app r.target).parkSlots parked record) (some parked))
  refused : ¬ disk.Takes (s.app r.target) → ∃ err, r.dispatch disk false s = (.refused err, s)

variable {disk : Disk} {r : EnvRequest} {s : Shepherd h} {name : String}
  {entries env : Std.ExtTreeMap String String} {force : Bool} {slot : Slot h}

theorem mem_freshEntries {key value : String} : (key, value) ∈ freshEntries env entries ↔
    entries[key]? = some value ∧ env[key]? ≠ some value := by
  simp [freshEntries]

theorem batched_get (key : String) : (batched entries env)[key]? =
    if key ∈ (freshEntries env entries).map Prod.fst then entries[key]? else env[key]? := by
  have hfresh : ∀ entry ∈ freshEntries env entries, entries[entry.1]? = some entry.2 :=
    fun entry hentry => (mem_freshEntries.1 hentry).1
  have hget := foldl_insert_get id _ hfresh env key
  simpa [batched] using hget

/-- A batch reports the environment it makes. -/
theorem batch_reports (entries env : Std.ExtTreeMap String String) (unchanged : List String) :
    EnvReply.Reports (.batch ((freshEntries env entries).map Prod.fst) unchanged
      (((freshEntries env entries).filter fun entry => env.contains entry.1).map Prod.fst))
      env (batched entries env) := by
  have hset : ∀ key, key ∈ (freshEntries env entries).map Prod.fst ↔
      ∃ value, entries[key]? = some value ∧ env[key]? ≠ some value := by
    intro key
    simp only [List.mem_map, Prod.exists, exists_and_right, exists_eq_right, mem_freshEntries]
  have hcollides : ∀ key, key ∈ (((freshEntries env entries).filter
      fun entry => env.contains entry.1).map Prod.fst) ↔
      key ∈ (freshEntries env entries).map Prod.fst ∧ env[key]? ≠ none := by
    intro key
    simp only [List.mem_map, List.mem_filter, Std.ExtTreeMap.contains_eq_isSome_getElem?]
    constructor
    · rintro ⟨entry, ⟨hentry, hin⟩, rfl⟩
      exact ⟨⟨entry, hentry, rfl⟩, Option.isSome_iff_ne_none.1 hin⟩
    · rintro ⟨⟨entry, hentry, rfl⟩, hin⟩
      exact ⟨entry, ⟨hentry, Option.isSome_iff_ne_none.2 hin⟩, rfl⟩
  refine ⟨fun key => ?_, fun key => ?_, fun key => ?_⟩
  · simp only [EnvReply.added, List.mem_filter, Bool.not_eq_true', List.contains_eq_mem,
      decide_eq_false_iff_not, hcollides, batched_get]
    constructor
    · rintro ⟨hin, hnot⟩
      have hnone : env[key]? = none := by
        by_contra hsome
        exact hnot ⟨hin, hsome⟩
      obtain ⟨value, hvalue, -⟩ := (hset key).1 hin
      exact ⟨hnone, by simp [if_pos hin, hvalue]⟩
    · rintro ⟨hnone, hafter⟩
      have hin : key ∈ (freshEntries env entries).map Prod.fst := by
        by_contra hout
        rw [if_neg hout] at hafter
        exact hafter hnone
      exact ⟨hin, fun hnot => hnot.2 hnone⟩
  · simp only [EnvReply.changed, List.mem_filter, List.contains_eq_mem, decide_eq_true_eq,
      hcollides, batched_get]
    constructor
    · rintro ⟨hin, -, hsome⟩
      obtain ⟨value, hvalue, hne⟩ := (hset key).1 hin
      rw [if_pos hin, hvalue]
      exact ⟨hsome, Option.some_ne_none value, hne⟩
    · rintro ⟨hsome, -, hne⟩
      have hin : key ∈ (freshEntries env entries).map Prod.fst := by
        by_contra hout
        rw [if_neg hout] at hne
        exact hne rfl
      exact ⟨hin, hin, hsome⟩
  · simp only [EnvReply.removed, List.not_mem_nil, false_iff, not_and, batched_get]
    intro hsome hafter
    split at hafter
    · next hin =>
      obtain ⟨value, hvalue, -⟩ := (hset key).1 hin
      simp [hvalue] at hafter
    · exact hsome hafter

theorem collides_iff : ¬ Collides entries env ↔
    (((freshEntries env entries).filter fun entry => env.contains entry.1).map Prod.fst).isEmpty =
      true := by
  simp [Collides, List.filter_eq_nil_iff]

/-- A request nobody has anything to write for leaves the shepherd as it
was, and reports nothing. -/
structure Still (disk : Disk) (r : EnvRequest) (s : Shepherd h) (reply : EnvReply) : Prop where
  answer : ∀ dryRun, r.dispatch disk dryRun s = (reply, s)
  added : reply.added = []
  changed : reply.changed = []
  removed : reply.removed = []

/-- What a batch leaves on record. -/
def recordBatch (name : String) (fresh : List (String × String)) (record : AppOverrides V) :
    Except Refusal (AppOverrides V) := do
  let held ← envOverrideMap name record
  pure { record with
    env := some (.object (fresh.foldl (fun held entry => held.insert entry.1 (some entry.2)) held)) }

theorem recordBatch_of_object {record : AppOverrides V} (name : String)
    (fresh : List (String × String)) (hobject : ∀ value, record.env ≠ some (.other value)) :
    ∃ record', recordBatch name fresh record = .ok record' := by
  obtain ⟨held, hheld⟩ := envOverrideMap_of_object name hobject
  exact ⟨_, by rw [recordBatch, hheld]; rfl⟩

theorem recordBatch_of_other {record : AppOverrides V} (name : String)
    (fresh : List (String × String)) {held : V} (hother : record.env = some (.other held)) :
    ∃ err, recordBatch name fresh record = .error err := by
  obtain ⟨err, herr⟩ := envOverrideMap_of_other name hother
  refine ⟨err, ?_⟩
  rw [recordBatch, herr]
  rfl

/-- The keys a batch finds as they should be. -/
def unchangedKeys (entries env : Std.ExtTreeMap String String) : List String :=
  (entries.toList.filter fun entry => env[entry.1]? == some entry.2).map Prod.fst

/-- The keys it finds under another value. -/
def collidingKeys (entries env : Std.ExtTreeMap String String) : List String :=
  ((freshEntries env entries).filter fun entry => env.contains entry.1).map Prod.fst

section

variable {app : App h} {dryRun : Bool}

theorem handleSetSheepEnvBatch_dog (hvoice : app.voice = some slot) (hdog : slot.dog = true) :
    handleSetSheepEnvBatch disk entries force dryRun app =
      .error (.isADog (dogConfigRefusal app.name)) := by
  simp only [handleSetSheepEnvBatch, hvoice, ensureNotDog, hdog, if_true]
  rfl

theorem handleSetSheepEnvBatch_collides (hvoice : app.voice = some slot) (hdog : slot.dog = false)
    (hforce : ¬ (force = true ∨ ¬ Collides entries slot.intended.config.env)) :
    handleSetSheepEnvBatch disk entries force dryRun app =
      .ok (some (app, ⟨none, [], unchangedKeys entries slot.intended.config.env,
        collidingKeys entries slot.intended.config.env⟩)) := by
  rw [not_or, collides_iff, Bool.not_eq_true, Bool.not_eq_true] at hforce
  simp only [handleSetSheepEnvBatch, hvoice, ensureNotDog, hdog, hforce, Bool.false_eq_true,
    if_false, ok_bind, Bool.not_false, Bool.and_self, if_true]
  rfl

theorem handleSetSheepEnvBatch_open (disk : Disk) (dryRun : Bool)
    (hvoice : app.voice = some slot) (hdog : slot.dog = false)
    (hforce : force = true ∨ ¬ Collides entries slot.intended.config.env) :
    handleSetSheepEnvBatch disk entries force dryRun app =
      match h.normalize { slot.intended.config with
        env := batched entries slot.intended.config.env } with
      | .error message => .error (.invalidEnv message)
      | .ok parked =>
        if dryRun || (freshEntries slot.intended.config.env entries).isEmpty then
          .ok (some (app, ⟨none, (freshEntries slot.intended.config.env entries).map Prod.fst,
            unchangedKeys entries slot.intended.config.env,
            collidingKeys entries slot.intended.config.env⟩))
        else
          app.mutateOverride disk (recordBatch app.name
              (freshEntries slot.intended.config.env entries)) >>= fun record =>
            .ok (some (app.parkSlots parked record,
              ⟨some parked, (freshEntries slot.intended.config.env entries).map Prod.fst,
                unchangedKeys entries slot.intended.config.env,
                collidingKeys entries slot.intended.config.env⟩)) := by
  have hopen : (!(collidingKeys entries slot.intended.config.env).isEmpty && !force) = false := by
    rw [collides_iff] at hforce
    rcases hforce with hforce | hforce
    · simp [hforce]
    · rw [collidingKeys, hforce]
      rfl
  unfold collidingKeys at hopen
  simp only [handleSetSheepEnvBatch, hvoice, ensureNotDog, hdog, Bool.false_eq_true, if_false,
    ok_bind, hopen]
  rfl

end

theorem normalize_of_none {config : AppConfig V} (hrefusal : h.refusal config = none) :
    ∃ parked, h.normalize config = .ok parked := by
  unfold Host.normalize
  split
  · exact ⟨_, rfl⟩
  · next message hmessage =>
    rw [hrefusal] at hmessage
    cases hmessage

theorem normalize_of_some {config : AppConfig V} {message : String}
    (hrefusal : h.refusal config = some message) : h.normalize config = .error message := by
  unfold Host.normalize
  split
  · next hnone =>
    rw [hrefusal] at hnone
    cases hnone
  · next message' hmessage =>
    rw [hrefusal] at hmessage
    rw [Option.some.inj hmessage]

theorem setBatch_still (hw : ¬ Writes s (.setBatch name entries force)) :
    ∃ reply, Still disk (.setBatch name entries force) s reply := by
  cases hvoice : (s.app name).voice with
  | none =>
    refine ⟨.noSheep name, fun dryRun => ?_, rfl, rfl, rfl⟩
    simp only [dispatch, handleSetSheepEnvBatch, hvoice]
  | some slot =>
    cases hdog : slot.dog with
    | true =>
      refine ⟨.refused (.isADog (dogConfigRefusal (s.app name).name)), fun dryRun => ?_, rfl, rfl,
        rfl⟩
      simp only [dispatch, handleSetSheepEnvBatch_dog hvoice hdog]
    | false =>
      by_cases hforce : force = true ∨ ¬ Collides entries slot.intended.config.env
      · cases hrefusal : h.refusal { slot.intended.config with
            env := batched entries slot.intended.config.env } with
        | some message =>
          refine ⟨.refused (.invalidEnv message), fun dryRun => ?_, rfl, rfl, rfl⟩
          simp only [dispatch, handleSetSheepEnvBatch_open disk dryRun hvoice hdog hforce,
            normalize_of_some hrefusal]
        | none =>
          -- every key is held at its value already
          have hfresh : freshEntries slot.intended.config.env entries = [] := by
            by_contra hne
            exact hw ⟨slot, hvoice, hdog, hne, hforce, hrefusal⟩
          obtain ⟨parked, hparked⟩ := normalize_of_none hrefusal
          refine ⟨.batch [] (unchangedKeys entries slot.intended.config.env) [], fun dryRun => ?_,
            rfl, rfl, rfl⟩
          simp only [dispatch, handleSetSheepEnvBatch_open disk dryRun hvoice hdog hforce, hparked,
            hfresh, collidingKeys, List.isEmpty_nil, Bool.or_true, if_true, List.map_nil, List.filter_nil,
            Shepherd.record_self hvoice]
      · refine ⟨.batch [] (unchangedKeys entries slot.intended.config.env)
          (collidingKeys entries slot.intended.config.env), fun dryRun => ?_, rfl, rfl, rfl⟩
        simp only [dispatch, handleSetSheepEnvBatch_collides hvoice hdog hforce,
          Shepherd.record_self hvoice]

theorem setBatch_answered (hw : Writes s (.setBatch name entries force)) :
    ∃ reply after, Answered disk (.setBatch name entries force) s reply after := by
  obtain ⟨slot, hvoice, hdog, hne, hforce, hrefusal⟩ := hw
  obtain ⟨parked, hparked⟩ := normalize_of_none hrefusal
  have hfull : (freshEntries slot.intended.config.env entries).isEmpty = false := by
    simpa [List.isEmpty_iff] using hne
  have hreports := batch_reports entries slot.intended.config.env
    (unchangedKeys entries slot.intended.config.env)
  have hopen := fun dryRun =>
    handleSetSheepEnvBatch_open disk dryRun hvoice hdog hforce
  refine ⟨.batch ((freshEntries slot.intended.config.env entries).map Prod.fst)
    (unchangedKeys entries slot.intended.config.env)
    (collidingKeys entries slot.intended.config.env), batched entries slot.intended.config.env,
    ⟨slot, hvoice⟩, ?_, fun hrefuses => ?_, ?_, ?_, fun htakes => ?_, fun htakes => ?_⟩
  · simp only [dispatch, hopen, hparked, Bool.true_or, if_true, Shepherd.record_self hvoice]
  · exact hne (List.map_eq_nil_iff.1 hrefuses.1)
  · rw [target, App.env_of_voice hvoice]
    exact hreports
  · obtain ⟨entry, hentry⟩ := List.exists_mem_of_ne_nil _ hne
    have hset : entry.1 ∈ (freshEntries slot.intended.config.env entries).map Prod.fst :=
      List.mem_map_of_mem hentry
    by_cases hin : entry.1 ∈ collidingKeys entries slot.intended.config.env
    · refine Or.inr (Or.inl (List.ne_nil_of_mem (a := entry.1) ?_))
      simpa [EnvReply.changed, hin] using ⟨entry.2, hentry⟩
    · refine Or.inl (List.ne_nil_of_mem (a := entry.1) ?_)
      simpa [EnvReply.added, hin] using ⟨entry.2, hentry⟩
  · obtain ⟨record, hrecord⟩ := recordBatch_of_object (s.app name).name
      (freshEntries slot.intended.config.env entries) htakes.object
    have hwritten : (s.app name).mutateOverride disk (recordBatch (s.app name).name
        (freshEntries slot.intended.config.env entries)) = .ok record :=
      mutateOverride_of_takes htakes hrecord
    refine ⟨parked, record, normalize_env hparked, ?_⟩
    simp only [dispatch, hopen, hparked, hfull, Bool.false_or, Bool.false_eq_true, if_false,
      hwritten, ok_bind, target]
  · obtain ⟨err, hrecord⟩ := mutateOverride_of_not_takes
      (f := recordBatch (s.app name).name (freshEntries slot.intended.config.env entries)) htakes
      (fun value hother => recordBatch_of_other _ _ hother)
    have hwritten : (s.app name).mutateOverride disk (recordBatch (s.app name).name
        (freshEntries slot.intended.config.env entries)) = .error err := hrecord
    refine ⟨err, ?_⟩
    simp only [dispatch, hopen, hparked, hfull, Bool.false_or, Bool.false_eq_true, if_false,
      hwritten]
    rfl

/-! ## A copy -/

variable {before after : Std.ExtTreeMap String String} {source target : String} {replace : Bool}
  {except : List String} {expect : Option (List EnvCopyChange)} {giver : Slot h}

theorem mem_diff {change : EnvCopyChange} :
    change ∈ diff h before after ↔ diffKey h before after change.key = some change := by
  constructor
  · intro hchange
    obtain ⟨key, -, hkey⟩ := List.mem_filterMap.1 hchange
    rwa [diffKey_key hkey]
  · intro hkey
    have hin : change.key ∈ (diff h before after).map EnvCopyChange.key := by
      by_contra hout
      have hsame := get_of_not_mem_diff hout
      unfold diffKey at hkey
      rw [hsame] at hkey
      cases hbefore : before[change.key]? <;> simp [hbefore] at hkey
    obtain ⟨change', hchange', hsame⟩ := List.mem_map.1 hin
    obtain ⟨key, -, hkey'⟩ := List.mem_filterMap.1 hchange'
    have hdiff : diffKey h before after change.key = some change' := by
      rwa [← hsame, diffKey_key hkey']
    rw [hkey] at hdiff
    rwa [Option.some.inj hdiff]

theorem diffKey_kind {key : String} {kind : EnvCopyKind} :
    (∃ change, diffKey h before after key = some change ∧ change.kind = kind) ↔
      match kind with
      | .added => before[key]? = none ∧ after[key]? ≠ none
      | .changed => before[key]? ≠ none ∧ after[key]? ≠ none ∧ before[key]? ≠ after[key]?
      | .removed => before[key]? ≠ none ∧ after[key]? = none := by
  unfold diffKey
  cases hbefore : before[key]? with
  | none => cases hafter : after[key]? <;> cases kind <;> simp
  | some old =>
    cases hafter : after[key]? with
    | none => cases kind <;> simp
    | some new => by_cases hsame : old = new <;> cases kind <;> simp [hsame]

theorem mem_diff_of_kind {key : String} {kind : EnvCopyKind} :
    key ∈ ((diff h before after).filter fun change => change.kind = kind).map EnvCopyChange.key ↔
      ∃ change, diffKey h before after key = some change ∧ change.kind = kind := by
  simp only [List.mem_map, List.mem_filter, mem_diff, decide_eq_true_eq]
  constructor
  · rintro ⟨change, ⟨hchange, hkind⟩, rfl⟩
    exact ⟨change, hchange, hkind⟩
  · rintro ⟨change, hchange, hkind⟩
    have hkey := diffKey_key hchange
    exact ⟨change, ⟨by rwa [hkey], hkind⟩, hkey⟩

theorem copy_reports (before after : Std.ExtTreeMap String String) :
    (EnvReply.copied (diff h before after)).Reports before after where
  added := fun _ => mem_diff_of_kind.trans diffKey_kind
  changed := fun _ => mem_diff_of_kind.trans diffKey_kind
  removed := fun _ => mem_diff_of_kind.trans diffKey_kind

theorem filter_const {α : Type} (o : Option α) (b : Bool) :
    o.filter (fun _ => b) = if b then o else none := by
  cases o <;> cases b <;> rfl

/-- What a copy makes of one key. -/
theorem copied_get (given env : Std.ExtTreeMap String String) (replace : Bool)
    (except : List String) (key : String) :
    (copied given env replace except)[key]? =
      if key ∈ except then env[key]?
      else if given.contains key then given[key]?
      else if replace then none else env[key]? := by
  have hentries : ∀ entry ∈ given.toList.filter (fun entry => !except.contains entry.1),
      given[entry.1]? = some entry.2 :=
    fun entry hentry => Table.mem_toList.1 (List.mem_of_mem_filter hentry)
  have hget := foldl_insert_get id _ hentries env key
  simp only [id_eq, Option.map_id_fun] at hget
  have hin : key ∈ (given.toList.filter (fun entry => !except.contains entry.1)).map Prod.fst ↔
      key ∉ except ∧ given.contains key = true := by
    simp only [List.mem_map, List.mem_filter, Std.ExtTreeMap.contains_eq_isSome_getElem?,
      Option.isSome_iff_exists]
    constructor
    · rintro ⟨entry, ⟨hentry, hout⟩, rfl⟩
      exact ⟨by simpa using hout, entry.2, Table.mem_toList.1 hentry⟩
    · rintro ⟨hout, value, hvalue⟩
      exact ⟨(key, value), ⟨Table.mem_toList.2 hvalue, by simpa using hout⟩, rfl⟩
  have hmade : ((given.toList.filter (fun entry => !except.contains entry.1)).foldl
      (fun env entry => env.insert entry.1 entry.2) env)[key]? =
      if key ∉ except ∧ given.contains key = true then given[key]? else env[key]? := by
    rw [hget]
    exact if_congr hin rfl rfl
  unfold copied
  simp only
  split
  · next hreplace =>
    rw [Std.ExtTreeMap.getElem?_filter', hmade, filter_const]
    by_cases hexcept : key ∈ except <;> by_cases hgiven : given.contains key = true <;>
      simp only [hexcept, hgiven, List.contains_eq_mem] <;> simp
  · next hreplace =>
    rw [hmade]
    by_cases hexcept : key ∈ except <;> by_cases hgiven : given.contains key = true <;>
      simp only [hexcept, hgiven] <;> simp

section

variable {app from' : App h}

theorem handleCopySheepEnv_dog (disk : Disk) (replace : Bool) (except : List String)
    (expect : Option (List EnvCopyChange)) (hfrom : from'.voice = some giver)
    (hvoice : app.voice = some slot)
    (hdog : giver.dog = true ∨ slot.dog = true) :
    ∃ err, ∀ dryRun, handleCopySheepEnv disk from' replace except dryRun expect app = .error err := by
  cases hgiver : giver.dog with
  | true =>
    refine ⟨.isADog (dogConfigRefusal from'.name), fun dryRun => ?_⟩
    simp only [handleCopySheepEnv, hfrom, hvoice, ensureNotDog, hgiver, if_true]
    rfl
  | false =>
    have hslot : slot.dog = true := hdog.resolve_left (by simp [hgiver])
    refine ⟨.isADog (dogConfigRefusal app.name), fun dryRun => ?_⟩
    simp only [handleCopySheepEnv, hfrom, hvoice, ensureNotDog, hgiver, hslot, Bool.false_eq_true,
      if_false, if_true, ok_bind]
    rfl

/-- What a copy leaves on record. -/
def recordCopy (name : String) (before after : Std.ExtTreeMap String String)
    (changes : List EnvCopyChange) (record : AppOverrides V) : Except Refusal (AppOverrides V) :=
  changes.foldlM (fun record change => recordEnvEdit name change.key after[change.key]?
    (before.contains change.key) record) record

theorem handleCopySheepEnv_open (disk : Disk) (expect : Option (List EnvCopyChange))
    (dryRun : Bool) (hfrom : from'.voice = some giver) (hvoice : app.voice = some slot)
    (hgiver : giver.dog = false) (hdog : slot.dog = false)
    (hafter : copied giver.intended.config.env slot.intended.config.env replace except = after) :
    handleCopySheepEnv disk from' replace except dryRun expect app =
      if expect.any (· != diff h slot.intended.config.env after) then
        .error (.envChanged
          (differingKeys (expect.getD []) (diff h slot.intended.config.env after)))
      else if (diff h slot.intended.config.env after).isEmpty then
        .ok (app, ⟨none, diff h slot.intended.config.env after⟩)
      else
        match h.normalize { slot.intended.config with env := after } with
        | .error message => .error (.invalidEnv message)
        | .ok parked =>
          if dryRun then .ok (app, ⟨none, diff h slot.intended.config.env after⟩)
          else
            app.mutateOverride disk (recordCopy app.name slot.intended.config.env after
                (diff h slot.intended.config.env after)) >>= fun record =>
              .ok (app.parkSlots parked record,
                ⟨some parked, diff h slot.intended.config.env after⟩) := by
  subst hafter
  simp only [handleCopySheepEnv, hfrom, hvoice, ensureNotDog, hgiver, hdog, Bool.false_eq_true,
    if_false, ok_bind]
  rfl

end

theorem copy_still (hw : ¬ Writes s (.copy source target replace except expect)) :
    ∃ reply, Still disk (.copy source target replace except expect) s reply := by
  cases hfrom : (s.app source).voice with
  | none =>
    refine ⟨.refused (.noSuchSheep (s.app source).name), fun dryRun => ?_, rfl, rfl, rfl⟩
    simp only [dispatch, handleCopySheepEnv, hfrom]
  | some giver =>
    cases hvoice : (s.app target).voice with
    | none =>
      refine ⟨.refused (.noSuchSheep (s.app target).name), fun dryRun => ?_, rfl, rfl, rfl⟩
      simp only [dispatch, handleCopySheepEnv, hfrom, hvoice]
    | some slot =>
      by_cases hdog : giver.dog = true ∨ slot.dog = true
      · obtain ⟨err, herr⟩ := handleCopySheepEnv_dog disk replace except expect hfrom hvoice hdog
        refine ⟨.refused err, fun dryRun => ?_, rfl, rfl, rfl⟩
        simp only [dispatch, herr]
      · simp only [not_or, Bool.not_eq_true] at hdog
        obtain ⟨after, hafter⟩ : ∃ after, copied giver.intended.config.env
            slot.intended.config.env replace except = after := ⟨_, rfl⟩
        have hopen := fun dryRun =>
          handleCopySheepEnv_open disk expect dryRun hfrom hvoice hdog.1 hdog.2 hafter
        by_cases hexpect : expect.any (· != diff h slot.intended.config.env after) = true
        · refine ⟨.refused (.envChanged (differingKeys (expect.getD [])
            (diff h slot.intended.config.env after))), fun dryRun => ?_, rfl, rfl, rfl⟩
          simp only [dispatch, hopen, hexpect, if_true]
        · by_cases hempty : diff h slot.intended.config.env after = []
          · refine ⟨.copied [], fun dryRun => ?_, rfl, rfl, rfl⟩
            simp only [dispatch, hopen, if_neg hexpect]
            simp only [hempty, List.isEmpty_nil, if_true, Shepherd.record_self hvoice]
          · cases hrefusal : h.refusal { slot.intended.config with env := after } with
            | some message =>
              refine ⟨.refused (.invalidEnv message), fun dryRun => ?_, rfl, rfl, rfl⟩
              simp only [dispatch, hopen, if_neg hexpect, List.isEmpty_iff, hempty, if_false,
                normalize_of_some hrefusal]
            | none =>
              refine absurd ⟨giver, slot, hfrom, hvoice, hdog.1, hdog.2, ?_⟩ hw
              rw [hafter]
              refine ⟨hempty, fun reviewed hreviewed => ?_, hrefusal⟩
              simpa [hreviewed] using hexpect

theorem copy_answered (hw : Writes s (.copy source target replace except expect)) :
    ∃ reply after, Answered disk (.copy source target replace except expect) s reply after := by
  obtain ⟨giver, slot, hfrom, hvoice, hgiver, hdog, hne, hreviewed, hrefusal⟩ := hw
  obtain ⟨after, hafter⟩ : ∃ after, copied giver.intended.config.env
      slot.intended.config.env replace except = after := ⟨_, rfl⟩
  rw [hafter] at hne hreviewed hrefusal
  obtain ⟨parked, hparked⟩ := normalize_of_none hrefusal
  have hexpect : ¬ expect.any (· != diff h slot.intended.config.env after) = true := by
    cases hsome : expect with
    | none => simp
    | some reviewed => simp [hreviewed reviewed hsome]
  have hopen := fun dryRun =>
    handleCopySheepEnv_open disk expect dryRun hfrom hvoice hgiver hdog hafter
  simp only [if_neg hexpect, List.isEmpty_iff, hne, if_false, hparked] at hopen
  have hreports : EnvReply.Reports (.copied (diff h slot.intended.config.env after))
      (s.app target).env after := by
    rw [App.env_of_voice hvoice]
    exact copy_reports _ _
  refine ⟨.copied (diff h slot.intended.config.env after), after, ⟨slot, hvoice⟩, ?_, id, hreports,
    ?_, fun htakes => ?_, fun htakes => ?_⟩
  · simp only [dispatch, hopen, if_true, Shepherd.record_self hvoice]
  · obtain ⟨change, hchange⟩ := List.exists_mem_of_ne_nil _ hne
    have hmem (kind : EnvCopyKind) (hkind : change.kind = kind) : change.key ∈
        ((diff h slot.intended.config.env after).filter fun change => change.kind = kind).map
          EnvCopyChange.key := mem_diff_of_kind.2 ⟨change, mem_diff.1 hchange, hkind⟩
    cases hkind : change.kind with
    | added => exact Or.inl (List.ne_nil_of_mem (hmem .added hkind))
    | changed => exact Or.inr (Or.inl (List.ne_nil_of_mem (hmem .changed hkind)))
    | removed => exact Or.inr (Or.inr (List.ne_nil_of_mem (hmem .removed hkind)))
  · obtain ⟨record, hrecord⟩ := foldlM_recordEnvEdit_of_object (s.app target).name (fun key => after[key]?)
      (fun key => slot.intended.config.env.contains key) (diff h slot.intended.config.env after)
      htakes.object
    have hwritten : (s.app target).mutateOverride disk (recordCopy (s.app target).name
        slot.intended.config.env after (diff h slot.intended.config.env after)) = .ok record :=
      mutateOverride_of_takes htakes hrecord
    refine ⟨parked, record, normalize_env hparked, ?_⟩
    simp only [dispatch, hopen, Bool.false_eq_true, if_false, hwritten, ok_bind, EnvRequest.target]
  · obtain ⟨err, hrecord⟩ := mutateOverride_of_not_takes (f := recordCopy (s.app target).name
        slot.intended.config.env after (diff h slot.intended.config.env after)) htakes
      (fun value hother => foldlM_recordEnvEdit_of_other (fun key => after[key]?)
        (fun key => slot.intended.config.env.contains key) hne hother)
    have hwritten : (s.app target).mutateOverride disk (recordCopy (s.app target).name
        slot.intended.config.env after (diff h slot.intended.config.env after)) = .error err :=
      hrecord
    refine ⟨err, ?_⟩
    simp only [dispatch, hopen, Bool.false_eq_true, if_false, hwritten]
    rfl

/-! ## Both -/

theorem still_of_not_writes (disk : Disk) (hw : ¬ r.Writes s) : ∃ reply, Still disk r s reply := by
  cases r with
  | setBatch name entries force => exact setBatch_still hw
  | copy source target replace except expect => exact copy_still hw

theorem answered_of_writes (disk : Disk) (hw : r.Writes s) :
    ∃ reply after, Answered disk r s reply after := by
  cases r with
  | setBatch name entries force => exact setBatch_answered hw
  | copy source target replace except expect => exact copy_answered hw

/-- **A dry run is faithful exactly where the store takes what the request
has to write.** -/
theorem faithful_iff : r.Faithful disk s ↔ (r.Writes s → disk.Takes (s.app r.target)) := by
  by_cases hw : r.Writes s
  · obtain ⟨reply, after, hans⟩ := answered_of_writes disk hw
    obtain ⟨slot, hvoice⟩ := hans.registered
    simp only [hw, forall_const]
    refine ⟨fun hfaithful => ?_, fun htakes => ?_⟩
    · by_contra htakes
      -- refused by the store, the real run leaves the environment as it was
      obtain ⟨err, herr⟩ := hans.refused htakes
      have hreports := hfaithful.reports
      rw [hans.dry, herr] at hreports
      exact hreports.ne hans.something rfl
    · obtain ⟨parked, record, henv, hreal⟩ := hans.real htakes
      refine ⟨by rw [hreal, hans.dry], ?_⟩
      rw [hans.dry, hreal, Shepherd.record_app hvoice, parkSlots_env hvoice, henv]
      exact hans.reports
  · obtain ⟨reply, hstill⟩ := still_of_not_writes disk hw
    simp only [hw, false_imp_iff, iff_true]
    refine ⟨by rw [hstill.answer, hstill.answer], ?_⟩
    rw [hstill.answer, hstill.answer]
    exact .still hstill.added hstill.changed hstill.removed

/-- **A refused request and a dry run leave the shepherd as it was.** -/
theorem dispatch_atomic {dryRun : Bool}
    (hrefused : (r.dispatch disk dryRun s).1.Refuses ∨ dryRun = true) :
    (r.dispatch disk dryRun s).2 = s := by
  by_cases hw : r.Writes s
  · obtain ⟨reply, after, hans⟩ := answered_of_writes disk hw
    cases dryRun with
    | true => rw [hans.dry]
    | false =>
      by_cases htakes : disk.Takes (s.app r.target)
      · obtain ⟨parked, record, -, hreal⟩ := hans.real htakes
        rw [hreal] at hrefused
        exact absurd (hrefused.resolve_right (by simp)) hans.accepts
      · obtain ⟨err, herr⟩ := hans.refused htakes
        rw [herr]
  · obtain ⟨reply, hstill⟩ := still_of_not_writes disk hw
    rw [hstill.answer]

theorem dispatch_collides {dryRun : Bool}
    (hcollides : Collides entries (s.app name).env) :
    ((EnvRequest.setBatch name entries false).dispatch disk dryRun s).2 = s := by
  have hw : ¬ Writes s (.setBatch name entries false) := by
    rintro ⟨slot, hvoice, -, -, hforce, -⟩
    rw [App.env_of_voice hvoice] at hcollides
    exact hforce.elim (fun e => (by cases e)) (fun hnot => hnot hcollides)
  obtain ⟨reply, hstill⟩ := still_of_not_writes disk hw
  rw [hstill.answer]

/-- What an accepted copy has made. -/
theorem handleCopySheepEnv_real {app app' from' : App h} {made : EnvCopy h}
    (hok : handleCopySheepEnv disk from' replace except false expect app = .ok (app', made)) :
    ∃ giver slot after, from'.voice = some giver ∧ app.voice = some slot ∧
      copied giver.intended.config.env slot.intended.config.env replace except = after ∧
      made.changes = diff h slot.intended.config.env after ∧
      (made.changes = [] ∧ made.app = none ∧ app' = app ∨
        ∃ parked record, parked.config.env = after ∧ made.app = some parked ∧
          app' = app.parkSlots parked record) := by
  unfold handleCopySheepEnv at hok
  split at hok
  · cases hok
  · cases hok
  · next giver slot hfrom hvoice =>
    refine ⟨giver, slot, _, hfrom, hvoice, rfl, ?_⟩
    obtain ⟨_, -, hrest⟩ := bind_eq_ok hok
    obtain ⟨_, -, hrest⟩ := bind_eq_ok hrest
    simp only at hrest
    split at hrest
    · cases hrest
    · split at hrest
      · next hempty =>
        obtain ⟨rfl, rfl⟩ := Prod.mk.inj (Except.ok.inj hrest)
        exact ⟨rfl, .inl ⟨List.isEmpty_iff.1 hempty, rfl, rfl⟩⟩
      · split at hrest
        · cases hrest
        · next parked hparked =>
          simp only [Bool.false_eq_true, if_false] at hrest
          obtain ⟨record, -, hrest⟩ := bind_eq_ok hrest
          obtain ⟨rfl, rfl⟩ := Prod.mk.inj (Except.ok.inj hrest)
          exact ⟨rfl, .inr ⟨parked, record, normalize_env hparked, rfl, rfl⟩⟩

/-- **A replacing copy** makes the target's environment the source's off the
excepted keys, on every instance where it wrote anything. -/
theorem dispatch_replace {changes : List EnvCopyChange}
    (hcopied : ((EnvRequest.copy source target true except expect).dispatch disk false s).1 =
      .copied changes) :
    (∀ key, (((EnvRequest.copy source target true except expect).dispatch disk false s).2.app
        target).env[key]? =
      if key ∈ except then (s.app target).env[key]? else (s.app source).env[key]?) ∧
    (changes ≠ [] → ∀ (id : ℕ) (slot : Slot h),
      (((EnvRequest.copy source target true except expect).dispatch disk false s).2.app
        target).slots[id]? = some slot →
      slot.intended.config.env = (((EnvRequest.copy source target true except expect).dispatch
        disk false s).2.app target).env) := by
  unfold dispatch at hcopied ⊢
  simp only at hcopied ⊢
  split at hcopied
  · next app' made hok =>
    obtain ⟨giver, slot, after, hfrom, hvoice, hafter, hchanges, hmade⟩ :=
      handleCopySheepEnv_real hok
    obtain rfl := EnvReply.copied.inj hcopied
    have hget (key : String) : after[key]? =
        if key ∈ except then (s.app target).env[key]? else (s.app source).env[key]? := by
      rw [← hafter, copied_get, App.env_of_voice hvoice, App.env_of_voice hfrom]
      refine if_congr Iff.rfl rfl ?_
      split
      · rfl
      · next hout =>
        rw [Std.ExtTreeMap.contains_eq_isSome_getElem?, Option.not_isSome_iff_eq_none] at hout
        rw [if_pos rfl, hout]
    rcases hmade with ⟨hnil, hnone, rfl⟩ | ⟨parked, record, henv, hsome, rfl⟩
    · simp only [hnone, Shepherd.record_self hvoice]
      refine ⟨fun key => ?_, fun hne => absurd hnil hne⟩
      rw [← hget key, App.env_of_voice hvoice]
      refine (get_of_not_mem_diff (h := h) ?_).symm
      rw [← hchanges, hnil]
      exact List.not_mem_nil
    · simp only [Shepherd.record_app hvoice, parkSlots_env hvoice, henv]
      refine ⟨hget, fun _ id new hnew => ?_⟩
      rw [(parkSlots_get hnew).1, henv]
  · cases hcopied

end EnvRequest

/-- **What the two requests do**, from every state of the shepherd and of
its override store: the first three always, the last exactly where the
store takes what the request has to write. -/
theorem env_edits_faithful (disk : Disk) (s : Shepherd h) (r : EnvRequest) :
    (∀ dryRun, (r.dispatch disk dryRun s).1.Refuses ∨ dryRun = true →
      (r.dispatch disk dryRun s).2 = s) ∧
    (∀ name entries dryRun, r = .setBatch name entries false →
      EnvRequest.Collides entries (s.app name).env → (r.dispatch disk dryRun s).2 = s) ∧
    (∀ source target except expect changes, r = .copy source target true except expect →
      (r.dispatch disk false s).1 = .copied changes →
      (∀ key, ((r.dispatch disk false s).2.app target).env[key]? =
        if key ∈ except then (s.app target).env[key]? else (s.app source).env[key]?) ∧
      (changes ≠ [] → ∀ (id : ℕ) (slot : Slot h),
        ((r.dispatch disk false s).2.app target).slots[id]? = some slot →
        slot.intended.config.env = ((r.dispatch disk false s).2.app target).env)) ∧
    (r.Faithful disk s ↔ (r.Writes s → disk.Takes (s.app r.target))) := by
  refine ⟨fun dryRun hrefused => EnvRequest.dispatch_atomic hrefused, ?_, ?_,
    EnvRequest.faithful_iff⟩
  · rintro name entries dryRun rfl hcollides
    exact EnvRequest.dispatch_collides hcollides
  · rintro source target except expect changes rfl hcopied
    exact EnvRequest.dispatch_replace hcopied

/-! ## A batch onto an override that is no object -/

/-- `web`, with an `env` override an older shep cannot read. -/
def overwritten : Shepherd frank where
  apps := .ofList [("web", { web with record := { env := some (.other 0) } })]

/-- **A dry run that reports an addition the real run refuses.** -/
theorem env_preview_unfaithful :
    ((EnvRequest.setBatch "web" (.ofList [("HOST", "::")]) false).dispatch {} true
      overwritten).1 = .batch ["HOST"] [] [] ∧
    ((EnvRequest.setBatch "web" (.ofList [("HOST", "::")]) false).dispatch {} false
      overwritten).1 = .refused (.overrides "web's stored `env` override is not an object") ∧
    ¬ (EnvRequest.setBatch "web" (.ofList [("HOST", "::")]) false).Faithful {} overwritten := by
  have hdry : ((EnvRequest.setBatch "web" (.ofList [("HOST", "::")]) false).dispatch {} true
      overwritten).1 = .batch ["HOST"] [] [] := by decide +kernel
  have hreal : ((EnvRequest.setBatch "web" (.ofList [("HOST", "::")]) false).dispatch {} false
      overwritten).1 = .refused (.overrides "web's stored `env` override is not an object") := by
    decide +kernel
  refine ⟨hdry, hreal, fun hfaithful => ?_⟩
  have hsame := hfaithful.reply
  rw [hdry, hreal] at hsame
  cases hsame

end Config

end Shep

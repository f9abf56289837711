import Shep.Common.Table
import Shep.Pm2.Model
import Shep.Pm2.Rows
import Shep.Template.Literal
import Shep.Values.Codec

/-!
# Pm2 — the Flockfile of an import is read back

`rendered` leaves out each key whose field is at its default, which is where
`minimal` puts the field back. `foldlM_rendered` goes through the keys one
after the other.
-/

namespace Shep

namespace Pm2

open Template (Text)
open Values (MemSize UpDuration)

variable {Others : Type} {defaults : Others} {app app' app'' : App Others}

/-- The keys of an import's app are all it has away from the defaults, and
TOML has a value for each. -/
structure Written (defaults : Others) (app : App Others) : Prop where
  mapped : ∃ interpreter autorestart restartDelay, app =
    { minimal defaults app.name app.script with
      args := app.args, cwd := app.cwd, instances := app.instances, mergeLogs := app.mergeLogs,
      maxMemory := app.maxMemory, env := app.env,
      rest := ⟨interpreter, autorestart, restartDelay, false, defaults⟩ }
  instances : app.instances < 2 ^ 32
  maxMemory : ∀ n, app.maxMemory = some n → n < 2 ^ 64
  env : app.env.toList.head?.map Prod.fst ≠ some tomlPrivateDatetimeKey

theorem foldlM_then {fields fields' : List (String × Value)}
    (h : fields.foldlM readField app = some app')
    (h' : fields'.foldlM readField app' = some app'') :
    (fields ++ fields').foldlM readField app = some app'' := by
  rw [List.foldlM_append, h]
  exact h'

/-- A key that is there is read, and one that is skipped leaves the field as
it was. -/
theorem foldlM_fieldUnless {skip : Bool} {key : String} {value : Value}
    (hread : skip = false → readField app (key, value) = some app')
    (hskip : skip = true → app = app') :
    (fieldUnless skip key value).foldlM readField app = some app' := by
  unfold fieldUnless
  cases skip with
  | false => simp [hread rfl]
  | true => simp [hskip rfl]

theorem readField_restartDelay (delay : UpDuration) :
    readField app ("restart_delay", .string delay.display.toList) =
      some { app with rest := { app.rest with restartDelay := some delay } } := by
  simp [readField, UpDuration.fromStr_eq_ok.2 delay.reads_display]

theorem readField_maxMemory {n : ℕ} (h : n < 2 ^ 64) :
    readField app ("max_memory", .string (MemSize.mk (UInt64.ofNat n)).display.toList) =
      some { app with maxMemory := some n } := by
  have hn : (UInt64.ofNat n).toNat = n := by
    rw [UInt64.toNat_ofNat', Nat.mod_eq_of_lt h]
  simp [readField, MemSize.fromStr_eq_ok.2 (MemSize.reads_display _), hn]

theorem readField_env {env : Std.ExtTreeMap String Text}
    (h : env.toList.head?.map Prod.fst ≠ some tomlPrivateDatetimeKey) :
    readField app ("env", .table env.toList) = some { app with env := env } := by
  simp only [readField, deserializeEnv, if_neg h, Table.ofList_toList]

/-- **A rendered app is read back.** -/
theorem foldlM_rendered (h : Written defaults app) :
    (rendered app).foldlM readField (minimal defaults [] []) = some app := by
  obtain ⟨⟨interpreter, autorestart, restartDelay, happ⟩, hinstances, hmemory, henv⟩ := h
  have hrest : app.rest = ⟨interpreter, autorestart, restartDelay, false, defaults⟩ := by
    rw [happ]
  unfold rendered
  rw [hrest]
  let app0 := minimal defaults app.name app.script
  let app1 : App Others := { app0 with args := app.args }
  let app2 : App Others := { app1 with cwd := app.cwd }
  let app3 : App Others := { app2 with rest := { app2.rest with interpreter := interpreter } }
  let app4 : App Others := { app3 with instances := app.instances }
  let app5 : App Others := { app4 with rest := { app4.rest with autorestart := autorestart } }
  let app6 : App Others := { app5 with rest := { app5.rest with restartDelay := restartDelay } }
  let app7 : App Others := { app6 with maxMemory := app.maxMemory }
  let app8 : App Others := { app7 with mergeLogs := app.mergeLogs }
  let app9 : App Others := { app8 with env := app.env }
  have h0 : [("name", Value.string app.name), ("script", Value.string app.script)].foldlM readField
      (minimal defaults [] []) = some app0 := rfl
  have h1 : (fieldUnless app.args.isEmpty "args" (.array app.args)).foldlM readField app0 =
      some app1 := by
    refine foldlM_fieldUnless (fun _ => rfl) fun hskip => ?_
    simp only [app1, List.isEmpty_iff.1 hskip]
    rfl
  have h2 : (fieldUnless app.cwd.isNone "cwd" (.string (app.cwd.getD []))).foldlM readField app1 =
      some app2 := by
    refine foldlM_fieldUnless (fun hskip => ?_) fun hskip => ?_
    · obtain ⟨cwd, hcwd⟩ := Option.isSome_iff_exists.1 (Option.isNone_eq_false_iff.1 hskip)
      simp only [app2, hcwd]
      rfl
    · simp only [app2, Option.isNone_iff_eq_none.1 hskip]
      rfl
  have h3 : (fieldUnless interpreter.isNone "interpreter"
      (.string (interpreter.getD []))).foldlM readField app2 = some app3 := by
    refine foldlM_fieldUnless (fun hskip => ?_) fun hskip => ?_
    · obtain ⟨found, rfl⟩ := Option.isSome_iff_exists.1 (Option.isNone_eq_false_iff.1 hskip)
      rfl
    · obtain rfl := Option.isNone_iff_eq_none.1 hskip
      rfl
  have h4 : (fieldUnless (app.instances == 1) "instances" (.integer app.instances)).foldlM readField
      app3 = some app4 := by
    refine foldlM_fieldUnless (fun _ => if_pos hinstances) fun hskip => ?_
    simp only [app4, eq_of_beq hskip]
    rfl
  have h5 : (fieldUnless autorestart "autorestart" (.boolean autorestart)).foldlM readField app4 =
      some app5 := by
    refine foldlM_fieldUnless (fun _ => rfl) fun hskip => ?_
    subst hskip
    rfl
  have h6 : (fieldUnless restartDelay.isNone "restart_delay"
      (.string (restartDelay.getD ⟨0⟩).display.toList)).foldlM readField app5 = some app6 := by
    refine foldlM_fieldUnless (fun hskip => ?_) fun hskip => ?_
    · obtain ⟨delay, rfl⟩ := Option.isSome_iff_exists.1 (Option.isNone_eq_false_iff.1 hskip)
      exact readField_restartDelay delay
    · obtain rfl := Option.isNone_iff_eq_none.1 hskip
      rfl
  have h7 : (fieldUnless app.maxMemory.isNone "max_memory"
      (.string (MemSize.mk (UInt64.ofNat (app.maxMemory.getD 0))).display.toList)).foldlM readField
      app6 = some app7 := by
    refine foldlM_fieldUnless (fun hskip => ?_) fun hskip => ?_
    · obtain ⟨n, hn⟩ := Option.isSome_iff_exists.1 (Option.isNone_eq_false_iff.1 hskip)
      simp only [app7, hn]
      exact readField_maxMemory (hmemory n hn)
    · simp only [app7, Option.isNone_iff_eq_none.1 hskip]
      rfl
  have h8 : (fieldUnless (!app.mergeLogs) "merge_logs" (.boolean app.mergeLogs)).foldlM readField
      app7 = some app8 := by
    refine foldlM_fieldUnless (fun _ => rfl) fun hskip => ?_
    have hlogs : app.mergeLogs = false := by simpa using hskip
    simp only [app8, hlogs]
    rfl
  have h9 : (fieldUnless (!false) "reuse_port" (.boolean false)).foldlM readField app8 =
      some app8 := foldlM_fieldUnless (fun hskip => nomatch hskip) fun _ => rfl
  have h10 : (fieldUnless app.env.isEmpty "env" (.table app.env.toList)).foldlM readField app8 =
      some app9 := by
    refine foldlM_fieldUnless (fun _ => readField_env henv) fun hskip => ?_
    simp only [app9, Std.ExtTreeMap.isEmpty_iff.1 hskip]
    rfl
  have hlast : app9 = app := happ.symm
  have h5' := foldlM_then (foldlM_then (foldlM_then (foldlM_then (foldlM_then h0 h1) h2) h3) h4) h5
  have h9' := foldlM_then (foldlM_then (foldlM_then (foldlM_then h5' h6) h7) h8) h9
  exact hlast ▸ foldlM_then h9' h10

/-- **The Flockfile of some apps is read back as them**, if there are any. -/
theorem parseFlockfile_flockfile {toml : Toml} {apps : List (App Others)}
    (htoml : toml.read (toml.print (document apps)) = some (document apps))
    (h : ∀ app ∈ apps, Written defaults app) :
    parseFlockfile toml defaults (flockfile toml apps) =
      if apps.isEmpty then .error .noApps else .ok apps := by
  have hread : (document apps).mapM (fun table => table.foldlM readField (minimal defaults [] [])) =
      some apps := by
    unfold document
    clear htoml
    induction apps with
    | nil => rfl
    | cons app apps ih =>
      rw [List.map_cons, List.mapM_cons, foldlM_rendered (h app List.mem_cons_self),
        ih fun other hin => h other (List.mem_cons_of_mem _ hin)]
      rfl
  have hsandbox : apps.find? (fun app => app.sandbox.isSome) = none := by
    refine List.find?_eq_none.2 fun app hin => ?_
    obtain ⟨interpreter, autorestart, restartDelay, happ⟩ := (h app hin).mapped
    rw [happ]
    simp [minimal]
  unfold parseFlockfile flockfile
  simp only [htoml, hread, hsandbox]

end Pm2

end Shep

/-!
## What an import preserves

An import keeps what the apps ran with if no env value and no argument of a
leading row holds `{{` or `}}}}`, for the dump's texts are put where a
Flockfile has templates (**`import_preserves`**). Where a text does, it is
refused on import or an instance is given another one: `world_refused` is a
dump refused for an argument that says `{{world}}`. `Holdable` is what a
Flockfile can hold of a dump apart from these texts.
-/

namespace Shep

namespace Pm2

open Template (Text Inert BraceFree)
open Normalize
open Secrets (SecretView)

variable {Others : Type} {m : Machine Others} {toml : Toml} {rows : List DumpRow} {row : DumpRow}
  {name : Text} {group : Group} {key : String} {text : Text} {app : App Others}

/-! ## What the apps ran with -/

/-- The value a row declares a key with: the one the process has, or else
the one of the declaration. -/
def dumpText (row : DumpRow) (key : String) : Option Text :=
  (declaredUnion row.declared)[key]?.map fun declared => row.env[key]?.getD declared

/-- An argument of the row, or a declared value. -/
def Carries (row : DumpRow) (text : Text) : Prop :=
  text ∈ row.args ∨ ∃ key, dumpText row key = some text

/-- Every instance of the app is given the text for the value. -/
def RendersTo (app : App Others) (value text : Text) : Prop :=
  ∀ inst < app.instances, ∀ (shepHome : Option Text) (view : SecretView),
    Template.render value app.name inst shepHome view = .ok text

/-- The instances of the app run with what the row did. -/
structure Runs (row : DumpRow) (app : App Others) : Prop where
  env : ∀ key text, dumpText row key = some text →
    ∃ value, app.env[key]? = some value ∧ RendersTo app value text
  args : List.Forall₂ (RendersTo app) app.args row.args

/-- What a pm2 import is to keep. -/
def Preserved (m : Machine Others) (toml : Toml) (rows : List DumpRow) : Prop :=
  ∃ imported, convert m rows = .ok imported ∧
    parseFlockfile toml m.defaults (flockfile toml imported.apps) = .ok imported.apps ∧
    (imported.apps.map AppConfig.name).Nodup ∧
    (∀ name, name ∈ imported.apps.map AppConfig.name ↔ name ∈ rows.map DumpRow.name) ∧
    (∀ app ∈ imported.apps, app.instances = (namedRows app.name rows).length) ∧
    ∀ app ∈ imported.apps, ∀ row, (namedRows app.name rows).head? = some row → Runs row app

/-! ## What a Flockfile can hold -/

/-- A row with the texts of its env values and arguments left out. -/
def DumpRow.blank (row : DumpRow) : DumpRow :=
  { row with
    args := row.args.map fun _ => []
    env := row.env.map fun _ _ => []
    declared := row.declared.map fun _ block => block.map fun _ _ => [] }

/-- The rows' fields are ones a Flockfile can hold: without the texts the
dump converts, the rows of a name can be counted, and no app's env is one
that TOML has for a date. -/
structure Holdable (m : Machine Others) (rows : List DumpRow) : Prop where
  converts : ∃ imported, convert m (rows.map DumpRow.blank) = .ok imported
  counts : ∀ name, (namedRows name rows).length < 2 ^ 32
  env : ∀ row, Leads rows row →
    (appEnvOf row).toList.head?.map Prod.fst ≠ some tomlPrivateDatetimeKey

/-- The TOML backend reads the Flockfile of the import as it was written. -/
def Faithful (m : Machine Others) (toml : Toml) (rows : List DumpRow) : Prop :=
  ∀ imported, convert m rows = .ok imported →
    toml.read (toml.print (document imported.apps)) = some (document imported.apps)

/-! ## The env of an app -/

theorem get_split_env (row : DumpRow) (key : String) :
    (split row).env[key]? = dumpText row key := by
  unfold split dumpText
  simp only [Std.ExtTreeMap.getElem?_map]

theorem instanceVar_eq_some {var : String} (h : (split row).instanceVar = some var) :
    var = pm2InstanceVar ∧ (declaredUnion row.declared).contains pm2InstanceVar = false := by
  unfold split at h
  simp only at h
  split at h
  · next hc =>
    rw [Bool.and_eq_true, Bool.not_eq_true'] at hc
    exact ⟨(Option.some.inj h).symm, hc.2⟩
  · cases h

/-- The env of an app has the declared texts, and the template of the
instance under a key that is not declared. -/
theorem get_appEnvOf (h : (appEnvOf row)[key]? = some text) :
    dumpText row key = some text ∨ text = instanceTemplate := by
  unfold appEnvOf at h
  split at h
  · rw [Table.get_insert] at h
    split at h
    · exact Or.inr (Option.some.inj h).symm
    · exact Or.inl (get_split_env row key ▸ h)
  · exact Or.inl (get_split_env row key ▸ h)

theorem get_appEnvOf_of_dumpText (h : dumpText row key = some text) :
    (appEnvOf row)[key]? = some text := by
  unfold appEnvOf
  split
  · next var hvar =>
    obtain ⟨rfl, hout⟩ := instanceVar_eq_some hvar
    rw [Table.get_insert, if_neg, get_split_env, h]
    rintro rfl
    unfold dumpText at h
    obtain ⟨declared, hdeclared, -⟩ := Option.map_eq_some_iff.1 h
    rw [Std.ExtTreeMap.contains_eq_isSome_getElem?, hdeclared] at hout
    cases hout
  · rw [get_split_env, h]

/-! ## Without the texts -/

theorem contains_foldl_insert (pairs : List (String × Text)) (m : Std.ExtTreeMap String Text) :
    (pairs.foldl (fun m pair => m.insert pair.1 pair.2) m).contains key =
      (m.contains key || (pairs.map Prod.fst).contains key) := by
  induction pairs generalizing m with
  | nil => simp
  | cons pair pairs ih =>
    rw [List.foldl_cons, ih, List.map_cons, List.contains_cons,
      Std.ExtTreeMap.contains_eq_isSome_getElem?, Std.ExtTreeMap.contains_eq_isSome_getElem?,
      Table.get_insert]
    by_cases h : key = pair.1
    · simp [h]
    · simp [h, beq_eq_false_iff_ne.2 h]

/-- The keys of a union are those of its tables. -/
theorem contains_declaredUnion (declared : Std.ExtTreeMap String (Std.ExtTreeMap String Text)) :
    (declaredUnion declared).contains key =
      declared.toList.any fun entry => (entry.2.toList.map Prod.fst).contains key := by
  have hall : ∀ (blocks : List (String × Std.ExtTreeMap String Text))
      (union : Std.ExtTreeMap String Text),
      (blocks.foldl (fun union entry =>
        entry.2.toList.foldl (fun union pair => union.insert pair.1 pair.2) union) union).contains
          key =
        (union.contains key ||
          blocks.any fun entry => (entry.2.toList.map Prod.fst).contains key) := by
    intro blocks
    induction blocks with
    | nil => simp
    | cons block blocks ih =>
      intro union
      rw [List.foldl_cons, ih, contains_foldl_insert, List.any_cons, Bool.or_assoc]
  unfold declaredUnion
  rw [hall]
  simp

theorem contains_declaredUnion_blank (row : DumpRow) :
    (declaredUnion row.blank.declared).contains key =
      (declaredUnion row.declared).contains key := by
  rw [contains_declaredUnion, contains_declaredUnion, DumpRow.blank]
  simp [Std.ExtTreeMap.toList_map, List.any_map, Function.comp_def]

theorem contains_appEnvOf_blank (row : DumpRow) :
    (appEnvOf row.blank).contains key = (appEnvOf row).contains key := by
  have hvar : (split row.blank).instanceVar = (split row).instanceVar := by
    unfold split
    simp only [contains_declaredUnion_blank]
    simp [DumpRow.blank]
  have henv : ∀ key : String,
      (split row.blank).env.contains key = (split row).env.contains key := by
    intro key
    unfold split
    simp only [Std.ExtTreeMap.contains_map, contains_declaredUnion_blank]
  unfold appEnvOf
  rw [hvar]
  cases (split row).instanceVar with
  | none => exact henv key
  | some var => simp only [Std.ExtTreeMap.contains_insert, henv]

def Group.blank (group : Group) : Group := ⟨group.first.blank, group.others.map DumpRow.blank⟩

theorem groupRow_blank (s : Groups) (row : DumpRow) :
    groupRow (s.1, s.2.map fun _ group => group.blank) row.blank =
      ((groupRow s row).1, (groupRow s row).2.map fun _ group => group.blank) := by
  have hname : row.blank.name = row.name := rfl
  have hinsert : ∀ (groups : Std.ExtTreeMap Text Group) (group : Group),
      (groups.map fun _ group => group.blank).insert row.name group.blank =
        (groups.insert row.name group).map fun _ group => group.blank := by
    intro groups group
    apply Std.ExtTreeMap.ext_getElem?
    intro name
    rw [Table.get_insert, Table.get_map, Table.get_map, Table.get_insert]
    split <;> rfl
  unfold groupRow
  rw [hname, Table.get_map]
  cases s.2[row.name]? with
  | none => exact congrArg _ (hinsert s.2 ⟨row, []⟩)
  | some group =>
    refine congrArg (Prod.mk _) (Eq.trans ?_ (hinsert s.2 ⟨group.first, group.others ++ [row]⟩))
    simp [Group.blank]

theorem groupRows_blank (rows : List DumpRow) : groupRows (rows.map DumpRow.blank) =
    ((groupRows rows).1, (groupRows rows).2.map fun _ group => group.blank) := by
  unfold groupRows
  induction rows using List.reverseRecOn with
  | nil =>
    refine congrArg (Prod.mk _) (Std.ExtTreeMap.ext_getElem? fun name => ?_)
    simp
  | append_singleton rows row ih =>
    rw [List.map_append, List.foldl_append, ih, List.foldl_append]
    exact groupRow_blank _ row

/-! ## Inert texts are kept -/

theorem validateTemplate_of_inert (h : Inert text) (field : String) (shepHome : Option Text) :
    validateTemplate name field shepHome text = .ok () := by
  have hreads := h.reads
  rw [Normalize.validateTemplate, hreads.validate]
  simp [Template.holdsShepHome, hreads.holdsToken, refuseIf]

theorem validateTemplate_instance (field : String) (shepHome : Option Text) :
    validateTemplate name field shepHome instanceTemplate = .ok () := by
  have hvalid : Template.validate instanceTemplate = .ok () := by decide
  have hhome : Template.holdsShepHome instanceTemplate = false := by decide
  rw [Normalize.validateTemplate, hvalid, hhome, Bool.and_false]
  rfl

theorem normalize_of_blank (h : ∀ text, Carries group.first text → Inert text)
    (hblank : ∃ app, m.normalize (groupApp m.defaults name group.blank) = .ok app) :
    ∃ app, m.normalize (groupApp m.defaults name group) = .ok app := by
  obtain ⟨app, happ⟩ := hblank
  have henv : validateEnv name m.shepHome (appEnvOf group.first) = .ok () := by
    refine validateEnv_eq_ok.2 fun key text hget => ?_
    rcases get_appEnvOf hget with hdump | rfl
    · exact validateTemplate_of_inert (h text (Or.inr ⟨key, hdump⟩)) _ _
    · exact validateTemplate_instance _ _
  have hargs : validateArgs name m.shepHome group.first.args = .ok () := by
    refine validateArgs_eq_ok.2 fun arg harg => ?_
    exact validateTemplate_of_inert (h arg.1 (Or.inl (List.fst_mem_of_mem_zipIdx harg))) _ _
  have hsame : { groupApp m.defaults name group.blank with
      env := appEnvOf group.first, args := group.first.args } =
      groupApp m.defaults name group := by
    unfold groupApp Group.instances Group.blank
    simp [DumpRow.blank]
  exact ⟨_, hsame ▸ normalize_texts happ (fun key => (contains_appEnvOf_blank _).symm) henv hargs⟩

theorem exists_convert_of_inert (hold : Holdable m rows)
    (h : ∀ row, Leads rows row → ∀ text, Carries row text → Inert text) :
    ∃ imported, convert m rows = .ok imported := by
  refine exists_convert fun name group hgroup => ?_
  refine normalize_of_blank (h _ (leads_first hgroup).1) ?_
  obtain ⟨imported, hconvert⟩ := hold.converts
  have hblank : (groupRows (rows.map DumpRow.blank)).2[name]? = some group.blank := by
    rw [groupRows_blank, Table.get_map, hgroup]
    rfl
  obtain ⟨app, -, happ⟩ := exists_resolved hconvert hblank
  exact ⟨app, happ⟩

/-! ## One app -/

theorem Resolves.spec (h : Resolves m (groupRows rows).2 name app) :
    ∃ group script cwd, (groupRows rows).2[name]? = some group ∧
      m.normalize (groupApp m.defaults name group) = .ok app ∧
      app = { groupApp m.defaults name group with script := script, cwd := cwd } := by
  obtain ⟨group, hgroup, happ⟩ := h
  obtain ⟨script, cwd, heq⟩ := normalize_groupApp happ
  exact ⟨group, script, cwd, hgroup, happ, heq⟩

theorem instances_eq (hold : Holdable m rows) (hgroup : (groupRows rows).2[name]? = some group) :
    group.instances = (namedRows name rows).length := by
  have hrows := ((grouped rows).listed _ _ hgroup).2
  have hlt := hold.counts name
  rw [← hrows] at hlt ⊢
  exact Nat.mod_eq_of_lt hlt

theorem Resolves.written (hold : Holdable m rows) (h : Resolves m (groupRows rows).2 name app) :
    Written m.defaults app := by
  obtain ⟨group, script, cwd, hgroup, -, rfl⟩ := h.spec
  refine ⟨⟨_, _, _, rfl⟩, Nat.mod_lt _ (by decide), ?_, hold.env _ (leads_first hgroup).1⟩
  intro n hn
  obtain ⟨bytes, -, rfl⟩ := Option.map_eq_some_iff.1 hn
  exact bytes.toNat_lt

theorem rendersTo_of_inert (h : Inert text) : RendersTo app text text :=
  fun inst _ shepHome view => h.reads.render app.name inst shepHome view

theorem runs_of_inert {script : Text} {cwd : Option Text}
    (h : ∀ text, Carries group.first text → Inert text) :
    Runs group.first { groupApp m.defaults name group with script := script, cwd := cwd } where
  env key text hdump := ⟨text, get_appEnvOf_of_dumpText hdump,
    rendersTo_of_inert (h text (Or.inr ⟨key, hdump⟩))⟩
  args := List.forall₂_same.2 fun text hin => rendersTo_of_inert (h text (Or.inl hin))

/-- What an app that keeps its row's texts has of them is inert. -/
theorem inert_of_runs {script : Text} {cwd : Option Text}
    (happ : m.normalize (groupApp m.defaults name group) = .ok app)
    (heq : app = { groupApp m.defaults name group with script := script, cwd := cwd })
    (hpos : 0 < group.instances) (hname : BraceFree name) (h : Runs group.first app) :
    ∀ text, Carries group.first text → Inert text := by
  obtain ⟨hwritten, -⟩ := normalizeWithHome_eq_ok.1 happ
  unfold checkWritten at hwritten
  rw [allOk_eq_ok] at hwritten
  simp only [List.forall_mem_cons] at hwritten
  obtain ⟨-, -, -, -, henv, hargs, -⟩ := hwritten
  have hinert : ∀ text field, validateTemplate name field m.shepHome text = .ok () →
      RendersTo app text text → Inert text := by
    intro text field hvalid hrenders
    have hrender := hrenders 0 (by rw [heq]; exact hpos) (some []) Template.emptyView
    rw [heq] at hrender
    exact Template.inert_of_render hname Template.bare_emptyView
      (Template.validate_eq_ok.2 (validateTemplate_eq_ok.1 hvalid).1) hrender
  rintro text (hin | ⟨key, hdump⟩)
  · obtain ⟨i, hi, rfl⟩ := List.mem_iff_getElem.1 hin
    have harg := validateArgs_eq_ok.1 hargs (group.first.args[i], i)
      (List.mem_zipIdx_iff_getElem?.2 (List.getElem?_eq_getElem hi))
    have hsame : app.args = group.first.args := by rw [heq]; rfl
    have hall := h.args
    rw [hsame] at hall
    exact hinert _ _ harg (hall.get hi hi)
  · obtain ⟨value, hvalue, hrenders⟩ := h.env key text hdump
    have hget := get_appEnvOf_of_dumpText hdump
    have hsame : app.env = appEnvOf group.first := by rw [heq]; rfl
    rw [hsame, hget] at hvalue
    obtain rfl := Option.some.inj hvalue
    exact hinert _ _ (validateEnv_eq_ok.1 henv key _ hget) hrenders

/-! ## The whole dump -/

theorem map_name_apps {imported : Imported Others} (h : convert m rows = .ok imported) :
    imported.apps.map AppConfig.name = (groupRows rows).1 := by
  have hall := convert_eq_ok h
  generalize (groupRows rows).1 = names at hall ⊢
  generalize imported.apps = apps at hall ⊢
  induction hall with
  | nil => rfl
  | cons hhead _ ih =>
    obtain ⟨group, script, cwd, -, -, rfl⟩ := hhead.spec
    rw [List.map_cons, ih]
    rfl

theorem exists_name_of_mem {imported : Imported Others} (h : convert m rows = .ok imported)
    (hin : app ∈ imported.apps) :
    Resolves m (groupRows rows).2 app.name app := by
  obtain ⟨i, hi, rfl⟩ := List.mem_iff_getElem.1 hin
  have hall := convert_eq_ok h
  have hresolves := hall.get (hall.length_eq ▸ hi) hi
  obtain ⟨group, script, cwd, -, -, heq⟩ := hresolves.spec
  have hname : imported.apps[i].name = (groupRows rows).1.get ⟨i, hall.length_eq ▸ hi⟩ := by
    rw [List.get_eq_getElem] at heq
    rw [heq]
    rfl
  rw [hname]
  exact hresolves

theorem preserved_of_inert (hold : Holdable m rows) (htoml : Faithful m toml rows)
    (hne : rows ≠ []) (h : ∀ row, Leads rows row → ∀ text, Carries row text → Inert text) :
    Preserved m toml rows := by
  obtain ⟨imported, hconvert⟩ := exists_convert_of_inert hold h
  have hnames := map_name_apps hconvert
  have hgrouped := grouped rows
  refine ⟨imported, hconvert, ?_, ?_, ?_, ?_, ?_⟩
  · rw [parseFlockfile_flockfile (htoml imported hconvert) fun app hin =>
      (exists_name_of_mem hconvert hin).written hold, if_neg]
    intro hempty
    obtain ⟨row, hrow⟩ := List.exists_mem_of_ne_nil rows hne
    have hin := (hgrouped.names row.name).2 (List.mem_map.2 ⟨row, hrow, rfl⟩)
    rw [← hnames, List.isEmpty_iff.1 hempty] at hin
    exact absurd hin List.not_mem_nil
  · rw [hnames]
    exact hgrouped.nodup
  · rw [hnames]
    exact hgrouped.names
  · intro app hin
    obtain ⟨group, script, cwd, hgroup, -, heq⟩ := (exists_name_of_mem hconvert hin).spec
    rw [← instances_eq hold hgroup]
    exact congrArg AppConfig.instances heq
  · intro app hin row hrow
    obtain ⟨group, script, cwd, hgroup, -, heq⟩ := (exists_name_of_mem hconvert hin).spec
    obtain rfl : group.first = row := by
      rw [← (hgrouped.listed _ _ hgroup).2] at hrow
      exact Option.some.inj hrow
    rw [heq]
    exact runs_of_inert (h _ (leads_first hgroup).1)

theorem inert_of_preserved (hold : Holdable m rows) (h : Preserved m toml rows)
    (hlead : Leads rows row) (hname : BraceFree row.name) :
    ∀ text, Carries row text → Inert text := by
  obtain ⟨imported, hconvert, -, -, -, -, hruns⟩ := h
  obtain ⟨group, hgroup, rfl⟩ := hlead.exists_group
  obtain ⟨app, hin, happ⟩ := exists_resolved hconvert hgroup
  obtain ⟨script, cwd, heq⟩ := normalize_groupApp happ
  have hpos : 0 < group.instances := by
    rw [instances_eq hold hgroup, ← ((grouped rows).listed _ _ hgroup).2]
    exact Nat.succ_pos _
  have happname : app.name = group.first.name := congrArg AppConfig.name heq
  exact inert_of_runs happ heq hpos hname (hruns app hin _ (happname ▸ hlead))

theorem ne_nil_of_preserved (htoml : Faithful m toml rows) (h : Preserved m toml rows) :
    rows ≠ [] := by
  rintro rfl
  obtain ⟨imported, hconvert, hparse, -⟩ := h
  obtain rfl : ⟨[], []⟩ = imported := Except.ok.inj hconvert
  rw [parseFlockfile_flockfile (htoml _ hconvert) fun app hin => absurd hin List.not_mem_nil]
    at hparse
  cases hparse

/-- **A pm2 import preserves what the apps ran with** where no env value and
no argument of a leading row holds `{{` or `}}}}`, and nowhere else: a name
without braces cannot make up for what an escape or a token costs. A dump
without rows makes a Flockfile without apps, which is refused. -/
theorem import_preserves (m : Machine Others) (toml : Toml) (rows : List DumpRow)
    (hold : Holdable m rows) (htoml : Faithful m toml rows) :
    ((rows ≠ [] ∧ ∀ row, Leads rows row → ∀ text, Carries row text → Inert text) →
      Preserved m toml rows) ∧
    (Preserved m toml rows →
      rows ≠ [] ∧ ∀ row, Leads rows row → BraceFree row.name →
        ∀ text, Carries row text → Inert text) :=
  ⟨fun h => preserved_of_inert hold htoml h.1 h.2, fun h => ⟨ne_nil_of_preserved htoml h,
    fun _ hlead hname => inert_of_preserved hold h hlead hname⟩⟩

/-! ## Two dumps -/

/-- A machine without homes, on which no import has anything to parse. -/
def bareMachine : Machine Unit where
  grammars :=
    { cron := fun _ _ => .ok ()
      timezone := fun _ => true
      glob := fun _ => none
      regex := fun _ => none
      address := fun _ => none
      enforceable := fun _ => true
      linux := true }
  home := none
  shepHome := none
  defaults := ()

/-- A row with one argument. -/
def argRow (arg : Text) : DumpRow where
  name := "web".toList
  pmExecPath := "./srv".toList
  args := [arg]

/-- TOML, of the Flockfile of such a row. -/
def argToml (arg : Text) : Toml where
  print _ := "[[app]]\nname = \"web\"\nscript = \"./srv\"\nargs = [\"".toList ++ arg ++
    "\"]\n".toList
  read _ := some [[("name", .string "web".toList), ("script", .string "./srv".toList),
    ("args", .array [arg])]]

theorem holdable_argRow (arg : Text) : Holdable bareMachine [argRow arg] where
  converts := ⟨_, rfl⟩
  counts name := Nat.lt_of_le_of_lt (List.length_filter_le _ _) (Nat.one_lt_two_pow (by decide))
  env row h := by
    obtain rfl := List.mem_singleton.1 (List.mem_filter.1 (List.mem_of_head? h)).1
    exact nofun

/-- A dump whose one argument is a flag is preserved. -/
theorem import_preserves_flag :
    Preserved bareMachine (argToml "-v".toList) [argRow "-v".toList] := by
  have htoml : Faithful bareMachine (argToml "-v".toList) [argRow "-v".toList] := by
    intro imported h
    obtain rfl := Except.ok.inj h
    rfl
  refine (import_preserves bareMachine (argToml "-v".toList) [argRow "-v".toList]
    (holdable_argRow _) htoml).1 ⟨List.cons_ne_nil _ _, ?_⟩
  intro row hlead text hcarries
  obtain rfl := List.mem_singleton.1 (List.mem_filter.1 (List.mem_of_head? hlead)).1
  rcases hcarries with hin | ⟨key, hdump⟩
  · obtain rfl := List.mem_singleton.1 hin
    decide
  · cases hdump

/-- An argument that is no template. -/
def worldArg : Text := "\x7b\x7bworld\x7d\x7d".toList

/-- A dump is refused for the text of an argument. -/
theorem world_refused :
    Holdable bareMachine [argRow worldArg] ∧
    Faithful bareMachine (argToml worldArg) [argRow worldArg] ∧
    (∃ reason, convert bareMachine [argRow worldArg] = .error ⟨"web".toList, reason⟩ ∧
      reason = .badTemplate "web".toList "args[0]" (.unknownToken "world".toList)) ∧
    ¬ Preserved bareMachine (argToml worldArg) [argRow worldArg] := by
  have hrefused : convert bareMachine [argRow worldArg] = .error ⟨"web".toList,
      .badTemplate "web".toList "args[0]" (.unknownToken "world".toList)⟩ := rfl
  refine ⟨holdable_argRow _, ?_, ⟨_, hrefused, rfl⟩, ?_⟩
  · intro imported h
    rw [hrefused] at h
    cases h
  · rintro ⟨imported, h, -⟩
    rw [hrefused] at h
    cases h

end Pm2

end Shep

import Shep.Common.Table
import Shep.Normalize.Stable
import Shep.Pm2.Model

/-!
# Pm2 — what a conversion makes of the rows

The groups are the rows of each name, wherever they stand (`Grouped`), and a
conversion that succeeds has one app a group, normalized
(`convert_eq_ok`, `exists_convert`). Of the rows' texts, `normalize` reads
the templates only: `normalize_texts` puts other texts into an app it takes.
-/

namespace Shep

namespace Pm2

open Template (Text)
open Normalize

variable {Others : Type} {m : Machine Others} {rows : List DumpRow} {row : DumpRow}
  {name : Text} {s : Groups} {group : Group} {key : String} {text : Text}

/-! ## Groups -/

/-- The rows of a name. -/
def namedRows (name : Text) (rows : List DumpRow) : List DumpRow :=
  rows.filter fun row => row.name == name

def Group.all (group : Group) : List DumpRow := group.first :: group.others

/-- The names are those of the rows, each once, with the rows they name. -/
structure Grouped (rows : List DumpRow) (s : Groups) : Prop where
  nodup : s.1.Nodup
  names : ∀ name, name ∈ s.1 ↔ name ∈ rows.map DumpRow.name
  found : ∀ name, name ∈ s.1 → ∃ group, s.2[name]? = some group
  listed : ∀ name group, s.2[name]? = some group → name ∈ s.1 ∧ group.all = namedRows name rows

theorem namedRows_snoc (name : Text) (rows : List DumpRow) (row : DumpRow) :
    namedRows name (rows ++ [row]) =
      if row.name = name then namedRows name rows ++ [row] else namedRows name rows := by
  unfold namedRows
  rw [List.filter_append]
  by_cases h : row.name = name <;> simp [h]

theorem Grouped.groupRow (h : Grouped rows s) (row : DumpRow) :
    Grouped (rows ++ [row]) (groupRow s row) := by
  unfold Pm2.groupRow
  cases hget : s.2[row.name]? with
  | some group =>
    obtain ⟨hin, hrows⟩ := h.listed _ _ hget
    refine ⟨h.nodup, fun name => ?_, fun name hname => ?_, fun name other hother => ?_⟩
    · rw [h.names, List.map_append, List.mem_append, List.map_singleton, List.mem_singleton]
      exact ⟨Or.inl, fun hor => hor.elim id fun e => e ▸ (h.names _).1 hin⟩
    · rw [Table.get_insert]
      split
      · exact ⟨_, rfl⟩
      · exact h.found name hname
    · rw [Table.get_insert] at hother
      rw [namedRows_snoc]
      split at hother
      · next e =>
        obtain rfl := Option.some.inj hother
        rw [if_pos e.symm, e, ← hrows]
        exact ⟨hin, rfl⟩
      · next e =>
        rw [if_neg fun e' => e e'.symm]
        exact h.listed name other hother
  | none =>
    have hout : row.name ∉ s.1 := by
      intro hin
      obtain ⟨group, hgroup⟩ := h.found _ hin
      rw [hget] at hgroup
      cases hgroup
    have hnone : namedRows row.name rows = [] := by
      refine List.filter_eq_nil_iff.2 fun other hother he => hout ?_
      exact (h.names _).2 (List.mem_map.2 ⟨other, hother, eq_of_beq he⟩)
    refine ⟨?_, fun name => ?_, fun name hname => ?_, fun name other hother => ?_⟩
    · rw [List.nodup_append']
      exact ⟨h.nodup, List.nodup_singleton _, List.disjoint_singleton.2 hout⟩
    · rw [List.mem_append, h.names, List.map_append, List.mem_append]
      rfl
    · rw [Table.get_insert]
      split
      · exact ⟨_, rfl⟩
      · next e =>
        refine h.found name ?_
        rw [List.mem_append, List.mem_singleton] at hname
        exact hname.resolve_right e
    · rw [Table.get_insert] at hother
      rw [namedRows_snoc]
      split at hother
      · next e =>
        obtain rfl := Option.some.inj hother
        rw [if_pos e.symm, e, hnone]
        exact ⟨List.mem_append_right _ List.mem_cons_self, rfl⟩
      · next e =>
        rw [if_neg fun e' => e e'.symm]
        obtain ⟨hin, hrows⟩ := h.listed name other hother
        exact ⟨List.mem_append_left _ hin, hrows⟩

/-- **The groups are the rows of each name.** -/
theorem grouped (rows : List DumpRow) : Grouped rows (groupRows rows) := by
  unfold groupRows
  induction rows using List.reverseRecOn with
  | nil =>
    refine ⟨List.nodup_nil, fun name => Iff.rfl, fun name h => absurd h List.not_mem_nil, ?_⟩
    intro name group h
    simp at h
  | append_singleton rows row ih =>
    rw [List.foldl_append]
    exact ih.groupRow row

/-- The row an app is made of: the first of its name. -/
def Leads (rows : List DumpRow) (row : DumpRow) : Prop := (namedRows row.name rows).head? = some row

theorem leads_first (h : (groupRows rows).2[name]? = some group) :
    Leads rows group.first ∧ group.first.name = name := by
  obtain ⟨-, hrows⟩ := (grouped rows).listed _ _ h
  have hin : group.first ∈ namedRows name rows := by
    rw [← hrows]
    exact List.mem_cons_self
  have hname : group.first.name = name := eq_of_beq (List.mem_filter.1 hin).2
  refine ⟨?_, hname⟩
  rw [Leads, hname, ← hrows]
  rfl

theorem Leads.exists_group (h : Leads rows row) :
    ∃ group, (groupRows rows).2[row.name]? = some group ∧ group.first = row := by
  have hin : row ∈ rows := (List.mem_filter.1 (List.mem_of_head? h)).1
  obtain ⟨group, hgroup⟩ := (grouped rows).found _
    (((grouped rows).names _).2 (List.mem_map.2 ⟨row, hin, rfl⟩))
  refine ⟨group, hgroup, ?_⟩
  rw [Leads, ← ((grouped rows).listed _ _ hgroup).2] at h
  exact Option.some.inj h

/-! ## Converting -/

/-- The app is what `normalize` makes of a name's group. -/
def Resolves (m : Machine Others) (groups : Std.ExtTreeMap Text Group) (name : Text)
    (app : App Others) : Prop :=
  ∃ group, groups[name]? = some group ∧ m.normalize (groupApp m.defaults name group) = .ok app

theorem convertName_eq_ok {groups : Std.ExtTreeMap Text Group}
    {imported imported' : Imported Others} (hget : groups[name]? = some group) : convertName m groups imported name = .ok imported' ↔
      ∃ app, m.normalize (groupApp m.defaults name group) = .ok app ∧
        imported' = ⟨imported.apps ++ [app], imported.notes ++ groupNotes name group⟩ := by
  unfold convertName convertGroup
  rw [hget]
  dsimp only
  cases m.normalize (groupApp m.defaults name group) with
  | error err => simp
  | ok app => simp [eq_comm]

theorem foldlM_convertName {groups : Std.ExtTreeMap Text Group} {names : List Text}
    (hnames : ∀ name ∈ names, ∃ group, groups[name]? = some group)
    {imported imported' : Imported Others}
    (h : names.foldlM (convertName m groups) imported = .ok imported') :
    ∃ apps, imported'.apps = imported.apps ++ apps ∧
      List.Forall₂ (Resolves m groups) names apps := by
  induction names generalizing imported with
  | nil =>
    obtain rfl := Except.ok.inj h
    exact ⟨[], (List.append_nil _).symm, .nil⟩
  | cons name names ih =>
    obtain ⟨group, hgroup⟩ := hnames name List.mem_cons_self
    rw [List.foldlM_cons] at h
    cases hstep : convertName m groups imported name with
    | error err =>
      rw [hstep] at h
      cases h
    | ok next =>
      rw [hstep] at h
      obtain ⟨app, happ, rfl⟩ := (convertName_eq_ok hgroup).1 hstep
      obtain ⟨apps, happs, hall⟩ := ih (fun n hn => hnames n (List.mem_cons_of_mem _ hn)) h
      exact ⟨app :: apps, by rw [happs, List.append_assoc]; rfl, .cons ⟨group, hgroup, happ⟩ hall⟩

theorem convert_eq_ok {imported : Imported Others} (h : convert m rows = .ok imported) :
    List.Forall₂ (Resolves m (groupRows rows).2) (groupRows rows).1 imported.apps := by
  obtain ⟨apps, happs, hall⟩ := foldlM_convertName (grouped rows).found h
  rw [happs]
  exact hall

/-- And succeeds if every app normalizes. -/
theorem exists_convert
    (h : ∀ name group, (groupRows rows).2[name]? = some group →
      ∃ app, m.normalize (groupApp m.defaults name group) = .ok app) :
    ∃ imported, convert m rows = .ok imported := by
  have hall : ∀ names : List Text,
      (∀ name ∈ names, ∃ group, (groupRows rows).2[name]? = some group) →
      ∀ imported : Imported Others,
        ∃ imported', names.foldlM (convertName m (groupRows rows).2) imported = .ok imported' := by
    intro names hnames
    induction names with
    | nil => exact fun imported => ⟨imported, rfl⟩
    | cons name names ih =>
      intro imported
      obtain ⟨group, hgroup⟩ := hnames name List.mem_cons_self
      obtain ⟨app, happ⟩ := h name group hgroup
      have hstep : convertName m (groupRows rows).2 imported name = .ok
          ⟨imported.apps ++ [app], imported.notes ++ groupNotes name group⟩ :=
        (convertName_eq_ok hgroup).2 ⟨app, happ, rfl⟩
      rw [List.foldlM_cons, hstep]
      exact ih (fun n hn => hnames n (List.mem_cons_of_mem _ hn)) _
  exact hall _ (grouped rows).found _

theorem exists_resolved {imported : Imported Others} (h : convert m rows = .ok imported)
    (hgroup : (groupRows rows).2[name]? = some group) :
    ∃ app ∈ imported.apps, m.normalize (groupApp m.defaults name group) = .ok app := by
  obtain ⟨i, hi, hname⟩ := List.mem_iff_getElem.1 ((grouped rows).listed _ _ hgroup).1
  have hall := convert_eq_ok h
  have hlen := hall.length_eq
  obtain ⟨other, hother, happ⟩ := hall.get hi (hlen ▸ hi)
  rw [List.get_eq_getElem, hname, hgroup] at hother
  obtain rfl := Option.some.inj hother
  rw [List.get_eq_getElem, hname] at happ
  exact ⟨_, List.getElem_mem _, happ⟩

/-! ## Normalizing -/

theorem normalize_groupApp {app : App Others}
    (h : m.normalize (groupApp m.defaults name group) = .ok app) :
    ∃ script cwd, app = { groupApp m.defaults name group with script := script, cwd := cwd } := by
  obtain ⟨-, expanded, hpaths, -, dependsOn, hdedup, rfl⟩ := normalizeWithHome_eq_ok.1 h
  obtain ⟨script, cwd, outFile, errFile, -, -, hout, herr, rfl⟩ := expandPaths_eq_ok.1 hpaths
  obtain rfl : none = outFile := Except.ok.inj hout
  obtain rfl : none = errFile := Except.ok.inj herr
  obtain rfl : [] = dependsOn := Except.ok.inj hdedup
  exact ⟨script, cwd, rfl⟩

theorem validateEnv_eq_ok {shepHome : Option Text} {env : Std.ExtTreeMap String Text} :
    validateEnv name shepHome env = .ok () ↔ ∀ (key : String) (text : Text), env[key]? = some text →
      validateTemplate name ("env." ++ key) shepHome text = .ok () := by
  unfold validateEnv
  rw [allOk_eq_ok]
  constructor
  · intro h key text hget
    exact h _ (List.mem_map.2 ⟨(key, text), Table.mem_toList.2 hget, rfl⟩)
  · intro h check hcheck
    obtain ⟨⟨key, text⟩, hin, rfl⟩ := List.mem_map.1 hcheck
    exact h key text (Table.mem_toList.1 hin)

theorem validateArgs_eq_ok {shepHome : Option Text} {args : List Text} :
    validateArgs name shepHome args = .ok () ↔ ∀ arg ∈ args.zipIdx,
      validateTemplate name ("args[" ++ arg.2.repr ++ "]") shepHome arg.1 = .ok () := by
  unfold validateArgs
  rw [allOk_eq_ok, List.forall_mem_map]

/-- An app that is accepted is accepted with other texts under the same
keys, if the texts are. -/
theorem normalize_texts {app app' : App Others} (h : m.normalize app = .ok app')
    {env : Std.ExtTreeMap String Text} {args : List Text}
    (hkeys : ∀ key : String, env.contains key = app.env.contains key)
    (henv : validateEnv app.name m.shepHome env = .ok ())
    (hargs : validateArgs app.name m.shepHome args = .ok ()) :
    m.normalize { app with env := env, args := args } =
      .ok { app' with env := env, args := args } := by
  obtain ⟨hwritten, expanded, hpaths, hexpanded, dependsOn, hdedup, rfl⟩ :=
    normalizeWithHome_eq_ok.1 h
  obtain ⟨script, cwd, outFile, errFile, hscript, hcwd, hout, herr, rfl⟩ :=
    expandPaths_eq_ok.1 hpaths
  refine normalizeWithHome_eq_ok.2 ⟨?_, _,
    expandPaths_eq_ok.2 ⟨script, cwd, outFile, errFile, hscript, hcwd, hout, herr, rfl⟩,
    hexpanded, dependsOn, hdedup, rfl⟩
  have hreserved : validateReserved app.name env = validateReserved app.name app.env := by
    unfold validateReserved
    simp only [hkeys]
  unfold checkWritten at hwritten ⊢
  rw [allOk_eq_ok] at hwritten ⊢
  simp only [List.forall_mem_cons] at hwritten ⊢
  obtain ⟨hname, hsandbox, henvironment, hreserved', -, -, hlogs⟩ := hwritten
  exact ⟨hname, hsandbox, henvironment, hreserved ▸ hreserved', henv, hargs, hlogs⟩

end Pm2

end Shep

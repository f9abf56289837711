import Shep.Copy.Model

/-!
# Copy — what a merge leaves at each path

Of a nest, what stands at every path says everything. Both ways of merging
are read off so: at and below an except the target stands, elsewhere the
source, and where the source says nothing the two ways part.
-/

namespace Shep

namespace Copy

open Nest (look shape Shape)

variable {α : Type} {v w s out : Value α} {t : Option (Value α)} {E : List (List Key)}
variable {e p q : List Key} {k : Key}

/-- A path at or below one of these. -/
def Under (E : List (List Key)) (p : List Key) : Prop := ∃ e ∈ E, e <+: p

/-- No leaf stands at a path or above it. -/
def Open (o : Option (Value α)) (p : List Key) : Prop :=
  ∀ q, q <+: p → ∀ a, shape (look o q) ≠ .leaf a

/-- An except the source has tables for. -/
def Passes (s : Value α) (e : List Key) : Prop := e ≠ [] ∧ Open (some s) e.dropLast

/-! ## Paths -/

theorem prefix_cons_iff {j : Key} : j :: q <+: k :: p ↔ j = k ∧ q <+: p := by
  rw [List.cons_prefix_cons]

theorem prefix_dropLast (h : q <+: e) (hne : q ≠ e) : q <+: e.dropLast := by
  obtain ⟨rest, rfl⟩ := h
  have hrest : rest ≠ [] := fun heq => hne (by rw [heq, List.append_nil])
  rw [List.dropLast_append_of_ne_nil hrest]
  exact List.prefix_append _ _

theorem table_above {o : Option (Value α)} (h : q <+: p) (hne : q ≠ p) (hp : look o p ≠ none) :
    shape (look o q) = .table := by
  obtain ⟨rest, rfl⟩ := h
  exact Nest.shape_above (fun heq => hne (by rw [heq, List.append_nil])) hp

theorem look_none_below {o : Option (Value α)} (h : q <+: p) (hq : look o q = none) :
    look o p = none := by
  obtain ⟨rest, rfl⟩ := h
  rw [Nest.look_append, hq, Nest.look_none]

theorem Open.mono {o : Option (Value α)} (h : Open o p) (hq : q <+: p) : Open o q :=
  fun r hr => h r (hr.trans hq)

theorem open_of_look {o : Option (Value α)} (h : look o p ≠ none)
    (hp : ∀ a, shape (look o p) ≠ .leaf a) : Open o p := by
  intro q hq a
  by_cases hne : q = p
  · rw [hne]
    exact hp a
  · rw [table_above hq hne h]
    exact fun heq => by cases heq

theorem open_cons : Open (some s) (k :: p) ↔
    s.isTable = true ∧ Open (s.get k) p := by
  constructor
  · intro h
    refine ⟨?_, fun q hq => h (k :: q) (prefix_cons_iff.2 ⟨rfl, hq⟩)⟩
    cases s with
    | leaf b => exact absurd rfl (h [] List.nil_prefix b)
    | table names entries => rfl
  · rintro ⟨htable, h⟩ q hq b
    cases q with
    | nil =>
      rw [Nest.look_nil, Nest.shape_table htable]
      exact fun heq => by cases heq
    | cons j q =>
      obtain ⟨rfl, hbelow⟩ := prefix_cons_iff.1 hq
      exact h q hbelow b

/-! ## Writing -/

theorem shape_insert (v w : Value α) (k : Key) (p : List Key) :
    shape ((v.insert k w).walk (k :: p)) = shape (w.walk p) := by
  rw [Nest.walk_cons, Nest.get_insert, if_pos rfl, Nest.look_some]

theorem shape_insert_ne {j : Key} (h : j ≠ k) (v w : Value α) (p : List Key) :
    (v.insert k w).walk (j :: p) = v.walk (j :: p) := by
  rw [Nest.walk_cons, Nest.get_insert, if_neg h, Nest.walk_cons]

/-- What a write leaves at each path: the value, tables above it, and the
rest as it was. -/
theorem shape_write_at {held : String} (h : write_at v e held w = .ok out) (p : List Key) :
    shape (out.walk p) = if e <+: p then shape (w.walk (p.drop e.length))
      else if p <+: e then .table else shape (v.walk p) := by
  induction e generalizing v held out p with
  | nil =>
    obtain rfl := Except.ok.inj h
    rw [if_pos List.nil_prefix]
    rfl
  | cons k e ih =>
    cases v with
    | leaf a => cases h
    | table names entries =>
      rw [write_at] at h
      cases hchild : write_at (((Nest.table names entries).get k).getD .empty) e
          (child_key held k) w with
      | error message => rw [hchild] at h; cases h
      | ok child =>
        rw [hchild] at h
        obtain rfl := Except.ok.inj h
        cases p with
        | nil => rw [if_neg (by simp), if_pos List.nil_prefix]; rfl
        | cons j p =>
          by_cases hj : j = k
          · subst hj
            rw [shape_insert, ih hchild]
            simp only [prefix_cons_iff, true_and, List.length_cons, List.drop_succ_cons]
            split_ifs with hbelow habove
            · rfl
            · rfl
            · rw [Nest.walk_cons]
              cases hget : (Nest.table names entries).get j with
              | some child => rfl
              | none =>
                cases p with
                | nil => exact absurd List.nil_prefix habove
                | cons i p => rfl
          · rw [shape_insert_ne hj, if_neg fun hpre => hj (prefix_cons_iff.1 hpre).1.symm,
              if_neg fun hpre => hj (prefix_cons_iff.1 hpre).1]

/-- A write goes through where no leaf stands above the path. -/
theorem write_at_ok (he : ∀ q, q <+: e → q ≠ e → ∀ a, shape (v.walk q) ≠ .leaf a)
    (held : String) (w : Value α) : ∃ out, write_at v e held w = .ok out := by
  induction e generalizing v held with
  | nil => exact ⟨w, by rw [write_at]⟩
  | cons k e ih =>
    cases v with
    | leaf a => exact absurd rfl (he [] List.nil_prefix (by simp) a)
    | table names entries =>
      obtain ⟨child, hchild⟩ := ih (v := ((Nest.table names entries).get k).getD .empty)
        (fun q hq hne a => by
          have hq' := he (k :: q) (prefix_cons_iff.2 ⟨rfl, hq⟩) (by simpa using hne) a
          rw [Nest.walk_cons] at hq'
          cases hget : (Nest.table names entries).get k with
          | some child => simpa [hget] using hq'
          | none =>
            cases q with
            | nil => exact fun heq => by cases heq
            | cons j q => exact fun heq => by cases heq) (child_key held k)
      exact ⟨_, by rw [write_at, hchild]; rfl⟩

/-- What a removal leaves at each path. -/
theorem shape_remove_path (he : e ≠ []) (v : Value α) (p : List Key) :
    shape ((remove_path v e).walk p) = if e <+: p then .absent else shape (v.walk p) := by
  induction e generalizing v p with
  | nil => exact absurd rfl he
  | cons k e ih =>
    cases v with
    | leaf a =>
      have hremove : remove_path (.leaf a : Value α) (k :: e) = .leaf a := by
        cases e <;> rfl
      rw [hremove]
      split_ifs with hpre
      · obtain ⟨rest, rfl⟩ := hpre
        rfl
      · rfl
    | table names entries =>
      cases p with
      | nil =>
        rw [if_neg (by simp)]
        cases e with
        | nil => rfl
        | cons next rest =>
          rw [remove_path]
          cases (Nest.table names entries).get k <;> rfl
      | cons j p =>
        cases e with
        | nil =>
          rw [remove_path, Nest.walk_cons, Nest.get_erase]
          by_cases hj : j = k
          · rw [if_pos hj, if_pos (prefix_cons_iff.2 ⟨hj.symm, List.nil_prefix⟩)]
            rfl
          · rw [if_neg hj, if_neg fun hpre => hj (prefix_cons_iff.1 hpre).1.symm, Nest.walk_cons]
        | cons next rest =>
          rw [remove_path]
          cases hget : (Nest.table names entries).get k with
          | none =>
            split_ifs with hpre
            · obtain ⟨rfl, -⟩ := prefix_cons_iff.1 hpre
              rw [Nest.walk_cons, hget]
              rfl
            · rfl
          | some child =>
            by_cases hj : j = k
            · subst hj
              dsimp only
              rw [shape_insert, ih (by simp), Nest.walk_cons, hget]
              simp only [prefix_cons_iff, true_and, Nest.look_some]
            · dsimp only
              rw [shape_insert_ne hj, if_neg fun hpre => hj (prefix_cons_iff.1 hpre).1.symm]

/-! ## Excepts -/

theorem mem_nested {rest : List Key} : rest ∈ nested_excepts E k ↔ k :: rest ∈ E := by
  unfold nested_excepts
  rw [List.mem_filterMap]
  constructor
  · rintro ⟨path, hpath, hrest⟩
    split_ifs at hrest with hhead
    obtain ⟨tail, rfl⟩ := List.head?_eq_some_iff.1 hhead
    rw [← Option.some.inj hrest]
    exact hpath
  · intro h
    exact ⟨k :: rest, h, by simp⟩

theorem not_under_nested (h : ¬ Under E (k :: p)) : ¬ Under (nested_excepts E k) p := by
  rintro ⟨e, he, hpre⟩
  exact h ⟨k :: e, mem_nested.1 he, prefix_cons_iff.2 ⟨rfl, hpre⟩⟩

theorem not_skipped (h : ¬ Under E (k :: p)) : [] ∉ nested_excepts E k := fun hmem =>
  h ⟨[k], mem_nested.1 hmem, prefix_cons_iff.2 ⟨rfl, List.nil_prefix⟩⟩

/-- The descent of an except ends at a table if and only if it is open. -/
theorem descend_isTable : (descend s p).2.isTable = true ↔ Open (some s) p := by
  induction p generalizing s with
  | nil =>
    constructor
    · intro h q hq a
      have htable : s.isTable = true := h
      rw [List.prefix_nil.1 hq, Nest.look_nil, Nest.shape_table htable]
      exact fun heq => by cases heq
    · intro h
      cases s with
      | leaf a => exact absurd rfl (h [] List.nil_prefix a)
      | table names entries => rfl
  | cons k p ih =>
    rw [open_cons, descend]
    cases hget : s.get k with
    | none =>
      refine ⟨fun h => ⟨h, fun q _ a => by simp⟩, fun h => h.1⟩
    | some child =>
      have htable : s.isTable = true := Nest.isTable_of_get hget
      exact ih.trans ⟨fun h => ⟨htable, h⟩, fun h => h.2⟩

theorem check_spec_ok {path : String} {spec : List Key} :
    check_spec s path spec = .ok () ↔ Passes s spec := by
  unfold check_spec Passes
  rw [← descend_isTable]
  split_ifs with hempty
  · simp [hempty]
  · dsimp only
    split_ifs with htable
    · simp [hempty, htable]
    · simp [htable]

theorem check_except_ok {path : String} :
    check_except s path E = .ok () ↔ ∀ e ∈ E, Passes s e := by
  unfold check_except
  induction E with
  | nil => exact ⟨fun _ => by simp, fun _ => rfl⟩
  | cons spec E ih =>
    have hstep : (spec :: E).forM (check_spec s path) =
        (check_spec s path spec >>= fun _ => E.forM (check_spec s path)) := rfl
    have hspecOk : check_spec s path spec = .ok () ↔ Passes s spec := check_spec_ok
    rw [hstep, List.forall_mem_cons, ← ih, ← hspecOk]
    cases hspec : check_spec s path spec with
    | error refusal => simp [bind, Except.bind]
    | ok => simp [bind, Except.bind]

/-! ## Merging without `replace` -/

theorem get_overlay_none (hs : s.isTable = true) (h : s.get k = none) :
    (overlay t s E).get k = t.bind (·.get k) := by
  cases s with
  | leaf a => cases hs
  | table names entries =>
    have hk : k ∉ names := Nest.get_eq_none.1 h
    rw [overlay, Nest.get_ofFn, dif_neg hk]
    split_ifs with hmem
    · rfl
    · cases t with
      | none => rfl
      | some v =>
        have hv : k ∉ v.keys := fun hkey => hmem (Finset.mem_union_left _ hkey)
        exact (Nest.get_eq_none.2 hv).symm

theorem get_overlay_some {child : Value α} (h : s.get k = some child) :
    (overlay t s E).get k = if [] ∈ nested_excepts E k then t.bind (·.get k)
      else some (overlay (t.bind (·.get k)) child (nested_excepts E k)) := by
  cases s with
  | leaf a => cases h
  | table names entries =>
    obtain ⟨hk, rfl⟩ := Nest.get_table_eq_some.1 h
    rw [overlay, Nest.get_ofFn, if_pos (Finset.mem_union_right _ hk), dif_pos hk]

theorem shape_overlay (t : Option (Value α)) (s : Value α) (E : List (List Key)) :
    shape (some (overlay t s E)) = shape (some s) := by
  cases s with
  | leaf a => rw [overlay]
  | table names entries => rw [overlay]; rfl

theorem overlay_excepted (he : e ∈ E) (hpass : Passes s e) :
    (overlay t s E).walk e = look t e := by
  induction e generalizing t s E with
  | nil => exact absurd rfl hpass.1
  | cons k e ih =>
    obtain ⟨-, hopen⟩ := hpass
    have htable : s.isTable = true := descend_isTable.2 (hopen.mono List.nil_prefix)
    rw [Nest.walk_cons, Nest.look_cons]
    cases hget : s.get k with
    | none => rw [get_overlay_none htable hget]
    | some child =>
      rw [get_overlay_some hget]
      split_ifs with hskip
      · rfl
      · have hne : e ≠ [] := fun heq => hskip (mem_nested.2 (heq ▸ he))
        rw [List.dropLast_cons_of_ne_nil hne, open_cons, hget] at hopen
        exact ih (mem_nested.2 he) ⟨hne, hopen.2⟩

theorem overlay_brought (hp : ¬ Under E p) (h : s.walk p ≠ none) :
    shape ((overlay t s E).walk p) = shape (s.walk p) := by
  induction p generalizing t s E with
  | nil => exact shape_overlay t s E
  | cons k p ih =>
    rw [Nest.walk_cons] at h
    cases hget : s.get k with
    | none => simp [hget] at h
    | some child =>
      rw [hget] at h
      rw [Nest.walk_cons, get_overlay_some hget, if_neg (not_skipped hp), Nest.walk_cons, hget]
      exact ih (not_under_nested hp) h

theorem overlay_kept (hp : ¬ Under E p) (h : s.walk p = none) (hopen : Open (some s) p) :
    (overlay t s E).walk p = look t p := by
  induction p generalizing t s E with
  | nil => cases h
  | cons k p ih =>
    obtain ⟨htable, hbelow⟩ := open_cons.1 hopen
    rw [Nest.walk_cons, Nest.look_cons]
    cases hget : s.get k with
    | none => rw [get_overlay_none htable hget]
    | some child =>
      rw [Nest.walk_cons, hget] at h
      rw [hget] at hbelow
      rw [get_overlay_some hget, if_neg (not_skipped hp)]
      exact ih (not_under_nested hp) h hbelow

theorem overlay_overlay (t : Option (Value α)) (s : Value α) (E : List (List Key)) :
    overlay (some (overlay t s E)) s E = overlay t s E := by
  induction s generalizing t E with
  | leaf a => rw [overlay, overlay]
  | table names entries ih =>
    have htable (t' : Option (Value α)) : (overlay t' (.table names entries) E).isTable = true := by
      rw [overlay]
      rfl
    refine Nest.ext_get (htable _) (htable _) fun k => ?_
    cases hget : (Nest.table names entries).get k with
    | none => rw [get_overlay_none rfl hget]; rfl
    | some child =>
      rw [get_overlay_some hget, Option.bind_some, get_overlay_some hget]
      split_ifs with hskip
      · rfl
      · obtain ⟨hk, rfl⟩ := Nest.get_table_eq_some.1 hget
        rw [ih ⟨k, hk⟩]

/-! ## Merging with `replace` -/

/-- A source with the target put back at some excepts: elsewhere the source
stands, and tables on the way to what was put back. -/
structure Restored (t : Option (Value α)) (s : Value α) (E : List (List Key)) (out : Value α) :
    Prop where
  excepted : ∀ p, Under E p → shape (out.walk p) = shape (look t p)
  above : ∀ p, ¬ Under E p → s.walk p = none → ∀ e ∈ E, p <+: e → look t e ≠ none →
    shape (out.walk p) = .table
  here : ∀ p, ¬ Under E p → s.walk p ≠ none → shape (out.walk p) = shape (s.walk p)
  nothing : ∀ p, ¬ Under E p → s.walk p = none → (∀ e ∈ E, p <+: e → look t e = none) →
    out.walk p = none

theorem restored_nil (t : Option (Value α)) (s : Value α) : Restored t s [] s := by
  refine ⟨?_, ?_, fun _ _ _ => rfl, fun _ _ h _ => h⟩
  · rintro p ⟨e, he, -⟩
    cases he
  · rintro p - - e he
    cases he

theorem Restored.open_above (h : Restored t s E out) (hpass : Passes s e) (ht : look t e ≠ none)
    (hq : q <+: e) (hne : q ≠ e) (a : α) : shape (out.walk q) ≠ .leaf a := by
  have htable : shape (look t q) = .table := table_above hq hne ht
  by_cases hunder : Under E q
  · rw [h.excepted q hunder, htable]
    exact fun heq => by cases heq
  by_cases hs : s.walk q = none
  · by_cases hput : ∃ e ∈ E, q <+: e ∧ look t e ≠ none
    · obtain ⟨e', he', hpre, hsome⟩ := hput
      rw [h.above q hunder hs e' he' hpre hsome]
      exact fun heq => by cases heq
    · rw [h.nothing q hunder hs fun e' he' hpre => by_contra fun hsome =>
        hput ⟨e', he', hpre, hsome⟩]
      exact fun heq => by cases heq
  · rw [h.here q hunder hs]
    exact hpass.2 q (prefix_dropLast hq hne) a

theorem under_append : Under (E ++ [e]) p ↔ Under E p ∨ e <+: p := by
  simp only [Under, List.mem_append, List.mem_singleton]
  constructor
  · rintro ⟨e', he' | rfl, hpre⟩
    · exact .inl ⟨e', he', hpre⟩
    · exact .inr hpre
  · rintro (⟨e', he', hpre⟩ | hpre)
    · exact ⟨e', .inl he', hpre⟩
    · exact ⟨e, .inr rfl, hpre⟩

/-- Removing an except of which the target holds nothing. -/
theorem Restored.removed (h : Restored t s E out) (he : e ≠ []) (ht : look t e = none) :
    Restored t s (E ++ [e]) (remove_path out e) := by
  have hshape := shape_remove_path he out
  refine ⟨fun p hunder => ?_, fun p hunder hs e' he' hpre hsome => ?_, fun p hunder hs => ?_,
    fun p hunder hs hnone => ?_⟩
  · rw [hshape]
    split_ifs with hbelow
    · rw [look_none_below hbelow ht]
      rfl
    · exact h.excepted p ((under_append.1 hunder).resolve_right hbelow)
  · obtain ⟨hE, hbelow⟩ := not_or.1 (mt under_append.2 hunder)
    rw [hshape, if_neg hbelow]
    rcases List.mem_append.1 he' with he' | he'
    · exact h.above p hE hs e' he' hpre hsome
    · rw [List.mem_singleton.1 he'] at hsome
      exact absurd ht hsome
  · obtain ⟨hE, hbelow⟩ := not_or.1 (mt under_append.2 hunder)
    rw [hshape, if_neg hbelow]
    exact h.here p hE hs
  · obtain ⟨hE, hbelow⟩ := not_or.1 (mt under_append.2 hunder)
    rw [← Nest.shape_eq_absent, hshape, if_neg hbelow, Nest.shape_eq_absent]
    exact h.nothing p hE hs fun e' he' => hnone e' (List.mem_append_left _ he')

/-- Putting back what the target holds at an except. -/
theorem Restored.put {value out' : Value α} {held : String} (h : Restored t s E out)
    (hpass : Passes s e) (ht : look t e = some value)
    (hout : write_at (remove_path out e) e held value = .ok out') :
    Restored t s (E ++ [e]) out' := by
  have hshape (p : List Key) : shape (out'.walk p) =
      if e <+: p then shape (look t p) else if p <+: e then .table else shape (out.walk p) := by
    rw [shape_write_at hout, shape_remove_path hpass.1]
    by_cases hbelow : e <+: p
    · obtain ⟨rest, rfl⟩ := hbelow
      rw [if_pos (List.prefix_append e rest), if_pos (List.prefix_append e rest), List.drop_left,
        Nest.look_append, ht, Nest.look_some]
    · rw [if_neg hbelow, if_neg hbelow, if_neg hbelow]
  have hsome : look t e ≠ none := by simp [ht]
  refine ⟨fun p hunder => ?_, fun p hunder hs e' he' hpre hsome' => ?_, fun p hunder hs => ?_,
    fun p hunder hs hnone => ?_⟩
  · rw [hshape]
    split_ifs with hbelow habove
    · rfl
    · exact (table_above habove (fun heq => hbelow (heq ▸ List.prefix_rfl)) hsome).symm
    · exact h.excepted p ((under_append.1 hunder).resolve_right hbelow)
  · obtain ⟨hE, hbelow⟩ := not_or.1 (mt under_append.2 hunder)
    rw [hshape, if_neg hbelow]
    split_ifs with habove
    · rfl
    · rcases List.mem_append.1 he' with he' | he'
      · exact h.above p hE hs e' he' hpre hsome'
      · rw [List.mem_singleton.1 he'] at hpre
        exact absurd hpre habove
  · obtain ⟨hE, hbelow⟩ := not_or.1 (mt under_append.2 hunder)
    rw [hshape, if_neg hbelow]
    split_ifs with habove
    · have hopen := hpass.2 p (prefix_dropLast habove fun heq => hbelow (heq ▸ List.prefix_rfl))
      cases hwalk : s.walk p with
      | none => exact absurd hwalk hs
      | some v =>
        cases v with
        | leaf a => exact absurd (by rw [Nest.look_some, hwalk]; rfl) (hopen a)
        | table names entries => rfl
    · exact h.here p hE hs
  · obtain ⟨hE, hbelow⟩ := not_or.1 (mt under_append.2 hunder)
    rw [← Nest.shape_eq_absent, hshape, if_neg hbelow,
      if_neg fun habove => hsome (hnone e (by simp) habove), Nest.shape_eq_absent]
    exact h.nothing p hE hs fun e' he' => hnone e' (List.mem_append_left _ he')

/-- One except of `merge` with `replace`. -/
theorem Restored.step (h : Restored t s E out) (hpass : Passes s e) :
    ∃ out', restore t out e = .ok out' ∧ Restored t s (E ++ [e]) out' := by
  cases ht : look t e with
  | none =>
    have hbind : t.bind (·.walk e) = none := ht
    exact ⟨_, by rw [restore, hbind], h.removed hpass.1 ht⟩
  | some value =>
    have hbind : t.bind (·.walk e) = some value := ht
    obtain ⟨out', hout⟩ := write_at_ok (v := remove_path out e) (e := e) (fun q hq hne a => by
      rw [shape_remove_path hpass.1, if_neg fun hpre => hne (hq.eq_of_length_le hpre.length_le)]
      exact h.open_above hpass (by simp [ht]) hq hne a) "" value
    refine ⟨out', ?_, h.put hpass ht hout⟩
    rw [restore, hbind]
    simp only [set_path, hout]
    rfl

theorem restored_foldlM (hpass : ∀ e ∈ E, Passes s e) :
    ∃ out, E.foldlM (restore t) s = .ok out ∧ Restored t s E out := by
  induction E using List.reverseRecOn with
  | nil => exact ⟨s, rfl, restored_nil t s⟩
  | append_singleton E e ih =>
    obtain ⟨out, hout, hrestored⟩ := ih fun e' he' => hpass e' (List.mem_append_left _ he')
    obtain ⟨out', hout', hrestored'⟩ := hrestored.step (hpass e (by simp))
    refine ⟨out', ?_, hrestored'⟩
    rw [List.foldlM_append, hout]
    simp only [bind, Except.bind, List.foldlM_cons, List.foldlM_nil, hout']
    rfl

end Copy

end Shep

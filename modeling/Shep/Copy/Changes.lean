import Mathlib.Data.List.Nodup
import Shep.Copy.Merged

/-!
# Copy — how excepts are read, and what is listed

An except is read by the keys either side holds. A change list names a path
where a leaf stands on one side, once; a table that comes or goes is only
named by what it holds.
-/

namespace Shep

namespace Copy

open Nest (look shape Shape)

variable {α : Type} {b a : Option (Value α)} {v w : Value α} {k : Key} {p q : List Key}

/-! ## Reading -/

/-- `longest_key`, of the keys that count as held. -/
def longest (held : Key → Bool) (rest : List Key) : List Key :=
  rest.take (((List.range' 1 rest.length).reverse.find? fun len =>
    held (dotted (rest.take len))).getD 1)

/-- `resolve_keys`, of the paths that count as held. -/
def readFrom (held : List Key → Bool) : ℕ → List Key → List Key
  | 0, _ => []
  | _, [] => []
  | count + 1, rest =>
    let taken := longest (fun name => held [name]) rest
    dotted taken ::
      readFrom (fun path => held (dotted taken :: path)) count (rest.drop taken.length)

theorem readFrom_cons (held : List Key → Bool) (count : ℕ) (first : Key) (others : List Key) :
    readFrom held (count + 1) (first :: others) =
      let taken := longest (fun name => held [name]) (first :: others)
      dotted taken :: readFrom (fun path => held (dotted taken :: path)) count
        ((first :: others).drop taken.length) := rfl

/-- The keys a spec is read as, by the paths that count as held. -/
def readKeys (held : List Key → Bool) (spec : List Key) : List Key :=
  readFrom held spec.length spec

/-- Either side holds a path. -/
def eitherHolds (source target : Option (Value α)) (path : List Key) : Bool :=
  (look source path).isSome || (look target path).isSome

theorem holds_eq (table : Option (Value α)) (key : Key) :
    holds table key = (look table [key]).isSome := by
  cases table with
  | none => rfl
  | some v => simp [holds, Nest.walk_cons]

theorem resolveFrom_eq (count : ℕ) (rest : List Key) (src tgt : Option (Value α)) :
    resolveFrom count rest src tgt = readFrom (eitherHolds src tgt) count rest := by
  induction count generalizing rest src tgt with
  | zero => cases rest <;> rfl
  | succ count ih =>
    cases rest with
    | nil => rfl
    | cons first others =>
      have hlongest : longest_key (first :: others) src tgt =
          longest (fun name => eitherHolds src tgt [name]) (first :: others) := by
        unfold longest_key longest eitherHolds
        simp only [holds_eq]
      have hstep : resolveFrom (count + 1) (first :: others) src tgt =
          let taken := longest_key (first :: others) src tgt
          dotted taken :: resolveFrom count ((first :: others).drop taken.length)
            (src.bind (·.get (dotted taken))) (tgt.bind (·.get (dotted taken))) := rfl
      rw [hstep, readFrom_cons, hlongest]
      dsimp only
      rw [ih]
      refine congrArg (List.cons _) (congrArg (readFrom · count _) ?_)
      funext path
      simp only [eitherHolds, Nest.look_cons]

theorem resolve_keys_eq (spec : List Key) (src tgt : Option (Value α)) :
    resolve_keys spec src tgt = readKeys (eitherHolds src tgt) spec :=
  resolveFrom_eq spec.length spec src tgt

theorem find?_of_sub {β : Type} {f g : β → Bool} {xs : List β} (hsub : ∀ x, g x → f x)
    (hfound : ∀ x, xs.find? f = some x → g x) : xs.find? g = xs.find? f := by
  induction xs with
  | nil => rfl
  | cons x xs ih =>
    rw [List.find?_cons, List.find?_cons]
    cases hf : f x with
    | true =>
      have hg : g x = true := hfound x (by rw [List.find?_cons, hf])
      rw [hg]
    | false =>
      have hg : g x = false := by
        rw [← Bool.not_eq_true]
        intro hg
        rw [hsub x hg] at hf
        cases hf
      rw [hg]
      exact ih fun y hy => hfound y (by rw [List.find?_cons, hf]; exact hy)

theorem readFrom_eq_nil {held : List Key → Bool} {count : ℕ} {rest : List Key} :
    readFrom held count rest = [] ↔ count = 0 ∨ rest = [] := by
  cases count with
  | zero => simp [readFrom]
  | succ count =>
    cases rest with
    | nil => simp [readFrom]
    | cons first others => simp [readFrom]

/-- A spec is read as before where, along what it was read as, nothing new is
held and what was held still is. -/
theorem readFrom_congr {held held' : List Key → Bool} {count : ℕ} {rest : List Key}
    (hsub : ∀ q, q <+: (readFrom held count rest).dropLast → ∀ name,
      held' (q ++ [name]) → held (q ++ [name]))
    (hkeep : ∀ q, q ≠ [] → q <+: readFrom held count rest → held q → held' q) :
    readFrom held' count rest = readFrom held count rest := by
  induction count generalizing held held' rest with
  | zero => cases rest <;> rfl
  | succ count ih =>
    cases rest with
    | nil => rfl
    | cons first others =>
      rw [readFrom_cons] at hsub hkeep
      dsimp only at hsub hkeep
      generalize htaken : longest (fun name => held [name]) (first :: others) = taken at hsub hkeep
      have hfind : longest (fun name => held' [name]) (first :: others) = taken := by
        rw [← htaken, longest, longest, find?_of_sub]
        · exact fun len hheld => hsub [] List.nil_prefix _ hheld
        · intro len hlen
          have hheld := List.find?_some hlen
          have hkey : dotted taken = dotted ((first :: others).take len) := by
            rw [← htaken, longest, hlen]
            rfl
          rw [← hkey] at hheld ⊢
          exact hkeep [dotted taken] (by simp) (prefix_cons_iff.2 ⟨rfl, List.nil_prefix⟩) hheld
      rw [readFrom_cons, readFrom_cons, hfind, htaken]
      dsimp only
      refine congrArg (List.cons _) ?_
      generalize hrest : (first :: others).drop taken.length = rest at hsub hkeep ⊢
      by_cases hnil : readFrom (fun path => held (dotted taken :: path)) count rest = []
      · rw [hnil]
        exact readFrom_eq_nil.2 (readFrom_eq_nil.1 hnil)
      · refine ih (fun q hq name => ?_) (fun q hq hpre => ?_)
        · refine hsub (dotted taken :: q) ?_ name
          rw [List.dropLast_cons_of_ne_nil hnil]
          exact prefix_cons_iff.2 ⟨rfl, hq⟩
        · exact hkeep (dotted taken :: q) (by simp) (prefix_cons_iff.2 ⟨rfl, hpre⟩)

/-! ## Differences -/

/-- No leaf stands above a path, on either side. -/
def Visited (b a : Option (Value α)) (p : List Key) : Prop :=
  ∀ q, q <+: p → q ≠ p → ∀ x, shape (look b q) ≠ .leaf x ∧ shape (look a q) ≠ .leaf x

/-- Two shapes of which a change is made: a table that comes or goes is named
by what it holds. -/
def Reported (x y : Shape α) : Prop :=
  x ≠ y ∧ ¬ (x = .table ∧ y = .absent) ∧ ¬ (x = .absent ∧ y = .table)

/-- A path `collect_changes` lists. -/
def Listed (b a : Option (Value α)) (p : List Key) : Prop :=
  Visited b a p ∧ Reported (shape (look b p)) (shape (look a p))

/-- A leaf or an empty table that differs: of what differs below it, where a
table comes or goes, and of nothing else. -/
def Differs (b a : Option (Value α)) (p : List Key) : Prop :=
  Visited b a p ∧ shape (look b p) ≠ shape (look a p) ∧
    (shape (look b p) = .table → look a p = none → look b p = some .empty) ∧
    (shape (look a p) = .table → look b p = none → look a p = some .empty)

/-- An empty table that comes or goes. -/
def Blank (b a : Option (Value α)) (p : List Key) : Prop :=
  Visited b a p ∧ (look b p = none ∧ look a p = some .empty ∨
    look b p = some .empty ∧ look a p = none)

theorem shape_empty : shape (some (.empty : Value α)) = .table := rfl

/-- What differs is listed, or an empty table that comes or goes. -/
theorem differs_iff : Differs b a p ↔ Listed b a p ∨ Blank b a p := by
  constructor
  · rintro ⟨hvisited, hne, hgone, hcome⟩
    by_cases hleft : shape (look b p) = .table ∧ shape (look a p) = .absent
    · have hnone := Nest.shape_eq_absent.1 hleft.2
      exact .inr ⟨hvisited, .inr ⟨hgone hleft.1 hnone, hnone⟩⟩
    by_cases hright : shape (look b p) = .absent ∧ shape (look a p) = .table
    · have hnone := Nest.shape_eq_absent.1 hright.1
      exact .inr ⟨hvisited, .inl ⟨hnone, hcome hright.2 hnone⟩⟩
    exact .inl ⟨hvisited, hne, hleft, hright⟩
  · rintro (⟨hvisited, hne, hleft, hright⟩ | ⟨hvisited, ⟨hb, ha⟩ | ⟨hb, ha⟩⟩)
    · refine ⟨hvisited, hne, fun htable hnone => ?_, fun htable hnone => ?_⟩
      · exact absurd ⟨htable, Nest.shape_eq_absent.2 hnone⟩ hleft
      · exact absurd ⟨Nest.shape_eq_absent.2 hnone, htable⟩ hright
    · rw [Differs, hb, ha]
      refine ⟨hvisited, ?_, ?_, fun _ _ => rfl⟩
      · rintro ⟨⟩
      · rintro ⟨⟩
    · rw [Differs, hb, ha]
      refine ⟨hvisited, ?_, fun _ _ => rfl, ?_⟩
      · rintro ⟨⟩
      · rintro ⟨⟩

theorem not_listed_blank (h : Blank b a p) : ¬ Listed b a p := by
  rintro ⟨-, -, hleft, hright⟩
  rcases h.2 with ⟨hb, ha⟩ | ⟨hb, ha⟩
  · exact hright ⟨Nest.shape_eq_absent.2 hb, by rw [ha]; rfl⟩
  · exact hleft ⟨by rw [hb]; rfl, Nest.shape_eq_absent.2 ha⟩

/-- Every nest has a leaf or an empty table at its end. -/
theorem exists_end (v : Value α) : ∃ r, (∀ q, q <+: r → q ≠ r → shape (look (some v) q) = .table) ∧
    ((∃ x, look (some v) r = some (.leaf x)) ∨ look (some v) r = some .empty) := by
  induction v with
  | leaf x => exact ⟨[], fun q hq hne => absurd (List.prefix_nil.1 hq) hne, .inl ⟨x, rfl⟩⟩
  | table names entries ih =>
    by_cases hnames : names = ∅
    · subst hnames
      refine ⟨[], fun q hq hne => absurd (List.prefix_nil.1 hq) hne, .inr ?_⟩
      refine congrArg some (Nest.ext_get rfl rfl fun k => ?_)
      rw [Nest.get_empty, Nest.get_eq_none]
      exact Finset.notMem_empty k
    · obtain ⟨k, hk⟩ := Finset.nonempty_iff_ne_empty.2 hnames
      obtain ⟨r, habove, hend⟩ := ih ⟨k, hk⟩
      have hget : (Nest.table names entries).get k = some (entries ⟨k, hk⟩) := Nest.get_table hk
      refine ⟨k :: r, fun q hq hne => ?_, ?_⟩
      · cases q with
        | nil => rfl
        | cons j q =>
          obtain ⟨rfl, hbelow⟩ := prefix_cons_iff.1 hq
          rw [Nest.look_some, Nest.walk_cons, hget]
          exact habove q hbelow fun heq => hne (by rw [heq])
      · rw [Nest.look_some, Nest.walk_cons, hget]
        exact hend

theorem exists_shortest (h : b ≠ a) : ∃ p, shape (look b p) ≠ shape (look a p) ∧
    ∀ q, q <+: p → q ≠ p → shape (look b q) = shape (look a q) := by
  have hsome : ∃ n p, List.length p = n ∧ shape (look b p) ≠ shape (look a p) := by
    by_contra hnone
    refine h (Nest.look_ext fun p => by_contra fun hne => hnone ⟨_, p, rfl, hne⟩)
  classical
  obtain ⟨p, hlen, hne⟩ := Nat.find_spec hsome
  refine ⟨p, hne, fun q hq hqp => by_contra fun hdiff => ?_⟩
  have hlt : q.length < Nat.find hsome :=
    hlen ▸ lt_of_le_of_ne hq.length_le fun heq => hqp (hq.eq_of_length heq)
  exact Nat.find_min hsome hlt ⟨q, rfl, hdiff⟩

/-- What stands below a table that comes or goes, down to one of its ends. -/
theorem differs_end {r : List Key} (hp : look b p = some v) (ha : look a p = none)
    (hvisited : Visited b a p) (habove : ∀ q, q <+: r → q ≠ r → shape (look (some v) q) = .table)
    (hend : (∃ x, look (some v) r = some (.leaf x)) ∨ look (some v) r = some .empty) :
    Differs b a (p ++ r) ∧ Differs a b (p ++ r) := by
  have hb : look b (p ++ r) = look (some v) r := by rw [Nest.look_append, hp]
  have hnone : look a (p ++ r) = none := look_none_below (List.prefix_append p r) ha
  have hsees (q : List Key) (hq : q <+: p ++ r) (hne : q ≠ p ++ r) (x : α) :
      shape (look b q) ≠ .leaf x ∧ shape (look a q) ≠ .leaf x := by
    by_cases hpq : q <+: p
    · by_cases heq : q = p
      · subst heq
        rw [ha, hp]
        have hr : r ≠ [] := fun heq => hne (by rw [heq, List.append_nil])
        exact ⟨by rw [← Nest.look_nil (some v), habove [] List.nil_prefix hr.symm]; simp, by simp⟩
      · exact hvisited q hpq heq x
    · have hpath := List.prefix_or_prefix_of_prefix hq (List.prefix_append p r)
      obtain ⟨q', rfl⟩ := hpath.resolve_left hpq
      have hq' : q' <+: r := (List.prefix_append_right_inj p).1 hq
      rw [Nest.look_append, hp, habove q' hq' fun heq => hne (by rw [heq]),
        look_none_below (List.prefix_append p q') ha]
      simp
  have hone : Differs b a (p ++ r) := by
    refine ⟨hsees, ?_, ?_, ?_⟩
    · rw [hb, hnone]
      rcases hend with ⟨x, hx⟩ | hx <;> rw [hx] <;> exact fun heq => by cases heq
    · rw [hb]
      intro htable _
      rcases hend with ⟨x, hx⟩ | hx
      · rw [hx] at htable
        cases htable
      · exact hx
    · rw [hnone]
      exact fun heq => by cases heq
  exact ⟨hone, fun q hq hne x => (hsees q hq hne x).symm, hone.2.1.symm, hone.2.2.2, hone.2.2.1⟩

/-- Nests that are not the same differ at a leaf or an empty table. -/
theorem exists_differs (h : b ≠ a) : ∃ p, Differs b a p := by
  obtain ⟨p, hne, habove⟩ := exists_shortest h
  have hleaf (q : List Key) (hq : q <+: p) (hqp : q ≠ p) (x : α)
      (hx : shape (look b q) = .leaf x) : False := by
    have hx' := (habove q hq hqp).symm.trans hx
    have hb : look b p = none := by_contra fun hsome => by
      rw [table_above hq hqp hsome] at hx
      cases hx
    have ha : look a p = none := by_contra fun hsome => by
      rw [table_above hq hqp hsome] at hx'
      cases hx'
    exact hne (by rw [hb, ha])
  have hvisited : Visited b a p := fun q hq hqp x =>
    ⟨hleaf q hq hqp x, fun hx => hleaf q hq hqp x ((habove q hq hqp).trans hx)⟩
  by_cases hleft : shape (look b p) = .table ∧ shape (look a p) = .absent
  · obtain ⟨v, hv, -⟩ := Nest.shape_eq_table.1 hleft.1
    obtain ⟨r, hr, hend⟩ := exists_end v
    exact ⟨p ++ r, (differs_end hv (Nest.shape_eq_absent.1 hleft.2) hvisited hr hend).1⟩
  by_cases hright : shape (look b p) = .absent ∧ shape (look a p) = .table
  · obtain ⟨v, hv, -⟩ := Nest.shape_eq_table.1 hright.2
    obtain ⟨r, hr, hend⟩ := exists_end v
    have hvisited' : Visited a b p := fun q hq hne x => (hvisited q hq hne x).symm
    exact ⟨p ++ r, (differs_end hv (Nest.shape_eq_absent.1 hright.1) hvisited' hr hend).2⟩
  exact ⟨p, differs_iff.2 (.inl ⟨hvisited, hne, hleft, hright⟩)⟩

/-! ## The change list -/

/-- The kind of a change, by what was there and what is. -/
def kindOf : Option (Value α) → Option (Value α) → ChangeKind
  | none, _ => .Added
  | some _, none => .Removed
  | some _, some _ => .Changed

/-- The change of what was there into what is. -/
def entry (key : String) (old new : Option (Value α)) : Change α := ⟨key, kindOf old new, old, new⟩

/-- The keys of what may be no table. -/
def keysOf (o : Option (Value α)) : Finset Key := o.elim ∅ Nest.keys

theorem mem_keysOf {o : Option (Value α)} : k ∈ keysOf o ↔ (o.bind (·.get k)).isSome := by
  cases o with
  | none => simp [keysOf]
  | some v => exact Nest.mem_keys

theorem mem_sorted {names : Finset Key} : k ∈ sorted names ↔ k ∈ names := Finset.mem_sort _

/-- A path that is listed of two tables, or of one, is listed of what they
hold under its first key. -/
theorem listed_cons : Listed b a (k :: p) ↔
    (∀ x, shape b ≠ .leaf x ∧ shape a ≠ .leaf x) ∧
      Listed (b.bind (·.get k)) (a.bind (·.get k)) p := by
  constructor
  · rintro ⟨hvisited, hreported⟩
    rw [Nest.look_cons, Nest.look_cons] at hreported
    refine ⟨fun x => ?_, fun q hq hne x => ?_, hreported⟩
    · have hnil := hvisited [] List.nil_prefix (by simp) x
      rwa [Nest.look_nil, Nest.look_nil] at hnil
    · have hbelow := hvisited (k :: q) (prefix_cons_iff.2 ⟨rfl, hq⟩) (by simpa using hne) x
      rwa [Nest.look_cons, Nest.look_cons] at hbelow
  · rintro ⟨hhere, hvisited, hreported⟩
    refine ⟨fun q hq hne x => ?_, ?_⟩
    · cases q with
      | nil =>
        rw [Nest.look_nil, Nest.look_nil]
        exact hhere x
      | cons j q =>
        obtain ⟨rfl, hbelow⟩ := prefix_cons_iff.1 hq
        rw [Nest.look_cons, Nest.look_cons]
        exact hvisited q hbelow (fun heq => hne (by rw [heq])) x
    · rw [Nest.look_cons, Nest.look_cons]
      exact hreported

theorem not_reported_nil (h : ∀ x, shape b ≠ .leaf x ∧ shape a ≠ .leaf x) :
    ¬ Reported (shape b) (shape a) := by
  rintro ⟨hne, hleft, hright⟩
  cases hb : shape b with
  | leaf x => exact (h x).1 hb
  | absent =>
    cases ha : shape a with
    | leaf x => exact (h x).2 ha
    | absent => exact hne (by rw [hb, ha])
    | table => exact hright ⟨hb, ha⟩
  | table =>
    cases ha : shape a with
    | leaf x => exact (h x).2 ha
    | absent => exact hleft ⟨hb, ha⟩
    | table => exact hne (by rw [hb, ha])

variable [DecidableEq α]

/-- What is listed of two tables, or of one, by key. -/
theorem collect_changes_node (h : ∀ x, shape b ≠ .leaf x ∧ shape a ≠ .leaf x) (key : String) :
    collect_changes b a key = (sorted (keysOf b ∪ keysOf a)).flatMap fun name =>
      collect_changes (b.bind (·.get name)) (a.bind (·.get name)) (child_key key name) := by
  cases b with
  | none =>
    cases a with
    | none => simp [collect_changes, keysOf, sorted]
    | some w =>
      cases w with
      | leaf x => exact absurd rfl (h x).2
      | table names entries =>
        have hkeys : keysOf (none : Option (Value α)) ∪ keysOf (some (.table names entries)) =
            names :=
          Finset.empty_union names
        rw [hkeys, collect_changes, collect_added]
        refine List.flatMap_congr fun name hname => ?_
        have hmem := mem_sorted.1 hname
        rw [dif_pos hmem, Option.bind_none, Option.bind_some, Nest.get_table hmem]
        rfl
  | some v =>
    cases v with
    | leaf x => exact absurd rfl (h x).1
    | table names entries =>
      cases a with
      | none =>
        have hkeys : keysOf (some (.table names entries)) ∪ keysOf (none : Option (Value α)) =
            names :=
          Finset.union_empty names
        rw [hkeys, collect_changes, collect_from]
        refine List.flatMap_congr fun name hname => ?_
        have hmem := mem_sorted.1 hname
        rw [dif_pos hmem, Option.bind_none, Option.bind_some, Nest.get_table hmem]
        rfl
      | some w =>
        cases w with
        | leaf x => exact absurd rfl (h x).2
        | table names' entries' =>
          rw [collect_changes, collect_from]
          refine List.flatMap_congr fun name hname => ?_
          rw [Option.bind_some, Option.bind_some]
          by_cases hmem : name ∈ names
          · rw [dif_pos hmem, Nest.get_table hmem]
            rfl
          · have hnone : (Nest.table names entries).get name = none := Nest.get_eq_none.2 hmem
            rw [dif_neg hmem, hnone]
            cases (Nest.table names' entries').get name <;> rfl

/-- A list of changes is of the paths that are listed, each once. -/
def Collects (b a : Option (Value α)) : Prop :=
  ∃ paths : List (List Key), paths.Nodup ∧ (∀ p, p ∈ paths ↔ Listed b a p) ∧
    ∀ key, collect_changes b a key =
      paths.map fun p => entry (p.foldl child_key key) (look b p) (look a p)

theorem collects_node (h : ∀ x, shape b ≠ .leaf x ∧ shape a ≠ .leaf x)
    (hbelow : ∀ name, Collects (b.bind (·.get name)) (a.bind (·.get name))) : Collects b a := by
  choose paths hnodup hmem hcollect using hbelow
  refine ⟨(sorted (keysOf b ∪ keysOf a)).flatMap fun name => (paths name).map (List.cons name),
    ?_, fun p => ?_, fun key => ?_⟩
  · rw [List.nodup_flatMap]
    refine ⟨fun name _ => (hnodup name).map fun _ _ heq => (List.cons.inj heq).2, ?_⟩
    refine (Finset.sort_nodup _ _).imp fun hne => ?_
    intro path hpath hpath'
    obtain ⟨rest, -, rfl⟩ := List.mem_map.1 hpath
    obtain ⟨rest', -, heq⟩ := List.mem_map.1 hpath'
    exact hne (List.cons.inj heq).1.symm
  · rw [List.mem_flatMap]
    constructor
    · rintro ⟨name, -, hp⟩
      obtain ⟨rest, hrest, rfl⟩ := List.mem_map.1 hp
      exact listed_cons.2 ⟨h, (hmem name rest).1 hrest⟩
    · intro hp
      cases p with
      | nil =>
        have hreported := hp.2
        rw [Nest.look_nil, Nest.look_nil] at hreported
        exact absurd hreported (not_reported_nil h)
      | cons name rest =>
        have hrest := (listed_cons.1 hp).2
        refine ⟨name, ?_, List.mem_map_of_mem ((hmem name rest).2 hrest)⟩
        rw [mem_sorted, Finset.mem_union, mem_keysOf, mem_keysOf]
        by_contra hnone
        obtain ⟨hb, ha⟩ := not_or.1 hnone
        rw [Option.not_isSome_iff_eq_none] at hb ha
        rw [hb, ha] at hrest
        exact hrest.2.1 rfl
  · rw [collect_changes_node h, List.map_flatMap]
    refine List.flatMap_congr fun name _ => ?_
    rw [hcollect, List.map_map]
    refine List.map_congr_left fun rest _ => ?_
    simp only [Function.comp_apply, List.foldl_cons, Nest.look_cons]

/-- A leaf and what is not the same is one change. -/
theorem collects_leaf {x : α} (h : shape b = .leaf x ∨ shape a = .leaf x)
    (hcollect : ∀ key, collect_changes b a key = if b = a then [] else [entry key b a]) :
    Collects b a := by
  have hnone (p : List Key) (hp : Listed b a p) : p = [] := by
    cases p with
    | nil => rfl
    | cons k p =>
      obtain ⟨hb, ha⟩ := (listed_cons.1 hp).1 x
      exact absurd h (not_or_intro hb ha)
  have hnil : Listed b a [] ↔ b ≠ a := by
    constructor
    · rintro ⟨-, hne, -⟩ rfl
      exact hne rfl
    · intro hne
      refine ⟨fun q hq hqp => absurd (List.prefix_nil.1 hq) hqp, ?_⟩
      rw [Nest.look_nil, Nest.look_nil]
      rcases h with hb | ha
      · rw [hb]
        refine ⟨fun heq => hne ?_, fun heq => (by cases heq.1), fun heq => (by cases heq.1)⟩
        rw [Nest.shape_eq_leaf.1 hb, Nest.shape_eq_leaf.1 heq.symm]
      · rw [ha]
        refine ⟨fun heq => hne ?_, fun heq => (by cases heq.2), fun heq => (by cases heq.2)⟩
        rw [Nest.shape_eq_leaf.1 ha, Nest.shape_eq_leaf.1 heq]
  by_cases heq : b = a
  · refine ⟨[], List.nodup_nil, fun p => ⟨fun hp => (by cases hp), fun hp => ?_⟩, fun key => ?_⟩
    · rw [hnone p hp] at hp
      exact absurd heq (hnil.1 hp)
    · rw [hcollect, if_pos heq]
      rfl
  · refine ⟨[[]], List.nodup_singleton _, fun p => ?_, fun key => ?_⟩
    · rw [List.mem_singleton]
      exact ⟨fun hp => hp ▸ hnil.2 heq, hnone p⟩
    · rw [hcollect, if_neg heq]
      simp

theorem collects_added (w : Value α) : Collects none (some w) := by
  induction w with
  | leaf x =>
    refine collects_leaf (.inr rfl) fun key => ?_
    simp [collect_changes, collect_added, entry, kindOf]
  | table names entries ih =>
    refine collects_node (fun x => ⟨by simp, by simp [shape]⟩) fun name => ?_
    rw [Option.bind_none, Option.bind_some]
    cases hget : (Nest.table names entries).get name with
    | none => exact ⟨[], List.nodup_nil, fun p => by simp [Listed, Reported], fun key => rfl⟩
    | some child =>
      obtain ⟨hmem, rfl⟩ := Nest.get_table_eq_some.1 hget
      exact ih ⟨name, hmem⟩

/-- **The change list names every listed path once**, with what was there and
what is. -/
theorem collects (b a : Option (Value α)) : Collects b a := by
  have hnothing : Collects (none : Option (Value α)) none :=
    ⟨[], List.nodup_nil, fun p => by simp [Listed, Reported], fun key => rfl⟩
  cases b with
  | none =>
    cases a with
    | none => exact hnothing
    | some w => exact collects_added w
  | some v =>
    induction v generalizing a with
    | leaf x =>
      refine collects_leaf (.inl rfl) fun key => ?_
      cases a with
      | none | some w => simp [collect_changes, collect_from, entry, kindOf]
    | table names entries ih =>
      by_cases hleaf : ∃ x, shape a = .leaf x
      · obtain ⟨x, hx⟩ := hleaf
        refine collects_leaf (.inr hx) fun key => ?_
        rw [Nest.shape_eq_leaf.1 hx]
        simp [collect_changes, collect_from, entry, kindOf]
      · refine collects_node (fun x => ⟨by simp [shape], fun hx => hleaf ⟨x, hx⟩⟩) fun name => ?_
        rw [Option.bind_some]
        cases hget : (Nest.table names entries).get name with
        | none =>
          cases a.bind (·.get name) with
          | none => exact hnothing
          | some w => exact collects_added w
        | some child =>
          obtain ⟨hmem, rfl⟩ := Nest.get_table_eq_some.1 hget
          exact ih ⟨name, hmem⟩ _

end Copy

end Shep

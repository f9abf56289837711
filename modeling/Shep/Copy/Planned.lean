import Shep.Copy.Changes

/-!
# Copy — what is written and what is listed

A copy writes what its two modes say, at every path. Its list leaves out an
empty table that comes or goes, and a copy made again may read an except
otherwise, once the key it was read by is gone.
-/

namespace Shep

namespace Copy

open Nest (look shape Shape)

variable {α : Type} {s m : Value α} {t : Option (Value α)} {E : List (List Key)} {replace : Bool}
variable {e p q : List Key} {k : Key}

/-! ## What a merge makes -/

/-- What both modes make of a target and a source, but for what the source
says nothing of. -/
structure Made (t : Option (Value α)) (s : Value α) (E : List (List Key)) (m : Value α) : Prop where
  excepted : ∀ p, Under E p → shape (m.walk p) = shape (look t p)
  brought : ∀ p, ¬ Under E p → s.walk p ≠ none → shape (m.walk p) = shape (s.walk p)
  dropped : ∀ p, ¬ Under E p → s.walk p = none → look t p = none → m.walk p = none

theorem Under.mono (h : Under E q) (hq : q <+: p) : Under E p := by
  obtain ⟨e, he, hpre⟩ := h
  exact ⟨e, he, hpre.trans hq⟩

theorem Restored.made (h : Restored t s E m) : Made t s E m :=
  ⟨h.excepted, h.here, fun p hunder hs ht =>
    h.nothing p hunder hs fun _ _ hpre => look_none_below hpre ht⟩

theorem open_or_leaf (hs : s.walk p = none) :
    Open (some s) p ∨ ∃ q, q <+: p ∧ q ≠ p ∧ ∃ x, shape (s.walk q) = .leaf x := by
  by_cases hopen : Open (some s) p
  · exact .inl hopen
  · refine .inr ?_
    by_contra hnone
    refine hopen fun q hq x hx => hnone ⟨q, hq, ?_, x, hx⟩
    rintro rfl
    rw [Nest.look_some, hs] at hx
    cases hx

theorem ne_none_of_leaf {x : α} (h : shape (m.walk q) = .leaf x) : m.walk q ≠ none := by
  intro hnone
  rw [hnone] at h
  cases h

theorem walk_concat {w : Value α} (h : m.walk p = some w) (k : Key) :
    m.walk (p ++ [k]) = w.get k := by
  rw [← Nest.look_some, Nest.look_append, Nest.look_some, h, Nest.look_some, Nest.walk_cons,
    Nest.look_nil]

theorem walk_of_leaf {x : α} (hq : q <+: p) (hne : q ≠ p) (h : shape (m.walk q) = .leaf x) :
    m.walk p = none := by
  by_contra hsome
  have htable : shape (m.walk q) = .table := table_above (o := some m) hq hne hsome
  rw [htable] at h
  cases h

theorem made_overlay (hpass : ∀ e ∈ E, Passes s e) : Made t s E (overlay t s E) := by
  refine ⟨?_, fun p => overlay_brought, fun p hunder hs ht => ?_⟩
  · rintro p ⟨e, he, rest, rfl⟩
    have hwalk : look (some (overlay t s E)) e = look t e := overlay_excepted he (hpass e he)
    rw [← Nest.look_some, Nest.look_append, hwalk, ← Nest.look_append]
  · rcases open_or_leaf hs with hopen | ⟨q, hq, hne, x, hx⟩
    · rw [overlay_kept hunder hs hopen, ht]
    · refine walk_of_leaf hq hne (x := x) ?_
      rw [overlay_brought (mt (·.mono hq) hunder) (ne_none_of_leaf hx), hx]

theorem Made.held (h : Made t s E m) (hm : m.walk p ≠ none) :
    s.walk p ≠ none ∨ look t p ≠ none := by
  by_contra hnone
  obtain ⟨hs, ht⟩ := not_or.1 hnone
  rw [not_not] at hs ht
  by_cases hunder : Under E p
  · have hshape := h.excepted p hunder
    rw [ht] at hshape
    exact hm (Nest.shape_eq_absent.1 hshape)
  · exact hm (h.dropped p hunder hs ht)

theorem Made.walk_except (h : Made t s E m) (he : e ∈ E) : m.walk e = look t e := by
  refine Nest.look_ext (o := m.walk e) fun rest => ?_
  have hshape := h.excepted (e ++ rest) ⟨e, he, List.prefix_append e rest⟩
  rwa [← Nest.look_some, Nest.look_append, Nest.look_append] at hshape

theorem Made.at_except (h : Made t s E m) (hunder : Under E p) : m.walk p = look t p := by
  obtain ⟨e, he, rest, rfl⟩ := hunder
  rw [← Nest.look_some, Nest.look_append, Nest.look_some, h.walk_except he, Nest.look_append]

theorem under_concat (h : ¬ Under E p) : Under E (p ++ [k]) ↔ p ++ [k] ∈ E := by
  constructor
  · rintro ⟨e, he, hpre⟩
    rcases List.prefix_concat_iff.1 hpre with heq | hpre
    · exact heq ▸ he
    · exact absurd ⟨e, he, hpre⟩ h
  · exact fun hmem => ⟨_, hmem, List.prefix_rfl⟩

/-! ## Empty tables -/

/-- The source brings no empty table, nor one of which all is excepted, to
where the target holds nothing. -/
def Comes (t : Option (Value α)) (s : Value α) (E : List (List Key)) (p : List Key) : Prop :=
  ¬ Under E p ∧ look t p = none ∧ (∀ q, q <+: p → q ≠ p → ∀ x, shape (look t q) ≠ .leaf x) ∧
    ∃ v, s.walk p = some v ∧ v.isTable = true ∧ ∀ k, v.get k ≠ none → p ++ [k] ∈ E

/-- The target holds an empty table where the source holds nothing. -/
def Goes (t : Option (Value α)) (s : Value α) (E : List (List Key)) (p : List Key) : Prop :=
  ¬ Under E p ∧ look t p = some .empty ∧ s.walk p = none ∧
    ∀ q, q <+: p → q ≠ p → ∀ x, shape (s.walk q) ≠ .leaf x

/-- An empty table comes if and only if the source brings it. -/
theorem Made.comes_iff (h : Made t s E m) :
    (Visited t (some m) p ∧ look t p = none ∧ m.walk p = some .empty) ↔ Comes t s E p := by
  constructor
  · rintro ⟨hvisited, ht, hm⟩
    have hunder : ¬ Under E p := by
      intro hunder
      rw [h.at_except hunder, ht] at hm
      cases hm
    have hs : s.walk p ≠ none := by
      intro hs
      rw [h.dropped p hunder hs ht] at hm
      cases hm
    refine ⟨hunder, ht, fun q hq hne x => (hvisited q hq hne x).1, ?_⟩
    have hshape := h.brought p hunder hs
    rw [hm, shape_empty] at hshape
    obtain ⟨v, hv, htable⟩ := Nest.shape_eq_table.1 hshape.symm
    refine ⟨v, hv, htable, fun k hk => by_contra fun hmem => ?_⟩
    have hbrought := h.brought (p ++ [k]) (mt (under_concat hunder).1 hmem)
      (by rw [walk_concat hv]; exact hk)
    rw [walk_concat hm, walk_concat hv, Nest.get_empty, Nest.shape_none] at hbrought
    exact hk (Nest.shape_eq_absent.1 hbrought.symm)
  · rintro ⟨hunder, ht, habove, v, hv, htable, hkeys⟩
    have hs : s.walk p ≠ none := by simp [hv]
    have hshape := h.brought p hunder hs
    rw [hv, Nest.shape_table htable] at hshape
    obtain ⟨w, hw, hwtable⟩ := Nest.shape_eq_table.1 hshape
    refine ⟨fun q hq hne x => ⟨habove q hq hne x, ?_⟩, ht, ?_⟩
    · have hstable : shape (s.walk q) = .table := table_above (o := some s) hq hne hs
      rw [Nest.look_some, h.brought q (mt (·.mono hq) hunder)
        (fun hnone => by rw [hnone] at hstable; cases hstable), hstable]
      exact fun heq => by cases heq
    · rw [hw]
      refine congrArg some (Nest.ext_get hwtable rfl fun k => ?_)
      rw [Nest.get_empty, ← walk_concat hw]
      have htk : look t (p ++ [k]) = none := look_none_below (List.prefix_append p [k]) ht
      by_cases hmem : p ++ [k] ∈ E
      · rw [h.walk_except hmem, htk]
      · refine h.dropped _ (mt (under_concat hunder).1 hmem) ?_ htk
        rw [walk_concat hv]
        exact by_contra fun hk => hmem (hkeys k hk)

/-- With `replace`, an empty table goes if and only if the source has nothing
for it. -/
theorem Restored.goes_iff (h : Restored t s E m) :
    (Visited t (some m) p ∧ look t p = some .empty ∧ m.walk p = none) ↔ Goes t s E p := by
  constructor
  · rintro ⟨hvisited, ht, hm⟩
    have hunder : ¬ Under E p := by
      intro hunder
      rw [h.made.at_except hunder, ht] at hm
      cases hm
    have hs : s.walk p = none := by
      by_contra hs
      have hshape := h.here p hunder hs
      rw [hm] at hshape
      exact hs (Nest.shape_eq_absent.1 hshape.symm)
    refine ⟨hunder, ht, hs, fun q hq hne x hx => (hvisited q hq hne x).2 ?_⟩
    rw [Nest.look_some, h.here q (mt (·.mono hq) hunder) (ne_none_of_leaf hx), hx]
  · rintro ⟨hunder, ht, hs, habove⟩
    refine ⟨fun q hq hne x => ⟨?_, ?_⟩, ht, ?_⟩
    · rw [table_above hq hne (by simp [ht])]
      exact fun heq => by cases heq
    · rw [Nest.look_some]
      have hq' : ¬ Under E q := mt (·.mono hq) hunder
      by_cases hsq : s.walk q = none
      · by_cases hput : ∃ e ∈ E, q <+: e ∧ look t e ≠ none
        · obtain ⟨e, he, hpre, hsome⟩ := hput
          rw [h.above q hq' hsq e he hpre hsome]
          exact fun heq => by cases heq
        · rw [h.nothing q hq' hsq fun e he hpre => by_contra fun hsome => hput ⟨e, he, hpre, hsome⟩]
          exact fun heq => by cases heq
      · rw [h.here q hq' hsq]
        exact habove q hq hne x
    · refine h.nothing p hunder hs fun e he hpre => ?_
      obtain ⟨rest, rfl⟩ := hpre
      cases rest with
      | nil => exact absurd ⟨p, by simpa using he, List.prefix_rfl⟩ hunder
      | cons k rest =>
        rw [Nest.look_append, ht, Nest.look_some, Nest.walk_cons, Nest.get_empty, Nest.look_none]

/-- Without `replace`, no empty table goes. -/
theorem not_goes_overlay (hpass : ∀ e ∈ E, Passes s e)
    (hvisited : Visited t (some (overlay t s E)) p) (ht : look t p = some .empty) :
    (overlay t s E).walk p ≠ none := by
  intro hm
  have hmade := made_overlay (t := t) hpass
  have hunder : ¬ Under E p := by
    intro hunder
    rw [hmade.at_except hunder, ht] at hm
    cases hm
  have hs : s.walk p = none := by
    by_contra hs
    have hshape := hmade.brought p hunder hs
    rw [hm] at hshape
    exact hs (Nest.shape_eq_absent.1 hshape.symm)
  rcases open_or_leaf hs with hopen | ⟨q, hq, hne, x, hx⟩
  · rw [overlay_kept hunder hs hopen, ht] at hm
    cases hm
  · refine (hvisited q hq hne x).2 ?_
    rw [Nest.look_some, hmade.brought q (mt (·.mono hq) hunder) (ne_none_of_leaf hx), hx]

/-! ## Reading an except again -/

/-- What counts as held once a copy with `replace` is written: what the source
holds, and what the target holds at and above its excepts. -/
def heldAfter (t : Option (Value α)) (s : Value α) (E : List (List Key)) (p : List Key) : Bool :=
  (s.walk p).isSome ||
    E.any fun e => (look t e).isSome && (p.isPrefixOf e || e.isPrefixOf p && (look t p).isSome)

theorem heldAfter_iff : heldAfter t s E p = true ↔ s.walk p ≠ none ∨
    ∃ e ∈ E, look t e ≠ none ∧ (p <+: e ∨ e <+: p ∧ look t p ≠ none) := by
  simp only [heldAfter, Bool.or_eq_true, List.any_eq_true, Bool.and_eq_true,
    List.isPrefixOf_iff_prefix, Option.isSome_iff_ne_none]

theorem eitherHolds_iff : eitherHolds t (some m) p = true ↔ look t p ≠ none ∨ m.walk p ≠ none := by
  simp only [eitherHolds, Bool.or_eq_true, Option.isSome_iff_ne_none, Nest.look_some]

/-- Held by the source or by what was written is what counts as held then. -/
theorem Restored.eitherHolds_eq (h : Restored t s E m) :
    eitherHolds (some s) (some m) = heldAfter t s E := by
  funext p
  rw [Bool.eq_iff_iff, eitherHolds_iff, heldAfter_iff, Nest.look_some]
  constructor
  · rintro (hs | hm)
    · exact .inl hs
    · by_cases hs : s.walk p = none
      · right
        by_cases hunder : Under E p
        · rw [h.made.at_except hunder] at hm
          obtain ⟨e, he, hpre⟩ := hunder
          exact ⟨e, he, fun hnone => hm (look_none_below hpre hnone), .inr ⟨hpre, hm⟩⟩
        · by_contra hnone
          refine hm (h.nothing p hunder hs fun e he hpre => by_contra fun hsome => ?_)
          exact hnone ⟨e, he, hsome, .inl hpre⟩
      · exact .inl hs
  · rintro (hs | ⟨e, he, hsome, hpre | ⟨hpre, hp⟩⟩)
    · exact .inl hs
    · refine .inr fun hm => hsome ?_
      rw [← h.made.walk_except he]
      exact look_none_below (o := some m) hpre hm
    · refine .inr fun hm => hp ?_
      rw [← h.made.at_except ⟨e, he, hpre⟩]
      exact hm

theorem Made.reread (h : Made t s E m) {spec : List Key}
    (he : readKeys (eitherHolds (some s) t) spec ∈ E)
    (hsome : s.walk (readKeys (eitherHolds (some s) t) spec) ≠ none ∨
      look t (readKeys (eitherHolds (some s) t) spec) ≠ none) :
    readKeys (eitherHolds (some s) (some m)) spec = readKeys (eitherHolds (some s) t) spec := by
  refine readFrom_congr (fun q _ name hheld => ?_) (fun q _ hq _ => ?_)
  · rw [eitherHolds_iff] at hheld
    have hboth : s.walk (q ++ [name]) ≠ none ∨ look t (q ++ [name]) ≠ none :=
      hheld.elim .inl h.held
    simpa only [eitherHolds, Bool.or_eq_true, Option.isSome_iff_ne_none, Nest.look_some] using hboth
  · rw [eitherHolds_iff]
    rcases hsome with hs | ht
    · exact .inl fun hnone => hs (look_none_below (o := some s) hq hnone)
    · refine .inr fun hnone => ht ?_
      rw [← h.walk_except he]
      exact look_none_below (o := some m) hq hnone

/-- Without `replace`, every except is read again as it was. -/
theorem reread_overlay (hpass : ∀ e ∈ E, Passes s e) {spec : List Key}
    (he : readKeys (eitherHolds (some s) t) spec ∈ E) :
    readKeys (eitherHolds (some s) (some (overlay t s E))) spec =
      readKeys (eitherHolds (some s) t) spec := by
  have hmade := made_overlay (t := t) hpass
  refine readFrom_congr (fun q _ name hheld => ?_) (fun q hne hq hheld => ?_)
  · rw [eitherHolds_iff] at hheld
    have hboth : s.walk (q ++ [name]) ≠ none ∨ look t (q ++ [name]) ≠ none :=
      hheld.elim .inl hmade.held
    simpa only [eitherHolds, Bool.or_eq_true, Option.isSome_iff_ne_none, Nest.look_some] using hboth
  · rw [eitherHolds_iff, Nest.look_some]
    by_cases hs : s.walk q = none
    · right
      have ht : look t q ≠ none := by
        rw [← Option.isSome_iff_ne_none]
        simpa [eitherHolds, hs] using hheld
      by_cases hunder : Under E q
      · rwa [hmade.at_except hunder]
      · rw [overlay_kept hunder hs]
        · exact ht
        · intro r hr x hx
          have hrq : r ≠ q := by
            rintro rfl
            rw [Nest.look_some, hs] at hx
            cases hx
          have hre : r ≠ readKeys (eitherHolds (some s) t) spec := fun heq =>
            hrq (hr.eq_of_length_le (heq ▸ hq.length_le))
          exact (hpass _ he).2 r (prefix_dropLast (hr.trans hq) hre) x hx
    · exact .inl hs

/-! ## Drafts -/

/-- The target's table for a dog; where it holds none, an empty one. -/
def targetTable (target : Value α) (dog : String) : Value α :=
  ((dog_table target dog).filter Nest.isTable).getD .empty

theorem mapError_eq_ok {ε ε' β : Type} {x : Except ε β} {f : ε → ε'} {b : β} :
    x.mapError f = .ok b ↔ x = .ok b := by
  cases x with
  | error message => exact ⟨fun h => (by cases h), fun h => (by cases h)⟩
  | ok c => exact ⟨fun h => congrArg _ (Except.ok.inj h), fun h => congrArg _ (Except.ok.inj h)⟩

theorem bind_ok_iff {ε β γ : Type} {x : Except ε β} {f : β → Except ε γ} {c : γ} :
    (x >>= f) = .ok c ↔ ∃ b, x = .ok b ∧ f b = .ok c := by
  cases x with
  | error message => exact ⟨fun h => (by cases h), fun ⟨b, h, _⟩ => (by cases h)⟩
  | ok b => exact ⟨fun h => ⟨b, rfl, h⟩, fun ⟨_, h, h'⟩ => Except.ok.inj h ▸ h'⟩

/-- A draft that goes through. -/
structure Drafts (dog : String) (keys : List Key) (specs : List (List Key)) (replace : Bool)
    (source target : Value α) (d : Draft α) : Prop where
  source_here : look (dog_table source dog) keys = some d.source_here
  before : d.before = targetTable target dog
  except : d.except = specs.map
    (readKeys (eitherHolds (some d.source_here) (look (some (targetTable target dog)) keys)))
  passes : ∀ e ∈ d.except, Passes d.source_here e
  after : ∃ m, merge (look (some d.before) keys) d.source_here replace d.except = .ok m ∧
    write_at d.before keys "" m = .ok d.after
  table : d.after.isTable = true

variable {sides : Sides} {dog : String} {keys : List Key} {specs : List (List Key)}
variable {source target : Value α} {d : Draft α} {plan : Plan α}

theorem draft_ok : draft sides dog keys specs replace source target = .ok d ↔
    Drafts dog keys specs replace source target d := by
  have hhere (o : Option (Value α)) :
      (if keys = [] then o else o.bind (·.walk keys)) = look o keys := by
    split_ifs with hkeys
    · rw [hkeys, Nest.look_nil]
    · rfl
  unfold draft
  dsimp only
  rw [hhere]
  cases hsource : look (dog_table source dog) keys with
  | none =>
    refine ⟨fun h => (by cases h), fun h => ?_⟩
    have hnone := h.source_here
    rw [hsource] at hnone
    cases hnone
  | some source_here =>
    have htarget : (if keys = [] then some (targetTable target dog)
        else (targetTable target dog).walk keys) = look (some (targetTable target dog)) keys :=
      hhere (some (targetTable target dog))
    have hspecs : specs.map (resolve_keys · (some source_here)
        (look (some (targetTable target dog)) keys)) = specs.map
          (readKeys (eitherHolds (some source_here) (look (some (targetTable target dog)) keys))) :=
      List.map_congr_left fun spec _ => resolve_keys_eq spec _ _
    have htable : ((dog_table target dog).filter Nest.isTable).getD .empty =
        targetTable target dog := rfl
    dsimp only
    rw [htable, htarget, hspecs]
    generalize hE : specs.map _ = E
    have hgoes (f : Value α → Except CopyRefusal (Draft α)) (g : String → CopyRefusal) :
        (if keys = [] then merge (some (targetTable target dog)) source_here replace E >>= f
          else merge ((targetTable target dog).walk keys) source_here replace E >>= fun merged =>
            (set_path (targetTable target dog) keys merged).mapError g >>= f) = .ok d ↔
          ∃ after, (∃ m, merge (look (some (targetTable target dog)) keys) source_here replace E =
            .ok m ∧ write_at (targetTable target dog) keys "" m = .ok after) ∧ f after = .ok d := by
      split_ifs with hkeys
      · subst hkeys
        simp only [Nest.look_nil, write_at, Except.ok.injEq, exists_eq_right, bind_ok_iff]
      · simp only [bind_ok_iff, mapError_eq_ok, set_path, Nest.look_some]
        constructor
        · rintro ⟨m, hm, after, hafter, hd⟩
          exact ⟨after, ⟨m, hm, hafter⟩, hd⟩
        · rintro ⟨after, ⟨m, hm, hafter⟩, hd⟩
          exact ⟨m, hm, after, hafter, hd⟩
    rw [bind_ok_iff]
    constructor
    · rintro ⟨unit', hcheck, hrest⟩
      obtain ⟨after, hafter, hd⟩ := (hgoes _ _).1 hrest
      split_ifs at hd with htableAfter
      obtain rfl := Except.ok.inj hd
      exact ⟨hsource, rfl, hE.symm, check_except_ok.1 hcheck, hafter, htableAfter⟩
    · intro h
      have hsame : source_here = d.source_here := Option.some.inj (hsource.symm.trans h.source_here)
      subst hsame
      have hexcept : d.except = E := h.except.trans hE
      refine ⟨(), check_except_ok.2 (hexcept ▸ h.passes), (hgoes _ _).2 ⟨d.after, ?_, ?_⟩⟩
      · rw [← h.before, ← hexcept]
        exact h.after
      · rw [if_pos h.table, ← h.before, ← hexcept]
        rfl

/-- What a draft's merge makes, with the source and the target at the copied
path. -/
theorem Drafts.made (h : Drafts dog keys specs replace source target d) :
    ∃ m, d.after.walk keys = some m ∧ Made (d.before.walk keys) d.source_here d.except m ∧
      (replace = true → Restored (d.before.walk keys) d.source_here d.except m) ∧
      (replace = false → m = overlay (d.before.walk keys) d.source_here d.except) ∧
      write_at d.before keys "" m = .ok d.after := by
  obtain ⟨m, hm, hafter⟩ := h.after
  have hwalk : d.after.walk keys = some m := by
    refine Nest.look_ext fun rest => ?_
    rw [← Nest.look_some d.after, ← Nest.look_append, Nest.look_some, shape_write_at hafter,
      if_pos (List.prefix_append keys rest), List.drop_left, Nest.look_some]
  refine ⟨m, hwalk, ?_⟩
  rw [Nest.look_some] at hm
  cases replace with
  | true =>
    obtain ⟨out, hout, hrestored⟩ := restored_foldlM (t := d.before.walk keys) h.passes
    rw [merge, if_pos rfl, hout] at hm
    obtain rfl := Except.ok.inj hm
    exact ⟨hrestored.made, fun _ => hrestored, fun heq => (by cases heq), hafter⟩
  | false =>
    rw [merge, if_neg (by simp)] at hm
    obtain rfl := Except.ok.inj hm
    exact ⟨made_overlay h.passes, fun heq => (by cases heq), fun _ => rfl, hafter⟩

theorem write_at_self {v : Value α} (hm : v.walk keys = some m) :
    write_at v keys "" m = .ok v := by
  obtain ⟨out, hout⟩ := write_at_ok (v := v) (e := keys) (fun q hq hne x => by
    rw [← Nest.look_some, table_above (o := some v) hq hne (by simp [hm])]
    exact fun heq => by cases heq) "" m
  rw [hout]
  refine congrArg _ (Nest.ext_shape fun p => ?_)
  rw [shape_write_at hout]
  split_ifs with hbelow habove
  · obtain ⟨rest, rfl⟩ := hbelow
    rw [List.drop_left, ← Nest.look_some v, Nest.look_append, Nest.look_some, hm, Nest.look_some]
  · exact (table_above (o := some v) habove (fun heq => hbelow (heq ▸ List.prefix_rfl))
      (by simp [hm])).symm
  · rfl

theorem Drafts.after_eq (h : Drafts dog keys specs replace source target d) :
    d.after = d.before ↔ d.after.walk keys = d.before.walk keys := by
  refine ⟨fun heq => by rw [heq], fun heq => Nest.ext_shape fun p => ?_⟩
  obtain ⟨m, hm, -, -, -, hwrite⟩ := h.made
  rw [shape_write_at hwrite]
  rw [hm] at heq
  split_ifs with hbelow habove
  · obtain ⟨rest, rfl⟩ := hbelow
    rw [List.drop_left, ← Nest.look_some d.before, Nest.look_append, Nest.look_some, ← heq,
      Nest.look_some]
  · exact (table_above (o := some d.before) habove (fun heq => hbelow (heq ▸ List.prefix_rfl))
      (by simp [← heq])).symm
  · rfl

/-- What is put together from the written table is the written table. -/
theorem Restored.again {E' : List (List Key)} {out : Value α} (h : Restored t s E m)
    (h' : Restored (some m) s E' out)
    (hkeep : ∀ e ∈ E, s.walk e ≠ none ∨ look t e ≠ none → e ∈ E') : out = m := by
  refine Nest.ext_shape fun p => ?_
  by_cases hunder' : Under E' p
  · rw [h'.excepted p hunder', Nest.look_some]
  by_cases hs : s.walk p = none
  · by_cases hunder : Under E p
    · -- Of what is read otherwise now, there was nothing on either side.
      obtain ⟨e, he, hpre⟩ := hunder
      have hnothing : ¬ (s.walk e ≠ none ∨ look t e ≠ none) := fun hsome =>
        hunder' ⟨e, hkeep e he hsome, hpre⟩
      have ht : look t e = none := by_contra fun hsome => hnothing (.inr hsome)
      have hm : m.walk p = none := by
        rw [h.made.at_except ⟨e, he, hpre⟩]
        exact look_none_below hpre ht
      rw [hm, h'.nothing p hunder' hs fun e' _ hpre' => look_none_below (o := some m) hpre' hm]
    · by_cases hput : ∃ e ∈ E, p <+: e ∧ look t e ≠ none
      · obtain ⟨e, he, hpre, hsome⟩ := hput
        rw [h.above p hunder hs e he hpre hsome]
        refine h'.above p hunder' hs e (hkeep e he (.inr hsome)) hpre ?_
        rw [Nest.look_some, h.made.walk_except he]
        exact hsome
      · have hm : m.walk p = none := h.nothing p hunder hs fun e he hpre =>
          by_contra fun hsome => hput ⟨e, he, hpre, hsome⟩
        rw [hm, h'.nothing p hunder' hs fun e' _ hpre' => look_none_below (o := some m) hpre' hm]
  · rw [h'.here p hunder' hs]
    by_cases hunder : Under E p
    · obtain ⟨e, he, hpre⟩ := hunder
      have hse : s.walk e ≠ none := fun hnone => hs (look_none_below (o := some s) hpre hnone)
      exact absurd ⟨e, hkeep e he (.inl hse), hpre⟩ hunder'
    · exact (h.here p hunder hs).symm

/-! ## Apt copies -/

/-- What the source, the target and the excepts are where a copy does what it
lists. -/
structure Apt (t : Option (Value α)) (s : Value α) (E : List (List Key)) (specs : List (List Key))
    (replace : Bool) : Prop where
  comes : ∀ p, ¬ Comes t s E p
  goes : replace = true → ∀ p, ¬ Goes t s E p
  reread : replace = true → ∀ spec ∈ specs, Passes s (readKeys (heldAfter t s E) spec)

theorem Drafts.not_blank (h : Drafts dog keys specs replace source target d)
    (hapt : Apt (d.before.walk keys) d.source_here d.except specs replace) (p : List Key) :
    ¬ Blank (d.before.walk keys) (d.after.walk keys) p := by
  obtain ⟨m, hm, hmade, hrestored, hoverlay, -⟩ := h.made
  rw [hm]
  rintro ⟨hvisited, ⟨hb, ha⟩ | ⟨hb, ha⟩⟩
  · exact hapt.comes p (hmade.comes_iff.1 ⟨hvisited, hb, ha⟩)
  · cases replace with
    | true => exact hapt.goes rfl p ((hrestored rfl).goes_iff.1 ⟨hvisited, hb, ha⟩)
    | false =>
      have hm' := hoverlay rfl
      subst hm'
      exact not_goes_overlay h.passes hvisited hb ha

/-- Planned again from the written table, an apt copy changes nothing. -/
theorem Drafts.again (h : Drafts dog keys specs replace source target d)
    (hreread : replace = true → ∀ spec ∈ specs,
      Passes d.source_here (readKeys (heldAfter (d.before.walk keys) d.source_here d.except) spec))
    {target' : Value α} (htarget : dog_table target' dog = some d.after) :
    ∃ E', Drafts dog keys specs replace source target' ⟨d.source_here, d.after, E', d.after⟩ := by
  obtain ⟨m, hm, hmade, hrestored, hoverlay, -⟩ := h.made
  have htable : targetTable target' dog = d.after := by
    rw [targetTable, htarget, Option.filter_some, if_pos h.table]
    rfl
  have hspec (spec : List Key) (hmem : spec ∈ specs) :
      readKeys (eitherHolds (some d.source_here) (d.before.walk keys)) spec ∈ d.except := by
    rw [h.except, ← h.before]
    exact List.mem_map_of_mem hmem
  refine ⟨specs.map (readKeys (eitherHolds (some d.source_here) (some m))), h.source_here,
    htable.symm, ?_, ?_, ⟨m, ?_, write_at_self hm⟩, h.table⟩
  · rw [htable, Nest.look_some, hm]
  · intro e he
    obtain ⟨spec, hmem, rfl⟩ := List.mem_map.1 he
    cases replace with
    | true =>
      rw [(hrestored rfl).eitherHolds_eq]
      exact hreread rfl spec hmem
    | false =>
      have hm' := hoverlay rfl
      subst hm'
      rw [reread_overlay h.passes (hspec spec hmem)]
      exact h.passes _ (hspec spec hmem)
  · dsimp only
    rw [Nest.look_some, hm]
    cases replace with
    | true =>
      have hpasses : ∀ e ∈ specs.map (readKeys (eitherHolds (some d.source_here) (some m))),
          Passes d.source_here e := by
        intro e he
        obtain ⟨spec, hmem, rfl⟩ := List.mem_map.1 he
        rw [(hrestored rfl).eitherHolds_eq]
        exact hreread rfl spec hmem
      obtain ⟨out, hout, hout'⟩ := restored_foldlM (t := some m) hpasses
      rw [merge, if_pos rfl, hout, (hrestored rfl).again hout' fun e he hsome => ?_]
      rw [h.except, ← h.before] at he
      obtain ⟨spec, hmem, rfl⟩ := List.mem_map.1 he
      rw [Nest.look_some] at hsome ⊢
      rw [← hmade.reread (hspec spec hmem) hsome]
      exact List.mem_map_of_mem hmem
    | false =>
      have hm' := hoverlay rfl
      have hsame : specs.map (readKeys (eitherHolds (some d.source_here) (some m))) = d.except := by
        rw [h.except, ← h.before, Nest.look_some]
        refine List.map_congr_left fun spec hmem => ?_
        rw [hm', reread_overlay h.passes (hspec spec hmem)]
      rw [merge, if_neg (by simp), hsame, hm', overlay_overlay]

variable [DecidableEq α]

/-! ## Changes of a plan -/

/-- The text a path below the copied one is listed under; the copied path
itself is named by its last key. -/
def nameOf (keys p : List Key) : String :=
  if p.foldl child_key "" = "" then keys.getLast?.getD "" else p.foldl child_key ""

theorem listed_eq (keys : List Key) (before after : Value α) : ∃ paths : List (List Key),
    paths.Nodup ∧ (∀ p, p ∈ paths ↔ Listed (before.walk keys) (after.walk keys) p) ∧
      listed keys before after = paths.map fun p =>
        entry (nameOf keys p) (look (before.walk keys) p) (look (after.walk keys) p) := by
  have hhere (v : Value α) : (if keys = [] then some v else v.walk keys) = v.walk keys := by
    split_ifs with hkeys
    · rw [hkeys, Nest.walk_nil]
    · rfl
  obtain ⟨paths, hnodup, hmem, hcollect⟩ := collects (before.walk keys) (after.walk keys)
  refine ⟨paths, hnodup, hmem, ?_⟩
  rw [listed, hhere, hhere, hcollect, List.map_map]
  refine List.map_congr_left fun p _ => ?_
  simp only [Function.comp_apply, rename, entry, nameOf]
  split_ifs <;> rfl

theorem listed_self (keys : List Key) (v : Value α) : listed keys v v = [] := by
  obtain ⟨paths, -, hmem, heq⟩ := listed_eq keys v v
  rw [heq, List.map_eq_nil_iff, List.eq_nil_iff_forall_not_mem]
  exact fun p hp => ((hmem p).1 hp).2.1 rfl

theorem plan_dog_ok : plan_dog sides dog keys specs replace source target = .ok plan ↔
    ∃ d, Drafts dog keys specs replace source target d ∧
      plan = ⟨listed keys d.before d.after,
        if (listed keys d.before d.after).isEmpty then none else some ⟨dog, d.after⟩⟩ := by
  unfold plan_dog
  rw [bind_ok_iff]
  constructor
  · rintro ⟨d, hd, hplan⟩
    exact ⟨d, draft_ok.1 hd, (Except.ok.inj hplan).symm⟩
  · rintro ⟨d, hd, rfl⟩
    exact ⟨d, draft_ok.2 hd, rfl⟩

omit [DecidableEq α] in
theorem Drafts.unique {d' : Draft α} (h : Drafts dog keys specs replace source target d)
    (h' : Drafts dog keys specs replace source target d') : d = d' := by
  have hdraft : draft ⟨"", ""⟩ dog keys specs replace source target = .ok d := draft_ok.2 h
  exact Except.ok.inj (hdraft.symm.trans (draft_ok.2 h'))

/-! ## The property -/

/-- A copy does what it lists. -/
structure Faithful (sides : Sides) (dog : String) (keys : List Key) (specs : List (List Key))
    (replace : Bool) (source target : Value α) (d : Draft α) (plan : Plan α) : Prop where
  outside : ∀ p, ¬ keys <+: p →
    shape (d.after.walk p) = if p <+: keys then .table else shape (d.before.walk p)
  excepted : ∀ e ∈ d.except, d.after.walk (keys ++ e) = d.before.walk (keys ++ e)
  replaced : replace = true → ∀ p, ¬ Under d.except p →
    (d.source_here.walk p ≠ none ∨
        (∀ e ∈ d.except, p <+: e → d.before.walk (keys ++ e) = none) →
      shape (d.after.walk (keys ++ p)) = shape (d.source_here.walk p)) ∧
    ((∃ e ∈ d.except, p <+: e ∧ d.before.walk (keys ++ e) ≠ none) →
      d.source_here.walk p = none → shape (d.after.walk (keys ++ p)) = .table)
  brought : replace = false → ∀ p, ¬ Under d.except p → d.source_here.walk p ≠ none →
    shape (d.after.walk (keys ++ p)) = shape (d.source_here.walk p)
  kept : replace = false → ∀ p k, shape (d.source_here.walk p) = .table →
    d.source_here.walk (p ++ [k]) = none →
      d.after.walk (keys ++ (p ++ [k])) = d.before.walk (keys ++ (p ++ [k]))
  listed : ∃ paths : List (List Key), paths.Nodup ∧
    (∀ p, p ∈ paths ↔ Differs (d.before.walk keys) (d.after.walk keys) p) ∧
      plan.changes = paths.map fun p =>
        entry (nameOf keys p) (d.before.walk (keys ++ p)) (d.after.walk (keys ++ p))
  sent : (plan.write = none ↔ d.after = d.before) ∧
    ∀ write, plan.write = some write → write = ⟨dog, d.after⟩
  again : ∀ target', dog_table target' dog =
      (plan.write.map Write.table).or (dog_table target dog) →
    ∃ plan', plan_dog sides dog keys specs replace source target' = .ok plan' ∧
      plan'.changes = [] ∧ plan'.write = none

/-! ### Both ways -/

/-- Where no empty table comes or goes, nothing is listed if and only if
nothing changes. -/
theorem Drafts.listed_nil (h : Drafts dog keys specs replace source target d)
    (hblank : ∀ p, ¬ Blank (d.before.walk keys) (d.after.walk keys) p) :
    listed keys d.before d.after = [] ↔ d.after = d.before := by
  constructor
  · intro hnil
    obtain ⟨paths, -, hmem, heq⟩ := listed_eq keys d.before d.after
    rw [heq, List.map_eq_nil_iff] at hnil
    rw [h.after_eq]
    by_contra hne
    obtain ⟨p, hp⟩ := exists_differs (Ne.symm hne)
    rcases differs_iff.1 hp with hlisted | hp
    · have := (hmem p).2 hlisted
      rw [hnil] at this
      cases this
    · exact hblank p hp
  · intro heq
    rw [heq, listed_self]

theorem Drafts.faithful (h : Drafts dog keys specs replace source target d)
    (hplan : plan_dog sides dog keys specs replace source target = .ok plan)
    (hapt : Apt (d.before.walk keys) d.source_here d.except specs replace) :
    Faithful sides dog keys specs replace source target d plan := by
  obtain ⟨d', hd', rfl⟩ := plan_dog_ok.1 hplan
  obtain rfl := h.unique hd'
  obtain ⟨m, hm, hmade, hrestored, hoverlay, hwrite⟩ := h.made
  have hbelow (v : Value α) (p : List Key) : v.walk (keys ++ p) = look (v.walk keys) p := by
    rw [← Nest.look_some, Nest.look_append, Nest.look_some]
  have hnil := h.listed_nil (h.not_blank hapt)
  refine ⟨fun p hp => ?_, fun e he => ?_, fun hmode p hunder => ⟨fun hcase => ?_, ?_⟩,
    fun _ p hunder hs => ?_, fun hmode p k hs hnone => ?_, ?_, ⟨?_, fun write hsome => ?_⟩, ?_⟩
  · rw [shape_write_at hwrite, if_neg hp]
  · rw [hbelow, hbelow, hm, Nest.look_some, hmade.walk_except he]
  · rw [hbelow, hm, Nest.look_some]
    by_cases hs : d.source_here.walk p = none
    · have hnothing := hcase.resolve_left (not_not_intro hs)
      rw [hs, (hrestored hmode).nothing p hunder hs fun e he hpre => ?_]
      rw [← hbelow]
      exact hnothing e he hpre
    · exact hmade.brought p hunder hs
  · rintro ⟨e, he, hpre, hsome⟩ hs
    rw [hbelow] at hsome ⊢
    rw [hm, Nest.look_some]
    exact (hrestored hmode).above p hunder hs e he hpre hsome
  · rw [hbelow, hm, Nest.look_some]
    exact hmade.brought p hunder hs
  · rw [hbelow, hbelow, hm, Nest.look_some]
    by_cases hunder : Under d.except (p ++ [k])
    · exact hmade.at_except hunder
    · rw [hoverlay hmode]
      refine overlay_kept hunder hnone fun q hq x => ?_
      rcases List.prefix_concat_iff.1 hq with rfl | hq
      · rw [Nest.look_some, hnone]
        exact fun heq => by cases heq
      · refine open_of_look (o := some d.source_here) (p := p) (fun heq => ?_) (fun y => ?_) q hq x
        · rw [Nest.look_some] at heq
          rw [heq] at hs
          cases hs
        · rw [Nest.look_some, hs]
          exact fun heq => by cases heq
  · obtain ⟨paths, hnodup, hmem, heq⟩ := listed_eq keys d.before d.after
    refine ⟨paths, hnodup, fun p => (hmem p).trans ?_, ?_⟩
    · rw [differs_iff, or_iff_left (h.not_blank hapt p)]
    · simp only [hbelow]
      exact heq
  · rw [← hnil]
    cases listed keys d.before d.after <;> simp
  · dsimp only at hsome
    split_ifs at hsome
    exact (Option.some.inj hsome).symm
  · intro target' htarget
    cases hlisted : listed keys d.before d.after with
    | nil =>
      have hsame : dog_table target' dog = dog_table target dog := by
        simpa [hlisted] using htarget
      have htable : targetTable target' dog = targetTable target dog := by
        rw [targetTable, hsame, targetTable]
      have hd'' : Drafts dog keys specs replace source target' d :=
        ⟨h.source_here, htable ▸ h.before, htable ▸ h.except, h.passes, h.after, h.table⟩
      exact ⟨_, plan_dog_ok.2 ⟨d, hd'', rfl⟩, hlisted, by simp [hlisted]⟩
    | cons change changes =>
      have hsome : dog_table target' dog = some d.after := by simpa [hlisted] using htarget
      obtain ⟨E', hd''⟩ := h.again hapt.reread hsome
      exact ⟨_, plan_dog_ok.2 ⟨_, hd'', rfl⟩, listed_self keys _, by simp [listed_self]⟩

/-- A copy that does what it lists is apt. -/
theorem Drafts.apt (h : Drafts dog keys specs replace source target d)
    (hplan : plan_dog sides dog keys specs replace source target = .ok plan)
    (hfaithful : Faithful sides dog keys specs replace source target d plan) :
    Apt (d.before.walk keys) d.source_here d.except specs replace := by
  obtain ⟨d', hd', rfl⟩ := plan_dog_ok.1 hplan
  obtain rfl := h.unique hd'
  obtain ⟨m, hm, hmade, hrestored, hoverlay, -⟩ := h.made
  -- An empty table that comes or goes is one difference more than are listed.
  have hblank (p : List Key) : ¬ Blank (d.before.walk keys) (some m) p := by
    intro hp
    obtain ⟨paths, hnodup, hmem, heq⟩ := listed_eq keys d.before d.after
    obtain ⟨paths', hnodup', hmem', heq'⟩ := hfaithful.listed
    rw [hm] at hmem hmem'
    have hlength : paths'.length = paths.length := by
      have := congrArg List.length (heq'.symm.trans heq)
      simpa using this
    have hsub : p :: paths ⊆ paths' := by
      intro q hq
      rw [hmem', differs_iff]
      rcases List.mem_cons.1 hq with rfl | hq
      · exact .inr hp
      · exact .inl ((hmem q).1 hq)
    have hout : p ∉ paths := fun hin => not_listed_blank hp ((hmem p).1 hin)
    have hle := ((List.nodup_cons.2 ⟨hout, hnodup⟩).subperm hsub).length_le
    simp [hlength] at hle
  refine ⟨fun p hp => ?_, fun hmode p hp => ?_, fun hmode spec hspec => ?_⟩
  · obtain ⟨hvisited, hb, ha⟩ := hmade.comes_iff.2 hp
    exact hblank p ⟨hvisited, .inl ⟨hb, ha⟩⟩
  · obtain ⟨hvisited, hb, ha⟩ := (hrestored hmode).goes_iff.2 hp
    exact hblank p ⟨hvisited, .inr ⟨hb, ha⟩⟩
  · rw [← (hrestored hmode).eitherHolds_eq]
    by_cases hsame : d.after = d.before
    · have hfirst : readKeys (eitherHolds (some d.source_here) (some m)) spec ∈ d.except := by
        rw [h.except, ← h.before, Nest.look_some, ← h.after_eq.1 hsame, hm]
        exact List.mem_map_of_mem hspec
      exact h.passes _ hfirst
    · obtain ⟨write, hwrite⟩ := Option.ne_none_iff_exists'.1 (mt hfaithful.sent.1.1 hsame)
      have htable : write.table = d.after := by rw [hfaithful.sent.2 write hwrite]
      have htarget : dog_table ((Nest.empty : Value α).insert "dogs"
          ((Nest.empty : Value α).insert dog d.after)) dog = some d.after := by
        rw [dog_table, Nest.get_insert, if_pos rfl, Option.bind_some, Nest.get_insert, if_pos rfl]
      obtain ⟨plan', hplan', -⟩ := hfaithful.again _ (by rw [htarget, hwrite]; simp [htable])
      obtain ⟨d'', hd'', -⟩ := plan_dog_ok.1 hplan'
      have hsource : d''.source_here = d.source_here :=
        Option.some.inj (hd''.source_here.symm.trans h.source_here)
      have hbefore := hd''.before
      rw [targetTable, htarget, Option.filter_some, if_pos h.table, Option.getD_some] at hbefore
      rw [← hsource]
      refine hd''.passes _ ?_
      rw [hd''.except, ← hd''.before, hbefore, hsource, Nest.look_some, hm]
      exact List.mem_map_of_mem hspec

/-- A copy does what it lists, where a plan is made. -/
def Copies (sides : Sides) (dog : String) (keys : List Key) (specs : List (List Key))
    (replace : Bool) (source target : Value α) : Prop :=
  ∀ d plan, draft sides dog keys specs replace source target = .ok d →
    plan_dog sides dog keys specs replace source target = .ok plan →
      Faithful sides dog keys specs replace source target d plan

/-- **A settings copy does what it lists**, for all tables, paths, excepts and
both modes, if and only if no empty table comes or goes and, with `replace`,
the excepts are still read through tables of the source. -/
theorem copies_iff (sides : Sides) (dog : String) (keys : List Key) (specs : List (List Key))
    (replace : Bool) (source target : Value α) :
    Copies sides dog keys specs replace source target ↔
      ∀ plan s, plan_dog sides dog keys specs replace source target = .ok plan →
        look (dog_table source dog) keys = some s →
          Apt ((targetTable target dog).walk keys) s
            (specs.map (resolve_keys · (some s) ((targetTable target dog).walk keys))) specs
            replace := by
  have hspecs (d : Draft α) (h : Drafts dog keys specs replace source target d) :
      specs.map (resolve_keys · (some d.source_here) ((targetTable target dog).walk keys)) =
        d.except := by
    rw [h.except]
    exact List.map_congr_left fun spec _ => resolve_keys_eq spec _ _
  constructor
  · intro h plan s hplan hs
    obtain ⟨d, hd, -⟩ := plan_dog_ok.1 hplan
    obtain rfl : d.source_here = s := Option.some.inj (hd.source_here.symm.trans hs)
    rw [hspecs d hd, ← hd.before]
    exact hd.apt hplan (h d plan (draft_ok.2 hd) hplan)
  · intro h d plan hdraft hplan
    have hd := draft_ok.1 hdraft
    have hapt := h plan d.source_here hplan hd.source_here
    rw [hspecs d hd, ← hd.before] at hapt
    exact hd.faithful hplan hapt

/-- A sheep whose dog `kelpie` has the given table. -/
def sheepOf (table : Value ℕ) : Value ℕ :=
  (Nest.empty : Value ℕ).insert "dogs" ((Nest.empty : Value ℕ).insert "kelpie" table)

/-- Of an empty table that is copied nothing is listed, and nothing is sent. -/
theorem empty_table_unlisted : ¬ Copies ⟨"shep", "api"⟩ "kelpie" [] [] false
    (sheepOf ((Nest.empty : Value ℕ).insert "a" .empty)) (sheepOf .empty) := by
  have htable (v : Value ℕ) : dog_table (sheepOf v) "kelpie" = some v := by
    rw [dog_table, sheepOf, Nest.get_insert, if_pos rfl, Option.bind_some, Nest.get_insert,
      if_pos rfl]
  let s : Value ℕ := (Nest.empty : Value ℕ).insert "a" .empty
  have hd : Drafts "kelpie" [] [] false (sheepOf s) (sheepOf .empty)
      ⟨s, .empty, [], overlay (some .empty) s []⟩ := by
    refine ⟨by rw [htable]; rfl, by rw [targetTable, htable]; rfl, rfl, fun e he => (by cases he),
      ⟨overlay (some .empty) s [], rfl, rfl⟩, ?_⟩
    exact rfl
  intro h
  obtain ⟨plan, hplan⟩ : ∃ plan, plan_dog ⟨"shep", "api"⟩ "kelpie" [] [] false (sheepOf s)
      (sheepOf .empty) = .ok plan := ⟨_, plan_dog_ok.2 ⟨_, hd, rfl⟩⟩
  refine (hd.apt hplan (h _ _ (draft_ok.2 hd) hplan)).comes ["a"] ?_
  have hkey : s.walk ["a"] = some .empty := by
    rw [Nest.walk_cons, Nest.look_nil, Nest.get_insert, if_pos rfl]
  refine ⟨fun ⟨e, he, _⟩ => (by cases he), rfl, fun q hq hne x heq => ?_, .empty, hkey, rfl,
    fun k hk => absurd rfl hk⟩
  cases q with
  | nil => cases heq
  | cons k q =>
    obtain ⟨rfl, hnil⟩ := prefix_cons_iff.1 hq
    rw [List.prefix_nil.1 hnil] at hne
    exact hne rfl

end Copy

end Shep

import Mathlib.Data.Finset.Union
import Shep.Template.Model

/-!
# Rotation — noticing that a value a dog names has moved

`secrets_watch.rs`'s `Watcher` and what it asks of `rotation.rs`. A tick
meets a `Look`: the stamps of the two files and what reading each of them
comes to. The files themselves are a `Disk`, and a run is their rewrites
with the ticks among them, at each of which any read may fail.
-/

namespace Shep

namespace Rotation

open Secrets (NamespaceTable SecretView)
open Template (Text referencesIn)

/-! ## The files -/

/-- `FileStamp`. -/
structure FileStamp where
  modified : ℕ
  len : ℕ
  inode : ℕ
  changed : ℤ × ℤ
  deriving Repr, DecidableEq

/-- `Stamp`: `None` for a file that is absent. -/
abbrev Stamp := Option FileStamp

/-- The string values of a section, in the order they are walked. -/
abbrev Section := List Text

/-- The two files. One that does not parse has no content, nor has a
`dogs.toml` that is absent; a store that is absent is an empty one. -/
structure Disk where
  storeStamp : Stamp
  store : Option NamespaceTable
  dogsStamp : Stamp
  dogs : Option (List (String × Section))

/-- The reads that fail at a tick: of the store, of `dogs.toml`, and of the
sections of some dogs, each of which reads the file again. -/
structure Faults where
  store : Bool := false
  source : Bool := false
  sections : List String := []

/-- What a tick meets. -/
structure Look where
  stamps : Stamp × Stamp
  /-- `secrets::all`. -/
  store : Option NamespaceTable
  /-- The dogs of `dogs.toml`, in the order of their names. -/
  source : Option (List String)
  /-- `dog_section`. -/
  sectionOf : String → Option Section

/-- The look of a tick at the files. A section that is not there is empty. -/
def Disk.look (disk : Disk) (faults : Faults) : Look where
  stamps := (disk.storeStamp, disk.dogsStamp)
  store := if faults.store then none else disk.store
  source := if faults.source then none else disk.dogs.map fun dogs => dogs.map Prod.fst
  sectionOf dog :=
    if faults.sections.contains dog then none
    else disk.dogs.map fun dogs => (dogs.lookup dog).getD []

/-! ## Who names what -/

/-- `section_references`. -/
def sectionReferences (strings : Section) : Finset Text :=
  strings.foldl (fun found text => found ∪ referencesIn text) ∅

/-- `str::split_once`. -/
def splitOnce (sep : Char) (text : Text) : Option (Text × Text) :=
  match text.span (· != sep) with
  | (_, []) => none
  | (before, _ :: behind) => some (before, behind)

/-- The key a reference names in a namespace, if it names one there. -/
def keyIn (ns : Option Text) (reference : Text) : Finset Text :=
  match ns, splitOnce '/' reference with
  | none, none => {reference}
  | some wanted, some (found, key) => if wanted = found then {key} else ∅
  | _, _ => ∅

/-- `dogs_referencing`. -/
def dogsReferencing (look : Look) (ns : Option Text) : List (String × Finset Text) :=
  match look.source with
  | none => []
  | some dogs =>
    dogs.filterMap fun dog =>
      match look.sectionOf dog with
      | none => none
      | some strings =>
        let keys := (sectionReferences strings).biUnion (keyIn ns)
        if keys = ∅ then none else some (dog, keys)

/-! ## The watcher -/

/-- `Watcher`, without the paths. The baseline is a map from the keys that
were named to what they resolved to. -/
structure Watcher where
  environment : String
  seen : Option (Stamp × Stamp) := none
  broken : Bool := false
  baseline : Option (Text → Option (Option String)) := none

/-- `new`. -/
def Watcher.new (environment : String) : Watcher := { environment }

/-- What a key of the operator's store resolves to. -/
def resolved (environment : String) (store : NamespaceTable) (key : Text) : Option String :=
  ((SecretView.mk environment store {}).resolve ⟨none, String.ofList key⟩).value?

/-- The `resolved` of a tick: the keys named, and what they resolve to. -/
def reading (environment : String) (store : NamespaceTable) (named : List (String × Finset Text))
    (key : Text) : Option (Option String) :=
  if named.any fun names => decide (key ∈ names.2) then some (resolved environment store key)
  else none

/-- The `moved` of a tick: a key it has read that it had another value of. -/
def moved (baseline : Option (Text → Option (Option String)))
    (now : Text → Option (Option String)) (key : Text) : Bool :=
  match baseline with
  | none => false
  | some before =>
    match before key, now key with
    | some prev, some value => prev != value
    | _, _ => false

/-- `tick`. -/
def tick (look : Look) (watcher : Watcher) : Watcher × List String :=
  if watcher.seen = some look.stamps then (watcher, [])
  else
    match look.store with
    | none => ({ watcher with broken := true }, [])
    | some store =>
      let named := dogsReferencing look none
      let now := reading watcher.environment store named
      let affected := named.filter fun names =>
        decide (∃ key ∈ names.2, moved watcher.baseline now key = true)
      ({ watcher with seen := some look.stamps, broken := false, baseline := some now },
        affected.map Prod.fst)

/-! ## Runs -/

/-- What happens to the files and the watcher. -/
inductive Event where
  | rewriteStore (stamp : Stamp) (store : Option NamespaceTable)
  | rewriteDogs (stamp : Stamp) (dogs : Option (List (String × Section)))
  | tick (faults : Faults)

/-- The looks of a run's ticks. -/
def looks : Disk → List Event → List Look
  | _, [] => []
  | disk, .rewriteStore stamp store :: rest =>
    looks { disk with storeStamp := stamp, store := store } rest
  | disk, .rewriteDogs stamp dogs :: rest =>
    looks { disk with dogsStamp := stamp, dogs := dogs } rest
  | disk, .tick faults :: rest => disk.look faults :: looks disk rest

/-- The watcher after some looks. -/
def after (watcher : Watcher) (looks : List Look) : Watcher :=
  looks.foldl (fun watcher look => (tick look watcher).1) watcher

/-- The dogs announced at each of them. -/
def told : Watcher → List Look → List (List String)
  | _, [] => []
  | watcher, look :: rest => (tick look watcher).2 :: told (tick look watcher).1 rest

end Rotation

end Shep

/-!
## Which rotations are told

A tick replaces the baseline by what it read, of the keys named as it read
`dogs.toml`. **`rotations_told`**: a rotation between two ticks at which a
dog names the key is announced to it if the dog names it at every look taken
on the way, and nobody is announced without a value that differs from the
last reading of its key.

`rotation_missed` is a run with one tick between at which `dogs.toml` does
not parse: the value is forgotten there, and its successor is read as a
first sighting.
-/

namespace Shep

namespace Rotation

open Secrets (NamespaceTable)
open Template (Text)

variable {watcher w : Watcher} {look a b l : Look} {ls : List Look} {key : Text} {dog : String}
  {environment : String} {store : NamespaceTable}

/-! ## One tick -/

/-- A dog's section names a key, as a look reads it. -/
def Look.names (look : Look) (dog : String) (key : Text) : Prop :=
  ∃ keys, (dog, keys) ∈ dogsReferencing look none ∧ key ∈ keys

/-- What a key resolves to, as a look reads the store. -/
def Look.value (look : Look) (environment : String) (key : Text) : Option (Option String) :=
  look.store.map fun store => resolved environment store key

/-- The tick reads the store, and finds it changed. -/
def takes (watcher : Watcher) (look : Look) : Bool :=
  decide (watcher.seen ≠ some look.stamps) && look.store.isSome

/-- A baseline is what a look reads. -/
def Reading (environment : String) (look : Look) (now : Text → Option (Option String)) : Prop :=
  ∀ key value, now key = some value ↔
    look.value environment key = some value ∧ ∃ dog, look.names dog key

theorem tick_passes (h : takes watcher look = false) :
    (tick look watcher).2 = [] ∧ (tick look watcher).1.seen = watcher.seen ∧
      (tick look watcher).1.baseline = watcher.baseline ∧
      (tick look watcher).1.environment = watcher.environment := by
  unfold takes at h
  unfold tick
  by_cases hseen : watcher.seen = some look.stamps
  · rw [if_pos hseen]
    exact ⟨rfl, rfl, rfl, rfl⟩
  · rw [if_neg hseen]
    cases hstore : look.store with
    | none => exact ⟨rfl, rfl, rfl, rfl⟩
    | some store => simp [hseen, hstore] at h

theorem reading_iff (environment : String) (hstore : look.store = some store) :
    Reading environment look (reading environment store (dogsReferencing look none)) := by
  intro key value
  have hany : ((dogsReferencing look none).any fun names => decide (key ∈ names.2)) = true ↔
      ∃ dog, look.names dog key := by
    simp only [List.any_eq_true, decide_eq_true_eq, Prod.exists, Look.names]
  unfold reading Look.value
  rw [hstore, Option.map_some]
  split
  · next hn => exact (and_iff_left (hany.1 hn)).symm
  · next hn =>
    constructor
    · exact fun h => nomatch h
    · exact fun h => absurd (hany.2 h.2) hn

theorem moved_iff {baseline : Option (Text → Option (Option String))}
    {now : Text → Option (Option String)} : moved baseline now key = true ↔
      ∃ before prev value, baseline = some before ∧ before key = some prev ∧
        now key = some value ∧ prev ≠ value := by
  unfold moved
  cases baseline with
  | none => simp
  | some before =>
    cases hprev : before key with
    | none => simp [hprev]
    | some prev => cases hnow : now key <;> simp [hprev]

theorem tick_takes (h : takes watcher look = true) :
    (tick look watcher).1.seen = some look.stamps ∧
      (tick look watcher).1.environment = watcher.environment ∧
      (∃ now, (tick look watcher).1.baseline = some now ∧
        Reading watcher.environment look now) ∧
      ∀ dog, dog ∈ (tick look watcher).2 ↔ ∃ key, look.names dog key ∧
        ∃ before prev, watcher.baseline = some before ∧ before key = some prev ∧
          look.value watcher.environment key ≠ some prev := by
  unfold takes at h
  rw [Bool.and_eq_true, decide_eq_true_eq] at h
  obtain ⟨hseen, hstore⟩ := h
  obtain ⟨store, hstore⟩ := Option.isSome_iff_exists.1 hstore
  have hreading := reading_iff watcher.environment hstore
  unfold tick
  rw [if_neg hseen, hstore]
  refine ⟨rfl, rfl, ⟨_, rfl, hreading⟩, fun dog => ?_⟩
  have hvalue : ∀ key, look.value watcher.environment key =
      some (resolved watcher.environment store key) := by
    intro key
    unfold Look.value
    rw [hstore]
    rfl
  simp only [List.mem_map, List.mem_filter, decide_eq_true_eq, Prod.exists, exists_and_right,
    exists_eq_right, moved_iff]
  constructor
  · rintro ⟨keys, hmem, key, hkey, before, prev, value, hb, hp, hv, hne⟩
    refine ⟨key, ⟨keys, hmem, hkey⟩, before, prev, hb, hp, fun heq => hne ?_⟩
    exact Option.some.inj (heq.symm.trans ((hreading key value).1 hv).1)
  · rintro ⟨key, ⟨keys, hmem, hkey⟩, before, prev, hb, hp, hne⟩
    refine ⟨keys, hmem, key, hkey, before, prev, _, hb, hp,
      (hreading key _).2 ⟨hvalue key, dog, keys, hmem, hkey⟩, fun heq => hne ?_⟩
    rw [hvalue key, heq]

/-! ## A run of ticks -/

/-- The looks taken of a run. -/
def taken : Watcher → List Look → List Look
  | _, [] => []
  | watcher, look :: rest =>
    if takes watcher look then look :: taken (tick look watcher).1 rest
    else taken (tick look watcher).1 rest

theorem after_append {more : List Look} :
    after watcher (ls ++ more) = after (after watcher ls) more := List.foldl_append

theorem taken_cons (watcher : Watcher) (look : Look) (ls : List Look) :
    taken watcher (look :: ls) =
      (if takes watcher look then [look] else []) ++ taken (tick look watcher).1 ls := by
  conv_lhs => unfold taken
  split <;> rfl

theorem taken_append {more : List Look} :
    taken watcher (ls ++ more) = taken watcher ls ++ taken (after watcher ls) more := by
  induction ls generalizing watcher with
  | nil => rfl
  | cons look ls ih => rw [List.cons_append, taken_cons, taken_cons, ih, List.append_assoc]; rfl

theorem after_environment : (after watcher ls).environment = watcher.environment := by
  induction ls generalizing watcher with
  | nil => rfl
  | cons look ls ih =>
    refine Eq.trans ih ?_
    cases h : takes watcher look with
    | true => exact (tick_takes h).2.1
    | false => exact (tick_passes h).2.2.2

/-- The watcher as the last look it took leaves it. -/
def Left (watcher : Watcher) (look : Look) : Prop :=
  watcher.seen = some look.stamps ∧
    ∃ now, watcher.baseline = some now ∧ Reading watcher.environment look now

/-- A watcher is as it was made until it takes a look, and then as the last
one leaves it. -/
theorem after_new (environment : String) (ls : List Look) :
    (taken (.new environment) ls = [] ∧ (after (.new environment) ls).seen = none ∧
        (after (.new environment) ls).baseline = none) ∨
      ∃ look, (taken (.new environment) ls).getLast? = some look ∧ look ∈ ls ∧
        look.store.isSome = true ∧ Left (after (.new environment) ls) look := by
  induction ls using List.reverseRecOn with
  | nil => exact Or.inl ⟨rfl, rfl, rfl⟩
  | append_singleton ls look ih =>
    rw [taken_append, taken_cons, after_append]
    have hstep : after (after (.new environment) ls) [look] =
        (tick look (after (.new environment) ls)).1 := rfl
    rw [hstep]
    cases h : takes (after (.new environment) ls) look with
    | true =>
      obtain ⟨hseen, henv, hnow, -⟩ := tick_takes h
      have hstore : look.store.isSome = true := (Bool.and_eq_true_iff.1 h).2
      refine Or.inr ⟨look, ?_, by simp, hstore, hseen, henv ▸ hnow⟩
      simp [taken]
    | false =>
      obtain ⟨-, hseen, hbase, henv⟩ := tick_passes h
      unfold Left at ih ⊢
      rw [hseen, hbase, henv]
      simp only [Bool.false_eq_true, if_false, taken, List.append_nil]
      rcases ih with ih | ⟨last, hlast, hmem, hstore, hleft⟩
      · exact Or.inl ih
      · exact Or.inr ⟨last, hlast, by simp [hmem], hstore, hleft⟩

/-! ## Which rotations are told -/

/-- A store that has not moved reads the same. -/
def Coherent (ls : List Look) : Prop :=
  ∀ a ∈ ls, ∀ b ∈ ls, a.stamps.1 = b.stamps.1 → ∀ s t, a.store = some s → b.store = some t → s = t

theorem Coherent.value {x y : Option String} (h : Coherent ls) (ha : a ∈ ls) (hb : b ∈ ls)
    (hstamps : a.stamps.1 = b.stamps.1) (hx : a.value environment key = some x)
    (hy : b.value environment key = some y) : x = y := by
  obtain ⟨s, hs, rfl⟩ := Option.map_eq_some_iff.1 hx
  obtain ⟨t, ht, rfl⟩ := Option.map_eq_some_iff.1 hy
  rw [h a ha b hb hstamps s t hs ht]

/-- The baseline has a value of the key, that of the store as last seen. -/
def Tracks (watcher : Watcher) (key : Text) (value : Option String) (ls : List Look) : Prop :=
  (∃ now, watcher.baseline = some now ∧ now key = some value) ∧
    ∀ look ∈ ls, watcher.seen = some look.stamps → ∀ v,
      look.value watcher.environment key = some v → v = value

/-- The induction is on the looks, up to the first at which the value moved:
the dog is told there. -/
theorem told_of_tracks {value v : Option String} (hcoherent : Coherent ls)
    (ht : Tracks watcher key value ls) (hb : b ∈ ls)
    (hv : b.value watcher.environment key = some v) (hne : v ≠ value)
    (hkept : ∀ look ∈ taken watcher ls, look.names dog key) :
    ∃ announced ∈ told watcher ls, dog ∈ announced := by
  induction ls generalizing watcher with
  | nil => cases hb
  | cons look ls ih =>
    rw [taken_cons] at hkept
    have hrest : Coherent ls := fun a ha b hb =>
      hcoherent a (List.mem_cons_of_mem _ ha) b (List.mem_cons_of_mem _ hb)
    obtain ⟨⟨now, hbase, hnow⟩, hseen⟩ := ht
    suffices h : dog ∈ (tick look watcher).2 ∨
        ∃ announced ∈ told (tick look watcher).1 ls, dog ∈ announced by
      rcases h with h | ⟨announced, hmem, h⟩
      · exact ⟨_, List.mem_cons_self, h⟩
      · exact ⟨announced, List.mem_cons_of_mem _ hmem, h⟩
    cases h : takes watcher look with
    | false =>
      obtain ⟨-, hs, hba, he⟩ := tick_passes h
      rcases List.mem_cons.1 hb with rfl | hb
      · -- nothing has been rewritten since the last look taken
        have hstore : b.store.isSome = true := by
          obtain ⟨s, hs, -⟩ := Option.map_eq_some_iff.1 hv
          exact Option.isSome_iff_exists.2 ⟨s, hs⟩
        have hsame : watcher.seen = some b.stamps := by
          simpa [takes, hstore] using h
        exact absurd (hseen b List.mem_cons_self hsame v hv) hne
      · refine Or.inr (ih hrest ⟨⟨now, hba.trans hbase, hnow⟩, ?_⟩ hb (he ▸ hv) ?_)
        · rw [hs, he]
          exact fun look hl => hseen look (List.mem_cons_of_mem _ hl)
        · exact fun look hl => hkept look (List.mem_append_right _ hl)
    | true =>
      obtain ⟨hs, he, ⟨now', hbase', hread⟩, htold⟩ := tick_takes h
      have hnames : look.names dog key := hkept look (by simp [h])
      obtain ⟨store, hstore⟩ := Option.isSome_iff_exists.1 (Bool.and_eq_true_iff.1 h).2
      have hvalue : look.value watcher.environment key =
          some (resolved watcher.environment store key) := by
        unfold Look.value
        rw [hstore]
        rfl
      by_cases hmoved : resolved watcher.environment store key = value
      · rw [hmoved] at hvalue
        rcases List.mem_cons.1 hb with rfl | hb
        · exact absurd (Option.some.inj (hv.symm.trans hvalue)) hne
        · refine Or.inr (ih hrest
            ⟨⟨now', hbase', (hread key value).2 ⟨hvalue, dog, hnames⟩⟩, ?_⟩ hb (he ▸ hv) ?_)
          · intro other hother hsame v hv
            rw [hs] at hsame
            rw [he] at hv
            exact hcoherent.value (List.mem_cons_of_mem _ hother) List.mem_cons_self
              (congrArg Prod.fst (Option.some.inj hsame)).symm hv hvalue
          · exact fun other hother => hkept other (List.mem_append_right _ hother)
      · refine Or.inl ((htold dog).2 ⟨key, hnames, now, value, hbase, hnow, fun heq => hmoved ?_⟩)
        exact Option.some.inj (hvalue.symm.trans heq)

/-- The last reading of a key: what it resolved to at the last look taken at
which a dog named it. -/
def lastReading (environment : String) (ls : List Look) (key : Text) : Option (Option String) :=
  ((taken (.new environment) ls).reverse.find? fun look =>
    (dogsReferencing look none).any fun names => decide (key ∈ names.2)).bind fun look =>
      look.value environment key

/-- Who is told names a key that had another value at its last reading. -/
theorem lastReading_of_told (h : dog ∈ (tick look (after (.new environment) ls)).2) :
    ∃ key prev, look.names dog key ∧ lastReading environment ls key = some prev ∧
      ∃ value, look.value environment key = some value ∧ value ≠ prev := by
  cases ht : takes (after (.new environment) ls) look with
  | false =>
    rw [(tick_passes ht).1] at h
    cases h
  | true =>
    obtain ⟨key, hnames, before, prev, hbase, hprev, hne⟩ := ((tick_takes ht).2.2.2 dog).1 h
    have henv : (after (.new environment) ls).environment = environment := after_environment
    rw [henv] at hne
    rcases after_new environment ls with ⟨-, -, hnone⟩ | ⟨last, hlast, -, -, -, now, hnow, hread⟩
    · rw [hnone] at hbase
      cases hbase
    · obtain rfl := Option.some.inj (hnow.symm.trans hbase)
      rw [henv] at hread
      obtain ⟨hvalue, named, keys, hmem, hkey⟩ := (hread key prev).1 hprev
      refine ⟨key, prev, hnames, ?_, ?_⟩
      · unfold lastReading
        rw [List.getLast?_eq_head?_reverse] at hlast
        obtain ⟨rest, hrest⟩ := List.head?_eq_some_iff.1 hlast
        rw [hrest, List.find?_cons_of_pos]
        · exact hvalue
        · exact List.any_eq_true.2 ⟨_, hmem, decide_eq_true hkey⟩
      · obtain ⟨store, hstore⟩ := Option.isSome_iff_exists.1 (Bool.and_eq_true_iff.1 ht).2
        have hlook : look.value environment key = some (resolved environment store key) := by
          unfold Look.value
          rw [hstore]
          rfl
        exact ⟨_, hlook, fun heq => hne (heq ▸ hlook)⟩

/-! ## Files -/

/-- The contents the store has, with the stamps it has them under. -/
def stores (disk : Disk) (events : List Event) : List (Stamp × Option NamespaceTable) :=
  (disk.storeStamp, disk.store) :: events.filterMap fun event =>
    match event with
    | .rewriteStore stamp store => some (stamp, store)
    | _ => none

/-- A rewrite of the store changes its stamp: one stamp stands for one
content. -/
def Stamped (disk : Disk) (events : List Event) : Prop :=
  ∀ p ∈ stores disk events, ∀ q ∈ stores disk events, p.1 = q.1 → p.2 = q.2

/-- A tick reads one of the contents, or fails to. -/
theorem mem_looks {disk : Disk} {events : List Event} (h : look ∈ looks disk events) :
    ∃ content, (look.stamps.1, content) ∈ stores disk events ∧
      (look.store = none ∨ look.store = content) := by
  induction events generalizing disk with
  | nil => cases h
  | cons event events ih =>
    cases event with
    | rewriteStore stamp store =>
      obtain ⟨content, hmem, hc⟩ := ih h
      exact ⟨content, List.mem_cons_of_mem _ hmem, hc⟩
    | rewriteDogs stamp dogs => exact @ih { disk with dogsStamp := stamp, dogs := dogs } h
    | tick faults =>
      rcases List.mem_cons.1 h with rfl | h
      · refine ⟨disk.store, List.mem_cons_self, ?_⟩
        unfold Disk.look
        cases faults.store with
        | true => exact Or.inl rfl
        | false => exact Or.inr rfl
      · exact ih h

theorem coherent_looks {disk : Disk} {events : List Event} (h : Stamped disk events) :
    Coherent (looks disk events) := by
  intro a ha b hb hstamps s t hs ht
  obtain ⟨x, hx, hax⟩ := mem_looks ha
  obtain ⟨y, hy, hby⟩ := mem_looks hb
  have hxy : x = y := h _ hx _ hy hstamps
  rcases hax with hax | hax
  · rw [hax] at hs; cases hs
  · rcases hby with hby | hby
    · rw [hby] at ht; cases ht
    · rw [hax] at hs
      rw [hby, ← hxy] at ht
      exact Option.some.inj (hs.symm.trans ht)

/-- After a tick at which the store reads well, the last look taken saw the
files as they are. -/
theorem last_taken (environment : String) (ls : List Look) (hstore : a.store.isSome = true) :
    ∃ last, (taken (.new environment) (ls ++ [a])).getLast? = some last ∧ last ∈ ls ++ [a] ∧
      last.store.isSome = true ∧ last.stamps = a.stamps ∧
      Left (after (.new environment) (ls ++ [a])) last := by
  have hseen : (after (.new environment) (ls ++ [a])).seen = some a.stamps := by
    rw [after_append]
    cases h : takes (after (.new environment) ls) a with
    | true => exact (tick_takes h).1
    | false =>
      have hsame : (after (.new environment) ls).seen = some a.stamps := by
        simpa [takes, hstore] using h
      exact (tick_passes h).2.1.trans hsame
  rcases after_new environment (ls ++ [a]) with ⟨-, hnone, -⟩ | ⟨last, hlast, hmem, hread, hleft⟩
  · rw [hseen] at hnone
    cases hnone
  · exact ⟨last, hlast, hmem, hread, Option.some.inj (hleft.1.symm.trans hseen), hleft⟩

variable {disk : Disk} {events : List Event}

/-- **Which rotations are told.** Between two ticks `a` and `b` at which the
store reads well and a dog names the key, with values that differ, the dog
is told, if it names the key as `dogs.toml` reads at every look taken from
the last one up to `a` to `b`. And who is told names a key whose value
differs from that of its last reading. -/
theorem rotations_told (environment : String) (hstamped : Stamped disk events) :
    (∀ before a between b rest, looks disk events = before ++ a :: between ++ b :: rest →
      ∀ dog key v v', a.names dog key → b.names dog key →
        a.value environment key = some v → b.value environment key = some v' → v ≠ v' →
        (∀ look ∈ (taken (.new environment) (before ++ [a])).getLast?.toList ++
            taken (after (.new environment) (before ++ [a])) (between ++ [b]),
          look.names dog key) →
        ∃ announced ∈ told (after (.new environment) (before ++ [a])) (between ++ [b]),
          dog ∈ announced) ∧
    ∀ before look rest, looks disk events = before ++ look :: rest →
      ∀ dog ∈ (tick look (after (.new environment) before)).2,
        ∃ key prev, look.names dog key ∧ lastReading environment before key = some prev ∧
          ∃ value, look.value environment key = some value ∧ value ≠ prev := by
  refine ⟨?_, fun before look rest _ dog h => lastReading_of_told h⟩
  intro before a between b rest hlooks dog key v v' _ _ hv hv' hne hkept
  have hshape : before ++ a :: between ++ b :: rest =
      (before ++ [a]) ++ (between ++ [b]) ++ rest := by simp
  have hcoherent := coherent_looks hstamped
  rw [hlooks, hshape] at hcoherent
  have hstore : a.store.isSome = true := by
    obtain ⟨s, hs, -⟩ := Option.map_eq_some_iff.1 hv
    exact Option.isSome_iff_exists.2 ⟨s, hs⟩
  obtain ⟨last, hlast, hmem, hlaststore, hstamps, hseen, now, hbase, hread⟩ :=
    last_taken environment before hstore
  have henv : (after (.new environment) (before ++ [a])).environment = environment :=
    after_environment
  rw [hlast] at hkept
  have hfirst : ∀ look ∈ before ++ [a], look ∈ (before ++ [a]) ++ (between ++ [b]) ++ rest :=
    fun look hl => List.mem_append_left _ (List.mem_append_left _ hl)
  -- the baseline has the value of the key at `a`
  have hlastv : last.value environment key = some v := by
    obtain ⟨store, hls⟩ := Option.isSome_iff_exists.1 hlaststore
    have hvalue : last.value environment key = some (resolved environment store key) := by
      unfold Look.value
      rw [hls]
      rfl
    rw [hvalue, hcoherent.value (hfirst last hmem) (hfirst a (by simp))
      (congrArg Prod.fst hstamps) hvalue hv]
  have hnow : now key = some v := by
    rw [henv] at hread
    exact (hread key v).2 ⟨hlastv, dog, hkept last (by simp)⟩
  have hsecond : ∀ look ∈ between ++ [b], look ∈ (before ++ [a]) ++ (between ++ [b]) ++ rest :=
    fun look hl => List.mem_append_left _ (List.mem_append_right _ hl)
  have htracks : Tracks (after (.new environment) (before ++ [a])) key v (between ++ [b]) := by
    refine ⟨⟨now, hbase, hnow⟩, fun look hl hsame x hx => ?_⟩
    rw [hseen] at hsame
    rw [henv] at hx
    exact hcoherent.value (hsecond look hl) (hfirst last hmem)
      (congrArg Prod.fst (Option.some.inj hsame)).symm hx hlastv
  have hlater : Coherent (between ++ [b]) := fun x hx y hy =>
    hcoherent x (hsecond x hx) y (hsecond y hy)
  exact told_of_tracks hlater htracks (by simp) (henv.symm ▸ hv') hne.symm
    fun look hl => hkept look (by simp [hl])

/-! ## Runs of one dog -/

/-- A store with one key, in one environment. -/
def storeOf (value : String) : NamespaceTable :=
  (∅ : NamespaceTable).insert "K" ((∅ : Std.ExtTreeMap String String).insert "production" value)

/-- A `dogs.toml` in which one dog names that key. -/
def barkToml : List (String × Section) := [("bark", [Template.braced "secret:K".toList])]

/-- The stamp of a file's nth content. -/
def stampAt (n : ℕ) : Stamp := some ⟨n, 0, n, (0, 0)⟩

def barkDisk : Disk := ⟨stampAt 0, some (storeOf "1"), stampAt 0, some barkToml⟩

/-- The store is rewritten between two ticks. -/
def rotated : List Event := [.tick {}, .rewriteStore (stampAt 1) (some (storeOf "2")), .tick {}]

/-- And before it is, a tick meets a `dogs.toml` that does not parse. -/
def rotatedBehind : List Event :=
  [.tick {}, .rewriteDogs (stampAt 1) none, .tick {}, .rewriteDogs (stampAt 2) (some barkToml),
    .rewriteStore (stampAt 1) (some (storeOf "2")), .tick {}]

theorem stamped_of_stores {events : List Event}
    (h : stores barkDisk events =
      [(stampAt 0, some (storeOf "1")), (stampAt 1, some (storeOf "2"))]) :
    Stamped barkDisk events := by
  intro p hp q hq heq
  rw [h, List.mem_pair] at hp hq
  rcases hp with rfl | rfl <;> rcases hq with rfl | rfl <;>
    first
      | rfl
      | exact absurd heq (by decide)

/-- The files once the store is rewritten. -/
def rotatedDisk : Disk := { barkDisk with storeStamp := stampAt 1, store := some (storeOf "2") }

theorem barkDisk_look : (barkDisk.look {}).names "bark" ['K'] ∧
    (barkDisk.look {}).value "production" ['K'] = some (some "1") :=
  ⟨⟨{['K']}, by decide +kernel, by decide⟩, by decide +kernel⟩

theorem rotatedDisk_look : (rotatedDisk.look {}).names "bark" ['K'] ∧
    (rotatedDisk.look {}).value "production" ['K'] = some (some "2") :=
  ⟨⟨{['K']}, by decide +kernel, by decide⟩, by decide +kernel⟩

/-- A rotation that is told. -/
theorem rotations_told_bark :
    ∃ announced ∈ told (after (.new "production") [barkDisk.look {}]) [rotatedDisk.look {}],
      "bark" ∈ announced := by
  have hstamped : Stamped barkDisk rotated := stamped_of_stores rfl
  refine (rotations_told "production" hstamped).1 [] (barkDisk.look {}) [] (rotatedDisk.look {}) []
    rfl "bark" ['K'] (some "1") (some "2") barkDisk_look.1 rotatedDisk_look.1 barkDisk_look.2
    rotatedDisk_look.2 (by decide) ?_
  intro look hl
  have hmem : look ∈ [barkDisk.look {}, rotatedDisk.look {}] := hl
  rcases List.mem_pair.1 hmem with rfl | rfl
  · exact barkDisk_look.1
  · exact rotatedDisk_look.1

/-- **A rotation that is missed**: `dogs.toml` did not parse at a tick in
between. -/
theorem rotation_missed : Stamped barkDisk rotatedBehind ∧
    ∃ a between b, looks barkDisk rotatedBehind = [] ++ a :: between ++ b :: [] ∧
      a.names "bark" ['K'] ∧ b.names "bark" ['K'] ∧
      a.value "production" ['K'] = some (some "1") ∧
      b.value "production" ['K'] = some (some "2") ∧
      ∀ announced ∈ told (after (.new "production") ([] ++ [a])) (between ++ [b]),
        "bark" ∉ announced := by
  refine ⟨stamped_of_stores rfl, barkDisk.look {},
    [Disk.look { barkDisk with dogsStamp := stampAt 1, dogs := none } {}],
    Disk.look { rotatedDisk with dogsStamp := stampAt 2 } {}, rfl, barkDisk_look.1, ?_,
    barkDisk_look.2, ?_, ?_⟩
  · exact rotatedDisk_look.1
  · exact rotatedDisk_look.2
  · decide +kernel

end Rotation

end Shep

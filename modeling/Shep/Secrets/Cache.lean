import Shep.Common.Run
import Shep.Secrets.Model

/-!
# Secrets — what is left on the disk

**`cache_follows`**: after a push that succeeds, the cache file holds the
namespaces whose latest push asked to persist, as they are in memory, and no
others, as long as no push leaves the file alone behind a write that failed.
**`cache_left`** is a push that does, with a secret left on the disk against
the setting.
-/

namespace Shep

namespace Secrets

/-! ## Projections -/

theorem get_projected {α : Type} (keys : Finset String) (table : Std.ExtTreeMap String α) (name : String) :
    (projected keys table)[name]? = if name ∈ keys then table[name]? else none := by
  rw [projected, Std.ExtTreeMap.getElem?_filter']
  by_cases hin : name ∈ keys
  · cases table[name]? <;> simp [hin]
  · simp [hin]

theorem projected_insert {α : Type} {keys : Finset String} {name : String} (hout : name ∉ keys)
    (table : Std.ExtTreeMap String α) (v : α) :
    projected keys (table.insert name v) = projected keys table := by
  apply Std.ExtTreeMap.ext_getElem?
  intro j
  simp only [get_projected, Table.get_insert]
  by_cases hj : j = name
  · simp [hj, hout]
  · simp [hj]

theorem projected_self {α : Type} {keys : Finset String} {table : Std.ExtTreeMap String α}
    (hin : ∀ name, (table[name]?).isSome → name ∈ keys) : projected keys table = table := by
  apply Std.ExtTreeMap.ext_getElem?
  intro j
  rw [get_projected]
  split
  · rfl
  · next hout =>
    cases h : table[j]? with
    | none => rfl
    | some v => exact absurd (hin j (by simp [h])) hout

/-! ## The file and the memory -/

namespace ProviderSecrets

variable {s s' : ProviderSecrets} {p : Push} {file : Option CacheFile}

/-- The file says what the memory would have it say. -/
def InStep (s : ProviderSecrets) : Prop :=
  readCache s.cache = ⟨projected s.persisted s.namespaces, projected s.persisted s.pushed⟩

/-- The file names no namespace under its pushed pairs alone. A store never
writes one that does. -/
def Whole (file : Option CacheFile) : Prop :=
  ∀ ns : String, ((readCache file).pushed[ns]?).isSome → ((readCache file).values[ns]?).isSome

/-- A push that leaves the file alone finds the latest write to have put a
new one in place, or the file that was loaded whole. -/
def Undisturbed (s : ProviderSecrets) (p : Push) : Prop :=
  ¬ s.Rewrites p → s.writes.head? ≠ some .kept ∧ (s.writes = [] → Whole s.cache)

/-- What is kept along a run: a namespace that may reach the disk has values,
and the file is in step but behind a write that kept the old one. -/
structure Sound (s : ProviderSecrets) : Prop where
  present : ∀ ns ∈ s.persisted, (s.namespaces[ns]?).isSome
  inStep : s.writes.head? ≠ some .kept → (s.writes = [] → Whole s.cache) → s.InStep

theorem mem_load_persisted (file : Option CacheFile) (ns : String) :
    ns ∈ (load file).persisted ↔ ((readCache file).values[ns]?).isSome := by
  simp [load]

theorem load_sound (file : Option CacheFile) : (load file).Sound where
  present := fun ns hns => (mem_load_persisted file ns).1 hns
  inStep := by
    intro _ hwhole
    have hvalues : projected (load file).persisted (readCache file).values = (readCache file).values :=
      projected_self fun ns hns => (mem_load_persisted file ns).2 hns
    have hpushed : projected (load file).persisted (readCache file).pushed = (readCache file).pushed :=
      projected_self fun ns hns => (mem_load_persisted file ns).2 (hwhole rfl ns hns)
    rw [InStep]
    show readCache file = ⟨projected (load file).persisted (readCache file).values,
      projected (load file).persisted (readCache file).pushed⟩
    rw [hvalues, hpushed]

theorem store_present (h : s.Sound) : ∀ ns ∈ (s.store p).persisted, ((s.store p).namespaces[ns]?).isSome := by
  intro ns hns
  rw [store, Table.get_insert]
  by_cases he : ns = p.ns
  · simp [he]
  · rw [if_neg he]
    refine h.present ns ?_
    simp only [store] at hns
    split at hns
    · exact (Finset.mem_insert.1 hns).resolve_left he
    · exact Finset.mem_of_mem_erase hns

theorem store_inStep (hkeep : ¬ s.Rewrites p) (h : s.InStep) : (s.store p).InStep := by
  simp only [Rewrites, not_or, Bool.not_eq_true] at hkeep
  obtain ⟨hpersist, hout⟩ := hkeep
  rw [InStep] at h ⊢
  simp only [store, hpersist, Bool.false_eq_true, if_false, Finset.erase_eq_of_notMem hout,
    projected_insert hout]
  exact h

theorem writeCache_inStep {outcome : Written} (hnew : outcome ≠ .kept) : (s.writeCache outcome).InStep := by
  simp only [InStep, writeCache, hnew, if_false, readCache, persistedView]
  rfl

theorem Sound.step (h : s.Sound) : (s.put p).2.Sound := by
  rw [put]
  split
  · refine ⟨store_present h, fun hlast _ => writeCache_inStep fun hkept => hlast ?_⟩
    rw [hkept]
    rfl
  · next hkeep =>
    exact ⟨store_present h, fun hlast hwhole => store_inStep hkeep (h.inStep hlast hwhole)⟩

/-- The namespaces whose latest push asked to persist: what has not been
pushed was loaded, and counts as asked for. -/
def Asked (file : Option CacheFile) (h : List (ProviderSecrets × Push)) (ns : String) : Prop :=
  match (h.reverse.find? fun e => e.2.ns = ns) with
  | some e => e.2.persist = true
  | none => ((readCache file).values[ns]?).isSome

theorem asked_snoc {h : List (ProviderSecrets × Push)} {ns : String} :
    Asked file (h ++ [(s, p)]) ns ↔ if p.ns = ns then p.persist = true else Asked file h ns := by
  simp only [Asked, List.reverse_append, List.reverse_cons, List.reverse_nil, List.nil_append,
    List.cons_append, List.find?_cons]
  by_cases hns : p.ns = ns <;> simp [hns]

theorem mem_store_persisted {h : List (ProviderSecrets × Push)} {ns : String}
    (hasked : ns ∈ s.persisted ↔ Asked file h ns) :
    ns ∈ (s.store p).persisted ↔ Asked file (h ++ [(s, p)]) ns := by
  rw [asked_snoc, ← hasked, store]
  by_cases hns : p.ns = ns
  · subst hns
    cases p.persist <;> simp
  · have hne : ns ≠ p.ns := fun he => hns he.symm
    cases p.persist <;> simp [hns, hne]

theorem put_store (s : ProviderSecrets) (p : Push) :
    (s.put p).2.persisted = (s.store p).persisted := by
  rw [put]
  split <;> rfl

theorem persisted_asked {h : List (ProviderSecrets × Push)} (hr : Run Step (load file) h s)
    (ns : String) : ns ∈ s.persisted ↔ Asked file h ns := by
  induction hr with
  | nil => exact mem_load_persisted file ns
  | @snoc s s' h p _ hstep ih =>
    obtain rfl : (s.put p).2 = s' := hstep
    rw [put_store]
    exact mem_store_persisted ih

end ProviderSecrets

open ProviderSecrets

/-- The file holds the namespaces that were asked for as they are in memory,
and no others, and loads as that. -/
def Follows (file : Option CacheFile) (h : List (ProviderSecrets × Push)) (s : ProviderSecrets) : Prop :=
  ∀ ns : String,
    (Asked file h ns → (s.namespaces[ns]?).isSome ∧
      (readCache s.cache).values[ns]? = s.namespaces[ns]? ∧
      (readCache s.cache).pushed[ns]? = s.pushed[ns]?) ∧
    (¬ Asked file h ns → (readCache s.cache).values[ns]? = none ∧
      (readCache s.cache).pushed[ns]? = none) ∧
    (load s.cache).namespaces[ns]? = (readCache s.cache).values[ns]? ∧
    (load s.cache).pushed[ns]? = (readCache s.cache).pushed[ns]? ∧
    (ns ∈ (load s.cache).persisted ↔ Asked file h ns)

/-- **The cache follows the latest push.** From any file, in every run whose
pushes leave the file alone only where it is not behind, the file follows
every push that succeeds. -/
theorem cache_follows {file : Option CacheFile} {h : List (ProviderSecrets × Push)}
    {s : ProviderSecrets} (hr : Run Step (load file) h s) {p : Push} {pushed : Pushed}
    (hok : (s.put p).1 = .ok pushed) (hm : Meets Undisturbed (h ++ [(s, p)])) :
    Follows file (h ++ [(s, p)]) (s.put p).2 := by
  have hs : s.Sound := hr.invariant meets_true (load_sound file) fun s p s' hs _ hstep => by
    obtain rfl : (s.put p).2 = s' := hstep
    exact hs.step
  have hasked := persisted_asked (hr.snoc (rfl : Step s p (s.put p).2))
  have hstep : (s.put p).2.InStep := by
    rw [put] at hok ⊢
    split
    · next hrewrites =>
      refine writeCache_inStep fun hkept => ?_
      rw [if_pos hrewrites, hkept] at hok
      cases hok
    · next hkeep =>
      obtain ⟨hlast, hwhole⟩ := hm.last hkeep
      exact store_inStep hkeep (hs.inStep hlast hwhole)
  have hvalues : ∀ ns : String, (readCache (s.put p).2.cache).values[ns]? =
      if ns ∈ (s.put p).2.persisted then (s.put p).2.namespaces[ns]? else none := fun ns => by
    rw [hstep, get_projected]
  have hpairs : ∀ ns : String, (readCache (s.put p).2.cache).pushed[ns]? =
      if ns ∈ (s.put p).2.persisted then (s.put p).2.pushed[ns]? else none := fun ns => by
    rw [hstep, get_projected]
  have hpresent := (hs.step (p := p)).present
  intro ns
  refine ⟨fun hin => ?_, fun hout => ?_, rfl, rfl, ?_⟩
  · have hin' := (hasked ns).2 hin
    rw [hvalues, hpairs, if_pos hin', if_pos hin']
    exact ⟨hpresent ns hin', rfl, rfl⟩
  · have hout' := mt (hasked ns).1 hout
    rw [hvalues, hpairs, if_neg hout', if_neg hout']
    exact ⟨rfl, rfl⟩
  · rw [mem_load_persisted, hvalues, ← hasked]
    split
    · next hin => exact ⟨fun _ => hin, fun _ => hpresent ns hin⟩
    · next hout => simp [hout]

/-! ## A secret that stays -/

/-- A push of one key. -/
def pushOf (value : String) (persist : Bool) (outcome : Written) : Push where
  hostEnvironment := "production"
  ns := "vercel"
  environment := "production"
  entries := (∅ : Std.ExtTreeMap String String).insert "KEY" value
  persist := persist
  outcome := outcome

/-- A push that asks to persist, and one that does not. -/
theorem cache_follows_dropped :
    (readCache (((load none).put (pushOf "1" true .written)).2.put
      (pushOf "2" false .written)).2.cache).values["vercel"]? = none := by
  have hr : Run Step (load none) [(load none, pushOf "1" true .written)]
      ((load none).put (pushOf "1" true .written)).2 := .snoc (.nil _) rfl
  have hmeets : Meets Undisturbed ([(load none, pushOf "1" true .written)] ++
      [(((load none).put (pushOf "1" true .written)).2, pushOf "2" false .written)]) := by
    intro e he
    rcases List.mem_append.1 he with he | he
    · obtain rfl := List.mem_singleton.1 he
      exact fun hkeep => absurd (.inl rfl) hkeep
    · obtain rfl := List.mem_singleton.1 he
      exact fun hkeep => absurd (.inr (by decide +kernel)) hkeep
  have hfollows := cache_follows hr (p := pushOf "2" false .written) rfl hmeets "vercel"
  refine (hfollows.2.1 fun hasked => ?_).1
  have hpersist := asked_snoc.1 hasked
  rw [if_pos (show (pushOf "2" false .written).ns = "vercel" from rfl)] at hpersist
  cases hpersist

/-- The setting is turned off, the file cannot be written, and the next push
finds nothing to write. -/
theorem cache_left : ∃ (h : List (ProviderSecrets × Push)) (s : ProviderSecrets) (p : Push)
    (pushed : Pushed), Run Step (load none) h s ∧ (s.put p).1 = .ok pushed ∧ p.persist = false ∧
      ((readCache (s.put p).2.cache).values[p.ns]?).isSome = true := by
  have hone : Run Step (load none) _ ((load none).put (pushOf "1" true .written)).2 :=
    (Run.nil _).snoc rfl
  have htwo : Run Step (load none) _ (((load none).put (pushOf "1" true .written)).2.put
      (pushOf "2" false .kept)).2 := hone.snoc rfl
  have hkeep : ¬ (((load none).put (pushOf "1" true .written)).2.put
      (pushOf "2" false .kept)).2.Rewrites (pushOf "3" false .written) := by decide +kernel
  obtain ⟨pushed, hok⟩ : ∃ pushed, ((((load none).put (pushOf "1" true .written)).2.put
      (pushOf "2" false .kept)).2.put (pushOf "3" false .written)).1 = .ok pushed := by
    rw [put, if_neg hkeep]
    exact ⟨_, rfl⟩
  exact ⟨_, _, pushOf "3" false .written, pushed, htwo, hok, rfl, by decide +kernel⟩

end Secrets

end Shep

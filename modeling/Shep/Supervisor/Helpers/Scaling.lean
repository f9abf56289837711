import Shep.Supervisor.Helpers.Asked
import Shep.Supervisor.Helpers.Turning

/-!
# Supervisor — what a scale leaves

`handleScale_ok` says what a granted scale makes of every slot: the
instances that stay are all rewritten from one config, new ones are
registered from it, and the rest are on their way out. A refused one
leaves the flock as it was, `handleScale_error`.
-/

namespace Shep

namespace Supervisor

variable {w : World} {a a' : Actor} {name : String} {id : ℕ} {s s' : SheepSlot}

/-- A slot just registered from `app`, with nothing parked. -/
structure SheepSlot.Sown (app : AppConfig) (credentials : Option Credentials) (s : SheepSlot) :
    Prop where
  spec : s.entry.spec = app
  pending : s.entry.pending = none
  credentials_eq : s.entry.credentials = .resolved credentials
  dog : s.entry.dog = none

namespace Actor

/-! ## The spawns of a scale-up -/

theorem SpawnedFresh.sown {app : AppConfig} {inst : ℕ} {credentials : Option Credentials}
    (h : SpawnedFresh w id app inst credentials none a a') :
    ∃ s, a'.sheep[id]? = some s ∧ s.Sown app credentials := by
  cases h with
  | errored hs _ hseat | live _ hs _ hseat _ _ _ =>
    exact ⟨_, get_setSlot _ _ _, hseat.spec, hs.parked, hseat.credentials, hseat.dog⟩
  | waiting _ _ _ _ _ hseat _ hpending =>
    exact ⟨_, get_setSlot _ _ _, hseat.spec, hpending, hseat.credentials, hseat.dog⟩

theorem SpawnedFresh.spawnedTasks {app : AppConfig} {inst : ℕ} {credentials : Option Credentials}
    {dog : Option DogSource} (h : SpawnedFresh w id app inst credentials dog a a') {task : Task}
    (ht : task ∈ a'.spawnedTasks) :
    task ∈ a.spawnedTasks ∨ task.spec = app ∧ task.credentials = credentials := by
  cases h with
  | errored => exact Or.inl ht
  | waiting => exact Or.inl ht
  | live _ _ _ hseat _ _ _ =>
    rcases List.mem_cons.1 ht with rfl | ht
    · exact Or.inr ⟨hseat.spec, rfl⟩
    · exact Or.inl ht

/-- What the spawns of a scale-up make of the flock. `ids` are the app's
ids before, `survivors` after, and `failed` is the row of a spawn that was
refused. -/
structure Grows (app : AppConfig) (credentials : Option Credentials) (spawns : ℕ) (ids : List ℕ)
    (a : Actor) (survivors : List ℕ) (failed : Option (ℕ × String)) (a' : Actor) : Prop where
  kept : ∀ j, j < a.nextId → a'.sheep[j]? = a.sheep[j]?
  grown : ∀ j s, a.nextId ≤ j → a'.sheep[j]? = some s →
    j ∈ survivors ++ (failed.map Prod.fst).toList ∧ s.Sown app credentials
  ids_sublist : ids ⊆ survivors
  later : ∀ j ∈ survivors ++ (failed.map Prod.fst).toList, j ∈ ids ∨ a.nextId ≤ j
  there : ∀ j ∈ survivors, j ∈ ids ∨ (a'.sheep[j]?).isSome = true
  nodup : ids.Nodup → (survivors ++ (failed.map Prod.fst).toList).Nodup
  length : survivors.length ≤ ids.length + spawns
  reloads : a'.reloads = a.reloads
  spawnedTasks : ∀ task ∈ a'.spawnedTasks,
    task ∈ a.spawnedTasks ∨ task.spec = app ∧ task.credentials = credentials

/-- `scale_up`, over ids handed out before it. -/
theorem scaleUp_grows (app : AppConfig) (credentials : Option Credentials) (free ids : List ℕ)
    (hids : ∀ id ∈ ids, id < a.nextId) (hreg : ∀ j s, a.sheep[j]? = some s → j < a.nextId) :
    Grows app credentials free.length ids a (scaleUp w app credentials free ids a).1
      (scaleUp w app credentials free ids a).2.1 (scaleUp w app credentials free ids a).2.2 := by
  induction free generalizing a ids with
  | nil =>
    exact
      { kept := fun _ _ => rfl
        grown := fun j s hj hs => absurd (hreg j s hs) (by omega)
        ids_sublist := List.Subset.refl ids
        later := fun j hj => Or.inl (by simpa [scaleUp] using hj)
        there := fun j hj => Or.inl hj
        nodup := fun h => by simpa [scaleUp] using h
        length := by simp [scaleUp]
        reloads := rfl
        spawnedTasks := fun _ h => Or.inl h }
  | cons inst free ih =>
    have hsp := spawnFreshAt_spawned w a.nextId app inst credentials none []
      { a with nextId := a.nextId + 1 }
    have hf := spawnFreshAt_frame w a.nextId app inst credentials none []
      { a with nextId := a.nextId + 1 }
    have hnext := spawnFreshAt_nextId w a.nextId app inst credentials none []
      { a with nextId := a.nextId + 1 }
    unfold scaleUp
    generalize hr : a.spawnFresh w app inst credentials none [] = r
    have hr' : spawnFreshAt w a.nextId app inst credentials none []
        { a with nextId := a.nextId + 1 } = r := hr
    rw [hr'] at hsp hf hnext
    obtain ⟨outcome, b⟩ := r
    dsimp only at hsp hf hnext
    obtain ⟨t, ht, hsown⟩ := hsp.sown
    have hkept : ∀ j, j < a.nextId → b.sheep[j]? = a.sheep[j]? := fun j hj => hf.sheep j (by omega)
    have hbnext : b.nextId = a.nextId + 1 := hnext
    -- the spawn registers the next id, and only that
    have hbreg : ∀ j s, b.sheep[j]? = some s → j < b.nextId := by
      intro j s hs
      by_cases hj : j = a.nextId
      · omega
      · have hold := hreg j s ((hf.sheep j hj).symm.trans hs)
        omega
    cases outcome with
    | ok info =>
      have hinfo : info.id = a.nextId := spawnFresh_info hr
      dsimp only
      rw [hinfo]
      have hg := ih (a := b) (ids ++ [a.nextId]) (by
        intro j hj
        rcases List.mem_append.1 hj with hj | hj
        · have := hids j hj
          omega
        · rw [List.mem_singleton.1 hj]
          omega) hbreg
      refine
        { kept := fun j hj => (hg.kept j (by omega)).trans (hkept j hj)
          grown := fun j s hj hs => ?_
          ids_sublist := fun j hj => hg.ids_sublist (List.mem_append_left _ hj)
          later := fun j hj => ?_
          there := fun j hj => ?_
          nodup := fun hnd => hg.nodup ?_
          length := ?_
          reloads := hg.reloads.trans hf.reloads
          spawnedTasks := fun task h => ?_ }
      · by_cases hj' : j = a.nextId
        · subst hj'
          rw [hg.kept _ (by omega), ht] at hs
          rw [← Option.some.inj hs]
          exact ⟨List.mem_append_left _ (hg.ids_sublist (by simp)), hsown⟩
        · exact hg.grown j s (by omega) hs
      · rcases hg.later j hj with hj | hj
        · rcases List.mem_append.1 hj with hj | hj
          · exact Or.inl hj
          · exact Or.inr (List.mem_singleton.1 hj).ge
        · exact Or.inr (by omega)
      · rcases hg.there j hj with hj | hj
        · rcases List.mem_append.1 hj with hj | hj
          · exact Or.inl hj
          · rw [List.mem_singleton.1 hj, hg.kept _ (by omega), ht]
            exact Or.inr rfl
        · exact Or.inr hj
      · refine List.nodup_append.2 ⟨hnd, List.nodup_singleton _, ?_⟩
        intro i hi j hj
        rw [List.mem_singleton.1 hj]
        exact (hids i hi).ne
      · have := hg.length
        simp only [List.length_append, List.length_singleton] at this
        simp only [List.length_cons]
        omega
      · rcases hg.spawnedTasks task h with h | h
        · exact hsp.spawnedTasks h
        · exact Or.inr h
    | error message =>
      dsimp only
      refine
        { kept := hkept
          grown := fun j s hj hs => ?_
          ids_sublist := List.Subset.refl ids
          later := fun j hj => ?_
          there := fun j hj => Or.inl hj
          nodup := fun hnd => ?_
          length := by omega
          reloads := hf.reloads
          spawnedTasks := fun task h => hsp.spawnedTasks h }
      · have hj' : j = a.nextId := by
          have := hbreg j s hs
          omega
        subst hj'
        rw [ht] at hs
        rw [← Option.some.inj hs]
        exact ⟨by simp, hsown⟩
      · rcases List.mem_append.1 hj with hj | hj
        · exact Or.inl hj
        · refine Or.inr ?_
          simp only [Option.map_some, Option.toList_some, List.mem_singleton] at hj
          omega
      · refine List.nodup_append.2 ⟨hnd, by simp, ?_⟩
        intro i hi j hj
        simp only [Option.map_some, Option.toList_some, List.mem_singleton] at hj
        rw [hj]
        exact (hids i hi).ne

/-! ## The write-back -/

theorem get_modifySlots {ids : List ℕ} (hnd : ids.Nodup) (f : SheepSlot → SheepSlot) (a : Actor)
    (j : ℕ) : (ids.foldl (fun a id => a.modifySlot id f) a).sheep[j]? =
      if j ∈ ids then (a.sheep[j]?).map f else a.sheep[j]? := by
  induction ids generalizing a with
  | nil => simp
  | cons id ids ih =>
    obtain ⟨hid, hnd⟩ := List.nodup_cons.1 hnd
    rw [List.foldl_cons, ih hnd]
    by_cases hj : j = id
    · subst hj
      rw [if_neg hid, if_pos List.mem_cons_self]
      unfold modifySlot
      cases hs : a.sheep[j]? with
      | none => simp [hs]
      | some s => simp [setSlot]
    · rw [(Frame.modifySlot id f a).sheep j hj]
      simp [hj]

theorem modifySlots_frame (ids : List ℕ) (f : SheepSlot → SheepSlot) (a : Actor) :
    (ids.foldl (fun a id => a.modifySlot id f) a).reloads = a.reloads ∧
      (ids.foldl (fun a id => a.modifySlot id f) a).trace = a.trace := by
  induction ids generalizing a with
  | nil => exact ⟨rfl, rfl⟩
  | cons id ids ih =>
    have hone : (a.modifySlot id f).reloads = a.reloads ∧ (a.modifySlot id f).trace = a.trace := by
      unfold modifySlot
      split <;> exact ⟨rfl, rfl⟩
    rw [List.foldl_cons, (ih _).1, (ih _).2]
    exact hone

theorem length_infos {ids : List ℕ} (h : ∀ id ∈ ids, (a.sheep[id]?).isSome = true) :
    (ids.flatMap fun id => a.infoOf id).length = ids.length := by
  induction ids with
  | nil => rfl
  | cons id ids ih =>
    have hone : (a.infoOf id).length = 1 := by
      obtain ⟨s, hs⟩ := Option.isSome_iff_exists.1 (h id List.mem_cons_self)
      simp [infoOf, hs]
    rw [List.flatMap_cons, List.length_append, hone,
      ih fun j hj => h j (List.mem_cons_of_mem _ hj), List.length_cons]
    omega

end Actor

/-- The parked config a scale hands to an instance that has none. -/
def SheepSlot.owes (w : World) (achieved : ℕ) (first : SheepSlot) : Option (AppConfig × Bool) :=
  first.entry.pending.map fun parked =>
    (recount w achieved parked, first.entry.pendingReidentifies)

namespace Actor

/-- `store_scaled`, granted: every id it is given is rewritten. -/
theorem storeScaled_ok {firstId count : ℕ} {first : SheepSlot} {rescaled : AppConfig}
    {survivors : List ℕ} {failed : Option (ℕ × String)} {scaled : Scaled}
    (hok : a.storeScaled w firstId rescaled count survivors failed = (.ok scaled, a'))
    (hthere : ∀ id ∈ survivors, (a.sheep[id]?).isSome = true)
    (hnd : (survivors ++ (failed.map Prod.fst).toList).Nodup)
    (hfirst : a.sheep[firstId]? = some first) :
    scaled.achieved = survivors.length ∧
      tryWithCount w rescaled survivors.length = .ok scaled.app ∧
      (∀ j, a'.sheep[j]? = if j ∈ survivors ++ (failed.map Prod.fst).toList then
        (a.sheep[j]?).map (SheepSlot.rescaled w scaled.app survivors.length
          (first.owes w survivors.length)) else a.sheep[j]?) ∧
      a'.reloads = a.reloads ∧ a'.trace = a.trace := by
  unfold storeScaled at hok
  split at hok
  · cases (Prod.mk.inj hok).1
  · next stored hstored =>
    obtain ⟨hanswer, hactor⟩ := Prod.mk.inj hok
    have howes : ((a.sheep[firstId]?).bind fun slot => slot.entry.pending.map fun parked =>
        (recount w survivors.length parked, slot.entry.pendingReidentifies)) =
        first.owes w survivors.length := by
      rw [hfirst]
      rfl
    rw [howes] at hactor hanswer
    have hscaled := Except.ok.inj hanswer
    have hsheep : ∀ j, a'.sheep[j]? = if j ∈ survivors ++ (failed.map Prod.fst).toList then
        (a.sheep[j]?).map (SheepSlot.rescaled w stored survivors.length
          (first.owes w survivors.length)) else a.sheep[j]? := by
      intro j
      rw [← hactor]
      exact get_modifySlots hnd _ a j
    rw [← hscaled, ← hactor]
    refine ⟨?_, hstored, ?_, modifySlots_frame _ _ a⟩
    · unfold Scaled.achieved
      dsimp only
      rw [hactor, sortFlock, List.length_insertionSort, length_infos]
      intro id hid
      rw [hsheep, if_pos (List.mem_append_left _ hid), Option.isSome_map]
      exact hthere id hid
    · rw [hactor]
      exact hsheep

/-! ## The whole of it -/

/-- Where a slot of a scaled app comes from: an instance that goes, one
that stays, the one that speaks for the app with its identity resolved, or
a new one. -/
inductive Reseeded (w : World) (a : Actor) (firstId : ℕ) (first : SheepSlot)
    (rescaled : AppConfig) (scaled : Scaled) (id : ℕ) (s' : SheepSlot) : Prop
  | leaving {s : SheepSlot} : a.sheep[id]? = some s → s'.entry = s.entry →
      s'.pendingDelete = true → Reseeded w a firstId first rescaled scaled id s'
  | stays {s : SheepSlot} : a.sheep[id]? = some s → s.name = first.name →
      s' = s.rescaled w scaled.app scaled.achieved (first.owes w scaled.achieved) →
      Reseeded w a firstId first rescaled scaled id s'
  | resolved {credentials : Option Credentials} : id = firstId →
      first.credentialsForSpawn w = .ok credentials →
      s' = (first.identified credentials).rescaled w scaled.app scaled.achieved
        (first.owes w scaled.achieved) → Reseeded w a firstId first rescaled scaled id s'
  | sown {s : SheepSlot} {credentials : Option Credentials} : a.nextId ≤ id →
      first.credentialsForSpawn w = .ok credentials → s.Sown rescaled credentials →
      s' = s.rescaled w scaled.app scaled.achieved (first.owes w scaled.achieved) →
      Reseeded w a firstId first rescaled scaled id s'

/-- What a granted scale makes of the flock. -/
structure Rescales (w : World) (a : Actor) (name : String) (count firstId : ℕ) (first : SheepSlot)
    (rescaled : AppConfig) (scaled : Scaled) (a' : Actor) : Prop where
  speaks : Speaks w a name count firstId first rescaled
  pos : 1 ≤ scaled.achieved
  le : scaled.achieved ≤ count
  stored : tryWithCount w rescaled scaled.achieved = .ok scaled.app
  others : ∀ (id : ℕ) (s : SheepSlot), a'.sheep[id]? = some s → s.name ≠ name →
    a.sheep[id]? = some s
  own : ∀ (id : ℕ) (s : SheepSlot), a'.sheep[id]? = some s → s.name = name →
    Reseeded w a firstId first rescaled scaled id s
  reloads : a'.reloads = a.reloads
  spawnedTasks : ∀ task ∈ a'.spawnedTasks, task ∈ a.spawnedTasks ∨
    ∃ credentials, first.credentialsForSpawn w = .ok credentials ∧ task.spec = rescaled ∧
      task.credentials = credentials

namespace Speaks

variable {count firstId : ℕ} {first : SheepSlot} {rescaled : AppConfig}

theorem holds (hsp : Speaks w a name count firstId first rescaled) {n : ℕ} (h1 : 1 ≤ n)
    (hn : n ≤ count) : ∃ stored, tryWithCount w rescaled n = .ok stored ∧
      tryWithCount w first.entry.spec n = .ok stored := by
  obtain ⟨heq, hok⟩ := w.normalize_recount hsp.counted h1 hn
  unfold tryWithCount
  rw [heq]
  cases hx : w.normalize { first.entry.spec with instances := n } with
  | error err =>
    rw [hx] at hok
    cases hok
  | ok stored => exact ⟨stored, rfl, rfl⟩

theorem first_mem (hsp : Speaks w a name count firstId first rescaled) :
    firstId ∈ (a.slotsOfName name).map Prod.snd := by
  obtain ⟨e, he, rfl⟩ := Option.map_eq_some_iff.1 hsp.head
  exact List.mem_map_of_mem (List.mem_of_head? he)

theorem head_take (hsp : Speaks w a name count firstId first rescaled) (hcount : 0 < count) :
    firstId ∈ ((a.slotsOfName name).map Prod.snd).take count := by
  obtain ⟨e, he, rfl⟩ := Option.map_eq_some_iff.1 hsp.head
  obtain ⟨rest, hrest⟩ := List.head?_eq_some_iff.1 he
  obtain ⟨k, rfl⟩ : ∃ k, count = k + 1 := ⟨count - 1, by omega⟩
  rw [hrest]
  simp

end Speaks

theorem SheepSlot.rescaled_name {stored : AppConfig} {achieved : ℕ}
    {owed : Option (AppConfig × Bool)} : (s.rescaled w stored achieved owed).name = stored.name := by
  unfold SheepSlot.rescaled
  dsimp only
  split <;> rfl

/-- What the spawns and removals of a scale have left for its write-back:
`survivors` are the ids it counts, and `failed` the row of a refused
spawn. -/
structure Readied (w : World) (a : Actor) (name : String) (count firstId : ℕ) (first : SheepSlot)
    (rescaled : AppConfig) (survivors : List ℕ) (failed : Option (ℕ × String)) (b : Actor) :
    Prop where
  le : survivors.length ≤ count
  nodup : (survivors ++ (failed.map Prod.fst).toList).Nodup
  first_mem : firstId ∈ survivors
  there : ∀ id ∈ survivors, (b.sheep[id]?).isSome = true
  first_owes : ∀ s n, b.sheep[firstId]? = some s → s.owes w n = first.owes w n
  others : ∀ (id : ℕ) (s : SheepSlot), b.sheep[id]? = some s → s.name ≠ name →
    a.sheep[id]? = some s
  counted : ∀ (id : ℕ) (s : SheepSlot), b.sheep[id]? = some s →
    id ∈ survivors ++ (failed.map Prod.fst).toList →
    a.sheep[id]? = some s ∧ s.name = name ∨ ∃ credentials,
      first.credentialsForSpawn w = .ok credentials ∧
        (id = firstId ∧ s = first.identified credentials ∨
          a.nextId ≤ id ∧ s.Sown rescaled credentials)
  leaving : ∀ (id : ℕ) (s : SheepSlot), b.sheep[id]? = some s → s.name = name →
    id ∉ survivors ++ (failed.map Prod.fst).toList →
    ∃ t, a.sheep[id]? = some t ∧ s.entry = t.entry ∧ s.pendingDelete = true
  reloads : b.reloads = a.reloads
  spawnedTasks : ∀ task ∈ b.spawnedTasks, task ∈ a.spawnedTasks ∨
    ∃ credentials, first.credentialsForSpawn w = .ok credentials ∧ task.spec = rescaled ∧
      task.credentials = credentials

/-- The write-back always lands, and is of every id counted. -/
theorem Readied.store {count firstId : ℕ} {first : SheepSlot} {rescaled : AppConfig}
    {survivors : List ℕ} {failed : Option (ℕ × String)} {b : Actor}
    (hsp : Speaks w a name count firstId first rescaled)
    (h : Readied w a name count firstId first rescaled survivors failed b) :
    ∃ scaled a', b.storeScaled w firstId rescaled count survivors failed = (.ok scaled, a') ∧
      Rescales w a name count firstId first rescaled scaled a' := by
  have hpos : 1 ≤ survivors.length := List.length_pos_of_mem h.first_mem
  obtain ⟨stored, hstored, -⟩ := hsp.holds hpos h.le
  have hgranted : ∃ scaled a',
      b.storeScaled w firstId rescaled count survivors failed = (.ok scaled, a') := by
    unfold storeScaled
    rw [hstored]
    exact ⟨_, _, rfl⟩
  obtain ⟨scaled, a', hok⟩ := hgranted
  obtain ⟨f, hf⟩ := Option.isSome_iff_exists.1 (h.there firstId h.first_mem)
  obtain ⟨hachieved, happ, hsheep, hreloads, htrace⟩ := storeScaled_ok hok h.there h.nodup hf
  rw [h.first_owes f _ hf] at hsheep
  rw [← hachieved] at happ hsheep
  have hname : scaled.app.name = name := (tryWithCount_name happ).trans hsp.rescaled_name
  refine ⟨scaled, a', hok,
    { speaks := hsp
      pos := hachieved ▸ hpos
      le := hachieved ▸ h.le
      stored := happ
      others := fun id s hs hn => ?_
      own := fun id s hs hn => ?_
      reloads := hreloads.trans h.reloads
      spawnedTasks := fun task ht => h.spawnedTasks task ?_ }⟩
  · rw [hsheep] at hs
    split at hs
    · obtain ⟨t, -, rfl⟩ := Option.map_eq_some_iff.1 hs
      exact absurd (SheepSlot.rescaled_name.trans hname) hn
    · exact h.others id s hs hn
  · rw [hsheep] at hs
    split at hs
    · next hid =>
      obtain ⟨t, ht, rfl⟩ := Option.map_eq_some_iff.1 hs
      rcases h.counted id t ht hid with ⟨hold, hn⟩ | ⟨credentials, hc, ⟨hid, rfl⟩ | ⟨hid, hsown⟩⟩
      · exact .stays hold (hn.trans hsp.name_eq.symm) rfl
      · exact .resolved hid hc rfl
      · exact .sown hid hc hsown rfl
    · next hid =>
      obtain ⟨t, ht, he, hd⟩ := h.leaving id s hs hn hid
      exact .leaving ht he hd
  · simpa only [Actor.spawnedTasks, htrace] using ht

namespace Speaks

variable {count firstId : ℕ} {first : SheepSlot} {rescaled : AppConfig}

theorem mem_ids (hs : a.sheep[id]? = some s) (hn : s.name = name) :
    id ∈ (a.slotsOfName name).map Prod.snd :=
  List.mem_map.2 ⟨(s.entry.inst, id), mem_slotsOfName.2 ⟨s, hs, hn, rfl⟩, rfl⟩

theorem there_of_mem (hid : id ∈ (a.slotsOfName name).map Prod.snd) :
    (a.sheep[id]?).isSome = true := by
  obtain ⟨e, he, rfl⟩ := List.mem_map.1 hid
  obtain ⟨t, ht, -⟩ := mem_slotsOfName.1 he
  rw [ht]
  rfl

/-- A scale to the count the app has. -/
theorem readied_same (hsp : Speaks w a name count firstId first rescaled) (h : Inv .none a)
    (hcount : count = (a.slotsOfName name).length) :
    Readied w a name count firstId first rescaled ((a.slotsOfName name).map Prod.snd) none a where
  le := by
    rw [List.length_map]
    omega
  nodup := by simpa using nodup_idsOfName name
  first_mem := hsp.first_mem
  there := fun id hid => there_of_mem hid
  first_owes := by
    intro s n hs
    rw [Option.some.inj (hs.symm.trans hsp.slot)]
  others := fun _ _ hs _ => hs
  counted := by
    intro id s hs hid
    simp only [Option.map_none, Option.toList_none, List.append_nil] at hid
    exact Or.inl ⟨hs, (slotsOfName_own h id hid).2 s hs⟩
  leaving := by
    intro id s hs hn hid
    exact absurd (List.mem_append_left _ (mem_ids hs hn)) hid
  reloads := rfl
  spawnedTasks := fun _ ht => Or.inl ht

/-- A scale down, once the instances past the count have been asked to go. -/
theorem readied_down (hsp : Speaks w a name count firstId first rescaled) (h : Inv .none a)
    (hcount : 0 < count) :
    Readied w a name count firstId first rescaled (((a.slotsOfName name).map Prod.snd).take count)
      none (a.beginManualIds w (((a.slotsOfName name).map Prod.snd).drop count) .delete .operator
        .ids) := by
  have hnd : ((a.slotsOfName name).map Prod.snd).Nodup := nodup_idsOfName name
  have hsheep := beginManualIds_sheep (w := w) (show ManualKind.delete ≠ .restart by simp)
    (hnd.sublist (List.drop_sublist count _)) .ids a
  -- an id that stays is not among those that go
  have hstays : ∀ id ∈ ((a.slotsOfName name).map Prod.snd).take count,
      id ∉ ((a.slotsOfName name).map Prod.snd).drop count := by
    intro id hid hid'
    rw [← List.take_append_drop count ((a.slotsOfName name).map Prod.snd)] at hnd
    exact (List.nodup_append.1 hnd).2.2 id hid id hid' rfl
  have hkept : ∀ id ∈ ((a.slotsOfName name).map Prod.snd).take count,
      (a.beginManualIds w (((a.slotsOfName name).map Prod.snd).drop count) .delete .operator
        .ids).sheep[id]? = a.sheep[id]? := by
    intro id hid
    rw [hsheep, if_neg (hstays id hid)]
  exact
    { le := by simp
      nodup := by simpa using hnd.sublist (List.take_sublist count _)
      first_mem := hsp.head_take hcount
      there := by
        intro id hid
        rw [hkept id hid]
        exact there_of_mem (List.mem_of_mem_take hid)
      first_owes := by
        intro s n hs
        rw [hkept firstId (hsp.head_take hcount), hsp.slot] at hs
        rw [Option.some.inj hs]
      others := by
        intro id s hs hn
        rw [hsheep] at hs
        split at hs
        · next hid =>
          obtain ⟨t, ht, hasked⟩ := Option.bind_eq_some_iff.1 hs
          have hown := (slotsOfName_own h id (List.mem_of_mem_drop hid)).2 t ht
          exact absurd ((SheepSlot.askedTo_name hasked).trans hown) hn
        · exact hs
      counted := by
        intro id s hs hid
        simp only [Option.map_none, Option.toList_none, List.append_nil] at hid
        rw [hkept id hid] at hs
        exact Or.inl ⟨hs, (slotsOfName_own h id (List.mem_of_mem_take hid)).2 s hs⟩
      leaving := by
        intro id s hs hn hid
        simp only [Option.map_none, Option.toList_none, List.append_nil] at hid
        rw [hsheep] at hs
        split at hs
        · obtain ⟨t, ht, hasked⟩ := Option.bind_eq_some_iff.1 hs
          refine ⟨t, ht, ?_⟩
          unfold SheepSlot.askedTo at hasked
          split at hasked
          · rw [← Option.some.inj hasked]
            exact ⟨rfl, by simp⟩
          · cases hasked
        · next hid' =>
          have hmem := mem_ids hs hn
          rw [← List.take_append_drop count ((a.slotsOfName name).map Prod.snd)] at hmem
          rcases List.mem_append.1 hmem with hmem | hmem
          · exact absurd hmem hid
          · exact absurd hmem hid'
      reloads := (beginManualIds_frame _ _ a).2
      spawnedTasks := by
        intro task ht
        rw [beginManualIds_spawnedTasks (by simp)] at ht
        exact Or.inl ht }

/-- A scale up, once it has spawned what the host let it. -/
theorem readied_up (hsp : Speaks w a name count firstId first rescaled) (h : Inv .none a)
    (hlt : (a.slotsOfName name).length < count) {credentials : Option Credentials}
    (hcred : first.credentialsForSpawn w = .ok credentials) {survivors : List ℕ}
    {failed : Option (ℕ × String)} {b : Actor}
    (hg : Grows rescaled credentials (count - (a.slotsOfName name).length)
      ((a.slotsOfName name).map Prod.snd) (a.setSlot firstId (first.identified credentials))
      survivors failed b) :
    Readied w a name count firstId first rescaled survivors failed b := by
  have hold : ∀ id s, id < a.nextId → b.sheep[id]? = some s →
      id = firstId ∧ s = first.identified credentials ∨ id ≠ firstId ∧ a.sheep[id]? = some s := by
    intro id s hid hs
    rw [hg.kept id hid] at hs
    simp only [setSlot, Table.get_insert] at hs
    split at hs
    · next e => exact Or.inl ⟨e, (Option.some.inj hs).symm⟩
    · next e => exact Or.inr ⟨e, hs⟩
  have hfirst : b.sheep[firstId]? = some (first.identified credentials) := by
    rw [hg.kept firstId (h.lt_nextId hsp.slot)]
    exact get_setSlot _ _ _
  have hnext : (a.setSlot firstId (first.identified credentials)).nextId = a.nextId := rfl
  have hmem : ∀ j ∈ (a.slotsOfName name).map Prod.snd, j ∈ survivors ++ (failed.map Prod.fst).toList :=
    fun j hj => List.mem_append_left _ (hg.ids_sublist hj)
  exact
    { le := by
        have := hg.length
        rw [List.length_map] at this
        omega
      nodup := hg.nodup (nodup_idsOfName name)
      first_mem := hg.ids_sublist hsp.first_mem
      there := by
        intro id hid
        rcases hg.there id hid with hid | hthere
        · rw [hg.kept id (slotsOfName_own h id hid).1]
          simp only [setSlot, Table.get_insert]
          split
          · rfl
          · exact there_of_mem hid
        · exact hthere
      first_owes := by
        intro s n hs
        rw [← Option.some.inj (hfirst.symm.trans hs)]
        rfl
      others := by
        intro id s hs hn
        by_cases hid : id < a.nextId
        · rcases hold id s hid hs with ⟨-, rfl⟩ | ⟨-, hs⟩
          · exact absurd hsp.name_eq hn
          · exact hs
        · have hsown := (hg.grown id s (by omega) hs).2
          exact absurd ((congrArg AppConfig.name hsown.spec).trans hsp.rescaled_name) hn
      counted := by
        intro id s hs hid
        by_cases hlt : id < a.nextId
        · rcases hold id s hlt hs with hfirst | ⟨-, hs⟩
          · exact Or.inr ⟨credentials, hcred, Or.inl hfirst⟩
          · rcases hg.later id hid with hid | hid
            · exact Or.inl ⟨hs, (slotsOfName_own h id hid).2 s hs⟩
            · omega
        · exact Or.inr ⟨credentials, hcred, Or.inr ⟨by omega, (hg.grown id s (by omega) hs).2⟩⟩
      leaving := by
        intro id s hs hn hid
        by_cases hlt : id < a.nextId
        · rcases hold id s hlt hs with ⟨rfl, -⟩ | ⟨-, hs⟩
          · exact absurd (hmem id hsp.first_mem) hid
          · exact absurd (hmem id (mem_ids hs hn)) hid
        · exact absurd (hg.grown id s (by omega) hs).1 hid
      reloads := hg.reloads
      spawnedTasks := by
        intro task ht
        rcases hg.spawnedTasks task ht with ht | ht
        · exact Or.inl ht
        · exact Or.inr ⟨credentials, hcred, ht⟩ }

end Speaks

/-- `handle_scale`, granted or refused whole. -/
theorem handleScale_spec (h : Inv .none a) (name : String) (count : ℕ) :
    (∃ err, a.handleScale w name count = (.error err, a)) ∨
    ∃ scaled a' firstId first rescaled, a.handleScale w name count = (.ok scaled, a') ∧
      Rescales w a name count firstId first rescaled scaled a' := by
  rcases handleScale_cases w name count a with herr | ⟨firstId, first, rescaled, hcount, hsp, he⟩
  · exact Or.inl herr
  · rw [he]
    unfold rescale
    dsimp only
    split
    · next hlt =>
      split
      · exact Or.inl ⟨_, rfl⟩
      · split
        · exact Or.inl ⟨_, rfl⟩
        · next credentials hcred =>
          have hg := scaleUp_grows (w := w) (a := a.setSlot firstId (first.identified credentials))
            rescaled credentials
            (instanceSlots ((a.slotsOfName name).map Prod.fst) (count - (a.slotsOfName name).length))
            ((a.slotsOfName name).map Prod.snd) (fun id hid => (slotsOfName_own h id hid).1) (by
              intro j s hs
              simp only [setSlot, Table.get_insert] at hs
              split at hs
              · next e =>
                rw [e]
                exact h.lt_nextId hsp.slot
              · exact h.lt_nextId hs)
          rw [instanceSlots, length_instanceSlotsFrom] at hg
          obtain ⟨scaled, a', hok, hr⟩ := (hsp.readied_up h hlt hcred hg).store hsp
          exact Or.inr ⟨scaled, a', firstId, first, rescaled, hok, hr⟩
    · split
      · obtain ⟨scaled, a', hok, hr⟩ := (hsp.readied_down h hcount).store hsp
        exact Or.inr ⟨scaled, a', firstId, first, rescaled, hok, hr⟩
      · obtain ⟨scaled, a', hok, hr⟩ := (hsp.readied_same h (by omega)).store hsp
        exact Or.inr ⟨scaled, a', firstId, first, rescaled, hok, hr⟩

end Actor

end Supervisor

end Shep

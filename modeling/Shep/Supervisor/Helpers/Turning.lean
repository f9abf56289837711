import Shep.Supervisor.Helpers.Commanding

/-!
# Supervisor — a turn as moves

Scaling and config edits written as moves, and from every handler's lemma
**`turn_moves`**: one turn of the loop is a sequence of moves from the
state it began in. `Step.inv` and `reachable_inv` follow.
-/

namespace Shep

namespace Supervisor

variable {c : Turn} {w : World} {x : Hole} {a : Actor} {id : ℕ} {s : SheepSlot}
variable {name : String}

/-! ## Scale -/

theorem tryWithCount_name {app app' : AppConfig} {count : ℕ}
    (h : Actor.tryWithCount w app count = .ok app') : app'.name = app.name := by
  unfold Actor.tryWithCount at h
  exact (w.normalize_name h).trans rfl

theorem recount_name (w : World) (count : ℕ) (app : AppConfig) :
    (recount w count app).name = app.name := by
  unfold recount
  split
  · next app' h => exact tryWithCount_name h
  · rfl

/-- The write-back of a scale is an edit of the app's own slots. -/
theorem SheepSlot.Agrees.rescaled (hs : s.WellFormed) (hname : s.name = name) {stored : AppConfig}
    (hstored : stored.name = name) (achieved : ℕ) {owed : Option (AppConfig × Bool)}
    (howed : ∀ p, owed = some p → p.1.name = name) :
    s.Agrees (s.rescaled w stored achieved owed) := by
  have hrefl := SheepSlot.Agrees.refl hs
  unfold SheepSlot.rescaled
  dsimp only
  split
  · next parked hp =>
    refine { hrefl with name := hstored.trans hname.symm, parked := ?_, unparked := by simp }
    intro p hp'
    rw [← Option.some.inj hp', recount_name]
    exact (hs.parked parked hp).trans (hname.trans hstored.symm)
  · next parked reidentifies hp =>
    refine { hrefl with name := hstored.trans hname.symm, parked := ?_, unparked := by simp }
    intro p hp'
    rw [← Option.some.inj hp']
    exact (howed _ rfl).trans hstored.symm
  · next hp =>
    refine { hrefl with name := hstored.trans hname.symm, parked := ?_ }
    intro p hp'
    rw [show s.entry.pending = none from hp] at hp'
    cases hp'

namespace Actor

/-- Edits of registered slots, one after another. -/
theorem modifySlots_moves {f : SheepSlot → SheepSlot} (h : Inv x a) (ids : List ℕ)
    (hconf : c.Configures name) (hids : ∀ id ∈ ids, ∀ s, a.sheep[id]? = some s → s.name = name)
    (hf : ∀ s : SheepSlot, s.WellFormed → s.name = name → s.Agrees (f s)) :
    Moves c ⟨x, a⟩ ⟨x, ids.foldl (fun a id => a.modifySlot id f) a⟩ := by
  induction ids generalizing a with
  | nil => exact .refl
  | cons id ids ih =>
    have hone : Moves c ⟨x, a⟩ ⟨x, a.modifySlot id f⟩ := by
      unfold modifySlot
      split
      · next s hs =>
        have hname := hids id List.mem_cons_self s hs
        exact .single (.edit _ hs (hf s (h.wellFormed hs) hname) (Or.inl (hname ▸ hconf)))
      · exact .refl
    refine hone.trans (ih (hone.inv h) fun j hj t ht => ?_)
    by_cases he : j = id
    · subst he
      unfold modifySlot at ht
      cases hs : a.sheep[j]? with
      | none =>
        rw [hs] at ht
        simp only [hs] at ht
        cases ht
      | some s =>
        rw [hs] at ht
        simp only [get_setSlot, Option.some.injEq] at ht
        rw [← ht, (hf s (h.wellFormed hs) (hids j List.mem_cons_self s hs)).name]
        exact hids j List.mem_cons_self s hs
    · rw [(Frame.modifySlot id f a).sheep j he] at ht
      exact hids j (List.mem_cons_of_mem _ hj) t ht

/-- `store_scaled` as moves, over ids that are all the app's. -/
theorem storeScaled_moves (h : Inv x a) {firstId count : ℕ} {rescaled : AppConfig}
    (hconf : c.Configures name) (hrescaled : rescaled.name = name) {survivors : List ℕ} {failed : Option (ℕ × String)}
    (hfirst : ∀ s, a.sheep[firstId]? = some s → s.name = name)
    (hids : ∀ id ∈ survivors ++ (failed.map Prod.fst).toList, ∀ s, a.sheep[id]? = some s →
      s.name = name) :
    Moves c ⟨x, a⟩ ⟨x, (a.storeScaled c.world firstId rescaled count survivors failed).2⟩ := by
  unfold storeScaled
  split
  · exact .refl
  · next stored hstored =>
    refine modifySlots_moves h _ hconf hids fun s hs hname => ?_
    refine SheepSlot.Agrees.rescaled hs hname ((tryWithCount_name hstored).trans hrescaled) _ ?_
    intro p hp
    obtain ⟨t, ht, hp⟩ := Option.bind_eq_some_iff.1 hp
    obtain ⟨parked, hparked, rfl⟩ := Option.map_eq_some_iff.1 hp
    rw [recount_name, (h.wellFormed ht).parked parked hparked]
    exact hfirst t ht

theorem SpawnedFresh.dogBinaries {app : AppConfig} {inst : ℕ} {credentials : Option Credentials}
    {dog : Option DogSource} {a' : Actor} (h : SpawnedFresh w id app inst credentials dog a a') : a'.dogBinaries = a.dogBinaries := by
  cases h <;> rfl

theorem assembleForSpawn_congr {a' : Actor} (hdogs : a'.dogBinaries = a.dogBinaries)
    (hdis : a'.disabled = a.disabled) (id : ℕ) (app : AppConfig) (inst : ℕ) :
    a'.assembleForSpawn w id app inst = a.assembleForSpawn w id app inst := by
  unfold assembleForSpawn isDisabled
  rw [hdogs, hdis]

theorem spawnFresh_info {app : AppConfig} {inst : ℕ} {credentials : Option Credentials}
    {dog : Option DogSource} {gate : List String} {info : ProcessInfo} {a' : Actor}
    (h : a.spawnFresh w app inst credentials dog gate = (.ok info, a')) : info.id = a.nextId := by
  unfold spawnFresh spawnFreshAt at h
  dsimp only at h
  split at h
  · split at h
    · split at h
      · rw [← Except.ok.inj (Prod.mk.inj h).1]
        rfl
      · cases (Prod.mk.inj h).1
    · cases (Prod.mk.inj h).1
  · split at h
    · cases (Prod.mk.inj h).1
    · rw [← Except.ok.inj (Prod.mk.inj h).1]
      rfl

/-- The spawns of a scale-up as moves. Every id it leaves is the app's. -/
theorem scaleUp_moves {app : AppConfig} (hn : app.name = name) (hscales : c.Scales name)
    (hconf : c.Configures name) (credentials : Option Credentials) (free ids : List ℕ)
    (h : Inv .none a)
    (hlater : c.before.nextId ≤ a.nextId)
    (hstays : ∃ (id : ℕ) (s : SheepSlot), a.sheep[id]? = some s ∧ s.name = name ∧
      s.pendingDelete = false ∧ s.entry.dog = none)
    (hen : name ∉ a.disabled)
    (hdown : ∀ k inst pid, k < free.length → a.shuttingDown = true →
      a.assembleForSpawn c.world (a.nextId + k) app inst = .ok () →
      c.world.spawn (a.nextId + k) app = .ok pid → c.ScalesUpWhileDown)
    (hids : ∀ id ∈ ids, id < a.nextId ∧ ∀ s, a.sheep[id]? = some s → s.name = name)
    (hfree : free.Nodup) (hspare : ∀ n ∈ free, a.Spare a.nextId name n) :
    Moves c ⟨.none, a⟩ ⟨.none, (scaleUp c.world app credentials free ids a).2.2⟩ ∧
      ∀ id ∈ (scaleUp c.world app credentials free ids a).1 ++
        ((scaleUp c.world app credentials free ids a).2.1.map Prod.fst).toList,
        ∀ s, (scaleUp c.world app credentials free ids a).2.2.sheep[id]? = some s → s.name = name := by
  induction free generalizing a ids with
  | nil =>
    refine ⟨.refl, fun id hid => ?_⟩
    simp only [scaleUp, Option.map_none, Option.toList_none, List.append_nil] at hid
    exact (hids id hid).2
  | cons inst free ih =>
    have hone : Moves c ⟨.none, a⟩ ⟨.none, (a.spawnFresh c.world app inst credentials none []).2⟩ := by
      refine spawnFresh_moves h app inst credentials none [] (hn ▸ hen)
        (Or.inr ⟨hn ▸ hscales, hn ▸ hstays⟩) (Or.inl (hn ▸ hconf)) hlater
        (hn ▸ hspare inst List.mem_cons_self) ?_
      intro hd pid hasm hpid
      exact hdown 0 inst pid (by simp) hd hasm hpid
    have hsp := spawnFreshAt_spawned c.world a.nextId app inst credentials none []
      { a with nextId := a.nextId + 1 }
    have hf := spawnFreshAt_frame c.world a.nextId app inst credentials none []
      { a with nextId := a.nextId + 1 }
    have hnext := spawnFreshAt_nextId c.world a.nextId app inst credentials none []
      { a with nextId := a.nextId + 1 }
    have hstays' : ∃ (id : ℕ) (s : SheepSlot),
        (a.spawnFresh c.world app inst credentials none []).2.sheep[id]? = some s ∧ s.name = name ∧
        s.pendingDelete = false ∧ s.entry.dog = none := by
      obtain ⟨id, s, hs, hrest⟩ := hstays
      exact ⟨id, s, (hf.sheep id (h.lt_nextId hs).ne).trans hs, hrest⟩
    have hlater' := hlater.trans hone.names.1
    have hspare' : ∀ n ∈ free, (a.spawnFresh c.world app inst credentials none []).2.Spare
        (a.spawnFresh c.world app inst credentials none []).2.nextId name n := by
      intro n hmem
      refine spawnFresh_spare ?_ (hspare n (List.mem_cons_of_mem _ hmem))
      rintro rfl
      exact (List.nodup_cons.1 hfree).1 hmem
    -- after the spawn every id handed out so far is still the app's
    have hids' : ∀ id ∈ ids ++ [a.nextId],
        id < (a.spawnFresh c.world app inst credentials none []).2.nextId ∧
        ∀ s, (a.spawnFresh c.world app inst credentials none []).2.sheep[id]? = some s →
          s.name = name := by
      intro id hid
      rcases List.mem_append.1 hid with hid | hid
      · refine ⟨(hids id hid).1.trans_le hone.names.1, fun s hs => ?_⟩
        obtain ⟨t, ht, e, -⟩ := hone.names.2 id s (hids id hid).1 hs
        rw [e]
        exact (hids id hid).2 t ht
      · rw [List.mem_singleton.1 hid]
        exact ⟨hnext ▸ Nat.lt_succ_self _, fun s hs => (hsp.slot hs).name.trans hn⟩
    unfold scaleUp
    generalize hr : a.spawnFresh c.world app inst credentials none [] = r at hone hids' hstays' hlater' hspare' ⊢
    have hr' : spawnFreshAt c.world a.nextId app inst credentials none []
        { a with nextId := a.nextId + 1 } = r := hr
    rw [hr'] at hsp hf hnext
    obtain ⟨outcome, a'⟩ := r
    cases outcome with
    | ok info =>
      have hinfo := spawnFresh_info hr
      dsimp only
      rw [hinfo]
      obtain ⟨hm, hall⟩ := ih (a := a') (ids ++ [a.nextId]) (hone.inv h) hlater' hstays'
        (hf.disabled ▸ hen) (by
        intro k inst' pid hk hd hasm hpid
        rw [assembleForSpawn_congr hsp.dogBinaries hf.disabled] at hasm
        have he : a'.nextId + k = a.nextId + (k + 1) := by
          rw [hnext]
          exact Nat.add_right_comm _ _ _
        rw [he] at hasm hpid
        refine hdown (k + 1) inst' pid (by simpa using hk) (hf.down ▸ hd) ?_ hpid
        exact hasm) hids' (List.nodup_cons.1 hfree).2 hspare'
      exact ⟨hone.trans hm, hall⟩
    | error message =>
      refine ⟨hone, fun id hid => ?_⟩
      simp only [Option.map_some, Option.toList_some] at hid
      exact (hids' id hid).2

/-! ## `handle_scale` -/

theorem nodup_idsOfName (name : String) : ((a.slotsOfName name).map Prod.snd).Nodup := by
  unfold slotsOfName
  have hperm := (List.perm_insertionSort (fun x y : ℕ × ℕ => x.1 < y.1 ∨ (x.1 = y.1 ∧ x.2 ≤ y.2))
    ((a.sheep.toList.filter fun entry => entry.2.name == name).map fun entry =>
      (entry.2.entry.inst, entry.1))).map Prod.snd
  rw [hperm.nodup_iff, List.map_map]
  exact (Table.nodup_keys a.sheep).sublist (List.Sublist.map _ List.filter_sublist)

theorem length_instanceSlotsFrom (existing : List ℕ) (candidate count : ℕ) :
    (instanceSlotsFrom existing candidate count).length = count := by
  induction count generalizing candidate with
  | zero => rfl
  | succ count ih => simp [instanceSlotsFrom, ih]

theorem slotsOfName_own (h : Inv x a) : ∀ id ∈ (a.slotsOfName name).map Prod.snd,
    id < a.nextId ∧ ∀ s, a.sheep[id]? = some s → s.name = name := by
  intro id hid
  obtain ⟨e, he, rfl⟩ := List.mem_map.1 hid
  obtain ⟨t, ht, hn, -⟩ := mem_slotsOfName.1 he
  exact ⟨h.lt_nextId ht, fun s hs => Option.some.inj (ht.symm.trans hs) ▸ hn⟩

/-- What `handle_scale` has checked of the slot that speaks for the app. -/
structure Speaks (w : World) (a : Actor) (name : String) (count firstId : ℕ) (first : SheepSlot)
    (rescaled : AppConfig) : Prop where
  head : (a.slotsOfName name).head?.map Prod.snd = some firstId
  slot : a.sheep[firstId]? = some first
  name_eq : first.name = name
  sheep : first.entry.dog = none
  staying : ∀ e ∈ a.slotsOfName name, ∀ s, a.sheep[e.2]? = some s → s.pendingDelete = false
  counted : tryWithCount w first.entry.spec count = .ok rescaled
  idle : a.reloads[name]? = none

namespace Speaks

variable {count firstId : ℕ} {first : SheepSlot} {rescaled : AppConfig}

theorem rescaled_name (h : Speaks w a name count firstId first rescaled) : rescaled.name = name :=
  (tryWithCount_name h.counted).trans h.name_eq

theorem first_name (h : Speaks w a name count firstId first rescaled) :
    ∀ s, a.sheep[firstId]? = some s → s.name = name :=
  fun _ hs => Option.some.inj (h.slot.symm.trans hs) ▸ h.name_eq

/-- A scale up. -/
theorem up (hsp : Speaks c.world a name count firstId first rescaled) (h : Inv .none a)
    (hscales : c.Scales name) (hconf : c.Configures name)
    (hlater : c.before.nextId ≤ a.nextId) (hlt : (a.slotsOfName name).length < count)
    (hen : name ∉ a.disabled) {credentials : Option Credentials}
    (hcred : first.credentialsForSpawn c.world = .ok credentials)
    (hdown : a.shuttingDown = true → a.ScalesUp c.world name count → c.ScalesUpWhileDown) :
    Moves c ⟨.none, a⟩ ⟨.none, ((scaleUp c.world rescaled credentials
      (instanceSlots ((a.slotsOfName name).map Prod.fst) (count - (a.slotsOfName name).length))
      ((a.slotsOfName name).map Prod.snd)
      (a.setSlot firstId (first.identified credentials))).2.2.storeScaled c.world firstId rescaled count
        (scaleUp c.world rescaled credentials
          (instanceSlots ((a.slotsOfName name).map Prod.fst) (count - (a.slotsOfName name).length))
          ((a.slotsOfName name).map Prod.snd)
          (a.setSlot firstId (first.identified credentials))).1
        (scaleUp c.world rescaled credentials
          (instanceSlots ((a.slotsOfName name).map Prod.fst) (count - (a.slotsOfName name).length))
          ((a.slotsOfName name).map Prod.snd)
          (a.setSlot firstId (first.identified credentials))).2.1).2⟩ := by
  have hedit : Move c ⟨.none, a⟩ ⟨.none, a.setSlot firstId (first.identified credentials)⟩ :=
    .edit _ hsp.slot ((SheepSlot.Agrees.refl (h.wellFormed hsp.slot)).identified credentials)
      (Or.inl (hsp.name_eq ▸ hconf))
  have hname : ∀ id, id < a.nextId → (∀ s, a.sheep[id]? = some s → s.name = name) →
      ∀ s, (a.setSlot firstId (first.identified credentials)).sheep[id]? = some s →
        s.name = name := by
    intro id hid hall s hs
    obtain ⟨t, ht, e, -⟩ := hedit.names.2 id s hid hs
    rw [e]
    exact hall t ht
  have hstays : ∃ (id : ℕ) (s : SheepSlot),
      (a.setSlot firstId (first.identified credentials)).sheep[id]? = some s ∧ s.name = name ∧
      s.pendingDelete = false ∧ s.entry.dog = none := by
    obtain ⟨e, he, rfl⟩ := Option.map_eq_some_iff.1 hsp.head
    exact ⟨e.2, _, get_setSlot _ _ _, hsp.name_eq,
      hsp.staying e (List.mem_of_head? he) first hsp.slot, hsp.sheep⟩
  obtain ⟨hm, hall⟩ := scaleUp_moves hsp.rescaled_name hscales hconf credentials
    (instanceSlots ((a.slotsOfName name).map Prod.fst) (count - (a.slotsOfName name).length))
    ((a.slotsOfName name).map Prod.snd) (hedit.inv h) hlater hstays hen
    (by
      intro k inst pid hk hd hasm hpid
      rw [instanceSlots, length_instanceSlotsFrom] at hk
      exact hdown hd ⟨firstId, first, rescaled, hsp.head, hsp.slot, hsp.sheep, hsp.staying,
        hsp.counted, hlt, hen, ⟨credentials, hcred⟩, k, hk, inst, pid, hasm, hpid⟩)
    (fun id hid => ⟨(slotsOfName_own h id hid).1,
      hname id (slotsOfName_own h id hid).1 (slotsOfName_own h id hid).2⟩)
    (instanceSlots_free _ _).1 (by
      intro n hn j t ht htn hinst
      simp only [setSlot, Table.get_insert] at ht
      split at ht
      · next e =>
        obtain rfl := Option.some.inj ht
        exact spare_instanceSlots hn _ firstId first hsp.slot htn hinst ▸ e
      · exact spare_instanceSlots hn _ j t ht htn hinst)
  have hto : Moves c ⟨.none, a⟩ ⟨.none, _⟩ := .head hedit hm
  refine hto.trans (storeScaled_moves (hto.inv h) hconf hsp.rescaled_name ?_ hall)
  intro s hs
  obtain ⟨t, ht, e, -⟩ := hto.names.2 firstId s (h.lt_nextId hsp.slot) hs
  rw [e]
  exact hsp.first_name t ht

/-- A scale down: the instances past the count are deleted, and none of
them is half of a swap. -/
theorem down (hsp : Speaks c.world a name count firstId first rescaled) (h : Inv .none a)
    (hconf : c.Configures name) :
    Moves c ⟨.none, a⟩ ⟨.none, ((a.beginManualIds c.world (((a.slotsOfName name).map Prod.snd).drop
      count) .delete .operator .ids).storeScaled c.world firstId rescaled count
        (((a.slotsOfName name).map Prod.snd).take count) none).2⟩ := by
  have hdel : Moves c ⟨.none, a⟩ ⟨.none, a.beginManualIds c.world
      (((a.slotsOfName name).map Prod.snd).drop count) .delete .operator .ids⟩ := by
    refine beginManualIds_moves ((nodup_idsOfName name).sublist (List.drop_sublist _ _)) h
      (fun id hid => ⟨Or.inl hconf.orders, by simp, by simp, fun _ => ⟨rfl, ?_⟩⟩) (by simp)
    rintro s hs - ⟨n, job, hj, hnew⟩
    have hn := h.reloads_of_newId hs hj hnew
    rw [(slotsOfName_own h id (List.mem_of_mem_drop hid)).2 s hs] at hn
    rw [← hn, hsp.idle] at hj
    cases hj
  refine hdel.trans (storeScaled_moves (hdel.inv h) hconf hsp.rescaled_name ?_ fun id hid => ?_)
  · intro s hs
    obtain ⟨t, ht, e, -⟩ := hdel.names.2 firstId s (h.lt_nextId hsp.slot) hs
    rw [e]
    exact hsp.first_name t ht
  · simp only [Option.map_none, Option.toList_none, List.append_nil] at hid
    obtain ⟨hlt, hown⟩ := slotsOfName_own h id (List.mem_of_mem_take hid)
    intro s hs
    obtain ⟨t, ht, e, -⟩ := hdel.names.2 id s hlt hs
    rw [e]
    exact hown t ht

end Speaks

/-- `handle_scale` past its refusals, with what they have checked. -/
theorem handleScale_cases (w : World) (name : String) (count : ℕ) (a : Actor) :
    (∃ err, a.handleScale w name count = (.error err, a)) ∨
    ∃ firstId first rescaled, 0 < count ∧ Speaks w a name count firstId first rescaled ∧
      a.handleScale w name count =
        a.rescale w name count (a.slotsOfName name) firstId first rescaled := by
  unfold handleScale
  dsimp only
  split
  · exact Or.inl ⟨_, rfl⟩
  · next firstId first hfirst =>
    obtain ⟨e, he, hfirst⟩ := Option.bind_eq_some_iff.1 hfirst
    obtain ⟨first', hs, hpair⟩ := Option.map_eq_some_iff.1 hfirst
    obtain ⟨rfl, rfl⟩ := Prod.mk.inj hpair
    obtain ⟨first', hs', hname, -⟩ := mem_slotsOfName.1 (List.mem_of_head? he)
    obtain rfl := Option.some.inj (hs.symm.trans hs')
    split
    · exact Or.inl ⟨_, rfl⟩
    · next hcount =>
      split
      · exact Or.inl ⟨_, rfl⟩
      · next hdog =>
        split
        · exact Or.inl ⟨_, rfl⟩
        · next hjob =>
          split
          · exact Or.inl ⟨_, rfl⟩
          · next hleaving =>
            split
            · exact Or.inl ⟨_, rfl⟩
            · next rescaled hrescaled =>
              refine Or.inr ⟨e.2, first', rescaled, by omega, ?_, rfl⟩
              exact
                { head := by simp [he]
                  slot := hs
                  name_eq := hname
                  sheep := by simpa using hdog
                  staying := by
                    intro e' he' s hs'
                    have hnil : (a.slotsOfName name).filter (fun s =>
                        (a.sheep[s.2]?).any SheepSlot.pendingDelete) = [] := by
                      simpa using hleaving
                    have hno := List.filter_eq_nil_iff.1 hnil e' he'
                    simpa [hs'] using hno
                  counted := hrescaled
                  idle := by simpa using hjob }

/-- `handle_scale` as moves. While the flock is on its way down its spawns
are the ones the turn announces. -/
theorem handleScale_moves (h : Inv .none a) (name : String) (count : ℕ)
    (hscales : c.Scales name) (hconf : c.Configures name) (hlater : c.before.nextId ≤ a.nextId)
    (hdown : a.shuttingDown = true → a.ScalesUp c.world name count → c.ScalesUpWhileDown) :
    Moves c ⟨.none, a⟩ ⟨.none, (a.handleScale c.world name count).2⟩ := by
  rcases handleScale_cases c.world name count a with ⟨err, he⟩ | ⟨firstId, first, rescaled, -, hsp, he⟩
  · rw [he]
  · rw [he]
    unfold rescale
    dsimp only
    split
    · next hlt =>
      split
      · exact .refl
      · next hdis =>
        have hen : name ∉ a.disabled := by simpa [refuseDisabled] using hdis
        split
        · exact .refl
        · next credentials hcred => exact hsp.up h hscales hconf hlater hlt hen hcred hdown
    · split
      · exact hsp.down h hconf
      · refine storeScaled_moves h hconf hsp.rescaled_name hsp.first_name fun id hid => ?_
        simp only [Option.map_none, Option.toList_none, List.append_nil] at hid
        exact (slotsOfName_own h id hid).2

/-! ## Config edits -/

theorem mapApp_moves (h : Inv x a) (hconf : c.Configures name) {f : SheepSlot → SheepSlot}
    (hf : ∀ s : SheepSlot, s.WellFormed → s.name = name → s.Agrees (f s)) :
    Moves c ⟨x, a⟩ ⟨x, a.mapApp name f⟩ := by
  refine .single (.editAll _ (fun id s hs => ?_) fun id s hs => ?_)
  · split
    · next hn => exact hf s (h.wellFormed hs) (by simpa using hn)
    · exact .refl (h.wellFormed hs)
  · split
    · next hn => exact Or.inl ((show s.name = name by simpa using hn) ▸ hconf)
    · exact Or.inr (.refl s)

theorem parked_agrees {app : AppConfig} (happ : app.name = name) (overridden : List String)
    (hs : s.WellFormed) (hn : s.name = name) : s.Agrees (s.parked app overridden) := by
  have hrefl := SheepSlot.Agrees.refl hs
  refine { hrefl with parked := ?_, unparked := by simp [SheepSlot.parked] }
  intro p hp
  rw [← Option.some.inj hp, happ]
  exact hn.symm

theorem reconfigured_agrees {nextSpec parked : Option AppConfig}
    (hnext : ∀ app, nextSpec = some app → app.name = name)
    (hparked : ∀ app, parked = some app → app.name = name) (overridden : List String)
    (hs : s.WellFormed) (hn : s.name = name) :
    s.Agrees (s.reconfigured nextSpec parked overridden) := by
  have hrefl := SheepSlot.Agrees.refl hs
  have hname : (nextSpec.getD s.entry.spec).name = name := by
    cases hx : nextSpec with
    | none => exact hn
    | some app => exact hnext app hx
  refine { hrefl with name := hname.trans hn.symm, parked := ?_, unparked := ?_ }
  · intro p hp
    refine Eq.trans ?_ hname.symm
    change parked.or s.entry.pending = some p at hp
    cases hx : parked with
    | none =>
      rw [hx] at hp
      exact (hs.parked p hp).trans hn
    | some app =>
      rw [hx] at hp
      exact Option.some.inj hp ▸ hparked app hx
  · intro hp
    obtain ⟨hnone, hpending⟩ := Option.or_eq_none_iff.1 hp
    simp [SheepSlot.reconfigured, hnone, hs.unparked hpending]

theorem representative_own {e : ℕ × SheepSlot} (h : a.representative name = some e) :
    a.sheep[e.1]? = some e.2 ∧ e.2.name = name := by
  have hmem := List.mem_of_head? h
  rw [List.mem_insertionSort, List.mem_filter] at hmem
  exact ⟨Table.mem_toList.1 hmem.1, by simpa using hmem.2⟩

theorem paneTarget_own (h : Inv x a) (hp : a.paneTarget name = .ok (some s)) :
    s.WellFormed ∧ s.name = name := by
  unfold paneTarget at hp
  split at hp
  · cases hp
  · next id t ht =>
    obtain ⟨hs, hn⟩ := representative_own ht
    split at hp
    · cases hp
    · obtain rfl := Option.some.inj (Except.ok.inj hp)
      exact ⟨h.wellFormed hs, hn⟩

theorem parkEdited_moves (h : Inv x a) (hconf : c.Configures name) {edited : AppConfig} (he : edited.name = name) :
    Moves c ⟨x, a⟩ ⟨x, (a.parkEdited c.world name edited).2⟩ := by
  unfold parkEdited
  split
  · exact .refl
  · next parked hn =>
    split
    · exact .refl
    · exact mapApp_moves h hconf fun s hs hsn =>
        parked_agrees ((c.world.normalize_name hn).trans he) _ hs hsn

theorem handleSetSheepEnv_moves (h : Inv x a) (hconf : c.Configures name) (key : String) (value : Option String) :
    Moves c ⟨x, a⟩ ⟨x, (a.handleSetSheepEnv c.world name key value).2⟩ := by
  unfold handleSetSheepEnv
  split
  · exact .refl
  · exact .refl
  · next s hs =>
    obtain ⟨hwf, hn⟩ := paneTarget_own h hs
    exact parkEdited_moves h hconf (hwf.intendedSpec_name.trans hn)

theorem handleSetSheepEnvBatch_moves (h : Inv x a) (hconf : c.Configures name)
    (entries : List (String × String))
    (force dryRun : Bool) :
    Moves c ⟨x, a⟩ ⟨x, (a.handleSetSheepEnvBatch c.world name entries force dryRun).2⟩ := by
  unfold handleSetSheepEnvBatch
  split
  · exact .refl
  · exact .refl
  · next s hs =>
    obtain ⟨hwf, hn⟩ := paneTarget_own h hs
    dsimp only
    split
    · exact .refl
    · split
      · split <;> exact .refl
      · exact parkEdited_moves h hconf (hwf.intendedSpec_name.trans hn)

theorem handleCopySheepEnv_moves (h : Inv x a) (source : String) {target : String}
    (hconf : c.Configures target) (replace : Bool)
    (keep : List String) (dryRun : Bool) (reviewed : Option (List EnvCopyChange)) :
    Moves c ⟨x, a⟩
      ⟨x, (a.handleCopySheepEnv c.world source target replace keep dryRun reviewed).2⟩ := by
  unfold handleCopySheepEnv
  split
  · exact .refl
  · exact .refl
  · next hgiver htaker =>
    obtain ⟨hs, hn⟩ := representative_own htaker
    split
    · exact .refl
    · split
      · exact .refl
      · dsimp only
        generalize (ite (replace = true) _ _ : List (String × String)) = after
        split
        · exact .refl
        · split
          · exact .refl
          · split
            · split <;> exact .refl
            · exact parkEdited_moves h hconf ((h.wellFormed hs).intendedSpec_name.trans hn)

theorem toOption_name {outcome : Except String AppConfig}
    (h : ∀ app, outcome = .ok app → app.name = name) :
    ∀ app, outcome.toOption = some app → app.name = name := by
  intro app happ
  cases outcome with
  | error err => cases happ
  | ok app' => exact Option.some.inj happ ▸ h app' rfl

theorem applySheepField_moves (h : Inv x a) (hconf : c.Configures name) (key : String)
    {edit : AppConfig → Except SupervisorError AppConfig}
    (hedit : ∀ app app', edit app = .ok app' → app'.name = app.name) :
    Moves c ⟨x, a⟩ ⟨x, (a.applySheepField c.world name key edit).2⟩ := by
  unfold applySheepField
  split
  · exact .refl
  · exact .refl
  · next s hs =>
    obtain ⟨hwf, hn⟩ := paneTarget_own h hs
    split
    · exact .refl
    · next edited he =>
      split
      · exact .refl
      · next merged hm =>
        have hmerged : merged.name = name :=
          (c.world.normalize_name hm).trans ((hedit _ _ he).trans (hwf.intendedSpec_name.trans hn))
        dsimp only
        split
        · exact .refl
        · refine mapApp_moves h hconf fun t ht htn => reconfigured_agrees (toOption_name ?_) ?_ _ ht htn
          · exact fun app happ => (c.world.reachedSpec_name (hn.trans hmerged.symm) happ).trans hn
          · intro app happ
            split at happ
            · exact Option.some.inj happ ▸ hmerged
            · cases happ

theorem fieldEdit_name {key : String} {source : FieldSource} {app app' : AppConfig}
    (h : fieldEdit w name key source app = .ok app') : app'.name = app.name := by
  unfold fieldEdit at h
  split at h
  · cases h
  · split at h
    · cases h
    · next he => exact Except.ok.inj h ▸ w.editField_name he

theorem handleSheepField_moves (h : Inv x a) (hconf : c.Configures name) (key : String) (source : FieldSource) :
    Moves c ⟨x, a⟩ ⟨x, (a.handleSheepField c.world name key source).2⟩ := by
  unfold handleSheepField
  split
  · exact .refl
  · exact applySheepField_moves h hconf key fun app app' he => fieldEdit_name he

theorem handleSetSheepDogSettings_moves (h : Inv x a) (hconf : c.Configures name) (dog : String) (table : Option String) :
    Moves c ⟨x, a⟩ ⟨x, (a.handleSetSheepDogSettings c.world name dog table).2⟩ := by
  unfold handleSetSheepDogSettings
  refine applySheepField_moves h hconf "dogs" fun app app' he => ?_
  rw [← Except.ok.inj he]

/-! ## Loading a Flockfile -/

/-- One app of a load: a scale at most, then an edit. -/
theorem applyOne_moves (h : Inv .none a) (reset : ResetDepth) (incoming : DeclaredApp)
    (hscales : c.Scales incoming.config.name) (hconf : c.Configures incoming.config.name)
    (hlater : c.before.nextId ≤ a.nextId) :
    Moves c ⟨.none, a⟩ ⟨.none, (a.applyOne c.world reset incoming).2⟩ := by
  unfold applyOne
  dsimp only
  split
  · exact .refl
  · next id s hs =>
    obtain ⟨hslot, hn⟩ := representative_own hs
    split
    · exact .refl
    · split
      · exact .refl
      · next merged hmerge =>
        have hint := (h.wellFormed hslot).intendedSpec_name.trans hn
        have hmerged : merged.name = incoming.config.name :=
          (c.world.mergeDeclared_name hint hmerge).trans hint
        have hroute : Moves c ⟨.none, a⟩ ⟨.none, (a.routeCount c.world incoming.config.name s.entry.spec
            s.intendedSpec merged).2⟩ := by
          unfold routeCount
          split
          · exact .refl
          · split
            · exact .refl
            · next hdown =>
              have hscale : Moves c ⟨.none, a⟩
                  ⟨.none, (a.handleScale c.world incoming.config.name merged.instances).2⟩ :=
                handleScale_moves h _ _ hscales hconf hlater fun hd => absurd hd hdown
              split
              · next he =>
                rw [he] at hscale
                exact hscale
              · next he =>
                rw [he] at hscale
                exact hscale
        split
        · next he =>
          rw [he] at hroute
          exact hroute
        · next count shortfall a' he =>
          rw [he] at hroute
          refine hroute.trans (mapApp_moves (hroute.inv h) hconf fun t ht htn =>
            reconfigured_agrees (toOption_name ?_) ?_ _ ht htn)
          · exact fun app happ => (c.world.reachedSpec_name (hn.trans hmerged.symm) happ).trans hn
          · intro app happ
            split at happ
            · exact toOption_name (fun app' he' => (tryWithCount_name he').trans hmerged) app happ
            · cases happ

theorem applyApps_moves (h : Inv .none a) (reset : ResetDepth) (apps : List DeclaredApp)
    (hscales : ∀ app ∈ apps, c.Scales app.config.name ∧ c.Configures app.config.name) (hlater : c.before.nextId ≤ a.nextId)
    (rows : List Applied) :
    Moves c ⟨.none, a⟩ ⟨.none, (apps.foldl
      (fun (r : List Applied × Actor) incoming =>
        let one := r.2.applyOne c.world reset incoming
        (r.1 ++ [one.1], one.2)) (rows, a)).2⟩ := by
  induction apps generalizing a rows with
  | nil => exact .refl
  | cons app apps ih =>
    have hone : Moves c ⟨.none, a⟩ ⟨.none, (a.applyOne c.world reset app).2⟩ :=
      applyOne_moves h reset app (hscales app List.mem_cons_self).1
        (hscales app List.mem_cons_self).2 hlater
    exact hone.trans (ih (hone.inv h) (fun app happ => hscales app (List.mem_cons_of_mem _ happ))
      (hlater.trans hone.names.1) _)

theorem handleApplyConfig_moves (h : Inv .none a) (hbefore : c.before = a)
    {apps : List DeclaredApp} {reset : ResetDepth} (hmsg : c.msg = .command (.applyConfig apps reset)) :
    Moves c ⟨.none, a⟩ ⟨.none, (a.handleApplyConfig c.world apps reset).2⟩ := by
  have hall : Moves c ⟨.none, a⟩ ⟨.none, _⟩ :=
    applyApps_moves h reset apps (fun app happ => by
      simp only [Turn.Scales, Turn.Configures, hmsg]
      exact ⟨List.mem_map_of_mem happ, List.mem_map_of_mem happ⟩) (by rw [hbefore]) []
  unfold handleApplyConfig
  split
  · exact .refl
  · dsimp only
    split <;> exact hall

/-! ## The loop -/

theorem handleReset_moves (h : Inv .none a) (selector : ProcessSelector) :
    Moves c ⟨.none, a⟩ ⟨.none, a.handleReset selector⟩ := by
  unfold handleReset
  dsimp only
  split
  · exact .single (.answer _ (by simp))
  · have hedits : ∀ (ids : List ℕ) (b : Actor), Inv .none b →
        Moves c ⟨.none, b⟩ ⟨.none, ids.foldl (fun a id => a.modifySlot id resetSlot) b⟩ := by
      intro ids
      induction ids with
      | nil => exact fun b _ => .refl
      | cons id ids ih =>
        intro b hb
        have hone : Moves c ⟨.none, b⟩ ⟨.none, b.modifySlot id resetSlot⟩ := by
          unfold modifySlot
          split
          · next s hs =>
            have hrefl := SheepSlot.Agrees.refl (hb.wellFormed hs)
            exact .single (.edit _ hs { hrefl with }
              (Or.inr ((SheepSlot.Heir.refl s).same rfl rfl rfl rfl)))
          · exact .refl
        exact hone.trans (ih _ (hone.inv hb))
    exact (hedits _ a h).tail (.answer _ (by simp))

theorem answering_moves {α : Type} {payload : α → Answer} (hp : ∀ v, payload v ≠ .shutdown)
    {r : α × Actor} (hm : Moves c ⟨.none, a⟩ ⟨.none, r.2⟩) :
    Moves c ⟨.none, a⟩ ⟨.none, answering payload r⟩ :=
  hm.tail (.answer _ (hp r.1))

theorem allows_delete (hbefore : c.before = a) {selector : ProcessSelector}
    (hmsg : c.msg = .command (.delete selector)) :
    ∀ id ∈ a.matchingIds selector, c.Allows c.world .delete .operator a id := by
  intro id hid
  refine ⟨Or.inl (Turn.orders hmsg (by simp)), by simp, by simp, fun _ => ⟨rfl, ?_⟩⟩
  rintro s hs hctl ⟨n, job, hj, hnew⟩
  subst hbefore
  exact ⟨n, job, s, hj, hnew, hs, Or.inl ⟨selector, hmsg, hid, hctl⟩⟩

/-- `handle_command` as moves. -/
theorem handleCommand_moves (h : Inv .none a) (hbefore : c.before = a)
    {command : Command} (hmsg : c.msg = .command command) :
    Moves c ⟨.none, a⟩ ⟨.none, a.handleCommand c.world command⟩ := by
  cases command with
  | start apps policy gate =>
    simp only [handleCommand]
    split
    · exact .single (.answer _ (by simp))
    · next hdown => exact answering_moves (by simp) (doStart_moves h hbefore (by simpa using hdown) hmsg)
  | registerAtRest apps disabled =>
    simp only [handleCommand]
    exact answering_moves (by simp) (registerAtRest_moves hmsg)
  | registerDogsAtRest dogs disabled =>
    simp only [handleCommand]
    exact answering_moves (by simp) (registerDogs_moves hmsg dogs (List.Subset.refl _) [])
  | startDog app source => exact answering_moves (by simp) (doStartDog_moves h hbefore hmsg)
  | scale name count =>
    refine answering_moves (by simp) (handleScale_moves h name count
      (by simp [Turn.Scales, hmsg]) (by simp [Turn.Configures, hmsg]) (by rw [hbefore]) ?_)
    intro hd hup
    subst hbefore
    exact ⟨hd, name, count, hmsg, hup⟩
  | applyConfig apps reset =>
    simp only [handleCommand]
    exact answering_moves (by simp) (handleApplyConfig_moves h hbefore hmsg)
  | setSheepEnv name key value => exact answering_moves (by simp) (handleSetSheepEnv_moves h (by simp [Turn.Configures, hmsg]) key value)
  | setSheepEnvBatch name entries force dryRun =>
    exact answering_moves (by simp) (handleSetSheepEnvBatch_moves h (by simp [Turn.Configures, hmsg]) entries force dryRun)
  | copySheepEnv source target replace keep dryRun reviewed =>
    exact answering_moves (by simp) (handleCopySheepEnv_moves h source (by simp [Turn.Configures, hmsg]) replace keep dryRun reviewed)
  | setSheepField name key value =>
    exact answering_moves (by simp) (handleSheepField_moves h (by simp [Turn.Configures, hmsg]) key (.set value))
  | resetSheepField name key => exact answering_moves (by simp) (handleSheepField_moves h (by simp [Turn.Configures, hmsg]) key .reset)
  | setSheepDogSettings name dog table =>
    exact answering_moves (by simp) (handleSetSheepDogSettings_moves h (by simp [Turn.Configures, hmsg]) dog table)
  | list => exact .single (.answer _ (by simp))
  | inspect => exact .refl
  | reset selector => exact handleReset_moves h selector
  | stop selector =>
    exact beginManual_moves h (fun id _ => allows_stop (Turn.orders hmsg (by simp)) _ id) (by simp)
  | restart selector origin =>
    simp only [handleCommand]
    split
    · exact .single (.answer _ (by simp))
    · next hdown =>
      exact restartUnlessDisabled_moves h hbefore (by simpa using hdown) hmsg
  | disable selector => exact handleDisable_moves h hbefore hmsg
  | disableDog name => exact handleDisableDog_moves h hmsg
  | enable selector => exact handleEnable_moves h hbefore hmsg
  | extraRestart id pid epoch observed =>
    exact handleExtraRestart_moves h (Turn.orders hmsg (by simp)) id pid epoch observed
  | reload selector =>
    simp only [handleCommand]
    split
    · exact .single (.answer _ (by simp))
    · exact handleReload_moves h hbefore hmsg
  | delete selector => exact beginManual_moves h (allows_delete hbefore hmsg) (by simp)
  | shutdown => exact beginShutdown_moves hmsg

/-- **One turn of the loop is a sequence of moves**, and the disabled marks
nobody holds any more are pruned after them. -/
theorem turn_moves (h : Inv .none a) {m : Msg} (hadm : a.admits m) (w : World) :
    ∃ b, Moves ⟨a, w, m⟩ ⟨.none, a⟩ ⟨.none, b⟩ ∧ a.turn w m = b.pruneDisabled := by
  refine ⟨((a.receive m).handle w m).forget m, ?_, rfl⟩
  cases m with
  | command command => exact handleCommand_moves h rfl rfl
  | exited task outcome oomKilled => exact handleExited_moves h rfl hadm outcome oomKilled rfl
  | restartDue timer => exact handleRestartDue_moves h rfl hadm rfl
  | readyResult wait readiness =>
    cases readiness with
    | ready =>
      have hhear : Move ⟨a, w, .readyResult wait .ready⟩ ⟨.none, a⟩ ⟨.none, _⟩ := .hear wait
      exact .head hhear ((handleReadyResult_moves (hhear.inv h) rfl rfl
        fun _ => List.mem_cons_self).tail (.quiet _ _ _))
    | timedOut => exact (handleReadyResult_moves h rfl rfl (by simp)).tail (.quiet _ _ _)
  | reloadDeadline watchdog =>
    refine (handleReloadDeadline_moves h rfl watchdog.name watchdog.stamp).tail (.unwatch _ ?_)
    exact fun n job hj => handleReloadDeadline_unwatched h watchdog.name watchdog.stamp hj
  | reloadVerified verify readiness =>
    exact (handleReloadVerified_moves h rfl verify readiness rfl).tail (.quiet _ _ _)

theorem inv_init (dogBinaries : List (String × String)) : Inv .none (init dogBinaries) where
  flock := by simp [FlockOk, init]
  tasks := ⟨by simp [init], by simp [init], by simp [init], by simp [init]⟩
  jobs := by simp [JobsOk, init]
  marks := ⟨by simp [init], by simp [init]⟩
  replies := ⟨by simp [init], by simp [init], by simp [init]⟩
  timers := ⟨by simp [init], by simp [init], by simp [init]⟩
  watchdogs := ⟨by simp [init], by simp [init]⟩

theorem Step.inv {a a' : Actor} {e : World × Msg} (hstep : Step a e a') (h : Inv .none a) :
    Inv .none a' := by
  obtain ⟨-, hadm, rfl⟩ := hstep
  obtain ⟨b, hm, hb⟩ := turn_moves h hadm e.1
  have hi := hm.inv h
  rw [hb]
  exact ⟨hi.flock, hi.tasks, hi.jobs, hi.marks, hi.replies, hi.timers, hi.watchdogs⟩

/-- **The invariant holds in every reachable state.** -/
theorem reachable_inv {dogBinaries : List (String × String)} {h : List (Actor × World × Msg)}
    {a : Actor} (hr : Run Step (init dogBinaries) h a) : Inv .none a :=
  hr.invariant (P := Inv .none) meets_true (inv_init dogBinaries)
    fun _ _ _ hinv _ hstep => hstep.inv hinv

end Actor

/-! ## The rules the results use -/

/-- What every move of a turn preserves, given the invariant, its moves
preserve. -/
theorem Moves.keeps {P : Point → Prop} {p q : Point} (hm : Moves c p q) (hi : Inv p.hole p.actor)
    (h0 : P p) (move : ∀ p q, Inv p.hole p.actor → P p → Move c p q → P q) : P q := by
  have hboth : Inv q.hole q.actor ∧ P q :=
    micro_invariant (P := fun p : Point => Inv p.hole p.actor ∧ P p)
      (fun p q h hm => ⟨hm.inv h.1, move p q h.1 h.2 hm⟩) hm ⟨hi, h0⟩
  exact hboth.2

/-- **The rule for runs.** `Q` is a property of the states between turns,
and `P` takes it from the beginning of a turn that meets `C` to its end. -/
theorem run_keeps {C : Turn → Prop} {Q : Actor → Prop} {P : Turn → Point → Prop}
    (enter : ∀ c, C c → Inv .none c.before → Q c.before → P c ⟨.none, c.before⟩)
    (move : ∀ c p q, C c → Inv p.hole p.actor → P c p → Move c p q → P c q)
    (leave : ∀ c b, P c ⟨.none, b⟩ → Q b.pruneDisabled)
    {b a : Actor} {h : List (Actor × World × Msg)} (hr : Run Actor.Step b h a)
    (hC : Meets (fun s e => C ⟨s, e.1, e.2⟩) h) (hb : Inv .none b) (h0 : Q b) : Q a := by
  have hboth : Inv .none a ∧ Q a := by
    refine hr.invariant (P := fun a => Inv .none a ∧ Q a) hC ⟨hb, h0⟩ ?_
    rintro s e s' ⟨hi, hq⟩ hc hstep
    refine ⟨Actor.Step.inv hstep hi, ?_⟩
    obtain ⟨-, hadm, rfl⟩ := hstep
    obtain ⟨d, hm, hd⟩ := Actor.turn_moves hi hadm e.1
    rw [hd]
    refine leave ⟨s, e.1, e.2⟩ d ?_
    exact hm.keeps hi (enter ⟨s, e.1, e.2⟩ hc hi hq) fun p q => move ⟨s, e.1, e.2⟩ p q hc
  exact hboth.2

end Supervisor

end Shep

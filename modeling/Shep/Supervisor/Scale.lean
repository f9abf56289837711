import Shep.Supervisor.Helpers.Leaving
import Shep.Supervisor.Helpers.Scaling
import Shep.Supervisor.Instances

/-!
# Supervisor — what a scale comes to

`handle_scale` answers before anybody has left, so what it promises is what
there is once the instances on their way out have exited (`Parted`): the
count that was asked for, each under a number of its own. It refuses while
a reload is in flight or a delete waits for an exit, and does not look at
what a reload that was given up has left draining: a drainee it keeps is
counted and then leaves. **`scale_exact`** says that this is the only way
a granted scale misses its count.
-/

namespace Shep

namespace Supervisor

open Shep.Table

variable {w : World} {a a' b : Actor} {name : String} {n id : ℕ} {s s' : SheepSlot}

namespace Actor

/-- The app runs `n` instances, each under a number of its own. -/
structure Counts (name : String) (n : ℕ) (b : Actor) : Prop where
  length : (b.idsOfName name).length = n
  apart : ∀ (i j : ℕ) (s t : SheepSlot), b.sheep[i]? = some s → b.sheep[j]? = some t →
    s.name = name → t.name = name → s.entry.inst = t.entry.inst → i = j

/-- **No instance a scale to `n` would keep is draining**, but for one
that has no process left and shares its number with nobody kept. -/
def KeepsNoDrainee (name : String) (n : ℕ) (a : Actor) : Prop :=
  ∀ id ∈ (a.idsOfName name).take n, ∀ (s : SheepSlot) (q : Option ℕ), a.sheep[id]? = some s →
    s.entry.reload = .drainee q → s.ctl = none ∧
      ∀ j ∈ (a.idsOfName name).take n, ∀ t, a.sheep[j]? = some t →
        t.entry.inst = s.entry.inst → j = id

/-- What a scale to `n` without a shortfall has made of the app: `kept` are
the first of its instances, and new ones under numbers nobody had. -/
structure Resized (a : Actor) (name : String) (n : ℕ) (kept : List ℕ) (a' : Actor) : Prop where
  length : kept.length = n
  nodup : kept.Nodup
  old : ∀ id, id < a.nextId → (id ∈ kept ↔ id ∈ (a.idsOfName name).take n)
  slot : ∀ id ∈ kept, ∃ s', a'.sheep[id]? = some s' ∧ s'.name = name ∧ s'.pendingDelete = false ∧
    (id < a.nextId ∧ (∃ s, a.sheep[id]? = some s ∧ s.name = name ∧ s.pendingDelete = false ∧
        s'.entry.inst = s.entry.inst ∧ s'.entry.reload = s.entry.reload ∧ s'.ctl = s.ctl) ∨
      a.nextId ≤ id ∧ s'.entry.reload = .none ∧
        s'.entry.inst ∉ (a.slotsOfName name).map Prod.fst)
  fresh : ∀ (i j : ℕ) (s t : SheepSlot), a.nextId ≤ i → a.nextId ≤ j → a'.sheep[i]? = some s →
    a'.sheep[j]? = some t → s.entry.inst = t.entry.inst → i = j
  leaving : ∀ (id : ℕ) (s' : SheepSlot), a'.sheep[id]? = some s' → s'.name = name → id ∉ kept →
    s'.pendingDelete = true

theorem mem_idsOfName : id ∈ a.idsOfName name ↔ ∃ s, a.sheep[id]? = some s ∧ s.name = name := by
  constructor
  · intro hid
    obtain ⟨e, he, rfl⟩ := List.mem_map.1 hid
    obtain ⟨s, hs, hn, -⟩ := mem_slotsOfName.1 he
    exact ⟨s, hs, hn⟩
  · rintro ⟨s, hs, hn⟩
    exact List.mem_map.2 ⟨(s.entry.inst, id), mem_slotsOfName.2 ⟨s, hs, hn, rfl⟩, rfl⟩

/-! ## From what is kept to what is left -/

namespace Resized

variable {kept : List ℕ}

theorem going (hr : Resized a name n kept a') (hid : id ∈ kept) :
    a'.Going name id ↔ id < a.nextId ∧ ∃ (s : SheepSlot) (q : Option ℕ), a.sheep[id]? = some s ∧
      s.entry.reload = .drainee q ∧ s.ctl.isSome = true := by
  obtain ⟨s', hs', hname, hdel, horigin⟩ := hr.slot id hid
  constructor
  · rintro ⟨t, ht, -, hleaves, hlive⟩
    obtain rfl := Option.some.inj (hs'.symm.trans ht)
    obtain ⟨q, hq⟩ := hleaves.resolve_right (by simp [hdel])
    rcases horigin with ⟨hlt, s, hs, -, -, -, hreload, hctl⟩ | ⟨-, hreload, -⟩
    · exact ⟨hlt, s, q, hs, hreload ▸ hq, hctl ▸ hlive⟩
    · rw [hreload] at hq
      cases hq
  · rintro ⟨hlt, s, q, hs, hq, hlive⟩
    rcases horigin with ⟨-, t, ht, -, -, -, hreload, hctl⟩ | ⟨hge, -⟩
    · obtain rfl := Option.some.inj (hs.symm.trans ht)
      exact ⟨s', hs', hname, Or.inl ⟨q, hreload.trans hq⟩, hctl ▸ hlive⟩
    · omega

theorem left (hr : Resized a name n kept a') (hi : Inv .none a') (hidle : a'.reloads[name]? = none)
    (hp : Parted name a' b) : (∃ s, b.sheep[id]? = some s ∧ s.name = name) ↔
      id ∈ kept ∧ ¬ a'.Going name id := by
  constructor
  · rintro ⟨s, hs⟩
    obtain ⟨hs', hname, hstays⟩ := (hp.get hi hidle id).1 hs
    refine ⟨?_, hstays⟩
    -- an instance that is not kept waits for its exit
    by_contra hid
    have hdel := hr.leaving id s hs' hname hid
    exact hstays ⟨s, hs', hname, Or.inr hdel, ((hi.wellFormed hs').doomed hdel).2⟩
  · rintro ⟨hid, hstays⟩
    obtain ⟨s', hs', hname, -⟩ := hr.slot id hid
    exact ⟨s', (hp.get hi hidle id).2 ⟨hs', hname, hstays⟩⟩

theorem length_iff (hr : Resized a name n kept a') (hi : Inv .none a')
    (hidle : a'.reloads[name]? = none) (hp : Parted name a' b) :
    (b.idsOfName name).length = n ↔ ∀ id ∈ kept, ¬ a'.Going name id := by
  classical
  have hperm : (b.idsOfName name).Perm (kept.filter fun id => ¬ a'.Going name id) := by
    refine (List.perm_ext_iff_of_nodup (nodup_idsOfName name) (hr.nodup.filter _)).2 fun id => ?_
    show id ∈ b.idsOfName name ↔ _
    rw [mem_idsOfName, hr.left hi hidle hp, List.mem_filter, decide_eq_true_iff]
  rw [hperm.length_eq, ← hr.length, List.length_filter_eq_length_iff]
  simp

/-- Two instances kept share a number only if one of them drains. -/
theorem drainee_of_same (hr : Resized a name n kept a') (hid : a.Identifies) {i j : ℕ}
    {s t : SheepSlot} (hi : i ∈ kept) (hj : j ∈ kept) (hs : a'.sheep[i]? = some s)
    (ht : a'.sheep[j]? = some t) (hinst : s.entry.inst = t.entry.inst) (hne : i ≠ j) :
    i < a.nextId ∧ j < a.nextId ∧ ∃ (u v : SheepSlot) (q : Option ℕ), a.sheep[i]? = some u ∧
      a.sheep[j]? = some v ∧ u.entry.inst = v.entry.inst ∧
      (u.entry.reload = .drainee q ∨ v.entry.reload = .drainee q) := by
  obtain ⟨s', hs', -, -, hsold⟩ := hr.slot i hi
  obtain ⟨t', ht', -, -, htold⟩ := hr.slot j hj
  obtain rfl := Option.some.inj (hs.symm.trans hs')
  obtain rfl := Option.some.inj (ht.symm.trans ht')
  have htaken : ∀ {k : ℕ} {u : SheepSlot}, a.sheep[k]? = some u → u.name = name →
      u.entry.inst ∈ (a.slotsOfName name).map Prod.fst := fun {k u} hu hn =>
    List.mem_map.2 ⟨(u.entry.inst, k), mem_slotsOfName.2 ⟨u, hu, hn, rfl⟩, rfl⟩
  rcases hsold with ⟨hilt, u, hu, hun, hud, hui, -⟩ | ⟨hige, -, hifree⟩ <;>
    rcases htold with ⟨hjlt, v, hv, hvn, hvd, hvi, -⟩ | ⟨hjge, -, hjfree⟩
  · have hsame : u.entry.inst = v.entry.inst := hui.symm.trans (hinst.trans hvi)
    have hplace : u.place = v.place := Prod.ext (hun.trans hvn.symm) hsame
    rcases hid.apart i j u v hu hv hplace hne with hl | hl
    · obtain ⟨q, hq⟩ := hl.resolve_right (by simp [hud])
      exact ⟨hilt, hjlt, u, v, q, hu, hv, hsame, Or.inl hq⟩
    · obtain ⟨q, hq⟩ := hl.resolve_right (by simp [hvd])
      exact ⟨hilt, hjlt, u, v, q, hu, hv, hsame, Or.inr hq⟩
  · refine absurd ?_ hjfree
    rw [← hinst, hui]
    exact htaken hu hun
  · refine absurd ?_ hifree
    rw [hinst, hvi]
    exact htaken hv hvn
  · exact absurd (hr.fresh i j s t hige hjge hs ht hinst) hne

/-- **The count is met, each under a number of its own, exactly if no
drainee is kept.** -/
theorem counts_iff (hr : Resized a name n kept a') (hi : Inv .none a')
    (hidle : a'.reloads[name]? = none) (hid : a.Identifies) :
    (∀ b, Parted name a' b → Counts name n b) ↔ a.KeepsNoDrainee name n := by
  have hlt : ∀ id ∈ (a.idsOfName name).take n, id < a.nextId := by
    intro id hin
    obtain ⟨s, hs, -⟩ := mem_idsOfName.1 (List.mem_of_mem_take hin)
    exact hid.counted id s hs
  constructor
  · intro hall id hin s q hs hq
    obtain ⟨b, hp⟩ := exists_parted hi hidle plain
    have hcount := hall b hp
    have hstays := (hr.length_iff hi hidle hp).1 hcount.length
    have hkept : ∀ k ∈ (a.idsOfName name).take n, k ∈ kept :=
      fun k hk => (hr.old k (hlt k hk)).2 hk
    refine ⟨?_, fun j hj t ht hinst => ?_⟩
    · cases hctl : s.ctl with
      | none => rfl
      | some k =>
        refine absurd ?_ (hstays id (hkept id hin))
        exact (hr.going (hkept id hin)).2 ⟨hlt id hin, s, q, hs, hq, by simp [hctl]⟩
    · have hleft : ∀ (k : ℕ) (u : SheepSlot), k ∈ (a.idsOfName name).take n →
          a.sheep[k]? = some u → ∃ u', b.sheep[k]? = some u' ∧ u'.name = name ∧
            u'.entry.inst = u.entry.inst := by
        intro k u hk hu
        obtain ⟨u', hu', hun, -, ⟨-, v, hv, -, -, hinst, -⟩ | ⟨hge, -⟩⟩ := hr.slot k (hkept k hk)
        · obtain rfl := Option.some.inj (hu.symm.trans hv)
          have hb := (hp.get hi hidle k).2 ⟨hu', hun, hstays k (hkept k hk)⟩
          exact ⟨u', hb.1, hb.2, hinst⟩
        · have := hlt k hk
          omega
      obtain ⟨s', hs', hsn, hsi⟩ := hleft id s hin hs
      obtain ⟨t', ht', htn, hti⟩ := hleft j t hj ht
      exact hcount.apart j id t' s' ht' hs' htn hsn (hti.trans (hinst.trans hsi.symm))
  · intro hnone b hp
    have hstays : ∀ id ∈ kept, ¬ a'.Going name id := by
      intro id hin hgoing
      obtain ⟨hlt', s, q, hs, hq, hlive⟩ := (hr.going hin).1 hgoing
      rw [(hnone id ((hr.old id hlt').1 hin) s q hs hq).1] at hlive
      cases hlive
    refine ⟨(hr.length_iff hi hidle hp).2 hstays, fun i j s t hs ht hsn htn hinst => ?_⟩
    by_contra hne
    obtain ⟨hik, -⟩ := (hr.left hi hidle hp).1 ⟨s, hs, hsn⟩
    obtain ⟨hjk, -⟩ := (hr.left hi hidle hp).1 ⟨t, ht, htn⟩
    have hs' := ((hp.get hi hidle i).1 ⟨hs, hsn⟩).1
    have ht' := ((hp.get hi hidle j).1 ⟨ht, htn⟩).1
    obtain ⟨hil, hjl, u, v, q, hu, hv, hsame, hq | hq⟩ :=
      hr.drainee_of_same hid hik hjk hs' ht' hinst hne
    · exact hne ((hnone i ((hr.old i hil).1 hik) u q hu hq).2 j ((hr.old j hjl).1 hjk) v hv
        hsame.symm).symm
    · exact hne ((hnone j ((hr.old j hjl).1 hjk) v q hv hq).2 i ((hr.old i hil).1 hik) u hu hsame)

end Resized

/-! ## What a granted scale keeps -/

theorem storeScaled_shortfall {firstId count : ℕ} {rescaled : AppConfig} {survivors : List ℕ}
    {failed : Option (ℕ × String)} {scaled : Scaled}
    (hok : a.storeScaled w firstId rescaled count survivors failed = (.ok scaled, a')) :
    scaled.shortfall = failed.map Prod.snd := by
  unfold storeScaled at hok
  split at hok
  · cases (Prod.mk.inj hok).1
  · rw [← Except.ok.inj (Prod.mk.inj hok).1]

/-- The rows of a granted scale are those of its survivors. -/
theorem storeScaled_rows {firstId count : ℕ} {rescaled : AppConfig} {survivors : List ℕ}
    {failed : Option (ℕ × String)} {scaled : Scaled}
    (hok : a.storeScaled w firstId rescaled count survivors failed = (.ok scaled, a'))
    (hthere : ∀ id ∈ survivors, (a'.sheep[id]?).isSome = true) :
    id ∈ scaled.instances.map ProcessInfo.id ↔ id ∈ survivors := by
  unfold storeScaled at hok
  split at hok
  · cases (Prod.mk.inj hok).1
  · obtain ⟨hanswer, hactor⟩ := Prod.mk.inj hok
    rw [hactor] at hanswer
    rw [← Except.ok.inj hanswer]
    simp only [sortFlock, List.mem_map, List.mem_insertionSort, List.mem_flatMap]
    constructor
    · rintro ⟨info, ⟨j, hj, hinfo⟩, rfl⟩
      unfold infoOf at hinfo
      split at hinfo
      · rw [List.mem_singleton.1 hinfo]
        exact hj
      · cases hinfo
    · intro hid
      obtain ⟨s, hs⟩ := Option.isSome_iff_exists.1 (hthere id hid)
      exact ⟨toInfo id s, ⟨id, hid, by simp [infoOf, hs]⟩, rfl⟩

end Actor

theorem SheepSlot.rescaled_keeps (w : World) (stored : AppConfig) (achieved : ℕ)
    (owed : Option (AppConfig × Bool)) (s : SheepSlot) :
    (s.rescaled w stored achieved owed).entry.inst = s.entry.inst ∧
      (s.rescaled w stored achieved owed).entry.reload = s.entry.reload ∧
      (s.rescaled w stored achieved owed).ctl = s.ctl ∧
      (s.rescaled w stored achieved owed).pendingDelete = s.pendingDelete := by
  unfold SheepSlot.rescaled
  dsimp only
  split <;> exact ⟨rfl, rfl, rfl, rfl⟩

namespace Actor

theorem SpawnedFresh.unmarked {app : AppConfig} {inst : ℕ} {credentials : Option Credentials}
    {dog : Option DogSource} (h : SpawnedFresh w id app inst credentials dog a a')
    (hs : a'.sheep[id]? = some s) : s.entry.reload = .none ∧ s.pendingDelete = false := by
  have hget : ∀ (t : SheepSlot) (b : Actor), (b.setSlot id t).sheep[id]? = some t :=
    fun t b => get_setSlot id t b
  cases h with
  | errored hf =>
    rw [hget] at hs
    exact Option.some.inj hs ▸ ⟨hf.reload, hf.pendingDelete⟩
  | waiting _ hf _ _ hrest =>
    have hs := (hget _ _).symm.trans hs
    exact Option.some.inj hs ▸
      ⟨hrest.reload.trans hf.reload, hrest.pendingDelete.trans hf.pendingDelete⟩
  | live _ hf =>
    have hs := (hget _ _).symm.trans hs
    exact Option.some.inj hs ▸ ⟨hf.reload, hf.pendingDelete⟩

/-- A scale-up that spawns all it was asked to enters one instance for each
number, under consecutive ids. -/
theorem scaleUp_whole (app : AppConfig) (credentials : Option Credentials) (free ids : List ℕ)
    (hids : ∀ id ∈ ids, id < a.nextId)
    (hreg : ∀ j s, a.sheep[j]? = some s → j < a.nextId)
    (hnone : (scaleUp w app credentials free ids a).2.1 = none) :
    (scaleUp w app credentials free ids a).1.length = ids.length + free.length ∧
      (∀ j s, a.nextId ≤ j → (scaleUp w app credentials free ids a).2.2.sheep[j]? = some s →
        ∃ k, j = a.nextId + k ∧ free[k]? = some s.entry.inst ∧ s.entry.reload = .none ∧
          s.pendingDelete = false) := by
  induction free generalizing a ids with
  | nil =>
    refine ⟨by simp [scaleUp], fun j s hj hs => ?_⟩
    have hlt := hreg j s hs
    omega
  | cons inst free ih =>
    have hsp := spawnFreshAt_spawned w a.nextId app inst credentials none []
      { a with nextId := a.nextId + 1 }
    have hf := spawnFreshAt_frame w a.nextId app inst credentials none []
      { a with nextId := a.nextId + 1 }
    have hnext := spawnFreshAt_nextId w a.nextId app inst credentials none []
      { a with nextId := a.nextId + 1 }
    unfold scaleUp at hnone ⊢
    generalize hr : a.spawnFresh w app inst credentials none [] = r at hnone ⊢
    have hr' : spawnFreshAt w a.nextId app inst credentials none []
        { a with nextId := a.nextId + 1 } = r := hr
    rw [hr'] at hsp hf hnext
    obtain ⟨outcome, b⟩ := r
    dsimp only at hsp hf hnext
    cases outcome with
    | error message => cases hnone
    | ok info =>
      have hbreg : ∀ j s, b.sheep[j]? = some s → j < b.nextId := by
        intro j s hs
        by_cases hj : j = a.nextId
        · omega
        · have hold := hreg j s ((hf.sheep j hj).symm.trans hs)
          omega
      have hinfo : info.id = a.nextId := spawnFresh_info hr
      have hids' : ∀ id ∈ ids ++ [info.id], id < b.nextId := by
        intro id hid
        rcases List.mem_append.1 hid with hid | hid
        · have := hids id hid
          omega
        · rw [List.mem_singleton.1 hid]
          omega
      obtain ⟨hlen, hrows⟩ := ih (a := b) (ids ++ [info.id]) hids' hbreg hnone
      refine ⟨?_, fun j s hj hs => ?_⟩
      · rw [hlen]
        simp only [List.length_append, List.length_cons, List.length_nil]
        omega
      · rcases Nat.eq_or_lt_of_le hj with rfl | hlt
        · -- the instance just spawned, which no later spawn touches
          rw [(scaleUp_grows app credentials free (ids ++ [info.id]) hids' hbreg).kept a.nextId
            (by omega)] at hs
          exact ⟨0, rfl, by simp [(hsp.slot hs).inst], hsp.unmarked hs⟩
        · obtain ⟨k, rfl, hk, hmarks⟩ := hrows j s (by omega) hs
          refine ⟨k + 1, by omega, ?_, hmarks⟩
          simpa using hk

/-- The write-back of a scale that met its count. -/
theorem Readied.resized {count firstId : ℕ} {first : SheepSlot} {rescaled : AppConfig}
    {survivors : List ℕ} {scaled : Scaled} (hsp : Speaks w a name count firstId first rescaled)
    (h : Readied w a name count firstId first rescaled survivors none b) (hi : Inv .none a)
    (hlen : survivors.length = count)
    (hold : ∀ id, id < a.nextId → (id ∈ survivors ↔ id ∈ (a.idsOfName name).take count))
    (hnew : ∀ (id : ℕ) (s : SheepSlot), a.nextId ≤ id → b.sheep[id]? = some s →
      s.entry.reload = .none ∧ s.pendingDelete = false ∧
        s.entry.inst ∉ (a.slotsOfName name).map Prod.fst)
    (hfresh : ∀ (i j : ℕ) (s t : SheepSlot), a.nextId ≤ i → a.nextId ≤ j → b.sheep[i]? = some s →
      b.sheep[j]? = some t → s.entry.inst = t.entry.inst → i = j)
    (hok : b.storeScaled w firstId rescaled count survivors none = (.ok scaled, a')) :
    Resized a name count survivors a' ∧
      (∀ id, id ∈ scaled.instances.map ProcessInfo.id ↔ id ∈ survivors) ∧
      a'.reloads[name]? = none := by
  obtain ⟨f, hf⟩ := Option.isSome_iff_exists.1 (h.there firstId h.first_mem)
  obtain ⟨-, happ, hsheep, hreloads, -⟩ := storeScaled_ok hok h.there h.nodup hf
  simp only [Option.map_none, Option.toList_none, List.append_nil] at hsheep
  have hname : scaled.app.name = name := (tryWithCount_name happ).trans hsp.rescaled_name
  -- what a slot after the write-back was before it
  have hback : ∀ (j : ℕ) (s' : SheepSlot), a'.sheep[j]? = some s' → ∃ s, b.sheep[j]? = some s ∧
      s'.entry.inst = s.entry.inst := by
    intro j s' hs'
    rw [hsheep] at hs'
    split at hs'
    · obtain ⟨s, hs, rfl⟩ := Option.map_eq_some_iff.1 hs'
      exact ⟨s, hs, (s.rescaled_keeps _ _ _ _).1⟩
    · exact ⟨s', hs', rfl⟩
  refine ⟨⟨hlen, by simpa using h.nodup, hold, fun id hid => ?_, fun i j s' t' hi' hj' hs' ht' he => ?_,
    fun id s' hs' hn hid => ?_⟩, fun id => storeScaled_rows hok fun id hid => ?_, ?_⟩
  · obtain ⟨s, hs⟩ := Option.isSome_iff_exists.1 (h.there id hid)
    obtain ⟨hinst, hreload, hctl, hdel⟩ := s.rescaled_keeps w scaled.app survivors.length
      (f.owes w survivors.length)
    refine ⟨_, by rw [hsheep, if_pos hid, hs]; rfl, SheepSlot.rescaled_name.trans hname, ?_⟩
    have hkept : ∀ (t : SheepSlot), a.sheep[id]? = some t → t.name = name →
        t.pendingDelete = false := fun t ht htn =>
      hsp.staying (t.entry.inst, id) (mem_slotsOfName.2 ⟨t, ht, htn, rfl⟩) t ht
    rw [hdel, hinst, hreload, hctl]
    rcases h.counted id s hs (by simpa using hid) with ⟨ht, htn⟩ |
      ⟨credentials, -, ⟨rfl, rfl⟩ | ⟨hge, -⟩⟩
    · have hd := hkept s ht htn
      exact ⟨hd, Or.inl ⟨hi.lt_nextId ht, s, ht, htn, hd, rfl, rfl, rfl⟩⟩
    · have hd := hkept first hsp.slot hsp.name_eq
      exact ⟨hd, Or.inl ⟨hi.lt_nextId hsp.slot, first, hsp.slot, hsp.name_eq, hd, rfl, rfl, rfl⟩⟩
    · obtain ⟨hr, hd, hfree⟩ := hnew id s hge hs
      exact ⟨hd, Or.inr ⟨hge, hr, hfree⟩⟩
  · obtain ⟨s, hs, hsi⟩ := hback i s' hs'
    obtain ⟨t, ht, hti⟩ := hback j t' ht'
    exact hfresh i j s t hi' hj' hs ht (hsi.symm.trans (he.trans hti))
  · rw [hsheep, if_neg hid] at hs'
    obtain ⟨t, -, -, hd⟩ := h.leaving id s' hs' hn (by simpa using hid)
    exact hd
  · rw [hsheep, if_pos hid, Option.isSome_map]
    exact h.there id hid
  · rw [hreloads, h.reloads]
    exact hsp.idle

/-- **A scale granted without a shortfall** keeps the first instances of
the app and enters what is missing. -/
theorem handleScale_resizes (hi : Inv .none a) {scaled : Scaled}
    (hok : a.handleScale w name n = (.ok scaled, a')) (hshort : scaled.shortfall = none) :
    ∃ kept, Resized a name n kept a' ∧
      (∀ id, id ∈ scaled.instances.map ProcessInfo.id ↔ id ∈ kept) ∧
      a'.reloads[name]? = none := by
  rcases handleScale_cases w name n a with ⟨err, herr⟩ | ⟨firstId, first, rescaled, hpos, hsp, he⟩
  · rw [herr] at hok
    cases (Prod.mk.inj hok).1
  · rw [he] at hok
    -- nothing past the counter is registered before a spawn
    have hnothing : ∀ (id : ℕ) (s : SheepSlot), a.nextId ≤ id → a.sheep[id]? = some s → False := by
      intro id s hge hs
      have := hi.lt_nextId hs
      omega
    unfold rescale at hok
    dsimp only at hok
    split at hok
    · next hlt =>
      split at hok
      · cases (Prod.mk.inj hok).1
      · split at hok
        · cases (Prod.mk.inj hok).1
        · next credentials hcred =>
          have hown : ∀ id ∈ (a.slotsOfName name).map Prod.snd, id < a.nextId :=
            fun id hid => (slotsOfName_own hi id hid).1
          have hreg : ∀ j s, (a.setSlot firstId (first.identified credentials)).sheep[j]? = some s →
              j < a.nextId := by
            intro j s hs
            simp only [setSlot, get_insert] at hs
            split at hs
            · next e =>
              rw [e]
              exact hi.lt_nextId hsp.slot
            · exact hi.lt_nextId hs
          have hfree := instanceSlots_free ((a.slotsOfName name).map Prod.fst)
            (n - (a.slotsOfName name).length)
          have hlen : (instanceSlots ((a.slotsOfName name).map Prod.fst)
              (n - (a.slotsOfName name).length)).length = n - (a.slotsOfName name).length := by
            rw [instanceSlots, length_instanceSlotsFrom]
          have hg := scaleUp_grows (w := w) (a := a.setSlot firstId (first.identified credentials))
            rescaled credentials (instanceSlots ((a.slotsOfName name).map Prod.fst)
              (n - (a.slotsOfName name).length)) ((a.slotsOfName name).map Prod.snd) hown hreg
          have hwhole := scaleUp_whole (w := w)
            (a := a.setSlot firstId (first.identified credentials)) rescaled credentials
            (instanceSlots ((a.slotsOfName name).map Prod.fst) (n - (a.slotsOfName name).length))
            ((a.slotsOfName name).map Prod.snd) hown hreg
          rw [hlen] at hg hwhole
          generalize scaleUp w rescaled credentials (instanceSlots ((a.slotsOfName name).map Prod.fst)
            (n - (a.slotsOfName name).length)) ((a.slotsOfName name).map Prod.snd)
            (a.setSlot firstId (first.identified credentials)) = r at hok hg hwhole
          obtain ⟨survivors, failed, b⟩ := r
          dsimp only at hok hg hwhole
          obtain rfl : failed = none := by
            have hs := (storeScaled_shortfall hok).symm.trans hshort
            simpa using hs
          obtain ⟨hcount, hrows⟩ := hwhole rfl
          rw [List.length_map] at hcount
          have htake : (a.idsOfName name).take n = (a.slotsOfName name).map Prod.snd := by
            refine List.take_of_length_le ?_
            rw [idsOfName, List.length_map]
            omega
          refine ⟨survivors, (hsp.readied_up hi hlt hcred hg).resized hsp hi (by omega)
            (fun id hid => ?_) (fun id s hge hs => ?_) (fun i j s t hi' hj' hs ht he => ?_) hok⟩
          · rw [htake]
            refine ⟨fun hin => ?_, fun hin => hg.ids_sublist hin⟩
            rcases hg.later id (by simpa using hin) with hin | hge
            · exact hin
            · exact absurd hid (Nat.not_lt.2 hge)
          · obtain ⟨k, -, hk, hr, hd⟩ := hrows id s hge hs
            exact ⟨hr, hd, hfree.2 _ (List.mem_of_getElem? hk)⟩
          · obtain ⟨k, rfl, hk, -⟩ := hrows i s hi' hs
            obtain ⟨l, rfl, hl, -⟩ := hrows j t hj' ht
            rw [← he] at hl
            have hkl := (List.getElem?_inj (List.getElem?_eq_some_iff.1 hk).1 hfree.1).1
              (hk.trans hl.symm)
            rw [hkl]
    · next hnlt =>
      split at hok
      · next hless =>
        have hnd : ((a.slotsOfName name).map Prod.snd).Nodup := nodup_idsOfName name
        have hsheep := beginManualIds_sheep (w := w) (show ManualKind.delete ≠ .restart by simp)
          (hnd.sublist (List.drop_sublist n _)) .ids a
        have hgone : ∀ (id : ℕ) (s : SheepSlot), a.nextId ≤ id → (a.beginManualIds w
            (((a.slotsOfName name).map Prod.snd).drop n) .delete .operator .ids).sheep[id]? = some s →
            False := by
          intro id s hge hs
          have hnone : a.sheep[id]? = none := by
            cases ht : a.sheep[id]? with
            | none => rfl
            | some t => exact (hnothing id t hge ht).elim
          rw [hsheep, hnone] at hs
          split at hs <;> cases hs
        refine ⟨_, (hsp.readied_down hi hpos).resized hsp hi ?_ (fun id _ => Iff.rfl)
          (fun id s hge hs => (hgone id s hge hs).elim)
          (fun i j s t hge _ hs => (hgone i s hge hs).elim) hok⟩
        rw [List.length_take, List.length_map]
        omega
      · next hnless =>
        have hcount : n = (a.slotsOfName name).length := by omega
        have htake : (a.idsOfName name).take n = (a.slotsOfName name).map Prod.snd := by
          refine List.take_of_length_le ?_
          rw [idsOfName, List.length_map]
          omega
        refine ⟨_, (hsp.readied_same hi hcount).resized hsp hi (by rw [List.length_map, hcount])
          (fun id _ => by rw [htake]) (fun id s hge hs => (hnothing id s hge hs).elim)
          (fun i j s t hge _ hs => (hnothing i s hge hs).elim) hok⟩

theorem handleScale_inv (hi : Inv .none a) (w : World) (name : String) (n : ℕ) :
    Inv .none (a.handleScale w name n).2 := by
  have hm := handleScale_moves (c := ⟨a, w, .command (.scale name n)⟩) hi name n
    (show _ = _ from rfl) (show _ = _ from rfl) le_rfl fun hd hup => ⟨hd, name, n, rfl, hup⟩
  exact hm.inv hi

end Actor

/-! ## The results -/

/-- **A scale is exact unless it keeps a drainee.** In every reachable state
a refused scale changes nothing. One granted without a shortfall has every
instance it does not keep waiting for its exit to be deleted, and once the
instances on their way out have exited the app runs `n` instances, each
under its own number: exactly if none of those it keeps was draining. -/
theorem scale_exact {dogBinaries : List (String × String)} {h : List (Actor × World × Msg)}
    {a : Actor} (hr : Run Actor.Step (.init dogBinaries) h a) (w : World) (name : String) (n : ℕ) :
    (∀ err a', a.handleScale w name n = (.error err, a') → a' = a) ∧
    ∀ scaled a', a.handleScale w name n = (.ok scaled, a') → scaled.shortfall = none →
      (((∀ b, Actor.Parted name a' b → Actor.Counts name n b) ∧
        ∀ (id : ℕ) (s : SheepSlot), a'.sheep[id]? = some s → s.name = name →
          id ∉ scaled.instances.map ProcessInfo.id → s.pendingDelete = true) ↔
      a.KeepsNoDrainee name n) := by
  have hi := Actor.reachable_inv hr
  refine ⟨fun err a' he => ?_, fun scaled a' hok hshort => ?_⟩
  · rcases Actor.handleScale_spec (w := w) hi name n with ⟨err', he'⟩ | ⟨scaled, a₁, _, _, _, he', -⟩
    · exact (Prod.mk.inj (he.symm.trans he')).2
    · cases (Prod.mk.inj (he.symm.trans he')).1
  · obtain ⟨kept, hkept, hrows, hidle⟩ := Actor.handleScale_resizes hi hok hshort
    have hi' : Inv .none a' := by
      have hinv := Actor.handleScale_inv hi w name n
      rw [hok] at hinv
      exact hinv
    rw [hkept.counts_iff hi' hidle (Actor.reachable_identifies hr), and_iff_left]
    intro id s hs hname hid
    exact hkept.leaving id s hs hname fun hin => hid ((hrows id).2 hin)

/-- A swap was given up after its commit, and its drainee has not exited. -/
def abandoned : List (World × Msg) :=
  overlapping ++ [(plain, .reloadDeadline ⟨"web", 0⟩)]

/-- The state the scale to one leaves, and what is left of it once the
instance that replaced the drainee has exited, and the drainee after it. -/
def cutDown : Actor := (((Actor.init []).play abandoned).handleScale plain "web" 1).2

def cutDownOnce : Actor :=
  cutDown.turn plain (.exited (life 1 1 probed .replacement) ⟨some 0, none⟩ false)

def cutDownTwice : Actor :=
  cutDownOnce.turn plain (.exited (life 0 0 probed .fresh) ⟨some 0, none⟩ false)

theorem Actor.going_of_any
    (h : (a.sheep[id]?).any (fun s => s.name == name && s.ctl.isSome &&
      (s.pendingDelete || s.entry.reload == .drainee (some 1))) = true) : a.Going name id := by
  cases hs : a.sheep[id]? with
  | none => simp [hs] at h
  | some s =>
    simp only [hs, Option.any_some, Bool.and_eq_true, beq_iff_eq, Bool.or_eq_true] at h
    exact ⟨s, hs, h.1.1, h.2.symm.imp_left fun hq => ⟨some 1, hq⟩, h.1.2⟩

/-- The scale to one keeps the drainee and deletes what replaced it: the app
ends with no instance at all. -/
theorem scale_keeps_drainee :
    ∃ (h : List (Actor × World × Msg)) (a a' b : Actor) (scaled : Scaled),
      Run Actor.Step (.init []) h a ∧ a.handleScale plain "web" 1 = (.ok scaled, a') ∧
      scaled.shortfall = none ∧ Actor.Parted "web" a' b ∧ (b.idsOfName "web").length = 0 := by
  have hplay : (Actor.init []).Playable abandoned := by decide +kernel
  have hgranted : ((((Actor.init []).play abandoned).handleScale plain "web" 1).1.toOption.map
      Scaled.shortfall) = some none := by decide +kernel
  obtain ⟨scaled, hok, hshort⟩ : ∃ scaled, ((Actor.init []).play abandoned).handleScale plain
      "web" 1 = (.ok scaled, cutDown) ∧ scaled.shortfall = none := by
    cases hscaled : (((Actor.init []).play abandoned).handleScale plain "web" 1).1 with
    | error err => simp [hscaled, Except.toOption] at hgranted
    | ok scaled =>
      refine ⟨scaled, Prod.ext hscaled rfl, ?_⟩
      simpa [hscaled, Except.toOption] using hgranted
  have hempty : cutDownTwice.sheep.toList = [] := by decide +kernel
  refine ⟨_, _, cutDown, cutDownTwice, scaled, hplay.run, hok, hshort, ⟨?exits, ?nobody⟩, ?none⟩
  case exits =>
    have hfirst : Actor.Part "web" cutDown cutDownOnce :=
      ⟨plain, life 1 1 probed .replacement, _, _, by decide +kernel,
        Actor.going_of_any (by decide +kernel), rfl⟩
    have hsecond : Actor.Part "web" cutDownOnce cutDownTwice :=
      ⟨plain, life 0 0 probed .fresh, _, _, by decide +kernel,
        Actor.going_of_any (by decide +kernel), rfl⟩
    exact .tail (.single hfirst) hsecond
  case nobody =>
    rintro id ⟨s, hs, -⟩
    rw [← mem_toList, hempty] at hs
    cases hs
  case none => decide +kernel

/-- With no drainee about, a scale to three comes to three. -/
theorem scale_exact_started : ∃ scaled a',
    ((Actor.init []).play (overlapping.take 2)).handleScale plain "web" 3 = (.ok scaled, a') ∧
      ∀ b, Actor.Parted "web" a' b → Actor.Counts "web" 3 b := by
  have hplay : (Actor.init []).Playable (overlapping.take 2) := by decide +kernel
  have hresult := (scale_exact hplay.run plain "web" 3).2
  have hgranted : (((Actor.init []).play (overlapping.take 2)).handleScale plain "web"
      3).1.toOption.map Scaled.shortfall = some none := by decide +kernel
  generalize hr : ((Actor.init []).play (overlapping.take 2)).handleScale plain "web" 3 = r
    at hresult hgranted
  obtain ⟨answer, a'⟩ := r
  cases answer with
  | error err => simp [Except.toOption] at hgranted
  | ok scaled =>
    have hshort : scaled.shortfall = none := by simpa [Except.toOption] using hgranted
    refine ⟨scaled, a', rfl, ((hresult scaled a' rfl hshort).2 ?_).1⟩
    intro id hid s q hs hq
    have hnone : ((Actor.init []).play (overlapping.take 2)).sheep.toList.all
        (fun e => e.2.entry.reload == .none) = true := by decide +kernel
    have hmark := List.all_eq_true.1 hnone (id, s) (mem_toList.2 hs)
    rw [hq] at hmark
    cases hmark

end Supervisor

end Shep

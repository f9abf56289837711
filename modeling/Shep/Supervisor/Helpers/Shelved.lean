import Shep.Supervisor.Helpers.Asked
import Shep.Supervisor.Helpers.Settled

/-!
# Supervisor — after a disable

`Shelved` is what a disable leaves behind and every later move keeps: the
instances there were then are stopped, or still running under an
operator's claim that does not restart them, and the app stays marked for
as long as one of them is registered.
-/

namespace Shep

namespace Supervisor

/-- Claimed by an operator, and not to be restarted. -/
def SheepSlot.Condemned (s : SheepSlot) : Prop :=
  ∃ k, s.manual = some ⟨k, .operator⟩ ∧ k ≠ .restart

/-- Stopped, or about to be. -/
structure SheepSlot.Downed (s : SheepSlot) : Prop where
  idle : s.ctl = none → s.entry.status = .stopped
  live : s.ctl.isSome = true → s.Condemned

/-- The instances of `n` under the ids below `bound` are down, and `n` is
marked while there is one. -/
structure Shelved (n : String) (bound : ℕ) (x : Hole) (sheep : Std.ExtTreeMap ℕ SheepSlot)
    (disabled : List String) : Prop where
  marked : ∀ (id : ℕ) (s : SheepSlot), id < bound → sheep[id]? = some s → s.name = n → n ∈ disabled
  down : ∀ (id : ℕ) (s : SheepSlot), id < bound → sheep[id]? = some s → s.name = n →
    x.Spares id → s.Downed
  taken : ∀ (id : ℕ) (t s : SheepSlot), x = .exiting id t → id < bound → sheep[id]? = some s →
    s.name = n → t.Condemned

namespace SheepSlot

variable {s s' : SheepSlot}

theorem Condemned.congr (h : s.Condemned) (hm : s'.manual = s.manual) : s'.Condemned := by
  obtain ⟨k, hk, hne⟩ := h
  exact ⟨k, hm.trans hk, hne⟩

theorem Condemned.manual_isSome (h : s.Condemned) : s.manual.isSome = true := by
  obtain ⟨k, hk, -⟩ := h
  simp [hk]

theorem Downed.congr (h : s.Downed) (hctl : s'.ctl = s.ctl)
    (hstatus : s.ctl = none → s'.entry.status = s.entry.status)
    (hmanual : s.ctl.isSome = true → s'.manual = s.manual) : s'.Downed where
  idle hc := by
    rw [hctl] at hc
    exact (hstatus hc).trans (h.idle hc)
  live hc := by
    rw [hctl] at hc
    exact (h.live hc).congr (hmanual hc)

end SheepSlot

namespace Shelved

variable {n : String} {bound : ℕ} {x : Hole} {sheep : Std.ExtTreeMap ℕ SheepSlot}
variable {disabled : List String} {id : ℕ} {s s' : SheepSlot} {f : SheepSlot → SheepSlot}

/-- A slot rewritten under its own name. -/
theorem insert (h : Shelved n bound x sheep disabled) (hs : sheep[id]? = some s)
    (hname : s'.name = s.name)
    (hdown : id < bound → s.name = n → n ∈ disabled → x.Spares id → s.Downed → s'.Downed) :
    Shelved n bound x (sheep.insert id s') disabled where
  marked := by
    intro j t hj ht htn
    rcases Table.of_insert ht with ⟨e, rfl⟩ | ⟨-, ht⟩
    · exact h.marked id s (e ▸ hj) hs (hname ▸ htn)
    · exact h.marked j t hj ht htn
  down := by
    intro j t hj ht htn hx
    rcases Table.of_insert ht with ⟨e, rfl⟩ | ⟨-, ht⟩
    · subst e
      have hsn : s.name = n := hname ▸ htn
      exact hdown hj hsn (h.marked j s hj hs hsn) hx (h.down j s hj hs hsn hx)
    · exact h.down j t hj ht htn hx
  taken := by
    intro j t u hx hj hu hun
    rcases Table.of_insert hu with ⟨e, rfl⟩ | ⟨-, hu⟩
    · exact h.taken j t s hx hj (e ▸ hs) (hname ▸ hun)
    · exact h.taken j t u hx hj hu hun

theorem enter (h : Shelved n bound x sheep disabled) (hid : bound ≤ id) :
    Shelved n bound x (sheep.insert id s') disabled := by
  have hget : ∀ j, j < bound → (sheep.insert id s')[j]? = sheep[j]? := by
    intro j hj
    rw [Table.get_insert, if_neg (by omega)]
  exact ⟨fun j t hj ht => h.marked j t hj (hget j hj ▸ ht),
    fun j t hj ht => h.down j t hj (hget j hj ▸ ht),
    fun j t u hx hj hu => h.taken j t u hx hj (hget j hj ▸ hu)⟩

theorem erase (h : Shelved n bound x sheep disabled) :
    Shelved n bound x (sheep.erase id) disabled := by
  have hget : ∀ (j : ℕ) (t : SheepSlot), (sheep.erase id)[j]? = some t → sheep[j]? = some t :=
    fun _ _ ht => (Table.of_erase ht).2
  exact ⟨fun j t hj ht => h.marked j t hj (hget j t ht), fun j t hj ht => h.down j t hj (hget j t ht),
    fun j t u hx hj hu => h.taken j t u hx hj (hget j u hu)⟩

theorem map (h : Shelved n bound x sheep disabled)
    (hname : ∀ (id : ℕ) (s : SheepSlot), sheep[id]? = some s → (f s).name = s.name)
    (hdown : ∀ (id : ℕ) (s : SheepSlot), sheep[id]? = some s → s.name = n → s.Downed →
      (f s).Downed) : Shelved n bound x (sheep.map fun _ s => f s) disabled where
  marked := by
    intro j t hj ht htn
    rw [Table.get_map, Option.map_eq_some_iff] at ht
    obtain ⟨s, hs, rfl⟩ := ht
    exact h.marked j s hj hs (hname j s hs ▸ htn)
  down := by
    intro j t hj ht htn hx
    rw [Table.get_map, Option.map_eq_some_iff] at ht
    obtain ⟨s, hs, rfl⟩ := ht
    have hsn : s.name = n := hname j s hs ▸ htn
    exact hdown j s hs hsn (h.down j s hj hs hsn hx)
  taken := by
    intro j t u hx hj hu hun
    rw [Table.get_map, Option.map_eq_some_iff] at hu
    obtain ⟨s, hs, rfl⟩ := hu
    exact h.taken j t s hx hj hs (hname j s hs ▸ hun)

theorem remarked {disabled' : List String} (h : Shelved n bound x sheep disabled)
    (hd : n ∈ disabled → n ∈ disabled') : Shelved n bound x sheep disabled' :=
  ⟨fun id s hid hs hn => hd (h.marked id s hid hs hn), h.down, h.taken⟩

theorem hole {y : Hole} (h : Shelved n bound x sheep disabled) (hx : ∀ id, x.Spares id)
    (hy : ∀ id, y.Spares id) : Shelved n bound y sheep disabled :=
  ⟨h.marked, fun id s hid hs hn _ => h.down id s hid hs hn (hx id),
    fun id t _ he => absurd he (hy id t)⟩

/-- No instance of a shelved app is being respawned, or has been refused
one. -/
theorem not_mayFail {c : Turn} {a : Actor} (h : Shelved n bound x a.sheep a.disabled)
    (hs : a.sheep[id]? = some s) (hid : id < bound) (hn : s.name = n) (hx : x.Spares id) :
    ¬ c.MayFail x a id s := by
  rintro (⟨hen, -⟩ | ⟨taken, he, -⟩)
  · exact hen (hn ▸ h.marked id s hid hs hn)
  · exact hx taken he

end Shelved

/-- **A move keeps an app shelved**, in a turn that does not enable it and
whose probe does not time out for a replacement with no process. -/
theorem Move.shelved {c : Turn} {p q : Point} {n : String} {bound : ℕ} (hm : Move c p q)
    (hc : ¬ c.DemotesDead) (hen : ¬ c.Enables n) (hset : Settled p.hole p.actor.sheep p.actor.reloads)
    (hb : bound ≤ p.actor.nextId) (h : Shelved n bound p.hole p.actor.sheep p.actor.disabled) :
    bound ≤ q.actor.nextId ∧ Shelved n bound q.hole q.actor.sheep q.actor.disabled := by
  cases hm with
  | quiet | hear | drains | answer | park | halt | expire | commit | verify | drop | shutdown |
    unwatch | panic | assertFail => exact ⟨hb, h⟩
  | bump m hm => exact ⟨hb.trans hm, h⟩
  | edit s' hs hag =>
    exact ⟨hb, h.insert hs hag.name fun _ _ _ _ hd =>
      hd.congr hag.ctl (fun _ => hag.status) fun _ => hag.manual⟩
  | editAll f hf =>
    exact ⟨hb, h.map (fun id s hs => (hf id s hs).name) fun id s hs _ hd =>
      hd.congr (hf id s hs).ctl (fun _ => (hf id s hs).status) fun _ => (hf id s hs).manual⟩
  | rest hs hctl hrest hwhy =>
    refine ⟨hb, h.insert hs hrest.name fun hid hn _ hx _ => ⟨fun _ => ?_, by simp [hrest.ctl]⟩⟩
    rcases hwhy with rfl | ⟨-, hfail⟩
    · exact hrest.status
    · exact absurd hfail (h.not_mayFail hs hid hn hx)
  | backOff delay hs hctl hrest hfail _ =>
    exact ⟨hb, h.insert hs hrest.name fun hid hn _ hx _ =>
      absurd hfail (h.not_mayFail hs hid hn hx)⟩
  | register | launch => exact ⟨hb.trans (Nat.le_succ _), h.enter hb⟩
  | reseat hs _ _ _ hname _ _ hen' _ _ | reseatLive hs _ _ _ hname _ _ hen' _ _ =>
    exact ⟨hb, h.insert hs hname fun _ hn => absurd (hn ▸ hen') hen⟩
  | relaunch hs _ hre hdis _ _ =>
    exact ⟨hb, h.insert hs hre.name fun _ hn hmark => absurd (hn ▸ hmark) hdis⟩
  | @claim x a id s m cap hs hman _ _ _ =>
    refine ⟨hb, h.insert hs rfl fun _ _ _ _ hd => ⟨hd.idle, fun hlive => ?_⟩⟩
    have hsome := (hd.live hlive).manual_isSome
    simp [hman] at hsome
  | @displace x a id s held m cap hs hman hauto _ _ _ =>
    refine ⟨hb, h.insert hs rfl fun _ _ _ _ hd => ⟨hd.idle, fun hlive => ?_⟩⟩
    obtain ⟨k, hk, -⟩ := hd.live hlive
    rw [hman] at hk
    simp [Option.some.inj hk] at hauto
  | doom hs _ _ | unmark hs _ | lapse _ _ hs | parkFailed hs _ =>
    exact ⟨hb, h.insert hs rfl fun _ _ _ _ hd => hd.congr rfl (fun _ => rfl) fun _ => rfl⟩
  | remarkStop names _ =>
    refine ⟨hb, h.map (fun id s _ => by split <;> rfl) fun id s _ _ hd => ?_⟩
    split
    · exact ⟨hd.idle, fun _ => ⟨.stop, rfl, by simp⟩⟩
    · exact hd
  | remarkRestart names hnames _ =>
    refine ⟨hb, h.map (fun id s _ => by split <;> rfl) fun id s _ hn hd => ?_⟩
    split
    · next hboth =>
      -- an enable turns the markers of its own apps only
      have hmem : s.name ∈ names := by simpa using (Bool.and_eq_true_iff.1 hboth).2
      exact absurd (hn ▸ (hnames _ hmem).2) hen
    · exact hd
  | disable names => exact ⟨hb, h.remarked fun hn => by simp [hn]⟩
  | enable names hnames _ =>
    refine ⟨hb, h.remarked fun hn => List.mem_filter.2 ⟨hn, ?_⟩⟩
    have hnot : n ∉ names := fun hmem => hen (hnames n hmem)
    simpa using hnot
  | deregister => exact ⟨hb, h.erase⟩
  | @exit a s task outcome _ _ _ hs hctl =>
    refine ⟨hb, ?_, ?_, ?_⟩
    · intro j t hj ht hn
      rcases Table.of_insert ht with ⟨e, rfl⟩ | ⟨-, ht⟩
      · exact h.marked task.id s (e ▸ hj) hs hn
      · exact h.marked j t hj ht hn
    · intro j t hj ht hn hx
      rw [Table.get_insert, if_neg] at ht
      · exact h.down j t hj ht hn (Hole.none_spares j)
      · rintro rfl
        exact hx s rfl
    · rintro j t u he hj hu hn
      obtain ⟨rfl, rfl⟩ := Hole.exiting.inj he
      rw [Table.get_insert, if_pos rfl] at hu
      obtain rfl := Option.some.inj hu
      exact (h.down _ s hj hs hn (Hole.none_spares _)).live (by simp [hctl])
  | @resolve a id taken info hsettles _ =>
    rw [Actor.resolvePending_eq]
    refine ⟨hb, h.marked, fun j s hj hs hn _ => ?_, by simp⟩
    by_cases e : j = id
    · -- an exit an operator's stop owned leaves a stopped slot
      subst e
      obtain ⟨k, hk, hne⟩ := h.taken j taken s rfl hj hs hn
      obtain ⟨hctl, hst⟩ := (hsettles.2 s hs).2.2 k _ hk hne
      exact ⟨fun _ => hst, by simp [hctl]⟩
    · exact h.down j s hj hs hn fun t he => e (Hole.exiting.inj he).1.symm
  | fire => exact ⟨hb, h.hole Hole.none_spares fun id => Hole.due_spares id _⟩
  | honour => exact ⟨hb, h.hole (fun id => Hole.due_spares id _) Hole.none_spares⟩
  | @beginOverlap a m oldId pid s s' queue credentials hs hname _ hdis _ _ _ _ _ _ _ _
  | @serialSpawn a m oldId pid s s' taken job credentials hs hname _ _ _ _ hdis _ =>
    subst hname
    refine ⟨hb.trans (Nat.le_succ _), Shelved.enter (h.insert hs rfl ?_) hb⟩
    exact fun _ hn hmark => absurd (hn ▸ hmark) hdis
  | @putBack a oldId s hs hrep _ | @beginSerial a m oldId s queue hs _ hrep _ _ _ _ _ _ _ =>
    refine ⟨hb, h.insert hs rfl fun _ _ _ hx hd => ?_⟩
    have hsome := (hd.live (hset.live_of_replaceable hs hx hrep)).manual_isSome
    simp only [Actor.replaceable, Bool.and_eq_true] at hrep
    simp [Option.isNone_iff_eq_none.1 hrep.2] at hsome
  | scratch hs _ _ _ =>
    exact ⟨hb, h.insert hs rfl fun _ _ _ hx => absurd rfl (hx _)⟩
  | @restore x a m job s _ _ hs _ =>
    refine ⟨hb, h.insert hs s.restore_name fun _ _ _ _ hd => ?_⟩
    simp only [SheepSlot.restore]
    split
    · next hfree =>
      -- a claimed drainee is not given back
      rw [Bool.and_eq_true] at hfree
      have hsome := (hd.live hfree.1).manual_isSome
      have hnone : s.manual = none := Option.isNone_iff_eq_none.1 hfree.2
      simp [hnone] at hsome
    · exact hd.congr rfl (fun _ => rfl) fun _ => rfl
  | @online a id s hs hstart _ _ =>
    refine ⟨hb, h.insert hs rfl fun _ _ _ _ hd => ?_⟩
    refine ⟨fun hctl => ?_, fun hlive => (hd.live hlive).congr rfl⟩
    have hstop := hd.idle hctl
    simp [hstart] at hstop
  | demote hs hdead _ _ =>
    refine ⟨hb, h.insert hs rfl fun _ _ _ _ hd => ?_⟩
    exact ⟨fun hctl => absurd (hdead hctl) hc, fun hlive => (hd.live hlive).congr rfl⟩

/-! ## What a disable leaves -/

/-- Nothing on this slot says restart: a stop puts it down. -/
structure SheepSlot.Ripe (s : SheepSlot) : Prop where
  idle : s.ctl = none → s.entry.status.Rests
  live : s.ctl.isSome = true → s.manual = none ∨ s.Condemned

/-- A slot with the same process, status, claim and app. -/
structure SheepSlot.Matches (s s' : SheepSlot) : Prop where
  name : s'.name = s.name
  ctl : s'.ctl = s.ctl
  status : s'.entry.status = s.entry.status
  manual : s'.manual = s.manual

namespace SheepSlot

variable {s s' : SheepSlot}

theorem Ripe.congr (h : s.Ripe) (hm : s.Matches s') : s'.Ripe where
  idle hc := by
    rw [hm.status]
    exact h.idle (hm.ctl ▸ hc)
  live hc := by
    rw [hm.ctl] at hc
    exact (h.live hc).imp (hm.manual.trans ·) (Condemned.congr · hm.manual)

/-- A ripe slot is put down by a stop. -/
theorem Ripe.asked (h : s.Ripe) (hs' : s.askedTo .stop = some s') :
    s'.Downed := by
  cases hc : s.ctl with
  | some t =>
    rw [askedTo_live (by simp [hc])] at hs'
    obtain rfl := Option.some.inj hs'
    refine ⟨fun hnone => ?_, fun _ => ?_⟩
    · simp [hc] at hnone
    · rcases h.live (by simp [hc]) with hm | ⟨k, hm, hk⟩
      · exact ⟨.stop, by simp [ownerFor, hm], by simp⟩
      · exact ⟨k, by simp [ownerFor, hm], hk⟩
  | none =>
    have hrest := h.idle hc
    simp only [askedTo, hc, Option.isSome_none, Bool.false_eq_true, if_false, reduceCtorEq] at hs'
    split at hs'
    · obtain rfl := Option.some.inj hs'
      exact ⟨fun _ => rfl, by simp [setStatus, hc]⟩
    · next hnot =>
      obtain rfl := Option.some.inj hs'
      refine ⟨fun _ => ?_, by simp [hc]⟩
      exact hrest.resolve_right fun hst => hnot hst.symm

theorem WellFormed.ripe (h : s.WellFormed) (hidle : s.ctl = none → s.entry.status.Rests)
    (hno : ∀ o, s.manual ≠ some ⟨.restart, o⟩) : s.Ripe where
  idle := hidle
  live _ := by
    cases hm : s.manual with
    | none => exact Or.inl rfl
    | some held =>
      obtain ⟨k, o⟩ := held
      cases o with
      | automatic => exact absurd (h.automatic k hm ▸ hm) (hno _)
      | operator => exact Or.inr ⟨k, hm, fun hk => hno _ (hk ▸ hm)⟩

end SheepSlot

namespace Actor

variable {w : World} {a : Actor} {n : String} {names : List String}

theorem abandonSerialDrain_matches (m : String) {j : ℕ} {s' : SheepSlot}
    (hs' : (a.abandonSerialDrain m).sheep[j]? = some s') :
    ∃ s, a.sheep[j]? = some s ∧ s.Matches s' := by
  have hself : a.sheep[j]? = some s' → ∃ s, a.sheep[j]? = some s ∧ s.Matches s' :=
    fun h => ⟨s', h, rfl, rfl, rfl, rfl⟩
  unfold abandonSerialDrain at hs'
  split at hs'
  · exact hself hs'
  · next job _ =>
    split at hs'
    · unfold clearReload modifySlot at hs'
      split at hs'
      · next s hs =>
        simp only [setSlot, Table.get_insert] at hs'
        split at hs'
        · next e =>
          obtain rfl := Option.some.inj hs'
          exact ⟨s, e ▸ hs, rfl, rfl, rfl, rfl⟩
        · exact hself hs'
      · exact hself hs'
    · exact hself hs'

theorem abandonSerialDrains_matches (ms : List String) {j : ℕ} {s' : SheepSlot}
    (hs' : (ms.foldl abandonSerialDrain a).sheep[j]? = some s') :
    ∃ s, a.sheep[j]? = some s ∧ s.Matches s' := by
  induction ms generalizing a with
  | nil => exact ⟨s', hs', rfl, rfl, rfl, rfl⟩
  | cons m ms ih =>
    obtain ⟨t, ht, htm⟩ := ih hs'
    obtain ⟨s, hs, hsm⟩ := abandonSerialDrain_matches m ht
    exact ⟨s, hs, htm.name.trans hsm.name, htm.ctl.trans hsm.ctl, htm.status.trans hsm.status,
      htm.manual.trans hsm.manual⟩

/-- Past the turned markers and the abandoned drains, every slot of a
disabled app is ripe. -/
theorem disabling_ripe (h : Inv .none a) (hset : Settled .none a.sheep a.reloads)
    (hn : n ∈ names) {j : ℕ} {s' : SheepSlot}
    (hs' : (names.foldl abandonSerialDrain (a.remark names .restart .stop)).sheep[j]? = some s')
    (hname : s'.name = n) : s'.Ripe ∧ j ∈ a.idsOfApps names := by
  obtain ⟨t, ht, hm⟩ := abandonSerialDrains_matches names hs'
  have htn : t.name = n := hm.name.symm.trans hname
  unfold remark mapSlots at ht
  rw [Table.get_map, Option.map_eq_some_iff] at ht
  obtain ⟨s, hs, rfl⟩ := ht
  have hsn : s.name = n := by
    rw [← htn]
    split <;> rfl
  have hmem : j ∈ a.idsOfApps names := mem_idsWhere.2 ⟨s, hs, by simpa [hsn] using hn⟩
  have hrest : s.ctl = none → s.entry.status.Rests := fun hc =>
    (hset.idle j s hs hc).status (Hole.none_spares j)
  refine ⟨SheepSlot.Ripe.congr ?_ hm, hmem⟩
  split
  · exact ⟨hrest, fun _ => Or.inr ⟨.stop, rfl, by simp⟩⟩
  · next hnot =>
    refine (h.wellFormed hs).ripe hrest fun o ho => hnot ?_
    simpa [ho, hsn] using hn

/-- **A disable shelves its apps.** -/
theorem disableApps_shelved (h : Inv .none a) (hset : Settled .none a.sheep a.reloads)
    (hn : n ∈ names) (reply : ReplyKind) (bound : ℕ) :
    Shelved n bound .none (a.disableApps w names reply).sheep
      (a.disableApps w names reply).disabled := by
  have hdown : ∀ (j : ℕ) (s : SheepSlot), (a.disableApps w names reply).sheep[j]? = some s →
      s.name = n → s.Downed := by
    intro j s hs hname
    unfold disableApps at hs
    dsimp only at hs
    rw [beginManualIds_sheep (by simp) (nodup_idsOfApps names)] at hs
    split at hs
    · obtain ⟨t, ht, hask⟩ := Option.bind_eq_some_iff.1 hs
      by_cases htn : t.name = n
      · exact (disabling_ripe h hset hn ht htn).1.asked hask
      · exact absurd (SheepSlot.askedTo_name hask ▸ hname) htn
    · next hnot => exact absurd (disabling_ripe h hset hn hs hname).2 hnot
  refine ⟨fun _ _ _ _ _ => ?_, fun j s _ hs hname _ => hdown j s hs hname, by simp⟩
  unfold disableApps
  dsimp only
  rw [(beginManualIds_frame _ reply _).1]
  simp [hn]

end Actor

end Supervisor

end Shep

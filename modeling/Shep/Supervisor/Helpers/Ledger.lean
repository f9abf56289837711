import Shep.Supervisor.Helpers.Down

/-!
# Supervisor — parked replies and the lives they wait for

`Ledger` keeps the books on deferred replies: a parked reply is open while
one of the lives it was parked on goes on, and closed, answered once, when
the last of them has ended. Lives are told apart by their task, so a sheep
respawned inside the handling of its own exit has still ended.
-/

namespace Shep

namespace Supervisor

/-! ## Traces that say nothing new -/

/-- `t'` tells of the same exits, answers and parked replies as `t`. -/
structure Hushed (t t' : List Effect) : Prop where
  exits : ∀ k, t'.any (Effect.ends k) = t.any (Effect.ends k)
  replies : ∀ tag, t'.countP (Effect.answers tag) = t.countP (Effect.answers tag)
  parks : ∀ tag tasks, .parked tag tasks ∈ t' → .parked tag tasks ∈ t

namespace Hushed

theorem refl (t : List Effect) : Hushed t t := ⟨fun _ => rfl, fun _ => rfl, fun _ _ h => h⟩

theorem cons {t t' : List Effect} {e : Effect} (h : Hushed t t') (hend : ∀ k, e.ends k = false)
    (hans : ∀ tag, e.answers tag = false) (hpark : ∀ tag tasks, .parked tag tasks ≠ e) :
    Hushed t (e :: t') where
  exits k := by rw [List.any_cons, hend k, Bool.false_or, h.exits]
  replies tag := by rw [List.countP_cons_of_neg (by simp [hans tag]), h.replies]
  parks tag tasks hm := h.parks tag tasks ((List.mem_cons.1 hm).resolve_left (hpark tag tasks))

end Hushed

/-! ## The books -/

/-- A parked reply still waits for one of its lives, and for nothing else. -/
structure Unanswered (x : Hole) (a : Actor) (tasks : List ℕ) (p : PendingReply) : Prop where
  mem : p ∈ a.pending
  unsent : a.repliesTo p.tag = 0
  waits : ∀ k ∈ tasks, a.hasExited k = true ∨ ∃ id ∈ p.remaining, x.Spares id ∧
    ∃ s, a.sheep[id]? = some s ∧ s.ctl = some k
  named : ∀ id ∈ p.remaining, x.Spares id → ∃ s k, a.sheep[id]? = some s ∧ s.ctl = some k ∧ k ∈ tasks

/-- A parked reply has been answered, once, with every life it waited for
at its end. -/
structure Answered (a : Actor) (tag : ℕ) (tasks : List ℕ) : Prop where
  gone : ∀ p ∈ a.pending, p.tag ≠ tag
  once : a.repliesTo tag = 1
  ended : ∀ k ∈ tasks, a.hasExited k = true

/-- What is known of every life, every reply channel and every parked
reply. -/
structure Ledger (x : Hole) (a : Actor) : Prop where
  exited_lt : ∀ k, a.hasExited k = true → k < a.nextTask
  unexited : ∀ t ∈ a.tasks, a.hasExited t.serial = false
  unused : ∀ tag, a.nextReply ≤ tag → a.repliesTo tag = 0
  booked : ∀ tag tasks, .parked tag tasks ∈ a.trace → tag < a.nextReply ∧ tasks ≠ [] ∧
    ((∃ p, p.tag = tag ∧ Unanswered x a tasks p) ∨ Answered a tag tasks)

namespace Ledger

variable {x : Hole} {a b : Actor}

/-- A move that parks, answers and ends nothing. -/
theorem step (h : Ledger x a) (hush : Hushed a.trace b.trace) (hlive : KeepsLive b.sheep a.sheep)
    (hpending : b.pending = a.pending) (hreply : b.nextReply = a.nextReply)
    (htask : a.nextTask ≤ b.nextTask)
    (htasks : ∀ t ∈ b.tasks, t ∈ a.tasks ∨ t.serial = a.nextTask) : Ledger x b where
  exited_lt k hk := (h.exited_lt k ((hush.exits k).symm.trans hk)).trans_le htask
  unexited t ht := by
    refine (hush.exits t.serial).trans ?_
    rcases htasks t ht with ht | hnew
    · exact h.unexited t ht
    · cases he : a.hasExited t.serial with
      | false => exact he
      | true =>
        have hlt := h.exited_lt t.serial he
        omega
  unused tag htag := (hush.replies tag).trans (h.unused tag (hreply ▸ htag))
  booked tag tasks hp := by
    obtain ⟨hlt, hne, hwhich⟩ := h.booked tag tasks (hush.parks tag tasks hp)
    refine ⟨hreply ▸ hlt, hne, ?_⟩
    rcases hwhich with ⟨p, hptag, hu⟩ | hd
    · refine Or.inl ⟨p, hptag, hpending ▸ hu.mem, (hush.replies p.tag).trans hu.unsent, ?_, ?_⟩
      · intro k hk
        refine (hu.waits k hk).imp (fun he => (hush.exits k).trans he) ?_
        rintro ⟨id, hid, hx, s, hs, hctl⟩
        exact ⟨id, hid, hx, hlive id s k hs hctl⟩
      · intro id hid hx
        obtain ⟨s, k, hs, hctl, hk⟩ := hu.named id hid hx
        obtain ⟨s', hs', hctl'⟩ := hlive id s k hs hctl
        exact ⟨s', k, hs', hctl', hk⟩
    · exact Or.inr ⟨hpending ▸ hd.gone, (hush.replies tag).trans hd.once,
        fun k hk => (hush.exits k).trans (hd.ended k hk)⟩

theorem hole {y : Hole} (h : Ledger x a) (hx : ∀ id, x.Spares id) (hy : ∀ id, y.Spares id) :
    Ledger y a where
  exited_lt := h.exited_lt
  unexited := h.unexited
  unused := h.unused
  booked tag tasks hp := by
    obtain ⟨hlt, hne, hwhich⟩ := h.booked tag tasks hp
    refine ⟨hlt, hne, hwhich.imp_left ?_⟩
    rintro ⟨p, hptag, hu⟩
    refine ⟨p, hptag, hu.mem, hu.unsent, fun k hk => ?_, fun id hid _ => hu.named id hid (hx id)⟩
    refine (hu.waits k hk).imp_right ?_
    rintro ⟨id, hid, -, hs⟩
    exact ⟨id, hid, hy id, hs⟩

theorem answer (h : Ledger x a) (answer : Answer) : Ledger x (a.answer answer) := by
  have hother : ∀ tag, tag ≠ a.nextReply → (a.answer answer).repliesTo tag = a.repliesTo tag := by
    intro tag hne
    have hneg : ¬ Effect.answers tag (.replied a.nextReply answer) = true := by
      simpa [Effect.answers] using hne.symm
    exact List.countP_cons_of_neg hneg
  refine ⟨h.exited_lt, h.unexited, fun tag htag => ?_, fun tag tasks hp => ?_⟩
  · have htag : a.nextReply + 1 ≤ tag := htag
    rw [hother tag (by omega)]
    exact h.unused tag (by omega)
  · have hp : .parked tag tasks ∈ a.trace := (List.mem_cons.1 hp).resolve_left (by simp)
    obtain ⟨hlt, hne, hwhich⟩ := h.booked tag tasks hp
    have hkeep := hother tag (by omega)
    refine ⟨hlt.trans (Nat.lt_succ_self _), hne, ?_⟩
    rcases hwhich with ⟨p, rfl, hu⟩ | hd
    · exact Or.inl ⟨p, rfl, hu.mem, hkeep.trans hu.unsent, hu.waits, hu.named⟩
    · exact Or.inr ⟨hd.gone, hkeep.trans hd.once, hd.ended⟩

/-- A reply parked on running sheep is open. -/
theorem park (h : Ledger .none a) {remaining : List ℕ} (hne : remaining ≠ [])
    (hlive : ∀ id ∈ remaining, ∃ s, a.sheep[id]? = some s ∧ s.ctl.isSome = true)
    (results : List ProcessInfo) (kind : ReplyKind) :
    Ledger .none (a.park remaining results kind) := by
  have hlive' : ∀ id ∈ remaining, ∃ s k, a.sheep[id]? = some s ∧ s.ctl = some k ∧
      k ∈ remaining.filterMap fun id => (a.sheep[id]?).bind SheepSlot.ctl := by
    intro id hid
    obtain ⟨s, hs, hctl⟩ := hlive id hid
    obtain ⟨k, hk⟩ := Option.isSome_iff_exists.1 hctl
    exact ⟨s, k, hs, hk, List.mem_filterMap.2 ⟨id, hid, by simp [hs, hk]⟩⟩
  refine ⟨h.exited_lt, h.unexited, fun tag htag => h.unused tag ?_, fun tag tasks hp => ?_⟩
  · have htag : a.nextReply + 1 ≤ tag := htag
    omega
  · rcases List.mem_cons.1 hp with he | hp
    · obtain ⟨rfl, rfl⟩ := Effect.parked.inj he
      refine ⟨Nat.lt_succ_self _, ?_, Or.inl ⟨⟨a.nextReply, remaining, results, kind⟩, rfl, ?_⟩⟩
      · obtain ⟨id, hid⟩ := List.exists_mem_of_ne_nil remaining hne
        obtain ⟨-, k, -, -, hk⟩ := hlive' id hid
        exact List.ne_nil_of_mem hk
      · refine ⟨by simp [Actor.park], h.unused _ le_rfl, fun k hk => Or.inr ?_,
          fun id hid _ => hlive' id hid⟩
        obtain ⟨id, hid, hk⟩ := List.mem_filterMap.1 hk
        obtain ⟨s, hs, hctl⟩ := Option.bind_eq_some_iff.1 hk
        exact ⟨id, hid, Hole.none_spares id, s, hs, hctl⟩
    · obtain ⟨hlt, htasks, hwhich⟩ := h.booked tag tasks hp
      refine ⟨hlt.trans (Nat.lt_succ_self _), htasks, ?_⟩
      rcases hwhich with ⟨p, rfl, hu⟩ | hd
      · exact Or.inl ⟨p, rfl, List.mem_append_left _ hu.mem, hu.unsent, hu.waits, hu.named⟩
      · refine Or.inr ⟨fun p hp => ?_, hd.once, hd.ended⟩
        rcases List.mem_append.1 hp with hp | hp
        · exact hd.gone p hp
        · rw [List.mem_singleton.1 hp]
          exact (show tag < a.nextReply from hlt).ne'

/-- A life ends: the replies waiting on it wait for the rest. -/
theorem exit (h : Ledger .none a) (hi : Inv .none a) {task : Task} {s : SheepSlot}
    (htask : task ∈ a.tasks) (hs : a.sheep[task.id]? = some s) (hctl : s.ctl = some task.serial)
    (outcome : ExitOutcome) : Ledger (.exiting task.id s) { a with
      tasks := a.tasks.erase task
      trace := .exited task.serial :: a.trace
      sheep := a.sheep.insert task.id (s.exited outcome) } := by
  have hended : ∀ k, Actor.hasExited { a with
      tasks := a.tasks.erase task
      trace := .exited task.serial :: a.trace
      sheep := a.sheep.insert task.id (s.exited outcome) } k = (task.serial == k || a.hasExited k) :=
    fun k => rfl
  refine ⟨fun k hk => ?_, fun t ht => ?_, h.unused, fun tag tasks hp => ?_⟩
  · rw [hended, Bool.or_eq_true, beq_iff_eq] at hk
    rcases hk with rfl | hk
    · exact hi.tasks.lt task htask
    · exact h.exited_lt k hk
  · have hmem : t ∈ a.tasks := List.mem_of_mem_erase ht
    have hne : task.serial ≠ t.serial := by
      intro he
      obtain rfl := List.inj_on_of_nodup_map hi.tasks.nodup htask hmem he
      exact List.Nodup.not_mem_erase (List.Nodup.of_map _ hi.tasks.nodup) ht
    rw [hended, h.unexited t hmem]
    simpa using hne
  · have hp : .parked tag tasks ∈ a.trace := (List.mem_cons.1 hp).resolve_left (by simp)
    obtain ⟨hlt, hne, hwhich⟩ := h.booked tag tasks hp
    refine ⟨hlt, hne, ?_⟩
    rcases hwhich with ⟨p, rfl, hu⟩ | hd
    · refine Or.inl ⟨p, rfl, hu.mem, hu.unsent, fun k hk => ?_, fun id hid hx => ?_⟩
      · rcases hu.waits k hk with he | ⟨id, hid, -, t, ht, htk⟩
        · exact Or.inl (by rw [hended, he, Bool.or_true])
        · by_cases hself : id = task.id
          · -- the life that ended is the one this reply waited for under `id`
            subst hself
            obtain rfl := Option.some.inj (hs.symm.trans ht)
            obtain rfl := Option.some.inj (hctl.symm.trans htk)
            exact Or.inl (by rw [hended, beq_self_eq_true, Bool.true_or])
          · refine Or.inr ⟨id, hid, fun taken he => hself (Hole.exiting.inj he).1.symm, t, ?_, htk⟩
            rw [Table.get_insert, if_neg hself]
            exact ht
      · obtain ⟨t, k, ht, htk, hk⟩ := hu.named id hid (Hole.none_spares id)
        refine ⟨t, k, ?_, htk, hk⟩
        rw [Table.get_insert, if_neg]
        · exact ht
        · rintro rfl
          exact hx s rfl
    · exact Or.inr ⟨hd.gone, hd.once, fun k hk => by rw [hended, hd.ended k hk, Bool.or_true]⟩

end Ledger

/-! ## Settling an exit -/

section Settle

variable {a : Actor} {id tag : ℕ} {info : ProcessInfo} {taken : SheepSlot} {tasks : List ℕ}

theorem Hole.exiting_spares {j : ℕ} : (Hole.exiting id taken).Spares j ↔ j ≠ id :=
  ⟨fun hx he => hx taken (he ▸ rfl), fun hne _ he => hne (Hole.exiting.inj he).1.symm⟩

namespace Actor

theorem resolvePending_hasExited (k : ℕ) :
    (a.resolvePending id info).hasExited k = a.hasExited k := by
  have hsilent : (repliedWith (a.readyReplies id info)).any (Effect.ends k) = false := by
    rw [List.any_eq_false]
    intro e he
    simp only [repliedWith, List.mem_reverse, List.mem_map] at he
    obtain ⟨p, -, rfl⟩ := he
    simp [Effect.ends]
  rw [resolvePending_eq]
  simp only [hasExited, List.any_append, hsilent, Bool.false_or]

theorem mem_readyReplies {q : PendingReply} : q ∈ a.readyReplies id info ↔
    ∃ p ∈ a.pending, p.settle id info = q ∧ q.remaining = [] := by
  rw [readyReplies, List.mem_filter, List.mem_map, List.isEmpty_iff]
  constructor
  · rintro ⟨⟨p, hp, rfl⟩, hempty⟩
    exact ⟨p, hp, rfl, hempty⟩
  · rintro ⟨p, hp, rfl, hempty⟩
    exact ⟨⟨p, hp, rfl⟩, hempty⟩

theorem mem_resolvePending_pending {q : PendingReply} : q ∈ (a.resolvePending id info).pending ↔
    ∃ p ∈ a.pending, p.settle id info = q ∧ q.remaining ≠ [] := by
  rw [resolvePending_eq, List.mem_filter, List.mem_map]
  constructor
  · rintro ⟨⟨p, hp, rfl⟩, hne⟩
    exact ⟨p, hp, rfl, by simpa using hne⟩
  · rintro ⟨p, hp, rfl, hne⟩
    exact ⟨⟨p, hp, rfl⟩, by simpa using hne⟩

theorem resolvePending_repliesTo (tag : ℕ) : (a.resolvePending id info).repliesTo tag =
    ((a.readyReplies id info).map PendingReply.tag).count tag + a.repliesTo tag := by
  have hcount : ∀ ready : List PendingReply, (repliedWith ready).countP (Effect.answers tag) =
      (ready.map PendingReply.tag).count tag := by
    intro ready
    unfold repliedWith
    rw [List.countP_reverse, List.countP_map, List.count, List.countP_map]
    rfl
  rw [resolvePending_eq]
  simp only [repliesTo, List.countP_append, hcount]

theorem resolvePending_repliesTo_of_open
    (hopen : ∀ p ∈ a.pending, p.tag = tag → (p.settle id info).remaining ≠ []) :
    (a.resolvePending id info).repliesTo tag = a.repliesTo tag := by
  rw [resolvePending_repliesTo, List.count_eq_zero_of_not_mem, Nat.zero_add]
  intro hmem
  obtain ⟨q, hq, hqtag⟩ := List.mem_map.1 hmem
  obtain ⟨p, hp, rfl, hempty⟩ := mem_readyReplies.1 hq
  exact hopen p hp ((PendingReply.settle_tag id info p).symm.trans hqtag) hempty

theorem resolvePending_repliesTo_of_empty {p : PendingReply}
    (hnodup : (a.pending.map PendingReply.tag).Nodup) (hp : p ∈ a.pending)
    (hempty : (p.settle id info).remaining = []) :
    (a.resolvePending id info).repliesTo p.tag = 1 + a.repliesTo p.tag := by
  have htag : PendingReply.tag ∘ PendingReply.settle id info = PendingReply.tag :=
    funext (PendingReply.settle_tag id info)
  have hready : ((a.readyReplies id info).map PendingReply.tag).Nodup := by
    refine List.Nodup.sublist (List.Sublist.map _ List.filter_sublist) ?_
    rw [List.map_map, htag]
    exact hnodup
  have hmem : p.tag ∈ (a.readyReplies id info).map PendingReply.tag :=
    List.mem_map.2 ⟨_, mem_readyReplies.2 ⟨p, hp, rfl, hempty⟩, PendingReply.settle_tag id info p⟩
  rw [resolvePending_repliesTo, List.count_eq_one_of_mem hready hmem]

end Actor

/-- An open reply stays open, or goes out with the last life it waited
for. -/
theorem Unanswered.resolve {p : PendingReply} (h : Unanswered (.exiting id taken) a tasks p)
    (hi : Inv (.exiting id taken) a) (info : ProcessInfo) :
    (∃ q, q.tag = p.tag ∧ Unanswered .none (a.resolvePending id info) tasks q) ∨
      Answered (a.resolvePending id info) p.tag tasks := by
  have huniq : ∀ {q : PendingReply}, q ∈ a.pending → q.tag = p.tag → q = p :=
    fun hq => List.inj_on_of_nodup_map hi.replies.nodup hq h.mem
  have hsheep : (a.resolvePending id info).sheep = a.sheep := by rw [Actor.resolvePending_eq]
  have hrest : ∀ {j : ℕ}, j ∈ p.remaining → (Hole.exiting id taken).Spares j →
      j ∈ (p.settle id info).remaining :=
    fun hj hx => PendingReply.mem_settle_remaining.2 ⟨hj, Hole.exiting_spares.1 hx⟩
  by_cases hempty : (p.settle id info).remaining = []
  · refine Or.inr ⟨fun q hq => ?_, ?_, fun k hk => ?_⟩
    · obtain ⟨q, hq', rfl, hne⟩ := Actor.mem_resolvePending_pending.1 hq
      rw [PendingReply.settle_tag]
      intro he
      rw [huniq hq' he] at hne
      exact hne hempty
    · rw [Actor.resolvePending_repliesTo_of_empty hi.replies.nodup h.mem hempty, h.unsent]
    · rw [Actor.resolvePending_hasExited]
      refine (h.waits k hk).resolve_right ?_
      rintro ⟨j, hj, hx, -⟩
      have hmem := hrest hj hx
      rw [hempty] at hmem
      cases hmem
  · refine Or.inl ⟨p.settle id info, PendingReply.settle_tag id info p, ?_, ?_, ?_, ?_⟩
    · exact Actor.mem_resolvePending_pending.2 ⟨p, h.mem, rfl, hempty⟩
    · rw [PendingReply.settle_tag, Actor.resolvePending_repliesTo_of_open, h.unsent]
      intro q hq he
      rw [huniq hq he]
      exact hempty
    · intro k hk
      rw [Actor.resolvePending_hasExited, hsheep]
      refine (h.waits k hk).imp_right ?_
      rintro ⟨j, hj, hx, hs⟩
      exact ⟨j, hrest hj hx, Hole.none_spares j, hs⟩
    · intro j hj _
      obtain ⟨hj, hne⟩ := PendingReply.mem_settle_remaining.1 hj
      rw [hsheep]
      exact h.named j hj (Hole.exiting_spares.2 hne)

theorem Answered.resolve (h : Answered a tag tasks) (id : ℕ) (info : ProcessInfo) :
    Answered (a.resolvePending id info) tag tasks where
  gone q hq := by
    obtain ⟨q, hq', rfl, -⟩ := Actor.mem_resolvePending_pending.1 hq
    rw [PendingReply.settle_tag]
    exact h.gone q hq'
  once := by
    rw [Actor.resolvePending_repliesTo_of_open, h.once]
    exact fun q hq he => absurd he (h.gone q hq)
  ended k hk := by
    rw [Actor.resolvePending_hasExited]
    exact h.ended k hk

/-- An exit is settled: a reply that waited for nothing else goes out. -/
theorem Ledger.resolve (h : Ledger (.exiting id taken) a) (hi : Inv (.exiting id taken) a)
    (info : ProcessInfo) : Ledger .none (a.resolvePending id info) := by
  have hsame : (a.resolvePending id info).nextTask = a.nextTask ∧
      (a.resolvePending id info).tasks = a.tasks ∧
      (a.resolvePending id info).nextReply = a.nextReply := by
    rw [Actor.resolvePending_eq]
    exact ⟨rfl, rfl, rfl⟩
  obtain ⟨htask, htasks, hreply⟩ := hsame
  refine ⟨fun k hk => ?_, fun t ht => ?_, fun tag htag => ?_, fun tag tasks hp => ?_⟩
  · rw [Actor.resolvePending_hasExited] at hk
    rw [htask]
    exact h.exited_lt k hk
  · rw [Actor.resolvePending_hasExited]
    exact h.unexited t (htasks ▸ ht)
  · rw [hreply] at htag
    rw [Actor.resolvePending_repliesTo_of_open, h.unused tag htag]
    intro p hp he
    have hlt := hi.replies.lt p hp
    omega
  · have hp : .parked tag tasks ∈ a.trace := by
      rw [Actor.resolvePending_eq] at hp
      simpa [Actor.repliedWith] using hp
    obtain ⟨hlt, hne, hwhich⟩ := h.booked tag tasks hp
    rw [hreply]
    refine ⟨hlt, hne, ?_⟩
    rcases hwhich with ⟨p, rfl, hu⟩ | hd
    · exact hu.resolve hi info
    · exact Or.inr (hd.resolve id info)

end Settle

/-! ## Every move -/

namespace KeepsLive

variable {sheep : Std.ExtTreeMap ℕ SheepSlot} {id : ℕ} {s s' : SheepSlot}

theorem written (hs : sheep[id]? = some s) (hctl : s'.ctl = s.ctl) :
    KeepsLive (sheep.insert id s') sheep := by
  intro j t k ht hk
  rw [Table.get_insert]
  split
  · next e =>
    rw [e, hs] at ht
    obtain rfl := Option.some.inj ht
    exact ⟨s', rfl, hctl.trans hk⟩
  · exact ⟨t, ht, hk⟩

theorem written_idle (hidle : ∀ s, sheep[id]? = some s → s.ctl = none) :
    KeepsLive (sheep.insert id s') sheep := by
  intro j t k ht hk
  rw [Table.get_insert]
  split
  · next e =>
    rw [hidle t (e ▸ ht)] at hk
    cases hk
  · exact ⟨t, ht, hk⟩

theorem without (hs : sheep[id]? = some s) (hctl : s.ctl = none) :
    KeepsLive (sheep.erase id) sheep := by
  intro j t k ht hk
  rw [Table.get_erase]
  split
  · next e =>
    rw [e, hs] at ht
    rw [← Option.some.inj ht, hctl] at hk
    cases hk
  · exact ⟨t, ht, hk⟩

theorem through {f : SheepSlot → SheepSlot} (hf : ∀ (id : ℕ) (s : SheepSlot),
    sheep[id]? = some s → (f s).ctl = s.ctl) : KeepsLive (sheep.map fun _ s => f s) sheep := by
  intro j t k ht hk
  exact ⟨f t, by rw [Table.get_map, ht, Option.map_some], (hf j t ht).trans hk⟩

end KeepsLive

/-- **A move ends no process but the one whose exit it takes.** -/
theorem Move.retains {c : Turn} {p q : Point} (hm : Move c p q) (hi : Inv p.hole p.actor)
    (hx : ∀ id taken, q.hole = .exiting id taken → p.hole ≠ .none) :
    KeepsLive q.actor.sheep p.actor.sheep := by
  have hfresh : ∀ {oldId : ℕ} {s u : SheepSlot}, p.actor.sheep[oldId]? = some s →
      ∀ t, (p.actor.sheep.insert oldId u)[p.actor.nextId]? = some t → t.ctl = none := by
    intro oldId s u hs t ht
    rw [Table.get_insert, if_neg (hi.lt_nextId hs).ne'] at ht
    exact absurd (hi.lt_nextId ht) (lt_irrefl _)
  cases hm with
  | quiet | bump | hear | drains | answer | park | halt | disable | enable | expire | fire |
    honour | commit | verify | drop | shutdown | unwatch | panic | assertFail => exact .refl _
  | edit s' hs hag => exact .written hs hag.ctl
  | editAll f hf => exact .through fun id s hs => (hf id s hs).ctl
  | rest hs hctl hrest _ | backOff _ hs hctl hrest _ _ =>
    exact .written hs (hrest.ctl.trans hctl.symm)
  | register | launch => exact .written_idle fun s hs => absurd (hi.lt_nextId hs) (lt_irrefl _)
  | reseat hs hctl _ _ _ _ _ _ _ _ | reseatLive hs hctl _ _ _ _ _ _ _ _
  | relaunch hs hctl _ _ _ _ =>
    exact .written_idle fun s hs' => by rw [← Option.some.inj (hs.symm.trans hs'), hctl]
  | claim _ _ hs _ _ _ _ | displace _ _ hs _ _ _ _ _ | doom hs _ _ | putBack hs _ _
  | beginSerial hs _ _ _ _ _ _ _ _ _ | scratch hs _ _ _ | unmark hs _ | lapse _ _ hs
  | online hs _ _ _ | parkFailed hs _ | demote hs _ _ _ => exact .written hs rfl
  | remarkStop | remarkRestart =>
    refine .through fun id s _ => ?_
    split <;> rfl
  | deregister hs hctl _ => exact .without hs hctl
  | exit => exact absurd rfl (hx _ _ rfl)
  | resolve info _ _ =>
    rw [Actor.resolvePending_eq]
    exact .refl _
  | @beginOverlap a n oldId pid s s' queue credentials hs _ _ _ _ _ _ _ _ _ _ _
  | @serialSpawn a n oldId pid s s' taken job credentials hs _ _ _ _ _ _ _ =>
    exact (KeepsLive.written_idle (hfresh hs)).trans (.written hs rfl)
  | restore _ _ hs _ => exact .written hs (SheepSlot.restore_ctl _)

/-- **A move keeps the books.** -/
theorem Move.ledger {c : Turn} {p q : Point} (hm : Move c p q) (hi : Inv p.hole p.actor)
    (h : Ledger p.hole p.actor) : Ledger q.hole q.actor := by
  have hlive := hm.retains hi
  have hnot : ∀ (x : Hole) id taken, x = .exiting id taken → x ≠ .none := by
    rintro _ id taken rfl
    simp
  have hold : ∀ t ∈ p.actor.tasks, t ∈ p.actor.tasks ∨ t.serial = p.actor.nextTask :=
    fun _ ht => Or.inl ht
  have hnew : ∀ (task : Task), task.serial = p.actor.nextTask → ∀ t ∈ task :: p.actor.tasks,
      t ∈ p.actor.tasks ∨ t.serial = p.actor.nextTask := by
    intro task he t ht
    rcases List.mem_cons.1 ht with rfl | ht
    · exact Or.inr he
    · exact Or.inl ht
  cases hm with
  | quiet | bump | edit | editAll | rest | register | reseat | doom | remarkStop | remarkRestart |
    disable | enable | deregister | expire | putBack | beginSerial | scratch | commit | verify |
    drop | unmark | restore | lapse | online | parkFailed | demote | shutdown | unwatch | panic =>
    exact h.step (.refl _) (hlive (hnot _)) rfl rfl le_rfl hold
  | hear | drains | backOff | displace | assertFail =>
    exact h.step (.cons (.refl _) (fun _ => rfl) (fun _ => rfl) (by simp)) (hlive (hnot _)) rfl rfl
      le_rfl hold
  | launch | reseatLive | relaunch | beginOverlap | serialSpawn =>
    exact h.step (.cons (.refl _) (fun _ => rfl) (fun _ => rfl) (by simp)) (hlive (hnot _)) rfl rfl
      (Nat.le_succ _) (hnew _ rfl)
  | @claim x a id s m cap hs _ _ _ _ =>
    have hclaimed : Hushed a.trace (.claimed id m cap :: a.trace) :=
      .cons (.refl _) (fun _ => rfl) (fun _ => rfl) (by simp)
    refine h.step ?_ (hlive (hnot _)) rfl rfl le_rfl hold
    cases hk : s.ctl with
    | none => exact hclaimed
    | some k => exact hclaimed.cons (fun _ => rfl) (fun _ => rfl) (by simp)
  | answer answer _ => exact h.answer answer
  | halt _ _ =>
    have hanswer := h.answer .shutdown
    exact hanswer.step (.refl _) (.refl _) rfl rfl le_rfl fun _ ht => Or.inl ht
  | park remaining results kind hne hrun _ => exact h.park hne hrun results kind
  | exit task outcome _ _ htask hs hctl => exact h.exit hi htask hs hctl outcome
  | resolve info _ _ => exact h.resolve hi info
  | fire t _ _ _ _ _ _ _ =>
    have hdue := h.hole Hole.none_spares fun id => Hole.due_spares id t.id
    exact hdue.step (.refl _) (.refl _) rfl rfl le_rfl hold
  | honour => exact h.hole (fun id => Hole.due_spares id _) Hole.none_spares

end Supervisor

end Shep

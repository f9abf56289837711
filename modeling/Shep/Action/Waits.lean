import Shep.Action.Model

/-!
# Action — who gets a reply

**`replies_reach_waiters`**: in every run a wait that was armed is answered
at most once, and once by the time its task has reported; a stamped reply
is handed to the wait with its stamp alone; and an outcome that carries a
body carries one that was handed to its wait. Where the app leaves its
replies unstamped and answers what it reads in order, no reply is handed to
a wait for another dispatch, as long as no debt is forgotten and waits that
end without their reply do so after delivery and in the order they were
armed. **`reply_misrouted`** is a run in which a debt is forgotten.
-/

namespace Shep

namespace Action

theorem eraseP_split {α : Type} {p : α → Bool} {pre post : List α} {x : α}
    (hpre : ∀ y ∈ pre, p y = false) (hx : p x = true) :
    (pre ++ x :: post).eraseP p = pre ++ post := by
  rw [List.eraseP_append_right _ (fun y hy => by simp [hpre y hy]), List.eraseP_cons_of_pos hx]

/-! ## The waits -/

namespace ActionWaits

variable {p q : PendingAction → Bool} {live : List PendingAction}

/-- What `takeWaiter` does: nothing, where no wait is to be found, or it
takes the waiter of the first. -/
theorem takeWaiter_cases (p : PendingAction → Bool) (live : List PendingAction) :
    takeWaiter p live = (none, live) ∧ (∀ q ∈ live, (p q && q.waiter.isSome) = false) ∨
      ∃ pre pending post waiter, live = pre ++ pending :: post ∧ p pending = true ∧
        pending.waiter = some waiter ∧ (∀ q ∈ pre, (p q && q.waiter.isSome) = false) ∧
        takeWaiter p live = (some waiter, pre ++ { pending with waiter := none } :: post) := by
  induction live with
  | nil => exact .inl ⟨rfl, by simp⟩
  | cons pending live ih =>
    by_cases hp : (p pending && pending.waiter.isSome) = true
    · obtain ⟨hhit, hsome⟩ := Bool.and_eq_true_iff.1 hp
      obtain ⟨waiter, hwaiter⟩ := Option.isSome_iff_exists.1 hsome
      refine .inr ⟨[], pending, live, waiter, rfl, hhit, hwaiter, by simp, ?_⟩
      rw [takeWaiter, if_pos hp, hwaiter]
      rfl
    · rw [Bool.not_eq_true] at hp
      rw [takeWaiter, hp, if_neg Bool.false_ne_true]
      rcases ih with ⟨hnone, hall⟩ | ⟨pre, hit, post, waiter, rfl, hhit, hwaiter, hpre, htaken⟩
      · refine .inl ⟨?_, fun q hq => ?_⟩
        · rw [hnone]
        · rcases List.mem_cons.1 hq with rfl | hq
          · exact hp
          · exact hall q hq
      · refine .inr ⟨pending :: pre, hit, post, waiter, rfl, hhit, hwaiter,
          ?_, ?_⟩
        · intro q hq
          rcases List.mem_cons.1 hq with rfl | hq
          · exact hp
          · exact hpre q hq
        · rw [htaken]
          rfl

/-- What `resolve` does: nothing, or it ends the wait of that stamp. -/
theorem resolve_cases (stamp : ℕ) (waits : ActionWaits) :
    waits.resolve stamp = (none, waits) ∧ (∀ q ∈ waits.live, q.stamp ≠ stamp) ∨
      ∃ pre pending post abandoned, waits.live = pre ++ pending :: post ∧
        pending.stamp = stamp ∧ (∀ q ∈ pre, q.stamp ≠ stamp) ∧
        waits.live.find? (fun q => q.stamp == stamp) = some pending ∧
        waits.resolve stamp = (some pending.reply, ⟨pre ++ post, abandoned⟩) ∧
        (pending.waiter = none ∧ abandoned = waits.abandoned ∨
          pending.waiter.isSome = true ∧
            abandoned = owe waits.abandoned ⟨stamp, pending.action⟩) := by
  unfold resolve
  cases hfind : waits.live.find? (fun q => q.stamp == stamp) with
  | none =>
    refine Or.inl ⟨rfl, fun q hq => ?_⟩
    simpa using List.find?_eq_none.1 hfind q hq
  | some pending =>
    obtain ⟨hhit, pre, post, hlive, hpre⟩ := List.find?_eq_some_iff_append.1 hfind
    have hstamp : pending.stamp = stamp := by simpa using hhit
    have hout : ∀ q ∈ pre, q.stamp ≠ stamp := fun q hq => by simpa using hpre q hq
    have herase : waits.live.eraseP (fun q => q.stamp == stamp) = pre ++ post := by
      rw [hlive]
      exact eraseP_split (fun q hq => by simpa using hpre q hq) hhit
    simp only [herase]
    cases hwaiter : pending.waiter with
    | none =>
      refine .inr ⟨pre, pending, post, waits.abandoned, hlive, hstamp, hout, rfl, ?_, .inl ⟨hwaiter, rfl⟩⟩
      simp
    | some waiter =>
      refine .inr ⟨pre, pending, post, owe waits.abandoned ⟨stamp, pending.action⟩, hlive, hstamp,
        hout, rfl, ?_, .inr ⟨by rw [hwaiter]; rfl, rfl⟩⟩
      simp [hstamp]

/-- What `answer` does: no wait has its waiter taken, or one has, and a
stamped reply takes the waiter of its own. -/
theorem answer_cases (action : String) (stamp : Option ℕ) (waits : ActionWaits) :
    (∃ abandoned, waits.answer action stamp = (none, { waits with abandoned })) ∨
      ∃ pre pending post waiter, waits.live = pre ++ pending :: post ∧
        pending.waiter = some waiter ∧ (∀ k, stamp = some k → pending.stamp = k) ∧
        waits.answer action stamp =
          (some waiter, { waits with live := pre ++ { pending with waiter := none } :: post }) := by
  unfold answer
  cases stamp with
  | some k =>
    rcases takeWaiter_cases (fun pending => pending.stamp == k) waits.live with
      ⟨htaken, -⟩ | ⟨pre, pending, post, waiter, hlive, hhit, hwaiter, -, htaken⟩
    · refine .inl ⟨waits.abandoned.eraseP fun debt => debt.stamp == k, ?_⟩
      simp only [htaken]
    · refine .inr ⟨pre, pending, post, waiter, hlive, hwaiter, fun j hj => ?_, ?_⟩
      · rw [← Option.some.inj hj]
        simpa using hhit
      · simp only [htaken]
  | none =>
    dsimp only
    split
    · exact .inl ⟨_, rfl⟩
    · rcases takeWaiter_cases (fun pending => pending.action == action) waits.live with
        ⟨htaken, -⟩ | ⟨pre, pending, post, waiter, hlive, -, hwaiter, -, htaken⟩
      · exact .inl ⟨waits.abandoned, by rw [htaken]⟩
      · exact .inr ⟨pre, pending, post, waiter, hlive, hwaiter, fun k hk => (by cases hk),
          by rw [htaken]⟩

end ActionWaits

/-! ## Every run -/

namespace Effect

/-- The arming of wait `k`. -/
def arms (k : ℕ) : Effect → Bool
  | armed stamp => stamp == k
  | _ => false

/-- An answer to the caller of wait `k`. -/
def answers (k : ℕ) : Effect → Bool
  | answered stamp _ => stamp == k
  | _ => false

end Effect

namespace Channel

variable {c c' : Channel} {e : Event}

/-- How often wait `k` has been armed. -/
def armings (k : ℕ) (c : Channel) : ℕ := c.trace.countP (Effect.arms k)

/-- How often its caller has been answered. -/
def answers (k : ℕ) (c : Channel) : ℕ := c.trace.countP (Effect.answers k)

/-- A reply with that body has been handed to wait `k`. -/
def Handed (k : ℕ) (body : String) (c : Channel) : Prop :=
  ∃ stamp about, Effect.handed k body stamp about ∈ c.trace

/-- The waits, their tasks and what has been seen of them. -/
structure Sound (c : Channel) : Prop where
  sorted : c.waits.live.Pairwise fun p q => p.stamp < q.stamp
  fresh : ∀ p ∈ c.waits.live, p.stamp < c.nextActionStamp
  own : ∀ p ∈ c.waits.live, p.reply = p.stamp ∧
    ∀ waiter, p.waiter = some waiter → waiter = p.stamp
  tasks : (c.tasks.map ActionTask.stamp).Nodup
  tasksFresh : ∀ t ∈ c.tasks, t.stamp < c.nextActionStamp
  driven : ∀ p ∈ c.waits.live, (∃ t ∈ c.tasks, t.stamp = p.stamp) ∨
    ∃ outcome, (p.stamp, outcome) ∈ c.results
  counted : ∀ k, c.answers k + (c.waits.live.map PendingAction.stamp).count k = c.armings k
  armedOnce : ∀ k, c.armings k ≤ 1
  armedFresh : ∀ k, 0 < c.armings k → k < c.nextActionStamp
  stamped : ∀ waiter body k about, .handed waiter body (some k) about ∈ c.trace → waiter = k
  heard : ∀ t ∈ c.tasks, ∀ body, t.body = some body → c.Handed t.stamp body
  reported : ∀ k body, (k, .replied body) ∈ c.results → c.Handed k body
  replied : ∀ k body, .answered k (.replied body) ∈ c.trace → c.Handed k body

theorem Handed.mono {k : ℕ} {body : String} (h : c.Handed k body)
    (ht : ∀ x ∈ c.trace, x ∈ c'.trace) : c'.Handed k body := by
  obtain ⟨stamp, about, hmem⟩ := h
  exact ⟨stamp, about, ht _ hmem⟩

theorem sound_init : Sound {} := by
  constructor <;> simp [armings, answers]

/-- A dispatch arms a wait nobody has had. -/
theorem Sound.trigger (h : c.Sound) (action : String) : (c.armAction action).Sound where
  sorted := by
    refine List.pairwise_append.2 ⟨h.sorted, List.pairwise_singleton _ _, fun p hp q hq => ?_⟩
    rw [List.mem_singleton.1 hq]
    exact h.fresh p hp
  fresh := by
    intro p hp
    rcases List.mem_append.1 hp with hp | hp
    · exact Nat.lt_succ_of_lt (h.fresh p hp)
    · rw [List.mem_singleton.1 hp]
      exact Nat.lt_succ_self _
  own := by
    intro p hp
    rcases List.mem_append.1 hp with hp | hp
    · exact h.own p hp
    · rw [List.mem_singleton.1 hp]
      exact ⟨rfl, fun waiter hw => (Option.some.inj hw).symm⟩
  tasks := by
    have hnew : c.nextActionStamp ∉ c.tasks.map ActionTask.stamp := by
      intro hin
      obtain ⟨t, ht, he⟩ := List.mem_map.1 hin
      exact absurd (h.tasksFresh t ht) (by omega)
    simp only [armAction, List.map_append, List.map_cons, List.map_nil]
    exact List.nodup_append'.2 ⟨h.tasks, List.nodup_singleton _, by simpa using hnew⟩
  tasksFresh := by
    intro t ht
    rcases List.mem_append.1 ht with ht | ht
    · exact Nat.lt_succ_of_lt (h.tasksFresh t ht)
    · rw [List.mem_singleton.1 ht]
      exact Nat.lt_succ_self _
  driven := by
    intro p hp
    rcases List.mem_append.1 hp with hp | hp
    · refine (h.driven p hp).imp_left fun ⟨t, ht, he⟩ => ⟨t, List.mem_append_left _ ht, he⟩
    · rw [List.mem_singleton.1 hp]
      exact .inl ⟨_, List.mem_append_right _ (List.mem_singleton_self _), rfl⟩
  counted := by
    intro k
    have hk := h.counted k
    simp only [answers, armings, armAction, ActionWaits.arm, List.map_append, List.map_cons,
      List.map_nil, List.count_append, List.count_singleton, List.countP_cons, Effect.arms,
      Effect.answers] at hk ⊢
    by_cases e : c.nextActionStamp = k
    · simp only [e, BEq.rfl, if_true, Bool.false_eq_true, if_false]
      omega
    · simp only [beq_eq_false_iff_ne.2 e, Bool.false_eq_true, if_false]
      omega
  armedOnce := by
    intro k
    have hk := h.armedOnce k
    have hold := h.armedFresh k
    simp only [armings, armAction, List.countP_cons, Effect.arms, beq_iff_eq] at hk hold ⊢
    split
    · next e =>
      subst e
      by_contra hlt
      exact absurd (hold (by omega)) (Nat.lt_irrefl _)
    · omega
  armedFresh := by
    intro k hpos
    have hold := h.armedFresh k
    simp only [armings, armAction, List.countP_cons, Effect.arms, beq_iff_eq] at hpos hold ⊢
    split at hpos
    · omega
    · exact Nat.lt_succ_of_lt (hold (by omega))
  stamped := by
    intro waiter body k about hin
    rcases List.mem_cons.1 hin with hin | hin
    · cases hin
    · exact h.stamped waiter body k about hin
  heard := by
    intro t ht body hbody
    rcases List.mem_append.1 ht with ht | ht
    · exact (h.heard t ht body hbody).mono fun x hx => List.mem_cons_of_mem _ hx
    · rw [List.mem_singleton.1 ht] at hbody
      cases hbody
  reported := fun k body hin => (h.reported k body hin).mono fun x hx => List.mem_cons_of_mem _ hx
  replied := by
    intro k body hin
    rcases List.mem_cons.1 hin with hin | hin
    · cases hin
    · exact (h.replied k body hin).mono fun x hx => List.mem_cons_of_mem _ hx

theorem Sound.elsewhere (h : c.Sound) :
    Sound { c with nextActionStamp := c.nextActionStamp + 1 } :=
  { h with
    fresh := fun p hp => Nat.lt_succ_of_lt (h.fresh p hp)
    tasksFresh := fun t ht => Nat.lt_succ_of_lt (h.tasksFresh t ht)
    armedFresh := fun k hk => Nat.lt_succ_of_lt (h.armedFresh k hk) }

theorem Sound.mapTasks (h : c.Sound) {f : ActionTask → ActionTask} (hf : ∀ t, (f t).stamp = t.stamp)
    (hbody : ∀ t ∈ c.tasks, ∀ body, (f t).body = some body → c.Handed t.stamp body)
    (owed : List Dispatch) : Sound { c with tasks := c.tasks.map f, owed } := by
  have hstamps : (c.tasks.map f).map ActionTask.stamp = c.tasks.map ActionTask.stamp := by
    rw [List.map_map]
    exact List.map_congr_left fun t _ => hf t
  refine { h with tasks := hstamps ▸ h.tasks, tasksFresh := ?_, driven := ?_, heard := ?_ }
  · intro t ht
    obtain ⟨u, hu, rfl⟩ := List.mem_map.1 ht
    exact (hf u).symm ▸ h.tasksFresh u hu
  · intro p hp
    exact (h.driven p hp).imp_left fun ⟨t, ht, he⟩ => ⟨f t, List.mem_map_of_mem ht, (hf t).trans he⟩
  · intro t ht body hb
    obtain ⟨u, hu, rfl⟩ := List.mem_map.1 ht
    rw [hf]
    exact hbody u hu body hb

theorem count_handed {waiter about : ℕ} {body : String} {stamp : Option ℕ} (k : ℕ)
    (trace : List Effect) :
    (Effect.handed waiter body stamp about :: trace).countP (Effect.arms k) =
        trace.countP (Effect.arms k) ∧
      (Effect.handed waiter body stamp about :: trace).countP (Effect.answers k) =
        trace.countP (Effect.answers k) := by
  simp [Effect.arms, Effect.answers]

/-- A reply. -/
theorem Sound.reply (h : c.Sound) (action body : String) (stamp : Option ℕ) (about : ℕ) :
    (c.handleActionReply action body stamp about).Sound := by
  rcases c.waits.answer_cases action stamp with ⟨abandoned, hans⟩ |
    ⟨pre, pending, post, waiter, hlive, hwaiter, hstamp, hans⟩
  · rw [handleActionReply, hans]
    exact { h with }
  · rw [handleActionReply, hans]
    have hown := h.own pending (by simp [hlive])
    obtain rfl := hown.2 waiter hwaiter
    have hmono : ∀ {k : ℕ} {b : String} {d : Channel}, c.Handed k b →
        d.trace = .handed pending.stamp body stamp about :: c.trace → d.Handed k b := by
      intro k b d hk hd
      exact hk.mono fun x hx => hd ▸ List.mem_cons_of_mem _ hx
    have hstamps : (pre ++ { pending with waiter := none } :: post).map PendingAction.stamp =
        c.waits.live.map PendingAction.stamp := by
      simp [hlive]
    have hmem : ∀ p ∈ pre ++ { pending with waiter := none } :: post,
        ∃ q ∈ c.waits.live, p.stamp = q.stamp ∧ p.reply = q.reply ∧
          ∀ w, p.waiter = some w → q.waiter = some w := by
      intro p hp
      rw [hlive]
      rcases List.mem_append.1 hp with hp | hp
      · exact ⟨p, List.mem_append_left _ hp, rfl, rfl, fun _ hw => hw⟩
      · rcases List.mem_cons.1 hp with rfl | hp
        · exact ⟨pending, by simp, rfl, rfl, fun w hw => (by cases hw)⟩
        · exact ⟨p, by simp [hp], rfl, rfl, fun _ hw => hw⟩
    constructor
    case sorted =>
      have hsorted := List.pairwise_map.2 h.sorted
      rw [← hstamps] at hsorted
      exact List.pairwise_map.1 hsorted
    case fresh =>
      intro p hp
      obtain ⟨q, hq, he, -⟩ := hmem p hp
      exact he ▸ h.fresh q hq
    case own =>
      intro p hp
      obtain ⟨q, hq, he, hr, hw⟩ := hmem p hp
      rw [he, hr]
      exact ⟨(h.own q hq).1, fun w hpw => (h.own q hq).2 w (hw w hpw)⟩
    case tasks =>
      have htasks := h.tasks
      rw [← show (c.tasks.map fun t => if t.stamp = pending.stamp then { t with body := some body }
        else t).map ActionTask.stamp = c.tasks.map ActionTask.stamp by
          rw [List.map_map]
          refine List.map_congr_left fun t _ => ?_
          simp only [Function.comp]
          split <;> rfl] at htasks
      exact htasks
    case tasksFresh =>
      intro t ht
      obtain ⟨u, hu, rfl⟩ := List.mem_map.1 ht
      split <;> exact h.tasksFresh u hu
    case driven =>
      intro p hp
      obtain ⟨q, hq, he, -⟩ := hmem p hp
      rw [he]
      refine (h.driven q hq).imp_left fun ⟨t, ht, hts⟩ => ⟨_, List.mem_map_of_mem ht, ?_⟩
      split <;> exact hts
    case counted =>
      intro k
      simp only [answers, armings, hstamps, count_handed]
      exact h.counted k
    case armedOnce =>
      intro k
      simp only [armings, count_handed]
      exact h.armedOnce k
    case armedFresh =>
      intro k hk
      simp only [armings, count_handed] at hk
      exact h.armedFresh k hk
    case stamped =>
      intro w b k ab hin
      rcases List.mem_cons.1 hin with he | hin
      · obtain ⟨rfl, rfl, hk, rfl⟩ := Effect.handed.inj he
        exact hstamp k hk.symm
      · exact h.stamped w b k ab hin
    case heard =>
      intro t ht b hb
      obtain ⟨u, hu, rfl⟩ := List.mem_map.1 ht
      split at hb
      · next he =>
        rw [if_pos he]
        obtain rfl := Option.some.inj hb
        exact ⟨stamp, about, by simp [he]⟩
      · next he =>
        rw [if_neg he]
        exact hmono (h.heard u hu b hb) rfl
    case reported => exact fun k b hin => hmono (h.reported k b hin) rfl
    case replied =>
      intro k b hin
      rcases List.mem_cons.1 hin with he | hin
      · cases he
      · exact hmono (h.replied k b hin) rfl

/-- A task that ends leaves its result behind. -/
theorem Sound.finish (h : c.Sound) {t : ActionTask} {stamp : ℕ} {outcome : ActionOutcome}
    (ht : c.tasks.find? (fun t => t.stamp == stamp) = some t) (hends : t.Ends outcome) :
    Sound { c with
      tasks := c.tasks.eraseP fun t => t.stamp == stamp
      results := c.results ++ [(stamp, outcome)] } := by
  have hstamp : t.stamp = stamp := by simpa using List.find?_some ht
  have hmem : t ∈ c.tasks := List.mem_of_find?_eq_some ht
  have hsub : ∀ u ∈ c.tasks.eraseP (fun t => t.stamp == stamp), u ∈ c.tasks :=
    fun u hu => List.mem_of_mem_eraseP hu
  refine { h with
    tasks := (List.eraseP_sublist.map _).nodup h.tasks
    tasksFresh := fun u hu => h.tasksFresh u (hsub u hu)
    driven := ?_
    heard := fun u hu => h.heard u (hsub u hu)
    reported := ?_ }
  · intro p hp
    rcases h.driven p hp with ⟨u, hu, he⟩ | ⟨o, ho⟩
    · by_cases hk : p.stamp = stamp
      · exact .inr ⟨outcome, by simp [hk]⟩
      · refine .inl ⟨u, ?_, he⟩
        exact (List.mem_eraseP_of_neg (by simpa [he] using hk)).2 hu
    · exact .inr ⟨o, List.mem_append_left _ ho⟩
  · intro k body hin
    rcases List.mem_append.1 hin with hin | hin
    · exact h.reported k body hin
    · obtain ⟨rfl, rfl⟩ := Prod.mk.inj (List.mem_singleton.1 hin)
      rw [← hstamp]
      exact h.heard t hmem body hends

/-- A result answers the caller of its wait, if that is still live. -/
theorem Sound.result (h : c.Sound) {stamp : ℕ} {outcome : ActionOutcome}
    (hin : (stamp, outcome) ∈ c.results) :
    ({ c with results := c.results.erase (stamp, outcome) }.handleActionResult stamp outcome).Sound := by
  have hsub : ∀ r ∈ c.results.erase (stamp, outcome), r ∈ c.results :=
    fun r hr => List.mem_of_mem_erase hr
  -- what a result drove is still driven, unless it is the wait that ends
  have hdriven : ∀ p ∈ c.waits.live, p.stamp ≠ stamp →
      (∃ t ∈ c.tasks, t.stamp = p.stamp) ∨
        ∃ o, (p.stamp, o) ∈ c.results.erase (stamp, outcome) := by
    intro p hp hne
    refine (h.driven p hp).imp_right fun ⟨o, ho⟩ => ⟨o, ?_⟩
    exact (List.mem_erase_of_ne fun e => hne (Prod.mk.inj e).1).2 ho
  rcases c.waits.resolve_cases stamp with ⟨hnone, hout⟩ |
    ⟨pre, pending, post, abandoned, hlive, hstamp, hpre, -, hresolve, -⟩
  · rw [handleActionResult, hnone]
    exact { h with
      driven := fun p hp => hdriven p hp (hout p hp)
      reported := fun k body hk => h.reported k body (hsub _ hk) }
  · rw [handleActionResult, hresolve]
    have hsubset : ∀ p ∈ pre ++ post, p ∈ c.waits.live := by
      intro p hp
      rw [hlive]
      rcases List.mem_append.1 hp with hp | hp
      · exact List.mem_append_left _ hp
      · exact List.mem_append_right _ (List.mem_cons_of_mem _ hp)
    have hsublist : List.Sublist (pre ++ post) c.waits.live := by
      rw [hlive]
      exact (List.sublist_cons_self pending post).append_left pre
    have hsorted := h.sorted
    rw [hlive] at hsorted
    have hpost : ∀ q ∈ post, q.stamp ≠ stamp := by
      intro q hq
      have hlt := (List.pairwise_cons.1 (List.pairwise_append.1 hsorted).2.1).1 q hq
      omega
    have hreply : pending.reply = stamp := (h.own pending (by simp [hlive])).1.trans hstamp
    have hreported : ∀ body, outcome = .replied body → c.Handed pending.reply body := by
      rintro body rfl
      rw [hreply]
      exact h.reported stamp body hin
    have hmono : ∀ {k : ℕ} {b : String} {d : Channel}, c.Handed k b →
        d.trace = .answered pending.reply outcome :: c.trace → d.Handed k b := by
      intro k b d hk hd
      exact hk.mono fun x hx => hd ▸ List.mem_cons_of_mem _ hx
    constructor
    case sorted => exact h.sorted.sublist hsublist
    case fresh => exact fun p hp => h.fresh p (hsubset p hp)
    case own => exact fun p hp => h.own p (hsubset p hp)
    case tasks => exact h.tasks
    case tasksFresh => exact h.tasksFresh
    case driven =>
      intro p hp
      refine hdriven p (hsubset p hp) ?_
      rcases List.mem_append.1 hp with hp | hp
      · exact hpre p hp
      · exact hpost p hp
    case counted =>
      intro k
      have hk := h.counted k
      simp only [answers, armings, hlive, List.countP_cons, List.map_append, List.map_cons,
        List.count_append, List.count_cons, Effect.arms, Effect.answers, hreply, hstamp,
        Bool.false_eq_true, if_false] at hk ⊢
      by_cases e : stamp = k
      · simp only [e, BEq.rfl, if_true] at hk ⊢
        omega
      · simp only [beq_eq_false_iff_ne.2 e, Bool.false_eq_true, if_false] at hk ⊢
        omega
    case armedOnce =>
      intro k
      simp only [armings, List.countP_cons, Effect.arms, Bool.false_eq_true, if_false]
      exact h.armedOnce k
    case armedFresh =>
      intro k hk
      simp only [armings, List.countP_cons, Effect.arms, Bool.false_eq_true, if_false] at hk
      exact h.armedFresh k hk
    case stamped =>
      intro w b k ab hw
      rcases List.mem_cons.1 hw with he | hw
      · cases he
      · exact h.stamped w b k ab hw
    case heard => exact fun t ht b hb => hmono (h.heard t ht b hb) rfl
    case reported => exact fun k b hk => hmono (h.reported k b (hsub _ hk)) rfl
    case replied =>
      intro k b hk
      rcases List.mem_cons.1 hk with he | hk
      · obtain ⟨rfl, hb⟩ := Effect.answered.inj he
        exact hmono (hreported b hb.symm) rfl
      · exact hmono (h.replied k b hk) rfl

/-- The exit answers every wait. -/
theorem Sound.exited (h : c.Sound) : c.handleExited.Sound := by
  have hreplies : c.waits.live.map PendingAction.reply = c.waits.live.map PendingAction.stamp :=
    List.map_congr_left fun p hp => (h.own p hp).1
  have harms : ∀ k, ((c.waits.live.map PendingAction.reply).map
      (fun reply => Effect.answered reply .noChannel)).countP (Effect.arms k) = 0 := by
    intro k
    rw [List.countP_eq_zero]
    intro x hx
    obtain ⟨reply, -, rfl⟩ := List.mem_map.1 hx
    simp [Effect.arms]
  have hanswers : ∀ k, ((c.waits.live.map PendingAction.reply).map
      (fun reply => Effect.answered reply .noChannel)).countP (Effect.answers k) =
        (c.waits.live.map PendingAction.stamp).count k := by
    intro k
    rw [hreplies, List.countP_map]
    rfl
  have hold : ∀ x ∈ c.handleExited.trace, x ∈ c.trace ∨ ∃ reply, x = .answered reply .noChannel := by
    intro x hx
    rcases List.mem_append.1 hx with hx | hx
    · obtain ⟨reply, -, rfl⟩ := List.mem_map.1 hx
      exact .inr ⟨reply, rfl⟩
    · exact .inl hx
  have hmono : ∀ {k : ℕ} {b : String}, c.Handed k b → c.handleExited.Handed k b :=
    fun hk => hk.mono fun x hx => List.mem_append_right _ hx
  have htasks : c.handleExited.tasks.map ActionTask.stamp = c.tasks.map ActionTask.stamp := by
    simp only [handleExited, List.map_map]
    rfl
  constructor
  case sorted => exact List.Pairwise.nil
  case fresh => exact fun p hp => (by cases hp)
  case own => exact fun p hp => (by cases hp)
  case tasks => exact htasks ▸ h.tasks
  case tasksFresh =>
    intro t ht
    obtain ⟨u, hu, rfl⟩ := List.mem_map.1 ht
    exact h.tasksFresh u hu
  case driven => exact fun p hp => (by cases hp)
  case counted =>
    intro k
    have hk := h.counted k
    simp only [answers, armings, handleExited, ActionWaits.abandonAll, List.countP_append, harms,
      hanswers, List.map_nil, List.count_nil] at hk ⊢
    omega
  case armedOnce =>
    intro k
    simp only [armings, handleExited, ActionWaits.abandonAll, List.countP_append, harms]
    exact (Nat.zero_add _).symm ▸ h.armedOnce k
  case armedFresh =>
    intro k hk
    simp only [armings, handleExited, ActionWaits.abandonAll, List.countP_append, harms,
      Nat.zero_add] at hk
    exact h.armedFresh k hk
  case stamped =>
    intro w b k ab hw
    rcases hold _ hw with hw | ⟨reply, he⟩
    · exact h.stamped w b k ab hw
    · cases he
  case heard =>
    intro t ht b hb
    obtain ⟨u, hu, rfl⟩ := List.mem_map.1 ht
    exact hmono (h.heard u hu b hb)
  case reported => exact fun k b hk => hmono (h.reported k b hk)
  case replied =>
    intro k b hk
    rcases hold _ hk with hk | ⟨reply, he⟩
    · exact hmono (h.replied k b hk)
    · cases he

theorem Sound.step (h : c.Sound) (hstep : c.Step e c') : c'.Sound := by
  cases e with
  | trigger action =>
    obtain rfl := Option.some.inj hstep
    exact h.trigger action
  | elsewhere =>
    obtain rfl := Option.some.inj hstep
    exact h.elsewhere
  | deliver stamp =>
    simp only [Step, Channel.step] at hstep
    split at hstep
    · split at hstep
      · obtain rfl := Option.some.inj hstep
        refine h.mapTasks (fun t => ?_) (fun t ht body hb => h.heard t ht body ?_) _
        · split <;> rfl
        · split at hb <;> exact hb
      · cases hstep
    · cases hstep
  | reply action body stamp about =>
    obtain rfl := Option.some.inj hstep
    exact { h.reply action body stamp about with }
  | finish stamp outcome =>
    simp only [Step, Channel.step] at hstep
    split at hstep
    · next t ht =>
      split at hstep
      · next hends =>
        obtain rfl := Option.some.inj hstep
        exact h.finish ht hends
      · cases hstep
    · cases hstep
  | result stamp outcome =>
    simp only [Step, Channel.step] at hstep
    split at hstep
    · next hin =>
      obtain rfl := Option.some.inj hstep
      exact h.result hin
    · cases hstep
  | exited =>
    obtain rfl := Option.some.inj hstep
    exact h.exited

/-! ## An app that answers in order -/

/-- The app leaves its replies unstamped and answers what it has read of a
name in order; actions of a name are delivered in the order they were
dispatched; and a task ends after its delivery, a wait without its reply
after every older one of its name. -/
def InOrder (c : Channel) : Event → Prop
  | .deliver stamp => ∀ t ∈ c.tasks.find? fun t => t.stamp == stamp,
    (c.tasks.find? fun u => u.action == t.action && u.stage = .sending).map ActionTask.stamp =
      some stamp
  | .reply action _ stamp about =>
    stamp = none ∧ c.owed.find? (fun d => d.action == action) = some ⟨about, action⟩
  | .finish stamp _ => ∀ t ∈ c.tasks.find? fun t => t.stamp == stamp, t.stage ≠ .sending
  | .result stamp _ => ∀ p ∈ c.waits.live.find? fun p => p.stamp == stamp,
    p.waiter.isSome = true →
      (c.waits.live.find? fun q => q.action == p.action && q.waiter.isSome).map
        PendingAction.stamp = some stamp
  | _ => True

/-- No debt is forgotten: a wait that ends without its reply finds fewer than
the cap on record, of any name. -/
def Roomy (c : Channel) : Event → Prop
  | .result stamp _ => ∀ p ∈ c.waits.live.find? fun p => p.stamp == stamp,
    p.waiter.isSome = true → c.waits.abandoned.length < maxAbandonedActionReplies
  | _ => True

instance (c : Channel) : (e : Event) → Decidable (c.InOrder e)
  | .deliver _ => inferInstanceAs (Decidable (∀ t ∈ _, _))
  | .reply .. => inferInstanceAs (Decidable (_ ∧ _))
  | .finish .. => inferInstanceAs (Decidable (∀ t ∈ _, _))
  | .result .. => inferInstanceAs (Decidable (∀ p ∈ _, _))
  | .trigger _ | .elsewhere | .exited => isTrue trivial

instance (c : Channel) : (e : Event) → Decidable (c.Roomy e)
  | .result .. => inferInstanceAs (Decidable (∀ p ∈ _, _))
  | .trigger _ | .elsewhere | .deliver _ | .reply .. | .finish .. | .exited => isTrue trivial

/-- The debts of a name. -/
def debts (n : String) (c : Channel) : List ℕ :=
  (c.waits.abandoned.filter fun debt => debt.action == n).map AbandonedReply.stamp

/-- Its waits that still want a reply. -/
def waiting (n : String) (c : Channel) : List ℕ :=
  (c.waits.live.filter fun p => p.action == n && p.waiter.isSome).map PendingAction.stamp

/-- What the app has read of it and not answered. -/
def owing (n : String) (c : Channel) : List ℕ :=
  (c.owed.filter fun d => d.action == n).map Dispatch.stamp

/-- What is still to be delivered. -/
def unsent (n : String) (c : Channel) : List ℕ :=
  (c.tasks.filter fun t => t.action == n && t.stage = .sending).map ActionTask.stamp

/-- **The two ends of the channel in step**: of each name, the debts and
then the waits that want a reply are what the app has read and not answered
and then what it has still to read. -/
structure InStep (c : Channel) : Prop where
  order : ∀ n, c.debts n ++ c.waiting n = c.owing n ++ c.unsent n
  handed : ∀ waiter body stamp about, .handed waiter body stamp about ∈ c.trace → waiter = about

theorem inStep_init : InStep {} := ⟨fun _ => rfl, by simp⟩

theorem filter_first {α : Type} {f : α → Bool} {pre post : List α} {x : α}
    (hpre : ∀ y ∈ pre, f y = false) (hx : f x = true) :
    (pre ++ x :: post).filter f = x :: (pre ++ post).filter f := by
  have hnone : pre.filter f = [] := List.filter_eq_nil_iff.2 fun y hy => by simp [hpre y hy]
  simp [hnone, hx]

theorem filter_other {α : Type} {f : α → Bool} {pre post : List α} {x : α} (hx : f x = false) :
    (pre ++ x :: post).filter f = (pre ++ post).filter f := by
  simp [hx]

theorem InStep.trigger (h : c.InStep) (action : String) : (c.armAction action).InStep := by
  refine ⟨fun n => ?_, fun w b st ab hin => ?_⟩
  · have hn := h.order n
    simp only [debts, waiting, owing, unsent, armAction, ActionWaits.arm, List.filter_append,
      List.map_append] at hn ⊢
    rw [← List.append_assoc, hn, List.append_assoc]
    by_cases ha : action = n <;> simp [ha]
  · rcases List.mem_cons.1 hin with he | hin
    · cases he
    · exact h.handed w b st ab hin

theorem InStep.deliver (h : c.InStep) (hs : c.Sound) {stamp : ℕ} {t : ActionTask}
    (ht : c.tasks.find? (fun t => t.stamp == stamp) = some t)
    (hfirst : (c.tasks.find? fun u => u.action == t.action && u.stage = .sending).map
      ActionTask.stamp = some stamp) :
    InStep { c with
      tasks := c.tasks.map fun t => if t.stamp = stamp then { t with stage := .waiting } else t
      owed := c.owed ++ [⟨stamp, t.action⟩] } := by
  have hstamp : t.stamp = stamp := by simpa using List.find?_some ht
  have hmem : t ∈ c.tasks := List.mem_of_find?_eq_some ht
  refine ⟨fun n => ?_, h.handed⟩
  have hn := h.order n
  have hunsent : (((c.tasks.map fun t => if t.stamp = stamp then { t with stage := .waiting } else t).filter
      fun t => t.action == n && t.stage = .sending).map ActionTask.stamp) =
        (c.unsent n).filter fun k => k != stamp := by
    rw [unsent, List.filter_map, List.map_map, List.filter_map, List.filter_filter]
    have hf : ((fun t : ActionTask => t.action == n && decide (t.stage = .sending)) ∘
        fun t => if t.stamp = stamp then { t with stage := .waiting } else t) =
        fun t => ((fun k => k != stamp) ∘ ActionTask.stamp) t &&
          (t.action == n && decide (t.stage = .sending)) := by
      funext u
      by_cases hu : u.stamp = stamp <;> simp [hu]
    rw [hf]
    refine List.map_congr_left fun u _ => ?_
    simp only [Function.comp]
    split <;> rfl
  show c.debts n ++ c.waiting n = _ ++ _
  simp only [owing, List.filter_append, List.map_append, unsent]
  rw [hunsent, hn]
  by_cases ha : t.action = n
  · -- the one delivered is the first of its name still to be sent
    subst ha
    have hhead : (c.unsent t.action).head? = some stamp := by
      rw [unsent, List.head?_map, List.head?_filter]
      exact hfirst
    obtain ⟨rest, hrest⟩ := List.head?_eq_some_iff.1 hhead
    have hnodup : (c.unsent t.action).Nodup := (List.filter_sublist.map _).nodup hs.tasks
    rw [hrest] at hnodup ⊢
    have hkeep : (stamp :: rest).filter (fun k => k != stamp) = rest := by
      rw [List.filter_cons_of_neg (p := fun k => k != stamp) (by simp)]
      refine List.filter_eq_self.2 fun k hk => bne_iff_ne.2 ?_
      rintro rfl
      exact (List.nodup_cons.1 hnodup).1 hk
    rw [hkeep]
    simp [owing]
  · have hout : stamp ∉ c.unsent n := by
      intro hin
      obtain ⟨u, hu, he⟩ := List.mem_map.1 hin
      obtain ⟨hu, hact⟩ := List.mem_filter.1 hu
      have hsame : u = t := List.inj_on_of_nodup_map hs.tasks hu hmem (he.trans hstamp.symm)
      subst hsame
      exact ha (by simpa using (Bool.and_eq_true_iff.1 hact).1)
    have hall : (c.unsent n).filter (fun k => k != stamp) = c.unsent n := by
      refine List.filter_eq_self.2 fun k hk => ?_
      simp only [bne_iff_ne]
      rintro rfl
      exact hout hk
    rw [hall]
    simp [ha, owing]

/-- A reply settles the oldest debt of its name or, where there is none,
goes to the oldest wait: either is what the app has answered. -/
theorem InStep.reply (h : c.InStep) (hs : c.Sound) {action body : String} {about : ℕ}
    (hfirst : c.owed.find? (fun d => d.action == action) = some ⟨about, action⟩) :
    InStep { c.handleActionReply action body none about with
      owed := c.owed.erase ⟨about, action⟩ } := by
  obtain ⟨-, before, after, howed, hbefore⟩ := List.find?_eq_some_iff_append.1 hfirst
  have hbefore : ∀ d ∈ before, (d.action == action) = false := fun d hd => by
    simpa using hbefore d hd
  have herase : c.owed.erase ⟨about, action⟩ = before ++ after := by
    rw [howed, List.erase_append_right _ fun hin => by simpa using hbefore _ hin,
      List.erase_cons_head]
  have howing : c.owing action =
      about :: ((before ++ after).filter fun d => d.action == action).map Dispatch.stamp := by
    rw [owing, howed, filter_first hbefore (by simp), List.map_cons]
  have hother : ∀ n, action ≠ n → c.owing n =
      ((before ++ after).filter fun d => d.action == n).map Dispatch.stamp := by
    intro n hn
    rw [owing, howed, filter_other (by simpa using hn)]
  have hsplit := h.order action
  rw [howing] at hsplit
  rw [herase]
  by_cases hdebt : c.waits.abandoned.any (fun debt => debt.action == action) = true
  · -- the oldest debt of the name is what the app has answered
    have hans : c.waits.answer action none =
        (none, { c.waits with abandoned := c.waits.abandoned.eraseP fun d => d.action == action }) := by
      simp only [ActionWaits.answer, hdebt, if_true]
    obtain ⟨first, hfound⟩ : ∃ d, c.waits.abandoned.find? (fun debt => debt.action == action) =
        some d := by
      rw [← Option.isSome_iff_exists, List.find?_isSome]
      simpa using hdebt
    obtain ⟨hname, pre, post, habandoned, hpre⟩ := List.find?_eq_some_iff_append.1 hfound
    have hpre : ∀ d ∈ pre, (d.action == action) = false := fun d hd => by simpa using hpre d hd
    rw [handleActionReply, hans]
    refine ⟨fun n => ?_, h.handed⟩
    have hn := h.order n
    show (List.filter _ (c.waits.abandoned.eraseP _)).map _ ++ c.waiting n = _ ++ c.unsent n
    rw [habandoned, eraseP_split hpre hname]
    by_cases ha : action = n
    · subst ha
      rw [debts, habandoned, filter_first hpre hname] at hsplit
      exact (List.cons.inj hsplit).2
    · have hout : (first.action == n) = false := by
        rw [beq_iff_eq.1 hname]
        simpa using ha
      rw [debts, habandoned, filter_other (f := fun d : AbandonedReply => d.action == n) hout,
        hother n ha] at hn
      exact hn
  · have hnone : c.debts action = [] := by
      rw [debts, List.map_eq_nil_iff, List.filter_eq_nil_iff]
      simpa using hdebt
    rw [hnone, List.nil_append] at hsplit
    have hans : c.waits.answer action none =
        ((ActionWaits.takeWaiter (fun p => p.action == action) c.waits.live).1,
          { c.waits with
            live := (ActionWaits.takeWaiter (fun p => p.action == action) c.waits.live).2 }) := by
      simp only [ActionWaits.answer, hdebt, if_false, Bool.false_eq_true]
    rcases ActionWaits.takeWaiter_cases (fun p => p.action == action) c.waits.live with
      ⟨-, hall⟩ | ⟨pre, pending, post, waiter, hlive, hhit, hwaiter, hpre, htaken⟩
    · -- no wait is left, but the app had an answer to give
      have : c.waiting action = [] := by
        rw [waiting, List.map_eq_nil_iff, List.filter_eq_nil_iff]
        intro p hp
        simp [hall p hp]
      rw [this] at hsplit
      cases hsplit
    · rw [htaken] at hans
      obtain rfl := (hs.own pending (by simp [hlive])).2 waiter hwaiter
      have hlast : (pending.action == action && pending.waiter.isSome) = true := by
        rw [hhit, hwaiter]
        rfl
      rw [waiting, hlive, filter_first hpre hlast, List.map_cons, List.cons_append] at hsplit
      obtain ⟨habout, hrest⟩ := List.cons.inj hsplit
      have hunsent : ∀ n, ((c.tasks.map fun t => if t.stamp = pending.stamp then
          { t with body := some body } else t).filter fun t => t.action == n &&
            t.stage = .sending).map ActionTask.stamp = c.unsent n := by
        intro n
        rw [unsent, List.filter_map, List.map_map]
        have hf : ((fun t : ActionTask => t.action == n && decide (t.stage = .sending)) ∘
            fun t => if t.stamp = pending.stamp then { t with body := some body } else t) =
            fun t => t.action == n && decide (t.stage = .sending) := by
          funext u
          by_cases hu : u.stamp = pending.stamp <;> simp [hu]
        rw [hf]
        refine List.map_congr_left fun u _ => ?_
        simp only [Function.comp]
        split <;> rfl
      rw [handleActionReply, hans]
      refine ⟨fun n => ?_, fun w b st ab hin => ?_⟩
      · have hn := h.order n
        show c.debts n ++ (List.filter _ (pre ++ { pending with waiter := none } :: post)).map _ =
          _ ++ _
        rw [filter_other (by simp)]
        refine Eq.trans ?_ (congrArg _ (hunsent n).symm)
        by_cases ha : action = n
        · subst ha
          rw [hnone]
          exact hrest
        · have hout : (pending.action == n && pending.waiter.isSome) = false := by
            rw [beq_iff_eq.1 hhit]
            simp [ha]
          rw [waiting, hlive, filter_other
            (f := fun p : PendingAction => p.action == n && p.waiter.isSome) hout, hother n ha] at hn
          exact hn
      · rcases List.mem_cons.1 hin with he | hin
        · obtain ⟨rfl, -, -, rfl⟩ := Effect.handed.inj he
          exact habout
        · exact h.handed w b st ab hin

theorem InStep.finish (h : c.InStep) {stamp : ℕ} {t : ActionTask}
    (ht : c.tasks.find? (fun t => t.stamp == stamp) = some t) (hsent : t.stage ≠ .sending)
    (results : List (ℕ × ActionOutcome)) :
    InStep { c with tasks := c.tasks.eraseP fun t => t.stamp == stamp, results } := by
  obtain ⟨hhit, pre, post, htasks, hpre⟩ := List.find?_eq_some_iff_append.1 ht
  have herase : c.tasks.eraseP (fun t => t.stamp == stamp) = pre ++ post := by
    rw [htasks]
    exact eraseP_split (fun u hu => by simpa using hpre u hu) hhit
  rw [herase]
  refine ⟨fun n => ?_, h.handed⟩
  have hn := h.order n
  rw [unsent, htasks, filter_other (by simp [hsent])] at hn
  exact hn

/-- A result turns the oldest wait of its name into its youngest debt. -/
theorem InStep.result (h : c.InStep) {stamp : ℕ} {outcome : ActionOutcome}
    (horder : c.InOrder (.result stamp outcome)) (hroomy : c.Roomy (.result stamp outcome)) :
    (c.handleActionResult stamp outcome).InStep := by
  rcases c.waits.resolve_cases stamp with ⟨hnone, -⟩ |
    ⟨pre, pending, post, abandoned, hlive, hstamp, hpre, hfind, hresolve, hend⟩
  · rw [handleActionResult, hnone]
    exact h
  · rw [handleActionResult, hresolve]
    refine ⟨fun n => ?_, fun w b st ab hin => ?_⟩
    · have hn := h.order n
      show (List.filter _ abandoned).map _ ++ (List.filter _ (pre ++ post)).map _ =
        c.owing n ++ c.unsent n
      rcases hend with ⟨hwaiter, rfl⟩ | ⟨hsome, rfl⟩
      · rw [waiting, hlive, filter_other (by simp [hwaiter])] at hn
        exact hn
      · rw [ActionWaits.owe, if_neg]
        swap
        · have := hroomy pending hfind hsome
          rw [List.length_append, List.length_singleton]
          omega
        rw [List.filter_append, List.map_append]
        by_cases ha : pending.action = n
        · subst ha
          -- it is the first of its name, or an older one would be found
          have hbefore : ∀ q ∈ pre, (q.action == pending.action && q.waiter.isSome) = false := by
            intro q hq
            rw [Bool.eq_false_iff]
            intro htrue
            have hfirst := horder pending hfind hsome
            rw [hlive, List.find?_append] at hfirst
            have hfound : (pre.find? fun q => q.action == pending.action &&
                q.waiter.isSome).isSome = true := List.find?_isSome.2 ⟨q, hq, htrue⟩
            obtain ⟨r, hr⟩ := Option.isSome_iff_exists.1 hfound
            rw [hr, Option.some_or, Option.map_some] at hfirst
            exact hpre r (List.mem_of_find?_eq_some hr) (Option.some.inj hfirst)
          rw [waiting, hlive, filter_first hbefore (by simp [hsome])] at hn
          rw [List.filter_cons_of_pos (by simp), List.append_assoc, ← hn]
          simp [hstamp, debts]
        · rw [waiting, hlive, filter_other (by simp [ha])] at hn
          simpa [ha, debts] using hn
    · rcases List.mem_cons.1 hin with he | hin
      · cases he
      · exact h.handed w b st ab hin

theorem InStep.exited (h : c.InStep) : c.handleExited.InStep := by
  refine ⟨fun n => ?_, fun w b st ab hin => ?_⟩
  · have hunsent : c.handleExited.unsent n = [] := by
      rw [unsent, List.map_eq_nil_iff, List.filter_eq_nil_iff]
      intro t ht
      obtain ⟨u, -, rfl⟩ := List.mem_map.1 ht
      simp
    rw [hunsent]
    rfl
  · rcases List.mem_append.1 hin with hin | hin
    · obtain ⟨reply, -, he⟩ := List.mem_map.1 hin
      cases he
    · exact h.handed w b st ab hin

theorem InStep.step (h : c.InStep) (hs : c.Sound) (horder : c.InOrder e) (hroomy : c.Roomy e)
    (hstep : c.Step e c') : c'.InStep := by
  cases e with
  | trigger action =>
    obtain rfl := Option.some.inj hstep
    exact h.trigger action
  | elsewhere =>
    obtain rfl := Option.some.inj hstep
    exact ⟨h.order, h.handed⟩
  | deliver stamp =>
    simp only [Step, Channel.step] at hstep
    split at hstep
    · next t ht =>
      split at hstep
      · obtain rfl := Option.some.inj hstep
        exact h.deliver hs ht (horder t ht)
      · cases hstep
    · cases hstep
  | reply action body stamp about =>
    obtain rfl := Option.some.inj hstep
    obtain ⟨rfl, hfirst⟩ := horder
    have howed : (c.handleActionReply action body none about).owed = c.owed := by
      unfold handleActionReply
      split <;> rfl
    rw [howed]
    exact h.reply hs hfirst
  | finish stamp outcome =>
    simp only [Step, Channel.step] at hstep
    split at hstep
    · next t ht =>
      split at hstep
      · obtain rfl := Option.some.inj hstep
        exact h.finish ht (horder t ht) _
      · cases hstep
    · cases hstep
  | result stamp outcome =>
    simp only [Step, Channel.step] at hstep
    split at hstep
    · obtain rfl := Option.some.inj hstep
      exact InStep.result (c := { c with results := c.results.erase (stamp, outcome) })
        ⟨h.order, h.handed⟩ horder hroomy
    · cases hstep
  | exited =>
    obtain rfl := Option.some.inj hstep
    exact h.exited

/-- The state an event leaves, where it can happen. -/
def next (c : Channel) (e : Event) : Channel := (c.step e).getD c

/-- An event that can happen. -/
def Ready (c : Channel) (e : Event) : Prop := (c.step e).isSome = true

instance (c : Channel) (e : Event) : Decidable (c.Ready e) := inferInstanceAs (Decidable (_ = true))

theorem Ready.step (h : c.Ready e) : c.Step e (c.next e) := by
  obtain ⟨c', hc'⟩ := Option.isSome_iff_exists.1 h
  rw [next, Step, hc']
  rfl

end Channel

/-! ## The result -/

theorem replies_reach_waiters {h : List (Channel × Event)} {c : Channel}
    (hr : Run Channel.Step {} h c) :
    (∀ k, c.armings k ≤ 1 ∧ c.answers k ≤ c.armings k) ∧
    (∀ k, c.answers k < c.armings k → (∃ p ∈ c.waits.live, p.stamp = k) ∧
      ((∃ t ∈ c.tasks, t.stamp = k) ∨ ∃ outcome, (k, outcome) ∈ c.results)) ∧
    (c.waits.live = [] ∨ c.tasks = [] ∧ c.results = [] → ∀ k, c.answers k = c.armings k) ∧
    (∀ waiter body k about, .handed waiter body (some k) about ∈ c.trace → waiter = k) ∧
    (∀ k body, .answered k (.replied body) ∈ c.trace → c.Handed k body) ∧
    (Meets (fun c e => c.InOrder e ∧ c.Roomy e) h →
      ∀ waiter body stamp about, .handed waiter body stamp about ∈ c.trace → waiter = about) := by
  have hs : c.Sound := hr.invariant meets_true Channel.sound_init fun _ _ _ hs _ hstep => hs.step hstep
  have hlive : ∀ k, c.answers k < c.armings k → ∃ p ∈ c.waits.live, p.stamp = k := by
    intro k hk
    have hcount := hs.counted k
    obtain ⟨p, hp, he⟩ := List.mem_map.1 (List.count_pos_iff.1 (show
      0 < (c.waits.live.map PendingAction.stamp).count k by omega))
    exact ⟨p, hp, he⟩
  refine ⟨fun k => ⟨hs.armedOnce k, by have := hs.counted k; omega⟩, fun k hk => ?_,
    fun hend k => ?_, hs.stamped, hs.replied, fun hmeets => ?_⟩
  · obtain ⟨p, hp, rfl⟩ := hlive k hk
    exact ⟨⟨p, hp, rfl⟩, hs.driven p hp⟩
  · by_contra hne
    have hcount := hs.counted k
    obtain ⟨p, hp, rfl⟩ := hlive k (by omega)
    rcases hend with hend | ⟨htasks, hresults⟩
    · rw [hend] at hp
      cases hp
    · rcases hs.driven p hp with ⟨t, ht, -⟩ | ⟨o, ho⟩
      · rw [htasks] at ht
        cases ht
      · rw [hresults] at ho
        cases ho
  · have hboth : c.Sound ∧ c.InStep := by
      refine hr.invariant (P := fun c => c.Sound ∧ c.InStep) hmeets
        ⟨Channel.sound_init, Channel.inStep_init⟩ ?_
      rintro c e c' ⟨hs, hin⟩ ⟨horder, hroomy⟩ hstep
      exact ⟨hs.step hstep, hin.step hs horder hroomy hstep⟩
    exact hboth.2.handed

/-- A wait is answered by its reply, and one by its deadline. -/
def settled : List Event :=
  [.trigger "gc", .deliver 0, .finish 0 .timedOut, .result 0 .timedOut, .trigger "gc", .deliver 1,
    .reply "gc" "late" none 0, .reply "gc" "now" none 1, .finish 1 (.replied "now"),
    .result 1 (.replied "now")]

theorem replies_reach_waiters_settled :
    Effect.handed 1 "now" none 1 ∈ (drive Channel.next {} settled).trace ∧
      (drive Channel.next {} settled).answers 1 = (drive Channel.next {} settled).armings 1 ∧
      ∀ waiter body stamp about,
        .handed waiter body stamp about ∈ (drive Channel.next {} settled).trace → waiter = about := by
  have hready : Drives Channel.next (fun c e => c.Ready e ∧ c.InOrder e ∧ c.Roomy e) {} settled := by
    decide +kernel
  have hresult := replies_reach_waiters (hready.run fun _ _ h => h.1.step)
  exact ⟨by decide +kernel, hresult.2.2.1 (.inl (by decide +kernel)) 1,
    hresult.2.2.2.2.2 (hready.meets fun _ _ h => h.2)⟩

/-- A wait ends by its deadline, its dispatch read and not answered. -/
def lapses (action : String) (k : ℕ) : List Event :=
  [.trigger action, .deliver k, .finish k .timedOut, .result k .timedOut]

/-- One debt of a name, and after it as many as the cap of another. -/
def misrouting : List Event :=
  lapses "gc" 0 ++ (List.range 64).flatMap (fun k => lapses "stats" (k + 1)) ++
    [.trigger "gc", .deliver 65, .reply "gc" "late" none 0]

/-- The app owes no name more answers than the cap. -/
def Channel.Capped (c : Channel) : Prop :=
  (∀ d ∈ c.owed, d.action = "gc" ∨ d.action = "stats") ∧
    (c.owing "gc").length ≤ maxAbandonedActionReplies ∧
    (c.owing "stats").length ≤ maxAbandonedActionReplies

instance (c : Channel) : Decidable c.Capped := inferInstanceAs (Decidable (_ ∧ _))

theorem Channel.Capped.owing {c : Channel} (h : c.Capped) (n : String) :
    (c.owing n).length ≤ maxAbandonedActionReplies := by
  by_cases hn : n = "gc" ∨ n = "stats"
  · rcases hn with rfl | rfl
    · exact h.2.1
    · exact h.2.2
  · have hnone : c.owing n = [] := by
      rw [Channel.owing, List.map_eq_nil_iff, List.filter_eq_nil_iff]
      intro d hd heq
      exact hn (by simpa [beq_iff_eq.1 heq] using h.1 d hd)
    simp [hnone]

/-- The app answers in order and owes no name more answers than the cap,
and a reply goes to a wait for another dispatch: the cap is of all names
together. -/
theorem reply_misrouted : ∃ (h : List (Channel × Event)) (c : Channel),
    Run Channel.Step {} h c ∧
      Meets (fun c e => c.InOrder e ∧ ∀ n, (c.owing n).length ≤ maxAbandonedActionReplies) h ∧
      ∃ waiter body stamp about, .handed waiter body stamp about ∈ c.trace ∧ waiter ≠ about := by
  have hready : Drives Channel.next (fun c e => c.Ready e ∧ c.InOrder e ∧ c.Capped) {} misrouting := by
    decide +kernel
  have hhanded : Effect.handed 65 "late" none 0 ∈ (drive Channel.next {} misrouting).trace := by
    decide +kernel
  exact ⟨_, _, hready.run fun _ _ h => h.1.step, hready.meets fun _ _ h => ⟨h.2.1, h.2.2.owing⟩,
    65, "late", none, 0, hhanded, by decide⟩

end Action

end Shep

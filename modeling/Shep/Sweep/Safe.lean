import Shep.Sweep.Looks

/-!
# Sweep — who is signalled, and when it ends

`Inv` is what every step keeps, whatever becomes of the pids; `Kept` is what
it keeps besides while no walk finds a pid already sent SIGTERM with another
process behind it (`Unrecycled`): each dated pid that was sent SIGTERM is
the process it was sent to. `paced_done` is the bound.
-/

namespace Shep

namespace Sweep

variable {w : World} {saw : ℕ → ℕ} {initial snapshot : LambSnapshot} {c c₂ : Course}
variable {alive roots : List ℕ} {P : ℕ → ℕ → Prop} {i m n now pid x : ℕ}

/-! ## The ledger -/

/-- The SIGTERMs sent. -/
def Course.terms (c : Course) : List Sent := c.sent.filter fun e => e.signal = .term

/-- The process a signal was sent to. -/
def World.hit (w : World) (e : Sent) : Option ℕ := w.process e.look e.pid

/-- `pid` was sent SIGTERM when `x` was behind it. -/
def Course.Owed (w : World) (c : Course) (pid x : ℕ) : Prop :=
  pid ∈ c.sweeper.termed → w.IsLamb pid →
    ∃ e ∈ c.sent, e.signal = .term ∧ e.pid = pid ∧ w.hit e = some x

/-- Every SIGKILL follows a SIGTERM to the same process. -/
def World.Follows (w : World) (sent : List Sent) : Prop :=
  ∀ before e after, sent = before ++ e :: after → e.signal = .kill →
    ∃ e' ∈ before, e'.signal = .term ∧ e'.pid = e.pid ∧ w.hit e' = w.hit e

theorem follows_append {sent batch : List Sent} (h : w.Follows sent)
    (hbatch : ∀ e ∈ batch, e.signal = .kill →
      ∃ e' ∈ sent, e'.signal = .term ∧ e'.pid = e.pid ∧ w.hit e' = w.hit e) :
    w.Follows (sent ++ batch) := by
  intro before e after hsplit hkill
  rcases List.append_eq_append_iff.1 hsplit with ⟨rest, rfl, hrest⟩ | ⟨rest, hrest, hcons⟩
  · obtain ⟨e', hin, hterm, hpid, hhit⟩ := hbatch e (by simp [hrest]) hkill
    exact ⟨e', List.mem_append_left _ hin, hterm, hpid, hhit⟩
  · cases rest with
    | nil =>
      obtain ⟨e', hin, hterm, hpid, hhit⟩ := hbatch e (by simp at hcons; simp [← hcons]) hkill
      exact ⟨e', by simpa [hrest] using hin, hterm, hpid, hhit⟩
    | cons e₀ rest =>
      rw [List.cons_append, List.cons.injEq] at hcons
      obtain ⟨rfl, -⟩ := hcons
      exact h before e rest hrest hkill

/-! ## What every step keeps -/

structure Inv (w : World) (saw : ℕ → ℕ) (initial : LambSnapshot) (c : Course) : Prop where
  dated : w.Dated c.read (fun _ x => w.Lamb saw initial x) c.sweeper.snapshot
  lambs : ∀ e ∈ c.sent, w.IsLamb e.pid ∧ ∃ x, w.hit e = some x ∧ w.Lamb saw initial x
  termed : ∀ e ∈ c.sent, e.signal = .term → e.pid ∈ c.sweeper.termed
  sent : ∀ pid ∈ c.sweeper.termed, w.IsLamb pid →
    ∃ e ∈ c.sent, e.signal = .term ∧ e.pid = pid
  once : (c.terms.map Sent.pid).Nodup
  settled : ∀ t, c.sweeper.phase = .settling t → ∀ m, c.read ≤ m →
    ∀ pid ∈ w.survivors m c.sweeper.snapshot, ∃ e ∈ c.sent, e.pid = pid ∧ e.signal = .kill

/-- What it keeps besides. -/
structure Kept (w : World) (c : Course) : Prop where
  owed : w.Dated c.read (c.Owed w) c.sweeper.snapshot
  follows : w.Follows c.sent

/-- **Where the sweep is right about SIGKILL**: what the walk of its next
look finds under a pid already sent SIGTERM is the process it was sent to. -/
def Course.Unrecycled (w : World) (c : Course) : Prop :=
  c.sweeper.phase = .signalling → w.Holds c.read c.sweeper.snapshot →
    ∀ e ∈ c.sent, e.signal = .term → e.pid ∈ w.finds c.read c.sweeper.snapshot →
      w.process (c.read + 1) e.pid = w.hit e

/-- What a look knows of the pids it is about to kill. -/
structure Aimed (w : World) (saw : ℕ → ℕ) (initial : LambSnapshot) (n : ℕ) (seen : ℕ → ℕ)
    (alive : List ℕ) (c : Course) : Prop where
  lambs : ∀ pid ∈ alive, n ≤ seen pid ∧ seen pid < c.read ∧
    ∃ x, w.process (seen pid) pid = some x ∧ w.Lamb saw initial x
  still : ∀ m, c.read ≤ m → ∀ pid ∈ w.survivors m c.sweeper.snapshot, pid ∈ alive

/-- What it was to know of them before. -/
def TermedBefore (w : World) (seen : ℕ → ℕ) (alive : List ℕ) (c : Course) : Prop :=
  ∀ pid ∈ alive, w.IsLamb pid →
    ∃ e ∈ c.sent, e.signal = .term ∧ e.pid = pid ∧ w.hit e = w.process (seen pid) pid

/-! ## Steps -/

/-- What was sent since, all of it to pids seen from read `n` on. -/
def Course.Told (n : ℕ) (c c' : Course) : Prop :=
  ∃ batch, c'.sent = c.sent ++ batch ∧ ∀ e ∈ batch, n ≤ e.look ∧ e.look < c'.read

theorem Inv.carry {c' : Course} (h : Inv w saw initial c) (hread : c.read ≤ c'.read)
    (hsnapshot : c'.sweeper.snapshot = c.sweeper.snapshot)
    (htermed : c'.sweeper.termed = c.sweeper.termed) (hsent : c'.sent = c.sent)
    (hphase : ∀ t, c'.sweeper.phase = .settling t → c.sweeper.phase = .settling t) :
    Inv w saw initial c' where
  dated := hsnapshot ▸ h.dated.mono hread
  lambs := hsent ▸ h.lambs
  termed := by
    rw [hsent, htermed]
    exact h.termed
  sent := by
    rw [hsent, htermed]
    exact h.sent
  once := by
    rw [Course.terms, hsent]
    exact h.once
  settled t ht m hm := by
    rw [hsent, hsnapshot]
    exact h.settled t (hphase t ht) m (hread.trans hm)

theorem Kept.carry {c' : Course} (h : Kept w c) (hread : c.read ≤ c'.read)
    (hsnapshot : c'.sweeper.snapshot = c.sweeper.snapshot)
    (htermed : c'.sweeper.termed = c.sweeper.termed) (hsent : c'.sent = c.sent) : Kept w c' where
  owed := by
    rw [hsnapshot]
    refine (h.owed.mono hread).imp fun pid x _ hP => ?_
    rw [Course.Owed, htermed, hsent]
    exact hP
  follows := hsent ▸ h.follows

theorem lamb_finds (hw : w.Honest) (hdated : w.Dated n (fun _ x => w.Lamb saw initial x) snapshot)
    (hholds : w.Holds n snapshot) (h : pid ∈ w.finds n snapshot)
    (hx : w.process (n + 1) pid = some x) : w.Lamb saw initial x := by
  have hroots : ∀ root ∈ w.survivors n snapshot,
      ∃ x, w.process (n + 1) root = some x ∧ w.Lamb saw initial x := by
    intro root hroot
    have hthere := survivor_earlier hw hdated (Nat.le_succ n) (Nat.le_succ _) (hholds root hroot)
    obtain ⟨d, hd⟩ := Option.isSome_iff_exists.1
      (Std.ExtTreeMap.mem_iff_isSome_getElem?.1 (mem_of_survivor hroot))
    obtain ⟨i, -, -, x, -, hlamb, hprocess⟩ := survivor_process hw hdated (Nat.le_succ n) root d hd
    exact ⟨x, hprocess hthere, hlamb⟩
  obtain ⟨y, hy, hlamb⟩ := lamb_below hroots h
  obtain rfl : x = y := Option.some.inj (hx.symm.trans hy)
  exact hlamb

theorem Walked.seen (h : Walked w n P roots alive c) (hpid : pid ∈ alive) :
    ∃ x, P pid x ∧ w.process (seenAt n roots pid) pid = some x := by
  obtain ⟨d, hd⟩ := Option.isSome_iff_exists.1
    (Std.ExtTreeMap.mem_iff_isSome_getElem?.1 (h.known pid hpid))
  obtain ⟨i, -, -, x, -, hP, hprocess⟩ := h.dated pid d hd
  exact ⟨x, hP, hprocess hpid⟩

theorem seenAt_le (n : ℕ) (roots : List ℕ) (pid : ℕ) :
    n ≤ seenAt n roots pid ∧ seenAt n roots pid ≤ n + 1 := by
  rw [seenAt]
  split <;> omega

/-- SIGTERM to lambs, once each. -/
theorem Inv.terminate {seen : ℕ → ℕ} (h : Inv w saw initial c)
    (hphase : c.sweeper.phase = .signalling)
    (halive : ∀ pid ∈ alive, ∃ x, w.Lamb saw initial x ∧ w.process (seen pid) pid = some x) :
    Inv w saw initial (c.terminate w seen alive) := by
  obtain ⟨refused, heq⟩ := terminate_eq (w := w) seen alive c
  rw [heq]
  refine ⟨h.dated, ?_, ?_, ?_, ?_, ?_⟩
  · intro e he
    rcases List.mem_append.1 he with he | he
    · exact h.lambs e he
    · obtain ⟨hin, hlamb, -, hlook⟩ := mem_batch.1 he
      obtain ⟨x, hx, hprocess⟩ := halive e.pid (mem_firstSeen.1.1 hin).1
      exact ⟨hlamb, x, by rw [World.hit, hlook, hprocess], hx⟩
  · intro e he hterm
    refine mem_firstSeen.2.2 ?_
    rcases List.mem_append.1 he with he | he
    · exact .inl (h.termed e he hterm)
    · exact .inr (mem_firstSeen.1.1 (mem_batch.1 he).1).1
  · intro pid hpid hlamb
    by_cases hold : pid ∈ c.sweeper.termed
    · obtain ⟨e, he, hrest⟩ := h.sent pid hold hlamb
      exact ⟨e, List.mem_append_left _ he, hrest⟩
    · have hin := (mem_firstSeen.2.1 hpid).resolve_left hold
      exact ⟨⟨pid, .term, seen pid⟩, List.mem_append_right _
        (mem_batch.2 ⟨mem_firstSeen.1.2 ⟨hin, hold⟩, hlamb, rfl, rfl⟩), rfl, rfl⟩
  · have hbatch : (w.batch seen (firstSeen alive c.sweeper.termed).1 .term).filter
        (fun e => e.signal = .term)
        = w.batch seen (firstSeen alive c.sweeper.termed).1 .term := by
      refine List.filter_eq_self.2 fun e he => ?_
      simp [(mem_batch.1 he).2.2.1]
    have hpids :
        ((w.batch seen (firstSeen alive c.sweeper.termed).1 .term).map Sent.pid).Nodup := by
      rw [World.batch, List.map_map]
      exact ((nodup_firstSeen alive _).filter _).map fun _ _ h => h
    rw [Course.terms, List.filter_append, hbatch, List.map_append, List.nodup_append']
    refine ⟨h.once, hpids, fun pid hold hnew => ?_⟩
    obtain ⟨e, he, rfl⟩ := List.mem_map.1 hold
    obtain ⟨e', he', hpid⟩ := List.mem_map.1 hnew
    obtain ⟨hsent, hterm⟩ := List.mem_filter.1 he
    have hin := h.termed e hsent (by simpa using hterm)
    exact (mem_firstSeen.1.1 (mem_batch.1 he').1).2 (hpid ▸ hin)
  · intro t ht
    simp [hphase] at ht

theorem Inv.walk {c₁ : Course} (h : Inv w saw initial c) (hsame : c.Same c₁)
    (hphase : c.sweeper.phase = .signalling)
    (hwalk : Walked w n (fun _ x => w.Lamb saw initial x) roots alive c₁) :
    Inv w saw initial c₁ where
  dated := hwalk.dated.imp fun _ _ _ hP => hP.1
  lambs := hsame.sent ▸ h.lambs
  termed := by
    rw [hsame.sent, hsame.termed]
    exact h.termed
  sent := by
    rw [hsame.sent, hsame.termed]
    exact h.sent
  once := by
    rw [Course.terms, hsame.sent]
    exact h.once
  settled t ht := by simp [hsame.phase, hphase] at ht

/-- **Up to its decision a look keeps what holds**, and aims at lambs. -/
theorem Inv.reaches (hw : w.Honest) (h : Inv w saw initial c)
    (hphase : c.sweeper.phase = .signalling) (hr : c.Reaches w now alive c₂) :
    Inv w saw initial c₂ ∧ c.Told c.read c₂ ∧ Aimed w saw initial c.read
      (seenAt c.read (w.survivors c.read c.sweeper.snapshot)) alive c₂ := by
  have hbegin : Inv w saw initial (c.begin now) :=
    h.carry (Nat.le_succ _) rfl rfl rfl fun _ ht => ht
  cases hr with
  | gone hroots =>
    refine ⟨hbegin, ⟨[], by simp [Course.begin]⟩, by simp, fun m hm pid hpid => ?_⟩
    have := survivor_earlier hw h.dated (Nat.le_refl _) ((Nat.le_succ _).trans hm) hpid
    rwa [hroots] at this
  | walked hroots hsome =>
    subst hroots
    have hwalk : Walked w c.read (fun _ x => w.Lamb saw initial x) _ _ _ :=
      walkFrom_walked (c := c.begin now) hw h.dated rfl
        fun hholds pid hpid x hx => lamb_finds hw h.dated hholds hpid hx
    have hsame := walkFrom_same w (w.survivors c.read c.sweeper.snapshot) (c.begin now)
    have hwalked := hbegin.walk hsame hphase hwalk
    obtain ⟨refused, heq⟩ := terminate_eq (w := w)
      (seenAt c.read (w.survivors c.read c.sweeper.snapshot))
      ((c.begin now).walkFrom w (w.survivors c.read c.sweeper.snapshot)).1
      ((c.begin now).walkFrom w (w.survivors c.read c.sweeper.snapshot)).2
    have hseen := seenAt_le c.read (w.survivors c.read c.sweeper.snapshot)
    have hread : c.read + 2 ≤
        ((c.begin now).walkFrom w (w.survivors c.read c.sweeper.snapshot)).2.read := hwalk.read
    refine ⟨hwalked.terminate (hsame.phase.trans hphase) fun pid hpid => hwalk.seen hpid,
      ?_, ?_, ?_⟩
    · rw [heq, Course.Told, hsame.sent]
      refine ⟨_, rfl, fun e he => ?_⟩
      rw [(mem_batch.1 he).2.2.2]
      have := hseen e.pid
      exact ⟨this.1, by simp only; omega⟩
    · intro pid hpid
      obtain ⟨x, hx, hprocess⟩ := hwalk.seen hpid
      have := hseen pid
      exact ⟨this.1, by rw [heq]; simp only; omega, x, hprocess, hx⟩
    · rw [heq]
      exact hwalk.still

/-- SIGTERM to what is alive, as the processes the snapshot dates. -/
theorem kept_terminate {seen : ℕ → ℕ}
    (hdated : w.Dated c.read
      (fun pid x => c.Owed w pid x ∧ (pid ∈ alive → w.process (seen pid) pid = some x))
      c.sweeper.snapshot)
    (hknown : ∀ pid ∈ alive, pid ∈ c.sweeper.snapshot) (hfollows : w.Follows c.sent) :
    Kept w (c.terminate w seen alive) ∧ TermedBefore w seen alive (c.terminate w seen alive) := by
  obtain ⟨refused, heq⟩ := terminate_eq (w := w) seen alive c
  have howed : w.Dated c.read (fun pid x => (c.terminate w seen alive).Owed w pid x ∧
      (pid ∈ alive → w.process (seen pid) pid = some x)) c.sweeper.snapshot := by
    refine hdated.imp fun pid x _ ⟨hold, hprocess⟩ => ⟨fun hterm hlamb => ?_, hprocess⟩
    rw [heq] at hterm ⊢
    by_cases hin : pid ∈ c.sweeper.termed
    · obtain ⟨e, he, hrest⟩ := hold hin hlamb
      exact ⟨e, List.mem_append_left _ he, hrest⟩
    · have hlive := (mem_firstSeen.2.1 hterm).resolve_left hin
      exact ⟨⟨pid, .term, seen pid⟩, List.mem_append_right _ (mem_batch.2
        ⟨mem_firstSeen.1.2 ⟨hlive, hin⟩, hlamb, rfl, rfl⟩), rfl, rfl, hprocess hlive⟩
  have hread : (c.terminate w seen alive).read = c.read := by rw [heq]
  have hsnapshot : (c.terminate w seen alive).sweeper.snapshot = c.sweeper.snapshot := by rw [heq]
  refine ⟨⟨?_, ?_⟩, fun pid hpid hlamb => ?_⟩
  · rw [hread, hsnapshot]
    exact howed.imp fun _ _ _ hP => hP.1
  · rw [heq]
    refine follows_append hfollows fun e he hkill => ?_
    simp [(mem_batch.1 he).2.2.1] at hkill
  · obtain ⟨d, hd⟩ := Option.isSome_iff_exists.1
      (Std.ExtTreeMap.mem_iff_isSome_getElem?.1 (hknown pid hpid))
    obtain ⟨i, -, -, x, -, hP, hprocess⟩ := howed pid d hd
    have hterm : pid ∈ (c.terminate w seen alive).sweeper.termed := by
      rw [heq]
      exact mem_firstSeen.2.2 (.inr hpid)
    obtain ⟨e, he, hsignal, hpide, hhit⟩ := hP hterm hlamb
    exact ⟨e, he, hsignal, hpide, hhit.trans (hprocess hpid).symm⟩

/-- **While no pid is recycled**, the pids alive were sent SIGTERM as the
processes they are. -/
theorem Kept.reaches (hw : w.Honest) (h : Inv w saw initial c) (hk : Kept w c)
    (hphase : c.sweeper.phase = .signalling) (hu : c.Unrecycled w)
    (hr : c.Reaches w now alive c₂) : Kept w c₂ ∧ TermedBefore w
      (seenAt c.read (w.survivors c.read c.sweeper.snapshot)) alive c₂ := by
  cases hr with
  | gone hroots => exact ⟨hk.carry (Nat.le_succ _) rfl rfl rfl, by simp [TermedBefore]⟩
  | walked hroots hsome =>
    subst hroots
    have hsame := walkFrom_same w (w.survivors c.read c.sweeper.snapshot) (c.begin now)
    have hwalk := walkFrom_walked (P := c.Owed w) (c := c.begin now) hw hk.owed rfl (by
      intro hholds pid hpid x hx hterm hlamb
      obtain ⟨e, he, hsignal, rfl⟩ := h.sent pid hterm hlamb
      exact ⟨e, he, hsignal, rfl, (hu hphase hholds e he hsignal hpid).symm.trans hx⟩)
    refine kept_terminate (hwalk.dated.imp fun pid x _ ⟨hold, hprocess⟩ => ⟨?_, hprocess⟩)
      hwalk.known (hsame.sent ▸ hk.follows)
    rw [Course.Owed, hsame.sent, hsame.termed]
    exact hold

/-! ## The end of the grace -/

theorem finish_read {seen : ℕ → ℕ} : (c.finish w seen alive now).1.read = c.read := by
  rcases finish_cases w seen alive now c with ⟨report, heq, -⟩ | ⟨refused, heq⟩
  · rw [heq]
    rfl
  · rw [heq]

theorem Inv.finish {seen : ℕ → ℕ} (h : Inv w saw initial c)
    (haimed : Aimed w saw initial n seen alive c) (now : ℕ) :
    Inv w saw initial (c.finish w seen alive now).1 ∧
      c.Told n (c.finish w seen alive now).1 := by
  rcases finish_cases w seen alive now c with ⟨report, heq, -⟩ | ⟨refused, heq⟩
  · rw [heq]
    exact ⟨h.carry (Nat.le_refl _) rfl rfl rfl fun t ht => by simp [Course.into] at ht,
      [], by simp [Course.into]⟩
  · rw [heq]
    have hkill : ∀ e ∈ w.batch seen alive .kill, ¬ e.signal = .term := fun e he => by
      simp [(mem_batch.1 he).2.2.1]
    refine ⟨⟨h.dated, ?_, ?_, ?_, ?_, ?_⟩, _, rfl, fun e he => ?_⟩
    · intro e he
      rcases List.mem_append.1 he with he | he
      · exact h.lambs e he
      · obtain ⟨hin, hlamb, -, hlook⟩ := mem_batch.1 he
        obtain ⟨-, -, x, hx, hlambx⟩ := haimed.lambs e.pid hin
        exact ⟨hlamb, x, by rw [World.hit, hlook, hx], hlambx⟩
    · intro e he hterm
      rcases List.mem_append.1 he with he | he
      · exact h.termed e he hterm
      · exact absurd hterm (hkill e he)
    · intro pid hpid hlamb
      obtain ⟨e, he, hrest⟩ := h.sent pid hpid hlamb
      exact ⟨e, List.mem_append_left _ he, hrest⟩
    · have hnone : (w.batch seen alive .kill).filter (fun e => e.signal = .term) = [] :=
        List.filter_eq_nil_iff.2 fun e he => by simpa using hkill e he
      rw [Course.terms, List.filter_append, hnone, List.append_nil]
      exact h.once
    · intro t _ m hm pid hpid
      have hin := haimed.still m hm pid hpid
      have hlamb := isOk_lambPid.1 (mem_survivors.1 hpid).1
      exact ⟨⟨pid, .kill, seen pid⟩, List.mem_append_right _
        (mem_batch.2 ⟨hin, hlamb, rfl, rfl⟩), rfl, rfl⟩
    · obtain ⟨hin, -, -, hlook⟩ := mem_batch.1 he
      obtain ⟨hle, hlt, -⟩ := haimed.lambs e.pid hin
      rw [hlook]
      exact ⟨hle, hlt⟩

theorem Kept.finish {seen : ℕ → ℕ} (h : Kept w c) (hbefore : TermedBefore w seen alive c) :
    Kept w (c.finish w seen alive now).1 := by
  rcases finish_cases w seen alive now c with ⟨report, heq, -⟩ | ⟨refused, heq⟩
  · rw [heq]
    exact h.carry (Nat.le_refl _) rfl rfl rfl
  · rw [heq]
    refine ⟨h.owed.imp fun pid x _ hP hterm hlamb => ?_, follows_append h.follows ?_⟩
    · obtain ⟨e, he, hrest⟩ := hP hterm hlamb
      exact ⟨e, List.mem_append_left _ he, hrest⟩
    · intro e he _
      obtain ⟨hin, hlamb, -, hlook⟩ := mem_batch.1 he
      obtain ⟨e', he', hsignal, hpid, hhit⟩ := hbefore e.pid hin hlamb
      exact ⟨e', he', hsignal, hpid, hhit.trans (by rw [World.hit, hlook])⟩

/-! ## One step -/

/-- **A step keeps what holds**, and signals whom it has just seen. -/
theorem Inv.step (hw : w.Honest) (h : Inv w saw initial c) (now : ℕ) :
    Inv w saw initial (c.step w now).1 ∧ c.Told c.read (c.step w now).1 := by
  rw [Course.step]
  split
  · next hphase =>
    rcases look_cases w now c with ⟨-, heq⟩ | ⟨alive, c₂, hr, heq | ⟨-, heq⟩⟩
    · rw [heq]
      exact ⟨h.carry (Nat.le_refl _) rfl rfl rfl fun t ht => by simp [Course.into] at ht,
        [], by simp [Course.into]⟩
    · obtain ⟨h₂, ⟨batch, hbatch, hlooks⟩, haimed⟩ := h.reaches hw hphase hr
      obtain ⟨h₃, batch', hbatch', hlooks'⟩ := h₂.finish haimed now
      rw [heq]
      refine ⟨h₃, batch ++ batch', by rw [hbatch', hbatch, List.append_assoc], fun e he => ?_⟩
      rcases List.mem_append.1 he with he | he
      · rw [finish_read]
        exact hlooks e he
      · exact hlooks' e he
    · obtain ⟨h₂, htold, -⟩ := h.reaches hw hphase hr
      rw [heq]
      exact ⟨h₂, htold⟩
  · rw [Course.settle]
    dsimp only
    split
    · exact ⟨h.carry (Nat.le_succ _) rfl rfl rfl fun t ht => by simp [Course.into] at ht,
        [], by simp [Course.into]⟩
    · exact ⟨h.carry (Nat.le_succ _) rfl rfl rfl fun _ ht => ht, [], by simp⟩
  · exact ⟨h, [], by simp⟩

/-- A step that meets no recycled pid keeps SIGKILL to those sent SIGTERM. -/
theorem Kept.step (hw : w.Honest) (h : Inv w saw initial c) (hk : Kept w c)
    (hu : c.Unrecycled w) (now : ℕ) : Kept w (c.step w now).1 := by
  rw [Course.step]
  split
  · next hphase =>
    rcases look_cases w now c with ⟨-, heq⟩ | ⟨alive, c₂, hr, heq | ⟨-, heq⟩⟩
    · rw [heq]
      exact hk.carry (Nat.le_refl _) rfl rfl rfl
    · obtain ⟨hk₂, hbefore⟩ := hk.reaches hw h hphase hu hr
      rw [heq]
      exact hk₂.finish hbefore
    · rw [heq]
      exact (hk.reaches hw h hphase hu hr).1
  · rw [Course.settle]
    dsimp only
    split
    · exact hk.carry (Nat.le_succ _) rfl rfl rfl
    · exact hk.carry (Nat.le_succ _) rfl rfl rfl
  · exact hk

/-- **What is stuck was killed.** -/
theorem Inv.stuck (h : Inv w saw initial c) {report : SweepReport}
    (hdone : (c.step w now).2 = .done report) (hpid : pid ∈ report.stuck) :
    ∃ e ∈ (c.step w now).1.sent, e.pid = pid ∧ e.signal = .kill := by
  rw [Course.step] at hdone ⊢
  split at hdone
  · rcases look_cases w now c with ⟨-, heq⟩ | ⟨alive, c₂, -, heq | ⟨-, heq⟩⟩
    · simp only [heq, Step.done.injEq] at hdone
      simp [← hdone] at hpid
    · rw [heq] at hdone
      rcases finish_cases w (seenAt c.read (w.survivors c.read c.sweeper.snapshot)) alive now c₂
        with ⟨report', heq, hstuck⟩ | ⟨refused, heq⟩
      · simp only [heq, Step.done.injEq] at hdone
        rw [← hdone, hstuck] at hpid
        cases hpid
      · simp [heq] at hdone
    · simp [heq] at hdone
  · next startedAt hphase =>
    rw [Course.settle] at hdone ⊢
    dsimp only at hdone ⊢
    split at hdone
    · next hend =>
      simp only [Step.done.injEq] at hdone
      have hleft : pid ∈ w.survivors c.read c.sweeper.snapshot := by
        rw [← hdone] at hpid
        exact hpid
      rw [if_pos hend]
      exact h.settled startedAt hphase c.read (Nat.le_refl _) pid hleft
    · cases hdone
  · simp only [Step.done.injEq] at hdone
    simp [← hdone] at hpid

/-! ## Runs -/

theorem Inv.new (h : w.Taken saw n initial) (grace : ℕ) :
    Inv w saw initial (Course.new initial grace n) where
  dated := h.dated
  lambs := by simp [Course.new]
  termed := by simp [Course.new]
  sent := by simp [Course.new]
  once := by simp [Course.new, Course.terms]
  settled t ht := by simp [Course.new] at ht

theorem Inv.run (hw : w.Honest) (h : Inv w saw initial c) (nows : List ℕ) :
    Inv w saw initial (c.run w nows) := by
  induction nows generalizing c with
  | nil => exact h
  | cons now nows ih => exact ih (h.step hw now).1

theorem Kept.run (hw : w.Honest) (h : Inv w saw initial c) (hk : Kept w c) (nows : List ℕ)
    (hu : ∀ k < nows.length, (c.run w (nows.take k)).Unrecycled w) : Kept w (c.run w nows) := by
  induction nows generalizing c with
  | nil => exact hk
  | cons now nows ih =>
    refine ih (h.step hw now).1 (hk.step hw h (hu 0 (by simp)) now) fun k hk => ?_
    exact hu (k + 1) (by simpa using hk)

theorem Inv.nodup_hit (hw : w.Honest) (h : Inv w saw initial c) : (c.terms.map w.hit).Nodup := by
  have honce := h.once
  rw [List.Nodup, List.pairwise_map] at honce ⊢
  refine honce.imp_of_mem fun {e e'} he he' hpid hhit => hpid ?_
  obtain ⟨-, x, hx, -⟩ := h.lambs e (List.mem_filter.1 he).1
  obtain ⟨row, hrow, hrpid, hrx⟩ := process_eq_some.1 hx
  obtain ⟨row', hrow', hrpid', hrx'⟩ := process_eq_some.1 (hhit.symm.trans hx)
  rw [← hrpid, ← hrpid']
  exact (hw.same hrow hrow' (hrx'.trans hrx.symm)).1.symm

/-! ## The bound -/

/-- The settle ends within `KILL_SETTLE`. -/
theorem paced_settling {startedAt : ℕ} (hphase : c.sweeper.phase = .settling startedAt)
    (hle : startedAt ≤ now) (hnow : now ≤ startedAt + KILL_SETTLE) :
    ∃ k, (c.paced w k now).1.sweeper.phase = .done ∧
      (c.paced w k now).2 ≤ startedAt + KILL_SETTLE := by
  obtain ⟨gap, hgap⟩ : ∃ gap, gap = startedAt + KILL_SETTLE - now := ⟨_, rfl⟩
  induction gap using Nat.strong_induction_on generalizing c now with
  | _ gap ih =>
    have hstep : c.step w now = c.settle w startedAt now := by rw [Course.step, hphase]
    rw [Course.settle] at hstep
    dsimp only at hstep
    split at hstep
    · exact ⟨1, by simp [Course.paced, hstep, Course.into], by simpa [Course.paced, hstep]⟩
    · next hgoes =>
      rw [not_or] at hgoes
      have hsleep : 0 < KILL_SETTLE_POLL := by decide
      obtain ⟨k, hk⟩ := @ih _ (by omega) { c with read := c.read + 1 }
        (now + min (KILL_SETTLE - (now - startedAt)) KILL_SETTLE_POLL) hphase (by omega)
        (by omega) rfl
      exact ⟨k + 1, by simpa [Course.paced, hstep] using hk⟩

theorem Course.Reaches.clock (h : c.Reaches w now alive c₂) : c₂.sweeper.grace = c.sweeper.grace ∧
    c₂.sweeper.phase = c.sweeper.phase ∧
    c₂.sweeper.startedAt = some (c.sweeper.startedAt.getD now) := by
  cases h with
  | gone hroots => exact ⟨rfl, rfl, rfl⟩
  | @walked roots hroots hsome =>
    have hsame := walkFrom_same w roots (c.begin now)
    obtain ⟨refused, heq⟩ := terminate_eq (w := w) (seenAt c.read roots)
      ((c.begin now).walkFrom w roots).1 ((c.begin now).walkFrom w roots).2
    rw [heq]
    exact ⟨hsame.grace, hsame.phase, hsame.startedAt⟩

/-- **A sweep paced as it asks is over within its grace and the settle.** -/
theorem paced_signalling {startedAt : ℕ} (hphase : c.sweeper.phase = .signalling)
    (hstart : c.sweeper.startedAt.getD now = startedAt) (hle : startedAt ≤ now)
    (hnow : now ≤ startedAt + c.sweeper.grace) :
    ∃ k, (c.paced w k now).1.sweeper.phase = .done ∧
      (c.paced w k now).2 ≤ startedAt + c.sweeper.grace + KILL_SETTLE := by
  obtain ⟨gap, hgap⟩ : ∃ gap, gap = startedAt + c.sweeper.grace - now := ⟨_, rfl⟩
  induction gap using Nat.strong_induction_on generalizing c now with
  | _ gap ih =>
    have hstep : c.step w now = c.look w now := by rw [Course.step, hphase]
    have hover : ∀ {c' : Course} {report : SweepReport},
        c.step w now = (c'.into .done, .done report) →
        ∃ k, (c.paced w k now).1.sweeper.phase = .done ∧
          (c.paced w k now).2 ≤ startedAt + c.sweeper.grace + KILL_SETTLE := by
      intro c' report heq
      exact ⟨1, by simp [Course.paced, heq, Course.into], by simp [Course.paced, heq]; omega⟩
    rcases look_cases w now c with ⟨-, heq⟩ | ⟨alive, c₂, hr, heq | ⟨hleft, heq⟩⟩
    · exact hover (hstep.trans heq)
    · rcases finish_cases w (seenAt c.read (w.survivors c.read c.sweeper.snapshot)) alive now c₂
        with ⟨report, hend, -⟩ | ⟨refused, hend⟩
      · exact hover (hstep.trans (heq.trans hend))
      · -- what is left is killed now, and the settle begins
        have hpoll : KILL_SETTLE_POLL ≤ KILL_SETTLE := by decide
        rw [heq, hend] at hstep
        obtain ⟨k, hdone, hwhen⟩ := @paced_settling w (c.step w now).1
          (now + KILL_SETTLE_POLL) now (by rw [hstep]) (by omega) (by omega)
        exact ⟨k + 1, by simpa [Course.paced, hstep] using hdone,
          by simp [Course.paced, hstep] at hwhen ⊢; omega⟩
    · -- it waits, and the next look is nearer to the end of the grace
      obtain ⟨hgrace, hsame, hstarted⟩ := hr.clock
      have hpoll : 0 < SWEEP_POLL_INTERVAL := by decide
      rw [Course.left, hgrace, hstart] at hleft heq
      obtain ⟨k, hdone, hwhen⟩ := @ih _ (by omega) c₂ (now +
        min (c.sweeper.grace - (now - startedAt)) SWEEP_POLL_INTERVAL) (hsame.trans hphase)
        (by rw [hstarted, hstart, Option.getD_some]) (by omega) (by omega) rfl
      rw [hgrace] at hwhen
      exact ⟨k + 1, by simpa [Course.paced, hstep, heq] using hdone,
        by simpa [Course.paced, hstep, heq] using hwhen⟩

end Sweep

end Shep

/-!
## Whom a sweep signals

**Whatever pids are reused, a sweep signals lambs only**, each once with
SIGTERM; what it reports stuck it has killed; and it is over in time. SIGKILL
follows a SIGTERM to the same process unless a walk finds a pid that was
sent SIGTERM with another process behind it: `termed` is a set of pids, so
that process is not sent SIGTERM, and the end of the grace kills it.
-/

namespace Shep

namespace Sweep

variable {w : World} {saw : ℕ → ℕ} {initial : LambSnapshot} {n : ℕ}

theorem sweep_safe (hw : w.Honest) (htaken : w.Taken saw n initial) (grace : ℕ) (nows : List ℕ) :
    let c := (Course.new initial grace n).run w nows
    (∀ now, (∃ batch, (c.step w now).1.sent = c.sent ++ batch ∧
        ∀ e ∈ batch, c.read ≤ e.look ∧ e.look < (c.step w now).1.read ∧
          e.pid ≠ 0 ∧ e.pid ≠ 1 ∧ e.pid ≠ w.own ∧
          ∃ x, w.hit e = some x ∧ w.Lamb saw initial x) ∧
      ∀ report, (c.step w now).2 = .done report → ∀ pid ∈ report.stuck,
        ∃ e ∈ (c.step w now).1.sent, e.pid = pid ∧ e.signal = .kill) ∧
    (c.terms.map w.hit).Nodup ∧
    ((∀ k < nows.length, ((Course.new initial grace n).run w (nows.take k)).Unrecycled w) →
      w.Follows c.sent) ∧
    (∀ now, ∃ k, ((Course.new initial grace n).paced w k now).1.sweeper.phase = .done ∧
      ((Course.new initial grace n).paced w k now).2 ≤ now + grace + KILL_SETTLE) ∧
    (c.sweeper.phase = .done → ∀ later, c.run w later = c) := by
  intro c
  have hinv : Inv w saw initial c := (Inv.new htaken grace).run hw nows
  refine ⟨fun now => ⟨?_, fun report hdone pid hpid => hinv.stuck hdone hpid⟩, hinv.nodup_hit hw,
    fun hu => ?_, fun now => ?_, fun hdone later => ?_⟩
  · obtain ⟨hnext, batch, hsent, hlooks⟩ := hinv.step hw now
    refine ⟨batch, hsent, fun e he => ?_⟩
    obtain ⟨⟨-, hone, hown⟩, hlamb⟩ := hnext.lambs e (hsent ▸ List.mem_append_right _ he)
    exact ⟨(hlooks e he).1, (hlooks e he).2, by omega, by omega, hown, hlamb⟩
  · have hkept : Kept w (Course.new initial grace n) :=
      { owed := htaken.dated.imp fun pid x _ _ hterm => by simp [Course.new] at hterm
        follows := fun before e after hsplit => by simp [Course.new] at hsplit }
    exact (hkept.run hw (Inv.new htaken grace) nows hu).follows
  · exact paced_signalling (c := Course.new initial grace n) rfl rfl (Nat.le_refl _)
      (Nat.le_add_right _ _)
  · clear_value c
    induction later with
    | nil => rfl
    | cons now later ih =>
      have hstep : c.step w now = (c, .done {}) := by rw [Course.step, hdone]
      rw [Course.run, hstep]
      exact ih

/-! ## A pid that is reused -/

/-- A process that ignores SIGTERM, alone; with a child; with another child
under the same pid. -/
def alone : Processes := ⟨[⟨10, some 5, some 0, false, 100⟩], by decide⟩

def withChild : Processes :=
  ⟨[⟨10, some 5, some 0, false, 100⟩, ⟨20, some 10, some 16, false, 200⟩], by decide⟩

def withAnother : Processes :=
  ⟨[⟨10, some 5, some 0, false, 100⟩, ⟨20, some 10, some 40, false, 201⟩], by decide⟩

/-- The child is there at the first walk and has exited by the second look,
its pid taken by the next child. -/
def recycled : World where
  own := 1000
  earliest := 0
  time i := 10 * i + 5
  processes i := if i < 2 then alone else if i < 4 then withChild else withAnother
  refuses _ := none

theorem mem_recycled {i : ℕ} {row : Row} (h : row ∈ (recycled.processes i).rows) :
    row = ⟨10, some 5, some 0, false, 100⟩ ∨
      row = ⟨20, some 10, some 16, false, 200⟩ ∧ 2 ≤ i ∧ i < 4 ∨
      row = ⟨20, some 10, some 40, false, 201⟩ ∧ 4 ≤ i := by
  simp only [recycled] at h
  split at h
  · exact .inl (by simpa [alone] using h)
  · split at h
    · simp only [withChild, List.mem_cons, List.not_mem_nil, or_false] at h
      exact h.imp id fun e => .inl ⟨e, by omega, by omega⟩
    · simp only [withAnother, List.mem_cons, List.not_mem_nil, or_false] at h
      exact h.imp id fun e => .inr ⟨e, by omega⟩

theorem recycled_first (k : ℕ) :
    (⟨10, some 5, some 0, false, 100⟩ : Row) ∈ (recycled.processes k).rows := by
  simp only [recycled]
  split
  · decide
  · split <;> decide

theorem recycled_child {k : ℕ} (h : 2 ≤ k) (h' : k < 4) :
    (⟨20, some 10, some 16, false, 200⟩ : Row) ∈ (recycled.processes k).rows := by
  simp only [recycled, if_neg (Nat.not_lt.2 h), if_pos h']
  decide

theorem recycled_another {k : ℕ} (h : 4 ≤ k) :
    (⟨20, some 10, some 40, false, 201⟩ : Row) ∈ (recycled.processes k).rows := by
  simp only [recycled, if_neg (by omega : ¬ k < 2), if_neg (Nat.not_lt.2 h)]
  decide

theorem honest_recycled : recycled.Honest where
  clock i j hij := by
    simp only [recycled]
    omega
  same hrow hrow' hsame := by
    rcases mem_recycled hrow with rfl | ⟨rfl, -⟩ | ⟨rfl, -⟩ <;>
      rcases mem_recycled hrow' with rfl | ⟨rfl, -⟩ | ⟨rfl, -⟩ <;> simp_all
  zombies _ hrow _ _ hzombie := by
    rcases mem_recycled hrow with rfl | ⟨rfl, -⟩ | ⟨rfl, -⟩ <;> simp at hzombie
  throughout {i k j row row'} hik hkj hrow hrow' hsame := by
    rcases mem_recycled hrow with rfl | ⟨rfl, hi, -⟩ | ⟨rfl, hi⟩
    · exact ⟨_, recycled_first k, rfl⟩
    · rcases mem_recycled hrow' with rfl | ⟨rfl, -, hj⟩ | ⟨rfl, -⟩
      · simp at hsame
      · exact ⟨_, recycled_child (by omega) (by omega), rfl⟩
      · simp at hsame
    · exact ⟨_, recycled_another (by omega), rfl⟩
  reused hij hrow hrow' hpid hne hstarted := by
    rcases mem_recycled hrow with rfl | ⟨rfl, _⟩ | ⟨rfl, _⟩ <;>
      rcases mem_recycled hrow' with rfl | ⟨rfl, _⟩ | ⟨rfl, _⟩ <;> simp_all [recycled] <;> omega

theorem taken_recycled : recycled.Taken (fun _ => 0) 1 (.new [10] 5) := by
  intro pid d hd
  rw [getElem?_new] at hd
  split at hd
  · next hin =>
    obtain rfl : pid = 10 := by simpa using hin
    obtain rfl : 5 = d := Option.some.inj hd
    decide
  · cases hd

/-- With no grace both are sent SIGTERM, and killed at once. -/
theorem sweep_safe_recycled : ((Course.new (.new [10] 5) 0 1).run recycled [0]).sent =
      [⟨10, .term, 1⟩, ⟨20, .term, 2⟩, ⟨10, .kill, 1⟩, ⟨20, .kill, 2⟩] ∧
    recycled.Follows ((Course.new (.new [10] 5) 0 1).run recycled [0]).sent := by
  refine ⟨by decide, (sweep_safe honest_recycled taken_recycled 0 [0]).2.2.1 fun k hk => ?_⟩
  obtain rfl : k = 0 := by simpa using hk
  intro _ _ e he
  cases he

/-- **The second child is killed, and was never sent SIGTERM.** -/
theorem recycled_killed : ¬ ∀ (w : World) (saw : ℕ → ℕ) (initial : LambSnapshot) (n : ℕ),
    w.Honest → w.Taken saw n initial → ∀ (grace : ℕ) (nows : List ℕ),
      w.Follows ((Course.new initial grace n).run w nows).sent := by
  intro h
  have hfollows := h recycled _ _ 1 honest_recycled taken_recycled 1 [0, 1]
  have hsent : ((Course.new (.new [10] 5) 1 1).run recycled [0, 1]).sent =
      [⟨10, .term, 1⟩, ⟨20, .term, 2⟩, ⟨10, .kill, 4⟩] ++ ⟨20, .kill, 5⟩ :: [] := by decide
  obtain ⟨e, he, hterm, hpid, hhit⟩ := hfollows _ _ _ hsent rfl
  have hcase : e = ⟨20, .term, 2⟩ := by
    simp only [List.mem_cons, List.not_mem_nil, or_false] at he
    rcases he with rfl | rfl | rfl <;> simp_all
  rw [hcase] at hhit
  exact absurd hhit (by decide)

end Sweep

end Shep

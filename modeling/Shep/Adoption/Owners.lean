import Shep.Adoption.Rehearsal

/-!
# Adoption — who owns what

What building a handle, dropping it and opening a number change of the
owners, and the three passes of `adopt` in turn: the parts are owned
(`ownAll_spec`), a `listen` socket is owned or closed (`takeListeners_spec`),
and what is bound afresh takes a number that was free (`rebind_spec`).
-/

namespace Shep

namespace Adoption

variable {k : Kernel} {blob : Handover} {p q s t : Process} {fd n : ℤ} {owner : Owner}
variable {kind : FdKind}

/-! ## One number -/

theorem ownersOf_own : (p.own fd owner).ownersOf n =
    if n = fd then owner :: p.ownersOf n else p.ownersOf n := by
  simp only [Process.ownersOf, Process.own, List.filter_cons, beq_iff_eq]
  split
  · next h => simp [h]
  · next h => rw [if_neg fun e => h e.symm]

@[simp] theorem ownersOf_opened : (p.opened fd kind).ownersOf n = p.ownersOf n := rfl

@[simp] theorem ownersOf_close : (p.close fd).ownersOf n = p.ownersOf n := rfl

theorem drop_own : (p.own fd owner).drop fd owner = p.close fd := by
  simp [Process.drop, Process.own, Process.close]

theorem Process.Sound.own (h : p.Sound) (hfree : p.ownersOf fd = [])
    (hopen : p.table[fd]? = some kind) : (p.own fd owner).Sound where
  once n := by
    rw [ownersOf_own]
    split
    · next hn => simp [hn, hfree]
    · exact h.once n
  closed n hn := by
    rw [ownersOf_own]
    split
    · next hfd =>
      rw [own_table, hfd, hopen] at hn
      cases hn
    · exact h.closed n hn

theorem Process.Sound.close (h : p.Sound) (hfree : p.ownersOf fd = []) : (p.close fd).Sound where
  once := h.once
  closed n hn := by
    by_cases hfd : n = fd
    · rw [ownersOf_close, hfd, hfree]
    · exact h.closed n (by simpa [Process.close, hfd] using hn)

theorem Process.Sound.opened (h : p.Sound) : (p.opened fd kind).Sound where
  once := h.once
  closed n hn := by
    by_cases hfd : n = fd
    · simp [Process.opened, hfd] at hn
    · exact h.closed n (by simpa [Process.opened, hfd] using hn)

/-- Outside `fds`, two processes have the same numbers with the same
owners. -/
def Frame (fds : List ℤ) (p q : Process) : Prop :=
  ∀ n : ℤ, n ∉ fds → q.table[n]? = p.table[n]? ∧ q.ownersOf n = p.ownersOf n

theorem Frame.refl (fds : List ℤ) (p : Process) : Frame fds p p := fun _ _ => ⟨rfl, rfl⟩

theorem Frame.trans {fds : List ℤ} (h : Frame fds p q) (h' : Frame fds q t) : Frame fds p t :=
  fun n hn => ⟨(h' n hn).1.trans (h n hn).1, (h' n hn).2.trans (h n hn).2⟩

theorem Frame.mono {fds fds' : List ℤ} (h : Frame fds p q) (hsub : fds ⊆ fds') :
    Frame fds' p q := fun n hn => h n fun hin => hn (hsub hin)

theorem frame_own : Frame [fd] p (p.own fd owner) := by
  intro n hn
  rw [List.mem_singleton] at hn
  rw [ownersOf_own, if_neg hn]
  exact ⟨rfl, rfl⟩

theorem frame_close : Frame [fd] p (p.close fd) := by
  intro n hn
  rw [List.mem_singleton] at hn
  refine ⟨?_, rfl⟩
  simp [Process.close, hn]

/-! ## The parts -/

/-- Parts on distinct, unowned, open numbers are each owned once. -/
theorem ownAll_spec {parts : List Part} (h : p.Sound) (hnodup : (parts.map Part.fd).Nodup)
    (hfree : ∀ part ∈ parts, p.ownersOf part.fd = [])
    (hopen : ∀ part ∈ parts, (p.table[part.fd]?).isSome = true) :
    (p.ownAll parts).Sound ∧ Frame (parts.map Part.fd) p (p.ownAll parts) ∧
      ∀ part ∈ parts, (p.ownAll parts).ownersOf part.fd = [part.owner] := by
  induction parts generalizing p with
  | nil => exact ⟨h, Frame.refl _ p, by simp⟩
  | cons part parts ih =>
    rw [List.map_cons, List.nodup_cons] at hnodup
    rw [List.forall_mem_cons] at hfree hopen
    obtain ⟨hfirst, hnodup⟩ := hnodup
    obtain ⟨kind, hkind⟩ := Option.isSome_iff_exists.1 hopen.1
    have hne : ∀ part' ∈ parts, part'.fd ≠ part.fd := fun part' hin heq =>
      hfirst (heq ▸ List.mem_map_of_mem hin)
    have hnext : (p.own part.fd part.owner).Sound := h.own hfree.1 hkind
    obtain ⟨hsound, hframe, hown⟩ := ih hnext hnodup
      (fun part' hin => by
        rw [ownersOf_own, if_neg (hne part' hin)]
        exact hfree.2 part' hin)
      (fun part' hin => hopen.2 part' hin)
    refine ⟨hsound, ?_, ?_⟩
    · refine (frame_own.mono ?_).trans (hframe.mono (List.subset_cons_self _ _))
      simp
    · rw [List.forall_mem_cons]
      refine ⟨?_, hown⟩
      rw [Process.ownAll, List.foldl_cons]
      exact (hframe part.fd hfirst).2.trans (by rw [ownersOf_own, if_pos rfl, hfree.1])

/-! ## The `listen` sockets -/

theorem frame_take (i : ℕ) (socket : CarriedListener) :
    Frame [socket.fd] p (take k i socket p).1 := by
  unfold take
  dsimp only
  split
  · exact Frame.refl _ p
  · unfold adoptFd
    cases adoptableFd socket.fd p with
    | error error => exact Frame.refl _ p
    | ok kind =>
      dsimp only
      split
      · exact frame_own
      · rw [drop_own]
        exact frame_close

theorem frame_takeListeners (sockets : List (CarriedListener × ℕ)) :
    Frame (sockets.map fun socket => socket.1.fd) p (takeListeners k sockets p).1 := by
  induction sockets generalizing p with
  | nil => exact Frame.refl _ p
  | cons socket sockets ih =>
    have hfirst := frame_take (k := k) (p := p) socket.2 socket.1
    exact (hfirst.mono (by simp)).trans (ih.mono (by simp))

theorem take_eq {i : ℕ} {socket : CarriedListener} (harrived : socket.unclaimed = false)
    (hfloor : RESERVED_FD_FLOOR ≤ socket.fd) (hkind : p.table[socket.fd]? = some kind) :
    take k i socket p = if usable k socket kind then (p.own socket.fd (.listen i), true)
      else (p.close socket.fd, false) := by
  unfold take adoptFd
  rw [adoptableFd_eq_ok.2 ⟨hfloor, hkind⟩]
  simp [harrived, drop_own]

/-- What is known of the `listen` sockets before they are taken. -/
structure Arrived (p : Process) (sockets : List (CarriedListener × ℕ)) : Prop where
  nodup : (sockets.map fun socket => socket.1.fd).Nodup
  claimed : ∀ socket ∈ sockets, socket.1.unclaimed = false
  floor : ∀ socket ∈ sockets, RESERVED_FD_FLOOR ≤ socket.1.fd
  unowned : ∀ socket ∈ sockets, p.ownersOf socket.1.fd = []
  isOpen : ∀ socket ∈ sockets, (p.table[socket.1.fd]?).isSome = true

/-- A socket is taken where it is one bound as the blob says, and is closed
otherwise. -/
theorem takeListeners_spec {sockets : List (CarriedListener × ℕ)} (h : p.Sound)
    (harrived : Arrived p sockets) :
    (takeListeners k sockets p).1.Sound ∧
    (∀ socket ∈ sockets, ∀ kind, p.table[socket.1.fd]? = some kind →
      if usable k socket.1 kind = true then
        (takeListeners k sockets p).1.ownersOf socket.1.fd = [.listen socket.2] ∧
          (takeListeners k sockets p).1.table[socket.1.fd]? = some kind
      else (takeListeners k sockets p).1.table[socket.1.fd]? = none) ∧
    (∀ entry ∈ (takeListeners k sockets p).2, entry.1 ∈ sockets ∧
      ∀ kind, p.table[entry.1.1.fd]? = some kind → entry.2 = usable k entry.1.1 kind) := by
  induction sockets generalizing p with
  | nil => exact ⟨h, by simp, by simp [takeListeners]⟩
  | cons socket sockets ih =>
    obtain ⟨hnodup, hclaimed, hfloor, hunowned, hopen⟩ := harrived
    rw [List.map_cons, List.nodup_cons] at hnodup
    rw [List.forall_mem_cons] at hclaimed hfloor hunowned hopen
    obtain ⟨hfirst, hnodup⟩ := hnodup
    obtain ⟨kind, hkind⟩ := Option.isSome_iff_exists.1 hopen.1
    have htake := take_eq (k := k) (i := socket.2) hclaimed.1 hfloor.1 hkind
    obtain ⟨q, hq⟩ : ∃ q, q = (take k socket.2 socket.1 p).1 := ⟨_, rfl⟩
    have hframe : Frame [socket.1.fd] p q := hq ▸ frame_take socket.2 socket.1
    have hsame : ∀ socket' ∈ sockets, q.table[socket'.1.fd]? = p.table[socket'.1.fd]? ∧
        q.ownersOf socket'.1.fd = p.ownersOf socket'.1.fd := by
      intro socket' hin
      refine hframe _ fun heq => hfirst ?_
      rw [← List.mem_singleton.1 heq]
      exact List.mem_map_of_mem (f := fun socket : CarriedListener × ℕ => socket.1.fd) hin
    have hsound : q.Sound := by
      rw [hq, htake]
      split
      · exact h.own hunowned.1 hkind
      · exact h.close hunowned.1
    obtain ⟨hsound', htaken, hrest⟩ := ih hsound
      ⟨hnodup, hclaimed.2, hfloor.2, fun socket' hin => by
        rw [(hsame socket' hin).2]
        exact hunowned.2 socket' hin, fun socket' hin => by
        rw [(hsame socket' hin).1]
        exact hopen.2 socket' hin⟩
    have hlater := frame_takeListeners (k := k) (p := q) sockets socket.1.fd hfirst
    have hwhole : takeListeners k (socket :: sockets) p = ((takeListeners k sockets q).1,
        (socket, (take k socket.2 socket.1 p).2) :: (takeListeners k sockets q).2) := by
      rw [hq]
      rfl
    rw [hwhole, List.forall_mem_cons, List.forall_mem_cons]
    refine ⟨hsound', ⟨?_, ?_⟩, ⟨List.mem_cons_self, ?_⟩, ?_⟩
    · intro kind' hkind'
      obtain rfl : kind = kind' := Option.some.inj (hkind.symm.trans hkind')
      rw [hlater.1, hlater.2, hq, htake]
      split
      · rw [ownersOf_own, if_pos rfl, hunowned.1]
        exact ⟨rfl, hkind⟩
      · simp [Process.close]
    · intro socket' hin kind' hkind'
      exact htaken socket' hin kind' ((hsame socket' hin).1.trans hkind')
    · intro kind' hkind'
      obtain rfl : kind = kind' := Option.some.inj (hkind.symm.trans hkind')
      rw [htake]
      cases usable k socket.1 kind <;> rfl
    · intro entry hentry
      obtain ⟨hin, hverdict⟩ := hrest entry hentry
      refine ⟨List.mem_cons_of_mem _ hin, fun kind' hkind' => hverdict kind' ?_⟩
      exact (hsame entry.1 hin).1.trans hkind'

/-! ## The rebind -/

/-- What is bound afresh gets a number that was free. -/
theorem rebind_spec (taken : List ((CarriedListener × ℕ) × Bool)) (h : p.Sound) :
    (taken.foldl (rebindOne k) p).Sound ∧
    (∀ n : ℤ, (p.table[n]?).isSome = true →
      (taken.foldl (rebindOne k) p).table[n]? = p.table[n]? ∧
      (taken.foldl (rebindOne k) p).ownersOf n = p.ownersOf n) ∧
    ∀ (n : ℤ) (o : Owner), p.table[n]? = none → o ∈ (taken.foldl (rebindOne k) p).ownersOf n →
      ∃ entry ∈ taken, entry.2 = false ∧ o = .listen entry.1.2 := by
  induction taken generalizing p with
  | nil =>
    refine ⟨h, fun n _ => ⟨rfl, rfl⟩, fun n o hn ho => ?_⟩
    rw [List.foldl_nil, h.closed n hn] at ho
    cases ho
  | cons entry taken ih =>
    rw [List.foldl_cons]
    have hstep : rebindOne k p entry = p ∨ entry.2 = false ∧ ∃ fd kind, p.table[fd]? = none ∧
        rebindOne k p entry = (p.opened fd kind).own fd (.listen entry.1.2) := by
      unfold rebindOne
      cases entry.2 with
      | true => exact .inl rfl
      | false =>
        cases hbind : (k.parse entry.1.1.address).bind (k.bind p) with
        | none => exact .inl rfl
        | some found =>
          obtain ⟨address, -, hbound⟩ := Option.bind_eq_some_iff.1 hbind
          exact .inr ⟨rfl, found.1, _, k.bind_free p address found.1 found.2 hbound, rfl⟩
    rcases hstep with hsame | ⟨hout, fd, kind, hfree, hfresh⟩
    · rw [hsame]
      obtain ⟨hsound, hkept, hnew⟩ := ih h
      refine ⟨hsound, hkept, fun n o hn ho => ?_⟩
      obtain ⟨entry', hin, hentry'⟩ := hnew n o hn ho
      exact ⟨entry', List.mem_cons_of_mem _ hin, hentry'⟩
    · have hnone : (p.opened fd kind).ownersOf fd = [] := h.closed fd hfree
      have hopen : (p.opened fd kind).table[fd]? = some kind := by simp [Process.opened]
      have htable : ∀ n : ℤ, n ≠ fd → ((p.opened fd kind).own fd (.listen entry.1.2)).table[n]? =
          p.table[n]? := fun n hn => by simp [Process.opened, hn]
      rw [hfresh]
      obtain ⟨hsound, hkept, hnew⟩ := ih (h.opened.own hnone hopen)
      refine ⟨hsound, fun n hn => ?_, fun n o hn ho => ?_⟩
      · have hne : n ≠ fd := by
          rintro rfl
          rw [hfree] at hn
          cases hn
        have hkeep := hkept n (by rw [htable n hne, hn])
        rw [htable n hne, ownersOf_own, if_neg hne] at hkeep
        exact hkeep
      · by_cases hne : n = fd
        · have hkeep := hkept n (by rw [hne, own_table, hopen, Option.isSome_some])
          rw [hkeep.2, ownersOf_own, if_pos hne, ownersOf_opened, h.closed n hn,
            List.mem_singleton] at ho
          exact ⟨entry, List.mem_cons_self, hout, ho⟩
        · obtain ⟨entry', hin, hentry'⟩ := hnew n o (by rw [htable n hne, hn]) ho
          exact ⟨entry', List.mem_cons_of_mem _ hin, hentry'⟩

end Adoption

end Shep

import Mathlib.Data.String.Basic
import Shep.Adoption.Owners

/-!
# Adoption — the rehearsal and the adoption agree

`handOver_eq_ok` is what a handover carries and `claim_eq` that the claim
hands all of it back; `adopt_eq_ok` puts the passes of an adoption together.
`rehearsal_agrees` compares the two ends.
-/

namespace Shep

namespace Adoption

variable {k : Kernel} {blob : Handover} {p s t : Process} {arrival : Arrival}

/-! ## Keys -/

theorem natRepr_injective {m n : ℕ} (h : m.repr = n.repr) : m = n := by
  rw [Nat.repr_eq_ofList_toDigits, Nat.repr_eq_ofList_toDigits, String.ofList_inj] at h
  rw [← Nat.ofDigitChars_ten_toDigits (n := m), h, Nat.ofDigitChars_ten_toDigits]

/-- A number's decimal is its own. -/
theorem decimal_injective : Function.Injective Int.repr := by
  have hminus : ∀ m n : ℕ, m.repr ≠ "-" ++ n.repr := by
    intro m n heq
    have hdash : '-' ∈ Nat.toDigits 10 m := by
      have : '-' ∈ m.repr.toList := by simp [heq]
      rwa [Nat.repr_eq_ofList_toDigits, String.toList_ofList] at this
    have := Nat.isDigit_of_mem_toDigits (by decide) (by decide) hdash
    revert this
    decide
  intro a b h
  rw [Int.repr_eq_if, Int.repr_eq_if] at h
  split at h
  · split at h
    · have := natRepr_injective h
      omega
    · exact absurd h (hminus _ _)
  · split at h
    · exact absurd h.symm (hminus _ _)
    · have := natRepr_injective (String.append_right_inj _ |>.1 h)
      omega

theorem nodup_map_repr {l : List ℤ} : (l.map Int.repr).Nodup ↔ l.Nodup :=
  List.nodup_map_iff decimal_injective

/-! ## What is carried -/

theorem mapM_eq_ok {α β ε : Type} {f : α → Except ε β} {g : α → β} {Q : α → Prop}
    (h : ∀ a b, f a = .ok b → b = g a ∧ Q a) {l : List α} {r : List β}
    (hr : l.mapM f = .ok r) : r = l.map g ∧ ∀ a ∈ l, Q a := by
  induction l generalizing r with
  | nil =>
    obtain rfl : [] = r := Except.ok.inj hr
    simp
  | cons a l ih =>
    rw [List.mapM_cons] at hr
    cases ha : f a with
    | error err => simp [ha, bind, Except.bind] at hr
    | ok b =>
      cases hl : l.mapM f with
      | error err => simp [ha, hl, bind, Except.bind] at hr
      | ok bs =>
        obtain rfl : b :: bs = r := by simpa [ha, hl, bind, Except.bind, pure, Except.pure] using hr
        obtain ⟨rfl, hQ⟩ := h a b ha
        obtain ⟨rfl, hrest⟩ := ih hl
        exact ⟨rfl, List.forall_mem_cons.2 ⟨hQ, hrest⟩⟩

/-- **What a handover carries**: each number the blob names, open, once, and
under its own decimal. -/
theorem handOver_eq_ok (h : handOver blob p = .ok arrival) :
    blob.carriedFds.Nodup ∧
    (∀ fd ∈ blob.carriedFds, RESERVED_FD_FLOOR ≤ fd ∧ (p.table[fd]?).isSome = true) ∧
    arrival.state = blob.written ∧
    (∀ fd ∈ blob.carriedFds, arrival.fds[fd.repr]? = some fd) ∧
    ∀ key : String, key ∉ blob.carriedFds.map Int.repr → arrival.fds[key]? = none := by
  unfold handOver at h
  simp only [bind, Except.bind] at h
  split at h
  · cases h
  · next carried hcarried =>
    obtain ⟨rfl, hopen⟩ := mapM_eq_ok (g := fun fd : ℤ => (fd.repr, fd))
      (Q := fun fd => RESERVED_FD_FLOOR ≤ fd ∧ (p.table[fd]?).isSome = true)
      (fun fd entry hentry => by
        cases hfd : adoptableFd fd p with
        | error err => simp [hfd] at hentry
        | ok kind =>
          obtain ⟨hfloor, hkind⟩ := adoptableFd_eq_ok.1 hfd
          obtain rfl : (fd.repr, fd) = entry := by simpa [hfd] using hentry
          exact ⟨rfl, hfloor, by rw [hkind]; rfl⟩) hcarried
    have hkeys : (blob.carriedFds.map fun fd : ℤ => (fd.repr, fd)).map Prod.fst =
        blob.carriedFds.map Int.repr := by simp
    split at h
    · cases h
    · next hrepeat =>
      cases h
      rw [hkeys] at hrepeat
      have hnodup := (firstRepeat_eq_none.1 hrepeat).1
      refine ⟨nodup_map_repr.1 hnodup, hopen, rfl, fun fd hfd => ?_, fun key hkey => ?_⟩
      · refine Std.ExtTreeMap.getElem?_ofList_of_mem Std.ReflCmp.compare_self ?_
          (List.mem_map_of_mem hfd)
        rw [List.pairwise_map]
        refine (nodup_map_repr.1 hnodup).imp fun hne heq => hne ?_
        exact decimal_injective (Std.LawfulEqCmp.eq_of_compare heq)
      · refine Std.ExtTreeMap.getElem?_ofList_of_contains_eq_false ?_
        rwa [hkeys, ← Bool.not_eq_true, List.contains_iff_mem]

/-! ## The claim -/

/-- Keys taken out of a table. -/
def eraseAll (fds : Std.ExtTreeMap String ℤ) (claimed : List ℤ) : Std.ExtTreeMap String ℤ :=
  claimed.foldl (fun fds fd => fds.erase fd.repr) fds

theorem get_eraseAll {claimed : List ℤ} {fds : Std.ExtTreeMap String ℤ} {key : String} :
    (eraseAll fds claimed)[key]? = if key ∈ claimed.map Int.repr then none else fds[key]? := by
  induction claimed generalizing fds with
  | nil => simp [eraseAll]
  | cons fd claimed ih =>
    rw [eraseAll, List.foldl_cons, ← eraseAll, ih, Table.get_erase, List.map_cons]
    by_cases h : key = fd.repr
    · simp [h]
    · simp [h]

theorem claimNamed_eq {named : List ℤ} {fds : Std.ExtTreeMap String ℤ} (hnodup : named.Nodup)
    (h : ∀ fd ∈ named, fds[fd.repr]? = some fd) :
    named.foldl claimNamed (fds, none) = (eraseAll fds named, none) := by
  induction named generalizing fds with
  | nil => rfl
  | cons fd named ih =>
    rw [List.nodup_cons] at hnodup
    rw [List.forall_mem_cons] at h
    have hone : claimNamed (fds, none) fd = (fds.erase fd.repr, none) := by
      simp [claimNamed, h.1]
    rw [List.foldl_cons, hone, ih hnodup.2, eraseAll, eraseAll, List.foldl_cons]
    intro fd' hin
    rw [Table.get_erase, if_neg, h.2 fd' hin]
    intro heq
    exact hnodup.1 (decimal_injective heq ▸ hin)

/-- So are the `listen` sockets. -/
theorem claimListeners_eq {sockets : List CarriedListener} {fds : Std.ExtTreeMap String ℤ}
    (hnodup : (sockets.map CarriedListener.fd).Nodup)
    (h : ∀ socket ∈ sockets, fds[socket.fd.repr]? = some socket.fd) :
    claimListeners sockets fds s = (sockets.map fun socket => { socket with unclaimed := false },
      eraseAll fds (sockets.map CarriedListener.fd), s) := by
  induction sockets generalizing fds with
  | nil => rfl
  | cons socket sockets ih =>
    rw [List.map_cons, List.nodup_cons] at hnodup
    rw [List.forall_mem_cons] at h
    have hrest : ∀ socket' ∈ sockets,
        (fds.erase socket.fd.repr)[socket'.fd.repr]? = some socket'.fd := by
      intro socket' hin
      rw [Table.get_erase, if_neg, h.2 socket' hin]
      intro heq
      exact hnodup.1 (decimal_injective heq ▸ List.mem_map_of_mem hin)
    simp only [claimListeners, h.1, if_true, ih hnodup.2 hrest]
    simp [eraseAll]

/-- **A claim hands back the blob and takes every number that was
carried.** -/
theorem claim_eq (hversion : readsVersion blob.version = true)
    (h : handOver blob p = .ok arrival) (s : Process) :
    claim arrival s = (.ok blob.written, s) := by
  obtain ⟨hnodup, -, hstate, hkeys, hrest⟩ := handOver_eq_ok h
  rw [← carriedFds_written, Handover.carriedFds, List.nodup_append'] at hnodup
  obtain ⟨hnamed, hlisten, hapart⟩ := hnodup
  have hnamedKeys : ∀ fd ∈ blob.written.namedFds, arrival.fds[fd.repr]? = some fd := by
    intro fd hfd
    refine hkeys fd ?_
    rw [← carriedFds_written]
    exact List.mem_append_left _ hfd
  have hlistenKeys : ∀ socket ∈ blob.written.listeners,
      (eraseAll arrival.fds blob.written.namedFds)[socket.fd.repr]? = some socket.fd := by
    intro socket hin
    have hmem : socket.fd ∈ blob.written.listeners.map CarriedListener.fd :=
      List.mem_map_of_mem hin
    rw [get_eraseAll, if_neg]
    · refine hkeys socket.fd ?_
      rw [← carriedFds_written]
      exact List.mem_append_right _ hmem
    · intro hkey
      obtain ⟨fd, hfd, heq⟩ := List.mem_map.1 hkey
      exact hapart (decimal_injective heq ▸ hfd) hmem
  have hnone : eraseAll (eraseAll arrival.fds blob.written.namedFds)
      (blob.written.listeners.map CarriedListener.fd) = ∅ := by
    apply Std.ExtTreeMap.ext_getElem?
    intro key
    rw [get_eraseAll, get_eraseAll]
    split
    · simp
    · next hlistenKey =>
      split
      · simp
      · next hnamedKey =>
        rw [hrest key]
        · simp
        · rw [← carriedFds_written, Handover.carriedFds, List.map_append, List.mem_append]
          exact fun hin => hin.elim hnamedKey hlistenKey
  unfold claim
  rw [hstate]
  have hversion' : readsVersion blob.written.version = true := hversion
  simp only [hversion', if_true, claimNamed_eq hnamed hnamedKeys,
    claimListeners_eq hlisten hlistenKeys, hnone]
  have hvalues : (∅ : Std.ExtTreeMap String ℤ).values = [] := rfl
  simp [Handover.written, hvalues]

/-! ## The adoption -/

theorem parts_perm (k : Kernel) (blob : Handover) :
    ((parts k blob).map Part.fd).Perm blob.namedFds := by
  have hslots : ∀ carried : CarriedSheep × ℕ,
      (sheepParts k carried).map Part.fd = carried.1.fds.all.reduceOption := by
    rintro ⟨⟨name, outPipe, errPipe, outLog, errLog, stdin, channel, dogLink, pty⟩, i⟩
    simp only [sheepParts, CarriedFds.allKinded, CarriedFds.all, slotParts, List.flatMap_cons,
      List.flatMap_nil, List.map_append, List.map_map, Function.comp_def, List.map_id']
    cases outPipe <;> cases errPipe <;> cases outLog <;> cases errLog <;> cases stdin <;>
      cases channel <;> cases dogLink <;> cases pty <;> rfl
  have hsheep : (blob.sheep.zipIdx.flatMap (sheepParts k)).map Part.fd =
      blob.sheep.flatMap fun sheep => sheep.fds.all.reduceOption := by
    rw [List.map_flatMap, funext hslots]
    conv_rhs => rw [← List.zipIdx_map_fst 0 blob.sheep, List.flatMap_map]
  simp only [parts, List.map_append, List.map_cons, List.map_nil, hsheep, Handover.namedFds,
    listenerPart, pidfilePart, List.cons_append, List.nil_append]
  exact (List.perm_append_singleton _ _).cons _

theorem adoptFlock_eq_ok {sheep : List (CarriedSheep × ℕ)} :
    sheep.foldlM (fun p carried => adoptSheep k carried.2 carried.1 p) p = .ok t ↔
      (∀ part ∈ sheep.flatMap (sheepParts k), part.Fits p.table) ∧
        t = p.ownAll (sheep.flatMap (sheepParts k)) := by
  refine foldlM_adopt ?_
  rintro ⟨carried, i⟩ p p'
  exact adoptSheep_eq_ok

/-- Every number a blob carries is another. -/
structure Distinct (blob : Handover) : Prop where
  named : blob.namedFds.Nodup
  listening : (blob.listeners.zipIdx.map fun socket => socket.1.fd).Nodup
  apart : ∀ fd ∈ blob.namedFds, fd ∉ blob.listeners.zipIdx.map fun socket => socket.1.fd

theorem distinct_iff : Distinct blob ↔ blob.carriedFds.Nodup := by
  have hfds : (blob.listeners.zipIdx.map fun socket => socket.1.fd) =
      blob.listeners.map CarriedListener.fd := by
    conv_rhs => rw [← List.zipIdx_map_fst 0 blob.listeners, List.map_map]
    rfl
  rw [Handover.carriedFds, List.nodup_append', ← hfds]
  exact ⟨fun h => ⟨h.named, h.listening, fun fd hfd => h.apart fd hfd⟩,
    fun h => ⟨h.1, h.2.1, fun fd hfd => h.2.2 hfd⟩⟩

/-- The numbers an adoption has handles of before the `listen` sockets'. -/
abbrev firstParts (k : Kernel) (blob : Handover) : List Part :=
  listenerPart k blob :: blob.sheep.zipIdx.flatMap (sheepParts k)

/-- The `listen` sockets as an adoption takes them. -/
abbrev found (k : Kernel) (blob : Handover) (p : Process) :
    Process × List ((CarriedListener × ℕ) × Bool) :=
  takeListeners k blob.listeners.zipIdx (p.ownAll (firstParts k blob))

/-- The process an adoption leaves. -/
def adopted (k : Kernel) (blob : Handover) (p : Process) : Process :=
  (found k blob p).2.foldl (rebindOne k) ((found k blob p).1.own blob.pidfileFd .pidfile)

theorem pidfileFd_mem : blob.pidfileFd ∈ blob.namedFds := by simp [Handover.namedFds]

theorem found_pidfile (h : Distinct blob) :
    (pidfilePart blob).Fits (found k blob p).1.table ↔ (pidfilePart blob).Fits p.table := by
  have hsame : (found k blob p).1.table[blob.pidfileFd]? = p.table[blob.pidfileFd]? := by
    rw [(frame_takeListeners _ blob.pidfileFd (h.apart _ pidfileFd_mem)).1, ownAll_table]
  simp only [Part.Fits, pidfilePart, hsame]

/-- **What an adoption asks, and what it answers.** -/
theorem adopt_eq_ok : adopt k blob p = .ok t ↔
    blob.carriedFds.Nodup ∧ (∀ part ∈ parts k blob, part.Fits p.table) ∧
      t = adopted k blob p := by
  rw [← refuseRepeatedFds_eq_ok, parts, List.forall_mem_append, List.forall_mem_singleton,
    List.forall_mem_cons]
  unfold adopt
  cases hrepeat : refuseRepeatedFds blob with
  | error refusal => simp [bind, Except.bind]
  | ok u =>
    have hdistinct := distinct_iff.2 (refuseRepeatedFds_eq_ok.1 hrepeat)
    simp only [bind, Except.bind, true_and]
    cases hlistener : adoptListener k blob.listenerFd p with
    | error refusal =>
      simp only [reduceCtorEq, false_iff]
      rintro ⟨⟨⟨hfits, -⟩, -⟩, -⟩
      rw [(adoptListener_adopts blob.listenerFd p _).2 ⟨hfits, rfl⟩] at hlistener
      cases hlistener
    | ok q =>
      obtain ⟨hfitsListener, rfl⟩ := (adoptListener_adopts _ _ _).1 hlistener
      simp only
      cases hsheep : blob.sheep.zipIdx.foldlM (fun p carried =>
          adoptSheep k carried.2 carried.1 p) (p.own blob.listenerFd .controlListener) with
      | error refusal =>
        simp only [reduceCtorEq, false_iff]
        rintro ⟨⟨⟨-, hfits⟩, -⟩, -⟩
        have hok := (adoptFlock_eq_ok (p := p.own blob.listenerFd .controlListener)).2 ⟨hfits, rfl⟩
        rw [hsheep] at hok
        cases hok
      | ok q =>
        obtain ⟨hfitsSheep, rfl⟩ := adoptFlock_eq_ok.1 hsheep
        change Except.bind (adoptPidfile blob.pidfileFd (found k blob p).1) _ = _ ↔ _
        cases hpidfile : adoptPidfile blob.pidfileFd (found k blob p).1 with
        | error refusal =>
          simp only [Except.bind, reduceCtorEq, false_iff]
          rintro ⟨⟨-, hfits⟩, -⟩
          have hfits' := (found_pidfile (k := k) hdistinct).2 hfits
          have hok := (adoptPidfile_adopts _ _ _).2 ⟨hfits', rfl⟩
          rw [hpidfile] at hok
          cases hok
        | ok r =>
          obtain ⟨hfits, rfl⟩ := (adoptPidfile_adopts _ _ _).1 hpidfile
          have hfitsPidfile := (found_pidfile hdistinct).1 hfits
          constructor
          · intro h
            exact ⟨⟨⟨hfitsListener, hfitsSheep⟩, hfitsPidfile⟩, (Except.ok.inj h).symm⟩
          · rintro ⟨-, rfl⟩
            rfl

/-! ## What an adoption leaves -/

/-- Every handle of a successor past its adoption. A `listen` socket that is
not bound as the blob says is replaced: its number is closed, and a fresh
bind may be handed it. -/
structure Adopted (k : Kernel) (blob : Handover) (s t : Process) : Prop where
  /-- No number has two owners, and none is owned and closed. -/
  sound : t.Sound
  /-- Every number the blob names has one owner, and is what it was. -/
  once : ∀ fd ∈ blob.namedFds, (t.ownersOf fd).length = 1 ∧ t.table[fd]? = s.table[fd]?
  /-- That owner is the handle it was named for. -/
  named : ∀ part ∈ parts k blob, t.ownersOf part.fd = [part.owner]
  /-- A `listen` socket has its own handle, where it is one. -/
  listening : ∀ socket ∈ blob.listeners.zipIdx, ∀ kind, s.table[socket.1.fd]? = some kind →
    usable k socket.1 kind = true →
      t.ownersOf socket.1.fd = [.listen socket.2] ∧ t.table[socket.1.fd]? = some kind
  /-- What the successor has opened itself is left to it. -/
  elsewhere : ∀ fd ∉ blob.carriedFds, (s.table[fd]?).isSome = true →
    t.table[fd]? = s.table[fd]? ∧ t.ownersOf fd = s.ownersOf fd
  /-- A number that was free, or became so, is owned by a replacement
  only. -/
  fresh : ∀ fd : ℤ, (s.table[fd]? = none ∨ ∃ socket ∈ blob.listeners.zipIdx, socket.1.fd = fd ∧
      ∀ kind, s.table[fd]? = some kind → usable k socket.1 kind = false) →
    ∀ owner ∈ t.ownersOf fd, ∃ socket ∈ blob.listeners.zipIdx, owner = .listen socket.2 ∧
      ∀ kind, s.table[socket.1.fd]? = some kind → usable k socket.1 kind = false

theorem mem_carriedFds_of_mem {socket : CarriedListener × ℕ}
    (h : socket ∈ blob.listeners.zipIdx) : socket.1.fd ∈ blob.carriedFds := by
  refine List.mem_append_right _ (List.mem_map_of_mem ?_)
  rw [← List.zipIdx_map_fst 0 blob.listeners]
  exact List.mem_map_of_mem h

/-- What an adoption finds: the numbers of the blob, open and each another,
and no handle of any. -/
structure Ready (blob : Handover) (s : Process) : Prop where
  nodup : blob.carriedFds.Nodup
  sound : s.Sound
  isOpen : ∀ fd ∈ blob.carriedFds, RESERVED_FD_FLOOR ≤ fd ∧ (s.table[fd]?).isSome = true
  unowned : ∀ fd ∈ blob.carriedFds, s.ownersOf fd = []
  claimed : ∀ socket ∈ blob.listeners.zipIdx, socket.1.unclaimed = false

/-- The process once the `listen` sockets are taken, and which were. -/
structure Halfway (k : Kernel) (blob : Handover) (s t : Process)
    (taken : List ((CarriedListener × ℕ) × Bool)) : Prop where
  sound : t.Sound
  same : ∀ fd ∈ blob.namedFds, t.table[fd]? = s.table[fd]?
  owned : ∀ part ∈ firstParts k blob, t.ownersOf part.fd = [part.owner]
  pidfile : t.ownersOf blob.pidfileFd = []
  listening : ∀ socket ∈ blob.listeners.zipIdx, ∀ kind, s.table[socket.1.fd]? = some kind →
    if usable k socket.1 kind = true then
      t.ownersOf socket.1.fd = [.listen socket.2] ∧ t.table[socket.1.fd]? = some kind
    else t.table[socket.1.fd]? = none
  elsewhere : ∀ fd ∉ blob.carriedFds, t.table[fd]? = s.table[fd]? ∧ t.ownersOf fd = s.ownersOf fd
  untaken : ∀ entry ∈ taken, entry.2 = false → entry.1 ∈ blob.listeners.zipIdx ∧
    ∀ kind, s.table[entry.1.1.fd]? = some kind → usable k entry.1.1 kind = false

theorem firstPart_mem {part : Part} (h : part ∈ firstParts k blob) :
    part.fd ∈ blob.namedFds := by
  rw [← (parts_perm k blob).mem_iff]
  exact List.mem_map_of_mem (List.mem_append_left _ h)

theorem firstParts_nodup (h : Distinct blob) : ((firstParts k blob).map Part.fd).Nodup ∧
    blob.pidfileFd ∉ (firstParts k blob).map Part.fd := by
  have hnodup : ((firstParts k blob ++ [pidfilePart blob]).map Part.fd).Nodup :=
    (parts_perm k blob).nodup_iff.2 h.named
  rw [List.map_append, List.nodup_append'] at hnodup
  exact ⟨hnodup.1, fun hin => hnodup.2.2 hin (by simp [pidfilePart])⟩

/-- **The first parts are owned, and the `listen` sockets owned or closed.** -/
theorem Ready.halfway (h : Ready blob s) (k : Kernel) :
    Halfway k blob s (found k blob s).1 (found k blob s).2 := by
  have hdistinct := distinct_iff.2 h.nodup
  obtain ⟨hnodup, hpidfile⟩ := firstParts_nodup (k := k) hdistinct
  have hmem : ∀ fd ∈ blob.namedFds, fd ∈ blob.carriedFds := fun fd => List.mem_append_left _
  obtain ⟨hsound, hframe, hown⟩ := ownAll_spec h.sound hnodup
    (fun part hin => h.unowned _ (hmem _ (firstPart_mem hin)))
    (fun part hin => (h.isOpen _ (hmem _ (firstPart_mem hin))).2)
  have hlater := frame_takeListeners (k := k) (p := s.ownAll (firstParts k blob))
    blob.listeners.zipIdx
  have hlisten : ∀ socket ∈ blob.listeners.zipIdx,
      socket.1.fd ∉ (firstParts k blob).map Part.fd := by
    intro socket hin hfirst
    obtain ⟨part, hpart, heq⟩ := List.mem_map.1 hfirst
    exact hdistinct.apart _ (firstPart_mem hpart) (heq ▸ List.mem_map_of_mem
      (f := fun socket : CarriedListener × ℕ => socket.1.fd) hin)
  obtain ⟨hsound', htaken, hverdict⟩ := takeListeners_spec (k := k) hsound
    { nodup := hdistinct.listening
      claimed := h.claimed
      floor := fun socket hin => (h.isOpen _ (mem_carriedFds_of_mem hin)).1
      unowned := fun socket hin => by
        rw [(hframe _ (hlisten socket hin)).2]
        exact h.unowned _ (mem_carriedFds_of_mem hin)
      isOpen := fun socket hin => by
        rw [ownAll_table]
        exact (h.isOpen _ (mem_carriedFds_of_mem hin)).2 }
  refine ⟨hsound', fun fd hfd => ?_, fun part hin => ?_, ?_, fun socket hin kind hkind => ?_,
    fun fd hfd => ?_, fun entry hin hout => ?_⟩
  · rw [(hlater fd (hdistinct.apart fd hfd)).1, ownAll_table]
  · rw [(hlater _ (hdistinct.apart _ (firstPart_mem hin))).2]
    exact hown part hin
  · rw [(hlater _ (hdistinct.apart _ pidfileFd_mem)).2, (hframe _ hpidfile).2]
    exact h.unowned _ (hmem _ pidfileFd_mem)
  · exact htaken socket hin kind (by rwa [ownAll_table])
  · have hout := hlater fd fun hin => by
      obtain ⟨socket, hsocket, rfl⟩ := List.mem_map.1 hin
      exact hfd (mem_carriedFds_of_mem hsocket)
    have hfirst := hframe fd fun hin => by
      obtain ⟨part, hpart, rfl⟩ := List.mem_map.1 hin
      exact hfd (hmem _ (firstPart_mem hpart))
    exact ⟨hout.1.trans hfirst.1, hout.2.trans hfirst.2⟩
  · obtain ⟨hsocket, hkinds⟩ := hverdict entry hin
    refine ⟨hsocket, fun kind hkind => ?_⟩
    rw [← hkinds kind (by rwa [ownAll_table]), hout]

/-- **What an adoption leaves.** -/
theorem Ready.adopted (h : Ready blob s) (k : Kernel) : Adopted k blob s (adopted k blob s) := by
  have hhalf := h.halfway k
  have hmem : ∀ fd ∈ blob.namedFds, fd ∈ blob.carriedFds := fun fd => List.mem_append_left _
  have hdistinct := distinct_iff.2 h.nodup
  obtain ⟨-, hpidfile⟩ := firstParts_nodup (k := k) hdistinct
  obtain ⟨kind, hkind⟩ := Option.isSome_iff_exists.1 (h.isOpen _ (hmem _ pidfileFd_mem)).2
  have hsound : ((found k blob s).1.own blob.pidfileFd .pidfile).Sound :=
    hhalf.sound.own hhalf.pidfile ((hhalf.same _ pidfileFd_mem).trans hkind)
  obtain ⟨hlast, hkept, hnew⟩ := rebind_spec (k := k) (found k blob s).2 hsound
  change Adopted k blob s ((found k blob s).2.foldl (rebindOne k)
    ((found k blob s).1.own blob.pidfileFd .pidfile))
  simp only [own_table, ownersOf_own] at hkept hnew
  have hnamed : ∀ fd ∈ blob.namedFds, ((found k blob s).1.table[fd]?).isSome = true := by
    intro fd hfd
    rw [hhalf.same fd hfd]
    exact (h.isOpen fd (hmem fd hfd)).2
  have howner : ∀ part ∈ parts k blob, ((found k blob s).2.foldl (rebindOne k)
      ((found k blob s).1.own blob.pidfileFd .pidfile)).ownersOf part.fd = [part.owner] := by
    intro part hin
    rcases List.mem_append.1 hin with hin | hin
    · have hne : part.fd ≠ blob.pidfileFd := fun heq =>
        hpidfile (heq ▸ List.mem_map_of_mem hin)
      rw [(hkept _ (hnamed _ (firstPart_mem hin))).2, if_neg hne, hhalf.owned part hin]
    · obtain rfl := List.mem_singleton.1 hin
      exact (hkept _ (hnamed _ pidfileFd_mem)).2.trans (by rw [if_pos rfl, hhalf.pidfile]; rfl)
  refine ⟨hlast, fun fd hfd => ?_, howner, fun socket hin kind hkind husable => ?_,
    fun fd hfd hsome => ?_, fun fd hfd owner howner => ?_⟩
  · obtain ⟨part, hin, rfl⟩ := List.mem_map.1 ((parts_perm k blob).mem_iff.2 hfd)
    rw [howner part hin]
    exact ⟨rfl, (hkept _ (hnamed _ hfd)).1.trans (hhalf.same _ hfd)⟩
  · have hne : socket.1.fd ≠ blob.pidfileFd := fun heq => hdistinct.apart _ pidfileFd_mem
      (heq ▸ List.mem_map_of_mem (f := fun socket : CarriedListener × ℕ => socket.1.fd) hin)
    have hone := hhalf.listening socket hin kind hkind
    rw [if_pos husable] at hone
    have hkeep := hkept socket.1.fd (by rw [hone.2, Option.isSome_some])
    rw [if_neg hne, hone.1, hone.2] at hkeep
    exact ⟨hkeep.2, hkeep.1⟩
  · have hne : fd ≠ blob.pidfileFd := fun heq => hfd (heq ▸ hmem _ pidfileFd_mem)
    obtain ⟨htable, howners⟩ := hhalf.elsewhere fd hfd
    have hkeep := hkept fd (by rw [htable, hsome])
    rw [if_neg hne, htable, howners] at hkeep
    exact hkeep
  · have hclosed : (found k blob s).1.table[fd]? = none := by
      rcases hfd with hnone | ⟨socket, hin, rfl, hunusable⟩
      · rw [(hhalf.elsewhere fd fun hin => ?_).1, hnone]
        have := (h.isOpen fd hin).2
        rw [hnone] at this
        cases this
      · obtain ⟨kind, hkind⟩ :=
          Option.isSome_iff_exists.1 (h.isOpen _ (mem_carriedFds_of_mem hin)).2
        have hone := hhalf.listening socket hin kind hkind
        rwa [if_neg (by rw [hunusable kind hkind]; decide)] at hone
    obtain ⟨entry, hin, hout, rfl⟩ := hnew fd owner hclosed howner
    obtain ⟨hsocket, hunusable⟩ := hhalf.untaken entry hin hout
    exact ⟨entry.1, hsocket, rfl, hunusable⟩

/-! ## Agreement -/

theorem fits_congr (h : ∀ fd ∈ blob.namedFds, s.table[fd]? = p.table[fd]?) {part : Part}
    (hin : part ∈ parts k blob) : part.Fits s.table ↔ part.Fits p.table := by
  have hsame := h part.fd ((parts_perm k blob).mem_iff.1 (List.mem_map_of_mem hin))
  simp only [Part.Fits, hsame]

theorem adopt_written : (∃ t, adopt k blob.written s = .ok t) ↔
    blob.carriedFds.Nodup ∧ ∀ part ∈ parts k blob, part.Fits s.table := by
  simp only [adopt_eq_ok, carriedFds_written, parts_written]
  exact ⟨fun ⟨t, hnodup, hfits, _⟩ => ⟨hnodup, hfits⟩, fun h => ⟨_, h.1, h.2, rfl⟩⟩

theorem refused_iff {ε α : Type} {x : Except ε α} :
    (∃ err, x = .error err) ↔ ¬ ∃ a, x = .ok a := by
  cases x <;> simp

/-- A successor of a rehearsed handover finds its blob's numbers as an
adoption wants them. -/
theorem Inherits.ready (h : Inherits p arrival s) (hcarried : handOver blob p = .ok arrival) :
    Ready blob.written s := by
  obtain ⟨hnodup, hopen, -, hkeys, -⟩ := handOver_eq_ok hcarried
  refine ⟨by rwa [carriedFds_written], h.sound, ?_, ?_, fun socket hin => ?_⟩
  · rw [carriedFds_written]
    intro fd hfd
    rw [h.carried fd.repr fd (hkeys fd hfd)]
    exact hopen fd hfd
  · rw [carriedFds_written]
    exact fun fd hfd => h.unowned fd.repr fd (hkeys fd hfd)
  · have hsocket := List.mem_map_of_mem (f := Prod.fst) hin
    rw [List.zipIdx_map_fst] at hsocket
    obtain ⟨socket', -, heq⟩ := List.mem_map.1 hsocket
    rw [← heq]

/-- **The rehearsal agrees with the adoption.** It leaves the predecessor as
it was. Where it passes a blob and the handover carries it, the successor's
claim hands the blob back and its adoption takes every number. Where the
adoption would refuse a blob in a table that has the blob's numbers as the
predecessor's has, the rehearsal refuses it; and the rehearsal refuses only
those, a version no successor reads, and a number it cannot duplicate. -/
theorem rehearsal_agrees (k : Kernel) (blob : Handover) (p : Process) :
    (dryRun k blob p).2 = p ∧
    (∀ arrival s, (dryRun k blob p).1 = .ok () → handOver blob p = .ok arrival →
      Inherits p arrival s → claim arrival s = (.ok blob.written, s) ∧
        ∃ t, adopt k blob.written s = .ok t ∧ Adopted k blob.written s t) ∧
    ∀ s : Process, (∀ fd ∈ blob.namedFds, s.table[fd]? = p.table[fd]?) →
      ((∃ refusal, adopt k blob.written s = .error refusal) →
        ∃ refusal, (dryRun k blob p).1 = .error refusal) ∧
      ((∃ refusal, (dryRun k blob p).1 = .error refusal) →
        (∃ refusal, adopt k blob.written s = .error refusal) ∨
          readsVersion blob.version = false ∨
          ∃ fd ∈ blob.namedFds, k.duplicate p fd = none) := by
  refine ⟨dryRun_eq k blob p, fun arrival s hrun hcarried hinherits => ?_, fun s hsame => ?_⟩
  · obtain ⟨hversion, hnodup, hfits⟩ := dryRun_eq_ok.1 hrun
    obtain ⟨-, -, -, hkeys, -⟩ := handOver_eq_ok hcarried
    refine ⟨claim_eq hversion hcarried s, adopted k blob.written s, adopt_eq_ok.2
      ⟨by rwa [carriedFds_written], fun part hin => ?_, rfl⟩, (hinherits.ready hcarried).adopted k⟩
    refine (fits_congr (fun fd hfd => ?_) hin).2 (hfits part hin).1
    exact hinherits.carried fd.repr fd (hkeys fd (List.mem_append_left _ hfd))
  · have hparts : (∀ part ∈ parts k blob, part.Fits s.table) ↔
        ∀ part ∈ parts k blob, part.Fits p.table :=
      forall₂_congr fun part hin => fits_congr hsame hin
    have hrun : (∃ u, (dryRun k blob p).1 = .ok u) ↔ (dryRun k blob p).1 = .ok () :=
      ⟨fun ⟨_, hu⟩ => hu, fun hu => ⟨(), hu⟩⟩
    rw [refused_iff, refused_iff, adopt_written, hparts, hrun, dryRun_eq_ok]
    constructor
    · rintro hrefused ⟨-, hnodup, hfits⟩
      exact hrefused ⟨hnodup, fun part hin => (hfits part hin).1⟩
    · intro hrefused
      by_contra hother
      push Not at hother
      obtain ⟨⟨hnodup, hfits⟩, hversion, hdup⟩ := hother
      refine hrefused ⟨by simpa using hversion, hnodup, fun part hin => ⟨hfits part hin, ?_⟩⟩
      rw [Option.isSome_iff_ne_none]
      exact hdup part.fd ((parts_perm k blob).mem_iff.1 (List.mem_map_of_mem hin))

/-- The lowest free number of a small table. -/
def lowestFree (p : Process) : Option ℤ :=
  ((List.range 64).map fun i : ℕ => RESERVED_FD_FLOOR + i).find? fun fd => p.table[fd]?.isNone

theorem lowestFree_free {p : Process} {fd : ℤ} (h : lowestFree p = some fd) :
    3 ≤ fd ∧ p.table[fd]? = none := by
  refine ⟨?_, by simpa using List.find?_some h⟩
  obtain ⟨i, -, rfl⟩ := List.mem_map.1 (List.mem_of_find?_eq_some h)
  simp only [RESERVED_FD_FLOOR]
  omega

/-- A kernel whose reactor takes no regular file. -/
def smallKernel : Kernel where
  registers kind := kind != .file
  parse text := if text = "127.0.0.1:80" then some ⟨.v4 2130706433, 80⟩ else none
  duplicate p _ := lowestFree p
  bind p address := (lowestFree p).map fun fd => (fd, address)
  duplicate_free _ _ _ h := lowestFree_free h
  bind_free p address fd bound h := by
    obtain ⟨found, hfound, heq⟩ := Option.map_eq_some_iff.1 h
    obtain ⟨rfl, -⟩ := Prod.mk.inj heq
    exact (lowestFree_free hfound).2

/-- A flock of one sheep, with a log, a pipe and a `listen` socket. -/
def smallBlob : Handover where
  version := 2
  sheep := [⟨"web", { outPipe := some 5, outLog := some 7 }⟩]
  listenerFd := 3
  pidfileFd := 4
  listeners := [{ sheep := "web", name := "http", address := "127.0.0.1:80", fd := 6 }]

/-- A shepherd that holds it, and a pipe of its own. -/
def smallShepherd : Process where
  table := .ofList [((3 : ℤ), FdKind.listening none), (4, .file), (5, .pipeRead),
    (6, .listening (some ⟨.v4 2130706433, 80⟩)), (7, .file), (8, .pipeWrite)]
  owners := []

/-- A small flock crosses. -/
theorem rehearsal_agrees_small : ∃ t, adopt smallKernel smallBlob smallShepherd = .ok t ∧
    Adopted smallKernel smallBlob smallShepherd t := by
  have hrun : (dryRun smallKernel smallBlob smallShepherd).1 = .ok () := by rfl
  refine ((rehearsal_agrees smallKernel smallBlob smallShepherd).2.1
    ⟨smallBlob, .ofList [("3", (3 : ℤ)), ("4", 4), ("5", 5), ("7", 7), ("6", 6)]⟩ smallShepherd
    hrun rfl
    ⟨fun _ _ _ => rfl, fun _ _ _ => rfl, fun _ => ?_, fun _ _ => rfl⟩).2
  exact Nat.zero_le 1

end Adoption

end Shep

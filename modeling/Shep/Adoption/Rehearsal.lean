import Shep.Adoption.Model

/-!
# Adoption — what the rehearsal and the adoption ask of a table

Both come to the same condition, a `Part` for each number: it is not
reserved, it is open, and it is of a kind its slot takes (`Part.Fits`).
`adopt` asks it of the numbers themselves (`adoptSheep_eq_ok`), `dryRun` of
duplicates, which leave nothing behind (`dryRun_eq`, `dryRun_eq_ok`).
-/

namespace Shep

namespace Adoption

variable {k : Kernel} {blob : Handover} {p p' : Process} {fd : ℤ} {owner : Owner}
variable {what : String}

/-! ## Repeats -/

theorem firstRepeat_eq_none {α : Type} [DecidableEq α] {seen l : List α} :
    firstRepeat seen l = none ↔ l.Nodup ∧ ∀ a ∈ l, a ∉ seen := by
  induction l generalizing seen with
  | nil => simp [firstRepeat]
  | cons a l ih =>
    rw [firstRepeat]
    split
    · next hseen => simp [hseen]
    · next hseen =>
      rw [ih, List.nodup_cons, List.forall_mem_cons]
      constructor
      · rintro ⟨hnodup, hout⟩
        refine ⟨⟨fun ha => hout a ha List.mem_cons_self, hnodup⟩, hseen, fun b hb hin => ?_⟩
        exact hout b hb (List.mem_cons_of_mem a hin)
      · rintro ⟨⟨hfirst, hnodup⟩, -, hout⟩
        refine ⟨hnodup, fun b hb hin => ?_⟩
        rcases List.mem_cons.1 hin with rfl | hin
        · exact hfirst hb
        · exact hout b hb hin

theorem refuseRepeatedFds_eq_ok : refuseRepeatedFds blob = .ok () ↔ blob.carriedFds.Nodup := by
  unfold refuseRepeatedFds
  cases hrepeat : firstRepeat [] blob.carriedFds with
  | none =>
    have := firstRepeat_eq_none.1 hrepeat
    simp [this.1]
  | some fd =>
    have : ¬ blob.carriedFds.Nodup := fun hnodup => by
      have := firstRepeat_eq_none.2 ⟨hnodup, fun a _ => List.not_mem_nil⟩
      rw [hrepeat] at this
      cases this
    simp [this]

/-! ## Parts -/

/-- One number of a blob, with the handle to build and the kinds it takes. -/
structure Part where
  fd : ℤ
  owner : Owner
  accepts : FdKind → Bool

/-- A table has the number of a part, open, and of a kind it takes. -/
def Part.Fits (part : Part) (table : Std.ExtTreeMap ℤ FdKind) : Prop :=
  RESERVED_FD_FLOOR ≤ part.fd ∧
    ∃ kind, table[part.fd]? = some kind ∧ part.accepts kind = true

/-- Handles built around the numbers of parts. -/
def Process.ownAll (p : Process) (parts : List Part) : Process :=
  parts.foldl (fun p part => p.own part.fd part.owner) p

@[simp] theorem own_table : (p.own fd owner).table = p.table := rfl

@[simp] theorem ownAll_table (parts : List Part) : (p.ownAll parts).table = p.table := by
  induction parts generalizing p with
  | nil => rfl
  | cons part parts ih => exact ih

theorem ownAll_append (parts parts' : List Part) :
    p.ownAll (parts ++ parts') = (p.ownAll parts).ownAll parts' := List.foldl_append

/-- What an adoption does: it builds the handle where the part fits. -/
def Adopts (adoptOne : ℤ → Process → Except Refusal Process) (owner : Owner)
    (accepts : FdKind → Bool) : Prop :=
  ∀ fd p p', adoptOne fd p = .ok p' ↔
    Part.Fits ⟨fd, owner, accepts⟩ p.table ∧ p' = p.own fd owner

theorem adoptableFd_eq_ok {kind : FdKind} :
    adoptableFd fd p = .ok kind ↔ RESERVED_FD_FLOOR ≤ fd ∧ p.table[fd]? = some kind := by
  unfold adoptableFd
  split
  · next h => simp [Int.not_le.2 h]
  · next h =>
    have hfloor : RESERVED_FD_FLOOR ≤ fd := Int.not_lt.1 h
    cases hfd : p.table[fd]? <;> simp [hfloor]

theorem adoptAs_adopts {check : FdKind → Except Refusal Unit} {accepts : FdKind → Bool}
    (h : ∀ kind, check kind = .ok () ↔ accepts kind = true) :
    Adopts (adoptAs check what owner) owner accepts := by
  intro fd p p'
  unfold adoptAs adoptFd Part.Fits
  cases hfd : adoptableFd fd p with
  | error error =>
    simp only [bind, Except.bind, reduceCtorEq, false_iff]
    rintro ⟨⟨hfloor, kind, hkind, -⟩, -⟩
    rw [adoptableFd_eq_ok.2 ⟨hfloor, hkind⟩] at hfd
    cases hfd
  | ok kind =>
    obtain ⟨hfloor, hkind⟩ := adoptableFd_eq_ok.1 hfd
    cases hcheck : check kind with
    | error refusal =>
      have hno : accepts kind = false := by
        rw [← Bool.not_eq_true, ← h, hcheck]
        simp
      simp [bind, Except.bind, hcheck, hkind, hno]
    | ok u =>
      have hyes : accepts kind = true := (h kind).1 hcheck
      simp only [bind, Except.bind, pure, Except.pure, hcheck, Except.ok.injEq]
      constructor
      · rintro rfl
        exact ⟨⟨hfloor, kind, hkind, hyes⟩, rfl⟩
      · rintro ⟨-, rfl⟩
        rfl

theorem require_eq_ok {ok : Bool} {refusal : Refusal} :
    require ok refusal = .ok () ↔ ok = true := by
  unfold require
  split
  · next h => simp [h]
  · next h => simp [h]

theorem require_register_eq_ok {ok : Bool} {refusal : Refusal} {kind : FdKind} :
    (do require ok refusal; register k what kind) = .ok () ↔
      (ok && k.registers kind) = true := by
  cases ok
  · simp [require, bind, Except.bind]
  · simp [require, register, bind, Except.bind]

/-- The kinds a slot takes. -/
def SheepFd.accepts (k : Kernel) : SheepFd → FdKind → Bool
  | .outPipe, kind | .errPipe, kind => kind == .pipeRead && k.registers kind
  | .outLog, _ | .errLog, _ => true
  | .stdin, kind => kind == .pipeWrite && k.registers kind
  | .channel, kind | .dogLink, kind => kind == .connected .unix && k.registers kind
  | .pty, kind => kind == .terminal

theorem adoptListener_adopts : Adopts (adoptListener k) .controlListener k.registers :=
  adoptAs_adopts fun _ => require_eq_ok

theorem adoptPidfile_adopts : Adopts adoptPidfile .pidfile fun _ => true :=
  adoptAs_adopts fun _ => by simp

section Adopters

variable (owner : Owner) (sheep stream : String)

theorem adoptPipe_adopts : Adopts (fun fd => adoptPipe k owner (some fd) sheep stream) owner
    fun kind => kind == .pipeRead && k.registers kind := by
  unfold adoptPipe ifNamed
  exact adoptAs_adopts fun _ => require_register_eq_ok

theorem adoptStdin_adopts : Adopts (fun fd => adoptStdin k owner (some fd) sheep) owner
    fun kind => kind == .pipeWrite && k.registers kind := by
  unfold adoptStdin ifNamed
  exact adoptAs_adopts fun _ => require_register_eq_ok

theorem adoptLog_adopts : Adopts (fun fd => adoptLog owner (some fd) sheep stream) owner
    fun _ => true := by
  unfold adoptLog ifNamed
  exact adoptAs_adopts fun _ => by simp

theorem adoptConnected_adopts (what : String) :
    Adopts (fun fd => adoptConnected k owner (some fd) what) owner
      fun kind => kind == .connected .unix && k.registers kind := by
  unfold adoptConnected ifNamed
  exact adoptAs_adopts fun _ => require_register_eq_ok

theorem adoptPty_adopts : Adopts (fun fd => adoptPty owner (some fd) sheep) owner
    fun kind => kind == .terminal := by
  unfold adoptPty ifNamed
  exact adoptAs_adopts fun _ => require_eq_ok

end Adopters

/-- **What the rehearsal runs for a slot takes the slot's kinds.** -/
theorem adoptSlot_adopts (i : ℕ) (name : String) (slot : SheepFd) :
    Adopts (fun fd => adoptSlot k i name slot (some fd)) (.slot i slot) (slot.accepts k) := by
  cases slot with
  | outPipe => exact adoptPipe_adopts _ name "stdout"
  | errPipe => exact adoptPipe_adopts _ name "stderr"
  | outLog => exact adoptLog_adopts _ name "stdout"
  | errLog => exact adoptLog_adopts _ name "stderr"
  | stdin => exact adoptStdin_adopts _ name
  | channel => exact adoptConnected_adopts _ _
  | dogLink => exact adoptConnected_adopts _ _
  | pty => exact adoptPty_adopts _ name

theorem adoptSlot_none (i : ℕ) (name : String) (slot : SheepFd) :
    adoptSlot k i name slot none p = .ok p := by cases slot <;> rfl

/-- **The successor adopts a sheep's slots one by one, each as the rehearsal
runs it.** -/
theorem adoptSheep_eq (i : ℕ) (carried : CarriedSheep) :
    adoptSheep k i carried p = carried.fds.allKinded.foldlM
      (fun p slot => adoptSlot k i carried.name slot.2 slot.1 p) p := by
  simp only [CarriedFds.allKinded, List.foldlM_cons, List.foldlM_nil, adoptSlot, adoptSheep,
    bind_pure]

/-! ## The parts of a blob -/

/-- The part of a slot, if the blob names it. -/
def slotParts (k : Kernel) (i : ℕ) (slot : Option ℤ × SheepFd) : List Part :=
  slot.1.toList.map fun fd => ⟨fd, .slot i slot.2, slot.2.accepts k⟩

def sheepParts (k : Kernel) (carried : CarriedSheep × ℕ) : List Part :=
  carried.1.fds.allKinded.flatMap (slotParts k carried.2)

def listenerPart (k : Kernel) (blob : Handover) : Part :=
  ⟨blob.listenerFd, .controlListener, k.registers⟩

def pidfilePart (blob : Handover) : Part := ⟨blob.pidfileFd, .pidfile, fun _ => true⟩

/-- The parts of a blob, in the order they are adopted in. -/
def parts (k : Kernel) (blob : Handover) : List Part :=
  listenerPart k blob :: blob.sheep.zipIdx.flatMap (sheepParts k) ++ [pidfilePart blob]

/-- Adoptions in a row: all parts fit, and all handles are built. -/
theorem foldlM_adopt {ι : Type} {steps : List ι} {f : Process → ι → Except Refusal Process}
    {partsOf : ι → List Part}
    (h : ∀ i p p', f p i = .ok p' ↔
      (∀ part ∈ partsOf i, part.Fits p.table) ∧ p' = p.ownAll (partsOf i)) :
    steps.foldlM f p = .ok p' ↔
      (∀ part ∈ steps.flatMap partsOf, part.Fits p.table) ∧
        p' = p.ownAll (steps.flatMap partsOf) := by
  induction steps generalizing p with
  | nil => simp [pure, Except.pure, Process.ownAll, eq_comm]
  | cons i steps ih =>
    rw [List.foldlM_cons, List.flatMap_cons, List.forall_mem_append, ownAll_append]
    cases hstep : f p i with
    | error refusal =>
      simp only [bind, Except.bind, reduceCtorEq, false_iff]
      rintro ⟨⟨hfits, -⟩, -⟩
      rw [(h i p _).2 ⟨hfits, rfl⟩] at hstep
      cases hstep
    | ok q =>
      obtain ⟨hfits, rfl⟩ := (h i p q).1 hstep
      change steps.foldlM f _ = _ ↔ _
      rw [ih, ownAll_table]
      exact ⟨fun hrest => ⟨⟨hfits, hrest.1⟩, hrest.2⟩, fun hrest => ⟨hrest.1.2, hrest.2⟩⟩

theorem adoptSheep_eq_ok {i : ℕ} {carried : CarriedSheep} :
    adoptSheep k i carried p = .ok p' ↔
      (∀ part ∈ sheepParts k (carried, i), part.Fits p.table) ∧
        p' = p.ownAll (sheepParts k (carried, i)) := by
  rw [adoptSheep_eq]
  refine foldlM_adopt fun slot p p' => ?_
  obtain ⟨fd, slot⟩ := slot
  cases fd with
  | none => simp [adoptSlot_none, slotParts, Process.ownAll, eq_comm]
  | some fd => simpa [slotParts, Process.ownAll] using adoptSlot_adopts i carried.name slot fd p p'

/-! ## The rehearsal -/

/-- A rehearsal leaves nothing behind, and passes where the part fits. -/
theorem rehearse_spec {adoptOne : ℤ → Process → Except Refusal Process}
    {accepts : FdKind → Bool} (h : Adopts adoptOne owner accepts) (k : Kernel) (fd : ℤ)
    (what : String) (p : Process) :
    (rehearse k fd what owner adoptOne p).2 = p ∧
      ((rehearse k fd what owner adoptOne p).1 = .ok () ↔
        Part.Fits ⟨fd, owner, accepts⟩ p.table ∧ (k.duplicate p fd).isSome = true) := by
  unfold rehearse Part.Fits
  cases hfd : adoptableFd fd p with
  | error error =>
    refine ⟨rfl, ?_⟩
    simp only [reduceCtorEq, false_iff]
    rintro ⟨⟨hfloor, kind, hkind, -⟩, -⟩
    rw [adoptableFd_eq_ok.2 ⟨hfloor, hkind⟩] at hfd
    cases hfd
  | ok kind =>
    obtain ⟨hfloor, hkind⟩ := adoptableFd_eq_ok.1 hfd
    cases hdup : k.duplicate p fd with
    | none => simp
    | some dup =>
      obtain ⟨hdupFloor, hfree⟩ := k.duplicate_free p fd dup hdup
      have htable : (p.table.insert dup kind).erase dup = p.table := by
        rw [Table.erase_insert, Table.erase_self hfree]
      cases hadopt : adoptOne dup (p.opened dup kind) with
      | error refusal =>
        simp only [hadopt, reduceCtorEq, false_iff]
        refine ⟨by simp [Process.close, Process.opened, htable], ?_⟩
        simp only [hkind, Option.some.injEq]
        rintro ⟨⟨-, kind', rfl, haccepts⟩, -⟩
        have hfits : Part.Fits ⟨dup, owner, accepts⟩ (p.opened dup kind).table :=
          ⟨hdupFloor, kind, by simp [Process.opened], haccepts⟩
        rw [(h dup _ _).2 ⟨hfits, rfl⟩] at hadopt
        cases hadopt
      | ok q =>
        obtain ⟨⟨-, kind', hkind', haccepts⟩, rfl⟩ := (h dup _ _).1 hadopt
        obtain rfl : kind = kind' := by simpa [Process.opened] using hkind'
        simp only [hadopt]
        refine ⟨by simp [Process.drop, Process.own, Process.opened, htable], ?_⟩
        simpa [hkind, hfloor] using haccepts

theorem inTurn_spec {looks : List Look} (h : ∀ look ∈ looks, (look p).2 = p) :
    (inTurn looks p).2 = p ∧
      ((inTurn looks p).1 = .ok () ↔ ∀ look ∈ looks, (look p).1 = .ok ()) := by
  induction looks with
  | nil => simp [inTurn]
  | cons look looks ih =>
    obtain ⟨hlook, hlooks⟩ := List.forall_mem_cons.1 h
    rw [List.forall_mem_cons]
    unfold inTurn
    cases hres : look p with
    | mk verdict q =>
      obtain rfl : q = p := by simpa [hres] using hlook
      cases verdict with
      | error refusal => simp
      | ok u => simpa using ih hlooks

/-- What a look at a part comes to. -/
def Looks (k : Kernel) (p : Process) (look : Look) (parts : List Part) : Prop :=
  (look p).2 = p ∧ ((look p).1 = .ok () ↔
    ∀ part ∈ parts, part.Fits p.table ∧ (k.duplicate p part.fd).isSome = true)

theorem rehearseSlot_looks (i : ℕ) (name : String) (slot : Option ℤ × SheepFd) :
    Looks k p (rehearseSlot k i name slot) (slotParts k i slot) := by
  obtain ⟨fd, slot⟩ := slot
  cases fd with
  | none => exact ⟨rfl, by simp [rehearseSlot, slotParts]⟩
  | some fd =>
    obtain ⟨hsame, hok⟩ := rehearse_spec (adoptSlot_adopts i name slot) k fd
      ("sheep '" ++ name ++ "' " ++ slot.describe) p
    exact ⟨hsame, by simpa [rehearseSlot, slotParts] using hok⟩

theorem looks_spec : (∀ look ∈ looks k blob, (look p).2 = p) ∧
    ((∀ look ∈ looks k blob, (look p).1 = .ok ()) ↔ ∀ part ∈ parts k blob,
      part.Fits p.table ∧ (k.duplicate p part.fd).isSome = true) := by
  obtain ⟨hlistener, hlistenerOk⟩ :=
    rehearse_spec adoptListener_adopts k blob.listenerFd "the control listener" p
  obtain ⟨hpidfile, hpidfileOk⟩ :=
    rehearse_spec adoptPidfile_adopts k blob.pidfileFd "the pidfile lock" p
  constructor
  · simp only [looks, List.forall_mem_append, List.forall_mem_singleton, List.forall_mem_flatMap,
      List.forall_mem_map]
    exact ⟨⟨hlistener, fun carried _ slot _ => (rehearseSlot_looks _ _ slot).1⟩, hpidfile⟩
  · simp only [looks, parts, List.forall_mem_append, List.forall_mem_singleton,
      List.forall_mem_flatMap, List.forall_mem_map, List.forall_mem_cons, sheepParts,
      (rehearseSlot_looks _ _ _).2, hlistenerOk, hpidfileOk]
    rfl

theorem parts_written : parts k blob.written = parts k blob := rfl

theorem carriedFds_written : blob.written.carriedFds = blob.carriedFds := by
  simp [Handover.carriedFds, Handover.written, Handover.namedFds, Function.comp_def]

/-- **A rehearsal leaves the predecessor as it was.** -/
theorem dryRun_eq (k : Kernel) (blob : Handover) (p : Process) : (dryRun k blob p).2 = p := by
  unfold dryRun
  split
  · rfl
  · split
    · rfl
    · exact (inTurn_spec looks_spec.1).1

/-- **What a rehearsal passes.** -/
theorem dryRun_eq_ok : (dryRun k blob p).1 = .ok () ↔
    readsVersion blob.version = true ∧ blob.carriedFds.Nodup ∧ ∀ part ∈ parts k blob,
      part.Fits p.table ∧ (k.duplicate p part.fd).isSome = true := by
  unfold dryRun reread
  cases readsVersion blob.version with
  | false => simp
  | true =>
    simp only [if_true, true_and]
    cases hrepeat : refuseRepeatedFds blob.written with
    | error refusal =>
      have : ¬ blob.carriedFds.Nodup := fun hnodup => by
        rw [← carriedFds_written, ← refuseRepeatedFds_eq_ok, hrepeat] at hnodup
        cases hnodup
      simp [this]
    | ok u =>
      have hnodup : blob.carriedFds.Nodup := by
        rw [← carriedFds_written, ← refuseRepeatedFds_eq_ok, hrepeat]
      simp only [hnodup, true_and]
      rw [(inTurn_spec looks_spec.1).2, looks_spec.2, parts_written]

end Adoption

end Shep

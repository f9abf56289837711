import Mathlib.Data.List.Perm.Subperm
import Shep.Bus.Model

/-!
# Bus — what a subscriber hears

`Traffic.Change` and `Forwarder.Move` say what a step may do, and `Sound` is
what every step keeps. A forwarder's receipts account for the whole of the
bus's history since it began to read, its frames are those receipts made
save at most the one it ended with (`delivery_accounted`), and the gate on
log lines turns none away that a subscriber was there for
(`log_line_heard`).
-/

namespace Shep

namespace Bus

open Broadcast (Accounts Received)

variable {G : Globset} {Info Json Bytes : Type} {wire : SharedEvent Info Json → Option Bytes}

/-! ## What a step may do -/

section Moves

variable (wire : SharedEvent Info Json → Option Bytes)

/-- What a forwarder may do. -/
inductive Forwarder.Move (s : Traffic G Info Json Bytes) (f : Forwarder G Info Json Bytes) :
    Forwarder G Info Json Bytes → Prop
  | subscribe : f.stage = .registered → f.Move s
      { f with
        stage := .receiving
        next := s.ring.sent
        since := s.history.length
        askedAt := s.asked.length }
  | recv {x : Received (SharedEvent Info Json)} {next : ℕ} : f.stage = .receiving →
      s.ring.recv f.next = some (x, next) → f.Move s (f.receive wire s.known x next)
  | push {frame : Bytes} : f.stage = .sending frame → f.Move s
      { f with stage := .receiving, pushed := f.pushed ++ [frame] }
  | stop : f.stage.isRegistered = false → f.stage.isEnded = false → f.Move s
      { f with stage := .ended }

/-- What a step may do. -/
inductive Traffic.Change (s : Traffic G Info Json Bytes) : Traffic G Info Json Bytes → Prop
  | send (event : SharedEvent Info Json) : event.isLog = false → s.Change (s.send event)
  | unheard {event : SharedEvent Info Json} : event.isLog = true → s.logSubscribers = 0 →
      s.Change { s with asked := s.asked ++ [event] }
  | heard {event : SharedEvent Info Json} : event.isLog = true → s.Change
      { s with asked := s.asked ++ [event], publishing := s.publishing ++ [event] }
  | sendLog {k : ℕ} {event : SharedEvent Info Json} : s.publishing[k]? = some event → s.Change
      { s.send event with publishing := s.publishing.eraseIdx k }
  | record (known : Gate.KnownDogs) : s.Change { s with known }
  | register {link : Link} {patterns : List Topic} {filter : TopicFilter G} :
      link.admits patterns = true → TopicFilter.new G patterns = .ok filter → s.Change
        { s with
          forwarders := s.forwarders ++ [{ link, filter := link.narrow filter }]
          logSubscribers := s.logSubscribers +
            ({ link, filter := link.narrow filter } : Forwarder G Info Json Bytes).interest }
  | move {i : ℕ} {f f' : Forwarder G Info Json Bytes} : s.forwarders[i]? = some f →
      f.Move wire s f' → s.Change (s.put i f')
  | close : s.Change { s with closed := true }

end Moves

variable {s t : Traffic G Info Json Bytes} {e : Event Info Json}
  {h : List (Traffic G Info Json Bytes × Event Info Json)}
  {f f' : Forwarder G Info Json Bytes} {i : ℕ}

/-- Every step is one of them. -/
theorem Traffic.change_of_step (hstep : s.step wire e = some t) : s.Change wire t := by
  cases e with
  | send event =>
    obtain ⟨hlog, rfl⟩ : event.isLog = false ∧ s.send event = t := by
      simp only [step, Option.ite_none_left_eq_some, Bool.or_eq_true, not_or,
        Bool.not_eq_true, Option.some.injEq] at hstep
      exact ⟨hstep.1.2, hstep.2⟩
    exact .send event hlog
  | publishLog event =>
    simp only [step, Option.ite_none_left_eq_some, Bool.or_eq_true, not_or, Bool.not_eq_true,
      Bool.not_eq_false'] at hstep
    obtain ⟨⟨-, hlog⟩, hstep⟩ := hstep
    split at hstep
    case isTrue hzero => exact Option.some.inj hstep ▸ .unheard hlog hzero
    case isFalse => exact Option.some.inj hstep ▸ .heard hlog
  | sendLog k =>
    obtain ⟨event, hk, rfl⟩ := Option.map_eq_some_iff.1 hstep
    exact .sendLog hk
  | record known => exact Option.some.inj hstep ▸ .record known
  | register link patterns =>
    simp only [step, Option.ite_none_left_eq_some, Bool.or_eq_true, not_or, Bool.not_eq_true,
      Bool.not_eq_false'] at hstep
    obtain ⟨⟨-, hadmits⟩, hstep⟩ := hstep
    split at hstep
    case h_1 => cases hstep
    case h_2 filter hnew => exact Option.some.inj hstep ▸ .register hadmits hnew
  | subscribe i =>
    obtain ⟨f, hi, hstep⟩ := Option.bind_eq_some_iff.1 hstep
    split at hstep
    case h_1 hstage => exact Option.some.inj hstep ▸ .move hi (.subscribe hstage)
    all_goals cases hstep
  | recv i =>
    obtain ⟨f, hi, hstep⟩ := Option.bind_eq_some_iff.1 hstep
    split at hstep
    case h_1 hstage =>
      split at hstep
      case h_1 hrecv => exact Option.some.inj hstep ▸ .move hi (.recv hstage hrecv)
      case h_2 =>
        obtain ⟨-, hstep⟩ := Option.ite_none_right_eq_some.1 hstep
        exact Option.some.inj hstep ▸ .move hi (.stop (by rw [hstage]; rfl) (by rw [hstage]; rfl))
    all_goals cases hstep
  | push i accepted =>
    obtain ⟨f, hi, hstep⟩ := Option.bind_eq_some_iff.1 hstep
    split at hstep
    case h_1 frame hstage =>
      cases accepted with
      | true => exact Option.some.inj hstep ▸ .move hi (.push hstage)
      | false =>
        exact Option.some.inj hstep ▸ .move hi (.stop (by rw [hstage]; rfl) (by rw [hstage]; rfl))
    all_goals cases hstep
  | abort i =>
    obtain ⟨f, hi, hstep⟩ := Option.bind_eq_some_iff.1 hstep
    split at hstep
    case h_1 hstage =>
      exact Option.some.inj hstep ▸ .move hi (.stop (by rw [hstage]; rfl) (by rw [hstage]; rfl))
    case h_2 hstage =>
      exact Option.some.inj hstep ▸ .move hi (.stop (by rw [hstage]; rfl) (by rw [hstage]; rfl))
    all_goals cases hstep
  | close =>
    obtain ⟨-, hstep⟩ := Option.ite_none_right_eq_some.1 hstep
    exact Option.some.inj hstep ▸ .close

/-! ## What receipts come to -/

/-- The frames receipts make. -/
def frames (wire : SharedEvent Info Json → Option Bytes) (filter : TopicFilter G)
    (got : List (Receipt Info Json)) : List Bytes :=
  got.filterMap fun r => frameOf wire filter r.received

@[simp] theorem frames_nil {filter : TopicFilter G} : frames wire filter [] = [] := rfl

@[simp] theorem frames_append {filter : TopicFilter G} {got got' : List (Receipt Info Json)} :
    frames wire filter (got ++ got') = frames wire filter got ++ frames wire filter got' :=
  List.filterMap_append

theorem frames_singleton {filter : TopicFilter G} {r : Receipt Info Json} :
    frames wire filter [r] = (frameOf wire filter r.received).toList := by
  cases hframe : frameOf wire filter r.received <;> simp [frames, hframe]

namespace Forwarder

/-- A receipt that made a frame found the link still allowed. -/
def Allows (wire : SharedEvent Info Json → Option Bytes) (f : Forwarder G Info Json Bytes)
    (r : Receipt Info Json) : Prop :=
  (frameOf wire f.filter r.received).isSome = true →
    stillAllowed r.known f.link f.filter.patterns = true

/-- What the stage says of the receipts whose frames did not go out. -/
def Owes (wire : SharedEvent Info Json → Option Bytes) (f : Forwarder G Info Json Bytes)
    (rest : List (Receipt Info Json)) : Prop :=
  match f.stage with
  | .registered | .receiving => rest = []
  | .sending frame => frames wire f.filter rest = [frame] ∧ ∀ r ∈ rest, f.Allows wire r
  | .ended => (frames wire f.filter rest).length ≤ 1

/-- **Its receipts, and what became of them.** The frames of the first went
out, each while the link was allowed it. -/
structure Told (wire : SharedEvent Info Json → Option Bytes) (f : Forwarder G Info Json Bytes)
    (kept rest : List (Receipt Info Json)) : Prop where
  got : f.got = kept ++ rest
  pushed : f.pushed = frames wire f.filter kept
  allowed : ∀ r ∈ kept, f.Allows wire r
  owes : f.Owes wire rest

/-- Its cursor, and what it has the bus's history to thank for. -/
structure Reads (s : Traffic G Info Json Bytes) (f : Forwarder G Info Json Bytes) : Prop where
  since_le : f.since ≤ f.next
  next_le : f.next ≤ s.history.length
  accounts : Accounts (f.got.map Receipt.received) ((s.history.take f.next).drop f.since)
  asked_le : f.askedAt ≤ s.asked.length
  heard : f.interested = true →
    (s.asked.drop f.askedAt).Subperm (s.publishing ++ s.history.drop f.since)

/-- What a receive leaves of the receipts. -/
theorem Told.receive {kept rest : List (Receipt Info Json)} (hf : f.Told wire kept rest)
    (hstage : f.stage = .receiving) (known : Gate.KnownDogs) (x : Received (SharedEvent Info Json))
    (next : ℕ) : ∃ kept rest, (f.receive wire known x next).Told wire kept rest := by
  have hrest : rest = [] := by simpa only [Owes, hstage] using hf.owes
  have hgot : f.got = kept := by rw [hf.got, hrest, List.append_nil]
  cases hframe : frameOf wire f.filter x with
  | none =>
    refine ⟨kept ++ [⟨x, known⟩], [], ?_, ?_, ?_, ?_⟩
    · simp [Forwarder.receive, hgot]
    · simp [Forwarder.receive, hf.pushed, frames_singleton, hframe]
    · intro r hr
      rcases List.mem_append.1 hr with hr | hr
      · exact hf.allowed r hr
      · rw [List.mem_singleton.1 hr]
        exact fun hsome => absurd hsome (by simp [Forwarder.receive, hframe])
    · simp [Forwarder.receive, Owes, hframe]
  | some frame =>
    refine ⟨kept, [⟨x, known⟩], by simp [Forwarder.receive, hgot], hf.pushed, hf.allowed, ?_⟩
    cases hallowed : stillAllowed known f.link f.filter.patterns with
    | true => simp [Forwarder.receive, Owes, Allows, frames_singleton, hframe, hallowed]
    | false => simp [Forwarder.receive, Owes, frames_singleton, hframe, hallowed]

/-- A frame pushed is one more that went out. -/
theorem Told.push {kept rest : List (Receipt Info Json)} {frame : Bytes} (hf : f.Told wire kept rest)
    (hstage : f.stage = .sending frame) :
    Told wire { f with stage := .receiving, pushed := f.pushed ++ [frame] } (kept ++ rest) [] := by
  obtain ⟨hframe, hallows⟩ : frames wire f.filter rest = [frame] ∧ ∀ r ∈ rest, f.Allows wire r := by
    simpa only [Owes, hstage] using hf.owes
  refine ⟨by simpa using hf.got, by simp [hf.pushed, hframe], fun r hr => ?_, rfl⟩
  rcases List.mem_append.1 hr with hr | hr
  · exact hf.allowed r hr
  · exact hallows r hr

/-- A forwarder that ends loses no more than the frame in hand. -/
theorem Told.stop {kept rest : List (Receipt Info Json)} (hf : f.Told wire kept rest) :
    Told wire { f with stage := .ended } kept rest := by
  refine ⟨hf.got, hf.pushed, hf.allowed, ?_⟩
  have howes := hf.owes
  unfold Owes at howes ⊢
  split at howes
  case h_1 => simp [howes]
  case h_2 => simp [howes]
  case h_3 => simp [howes.1]
  case h_4 => exact howes

/-- Whatever a forwarder does, its receipts come to this. -/
theorem Move.told {kept rest : List (Receipt Info Json)} (hmove : f.Move wire s f')
    (hf : f.Told wire kept rest) : ∃ kept rest, f'.Told wire kept rest := by
  cases hmove with
  | subscribe hstage =>
    have howes : rest = [] := by simpa only [Owes, hstage] using hf.owes
    exact ⟨kept, rest, hf.got, hf.pushed, hf.allowed, howes⟩
  | recv hstage _ => exact hf.receive hstage _ _ _
  | push hstage => exact ⟨_, _, hf.push hstage⟩
  | stop => exact ⟨_, _, hf.stop⟩

/-! ## What the cursor is over -/

/-- What the bus goes on to do, it does after a reader's cursor. -/
theorem Reads.later (hf : f.Reads s) (more offered : List (SharedEvent Info Json))
    (hhistory : t.history = s.history ++ more) (hasked : t.asked = s.asked ++ offered)
    (hkept : f.interested = true →
      (s.publishing ++ offered).Subperm (t.publishing ++ more)) : f.Reads t := by
  have hsince : f.since ≤ s.history.length := hf.since_le.trans hf.next_le
  refine ⟨hf.since_le, ?_, ?_, ?_, fun hlive => ?_⟩
  · rw [hhistory, List.length_append]
    exact Nat.le_add_right_of_le hf.next_le
  · rw [hhistory, List.take_append_of_le_length hf.next_le]
    exact hf.accounts
  · rw [hasked, List.length_append]
    exact Nat.le_add_right_of_le hf.asked_le
  rw [hasked, List.drop_append_of_le_length hf.asked_le, hhistory,
    List.drop_append_of_le_length hsince]
  have hoffered : (s.asked.drop f.askedAt ++ offered).Subperm
      (s.publishing ++ s.history.drop f.since ++ offered) :=
    (hf.heard hlive).append (List.Subperm.refl offered)
  have hmore : (s.publishing ++ offered ++ s.history.drop f.since).Subperm
      (t.publishing ++ more ++ s.history.drop f.since) :=
    (hkept hlive).append (List.Subperm.refl _)
  have hswap : (s.publishing ++ s.history.drop f.since ++ offered).Perm
      (s.publishing ++ offered ++ s.history.drop f.since) := by
    simpa only [List.append_assoc] using
      List.Perm.append_left s.publishing List.perm_append_comm
  have hswap' : (t.publishing ++ more ++ s.history.drop f.since).Perm
      (t.publishing ++ (s.history.drop f.since ++ more)) := by
    simpa only [List.append_assoc] using
      List.Perm.append_left t.publishing List.perm_append_comm
  exact ((hoffered.trans hswap.subperm).trans hmore).trans hswap'.subperm

/-- A reader whose cursor stands is one wherever it goes on from. -/
theorem Reads.restaged {stage : Stage Bytes} {pushed : List Bytes} (hf : f.Reads s)
    (hlive : f.stage.isEnded = false) : Reads s { f with stage, pushed } :=
  ⟨hf.since_le, hf.next_le, hf.accounts, hf.asked_le, fun h => hf.heard (by
    simp only [interested, hlive, Bool.not_false, Bool.true_and]
    exact (Bool.and_eq_true_iff.1 h).2)⟩

/-- Whatever a forwarder does, it reads what it is accounted. -/
theorem Move.reads (hring : s.ring.Holds s.history) (hmove : f.Move wire s f')
    (hfresh : f.stage.isRegistered = true → f.got = [])
    (hf : f.stage.isRegistered = false → f.Reads s) : f'.Reads s := by
  cases hmove with
  | subscribe hstage =>
    have hgot : f.got = [] := hfresh (by rw [hstage]; rfl)
    refine ⟨by rw [hring.sent], by rw [hring.sent], ?_, Nat.le_refl _, fun _ => ?_⟩
    · have hnone : (s.history.take s.ring.sent).drop s.history.length = [] := by
        rw [hring.sent, List.take_length, List.drop_length]
      simpa only [hgot, hnone, List.map_nil] using Accounts.nil
    · simp
  | @recv x next hstage hrecv =>
    have hread := hf (by rw [hstage]; rfl)
    obtain ⟨haccounts, hlt, hle⟩ :=
      hread.accounts.recv hring hread.since_le hread.next_le hrecv
    refine ⟨hread.since_le.trans hlt.le, hle, ?_, hread.asked_le, fun h => hread.heard ?_⟩
    · simpa only [receive, List.map_append, List.map_cons, List.map_nil] using haccounts
    · simp only [interested, hstage, Stage.isEnded, Bool.not_false, Bool.true_and]
      exact (Bool.and_eq_true_iff.1 h).2
  | push hstage => exact (hf (by rw [hstage]; rfl)).restaged (by rw [hstage]; rfl)
  | stop hreg hlive => exact (hf hreg).restaged hlive

/-- Only a forwarder that lives does anything, it has its receiver then, and
its filter is the one it was spawned with. -/
theorem Move.kept (hmove : f.Move wire s f') :
    f.stage.isEnded = false ∧ f'.stage.isRegistered = false ∧ f'.filter = f.filter ∧
      f'.link = f.link := by
  cases hmove with
  | subscribe hstage | push hstage => exact ⟨by rw [hstage]; rfl, rfl, rfl, rfl⟩
  | @recv x next hstage hrecv =>
    refine ⟨by rw [hstage]; rfl, ?_, rfl, rfl⟩
    simp only [receive]
    split
    · rfl
    · split <;> rfl
  | stop _ hlive => exact ⟨hlive, rfl, rfl, rfl⟩

end Forwarder

/-! ## Runs -/

/-- What every step keeps. -/
structure Traffic.Sound (wire : SharedEvent Info Json → Option Bytes)
    (s : Traffic G Info Json Bytes) : Prop where
  ring : s.ring.Holds s.history
  counted : s.logSubscribers = s.forwarders.countP Forwarder.interested
  offered : ∀ event ∈ s.asked, event.isLog = true
  fresh : ∀ f ∈ s.forwarders, f.stage.isRegistered = true → f.got = []
  told : ∀ f ∈ s.forwarders, ∃ kept rest, f.Told wire kept rest
  reads : ∀ f ∈ s.forwarders, f.stage.isRegistered = false → f.Reads s

namespace Traffic

variable (G Info Json Bytes) in
/-- `new_bus`. -/
def newBus : Traffic G Info Json Bytes := {}

theorem sound_newBus : (newBus G Info Json Bytes).Sound wire where
  ring := Broadcast.Ring.holds_nil _
  counted := rfl
  offered := by simp [newBus]
  fresh := by simp [newBus]
  told := by simp [newBus]
  reads := by simp [newBus]

/-- Steps that are no forwarder's. -/
theorem Sound.later (hs : s.Sound wire) (more offered : List (SharedEvent Info Json))
    (hforwarders : t.forwarders = s.forwarders) (hcount : t.logSubscribers = s.logSubscribers)
    (hring : t.ring.Holds t.history) (hhistory : t.history = s.history ++ more)
    (hasked : t.asked = s.asked ++ offered) (hlog : ∀ event ∈ offered, event.isLog = true)
    (hkept : ∀ f ∈ s.forwarders, f.interested = true →
      (s.publishing ++ offered).Subperm (t.publishing ++ more)) : t.Sound wire where
  ring := hring
  counted := by rw [hcount, hforwarders, hs.counted]
  offered := by
    intro event hmem
    rw [hasked] at hmem
    exact (List.mem_append.1 hmem).elim (hs.offered event) (hlog event)
  fresh := by
    rw [hforwarders]
    exact hs.fresh
  told := by
    rw [hforwarders]
    exact hs.told
  reads := by
    rw [hforwarders]
    exact fun f hf hreg => (hs.reads f hf hreg).later more offered hhistory hasked (hkept f hf)

theorem Sound.register (hs : s.Sound wire) {link : Link} {filter : TopicFilter G}
    (hf : f = { link, filter }) :
    Sound wire { s with
      forwarders := s.forwarders ++ [f], logSubscribers := s.logSubscribers + f.interest } := by
  have hall {P : Forwarder G Info Json Bytes → Prop} (h : ∀ g ∈ s.forwarders, P g)
      (hnew : P f) : ∀ g ∈ s.forwarders ++ [f], P g :=
    List.forall_mem_append.2 ⟨h, List.forall_mem_singleton.2 hnew⟩
  subst hf
  refine ⟨hs.ring, ?_, hs.offered, hall hs.fresh fun _ => rfl, hall hs.told ?_,
    hall (fun f hf hreg => ?_) fun hreg => ?_⟩
  · simp only [List.countP_append, List.countP_singleton, hs.counted, Forwarder.interest,
      Forwarder.interested, Stage.isEnded, Bool.not_false, Bool.true_and]
  · exact ⟨[], [], rfl, rfl, by simp, rfl⟩
  · exact (hs.reads f hf hreg).later [] [] (by simp) (by simp) fun _ => by simp [List.Subperm.refl]
  · exact absurd hreg (by simp [Stage.isRegistered])

/-- The count follows a forwarder. -/
theorem put_counted (hi : s.forwarders[i]? = some f)
    (hcount : s.logSubscribers = s.forwarders.countP Forwarder.interested)
    (hlive : f.stage.isEnded = false) (hfilter : f'.filter = f.filter) :
    (s.put i f').logSubscribers = (s.put i f').forwarders.countP Forwarder.interested := by
  obtain ⟨hlt, hget⟩ := List.getElem?_eq_some_iff.1 hi
  have hpos : f.filter.wantsLogs = true → 0 < s.forwarders.countP Forwarder.interested := by
    intro hwants
    refine List.countP_pos_iff.2 ⟨f, List.mem_of_getElem? hi, ?_⟩
    simp [Forwarder.interested, hlive, hwants]
  simp only [put, List.countP_set hlt, hget, hcount, Forwarder.interested, Forwarder.interest,
    hlive, hfilter, Bool.not_false, Bool.true_and]
  cases hwants : f.filter.wantsLogs with
  | false => cases f'.stage.isEnded <;> simp
  | true =>
    have hone := hpos hwants
    cases f'.stage.isEnded <;> simp
    omega

/-- What holds of every forwarder, and of the one that goes on. -/
theorem forall_put {P : Forwarder G Info Json Bytes → Prop} (hs : ∀ g ∈ s.forwarders, P g)
    (hf' : P f') : ∀ g ∈ (s.put i f').forwarders, P g := by
  intro g hg
  rcases List.mem_or_eq_of_mem_set hg with hg | rfl
  · exact hs g hg
  · exact hf'

theorem Sound.move (hs : s.Sound wire) (hi : s.forwarders[i]? = some f)
    (hmove : f.Move wire s f') : (s.put i f').Sound wire := by
  have hmem : f ∈ s.forwarders := List.mem_of_getElem? hi
  obtain ⟨hlive, hreg', hfilter, -⟩ := hmove.kept
  have hsame {g : Forwarder G Info Json Bytes} (hg : g.Reads s) : g.Reads (s.put i f') :=
    hg.later [] [] (by simp [put]) (by simp [put])
      fun _ => by simp [put, List.Subperm.refl]
  refine ⟨hs.ring, put_counted hi hs.counted hlive hfilter, hs.offered,
    forall_put hs.fresh fun hreg => ?_, forall_put hs.told ?_,
    forall_put (fun g hg hreg => hsame (hs.reads g hg hreg)) fun _ => ?_⟩
  · rw [hreg'] at hreg
    exact absurd hreg Bool.false_ne_true
  · obtain ⟨kept, rest, htold⟩ := hs.told f hmem
    exact hmove.told htold
  · exact hsame (hmove.reads hs.ring (hs.fresh f hmem) (hs.reads f hmem))

/-- Where nobody is counted, nobody is interested. -/
theorem Sound.none_interested (hs : s.Sound wire) (hzero : s.logSubscribers = 0)
    (hf : f ∈ s.forwarders) : f.interested = false := by
  rw [hs.counted] at hzero
  simpa using List.countP_eq_zero.1 hzero f hf

/-- **Every step keeps it.** -/
theorem Change.sound (hchange : s.Change wire t) (hs : s.Sound wire) : t.Sound wire := by
  cases hchange with
  | send event =>
    refine hs.later [event] [] rfl rfl (hs.ring.send event) rfl
      (by simp [Traffic.send]) (by simp) fun f _ _ => ?_
    simpa [Traffic.send] using (List.sublist_append_left s.publishing [event]).subperm
  | @unheard event hlog hzero =>
    refine hs.later [] [event] rfl rfl hs.ring (by simp) rfl (by simpa)
      fun f hf hlive => ?_
    rw [hs.none_interested hzero hf] at hlive
    exact absurd hlive Bool.false_ne_true
  | @heard event hlog =>
    exact hs.later [] [event] rfl rfl hs.ring (by simp) rfl (by simpa)
      fun f _ _ => by simp [List.Subperm.refl]
  | @sendLog k event hk =>
    obtain ⟨hlt, hget⟩ := List.getElem?_eq_some_iff.1 hk
    refine hs.later [event] [] rfl rfl (hs.ring.send event) rfl
      (by simp [Traffic.send]) (by simp) fun f _ _ => ?_
    have hperm : (event :: s.publishing.eraseIdx k).Perm s.publishing :=
      hget ▸ List.getElem_cons_eraseIdx_perm hlt
    simpa using (hperm.symm.trans (List.perm_append_singleton event _).symm).subperm
  | record known | close =>
    exact hs.later [] [] rfl rfl hs.ring (by simp) (by simp) (by simp)
      fun f _ _ => by simp [List.Subperm.refl]
  | register _ _ => exact hs.register rfl
  | move hi hmove => exact hs.move hi hmove

/-- It holds in every run. -/
theorem sound (hr : Run (Acts (step wire)) (newBus G Info Json Bytes) h t) : t.Sound wire :=
  hr.invariant meets_true sound_newBus fun _ _ _ hs _ hstep => (change_of_step hstep).sound hs

end Traffic

/-! ## What a subscriber hears -/

/-- Patterns that are a name, or a name's beginning and a star. -/
def starGlobs : Globset where
  Glob := Topic
  GlobSet := List Topic
  glob := .ok
  build := .ok
  isMatch set topic := set.any fun pattern =>
    pattern == topic || pattern == literalHead pattern ++ ['*'] &&
      (literalHead pattern).isPrefixOf topic

/-- A wire on which a frame is its topic. -/
def topicWire (event : SharedEvent Unit Unit) : Option Topic := some event.topic

/-- A bus after these events. -/
def played (events : List (Event Unit Unit)) : Traffic starGlobs Unit Unit Topic :=
  drive (advance (Traffic.step topicWire)) (Traffic.newBus starGlobs Unit Unit Topic) events

/-- A subscriber to standard output, and one line among what happens. -/
def oneLine : List (Event Unit Unit) :=
  [.register .control ["log.o*".toList], .subscribe 0, .publishLog (.logOut 1 "up"),
    .send .daemonShutdown, .sendLog 0, .recv 0, .recv 0, .push 0 true]

theorem oneLine_run : Drives (advance (Traffic.step topicWire)) (Taken (Traffic.step topicWire))
    (Traffic.newBus starGlobs Unit Unit Topic) oneLine := by decide +kernel

/-- **No line is turned away from a listener.** In every run the count is
that of the live subscriptions that want logs, and each line offered since a
live forwarder began to read that its filter lets through is either in the
history it reads or about to be sent, as often as it was offered. -/
theorem log_line_heard (hr : Run (Acts (Traffic.step wire)) (Traffic.newBus G Info Json Bytes) h t) :
    t.logSubscribers = t.forwarders.countP Forwarder.interested ∧
      ∀ f ∈ t.forwarders, f.stage.isRegistered = false → f.stage.isEnded = false →
        ((t.asked.drop f.askedAt).filter f.filter.matchesEvent).Subperm
          (t.publishing ++ t.history.drop f.since) := by
  have hs := Traffic.sound hr
  refine ⟨hs.counted, fun f hf hread hlive => ?_⟩
  cases hwants : f.filter.wantsLogs with
  | true =>
    have hinterested : f.interested = true := by simp [Forwarder.interested, hlive, hwants]
    exact List.filter_sublist.subperm.trans ((hs.reads f hf hread).heard hinterested)
  | false =>
    have hnone : (t.asked.drop f.askedAt).filter f.filter.matchesEvent = [] := by
      refine List.filter_eq_nil_iff.2 fun event hmem hmatch => ?_
      have hlog := hs.offered event (List.mem_of_mem_drop hmem)
      exact absurd (TopicFilter.wantsLogs_of_matches hlog hmatch) (by simp [hwants])
    rw [hnone]
    exact List.nil_subperm

theorem log_line_heard_oneLine : (played oneLine).logSubscribers =
    (played oneLine).forwarders.countP Forwarder.interested :=
  (log_line_heard oneLine_run.acts).1

end Bus

end Shep

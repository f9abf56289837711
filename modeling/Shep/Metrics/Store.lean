import Mathlib.Data.List.Count
import Shep.Common.Run
import Shep.Metrics.Model

/-!
# Metrics — the store over whole runs

A run is a sequence of `upsert`, `clear` and `snapshot` calls, and its log
says what became of each: a sample accepted, a sample refused, a sender
freed. **`store_exact`** is what the store holds against that log.
**`refused_unannounced`** is a run after which an app author is not told:
a sender that is cleared while it holds nothing keeps what was announced of
it.
-/

namespace Shep

namespace Metrics

open Table StoreState

/-! ## Names and how many hold them -/

/-- What the table says of a name: that nothing holds it, or its kind and
how many do. -/
def Tells (held : List (Text × MetricType)) (name : Text) : Option (MetricType × ℕ) → Prop
  | none => ∀ e ∈ held, e.1 ≠ name
  | some (kind, n) =>
    0 < n ∧ n = held.countP (fun e => e.1 = name) ∧ ∀ e ∈ held, e.1 = name → e.2 = kind

/-- The table has exactly the names held, each with the one kind it is held
as and the number of times it is held. -/
def Counts (kinds : Std.ExtTreeMap Text (MetricType × ℕ)) (held : List (Text × MetricType)) :
    Prop :=
  ∀ name : Text, Tells held name kinds[name]?

theorem tells_perm {held held' : List (Text × MetricType)} (hp : held.Perm held') {name : Text}
    {entry : Option (MetricType × ℕ)} (h : Tells held name entry) : Tells held' name entry := by
  cases entry with
  | none => exact fun e he => h e (hp.mem_iff.2 he)
  | some entry =>
    obtain ⟨hpos, hcount, hkind⟩ := h
    exact ⟨hpos, hcount.trans (hp.countP_eq _), fun e he => hkind e (hp.mem_iff.2 he)⟩

theorem tells_cons {held : List (Text × MetricType)} {name other : Text} {kind : MetricType}
    (hne : other ≠ name) {entry : Option (MetricType × ℕ)} :
    Tells ((name, kind) :: held) other entry ↔ Tells held other entry := by
  have hne' : name ≠ other := hne.symm
  cases entry with
  | none => simp [Tells, hne']
  | some entry => simp [Tells, hne']

namespace Counts

variable {kinds : Std.ExtTreeMap Text (MetricType × ℕ)} {held held' : List (Text × MetricType)}
variable {name : Text} {kind : MetricType}

theorem empty : Counts ∅ [] := fun _ => by simp [Tells]

theorem perm (h : Counts kinds held) (hp : held.Perm held') : Counts kinds held' :=
  fun name => tells_perm hp (h name)

theorem insert {entry : MetricType × ℕ}
    (hothers : ∀ other : Text, other ≠ name → Tells held other kinds[other]?)
    (hname : Tells held name (some entry)) : Counts (kinds.insert name entry) held := by
  intro other
  rw [get_insert]
  split
  · next heq => exact heq ▸ hname
  · next hne => exact hothers other hne

theorem erase (hothers : ∀ other : Text, other ≠ name → Tells held other kinds[other]?)
    (hname : Tells held name none) : Counts (kinds.erase name) held := by
  intro other
  rw [get_erase]
  split
  · next heq => exact heq ▸ hname
  · next hne => exact hothers other hne

/-- One more holds the name. -/
theorem hold (h : Counts kinds held)
    (hfits : ∀ entry, kinds[name]? = some entry → entry.1 = kind ∧ entry.2 + 1 < 2 ^ 32) :
    Counts (hold kinds name kind) ((name, kind) :: held) := by
  have hothers : ∀ other : Text, other ≠ name → Tells ((name, kind) :: held) other kinds[other]? :=
    fun other hne => (tells_cons hne).2 (h other)
  have hname := h name
  unfold StoreState.hold
  cases hentry : kinds[name]? with
  | none =>
    rw [hentry] at hname
    have hzero : held.countP (fun e => e.1 = name) = 0 :=
      List.countP_eq_zero.2 fun e he => by simpa using hname e he
    refine insert hothers ⟨Nat.one_pos, by simp [hzero], fun e he heq => ?_⟩
    rcases List.mem_cons.1 he with rfl | he
    · rfl
    · exact absurd heq (hname e he)
  | some entry =>
    rw [hentry] at hname
    obtain ⟨-, hcount, hkind⟩ := hname
    obtain ⟨rfl, hlt⟩ := hfits _ hentry
    dsimp only
    rw [Nat.mod_eq_of_lt hlt]
    refine insert hothers ⟨Nat.succ_pos _, by simpa using hcount, fun e he heq => ?_⟩
    rcases List.mem_cons.1 he with rfl | he
    · rfl
    · exact hkind e he heq

/-- One less holds the name. -/
theorem release (h : Counts kinds ((name, kind) :: held)) : Counts (release kinds name) held := by
  have hothers : ∀ other : Text, other ≠ name → Tells held other kinds[other]? :=
    fun other hne => (tells_cons hne).1 (h other)
  have hname := h name
  unfold StoreState.release
  cases hentry : kinds[name]? with
  | none =>
    rw [hentry] at hname
    exact absurd rfl (hname _ List.mem_cons_self)
  | some entry =>
    rw [hentry] at hname
    obtain ⟨-, hcount, hkind⟩ := hname
    have hone : entry.2 = held.countP (fun e => e.1 = name) + 1 := by simpa using hcount
    dsimp only
    split
    · next hlast =>
      -- nobody holds the name any more
      have hzero : held.countP (fun e => e.1 = name) = 0 := by omega
      exact erase hothers fun e he => by simpa using List.countP_eq_zero.1 hzero e he
    · next hmore =>
      exact insert hothers
        ⟨by omega, by omega, fun e he => hkind e (List.mem_cons_of_mem _ he)⟩

theorem releases {gone : List (Text × MetricType)} (h : Counts kinds (gone ++ held)) :
    Counts ((gone.map Prod.fst).foldl StoreState.release kinds) held := by
  induction gone generalizing kinds with
  | nil => exact h
  | cons e gone ih => exact ih (release h)

end Counts

/-! ## Runs -/

/-- A call on the store. -/
inductive Call where
  | upsert (sender : ℕ) (metric : ChannelMetric) (now : ℕ)
  | clear (sender : ℕ)
  | snapshot (flock : List ProcessInfo) (now : ℕ)

/-- What became of a sample, or of a sender. -/
inductive Mark where
  | accepted (sender : ℕ) (key : SeriesKey) (value : F64)
  | refused (refusal : Refusal)
  | freed (sender : ℕ)
  deriving Repr, DecidableEq

namespace Mark

/-- The sample of a series was accepted, or its sender freed. -/
def touches (sender : ℕ) (key : SeriesKey) : Mark → Bool
  | accepted other k _ => other = sender ∧ k = key
  | refused _ => false
  | freed other => other = sender

/-- The sender was refused for the reason, or freed. -/
def concerns (sender : ℕ) (reason : RefusalReason) : Mark → Bool
  | accepted _ _ _ => false
  | refused refusal => refusal.sender = sender ∧ refusal.reason = reason
  | freed other => other = sender

def value : Mark → Option F64
  | accepted _ _ value => some value
  | refused _ => none
  | freed _ => none

def isRefused : Mark → Bool
  | accepted _ _ _ => false
  | refused _ => true
  | freed _ => false

def isFor (reason : RefusalReason) : Mark → Bool
  | accepted _ _ _ => false
  | refused refusal => refusal.reason = reason
  | freed _ => false

end Mark

/-- What an `upsert` says of its sample. -/
def Mark.ofUpsert (sender : ℕ) (metric : ChannelMetric) : Option Refusal → Mark
  | none => .accepted sender (metric.name, metric.labels) metric.value
  | some refusal => .refused refusal

/-- One call. -/
def serve (s : StoreState) : Call → StoreState × List Mark
  | .upsert sender metric now =>
    ((s.upsert sender metric now).1, [.ofUpsert sender metric (s.upsert sender metric now).2])
  | .clear sender => (s.dropSender sender, [.freed sender])
  | .snapshot flock now => ((s.snapshot flock now).1, (s.gone flock now).map .freed)

/-- A run of calls, and its log. -/
def serveAll (s : StoreState) (calls : List Call) : StoreState × List Mark := feed serve s calls

/-- What an event of the feed asks of the store. -/
def BusEvent.call (now : ℕ) : BusEvent → Option Call
  | .channel id message => (ChannelMetric.fromChild message).map fun metric => .upsert id metric now
  | .process event id => if clearsSamples event then some (.clear id) else none
  | .other => none

theorem apply_eq (s : StoreState) (event : BusEvent) (now : ℕ) :
    (s.apply event now).1 = (event.call now).elim s fun call => (serve s call).1 := by
  cases event with
  | channel id message =>
    simp only [apply, BusEvent.call]
    cases ChannelMetric.fromChild message <;> rfl
  | process event id =>
    simp only [apply, BusEvent.call]
    split <;> rfl
  | other => rfl

/-! ## What a run leaves -/

/-- The names an entry holds. -/
def heldBy (entry : SenderEntry) : List (Text × MetricType) :=
  entry.toList.map fun e => (e.1.1, e.2.kind)

/-- The names that retained series hold, once a series. -/
def StoreState.held (s : StoreState) : List (Text × MetricType) :=
  s.senders.toList.flatMap fun e => heldBy e.2

/-- The value retained for a series. -/
def StoreState.retained (s : StoreState) (sender : ℕ) (key : SeriesKey) : Option F64 :=
  (s.senders[sender]?.bind fun entry => entry[key]?).map Series.value

/-- A refusal is marked first where none of its sender and reason stands
since the sender was last freed. -/
def ToldFirst (before : List Mark) (m : Mark) : Prop :=
  ∀ refusal, m = .refused refusal →
    (refusal.first ↔
      ¬ (latest (Mark.concerns refusal.sender refusal.reason) before).any Mark.isRefused)

/-- **What the store holds against the log of its run.** -/
structure Exact (s : StoreState) (log : List Mark) : Prop where
  counts : Counts s.kinds s.held
  capped : ∀ (sender : ℕ) (entry : SenderEntry), s.senders[sender]? = some entry →
    entry.size ≤ MAX_SERIES_PER_SENDER
  retained : ∀ sender key,
    s.retained sender key = (latest (Mark.touches sender key) log).bind Mark.value
  refused : ∀ reason : RefusalReason, s.refused[reason]?.getD 0 = log.countP (Mark.isFor reason)
  first : Traced ToldFirst log

/-- A call that leaves the store exact: no count is at its type's end, and a
sender that is cleared holds a sample or has had nothing announced. -/
def Allowed (s : StoreState) : Call → Prop
  | .upsert _ metric _ =>
    (∀ entry, s.kinds[metric.name]? = some entry → entry.2 + 1 < 2 ^ 32) ∧
      ∀ reason : RefusalReason, s.refused[reason]?.getD 0 + 1 < 2 ^ 64
  | .clear sender =>
    s.senders[sender]? = none → ∀ reason, (sender, reason) ∉ s.announced
  | .snapshot _ _ => True

/-- What is announced is the refusals that stand. -/
structure Inv (s : StoreState) (log : List Mark) : Prop extends Exact s log where
  announced : ∀ sender reason, (sender, reason) ∈ s.announced ↔
    (latest (Mark.concerns sender reason) log).any Mark.isRefused

theorem inv_new : Inv .new [] where
  counts := Counts.empty
  capped sender entry h := by simp [new] at h
  retained sender key := by simp [StoreState.retained, new]
  refused reason := by simp [new]
  first := traced_nil
  announced sender reason := by simp [new]

/-! ## One sender's part of what is held -/

variable {s : StoreState} {log : List Mark} {sender : ℕ}

theorem heldBy_empty : heldBy ∅ = [] := by simp [heldBy]

/-- What the other senders hold. -/
def StoreState.heldBeside (s : StoreState) (sender : ℕ) : List (Text × MetricType) :=
  (s.senders.erase sender).toList.flatMap fun e => heldBy e.2

theorem held_perm (s : StoreState) (sender : ℕ) :
    s.held.Perm (heldBy (s.senders[sender]?.getD ∅) ++ s.heldBeside sender) := by
  cases hentry : s.senders[sender]? with
  | none =>
    rw [Option.getD_none, heldBy_empty, List.nil_append, heldBeside, erase_self hentry]
    exact List.Perm.refl _
  | some entry => exact (perm_erase hentry).flatMap_right _

theorem heldBy_insert (entry : SenderEntry) (key : SeriesKey) (series : Series) :
    (heldBy (entry.insert key series)).Perm ((key.1, series.kind) :: heldBy (entry.erase key)) :=
  (perm_insert entry key series).map _

theorem heldBy_erase {entry : SenderEntry} {key : SeriesKey} {series : Series}
    (h : entry[key]? = some series) :
    (heldBy entry).Perm ((key.1, series.kind) :: heldBy (entry.erase key)) :=
  (perm_erase h).map _

/-! ## One step -/

/-- A sample is refused: what is retained stays, and the refusal counts. -/
theorem Inv.refuse (h : Inv s log) (sender : ℕ) (name : Text) {reason : RefusalReason}
    (hcount : s.refused[reason]?.getD 0 + 1 < 2 ^ 64) :
    Inv (s.recordRefusal sender name reason).1
      (log ++ [.refused (s.recordRefusal sender name reason).2]) where
  counts := h.counts
  capped := h.capped
  retained other key := by
    rw [latest_concat, if_neg (by simp [Mark.touches])]
    exact h.retained other key
  refused other := by
    rw [List.countP_append, ← h.refused other]
    simp only [recordRefusal, get_insert]
    by_cases heq : other = reason
    · subst heq
      rw [if_pos rfl, Option.getD_some, Nat.mod_eq_of_lt hcount]
      simp [Mark.isFor]
    · have heq' : ¬ reason = other := fun e => heq e.symm
      simp [Mark.isFor, heq, heq']
  first := by
    refine traced_concat.2 ⟨h.first, ?_⟩
    rintro refusal ⟨⟩
    simp only [recordRefusal, decide_eq_true_eq]
    exact not_congr (h.announced sender reason)
  announced other why := by
    rw [latest_concat]
    split
    · next heq =>
      obtain ⟨rfl, rfl⟩ : sender = other ∧ reason = why := of_decide_eq_true heq
      simp [recordRefusal, Mark.isRefused]
    · next hne =>
      have hne' : (other, why) ≠ (sender, reason) := fun heq =>
        hne (decide_eq_true ⟨(Prod.mk.inj heq).1.symm, (Prod.mk.inj heq).2.symm⟩)
      rw [← h.announced other why]
      simp only [recordRefusal, Finset.mem_insert]
      exact or_iff_right hne'

theorem dropSender_some {entry : SenderEntry} (hentry : s.senders[sender]? = some entry) :
    s.dropSender sender =
      { s with
        senders := s.senders.erase sender
        kinds := ((heldBy entry).map Prod.fst).foldl StoreState.release s.kinds
        announced := s.announced.filter fun e => e.1 ≠ sender } := by
  simp only [dropSender, hentry, heldBy, List.map_map]
  rfl

/-- A sender is freed. -/
theorem Inv.drop (h : Inv s log)
    (hsender : s.senders[sender]? = none → ∀ reason, (sender, reason) ∉ s.announced) :
    Inv (s.dropSender sender) (log ++ [.freed sender]) := by
  have hcountP : ∀ reason, (log ++ [Mark.freed sender]).countP (Mark.isFor reason) =
      log.countP (Mark.isFor reason) := fun reason => by simp [Mark.isFor]
  have hfirst : Traced ToldFirst (log ++ [Mark.freed sender]) :=
    traced_concat.2 ⟨h.first, fun refusal => nofun⟩
  cases hentry : s.senders[sender]? with
  | none =>
    have hsame : s.dropSender sender = s := by simp only [dropSender, hentry]
    rw [hsame]
    refine ⟨⟨h.counts, h.capped, ?_, ?_, hfirst⟩, ?_⟩
    · intro other key
      rw [latest_concat]
      split
      · next heq =>
        obtain rfl : other = sender := by simpa [Mark.touches, eq_comm] using heq
        simp [StoreState.retained, hentry, Mark.value]
      · exact h.retained other key
    · exact fun reason => (h.refused reason).trans (hcountP reason).symm
    · intro other why
      rw [latest_concat]
      split
      · next heq =>
        obtain rfl : other = sender := by simpa [Mark.concerns, eq_comm] using heq
        simp [Mark.isRefused, hsender hentry why]
      · exact h.announced other why
  | some entry =>
    rw [dropSender_some hentry]
    refine ⟨⟨?_, ?_, ?_, ?_, hfirst⟩, ?_⟩
    · have hheld := held_perm s sender
      rw [hentry, Option.getD_some] at hheld
      exact (h.counts.perm hheld).releases
    · intro other e hother
      simp only [get_erase] at hother
      split at hother
      · cases hother
      · exact h.capped other e hother
    · intro other key
      rw [latest_concat]
      simp only [StoreState.retained, get_erase]
      by_cases heq : other = sender
      · simp [heq, Mark.touches, Mark.value]
      · have heq' : ¬ sender = other := fun e => heq e.symm
        simpa [heq, heq', Mark.touches, StoreState.retained] using h.retained other key
    · exact fun reason => (h.refused reason).trans (hcountP reason).symm
    · intro other why
      rw [latest_concat]
      simp only [Finset.mem_filter, h.announced other why, ne_eq]
      by_cases heq : other = sender
      · simp [heq, Mark.concerns, Mark.isRefused]
      · have heq' : ¬ sender = other := fun e => heq e.symm
        simp [heq, heq', Mark.concerns]

/-- The entry of a sender after a sample of it was accepted. -/
def entryWith (s : StoreState) (sender : ℕ) (metric : ChannelMetric) (now : ℕ) : SenderEntry :=
  let entry := s.senders[sender]?.getD ∅
  let help := metric.help.or (entry[((metric.name, metric.labels) : SeriesKey)]?.bind Series.help)
  entry.insert (metric.name, metric.labels) ⟨metric.value, metric.kind.getD .gauge, help, now⟩

/-- The store after a sample was accepted. -/
def accepted (s : StoreState) (sender : ℕ) (metric : ChannelMetric) (now : ℕ) : StoreState :=
  { s with
    senders := s.senders.insert sender (entryWith s sender metric now)
    kinds :=
      if (s.senders[sender]?.getD ∅)[((metric.name, metric.labels) : SeriesKey)]?.isNone then
        hold s.kinds metric.name (metric.kind.getD .gauge)
      else s.kinds }

/-- What it takes for a sample to be accepted: the name's kind is its own,
and a new series has room. -/
structure Accepts (s : StoreState) (sender : ℕ) (metric : ChannelMetric) : Prop where
  kind : ∀ entry, s.kinds[metric.name]? = some entry → entry.1 = metric.kind.getD .gauge
  room : (s.senders[sender]?.getD ∅)[((metric.name, metric.labels) : SeriesKey)]? = none →
    (s.senders[sender]?.getD ∅).size < MAX_SERIES_PER_SENDER

/-- **What an `upsert` does**: it refuses, or accepts. -/
theorem upsert_cases (s : StoreState) (sender : ℕ) (metric : ChannelMetric) (now : ℕ) :
    (∃ reason, s.upsert sender metric now =
      ((s.recordRefusal sender metric.name reason).1,
        some (s.recordRefusal sender metric.name reason).2)) ∨
    Accepts s sender metric ∧
      s.upsert sender metric now = (accepted s sender metric now, none) := by
  unfold upsert
  cases refusalFor metric.name metric.labels metric.help with
  | some reason => exact .inl ⟨reason, rfl⟩
  | none =>
    dsimp only
    split
    · exact .inl ⟨.typeConflict, rfl⟩
    · next hkind =>
      split
      · exact .inl ⟨.seriesCap, rfl⟩
      · next hroom =>
        refine .inr ⟨⟨fun entry hentry => ?_, fun hfresh => ?_⟩, rfl⟩
        · simpa [hentry] using hkind
        · simpa [hfresh] using hroom

theorem Accepts.kind_eq {metric : ChannelMetric} (h : Accepts s sender metric)
    (hcounts : Counts s.kinds s.held) {kind : MetricType} (hin : (metric.name, kind) ∈ s.held) :
    kind = metric.kind.getD .gauge := by
  have hname := hcounts metric.name
  cases hentry : s.kinds[metric.name]? with
  | none =>
    rw [hentry] at hname
    exact absurd rfl (hname _ hin)
  | some entry =>
    rw [hentry] at hname
    exact (hname.2.2 _ hin rfl).trans (h.kind entry hentry)

/-- A sample is accepted: its series has its value, and a new one counts. -/
theorem Inv.accept (h : Inv s log) {metric : ChannelMetric} (now : ℕ)
    (haccepts : Accepts s sender metric)
    (hcount : ∀ entry, s.kinds[metric.name]? = some entry → entry.2 + 1 < 2 ^ 32) :
    Inv (accepted s sender metric now)
      (log ++ [.accepted sender (metric.name, metric.labels) metric.value]) := by
  have hheld := held_perm s sender
  have hnew : (accepted s sender metric now).held.Perm
      (heldBy (entryWith s sender metric now) ++ s.heldBeside sender) := by
    have hself := held_perm (accepted s sender metric now) sender
    simpa [accepted, heldBeside] using hself
  have hentry : (heldBy (entryWith s sender metric now)).Perm
      ((metric.name, metric.kind.getD .gauge) ::
        heldBy ((s.senders[sender]?.getD ∅).erase (metric.name, metric.labels))) :=
    heldBy_insert _ _ _
  refine ⟨⟨?_, ?_, ?_, ?_, ?_⟩, ?_⟩
  · cases hseries : (s.senders[sender]?.getD ∅)[((metric.name, metric.labels) : SeriesKey)]? with
    | none =>
      -- a new series holds its name once more
      have hkinds : (accepted s sender metric now).kinds =
          hold s.kinds metric.name (metric.kind.getD .gauge) := by simp [accepted, hseries]
      rw [erase_self hseries] at hentry
      rw [hkinds]
      have hmore := h.counts.hold fun entry hin => ⟨haccepts.kind entry hin, hcount entry hin⟩
      exact hmore.perm ((hheld.cons _).trans ((hentry.symm.append_right _).trans hnew.symm))
    | some series =>
      have hkinds : (accepted s sender metric now).kinds = s.kinds := by simp [accepted, hseries]
      have hold := heldBy_erase hseries
      have hkind : series.kind = metric.kind.getD .gauge :=
        haccepts.kind_eq h.counts (hheld.mem_iff.2
          (List.mem_append_left _ (hold.mem_iff.2 List.mem_cons_self)))
      rw [hkind] at hold
      rw [hkinds]
      exact h.counts.perm
        (hheld.trans (((hold.trans hentry.symm).append_right _).trans hnew.symm))
  · intro other entry hother
    simp only [accepted, get_insert] at hother
    split at hother
    · obtain rfl := Option.some.inj hother
      have hbefore : (s.senders[sender]?.getD ∅).size ≤ MAX_SERIES_PER_SENDER := by
        cases hsender : s.senders[sender]? with
        | none => simp
        | some entry => exact h.capped sender entry hsender
      simp only [entryWith, Std.ExtTreeMap.size_insert]
      split
      · exact hbefore
      · next hout =>
        refine haccepts.room ?_
        exact Std.ExtTreeMap.getElem?_eq_none (by simpa using hout)
    · exact h.capped other entry hother
  · intro other key
    rw [latest_concat]
    split
    · next heq =>
      obtain ⟨rfl, rfl⟩ : sender = other ∧ (metric.name, metric.labels) = key :=
        of_decide_eq_true heq
      simp [StoreState.retained, accepted, entryWith, Mark.value]
    · next hne =>
      rw [← h.retained other key]
      simp only [StoreState.retained, accepted, get_insert]
      by_cases heq : other = sender
      · subst heq
        have hkey : ¬ key = (metric.name, metric.labels) := fun hkey =>
          hne (decide_eq_true ⟨rfl, hkey.symm⟩)
        cases hsender : s.senders[other]? <;> simp [entryWith, hkey, hsender]
      · rw [if_neg heq]
  · intro reason
    rw [List.countP_append, ← h.refused reason]
    simp [accepted, Mark.isFor]
  · exact traced_concat.2 ⟨h.first, fun refusal => nofun⟩
  · intro other why
    rw [latest_concat, if_neg (by simp [Mark.concerns])]
    exact h.announced other why

theorem Inv.drops {gone : List ℕ} (h : Inv s log) (hgone : gone.Nodup)
    (hheld : ∀ sender ∈ gone, s.senders[sender]? ≠ none) :
    Inv (gone.foldl dropSender s) (log ++ gone.map .freed) := by
  induction gone generalizing s log with
  | nil => simpa using h
  | cons sender gone ih =>
    obtain ⟨hout, hgone⟩ := List.nodup_cons.1 hgone
    have hfirst := h.drop fun hnone => absurd hnone (hheld sender List.mem_cons_self)
    have hrest := ih hfirst hgone fun other hother => ?_
    · simpa using hrest
    · have hne : other ≠ sender := fun heq => hout (heq ▸ hother)
      have hother := hheld other (List.mem_cons_of_mem _ hother)
      cases hentry : s.senders[sender]? with
      | none => simpa only [dropSender, hentry] using hother
      | some entry =>
        rw [dropSender_some hentry]
        simpa [hne] using hother

theorem gone_nodup (s : StoreState) (flock : List ProcessInfo) (now : ℕ) :
    (s.gone flock now).Nodup :=
  (nodup_keys s.senders).sublist ((List.filter_sublist).map _)

theorem held_of_gone {flock : List ProcessInfo} {now : ℕ} (h : sender ∈ s.gone flock now) :
    s.senders[sender]? ≠ none := by
  obtain ⟨⟨other, entry⟩, hin, rfl⟩ := List.mem_map.1 h
  rw [mem_toList.1 (List.mem_of_mem_filter hin)]
  exact Option.some_ne_none entry

theorem Inv.serve (h : Inv s log) {call : Call} (hcall : Allowed s call) :
    Inv (serve s call).1 (log ++ (serve s call).2) := by
  cases call with
  | upsert sender metric now =>
    obtain ⟨hkinds, hrefused⟩ := hcall
    rcases upsert_cases s sender metric now with ⟨reason, hres⟩ | ⟨haccepts, hres⟩
    · simp only [Metrics.serve, hres]
      exact h.refuse sender metric.name (hrefused reason)
    · simp only [Metrics.serve, hres]
      exact h.accept now haccepts hkinds
  | clear sender => exact h.drop hcall
  | snapshot flock now => exact h.drops (gone_nodup s flock now) fun other => held_of_gone

theorem Inv.serveAll {calls : List Call} (h : Inv s log)
    (hcalls : Drives (fun s call => (Metrics.serve s call).1) Allowed s calls) :
    Inv (serveAll s calls).1 (log ++ (serveAll s calls).2) := by
  induction calls generalizing s log with
  | nil => simpa [Metrics.serveAll] using h
  | cons call calls ih =>
    have hrest := ih (h.serve hcalls.1) hcalls.2
    rw [List.append_assoc] at hrest
    exact hrest

/-- **The store over whole runs.** After any calls each of which is allowed
where it is made the store is exact, and a sample that is refused there
changes no more than the count of its reason and what is announced. -/
theorem store_exact {calls : List Call}
    (hcalls : Drives (fun s call => (serve s call).1) Allowed .new calls) :
    Exact (serveAll .new calls).1 (serveAll .new calls).2 ∧
      ∀ sender metric now s' refusal,
        (serveAll .new calls).1.upsert sender metric now = (s', some refusal) →
        s'.senders = (serveAll .new calls).1.senders ∧ s'.kinds = (serveAll .new calls).1.kinds ∧
        ∀ reason : RefusalReason, reason ≠ refusal.reason →
          s'.refused[reason]? = (serveAll .new calls).1.refused[reason]? := by
  refine ⟨(inv_new.serveAll hcalls).toExact, fun sender metric now s' refusal hres => ?_⟩
  rcases upsert_cases (serveAll .new calls).1 sender metric now with
    ⟨reason, hrefused⟩ | ⟨-, haccepted⟩
  · obtain ⟨rfl, hrefusal⟩ := Prod.mk.inj (hrefused.symm.trans hres)
    obtain rfl := Option.some.inj hrefusal
    refine ⟨rfl, rfl, fun other hne => ?_⟩
    have hne' : other ≠ reason := hne
    simp [recordRefusal, hne']
  · cases haccepted.symm.trans hres

/-! ## A sender cleared while it holds nothing -/

/-- A sample named for the dog's own namespace. -/
def reservedSample : ChannelMetric := ⟨"shep_up".toList, ⟨false, 1023, 0⟩, none, [], none⟩

/-- It is sent, its sender restarts, and it is sent again. -/
def restarting : List Call := [.upsert 1 reservedSample 0, .clear 1, .upsert 1 reservedSample 1]

/-- The second refusal is not marked first, though the sender was cleared. -/
theorem refused_unannounced : ¬ Traced ToldFirst (serveAll .new restarting).2 := by
  intro h
  have hlog : (serveAll .new restarting).2 =
      [.refused ⟨1, "shep_up".toList, .reservedName, true⟩, .freed 1] ++
        .refused ⟨1, "shep_up".toList, .reservedName, false⟩ :: [] := by rfl
  have htold := h _ _ _ hlog _ rfl
  exact absurd htold (by decide)

/-- A sample the grammar admits. -/
def queueDepth : ChannelMetric := ⟨"queue_depth".toList, ⟨false, 1025, 0⟩, none, [], none⟩

/-- It is accepted, and its sender cleared. -/
def cleared : List Call := [.upsert 1 queueDepth 0, .clear 1]

theorem store_exact_cleared :
    Exact (serveAll .new cleared).1 (serveAll .new cleared).2 := by
  have hcalls : Drives (fun s call => (serve s call).1) Allowed .new cleared := by
    refine And.intro (And.intro ?_ ?_) (And.intro ?_ trivial)
    · intro entry hentry
      simp [new] at hentry
    · intro reason
      simp [new]
    · intro hnone
      have hheld : (new.upsert 1 queueDepth 0).1.senders[(1 : ℕ)]? ≠ none := by decide
      exact absurd hnone hheld
  exact (store_exact hcalls).1

end Metrics

end Shep

import Mathlib.Data.List.Perm.Basic
import Shep.Metrics.Store

/-!
# Metrics — the families of a snapshot

What every sample that is retained has passed, after any run of calls
(`Clean`), and what the snapshot makes of the samples: a `Row` is a retained
sample with the listing's row of its sender, and a family has the points of
the rows of its name, in their order (`Gathers`).
-/

namespace Shep

namespace Metrics

open Table StoreState

/-! ## What is retained -/

/-- A series that the grammar admits, with the labels of a message. -/
structure Admitted (key : SeriesKey) : Prop where
  passes : ∃ help, refusalFor key.1 key.2 help = none
  table : ∃ labels : Std.ExtTreeMap Text Text, key.2 = labels.toList

/-- What is retained was admitted, and what is counted fits its type. -/
structure Clean (s : StoreState) : Prop where
  admitted : Each (fun _ entry => Each (fun key _ => Admitted key) entry) s.senders
  refused : Each (fun _ n => n < 2 ^ 64) s.refused

/-- A call as the feed makes it: a sample is one that a child sent. -/
def Call.Sent : Call → Prop
  | .upsert _ metric _ => ∃ message, ChannelMetric.fromChild message = some metric
  | .clear _ => True
  | .snapshot _ _ => True

variable {s : StoreState} {sender : ℕ} {metric : ChannelMetric} {now : ℕ}

theorem upsert_passes (h : (s.upsert sender metric now).2 = none) :
    refusalFor metric.name metric.labels metric.help = none := by
  unfold upsert at h
  cases hrefusal : refusalFor metric.name metric.labels metric.help with
  | none => rfl
  | some reason =>
    rw [hrefusal] at h
    cases h

theorem table_of_sent {message : ChildMessage}
    (h : ChannelMetric.fromChild message = some metric) :
    ∃ labels : Std.ExtTreeMap Text Text, metric.labels = labels.toList := by
  cases message with
  | metric name value kind labels help =>
    obtain rfl := Option.some.inj h
    exact ⟨labels, rfl⟩
  | ready => cases h
  | actionReply => cases h
  | lambLabel => cases h
  | note => cases h

namespace Clean

theorem upsert (h : Clean s) (hsent : (Call.upsert sender metric now).Sent) :
    Clean (s.upsert sender metric now).1 := by
  rcases upsert_cases s sender metric now with ⟨reason, hres⟩ | ⟨-, hres⟩
  · rw [hres]
    exact ⟨h.admitted, h.refused.insert (Nat.mod_lt _ (by decide))⟩
  · have hpasses := upsert_passes (congrArg Prod.snd hres)
    obtain ⟨message, hmessage⟩ := hsent
    have hentry : Each (fun key _ => Admitted key) (s.senders[sender]?.getD ∅) := by
      cases hsender : s.senders[sender]? with
      | none =>
        intro key series hkey
        simp at hkey
      | some entry => exact h.admitted sender entry hsender
    rw [hres]
    exact ⟨h.admitted.insert (hentry.insert ⟨⟨_, hpasses⟩, table_of_sent hmessage⟩), h.refused⟩

theorem dropSender (h : Clean s) (sender : ℕ) : Clean (s.dropSender sender) := by
  cases hentry : s.senders[sender]? with
  | none =>
    have hsame : s.dropSender sender = s := by simp only [StoreState.dropSender, hentry]
    rw [hsame]
    exact h
  | some entry =>
    rw [dropSender_some hentry]
    exact ⟨h.admitted.erase sender, h.refused⟩

theorem drops (h : Clean s) (gone : List ℕ) : Clean (gone.foldl StoreState.dropSender s) := by
  induction gone generalizing s with
  | nil => exact h
  | cons sender gone ih => exact ih (h.dropSender sender)

theorem serve (h : Clean s) {call : Call} (hsent : call.Sent) : Clean (serve s call).1 := by
  cases call with
  | upsert sender metric now => exact h.upsert hsent
  | clear sender => exact h.dropSender sender
  | snapshot flock now => exact h.drops _

theorem serveAll (h : Clean s) {calls : List Call} (hsent : ∀ call ∈ calls, call.Sent) :
    Clean (serveAll s calls).1 := by
  induction calls generalizing s with
  | nil => exact h
  | cons call calls ih =>
    exact ih (h.serve (hsent call List.mem_cons_self)) fun other hin =>
      hsent other (List.mem_cons_of_mem _ hin)

end Clean

/-! ## What the grammar admits -/

/-- A retained sample, with the listing's row of its sender. -/
abbrev Row := ProcessInfo × SeriesKey × Series

/-- The point of a row. -/
def pointOf (row : Row) : SamplePoint := ⟨senderLabels row.1 ++ row.2.1.2, row.2.2.value⟩

/-- One sender's rows. -/
def rowsOf (flock : List ProcessInfo) (e : ℕ × SenderEntry) : List Row :=
  (live flock e.1).elim [] fun info => e.2.toList.map (Prod.mk info)

/-- What a snapshot gathers, in the order it does. -/
def StoreState.rows (s : StoreState) (flock : List ProcessInfo) : List Row :=
  s.senders.toList.flatMap (rowsOf flock)

/-- A row, in its family. -/
def gatherRow (families : Families) (row : Row) : Families :=
  gather (senderLabels row.1) families row.2

/-- The families have the rows: each under its name, the points in order. -/
structure Gathers (rows : List Row) (families : Families) : Prop where
  name : Each (fun name family => family.name = name) families
  held : Each (fun _ family => family.points ≠ []) families
  points : ∀ name : Text, (families[name]?.elim [] SampleFamily.points) =
    (rows.filter fun row => row.2.1.1 = name).map pointOf

theorem Gathers.gatherRow {rows : List Row} {families : Families} (h : Gathers rows families)
    (row : Row) : Gathers (rows ++ [row]) (gatherRow families row) := by
  have hname : (families[row.2.1.1]?.getD ⟨row.2.1.1, row.2.2.help, row.2.2.kind, []⟩).name =
      row.2.1.1 := by
    cases hfamily : families[row.2.1.1]? with
    | none => rfl
    | some family => exact h.name _ family hfamily
  have hpoints : (families[row.2.1.1]?.getD ⟨row.2.1.1, row.2.2.help, row.2.2.kind, []⟩).points =
      families[row.2.1.1]?.elim [] SampleFamily.points := by
    cases families[row.2.1.1]? <;> rfl
  refine ⟨h.name.insert hname, h.held.insert (List.append_ne_nil_of_right_ne_nil _ (by simp)),
    fun name => ?_⟩
  rw [Metrics.gatherRow, gather, get_insert, List.filter_append, List.map_append, ← h.points name]
  by_cases heq : name = row.2.1.1
  · subst heq
    rw [if_pos rfl, Option.elim_some, hpoints]
    simp [pointOf]
  · have heq' : ¬ row.2.1.1 = name := fun e => heq e.symm
    simp [heq, heq']

theorem Gathers.foldl {done rows : List Row} {families : Families} (h : Gathers done families) :
    Gathers (done ++ rows) (rows.foldl Metrics.gatherRow families) := by
  induction rows generalizing done families with
  | nil => simpa using h
  | cons row rows ih =>
    have hrest := ih (h.gatherRow row)
    rwa [List.append_assoc] at hrest

/-- The families before shep's own counter is put among them. -/
def StoreState.gathered (s : StoreState) (flock : List ProcessInfo) : Families :=
  s.senders.toList.foldl (gatherSender flock) ∅

/-- The ids of a listing are distinct, and so are the names of its dogs. -/
structure Distinct (flock : List ProcessInfo) : Prop where
  ids : (flock.map ProcessInfo.id).Nodup
  dogs : ((flock.filter fun info => info.dog.isSome).map ProcessInfo.name).Nodup

variable {flock : List ProcessInfo} {info info' : ProcessInfo} {row row' : Row}

theorem of_live (h : live flock sender = some info) : info ∈ flock ∧ info.id = sender :=
  ⟨List.mem_reverse.1 (List.mem_of_find?_eq_some h), by simpa using List.find?_some h⟩

theorem Distinct.live (h : Distinct flock) (hin : info ∈ flock) :
    live flock info.id = some info := by
  cases hlive : Metrics.live flock info.id with
  | none =>
    have := List.find?_eq_none.1 hlive info (List.mem_reverse.2 hin)
    simp at this
  | some other =>
    obtain ⟨hother, hid⟩ := of_live hlive
    rw [List.inj_on_of_nodup_map h.ids hother hin hid]

theorem decimal_eq (n : ℕ) : decimal n = Nat.toDigits 10 n := by
  rw [decimal, Nat.repr_eq_ofList_toDigits, String.toList_ofList]

theorem decimal_injective : Function.Injective decimal := by
  intro m n h
  rw [decimal_eq, decimal_eq] at h
  rw [← Nat.ofDigitChars_ten_toDigits (n := m), h, Nat.ofDigitChars_ten_toDigits]

end Metrics

end Shep

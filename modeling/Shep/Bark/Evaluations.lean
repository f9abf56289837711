import Shep.Bark.Model

/-!
# Bark — one evaluation, and what the engine remembers of all of them

An evaluation of a rule for a subject fires exactly if the trigger held and
the debounce has elapsed since the rule last fired for the subject
(`Evaluated`), and it touches no other rule's or subject's record. Over any
number of calls the engine's record is the last firing of the log
(`Record`), on whichever route it came: `Record.serveAll`.
-/

namespace Shep

namespace Bark

open Values

/-- The look fired the rule for the subject. -/
def Look.firedFor (subject : String) (idx : ℕ) (k : Look) : Bool :=
  k.firing.isSome ∧ k.subject = subject ∧ k.idx = idx

namespace Rules

variable {r r' : Rules} {idx nowMs : ℕ} {subject : String} {rule : Rule}

/-- When a rule last fired for a subject. -/
def lastFired (r : Rules) (subject : String) (idx : ℕ) : Option ℕ :=
  (subjectState r.subjects subject).lastFired[idx]?

/-- The window a rule counts a subject's restarts in. -/
def window (r : Rules) (subject : String) (idx : ℕ) : Option (ℕ × ℕ) :=
  (subjectState r.subjects subject).restartWindows[idx]?

theorem subjectState_insert (subjects : Subjects) (subject s : String) (state : SubjectState) :
    subjectState (subjects.insert subject state) s =
      if s = subject then state else subjectState subjects s := by
  unfold subjectState
  rw [Table.get_insert]
  split <;> rfl

/-! ## One evaluation -/

/-- What an evaluation does with the engine. -/
structure Evaluated (r r' : Rules) (k : Look) : Prop where
  rules : r'.rules = r.rules
  logRules : r'.logRules = r.logRules
  names : r'.names = r.names
  known : k.idx < r.rules.length
  fires : k.firing.isSome ↔ k.message.isSome ∧ ∃ rule, r.rules[k.idx]? = some rule ∧
    ready rule.debounce (r.lastFired k.subject k.idx) k.nowMs
  barks : ∀ f, k.firing = some f → f.atMs = k.nowMs ∧ f.subject = k.subject ∧
    some f.message = k.message
  keeps : ∀ s i, r'.lastFired s i =
    if k.firedFor s i then some k.nowMs else r.lastFired s i

theorem fireRule_ready (hrule : r.rules[idx]? = some rule)
    (hready : ready rule.debounce (r.lastFired subject idx) nowMs = true) (text : String) :
    fireRule r.rules r.subjects idx subject nowMs text =
      (r.subjects.insert subject { subjectState r.subjects subject with
          lastFired := (subjectState r.subjects subject).lastFired.insert idx nowMs },
        some ⟨nowMs, triggerName rule.trigger, subject, text, rule.sinks⟩) := by
  unfold fireRule
  rw [hrule]
  exact if_pos hready

theorem fireRule_early (hrule : r.rules[idx]? = some rule)
    (hready : ¬ ready rule.debounce (r.lastFired subject idx) nowMs = true) (text : String) :
    fireRule r.rules r.subjects idx subject nowMs text =
      (r.subjects.insert subject (subjectState r.subjects subject), none) := by
  unfold fireRule
  rw [hrule]
  exact if_neg hready

/-- An evaluation of one rule for one subject leaves the windows alone. -/
theorem look_spec (hidx : idx < r.rules.length) (subject : String) (nowMs : ℕ)
    (message : Option String) :
    ∃ k, (r.look idx subject nowMs message).2 = [k] ∧
      k.subject = subject ∧ k.idx = idx ∧ k.nowMs = nowMs ∧ k.message = message ∧
      Evaluated r (r.look idx subject nowMs message).1 k ∧
      ∀ s i, (r.look idx subject nowMs message).1.window s i = r.window s i := by
  have hrule := List.getElem?_eq_getElem hidx
  cases message with
  | none =>
    refine ⟨_, rfl, rfl, rfl, rfl, rfl,
      ⟨rfl, rfl, rfl, hidx, by simp, by simp, ?_⟩, fun _ _ => rfl⟩
    intro s i
    simp [look, Look.firedFor]
  | some text =>
    by_cases hready : ready r.rules[idx].debounce (r.lastFired subject idx) nowMs = true
    · have heq := fireRule_ready hrule hready text
      refine ⟨⟨idx, subject, nowMs, some text, _⟩, by rw [look, heq], rfl, rfl, rfl, rfl, ?_, ?_⟩
      · refine ⟨rfl, rfl, rfl, hidx, by simp [hrule, hready], by simp, fun s i => ?_⟩
        simp only [look, heq, lastFired, Look.firedFor, subjectState_insert]
        by_cases hs : s = subject
        · subst hs
          by_cases hi : i = idx
          · simp [hi]
          · simp [hi, Ne.symm hi]
        · simp [hs, Ne.symm hs]
      · intro s i
        simp only [look, heq, window, subjectState_insert]
        split
        · next hs => rw [hs]
        · rfl
    · have heq := fireRule_early hrule hready text
      have hsame : ∀ s,
          subjectState (r.subjects.insert subject (subjectState r.subjects subject)) s =
            subjectState r.subjects s := by
        intro s
        rw [subjectState_insert]
        split
        · next hs => rw [hs]
        · rfl
      refine ⟨⟨idx, subject, nowMs, some text, none⟩, by rw [look, heq], rfl, rfl, rfl, rfl, ?_, ?_⟩
      · refine ⟨rfl, rfl, rfl, hidx, by simp [hrule, hready], by simp, fun s i => ?_⟩
        simp [look, heq, lastFired, Look.firedFor, hsame]
      · intro s i
        simp only [look, heq, window, hsame]

/-! ## The routes, one evaluation at a time -/

/-- A trigger's look at a row touches neither the rules nor when they last
fired. -/
theorem rowMessage_spec (idx : ℕ) (trigger : Trigger) (info : ProcessInfo) (nowMs : ℕ) :
    (r.rowMessage idx trigger info nowMs).1.rules = r.rules ∧
      (r.rowMessage idx trigger info nowMs).1.logRules = r.logRules ∧
      (r.rowMessage idx trigger info nowMs).1.names = r.names ∧
      ∀ s i, (r.rowMessage idx trigger info nowMs).1.lastFired s i = r.lastFired s i := by
  cases trigger with
  | restartRate restarts within =>
    refine ⟨rfl, rfl, rfl, fun s i => ?_⟩
    simp only [rowMessage, restartWindowCrossed, lastFired, subjectState_insert]
    split
    · next hs => rw [hs]
    · rfl
  | _ => exact ⟨rfl, rfl, rfl, fun _ _ => rfl⟩

theorem rowRule_spec (info : ProcessInfo) (nowMs : ℕ) (hidx : idx < r.rules.length) :
    ∃ k, (rowRule info nowMs r idx).2 = [k] ∧ k.subject = info.name ∧ k.nowMs = nowMs ∧
      Evaluated r (rowRule info nowMs r idx).1 k := by
  have hrule := List.getElem?_eq_getElem hidx
  obtain ⟨hrules, hlogs, hnames, hlast⟩ :=
    r.rowMessage_spec idx r.rules[idx].trigger info nowMs
  obtain ⟨k, hk, hsubject, -, hnow, -, heval, -⟩ := look_spec (hrules ▸ hidx) info.name
    nowMs (r.rowMessage idx r.rules[idx].trigger info nowMs).2
  have heq : rowRule info nowMs r idx = (r.rowMessage idx r.rules[idx].trigger info nowMs).1.look
      idx info.name nowMs (r.rowMessage idx r.rules[idx].trigger info nowMs).2 := by
    simp only [rowRule, hrule]
  rw [heq]
  refine ⟨k, hk, hsubject, hnow, heval.rules.trans hrules, heval.logRules.trans hlogs,
    heval.names.trans hnames, hrules ▸ heval.known, ?_, heval.barks, fun s i => ?_⟩
  · rw [heval.fires, hrules, hlast]
  · rw [heval.keeps, hlast]

theorem eventRule_spec (kind : ProcessEventKind) (info : ProcessInfo) (nowMs : ℕ)
    (hidx : idx < r.rules.length) :
    ∃ k, (eventRule kind info nowMs r idx).2 = [k] ∧ k.subject = info.name ∧ k.nowMs = nowMs ∧
      Evaluated r (eventRule kind info nowMs r idx).1 k := by
  obtain ⟨k, hk, hsubject, -, hnow, -, heval, -⟩ := look_spec hidx info.name nowMs
    ((r.rules[idx]?).bind fun rule => eventMessage rule.trigger kind info)
  exact ⟨k, hk, hsubject, hnow, heval⟩

/-- A log rule that does not read the line, or knows no name for it, does
nothing. -/
theorem logRule_spec (id : ℕ) (line : String) (source : Source) (nowMs : ℕ) {logRule' : LogRule}
    (hidx : logRule'.idx < r.rules.length) :
    logRule id line source nowMs r logRule' = (r, []) ∨
      ∃ k, (logRule id line source nowMs r logRule').2 = [k] ∧ r.names[id]? = some k.subject ∧
        k.nowMs = nowMs ∧ Evaluated r (logRule id line source nowMs r logRule').1 k := by
  unfold logRule
  split
  · cases hname : r.names[id]? with
    | none => exact .inl rfl
    | some name =>
      obtain ⟨k, hk, hsubject, -, hnow, -, heval, -⟩ := look_spec hidx name nowMs
        (some (logMessage name source line))
      exact .inr ⟨k, hk, by rw [hsubject], hnow, heval⟩
  · exact .inl rfl

/-! ## The record -/

/-- What an evaluation is told by the firings before it. -/
def Debounced (rules : List Rule) (before : List Look) (k : Look) : Prop :=
  (k.firing.isSome ↔ k.message.isSome ∧ ∃ rule, rules[k.idx]? = some rule ∧
    ready rule.debounce ((latest (Look.firedFor k.subject k.idx) before).map Look.nowMs) k.nowMs) ∧
  k.idx < rules.length ∧
  ∀ f, k.firing = some f → f.atMs = k.nowMs ∧ f.subject = k.subject ∧ some f.message = k.message

/-- **The engine's record is the log's.** -/
structure Record (rules : List Rule) (log : List Look) (r : Rules) : Prop where
  same : r.rules = rules
  compiled : ∀ rule ∈ r.logRules, rule.idx < rules.length
  last : ∀ s i, r.lastFired s i = (latest (Look.firedFor s i) log).map Look.nowMs
  traced : Traced (Debounced rules) log

/-- A call's evaluations so far. -/
structure Served (rules : List Rule) (log : List Look) (now : ℕ) (out : List Look)
    (r : Rules) : Prop where
  record : Record rules (log ++ out) r
  stamped : ∀ k ∈ out, k.nowMs = now

section Record

variable {rules : List Rule} {now : ℕ} {log out : List Look} {k : Look}

theorem Record.evaluated (h : Record rules log r) (he : Evaluated r r' k) :
    Record rules (log ++ [k]) r' := by
  refine ⟨he.rules.trans h.same, he.logRules ▸ h.compiled, fun s i => ?_, ?_⟩
  · rw [he.keeps, latest_concat, h.last]
    split <;> rfl
  · refine traced_concat.2 ⟨h.traced, ?_, h.same ▸ he.known, he.barks⟩
    rw [he.fires, h.same, h.last]

theorem Record.learn (h : Record rules log r) (flock : List ProcessInfo) :
    Record rules log (r.learn flock) := by
  unfold Rules.learn
  split
  · exact h
  · exact ⟨h.same, h.compiled, h.last, h.traced⟩

theorem Record.noteName (h : Record rules log r) (kind : ProcessEventKind) (info : ProcessInfo) :
    Record rules log (r.noteName kind info) := by
  unfold Rules.noteName
  split_ifs
  · exact h
  · exact ⟨h.same, h.compiled, h.last, h.traced⟩
  · exact ⟨h.same, h.compiled, h.last, h.traced⟩
  · exact h

namespace Served

theorem evaluated (h : Served rules log now out r) (he : Evaluated r r' k) (hnow : k.nowMs = now) :
    Served rules log now (out ++ [k]) r' := by
  refine ⟨?_, fun j hj => ?_⟩
  · rw [← List.append_assoc]
    exact h.record.evaluated he
  · rcases List.mem_append.1 hj with hj | hj
    · exact h.stamped j hj
    · rw [List.mem_singleton.1 hj, hnow]

theorem none (h : Record rules log r) : Served rules log now [] r :=
  ⟨by rwa [List.append_nil], by simp⟩

theorem onLogEvent (h : Record rules log r) (event : BusEvent) :
    Served rules log now (r.onLogEvent event now).2 (r.onLogEvent event now).1 := by
  have hfeed : ∀ id line source,
      Served rules log now (feed (logRule id line source now) r r.logRules).2
        (feed (logRule id line source now) r r.logRules).1 := by
    intro id line source
    have hcompiled := h.compiled
    refine feed_rule (I := Served rules log now) (fun out r rule hrule hr => ?_) (none h)
    rcases logRule_spec id line source now (hr.record.same ▸ hcompiled rule hrule) with
      heq | ⟨k, hk, -, hnow, he⟩
    · rw [heq]
      simpa using hr
    · rw [hk]
      exact hr.evaluated he hnow
  cases event with
  | logOut id line => exact hfeed id line .out
  | logErr id line => exact hfeed id line .err
  | process kind info => exact none h
  | other => exact none h

theorem onEvent (h : Record rules log r) (event : BusEvent) :
    Served rules log now (r.onEvent event now).2 (r.onEvent event now).1 := by
  cases event with
  | process kind info =>
    refine feed_rule (I := Served rules log now) (fun out r' idx hidx hr => ?_)
      (none (h.noteName kind info))
    have hlen : idx < r'.rules.length := by
      rw [hr.record.same, ← h.same]
      exact List.mem_range.1 hidx
    obtain ⟨k, hk, -, hnow, he⟩ := eventRule_spec kind info now hlen
    rw [hk]
    exact hr.evaluated he hnow
  | _ => exact onLogEvent h _

theorem pollRow (h : Served rules log now out r) (info : ProcessInfo) :
    Served rules log now (out ++ (pollRow now r info).2) (Rules.pollRow now r info).1 := by
  refine feed_rule (I := Served rules log now) (fun out r' idx hidx hr => ?_) h
  have hlen : idx < r'.rules.length := by
    rw [hr.record.same, ← h.record.same]
    exact List.mem_range.1 hidx
  obtain ⟨k, hk, -, hnow, he⟩ := rowRule_spec info now hlen
  rw [hk]
  exact hr.evaluated he hnow

/-- **A call keeps the record**, and evaluates at its stamp. -/
theorem serve (h : Record rules log r) (call : Call) (now : ℕ) :
    Served rules log now (r.serve call now).2 (r.serve call now).1 := by
  cases call with
  | event event => exact onEvent h event
  | poll flock =>
    exact feed_rule (I := Served rules log now) (fun out r info _ hr => hr.pollRow info)
      (none (h.learn flock))
  | learn flock => exact none (h.learn flock)

end Served

/-- **Any number of calls keep the record.** -/
theorem Record.serveAll (h : Record rules log r) (calls : List (Call × ℕ)) :
    Record rules (log ++ (r.serveAll calls).2) (r.serveAll calls).1 :=
  feed_rule (I := Record rules) (fun _ _ call _ hr => (Served.serve hr call.1 call.2).record) h

/-- If their stamps never go back, no evaluation is stamped before an
earlier one. -/
theorem Record.stamps (h : Record rules log r) {calls : List (Call × ℕ)}
    (hstamps : (calls.map Prod.snd).Pairwise (· ≤ ·)) :
    (r.serveAll calls).2.Pairwise (fun j k => j.nowMs ≤ k.nowMs) ∧
      ∀ k ∈ (r.serveAll calls).2, k.nowMs ∈ calls.map Prod.snd := by
  induction calls generalizing r log with
  | nil => exact ⟨List.Pairwise.nil, by simp [Rules.serveAll]⟩
  | cons call calls ih =>
    rw [List.map_cons, List.pairwise_cons] at hstamps
    have hone := Served.serve h call.1 call.2
    obtain ⟨hsorted, hamong⟩ := ih hone.record hstamps.2
    rw [Rules.serveAll, feed_cons]
    refine ⟨List.pairwise_append.2 ⟨?_, hsorted, fun j hj k hk => ?_⟩, fun k hk => ?_⟩
    · refine List.Pairwise.imp_of_mem (fun hj hk _ => ?_)
        (List.pairwise_of_forall fun _ _ => trivial)
      rw [hone.stamped _ hj, hone.stamped _ hk]
    · rw [hone.stamped j hj]
      exact hstamps.1 _ (hamong k hk)
    · rcases List.mem_append.1 hk with hk | hk
      · rw [hone.stamped k hk]
        exact List.mem_cons_self
      · exact List.mem_cons_of_mem _ (hamong k hk)

end Record

/-! ## An engine just built -/

theorem admits_idx {regex : Compile} {sinks : Std.ExtTreeMap String Sink} {index : ℕ}
    {logRules : List LogRule} (h : admits regex sinks index rule = .ok logRules) :
    ∀ logRule ∈ logRules, logRule.idx = index := by
  unfold admits at h
  split at h
  · cases h
  · split at h
    · cases h
    · split at h
      · split at h
        · cases h
        · obtain rfl := Except.ok.inj h
          simp
      · unfold LogRule.compile at h
        split at h
        · cases h
        · split at h
          · cases h
          · obtain rfl := Except.ok.inj h
            simp
      · obtain rfl := Except.ok.inj h
        simp

theorem admitsFrom_idx {regex : Compile} {sinks : Std.ExtTreeMap String Sink} {index : ℕ}
    {rules : List Rule} {logRules : List LogRule}
    (h : admitsFrom regex sinks index rules = .ok logRules) :
    ∀ logRule ∈ logRules, logRule.idx < index + rules.length := by
  induction rules generalizing index logRules with
  | nil =>
    obtain rfl := Except.ok.inj h
    simp
  | cons rule rules ih =>
    rw [admitsFrom] at h
    cases hone : admits regex sinks index rule with
    | error err => simp [hone, bind, Except.bind] at h
    | ok one =>
      cases hmore : admitsFrom regex sinks (index + 1) rules with
      | error err => simp [hone, hmore, bind, Except.bind] at h
      | ok more =>
        simp only [hone, hmore, bind, Except.bind, pure, Except.pure, Except.ok.injEq] at h
        subst h
        intro logRule hl
        rw [List.length_cons]
        rcases List.mem_append.1 hl with hl | hl
        · rw [admits_idx hone logRule hl]
          omega
        · have := ih hmore logRule hl
          omega

theorem new_eq_ok {regex : Compile} {rules : List Rule} {sinks : Std.ExtTreeMap String Sink}
    (h : Rules.new regex rules sinks = .ok r) :
    ∃ logRules, admitsFrom regex sinks 0 rules = .ok logRules ∧ r = ⟨rules, ∅, logRules, ∅⟩ := by
  unfold Rules.new at h
  cases husable : usable sinks.toList with
  | error err => simp [husable, bind, Except.bind] at h
  | ok u =>
    cases hlogs : admitsFrom regex sinks 0 rules with
    | error err => simp [husable, hlogs, bind, Except.bind] at h
    | ok logRules =>
      simp only [husable, hlogs, bind, Except.bind, pure, Except.pure, Except.ok.injEq] at h
      exact ⟨logRules, rfl, h.symm⟩

/-- An engine just built has no record, and its log rules are among its
rules. -/
theorem record_new {regex : Compile} {rules : List Rule} {sinks : Std.ExtTreeMap String Sink}
    (h : Rules.new regex rules sinks = .ok r) : Record rules [] r := by
  obtain ⟨logRules, hlogs, rfl⟩ := new_eq_ok h
  refine ⟨rfl, fun rule hrule => ?_, fun s i => ?_, traced_nil⟩
  · have := admitsFrom_idx hlogs rule hrule
    omega
  · simp [lastFired, subjectState, SubjectState.fresh]

end Rules

/-- One sink, for the rules of the instances below. -/
def oneSink : Std.ExtTreeMap String Sink := (∅ : Std.ExtTreeMap String Sink).insert "ops"
  (.json "http://ops.internal/hook" none)

end Bark

end Shep

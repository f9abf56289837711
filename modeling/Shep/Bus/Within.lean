import Shep.Bus.Accounted

/-!
# Bus — what a link may hear

A dog hears the topics it was granted, and a launch link its own sheep's
settings. Neither is checked against the events: a dog's patterns are
checked by their text before the first glob character, ahead of each frame,
and a launch link's filter is narrowed once. That the globset crate matches
such text as it stands is `Globset.Literal`.
-/

namespace Shep

namespace Bus

open Broadcast (Received)
open Gate (KnownDogs)

variable {G : Globset} {Info Json Bytes : Type} {wire : SharedEvent Info Json → Option Bytes}
  {s t u : Traffic G Info Json Bytes} {e : Event Info Json}
  {h : List (Traffic G Info Json Bytes × Event Info Json)}
  {f f' : Forwarder G Info Json Bytes} {i : ℕ}
  {filter : TopicFilter G} {patterns : List Topic}

/-! ## Patterns -/

/-- What a compiled set matches begins with the literal text of one of its
patterns, and is that pattern where it is all literal text. -/
structure Globset.Literal (G : Globset) : Prop where
  matched : ∀ {patterns : List Topic} {globs : List G.Glob} {set : G.GlobSet} {topic : Topic},
    patterns.mapM G.glob = .ok globs → G.build globs = .ok set → G.isMatch set topic = true →
      ∃ pattern ∈ patterns, literalHead pattern <+: topic ∧
        (literalHead pattern = pattern → topic = pattern)

/-- A grant covers whatever begins with a head it covers. -/
theorem covers_mono {granted head topic : Topic} (hhead : head <+: topic)
    (h : covers granted head = true) : covers granted topic = true := by
  obtain ⟨more, rfl⟩ := hhead
  unfold covers at h ⊢
  split at h
  case isFalse halone =>
    rw [if_neg halone]
    exact List.isPrefixOf_iff_prefix.2 ((List.isPrefixOf_iff_prefix.1 h).trans
      (List.prefix_append head more))
  case isTrue halone =>
    rw [if_pos halone]
    cases hdrop : head.dropPrefix? granted with
    | none => simp [hdrop] at h
    | some rest =>
      -- the rest begins with the dot that ends the dog's own segment
      obtain ⟨text, rfl, htext⟩ := List.dropPrefix?_eq_some_iff.1 hdrop
      have hmore : (text ++ rest ++ more).dropPrefix? granted = some (rest ++ more) :=
        List.dropPrefix?_eq_some_iff.2 ⟨text, List.append_assoc .., htext⟩
      rw [hdrop] at h
      rw [hmore]
      cases rest with
      | nil => simp at h
      | cons c rest => simpa using h

theorem grantCovers_mono {name : String} {head topic : Topic} (hhead : head <+: topic)
    (h : grantCovers name head = true) : grantCovers name topic = true := by
  unfold grantCovers at h ⊢
  split at h
  case h_1 => exact covers_mono hhead h
  case h_2 => cases h

theorem mapM_mapError {α β ε ε' : Type} {g : α → Except ε β} {wrap : α → ε → ε'} {l : List α}
    {out : List β} (h : l.mapM (fun a => (g a).mapError (wrap a)) = .ok out) :
    l.mapM g = .ok out := by
  induction l generalizing out with
  | nil =>
    cases h
    rfl
  | cons a l ih =>
    rw [List.mapM_cons] at h ⊢
    cases ha : g a with
    | error =>
      rw [ha] at h
      cases h
    | ok b =>
      rw [ha] at h
      cases hl : l.mapM (fun a => (g a).mapError (wrap a)) with
      | error =>
        simp only [Except.mapError] at h hl
        rw [hl] at h
        cases h
      | ok bs =>
        simp only [Except.mapError] at h hl
        rw [hl] at h
        rw [ih (by simpa only [Except.mapError] using hl)]
        cases h
        rfl

/-- A compiled filter lets through what begins as one of its patterns. -/
theorem TopicFilter.new_matches (hG : G.Literal) (hnew : TopicFilter.new G patterns = .ok filter)
    {topic : Topic} (h : G.isMatch filter.set topic = true) :
    filter.patterns = patterns ∧ ∃ pattern ∈ patterns, literalHead pattern <+: topic ∧
      (literalHead pattern = pattern → topic = pattern) := by
  unfold TopicFilter.new at hnew
  split at hnew
  case isTrue => cases hnew
  case isFalse =>
    cases hglobs : patterns.mapM fun pattern => (G.glob pattern).mapError
        (BusError.badPattern pattern) with
    | error =>
      rw [hglobs] at hnew
      cases hnew
    | ok globs =>
      rw [hglobs] at hnew
      cases hset : G.build globs with
      | error => simp [hset, Except.mapError, bind, Except.bind] at hnew
      | ok set =>
        simp only [hset, Except.mapError, bind, Except.bind, pure, Except.pure,
          Except.ok.injEq] at hnew
        subst hnew
        exact ⟨rfl, hG.matched (mapM_mapError hglobs) hset h⟩

/-! ## Links -/

/-- What a link may hear, by the grants on record. Of its own two topics a
dog hears what their literal text begins, which is no more than themselves
where its name is all literal text, and so does a launch link of its one. -/
def Link.MayHear (known : KnownDogs) (event : SharedEvent Info Json) : Link → Prop
  | .control => True
  | .dog name => ∀ grants, known.grants name = some grants →
      (∃ granted ∈ grants, grantCovers granted event.topic = true) ∨
      ∃ own, isOwnConfigTopic own name = true ∧ literalHead own <+: event.topic ∧
        (literalHead own = own → event.topic = own)
  | .launch name sheep => ∃ dog, event = .dogSheepSettingsChanged dog sheep ∧
      (literalHead name.toList = name.toList → dog = name)

/-- A forwarder's filter is its link's, of patterns the link may subscribe to. -/
def Forwarder.Compiled (f : Forwarder G Info Json Bytes) : Prop :=
  ∃ patterns filter, TopicFilter.new G patterns = .ok filter ∧ f.link.admits patterns = true ∧
    f.filter = f.link.narrow filter

theorem literalHead_append_of_literal {head : Topic}
    (hhead : ∀ c ∈ head, globChars.contains c = false) (rest : Topic) :
    literalHead (head ++ rest) = head ++ literalHead rest := by
  refine List.takeWhile_append_of_pos fun c hc => ?_
  rw [hhead c hc]
  rfl

/-- **What a filter lets through, its link may hear.** -/
theorem Forwarder.Compiled.mayHear (hG : G.Literal) (hf : f.Compiled) {known : KnownDogs}
    {event : SharedEvent Info Json} (hallowed : stillAllowed known f.link f.filter.patterns = true)
    (hmatch : f.filter.matchesEvent event = true) : f.link.MayHear known event := by
  obtain ⟨patterns, filter, hnew, hadmits, hfilter⟩ := hf
  have hset := (Bool.and_eq_true_iff.1 hmatch).1
  cases hlink : f.link with
  | control => trivial
  | dog name =>
    rw [hfilter, hlink] at hset hallowed
    obtain ⟨rfl, pattern, hpattern, hhead, hliteral⟩ := TopicFilter.new_matches hG hnew hset
    intro grants hgrants
    simp only [stillAllowed, hgrants, Link.narrow, List.all_eq_true] at hallowed
    rcases Bool.or_eq_true_iff.1 (hallowed pattern hpattern) with hcovered | hown
    · obtain ⟨granted, hmem, hcovers⟩ := of_decide_eq_true hcovered
      exact .inl ⟨granted, hmem, grantCovers_mono hhead hcovers⟩
    · exact .inr ⟨pattern, hown, hhead, hliteral⟩
  | launch name sheep =>
    rw [hlink, Link.admits, List.all_eq_true] at hadmits
    rw [hfilter, hlink] at hset
    obtain ⟨-, pattern, hpattern, -, hliteral⟩ := TopicFilter.new_matches hG hnew hset
    have hpattern := eq_of_beq (hadmits pattern hpattern)
    have honly : f.filter.onlySheep = some sheep := by rw [hfilter, hlink, Link.narrow]
    have hsheep := (Bool.and_eq_true_iff.1 hmatch).2
    rw [honly] at hsheep
    cases event with
    | dogSheepSettingsChanged dog named =>
      refine ⟨dog, congrArg _ (eq_of_beq hsheep), fun hname => ?_⟩
      have hall : literalHead pattern = pattern := by
        rw [hpattern, literalHead_append_of_literal (by simp [globChars]), hname]
      have htopic := hliteral hall
      rw [hpattern] at htopic
      exact String.toList_inj.1 (List.append_cancel_left htopic)
    | _ => cases hsheep

theorem Traffic.Change.compiled (hchange : s.Change wire t)
    (hs : ∀ f ∈ s.forwarders, f.Compiled) : ∀ f ∈ t.forwarders, f.Compiled := by
  cases hchange with
  | @register link patterns filter hadmits hnew =>
    intro f hf
    rcases List.mem_append.1 hf with hf | hf
    · exact hs f hf
    · rw [List.mem_singleton.1 hf]
      exact ⟨patterns, filter, hnew, hadmits, rfl⟩
  | @move i f f' hi hmove =>
    obtain ⟨-, -, hfilter, hlink⟩ := hmove.kept
    refine forall_put hs ?_
    simpa only [Forwarder.Compiled, hfilter, hlink] using hs f (List.mem_of_getElem? hi)
  | _ => exact hs

/-- **A link hears what it may.** In every run, every event whose frame was
handed to a connection was one its link was allowed to hear by the grants on
record at that moment, whatever became of the record since. -/
theorem heard_within (hG : G.Literal)
    (hr : Run (Acts (Traffic.step wire)) (Traffic.newBus G Info Json Bytes) h t)
    (hf : f ∈ t.forwarders) : ∃ kept rest, f.got = kept ++ rest ∧
      f.pushed = frames wire f.filter kept ∧ ∀ r ∈ kept, ∀ event, r.received = .item event →
        (frameOf wire f.filter r.received).isSome = true → f.link.MayHear r.known event := by
  obtain ⟨kept, rest, htold⟩ := (Traffic.sound hr).told f hf
  have hcompiled : ∀ f ∈ t.forwarders, f.Compiled :=
    hr.invariant meets_true (by simp [Traffic.newBus]) fun _ _ _ hs _ hstep =>
      (Traffic.change_of_step hstep).compiled hs
  refine ⟨kept, rest, htold.got, htold.pushed, fun r hr event hitem hsome => ?_⟩
  refine (hcompiled f hf).mayHear hG (htold.allowed r hr hsome) ?_
  rw [hitem, frameOf] at hsome
  by_contra hmatch
  rw [if_neg hmatch] at hsome
  cases hsome

theorem starGlobs_literal : starGlobs.Literal where
  matched := by
    intro patterns globs set topic hglobs hset hmatch
    obtain rfl : globs = set := Except.ok.inj hset
    have hsame : List.map id patterns = globs :=
      Except.ok.inj ((List.mapM_pure (m := Except String)).symm.trans hglobs)
    rw [List.map_id] at hsame
    subst hsame
    obtain ⟨pattern, hmem, hpattern⟩ := List.any_eq_true.1 hmatch
    refine ⟨pattern, hmem, ?_⟩
    rcases Bool.or_eq_true_iff.1 hpattern with heq | hstar
    · obtain rfl : pattern = topic := eq_of_beq heq
      exact ⟨List.takeWhile_prefix _, fun _ => rfl⟩
    · obtain ⟨heq, hhead⟩ := Bool.and_eq_true_iff.1 hstar
      refine ⟨List.isPrefixOf_iff_prefix.1 hhead, fun hall => ?_⟩
      have heq := eq_of_beq heq
      rw [hall] at heq
      simpa using congrArg List.length heq

/-- A dog granted the events of sheep, whose grants are taken back while the
first of them is being sent. -/
def takenBack : List (Event Unit Unit) :=
  [.record ((∅ : KnownDogs).insert "bark" { grants := some {"events:process."} }),
    .register (.dog "bark") ["process.*".toList], .subscribe 0, .send (.process .exit () false 0),
    .recv 0, .record ((∅ : KnownDogs).insert "bark" { grants := some ∅ })]

/-- What the bus goes on to. -/
def goesOn : List (Event Unit Unit) :=
  [.push 0 true, .send (.process .start () false 0), .recv 0]

theorem heard_within_takenBack : ∃ f ∈ (played (takenBack ++ goesOn)).forwarders,
    f.pushed = ["process.exit".toList] ∧ ∃ kept rest, f.got = kept ++ rest ∧
      f.pushed = frames topicWire f.filter kept ∧ ∀ r ∈ kept, ∀ event, r.received = .item event →
        (frameOf topicWire f.filter r.received).isSome = true → f.link.MayHear r.known event := by
  have hd : Drives (advance (Traffic.step topicWire)) (Taken (Traffic.step topicWire))
      (Traffic.newBus starGlobs Unit Unit Topic) (takenBack ++ goesOn) := by decide +kernel
  have hmem := List.head_mem (l := (played (takenBack ++ goesOn)).forwarders) (by decide +kernel)
  exact ⟨_, hmem, by decide +kernel, heard_within starGlobs_literal hd.acts hmem⟩

/-! ## A grant taken back -/

/-- What a forwarder goes on to be while its link is not allowed a frame. -/
def Forwarder.Revoked (f f' : Forwarder G Info Json Bytes) : Prop :=
  f'.link = f.link ∧ f'.filter = f.filter ∧
    ((f'.pushed = f.pushed ∧ ∀ frame, f'.stage = .sending frame → f.stage = .sending frame) ∨
    ∃ frame, f.stage = .sending frame ∧ f'.pushed = f.pushed ++ [frame] ∧
      ∀ frame', f'.stage ≠ .sending frame')

theorem Forwarder.Revoked.move {f'' : Forwarder G Info Json Bytes} (hf : f.Revoked f')
    (hrefused : stillAllowed s.known f.link f.filter.patterns = false)
    (hmove : f'.Move wire s f'') : f.Revoked f'' := by
  obtain ⟨hlink, hfilter, hpushed⟩ := hf
  obtain ⟨-, -, hfilter', hlink'⟩ := hmove.kept
  refine ⟨hlink'.trans hlink, hfilter'.trans hfilter, ?_⟩
  have hrest (hsame : f''.pushed = f'.pushed) (hnone : ∀ frame, f''.stage ≠ .sending frame) :
      (f''.pushed = f.pushed ∧ ∀ frame, f''.stage = .sending frame → f.stage = .sending frame) ∨
        ∃ frame, f.stage = .sending frame ∧ f''.pushed = f.pushed ++ [frame] ∧
          ∀ frame', f''.stage ≠ .sending frame' :=
    hpushed.imp (fun h => ⟨hsame.trans h.1, fun frame h' => absurd h' (hnone frame)⟩)
      fun ⟨frame, h, h', _⟩ => ⟨frame, h, hsame.trans h', hnone⟩
  cases hmove with
  | subscribe => exact hrest rfl fun _ => by simp
  | @recv x next hstage hrecv =>
    refine hrest rfl fun _ => ?_
    simp only [receive, hlink, hfilter, hrefused]
    split <;> simp
  | @push frame hstage =>
    rcases hpushed with ⟨hsame, hhand⟩ | ⟨-, -, -, hdone⟩
    · exact .inr ⟨frame, hhand frame hstage, by simp only [hsame], (fun _ h => by cases h)⟩
    · exact absurd hstage (hdone frame)
  | stop => exact hrest rfl fun _ => by simp

theorem Traffic.Change.revoked (hchange : s.Change wire t)
    (hrefused : stillAllowed s.known f.link f.filter.patterns = false)
    (hs : ∃ f', s.forwarders[i]? = some f' ∧ f.Revoked f') :
    ∃ f', t.forwarders[i]? = some f' ∧ f.Revoked f' := by
  obtain ⟨f', hi, hf'⟩ := hs
  have hlt := (List.getElem?_eq_some_iff.1 hi).1
  cases hchange with
  | register => exact ⟨f', (List.getElem?_append_left hlt).trans hi, hf'⟩
  | @move j g g' hj hmove =>
    by_cases hij : j = i
    · subst hij
      obtain rfl : g = f' := Option.some.inj (hj.symm.trans hi)
      exact ⟨g', List.getElem?_set_self hlt, hf'.move hrefused hmove⟩
    · exact ⟨f', (List.getElem?_set_ne hij).trans hi, hf'⟩
  | _ => exact ⟨f', hi, hf'⟩

/-- **A grant taken back is taken back at once.** From any state, while the
record does not cover a subscription's topics, its connection is handed
nothing but the frame already being sent. -/
theorem revoked_after_one (hr : Run (Acts (Traffic.step wire)) u h t)
    (hi : u.forwarders[i]? = some f)
    (hrefused : Meets (fun s _ => stillAllowed s.known f.link f.filter.patterns = false) h) :
    ∃ f', t.forwarders[i]? = some f' ∧ (f'.pushed = f.pushed ∨
      ∃ frame, f.stage = .sending frame ∧ f'.pushed = f.pushed ++ [frame]) := by
  obtain ⟨f', hi', -, -, hpushed⟩ : ∃ f', t.forwarders[i]? = some f' ∧ f.Revoked f' :=
    hr.invariant hrefused ⟨f, hi, rfl, rfl, .inl ⟨rfl, fun _ => id⟩⟩
      fun _ _ _ hs hno hstep => (Traffic.change_of_step hstep).revoked hno hs
  exact ⟨f', hi', hpushed.imp And.left fun ⟨frame, h, h', _⟩ => ⟨frame, h, h'⟩⟩

theorem revoked_after_one_goesOn : ∃ f f' : Forwarder starGlobs Unit Unit Topic,
    (played takenBack).forwarders[0]? = some f ∧
    (drive (advance (Traffic.step topicWire)) (played takenBack) goesOn).forwarders[0]? = some f' ∧
    (f'.pushed = f.pushed ∨ ∃ frame, f.stage = .sending frame ∧
      f'.pushed = f.pushed ++ [frame]) := by
  let f := (played takenBack).forwarders.head (by decide +kernel)
  have hd : Drives (advance (Traffic.step topicWire)) (fun s e => Taken (Traffic.step topicWire) s e ∧
      stillAllowed s.known f.link f.filter.patterns = false) (played takenBack) goesOn := by
    decide +kernel
  have hf : (played takenBack).forwarders[0]? = some f := by
    rw [← List.head?_eq_getElem?, List.head?_eq_some_head]
  obtain ⟨f', hf', hpushed⟩ :=
    revoked_after_one (hd.run fun _ _ h => h.1.acts) hf (hd.meets fun _ _ h => h.2)
  exact ⟨f, f', hf, hf', hpushed⟩

end Bus

end Shep

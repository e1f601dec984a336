import ScriptMailbox.Proofs.Mailbox.Exits
import ScriptMailbox.Proofs.Mailbox.Soundness

/-!
# Phases of the dialogue

While the flag is down and no exchange is going on, every request has a response, so the engine has
nothing to do, and nothing stands at the next index or behind it (`IsReady`). During an exchange the
engine can answer but one request, and that but once (`IsPending`). Once the flag is up it stays up,
and no exchange gets beyond its first check any more (`IsOver`). Each phase outlasts whatever the
engine does and whatever the program looks at, so only the operations that change the disk, and the
checks, lead from one phase to the next.
-/

namespace ScriptMailbox.Mailbox

open Disk

variable {root : Path} {before after : Disk} {directory : Location} {index other : Index}
  {ledger : Ledger} {held : Option Bytes} {history past later : List Label} {label mark : Label}
  {scene reached : Scene}

/-! ## The record so far -/

/-- A mark in a record with one more label is that label, or stands in the record before. -/
theorem concat_eq_append_cons (h : history ++ [label] = past ++ mark :: later) :
    past = history ∧ mark = label ∧ later = [] ∨
      ∃ rest, later = rest ++ [label] ∧ history = past ++ mark :: rest := by
  rcases List.eq_nil_or_concat later with rfl | ⟨rest, last, rfl⟩
  · obtain ⟨rfl, heq⟩ := List.append_inj' h rfl
    exact .inl ⟨rfl, (List.singleton_inj.mp heq).symm, rfl⟩
  · right
    rw [List.concat_eq_append, ← List.cons_append, ← List.append_assoc] at h
    obtain ⟨rfl, heq⟩ := List.append_inj' h rfl
    obtain rfl := List.singleton_inj.mp heq
    exact ⟨rest, List.concat_eq_append, rfl⟩

/-- What holds at any time. -/
structure Told (root : Path) (history : List Label) (scene : Scene) : Prop where
  sound : Sound root (Ledger.ofHistory root history) scene.disk
  asks : AsksPosted root history
  returns : ReturnsAnswers root history

/-- With one more label what has been told stays so, provided that the label tells no lie. -/
theorem Told.concat (h : Told root history scene)
    (hsound : Sound root (Ledger.note root (Ledger.ofHistory root history) label) reached.disk)
    (hasks : ∀ left right, label = .event (.others left right) →
      ∀ index asked reply, Answers root index asked reply left right →
        (Ledger.ofHistory root history).posted index = some asked)
    (hreturns : ∀ index payload answer, label = .returned index payload answer →
      ∃ source, IsAnswered root index payload answer history source) :
    Told root (history ++ [label]) reached where
  sound := by rwa [Ledger.ofHistory_concat]
  asks past later before after heq index asked reply hanswers := by
    rcases concat_eq_append_cons heq with ⟨rfl, hmark, -⟩ | ⟨rest, -, rfl⟩
    · exact hasks before after hmark.symm index asked reply hanswers
    · exact h.asks past rest before after rfl index asked reply hanswers
  returns past later index payload answer heq := by
    rcases concat_eq_append_cons heq with ⟨rfl, hmark, -⟩ | ⟨rest, -, rfl⟩
    · exact hreturns index payload answer hmark.symm
    · exact h.returns past rest index payload answer rfl

/-- A step of others. -/
theorem Told.step (h : Told root history scene) (hstep : IsStep root scene reached) :
    Told root (history ++ [.event (.others scene reached)]) reached := by
  refine h.concat ?_ (fun left right heq index asked reply hanswers => ?_) fun _ _ _ heq => ?_
  · rcases hstep with ⟨index, asked, reply, hanswers⟩ | rfl
    · exact hanswers.sound h.sound
    · exact h.sound
  · cases heq
    exact (hanswers.cases h.sound).1
  · cases heq

/-- An operation of the program which leaves the disk sound. -/
theorem Told.own {operation : Operation} (h : Told root history scene)
    (hsound : Sound root
      (Ledger.note root (Ledger.ofHistory root history) (.event (.own operation))) reached.disk) :
    Told root (history ++ [.event (.own operation)]) reached := by
  refine h.concat hsound (fun _ _ heq => ?_) fun _ _ _ heq => ?_
  · cases heq
  · cases heq

/-- A look changes nothing that has been noted. -/
theorem note_of_view {operation : Operation} (hview : operation.isChange = false) :
    Ledger.note root ledger (.event (.own operation)) = ledger := by
  cases operation <;> cases hview <;> rfl

/-! ## Phases of the dialogue -/

/-- Whether a property of record and scene outlasts steps of others and looks of the program. -/
structure Stable (rule : Scene → Scene → Prop) (holds : List Label → Scene → Prop) : Prop where
  step : ∀ {history scene reached}, holds history scene → rule scene reached →
    holds (history ++ [.event (.others scene reached)]) reached
  view : ∀ {history scene operation}, holds history scene → operation.isChange = false →
    holds (history ++ [.event (.own operation)]) scene

section

variable {rule : Scene → Scene → Prop} {holds : List Label → Scene → Prop} {events : List Event}

/-- What happens between two scenes while the program does some operations and others keep to a
rule. -/
structure Passage (rule : Scene → Scene → Prop) (operations : List Operation)
    (events : List Event) (before after : Scene) : Prop where
  becomes : before.Becomes events after
  obeys : Obeys rule events
  own_eq : own events = operations

/-- A stable property outlasts a passage without changes of the program. -/
theorem Stable.keeps {operations : List Operation} (hstable : Stable rule holds)
    (hpass : Passage rule operations events scene reached) (hlooks : AreLooks operations)
    (h : holds history scene) : holds (history ++ events.map .event) reached := by
  obtain ⟨hbecomes, hobeys, rfl⟩ := hpass
  induction hbecomes generalizing history with
  | nil => simpa using h
  | @cons scene between reached event events first rest ih =>
    cases event with
    | own operation =>
      rw [own_cons_own, areLooks_cons] at hlooks
      obtain rfl := Operation.Turns.eq_of_view first hlooks.1
      simpa using ih (hstable.view h hlooks.1) hobeys.of_cons hlooks.2
    | others left right =>
      obtain ⟨rfl, rfl⟩ := first
      simpa using ih (hstable.step h (hobeys _ _ List.mem_cons_self)) hobeys.of_cons hlooks

/-- A stable property holds when the program comes to its next operation that is no look. -/
theorem Stable.reach (hstable : Stable rule holds) (early : List Operation)
    {late : List Operation} {operation : Operation} (h : holds history scene)
    (hpass : Passage rule (early ++ operation :: late) events scene reached)
    (hearly : AreLooks early) :
    ∃ first rest left right, events = first ++ .own operation :: rest ∧
      holds (history ++ first.map .event) left ∧ operation.Turns left right ∧
      Passage rule late rest right reached := by
  obtain ⟨hbecomes, hobeys, hown⟩ := hpass
  obtain ⟨first, rest, left, right, rfl, hfirst, hrest, hleft, hturns, hafter⟩ :=
    hbecomes.split hown
  have hquiet : Passage rule early first scene left := ⟨hleft, hobeys.of_append_left, hfirst⟩
  exact ⟨first, rest, left, right, rfl, hstable.keeps hquiet hearly h, hturns, hafter,
    hobeys.of_append_right.of_cons, hrest⟩

/-- What outlasts the steps under a rule outlasts those under a stricter one. -/
theorem Stable.of_imp {fewer : Scene → Scene → Prop} (hstable : Stable rule holds)
    (himp : ∀ {before after}, fewer before after → rule before after) :
    Stable fewer holds where
  step h hstep := hstable.step h (himp hstep)
  view := hstable.view

/-- Two stable properties are stable when one of them holds. -/
theorem Stable.or {other : List Label → Scene → Prop} (hleft : Stable rule holds)
    (hright : Stable rule other) :
    Stable rule fun history scene => holds history scene ∨ other history scene where
  step h hstep := h.imp (hleft.step · hstep) (hright.step · hstep)
  view h hview := h.imp (hleft.view · hview) (hright.view · hview)

/-- They are stable together. -/
theorem Stable.and {other : List Label → Scene → Prop} (hleft : Stable rule holds)
    (hright : Stable rule other) :
    Stable rule fun history scene => holds history scene ∧ other history scene where
  step h hstep := ⟨hleft.step h.1 hstep, hright.step h.2 hstep⟩
  view h hview := ⟨hleft.view h.1 hview, hright.view h.2 hview⟩

end

/-- What holds at any time outlasts the steps of the engine. -/
theorem stable_told : Stable (IsStep root) (Told root) where
  step := Told.step
  view h hview := h.own (by rw [note_of_view hview]; exact h.sound)

/-- The exchanges are over, for the flag is up. -/
def IsOver (root : Path) (history : List Label) (scene : Scene) : Prop :=
  Told root history scene ∧ scene.cancelled = true

/-- A flag that is up stays up. -/
theorem IsStep.cancelled (h : IsStep root scene reached) (hup : scene.cancelled = true) :
    reached.cancelled = true := by
  rcases h with ⟨index, asked, reply, hanswers⟩ | rfl
  · exact hanswers.cancelled.trans hup
  · rfl

/-- So exchanges that are over stay over. -/
theorem stable_isOver : Stable (IsStep root) (IsOver root) where
  step h hstep := ⟨h.1.step hstep, hstep.cancelled h.2⟩
  view h hview := ⟨stable_told.view h.1 hview, h.2⟩

/-- No request waits for a response, and nothing stands at some index or behind it. -/
structure IsReady (root : Path) (start : ℕ) (history : List Label) (scene : Scene) : Prop where
  told : Told root history scene
  answered : Answered root none scene.disk
  free : FreeFrom root start scene.disk

/-- A mailbox without a pending request stays so, for the engine has nothing to answer. -/
theorem stable_isReady (start : ℕ) : Stable (IsStep root) (IsReady root start) where
  step h hstep := by
    have htold := h.told.step hstep
    rcases hstep with ⟨index, asked, reply, hanswers⟩ | rfl
    · cases hanswers.pending h.told.sound h.answered
    · exact ⟨htold, h.answered, h.free⟩
  view h hview := ⟨stable_told.view h.told hview, h.answered, h.free⟩

/-- The console is between two exchanges. -/
def IsResting (root : Path) (start : ℕ) (history : List Label) (scene : Scene) : Prop :=
  IsOver root history scene ∨ IsReady root start history scene

/-- A console between two exchanges stays there until it does something. -/
theorem stable_isResting (start : ℕ) : Stable (IsStep root) (IsResting root start) :=
  stable_isOver.or (stable_isReady start)

/-! ## During an exchange -/

/-- An exchange stays open until the next mark. -/
theorem IsOpen.concat {payload : Payload} (h : IsOpen root index payload history)
    (hmark : label.isMark = false) : IsOpen root index payload (history ++ [label]) := by
  obtain ⟨early, between, content, rfl, hbetween, hwrote⟩ := h
  refine ⟨early, between ++ [label], content, by simp, fun other hmem => ?_, by simp [hwrote]⟩
  rcases List.mem_append.mp hmem with hmem | hmem
  · exact hbetween other hmem
  · rwa [List.mem_singleton.mp hmem]

/-- An answer stays one when something that is no mark follows. -/
theorem IsAnswered.concat {payload answer : Payload} {source : List Label}
    (h : IsAnswered root index payload answer history source) (hmark : label.isMark = false) :
    IsAnswered root index payload answer (history ++ [label]) source := by
  obtain ⟨hopen, before, after, late, rfl, hanswers, hlate⟩ := h
  refine ⟨hopen, before, after, late ++ [label], by simp, hanswers, fun other hmem => ?_⟩
  rcases List.mem_append.mp hmem with hmem | hmem
  · exact hlate other hmem
  · rwa [List.mem_singleton.mp hmem]

/-- What the response of an open exchange can be: nothing, or what the engine has published in this
very exchange. -/
def IsOwnResponse (root : Path) (index : Index) (payload : Payload) (history : List Label)
    (held : Option Bytes) : Prop :=
  held = none ∨
    ∃ source answer document, IsAnswered root index payload answer history source ∧
      Document.write answer = .ok document ∧ held = some (Text.Utf8.encode document)

/-- The console waits for the response of an index. -/
structure IsPending (root : Path) (index : Index) (payload : Payload) (history : List Label)
    (scene : Scene) : Prop where
  told : Told root history scene
  opened : IsOpen root index payload history
  posted : (Ledger.ofHistory root history).posted index = some payload
  answered : Answered root (some index) scene.disk
  free : FreeFrom root (index.value + 1) scene.disk
  response : ∀ directory, scene.disk.MayLead root directory →
    IsOwnResponse root index payload history (responseAt scene.disk directory index)

/-- A response goes on belonging to the open exchange. -/
theorem IsOwnResponse.concat {payload : Payload}
    (h : IsOwnResponse root index payload history held) (hmark : label.isMark = false) :
    IsOwnResponse root index payload (history ++ [label]) held := by
  refine h.imp_right fun ⟨source, answer, document, hanswered, hwrite⟩ => ?_
  exact ⟨source, answer, document, hanswered.concat hmark, hwrite⟩

/-- Publishing a response leaves the requests and the other responses alone. -/
theorem Answered.publish {pending : Option Index} (h : Answered root pending before)
    (hreplaces : Replaces before root (responseName index) held after directory)
    (hheld : held.isSome) : Answered root pending after := by
  intro location hleads other hne hrequest
  obtain rfl := hreplaces.eq_of_mayLead hleads
  rw [hreplaces.requestAt_eq, if_neg (requestName_ne_responseName other index)] at hrequest
  rw [hreplaces.responseAt_eq]
  split_ifs
  · exact hheld
  · exact h location hreplaces.leads.mayLead other hne hrequest

/-- A response to an index that is in use leaves the free ones free. -/
theorem FreeFrom.publish {start : ℕ} (h : FreeFrom root start before)
    (hreplaces : Replaces before root (responseName index) held after directory)
    (hindex : index.value < start) : FreeFrom root start after := by
  intro location hleads other hle
  obtain rfl := hreplaces.eq_of_mayLead hleads
  have hne : responseName other ≠ responseName index := by
    apply responseName_injective.ne
    rintro rfl
    omega
  rw [hreplaces.requestAt_eq, if_neg (requestName_ne_responseName other index),
    hreplaces.responseAt_eq, if_neg hne]
  exact h location hreplaces.leads.mayLead other hle

/-- The engine answers the pending request, and that once. -/
theorem IsPending.publish {payload asked reply : Payload}
    (h : IsPending root index payload history scene)
    (hanswers : Answers root other asked reply scene reached) :
    IsPending root index payload (history ++ [.event (.others scene reached)]) reached := by
  obtain rfl : index = other := Option.some.inj (hanswers.pending h.told.sound h.answered)
  obtain ⟨hasked, directory, document, hwrite, hreplaces, -, -⟩ := hanswers.cases h.told.sound
  obtain rfl : payload = asked := Option.some.inj (h.posted.symm.trans hasked)
  refine ⟨h.told.step (.inl ⟨index, payload, reply, hanswers⟩), h.opened.concat rfl, ?_, ?_, ?_, ?_⟩
  · rw [Ledger.ofHistory_concat]
    exact h.posted
  · exact h.answered.publish hreplaces rfl
  · exact h.free.publish hreplaces (Nat.lt_succ_self _)
  · intro location hleads
    obtain rfl := hreplaces.eq_of_mayLead hleads
    rw [hreplaces.responseAt_eq, if_pos rfl]
    exact .inr ⟨history, reply, document,
      ⟨h.opened, scene, reached, [], rfl, hanswers, fun _ hmem => by cases hmem⟩, hwrite, rfl⟩

/-- A console that waits goes on waiting whatever the engine does. -/
theorem stable_isPending (payload : Payload) :
    Stable (IsStep root) (IsPending root index payload) where
  step h hstep := by
    have htold := h.told.step hstep
    rcases hstep with ⟨other, asked, reply, hanswers⟩ | rfl
    · exact h.publish hanswers
    · refine ⟨htold, h.opened.concat rfl, ?_, h.answered, h.free, fun directory hleads => ?_⟩
      · rw [Ledger.ofHistory_concat]
        exact h.posted
      · exact (h.response directory hleads).concat rfl
  view h hview := by
    refine ⟨stable_told.view h.told hview, h.opened.concat rfl, ?_, h.answered, h.free,
      fun directory hleads => (h.response directory hleads).concat rfl⟩
    rw [Ledger.ofHistory_concat, note_of_view hview]
    exact h.posted

/-! ## Steps of an exchange -/

/-- Whether the last mark is the call of a payload. -/
def IsCalled (index : Index) (payload : Payload) (history : List Label) : Prop :=
  ∃ early between, history = early ++ .called index payload :: between ∧
    ∀ label ∈ between, label.isMark = false

/-- A call stays the last mark until the next one. -/
theorem IsCalled.concat {payload : Payload} (h : IsCalled index payload history)
    (hmark : label.isMark = false) : IsCalled index payload (history ++ [label]) := by
  obtain ⟨early, between, rfl, hbetween⟩ := h
  refine ⟨early, between ++ [label], by simp, fun other hmem => ?_⟩
  rcases List.mem_append.mp hmem with hmem | hmem
  · exact hbetween other hmem
  · rwa [List.mem_singleton.mp hmem]

/-- It does so whatever the engine does. -/
theorem stable_isCalled (index : Index) (payload : Payload) :
    Stable (IsStep root) fun history _ => IsCalled index payload history where
  step h _ := h.concat rfl
  view h _ := h.concat rfl

/-- The payload of the last call is the current one. -/
theorem IsCalled.current {payload : Payload} (h : IsCalled index payload history) :
    (Ledger.ofHistory root history).current = some payload := by
  obtain ⟨early, between, rfl, hbetween⟩ := h
  induction between using List.reverseRecOn with
  | nil => rw [Ledger.ofHistory_concat, Ledger.note]
  | append_singleton between label ih =>
    rw [← List.cons_append, ← List.append_assoc, Ledger.ofHistory_concat,
      Ledger.current_note (hbetween label (by simp))]
    exact ih fun other hmem => hbetween other (List.mem_append_left _ hmem)

/-- Calls and returns change neither the disk nor what has been posted. -/
theorem IsResting.called {start : ℕ} {payload : Payload} (h : IsResting root start history scene) :
    IsResting root start (history ++ [.called index payload]) scene := by
  have htold (told : Told root history scene) :
      Told root (history ++ [.called index payload]) scene :=
    told.concat ⟨told.sound.links, told.sound.created, told.sound.posted⟩
      (fun _ _ heq => by cases heq) fun _ _ _ heq => by cases heq
  exact h.imp (fun hover => ⟨htold hover.1, hover.2⟩)
    fun hready => ⟨htold hready.told, hready.answered, hready.free⟩

/-- A flag that is down when it is asked for means that the console is ready. -/
theorem IsResting.checked {start : ℕ} (h : IsResting root start history scene)
    (hturns : (Operation.checked false).Turns scene reached) :
    IsReady root start (history ++ [.event (.own (.checked false))]) reached := by
  obtain ⟨hdown, rfl⟩ : scene.cancelled = false ∧ scene = reached := by
    simpa [Operation.Turns] using hturns
  rcases h with ⟨-, hup⟩ | hready
  · rw [hdown] at hup
    cases hup
  · exact (stable_isReady start).view hready rfl

/-- Creating the root. -/
theorem IsReady.made {start : ℕ} {path : Path} {outcome : Except DiskFault Unit}
    (h : IsReady root start history scene)
    (hturns : (Operation.made path outcome).Turns scene reached) :
    IsReady root start (history ++ [.event (.own (.made path outcome))]) reached := by
  have hgains : scene.disk.Gains reached.disk := by
    rw [← congrArg (·.2.disk) hturns]
    exact gains_makeDirectories _ _
  exact ⟨h.told.own (h.told.sound.of_gains hgains), h.answered.of_gains hgains,
    h.free.of_gains hgains⟩

/-- Writing the request opens the exchange. -/
theorem IsReady.wrote {payload : Payload} {document : String}
    (h : IsReady root index.value history scene) (hcalled : IsCalled index payload history)
    (hwrite : Document.write payload = .ok document)
    (hturns : (Operation.wrote (root.join (requestName index)) (Text.Utf8.encode document)
      (.ok ())).Turns scene reached) :
    IsPending root index payload
      (history ++ [.event (.own (.wrote (root.join (requestName index))
        (Text.Utf8.encode document) (.ok ())))]) reached := by
  obtain ⟨directory, hreplaces⟩ := replaces_of_write h.told.sound.links
    (isExchangeName_requestName index) (Scene.change_eq_ok_iff.mp hturns).1
  -- writing the request changes no response, and no request of another index
  have hresponse (other : Index) : responseAt reached.disk directory other =
      responseAt scene.disk directory other := by
    rw [hreplaces.responseAt_eq, if_neg (requestName_ne_responseName index other).symm]
  have hrequest (other : Index) (hne : other ≠ index) : requestAt reached.disk directory other =
      requestAt scene.disk directory other := by
    rw [hreplaces.requestAt_eq, if_neg (requestName_injective.ne hne)]
  refine ⟨h.told.own ?_, ?_, ?_, ?_, ?_, ?_⟩
  · refine hreplaces.sound h.told.sound (fun other hne => ?_) fun other raw hname hraw => ?_
    · rw [Ledger.posted_note_wrote, if_neg fun heq => hne (by rw [heq])]
    · obtain rfl := requestName_injective hname
      rw [Ledger.posted_note_wrote, if_pos rfl]
      exact ⟨payload, document, hcalled.current, hwrite, (Option.some.inj hraw).symm⟩
  · -- the call is still the last one
    obtain ⟨early, between, rfl, hbetween⟩ := hcalled
    refine ⟨early, between ++ [_], _, by rw [List.append_assoc, List.cons_append],
      fun label hmem => ?_, List.mem_append_right _ (List.mem_singleton_self _)⟩
    rcases List.mem_append.mp hmem with hmem | hmem
    · exact hbetween label hmem
    · rw [List.mem_singleton.mp hmem]
      rfl
  · rw [Ledger.ofHistory_concat, Ledger.posted_note_wrote, if_pos rfl, hcalled.current]
  · intro location hleads other hne hasked
    obtain rfl := hreplaces.eq_of_mayLead hleads
    rw [hrequest other fun heq => hne (by rw [heq])] at hasked
    rw [hresponse]
    exact h.answered location hreplaces.leads.mayLead other (by simp) hasked
  · intro location hleads other hle
    obtain rfl := hreplaces.eq_of_mayLead hleads
    rw [hresponse, hrequest other (by rintro rfl; omega)]
    exact h.free location hreplaces.leads.mayLead other (by omega)
  · intro location hleads
    obtain rfl := hreplaces.eq_of_mayLead hleads
    rw [hresponse]
    exact .inl (h.free location hreplaces.leads.mayLead index le_rfl).2

/-- A response that is read ends the exchange, and what it says is the engine's answer. -/
theorem IsPending.opened_ok {payload : Payload} {raw : Bytes}
    (h : IsPending root index payload history scene)
    (hturns : (Operation.opened (root.join (responseName index)) (.ok raw)).Turns scene reached) :
    IsReady root (index.value + 1)
        (history ++ [.event (.own (.opened (root.join (responseName index)) (.ok raw)))]) reached ∧
      ∀ answer, Document.read raw = .ok answer →
        ∃ source, IsAnswered root index payload answer
          (history ++ [.event (.own (.opened (root.join (responseName index)) (.ok raw)))])
          source := by
  obtain ⟨hread, rfl⟩ :
      scene.disk.read (root.join (responseName index)) = .ok raw ∧ scene = reached := by
    simpa [Operation.Turns, Scene.view] using hturns
  obtain ⟨-, directory, hleads, hraw⟩ :=
    (read_eq_ok_iff h.told.sound.links (isExchangeName_responseName index)).mp hread
  have hresponse : responseAt scene.disk directory index = some raw := hraw
  refine ⟨⟨stable_told.view h.told rfl, ?_, h.free⟩, fun answer hanswer => ?_⟩
  · intro location hlocation other _ hrequest
    obtain rfl := hlocation.eq_of_leads hleads
    by_cases heq : other = index
    · rw [heq, hresponse]
      rfl
    · exact h.answered location hlocation other (by simpa using heq) hrequest
  · rcases h.response directory hleads.mayLead with hnone | ⟨source, reply, document, hown⟩
    · rw [hresponse] at hnone
      cases hnone
    · obtain ⟨hanswered, hwrite, hheld⟩ := hown
      rw [hresponse, Option.some.injEq] at hheld
      subst hheld
      obtain rfl := eq_of_read hwrite hanswer
      exact ⟨source, hanswered.concat rfl⟩

/-! ## A whole send -/

variable {events : List Event}

/-- Posting brings a console at rest to wait for the response. -/
theorem IsResting.posts {payload : Payload} {document : String} {more : List Operation}
    (h : IsResting root index.value history scene) (hcalled : IsCalled index payload history)
    (hwrite : Document.write payload = .ok document)
    (hpass : Passage (IsStep root) (.checked false :: .made root (.ok ()) ::
      .wrote (root.join (requestName index)) (Text.Utf8.encode document) (.ok ()) :: more)
      events scene reached) :
    ∃ first rest between, events = first ++ rest ∧
      IsPending root index payload (history ++ first.map .event) between ∧
      Passage (IsStep root) more rest between reached := by
  have hresting : Stable (IsStep root) fun history scene =>
      IsResting root index.value history scene ∧ IsCalled index payload history :=
    (stable_isResting index.value).and (stable_isCalled index payload)
  have hready : Stable (IsStep root) fun history scene =>
      IsReady root index.value history scene ∧ IsCalled index payload history :=
    (stable_isReady index.value).and (stable_isCalled index payload)
  obtain ⟨quiet, events, scene', ready, rfl, ⟨hrests, hcalled⟩, hchecked, hpass⟩ :=
    hresting.reach [] ⟨h, hcalled⟩ hpass areLooks_nil
  obtain ⟨quiet', events, scene', made, rfl, ⟨hreadies, hcalled⟩, hmade, hpass⟩ :=
    hready.reach [] ⟨hrests.checked hchecked, hcalled.concat rfl⟩ hpass areLooks_nil
  obtain ⟨quiet'', events, scene', posted, rfl, ⟨hreadies, hcalled⟩, hwrote, hpass⟩ :=
    hready.reach [] ⟨hreadies.made hmade, hcalled.concat rfl⟩ hpass areLooks_nil
  refine ⟨quiet ++ .own (.checked false) :: quiet' ++ .own (.made root (.ok ())) :: quiet'' ++
    [.own (.wrote (root.join (requestName index)) (Text.Utf8.encode document) (.ok ()))], events,
    posted, by simp, ?_, hpass⟩
  simpa using hreadies.wrote hcalled hwrite hwrote

/-- An answer that has been read stays one whatever the engine does. -/
theorem stable_isAnswered (root : Path) (index : Index) (payload answer : Payload)
    (source : List Label) :
    Stable (IsStep root) fun history _ => IsAnswered root index payload answer history source where
  step h _ := h.concat rfl
  view h _ := h.concat rfl

/-- What holds at any time holds of a console at rest. -/
theorem IsResting.told {start : ℕ} (h : IsResting root start history scene) :
    Told root history scene :=
  h.elim And.left IsReady.told

/-- The answer is returned. -/
theorem IsReady.returned {start : ℕ} {payload answer : Payload} {source : List Label}
    (h : IsReady root start history scene)
    (hanswered : IsAnswered root index payload answer history source) :
    IsReady root start (history ++ [.returned index payload answer]) scene := by
  refine ⟨h.told.concat h.told.sound (fun _ _ heq => by cases heq) fun _ _ _ heq => ?_, h.answered,
    h.free⟩
  cases heq
  exact ⟨source, hanswered⟩

/-- A response that is read brings the console to rest at the next index. -/
theorem IsPending.answers {payload : Payload} {raw : Bytes} {early : List Operation}
    (h : IsPending root index payload history scene)
    (hpass : Passage (IsStep root) (early ++ [.opened (root.join (responseName index)) (.ok raw)])
      events scene reached)
    (hearly : AreLooks early) :
    IsReady root (index.value + 1) (history ++ events.map .event) reached ∧
      ∀ answer, Document.read raw = .ok answer →
        IsReady root (index.value + 1)
          (history ++ (events.map .event ++ [.returned index payload answer])) reached := by
  obtain ⟨quiet, rest, scene', opened, rfl, hpending, hopened, hpass⟩ :=
    (stable_isPending payload).reach early h hpass hearly
  obtain ⟨hready, hanswer⟩ := hpending.opened_ok hopened
  refine ⟨?_, fun answer hread => ?_⟩
  · simpa using (stable_isReady (index.value + 1)).keeps hpass areLooks_nil hready
  · obtain ⟨source, hanswered⟩ := hanswer answer hread
    have hstable := (stable_isReady (index.value + 1)).and
      (stable_isAnswered root index payload answer source)
    obtain ⟨hready, hanswered⟩ := hstable.keeps hpass areLooks_nil ⟨hready, hanswered⟩
    simpa using hready.returned hanswered

/-- A wait that is called off leaves the console at rest, for the flag is up. -/
theorem IsPending.cancels {payload : Payload} {early : List Operation}
    (h : IsPending root index payload history scene)
    (hpass : Passage (IsStep root) (early ++ [.checked true]) events scene reached)
    (hearly : AreLooks early) : IsOver root (history ++ events.map .event) reached := by
  obtain ⟨quiet, rest, scene', checked, rfl, hpending, hchecked, hpass⟩ :=
    (stable_isPending payload).reach early h hpass hearly
  obtain ⟨hup, rfl⟩ : scene'.cancelled = true ∧ scene' = checked := by
    simpa [Operation.Turns] using hchecked
  have hover :
      IsOver root (history ++ quiet.map .event ++ [.event (.own (.checked true))]) scene' :=
    stable_isOver.view ⟨hpending.told, hup⟩ rfl
  simpa using stable_isOver.keeps hpass areLooks_nil hover

/-- What holds of a console, which has no channel while it waits. -/
structure Invariant (root : Path) (console : Option Channel) (history : List Label)
    (scene : Scene) : Prop where
  told : Told root history scene
  resting : ∀ channel, console = some channel →
    channel.root = root ∧ IsResting root channel.index.value history scene

/-- A console at rest fulfils the invariant. -/
theorem IsResting.invariant {channel : Channel}
    (h : IsResting root channel.index.value history scene) (hroot : channel.root = root) :
    Invariant root (some channel) history scene := by
  refine ⟨h.told, fun other heq => ?_⟩
  cases heq
  exact ⟨hroot, h⟩

/-- A send leaves the console at rest, or waiting. -/
theorem invariant_of_exit {exchange : Exchange} {exit : Exit}
    (h : IsResting exchange.channel.root exchange.channel.index.value history scene)
    (hbecomes : scene.Becomes exchange.events exchange.scene)
    (hothers : Obeys (IsStep exchange.channel.root) exchange.events)
    (hexit : exit.Describes exchange)
    (hsucceeds : ∀ path cause, exchange.result ≠ .error (.failed (.io path cause)))
    (hindex : exchange.result ≠ .error .exhausted) :
    Invariant exchange.channel.root
      (if exchange.result = .error .unanswered then none else some exchange.next)
      (history ++ .called exchange.channel.index exchange.payload ::
        (exchange.events.map .event ++
          ending exchange.channel.index exchange.payload exchange.result)) exchange.scene := by
  have hcalled : IsResting exchange.channel.root exchange.channel.index.value
      (history ++ [.called exchange.channel.index exchange.payload]) scene := h.called
  have hlast : IsCalled exchange.channel.index exchange.payload
      (history ++ [.called exchange.channel.index exchange.payload]) :=
    ⟨history, [], rfl, by simp⟩
  -- what holds at rest survives an exchange that only looks, and posting opens one
  have hrests {operations : List Operation} (hown : own exchange.events = operations)
      (hlooks : AreLooks operations) :=
    (stable_isResting _).keeps ⟨hbecomes, hothers, hown⟩ hlooks hcalled
  have hposts {more : List Operation} (hposts : exchange.Posts more) :=
    hposts.elim fun document hdocument =>
      hcalled.posts hlast hdocument.1 ⟨hbecomes, hothers, hdocument.2.1⟩
  -- one case for each way out; those that need a failing operation or the last index are ruled out
  cases exit with
  | invalid =>
    obtain ⟨hown, hnext, fault, -, hresult⟩ := hexit
    rw [hresult, if_neg (by simp), hnext]
    exact IsResting.invariant (by simpa [ending] using hrests hown (by simp)) rfl
  | calledOff =>
    obtain ⟨hown, hnext, -, hresult⟩ := hexit
    rw [hresult, if_neg (by simp), hnext]
    exact IsResting.invariant (by simpa [ending] using hrests hown (by simp)) rfl
  | refused =>
    obtain ⟨-, document, fault, -, ⟨-, hresult⟩ | ⟨-, hresult⟩⟩ := hexit <;>
      exact absurd hresult (hsucceeds _ _)
  | cancelled =>
    obtain ⟨hnext, hresult, tries, hcancels⟩ := hexit
    obtain ⟨first, rest, between, hevents, hpending, hpass⟩ := hposts hcancels
    rw [List.append_cons] at hpass
    have hover := hpending.cancels hpass (by simp)
    rw [hresult, if_neg (by simp), hnext, hevents]
    exact IsResting.invariant (.inl (by simpa [ending] using hover)) rfl
  | unreadable =>
    obtain ⟨-, tries, kind, fault, -, hresult⟩ := hexit
    exact absurd hresult (hsucceeds _ _)
  | answered =>
    obtain ⟨tries, kind, raw, index, hanswers, hindex', hnext, hresult⟩ := hexit
    obtain ⟨first, rest, between, hevents, hpending, hpass⟩ := hposts hanswers
    rw [List.append_cons] at hpass
    obtain ⟨hready, hreturn⟩ := hpending.answers hpass (by simp)
    have hmoved : exchange.next.index.value = exchange.channel.index.value + 1 := by
      rw [hnext]
      exact hindex'
    have hroot : exchange.next.root = exchange.channel.root := by rw [hnext]; rfl
    rw [← hmoved] at hready hreturn
    rcases hresult with ⟨answer, hread, hresult⟩ | ⟨damage, -, hresult⟩
    · rw [hresult, if_neg (by simp), hevents]
      exact IsResting.invariant (.inr (by simpa [ending] using hreturn answer hread)) hroot
    · rw [hresult, if_neg (by simp), hevents]
      exact IsResting.invariant (.inr (by simpa [ending] using hready)) hroot
  | exhausted =>
    obtain ⟨-, -, hresult, -⟩ := hexit
    exact absurd hresult hindex
  | waiting =>
    obtain ⟨-, hresult, ⟨tries, hwaits⟩, -⟩ := hexit
    obtain ⟨first, rest, between, hevents, hpending, hpass⟩ := hposts hwaits
    have htold := stable_told.keeps hpass (by simp) hpending.told
    rw [hresult, if_pos rfl, hevents]
    exact ⟨by simpa [ending] using htold, fun _ heq => by cases heq⟩

end ScriptMailbox.Mailbox

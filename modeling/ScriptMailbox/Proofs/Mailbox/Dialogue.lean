import ScriptMailbox.Proofs.Mailbox.Files
import ScriptMailbox.Proofs.Mailbox.Transcripts

/-!
# The dialogue of console and engine

The console sends payloads, sweeps the mailbox and jumps, one after the other. The engine takes its
steps at any time, also between two operations of the console: it answers a request that is whole
and has no response. Writing a request is one event here, for the engine does not look at a request
that is not whole. Everything that happens is recorded, and what the two sides owe each other is a
property of that record.
-/

namespace ScriptMailbox.Mailbox

/-! ## What others do -/

/-- A step of the engine: it reads a whole request whose response is absent, and publishes the
document of a reply at once. -/
structure Answers (root : Path) (index : Index) (asked reply : Payload) (before after : Scene) :
    Prop where
  absent : before.disk.kind? (root.join (responseName index)) = none
  reads : ∃ raw, before.disk.read (root.join (requestName index)) = .ok raw ∧
    Text.Utf8.encode Document.footer <:+ raw ∧ Document.read raw = .ok asked
  publishes : ∃ document, Document.write reply = .ok document ∧
    before.disk.write (root.join (responseName index)) (Text.Utf8.encode document) =
      .ok after.disk
  cancelled : after.cancelled = before.cancelled

/-- What others may do: the engine takes a step, or the cancel flag is raised. Nobody else writes,
and the flag is never lowered. -/
def IsStep (root : Path) (before after : Scene) : Prop :=
  (∃ index asked reply, Answers root index asked reply before after) ∨
    after = { before with cancelled := true }

/-- Whether the engine answers no request whose response has been deleted before. -/
def SparesDeleted (root : Path) (events : List Event) : Prop :=
  ∀ early before after late, events = early ++ .others before after :: late →
    ∀ index asked reply, Answers root index asked reply before after →
      .own (.removed (root.join (responseName index)) (.ok ())) ∉ early

/-- Whether no response is listed before its request. -/
def ListsRequestsFirst (root : Path) (events : List Event) : Prop :=
  ∀ names, .own (.listed root (.ok names)) ∈ events →
    ∀ index, ¬[responseName index, requestName index].Sublist names

/-- Whether a reset is not overtaken by the engine. Where a directory lists requests first, it
cannot be; otherwise the engine has to leave a request alone whose response the reset has
deleted. -/
def NotOvertaken (root : Path) (events : List Event) : Prop :=
  ListsRequestsFirst root events ∨ SparesDeleted root events

/-! ## The record -/

/-- Something that happens in the dialogue. -/
inductive Label
  /-- The console is told to send a payload. -/
  | called (index : Index) (payload : Payload)
  | event (event : Event)
  /-- The console has got the answer to a payload. -/
  | returned (index : Index) (payload answer : Payload)

/-- Whether a label is that of a call or a return. -/
def Label.isMark : Label → Bool
  | event _ => false
  | _ => true

/-- What has been posted. -/
structure Ledger where
  /-- The payload of the last call. -/
  current : Option Payload
  /-- The payload of the call in which the request of an index was written last. -/
  posted : Index → Option Payload

namespace Ledger

/-- The ledger before the dialogue. -/
def empty : Ledger := ⟨none, fun _ => none⟩

/-- The ledger after one more label. -/
def note (root : Path) (ledger : Ledger) : Label → Ledger
  | .called _ payload => { ledger with current := some payload }
  | .event (.own (.wrote path _ (.ok ()))) =>
    { ledger with
      posted := fun index =>
        if path = root.join (requestName index) then ledger.current else ledger.posted index }
  | _ => ledger

/-- Only a mark changes the current payload. -/
theorem current_note {root : Path} {ledger : Ledger} {label : Label} (h : label.isMark = false) :
    (note root ledger label).current = ledger.current := by
  unfold note
  split
  · cases h
  · rfl
  · rfl

/-- A request that is written counts for its own index alone. -/
theorem posted_note_wrote (root : Path) (ledger : Ledger) (index other : Index) (content : Bytes) :
    (note root ledger (.event (.own (.wrote (root.join (requestName index)) content
        (.ok ()))))).posted other =
      if index = other then ledger.current else ledger.posted other := by
  have hiff : root.join (requestName index) = root.join (requestName other) ↔ index = other := by
    refine ⟨fun h => requestName_injective ?_, fun h => by rw [h]⟩
    exact Path.join_injective (isEntryName_requestName index) (isEntryName_requestName other) h
  simp only [note, hiff]

/-- The ledger after some labels. -/
def ofHistory (root : Path) (history : List Label) : Ledger :=
  history.foldl (note root) empty

/-- The notes of a record with one more label come from the notes before and that label. -/
theorem ofHistory_concat (root : Path) (history : List Label) (label : Label) :
    ofHistory root (history ++ [label]) = note root (ofHistory root history) label := by
  rw [ofHistory, List.foldl_concat, ofHistory]

end Ledger

/-! ## What the two sides owe each other -/

/-- Whether an exchange is going on whose request has been written. -/
def IsOpen (root : Path) (index : Index) (payload : Payload) (history : List Label) : Prop :=
  ∃ early between content, history = early ++ .called index payload :: between ∧
    (∀ label ∈ between, label.isMark = false) ∧
    .event (.own (.wrote (root.join (requestName index)) content (.ok ()))) ∈ between

/-- Whether the record goes on, behind its part `source`, with the engine's answer to the payload of
the exchange that is going on. -/
def IsAnswered (root : Path) (index : Index) (payload answer : Payload)
    (history source : List Label) : Prop :=
  IsOpen root index payload source ∧
    ∃ before after late, history = source ++ .event (.others before after) :: late ∧
      Answers root index payload answer before after ∧ ∀ label ∈ late, label.isMark = false

/-- Whether the engine reads the payload of the call in which the request was written. -/
def AsksPosted (root : Path) (history : List Label) : Prop :=
  ∀ past later before after, history = past ++ .event (.others before after) :: later →
    ∀ index asked reply, Answers root index asked reply before after →
      (Ledger.ofHistory root past).posted index = some asked

/-- Whether all that is returned has been published in answer to the payload of the same exchange,
after its request was written. -/
def ReturnsAnswers (root : Path) (history : List Label) : Prop :=
  ∀ past later index payload answer,
    history = past ++ .returned index payload answer :: later →
      ∃ source, IsAnswered root index payload answer past source

/-- Whether no published answer is returned twice. -/
def ReturnsOnce (root : Path) (history : List Label) : Prop :=
  ∀ past later index payload answer past' later' index' payload' answer' source,
    history = past ++ .returned index payload answer :: later →
    history = past' ++ .returned index' payload' answer' :: later' →
      IsAnswered root index payload answer past source →
      IsAnswered root index' payload' answer' past' source → past = past'

/-! ## Where the dialogue may come -/

/-- Whether a mailbox holds no entry with the name of an exchange file, nor will once it has been
created. -/
def IsEmpty (root : Path) (disk : Disk) : Prop :=
  ∀ directory, disk.MayLead root directory → ∀ name, isExchangeName name = true →
    disk.at? (directory ++ [name]) = none

/-- Whether no request and no response of an index or a later one exists. -/
def IsFreeFrom (root : Path) (index : Index) (disk : Disk) : Prop :=
  ∀ directory, disk.Leads root directory → ∀ later, index.value ≤ later.value →
    disk.at? (directory ++ [requestName later]) = none ∧
      disk.at? (directory ++ [responseName later]) = none

/-- What is recorded when a send comes to its end. -/
def ending (index : Index) (payload : Payload) : Except Halt Payload → List Label
  | .ok answer => [.returned index payload answer]
  | .error _ => []

/-- What console and engine may come to, in any interleaving that keeps a rule about what happens in
a reset. There is no channel while the console waits for a response. File operations succeed, and
the last index is not used up. -/
inductive Reachable (root : Path) (rule : List Event → Prop) :
    Option Channel → Scene → List Label → Prop
  | start {channel : Channel} {scene : Scene} (hroot : channel.root = root)
      (hindex : channel.index = .zero) (hempty : IsEmpty root scene.disk) :
      Reachable root rule (some channel) scene []
  | send {channel : Channel} {scene : Scene} {history : List Label}
      (h : Reachable root rule (some channel) scene history) (payload : Payload)
      (future : List (List Scene)) (listing : Listing) {result : Except Halt Payload}
      {next : Channel} {after : Stage}
      (hrun : (Channel.send payload : ChannelM Play Payload) channel
        (.opening scene future listing) = ((result, next), after))
      (hothers : Obeys (IsStep root) after.history)
      (hsucceeds : ∀ path cause, result ≠ .error (.failed (.io path cause)))
      (hindex : result ≠ .error .exhausted) :
      Reachable root rule (if result = .error .unanswered then none else some next) after.scene
        (history ++ .called channel.index payload ::
          (after.history.map .event ++ ending channel.index payload result))
  /-- A directory may be listed in any order, and the engine may step in between two deletions. The
  empty path has nothing to list, which is a failure that a sweep takes for an absent mailbox. -/
  | reset {channel : Channel} {scene : Scene} {history : List Label}
      (h : Reachable root rule (some channel) scene history) (future : List (List Scene))
      (listing : Listing) {report : SweepReport} {next : Channel} {after : Stage}
      (hrun : (Channel.reset channel : Play _) (.opening scene future listing) =
        ((report, next), after))
      (hothers : Obeys (IsStep root) after.history)
      (hrule : rule after.history)
      (hsucceeds : report.isClean = true ∧ root.text ≠ "") :
      Reachable root rule (some next) after.scene (history ++ after.history.map .event)
  | jump {channel : Channel} {scene : Scene} {history : List Label}
      (h : Reachable root rule (some channel) scene history) {index : Index}
      (hfree : IsFreeFrom root index scene.disk) :
      Reachable root rule (some (channel.jump index)) scene history
  | others {channel : Option Channel} {scene after : Scene} {history : List Label}
      (h : Reachable root rule channel scene history) (hstep : IsStep root scene after) :
      Reachable root rule channel after (history ++ [.event (.others scene after)])

end ScriptMailbox.Mailbox

import ScriptMailbox.Proofs.Disk.Changes
import ScriptMailbox.Proofs.Mailbox.Transcripts

/-!
# How an exchange ends

An exchange has eight exits. Which one it takes is settled by what the program has done on the way,
whatever is on the disk and whatever others do between two operations; and each exit says what has
been done, what the result is, and where the channel goes on.
-/

namespace ScriptMailbox

/-- Whether an operation may change the disk. -/
@[simp]
def Operation.isChange : Operation → Bool
  | .made .. | .wrote .. | .removed .. => true
  | _ => false

/-- An operation that only looks changes nothing. -/
theorem Operation.Turns.eq_of_view {operation : Operation} {before after : Scene}
    (h : operation.Turns before after) (hview : operation.isChange = false) : after = before := by
  cases operation with
  | listed => exact h.elim fun _ hlisted => (congrArg Prod.snd hlisted).symm
  | _ => cases hview <;> exact (congrArg Prod.snd h).symm

/-- Whether no operation may change the disk. -/
def AreLooks (operations : List Operation) : Prop :=
  ∀ operation ∈ operations, operation.isChange = false

/-- No operation is no change. -/
@[simp] theorem areLooks_nil : AreLooks [] :=
  List.forall_mem_nil _

/-- Looks are made of one look and more looks. -/
@[simp] theorem areLooks_cons {operation : Operation} {operations : List Operation} :
    AreLooks (operation :: operations) ↔ operation.isChange = false ∧ AreLooks operations :=
  List.forall_mem_cons

/-- Looks may be taken apart anywhere. -/
@[simp] theorem areLooks_append {operations more : List Operation} :
    AreLooks (operations ++ more) ↔ AreLooks operations ∧ AreLooks more :=
  List.forall_mem_append

/-- A wait only looks. -/
@[simp] theorem areLooks_polls (path : Path) (tries : ℕ) : AreLooks (Stage.polls path tries) := by
  induction tries with
  | zero => exact areLooks_nil
  | succ tries ih => simp [Stage.polls, ih]

/-- Whether others leave a file alone that has some content. -/
def Kept (events : List Event) (path : Path) (content : Bytes) : Prop :=
  ∀ before after, .others before after ∈ events → before.disk.read path = .ok content →
    after.disk.read path = .ok content

/-- What has been written is there in the end, if others leave it alone. -/
theorem Scene.Becomes.read_of_wrote {before after : Scene} {events : List Event}
    {operations more : List Operation} {path : Path} {content : Bytes}
    (h : before.Becomes events after)
    (hown : own events = operations ++ .wrote path content (.ok ()) :: more)
    (hmore : AreLooks more) (hkept : Kept events path content) :
    after.disk.read path = .ok content := by
  obtain ⟨early, late, ready, written, rfl, -, hlate, -, hwrite, hrest⟩ := h.split hown
  refine hrest.keeps (·.disk.read path = .ok content)
    (fun event hmem left reached hturns hread => ?_)
    (Disk.read_write (Scene.change_eq_ok_iff.mp hwrite).1)
  cases event with
  | own operation =>
    have hview := hmore operation (hlate ▸ mem_own_iff.mpr hmem)
    rwa [Operation.Turns.eq_of_view hturns hview]
  | others =>
    obtain ⟨rfl, rfl⟩ := hturns
    exact hkept left reached (by simp [hmem]) hread

/-- One exchange, with what happens in it. -/
structure Exchange where
  /-- The channel before. -/
  channel : Channel
  payload : Payload
  result : Except Halt Payload
  /-- The channel afterwards. -/
  next : Channel
  events : List Event
  /-- The scene afterwards. -/
  scene : Scene

namespace Exchange

/-- The path of the request. -/
def request (exchange : Exchange) : Path :=
  exchange.channel.requestPath exchange.channel.index

/-- The path of the response. -/
def response (exchange : Exchange) : Path :=
  exchange.channel.responsePath exchange.channel.index

/-- Whether the request is posted and the program does some more operations after that. The request
holds the document of the payload then, if others leave it alone. -/
def Posts (exchange : Exchange) (more : List Operation) : Prop :=
  ∃ document, Document.write exchange.payload = .ok document ∧
    own exchange.events = exchange.channel.posting document ++ more ∧
    (Kept exchange.events exchange.request (Text.Utf8.encode document) →
      exchange.scene.disk.read exchange.request = .ok (Text.Utf8.encode document))

end Exchange

/-- The ways in which an exchange ends. -/
inductive Exit
  /-- The payload has no document. -/
  | invalid
  /-- The flag is up before anything is done. -/
  | calledOff
  /-- The root cannot be created, or the request cannot be written. -/
  | refused
  /-- The flag is up while the response is not there. -/
  | cancelled
  /-- The response is there and cannot be read. -/
  | unreadable
  /-- The response has been read. -/
  | answered
  /-- The response has been read, and the index was the last one. -/
  | exhausted
  /-- The response is not there and the flag is down, and others will not change that. -/
  | waiting
  deriving DecidableEq

namespace Exit

open Stage (polls)

/-- What an exit says of an exchange. -/
def Describes (exchange : Exchange) : Exit → Prop
  | invalid =>
    own exchange.events = [] ∧ exchange.next = exchange.channel ∧
      ∃ fault, Document.write exchange.payload = .error fault ∧
        exchange.result = .error (.failed (.invalidPayload fault.message))
  | calledOff =>
    own exchange.events = [.checked true] ∧ exchange.next = exchange.channel ∧
      (∃ document, Document.write exchange.payload = .ok document) ∧
      exchange.result = .error (.failed (.cancelled exchange.request))
  | refused =>
    exchange.next = exchange.channel ∧
      ∃ document fault, Document.write exchange.payload = .ok document ∧
        (own exchange.events = [.checked false, .made exchange.channel.root (.error fault)] ∧
            exchange.result = .error (.failed (.io exchange.channel.root fault.message)) ∨
          own exchange.events =
              [.checked false, .made exchange.channel.root (.ok ()),
                .wrote exchange.request (Text.Utf8.encode document) (.error fault)] ∧
            exchange.result = .error (.failed (.io exchange.request fault.message)))
  | cancelled =>
    exchange.next = exchange.channel ∧
      exchange.result = .error (.failed (.cancelled exchange.response)) ∧
      ∃ tries, exchange.Posts
        (polls exchange.response tries ++ [.looked exchange.response none, .checked true])
  | unreadable =>
    exchange.next = exchange.channel ∧
      ∃ tries kind fault,
        exchange.Posts
          (polls exchange.response tries ++
            [.looked exchange.response (some kind), .opened exchange.response (.error fault)]) ∧
          exchange.result = .error (.failed (.io exchange.response fault.message))
  | answered =>
    ∃ tries kind raw index,
      exchange.Posts
          (polls exchange.response tries ++
            [.looked exchange.response (some kind), .opened exchange.response (.ok raw)]) ∧
        index.value = exchange.channel.index.value + 1 ∧
        exchange.next = exchange.channel.jump index ∧
        ((∃ answer, Document.read raw = .ok answer ∧ exchange.result = .ok answer) ∨
          ∃ damage, Document.read raw = .error damage ∧
            exchange.result = .error (.failed
              (.corruptResponse (exchange.response.text ++ ": " ++ damage.message))))
  | exhausted =>
    exchange.channel.index.value + 1 = Text.Decimal.bound64 ∧
      exchange.next = exchange.channel ∧ exchange.result = .error .exhausted ∧
      ∃ tries kind raw,
        exchange.Posts
          (polls exchange.response tries ++
            [.looked exchange.response (some kind), .opened exchange.response (.ok raw)])
  | waiting =>
    exchange.next = exchange.channel ∧ exchange.result = .error .unanswered ∧
      (∃ tries, exchange.Posts
        (polls exchange.response tries ++ [.looked exchange.response none, .checked false])) ∧
      exchange.scene.disk.kind? exchange.response = none ∧ exchange.scene.cancelled = false

/-- The exit of an exchange with some result and some operations. -/
def ofRun (result : Except Halt Payload) (operations : List Operation) : Exit :=
  match result with
  | .ok _ | .error (.failed (.corruptResponse _)) => answered
  | .error (.failed (.invalidPayload _)) => invalid
  | .error (.failed (.cancelled _)) => if operations.length ≤ 1 then calledOff else cancelled
  | .error (.failed _) => if operations.length ≤ 3 then refused else unreadable
  | .error .exhausted => exhausted
  | .error _ => waiting

/-- Two exits never describe the same exchange. -/
theorem Describes.eq_ofRun {exchange : Exchange} {exit : Exit} (h : exit.Describes exchange) :
    exit = ofRun exchange.result (own exchange.events) := by
  -- result and operations together tell the exits apart
  cases exit with
  | invalid =>
    obtain ⟨-, -, fault, -, hresult⟩ := h
    rw [hresult]
    rfl
  | calledOff =>
    obtain ⟨hown, -, -, hresult⟩ := h
    rw [hresult, hown]
    rfl
  | refused =>
    obtain ⟨-, document, fault, -, ⟨hown, hresult⟩ | ⟨hown, hresult⟩⟩ := h
    · rw [hresult, hown]
      rfl
    · rw [hresult, hown]
      rfl
  | cancelled =>
    obtain ⟨-, hresult, tries, document, -, hown, -⟩ := h
    rw [hresult, hown]
    simp [ofRun, Channel.posting]
  | unreadable =>
    obtain ⟨-, tries, kind, fault, ⟨document, -, hown, -⟩, hresult⟩ := h
    rw [hresult, hown]
    simp [ofRun, Channel.posting]
  | answered =>
    obtain ⟨tries, kind, raw, index, -, -, -, ⟨answer, -, hresult⟩ | ⟨damage, -, hresult⟩⟩ := h
    · rw [hresult]
      rfl
    · rw [hresult]
      rfl
  | exhausted =>
    obtain ⟨-, -, hresult, -⟩ := h
    rw [hresult]
    rfl
  | waiting =>
    obtain ⟨-, hresult, -⟩ := h
    rw [hresult]
    rfl

end Exit

/-! ## Every exchange ends so -/

namespace Exchange

open Stage (polls)

/-- What the program does after posting leaves the request as it is. -/
theorem posts_of_becomes {exchange : Exchange} {before : Scene} {document : String} {tries : ℕ}
    {more : List Operation} (hwrite : Document.write exchange.payload = .ok document)
    (hbecomes : before.Becomes exchange.events exchange.scene)
    (hown : own exchange.events =
      exchange.channel.posting document ++ (polls exchange.response tries ++ more))
    (hmore : AreLooks more) : exchange.Posts (polls exchange.response tries ++ more) := by
  have hposted : own exchange.events =
      [.checked false, .made exchange.channel.root (.ok ())] ++
        .wrote exchange.request (Text.Utf8.encode document) (.ok ()) ::
          (polls exchange.response tries ++ more) := hown
  exact ⟨document, hwrite, hown, hbecomes.read_of_wrote hposted (by simp [hmore])⟩

end Exchange

namespace Channel

open Stage (polls)

variable (channel : Channel) (payload : Payload) (stage : Stage)

/-- Whether an exchange takes one of the exits. -/
def Ends (run : (Except Halt Payload × Channel) × Stage) : Prop :=
  ∃ events, run.2.history = stage.history ++ events ∧ stage.scene.Becomes events run.2.scene ∧
    ∃ exit : Exit, exit.Describes ⟨channel, payload, run.1.1, run.1.2, events, run.2.scene⟩

variable {channel payload stage} {document : String} {tries : ℕ} {between : Stage}

/-- An exchange whose response is there is answered, or has run out of indexes, or cannot read the
response. -/
theorem ends_collect {kind : Kind} (hwrite : Document.write payload = .ok document)
    (hdoes : stage.Does (channel.posting document ++
      (polls (channel.responsePath channel.index) tries ++
        [.looked (channel.responsePath channel.index) (some kind)])) between) :
    Ends channel payload stage ((collect : ChannelM Play Payload) channel between) := by
  obtain ⟨outcome, after, hcollects, hrun⟩ := collect_cases channel between
  obtain ⟨events, hhistory, hbecomes, hown⟩ := hdoes.trans hcollects
  rw [List.append_assoc, List.append_assoc] at hown
  rw [hrun]
  cases outcome with
  | error fault =>
    refine ⟨events, hhistory, hbecomes, .unreadable, rfl, tries, kind, fault, ?_, rfl⟩
    exact Exchange.posts_of_becomes hwrite hbecomes hown (by simp)
  | ok raw =>
    dsimp only
    cases hnext : channel.index.next? with
    | none =>
      refine ⟨events, hhistory, hbecomes, .exhausted, Index.next?_eq_none_iff.mp hnext, rfl, rfl,
        tries, kind, raw, ?_⟩
      exact Exchange.posts_of_becomes hwrite hbecomes hown (by simp)
    | some index =>
      refine ⟨events, hhistory, hbecomes, .answered, tries, kind, raw, index, ?_,
        Index.next?_eq_some_iff.mp hnext, rfl, ?_⟩
      · exact Exchange.posts_of_becomes hwrite hbecomes hown (by simp)
      · dsimp only [payloadOf]
        cases Document.read raw with
        | ok answer => exact .inl ⟨answer, rfl, rfl⟩
        | error damage => exact .inr ⟨damage, rfl, rfl⟩

/-- An exchange whose request is posted waits for the response. -/
theorem ends_await (hwrite : Document.write payload = .ok document)
    (hdoes : stage.Does (channel.posting document) between) :
    Ends channel payload stage
      ((await >>= fun _ => collect : ChannelM Play Payload) channel between) := by
  have hwait := await_apply channel between
  obtain ⟨tries, ⟨hend, kind, hpolls⟩ | ⟨hend, hpolls⟩ | ⟨hend, hpolls, hkind, hflag⟩⟩ :=
    Stage.await_cases (channel.responsePath channel.index) between
  · rw [hend, ofWait] at hwait
    rw [bind_ok hwait]
    exact ends_collect hwrite (hdoes.trans hpolls)
  · rw [hend, ofWait] at hwait
    rw [bind_error hwait]
    obtain ⟨events, hhistory, hbecomes, hown⟩ := hdoes.trans hpolls
    refine ⟨events, hhistory, hbecomes, .cancelled, rfl, rfl, tries, ?_⟩
    exact Exchange.posts_of_becomes hwrite hbecomes hown (by simp)
  · rw [hend, ofWait] at hwait
    rw [bind_error hwait]
    obtain ⟨events, hhistory, hbecomes, hown⟩ := hdoes.trans hpolls
    refine ⟨events, hhistory, hbecomes, .waiting, rfl, rfl, ⟨tries, ?_⟩, hkind, hflag⟩
    exact Exchange.posts_of_becomes hwrite hbecomes hown (by simp)

/-- Every exchange comes to one of its ends, one case for each point at which it can stop. -/
theorem ends_send (channel : Channel) (payload : Payload) (stage : Stage) :
    Ends channel payload stage ((send payload : ChannelM Play Payload) channel stage) := by
  obtain ⟨result, after, hpost, ⟨fault, hwrite, rfl, hdoes⟩ | ⟨document, hwrite, hcases⟩⟩ :=
    post_cases channel payload stage
  · rw [send, bind_error hpost]
    obtain ⟨events, hhistory, hbecomes, hown⟩ := hdoes
    exact ⟨events, hhistory, hbecomes, .invalid, hown, rfl, fault, hwrite, rfl⟩
  rcases hcases with ⟨rfl, hdoes⟩ | ⟨fault, rfl, hdoes⟩ | ⟨fault, rfl, hdoes⟩ | ⟨rfl, hdoes⟩
  · rw [send, bind_error hpost]
    obtain ⟨events, hhistory, hbecomes, hown⟩ := hdoes
    exact ⟨events, hhistory, hbecomes, .calledOff, hown, rfl, ⟨document, hwrite⟩, rfl⟩
  · rw [send, bind_error hpost]
    obtain ⟨events, hhistory, hbecomes, hown⟩ := hdoes
    exact ⟨events, hhistory, hbecomes, .refused, rfl, document, fault, hwrite, .inl ⟨hown, rfl⟩⟩
  · rw [send, bind_error hpost]
    obtain ⟨events, hhistory, hbecomes, hown⟩ := hdoes
    exact ⟨events, hhistory, hbecomes, .refused, rfl, document, fault, hwrite, .inr ⟨hown, rfl⟩⟩
  · rw [send, bind_ok hpost]
    exact ends_await hwrite hdoes

end Channel

/-! ## What an exit leaves behind -/

namespace Exchange

open Stage (polls)

variable {exchange : Exchange} {operation : Operation} {tries : ℕ} {more : List Operation}

/-- What the program may change on the disk. -/
def MayDo (exchange : Exchange) (operation : Operation) : Prop :=
  (∃ outcome, operation = .made exchange.channel.root outcome) ∨
    ∃ document outcome, Document.write exchange.payload = .ok document ∧
      operation = .wrote exchange.request (Text.Utf8.encode document) outcome

/-- Once a request has been posted only looks follow, so every change belongs to the posting. -/
theorem Posts.mayDo (h : exchange.Posts (polls exchange.response tries ++ more))
    (hmore : AreLooks more) (hmem : operation ∈ own exchange.events)
    (hchange : operation.isChange = true) :
    exchange.MayDo operation := by
  obtain ⟨document, hwrite, hown, -⟩ := h
  rw [hown, List.mem_append] at hmem
  rcases hmem with hmem | hmem
  · simp only [Channel.posting, List.mem_cons, List.not_mem_nil, or_false] at hmem
    rcases hmem with rfl | rfl | rfl
    · cases hchange
    · exact .inl ⟨_, rfl⟩
    · exact .inr ⟨document, _, hwrite, rfl⟩
  · have hlooks : AreLooks (polls exchange.response tries ++ more) := by simp [hmore]
    rw [hlooks operation hmem] at hchange
    cases hchange

/-- A wait opens no file. -/
theorem opened_not_mem_polls (path : Path) (raw : Bytes) (other : Path) :
    .opened path (.ok raw) ∉ polls other tries := by
  induction tries with
  | zero => exact List.not_mem_nil
  | succ tries ih => simp [polls, ih]

/-- A response is read behind the wait, if it is read at all. -/
theorem Posts.opened_iff (h : exchange.Posts (polls exchange.response tries ++ more))
    {raw : Bytes} :
    .opened exchange.response (.ok raw) ∈ own exchange.events ↔
      .opened exchange.response (.ok raw) ∈ more := by
  obtain ⟨document, -, hown, -⟩ := h
  simp [hown, Channel.posting, opened_not_mem_polls]

end Exchange

namespace Exit

variable {exchange : Exchange} {exit : Exit} {operation : Operation}

/-- Whatever the exit, the program changes nothing but the root and the request. -/
theorem Describes.mayDo (h : exit.Describes exchange) (hmem : operation ∈ own exchange.events)
    (hchange : operation.isChange = true) : exchange.MayDo operation := by
  cases exit with
  | invalid =>
    rw [h.1] at hmem
    cases hmem
  | calledOff =>
    rw [h.1, List.mem_singleton] at hmem
    subst hmem
    cases hchange
  | refused =>
    obtain ⟨-, document, fault, hwrite, ⟨hown, -⟩ | ⟨hown, -⟩⟩ := h <;>
      simp only [hown, List.mem_cons, List.not_mem_nil, or_false] at hmem
    · rcases hmem with rfl | rfl
      · cases hchange
      · exact .inl ⟨_, rfl⟩
    · rcases hmem with rfl | rfl | rfl
      · cases hchange
      · exact .inl ⟨_, rfl⟩
      · exact .inr ⟨document, _, hwrite, rfl⟩
  | cancelled =>
    obtain ⟨-, -, tries, hposts⟩ := h
    exact hposts.mayDo (by simp) hmem hchange
  | unreadable =>
    obtain ⟨-, tries, kind, fault, hposts, -⟩ := h
    exact hposts.mayDo (by simp) hmem hchange
  | answered =>
    obtain ⟨tries, kind, raw, index, hposts, -⟩ := h
    exact hposts.mayDo (by simp) hmem hchange
  | exhausted =>
    obtain ⟨-, -, -, tries, kind, raw, hposts⟩ := h
    exact hposts.mayDo (by simp) hmem hchange
  | waiting =>
    obtain ⟨-, -, ⟨tries, hposts⟩, -⟩ := h
    exact hposts.mayDo (by simp) hmem hchange

/-- The channel moves on exactly when a response is read and there is a next index. -/
theorem Describes.moves_iff (h : exit.Describes exchange) :
    exchange.next ≠ exchange.channel ↔
      exchange.channel.index.value + 1 < Text.Decimal.bound64 ∧
        ∃ raw, .opened exchange.response (.ok raw) ∈ own exchange.events := by
  cases exit with
  | invalid => simp [h.1, h.2.1]
  | calledOff => simp [h.1, h.2.1]
  | refused =>
    obtain ⟨hnext, document, fault, -, ⟨hown, -⟩ | ⟨hown, -⟩⟩ := h <;> simp [hnext, hown]
  | cancelled =>
    obtain ⟨hnext, -, tries, hposts⟩ := h
    simp [hnext, hposts.opened_iff]
  | unreadable =>
    obtain ⟨hnext, tries, kind, fault, hposts, -⟩ := h
    simp [hnext, hposts.opened_iff]
  | answered =>
    obtain ⟨tries, kind, raw, index, hposts, hindex, hnext, -⟩ := h
    have hlt := index.value_lt
    have hmoved : exchange.next ≠ exchange.channel := by
      intro heq
      have : index = exchange.channel.index := congrArg Channel.index (hnext.symm.trans heq)
      rw [this] at hindex
      omega
    simp only [ne_eq, hmoved, not_false_eq_true, true_iff, hposts.opened_iff]
    exact ⟨by omega, raw, by simp⟩
  | exhausted =>
    obtain ⟨hlast, hnext, -⟩ := h
    simp only [hnext, ne_eq, not_true, false_iff, not_and]
    omega
  | waiting =>
    obtain ⟨hnext, -, ⟨tries, hposts⟩, -⟩ := h
    simp [hnext, hposts.opened_iff]

end Exit

/-- Every exchange takes exactly one exit, whatever is on the disk and whatever others do meanwhile.
It changes nothing but the root and the request, and the channel moves on exactly when a response
is read and there is a next index. -/
theorem Channel.send_takes_exit (channel : Channel) (payload : Payload) (stage : Stage) :
    ∃ result next after events,
      (Channel.send payload : ChannelM Play Payload) channel stage = ((result, next), after) ∧
        after.history = stage.history ++ events ∧ stage.scene.Becomes events after.scene ∧
        (∃! exit : Exit,
          exit.Describes ⟨channel, payload, result, next, events, after.scene⟩) ∧
        (∀ operation, .own operation ∈ events → operation.isChange = true →
          (∃ outcome, operation = .made channel.root outcome) ∨
            ∃ document outcome, Document.write payload = .ok document ∧
              operation = .wrote (channel.requestPath channel.index)
                (Text.Utf8.encode document) outcome) ∧
        (next ≠ channel ↔
          channel.index.value + 1 < Text.Decimal.bound64 ∧
            ∃ raw, .own (.opened (channel.responsePath channel.index) (.ok raw)) ∈ events) := by
  obtain ⟨events, hhistory, hbecomes, exit, hexit⟩ := ends_send channel payload stage
  rcases hrun : (send payload : ChannelM Play Payload) channel stage with ⟨⟨result, next⟩, after⟩
  rw [hrun] at hhistory hbecomes hexit
  refine ⟨result, next, after, events, rfl, hhistory, hbecomes,
    ⟨exit, hexit, fun other hother => ?_⟩, fun operation hmem => ?_, ?_⟩
  · exact hother.eq_ofRun.trans hexit.eq_ofRun.symm
  · exact hexit.mayDo (mem_own_iff.mpr hmem)
  · have hmoves := hexit.moves_iff
    simp only [mem_own_iff] at hmoves
    exact hmoves

end ScriptMailbox

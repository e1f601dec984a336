import ScriptMailbox.Proofs.Mailbox.Exits
import ScriptMailbox.Proofs.Mailbox.Replies

/-!
# The log of requests

Exchanges that are made one after the other leave a log behind: the requests whose responses have
been read stand under successive indexes and are never written again. An exchange writes no request
but the one of its own index, and the index moves on exactly when that request is answered.
-/

namespace ScriptMailbox

open Mailbox

/-- Whether others leave the requests of a mailbox alone: no exchange file becomes a link, and every
request that can be read stays as it is. -/
structure Spares (root : Path) (before after : Scene) : Prop where
  links : HasNoLinks before.disk root → HasNoLinks after.disk root
  requests : ∀ index content, before.disk.read (root.join (requestName index)) = .ok content →
    after.disk.read (root.join (requestName index)) = .ok content

namespace Channel

/-- Makes exchanges one after the other, whatever comes of them. -/
def sendAll {m : Type → Type} [Monad m] [Host m] :
    List Payload → StateT Channel m (List (Except Halt Payload))
  | [] => pure []
  | payload :: payloads => do
    let result ← (send payload).run
    let results ← sendAll payloads
    pure (result :: results)

/-- Whether a response has been read, be it whole or corrupt. -/
def isRead : Except Halt Payload → Bool
  | .ok _ | .error (.failed (.corruptResponse _)) => true
  | _ => false

/-- The payloads whose responses have been read. -/
def answered : List Payload → List (Except Halt Payload) → List Payload
  | payload :: payloads, result :: results =>
    if isRead result then payload :: answered payloads results else answered payloads results
  | _, _ => []

/-! ## One exchange -/

section

variable {exchange : Exchange} {exit : Exit} {before after : Scene} {operation : Operation}

/-- Whether the requests of other indexes than one stay as they are. -/
def KeepsOthers (root : Path) (own : Index) (before after : Disk) : Prop :=
  ∀ index content, index ≠ own → before.read (root.join (requestName index)) = .ok content →
    after.read (root.join (requestName index)) = .ok content

/-- An operation of an exchange leaves the requests of other indexes alone. -/
theorem keepsOthers_of_turns (hmay : operation.isChange = true → exchange.MayDo operation)
    (hturns : operation.Turns before after)
    (hlinks : HasNoLinks before.disk exchange.channel.root) :
    HasNoLinks after.disk exchange.channel.root ∧
      KeepsOthers exchange.channel.root exchange.channel.index before.disk after.disk := by
  cases hchange : operation.isChange with
  | false =>
    rw [hturns.eq_of_view hchange]
    exact ⟨hlinks, fun _ _ _ hread => hread⟩
  | true =>
    obtain ⟨outcome, rfl⟩ | ⟨document, outcome, -, rfl⟩ := hmay hchange
    · have hgains : before.disk.Gains after.disk := by
        rw [← congrArg (·.2.disk) hturns]
        exact Disk.gains_makeDirectories _ _
      exact ⟨hlinks.of_gains hgains, fun _ _ _ hread => hgains.read_eq_ok hread⟩
    · cases outcome with
      | error fault =>
        rw [Scene.eq_of_change_error hturns]
        exact ⟨hlinks, fun _ _ _ hread => hread⟩
      | ok =>
        obtain ⟨directory, hreplaces⟩ := Mailbox.replaces_of_write hlinks
          (isExchangeName_requestName exchange.channel.index) (Scene.change_eq_ok_iff.mp hturns).1
        exact ⟨hreplaces.hasNoLinks hlinks, fun index _ hne => hreplaces.read_of_ne hlinks
          (isExchangeName_requestName index) (requestName_injective.ne hne)⟩

/-- So does a whole exchange. -/
theorem keepsOthers_of_exit (hexit : exit.Describes exchange)
    (hbecomes : before.Becomes exchange.events after)
    (hothers : Obeys (Spares exchange.channel.root) exchange.events)
    (hlinks : HasNoLinks before.disk exchange.channel.root) :
    HasNoLinks after.disk exchange.channel.root ∧
      KeepsOthers exchange.channel.root exchange.channel.index before.disk after.disk := by
  refine hbecomes.keeps (fun scene => HasNoLinks scene.disk exchange.channel.root ∧
    KeepsOthers exchange.channel.root exchange.channel.index before.disk scene.disk)
    (fun event hmem left reached hturns hleft => ?_) ⟨hlinks, fun _ _ _ hread => hread⟩
  cases event with
  | own operation =>
    obtain ⟨hlinks', hkeeps⟩ :=
      keepsOthers_of_turns (hexit.mayDo (mem_own_iff.mpr hmem)) hturns hleft.1
    exact ⟨hlinks', fun index content hne hread =>
      hkeeps index content hne (hleft.2 index content hne hread)⟩
  | others =>
    obtain ⟨rfl, rfl⟩ := hturns
    have hspares := hothers left reached hmem
    exact ⟨hspares.links hleft.1, fun index content hne hread =>
      hspares.requests index content (hleft.2 index content hne hread)⟩

/-- A response is read when the index moves on, and the request that it answers is there. -/
theorem log_of_exit (hexit : exit.Describes exchange) :
    exchange.next.root = exchange.channel.root ∧
      if isRead exchange.result then
        exchange.next.index.value = exchange.channel.index.value + 1 ∧
          ∃ more, exchange.Posts more
      else exchange.next = exchange.channel := by
  cases exit with
  | invalid =>
    obtain ⟨-, hnext, fault, -, hresult⟩ := hexit
    simp [hnext, hresult, isRead]
  | calledOff =>
    obtain ⟨-, hnext, -, hresult⟩ := hexit
    simp [hnext, hresult, isRead]
  | refused =>
    obtain ⟨hnext, document, fault, -, ⟨-, hresult⟩ | ⟨-, hresult⟩⟩ := hexit <;>
      simp [hnext, hresult, isRead]
  | cancelled =>
    obtain ⟨hnext, hresult, -⟩ := hexit
    simp [hnext, hresult, isRead]
  | unreadable =>
    obtain ⟨hnext, tries, kind, fault, -, hresult⟩ := hexit
    simp [hnext, hresult, isRead]
  | answered =>
    obtain ⟨tries, kind, raw, index, hposts, hindex, hnext, hresult⟩ := hexit
    have hread : isRead exchange.result = true := by
      rcases hresult with ⟨answer, -, hresult⟩ | ⟨damage, -, hresult⟩ <;> rw [hresult] <;> rfl
    rw [hnext, if_pos hread]
    exact ⟨rfl, hindex, _, hposts⟩
  | exhausted =>
    obtain ⟨-, hnext, hresult, -⟩ := hexit
    simp [hnext, hresult, isRead]
  | waiting =>
    obtain ⟨hnext, hresult, -⟩ := hexit
    simp [hnext, hresult, isRead]

end

/-! ## Many exchanges -/

section

variable (payload : Payload) (payloads : List Payload) (channel : Channel) (stage : Stage)

/-- With nothing to send, nothing is done. -/
theorem sendAll_nil :
    (sendAll [] : StateT Channel Play _) channel stage = (([], channel), stage) := rfl

/-- The first payload is sent, and then the others with whatever channel is left. -/
theorem sendAll_cons :
    (sendAll (payload :: payloads) : StateT Channel Play _) channel stage =
      let first := (send payload : ChannelM Play Payload) channel stage
      let rest := (sendAll payloads : StateT Channel Play _) first.1.2 first.2
      ((first.1.1 :: rest.1.1, rest.1.2), rest.2) := rfl

end

/-- So the runs of both parts make the run of the whole. -/
theorem sendAll_eq {payload : Payload} {payloads : List Payload} {channel between last : Channel}
    {stage middle after : Stage} {result : Except Halt Payload}
    {results : List (Except Halt Payload)}
    (hfirst : (send payload : ChannelM Play Payload) channel stage = ((result, between), middle))
    (hrest : (sendAll payloads : StateT Channel Play _) between middle = ((results, last), after)) :
    (sendAll (payload :: payloads) : StateT Channel Play _) channel stage =
      ((result :: results, last), after) := by
  rw [sendAll_cons, hfirst]
  dsimp only
  rw [hrest]

/-- Whether the requests of some payloads stand under successive indexes. -/
def IsLog (root : Path) (start : Index) (payloads : List Payload) (disk : Disk) : Prop :=
  ∀ i payload, payloads[i]? = some payload →
    ∃ index document, index.value = start.value + i ∧ Document.write payload = .ok document ∧
      disk.read (root.join (requestName index)) = .ok (Text.Utf8.encode document)

/-- What exchanges leave behind: the index counts the answered payloads, whose requests are logged,
and requests of lower indexes stay. -/
structure Logs (root : Path) (start last : Index) (payloads : List Payload) (before after : Disk) :
    Prop where
  count : last.value = start.value + payloads.length
  lower : ∀ index content, index.value < start.value →
    before.read (root.join (requestName index)) = .ok content →
      after.read (root.join (requestName index)) = .ok content
  log : IsLog root start payloads after

section

variable {root : Path} {start next last : Index} {payloads : List Payload} {payload : Payload}
  {document : String} {before between after : Disk}

/-- Nothing has been logged where nothing has been done. -/
theorem Logs.refl (root : Path) (start : Index) (disk : Disk) :
    Logs root start start [] disk disk :=
  ⟨rfl, fun _ _ _ hread => hread, fun _ _ hpayload => by cases hpayload⟩

/-- An exchange that is not answered leaves no trace but its own request. -/
theorem Logs.skip (h : Logs root start last payloads between after)
    (hkeeps : KeepsOthers root start before between) :
    Logs root start last payloads before after := by
  refine ⟨h.count, fun index content hlt hread => ?_, h.log⟩
  exact h.lower index content hlt (hkeeps index content (by rintro rfl; omega) hread)

/-- An exchange that is answered leaves its request in front of the log. -/
theorem Logs.cons (h : Logs root next last payloads between after)
    (hnext : next.value = start.value + 1) (hkeeps : KeepsOthers root start before between)
    (hwrite : Document.write payload = .ok document)
    (hposted : between.read (root.join (requestName start)) =
      .ok (Text.Utf8.encode document)) :
    Logs root start last (payload :: payloads) before after := by
  refine ⟨?_, fun index content hlt hread => ?_, fun i logged hlogged => ?_⟩
  · rw [List.length_cons, h.count]
    omega
  · exact h.lower index content (by omega) (hkeeps index content (by rintro rfl; omega) hread)
  · cases i with
    | zero =>
      obtain rfl : payload = logged := by simpa using hlogged
      exact ⟨start, document, rfl, hwrite, h.lower start _ (by omega) hposted⟩
    | succ i =>
      obtain ⟨index, document', hvalue, hwritten, hread⟩ := h.log i logged hlogged
      exact ⟨index, document', by omega, hwritten, hread⟩

end

/-- Every run of exchanges leaves a log behind. -/
theorem exists_logs (payloads : List Payload) (channel : Channel) (stage : Stage) :
    let run := (sendAll payloads : StateT Channel Play _) channel stage
    ∃ events, run.2.history = stage.history ++ events ∧
      (HasNoLinks stage.scene.disk channel.root →
        Obeys (Spares channel.root) events →
        Logs channel.root channel.index run.1.2.index (answered payloads run.1.1)
          stage.scene.disk run.2.scene.disk) := by
  -- on the payloads: what others do during one exchange spares the log of the later ones
  induction payloads generalizing channel stage with
  | nil => exact ⟨[], (List.append_nil _).symm, fun _ _ => Logs.refl ..⟩
  | cons payload payloads ih =>
    obtain ⟨events, hhistory, hbecomes, exit, hexit⟩ := ends_send channel payload stage
    rw [sendAll_cons]
    rcases hfirst : (send payload : ChannelM Play Payload) channel stage with
      ⟨⟨result, next⟩, between⟩
    rw [hfirst] at hhistory hbecomes hexit
    obtain ⟨hroot, hlog⟩ := log_of_exit hexit
    obtain ⟨more, hmore, hrest⟩ := ih next between
    dsimp only at hhistory hbecomes hexit hroot hlog hmore hrest ⊢
    refine ⟨events ++ more, by rw [hmore, hhistory, List.append_assoc], fun hlinks hothers => ?_⟩
    obtain ⟨hlinks', hkeeps⟩ :=
      keepsOthers_of_exit hexit hbecomes hothers.of_append_left hlinks
    dsimp only at hlinks' hkeeps
    rw [hroot] at hrest
    have hlogs := hrest hlinks' hothers.of_append_right
    -- an exchange without a response adds nothing to the log, and its index is used again
    cases hisRead : isRead result with
    | false =>
      rw [hisRead, if_neg Bool.false_ne_true] at hlog
      subst hlog
      rw [answered, hisRead, if_neg Bool.false_ne_true]
      exact hlogs.skip hkeeps
    | true =>
      rw [hisRead, if_pos rfl] at hlog
      obtain ⟨hmoved, rest, document, hwrite, -, hposted⟩ := hlog
      rw [answered, hisRead, if_pos rfl]
      exact hlogs.cons hmoved hkeeps hwrite (hposted fun left reached hmem =>
        (hothers.of_append_left left reached hmem).requests channel.index _)

/-- Publishing a response spares the requests. -/
theorem spares_of_write {before after : Scene} {root : Path} {index : Index} {content : Bytes}
    (hlinks : HasNoLinks before.disk root)
    (h : before.disk.write (root.join (responseName index)) content = .ok after.disk) :
    Spares root before after := by
  obtain ⟨directory, hreplaces⟩ :=
    replaces_of_write hlinks (isExchangeName_responseName index) h
  exact ⟨hreplaces.hasNoLinks, fun other _ => hreplaces.read_of_ne hlinks
    (isExchangeName_requestName other) (requestName_ne_responseName other index)⟩

/-- Whatever comes of the exchanges and whatever others do that leaves the requests alone, the index
counts the responses that have been read, and the request of each of them still stands under its own
index. -/
theorem sendAll_keeps_log (channel : Channel) (payloads : List Payload) (scene : Scene)
    (future : List (List Scene)) (listing : Listing) (hlinks : HasNoLinks scene.disk channel.root)
    (hothers : Obeys (Spares channel.root) ((sendAll payloads : StateT Channel Play _)
      channel (.opening scene future listing)).2.history) :
    ∃ results next after,
      (sendAll payloads : StateT Channel Play _) channel (.opening scene future listing) =
          ((results, next), after) ∧
        next.index.value = channel.index.value + (answered payloads results).length ∧
        ∀ i payload, (answered payloads results)[i]? = some payload →
          ∃ index document, index.value = channel.index.value + i ∧
            Document.write payload = .ok document ∧
            after.scene.disk.read (channel.requestPath index) =
              .ok (Text.Utf8.encode document) := by
  obtain ⟨events, hhistory, hrun⟩ := exists_logs payloads channel (.opening scene future listing)
  rw [hhistory] at hothers
  have hlogs := hrun hlinks hothers
  exact ⟨_, _, _, rfl, hlogs.count, hlogs.log⟩

/-- The first payload has no document, and the second one is answered under the same index. -/
theorem sendAll_keeps_log_retry :
    let channel : Channel := ⟨⟨"."⟩, .zero, 100⟩
    let payloads : List Payload := [⟨[]⟩, .ofText (String.ofList ['x'])]
    let document := String.ofList (Document.render [['x']])
    let reply := String.ofList (Document.render [['y']])
    let future : List (List Scene) :=
      [[], [], [], [⟨published .empty [] .zero document reply, false⟩], []]
    ∃ results next after,
      (sendAll payloads : StateT Channel Play _) channel
          (.opening ⟨.empty, false⟩ future .plain) = ((results, next), after) ∧
        answered payloads results = [.ofText (String.ofList ['x'])] ∧ next.index.value = 1 ∧
        after.scene.disk.read (channel.requestPath .zero) = .ok (Text.Utf8.encode document) := by
  intro channel payloads document reply future
  have hwrite : Document.write (.ofText (String.ofList ['x'])) = .ok document :=
    Document.write_ofList (by decide) (by decide +kernel)
  have hread : Document.read (Text.Utf8.encode reply) = .ok (.ofText (String.ofList ['y'])) :=
    Document.read_ofList (by decide +kernel)
  have htakes : Takes .empty channel.root [] channel.index := takes_empty
  have hnext : channel.index.next? = some ⟨1, by decide⟩ := rfl
  have hinvalid : (send ⟨[]⟩ : ChannelM Play Payload) channel
      (.opening ⟨.empty, false⟩ future .plain) =
        ((.error (.failed (.ofPayloadFault .empty)), channel),
          .opening ⟨.empty, false⟩ future .plain) := rfl
  have hrun := sendAll_eq hinvalid
    (sendAll_eq (htakes.send hwrite hread hnext [] [] .plain) (sendAll_nil _ _))
  -- the only step of others is the response
  have hothers : Obeys (Spares channel.root) ((sendAll payloads : StateT Channel Play _) channel
      (.opening ⟨.empty, false⟩ future .plain)).2.history := by
    intro before after hmem
    rw [hrun] at hmem
    obtain ⟨rfl, rfl⟩ : before = ⟨posted .empty [] .zero document, false⟩ ∧
        after = ⟨published .empty [] .zero document reply, false⟩ := by
      simpa [posting] using hmem
    exact spares_of_write ((takes_empty.replaces document).hasNoLinks takes_empty.links)
      (takes_empty.publishes document reply)
  obtain ⟨results, next, after, hsame, hindex, hlog⟩ :=
    sendAll_keeps_log channel payloads ⟨.empty, false⟩ future .plain takes_empty.links hothers
  refine ⟨results, next, after, hsame, ?_⟩
  rw [hrun] at hsame
  cases hsame
  obtain ⟨index, posted, hvalue, hposted, hread⟩ := hlog 0 _ rfl
  obtain rfl : document = posted := Except.ok.inj (hwrite.symm.trans hposted)
  obtain ⟨value, hlt⟩ := index
  obtain rfl : value = 0 := hvalue
  exact ⟨rfl, hindex, hread⟩

end Channel

end ScriptMailbox

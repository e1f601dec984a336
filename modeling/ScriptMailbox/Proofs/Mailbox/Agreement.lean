import ScriptMailbox.Proofs.Mailbox.Sweeping

/-!
# The agreement of console and engine

Every operation of the console ends between two exchanges or in a wait. As long as the engine does
not overtake a reset, what holds there holds wherever console and engine may come: the engine reads
what was posted, what a send returns has been published in answer to its own payload, and nothing
that was published is returned twice. An engine that overtakes a reset may leave a response behind
that a later send takes for its own.
-/

namespace ScriptMailbox.Mailbox

open Disk

variable {root : Path} {disk : Disk} {directory : Location} {index : Index} {history : List Label}
  {scene reached : Scene} {channel : Channel}

/-! ## The other operations -/

/-- A jump to an index from which on nothing stands. -/
theorem IsResting.jumps {start : ℕ} (h : IsResting root start history scene)
    (hfree : IsFreeFrom root index scene.disk) : IsResting root index.value history scene := by
  refine h.imp_right fun hready => ⟨hready.told, hready.answered, ?_⟩
  intro directory hleads later hle
  rcases hready.told.sound.created with ⟨location, hfound⟩ | hnone
  · obtain rfl := hleads.eq_of_leads hfound
    obtain ⟨hrequest, hresponse⟩ := hfree directory hfound later hle
    rw [requestAt, responseAt, fileAt?, fileAt?, hrequest, hresponse]
    exact ⟨rfl, rfl⟩
  · exact hnone directory hleads later

/-- An empty mailbox is ready for index zero. -/
theorem isReady_of_isEmpty (h : IsEmpty root scene.disk) : IsReady root 0 [] scene := by
  -- in an empty mailbox there is neither a request nor a response
  have hnone (directory : Location) (hleads : scene.disk.MayLead root directory) (index : Index) :
      requestAt scene.disk directory index = none ∧
        responseAt scene.disk directory index = none := by
    rw [requestAt, responseAt, fileAt?, fileAt?,
      h directory hleads _ (isExchangeName_requestName index),
      h directory hleads _ (isExchangeName_responseName index)]
    exact ⟨rfl, rfl⟩
  refine ⟨⟨⟨fun directory hleads name hname target => ?_, .inr hnone,
    fun directory hleads index raw hraw => ?_⟩, fun past later left right heq => ?_,
    fun past later index payload answer heq => ?_⟩, fun directory hleads index _ hrequest => ?_,
    fun directory hleads index _ => hnone directory hleads index⟩
  · simp [h directory hleads name hname]
  · rw [(hnone directory hleads index).1] at hraw
    cases hraw
  · simp at heq
  · simp at heq
  · rw [(hnone directory hleads index).1] at hrequest
    cases hrequest

/-- Others step in. -/
theorem Invariant.step {console : Option Channel} (h : Invariant root console history scene)
    (hstep : IsStep root scene reached) :
    Invariant root console (history ++ [.event (.others scene reached)]) reached := by
  refine ⟨h.told.step hstep, fun channel hchannel => ?_⟩
  obtain ⟨hroot, hresting⟩ := h.resting channel hchannel
  exact ⟨hroot, (stable_isResting _).step hresting hstep⟩

/-! ## An exchange that comes to its end -/

/-- The engine answers a request that has just been posted. -/
theorem Takes.answers {payload answer : Payload} {document reply : String}
    (h : Takes disk root directory index) (cancelled : Bool)
    (hresponse : disk.at? (directory ++ [responseName index]) = none)
    (hwrite : Document.write payload = .ok document) (hreply : Document.write answer = .ok reply) :
    Answers root index payload answer ⟨posted disk directory index document, cancelled⟩
      ⟨published disk directory index document reply, cancelled⟩ where
  absent := by
    have hreplaces := h.replaces document
    refine kind?_eq_none (hreplaces.hasNoLinks h.links) (isExchangeName_responseName index)
      hreplaces.leads_after ?_
    rw [h.at?_posted, hresponse]
  reads := ⟨Text.Utf8.encode document, read_write (h.posts document), whole_of_write hwrite⟩
  publishes := ⟨reply, hreply, h.publishes document reply⟩
  cancelled := rfl

/-- Where console and engine may come, they may also come to the end of an exchange. -/
theorem Reachable.exchange {rule : List Event → Prop} {payload answer : Payload}
    {document reply : String} {next : Index}
    (h : Reachable channel.root rule (some channel) ⟨disk, false⟩ history)
    (htakes : Takes disk channel.root directory channel.index)
    (hresponse : disk.at? (directory ++ [responseName channel.index]) = none)
    (hwrite : Document.write payload = .ok document) (hreply : Document.write answer = .ok reply)
    (hnext : channel.index.next? = some next) :
    ∃ late, Reachable channel.root rule (some (channel.jump next))
        ⟨published disk directory channel.index document reply, false⟩ (history ++ late) ∧
      .returned channel.index payload answer ∈ late := by
  have hanswers := htakes.answers false hresponse hwrite hreply
  have hsend := htakes.send hwrite (whole_of_write hreply).2 hnext [] [] .plain
  refine ⟨_, h.send payload _ .plain hsend (fun left reached hmem => ?_) (by simp) (by simp), ?_⟩
  · obtain ⟨rfl, rfl⟩ : left = ⟨posted disk directory channel.index document, false⟩ ∧
        reached = ⟨published disk directory channel.index document reply, false⟩ := by
      simpa [Channel.posting] using hmem
    exact .inl ⟨_, _, _, hanswers⟩
  · simp [ending]

/-! ## The agreement -/

/-- Wherever console and engine may come without a reset being overtaken, the invariant holds. -/
theorem invariant_of_reachable {console : Option Channel}
    (h : Reachable root (NotOvertaken root) console scene history) :
    Invariant root console history scene := by
  -- on the way by which console and engine have come there
  induction h with
  | @start channel scene hroot hindex hempty =>
    refine IsResting.invariant (.inr ?_) hroot
    rw [hindex]
    exact isReady_of_isEmpty hempty
  | @send channel scene history _ payload future listing result next after hrun hothers hsucceeds
      hindex ih =>
    obtain ⟨rfl, hresting⟩ := ih.resting channel rfl
    obtain ⟨events, hhistory, hbecomes, exit, hexit⟩ :=
      Channel.ends_send channel payload (.opening scene future listing)
    rw [hrun] at hhistory hbecomes hexit
    have hevents : after.history = events := hhistory
    rw [hevents] at hothers ⊢
    exact invariant_of_exit hresting hbecomes hothers hexit hsucceeds hindex
  | @reset channel scene history _ future listing report next after hrun hothers hrule hsucceeds
      ih =>
    obtain ⟨rfl, hresting⟩ := ih.resting channel rfl
    exact invariant_of_reset hresting hrun hothers hrule hsucceeds.1 hsucceeds.2
  | @jump channel scene history _ index hfree ih =>
    obtain ⟨hroot, hresting⟩ := ih.resting channel rfl
    have hjumped : IsResting root (channel.jump index).index.value history scene :=
      hresting.jumps hfree
    exact hjumped.invariant hroot
  | others _ hstep ih => exact ih.step hstep

/-- A return comes between what is published before it and what is returned after it. -/
theorem IsAnswered.eq_nil_of_append {index' : Index} {payload answer payload' answer' : Payload}
    {past rest later more source : List Label}
    (h : IsAnswered root index payload answer past source)
    (h' : IsAnswered root index' payload' answer' (past ++ rest) source)
    (hrest : .returned index payload answer :: later = rest ++ more) : rest = [] := by
  obtain ⟨-, before, after, late, rfl, -, -⟩ := h
  obtain ⟨-, left, right, late', heq, -, hlate⟩ := h'
  -- otherwise the first return would stand between the publishing and the second one
  cases rest with
  | nil => rfl
  | cons first rest =>
    obtain ⟨rfl, -⟩ := List.cons_eq_cons.mp hrest
    rw [List.append_assoc, List.append_cancel_left_eq, List.cons_append] at heq
    have hmark := hlate (.returned index payload answer) (by
      rw [← (List.cons_eq_cons.mp heq).2]
      simp)
    cases hmark

/-- No published answer is returned twice, whatever the engine does. -/
theorem returnsOnce (root : Path) (history : List Label) : ReturnsOnce root history := by
  intro past later index payload answer past' later' index' payload' answer' source hhistory
    hhistory' h h'
  rcases List.append_eq_append_iff.mp (hhistory.symm.trans hhistory') with
    ⟨rest, rfl, hrest⟩ | ⟨rest, rfl, hrest⟩
  · rw [h.eq_nil_of_append h' hrest, List.append_nil]
  · rw [h'.eq_nil_of_append h hrest, List.append_nil]

/-- What a send returns without a step of others has not been published in answer to it. -/
theorem not_returnsAnswers_of_alone (root : Path) (index : Index) (history : List Label)
    (payload answer : Payload) (operations : List Operation) :
    ¬ReturnsAnswers root (history ++ .called index payload ::
      (operations.map (fun operation => .event (.own operation)) ++
        [.returned index payload answer])) := by
  intro h
  obtain ⟨source, -, before, after, late, heq, -, hlate⟩ :=
    h (history ++ .called index payload ::
      operations.map (fun operation => .event (.own operation))) [] index payload answer (by simp)
  -- the step of others comes after the call, where there is none, or the call comes after it
  rcases List.append_eq_append_iff.mp heq with ⟨between, rfl, hbetween⟩ | ⟨between, rfl, hbetween⟩
  · cases between with
    | nil => cases hbetween
    | cons first between =>
      obtain ⟨-, hmap⟩ := List.cons_eq_cons.mp hbetween
      have hmem : Label.event (.others before after) ∈
          operations.map fun operation => Label.event (.own operation) := by
        rw [hmap]
        simp
      simp at hmem
  · cases between with
    | nil => cases hbetween
    | cons first between =>
      obtain ⟨-, rfl⟩ := List.cons_eq_cons.mp hbetween
      have hmark := hlate (.called index payload) (by simp)
      cases hmark

/-- A response that is deleted before its request may be published anew in between, and is left
behind then. -/
theorem Takes.overtaken {payload answer : Payload} {document reply : String}
    (h : Takes disk root directory index) (hroot : root.fault? = none)
    (hwrite : Document.write payload = .ok document) (hreply : Document.write answer = .ok reply) :
    ∃ cut again last,
      (published disk directory index document reply).removeFile
        (root.join (responseName index)) = .ok cut ∧
      Answers root index payload answer ⟨cut, false⟩ ⟨again, false⟩ ∧
      again.removeFile (root.join (requestName index)) = .ok last ∧
      last.read (root.join (responseName index)) = .ok (Text.Utf8.encode reply) ∧
      Takes last root directory index := by
  have hrequest := isExchangeName_requestName index
  have hresponse := isExchangeName_responseName index
  have hne := requestName_ne_responseName index index
  -- the request is posted, and the response is published
  have hposted := h.of_replaces hroot (h.replaces document)
  have hpublish := h.publishes document reply
  have hreplaces := replaces_write hposted.links hresponse hposted.leads hpublish
  have hfull := hposted.of_replaces hroot hreplaces
  have hasked := hreplaces.read_of_ne hposted.links hrequest hne (read_write (h.posts document))
  -- the response is deleted, and published anew
  obtain ⟨cut, hcut, hdeletes⟩ :=
    exists_removeFile hfull.links hresponse (read_write hpublish) hfull.leads
  have hopen := hfull.of_replaces hroot hdeletes
  have hstill := hdeletes.read_of_ne hfull.links hrequest hne hasked
  have hanew : cut.write (root.join (responseName index)) (Text.Utf8.encode reply) =
      .ok (withFile cut directory (responseName index) reply) :=
    write_exchange hopen.links hresponse h.responseFit hopen.leads hopen.response
  have hrenews := replaces_write hopen.links hresponse hopen.leads hanew
  have hagain := hopen.of_replaces hroot hrenews
  -- the request is deleted
  obtain ⟨last, hlast, hends⟩ := exists_removeFile hagain.links hrequest
    (hrenews.read_of_ne hopen.links hrequest hne hstill) hagain.leads
  refine ⟨cut, _, last, hcut, ⟨?_, ⟨_, hstill, whole_of_write hwrite⟩, ⟨reply, hreply, hanew⟩, rfl⟩,
    hlast, hends.read_of_ne hagain.links hresponse hne.symm (read_write hanew),
    hagain.of_replaces hroot hends⟩
  exact kind?_eq_none hopen.links hresponse hopen.leads hdeletes.sets.at?_self

/-- Where the engine may overtake a reset, the answer to a payload that was sent before the reset
may be what a send after it returns. -/
theorem Reachable.returns_stale {payload answer later : Payload} {document reply other : String}
    {pollMs : Nat} {listing : Listing} {next : Index}
    (h : Reachable root (fun _ => True) (some ⟨root, .zero, pollMs⟩) ⟨disk, false⟩ history)
    (htakes : Takes disk root directory .zero) (hroot : root.fault? = none)
    (hnext : Index.next? .zero = some next)
    (hresponse : disk.at? (directory ++ [responseName .zero]) = none)
    (hlisted : listing.names root (published disk directory .zero document reply) =
      .ok [responseName .zero, requestName .zero])
    (hwrite : Document.write payload = .ok document) (hreply : Document.write answer = .ok reply)
    (hlater : Document.write later = .ok other) :
    ∃ scene reached, Reachable root (fun _ => True) (some ⟨root, next, pollMs⟩) scene reached ∧
      .returned .zero later answer ∈ reached ∧ ¬ReturnsAnswers root reached := by
  let channel : Channel := ⟨root, .zero, pollMs⟩
  have hstart : Reachable channel.root (fun _ => True) (some channel) ⟨disk, false⟩ history := h
  obtain ⟨late, hsent, -⟩ := hstart.exchange htakes hresponse hwrite hreply hnext
  obtain ⟨cut, again, last, hcut, hanswers, hlast, hleft, htakes'⟩ :=
    htakes.overtaken hroot hwrite hreply
  obtain ⟨past, hreset⟩ : ∃ past,
      Reachable root (fun _ => True) (some channel) ⟨last, false⟩ past := by
    have hnames : listing.names (channel.jump next).root (published disk directory .zero document
        reply) = .ok [responseName .zero, requestName .zero] := hlisted
    have hreset := reset_overtaken hnames (isExchangeName_responseName .zero)
      (isExchangeName_requestName .zero) hcut hlast
    refine ⟨_, hsent.reset _ listing hreset (fun left reached hmem => ?_) trivial
      ⟨rfl, fun hempty => ?_⟩⟩
    · obtain ⟨rfl, rfl⟩ : left = ⟨cut, false⟩ ∧ reached = ⟨again, false⟩ := by simpa using hmem
      exact .inl ⟨_, _, _, hanswers⟩
    · simp [Path.fault?, show root.text = "" from hempty] at hroot
  have hready : Takes last channel.root directory channel.index := htakes'
  have hagain := hready.send_there hleft hlater (whole_of_write hreply).2 hnext [] [] .plain
  refine ⟨_, _, hreset.send later _ .plain hagain
    (fun left reached hmem => by simp [Channel.posting] at hmem) (by simp) (by simp), ?_, ?_⟩
  · simp [ending, channel]
  · have halone := not_returnsAnswers_of_alone channel.root channel.index past later answer
      (channel.posting other ++ [.looked (channel.responsePath channel.index) (some .file),
        .opened (channel.responsePath channel.index) (.ok (Text.Utf8.encode reply))])
    simpa [ending, Function.comp_def] using halone

end ScriptMailbox.Mailbox

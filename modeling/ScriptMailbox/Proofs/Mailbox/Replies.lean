import ScriptMailbox.Proofs.Disk.Ways
import ScriptMailbox.Proofs.Document.RoundTrip
import ScriptMailbox.Proofs.Mailbox.Files
import ScriptMailbox.Proofs.Mailbox.Transcripts

/-!
# Replies that come at once

In a mailbox that is there and takes the files of an exchange, a payload that has a document gets
the reply that is published before the program looks for it, even if that has been published before
the payload is sent. Between two deletions of a reset others may act as well.
-/

namespace ScriptMailbox

/-! ## Four operations -/

namespace Channel

section

variable {channel : Channel} {payload answer : Payload} {document : String} {raw : Bytes}
  {disk made posted published : Disk} {index : Index} (history : List Event)
  (future : List (List Scene)) (listing : Listing)

/-- The request is posted while others do nothing. -/
theorem post_now (hwrite : Document.write payload = .ok document)
    (hmake : disk.makeDirectories channel.root = (.ok (), made))
    (hpost : made.write (channel.requestPath channel.index) (Text.Utf8.encode document) =
      .ok posted) :
    (post payload : ChannelM Play Unit) channel
        ⟨⟨disk, false⟩, history, [] :: [] :: [] :: future, listing⟩ =
      ((.ok (), channel),
        ⟨⟨posted, false⟩, history ++ (channel.posting document).map .own, future, listing⟩) := by
  let checked : Stage :=
    ⟨⟨disk, false⟩, history ++ [.own (.checked false)], [] :: [] :: future, listing⟩
  have hchecked : (Host.isCancelled : Play Bool)
      ⟨⟨disk, false⟩, history, [] :: [] :: [] :: future, listing⟩ = (false, checked) := rfl
  have hmade : (Host.makeDirectories channel.root : Play _) checked =
      (.ok (), ⟨⟨made, false⟩, checked.history ++ [.own (.made channel.root (.ok ()))],
        [] :: future, listing⟩) := by
    show Stage.perform (Scene.makeDirectories _) _ _ = _
    simp [Stage.perform, Stage.pass, Scene.makeDirectories, checked, hmake]
  have hwrote (past : List Event) :
      (Host.write (channel.requestPath channel.index) (Text.Utf8.encode document) : Play _)
          ⟨⟨made, false⟩, past, [] :: future, listing⟩ =
        (.ok (), ⟨⟨posted, false⟩, past ++ [.own (.wrote (channel.requestPath channel.index)
          (Text.Utf8.encode document) (.ok ()))], future, listing⟩) := by
    show Stage.perform (Scene.change _) _ _ = _
    simp [Stage.perform, Stage.pass, Scene.change, hpost]
  rw [post, bind_ok get_apply]
  dsimp only
  rw [hwrite, Except.mapError, bind_ok (ofExcept_apply _), lift_bind hchecked,
    if_neg Bool.false_ne_true, lift_bind hmade, orFailed_ok, bind_ok (ofExcept_apply _),
    lift_bind (hwrote _), orFailed_ok, ofExcept_apply]
  simp [checked, posting]

/-- A wait ends as soon as the response is seen. -/
theorem await_seen (kind : Kind) {stage looked : Stage}
    (hlook : Stage.look (channel.responsePath channel.index) stage = (some kind, looked)) :
    (await : ChannelM Play Unit) channel stage = ((.ok (), channel), looked) := by
  rw [await_apply, Stage.await, if_pos (by rw [hlook]; rfl), hlook, ofWait]

/-- The response is published just before it is looked for. -/
theorem await_now {kind : Kind}
    (hkind : published.kind? (channel.responsePath channel.index) = some kind) :
    (await : ChannelM Play Unit) channel
        ⟨⟨posted, false⟩, history, [⟨published, false⟩] :: future, listing⟩ =
      ((.ok (), channel),
        ⟨⟨published, false⟩, history ++ [.others ⟨posted, false⟩ ⟨published, false⟩,
          .own (.looked (channel.responsePath channel.index) (some kind))], future, listing⟩) :=
  await_seen kind (by simp [Stage.look, Stage.perform, Stage.pass, Stage.step, Scene.view, hkind])

/-- The response has been there before the wait. -/
theorem await_there {kind : Kind}
    (hkind : posted.kind? (channel.responsePath channel.index) = some kind) :
    (await : ChannelM Play Unit) channel
        ⟨⟨posted, false⟩, history, [] :: future, listing⟩ =
      ((.ok (), channel),
        ⟨⟨posted, false⟩, history ++
          [.own (.looked (channel.responsePath channel.index) (some kind))], future, listing⟩) :=
  await_seen kind (by simp [Stage.look, Stage.perform, Stage.pass, Scene.view, hkind])

/-- The response is read while others do nothing. -/
theorem collect_now (hraw : published.read (channel.responsePath channel.index) = .ok raw)
    (hread : Document.read raw = .ok answer) (hindex : channel.index.next? = some index) :
    (collect : ChannelM Play Payload) channel
        ⟨⟨published, false⟩, history, [] :: future, listing⟩ =
      ((.ok answer, channel.jump index),
        ⟨⟨published, false⟩, history ++
          [.own (.opened (channel.responsePath channel.index) (.ok raw))], future, listing⟩) := by
  have hopened : (Host.read (channel.responsePath channel.index) : Play _)
      ⟨⟨published, false⟩, history, [] :: future, listing⟩ =
        (.ok raw, ⟨⟨published, false⟩, history ++
          [.own (.opened (channel.responsePath channel.index) (.ok raw))], future, listing⟩) := by
    show Stage.perform (Scene.view _) _ _ = _
    simp [Stage.perform, Stage.pass, Scene.view, hraw]
  rw [collect, bind_ok get_apply, lift_bind hopened, orFailed_ok, bind_ok (ofExcept_apply _),
    hindex]
  refine (bind_ok rfl).trans ?_
  rw [payloadOf, hread]
  rfl

end

end Channel

/-! ## A mailbox that takes an exchange -/

namespace Mailbox

open Disk

variable {disk : Disk} {root : Path} {directory : Location} {index : Index}

/-- A mailbox that is there, without links, and takes the request and the response of an index. -/
structure Takes (disk : Disk) (root : Path) (directory : Location) (index : Index) : Prop where
  links : HasNoLinks disk root
  leads : disk.Leads root directory
  made : disk.makeDirectories root = (.ok (), disk)
  requestFit : IsFit root (requestName index)
  responseFit : IsFit root (responseName index)
  request : disk.at? (directory ++ [requestName index]) ≠ some .directory
  response : disk.at? (directory ++ [responseName index]) ≠ some .directory

/-- The disk with a document in a mailbox. -/
def withFile (disk : Disk) (directory : Location) (name document : String) : Disk :=
  disk.put (directory ++ [name]) (.file (Text.Utf8.encode document))

/-- The disk once a request is posted. -/
def posted (disk : Disk) (directory : Location) (index : Index) (document : String) : Disk :=
  withFile disk directory (requestName index) document

/-- The disk once its response is published as well. -/
def published (disk : Disk) (directory : Location) (index : Index) (document reply : String) :
    Disk :=
  withFile (posted disk directory index document) directory (responseName index) reply

/-- A mailbox goes on taking an exchange when its files change. -/
theorem Takes.of_replaces {name : String} {held : Option Bytes} {after : Disk}
    (h : Takes disk root directory index) (hroot : root.fault? = none)
    (hreplaces : Replaces disk root name held after directory) :
    Takes after root directory index := by
  have hkeeps {location : Location} (hentry : disk.at? location ≠ some .directory) :
      after.at? location ≠ some .directory := by
    rw [hreplaces.sets]
    split_ifs
    · cases held <;> simp
    · exact hentry
  exact ⟨hreplaces.hasNoLinks h.links, hreplaces.leads_after,
    makeDirectories_eq_of_leads hreplaces.leads_after hroot, h.requestFit, h.responseFit,
    hkeeps h.request, hkeeps h.response⟩

/-- A mailbox that takes an exchange takes its request. -/
theorem Takes.posts (h : Takes disk root directory index) (document : String) :
    disk.write (root.join (requestName index)) (Text.Utf8.encode document) =
      .ok (posted disk directory index document) :=
  write_exchange h.links (isExchangeName_requestName index) h.requestFit h.leads h.request

/-- Posting a request changes nothing but the request. -/
theorem Takes.replaces (h : Takes disk root directory index) (document : String) :
    Replaces disk root (requestName index) (some (Text.Utf8.encode document))
      (posted disk directory index document) directory :=
  replaces_write h.links (isExchangeName_requestName index) h.leads (h.posts document)

/-- A request leaves the place of its response alone. -/
theorem Takes.at?_posted (h : Takes disk root directory index) (document : String) :
    (posted disk directory index document).at? (directory ++ [responseName index]) =
      disk.at? (directory ++ [responseName index]) := by
  refine (h.replaces document).sets.at?_of_ne ?_
  simpa using (requestName_ne_responseName index index).symm

/-- A mailbox that has taken the request takes the response as well. -/
theorem Takes.publishes (h : Takes disk root directory index) (document reply : String) :
    (posted disk directory index document).write (root.join (responseName index))
        (Text.Utf8.encode reply) =
      .ok (published disk directory index document reply) := by
  have hreplaces := h.replaces document
  refine write_exchange (hreplaces.hasNoLinks h.links) (isExchangeName_responseName index)
    h.responseFit hreplaces.leads_after ?_
  rw [h.at?_posted]
  exact h.response

/-- What stands in a mailbox that takes an exchange may be sent and answered. -/
theorem Takes.send {channel : Channel} {payload answer : Payload} {document reply : String}
    {next : Index} (h : Takes disk channel.root directory channel.index)
    (hwrite : Document.write payload = .ok document)
    (hread : Document.read (Text.Utf8.encode reply) = .ok answer)
    (hnext : channel.index.next? = some next) (history : List Event)
    (future : List (List Scene)) (listing : Listing) :
    let request := posted disk directory channel.index document
    let response := published disk directory channel.index document reply
    (Channel.send payload : ChannelM Play Payload) channel
        ⟨⟨disk, false⟩, history, [] :: [] :: [] :: [⟨response, false⟩] :: [] :: future, listing⟩ =
      ((.ok answer, channel.jump next),
        ⟨⟨response, false⟩, history ++ (channel.posting document).map .own ++
          [.others ⟨request, false⟩ ⟨response, false⟩,
            .own (.looked (channel.responsePath channel.index) (some .file))] ++
          [.own (.opened (channel.responsePath channel.index) (.ok (Text.Utf8.encode reply)))],
          future, listing⟩) := by
  intro request response
  have hpublish := h.publishes document reply
  rw [Channel.send, bind_ok (Channel.post_now history _ listing hwrite h.made
      (h.posts document)),
    bind_ok (Channel.await_now _ _ listing (kind?_write hpublish))]
  exact Channel.collect_now _ _ listing (read_write hpublish) hread hnext

/-- What stands at the place of the response already is what a send returns. -/
theorem Takes.send_there {channel : Channel} {payload answer : Payload} {document : String}
    {raw : Bytes} {next : Index} (h : Takes disk channel.root directory channel.index)
    (hthere : disk.read (channel.responsePath channel.index) = .ok raw)
    (hwrite : Document.write payload = .ok document) (hread : Document.read raw = .ok answer)
    (hnext : channel.index.next? = some next) (history : List Event)
    (future : List (List Scene)) (listing : Listing) :
    let request := posted disk directory channel.index document
    (Channel.send payload : ChannelM Play Payload) channel
        ⟨⟨disk, false⟩, history, [] :: [] :: [] :: [] :: [] :: future, listing⟩ =
      ((.ok answer, channel.jump next),
        ⟨⟨request, false⟩, history ++ (channel.posting document).map .own ++
          [.own (.looked (channel.responsePath channel.index) (some .file))] ++
          [.own (.opened (channel.responsePath channel.index) (.ok raw))], future, listing⟩) := by
  intro request
  have hresponse : request.read (channel.responsePath channel.index) = .ok raw :=
    (h.replaces document).read_of_ne h.links (isExchangeName_responseName channel.index)
      (requestName_ne_responseName _ _).symm hthere
  rw [Channel.send, bind_ok (Channel.post_now history _ listing hwrite h.made
      (h.posts document)),
    bind_ok (Channel.await_there _ _ listing (kind?_of_read hresponse))]
  exact Channel.collect_now _ _ listing hresponse hread hnext

/-- A reset deletes nothing where no file has the name of an exchange file. -/
theorem reset_now {channel : Channel} {disk : Disk} {entries : List (String × Entry)}
    (cancelled : Bool) (listing : Listing) (hlist : disk.list channel.root = .ok entries)
    (hnames : ∀ name ∈ Model.regularNames entries, isExchangeName name = false) :
    (Channel.reset channel : Play _) (.opening ⟨disk, cancelled⟩ [] listing) =
      ((.nothing, channel.jump .zero), ⟨⟨disk, cancelled⟩,
        [.own (.listed channel.root (.ok (listing.order (Model.regularNames entries))))], [],
        listing⟩) := by
  have hnothing : (listing.order (Model.regularNames entries)).filter isExchangeName = [] := by
    rw [List.filter_eq_nil_iff]
    intro name hmem
    rw [hnames name ((listing.perm _).mem_iff.mp hmem)]
    exact Bool.false_ne_true
  have hlisted : (Host.fileNames channel.root : Play _) (.opening ⟨disk, cancelled⟩ [] listing) =
      (.ok (listing.order (Model.regularNames entries)), ⟨⟨disk, cancelled⟩,
        [.own (.listed channel.root (.ok (listing.order (Model.regularNames entries))))], [],
        listing⟩) := by
    show Stage.perform (Scene.view (listing.names _)) _ _ = _
    simp [Stage.perform, Stage.pass, Stage.opening, Scene.view, Listing.names, hlist, Except.map]
  have hswept : (sweep channel.root : Play SweepReport) (.opening ⟨disk, cancelled⟩ [] listing) =
      (.nothing, ⟨⟨disk, cancelled⟩,
        [.own (.listed channel.root (.ok (listing.order (Model.regularNames entries))))], [],
        listing⟩) := by
    rw [sweep, host_bind hlisted]
    dsimp only
    rw [hnothing]
    rfl
  rw [Channel.reset, host_bind hswept]
  rfl

/-- Others act in a reset that deletes two files, between the two deletions. -/
theorem reset_overtaken {channel : Channel} {full cut again last : Disk} {first second : String}
    {listing : Listing} (hlisted : listing.names channel.root full = .ok [first, second])
    (hfirst : isExchangeName first = true) (hsecond : isExchangeName second = true)
    (hcut : full.removeFile (channel.root.join first) = .ok cut)
    (hlast : again.removeFile (channel.root.join second) = .ok last) :
    (Channel.reset channel : Play _)
        (.opening ⟨full, false⟩ [[], [], [⟨again, false⟩]] listing) =
      ((⟨[channel.root.join first, channel.root.join second], []⟩, channel.jump .zero),
        ⟨⟨last, false⟩, [.own (.listed channel.root (.ok [first, second])),
          .own (.removed (channel.root.join first) (.ok ())), .others ⟨cut, false⟩ ⟨again, false⟩,
          .own (.removed (channel.root.join second) (.ok ()))], [], listing⟩) := by
  -- the stage after the listing, and after the first deletion
  let names : Stage := ⟨⟨full, false⟩, [.own (.listed channel.root (.ok [first, second]))],
    [[], [⟨again, false⟩]], listing⟩
  let removed : Stage := ⟨⟨cut, false⟩,
    names.history ++ [.own (.removed (channel.root.join first) (.ok ()))], [[⟨again, false⟩]],
    listing⟩
  have hnames : (Host.fileNames channel.root : Play _)
      (.opening ⟨full, false⟩ [[], [], [⟨again, false⟩]] listing) =
        (.ok [first, second], names) := by
    show Stage.perform (Scene.view (listing.names _)) _ _ = _
    simp [Stage.perform, Stage.pass, Stage.opening, Scene.view, hlisted, names]
  have hremoved : (Host.removeFile (channel.root.join first) : Play _) names =
      (.ok (), removed) := by
    show Stage.perform (Scene.change _) _ _ = _
    simp [Stage.perform, Stage.pass, Scene.change, hcut, names, removed]
  have hover : (Host.removeFile (channel.root.join second) : Play _) removed =
      (.ok (), ⟨⟨last, false⟩, removed.history ++ [.others ⟨cut, false⟩ ⟨again, false⟩,
        .own (.removed (channel.root.join second) (.ok ()))], [], listing⟩) := by
    show Stage.perform (Scene.change _) _ _ = _
    simp [Stage.perform, Stage.pass, Stage.step, Scene.change, hlast, removed]
  have hfiltered : [first, second].filter isExchangeName = [first, second] := by
    simp [hfirst, hsecond]
  have hswept : (sweep channel.root : Play SweepReport)
      (.opening ⟨full, false⟩ [[], [], [⟨again, false⟩]] listing) =
        (⟨[channel.root.join first, channel.root.join second], []⟩,
          ⟨⟨last, false⟩, removed.history ++ [.others ⟨cut, false⟩ ⟨again, false⟩,
            .own (.removed (channel.root.join second) (.ok ()))], [], listing⟩) := by
    rw [sweep, host_bind hnames]
    dsimp only
    rw [hfiltered, removeAll, host_bind hremoved, removeAll]
    rw [bind_assoc, host_bind hover]
    rfl
  rw [Channel.reset, host_bind hswept]
  rfl

/-! ## The working directory as a mailbox -/

/-- On the empty disk the current directory is there. -/
theorem leads_empty : Disk.empty.Leads ⟨"."⟩ [] :=
  ⟨by rfl, by rfl⟩

/-- It has no exchange files. -/
theorem at?_empty {name : String} (hname : isExchangeName name = true)
    (hleads : Disk.empty.MayLead ⟨"."⟩ directory) :
    Disk.empty.at? (directory ++ [name]) = none := by
  obtain rfl := hleads.eq_of_leads leads_empty
  have hne : outerName ≠ name := (isEntryName_of_isExchangeName hname).ne_parent.symm
  rw [List.nil_append, Disk.at?, Forest.at?_singleton, Disk.empty, Forest.find?, if_neg hne,
    Forest.find?, Option.map_none]

/-- It has no files at all. -/
theorem list_empty : Disk.empty.list ⟨"."⟩ = .ok [] :=
  list_eq_ok_iff.mpr ⟨by decide +kernel, [], leads_empty, by decide +kernel⟩

/-- The working directory takes an exchange when nothing is in it. -/
theorem takes_empty : Takes .empty ⟨"."⟩ [] .zero where
  links directory hleads name hname target := by simp [at?_empty hname hleads]
  leads := leads_empty
  made := by rfl
  requestFit := by constructor <;> decide +kernel
  responseFit := by constructor <;> decide +kernel
  request := by
    rw [at?_empty (isExchangeName_requestName _) leads_empty.mayLead]
    exact (Option.some_ne_none _).symm
  response := by
    rw [at?_empty (isExchangeName_responseName _) leads_empty.mayLead]
    exact (Option.some_ne_none _).symm

end Mailbox

end ScriptMailbox

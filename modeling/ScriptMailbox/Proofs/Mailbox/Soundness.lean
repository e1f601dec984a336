import ScriptMailbox.Proofs.Mailbox.Dialogue
import ScriptMailbox.Proofs.Mailbox.Replies

/-!
# Sound mailboxes

Every request that stands in a mailbox is the document of the payload that was posted (`Sound`). So
the engine reads what was posted, and it has something to do only where a request has no response
(`Answered`).
-/

namespace ScriptMailbox.Mailbox

open Disk

variable {root : Path} {before after disk : Disk} {directory : Location} {name : String}
  {index : Index} {ledger : Ledger} {held : Option Bytes}

/-- The request of an index in the mailbox at a location. -/
def requestAt (disk : Disk) (directory : Location) (index : Index) : Option Bytes :=
  disk.fileAt? (directory ++ [requestName index])

/-- The response of an index in the mailbox at a location. -/
def responseAt (disk : Disk) (directory : Location) (index : Index) : Option Bytes :=
  disk.fileAt? (directory ++ [responseName index])

/-! ## What a disk is like -/

/-- What is always so: no exchange file is a link, nothing stands in a mailbox that is not there
yet, and every request is the document of the payload that was posted. -/
structure Sound (root : Path) (ledger : Ledger) (disk : Disk) : Prop where
  links : HasNoLinks disk root
  created : (∃ directory, disk.Leads root directory) ∨
    ∀ directory, disk.MayLead root directory → ∀ index,
      requestAt disk directory index = none ∧ responseAt disk directory index = none
  posted : ∀ directory, disk.MayLead root directory → ∀ index raw,
    requestAt disk directory index = some raw →
      ∃ payload document, ledger.posted index = some payload ∧
        Document.write payload = .ok document ∧ raw = Text.Utf8.encode document

/-- Whether every request has a response, but for a pending one. -/
def Answered (root : Path) (pending : Option Index) (disk : Disk) : Prop :=
  ∀ directory, disk.MayLead root directory → ∀ index, some index ≠ pending →
    (requestAt disk directory index).isSome → (responseAt disk directory index).isSome

/-- Whether no file stands at some index or behind it. -/
def FreeFrom (root : Path) (start : ℕ) (disk : Disk) : Prop :=
  ∀ directory, disk.MayLead root directory → ∀ index : Index, start ≤ index.value →
    requestAt disk directory index = none ∧ responseAt disk directory index = none

/-! ## Creating directories -/

/-- A mailbox stays sound when directories are created. -/
theorem Sound.of_gains (h : Sound root ledger before) (hgains : before.Gains after) :
    Sound root ledger after where
  links := h.links.of_gains hgains
  created := by
    rcases h.created with ⟨directory, hleads⟩ | hnone
    · exact .inl ⟨directory, hleads.of_keepsWays hgains.keepsWays⟩
    · right
      intro directory hleads index
      rw [requestAt, responseAt, hgains.fileAt?_eq, hgains.fileAt?_eq]
      exact hnone directory (hleads.of_gains hgains) index
  posted directory hleads index raw hraw := by
    rw [requestAt, hgains.fileAt?_eq] at hraw
    exact h.posted directory (hleads.of_gains hgains) index raw hraw

/-- Requests stay answered when directories are created. -/
theorem Answered.of_gains {pending : Option Index} (h : Answered root pending before)
    (hgains : before.Gains after) : Answered root pending after := by
  intro directory hleads index hne
  rw [requestAt, responseAt, hgains.fileAt?_eq, hgains.fileAt?_eq]
  exact h directory (hleads.of_gains hgains) index hne

/-- Free indices stay free when directories are created. -/
theorem FreeFrom.of_gains {start : ℕ} (h : FreeFrom root start before)
    (hgains : before.Gains after) : FreeFrom root start after := by
  intro directory hleads index hle
  rw [requestAt, responseAt, hgains.fileAt?_eq, hgains.fileAt?_eq]
  exact h directory (hleads.of_gains hgains) index hle

/-! ## Replacing a file -/

section

variable (h : Replaces before root name held after directory)
include h

/-- Replacing a file replaces at most one request, the one of that name. -/
theorem Replaces.requestAt_eq (index : Index) :
    requestAt after directory index =
      if requestName index = name then held else requestAt before directory index := by
  rw [requestAt, h.fileAt?_eq]
  simp [requestAt]

/-- It replaces at most one response. -/
theorem Replaces.responseAt_eq (index : Index) :
    responseAt after directory index =
      if responseName index = name then held else responseAt before directory index := by
  rw [responseAt, h.fileAt?_eq]
  simp [responseAt]

/-- The mailbox is there, so its path may lead nowhere else. -/
theorem Replaces.eq_of_mayLead {location : Location} (hleads : after.MayLead root location) :
    location = directory :=
  hleads.eq_of_leads h.leads_after

/-- A request that has been written is that of the payload which is noted for it. -/
theorem Replaces.sound (hsound : Sound root ledger before) {ledger' : Ledger}
    (hledger : ∀ index, requestName index ≠ name → ledger'.posted index = ledger.posted index)
    (hposted : ∀ index raw, requestName index = name → held = some raw →
      ∃ payload document, ledger'.posted index = some payload ∧
        Document.write payload = .ok document ∧ raw = Text.Utf8.encode document) :
    Sound root ledger' after where
  links := h.hasNoLinks hsound.links
  created := .inl ⟨directory, h.leads_after⟩
  posted location hleads index raw hraw := by
    obtain rfl := h.eq_of_mayLead hleads
    rw [h.requestAt_eq] at hraw
    split_ifs at hraw with hname
    · exact hposted index raw hname hraw
    · rw [hledger index hname]
      exact hsound.posted location h.leads.mayLead index raw hraw

end

/-! ## Steps of the engine -/

/-- The engine takes the document of a payload for whole, and reads that payload. -/
theorem whole_of_write {payload : Payload} {document : String}
    (hwrite : Document.write payload = .ok document) :
    Text.Utf8.encode Document.footer <:+ Text.Utf8.encode document ∧
      Document.read (Text.Utf8.encode document) = .ok payload := by
  obtain ⟨text, pieces, rfl, -, hpieces, rfl⟩ := Document.write_eq_ok_iff.mp hwrite
  have hread := Document.read_ofList hpieces
  rw [String.ofList_toList] at hread
  exact ⟨Document.footer_suffix_render pieces, hread⟩

/-- The document of a payload is read as no other payload. -/
theorem eq_of_read {payload asked : Payload} {document : String}
    (hwrite : Document.write payload = .ok document)
    (hread : Document.read (Text.Utf8.encode document) = .ok asked) : asked = payload :=
  Except.ok.inj (hread.symm.trans (whole_of_write hwrite).2)

/-- The engine reads what has been posted, and publishes its reply where nothing was. -/
theorem Answers.cases {asked reply : Payload} {before after : Scene}
    (h : Answers root index asked reply before after) (hsound : Sound root ledger before.disk) :
    ledger.posted index = some asked ∧
      ∃ directory document, Document.write reply = .ok document ∧
        Replaces before.disk root (responseName index) (some (Text.Utf8.encode document))
          after.disk directory ∧
        responseAt before.disk directory index = none ∧
        (requestAt before.disk directory index).isSome := by
  obtain ⟨raw, hread, -, hasked⟩ := h.reads
  obtain ⟨document, hwrite, hpublish⟩ := h.publishes
  have hname := isExchangeName_responseName index
  obtain ⟨directory, hreplaces⟩ := replaces_of_write hsound.links hname hpublish
  obtain ⟨-, location, hleads, hrequest⟩ :=
    (read_eq_ok_iff hsound.links (isExchangeName_requestName index)).mp hread
  obtain rfl := hleads.unique hreplaces.leads
  obtain ⟨payload, posted, hposted, hdocument, rfl⟩ :=
    hsound.posted location hleads.mayLead index raw hrequest
  obtain rfl := eq_of_read hdocument hasked
  have hnone := at?_eq_none_of_kind? hsound.links hname
    (isFit_of_write hsound.links hname hpublish) hleads h.absent
  refine ⟨hposted, location, document, hwrite, hreplaces, ?_, Option.isSome_of_eq_some hrequest⟩
  rw [responseAt, fileAt?, hnone]

/-- An answer writes a response alone, so requests stay what was posted. -/
theorem Answers.sound {asked reply : Payload} {before after : Scene}
    (h : Answers root index asked reply before after) (hsound : Sound root ledger before.disk) :
    Sound root ledger after.disk := by
  obtain ⟨-, directory, document, -, hreplaces, -⟩ := h.cases hsound
  refine hreplaces.sound hsound (fun _ _ => rfl) fun other raw hname => ?_
  exact absurd hname (requestName_ne_responseName other index)

/-- The engine answers but the pending request. -/
theorem Answers.pending {asked reply : Payload} {before after : Scene} {pending : Option Index}
    (h : Answers root index asked reply before after) (hsound : Sound root ledger before.disk)
    (hanswered : Answered root pending before.disk) : pending = some index := by
  obtain ⟨-, directory, document, -, hreplaces, hnone, hrequest⟩ := h.cases hsound
  by_contra hne
  have := hanswered directory hreplaces.leads.mayLead index (Ne.symm hne) hrequest
  rw [hnone] at this
  cases this

end ScriptMailbox.Mailbox

import ScriptMailbox.Mailbox.Channel
import ScriptMailbox.Proofs.Disk.Branches
import ScriptMailbox.Proofs.Mailbox.Names

/-!
# Paths of requests and responses

Whatever the root of a mailbox is, the path of a request or a response ends with its name, and a
sweep takes that name for the name of an exchange file. So no two files of exchanges have the same
path, even where paths are compared by their components (`agrees_on_names`).
-/

namespace ScriptMailbox

namespace Path

variable {name other : String}

/-- The file name of a path is the name that has been joined to it. -/
theorem fileName?_join (path : Path) (hname : IsEntryName name) :
    (path.join name).fileName? = some name := by
  have hcomponents : ∃ before, (path.join name).components = before ++ [.normal name] := by
    by_cases hpath : path.text = ""
    · have hjoin : path.join name = ⟨name⟩ := by
        rw [join, not_isAbsolute_entry hname, if_neg Bool.false_ne_true, if_pos (.inl hpath), hpath,
          String.empty_append]
      rw [hjoin, components, filterMap_parts hname, not_isAbsolute_entry hname,
        if_neg Bool.false_ne_true]
      split_ifs
      · exact ⟨[.current], rfl⟩
      · exact ⟨[], rfl⟩
    · exact ⟨path.components, components_join hname hpath⟩
  obtain ⟨before, hbefore⟩ := hcomponents
  rw [fileName?, hbefore, List.getLast?_concat]

/-- Paths of entries of one directory have the same components only if the names are the same. -/
theorem components_join_iff (path : Path) (hname : IsEntryName name) (hother : IsEntryName other) :
    (path.join name).components = (path.join other).components ↔ name = other := by
  constructor
  · intro h
    have hfile : (path.join name).fileName? = (path.join other).fileName? := by
      rw [fileName?, fileName?, h]
    rw [fileName?_join path hname, fileName?_join path hother] at hfile
    exact Option.some.inj hfile
  · rintro rfl
    rfl

end Path

namespace Mailbox

/-- A response has a name that a directory can hold. -/
theorem isEntryName_responseName (index : Index) : IsEntryName (responseName index) :=
  isEntryName_of_isExchangeName (isExchangeName_responseName index)

/-- A name belongs to an exchange exactly if it is `in` or `out`, one or more decimal digits, and
the extension. -/
theorem isExchangeName_eq_true_iff {name : String} :
    isExchangeName name = true ↔
      ∃ start digits, (start = "in" ∨ start = "out") ∧ digits ≠ [] ∧
        (∀ c ∈ digits, '0' ≤ c ∧ c ≤ '9') ∧ name = start ++ String.ofList digits ++ ".txt" := by
  have hdigit (c : Char) : c.isDigit = true ↔ '0' ≤ c ∧ c ≤ '9' := by
    rw [Char.isDigit, Bool.and_eq_true, decide_eq_true_iff, decide_eq_true_iff]
    rfl
  have htext (start : String) (digits : List Char) :
      name.toList = start.toList ++ (digits ++ ".txt".toList) ↔
        name = start ++ String.ofList digits ++ ".txt" := by
    rw [← String.toList_inj]
    simp
  simp only [isExchangeName_iff, hdigit, htext]
  constructor
  · rintro ⟨start, digits, hstart, hname, hne, hdigits⟩
    exact ⟨start, digits, hstart.symm, hne, hdigits, hname⟩
  · rintro ⟨start, digits, hstart, hne, hdigits, hname⟩
    exact ⟨start, digits, hstart.symm, hname, hne, hdigits⟩

end Mailbox

namespace Channel

open Mailbox

variable (channel : Channel) (index other : Index)

/-- The path of a request ends with its name. -/
theorem fileName?_requestPath :
    (channel.requestPath index).fileName? = some (requestName index) :=
  channel.root.fileName?_join (isEntryName_requestName index)

/-- The path of a response ends with its name. -/
theorem fileName?_responsePath :
    (channel.responsePath index).fileName? = some (responseName index) :=
  channel.root.fileName?_join (isEntryName_responseName index)

/-- Requests have the same path only at the same index. -/
theorem requestPath_components_iff :
    (channel.requestPath index).components = (channel.requestPath other).components ↔
      index = other :=
  (Path.components_join_iff channel.root (isEntryName_requestName index)
    (isEntryName_requestName other)).trans requestName_injective.eq_iff

/-- So do responses. -/
theorem responsePath_components_iff :
    (channel.responsePath index).components = (channel.responsePath other).components ↔
      index = other :=
  (Path.components_join_iff channel.root (isEntryName_responseName index)
    (isEntryName_responseName other)).trans responseName_injective.eq_iff

/-- A request never has the path of a response. -/
theorem requestPath_components_ne :
    (channel.requestPath index).components ≠ (channel.responsePath other).components :=
  (Path.components_join_iff channel.root (isEntryName_requestName index)
    (isEntryName_responseName other)).not.mpr (requestName_ne_responseName index other)

/-- A channel and a sweep of its mailbox agree on names. The paths of requests and responses end
with names of exchange files; compared by their components, two of them are the same only if they
are both of requests or both of responses, with the same index; and the names of exchange files are
exactly those with a start, decimal digits and the extension. -/
theorem agrees_on_names (channel : Channel) :
    (∀ index, ∃ request response,
      (channel.requestPath index).fileName? = some request ∧ isExchangeName request = true ∧
        (channel.responsePath index).fileName? = some response ∧
          isExchangeName response = true) ∧
    (∀ a b, (channel.requestPath a).components = (channel.requestPath b).components ↔ a = b) ∧
    (∀ a b, (channel.responsePath a).components = (channel.responsePath b).components ↔ a = b) ∧
    (∀ a b, (channel.requestPath a).components ≠ (channel.responsePath b).components) ∧
    ∀ name, isExchangeName name = true ↔
      ∃ start digits, (start = "in" ∨ start = "out") ∧ digits ≠ [] ∧
        (∀ c ∈ digits, '0' ≤ c ∧ c ≤ '9') ∧ name = start ++ String.ofList digits ++ ".txt" :=
  ⟨fun index => ⟨requestName index, responseName index, channel.fileName?_requestPath index,
      isExchangeName_requestName index, channel.fileName?_responsePath index,
      isExchangeName_responseName index⟩,
    channel.requestPath_components_iff, channel.responsePath_components_iff,
    channel.requestPath_components_ne, fun _ => isExchangeName_eq_true_iff⟩

end Channel

end ScriptMailbox

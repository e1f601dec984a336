import ScriptMailbox.Proofs.Program.Restarting
import ScriptMailbox.Proofs.Report.Lines
import ScriptMailbox.Proofs.Source.Transactions

/-!
# Reading the report of a place

A script that looks at the lines of a report takes what follows a key in the first line that starts
with it. The report of a located or patched function shows the path as it is, so it is read back
exactly where the path has no line feed (`place_reports_read`). A line feed in the path makes two
lines of one, and the second may pass for another field (`locate_reads_forged`).
-/

namespace ScriptMailbox

open Text.Json

namespace Report

/-! ## Taking values by their keys -/

/-- What follows a key in the first line that starts with it. -/
def valueOf? (report key : String) : Option (List Char) :=
  (report.toList.splitOn '\n').findSome? (Text.dropStart? (key.toList ++ [':']))

/-- Between line feeds there is none. -/
theorem not_mem_of_mem_splitOn {text part : List Char} (h : part ∈ text.splitOn '\n') :
    '\n' ∉ part := by
  induction text generalizing part with
  | nil =>
    rw [List.splitOn_nil, List.mem_singleton] at h
    rw [h]
    exact List.not_mem_nil
  | cons c text ih =>
    rw [List.splitOn_cons_eq_if_modifyHead] at h
    split_ifs at h with hc
    · rcases List.mem_cons.mp h with rfl | h
      · exact List.not_mem_nil
      · exact ih h
    · rw [beq_iff_eq] at hc
      rcases hsplit : text.splitOn '\n' with _ | ⟨first, others⟩
      · exact absurd hsplit (List.splitOn_ne_nil _ _)
      · rw [hsplit] at h ih
        rcases List.mem_cons.mp h with rfl | h
        · exact List.not_mem_cons_of_ne_of_not_mem (Ne.symm hc) (ih List.mem_cons_self)
        · exact ih (List.mem_cons_of_mem first h)

/-- What is taken from a line has no line feed. -/
theorem not_mem_of_valueOf? {report key : String} {value : List Char}
    (h : valueOf? report key = some value) : '\n' ∉ value := by
  obtain ⟨part, hpart, hdrop⟩ := List.exists_of_findSome?_eq_some h
  rw [Text.dropStart?_eq_some_iff] at hdrop
  subst hdrop
  exact fun hmem => not_mem_of_mem_splitOn hpart (List.mem_append_right _ hmem)

/-- The line with a key and a value. -/
def lineOf (field : String × List Char) : List Char :=
  keyed field.1 field.2

/-- The part in front of the first colon tells lines apart. -/
theorem dropStart?_lineOf {key : String} {field : String × List Char} (hkey : ':' ∉ key.toList)
    (hfield : ':' ∉ field.1.toList) :
    Text.dropStart? (key.toList ++ [':']) (lineOf field) =
      if key = field.1 then some field.2 else none := by
  split_ifs with heq
  · subst heq
    rw [Text.dropStart?_eq_some_iff, lineOf, keyed, List.append_assoc, List.singleton_append]
  · rw [Option.eq_none_iff_forall_ne_some]
    intro rest hrest
    rw [Text.dropStart?_eq_some_iff, lineOf, List.append_assoc, List.singleton_append, ← keyed]
      at hrest
    have hsame := congrArg (List.takeWhile (· != ':')) hrest
    rw [takeWhile_keyed hfield, takeWhile_keyed hkey] at hsame
    exact heq (String.toList_inj.mp hsame.symm)

section

variable {report : String} {fields : List (String × List Char)}
  (hreport : report.toList = fields.flatMap fun field => lineOf field ++ ['\n'])
  (hfeeds : ∀ field ∈ fields, '\n' ∉ lineOf field)

include hreport hfeeds

/-- A report is split at its line feeds into the lines of its fields. -/
theorem splitOn_report : report.toList.splitOn '\n' = fields.map lineOf ++ [[]] := by
  have hlines : report.toList = (fields.map lineOf).flatMap (· ++ ['\n']) := by
    rw [hreport, List.flatMap_map]
  rw [hlines, splitOn_lines]
  intro line hmem
  obtain ⟨field, hfield, rfl⟩ := List.mem_map.mp hmem
  exact hfeeds field hfield

/-- What is taken is the value of the first field with the key. -/
theorem valueOf?_eq_lookup (hkeys : ∀ field ∈ fields, ':' ∉ field.1.toList) {key : String}
    (hkey : ':' ∉ key.toList) : valueOf? report key = fields.lookup key := by
  rw [valueOf?, splitOn_report hreport hfeeds]
  clear hreport hfeeds
  induction fields with
  | nil => cases key.toList <;> rfl
  | cons field fields ih =>
    obtain ⟨hfield, hfields⟩ := List.forall_mem_cons.mp hkeys
    rw [List.map_cons, List.cons_append, List.findSome?_cons, dropStart?_lineOf hkey hfield,
      List.lookup_cons]
    by_cases heq : key = field.1
    · rw [if_pos heq, heq, beq_self_eq_true]
    · rw [if_neg heq, beq_false_of_ne heq]
      exact ih hfields

end

/-! ## Places -/

/-- The keys in the report of a place. -/
def placeKeys : List String :=
  ["RESULT", "FILE", "START", "END"]

/-- Whether a report has one line for each of some keys and nothing else, and a place is read back
from them. -/
structure ReadsBack (report : String) (keys : List String) (path : Path) (span : Span) : Prop where
  lines_eq : ∃ fields : List (String × List Char),
    report.toList.splitOn '\n' = fields.map lineOf ++ [[]] ∧ fields.map Prod.fst = keys
  result_eq : valueOf? report "RESULT" = some "OK".toList
  path_eq : valueOf? report "FILE" = some path.text.toList
  start_eq : (valueOf? report "START").bind scalar? = some (.number span.start)
  stop_eq : (valueOf? report "END").bind scalar? = some (.number span.stop)

/-- What is read back of a span. -/
def spanMembers (span : Span) : List (String × Scalar) :=
  [("start", .number span.start), ("end", .number span.stop), ("text", .text span.text)]

/-- What is written in the report of a place. -/
def placeFields (path : Path) (span : Span) : List (String × List Char) :=
  [("RESULT", "OK".toList), ("FILE", path.text.toList), ("START", (toString span.start).toList),
    ("END", (toString span.stop).toList)]

variable {report : String} {keys : List String} {path : Path} {span : Span}
  {more : List (String × List Char)}

/-- The report of a place, written out. -/
theorem toList_placed : (placed path span).toList =
    (placeFields path span).flatMap fun field => lineOf field ++ ['\n'] := by
  simp only [placed, placeFields, String.toList_append, toList_line, lineOf, List.flatMap_cons,
    List.flatMap_nil, List.append_nil, List.append_assoc]

/-- That of a function, with its span behind it. -/
theorem toList_located : (located path span).toList =
    (placeFields path span ++ [("SPAN_JSON", span.json.toList)]).flatMap fun field =>
      lineOf field ++ ['\n'] := by
  rw [located, String.toList_append, toList_placed, toList_line, List.flatMap_append,
    List.flatMap_singleton, lineOf]

/-- A line has no line feed inside if neither its key nor its value has one. -/
theorem not_mem_keyed {key : String} {value : List Char} (hkey : '\n' ∉ key.toList)
    (hvalue : '\n' ∉ value) : '\n' ∉ keyed key value := by
  rw [keyed, List.mem_append, not_or]
  exact ⟨hkey, List.not_mem_cons_of_ne_of_not_mem (by decide) hvalue⟩

/-- The path is the only text in these lines that may have a line feed. -/
theorem forall_placeFields (h : '\n' ∉ path.text.toList) :
    ∀ field ∈ placeFields path span, '\n' ∉ lineOf field ∧ ':' ∉ field.1.toList := by
  simp only [placeFields, List.forall_mem_cons, lineOf]
  exact ⟨⟨not_mem_keyed (by decide) (by decide), by decide⟩,
    ⟨not_mem_keyed (by decide) h, by decide⟩,
    ⟨not_mem_keyed (by decide) (isPlain_toString _).not_mem, by decide⟩,
    ⟨not_mem_keyed (by decide) (isPlain_toString _).not_mem, by decide⟩, List.forall_mem_nil _⟩

/-- A report that shows a path with a line feed is not read back. -/
theorem ReadsBack.not_mem (h : ReadsBack report keys path span) : '\n' ∉ path.text.toList :=
  not_mem_of_valueOf? h.path_eq

/-- Where no value has a line feed, the report of a place is read back, whatever follows. -/
theorem readsBack_of_fields
    (hreport : report.toList = (placeFields path span ++ more).flatMap fun field =>
      lineOf field ++ ['\n'])
    (hfields : ∀ field ∈ placeFields path span ++ more,
      '\n' ∉ lineOf field ∧ ':' ∉ field.1.toList) :
    ReadsBack report (placeKeys ++ more.map Prod.fst) path span := by
  have hfeeds : ∀ field ∈ placeFields path span ++ more, '\n' ∉ lineOf field :=
    fun field hmem => (hfields field hmem).1
  have hvalue {key : String} (hkey : ':' ∉ key.toList) :
      valueOf? report key = (placeFields path span ++ more).lookup key :=
    valueOf?_eq_lookup hreport hfeeds (fun field hmem => (hfields field hmem).2) hkey
  refine ⟨⟨_, splitOn_report hreport hfeeds, ?_⟩, hvalue (by decide), hvalue (by decide), ?_, ?_⟩
  · rw [List.map_append]
    rfl
  · rw [hvalue (by decide)]
    exact scalar?_toString span.start
  · rw [hvalue (by decide)]
    exact scalar?_toString span.stop

/-- A place is read back exactly if its path has no line feed. -/
theorem readsBack_placed_iff :
    ReadsBack (placed path span) placeKeys path span ↔ '\n' ∉ path.text.toList := by
  refine ⟨ReadsBack.not_mem, fun h => ?_⟩
  have hall : placeFields path span ++ [] = placeFields path span := List.append_nil _
  have hfields : ∀ field ∈ placeFields path span ++ [],
      '\n' ∉ lineOf field ∧ ':' ∉ field.1.toList := by
    rw [hall]
    exact forall_placeFields h
  exact readsBack_of_fields (by rw [hall, toList_placed]) hfields

/-- A function is read back, span and all, exactly if its path has no line feed. -/
theorem readsBack_located_iff :
    ReadsBack (located path span) (placeKeys ++ ["SPAN_JSON"]) path span ∧
        (valueOf? (located path span) "SPAN_JSON").bind object? = some (spanMembers span) ↔
      '\n' ∉ path.text.toList := by
  refine ⟨fun h => h.1.not_mem, fun h => ?_⟩
  have hkey : '\n' ∉ "SPAN_JSON".toList ∧ ':' ∉ "SPAN_JSON".toList := by decide
  have hspan : '\n' ∉ lineOf ("SPAN_JSON", span.json.toList) :=
    not_mem_keyed hkey.1 (isPlain_json span).not_mem
  have hfields : ∀ field ∈ placeFields path span ++ [("SPAN_JSON", span.json.toList)],
      '\n' ∉ lineOf field ∧ ':' ∉ field.1.toList :=
    List.forall_mem_append.mpr
      ⟨forall_placeFields h, List.forall_mem_singleton.mpr ⟨hspan, hkey.2⟩⟩
  refine ⟨readsBack_of_fields toList_located hfields, ?_⟩
  rw [valueOf?_eq_lookup toList_located (fun field hmem => (hfields field hmem).1)
    (fun field hmem => (hfields field hmem).2) hkey.2]
  exact object?_json span

end Report

/-! ## What is shown of a place -/

namespace Program

open Report

variable {world : World} {settings : Settings} {query : Query} {text : String} {afterLine : ℕ}

/-- A function is located in what the file holds, and its place is shown. -/
theorem locate_eq_ok {file : Path}
    (h : ((locate file query : Model (Except Halt Unit)) world).1 = .ok ()) :
    ∃ content span, world.disk.read file = .ok (Text.Utf8.encode content) ∧
      Source.locate content query = .ok span ∧
      ((locate file query : Model (Except Halt Unit)) world).2 =
        { world with output := world.output ++ located file span } := by
  rw [locate, host_bind (TextFile.readNamed_apply file world)] at h ⊢
  split_ifs at h ⊢ with hkind
  · cases hread : TextFile.textOf file (world.disk.read file) with
    | error failure =>
      rw [hread] at h
      cases h
    | ok content =>
      rw [hread] at h
      dsimp only at h ⊢
      cases hlocate : Source.locate content query with
      | error miss =>
        rw [hlocate] at h
        cases h
      | ok span =>
        exact ⟨content, span, SourceTree.textOf_eq_ok_iff.mp hread, hlocate, rfl⟩
  · cases h

/-- A function is located in the target before that is patched, and its place is shown. -/
theorem patch_eq_ok {file : Option Path}
    (h : ((patch settings file query text afterLine : Model (Except Halt Unit)) world).1 =
      .ok ()) :
    ∃ tree path content span, loaded settings world.disk = .ok tree ∧
      tree.IsTarget world.disk file query path content ∧
      Source.locate content query = .ok span ∧
      ((patch settings file query text afterLine : Model (Except Halt Unit)) world).2.output =
        world.output ++ placed path span := by
  rw [patch, host_bind (loadSources_apply settings world)] at h ⊢
  cases hload : loaded settings world.disk with
  | error failure =>
    rw [hload] at h
    cases h
  | ok tree =>
    rw [hload] at h
    let session : Session := .start settings.rootDir settings.pollMs tree
    let site : Site := ⟨session, world⟩
    let request : PatchRequest := ⟨file, query, text, afterLine⟩
    let after : Site := (site.patch request).2
    let say (patched : Patched) : SessionM Model Unit :=
      Console.say (placed patched.path patched.span)
    have hrun : (Session.patch file query text afterLine : SessionM Model Patched) session world =
        (((site.patch request).1, after.session), after.world) := rfl
    -- what is shown is the span that the patch has located, in the source before it
    cases hpatch : (site.patch request).1 with
    | error halt =>
      rw [hpatch] at hrun
      have hhalts : (Session.patch file query text afterLine >>= say) session world =
          ((.error halt, after.session), after.world) := bind_error hrun
      cases (congrArg (·.1.1) hhalts).symm.trans h
    | ok patched =>
      have hcommits := Site.commits_of_patch hpatch
      obtain ⟨content, htarget, hlocate, -⟩ := hcommits.inserts
      rw [hpatch] at hrun
      have hgoes : (Session.patch file query text afterLine >>= say) session world =
          say patched after.session after.world := bind_ok hrun
      refine ⟨tree, patched.path, content, patched.span, rfl, htarget, hlocate, ?_⟩
      refine (congrArg (·.2.output) hgoes).trans ?_
      show after.world.output ++ placed patched.path patched.span = _
      rw [hcommits.world]

/-- Where a function is located or patched, what is shown is the report of its place in the source
as it was. That has a line for each key and is read back exactly if the path has no line feed,
whatever the source, the query and the text are. -/
theorem place_reports_read (world : World) (settings : Settings) (query : Query) (text : String)
    (afterLine : ℕ) :
    (∀ file : Path,
      let run := (locate file query : Model (Except Halt Unit)) world
      run.1 = .ok () → ∃ content span report,
        world.disk.read file = .ok (Text.Utf8.encode content) ∧
        Source.locate content query = .ok span ∧
        run.2.output = world.output ++ report ∧
        (ReadsBack report (placeKeys ++ ["SPAN_JSON"]) file span ∧
            (valueOf? report "SPAN_JSON").bind object? = some (spanMembers span) ↔
          '\n' ∉ file.text.toList)) ∧
    ∀ file : Option Path,
      let run := (patch settings file query text afterLine : Model (Except Halt Unit)) world
      run.1 = .ok () → ∃ tree path content span report,
        loaded settings world.disk = .ok tree ∧
        tree.IsTarget world.disk file query path content ∧
        Source.locate content query = .ok span ∧
        run.2.output = world.output ++ report ∧
        (ReadsBack report placeKeys path span ↔ '\n' ∉ path.text.toList) := by
  constructor
  · intro file run h
    obtain ⟨content, span, hread, hlocate, hworld⟩ := locate_eq_ok h
    exact ⟨content, span, located file span, hread, hlocate, congrArg World.output hworld,
      readsBack_located_iff⟩
  · intro file run h
    obtain ⟨tree, path, content, span, hload, htarget, hlocate, houtput⟩ := patch_eq_ok h
    exact ⟨tree, path, content, span, placed path span, hload, htarget, hlocate, houtput,
      readsBack_placed_iff⟩

/-- A world with one source. -/
def sourceWorld (name : String) : World :=
  .ofDisk (Disk.empty.put [name] (.file (Text.Utf8.encode "function f()\nend\n")))

/-- The function of a source is located and patched, and both reports are read back. -/
theorem place_reports_read_plain :
    let located := (locate ⟨"a.lua"⟩ (.name "f") : Model (Except Halt Unit)) (sourceWorld "a.lua")
    let patched := (patch ⟨⟨"t"⟩, none, 1⟩ (some ⟨"a.lua"⟩) (.name "f") "x()" 1 :
      Model (Except Halt Unit)) (sourceWorld "a.lua")
    (located.1 = .ok () ∧ ∃ span,
      ReadsBack located.2.output (placeKeys ++ ["SPAN_JSON"]) ⟨"a.lua"⟩ span ∧
        (valueOf? located.2.output "SPAN_JSON").bind object? = some (spanMembers span)) ∧
    patched.1 = .ok () ∧ ∃ span, ReadsBack patched.2.output placeKeys ⟨"a.lua"⟩ span := by
  intro located patched
  have hlocated : located.1 = .ok () := by decide +kernel
  have hpatched : patched.1 = .ok () := by decide +kernel
  have hpath : '\n' ∉ "a.lua".toList := by decide
  have hempty (report : String) : (sourceWorld "a.lua").output ++ report = report :=
    String.empty_append
  obtain ⟨hlocate, hpatch⟩ :=
    place_reports_read (sourceWorld "a.lua") ⟨⟨"t"⟩, none, 1⟩ (.name "f") "x()" 1
  obtain ⟨_, span, report, -, -, houtput, hreads⟩ := hlocate ⟨"a.lua"⟩ hlocated
  obtain ⟨_, path, _, span', report', -, htarget, -, houtput', hreads'⟩ :=
    hpatch (some ⟨"a.lua"⟩) hpatched
  obtain rfl : path = ⟨"a.lua"⟩ := by
    rcases htarget.path_cases with hfile | ⟨hfile, -⟩
    · exact (Option.some.inj hfile).symm
    · cases hfile
  rw [hempty] at houtput houtput'
  refine ⟨⟨hlocated, span, ?_⟩, hpatched, span', ?_⟩
  · rw [houtput]
    exact hreads.mpr hpath
  · rw [houtput']
    exact hreads'.mpr hpath

/-- A path with a line feed passes for a line that says where the function starts. -/
theorem locate_reads_forged :
    let run := (locate ⟨"a\nSTART:7"⟩ (.name "f") : Model (Except Halt Unit))
      (sourceWorld "a\nSTART:7")
    run.1 = .ok () ∧
      Source.locate "function f()\nend\n" (.name "f") = .ok ⟨0, 17, "function f()\nend\n"⟩ ∧
      (run.2.output.toList.splitOn '\n').length = 7 ∧
      valueOf? run.2.output "FILE" = some "a".toList ∧
      valueOf? run.2.output "START" = some "7".toList := by
  decide +kernel

end Program

end ScriptMailbox

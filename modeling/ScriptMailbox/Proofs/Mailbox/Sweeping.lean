import ScriptMailbox.Proofs.Mailbox.Phases

/-!
# Sweeping during the dialogue

During a sweep the only requests without a response are those whose response has just been deleted,
and when it comes to its end no exchange file is left. Where no response is listed before its
request, the request is gone by the time its response is deleted, for no request appears in a sweep.
In ascending order none is.
-/

namespace ScriptMailbox.Mailbox

open Disk

variable {root : Path} {disk : Disk} {directory : Location} {name : String} {index : Index}
  {history : List Label} {scene reached : Scene} {past events : List Event} {channel : Channel}
  {listing : Listing}

/-! ## Listing -/

/-- The files that are listed are those that stand in the mailbox. -/
theorem mem_regularNames_iff :
    name ∈ Model.regularNames (disk.children directory) ↔
      (disk.fileAt? (directory ++ [name])).isSome ∧ name ≠ outerName := by
  simp only [Model.regularNames, List.mem_filterMap, Prod.exists, Option.isSome_iff_exists,
    fileAt?_eq_some_iff]
  constructor
  · rintro ⟨listed, entry, hmem, heq⟩
    split at heq <;> cases heq
    obtain ⟨hentry, hne⟩ := mem_children_iff.mp hmem
    exact ⟨⟨_, hentry⟩, hne⟩
  · rintro ⟨⟨content, hentry⟩, hne⟩
    exact ⟨name, .file content, mem_children_iff.mpr ⟨hentry, hne⟩, rfl⟩

/-- A listing of names fails as the listing of entries does. -/
theorem list_of_names_error {listing : Listing} {fault : DiskFault}
    (h : listing.names root disk = .error fault) : disk.list root = .error fault := by
  rw [Listing.names] at h
  cases hlist : disk.list root <;> rw [hlist] at h <;> cases h
  rfl

/-- A listing names the regular files of the directory, in some order. -/
theorem list_of_names_ok {listing : Listing} {names : List String}
    (h : listing.names root disk = .ok names) :
    ∃ entries, disk.list root = .ok entries ∧ names.Perm (Model.regularNames entries) := by
  rw [Listing.names] at h
  cases hlist : disk.list root <;> rw [hlist] at h <;> cases h
  exact ⟨_, rfl, listing.perm _⟩

/-- A sweep has to delete what stands in the mailbox when it is listed. -/
theorem mem_listed_iff {names : List String}
    (hturns : (Operation.listed root (.ok names)).Turns scene reached) :
    scene = reached ∧ ∃ directory, scene.disk.Leads root directory ∧
      ∀ name, isExchangeName name = true →
        (name ∈ names.filter isExchangeName ↔
          (scene.disk.fileAt? (directory ++ [name])).isSome) := by
  obtain ⟨listing, heq⟩ := hturns
  obtain ⟨hnames, rfl⟩ := Prod.mk.inj heq
  obtain ⟨entries, hlist, hperm⟩ := list_of_names_ok hnames
  obtain ⟨-, directory, hleads, rfl⟩ := list_eq_ok_iff.mp hlist
  refine ⟨rfl, directory, hleads, fun name hname => ?_⟩
  have hne : name ≠ outerName := (isEntryName_of_isExchangeName hname).ne_parent
  rw [List.mem_filter, hperm.mem_iff, mem_regularNames_iff]
  simp [hname, hne]

/-- The names of regular files increase. -/
theorem pairwise_regularNames (disk : Disk) (directory : Location) :
    (Model.regularNames (disk.children directory)).Pairwise (· < ·) := by
  refine List.pairwise_filterMap.mpr ((disk.pairwise_children directory).imp ?_)
  rintro ⟨first, entry⟩ ⟨second, entry'⟩ hlt name hname name' hname'
  cases entry <;> cases hname
  cases entry' <;> cases hname'
  exact hlt

/-- In ascending order no response is listed before its request. -/
theorem not_sublist_of_plain {names : List String}
    (h : Listing.plain.names root disk = .ok names) (index : Index) :
    ¬[responseName index, requestName index].Sublist names := by
  intro hsublist
  rw [Listing.names] at h
  cases hlist : disk.list root with
  | error fault =>
    rw [hlist] at h
    cases h
  | ok entries =>
    rw [hlist] at h
    cases h
    obtain ⟨-, directory, -, rfl⟩ := list_eq_ok_iff.mp hlist
    have hascending := (pairwise_regularNames disk directory).sublist hsublist
    have hlt : responseName index < requestName index :=
      List.rel_of_pairwise_cons hascending (List.mem_singleton_self _)
    exact lt_asymm hlt (requestName_lt_responseName index index)

/-! ## Others in a sweep -/

/-- A step of others that answers nothing whose response has been deleted. -/
def IsSparing (root : Path) (past : List Event) (before after : Scene) : Prop :=
  IsStep root before after ∧ ∀ index asked reply, Answers root index asked reply before after →
    .own (.removed (root.join (responseName index)) (.ok ())) ∉ past

/-- Whether others take only such steps among some events, which come after some past ones. -/
def AreSparing (root : Path) (past events : List Event) : Prop :=
  ∀ early before after late, events = early ++ .others before after :: late →
    IsSparing root (past ++ early) before after

/-- Others who answer nothing anew during a sweep are sparing throughout. -/
theorem SparesDeleted.areSparing (h : SparesDeleted root events)
    (hothers : Obeys (IsStep root) events) : AreSparing root [] events := by
  rintro early before after late rfl
  exact ⟨hothers before after (by simp), h early before after late rfl⟩

/-- What others may do after more has happened, they may do after less. -/
theorem IsSparing.of_append {more : List Event} (h : IsSparing root (past ++ more) scene reached) :
    IsSparing root past scene reached :=
  ⟨h.1, fun index asked reply hanswers hmem =>
    h.2 index asked reply hanswers (List.mem_append_left _ hmem)⟩

/-- Sparing events obey the rule for what has been deleted before them. -/
theorem AreSparing.obeys (h : AreSparing root past events) :
    Obeys (IsSparing root past) events := by
  intro before after hmem
  obtain ⟨early, late, rfl⟩ := List.append_of_mem hmem
  exact (h early before after late rfl).of_append

/-- The later ones of sparing events are sparing for what the earlier ones have deleted. -/
theorem AreSparing.of_append {more : List Event} (h : AreSparing root past (events ++ more)) :
    AreSparing root (past ++ events) more := by
  rintro early before after late rfl
  rw [List.append_assoc]
  exact h (events ++ early) before after late (List.append_assoc ..).symm

/-! ## What becomes of requests -/

/-- What a sweep and the engine make of a disk: no way is lost, and no request appears. -/
structure Fades (root : Path) (start disk : Disk) : Prop where
  sound : ∃ ledger, Sound root ledger disk
  ways : start.KeepsWays disk
  requests : ∀ directory index, (requestAt disk directory index).isSome →
    (requestAt start directory index).isSome

/-- A sound disk has faded to itself. -/
theorem Fades.refl (hsound : ∃ ledger, Sound root ledger disk) : Fades root disk disk :=
  ⟨hsound, .refl disk, fun _ _ => id⟩

/-- It goes on fading when a file is deleted, or replaced that is no request. -/
theorem Fades.replaced {start after : Disk} {held : Option Bytes} {ledger : Ledger}
    (h : Fades root start disk) (hreplaces : Replaces disk root name held after directory)
    (hsound : Sound root ledger after)
    (hheld : held = none ∨ ∀ index, requestName index ≠ name) : Fades root start after := by
  refine ⟨⟨ledger, hsound⟩, h.ways.trans hreplaces.keepsWays, fun location index hrequest => ?_⟩
  apply h.requests
  rw [requestAt, hreplaces.fileAt?_eq] at hrequest
  split_ifs at hrequest with heq
  · rcases hheld with rfl | hne
    · cases hrequest
    · exact absurd (List.singleton_inj.mp (List.append_inj_right' heq rfl)) (hne index)
  · exact hrequest

/-- Deletions and the engine make requests disappear, and nothing else happens to them. -/
theorem fades_of_passage {names : List String} (hsound : ∃ ledger, Sound root ledger scene.disk)
    (hnames : ∀ name ∈ names, isExchangeName name = true)
    (hpass : Passage (IsStep root) (deletions root names) events scene reached) :
    Fades root scene.disk reached.disk := by
  refine hpass.becomes.keeps (fun middle => Fades root scene.disk middle.disk)
    (fun event hmem left right hturns h => ?_) (.refl hsound)
  obtain ⟨ledger, hledger⟩ := h.sound
  cases event with
  | own operation =>
    have hdeletes : operation ∈ deletions root names := hpass.own_eq ▸ mem_own_iff.mpr hmem
    obtain ⟨name, hname, rfl⟩ := List.mem_map.mp hdeletes
    obtain ⟨directory, hreplaces⟩ := replaces_of_removeFile hledger.links (hnames name hname)
      (Scene.change_eq_ok_iff.mp hturns).1
    exact h.replaced hreplaces
      (hreplaces.sound hledger (fun _ _ => rfl) fun _ _ _ hraw => by cases hraw) (.inl rfl)
  | others before after =>
    obtain ⟨rfl, rfl⟩ := hturns
    rcases hpass.obeys left right hmem with ⟨index, asked, reply, hanswers⟩ | rfl
    · obtain ⟨-, directory, document, -, hreplaces, -⟩ := hanswers.cases hledger
      exact h.replaced hreplaces (hanswers.sound hledger)
        (.inr fun other => requestName_ne_responseName other index)
    · exact h

/-- A request that has been deleted is gone. -/
theorem requestAt_eq_none_of_deleted {gone : List String}
    (hsound : ∃ ledger, Sound root ledger scene.disk)
    (hgone : ∀ name ∈ gone, isExchangeName name = true)
    (hpass : Passage (IsStep root) (deletions root gone) events scene reached)
    (hmem : requestName index ∈ gone) (hleads : reached.disk.Leads root directory) :
    requestAt reached.disk directory index = none := by
  obtain ⟨earlier, later, rfl⟩ := List.append_of_mem hmem
  obtain ⟨hbecomes, hobeys, hown⟩ := hpass
  rw [deletions, List.map_append, List.map_cons] at hown
  obtain ⟨first, rest, before, after, rfl, hfirst, hrest, hbefore, hturns, hafter⟩ :=
    hbecomes.split hown
  obtain ⟨ledger, hledger⟩ := (fades_of_passage hsound
    (fun name hname => hgone name (List.mem_append_left _ hname))
    ⟨hbefore, hobeys.of_append_left, hfirst⟩).sound
  obtain ⟨inside, hreplaces⟩ := replaces_of_removeFile hledger.links
    (isExchangeName_requestName index) (Scene.change_eq_ok_iff.mp hturns).1
  have hsound' : Sound root ledger after.disk :=
    hreplaces.sound hledger (fun _ _ => rfl) fun _ _ _ hraw => by cases hraw
  have hlater := fades_of_passage ⟨ledger, hsound'⟩
    (fun name hname => hgone name (List.mem_append_right _ (List.mem_cons_of_mem _ hname)))
    ⟨hafter, hobeys.of_append_right.of_cons, hrest⟩
  obtain rfl := (hreplaces.leads_after.of_keepsWays hlater.ways).unique hleads
  by_contra hrequest
  have hleft := hlater.requests inside index (Option.isSome_iff_ne_none.mpr hrequest)
  rw [hreplaces.requestAt_eq, if_pos rfl] at hleft
  cases hleft

/-- What a sweep has done when something has been deleted. -/
theorem IsSweep.of_append {path : Path} {result : Except DiskFault Unit}
    {early late : List Operation} (h : IsSweep listing root (early ++ late))
    (hmem : .removed path result ∈ early) :
    ∃ names gone left, names.filter isExchangeName = gone ++ left ∧
      early = .listed root (.ok names) :: deletions root gone := by
  cases early with
  | nil => cases hmem
  | cons first early =>
    rcases h with h | ⟨-, names, -, h⟩
    · obtain ⟨rfl, hnil⟩ := List.cons_eq_cons.mp h
      obtain ⟨rfl, -⟩ := List.append_eq_nil_iff.mp hnil
      simp at hmem
    · obtain ⟨rfl, hmap⟩ := List.cons_eq_cons.mp h
      obtain ⟨gone, left, hnames, rfl, -⟩ := List.map_eq_append_iff.mp hmap.symm
      exact ⟨names, gone, left, hnames, rfl⟩

/-- A sweep acts on what is listed in its own order. -/
theorem IsSweep.names_of_mem {operations : List Operation} {names : List String}
    (h : IsSweep listing root operations) (hmem : .listed root (.ok names) ∈ operations) :
    ∃ disk, listing.names root disk = .ok names := by
  rcases h with rfl | ⟨disk, listed, hnames, rfl⟩
  · simp at hmem
  · obtain rfl : names = listed := by simpa [deletions] using hmem
    exact ⟨disk, hnames⟩

/-- Only the names of a sweep are deleted by it. -/
theorem mem_of_mem_deletions {names : List String}
    (hnames : ∀ name ∈ names, isExchangeName name = true) (hname : isExchangeName name = true)
    (hmem : .removed (root.join name) (.ok ()) ∈ deletions root names) : name ∈ names := by
  obtain ⟨other, hother, heq⟩ := List.mem_map.mp hmem
  injection heq with heq
  rwa [← Path.join_injective (isEntryName_of_isExchangeName (hnames other hother))
    (isEntryName_of_isExchangeName hname) heq]

/-- Where no response is listed before its request, no response is deleted before its request. -/
theorem ListsRequestsFirst.sparesDeleted {operations : List Operation}
    (h : ListsRequestsFirst root events) (hsound : ∃ ledger, Sound root ledger scene.disk)
    (hsweep : IsSweep listing root operations)
    (hpass : Passage (IsStep root) operations events scene reached) :
    SparesDeleted root events := by
  rintro early before after late rfl index asked reply hanswers hdeleted
  obtain ⟨hbecomes, hobeys, rfl⟩ := hpass
  rw [own_append] at hsweep
  obtain ⟨names, gone, left, hnames, hearly⟩ := hsweep.of_append (mem_own_iff.mpr hdeleted)
  have hgone : ∀ name ∈ gone, isExchangeName name = true := fun name hmem =>
    (List.mem_filter.mp (hnames ▸ List.mem_append_left left hmem : name ∈ names.filter _)).2
  obtain ⟨before', hbefore, hrest⟩ := hbecomes.of_append
  obtain rfl : before' = before := by
    cases hrest with
    | cons first _ => exact first.1
  obtain ⟨first, rest, listing, listed, rfl, hfirst, hrest', hquiet, hturns, hdeletes⟩ :=
    hbefore.split (hearly.trans (List.nil_append _).symm)
  have hsound' := (fades_of_passage hsound (List.forall_mem_nil _)
    ⟨hquiet, hobeys.of_append_left.of_append_left, hfirst⟩).sound
  obtain ⟨rfl, directory, hleads, hlisted⟩ := mem_listed_iff hturns
  have hpass : Passage (IsStep root) (deletions root gone) rest listing before' :=
    ⟨hdeletes, hobeys.of_append_left.of_append_right.of_cons, hrest'⟩
  have hfades := fades_of_passage hsound' hgone hpass
  obtain ⟨ledger, hledger⟩ := hfades.sound
  obtain ⟨-, inside, document, -, hreplaces, -, hrequest⟩ := hanswers.cases hledger
  obtain rfl := (hleads.of_keepsWays hfades.ways).unique hreplaces.leads
  -- the request was there when the directory was listed, and it has not been deleted since
  have hlistedRequest : requestName index ∈ gone ++ left := by
    rw [← hnames, hlisted _ (isExchangeName_requestName index)]
    exact hfades.requests _ _ hrequest
  have hlater : requestName index ∈ left := by
    refine (List.mem_append.mp hlistedRequest).resolve_left fun hmem => ?_
    rw [requestAt_eq_none_of_deleted hsound' hgone hpass hmem hreplaces.leads] at hrequest
    cases hrequest
  -- the response has been deleted before, so it was listed in front of the request
  have hearlier : responseName index ∈ gone := by
    have hmem := mem_own_iff.mpr hdeleted
    rw [hearly] at hmem
    exact mem_of_mem_deletions hgone (isExchangeName_responseName index)
      ((List.mem_cons.mp hmem).resolve_left (by simp))
  have hsublist := (List.singleton_sublist.mpr hearlier).append (List.singleton_sublist.mpr hlater)
  rw [← hnames] at hsublist
  exact h names (by simp) index (hsublist.trans List.filter_sublist)

/-! ## Deleting -/

/-- A sweep that has these names yet to delete: no other exchange file is left, and every request
has its response, unless that has been deleted. -/
structure IsSweeping (root : Path) (directory : Location) (past : List Event) (names : List String)
    (history : List Label) (scene : Scene) : Prop where
  told : Told root history scene
  leads : scene.disk.Leads root directory
  answered : ∀ index, (requestAt scene.disk directory index).isSome →
    (responseAt scene.disk directory index).isSome ∨
      .own (.removed (root.join (responseName index)) (.ok ())) ∈ past
  left : ∀ name, isExchangeName name = true →
    (scene.disk.fileAt? (directory ++ [name])).isSome → name ∈ names

/-- A sweep goes on whatever a sparing engine does. -/
theorem stable_isSweeping (directory : Location) (past : List Event) (names : List String) :
    Stable (IsSparing root past) (IsSweeping root directory past names) where
  step h hstep := by
    have htold := h.told.step hstep.1
    rcases hstep.1 with ⟨index, asked, reply, hanswers⟩ | rfl
    · obtain ⟨-, inside, document, -, hreplaces, hnone, hrequest⟩ := hanswers.cases h.told.sound
      obtain rfl := hreplaces.leads.unique h.leads
      rcases h.answered index hrequest with hsome | hmem
      · rw [hnone] at hsome
        cases hsome
      · exact absurd hmem (hstep.2 index asked reply hanswers)
    · exact ⟨htold, h.leads, h.answered, h.left⟩
  view h hview := ⟨stable_told.view h.told hview, h.leads, h.answered, h.left⟩

/-- Deleting an exchange file keeps the disk sound. -/
theorem Told.removed (h : Told root history scene) (hname : isExchangeName name = true)
    (hturns : (Operation.removed (root.join name) (.ok ())).Turns scene reached) :
    Told root (history ++ [.event (.own (.removed (root.join name) (.ok ())))]) reached := by
  obtain ⟨directory, hreplaces⟩ :=
    replaces_of_removeFile h.sound.links hname (Scene.change_eq_ok_iff.mp hturns).1
  exact h.own (hreplaces.sound h.sound (fun _ _ => rfl) fun _ _ _ hraw => by cases hraw)

/-- Deleting a file leaves exchanges over that are over. -/
theorem IsOver.removed (h : IsOver root history scene) (hname : isExchangeName name = true)
    (hturns : (Operation.removed (root.join name) (.ok ())).Turns scene reached) :
    IsOver root (history ++ [.event (.own (.removed (root.join name) (.ok ())))]) reached :=
  ⟨h.1.removed hname hturns, (Scene.change_eq_ok_iff.mp hturns).2.trans h.2⟩

/-- Deleting the next file brings the sweep one name further. -/
theorem IsSweeping.removed {names : List String}
    (h : IsSweeping root directory past (name :: names) history scene)
    (hname : isExchangeName name = true)
    (hturns : (Operation.removed (root.join name) (.ok ())).Turns scene reached) :
    IsSweeping root directory (past ++ [.own (.removed (root.join name) (.ok ()))]) names
      (history ++ [.event (.own (.removed (root.join name) (.ok ())))]) reached := by
  obtain ⟨inside, hreplaces⟩ :=
    replaces_of_removeFile h.told.sound.links hname (Scene.change_eq_ok_iff.mp hturns).1
  obtain rfl := hreplaces.leads.unique h.leads
  refine ⟨h.told.removed hname hturns, hreplaces.leads_after, fun index hrequest => ?_,
    fun other hother hfile => ?_⟩
  · rw [hreplaces.requestAt_eq] at hrequest
    split_ifs at hrequest
    · cases hrequest
    by_cases hdeleted : responseName index = name
    · right
      rw [hdeleted]
      exact List.mem_append_right _ (List.mem_singleton_self _)
    · rw [hreplaces.responseAt_eq, if_neg hdeleted]
      exact (h.answered index hrequest).imp_right (List.mem_append_left _)
  · rw [hreplaces.fileAt?_eq] at hfile
    split_ifs at hfile with heq
    · cases hfile
    · have hne : other ≠ name := by
        rintro rfl
        exact heq rfl
      exact (List.mem_cons.mp (h.left other hother hfile)).resolve_left hne

/-- A sweep that has nothing left to delete has made the console ready for index zero. -/
theorem IsSweeping.isReady (h : IsSweeping root directory past [] history scene) :
    IsReady root 0 history scene := by
  have hnone (name : String) (hname : isExchangeName name = true) :
      scene.disk.fileAt? (directory ++ [name]) = none := by
    by_contra hfile
    cases h.left name hname (Option.isSome_iff_ne_none.mpr hfile)
  refine ⟨h.told, fun location hlocation index _ hrequest => ?_,
    fun location hlocation index _ => ?_⟩
  · obtain rfl := hlocation.eq_of_leads h.leads
    rw [requestAt, hnone _ (isExchangeName_requestName index)] at hrequest
    cases hrequest
  · obtain rfl := hlocation.eq_of_leads h.leads
    exact ⟨hnone _ (isExchangeName_requestName index), hnone _ (isExchangeName_responseName index)⟩

/-- What has been deleted before stays deleted. -/
theorem IsSweeping.mono {names : List String}
    (h : IsSweeping root directory past names history scene) (more : List Event) :
    IsSweeping root directory (past ++ more) names history scene where
  told := h.told
  leads := h.leads
  answered index hrequest := (h.answered index hrequest).imp_right (List.mem_append_left more)
  left := h.left

/-- A sweep, unless the exchanges are over anyway. -/
def IsClearing (root : Path) (directory : Location) (past : List Event) (names : List String)
    (history : List Label) (scene : Scene) : Prop :=
  IsOver root history scene ∨ IsSweeping root directory past names history scene

/-- The end of a sweep outlasts what a sparing engine does. -/
theorem stable_isClearing (directory : Location) (past : List Event) (names : List String) :
    Stable (IsSparing root past) (IsClearing root directory past names) :=
  (stable_isOver.of_imp And.left).or (stable_isSweeping directory past names)

/-- What is still to be deleted does not depend on later events. -/
theorem IsClearing.mono {names : List String} {more : List Event}
    (h : IsClearing root directory past names history scene) :
    IsClearing root directory (past ++ more) names history scene :=
  h.imp_right fun hsweeping => hsweeping.mono more

/-- The names are deleted one after the other. -/
theorem IsClearing.removes {names : List String}
    (h : IsClearing root directory past names history scene)
    (hnames : ∀ name ∈ names, isExchangeName name = true)
    (hbecomes : scene.Becomes events reached) (hothers : AreSparing root past events)
    (hown : own events = deletions root names) :
    IsResting root 0 (history ++ events.map .event) reached := by
  induction names generalizing history scene past events with
  | nil =>
    have hlast := (stable_isClearing directory past []).keeps ⟨hbecomes, hothers.obeys, hown⟩
      areLooks_nil h
    exact hlast.imp_right IsSweeping.isReady
  | cons name names ih =>
    obtain ⟨quiet, rest, scene', removed, rfl, hlisted, hturns, hpass⟩ :=
      (stable_isClearing directory past (name :: names)).reach [] h
        ⟨hbecomes, hothers.obeys, hown⟩ areLooks_nil
    have hname := hnames name List.mem_cons_self
    have hnext : IsClearing root directory
        (past ++ quiet ++ [.own (.removed (root.join name) (.ok ()))]) names
        (history ++ quiet.map .event ++ [.event (.own (.removed (root.join name) (.ok ())))])
        removed :=
      hlisted.mono.imp (IsOver.removed · hname hturns) (IsSweeping.removed · hname hturns)
    rw [List.append_cons] at hothers
    have hrest := hothers.of_append
    rw [← List.append_assoc] at hrest
    simpa using ih hnext (fun other hmem => hnames other (List.mem_cons_of_mem _ hmem))
      hpass.becomes hrest hpass.own_eq

/-! ## Resetting -/

/-- Where no mailbox is found, none has been created. -/
theorem IsReady.listed_error {start : ℕ} (h : IsReady root start history scene)
    (hroot : root.text ≠ "")
    (hturns : (Operation.listed root (.error .noEntry)).Turns scene reached) :
    IsReady root 0 (history ++ [.event (.own (.listed root (.error .noEntry)))]) reached := by
  obtain ⟨listing, heq⟩ := hturns
  obtain ⟨hnames, rfl⟩ := Prod.mk.inj heq
  refine ⟨stable_told.view h.told rfl, h.answered, fun directory hleads index _ => ?_⟩
  rcases h.told.sound.created with ⟨location, hfound⟩ | hnone
  · exact absurd (list_of_names_error hnames) (list_ne_noEntry hfound hroot)
  · exact hnone directory hleads index

/-- A sweep has to delete what it has listed. -/
theorem IsReady.listed_ok {start : ℕ} {names : List String} (h : IsReady root start history scene)
    (hturns : (Operation.listed root (.ok names)).Turns scene reached) (past : List Event) :
    ∃ directory, IsSweeping root directory past (names.filter isExchangeName)
      (history ++ [.event (.own (.listed root (.ok names)))]) reached := by
  obtain ⟨rfl, directory, hleads, hlisted⟩ := mem_listed_iff hturns
  refine ⟨directory, stable_told.view h.told rfl, hleads, fun index hrequest => .inl ?_,
    fun name hname hfile => (hlisted name hname).mpr hfile⟩
  exact h.answered directory hleads.mayLead index (by simp) hrequest

/-- After a sweep the console is at rest at index zero. -/
theorem IsResting.swept {start : ℕ} (h : IsResting root start history scene)
    (hroot : root.text ≠ "") (hbecomes : scene.Becomes events reached)
    (hothers : AreSparing root [] events) (hsweep : IsSweep listing root (own events)) :
    IsResting root 0 (history ++ events.map .event) reached := by
  have hresting : Stable (IsSparing root []) (IsResting root start) :=
    (stable_isResting start).of_imp And.left
  rcases hsweep with hown | ⟨-, names, -, hown⟩
  · obtain ⟨quiet, rest, scene', listed, rfl, hrests, hturns, hpass⟩ :=
      hresting.reach [] h ⟨hbecomes, hothers.obeys, hown⟩ areLooks_nil
    have hlisted : IsResting root 0
        (history ++ quiet.map .event ++ [.event (.own (.listed root (.error .noEntry)))])
        listed := by
      rcases hrests with hover | hready
      · rw [hturns.eq_of_view rfl]
        exact .inl (stable_isOver.view hover rfl)
      · exact .inr (hready.listed_error hroot hturns)
    simpa using ((stable_isResting 0).of_imp And.left).keeps hpass areLooks_nil hlisted
  · obtain ⟨quiet, rest, scene', listed, rfl, hrests, hturns, hpass⟩ :=
      hresting.reach [] h ⟨hbecomes, hothers.obeys, hown⟩ areLooks_nil
    rw [List.append_cons] at hothers
    have hlisted : ∃ directory, IsClearing root directory
        ([] ++ (quiet ++ [.own (.listed root (.ok names))])) (names.filter isExchangeName)
        (history ++ quiet.map .event ++ [.event (.own (.listed root (.ok names)))]) listed := by
      rcases hrests with hover | hready
      · rw [hturns.eq_of_view rfl]
        exact ⟨[], .inl (stable_isOver.view hover rfl)⟩
      · exact (hready.listed_ok hturns _).imp fun _ => .inr
    obtain ⟨directory, hclearing⟩ := hlisted
    simpa using hclearing.removes (fun name hmem => (List.mem_filter.mp hmem).2) hpass.becomes
      hothers.of_append hpass.own_eq

/-- A reset in which nothing goes wrong is a sweep, and leads back to index zero. -/
theorem reset_does {future : List (List Scene)} {report : SweepReport} {next : Channel}
    {after : Stage}
    (hrun : (Channel.reset channel : Play _) (.opening scene future listing) =
      ((report, next), after))
    (hclean : report.isClean = true) :
    next = channel.jump .zero ∧ IsSweep listing channel.root (own after.history) ∧
      scene.Becomes after.history after.scene := by
  obtain ⟨swept, stage, hsweep, hdoes⟩ := sweep_does channel.root (.opening scene future listing)
  rw [Channel.reset, host_bind hsweep] at hrun
  cases hrun
  obtain ⟨operations, hsweeps, events, hhistory, hbecomes, rfl⟩ := hdoes hclean
  have hevents : after.history = events := hhistory
  rw [hevents]
  exact ⟨rfl, hsweeps, hbecomes⟩

/-- A reset ends at rest at index zero. -/
theorem invariant_of_reset {future : List (List Scene)} {report : SweepReport} {next : Channel}
    {after : Stage}
    (h : IsResting channel.root channel.index.value history scene)
    (hrun : (Channel.reset channel : Play _) (.opening scene future listing) =
      ((report, next), after))
    (hothers : Obeys (IsStep channel.root) after.history)
    (hrule : NotOvertaken channel.root after.history)
    (hclean : report.isClean = true) (hroot : channel.root.text ≠ "") :
    Invariant channel.root (some next) (history ++ after.history.map .event) after.scene := by
  obtain ⟨rfl, hsweeps, hbecomes⟩ := reset_does hrun hclean
  have hdeleted : SparesDeleted channel.root after.history :=
    hrule.elim (·.sparesDeleted ⟨_, h.told.sound⟩ hsweeps ⟨hbecomes, hothers, rfl⟩) id
  exact IsResting.invariant (h.swept hroot hbecomes (hdeleted.areSparing hothers) hsweeps) rfl

/-- Where a directory is listed in ascending order, the engine cannot overtake a reset. -/
theorem Reachable.reset_plain {future : List (List Scene)} {report : SweepReport} {next : Channel}
    {after : Stage}
    (h : Reachable channel.root (NotOvertaken channel.root) (some channel) scene history)
    (hrun : (Channel.reset channel : Play _) (.opening scene future .plain) =
      ((report, next), after))
    (hothers : Obeys (IsStep channel.root) after.history)
    (hsucceeds : report.isClean = true ∧ channel.root.text ≠ "") :
    Reachable channel.root (NotOvertaken channel.root) (some next) after.scene
      (history ++ after.history.map .event) := by
  refine h.reset future .plain hrun hothers (.inl fun names hmem => ?_) hsucceeds
  obtain ⟨-, hsweep, -⟩ := reset_does hrun hsucceeds.1
  obtain ⟨disk, hnames⟩ := hsweep.names_of_mem (mem_own_iff.mpr hmem)
  exact not_sublist_of_plain hnames

end ScriptMailbox.Mailbox

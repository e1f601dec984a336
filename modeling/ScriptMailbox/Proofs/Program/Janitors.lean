import ScriptMailbox.Proofs.Program.Cleaning
import Mathlib.Data.List.Induction
import Mathlib.Logic.Relation

/-!
# Families of janitors

Janitors are cloned and hired, sweep, and end, by themselves or when their guard is dropped, while
others write files. Janitors that clones connect are kin. The one that ends first among its kin
sweeps the mailbox, and those that end later leave everything as it is; neither sweeps nor files nor
janitors that are no kin make a difference to that (`ends_once`).
-/

namespace ScriptMailbox

namespace Mailbox

namespace Crew

/-- Work under a guard: a last sweep follows it, whatever comes of it. -/
def guarded {m : Type → Type} [Monad m] [Host m] {α : Type} (crew : Crew) (root : Path)
    (janitor : ℕ) (work : m α) : m (α × Bool × Crew) := do
  let outcome ← work
  let ended ← crew.finish root janitor
  pure (outcome, ended)

/-- Where no signal comes, the program works under the guard of its only janitor. -/
theorem sweepAfter_eq_guarded {m : Type → Type} [Monad m] [LawfulMonad m] [Host m] {α : Type}
    {root : Path} (hwatch : (Host.watchSignals root : m Unit) = pure ())
    (htake : (Host.takeLastSweep : m Bool) = pure true) (work : m α) :
    Program.sweepAfter root work = Prod.fst <$> single.guarded root 0 work := by
  simp [Program.sweepAfter, Program.lastSweep, guarded, hwatch, htake]

/-- A crew in which a janitor has ended. -/
def ended (crew : Crew) (janitor : ℕ) : Crew :=
  if crew.familyOf janitor ∈ crew.finished then crew
  else { crew with finished := crew.familyOf janitor :: crew.finished }

variable {crew : Crew} {root : Path} {janitor family : ℕ}

/-- The last sweep of a janitor, on a stage. -/
theorem finish_apply (crew : Crew) (root : Path) (janitor : ℕ) (stage : Stage) :
    (crew.finish root janitor : Play (Bool × Crew)) stage =
      ((decide (crew.familyOf janitor ∉ crew.finished), crew.ended janitor),
        if crew.familyOf janitor ∈ crew.finished then stage
        else ((sweep root : Play SweepReport) stage).2) := by
  rw [finish, ended]
  split_ifs with hfinished
  · rw [decide_eq_false (not_not.mpr hfinished)]
    rfl
  · rw [decide_eq_true hfinished]
    rfl

/-- Work that leaves the stage alone under a guard. -/
theorem guarded_pure {α : Type} (crew : Crew) (root : Path) (janitor : ℕ) (outcome : α)
    (stage : Stage) :
    (crew.guarded root janitor (pure outcome) : Play (α × Bool × Crew)) stage =
      ((outcome, ((crew.finish root janitor : Play (Bool × Crew)) stage).1),
        ((crew.finish root janitor : Play (Bool × Crew)) stage).2) :=
  rfl

/-- A janitor that ends changes no kinship. -/
@[simp] theorem families_ended (crew : Crew) (janitor : ℕ) :
    (crew.ended janitor).families = crew.families := by
  rw [ended]
  split_ifs <;> rfl

/-- Its family has finished then, besides those that had. -/
theorem mem_finished_ended :
    family ∈ (crew.ended janitor).finished ↔
      family ∈ crew.finished ∨ crew.familyOf janitor = family := by
  rw [ended]
  split_ifs with hfinished
  · refine ⟨.inl, ?_⟩
    rintro (hmem | rfl)
    · exact hmem
    · exact hfinished
  · rw [List.mem_cons, or_comm, eq_comm]

/-- A crew with one more janitor. -/
def joined (crew : Crew) (family : ℕ) : Crew :=
  { crew with families := crew.families ++ [family] }

/-- A new janitor leaves the kinship of the others as it is. -/
theorem familyOf_joined_of_lt (h : janitor < crew.families.length) :
    (crew.joined family).familyOf janitor = crew.familyOf janitor := by
  rw [familyOf, familyOf, joined, List.getElem?_append_left h]

/-- It belongs to the family that it joins. -/
theorem familyOf_joined_self : (crew.joined family).familyOf crew.families.length = family := by
  rw [familyOf, joined, List.getElem?_concat_length, Option.getD_some]

end Crew

/-! ## Deeds -/

/-- The janitors of a mailbox, and what they share with others. -/
structure House where
  crew : Crew
  scene : Scene

/-- What janitors and others do. Janitors have numbers: the first one is 0, and each new one takes
the next. -/
inductive Deed
  /-- A janitor gets a clone. -/
  | clone (janitor : ℕ)
  /-- A janitor comes that is nobody's clone. -/
  | hire
  | sweep (janitor : ℕ)
  | finish (janitor : ℕ)
  /-- The guard of a janitor is dropped after some work: at its end, where it halts early, or where
  it panics. -/
  | guard (janitor : ℕ) (outcome : Except Halt Unit)
  /-- Others do something with files. -/
  | others (scene : Scene)

namespace Deed

/-- What a deed tells, if it is the end of a janitor, and what it leaves. -/
def perform (root : Path) (listing : Listing) (deed : Deed) (house : House) :
    Option Bool × House :=
  let stage : Stage := .opening house.scene [] listing
  match deed with
  | clone janitor => (none, { house with crew := house.crew.clone janitor })
  | hire => (none, { house with crew := house.crew.hire })
  | sweep _ =>
    let (_, stage) := (Mailbox.sweep root : Play SweepReport) stage
    (none, { house with scene := stage.scene })
  | finish janitor =>
    let ((swept, crew), stage) := (house.crew.finish root janitor : Play (Bool × Crew)) stage
    (some swept, ⟨crew, stage.scene⟩)
  | guard janitor outcome =>
    let ((_, swept, crew), stage) := (house.crew.guarded root janitor (pure outcome) :
      Play (Except Halt Unit × Bool × Crew)) stage
    (some swept, ⟨crew, stage.scene⟩)
  | others scene => (none, { house with scene := scene })

/-- Who does it. -/
def janitor? : Deed → Option ℕ
  | clone janitor | sweep janitor | finish janitor | guard janitor _ => some janitor
  | hire | others _ => none

/-- Who ends. -/
def ends? : Deed → Option ℕ
  | finish janitor | guard janitor _ => some janitor
  | _ => none

/-- Whose clone comes, if anyone's, where a janitor comes. -/
def origin? : Deed → Option (Option ℕ)
  | clone janitor => some (some janitor)
  | hire => some none
  | _ => none

/-- What a deed makes of the janitors. -/
def change (deed : Deed) (crew : Crew) : Crew :=
  match deed with
  | clone janitor => crew.clone janitor
  | hire => crew.hire
  | finish janitor | guard janitor _ => crew.ended janitor
  | sweep _ | others _ => crew

end Deed

/-- What some deeds leave. -/
def House.after (root : Path) (listing : Listing) (house : House) (deeds : List Deed) : House :=
  deeds.foldl (fun house deed => (deed.perform root listing house).2) house

/-- Whose clone each janitor is, if anyone's. -/
def origins (deeds : List Deed) : List (Option ℕ) :=
  none :: deeds.filterMap Deed.origin?

/-- Whether a janitor has been cloned from another one. -/
def IsClone (deeds : List Deed) (parent child : ℕ) : Prop :=
  (origins deeds)[child]? = some (some parent)

/-- Whether clones connect two janitors. -/
def Kin (deeds : List Deed) : ℕ → ℕ → Prop :=
  Relation.EqvGen (IsClone deeds)

/-- Whether a janitor has ended, by itself or under a guard. -/
def HasEnded (deeds : List Deed) (janitor : ℕ) : Prop :=
  ∃ deed ∈ deeds, deed.ends? = some janitor

/-- Whether only janitors do something who are there, when there are some in the beginning. -/
def AreSound : ℕ → List Deed → Prop
  | _, [] => True
  | count, deed :: deeds =>
    (∀ janitor ∈ deed.janitor?, janitor < count) ∧
      AreSound (count + deed.origin?.toList.length) deeds

variable {root : Path} {listing : Listing} {house : House} {deeds more : List Deed} {deed : Deed}
  {crew : Crew} {origin : Option ℕ} {janitor other family parent child : ℕ}

/-! ## One deed -/

namespace Deed

/-- The end of a janitor tells whether it has swept the mailbox. -/
theorem perform_of_ends (root : Path) (listing : Listing) (house : House)
    (h : deed.ends? = some janitor) :
    deed.perform root listing house =
      (some (decide (house.crew.familyOf janitor ∉ house.crew.finished)),
        ⟨house.crew.ended janitor,
          if house.crew.familyOf janitor ∈ house.crew.finished then house.scene
          else ((Mailbox.sweep root : Play SweepReport)
            (.opening house.scene [] listing)).2.scene⟩) := by
  have hfinish := Crew.finish_apply house.crew root janitor (.opening house.scene [] listing)
  cases deed with
  | finish | guard =>
    cases h
    simp only [perform, Crew.guarded_pure, hfinish]
    split_ifs <;> rfl
  | clone | hire | sweep | others => cases h

/-- A deed changes the crew in a way that depends on the deed alone. -/
theorem crew_perform (root : Path) (listing : Listing) (deed : Deed) (house : House) :
    (deed.perform root listing house).2.crew = deed.change house.crew := by
  cases deed with
  | finish | guard => rw [perform_of_ends root listing house rfl, change]
  | clone | hire | sweep | others => rfl

/-- A janitor that sweeps sweeps the mailbox. -/
theorem scene_sweep (root : Path) (listing : Listing) (house : House) (janitor : ℕ) :
    ∃ report, Sweeps root house.scene
      ((sweep janitor).perform root listing house).2.scene report :=
  ⟨_, Stage.sweep_sweeps (.opening house.scene [] listing) rfl root⟩

end Deed

/-- So deeds change the crew one after the other. -/
theorem crew_after (root : Path) (listing : Listing) (house : House) (deeds : List Deed) :
    (house.after root listing deeds).crew =
      deeds.foldl (fun crew deed => deed.change crew) house.crew := by
  induction deeds generalizing house with
  | nil => rfl
  | cons deed deeds ih =>
    rw [House.after, List.foldl_cons, ← House.after, ih, Deed.crew_perform, List.foldl_cons]

/-! ## Clones -/

/-- One more deed brings at most one more janitor. -/
theorem origins_concat (deeds : List Deed) (deed : Deed) :
    origins (deeds ++ [deed]) = origins deeds ++ deed.origin?.toList := by
  rw [origins, origins, List.filterMap_append, List.cons_append]
  cases horigin : deed.origin? <;> simp [horigin]

/-- One more deed ends at most one more janitor. -/
theorem hasEnded_concat_iff :
    HasEnded (deeds ++ [deed]) janitor ↔ HasEnded deeds janitor ∨ deed.ends? = some janitor := by
  simp only [HasEnded, List.mem_append, List.mem_singleton, or_and_right, exists_or,
    exists_eq_left]

/-- Who is kin depends only on where the janitors come from. -/
theorem kin_congr (h : origins deeds = origins more) : Kin deeds = Kin more := by
  have hclone : IsClone deeds = IsClone more := by
    funext parent child
    rw [IsClone, IsClone, h]
  rw [Kin, Kin, hclone]

/-- What a crew knows of the deeds: the number of a family is that of a janitor who belongs to it,
clones belong to the families of their parents, and the families in which someone has ended are
finished. -/
structure Reflects (deeds : List Deed) (crew : Crew) : Prop where
  count : crew.families.length = (origins deeds).length
  parent_lt : ∀ {parent child}, IsClone deeds parent child → parent < child
  clone : ∀ {parent child}, IsClone deeds parent child →
    crew.familyOf child = crew.familyOf parent
  founder : ∀ janitor < (origins deeds).length, Kin deeds (crew.familyOf janitor) janitor
  ended_lt : ∀ {janitor}, HasEnded deeds janitor → janitor < (origins deeds).length
  finished : ∀ {family}, family ∈ crew.finished ↔
    ∃ janitor, HasEnded deeds janitor ∧ crew.familyOf janitor = family

namespace Reflects

/-- The first janitor is alone, and has not ended. -/
theorem single : Reflects [] Crew.single where
  count := rfl
  parent_lt {parent child} h := by
    rw [IsClone, origins, List.filterMap_nil, List.getElem?_singleton] at h
    split_ifs at h
    cases h
  clone {parent child} h := by
    rw [IsClone, origins, List.filterMap_nil, List.getElem?_singleton] at h
    split_ifs at h
    cases h
  founder janitor h := by
    obtain rfl : janitor = 0 := Nat.lt_one_iff.mp h
    exact .refl 0
  ended_lt {janitor} h := by
    obtain ⟨deed, hmem, -⟩ := h
    cases hmem
  finished {family} := by
    refine iff_of_false List.not_mem_nil ?_
    rintro ⟨janitor, ⟨deed, hmem, -⟩, -⟩
    cases hmem

/-- Kin are of one family. -/
theorem familyOf_eq (h : Reflects deeds crew) (hkin : Kin deeds janitor other) :
    crew.familyOf janitor = crew.familyOf other := by
  induction hkin with
  | rel _ _ hclone => exact (h.clone hclone).symm
  | refl => rfl
  | symm _ _ _ ih => exact ih.symm
  | trans _ _ _ _ _ hfirst hsecond => exact hfirst.trans hsecond

/-- Janitors are kin exactly when they belong to one family. -/
theorem kin_iff (h : Reflects deeds crew) (hjanitor : janitor < (origins deeds).length)
    (hother : other < (origins deeds).length) :
    Kin deeds janitor other ↔ crew.familyOf janitor = crew.familyOf other := by
  refine ⟨h.familyOf_eq, fun hfamily => ?_⟩
  exact .trans _ _ _ (.symm _ _ (h.founder janitor hjanitor)) (hfamily ▸ h.founder other hother)

/-- A family is finished once one of its janitors has ended. -/
theorem mem_finished_iff (h : Reflects deeds crew) (hjanitor : janitor < (origins deeds).length) :
    crew.familyOf janitor ∈ crew.finished ↔ ∃ other, Kin deeds janitor other ∧
      HasEnded deeds other := by
  rw [h.finished]
  constructor
  · rintro ⟨other, hended, hfamily⟩
    exact ⟨other, (h.kin_iff hjanitor (h.ended_lt hended)).mpr hfamily.symm, hended⟩
  · rintro ⟨other, hkin, hended⟩
    exact ⟨other, hended, (h.familyOf_eq hkin).symm⟩

/-- A janitor comes: a clone into the family of its parent, and anyone else into a new one. -/
theorem joined (h : Reflects deeds crew) (horigin : deed.origin? = some origin)
    (hends : deed.ends? = none) (hclone : ∀ parent, origin = some parent →
      parent < (origins deeds).length ∧ family = crew.familyOf parent)
    (hhire : origin = none → family = crew.families.length) :
    Reflects (deeds ++ [deed]) (crew.joined family) := by
  have horigins : origins (deeds ++ [deed]) = origins deeds ++ [origin] := by
    rw [origins_concat, horigin, Option.toList_some]
  have hended {janitor : ℕ} : HasEnded (deeds ++ [deed]) janitor ↔ HasEnded deeds janitor := by
    simp [hasEnded_concat_iff, hends]
  -- the families of those who are there stay as they are
  have hknown {janitor : ℕ} (hjanitor : janitor < (origins deeds).length) :
      (crew.joined family).familyOf janitor = crew.familyOf janitor :=
    Crew.familyOf_joined_of_lt (h.count ▸ hjanitor)
  have hnew : (crew.joined family).familyOf (origins deeds).length = family := by
    rw [← h.count, Crew.familyOf_joined_self]
  -- a clone is one that was there before, or the janitor who comes
  have hcases {parent child : ℕ} : IsClone (deeds ++ [deed]) parent child ↔
      IsClone deeds parent child ∨ child = (origins deeds).length ∧ origin = some parent := by
    rw [IsClone, IsClone, horigins, List.getElem?_append]
    split_ifs with hlt
    · exact (or_iff_left fun hchild => absurd hlt (by omega)).symm
    · rw [List.getElem?_singleton, List.getElem?_eq_none (not_lt.mp hlt)]
      split_ifs with hzero
      · simp only [Option.some.injEq, false_or]
        exact ⟨fun heq => ⟨by omega, heq⟩, fun heq => heq.2⟩
      · simp only [false_or, false_iff, not_and]
        intro hchild
        omega
  have hkin {left right : ℕ} (hkin : Kin deeds left right) : Kin (deeds ++ [deed]) left right :=
    hkin.mono fun _ _ hclone => hcases.mpr (.inl hclone)
  have hlt {parent child : ℕ} (hclone : IsClone deeds parent child) :
      child < (origins deeds).length := (List.getElem?_eq_some_iff.mp hclone).1
  refine ⟨?_, ?_, ?_, ?_, ?_, ?_⟩
  · rw [Crew.joined, List.length_append, horigins, List.length_append, h.count]
    rfl
  · intro parent child hchild
    rcases hcases.mp hchild with hold | ⟨rfl, horigin⟩
    · exact h.parent_lt hold
    · exact (hclone parent horigin).1
  · intro parent child hchild
    rcases hcases.mp hchild with hold | ⟨rfl, horigin⟩
    · rw [hknown (hlt hold), hknown ((h.parent_lt hold).trans (hlt hold)), h.clone hold]
    · rw [hnew, hknown (hclone parent horigin).1, (hclone parent horigin).2]
  · intro janitor hjanitor
    rw [horigins, List.length_append, List.length_singleton, Nat.lt_succ_iff_lt_or_eq] at hjanitor
    rcases hjanitor with hold | rfl
    · rw [hknown hold]
      exact hkin (h.founder janitor hold)
    · rw [hnew]
      cases horigin : origin with
      | none =>
        rw [hhire horigin, h.count]
        exact .refl _
      | some parent =>
        obtain ⟨hparent, hfamily⟩ := hclone parent horigin
        rw [hfamily]
        exact .trans _ _ _ (hkin (h.founder parent hparent))
          (.rel _ _ (hcases.mpr (.inr ⟨rfl, horigin⟩)))
  · intro janitor hjanitor
    rw [horigins, List.length_append]
    exact (h.ended_lt (hended.mp hjanitor)).trans_le (Nat.le_add_right _ _)
  · intro other
    refine h.finished.trans (exists_congr fun janitor => ?_)
    rw [hended]
    exact and_congr_right fun hjanitor => by rw [hknown (h.ended_lt hjanitor)]

/-- Nobody comes, and perhaps someone ends. -/
theorem stays {changed : Crew} (h : Reflects deeds crew) (horigin : deed.origin? = none)
    (hends : ∀ janitor ∈ deed.ends?, janitor < (origins deeds).length)
    (hfamilies : changed.families = crew.families)
    (hfinished : ∀ family, family ∈ changed.finished ↔ family ∈ crew.finished ∨
      ∃ janitor ∈ deed.ends?, crew.familyOf janitor = family) :
    Reflects (deeds ++ [deed]) changed := by
  have horigins : origins (deeds ++ [deed]) = origins deeds := by
    rw [origins_concat, horigin, Option.toList_none, List.append_nil]
  have hfamilyOf (janitor : ℕ) : changed.familyOf janitor = crew.familyOf janitor := by
    rw [Crew.familyOf, Crew.familyOf, hfamilies]
  refine ⟨?_, ?_, ?_, ?_, ?_, ?_⟩
  · rw [hfamilies, horigins, h.count]
  · intro parent child hclone
    rw [IsClone, horigins] at hclone
    exact h.parent_lt hclone
  · intro parent child hclone
    rw [IsClone, horigins] at hclone
    rw [hfamilyOf, hfamilyOf, h.clone hclone]
  · rw [horigins, kin_congr horigins]
    intro janitor hjanitor
    rw [hfamilyOf]
    exact h.founder janitor hjanitor
  · rw [horigins]
    intro janitor hjanitor
    rcases hasEnded_concat_iff.mp hjanitor with hold | hnew
    · exact h.ended_lt hold
    · exact hends janitor hnew
  · intro family
    simp only [hfinished, h.finished, hasEnded_concat_iff, hfamilyOf, or_and_right, exists_or,
      Option.mem_def]

/-- A deed changes the crew and what it reflects alike, one case for each kind of deed. -/
theorem change (h : Reflects deeds crew)
    (hdeed : ∀ janitor ∈ deed.janitor?, janitor < (origins deeds).length) :
    Reflects (deeds ++ [deed]) (deed.change crew) := by
  cases deed with
  | clone parent =>
    refine h.joined rfl rfl (fun other hother => ?_) fun hnone => by cases hnone
    obtain rfl := Option.some.inj hother
    exact ⟨hdeed parent rfl, rfl⟩
  | hire => exact h.joined rfl rfl (fun _ hsome => by cases hsome) fun _ => rfl
  | finish janitor | guard janitor outcome =>
    refine h.stays rfl hdeed (Crew.families_ended crew janitor) fun family => ?_
    simp [Deed.change, Crew.mem_finished_ended, Deed.ends?]
  | sweep | others =>
    refine h.stays rfl (fun _ hmem => by cases hmem) rfl fun family => ?_
    simp [Deed.change, Deed.ends?]

/-- The crew goes on reflecting what is done. -/
theorem foldl (h : Reflects deeds crew) (hsound : AreSound (origins deeds).length more) :
    Reflects (deeds ++ more) (more.foldl (fun crew deed => deed.change crew) crew) := by
  induction more generalizing deeds crew with
  | nil => rwa [List.append_nil]
  | cons deed more ih =>
    obtain ⟨hdeed, hmore⟩ := hsound
    rw [List.append_cons]
    refine ih (h.change hdeed) ?_
    rwa [origins_concat, List.length_append]

end Reflects

/-! ## Ends -/

/-- Whether a janitor or someone of its kin has ended. -/
def IsDone (deeds : List Deed) (janitor : ℕ) : Prop :=
  ∃ other, Kin deeds janitor other ∧ HasEnded deeds other

/-- What happened to the janitors of a house in which there was one in the beginning. -/
theorem reflects_after (root : Path) (listing : Listing) (scene : Scene)
    (hsound : AreSound 1 deeds) :
    Reflects deeds (House.after root listing ⟨.single, scene⟩ deeds).crew := by
  rw [crew_after]
  exact Reflects.single.foldl hsound

/-- Nothing but the kin that have ended decides whether a janitor sweeps at its end. -/
theorem mem_finished_after (root : Path) (listing : Listing) (scene : Scene)
    (hsound : AreSound 1 deeds) (hjanitor : janitor < (origins deeds).length) :
    let crew := (House.after root listing ⟨.single, scene⟩ deeds).crew
    crew.familyOf janitor ∈ crew.finished ↔ IsDone deeds janitor :=
  (reflects_after root listing scene hsound).mem_finished_iff hjanitor

section

variable {before later : List Deed} {idle : Deed} (horigin : idle.origin? = none)

include horigin

/-- Leaving out a deed that brings no janitor changes no origin. -/
theorem origins_skip : origins (before ++ idle :: later) = origins (before ++ later) := by
  rw [origins, origins, List.filterMap_append, List.filterMap_append,
    List.filterMap_cons_none horigin]

/-- Deeds stay sound without such a deed. -/
theorem AreSound.skip {count : ℕ} (h : AreSound count (before ++ idle :: later)) :
    AreSound count (before ++ later) := by
  induction before generalizing count with
  | nil =>
    have hlater := h.2
    rwa [horigin] at hlater
  | cons deed before ih => exact ⟨h.1, ih h.2⟩

/-- Without the end of someone else, a janitor's kin have ended as before. -/
theorem isDone_skip_iff
    (hother : ∀ other ∈ idle.ends?, ¬Kin (before ++ idle :: later) janitor other) :
    IsDone (before ++ later) janitor ↔ IsDone (before ++ idle :: later) janitor := by
  have hkin : Kin (before ++ idle :: later) = Kin (before ++ later) :=
    kin_congr (origins_skip horigin)
  refine exists_congr fun other => ?_
  rw [← hkin]
  refine and_congr_right fun hrelated => ?_
  constructor
  · rintro ⟨deed, hmem, hends⟩
    exact ⟨deed, ((List.sublist_cons_self idle later).append_left before).mem hmem, hends⟩
  · rintro ⟨deed, hmem, hends⟩
    rcases List.mem_append.mp hmem with hbefore | hmem
    · exact ⟨deed, List.mem_append_left _ hbefore, hends⟩
    · rcases List.mem_cons.mp hmem with rfl | hlater
      · exact absurd hrelated (hother other hends)
      · exact ⟨deed, List.mem_append_right _ hlater, hends⟩

end

/-- The first janitor that ends among its kin sweeps the mailbox and says so. Those that end later
say that they did not, and leave everything as it is. A sweep sweeps whenever it is asked for. What
a janitor says at its end would be the same without a sweep, a change of files or the end of a
janitor that is no kin. -/
theorem ends_once (root : Path) (listing : Listing) (scene : Scene) (hsound : AreSound 1 deeds)
    (hjanitor : janitor < (origins deeds).length) :
    let house := House.after root listing ⟨.single, scene⟩ deeds
    (∀ deed : Deed, deed.ends? = some janitor →
      let ended := deed.perform root listing house
      (ended.1 = some true ∧ ¬IsDone deeds janitor ∧
          ∃ report, Sweeps root house.scene ended.2.scene report) ∨
        ended.1 = some false ∧ IsDone deeds janitor ∧ ended.2.scene = house.scene) ∧
    (∃ report, Sweeps root house.scene
      ((Deed.sweep janitor).perform root listing house).2.scene report) ∧
    ∀ before idle later, deeds = before ++ idle :: later → idle.origin? = none →
      (∀ other ∈ idle.ends?, ¬Kin deeds janitor other) →
      ∀ deed : Deed, deed.ends? = some janitor →
        (deed.perform root listing
          (House.after root listing ⟨.single, scene⟩ (before ++ later))).1 =
        (deed.perform root listing house).1 := by
  intro house
  have hfinished := mem_finished_after root listing scene hsound hjanitor
  refine ⟨fun deed hends => ?_, Deed.scene_sweep root listing house janitor, ?_⟩
  · rw [Deed.perform_of_ends root listing house hends]
    by_cases hdone : IsDone deeds janitor
    · have hmem := hfinished.mpr hdone
      exact .inr ⟨by rw [decide_eq_false (not_not.mpr hmem)], hdone, if_pos hmem⟩
    · have hmem := mt hfinished.mp hdone
      refine .inl ⟨by rw [decide_eq_true hmem], hdone, ?_⟩
      dsimp only
      rw [if_neg hmem]
      exact ⟨_, Stage.sweep_sweeps (.opening house.scene [] listing) rfl root⟩
  · rintro before idle later rfl horigin hother deed hends
    rw [Deed.perform_of_ends root listing _ hends, Deed.perform_of_ends root listing _ hends]
    have hskipped := mem_finished_after root listing scene (hsound.skip horigin)
      (origins_skip horigin ▸ hjanitor)
    rw [Option.some.injEq, decide_eq_decide]
    exact not_congr (hskipped.trans ((isDone_skip_iff horigin hother).trans hfinished.symm))

/-- The guard of a clone has been dropped by a panic, and then an old request has been written: the
first janitor leaves it there, and one that is no kin takes it away. -/
theorem ends_once_panicked :
    let root : Path := ⟨"t"⟩
    let deeds : List Deed :=
      [.clone 0, .hire, .guard 1 (.error .exhausted), .others ⟨Program.staleMailbox, false⟩]
    let house := House.after root .plain ⟨.single, ⟨Program.emptyMailbox, false⟩⟩ deeds
    (IsDone deeds 0 ∧ ((Deed.finish 0).perform root .plain house).2.scene = house.scene) ∧
      ¬IsDone deeds 2 ∧ ((Deed.finish 2).perform root .plain house).1 = some true ∧
        ((Deed.finish 2).perform root .plain house).2.scene.disk.at? ["t", "in0.txt"] = none := by
  intro root deeds house
  have hsound : AreSound 1 deeds := by
    simp [deeds, AreSound, Deed.janitor?, Deed.origin?]
  have hfirst := (ends_once root .plain ⟨Program.emptyMailbox, false⟩ hsound
    (by decide : 0 < (origins deeds).length)).1 (.finish 0) rfl
  have hlast := (ends_once root .plain ⟨Program.emptyMailbox, false⟩ hsound
    (by decide : 2 < (origins deeds).length)).1 (.finish 2) rfl
  have hleft : ((Deed.finish 0).perform root .plain house).1 = some false := by decide +kernel
  have hswept : ((Deed.finish 2).perform root .plain house).1 = some true := by decide +kernel
  rcases hfirst with ⟨htold, -⟩ | ⟨-, hdone, hsame⟩
  · cases hleft.symm.trans htold
  rcases hlast with ⟨-, hnew, -⟩ | ⟨htold, -⟩
  · exact ⟨⟨hdone, hsame⟩, hnew, hswept, by decide +kernel⟩
  · cases hswept.symm.trans htold

/-- The first janitor that ends says that it has swept, even where it has to leave a file. -/
theorem finish_of_long (hroot : root.fault? = none)
    (hleads : Program.staleMailbox.Leads root ["t"]) (hlong : ¬IsShort root "in0.txt") :
    let ended := (Deed.finish 0).perform root .plain ⟨.single, ⟨Program.staleMailbox, false⟩⟩
    Program.staleMailbox.list root = .ok [("in0.txt", .file (Text.Utf8.encode "old"))] ∧
      ended.1 = some true ∧
      ended.2.scene.disk.at? ["t", "in0.txt"] = some (.file (Text.Utf8.encode "old")) := by
  intro ended
  have hlist : Program.staleMailbox.list root =
      .ok [("in0.txt", .file (Text.Utf8.encode "old"))] :=
    Disk.list_eq_ok_iff.mpr ⟨hroot, ["t"], hleads, by decide +kernel⟩
  have hsweeps := Stage.sweep_sweeps (.opening ⟨Program.staleMailbox, false⟩ [] .plain) rfl root
  obtain ⟨directory, hdirectory, hcleans⟩ := hsweeps.listed _ hlist
  obtain rfl := hdirectory.unique hleads
  have hkept := hcleans.kept ["t", "in0.txt"] fun name _ hshort heq => by
    obtain rfl : "in0.txt" = name := by simpa using heq
    exact hlong hshort
  have hfile : Program.staleMailbox.at? ["t", "in0.txt"] =
      some (.file (Text.Utf8.encode "old")) := by decide +kernel
  exact ⟨hlist, rfl, hkept.trans hfile⟩

/-- So it does below a path that is just short enough for the machine. -/
theorem finish_keeps_slashed :
    let root : Path := ⟨Program.slashed 4094⟩
    let ended := (Deed.finish 0).perform root .plain ⟨.single, ⟨Program.staleMailbox, false⟩⟩
    HasExchangeForm "in0.txt" ∧
      Program.staleMailbox.list root = .ok [("in0.txt", .file (Text.Utf8.encode "old"))] ∧
      ended.1 = some true ∧
      ended.2.scene.disk.at? ["t", "in0.txt"] = some (.file (Text.Utf8.encode "old")) := by
  intro root
  have hname : isExchangeName "in0.txt" = true := by decide +kernel
  have hroot : root.fault? = none := by
    rw [Program.fault?_slashed]
    rfl
  have hlong : ¬IsShort root "in0.txt" := fun hshort =>
    Program.not_isFit_slashed rfl hname ((isFit_iff_isShort hname hroot).mpr hshort)
  have hleads : Program.staleMailbox.Leads root ["t"] := Program.leads_slashed 4094
  clear_value root
  exact ⟨hasExchangeForm_iff.mpr hname, finish_of_long hroot hleads hlong⟩

end Mailbox

end ScriptMailbox

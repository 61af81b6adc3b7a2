import Crew.Proofs.Submission.Forms

/-!
# Both shapes of a submission mean the same

A list of descriptions can be submitted as it is or wrapped into an object. Either way the same
descriptions are read (`Submission.forms_array`, `Submission.forms_wrap`), and they are screened in
their order up to the first that is not sound (`Submission.screened_mapM`). Both are said of tasks
and of workers in `Submission.shapes_agree`.

Of texts that no list of descriptions was written as nothing is said but that it makes no difference
to them whether an array is looked for in memory first (`Submission.forms_eq_bare_or_wrapped`).
-/

namespace Crew

open Json

-- ---------------------------------------------------------------------------
-- Sound descriptions
-- ---------------------------------------------------------------------------

section
open Float.Model

theorem unpack_zero : (0.0 : Float).toModel.unpack = .zero .positive := by
  with_unfolding_all rfl

theorem zero_le_iff {x : Float} (h : x.isFinite = true) : 0.0 ≤ x ↔ ¬ x < 0.0 := by
  have hle : 0.0 ≤ x ↔
      ((UnpackedFloat.zero .positive).compare x.toModel.unpack).any (·.isLE) = true := by
    rw [← unpack_zero]
    exact decide_eq_true_iff
  have hlt : x < 0.0 ↔ (x.toModel.unpack.compare (.zero .positive) == some .lt) = true := by
    rw [← unpack_zero]
    exact decide_eq_true_iff
  have hfinite : x.toModel.unpack.isFinite = true := h
  rw [hle, hlt]
  cases hx : x.toModel.unpack with
  | notANumber | infinity s => rw [hx] at hfinite; cases hfinite
  | zero s => exact iff_of_true rfl Bool.false_ne_true
  | finite s m e hm =>
    cases s with
    | positive => exact iff_of_true rfl Bool.false_ne_true
    | negative => exact iff_of_false Bool.false_ne_true fun h => h rfl

end

namespace TaskForm

/-- There is time for the task, and at least one worker. -/
structure Sound (f : TaskForm) : Prop where
  timely : 0 < f.timeout
  staffed : f.redundancy ≠ some 0

instance : DecidablePred Sound := fun f =>
  decidable_of_iff (0 < f.timeout ∧ f.redundancy ≠ some 0)
    ⟨fun ⟨ht, hs⟩ => ⟨ht, hs⟩, fun h => ⟨h.timely, h.staffed⟩⟩

/-- What is wrong with a description that is not sound; the time is looked at first. -/
def flaw (f : TaskForm) : FormFlaw := if f.timeout = 0 then .noTime f.id else .noWorker f.id

structure Describes (f : TaskForm) (task : Task) : Prop where
  id : task.id = f.id
  capability : task.capability = f.capability
  payload : task.payload = f.payload
  dependencies : task.dependencies = f.dependencies
  priority : task.priority = f.priority
  maxRetries : task.maxRetries = f.maxRetries
  timeout : task.timeout = f.timeout
  redundancy : task.redundancy = f.redundancy

theorem toTask_of_sound {f : TaskForm} (h : f.Sound) :
    ∃ task, f.toTask = .ok task ∧ f.Describes task := by
  have htask : f.toTask = .ok _ :=
    (if_neg (Nat.ne_of_gt h.timely)).trans (if_neg h.staffed)
  exact ⟨_, htask, rfl, rfl, rfl, rfl, rfl, rfl, rfl, rfl⟩

theorem toTask_of_not_sound {f : TaskForm} (h : ¬ f.Sound) : f.toTask = .error f.flaw := by
  by_cases ht : f.timeout = 0
  · rw [toTask, flaw, if_pos ht, if_pos ht]
  · have hnone : f.redundancy = some 0 := by
      by_contra hs
      exact h ⟨Nat.pos_of_ne_zero ht, hs⟩
    rw [toTask, flaw, if_neg ht, if_neg ht, if_pos hnone]

end TaskForm

namespace WorkerSpec

/-- The worker has a name, and its trust weight is not negative. -/
structure Sound (spec : WorkerSpec) : Prop where
  named : Text.isBlankText spec.workerId = false
  trusted : 0.0 ≤ spec.trustWeight

instance : DecidablePred Sound := fun spec =>
  decidable_of_iff (Text.isBlankText spec.workerId = false ∧ 0.0 ≤ spec.trustWeight)
    ⟨fun ⟨hn, ht⟩ => ⟨hn, ht⟩, fun h => ⟨h.named, h.trusted⟩⟩

def flaw (spec : WorkerSpec) : FormFlaw :=
  if Text.isBlankText spec.workerId then .unnamedWorker else .badTrust spec.workerId

variable {spec : WorkerSpec}

theorem check_of_sound (hf : spec.trustWeight.isFinite = true) (h : spec.Sound) :
    spec.check = .ok () := by
  have htrust : ¬ (!spec.trustWeight.isFinite || decide (spec.trustWeight < 0.0)) = true := by
    simp [hf, (zero_le_iff hf).mp h.trusted]
  rw [check, if_neg (by simp [h.named]), if_neg htrust]

theorem check_of_not_sound (hf : spec.trustWeight.isFinite = true) (h : ¬ spec.Sound) :
    spec.check = .error spec.flaw := by
  by_cases hn : Text.isBlankText spec.workerId = true
  · rw [check, flaw, if_pos hn, if_pos hn]
  · have htrust : spec.trustWeight < 0.0 := by
      by_contra ht
      exact h ⟨Bool.eq_false_iff.mpr hn, (zero_le_iff hf).mpr ht⟩
    rw [check, flaw, if_neg hn, if_neg hn, if_pos (by simp [htrust])]

end WorkerSpec

namespace Submission

-- ---------------------------------------------------------------------------
-- Screening
-- ---------------------------------------------------------------------------

section
variable {α β : Type} {sound : α → Prop} {flaw : α → FormFlaw} {makes : α → β → Prop}
  {check : α → Except FormFlaw β} {forms : List α}

/-- The answer to a list of descriptions: what each of them makes, in their order, exactly if all
are sound, and otherwise what is wrong with the first that is not. -/
structure Screened (sound : α → Prop) (flaw : α → FormFlaw) (makes : α → β → Prop)
    (forms : List α) (answer : Except SubmissionError (List β)) : Prop where
  accepted : (∃ results, answer = .ok results) ↔ ∀ f ∈ forms, sound f
  kept : ∀ results, answer = .ok results → List.Forall₂ makes forms results
  refused : (¬ ∀ f ∈ forms, sound f) → ∃ before f after, forms = before ++ f :: after ∧
    (∀ g ∈ before, sound g) ∧ ¬ sound f ∧ answer = .error (.flaw (flaw f))

theorem mapM_of_sound (hcheck : ∀ f ∈ forms, sound f → ∃ b, check f = .ok b ∧ makes f b)
    (h : ∀ f ∈ forms, sound f) :
    ∃ results, forms.mapM check = .ok results ∧ List.Forall₂ makes forms results := by
  induction forms with
  | nil => exact ⟨[], rfl, .nil⟩
  | cons f forms ih =>
    obtain ⟨hf, hforms⟩ := List.forall_mem_cons.mp h
    obtain ⟨hcf, hcforms⟩ := List.forall_mem_cons.mp hcheck
    obtain ⟨b, hb, hmakes⟩ := hcf hf
    obtain ⟨results, hresults, hall⟩ := ih hcforms hforms
    refine ⟨b :: results, ?_, .cons hmakes hall⟩
    rw [List.mapM_cons]
    exact bind_eq_ok.mpr ⟨b, hb, bind_eq_ok.mpr ⟨results, hresults, rfl⟩⟩

theorem mapM_of_not_sound (hok : ∀ f ∈ forms, sound f → ∃ b, check f = .ok b ∧ makes f b)
    (hbad : ∀ f ∈ forms, ¬ sound f → check f = .error (flaw f)) (h : ¬ ∀ f ∈ forms, sound f) :
    ∃ before f after, forms = before ++ f :: after ∧ (∀ g ∈ before, sound g) ∧ ¬ sound f ∧
      forms.mapM check = .error (flaw f) := by
  induction forms with
  | nil => exact absurd (List.forall_mem_nil _) h
  | cons f forms ih =>
    obtain ⟨hokf, hoks⟩ := List.forall_mem_cons.mp hok
    obtain ⟨hbadf, hbads⟩ := List.forall_mem_cons.mp hbad
    by_cases hf : sound f
    · obtain ⟨b, hb, -⟩ := hokf hf
      obtain ⟨before, g, after, rfl, hbefore, hg, herror⟩ :=
        ih hoks hbads fun hall => h (List.forall_mem_cons.mpr ⟨hf, hall⟩)
      refine ⟨f :: before, g, after, rfl, List.forall_mem_cons.mpr ⟨hf, hbefore⟩, hg, ?_⟩
      rw [List.mapM_cons, hb, herror]
      rfl
    · refine ⟨[], f, forms, rfl, List.forall_mem_nil _, hf, ?_⟩
      rw [List.mapM_cons, hbadf hf]
      rfl

theorem screened_mapM (hok : ∀ f ∈ forms, sound f → ∃ b, check f = .ok b ∧ makes f b)
    (hbad : ∀ f ∈ forms, ¬ sound f → check f = .error (flaw f)) :
    Screened sound flaw makes forms ((forms.mapM check).mapError .flaw) := by
  by_cases h : ∀ f ∈ forms, sound f
  · obtain ⟨results, hresults, hall⟩ := mapM_of_sound hok h
    rw [hresults]
    refine ⟨⟨fun _ => h, fun _ => ⟨results, rfl⟩⟩, fun results' he => ?_, fun hn => absurd h hn⟩
    cases he
    exact hall
  · obtain ⟨before, f, after, hforms, hbefore, hf, herror⟩ := mapM_of_not_sound hok hbad h
    rw [herror]
    exact ⟨⟨fun ⟨_, he⟩ => (nomatch he), fun hall => absurd hall h⟩, nofun,
      fun _ => ⟨before, f, after, hforms, hbefore, hf, rfl⟩⟩

/-- To look at every item and keep the list is to keep every item that was looked at. -/
theorem forM_eq_mapM {ε : Type} (check : α → Except ε Unit) (items : List α) :
    (items.mapM fun item => (check item).map fun _ => item) =
      (items.forM check).map fun _ => items := by
  induction items with
  | nil => rfl
  | cons item items ih =>
    have hcons : (item :: items).forM check = check item >>= fun _ => items.forM check := rfl
    rw [List.mapM_cons, ih, hcons]
    cases check item with
    | error e => rfl
    | ok _ => cases items.forM check <;> rfl

end

-- ---------------------------------------------------------------------------
-- Shapes
-- ---------------------------------------------------------------------------

def wrap (key : String) (items : List Json) : Json := .object [(key, .array items)]

section
variable {α : Type} {key : String} {d : Decoder α} {items : List Json} {values : List α}

theorem legible_array (h : (wrap key items).Legible) : (Json.array items).Legible :=
  ⟨fun n hn => h.numbers n (List.mem_append_left _ hn),
    (Nat.le_max_left _ _).trans ((Nat.le_succ _).trans h.depth)⟩

theorem wrapped_array (h : (Json.array items).Legible) :
    wrapped key d (Json.array items).compact = none := by
  unfold wrapped
  rw [Outline.ofText_compact _ fun n hn => (h.numbers n hn).lasts]
  rfl

/-- The array that a text is, if it can be taken into memory as a whole. -/
def bare {α : Type} (d : Decoder α) (text : String) : Option (List α) :=
  match Outline.ofText text with
  | (outline, false) => (outline.buffer {} >>= d.list {}).toOption
  | _ => none

theorem bare_eq_some {text : String} (h : bare d text = some values) :
    ∃ outline, Outline.ofText text = (outline, false) ∧ d.list {} outline = .ok values := by
  unfold bare at h
  split at h
  next outline htext =>
    cases hread : outline.buffer {} >>= d.list {} with
    | error e =>
      rw [hread] at h
      cases h
    | ok found =>
      rw [hread] at h
      obtain rfl := Option.some.inj h
      obtain ⟨held, hheld, hlist⟩ := bind_eq_ok.mp hread
      -- what is held in memory is the outline itself
      obtain ⟨-, -, hsame⟩ := bind_eq_ok.mp hheld
      obtain rfl := Except.ok.inj hsame
      exact ⟨outline, htext, hlist⟩
  · cases h

/-- To look for an array in memory before anything else makes no difference. -/
theorem forms_eq_bare_or_wrapped (key : String) (d : Decoder α) (text : String) :
    forms key d text = match (bare d text).or (wrapped key d text) with
      | some forms => .ok forms
      | none => d.list.decodeText text := by
  cases hbare : bare d text with
  | none => rfl
  | some values =>
    obtain ⟨outline, htext, hlist⟩ := bare_eq_some hbare
    have hwrapped : wrapped key d text = none := by
      unfold wrapped
      rw [htext]
      cases outline with
      | object members stop => cases hlist
      | _ => rfl
    rw [forms, hwrapped]
    dsimp only [Option.some_or]
    rw [Decoder.decodeText, htext]
    dsimp only
    rw [hlist]
    rfl

theorem forms_array (h : (Json.array items).Legible) (hd : List.Forall₂ d.Reads items values) :
    forms key d (Json.array items).compact = .ok values := by
  unfold forms
  rw [wrapped_array h]
  dsimp only
  rw [Decoder.decodeText_compact _ h]
  exact Decoder.reads_list hd {} h.depth

theorem forms_wrap (h : (wrap key items).Legible) (hd : List.Forall₂ d.Reads items values) :
    forms key d (wrap key items).compact = .ok values := by
  have hbuffer : (Outline.ofJson (wrap key items)).buffer {} = .ok (.ofJson (wrap key items)) :=
    Outline.buffer_ofJson h.depth
  have honly : onlyMember key [(some key, .ofJson (.array items))] =
      some (.ofJson (.array items)) := by
    simp [onlyMember]
  have hlist : d.list ⟨.text, 126⟩ (.ofJson (.array items)) = .ok values :=
    Decoder.reads_list hd _ ((Nat.le_max_left _ _).trans (Nat.le_of_succ_le_succ h.depth))
  have hwrapped : wrapped key d (wrap key items).compact = some values := by
    unfold wrapped
    rw [Outline.ofText_compact _ fun n hn => (h.numbers n hn).lasts]
    show (do
      let _ ← ((Outline.ofJson (wrap key items)).buffer {}).toOption
      let value ← onlyMember key [(some key, .ofJson (.array items))]
      (d.list ⟨.text, 126⟩ value).toOption) = some values
    rw [hbuffer, honly]
    exact congrArg Except.toOption hlist
  rw [forms, hwrapped]

theorem forms_written {write : α → Json} (hreads : ∀ f ∈ values, d.Reads (write f) f)
    (hlegible : ∀ f ∈ values, ∀ n ∈ (write f).numbers, n.Legible)
    (hdepth : (wrap key (values.map write)).depth ≤ 127) :
    forms key d (wrap key (values.map write)).compact = .ok values ∧
      forms key d (Json.array (values.map write)).compact = .ok values := by
  have hd : List.Forall₂ d.Reads (values.map write) values :=
    List.forall₂_map_left_iff.mpr (List.forall₂_same.mpr hreads)
  have hnumbers : ∀ n ∈ (wrap key (values.map write)).numbers, n.Legible :=
    forall_mem_numbersOfMembers.mpr (List.forall_mem_singleton.mpr
      (forall_mem_numbersOfItems.mpr (List.forall_mem_map.mpr hlegible)))
  have hwrap : (wrap key (values.map write)).Legible := ⟨hnumbers, hdepth⟩
  exact ⟨forms_wrap hwrap hd, forms_array (legible_array hwrap) hd⟩

end

-- ---------------------------------------------------------------------------
-- Answers
-- ---------------------------------------------------------------------------

theorem parseTasks_of_forms {text : String} {fs : List TaskForm}
    (h : forms "tasks" TaskForm.decoder text = .ok fs) :
    parseTasks text = (fs.mapM TaskForm.toTask).mapError .flaw := by
  rw [parseTasks, h]
  rfl

def keep (spec : WorkerSpec) : Except FormFlaw WorkerSpec := spec.check.map fun _ => spec

theorem parseWorkers_of_forms {text : String} {specs : List WorkerSpec}
    (h : forms "workers" WorkerSpec.decoder text = .ok specs) :
    parseWorkers text = (specs.mapM keep).mapError .flaw := by
  have hkeep : specs.mapM keep = (specs.forM WorkerSpec.check).map fun _ => specs :=
    forM_eq_mapM WorkerSpec.check specs
  have hparse : parseWorkers text =
      ((specs.forM WorkerSpec.check).mapError .flaw).map fun _ => specs := by
    rw [parseWorkers, h]
    rfl
  rw [hparse, hkeep]
  cases specs.forM WorkerSpec.check <;> rfl

theorem screened_tasks (fs : List TaskForm) :
    Screened TaskForm.Sound TaskForm.flaw TaskForm.Describes fs
      ((fs.mapM TaskForm.toTask).mapError .flaw) :=
  screened_mapM (fun _ _ => TaskForm.toTask_of_sound) fun _ _ => TaskForm.toTask_of_not_sound

theorem screened_workers {specs : List WorkerSpec} (h : ∀ spec ∈ specs, spec.Writable) :
    Screened WorkerSpec.Sound WorkerSpec.flaw Eq specs ((specs.mapM keep).mapError .flaw) := by
  refine screened_mapM (fun spec hm hsound => ⟨spec, ?_, rfl⟩) fun spec hm hbad => ?_
  · rw [keep, WorkerSpec.check_of_sound (h spec hm).lasts.isFinite hsound]
    rfl
  · rw [keep, WorkerSpec.check_of_not_sound (h spec hm).lasts.isFinite hbad]
    rfl

/-- Bare and wrapped, the written list gets the same answer, and that is what screening says. -/
structure Agrees {α β : Type} (parse : String → Except SubmissionError (List β)) (key : String)
    (write : α → Json) (sound : α → Prop) (flaw : α → FormFlaw) (makes : α → β → Prop)
    (fs : List α) : Prop where
  same : parse (wrap key (fs.map write)).compact = parse (Json.array (fs.map write)).compact
  answer : Screened sound flaw makes fs (parse (Json.array (fs.map write)).compact)

/-- A list of descriptions of tasks, and one of workers, is answered alike in both shapes: by all
that it describes, or by what is wrong with the first description that is not sound. -/
theorem shapes_agree (fs : List TaskForm) (specs : List WorkerSpec)
    (hfs : ∀ f ∈ fs, f.Writable) (hspecs : ∀ spec ∈ specs, spec.Writable)
    (htasks : (wrap "tasks" (fs.map (·.toJson))).depth ≤ 127)
    (hworkers : (wrap "workers" (specs.map (·.toJson))).depth ≤ 127) :
    Agrees parseTasks "tasks" TaskForm.toJson TaskForm.Sound TaskForm.flaw TaskForm.Describes fs ∧
      Agrees parseWorkers "workers" WorkerSpec.toJson WorkerSpec.Sound WorkerSpec.flaw Eq
        specs := by
  obtain ⟨hwrap, hbare⟩ := forms_written (fun f hf => TaskForm.reads_toJson (hfs f hf))
    (fun f hf => TaskForm.legible_toJson (hfs f hf)) htasks
  obtain ⟨hwrap', hbare'⟩ := forms_written
    (fun spec hm => WorkerSpec.reads_toJson (hspecs spec hm))
    (fun spec hm => WorkerSpec.legible_toJson (hspecs spec hm)) hworkers
  refine ⟨⟨?_, ?_⟩, ?_, ?_⟩
  · rw [parseTasks_of_forms hwrap, parseTasks_of_forms hbare]
  · rw [parseTasks_of_forms hbare]
    exact screened_tasks fs
  · rw [parseWorkers_of_forms hwrap', parseWorkers_of_forms hbare']
  · rw [parseWorkers_of_forms hbare']
    exact screened_workers hspecs

def draftTasks : List TaskForm :=
  [{ id := "scan", capability := "lint",
     payload := .object [("depth", .number (.int 3)), ("share", .number (.real 0.5))],
     dependencies := ["fetch"], priority := .critical, timeout := 500, maxRetries := 2,
     redundancy := some 3 },
    { id := "fetch", capability := "net" }]

/-- The second worker has neither a name nor a trust weight that is allowed. -/
def draftWorkers : List WorkerSpec := [⟨"w", ["lint", "net"], 2.5⟩, ⟨" ", ["net"], -1.0⟩]

/-- Wrapped, the tasks are accepted as they are, and of the workers the one without a name is
reported. -/
theorem draft_answered :
    (∀ f ∈ draftTasks, f.Writable) ∧ (∀ spec ∈ draftWorkers, spec.Writable) ∧
      (wrap "tasks" (draftTasks.map (·.toJson))).depth ≤ 127 ∧
      (wrap "workers" (draftWorkers.map (·.toJson))).depth ≤ 127 ∧
      (∃ tasks, parseTasks (wrap "tasks" (draftTasks.map (·.toJson))).compact = .ok tasks ∧
        List.Forall₂ TaskForm.Describes draftTasks tasks) ∧
      parseWorkers (wrap "workers" (draftWorkers.map (·.toJson))).compact =
        .error (.flaw .unnamedWorker) := by
  have hfs : ∀ f ∈ draftTasks, f.Writable := by decide +kernel
  have hspecs : ∀ spec ∈ draftWorkers, spec.Writable := by decide +kernel
  have hdepth : (wrap "tasks" (draftTasks.map (·.toJson))).depth ≤ 127 := by decide +kernel
  have hdepth' : (wrap "workers" (draftWorkers.map (·.toJson))).depth ≤ 127 := by decide +kernel
  obtain ⟨htasks, hworkers⟩ := shapes_agree draftTasks draftWorkers hfs hspecs hdepth hdepth'
  obtain ⟨tasks, hok⟩ := htasks.answer.accepted.mpr (by decide +kernel)
  refine ⟨hfs, hspecs, hdepth, hdepth',
    ⟨tasks, htasks.same.trans hok, htasks.answer.kept tasks hok⟩, ?_⟩
  obtain ⟨before, spec, after, hsplit, -, hbad, herror⟩ :=
    hworkers.answer.refused (by decide +kernel)
  have hfirst : draftWorkers.filter (¬ ·.Sound) = [⟨" ", ["net"], -1.0⟩] := by decide +kernel
  have hspec : spec ∈ draftWorkers.filter (¬ ·.Sound) := by
    rw [hsplit]
    simp [hbad]
  rw [hfirst, List.mem_singleton] at hspec
  rw [hworkers.same, herror, hspec]
  decide +kernel

end Submission

end Crew

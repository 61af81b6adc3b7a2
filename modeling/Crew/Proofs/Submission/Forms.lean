import Crew.Proofs.Condensed
import Crew.Proofs.Json.Records
import Crew.Submission

/-!
# Descriptions are read as they are written

The description of a task or of a worker is read from its fields as it was written
(`TaskForm.reads_toJson`, `WorkerSpec.reads_toJson`). The counts of a task have to fit their words
and the keys within its payload to ascend; the capabilities of a worker have to ascend too.
-/

namespace Crew

open Json

theorem Priority.reads_toJson (p : Priority) : decoder.Reads p.toJson p :=
  Decoder.reads_named (by cases p <;> rfl)

-- ---------------------------------------------------------------------------
-- Texts in a row
-- ---------------------------------------------------------------------------

theorem reads_texts (texts : List String) :
    Decoder.string.list.Reads (.array (texts.map .string)) texts :=
  Decoder.reads_list (List.forall₂_map_left_iff.mpr
    (List.forall₂_same.mpr fun text _ => Decoder.reads_string text))

theorem legible_texts (texts : List String) :
    ∀ n ∈ (Json.array (texts.map .string)).numbers, n.Legible :=
  forall_mem_numbersOfItems.mpr (List.forall_mem_map.mpr fun _ _ => List.forall_mem_nil _)

theorem ascending_eq_self {texts : List String} (h : texts.Pairwise (· < ·)) :
    TaskGraph.ascending texts = texts := by
  rw [TaskGraph.ascending, eraseDups_of_nodup (h.imp String.ne_of_lt)]
  refine List.mergeSort_of_pairwise (h.imp fun hlt => ?_)
  simpa using String.lt_asymm hlt

-- ---------------------------------------------------------------------------
-- Tasks
-- ---------------------------------------------------------------------------

namespace TaskForm

/-- Every count fits its word, the keys within the payload ascend, and its numbers are read as
they are written. -/
structure Writable (f : TaskForm) : Prop where
  timeout : f.timeout < Nat.pow 2 64
  maxRetries : f.maxRetries < Nat.pow 2 32
  redundancy : ∀ n ∈ f.redundancy, n < Nat.pow 2 32
  ordered : f.payload.Ordered
  legible : ∀ n ∈ f.payload.numbers, n.Legible

instance : DecidablePred Writable := fun f =>
  decidable_of_iff (f.timeout < Nat.pow 2 64 ∧ f.maxRetries < Nat.pow 2 32 ∧
      (∀ n ∈ f.redundancy, n < Nat.pow 2 32) ∧ f.payload.Ordered ∧
      ∀ n ∈ f.payload.numbers, n.Legible)
    ⟨fun ⟨ht, hm, hr, ho, hl⟩ => ⟨ht, hm, hr, ho, hl⟩,
      fun h => ⟨h.timeout, h.maxRetries, h.redundancy, h.ordered, h.legible⟩⟩

variable {f : TaskForm}

theorem reads_redundancy (h : ∀ n ∈ f.redundancy, n < Nat.pow 2 32) :
    Decoder.u32.option.Reads (ofOption .nat f.redundancy) f.redundancy := by
  cases hr : f.redundancy with
  | none => exact Decoder.reads_option_null _
  | some n => exact Decoder.reads_option (Decoder.reads_u32 (h n hr)) Json.noConfusion

theorem reads_toJson (h : f.Writable) : decoder.Reads f.toJson f := by
  refine RecordShape.reads_object ⟨.refl _, by decide, by decide⟩ fun m hm => ?_
  unfold read
  rw [hm.required rfl (Decoder.reads_string f.id),
    hm.required rfl (Decoder.reads_string f.capability),
    hm.optional rfl (Decoder.reads_json h.ordered), hm.optional rfl (reads_texts f.dependencies),
    hm.optional rfl f.priority.reads_toJson, hm.optional rfl (Decoder.reads_u64 h.timeout),
    hm.optional rfl (Decoder.reads_u32 h.maxRetries),
    hm.optional rfl (reads_redundancy h.redundancy)]
  rfl

theorem legible_toJson (h : f.Writable) : ∀ n ∈ f.toJson.numbers, n.Legible := by
  have hword {n : Nat} (hn : n < Nat.pow 2 32) : (Number.int n).Legible :=
    Number.legible_nat (hn.trans (by decide))
  have hredundancy : ∀ n ∈ (ofOption Json.nat f.redundancy).numbers, n.Legible := by
    cases hr : f.redundancy with
    | none => exact List.forall_mem_nil _
    | some n => exact List.forall_mem_singleton.mpr (hword (h.redundancy n hr))
  refine forall_mem_numbersOfMembers.mpr ?_
  simp only [List.forall_mem_cons]
  exact ⟨List.forall_mem_nil _, List.forall_mem_nil _, h.legible, legible_texts _,
    List.forall_mem_nil _, List.forall_mem_singleton.mpr (Number.legible_nat h.timeout),
    List.forall_mem_singleton.mpr (hword h.maxRetries), hredundancy, List.forall_mem_nil _⟩

end TaskForm

-- ---------------------------------------------------------------------------
-- Workers
-- ---------------------------------------------------------------------------

namespace WorkerSpec

/-- The capabilities ascend, and the trust weight is a double that is read as it is written. -/
structure Writable (spec : WorkerSpec) : Prop where
  ascending : spec.capabilities.Pairwise (· < ·)
  lasts : (Number.real spec.trustWeight).Lasts

instance : DecidablePred Writable := fun spec =>
  decidable_of_iff
    (spec.capabilities.Pairwise (· < ·) ∧ (Number.real spec.trustWeight).Lasts)
    ⟨fun ⟨ha, hl⟩ => ⟨ha, hl⟩, fun h => ⟨h.ascending, h.lasts⟩⟩

variable {spec : WorkerSpec}

theorem reads_toJson (h : spec.Writable) : decoder.Reads spec.toJson spec := by
  refine RecordShape.reads_object ⟨.refl _, by decide, by decide⟩ fun m hm => ?_
  unfold read
  rw [hm.required rfl (Decoder.reads_string spec.workerId),
    hm.required rfl (reads_texts spec.capabilities),
    hm.optional rfl (Decoder.reads_f64 spec.trustWeight)]
  have hsame : ofCapabilities spec.workerId spec.capabilities spec.trustWeight = spec := by
    rw [ofCapabilities, ascending_eq_self h.ascending]
  exact congrArg Positioned.pure hsame

theorem legible_toJson (h : spec.Writable) : ∀ n ∈ spec.toJson.numbers, n.Legible := by
  refine forall_mem_numbersOfMembers.mpr ?_
  simp only [members, List.forall_mem_cons]
  exact ⟨List.forall_mem_nil _, legible_texts _, List.forall_mem_singleton.mpr h.lasts,
    List.forall_mem_nil _⟩

end WorkerSpec

end Crew

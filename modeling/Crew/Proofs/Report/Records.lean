import Crew.Proofs.Event.Written

/-!
# Records of results are read as they are written

Outcomes name their kind beside their content, reasons for skipping among their fields, and
strategies stand as words, also as keys of the counts in a summary. All of them come back from
their texts (`records_survive`). A payload may be `null` everywhere: where one has to be given,
`null` is not taken for its absence.

A weight that is no number, or not finite, has no text of its own. Nothing is said of records that
give one.
-/

namespace Crew

open Json

namespace Outcome

def Ordered (o : Outcome) : Prop := ∀ payload ∈ o.payload?, payload.Ordered

instance : DecidablePred Ordered := fun o =>
  inferInstanceAs (Decidable (∀ payload ∈ o.payload?, payload.Ordered))

theorem reads_toJson (o : Outcome) (h : o.Ordered) : decoder.Reads o.toJson o := by
  cases o with
  | success payload =>
    refine Decoder.reads_adjacent rfl (by decide) fun ctx hd => ?_
    exact congrArg (·.map success) (Decoder.reads_json (h payload rfl) ctx hd)
  | failure message => exact Decoder.reads_adjacent rfl (by decide) fun _ _ => rfl
  | timedOut => exact Decoder.reads_adjacent_bare rfl rfl

end Outcome

namespace TaskResult

structure Writable (r : TaskResult) : Prop where
  attempt : r.attempt < Nat.pow 2 32
  duration : r.duration < Nat.pow 2 64
  outcome : r.outcome.Ordered

theorem reads_resultToJson (r : Dated TaskResult) (h : r.value.Writable)
    (ht : Stamp.ofString r.stamp.render = .ok r.stamp) :
    decoder.Reads (Dated.resultToJson r) r := by
  refine RecordShape.reads_object ⟨.refl _, by decide, by decide⟩ fun m hm => ?_
  unfold read
  rw [hm.required rfl (Decoder.reads_string r.value.taskId),
    hm.required rfl (Decoder.reads_string r.value.workerId),
    hm.required rfl (Decoder.reads_u32 h.attempt),
    hm.required rfl (r.value.outcome.reads_toJson h.outcome),
    hm.required rfl (Stamp.reads_toJson ht), hm.required rfl (Decoder.reads_u64 h.duration)]
  rfl

end TaskResult

theorem CanonicalResult.reads_toJson (c : CanonicalResult) (h : c.Ordered) :
    decoder.Reads c.toJson c := by
  refine RecordShape.reads_object ⟨.refl _, by decide, by decide⟩ fun m hm => ?_
  unfold read
  rw [hm.required rfl (Decoder.reads_string c.taskId), hm.required rfl (Decoder.reads_json h.1),
    hm.required rfl (Decoder.reads_string c.workerId), hm.required rfl c.strategy.reads_toJson,
    hm.nullable (·.toJson) rfl fun conflict hc =>
      ⟨conflict.reads_toJson (h.2 conflict hc), conflict.toJson_ne_null⟩]
  rfl

theorem SkipReason.legible_toJson (r : SkipReason) : r.toJson.Legible := by
  cases r <;> exact ⟨List.forall_mem_nil _, Nat.le_of_ble_eq_true rfl⟩

namespace ReportSummary

theorem depth_countsToJson (counts : List (ResolutionStrategy × Nat)) :
    (countsToJson counts).depth = 1 := by
  refine congrArg (· + 1) ?_
  induction counts with
  | nil => rfl
  | cons row rows ih => exact (Nat.zero_max _).trans ih

theorem legible_toJson (s : ReportSummary) (h : s.Writable) : s.toJson.Legible := by
  have hdepth : s.toJson.depth = 2 := by
    refine congrArg (· + 1) ?_
    simp only [depthOfMembers, depth_countsToJson]
    rfl
  refine ⟨?_, hdepth ▸ by decide⟩
  have hcount {n : Nat} (hn : n < Nat.pow 2 64) : ∀ m ∈ (Json.nat n).numbers, m.Legible :=
    List.forall_mem_singleton.mpr (Number.legible_nat hn)
  have hrows : ∀ m ∈ (countsToJson s.resolutions).numbers, m.Legible :=
    forall_mem_numbersOfMembers.mpr (List.forall_mem_map.mpr fun row hrow =>
      hcount (h.resolutions row hrow))
  have hcounts := fun n hn => hcount (h.counts n hn)
  simp only [List.forall_mem_cons, List.not_mem_nil, false_imp_iff, implies_true, and_true]
    at hcounts
  obtain ⟨htasks, hsucceeded, hfailed, hskipped, hattempts, hretries, hconflicts, haverage, hpeak,
    hduration⟩ := hcounts
  simp only [toJson, numbers, forall_mem_numbersOfMembers, List.forall_mem_cons]
  exact ⟨htasks, hsucceeded, hfailed, hskipped, hattempts, hretries, hconflicts, hrows, haverage,
    hpeak, hduration, List.forall_mem_nil _⟩

end ReportSummary

/-- Whatever is recorded of results and of how they were resolved is read from its text as it was
written, provided that its numbers and its instant last and that it nests no deeper than texts are
read. -/
theorem records_survive :
    (∀ o : Outcome, o.Ordered → o.toJson.Legible →
      Decoder.decodeText Outcome.decoder o.toJson.compact = .ok o) ∧
    (∀ r : Dated TaskResult, r.value.Writable → Stamp.ofString r.stamp.render = .ok r.stamp →
      (Dated.resultToJson r).Legible →
      Decoder.decodeText TaskResult.decoder (Dated.resultToJson r).compact = .ok r) ∧
    (∀ c : CanonicalResult, c.Ordered → c.toJson.Legible →
      Decoder.decodeText CanonicalResult.decoder c.toJson.compact = .ok c) ∧
    (∀ r : SkipReason, Decoder.decodeText SkipReason.decoder r.toJson.compact = .ok r) ∧
    (∀ s : ReportSummary, s.Writable →
      Decoder.decodeText ReportSummary.decoder s.toJson.compact = .ok s) := by
  refine ⟨fun o ho hl => (o.reads_toJson ho).decodeText hl,
    fun r hr ht hl => (TaskResult.reads_resultToJson r hr ht).decodeText hl,
    fun c hc hl => (c.reads_toJson hc).decodeText hl,
    fun r => r.reads_toJson.decodeText r.legible_toJson,
    fun s hs => (s.reads_toJson hs).decodeText (s.legible_toJson hs)⟩

namespace Report

def mixed : Json := .object [("empty", .null), ("items", .array [.bool true, .number (.real 0.5)]),
  ("words", .string "\"a\" and\nb")]

def answered : Dated TaskResult where
  value := ⟨"t", "a", 2, .success mixed, 1500⟩
  stamp := ⟨29000000, 7, 250000000⟩

def contested : CanonicalResult where
  taskId := "t"
  payload := .null
  workerId := "c"
  strategy := .priorityFallback
  conflict := some ⟨"t", .priorityFallback, ⟨"c", .null, 3.5⟩,
    [⟨"a", mixed, 1⟩, ⟨"b", .number (.int (-7)), 0.25⟩]⟩

def counted : ReportSummary where
  totalTasks := 3
  succeeded := 2
  permanentlyFailed := 0
  skipped := 1
  totalAttempts := 4
  totalRetries := 1
  conflicts := 1
  resolutions := [(.single, 1), (.priorityFallback, 1)]
  averageTask := 750
  peakInFlight := 2
  duration := 2 ^ 64 - 1

theorem writable_counted : counted.Writable where
  counts := by decide
  resolutions := by decide
  arranged := by decide

theorem contested_survives :
    (answered.value.outcome.Ordered ∧ answered.value.outcome.toJson.Legible ∧
      Decoder.decodeText Outcome.decoder answered.value.outcome.toJson.compact =
        .ok answered.value.outcome) ∧
    (answered.value.Writable ∧ Stamp.ofString answered.stamp.render = .ok answered.stamp ∧
      (Dated.resultToJson answered).Legible ∧
      Decoder.decodeText TaskResult.decoder (Dated.resultToJson answered).compact =
        .ok answered) ∧
    (contested.Ordered ∧ contested.toJson.Legible ∧
      Decoder.decodeText CanonicalResult.decoder contested.toJson.compact = .ok contested) ∧
    (counted.Writable ∧
      Decoder.decodeText ReportSummary.decoder counted.toJson.compact = .ok counted) := by
  obtain ⟨outcomes, results, resolutions, -, summaries⟩ := records_survive
  have houtcome : answered.value.outcome.Ordered := by decide +kernel
  have houtcomeText : answered.value.outcome.toJson.Legible := by decide +kernel
  have hresult : answered.value.Writable := ⟨by decide, by decide, houtcome⟩
  have hstamp : Stamp.ofString answered.stamp.render = .ok answered.stamp := by decide +kernel
  have hresultText : (Dated.resultToJson answered).Legible := by decide +kernel
  have hcontested : contested.Ordered := by decide +kernel
  have hcontestedText : contested.toJson.Legible := by decide +kernel
  exact ⟨⟨houtcome, houtcomeText, outcomes _ houtcome houtcomeText⟩,
    ⟨hresult, hstamp, hresultText, results _ hresult hstamp hresultText⟩,
    ⟨hcontested, hcontestedText, resolutions _ hcontested hcontestedText⟩,
    ⟨writable_counted, summaries _ writable_counted⟩⟩

end Report

end Crew

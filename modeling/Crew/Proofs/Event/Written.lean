import Crew.Form.Event
import Crew.Proofs.Report.Written
import Crew.Proofs.Scaling.Ratio

/-!
# Events are read as they are written

An event is read from its fields as it was written (`Event.reads_toJson`), and from its text too,
unless it gives a ratio that is not finite. That is written as `null`, and no double is read of it
(`Event.decodeText_signal`). A ratio that was measured is finite as long as there was a healthy
worker (`Event.Measured.isFinite_iff`).
-/

namespace Crew

open Json

namespace Event

def ratio? : Event → Option Float
  | .scaleUpRequested _ ratio .. | .scaleDownRequested _ ratio .. => some ratio
  | _ => none

def Fits : Event → Prop
  | .runStarted _ totalTasks slots => totalTasks < Nat.pow 2 64 ∧ slots < Nat.pow 2 64
  | .taskDispatched _ _ _ attempt => attempt < Nat.pow 2 32
  | .taskRetryScheduled _ _ attempt delay _ => attempt < Nat.pow 2 32 ∧ delay < Nat.pow 2 64
  | .taskResolved _ _ _ attempts => attempts < Nat.pow 2 32
  | .scaleUpRequested _ _ ready healthy | .scaleDownRequested _ _ ready healthy =>
    ready < Nat.pow 2 64 ∧ healthy < Nat.pow 2 64
  | .circuitOpened _ failures => failures < Nat.pow 2 32
  | .circuitClosed _ => True
  | .runFinished _ duration _ => duration < Nat.pow 2 64

def fields (e : Event) : List (String × Json) :=
  memberIf "run_id" (e.runId?.map .string) ++ e.details

end Event

theorem Stamp.reads_toJson {t : Stamp} (h : ofString t.render = .ok t) :
    decoder.Reads t.toJson t := by
  intro ctx _
  have hvalue : decoder ctx (.ofJson t.toJson) =
      (ofString t.render).mapError fun e => .data (.invalidTime e.message) := rfl
  rw [hvalue, h]
  rfl

namespace Event

variable {e : Dated Event}

theorem ne_tag (e : Event) (t : Stamp) :
    ∀ m ∈ e.fields ++ [("timestamp", t.toJson)], m.1 ≠ "type" := by
  cases e <;> simp [fields, runId?, memberIf, details]

theorem nodup_keys (e : Event) : (e.fields.map (·.1) ++ ["timestamp"]).Nodup := by
  cases e <;> simp [fields, runId?, memberIf, details]

/-- What is read of an event's own fields is read of the event with its time. -/
theorem reads_alternative {shape : RecordShape} {read : Members → Positioned Event}
    (hv : alternatives.lookup e.value.kind = some (shape.decoder fun m =>
      (fun e stamp => ⟨e, stamp⟩) <$> read m <*> m.required "timestamp" Stamp.decoder))
    (hfields : shape.fields = e.value.fields.map (·.1) ++ ["timestamp"])
    (haliases : shape.aliases = []) (ht : Stamp.ofString e.stamp.render = .ok e.stamp)
    (h : ∀ m : Members, m.Holds (e.value.fields ++ [("timestamp", e.stamp.toJson)]) →
      read m = .pure e.value) : decoder.Reads (Dated.eventToJson e) e := by
  have hstamp : (e.value.fields ++ [("timestamp", e.stamp.toJson)]).lookup "timestamp" =
      some e.stamp.toJson := by
    cases e.value <;> rfl
  have hdeclares : shape.Declares (e.value.fields ++ [("timestamp", e.stamp.toJson)]) := by
    refine ⟨?_, hfields ▸ nodup_keys e.value, fun name hname => ?_⟩
    · rw [hfields, List.map_append]
      exact .refl _
    · rw [RecordShape.field?, haliases]
      exact if_pos hname
  -- The tag is looked up among the alternatives first, then the fields are read without it.
  refine Decoder.reads_tagged hv (ne_tag e.value e.stamp) ?_
  refine RecordShape.reads_object hdeclares fun m hm => ?_
  rw [h m hm, hm.required hstamp (Stamp.reads_toJson ht)]
  rfl

theorem reads_toJson (e : Dated Event) (hf : e.value.Fits)
    (ht : Stamp.ofString e.stamp.render = .ok e.stamp) :
    decoder.Reads (Dated.eventToJson e) e := by
  obtain ⟨event, stamp⟩ := e
  cases event with
  | runStarted runId totalTasks slots =>
    refine reads_alternative rfl rfl rfl ht fun m hm => ?_
    rw [hm.required rfl (Decoder.reads_string runId), hm.required rfl (Decoder.reads_usize hf.1),
      hm.required rfl (Decoder.reads_usize hf.2)]
    rfl
  | taskDispatched runId taskId workerId attempt =>
    refine reads_alternative rfl rfl rfl ht fun m hm => ?_
    rw [hm.required rfl (Decoder.reads_string runId), hm.required rfl (Decoder.reads_string taskId),
      hm.required rfl (Decoder.reads_string workerId), hm.required rfl (Decoder.reads_u32 hf)]
    rfl
  | taskRetryScheduled runId taskId attempt delay error =>
    refine reads_alternative rfl rfl rfl ht fun m hm => ?_
    rw [hm.required rfl (Decoder.reads_string runId), hm.required rfl (Decoder.reads_string taskId),
      hm.required rfl (Decoder.reads_u32 hf.1), hm.required rfl (Decoder.reads_u64 hf.2),
      hm.required rfl (Decoder.reads_string error)]
    rfl
  | taskResolved runId taskId status attempts =>
    refine reads_alternative rfl rfl rfl ht fun m hm => ?_
    rw [hm.required rfl (Decoder.reads_string runId), hm.required rfl (Decoder.reads_string taskId),
      hm.required rfl status.reads_toJson, hm.required rfl (Decoder.reads_u32 hf)]
    rfl
  | scaleUpRequested runId ratio ready healthy | scaleDownRequested runId ratio ready healthy =>
    refine reads_alternative rfl rfl rfl ht fun m hm => ?_
    rw [hm.required rfl (Decoder.reads_string runId), hm.required rfl (Decoder.reads_f64 ratio),
      hm.required rfl (Decoder.reads_usize hf.1), hm.required rfl (Decoder.reads_usize hf.2)]
    rfl
  | circuitOpened workerId failures =>
    refine reads_alternative rfl rfl rfl ht fun m hm => ?_
    rw [hm.required rfl (Decoder.reads_string workerId), hm.required rfl (Decoder.reads_u32 hf)]
    rfl
  | circuitClosed workerId =>
    refine reads_alternative rfl rfl rfl ht fun m hm => ?_
    rw [hm.required rfl (Decoder.reads_string workerId)]
    rfl
  | runFinished runId duration cancelled =>
    refine reads_alternative rfl rfl rfl ht fun m hm => ?_
    rw [hm.required rfl (Decoder.reads_string runId), hm.required rfl (Decoder.reads_u64 hf),
      hm.required rfl (Decoder.reads_bool cancelled)]
    rfl

-- ---------------------------------------------------------------------------
-- Scaling signals
-- ---------------------------------------------------------------------------

section
variable {kind title runId : String} {ratio : Json} {ready healthy : Nat} {t : Stamp}

def signal (runId : String) (ratio : Json) (ready healthy : Nat) (t : Stamp) :
    List (String × Json) :=
  [("run_id", .string runId), ("ratio", ratio), ("ready_tasks", .nat ready),
    ("healthy_workers", .nat healthy), ("timestamp", t.toJson)]

def signalShape (title : String) : RecordShape where
  title := title
  fields := ["run_id", "ratio", "ready_tasks", "healthy_workers", "timestamp"]

def readSignal (make : String → Float → Nat → Nat → Event) (m : Members) :
    Positioned (Dated Event) :=
  (fun e stamp => ⟨e, stamp⟩) <$>
    (make <$> m.required "run_id" .string <*> m.required "ratio" .f64 <*>
      m.required "ready_tasks" .usize <*> m.required "healthy_workers" .usize) <*>
    m.required "timestamp" Stamp.decoder

theorem declares_signal (title runId : String) (ratio : Json) (ready healthy : Nat) (t : Stamp) :
    (signalShape title).Declares (signal runId ratio ready healthy t) :=
  ⟨.refl _, by simp [signalShape], by simp [signalShape, RecordShape.field?]⟩

theorem signal_ne_tag : ∀ m ∈ signal runId ratio ready healthy t, m.1 ≠ "type" := by
  simp [signal]

theorem decoder_signal_null (make : String → Float → Nat → Nat → Event)
    (hv : alternatives.lookup kind = some ((signalShape title).decoder (readSignal make)))
    (hready : ready < Nat.pow 2 64) (hhealthy : healthy < Nat.pow 2 64)
    (ht : Stamp.decoder.Reads t.toJson t) :
    decoder {} (.ofJson (.object (("type", .string kind) :: signal runId .null ready healthy t))) =
      .error (.data (.invalidType .null "f64")) := by
  have hdepth : (Json.object (signal runId .null ready healthy t)).depth ≤ 127 :=
    Nat.le_of_ble_eq_true rfl
  obtain ⟨m, hm, he⟩ : ∃ m : Members, m.Holds (signal runId .null ready healthy t) ∧
      (signalShape title).decoder (readSignal make) { origin := .buffer }
        (.ofJson (.object (signal runId .null ready healthy t))) = m.finish (readSignal make m) :=
    RecordShape.exists_holds (declares_signal title runId .null ready healthy t) hdepth
  -- The ratio is the only field that fails, so it is the one that is reported.
  obtain ⟨p, hratio⟩ : ∃ p, m.required "ratio" .f64 =
      .fail p (.data (.invalidType .null "f64")) := hm.required_error rfl fun _ => rfl
  have hread : readSignal make m = .fail p (.data (.invalidType .null "f64")) := by
    unfold readSignal
    rw [hm.required rfl (Decoder.reads_string runId), hratio,
      hm.required rfl (Decoder.reads_usize hready), hm.required rfl (Decoder.reads_usize hhealthy),
      hm.required rfl ht]
    rfl
  unfold decoder
  rw [Decoder.tagged_ofJson hv signal_ne_tag hdepth]
  rw [hread] at he
  exact he.trans (hm.finish_fail p _)

end

-- ---------------------------------------------------------------------------
-- Texts of events
-- ---------------------------------------------------------------------------

theorem legible_toJson (hf : e.value.Fits) (hr : ∀ x ∈ e.value.ratio?, (Number.real x).Lasts) :
    (Dated.eventToJson e).Legible := by
  have hword {n : Nat} (h : n < Nat.pow 2 32) : (Number.int n).Legible :=
    Number.legible_nat (h.trans (by decide))
  obtain ⟨event, stamp⟩ := e
  refine ⟨?_, by cases event <;> exact Nat.le_of_ble_eq_true rfl⟩
  cases event with
  | runStarted =>
    exact List.forall_mem_cons.mpr
      ⟨Number.legible_nat hf.1, List.forall_mem_singleton.mpr (Number.legible_nat hf.2)⟩
  | taskRetryScheduled =>
    exact List.forall_mem_cons.mpr
      ⟨hword hf.1, List.forall_mem_singleton.mpr (Number.legible_nat hf.2)⟩
  | taskDispatched | taskResolved | circuitOpened => exact List.forall_mem_singleton.mpr (hword hf)
  | scaleUpRequested | scaleDownRequested =>
    exact List.forall_mem_cons.mpr ⟨hr _ rfl, List.forall_mem_cons.mpr
      ⟨Number.legible_nat hf.1, List.forall_mem_singleton.mpr (Number.legible_nat hf.2)⟩⟩
  | circuitClosed => exact List.forall_mem_nil _
  | runFinished => exact List.forall_mem_singleton.mpr (Number.legible_nat hf)

theorem compact_signal {kind runId : String} {x : Float} {ready healthy : Nat} {t : Stamp}
    (h : x.isFinite = false) :
    (Json.object (("type", .string kind) :: signal runId (.real x) ready healthy t)).compact =
      (Json.object (("type", .string kind) :: signal runId .null ready healthy t)).compact := by
  have hratio : (Json.real x).compact = Json.null.compact := if_neg (by simp [h])
  simp only [signal, compact, compactMembers, hratio]

theorem decodeText_signal {kind title runId : String} {x : Float} {ready healthy : Nat} {t : Stamp}
    (make : String → Float → Nat → Nat → Event)
    (hv : alternatives.lookup kind = some ((signalShape title).decoder (readSignal make)))
    (hready : ready < Nat.pow 2 64) (hhealthy : healthy < Nat.pow 2 64)
    (ht : Stamp.decoder.Reads t.toJson t) (h : x.isFinite = false) :
    Decoder.decodeText decoder
        (Json.object (("type", .string kind) :: signal runId (.real x) ready healthy t)).compact =
      .error (.data (.invalidType .null "f64")) := by
  have hlegible : (Json.object
      (("type", .string kind) :: signal runId .null ready healthy t)).Legible :=
    ⟨List.forall_mem_cons.mpr
      ⟨Number.legible_nat hready, List.forall_mem_singleton.mpr (Number.legible_nat hhealthy)⟩,
      Nat.le_of_ble_eq_true rfl⟩
  rw [compact_signal h, Decoder.decodeText_compact _ hlegible]
  exact decoder_signal_null make hv hready hhealthy ht

-- ---------------------------------------------------------------------------
-- Measured ratios
-- ---------------------------------------------------------------------------

/-- A ratio is announced although there is no healthy worker. -/
def LacksWorkers : Event → Prop
  | .scaleUpRequested _ _ _ healthy | .scaleDownRequested _ _ _ healthy => healthy = 0
  | _ => False

theorem Measured.isFinite_iff {event : Event} {x : Float} (hm : event.Measured) (hf : event.Fits)
    (hx : event.ratio? = some x) : x.isFinite = true ↔ ¬ event.LacksWorkers := by
  have hratio {ready healthy : Nat} {ratio : Float} (hready : ready < Nat.pow 2 64)
      (hhealthy : healthy < Nat.pow 2 64) (h : ScalingDetector.ratio ready healthy = some ratio) :
      ratio.isFinite = true ↔ ¬ healthy = 0 := by
    by_cases h0 : healthy = 0
    · subst h0
      simp [ScalingDetector.isFinite_ratio_zero h]
    · simp [h0, ScalingDetector.isFinite_ratio hready hhealthy (Nat.pos_of_ne_zero h0) h]
  cases event with
  | scaleUpRequested runId ratio ready healthy | scaleDownRequested runId ratio ready healthy =>
    obtain rfl : ratio = x := Option.some.inj hx
    exact hratio hf.1 hf.2 hm
  | _ => cases hx

/-- An event whose ratio was measured is read from its text as it was written, unless there was no
healthy worker. -/
theorem decodeText_measured (hm : e.value.Measured) (hf : e.value.Fits)
    (hr : ∀ x ∈ e.value.ratio?, x.isFinite → (Number.real x).Lasts)
    (ht : Stamp.ofString e.stamp.render = .ok e.stamp) :
    (¬ e.value.LacksWorkers →
      Decoder.decodeText decoder (Dated.eventToJson e).compact = .ok e) ∧
    (e.value.LacksWorkers → Decoder.decodeText decoder (Dated.eventToJson e).compact =
      .error (.data (.invalidType .null "f64"))) := by
  refine ⟨fun h => ?_, fun h => ?_⟩
  · have hlegible := legible_toJson hf fun x hx => hr x hx ((hm.isFinite_iff hf hx).mpr h)
    exact (reads_toJson e hf ht).decodeText hlegible
  · have hstamp := Stamp.reads_toJson ht
    have hfinite {x : Float} (hx : e.value.ratio? = some x) : x.isFinite = false :=
      Bool.eq_false_iff.mpr fun hx' => (hm.isFinite_iff hf hx).mp hx' h
    obtain ⟨event, stamp⟩ := e
    cases event with
    | scaleUpRequested =>
      exact decodeText_signal scaleUpRequested rfl hf.1 hf.2 hstamp (hfinite rfl)
    | scaleDownRequested =>
      exact decodeText_signal scaleDownRequested rfl hf.1 hf.2 hstamp (hfinite rfl)
    | _ => exact h.elim

end Event

end Crew

import Crew.Proofs.Event.Written
import Crew.Proofs.Run.Surroundings

/-!
# The ratios that a run announces

Whatever a run puts into the journal, it announces a ratio only beside the counts that this is the
ratio of (`Opening.Writes.says`). So every event of a run is read from its text as it was written,
but for the signals that are given while no worker is healthy (`Opening.events_survive`).
-/

namespace Crew

-- ---------------------------------------------------------------------------
-- What is put into the journal
-- ---------------------------------------------------------------------------

namespace Registry

variable {reg reg₁ reg₂ reg' : Registry}

/-- The journal goes on with events whose ratios were measured. -/
def Says (reg reg' : Registry) : Prop :=
  ∃ said, reg'.journal = reg.journal ++ said ∧ ∀ e ∈ said, e.Measured

theorem Says.silent (h : reg'.journal = reg.journal) : reg.Says reg' :=
  ⟨[], by rw [h, List.append_nil], List.forall_mem_nil _⟩

theorem Says.refl (reg : Registry) : reg.Says reg := .silent rfl

theorem Says.trans (h : reg.Says reg₁) (h' : reg₁.Says reg₂) : reg.Says reg₂ := by
  obtain ⟨said, hj, hm⟩ := h
  obtain ⟨more, hj', hm'⟩ := h'
  exact ⟨said ++ more, by rw [hj', hj, List.append_assoc], List.forall_mem_append.mpr ⟨hm, hm'⟩⟩

theorem says_emit {e : Event} (reg : Registry) (h : e.Measured) : reg.Says (reg.emit e) :=
  ⟨[e], rfl, List.forall_mem_singleton.mpr h⟩

theorem says_reportOutcome (reg : Registry) (workerId : String) (success : Bool) (now : Nat) :
    reg.Says (reg.reportOutcome workerId success now).1 := by
  unfold reportOutcome
  split
  · exact .refl reg
  · dsimp only
    split
    · exact says_emit _ trivial
    · exact says_emit _ trivial
    · exact .silent rfl
    · exact .silent rfl

theorem Says.inUse : InUse Says where
  refl := .refl
  trans := .trans
  refreshes _ _ _ := .silent rfl
  announces reg _ h := says_emit reg h
  reports := says_reportOutcome
  grants reg workerId := .silent (reg.journal_grant workerId)
  releases _ _ := .silent rfl

end Registry

open Registry (Says)

-- ---------------------------------------------------------------------------
-- Whole runs
-- ---------------------------------------------------------------------------

namespace Opening

variable {o : Opening} {c c' : Course} {reg reg' : Registry}

/-- What a run does to its registry: it starts, goes on by itself, and comes to its end or, if it is
cancelled, breaks off. -/
inductive Writes (o : Opening) : Registry → Registry → Prop
  | starts {c : Course} (h : o.course = .ok c) : Writes o o.registry c.registry
  | does {c c' : Course} (h : o.Reaches c) (hown : c.Own c') : Writes o c.registry c'.registry
  | finishes {c : Course} (h : o.Reaches c) (started : Nat) :
    Writes o c.registry (Coordinator.finish c.run c.registry started c.now).2
  | breaksOff {c : Course} (h : o.Reaches c) (hc : c.cancelled = true) (started : Nat) :
    Writes o c.registry (Coordinator.finish c.stop.run c.stop.registry started c.now).2

def Announces (o : Opening) (e : Event) : Prop :=
  ∃ reg reg' said, o.Writes reg reg' ∧ reg'.journal = reg.journal ++ said ∧ e ∈ said

theorem Writes.says (h : o.Writes reg reg') : reg.Says reg' := by
  cases h with
  | starts h => exact Says.inUse.course h
  | does _ hown => exact Says.inUse.own hown
  | finishes => exact Registry.says_emit _ trivial
  | @breaksOff c => exact (Says.inUse.cancel c.run c.registry).trans (Registry.says_emit _ trivial)

theorem Announces.measured {e : Event} (h : o.Announces e) : e.Measured := by
  obtain ⟨reg, reg', said, hw, hj, he⟩ := h
  -- What the journal goes on with is determined by both journals.
  obtain ⟨said', hj', hm⟩ := hw.says
  obtain rfl : said = said' := List.append_cancel_left (hj.symm.trans hj')
  exact hm e he

/-- Every event that a run announces is read from its text as it was written, but for a ratio that
is announced while there is no healthy worker: that is infinite, and no double is read of it. -/
theorem events_survive (o : Opening) (e : Dated Event) (h : o.Announces e.value)
    (hf : e.value.Fits) (hr : ∀ x ∈ e.value.ratio?, x.isFinite → (Number.real x).Lasts)
    (ht : Stamp.ofString e.stamp.render = .ok e.stamp) :
    (¬ e.value.LacksWorkers →
      Json.Decoder.decodeText Event.decoder (Dated.eventToJson e).compact = .ok e) ∧
    (e.value.LacksWorkers →
      Json.Decoder.decodeText Event.decoder (Dated.eventToJson e).compact =
        .error (.data (.invalidType .null "f64"))) :=
  Event.decodeText_measured h.measured hf hr ht

-- ---------------------------------------------------------------------------
-- A worker out of order
-- ---------------------------------------------------------------------------

/-- One task, whose only worker has just failed, among others that do not serve it. -/
def stranded (others : List String) : Opening where
  coordinator :=
    .plain { execution := { maxConcurrency := some 1 },
             scaling := { highWatermark := 0.3, debounce := 0 } }
  runId := "stranded"
  tasks := [{ id := "only", capability := "run" }]
  registry := others.foldl (fun reg id => reg.register ⟨id, ["walk"], 1.0⟩ 0)
    ((Registry.register { rules := .ofLimits 1 30000 } ⟨"runner", ["run"], 1.0⟩ 0).reportOutcome
      "runner" false 0).1
  now := 0

def strandedStart (others : List String) : Course :=
  (stranded others).launch ⟨(stranded others).tasks⟩ (stranded others).registry 1

def third : Dated Event := ⟨.scaleUpRequested "stranded" (1.0 / 3.0) 1 3, ⟨28403160, 0, 0⟩⟩

def beyond : Dated Event := ⟨.scaleUpRequested "stranded" (1.0 / 0.0) 1 0, ⟨28403160, 0, 0⟩⟩

theorem stranded_announces {others : List String} {e : Event}
    (hv : Coordinator.checkViable ⟨(stranded others).tasks⟩ (stranded others).registry = .ok ())
    (hj : (strandedStart others).pass.registry.journal =
      (strandedStart others).registry.journal ++ [e]) : (stranded others).Announces e := by
  -- The tasks are the same whoever the others are.
  have hgraph : TaskGraph.build (stranded []).tasks = .ok ⟨(stranded []).tasks⟩ := by
    decide +kernel
  have hcourse : (stranded others).course = .ok (strandedStart others) :=
    course_eq_ok.mpr ⟨⟨(stranded others).tasks⟩, (stranded others).registry, 1, hgraph, hv, rfl,
      by decide, rfl⟩
  exact ⟨_, _, [e], .does ⟨_, hcourse, .refl⟩ (.pass rfl rfl), hj, List.mem_singleton_self e⟩

theorem third_survives :
    (stranded ["a", "b", "c"]).Announces third.value ∧
      Json.Decoder.decodeText Event.decoder (Dated.eventToJson third).compact = .ok third := by
  have hfits : third.value.Fits := ⟨by decide, by decide⟩
  have hlasts : (Number.real (1.0 / 3.0)).Lasts := by decide +kernel
  have hannounced : (stranded ["a", "b", "c"]).Announces third.value :=
    stranded_announces (by decide +kernel) (by decide +kernel)
  refine ⟨hannounced, (events_survive _ third hannounced hfits (fun x hx _ => ?_)
    (by decide +kernel)).1 nofun⟩
  obtain rfl : 1.0 / 3.0 = x := Option.some.inj hx
  exact hlasts

/-- A ratio without one is announced, and is not read from its text. -/
theorem beyond_lost :
    (stranded []).Announces beyond.value ∧ beyond.value.Fits ∧
      Stamp.ofString beyond.stamp.render = .ok beyond.stamp ∧
      Json.Decoder.decodeText Event.decoder (Dated.eventToJson beyond).compact ≠ .ok beyond := by
  have hfits : beyond.value.Fits := ⟨by decide, by decide⟩
  have hstamp : Stamp.ofString beyond.stamp.render = .ok beyond.stamp := by decide +kernel
  have hread : Json.Decoder.decodeText Event.decoder (Dated.eventToJson beyond).compact =
      .error (.data (.invalidType .null "f64")) :=
    Event.decodeText_signal .scaleUpRequested rfl hfits.1 hfits.2 (Stamp.reads_toJson hstamp)
      (by decide)
  refine ⟨stranded_announces (by decide +kernel) (by decide +kernel), hfits, hstamp, ?_⟩
  rw [hread]
  exact nofun

end Opening

end Crew

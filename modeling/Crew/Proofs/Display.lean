import Crew.Display
import Crew.Proofs.Run.Tales

/-!
# What a display shows

A display that is fed with a log in which every task has its tale shows a line for just the tasks
under way, those sent out and not yet ended (`Display.mem_active_shown`), and counts those that have
ended (`Display.position_shown`).
-/

namespace Crew

/-- A task is under way once it was sent out and until it has ended. -/
def isUnderWay (log : List Event) (id : String) : Bool :=
  log.any (·.speaks id Word.isSent) && !log.any (·.speaks id Word.isEnded)

theorem any_speaks {log : List Event} {id : String} {kind : Word → Bool} :
    log.any (·.speaks id kind) ↔ ∃ w ∈ wordsOf log id, kind w := by
  rw [List.any_eq_true, ← List.countP_pos_iff, countP_speaks, List.countP_pos_iff]

namespace Display

variable {log : List Event} {e : Event} {id : String}

def shown (log : List Event) : Display := log.foldl (fun d e => (d.handle e).1) {}

theorem shown_concat (log : List Event) (e : Event) :
    shown (log ++ [e]) = ((shown log).handle e).1 :=
  List.foldl_append

theorem mem_active_addLine {d : Display} {taskId : String} :
    id ∈ (d.addLine taskId).active ↔ id ∈ d.active ∨ id = taskId := by
  unfold addLine
  split
  next h =>
    refine ⟨.inl, fun hid => ?_⟩
    rcases hid with hid | rfl
    · exact hid
    · exact h
  · simp

theorem nodup_addLine {d : Display} (taskId : String) (h : d.active.Nodup) :
    (d.addLine taskId).active.Nodup := by
  unfold addLine
  split
  · exact h
  next hn =>
    refine List.nodup_append.mpr ⟨h, List.nodup_singleton _, fun a ha b hb he => ?_⟩
    rw [he, List.mem_singleton.mp hb] at ha
    exact hn ha

theorem nodup_handle {d : Display} (h : d.active.Nodup) : (d.handle e).1.active.Nodup := by
  cases e with
  | taskDispatched _ taskId | taskRetryScheduled _ taskId => exact nodup_addLine taskId h
  | taskResolved => exact h.filter _
  | _ => exact h

theorem nodup_shown (log : List Event) : (shown log).active.Nodup := by
  induction log using List.reverseRecOn with
  | nil => exact List.nodup_nil
  | append_singleton log e ih =>
    rw [shown_concat]
    exact nodup_handle ih

theorem mem_active_handle_ne {d : Display} (h : e.taskId? ≠ some id) :
    id ∈ (d.handle e).1.active ↔ id ∈ d.active := by
  cases e with
  | taskDispatched _ taskId | taskRetryScheduled _ taskId =>
    have hne : id ≠ taskId := fun he => h (by simp [he, Event.taskId?])
    simp [handle, mem_active_addLine, hne]
  | taskResolved _ taskId =>
    have hne : id ≠ taskId := fun he => h (by simp [he, Event.taskId?])
    simp [handle, hne]
  | _ => rfl

theorem isUnderWay_concat_ne (h : e.taskId? ≠ some id) :
    isUnderWay (log ++ [e]) id = isUnderWay log id := by
  simp [isUnderWay, Event.speaks, Event.word?_of_taskId?_ne h]

/-- A display has a line for just the tasks under way. -/
theorem mem_active_shown (h : ∀ id, ∃ t, Tale.Tells (wordsOf log id) t) :
    id ∈ (shown log).active ↔ isUnderWay log id := by
  induction log using List.reverseRecOn with
  | nil => simp [shown, isUnderWay]
  | append_singleton log e ih =>
    have ih := ih fun id => by
      obtain ⟨t, ht⟩ := h id
      rw [wordsOf_append] at ht
      exact ht.prefix
    rw [shown_concat]
    by_cases he : e.taskId? = some id
    · obtain ⟨t, ht⟩ := h id
      obtain ⟨w, hw⟩ := Option.isSome_iff_exists.mp (Event.isSome_word? he)
      rw [wordsOf_append, wordsOf_cons, hw] at ht
      have hopen : log.any (·.speaks id Word.isEnded) = false := by
        rw [← Bool.not_eq_true, any_speaks]
        rintro ⟨v, hv, hended⟩
        cases (Tale.isEnded_eq_false ht v hv).symm.trans hended
      have hconcat : isUnderWay (log ++ [e]) id =
          ((log.any (·.speaks id Word.isSent) || w.isSent) && !w.isEnded) := by
        rw [isUnderWay, List.any_append, List.any_append, hopen]
        simp [Event.speaks, hw]
      rw [hconcat]
      cases e with
      | taskDispatched _ taskId =>
        obtain rfl : taskId = id := Option.some.inj he
        obtain rfl : .sent _ = w := by simpa [Event.word?] using hw
        simp [handle, mem_active_addLine, Word.isSent, Word.isEnded]
      | taskRetryScheduled _ taskId =>
        obtain rfl : taskId = id := Option.some.inj he
        obtain rfl : .again _ = w := by simpa [Event.word?] using hw
        obtain ⟨s, hs, hagain⟩ := Tale.tells_concat.mp ht
        have hsent := any_speaks.mpr (Tale.exists_sent_of_isOpen hs (Tale.hear_again.mp hagain).2.1)
        have hline : taskId ∈ (shown log).active := ih.mpr (by simp [isUnderWay, hsent, hopen])
        simp [handle, mem_active_addLine, hline, hsent, Word.isEnded]
      | taskResolved _ taskId =>
        obtain rfl : taskId = id := Option.some.inj he
        obtain rfl : .ended _ _ = w := by simpa [Event.word?] using hw
        simp [handle, Word.isEnded]
      | _ => cases he
    · rw [mem_active_handle_ne he, isUnderWay_concat_ne he]
      exact ih

theorem length_active_shown {ids : List String} (hn : ids.Nodup)
    (hin : ∀ e ∈ log, ∀ id, e.taskId? = some id → id ∈ ids)
    (h : ∀ id, ∃ t, Tale.Tells (wordsOf log id) t) :
    (shown log).active.length = ids.countP (isUnderWay log) := by
  rw [List.countP_eq_length_filter]
  refine List.Perm.length_eq ((List.perm_ext_iff_of_nodup (nodup_shown log) (hn.filter _)).mpr
    fun id => ?_)
  rw [mem_active_shown h, List.mem_filter, iff_and_self]
  intro hway
  obtain ⟨e, he, hsent⟩ := List.any_eq_true.mp (Bool.and_eq_true_iff.mp hway).1
  refine hin e he id (Classical.byContradiction fun hne => ?_)
  rw [Event.speaks, Event.word?_of_taskId?_ne hne] at hsent
  cases hsent

/-- Until the end of a run its display counts the tasks that have ended. -/
theorem position_shown (h : ∀ e ∈ log, e.kind ≠ "run_finished") :
    (shown log).position = log.countP (·.kind = "task_resolved") := by
  induction log using List.reverseRecOn with
  | nil => rfl
  | append_singleton log e ih =>
    obtain ⟨hlog, he⟩ := List.forall_mem_append.mp h
    rw [shown_concat, List.countP_append, ← ih hlog]
    cases e with
    | taskDispatched _ taskId | taskRetryScheduled _ taskId =>
      simp only [handle, addLine]
      split <;> rfl
    | runFinished => exact absurd rfl (he _ List.mem_cons_self)
    | _ => rfl

theorem length_handle {d : Display} (h : e.IsInner) : (d.handle e).1.length = d.length := by
  cases e with
  | taskDispatched _ taskId | taskRetryScheduled _ taskId =>
    simp only [handle, addLine]
    split <;> rfl
  | runStarted | runFinished => cases h
  | _ => rfl

theorem length_shown {inner : List Event} (runId : String) (total slots : Nat)
    (h : ∀ e ∈ inner, e.IsInner) :
    (shown (.runStarted runId total slots :: inner)).length = total := by
  induction inner using List.reverseRecOn with
  | nil => rfl
  | append_singleton inner e ih =>
    obtain ⟨hinner, he⟩ := List.forall_mem_append.mp h
    rw [← List.cons_append, shown_concat, length_handle (he e List.mem_cons_self), ih hinner]

theorem over_handle (d : Display) (e : Event) :
    (d.handle e).2 = true ↔ e.kind = "run_finished" := by
  cases e <;> simp [handle, Event.kind]

end Display

end Crew

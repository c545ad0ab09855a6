import NotifsPiper.Execution
import NotifsPiper.Runs

/-! The answers to a query, over the life of the log. An answer is read off the first
notification with the id, so it is lost when that notification leaves the log and when an
open one comes before it. -/

namespace NotifsPiper.Answers

open Runs

variable {Value : Type}

/-- A query on the id, executed now, answers true. -/
def AnswersTrue (id : Nid) (man : LogsManager Value) : Prop :=
  (Query.execute id man).fulfilled.result = .ok (some "true")

def cleared (man : LogsManager Value) (event : NotificationEvent Value) : LogsManager Value :=
  if event.replacesId ≠ 0 then (man.removeNotification event.replacesId).2 else man

/-- Of the notifications with the id that a broadcast leaves, the first is closed: either the
broadcast brings it, closed, or the removal leaves it closed and in front, and it is not the
one evicted at the back of a full log. -/
def KeepsClosed (id : Nid) (man : LogsManager Value) (task : Task Value) : Prop :=
  ∀ event, task.2.cmd = .broadcast event →
    (event.id = id → event.closed = true) ∧
      (event.id ≠ id → ∃ newer ne older, (cleared man event).logsBuffer = newer ++ ne :: older ∧
        (∀ other ∈ newer, other.id ≠ id) ∧ ne.id = id ∧ ne.closed = true ∧
        ((cleared man event).logsBuffer.length = man.logsConfig.maxLogs.toNat → older ≠ []))

theorem answersTrue_iff {id : Nid} {man : LogsManager Value} :
    AnswersTrue id man ↔ ∃ ne, man.find id = some ne ∧ ne.closed = true := by
  unfold AnswersTrue Query.execute Executed.quiet
  cases man.find id with
  | none => simp
  | some ne => cases hclosed : ne.closed <;> simp [hclosed]

theorem find_marked {id : Nid} {log log' : List (NotificationEvent Value)}
    (hmarks : List.Forall₂ Marked log log') {ne : NotificationEvent Value}
    (h : log.find? (fun ne => ne.id == id) = some ne) :
    ∃ ne', log'.find? (fun ne => ne.id == id) = some ne' ∧ Marked ne ne' := by
  induction hmarks with
  | nil => cases h
  | cons hhead _ ih =>
    rw [List.find?_cons] at h ⊢
    rw [hhead.id_eq]
    split at h
    · cases h
      exact ⟨_, rfl, hhead⟩
    · exact ih h

theorem answersTrue_of_marks {id : Nid} {man man' : LogsManager Value}
    (hmarks : List.Forall₂ Marked man.logsBuffer man'.logsBuffer) (h : AnswersTrue id man) :
    AnswersTrue id man' := by
  obtain ⟨ne, hne, hclosed⟩ := answersTrue_iff.mp h
  obtain ⟨ne', hne', hmark⟩ := find_marked hmarks hne
  exact answersTrue_iff.mpr ⟨ne', hne', hmark.closed hclosed⟩

theorem cleared_logsBuffer (man : LogsManager Value) (event : NotificationEvent Value) :
    (cleared man event).logsBuffer =
      Deque.withdraw (man.victim event) man.logsBuffer := by
  unfold cleared LogsManager.victim
  by_cases hrep : event.replacesId = 0
  · simp [hrep]
  · simp [hrep, LogsManager.removeNotification_eq]

theorem find_broadcasted (id : Nid) (man : LogsManager Value) (event : NotificationEvent Value) :
    (man.broadcasted event).find id =
      if event.id = id then some event
      else (Deque.evict man.logsConfig.maxLogs.toNat (cleared man event).logsBuffer).find?
        fun ne => ne.id == id := by
  rw [cleared_logsBuffer]
  simp only [LogsManager.find, LogsManager.broadcasted, LogsManager.setDirty, Deque.enqueue,
    List.find?_cons]
  by_cases hid : event.id = id
  · simp [hid]
  · simp [hid, beq_eq_false_iff_ne.mpr hid]

theorem broadcasted_answersTrue_iff {id : Nid} {man : LogsManager Value} {task : Task Value}
    {event : NotificationEvent Value} (hcmd : task.2.cmd = .broadcast event) :
    AnswersTrue id (man.broadcasted event) ↔ KeepsClosed id man task := by
  rw [answersTrue_iff, find_broadcasted]
  unfold KeepsClosed
  simp only [hcmd, Job.broadcast.injEq, forall_eq']
  by_cases hid : event.id = id
  · simp [hid]
  · simp only [hid, if_false, false_implies, true_and, ne_eq, not_false_eq_true, true_implies,
      Deque.find?_evict_iff, beq_iff_eq, beq_eq_false_iff_ne]
    constructor
    · rintro ⟨ne, ⟨newer, older, hlog, hnewer, hne, hback⟩, hclosed⟩
      exact ⟨newer, ne, older, hlog, hnewer, hne, hclosed, hback⟩
    · rintro ⟨newer, ne, older, hlog, hnewer, hne, hclosed, hback⟩
      exact ⟨ne, ⟨newer, older, hlog, hnewer, hne, hback⟩, hclosed⟩

theorem step_answersTrue_iff {platform : Platform Value} {id : Nid}
    {man man' : LogsManager Value} {task : Task Value} (h : AnswersTrue id man)
    (hstep : man.step platform task = some man') :
    AnswersTrue id man' ↔ KeepsClosed id man task := by
  rcases LogsManager.step_cases hstep with ⟨event, hcmd, rfl⟩ | ⟨hcmd, -, hmarks⟩
  · exact broadcasted_answersTrue_iff hcmd
  · refine iff_of_true (answersTrue_of_marks hmarks h) fun event he => ?_
    exact absurd he (hcmd event)

/-- From a query answered true on, every later query answers true exactly when every
broadcast of the run keeps the id closed. -/
theorem answers_stay_true_iff (platform : Platform Value) (id : Nid) (man : LogsManager Value)
    (h : AnswersTrue id man) (tasks : List (Task Value)) :
    Always (LogsManager.step platform) (AnswersTrue id) man tasks ↔
      Along (LogsManager.step platform) (KeepsClosed id) man tasks :=
  always_iff_along (fun _ _ _ (_ : True) _ => trivial)
    (fun _ _ _ _ hP hstep => step_answersTrue_iff hP hstep) trivial h tasks

def closedLog (maxLogs : LogCountType) : LogsManager Unit :=
  { LogsManager.empty maxLogs with logsBuffer := [(NotificationEvent.bare 1 0 0).setClosed],
                                   dirty := true }

/-- There is room for notification 2, behind which the closed one stays. -/
theorem answers_stay_true_iff_closedLog :
    Always (LogsManager.step Platform.bare) (AnswersTrue 1) (closedLog 2)
      [.at 0 (.query 1), .at 0 (.broadcast (.bare 2 0 0)), .at 0 (.acknowledge 1)] := by
  refine (answers_stay_true_iff Platform.bare 1 (closedLog 2) rfl _).mpr fun man hman => ?_
  cases hman
  refine ⟨fun _ hcmd => (nomatch hcmd), fun man hman => ?_⟩
  cases hman
  refine ⟨fun event hcmd => ?_, fun man _ => ⟨fun _ hcmd => (nomatch hcmd), trivial⟩⟩
  cases hcmd
  refine ⟨by decide, fun _ => ⟨[], (NotificationEvent.bare 1 0 0).setClosed, [], rfl, ?_⟩⟩
  exact ⟨fun _ hmem => (nomatch hmem), rfl, rfl, by decide⟩

/-- The answer is lost to a replacement under the same id, and to an eviction. -/
theorem true_answer_lost :
    run (LogsManager.step Platform.bare) (.empty 1)
        [.at 0 (.broadcast (.bare 1 0 0)), .at 0 (.close 1 .dismissed)] = some (closedLog 1) ∧
      AnswersTrue 1 (closedLog 1) ∧
      ¬ Always (LogsManager.step Platform.bare) (AnswersTrue 1) (closedLog 1)
        [.at 0 (.broadcast (.bare 1 1 0))] ∧
      ¬ Always (LogsManager.step Platform.bare) (AnswersTrue 1) (closedLog 1)
        [.at 0 (.broadcast (.bare 2 0 0))] := by
  refine ⟨by decide, rfl, fun h => ?_, fun h => ?_⟩
  · have hanswer : AnswersTrue 1 _ := h.2 _ rfl
    exact absurd (Except.ok.inj hanswer) (by decide)
  · have hanswer : AnswersTrue 1 _ := h.2 _ rfl
    exact absurd (Except.ok.inj hanswer) (by decide)

end NotifsPiper.Answers

import NotifsPiper.Execution
import NotifsPiper.Runs

/-! The signals emitted over a run. An id is spent once its closing is signalled, until a
broadcast brings it back; the log keeps a spent id closed as long as no open notification
of the same id stood behind the one that was closed. -/

namespace NotifsPiper.Signals

open Runs

variable {Value : Type}

/-- The manager, and the ids whose closing was signalled and that no broadcast brought back
since. -/
structure Signalling (Value : Type) where
  manager : LogsManager Value
  spent : List Nid
  deriving DecidableEq

def closedId : Signal → Option Nid
  | .notificationClosed id _ => some id
  | _ => none

def Signalling.spend (t : Signalling Value) (cmd : Job Value) (emitted : List Signal) :
    List Nid :=
  match cmd with
  | .broadcast event => t.spent.filter (· != event.id)
  | _ => emitted.filterMap closedId ++ t.spent

def Signalling.step (platform : Platform Value) (t : Signalling Value) (task : Task Value) :
    Option (Signalling Value) :=
  (Job.execute platform task.1 task.2 t.manager).map fun ex =>
    ⟨ex.manager, t.spend task.2.cmd ex.emitted⟩

def SparesSpent (platform : Platform Value) (t : Signalling Value) (task : Task Value) : Prop :=
  ∀ ex, Job.execute platform task.1 task.2 t.manager = some ex → ∀ s ∈ ex.emitted, s.id ∉ t.spent

/-- A close that gets through and is signalled leaves no open notification with its id. -/
def ClosesAll (t : Signalling Value) (task : Task Value) : Prop :=
  ∀ id reason pos ne, task.2.cmd = .close id reason → BusAnswers task.1 t.manager →
    Close.Passes id reason task.1 task.2.desc t.manager pos ne →
      ∀ j other, t.manager.logsBuffer[j]? = some other → j ≠ pos → other.id = id →
        other.closed = true

/-- Every notification with a spent id is closed. -/
def SpentClosed (t : Signalling Value) : Prop :=
  ∀ id ∈ t.spent, ∀ ne ∈ t.manager.logsBuffer, ne.id = id → ne.closed = true

theorem step_manager (platform : Platform Value) (t : Signalling Value) (task : Task Value) :
    (t.step platform task).map Signalling.manager = t.manager.step platform task := by
  simp [Signalling.step, LogsManager.step, Function.comp_def]

theorem closed_of_marks {id : Nid} {log log' : List (NotificationEvent Value)}
    (hmarks : List.Forall₂ Marked log log')
    (h : ∀ ne ∈ log, ne.id = id → ne.closed = true) :
    ∀ ne ∈ log', ne.id = id → ne.closed = true := by
  induction hmarks with
  | nil => exact h
  | cons hhead _ ih =>
    rw [List.forall_mem_cons] at h ⊢
    refine ⟨fun hid => ?_, ih h.2⟩
    exact hhead.closed (h.1 (hhead.id_eq ▸ hid))

theorem mem_broadcasted {man : LogsManager Value} {event ne : NotificationEvent Value}
    (h : ne ∈ (man.broadcasted event).logsBuffer) : ne = event ∨ ne ∈ man.logsBuffer :=
  Deque.mem_of_mem_enqueue LogsManager.victim_lt h

theorem closed_after_close {t : Signalling Value} {task : Task Value} {id : Nid}
    {reason : NotificationClosed} {pos : Nat} {ne : NotificationEvent Value}
    (hall : ClosesAll t task) (hcmd : task.2.cmd = .close id reason)
    (hbus : BusAnswers task.1 t.manager)
    (hpasses : Close.Passes id reason task.1 task.2.desc t.manager pos ne) :
    ∀ other ∈ (Close.perform id reason pos task.1 t.manager).manager.logsBuffer,
      other.id = id → other.closed = true := by
  intro other hother hid
  rw [close_perform_manager] at hother
  obtain ⟨j, hj⟩ := List.mem_iff_getElem?.mp hother
  rw [List.getElem?_modify] at hj
  by_cases hpos : pos = j
  · simp only [hpos, if_true, Option.map_eq_map, Option.map_eq_some_iff] at hj
    obtain ⟨before, -, rfl⟩ := hj
    rfl
  · simp only [hpos, if_false, Option.map_eq_map, Option.map_id_fun', id_eq] at hj
    exact hall id reason pos ne hcmd hbus hpasses j other hj (Ne.symm hpos) hid

theorem step_spentClosed {platform : Platform Value} {t t' : Signalling Value}
    {task : Task Value} (hspent : SpentClosed t) (hall : ClosesAll t task)
    (hstep : t.step platform task = some t') : SpentClosed t' := by
  obtain ⟨ex, hex, rfl⟩ := Option.map_eq_some_iff.mp hstep
  by_cases hcmd : ∃ event, task.2.cmd = .broadcast event
  · obtain ⟨event, hcmd⟩ := hcmd
    intro id hid ne hne hneid
    simp only [Signalling.spend, hcmd, List.mem_filter, bne_iff_ne] at hid
    rw [(Job.execute_broadcast hex hcmd).1] at hne
    rcases mem_broadcasted hne with rfl | hne
    · exact absurd hneid.symm hid.2
    · exact hspent id hid.1 ne hne hneid
  · have hmarks := Job.execute_marks hex fun event he => hcmd ⟨event, he⟩
    intro id hid
    have hid : id ∈ ex.emitted.filterMap closedId ++ t.spent := by
      revert hid
      unfold Signalling.spend
      split
      next event he => exact absurd ⟨event, he⟩ hcmd
      next => exact fun hid => hid
    rcases List.mem_append.mp hid with hid | hid
    · obtain ⟨s, hs, hsid⟩ := List.mem_filterMap.mp hid
      rcases Job.execute_emitted hex hs with
        ⟨id', reason, pos, ne, hclose, rfl, hbus, hpasses, rfl⟩ | ⟨hclient, -⟩
      · cases hsid
        exact closed_after_close hall hclose hbus hpasses
      · -- The two client signals spend nothing.
        obtain ⟨_, _, ⟨-, rfl⟩ | ⟨-, rfl⟩⟩ := hclient <;> cases hsid
    · exact closed_of_marks hmarks (hspent id hid)

theorem sparesSpent {platform : Platform Value} {t : Signalling Value} {task : Task Value}
    (hspent : SpentClosed t) (hforce : Flags.force.is task.2.desc.flags = false) :
    SparesSpent platform t task := by
  intro ex hex s hs hmem
  have hopen : ∃ ne, t.manager.find s.id = some ne ∧ ne.closed = false := by
    rcases Job.execute_emitted hex hs with
      ⟨id, reason, pos, ne, -, rfl, -, hpasses, -⟩ | ⟨-, hfind⟩
    · refine ⟨ne, ?_, ?_⟩
      · rw [LogsManager.find_eq_getElem]
        exact Option.bind_eq_some_iff.mpr ⟨pos, hpasses.first, hpasses.found⟩
      · by_contra hclosed
        simpa [hforce] using hpasses.allowed (by simpa using hclosed)
    · exact hfind hforce
  obtain ⟨ne, hfind, hclosed⟩ := hopen
  have hid : ne.id = s.id := by simpa using List.find?_some hfind
  have hspentne := hspent s.id hmem ne (List.mem_of_find?_eq_some hfind) hid
  exact absurd hspentne (by simp [hclosed])

/-- Without force, no signal is emitted for a spent id in the runs where every signalled
close leaves no open notification with its id. -/
theorem spent_ids_silent (platform : Platform Value) (man : LogsManager Value)
    (tasks : List (Task Value))
    (hforce : ∀ task ∈ tasks, Flags.force.is task.2.desc.flags = false)
    (hall : Along (Signalling.step platform) ClosesAll ⟨man, []⟩ tasks) :
    Along (Signalling.step platform) (SparesSpent platform) ⟨man, []⟩ tasks := by
  have hstart : SpentClosed (⟨man, []⟩ : Signalling Value) := by
    intro id hid
    cases hid
  revert hall
  generalize (⟨man, []⟩ : Signalling Value) = t at hstart
  intro hall
  induction tasks generalizing t with
  | nil => trivial
  | cons task tasks ih =>
    rw [List.forall_mem_cons] at hforce
    intro t' hstep
    obtain ⟨hhere, hrest⟩ := hall t' hstep
    exact ⟨sparesSpent hstart hforce.1,
      ih hforce.2 t' (step_spentClosed hstart hhere hstep) hrest⟩

theorem closesAll_single {t : Signalling Value} (h : t.manager.logsBuffer.length ≤ 1)
    (task : Task Value) : ClosesAll t task := by
  intro id reason pos ne _ _ hpasses j other hj hne
  have hpos := (List.getElem?_eq_some_iff.mp hpasses.found).1
  have hother := (List.getElem?_eq_some_iff.mp hj).1
  omega

/-- Notification 1 is closed, and then closed and invoked again. -/
theorem spent_ids_silent_closedTwice :
    Along (Signalling.step Platform.bare) (SparesSpent Platform.bare) ⟨.empty 10, []⟩
      [.at 0 (.broadcast (.bare 1 0 0)), .at 0 (.close 1 .dismissed),
        .at 0 (.close 1 .callCloseNotification), .at 0 (.actionInvoked 1 "default")] := by
  refine spent_ids_silent Platform.bare (.empty 10) _ (by decide) ?_
  intro t ht
  cases ht
  refine ⟨closesAll_single (by decide) _, fun t ht => ?_⟩
  cases ht
  refine ⟨closesAll_single (by decide) _, fun t ht => ?_⟩
  cases ht
  refine ⟨closesAll_single (by decide) _, fun t ht => ?_⟩
  cases ht
  exact ⟨closesAll_single (by decide) _, trivial⟩

def resurfacing : List (Task Unit) :=
  [.at 0 (.broadcast (.bare 1 1 0)), .at 0 (.broadcast (.bare 1 0 0)),
    .at 0 (.broadcast (.bare 2 0 0)), .at 0 (.close 1 .dismissed),
    .at 0 (.broadcast (.bare 2 2 0))]

theorem spent_id_signalled_again :
    ¬ Along (Signalling.step Platform.bare) (SparesSpent Platform.bare) ⟨.empty 10, []⟩
      (resurfacing ++ [.at 0 (.close 1 .callCloseNotification)]) := by
  intro h
  have hrun : run (Signalling.step Platform.bare) ⟨.empty 10, []⟩ resurfacing = some
      ⟨{ LogsManager.empty 10 with
          logsBuffer := [.bare 2 2 0, .bare 1 1 0, (NotificationEvent.bare 1 0 0).setClosed],
          dirty := true }, [1]⟩ := by decide
  have hspares := ((along_append h hrun) _ rfl).1 _ rfl (.notificationClosed 1 3)
  exact hspares (by decide) (by decide)

end NotifsPiper.Signals

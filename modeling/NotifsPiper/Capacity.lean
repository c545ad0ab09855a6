import NotifsPiper.Execution
import NotifsPiper.Runs

/-! How many notifications the log holds. The test for a full log is an equality, so a log
that starts above its bound, or whose bound is zero, grows with every broadcast. -/

namespace NotifsPiper.Capacity

open Runs

variable {Value : Type}

/-- The log holds no more than its bound once the task, a broadcast, is executed. -/
def BoundedAfter (platform : Platform Value) (man : LogsManager Value) (task : Task Value) :
    Prop :=
  ∀ event, task.2.cmd = .broadcast event → ∀ man', man.step platform task = some man' →
    man'.logsBuffer.length ≤ man'.logsConfig.maxLogs.toNat

/-- There is a bound, and the log meets it once the replaced notification is gone. -/
def Fits (man : LogsManager Value) (event : NotificationEvent Value) : Prop :=
  0 < man.logsConfig.maxLogs.toNat ∧
    man.logsBuffer.length ≤
      man.logsConfig.maxLogs.toNat + (if (man.victim event).isSome then 1 else 0)

/-- The first broadcast that the run executes, if any, fits the log it finds. -/
def FirstFits (platform : Platform Value) : LogsManager Value → List (Task Value) → Prop
  | _, [] => True
  | man, task :: tasks =>
    match task.2.cmd with
    | .broadcast event => Fits man event
    | _ => ∀ man', man.step platform task = some man' → FirstFits platform man' tasks

theorem broadcasted_length_iff (man : LogsManager Value) (event : NotificationEvent Value) :
    (man.broadcasted event).logsBuffer.length ≤ man.logsConfig.maxLogs.toNat ↔
      Fits man event := by
  have hlen := Deque.length_enqueue (man.victim event) man.logsConfig.maxLogs.toNat event
    man.logsBuffer
  have hleft := Deque.length_withdraw (@LogsManager.victim_lt _ man event)
  simp only [LogsManager.broadcasted, LogsManager.setDirty, hlen, Fits]
  cases hvic : man.victim event with
  | none =>
    simp only [hvic, Option.isSome_none, Bool.false_eq_true, if_false] at hleft ⊢
    split_ifs <;> omega
  | some i =>
    have hi := LogsManager.victim_lt i hvic
    simp only [hvic, Option.isSome_some, if_true] at hleft ⊢
    split_ifs <;> omega

theorem boundedAfter_iff (platform : Platform Value) (man : LogsManager Value)
    {task : Task Value} {event : NotificationEvent Value} (hcmd : task.2.cmd = .broadcast event) :
    BoundedAfter platform man task ↔ Fits man event := by
  rw [← broadcasted_length_iff]
  constructor
  · intro h
    exact h event hcmd _ (man.step_broadcast platform hcmd)
  · intro h event' _ man' hstep
    rw [man.step_broadcast platform hcmd] at hstep
    cases hstep
    exact h

theorem along_boundedAfter (platform : Platform Value) (man : LogsManager Value)
    (hpos : 0 < man.logsConfig.maxLogs.toNat)
    (hroom : man.logsBuffer.length ≤ man.logsConfig.maxLogs.toNat) (tasks : List (Task Value)) :
    Along (LogsManager.step platform) (BoundedAfter platform) man tasks := by
  induction tasks generalizing man with
  | nil => trivial
  | cons task tasks ih =>
    intro man' hstep
    rcases LogsManager.step_cases hstep with ⟨event, hcmd, rfl⟩ | ⟨hcmd, hconfig, hmarks⟩
    · have hfits : Fits man event := ⟨hpos, by omega⟩
      exact ⟨(boundedAfter_iff platform man hcmd).mpr hfits,
        ih _ hpos ((broadcasted_length_iff man event).mpr hfits)⟩
    · refine ⟨fun event he => absurd he (hcmd event), ih _ ?_ ?_⟩
      · rwa [hconfig]
      · rwa [hconfig, ← hmarks.length_eq]

/-- The log keeps its bound after every broadcast of a run exactly when its first broadcast
fits. -/
theorem bounded_iff_firstFits (platform : Platform Value) (man : LogsManager Value)
    (tasks : List (Task Value)) :
    Along (LogsManager.step platform) (BoundedAfter platform) man tasks ↔
      FirstFits platform man tasks := by
  induction tasks generalizing man with
  | nil => exact Iff.rfl
  | cons task tasks ih =>
    by_cases hcmd : ∃ event, task.2.cmd = .broadcast event
    · obtain ⟨event, hcmd⟩ := hcmd
      have hfirst : FirstFits platform man (task :: tasks) ↔ Fits man event := by
        simp [FirstFits, hcmd]
      rw [hfirst, ← boundedAfter_iff platform man hcmd]
      constructor
      · intro h
        exact (h _ (man.step_broadcast platform hcmd)).1
      · intro h man' hstep
        have hfits := (boundedAfter_iff platform man hcmd).mp h
        rw [man.step_broadcast platform hcmd] at hstep
        cases hstep
        exact ⟨h, along_boundedAfter platform (man.broadcasted event) hfits.1
          ((broadcasted_length_iff man event).mpr hfits) tasks⟩
    · have hcmd : ∀ event, task.2.cmd ≠ .broadcast event := fun event he => hcmd ⟨event, he⟩
      have hfirst : FirstFits platform man (task :: tasks) ↔
          ∀ man', man.step platform task = some man' → FirstFits platform man' tasks := by
        rw [FirstFits]
        split
        next event he => exact absurd he (hcmd event)
        next => exact Iff.rfl
      rw [hfirst]
      refine forall₂_congr fun man' _ => ?_
      rw [ih man']
      exact and_iff_right fun event he => absurd he (hcmd event)

/-- A bound of zero, and a log of three loaded under a bound of one. -/
theorem log_outgrows_bound :
    ¬ Along (LogsManager.step Platform.bare) (BoundedAfter Platform.bare) (.empty 0)
        [.at 0 (.broadcast (.bare 1 0 0))] ∧
      ¬ Along (LogsManager.step Platform.bare) (BoundedAfter Platform.bare)
        { LogsManager.empty 1 with logsBuffer := [.bare 3 0 0, .bare 2 0 0, .bare 1 0 0] }
        [.at 0 (.broadcast (.bare 4 0 0))] := by
  constructor
  · intro h
    have hlen := (h _ rfl).1 _ rfl _ rfl
    exact absurd hlen (by decide)
  · intro h
    have hlen := (h _ rfl).1 _ rfl _ rfl
    exact absurd hlen (by decide)

end NotifsPiper.Capacity

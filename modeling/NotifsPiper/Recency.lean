import NotifsPiper.Execution
import NotifsPiper.Runs

/-! The order of the log. The log is followed together with the number each entry got
when it was appended; the log is in order of recency when these numbers decrease. -/

namespace NotifsPiper.Recency

open Runs

variable {Value : Type}

/-- The manager, the notifications appended so far, and at each place of the log the
number of the append that put its notification there. -/
structure Traced (Value : Type) where
  manager : LogsManager Value
  appended : List (NotificationEvent Value)
  stamps : List Nat

def Traced.start (man : LogsManager Value) : Traced Value := ⟨man, [], []⟩

/-- The trace takes the steps of the manager, and moves the numbers as the log moves. -/
def Traced.step (platform : Platform Value) (t : Traced Value) (task : Task Value) :
    Option (Traced Value) :=
  (t.manager.step platform task).map fun manager =>
    match task.2.cmd with
    | .broadcast event => ⟨manager, t.appended ++ [event],
        Deque.enqueue (t.manager.victim event) t.manager.logsConfig.maxLogs.toNat
          t.appended.length t.stamps⟩
    | _ => ⟨manager, t.appended, t.stamps⟩

def Stamped (t : Traced Value) (ne : NotificationEvent Value) (n : Nat) : Prop :=
  (t.appended[n]?).map NotificationEvent.sent = some ne.sent

/-- Every entry of the log has the number of the append that put it there. -/
def Tied (t : Traced Value) : Prop :=
  List.Forall₂ (Stamped t) t.manager.logsBuffer t.stamps

def Ordered (t : Traced Value) : Prop := t.stamps.Pairwise (· > ·)

/-- When the append of a broadcast evicts, it evicts the least recently appended of the
entries still there. -/
def EvictsOldest (t : Traced Value) (task : Task Value) : Prop :=
  ∀ event, task.2.cmd = .broadcast event →
    let left := Deque.withdraw (t.manager.victim event) t.stamps
    left.length = t.manager.logsConfig.maxLogs.toNat → ∀ b ∈ left.getLast?, ∀ n ∈ left, b ≤ n

def ReadsRecentFirst (t : Traced Value) (task : Task Value) : Prop :=
  ∀ start stop, task.2.cmd = .read start stop → ∀ updateRead slice man,
    t.manager.readLogs start stop updateRead = some (slice, man) →
      ∃ ns : List Nat, ns.Pairwise (· > ·) ∧ List.Forall₂ (Stamped t) slice ns

/-- The notification a broadcast replaces, if any, is one of the last two of the log. -/
def ReplacesAtBack (t : Traced Value) (task : Task Value) : Prop :=
  ∀ event, task.2.cmd = .broadcast event →
    ∀ i ∈ t.manager.victim event, t.manager.logsBuffer.length ≤ i + 2

/-- Forgetting the numbers gives the run of the manager back. -/
theorem step_manager (platform : Platform Value) (t : Traced Value) (task : Task Value) :
    (Traced.step platform t task).map Traced.manager = t.manager.step platform task := by
  unfold Traced.step
  cases t.manager.step platform task with
  | none => rfl
  | some manager =>
    simp only [Option.map_some]
    split <;> rfl

theorem run_manager (platform : Platform Value) (t : Traced Value) (tasks : List (Task Value)) :
    (run (Traced.step platform) t tasks).map Traced.manager =
      run (LogsManager.step platform) t.manager tasks := by
  induction tasks generalizing t with
  | nil => rfl
  | cons task tasks ih =>
    rw [run_cons, run_cons, ← step_manager, Option.map_bind, Option.bind_map]
    exact congrArg _ (funext fun t' => ih t')

structure Kept (t : Traced Value) : Prop where
  tied : Tied t
  room : t.manager.logsBuffer.length ≤ t.manager.logsConfig.maxLogs.toNat
  positive : 0 < t.manager.logsConfig.maxLogs.toNat

theorem stamped_append {t : Traced Value} {ne : NotificationEvent Value} {n : Nat}
    (h : Stamped t ne n) (manager : LogsManager Value) (events : List (NotificationEvent Value))
    (stamps : List Nat) : Stamped ⟨manager, t.appended ++ events, stamps⟩ ne n := by
  unfold Stamped at h ⊢
  have hn : n < t.appended.length := by
    by_contra hn
    rw [List.getElem?_eq_none (by omega)] at h
    cases h
  rwa [List.getElem?_append_left hn]

theorem stamped_lt {t : Traced Value} {ne : NotificationEvent Value} {n : Nat}
    (h : Stamped t ne n) : n < t.appended.length := by
  by_contra hn
  rw [Stamped, List.getElem?_eq_none (by omega)] at h
  cases h

theorem stamps_lt {t : Traced Value} (h : Tied t) : ∀ n ∈ t.stamps, n < t.appended.length := by
  intro n hn
  obtain ⟨i, hi, rfl⟩ := List.getElem_of_mem hn
  exact stamped_lt (List.Forall₂.get h (h.length_eq ▸ hi) hi)

theorem step_cases {platform : Platform Value} {t t' : Traced Value} {task : Task Value}
    (h : Traced.step platform t task = some t') :
    (∃ event, task.2.cmd = .broadcast event ∧
      t' = ⟨t.manager.broadcasted event, t.appended ++ [event],
        Deque.enqueue (t.manager.victim event) t.manager.logsConfig.maxLogs.toNat
          t.appended.length t.stamps⟩) ∨
    ((∀ event, task.2.cmd ≠ .broadcast event) ∧ ∃ manager,
      t' = ⟨manager, t.appended, t.stamps⟩ ∧
        manager.logsConfig = t.manager.logsConfig ∧
          List.Forall₂ Marked t.manager.logsBuffer manager.logsBuffer) := by
  obtain ⟨manager, hman, rfl⟩ := Option.map_eq_some_iff.mp h
  rcases LogsManager.step_cases hman with ⟨event, hcmd, rfl⟩ | ⟨hcmd, hconfig, hmarks⟩
  · left
    exact ⟨event, hcmd, by simp [hcmd]⟩
  · right
    refine ⟨hcmd, manager, ?_, hconfig, hmarks⟩
    split
    next event heq => exact absurd heq (hcmd event)
    next => rfl

theorem step_kept {platform : Platform Value} {t t' : Traced Value} {task : Task Value}
    (hkept : Kept t) (h : Traced.step platform t task = some t') : Kept t' := by
  rcases step_cases h with ⟨event, -, rfl⟩ | ⟨-, manager, rfl, hconfig, hmarks⟩
  · have hv := @LogsManager.victim_lt _ t.manager event
    refine ⟨?_, ?_, hkept.positive⟩
    · refine Deque.forall₂_enqueue ?_ ?_ hv _
      · exact hkept.tied.imp fun ne n hn => stamped_append hn _ _ _
      · simp [Stamped]
    · have hlen := Deque.length_enqueue (t.manager.victim event)
        t.manager.logsConfig.maxLogs.toNat event t.manager.logsBuffer
      have hleft := Deque.length_withdraw hv
      have hroom := hkept.room
      have hpos := hkept.positive
      simp only [LogsManager.broadcasted, LogsManager.setDirty, hlen]
      split_ifs with hfull <;> omega
  · refine ⟨Marked.transfer ?_ hmarks hkept.tied, ?_, ?_⟩
    · intro before after n hmark hn
      rw [Stamped, hmark.sent]
      exact hn
    · rw [hconfig, ← hmarks.length_eq]
      exact hkept.room
    · rw [hconfig]
      exact hkept.positive

theorem start_kept (man : LogsManager Value) (hempty : man.logsBuffer = [])
    (hmax : 0 < man.logsConfig.maxLogs.toNat) : Kept (Traced.start man) := by
  refine ⟨?_, ?_, hmax⟩
  · rw [Tied, Traced.start, hempty]
    exact .nil
  · simp [Traced.start, hempty]

theorem step_ordered_iff {platform : Platform Value} {t t' : Traced Value} {task : Task Value}
    (hkept : Kept t) (hord : Ordered t) (h : Traced.step platform t task = some t') :
    Ordered t' ↔ ReplacesAtBack t task := by
  have hlen := hkept.tied.length_eq
  rcases step_cases h with ⟨event, hcmd, rfl⟩ | ⟨hcmd, manager, rfl, -, -⟩
  · have hv : ∀ i ∈ t.manager.victim event, i < t.stamps.length := by
      rw [← hlen]
      exact LogsManager.victim_lt
    have hstep := Deque.enqueue_pairwise_iff hv (hlen ▸ hkept.room) hord (stamps_lt hkept.tied)
    rw [Ordered, hstep, ← hlen]
    constructor
    · intro hback event' hcmd'
      rw [hcmd] at hcmd'
      cases hcmd'
      exact hback
    · intro hback
      exact hback event hcmd
  · refine iff_of_true hord fun event he => ?_
    exact absurd he (hcmd event)

theorem evictsOldest_of_ordered {t : Traced Value} (hkept : Kept t) (hord : Ordered t)
    (task : Task Value) : EvictsOldest t task := by
  intro event _ left hfull
  have hlen := hkept.tied.length_eq
  have hv : ∀ i ∈ t.manager.victim event, i < t.stamps.length := by
    rw [← hlen]
    exact LogsManager.victim_lt
  -- A replacement makes room, so only a broadcast that replaces nothing evicts.
  have hleft : left = t.stamps := by
    cases hvic : t.manager.victim event with
    | none => exact congrArg (Deque.withdraw · t.stamps) hvic
    | some i =>
      have hwith := Deque.length_withdraw hv
      have hi := hv i hvic
      have hroom := hkept.room
      simp only [hvic, Option.isSome_some, if_true] at hwith
      simp only [left, hvic] at hfull
      omega
  rw [hleft]
  intro b hb n hn
  obtain ⟨front, hfront⟩ := List.getLast?_eq_some_iff.mp hb
  rw [hfront, List.mem_append] at hn
  rw [Ordered, hfront, List.pairwise_append] at hord
  rcases hn with hn | hn
  · exact (hord.2.2 n hn b (by simp)).le
  · simp at hn
    exact hn.ge

theorem readsRecentFirst_of_ordered {t : Traced Value} (hkept : Kept t) (hord : Ordered t)
    (task : Task Value) : ReadsRecentFirst t task := by
  intro start stop _ updateRead slice man hread
  obtain ⟨first, n, hslice⟩ := LogsManager.readLogs_slice hread
  refine ⟨(t.stamps.drop first).take n, ?_, ?_⟩
  · exact hord.sublist ((List.take_sublist n _).trans (List.drop_sublist first _))
  · refine Marked.transfer ?_ hslice (List.forall₂_take n (List.forall₂_drop first hkept.tied))
    intro before after m hmark hm
    rw [Stamped, hmark.sent]
    exact hm

/-- Over the runs from an empty log: each entry keeps the number of its append, and the log
stays in order of recency, with every eviction the oldest and every read the most recent
first, exactly when no broadcast replaces an entry further up than the last two. -/
theorem log_recent_first_iff (platform : Platform Value) (man : LogsManager Value)
    (hempty : man.logsBuffer = []) (hmax : 0 < man.logsConfig.maxLogs.toNat)
    (tasks : List (Task Value)) :
    Always (Traced.step platform) Tied (Traced.start man) tasks ∧
      ((Always (Traced.step platform) Ordered (Traced.start man) tasks ∧
          Along (Traced.step platform) EvictsOldest (Traced.start man) tasks ∧
          Along (Traced.step platform) ReadsRecentFirst (Traced.start man) tasks) ↔
        Along (Traced.step platform) ReplacesAtBack (Traced.start man) tasks) := by
  have hstart := start_kept man hempty hmax
  have hkept : Always (Traced.step platform) Kept (Traced.start man) tasks :=
    always_of_invariant (fun _ _ _ => step_kept) hstart tasks
  have hord : Ordered (Traced.start man) := List.Pairwise.nil
  have hiff : Always (Traced.step platform) Ordered (Traced.start man) tasks ↔
      Along (Traced.step platform) ReplacesAtBack (Traced.start man) tasks :=
    always_iff_along (fun _ _ _ => step_kept) (fun _ _ _ => step_ordered_iff) hstart hord tasks
  refine ⟨hkept.mono fun _ h => h.tied, fun h => hiff.mp h.1, fun h => ?_⟩
  have hboth := hkept.and (hiff.mpr h)
  refine ⟨hiff.mpr h, hboth.along fun t task ht => ?_, hboth.along fun t task ht => ?_⟩
  · exact evictsOldest_of_ordered ht.1 ht.2 task
  · exact readsRecentFirst_of_ordered ht.1 ht.2 task

def replacingFirst : List (Task Unit) :=
  [.at 0 (.broadcast (.bare 1 0 0)), .at 0 (.broadcast (.bare 2 0 0)),
    .at 0 (.broadcast (.bare 3 0 0)), .at 0 (.broadcast (.bare 3 3 0))]

theorem log_recent_first_iff_replacingFirst :
    Always (Traced.step Platform.bare) Tied (.start (.empty 4)) replacingFirst ∧
      ((Always (Traced.step Platform.bare) Ordered (.start (.empty 4)) replacingFirst ∧
          Along (Traced.step Platform.bare) EvictsOldest (.start (.empty 4)) replacingFirst ∧
          Along (Traced.step Platform.bare) ReadsRecentFirst (.start (.empty 4)) replacingFirst) ↔
        Along (Traced.step Platform.bare) ReplacesAtBack (.start (.empty 4)) replacingFirst) :=
  log_recent_first_iff Platform.bare (.empty 4) rfl (by decide) replacingFirst

theorem replacing_first_disorders :
    (run (Traced.step Platform.bare) (.start (.empty 4)) replacingFirst).map Traced.stamps =
        some [3, 0, 1] ∧
      ¬ Always (Traced.step Platform.bare) Ordered (.start (.empty 4)) replacingFirst := by
  have hrun : (run (Traced.step Platform.bare) (.start (.empty 4)) replacingFirst).map
      Traced.stamps = some [3, 0, 1] := by decide
  refine ⟨hrun, fun h => ?_⟩
  obtain ⟨t, ht, hstamps⟩ := Option.map_eq_some_iff.mp hrun
  have hord : Ordered t := always_iff.mp h _ (List.prefix_refl _) t ht
  rw [Ordered, hstamps] at hord
  exact absurd hord (by decide)

end NotifsPiper.Recency

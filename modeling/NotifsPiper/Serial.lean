import NotifsPiper.Daemon
import NotifsPiper.Queueing

/-! The daemon in one order. Whatever the interleaving of the bus, the timers, the clients
and the manager thread, the daemon is a service of jobs, first come first served: it takes
the jobs in the order in which they were pushed, performs each as one step on the log, and
sends the results in that order. -/

namespace NotifsPiper.Serial

open Runs Queueing

variable {Value : Type}

def results (platform : Platform Value) (pid : Pid) (fj : FulfilledJob) : List Transmission :=
  match fj.result with
  | .ok none => []
  | _ => [Transmission.fromFulfilled platform fj pid]

def perform (platform : Platform Value) (man : LogsManager Value) (task : Task Value) :
    Option (LogsManager Value × List Transmission) :=
  (Job.execute platform task.1 task.2 man).map fun ex =>
    (ex.manager, results platform task.2.desc.pid ex.fulfilled)

def taskPushes (platform : Platform Value) : ListenerTask Value → List (JobDesc Value)
  | .pushing jobd => [jobd]
  | .acknowledging data =>
    match platform.eventFromStr data with
    | .ok event => [⟨.acknowledge event.id, ⟨0, 0⟩⟩]
    | .error _ => []
  | _ => []

def timerPushes : TimerThread → List (JobDesc Value)
  | .asleep timer _ => [⟨.close timer.id .expired, ⟨0, 0⟩⟩]
  | .notifying => []

def pushes (platform : Platform Value) (d : Daemon Value) (l : Label Value) :
    List (JobDesc Value) :=
  if d.poisoned then []
  else match l with
    | .notify call now => [⟨.broadcast (Notifications.notify d.counter call now).2, ⟨0, 0⟩⟩]
    | .closeNotification nid => [⟨.close nid .callCloseNotification, ⟨0, 0⟩⟩]
    | .wake i _ => d.timers[i]?.elim [] timerPushes
    | .listen i _ _ => d.tasks[i]?.elim [] (taskPushes platform)
    | _ => []

inductive Source (platform : Platform Value) (d : Daemon Value) : Label Value → JobDesc Value → Prop
  | notify (call : NotifyCall Value) (now : Option Duration) :
    Source platform d (.notify call now)
      ⟨.broadcast (Notifications.notify d.counter call now).2, ⟨0, 0⟩⟩
  | closeNotification (nid : Nid) :
    Source platform d (.closeNotification nid) ⟨.close nid .callCloseNotification, ⟨0, 0⟩⟩
  | timer {i : Nat} {timer : Timer} {snd : Bool} (instant : Nat)
    (h : .asleep timer snd ∈ d.timers) :
    Source platform d (.wake i instant) ⟨.close timer.id .expired, ⟨0, 0⟩⟩
  | client {i : Nat} {written : Bool} {broken : List Pid} {jd : JobDesc Value}
    (h : .pushing jd ∈ d.tasks) : Source platform d (.listen i written broken) jd
  | watcher {i : Nat} {written : Bool} {broken : List Pid} {data : String}
    {event : NotificationEvent Value} (h : .acknowledging data ∈ d.tasks)
    (hevent : platform.eventFromStr data = .ok event) :
    Source platform d (.listen i written broken) ⟨.acknowledge event.id, ⟨0, 0⟩⟩

theorem pushes_source {platform : Platform Value} {d : Daemon Value} {l : Label Value}
    {jd : JobDesc Value} (h : jd ∈ pushes platform d l) : Source platform d l jd := by
  unfold pushes at h
  split_ifs at h
  · cases h
  split at h
  next call now =>
    cases List.mem_singleton.mp h
    exact .notify call now
  next nid =>
    cases List.mem_singleton.mp h
    exact .closeNotification nid
  next i instant =>
    cases htimer : d.timers[i]? with
    | none => simp [htimer] at h
    | some timer =>
      cases timer with
      | asleep timer snd =>
        simp only [htimer, Option.elim_some, timerPushes, List.mem_singleton] at h
        subst h
        exact .timer instant (List.mem_of_getElem? htimer)
      | notifying => simp [htimer, timerPushes] at h
  next i written broken =>
    cases htask : d.tasks[i]? with
    | none => simp [htask] at h
    | some task =>
      have hmem := List.mem_of_getElem? htask
      simp only [htask, Option.elim_some] at h
      unfold taskPushes at h
      split at h
      · cases List.mem_singleton.mp h
        exact .client hmem
      · split at h
        next event hevent =>
          cases List.mem_singleton.mp h
          exact .watcher hmem hevent
        next => cases h
      · cases h
  · cases h

/-- The result that a step of the manager thread gets through to the listener. -/
def sends (d : Daemon Value) : Label Value → List Transmission
  | .reply arrived failed =>
    match d.phase with
    | .replying tr => if arrived || !failed then [tr] else []
    | _ => []
  | _ => []

/-- What is seen of a step: the jobs that come and the results that go. -/
def see (platform : Platform Value) (d : Daemon Value) (l : Label Value) :
    List (Sight (JobDesc Value) Transmission) :=
  (pushes platform d l).map .put ++ (sends d l).map .answer

/-- The job the manager thread has taken out of the list, and the result it has not sent. One
of the two may be lost with it. -/
def Holds (phase : Phase Value) (hand : List (JobDesc Value)) (outbox : List Transmission) :
    Prop :=
  match phase with
  | .idle => hand = [] ∧ outbox = []
  | .woken => hand = [] ∧ outbox = []
  | .executing jd _ => hand = [jd] ∧ outbox = []
  | .replying tr => hand = [] ∧ outbox = [tr]
  | .dead _ => hand.length + outbox.length ≤ 1

/-- The daemon stands where the service does. -/
structure Serves (d : Daemon Value)
    (s : Server (JobDesc Value) (LogsManager Value) Transmission) : Prop where
  queue : ∃ hand, Holds d.phase hand s.outbox ∧ s.queue = hand ++ d.list
  log : s.state.saved = d.manager.saved

def service (man : LogsManager Value) : Server (JobDesc Value) (LogsManager Value) Transmission :=
  ⟨[], man, []⟩

/-! The steps of everyone but the manager thread. -/

theorem deliver_list (d : Daemon Value) (written : Bool) (stream : Conn) (tr : Transmission) :
    (d.deliver written stream tr).list = d.list := by
  unfold Daemon.deliver
  split_ifs <;> rfl

theorem broadcast_list (d : Daemon Value) (data : String) (broken : List Pid) :
    (d.broadcast data broken).list = d.list := by
  unfold Daemon.broadcast
  dsimp only
  split_ifs
  · split <;> rfl
  · rfl

theorem conclude_list (platform : Platform Value) (d : Daemon Value) (pid : Pid) (empty : Bool)
    (fj : FulfilledJob) (disk : Except (List UInt8) Unit) :
    (d.conclude platform pid empty fj disk).list = d.list := by
  unfold Daemon.conclude
  dsimp only
  split_ifs
  · split <;> rfl
  · rfl

theorem task_pushes {platform : Platform Value} {written : Bool} {broken : List Pid}
    {d d' : Daemon Value} {task : ListenerTask Value}
    (h : task.step platform written broken d = some d') :
    d'.list = d.list ++ if d.poisoned then [] else taskPushes platform task := by
  unfold ListenerTask.step at h
  split at h
  · cases h
    simp [taskPushes, deliver_list]
  · split at h
    · cases h; simp [taskPushes]
    · cases h; simp [taskPushes, deliver_list]
    · split_ifs at h <;> cases h <;> simp [taskPushes, Daemon.spawn]
  · split_ifs at h
    · cases h; simp [taskPushes, broadcast_list]
    · cases h; simp [taskPushes, Daemon.spawn]
  · cases h; simp [taskPushes, Daemon.spawn]
  · split_ifs at h with hsending hpoisoned
    · cases h; simp [hpoisoned]
    · cases h; simp [taskPushes, hpoisoned, Daemon.push, Daemon.spawn]
  · split_ifs at h with hsending hpoisoned
    · cases h; simp [hpoisoned]
    · split at h
      next hevent => cases h; simp [taskPushes, hevent, hpoisoned, Daemon.push, Daemon.spawn]
      next hevent => cases h; simp [taskPushes, hevent]
  · split_ifs at h <;> cases h <;> simp [taskPushes]
  · cases h; simp [taskPushes]
  · cases h; simp [taskPushes, deliver_list]

theorem pushJob_pushes {d d' : Daemon Value} {jd : JobDesc Value} (h : d.pushJob jd = some d') :
    d'.list = d.list ++ if d.poisoned then [] else [jd] := by
  obtain ⟨-, ⟨hpoisoned, rfl⟩ | ⟨hpoisoned, rfl⟩⟩ := Daemon.pushJob_cases h
  · simp [hpoisoned]
  · simp [hpoisoned, Daemon.push]

theorem wake_pushes {d d' : Daemon Value} {i instant : Nat} (h : d.wake i instant = some d') :
    d'.list = d.list ++ if d.poisoned then [] else d.timers[i]?.elim [] timerPushes := by
  obtain ⟨timer, snd, hi, -, -, ⟨hpoisoned, rfl⟩ | ⟨hpoisoned, rfl⟩⟩ := Daemon.wake_cases h
  · simp [hpoisoned]
  · simp [hpoisoned, hi, timerPushes, Daemon.push]

theorem still_pushes {platform : Platform Value} {d d' : Daemon Value} {l : Label Value}
    (h : d.step platform l = some d') (hl : l ≠ .pop) :
    d'.list = d.list ++ pushes platform d l := by
  cases l with
  | notify call now =>
    have hpush := pushJob_pushes (show Daemon.pushJob _ _ = some d' from h)
    exact hpush
  | closeNotification nid => exact pushJob_pushes h
  | busSend =>
    obtain ⟨-, ⟨-, rfl⟩ | ⟨-, rfl⟩⟩ := Daemon.busSend_cases h <;> simp [pushes]
  | connect tr =>
    cases h
    simp [pushes, Daemon.accept, Daemon.spawn]
  | listen i written broken =>
    obtain ⟨task, hi, h⟩ := Option.bind_eq_some_iff.mp h
    rw [task_pushes h, pushes, hi]
    rfl
  | wake i instant => exact wake_pushes h
  | timerSend i =>
    obtain ⟨-, ⟨-, rfl⟩ | ⟨-, rfl⟩⟩ := Daemon.timerSend_cases h <;> simp [pushes]
  | recv =>
    obtain ⟨-, -, rfl⟩ := Daemon.recv_cases h
    simp [pushes]
  | pop => exact absurd rfl hl
  | execute env disk =>
    obtain ⟨jd, empty, -, ⟨-, rfl⟩ | ⟨ex, -, rfl⟩⟩ := Daemon.execute_outcome h
    · simp [pushes, Daemon.die]
    · simp [pushes, conclude_list]
  | reply arrived failed =>
    obtain ⟨tr, -, ⟨-, rfl⟩ | ⟨-, rfl | rfl⟩⟩ := Daemon.reply_cases h <;>
      simp [pushes, Daemon.accept, Daemon.spawn, Daemon.die]

/-! The steps of the manager thread. -/

section Steps

variable {platform : Platform Value} {d d' : Daemon Value}
  {s : Server (JobDesc Value) (LogsManager Value) Transmission}

/-- The service comes to stand where the daemon does, and shows what the step shows. -/
def Follows (platform : Platform Value) (d d' : Daemon Value) (l : Label Value)
    (s : Server (JobDesc Value) (LogsManager Value) Transmission) : Prop :=
  ∃ events s', run (step (perform platform)) s events = some s' ∧ Serves d' s' ∧
    trace (step (perform platform)) Queueing.see s events = see platform d l

theorem quiet_follows {l : Label Value} (hs : Serves d' s) (hsee : see platform d l = []) :
    Follows platform d d' l s :=
  ⟨[], s, rfl, hs, hsee.symm⟩

theorem still_follows {l : Label Value} (hs : Serves d s) (hman : d'.manager = d.manager)
    (hphase : d'.phase = d.phase) (hlist : d'.list = d.list ++ pushes platform d l)
    (hsends : sends d l = []) : Follows platform d d' l s := by
  obtain ⟨hrun, htrace⟩ := @run_puts _ _ _ _ (perform platform) s (pushes platform d l)
  obtain ⟨hand, hholds, hqueue⟩ := hs.queue
  refine ⟨_, _, hrun, ⟨⟨hand, hphase ▸ hholds, ?_⟩, ?_⟩, ?_⟩
  · rw [hlist, ← List.append_assoc, ← hqueue]
  · rw [hman]
    exact hs.log
  · rw [htrace, see, hsends, List.map_nil, List.append_nil]

theorem recv_follows (hs : Serves d s) (h : d.recv = some d') : Follows platform d d' .recv s := by
  obtain ⟨hphase, -, rfl⟩ := Daemon.recv_cases h
  obtain ⟨hand, hholds, hqueue⟩ := hs.queue
  rw [hphase] at hholds
  exact quiet_follows ⟨⟨hand, hholds, hqueue⟩, hs.log⟩ (by simp [see, pushes, sends])

theorem pop_follows (hs : Serves d s) (h : d.pop = some d') : Follows platform d d' .pop s := by
  obtain ⟨hphase, -, hcases⟩ := Daemon.pop_cases h
  obtain ⟨hand, hholds, hqueue⟩ := hs.queue
  rw [hphase] at hholds
  obtain ⟨rfl, houtbox⟩ := hholds
  have hsee : see platform d .pop = [] := by simp [see, pushes, sends]
  have hless : ([] : List (JobDesc Value)).length + s.outbox.length ≤ 1 := by simp [houtbox]
  obtain ⟨-, rfl⟩ | ⟨-, rfl⟩ | ⟨jd, rest, hlist, rfl⟩ := hcases
  · exact quiet_follows ⟨⟨[], hless, hqueue⟩, hs.log⟩ hsee
  · exact quiet_follows ⟨⟨[], hless, hqueue⟩, hs.log⟩ hsee
  · refine quiet_follows ⟨⟨[jd], ⟨rfl, houtbox⟩, ?_⟩, hs.log⟩ hsee
    rw [hqueue, hlist]
    rfl

theorem reply_follows {arrived failed : Bool} (hs : Serves d s)
    (h : d.reply arrived failed = some d') : Follows platform d d' (.reply arrived failed) s := by
  obtain ⟨hand, hholds, hqueue⟩ := hs.queue
  unfold Daemon.reply at h
  split at h
  next tr hphase =>
    rw [hphase] at hholds
    obtain ⟨rfl, houtbox⟩ := hholds
    obtain ⟨hrun, htrace⟩ := @run_answer _ _ _ _ (perform platform) s _ _ houtbox
    have hsee : see platform d (.reply arrived failed) =
        if arrived || !failed then [.answer tr] else [] := by
      simp only [see, pushes, sends, hphase]
      split_ifs <;> rfl
    have halive : Serves (if failed then (d.accept tr).die .failed else
        { d.accept tr with phase := .idle }) { s with outbox := [] } := by
      cases failed with
      | false => exact ⟨⟨[], ⟨rfl, rfl⟩, hqueue⟩, hs.log⟩
      | true => exact ⟨⟨[], Nat.zero_le 1, hqueue⟩, hs.log⟩
    cases harrived : arrived || !failed with
    | true =>
      rw [harrived, if_pos rfl] at h hsee
      cases h
      exact ⟨_, _, hrun, halive, htrace.trans hsee.symm⟩
    | false =>
      rw [harrived, if_neg Bool.false_ne_true] at h hsee
      obtain rfl : failed = true := by simpa using (Bool.or_eq_false_iff.mp harrived).2
      cases h
      refine quiet_follows ⟨⟨[], ?_, hqueue⟩, hs.log⟩ hsee
      simp [Daemon.die, Holds, houtbox]
  · cases h

theorem sendBack_holds (platform : Platform Value) (pid : Pid) (fj : FulfilledJob) :
    Holds (Daemon.sendBack platform pid fj) ([] : List (JobDesc Value))
      (results platform pid fj) := by
  rcases hresult : fj.result with err | (_ | text) <;>
    simp [Daemon.sendBack, results, hresult, Holds]

theorem results_length (platform : Platform Value) (pid : Pid) (fj : FulfilledJob) :
    (results platform pid fj).length ≤ 1 := by
  unfold results
  split <;> simp

theorem conclude_holds (platform : Platform Value) (d : Daemon Value) (pid : Pid) (empty : Bool)
    (fj : FulfilledJob) (disk : Except (List UInt8) Unit) :
    Holds (d.conclude platform pid empty fj disk).phase ([] : List (JobDesc Value))
      (results platform pid fj) := by
  have hback : Holds (Daemon.sendBack platform pid fj) ([] : List (JobDesc Value))
      (results platform pid fj) := sendBack_holds platform pid fj
  have hless := results_length platform pid fj
  unfold Daemon.conclude
  dsimp only
  split_ifs
  · split
    · exact hback
    · simpa [Daemon.die, Holds] using hless
  · exact hback

theorem execute_follows {env : Env} {disk : Except (List UInt8) Unit} (hs : Serves d s)
    (h : d.execute platform env disk = some d') :
    Follows platform d d' (.execute env disk) s := by
  obtain ⟨hand, hholds, hqueue⟩ := hs.queue
  obtain ⟨jd, empty, hphase, hcases⟩ := Daemon.execute_outcome h
  rw [hphase] at hholds
  obtain ⟨rfl, houtbox⟩ := hholds
  have hsee : see platform d (.execute env disk) = [] := by simp [see, pushes, sends]
  obtain ⟨-, rfl⟩ | ⟨ex, hex, rfl⟩ := hcases
  · refine quiet_follows ⟨⟨[jd], ?_, hqueue⟩, hs.log⟩ hsee
    simp [Daemon.die, Holds, houtbox]
  · obtain ⟨ex', hex', hsaved⟩ := Job.execute_alike hs.log hex
    have hperform : perform platform s.state (env, jd) =
        some (ex'.manager, results platform jd.desc.pid ex'.fulfilled) := by
      rw [perform, hex', Option.map_some]
    obtain ⟨hfulfilled, hmanager, -⟩ := Executed.mk.inj hsaved
    obtain ⟨hrun, htrace⟩ := run_serve hqueue hperform
    refine ⟨_, _, hrun, ⟨⟨[], ?_, ?_⟩, ?_⟩, htrace.trans hsee.symm⟩
    · rw [houtbox, hfulfilled]
      exact conclude_holds _ _ _ _ _ _
    · rw [conclude_list]
      rfl
    · obtain ⟨hlog, hsetup, -⟩ := Daemon.conclude_log platform
        { d with
          manager := ex.manager
          timers := (ex.timer.map fun timer =>
            TimerThread.asleep timer ex.manager.notifyer).toList ++ d.timers
          executed := d.executed ++ [(d.manager, env, jd)] } jd.desc.pid empty ex.fulfilled disk
      rw [LogsManager.saved_eq hlog hsetup]
      exact hmanager

theorem step_follows {l : Label Value} (hs : Serves d s) (h : d.step platform l = some d') :
    Follows platform d d' l s := by
  rcases Daemon.step_still h with hstill | ⟨rfl, h⟩ | ⟨rfl, h⟩ | ⟨env, disk, rfl, h⟩ |
    ⟨arrived, failed, rfl, h⟩
  · cases l with
    | pop => exact pop_follows hs h
    | reply arrived failed => exact reply_follows hs h
    | _ => exact still_follows hs hstill.manager hstill.phase (still_pushes h (by simp)) rfl
  · exact recv_follows hs h
  · exact pop_follows hs h
  · exact execute_follows hs h
  · exact reply_follows hs h

end Steps

def pushed (platform : Platform Value) (d : Daemon Value) (labels : List (Label Value)) :
    List (JobDesc Value) :=
  (trace (Daemon.step platform) (see platform) d labels).filterMap Sight.putOf

def sent (platform : Platform Value) (d : Daemon Value) (labels : List (Label Value)) :
    List Transmission :=
  (trace (Daemon.step platform) (see platform) d labels).filterMap Sight.answerOf

theorem start_serves (man : LogsManager Value) (logsFile : Option (List UInt8)) :
    Serves (Daemon.start man logsFile) (service (Daemon.start man logsFile).manager) :=
  ⟨⟨[], ⟨rfl, rfl⟩, rfl⟩, rfl⟩

/-- Every run of the daemon shows what some run of the service shows: the same jobs come and
the same results go, in the same order, and the log is where the service has brought it. -/
theorem run_serves (platform : Platform Value) (man : LogsManager Value)
    (logsFile : Option (List UInt8)) (labels : List (Label Value)) (d : Daemon Value)
    (hrun : run (Daemon.step platform) (Daemon.start man logsFile) labels = some d) :
    ∃ events s, run (step (perform platform)) (service (Daemon.start man logsFile).manager)
        events = some s ∧ Serves d s ∧
      trace (step (perform platform)) Queueing.see
          (service (Daemon.start man logsFile).manager) events =
        trace (Daemon.step platform) (see platform) (Daemon.start man logsFile) labels :=
  run_simulated (fun _ _ _ _ hs h => step_follows hs h) (start_serves man logsFile) hrun

/-- The jobs done so far are the first of those pushed, one after another; what remains of
these is in the hands of the manager thread or in the list. -/
theorem run_in_order {platform : Platform Value} {man : LogsManager Value}
    {logsFile : Option (List UInt8)} {labels : List (Label Value)} {d : Daemon Value}
    (hrun : run (Daemon.step platform) (Daemon.start man logsFile) labels = some d) :
    ∃ tasks m outbox hand, performAll (perform platform) (Daemon.start man logsFile).manager tasks =
        some (m, sent platform (Daemon.start man logsFile) labels ++ outbox) ∧
      m.saved = d.manager.saved ∧ Holds d.phase hand outbox ∧
      pushed platform (Daemon.start man logsFile) labels =
        tasks.map Prod.snd ++ hand ++ d.list := by
  obtain ⟨events, s, hserved, hs, htrace⟩ :=
    run_simulated (fun _ _ _ _ hs h => step_follows hs h) (start_serves man logsFile) hrun
  obtain ⟨tasks, replies, hperform, hqueue, houtbox⟩ := run_served hserved
  obtain ⟨hand, hholds, hwaits⟩ := hs.queue
  rw [htrace] at hqueue houtbox
  refine ⟨tasks, s.state, s.outbox, hand, ?_, hs.log, hholds, ?_⟩
  · rw [show sent platform _ labels ++ s.outbox = replies from houtbox.symm]
    exact hperform
  · rw [List.append_assoc, ← hwaits]
    exact hqueue

def crossing : List (Label Unit) :=
  [.connect ⟨.incoming 4, "4#0##query##7"⟩, .listen 0 true [], .listen 0 true [],
    .listen 0 true [], .closeNotification 3, .listen 0 true [], .busSend, .recv, .pop,
    .execute ⟨some ⟨0, 0⟩, 0, .ok (), true, true⟩ (.ok ()), .reply true false]

theorem run_serves_crossing :
    ∃ events, (run (step (perform Platform.bare))
        (service (Daemon.start (.empty 10) none).manager) events).isSome = true ∧
      trace (step (perform Platform.bare)) Queueing.see
          (service (Daemon.start (.empty 10) none).manager) events =
        [.put ⟨.query 7, ⟨4, 0⟩⟩, .put ⟨.close 3 .callCloseNotification, ⟨0, 0⟩⟩,
          .answer ⟨.outgoing 4, "res#false"⟩] := by
  have hsome : (run (Daemon.step Platform.bare) (Daemon.start (.empty 10) none) crossing).isSome =
      true := by decide
  obtain ⟨d, hd⟩ := Option.isSome_iff_exists.mp hsome
  obtain ⟨events, s, hrun, -, htrace⟩ := run_serves Platform.bare (.empty 10) none crossing d hd
  refine ⟨events, by rw [hrun]; rfl, htrace.trans ?_⟩
  decide

end NotifsPiper.Serial

import NotifsPiper.Closing
import NotifsPiper.Queueing

/-! What the daemon does, and who asked for it. Each job comes from a call on the bus, a
connection or a timer, and each signal on the bus from a job: none without its cause, and none
twice for one. As long as the manager thread lives and the lock of the list is sound, none is
lost either. -/

namespace NotifsPiper.Origins

open Runs Queueing

variable {Value : Type}

def taskAsks (platform : Platform Value) : ListenerTask Value → List (Job Value)
  | .received _ ⟨.incoming _, data⟩ =>
    match (JobDesc.fromStr platform data).run with
    | some (.ok jobd) => [jobd.cmd]
    | _ => []
  | .inserting _ _ jobd => [jobd.cmd]
  | .pushing jobd => [jobd.cmd]
  | _ => []

def timerAsks : TimerThread → List (Job Value)
  | .asleep timer _ => [.close timer.id .expired]
  | .notifying => []

def handAsks : Phase Value → List (Job Value)
  | .executing jd _ => [jd.cmd]
  | _ => []

def armed (platform : Platform Value) (d : Daemon Value) (env : Env) : List (Job Value) :=
  match d.phase with
  | .executing jd _ =>
    match Job.execute platform env jd d.manager with
    | some ex => ex.timer.toList.map fun timer => .close timer.id .expired
    | none => []
  | _ => []

def asks (platform : Platform Value) (d : Daemon Value) : Label Value → List (Job Value)
  | .notify call now => [.broadcast (Notifications.notify d.counter call now).2]
  | .closeNotification nid => [.close nid .callCloseNotification]
  | .connect tr => taskAsks platform (.received d.accepted.length tr)
  | .execute env _ => armed platform d env
  | _ => []

def asked (platform : Platform Value) (d : Daemon Value) (labels : List (Label Value)) :
    List (Job Value) :=
  trace (Daemon.step platform) (asks platform) d labels

def done (d : Daemon Value) : List (Job Value) := d.executed.map fun e => e.2.2.cmd

def underway (platform : Platform Value) (d : Daemon Value) : List (Job Value) :=
  handAsks d.phase ++ d.list.map JobDesc.cmd ++ d.tasks.flatMap (taskAsks platform) ++
    d.timers.flatMap timerAsks

/-- The jobs that are put on the list for who asks: not `watch`, which the listener answers
itself, nor the acknowledgement of what was broadcast to the watching processes. -/
def Listed (p : Job Value → Bool) : Prop := p .watch = false ∧ ∀ id, p (.acknowledge id) = false

def total (platform : Platform Value) (p : Job Value → Bool) (d : Daemon Value) : Nat :=
  (done d).countP p + (underway platform d).countP p

/-- `n` jobs come, of which the daemon may lose some when it is no longer sound. -/
def Comes (platform : Platform Value) (p : Job Value → Bool) (n : Nat) (d d' : Daemon Value) :
    Prop :=
  total platform p d' ≤ total platform p d + n ∧
    (d'.alive = true → d.poisoned = false → total platform p d' = total platform p d + n)

section Steps

variable {platform : Platform Value} {p : Job Value → Bool} {d d' : Daemon Value}

theorem total_eq (platform : Platform Value) (p : Job Value → Bool) (d : Daemon Value) :
    total platform p d = (done d).countP p + (handAsks d.phase).countP p +
      (d.list.map JobDesc.cmd).countP p + (d.tasks.flatMap (taskAsks platform)).countP p +
      (d.timers.flatMap timerAsks).countP p := by
  simp only [total, underway, List.countP_append]
  omega

theorem Comes.of_eq {n : Nat} (h : total platform p d' = total platform p d + n) :
    Comes platform p n d d' := ⟨h.le, fun _ _ => h⟩

theorem countP_eraseIdx {α : Type} (f : α → List (Job Value)) (p : Job Value → Bool) {xs : List α}
    {i : Nat} {x : α} (h : xs[i]? = some x) :
    (xs.flatMap f).countP p = (f x).countP p + ((xs.eraseIdx i).flatMap f).countP p := by
  rw [((Daemon.perm_cons_eraseIdx h).flatMap_right f).countP_eq, List.flatMap_cons,
    List.countP_append]

theorem pushJob_comes {jd : JobDesc Value} (h : d.pushJob jd = some d') :
    Comes platform p ([jd.cmd].countP p) d d' := by
  obtain ⟨-, ⟨hpoisoned, rfl⟩ | ⟨-, rfl⟩⟩ := Daemon.pushJob_cases h
  · exact ⟨Nat.le_add_right _ _, fun _ hsound => Bool.noConfusion (hsound.symm.trans hpoisoned)⟩
  · refine Comes.of_eq ?_
    simp only [total_eq, done, Daemon.push, List.map_append, List.countP_append, List.map_singleton]
    omega

theorem wake_comes {i instant : Nat} (h : d.wake i instant = some d') :
    Comes platform p 0 d d' := by
  obtain ⟨timer, snd, hi, -, -, ⟨hpoisoned, rfl⟩ | ⟨-, rfl⟩⟩ := Daemon.wake_cases h
  · have hcount := countP_eraseIdx timerAsks p hi
    refine ⟨?_, fun _ hsound => Bool.noConfusion (hsound.symm.trans hpoisoned)⟩
    simp only [total_eq, hcount, done]
    omega
  · have hcount := countP_eraseIdx timerAsks p hi
    refine Comes.of_eq ?_
    have hnotifying : ∀ timers : List TimerThread,
        (if snd then .notifying :: timers else timers).flatMap timerAsks =
          (timers.flatMap timerAsks : List (Job Value)) := by
      intro timers
      cases snd <;> rfl
    simp only [total_eq, hcount, done, Daemon.push, List.map_append, List.countP_append,
      List.map_singleton, hnotifying, timerAsks]
    omega

theorem timerSend_comes {i : Nat} (h : d.timerSend i = some d') : Comes platform p 0 d d' := by
  obtain ⟨hi, hcases⟩ := Daemon.timerSend_cases h
  have hcount := countP_eraseIdx timerAsks p hi
  refine Comes.of_eq ?_
  obtain ⟨-, rfl⟩ | ⟨-, rfl⟩ := hcases <;>
    · simp only [total_eq, hcount, done, timerAsks, List.countP_nil]
      omega

theorem recv_comes (h : d.recv = some d') : Comes platform p 0 d d' := by
  obtain ⟨hphase, -, rfl⟩ := Daemon.recv_cases h
  refine Comes.of_eq ?_
  simp [total_eq, done, hphase, handAsks]

theorem pop_comes (h : d.pop = some d') : Comes platform p 0 d d' := by
  obtain ⟨hphase, -, ⟨-, rfl⟩ | ⟨-, rfl⟩ | ⟨jd, rest, hlist, rfl⟩⟩ := Daemon.pop_cases h
  · exact Comes.of_eq (by simp [total_eq, done, hphase, handAsks, Daemon.die])
  · exact Comes.of_eq (by simp [total_eq, done, hphase, handAsks, Daemon.die])
  · refine Comes.of_eq ?_
    simp only [total_eq, done, hphase, hlist, handAsks, List.map_cons, List.countP_cons,
      List.countP_nil]
    omega

theorem execute_comes {env : Env} {disk : Except (List UInt8) Unit}
    (h : d.execute platform env disk = some d') :
    Comes platform p ((armed platform d env).countP p) d d' := by
  obtain ⟨jd, empty, hphase, ⟨hnone, rfl⟩ | ⟨ex, hex, rfl⟩⟩ := Daemon.execute_outcome h
  · refine ⟨?_, fun halive => nomatch halive⟩
    simp only [total_eq, done, Daemon.die, handAsks, List.countP_nil]
    omega
  · -- The job goes from the hand to what was done, and its timer joins the others.
    refine Comes.of_eq ?_
    have hhand : ∀ d : Daemon Value,
        handAsks (d.conclude platform jd.desc.pid empty ex.fulfilled disk).phase = [] := by
      intro d
      unfold handAsks
      split
      next jd' last hexecuting => exact absurd hexecuting (Waiting.conclude_not_executing _ _ _ _ _ _ _ _)
      · rfl
    have harmed : armed platform d env =
        ex.timer.toList.map fun timer => .close timer.id .expired := by
      simp only [armed, hphase, hex]
    have htimers : ((ex.timer.map fun timer =>
        TimerThread.asleep timer ex.manager.notifyer).toList.flatMap timerAsks : List (Job Value)) =
          ex.timer.toList.map fun timer => .close timer.id .expired := by
      cases ex.timer <;> rfl
    have hbefore : handAsks d.phase = [jd.cmd] := by rw [hphase, handAsks]
    simp only [total_eq, hhand, hbefore, harmed, done, (Daemon.conclude_log ..).2.2.1,
      Serial.conclude_list, Closing.conclude_timers, (Routing.conclude_aside ..).tasks,
      List.map_append, List.flatMap_append, List.countP_append, htimers, List.map_singleton,
      List.countP_nil]
    omega

/-! The tasks of the listener. -/

theorem total_spawn (platform : Platform Value) (p : Job Value → Bool) (d : Daemon Value)
    (task : ListenerTask Value) :
    total platform p (d.spawn task) = total platform p d + (taskAsks platform task).countP p := by
  simp only [total_eq, done, Daemon.spawn, List.flatMap_cons, List.countP_append]
  omega

theorem total_push (platform : Platform Value) (p : Job Value → Bool) (d : Daemon Value)
    (jd : JobDesc Value) :
    total platform p (d.push jd) = total platform p d + [jd.cmd].countP p := by
  simp only [total_eq, done, Daemon.push, List.map_append, List.countP_append, List.map_singleton]
  omega

theorem total_deliver (platform : Platform Value) (p : Job Value → Bool) (d : Daemon Value)
    (written : Bool) (stream : Conn) (tr : Transmission) :
    total platform p (d.deliver written stream tr) = total platform p d := by
  unfold Daemon.deliver
  split_ifs <;> rfl

theorem total_broadcast (platform : Platform Value) (p : Job Value → Bool) (d : Daemon Value)
    (data : String) (broken : List Pid) :
    total platform p (d.broadcast data broken) = total platform p d := by
  unfold Daemon.broadcast
  dsimp only
  split_ifs
  · split
    · exact (total_spawn ..).trans rfl
    · rfl
  · rfl

theorem cmd_watch {jobd : JobDesc Value} (h : jobd.cmd.canonicalName = "watch") :
    jobd.cmd = .watch := by
  cases hcmd : jobd.cmd <;> simp_all [Job.canonicalName]

theorem task_comes (hp : Listed p) {written : Bool} {broken : List Pid}
    {task : ListenerTask Value} (h : task.step platform written broken d = some d') :
    Comes platform p ((taskAsks platform task).countP p) d d' := by
  unfold ListenerTask.step at h
  split at h
  · cases h
    exact Comes.of_eq (total_deliver ..)
  next stream pid data =>
    split at h
    next hdecode =>
      cases h
      exact Comes.of_eq (by simp [taskAsks, hdecode])
    next err hdecode =>
      cases h
      exact Comes.of_eq (by simp [taskAsks, hdecode, total_deliver])
    next jobd hdecode =>
      have hasks : taskAsks platform (.received stream ⟨.incoming pid, data⟩) = [jobd.cmd] := by
        simp [taskAsks, hdecode]
      rw [hasks]
      split_ifs at h with hwatch
      · cases h
        refine Comes.of_eq ?_
        simp [cmd_watch hwatch, hp.1, total_eq, done]
      · cases h
        exact Comes.of_eq (total_spawn ..)
  · split_ifs at h
    · cases h
      exact Comes.of_eq (total_broadcast ..)
    · cases h
      exact Comes.of_eq ((total_spawn ..).trans rfl)
  · cases h
    exact Comes.of_eq ((total_spawn ..).trans rfl)
  · split_ifs at h with hsending hpoisoned
    · cases h
      exact ⟨Nat.le_add_right _ _, fun _ hsound => Bool.noConfusion (hsound.symm.trans hpoisoned)⟩
    · cases h
      exact Comes.of_eq (by rw [total_spawn, total_push]; rfl)
  · split_ifs at h with hsending hpoisoned
    · cases h
      exact Comes.of_eq rfl
    · split at h
      · cases h
        refine Comes.of_eq ?_
        simp [total_spawn, total_push, taskAsks, hp.2]
      · cases h
        exact Comes.of_eq rfl
  · split_ifs at h <;> cases h <;> exact Comes.of_eq rfl
  · cases h
    exact Comes.of_eq rfl
  · cases h
    exact Comes.of_eq (total_deliver ..)

theorem listen_comes (hp : Listed p) {i : Nat} {written : Bool} {broken : List Pid}
    (h : d.listen platform i written broken = some d') : Comes platform p 0 d d' := by
  obtain ⟨task, hi, h⟩ := Option.bind_eq_some_iff.mp h
  have hcomes := task_comes hp h
  have hcount := countP_eraseIdx (taskAsks platform) p hi
  have hrest : total platform p { d with tasks := d.tasks.eraseIdx i } +
      (taskAsks platform task).countP p = total platform p d := by
    simp only [total_eq, hcount, done]
    omega
  rw [Comes, hrest] at hcomes
  exact hcomes

def Sends (d : Daemon Value) : Prop :=
  ∀ tr, d.phase = .replying tr → ∃ pid, tr.typ = .outgoing pid

theorem step_sends {l : Label Value} (hd : Sends d) (h : d.step platform l = some d') :
    Sends d' := by
  rcases Daemon.step_still h with hstill | ⟨-, h⟩ | ⟨-, h⟩ | ⟨_, _, -, h⟩ | ⟨_, _, -, h⟩
  · rw [Sends, hstill.phase]
    exact hd
  · obtain ⟨-, -, rfl⟩ := Daemon.recv_cases h
    exact fun _ hphase => nomatch hphase
  · obtain ⟨-, -, ⟨-, rfl⟩ | ⟨-, rfl⟩ | ⟨_, _, -, rfl⟩⟩ := Daemon.pop_cases h <;>
      exact fun _ hphase => nomatch hphase
  · obtain ⟨jd, empty, -, ⟨-, rfl⟩ | ⟨ex, -, rfl⟩⟩ := Daemon.execute_outcome h
    · exact fun _ hphase => nomatch hphase
    · intro tr hphase
      obtain ⟨-, rfl⟩ := Waiting.conclude_replying hphase
      exact ⟨jd.desc.pid, rfl⟩
  · obtain ⟨tr, -, ⟨-, rfl⟩ | ⟨-, rfl | rfl⟩⟩ := Daemon.reply_cases h <;>
      exact fun _ hphase => nomatch hphase

theorem reply_comes (hd : Sends d) {arrived failed : Bool} (h : d.reply arrived failed = some d') :
    Comes platform p 0 d d' := by
  obtain ⟨tr, hphase, hcases⟩ := Daemon.reply_cases h
  obtain ⟨pid, htyp⟩ := hd tr hphase
  have hasks : taskAsks platform (.received d.accepted.length tr) = [] := by
    obtain ⟨typ, data⟩ := tr
    obtain rfl : typ = .outgoing pid := htyp
    rfl
  refine Comes.of_eq ?_
  obtain ⟨-, rfl⟩ | ⟨-, rfl | rfl⟩ := hcases <;>
    simp [total_eq, done, hphase, handAsks, Daemon.die, Daemon.accept, Daemon.spawn, hasks]

theorem step_comes (hp : Listed p) (hd : Sends d) {l : Label Value}
    (h : d.step platform l = some d') :
    Comes platform p ((asks platform d l).countP p) d d' := by
  cases l with
  | notify call now =>
    have hcomes : Comes platform p
        ([Job.broadcast (Notifications.notify d.counter call now).2].countP p) _ d' :=
      pushJob_comes h
    exact hcomes
  | closeNotification nid => exact pushJob_comes h
  | busSend =>
    obtain ⟨-, ⟨-, rfl⟩ | ⟨-, rfl⟩⟩ := Daemon.busSend_cases h <;> exact Comes.of_eq rfl
  | connect tr =>
    cases h
    have hspawn := total_spawn platform p d (.received d.accepted.length tr)
    exact Comes.of_eq hspawn
  | listen i written broken => exact listen_comes hp h
  | wake i instant => exact wake_comes h
  | timerSend i => exact timerSend_comes h
  | recv => exact recv_comes h
  | pop => exact pop_comes h
  | execute env disk => exact execute_comes h
  | reply arrived failed => exact reply_comes hd h

end Steps

/-! Whole runs. -/

section Runs

variable {platform : Platform Value} {p : Job Value → Bool} {d t : Daemon Value}
  {labels : List (Label Value)}

theorem run_alive (hrun : run (Daemon.step platform) d labels = some t)
    (halive : t.alive = true) : d.alive = true := by
  by_contra hdead
  have hstep : ∀ (s : Daemon Value) l s', ¬ s.alive = true → s.step platform l = some s' →
      ¬ s'.alive = true := fun s l s' hs h halive => hs (Waiting.step_alive h halive)
  exact run_invariant hstep hdead hrun halive

theorem run_sound (hrun : run (Daemon.step platform) d labels = some t)
    (hsound : t.poisoned = false) : d.poisoned = false := by
  by_contra hpoisoned
  have hstep : ∀ (s : Daemon Value) l s', ¬ s.poisoned = false → s.step platform l = some s' →
      ¬ s'.poisoned = false := fun s l s' hs h hsound => hs (Waiting.sound_before h hsound)
  exact run_invariant hstep hpoisoned hrun hsound

/-- Over a run the jobs of a kind that come are those asked for. -/
theorem run_comes (hp : Listed p) (hd : Sends d)
    (hrun : run (Daemon.step platform) d labels = some t) :
    total platform p t ≤ total platform p d + (asked platform d labels).countP p ∧
      (t.alive = true → t.poisoned = false →
        total platform p t = total platform p d + (asked platform d labels).countP p) := by
  induction labels generalizing d with
  | nil =>
    cases hrun
    exact ⟨Nat.le_add_right _ _, fun _ _ => rfl⟩
  | cons l labels ih =>
    obtain ⟨m, hm, hrun⟩ := run_cons_some.mp hrun
    obtain ⟨hle, heq⟩ := step_comes hp hd hm
    obtain ⟨hleRest, heqRest⟩ := ih (step_sends hd hm) hrun
    have hasked : asked platform d (l :: labels) = asks platform d l ++ asked platform m labels :=
      trace_cons hm labels
    rw [hasked, List.countP_append]
    refine ⟨by omega, fun halive hsound => ?_⟩
    have hbefore := Waiting.sound_before hm (run_sound hrun hsound)
    have hhere := heq (run_alive hrun halive) hbefore
    have hrest := heqRest halive hsound
    omega

end Runs

section Start

variable {platform : Platform Value} {man : LogsManager Value} {logsFile : Option (List UInt8)}
  {labels : List (Label Value)} {d : Daemon Value} {p : Job Value → Bool}

theorem start_sends (man : LogsManager Value) (logsFile : Option (List UInt8)) :
    Sends (Daemon.start man logsFile) := fun _ h => nomatch h

theorem start_comes (hp : Listed p)
    (hrun : run (Daemon.step platform) (Daemon.start man logsFile) labels = some d) :
    total platform p d ≤ (asked platform (Daemon.start man logsFile) labels).countP p ∧
      (d.alive = true → d.poisoned = false →
        total platform p d = (asked platform (Daemon.start man logsFile) labels).countP p) := by
  have hstart : total platform p (Daemon.start man logsFile) = 0 := rfl
  have hcomes := run_comes hp (start_sends man logsFile) hrun
  rwa [hstart, Nat.zero_add] at hcomes

theorem done_le (hp : Listed p)
    (hrun : run (Daemon.step platform) (Daemon.start man logsFile) labels = some d) :
    (done d).countP p ≤ (asked platform (Daemon.start man logsFile) labels).countP p :=
  (Nat.le_add_right _ _).trans (start_comes hp hrun).1

end Start

/-- No job is done that was not asked for, or more often than it was asked for; and when the
daemon has come to rest, with its manager thread alive and the lock of the list sound, every
job that was asked for has been done, as often as it was asked for. -/
theorem jobs_done_once (platform : Platform Value) (man : LogsManager Value)
    (logsFile : Option (List UInt8)) (labels : List (Label Value)) (d : Daemon Value)
    (hrun : run (Daemon.step platform) (Daemon.start man logsFile) labels = some d)
    (p : Job Value → Bool) (hp : Listed p) :
    (done d).countP p ≤ (asked platform (Daemon.start man logsFile) labels).countP p ∧
      (Rest.AtRest platform d → d.alive = true → d.poisoned = false →
        (done d).countP p = (asked platform (Daemon.start man logsFile) labels).countP p) := by
  refine ⟨done_le hp hrun, fun hrest halive hsound => ?_⟩
  have hcounted : Wakeups.Counted d := run_invariant (fun _ _ _ => Wakeups.step_counted)
    (Wakeups.start_counted man logsFile) hrun
  obtain ⟨htasks, htimers, -, hempty⟩ := Rest.rest_empty hcounted hrest
  obtain ⟨hphase, hlist⟩ := hempty halive
  have hnothing : underway platform d = [] := by
    simp [underway, hphase, hlist, htasks, htimers, handAsks]
  rw [← (start_comes hp hrun).2 halive hsound, total, hnothing]
  rfl

def served : List (Label Unit) :=
  Waiting.answering ++ [.recv, .pop, .execute ⟨some ⟨0, 0⟩, 0, .ok (), true, true⟩ (.ok ())]

theorem jobs_done_once_served :
    ∃ d, run (Daemon.step Platform.bare) (Daemon.start (.empty 10) none) served = some d ∧
      (done d).countP (fun cmd => decide (cmd = .query 7)) = 1 := by
  have hview : (run (Daemon.step Platform.bare) (Daemon.start (.empty 10) none) served).map
      (fun d => (d.phase, d.poisoned, d.tasks, d.timers, d.sending)) =
        some (.idle, false, [], [], false) := by decide
  have hempty : (run (Daemon.step Platform.bare) (Daemon.start (.empty 10) none) served).map
      Daemon.tokens = some 0 := by decide
  obtain ⟨d, hd, hrest, halive, hsound⟩ := Waiting.rests_of_run hview hempty
  have hasked : (asked Platform.bare (Daemon.start (.empty 10) none) served).countP
      (fun cmd => decide (cmd = .query 7)) = 1 := by decide
  have hdone := (jobs_done_once Platform.bare (.empty 10) none served d hd
    (fun cmd => decide (cmd = .query 7)) ⟨rfl, fun _ => rfl⟩).2 hrest halive hsound
  exact ⟨d, hd, hdone.trans hasked⟩

/-! The signals. -/

def announces : Job Value → Option Signal
  | .close id reason => some (.notificationClosed id reason.repr)
  | .actionInvoked id actionKey => some (.actionInvoked id actionKey)
  | .activationToken id token => some (.activationToken id token)
  | _ => none

def signalled (platform : Platform Value) (d : Daemon Value) : List Signal :=
  d.executed.flatMap fun e => (Job.execute platform e.2.1 e.2.2 e.1).elim [] Executed.emitted

theorem emitSignal_sublist (env : Env) (man : LogsManager Value) (signal : Signal)
    (failure : String) (event : EventType) :
    (emitSignal env man signal failure event).emitted.Sublist [signal] := by
  unfold emitSignal
  split_ifs
  · exact List.Sublist.refl _
  · exact List.nil_sublist _
  · exact List.nil_sublist _
  · exact List.nil_sublist _

theorem emitted_sublist {platform : Platform Value} {env : Env} {jd : JobDesc Value}
    {man : LogsManager Value} {ex : Executed Value}
    (h : Job.execute platform env jd man = some ex) :
    ex.emitted.Sublist (announces jd.cmd).toList := by
  obtain ⟨cmd, desc⟩ := jd
  have hclient : ∀ signal event, (signalExecute signal event env desc man).emitted.Sublist
      [signal] := by
    intro signal event
    unfold signalExecute
    split_ifs
    · exact List.nil_sublist _
    · split
      · exact List.nil_sublist _
      · exact emitSignal_sublist ..
  cases cmd with
  | broadcast event =>
    rw [(Job.execute_broadcast h rfl).2.1]
    exact List.nil_sublist _
  | close id reason =>
    rcases Close.execute_cases h with rfl | ⟨pos, ne, -, rfl⟩
    · exact List.nil_sublist _
    · unfold Close.perform
      dsimp only
      split
      · exact List.nil_sublist _
      · exact emitSignal_sublist ..
  | read start stop =>
    obtain ⟨slice, man', -, rfl⟩ := Read.execute_some h
    exact List.nil_sublist _
  | actionInvoked id actionKey =>
    cases h
    exact hclient ..
  | activationToken id token =>
    cases h
    exact hclient ..
  | query id =>
    cases h
    exact List.nil_sublist _
  | watch =>
    cases h
    exact List.nil_sublist _
  | acknowledge id =>
    cases h
    exact List.nil_sublist _

theorem signalled_sublist (platform : Platform Value) (d : Daemon Value) :
    (signalled platform d).Sublist ((done d).filterMap announces) := by
  have hall : ∀ executed : List (LogsManager Value × Task Value),
      (executed.flatMap fun e =>
        (Job.execute platform e.2.1 e.2.2 e.1).elim [] Executed.emitted).Sublist
          ((executed.map fun e => e.2.2.cmd).filterMap announces) := by
    intro executed
    induction executed with
    | nil => exact List.nil_sublist _
    | cons e executed ih =>
      have hcons : ∀ (cmd : Job Value) cmds, (cmd :: cmds).filterMap announces =
          (announces cmd).toList ++ cmds.filterMap announces := by
        intro cmd cmds
        cases hsignal : announces cmd <;> simp [hsignal]
      rw [List.flatMap_cons, List.map_cons, hcons]
      refine List.Sublist.append ?_ ih
      cases hex : Job.execute platform e.2.1 e.2.2 e.1 with
      | none => exact List.nil_sublist _
      | some ex => exact emitted_sublist hex
  exact hall d.executed

theorem signalled_le (platform : Platform Value) (d : Daemon Value) (signal : Signal) :
    (signalled platform d).count signal ≤ (done d).countP fun cmd => announces cmd == some signal :=
  calc (signalled platform d).count signal
      ≤ ((done d).filterMap announces).count signal := (signalled_sublist platform d).count_le _
    _ = (done d).countP fun cmd => announces cmd == some signal := List.count_filterMap

end NotifsPiper.Origins

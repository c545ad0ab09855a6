import NotifsPiper.Broadcasts
import NotifsPiper.Commands
import NotifsPiper.Origins

/-! The daemon among its own clients, where every connection is that of one of the commands. What
they send is decoded, what is acknowledged is a notification, and so the lock of the list is
sound as long as the manager thread lives, which can end in a few ways only. -/

namespace NotifsPiper.Clients

open Runs

variable {Value : Type}

/-- Every connection is that of a command, from a process with a pid. -/
def Own (platform : Platform Value) : Label Value → Prop
  | .connect tr => ∃ own sub, own ≠ 0 ∧ tr = Sub.transmission platform own sub
  | _ => True

theorem Own.honest {platform : Platform Value} {l : Label Value} (h : Own platform l) :
    Waiting.Honest l := by
  cases l with
  | connect tr =>
    obtain ⟨own, sub, -, rfl⟩ := h
    simp [Waiting.Honest, Sub.transmission]
  | _ => trivial

/-- Who has a job done: a command, a call on the bus, a timer, or a watcher. -/
inductive Origin (created : List (NotificationEvent Value)) : JobDesc Value → Prop
  | command {own : Pid} (sub : Sub) (h : own ≠ 0) : Origin created (sub.jobd own)
  | notify {event : NotificationEvent Value} (h : event ∈ created) :
    Origin created ⟨.broadcast event, ⟨0, 0⟩⟩
  | closeNotification (id : Nid) : Origin created ⟨.close id .callCloseNotification, ⟨0, 0⟩⟩
  | timer (id : Nid) : Origin created ⟨.close id .expired, ⟨0, 0⟩⟩
  | watcher (id : Nid) : Origin created ⟨.acknowledge id, ⟨0, 0⟩⟩

section Tame

variable (platform : Platform Value) (created : List (NotificationEvent Value))

inductive Result : Transmission → Prop
  | intro {pid : Pid} {data : String}
    (h : pid = 0 → ∀ text, FulfilledJob.fromStr data = .ok ⟨.ok (some text), .results⟩ →
      ∃ event ∈ created, text = platform.eventToString event) : Result ⟨.outgoing pid, data⟩

inductive Tame : ListenerTask Value → Prop
  | command {own : Pid} {tr : Transmission} (stream : Conn) (sub : Sub) (h : own ≠ 0)
    (htr : tr = sub.transmission platform own) : Tame (.received stream tr)
  | result {tr : Transmission} (stream : Conn) (h : Result platform created tr) :
    Tame (.received stream tr)
  | inserting {jobd : JobDesc Value} (stream : Conn) (pid : Pid) (h : Origin created jobd) :
    Tame (.inserting stream pid jobd)
  | pushing {jobd : JobDesc Value} (h : Origin created jobd) : Tame (.pushing jobd)
  | acknowledging {data : String} (h : ∃ event ∈ created, data = platform.eventToString event) :
    Tame (.acknowledging data)
  | notifying (lp : Bool) : Tame (.notifying lp)
  | replying (stream : Option Conn) (tr : Transmission) : Tame (.replying stream tr)

end Tame

/-- Everything that is underway comes from a command or from the daemon itself. -/
structure Orderly (platform : Platform Value) (d : Daemon Value) : Prop where
  tasks : ∀ task ∈ d.tasks, Tame platform d.created task
  list : ∀ jd ∈ d.list, Origin d.created jd
  hand : ∀ jd empty, d.phase = .executing jd empty → Origin d.created jd
  held : ∀ tr, d.phase = .replying tr → Result platform d.created tr

/-- The notifications of the session are decoded as they were encoded. -/
def Decodes (platform : Platform Value) (d : Daemon Value) : Prop :=
  ∀ event ∈ d.created, platform.eventFromStr (platform.eventToString event) = .ok event

section Growth

variable {platform : Platform Value} {created created' : List (NotificationEvent Value)}

theorem Origin.mono (h : created <+: created') {jd : JobDesc Value} (horigin : Origin created jd) :
    Origin created' jd := by
  cases horigin with
  | command sub hown => exact .command sub hown
  | notify hevent => exact .notify (h.mem hevent)
  | closeNotification id => exact .closeNotification id
  | timer id => exact .timer id
  | watcher id => exact .watcher id

theorem Result.mono (h : created <+: created') {tr : Transmission}
    (hresult : Result platform created tr) : Result platform created' tr := by
  cases hresult with
  | intro hown =>
    refine .intro fun hpid text htext => ?_
    obtain ⟨event, hevent, rfl⟩ := hown hpid text htext
    exact ⟨event, h.mem hevent, rfl⟩

theorem Tame.mono (h : created <+: created') {task : ListenerTask Value}
    (htame : Tame platform created task) : Tame platform created' task := by
  cases htame with
  | command stream sub hown htr => exact .command stream sub hown htr
  | result stream hresult => exact .result stream (hresult.mono h)
  | inserting stream pid horigin => exact .inserting stream pid (horigin.mono h)
  | pushing horigin => exact .pushing (horigin.mono h)
  | acknowledging hdata =>
    obtain ⟨event, hevent, rfl⟩ := hdata
    exact .acknowledging ⟨event, h.mem hevent, rfl⟩
  | notifying lp => exact .notifying lp
  | replying stream tr => exact .replying stream tr

end Growth

theorem Origin.announces {platform : Platform Value} (hwritten : Results.Written platform)
    {created : List (NotificationEvent Value)} {jd : JobDesc Value} (horigin : Origin created jd)
    {env : Env} {man : LogsManager Value} {ex : Executed Value}
    (hex : Job.execute platform env jd man = some ex) (hpid : jd.desc.pid = 0) {text : String}
    (htext : FulfilledJob.fromStr (ex.fulfilled.toStr platform) = .ok ⟨.ok (some text), .results⟩) :
    ∃ event ∈ created, jd.cmd = .broadcast event ∧ text = platform.eventToString event := by
  have hanswering : ¬ Broadcasts.Answering jd.cmd := by
    cases horigin with
    | command sub hown =>
      obtain ⟨hread, hquery⟩ : (∀ start stop, (sub.job : Job Value) ≠ .read start stop) ∧
          ∀ id, (sub.job : Job Value) ≠ .query id := Sub.pid_eq_zero hown hpid
      rintro (⟨start, stop, hcmd⟩ | ⟨id, hcmd⟩)
      · exact hread start stop hcmd
      · exact hquery id hcmd
    | _ => simp [Broadcasts.Answering]
  obtain ⟨event, hcmd, rfl⟩ :=
    Broadcasts.other_result hwritten hanswering (Results.execute_outcome hex) htext
  cases horigin with
  | command sub hown => exact absurd hcmd (sub.job_ne.1 event)
  | notify hevent =>
    cases hcmd
    exact ⟨event, hevent, rfl, rfl⟩
  | _ => cases hcmd

theorem Origin.result {platform : Platform Value} (hwritten : Results.Written platform)
    {created : List (NotificationEvent Value)} {jd : JobDesc Value} (horigin : Origin created jd)
    {env : Env} {man : LogsManager Value} {ex : Executed Value}
    (hex : Job.execute platform env jd man = some ex) :
    Result platform created (Transmission.fromFulfilled platform ex.fulfilled jd.desc.pid) := by
  refine .intro fun hpid text htext => ?_
  obtain ⟨event, hevent, -, htold⟩ := horigin.announces hwritten hex hpid htext
  exact ⟨event, hevent, htold⟩

/-! One step. -/

section Steps

variable {platform : Platform Value} {d d' : Daemon Value}

theorem step_grows {l : Label Value} (h : d.step platform l = some d') :
    d.created <+: d'.created := by
  rcases Daemon.step_created h with hcreated | ⟨call, now, -, hcreated⟩
  · rw [hcreated]
  · rw [hcreated]
    exact List.prefix_append _ _

theorem Tame.decoded {created : List (NotificationEvent Value)} {stream : Conn} {pid : Pid}
    {data : String} (htame : Tame platform created (.received stream ⟨.incoming pid, data⟩)) :
    ∃ own sub, own ≠ 0 ∧
      (JobDesc.fromStr platform data).run = some (.ok (Sub.jobd own sub)) := by
  cases htame with
  | @command own _ _ sub hown htr =>
    refine ⟨own, sub, hown, ?_⟩
    rw [(Transmission.mk.inj htr).2]
    exact congrArg ExceptT.run (sub.decoded platform own)
  | result stream hresult => cases hresult

theorem task_tame {created : List (NotificationEvent Value)} {written : Bool}
    {broken : List Pid} {task : ListenerTask Value} (htame : Tame platform created task)
    (hd : ∀ t ∈ d.tasks, Tame platform created t)
    (h : task.step platform written broken d = some d') :
    ∀ t ∈ d'.tasks, Tame platform created t := by
  have hdeliver : ∀ stream tr, ∀ t ∈ (d.deliver written stream tr).tasks,
      Tame platform created t := by
    intro stream tr
    unfold Daemon.deliver
    split_ifs <;> exact hd
  have hspawn : ∀ new, Tame platform created new → ∀ t ∈ new :: d.tasks,
      Tame platform created t := fun new hnew => List.forall_mem_cons.mpr ⟨hnew, hd⟩
  unfold ListenerTask.step at h
  split at h
  · cases h
    exact hdeliver _ _
  · obtain ⟨own, sub, hown, hdecoded⟩ := htame.decoded
    rw [hdecoded] at h
    dsimp only at h
    split_ifs at h
    · cases h
      exact hd
    · cases h
      exact hspawn _ (.inserting _ _ (.command sub hown))
  next stream pid data =>
    split_ifs at h with hpid
    · cases h
      have hresult : Result platform created ⟨.outgoing pid, data⟩ := by
        cases htame with
        | command _ sub hown htr => cases htr
        | result _ hresult => exact hresult
      cases hresult with | intro hown =>
      unfold Daemon.broadcast
      dsimp only
      split_ifs
      · split
        next text htext => exact hspawn _ (.acknowledging (hown hpid text htext))
        next => exact hd
      · exact hd
    · cases h
      exact hspawn _ (.replying _ _)
  · cases h
    cases htame with | inserting _ _ horigin =>
    exact hspawn _ (.pushing horigin)
  · split_ifs at h
    · cases h
      exact hd
    · cases h
      exact hspawn _ (.notifying false)
  · split_ifs at h
    · cases h
      exact hd
    · split at h
      · cases h
        exact hspawn _ (.notifying true)
      · cases h
        exact hd
  · split_ifs at h <;> cases h <;> exact hd
  · cases h
    exact hd
  · cases h
    exact hdeliver _ _

theorem pushes_origin (hd : Orderly platform d) {l : Label Value}
    (h : d.step platform l = some d') :
    ∀ jd ∈ Serial.pushes platform d l, Origin d'.created jd := by
  intro jd hjd
  cases Serial.pushes_source hjd with
  | notify call now =>
    refine .notify ?_
    rw [(Daemon.pushJob_alike h).2.2]
    exact List.mem_append_right _ List.mem_cons_self
  | closeNotification nid => exact .closeNotification nid
  | timer instant htimer => exact .timer _
  | client hpushing =>
    cases hd.tasks _ hpushing with | pushing horigin =>
    exact horigin.mono (step_grows h)
  | watcher hacknowledging hevent => exact .watcher _

theorem still_orderly (hd : Orderly platform d) {l : Label Value}
    (h : d.step platform l = some d') (hl : l ≠ .pop) (hphase : d'.phase = d.phase)
    (htasks : ∀ t ∈ d'.tasks, Tame platform d'.created t) : Orderly platform d' := by
  have hgrows := step_grows h
  refine ⟨htasks, fun jd hjd => ?_, fun jd empty hhand => ?_, fun tr hheld => ?_⟩
  · rw [Serial.still_pushes h hl] at hjd
    rcases List.mem_append.mp hjd with hjd | hjd
    · exact (hd.list jd hjd).mono hgrows
    · exact pushes_origin hd h jd hjd
  · rw [hphase] at hhand
    exact (hd.hand jd empty hhand).mono hgrows
  · rw [hphase] at hheld
    exact (hd.held tr hheld).mono hgrows

theorem pop_orderly (hd : Orderly platform d) (h : d.pop = some d') : Orderly platform d' := by
  obtain ⟨-, -, ⟨-, rfl⟩ | ⟨-, rfl⟩ | ⟨jd, rest, hlist, rfl⟩⟩ := Daemon.pop_cases h
  · exact ⟨hd.tasks, hd.list, fun _ _ h => (nomatch h), fun _ h => (nomatch h)⟩
  · exact ⟨hd.tasks, hd.list, fun _ _ h => (nomatch h), fun _ h => (nomatch h)⟩
  · obtain ⟨hjd, hrest⟩ := List.forall_mem_cons.mp (hlist ▸ hd.list)
    refine ⟨hd.tasks, hrest, fun jd' empty h => ?_, fun _ h => (nomatch h)⟩
    cases h
    exact hjd

theorem execute_orderly (hwritten : Results.Written platform) (hd : Orderly platform d) {env : Env}
    {disk : Except (List UInt8) Unit} (h : d.execute platform env disk = some d') :
    Orderly platform d' := by
  obtain ⟨jd, empty, hphase, ⟨-, rfl⟩ | ⟨ex, hex, rfl⟩⟩ := Daemon.execute_outcome h
  · exact ⟨hd.tasks, hd.list, fun _ _ h => (nomatch h), fun _ h => (nomatch h)⟩
  · refine ⟨?_, ?_, fun jd' last hhand => ?_, fun tr hheld => ?_⟩
    · rw [(Routing.conclude_aside ..).tasks, (Daemon.conclude_log ..).2.2.2]
      exact hd.tasks
    · rw [Serial.conclude_list, (Daemon.conclude_log ..).2.2.2]
      exact hd.list
    · exact absurd hhand (Waiting.conclude_not_executing _ _ _ _ _ _ _ _)
    · obtain ⟨-, rfl⟩ := Waiting.conclude_replying hheld
      rw [(Daemon.conclude_log ..).2.2.2]
      exact (hd.hand jd empty hphase).result hwritten hex

theorem reply_orderly (hd : Orderly platform d) {arrived failed : Bool}
    (h : d.reply arrived failed = some d') : Orderly platform d' := by
  obtain ⟨tr, hphase, hcases⟩ := Daemon.reply_cases h
  have htasks : ∀ t ∈ (d.accept tr).tasks, Tame platform d.created t :=
    List.forall_mem_cons.mpr ⟨.result _ (hd.held tr hphase), hd.tasks⟩
  obtain ⟨-, rfl⟩ | ⟨-, rfl | rfl⟩ := hcases
  · exact ⟨htasks, hd.list, fun _ _ h => (nomatch h), fun _ h => (nomatch h)⟩
  · exact ⟨htasks, hd.list, fun _ _ h => (nomatch h), fun _ h => (nomatch h)⟩
  · exact ⟨hd.tasks, hd.list, fun _ _ h => (nomatch h), fun _ h => (nomatch h)⟩

theorem step_orderly (hwritten : Results.Written platform) (hd : Orderly platform d)
    {l : Label Value} (hl : Own platform l) (h : d.step platform l = some d') :
    Orderly platform d' := by
  have hgrows := step_grows h
  have hkept : ∀ t ∈ d.tasks, Tame platform d'.created t :=
    fun t ht => (hd.tasks t ht).mono hgrows
  rcases Daemon.step_still h with hstill | ⟨rfl, h⟩ | ⟨rfl, h⟩ | ⟨env, disk, rfl, h⟩ |
    ⟨arrived, failed, rfl, h⟩
  · rcases Routing.step_listener h with haside | ⟨tr, hcomes, haside⟩ |
      ⟨i, written, broken, rfl, hlisten⟩
    · cases l with
      | pop => exact pop_orderly hd h
      | _ => exact still_orderly hd h (by simp) hstill.phase (haside.tasks ▸ hkept)
    · rcases hcomes with rfl | ⟨⟨arrived, failed, rfl⟩, -⟩
      · obtain ⟨own, sub, hown, htr⟩ := hl
        refine still_orderly hd h (by simp) hstill.phase ?_
        rw [haside.tasks]
        exact List.forall_mem_cons.mpr ⟨.command _ sub hown htr, hkept⟩
      · exact reply_orderly hd h
    · obtain ⟨task, hi, htask⟩ := Option.bind_eq_some_iff.mp hlisten
      refine still_orderly hd h (by simp) hstill.phase ?_
      exact task_tame (hkept task (List.mem_of_getElem? hi))
        (fun t ht => hkept t (List.mem_of_mem_eraseIdx ht)) htask
  · obtain ⟨-, -, rfl⟩ := Daemon.recv_cases h
    exact ⟨hd.tasks, hd.list, fun _ _ h => (nomatch h), fun _ h => (nomatch h)⟩
  · exact pop_orderly hd h
  · exact execute_orderly hwritten hd h
  · exact reply_orderly hd h

/-! The lock of the list. -/

theorem task_sound {created : List (NotificationEvent Value)} {written : Bool}
    {broken : List Pid} {task : ListenerTask Value} (htame : Tame platform created task)
    (hdecodes : ∀ event ∈ created, platform.eventFromStr (platform.eventToString event) = .ok event)
    (hsound : d.poisoned = false) (h : task.step platform written broken d = some d') :
    d'.poisoned = false := by
  have hdeliver : ∀ stream tr, (d.deliver written stream tr).poisoned = false := by
    intro stream tr
    unfold Daemon.deliver
    split_ifs <;> exact hsound
  unfold ListenerTask.step at h
  split at h
  · cases h
    exact hdeliver _ _
  · split at h
    · cases h
      exact hsound
    · cases h
      exact hdeliver _ _
    · split_ifs at h <;> cases h <;> exact hsound
  · split_ifs at h
    · cases h
      unfold Daemon.broadcast
      dsimp only
      split_ifs
      · split <;> exact hsound
      · exact hsound
    · cases h
      exact hsound
  · cases h
    exact hsound
  · split_ifs at h <;> cases h <;> exact hsound
  · cases htame with | acknowledging hdata =>
    obtain ⟨event, hevent, rfl⟩ := hdata
    rw [hdecodes event hevent] at h
    split_ifs at h <;> cases h <;> exact hsound
  · split_ifs at h <;> cases h <;> exact hsound
  · cases h
    exact hsound
  · cases h
    exact hdeliver _ _

theorem step_sound (hd : Orderly platform d) (hdecodes : Decodes platform d)
    (halive : d.alive = true) (hsound : d.poisoned = false) {l : Label Value}
    (h : d.step platform l = some d') : d'.poisoned = false := by
  cases l with
  | notify call now =>
    obtain ⟨-, ⟨-, rfl⟩ | ⟨-, rfl⟩⟩ := Daemon.pushJob_cases h <;> exact hsound
  | closeNotification nid =>
    obtain ⟨-, ⟨-, rfl⟩ | ⟨-, rfl⟩⟩ := Daemon.pushJob_cases h <;> exact hsound
  | busSend =>
    obtain ⟨-, ⟨-, rfl⟩ | ⟨hdead, -⟩⟩ := Daemon.busSend_cases h
    · exact hsound
    · exact Bool.noConfusion (halive.symm.trans hdead)
  | connect tr =>
    cases h
    exact hsound
  | listen i written broken =>
    obtain ⟨task, hi, h⟩ := Option.bind_eq_some_iff.mp h
    have hrest : ({ d with tasks := d.tasks.eraseIdx i } : Daemon Value).poisoned = false := hsound
    exact task_sound (hd.tasks task (List.mem_of_getElem? hi)) hdecodes hrest h
  | wake i instant =>
    obtain ⟨timer, snd, -, -, -, ⟨-, rfl⟩ | ⟨-, rfl⟩⟩ := Daemon.wake_cases h <;> exact hsound
  | timerSend i =>
    obtain ⟨-, ⟨-, rfl⟩ | ⟨-, rfl⟩⟩ := Daemon.timerSend_cases h <;> exact hsound
  | recv =>
    obtain ⟨-, -, rfl⟩ := Daemon.recv_cases h
    exact hsound
  | pop =>
    obtain ⟨-, -, ⟨-, rfl⟩ | ⟨-, rfl⟩ | ⟨jd, rest, -, rfl⟩⟩ := Daemon.pop_cases h <;> exact hsound
  | execute env disk =>
    obtain ⟨jd, empty, -, ⟨-, rfl⟩ | ⟨ex, -, rfl⟩⟩ := Daemon.execute_outcome h
    · exact hsound
    · rw [Waiting.conclude_poisoned]
      exact hsound
  | reply arrived failed =>
    obtain ⟨tr, -, ⟨-, rfl⟩ | ⟨-, rfl | rfl⟩⟩ := Daemon.reply_cases h <;> exact hsound

/-! The end of the manager thread. -/

/-- The ways in which the manager thread ends. -/
inductive Ends (d : Daemon Value) : Label Value → Prop
  | forced {id : Nid} {flags : FlagsRepr} {empty : Bool} (env : Env)
    (disk : Except (List UInt8) Unit)
    (hphase : d.phase = .executing ⟨.close id .dismissed, ⟨0, flags⟩⟩ empty)
    (hforce : Flags.force.is flags = true) (hunknown : d.manager.find id = none) :
    Ends d (.execute env disk)
  | clock {id : Nid} {empty : Bool} {env : Env} (disk : Except (List UInt8) Unit)
    (hphase : d.phase = .executing ⟨.close id .expired, ⟨0, 0⟩⟩ empty)
    (hepoch : env.systemTime = none) (hauto : d.manager.logsConfig.autoClose = true) :
    Ends d (.execute env disk)
  | wrapped {start stop : LogCountType} {desc : Desc} {empty : Bool} (env : Env)
    (disk : Except (List UInt8) Unit) (hphase : d.phase = .executing ⟨.read start stop, desc⟩ empty)
    (hwrap : stop < start) : Ends d (.execute env disk)
  | disk (env : Env) (left : List UInt8) : Ends d (.execute env (.error left))
  | reply (arrived : Bool) : Ends d (.reply arrived true)

theorem conclude_ends {pid : Pid} {empty : Bool} {fj : FulfilledJob}
    {disk : Except (List UInt8) Unit}
    (h : (d.conclude platform pid empty fj disk).alive = false) : ∃ left, disk = .error left := by
  have hback : ∀ e : Daemon Value, e.phase = Daemon.sendBack platform pid fj →
      e.alive = false → False := by
    intro e hphase halive
    rw [Daemon.alive, hphase] at halive
    unfold Daemon.sendBack at halive
    split at halive
    next hdead => split at hdead <;> cases hdead
    · cases halive
  unfold Daemon.conclude at h
  dsimp only at h
  split_ifs at h
  · split at h
    · exact (hback _ rfl h).elim
    next left => exact ⟨left, rfl⟩
  · exact (hback _ rfl h).elim

theorem Origin.close {created : List (NotificationEvent Value)} {id : Nid}
    {reason : NotificationClosed} {desc : Desc} (h : Origin created ⟨.close id reason, desc⟩) :
    reason = .dismissed ∧ desc.pid = 0 ∨ reason ≠ .dismissed ∧ desc = ⟨0, 0⟩ := by
  generalize hjd : (⟨.close id reason, desc⟩ : JobDesc Value) = jd at h
  cases h with
  | @command own sub hown =>
    obtain ⟨hcmd, rfl⟩ := JobDesc.mk.inj hjd
    exact Or.inl (Sub.job_close own hcmd.symm)
  | notify hevent => cases hjd
  | closeNotification id =>
    cases hjd
    exact Or.inr ⟨by simp, rfl⟩
  | timer id =>
    cases hjd
    exact Or.inr ⟨by simp, rfl⟩
  | watcher id => cases hjd

theorem panic_ends {created : List (NotificationEvent Value)} {jd : JobDesc Value} {empty : Bool}
    {env : Env} (disk : Except (List UInt8) Unit) (horigin : Origin created jd)
    (hphase : d.phase = .executing jd empty) (h : Job.Panics env jd d.manager) :
    Ends d (.execute env disk) := by
  obtain ⟨cmd, desc⟩ := jd
  cases cmd with
  | close id reason =>
    rcases h with ⟨hunknown, hforce⟩ | ⟨ne, -, -, rfl, hauto, -, -, hepoch⟩
    · obtain ⟨pid, flags⟩ := desc
      rcases horigin.close with ⟨rfl, hpid⟩ | ⟨-, hdesc⟩
      · obtain rfl : pid = 0 := hpid
        exact .forced env disk hphase hforce hunknown
      · -- The daemon itself forces nothing.
        obtain ⟨rfl, rfl⟩ := Desc.mk.inj hdesc
        have hforce : Flags.force.is (0 : FlagsRepr) = true := hforce
        exact absurd hforce (by decide)
    · rcases horigin.close with ⟨hdismissed, -⟩ | ⟨-, rfl⟩
      · cases hdismissed
      · exact .clock disk hphase hepoch hauto
  | read start stop =>
    have hshort : min d.manager.logsBuffer.length stop.toNat <
      min d.manager.logsBuffer.length start.toNat := h
    exact .wrapped env disk hphase (UInt16.lt_iff_toNat_lt.mpr (by omega))
  | _ => exact h.elim

theorem step_ends (hd : Orderly platform d) (hsound : d.alive = true → d.poisoned = false)
    (hfound : d'.phase ≠ .dead .noop) {l : Label Value} (h : d.step platform l = some d')
    (halive : d.alive = true) (hdead : d'.alive = false) : Ends d l := by
  rcases Daemon.step_still h with hstill | ⟨rfl, h⟩ | ⟨rfl, h⟩ | ⟨env, disk, rfl, h⟩ |
    ⟨arrived, failed, rfl, h⟩
  · rw [Daemon.alive, hstill.phase] at hdead
    exact Bool.noConfusion (halive.symm.trans hdead)
  · obtain ⟨-, -, rfl⟩ := Daemon.recv_cases h
    cases hdead
  · obtain ⟨-, -, ⟨hpoisoned, -⟩ | ⟨-, rfl⟩ | ⟨jd, rest, -, rfl⟩⟩ := Daemon.pop_cases h
    · exact Bool.noConfusion ((hsound halive).symm.trans hpoisoned)
    · exact absurd rfl hfound
    · cases hdead
  · obtain ⟨jd, empty, hphase, ⟨hnone, -⟩ | ⟨ex, -, rfl⟩⟩ := Daemon.execute_outcome h
    · exact panic_ends disk (hd.hand jd empty hphase) hphase (Job.execute_none_iff.mp hnone)
    · obtain ⟨left, rfl⟩ := conclude_ends hdead
      exact .disk env left
  · obtain ⟨tr, -, ⟨-, rfl⟩ | ⟨rfl, -⟩⟩ := Daemon.reply_cases h
    · cases hdead
    · exact .reply arrived

theorem step_unpoisoned (hsound : d.alive = true → d.poisoned = false)
    (hd : d.phase ≠ .dead .poisoned) {l : Label Value} (h : d.step platform l = some d') :
    d'.phase ≠ .dead .poisoned := by
  rcases Daemon.step_still h with hstill | ⟨-, h⟩ | ⟨-, h⟩ | ⟨env, disk, -, h⟩ | ⟨_, _, -, h⟩
  · rw [hstill.phase]
    exact hd
  · obtain ⟨-, -, rfl⟩ := Daemon.recv_cases h
    simp
  · obtain ⟨hphase, -, ⟨hpoisoned, -⟩ | ⟨-, rfl⟩ | ⟨jd, rest, -, rfl⟩⟩ := Daemon.pop_cases h
    · have halive : d.alive = true := by rw [Daemon.alive, hphase]
      exact Bool.noConfusion ((hsound halive).symm.trans hpoisoned)
    · simp [Daemon.die]
    · simp
  · obtain ⟨jd, empty, -, ⟨-, rfl⟩ | ⟨ex, -, rfl⟩⟩ := Daemon.execute_outcome h
    · simp [Daemon.die]
    · unfold Daemon.conclude Daemon.sendBack
      dsimp only
      split_ifs
      · split
        · split <;> simp
        · simp [Daemon.die]
      · split <;> simp
  · obtain ⟨tr, -, ⟨-, rfl⟩ | ⟨-, rfl | rfl⟩⟩ := Daemon.reply_cases h <;>
      simp [Daemon.die]

end Steps

/-- The request of the connection is that of a command, and is decoded as the job of whichever
command sends it. -/
structure Understood (platform : Platform Value) (d : Daemon Value) (stream : Conn)
    (tr : Transmission) : Prop where
  came : d.accepted[stream]? = some tr
  sent : ∃ own sub, own ≠ 0 ∧ tr = Sub.transmission platform own sub
  decoded : ∀ own sub, tr = Sub.transmission platform own sub →
    (JobDesc.fromStr platform tr.data).run = some (.ok (Sub.jobd own sub))

theorem Orderly.understood {platform : Platform Value} {d : Daemon Value}
    (hd : Orderly platform d) (hrouted : Routing.Routed platform d) {stream : Conn} {pid : Pid}
    {data : String} (htask : .received stream ⟨.incoming pid, data⟩ ∈ d.tasks) :
    Understood platform d stream ⟨.incoming pid, data⟩ := by
  refine ⟨?_, ?_, fun own sub htr => ?_⟩
  · cases hrouted.tasks _ htask with
    | received hsent => exact hsent
  · cases hd.tasks _ htask with
    | command stream sub hown htr => exact ⟨_, sub, hown, htr⟩
    | result stream hresult => cases hresult
  · rw [htr]
    exact congrArg ExceptT.run (sub.decoded platform own)

/-- Among its own clients the daemon understands every request, the lock of its list is sound as
long as the manager thread lives, and that thread ends in one of five ways: a forced close of
an id that is not in the log, an expiry with the clock before the epoch, a read whose range
wraps, a log that cannot be written, or a result that cannot be sent. -/
theorem own_clients_safe (platform : Platform Value) (hwritten : Results.Written platform)
    (man : LogsManager Value) (logsFile : Option (List UInt8)) (labels : List (Label Value))
    (hown : ∀ l ∈ labels, Own platform l) (d : Daemon Value)
    (hrun : run (Daemon.step platform) (Daemon.start man logsFile) labels = some d)
    (hdecodes : Decodes platform d) :
    (d.alive = true → d.poisoned = false) ∧ d.phase ≠ .dead .noop ∧ d.phase ≠ .dead .poisoned ∧
      (∀ stream pid data, .received stream ⟨.incoming pid, data⟩ ∈ d.tasks →
        Understood platform d stream ⟨.incoming pid, data⟩) ∧
      ∀ l d', d.step platform l = some d' → d.alive = true → d'.alive = false → Ends d l := by
  have hstart : Orderly platform (Daemon.start man logsFile) :=
    ⟨fun _ h => (nomatch h), fun _ h => (nomatch h), fun _ _ h => (nomatch h),
      fun _ h => (nomatch h)⟩
  have hstep : ∀ (s : Daemon Value) l s', (Orderly platform s ∧ (Decodes platform s →
      (s.alive = true → s.poisoned = false) ∧ s.phase ≠ .dead .poisoned)) → Own platform l →
      s.step platform l = some s' → Orderly platform s' ∧ (Decodes platform s' →
        (s'.alive = true → s'.poisoned = false) ∧ s'.phase ≠ .dead .poisoned) := by
    intro s l s' hs hl h
    refine ⟨step_orderly hwritten hs.1 hl h, fun hlater => ?_⟩
    have hbefore : Decodes platform s := fun event hevent =>
      hlater event ((step_grows h).mem hevent)
    obtain ⟨hsound, hphase⟩ := hs.2 hbefore
    refine ⟨fun halive => ?_, step_unpoisoned hsound hphase h⟩
    have halive := Waiting.step_alive h halive
    exact step_sound hs.1 hbefore halive (hsound halive) h
  obtain ⟨hd, hsafe⟩ := run_along hstep ⟨hstart, fun _ => ⟨fun _ => rfl, fun h => nomatch h⟩⟩
    (along_of_forall (fun l hl _ => hown l hl) _) hrun
  obtain ⟨hsound, hphase⟩ := hsafe hdecodes
  have hcounted : Wakeups.Counted d := run_invariant (fun _ _ _ => Wakeups.step_counted)
    (Wakeups.start_counted man logsFile) hrun
  refine ⟨hsound, hcounted.found, hphase, fun stream pid data htask => ?_,
    fun l d' h halive hdead => ?_⟩
  · exact hd.understood (Routing.run_routed hrun).2 htask
  · exact step_ends hd hsound (Wakeups.step_counted hcounted h).found h halive hdead

/-! The signals among own clients, by who causes them. -/

section Causes

open Origins Queueing

def sets (config : LogsConfig) (event : NotificationEvent Value) : Bool :=
  config.autoClose && event.timeout != 0 && decide (-1 ≤ event.timeout)

def arms (config : LogsConfig) (id : Nid) : Job Value → Bool
  | .broadcast event => event.id == id && sets config event
  | _ => false

/-- The label is a call or a command that asks for a job that announces the signal. -/
def causes (platform : Platform Value) (signal : Signal) : Label Value → Bool
  | .closeNotification nid => announces (.close nid .callCloseNotification : Job Value) == some signal
  | .connect tr =>
    (taskAsks platform (.received 0 tr)).any fun cmd => announces cmd == some signal
  | _ => false

variable {platform : Platform Value} {d d' : Daemon Value} {l : Label Value}

theorem taskAsks_own {tr : Transmission} {own : Pid} {sub : Sub}
    (htr : tr = sub.transmission platform own) (stream : Conn) :
    taskAsks platform (.received stream tr) = [sub.job] := by
  subst htr
  have hdecoded := congrArg ExceptT.run (sub.decoded platform own)
  rw [Sub.transmission] at hdecoded ⊢
  simp only [taskAsks, hdecoded]
  rfl

theorem armed_expired (env : Env) :
    ∀ cmd ∈ armed platform d env, ∃ id, cmd = .close id .expired := by
  intro cmd hcmd
  unfold armed at hcmd
  split at hcmd
  · split at hcmd
    · obtain ⟨timer, -, rfl⟩ := List.mem_map.mp hcmd
      exact ⟨timer.id, rfl⟩
    · cases hcmd
  · cases hcmd

theorem asks_causes {signal : Signal} (hsignal : ∀ id, signal ≠ .notificationClosed id 1)
    (hl : Own platform l) :
    (asks platform d l).countP (fun cmd => announces cmd == some signal) ≤
      [l].countP (causes platform signal) := by
  cases l with
  | notify call now => exact Nat.zero_le _
  | closeNotification nid => exact le_of_eq rfl
  | connect tr =>
    obtain ⟨own, sub, -, htr⟩ := hl
    simp only [asks, taskAsks_own htr, List.countP_singleton, causes, List.any_cons, List.any_nil,
      Bool.or_false]
    exact le_refl _
  | execute env disk =>
    refine le_of_eq_of_le (List.countP_eq_zero.mpr fun cmd hcmd hsame => ?_) (Nat.zero_le _)
    obtain ⟨id, rfl⟩ := armed_expired env cmd hcmd
    exact hsignal id (Option.some.inj (eq_of_beq hsame)).symm
  | _ => exact Nat.zero_le _

theorem timer_sets {config : LogsConfig} {env : Env} {event : NotificationEvent Value}
    {timer : Timer} (h : Broadcast.timer config env event = some (some timer)) :
    sets config event = true ∧ timer.id = event.id := by
  unfold Broadcast.timer at h
  split at h
  next hset =>
    refine ⟨hset, ?_⟩
    split at h
    · cases h
      rfl
    · cases h
  next => cases h

theorem armed_arms {id : Nid} {env : Env} {disk : Except (List UInt8) Unit}
    (h : d.execute platform env disk = some d') :
    (armed platform d env).countP (fun cmd => announces cmd == some (.notificationClosed id 1)) +
        (done d).countP (arms d.manager.logsConfig id) ≤
      (done d').countP (arms d.manager.logsConfig id) := by
  obtain ⟨jd, empty, hphase, ⟨hnone, rfl⟩ | ⟨ex, hex, rfl⟩⟩ := Daemon.execute_outcome h
  · have harmed : armed platform d env = [] := by simp only [armed, hphase, hnone]
    rw [harmed, List.countP_nil, Nat.zero_add]
    exact le_refl _
  · have harmed : armed platform d env =
        ex.timer.toList.map fun timer => .close timer.id .expired := by
      simp only [armed, hphase, hex]
    rw [done, done, (Daemon.conclude_log ..).2.2.1, List.map_append, List.countP_append, harmed,
      Nat.add_comm]
    refine Nat.add_le_add_left ?_ _
    cases htimer : ex.timer with
    | none => exact Nat.zero_le _
    | some timer =>
      have hbroadcast : ∃ event, jd.cmd = .broadcast event := by
        by_contra hcmd
        have hnone := Job.execute_unarmed hex fun event he => hcmd ⟨event, he⟩
        rw [htimer] at hnone
        cases hnone
      obtain ⟨event, hcmd⟩ := hbroadcast
      have harms := (Job.execute_broadcast hex hcmd).2.2
      rw [htimer] at harms
      obtain ⟨hsets, hid⟩ := timer_sets harms
      have hsame : (announces (.close timer.id .expired : Job Value) ==
          some (.notificationClosed id 1)) = (timer.id == id) := by
        simp [announces, NotificationClosed.repr]
      simp [hcmd, arms, hsets, ← hid, hsame, List.countP_cons]

theorem done_grows (h : d.step platform l = some d') : done d <+: done d' := by
  rcases Daemon.step_manager h with ⟨-, hexecuted⟩ | ⟨env, disk, jd, -, hexec⟩
  · rw [done, done, hexecuted]
  · rw [done, done, hexec.executed, List.map_append]
    exact List.prefix_append _ _

theorem expired_step (id : Nid) (hl : Own platform l) (h : d.step platform l = some d') :
    (asks platform d l).countP (fun cmd => announces cmd == some (.notificationClosed id 1)) +
        (done d).countP (arms d.manager.logsConfig id) ≤
      (done d').countP (arms d.manager.logsConfig id) := by
  by_cases hexecute : ∃ env disk, l = .execute env disk
  · obtain ⟨env, disk, rfl⟩ := hexecute
    exact armed_arms h
  · have hnone : (asks platform d l).countP
        (fun cmd => announces cmd == some (.notificationClosed id 1)) = 0 := by
      rw [List.countP_eq_zero]
      intro cmd hcmd hsame
      cases l with
      | notify call now =>
        cases List.mem_singleton.mp hcmd
        cases hsame
      | closeNotification nid =>
        cases List.mem_singleton.mp hcmd
        simp [announces, NotificationClosed.repr] at hsame
      | connect tr =>
        obtain ⟨own, sub, -, htr⟩ := hl
        rw [asks, taskAsks_own htr, List.mem_singleton] at hcmd
        subst hcmd
        cases hjob : (sub.job : Job Value) with
        | close id' reason =>
          obtain ⟨rfl, -⟩ := Sub.job_close own hjob
          simp [hjob, announces, NotificationClosed.repr] at hsame
        | _ => simp [hjob, announces] at hsame
      | execute env disk => exact hexecute ⟨env, disk, rfl⟩
      | _ => cases hcmd
    rw [hnone, Nat.zero_add]
    exact (done_grows h).countP_le

theorem created_step (config : LogsConfig) (id : Nid) (hl : Own platform l)
    (h : d.step platform l = some d') :
    (asks platform d l).countP (arms config id) +
        d.created.countP (fun event => event.id == id && sets config event) ≤
      d'.created.countP fun event => event.id == id && sets config event := by
  by_cases hnotify : ∃ call now, l = .notify call now
  · obtain ⟨call, now, rfl⟩ := hnotify
    rw [(Daemon.pushJob_alike h).2.2, List.countP_append, Nat.add_comm]
    exact le_refl _
  · have hnone : (asks platform d l).countP (arms config id) = 0 := by
      rw [List.countP_eq_zero]
      intro cmd hcmd harms
      cases l with
      | notify call now => exact hnotify ⟨call, now, rfl⟩
      | closeNotification nid =>
        cases List.mem_singleton.mp hcmd
        cases harms
      | connect tr =>
        obtain ⟨own, sub, -, htr⟩ := hl
        rw [asks, taskAsks_own htr, List.mem_singleton] at hcmd
        subst hcmd
        cases hjob : (sub.job : Job Value) with
        | broadcast event => exact sub.job_ne.1 event hjob
        | _ => simp [hjob, arms] at harms
      | execute env disk =>
        obtain ⟨id', rfl⟩ := armed_expired env cmd hcmd
        cases harms
      | _ => cases hcmd
    rw [hnone, Nat.zero_add]
    exact (step_grows h).sublist.countP_le

variable {man : LogsManager Value} {logsFile : Option (List UInt8)} {labels : List (Label Value)}

theorem asked_expired (id : Nid) (hown : ∀ l ∈ labels, Own platform l)
    (hrun : run (Daemon.step platform) (Daemon.start man logsFile) labels = some d) :
    (asked platform (Daemon.start man logsFile) labels).countP
        (fun cmd => announces cmd == some (.notificationClosed id 1)) ≤
      (done d).countP (arms man.logsConfig id) := by
  have hstep : ∀ (s : Daemon Value) l s', s.manager.logsConfig = man.logsConfig →
      Own platform l → s.step platform l = some s' → s'.manager.logsConfig = man.logsConfig ∧
        (asks platform s l).countP (fun cmd => announces cmd == some (.notificationClosed id 1)) +
            (done s).countP (arms man.logsConfig id) ≤
          (done s').countP (arms man.logsConfig id) + [l].countP fun _ => false := by
    intro s l s' hs hl h
    have hsetup : s'.manager.logsConfig = s.manager.logsConfig :=
      congrArg Prod.fst (Expiry.step_autoClose h)
    have hexpired := expired_step id hl h
    rw [hs] at hexpired
    exact ⟨hsetup.trans hs, hexpired.trans (Nat.le_add_right _ _)⟩
  have hasked := trace_countP_le hstep rfl hown hrun
  rw [List.countP_false] at hasked
  exact hasked

theorem asked_arms (config : LogsConfig) (id : Nid) (hown : ∀ l ∈ labels, Own platform l)
    (hrun : run (Daemon.step platform) (Daemon.start man logsFile) labels = some d) :
    (asked platform (Daemon.start man logsFile) labels).countP (arms config id) ≤
      d.created.countP fun event => event.id == id && sets config event := by
  have hstep : ∀ (s : Daemon Value) l s', True → Own platform l → s.step platform l = some s' →
      True ∧ (asks platform s l).countP (arms config id) +
          s.created.countP (fun event => event.id == id && sets config event) ≤
        s'.created.countP (fun event => event.id == id && sets config event) +
          [l].countP fun _ => false :=
    fun s l s' _ hl h =>
      ⟨trivial, (created_step config id hl h).trans (Nat.le_add_right _ _)⟩
  have hasked := trace_countP_le hstep trivial hown hrun
  rw [List.countP_false] at hasked
  exact hasked

theorem asked_caused {signal : Signal} (hsignal : ∀ id, signal ≠ .notificationClosed id 1)
    (hown : ∀ l ∈ labels, Own platform l)
    (hrun : run (Daemon.step platform) (Daemon.start man logsFile) labels = some d) :
    (asked platform (Daemon.start man logsFile) labels).countP
        (fun cmd => announces cmd == some signal) ≤
      labels.countP (causes platform signal) := by
  have hstep : ∀ (s : Daemon Value) l s', True → Own platform l → s.step platform l = some s' →
      True ∧ (asks platform s l).countP (fun cmd => announces cmd == some signal) + 0 ≤
        0 + [l].countP (causes platform signal) := by
    intro s l s' _ hl _
    rw [Nat.zero_add]
    exact ⟨trivial, asks_causes hsignal hl⟩
  have hasked := trace_countP_le (m := fun _ => 0) hstep trivial hown hrun
  rwa [Nat.zero_add] at hasked

end Causes

/-- Among its own clients no signal goes out without a cause of its own: over a run an expiry is
signalled at most as often as a notification with its id, and with a timeout that arms a timer,
was sent, and every other signal at most as often as a call or a command asks for it. -/
theorem signals_caused (platform : Platform Value) (man : LogsManager Value)
    (logsFile : Option (List UInt8)) (labels : List (Label Value))
    (hown : ∀ l ∈ labels, Own platform l) (d : Daemon Value)
    (hrun : run (Daemon.step platform) (Daemon.start man logsFile) labels = some d) :
    (∀ id, (Origins.signalled platform d).count (.notificationClosed id 1) ≤
      d.created.countP fun event => event.id == id && sets man.logsConfig event) ∧
    ∀ signal, (∀ id, signal ≠ .notificationClosed id 1) →
      (Origins.signalled platform d).count signal ≤
        labels.countP (causes platform signal) := by
  have hannounced : ∀ signal, (Origins.signalled platform d).count signal ≤
      (Origins.asked platform (Daemon.start man logsFile) labels).countP
        fun cmd => Origins.announces cmd == some signal := fun signal =>
    (Origins.signalled_le platform d signal).trans
      (Origins.done_le ⟨rfl, fun _ => rfl⟩ hrun)
  refine ⟨fun id => ?_, fun signal hsignal => ?_⟩
  · calc (Origins.signalled platform d).count (.notificationClosed id 1)
        ≤ _ := hannounced _
      _ ≤ (Origins.done d).countP (arms man.logsConfig id) := asked_expired id hown hrun
      _ ≤ _ := Origins.done_le ⟨rfl, fun _ => rfl⟩ hrun
      _ ≤ _ := asked_arms man.logsConfig id hown hrun
  · exact (hannounced signal).trans (asked_caused hsignal hown hrun)

def dismissed : List (Label Unit) :=
  Identity.notified 0 ++
    [.connect (Sub.transmission Platform.bare 4 (.signal 1 false (.closed false))),
      .listen 0 true [], .listen 0 true [], .listen 0 true [], .listen 0 true [], .recv, .pop,
      .execute ⟨some ⟨0, 0⟩, 0, .ok (), true, true⟩ (.ok ())]

theorem signals_caused_dismissed :
    ∃ d, run (Daemon.step Platform.bare) (Daemon.start (.empty 10) none) dismissed = some d ∧
      Origins.signalled Platform.bare d = [.notificationClosed 1 2] ∧
      (Origins.signalled Platform.bare d).count (.notificationClosed 1 2) ≤
        dismissed.countP (causes Platform.bare (.notificationClosed 1 2)) := by
  have hview : (run (Daemon.step Platform.bare) (Daemon.start (.empty 10) none) dismissed).map
      (Origins.signalled Platform.bare) = some [.notificationClosed 1 2] := by decide +kernel
  obtain ⟨d, hd, hsignalled⟩ := Option.map_eq_some_iff.mp hview
  have hown : ∀ l ∈ dismissed, Own Platform.bare l := by
    intro l hl
    simp only [dismissed, Identity.notified, List.cons_append, List.nil_append, List.mem_cons,
      List.not_mem_nil, or_false] at hl
    rcases hl with rfl | rfl | rfl | rfl | rfl | rfl | rfl | rfl | rfl | rfl | rfl | rfl | rfl | rfl
    all_goals first | trivial | exact ⟨4, .signal 1 false (.closed false), by decide, rfl⟩
  refine ⟨d, hd, hsignalled, ?_⟩
  exact (signals_caused Platform.bare (.empty 10) none dismissed hown d hd).2 _ (by simp)

def knowingEvent (event : NotificationEvent Unit) : Platform Unit :=
  { Platform.bare with eventFromStr := fun text =>
      if text = event.bareJson then .ok event else Platform.bare.eventFromStr text }

theorem knowingEvent_decodes (event : NotificationEvent Unit) :
    (knowingEvent event).eventFromStr ((knowingEvent event).eventToString event) = .ok event := by
  simp [knowingEvent, Platform.bare]

def watched : List (Label Unit) :=
  [.connect (Sub.transmission Platform.bare 4 (.watch false)), .listen 0 true []] ++
    Identity.notified 0 ++ [.listen 0 true [], .listen 0 true []]

theorem own_clients_safe_watched :
    ∃ d, run (Daemon.step (knowingEvent (.bare 1 0 0))) (Daemon.start (.empty 10) none) watched =
        some d ∧ d.list = [⟨.acknowledge 1, ⟨0, 0⟩⟩] ∧ (d.alive = true → d.poisoned = false) := by
  have hview : (run (Daemon.step (knowingEvent (.bare 1 0 0))) (Daemon.start (.empty 10) none)
      watched).map (fun d => (d.list, d.created)) =
        some ([⟨.acknowledge 1, ⟨0, 0⟩⟩], [.bare 1 0 0]) := by decide +kernel
  obtain ⟨d, hd, hstate⟩ := Option.map_eq_some_iff.mp hview
  obtain ⟨hlist, hcreated⟩ := Prod.mk.inj hstate
  have hown : ∀ l ∈ watched, Own (knowingEvent (.bare 1 0 0)) l := by
    intro l hl
    rcases List.mem_append.mp hl with hl | hl
    · rcases List.mem_append.mp hl with hl | hl
      · rcases List.mem_cons.mp hl with rfl | hl
        · exact ⟨4, .watch false, by decide, rfl⟩
        · cases List.mem_singleton.mp hl
          trivial
      · simp only [Identity.notified, List.mem_cons, List.not_mem_nil, or_false] at hl
        rcases hl with rfl | rfl | rfl | rfl | rfl | rfl <;> trivial
    · simp only [List.mem_cons, List.not_mem_nil, or_false] at hl
      rcases hl with rfl | rfl <;> trivial
  have hdecodes : Decodes (knowingEvent (.bare 1 0 0)) d := by
    intro event hevent
    rw [hcreated] at hevent
    cases List.mem_singleton.mp hevent
    exact knowingEvent_decodes _
  have hwritten : Results.Written (knowingEvent (.bare 1 0 0)) :=
    ⟨Results.bare_written.event, Results.bare_written.log⟩
  exact ⟨d, hd, hlist, (own_clients_safe _ hwritten (.empty 10) none watched hown d hd hdecodes).1⟩

end NotifsPiper.Clients

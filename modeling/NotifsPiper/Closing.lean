import NotifsPiper.Deadlines
import NotifsPiper.Identity
import NotifsPiper.Waiting

/-! With automatic closing on, no notification that asked to expire is forgotten. As long as it
is open, its timer sleeps, or a close of it that is due by now waits for the manager thread; so
when the daemon has come to rest every one of them is closed. -/

namespace NotifsPiper.Closing

open Runs Deadlines

variable {Value : Type}

def ahead (d : Daemon Value) : List (JobDesc Value) :=
  match d.phase with
  | .executing jd _ => jd :: d.list
  | _ => d.list

def Expires (event : NotificationEvent Value) : Prop :=
  event.timeout = -1 ∨ 0 < event.timeout.toInt

/-- What is still to come for a notification that was sent: its broadcast, its timer, or a close
of it that is due. -/
inductive Awaits (offset : Int) (s : Clocked Value) (event : NotificationEvent Value) : Prop
  | sent (desc : Desc) (h : ⟨.broadcast event, desc⟩ ∈ ahead s.daemon)
  | timed (timer : Timer) (snd : Bool) (h : .asleep timer snd ∈ s.daemon.timers)
    (hid : timer.id = event.id)
    (hover : Over s.daemon.manager.logsConfig event (offset + timer.wakeup))
  | closing (desc : Desc) (h : ⟨.close event.id .expired, desc⟩ ∈ ahead s.daemon)
    (hover : Over s.daemon.manager.logsConfig event (offset + s.now))

/-- No open notification of this session that asks to expire is forgotten. -/
structure Minded (offset : Int) (s : Clocked Value) : Prop where
  auto : s.daemon.manager.logsConfig.autoClose = true
  distinct : Identity.DistinctIds s.daemon
  past : ∀ event ∈ s.daemon.created, event.time.toNat < 2 ^ 64 * 1000 ∧
    (event.time.toNat * 1000000 : Int) ≤ offset + s.now
  awaits : ∀ ne ∈ s.daemon.manager.logsBuffer, ne.closed = false → Expires ne →
    ne.sent ∈ s.daemon.created → Awaits offset s ne.sent

theorem mem_ahead {d : Daemon Value} {jd : JobDesc Value} (h : jd ∈ d.list) : jd ∈ ahead d := by
  unfold ahead
  split
  · exact List.mem_cons_of_mem _ h
  · exact h

/-! The steps that execute nothing. -/

section Steps

variable {platform : Platform Value} {d d' : Daemon Value}

theorem step_ahead {l : Label Value} (h : d.step platform l = some d') (halive : d'.alive = true)
    (hl : ∀ env disk, l ≠ .execute env disk) {jd : JobDesc Value} (hjd : jd ∈ ahead d) :
    jd ∈ ahead d' := by
  rcases Daemon.step_still h with hstill | ⟨-, h⟩ | ⟨-, h⟩ | ⟨env, disk, rfl, -⟩ | ⟨_, _, -, h⟩
  · unfold ahead at hjd ⊢
    rw [hstill.phase]
    split at hjd
    · rcases List.mem_cons.mp hjd with rfl | hjd
      · exact List.mem_cons_self
      · exact List.mem_cons_of_mem _ (hstill.list.mem hjd)
    · exact hstill.list.mem hjd
  · obtain ⟨hphase, -, rfl⟩ := Daemon.recv_cases h
    simpa [ahead, hphase] using hjd
  · obtain ⟨hphase, -, ⟨-, rfl⟩ | ⟨-, rfl⟩ | ⟨jd', rest, hlist, rfl⟩⟩ := Daemon.pop_cases h
    · cases halive
    · cases halive
    · simpa [ahead, hphase, hlist] using hjd
  · exact absurd rfl (hl env disk)
  · obtain ⟨tr, hphase, ⟨-, rfl⟩ | ⟨-, rfl | rfl⟩⟩ := Daemon.reply_cases h
    · simpa [ahead, hphase, Daemon.accept, Daemon.spawn] using hjd
    · cases halive
    · cases halive

theorem task_timers {written : Bool} {broken : List Pid} {task : ListenerTask Value}
    (h : task.step platform written broken d = some d') : d'.timers = d.timers := by
  have hdeliver : ∀ stream tr, (d.deliver written stream tr).timers = d.timers := by
    intro stream tr
    unfold Daemon.deliver
    split_ifs <;> rfl
  have hbroadcast : ∀ data, (d.broadcast data broken).timers = d.timers := by
    intro data
    unfold Daemon.broadcast
    dsimp only
    split_ifs
    · split <;> rfl
    · rfl
  unfold ListenerTask.step at h
  split at h
  · cases h; exact hdeliver _ _
  · split at h
    · cases h; rfl
    · cases h; exact hdeliver _ _
    · split_ifs at h <;> cases h <;> rfl
  · split_ifs at h
    · cases h; exact hbroadcast _
    · cases h; rfl
  · cases h; rfl
  · split_ifs at h <;> cases h <;> rfl
  · split_ifs at h
    · cases h; rfl
    · split at h <;> cases h <;> rfl
  · split_ifs at h <;> cases h <;> rfl
  · cases h; rfl
  · cases h; exact hdeliver _ _

theorem step_asleep {l : Label Value} (h : d.step platform l = some d')
    (hsound : d.poisoned = false) (hl : ∀ env disk, l ≠ .execute env disk) {timer : Timer}
    {snd : Bool} (htimer : .asleep timer snd ∈ d.timers) :
    .asleep timer snd ∈ d'.timers ∨ ∃ i instant, l = .wake i instant ∧ timer.wakeup ≤ instant ∧
      ⟨.close timer.id .expired, ⟨0, 0⟩⟩ ∈ d'.list := by
  cases l with
  | execute env disk => exact absurd rfl (hl env disk)
  | notify call now =>
    obtain ⟨-, ⟨-, rfl⟩ | ⟨-, rfl⟩⟩ := Daemon.pushJob_cases h <;> exact Or.inl htimer
  | closeNotification nid =>
    obtain ⟨-, ⟨-, rfl⟩ | ⟨-, rfl⟩⟩ := Daemon.pushJob_cases h <;> exact Or.inl htimer
  | busSend =>
    obtain ⟨-, ⟨-, rfl⟩ | ⟨-, rfl⟩⟩ := Daemon.busSend_cases h <;> exact Or.inl htimer
  | connect tr =>
    cases h
    exact Or.inl htimer
  | listen i written broken =>
    obtain ⟨task, -, h⟩ := Option.bind_eq_some_iff.mp h
    rw [task_timers h]
    exact Or.inl htimer
  | wake i instant =>
    obtain ⟨woken, snd', hi, -, hdue, ⟨hpoisoned, -⟩ | ⟨-, rfl⟩⟩ := Daemon.wake_cases h
    · exact Bool.noConfusion (hsound.symm.trans hpoisoned)
    · rcases List.mem_cons.mp ((Daemon.perm_cons_eraseIdx hi).mem_iff.mp htimer) with heq | hrest
      · obtain ⟨rfl, rfl⟩ := TimerThread.asleep.inj heq
        exact Or.inr ⟨i, instant, rfl, hdue, List.mem_append_right _ List.mem_cons_self⟩
      · refine Or.inl ?_
        dsimp only
        split
        · exact List.mem_cons_of_mem _ hrest
        · exact hrest
  | timerSend i =>
    obtain ⟨hi, hcases⟩ := Daemon.timerSend_cases h
    have hrest : .asleep timer snd ∈ d.timers.eraseIdx i := by
      rcases List.mem_cons.mp ((Daemon.perm_cons_eraseIdx hi).mem_iff.mp htimer) with heq | hrest
      · cases heq
      · exact hrest
    obtain ⟨-, rfl⟩ | ⟨-, rfl⟩ := hcases <;> exact Or.inl hrest
  | recv =>
    obtain ⟨-, -, rfl⟩ := Daemon.recv_cases h
    exact Or.inl htimer
  | pop =>
    obtain ⟨-, -, ⟨-, rfl⟩ | ⟨-, rfl⟩ | ⟨jd, rest, -, rfl⟩⟩ := Daemon.pop_cases h <;>
      exact Or.inl htimer
  | reply arrived failed =>
    obtain ⟨tr, -, ⟨-, rfl⟩ | ⟨-, rfl | rfl⟩⟩ := Daemon.reply_cases h <;> exact Or.inl htimer

end Steps

section Invariant

variable {platform : Platform Value} {offset : Int} {s s' : Clocked Value} {now : Nat}

theorem Awaits.quiet {l : Label Value} {event : NotificationEvent Value}
    (h : Awaits offset s event) (hstep : s.step platform offset (now, l) = some s')
    (halive : s'.daemon.alive = true) (hsound : s.daemon.poisoned = false)
    (hl : ∀ env disk, l ≠ .execute env disk) : Awaits offset s' event := by
  obtain ⟨hnow, hreads, hlater, hd⟩ := Deadlines.step_cases hstep
  have hconfig := step_config hstep
  cases h with
  | sent desc h => exact .sent desc (step_ahead hd halive hl h)
  | timed timer snd h hid hover =>
    rw [← hconfig] at hover
    rcases step_asleep hd hsound hl h with hasleep | ⟨i, instant, rfl, hdue, hclose⟩
    · exact .timed timer snd hasleep hid hover
    · -- The timer wakes at an instant that is now, and not before its own.
      have hinstant : instant = now := hreads
      rw [hid] at hclose
      exact .closing _ (mem_ahead hclose) (hover.mono (by omega))
  | closing desc h hover =>
    rw [← hconfig] at hover
    exact .closing desc (step_ahead hd halive hl h) (hover.mono (by omega))

theorem past_step {l : Label Value} (hepoch : 0 ≤ offset + s.now)
    (hstep : s.step platform offset (now, l) = some s')
    (hpast : ∀ event ∈ s.daemon.created, event.time.toNat < 2 ^ 64 * 1000 ∧
      (event.time.toNat * 1000000 : Int) ≤ offset + s.now) :
    ∀ event ∈ s'.daemon.created, event.time.toNat < 2 ^ 64 * 1000 ∧
      (event.time.toNat * 1000000 : Int) ≤ offset + s'.now := by
  obtain ⟨hnow, hreads, hlater, hd⟩ := Deadlines.step_cases hstep
  have hold : ∀ event ∈ s.daemon.created, event.time.toNat < 2 ^ 64 * 1000 ∧
      (event.time.toNat * 1000000 : Int) ≤ offset + s'.now := fun event hevent =>
    ⟨(hpast event hevent).1, (hpast event hevent).2.trans (by omega)⟩
  rcases Daemon.step_created hd with hcreated | ⟨call, reading, rfl, hcreated⟩
  · rw [hcreated]
    exact hold
  · rw [hcreated]
    intro event hevent
    rcases List.mem_append.mp hevent with hevent | hevent
    · exact hold event hevent
    · cases List.mem_singleton.mp hevent
      cases reading with
      | none =>
        have hbefore : offset + now < 0 := hreads
        omega
      | some d =>
        obtain ⟨hmillis, -⟩ := shows_millis hreads
        rw [hlater]
        exact ⟨Duration.asMillis_lt d, hmillis⟩

theorem quiet_minded {l : Label Value} (hs : Minded offset s) (hepoch : 0 ≤ offset + s.now)
    (hstep : s.step platform offset (now, l) = some s') (halive : s'.daemon.alive = true)
    (hsound : s.daemon.poisoned = false) (hl : ∀ env disk, l ≠ .execute env disk) :
    Minded offset s' := by
  obtain ⟨-, -, -, hd⟩ := Deadlines.step_cases hstep
  have hman : s'.daemon.manager = s.daemon.manager := by
    rcases Daemon.step_manager hd with ⟨hman, -⟩ | ⟨env, disk, jd, rfl, -⟩
    · exact hman
    · exact absurd rfl (hl env disk)
  refine ⟨hman ▸ hs.auto, ?_, past_step hepoch hstep hs.past, fun ne hne hopen hexpires hsent => ?_⟩
  · rw [Identity.DistinctIds, hman]
    exact hs.distinct
  · rw [hman] at hne
    by_cases hold : ne.sent ∈ s.daemon.created
    · exact (hs.awaits ne hne hopen hexpires hold).quiet hstep halive hsound hl
    · -- It equals one that this step sends, whose broadcast has come to the list.
      rcases Daemon.step_created hd with hcreated | ⟨call, reading, rfl, hcreated⟩
      · exact absurd (hcreated ▸ hsent) hold
      · rw [hcreated] at hsent
        rcases List.mem_append.mp hsent with hsent | hsent
        · exact absurd hsent hold
        · refine .sent ⟨0, 0⟩ (mem_ahead ?_)
          rw [Serial.still_pushes hd (by simp), List.mem_singleton.mp hsent]
          simp [Serial.pushes, hsound]

/-! The execution of a job. -/

theorem find_of_mem {man : LogsManager Value} {ne : NotificationEvent Value}
    (hdistinct : (man.logsBuffer.map NotificationEvent.id).Nodup) (hne : ne ∈ man.logsBuffer) :
    man.find ne.id = some ne := by
  obtain ⟨i, hi, rfl⟩ := List.getElem_of_mem hne
  refine List.find?_eq_some_iff_getElem.mpr ⟨by simp, i, hi, rfl, fun j hj => ?_⟩
  have hids := List.nodup_iff_injective_getElem.mp hdistinct
  simp only [Bool.not_eq_true', beq_eq_false_iff_ne, ne_eq]
  intro hsame
  have hplace := @hids ⟨j, by simp; omega⟩ ⟨i, by simpa using hi⟩ (by simpa using hsame)
  exact absurd (Fin.mk.inj hplace) (Nat.ne_of_lt hj)

theorem marked_mem {before after : List (NotificationEvent Value)}
    (h : List.Forall₂ Marked before after) {ne : NotificationEvent Value} (hne : ne ∈ after) :
    ∃ old ∈ before, Marked old ne := by
  induction h with
  | nil => cases hne
  | cons hhead _ ih =>
    rcases List.mem_cons.mp hne with rfl | hne
    · exact ⟨_, List.mem_cons_self, hhead⟩
    · obtain ⟨old, hold, hmark⟩ := ih hne
      exact ⟨old, List.mem_cons_of_mem _ hold, hmark⟩

theorem conclude_timers (platform : Platform Value) (d : Daemon Value) (pid : Pid) (empty : Bool)
    (fj : FulfilledJob) (disk : Except (List UInt8) Unit) :
    (d.conclude platform pid empty fj disk).timers = d.timers := by
  unfold Daemon.conclude
  dsimp only
  split_ifs
  · split <;> rfl
  · rfl

structure Leaves (platform : Platform Value) (d : Daemon Value) (env : Env) (jd : JobDesc Value)
    (ex : Executed Value) (d' : Daemon Value) : Prop where
  hand : ∃ empty, d.phase = .executing jd empty
  done : Job.execute platform env jd d.manager = some ex
  log : d'.manager.logsBuffer = ex.manager.logsBuffer
  created : d'.created = d.created
  executed : d'.executed = d.executed ++ [(d.manager, env, jd)]
  list : d'.list = d.list
  timers : d'.timers =
    (ex.timer.map fun timer => .asleep timer ex.manager.notifyer).toList ++ d.timers

theorem execute_leaves {d d' : Daemon Value} {env : Env} {disk : Except (List UInt8) Unit}
    (h : d.execute platform env disk = some d') (halive : d'.alive = true) :
    ∃ jd ex, Leaves platform d env jd ex d' := by
  obtain ⟨jd, empty, hphase, ⟨-, rfl⟩ | ⟨ex, hex, rfl⟩⟩ := Daemon.execute_outcome h
  · cases halive
  · obtain ⟨hlog, -, hexecuted, hcreated⟩ := Daemon.conclude_log platform
      { d with
        manager := ex.manager
        timers := (ex.timer.map fun timer => .asleep timer ex.manager.notifyer).toList ++ d.timers
        executed := d.executed ++ [(d.manager, env, jd)] } jd.desc.pid empty ex.fulfilled disk
    exact ⟨jd, ex, ⟨empty, hphase⟩, hex, hlog, hcreated, hexecuted, Serial.conclude_list ..,
      conclude_timers ..⟩

theorem Awaits.executed {env : Env} {disk : Except (List UInt8) Unit} {jd : JobDesc Value}
    {ex : Executed Value} {event : NotificationEvent Value} (h : Awaits offset s event)
    (hstep : s.step platform offset (now, .execute env disk) = some s')
    (hleaves : Leaves platform s.daemon env jd ex s'.daemon) :
    jd.cmd = .broadcast event ∨
      jd.cmd = .close event.id .expired ∧
        Over s.daemon.manager.logsConfig event (offset + s.now) ∨
      Awaits offset s' event := by
  obtain ⟨hnow, -, hlater, -⟩ := Deadlines.step_cases hstep
  have hconfig := step_config hstep
  obtain ⟨empty, hphase⟩ := hleaves.hand
  have hahead : ∀ other ∈ ahead s.daemon, other = jd ∨ other ∈ ahead s'.daemon := by
    intro other hother
    rw [ahead, hphase] at hother
    rcases List.mem_cons.mp hother with rfl | hother
    · exact Or.inl rfl
    · exact Or.inr (mem_ahead (hleaves.list ▸ hother))
  cases h with
  | sent desc h =>
    rcases hahead _ h with rfl | h
    · exact Or.inl rfl
    · exact Or.inr (Or.inr (.sent desc h))
  | timed timer snd h hid hover =>
    rw [← hconfig] at hover
    refine Or.inr (Or.inr (.timed timer snd ?_ hid hover))
    rw [hleaves.timers]
    exact List.mem_append_right _ h
  | closing desc h hover =>
    rcases hahead _ h with rfl | h
    · exact Or.inr (Or.inl ⟨rfl, hover⟩)
    · rw [← hconfig] at hover
      exact Or.inr (Or.inr (.closing desc h (hover.mono (by omega))))

theorem broadcast_awaits {env : Env} {disk : Except (List UInt8) Unit} {jd : JobDesc Value}
    {ex : Executed Value} {event : NotificationEvent Value} (hs : Minded offset s)
    (hstep : s.step platform offset (now, .execute env disk) = some s')
    (hleaves : Leaves platform s.daemon env jd ex s'.daemon) (hcmd : jd.cmd = .broadcast event)
    (hexpires : Expires event) (hsent : event.sent ∈ s.daemon.created) :
    Awaits offset s' event.sent := by
  obtain ⟨hnow, ⟨-, hinstant⟩, -, -⟩ := Deadlines.step_cases hstep
  obtain ⟨-, hpast⟩ := hs.past _ hsent
  obtain ⟨hzero, hle⟩ : event.timeout ≠ 0 ∧ -1 ≤ event.timeout := by
    rcases hexpires with hdefault | hpos
    · rw [hdefault]
      decide
    · exact (positive_timeout hpos).2
  obtain ⟨ms, hms, harmed⟩ := Broadcast.timer_armed env hs.auto hzero hle
  have htimer : ex.timer = some ⟨env.instant + ms.toNat * 1000000, event.id⟩ := by
    have hsame := (Job.execute_broadcast hleaves.done hcmd).2.2
    exact Option.some.inj (hsame.symm.trans harmed)
  refine .timed ⟨env.instant + ms.toNat * 1000000, event.id⟩ ex.manager.notifyer ?_ rfl
    ⟨ms, ?_, ?_⟩
  · rw [hleaves.timers, htimer]
    exact List.mem_cons_self
  · rw [step_config hstep]
    exact hms
  · have htime : event.sent.time = event.time := rfl
    rw [htime] at hpast ⊢
    rw [hinstant]
    push_cast
    omega

theorem close_closes {env : Env} {disk : Except (List UInt8) Unit} {jd : JobDesc Value}
    {ex : Executed Value} {ne : NotificationEvent Value} (hs : Minded offset s)
    (hstep : s.step platform offset (now, .execute env disk) = some s')
    (hleaves : Leaves platform s.daemon env jd ex s'.daemon)
    (hcmd : jd.cmd = .close ne.id .expired)
    (hover : Over s.daemon.manager.logsConfig ne.sent (offset + s.now))
    (hne : ne ∈ s.daemon.manager.logsBuffer) (hopen : ne.closed = false)
    (hsent : ne.sent ∈ s.daemon.created) : s'.daemon.manager.find ne.id = some ne.setClosed := by
  obtain ⟨hnow, ⟨hshows, -⟩, -, hexec⟩ := Deadlines.step_cases hstep
  obtain ⟨empty, hphase⟩ := hleaves.hand
  have htime : ne.time.toNat < 2 ^ 64 * 1000 := (hs.past _ hsent).1
  have hover : Over s.daemon.manager.logsConfig ne (offset + s.now) := hover
  have hlater : Over s.daemon.manager.logsConfig ne (offset + now) := hover.mono (by omega)
  have hdue : Close.dropped .expired env s.daemon.manager.logsConfig ne = some false := by
    rw [Close.dropped]
    split
    · exact over_not_premature htime hlater hshows
    · rfl
  have hfind := find_of_mem hs.distinct hne
  rw [LogsManager.find_eq_getElem] at hfind
  obtain ⟨pos, hpos, hfound⟩ := Option.bind_eq_some_iff.mp hfind
  obtain ⟨cmd, desc⟩ := jd
  obtain rfl : cmd = .close ne.id .expired := hcmd
  refine execute_close hphase ⟨hpos, hfound, fun hclosed => ?_, hdue⟩ hexec
  exact absurd (hopen ▸ hclosed) Bool.false_ne_true

theorem execute_minded {env : Env} {disk : Except (List UInt8) Unit} (hs : Minded offset s)
    (hepoch : 0 ≤ offset + s.now)
    (hstep : s.step platform offset (now, .execute env disk) = some s')
    (halive : s'.daemon.alive = true) (hdistinct : Identity.DistinctIds s'.daemon) :
    Minded offset s' := by
  obtain ⟨-, -, -, hexec⟩ := Deadlines.step_cases hstep
  obtain ⟨jd, ex, hleaves⟩ := execute_leaves hexec halive
  refine ⟨?_, hdistinct, past_step hepoch hstep hs.past, fun ne hne hopen hexpires hsent => ?_⟩
  · rw [step_config hstep]
    exact hs.auto
  rw [hleaves.created] at hsent
  by_cases hbroadcast : ∃ event, jd.cmd = .broadcast event
  · obtain ⟨event, hcmd⟩ := hbroadcast
    obtain ⟨rest, hlog, hkept⟩ := Job.broadcast_log hleaves.done hcmd
    rw [← hleaves.log] at hlog
    rw [Identity.DistinctIds, hlog, List.map_cons, List.nodup_cons] at hdistinct
    rw [hlog] at hne
    rcases List.mem_cons.mp hne with rfl | hrest
    · exact broadcast_awaits hs hstep hleaves hcmd hexpires hsent
    · have hold := hkept hrest
      rcases (hs.awaits ne hold hopen hexpires hsent).executed hstep hleaves with
        hsame | ⟨hclose, -⟩ | hawaits
      · -- It would stand beside the notification just added, under the same id.
        have hid : event.id = ne.sent.id :=
          congrArg NotificationEvent.id (Job.broadcast.inj (hcmd.symm.trans hsame))
        exact absurd (List.mem_map.mpr ⟨ne, hrest, hid.symm⟩) hdistinct.1
      · rw [hcmd] at hclose
        cases hclose
      · exact hawaits
  · have hmarks := Job.execute_marks hleaves.done fun event hcmd => hbroadcast ⟨event, hcmd⟩
    rw [← hleaves.log] at hmarks
    obtain ⟨before, hbefore, hmark⟩ := marked_mem hmarks hne
    have hopenBefore : before.closed = false := by
      by_contra hclosed
      have hafter := hmark.closed (Bool.not_eq_false _ ▸ hclosed)
      exact Bool.noConfusion (hopen.symm.trans hafter)
    have hexpiresBefore : Expires before := by
      have htimeout := congrArg NotificationEvent.timeout hmark.sent
      have hsame : ne.timeout = before.timeout := htimeout
      rwa [Expires, hsame] at hexpires
    rw [hmark.sent] at hsent ⊢
    rcases (hs.awaits before hbefore hopenBefore hexpiresBefore hsent).executed hstep hleaves with
      hcmd | ⟨hcmd, hover⟩ | hawaits
    · exact absurd ⟨_, hcmd⟩ hbroadcast
    · have hclose : jd.cmd = .close before.id .expired := hcmd
      have hfind := close_closes hs hstep hleaves hclose hover hbefore hopenBefore hsent
      rw [← hmark.id_eq, find_of_mem hdistinct hne] at hfind
      rw [Option.some.inj hfind] at hopen
      cases hopen
    · exact hawaits

theorem step_minded {l : Nat × Label Value} (hs : Minded offset s) (hepoch : 0 ≤ offset + s.now)
    (hstep : s.step platform offset l = some s') (halive : s'.daemon.alive = true)
    (hsound : s.daemon.poisoned = false) (hdistinct : Identity.DistinctIds s'.daemon) :
    Minded offset s' := by
  obtain ⟨now, l⟩ := l
  by_cases hl : ∃ env disk, l = .execute env disk
  · obtain ⟨env, disk, rfl⟩ := hl
    exact execute_minded hs hepoch hstep halive hdistinct
  · exact quiet_minded hs hepoch hstep halive hsound fun env disk he => hl ⟨env, disk, he⟩

end Invariant

/-- As long as the manager thread lives and the lock of the list is sound, the invariant holds. -/
theorem run_minded {platform : Platform Value} {offset : Int} {s t : Clocked Value}
    {labels : List (Nat × Label Value)} (hs : Minded offset s) (hepoch : 0 ≤ offset + s.now)
    (hdistinct : Always (Clocked.step platform offset)
      (fun t => Identity.DistinctIds t.daemon) s labels)
    (hrun : run (Clocked.step platform offset) s labels = some t)
    (halive : t.daemon.alive = true) (hsound : t.daemon.poisoned = false) : Minded offset t := by
  refine (hdistinct.carries (Q := fun t => 0 ≤ offset + t.now ∧
    (t.daemon.alive = true → t.daemon.poisoned = false → Minded offset t))
    (fun s l s' _ hdistinct hs hstep => ?_) hrun ⟨hepoch, fun _ _ => hs⟩).2 halive hsound
  obtain ⟨hnow, -, hlater, hd⟩ := Deadlines.step_cases hstep
  refine ⟨by omega, fun halive hsound => ?_⟩
  have hbefore := Waiting.sound_before hd hsound
  exact step_minded (hs.2 (Waiting.step_alive hd halive) hbefore) hs.1 hstep halive hbefore
    hdistinct

/-- With automatic closing on, and on clocks that advance together from after the epoch, an open
notification of this session that asks to expire is never forgotten as long as the ids of the
log are distinct, the manager thread lives and the lock of the list is sound; and when the
daemon has come to rest it is closed. -/
theorem expiring_are_closed (platform : Platform Value) (offset : Int) (start : Nat)
    (man : LogsManager Value) (logsFile : Option (List UInt8))
    (labels : List (Nat × Label Value)) (s : Clocked Value) (hepoch : 0 ≤ offset + start)
    (hauto : man.logsConfig.autoClose = true)
    (hrun : run (Clocked.step platform offset) ⟨start, Daemon.start man logsFile⟩ labels = some s)
    (hdistinct : Always (Clocked.step platform offset)
      (fun t => Identity.DistinctIds t.daemon) ⟨start, Daemon.start man logsFile⟩ labels)
    (halive : s.daemon.alive = true) (hsound : s.daemon.poisoned = false) :
    ∀ ne ∈ s.daemon.manager.logsBuffer, Expires ne → ne.sent ∈ s.daemon.created →
      (ne.closed = false → Awaits offset s ne.sent) ∧
        (Rest.AtRest platform s.daemon → ne.closed = true) := by
  have hstart : Minded offset ⟨start, Daemon.start man logsFile⟩ :=
    ⟨hauto, always_iff.mp hdistinct [] List.nil_prefix _ rfl, fun _ h => (nomatch h),
      fun _ _ _ _ h => (nomatch h)⟩
  have hs := run_minded hstart hepoch hdistinct hrun halive hsound
  intro ne hne hexpires hsent
  refine ⟨fun hopen => hs.awaits ne hne hopen hexpires hsent, fun hrest => ?_⟩
  by_contra hopen
  have hcounted : Wakeups.Counted s.daemon := run_invariant (fun _ _ _ => Wakeups.step_counted)
    (Wakeups.start_counted man logsFile) (run_daemon hrun)
  obtain ⟨-, htimers, -, hempty⟩ := Rest.rest_empty hcounted hrest
  obtain ⟨hphase, hlist⟩ := hempty halive
  have hahead : ahead s.daemon = [] := by rw [ahead, hphase, hlist]
  cases hs.awaits ne hne (Bool.eq_false_iff.mpr hopen) hexpires hsent with
  | sent desc h => simp [hahead] at h
  | timed timer snd h hid hover => simp [htimers] at h
  | closing desc h hover => simp [hahead] at h

def toRest : List (Nat × Label Unit) :=
  toClose (some ⟨0, 0⟩) (some ⟨10, 0⟩) ++
    [(10000000000, .reply true false), (10000000000, .listen 0 true []),
      (10000000000, .listen 0 true [])]

theorem expiring_are_closed_first :
    ∃ s, run (Clocked.step Platform.bare 0) atStart toRest = some s ∧
      s.daemon.manager.logsBuffer ≠ [] ∧ ∀ ne ∈ s.daemon.manager.logsBuffer, Expires ne →
        ne.sent ∈ s.daemon.created → ne.closed = true := by
  have hdistinct : Always (Clocked.step Platform.bare 0) (fun t =>
      (t.daemon.manager.logsBuffer.map NotificationEvent.id).Nodup) atStart toRest := by decide
  have hview : (run (Clocked.step Platform.bare 0) atStart toRest).map (fun s =>
      (s.daemon.phase, s.daemon.poisoned, s.daemon.tasks, s.daemon.timers, s.daemon.sending)) =
        some (.idle, false, [], [], false) := by decide
  have hkept : (run (Clocked.step Platform.bare 0) atStart toRest).map (fun s =>
      (s.daemon.tokens, s.daemon.manager.logsBuffer.length)) = some (0, 1) := by decide
  obtain ⟨s, hs, hstate⟩ := Option.map_eq_some_iff.mp hview
  rw [hs] at hkept
  simp only [Prod.mk.injEq] at hstate
  obtain ⟨hphase, hsound, htasks, htimers, hsending⟩ := hstate
  obtain ⟨htokens, hlen⟩ := Prod.mk.inj (Option.some.inj hkept)
  have halive : s.daemon.alive = true := by rw [Daemon.alive, hphase]
  have hrest := Waiting.atRest_of Platform.bare htasks htimers hsending hphase htokens
  refine ⟨s, hs, List.ne_nil_of_length_pos (by omega), fun ne hne hexpires hsent => ?_⟩
  exact (expiring_are_closed Platform.bare 0 0 Expiry.noLog none toRest s (by decide) rfl hs
    hdistinct halive hsound ne hne hexpires hsent).2 hrest

end NotifsPiper.Closing

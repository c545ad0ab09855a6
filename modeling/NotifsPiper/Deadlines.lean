import NotifsPiper.Expiry

/-! Expiries in time. The timer of a broadcast runs on the monotonic clock, from the moment the
broadcast is executed; its close is checked against the system clock, from the moment of the
`notify` call. Where the two clocks advance together and never go back, and the system clock
was not before the epoch at the call, no close that comes from its timer comes too early. -/

namespace NotifsPiper.Deadlines

open Runs

variable {Value : Type}

/-- What the system clock answers `time` nanoseconds after the epoch. -/
def Shows (time : Int) : Option Duration → Prop
  | none => time < 0
  | some d => (d.secs.toNat * 1000000000 + d.nanos.val : Int) = time

instance decidableShows (time : Int) : ∀ reading, Decidable (Shows time reading)
  | none => Int.decLt _ _
  | some _ => Int.instDecidableEq _ _

def Reads (offset : Int) (now : Nat) : Label Value → Prop
  | .notify _ reading => Shows (offset + now) reading
  | .wake _ instant => instant = now
  | .execute env _ => Shows (offset + now) env.systemTime ∧ env.instant = now
  | _ => True

instance decidableReads (offset : Int) (now : Nat) :
    ∀ l : Label Value, Decidable (Reads offset now l)
  | .notify _ reading => decidableShows (offset + now) reading
  | .wake _ instant => instDecidableEqNat instant now
  | .execute env _ =>
    inferInstanceAs (Decidable (Shows (offset + now) env.systemTime ∧ env.instant = now))
  | .closeNotification _ | .busSend | .connect _ | .listen .. | .timerSend _ | .recv | .pop
  | .reply .. => .isTrue trivial

structure Clocked (Value : Type) where
  now : Nat
  daemon : Daemon Value

/-- A step at a time that is not in the past. -/
def Clocked.step (platform : Platform Value) (offset : Int) (s : Clocked Value) :
    Nat × Label Value → Option (Clocked Value)
  | (now, l) =>
    if s.now ≤ now ∧ Reads offset now l then (s.daemon.step platform l).map (Clocked.mk now)
    else none

theorem step_cases {platform : Platform Value} {offset : Int} {s s' : Clocked Value} {now : Nat}
    {l : Label Value} (h : s.step platform offset (now, l) = some s') :
    s.now ≤ now ∧ Reads offset now l ∧ s'.now = now ∧
      s.daemon.step platform l = some s'.daemon := by
  dsimp only [Clocked.step] at h
  split_ifs at h with hguard
  obtain ⟨d, hd, rfl⟩ := Option.map_eq_some_iff.mp h
  exact ⟨hguard.1, hguard.2, rfl, hd⟩

theorem run_daemon {platform : Platform Value} {offset : Int} {s t : Clocked Value}
    {labels : List (Nat × Label Value)}
    (h : run (Clocked.step platform offset) s labels = some t) :
    run (Daemon.step platform) s.daemon (labels.map Prod.snd) = some t.daemon := by
  induction labels generalizing s with
  | nil =>
    cases h
    rfl
  | cons l labels ih =>
    obtain ⟨m, hm, h⟩ := run_cons_some.mp h
    exact run_cons_some.mpr ⟨m.daemon, (step_cases hm).2.2.2, ih h⟩

inductive Stage
  | sent
  | armed (timer : Timer)
  | woken

/-- A notification from its `notify` call, in which the system clock gave `reading`: its
broadcast is executed and arms a timer, and the thread of that timer wakes. Between these steps
any others are taken, and after them. -/
inductive History (platform : Platform Value) (offset : Int) (reading : Option Duration)
    (event : NotificationEvent Value) : Stage → Clocked Value → Prop
  | notify {s s' : Clocked Value} {now : Nat} {call : NotifyCall Value} :
    s.step platform offset (now, .notify call reading) = some s' →
    (Notifications.notify s.daemon.counter call reading).2 = event →
      History platform offset reading event .sent s'
  | broadcast {s s' : Clocked Value} {now : Nat} {env : Env} {disk : Except (List UInt8) Unit}
      {desc : Desc} {empty : Bool} {ex : Executed Value} {timer : Timer} :
    History platform offset reading event .sent s →
    s.daemon.phase = .executing ⟨.broadcast event, desc⟩ empty →
    s.step platform offset (now, .execute env disk) = some s' →
    Job.execute platform env ⟨.broadcast event, desc⟩ s.daemon.manager = some ex →
    ex.timer = some timer → History platform offset reading event (.armed timer) s'
  | wake {s s' : Clocked Value} {now i instant : Nat} {timer : Timer} {snd : Bool} :
    History platform offset reading event (.armed timer) s →
    s.daemon.timers[i]? = some (.asleep timer snd) →
    s.step platform offset (now, .wake i instant) = some s' →
      History platform offset reading event .woken s'
  | other {stage : Stage} {s s' : Clocked Value} {l : Nat × Label Value} :
    History platform offset reading event stage s → s.step platform offset l = some s' →
      History platform offset reading event stage s'

/-- The timeout is over at `time` on the system clock. -/
def Over (config : LogsConfig) (event : NotificationEvent Value) (time : Int) : Prop :=
  ∃ ms, LogsManager.mapTimeout config event.timeout = .ok (some ms) ∧
    ((event.time.toNat + ms.toNat) * 1000000 : Int) ≤ time

def Stage.Holds (offset : Int) (event : NotificationEvent Value) : Stage → Clocked Value → Prop
  | sent, s => (event.time.toNat * 1000000 : Int) ≤ offset + s.now
  | armed timer, s => Over s.daemon.manager.logsConfig event (offset + timer.wakeup)
  | woken, s => Over s.daemon.manager.logsConfig event (offset + s.now)

theorem Over.mono {config : LogsConfig} {event : NotificationEvent Value} {time later : Int}
    (h : Over config event time) (hle : time ≤ later) : Over config event later := by
  obtain ⟨ms, hms, hover⟩ := h
  exact ⟨ms, hms, hover.trans hle⟩

theorem step_config {platform : Platform Value} {offset : Int} {s s' : Clocked Value}
    {l : Nat × Label Value} (h : s.step platform offset l = some s') :
    s'.daemon.manager.logsConfig = s.daemon.manager.logsConfig :=
  congrArg Prod.fst (Expiry.step_autoClose (step_cases h).2.2.2)

theorem holds_step {platform : Platform Value} {offset : Int} {event : NotificationEvent Value}
    {stage : Stage} {s s' : Clocked Value} {l : Nat × Label Value}
    (hstep : s.step platform offset l = some s') (h : stage.Holds offset event s) :
    stage.Holds offset event s' := by
  obtain ⟨hnow, -, hlater, -⟩ := step_cases hstep
  rw [← hlater] at hnow
  cases stage with
  | sent =>
    have hsent : (event.time.toNat * 1000000 : Int) ≤ offset + s.now := h
    show (event.time.toNat * 1000000 : Int) ≤ offset + s'.now
    omega
  | armed timer =>
    rw [Stage.Holds, step_config hstep]
    exact h
  | woken =>
    rw [Stage.Holds, step_config hstep]
    exact Over.mono h (by omega)

theorem shows_millis {time : Int} {d : Duration} (h : Shows time (some d)) :
    (d.asMillis.toNat * 1000000 : Int) ≤ time ∧ time < (d.asMillis.toNat + 1) * 1000000 := by
  have htime : (d.secs.toNat * 1000000000 + d.nanos.val : Int) = time := h
  rw [Duration.asMillis_toNat]
  omega

theorem armed_timer {platform : Platform Value} {env : Env} {desc : Desc}
    {man : LogsManager Value} {event : NotificationEvent Value} {ex : Executed Value}
    {timer : Timer}
    (hex : Job.execute platform env ⟨.broadcast event, desc⟩ man = some ex)
    (htimer : ex.timer = some timer) :
    ∃ ms, LogsManager.mapTimeout man.logsConfig event.timeout = .ok (some ms) ∧
      timer = ⟨env.instant + ms.toNat * 1000000, event.id⟩ := by
  obtain ⟨armed, harmed, hexec⟩ := Broadcast.execute_eq platform event env man
  obtain rfl := Option.some.inj (hexec.symm.trans hex)
  obtain rfl : armed = some timer := htimer
  unfold Broadcast.timer at harmed
  split at harmed
  · split at harmed
    next val hval => exact ⟨val, hval, (Option.some.inj (Option.some.inj harmed)).symm⟩
    next => cases harmed
  · cases harmed

/-- The invariant of its stage holds throughout the history of a notification. -/
theorem history_holds {platform : Platform Value} {offset : Int} {d : Duration}
    {event : NotificationEvent Value} {stage : Stage} {s : Clocked Value}
    (h : History platform offset (some d) event stage s) :
    event.time.toNat < 2 ^ 64 * 1000 ∧ stage.Holds offset event s := by
  induction h with
  | notify hstep hevent =>
    obtain ⟨-, hreads, hnow, -⟩ := step_cases hstep
    obtain ⟨hmillis, -⟩ := shows_millis hreads
    rw [← hevent, Stage.Holds, hnow]
    exact ⟨Duration.asMillis_lt d, hmillis⟩
  | broadcast _ hphase hstep hex htimer ih =>
    obtain ⟨hnow, ⟨-, hinstant⟩, -, -⟩ := step_cases hstep
    obtain ⟨ms, hms, rfl⟩ := armed_timer hex htimer
    refine ⟨ih.1, ms, ?_, ?_⟩
    · rw [step_config hstep]
      exact hms
    · -- The broadcast is executed after the call, so its timer ends after the deadline.
      have hsent := ih.2
      rw [Stage.Holds] at hsent
      rw [hinstant]
      push_cast
      omega
  | @wake s s' now i instant timer snd _ hi hstep ih =>
    obtain ⟨-, hreads, hnow, hwake⟩ := step_cases hstep
    obtain ⟨_, _, hi', -, hwakeup, -⟩ := Daemon.wake_cases hwake
    rw [hi] at hi'
    cases hi'
    have hinstant : instant = now := hreads
    refine ⟨ih.1, ?_⟩
    rw [Stage.Holds, step_config hstep]
    exact Over.mono ih.2 (by omega)
  | other _ hstep ih => exact ⟨ih.1, holds_step hstep ih.2⟩

theorem mapTimeout_zero (config : LogsConfig) : LogsManager.mapTimeout config 0 = .ok none := rfl

theorem over_not_premature {env : Env} {config : LogsConfig} {ne : NotificationEvent Value}
    {time : Int} (htime : ne.time.toNat < 2 ^ 64 * 1000) (hover : Over config ne time)
    (hshows : Shows time env.systemTime) : Close.premature env config ne = some false := by
  obtain ⟨ms, hms, hdeadline⟩ := hover
  have hzero : ne.timeout ≠ 0 := by
    intro hzero
    rw [hzero, mapTimeout_zero] at hms
    cases hms
  cases hnow : env.systemTime with
  | none =>
    rw [hnow] at hshows
    have hbefore : time < 0 := hshows
    omega
  | some d =>
    rw [hnow] at hshows
    obtain ⟨-, hmillis⟩ := shows_millis hshows
    have hlate : ¬ d.asMillis < BitVec.ofNat 128 ms.toNat + ne.time := by
      rw [BitVec.lt_def, Expiry.deadline_toNat htime]
      omega
    simp [Close.premature, hzero, hms, hnow, hlate]

theorem find_closed {log : List (NotificationEvent Value)} {id : Nid} {pos : Nat}
    {ne : NotificationEvent Value} {man : LogsManager Value} (hpos : man.position id = some pos)
    (hne : man.logsBuffer[pos]? = some ne)
    (hlog : log = man.logsBuffer.modify pos NotificationEvent.setClosed) :
    log.find? (fun ne => ne.id == id) = some ne.setClosed := by
  obtain ⟨hlt, hid, hfirst⟩ := LogsManager.position_some.mp hpos
  obtain rfl : man.logsBuffer[pos] = ne := by
    rwa [List.getElem?_eq_getElem hlt, Option.some.injEq] at hne
  rw [hlog, List.find?_eq_some_iff_getElem]
  refine ⟨by simpa using hid, pos, by simpa using hlt, by simp, fun j hj => ?_⟩
  rw [List.getElem_modify, if_neg (by omega)]
  simpa using hfirst j hj

theorem execute_close {platform : Platform Value} {d d' : Daemon Value} {env : Env}
    {disk : Except (List UInt8) Unit} {id : Nid} {reason : NotificationClosed} {desc : Desc}
    {empty : Bool} {pos : Nat} {ne : NotificationEvent Value}
    (hphase : d.phase = .executing ⟨.close id reason, desc⟩ empty)
    (hpasses : Close.Passes id reason env desc d.manager pos ne)
    (h : d.execute platform env disk = some d') : d'.manager.find id = some ne.setClosed := by
  have hex : Job.execute platform env ⟨.close id reason, desc⟩ d.manager = _ :=
    Close.execute_passes hpasses
  simp only [Daemon.execute, hphase, hex] at h
  cases h
  refine find_closed hpasses.first hpasses.found ?_
  rw [(Daemon.conclude_log ..).1, close_perform_manager]

/-- Where the notification is the first with its id, and open, when a close of it as expired is
executed after its timer has woken, the close gets through and closes it. -/
def ClosesInTime (platform : Platform Value) (offset : Int) (reading : Option Duration) : Prop :=
  ∀ (event ne : NotificationEvent Value) (s s' : Clocked Value) (now : Nat) (env : Env)
    (disk : Except (List UInt8) Unit) (desc : Desc) (empty : Bool),
    History platform offset reading event .woken s →
    s.daemon.phase = .executing ⟨.close event.id .expired, desc⟩ empty →
    s.step platform offset (now, .execute env disk) = some s' →
    s.daemon.manager.find event.id = some ne → ne.sent = event.sent → ne.closed = false →
      Close.dropped .expired env s.daemon.manager.logsConfig ne = some false ∧
        s'.daemon.manager.find event.id = some ne.setClosed

theorem closes_in_time (platform : Platform Value) (offset : Int) (d : Duration) :
    ClosesInTime platform offset (some d) := by
  intro event ne s s' now env disk desc empty hhistory hphase hstep hfind hsent hopen
  obtain ⟨htime, hover⟩ := history_holds hhistory
  obtain ⟨hnow, ⟨hshows, -⟩, -, hexec⟩ := step_cases hstep
  have htimeout : ne.timeout = event.timeout := by
    have h := congrArg NotificationEvent.timeout hsent
    exact h
  have hstamp : ne.time = event.time := by
    have h := congrArg NotificationEvent.time hsent
    exact h
  have hover : Over s.daemon.manager.logsConfig ne (offset + now) := by
    rw [Over, htimeout, hstamp]
    exact Over.mono hover (by omega)
  have hdue : Close.dropped .expired env s.daemon.manager.logsConfig ne = some false := by
    rw [Close.dropped]
    split
    · exact over_not_premature (hstamp ▸ htime) hover hshows
    · rfl
  rw [LogsManager.find_eq_getElem] at hfind
  obtain ⟨pos, hpos, hne⟩ := Option.bind_eq_some_iff.mp hfind
  have hpasses : Close.Passes event.id .expired env desc s.daemon.manager pos ne :=
    ⟨hpos, hne, fun hclosed => absurd (hopen ▸ hclosed) Bool.false_ne_true, hdue⟩
  exact ⟨hdue, execute_close hphase hpasses hexec⟩

/-- With automatic closing on, a notification that asks to expire arms a timer, and where the
system clock was not before the epoch when it was sent, it is closed in time. Neither the
timer nor the check comes to an `unwrap` of a timeout that is not there. -/
theorem expires_in_time (platform : Platform Value) (offset : Int) (reading : Option Duration)
    (hreading : reading ≠ none) :
    (∀ (config : LogsConfig) (env : Env) (event : NotificationEvent Value),
        config.autoClose = true → (event.timeout = -1 ∨ 0 < event.timeout.toInt) →
          ∃ ms, LogsManager.mapTimeout config event.timeout = .ok (some ms) ∧
            Broadcast.timer config env event =
              some (some ⟨env.instant + ms.toNat * 1000000, event.id⟩)) ∧
      ClosesInTime platform offset reading ∧
      (∀ (config : LogsConfig) (env : Env) (event : NotificationEvent Value),
        Broadcast.timer config env event ≠ none) ∧
      ∀ (config : LogsConfig) (env : Env) (ne : NotificationEvent Value),
        env.systemTime ≠ none → Close.premature env config ne ≠ none := by
  refine ⟨fun config env event hauto hasks => ?_, ?_, fun config env event => ?_,
    fun config env ne hclock hnone => ?_⟩
  · obtain ⟨hzero, hle⟩ : event.timeout ≠ 0 ∧ -1 ≤ event.timeout := by
      rcases hasks with hdefault | hpos
      · rw [hdefault]
        decide
      · exact (positive_timeout hpos).2
    exact Broadcast.timer_armed env hauto hzero hle
  · obtain ⟨d, rfl⟩ := Option.ne_none_iff_exists'.mp hreading
    exact closes_in_time platform offset d
  · obtain ⟨timer, htimer⟩ := Broadcast.timer_isSome config env event
    rw [htimer]
    exact Option.some_ne_none timer
  · exact hclock ((Close.premature_none_iff env config ne).mp hnone).2.2

def event (reading : Option Duration) : NotificationEvent Unit :=
  (Notifications.notify 0 (Expiry.plainCall 10000) reading).2

def toExpiry (reading : Option Duration) : List (Nat × Label Unit) :=
  (0, .notify (Expiry.plainCall 10000) reading) :: ([(0, .busSend), (0, .recv), (0, .pop)] ++
    (0, .execute ⟨reading, 0, .ok (), true, true⟩ (.ok ())) :: ([(0, .reply true false)] ++
      (10000000000, .wake 0 10000000000) ::
        [(10000000000, .timerSend 0), (10000000000, .recv), (10000000000, .pop)]))

def atStart : Clocked Unit := ⟨0, Daemon.start Expiry.noLog none⟩

theorem history_run {platform : Platform Value} {offset : Int} {reading : Option Duration}
    {event : NotificationEvent Value} {stage : Stage} {s t : Clocked Value}
    {labels : List (Nat × Label Value)} (h : History platform offset reading event stage s)
    (hrun : run (Clocked.step platform offset) s labels = some t) :
    History platform offset reading event stage t :=
  run_invariant (fun _ _ _ hs hstep => hs.other hstep) h hrun

def timer : Timer := ⟨0 + (10000 : UInt16).toNat * 1000000, 1⟩

theorem toExpiry_history {offset : Int} {reading : Option Duration} {s : Clocked Unit}
    (h : run (Clocked.step Platform.bare offset) atStart (toExpiry reading) = some s) :
    History Platform.bare offset reading (event reading) .woken s := by
  obtain ⟨s₁, hnotify, h⟩ := run_cons_some.mp h
  obtain ⟨s₂, hpop, h⟩ := run_append_some.mp h
  obtain ⟨s₃, hexecute, h⟩ := run_cons_some.mp h
  obtain ⟨s₄, hreply, h⟩ := run_append_some.mp h
  obtain ⟨s₅, hwake, h⟩ := run_cons_some.mp h
  have hcalled := run_daemon (run_cons_some.mpr ⟨s₁, hnotify, hpop⟩)
  have hanswered := run_daemon (run_cons_some.mpr
    ⟨s₁, hnotify, run_append_some.mpr ⟨s₂, hpop, run_cons_some.mpr ⟨s₃, hexecute, hreply⟩⟩⟩)
  have hphase : some (Phase.executing ⟨.broadcast (event reading), ⟨0, 0⟩⟩ true) =
      some s₂.daemon.phase := congrArg (Option.map Daemon.phase) hcalled
  have hman : some Expiry.noLog = some s₂.daemon.manager :=
    congrArg (Option.map Daemon.manager) hcalled
  have htimers : some [TimerThread.asleep timer true] = some s₄.daemon.timers :=
    congrArg (Option.map Daemon.timers) hanswered
  have hex : ∃ ex, Job.execute Platform.bare ⟨reading, 0, .ok (), true, true⟩
      ⟨.broadcast (event reading), ⟨0, 0⟩⟩ s₂.daemon.manager = some ex ∧
        ex.timer = some timer := by
    rw [← Option.some.inj hman]
    exact ⟨_, rfl, rfl⟩
  obtain ⟨ex, hex, htimer⟩ := hex
  have hsent := history_run (.notify hnotify rfl) hpop
  have harmed := history_run
    (.broadcast hsent (Option.some.inj hphase).symm hexecute hex htimer) hreply
  have hasleep : s₄.daemon.timers[0]? = some (.asleep timer true) := by
    rw [← Option.some.inj htimers]
    rfl
  exact history_run (.wake harmed hasleep hwake) h

def toClose (reading now : Option Duration) : List (Nat × Label Unit) :=
  toExpiry reading ++ [(10000000000, .execute ⟨now, 10000000000, .ok (), true, true⟩ (.ok ()))]

theorem closes_of_run {offset : Int} {reading now : Option Duration} {s' : Clocked Unit}
    (hclosing : (run (Clocked.step Platform.bare offset) atStart (toExpiry reading)).map
      (fun s => (s.daemon.phase, s.daemon.manager.find 1)) =
        some (.executing ⟨.close 1 .expired, ⟨0, 0⟩⟩ true, some (event reading)))
    (hrun : run (Clocked.step Platform.bare offset) atStart (toClose reading now) = some s')
    (h : ClosesInTime Platform.bare offset reading) :
    s'.daemon.manager.find 1 = some (event reading).setClosed := by
  obtain ⟨s, hs, hlast⟩ := run_append_some.mp hrun
  obtain ⟨_, hstep, hnil⟩ := run_cons_some.mp hlast
  cases hnil
  rw [hs] at hclosing
  obtain ⟨hphase, hfind⟩ := Prod.mk.inj (Option.some.inj hclosing)
  exact (h (event reading) (event reading) s s' _ _ _ _ _ (toExpiry_history hs) hphase hstep hfind
    rfl rfl).2

theorem expires_in_time_first :
    (run (Clocked.step Platform.bare 0) atStart (toClose (some ⟨0, 0⟩) (some ⟨10, 0⟩))).map
      (fun s => s.daemon.manager.find 1) = some (some (event (some ⟨0, 0⟩)).setClosed) := by
  obtain ⟨s, hs⟩ := Option.isSome_iff_exists.mp
    (show (run (Clocked.step Platform.bare 0) atStart
      (toClose (some ⟨0, 0⟩) (some ⟨10, 0⟩))).isSome by decide)
  rw [hs, Option.map_some, Option.some.injEq]
  exact closes_of_run (by decide) hs
    (expires_in_time Platform.bare 0 (some ⟨0, 0⟩) (by decide)).2.1

/-- The call comes five seconds before the epoch and is stamped with the epoch: its close, ten
seconds later, is dropped as premature. -/
theorem call_before_epoch :
    ¬ ClosesInTime Platform.bare (-5000000000) none ∧
      (run (Clocked.step Platform.bare (-5000000000)) atStart (toClose none (some ⟨5, 0⟩))).map
        (fun s => (s.daemon.phase, s.daemon.timers, s.daemon.manager.find 1)) =
          some (.idle, [], some (event none)) := by
  have hopen : (run (Clocked.step Platform.bare (-5000000000)) atStart
      (toClose none (some ⟨5, 0⟩))).map
        (fun s => (s.daemon.phase, s.daemon.timers, s.daemon.manager.find 1)) =
          some (.idle, [], some (event none)) := by
    decide
  refine ⟨fun h => ?_, hopen⟩
  obtain ⟨s, hs, hkept⟩ := Option.map_eq_some_iff.mp hopen
  have hclosed := closes_of_run (by decide) hs h
  rw [(Prod.mk.inj (Prod.mk.inj hkept).2).2] at hclosed
  revert hclosed
  decide

end NotifsPiper.Deadlines

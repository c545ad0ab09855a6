import NotifsPiper.Closing
import NotifsPiper.Origins

/-! A notification that is closed on request, by a call of `CloseNotification` or by a command,
and not because it expired. The request waits on the list of jobs or has been carried out, and
what it has closed stays closed: with its id nothing is open but what was broadcast later. -/

namespace NotifsPiper.Dismissal

open Runs Closing

variable {Value : Type}

/-- A close that is no expiry was done, after the first `since` jobs, and with its id nothing is
open that was not broadcast after it. -/
def Obeyed (since : Nat) (nid : Nid) (reason : NotificationClosed) (d : Daemon Value)
    (man : LogsManager Value) (env : Env) : Prop :=
  ∃ earlier desc later, d.executed = earlier ++ (man, env, ⟨.close nid reason, desc⟩) :: later ∧
    since ≤ earlier.length ∧
    ∀ ne ∈ d.manager.logsBuffer, ne.id = nid → ne.closed = false →
      ∃ e ∈ later, ∃ event, e.2.2.cmd = .broadcast event ∧ event.sent = ne.sent

/-- The request waits, or has been carried out. -/
def Heeded (since : Nat) (nid : Nid) (reason : NotificationClosed) (d : Daemon Value) : Prop :=
  (since ≤ d.executed.length ∧ ∃ desc, ⟨.close nid reason, desc⟩ ∈ ahead d) ∨
    ∃ man env, Obeyed since nid reason d man env

section Steps

variable {platform : Platform Value} {d d' : Daemon Value} {env : Env}
  {disk : Except (List UInt8) Unit} {nid : Nid} {reason : NotificationClosed} {since : Nat}

theorem execute_closes (h : d.execute platform env disk = some d') {desc : Desc}
    {ex : Executed Value} (hleaves : Leaves platform d env ⟨.close nid reason, desc⟩ ex d')
    (hreason : reason ≠ .expired) (hbefore : Identity.DistinctIds d)
    (hafter : Identity.DistinctIds d') : ∀ ne ∈ d'.manager.logsBuffer, ne.id = nid →
      ne.closed = true := by
  intro ne hne hid
  have hmarks := Job.execute_marks hleaves.done fun event hcmd => by cases hcmd
  rw [← hleaves.log] at hmarks
  obtain ⟨old, hold, hmark⟩ := marked_mem hmarks hne
  by_cases hclosed : old.closed = true
  · exact hmark.closed hclosed
  · -- It was open, so the close gets through to it.
    obtain ⟨empty, hphase⟩ := hleaves.hand
    have hfind := find_of_mem hbefore hold
    have holdId : old.id = nid := hmark.id_eq.symm.trans hid
    rw [holdId, LogsManager.find_eq_getElem] at hfind
    obtain ⟨pos, hpos, hfound⟩ := Option.bind_eq_some_iff.mp hfind
    have hdue : Close.dropped reason env d.manager.logsConfig old = some false := by
      rw [Close.dropped, if_neg (by simp [hreason])]
    have hset := Deadlines.execute_close hphase
      ⟨hpos, hfound, fun h => absurd h hclosed, hdue⟩ h
    rw [← hid, find_of_mem hafter hne] at hset
    rw [Option.some.inj hset]
    rfl

theorem execute_open {jd : JobDesc Value} {ex : Executed Value}
    (hleaves : Leaves platform d env jd ex d') {ne : NotificationEvent Value}
    (hne : ne ∈ d'.manager.logsBuffer) (hopen : ne.closed = false) :
    (∃ old ∈ d.manager.logsBuffer, old.closed = false ∧ ne.sent = old.sent) ∨
      ∃ event, jd.cmd = .broadcast event ∧ event.sent = ne.sent := by
  by_cases hbroadcast : ∃ event, jd.cmd = .broadcast event
  · obtain ⟨event, hcmd⟩ := hbroadcast
    obtain ⟨rest, hlog, hkept⟩ := Job.broadcast_log hleaves.done hcmd
    rw [hleaves.log, hlog] at hne
    rcases List.mem_cons.mp hne with rfl | hrest
    · exact Or.inr ⟨ne, hcmd, rfl⟩
    · exact Or.inl ⟨ne, hkept hrest, hopen, rfl⟩
  · have hmarks := Job.execute_marks hleaves.done fun event hcmd => hbroadcast ⟨event, hcmd⟩
    rw [← hleaves.log] at hmarks
    obtain ⟨old, hold, hmark⟩ := marked_mem hmarks hne
    refine Or.inl ⟨old, hold, ?_, hmark.sent⟩
    by_contra hclosed
    have hafter := hmark.closed (Bool.not_eq_false _ ▸ hclosed)
    exact Bool.noConfusion (hopen.symm.trans hafter)

theorem execute_heeded (h : d.execute platform env disk = some d') (halive : d'.alive = true)
    (hreason : reason ≠ .expired) (hbefore : Identity.DistinctIds d)
    (hafter : Identity.DistinctIds d') (hd : Heeded since nid reason d) :
    Heeded since nid reason d' := by
  obtain ⟨jd, ex, hleaves⟩ := execute_leaves h halive
  obtain ⟨empty, hphase⟩ := hleaves.hand
  rcases hd with ⟨hsince, desc, hjd⟩ | ⟨man, env', earlier, desc, later, hexecuted, hsince, hopened⟩
  · rw [ahead, hphase] at hjd
    rcases List.mem_cons.mp hjd with rfl | hjd
    · refine Or.inr ⟨d.manager, env, d.executed, desc, [], hleaves.executed, hsince, ?_⟩
      intro ne hne hid hopen
      have hclosed := execute_closes h hleaves hreason hbefore hafter ne hne hid
      exact Bool.noConfusion (hopen.symm.trans hclosed)
    · refine Or.inl ⟨?_, desc, mem_ahead (hleaves.list ▸ hjd)⟩
      rw [hleaves.executed, List.length_append]
      omega
  · refine Or.inr ⟨man, env', earlier, desc, later ++ [(d.manager, env, jd)], ?_, hsince, ?_⟩
    · rw [hleaves.executed, hexecuted, List.append_assoc, List.cons_append]
    · intro ne hne hid hopen
      rcases execute_open hleaves hne hopen with ⟨old, hold, holdOpen, hsent⟩ | ⟨event, hcmd, hsent⟩
      · have hsame := congrArg NotificationEvent.id hsent
        have hsame : ne.id = old.id := hsame
        obtain ⟨e, he, event, hcmd, hevent⟩ := hopened old hold (hsame.symm.trans hid) holdOpen
        exact ⟨e, List.mem_append_left _ he, event, hcmd, hevent.trans hsent.symm⟩
      · exact ⟨_, List.mem_append_right _ List.mem_cons_self, event, hcmd, hsent⟩

theorem step_heeded {l : Label Value} (h : d.step platform l = some d') (halive : d'.alive = true)
    (hreason : reason ≠ .expired) (hbefore : Identity.DistinctIds d)
    (hafter : Identity.DistinctIds d') (hd : Heeded since nid reason d) :
    Heeded since nid reason d' := by
  by_cases hl : ∃ env disk, l = .execute env disk
  · obtain ⟨env, disk, rfl⟩ := hl
    exact execute_heeded h halive hreason hbefore hafter hd
  · have hquiet : ∀ env disk, l ≠ .execute env disk := fun env disk he => hl ⟨env, disk, he⟩
    rcases Daemon.step_manager h with ⟨hman, hexecuted⟩ | ⟨env, disk, jd, rfl, -⟩
    · rcases hd with ⟨hsince, desc, hjd⟩ | ⟨man, env, hobeyed⟩
      · exact Or.inl ⟨hexecuted ▸ hsince, desc, step_ahead h halive hquiet hjd⟩
      · refine Or.inr ⟨man, env, ?_⟩
        rwa [Obeyed, hexecuted, hman]
    · exact absurd rfl (hquiet env disk)

end Steps

theorem close_announced {platform : Platform Value} {d : Daemon Value} {man : LogsManager Value}
    {env : Env} {nid : Nid} {reason : NotificationClosed} {desc : Desc}
    (h : (man, env, ⟨.close nid reason, desc⟩) ∈ d.executed) (hreason : reason ≠ .expired)
    {ne : NotificationEvent Value} (hne : man.find nid = some ne) (hopen : ne.closed = false)
    (hbus : BusAnswers env man) :
    .notificationClosed nid reason.repr ∈ Origins.signalled platform d := by
  rw [LogsManager.find_eq_getElem] at hne
  obtain ⟨pos, hpos, hfound⟩ := Option.bind_eq_some_iff.mp hne
  have hdue : Close.dropped reason env man.logsConfig ne = some false := by
    rw [Close.dropped, if_neg (by simp [hreason])]
  have hpasses : Close.Passes nid reason env desc man pos ne :=
    ⟨hpos, hfound, fun hclosed => by simp [hopen] at hclosed, hdue⟩
  have hex : Job.execute platform env ⟨.close nid reason, desc⟩ man = _ :=
    Close.execute_passes hpasses
  obtain ⟨hruntime, hinterface, hlookup, hemission⟩ := hbus
  refine List.mem_flatMap.mpr ⟨_, h, ?_⟩
  simp [hex, Close.perform, LogsManager.setDirty, emitSignal, hruntime, hinterface, hlookup,
    hemission]

theorem run_heeded {platform : Platform Value} {d t : Daemon Value} {labels : List (Label Value)}
    {nid : Nid} {reason : NotificationClosed} {since : Nat} (hd : Heeded since nid reason d)
    (hreason : reason ≠ .expired)
    (hdistinct : Always (Daemon.step platform) Identity.DistinctIds d labels)
    (hrun : run (Daemon.step platform) d labels = some t) (halive : t.alive = true) :
    Heeded since nid reason t := by
  refine hdistinct.carries (Q := fun t => t.alive = true → Heeded since nid reason t)
    (fun s l s' hbefore hafter hs hstep halive => ?_) hrun (fun _ => hd) halive
  exact step_heeded hstep halive hreason hbefore hafter (hs (Waiting.step_alive hstep halive))

/-- A close on request, from the moment it is pushed to the list: as long as the ids of the log
are distinct and the manager thread lives, it waits or has been carried out. When the daemon has
come to rest it has been carried out, nothing with its id is open but what was broadcast after
it, and its signal went out if it found the notification open and the bus took the signal. -/
theorem requests_are_heeded (platform : Platform Value) (man : LogsManager Value)
    (logsFile : Option (List UInt8)) (before after : List (Label Value)) (l : Label Value)
    (d₀ d : Daemon Value)
    (hbefore : run (Daemon.step platform) (Daemon.start man logsFile) before = some d₀)
    (hrun : run (Daemon.step platform) d₀ (l :: after) = some d)
    (hdistinct : Always (Daemon.step platform) Identity.DistinctIds d₀ (l :: after))
    (halive : d.alive = true) (nid : Nid) (reason : NotificationClosed)
    (desc : Desc) (hreason : reason ≠ .expired)
    (hpushed : ⟨.close nid reason, desc⟩ ∈ Serial.pushes platform d₀ l) :
    Heeded d₀.executed.length nid reason d ∧
      (Rest.AtRest platform d → ∃ man env, Obeyed d₀.executed.length nid reason d man env ∧
        ∀ ne, man.find nid = some ne → ne.closed = false → BusAnswers env man →
          .notificationClosed nid reason.repr ∈ Origins.signalled platform d) := by
  obtain ⟨d₁, hstep, hafter⟩ := run_cons_some.mp hrun
  have hquiet : l ≠ .pop ∧ ∀ env disk, l ≠ .execute env disk := by
    refine ⟨?_, fun env disk => ?_⟩ <;> rintro rfl <;> simp [Serial.pushes] at hpushed
  have hlist : ⟨.close nid reason, desc⟩ ∈ d₁.list := by
    rw [Serial.still_pushes hstep hquiet.1]
    exact List.mem_append_right _ hpushed
  have hexecuted : d₁.executed = d₀.executed := by
    rcases Daemon.step_manager hstep with ⟨-, hexecuted⟩ | ⟨env, disk, jd, rfl, -⟩
    · exact hexecuted
    · exact absurd rfl (hquiet.2 env disk)
  have hfirst : Heeded d₀.executed.length nid reason d₁ :=
    Or.inl ⟨by rw [hexecuted], desc, mem_ahead hlist⟩
  have hheeded := run_heeded hfirst hreason (hdistinct.2 d₁ hstep) hafter halive
  refine ⟨hheeded, fun hrest => ?_⟩
  have hcounted : Wakeups.Counted d := run_invariant (fun _ _ _ => Wakeups.step_counted)
    (Wakeups.start_counted man logsFile) (run_append_some.mpr ⟨d₀, hbefore, hrun⟩)
  obtain ⟨-, -, -, hempty⟩ := Rest.rest_empty hcounted hrest
  obtain ⟨hphase, hlist⟩ := hempty halive
  rcases hheeded with ⟨-, desc, hwaits⟩ | ⟨man, env, hobeyed⟩
  · simp [ahead, hphase, hlist] at hwaits
  · refine ⟨man, env, hobeyed, fun ne hne hopen hbus => ?_⟩
    obtain ⟨earlier, desc, later, hexecuted, -⟩ := hobeyed
    have hdone : (man, env, ⟨.close nid reason, desc⟩) ∈ d.executed := by
      rw [hexecuted]
      exact List.mem_append_right _ List.mem_cons_self
    exact close_announced hdone hreason hne hopen hbus

def withdrawn : List (Label Unit) :=
  [.closeNotification 1, .busSend, .recv, .pop,
    .execute ⟨some ⟨0, 0⟩, 0, .ok (), true, true⟩ (.ok ()), .reply true false, .listen 0 true []]

theorem requests_are_heeded_withdrawn :
    ∃ d₀ d, run (Daemon.step Platform.bare) (Daemon.start (.empty 10) none)
        (Identity.notified 0 ++ [.listen 0 true []]) = some d₀ ∧
      run (Daemon.step Platform.bare) d₀ withdrawn = some d ∧
      ∃ man env, Obeyed d₀.executed.length 1 .callCloseNotification d man env := by
  have hids : (run (Daemon.step Platform.bare) (Daemon.start (.empty 10) none)
      (Identity.notified 0 ++ [.listen 0 true []])).map (fun m => decide (Always
        (Daemon.step Platform.bare)
        (fun t => (t.manager.logsBuffer.map NotificationEvent.id).Nodup) m withdrawn)) =
      some true := by decide +kernel
  have hsoundBefore : (run (Daemon.step Platform.bare) (Daemon.start (.empty 10) none)
      (Identity.notified 0 ++ [.listen 0 true []])).map Daemon.poisoned = some false := by
    decide +kernel
  have hview : (run (Daemon.step Platform.bare) (Daemon.start (.empty 10) none)
      (Identity.notified 0 ++ [.listen 0 true []] ++ withdrawn)).map (fun d =>
        (d.phase, d.poisoned, d.tasks, d.timers, d.sending)) =
      some (.idle, false, [], [], false) := by decide +kernel
  have hempty : (run (Daemon.step Platform.bare) (Daemon.start (.empty 10) none)
      (Identity.notified 0 ++ [.listen 0 true []] ++ withdrawn)).map Daemon.tokens = some 0 := by
    decide +kernel
  obtain ⟨d, hd, hrest, halive, -⟩ := Waiting.rests_of_run hview hempty
  obtain ⟨d₀, hd₀, hrun⟩ := run_append_some.mp hd
  rw [hd₀] at hids hsoundBefore
  have hdistinct : Always (Daemon.step Platform.bare)
      (fun t => (t.manager.logsBuffer.map NotificationEvent.id).Nodup) d₀ withdrawn :=
    of_decide_eq_true (Option.some.inj hids)
  have hsound : d₀.poisoned = false := Option.some.inj hsoundBefore
  have hpushed : ⟨.close 1 .callCloseNotification, ⟨0, 0⟩⟩ ∈
      Serial.pushes Platform.bare d₀ (.closeNotification 1) := by
    simp [Serial.pushes, hsound]
  obtain ⟨man, env, hobeyed, -⟩ := (requests_are_heeded Platform.bare (.empty 10) none _ _ _ d₀ d
    hd₀ hrun hdistinct halive 1 .callCloseNotification ⟨0, 0⟩ (by decide) hpushed).2 hrest
  exact ⟨d₀, d, hd₀, hrun, man, env, hobeyed⟩

end NotifsPiper.Dismissal

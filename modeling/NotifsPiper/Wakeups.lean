import NotifsPiper.Daemon
import NotifsPiper.Runs

/-! The list of jobs and the channel of tokens. While the manager lives, each job in the list
has its token: in the channel, in the manager's hand, or still with the producer that is
between its push and its send. -/

namespace NotifsPiper.Wakeups

open Runs

variable {Value : Type}

def notifyingTask : ListenerTask Value → Bool
  | .notifying _ => true
  | _ => false

def notifyingThread : TimerThread → Bool
  | .notifying => true
  | _ => false

def pending (d : Daemon Value) : Nat :=
  d.sending.toNat + d.tasks.countP notifyingTask + d.timers.countP notifyingThread

def inHand : Phase Value → Nat
  | .woken => 1
  | _ => 0

/-- There are no more tokens than jobs, and the manager never finds the list empty. -/
def Sound (d : Daemon Value) : Prop := d.tokens ≤ d.list.length ∧ d.phase ≠ .dead .noop

/-- No job waits in the list without a token on its way. -/
def Unstranded (d : Daemon Value) : Prop :=
  pending d = 0 → d.tokens = 0 → inHand d.phase = 0 → d.list = []

/-- The step leaves the manager thread alive and the lock of the list sound: the job executed
does not panic, the log is written, the result reaches the listener, and what is acknowledged
is a notification. -/
def Survives (platform : Platform Value) (d : Daemon Value) : Label Value → Prop
  | .execute env disk => ∀ jd empty, d.phase = .executing jd empty →
      ¬ Job.Panics env jd d.manager ∧ (empty = true → disk = .ok ())
  | .reply _ failed => failed = false
  | .listen i _ _ => ∀ data, d.tasks[i]? = some (.acknowledging data) →
      ∃ event, platform.eventFromStr data = .ok event
  | _ => True

structure Counted (d : Daemon Value) : Prop where
  count : d.alive = true → d.list.length = d.tokens + pending d + inHand d.phase
  gone : d.alive = false → d.tokens = 0
  found : d.phase ≠ .dead .noop
  senders : ∀ timer snd, .asleep timer snd ∈ d.timers → snd = true
  notifyer : d.manager.notifyer = true

theorem Counted.sound {d : Daemon Value} (h : Counted d) : Sound d := by
  refine ⟨?_, h.found⟩
  cases halive : d.alive with
  | true =>
    have hcount := h.count halive
    omega
  | false =>
    rw [h.gone halive]
    exact Nat.zero_le _

theorem Counted.unstranded {d : Daemon Value} (h : Counted d) (halive : d.alive = true) :
    Unstranded d := by
  intro hpending htokens hhand
  have hcount := h.count halive
  exact List.eq_nil_of_length_eq_zero (by omega)

theorem start_counted (man : LogsManager Value) (logsFile : Option (List UInt8)) :
    Counted (Daemon.start man logsFile) := by
  refine ⟨fun _ => rfl, fun h => (nomatch h), by simp [Daemon.start], ?_, rfl⟩
  intro timer snd hmem
  cases hmem

theorem pushJob_counted {d d' : Daemon Value} {jd : JobDesc Value} (hd : Counted d)
    (h : d.pushJob jd = some d') : Counted d' := by
  obtain ⟨hsending, ⟨-, rfl⟩ | ⟨-, rfl⟩⟩ := Daemon.pushJob_cases h
  · exact hd
  · refine ⟨fun halive => ?_, hd.gone, hd.found, hd.senders, hd.notifyer⟩
    have hcount := hd.count halive
    simp only [pending, Daemon.push, hsending, List.length_append, List.length_singleton,
      Bool.toNat_true, Bool.toNat_false] at hcount ⊢
    omega

theorem busSend_counted {d d' : Daemon Value} (hd : Counted d) (h : d.busSend = some d') :
    Counted d' := by
  obtain ⟨hsending, ⟨halive, rfl⟩ | ⟨hdead, rfl⟩⟩ := Daemon.busSend_cases h
  · refine ⟨fun _ => ?_, fun hdead => ?_, hd.found, hd.senders, hd.notifyer⟩
    · have hcount := hd.count halive
      simp only [pending, hsending, Bool.toNat_true, Bool.toNat_false] at hcount ⊢
      omega
    · exact Bool.noConfusion (halive.symm.trans hdead)
  · refine ⟨fun halive => ?_, hd.gone, hd.found, hd.senders, hd.notifyer⟩
    exact Bool.noConfusion (hdead.symm.trans halive)

theorem accept_counted {d : Daemon Value} (hd : Counted d) (tr : Transmission) :
    Counted (d.accept tr) := by
  refine ⟨fun halive => ?_, hd.gone, hd.found, hd.senders, hd.notifyer⟩
  have hcount := hd.count halive
  simpa [pending, Daemon.accept, Daemon.spawn, notifyingTask] using hcount

theorem wake_counted {d d' : Daemon Value} {i instant : Nat} (hd : Counted d)
    (h : d.wake i instant = some d') : Counted d' := by
  obtain ⟨timer, snd, hi, -, -, hcases⟩ := Daemon.wake_cases h
  have hsnd := hd.senders timer snd (List.mem_of_getElem? hi)
  have hrest := (Daemon.perm_cons_eraseIdx hi).countP_eq notifyingThread
  have hsenders : ∀ timer snd, .asleep timer snd ∈ d.timers.eraseIdx i → snd = true :=
    fun timer snd hmem => hd.senders timer snd (List.mem_of_mem_eraseIdx hmem)
  obtain ⟨-, rfl⟩ | ⟨-, rfl⟩ := hcases
  · refine ⟨fun halive => ?_, hd.gone, hd.found, hsenders, hd.notifyer⟩
    have hcount := hd.count halive
    simp only [pending, hrest, List.countP_cons, notifyingThread] at hcount ⊢
    simpa using hcount
  · simp only [hsnd, if_true]
    refine ⟨fun halive => ?_, hd.gone, hd.found, ?_, hd.notifyer⟩
    · have hcount := hd.count halive
      simp only [pending, hrest, List.countP_cons, notifyingThread, Daemon.push,
        List.length_append, List.length_singleton, if_true, if_false, Bool.false_eq_true]
        at hcount ⊢
      omega
    · intro timer snd hmem
      rcases List.mem_cons.mp hmem with hmem | hmem
      · cases hmem
      · exact hsenders timer snd hmem

theorem timerSend_counted {d d' : Daemon Value} {i : Nat} (hd : Counted d)
    (h : d.timerSend i = some d') : Counted d' := by
  obtain ⟨hi, hcases⟩ := Daemon.timerSend_cases h
  have hrest := (Daemon.perm_cons_eraseIdx hi).countP_eq notifyingThread
  have hsenders : ∀ timer snd, .asleep timer snd ∈ d.timers.eraseIdx i → snd = true :=
    fun timer snd hmem => hd.senders timer snd (List.mem_of_mem_eraseIdx hmem)
  obtain ⟨halive, rfl⟩ | ⟨hdead, rfl⟩ := hcases
  · refine ⟨fun _ => ?_, fun hdead => ?_, hd.found, hsenders, hd.notifyer⟩
    · have hcount := hd.count halive
      simp only [pending, hrest, List.countP_cons, notifyingThread, if_true] at hcount ⊢
      omega
    · exact Bool.noConfusion (halive.symm.trans hdead)
  · refine ⟨fun halive => ?_, hd.gone, hd.found, hsenders, hd.notifyer⟩
    exact Bool.noConfusion (hdead.symm.trans halive)

theorem recv_counted {d d' : Daemon Value} (hd : Counted d) (h : d.recv = some d') :
    Counted d' := by
  obtain ⟨hphase, htokens, rfl⟩ := Daemon.recv_cases h
  refine ⟨fun _ => ?_, fun hdead => (nomatch hdead), by simp, hd.senders, hd.notifyer⟩
  have hcount := hd.count (by simp [Daemon.alive, hphase])
  simp only [pending, inHand, hphase] at hcount ⊢
  omega

theorem pop_finds {d : Daemon Value} (hd : Counted d) (hphase : d.phase = .woken) :
    d.list ≠ [] := by
  intro hlist
  have hcount := hd.count (by simp [Daemon.alive, hphase])
  simp [inHand, hphase, hlist] at hcount

theorem die_counted {d : Daemon Value} (hd : Counted d) {cause : Cause} (hcause : cause ≠ .noop) :
    Counted (d.die cause) := by
  refine ⟨fun halive => (nomatch halive), fun _ => rfl, ?_, hd.senders, hd.notifyer⟩
  intro hphase
  exact hcause (Phase.dead.inj hphase)

theorem pop_counted {d d' : Daemon Value} (hd : Counted d) (h : d.pop = some d') :
    Counted d' := by
  obtain ⟨hphase, -, ⟨-, rfl⟩ | ⟨hlist, -⟩ | ⟨jd, rest, hlist, rfl⟩⟩ := Daemon.pop_cases h
  · exact die_counted hd (by simp)
  · exact absurd hlist (pop_finds hd hphase)
  · refine ⟨fun _ => ?_, fun hdead => (nomatch hdead), by simp, hd.senders, hd.notifyer⟩
    have hcount := hd.count (by simp [Daemon.alive, hphase])
    simpa [pending, inHand, hphase, hlist] using hcount

theorem phase_counted {d : Daemon Value} (hd : Counted d) (halive : d.alive = true)
    (hhand : inHand d.phase = 0) {phase : Phase Value}
    (hphase : phase = .idle ∨ ∃ tr, phase = .replying tr) : Counted { d with phase := phase } := by
  have hcount := hd.count halive
  rw [hhand] at hcount
  rcases hphase with rfl | ⟨tr, rfl⟩
  · exact ⟨fun _ => hcount, fun hdead => (nomatch hdead), by simp, hd.senders, hd.notifyer⟩
  · exact ⟨fun _ => hcount, fun hdead => (nomatch hdead), by simp, hd.senders, hd.notifyer⟩

theorem sendBack_cases (platform : Platform Value) (pid : Pid) (fj : FulfilledJob) :
    Daemon.sendBack platform pid fj = .idle ∨
      ∃ tr, Daemon.sendBack platform pid fj = .replying tr := by
  unfold Daemon.sendBack
  split
  · exact Or.inl rfl
  · exact Or.inr ⟨_, rfl⟩

theorem conclude_counted (platform : Platform Value) {d : Daemon Value} (hd : Counted d)
    (halive : d.alive = true) (hhand : inHand d.phase = 0) (pid : Pid) (empty : Bool)
    (fj : FulfilledJob) (disk : Except (List UInt8) Unit) :
    Counted (d.conclude platform pid empty fj disk) := by
  have hnext := sendBack_cases platform pid fj
  unfold Daemon.conclude
  split_ifs
  · have hsaved : Counted { d with manager := { d.manager with dirty := false } } :=
      ⟨hd.count, hd.gone, hd.found, hd.senders, hd.notifyer⟩
    cases disk with
    | ok _ =>
      have hphase := phase_counted hsaved halive hhand hnext
      exact ⟨hphase.count, hphase.gone, hphase.found, hphase.senders, hphase.notifyer⟩
    | error left =>
      have hcause : Cause.failed ≠ .noop := by simp
      have hdie := die_counted hsaved hcause
      exact ⟨hdie.count, hdie.gone, hdie.found, hdie.senders, hdie.notifyer⟩
  · exact phase_counted hd halive hhand hnext

theorem execute_counted {platform : Platform Value} {d d' : Daemon Value} {env : Env}
    {disk : Except (List UInt8) Unit} (hd : Counted d)
    (h : d.execute platform env disk = some d') : Counted d' := by
  unfold Daemon.execute at h
  split at h
  next jd empty hphase =>
    have halive : d.alive = true := by simp [Daemon.alive, hphase]
    have hhand : inHand d.phase = 0 := by simp [inHand, hphase]
    split at h
    · cases h
      exact die_counted hd (by simp)
    next ex hex =>
      cases h
      have hnotifyer : ex.manager.notifyer = true :=
        (congrArg (fun setup => setup.2.2) (Job.execute_setup hex)).trans hd.notifyer
      have hexecuted : Counted { d with
          manager := ex.manager
          timers := (ex.timer.map fun timer => .asleep timer ex.manager.notifyer).toList ++ d.timers
          executed := d.executed ++ [(d.manager, env, jd)] } := by
        refine ⟨fun _ => ?_, hd.gone, hd.found, ?_, hnotifyer⟩
        · have hcount := hd.count halive
          cases ex.timer <;> simpa [pending, notifyingThread] using hcount
        · intro timer snd hmem
          rcases List.mem_append.mp hmem with hmem | hmem
          · cases htimer : ex.timer with
            | none => simp [htimer] at hmem
            | some armed => simp_all
          · exact hd.senders timer snd hmem
      exact conclude_counted platform hexecuted halive hhand _ _ _ _
  · cases h

theorem reply_counted {d d' : Daemon Value} {arrived failed : Bool} (hd : Counted d)
    (h : d.reply arrived failed = some d') : Counted d' := by
  obtain ⟨tr, hphase, hcases⟩ := Daemon.reply_cases h
  have halive : d.alive = true := by simp [Daemon.alive, hphase]
  have hhand : inHand d.phase = 0 := by simp [inHand, hphase]
  have haccepted := accept_counted hd tr
  obtain ⟨-, rfl⟩ | ⟨-, rfl | rfl⟩ := hcases
  · exact phase_counted haccepted halive hhand (Or.inl rfl)
  · exact die_counted haccepted (by simp)
  · exact die_counted hd (by simp)

theorem spawn_counted {d : Daemon Value} (hd : Counted d) {task : ListenerTask Value}
    (htask : notifyingTask task = false) : Counted (d.spawn task) := by
  refine ⟨fun halive => ?_, hd.gone, hd.found, hd.senders, hd.notifyer⟩
  have hcount := hd.count halive
  simpa [pending, Daemon.spawn, htask] using hcount

theorem deliver_counted {d : Daemon Value} (hd : Counted d) (written : Bool) (stream : Conn)
    (tr : Transmission) : Counted (d.deliver written stream tr) := by
  unfold Daemon.deliver
  split_ifs
  · exact ⟨hd.count, hd.gone, hd.found, hd.senders, hd.notifyer⟩
  · exact hd

theorem push_counted {d : Daemon Value} (hd : Counted d) (jd : JobDesc Value) (lp : Bool) :
    Counted ((d.push jd).spawn (.notifying lp)) := by
  refine ⟨fun halive => ?_, hd.gone, hd.found, hd.senders, hd.notifyer⟩
  have hcount := hd.count halive
  simp only [pending, Daemon.push, Daemon.spawn, List.length_append, List.length_singleton,
    List.countP_cons, notifyingTask, if_true] at hcount ⊢
  omega

theorem broadcast_counted {d : Daemon Value} (hd : Counted d) (data : String)
    (broken : List Pid) : Counted (d.broadcast data broken) := by
  unfold Daemon.broadcast
  dsimp only
  split_ifs
  · split
    · refine spawn_counted ?_ rfl
      exact ⟨hd.count, hd.gone, hd.found, hd.senders, hd.notifyer⟩
    · exact ⟨hd.count, hd.gone, hd.found, hd.senders, hd.notifyer⟩
  · exact ⟨hd.count, hd.gone, hd.found, hd.senders, hd.notifyer⟩

theorem task_counted {platform : Platform Value} {written : Bool} {broken : List Pid}
    {d d' : Daemon Value} {task : ListenerTask Value} (hd : Counted d)
    (htask : notifyingTask task ≠ true) (h : task.step platform written broken d = some d') :
    Counted d' := by
  unfold ListenerTask.step at h
  split at h
  · cases h; exact deliver_counted hd _ _ _
  · split at h
    · cases h; exact hd
    · cases h; exact deliver_counted hd _ _ _
    · split_ifs at h
      · cases h; exact ⟨hd.count, hd.gone, hd.found, hd.senders, hd.notifyer⟩
      · cases h; exact spawn_counted hd rfl
  · split_ifs at h
    · cases h; exact broadcast_counted hd _ _
    · cases h
      refine spawn_counted ?_ rfl
      exact ⟨hd.count, hd.gone, hd.found, hd.senders, hd.notifyer⟩
  · cases h
    refine spawn_counted ?_ rfl
    exact ⟨hd.count, hd.gone, hd.found, hd.senders, hd.notifyer⟩
  · split_ifs at h
    · cases h; exact hd
    · cases h; exact push_counted hd _ _
  · split_ifs at h
    · cases h; exact hd
    · split at h
      · cases h; exact push_counted hd _ _
      · cases h; exact ⟨hd.count, hd.gone, hd.found, hd.senders, hd.notifyer⟩
  · exact absurd rfl htask
  · cases h; exact hd
  · cases h; exact deliver_counted hd _ _ _

theorem notified_counted {platform : Platform Value} {written : Bool} {broken : List Pid}
    {d d' : Daemon Value} {lp : Bool} (hd : Counted (d.spawn (.notifying lp)))
    (h : (ListenerTask.notifying lp).step platform written broken d = some d') : Counted d' := by
  simp only [ListenerTask.step] at h
  split_ifs at h with halive
  · cases h
    refine ⟨fun _ => ?_, fun hdead => ?_, hd.found, hd.senders, hd.notifyer⟩
    · have hcount := hd.count halive
      simp only [pending, Daemon.spawn, List.countP_cons, notifyingTask, if_true] at hcount ⊢
      omega
    · exact Bool.noConfusion (halive.symm.trans hdead)
  · cases h
    exact ⟨fun halive' => absurd halive' halive, hd.gone, hd.found, hd.senders, hd.notifyer⟩

theorem perm_counted {d : Daemon Value} (hd : Counted d) {tasks : List (ListenerTask Value)}
    (hsame : d.tasks.countP notifyingTask = tasks.countP notifyingTask) :
    Counted { d with tasks := tasks } := by
  refine ⟨fun halive => ?_, hd.gone, hd.found, hd.senders, hd.notifyer⟩
  have hcount := hd.count halive
  simpa [pending, hsame] using hcount

theorem listen_counted {platform : Platform Value} {d d' : Daemon Value} {i : Nat}
    {written : Bool} {broken : List Pid} (hd : Counted d)
    (h : d.listen platform i written broken = some d') : Counted d' := by
  obtain ⟨task, hi, h⟩ := Option.bind_eq_some_iff.mp h
  have hrest := (Daemon.perm_cons_eraseIdx hi).countP_eq notifyingTask
  by_cases htask : notifyingTask task = true
  · cases task with
    | notifying lp =>
      have hspawned : Counted
          (({ d with tasks := d.tasks.eraseIdx i } : Daemon Value).spawn (.notifying lp)) := by
        have hcounted := perm_counted hd hrest
        exact hcounted
      exact notified_counted hspawned h
    | _ => cases htask
  · rw [List.countP_cons, if_neg htask, Nat.add_zero] at hrest
    exact task_counted (perm_counted hd hrest) htask h

theorem step_counted {platform : Platform Value} {d d' : Daemon Value} {l : Label Value}
    (hd : Counted d) (h : d.step platform l = some d') : Counted d' := by
  cases l with
  | notify call now =>
    refine pushJob_counted ?_ h
    exact ⟨hd.count, hd.gone, hd.found, hd.senders, hd.notifyer⟩
  | closeNotification nid => exact pushJob_counted hd h
  | busSend => exact busSend_counted hd h
  | connect tr => cases h; exact accept_counted hd tr
  | listen i written broken => exact listen_counted hd h
  | wake i instant => exact wake_counted hd h
  | timerSend i => exact timerSend_counted hd h
  | recv => exact recv_counted hd h
  | pop => exact pop_counted hd h
  | execute env disk => exact execute_counted hd h
  | reply arrived failed => exact reply_counted hd h

def Steady (d : Daemon Value) : Prop := d.alive = true ∧ d.poisoned = false

def closing : List (Label Unit) :=
  [.closeNotification 1, .busSend, .recv, .pop,
    .execute ⟨some ⟨0, 0⟩, 0, .ok (), true, true⟩ (.ok ())]

end NotifsPiper.Wakeups

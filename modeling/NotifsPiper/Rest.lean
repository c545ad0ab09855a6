import NotifsPiper.Serial
import NotifsPiper.Wakeups

/-! The daemon left to itself: no call and no connection comes any more. Its own threads and
tasks, in whatever order they are scheduled, take only so many steps more, they never wait
for each other in a circle, and when they have come to rest everything has been done. -/

namespace NotifsPiper.Rest

open Runs Queueing Serial Wakeups

variable {Value : Type}

/-- The steps of the daemon's own threads and tasks; a timer's waking is one of them. -/
def Inner : Label Value → Prop
  | .notify .. | .closeNotification _ | .connect _ => False
  | _ => True

def jobWeight (jd : JobDesc Value) : Nat :=
  match jd.cmd with
  | .acknowledge _ => 1
  | .broadcast _ => 20
  | _ => 8

def receivedWeight (tr : Transmission) : Nat :=
  match tr.typ with
  | .error => 1
  | .incoming _ => 26
  | .outgoing _ => 6

def taskWeight : ListenerTask Value → Nat
  | .received _ tr => receivedWeight tr
  | .inserting .. => 25
  | .pushing _ => 24
  | .acknowledging _ => 5
  | .notifying _ => 3
  | .replying .. => 1

def timerWeight : TimerThread → Nat
  | .asleep .. => 12
  | .notifying => 3

def phaseWeight : Phase Value → Nat
  | .idle => 0
  | .woken => 1
  | .executing jd _ => jobWeight jd
  | .replying tr => receivedWeight tr + 1
  | .dead _ => 0

/-- More than the steps the daemon can still take by itself. -/
def weight (d : Daemon Value) : Nat :=
  (d.tasks.map taskWeight).sum + (d.list.map jobWeight).sum + (d.timers.map timerWeight).sum +
    phaseWeight d.phase + 2 * d.tokens + 3 * d.sending.toNat

/-- No thread or task of the daemon has a step to take. -/
def AtRest (platform : Platform Value) (d : Daemon Value) : Prop :=
  ∀ l, Inner l → d.step platform l = none

theorem jobWeight_pos (jd : JobDesc Value) : 1 ≤ jobWeight jd := by
  unfold jobWeight
  split <;> omega

theorem jobWeight_le (jd : JobDesc Value) : jobWeight jd ≤ 20 := by
  unfold jobWeight
  split <;> omega

theorem receivedWeight_pos (tr : Transmission) : 1 ≤ receivedWeight tr := by
  unfold receivedWeight
  split <;> omega

theorem taskWeight_pos (task : ListenerTask Value) : 0 < taskWeight task := by
  cases task with
  | received stream tr => exact receivedWeight_pos tr
  | _ => exact Nat.succ_pos _

theorem sum_eraseIdx {α : Type} (f : α → Nat) {xs : List α} {i : Nat} {x : α}
    (h : xs[i]? = some x) : (xs.map f).sum = f x + ((xs.eraseIdx i).map f).sum := by
  rw [((Daemon.perm_cons_eraseIdx h).map f).sum_nat, List.map_cons, List.sum_cons]

/-! Every step of the daemon's own makes it lighter. -/

section Lighter

variable {platform : Platform Value} {d d' : Daemon Value}

theorem busSend_lighter (h : d.busSend = some d') : weight d' < weight d := by
  obtain ⟨hsending, ⟨-, rfl⟩ | ⟨-, rfl⟩⟩ := Daemon.busSend_cases h <;>
    · simp only [weight, hsending, Bool.toNat_true, Bool.toNat_false]
      omega

theorem wake_lighter {i instant : Nat} (h : d.wake i instant = some d') :
    weight d' < weight d := by
  obtain ⟨timer, snd, hi, -, -, hcases⟩ := Daemon.wake_cases h
  have hsum := sum_eraseIdx timerWeight hi
  rw [timerWeight] at hsum
  obtain ⟨-, rfl⟩ | ⟨-, rfl⟩ := hcases
  · simp only [weight, hsum]
    omega
  · have hclose : jobWeight (⟨.close timer.id .expired, ⟨0, 0⟩⟩ : JobDesc Value) = 8 := rfl
    cases snd <;> simp [weight, Daemon.push, hsum, hclose, timerWeight] <;> omega

theorem timerSend_lighter {i : Nat} (h : d.timerSend i = some d') : weight d' < weight d := by
  obtain ⟨hi, hcases⟩ := Daemon.timerSend_cases h
  have hsum := sum_eraseIdx timerWeight hi
  rw [timerWeight] at hsum
  obtain ⟨-, rfl⟩ | ⟨-, rfl⟩ := hcases <;> simp only [weight, hsum] <;> omega

theorem recv_lighter (h : d.recv = some d') : weight d' < weight d := by
  obtain ⟨hphase, htokens, rfl⟩ := Daemon.recv_cases h
  simp only [weight, hphase, phaseWeight]
  omega

theorem die_lighter (cause : Cause) (hphase : 1 ≤ phaseWeight d.phase) :
    weight (d.die cause) < weight d := by
  have hdead : phaseWeight (.dead cause : Phase Value) = 0 := rfl
  simp only [weight, Daemon.die, hdead]
  omega

theorem pop_lighter (h : d.pop = some d') : weight d' < weight d := by
  obtain ⟨hphase, -, hcases⟩ := Daemon.pop_cases h
  have hone : 1 ≤ phaseWeight d.phase := by rw [hphase, phaseWeight]
  obtain ⟨-, rfl⟩ | ⟨-, rfl⟩ | ⟨jd, rest, hlist, rfl⟩ := hcases
  · exact die_lighter _ hone
  · exact die_lighter _ hone
  · simp only [weight, hlist, hphase, phaseWeight, List.map_cons, List.sum_cons]
    omega

theorem accept_weight (d : Daemon Value) (tr : Transmission) :
    weight (d.accept tr) = weight d + receivedWeight tr := by
  simp only [weight, Daemon.accept, Daemon.spawn, List.map_cons, List.sum_cons, taskWeight]
  omega

theorem reply_lighter {arrived failed : Bool} (h : d.reply arrived failed = some d') :
    weight d' < weight d := by
  obtain ⟨tr, hphase, hcases⟩ := Daemon.reply_cases h
  have hweight : phaseWeight d.phase = receivedWeight tr + 1 := by rw [hphase, phaseWeight]
  have hless : weight { d.accept tr with phase := .idle } < weight d := by
    have haccept := accept_weight d tr
    have hidle : phaseWeight (.idle : Phase Value) = 0 := rfl
    simp only [weight, hidle] at haccept ⊢
    simp only [Daemon.accept, Daemon.spawn] at haccept ⊢
    omega
  obtain ⟨-, rfl⟩ | ⟨-, rfl | rfl⟩ := hcases
  · exact hless
  · refine lt_of_le_of_lt ?_ hless
    have hdead : phaseWeight (.dead .failed : Phase Value) = 0 := rfl
    have hidle : phaseWeight (.idle : Phase Value) = 0 := rfl
    simp only [weight, Daemon.die, hdead, hidle]
    omega
  · exact die_lighter _ (by omega)

/-! What an executed job leaves to do. -/

theorem fulfilled_weight (platform : Platform Value) (fj : FulfilledJob) (pid : Pid) :
    receivedWeight (Transmission.fromFulfilled platform fj pid) = 6 := rfl

theorem sendBack_weight (platform : Platform Value) (pid : Pid) (fj : FulfilledJob) :
    phaseWeight (Daemon.sendBack platform pid fj) ≤ 7 := by
  unfold Daemon.sendBack
  split
  · exact Nat.zero_le 7
  · rw [phaseWeight, fulfilled_weight]

theorem execute_weight {env : Env} {jd : JobDesc Value} {man : LogsManager Value}
    {ex : Executed Value} (h : Job.execute platform env jd man = some ex) :
    12 * ex.timer.toList.length + phaseWeight (Daemon.sendBack platform jd.desc.pid ex.fulfilled) <
      jobWeight jd := by
  obtain ⟨cmd, desc⟩ := jd
  have hback := sendBack_weight platform desc.pid ex.fulfilled
  cases cmd with
  | broadcast event =>
    have hone : ex.timer.toList.length ≤ 1 := by cases ex.timer <;> simp
    simp only [jobWeight]
    omega
  | acknowledge id =>
    cases h
    simp [jobWeight, Acknowledge.execute, Executed.quiet, Daemon.sendBack, phaseWeight]
  | _ =>
    have hnone : ex.timer = none := Job.execute_unarmed h (by simp)
    rw [hnone]
    exact Nat.lt_succ_of_le ((Nat.zero_add _).trans_le hback)

theorem conclude_weight (platform : Platform Value) (d : Daemon Value) (pid : Pid) (empty : Bool)
    (fj : FulfilledJob) (disk : Except (List UInt8) Unit) :
    weight (d.conclude platform pid empty fj disk) ≤
      weight { d with phase := Daemon.sendBack platform pid fj } := by
  unfold Daemon.conclude
  dsimp only
  split_ifs
  · split
    · exact le_refl _
    · have hdead : phaseWeight (.dead .failed : Phase Value) = 0 := rfl
      simp only [weight, Daemon.die, hdead]
      omega
  · exact le_refl _

theorem execute_lighter {env : Env} {disk : Except (List UInt8) Unit}
    (h : d.execute platform env disk = some d') : weight d' < weight d := by
  obtain ⟨jd, empty, hphase, ⟨-, rfl⟩ | ⟨ex, hex, rfl⟩⟩ := Daemon.execute_outcome h
  · refine die_lighter _ ?_
    rw [hphase]
    exact jobWeight_pos jd
  · refine lt_of_le_of_lt (conclude_weight ..) ?_
    have hless := execute_weight hex
    have hexecuting : phaseWeight d.phase = jobWeight jd := by rw [hphase, phaseWeight]
    have harmed : ((ex.timer.map fun timer =>
        TimerThread.asleep timer ex.manager.notifyer).toList.map timerWeight).sum =
          12 * ex.timer.toList.length := by
      cases ex.timer <;> rfl
    simp only [weight, List.map_append, List.sum_append, harmed, hexecuting]
    omega

/-! The tasks of the listener. -/

theorem deliver_weight (d : Daemon Value) (written : Bool) (stream : Conn) (tr : Transmission) :
    weight (d.deliver written stream tr) = weight d := by
  unfold Daemon.deliver
  split_ifs <;> rfl

theorem spawn_weight (d : Daemon Value) (task : ListenerTask Value) :
    weight (d.spawn task) = weight d + taskWeight task := by
  simp only [weight, Daemon.spawn, List.map_cons, List.sum_cons]
  omega

theorem push_weight (d : Daemon Value) (jd : JobDesc Value) :
    weight (d.push jd) = weight d + jobWeight jd := by
  simp only [weight, Daemon.push, List.map_append, List.sum_append, List.map_singleton,
    List.sum_singleton]
  omega

theorem broadcast_weight (d : Daemon Value) (data : String) (broken : List Pid) :
    weight (d.broadcast data broken) ≤ weight d + 5 := by
  unfold Daemon.broadcast
  dsimp only
  split_ifs
  · split
    · exact (spawn_weight _ _).le
    · exact Nat.le_add_right _ _
  · exact Nat.le_add_right _ _

theorem task_lighter {written : Bool} {broken : List Pid} {task : ListenerTask Value}
    (h : task.step platform written broken d = some d') :
    weight d' < weight d + taskWeight task := by
  unfold ListenerTask.step at h
  split at h
  · cases h
    rw [deliver_weight]
    exact Nat.lt_add_of_pos_right (taskWeight_pos _)
  · split at h
    · cases h
      exact Nat.lt_add_of_pos_right (taskWeight_pos _)
    · cases h
      rw [deliver_weight]
      exact Nat.lt_add_of_pos_right (taskWeight_pos _)
    · split_ifs at h
      · cases h
        exact Nat.lt_add_of_pos_right (taskWeight_pos _)
      · cases h
        rw [spawn_weight]
        exact Nat.add_lt_add_left (by decide : 25 < 26) _
  · split_ifs at h
    · cases h
      exact lt_of_le_of_lt (broadcast_weight ..) (Nat.add_lt_add_left (by decide : 5 < 6) _)
    · cases h
      rw [spawn_weight]
      exact Nat.add_lt_add_left (by decide : 1 < 6) _
  · cases h
    rw [spawn_weight]
    exact Nat.add_lt_add_left (by decide : 24 < 25) _
  next jobd =>
    split_ifs at h
    · cases h
      exact Nat.lt_add_of_pos_right (taskWeight_pos _)
    · cases h
      rw [spawn_weight, push_weight]
      have hle := jobWeight_le jobd
      simp only [taskWeight]
      omega
  · split_ifs at h
    · cases h
      exact Nat.lt_add_of_pos_right (taskWeight_pos _)
    · split at h
      · cases h
        rw [spawn_weight, push_weight, Nat.add_assoc]
        exact Nat.add_lt_add_left (by decide : 1 + 3 < 5) _
      · cases h
        exact Nat.lt_add_of_pos_right (taskWeight_pos _)
  · split_ifs at h
    · cases h
      simp only [weight, taskWeight]
      omega
    · cases h
      exact Nat.lt_add_of_pos_right (taskWeight_pos _)
  · cases h
    exact Nat.lt_add_of_pos_right (taskWeight_pos _)
  · cases h
    rw [deliver_weight]
    exact Nat.lt_add_of_pos_right (taskWeight_pos _)

theorem listen_lighter {i : Nat} {written : Bool} {broken : List Pid}
    (h : d.listen platform i written broken = some d') : weight d' < weight d := by
  obtain ⟨task, hi, h⟩ := Option.bind_eq_some_iff.mp h
  have hless := task_lighter h
  have hsum := sum_eraseIdx taskWeight hi
  simp only [weight] at hless ⊢
  omega

theorem step_lighter {l : Label Value} (hl : Inner l) (h : d.step platform l = some d') :
    weight d' < weight d := by
  cases l with
  | notify call now => exact hl.elim
  | closeNotification nid => exact hl.elim
  | connect tr => exact hl.elim
  | busSend => exact busSend_lighter h
  | listen i written broken => exact listen_lighter h
  | wake i instant => exact wake_lighter h
  | timerSend i => exact timerSend_lighter h
  | recv => exact recv_lighter h
  | pop => exact pop_lighter h
  | execute env disk => exact execute_lighter h
  | reply arrived failed => exact reply_lighter h

/-- The daemon takes at most its weight in steps by itself. -/
theorem run_bounded {t : Daemon Value} {ls : List (Label Value)} (hinner : ∀ l ∈ ls, Inner l)
    (hrun : run (Daemon.step platform) d ls = some t) : ls.length + weight t ≤ weight d := by
  have hstep : ∀ (s : Daemon Value) l s', True → Inner l → s.step platform l = some s' →
      True ∧ weight s' < weight s := fun _ _ _ _ hl h => ⟨trivial, step_lighter hl h⟩
  exact length_add_le hstep trivial (along_of_forall (fun l hl _ => hinner l hl) d) hrun

theorem exists_rest (platform : Platform Value) (d : Daemon Value) :
    ∃ ls t, (∀ l ∈ ls, Inner l) ∧ run (Daemon.step platform) d ls = some t ∧
      AtRest platform t := by
  have hstep : ∀ s : Daemon Value, True → ¬ AtRest platform s → ∃ l s', Inner l ∧
      s.step platform l = some s' ∧ True ∧ weight s' < weight s := by
    intro s _ hrest
    simp only [AtRest, not_forall] at hrest
    obtain ⟨l, hl, hmoves⟩ := hrest
    obtain ⟨s', hs'⟩ := Option.ne_none_iff_exists'.mp hmoves
    exact ⟨l, s', hl, hs', trivial, step_lighter hl hs'⟩
  obtain ⟨ls, t, hinner, hrun, -, hrest⟩ :=
    exists_run (μ := weight) Nat.lt_wfRel.wf hstep (trivial : True)
  exact ⟨ls, t, hinner, hrun, hrest⟩

end Lighter

/-! No thread waits for ever for another. -/

section Settled

variable {platform : Platform Value} {d : Daemon Value}

theorem rest_sending (h : AtRest platform d) : d.sending = false := by
  by_contra hsending
  have hstep := h .busSend trivial
  simp only [Daemon.step, Daemon.busSend] at hstep
  cases halive : d.alive <;> simp [hsending, halive] at hstep

theorem holder_moves (platform : Platform Value) (written : Bool) (broken : List Pid)
    {task : ListenerTask Value} (hlock : task.holdsLp = true) (hsending : d.sending = false) :
    task.step platform written broken d ≠ none := by
  cases task with
  | acknowledging data =>
    simp only [ListenerTask.step, hsending, Bool.false_eq_true, if_false]
    split_ifs
    · simp
    · split <;> simp
  | notifying lp => simp [ListenerTask.step]
  | _ => cases hlock

theorem task_moves (platform : Platform Value) (written : Bool) (broken : List Pid)
    (task : ListenerTask Value) (hsending : d.sending = false)
    (hfree : d.tasks.any ListenerTask.holdsLp = false) :
    task.step platform written broken d ≠ none := by
  unfold ListenerTask.step
  split
  · simp
  · split
    · simp
    · simp
    · simp only [hfree, Bool.false_eq_true, if_false]
      split_ifs <;> simp
  · simp only [hfree, Bool.false_eq_true, if_false]
    split_ifs <;> simp
  · simp
  · simp only [hsending, Bool.false_eq_true, if_false]
    split_ifs <;> simp
  · simp only [hsending, Bool.false_eq_true, if_false]
    split_ifs
    · simp
    · split <;> simp
  · simp
  · simp
  · simp

theorem rest_tasks (h : AtRest platform d) : d.tasks = [] := by
  have hsending := rest_sending h
  have hstuck : ∀ i (task : ListenerTask Value), d.tasks[i]? = some task →
      task.step platform true [] { d with tasks := d.tasks.eraseIdx i } = none := by
    intro i task hi
    have hstep := h (.listen i true []) trivial
    simpa [Daemon.step, Daemon.listen, hi] using hstep
  have hfree : d.tasks.any ListenerTask.holdsLp = false := by
    by_contra hlock
    obtain ⟨task, htask, hholds⟩ := List.any_eq_true.mp (Bool.not_eq_false _ ▸ hlock)
    obtain ⟨i, hi⟩ := List.mem_iff_getElem?.mp htask
    exact holder_moves (d := { d with tasks := d.tasks.eraseIdx i }) platform true [] hholds
      hsending (hstuck i task hi)
  cases htasks : d.tasks with
  | nil => rfl
  | cons task rest =>
    have hrest : rest.any ListenerTask.holdsLp = false := by
      rw [htasks, List.any_cons, Bool.or_eq_false_iff] at hfree
      exact hfree.2
    have hnone := hstuck 0 task (by rw [htasks]; rfl)
    rw [htasks] at hnone
    exact absurd hnone (task_moves platform true [] task hsending hrest)

theorem rest_timers (h : AtRest platform d) : d.timers = [] := by
  have hsending := rest_sending h
  cases htimers : d.timers with
  | nil => rfl
  | cons timer rest =>
    cases timer with
    | asleep timer snd =>
      have hstep := h (.wake 0 timer.wakeup) trivial
      simp only [Daemon.step, Daemon.wake, htimers, hsending] at hstep
      simp at hstep
      split_ifs at hstep
    | notifying =>
      have hstep := h (.timerSend 0) trivial
      simp [Daemon.step, Daemon.timerSend, htimers] at hstep

theorem rest_phase (h : AtRest platform d) : d.phase = .idle ∨ d.alive = false := by
  have hsending := rest_sending h
  cases hphase : d.phase with
  | idle => exact Or.inl rfl
  | woken =>
    have hstep := h .pop trivial
    simp only [Daemon.step, Daemon.pop, hphase, hsending, Bool.false_eq_true, if_false] at hstep
    split_ifs at hstep
    split at hstep <;> cases hstep
  | executing jd empty =>
    have hstep := h (.execute ⟨some ⟨0, 0⟩, 0, .ok (), true, true⟩ (.ok ())) trivial
    simp only [Daemon.step, Daemon.execute, hphase] at hstep
    split at hstep <;> cases hstep
  | replying tr =>
    have hstep := h (.reply true false) trivial
    simp [Daemon.step, Daemon.reply, hphase] at hstep
  | dead cause => exact Or.inr (by simp [Daemon.alive, hphase])

/-- At rest every task is gone and every timer has fired, and if the manager thread lives it
waits and the list is empty. -/
theorem rest_empty (hd : Counted d) (h : AtRest platform d) :
    d.tasks = [] ∧ d.timers = [] ∧ d.sending = false ∧
      (d.alive = true → d.phase = .idle ∧ d.list = []) := by
  have hsending := rest_sending h
  have htasks := rest_tasks h
  have htimers := rest_timers h
  refine ⟨htasks, htimers, hsending, fun halive => ?_⟩
  have hphase : d.phase = .idle := by
    rcases rest_phase h with hphase | hdead
    · exact hphase
    · exact Bool.noConfusion (halive.symm.trans hdead)
  have htokens : d.tokens = 0 := by
    by_contra htokens
    have hstep := h .recv trivial
    simp [Daemon.step, Daemon.recv, hphase, htokens] at hstep
  refine ⟨hphase, hd.unstranded halive ?_ htokens ?_⟩
  · simp [pending, hsending, htasks, htimers]
  · simp [inHand, hphase]

end Settled

/-- Everything pushed has been done, in the order of the pushes, and the results have all been
sent. -/
def AllDone (platform : Platform Value) (d₀ d : Daemon Value) (labels : List (Label Value)) :
    Prop :=
  ∃ tasks m, tasks.map Prod.snd = pushed platform d₀ labels ∧
    performAll (perform platform) d₀.manager tasks = some (m, sent platform d₀ labels) ∧
    m.saved = d.manager.saved

/-- In every reachable state the daemon comes to rest by itself, after at most as many steps as
its weight however its threads are scheduled. Whenever it is at rest all its tasks have
ended and all its timers have fired; and if the manager thread lives, every job pushed since
the start has been done. -/
theorem comes_to_rest (platform : Platform Value) (man : LogsManager Value)
    (logsFile : Option (List UInt8)) (labels : List (Label Value)) (d : Daemon Value)
    (hrun : run (Daemon.step platform) (Daemon.start man logsFile) labels = some d) :
    (∀ ls t, (∀ l ∈ ls, Inner l) → run (Daemon.step platform) d ls = some t →
      ls.length + weight t ≤ weight d) ∧
    (∃ ls t, (∀ l ∈ ls, Inner l) ∧ run (Daemon.step platform) d ls = some t ∧
      AtRest platform t) ∧
    (AtRest platform d → d.tasks = [] ∧ d.timers = [] ∧ d.sending = false ∧
      (d.alive = true → d.phase = .idle ∧ d.list = [] ∧
        AllDone platform (Daemon.start man logsFile) d labels)) := by
  refine ⟨fun ls t => run_bounded, exists_rest platform d, fun hrest => ?_⟩
  have hcounted : Counted d :=
    run_invariant (fun _ _ _ => step_counted) (start_counted man logsFile) hrun
  obtain ⟨htasks, htimers, hsending, hempty⟩ := rest_empty hcounted hrest
  refine ⟨htasks, htimers, hsending, fun halive => ?_⟩
  obtain ⟨hphase, hlist⟩ := hempty halive
  obtain ⟨tasks, m, outbox, hand, hperform, hsaved, hholds, hpushed⟩ := run_in_order hrun
  rw [hphase] at hholds
  obtain ⟨rfl, rfl⟩ := hholds
  rw [List.append_nil] at hperform
  rw [hlist, List.append_nil, List.append_nil] at hpushed
  exact ⟨hphase, hlist, tasks, m, hpushed.symm, hperform, hsaved⟩

theorem comes_to_rest_crossing :
    ∃ d, run (Daemon.step Platform.bare) (Daemon.start (.empty 10) none) crossing = some d ∧
      weight d = 16 ∧ ∃ ls t, (∀ l ∈ ls, Inner l) ∧
        run (Daemon.step Platform.bare) d ls = some t ∧ AtRest Platform.bare t := by
  have hview : (run (Daemon.step Platform.bare) (Daemon.start (.empty 10) none) crossing).map
      weight = some 16 := by decide
  obtain ⟨d, hd, hweight⟩ := Option.map_eq_some_iff.mp hview
  exact ⟨d, hd, hweight, (comes_to_rest Platform.bare (.empty 10) none crossing d hd).2.1⟩

end NotifsPiper.Rest

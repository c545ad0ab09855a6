import NotifsPiper.Execution
import NotifsPiper.Runs
import NotifsPiper.Utf8
import Mathlib.Data.List.AList

/-! The daemon as one system: the bus thread, the tasks of the listener, the timer threads
and the manager thread, over the list of jobs and the channel that wakes the manager. A
step is taken by one of them, up to the next point where another can come between; the
label says who moves and what its surroundings answer. A task begins with the transmission
it has read, and the result of a job comes to its task as it was written; `Reception` has
the reads. -/

namespace NotifsPiper

variable {Value : Type}

abbrev Conn := Nat

/-- What ended the manager thread: `unreachable!` on an empty list, a job that panicked, an
error of `exec`, or a poisoned lock. -/
inductive Cause
  | noop
  | panicked
  | failed
  | poisoned
  deriving DecidableEq, Repr

/-- Where the manager thread stands: waiting for a token, holding one, with a job taken from
the list (and whether it was the last), or about to send a result back. -/
inductive Phase (Value : Type)
  | idle
  | woken
  | executing (jd : JobDesc Value) (empty : Bool)
  | replying (tr : Transmission)
  | dead (cause : Cause)
  deriving DecidableEq, Repr

/-- Where a task of the listener stands. An `acknowledging` task, and one that notifies after
it, hold the lock of the watching processes. -/
inductive ListenerTask (Value : Type)
  | received (stream : Conn) (tr : Transmission)
  | inserting (stream : Conn) (pid : Pid) (jobd : JobDesc Value)
  | pushing (jobd : JobDesc Value)
  | acknowledging (data : String)
  | notifying (lp : Bool)
  | replying (stream : Option Conn) (tr : Transmission)
  deriving DecidableEq, Repr

def ListenerTask.holdsLp : ListenerTask Value → Bool
  | acknowledging _ => true
  | notifying lp => lp
  | _ => false

inductive TimerThread
  | asleep (timer : Timer) (snd : Bool)
  | notifying
  deriving DecidableEq, Repr

/-- `sending` says that the bus thread holds the lock of the list, between its push and its
send. The last two fields record what happened: every executed job with the manager it
found, and every notification that `notify` created. -/
structure Daemon (Value : Type) where
  list : List (JobDesc Value)
  poisoned : Bool
  tokens : Nat
  manager : LogsManager Value
  phase : Phase Value
  logsFile : Option (List UInt8)
  counter : Nid
  sending : Bool
  timers : List TimerThread
  accepted : List Transmission
  tasks : List (ListenerTask Value)
  activeProcesses : AList fun _ : Pid => Conn
  listeningProcesses : AList fun _ : Pid => Conn × FlagsRepr
  delivered : List (Conn × Transmission)
  executed : List (LogsManager Value × Task Value)
  created : List (NotificationEvent Value)

structure NotifyCall (Value : Type) where
  appName : String
  replacesId : Nid
  appIcon : String
  summary : String
  body : String
  actions : List String
  hints : List (String × Value)
  timeout : Int32
  deriving DecidableEq, Repr

inductive Label (Value : Type)
  | notify (call : NotifyCall Value) (now : Option Duration)
  | closeNotification (nid : Nid)
  | busSend
  | connect (tr : Transmission)
  | listen (i : Nat) (written : Bool) (broken : List Pid)
  | wake (i : Nat) (instant : Nat)
  | timerSend (i : Nat)
  | recv
  | pop
  | execute (env : Env) (disk : Except (List UInt8) Unit)
  | reply (arrived failed : Bool)

/-- The counter after a `notify` call, and the notification it creates. -/
def Notifications.notify (counter : Nid) (call : NotifyCall Value) (now : Option Duration) :
    Nid × NotificationEvent Value :=
  let counter := if call.replacesId = 0 then counter + 1 else counter
  let id := if call.replacesId = 0 then counter else call.replacesId
  (counter, ⟨id, (now.getD ⟨0, 0⟩).asMillis, false, false, call.appName, call.replacesId,
    call.appIcon, call.summary, call.body, call.actions, call.hints, call.timeout⟩)

namespace Daemon

def start (man : LogsManager Value) (logsFile : Option (List UInt8)) : Daemon Value where
  list := []
  poisoned := false
  tokens := 0
  manager := { man with interface := true, notifyer := true }
  phase := .idle
  logsFile := logsFile
  counter := ((man.logsBuffer.map NotificationEvent.id).max?).getD 0
  sending := false
  timers := []
  accepted := []
  tasks := []
  activeProcesses := ∅
  listeningProcesses := ∅
  delivered := []
  executed := []
  created := []

def alive (d : Daemon Value) : Bool :=
  match d.phase with
  | .dead _ => false
  | _ => true

def die (d : Daemon Value) (cause : Cause) : Daemon Value :=
  { d with phase := .dead cause, tokens := 0 }

def push (d : Daemon Value) (jd : JobDesc Value) : Daemon Value :=
  { d with list := d.list ++ [jd] }

def spawn (d : Daemon Value) (task : ListenerTask Value) : Daemon Value :=
  { d with tasks := task :: d.tasks }

def accept (d : Daemon Value) (tr : Transmission) : Daemon Value :=
  { d.spawn (.received d.accepted.length tr) with accepted := d.accepted ++ [tr] }

def deliver (d : Daemon Value) (written : Bool) (stream : Conn) (tr : Transmission) :
    Daemon Value :=
  if written then { d with delivered := d.delivered ++ [(stream, tr)] } else d

/-! The bus thread. -/

/-- `Notifications::push_job`, up to its send. -/
def pushJob (d : Daemon Value) (jd : JobDesc Value) : Option (Daemon Value) :=
  if d.sending then none
  else if d.poisoned then some d
  else some { d.push jd with sending := true }

def notify (d : Daemon Value) (call : NotifyCall Value) (now : Option Duration) :
    Option (Daemon Value) :=
  let (counter, event) := Notifications.notify d.counter call now
  { d with counter := counter, created := d.created ++ [event] }.pushJob
    ⟨.broadcast event, ⟨0, 0⟩⟩

def closeNotification (d : Daemon Value) (nid : Nid) : Option (Daemon Value) :=
  d.pushJob ⟨.close nid .callCloseNotification, ⟨0, 0⟩⟩

/-- The send of `push_job`. It fails when the manager is gone, with the lock held. -/
def busSend (d : Daemon Value) : Option (Daemon Value) :=
  if !d.sending then none
  else if d.alive then some { d with tokens := d.tokens + 1, sending := false }
  else some { d with poisoned := true, sending := false }

/-! The timer threads. -/

def wake (d : Daemon Value) (i instant : Nat) : Option (Daemon Value) :=
  match d.timers[i]? with
  | some (.asleep timer snd) =>
    let d := { d with timers := d.timers.eraseIdx i }
    if d.sending || instant < timer.wakeup then none
    else if d.poisoned then some d
    else
      let d := d.push ⟨.close timer.id .expired, ⟨0, 0⟩⟩
      some (if snd then { d with timers := .notifying :: d.timers } else d)
  | _ => none

def timerSend (d : Daemon Value) (i : Nat) : Option (Daemon Value) :=
  match d.timers[i]? with
  | some .notifying =>
    let d := { d with timers := d.timers.eraseIdx i }
    some (if d.alive then { d with tokens := d.tokens + 1 } else d)
  | _ => none

/-! The manager thread. -/

def recv (d : Daemon Value) : Option (Daemon Value) :=
  match d.phase with
  | .idle => if d.tokens = 0 then none else some { d with tokens := d.tokens - 1, phase := .woken }
  | _ => none

/-- The part of `exec` under the lock of the list. -/
def pop (d : Daemon Value) : Option (Daemon Value) :=
  match d.phase with
  | .woken =>
    if d.sending then none
    else if d.poisoned then some (d.die .poisoned)
    else match d.list with
      | [] => some (d.die .noop)
      | jd :: rest => some { d with list := rest, phase := .executing jd rest.isEmpty }
  | _ => none

/-- Whatever is not `Ok(None)` is sent back. -/
def sendBack (platform : Platform Value) (pid : Pid) (fj : FulfilledJob) : Phase Value :=
  match fj.result with
  | .ok none => .idle
  | _ => .replying (Transmission.fromFulfilled platform fj pid)

/-- `exec` from the executed job on: the log is written when the list was empty. The write is one
step; a failed one leaves some bytes in the file. -/
def conclude (platform : Platform Value) (d : Daemon Value) (pid : Pid) (empty : Bool)
    (fj : FulfilledJob) (disk : Except (List UInt8) Unit) : Daemon Value :=
  if empty && d.manager.dirty then
    let d := { d with manager := { d.manager with dirty := false } }
    match disk with
    | .ok () =>
      { d with logsFile := some (Utf8.utf8 (platform.logToString d.manager.logsBuffer)),
               phase := sendBack platform pid fj }
    | .error left => { d with logsFile := some left }.die .failed
  else { d with phase := sendBack platform pid fj }

def execute (platform : Platform Value) (d : Daemon Value) (env : Env)
    (disk : Except (List UInt8) Unit) : Option (Daemon Value) :=
  match d.phase with
  | .executing jd empty =>
    match Job.execute platform env jd d.manager with
    | none => some (d.die .panicked)
    | some ex =>
      let timers := (ex.timer.map fun timer => .asleep timer ex.manager.notifyer).toList
      let d := { d with
        manager := ex.manager
        timers := timers ++ d.timers
        executed := d.executed ++ [(d.manager, env, jd)] }
      some (d.conclude platform jd.desc.pid empty ex.fulfilled disk)
  | _ => none

/-- The connection of `exec` to the listener, on which it writes its result. A write may fail
after the listener has taken all of it. -/
def reply (d : Daemon Value) (arrived failed : Bool) : Option (Daemon Value) :=
  match d.phase with
  | .replying tr =>
    let d := if arrived || !failed then d.accept tr else d
    some (if failed then d.die .failed else { d with phase := .idle })
  | _ => none

/-! The tasks of the listener. -/

/-- The broadcast of a result to the watching processes, of which those in `broken` are gone.
A result is always `Ok(Some(_))` when it is decoded as `Results`. -/
def broadcast (d : Daemon Value) (data : String) (broken : List Pid) : Daemon Value :=
  let (old, reached) := d.listeningProcesses.entries.partition fun entry => entry.1 ∈ broken
  let d := { d with
    listeningProcesses := (old.map Sigma.fst).foldl (fun lp pid => lp.erase pid)
      d.listeningProcesses
    delivered := d.delivered ++ reached.map fun entry => (entry.2.1, ⟨.outgoing 0, data⟩) }
  if reached.any fun entry => !Flags.silent.is entry.2.2 then
    match FulfilledJob.fromStr data with
    | .ok ⟨.ok (some text), .results⟩ => d.spawn (.acknowledging text)
    | _ => d
  else d

end Daemon

/-- One step of a task, which is no longer among the tasks of `d`. -/
def ListenerTask.step (platform : Platform Value) (written : Bool) (broken : List Pid)
    (d : Daemon Value) : ListenerTask Value → Option (Daemon Value)
  | .received stream ⟨.error, _⟩ =>
    some (d.deliver written stream
      ⟨.error, "Current architecture wants the client to manage errors."⟩)
  | .received stream ⟨.incoming pid, data⟩ =>
    match (JobDesc.fromStr platform data).run with
    | none => some d
    | some (.error err) => some (d.deliver written stream ⟨.error, err.error⟩)
    | some (.ok jobd) =>
      if jobd.cmd.canonicalName = "watch" then
        if d.tasks.any ListenerTask.holdsLp then none
        else some { d with
          listeningProcesses := d.listeningProcesses.insert pid (stream, jobd.desc.flags) }
      else some (d.spawn (.inserting stream pid jobd))
  | .received _ ⟨.outgoing pid, data⟩ =>
    if pid = 0 then
      if d.tasks.any ListenerTask.holdsLp then none else some (d.broadcast data broken)
    else
      some ({ d with activeProcesses := d.activeProcesses.erase pid }.spawn
        (.replying (d.activeProcesses.lookup pid) ⟨.outgoing pid, data⟩))
  | .inserting stream pid jobd =>
    some ({ d with activeProcesses := d.activeProcesses.insert pid stream }.spawn
      (.pushing jobd))
  | .pushing jobd =>
    if d.sending then none
    else if d.poisoned then some d
    else some ((d.push jobd).spawn (.notifying false))
  | .acknowledging data =>
    if d.sending then none
    else if d.poisoned then some d
    else match platform.eventFromStr data with
      | .ok event => some ((d.push ⟨.acknowledge event.id, ⟨0, 0⟩⟩).spawn (.notifying true))
      | .error _ => some { d with poisoned := true }
  | .notifying _ => some (if d.alive then { d with tokens := d.tokens + 1 } else d)
  | .replying none _ => some d
  | .replying (some stream) tr => some (d.deliver written stream tr)

namespace Daemon

def listen (platform : Platform Value) (d : Daemon Value) (i : Nat) (written : Bool)
    (broken : List Pid) : Option (Daemon Value) := do
  let task ← d.tasks[i]?
  task.step platform written broken { d with tasks := d.tasks.eraseIdx i }

def step (platform : Platform Value) (d : Daemon Value) : Label Value → Option (Daemon Value)
  | .notify call now => d.notify call now
  | .closeNotification nid => d.closeNotification nid
  | .busSend => d.busSend
  | .connect tr => some (d.accept tr)
  | .listen i written broken => d.listen platform i written broken
  | .wake i instant => d.wake i instant
  | .timerSend i => d.timerSend i
  | .recv => d.recv
  | .pop => d.pop
  | .execute env disk => d.execute platform env disk
  | .reply arrived failed => d.reply arrived failed

theorem perm_cons_eraseIdx {α : Type} {xs : List α} {i : Nat} {x : α} (h : xs[i]? = some x) :
    xs.Perm (x :: xs.eraseIdx i) := by
  obtain ⟨hi, rfl⟩ := List.getElem?_eq_some_iff.mp h
  exact (List.getElem_cons_eraseIdx_perm hi).symm

/-! What each step can do. -/

theorem pushJob_cases {d d' : Daemon Value} {jd : JobDesc Value} (h : d.pushJob jd = some d') :
    d.sending = false ∧
      (d.poisoned = true ∧ d' = d ∨
        d.poisoned = false ∧ d' = { d.push jd with sending := true }) := by
  unfold pushJob at h
  split_ifs at h with hsending hpoisoned
  · exact ⟨by simpa using hsending, Or.inl ⟨hpoisoned, (Option.some.inj h).symm⟩⟩
  · exact ⟨by simpa using hsending, Or.inr ⟨by simpa using hpoisoned, (Option.some.inj h).symm⟩⟩

theorem busSend_cases {d d' : Daemon Value} (h : d.busSend = some d') :
    d.sending = true ∧
      (d.alive = true ∧ d' = { d with tokens := d.tokens + 1, sending := false } ∨
        d.alive = false ∧ d' = { d with poisoned := true, sending := false }) := by
  unfold busSend at h
  split_ifs at h with hsending halive
  · exact ⟨by simpa using hsending, Or.inl ⟨halive, (Option.some.inj h).symm⟩⟩
  · exact ⟨by simpa using hsending, Or.inr ⟨by simpa using halive, (Option.some.inj h).symm⟩⟩

theorem wake_cases {d d' : Daemon Value} {i instant : Nat} (h : d.wake i instant = some d') :
    ∃ timer snd, d.timers[i]? = some (.asleep timer snd) ∧ d.sending = false ∧
      timer.wakeup ≤ instant ∧
      (d.poisoned = true ∧ d' = { d with timers := d.timers.eraseIdx i } ∨
        d.poisoned = false ∧ d' = { d.push ⟨.close timer.id .expired, ⟨0, 0⟩⟩ with
          timers := if snd then .notifying :: d.timers.eraseIdx i else d.timers.eraseIdx i }) := by
  unfold wake at h
  split at h
  next timer snd hi =>
    dsimp only at h
    split_ifs at h with hwait hpoisoned hsnd
    all_goals
      obtain ⟨hsending, hinstant⟩ : d.sending = false ∧ timer.wakeup ≤ instant := by
        simpa using hwait
      refine ⟨timer, snd, hi, hsending, hinstant, ?_⟩
    · exact Or.inl ⟨hpoisoned, (Option.some.inj h).symm⟩
    · exact Or.inr ⟨by simpa using hpoisoned, by rw [if_pos hsnd, ← Option.some.inj h]; rfl⟩
    · exact Or.inr ⟨by simpa using hpoisoned, by rw [if_neg hsnd, ← Option.some.inj h]; rfl⟩
  · cases h

theorem timerSend_cases {d d' : Daemon Value} {i : Nat} (h : d.timerSend i = some d') :
    d.timers[i]? = some .notifying ∧
      (d.alive = true ∧
          d' = { d with timers := d.timers.eraseIdx i, tokens := d.tokens + 1 } ∨
        d.alive = false ∧ d' = { d with timers := d.timers.eraseIdx i }) := by
  unfold timerSend at h
  split at h
  next hi =>
    dsimp only at h
    split_ifs at h with halive
    · exact ⟨hi, Or.inl ⟨halive, (Option.some.inj h).symm⟩⟩
    · have hdead : d.alive = false := Bool.eq_false_iff.mpr halive
      exact ⟨hi, Or.inr ⟨hdead, (Option.some.inj h).symm⟩⟩
  · cases h

theorem recv_cases {d d' : Daemon Value} (h : d.recv = some d') :
    d.phase = .idle ∧ d.tokens ≠ 0 ∧ d' = { d with tokens := d.tokens - 1, phase := .woken } := by
  unfold recv at h
  split at h
  next hphase =>
    split_ifs at h with htokens
    exact ⟨hphase, htokens, (Option.some.inj h).symm⟩
  · cases h

theorem pop_cases {d d' : Daemon Value} (h : d.pop = some d') :
    d.phase = .woken ∧ d.sending = false ∧
      (d.poisoned = true ∧ d' = d.die .poisoned ∨
        d.list = [] ∧ d' = d.die .noop ∨
        ∃ jd rest, d.list = jd :: rest ∧
          d' = { d with list := rest, phase := .executing jd rest.isEmpty }) := by
  unfold pop at h
  split at h
  next hphase =>
    split_ifs at h with hsending hpoisoned
    · exact ⟨hphase, by simpa using hsending, Or.inl ⟨hpoisoned, (Option.some.inj h).symm⟩⟩
    · refine ⟨hphase, by simpa using hsending, Or.inr ?_⟩
      cases hlist : d.list with
      | nil =>
        rw [hlist] at h
        exact Or.inl ⟨rfl, (Option.some.inj h).symm⟩
      | cons jd rest =>
        rw [hlist] at h
        exact Or.inr ⟨jd, rest, rfl, (Option.some.inj h).symm⟩
  · cases h

theorem reply_cases {d d' : Daemon Value} {arrived failed : Bool}
    (h : d.reply arrived failed = some d') :
    ∃ tr, d.phase = .replying tr ∧
      (failed = false ∧ d' = { d.accept tr with phase := .idle } ∨
        failed = true ∧ (d' = (d.accept tr).die .failed ∨ d' = d.die .failed)) := by
  unfold reply at h
  split at h
  next tr hphase =>
    refine ⟨tr, hphase, ?_⟩
    cases failed with
    | false =>
      simp only [Bool.not_false, Bool.or_true, if_true] at h
      exact Or.inl ⟨rfl, (Option.some.inj h).symm⟩
    | true =>
      cases arrived with
      | false => exact Or.inr ⟨rfl, Or.inr (Option.some.inj h).symm⟩
      | true => exact Or.inr ⟨rfl, Or.inl (Option.some.inj h).symm⟩
  · cases h

/-! What a task of the listener leaves. -/

structure Untouched (d d' : Daemon Value) : Prop where
  manager : d'.manager = d.manager
  phase : d'.phase = d.phase
  logsFile : d'.logsFile = d.logsFile
  counter : d'.counter = d.counter
  executed : d'.executed = d.executed
  created : d'.created = d.created
  list : d.list <+: d'.list

theorem Untouched.refl (d : Daemon Value) : Untouched d d :=
  ⟨rfl, rfl, rfl, rfl, rfl, rfl, List.prefix_refl _⟩

theorem deliver_untouched (d : Daemon Value) (written : Bool) (stream : Conn)
    (tr : Transmission) : Untouched d (d.deliver written stream tr) := by
  unfold deliver
  split_ifs <;> exact ⟨rfl, rfl, rfl, rfl, rfl, rfl, List.prefix_refl _⟩

theorem push_untouched (d : Daemon Value) (jd : JobDesc Value) (task : ListenerTask Value) :
    Untouched d ((d.push jd).spawn task) :=
  ⟨rfl, rfl, rfl, rfl, rfl, rfl, List.prefix_append _ _⟩

theorem broadcast_untouched (d : Daemon Value) (data : String) (broken : List Pid) :
    Untouched d (d.broadcast data broken) := by
  unfold broadcast
  dsimp only
  split_ifs
  · split <;> exact ⟨rfl, rfl, rfl, rfl, rfl, rfl, List.prefix_refl _⟩
  · exact ⟨rfl, rfl, rfl, rfl, rfl, rfl, List.prefix_refl _⟩

theorem task_untouched {platform : Platform Value} {written : Bool} {broken : List Pid}
    {d d' : Daemon Value} {task : ListenerTask Value}
    (h : task.step platform written broken d = some d') : Untouched d d' := by
  unfold ListenerTask.step at h
  split at h
  · cases h; exact deliver_untouched _ _ _ _
  · split at h
    · cases h; exact Untouched.refl _
    · cases h; exact deliver_untouched _ _ _ _
    · split_ifs at h <;> cases h <;> exact ⟨rfl, rfl, rfl, rfl, rfl, rfl, List.prefix_refl _⟩
  · split_ifs at h
    · cases h; exact broadcast_untouched _ _ _
    · cases h; exact ⟨rfl, rfl, rfl, rfl, rfl, rfl, List.prefix_refl _⟩
  · cases h; exact ⟨rfl, rfl, rfl, rfl, rfl, rfl, List.prefix_refl _⟩
  · split_ifs at h
    · cases h; exact Untouched.refl _
    · cases h; exact push_untouched _ _ _
  · split_ifs at h
    · cases h; exact Untouched.refl _
    · split at h
      · cases h; exact push_untouched _ _ _
      · cases h; exact ⟨rfl, rfl, rfl, rfl, rfl, rfl, List.prefix_refl _⟩
  · split_ifs at h <;> cases h <;> exact ⟨rfl, rfl, rfl, rfl, rfl, rfl, List.prefix_refl _⟩
  · cases h; exact Untouched.refl _
  · cases h; exact deliver_untouched _ _ _ _

/-! What the steps do to the log and to the two records. -/

def Alike (d d' : Daemon Value) : Prop :=
  d'.manager = d.manager ∧ d'.executed = d.executed ∧ d'.created = d.created

theorem pushJob_alike {d d' : Daemon Value} {jd : JobDesc Value} (h : d.pushJob jd = some d') :
    Alike d d' := by
  obtain ⟨-, ⟨-, rfl⟩ | ⟨-, rfl⟩⟩ := pushJob_cases h <;> exact ⟨rfl, rfl, rfl⟩

theorem busSend_alike {d d' : Daemon Value} (h : d.busSend = some d') : Alike d d' := by
  obtain ⟨-, ⟨-, rfl⟩ | ⟨-, rfl⟩⟩ := busSend_cases h <;> exact ⟨rfl, rfl, rfl⟩

theorem wake_alike {d d' : Daemon Value} {i instant : Nat} (h : d.wake i instant = some d') :
    Alike d d' := by
  obtain ⟨timer, snd, -, -, -, ⟨-, rfl⟩ | ⟨-, rfl⟩⟩ := wake_cases h <;> exact ⟨rfl, rfl, rfl⟩

theorem timerSend_alike {d d' : Daemon Value} {i : Nat} (h : d.timerSend i = some d') :
    Alike d d' := by
  obtain ⟨-, ⟨-, rfl⟩ | ⟨-, rfl⟩⟩ := timerSend_cases h <;> exact ⟨rfl, rfl, rfl⟩

theorem recv_alike {d d' : Daemon Value} (h : d.recv = some d') : Alike d d' := by
  obtain ⟨-, -, rfl⟩ := recv_cases h
  exact ⟨rfl, rfl, rfl⟩

theorem pop_alike {d d' : Daemon Value} (h : d.pop = some d') : Alike d d' := by
  obtain ⟨-, -, ⟨-, rfl⟩ | ⟨-, rfl⟩ | ⟨jd, rest, -, rfl⟩⟩ := pop_cases h <;> exact ⟨rfl, rfl, rfl⟩

theorem reply_alike {d d' : Daemon Value} {arrived failed : Bool}
    (h : d.reply arrived failed = some d') : Alike d d' := by
  obtain ⟨tr, -, ⟨-, rfl⟩ | ⟨-, rfl | rfl⟩⟩ := reply_cases h <;> exact ⟨rfl, rfl, rfl⟩

/-- The two steps that are recorded. -/
theorem step_recorded {platform : Platform Value} {d d' : Daemon Value} {l : Label Value}
    (h : d.step platform l = some d') :
    Alike d d' ∨
      (∃ call now, l = .notify call now ∧ d'.manager = d.manager ∧ d'.executed = d.executed ∧
        d'.created = d.created ++ [(Notifications.notify d.counter call now).2]) ∨
      ∃ env disk, l = .execute env disk ∧ d.execute platform env disk = some d' := by
  cases l with
  | notify call now => exact Or.inr (Or.inl ⟨call, now, rfl, pushJob_alike h⟩)
  | closeNotification nid => exact Or.inl (pushJob_alike h)
  | busSend => exact Or.inl (busSend_alike h)
  | connect tr =>
    cases h
    exact Or.inl ⟨rfl, rfl, rfl⟩
  | listen i written broken =>
    obtain ⟨task, -, h⟩ := Option.bind_eq_some_iff.mp h
    have huntouched := task_untouched h
    exact Or.inl ⟨huntouched.manager, huntouched.executed, huntouched.created⟩
  | wake i instant => exact Or.inl (wake_alike h)
  | timerSend i => exact Or.inl (timerSend_alike h)
  | recv => exact Or.inl (recv_alike h)
  | pop => exact Or.inl (pop_alike h)
  | execute env disk => exact Or.inr (Or.inr ⟨env, disk, rfl, h⟩)
  | reply arrived failed => exact Or.inl (reply_alike h)

theorem conclude_log (platform : Platform Value) (d : Daemon Value) (pid : Pid)
    (empty : Bool) (fj : FulfilledJob) (disk : Except (List UInt8) Unit) :
    let d' := d.conclude platform pid empty fj disk
    d'.manager.logsBuffer = d.manager.logsBuffer ∧ d'.manager.setup = d.manager.setup ∧
      d'.executed = d.executed ∧ d'.created = d.created := by
  unfold conclude
  dsimp only
  split_ifs
  · split <;> exact ⟨rfl, rfl, rfl, rfl⟩
  · exact ⟨rfl, rfl, rfl, rfl⟩

structure Executes (platform : Platform Value) (d : Daemon Value) (env : Env)
    (jd : JobDesc Value) (d' : Daemon Value) : Prop where
  phase : ∃ empty, d.phase = .executing jd empty
  done : ∃ ex, Job.execute platform env jd d.manager = some ex ∧
    d'.manager.logsBuffer = ex.manager.logsBuffer ∧ d'.manager.setup = ex.manager.setup
  executed : d'.executed = d.executed ++ [(d.manager, env, jd)]
  created : d'.created = d.created

theorem execute_cases {platform : Platform Value} {d d' : Daemon Value} {env : Env}
    {disk : Except (List UInt8) Unit} (h : d.execute platform env disk = some d') :
    Alike d d' ∨ ∃ jd, Executes platform d env jd d' := by
  unfold execute at h
  split at h
  next jd empty hphase =>
    split at h
    · cases h
      exact Or.inl ⟨rfl, rfl, rfl⟩
    next ex hex =>
      cases h
      obtain ⟨hlog, hsetup, hexecuted, hcreated⟩ := conclude_log platform
        { d with
          manager := ex.manager
          timers := (ex.timer.map fun timer => .asleep timer ex.manager.notifyer).toList ++ d.timers
          executed := d.executed ++ [(d.manager, env, jd)] } jd.desc.pid empty ex.fulfilled disk
      exact Or.inr ⟨jd, ⟨empty, hphase⟩, ⟨ex, hex, hlog, hsetup⟩, hexecuted, hcreated⟩
  · cases h

theorem execute_broadcast {platform : Platform Value} {d d' : Daemon Value} {env : Env}
    {disk : Except (List UInt8) Unit} {jd : JobDesc Value} {empty : Bool}
    {event : NotificationEvent Value} (hphase : d.phase = .executing jd empty)
    (hcmd : jd.cmd = .broadcast event) (h : d.execute platform env disk = some d') :
    d'.manager.logsBuffer = (d.manager.broadcasted event).logsBuffer := by
  obtain ⟨timer, -, hexec⟩ := Broadcast.execute_eq platform event env d.manager
  simp only [execute, hphase, Job.execute, hcmd, hexec] at h
  cases h
  exact (conclude_log ..).1

theorem execute_broadcast_eq (platform : Platform Value) {d : Daemon Value} (env : Env)
    (disk : Except (List UInt8) Unit) {jd : JobDesc Value} {empty : Bool}
    {event : NotificationEvent Value} (hphase : d.phase = .executing jd empty)
    (hcmd : jd.cmd = .broadcast event) :
    ∃ timers, d.execute platform env disk = some ({ d with
      manager := d.manager.broadcasted event
      timers := timers
      executed := d.executed ++ [(d.manager, env, jd)] }.conclude platform jd.desc.pid empty
        ⟨.ok (some (platform.eventToString event)), .results⟩ disk) := by
  obtain ⟨timer, -, hexec⟩ := Broadcast.execute_eq platform event env d.manager
  refine ⟨(timer.map fun timer => .asleep timer d.manager.notifyer).toList ++ d.timers, ?_⟩
  simp only [execute, hphase, Job.execute, hcmd, hexec]
  rfl

/-- Only the execution of a job changes the log. -/
theorem step_manager {platform : Platform Value} {d d' : Daemon Value} {l : Label Value}
    (h : d.step platform l = some d') :
    d'.manager = d.manager ∧ d'.executed = d.executed ∨
      ∃ env disk jd, l = .execute env disk ∧ Executes platform d env jd d' := by
  rcases step_recorded h with hkept | ⟨call, now, -, hman, hexecuted, -⟩ | ⟨env, disk, rfl, h⟩
  · exact Or.inl ⟨hkept.1, hkept.2.1⟩
  · exact Or.inl ⟨hman, hexecuted⟩
  · rcases execute_cases h with hkept | ⟨jd, hexec⟩
    · exact Or.inl ⟨hkept.1, hkept.2.1⟩
    · exact Or.inr ⟨env, disk, jd, rfl, hexec⟩

theorem step_created {platform : Platform Value} {d d' : Daemon Value} {l : Label Value}
    (h : d.step platform l = some d') :
    d'.created = d.created ∨ ∃ call now, l = .notify call now ∧
      d'.created = d.created ++ [(Notifications.notify d.counter call now).2] := by
  rcases step_recorded h with hkept | ⟨call, now, rfl, -, -, hcreated⟩ | ⟨env, disk, rfl, h⟩
  · exact Or.inl hkept.2.2
  · exact Or.inr ⟨call, now, rfl, hcreated⟩
  · rcases execute_cases h with hkept | ⟨jd, hexec⟩
    · exact Or.inl hkept.2.2
    · exact Or.inl hexec.created

/-! What everyone but the manager thread leaves of its side of the daemon. -/

/-- The manager thread has not moved; jobs may have come to the list. -/
structure Still (d d' : Daemon Value) : Prop where
  manager : d'.manager = d.manager
  phase : d'.phase = d.phase
  logsFile : d'.logsFile = d.logsFile
  list : d.list <+: d'.list

theorem Still.refl (d : Daemon Value) : Still d d := ⟨rfl, rfl, rfl, List.prefix_refl _⟩

theorem pushJob_still {d d' : Daemon Value} {jd : JobDesc Value} (h : d.pushJob jd = some d') :
    Still d d' := by
  obtain ⟨-, ⟨-, rfl⟩ | ⟨-, rfl⟩⟩ := pushJob_cases h
  · exact Still.refl _
  · exact ⟨rfl, rfl, rfl, List.prefix_append _ _⟩

/-- A step of the manager thread, or one that leaves it where it is. -/
theorem step_still {platform : Platform Value} {d d' : Daemon Value} {l : Label Value}
    (h : d.step platform l = some d') :
    Still d d' ∨ l = .recv ∧ d.recv = some d' ∨ l = .pop ∧ d.pop = some d' ∨
      (∃ env disk, l = .execute env disk ∧ d.execute platform env disk = some d') ∨
      ∃ arrived failed, l = .reply arrived failed ∧ d.reply arrived failed = some d' := by
  cases l with
  | notify call now =>
    have hstill := pushJob_still h
    exact Or.inl ⟨hstill.manager, hstill.phase, hstill.logsFile, hstill.list⟩
  | closeNotification nid => exact Or.inl (pushJob_still h)
  | busSend =>
    obtain ⟨-, ⟨-, rfl⟩ | ⟨-, rfl⟩⟩ := busSend_cases h <;>
      exact Or.inl ⟨rfl, rfl, rfl, List.prefix_refl _⟩
  | connect tr =>
    cases h
    exact Or.inl ⟨rfl, rfl, rfl, List.prefix_refl _⟩
  | listen i written broken =>
    obtain ⟨task, -, h⟩ := Option.bind_eq_some_iff.mp h
    have huntouched := task_untouched h
    exact Or.inl ⟨huntouched.manager, huntouched.phase, huntouched.logsFile, huntouched.list⟩
  | wake i instant =>
    obtain ⟨timer, snd, -, -, -, ⟨-, rfl⟩ | ⟨-, rfl⟩⟩ := wake_cases h
    · exact Or.inl ⟨rfl, rfl, rfl, List.prefix_refl _⟩
    · exact Or.inl ⟨rfl, rfl, rfl, List.prefix_append _ _⟩
  | timerSend i =>
    obtain ⟨-, ⟨-, rfl⟩ | ⟨-, rfl⟩⟩ := timerSend_cases h <;>
      exact Or.inl ⟨rfl, rfl, rfl, List.prefix_refl _⟩
  | recv => exact Or.inr (Or.inl ⟨rfl, h⟩)
  | pop => exact Or.inr (Or.inr (Or.inl ⟨rfl, h⟩))
  | execute env disk => exact Or.inr (Or.inr (Or.inr (Or.inl ⟨env, disk, rfl, h⟩)))
  | reply arrived failed => exact Or.inr (Or.inr (Or.inr (Or.inr ⟨arrived, failed, rfl, h⟩)))

theorem execute_outcome {platform : Platform Value} {d d' : Daemon Value} {env : Env}
    {disk : Except (List UInt8) Unit} (h : d.execute platform env disk = some d') :
    ∃ jd empty, d.phase = .executing jd empty ∧
      (Job.execute platform env jd d.manager = none ∧ d' = d.die .panicked ∨
        ∃ ex, Job.execute platform env jd d.manager = some ex ∧
          d' = { d with
            manager := ex.manager
            timers := (ex.timer.map fun timer =>
              TimerThread.asleep timer ex.manager.notifyer).toList ++ d.timers
            executed := d.executed ++ [(d.manager, env, jd)] }.conclude platform jd.desc.pid
              empty ex.fulfilled disk) := by
  unfold execute at h
  split at h
  next jd empty hphase =>
    refine ⟨jd, empty, hphase, ?_⟩
    split at h
    next hnone => exact Or.inl ⟨hnone, (Option.some.inj h).symm⟩
    next ex hex => exact Or.inr ⟨ex, hex, (Option.some.inj h).symm⟩
  · cases h

/-- No daemon that executes the job loses its manager thread to a panic. -/
def Survives (platform : Platform Value) (env : Env) (jd : JobDesc Value)
    (man : LogsManager Value) : Prop :=
  ∀ (d d' : Daemon Value) empty disk, d.phase = .executing jd empty → d.manager = man →
    d.execute platform env disk = some d' → d'.phase ≠ .dead .panicked

theorem conclude_not_panicked (platform : Platform Value) (d : Daemon Value) (pid : Pid)
    (empty : Bool) (fj : FulfilledJob) (disk : Except (List UInt8) Unit) :
    (d.conclude platform pid empty fj disk).phase ≠ .dead .panicked := by
  have hback : sendBack platform pid fj ≠ .dead .panicked := by
    unfold sendBack
    split <;> simp
  unfold conclude
  dsimp only
  split_ifs
  · split
    · exact hback
    · simp [die]
  · exact hback

theorem survives_iff {platform : Platform Value} {env : Env} {jd : JobDesc Value}
    {man : LogsManager Value} :
    Survives platform env jd man ↔ Job.execute platform env jd man ≠ none := by
  constructor
  · intro h hnone
    let d : Daemon Value := { start man none with
      manager := man
      phase := .executing jd true }
    have hexec : d.execute platform env (.ok ()) = some (d.die .panicked) := by
      simp [d, execute, hnone]
    exact h d (d.die .panicked) true (.ok ()) rfl rfl hexec rfl
  · rintro hsome d d' empty disk hphase rfl hexec
    obtain ⟨jd', empty', hphase', ⟨hnone, -⟩ | ⟨ex, -, rfl⟩⟩ := execute_outcome hexec
    · rw [hphase] at hphase'
      cases hphase'
      exact absurd hnone hsome
    · exact conclude_not_panicked _ _ _ _ _ _

def Led (platform : Platform Value) (man : LogsManager Value) (d : Daemon Value) : Prop :=
  (Runs.run (LogsManager.step platform) man (d.executed.map Prod.snd)).map LogsManager.saved =
    some d.manager.saved

theorem step_led {platform : Platform Value} {man : LogsManager Value} {d d' : Daemon Value}
    {l : Label Value} (hd : Led platform man d) (h : d.step platform l = some d') :
    Led platform man d' := by
  rcases step_manager h with ⟨hman, hexecuted⟩ | ⟨env, disk, jd, -, hexec⟩
  · rw [Led, hman, hexecuted]
    exact hd
  · obtain ⟨m, hm, hsaved⟩ := Option.map_eq_some_iff.mp hd
    obtain ⟨ex, hex, hlog, hsetup⟩ := hexec.done
    have hexecuted : d.manager.step platform (env, jd) = some ex.manager := by
      rw [LogsManager.step, hex]
      rfl
    have hstep : (m.step platform (env, jd)).map LogsManager.saved = some d'.manager.saved := by
      rw [← LogsManager.step_saved, hsaved, LogsManager.step_saved, hexecuted, Option.map_some,
        LogsManager.saved_eq hlog hsetup]
    obtain ⟨m', hm', hsaved'⟩ := Option.map_eq_some_iff.mp hstep
    have hrun : Runs.run (LogsManager.step platform) man (d'.executed.map Prod.snd) = some m' := by
      rw [hexec.executed, List.map_append]
      exact Runs.run_append_some.mpr ⟨m, hm, Runs.run_cons_some.mpr ⟨m', hm', rfl⟩⟩
    rw [Led, hrun, Option.map_some, hsaved']

theorem run_led {platform : Platform Value} {man : LogsManager Value}
    {logsFile : Option (List UInt8)} {labels : List (Label Value)} {d : Daemon Value}
    (hrun : Runs.run (step platform) (start man logsFile) labels = some d) :
    Led platform (start man logsFile).manager d := by
  have hstart : Led platform (start man logsFile).manager (start man logsFile) := rfl
  exact Runs.run_invariant (fun _ _ _ => step_led) hstart hrun

end Daemon

end NotifsPiper

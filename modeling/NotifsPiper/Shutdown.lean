import NotifsPiper.Commands
import NotifsPiper.Delivery
import NotifsPiper.Storage
import NotifsPiper.Waiting

/-! How the daemon ends. A task of the listener that finds the manager thread gone, or the lock
of the list poisoned, tells the loop that accepts connections over a channel. The loop looks
there between two connections only; when it returns, so does `start`, by its `unreachable!`. -/

namespace NotifsPiper.Shutdown

open Runs

variable {Value : Type}

/-- Where the loop of `listen` stands: before its look at the channel, waiting in `accept`, or
back in `start`. -/
inductive ListenLoop
  | checking
  | accepting
  | returned
  deriving DecidableEq, Repr

/-- `taken` counts the connections the loop has accepted, in the order in which they came;
`notices` what the tasks have sent over `panic`. -/
structure Process (Value : Type) where
  daemon : Daemon Value
  loop : ListenLoop
  taken : Nat
  notices : Nat

inductive Event (Value : Type)
  | check
  | accept (ok : Bool)
  | daemon (l : Label Value)

def Event.own : Event Value → Option (Label Value)
  | .daemon l => some l
  | _ => none

/-- Whether the task, about to move, finds what makes it send on `panic` before it panics. -/
def gives (d : Daemon Value) : ListenerTask Value → Bool
  | .pushing _ => d.poisoned
  | .acknowledging _ => d.poisoned
  | .notifying _ => !d.alive
  | _ => false

def notice (d : Daemon Value) : Label Value → Bool
  | .listen i _ _ => d.tasks[i]?.any (gives d)
  | _ => false

def backlogged (taken : Nat) : ListenerTask Value → Bool
  | .received stream _ => taken ≤ stream
  | _ => false

namespace Process

def start (man : LogsManager Value) (logsFile : Option (List UInt8)) : Process Value :=
  ⟨Daemon.start man logsFile, .checking, 0, 0⟩

/-- Nobody connects to a loop that has returned, and no task stands behind a connection before
it is accepted. -/
def allows (p : Process Value) : Label Value → Bool
  | .connect _ => p.loop != .returned
  | .reply arrived failed => !(arrived || !failed) || p.loop != .returned
  | .listen i _ _ => !p.daemon.tasks[i]?.any (backlogged p.taken)
  | _ => true

def check (p : Process Value) : Option (Process Value) :=
  if p.loop = .checking then
    if 0 < p.notices then some { p with loop := .returned, notices := p.notices - 1 }
    else some { p with loop := .accepting }
  else none

def accept (p : Process Value) (ok : Bool) : Option (Process Value) :=
  if p.loop = .accepting then
    if ok then
      if p.taken < p.daemon.accepted.length then
        some { p with loop := .checking, taken := p.taken + 1 }
      else none
    else some { p with loop := .returned }
  else none

def step (platform : Platform Value) (p : Process Value) : Event Value → Option (Process Value)
  | .check => p.check
  | .accept ok => p.accept ok
  | .daemon l =>
    if p.allows l then
      (p.daemon.step platform l).map fun d =>
        { p with daemon := d, notices := p.notices + (notice p.daemon l).toNat }
    else none

end Process

/-! What an event can do. -/

section Events

variable {platform : Platform Value} {p p' : Process Value}

theorem check_cases (h : p.check = some p') :
    p.loop = .checking ∧
      (0 < p.notices ∧ p' = { p with loop := .returned, notices := p.notices - 1 } ∨
        p.notices = 0 ∧ p' = { p with loop := .accepting }) := by
  unfold Process.check at h
  split_ifs at h with hloop hnotices
  · exact ⟨hloop, .inl ⟨hnotices, (Option.some.inj h).symm⟩⟩
  · exact ⟨hloop, .inr ⟨by omega, (Option.some.inj h).symm⟩⟩

theorem accept_cases {ok : Bool} (h : p.accept ok = some p') :
    p.loop = .accepting ∧
      (ok = true ∧ p.taken < p.daemon.accepted.length ∧
          p' = { p with loop := .checking, taken := p.taken + 1 } ∨
        ok = false ∧ p' = { p with loop := .returned }) := by
  unfold Process.accept at h
  split_ifs at h with hloop hok htaken
  · exact ⟨hloop, .inl ⟨hok, htaken, (Option.some.inj h).symm⟩⟩
  · exact ⟨hloop, .inr ⟨by simpa using hok, (Option.some.inj h).symm⟩⟩

theorem daemon_cases {l : Label Value} (h : p.step platform (.daemon l) = some p') :
    p.allows l = true ∧ ∃ d, p.daemon.step platform l = some d ∧
      p' = { p with daemon := d, notices := p.notices + (notice p.daemon l).toNat } := by
  simp only [Process.step] at h
  split_ifs at h with hallows
  obtain ⟨d, hd, rfl⟩ := Option.map_eq_some_iff.mp h
  exact ⟨hallows, d, hd, rfl⟩

end Events

/-! Why the loop returns. -/

def Fatal (d : Daemon Value) : Prop := d.alive = false ∨ d.poisoned = true

section Reasons

variable {platform : Platform Value} {p p' : Process Value}

theorem gives_fatal {d : Daemon Value} {task : ListenerTask Value} (h : gives d task = true) :
    Fatal d := by
  cases task with
  | pushing jobd => exact .inr h
  | acknowledging data => exact .inr h
  | notifying lp => exact .inl (by simpa [gives] using h)
  | received stream tr => cases h
  | inserting stream pid jobd => cases h
  | replying stream tr => cases h

theorem notice_fatal {d : Daemon Value} {l : Label Value} (h : notice d l = true) : Fatal d := by
  cases l with
  | listen i written broken =>
    obtain ⟨task, -, hgives⟩ := (Option.any_eq_true _ _).mp h
    exact gives_fatal hgives
  | _ => cases h

theorem step_dead {d d' : Daemon Value} {l : Label Value} (hd : d.alive = false)
    (h : d.step platform l = some d') : d'.alive = false := by
  refine Bool.eq_false_iff.mpr fun halive => ?_
  exact Bool.noConfusion (hd.symm.trans (Waiting.step_alive h halive))

theorem step_fatal {d d' : Daemon Value} {l : Label Value} (hd : Fatal d)
    (h : d.step platform l = some d') : Fatal d' := by
  rcases hd with hdead | hpoisoned
  · exact .inl (step_dead hdead h)
  · exact .inr (Waiting.step_poisoned hpoisoned h)

/-- Whoever was told, or has returned, had a reason. -/
def Reasoned (p : Process Value) : Prop :=
  0 < p.notices ∨ p.loop = .returned → Fatal p.daemon

theorem step_reasoned {e : Event Value} (hp : Reasoned p) (hok : e ≠ .accept false)
    (h : p.step platform e = some p') : Reasoned p' := by
  cases e with
  | check =>
    obtain ⟨hloop, ⟨hnotices, rfl⟩ | ⟨hnone, rfl⟩⟩ := check_cases h
    · exact fun _ => hp (.inl hnotices)
    · rintro (hnotices | hreturned)
      · exact hp (.inl hnotices)
      · cases hreturned
  | accept ok =>
    obtain ⟨hloop, ⟨-, -, rfl⟩ | ⟨rfl, rfl⟩⟩ := accept_cases h
    · rintro (hnotices | hreturned)
      · exact hp (.inl hnotices)
      · cases hreturned
    · exact absurd rfl hok
  | daemon l =>
    obtain ⟨-, d, hd, rfl⟩ := daemon_cases h
    intro hreason
    cases hnotice : notice p.daemon l with
    | true => exact step_fatal (notice_fatal hnotice) hd
    | false =>
      have hbefore : 0 < p.notices ∨ p.loop = .returned := by simpa [hnotice] using hreason
      exact step_fatal (hp hbefore) hd

end Reasons

/-! How long the loop goes on once it was told. -/

section Told

variable {platform : Platform Value} {p p' : Process Value}

def accepts : Event Value → Bool
  | .accept ok => ok
  | _ => false

/-- The next look at the channel ends the loop. -/
def Told (p : Process Value) : Prop := p.loop = .returned ∨ p.loop ≠ .accepting ∧ 0 < p.notices

theorem step_told {e : Event Value} (hp : Told p) (h : p.step platform e = some p') :
    Told p' ∧ accepts e = false := by
  cases e with
  | check =>
    obtain ⟨hloop, ⟨-, rfl⟩ | ⟨hnone, rfl⟩⟩ := check_cases h
    · exact ⟨.inl rfl, rfl⟩
    · rcases hp with hreturned | ⟨-, hnotices⟩
      · rw [hloop] at hreturned
        cases hreturned
      · omega
  | accept ok =>
    obtain ⟨hloop, -⟩ := accept_cases h
    rcases hp with hreturned | ⟨hloop', -⟩
    · rw [hloop] at hreturned
      cases hreturned
    · exact absurd hloop hloop'
  | daemon l =>
    obtain ⟨-, d, -, rfl⟩ := daemon_cases h
    refine ⟨?_, rfl⟩
    rcases hp with hreturned | ⟨hloop, hnotices⟩
    · exact .inl hreturned
    · exact .inr ⟨hloop, Nat.lt_add_right _ hnotices⟩

theorem run_told {events : List (Event Value)} (hp : Told p)
    (hrun : run (Process.step platform) p events = some p') : events.countP accepts = 0 := by
  induction events generalizing p with
  | nil => rfl
  | cons e events ih =>
    obtain ⟨q, hq, hrun⟩ := run_cons_some.mp hrun
    obtain ⟨htold, haccepts⟩ := step_told hp hq
    rw [List.countP_cons_of_neg (by simp [haccepts])]
    exact ih htold hrun

theorem run_noticed {events : List (Event Value)} (hnotices : 0 < p.notices)
    (hrun : run (Process.step platform) p events = some p') : events.countP accepts ≤ 1 := by
  induction events generalizing p with
  | nil => exact Nat.zero_le _
  | cons e events ih =>
    obtain ⟨q, hq, hrest⟩ := run_cons_some.mp hrun
    cases e with
    | check =>
      obtain ⟨hloop, -⟩ := check_cases hq
      have htold : Told p := .inr ⟨by rw [hloop]; decide, hnotices⟩
      rw [run_told htold hrun]
      exact Nat.zero_le _
    | accept ok =>
      obtain ⟨-, ⟨rfl, -, rfl⟩ | ⟨rfl, rfl⟩⟩ := accept_cases hq
      · have htold : Told { p with loop := .checking, taken := p.taken + 1 } :=
          .inr ⟨nofun, hnotices⟩
        rw [List.countP_cons_of_pos rfl, run_told htold hrest]
      · rw [List.countP_cons_of_neg Bool.false_ne_true, run_told (.inl rfl) hrest]
        exact Nat.zero_le _
    | daemon l =>
      obtain ⟨-, d, -, rfl⟩ := daemon_cases hq
      rw [List.countP_cons_of_neg (by simp [accepts])]
      exact ih (Nat.lt_add_right _ hnotices) hrest

end Told

/-! Who tells it. A client does, with a request that is a job; nobody does where there is no
client. -/

def Asking (platform : Platform Value) (tr : Transmission) : Prop :=
  ∃ pid jobd, tr.typ = .incoming pid ∧ JobDesc.fromStr platform tr.data = pure jobd ∧
    jobd.cmd.canonicalName ≠ "watch"

inductive Bound (platform : Platform Value) : ListenerTask Value → Prop
  | received (stream : Conn) {tr : Transmission} (h : Asking platform tr) :
    Bound platform (.received stream tr)
  | inserting (stream : Conn) (pid : Pid) (jobd : JobDesc Value) :
    Bound platform (.inserting stream pid jobd)
  | pushing (jobd : JobDesc Value) : Bound platform (.pushing jobd)
  | notifying (lp : Bool) : Bound platform (.notifying lp)

section Tells

variable {platform : Platform Value} {p p' : Process Value}

theorem bound_step {d d' : Daemon Value} {task : ListenerTask Value} {written : Bool}
    {broken : List Pid} (hdead : d.alive = false) (hbound : Bound platform task)
    (h : task.step platform written broken d = some d') :
    gives d task = true ∨ ∃ task' ∈ d'.tasks, Bound platform task' := by
  cases hbound with
  | @received stream tr hasks =>
    obtain ⟨typ, data⟩ := tr
    obtain ⟨pid, jobd, rfl, hjobd, hwatch⟩ := hasks
    have hrun : (JobDesc.fromStr platform data).run = some (.ok jobd) := by
      rw [hjobd]
      rfl
    simp only [ListenerTask.step, hrun, if_neg hwatch] at h
    cases h
    exact .inr ⟨_, List.mem_cons_self, .inserting stream pid jobd⟩
  | inserting stream pid jobd =>
    cases h
    exact .inr ⟨_, List.mem_cons_self, .pushing jobd⟩
  | pushing jobd =>
    simp only [ListenerTask.step] at h
    split_ifs at h with hsending hpoisoned
    · exact .inl hpoisoned
    · cases h
      exact .inr ⟨_, List.mem_cons_self, .notifying false⟩
  | notifying lp => exact .inl (by rw [gives, hdead]; rfl)

/-- The manager thread is gone, and the loop knows or will be told. -/
def Telling (platform : Platform Value) (p : Process Value) : Prop :=
  0 < p.notices ∨ p.loop = .returned ∨ ∃ task ∈ p.daemon.tasks, Bound platform task

theorem step_telling {e : Event Value} (hdead : p.daemon.alive = false)
    (hp : Telling platform p) (h : p.step platform e = some p') : Telling platform p' := by
  cases e with
  | check =>
    obtain ⟨hloop, ⟨-, rfl⟩ | ⟨-, rfl⟩⟩ := check_cases h
    · exact .inr (.inl rfl)
    · rcases hp with hnotices | hreturned | htask
      · exact .inl hnotices
      · rw [hloop] at hreturned
        cases hreturned
      · exact .inr (.inr htask)
  | accept ok =>
    obtain ⟨hloop, ⟨-, -, rfl⟩ | ⟨-, rfl⟩⟩ := accept_cases h
    · rcases hp with hnotices | hreturned | htask
      · exact .inl hnotices
      · rw [hloop] at hreturned
        cases hreturned
      · exact .inr (.inr htask)
    · exact .inr (.inl rfl)
  | daemon l =>
    obtain ⟨-, d, hd, rfl⟩ := daemon_cases h
    rcases hp with hnotices | hreturned | ⟨task, htask, hbound⟩
    · exact .inl (Nat.lt_add_right _ hnotices)
    · exact .inr (.inl hreturned)
    · rcases Routing.step_listener hd with haside | ⟨tr, -, haside⟩ |
        ⟨i, written, broken, rfl, hlisten⟩
      · exact .inr (.inr ⟨task, haside.tasks ▸ htask, hbound⟩)
      · refine .inr (.inr ⟨task, ?_, hbound⟩)
        rw [haside.tasks]
        exact List.mem_cons_of_mem _ htask
      · obtain ⟨moved, hmoved, hstep⟩ := Option.bind_eq_some_iff.mp hlisten
        obtain ⟨new, -, htasks, -⟩ := (Delivery.task_inherits hstep).left
        have hsplit : task ∈ moved :: p.daemon.tasks.eraseIdx i :=
          (Daemon.perm_cons_eraseIdx hmoved).mem_iff.mp htask
        rcases List.mem_cons.mp hsplit with rfl | hrest
        · rcases bound_step (d := { p.daemon with tasks := p.daemon.tasks.eraseIdx i }) hdead
            hbound hstep with hgives | hnext
          · have hnotice : notice p.daemon (.listen i written broken) = true := by
              rw [notice, hmoved]
              cases task <;> exact hgives
            exact .inl (by simp [hnotice])
          · exact .inr (.inr hnext)
        · refine .inr (.inr ⟨task, ?_, hbound⟩)
          rw [htasks]
          exact List.mem_append_right _ hrest

end Tells

section Runs

variable {platform : Platform Value} {p p' : Process Value} {events : List (Event Value)}

theorem event_own {e : Event Value} (h : p.step platform e = some p') :
    run (Daemon.step platform) p.daemon e.own.toList = some p'.daemon := by
  cases e with
  | check => obtain ⟨-, ⟨-, rfl⟩ | ⟨-, rfl⟩⟩ := check_cases h <;> rfl
  | accept ok => obtain ⟨-, ⟨-, -, rfl⟩ | ⟨-, rfl⟩⟩ := accept_cases h <;> rfl
  | daemon l =>
    obtain ⟨-, d, hd, rfl⟩ := daemon_cases h
    exact run_cons_some.mpr ⟨d, hd, rfl⟩

theorem event_dead {e : Event Value} (hp : p.daemon.alive = false)
    (h : p.step platform e = some p') : p'.daemon.alive = false := by
  have hstep : ∀ (d : Daemon Value) l d', d.alive = false → d.step platform l = some d' →
      d'.alive = false := fun _ _ _ hd h => step_dead hd h
  exact run_invariant hstep hp (event_own h)

theorem run_telling {tr : Transmission} (hdead : p.daemon.alive = false)
    (htr : Asking platform tr) (hcame : Event.daemon (.connect tr) ∈ events)
    (hrun : run (Process.step platform) p events = some p') : Telling platform p' := by
  obtain ⟨before, after, rfl⟩ := List.append_of_mem hcame
  obtain ⟨q, hbefore, hafter⟩ := run_append_some.mp hrun
  obtain ⟨r, hconnect, hafter⟩ := run_cons_some.mp hafter
  have hstep : ∀ (s : Process Value) e s', s.daemon.alive = false → s.step platform e = some s' →
      s'.daemon.alive = false := fun _ _ _ hs h => event_dead hs h
  have hq := run_invariant hstep hdead hbefore
  have hr : Telling platform r := by
    obtain ⟨-, d, hd, rfl⟩ := daemon_cases hconnect
    cases hd
    exact .inr (.inr ⟨_, List.mem_cons_self, .received _ htr⟩)
  have hkept : ∀ (s : Process Value) e s', s.daemon.alive = false ∧ Telling platform s →
      s.step platform e = some s' → s'.daemon.alive = false ∧ Telling platform s' :=
    fun s e s' hs h => ⟨event_dead hs.1 h, step_telling hs.1 hs.2 h⟩
  exact (run_invariant hkept ⟨event_dead hq hconnect, hr⟩ hafter).2

structure Quiet (p : Process Value) : Prop where
  dead : p.daemon.alive = false
  tasks : p.daemon.tasks = []
  notices : p.notices = 0
  loop : p.loop ≠ .returned

theorem step_quiet {e : Event Value} (hp : Quiet p) (hok : e ≠ .accept false)
    (hclient : ∀ tr, e ≠ .daemon (.connect tr)) (h : p.step platform e = some p') : Quiet p' := by
  cases e with
  | check =>
    obtain ⟨-, ⟨hnotices, -⟩ | ⟨-, rfl⟩⟩ := check_cases h
    · rw [hp.notices] at hnotices
      cases hnotices
    · exact ⟨hp.dead, hp.tasks, hp.notices, nofun⟩
  | accept ok =>
    obtain ⟨-, ⟨-, -, rfl⟩ | ⟨rfl, -⟩⟩ := accept_cases h
    · exact ⟨hp.dead, hp.tasks, hp.notices, nofun⟩
    · exact absurd rfl hok
  | daemon l =>
    have hdead := event_dead hp.dead h
    obtain ⟨-, d, hd, rfl⟩ := daemon_cases h
    rcases Routing.step_listener hd with haside | ⟨tr, hl | ⟨-, hphase⟩, -⟩ |
      ⟨i, written, broken, rfl, hlisten⟩
    · have hnotice : notice p.daemon l = false := by
        cases l with
        | listen i written broken => rw [notice, hp.tasks]; rfl
        | _ => rfl
      exact ⟨hdead, haside.tasks.trans hp.tasks, by simp [hnotice, hp.notices], hp.loop⟩
    · exact absurd (congrArg Event.daemon hl) (hclient tr)
    · have hgone := hp.dead
      simp [Daemon.alive, hphase] at hgone
    · obtain ⟨moved, hmoved, -⟩ := Option.bind_eq_some_iff.mp hlisten
      rw [hp.tasks] at hmoved
      cases hmoved

end Runs

/-- How a fatal error ends the daemon. The loop returns only for a reason: the manager thread is
gone, or the lock of the list poisoned. Told of it, it accepts one more connection at most. It
is told of a dead manager thread by every job that a client asks for afterwards, and by nobody
else: without a client the daemon stays up, whatever comes over the bus and however many timers
run out. -/
theorem clients_shut_down (platform : Platform Value) (man : LogsManager Value)
    (logsFile : Option (List UInt8)) (before after : List (Event Value)) (p p' : Process Value)
    (hbefore : run (Process.step platform) (Process.start man logsFile) before = some p)
    (hafter : run (Process.step platform) p after = some p') :
    (.accept false ∉ before → 0 < p.notices ∨ p.loop = .returned →
      p.daemon.alive = false ∨ p.daemon.poisoned = true) ∧
    (0 < p.notices → after.countP accepts ≤ 1) ∧
    (p.daemon.alive = false → p'.daemon.tasks = [] →
      (∃ tr, .daemon (.connect tr) ∈ after ∧ Asking platform tr) →
        0 < p'.notices ∨ p'.loop = .returned) ∧
    (p.daemon.alive = false → p.daemon.tasks = [] → p.notices = 0 → p.loop ≠ .returned →
      .accept false ∉ after → (∀ tr, .daemon (.connect tr) ∉ after) →
        p'.notices = 0 ∧ p'.loop ≠ .returned) := by
  refine ⟨fun hok hreason => ?_, fun hnotices => run_noticed hnotices hafter,
    fun hdead htasks ⟨tr, hcame, htr⟩ => ?_, fun hdead htasks hnotices hloop hok hclient => ?_⟩
  · have hstart : Reasoned (Process.start man logsFile) := nofun
    have hstep : ∀ (s : Process Value) e s', Reasoned s → e ≠ .accept false →
        s.step platform e = some s' → Reasoned s' := fun _ _ _ hs hok h => step_reasoned hs hok h
    have hgood : ∀ e ∈ before, e ≠ .accept false := by
      rintro e he rfl
      exact hok he
    have hgood : Along (Process.step platform) (fun _ e => e ≠ .accept false)
        (Process.start man logsFile) before := along_of_forall (fun e he _ => hgood e he) _
    exact run_along hstep hstart hgood hbefore hreason
  · rcases run_telling hdead htr hcame hafter with hnotices | hreturned | ⟨task, htask, -⟩
    · exact .inl hnotices
    · exact .inr hreturned
    · rw [htasks] at htask
      cases htask
  · have hstep : ∀ (s : Process Value) e s', Quiet s →
        (e ≠ .accept false ∧ ∀ tr, e ≠ .daemon (.connect tr)) →
        s.step platform e = some s' → Quiet s' :=
      fun _ _ _ hs hgood h => step_quiet hs hgood.1 hgood.2 h
    have hgood : ∀ e ∈ after, e ≠ .accept false ∧ ∀ tr, e ≠ .daemon (.connect tr) := by
      intro e he
      constructor
      · rintro rfl
        exact hok he
      · rintro tr rfl
        exact hclient tr he
    have hgood : Along (Process.step platform)
        (fun _ e => e ≠ .accept false ∧ ∀ tr, e ≠ .daemon (.connect tr)) p after :=
      along_of_forall (fun e he _ => hgood e he) _
    have hquiet := run_along hstep ⟨hdead, htasks, hnotices, hloop⟩ hgood hafter
    exact ⟨hquiet.notices, hquiet.loop⟩

def failing : List (Event Unit) := .check :: (Storage.flushing (.error [])).map .daemon

def queried : List (Event Unit) :=
  [.daemon (.connect (Sub.transmission Platform.bare 4 (.signal 1 false (.closed true)))),
    .accept true, .daemon (.listen 0 true []), .daemon (.listen 0 true []),
    .daemon (.listen 0 true []), .daemon (.listen 0 true []), .check]

theorem clients_shut_down_queried :
    ∃ p p', run (Process.step Platform.bare) (Process.start (.empty 10) none) failing = some p ∧
      run (Process.step Platform.bare) p queried = some p' ∧
      p.daemon.alive = false ∧ p'.daemon.tasks = [] ∧ (0 < p'.notices ∨ p'.loop = .returned) := by
  have hfirst : (run (Process.step Platform.bare) (Process.start (.empty 10) none) failing).map
      (fun p => p.daemon.alive) = some false := by decide +kernel
  have hsecond : (run (Process.step Platform.bare) (Process.start (.empty 10) none)
      (failing ++ queried)).map (fun p => p.daemon.tasks) = some [] := by decide +kernel
  obtain ⟨p, hp, hdead⟩ := Option.map_eq_some_iff.mp hfirst
  obtain ⟨p', hrun, htasks⟩ := Option.map_eq_some_iff.mp hsecond
  obtain ⟨q, hq, hp'⟩ := run_append_some.mp hrun
  cases hp.symm.trans hq
  have hasks : Asking Platform.bare
      (Sub.transmission Platform.bare 4 (.signal 1 false (.closed true))) :=
    ⟨_, _, rfl, Sub.decoded Platform.bare 4 (.signal 1 false (.closed true)), by decide⟩
  exact ⟨p, p', hp, hp', hdead, htasks,
    (clients_shut_down Platform.bare (.empty 10) none failing queried p p' hp hp').2.2.1 hdead
      htasks ⟨_, List.mem_cons_self, hasks⟩⟩

end NotifsPiper.Shutdown

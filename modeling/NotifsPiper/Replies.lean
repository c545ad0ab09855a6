import NotifsPiper.Wakeups
import NotifsPiper.Rendezvous

/-! Requests and their replies. A client that asks crosses the listener, the list of jobs,
the manager and the listener again; meanwhile its connection waits among the active
processes. The places where a request can stand are those of a `Rendezvous`, and every
step of the daemon is a move in it. -/

namespace NotifsPiper.Replies

open Runs Rendezvous Wakeups

variable {Value : Type}

inductive Ask
  | read (start stop : LogCountType) (h : start ≤ stop)
  | query (id : Nid)
  deriving DecidableEq, Repr

structure Request where
  pid : Pid
  flags : FlagsRepr
  ask : Ask
  named : pid ≠ 0
  deriving DecidableEq, Repr

namespace Request

def job (r : Request) : Job Value :=
  match r.ask with
  | .read start stop _ => .read start stop
  | .query id => .query id

def jobd (r : Request) : JobDesc Value := ⟨r.job, ⟨r.pid, r.flags⟩⟩

def transmission (platform : Platform Value) (r : Request) : Transmission :=
  ⟨.incoming r.pid, ((r.jobd.toStr platform).getD "")⟩

theorem decoded (platform : Platform Value) (r : Request) :
    JobDesc.fromStr platform ((r.jobd.toStr platform).getD "") = pure r.jobd := by
  unfold jobd job
  cases r.ask with
  | read start stop hle =>
    have hread := Job.fromStr_read platform start stop
    exact JobDesc.fromStr_toStr (by simp only [Job.toStr, String.append_assoc]) hread
  | query id =>
    have hquery := Job.fromStr_query platform id
    exact JobDesc.fromStr_toStr rfl hquery

theorem answers {platform : Platform Value} {env : Env} {man : LogsManager Value} (r : Request)
    {ex : Executed Value} (h : Job.execute platform env r.jobd man = some ex) :
    ∃ text, ex.fulfilled = ⟨.ok (some text), .results⟩ := by
  unfold Job.execute jobd job at h
  cases hask : r.ask with
  | read start stop hle =>
    simp only [hask] at h
    obtain ⟨slice, man', -, rfl⟩ := Read.execute_some h
    exact ⟨_, rfl⟩
  | query id =>
    simp only [hask, Option.some.injEq] at h
    rw [← h]
    exact ⟨_, rfl⟩

end Request

/-! What a request has left behind, in the transmissions accepted and the jobs executed. -/

variable (platform : Platform Value) (accepted : List Transmission)
  (executed : List (LogsManager Value × Task Value))

def Client (c : Conn) (r : Request) : Prop := accepted[c]? = some (r.transmission platform)

def Own (jobd : JobDesc Value) (tr : Transmission) : Prop :=
  ∃ man env ex, (man, env, jobd) ∈ executed ∧ Job.execute platform env jobd man = some ex ∧
    tr = Transmission.fromFulfilled platform ex.fulfilled jobd.desc.pid

def Plain (jd : JobDesc Value) : Prop :=
  jd.desc = ⟨0, 0⟩ ∧ ((∃ event, jd.cmd = .broadcast event) ∨ ∃ id reason, jd.cmd = .close id reason)

inductive Queued : JobDesc Value → Prop
  | asked {c : Conn} {r : Request} (hclient : Client platform accepted c r) : Queued r.jobd
  | plain {jd : JobDesc Value} (hplain : Plain jd) : Queued jd

inductive Reply : Transmission → Prop
  | own {c : Conn} {r : Request} {tr : Transmission} (hclient : Client platform accepted c r)
      (hown : Own platform executed r.jobd tr) : Reply tr
  | noise (data : String) : Reply ⟨.outgoing 0, data⟩

inductive Underway : ListenerTask Value → Prop
  | asking {c : Conn} {r : Request} (hclient : Client platform accepted c r) :
      Underway (.received c (r.transmission platform))
  | answered {stream : Conn} {tr : Transmission}
      (hreply : Reply platform accepted executed tr) : Underway (.received stream tr)
  | inserting {c : Conn} {r : Request} (hclient : Client platform accepted c r) :
      Underway (.inserting c r.pid r.jobd)
  | pushing {c : Conn} {r : Request} (hclient : Client platform accepted c r) :
      Underway (.pushing r.jobd)
  | notifying : Underway (.notifying false)
  | replying {c : Conn} {r : Request} {tr : Transmission}
      (hclient : Client platform accepted c r) (hown : Own platform executed r.jobd tr) :
      Underway (.replying (some c) tr)

inductive Busy : Phase Value → Prop
  | idle : Busy .idle
  | woken : Busy .woken
  | executing {jd : JobDesc Value} (empty : Bool) (hqueued : Queued platform accepted jd) :
      Busy (.executing jd empty)
  | replying {tr : Transmission} (hreply : Reply platform accepted executed tr) :
      Busy (.replying tr)

variable {platform accepted executed}

theorem Own.pid {r : Request} {tr : Transmission} (h : Own platform executed r.jobd tr) :
    ∃ data, tr = ⟨.outgoing r.pid, data⟩ := by
  obtain ⟨man, env, ex, -, -, rfl⟩ := h
  exact ⟨_, rfl⟩

/-! More transmissions are accepted and more jobs executed. -/

section Growth

variable {accepted' : List Transmission} {executed' : List (LogsManager Value × Task Value)}

theorem Client.mono (haccepted : accepted <+: accepted') {c : Conn} {r : Request}
    (h : Client platform accepted c r) : Client platform accepted' c r := by
  obtain ⟨more, rfl⟩ := haccepted
  rw [Client, List.getElem?_append_left (List.getElem?_eq_some_iff.mp h).1]
  exact h

theorem Own.mono (hexecuted : executed <+: executed') {jobd : JobDesc Value} {tr : Transmission}
    (h : Own platform executed jobd tr) : Own platform executed' jobd tr := by
  obtain ⟨man, env, ex, hmem, hex, htr⟩ := h
  exact ⟨man, env, ex, hexecuted.mem hmem, hex, htr⟩

theorem Queued.mono (haccepted : accepted <+: accepted') {jd : JobDesc Value}
    (h : Queued platform accepted jd) : Queued platform accepted' jd := by
  cases h with
  | asked hclient => exact .asked (hclient.mono haccepted)
  | plain hplain => exact .plain hplain

theorem Reply.mono (haccepted : accepted <+: accepted') (hexecuted : executed <+: executed')
    {tr : Transmission} (h : Reply platform accepted executed tr) :
    Reply platform accepted' executed' tr := by
  cases h with
  | own hclient hown => exact .own (hclient.mono haccepted) (hown.mono hexecuted)
  | noise data => exact .noise data

theorem Underway.mono (haccepted : accepted <+: accepted') (hexecuted : executed <+: executed')
    {task : ListenerTask Value} (h : Underway platform accepted executed task) :
    Underway platform accepted' executed' task := by
  cases h with
  | asking hclient => exact .asking (hclient.mono haccepted)
  | answered hreply => exact .answered (hreply.mono haccepted hexecuted)
  | inserting hclient => exact .inserting (hclient.mono haccepted)
  | pushing hclient => exact .pushing (hclient.mono haccepted)
  | notifying => exact .notifying
  | replying hclient hown => exact .replying (hclient.mono haccepted) (hown.mono hexecuted)

theorem Busy.mono (haccepted : accepted <+: accepted') (hexecuted : executed <+: executed')
    {phase : Phase Value} (h : Busy platform accepted executed phase) :
    Busy platform accepted' executed' phase := by
  cases h with
  | idle => exact .idle
  | woken => exact .woken
  | executing empty hqueued => exact .executing empty (hqueued.mono haccepted)
  | replying hreply => exact .replying (hreply.mono haccepted hexecuted)

end Growth

/-! Where the requests stand. -/

def named (pid : Pid) : Option Pid := if pid = 0 then none else some pid

def asker : Transmission → Option Pid
  | ⟨.incoming pid, _⟩ => named pid
  | _ => none

def addressee : Transmission → Option Pid
  | ⟨.outgoing pid, _⟩ => named pid
  | _ => none

def onBehalf (jd : JobDesc Value) : Option Pid := named jd.desc.pid

def comer : ListenerTask Value → Option Pid
  | .received _ tr => asker tr
  | .inserting _ pid _ => named pid
  | _ => none

def waiter : ListenerTask Value → Option Pid
  | .received _ tr => addressee tr
  | .pushing jobd => onBehalf jobd
  | _ => none

def leaver : ListenerTask Value → Option Pid
  | .replying _ tr => addressee tr
  | _ => none

def served : Phase Value → Option Pid
  | .executing jd _ => onBehalf jd
  | .replying tr => addressee tr
  | _ => none

def delivery (e : Conn × Transmission) : Option Pid := addressee e.2

def desk (d : Daemon Value) : Desk Pid where
  came := d.accepted.filterMap asker
  arriving := d.tasks.filterMap comer
  waiting := d.tasks.filterMap waiter + (d.list.filterMap onBehalf + (served d.phase).toList)
  leaving := d.tasks.filterMap leaver + d.delivered.filterMap delivery
  registry := d.activeProcesses.keys.toFinset

def taskWeight : ListenerTask Value → Nat
  | .received _ ⟨.incoming _, _⟩ => 10
  | .received .. => 2
  | .inserting .. => 9
  | .pushing _ => 8
  | .acknowledging _ => 8
  | .notifying _ => 2
  | .replying .. => 1

def phaseWeight : Phase Value → Nat
  | .executing .. => 4
  | .replying _ => 3
  | _ => 0

def weight (d : Daemon Value) : Nat :=
  (d.tasks.map taskWeight).sum + 5 * d.list.length + d.tokens + phaseWeight d.phase +
    2 * d.sending.toNat + 2 * d.timers.countP notifyingThread

/-- What is underway comes from requests and their replies, or from the daemon itself. -/
structure Orderly (platform : Platform Value) (d : Daemon Value) : Prop where
  unwatched : d.listeningProcesses = ∅
  tasks : ∀ task ∈ d.tasks, Underway platform d.accepted d.executed task
  list : ∀ jd ∈ d.list, Queued platform d.accepted jd
  phase : Busy platform d.accepted d.executed d.phase
  delivered : ∀ e ∈ d.delivered, ∃ r, Client platform d.accepted e.1 r ∧
    Own platform d.executed r.jobd e.2
  active : ∀ pid c, d.activeProcesses.lookup pid = some c →
    ∃ r, Client platform d.accepted c r ∧ r.pid = pid

@[simp] theorem named_zero : named 0 = none := rfl

@[simp] theorem named_pid (r : Request) : named r.pid = some r.pid := if_neg r.named

@[simp] theorem asker_transmission (platform : Platform Value) (r : Request) :
    asker (r.transmission platform) = some r.pid := named_pid r

@[simp] theorem addressee_transmission (platform : Platform Value) (r : Request) :
    addressee (r.transmission platform) = none := rfl

theorem Plain.onBehalf {jd : JobDesc Value} (h : Plain jd) : onBehalf jd = none := by
  rw [Replies.onBehalf, h.1, named_zero]

theorem Own.addressee {r : Request} {tr : Transmission} (h : Own platform executed r.jobd tr) :
    addressee tr = some r.pid := by
  obtain ⟨data, rfl⟩ := h.pid
  exact named_pid r

theorem Reply.asker {tr : Transmission} (h : Reply platform accepted executed tr) :
    asker tr = none := by
  cases h with
  | own hclient hown =>
    obtain ⟨data, rfl⟩ := hown.pid
    rfl
  | noise data => rfl

theorem Reply.taskWeight {stream : Conn} {tr : Transmission}
    (h : Reply platform accepted executed tr) :
    taskWeight (.received stream tr : ListenerTask Value) = 2 := by
  cases h with
  | own hclient hown =>
    obtain ⟨data, rfl⟩ := hown.pid
    rfl
  | noise data => rfl

theorem start_kept (man : LogsManager Value) (logsFile : Option (List UInt8)) :
    Kept (desk (Daemon.start man logsFile)) :=
  ⟨Multiset.nodup_zero, rfl, rfl⟩

theorem client_unique {d : Daemon Value} (hd : Kept (desk d)) {c c' : Conn} {r r' : Request}
    (h : Client platform d.accepted c r) (h' : Client platform d.accepted c' r')
    (hpid : r.pid = r'.pid) : c = c' := by
  have hnodup : (d.accepted.filterMap asker).Nodup := hd.nodup
  have hpairs := List.pairwise_iff_getElem.mp (List.pairwise_filterMap.mp hnodup)
  obtain ⟨hc, hr⟩ := List.getElem?_eq_some_iff.mp h
  obtain ⟨hc', hr'⟩ := List.getElem?_eq_some_iff.mp h'
  have hasker : asker d.accepted[c] = some r.pid := by rw [hr, asker_transmission]
  have hasker' : asker d.accepted[c'] = some r.pid := by rw [hr', asker_transmission, hpid]
  rcases Nat.lt_trichotomy c c' with hlt | heq | hgt
  · exact absurd rfl (hpairs c c' hc hc' hlt _ hasker _ hasker')
  · exact heq
  · exact absurd rfl (hpairs c' c hc' hc hgt _ hasker' _ hasker)

theorem Orderly.found {d : Daemon Value} (hd : Orderly platform d) (hkept : Kept (desk d))
    {c : Conn} {r : Request} (hclient : Client platform d.accepted c r)
    (hwaiting : r.pid ∈ (desk d).waiting) : d.activeProcesses.lookup r.pid = some c := by
  have hmem : r.pid ∈ d.activeProcesses := List.mem_toFinset.mp (hkept.found hwaiting)
  obtain ⟨c', hc'⟩ := Option.isSome_iff_exists.mp (AList.lookup_isSome.mpr hmem)
  obtain ⟨r', hclient', hpid⟩ := hd.active r.pid c' hc'
  rw [hc', client_unique hkept hclient hclient' hpid.symm]

theorem arrived_step (platform : Platform Value) (written : Bool) (broken : List Pid)
    (d : Daemon Value) (c : Conn) (r : Request) :
    (ListenerTask.received c (r.transmission platform)).step platform written broken d =
      some (d.spawn (.inserting c r.pid r.jobd)) := by
  have hname : (r.jobd : JobDesc Value).cmd.canonicalName ≠ "watch" := by
    unfold Request.jobd Request.job
    cases r.ask <;> simp [Job.canonicalName]
  have hdecoded : (JobDesc.fromStr platform ((r.jobd.toStr platform).getD "")).run =
      some (.ok r.jobd) := congrArg ExceptT.run (r.decoded platform)
  simp only [Request.transmission, ListenerTask.step, hdecoded, if_neg hname]

theorem Orderly.rest {d : Daemon Value} {task : ListenerTask Value}
    (hd : Orderly platform (d.spawn task)) : Orderly platform d :=
  ⟨hd.unwatched, fun t ht => hd.tasks t (List.mem_cons_of_mem task ht), hd.list, hd.phase,
    hd.delivered, hd.active⟩

section Listening

variable {d : Daemon Value} (hd : Orderly platform d) {c : Conn} {r : Request}
  (hclient : Client platform d.accepted c r)

include hd hclient

variable {tr : Transmission} (hown : Own platform d.executed r.jobd tr)

include hown

end Listening

/-- The steps of a run in which clients ask, each under a pid of its own, and every transmission
arrives whole. An expiry finds the clock after the epoch. -/
def Asks (platform : Platform Value) (d : Daemon Value) : Label Value → Prop
  | .connect tr => ∃ r : Request, tr = r.transmission platform ∧ some r.pid ∉ d.accepted.map asker
  | .listen _ written _ => written = true
  | .execute env _ => ∀ id desc empty,
      d.phase = .executing ⟨.close id .expired, desc⟩ empty → env.systemTime ≠ none
  | .reply arrived failed => arrived = true ∨ failed = false
  | _ => True

/-- The write of a result to the listener reports that it went through. It may fail all the same
when the result has arrived, since the listener closes its end as soon as it has read it. -/
def Reported (_ : Daemon Value) : Label Value → Prop
  | .reply _ failed => failed = false
  | _ => True

/-- The log can be written when the list is empty. -/
def Writable (d : Daemon Value) : Label Value → Prop
  | .execute _ disk => ∀ jd, d.phase = .executing jd true → disk = .ok ()
  | _ => True

def Allowed (platform : Platform Value) (d : Daemon Value) (l : Label Value) : Prop :=
  Asks platform d l ∧ Reported d l ∧ Writable d l

/-- The steps the daemon takes by itself. -/
def OwnStep : Label Value → Prop
  | .notify .. | .closeNotification _ | .connect _ | .wake .. => False
  | _ => True

structure Tended (platform : Platform Value) (d : Daemon Value) : Prop where
  counted : Counted d
  steady : Steady d
  orderly : Orderly platform d
  kept : Kept (desk d)

/-- The lookup of a reply finds a connection; the replies delivered are on connections of
their own, each of a client, with the result of its request; and the entry of a client whose
reply was delivered is gone. -/
structure Matched (platform : Platform Value) (d : Daemon Value) : Prop where
  found : ∀ stream pid data, .received stream ⟨.outgoing pid, data⟩ ∈ d.tasks → pid ≠ 0 →
    ∃ c, d.activeProcesses.lookup pid = some c
  unwrapped : ∀ tr, .replying none tr ∉ d.tasks
  once : (d.delivered.map Prod.fst).Nodup
  asked : ∀ c tr, (c, tr) ∈ d.delivered → ∃ r, Client platform d.accepted c r
  own : ∀ c tr r, (c, tr) ∈ d.delivered → Client platform d.accepted c r →
    Own platform d.executed r.jobd tr ∧ d.activeProcesses.lookup r.pid = none

/-- The daemon can do nothing more by itself. -/
def Settled (platform : Platform Value) (d : Daemon Value) : Prop :=
  ∀ l, OwnStep l → Allowed platform d l → d.step platform l = none

/-- Every client has exactly one reply, and no entry is left. -/
structure Answered (platform : Platform Value) (d : Daemon Value) : Prop where
  once : ∀ c r, Client platform d.accepted c r → (d.delivered.map Prod.fst).count c = 1
  cleared : d.activeProcesses = ∅

theorem Client.jobd_unique {c : Conn} {r r' : Request} (h : Client platform accepted c r)
    (h' : Client platform accepted c r') : (r.jobd : JobDesc Value) = r'.jobd := by
  have hdata : (r.jobd.toStr platform).getD "" = (r'.jobd.toStr platform).getD "" :=
    congrArg Transmission.data (Option.some.inj (h.symm.trans h'))
  have hdecoded := r.decoded platform
  rw [hdata, r'.decoded platform] at hdecoded
  exact (Except.ok.inj (Option.some.inj (congrArg ExceptT.run hdecoded))).symm

theorem Client.pid_unique {c : Conn} {r r' : Request} (h : Client platform accepted c r)
    (h' : Client platform accepted c r') : r.pid = r'.pid :=
  congrArg (fun jd => jd.desc.pid) (h.jobd_unique h')

theorem Tended.delivered_nodup {d : Daemon Value} (hd : Tended platform d) :
    (d.delivered.map Prod.fst).Nodup := by
  have hleaving : (d.tasks.filterMap leaver ++ d.delivered.filterMap delivery).Nodup :=
    Multiset.coe_nodup.mp hd.kept.leaving_nodup
  have hpairs := List.pairwise_filterMap.mp hleaving.of_append_right
  refine List.pairwise_map.mpr (List.Pairwise.imp_of_mem ?_ hpairs)
  intro e e' he he' hpids heq
  obtain ⟨r, hclient, hown⟩ := hd.orderly.delivered e he
  obtain ⟨r', hclient', hown'⟩ := hd.orderly.delivered e' he'
  rw [← heq] at hclient'
  exact hpids r.pid hown.addressee r'.pid hown'.addressee (hclient.pid_unique hclient')

theorem Tended.matched {d : Daemon Value} (hd : Tended platform d) : Matched platform d := by
  refine ⟨?_, ?_, hd.delivered_nodup, ?_, ?_⟩
  · intro stream pid data htask hpid
    cases hd.orderly.tasks _ htask with
    | answered hreply =>
      cases hreply with
      | @own c r _ hclient hown =>
        have hwaiting : r.pid ∈ d.tasks.filterMap waiter :=
          List.mem_filterMap.mpr ⟨_, htask, hown.addressee⟩
        obtain ⟨data', htr⟩ := hown.pid
        cases htr
        exact ⟨c, hd.orderly.found hd.kept hclient (by simp [desk, hwaiting])⟩
      | noise => exact absurd rfl hpid
  · intro tr htask
    cases hd.orderly.tasks _ htask
  · intro c tr he
    obtain ⟨r, hclient, -⟩ := hd.orderly.delivered _ he
    exact ⟨r, hclient⟩
  · intro c tr r he hclient
    obtain ⟨r', hclient', hown⟩ := hd.orderly.delivered _ he
    rw [← hclient.jobd_unique hclient'] at hown
    have hmem : r.pid ∈ d.delivered.filterMap delivery :=
      List.mem_filterMap.mpr ⟨(c, tr), he, hown.addressee⟩
    have hgone : r.pid ∉ (desk d).registry := hd.kept.cleared (by simp [desk, hmem])
    refine ⟨hown, AList.lookup_eq_none.mpr fun hkey => hgone ?_⟩
    exact List.mem_toFinset.mpr hkey

/-! At rest. -/

theorem task_moves {d : Daemon Value} {tasks : List (ListenerTask Value)}
    (hd : ∀ task ∈ tasks, Underway platform accepted executed task)
    {task : ListenerTask Value} (htask : Underway platform accepted executed task)
    (htasks : d.tasks = tasks) (hsending : d.sending = false) :
    task.step platform true [] d ≠ none := by
  have hlp : d.tasks.any ListenerTask.holdsLp = false := by
    rw [htasks, List.any_eq_false]
    intro t ht
    cases hd t ht <;> simp [ListenerTask.holdsLp]
  cases htask with
  | asking hclient => simp [arrived_step]
  | answered hreply =>
    cases hreply with
    | @own c r tr hclient hown =>
      obtain ⟨data, rfl⟩ := hown.pid
      simp [ListenerTask.step, r.named]
    | noise data => simp [ListenerTask.step, hlp]
  | inserting hclient => simp [ListenerTask.step]
  | pushing hclient =>
    cases hpoisoned : d.poisoned <;> simp [ListenerTask.step, hsending, hpoisoned]
  | notifying => simp [ListenerTask.step]
  | replying hclient hown => simp [ListenerTask.step]

theorem settled_tasks {d : Daemon Value} (hd : Orderly platform d) (hsending : d.sending = false)
    (hsettled : Settled platform d) : d.tasks = [] := by
  cases htasks : d.tasks with
  | nil => rfl
  | cons task rest =>
    have hall := htasks ▸ hd.tasks
    have hstep := hsettled (.listen 0 true []) trivial ⟨rfl, trivial, trivial⟩
    simp only [Daemon.step, Daemon.listen, htasks] at hstep
    exact absurd hstep (task_moves (List.forall_mem_cons.mp hall).2
      (List.forall_mem_cons.mp hall).1 rfl hsending)

theorem settled_phase {d : Daemon Value} (hd : Steady d) (hsending : d.sending = false)
    (hsettled : Settled platform d) : d.phase = .idle := by
  cases hphase : d.phase with
  | idle => rfl
  | woken =>
    have hstep := hsettled .pop trivial ⟨trivial, trivial, trivial⟩
    simp only [Daemon.step, Daemon.pop, hphase, hsending, hd.2, Bool.false_eq_true,
      if_false] at hstep
    split at hstep <;> cases hstep
  | executing jd empty =>
    have hstep := hsettled (.execute ⟨some ⟨0, 0⟩, 0, .ok (), true, true⟩ (.ok ())) trivial
      ⟨fun _ _ _ _ => by simp, trivial, fun _ _ => rfl⟩
    simp only [Daemon.step, Daemon.execute, hphase] at hstep
    split at hstep <;> cases hstep
  | replying tr =>
    have hstep := hsettled (.reply true false) trivial ⟨Or.inl rfl, rfl, trivial⟩
    simp [Daemon.step, Daemon.reply, hphase] at hstep
  | dead cause =>
    have halive := hd.1
    simp [Daemon.alive, hphase] at halive

theorem settled_timers {d : Daemon Value} (hsettled : Settled platform d) :
    d.timers.countP notifyingThread = 0 := by
  refine List.countP_eq_zero.mpr fun timer htimer hnotifying => ?_
  cases timer with
  | asleep timer snd => cases hnotifying
  | notifying =>
    obtain ⟨i, hi⟩ := List.mem_iff_getElem?.mp htimer
    have hstep := hsettled (.timerSend i) trivial ⟨trivial, trivial, trivial⟩
    simp [Daemon.step, Daemon.timerSend, hi] at hstep

theorem Tended.idle {d : Daemon Value} (hd : Tended platform d) (hsettled : Settled platform d) :
    d.tasks = [] ∧ d.list = [] ∧ d.phase = .idle := by
  have hsending : d.sending = false := by
    by_contra hsending
    have hstep := hsettled .busSend trivial ⟨trivial, trivial, trivial⟩
    simp [Daemon.step, Daemon.busSend, hsending, hd.steady.1] at hstep
  have htasks := settled_tasks hd.orderly hsending hsettled
  have hphase := settled_phase hd.steady hsending hsettled
  have htimers := settled_timers hsettled
  have htokens : d.tokens = 0 := by
    by_contra htokens
    have hstep := hsettled .recv trivial ⟨trivial, trivial, trivial⟩
    simp [Daemon.step, Daemon.recv, hphase, htokens] at hstep
  have hlist : d.list = [] := by
    refine hd.counted.unstranded hd.steady.1 ?_ htokens ?_
    · simp [pending, hsending, htasks, htimers]
    · simp [inHand, hphase]
  exact ⟨htasks, hlist, hphase⟩

theorem Tended.answered {d : Daemon Value} (hd : Tended platform d)
    (hsettled : Settled platform d) : Answered platform d := by
  obtain ⟨htasks, hlist, hphase⟩ := hd.idle hsettled
  have harriving : (desk d).arriving = 0 := by simp [desk, htasks]
  have hwaiting : (desk d).waiting = 0 := by simp [desk, htasks, hlist, hphase, served]
  obtain ⟨hleaving, hregistry⟩ := hd.kept.rest harriving hwaiting
  refine ⟨fun c r hclient => ?_, ?_⟩
  · have hcame : r.pid ∈ (desk d).came := by
      have hmem : r.pid ∈ d.accepted.filterMap asker :=
        List.mem_filterMap.mpr ⟨_, List.mem_of_getElem? hclient, asker_transmission platform r⟩
      simpa [desk] using hmem
    rw [← hleaving] at hcame
    have hmem : r.pid ∈ d.delivered.filterMap delivery := by
      simpa [desk, htasks] using hcame
    obtain ⟨e, he, hpid⟩ := List.mem_filterMap.mp hmem
    obtain ⟨r', hclient', hown⟩ := hd.orderly.delivered e he
    have hsame : r'.pid = r.pid := Option.some.inj (hown.addressee.symm.trans hpid)
    have hconn := client_unique hd.kept hclient' hclient hsame
    exact List.count_eq_one_of_mem hd.delivered_nodup (hconn ▸ List.mem_map_of_mem he)
  · have hkeys : d.activeProcesses.keys = [] := List.toFinset_eq_empty_iff _ |>.mp hregistry
    have hentries : d.activeProcesses.entries = [] := List.map_eq_nil_iff.mp hkeys
    exact AList.ext hentries

def reading : Request := ⟨4, 0, .read 0 10 (by decide), by decide⟩

def asking (disk : Except (List UInt8) Unit) : List (Label Unit) :=
  [.connect (reading.transmission Platform.bare), .listen 0 true [], .listen 0 true [],
    .listen 0 true [], .listen 0 true [], .recv, .pop,
    .execute ⟨some ⟨0, 0⟩, 0, .ok (), true, true⟩ disk]

def answering : List (Label Unit) :=
  asking (.ok ()) ++ [.reply true false, .listen 0 true [], .listen 0 true []]

def querying : Request := ⟨5, 0, .query 1, by decide⟩

def rest (d : Daemon Value) :=
  (d.accepted, d.phase, d.sending, d.tasks, d.timers, d.delivered.map Prod.fst)

end NotifsPiper.Replies

import NotifsPiper.Clients
import NotifsPiper.Watchers

/-! What comes out of the pipe. A result under the pid 0 is written once to each process that
watches all along, whichever tasks and threads it goes through. Among the daemon's own clients
these are the notifications, each as often as it was sent, and the signals. -/

namespace NotifsPiper.Piping

open Runs Origins

variable {Value : Type}

def pipes (tr : Transmission) : List Transmission := if tr.typ = .outgoing 0 then [tr] else []

def taskFlight : ListenerTask Value → List Transmission
  | .received _ tr => pipes tr
  | _ => []

def phaseFlight : Phase Value → List Transmission
  | .replying tr => pipes tr
  | _ => []

/-- The results on their way to the watching processes. -/
def flight (d : Daemon Value) : List Transmission :=
  phaseFlight d.phase ++ d.tasks.flatMap taskFlight

def heard (c : Conn) (d : Daemon Value) : List Transmission :=
  (d.delivered.filter fun e => e.1 = c).map Prod.snd

/-- The result of an executed job, if it is for all that watch. -/
def said (platform : Platform Value) (e : LogsManager Value × Task Value) : List Transmission :=
  (Job.execute platform e.2.1 e.2.2 e.1).elim [] fun ex =>
    (Serial.results platform e.2.2.desc.pid ex.fulfilled).flatMap pipes

def spoken (platform : Platform Value) (d : Daemon Value) : List Transmission :=
  d.executed.flatMap (said platform)

def Registered (pid : Pid) (c : Conn) (d : Daemon Value) : Prop :=
  (d.listeningProcesses.lookup pid).map Prod.fst = some c

instance registered_decidable (pid : Pid) (c : Conn) (d : Daemon Value) :
    Decidable (Registered pid c d) := inferInstanceAs (Decidable (_ = _))

/-- What has been spoken since and was not heard is in flight. -/
def Accounts (platform : Platform Value) (c : Conn) (d d' : Daemon Value) : Prop :=
  ∀ tr, (heard c d').count tr + (flight d').count tr + (spoken platform d).count tr =
    (heard c d).count tr + (flight d).count tr + (spoken platform d').count tr

section Steps

variable {platform : Platform Value} {d d' : Daemon Value} {pid : Pid} {c : Conn}

theorem phase_speaks {l : Label Value} (h : d.step platform l = some d')
    (halive : d'.alive = true) (hl : ∀ arrived failed, l ≠ .reply arrived failed)
    (tr : Transmission) :
    (phaseFlight d'.phase).count tr + (spoken platform d).count tr =
      (phaseFlight d.phase).count tr + (spoken platform d').count tr := by
  by_cases hexecute : ∃ env disk, l = .execute env disk
  · obtain ⟨env, disk, rfl⟩ := hexecute
    obtain ⟨jd, empty, hphase, ⟨-, rfl⟩ | ⟨ex, hex, rfl⟩⟩ := Daemon.execute_outcome h
    · cases halive
    · have hsaid : said platform (d.manager, env, jd) =
          (Serial.results platform jd.desc.pid ex.fulfilled).flatMap pipes := by
        simp only [said, hex, Option.elim_some]
      have hback : ∀ pid fj, phaseFlight (Daemon.sendBack platform pid fj : Phase Value) =
          (Serial.results platform pid fj).flatMap pipes := by
        intro pid fj
        rcases hresult : fj.result with err | (_ | text) <;>
          simp [Daemon.sendBack, Serial.results, hresult, phaseFlight]
      have hflight : ∀ e : Daemon Value,
          (e.conclude platform jd.desc.pid empty ex.fulfilled disk).alive = true →
          phaseFlight (e.conclude platform jd.desc.pid empty ex.fulfilled disk).phase =
            (Serial.results platform jd.desc.pid ex.fulfilled).flatMap pipes := by
        intro e he
        unfold Daemon.conclude at he ⊢
        dsimp only at he ⊢
        split_ifs at he ⊢
        · cases disk with
          | ok => exact hback _ _
          | error left => cases he
        · exact hback _ _
      rw [hflight _ halive, spoken, spoken, (Daemon.conclude_log ..).2.2.1, List.flatMap_append,
        List.count_append, List.flatMap_singleton, hsaid, hphase]
      simp only [phaseFlight, List.count_nil]
      omega
  · have hexecuted : d'.executed = d.executed := by
      rcases Daemon.step_manager h with ⟨-, hexecuted⟩ | ⟨env, disk, jd, hl, -⟩
      · exact hexecuted
      · exact absurd ⟨env, disk, hl⟩ hexecute
    rw [spoken, spoken, hexecuted]
    rcases Daemon.step_still h with hstill | ⟨-, h⟩ | ⟨-, h⟩ | ⟨env, disk, hl, -⟩ |
      ⟨arrived, failed, hreply, -⟩
    · rw [hstill.phase]
    · obtain ⟨hphase, -, rfl⟩ := Daemon.recv_cases h
      simp [hphase, phaseFlight]
    · obtain ⟨hphase, -, ⟨-, rfl⟩ | ⟨-, rfl⟩ | ⟨jd, rest, -, rfl⟩⟩ := Daemon.pop_cases h <;>
        simp [hphase, phaseFlight, Daemon.die]
    · exact absurd ⟨env, disk, hl⟩ hexecute
    · exact absurd hreply (hl arrived failed)

theorem deliver_unheard (written : Bool) {stream : Conn} (hstream : some stream ≠ some c)
    (tr : Transmission) :
    heard c (d.deliver written stream tr) = heard c d ∧
      (d.deliver written stream tr).tasks = d.tasks := by
  have hother : stream ≠ c := fun heq => hstream (congrArg some heq)
  unfold Daemon.deliver
  split_ifs
  · simp [heard, hother]
  · exact ⟨rfl, rfl⟩

theorem Registered.entry (hc : Registered pid c d) :
    ∃ flags, ⟨pid, c, flags⟩ ∈ d.listeningProcesses.entries := by
  obtain ⟨⟨stream, flags⟩, hlookup, hstream⟩ := Option.map_eq_some_iff.mp hc
  obtain rfl : c = stream := hstream.symm
  exact ⟨flags, AList.mem_lookup_iff.mp hlookup⟩

theorem Registered.alone (hc : Registered pid c d) (hd : Routing.Placed d) :
    (Routing.watching d.listeningProcesses).count c = 1 ∧
      ∀ task ∈ d.tasks, Routing.holder task ≠ some c := by
  obtain ⟨flags, hentry⟩ := hc.entry
  have hwatching : 0 < (Routing.watching d.listeningProcesses).count c :=
    List.count_pos_iff.mpr (List.mem_map.mpr ⟨_, hentry, rfl⟩)
  have honce := hd.once c
  rw [Routing.custody] at honce
  refine ⟨by omega, fun task htask hholder => ?_⟩
  have hheld : 0 < (d.tasks.filterMap Routing.holder).count c :=
    List.count_pos_iff.mpr (List.mem_filterMap.mpr ⟨task, htask, hholder⟩)
  omega

theorem written_to {α : Type} (stream : α → Conn) (tr : Transmission) (xs : List α) :
    ((xs.map fun x => (stream x, tr)).filter fun e => e.1 = c).map Prod.snd =
      List.replicate ((xs.map stream).count c) tr := by
  induction xs with
  | nil => rfl
  | cons x xs ih =>
    rw [List.map_cons, List.map_cons, List.count_cons]
    by_cases hx : stream x = c
    · rw [List.filter_cons_of_pos (by simpa using hx), List.map_cons, ih, if_pos (by simpa using hx),
        List.replicate_succ]
    · rw [List.filter_cons_of_neg (by simpa using hx), ih, if_neg (by simpa using hx),
        Nat.add_zero]

theorem broadcast_heard {data : String} {broken : List Pid}
    (honce : (Routing.watching d.listeningProcesses).count c = 1)
    (hc' : Registered pid c (d.broadcast data broken)) :
    heard c (d.broadcast data broken) = heard c d ++ [⟨.outgoing 0, data⟩] := by
  obtain ⟨hlistening, hdelivered⟩ := broadcast_listening d data broken
  obtain ⟨flags, hkept⟩ := hc'.entry
  rw [hlistening, foldl_erase_entries] at hkept
  have hone : ((d.listeningProcesses.entries.filter fun e => e.1 ∉ broken).map
      fun e => e.2.1).count c = 1 := by
    have hless := ((List.filter_sublist (p := fun e => decide (e.1 ∉ broken))
      (l := d.listeningProcesses.entries)).map fun e => e.2.1).count_le c
    have hmore : 0 < ((d.listeningProcesses.entries.filter fun e => e.1 ∉ broken).map
        fun e => e.2.1).count c := List.count_pos_iff.mpr (List.mem_map.mpr ⟨_, hkept, rfl⟩)
    rw [Routing.watching] at honce
    omega
  have hwritten := written_to (c := c) (fun e : Watcher => e.2.1) ⟨.outgoing 0, data⟩
    (d.listeningProcesses.entries.filter fun e => e.1 ∉ broken)
  rw [hone, List.replicate_one] at hwritten
  rw [heard, hdelivered, List.filter_append, List.map_append, hwritten]
  rfl

theorem broadcast_flight (d : Daemon Value) (data : String) (broken : List Pid) :
    (d.broadcast data broken).tasks.flatMap taskFlight = d.tasks.flatMap taskFlight := by
  unfold Daemon.broadcast
  dsimp only
  split_ifs
  · split <;> rfl
  · rfl

theorem task_heard {written : Bool} {broken : List Pid} {task : ListenerTask Value}
    (h : task.step platform written broken d = some d')
    (honce : (Routing.watching d.listeningProcesses).count c = 1)
    (htask : Routing.holder task ≠ some c) (hc' : Registered pid c d') :
    heard c d' ++ d'.tasks.flatMap taskFlight =
      heard c d ++ (taskFlight task ++ d.tasks.flatMap taskFlight) := by
  have hsilent : ∀ pid data, pipes ⟨.incoming pid, data⟩ = [] := fun _ _ => by simp [pipes]
  unfold ListenerTask.step at h
  split at h
  next stream data =>
    cases h
    obtain ⟨hheard, htasks⟩ := deliver_unheard (d := d) written htask
      ⟨.error, "Current architecture wants the client to manage errors."⟩
    rw [hheard, htasks]
    rfl
  next stream pid' data =>
    rw [taskFlight, hsilent, List.nil_append]
    split at h
    · cases h
      rfl
    next err _ =>
      cases h
      obtain ⟨hheard, htasks⟩ := deliver_unheard (d := d) written htask ⟨.error, err.error⟩
      rw [hheard, htasks]
    · split_ifs at h <;> cases h <;> rfl
  next stream pid' data =>
    split_ifs at h with hpid
    · cases h
      subst hpid
      rw [broadcast_heard honce hc', broadcast_flight, List.append_assoc]
      rfl
    · cases h
      have hpipes : pipes ⟨.outgoing pid', data⟩ = [] := by simp [pipes, hpid]
      rw [taskFlight, hpipes]
      rfl
  · cases h
    rfl
  · split_ifs at h <;> cases h <;> rfl
  · split_ifs at h
    · cases h
      rfl
    · split at h <;> cases h <;> rfl
  · split_ifs at h <;> cases h <;> rfl
  · cases h
    rfl
  next stream tr =>
    cases h
    obtain ⟨hheard, htasks⟩ := deliver_unheard (d := d) written htask tr
    rw [hheard, htasks]
    rfl

theorem step_accounts {l : Label Value} (h : d.step platform l = some d')
    (hl : Waiting.Honest l) (hd : Routing.Placed d) (hc : Registered pid c d)
    (hc' : Registered pid c d') (halive : d'.alive = true) : Accounts platform c d d' := by
  intro tr
  by_cases hreply : ∃ arrived failed, l = .reply arrived failed
  · obtain ⟨arrived, failed, rfl⟩ := hreply
    obtain ⟨tr', hphase, ⟨-, rfl⟩ | ⟨-, rfl | rfl⟩⟩ := Daemon.reply_cases h
    · simp [heard, flight, spoken, hphase, phaseFlight, taskFlight, Daemon.accept, Daemon.spawn]
    · cases halive
    · cases halive
  · have hphase := phase_speaks h halive (fun arrived failed hl => hreply ⟨_, _, hl⟩) tr
    simp only [flight, List.count_append]
    rcases Routing.step_listener h with haside | ⟨tr', rfl | ⟨⟨_, _, rfl⟩, -⟩, haside⟩ |
      ⟨i, written, broken, rfl, hlisten⟩
    · have hheard : heard c d' = heard c d := by rw [heard, haside.delivered, heard]
      rw [hheard, haside.tasks]
      omega
    · have hheard : heard c d' = heard c d := by
        rw [heard, haside.delivered]
        rfl
      have htasks : d'.tasks.flatMap taskFlight = d.tasks.flatMap taskFlight := by
        have hnone : pipes tr' = [] := if_neg (hl 0)
        rw [haside.tasks]
        simp [Daemon.accept, Daemon.spawn, taskFlight, hnone]
      rw [hheard, htasks]
      omega
    · exact absurd ⟨_, _, rfl⟩ hreply
    · obtain ⟨task, hi, hlisten⟩ := Option.bind_eq_some_iff.mp hlisten
      obtain ⟨honce, hfree⟩ := hc.alone hd
      have hheard := task_heard hlisten honce (hfree task (List.mem_of_getElem? hi)) hc'
      have hsame : heard c { d with tasks := d.tasks.eraseIdx i } = heard c d := rfl
      have htasks := ((Daemon.perm_cons_eraseIdx hi).flatMap_right taskFlight).count_eq tr
      have hcount := congrArg (List.count tr) hheard
      rw [hsame] at hcount
      simp only [List.count_append, List.flatMap_cons] at hcount htasks
      omega

end Steps

/-- Over a run in which a process watches all along. -/
theorem run_accounts {platform : Platform Value} {pid : Pid} {c : Conn} {d t : Daemon Value}
    {labels : List (Label Value)} (hhonest : ∀ l ∈ labels, Waiting.Honest l)
    (hd : Routing.Placed d ∧ Routing.Routed platform d)
    (hwatching : Always (Daemon.step platform) (Registered pid c) d labels)
    (hrun : run (Daemon.step platform) d labels = some t) (halive : t.alive = true) :
    Accounts platform c d t := by
  induction labels generalizing d with
  | nil =>
    cases hrun
    exact fun _ => rfl
  | cons l labels ih =>
    obtain ⟨hl, hrest⟩ := List.forall_mem_cons.mp hhonest
    obtain ⟨m, hm, hrun⟩ := run_cons_some.mp hrun
    have hlater := hwatching.2 m hm
    have hnext : Registered pid c m := always_iff.mp hlater [] List.nil_prefix m rfl
    have hstep := step_accounts hm hl hd.1 hwatching.1 hnext (run_alive hrun halive)
    have hall := ih hrest (Routing.step_routed hd hm) hlater hrun
    intro tr
    have hfirst := hstep tr
    have hsecond := hall tr
    omega

section Runs

variable {platform : Platform Value} {man : LogsManager Value} {logsFile : Option (List UInt8)}
  {pre post : List (Label Value)} {m d : Daemon Value}

theorem run_executed (hrun : run (Daemon.step platform) m post = some d) :
    m.executed <+: d.executed := by
  refine run_invariant (P := fun s : Daemon Value => m.executed <+: s.executed) ?_
    (List.prefix_refl _) hrun
  intro s l s' hs h
  rcases Daemon.step_manager h with ⟨-, hexecuted⟩ | ⟨env, disk, jd, -, hexec⟩
  · rw [hexecuted]
    exact hs
  · rw [hexec.executed]
    exact hs.trans (List.prefix_append _ _)

theorem rest_flight (hrest : Rest.AtRest platform d) (hcounted : Wakeups.Counted d)
    (halive : d.alive = true) : flight d = [] := by
  obtain ⟨htasks, -, -, hempty⟩ := Rest.rest_empty hcounted hrest
  rw [flight, htasks, (hempty halive).1]
  rfl

end Runs

/-- Once the daemon has come to rest, a process that watches since some moment has got every
result for all of the jobs executed since then, and those that were in flight at that moment,
each once, and nothing else. -/
theorem watchers_hear_all (platform : Platform Value) (man : LogsManager Value)
    (logsFile : Option (List UInt8)) (pre post : List (Label Value)) (m d : Daemon Value)
    (hpre : run (Daemon.step platform) (Daemon.start man logsFile) pre = some m)
    (hpost : run (Daemon.step platform) m post = some d)
    (hhonest : ∀ l ∈ post, Waiting.Honest l) (pid : Pid) (c : Conn)
    (hwatching : Always (Daemon.step platform) (Registered pid c) m post)
    (hrest : Rest.AtRest platform d) (halive : d.alive = true) :
    ∃ since, d.executed = m.executed ++ since ∧
      (heard c d).Perm (heard c m ++ flight m ++ since.flatMap (said platform)) := by
  obtain ⟨since, hsince⟩ := run_executed hpost
  refine ⟨since, hsince.symm, List.perm_iff_count.mpr fun tr => ?_⟩
  have hcounted : Wakeups.Counted d := run_invariant (fun _ _ _ => Wakeups.step_counted)
    (Wakeups.start_counted man logsFile) (run_append_some.mpr ⟨m, hpre, hpost⟩)
  have haccounts := run_accounts hhonest (Routing.run_routed hpre) hwatching hpost halive tr
  rw [rest_flight hrest hcounted halive, spoken, spoken, ← hsince] at haccounts
  simp only [List.flatMap_append, List.count_append, List.count_nil] at haccounts ⊢
  omega

def watching : List (Label Unit) :=
  [.connect (Sub.transmission Platform.bare 4 (.watch true)), .listen 0 true []]

def sent : List (Label Unit) := Identity.notified 0 ++ [.listen 0 true []]

theorem sent_rest {m : Daemon Unit}
    (hm : run (Daemon.step Platform.bare) (Daemon.start (.empty 10) none) watching = some m) :
    Always (Daemon.step Platform.bare) (Registered 4 0) m sent ∧
      ∃ d, run (Daemon.step Platform.bare) m sent = some d ∧ Rest.AtRest Platform.bare d ∧
        d.alive = true ∧ d.poisoned = false := by
  have hwatches : (run (Daemon.step Platform.bare) (Daemon.start (.empty 10) none) watching).map
      (fun m => decide (Always (Daemon.step Platform.bare) (Registered 4 0) m sent)) =
        some true := by decide +kernel
  have hview : (run (Daemon.step Platform.bare) (Daemon.start (.empty 10) none)
      (watching ++ sent)).map (fun d => (d.phase, d.poisoned, d.tasks, d.timers, d.sending)) =
        some (.idle, false, [], [], false) := by decide +kernel
  have hempty : (run (Daemon.step Platform.bare) (Daemon.start (.empty 10) none)
      (watching ++ sent)).map Daemon.tokens = some 0 := by decide +kernel
  obtain ⟨d, hd, hrest, halive, hsound⟩ := Waiting.rests_of_run hview hempty
  rw [hm] at hwatches
  have hrun : run (Daemon.step Platform.bare) m sent = some d := by
    obtain ⟨m', hm', hrun⟩ := run_append_some.mp hd
    rw [hm] at hm'
    cases hm'
    exact hrun
  exact ⟨of_decide_eq_true (Option.some.inj hwatches), d, hrun, hrest, halive, hsound⟩

theorem watchers_hear_all_sent :
    ∃ m d, run (Daemon.step Platform.bare) (Daemon.start (.empty 10) none) watching = some m ∧
      run (Daemon.step Platform.bare) m sent = some d ∧
      ∃ since, d.executed = m.executed ++ since ∧
        (heard 0 d).Perm (heard 0 m ++ flight m ++ since.flatMap (said Platform.bare)) := by
  have hsome : (run (Daemon.step Platform.bare) (Daemon.start (.empty 10) none)
      watching).isSome = true := by decide +kernel
  obtain ⟨m, hm⟩ := Option.isSome_iff_exists.mp hsome
  obtain ⟨hwatching, d, hd, hrest, halive, -⟩ := sent_rest hm
  have hhonest : ∀ l ∈ sent, Waiting.Honest l := by
    intro l hl
    simp only [sent, Identity.notified, List.cons_append, List.nil_append, List.mem_cons,
      List.not_mem_nil, or_false] at hl
    rcases hl with rfl | rfl | rfl | rfl | rfl | rfl | rfl <;> trivial
  exact ⟨m, d, hm, hd, watchers_hear_all Platform.bare (.empty 10) none watching sent m d hm hd
    hhonest 4 0 hwatching hrest halive⟩

/-! Among the daemon's own clients. -/

def note (text : String) : Transmission := ⟨.outgoing 0, "res#" ++ text⟩

def broadcasts : Job Value → Option (NotificationEvent Value)
  | .broadcast event => some event
  | _ => none

def tells (platform : Platform Value) (text : String) (cmd : Job Value) : Bool :=
  (broadcasts cmd).any fun event => platform.eventToString event == text

theorem broadcasts_some {cmd : Job Value} {event : NotificationEvent Value}
    (h : broadcasts cmd = some event) : cmd = .broadcast event := by
  unfold broadcasts at h
  split at h
  · cases h
    rfl
  · cases h

section Own

open Clients

variable {platform : Platform Value} {d d' : Daemon Value}

theorem said_note (hwritten : Results.Written platform)
    {created : List (NotificationEvent Value)} {e : LogsManager Value × Task Value}
    (horigin : Origin created e.2.2) (text : String) :
    (said platform e).count (note text) = [e.2.2.cmd].countP (tells platform text) := by
  obtain ⟨man, env, jd⟩ := e
  have horigin : Origin created jd := horigin
  cases hbroadcasts : broadcasts jd.cmd with
  | some event =>
    have hcmd := broadcasts_some hbroadcasts
    have hdesc : jd.desc = ⟨0, 0⟩ := by
      cases horigin with
      | command sub hown => exact absurd hcmd (sub.job_ne.1 event)
      | _ => rfl
    obtain ⟨timer, -, hexec⟩ := Broadcast.execute_eq platform event env man
    have hsaid : said platform (man, env, jd) = [note (platform.eventToString event)] := by
      simp [said, Job.execute, hcmd, hexec, hdesc, Serial.results, Transmission.fromFulfilled,
        FulfilledJob.toStr, hwritten.event event, pipes, note]
    have hnote : (note (platform.eventToString event) = note text) =
        (platform.eventToString event = text) := by simp [note]
    simp [hsaid, hcmd, tells, broadcasts, hnote, List.count_singleton, List.countP_singleton]
  | none =>
    have hnone : tells platform text jd.cmd = false := by simp [tells, hbroadcasts]
    rw [List.countP_singleton, hnone, if_neg Bool.false_ne_true, List.count_eq_zero]
    intro hmem
    unfold said at hmem
    cases hex : Job.execute platform env jd man with
    | none => simp [hex] at hmem
    | some ex =>
      simp only [hex, Option.elim_some, List.mem_flatMap] at hmem
      obtain ⟨tr, htr, hnote⟩ := hmem
      unfold pipes at hnote
      split_ifs at hnote
      · cases List.mem_singleton.mp hnote
        unfold Serial.results at htr
        split at htr
        · cases htr
        · obtain ⟨htyp, hdata⟩ := Transmission.mk.inj (List.mem_singleton.mp htr)
          have hpid : jd.desc.pid = 0 := (TransmissionType.outgoing.inj htyp).symm
          have hdecoded : FulfilledJob.fromStr (ex.fulfilled.toStr platform) =
              .ok ⟨.ok (some text), .results⟩ := by
            rw [← hdata]
            exact FulfilledJob.fromStr_res text
          obtain ⟨event, -, hcmd, -⟩ := horigin.announces hwritten hex hpid hdecoded
          rw [hcmd] at hbroadcasts
          cases hbroadcasts
      · cases hnote

theorem created_asks {l : Label Value} (hl : Own platform l) (h : d.step platform l = some d') :
    d'.created = d.created ++ (asks platform d l).filterMap broadcasts := by
  have hkept : (∀ call now, l ≠ .notify call now) → d'.created = d.created := by
    intro hnotify
    rcases Daemon.step_created h with hcreated | ⟨call, now, rfl, -⟩
    · exact hcreated
    · exact absurd rfl (hnotify call now)
  cases l with
  | notify call now => exact (Daemon.pushJob_alike h).2.2
  | connect tr =>
    obtain ⟨own, sub, -, htr⟩ := hl
    have hnone : broadcasts (sub.job : Job Value) = none := by
      cases hjob : broadcasts (sub.job : Job Value) with
      | none => rfl
      | some event => exact absurd (broadcasts_some hjob) (sub.job_ne.1 event)
    rw [hkept (by simp), asks, taskAsks_own htr, List.filterMap_cons_none hnone,
      List.filterMap_nil, List.append_nil]
  | execute env disk =>
    have hnone : (armed platform d env).filterMap broadcasts = [] := by
      rw [List.filterMap_eq_nil_iff]
      intro cmd hcmd
      obtain ⟨id, rfl⟩ := armed_expired env cmd hcmd
      rfl
    rw [hkept (by simp), asks, hnone, List.append_nil]
  | closeNotification nid => exact (hkept (by simp)).trans (List.append_nil _).symm
  | _ => exact (hkept (by simp)).trans (List.append_nil _).symm

theorem step_origins (hwritten : Results.Written platform) {l : Label Value}
    (hd : Orderly platform d ∧ ∀ e ∈ d.executed, Origin d.created e.2.2) (hl : Own platform l)
    (h : d.step platform l = some d') :
    Orderly platform d' ∧ ∀ e ∈ d'.executed, Origin d'.created e.2.2 := by
  refine ⟨step_orderly hwritten hd.1 hl h, fun e he => ?_⟩
  rcases Daemon.step_manager h with ⟨-, hexecuted⟩ | ⟨env, disk, jd, -, hexec⟩
  · rw [hexecuted] at he
    exact (hd.2 e he).mono (step_grows h)
  · rw [hexec.executed] at he
    rcases List.mem_append.mp he with he | he
    · exact (hd.2 e he).mono (step_grows h)
    · cases List.mem_singleton.mp he
      obtain ⟨empty, hphase⟩ := hexec.phase
      exact (hd.1.hand jd empty hphase).mono (step_grows h)

theorem start_origins (platform : Platform Value) (man : LogsManager Value)
    (logsFile : Option (List UInt8)) :
    Orderly platform (Daemon.start man logsFile) ∧
      ∀ e ∈ (Daemon.start man logsFile).executed, Origin (Daemon.start man logsFile).created e.2.2 :=
  ⟨⟨fun _ h => (nomatch h), fun _ h => (nomatch h), fun _ _ h => (nomatch h),
    fun _ h => (nomatch h)⟩, fun _ h => nomatch h⟩

theorem said_notes (hwritten : Results.Written platform)
    {created : List (NotificationEvent Value)} {since : List (LogsManager Value × Task Value)}
    (horigins : ∀ e ∈ since, Origin created e.2.2) (text : String) :
    (since.flatMap (said platform)).count (note text) =
      (since.map fun e => e.2.2.cmd).countP (tells platform text) := by
  induction since with
  | nil => rfl
  | cons e since ih =>
    obtain ⟨he, hrest⟩ := List.forall_mem_cons.mp horigins
    rw [List.flatMap_cons, List.count_append, said_note hwritten he, ih hrest, List.map_cons,
      ← List.countP_append, List.singleton_append]

end Own

/-- The purpose of the program. Among the daemon's own clients, a process that watches since some
moment is written each notification that is sent from then on, and each one that is underway at
that moment, as often as it was sent; all of them have come once the daemon is at rest. -/
theorem notifications_piped (platform : Platform Value) (hwritten : Results.Written platform)
    (man : LogsManager Value) (logsFile : Option (List UInt8)) (pre post : List (Label Value))
    (m d : Daemon Value)
    (hpre : run (Daemon.step platform) (Daemon.start man logsFile) pre = some m)
    (hpost : run (Daemon.step platform) m post = some d)
    (hown : ∀ l ∈ pre ++ post, Clients.Own platform l) (pid : Pid) (c : Conn)
    (hwatching : Always (Daemon.step platform) (Registered pid c) m post)
    (hrest : Rest.AtRest platform d) (halive : d.alive = true) (hsound : d.poisoned = false) :
    ∃ sent, d.created = m.created ++ sent ∧ ∀ text,
      (heard c d).count (note text) = (heard c m).count (note text) +
        (flight m).count (note text) + (underway platform m).countP (tells platform text) +
        sent.countP fun event => platform.eventToString event == text := by
  obtain ⟨hownPre, hownPost⟩ := List.forall_mem_append.mp hown
  have hrun := run_append_some.mpr ⟨m, hpre, hpost⟩
  have hcounted : Wakeups.Counted d := run_invariant (fun _ _ _ => Wakeups.step_counted)
    (Wakeups.start_counted man logsFile) hrun
  have hstep : ∀ (s : Daemon Value) l s', Clients.Own platform l → s.step platform l = some s' →
      s'.created = s.created ++ (asks platform s l).filterMap broadcasts :=
    fun _ _ _ hl h => created_asks hl h
  have hcreated : d.created = m.created ++ (asked platform m post).filterMap broadcasts :=
    Queueing.trace_grows (m := Daemon.created) hstep hownPost hpost
  refine ⟨_, hcreated, fun text => ?_⟩
  have hhonest : ∀ l ∈ post, Waiting.Honest l := fun l hl => (hownPost l hl).honest
  obtain ⟨-, horigins⟩ := run_along (fun _ _ _ => step_origins hwritten)
    (start_origins platform man logsFile) (along_of_forall (fun l hl _ => hown l hl) _) hrun
  obtain ⟨since, hsince⟩ := run_executed hpost
  have hsaid := said_notes hwritten
    (fun e he => horigins e (hsince ▸ List.mem_append_right _ he)) text
  have haccounts := run_accounts hhonest (Routing.run_routed hpre) hwatching hpost halive
    (note text)
  rw [rest_flight hrest hcounted halive, spoken, spoken, ← hsince] at haccounts
  simp only [List.flatMap_append, List.count_append, List.count_nil, hsaid] at haccounts
  have hsends : Sends m := run_invariant (fun _ _ _ => step_sends) (start_sends man logsFile) hpre
  have htotal := (run_comes (p := tells platform text) ⟨rfl, fun _ => rfl⟩ hsends hpost).2 halive
    hsound
  obtain ⟨htasks, htimers, -, hempty⟩ := Rest.rest_empty hcounted hrest
  obtain ⟨hphase, hlist⟩ := hempty halive
  have hnothing : underway platform d = [] := by
    simp [underway, hphase, hlist, htasks, htimers, handAsks]
  have hdone : done d = done m ++ since.map fun e => e.2.2.cmd := by
    rw [done, ← hsince, List.map_append, done]
  rw [total, total, hnothing, hdone, List.countP_append, List.countP_nil] at htotal
  have htold : ((asked platform m post).filterMap broadcasts).countP
      (fun event => platform.eventToString event == text) =
        (asked platform m post).countP (tells platform text) := by
    rw [List.countP_filterMap]
    refine List.countP_congr fun cmd _ => ?_
    cases hcmd : broadcasts cmd <;> simp [tells, hcmd]
  omega

theorem notifications_piped_sent :
    ∃ m d, run (Daemon.step Platform.bare) (Daemon.start (.empty 10) none) watching = some m ∧
      run (Daemon.step Platform.bare) m sent = some d ∧
      ∃ since, d.created = m.created ++ since ∧ ∀ text,
        (heard 0 d).count (note text) = (heard 0 m).count (note text) +
          (flight m).count (note text) +
          (underway Platform.bare m).countP (tells Platform.bare text) +
          since.countP fun event => Platform.bare.eventToString event == text := by
  have hsome : (run (Daemon.step Platform.bare) (Daemon.start (.empty 10) none)
      watching).isSome = true := by decide +kernel
  obtain ⟨m, hm⟩ := Option.isSome_iff_exists.mp hsome
  obtain ⟨hwatching, d, hd, hrest, halive, hsound⟩ := sent_rest hm
  have hown : ∀ l ∈ watching ++ sent, Clients.Own Platform.bare l := by
    intro l hl
    simp only [watching, sent, Identity.notified, List.cons_append, List.nil_append,
      List.mem_cons, List.not_mem_nil, or_false] at hl
    rcases hl with rfl | rfl | rfl | rfl | rfl | rfl | rfl | rfl | rfl
    all_goals first | trivial | exact ⟨4, .watch true, by decide, rfl⟩
  exact ⟨m, d, hm, hd, notifications_piped Platform.bare Results.bare_written (.empty 10) none
    watching sent m d hm hd hown 4 0 hwatching hrest halive hsound⟩

end NotifsPiper.Piping

import NotifsPiper.Rest
import NotifsPiper.Routing

/-! Results on their way to who asked for them. What is delivered as the result of a job is one,
as long as no client sends results of its own making; and a client that is still among those
that wait when everything has been done waits for ever, for a job that had nothing to send. -/

namespace NotifsPiper.Waiting

open Runs Serial Wakeups Routing Rest

variable {Value : Type}

/-! Where results come from. -/

section Sources

variable (platform : Platform Value) (accepted : List Transmission)
  (executed : List (LogsManager Value × Task Value))

def Earned (tr : Transmission) : Prop :=
  ∃ man env jd ex, (man, env, jd) ∈ executed ∧ Job.execute platform env jd man = some ex ∧
    ex.fulfilled.result ≠ .ok none ∧
    tr = Transmission.fromFulfilled platform ex.fulfilled jd.desc.pid

/-- The job is one of the daemon itself, or a client asked for it. -/
def Known (jd : JobDesc Value) : Prop :=
  jd.desc = ⟨0, 0⟩ ∨ ∃ c pid, Asks platform accepted c pid jd

variable {platform accepted executed}

theorem Earned.mono {executed' : List (LogsManager Value × Task Value)}
    (h : executed <+: executed') {tr : Transmission} (hearned : Earned platform executed tr) :
    Earned platform executed' tr := by
  obtain ⟨man, env, jd, ex, hmem, hrest⟩ := hearned
  exact ⟨man, env, jd, ex, h.mem hmem, hrest⟩

theorem Known.mono {accepted' : List Transmission} (h : accepted <+: accepted')
    {jd : JobDesc Value} (hknown : Known platform accepted jd) :
    Known platform accepted' jd := by
  rcases hknown with hown | ⟨c, pid, hasks⟩
  · exact Or.inl hown
  · exact Or.inr ⟨c, pid, hasks.mono h⟩

end Sources

/-- Every result underway is that of an executed job, and every job is known. -/
structure Sourced (platform : Platform Value) (d : Daemon Value) : Prop where
  came : ∀ tr ∈ d.accepted, ∀ pid, tr.typ = .outgoing pid → Earned platform d.executed tr
  held : ∀ tr, d.phase = .replying tr → Earned platform d.executed tr
  list : ∀ jd ∈ d.list, Known platform d.accepted jd
  hand : ∀ jd empty, d.phase = .executing jd empty → Known platform d.accepted jd
  done : ∀ e ∈ d.executed, Known platform d.accepted e.2.2

/-- No client sends results. -/
def Honest : Label Value → Prop
  | .connect tr => ∀ pid, tr.typ ≠ .outgoing pid
  | _ => True

theorem sendBack_replying {platform : Platform Value} {pid : Pid} {fj : FulfilledJob}
    {tr : Transmission} (h : Daemon.sendBack platform pid fj = .replying tr) :
    fj.result ≠ .ok none ∧ tr = Transmission.fromFulfilled platform fj pid := by
  unfold Daemon.sendBack at h
  split at h
  · cases h
  next hresult =>
    cases h
    exact ⟨fun hnone => hresult hnone, rfl⟩

theorem conclude_replying {platform : Platform Value} {d : Daemon Value} {pid : Pid}
    {empty : Bool} {fj : FulfilledJob} {disk : Except (List UInt8) Unit} {tr : Transmission}
    (h : (d.conclude platform pid empty fj disk).phase = .replying tr) :
    fj.result ≠ .ok none ∧ tr = Transmission.fromFulfilled platform fj pid := by
  unfold Daemon.conclude at h
  dsimp only at h
  split_ifs at h
  · split at h
    · exact sendBack_replying h
    · cases h
  · exact sendBack_replying h

theorem conclude_not_executing (platform : Platform Value) (d : Daemon Value) (pid : Pid)
    (empty : Bool) (fj : FulfilledJob) (disk : Except (List UInt8) Unit) (jd : JobDesc Value)
    (last : Bool) : (d.conclude platform pid empty fj disk).phase ≠ .executing jd last := by
  have hback : Daemon.sendBack platform pid fj ≠ .executing jd last := by
    unfold Daemon.sendBack
    split <;> simp
  unfold Daemon.conclude
  dsimp only
  split_ifs
  · split
    · exact hback
    · simp [Daemon.die]
  · exact hback

section Steps

variable {platform : Platform Value} {d d' : Daemon Value}

theorem pushes_known (hd : Routed platform d) (l : Label Value) :
    ∀ jd ∈ pushes platform d l, Known platform d.accepted jd := by
  intro jd hjd
  cases pushes_source hjd with
  | client h =>
    cases hd.tasks _ h with | pushing hasks =>
    exact Or.inr ⟨_, _, hasks⟩
  | _ => exact Or.inl rfl

theorem still_sourced (hd : Sourced platform d) (hrouted : Routed platform d) {l : Label Value}
    (hphase : d'.phase = d.phase) (hexecuted : d'.executed = d.executed)
    (hlist : d'.list = d.list ++ pushes platform d l) (hgrown : d.accepted <+: d'.accepted)
    (hcame : ∀ tr ∈ d'.accepted, tr ∉ d.accepted → ∀ pid, tr.typ ≠ .outgoing pid) :
    Sourced platform d' := by
  refine ⟨fun tr htr pid htyp => ?_, ?_, fun jd hjd => ?_, fun jd empty h => ?_, fun e he => ?_⟩
  · rw [hexecuted]
    by_cases hold : tr ∈ d.accepted
    · exact hd.came tr hold pid htyp
    · exact absurd htyp (hcame tr htr hold pid)
  · rw [hphase, hexecuted]
    exact hd.held
  · rw [hlist] at hjd
    rcases List.mem_append.mp hjd with hjd | hjd
    · exact (hd.list jd hjd).mono hgrown
    · exact (pushes_known hrouted l jd hjd).mono hgrown
  · rw [hphase] at h
    exact (hd.hand jd empty h).mono hgrown
  · rw [hexecuted] at he
    exact (hd.done e he).mono hgrown

theorem pop_sourced (hd : Sourced platform d) (h : d.pop = some d') : Sourced platform d' := by
  obtain ⟨-, -, ⟨-, rfl⟩ | ⟨-, rfl⟩ | ⟨jd, rest, hlist, rfl⟩⟩ := Daemon.pop_cases h
  · exact ⟨hd.came, fun _ h => (nomatch h), hd.list, fun _ _ h => (nomatch h), hd.done⟩
  · exact ⟨hd.came, fun _ h => (nomatch h), hd.list, fun _ _ h => (nomatch h), hd.done⟩
  · have hall := hlist ▸ hd.list
    obtain ⟨hjd, hrest⟩ := List.forall_mem_cons.mp hall
    refine ⟨hd.came, fun _ h => (nomatch h), hrest, fun jd' empty h => ?_, hd.done⟩
    cases h
    exact hjd

theorem execute_sourced {env : Env} {disk : Except (List UInt8) Unit} (hd : Sourced platform d)
    (h : d.execute platform env disk = some d') : Sourced platform d' := by
  obtain ⟨jd, empty, hphase, ⟨-, rfl⟩ | ⟨ex, hex, rfl⟩⟩ := Daemon.execute_outcome h
  · exact ⟨hd.came, fun _ h => (nomatch h), hd.list, fun _ _ h => (nomatch h), hd.done⟩
  · generalize hstate : ({ d with
        manager := ex.manager
        timers := (ex.timer.map fun timer =>
          TimerThread.asleep timer ex.manager.notifyer).toList ++ d.timers
        executed := d.executed ++ [(d.manager, env, jd)] } : Daemon Value) = e
    have haside := conclude_aside platform e jd.desc.pid empty ex.fulfilled disk
    have hlist := conclude_list platform e jd.desc.pid empty ex.fulfilled disk
    obtain ⟨-, -, hexecuted, -⟩ := Daemon.conclude_log platform e jd.desc.pid empty
      ex.fulfilled disk
    have hgrown : d.executed <+: e.executed := by
      rw [← hstate]
      exact List.prefix_append _ _
    have haccepted : e.accepted = d.accepted := by rw [← hstate]
    have hkept : e.list = d.list := by rw [← hstate]
    refine ⟨fun tr htr pid htyp => ?_, fun tr htr => ?_, fun jd' hjd' => ?_,
      fun jd' last h => ?_, fun e' he' => ?_⟩
    · rw [haside.accepted, haccepted] at htr
      rw [hexecuted]
      exact (hd.came tr htr pid htyp).mono hgrown
    · obtain ⟨hresult, rfl⟩ := conclude_replying htr
      rw [hexecuted, ← hstate]
      exact ⟨d.manager, env, jd, ex, by simp, hex, hresult, rfl⟩
    · rw [hlist, hkept] at hjd'
      rw [haside.accepted, haccepted]
      exact hd.list jd' hjd'
    · exact absurd h (conclude_not_executing _ _ _ _ _ _ _ _)
    · rw [hexecuted, ← hstate] at he'
      rw [haside.accepted, haccepted]
      rcases List.mem_append.mp he' with he' | he'
      · exact hd.done e' he'
      · cases List.mem_singleton.mp he'
        exact hd.hand jd empty hphase

theorem reply_sourced {arrived failed : Bool} (hd : Sourced platform d)
    (h : d.reply arrived failed = some d') : Sourced platform d' := by
  obtain ⟨tr, hphase, hcases⟩ := Daemon.reply_cases h
  have hgrown : d.accepted <+: d.accepted ++ [tr] := List.prefix_append _ _
  have hcame : ∀ tr' ∈ d.accepted ++ [tr], ∀ pid, tr'.typ = .outgoing pid →
      Earned platform d.executed tr' := by
    intro tr' htr' pid htyp
    rcases List.mem_append.mp htr' with htr' | htr'
    · exact hd.came tr' htr' pid htyp
    · cases List.mem_singleton.mp htr'
      exact hd.held tr hphase
  have hlist : ∀ jd ∈ d.list, Known platform (d.accepted ++ [tr]) jd :=
    fun jd hjd => (hd.list jd hjd).mono hgrown
  have hdone : ∀ e ∈ d.executed, Known platform (d.accepted ++ [tr]) e.2.2 :=
    fun e he => (hd.done e he).mono hgrown
  obtain ⟨-, rfl⟩ | ⟨-, rfl | rfl⟩ := hcases
  · exact ⟨hcame, fun _ h => (nomatch h), hlist, fun _ _ h => (nomatch h), hdone⟩
  · exact ⟨hcame, fun _ h => (nomatch h), hlist, fun _ _ h => (nomatch h), hdone⟩
  · exact ⟨hd.came, fun _ h => (nomatch h), hd.list, fun _ _ h => (nomatch h), hd.done⟩

theorem step_sourced {l : Label Value} (hd : Sourced platform d) (hrouted : Routed platform d)
    (hl : Honest l) (h : d.step platform l = some d') : Sourced platform d' := by
  rcases Daemon.step_still h with hstill | ⟨rfl, h⟩ | ⟨rfl, h⟩ | ⟨env, disk, rfl, h⟩ |
    ⟨arrived, failed, rfl, h⟩
  · cases l with
    | pop => exact pop_sourced hd h
    | execute env disk => exact execute_sourced hd h
    | reply arrived failed => exact reply_sourced hd h
    | connect tr =>
      cases h
      refine still_sourced hd hrouted rfl rfl (still_pushes (l := .connect tr) rfl (by simp))
        (List.prefix_append _ _) fun tr' htr' hnew => ?_
      rcases List.mem_append.mp htr' with htr' | htr'
      · exact absurd htr' hnew
      · cases List.mem_singleton.mp htr'
        exact hl
    | _ =>
      have hpushes := still_pushes h (by simp)
      have haccepted : d'.accepted = d.accepted := by
        rcases step_listener h with haside | ⟨tr, hl | ⟨⟨_, _, hl⟩, -⟩, -⟩ |
          ⟨i, written, broken, -, hlisten⟩
        · exact haside.accepted
        · cases hl
        · cases hl
        · exact (hrouted.listen hlisten).2
      have hexecuted : d'.executed = d.executed := by
        rcases Daemon.step_manager h with ⟨-, hexecuted⟩ | ⟨env, disk, jd, hl, -⟩
        · exact hexecuted
        · cases hl
      refine still_sourced hd hrouted hstill.phase hexecuted hpushes ?_ fun tr htr hnew => ?_
      · rw [haccepted]
      · exact absurd (haccepted ▸ htr) hnew
  · obtain ⟨-, -, rfl⟩ := Daemon.recv_cases h
    exact ⟨hd.came, fun _ h => (nomatch h), hd.list, fun _ _ h => (nomatch h), hd.done⟩
  · exact pop_sourced hd h
  · exact execute_sourced hd h
  · exact reply_sourced hd h

end Steps

/-! Who still waits. -/

def Silent (platform : Platform Value) (executed : List (LogsManager Value × Task Value))
    (jobd : JobDesc Value) : Prop :=
  ∃ man env ex, (man, env, jobd) ∈ executed ∧ Job.execute platform env jobd man = some ex ∧
    ex.fulfilled.result = .ok none

/-- What becomes of the request of a client that waits under `pid`: its result goes elsewhere,
or the job or its result is on the way, or it has none. -/
inductive Pends (platform : Platform Value) (d : Daemon Value) (pid : Pid)
    (jobd : JobDesc Value) : Prop
  | elsewhere (h : pid = 0 ∨ jobd.desc.pid ≠ pid)
  | pushing (h : .pushing jobd ∈ d.tasks)
  | queued (h : jobd ∈ d.list)
  | executing (empty : Bool) (h : d.phase = .executing jobd empty)
  | replying (data : String) (h : d.phase = .replying ⟨.outgoing pid, data⟩)
  | received (stream : Conn) (data : String) (h : .received stream ⟨.outgoing pid, data⟩ ∈ d.tasks)
  | silent (h : Silent platform d.executed jobd)

def waiterOf (d : Daemon Value) (pid : Pid) : Option Conn := d.activeProcesses.lookup pid

/-- Every client that waits does so for a request of its own. -/
def Attended (platform : Platform Value) (d : Daemon Value) : Prop :=
  ∀ entry ∈ d.activeProcesses.entries, ∃ jobd : JobDesc Value,
    Asks platform d.accepted entry.2 entry.1 jobd ∧ Pends platform d entry.1 jobd

section Pending

variable {platform : Platform Value} {d d' : Daemon Value} {pid : Pid} {jobd : JobDesc Value}

theorem Pends.grow (hp : Pends platform d pid jobd) (htasks : ∀ task ∈ d.tasks, task ∈ d'.tasks)
    (hlist : ∀ jd ∈ d.list, jd ∈ d'.list) (hphase : d'.phase = d.phase)
    (hexecuted : d'.executed = d.executed) : Pends platform d' pid jobd := by
  cases hp with
  | elsewhere h => exact .elsewhere h
  | pushing h => exact .pushing (htasks _ h)
  | queued h => exact .queued (hlist _ h)
  | executing empty h => exact .executing empty (hphase.trans h)
  | replying data h => exact .replying data (hphase.trans h)
  | received stream data h => exact .received stream data (htasks _ h)
  | silent h => exact .silent (hexecuted ▸ h)

theorem Attended.grow (hd : Attended platform d) (hgrown : d.accepted <+: d'.accepted)
    (hactive : ∀ entry ∈ d'.activeProcesses.entries, entry ∈ d.activeProcesses.entries)
    (hpends : ∀ pid jobd, Pends platform d pid jobd → Pends platform d' pid jobd) :
    Attended platform d' := by
  intro entry hentry
  obtain ⟨jobd, hasks, hp⟩ := hd entry (hactive entry hentry)
  exact ⟨jobd, hasks.mono hgrown, hpends _ _ hp⟩

theorem recv_pends (h : d.recv = some d') (hp : Pends platform d pid jobd) :
    Pends platform d' pid jobd := by
  obtain ⟨hphase, -, rfl⟩ := Daemon.recv_cases h
  cases hp with
  | elsewhere h => exact .elsewhere h
  | pushing h => exact .pushing h
  | queued h => exact .queued h
  | executing empty h => rw [hphase] at h; cases h
  | replying data h => rw [hphase] at h; cases h
  | received stream data h => exact .received stream data h
  | silent h => exact .silent h

theorem pop_pends (h : d.pop = some d') (halive : d'.alive = true)
    (hp : Pends platform d pid jobd) : Pends platform d' pid jobd := by
  obtain ⟨hphase, -, ⟨-, rfl⟩ | ⟨-, rfl⟩ | ⟨jd, rest, hlist, rfl⟩⟩ := Daemon.pop_cases h
  · cases halive
  · cases halive
  · cases hp with
    | elsewhere h => exact .elsewhere h
    | pushing h => exact .pushing h
    | queued h =>
      rw [hlist] at h
      rcases List.mem_cons.mp h with rfl | h
      · exact .executing _ rfl
      · exact .queued h
    | executing empty h => rw [hphase] at h; cases h
    | replying data h => rw [hphase] at h; cases h
    | received stream data h => exact .received stream data h
    | silent h => exact .silent h

theorem Silent.mono {executed executed' : List (LogsManager Value × Task Value)}
    (h : executed <+: executed') (hsilent : Silent platform executed jobd) :
    Silent platform executed' jobd := by
  obtain ⟨man, env, ex, hmem, hrest⟩ := hsilent
  exact ⟨man, env, ex, h.mem hmem, hrest⟩

theorem conclude_pends (e : Daemon Value) (jd : JobDesc Value) (empty : Bool)
    (fj : FulfilledJob) (disk : Except (List UInt8) Unit)
    (halive : (e.conclude platform jd.desc.pid empty fj disk).alive = true) :
    fj.result = .ok none ∨ ∃ data, (e.conclude platform jd.desc.pid empty fj disk).phase =
      .replying ⟨.outgoing jd.desc.pid, data⟩ := by
  have hback : fj.result = .ok none ∨ ∃ data, Daemon.sendBack platform jd.desc.pid fj =
      .replying ⟨.outgoing jd.desc.pid, data⟩ := by
    unfold Daemon.sendBack
    split
    next hresult => exact Or.inl hresult
    · exact Or.inr ⟨_, rfl⟩
  unfold Daemon.conclude at halive ⊢
  dsimp only at halive ⊢
  split_ifs at halive ⊢
  · split at halive
    · exact hback
    · cases halive
  · exact hback

theorem execute_pends {env : Env} {disk : Except (List UInt8) Unit}
    (h : d.execute platform env disk = some d') (halive : d'.alive = true)
    (hp : Pends platform d pid jobd) : Pends platform d' pid jobd := by
  obtain ⟨jd, empty, hphase, ⟨-, rfl⟩ | ⟨ex, hex, rfl⟩⟩ := Daemon.execute_outcome h
  · cases halive
  · generalize hstate : ({ d with
        manager := ex.manager
        timers := (ex.timer.map fun timer =>
          TimerThread.asleep timer ex.manager.notifyer).toList ++ d.timers
        executed := d.executed ++ [(d.manager, env, jd)] } : Daemon Value) = e at halive ⊢
    have haside := conclude_aside platform e jd.desc.pid empty ex.fulfilled disk
    have hlist := conclude_list platform e jd.desc.pid empty ex.fulfilled disk
    obtain ⟨-, -, hexecuted, -⟩ := Daemon.conclude_log platform e jd.desc.pid empty
      ex.fulfilled disk
    have hgrown : d.executed <+: e.executed := by
      rw [← hstate]
      exact List.prefix_append _ _
    have htasks : e.tasks = d.tasks := by rw [← hstate]
    have hkept : e.list = d.list := by rw [← hstate]
    cases hp with
    | elsewhere h => exact .elsewhere h
    | pushing h => exact .pushing (by rw [haside.tasks, htasks]; exact h)
    | queued h => exact .queued (by rw [hlist, hkept]; exact h)
    | executing last h =>
      obtain ⟨hjobd, -⟩ := Phase.executing.inj (hphase.symm.trans h)
      rw [← hjobd]
      rcases conclude_pends e jd empty ex.fulfilled disk halive with hnone | ⟨data, hreply⟩
      · refine .silent ⟨d.manager, env, ex, ?_, hex, hnone⟩
        rw [hexecuted, ← hstate]
        simp
      · by_cases hpid : jd.desc.pid = pid
        · rw [hpid] at hreply ⊢
          exact .replying data hreply
        · exact .elsewhere (Or.inr hpid)
    | replying data h => rw [hphase] at h; cases h
    | received stream data h =>
      exact .received stream data (by rw [haside.tasks, htasks]; exact h)
    | silent h =>
      refine .silent ?_
      rw [hexecuted]
      exact h.mono hgrown

theorem reply_pends {arrived failed : Bool} (h : d.reply arrived failed = some d')
    (halive : d'.alive = true) (hp : Pends platform d pid jobd) :
    Pends platform d' pid jobd := by
  obtain ⟨tr, hphase, ⟨-, rfl⟩ | ⟨-, rfl | rfl⟩⟩ := Daemon.reply_cases h
  · cases hp with
    | elsewhere h => exact .elsewhere h
    | pushing h => exact .pushing (List.mem_cons_of_mem _ h)
    | queued h => exact .queued h
    | executing empty h => rw [hphase] at h; cases h
    | replying data h =>
      rw [hphase] at h
      cases h
      exact .received d.accepted.length data List.mem_cons_self
    | received stream data h => exact .received stream data (List.mem_cons_of_mem _ h)
    | silent h => exact .silent h
  · cases halive
  · cases halive

theorem Pends.behind {task : ListenerTask Value} (hp : Pends platform (d.spawn task) pid jobd)
    (hpushing : task ≠ .pushing jobd)
    (hreceived : ∀ stream data, task ≠ .received stream ⟨.outgoing pid, data⟩) :
    Pends platform d pid jobd := by
  have hother : ∀ t, t ∈ (d.spawn task).tasks → t ≠ task → t ∈ d.tasks := by
    intro t ht hne
    rcases List.mem_cons.mp ht with rfl | ht
    · exact absurd rfl hne
    · exact ht
  cases hp with
  | elsewhere h => exact .elsewhere h
  | pushing h => exact .pushing (hother _ h fun he => hpushing he.symm)
  | queued h => exact .queued h
  | executing empty h => exact .executing empty h
  | replying data h => exact .replying data h
  | received stream data h =>
    exact .received stream data (hother _ h fun he => hreceived stream data he.symm)
  | silent h => exact .silent h

theorem Attended.behind {task : ListenerTask Value} (hd : Attended platform (d.spawn task))
    (hpushing : ∀ jobd, task ≠ .pushing jobd)
    (hreceived : ∀ stream pid data, pid ≠ 0 → task ≠ .received stream ⟨.outgoing pid, data⟩) :
    Attended platform d := by
  intro entry hentry
  obtain ⟨jobd, hasks, hp⟩ := hd entry hentry
  refine ⟨jobd, hasks, ?_⟩
  by_cases hpid : entry.1 = 0
  · exact .elsewhere (Or.inl hpid)
  · exact hp.behind (hpushing jobd) fun stream data => hreceived stream entry.1 data hpid

theorem Attended.same (hd : Attended platform d) (haccepted : d'.accepted = d.accepted)
    (hactive : d'.activeProcesses = d.activeProcesses) (htasks : ∀ task ∈ d.tasks, task ∈ d'.tasks)
    (hlist : d.list <+: d'.list) (hphase : d'.phase = d.phase)
    (hexecuted : d'.executed = d.executed) : Attended platform d' := by
  refine hd.grow (by rw [haccepted]) (fun _ h => hactive ▸ h) fun _ _ hp => ?_
  exact hp.grow htasks (fun _ h => hlist.mem h) hphase hexecuted

theorem Attended.deliver (hd : Attended platform d) (written : Bool) (stream : Conn)
    (tr : Transmission) : Attended platform (d.deliver written stream tr) := by
  unfold Daemon.deliver
  split_ifs
  · exact hd.same rfl rfl (fun _ h => h) (List.prefix_refl _) rfl rfl
  · exact hd

theorem Attended.spawn (hd : Attended platform d) (task : ListenerTask Value) :
    Attended platform (d.spawn task) :=
  hd.same rfl rfl (fun _ h => List.mem_cons_of_mem task h) (List.prefix_refl _) rfl rfl

theorem Attended.push (hd : Attended platform d) (jd : JobDesc Value) :
    Attended platform (d.push jd) :=
  hd.same rfl rfl (fun _ h => h) (List.prefix_append _ _) rfl rfl

theorem Attended.broadcast (hd : Attended platform d) (data : String) (broken : List Pid) :
    Attended platform (d.broadcast data broken) := by
  unfold Daemon.broadcast
  dsimp only
  split_ifs
  · split
    · exact hd.same rfl rfl (fun _ h => List.mem_cons_of_mem _ h) (List.prefix_refl _) rfl rfl
    · exact hd.same rfl rfl (fun _ h => h) (List.prefix_refl _) rfl rfl
  · exact hd.same rfl rfl (fun _ h => h) (List.prefix_refl _) rfl rfl

theorem mem_erase_ne {active : AList fun _ : Pid => Conn} {pid : Pid}
    {entry : Sigma fun _ : Pid => Conn} (h : entry ∈ (active.erase pid).entries) :
    entry ∈ active.entries ∧ entry.1 ≠ pid := by
  refine ⟨(List.kerase_sublist pid active.entries).subset h, fun hpid => ?_⟩
  have hkey : entry.1 ∈ (active.entries.kerase pid).keys := List.mem_map_of_mem h
  exact List.notMem_keys_kerase pid active.nodupKeys (hpid ▸ hkey)

theorem answered_attended {stream : Conn} {data : String}
    (hd : Attended platform (d.spawn (.received stream ⟨.outgoing pid, data⟩))) :
    Attended platform { d with activeProcesses := d.activeProcesses.erase pid } := by
  intro entry hentry
  obtain ⟨hold, hpid⟩ := mem_erase_ne hentry
  obtain ⟨jobd, hasks, hp⟩ := hd entry hold
  refine ⟨jobd, hasks, Pends.grow (hp.behind (by simp) fun stream' data' he => ?_)
    (fun _ h => h) (fun _ h => h) rfl rfl⟩
  cases he
  exact hpid rfl

theorem inserting_attended {stream : Conn} {jobd : JobDesc Value}
    (hd : Attended platform (d.spawn (.inserting stream pid jobd)))
    (hasks : Asks platform d.accepted stream pid jobd) :
    Attended platform ({ d with activeProcesses := d.activeProcesses.insert pid stream }.spawn
      (.pushing jobd)) := by
  intro entry hentry
  rcases mem_insert_entries hentry with rfl | hentry
  · exact ⟨jobd, hasks, .pushing List.mem_cons_self⟩
  · obtain ⟨jobd', hasks', hp⟩ := (hd.behind (by simp) (by simp)) entry hentry
    exact ⟨jobd', hasks', hp.grow (fun _ h => List.mem_cons_of_mem _ h) (fun _ h => h) rfl rfl⟩

theorem pushing_attended {jobd : JobDesc Value} (hd : Attended platform (d.spawn (.pushing jobd))) :
    Attended platform (d.push jobd) := by
  intro entry hentry
  obtain ⟨jobd', hasks, hp⟩ := hd entry hentry
  refine ⟨jobd', hasks, ?_⟩
  by_cases hsame : jobd' = jobd
  · subst hsame
    exact .queued (List.mem_append_right _ List.mem_cons_self)
  · refine Pends.grow (hp.behind (fun he => hsame ?_) (by simp)) (fun _ h => h)
      (fun _ h => List.mem_append_left _ h) rfl rfl
    exact (ListenerTask.pushing.inj he).symm

theorem task_attended {written : Bool} {broken : List Pid} {task : ListenerTask Value}
    (hd : Attended platform (d.spawn task)) (htask : Follows platform d.accepted task)
    (hpoisoned : d.poisoned = false)
    (h : task.step platform written broken d = some d') : Attended platform d' := by
  unfold ListenerTask.step at h
  split at h
  · cases h
    exact (hd.behind (by simp) (by simp)).deliver _ _ _
  · have hrest : Attended platform d := hd.behind (by simp) (by simp)
    split at h
    · cases h
      exact hrest
    · cases h
      exact hrest.deliver _ _ _
    · split_ifs at h
      · cases h
        exact hrest.same rfl rfl (fun _ h => h) (List.prefix_refl _) rfl rfl
      · cases h
        exact hrest.spawn _
  next stream pid data =>
    split_ifs at h with hpid
    · cases h
      subst hpid
      refine (hd.behind (by simp) fun _ _ _ hpid he => ?_).broadcast _ _
      cases he
      exact hpid rfl
    · cases h
      exact (answered_attended hd).spawn _
  · cases htask with | inserting hasks =>
    cases h
    exact inserting_attended hd hasks
  · simp only [hpoisoned, Bool.false_eq_true, if_false] at h
    split_ifs at h
    cases h
    exact (pushing_attended hd).spawn _
  · have hrest : Attended platform d := hd.behind (by simp) (by simp)
    split_ifs at h
    · cases h
      exact hrest
    · split at h
      · cases h
        exact (hrest.push _).spawn _
      · cases h
        exact hrest.same rfl rfl (fun _ h => h) (List.prefix_refl _) rfl rfl
  · have hrest : Attended platform d := hd.behind (by simp) (by simp)
    split_ifs at h <;> cases h <;>
      exact hrest.same rfl rfl (fun _ h => h) (List.prefix_refl _) rfl rfl
  · cases h
    exact hd.behind (by simp) (by simp)
  · cases h
    exact (hd.behind (by simp) (by simp)).deliver _ _ _

theorem listen_attended {i : Nat} {written : Bool} {broken : List Pid} (hd : Attended platform d)
    (hrouted : Routed platform d) (hpoisoned : d.poisoned = false)
    (h : d.listen platform i written broken = some d') : Attended platform d' := by
  obtain ⟨task, hi, h⟩ := Option.bind_eq_some_iff.mp h
  have hperm := Daemon.perm_cons_eraseIdx hi
  have hfront : Attended platform
      (({ d with tasks := d.tasks.eraseIdx i } : Daemon Value).spawn task) :=
    hd.same rfl rfl (fun _ ht => hperm.mem_iff.mp ht) (List.prefix_refl _) rfl rfl
  have hattended := task_attended hfront (hrouted.tasks task (List.mem_of_getElem? hi)) hpoisoned h
  exact hattended

theorem step_pends {l : Label Value} (hl : ∀ i written broken, l ≠ .listen i written broken)
    (halive : d'.alive = true) (h : d.step platform l = some d')
    (hp : Pends platform d pid jobd) : Pends platform d' pid jobd := by
  cases l with
  | listen i written broken => exact absurd rfl (hl i written broken)
  | recv => exact recv_pends h hp
  | pop => exact pop_pends h halive hp
  | execute env disk => exact execute_pends h halive hp
  | reply arrived failed => exact reply_pends h halive hp
  | connect tr =>
    cases h
    exact hp.grow (fun _ ht => List.mem_cons_of_mem _ ht) (fun _ hjd => hjd) rfl rfl
  | _ =>
    have htasks : d'.tasks = d.tasks := by
      rcases step_listener h with haside | ⟨tr, hl | ⟨⟨_, _, hl⟩, -⟩, -⟩ | ⟨i, written, broken, hl, -⟩
      · exact haside.tasks
      · cases hl
      · cases hl
      · cases hl
    have hphase : d'.phase = d.phase := by
      rcases Daemon.step_still h with hstill | ⟨hl, -⟩ | ⟨hl, -⟩ | ⟨_, _, hl, -⟩ | ⟨_, _, hl, -⟩
      · exact hstill.phase
      all_goals cases hl
    have hexecuted : d'.executed = d.executed := by
      rcases Daemon.step_manager h with ⟨-, hexecuted⟩ | ⟨_, _, _, hl, -⟩
      · exact hexecuted
      · cases hl
    refine hp.grow (fun _ ht => htasks.symm ▸ ht) (fun jd hjd => ?_) hphase hexecuted
    rw [still_pushes h (by simp)]
    exact List.mem_append_left _ hjd

theorem step_attended {l : Label Value} (hd : Attended platform d) (hrouted : Routed platform d)
    (hpoisoned : d.poisoned = false) (halive : d'.alive = true)
    (h : d.step platform l = some d') : Attended platform d' := by
  rcases step_listener h with haside | ⟨tr, hl, haside⟩ | ⟨i, written, broken, rfl, hlisten⟩
  · by_cases hl : ∃ i written broken, l = .listen i written broken
    · obtain ⟨i, written, broken, rfl⟩ := hl
      exact listen_attended hd hrouted hpoisoned h
    · refine hd.grow (by rw [haside.accepted]) (fun _ he => haside.active ▸ he) fun _ _ hp => ?_
      exact step_pends (fun i written broken he => hl ⟨i, written, broken, he⟩) halive h hp
  · have hgrown : d.accepted <+: d'.accepted := by
      rw [haside.accepted]
      exact List.prefix_append _ _
    refine hd.grow hgrown (fun _ he => haside.active ▸ he) fun _ _ hp => ?_
    refine step_pends (fun i written broken he => ?_) halive h hp
    rcases hl with hl | ⟨⟨_, _, hl⟩, -⟩ <;> rw [hl] at he <;> cases he
  · exact listen_attended hd hrouted hpoisoned hlisten

theorem step_alive {l : Label Value} (h : d.step platform l = some d') (halive : d'.alive = true) :
    d.alive = true := by
  rcases Daemon.step_still h with hstill | ⟨-, h⟩ | ⟨-, h⟩ | ⟨_, _, -, h⟩ | ⟨_, _, -, h⟩
  · rw [Daemon.alive, hstill.phase] at halive
    exact halive
  · simp [Daemon.alive, (Daemon.recv_cases h).1]
  · simp [Daemon.alive, (Daemon.pop_cases h).1]
  · obtain ⟨jd, empty, hphase, -⟩ := Daemon.execute_outcome h
    simp [Daemon.alive, hphase]
  · obtain ⟨tr, hphase, -⟩ := Daemon.reply_cases h
    simp [Daemon.alive, hphase]

theorem task_poisoned {written : Bool} {broken : List Pid} {task : ListenerTask Value}
    (hpoisoned : d.poisoned = true) (h : task.step platform written broken d = some d') :
    d'.poisoned = true := by
  have hdeliver : ∀ stream tr, (d.deliver written stream tr).poisoned = true := by
    intro stream tr
    unfold Daemon.deliver
    split_ifs <;> exact hpoisoned
  have hbroadcast : ∀ data, (d.broadcast data broken).poisoned = true := by
    intro data
    unfold Daemon.broadcast
    dsimp only
    split_ifs
    · split <;> exact hpoisoned
    · exact hpoisoned
  unfold ListenerTask.step at h
  split at h
  · cases h; exact hdeliver _ _
  · split at h
    · cases h; exact hpoisoned
    · cases h; exact hdeliver _ _
    · split_ifs at h <;> cases h <;> exact hpoisoned
  · split_ifs at h
    · cases h; exact hbroadcast _
    · cases h; exact hpoisoned
  · cases h; exact hpoisoned
  · split_ifs at h
    cases h; exact hpoisoned
  · split_ifs at h
    cases h; exact hpoisoned
  · split_ifs at h <;> cases h <;> exact hpoisoned
  · cases h; exact hpoisoned
  · cases h; exact hdeliver _ _

theorem conclude_poisoned (e : Daemon Value) (pid : Pid) (empty : Bool) (fj : FulfilledJob)
    (disk : Except (List UInt8) Unit) :
    (e.conclude platform pid empty fj disk).poisoned = e.poisoned := by
  unfold Daemon.conclude
  dsimp only
  split_ifs
  · split <;> rfl
  · rfl

theorem step_poisoned {l : Label Value} (hpoisoned : d.poisoned = true)
    (h : d.step platform l = some d') : d'.poisoned = true := by
  cases l with
  | notify call now =>
    obtain ⟨-, ⟨-, rfl⟩ | ⟨-, rfl⟩⟩ := Daemon.pushJob_cases h <;> exact hpoisoned
  | closeNotification nid =>
    obtain ⟨-, ⟨-, rfl⟩ | ⟨-, rfl⟩⟩ := Daemon.pushJob_cases h <;> exact hpoisoned
  | busSend =>
    obtain ⟨-, ⟨-, rfl⟩ | ⟨-, rfl⟩⟩ := Daemon.busSend_cases h
    · exact hpoisoned
    · rfl
  | connect tr =>
    cases h
    exact hpoisoned
  | listen i written broken =>
    obtain ⟨task, -, h⟩ := Option.bind_eq_some_iff.mp h
    have hrest : ({ d with tasks := d.tasks.eraseIdx i } : Daemon Value).poisoned = true :=
      hpoisoned
    exact task_poisoned hrest h
  | wake i instant =>
    obtain ⟨timer, snd, -, -, -, ⟨-, rfl⟩ | ⟨-, rfl⟩⟩ := Daemon.wake_cases h <;> exact hpoisoned
  | timerSend i =>
    obtain ⟨-, ⟨-, rfl⟩ | ⟨-, rfl⟩⟩ := Daemon.timerSend_cases h <;> exact hpoisoned
  | recv =>
    obtain ⟨-, -, rfl⟩ := Daemon.recv_cases h
    exact hpoisoned
  | pop =>
    obtain ⟨-, -, ⟨-, rfl⟩ | ⟨-, rfl⟩ | ⟨jd, rest, -, rfl⟩⟩ := Daemon.pop_cases h <;>
      exact hpoisoned
  | execute env disk =>
    obtain ⟨jd, empty, -, ⟨-, rfl⟩ | ⟨ex, -, rfl⟩⟩ := Daemon.execute_outcome h
    · exact hpoisoned
    · rw [conclude_poisoned]
      exact hpoisoned
  | reply arrived failed =>
    obtain ⟨tr, -, ⟨-, rfl⟩ | ⟨-, rfl | rfl⟩⟩ := Daemon.reply_cases h <;> exact hpoisoned

theorem sound_before {l : Label Value} (h : d.step platform l = some d')
    (hsound : d'.poisoned = false) : d.poisoned = false := by
  by_contra hpoisoned
  have hafter := step_poisoned (Bool.not_eq_false _ ▸ hpoisoned) h
  exact Bool.noConfusion (hafter.symm.trans hsound)

end Pending

section Runs

variable {platform : Platform Value} {man : LogsManager Value} {logsFile : Option (List UInt8)}
  {labels : List (Label Value)} {d : Daemon Value}

theorem run_sourced (hhonest : ∀ l ∈ labels, Honest l)
    (hrun : run (Daemon.step platform) (Daemon.start man logsFile) labels = some d) :
    Sourced platform d := by
  have hstart : Sourced platform (Daemon.start man logsFile) :=
    ⟨fun _ h => (nomatch h), fun _ h => (nomatch h), fun _ h => (nomatch h),
      fun _ _ h => (nomatch h), fun _ h => (nomatch h)⟩
  have hstep : ∀ (s : Daemon Value) l s', ((Placed s ∧ Routed platform s) ∧ Sourced platform s) →
      Honest l → s.step platform l = some s' →
      (Placed s' ∧ Routed platform s') ∧ Sourced platform s' := fun s l s' hs hl h =>
    ⟨step_routed hs.1 h, step_sourced hs.2 hs.1.2 hl h⟩
  exact (run_along hstep ⟨⟨start_placed man logsFile, start_routed platform man logsFile⟩, hstart⟩
    (along_of_forall (fun l hl _ => hhonest l hl) _) hrun).2

theorem run_attended
    (hrun : run (Daemon.step platform) (Daemon.start man logsFile) labels = some d)
    (halive : d.alive = true) (hpoisoned : d.poisoned = false) : Attended platform d := by
  have hstep : ∀ (s : Daemon Value) l s', ((Placed s ∧ Routed platform s) ∧
      (s.alive = true → s.poisoned = false → Attended platform s)) →
      s.step platform l = some s' → (Placed s' ∧ Routed platform s') ∧
        (s'.alive = true → s'.poisoned = false → Attended platform s') := by
    intro s l s' hs h
    refine ⟨step_routed hs.1 h, fun halive hpoisoned => ?_⟩
    have hbefore := sound_before h hpoisoned
    exact step_attended (hs.2 (step_alive h halive) hbefore) hs.1.2 hbefore halive h
  have hstart : Attended platform (Daemon.start man logsFile) := fun _ h => (nomatch h)
  exact (run_invariant hstep ⟨⟨start_placed man logsFile, start_routed platform man logsFile⟩,
    fun _ _ => hstart⟩ hrun).2 halive hpoisoned

end Runs

/-- In a run in which no client sends results, every result that was delivered is that of an
executed job whose `Desc` names the pid, and the job is the daemon's own or was asked for. -/
theorem answers_earned (platform : Platform Value) (man : LogsManager Value)
    (logsFile : Option (List UInt8)) (labels : List (Label Value)) (d : Daemon Value)
    (hhonest : ∀ l ∈ labels, Honest l)
    (hrun : run (Daemon.step platform) (Daemon.start man logsFile) labels = some d) :
    ∀ c pid data, (c, ⟨.outgoing pid, data⟩) ∈ d.delivered →
      ∃ man env jd ex, (man, env, jd) ∈ d.executed ∧
        Job.execute platform env jd man = some ex ∧ ex.fulfilled.result ≠ .ok none ∧
        jd.desc.pid = pid ∧ data = ex.fulfilled.toStr platform ∧
        Known platform d.accepted jd := by
  intro c pid data hdelivered
  have hsourced := run_sourced hhonest hrun
  have hcame : (⟨.outgoing pid, data⟩ : Transmission) ∈ d.accepted := by
    cases (run_routed hrun).2.delivered _ hdelivered with
    | answer hpid hasks hcame => exact hcame
    | broadcast hwatches hcame => exact hcame
  obtain ⟨man, env, jd, ex, hmem, hex, hresult, htr⟩ := hsourced.came _ hcame pid rfl
  obtain ⟨htyp, rfl⟩ := Transmission.mk.inj htr
  exact ⟨man, env, jd, ex, hmem, hex, hresult, (TransmissionType.outgoing.inj htyp).symm, rfl,
    hsourced.done _ hmem⟩

def answering : List (Label Unit) :=
  crossing ++ [.listen 0 true [], .listen 0 true []]

theorem answers_earned_answering :
    ∃ d, run (Daemon.step Platform.bare) (Daemon.start (.empty 10) none) answering = some d ∧
      ∃ man env jd ex, (man, env, jd) ∈ d.executed ∧
        Job.execute Platform.bare env jd man = some ex ∧ ex.fulfilled.result ≠ .ok none ∧
        jd.desc.pid = 4 ∧ "res#false" = ex.fulfilled.toStr Platform.bare ∧
        Known Platform.bare d.accepted jd := by
  have hview : (run (Daemon.step Platform.bare) (Daemon.start (.empty 10) none) answering).map
      Daemon.delivered = some [(0, ⟨.outgoing 4, "res#false"⟩)] := by decide
  obtain ⟨d, hd, hdelivered⟩ := Option.map_eq_some_iff.mp hview
  have hhonest : ∀ l ∈ answering, Honest l := by
    simp [answering, crossing, Honest]
  exact ⟨d, hd, answers_earned Platform.bare (.empty 10) none answering d hhonest hd 0 4 "res#false"
    (by simp [hdelivered])⟩

/-- When the daemon has come to rest, with its manager thread alive and the lock of the list
sound, a client that is still among those that wait has been written nothing, and its job
had nothing to send or sends its result under another pid than the client's. -/
theorem leftover_waits (platform : Platform Value) (man : LogsManager Value)
    (logsFile : Option (List UInt8)) (labels : List (Label Value)) (d : Daemon Value)
    (hrun : run (Daemon.step platform) (Daemon.start man logsFile) labels = some d)
    (hrest : AtRest platform d) (halive : d.alive = true) (hpoisoned : d.poisoned = false) :
    ∀ pid c, waiterOf d pid = some c → (∀ e ∈ d.delivered, e.1 ≠ c) ∧
      ∃ jobd : JobDesc Value, Asks platform d.accepted c pid jobd ∧
        (pid = 0 ∨ jobd.desc.pid ≠ pid ∨ Silent platform d.executed jobd) := by
  intro pid c hlookup
  have hentry : (⟨pid, c⟩ : Sigma fun _ : Pid => Conn) ∈ d.activeProcesses.entries :=
    AList.mem_lookup_iff.mp hlookup
  obtain ⟨jobd, hasks, hp⟩ := run_attended hrun halive hpoisoned _ hentry
  have hcounted : Counted d :=
    run_invariant (fun _ _ _ => step_counted) (start_counted man logsFile) hrun
  obtain ⟨htasks, -, -, hempty⟩ := rest_empty hcounted hrest
  obtain ⟨hphase, hlist⟩ := hempty halive
  refine ⟨fun e he hc => ?_, jobd, hasks, ?_⟩
  · have hanswered : answered e = some c := by
      obtain ⟨c', tr⟩ := e
      obtain rfl : c' = c := hc
      exact ((run_routed hrun).2.delivered _ he).asking fun pid => hasks.not_watches
    have hcounted : 1 ≤ (d.delivered.filterMap answered).count c :=
      List.count_pos_iff.mpr (List.mem_filterMap.mpr ⟨e, he, hanswered⟩)
    have hwaiting : 1 ≤ (waiting d.activeProcesses).count c :=
      List.count_pos_iff.mpr (List.mem_map.mpr ⟨_, hentry, rfl⟩)
    have honce := (run_routed hrun).1.once c
    rw [custody] at honce
    omega
  · cases hp with
    | elsewhere h => exact h.imp_right Or.inl
    | pushing h => rw [htasks] at h; cases h
    | queued h => rw [hlist] at h; cases h
    | executing empty h => rw [hphase] at h; cases h
    | replying data h => rw [hphase] at h; cases h
    | received stream data h => rw [htasks] at h; cases h
    | silent h => exact Or.inr (Or.inr h)

def unheard : List (Label Unit) :=
  [.connect ⟨.incoming 4, "4#0##close##7#2"⟩, .listen 0 true [], .listen 0 true [],
    .listen 0 true [], .listen 0 true [], .recv, .pop,
    .execute ⟨some ⟨0, 0⟩, 0, .ok (), true, true⟩ (.ok ())]

theorem atRest_of (platform : Platform Value) {d : Daemon Value} (htasks : d.tasks = [])
    (htimers : d.timers = []) (hsending : d.sending = false) (hphase : d.phase = .idle)
    (htokens : d.tokens = 0) : AtRest platform d := by
  intro l hl
  cases l with
  | notify call now => exact hl.elim
  | closeNotification nid => exact hl.elim
  | connect tr => exact hl.elim
  | busSend => simp [Daemon.step, Daemon.busSend, hsending]
  | listen i written broken => simp [Daemon.step, Daemon.listen, htasks]
  | wake i instant => simp [Daemon.step, Daemon.wake, htimers]
  | timerSend i => simp [Daemon.step, Daemon.timerSend, htimers]
  | recv => simp [Daemon.step, Daemon.recv, hphase, htokens]
  | pop => simp [Daemon.step, Daemon.pop, hphase]
  | execute env disk => simp [Daemon.step, Daemon.execute, hphase]
  | reply arrived failed => simp [Daemon.step, Daemon.reply, hphase]

/-- A run at whose end nothing is left to do has come to rest. -/
theorem rests_of_run {platform : Platform Value} {s : Daemon Value} {labels : List (Label Value)}
    (hview : (run (Daemon.step platform) s labels).map (fun d =>
      (d.phase, d.poisoned, d.tasks, d.timers, d.sending)) = some (.idle, false, [], [], false))
    (hempty : (run (Daemon.step platform) s labels).map Daemon.tokens = some 0) :
    ∃ d, run (Daemon.step platform) s labels = some d ∧ AtRest platform d ∧ d.alive = true ∧
      d.poisoned = false := by
  obtain ⟨d, hd, hstate⟩ := Option.map_eq_some_iff.mp hview
  rw [hd] at hempty
  have htokens : d.tokens = 0 := Option.some.inj hempty
  simp only [Prod.mk.injEq] at hstate
  obtain ⟨hphase, hsound, htasks, htimers, hsending⟩ := hstate
  have halive : d.alive = true := by rw [Daemon.alive, hphase]
  exact ⟨d, hd, atRest_of platform htasks htimers hsending hphase htokens, halive, hsound⟩

theorem leftover_waits_unheard :
    ∃ d, run (Daemon.step Platform.bare) (Daemon.start (.empty 10) none) unheard = some d ∧
      waiterOf d 4 = some 0 ∧ (∀ e ∈ d.delivered, e.1 ≠ 0) ∧
      ∃ jobd : JobDesc Unit, Asks Platform.bare d.accepted 0 4 jobd ∧
        ((4 : Pid) = 0 ∨ jobd.desc.pid ≠ 4 ∨ Silent Platform.bare d.executed jobd) := by
  have hview : (run (Daemon.step Platform.bare) (Daemon.start (.empty 10) none) unheard).map
      (fun d => (d.phase, d.poisoned, d.tasks, d.timers, d.sending)) =
        some (.idle, false, [], [], false) := by decide
  have hempty : (run (Daemon.step Platform.bare) (Daemon.start (.empty 10) none) unheard).map
      Daemon.tokens = some 0 := by decide
  have hwaiter : (run (Daemon.step Platform.bare) (Daemon.start (.empty 10) none) unheard).map
      (fun d => waiterOf d 4) = some (some 0) := by decide
  obtain ⟨d, hd, hrest, halive, hpoisoned⟩ := rests_of_run hview hempty
  rw [hd] at hwaiter
  have hlookup : waiterOf d 4 = some 0 := Option.some.inj hwaiter
  exact ⟨d, hd, hlookup, leftover_waits Platform.bare (.empty 10) none unheard d hd hrest halive
    hpoisoned 4 0 hlookup⟩

end NotifsPiper.Waiting

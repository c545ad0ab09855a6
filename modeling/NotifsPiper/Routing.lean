import NotifsPiper.Daemon
import NotifsPiper.Runs

/-! Who gets what from the listener. A connection is in one place at a time: with the task that
handles it, among the clients that wait for a result, or among the watching ones. It leaves
these places for good with the one answer it gets, and what is written to it is an answer to
the request it came with, or a broadcast if that was to watch. -/

namespace NotifsPiper.Routing

open Runs

variable {Value : Type}

/-! Where the connections are. -/

def holder : ListenerTask Value → Option Conn
  | .received stream _ => some stream
  | .inserting stream _ _ => some stream
  | .replying stream _ => stream
  | _ => none

def answered (e : Conn × Transmission) : Option Conn :=
  if e.2.typ = .outgoing 0 then none else some e.1

def waiting (active : AList fun _ : Pid => Conn) : List Conn := active.entries.map Sigma.snd

def watching (listening : AList fun _ : Pid => Conn × FlagsRepr) : List Conn :=
  listening.entries.map fun entry => entry.2.1

/-- In how many places a connection is, the answers written to it counted too. -/
def custody (d : Daemon Value) (c : Conn) : Nat :=
  (d.tasks.filterMap holder).count c + (waiting d.activeProcesses).count c +
    (watching d.listeningProcesses).count c + (d.delivered.filterMap answered).count c

theorem waiting_insert (active : AList fun _ : Pid => Conn) (pid : Pid) (stream c : Conn) :
    (waiting (active.insert pid stream)).count c ≤ [stream].count c + (waiting active).count c := by
  have hrest := ((List.kerase_sublist pid active.entries).map Sigma.snd).count_le c
  change (stream :: (active.entries.kerase pid).map Sigma.snd).count c ≤ _
  rw [List.count_cons, List.count_singleton, waiting]
  omega

theorem watching_insert (listening : AList fun _ : Pid => Conn × FlagsRepr) (pid : Pid)
    (stream : Conn) (flags : FlagsRepr) (c : Conn) :
    (watching (listening.insert pid (stream, flags))).count c ≤
      [stream].count c + (watching listening).count c := by
  have hrest := ((List.kerase_sublist pid listening.entries).map
    fun entry => entry.2.1).count_le c
  change (stream :: (listening.entries.kerase pid).map fun entry => entry.2.1).count c ≤ _
  rw [List.count_cons, List.count_singleton, watching]
  omega

theorem waiting_erase (active : AList fun _ : Pid => Conn) (pid : Pid) (c : Conn) :
    (active.lookup pid).toList.count c + (waiting (active.erase pid)).count c =
      (waiting active).count c := by
  have hentries : ∀ entries : List (Sigma fun _ : Pid => Conn),
      (entries.dlookup pid).toList.count c + ((entries.kerase pid).map Sigma.snd).count c =
        (entries.map Sigma.snd).count c := by
    intro entries
    induction entries with
    | nil => rfl
    | cons entry entries ih =>
      obtain ⟨pid', stream⟩ := entry
      by_cases hpid : pid = pid'
      · subst hpid
        have hrest : List.kerase pid (⟨pid, stream⟩ :: entries) = entries :=
          List.kerase_cons_eq rfl
        rw [List.dlookup_cons_eq, hrest, List.map_cons, List.count_cons, Option.toList_some,
          List.count_singleton, Nat.add_comm]
      · have hrest : List.kerase pid (⟨pid', stream⟩ :: entries) =
            ⟨pid', stream⟩ :: List.kerase pid entries := List.kerase_cons_ne hpid
        have hfound : List.dlookup pid (⟨pid', stream⟩ :: entries) = List.dlookup pid entries :=
          List.dlookup_cons_ne _ _ hpid
        rw [hfound, hrest, List.map_cons, List.map_cons, List.count_cons, List.count_cons, ← ih,
          Nat.add_assoc]
  exact hentries active.entries

theorem watching_erase (listening : AList fun _ : Pid => Conn × FlagsRepr) (old : List Pid)
    (c : Conn) :
    (watching (old.foldl (fun lp pid => lp.erase pid) listening)).count c ≤
      (watching listening).count c := by
  induction old generalizing listening with
  | nil => exact le_refl _
  | cons pid old ih =>
    refine (ih (listening.erase pid)).trans ?_
    exact ((List.kerase_sublist pid listening.entries).map fun entry => entry.2.1).count_le c

theorem custody_spawn (d : Daemon Value) (task : ListenerTask Value) (c : Conn) :
    custody (d.spawn task) c = (holder task).toList.count c + custody d c := by
  cases hholder : holder task with
  | none => simp [custody, Daemon.spawn, hholder]
  | some stream =>
    simp only [custody, Daemon.spawn, List.filterMap_cons, hholder, List.count_cons,
      Option.toList_some, List.count_nil]
    omega

theorem custody_deliver (d : Daemon Value) (written : Bool) (stream : Conn) (tr : Transmission)
    (c : Conn) :
    custody (d.deliver written stream tr) c ≤ [stream].count c + custody d c := by
  unfold Daemon.deliver
  split_ifs
  · have hanswered : ([(stream, tr)].filterMap answered).count c ≤ [stream].count c := by
      unfold answered
      by_cases htyp : tr.typ = .outgoing 0 <;> simp [htyp]
    simp only [custody, List.filterMap_append, List.count_append] at hanswered ⊢
    omega
  · exact Nat.le_add_left _ _

theorem custody_broadcast (d : Daemon Value) (data : String) (broken : List Pid) (c : Conn) :
    custody (d.broadcast data broken) c ≤ custody d c := by
  have hwatching := watching_erase d.listeningProcesses
    (((d.listeningProcesses.entries.partition fun entry => entry.1 ∈ broken).1).map Sigma.fst) c
  have hsilent : ∀ reached : List (Sigma fun _ : Pid => Conn × FlagsRepr),
      (reached.map fun entry => (entry.2.1, (⟨.outgoing 0, data⟩ : Transmission))).filterMap
        answered = [] := by
    intro reached
    simp [List.filterMap_map, answered]
  have hless : ∀ e : Daemon Value, e.tasks.filterMap holder = d.tasks.filterMap holder →
      e.activeProcesses = d.activeProcesses →
      (watching e.listeningProcesses).count c ≤ (watching d.listeningProcesses).count c →
      e.delivered.filterMap answered = d.delivered.filterMap answered →
      custody e c ≤ custody d c := by
    intro e htasks hactive hlistening hdelivered
    simp only [custody, htasks, hactive, hdelivered]
    omega
  unfold Daemon.broadcast
  dsimp only
  split_ifs
  · split
    · refine hless _ ?_ rfl hwatching ?_
      · exact List.filterMap_cons_none rfl
      · simp [Daemon.spawn, hsilent]
    · refine hless _ rfl rfl hwatching ?_
      simp [hsilent]
  · refine hless _ rfl rfl hwatching ?_
    simp [hsilent]

/-- No step of a task brings a connection to one more place, or one more answer. -/
theorem custody_task {platform : Platform Value} {written : Bool} {broken : List Pid}
    {d d' : Daemon Value} {task : ListenerTask Value}
    (h : task.step platform written broken d = some d') (c : Conn) :
    custody d' c ≤ custody (d.spawn task) c := by
  rw [custody_spawn]
  have hdropped : custody d c ≤ (holder task).toList.count c + custody d c := Nat.le_add_left _ _
  unfold ListenerTask.step at h
  split at h
  · cases h
    exact custody_deliver _ _ _ _ _
  next stream pid data =>
    split at h
    · cases h
      exact hdropped
    · cases h
      exact custody_deliver _ _ _ _ _
    next jobd _ =>
      split_ifs at h
      · cases h
        have hinsert := watching_insert d.listeningProcesses pid stream jobd.desc.flags c
        simp only [custody, holder, Option.toList_some] at hinsert ⊢
        omega
      · cases h
        rw [custody_spawn]
        exact le_refl _
  next stream pid data =>
    split_ifs at h
    · cases h
      exact (custody_broadcast _ _ _ _).trans hdropped
    · cases h
      have herase := waiting_erase d.activeProcesses pid c
      rw [custody_spawn]
      simp only [custody, holder] at herase ⊢
      omega
  next stream pid jobd =>
    cases h
    have hinsert := waiting_insert d.activeProcesses pid stream c
    rw [custody_spawn]
    simp only [custody, holder, Option.toList_some, Option.toList_none, List.count_nil] at hinsert ⊢
    omega
  · split_ifs at h
    · cases h
      exact hdropped
    · cases h
      rw [custody_spawn]
      exact le_refl _
  · split_ifs at h
    · cases h
      exact hdropped
    · split at h
      · cases h
        rw [custody_spawn]
        exact le_refl _
      · cases h
        exact hdropped
  · split_ifs at h <;> cases h <;> exact hdropped
  · cases h
    exact hdropped
  · cases h
    exact custody_deliver _ _ _ _ _

/-! The listener's side of a step. -/

structure Aside (d d' : Daemon Value) : Prop where
  tasks : d'.tasks = d.tasks
  active : d'.activeProcesses = d.activeProcesses
  listening : d'.listeningProcesses = d.listeningProcesses
  delivered : d'.delivered = d.delivered
  accepted : d'.accepted = d.accepted

theorem Aside.refl (d : Daemon Value) : Aside d d := ⟨rfl, rfl, rfl, rfl, rfl⟩

theorem pushJob_aside {d d' : Daemon Value} {jd : JobDesc Value} (h : d.pushJob jd = some d') :
    Aside d d' := by
  obtain ⟨-, ⟨-, rfl⟩ | ⟨-, rfl⟩⟩ := Daemon.pushJob_cases h <;> exact ⟨rfl, rfl, rfl, rfl, rfl⟩

theorem conclude_aside (platform : Platform Value) (d : Daemon Value) (pid : Pid) (empty : Bool)
    (fj : FulfilledJob) (disk : Except (List UInt8) Unit) :
    Aside d (d.conclude platform pid empty fj disk) := by
  unfold Daemon.conclude
  dsimp only
  split_ifs
  · split <;> exact ⟨rfl, rfl, rfl, rfl, rfl⟩
  · exact ⟨rfl, rfl, rfl, rfl, rfl⟩

/-- A connection comes, from a client or from the manager thread with its result; a task moves;
or the listener stays as it is. -/
theorem step_listener {platform : Platform Value} {d d' : Daemon Value} {l : Label Value}
    (h : d.step platform l = some d') :
    Aside d d' ∨
      (∃ tr, (l = .connect tr ∨ (∃ arrived failed, l = .reply arrived failed) ∧
        d.phase = .replying tr) ∧ Aside (d.accept tr) d') ∨
      ∃ i written broken, l = .listen i written broken ∧
        d.listen platform i written broken = some d' := by
  cases l with
  | notify call now =>
    have haside := pushJob_aside h
    exact Or.inl ⟨haside.tasks, haside.active, haside.listening, haside.delivered,
      haside.accepted⟩
  | closeNotification nid => exact Or.inl (pushJob_aside h)
  | busSend =>
    obtain ⟨-, ⟨-, rfl⟩ | ⟨-, rfl⟩⟩ := Daemon.busSend_cases h <;>
      exact Or.inl ⟨rfl, rfl, rfl, rfl, rfl⟩
  | connect tr =>
    cases h
    exact Or.inr (Or.inl ⟨tr, Or.inl rfl, Aside.refl _⟩)
  | listen i written broken => exact Or.inr (Or.inr ⟨i, written, broken, rfl, h⟩)
  | wake i instant =>
    obtain ⟨timer, snd, -, -, -, ⟨-, rfl⟩ | ⟨-, rfl⟩⟩ := Daemon.wake_cases h <;>
      exact Or.inl ⟨rfl, rfl, rfl, rfl, rfl⟩
  | timerSend i =>
    obtain ⟨-, ⟨-, rfl⟩ | ⟨-, rfl⟩⟩ := Daemon.timerSend_cases h <;>
      exact Or.inl ⟨rfl, rfl, rfl, rfl, rfl⟩
  | recv =>
    obtain ⟨-, -, rfl⟩ := Daemon.recv_cases h
    exact Or.inl ⟨rfl, rfl, rfl, rfl, rfl⟩
  | pop =>
    obtain ⟨-, -, ⟨-, rfl⟩ | ⟨-, rfl⟩ | ⟨jd, rest, -, rfl⟩⟩ := Daemon.pop_cases h <;>
      exact Or.inl ⟨rfl, rfl, rfl, rfl, rfl⟩
  | execute env disk =>
    obtain ⟨jd, empty, -, ⟨-, rfl⟩ | ⟨ex, -, rfl⟩⟩ := Daemon.execute_outcome h
    · exact Or.inl ⟨rfl, rfl, rfl, rfl, rfl⟩
    · have haside := conclude_aside platform { d with
        manager := ex.manager
        timers := (ex.timer.map fun timer =>
          TimerThread.asleep timer ex.manager.notifyer).toList ++ d.timers
        executed := d.executed ++ [(d.manager, env, jd)] } jd.desc.pid empty ex.fulfilled disk
      exact Or.inl ⟨haside.tasks, haside.active, haside.listening, haside.delivered,
        haside.accepted⟩
  | reply arrived failed =>
    obtain ⟨tr, hphase, ⟨-, rfl⟩ | ⟨-, rfl | rfl⟩⟩ := Daemon.reply_cases h
    · exact Or.inr (Or.inl ⟨tr, Or.inr ⟨⟨_, _, rfl⟩, hphase⟩, rfl, rfl, rfl, rfl, rfl⟩)
    · exact Or.inr (Or.inl ⟨tr, Or.inr ⟨⟨_, _, rfl⟩, hphase⟩, rfl, rfl, rfl, rfl, rfl⟩)
    · exact Or.inl ⟨rfl, rfl, rfl, rfl, rfl⟩

/-! Every connection is in one place, and has come. -/

structure Placed (d : Daemon Value) : Prop where
  once : ∀ c, custody d c ≤ 1
  come : ∀ c, d.accepted.length ≤ c → custody d c = 0

theorem Placed.aside {d d' : Daemon Value} (hd : Placed d) (h : Aside d d') : Placed d' := by
  have hcustody : custody d' = custody d := by
    funext c
    rw [custody, h.tasks, h.active, h.listening, h.delivered, custody]
  refine ⟨fun c => ?_, fun c hc => ?_⟩
  · rw [hcustody]
    exact hd.once c
  · rw [hcustody]
    exact hd.come c (h.accepted ▸ hc)

theorem Placed.accept {d : Daemon Value} (hd : Placed d) (tr : Transmission) :
    Placed (d.accept tr) := by
  have hcustody : ∀ c, custody (d.accept tr) c =
      [d.accepted.length].count c + custody d c := fun c =>
    custody_spawn d (.received d.accepted.length tr) c
  refine ⟨fun c => ?_, fun c hc => ?_⟩
  · rw [hcustody, List.count_singleton]
    by_cases hnew : d.accepted.length = c
    · simp [hnew, hd.come c hnew.le]
    · simp [hnew, hd.once c]
  · have hlength : (d.accept tr).accepted.length = d.accepted.length + 1 := by
      simp [Daemon.accept, Daemon.spawn]
    have hold : d.accepted.length ≠ c := by omega
    rw [hcustody, List.count_singleton]
    simp [hold, hd.come c (by omega)]

theorem Placed.listen {platform : Platform Value} {d d' : Daemon Value} {i : Nat}
    {written : Bool} {broken : List Pid} (hd : Placed d)
    (h : d.listen platform i written broken = some d') (haccepted : d'.accepted = d.accepted) :
    Placed d' := by
  obtain ⟨task, hi, h⟩ := Option.bind_eq_some_iff.mp h
  have hcustody : ∀ c, custody d' c ≤ custody d c := by
    intro c
    have hperm := ((Daemon.perm_cons_eraseIdx hi).filterMap holder).count_eq c
    refine (custody_task h c).trans (le_of_eq ?_)
    simp only [custody, Daemon.spawn, hperm]
  refine ⟨fun c => (hcustody c).trans (hd.once c), fun c hc => ?_⟩
  rw [haccepted] at hc
  exact Nat.le_zero.mp ((hd.come c hc) ▸ hcustody c)

/-! What each connection is owed. -/

section Claims

variable (platform : Platform Value) (accepted : List Transmission)

/-- The connection brought this request, which is not one to watch. -/
def Asks (c : Conn) (pid : Pid) (jobd : JobDesc Value) : Prop :=
  ∃ text, accepted[c]? = some ⟨.incoming pid, text⟩ ∧
    (JobDesc.fromStr platform text).run = some (.ok jobd) ∧ jobd.cmd.canonicalName ≠ "watch"

/-- The connection asked to watch. -/
def Watches (c : Conn) (pid : Pid) : Prop :=
  ∃ text, ∃ jobd : JobDesc Value, accepted[c]? = some ⟨.incoming pid, text⟩ ∧
    (JobDesc.fromStr platform text).run = some (.ok jobd) ∧ jobd.cmd.canonicalName = "watch"

/-- What may be written to a connection: that its transmission or its request is in error; to
one that asked under a pid, what some connection brought for this pid; to one that watches,
what some connection brought for all. -/
inductive Due (c : Conn) : Transmission → Prop
  | refused {data : String} (hsent : accepted[c]? = some ⟨.error, data⟩) :
      Due c ⟨.error, "Current architecture wants the client to manage errors."⟩
  | malformed {pid : Pid} {text : String} {err : PayloadError}
      (hsent : accepted[c]? = some ⟨.incoming pid, text⟩)
      (hdecoded : (JobDesc.fromStr platform text).run = some (.error err)) :
      Due c ⟨.error, err.error⟩
  | answer {pid : Pid} {jobd : JobDesc Value} {data : String} (hpid : pid ≠ 0)
      (hasks : Asks platform accepted c pid jobd) (hcame : ⟨.outgoing pid, data⟩ ∈ accepted) :
      Due c ⟨.outgoing pid, data⟩
  | broadcast {pid : Pid} {data : String} (hwatches : Watches platform accepted c pid)
      (hcame : ⟨.outgoing 0, data⟩ ∈ accepted) : Due c ⟨.outgoing 0, data⟩

/-- What a task of the listener has in hand comes from what the listener accepted. -/
inductive Follows : ListenerTask Value → Prop
  | received {c : Conn} {tr : Transmission} (hsent : accepted[c]? = some tr) :
      Follows (.received c tr)
  | inserting {c : Conn} {pid : Pid} {jobd : JobDesc Value}
      (hasks : Asks platform accepted c pid jobd) : Follows (.inserting c pid jobd)
  | pushing {c : Conn} {pid : Pid} {jobd : JobDesc Value}
      (hasks : Asks platform accepted c pid jobd) : Follows (.pushing jobd)
  | acknowledging (data : String) : Follows (.acknowledging data)
  | notifying (lp : Bool) : Follows (.notifying lp)
  | unclaimed (tr : Transmission) : Follows (.replying none tr)
  | replying {c : Conn} {tr : Transmission} (hdue : Due platform accepted c tr) :
      Follows (.replying (some c) tr)

variable {platform accepted} {accepted' : List Transmission}

theorem sent_mono (h : accepted <+: accepted') {c : Conn} {tr : Transmission}
    (hsent : accepted[c]? = some tr) : accepted'[c]? = some tr := by
  obtain ⟨more, rfl⟩ := h
  rw [List.getElem?_append_left (List.getElem?_eq_some_iff.mp hsent).1]
  exact hsent

theorem Asks.mono (h : accepted <+: accepted') {c : Conn} {pid : Pid} {jobd : JobDesc Value}
    (hasks : Asks platform accepted c pid jobd) : Asks platform accepted' c pid jobd := by
  obtain ⟨text, hsent, hrest⟩ := hasks
  exact ⟨text, sent_mono h hsent, hrest⟩

theorem Watches.mono (h : accepted <+: accepted') {c : Conn} {pid : Pid}
    (hwatches : Watches platform accepted c pid) : Watches platform accepted' c pid := by
  obtain ⟨text, jobd, hsent, hrest⟩ := hwatches
  exact ⟨text, jobd, sent_mono h hsent, hrest⟩

theorem Due.mono (h : accepted <+: accepted') {c : Conn} {tr : Transmission}
    (hdue : Due platform accepted c tr) : Due platform accepted' c tr := by
  cases hdue with
  | refused hsent => exact .refused (sent_mono h hsent)
  | malformed hsent hdecoded => exact .malformed (sent_mono h hsent) hdecoded
  | answer hpid hasks hcame => exact .answer hpid (hasks.mono h) (h.mem hcame)
  | broadcast hwatches hcame => exact .broadcast (hwatches.mono h) (h.mem hcame)

theorem Follows.mono (h : accepted <+: accepted') {task : ListenerTask Value}
    (hfollows : Follows platform accepted task) : Follows platform accepted' task := by
  cases hfollows with
  | received hsent => exact .received (sent_mono h hsent)
  | inserting hasks => exact .inserting (hasks.mono h)
  | pushing hasks => exact .pushing (hasks.mono h)
  | acknowledging data => exact .acknowledging data
  | notifying lp => exact .notifying lp
  | unclaimed tr => exact .unclaimed tr
  | replying hdue => exact .replying (hdue.mono h)

end Claims

/-- Everything the listener holds and everything it has written is in order. -/
structure Routed (platform : Platform Value) (d : Daemon Value) : Prop where
  tasks : ∀ task ∈ d.tasks, Follows platform d.accepted task
  active : ∀ entry ∈ d.activeProcesses.entries, ∃ jobd : JobDesc Value,
    Asks platform d.accepted entry.2 entry.1 jobd
  listening : ∀ entry ∈ d.listeningProcesses.entries,
    Watches platform d.accepted entry.2.1 entry.1
  delivered : ∀ e ∈ d.delivered, Due platform d.accepted e.1 e.2

section Steps

variable {platform : Platform Value} {d d' : Daemon Value}

theorem Routed.aside (hd : Routed platform d) (h : Aside d d') : Routed platform d' := by
  refine ⟨?_, ?_, ?_, ?_⟩
  · rw [h.tasks, h.accepted]
    exact hd.tasks
  · rw [h.active, h.accepted]
    exact hd.active
  · rw [h.listening, h.accepted]
    exact hd.listening
  · rw [h.delivered, h.accepted]
    exact hd.delivered

theorem Routed.accept (hd : Routed platform d) (tr : Transmission) :
    Routed platform (d.accept tr) := by
  have hgrown : d.accepted <+: d.accepted ++ [tr] := List.prefix_append _ _
  refine ⟨?_, fun entry hentry => ?_, fun entry hentry => ?_, fun e he => ?_⟩
  · refine List.forall_mem_cons.mpr ⟨.received ?_, fun task htask => ?_⟩
    · change (d.accepted ++ [tr])[d.accepted.length]? = some tr
      simp
    · exact (hd.tasks task htask).mono hgrown
  · obtain ⟨jobd, hasks⟩ := hd.active entry hentry
    exact ⟨jobd, hasks.mono hgrown⟩
  · exact (hd.listening entry hentry).mono hgrown
  · exact (hd.delivered e he).mono hgrown

theorem Routed.spawn (hd : Routed platform d) {task : ListenerTask Value}
    (htask : Follows platform d.accepted task) : Routed platform (d.spawn task) :=
  ⟨List.forall_mem_cons.mpr ⟨htask, hd.tasks⟩, hd.active, hd.listening, hd.delivered⟩

theorem Routed.push (hd : Routed platform d) (jd : JobDesc Value) : Routed platform (d.push jd) :=
  ⟨hd.tasks, hd.active, hd.listening, hd.delivered⟩

theorem Routed.deliver (hd : Routed platform d) (written : Bool) {stream : Conn}
    {tr : Transmission} (hdue : Due platform d.accepted stream tr) :
    Routed platform (d.deliver written stream tr) := by
  unfold Daemon.deliver
  split_ifs
  · refine ⟨hd.tasks, hd.active, hd.listening, fun e he => ?_⟩
    rcases List.mem_append.mp he with he | he
    · exact hd.delivered e he
    · cases List.mem_singleton.mp he
      exact hdue
  · exact hd

theorem mem_erased {β : Type} {listening : AList fun _ : Pid => β} {old : List Pid}
    {entry : Sigma fun _ : Pid => β}
    (h : entry ∈ (old.foldl (fun lp pid => lp.erase pid) listening).entries) :
    entry ∈ listening.entries := by
  induction old generalizing listening with
  | nil => exact h
  | cons pid old ih => exact (List.kerase_sublist pid listening.entries).subset (ih h)

theorem Routed.broadcast (hd : Routed platform d) {data : String} (broken : List Pid)
    (hcame : ⟨.outgoing 0, data⟩ ∈ d.accepted) : Routed platform (d.broadcast data broken) := by
  have hreached : ∀ e ∈ d.delivered ++
      ((d.listeningProcesses.entries.partition fun entry => entry.1 ∈ broken).2).map fun entry =>
        (entry.2.1, (⟨.outgoing 0, data⟩ : Transmission)),
      Due platform d.accepted e.1 e.2 := by
    intro e he
    rcases List.mem_append.mp he with he | he
    · exact hd.delivered e he
    · obtain ⟨entry, hentry, rfl⟩ := List.mem_map.mp he
      rw [List.partition_eq_filter_filter] at hentry
      exact .broadcast (hd.listening entry (List.mem_of_mem_filter hentry)) hcame
  have hrest : ∀ e : Daemon Value, e.tasks = d.tasks → e.activeProcesses = d.activeProcesses →
      e.accepted = d.accepted →
      (∀ entry ∈ e.listeningProcesses.entries, entry ∈ d.listeningProcesses.entries) →
      (∀ e' ∈ e.delivered, Due platform d.accepted e'.1 e'.2) → Routed platform e := by
    intro e htasks hactive haccepted hlistening hdelivered
    refine ⟨?_, ?_, fun entry hentry => ?_, ?_⟩
    · rw [htasks, haccepted]
      exact hd.tasks
    · rw [hactive, haccepted]
      exact hd.active
    · rw [haccepted]
      exact hd.listening entry (hlistening entry hentry)
    · rw [haccepted]
      exact hdelivered
  unfold Daemon.broadcast
  dsimp only
  split_ifs
  · split
    · refine Routed.spawn ?_ (.acknowledging _)
      exact hrest _ rfl rfl rfl (fun _ h => mem_erased h) hreached
    · exact hrest _ rfl rfl rfl (fun _ h => mem_erased h) hreached
  · exact hrest _ rfl rfl rfl (fun _ h => mem_erased h) hreached

theorem mem_insert_entries {β : Type} {table : AList fun _ : Pid => β} {pid : Pid} {b : β}
    {entry : Sigma fun _ : Pid => β} (h : entry ∈ (table.insert pid b).entries) :
    entry = ⟨pid, b⟩ ∨ entry ∈ table.entries := by
  change entry ∈ ⟨pid, b⟩ :: table.entries.kerase pid at h
  rcases List.mem_cons.mp h with rfl | h
  · exact Or.inl rfl
  · exact Or.inr ((List.kerase_sublist pid table.entries).subset h)

theorem deliver_accepted (d : Daemon Value) (written : Bool) (stream : Conn) (tr : Transmission) :
    (d.deliver written stream tr).accepted = d.accepted := by
  unfold Daemon.deliver
  split_ifs <;> rfl

theorem broadcast_accepted (d : Daemon Value) (data : String) (broken : List Pid) :
    (d.broadcast data broken).accepted = d.accepted := by
  unfold Daemon.broadcast
  dsimp only
  split_ifs
  · split <;> rfl
  · rfl

theorem task_routed {written : Bool} {broken : List Pid} {task : ListenerTask Value}
    (hd : Routed platform d) (htask : Follows platform d.accepted task)
    (h : task.step platform written broken d = some d') :
    Routed platform d' ∧ d'.accepted = d.accepted := by
  unfold ListenerTask.step at h
  split at h
  next stream data =>
    cases htask with | received hsent =>
    cases h
    exact ⟨hd.deliver _ (.refused hsent), deliver_accepted _ _ _ _⟩
  next stream pid data =>
    cases htask with | received hsent =>
    split at h
    · cases h
      exact ⟨hd, rfl⟩
    next err herr =>
      cases h
      exact ⟨hd.deliver _ (.malformed hsent herr), deliver_accepted _ _ _ _⟩
    next jobd hjobd =>
      split_ifs at h with hname
      · cases h
        refine ⟨⟨hd.tasks, hd.active, fun entry hentry => ?_, hd.delivered⟩, rfl⟩
        rcases mem_insert_entries hentry with rfl | hentry
        · exact ⟨data, jobd, hsent, hjobd, hname⟩
        · exact hd.listening entry hentry
      · cases h
        exact ⟨hd.spawn (.inserting ⟨data, hsent, hjobd, hname⟩), rfl⟩
  next stream pid data =>
    cases htask with | received hsent =>
    have hcame := List.mem_of_getElem? hsent
    split_ifs at h with hpid
    · cases h
      subst hpid
      exact ⟨hd.broadcast broken hcame, broadcast_accepted _ _ _⟩
    · cases h
      have hrest : Routed platform { d with activeProcesses := d.activeProcesses.erase pid } :=
        ⟨hd.tasks, fun entry hentry => hd.active entry
          ((List.kerase_sublist pid d.activeProcesses.entries).subset hentry),
          hd.listening, hd.delivered⟩
      refine ⟨hrest.spawn ?_, rfl⟩
      cases hlookup : d.activeProcesses.lookup pid with
      | none => exact .unclaimed _
      | some c =>
        obtain ⟨jobd, hasks⟩ := hd.active ⟨pid, c⟩ (AList.mem_lookup_iff.mp hlookup)
        exact .replying (.answer hpid hasks hcame)
  next stream pid jobd =>
    cases htask with | inserting hasks =>
    cases h
    have hinserted : Routed platform
        { d with activeProcesses := d.activeProcesses.insert pid stream } := by
      refine ⟨hd.tasks, fun entry hentry => ?_, hd.listening, hd.delivered⟩
      rcases mem_insert_entries hentry with rfl | hentry
      · exact ⟨jobd, hasks⟩
      · exact hd.active entry hentry
    exact ⟨hinserted.spawn (.pushing hasks), rfl⟩
  next jobd =>
    split_ifs at h
    · cases h
      exact ⟨hd, rfl⟩
    · cases h
      exact ⟨(hd.push jobd).spawn (.notifying _), rfl⟩
  next data =>
    split_ifs at h
    · cases h
      exact ⟨hd, rfl⟩
    · split at h
      · cases h
        exact ⟨(hd.push _).spawn (.notifying _), rfl⟩
      · cases h
        exact ⟨⟨hd.tasks, hd.active, hd.listening, hd.delivered⟩, rfl⟩
  · split_ifs at h <;> cases h <;>
      exact ⟨⟨hd.tasks, hd.active, hd.listening, hd.delivered⟩, rfl⟩
  · cases h
    exact ⟨hd, rfl⟩
  next stream tr =>
    cases htask with | replying hdue =>
    cases h
    exact ⟨hd.deliver _ hdue, deliver_accepted _ _ _ _⟩

theorem Routed.listen {i : Nat} {written : Bool} {broken : List Pid} (hd : Routed platform d)
    (h : d.listen platform i written broken = some d') :
    Routed platform d' ∧ d'.accepted = d.accepted := by
  obtain ⟨task, hi, h⟩ := Option.bind_eq_some_iff.mp h
  have hrest : Routed platform { d with tasks := d.tasks.eraseIdx i } :=
    ⟨fun t ht => hd.tasks t (List.mem_of_mem_eraseIdx ht), hd.active, hd.listening, hd.delivered⟩
  have hrouted := task_routed hrest (hd.tasks task (List.mem_of_getElem? hi)) h
  exact hrouted

theorem step_routed {l : Label Value} (hd : Placed d ∧ Routed platform d)
    (h : d.step platform l = some d') : Placed d' ∧ Routed platform d' := by
  rcases step_listener h with haside | ⟨tr, -, haside⟩ | ⟨i, written, broken, rfl, hlisten⟩
  · exact ⟨hd.1.aside haside, hd.2.aside haside⟩
  · exact ⟨(hd.1.accept tr).aside haside, (hd.2.accept tr).aside haside⟩
  · obtain ⟨hrouted, haccepted⟩ := hd.2.listen hlisten
    exact ⟨hd.1.listen hlisten haccepted, hrouted⟩

end Steps

theorem start_placed (man : LogsManager Value) (logsFile : Option (List UInt8)) :
    Placed (Daemon.start man logsFile) :=
  ⟨fun _ => Nat.zero_le 1, fun _ _ => rfl⟩

theorem start_routed (platform : Platform Value) (man : LogsManager Value)
    (logsFile : Option (List UInt8)) : Routed platform (Daemon.start man logsFile) :=
  ⟨fun _ h => (nomatch h), fun _ h => (nomatch h), fun _ h => (nomatch h),
    fun _ h => (nomatch h)⟩

theorem run_routed {platform : Platform Value} {man : LogsManager Value}
    {logsFile : Option (List UInt8)} {labels : List (Label Value)} {d : Daemon Value}
    (hrun : run (Daemon.step platform) (Daemon.start man logsFile) labels = some d) :
    Placed d ∧ Routed platform d :=
  run_invariant (P := fun d => Placed d ∧ Routed platform d) (fun _ _ _ => step_routed)
    ⟨start_placed man logsFile, start_routed platform man logsFile⟩ hrun

section Dues

variable {platform : Platform Value} {accepted : List Transmission} {c : Conn}
  {tr : Transmission}

theorem Asks.not_watches {pid pid' : Pid} {jobd : JobDesc Value}
    (hasks : Asks platform accepted c pid jobd) : ¬ Watches platform accepted c pid' := by
  rintro ⟨text, jobd', hsent, hjobd, hname⟩
  obtain ⟨text', hsent', hjobd', hname'⟩ := hasks
  rw [hsent] at hsent'
  cases hsent'
  rw [hjobd] at hjobd'
  cases hjobd'
  exact hname' hname

theorem Due.watching {pid : Pid} (hdue : Due platform accepted c tr)
    (hwatches : Watches platform accepted c pid) : tr.typ = .outgoing 0 := by
  cases hdue with
  | refused hsent' =>
    obtain ⟨text, jobd, hsent, -⟩ := hwatches
    rw [hsent] at hsent'
    cases hsent'
  | malformed hsent' hdecoded =>
    obtain ⟨text, jobd, hsent, hjobd, -⟩ := hwatches
    rw [hsent] at hsent'
    cases hsent'
    rw [hjobd] at hdecoded
    cases hdecoded
  | answer hpid hasks hcame => exact absurd hwatches hasks.not_watches
  | broadcast hwatches hcame => rfl

theorem Due.asking (hdue : Due platform accepted c tr)
    (hasks : ∀ pid, ¬ Watches platform accepted c pid) : answered (c, tr) = some c := by
  cases hdue with
  | answer hpid hasks hcame => simp [answered, hpid]
  | broadcast hwatches hcame => exact absurd hwatches (hasks _)
  | _ => rfl

end Dues

theorem filter_length_le {c : Conn} {delivered : List (Conn × Transmission)}
    (h : ∀ e ∈ delivered, e.1 = c → answered e = some c) :
    (delivered.filter fun e => e.1 = c).length ≤ (delivered.filterMap answered).count c := by
  induction delivered with
  | nil => exact Nat.zero_le _
  | cons e delivered ih =>
    obtain ⟨hhead, hrest⟩ := List.forall_mem_cons.mp h
    have hless := ih hrest
    by_cases hc : e.1 = c
    · rw [List.filter_cons_of_pos (by simpa using hc), List.filterMap_cons_some (hhead hc),
        List.count_cons_self, List.length_cons]
      omega
    · rw [List.filter_cons_of_neg (by simpa using hc)]
      refine hless.trans ?_
      rw [List.filterMap_cons]
      split
      · exact le_refl _
      · exact List.count_le_count_cons

/-- What was written to a connection is its due. A watching connection gets broadcasts only, and
any other gets one transmission at most. -/
def Dealt (platform : Platform Value) (d : Daemon Value) : Prop :=
  (∀ e ∈ d.delivered, Due platform d.accepted e.1 e.2) ∧
    (∀ c pid, Watches platform d.accepted c pid → ∀ tr, (c, tr) ∈ d.delivered →
      tr.typ = .outgoing 0) ∧
    ∀ c, (∀ pid, ¬ Watches platform d.accepted c pid) →
      (d.delivered.filter fun e => e.1 = c).length ≤ 1

theorem Routed.dealt {platform : Platform Value} {d : Daemon Value} (hrouted : Routed platform d)
    (hplaced : Placed d) : Dealt platform d := by
  refine ⟨hrouted.delivered, fun c pid hwatches tr htr => ?_, fun c hasks => ?_⟩
  · exact (hrouted.delivered _ htr).watching hwatches
  · have hanswers : ∀ e ∈ d.delivered, e.1 = c → answered e = some c := by
      rintro ⟨c', tr⟩ he rfl
      exact (hrouted.delivered _ he).asking hasks
    have honce := hplaced.once c
    have hless := filter_length_le hanswers
    rw [custody] at honce
    omega

/-- In every reachable state what was written to a connection is its due: an error about its own
transmission, an answer for the pid it asked under, or a broadcast if it asked to watch. A
watching connection gets broadcasts only, and any other gets one transmission at most. -/
theorem each_gets_its_due (platform : Platform Value) (man : LogsManager Value)
    (logsFile : Option (List UInt8)) (labels : List (Label Value)) (d : Daemon Value)
    (hrun : run (Daemon.step platform) (Daemon.start man logsFile) labels = some d) :
    (∀ e ∈ d.delivered, Due platform d.accepted e.1 e.2) ∧
      (∀ c pid, Watches platform d.accepted c pid → ∀ tr, (c, tr) ∈ d.delivered →
        tr.typ = .outgoing 0) ∧
      ∀ c, (∀ pid, ¬ Watches platform d.accepted c pid) →
        (d.delivered.filter fun e => e.1 = c).length ≤ 1 := by
  obtain ⟨hplaced, hrouted⟩ := run_routed hrun
  exact hrouted.dealt hplaced

def samePid : List (Label Unit) :=
  [.connect ⟨.incoming 4, "4#0##query##7"⟩, .listen 0 true [], .listen 0 true [],
    .connect ⟨.incoming 4, "4#0##query##8"⟩, .listen 0 true [], .listen 0 true [],
    .listen 0 true [], .listen 0 true [], .listen 0 true [], .listen 0 true [],
    .recv, .pop, .execute ⟨some ⟨0, 0⟩, 0, .ok (), true, true⟩ (.ok ()), .reply true false,
    .listen 0 true [], .listen 0 true []]

theorem each_gets_its_due_samePid :
    ∃ d, run (Daemon.step Platform.bare) (Daemon.start (.empty 10) none) samePid = some d ∧
      d.delivered = [(1, ⟨.outgoing 4, "res#false"⟩)] ∧
      Due Platform.bare d.accepted 1 ⟨.outgoing 4, "res#false"⟩ := by
  have hview : (run (Daemon.step Platform.bare) (Daemon.start (.empty 10) none) samePid).map
      Daemon.delivered = some [(1, ⟨.outgoing 4, "res#false"⟩)] := by decide
  obtain ⟨d, hd, hdelivered⟩ := Option.map_eq_some_iff.mp hview
  have hdue := (each_gets_its_due Platform.bare (.empty 10) none samePid d hd).1
    (1, ⟨.outgoing 4, "res#false"⟩) (by simp [hdelivered])
  exact ⟨d, hd, hdelivered, hdue⟩

end NotifsPiper.Routing

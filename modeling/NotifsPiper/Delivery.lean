import NotifsPiper.Daemon
import NotifsPiper.Parallel

/-! Which notifications are marked as read. The daemon is followed together with the number of
the insertion behind each entry of the log, each job of the list, each task of the listener and
the result on its way back. A mark is earned by a write to a watcher that is not silent, or by a
read that is not; an acknowledgement carries no more than an id. -/

namespace NotifsPiper.Delivery

open Runs

variable {Value : Type}

/-- The daemon, the notifications inserted so far, and the insertion, if any, behind each entry,
each job of the list, the job in the hand of the manager (then its result), and each task of the
listener; and the insertions that were delivered or read out. -/
structure Tracked (Value : Type) where
  daemon : Daemon Value
  inserted : List (NotificationEvent Value)
  stamps : List (Option Nat)
  queue : List (Option Nat)
  hand : Option Nat
  marks : List (Option Nat)
  seen : List Nat

def reaches (d : Daemon Value) (broken : List Pid) : ListenerTask Value → Bool
  | .received _ ⟨.outgoing pid, _⟩ => pid == 0 && d.listeningProcesses.entries.any
      fun entry => !broken.contains entry.1 && !Flags.silent.is entry.2.2
  | _ => false

def sliced (start stop : LogCountType) (stamps : List (Option Nat)) : List Nat :=
  let first := min stamps.length start.toNat
  let last := min stamps.length stop.toNat
  ((stamps.drop first).take (last - first)).filterMap id

namespace Tracked

def start (man : LogsManager Value) (logsFile : Option (List UInt8)) : Tracked Value where
  daemon := Daemon.start man logsFile
  inserted := []
  stamps := man.logsBuffer.map fun _ => none
  queue := []
  hand := none
  marks := []
  seen := []

/-- The execution of a job. A broadcast is an insertion, and its result the insertion's. -/
def perform (t : Tracked Value) (d : Daemon Value) (jd : JobDesc Value) : Tracked Value :=
  match jd.cmd with
  | .broadcast event =>
    { t with
      daemon := d
      inserted := t.inserted ++ [event]
      stamps := Deque.enqueue (t.daemon.manager.victim event)
        t.daemon.manager.logsConfig.maxLogs.toNat (some t.inserted.length) t.stamps
      hand := some t.inserted.length }
  | .read start stop =>
    { t with
      daemon := d
      hand := none
      seen := if Flags.silent.is jd.desc.flags then t.seen else sliced start stop t.stamps ++ t.seen }
  | _ => { t with daemon := d, hand := none }

/-- What is known of the insertions, once the daemon has come to `d`. What a task of the listener
leaves behind is about the same insertion as the task. -/
def follow (t : Tracked Value) (d : Daemon Value) : Label Value → Tracked Value
  | .connect _ => { t with daemon := d, marks := none :: t.marks }
  | .listen i _ broken =>
    let mark := (t.marks[i]?).join
    { t with
      daemon := d
      queue := t.queue ++ List.replicate (d.list.length - t.daemon.list.length) mark
      marks := List.replicate (d.tasks.length + 1 - t.daemon.tasks.length) mark ++
        t.marks.eraseIdx i
      seen := if (t.daemon.tasks[i]?).any (reaches t.daemon broken) then mark.toList ++ t.seen
        else t.seen }
  | .pop =>
    { t with
      daemon := d
      queue := t.queue.drop (t.daemon.list.length - d.list.length)
      hand := t.queue.head?.join }
  | .execute _ _ =>
    match t.daemon.phase with
    | .executing jd _ => t.perform d jd
    | _ => { t with daemon := d }
  | .reply _ _ =>
    { t with
      daemon := d
      marks := List.replicate (d.tasks.length - t.daemon.tasks.length) t.hand ++ t.marks }
  | _ =>
    { t with
      daemon := d
      queue := t.queue ++ List.replicate (d.list.length - t.daemon.list.length) none }

def step (platform : Platform Value) (t : Tracked Value) (l : Label Value) :
    Option (Tracked Value) :=
  (t.daemon.step platform l).map fun d => t.follow d l

theorem perform_daemon (t : Tracked Value) (d : Daemon Value) (jd : JobDesc Value) :
    (t.perform d jd).daemon = d := by
  unfold perform
  split <;> rfl

theorem follow_daemon (t : Tracked Value) (d : Daemon Value) (l : Label Value) :
    (t.follow d l).daemon = d := by
  unfold follow
  split
  any_goals rfl
  split
  · exact t.perform_daemon d _
  · rfl

/-- Forgetting the insertions gives the run of the daemon back. -/
theorem step_daemon (platform : Platform Value) (t : Tracked Value) (l : Label Value) :
    (t.step platform l).map daemon = t.daemon.step platform l := by
  simp [step, Function.comp_def, follow_daemon]

end Tracked

/-- An entry that was inserted in this run has the texts of that insertion, and unless it was
inserted as read, it is marked as read only once the insertion was delivered or read out. -/
def Honest (inserted : List (NotificationEvent Value)) (seen : List Nat)
    (ne : NotificationEvent Value) (stamp : Option Nat) : Prop :=
  ∀ n ∈ stamp, ∃ event, inserted[n]? = some event ∧ ne.sent = event.sent ∧
    (event.read = false → ne.read = true → n ∈ seen)

def Earned (t : Tracked Value) : Prop :=
  List.Forall₂ (Honest t.inserted t.seen) t.daemon.manager.logsBuffer t.stamps

def acknowledged (d : Daemon Value) : Label Value → Option Nid
  | .execute _ _ =>
    match d.phase with
    | .executing ⟨.acknowledge id, _⟩ _ => some id
    | _ => none
  | _ => none

/-- An acknowledgement about to be executed finds under its id no entry, one that was loaded, or
the very insertion whose delivery it reports. -/
def FindsIts (t : Tracked Value) (l : Label Value) : Prop :=
  ∀ id ∈ acknowledged t.daemon l, ∀ pos ∈ t.daemon.manager.position id,
    ∀ n ∈ (t.stamps[pos]?).join, t.hand = some n

instance findsIts_decidable (t : Tracked Value) (l : Label Value) : Decidable (FindsIts t l) :=
  @Option.decidableForallMem Nid _ (fun _ => @Option.decidableForallMem Nat _
    (fun _ => @Option.decidableForallMem Nat _ (fun _ => Option.instDecidableEq _ _) _) _) _

/-- A task that acknowledges an insertion was left behind by its delivery, and nothing a client
asks for is about an insertion. -/
def Carried (seen : List Nat) (task : ListenerTask Value) (mark : Option Nat) : Prop :=
  ∀ n ∈ mark, match task with
    | .received _ tr => ∃ pid, tr.typ = .outgoing pid
    | .inserting .. => False
    | .pushing _ => False
    | .acknowledging _ => n ∈ seen
    | _ => True

def Backed (seen : List Nat) (jd : JobDesc Value) (mark : Option Nat) : Prop :=
  ∀ n ∈ mark, ∀ id, jd.cmd = .acknowledge id → n ∈ seen

def Held (seen : List Nat) (phase : Phase Value) (hand : Option Nat) : Prop :=
  match phase with
  | .executing jd _ => Backed seen jd hand
  | .replying tr => ∃ pid, tr.typ = .outgoing pid
  | _ => True

structure Sound (t : Tracked Value) : Prop where
  entries : Earned t
  queue : List.Forall₂ (Backed t.seen) t.daemon.list t.queue
  hand : Held t.seen t.daemon.phase t.hand
  marks : List.Forall₂ (Carried t.seen) t.daemon.tasks t.marks

theorem carried_none (seen : List Nat) (task : ListenerTask Value) : Carried seen task none := by
  intro n hn
  cases hn

theorem backed_none (seen : List Nat) (jd : JobDesc Value) : Backed seen jd none := by
  intro n hn
  cases hn

section

variable {seen seen' : List Nat} (hseen : seen ⊆ seen')

include hseen

theorem Honest.mono {inserted : List (NotificationEvent Value)} {ne : NotificationEvent Value}
    {stamp : Option Nat} (h : Honest inserted seen ne stamp) : Honest inserted seen' ne stamp := by
  intro n hn
  obtain ⟨event, hevent, hsent, hread⟩ := h n hn
  exact ⟨event, hevent, hsent, fun hnew hmark => hseen (hread hnew hmark)⟩

theorem Carried.mono {task : ListenerTask Value} {mark : Option Nat}
    (h : Carried seen task mark) : Carried seen' task mark := by
  intro n hn
  have htask := h n hn
  cases task with
  | acknowledging data => exact hseen htask
  | _ => exact htask

theorem Backed.mono {jd : JobDesc Value} {mark : Option Nat} (h : Backed seen jd mark) :
    Backed seen' jd mark :=
  fun n hn id hcmd => hseen (h n hn id hcmd)

theorem Held.mono {phase : Phase Value} {hand : Option Nat} (h : Held seen phase hand) :
    Held seen' phase hand := by
  cases phase with
  | executing jd empty => exact Backed.mono hseen h
  | _ => exact h

end

theorem start_sound (man : LogsManager Value) (logsFile : Option (List UInt8)) :
    Sound (Tracked.start man logsFile) := by
  refine ⟨?_, .nil, trivial, .nil⟩
  have hnone : List.Forall₂ (Honest [] []) man.logsBuffer (man.logsBuffer.map fun _ => none) := by
    rw [List.forall₂_map_right_iff, List.forall₂_same]
    intro ne _ n hn
    cases hn
  exact hnone

/-! The steps that concern no insertion. -/

theorem others_sound {t : Tracked Value} (ht : Sound t) {d : Daemon Value}
    (hman : d.manager = t.daemon.manager) (hheld : Held t.seen d.phase t.hand)
    (htasks : d.tasks = t.daemon.tasks) (hlist : t.daemon.list <+: d.list) :
    Sound { t with
      daemon := d
      queue := t.queue ++ List.replicate (d.list.length - t.daemon.list.length) none } := by
  refine ⟨?_, ?_, hheld, ?_⟩
  · have hentries := ht.entries
    rw [Earned, ← hman] at hentries
    exact hentries
  · exact Parallel.forall₂_extend ht.queue hlist fun jd _ => backed_none _ jd
  · have hmarks := ht.marks
    rw [← htasks] at hmarks
    exact hmarks

theorem still_sound {t : Tracked Value} (ht : Sound t) {d : Daemon Value}
    (hstill : Daemon.Still t.daemon d) (htasks : d.tasks = t.daemon.tasks) :
    Sound { t with
      daemon := d
      queue := t.queue ++ List.replicate (d.list.length - t.daemon.list.length) none } := by
  refine others_sound ht hstill.manager ?_ htasks hstill.list
  rw [hstill.phase]
  exact ht.hand

theorem pushJob_tasks {d d' : Daemon Value} {jd : JobDesc Value} (h : d.pushJob jd = some d') :
    d'.tasks = d.tasks := by
  obtain ⟨-, ⟨-, rfl⟩ | ⟨-, rfl⟩⟩ := Daemon.pushJob_cases h <;> rfl

theorem connect_sound {t : Tracked Value} (ht : Sound t) (tr : Transmission) :
    Sound { t with daemon := t.daemon.accept tr, marks := none :: t.marks } :=
  ⟨ht.entries, ht.queue, ht.hand, .cons (carried_none _ _) ht.marks⟩

theorem pop_sound {t : Tracked Value} (ht : Sound t) {d : Daemon Value}
    (h : t.daemon.pop = some d) : Sound (t.follow d .pop) := by
  obtain ⟨-, -, ⟨-, rfl⟩ | ⟨-, rfl⟩ | ⟨jd, rest, hlist, rfl⟩⟩ := Daemon.pop_cases h
  · have hdrop : t.daemon.list.length - (t.daemon.die .poisoned).list.length = 0 := Nat.sub_self _
    refine ⟨ht.entries, ?_, trivial, ht.marks⟩
    simp only [Tracked.follow, hdrop, List.drop_zero]
    exact ht.queue
  · have hdrop : t.daemon.list.length - (t.daemon.die .noop).list.length = 0 := Nat.sub_self _
    refine ⟨ht.entries, ?_, trivial, ht.marks⟩
    simp only [Tracked.follow, hdrop, List.drop_zero]
    exact ht.queue
  · have hqueue := ht.queue
    rw [hlist] at hqueue
    cases hmarks : t.queue with
    | nil =>
      rw [hmarks] at hqueue
      cases hqueue
    | cons mark marks =>
      rw [hmarks] at hqueue
      cases hqueue with
      | cons hhead hrest =>
        refine ⟨ht.entries, ?_, ?_, ht.marks⟩
        · simpa [Tracked.follow, hlist, hmarks] using hrest
        · simpa [Tracked.follow, hmarks, Held] using hhead

theorem reply_sound {t : Tracked Value} (ht : Sound t) {d : Daemon Value} {arrived failed : Bool}
    (h : t.daemon.reply arrived failed = some d) : Sound (t.follow d (.reply arrived failed)) := by
  obtain ⟨tr, hphase, hcases⟩ := Daemon.reply_cases h
  have houtgoing : ∃ pid, tr.typ = .outgoing pid := by
    have hheld := ht.hand
    rw [hphase] at hheld
    exact hheld
  have hone : (t.daemon.accept tr).tasks.length - t.daemon.tasks.length = 1 := by
    simp [Daemon.accept, Daemon.spawn]
  have hmarks : List.Forall₂ (Carried t.seen) (t.daemon.accept tr).tasks
      (List.replicate 1 t.hand ++ t.marks) :=
    .cons (fun _ _ => houtgoing) ht.marks
  obtain ⟨-, rfl⟩ | ⟨-, rfl | rfl⟩ := hcases
  · refine ⟨ht.entries, ht.queue, trivial, ?_⟩
    rw [← hone] at hmarks
    exact hmarks
  · refine ⟨ht.entries, ht.queue, trivial, ?_⟩
    rw [← hone] at hmarks
    exact hmarks
  · have hnone : (t.daemon.die .failed).tasks.length - t.daemon.tasks.length = 0 := Nat.sub_self _
    refine ⟨ht.entries, ht.queue, trivial, ?_⟩
    simp only [Tracked.follow, hnone, List.replicate_zero, List.nil_append]
    exact ht.marks

/-! The tasks of the listener. -/

def seenAfter (d : Daemon Value) (broken : List Pid) (task : ListenerTask Value)
    (mark : Option Nat) (seen : List Nat) : List Nat :=
  if reaches d broken task then mark.toList ++ seen else seen

structure Inherits (d : Daemon Value) (broken : List Pid) (task : ListenerTask Value)
    (d' : Daemon Value) : Prop where
  manager : d'.manager = d.manager
  phase : d'.phase = d.phase
  left : ∃ new jobs, d'.tasks = new ++ d.tasks ∧ d'.list = d.list ++ jobs ∧
    ∀ seen mark, Carried seen task mark →
      (∀ task' ∈ new, Carried (seenAfter d broken task mark seen) task' mark) ∧
        ∀ jd ∈ jobs, Backed (seenAfter d broken task mark seen) jd mark

theorem inherits_nothing {d d' : Daemon Value} {broken : List Pid} {task : ListenerTask Value}
    (hman : d'.manager = d.manager) (hphase : d'.phase = d.phase) (htasks : d'.tasks = d.tasks)
    (hlist : d'.list = d.list) : Inherits d broken task d' :=
  ⟨hman, hphase, [], [], htasks, by rw [hlist, List.append_nil], fun _ _ _ => by simp⟩

theorem inherits_task {d d' : Daemon Value} {broken : List Pid} {task task' : ListenerTask Value}
    (hman : d'.manager = d.manager) (hphase : d'.phase = d.phase)
    (htasks : d'.tasks = task' :: d.tasks) (hlist : d'.list = d.list)
    (hcarried : ∀ seen mark, Carried seen task mark →
      Carried (seenAfter d broken task mark seen) task' mark) : Inherits d broken task d' := by
  refine ⟨hman, hphase, [task'], [], htasks, by rw [hlist, List.append_nil], fun seen mark h => ?_⟩
  simpa using hcarried seen mark h

theorem inherits_job {d d' : Daemon Value} {broken : List Pid} {task : ListenerTask Value}
    {lp : Bool} {jd : JobDesc Value}
    (hman : d'.manager = d.manager) (hphase : d'.phase = d.phase)
    (htasks : d'.tasks = .notifying lp :: d.tasks) (hlist : d'.list = d.list ++ [jd])
    (hbacked : ∀ seen mark, Carried seen task mark →
      Backed (seenAfter d broken task mark seen) jd mark) : Inherits d broken task d' := by
  refine ⟨hman, hphase, [.notifying lp], [jd], htasks, hlist, fun seen mark h => ⟨?_, ?_⟩⟩
  · simp [Carried]
  · simpa using hbacked seen mark h

theorem deliver_inherits (d : Daemon Value) (broken : List Pid) (task : ListenerTask Value)
    (written : Bool) (stream : Conn) (tr : Transmission) :
    Inherits d broken task (d.deliver written stream tr) := by
  unfold Daemon.deliver
  split_ifs <;> exact inherits_nothing rfl rfl rfl rfl

theorem reaches_broadcast {d : Daemon Value} {broken : List Pid} (stream : Conn) (data : String)
    (h : ((d.listeningProcesses.entries.partition fun entry => entry.1 ∈ broken).2.any
      fun entry => !Flags.silent.is entry.2.2) = true) :
    reaches d broken (.received stream ⟨.outgoing 0, data⟩ : ListenerTask Value) = true := by
  simp only [List.partition_eq_filter_filter, List.any_filter] at h
  simp only [reaches, beq_self_eq_true, Bool.true_and]
  rw [List.any_eq_true] at h ⊢
  obtain ⟨entry, hmem, hentry⟩ := h
  exact ⟨entry, hmem, by simpa using hentry⟩

theorem broadcast_inherits (d : Daemon Value) (broken : List Pid) (stream : Conn)
    (data : String) :
    Inherits d broken (.received stream ⟨.outgoing 0, data⟩) (d.broadcast data broken) := by
  unfold Daemon.broadcast
  dsimp only
  split_ifs with hreached
  · split
    · refine inherits_task rfl rfl rfl rfl fun seen mark _ n hn => ?_
      rw [seenAfter, if_pos (reaches_broadcast stream data hreached)]
      exact List.mem_append_left _ (Option.mem_toList.mpr hn)
    · exact inherits_nothing rfl rfl rfl rfl
  · exact inherits_nothing rfl rfl rfl rfl

theorem task_inherits {platform : Platform Value} {written : Bool} {broken : List Pid}
    {d d' : Daemon Value} {task : ListenerTask Value}
    (h : task.step platform written broken d = some d') : Inherits d broken task d' := by
  unfold ListenerTask.step at h
  split at h
  · cases h; exact deliver_inherits _ _ _ _ _ _
  · split at h
    · cases h; exact inherits_nothing rfl rfl rfl rfl
    · cases h; exact deliver_inherits _ _ _ _ _ _
    · split_ifs at h
      · cases h; exact inherits_nothing rfl rfl rfl rfl
      · cases h
        refine inherits_task rfl rfl rfl rfl fun seen mark hcarried n hn => ?_
        obtain ⟨pid, hpid⟩ := hcarried n hn
        cases hpid
  next stream pid data =>
    split_ifs at h with hpid
    · cases h
      rw [hpid]
      exact broadcast_inherits _ _ _ _
    · cases h
      exact inherits_task rfl rfl rfl rfl fun _ _ _ _ _ => trivial
  · cases h
    exact inherits_task rfl rfl rfl rfl fun seen mark hcarried n hn => hcarried n hn
  · split_ifs at h
    · cases h; exact inherits_nothing rfl rfl rfl rfl
    · cases h
      exact inherits_job rfl rfl rfl rfl fun seen mark hcarried n hn => (hcarried n hn).elim
  next data =>
    split_ifs at h
    · cases h; exact inherits_nothing rfl rfl rfl rfl
    · split at h
      · cases h
        exact inherits_job rfl rfl rfl rfl fun seen mark hcarried n hn _ _ => hcarried n hn
      · cases h; exact inherits_nothing rfl rfl rfl rfl
  · split_ifs at h <;> cases h <;> exact inherits_nothing rfl rfl rfl rfl
  · cases h; exact inherits_nothing rfl rfl rfl rfl
  · cases h; exact deliver_inherits _ _ _ _ _ _

theorem listen_sound {platform : Platform Value} {t : Tracked Value} (ht : Sound t)
    {d : Daemon Value} {i : Nat} {written : Bool} {broken : List Pid}
    (h : t.daemon.listen platform i written broken = some d) :
    Sound (t.follow d (.listen i written broken)) := by
  obtain ⟨task, hi, h⟩ := Option.bind_eq_some_iff.mp h
  obtain ⟨hman, hphase, new, jobs, htasks, hlist, hleft⟩ := task_inherits h
  obtain ⟨mark, hmark, hcarried⟩ := Parallel.forall₂_getElem? ht.marks hi
  obtain ⟨hnew, hjobs⟩ := hleft t.seen mark hcarried
  have hseen : t.seen ⊆ seenAfter t.daemon broken task mark t.seen := by
    unfold seenAfter
    split_ifs
    · exact List.subset_append_right _ _
    · exact List.Subset.refl _
  have hlt := (List.getElem?_eq_some_iff.mp hi).1
  have hcount : d.tasks.length + 1 - t.daemon.tasks.length = new.length := by
    have herase := List.length_eraseIdx_of_lt hlt
    have hlen := congrArg List.length htasks
    simp only [List.length_append] at hlen
    omega
  simp only [Tracked.follow, hi, hmark, Option.any_some, Option.join_some, hcount]
  refine ⟨?_, ?_, ?_, ?_⟩
  · have hentries := ht.entries
    rw [Earned, ← hman] at hentries
    exact hentries.imp fun _ _ => Honest.mono hseen
  · have hqueue := ht.queue.imp fun _ _ => Backed.mono hseen
    refine Parallel.forall₂_extend hqueue ⟨jobs, hlist.symm⟩ fun jd hjd => ?_
    rw [hlist, List.drop_left] at hjd
    exact hjobs jd hjd
  · rw [hphase]
    exact Held.mono hseen ht.hand
  · rw [htasks]
    have hmarks := (Parallel.forall₂_eraseIdx ht.marks i).imp fun _ _ => Carried.mono hseen
    exact Parallel.forall₂_prepend hmarks rfl hnew

/-! The execution of a job. -/

theorem Honest.insert {inserted : List (NotificationEvent Value)} {seen : List Nat}
    {ne : NotificationEvent Value} {stamp : Option Nat} (h : Honest inserted seen ne stamp)
    (event : NotificationEvent Value) : Honest (inserted ++ [event]) seen ne stamp := by
  intro n hn
  obtain ⟨before, hbefore, hrest⟩ := h n hn
  have hlt := (List.getElem?_eq_some_iff.mp hbefore).1
  exact ⟨before, by rw [List.getElem?_append_left hlt, hbefore], hrest⟩

theorem Honest.mark {inserted : List (NotificationEvent Value)} {seen : List Nat}
    {ne : NotificationEvent Value} {stamp : Option Nat} (h : Honest inserted seen ne stamp)
    (hstamp : ∀ n ∈ stamp, n ∈ seen) : Honest inserted seen ne.setRead stamp := by
  intro n hn
  obtain ⟨event, hevent, hsent, -⟩ := h n hn
  exact ⟨event, hevent, hsent, fun _ _ => hstamp n hn⟩

theorem Honest.close {inserted : List (NotificationEvent Value)} {seen : List Nat}
    {ne : NotificationEvent Value} {stamp : Option Nat} (h : Honest inserted seen ne stamp) :
    Honest inserted seen ne.setClosed stamp := h

theorem sliced_mem {start stop : LogCountType} {stamps : List (Option Nat)} {len n : Nat}
    (hlen : len = stamps.length) {stamp : Option Nat}
    (hstamp : stamp ∈ (stamps.drop (min len start.toNat)).take
      (min len stop.toNat - min len start.toNat)) (hn : n ∈ stamp) :
    n ∈ sliced start stop stamps := by
  rw [hlen] at hstamp
  exact List.mem_filterMap.mpr ⟨stamp, hstamp, hn⟩

variable {platform : Platform Value} {t : Tracked Value} {env : Env} {jd : JobDesc Value}
  {ex : Executed Value}

theorem broadcast_earned (ht : Earned t) (d : Daemon Value) {event : NotificationEvent Value}
    (hcmd : jd.cmd = .broadcast event)
    (hex : Job.execute platform env jd t.daemon.manager = some ex) :
    List.Forall₂ (Honest (t.perform d jd).inserted (t.perform d jd).seen) ex.manager.logsBuffer
      (t.perform d jd).stamps := by
  rw [(Job.execute_broadcast hex hcmd).1]
  simp only [Tracked.perform, hcmd, LogsManager.broadcasted]
  refine Deque.forall₂_enqueue (ht.imp fun _ _ h => h.insert event) ?_ LogsManager.victim_lt _
  intro n hn
  cases hn
  exact ⟨event, List.getElem?_concat_length, rfl, fun hnew hread => absurd hread (by simp [hnew])⟩

theorem read_earned (ht : Earned t) (d : Daemon Value) {start stop : LogCountType}
    (hcmd : jd.cmd = .read start stop)
    (hex : Job.execute platform env jd t.daemon.manager = some ex) :
    List.Forall₂ (Honest (t.perform d jd).inserted (t.perform d jd).seen) ex.manager.logsBuffer
      (t.perform d jd).stamps := by
  have hlen := ht.length_eq
  simp only [Job.execute, hcmd] at hex
  obtain ⟨slice, man, hread, rfl⟩ := Read.execute_some hex
  simp only [Tracked.perform, hcmd, Executed.quiet]
  unfold LogsManager.readLogs at hread
  dsimp only at hread
  split_ifs at hread with hpanics hupdate
  · cases hread
    have hsilent : Flags.silent.is jd.desc.flags = false := by
      simpa using (Bool.and_eq_true_iff.mp hupdate).1
    rw [hsilent, if_neg Bool.false_ne_true]
    have hseen : t.seen ⊆ sliced start stop t.stamps ++ t.seen := List.subset_append_right _ _
    have hmono := ht.imp fun _ _ => Honest.mono hseen
    refine Parallel.forall₂_slice hmono (by omega) fun ne stamp hstamp hne => hne.mark ?_
    exact fun n hn => List.mem_append_left _ (sliced_mem hlen hstamp hn)
  · cases hread
    refine ht.imp fun _ _ => Honest.mono ?_
    split_ifs
    · exact List.Subset.refl _
    · exact List.subset_append_right _ _

theorem acknowledge_earned (ht : Earned t) (d : Daemon Value) (hbacked : Backed t.seen jd t.hand)
    {id : Nid} (hcmd : jd.cmd = .acknowledge id)
    (hfinds : ∀ pos, t.daemon.manager.position id = some pos →
      ∀ n ∈ (t.stamps[pos]?).join, t.hand = some n)
    (hex : Job.execute platform env jd t.daemon.manager = some ex) :
    List.Forall₂ (Honest (t.perform d jd).inserted (t.perform d jd).seen) ex.manager.logsBuffer
      (t.perform d jd).stamps := by
  simp only [Job.execute, hcmd] at hex
  cases hex
  simp only [Tracked.perform, hcmd, Acknowledge.execute, Executed.quiet,
    LogsManager.readNotification]
  cases hpos : t.daemon.manager.position id with
  | none => exact ht
  | some pos =>
    refine Parallel.forall₂_modify ht fun ne stamp _ hstamp hne => hne.mark fun n hn => ?_
    have hhand : t.hand = some n := hfinds pos hpos n (by rw [hstamp]; exact hn)
    exact hbacked n (Option.mem_def.mpr hhand) id hcmd

theorem other_earned (ht : Earned t) (hbroadcast : ∀ event, jd.cmd ≠ .broadcast event)
    (hread : ∀ start stop, jd.cmd ≠ .read start stop) (hack : ∀ id, jd.cmd ≠ .acknowledge id)
    (hex : Job.execute platform env jd t.daemon.manager = some ex) :
    List.Forall₂ (Honest t.inserted t.seen) ex.manager.logsBuffer t.stamps := by
  unfold Job.execute at hex
  split at hex
  next event hcmd => exact absurd hcmd (hbroadcast event)
  next =>
    rcases Close.execute_cases hex with rfl | ⟨pos, ne, -, rfl⟩
    · exact ht
    · rw [close_perform_manager]
      exact Parallel.forall₂_modify ht fun _ _ _ _ hne => hne.close
  next hcmd => exact absurd hcmd (hread _ _)
  next => cases hex; exact ht
  next => cases hex; exact ht
  next =>
    cases hex
    rw [ActionInvoked.execute, signalExecute_manager]
    exact ht
  next =>
    cases hex
    rw [ActivationToken.execute, signalExecute_manager]
    exact ht
  next hcmd => exact absurd hcmd (hack _)

theorem perform_earned (ht : Earned t) (d : Daemon Value) (hbacked : Backed t.seen jd t.hand)
    (hfinds : ∀ id pos, jd.cmd = .acknowledge id → t.daemon.manager.position id = some pos →
      ∀ n ∈ (t.stamps[pos]?).join, t.hand = some n)
    (hex : Job.execute platform env jd t.daemon.manager = some ex) :
    List.Forall₂ (Honest (t.perform d jd).inserted (t.perform d jd).seen) ex.manager.logsBuffer
      (t.perform d jd).stamps := by
  cases hcmd : jd.cmd with
  | broadcast event => exact broadcast_earned ht d hcmd hex
  | read start stop => exact read_earned ht d hcmd hex
  | acknowledge id => exact acknowledge_earned ht d hbacked hcmd (fun pos => hfinds id pos hcmd) hex
  | _ =>
    simp only [Tracked.perform, hcmd]
    exact other_earned ht (by simp [hcmd]) (by simp [hcmd]) (by simp [hcmd]) hex

theorem perform_seen (t : Tracked Value) (d : Daemon Value) (jd : JobDesc Value) :
    t.seen ⊆ (t.perform d jd).seen := by
  unfold Tracked.perform
  split
  · exact List.Subset.refl _
  · dsimp only
    split_ifs
    · exact List.Subset.refl _
    · exact List.subset_append_right _ _
  · exact List.Subset.refl _

theorem perform_rest (t : Tracked Value) (d : Daemon Value) (jd : JobDesc Value) :
    (t.perform d jd).daemon = d ∧ (t.perform d jd).queue = t.queue ∧
      (t.perform d jd).marks = t.marks := by
  unfold Tracked.perform
  split <;> exact ⟨rfl, rfl, rfl⟩

theorem conclude_rest (platform : Platform Value) (d : Daemon Value) (pid : Pid) (empty : Bool)
    (fj : FulfilledJob) (disk : Except (List UInt8) Unit) (seen : List Nat) (hand : Option Nat) :
    let d' := d.conclude platform pid empty fj disk
    d'.list = d.list ∧ d'.tasks = d.tasks ∧ Held seen d'.phase hand := by
  have hback : Held seen (Daemon.sendBack platform pid fj) hand := by
    unfold Daemon.sendBack
    split
    · trivial
    · exact ⟨pid, rfl⟩
  unfold Daemon.conclude
  dsimp only
  split_ifs
  · split
    · exact ⟨rfl, rfl, hback⟩
    · exact ⟨rfl, rfl, trivial⟩
  · exact ⟨rfl, rfl, hback⟩

theorem panic_earned (ht : Earned t) (d : Daemon Value)
    (hnone : Job.execute platform env jd t.daemon.manager = none) :
    List.Forall₂ (Honest (t.perform d jd).inserted (t.perform d jd).seen)
      t.daemon.manager.logsBuffer (t.perform d jd).stamps := by
  have hmono := perform_seen t d jd
  cases hcmd : jd.cmd with
  | broadcast event =>
    obtain ⟨timer, -, hexec⟩ := Broadcast.execute_eq platform event env t.daemon.manager
    simp [Job.execute, hcmd, hexec] at hnone
  | _ =>
    simp only [Tracked.perform, hcmd] at hmono ⊢
    exact ht.imp fun _ _ => Honest.mono hmono

theorem execute_sound (ht : Sound t) {d : Daemon Value} {disk : Except (List UInt8) Unit}
    (hfinds : FindsIts t (.execute env disk))
    (h : t.daemon.execute platform env disk = some d) : Sound (t.follow d (.execute env disk)) := by
  obtain ⟨jd, empty, hphase, hcases⟩ := Daemon.execute_outcome h
  have hbacked : Backed t.seen jd t.hand := by
    have hheld := ht.hand
    rw [hphase] at hheld
    exact hheld
  simp only [Tracked.follow, hphase]
  obtain ⟨hdaemon, hqueue, hmarks⟩ := perform_rest t d jd
  have hmono := perform_seen t d jd
  have hrest : d.list = t.daemon.list ∧ d.tasks = t.daemon.tasks ∧
      Held (t.perform d jd).seen d.phase (t.perform d jd).hand := by
    obtain ⟨-, rfl⟩ | ⟨ex, -, rfl⟩ := hcases
    · exact ⟨rfl, rfl, trivial⟩
    · exact conclude_rest ..
  have hentries : List.Forall₂ (Honest (t.perform d jd).inserted (t.perform d jd).seen)
      d.manager.logsBuffer (t.perform d jd).stamps := by
    obtain ⟨hnone, hd⟩ | ⟨ex, hex, hd⟩ := hcases
    · have hman : d.manager = t.daemon.manager := by rw [hd]; rfl
      rw [hman]
      exact panic_earned ht.entries d hnone
    · have hlog : d.manager.logsBuffer = ex.manager.logsBuffer := by
        rw [hd]
        exact (Daemon.conclude_log ..).1
      rw [hlog]
      refine perform_earned ht.entries d hbacked (fun id pos hcmd hpos => ?_) hex
      refine hfinds id ?_ pos hpos
      obtain ⟨cmd, desc⟩ := jd
      cases hcmd
      simp [acknowledged, hphase]
  refine ⟨?_, ?_, ?_, ?_⟩
  · rw [Earned, hdaemon]
    exact hentries
  · rw [hdaemon, hqueue, hrest.1]
    exact ht.queue.imp fun _ _ => Backed.mono hmono
  · rw [hdaemon]
    exact hrest.2.2
  · rw [hdaemon, hmarks, hrest.2.1]
    exact ht.marks.imp fun _ _ => Carried.mono hmono

theorem step_sound {t' : Tracked Value} {l : Label Value} (ht : Sound t) (hfinds : FindsIts t l)
    (h : t.step platform l = some t') : Sound t' := by
  obtain ⟨d, hstep, rfl⟩ := Option.map_eq_some_iff.mp h
  cases l with
  | notify call now =>
    have hstill := Daemon.pushJob_still hstep
    have htasks := pushJob_tasks hstep
    exact still_sound ht ⟨hstill.manager, hstill.phase, hstill.logsFile, hstill.list⟩ htasks
  | closeNotification nid => exact still_sound ht (Daemon.pushJob_still hstep) (pushJob_tasks hstep)
  | busSend =>
    obtain ⟨-, ⟨-, rfl⟩ | ⟨-, rfl⟩⟩ := Daemon.busSend_cases hstep <;>
      exact still_sound ht ⟨rfl, rfl, rfl, List.prefix_refl _⟩ rfl
  | connect tr =>
    cases hstep
    exact connect_sound ht tr
  | listen i written broken => exact listen_sound ht hstep
  | wake i instant =>
    obtain ⟨timer, snd, -, -, -, ⟨-, rfl⟩ | ⟨-, rfl⟩⟩ := Daemon.wake_cases hstep
    · exact still_sound ht ⟨rfl, rfl, rfl, List.prefix_refl _⟩ rfl
    · exact still_sound ht ⟨rfl, rfl, rfl, List.prefix_append _ _⟩ rfl
  | timerSend i =>
    obtain ⟨-, ⟨-, rfl⟩ | ⟨-, rfl⟩⟩ := Daemon.timerSend_cases hstep <;>
      exact still_sound ht ⟨rfl, rfl, rfl, List.prefix_refl _⟩ rfl
  | recv =>
    obtain ⟨-, -, rfl⟩ := Daemon.recv_cases hstep
    exact others_sound ht rfl trivial rfl (List.prefix_refl _)
  | pop => exact pop_sound ht hstep
  | execute env disk => exact execute_sound ht hfinds hstep
  | reply arrived failed => exact reply_sound ht hstep

theorem step_unread {t' : Tracked Value} {l : Label Value}
    (ht : ∀ event ∈ t.daemon.created, event.read = false) (h : t.step platform l = some t') :
    ∀ event ∈ t'.daemon.created, event.read = false := by
  obtain ⟨d, hstep, rfl⟩ := Option.map_eq_some_iff.mp h
  rw [Tracked.follow_daemon]
  rcases Daemon.step_created hstep with hkept | ⟨call, now, -, hnew⟩
  · rw [hkept]
    exact ht
  · intro event hevent
    rw [hnew, List.mem_append, List.mem_singleton] at hevent
    rcases hevent with hevent | rfl
    · exact ht event hevent
    · rfl

/-- Over the runs in which every acknowledgement finds the insertion it was pushed for, or none:
what was inserted unread is marked as read only once it was written to a watcher that is not
silent, or returned by a read that is not; and every notification of a call is inserted unread. -/
theorem read_marks_earned (platform : Platform Value) (man : LogsManager Value)
    (logsFile : Option (List UInt8)) (labels : List (Label Value))
    (hfinds : Along (Tracked.step platform) FindsIts (Tracked.start man logsFile) labels) :
    Always (Tracked.step platform)
      (fun t => Earned t ∧ ∀ event ∈ t.daemon.created, event.read = false)
      (Tracked.start man logsFile) labels := by
  have hsound : Always (Tracked.step platform) Sound (Tracked.start man logsFile) labels :=
    along_invariant (fun _ _ _ ht hl h => step_sound ht hl h) (start_sound man logsFile) hfinds
  have hearned : Always (Tracked.step platform) Earned (Tracked.start man logsFile) labels :=
    hsound.mono fun _ ht => ht.entries
  refine hearned.and (always_of_invariant (fun _ _ _ => step_unread) ?_ labels)
  intro event hevent
  cases hevent

/-! A run in which the notification that was delivered has been replaced when it is
acknowledged. -/

def Platform.hearing (event : NotificationEvent Unit) : Platform Unit :=
  { Platform.bare with eventFromStr := fun text =>
      if text = event.bareJson then .ok event else Platform.bare.eventFromStr text }

def calling (replacesId : Nid) : List (Label Unit) :=
  [.notify ⟨"", replacesId, "", "", "", [], [], 0⟩ none, .busSend]

def working : List (Label Unit) :=
  [.recv, .pop, .execute ⟨some ⟨0, 0⟩, 0, .ok (), true, true⟩ (.ok ())]

def delivering : List (Label Unit) :=
  [.connect ⟨.incoming 7, "7#0##watch##watch"⟩, .listen 0 true []] ++ calling 0 ++ working ++
    [.reply true false, .listen 0 true []]

def acknowledging : List (Label Unit) := [.listen 0 true [], .listen 0 true []]

theorem read_marks_earned_acknowledged :
    Always (Tracked.step (Platform.hearing (.bare 1 0 0)))
      (fun t => Earned t ∧ ∀ event ∈ t.daemon.created, event.read = false)
      (Tracked.start (.empty 10) none) (delivering ++ acknowledging ++ working) :=
  read_marks_earned _ _ _ _ (by decide +kernel)

/-- A call that replaces the notification comes between the write and the push, and the watcher
is gone by the time the new one is broadcast. -/
theorem replacement_marked_undelivered :
    ¬ Always (Tracked.step (Platform.hearing (.bare 1 0 0))) Earned
      (Tracked.start (.empty 10) none)
      (delivering ++ calling 1 ++ acknowledging ++ working ++
        [.reply true false, .listen 0 true [7]] ++ working) := by
  intro h
  have hrun : (run (Tracked.step (Platform.hearing (.bare 1 0 0))) (Tracked.start (.empty 10) none)
      (delivering ++ calling 1 ++ acknowledging ++ working ++
        [.reply true false, .listen 0 true [7]] ++ working)).map
      (fun t => (t.daemon.manager.logsBuffer.map NotificationEvent.read,
        t.inserted.map NotificationEvent.read, t.stamps, t.seen)) =
      some ([true], [false, false], [some 1], [0]) := by decide +kernel
  obtain ⟨t, ht, hview⟩ := Option.map_eq_some_iff.mp hrun
  simp only [Prod.mk.injEq] at hview
  obtain ⟨hread, hinserted, hstamps, hseen⟩ := hview
  have hearned : Earned t := always_iff.mp h _ (List.prefix_refl _) t ht
  rw [Earned, hstamps, hseen] at hearned
  obtain ⟨ne, hlog⟩ := List.length_eq_one_iff.mp hearned.length_eq
  rw [hlog] at hearned hread
  cases hearned with
  | cons hne _ =>
    obtain ⟨event, hevent, -, hmark⟩ := hne 1 rfl
    have hnew : event.read = false := by
      have hmap := congrArg (fun reads => reads[1]?) hinserted
      simpa [hevent] using hmap
    exact absurd (hmark hnew (List.singleton_inj.mp hread)) (by decide)

end NotifsPiper.Delivery

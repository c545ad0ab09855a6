import NotifsPiper.Storage
import NotifsPiper.Identity

/-! One daemon after another over the same files. A session starts its counter at the largest
id of the log it loads, and a client of an earlier session may have chosen that id. -/

namespace NotifsPiper

open Runs

variable {Value : Type}

structure Session (Value : Type) where
  loaded : List (NotificationEvent Value)
  daemon : Daemon Value

namespace Session

def start (man : LogsManager Value) (logsFile : Option (List UInt8)) : Session Value :=
  ⟨man.logsBuffer, Daemon.start man logsFile⟩

def largest (session : Session Value) : Nid :=
  ((session.loaded.map NotificationEvent.id).max?).getD 0

def fresh (session : Session Value) : Nat :=
  session.daemon.created.countP fun ne => ne.replacesId == 0

end Session

/-- What lasts is in the files. The last field records the notifications that `notify` created
in the sessions that are over. -/
structure Sessions (Value : Type) where
  files : Files
  running : Option (Session Value)
  ended : List (NotificationEvent Value)

inductive SessionLabel (Value : Type)
  | launch (fs : FileSystem) (config : LogsConfig)
  | daemon (l : Label Value)
  | stop

def SessionLabel.call : SessionLabel Value → Option (NotifyCall Value)
  | .daemon (.notify call _) => some call
  | _ => none

namespace Sessions

def start (files : Files) : Sessions Value := ⟨files, none, []⟩

/-- A daemon may stop at any point of its run; a launch may panic. -/
def step (platform : Platform Value) (s : Sessions Value) :
    SessionLabel Value → Option (Sessions Value)
  | .launch fs config =>
    match s.running with
    | some _ => none
    | none =>
      let (man, files) := LogsManager.new platform fs config s.files
      some { s with
        files := files
        running := man.map fun man => .start man files.logs }
  | .daemon l => do
    let session ← s.running
    let d ← session.daemon.step platform l
    return { s with running := some { session with daemon := d } }
  | .stop => do
    let session ← s.running
    return ⟨{ s.files with logs := session.daemon.logsFile }, none,
      s.ended ++ session.daemon.created⟩

def created (s : Sessions Value) : List (NotificationEvent Value) :=
  s.ended ++ (s.running.map fun session => session.daemon.created).getD []

/-- `notify` has neither returned the id 0 nor passed on a notification with it. -/
def NonzeroIds (s : Sessions Value) : Prop := ∀ ne ∈ s.created, ne.id ≠ 0

instance decidableNonzeroIds (s : Sessions Value) : Decidable s.NonzeroIds :=
  inferInstanceAs (Decidable (∀ ne ∈ s.created, ne.id ≠ 0))

/-- A call that names no notification to replace still finds an id above the largest one that
its session loaded. -/
def Numbered (s : Sessions Value) (l : SessionLabel Value) : Prop :=
  ∀ call ∈ l.call, call.replacesId = 0 → ∀ session ∈ s.running,
    session.largest.toNat + session.fresh + 1 < 2 ^ 32

instance decidableNumbered (s : Sessions Value) (l : SessionLabel Value) :
    Decidable (Numbered s l) :=
  inferInstanceAs (Decidable (∀ call ∈ l.call, call.replacesId = 0 → ∀ session ∈ s.running,
    session.largest.toNat + session.fresh + 1 < 2 ^ 32))

/-! The counter of a session. -/

theorem conclude_counter (platform : Platform Value) (d : Daemon Value) (pid : Pid)
    (empty : Bool) (fj : FulfilledJob) (disk : Except (List UInt8) Unit) :
    (d.conclude platform pid empty fj disk).counter = d.counter := by
  unfold Daemon.conclude
  dsimp only
  split_ifs
  · split <;> rfl
  · rfl

theorem execute_counter {platform : Platform Value} {d d' : Daemon Value} {env : Env}
    {disk : Except (List UInt8) Unit} (h : d.execute platform env disk = some d') :
    d'.counter = d.counter := by
  unfold Daemon.execute at h
  split at h
  · split at h
    · cases h
      rfl
    · cases h
      exact conclude_counter ..
  · cases h

theorem step_counter {platform : Platform Value} {d d' : Daemon Value} {l : Label Value}
    (h : d.step platform l = some d') (hl : ∀ call now, l ≠ .notify call now) :
    d'.counter = d.counter := by
  cases l with
  | notify call now => exact absurd rfl (hl call now)
  | closeNotification nid =>
    obtain ⟨-, ⟨-, rfl⟩ | ⟨-, rfl⟩⟩ := Daemon.pushJob_cases h <;> rfl
  | busSend => obtain ⟨-, ⟨-, rfl⟩ | ⟨-, rfl⟩⟩ := Daemon.busSend_cases h <;> rfl
  | connect tr => cases h; rfl
  | listen i written broken =>
    obtain ⟨task, -, htask⟩ := Option.bind_eq_some_iff.mp h
    have huntouched := Daemon.task_untouched htask
    exact huntouched.counter
  | wake i instant =>
    obtain ⟨timer, snd, -, -, -, ⟨-, rfl⟩ | ⟨-, rfl⟩⟩ := Daemon.wake_cases h <;> rfl
  | timerSend i => obtain ⟨-, ⟨-, rfl⟩ | ⟨-, rfl⟩⟩ := Daemon.timerSend_cases h <;> rfl
  | recv =>
    obtain ⟨-, -, rfl⟩ := Daemon.recv_cases h
    rfl
  | pop =>
    obtain ⟨-, -, ⟨-, rfl⟩ | ⟨-, rfl⟩ | ⟨jd, rest, -, rfl⟩⟩ := Daemon.pop_cases h <;> rfl
  | execute env disk => exact execute_counter h
  | reply arrived failed =>
    obtain ⟨tr, -, ⟨-, rfl⟩ | ⟨-, rfl | rfl⟩⟩ := Daemon.reply_cases h <;> rfl

/-- Only a `notify` call moves the counter or creates a notification. -/
theorem step_numbers {platform : Platform Value} {d d' : Daemon Value} {l : Label Value}
    (h : d.step platform l = some d') :
    (∃ call now, l = .notify call now ∧
        d'.counter = (Notifications.notify d.counter call now).1 ∧
        d'.created = d.created ++ [(Notifications.notify d.counter call now).2]) ∨
      (∀ call now, l ≠ .notify call now) ∧ d'.counter = d.counter ∧ d'.created = d.created := by
  have hcreated := Daemon.step_created h
  cases l with
  | notify call now =>
    left
    obtain ⟨-, ⟨-, rfl⟩ | ⟨-, rfl⟩⟩ := Daemon.pushJob_cases h <;> exact ⟨call, now, rfl, rfl, rfl⟩
  | _ =>
    right
    refine ⟨by simp, ?_, hcreated.resolve_right (by simp)⟩
    exact step_counter h (by simp)

/-! The ids that `notify` gives out. -/

theorem step_cases {platform : Platform Value} {s s' : Sessions Value} {l : SessionLabel Value}
    (h : s.step platform l = some s') :
    (∃ fs config man files, l = .launch fs config ∧ s.running = none ∧
        LogsManager.new platform fs config s.files = (man, files) ∧
        s' = ⟨files, man.map fun man => .start man files.logs, s.ended⟩) ∨
      (∃ l' session d, l = .daemon l' ∧ s.running = some session ∧
        session.daemon.step platform l' = some d ∧
        s' = { s with running := some { session with daemon := d } }) ∨
      ∃ session, l = .stop ∧ s.running = some session ∧
        s' = ⟨{ s.files with logs := session.daemon.logsFile }, none,
          s.ended ++ session.daemon.created⟩ := by
  cases l with
  | launch fs config =>
    left
    simp only [step] at h
    cases hrunning : s.running with
    | some session => simp [hrunning] at h
    | none =>
      rw [hrunning] at h
      exact ⟨fs, config, _, _, rfl, rfl, rfl, (Option.some.inj h).symm⟩
  | daemon l =>
    right; left
    obtain ⟨session, hrunning, h⟩ := Option.bind_eq_some_iff.mp h
    obtain ⟨d, hd, h⟩ := Option.bind_eq_some_iff.mp h
    exact ⟨l, session, d, rfl, hrunning, hd, (Option.some.inj h).symm⟩
  | stop =>
    right; right
    obtain ⟨session, hrunning, h⟩ := Option.bind_eq_some_iff.mp h
    exact ⟨session, rfl, hrunning, (Option.some.inj h).symm⟩

def Counts (session : Session Value) : Prop :=
  (∀ ne ∈ session.daemon.created, ne.id ≠ 0) →
    session.daemon.counter.toNat = session.largest.toNat + session.fresh

theorem start_counts (man : LogsManager Value) (logsFile : Option (List UInt8)) :
    Counts (Session.start man logsFile) := by
  intro _
  simp [Session.start, Session.largest, Session.fresh, Daemon.start]

theorem notify_id_eq_zero_iff (counter : Nid) (call : NotifyCall Value) (now : Option Duration) :
    (Notifications.notify counter call now).2.id = 0 ↔
      call.replacesId = 0 ∧ 2 ^ 32 ≤ counter.toNat + 1 := by
  have hlt := counter.toNat_lt
  by_cases hrep : call.replacesId = 0
  · have hwraps : counter + 1 = 0 ↔ 2 ^ 32 ≤ counter.toNat + 1 := by
      rw [← UInt32.toNat_inj, UInt32.toNat_add]
      simp only [UInt32.reduceToNat]
      omega
    simp [Notifications.notify, hrep, hwraps]
  · simp [Notifications.notify, hrep]

theorem daemon_counts {platform : Platform Value} {session : Session Value} {l : Label Value}
    {d : Daemon Value} (hcounts : Counts session) (h : session.daemon.step platform l = some d) :
    Counts { session with daemon := d } := by
  intro hids
  rcases step_numbers h with ⟨call, now, rfl, hcounter, hcreated⟩ | ⟨-, hcounter, hcreated⟩
  · dsimp only at hids ⊢
    rw [hcreated, List.forall_mem_append, List.forall_mem_singleton] at hids
    have hbefore := hcounts hids.1
    have hid := hids.2
    rw [Ne, notify_id_eq_zero_iff, not_and] at hid
    simp only [Session.fresh, Session.largest, hcounter, hcreated, List.countP_append,
      List.countP_singleton] at hbefore ⊢
    by_cases hrep : call.replacesId = 0
    · have hlow := hid hrep
      simp only [Notifications.notify, hrep, if_true, UInt32.toNat_add, UInt32.reduceToNat,
        beq_self_eq_true]
      omega
    · simp only [Notifications.notify, hrep, if_false, beq_iff_eq]
      exact hbefore
  · rw [hcreated] at hids
    have hbefore := hcounts hids
    simpa [Session.fresh, Session.largest, hcounter, hcreated] using hbefore

def Counted (s : Sessions Value) : Prop := ∀ session, s.running = some session → Counts session

theorem step_counted {platform : Platform Value} {s s' : Sessions Value} {l : SessionLabel Value}
    (hs : Counted s) (h : s.step platform l = some s') : Counted s' := by
  intro session' hsession'
  rcases step_cases h with ⟨fs, config, man, files, -, -, -, rfl⟩ |
    ⟨l', session, d, -, hrunning, hd, rfl⟩ | ⟨session, -, -, rfl⟩
  · obtain ⟨man, -, rfl⟩ := Option.map_eq_some_iff.mp hsession'
    exact start_counts man files.logs
  · cases hsession'
    exact daemon_counts (hs session hrunning) hd
  · cases hsession'

theorem step_nonzero_iff {platform : Platform Value} {s s' : Sessions Value}
    {l : SessionLabel Value} (hs : Counted s) (hids : s.NonzeroIds)
    (h : s.step platform l = some s') : s'.NonzeroIds ↔ Numbered s l := by
  rcases step_cases h with ⟨fs, config, man, files, rfl, hrunning, -, rfl⟩ |
    ⟨l', session, d, rfl, hrunning, hd, rfl⟩ | ⟨session, rfl, hrunning, rfl⟩
  · refine iff_of_true ?_ fun _ hcall => (nomatch hcall)
    cases man <;> simpa [NonzeroIds, created, hrunning, Session.start, Daemon.start] using hids
  · simp only [NonzeroIds, created, hrunning, Option.map_some, Option.getD_some,
      List.forall_mem_append] at hids ⊢
    rw [and_iff_right hids.1]
    rcases step_numbers hd with ⟨call, now, rfl, -, hcreated⟩ | ⟨hother, -, hcreated⟩
    · have hcounts := hs session hrunning hids.2
      rw [hcreated, List.forall_mem_append, and_iff_right hids.2, List.forall_mem_singleton, Ne,
        notify_id_eq_zero_iff, hcounts, not_and, not_le]
      simp [Numbered, SessionLabel.call, hrunning]
    · refine iff_of_true (by rw [hcreated]; exact hids.2) fun call hcall => ?_
      cases l' with
      | notify call now => exact absurd rfl (hother call now)
      | _ => cases hcall
  · refine iff_of_true ?_ fun _ hcall => (nomatch hcall)
    simpa [NonzeroIds, created, hrunning] using hids

theorem start_counted (files : Files) : Counted (start files : Sessions Value) := by
  intro session hsession
  cases hsession

theorem start_nonzero (files : Files) : NonzeroIds (start files : Sessions Value) := by
  intro ne hne
  cases hne

/-! What the files and the logs hold. -/

def Clear (platform : Platform Value) (file : Option (List UInt8)) : Prop :=
  ∀ fs buf, LogsManager.parseLogs platform fs file = .ok buf → ∀ ne ∈ buf, ne.id ≠ 0

/-- A log without the id 0 is read back as one. -/
structure Reads (platform : Platform Value) : Prop where
  empty : platform.logFromStr "[]" = .ok []
  written : ∀ log buf, (∀ ne ∈ log, ne.id ≠ 0) →
    platform.logFromStr (platform.logToString log) = .ok buf → ∀ ne ∈ buf, ne.id ≠ 0

/-- A write that fails leaves no id 0 behind, and a broadcast that `notify` did not ask for
has another id. -/
def Harmless (platform : Platform Value) (s : Sessions Value) : SessionLabel Value → Prop
  | .launch fs _ => ∀ left, fs.writes = .error left → Clear platform left
  | .daemon (.execute _ disk) =>
    (∀ left, disk = .error left → Clear platform (some left)) ∧
      ∀ session jd empty event, s.running = some session →
        session.daemon.phase = .executing jd empty → jd.cmd = .broadcast event →
          event ∈ s.created ∨ event.id ≠ 0
  | _ => True

/-- No notification with id 0 is stored: not in the files, not in the log of a daemon. -/
structure Stored (platform : Platform Value) (s : Sessions Value) : Prop where
  files : Clear platform s.files.logs
  log : ∀ session, s.running = some session →
    ∀ ne ∈ session.daemon.manager.logsBuffer, ne.id ≠ 0
  logsFile : ∀ session, s.running = some session → Clear platform session.daemon.logsFile

theorem clear_text {platform : Platform Value} {text : String}
    (h : ∀ buf, platform.logFromStr text = .ok buf → ∀ ne ∈ buf, ne.id ≠ 0) :
    Clear platform (some (Utf8.utf8 text)) := by
  intro fs buf hparse
  simp only [LogsManager.parseLogs, readToString, Utf8.fromUtf8_utf8] at hparse
  cases hreads : fs.reads with
  | false => simp [hreads] at hparse
  | true =>
    rw [hreads] at hparse
    cases htext : platform.logFromStr text with
    | error err => simp [htext] at hparse
    | ok log =>
      have hlog : log = buf := by simpa [htext] using hparse
      exact h buf (hlog ▸ htext)

theorem new_clear {platform : Platform Value} {fs : FileSystem} {config : LogsConfig}
    {files files' : Files} {man : Option (LogsManager Value)} (hserde : Reads platform)
    (hfiles : Clear platform files.logs)
    (hleft : ∀ left, fs.writes = .error left → Clear platform left)
    (hnew : LogsManager.new platform fs config files = (man, files')) :
    Clear platform files'.logs ∧ ∀ man' ∈ man, ∀ ne ∈ man'.logsBuffer, ne.id ≠ 0 := by
  unfold LogsManager.new at hnew
  split at hnew
  next buf hparse =>
    cases hnew
    refine ⟨hfiles, fun man' hman' => ?_⟩
    cases hman'
    exact hfiles fs buf hparse
  next err hparse =>
    cases hnew
    refine ⟨hfiles, fun man' hman' => ?_⟩
    cases hman'
    simp
  next err hparse =>
    split_ifs at hnew
    · cases hnew
      exact ⟨hfiles, by simp⟩
    · split at hnew
      next left hwrites =>
        cases hnew
        exact ⟨hleft left hwrites, by simp⟩
      next hwrites =>
        cases hnew
        refine ⟨clear_text fun buf hbuf => ?_, fun man' hman' => ?_⟩
        · rw [hserde.empty] at hbuf
          cases hbuf
          simp
        · cases hman'
          simp

theorem step_unexecuted {platform : Platform Value} {d d' : Daemon Value} {l : Label Value}
    (h : d.step platform l = some d') (hl : ∀ env disk, l ≠ .execute env disk) :
    d'.manager = d.manager ∧ d'.logsFile = d.logsFile := by
  rcases Daemon.step_still h with hstill | ⟨-, h⟩ | ⟨-, h⟩ | ⟨env, disk, rfl, -⟩ | ⟨_, _, -, h⟩
  · exact ⟨hstill.manager, hstill.logsFile⟩
  · obtain ⟨-, -, rfl⟩ := Daemon.recv_cases h
    exact ⟨rfl, rfl⟩
  · obtain ⟨-, -, ⟨-, rfl⟩ | ⟨-, rfl⟩ | ⟨jd, rest, -, rfl⟩⟩ := Daemon.pop_cases h <;>
      exact ⟨rfl, rfl⟩
  · exact absurd rfl (hl env disk)
  · obtain ⟨tr, -, ⟨-, rfl⟩ | ⟨-, rfl | rfl⟩⟩ := Daemon.reply_cases h <;> exact ⟨rfl, rfl⟩

theorem execute_clear {platform : Platform Value} {env : Env} {jd : JobDesc Value}
    {man : LogsManager Value} {ex : Executed Value}
    (hman : ∀ ne ∈ man.logsBuffer, ne.id ≠ 0)
    (hevent : ∀ event, jd.cmd = .broadcast event → event.id ≠ 0)
    (h : Job.execute platform env jd man = some ex) :
    ∀ ne ∈ ex.manager.logsBuffer, ne.id ≠ 0 := by
  intro ne hne
  by_cases hcmd : ∃ event, jd.cmd = .broadcast event
  · obtain ⟨event, hcmd⟩ := hcmd
    rw [(Job.execute_broadcast h hcmd).1] at hne
    rcases Deque.mem_of_mem_enqueue LogsManager.victim_lt hne with rfl | hne
    · exact hevent _ hcmd
    · exact hman ne hne
  · have hids := Marked.ids_eq (Job.execute_marks h fun event hcmd' => hcmd ⟨event, hcmd'⟩)
    have hid : ne.id ∈ man.logsBuffer.map NotificationEvent.id :=
      hids ▸ List.mem_map_of_mem hne
    obtain ⟨ne', hne', hsame⟩ := List.mem_map.mp hid
    exact hsame ▸ hman ne' hne'

theorem conclude_clear {platform : Platform Value} (hserde : Reads platform) {d : Daemon Value}
    {pid : Pid} {empty : Bool} {fj : FulfilledJob} {disk : Except (List UInt8) Unit}
    (hman : ∀ ne ∈ d.manager.logsBuffer, ne.id ≠ 0) (hfile : Clear platform d.logsFile)
    (hleft : ∀ left, disk = .error left → Clear platform (some left)) :
    Clear platform (d.conclude platform pid empty fj disk).logsFile := by
  unfold Daemon.conclude
  dsimp only
  split_ifs
  · cases disk with
    | ok _ => exact clear_text fun buf hbuf => hserde.written _ buf hman hbuf
    | error left => exact hleft left rfl
  · exact hfile

theorem step_stored {platform : Platform Value} (hserde : Reads platform)
    {s s' : Sessions Value} {l : SessionLabel Value} (hids : s.NonzeroIds)
    (hs : Stored platform s) (hl : Harmless platform s l) (h : s.step platform l = some s') :
    Stored platform s' := by
  rcases step_cases h with ⟨fs, config, man, files, rfl, hrunning, hnew, rfl⟩ |
    ⟨l', session, d, rfl, hrunning, hd, rfl⟩ | ⟨session, rfl, hrunning, rfl⟩
  · obtain ⟨hfiles, hman⟩ := new_clear hserde hs.files hl hnew
    refine ⟨hfiles, fun session hsession => ?_, fun session hsession => ?_⟩
    · obtain ⟨man', hman', rfl⟩ := Option.map_eq_some_iff.mp hsession
      exact hman man' hman'
    · obtain ⟨man', -, rfl⟩ := Option.map_eq_some_iff.mp hsession
      exact hfiles
  · have hlog := hs.log session hrunning
    have hfile := hs.logsFile session hrunning
    suffices hkept : (∀ ne ∈ d.manager.logsBuffer, ne.id ≠ 0) ∧ Clear platform d.logsFile from
      ⟨hs.files, fun _ hsession => Option.some.inj hsession ▸ hkept.1,
        fun _ hsession => Option.some.inj hsession ▸ hkept.2⟩
    by_cases hexec : ∃ env disk, l' = .execute env disk
    · obtain ⟨env, disk, rfl⟩ := hexec
      obtain ⟨hleft, hothers⟩ := hl
      obtain ⟨jd, empty, hphase, ⟨-, rfl⟩ | ⟨ex, hex, rfl⟩⟩ := Daemon.execute_outcome hd
      · exact ⟨hlog, hfile⟩
      · have hclear := execute_clear hlog (fun event hcmd => ?_) hex
        · refine ⟨?_, conclude_clear hserde hclear hfile hleft⟩
          rw [(Daemon.conclude_log ..).1]
          exact hclear
        · rcases hothers session jd empty event hrunning hphase hcmd with hcreated | hid
          · exact hids event hcreated
          · exact hid
    · obtain ⟨hman, hlogsFile⟩ := step_unexecuted hd fun env disk heq => hexec ⟨env, disk, heq⟩
      rw [hman, hlogsFile]
      exact ⟨hlog, hfile⟩
  · exact ⟨hs.logsFile session hrunning, fun _ hsession => (nomatch hsession),
      fun _ hsession => (nomatch hsession)⟩

/-- From any files and over any number of sessions, `notify` gives out no id 0 exactly as long
as each call that names no notification to replace finds an id above the largest one its
session loaded. What is stored then has no id 0 either, when nobody else puts one there. -/
theorem nonzero_ids_iff (platform : Platform Value) (files : Files)
    (labels : List (SessionLabel Value)) :
    (Always (step platform) NonzeroIds (start files) labels ↔
        Along (step platform) Numbered (start files) labels) ∧
      (Reads platform → Clear platform files.logs →
        Along (step platform) (Harmless platform) (start files) labels →
        Along (step platform) Numbered (start files) labels →
          Always (step platform) (Stored platform) (start files) labels) := by
  have hiff : Always (step platform) NonzeroIds (start files) labels ↔
      Along (step platform) Numbered (start files) labels :=
    always_iff_along (fun _ _ _ hs h => step_counted hs h)
      (fun _ _ _ hs hids h => step_nonzero_iff hs hids h) (start_counted files)
      (start_nonzero files) labels
  refine ⟨hiff, fun hserde hfiles hharmless hnumbered => ?_⟩
  have hstart : Stored platform (start files) :=
    ⟨hfiles, fun _ hsession => (nomatch hsession), fun _ hsession => (nomatch hsession)⟩
  have hboth : Always (step platform) (fun s => s.NonzeroIds ∧ Stored platform s) (start files)
      labels :=
    (hiff.mpr hnumbered).invariant
      (fun _ _ _ hs hl hids h => ⟨hids, step_stored hserde hs.1 hs.2 hl h⟩) hharmless
      ⟨start_nonzero files, hstart⟩
  exact hboth.mono fun _ h => h.2

def relaunched (replacesId : Nid) : List (SessionLabel Unit) :=
  .launch .sound ⟨10, true, 5000⟩ ::
    ((Identity.notified replacesId).map .daemon ++ [.stop, .launch .sound ⟨10, true, 5000⟩])

theorem nonzero_ids_iff_relaunched :
    Always (step (Storage.Platform.knowing [.bare 7 7 0])) NonzeroIds (start ⟨none, none⟩)
      (relaunched 7 ++ (Identity.notified 0).map .daemon) :=
  (nonzero_ids_iff _ _ _).1.mpr (by decide +kernel)

/-- A client replaces the largest id there is; the next session counts on from it. -/
theorem largest_id_wraps :
    ¬ Always (step (Storage.Platform.knowing [.bare 4294967295 4294967295 0])) NonzeroIds
      (start ⟨none, none⟩) (relaunched 4294967295 ++ (Identity.notified 0).map .daemon) := by
  decide +kernel

end Sessions

end NotifsPiper

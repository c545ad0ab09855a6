import NotifsPiper.GroupCommit
import NotifsPiper.Queueing
import NotifsPiper.Sessions

/-! The log over the whole life of its file. Whatever daemons run over the file one after the
other, and wherever each of them is stopped, the log is a store that commits in groups. -/

namespace NotifsPiper.Restarts

open Runs Storage Queueing
open GroupCommit (Event Kept Reflects Store kept)

variable {Value : Type}

abbrev Entry (Value : Type) := LogsConfig × Task Value

def perform (platform : Platform Value) (log : List (NotificationEvent Value))
    (entry : Entry Value) : Option (List (NotificationEvent Value)) :=
  ((⟨log, entry.1, false, true, true⟩ : LogsManager Value).step platform entry.2).map
    LogsManager.logsBuffer

def done (platform : Platform Value) (d : Daemon Value) (env : Env) : List (Event (Entry Value)) :=
  match d.phase with
  | .executing jd empty =>
    match Job.execute platform env jd d.manager with
    | none => []
    | some ex =>
      .perform (d.manager.logsConfig, env, jd) ::
        if empty && ex.manager.dirty then [.commit] else []
  | _ => []

def happens (platform : Platform Value) (d : Daemon Value) :
    Label Value → List (Event (Entry Value))
  | .execute env _ => done platform d env
  | _ => []

def history (platform : Platform Value) (s : Sessions Value) :
    SessionLabel Value → List (Event (Entry Value))
  | .daemon l => (s.running.map fun session => happens platform session.daemon l).getD []
  | .stop => [.crash]
  | .launch .. => []

/-- The file operations succeed. -/
def Sound : SessionLabel Value → Prop
  | .launch fs _ => fs = .sound
  | .daemon l => Written l
  | .stop => True

/-- The daemon works on the volatile log, and the durable one is in the file. -/
structure Follows (platform : Platform Value) (d : Daemon Value)
    (t : Store (List (NotificationEvent Value))) : Prop where
  file : Loads platform d.logsFile t.durable
  log : d.manager.logsBuffer = t.volatile
  interface : d.manager.interface = true
  notifyer : d.manager.notifyer = true

def Mirrors (platform : Platform Value) (s : Sessions Value)
    (t : Store (List (NotificationEvent Value))) : Prop :=
  match s.running with
  | some session => Follows platform session.daemon t
  | none => Loads platform s.files.logs t.durable ∧ t.volatile = t.durable

section Steps

variable {platform : Platform Value} {d d' : Daemon Value}
  {t : Store (List (NotificationEvent Value))}

theorem perform_executed {env : Env} {jd : JobDesc Value} {ex : Executed Value}
    (hd : Follows platform d t) (hex : Job.execute platform env jd d.manager = some ex) :
    perform platform t.volatile (d.manager.logsConfig, env, jd) = some ex.manager.logsBuffer := by
  have hsaved : d.manager.saved = ⟨t.volatile, d.manager.logsConfig, false, true, true⟩ := by
    simp only [LogsManager.saved, hd.log, hd.interface, hd.notifyer]
  have hstep := LogsManager.step_saved platform d.manager (env, jd)
  have hdone : d.manager.step platform (env, jd) = some ex.manager := by
    rw [LogsManager.step, hex]
    rfl
  rw [hdone, hsaved] at hstep
  obtain ⟨man, hman, heq⟩ := Option.map_eq_some_iff.mp hstep
  have hlog : man.saved.logsBuffer = ex.manager.saved.logsBuffer := by rw [heq]
  have hlog : man.logsBuffer = ex.manager.logsBuffer := hlog
  rw [perform, hman, Option.map_some, hlog]

theorem Follows.kept (hd : Follows platform d t) (hmanager : d'.manager = d.manager)
    (hfile : d'.logsFile = d.logsFile) : Follows platform d' t := by
  refine ⟨?_, ?_, ?_, ?_⟩
  · rw [hfile]
    exact hd.file
  all_goals rw [hmanager]
  · exact hd.log
  · exact hd.interface
  · exact hd.notifyer

theorem execute_follows {env : Env} (hd : Follows platform d t)
    (hserde : Decodes platform d'.manager.logsBuffer)
    (h : d.execute platform env (.ok ()) = some d') :
    ∃ t', run (GroupCommit.step (perform platform)) t (done platform d env) = some t' ∧
      Follows platform d' t' := by
  obtain ⟨jd, empty, hphase, ⟨hex, rfl⟩ | ⟨ex, hex, rfl⟩⟩ := Daemon.execute_outcome h
  · exact ⟨t, by simp [done, hphase, hex], hd.kept rfl rfl⟩
  · have hperform := perform_executed hd hex
    obtain ⟨hinterface, hnotifyer⟩ :
        ex.manager.interface = true ∧ ex.manager.notifyer = true := by
      have hsetup := Job.execute_setup hex
      simp only [LogsManager.setup, Prod.mk.injEq] at hsetup
      exact ⟨hsetup.2.1.trans hd.interface, hsetup.2.2.trans hd.notifyer⟩
    by_cases hsave : (empty && ex.manager.dirty) = true
    · simp only [Daemon.conclude, if_pos hsave] at hserde ⊢
      refine ⟨⟨ex.manager.logsBuffer, ex.manager.logsBuffer⟩, ?_, ?_⟩
      · simp only [done, hphase, hex, if_pos hsave]
        exact run_cons_some.mpr ⟨_, by rw [GroupCommit.step, hperform]; rfl, rfl⟩
      · exact ⟨loads_written hserde, rfl, hinterface, hnotifyer⟩
    · simp only [Daemon.conclude, if_neg hsave]
      refine ⟨⟨ex.manager.logsBuffer, t.durable⟩, ?_, ?_⟩
      · simp only [done, hphase, hex, if_neg hsave]
        exact run_cons_some.mpr ⟨_, by rw [GroupCommit.step, hperform]; rfl, rfl⟩
      · exact ⟨hd.file, rfl, hinterface, hnotifyer⟩

theorem step_follows {l : Label Value} (hd : Follows platform d t) (hwritten : Written l)
    (hserde : Decodes platform d'.manager.logsBuffer) (h : d.step platform l = some d') :
    ∃ t', run (GroupCommit.step (perform platform)) t (happens platform d l) = some t' ∧
      Follows platform d' t' := by
  by_cases hexecute : ∃ env disk, l = .execute env disk
  · obtain ⟨env, disk, rfl⟩ := hexecute
    cases hwritten
    exact execute_follows hd hserde h
  · have hidle : happens platform d l = [] := by
      cases l with
      | execute env disk => exact absurd ⟨env, disk, rfl⟩ hexecute
      | _ => rfl
    obtain ⟨hmanager, hfile⟩ :=
      Sessions.step_unexecuted h fun env disk hl => hexecute ⟨env, disk, hl⟩
    exact ⟨t, by rw [hidle]; rfl, hd.kept hmanager hfile⟩

end Steps

section Lives

variable {platform : Platform Value} {s s' : Sessions Value}
  {t : Store (List (NotificationEvent Value))}

theorem exists_loads (platform : Platform Value) (file : Option (List UInt8)) :
    ∃ log, Loads platform file log := by
  unfold Loads LogsManager.new
  dsimp only
  cases LogsManager.parseLogs platform .sound file with
  | ok buf => exact ⟨buf, fun _ _ => rfl⟩
  | error err => cases err <;> exact ⟨[], fun _ _ => rfl⟩

theorem launch_mirrors {config : LogsConfig} {man : Option (LogsManager Value)} {files : Files}
    (hempty : platform.logFromStr "[]" = .ok []) (hloads : Loads platform s.files.logs t.durable)
    (hover : t.volatile = t.durable)
    (hnew : LogsManager.new platform .sound config s.files = (man, files)) :
    Mirrors platform ⟨files, man.map fun man => .start man files.logs, s.ended⟩ t := by
  have hlog := hloads config s.files.backup
  rw [hnew] at hlog
  obtain ⟨man, rfl, hbuffer⟩ := Option.map_eq_some_iff.mp hlog
  have hafter := (loads_new hempty hnew).2
  rw [hbuffer] at hafter
  exact ⟨hafter, hbuffer.trans hover.symm, rfl, rfl⟩

/-- Every log in memory is read back as it would be written. -/
def Reads (platform : Platform Value) (s : Sessions Value) : Prop :=
  ∀ session ∈ s.running, Decodes platform session.daemon.manager.logsBuffer

instance decidableReads [DecidableEq Value] (platform : Platform Value) (s : Sessions Value) :
    Decidable (Reads platform s) :=
  inferInstanceAs (Decidable (∀ session ∈ s.running,
    platform.logFromStr (platform.logToString session.daemon.manager.logsBuffer) =
      .ok session.daemon.manager.logsBuffer))

theorem step_mirrors {l : SessionLabel Value} (hempty : platform.logFromStr "[]" = .ok [])
    (hs : Mirrors platform s t) (hsound : Sound l) (hserde : Reads platform s')
    (h : s.step platform l = some s') :
    ∃ t', run (GroupCommit.step (perform platform)) t (history platform s l) = some t' ∧
      Mirrors platform s' t' := by
  rcases Sessions.step_cases h with ⟨fs, config, man, files, rfl, hrunning, hnew, rfl⟩ |
    ⟨l, session, d, rfl, hrunning, hd, rfl⟩ | ⟨session, rfl, hrunning, rfl⟩
  all_goals simp only [Mirrors, hrunning] at hs
  · cases hsound
    exact ⟨t, rfl, launch_mirrors hempty hs.1 hs.2 hnew⟩
  · simp only [history, hrunning, Option.map_some, Option.getD_some]
    exact step_follows hs hsound (hserde _ rfl) hd
  · exact ⟨⟨t.durable, t.durable⟩, rfl, hs.file, rfl⟩

end Lives

/-- However often the daemon is started over a file, with whatever options, and between whichever
two steps it is stopped each time: the file holds what the committed jobs lead to, one after the other, and the
daemon that runs has the log of these and of the jobs it has done since. A job is committed by
the write that follows it, and all others are undone by the next stop. -/
theorem restarts_commit (platform : Platform Value) (hempty : platform.logFromStr "[]" = .ok [])
    (files : Files) (labels : List (SessionLabel Value)) (hsound : ∀ l ∈ labels, Sound l)
    (hserde : Always (Sessions.step platform) (Reads platform) (Sessions.start files) labels)
    (s : Sessions Value)
    (hrun : run (Sessions.step platform) (Sessions.start files) labels = some s) :
    ∃ log t, Loads platform files.logs log ∧
      Reflects (perform platform) log (kept (trace (Sessions.step platform) (history platform)
        (Sessions.start files) labels)) t ∧ Mirrors platform s t := by
  obtain ⟨log, hlog⟩ := exists_loads platform files.logs
  have hstart : Mirrors platform (Sessions.start files) ⟨log, log⟩ := ⟨hlog, rfl⟩
  obtain ⟨t, ht, hmirrors⟩ := run_followed
    (fun _ _ _ _ hs hl hreads hstep => step_mirrors hempty hs hl hreads hstep) hserde
    (along_of_forall (fun l hl _ => hsound l hl) _) hstart hrun
  exact ⟨log, t, hlog, GroupCommit.run_kept ht, hmirrors⟩

def restarted : List (SessionLabel Unit) :=
  .launch .sound ⟨10, true, 5000⟩ :: (flushing (.ok ())).map .daemon ++
    [.stop, .launch .sound ⟨5, false, 0⟩]

theorem restarts_commit_restarted :
    ∃ s, run (Sessions.step (Platform.knowing [.bare 1 0 0])) (Sessions.start ⟨none, none⟩)
        restarted = some s ∧
      (s.running.map fun session => session.daemon.manager.logsBuffer) = some [.bare 1 0 0] ∧
      ∃ log t, Loads (Platform.knowing [.bare 1 0 0]) none log ∧
        Reflects (perform (Platform.knowing [.bare 1 0 0])) log
          (kept (trace (Sessions.step (Platform.knowing [.bare 1 0 0]))
            (history (Platform.knowing [.bare 1 0 0])) (Sessions.start ⟨none, none⟩) restarted)) t ∧
        Mirrors (Platform.knowing [.bare 1 0 0]) s t := by
  have hloaded : (run (Sessions.step (Platform.knowing [.bare 1 0 0]))
      (Sessions.start ⟨none, none⟩) restarted).map (fun s =>
        s.running.map fun session => session.daemon.manager.logsBuffer) =
      some (some [.bare 1 0 0]) := by
    decide +kernel
  obtain ⟨s, hrun, hlog⟩ := Option.map_eq_some_iff.mp hloaded
  exact ⟨s, hrun, hlog, restarts_commit (Platform.knowing [.bare 1 0 0]) (by decide)
    ⟨none, none⟩ restarted (by simp [restarted, flushing, Sound, Written]) (by decide +kernel) s
    hrun⟩

end NotifsPiper.Restarts

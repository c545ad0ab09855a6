import NotifsPiper.Sessions
import NotifsPiper.Storage

/-! More daemons than one over the same files. The log is read before the name on the bus is
asked for, so that a daemon that will not get the name has already looked at the file, and has
moved it away if it could not parse it. The daemon that runs writes its log in pieces. -/

namespace NotifsPiper.Rivals

open Runs Storage

variable {Value : Type}

inductive Target
  | logs
  | backup
  | gone
  deriving DecidableEq, Repr

/-- A `fs::write` under way: the file is created or truncated, and some of the bytes are in. -/
structure Writing where
  rest : List UInt8
  target : Target
  deriving DecidableEq, Repr

/-- The daemon that runs, what is on the disk, and the rivals that are about to move the file
away or to leave an empty log in its place. -/
structure World (Value : Type) where
  daemon : Daemon Value
  files : Files
  writing : Option Writing
  movers : Nat
  blankers : Nat

inductive Event (Value : Type)
  | daemon (l : Label Value)
  | write (n : Nat)
  | rival
  | move
  | blank

def Event.own : Event Value → Option (Label Value)
  | .daemon l => some l
  | _ => none

def ofManager : Label Value → Bool
  | .recv | .pop | .execute .. | .reply .. => true
  | _ => false

def flushed (platform : Platform Value) (d : Daemon Value) : Label Value → Option (List UInt8)
  | .execute env _ =>
    match d.phase with
    | .executing jd empty =>
      (Job.execute platform env jd d.manager).bind fun ex =>
        if empty && ex.manager.dirty then
          some (Utf8.utf8 (platform.logToString ex.manager.logsBuffer))
        else none
    | _ => none
  | _ => none

/-- A rival cannot parse what it reads. -/
def rejects (platform : Platform Value) (file : Option (List UInt8)) : Bool :=
  match LogsManager.parseLogs platform .sound file with
  | .error (.parseError _) => true
  | _ => false

def append (files : Files) (bytes : List UInt8) : Target → Files
  | .logs => { files with logs := files.logs.map (· ++ bytes) }
  | .backup => { files with backup := files.backup.map (· ++ bytes) }
  | .gone => files

def Target.renamed : Target → Target
  | logs => backup
  | _ => gone

namespace World

def start (man : LogsManager Value) (files : Files) : World Value :=
  ⟨Daemon.start man files.logs, files, none, 0, 0⟩

def write (w : World Value) (n : Nat) : Option (World Value) :=
  w.writing.map fun writing =>
    let rest := writing.rest.drop n
    { w with
      files := append w.files (writing.rest.take n) writing.target
      writing := if rest = [] then none else some { writing with rest := rest } }

def rival (platform : Platform Value) (w : World Value) : World Value :=
  if rejects platform w.files.logs then { w with movers := w.movers + 1 } else w

def move (w : World Value) : Option (World Value) :=
  if w.movers = 0 then none
  else if w.files.logs = none then some { w with movers := w.movers - 1 }
  else some { w with
    files := ⟨none, w.files.logs⟩
    writing := w.writing.map fun writing => { writing with target := writing.target.renamed }
    movers := w.movers - 1
    blankers := w.blankers + 1 }

/-- Two writers in one file are left out. -/
def blank (w : World Value) : Option (World Value) :=
  if w.blankers = 0 || w.writing.any (fun writing => writing.target == .logs) then none
  else some { w with
    files := { w.files with logs := some (Utf8.utf8 "[]") }
    blankers := w.blankers - 1 }

def step (platform : Platform Value) (w : World Value) : Event Value → Option (World Value)
  | .daemon l =>
    if w.writing.isSome && ofManager l then none
    else (w.daemon.step platform l).map fun d =>
      match flushed platform w.daemon l with
      | none => { w with daemon := d }
      | some bytes => { w with
          daemon := d
          files := { w.files with logs := some [] }
          writing := some ⟨bytes, .logs⟩ }
  | .write n => w.write n
  | .rival => some (w.rival platform)
  | .move => w.move
  | .blank => w.blank

end World

/-! What the daemon writes. -/

section Writes

variable {platform : Platform Value} {d d' : Daemon Value} {l : Label Value}

theorem execute_flushed {env : Env} (h : d.execute platform env (.ok ()) = some d') :
    (flushed platform d (.execute env (.ok ())) = none ∧ d'.logsFile = d.logsFile) ∨
      ∃ bytes, flushed platform d (.execute env (.ok ())) = some bytes ∧
        bytes = Utf8.utf8 (platform.logToString d'.manager.logsBuffer) ∧
        d'.logsFile = some bytes := by
  obtain ⟨jd, empty, hphase, ⟨hex, rfl⟩ | ⟨ex, hex, rfl⟩⟩ := Daemon.execute_outcome h
  · exact .inl ⟨by simp [flushed, hphase, hex], rfl⟩
  · by_cases hsave : (empty && ex.manager.dirty) = true
    · refine .inr ⟨Utf8.utf8 (platform.logToString ex.manager.logsBuffer), ?_, ?_, ?_⟩
      · simp only [flushed, hphase, hex, Option.bind_some, if_pos hsave]
      · simp [Daemon.conclude, hsave]
      · simp [Daemon.conclude, hsave]
    · refine .inl ⟨?_, ?_⟩
      · simp only [flushed, hphase, hex, Option.bind_some, if_neg hsave]
      · simp [Daemon.conclude, hsave]

theorem step_flushed (hwritten : Written l) (h : d.step platform l = some d') :
    (flushed platform d l = none ∧ d'.logsFile = d.logsFile) ∨
      ∃ bytes, flushed platform d l = some bytes ∧
        bytes = Utf8.utf8 (platform.logToString d'.manager.logsBuffer) ∧
        d'.logsFile = some bytes := by
  by_cases hexecute : ∃ env disk, l = .execute env disk
  · obtain ⟨env, disk, rfl⟩ := hexecute
    cases hwritten
    exact execute_flushed h
  · have hfile := (Sessions.step_unexecuted h fun env disk hl => hexecute ⟨env, disk, hl⟩).2
    refine .inl ⟨?_, hfile⟩
    cases l with
    | execute env disk => exact absurd ⟨env, disk, rfl⟩ hexecute
    | _ => rfl

theorem accepts_written {log : List (NotificationEvent Value)} (h : Decodes platform log) :
    rejects platform (some (Utf8.utf8 (platform.logToString log))) = false := by
  have hdecodes : platform.logFromStr (platform.logToString log) = .ok log := h
  simp [rejects, LogsManager.parseLogs, readToString, FileSystem.sound, Utf8.fromUtf8_utf8,
    hdecodes]

theorem accepts_new {config : LogsConfig} {files files' : Files} {man : LogsManager Value}
    (hempty : platform.logFromStr "[]" = .ok [])
    (hnew : LogsManager.new platform .sound config files = (some man, files')) :
    rejects platform files'.logs = false := by
  unfold LogsManager.new at hnew
  split at hnew
  next buf hparse =>
    cases hnew
    simp [rejects, hparse]
  next err hparse =>
    cases hnew
    simp [rejects, hparse]
  next err hparse =>
    cases hnew
    simp [rejects, LogsManager.parseLogs, readToString, FileSystem.sound, Utf8.fromUtf8_utf8,
      hempty]

end Writes

/-! The pieces. -/

def under (files : Files) : Target → Option (List UInt8)
  | .logs => files.logs
  | .backup => files.backup
  | .gone => none

def Holds (full : Option (List UInt8)) (target : Target) (w : World Value) : Prop :=
  (w.writing = none ∧ under w.files target = full) ∨
    ∃ writing done, w.writing = some writing ∧ writing.target = target ∧
      under w.files target = some done ∧ full = some (done ++ writing.rest)

section Pieces

variable {platform : Platform Value} {full : Option (List UInt8)} {target : Target}
  {w w' : World Value}

theorem under_append {files : Files} {done : List UInt8} (h : under files target = some done)
    (bytes : List UInt8) : under (append files bytes target) target = some (done ++ bytes) := by
  cases target with
  | logs =>
    have hlogs : files.logs = some done := h
    simp [under, append, hlogs]
  | backup =>
    have hbackup : files.backup = some done := h
    simp [under, append, hbackup]
  | gone => cases h

theorem under_append_ne (files : Files) (bytes : List UInt8) {other : Target}
    (h : other ≠ target) : under (append files bytes target) other = under files other := by
  cases target <;> cases other <;> first | rfl | exact absurd rfl h

theorem write_cases {n : Nat} (h : w.write n = some w') :
    ∃ writing, w.writing = some writing ∧ w' = { w with
      files := append w.files (writing.rest.take n) writing.target
      writing := if writing.rest.drop n = [] then none
        else some { writing with rest := writing.rest.drop n } } := by
  obtain ⟨writing, hwriting, hw⟩ := Option.map_eq_some_iff.mp h
  exact ⟨writing, hwriting, hw.symm⟩

theorem write_holds {n : Nat} (hw : Holds full target w) (h : w.write n = some w') :
    Holds full target w' ∧
      ∀ other, other ≠ target → under w'.files other = under w.files other := by
  obtain ⟨writing, hwriting, rfl⟩ := write_cases h
  obtain ⟨hnone, -⟩ | ⟨writing', done, hwriting', rfl, hfile, rfl⟩ := hw
  · rw [hwriting] at hnone
    cases hnone
  · cases hwriting.symm.trans hwriting'
    have hmore := under_append hfile (writing.rest.take n)
    have hwhole : done ++ writing.rest = done ++ writing.rest.take n ++ writing.rest.drop n := by
      rw [List.append_assoc, List.take_append_drop]
    refine ⟨?_, fun other hother => under_append_ne _ _ hother⟩
    by_cases hrest : writing.rest.drop n = []
    · rw [hrest, List.append_nil] at hwhole
      exact .inl ⟨if_pos hrest, hmore.trans (congrArg some hwhole.symm)⟩
    · exact .inr ⟨_, _, if_neg hrest, rfl, hmore, congrArg some hwhole⟩

theorem daemon_cases {l : Label Value} (h : w.step platform (.daemon l) = some w') :
    ∃ d, w.daemon.step platform l = some d ∧
      (flushed platform w.daemon l = none ∧ w' = { w with daemon := d } ∨
        ∃ bytes, flushed platform w.daemon l = some bytes ∧ w' = { w with
          daemon := d
          files := { w.files with logs := some [] }
          writing := some ⟨bytes, .logs⟩ }) := by
  simp only [World.step] at h
  split_ifs at h with hwaits
  obtain ⟨d, hd, hw⟩ := Option.map_eq_some_iff.mp h
  refine ⟨d, hd, ?_⟩
  cases hflushed : flushed platform w.daemon l with
  | none =>
    rw [hflushed] at hw
    exact .inl ⟨rfl, hw.symm⟩
  | some bytes =>
    rw [hflushed] at hw
    exact .inr ⟨bytes, rfl, hw.symm⟩

theorem move_cases (h : w.move = some w') :
    w.movers ≠ 0 ∧
      (w.files.logs = none ∧ w' = { w with movers := w.movers - 1 } ∨
        w.files.logs ≠ none ∧ w' = { w with
          files := ⟨none, w.files.logs⟩
          writing := w.writing.map fun writing =>
            { writing with target := writing.target.renamed }
          movers := w.movers - 1
          blankers := w.blankers + 1 }) := by
  unfold World.move at h
  split_ifs at h with hmovers hlogs
  · exact ⟨hmovers, .inl ⟨hlogs, (Option.some.inj h).symm⟩⟩
  · exact ⟨hmovers, .inr ⟨hlogs, (Option.some.inj h).symm⟩⟩

theorem blank_cases (h : w.blank = some w') :
    w.blankers ≠ 0 ∧ w' = { w with
      files := { w.files with logs := some (Utf8.utf8 "[]") }
      blankers := w.blankers - 1 } := by
  unfold World.blank at h
  split_ifs at h with hblocked
  have hblankers : ¬ w.blankers = 0 := fun hnone => hblocked (by simp [hnone])
  exact ⟨hblankers, (Option.some.inj h).symm⟩

end Pieces

/-! A rival that comes between two writes. -/

structure Unseen (platform : Platform Value) (backup : Option (List UInt8)) (w : World Value) :
    Prop where
  accepts : rejects platform w.daemon.logsFile = false
  backup : w.files.backup = backup
  movers : w.movers = 0
  blankers : w.blankers = 0
  holds : Holds w.daemon.logsFile .logs w

/-- The file operations of the daemon succeed. -/
def Sound : Event Value → Prop
  | .daemon l => Written l
  | _ => True

/-- No rival reads the file while it is being written. -/
def Between (w : World Value) : Event Value → Prop
  | .rival => w.writing = none
  | _ => True

instance decidableBetween (w : World Value) : (e : Event Value) → Decidable (Between w e)
  | .rival => inferInstanceAs (Decidable (w.writing = none))
  | .daemon _ | .write _ | .move | .blank => isTrue trivial

section Steps

variable {platform : Platform Value} {backup : Option (List UInt8)} {w w' : World Value}

theorem Unseen.whole (hw : Unseen platform backup w) (h : w.writing = none) :
    w.files.logs = w.daemon.logsFile := by
  obtain ⟨-, hfile⟩ | ⟨writing, -, hwriting, -⟩ := hw.holds
  · exact hfile
  · rw [h] at hwriting
    cases hwriting

theorem step_unseen {e : Event Value} (hw : Unseen platform backup w) (hsound : Sound e)
    (hbetween : Between w e) (hserde : Decodes platform w'.daemon.manager.logsBuffer)
    (h : w.step platform e = some w') : Unseen platform backup w' := by
  cases e with
  | daemon l =>
    obtain ⟨d, hd, hcases⟩ := daemon_cases h
    rcases step_flushed hsound hd with ⟨hnone, hfile⟩ | ⟨bytes, hsome, hbytes, hfile⟩
    · obtain ⟨-, rfl⟩ | ⟨bytes, hbytes, -⟩ := hcases
      · have hholds := hw.holds
        rw [← hfile] at hholds
        exact ⟨hfile ▸ hw.accepts, hw.backup, hw.movers, hw.blankers, hholds⟩
      · rw [hnone] at hbytes
        cases hbytes
    · obtain ⟨hnone, -⟩ | ⟨bytes', hsome', rfl⟩ := hcases
      · rw [hsome] at hnone
        cases hnone
      · cases hsome.symm.trans hsome'
        refine ⟨?_, hw.backup, hw.movers, hw.blankers, ?_⟩
        · rw [hfile, hbytes]
          exact accepts_written hserde
        · exact .inr ⟨⟨bytes, .logs⟩, [], rfl, rfl, rfl, hfile⟩
  | write n =>
    obtain ⟨hholds, hother⟩ := write_holds hw.holds h
    have hbackup : w'.files.backup = w.files.backup := hother .backup nofun
    obtain ⟨writing, -, rfl⟩ := write_cases h
    exact ⟨hw.accepts, hbackup.trans hw.backup, hw.movers, hw.blankers, hholds⟩
  | rival =>
    cases h
    rw [World.rival, hw.whole hbetween, hw.accepts]
    exact hw
  | move => exact absurd hw.movers (move_cases h).1
  | blank => exact absurd hw.blankers (blank_cases h).1

/-- Whoever else acts, the daemon takes its own steps. -/
theorem step_own {e : Event Value} (h : w.step platform e = some w') :
    run (Daemon.step platform) w.daemon e.own.toList = some w'.daemon := by
  cases e with
  | daemon l =>
    obtain ⟨d, hd, ⟨-, rfl⟩ | ⟨bytes, -, rfl⟩⟩ := daemon_cases h
    · exact run_cons_some.mpr ⟨d, hd, rfl⟩
    · exact run_cons_some.mpr ⟨d, hd, rfl⟩
  | write n =>
    obtain ⟨writing, -, rfl⟩ := write_cases h
    rfl
  | rival =>
    cases h
    unfold World.rival
    split_ifs <;> rfl
  | move => obtain ⟨-, ⟨-, rfl⟩ | ⟨-, rfl⟩⟩ := move_cases h <;> rfl
  | blank =>
    obtain ⟨-, rfl⟩ := blank_cases h
    rfl

end Steps

/-! A rival that comes in the middle of a write. -/

/-- The daemon does not write its log again, and no second rival comes. -/
def Calm (platform : Platform Value) (w : World Value) : Event Value → Prop
  | .daemon l => flushed platform w.daemon l = none
  | .rival => False
  | _ => True

instance decidableCalm (platform : Platform Value) (w : World Value) :
    (e : Event Value) → Decidable (Calm platform w e)
  | .daemon l => inferInstanceAs (Decidable (flushed platform w.daemon l = none))
  | .rival => isFalse id
  | .write _ | .move | .blank => isTrue trivial

/-- The rival is about to move the file, or about to leave an empty log, or has done both. The
write ends in the file it began in. -/
inductive Taken (full : List UInt8) (w : World Value) : Prop
  | waiting (hmovers : w.movers = 1) (hblankers : w.blankers = 0)
    (hholds : Holds (some full) .logs w)
  | moved (hmovers : w.movers = 0) (hblankers : w.blankers = 1)
    (hholds : Holds (some full) .backup w)
  | blanked (hmovers : w.movers = 0) (hblankers : w.blankers = 0)
    (hlogs : w.files.logs = some (Utf8.utf8 "[]")) (hholds : Holds (some full) .backup w)

section Taking

variable {platform : Platform Value} {full : List UInt8} {w w' : World Value}

theorem write_taken {n : Nat} (hw : Taken full w) (h : w.write n = some w') : Taken full w' := by
  obtain ⟨hmovers, hblankers⟩ : w'.movers = w.movers ∧ w'.blankers = w.blankers := by
    obtain ⟨writing, -, rfl⟩ := write_cases h
    exact ⟨rfl, rfl⟩
  cases hw with
  | waiting hone hnone hholds =>
    exact .waiting (hmovers.trans hone) (hblankers.trans hnone) (write_holds hholds h).1
  | moved hnone hone hholds =>
    exact .moved (hmovers.trans hnone) (hblankers.trans hone) (write_holds hholds h).1
  | blanked hnone hnone' hlogs hholds =>
    obtain ⟨hholds', hother⟩ := write_holds hholds h
    have hsame : w'.files.logs = w.files.logs := hother .logs nofun
    exact .blanked (hmovers.trans hnone) (hblankers.trans hnone') (hsame.trans hlogs) hholds'

theorem move_taken (hw : Taken full w) (h : w.move = some w') : Taken full w' := by
  obtain ⟨hmovers, hcases⟩ := move_cases h
  cases hw with
  | moved hnone => exact absurd hnone hmovers
  | blanked hnone => exact absurd hnone hmovers
  | waiting hone hnone hholds =>
    obtain ⟨hended, hfile⟩ | ⟨writing, done, hwriting, htarget, hfile, hfull⟩ := hholds
    all_goals
      have hlogs : w.files.logs = _ := hfile
      obtain ⟨hgone, -⟩ | ⟨-, rfl⟩ := hcases
      · rw [hgone] at hlogs
        cases hlogs
      refine .moved (by simp [hone]) (by simp [hnone]) ?_
    · exact .inl ⟨by simp [hended], hlogs⟩
    · exact .inr ⟨{ writing with target := .backup }, done, by simp [hwriting, htarget,
        Target.renamed], rfl, hlogs, hfull⟩

theorem step_taken {e : Event Value} (hw : Taken full w) (hcalm : Calm platform w e)
    (h : w.step platform e = some w') : Taken full w' := by
  cases e with
  | daemon l =>
    have hnone : flushed platform w.daemon l = none := hcalm
    obtain ⟨d, -, ⟨-, rfl⟩ | ⟨bytes, hsome, -⟩⟩ := daemon_cases h
    · cases hw with
      | waiting hmovers hblankers hholds => exact .waiting hmovers hblankers hholds
      | moved hmovers hblankers hholds => exact .moved hmovers hblankers hholds
      | blanked hmovers hblankers hlogs hholds => exact .blanked hmovers hblankers hlogs hholds
    · rw [hnone] at hsome
      cases hsome
  | write n => exact write_taken hw h
  | rival => exact hcalm.elim
  | move => exact move_taken hw h
  | blank =>
    obtain ⟨hblankers, rfl⟩ := blank_cases h
    cases hw with
    | waiting hone hnone => exact absurd hnone hblankers
    | blanked hnone hnone' => exact absurd hnone' hblankers
    | moved hnone hone hholds => exact .blanked hnone (by simp [hone]) rfl hholds

end Taking

section Starts

variable {platform : Platform Value} {config : LogsConfig} {files files' : Files}
  {man : LogsManager Value} {events : List (Event Value)} {w : World Value}

theorem run_unseen (hnew : LogsManager.new platform .sound config files = (some man, files'))
    (hempty : platform.logFromStr "[]" = .ok []) (hsound : ∀ e ∈ events, Sound e)
    (hbetween : Along (World.step platform) Between (World.start man files') events)
    (hserde : Always (Daemon.step platform) (fun d => Decodes platform d.manager.logsBuffer)
      (Daemon.start man files'.logs) (events.filterMap Event.own))
    (hrun : run (World.step platform) (World.start man files') events = some w) :
    Unseen platform files'.backup w := by
  have hstart : Unseen platform files'.backup (World.start man files') :=
    ⟨accepts_new hempty hnew, rfl, rfl, rfl, .inl ⟨rfl, rfl⟩⟩
  have hgood := (along_of_forall (fun e he _ => hsound e he) _).and hbetween
  have hserde' : Always (World.step platform)
      (fun w => Decodes platform w.daemon.manager.logsBuffer) (World.start man files') events :=
    always_projected World.daemon (fun d => Decodes platform d.manager.logsBuffer)
      (fun _ _ _ h => step_own h) hserde
  have halways : Always (World.step platform) (Unseen platform files'.backup)
      (World.start man files') events :=
    hserde'.invariant (fun _ _ _ hw he hdec hstep => step_unseen hw he.1 he.2 hdec hstep) hgood
      hstart
  exact always_iff.mp halways events (List.prefix_refl _) w hrun

end Starts

/-- Any number of other daemons may be started beside the one that runs: where none of them reads
the file in the middle of a write, the daemon takes the steps it takes alone, and at the end of
each write its log is in its file, with the backup as it was. -/
theorem rivals_unseen (platform : Platform Value) (config : LogsConfig) (files files' : Files)
    (man : LogsManager Value)
    (hnew : LogsManager.new platform .sound config files = (some man, files'))
    (hempty : platform.logFromStr "[]" = .ok []) (events : List (Event Value))
    (hsound : ∀ e ∈ events, Sound e)
    (hbetween : Along (World.step platform) Between (World.start man files') events)
    (hserde : Always (Daemon.step platform) (fun d => Decodes platform d.manager.logsBuffer)
      (Daemon.start man files'.logs) (events.filterMap Event.own))
    (w : World Value)
    (hrun : run (World.step platform) (World.start man files') events = some w) :
    run (Daemon.step platform) (Daemon.start man files'.logs) (events.filterMap Event.own) =
        some w.daemon ∧
      w.movers = 0 ∧ w.files.backup = files'.backup ∧
      (w.writing = none → w.files.logs = w.daemon.logsFile) := by
  have hunseen := run_unseen hnew hempty hsound hbetween hserde hrun
  exact ⟨run_projected (fun _ _ _ h => step_own h) hrun, hunseen.movers, hunseen.backup, hunseen.whole⟩

/-- A daemon that is started in the middle of a write, and reads what it cannot parse, takes the
log of the one that runs away: however its steps and the rest of the write come, an empty log is
left in the file, and the next start loads nothing. -/
theorem rival_empties (platform : Platform Value) (config : LogsConfig) (files files' : Files)
    (man : LogsManager Value)
    (hnew : LogsManager.new platform .sound config files = (some man, files'))
    (hempty : platform.logFromStr "[]" = .ok []) (before after : List (Event Value))
    (hsound : ∀ e ∈ before, Sound e)
    (hbetween : Along (World.step platform) Between (World.start man files') before)
    (hserde : Always (Daemon.step platform) (fun d => Decodes platform d.manager.logsBuffer)
      (Daemon.start man files'.logs) (before.filterMap Event.own))
    (w w' : World Value)
    (hbefore : run (World.step platform) (World.start man files') before = some w)
    (hrejects : rejects platform w.files.logs = true)
    (hcalm : Along (World.step platform) (Calm platform) (w.rival platform) after)
    (hafter : run (World.step platform) (w.rival platform) after = some w')
    (hended : w'.writing = none) (hmoved : w'.movers = 0) (hblanked : w'.blankers = 0) :
    ∃ full, w.daemon.logsFile = some full ∧ w'.files = ⟨some (Utf8.utf8 "[]"), some full⟩ ∧
      Loads platform w'.files.logs [] := by
  have hunseen := run_unseen hnew hempty hsound hbetween hserde hbefore
  obtain ⟨-, hfile⟩ | ⟨writing, done, hwriting, htarget, hfile, hfull⟩ := hunseen.holds
  · have hlogs : w.files.logs = w.daemon.logsFile := hfile
    rw [hlogs, hunseen.accepts] at hrejects
    cases hrejects
  · have htaken : Taken (done ++ writing.rest) (w.rival platform) := by
      rw [World.rival, if_pos hrejects]
      exact .waiting (by simp [hunseen.movers]) hunseen.blankers
        (.inr ⟨writing, done, hwriting, htarget, hfile, rfl⟩)
    have hdone := run_along (fun _ _ _ hw he hstep => step_taken hw he hstep) htaken hcalm hafter
    refine ⟨_, hfull, ?_⟩
    cases hdone with
    | waiting hone =>
      rw [hmoved] at hone
      cases hone
    | moved _ hone =>
      rw [hblanked] at hone
      cases hone
    | blanked _ _ hlogs hholds =>
      obtain ⟨-, hbackup⟩ | ⟨writing', -, hwriting', -⟩ := hholds
      · have hbackup : w'.files.backup = some (done ++ writing.rest) := hbackup
        have hfiles : w'.files = ⟨some (Utf8.utf8 "[]"), some (done ++ writing.rest)⟩ := by
          rw [← hlogs, ← hbackup]
        refine ⟨hfiles, ?_⟩
        rw [hlogs]
        intro config backup
        simp [LogsManager.new, LogsManager.parseLogs, readToString, FileSystem.sound,
          Utf8.fromUtf8_utf8, hempty]
      · rw [hended] at hwriting'
        cases hwriting'

theorem flushing_decodes :
    Always (Daemon.step (Platform.knowing [.bare 1 0 0]))
      (fun d => Decodes (Platform.knowing [.bare 1 0 0]) d.manager.logsBuffer)
      (Daemon.start ⟨[], ⟨10, true, 5000⟩, false, false, false⟩ (some (Utf8.utf8 "[]")))
      (flushing (.ok ())) := by
  have hblank : Decodes (Platform.knowing [.bare 1 0 0]) [] := rfl
  refine ⟨hblank, fun d hd => ?_⟩
  cases hd
  refine ⟨hblank, fun d hd => ?_⟩
  cases hd
  refine ⟨hblank, fun d hd => ?_⟩
  cases hd
  refine ⟨hblank, fun d hd => ?_⟩
  cases hd
  refine ⟨hblank, fun d hd => ?_⟩
  cases hd
  exact knowing_decodes [.bare 1 0 0]

def besides : List (Event Unit) :=
  .rival :: (flushing (.ok ())).map .daemon ++ [.write 1000, .rival]

theorem rivals_unseen_besides :
    ∃ w, run (World.step (Platform.knowing [.bare 1 0 0]))
        (World.start ⟨[], ⟨10, true, 5000⟩, false, false, false⟩
          ⟨some (Utf8.utf8 "[]"), some (Utf8.utf8 "?")⟩) besides = some w ∧
      w.writing = none ∧ w.movers = 0 ∧ w.files.backup = some (Utf8.utf8 "?") ∧
      w.files.logs = w.daemon.logsFile := by
  have hended : (run (World.step (Platform.knowing [.bare 1 0 0]))
      (World.start ⟨[], ⟨10, true, 5000⟩, false, false, false⟩
        ⟨some (Utf8.utf8 "[]"), some (Utf8.utf8 "?")⟩) besides).map World.writing = some none := by
    decide +kernel
  obtain ⟨w, hrun, hwriting⟩ := Option.map_eq_some_iff.mp hended
  obtain ⟨-, hmovers, hbackup, hlogs⟩ := rivals_unseen (Platform.knowing [.bare 1 0 0])
    ⟨10, true, 5000⟩ ⟨some (Utf8.utf8 "?"), none⟩ ⟨_, some (Utf8.utf8 "?")⟩ _ (by decide)
    (by decide) besides (by simp [besides, flushing, Sound, Written]) (by decide +kernel)
    flushing_decodes w hrun
  exact ⟨w, hrun, hwriting, hmovers, hbackup, hlogs hwriting⟩

def halfway : List (Event Unit) := (flushing (.ok ())).map .daemon ++ [.write 1]

theorem rival_empties_halfway :
    ∃ w w', run (World.step (Platform.knowing [.bare 1 0 0]))
        (World.start ⟨[], ⟨10, true, 5000⟩, false, false, false⟩
          ⟨some (Utf8.utf8 "[]"), some (Utf8.utf8 "?")⟩) halfway = some w ∧
      run (World.step (Platform.knowing [.bare 1 0 0])) (w.rival (Platform.knowing [.bare 1 0 0]))
        [.move, .write 1000, .blank] = some w' ∧
      ∃ full, w.daemon.logsFile = some full ∧ w'.files = ⟨some (Utf8.utf8 "[]"), some full⟩ ∧
        Loads (Platform.knowing [.bare 1 0 0]) w'.files.logs [] := by
  have hreads : (run (World.step (Platform.knowing [.bare 1 0 0]))
      (World.start ⟨[], ⟨10, true, 5000⟩, false, false, false⟩
        ⟨some (Utf8.utf8 "[]"), some (Utf8.utf8 "?")⟩) halfway).map
      (fun w => rejects (Platform.knowing [.bare 1 0 0]) w.files.logs) = some true := by
    decide +kernel
  have hended : (run (World.step (Platform.knowing [.bare 1 0 0]))
      (World.start ⟨[], ⟨10, true, 5000⟩, false, false, false⟩
        ⟨some (Utf8.utf8 "[]"), some (Utf8.utf8 "?")⟩)
      (halfway ++ [.rival, .move, .write 1000, .blank])).map
      (fun w => (w.writing, w.movers, w.blankers)) = some (none, 0, 0) := by
    decide +kernel
  obtain ⟨w, hrun, hrejects⟩ := Option.map_eq_some_iff.mp hreads
  obtain ⟨w', hrun', hviews⟩ := Option.map_eq_some_iff.mp hended
  obtain ⟨m, hm, hafter⟩ := run_append_some.mp hrun'
  cases hrun.symm.trans hm
  obtain ⟨r, hrival, hafter⟩ := run_cons_some.mp hafter
  cases hrival
  obtain ⟨hwriting, hmovers, hblankers⟩ : w'.writing = none ∧ w'.movers = 0 ∧ w'.blankers = 0 := by
    simpa using hviews
  have hcalm : Along (World.step (Platform.knowing [.bare 1 0 0]))
      (Calm (Platform.knowing [.bare 1 0 0])) (w.rival (Platform.knowing [.bare 1 0 0]))
      [.move, .write 1000, .blank] :=
    fun _ _ => ⟨trivial, fun _ _ => ⟨trivial, fun _ _ => ⟨trivial, trivial⟩⟩⟩
  exact ⟨w, w', hrun, hafter, rival_empties (Platform.knowing [.bare 1 0 0])
    ⟨10, true, 5000⟩ ⟨some (Utf8.utf8 "?"), none⟩ ⟨_, some (Utf8.utf8 "?")⟩ _ (by decide)
    (by decide) halfway _ (by simp [halfway, flushing, Sound, Written]) (by decide +kernel)
    flushing_decodes w w' hrun hrejects hcalm hafter hwriting hmovers hblankers⟩

end NotifsPiper.Rivals

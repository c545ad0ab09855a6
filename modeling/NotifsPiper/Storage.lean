import NotifsPiper.Daemon

/-! The file of the log. A start reads it and moves it out of the way when it does not parse;
from then on the manager rewrites it whole, each time it empties the list. -/

namespace NotifsPiper

variable {Value : Type}

inductive ErrorKind
  | notFound
  | invalidData
  | other
  deriving DecidableEq, Repr

inductive LogsDBErrorType
  | readPathError (err : ErrorKind)
  | parseError (err : String)
  deriving DecidableEq, Repr

/-- The file at `logs_path`, and the one next to it that ends in `.backup`. -/
structure Files where
  logs : Option (List UInt8)
  backup : Option (List UInt8)
  deriving DecidableEq, Repr

/-- What the operating system answers to a start: whether it reads and renames the file, and
what a write that fails leaves of it. -/
structure FileSystem where
  reads : Bool
  renames : Bool
  writes : Except (Option (List UInt8)) Unit

def FileSystem.sound : FileSystem := ⟨true, true, .ok ()⟩

def readToString (fs : FileSystem) (file : Option (List UInt8)) : Except ErrorKind String :=
  if !fs.reads then .error .other
  else match file with
    | none => .error .notFound
    | some bytes =>
      match Utf8.fromUtf8 bytes with
      | none => .error .invalidData
      | some text => .ok text

namespace LogsManager

def parseLogs (platform : Platform Value) (fs : FileSystem) (file : Option (List UInt8)) :
    Except LogsDBErrorType (List (NotificationEvent Value)) :=
  match readToString fs file with
  | .error err => .error (.readPathError err)
  | .ok text =>
    match platform.logFromStr text with
    | .error err => .error (.parseError err)
    | .ok buf => .ok buf

/-- The manager, unless the start panics, and the files after it. The kinds of read errors
differ only in what is printed. -/
def new (platform : Platform Value) (fs : FileSystem) (config : LogsConfig) (files : Files) :
    Option (LogsManager Value) × Files :=
  match parseLogs platform fs files.logs with
  | .ok buf => (some ⟨buf, config, false, false, false⟩, files)
  | .error (.readPathError _) => (some ⟨[], config, false, false, false⟩, files)
  | .error (.parseError _) =>
    if !fs.renames then (none, files)
    else
      match fs.writes with
      | .error left => (none, ⟨left, files.logs⟩)
      | .ok () => (some ⟨[], config, false, false, false⟩, ⟨some (Utf8.utf8 "[]"), files.logs⟩)

end LogsManager

namespace Storage

open Runs

/-- A start finds the buffer in the file. -/
def Loads (platform : Platform Value) (file : Option (List UInt8))
    (buffer : List (NotificationEvent Value)) : Prop :=
  ∀ config backup, (LogsManager.new platform .sound config ⟨file, backup⟩).1.map
    LogsManager.logsBuffer = some buffer

/-- The log is read back as it is written. -/
def Decodes (platform : Platform Value) (log : List (NotificationEvent Value)) : Prop :=
  platform.logFromStr (platform.logToString log) = .ok log

/-- Whenever nothing is left to do, and whenever nothing is marked as changed, a restart would
bring the same log back. -/
structure Current (platform : Platform Value) (d : Daemon Value) : Prop where
  idle : d.phase = .idle → d.list = [] → Loads platform d.logsFile d.manager.logsBuffer
  clean : d.manager.dirty = false → Loads platform d.logsFile d.manager.logsBuffer

def resting : Phase Value → Bool
  | .idle => true
  | .woken => true
  | .replying _ => true
  | _ => false

/-- What `Current` rests on: a change is written by the time the list is empty, and the sample
that decides on it is only ever wrong on the side of a list that is not. -/
structure Stored (platform : Platform Value) (d : Daemon Value) : Prop where
  clean : d.manager.dirty = false → Loads platform d.logsFile d.manager.logsBuffer
  written : resting d.phase = true → d.list = [] → d.manager.dirty = false
  sampled : ∀ jd, d.phase = .executing jd false → d.list ≠ []

theorem Stored.current {platform : Platform Value} {d : Daemon Value} (h : Stored platform d) :
    Current platform d := by
  refine ⟨fun hphase hlist => ?_, h.clean⟩
  have hresting : resting d.phase = true := by rw [hphase]; rfl
  exact h.clean (h.written hresting hlist)

theorem loads_new {platform : Platform Value} {config : LogsConfig} {files : Files}
    {man : LogsManager Value} {files' : Files}
    (hempty : platform.logFromStr "[]" = .ok [])
    (hnew : LogsManager.new platform .sound config files = (some man, files')) :
    man.dirty = false ∧ Loads platform files'.logs man.logsBuffer := by
  unfold LogsManager.new at hnew
  split at hnew
  next buf hparse =>
    cases hnew
    exact ⟨rfl, fun _ _ => by simp [LogsManager.new, hparse]⟩
  next err hparse =>
    cases hnew
    exact ⟨rfl, fun _ _ => by simp [LogsManager.new, hparse]⟩
  next err hparse =>
    cases hnew
    have hparsed : LogsManager.parseLogs platform .sound (some (Utf8.utf8 "[]")) = .ok [] := by
      simp [LogsManager.parseLogs, readToString, FileSystem.sound, Utf8.fromUtf8_utf8, hempty]
    exact ⟨rfl, fun _ _ => by simp [LogsManager.new, hparsed]⟩

theorem loads_written {platform : Platform Value} {log : List (NotificationEvent Value)}
    (h : Decodes platform log) :
    Loads platform (some (Utf8.utf8 (platform.logToString log))) log := by
  have hparsed : LogsManager.parseLogs platform .sound
      (some (Utf8.utf8 (platform.logToString log))) = .ok log := by
    have hdecodes : platform.logFromStr (platform.logToString log) = .ok log := h
    simp [LogsManager.parseLogs, readToString, FileSystem.sound, Utf8.fromUtf8_utf8, hdecodes]
  intro config backup
  simp [LogsManager.new, hparsed]

theorem start_stored {platform : Platform Value} {man : LogsManager Value}
    {logsFile : Option (List UInt8)} (hclean : man.dirty = false)
    (hloads : Loads platform logsFile man.logsBuffer) :
    Stored platform (Daemon.start man logsFile) :=
  ⟨fun _ => hloads, fun _ _ => hclean, fun _ hphase => (nomatch hphase)⟩

theorem still_stored {platform : Platform Value} {d d' : Daemon Value} (hd : Stored platform d)
    (h : Daemon.Still d d') : Stored platform d' := by
  have hlist : d'.list = [] → d.list = [] := by
    intro hlist
    have hgrows := h.list
    rwa [hlist, List.prefix_nil] at hgrows
  refine ⟨?_, ?_, ?_⟩
  · rw [h.manager, h.logsFile]
    exact hd.clean
  · rw [h.phase, h.manager]
    exact fun hresting hempty => hd.written hresting (hlist hempty)
  · rw [h.phase]
    exact fun jd hphase hempty => hd.sampled jd hphase (hlist hempty)

theorem die_stored {platform : Platform Value} {d : Daemon Value} (hd : Stored platform d)
    (cause : Cause) : Stored platform (d.die cause) :=
  ⟨hd.clean, fun hresting => (nomatch hresting), fun _ hphase => (nomatch hphase)⟩

theorem recv_stored {platform : Platform Value} {d d' : Daemon Value} (hd : Stored platform d)
    (h : d.recv = some d') : Stored platform d' := by
  obtain ⟨hphase, -, rfl⟩ := Daemon.recv_cases h
  refine ⟨hd.clean, fun _ hlist => ?_, fun _ hphase => (nomatch hphase)⟩
  have hresting : resting d.phase = true := by rw [hphase]; rfl
  exact hd.written hresting hlist

theorem pop_stored {platform : Platform Value} {d d' : Daemon Value} (hd : Stored platform d)
    (h : d.pop = some d') : Stored platform d' := by
  obtain ⟨-, -, ⟨-, rfl⟩ | ⟨-, rfl⟩ | ⟨jd, rest, -, rfl⟩⟩ := Daemon.pop_cases h
  · exact die_stored hd _
  · exact die_stored hd _
  · refine ⟨hd.clean, fun hresting => (nomatch hresting), fun jd' hphase hrest => ?_⟩
    have hsample := (Phase.executing.inj hphase).2
    simp only [show rest = [] from hrest, List.isEmpty_nil] at hsample
    cases hsample

theorem reply_stored {platform : Platform Value} {d d' : Daemon Value} {arrived failed : Bool}
    (hd : Stored platform d) (h : d.reply arrived failed = some d') : Stored platform d' := by
  obtain ⟨tr, hphase, ⟨-, rfl⟩ | ⟨-, rfl | rfl⟩⟩ := Daemon.reply_cases h
  · refine ⟨hd.clean, fun _ hlist => ?_, fun _ hphase => (nomatch hphase)⟩
    have hresting : resting d.phase = true := by rw [hphase]; rfl
    exact hd.written hresting hlist
  · exact ⟨hd.clean, fun hresting => (nomatch hresting), fun _ hphase => (nomatch hphase)⟩
  · exact die_stored hd _

theorem resting_sendBack (platform : Platform Value) (pid : Pid) (fj : FulfilledJob) :
    resting (Daemon.sendBack platform pid fj) = true := by
  unfold Daemon.sendBack
  split <;> rfl

theorem execute_stored {platform : Platform Value} {d d' : Daemon Value} {env : Env}
    (hd : Stored platform d) (hserde : Decodes platform d'.manager.logsBuffer)
    (h : d.execute platform env (.ok ()) = some d') : Stored platform d' := by
  obtain ⟨jd, empty, hphase, ⟨-, rfl⟩ | ⟨ex, hex, rfl⟩⟩ := Daemon.execute_outcome h
  · exact die_stored hd _
  · have hresting := resting_sendBack platform jd.desc.pid ex.fulfilled
    unfold Daemon.conclude at hserde ⊢
    split_ifs at hserde ⊢ with hsave
    · refine ⟨fun _ => loads_written hserde, fun _ _ => rfl, fun jd' hphase' => ?_⟩
      rw [show Daemon.sendBack platform jd.desc.pid ex.fulfilled = _ from hphase'] at hresting
      cases hresting
    · have hunmarked : ex.manager.dirty = false → ex.manager = d.manager :=
        Job.execute_unmarked hex
      refine ⟨fun hclean => ?_, fun _ hlist => ?_, fun jd' hphase' => ?_⟩
      · have hman := hunmarked hclean
        have hloads := hd.clean (hman ▸ hclean)
        rw [← hman] at hloads
        exact hloads
      · -- The list was empty when it was sampled, so `empty` holds and the log was clean.
        have hsample : empty = true := by
          cases hempty : empty with
          | true => rfl
          | false => exact absurd hlist (hd.sampled jd (hempty ▸ hphase))
        simpa [hsample] using hsave
      · rw [show Daemon.sendBack platform jd.desc.pid ex.fulfilled = _ from hphase'] at hresting
        cases hresting

def Written : Label Value → Prop
  | .execute _ disk => disk = .ok ()
  | _ => True

theorem step_stored {platform : Platform Value} {d d' : Daemon Value} {l : Label Value}
    (hd : Stored platform d) (hwritten : Written l)
    (hserde : Decodes platform d'.manager.logsBuffer) (h : d.step platform l = some d') :
    Stored platform d' := by
  rcases Daemon.step_still h with hstill | ⟨-, h⟩ | ⟨-, h⟩ | ⟨env, disk, rfl, h⟩ | ⟨_, _, -, h⟩
  · exact still_stored hd hstill
  · exact recv_stored hd h
  · exact pop_stored hd h
  · cases hwritten
    exact execute_stored hd hserde h
  · exact reply_stored hd h

/-- From any file a start may find, and whenever jobs come: as long as the file system works, a
restart in a state with nothing to do or nothing marked would bring the same log back. -/
theorem log_file_current (platform : Platform Value) (config : LogsConfig) (files : Files)
    (man : LogsManager Value) (files' : Files)
    (hnew : LogsManager.new platform .sound config files = (some man, files'))
    (labels : List (Label Value)) (hwritten : ∀ l ∈ labels, Written l)
    (hempty : platform.logFromStr "[]" = .ok [])
    (hserde : Always (Daemon.step platform) (fun d => Decodes platform d.manager.logsBuffer)
      (Daemon.start man files'.logs) labels) :
    Always (Daemon.step platform) (Current platform) (Daemon.start man files'.logs) labels := by
  obtain ⟨hclean, hloads⟩ := loads_new hempty hnew
  have hstart : Stored platform (Daemon.start man files'.logs) := start_stored hclean hloads
  have hdisk : Along (Daemon.step platform) (fun _ l => Written l) (Daemon.start man files'.logs)
      labels :=
    along_of_forall (fun l hl _ => hwritten l hl) _
  have hstored : Always (Daemon.step platform) (Stored platform) (Daemon.start man files'.logs)
      labels :=
    hserde.invariant (fun _ _ _ hd hl hdec hstep => step_stored hd hl hdec hstep) hdisk hstart
  exact hstored.mono fun _ h => h.current

def blankCall : NotifyCall Value := ⟨"", 0, "", "", "", [], [], 0⟩

def flushing (disk : Except (List UInt8) Unit) : List (Label Value) :=
  [.notify blankCall none, .busSend, .recv, .pop,
    .execute ⟨some ⟨0, 0⟩, 0, .ok (), true, true⟩ disk]

def Platform.knowing (log : List (NotificationEvent Unit)) : Platform Unit :=
  { Platform.bare with logFromStr := fun text =>
      if text = Platform.bare.logToString log then .ok log else Platform.bare.logFromStr text }

theorem knowing_decodes (log : List (NotificationEvent Unit)) :
    Decodes (Platform.knowing log) log := by
  simp [Decodes, Platform.knowing]

/-- A start on a file that does not parse, and one notification. -/
theorem log_file_current_flushing :
    Always (Daemon.step (Platform.knowing [.bare 1 0 0]))
      (Current (Platform.knowing [.bare 1 0 0]))
      (Daemon.start ⟨[], ⟨10, true, 5000⟩, false, false, false⟩ (some (Utf8.utf8 "[]")))
      (flushing (.ok ())) := by
  refine log_file_current _ ⟨10, true, 5000⟩ ⟨some (Utf8.utf8 "?"), none⟩ _
    ⟨_, some (Utf8.utf8 "?")⟩ (by decide) _ (by simp [flushing, Written]) (by decide) ?_
  have hblank : Decodes (Platform.knowing [.bare 1 0 0]) [] := rfl
  refine ⟨hblank, fun d hd => ?_⟩
  cases hd
  refine ⟨hblank, fun d hd => ?_⟩
  cases hd
  refine ⟨hblank, fun d hd => ?_⟩
  cases hd
  refine ⟨hblank, fun d hd => ?_⟩
  cases hd
  refine ⟨hblank, fun d hd => ?_⟩
  cases hd
  exact knowing_decodes [.bare 1 0 0]

/-! What a start that cannot load the file leaves of it. -/

/-- The content of the file is in the buffer, or as long as the daemon runs it is still in its
file or in the backup. A start that panics leaves it in one of the two. -/
def Preserves (platform : Platform Value) (fs : FileSystem) (config : LogsConfig)
    (content : List UInt8) (backup : Option (List UInt8)) : Prop :=
  match LogsManager.new platform fs config ⟨some content, backup⟩ with
  | (none, files) => files.logs = some content ∨ files.backup = some content
  | (some man, files) =>
    LogsManager.parseLogs platform fs (some content) = .ok man.logsBuffer ∨
      ∀ labels, Always (Daemon.step platform)
        (fun d => d.logsFile = some content ∨ files.backup = some content)
        (Daemon.start man files.logs) labels

/-- The content is text, and the system hands it out. -/
def Readable (fs : FileSystem) (content : List UInt8) : Prop :=
  fs.reads = true ∧ ∃ text, Utf8.fromUtf8 content = some text

theorem readToString_iff {fs : FileSystem} {content : List UInt8} :
    (∃ text, readToString fs (some content) = .ok text) ↔ Readable fs content := by
  unfold readToString Readable
  cases fs.reads with
  | false => simp
  | true =>
    cases htext : Utf8.fromUtf8 content with
    | none => simp [htext]
    | some text => simp [htext]

theorem new_unreadable (platform : Platform Value) {fs : FileSystem} (config : LogsConfig)
    {content : List UInt8} (backup : Option (List UInt8)) (h : ¬ Readable fs content) :
    (∃ err, LogsManager.parseLogs platform fs (some content) = .error err) ∧
      LogsManager.new platform fs config ⟨some content, backup⟩ =
        (some ⟨[], config, false, false, false⟩, ⟨some content, backup⟩) := by
  have herr : ∃ err, readToString fs (some content) = .error err := by
    cases hread : readToString fs (some content) with
    | error err => exact ⟨err, rfl⟩
    | ok text => exact absurd (readToString_iff.mp ⟨text, hread⟩) h
  obtain ⟨err, hread⟩ := herr
  have hparse : LogsManager.parseLogs platform fs (some content) = .error (.readPathError err) := by
    rw [LogsManager.parseLogs, hread]
  refine ⟨⟨_, hparse⟩, ?_⟩
  rw [LogsManager.new, hparse]

theorem flushing_run (platform : Platform Value) (man : LogsManager Value)
    (logsFile : Option (List UInt8)) (disk : Except (List UInt8) Unit) :
    ∃ d, run (Daemon.step platform) (Daemon.start man logsFile) (flushing disk) = some d ∧
      (disk = .ok () → ∃ text, d.logsFile = some (Utf8.utf8 text)) ∧
      ∀ left, disk = .error left → d.logsFile = some left := by
  let event : NotificationEvent Value :=
    (Notifications.notify (Daemon.start man logsFile).counter blankCall none).2
  let called : Daemon Value := { Daemon.start man logsFile with
    counter := (Daemon.start man logsFile).counter + 1
    created := [event]
    phase := .executing ⟨.broadcast event, ⟨0, 0⟩⟩ true }
  have hcalled : run (Daemon.step platform) (Daemon.start man logsFile)
      [.notify blankCall none, .busSend, .recv, .pop] = some called := rfl
  obtain ⟨timers, hexec⟩ := Daemon.execute_broadcast_eq platform (d := called)
    ⟨some ⟨0, 0⟩, 0, .ok (), true, true⟩ disk rfl rfl
  have hstep : Daemon.step platform called
      (.execute ⟨some ⟨0, 0⟩, 0, .ok (), true, true⟩ disk) = some _ := hexec
  have hrun := run_append_some.mpr ⟨called, hcalled, run_cons_some.mpr ⟨_, hstep, run_nil _⟩⟩
  refine ⟨_, hrun, ?_, ?_⟩
  · rintro rfl
    exact ⟨_, rfl⟩
  · rintro left rfl
    rfl

theorem unreadable_lost (platform : Platform Value) {fs : FileSystem} (config : LogsConfig)
    {content : List UInt8} {backup : Option (List UInt8)} (h : ¬ Readable fs content)
    (hbackup : backup ≠ some content) : ¬ Preserves platform fs config content backup := by
  obtain ⟨⟨err, hparse⟩, hnew⟩ := new_unreadable platform config backup h
  intro hkept
  simp only [Preserves, hnew, hparse, hbackup, or_false, reduceCtorEq, false_or] at hkept
  by_cases hreads : fs.reads = true
  · -- The file is no text, and what is written over it is.
    obtain ⟨d, hrun, hwritten, -⟩ := flushing_run platform
      (⟨[], config, false, false, false⟩ : LogsManager Value) (some content) (.ok ())
    obtain ⟨text, htext⟩ := hwritten rfl
    have hsame := always_iff.mp (hkept _) _ (List.prefix_refl _) d hrun
    rw [htext] at hsame
    exact h ⟨hreads, text, Utf8.fromUtf8_eq_some.mpr (Option.some.inj hsame)⟩
  · -- The write that truncates the file may fail as well, or come no further than a bracket.
    obtain ⟨left, hleft⟩ : ∃ left : List UInt8, left ≠ content := by
      cases content with
      | nil => exact ⟨Utf8.utf8 "[", by decide⟩
      | cons b bs => exact ⟨[], by simp⟩
    obtain ⟨d, hrun, -, hfailed⟩ := flushing_run platform
      (⟨[], config, false, false, false⟩ : LogsManager Value) (some content) (.error left)
    have hsame := always_iff.mp (hkept _) _ (List.prefix_refl _) d hrun
    rw [hfailed left rfl] at hsame
    exact hleft (Option.some.inj hsame)

theorem readable_preserved (platform : Platform Value) {fs : FileSystem} (config : LogsConfig)
    {content : List UInt8} (backup : Option (List UInt8)) (h : Readable fs content) :
    Preserves platform fs config content backup := by
  obtain ⟨text, htext⟩ := readToString_iff.mpr h
  cases hlog : platform.logFromStr text with
  | ok buf =>
    have hparse : LogsManager.parseLogs platform fs (some content) = .ok buf := by
      simp only [LogsManager.parseLogs, htext, hlog]
    simp [Preserves, LogsManager.new, hparse]
  | error err =>
    have hparse : LogsManager.parseLogs platform fs (some content) = .error (.parseError err) := by
      simp only [LogsManager.parseLogs, htext, hlog]
    cases hrenames : fs.renames with
    | false => simp [Preserves, LogsManager.new, hparse, hrenames]
    | true =>
      cases hwrites : fs.writes with
      | error left => simp [Preserves, LogsManager.new, hparse, hrenames, hwrites]
      | ok _ =>
        simp only [Preserves, LogsManager.new, hparse, hrenames, hwrites]
        exact Or.inr fun labels => always_iff.mpr fun _ _ _ _ => Or.inr (by trivial)

/-- Whatever the file holds and whatever the system answers, a start and the runs after it keep
what they could not load exactly when the file was read as text, or when the backup had the
same content all along. -/
theorem content_preserved_iff (platform : Platform Value) (fs : FileSystem) (config : LogsConfig)
    (content : List UInt8) (backup : Option (List UInt8)) :
    Preserves platform fs config content backup ↔
      Readable fs content ∨ backup = some content := by
  constructor
  · intro hkept
    by_contra hlost
    rw [not_or] at hlost
    exact unreadable_lost platform config hlost.1 hlost.2 hkept
  · rintro (hreadable | rfl)
    · exact readable_preserved platform config backup hreadable
    · by_cases hreadable : Readable fs content
      · exact readable_preserved platform config _ hreadable
      · obtain ⟨-, hnew⟩ := new_unreadable platform config (some content) hreadable
        simp only [Preserves, hnew]
        exact Or.inr fun labels => always_iff.mpr fun _ _ _ _ => Or.inr (by trivial)

/-- A file of a single byte that is no text. -/
theorem invalid_text_overwritten :
    ¬ Preserves Platform.bare .sound ⟨10, true, 5000⟩ [0xFF] none := by
  have hinvalid : ¬ Readable .sound [0xFF] := by
    rintro ⟨-, text, htext⟩
    have hnone : Utf8.fromUtf8 [0xFF] = none := by decide
    exact Option.some_ne_none text (htext.symm.trans hnone)
  exact unreadable_lost Platform.bare ⟨10, true, 5000⟩ hinvalid (by simp)

end Storage

end NotifsPiper

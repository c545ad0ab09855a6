import NotifsPiper.Daemon

/-! The read command, from its two numbers to the slice of the log. The end of the range is
computed where the command runs, in sixteen bits, and clipped where the log is. -/

namespace NotifsPiper.Reading

open Runs

variable {Value : Type}

/-- `main`, for `Sub::Read`: the job it sends. The sum wraps. -/
def readJob (skip count : LogCountType) : Job Value := .read skip (skip + count)

def readFlags (silent : Bool) : FlagsRepr :=
  Flags.join Flags.none.repr (if silent then .silent else .none)

def readRequest (platform : Platform Value) (pid : Pid) (skip count : LogCountType)
    (silent : Bool) : Option Transmission :=
  (JobDesc.toStr platform ⟨readJob skip count, ⟨pid, readFlags silent⟩⟩).map fun text =>
    ⟨.incoming pid, text⟩

def received (platform : Platform Value) (text : String) : Option (JobDesc Value) :=
  match Transmission.fromStr text with
  | .ok ⟨.incoming _, data⟩ =>
    match (JobDesc.fromStr platform data).run with
    | some (.ok jobd) => some jobd
    | _ => none
  | _ => none

/-- The log with the entries in the places from `first` on, up to `last`, marked as read. -/
def markRange (log : List (NotificationEvent Value)) (first last : Nat) :
    List (NotificationEvent Value) :=
  log.mapIdx fun i ne => if first ≤ i ∧ i < last then ne.setRead else ne

/-- The command is answered with the entries in the places `i` with `skip ≤ i < skip + count`;
they are marked as read, unless it is silent, and the others stay as they were. -/
def Answered (platform : Platform Value) (env : Env) (man : LogsManager Value) (pid : Pid)
    (skip count : LogCountType) (silent : Bool) : Prop :=
  ∃ tr jd ex, readRequest platform pid skip count silent = some tr ∧
    received platform tr.toStr = some jd ∧ Job.execute platform env jd man = some ex ∧
    ex.manager.logsBuffer = (if silent then man.logsBuffer
      else markRange man.logsBuffer skip.toNat (skip.toNat + count.toNat)) ∧
    ex.fulfilled = ⟨.ok (some (platform.logToString
      ((ex.manager.logsBuffer.drop skip.toNat).take count.toNat))), .results⟩

/-- The request comes out of the wire as the job that went in. -/
theorem received_readRequest (platform : Platform Value) (pid : Pid) (skip count : LogCountType)
    (silent : Bool) : ∃ tr, readRequest platform pid skip count silent = some tr ∧
      received platform tr.toStr = some ⟨readJob skip count, ⟨pid, readFlags silent⟩⟩ := by
  have htext : (readJob skip count : Job Value).toStr platform =
      some (skip.toNat.repr ++ "#" ++ (skip + count).toNat.repr) := rfl
  obtain ⟨data, hdata⟩ : ∃ data, JobDesc.toStr platform
      ⟨readJob skip count, ⟨pid, readFlags silent⟩⟩ = some data := ⟨_, rfl⟩
  have hround : JobDesc.fromStr platform
      ((JobDesc.toStr platform ⟨readJob skip count, ⟨pid, readFlags silent⟩⟩).getD "") =
        pure ⟨readJob skip count, ⟨pid, readFlags silent⟩⟩ :=
    JobDesc.fromStr_toStr htext (Job.fromStr_read platform skip (skip + count))
  rw [hdata, Option.getD_some] at hround
  refine ⟨⟨.incoming pid, data⟩, by rw [readRequest, hdata, Option.map_some], ?_⟩
  simp only [received, Transmission.fromStr_toStr, hround]
  rfl

theorem silent_readFlags (silent : Bool) : Flags.silent.is (readFlags silent) = silent := by
  cases silent <;> decide

/-! The slice. -/

theorem markRange_past {log : List (NotificationEvent Value)} {start : Nat} (stop : Nat)
    (h : log.length ≤ start) : markRange log start stop = log := by
  refine List.ext_getElem? fun i => ?_
  rw [markRange, List.getElem?_mapIdx]
  rcases Nat.lt_or_ge i log.length with hi | hi
  · have hbefore : ¬ (start ≤ i ∧ i < stop) := by omega
    simp [hi, hbefore]
  · simp [hi]

theorem slice_clipped (log : List (NotificationEvent Value)) (start stop : Nat) :
    (log.drop (min log.length start)).take (min log.length stop - min log.length start) =
      (log.drop start).take (stop - start) := by
  refine List.ext_getElem? fun i => ?_
  simp only [List.getElem?_take, List.getElem?_drop]
  grind

theorem markRange_slice (log : List (NotificationEvent Value)) {start stop : Nat}
    (h : min log.length start ≤ min log.length stop) :
    log.take (min log.length start) ++
        ((log.drop start).take (stop - start)).map NotificationEvent.setRead ++
        log.drop (min log.length stop) = markRange log start stop := by
  rw [← slice_clipped]
  refine List.ext_getElem? fun i => ?_
  simp only [markRange, List.getElem?_mapIdx, List.getElem?_append, List.getElem?_take,
    List.getElem?_map, List.getElem?_drop, List.length_append, List.length_take, List.length_map,
    List.length_drop]
  grind

theorem slice_marked (log : List (NotificationEvent Value)) (start stop : Nat) :
    ((log.drop start).take (stop - start)).map NotificationEvent.setRead =
      ((markRange log start stop).drop start).take (stop - start) := by
  refine List.ext_getElem? fun i => ?_
  simp only [markRange, List.getElem?_map, List.getElem?_take, List.getElem?_drop,
    List.getElem?_mapIdx]
  grind

/-- What a read returns and leaves, when its clipped bounds are in order. -/
theorem readLogs_eq (man : LogsManager Value) (start stop : LogCountType) (updateRead : Bool)
    (h : min man.logsBuffer.length start.toNat ≤ min man.logsBuffer.length stop.toNat) :
    ∃ man', man'.logsBuffer = (if updateRead then
        markRange man.logsBuffer start.toNat stop.toNat else man.logsBuffer) ∧
      man.readLogs start stop updateRead = some
        ((man'.logsBuffer.drop start.toNat).take (stop.toNat - start.toNat), man') := by
  have hmarked := markRange_slice man.logsBuffer h
  have hparts := Parallel.slice_parts man.logsBuffer h
  have hslice := slice_marked man.logsBuffer start.toNat stop.toNat
  unfold LogsManager.readLogs
  dsimp only
  rw [if_neg (Nat.not_lt.mpr h)]
  rw [slice_clipped] at hparts ⊢
  cases updateRead with
  | false => exact ⟨man, rfl, rfl⟩
  | true =>
    cases hempty : (man.logsBuffer.drop start.toNat).take (stop.toNat - start.toNat) with
    | nil =>
      -- An empty slice is neither marked nor written back.
      rw [hempty] at hmarked hslice hparts
      refine ⟨man, (hparts.symm.trans hmarked), ?_⟩
      rw [hempty]
      rfl
    | cons ne slice =>
      rw [hempty] at hmarked hslice
      refine ⟨{ man.setDirty with
        logsBuffer := markRange man.logsBuffer start.toNat stop.toNat }, rfl, ?_⟩
      rw [hmarked, hslice]
      rfl

theorem readLogs_some_iff (man : LogsManager Value) (start stop : LogCountType)
    (updateRead : Bool) : (∃ result, man.readLogs start stop updateRead = some result) ↔
      start.toNat ≤ stop.toNat ∨ man.logsBuffer.length ≤ stop.toNat := by
  rw [← Option.isSome_iff_exists, Option.isSome_iff_ne_none, Ne, LogsManager.readLogs_none_iff]
  omega

theorem read_execute_none_iff {platform : Platform Value} {env : Env} {man : LogsManager Value}
    {start stop : LogCountType} {desc : Desc} :
    Job.execute platform env ⟨.read start stop, desc⟩ man ≠ none ↔
      start.toNat ≤ stop.toNat ∨ man.logsBuffer.length ≤ stop.toNat := by
  rw [Ne, Job.execute_none_iff, Job.Panics]
  omega

/-! The command. -/

theorem stop_toNat (skip count : LogCountType) :
    skip.toNat + count.toNat < 2 ^ 16 ∧ (skip + count).toNat = skip.toNat + count.toNat ∨
      2 ^ 16 ≤ skip.toNat + count.toNat ∧
        (skip + count).toNat = skip.toNat + count.toNat - 2 ^ 16 := by
  have hskip := skip.toNat_lt
  have hcount := count.toNat_lt
  rw [UInt16.toNat_add]
  omega

theorem answered_of_execute {platform : Platform Value} {env : Env} {man : LogsManager Value}
    {pid : Pid} {skip count : LogCountType} {silent : Bool} (man' : LogsManager Value)
    (hread : man.readLogs skip (skip + count) (!silent) =
      some ((man'.logsBuffer.drop skip.toNat).take count.toNat, man'))
    (hlog : man'.logsBuffer = if silent then man.logsBuffer
      else markRange man.logsBuffer skip.toNat (skip.toNat + count.toNat)) :
    Answered platform env man pid skip count silent := by
  obtain ⟨tr, htr, hreceived⟩ := received_readRequest platform pid skip count silent
  refine ⟨tr, _, .quiet ⟨.ok (some (platform.logToString
    ((man'.logsBuffer.drop skip.toNat).take count.toNat))), .results⟩ man', htr, hreceived, ?_,
    hlog, rfl⟩
  simp only [Job.execute, readJob, Read.execute, silent_readFlags, hread]
  rfl

theorem answered_iff {platform : Platform Value} {env : Env} {man : LogsManager Value}
    {pid : Pid} {skip count : LogCountType} {silent : Bool} :
    Answered platform env man pid skip count silent ↔
      skip.toNat + count.toNat < 2 ^ 16 ∨
        man.logsBuffer.length ≤ skip.toNat + count.toNat - 2 ^ 16 := by
  constructor
  · rintro ⟨tr, jd, ex, htr, hreceived, hexec, -⟩
    obtain ⟨tr', htr', hreceived'⟩ := received_readRequest platform pid skip count silent
    obtain rfl := Option.some.inj (htr.symm.trans htr')
    obtain rfl := Option.some.inj (hreceived.symm.trans hreceived')
    have hsome := read_execute_none_iff.mp (hexec ▸ Option.some_ne_none ex)
    have hstop := stop_toNat skip count
    have hcount := count.toNat_lt
    omega
  · intro h
    rcases stop_toNat skip count with ⟨-, hstop⟩ | ⟨hwraps, hstop⟩
    · obtain ⟨man', hlog, hread⟩ := readLogs_eq man skip (skip + count) (!silent)
        (by omega)
      rw [hstop] at hlog hread
      refine answered_of_execute man' ?_ ?_
      · rw [hread, Nat.add_sub_cancel_left]
      · rw [hlog]
        cases silent <;> rfl
    · -- Both bounds are clipped to the length, and the range is empty.
      have hcount := count.toNat_lt
      have hpast : man.logsBuffer.length ≤ skip.toNat := by omega
      obtain ⟨man', hlog, hread⟩ := readLogs_eq man skip (skip + count) (!silent)
        (by omega)
      rw [markRange_past _ hpast, ite_self] at hlog
      refine answered_of_execute man' ?_ ?_
      · rw [hread, hlog, List.drop_eq_nil_of_le hpast, List.take_nil, List.take_nil]
      · rw [hlog, markRange_past _ hpast, ite_self]

/-- For every log: the command is answered with its range exactly when the range ends below
`2 ^ 16` or the log is no longer than what is left of the sum; and of the pairs that a read may
carry, exactly those return and spare the manager thread that are in order or whose end the log
does not pass. -/
theorem read_range_iff (platform : Platform Value) (env : Env) (man : LogsManager Value) :
    (∀ pid skip count silent, Answered platform env man pid skip count silent ↔
      skip.toNat + count.toNat < 2 ^ 16 ∨
        man.logsBuffer.length ≤ skip.toNat + count.toNat - 2 ^ 16) ∧
    ∀ (start stop : LogCountType) (desc : Desc),
      ((∃ result, man.readLogs start stop (!Flags.silent.is desc.flags) = some result) ∧
          Daemon.Survives platform env ⟨.read start stop, desc⟩ man ↔
        start.toNat ≤ stop.toNat ∨ man.logsBuffer.length ≤ stop.toNat) := by
  refine ⟨fun _ _ _ _ => answered_iff, fun start stop desc => ?_⟩
  rw [readLogs_some_iff, Daemon.survives_iff, read_execute_none_iff, and_self]

def oneLogged : LogsManager Unit :=
  { LogsManager.empty 10 with logsBuffer := [.bare 1 0 0] }

def skipping : List (Label Unit) :=
  [.connect ⟨.incoming 5, "5#0##read##1#0"⟩, .listen 0 true [], .listen 0 true [],
    .listen 0 true [], .listen 0 true [], .recv, .pop,
    .execute ⟨some ⟨0, 0⟩, 0, .ok (), true, true⟩ (.ok ())]

/-- The sum wraps to an end before the start, and a log of one entry is long enough. -/
theorem wrapped_range_kills :
    ¬ Answered Platform.bare (Task.at 0 .watch).1 oneLogged 5 1 65535 false ∧
      readRequest Platform.bare 5 1 65535 false = some ⟨.incoming 5, "5#0##read##1#0"⟩ ∧
      (run (Daemon.step Platform.bare) (Daemon.start oneLogged none) skipping).map Daemon.phase =
        some (.dead .panicked) := by
  refine ⟨?_, by decide, by decide⟩
  rw [answered_iff]
  decide

end NotifsPiper.Reading

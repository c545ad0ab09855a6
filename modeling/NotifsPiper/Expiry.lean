import NotifsPiper.Daemon
import NotifsPiper.Runs

/-! When notifications expire. The deadline is computed from the timeout cut to sixteen bits,
so it is the requested one as long as the timeout fits. -/

namespace NotifsPiper.Expiry

open Runs

variable {Value : Type}

def requested (config : LogsConfig) (timeout : Int32) : Nat :=
  if timeout = -1 then config.defaultTimeout.toNat else timeout.toInt.toNat

/-- The notification asks to expire, and its deadline has come. -/
def Due (env : Env) (config : LogsConfig) (ne : NotificationEvent Value) : Prop :=
  (ne.timeout = -1 ∨ 0 < ne.timeout.toInt) ∧ ∃ now, env.systemTime = some now ∧
    ne.time.toNat + requested config ne.timeout ≤ now.asMillis.toNat

/-- The notification came out of a `notify` call with an allowed timeout. -/
def Notified (allowed : Int32 → Prop) (ne : NotificationEvent Value) : Prop :=
  ∃ counter call now, ne = (Notifications.notify counter call now).2 ∧ allowed call.timeout

/-- Of the notifications that `notify` created, in this session or in an earlier one, an
expiry about to be executed closes only one that is due. -/
def ExpiresDue (earlier : List (NotificationEvent Value)) (d : Daemon Value) (l : Label Value) :
    Prop :=
  ∀ env disk jd empty id pos ne, l = .execute env disk → d.phase = .executing jd empty →
    jd.cmd = .close id .expired → Close.Passes id .expired env jd.desc d.manager pos ne →
      ne.sent ∈ earlier ++ d.created → Due env d.manager.logsConfig ne

theorem toUInt16_toNat {timeout : Int32} (hpos : 0 ≤ timeout.toInt) :
    timeout.toUInt32.toUInt16.toNat = timeout.toInt.toNat % 65536 := by
  rw [UInt32.toNat_toUInt16, Int32.toNat_toUInt32_of_le (Int32.le_iff_toInt_le.mpr hpos)]
  rfl

theorem mapTimeout_ok {config : LogsConfig} {timeout : Int32} {val : UInt16}
    (h : LogsManager.mapTimeout config timeout = .ok (some val)) :
    timeout = -1 ∧ val = config.defaultTimeout ∨
      0 < timeout.toInt ∧ val = timeout.toUInt32.toUInt16 := by
  unfold LogsManager.mapTimeout at h
  by_cases hneg : timeout = -1
  · rw [if_pos hneg] at h
    cases h
    exact Or.inl ⟨hneg, rfl⟩
  · rw [if_neg hneg] at h
    split_ifs at h with hzero hpos
    · cases h
    · cases h
      have hone : (1 : Int32).toInt ≤ timeout.toInt := Int32.le_iff_toInt_le.mp hpos
      exact Or.inr ⟨Int.lt_of_lt_of_le (by decide) hone, rfl⟩

theorem mapTimeout_requested {config : LogsConfig} {timeout : Int32} {val : UInt16}
    (hshort : timeout.toInt ≤ 65535)
    (h : LogsManager.mapTimeout config timeout = .ok (some val)) :
    (timeout = -1 ∨ 0 < timeout.toInt) ∧ val.toNat = requested config timeout := by
  rcases mapTimeout_ok h with ⟨rfl, rfl⟩ | ⟨hpos, rfl⟩
  · exact ⟨Or.inl rfl, rfl⟩
  · refine ⟨Or.inr hpos, ?_⟩
    rw [requested, if_neg (positive_timeout hpos).1, toUInt16_toNat hpos.le]
    omega

theorem deadline_toNat {ms : UInt16} {time : BitVec 128} (htime : time.toNat < 2 ^ 64 * 1000) :
    (BitVec.ofNat 128 ms.toNat + time).toNat = ms.toNat + time.toNat := by
  have hms := ms.toNat_lt
  rw [BitVec.toNat_add, BitVec.toNat_ofNat, Nat.mod_eq_of_lt (by omega),
    Nat.mod_eq_of_lt (by omega)]

theorem due_of_not_premature {env : Env} {config : LogsConfig} {ne : NotificationEvent Value}
    (htime : ne.time.toNat < 2 ^ 64 * 1000) (hshort : ne.timeout.toInt ≤ 65535)
    (h : Close.premature env config ne = some false) : Due env config ne := by
  unfold Close.premature at h
  split at h
  · cases h
  split at h
  · cases h
  next val hval =>
    obtain ⟨now, hnow, h⟩ := Option.bind_eq_some_iff.mp h
    obtain ⟨ms, rfl, h⟩ := Option.bind_eq_some_iff.mp h
    obtain ⟨hasks, hms⟩ := mapTimeout_requested hshort hval
    have hlate : ¬ now.asMillis < BitVec.ofNat 128 ms.toNat + ne.time := by simpa using h
    rw [BitVec.lt_def, deadline_toNat htime] at hlate
    exact ⟨hasks, now, hnow, by omega⟩

theorem notified_time {allowed : Int32 → Prop} {ne : NotificationEvent Value}
    (h : Notified allowed ne) : ne.time.toNat < 2 ^ 64 * 1000 ∧ allowed ne.timeout := by
  obtain ⟨counter, call, now, rfl, hallowed⟩ := h
  exact ⟨Duration.asMillis_lt _, hallowed⟩

theorem step_autoClose {platform : Platform Value} {d d' : Daemon Value} {l : Label Value}
    (h : d.step platform l = some d') : d'.manager.setup = d.manager.setup := by
  rcases Daemon.step_manager h with ⟨hman, -⟩ | ⟨env, disk, jd, rfl, hexec⟩
  · rw [hman]
  · obtain ⟨ex, hex, -, hsetup⟩ := hexec.done
    rw [hsetup, Job.execute_setup hex]

theorem along_expiresDue (platform : Platform Value) {allowed : Int32 → Prop}
    (hshort : ∀ timeout, allowed timeout → timeout.toInt ≤ 65535)
    {earlier : List (NotificationEvent Value)} (hearlier : ∀ ne ∈ earlier, Notified allowed ne)
    (labels : List (Label Value))
    (hcalls : ∀ call now, .notify call now ∈ labels → allowed call.timeout)
    (d : Daemon Value) (hauto : d.manager.logsConfig.autoClose = true)
    (hcreated : ∀ ne ∈ d.created, Notified allowed ne) :
    Along (Daemon.step platform) (ExpiresDue earlier) d labels := by
  induction labels generalizing d with
  | nil => trivial
  | cons l labels ih =>
    intro d' hstep
    refine ⟨?_, ih (fun call now hmem => hcalls call now (by simp [hmem])) d' ?_ ?_⟩
    · intro env disk jd empty id pos ne _ _ _ hpasses hne
      have hsent : Notified allowed ne.sent := by
        rcases List.mem_append.mp hne with hne | hne
        · exact hearlier _ hne
        · exact hcreated _ hne
      obtain ⟨htime, hallowed⟩ := notified_time hsent
      refine due_of_not_premature htime (hshort _ hallowed) ?_
      have hdue := hpasses.due
      simpa [Close.dropped, hauto] using hdue
    · have hsetup := congrArg (fun s => s.1.autoClose) (step_autoClose hstep)
      exact hsetup.trans hauto
    · intro ne hne
      rcases Daemon.step_created hstep with hkept | ⟨call, now, rfl, hnew⟩
      · exact hcreated ne (hkept ▸ hne)
      · rw [hnew, List.mem_append, List.mem_singleton] at hne
        rcases hne with hne | rfl
        · exact hcreated ne hne
        · exact ⟨_, call, now, rfl, hcalls call now (by simp)⟩

/-! A timeout above sixteen bits expires early. -/

def noLog : LogsManager Value := ⟨[], ⟨10, true, 5000⟩, false, true, true⟩

def atMillis (now : Duration) (instant : Nat) : Env := ⟨some now, instant, .ok (), true, true⟩

def plainCall (timeout : Int32) : NotifyCall Value := ⟨"", 0, "", "", "", [], [], timeout⟩

def asked (timeout : Int32) : NotificationEvent Value :=
  (Notifications.notify 0 (plainCall timeout) (some ⟨0, 0⟩)).2

theorem broadcast_asked (platform : Platform Value) {timeout : Int32}
    (hpos : 0 < timeout.toInt) :
    Broadcast.execute platform (asked timeout) (atMillis ⟨0, 0⟩ 0) noLog = some
      ⟨⟨.ok (some (platform.eventToString (asked timeout))), .results⟩,
        noLog.broadcasted (asked timeout), [], [],
        some ⟨timeout.toUInt32.toUInt16.toNat * 1000000, 1⟩⟩ := by
  obtain ⟨-, hzero, hle⟩ := positive_timeout hpos
  have hmap := LogsManager.mapTimeout_pos ⟨10, true, 5000⟩ hpos
  obtain ⟨timer, htimer, hexec⟩ := Broadcast.execute_eq platform (asked timeout)
    (atMillis ⟨0, 0⟩ 0) noLog
  have harmed : timer = some ⟨timeout.toUInt32.toUInt16.toNat * 1000000, 1⟩ := by
    simpa [Broadcast.timer, noLog, asked, Notifications.notify, plainCall, atMillis, hzero, hle,
      hmap] using htimer.symm
  rw [hexec, harmed]

def called (timeout : Int32) : Daemon Value :=
  { Daemon.start noLog none with
    counter := 1
    created := [asked timeout]
    phase := .executing ⟨.broadcast (asked timeout), ⟨0, 0⟩⟩ true }

def armed (platform : Platform Value) (timeout : Int32) : Daemon Value :=
  { Daemon.start noLog none with
    counter := 1
    created := [asked timeout]
    manager := { noLog.broadcasted (asked timeout) with dirty := false }
    logsFile := some (Utf8.utf8 (platform.logToString [asked timeout]))
    timers := [.asleep ⟨timeout.toUInt32.toUInt16.toNat * 1000000, 1⟩ true]
    executed := [(noLog, atMillis ⟨0, 0⟩ 0, ⟨.broadcast (asked timeout), ⟨0, 0⟩⟩)]
    phase := .replying (Transmission.fromFulfilled platform
      ⟨.ok (some (platform.eventToString (asked timeout))), .results⟩ 0) }

theorem called_step (platform : Platform Value) {timeout : Int32} (hpos : 0 < timeout.toInt) :
    (called timeout).execute platform (atMillis ⟨0, 0⟩ 0) (.ok ()) =
      some (armed platform timeout) := by
  have hex : Job.execute platform (atMillis ⟨0, 0⟩ 0) ⟨.broadcast (asked timeout), ⟨0, 0⟩⟩
      (called timeout).manager = _ := broadcast_asked platform hpos
  have hphase : (called timeout : Daemon Value).phase =
    .executing ⟨.broadcast (asked timeout), ⟨0, 0⟩⟩ true := rfl
  simp only [Daemon.execute, hphase, hex]
  rfl

def answered (platform : Platform Value) (timeout : Int32) : Daemon Value :=
  { (armed platform timeout).accept (Transmission.fromFulfilled platform
      ⟨.ok (some (platform.eventToString (asked timeout))), .results⟩ 0) with
    phase := .idle }

def expiring (platform : Platform Value) (timeout : Int32) : Daemon Value :=
  { answered platform timeout with
    timers := []
    phase := .executing ⟨.close 1 .expired, ⟨0, 0⟩⟩ true }

theorem armed_run (platform : Platform Value) (timeout : Int32) :
    run (Daemon.step platform) (armed platform timeout)
      [.reply true false, .wake 0 65535000000, .timerSend 0, .recv, .pop] =
        some (expiring platform timeout) := by
  have hawake : timeout.toUInt32.toNat % 65536 * 1000000 ≤ 65535000000 := by
    omega
  have hwake : (answered platform timeout).wake 0 65535000000 = some
      { answered platform timeout with
        list := [⟨.close 1 .expired, ⟨0, 0⟩⟩]
        timers := [.notifying] } := by
    simp [Daemon.wake, answered, armed, Daemon.start, Daemon.push, Daemon.accept, Daemon.spawn,
      hawake]
  exact run_cons_some.mpr ⟨answered platform timeout, rfl, run_cons_some.mpr ⟨_, hwake, rfl⟩⟩

def callToExpiry (timeout : Int32) : List (Label Value) :=
  [.notify (plainCall timeout) (some ⟨0, 0⟩), .busSend, .recv, .pop,
    .execute (atMillis ⟨0, 0⟩ 0) (.ok ())] ++
  [.reply true false, .wake 0 65535000000, .timerSend 0, .recv, .pop]

theorem callToExpiry_run (platform : Platform Value) {timeout : Int32}
    (hpos : 0 < timeout.toInt) :
    run (Daemon.step platform) (Daemon.start noLog none) (callToExpiry timeout) =
      some (expiring platform timeout) := by
  have hcalled : run (Daemon.step platform) (Daemon.start noLog none)
      [.notify (plainCall timeout) (some ⟨0, 0⟩), .busSend, .recv, .pop] =
        some (called timeout) := rfl
  have harmed : run (Daemon.step platform) (called timeout)
      [.execute (atMillis ⟨0, 0⟩ 0) (.ok ())] = some (armed platform timeout) := by
    rw [run_cons, Daemon.step, called_step platform hpos]
    rfl
  refine run_append_some.mpr ⟨armed platform timeout, ?_, armed_run platform timeout⟩
  exact run_append_some.mpr ⟨called timeout, hcalled, harmed⟩

theorem asked_not_premature {timeout : Int32} (hpos : 0 < timeout.toInt) :
    Close.premature (atMillis ⟨65, 535000000⟩ 65535000000) ⟨10, true, 5000⟩
      (asked timeout : NotificationEvent Value) = some false := by
  have hzero := (positive_timeout hpos).2.1
  have hmap := LogsManager.mapTimeout_pos ⟨10, true, 5000⟩ hpos
  have hlow := timeout.toUInt32.toUInt16.toNat_lt
  have hlate : ¬ (⟨65, 535000000⟩ : Duration).asMillis <
      BitVec.ofNat 128 timeout.toUInt32.toUInt16.toNat + (⟨0, 0⟩ : Duration).asMillis := by
    have hnow : (⟨65, 535000000⟩ : Duration).asMillis.toNat = 65535 := by decide
    have hsent : (⟨0, 0⟩ : Duration).asMillis.toNat = 0 := by decide
    rw [BitVec.lt_def, BitVec.toNat_add, BitVec.toNat_ofNat, hnow, hsent]
    omega
  simp only [Close.premature, asked, Notifications.notify, plainCall, atMillis, hzero, if_false,
    hmap]
  simpa using hlate

theorem expires_early (platform : Platform Value) {timeout : Int32}
    (hlong : 65535 < timeout.toInt) :
    ¬ Along (Daemon.step platform) (ExpiresDue []) (Daemon.start noLog none)
      (callToExpiry timeout ++ [.execute (atMillis ⟨65, 535000000⟩ 65535000000) (.ok ())]) := by
  intro h
  have hpos : 0 < timeout.toInt := by omega
  have hlast := along_append h (callToExpiry_run platform hpos)
  have hpasses : Close.Passes 1 .expired (atMillis ⟨65, 535000000⟩ 65535000000) ⟨0, 0⟩
      (expiring platform timeout).manager 0 (asked timeout) :=
    ⟨rfl, rfl, fun hclosed => (nomatch hclosed), asked_not_premature hpos⟩
  have hexec := Close.execute_passes hpasses
  have hstep : ∃ d, Daemon.step platform (expiring platform timeout)
      (.execute (atMillis ⟨65, 535000000⟩ 65535000000) (.ok ())) = some d := by
    have hphase : (expiring platform timeout).phase = .executing ⟨.close 1 .expired, ⟨0, 0⟩⟩ true :=
      rfl
    simp [Daemon.step, Daemon.execute, hphase, Job.execute, hexec]
  obtain ⟨d, hd⟩ := hstep
  have hdue := (hlast d hd).1 _ _ _ _ _ _ _ rfl rfl rfl hpasses (List.mem_singleton_self _)
  obtain ⟨-, now, hnow, hlate⟩ := hdue
  have hnow : now = ⟨65, 535000000⟩ := (Option.some.inj hnow).symm
  have hmillis : now.asMillis.toNat = 65535 := by
    rw [hnow]
    decide
  have hrequested : requested (expiring platform timeout).manager.logsConfig
      (asked timeout : NotificationEvent Value).timeout = timeout.toInt.toNat :=
    if_neg (positive_timeout hpos).1
  omega

/-- Whatever the log and the default timeout, with automatic closing on: no run whose calls
have the allowed timeouts closes a notification before its time exactly when every allowed
timeout is at most 65535 milliseconds. -/
theorem expires_due_iff (platform : Platform Value) (allowed : Int32 → Prop) :
    (∀ (man : LogsManager Value) (logsFile : Option (List UInt8))
        (earlier : List (NotificationEvent Value)) (labels : List (Label Value)),
      man.logsConfig.autoClose = true → (∀ ne ∈ earlier, Notified allowed ne) →
      (∀ call now, .notify call now ∈ labels → allowed call.timeout) →
        Along (Daemon.step platform) (ExpiresDue earlier) (Daemon.start man logsFile) labels) ↔
      ∀ timeout, allowed timeout → timeout.toInt ≤ 65535 := by
  constructor
  · intro h timeout hallowed
    by_contra hnot
    have hlong : 65535 < timeout.toInt := by omega
    refine expires_early platform hlong (h noLog none [] _ rfl ?_ ?_)
    · intro ne hne
      cases hne
    · intro call now hmem
      have hcall : call = plainCall timeout := by
        simp only [callToExpiry, List.cons_append, List.nil_append, List.mem_cons,
          Label.notify.injEq, reduceCtorEq, List.not_mem_nil, or_false] at hmem
        exact hmem.1
      rw [hcall]
      exact hallowed
  · intro hshort man logsFile earlier labels hauto hearlier hcalls
    refine along_expiresDue platform hshort hearlier labels hcalls _ hauto ?_
    intro ne hne
    cases hne

theorem long_timeout_expires_early :
    ¬ Along (Daemon.step Platform.bare) (ExpiresDue []) (Daemon.start noLog none)
      (callToExpiry 65537 ++ [.execute (atMillis ⟨65, 535000000⟩ 65535000000) (.ok ())]) :=
  expires_early Platform.bare (by decide)

end NotifsPiper.Expiry

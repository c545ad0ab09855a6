import NotifsPiper.Daemon

/-! Signals that a client forces. The signals made from one macro go out whatever the log holds;
a close unwraps the notification it has not found. -/

namespace NotifsPiper.Forced

open Runs

variable {Value : Type}

def signalOf : Job Value → Option Signal
  | .close id reason => some (.notificationClosed id reason.repr)
  | .actionInvoked id actionKey => some (.actionInvoked id actionKey)
  | .activationToken id token => some (.activationToken id token)
  | _ => none

/-- A signal job that carries FORCE, not an expiry. -/
structure Forces (jd : JobDesc Value) (signal : Signal) : Prop where
  signal : signalOf jd.cmd = some signal
  unexpired : ∀ id, jd.cmd ≠ .close id .expired
  force : Flags.force.is jd.desc.flags = true

theorem Forces.not_expired {id : Nid} {reason : NotificationClosed} {desc : Desc}
    {signal : Signal} (h : Forces (⟨.close id reason, desc⟩ : JobDesc Value) signal) :
    reason ≠ .expired := by
  rintro rfl
  exact h.unexpired id rfl

/-- The surroundings let a signal come to the bus. -/
def Reachable (env : Env) (man : LogsManager Value) : Prop :=
  env.runtime = .ok () ∧ man.interface = true ∧ env.lookup = true

structure Tried (env : Env) (man : LogsManager Value) (signal : Signal) (ex : Executed Value) :
    Prop where
  once : Reachable env man → ex.attempted = [signal]
  refused : ¬ Reachable env man → ex.attempted = [] ∧ ∃ err, ex.fulfilled.result = .error err

def Tries (platform : Platform Value) (env : Env) (jd : JobDesc Value) (man : LogsManager Value)
    (signal : Signal) : Prop :=
  ∃ ex, Job.execute platform env jd man = some ex ∧ Tried env man signal ex

def Logged (jd : JobDesc Value) (man : LogsManager Value) : Prop :=
  ∀ id reason, jd.cmd = .close id reason → ∃ ne ∈ man.logsBuffer, ne.id = id

theorem emitSignal_tried {env : Env} {man man' : LogsManager Value} (signal : Signal)
    (failure : String) (event : EventType) (hruntime : env.runtime = .ok ())
    (hman : man'.interface = man.interface) :
    Tried env man signal (emitSignal env man' signal failure event) := by
  unfold emitSignal
  rw [hman]
  split_ifs with hinterface hlookup hemission
  · exact ⟨fun _ => rfl, fun h => absurd ⟨hruntime, hinterface, hlookup⟩ h⟩
  · exact ⟨fun _ => rfl, fun h => absurd ⟨hruntime, hinterface, hlookup⟩ h⟩
  · exact ⟨fun h => absurd h.2.2 hlookup, fun _ => ⟨rfl, _, rfl⟩⟩
  · exact ⟨fun h => absurd h.2.1 hinterface, fun _ => ⟨rfl, _, rfl⟩⟩

theorem internal_tried {env : Env} {man : LogsManager Value} (signal : Signal) {err : String}
    (hruntime : env.runtime = .error err) (man' : LogsManager Value) :
    Tried env man signal (.quiet ⟨.error err, .other⟩ man') := by
  refine ⟨fun h => ?_, fun _ => ⟨rfl, err, rfl⟩⟩
  have hok := h.1
  rw [hruntime] at hok
  cases hok

theorem perform_tried (id : Nid) (reason : NotificationClosed) (pos : Nat) (env : Env)
    (man : LogsManager Value) :
    Tried env man (.notificationClosed id reason.repr) (Close.perform id reason pos env man) := by
  unfold Close.perform
  dsimp only
  split
  next hruntime => exact internal_tried _ hruntime _
  next hruntime =>
    exact emitSignal_tried (.notificationClosed id reason.repr) _ _ hruntime rfl

theorem signalExecute_tried (signal : Signal) (event : EventType) (env : Env) {desc : Desc}
    (man : LogsManager Value) (hforce : Flags.force.is desc.flags = true) :
    Tried env man signal (signalExecute signal event env desc man) := by
  have hpass : ((man.find signal.id).all (·.closed) && !Flags.force.is desc.flags) = false := by
    simp [hforce]
  rw [signalExecute, hpass, if_neg Bool.false_ne_true]
  split
  next hruntime => exact internal_tried signal hruntime man
  next hruntime => exact emitSignal_tried signal _ event hruntime rfl

theorem close_panics_iff {id : Nid} {reason : NotificationClosed} {env : Env} {desc : Desc}
    {man : LogsManager Value} (hreason : reason ≠ .expired)
    (hforce : Flags.force.is desc.flags = true) :
    Close.execute id reason env desc man = none ↔ ¬ ∃ ne ∈ man.logsBuffer, ne.id = id := by
  rw [Close.execute_none_iff, Close.Panics]
  simp [hreason, hforce, LogsManager.find, List.find?_eq_none]

theorem close_tries {id : Nid} {reason : NotificationClosed} (env : Env) {desc : Desc}
    {man : LogsManager Value} (hreason : reason ≠ .expired)
    (hforce : Flags.force.is desc.flags = true) (hlogged : ∃ ne ∈ man.logsBuffer, ne.id = id) :
    ∃ ex, Close.execute id reason env desc man = some ex ∧
      Tried env man (.notificationClosed id reason.repr) ex := by
  cases hpos : man.position id with
  | none =>
    obtain ⟨ne, hne, hid⟩ := hlogged
    exact absurd hid (LogsManager.position_none.mp hpos ne hne)
  | some pos =>
    have hlt := LogsManager.position_lt hpos
    have hpasses : Close.Passes id reason env desc man pos man.logsBuffer[pos] :=
      ⟨hpos, List.getElem?_eq_getElem hlt, fun _ => hforce, by simp [Close.dropped, hreason]⟩
    exact ⟨_, Close.execute_passes hpasses, perform_tried id reason pos env man⟩

theorem forced_none_iff {platform : Platform Value} {env : Env} {jd : JobDesc Value}
    {man : LogsManager Value} {signal : Signal} (hforces : Forces jd signal) :
    Job.execute platform env jd man = none ↔ ¬ Logged jd man := by
  obtain ⟨cmd, desc⟩ := jd
  cases cmd with
  | close id reason =>
    have hlogged : Logged ⟨.close id reason, desc⟩ man ↔ ∃ ne ∈ man.logsBuffer, ne.id = id :=
      ⟨fun h => h id reason rfl, fun h id' reason' hcmd => by cases hcmd; exact h⟩
    rw [hlogged]
    exact close_panics_iff hforces.not_expired hforces.force
  | actionInvoked id actionKey => simp [Job.execute, Logged]
  | activationToken id token => simp [Job.execute, Logged]
  | _ => cases hforces.signal

theorem forced_tries {env : Env} {jd : JobDesc Value} {man : LogsManager Value} {signal : Signal}
    (platform : Platform Value) (hforces : Forces jd signal) (hlogged : Logged jd man) :
    Tries platform env jd man signal := by
  obtain ⟨cmd, desc⟩ := jd
  cases cmd with
  | close id reason =>
    obtain rfl := Option.some.inj hforces.signal
    exact close_tries env hforces.not_expired hforces.force (hlogged id reason rfl)
  | actionInvoked id actionKey =>
    obtain rfl := Option.some.inj hforces.signal
    exact ⟨_, rfl, signalExecute_tried (.actionInvoked id actionKey) _ env man hforces.force⟩
  | activationToken id token =>
    obtain rfl := Option.some.inj hforces.signal
    exact ⟨_, rfl, signalExecute_tried (.activationToken id token) _ env man hforces.force⟩
  | _ => cases hforces.signal

/-- Whatever the log, the id and the surroundings: a forced signal completes and is tried once,
and leaves the manager thread alive, exactly when it is no close of a notification that is not
in the log. -/
theorem forced_signal_iff (platform : Platform Value) (env : Env) (jd : JobDesc Value)
    (man : LogsManager Value) (signal : Signal) (hforces : Forces jd signal) :
    (Tries platform env jd man signal ∧ Daemon.Survives platform env jd man) ↔ Logged jd man := by
  constructor
  · rintro ⟨-, hsurvives⟩
    by_contra hlogged
    exact Daemon.survives_iff.mp hsurvives ((forced_none_iff hforces).mpr hlogged)
  · intro hlogged
    refine ⟨forced_tries platform hforces hlogged, Daemon.survives_iff.mpr fun hnone => ?_⟩
    exact (forced_none_iff hforces).mp hnone hlogged

/-- A forced signal for a closed notification. -/
theorem forced_signal_iff_closed :
    Tries Platform.bare (Task.at 0 (.close 1 .dismissed)).1 ⟨.close 1 .dismissed, ⟨0, 2⟩⟩
        { LogsManager.empty 10 with logsBuffer := [(NotificationEvent.bare 1 0 0).setClosed] }
        (.notificationClosed 1 2) ∧
      Daemon.Survives Platform.bare (Task.at 0 (.close 1 .dismissed)).1 ⟨.close 1 .dismissed, ⟨0, 2⟩⟩
        { LogsManager.empty 10 with logsBuffer := [(NotificationEvent.bare 1 0 0).setClosed] } := by
  refine (forced_signal_iff Platform.bare _ _ _ _ ⟨rfl, by simp, rfl⟩).mpr ?_
  intro id reason hcmd
  cases hcmd
  exact ⟨_, List.mem_singleton_self _, rfl⟩

def forcing : List (Label Unit) :=
  [.connect ⟨.incoming 0, "0#2##close##7#2"⟩, .listen 0 true [], .listen 0 true [],
    .listen 0 true [], .listen 0 true [], .recv, .pop,
    .execute ⟨some ⟨0, 0⟩, 0, .ok (), true, true⟩ (.ok ())]

/-- Notification 7 is not in the log: the close panics, and the manager thread with it. -/
theorem forced_close_kills :
    ¬ Tries Platform.bare (Task.at 0 (.close 7 .dismissed)).1 ⟨.close 7 .dismissed, ⟨0, 2⟩⟩
        (.empty 10) (.notificationClosed 7 2) ∧
      (run (Daemon.step Platform.bare) (Daemon.start (.empty 10) none) forcing).map Daemon.phase =
        some (.dead .panicked) := by
  refine ⟨?_, by decide⟩
  rintro ⟨ex, hex, -⟩
  cases hex

end NotifsPiper.Forced

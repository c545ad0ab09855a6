import NotifsPiper.Jobs
import NotifsPiper.Deque

/-! The manager of the logs and what each job does to it. Everything a job learns from
its surroundings (the clocks, the runtime, the bus) is in `Env`; a job that panics has
no outcome. Machine integers wrap, as in the release profile. -/

namespace NotifsPiper

variable {Value : Type}

structure LogsConfig where
  maxLogs : LogCountType
  autoClose : Bool
  defaultTimeout : UInt16
  deriving DecidableEq, Repr

/-- Of `interface` and `notifyer` only whether they are set. -/
structure LogsManager (Value : Type) where
  logsBuffer : List (NotificationEvent Value)
  logsConfig : LogsConfig
  dirty : Bool
  interface : Bool
  notifyer : Bool
  deriving DecidableEq, Repr

namespace LogsManager

def position (man : LogsManager Value) (nid : Nid) : Option Nat :=
  man.logsBuffer.findIdx? fun val => val.id == nid

def find (man : LogsManager Value) (nid : Nid) : Option (NotificationEvent Value) :=
  man.logsBuffer.find? fun ne => ne.id == nid

def setDirty (man : LogsManager Value) : LogsManager Value := { man with dirty := true }

def removeNotification (man : LogsManager Value) (nid : Nid) :
    Option (NotificationEvent Value) × LogsManager Value :=
  match man.position nid with
  | none => (none, man)
  | some pos =>
    (man.logsBuffer[pos]?,
      { man.setDirty with logsBuffer := Deque.swapRemoveBack man.logsBuffer pos })

def appendNotification (man : LogsManager Value) (notif : NotificationEvent Value) :
    LogsManager Value :=
  let man := { man with
    logsBuffer := Deque.evict man.logsConfig.maxLogs.toNat man.logsBuffer }
  { man.setDirty with logsBuffer := notif :: man.logsBuffer }

def readNotification (man : LogsManager Value) (nid : Nid) : LogsManager Value :=
  match man.position nid with
  | none => man.setDirty
  | some pos =>
    { man.setDirty with logsBuffer := man.logsBuffer.modify pos NotificationEvent.setRead }

/-- The slice read and the manager after it; a slice that ends before it starts panics. -/
def readLogs (man : LogsManager Value) (start stop : LogCountType) (updateRead : Bool) :
    Option (List (NotificationEvent Value) × LogsManager Value) :=
  let len := man.logsBuffer.length
  let first := min len start.toNat
  let last := min len stop.toNat
  if last < first then none
  else
    let slice := (man.logsBuffer.drop first).take (last - first)
    if updateRead && slice.length != 0 then
      let marked := slice.map NotificationEvent.setRead
      some (marked, { man.setDirty with
        logsBuffer := man.logsBuffer.take first ++ marked ++ man.logsBuffer.drop last })
    else some (slice, man)

/-- The cast to `u16` keeps the low sixteen bits. -/
def mapTimeout (config : LogsConfig) (timeout : Int32) : Except String (Option UInt16) :=
  if timeout = -1 then .ok (some config.defaultTimeout)
  else if timeout = 0 then .ok none
  else if 1 ≤ timeout then .ok (some timeout.toUInt32.toUInt16)
  else .error "Cannot have a negative timeout"

end LogsManager

/-- What the surroundings answer while one job runs: the system clock (nothing before
the epoch), the monotonic clock in nanoseconds, the runtime builder, and whether the
interface is found and the signal emitted. -/
structure Env where
  systemTime : Option Duration
  instant : Nat
  runtime : Except String Unit
  lookup : Bool
  emission : Bool
  deriving DecidableEq, Repr

inductive Signal
  | notificationClosed (id : Nid) (reason : UInt32)
  | actionInvoked (id : Nid) (actionKey : String)
  | activationToken (id : Nid) (activationToken : String)
  deriving DecidableEq, Repr

def Signal.id : Signal → Nid
  | notificationClosed id _ => id
  | actionInvoked id _ => id
  | activationToken id _ => id

structure Timer where
  wakeup : Nat
  id : Nid
  deriving DecidableEq, Repr

/-- What executing a job leaves behind: its result, the manager, the signals whose
emission was tried and those that were emitted, and the timer it armed. -/
structure Executed (Value : Type) where
  fulfilled : FulfilledJob
  manager : LogsManager Value
  attempted : List Signal
  emitted : List Signal
  timer : Option Timer
  deriving DecidableEq, Repr

def Executed.quiet (fulfilled : FulfilledJob) (man : LogsManager Value) : Executed Value :=
  ⟨fulfilled, man, [], [], none⟩

/-- The asynchronous block in which a job emits its signal. -/
def emitSignal (env : Env) (man : LogsManager Value) (signal : Signal) (failure : String)
    (event : EventType) : Executed Value :=
  if man.interface then
    if env.lookup then
      if env.emission then ⟨⟨.ok (some ""), .event event⟩, man, [signal], [signal], none⟩
      else ⟨⟨.error failure, .event event⟩, man, [signal], [], none⟩
    else .quiet ⟨.error "Cannot connect to interface.", .event event⟩ man
  else .quiet ⟨.error "Interface unset in manager. Function 'start_server' has a problem.",
    .event event⟩ man

/-- Whether an expiry comes too early for the notification. Negative timeouts other than
the default never come due. -/
def Close.premature (env : Env) (config : LogsConfig) (ne : NotificationEvent Value) :
    Option Bool :=
  if ne.timeout = 0 then some true
  else match LogsManager.mapTimeout config ne.timeout with
    | .error _ => some true
    | .ok val => do
      let now ← env.systemTime
      let val ← val
      return decide (now.asMillis < BitVec.ofNat 128 val.toNat + ne.time)

def Close.dropped (reason : NotificationClosed) (env : Env) (config : LogsConfig)
    (ne : NotificationEvent Value) : Option Bool :=
  if reason == .expired && config.autoClose then Close.premature env config ne else some false

def Close.perform (id : Nid) (reason : NotificationClosed) (pos : Nat) (env : Env)
    (man : LogsManager Value) : Executed Value :=
  let man := { man.setDirty with
    logsBuffer := man.logsBuffer.modify pos NotificationEvent.setClosed }
  match env.runtime with
  | .error err => .quiet ⟨.error err, .other⟩ man
  | .ok () => emitSignal env man (.notificationClosed id reason.repr)
      "Cannot emit 'notification_closed' signal." (.close id)

def Close.execute (id : Nid) (reason : NotificationClosed) (env : Env) (desc : Desc)
    (man : LogsManager Value) : Option (Executed Value) :=
  let pos := man.position id
  let ne := pos.bind fun val => man.logsBuffer[val]?
  if ne.all (·.closed) && !Flags.force.is desc.flags then some (.quiet ⟨.ok none, .other⟩ man)
  else do
    let ne ← ne
    let dropped ← Close.dropped reason env man.logsConfig ne
    if dropped then some (.quiet ⟨.ok none, .other⟩ man)
    else
      let pos ← pos
      some (Close.perform id reason pos env man)

/-- The body `derive_signal!` generates. -/
def signalExecute (signal : Signal) (event : EventType) (env : Env) (desc : Desc)
    (man : LogsManager Value) : Executed Value :=
  if (man.find signal.id).all (·.closed) && !Flags.force.is desc.flags then
    .quiet ⟨.ok none, .other⟩ man
  else match env.runtime with
    | .error err => .quiet ⟨.error err, .other⟩ man
    | .ok () => emitSignal env man signal "Cannot emit signal." event

def ActionInvoked.execute (id : Nid) (actionKey : String) (env : Env) (desc : Desc)
    (man : LogsManager Value) : Executed Value :=
  signalExecute (.actionInvoked id actionKey) (.actionInvoked id actionKey) env desc man

def ActivationToken.execute (id : Nid) (activationToken : String) (env : Env) (desc : Desc)
    (man : LogsManager Value) : Executed Value :=
  signalExecute (.activationToken id activationToken) (.activationToken id activationToken)
    env desc man

/-- The timer a broadcast arms. The two `unwrap`s are on a timeout that is set. -/
def Broadcast.timer (config : LogsConfig) (env : Env) (event : NotificationEvent Value) :
    Option (Option Timer) :=
  if config.autoClose && event.timeout != 0 && decide (-1 ≤ event.timeout) then
    match LogsManager.mapTimeout config event.timeout with
    | .ok (some val) => some (some ⟨env.instant + val.toNat * 1000000, event.id⟩)
    | _ => none
  else some none

def Broadcast.execute (platform : Platform Value) (event : NotificationEvent Value) (env : Env)
    (man : LogsManager Value) : Option (Executed Value) := do
  let broadcast := platform.eventToString event
  let man := if event.replacesId != 0 then (man.removeNotification event.replacesId).2 else man
  let timer ← Broadcast.timer man.logsConfig env event
  let man := man.appendNotification event
  return ⟨⟨.ok (some broadcast), .results⟩, man, [], [], timer⟩

def Read.execute (platform : Platform Value) (start stop : LogCountType) (desc : Desc)
    (man : LogsManager Value) : Option (Executed Value) := do
  let (slice, man) ← man.readLogs start stop (!Flags.silent.is desc.flags)
  return .quiet ⟨.ok (some (platform.logToString slice)), .results⟩ man

def Query.execute (id : Nid) (man : LogsManager Value) : Executed Value :=
  let closed := ((man.find id).map (·.closed)).getD false
  .quiet ⟨.ok (some (if closed then "true" else "false")), .results⟩ man

def Watch.execute (man : LogsManager Value) : Executed Value := .quiet ⟨.ok none, .other⟩ man

def Acknowledge.execute (id : Nid) (man : LogsManager Value) : Executed Value :=
  .quiet ⟨.ok none, .other⟩ (man.readNotification id)

def Job.execute (platform : Platform Value) (env : Env) (jd : JobDesc Value)
    (man : LogsManager Value) : Option (Executed Value) :=
  match jd.cmd with
  | .broadcast event => Broadcast.execute platform event env man
  | .close id reason => Close.execute id reason env jd.desc man
  | .read start stop => Read.execute platform start stop jd.desc man
  | .query id => some (Query.execute id man)
  | .watch => some (Watch.execute man)
  | .actionInvoked id actionKey => some (ActionInvoked.execute id actionKey env jd.desc man)
  | .activationToken id token => some (ActivationToken.execute id token env jd.desc man)
  | .acknowledge id => some (Acknowledge.execute id man)

abbrev Task (Value : Type) := Env × JobDesc Value

def LogsManager.step (platform : Platform Value) (man : LogsManager Value) (task : Task Value) :
    Option (LogsManager Value) :=
  (Job.execute platform task.1 task.2 man).map Executed.manager

def LogsManager.empty (maxLogs : LogCountType) : LogsManager Unit :=
  ⟨[], ⟨maxLogs, true, 5000⟩, false, true, true⟩

def Task.at (now : Nat) (cmd : Job Unit) : Task Unit :=
  (⟨some ⟨UInt64.ofNat (now / 1000), Fin.ofNat 1000000000 (now % 1000 * 1000000)⟩,
    now * 1000000, .ok (), true, true⟩, ⟨cmd, ⟨0, Flags.none.repr⟩⟩)

end NotifsPiper

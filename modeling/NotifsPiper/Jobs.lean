import NotifsPiper.Notification

/-! The jobs, their text forms, and the text forms of their results. A decoder that
panics has no outcome at all. -/

namespace NotifsPiper

variable {Value : Type}

inductive NotificationClosed
  | expired
  | dismissed
  | callCloseNotification
  | undefined
  deriving DecidableEq, Repr

namespace NotificationClosed

def repr : NotificationClosed → UInt32
  | expired => 1
  | dismissed => 2
  | callCloseNotification => 3
  | undefined => 4

def ofRepr (value : UInt32) : Option NotificationClosed :=
  if value = 1 then some expired
  else if value = 2 then some dismissed
  else if value = 3 then some callCloseNotification
  else if value = 4 then some undefined
  else none

end NotificationClosed

inductive Job (Value : Type)
  | broadcast (event : NotificationEvent Value)
  | close (id : Nid) (reason : NotificationClosed)
  | read (start stop : LogCountType)
  | query (id : Nid)
  | watch
  | actionInvoked (id : Nid) (actionKey : String)
  | activationToken (id : Nid) (activationToken : String)
  | acknowledge (id : Nid)
  deriving DecidableEq, Repr

inductive Flags
  | none
  | silent
  | force
  deriving DecidableEq, Repr

namespace Flags

def repr : Flags → FlagsRepr
  | none => 0x00
  | silent => 0x01
  | force => 0x02

def is (flag : Flags) (int : FlagsRepr) : Bool := flag.repr &&& int != 0

def join (int : FlagsRepr) (other : Flags) : FlagsRepr := int ||| other.repr

end Flags

structure Desc where
  pid : Pid
  flags : FlagsRepr
  deriving DecidableEq, Repr

structure JobDesc (Value : Type) where
  cmd : Job Value
  desc : Desc
  deriving DecidableEq, Repr

/-! The text forms of jobs. -/

/-- A decoder's outcome; nothing at all when it panics. -/
abbrev Decoded (α : Type) := ExceptT PayloadError Option α

def Decoded.panic {α : Type} : Decoded α := (none : Option (Except PayloadError α))

def Job.canonicalName : Job Value → String
  | broadcast _ => "broadcast"
  | close .. => "close"
  | read .. => "read"
  | query _ => "query"
  | watch => "watch"
  | actionInvoked .. => "action"
  | activationToken .. => "activation"
  | acknowledge _ => "close"

/-- `Payload::to_string`; `Acknowledge` has none. -/
def Job.toStr (platform : Platform Value) : Job Value → Option String
  | broadcast event => some (platform.eventToString event)
  | close id reason => some (id.toNat.repr ++ "#" ++ reason.repr.toNat.repr)
  | read start stop => some (start.toNat.repr ++ "#" ++ stop.toNat.repr)
  | query id => some id.toNat.repr
  | watch => some "watch"
  | actionInvoked id actionKey => some (id.toNat.repr ++ "#" ++ actionKey)
  | activationToken id token => some (id.toNat.repr ++ "#" ++ token)
  | acknowledge _ => none

def Broadcast.fromStr (platform : Platform Value) (data : String) : Decoded (Job Value) :=
  match platform.eventFromStr data with
  | .ok event => return .broadcast event
  | .error err => throw ⟨data, "Error while parsing 'event' for 'Broadcast'", err⟩

def Close.fromStr (data : String) : Decoded (Job Value) := do
  let (id, reason) ← splitHash data
  let id ← parseNid "Close" id
  let reason ← parse UInt32.size UInt32.ofNat "NotificationClosedRepr" "Close" reason
  match NotificationClosed.ofRepr reason with
  | some reason => return .close id reason
  | none => Decoded.panic

def Read.fromStr (data : String) : Decoded (Job Value) := do
  let (start, stop) ← splitHash data
  let start ← parseLogCount "Read" start
  let stop ← parseLogCount "Read" stop
  return .read start stop

def Query.fromStr (data : String) : Decoded (Job Value) := do
  let id ← parseNid "Query" data
  return .query id

def Watch.fromStr (data : String) : Decoded (Job Value) :=
  if data = "watch" then return .watch else throw ⟨data, "Invalid payload", ""⟩

/-- The decoder `derive_signal!` generates. -/
def signalFromStr (signal : Nid → String → Job Value) (data : String) :
    Decoded (Job Value) := do
  let (id, text) ← splitHash data
  let id ← parseNid "Signal" id
  return signal id text

def ActionInvoked.fromStr (data : String) : Decoded (Job Value) :=
  signalFromStr .actionInvoked data

def ActivationToken.fromStr (data : String) : Decoded (Job Value) :=
  signalFromStr .activationToken data

/-- `from_str_static_dyn_payload`: an unknown name reaches `unreachable!`. -/
def Job.fromStr (platform : Platform Value) (data : String) : Decoded (Job Value) := do
  let (typ, data) ← splitDoubleHash data
  match typ with
  | "broadcast" => Broadcast.fromStr platform data
  | "close" => Close.fromStr data
  | "read" => Read.fromStr data
  | "watch" => Watch.fromStr data
  | "action" => ActionInvoked.fromStr data
  | "activation" => ActivationToken.fromStr data
  | "query" => Query.fromStr data
  | _ => Decoded.panic

def Desc.fromStr (data : String) : Except PayloadError Desc := do
  let (first, second) ← splitHash data
  let pid ← parsePid "Desc" first
  let flags ← parseFlags "Desc" second
  return ⟨pid, flags⟩

def Desc.toStr (desc : Desc) : String := desc.pid.toNat.repr ++ "#" ++ desc.flags.toNat.repr

def JobDesc.fromStr (platform : Platform Value) (data : String) : Decoded (JobDesc Value) := do
  let (desc, job) ← splitDoubleHash data
  let cmd ← Job.fromStr platform job
  let desc ← Desc.fromStr desc
  return ⟨cmd, desc⟩

def JobDesc.toStr (platform : Platform Value) (jd : JobDesc Value) : Option String :=
  (jd.cmd.toStr platform).map fun text =>
    jd.desc.toStr ++ "##" ++ jd.cmd.canonicalName ++ "##" ++ text

theorem Decoded.liftM_ok_bind {α β : Type} (a : α) (f : α → Decoded β) :
    (liftM (.ok a : Except PayloadError α) >>= f) = f a := rfl

theorem Decoded.bind_panics_iff {α β : Type} {x : Decoded α} {f : α → Decoded β} :
    (x >>= f).run = none ↔ x.run = none ∨ ∃ a, x.run = some (.ok a) ∧ (f a).run = none := by
  rw [ExceptT.run_bind]
  cases x.run with
  | none => simp
  | some result => cases result <;> simp

theorem Decoded.liftM_panics_iff {α β : Type} {x : Except PayloadError α} {f : α → Decoded β} :
    (liftM x >>= f).run = none ↔ ∃ a, x = .ok a ∧ (f a).run = none := by
  have hrun : (liftM x : Decoded α).run = some x := by cases x <;> rfl
  rw [bind_panics_iff, hrun]
  simp

theorem Desc.toStr_separated (desc : Desc) : Delimited.Separated '#' desc.toStr.toList := by
  have hflags := hash_not_mem_repr desc.flags.toNat
  have hjoin : Delimited.Separated '#'
      (desc.pid.toNat.repr.toList ++ '#' :: desc.flags.toNat.repr.toList) := by
    apply Delimited.separated_join (hash_not_mem_repr _) (Delimited.separated_of_not_mem hflags)
    · simp
    · intro hhead
      exact hflags (List.mem_of_mem_head? hhead)
  simpa [toStr] using hjoin

theorem Desc.fromStr_toStr (desc : Desc) : fromStr desc.toStr = .ok desc := by
  have hflags : parseFlags "Desc" desc.flags.toNat.repr = .ok desc.flags := by
    rw [parseFlags, parse_repr _ _ _ desc.flags.toNat_lt_size, UInt8.ofNat_toNat]
  rw [fromStr, toStr, splitHash_join (hash_not_mem_repr _)]
  simp [bind, Except.bind, parsePid_repr, hflags, pure, Except.pure]

theorem JobDesc.fromStr_toStr {platform : Platform Value} {jd : JobDesc Value} {text : String}
    (htext : jd.cmd.toStr platform = some text)
    (hcmd : Job.fromStr platform (jd.cmd.canonicalName ++ "##" ++ text) = pure jd.cmd) :
    fromStr platform ((jd.toStr platform).getD "") = pure jd := by
  have hdata : (jd.toStr platform).getD "" =
      jd.desc.toStr ++ "##" ++ (jd.cmd.canonicalName ++ "##" ++ text) := by
    rw [toStr, htext, Option.map_some, Option.getD_some]
    simp only [String.append_assoc]
  rw [hdata, fromStr, splitDoubleHash_join jd.desc.toStr_separated, Decoded.liftM_ok_bind]
  dsimp only
  rw [hcmd, Desc.fromStr_toStr]
  rfl

theorem parseNid_repr (struct : String) (nid : Nid) :
    parseNid struct nid.toNat.repr = .ok nid := by
  rw [parseNid, parse_repr _ _ _ nid.toNat_lt_size, UInt32.ofNat_toNat]

theorem parseLogCount_repr (struct : String) (count : LogCountType) :
    parseLogCount struct count.toNat.repr = .ok count := by
  rw [parseLogCount, parse_repr _ _ _ count.toNat_lt_size, UInt16.ofNat_toNat]

theorem Job.fromStr_named (platform : Platform Value) (name data : String) :
    '#' ∉ name.toList → fromStr platform (name ++ "##" ++ data) =
      match name with
      | "broadcast" => Broadcast.fromStr platform data
      | "close" => Close.fromStr data
      | "read" => Read.fromStr data
      | "watch" => Watch.fromStr data
      | "action" => ActionInvoked.fromStr data
      | "activation" => ActivationToken.fromStr data
      | "query" => Query.fromStr data
      | _ => Decoded.panic := by
  intro hname
  rw [fromStr, splitDoubleHash_join (Delimited.separated_of_not_mem hname),
    Decoded.liftM_ok_bind]

theorem Job.fromStr_read (platform : Platform Value) (start stop : LogCountType) :
    fromStr platform ("read" ++ "##" ++ (start.toNat.repr ++ "#" ++ stop.toNat.repr)) =
      pure (.read start stop) := by
  rw [fromStr_named platform "read" _ (by decide)]
  change Read.fromStr (start.toNat.repr ++ "#" ++ stop.toNat.repr) = _
  rw [Read.fromStr, splitHash_join (hash_not_mem_repr _), Decoded.liftM_ok_bind]
  dsimp only
  rw [parseLogCount_repr, Decoded.liftM_ok_bind, parseLogCount_repr, Decoded.liftM_ok_bind]

theorem Job.fromStr_query (platform : Platform Value) (id : Nid) :
    fromStr platform ("query" ++ "##" ++ id.toNat.repr) = pure (.query id) := by
  rw [fromStr_named platform "query" _ (by decide)]
  change Query.fromStr id.toNat.repr = _
  rw [Query.fromStr, parseNid_repr, Decoded.liftM_ok_bind]

/-! The results of jobs. -/

inductive EventType
  | close (id : Nid)
  | actionInvoked (id : Nid) (actionKey : String)
  | activationToken (id : Nid) (activationToken : String)
  deriving DecidableEq, Repr

def EventType.toStr : EventType → String
  | close nid => "cls#" ++ nid.toNat.repr
  | actionInvoked nid actionKey => "act#" ++ nid.toNat.repr ++ "#" ++ actionKey
  | activationToken nid token => "acv#" ++ nid.toNat.repr ++ "#" ++ token

def EventType.fromStr (data : String) : Except PayloadError EventType := do
  let (typ, rest) ← splitHash data
  match typ with
  | "cls" => return .close (← parseNid "EventType" rest)
  | "act" =>
    let (nid, act) ← splitHash rest
    return .actionInvoked (← parseNid "EventType" nid) act
  | "acv" =>
    let (nid, acv) ← splitHash rest
    return .activationToken (← parseNid "EventType" nid) acv
  | _ => throw ⟨typ, "Bad type for 'EventType'.", ""⟩

inductive FulfilledJobResultType
  | results
  | event (ev : EventType)
  | other
  deriving DecidableEq, Repr

structure FulfilledJob where
  result : Except String (Option String)
  typ : FulfilledJobResultType
  deriving DecidableEq, Repr

def debugResult (debugStr : String → String) : Except String (Option String) → String
  | .ok none => "Ok(None)"
  | .ok (some text) => "Ok(Some(" ++ debugStr text ++ "))"
  | .error err => "Err(" ++ debugStr err ++ ")"

def FulfilledJob.toStr (platform : Platform Value) (fj : FulfilledJob) : String :=
  match fj.typ with
  | .event ev => "ev#" ++ ev.toStr
  | .other => "oth#" ++ debugResult platform.debugStr fj.result
  | .results =>
    match fj.result with
    | .error err => "err#" ++ err
    | .ok (some text) => if text = "" then "" else "res#" ++ text
    | .ok none => ""

def FulfilledJob.fromStr (data : String) : Except PayloadError FulfilledJob := do
  if data = "" then
    return ⟨.ok none, .other⟩
  let (typ, data) ← splitHash data
  match typ with
  | "err" => return ⟨.error data, .other⟩
  | "res" => return ⟨.ok (some data), .results⟩
  | "ev" => return ⟨.ok none, .event (← EventType.fromStr data)⟩
  | "oth" => return ⟨.ok (some data), .other⟩
  | _ => throw ⟨typ, "Invalid type for 'FulfilledJob'.", ""⟩

def Transmission.fromFulfilled (platform : Platform Value) (ft : FulfilledJob) (pid : Pid) :
    Transmission :=
  ⟨.outgoing pid, ft.toStr platform⟩

end NotifsPiper

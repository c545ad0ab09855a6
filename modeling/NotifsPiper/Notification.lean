import NotifsPiper.Payload

/-! Notifications and the clock they are stamped with. What serde and the `Debug`
printer of strings do is a parameter, `Platform`; a hint's value is of an arbitrary
type. -/

namespace NotifsPiper

structure NotificationEvent (Value : Type) where
  id : Nid
  time : BitVec 128
  read : Bool
  closed : Bool
  appName : String
  replacesId : Nid
  appIcon : String
  summary : String
  body : String
  actions : List String
  hints : List (String × Value)
  timeout : Int32
  deriving DecidableEq, Repr

/-- The functions of other crates that turn values into text and back. -/
structure Platform (Value : Type) where
  eventToString : NotificationEvent Value → String
  eventFromStr : String → Except String (NotificationEvent Value)
  logToString : List (NotificationEvent Value) → String
  logFromStr : String → Except String (List (NotificationEvent Value))
  debugStr : String → String

variable {Value : Type}

namespace NotificationEvent

def setClosed (ne : NotificationEvent Value) : NotificationEvent Value :=
  { ne with closed := true }

def setRead (ne : NotificationEvent Value) : NotificationEvent Value :=
  { ne with read := true }

def sent (ne : NotificationEvent Value) : NotificationEvent Value :=
  { ne with read := false, closed := false }

@[simp] theorem setClosed_id (ne : NotificationEvent Value) : ne.setClosed.id = ne.id := rfl
@[simp] theorem setRead_id (ne : NotificationEvent Value) : ne.setRead.id = ne.id := rfl
@[simp] theorem setClosed_closed (ne : NotificationEvent Value) :
    ne.setClosed.closed = true := rfl
@[simp] theorem setRead_closed (ne : NotificationEvent Value) :
    ne.setRead.closed = ne.closed := rfl
@[simp] theorem setClosed_sent (ne : NotificationEvent Value) :
    ne.setClosed.sent = ne.sent := rfl
@[simp] theorem setRead_sent (ne : NotificationEvent Value) : ne.setRead.sent = ne.sent := rfl

def bare (id replacesId : Nid) (timeout : Int32) : NotificationEvent Unit :=
  ⟨id, 0, false, false, "", replacesId, "", "", "", [], [], timeout⟩

def bareJson (ne : NotificationEvent Unit) : String :=
  "\x7b\"id\":" ++ ne.id.toNat.repr ++ ",\"time\":" ++ ne.time.toNat.repr ++ ",\"read\":" ++
    toString ne.read ++ ",\"closed\":" ++ toString ne.closed ++
    ",\"app_name\":\"\",\"replaces_id\":" ++ ne.replacesId.toNat.repr ++
    ",\"app_icon\":\"\",\"summary\":\"\",\"body\":\"\",\"actions\":[],\"hints\":\x7b\x7d,\"timeout\":" ++
    toString ne.timeout.toInt ++ "\x7d"

end NotificationEvent

/-- The encoders on notifications without texts; it decodes the empty log. -/
def Platform.bare : Platform Unit where
  eventToString := NotificationEvent.bareJson
  eventFromStr _ := .error "EOF while parsing a value at line 1 column 0"
  logToString log := "[" ++ ",".intercalate (log.map NotificationEvent.bareJson) ++ "]"
  logFromStr text :=
    if text = "[]" then .ok [] else .error "EOF while parsing a value at line 1 column 0"
  debugStr text := "\"" ++ text ++ "\""

instance neZero_nanos : NeZero 1000000000 := ⟨by decide⟩

structure Duration where
  secs : UInt64
  nanos : Fin 1000000000
  deriving DecidableEq, Repr

def Duration.asMillis (d : Duration) : BitVec 128 :=
  BitVec.ofNat 128 (d.secs.toNat * 1000 + d.nanos.val / 1000000)

theorem Duration.asMillis_toNat (d : Duration) :
    d.asMillis.toNat = d.secs.toNat * 1000 + d.nanos.val / 1000000 := by
  have hsecs := d.secs.toNat_lt
  rw [asMillis, BitVec.toNat_ofNat, Nat.mod_eq_of_lt (by omega)]

theorem Duration.asMillis_lt (d : Duration) : d.asMillis.toNat < 2 ^ 64 * 1000 := by
  have hsecs := d.secs.toNat_lt
  rw [asMillis_toNat]
  omega

end NotifsPiper

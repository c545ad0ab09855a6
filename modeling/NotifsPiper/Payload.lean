import NotifsPiper.Delimited
import NotifsPiper.Utf8

/-! Text payloads: the two parsing macros, the envelope of everything that crosses
the socket, and its codec. -/

namespace NotifsPiper

abbrev Pid := UInt32
abbrev Nid := UInt32
abbrev FlagsRepr := UInt8
abbrev LogCountType := UInt16

structure PayloadError where
  data : String
  error : String
  details : String
  deriving DecidableEq, Repr

/-- `split_once!`; `shown` is the delimiter as `stringify!` prints it. -/
def splitOnce (data : String) (delimiter : List Char) (shown : String) :
    Except PayloadError (String × String) :=
  match Delimited.splitOnce delimiter data.toList with
  | some (first, second) => .ok (String.ofList first, String.ofList second)
  | none => .error ⟨data, "Pattern [" ++ shown ++ "] was not found in split.", ""⟩

def splitHash (data : String) : Except PayloadError (String × String) :=
  splitOnce data ['#'] "'#'"

def splitDoubleHash (data : String) : Except PayloadError (String × String) :=
  splitOnce data ['#', '#'] "\"##\""

def intErrorText : Delimited.IntError → String
  | .empty => "cannot parse integer from empty string"
  | .invalidDigit => "invalid digit found in string"
  | .posOverflow => "number too large to fit in target type"

/-- `parse!` at an unsigned type of `bound` values. -/
def parse {α : Type} (bound : Nat) (ofNat : Nat → α) (type struct data : String) :
    Except PayloadError α :=
  match Delimited.parseUnsigned bound data.toList with
  | .ok n => .ok (ofNat n)
  | .error err => .error ⟨data,
      "Invalid parsing for type '" ++ type ++ "' in structure '" ++ struct ++ "'.",
      intErrorText err⟩

def parsePid (struct data : String) : Except PayloadError Pid :=
  parse UInt32.size UInt32.ofNat "Pid" struct data

def parseNid (struct data : String) : Except PayloadError Nid :=
  parse UInt32.size UInt32.ofNat "Nid" struct data

def parseFlags (struct data : String) : Except PayloadError FlagsRepr :=
  parse UInt8.size UInt8.ofNat "FlagsRepr" struct data

def parseLogCount (struct data : String) : Except PayloadError LogCountType :=
  parse UInt16.size UInt16.ofNat "LogCountType" struct data

theorem ok_of_bind {ε α β : Type} {x : Except ε α} {f : α → Except ε β} {b : β}
    (h : (x >>= f) = .ok b) : ∃ a, x = .ok a ∧ f a = .ok b := by
  cases x with
  | error err => cases h
  | ok a => exact ⟨a, rfl, h⟩

theorem splitOnce_ok {data : String} {d : List Char} {shown : String} {a b : List Char}
    (h : Delimited.splitOnce d data.toList = some (a, b)) :
    splitOnce data d shown = .ok (String.ofList a, String.ofList b) := by
  rw [splitOnce, h]

theorem splitHash_join {a : String} (ha : '#' ∉ a.toList) (b : String) :
    splitHash (a ++ "#" ++ b) = .ok (a, b) := by
  have h : Delimited.splitOnce ['#'] (a ++ "#" ++ b).toList = some (a.toList, b.toList) := by
    simpa using Delimited.splitOnce_char ha b.toList
  rw [splitHash, splitOnce_ok h, String.ofList_toList, String.ofList_toList]

theorem splitDoubleHash_join {a : String} (ha : Delimited.Separated '#' a.toList) (b : String) :
    splitDoubleHash (a ++ "##" ++ b) = .ok (a, b) := by
  have h : Delimited.splitOnce ['#', '#'] (a ++ "##" ++ b).toList = some (a.toList, b.toList) := by
    simpa using Delimited.splitOnce_double ha b.toList
  rw [splitDoubleHash, splitOnce_ok h, String.ofList_toList, String.ofList_toList]

theorem splitDoubleHash_append {data first second : String}
    (h : splitDoubleHash data = .ok (first, second)) (more : String) :
    splitDoubleHash (data ++ more) = .ok (first, second ++ more) := by
  unfold splitDoubleHash splitOnce at h
  split at h
  next a b hsplit =>
    have hmore : Delimited.splitOnce ['#', '#'] (data ++ more).toList =
        some (a, b ++ more.toList) := by
      rw [String.toList_append]
      exact Delimited.splitOnce_append hsplit _
    cases h
    rw [splitDoubleHash, splitOnce_ok hmore, String.ofList_append, String.ofList_toList]
  next => cases h

theorem parse_repr {α : Type} {bound n : Nat} (ofNat : Nat → α) (type struct : String)
    (hn : n < bound) : parse bound ofNat type struct n.repr = .ok (ofNat n) := by
  rw [parse, Nat.toList_repr, Delimited.parseUnsigned_toDigits hn]

theorem hash_not_mem_repr (n : Nat) : '#' ∉ n.repr.toList := by
  rw [Nat.toList_repr]
  exact Delimited.not_mem_toDigits (by decide) n

inductive TransmissionType
  | incoming (pid : Pid)
  | outgoing (pid : Pid)
  | error
  deriving DecidableEq, Repr

def TransmissionType.fromStr (data : String) : Except PayloadError TransmissionType := do
  if data = "Err" then
    return .error
  let (first, second) ← splitHash data
  let second ← parsePid "TransmissionType" second
  match first with
  | "inc" => return .incoming second
  | "out" => return .outgoing second
  | _ => throw ⟨first, "Invalid type for 'TransmissionType' enum.", ""⟩

def TransmissionType.toStr : TransmissionType → String
  | .incoming pid => "inc#" ++ pid.toNat.repr
  | .outgoing pid => "out#" ++ pid.toNat.repr
  | .error => "Err"

structure Transmission where
  typ : TransmissionType
  data : String
  deriving DecidableEq, Repr

def Transmission.fromStr (data : String) : Except PayloadError Transmission := do
  let (first, second) ← splitDoubleHash data
  let typ ← TransmissionType.fromStr first
  return ⟨typ, second⟩

def Transmission.toStr (tr : Transmission) : String := tr.typ.toStr ++ "##" ++ tr.data

theorem TransmissionType.toStr_separated (typ : TransmissionType) :
    Delimited.Separated '#' typ.toStr.toList := by
  have hpid : ∀ (kind : List Char) (pid : Pid), '#' ∉ kind →
      Delimited.Separated '#' (kind ++ '#' :: pid.toNat.repr.toList) := by
    intro kind pid hkind
    have hhash := hash_not_mem_repr pid.toNat
    apply Delimited.separated_join hkind (Delimited.separated_of_not_mem hhash)
    · simp
    · intro hhead
      exact hhash (List.mem_of_mem_head? hhead)
  cases typ with
  | error => exact Delimited.separated_of_not_mem (by decide)
  | incoming pid => simpa [toStr] using hpid ['i', 'n', 'c'] pid (by decide)
  | outgoing pid => simpa [toStr] using hpid ['o', 'u', 't'] pid (by decide)

theorem parsePid_repr (struct : String) (pid : Pid) :
    parsePid struct pid.toNat.repr = .ok pid := by
  rw [parsePid, parse_repr _ _ _ pid.toNat_lt_size, UInt32.ofNat_toNat]

theorem TransmissionType.fromStr_toStr (typ : TransmissionType) :
    fromStr typ.toStr = .ok typ := by
  have hErr : ∀ (kind : String) (pid : Pid), kind ++ "#" ++ pid.toNat.repr ≠ "Err" := by
    intro kind pid h
    have hmem : '#' ∈ "Err".toList := by rw [← h]; simp
    exact absurd hmem (by decide)
  cases typ with
  | error => rfl
  | incoming pid =>
    change fromStr ("inc" ++ "#" ++ pid.toNat.repr) = _
    rw [fromStr, if_neg (hErr _ _), splitHash_join (by decide)]
    simp [bind, Except.bind, parsePid_repr, pure, Except.pure]
  | outgoing pid =>
    change fromStr ("out" ++ "#" ++ pid.toNat.repr) = _
    rw [fromStr, if_neg (hErr _ _), splitHash_join (by decide)]
    simp [bind, Except.bind, parsePid_repr, pure, Except.pure]

theorem Transmission.fromStr_toStr (tr : Transmission) : fromStr tr.toStr = .ok tr := by
  rw [fromStr, toStr, splitDoubleHash_join tr.typ.toStr_separated]
  simp [bind, Except.bind, TransmissionType.fromStr_toStr, pure, Except.pure]

/-- Text behind a transmission is taken for more of its data: nothing marks its end. -/
theorem Transmission.fromStr_append {s : String} {tr : Transmission} (h : fromStr s = .ok tr)
    (more : String) : fromStr (s ++ more) = .ok ⟨tr.typ, tr.data ++ more⟩ := by
  obtain ⟨⟨first, second⟩, hsplit, h⟩ := ok_of_bind h
  obtain ⟨typ, htyp, h⟩ := ok_of_bind h
  cases h
  rw [fromStr, splitDoubleHash_append hsplit]
  simp [bind, Except.bind, htyp, pure, Except.pure]

end NotifsPiper

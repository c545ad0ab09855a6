import NotifsPiper.Requests
import NotifsPiper.Results

/-! The texts that cross the socket. Which transmissions, requests and results the decoders
accept is said as a grammar; nothing else gets past them. -/

namespace NotifsPiper.Grammar

open Delimited (Numeral)

variable {Value : Type}

/-! The grammar. -/

abbrev IsPid (text : String) (pid : Pid) : Prop := Numeral UInt32.size pid.toNat text.toList

abbrev IsNid (text : String) (nid : Nid) : Prop := Numeral UInt32.size nid.toNat text.toList

abbrev IsFlags (text : String) (flags : FlagsRepr) : Prop :=
  Numeral UInt8.size flags.toNat text.toList

abbrev IsLogCount (text : String) (count : LogCountType) : Prop :=
  Numeral UInt16.size count.toNat text.toList

abbrev IsReason (text : String) (reason : NotificationClosed) : Prop :=
  Numeral UInt32.size reason.repr.toNat text.toList

inductive Envelope : Transmission → String → Prop
  | incoming {pid : Pid} {n : String} (data : String) (hpid : IsPid n pid) :
    Envelope ⟨.incoming pid, data⟩ ("inc#" ++ n ++ "##" ++ data)
  | outgoing {pid : Pid} {n : String} (data : String) (hpid : IsPid n pid) :
    Envelope ⟨.outgoing pid, data⟩ ("out#" ++ n ++ "##" ++ data)
  | error (data : String) : Envelope ⟨.error, data⟩ ("Err##" ++ data)

inductive Args (platform : Platform Value) : Job Value → String → Prop
  | broadcast {event : NotificationEvent Value} {text : String}
    (hevent : platform.eventFromStr text = .ok event) : Args platform (.broadcast event) text
  | close {id : Nid} {reason : NotificationClosed} {n r : String} (hid : IsNid n id)
    (hreason : IsReason r reason) : Args platform (.close id reason) (n ++ "#" ++ r)
  | read {start stop : LogCountType} {a b : String} (hstart : IsLogCount a start)
    (hstop : IsLogCount b stop) : Args platform (.read start stop) (a ++ "#" ++ b)
  | query {id : Nid} {n : String} (hid : IsNid n id) : Args platform (.query id) n
  | watch : Args platform .watch "watch"
  | actionInvoked {id : Nid} {n : String} (key : String) (hid : IsNid n id) :
    Args platform (.actionInvoked id key) (n ++ "#" ++ key)
  | activationToken {id : Nid} {n : String} (token : String) (hid : IsNid n id) :
    Args platform (.activationToken id token) (n ++ "#" ++ token)

/-- A request is `pid#flags##name##args`. -/
inductive Asked (platform : Platform Value) : JobDesc Value → String → Prop
  | job {cmd : Job Value} {desc : Desc} {p f args : String} (hpid : IsPid p desc.pid)
    (hflags : IsFlags f desc.flags) (hargs : Args platform cmd args) :
    Asked platform ⟨cmd, desc⟩ (p ++ "#" ++ f ++ "##" ++ (cmd.canonicalName ++ "##" ++ args))

inductive Announced : EventType → String → Prop
  | close {id : Nid} {n : String} (hid : IsNid n id) : Announced (.close id) ("cls#" ++ n)
  | actionInvoked {id : Nid} {n : String} (key : String) (hid : IsNid n id) :
    Announced (.actionInvoked id key) ("act#" ++ (n ++ "#" ++ key))
  | activationToken {id : Nid} {n : String} (token : String) (hid : IsNid n id) :
    Announced (.activationToken id token) ("acv#" ++ (n ++ "#" ++ token))

inductive Told : FulfilledJob → String → Prop
  | nothing : Told ⟨.ok none, .other⟩ ""
  | failed (err : String) : Told ⟨.error err, .other⟩ ("err#" ++ err)
  | results (text : String) : Told ⟨.ok (some text), .results⟩ ("res#" ++ text)
  | event {ev : EventType} {text : String} (hev : Announced ev text) :
    Told ⟨.ok none, .event ev⟩ ("ev#" ++ text)
  | other (text : String) : Told ⟨.ok (some text), .other⟩ ("oth#" ++ text)

/-! The numbers and the delimiters. -/

theorem splitHash_iff {text a b : String} :
    splitHash text = .ok (a, b) ↔ text = a ++ "#" ++ b ∧ '#' ∉ a.toList := by
  constructor
  · intro h
    unfold splitHash splitOnce at h
    split at h
    next first second hsplit =>
      cases h
      obtain ⟨htext, hhash⟩ := Delimited.splitOnce_char_iff.mp hsplit
      refine ⟨String.toList_inj.mp ?_, by simpa using hhash⟩
      simp [htext]
    next => cases h
  · rintro ⟨rfl, hhash⟩
    exact splitHash_join hhash b

theorem splitDoubleHash_eq {text a b : String} (h : splitDoubleHash text = .ok (a, b)) :
    text = a ++ "##" ++ b := by
  unfold splitDoubleHash splitOnce at h
  split at h
  next first second hsplit =>
    cases h
    apply String.toList_inj.mp
    simp [Delimited.splitOnce_eq_append hsplit]
  next => cases h

theorem parse_iff {α : Type} {bound : Nat} {ofNat : Nat → α} {toNat : α → Nat}
    (hof : ∀ a, ofNat (toNat a) = a)
    (hto : ∀ n, n < bound → toNat (ofNat n) = n) (type struct data : String) (a : α) :
    parse bound ofNat type struct data = .ok a ↔ Numeral bound (toNat a) data.toList := by
  unfold parse
  constructor
  · intro h
    split at h
    next n hn =>
      cases h
      have hnumeral := Delimited.parseUnsigned_iff.mp hn
      rw [hto n hnumeral.lt]
      exact hnumeral
    next => cases h
  · intro h
    rw [Delimited.parseUnsigned_iff.mpr h]
    dsimp only
    rw [hof a]

theorem parsePid_iff {struct data : String} {pid : Pid} :
    parsePid struct data = .ok pid ↔ IsPid data pid :=
  parse_iff (fun _ => UInt32.ofNat_toNat) (fun _ h => UInt32.toNat_ofNat_of_lt h)
    "Pid" struct data pid

theorem parseNid_iff {struct data : String} {nid : Nid} :
    parseNid struct data = .ok nid ↔ IsNid data nid :=
  parse_iff (fun _ => UInt32.ofNat_toNat) (fun _ h => UInt32.toNat_ofNat_of_lt h)
    "Nid" struct data nid

theorem parseFlags_iff {struct data : String} {flags : FlagsRepr} :
    parseFlags struct data = .ok flags ↔ IsFlags data flags :=
  parse_iff (fun _ => UInt8.ofNat_toNat) (fun _ h => UInt8.toNat_ofNat_of_lt h)
    "FlagsRepr" struct data flags

theorem parseLogCount_iff {struct data : String} {count : LogCountType} :
    parseLogCount struct data = .ok count ↔ IsLogCount data count :=
  parse_iff (fun _ => UInt16.ofNat_toNat) (fun _ h => UInt16.toNat_ofNat_of_lt h)
    "LogCountType" struct data count

theorem parseReason_iff {data : String} {reason : NotificationClosed} :
    (∃ value, parse UInt32.size UInt32.ofNat "NotificationClosedRepr" "Close" data = .ok value ∧
      NotificationClosed.ofRepr value = some reason) ↔ IsReason data reason := by
  have hnumeral := parse_iff (fun _ => UInt32.ofNat_toNat) (fun _ h => UInt32.toNat_ofNat_of_lt h)
    "NotificationClosedRepr" "Close" data reason.repr
  constructor
  · rintro ⟨value, hvalue, hreason⟩
    have hrepr : value = reason.repr := by
      unfold NotificationClosed.ofRepr at hreason
      split_ifs at hreason with h1 h2 h3 h4
      all_goals
        cases hreason
        assumption
    rw [hrepr] at hvalue
    exact hnumeral.mp hvalue
  · intro h
    exact ⟨reason.repr, hnumeral.mpr h, Job.ofRepr_repr reason⟩

/-! A number holds no delimiter, so that what stands in front of one is separated from it. -/

theorem hash_not_mem {bound n : Nat} {text : String} (h : Numeral bound n text.toList) :
    '#' ∉ text.toList :=
  h.not_mem (by decide) (by decide)

theorem separated_numeral {bound n : Nat} (kind : String) {text : String}
    (hkind : '#' ∉ kind.toList) (h : Numeral bound n text.toList) :
    Delimited.Separated '#' (kind ++ "#" ++ text).toList := by
  have hhash := hash_not_mem h
  have hjoin : Delimited.Separated '#' (kind.toList ++ '#' :: text.toList) := by
    apply Delimited.separated_join hkind (Delimited.separated_of_not_mem hhash)
    · intro hnil
      rw [hnil] at h
      exact h.ne_nil rfl
    · intro hhead
      exact hhash (List.mem_of_mem_head? hhead)
  simpa using hjoin

/-! The envelope. -/

theorem typ_eq_ok {data : String} {typ : TransmissionType}
    (h : TransmissionType.fromStr data = .ok typ) :
    (typ = .error ∧ data = "Err") ∨
      ∃ n pid, IsPid n pid ∧
        ((typ = .incoming pid ∧ data = "inc#" ++ n) ∨ (typ = .outgoing pid ∧ data = "out#" ++ n)) := by
  unfold TransmissionType.fromStr at h
  split_ifs at h with herr
  · cases h
    exact .inl ⟨rfl, herr⟩
  · obtain ⟨⟨kind, n⟩, hsplit, h⟩ := ok_of_bind h
    obtain ⟨pid, hpid, hkind⟩ := ok_of_bind h
    obtain ⟨rfl, -⟩ := splitHash_iff.mp hsplit
    refine .inr ⟨n, pid, parsePid_iff.mp hpid, ?_⟩
    split at hkind
    · cases hkind
      exact .inl ⟨rfl, rfl⟩
    · cases hkind
      exact .inr ⟨rfl, rfl⟩
    · cases hkind

theorem kind_read (kind : String) {n : String} {pid : Pid} (hpid : IsPid n pid) :
    '#' ∉ kind.toList → TransmissionType.fromStr (kind ++ "#" ++ n) =
      match kind with
      | "inc" => .ok (.incoming pid)
      | "out" => .ok (.outgoing pid)
      | _ => .error ⟨kind, "Invalid type for 'TransmissionType' enum.", ""⟩ := by
  intro hkind
  have hErr : kind ++ "#" ++ n ≠ "Err" := by
    intro h
    have hmem : '#' ∈ "Err".toList := by rw [← h]; simp
    exact absurd hmem (by decide)
  rw [TransmissionType.fromStr, if_neg hErr, splitHash_join hkind]
  simp only [bind, Except.bind, parsePid_iff.mpr hpid]
  rfl

theorem typ_read {first : String} {typ : TransmissionType}
    (hsep : Delimited.Separated '#' first.toList) (htyp : TransmissionType.fromStr first = .ok typ)
    (data : String) : Transmission.fromStr (first ++ "##" ++ data) = .ok ⟨typ, data⟩ := by
  rw [Transmission.fromStr, splitDoubleHash_join hsep]
  simp [bind, Except.bind, htyp, pure, Except.pure]

theorem envelope_iff (text : String) (tr : Transmission) :
    Transmission.fromStr text = .ok tr ↔ Envelope tr text := by
  constructor
  · intro h
    obtain ⟨⟨first, second⟩, hsplit, h⟩ := ok_of_bind h
    obtain ⟨typ, htyp, h⟩ := ok_of_bind h
    cases h
    rw [splitDoubleHash_eq hsplit]
    obtain ⟨rfl, rfl⟩ | ⟨n, pid, hpid, ⟨rfl, rfl⟩ | ⟨rfl, rfl⟩⟩ := typ_eq_ok htyp
    · exact .error second
    · exact .incoming second hpid
    · exact .outgoing second hpid
  · intro h
    cases h with
    | incoming data hpid =>
      exact typ_read (separated_numeral "inc" (by decide) hpid)
        (kind_read "inc" hpid (by decide)) data
    | outgoing data hpid =>
      exact typ_read (separated_numeral "out" (by decide) hpid)
        (kind_read "out" hpid (by decide)) data
    | error data =>
      have hsep : Delimited.Separated '#' "Err".toList :=
        Delimited.separated_of_not_mem (by decide)
      exact typ_read hsep rfl data

/-! The jobs. -/

theorem bind_pure_iff {α β : Type} {x : Decoded α} {f : α → Decoded β} {b : β} :
    (x >>= f) = pure b ↔ ∃ a, x = pure a ∧ f a = pure b := by
  constructor
  · intro h
    match x, h with
    | none, h => cases h
    | some (.error err), h => cases h
    | some (.ok a), h => exact ⟨a, rfl, h⟩
  · rintro ⟨a, rfl, hf⟩
    rw [pure_bind]
    exact hf

theorem liftM_pure_iff {α : Type} {x : Except PayloadError α} {a : α} :
    (liftM x : Decoded α) = pure a ↔ x = .ok a := by
  constructor
  · intro h
    cases x with
    | error err => cases h
    | ok b =>
      cases h
      rfl
  · rintro rfl
    rfl

theorem liftM_bind_iff {α β : Type} {x : Except PayloadError α} {f : α → Decoded β} {b : β} :
    (liftM x >>= f) = pure b ↔ ∃ a, x = .ok a ∧ f a = pure b := by
  rw [bind_pure_iff]
  simp only [liftM_pure_iff]

variable (platform : Platform Value)

theorem broadcast_args {data : String} {cmd : Job Value}
    (h : Broadcast.fromStr platform data = pure cmd) :
    cmd.canonicalName = "broadcast" ∧ Args platform cmd data := by
  unfold Broadcast.fromStr at h
  split at h
  next event hevent =>
    cases h
    exact ⟨rfl, .broadcast hevent⟩
  next => cases h

theorem close_args {data : String} {cmd : Job Value} (h : Close.fromStr data = pure cmd) :
    cmd.canonicalName = "close" ∧ Args platform cmd data := by
  obtain ⟨⟨n, r⟩, hsplit, h⟩ := liftM_bind_iff.mp h
  obtain ⟨id, hid, h⟩ := liftM_bind_iff.mp h
  obtain ⟨value, hvalue, hread⟩ := liftM_bind_iff.mp h
  obtain ⟨rfl, -⟩ := splitHash_iff.mp hsplit
  split at hread
  next reason hreason =>
    cases hread
    exact ⟨rfl, .close (parseNid_iff.mp hid) (parseReason_iff.mp ⟨value, hvalue, hreason⟩)⟩
  next => cases hread

theorem read_args {data : String} {cmd : Job Value} (h : Read.fromStr data = pure cmd) :
    cmd.canonicalName = "read" ∧ Args platform cmd data := by
  obtain ⟨⟨a, b⟩, hsplit, h⟩ := liftM_bind_iff.mp h
  obtain ⟨start, hstart, h⟩ := liftM_bind_iff.mp h
  obtain ⟨stop, hstop, hread⟩ := liftM_bind_iff.mp h
  obtain ⟨rfl, -⟩ := splitHash_iff.mp hsplit
  cases hread
  exact ⟨rfl, .read (parseLogCount_iff.mp hstart) (parseLogCount_iff.mp hstop)⟩

theorem query_args {data : String} {cmd : Job Value} (h : Query.fromStr data = pure cmd) :
    cmd.canonicalName = "query" ∧ Args platform cmd data := by
  obtain ⟨id, hid, h⟩ := liftM_bind_iff.mp h
  cases h
  exact ⟨rfl, .query (parseNid_iff.mp hid)⟩

theorem watch_args {data : String} {cmd : Job Value} (h : Watch.fromStr data = pure cmd) :
    cmd.canonicalName = "watch" ∧ Args platform cmd data := by
  unfold Watch.fromStr at h
  split_ifs at h with hdata
  · cases h
    rw [hdata]
    exact ⟨rfl, .watch⟩
  · cases h

theorem signal_args {signal : Nid → String → Job Value} {data : String} {cmd : Job Value}
    (h : signalFromStr signal data = pure cmd) :
    ∃ id n text, IsNid n id ∧ cmd = signal id text ∧ data = n ++ "#" ++ text := by
  obtain ⟨⟨n, text⟩, hsplit, h⟩ := liftM_bind_iff.mp h
  obtain ⟨id, hid, h⟩ := liftM_bind_iff.mp h
  cases h
  exact ⟨id, n, text, parseNid_iff.mp hid, rfl, (splitHash_iff.mp hsplit).1⟩

theorem job_args {data : String} {cmd : Job Value} (h : Job.fromStr platform data = pure cmd) :
    ∃ args, data = cmd.canonicalName ++ "##" ++ args ∧ Args platform cmd args := by
  obtain ⟨⟨name, args⟩, hsplit, hread⟩ := liftM_bind_iff.mp h
  have hdata := splitDoubleHash_eq hsplit
  suffices hargs : cmd.canonicalName = name ∧ Args platform cmd args by
    rw [← hargs.1] at hdata
    exact ⟨args, hdata, hargs.2⟩
  dsimp only at hread
  split at hread
  · exact broadcast_args platform hread
  · exact close_args platform hread
  · exact read_args platform hread
  · exact watch_args platform hread
  · obtain ⟨id, n, key, hid, rfl, rfl⟩ := signal_args hread
    exact ⟨rfl, .actionInvoked key hid⟩
  · obtain ⟨id, n, token, hid, rfl, rfl⟩ := signal_args hread
    exact ⟨rfl, .activationToken token hid⟩
  · exact query_args platform hread
  · cases hread

variable {platform}

theorem signal_read {id : Nid} {n : String} (hid : IsNid n id) (signal : Nid → String → Job Value)
    (text : String) : signalFromStr signal (n ++ "#" ++ text) = pure (signal id text) := by
  apply liftM_bind_iff.mpr
  refine ⟨(n, text), splitHash_join (hash_not_mem hid) text, liftM_bind_iff.mpr ?_⟩
  exact ⟨id, parseNid_iff.mpr hid, rfl⟩

theorem args_read {cmd : Job Value} {args : String} (h : Args platform cmd args) :
    Job.fromStr platform (cmd.canonicalName ++ "##" ++ args) = pure cmd := by
  cases h with
  | broadcast hevent =>
    rw [Job.canonicalName, Job.fromStr_named platform "broadcast" _ (by decide)]
    change Broadcast.fromStr platform _ = _
    rw [Broadcast.fromStr, hevent]
  | @close id reason n r hid hreason =>
    rw [Job.canonicalName, Job.fromStr_named platform "close" _ (by decide)]
    obtain ⟨value, hvalue, hrepr⟩ := parseReason_iff.mpr hreason
    refine liftM_bind_iff.mpr ⟨(n, r), splitHash_join (hash_not_mem hid) r, ?_⟩
    refine liftM_bind_iff.mpr ⟨id, parseNid_iff.mpr hid, ?_⟩
    refine liftM_bind_iff.mpr ⟨value, hvalue, ?_⟩
    rw [hrepr]
  | @read start stop a b hstart hstop =>
    rw [Job.canonicalName, Job.fromStr_named platform "read" _ (by decide)]
    refine liftM_bind_iff.mpr ⟨(a, b), splitHash_join (hash_not_mem hstart) b, ?_⟩
    refine liftM_bind_iff.mpr ⟨start, parseLogCount_iff.mpr hstart, ?_⟩
    exact liftM_bind_iff.mpr ⟨stop, parseLogCount_iff.mpr hstop, rfl⟩
  | @query id n hid =>
    rw [Job.canonicalName, Job.fromStr_named platform "query" _ (by decide)]
    exact liftM_bind_iff.mpr ⟨id, parseNid_iff.mpr hid, rfl⟩
  | watch =>
    rw [Job.canonicalName, Job.fromStr_named platform "watch" _ (by decide)]
    rfl
  | actionInvoked key hid =>
    rw [Job.canonicalName, Job.fromStr_named platform "action" _ (by decide)]
    exact signal_read hid .actionInvoked key
  | activationToken token hid =>
    rw [Job.canonicalName, Job.fromStr_named platform "activation" _ (by decide)]
    exact signal_read hid .activationToken token

theorem asked_iff (text : String) (jd : JobDesc Value) :
    JobDesc.fromStr platform text = pure jd ↔ Asked platform jd text := by
  constructor
  · intro h
    obtain ⟨⟨first, job⟩, hsplit, h⟩ := liftM_bind_iff.mp h
    obtain ⟨cmd, hcmd, h⟩ := bind_pure_iff.mp h
    obtain ⟨desc, hdesc, h⟩ := liftM_bind_iff.mp h
    cases h
    obtain ⟨args, rfl, hargs⟩ := job_args platform hcmd
    obtain ⟨⟨p, f⟩, hflags, hdesc⟩ := ok_of_bind hdesc
    obtain ⟨pid, hpid, hdesc⟩ := ok_of_bind hdesc
    obtain ⟨flags, hflag, hdesc⟩ := ok_of_bind hdesc
    cases hdesc
    rw [splitDoubleHash_eq hsplit, (splitHash_iff.mp hflags).1]
    exact .job (parsePid_iff.mp hpid) (parseFlags_iff.mp hflag) hargs
  · intro h
    cases h with
    | @job cmd desc p f args hpid hflags hargs =>
      have hsep := separated_numeral p (hash_not_mem hpid) hflags
      have hdesc : Desc.fromStr (p ++ "#" ++ f) = .ok desc := by
        rw [Desc.fromStr, splitHash_join (hash_not_mem hpid)]
        simp [bind, Except.bind, parsePid_iff.mpr hpid, parseFlags_iff.mpr hflags, pure,
          Except.pure]
      refine liftM_bind_iff.mpr ⟨_, splitDoubleHash_join hsep _, ?_⟩
      refine bind_pure_iff.mpr ⟨cmd, args_read hargs, ?_⟩
      exact liftM_bind_iff.mpr ⟨desc, hdesc, rfl⟩

/-! The results. -/

theorem announced_iff (text : String) (ev : EventType) :
    EventType.fromStr text = .ok ev ↔ Announced ev text := by
  constructor
  · intro h
    obtain ⟨⟨typ, rest⟩, hsplit, hread⟩ := ok_of_bind h
    obtain ⟨rfl, -⟩ := splitHash_iff.mp hsplit
    dsimp only at hread
    split at hread
    · obtain ⟨nid, hnid, hread⟩ := ok_of_bind hread
      cases hread
      exact .close (parseNid_iff.mp hnid)
    · obtain ⟨⟨n, act⟩, hact, hread⟩ := ok_of_bind hread
      obtain ⟨nid, hnid, hread⟩ := ok_of_bind hread
      cases hread
      rw [(splitHash_iff.mp hact).1]
      exact .actionInvoked act (parseNid_iff.mp hnid)
    · obtain ⟨⟨n, acv⟩, hacv, hread⟩ := ok_of_bind hread
      obtain ⟨nid, hnid, hread⟩ := ok_of_bind hread
      cases hread
      rw [(splitHash_iff.mp hacv).1]
      exact .activationToken acv (parseNid_iff.mp hnid)
    · cases hread
  · intro h
    cases h with
    | @close id n hid =>
      change EventType.fromStr ("cls" ++ "#" ++ n) = _
      rw [EventType.fromStr, splitHash_join (by decide)]
      simp [bind, Except.bind, parseNid_iff.mpr hid, pure, Except.pure]
    | @actionInvoked id n key hid =>
      change EventType.fromStr ("act" ++ "#" ++ (n ++ "#" ++ key)) = _
      rw [EventType.fromStr, splitHash_join (by decide)]
      simp [bind, Except.bind, splitHash_join (hash_not_mem hid), parseNid_iff.mpr hid, pure,
        Except.pure]
    | @activationToken id n token hid =>
      change EventType.fromStr ("acv" ++ "#" ++ (n ++ "#" ++ token)) = _
      rw [EventType.fromStr, splitHash_join (by decide)]
      simp [bind, Except.bind, splitHash_join (hash_not_mem hid), parseNid_iff.mpr hid, pure,
        Except.pure]

theorem told_iff (text : String) (fj : FulfilledJob) :
    FulfilledJob.fromStr text = .ok fj ↔ Told fj text := by
  constructor
  · intro h
    unfold FulfilledJob.fromStr at h
    split_ifs at h with hempty
    · cases h
      rw [hempty]
      exact .nothing
    · obtain ⟨⟨typ, data⟩, hsplit, hread⟩ := ok_of_bind h
      obtain ⟨rfl, -⟩ := splitHash_iff.mp hsplit
      dsimp only at hread
      split at hread
      · cases hread
        exact .failed data
      · cases hread
        exact .results data
      · obtain ⟨ev, hev, hread⟩ := ok_of_bind hread
        cases hread
        exact .event ((announced_iff data ev).mp hev)
      · cases hread
        exact .other data
      · cases hread
  · intro h
    cases h with
    | nothing => rfl
    | failed err =>
      change FulfilledJob.fromStr ("err" ++ "#" ++ err) = _
      rw [FulfilledJob.fromStr, if_neg (FulfilledJob.tagged_ne _ _), splitHash_join (by decide)]
      rfl
    | results text => exact FulfilledJob.fromStr_res text
    | @event ev text hev =>
      change FulfilledJob.fromStr ("ev" ++ "#" ++ text) = _
      rw [FulfilledJob.fromStr, if_neg (FulfilledJob.tagged_ne _ _), splitHash_join (by decide)]
      simp [bind, Except.bind, (announced_iff text ev).mpr hev, pure, Except.pure]
    | other text => exact FulfilledJob.fromStr_oth text

/-- The decoders accept exactly the grammar: an envelope with its pid, a request with a known
name and the arguments of that name, a result with a known tag. Numbers may carry a plus sign
and zeros in front, and have to fit their type. -/
theorem grammar_accepted (platform : Platform Value) (text : String) :
    (∀ tr, Transmission.fromStr text = .ok tr ↔ Envelope tr text) ∧
    (∀ jd, JobDesc.fromStr platform text = pure jd ↔ Asked platform jd text) ∧
    ∀ fj, FulfilledJob.fromStr text = .ok fj ↔ Told fj text :=
  ⟨envelope_iff text, asked_iff text, told_iff text⟩

/-- A plus sign and zeros in front change nothing. -/
example : TransmissionType.fromStr "inc#+007" = .ok (.incoming 7) := by decide +kernel

end NotifsPiper.Grammar

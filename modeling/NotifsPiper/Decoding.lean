import NotifsPiper.Reception

/-! Which requests the decoders can read to an end, and what the listener makes of the others.
Two places do not return: a job of an unknown name, and a close with a reason outside the
protocol. -/

namespace NotifsPiper.Decoding

open Runs

variable {Value : Type}

/-- The text decodes to a value or to an error, and so does the job of an incoming
transmission. -/
def Decodes (platform : Platform Value) (text : String) : Prop :=
  ∀ pid data, Transmission.fromStr text = .ok ⟨.incoming pid, data⟩ →
    (JobDesc.fromStr platform data).run ≠ none

/-- A text that is no transmission is answered with the error of its decoding, and an incoming
one that is no job with an error too. -/
structure Refuses (platform : Platform Value) (text : String) : Prop where
  read : ∀ err, Transmission.fromStr text = .error err →
    ∀ (r : Reception Value) arrival, Reception.Whole text arrival.reads →
      r.receive arrival = r.sendError err.data
  job : ∀ pid data, Transmission.fromStr text = .ok ⟨.incoming pid, data⟩ →
    (∀ jd, (JobDesc.fromStr platform data).run ≠ some (.ok jd)) →
      ∀ (d : Daemon Value) stream broken, ∃ err,
        (ListenerTask.received stream ⟨.incoming pid, data⟩).step platform true broken d =
          some (d.deliver true stream ⟨.error, err⟩)

def jobNames : List String :=
  ["broadcast", "close", "read", "watch", "action", "activation", "query"]

/-- If the two numbers of a close can be read, the second is a reason of the protocol. -/
def ReasonKnown (data : String) : Prop :=
  ∀ id reason nid value, splitHash data = .ok (id, reason) → parseNid "Close" id = .ok nid →
    parse UInt32.size UInt32.ofNat "NotificationClosedRepr" "Close" reason = .ok value →
      value ∈ [(1 : UInt32), 2, 3, 4]

/-- If the job has a name, it is a known one, and a close has a known reason. -/
def JobKnown (job : String) : Prop :=
  ∀ typ data, splitDoubleHash job = .ok (typ, data) →
    typ ∈ jobNames ∧ (typ = "close" → ReasonKnown data)

/-- If the text is an incoming transmission with a description and a job, the job is known. -/
def RequestKnown (text : String) : Prop :=
  ∀ pid data desc job, Transmission.fromStr text = .ok ⟨.incoming pid, data⟩ →
    splitDoubleHash data = .ok (desc, job) → JobKnown job

theorem ofRepr_none_iff {value : UInt32} :
    NotificationClosed.ofRepr value = none ↔ value ∉ [(1 : UInt32), 2, 3, 4] := by
  unfold NotificationClosed.ofRepr
  split_ifs <;> simp_all

theorem close_panics_iff {data : String} :
    (Close.fromStr data : Decoded (Job Value)).run = none ↔ ¬ ReasonKnown data := by
  simp only [Close.fromStr, Decoded.liftM_panics_iff, ReasonKnown, not_forall, Prod.exists]
  constructor
  · rintro ⟨id, reason, hsplit, nid, hid, value, hvalue, hpanics⟩
    refine ⟨id, reason, nid, value, hsplit, hid, hvalue, ofRepr_none_iff.mp ?_⟩
    split at hpanics
    · cases hpanics
    next hnone => exact hnone
  · rintro ⟨id, reason, nid, value, hsplit, hid, hvalue, hunknown⟩
    refine ⟨id, reason, hsplit, nid, hid, value, hvalue, ?_⟩
    rw [ofRepr_none_iff.mpr hunknown]
    rfl

/-! The other decoders of jobs return. -/

theorem broadcast_returns (platform : Platform Value) (data : String) :
    (Broadcast.fromStr platform data).run ≠ none := by
  unfold Broadcast.fromStr
  split <;> exact Option.some_ne_none _

theorem read_returns (data : String) : (Read.fromStr data : Decoded (Job Value)).run ≠ none := by
  simp only [Read.fromStr, Ne, Decoded.liftM_panics_iff]
  rintro ⟨_, -, _, -, _, -, hpure⟩
  cases hpure

theorem query_returns (data : String) :
    (Query.fromStr data : Decoded (Job Value)).run ≠ none := by
  simp only [Query.fromStr, Ne, Decoded.liftM_panics_iff]
  rintro ⟨_, -, hpure⟩
  cases hpure

theorem watch_returns (data : String) :
    (Watch.fromStr data : Decoded (Job Value)).run ≠ none := by
  unfold Watch.fromStr
  split_ifs <;> exact Option.some_ne_none _

theorem signal_returns (signal : Nid → String → Job Value) (data : String) :
    (signalFromStr signal data).run ≠ none := by
  simp only [signalFromStr, Ne, Decoded.liftM_panics_iff]
  rintro ⟨_, -, _, -, hpure⟩
  cases hpure

/-- One case for each name, and one for all the others. -/
theorem job_panics_iff {platform : Platform Value} {job : String} :
    (Job.fromStr platform job).run = none ↔ ¬ JobKnown job := by
  rw [Job.fromStr, Decoded.liftM_panics_iff]
  simp only [JobKnown, not_forall, Prod.exists, exists_prop]
  refine exists_congr fun typ => exists_congr fun data => and_congr_right fun _ => ?_
  split
  · exact iff_of_false (broadcast_returns platform data) (by simp [jobNames])
  · rw [close_panics_iff]
    simp [jobNames]
  · exact iff_of_false (read_returns data) (by simp [jobNames])
  · exact iff_of_false (watch_returns data) (by simp [jobNames])
  · exact iff_of_false (signal_returns _ data) (by simp [jobNames])
  · exact iff_of_false (signal_returns _ data) (by simp [jobNames])
  · exact iff_of_false (query_returns data) (by simp [jobNames])
  · refine iff_of_true rfl ?_
    simp_all [jobNames]

theorem jobDesc_panics_iff {platform : Platform Value} {data : String} :
    (JobDesc.fromStr platform data).run = none ↔
      ∃ desc job, splitDoubleHash data = .ok (desc, job) ∧ ¬ JobKnown job := by
  rw [JobDesc.fromStr, Decoded.liftM_panics_iff]
  simp only [Prod.exists]
  refine exists_congr fun desc => exists_congr fun job => and_congr_right fun _ => ?_
  rw [Decoded.bind_panics_iff, job_panics_iff, or_iff_left]
  rintro ⟨cmd, -, hdesc⟩
  obtain ⟨_, -, hpure⟩ := Decoded.liftM_panics_iff.mp hdesc
  cases hpure

theorem decodes_iff {platform : Platform Value} {text : String} :
    Decodes platform text ↔ RequestKnown text := by
  simp only [Decodes, RequestKnown, Ne, jobDesc_panics_iff, not_exists, not_and, not_not]
  constructor
  · intro h pid data desc job htext hsplit
    exact h pid data htext desc job hsplit
  · intro h pid data htext desc job hsplit
    exact h pid data desc job htext hsplit

theorem refuses_of_decodes {platform : Platform Value} {text : String}
    (h : Decodes platform text) : Refuses platform text := by
  refine ⟨fun err htext r arrival hwhole => Reception.receive_refused htext r hwhole, ?_⟩
  intro pid data htext hnone d stream broken
  cases hdecode : (JobDesc.fromStr platform data).run with
  | none => exact absurd hdecode (h pid data htext)
  | some result =>
    cases result with
    | ok jd => exact absurd hdecode (hnone jd)
    | error err => exact ⟨err.error, by simp only [ListenerTask.step, hdecode]⟩

/-- For every text: its decoding returns, and where it is no transmission or no job the listener
answers with an error, exactly when the job it names is a known one and its reason, if it is a close, is one
of the protocol. -/
theorem decoding_returns_iff (platform : Platform Value) (text : String) :
    Decodes platform text ∧ Refuses platform text ↔ RequestKnown text := by
  rw [and_iff_left_of_imp refuses_of_decodes, decodes_iff]

def takenUp (data : String) : Option (Nat × Nat) :=
  (run (Daemon.step Platform.bare) (Daemon.start (.empty 10) none)
    [.connect ⟨.incoming 1, data⟩, .listen 0 true []]).map fun d =>
      (d.tasks.length, d.delivered.length)

example : takenUp "1#0##query##seven" = some (0, 1) := by decide

/-- A job nobody knows, and a close for a reason outside the protocol. -/
theorem unknown_request_panics :
    ¬ Decodes Platform.bare "inc#1##1#0##shutdown##now" ∧
      ¬ Decodes Platform.bare "inc#1##1#0##close##7#9" ∧
      takenUp "1#0##shutdown##now" = some (0, 0) ∧ takenUp "1#0##close##7#9" = some (0, 0) := by
  refine ⟨fun h => ?_, fun h => ?_, by decide, by decide⟩
  · exact h 1 "1#0##shutdown##now" rfl rfl
  · exact h 1 "1#0##close##7#9" rfl rfl

end NotifsPiper.Decoding

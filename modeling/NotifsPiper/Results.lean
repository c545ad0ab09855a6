import NotifsPiper.Execution

/-! The results of jobs as text. What an executed job can result in is said once; then what is
left of each result when its text is decoded, and what the text says of the signals that were
emitted. -/

namespace NotifsPiper

variable {Value : Type}

/-! The codec. -/

theorem EventType.fromStr_toStr (ev : EventType) : fromStr ev.toStr = .ok ev := by
  cases ev with
  | close nid =>
    change fromStr ("cls" ++ "#" ++ nid.toNat.repr) = _
    rw [fromStr, splitHash_join (by decide)]
    simp [bind, Except.bind, parseNid_repr, pure, Except.pure]
  | actionInvoked nid actionKey =>
    have hdata : (actionInvoked nid actionKey).toStr =
        "act" ++ "#" ++ (nid.toNat.repr ++ "#" ++ actionKey) := by
      simp [toStr, ← String.append_assoc]
    rw [hdata, fromStr, splitHash_join (by decide)]
    simp [bind, Except.bind, splitHash_join (hash_not_mem_repr _), parseNid_repr, pure,
      Except.pure]
  | activationToken nid token =>
    have hdata : (activationToken nid token).toStr =
        "acv" ++ "#" ++ (nid.toNat.repr ++ "#" ++ token) := by
      simp [toStr, ← String.append_assoc]
    rw [hdata, fromStr, splitHash_join (by decide)]
    simp [bind, Except.bind, splitHash_join (hash_not_mem_repr _), parseNid_repr, pure,
      Except.pure]

namespace FulfilledJob

theorem tagged_ne (typ text : String) : typ ++ "#" ++ text ≠ "" := by
  intro h
  have hmem : '#' ∈ "".toList := by
    rw [← h]
    simp
  exact absurd hmem (by decide)

theorem fromStr_res (text : String) :
    fromStr ("res#" ++ text) = .ok ⟨.ok (some text), .results⟩ := by
  change fromStr ("res" ++ "#" ++ text) = _
  rw [fromStr, if_neg (tagged_ne _ _), splitHash_join (by decide)]
  rfl

theorem fromStr_oth (text : String) : fromStr ("oth#" ++ text) = .ok ⟨.ok (some text), .other⟩ := by
  change fromStr ("oth" ++ "#" ++ text) = _
  rw [fromStr, if_neg (tagged_ne _ _), splitHash_join (by decide)]
  rfl

theorem fromStr_ev (ev : EventType) :
    fromStr ("ev#" ++ ev.toStr) = .ok ⟨.ok none, .event ev⟩ := by
  change fromStr ("ev" ++ "#" ++ ev.toStr) = _
  rw [fromStr, if_neg (tagged_ne _ _), splitHash_join (by decide)]
  simp [bind, Except.bind, EventType.fromStr_toStr, pure, Except.pure]

end FulfilledJob

namespace Results

inductive Outcome (platform : Platform Value) (env : Env) : Job Value → FulfilledJob → Prop
  | quiet (cmd : Job Value) : Outcome platform env cmd ⟨.ok none, .other⟩
  | internal (cmd : Job Value) {err : String} (h : env.runtime = .error err) :
      Outcome platform env cmd ⟨.error err, .other⟩
  | signalled (cmd : Job Value) (ev : EventType) :
      Outcome platform env cmd ⟨.ok (some ""), .event ev⟩
  | unsignalled (cmd : Job Value) (ev : EventType) (err : String) :
      Outcome platform env cmd ⟨.error err, .event ev⟩
  | broadcast (event : NotificationEvent Value) :
      Outcome platform env (.broadcast event)
        ⟨.ok (some (platform.eventToString event)), .results⟩
  | read (start stop : LogCountType) (slice : List (NotificationEvent Value)) :
      Outcome platform env (.read start stop) ⟨.ok (some (platform.logToString slice)), .results⟩
  | query (id : Nid) (closed : Bool) :
      Outcome platform env (.query id)
        ⟨.ok (some (if closed then "true" else "false")), .results⟩

theorem emitSignal_outcome (platform : Platform Value) (cmd : Job Value) (env : Env)
    (man : LogsManager Value) (signal : Signal) (failure : String) (ev : EventType) :
    Outcome platform env cmd (emitSignal env man signal failure ev).fulfilled := by
  unfold emitSignal
  split_ifs
  · exact .signalled cmd ev
  · exact .unsignalled cmd ev _
  · exact .unsignalled cmd ev _
  · exact .unsignalled cmd ev _

theorem signalExecute_outcome (platform : Platform Value) (cmd : Job Value) (signal : Signal)
    (ev : EventType) (env : Env) (desc : Desc) (man : LogsManager Value) :
    Outcome platform env cmd (signalExecute signal ev env desc man).fulfilled := by
  unfold signalExecute
  split_ifs
  · exact .quiet cmd
  · split
    next hruntime => exact .internal cmd hruntime
    next => exact emitSignal_outcome platform cmd env man signal _ ev

theorem execute_outcome {platform : Platform Value} {env : Env} {jd : JobDesc Value}
    {man : LogsManager Value} {ex : Executed Value}
    (h : Job.execute platform env jd man = some ex) :
    Outcome platform env jd.cmd ex.fulfilled := by
  obtain ⟨cmd, desc⟩ := jd
  cases cmd with
  | broadcast event =>
    obtain ⟨timer, -, hexec⟩ := Broadcast.execute_eq platform event env man
    simp only [Job.execute, hexec] at h
    cases h
    exact .broadcast event
  | close id reason =>
    rcases Close.execute_cases h with rfl | ⟨pos, ne, -, rfl⟩
    · exact .quiet _
    · unfold Close.perform
      dsimp only
      split
      next hruntime => exact .internal _ hruntime
      next => exact emitSignal_outcome ..
  | read start stop =>
    obtain ⟨slice, man', -, rfl⟩ := Read.execute_some h
    exact .read start stop slice
  | query id =>
    cases h
    exact .query id _
  | watch =>
    cases h
    exact .quiet _
  | actionInvoked id actionKey =>
    cases h
    exact signalExecute_outcome ..
  | activationToken id token =>
    cases h
    exact signalExecute_outcome ..
  | acknowledge id =>
    cases h
    exact .quiet _

/-! What is left of a result when its text is decoded. -/

/-- The result and its type come back; of an event, the text of a success does not matter. -/
def Same (fj fj' : FulfilledJob) : Prop :=
  fj'.typ = fj.typ ∧
    match fj.typ, fj.result with
    | .event _, .ok _ => ∃ text, fj'.result = .ok text
    | _, result => fj'.result = result

def Survives (platform : Platform Value) (fj : FulfilledJob) : Prop :=
  ∃ fj', FulfilledJob.fromStr (fj.toStr platform) = .ok fj' ∧ Same fj fj'

/-- The encoders always write something. -/
structure Written (platform : Platform Value) : Prop where
  event : ∀ event, platform.eventToString event ≠ ""
  log : ∀ log, platform.logToString log ≠ ""

theorem results_decode (platform : Platform Value) {text : String} (htext : text ≠ "") :
    FulfilledJob.fromStr (FulfilledJob.toStr platform ⟨.ok (some text), .results⟩) =
      .ok ⟨.ok (some text), .results⟩ := by
  simp only [FulfilledJob.toStr, if_neg htext]
  exact FulfilledJob.fromStr_res text

theorem survives_results (platform : Platform Value) {text : String} (htext : text ≠ "") :
    Survives platform ⟨.ok (some text), .results⟩ := by
  exact ⟨⟨.ok (some text), .results⟩, results_decode platform htext, rfl, rfl⟩

theorem survives_event (platform : Platform Value) (ev : EventType) (text : Option String) :
    Survives platform ⟨.ok text, .event ev⟩ :=
  ⟨⟨.ok none, .event ev⟩, FulfilledJob.fromStr_ev ev, rfl, none, rfl⟩

theorem internal_lost (platform : Platform Value) (err : String) :
    ¬ Survives platform ⟨.error err, .other⟩ := by
  rintro ⟨fj', hdecode, -, hresult⟩
  have htext : FulfilledJob.toStr platform ⟨.error err, .other⟩ =
      "oth#" ++ debugResult platform.debugStr (.error err) := rfl
  rw [htext, FulfilledJob.fromStr_oth] at hdecode
  cases hdecode
  cases hresult

/-- Of the results that are sent back, those of type `Results` and the successful events survive
the text form, and those of type `Other` do not. -/
theorem sent_survives_iff {platform : Platform Value} (hwritten : Written platform) {env : Env}
    {cmd : Job Value} {fj : FulfilledJob} (h : Outcome platform env cmd fj)
    (hsent : fj.result ≠ .ok none)
    (hevent : ∀ ev, fj.typ = .event ev → ∃ text, fj.result = .ok text) :
    Survives platform fj ↔ fj.typ ≠ .other := by
  cases h with
  | quiet => exact absurd rfl hsent
  | @internal _ err _ => exact iff_of_false (internal_lost platform err) fun hother => hother rfl
  | signalled _ ev => exact iff_of_true (survives_event platform ev _) (by simp)
  | unsignalled _ ev err =>
    obtain ⟨text, htext⟩ := hevent ev rfl
    cases htext
  | broadcast event =>
    exact iff_of_true (survives_results platform (hwritten.event event)) (by simp)
  | read start stop slice =>
    exact iff_of_true (survives_results platform (hwritten.log slice)) (by simp)
  | query id closed =>
    refine iff_of_true (survives_results platform ?_) (by simp)
    cases closed <;> decide

theorem Outcome.typ_ne_other {platform : Platform Value} {env : Env} {cmd : Job Value}
    {fj : FulfilledJob} (h : Outcome platform env cmd fj) (hruntime : env.runtime = .ok ())
    (hsent : fj.result ≠ .ok none) : fj.typ ≠ .other := by
  cases h with
  | quiet => exact absurd rfl hsent
  | internal _ herr =>
    rw [hruntime] at herr
    cases herr
  | signalled _ ev => simp
  | unsignalled _ ev err => simp
  | broadcast event => simp
  | read start stop slice => simp
  | query id closed => simp

/-- What is sent back survives the text form. A runtime of the current thread that drives neither
input and output nor timers is always built. -/
theorem result_survives (platform : Platform Value) (hwritten : Written platform) (env : Env)
    (hruntime : env.runtime = .ok ()) (jd : JobDesc Value) (man : LogsManager Value)
    (ex : Executed Value) (hex : Job.execute platform env jd man = some ex)
    (hsent : ex.fulfilled.result ≠ .ok none)
    (hevent : ∀ ev, ex.fulfilled.typ = .event ev → ∃ text, ex.fulfilled.result = .ok text) :
    Survives platform ex.fulfilled := by
  have houtcome := execute_outcome hex
  rw [sent_survives_iff hwritten houtcome hsent hevent]
  exact houtcome.typ_ne_other hruntime hsent

theorem append_ne {first : String} (h : first ≠ "") (rest : String) : first ++ rest ≠ "" :=
  fun hboth => h (String.append_eq_empty_iff.mp hboth).1

theorem bareJson_ne (ne : NotificationEvent Unit) : ne.bareJson ≠ "" := by
  unfold NotificationEvent.bareJson
  repeat refine append_ne ?_ _
  decide

theorem bare_written : Written Platform.bare :=
  ⟨bareJson_ne, fun log => append_ne (append_ne (by decide) _) _⟩

def oneOpen : LogsManager Unit := { LogsManager.empty 10 with logsBuffer := [.bare 1 0 0] }

/-- The key of an action holds the delimiters of the text. -/
theorem result_survives_invoked :
    Survives Platform.bare
      ⟨.ok (some ""), .event (.actionInvoked 1 "res#err##2")⟩ := by
  have hevent : ∀ ev, (FulfilledJobResultType.event (.actionInvoked 1 "res#err##2")) = .event ev →
      ∃ text, (.ok (some "") : Except String (Option String)) = .ok text :=
    fun _ _ => ⟨some "", rfl⟩
  exact result_survives Platform.bare bare_written ⟨none, 0, .ok (), true, true⟩ rfl
    ⟨.actionInvoked 1 "res#err##2", ⟨4, 0⟩⟩ { oneOpen with interface := true } _ rfl
    (by decide) hevent

/-! What the text says of a signal. -/

/-- The event a signal stands for; the reason of a closing is not part of it. -/
def announced : Signal → EventType
  | .notificationClosed id _ => .close id
  | .actionInvoked id actionKey => .actionInvoked id actionKey
  | .activationToken id token => .activationToken id token

def transmitted (platform : Platform Value) (fj : FulfilledJob) : Option String :=
  match fj.result with
  | .ok none => none
  | _ => some (fj.toStr platform)

/-- An event is announced exactly when its signal was emitted, and a failed emission is reported
as an error. -/
structure Truthful (platform : Platform Value) (ex : Executed Value) : Prop where
  event : ∀ ev : EventType, transmitted platform ex.fulfilled = some ("ev#" ++ ev.toStr) ↔
    ev ∈ ex.emitted.map announced
  error : ex.attempted ≠ [] → ex.emitted = [] →
    ∃ err, transmitted platform ex.fulfilled = some ("err#" ++ err)

/-- A signal job gets as far as its signal: a close passes its checks, and a signal of a client
finds its notification open or is forced. -/
def Proceeds (env : Env) (jd : JobDesc Value) (man : LogsManager Value) : Prop :=
  match jd.cmd with
  | .close id reason => ∃ pos ne, Close.Passes id reason env jd.desc man pos ne
  | .actionInvoked id _ => (∃ ne, man.find id = some ne ∧ ne.closed = false) ∨
      Flags.force.is jd.desc.flags = true
  | .activationToken id _ => (∃ ne, man.find id = some ne ∧ ne.closed = false) ∨
      Flags.force.is jd.desc.flags = true
  | _ => False

/-- How far a signal job comes. -/
inductive Signals (env : Env) (man : LogsManager Value) : Prop → Executed Value → Prop
  | dropped {proceeds : Prop} (h : ¬ proceeds) (man' : LogsManager Value) :
      Signals env man proceeds (.quiet ⟨.ok none, .other⟩ man')
  | internal {proceeds : Prop} (h : proceeds) {err : String} (hruntime : env.runtime = .error err)
      (man' : LogsManager Value) : Signals env man proceeds (.quiet ⟨.error err, .other⟩ man')
  | signal {proceeds : Prop} (h : proceeds) (hruntime : env.runtime = .ok ()) (signal : Signal)
      (failure : String) {man' : LogsManager Value} (hman : man'.interface = man.interface) :
      Signals env man proceeds (emitSignal env man' signal failure (announced signal))

theorem signalExecute_signals (signal : Signal) (env : Env) (desc : Desc)
    (man : LogsManager Value) :
    Signals env man ((∃ ne, man.find signal.id = some ne ∧ ne.closed = false) ∨
        Flags.force.is desc.flags = true)
      (signalExecute signal (announced signal) env desc man) := by
  unfold signalExecute
  split_ifs with hdropped
  · refine .dropped ?_ man
    simp only [Bool.and_eq_true, Bool.not_eq_true'] at hdropped
    rintro (⟨ne, hfind, hopen⟩ | hforce)
    · simp [hfind, hopen] at hdropped
    · simp [hforce] at hdropped
  · have hproceeds : (∃ ne, man.find signal.id = some ne ∧ ne.closed = false) ∨
        Flags.force.is desc.flags = true := by
      cases hforce : Flags.force.is desc.flags with
      | true => exact Or.inr rfl
      | false =>
        cases hfind : man.find signal.id with
        | none => simp [hfind, hforce] at hdropped
        | some ne => exact Or.inl ⟨ne, rfl, by simpa [hfind, hforce] using hdropped⟩
    split
    next hruntime => exact .internal hproceeds hruntime man
    next hruntime => exact .signal hproceeds hruntime signal _ rfl

theorem close_signals {id : Nid} {reason : NotificationClosed} {env : Env} {desc : Desc}
    {man : LogsManager Value} {ex : Executed Value}
    (h : Close.execute id reason env desc man = some ex) :
    Signals env man (∃ pos ne, Close.Passes id reason env desc man pos ne) ex := by
  by_cases hpass : ∃ pos ne, Close.Passes id reason env desc man pos ne
  · obtain ⟨pos, ne, hpasses⟩ := hpass
    rw [Close.execute_passes hpasses] at h
    cases h
    unfold Close.perform
    dsimp only
    split
    next hruntime => exact .internal ⟨pos, ne, hpasses⟩ hruntime _
    next hruntime =>
      exact .signal ⟨pos, ne, hpasses⟩ hruntime (.notificationClosed id reason.repr) _ rfl
  · rcases Close.execute_cases h with rfl | ⟨pos, ne, hpasses, -⟩
    · exact .dropped hpass man
    · exact absurd ⟨pos, ne, hpasses⟩ hpass

theorem event_text_inj {ev ev' : EventType} :
    "ev#" ++ ev.toStr = "ev#" ++ ev'.toStr ↔ ev = ev' := by
  refine ⟨fun h => ?_, fun h => by rw [h]⟩
  have hdecode := FulfilledJob.fromStr_ev ev
  rw [h, FulfilledJob.fromStr_ev] at hdecode
  cases hdecode
  rfl

theorem other_text_ne (text : String) (ev : EventType) : "oth#" ++ text ≠ "ev#" ++ ev.toStr := by
  intro h
  have hdecode := FulfilledJob.fromStr_oth text
  rw [h, FulfilledJob.fromStr_ev] at hdecode
  cases hdecode

theorem emitSignal_transmitted (platform : Platform Value) (env : Env) (man : LogsManager Value)
    (signal : Signal) (failure : String) :
    transmitted platform (emitSignal env man signal failure (announced signal)).fulfilled =
      some ("ev#" ++ (announced signal).toStr) := by
  unfold emitSignal
  split_ifs <;> rfl

theorem emitSignal_truthful_iff (platform : Platform Value) (env : Env) (man : LogsManager Value)
    (signal : Signal) (failure : String) :
    Truthful platform (emitSignal env man signal failure (announced signal)) ↔
      man.interface = true ∧ env.lookup = true ∧ env.emission = true := by
  have htext := emitSignal_transmitted platform env man signal failure
  constructor
  · intro h
    have hemitted := (h.event (announced signal)).mp htext
    unfold emitSignal at hemitted
    split_ifs at hemitted with hinterface hlookup hemission
    · exact ⟨hinterface, hlookup, hemission⟩
    all_goals cases hemitted
  · rintro ⟨hinterface, hlookup, hemission⟩
    have hemitted : (emitSignal env man signal failure (announced signal)).emitted = [signal] := by
      simp [emitSignal, hinterface, hlookup, hemission]
    refine ⟨fun ev => ?_, fun _ hnone => ?_⟩
    · rw [htext, hemitted, Option.some.injEq, event_text_inj]
      simp [eq_comm]
    · rw [hemitted] at hnone
      cases hnone

theorem quiet_truthful {platform : Platform Value} {fj : FulfilledJob}
    (h : ∀ ev : EventType, transmitted platform fj ≠ some ("ev#" ++ ev.toStr))
    (man : LogsManager Value) : Truthful platform (.quiet fj man) := by
  refine ⟨fun ev => iff_of_false (h ev) ?_, fun hattempted => absurd rfl hattempted⟩
  simp [Executed.quiet]

theorem signals_truthful_iff {platform : Platform Value} {env : Env} {man : LogsManager Value}
    {proceeds : Prop} {ex : Executed Value} (h : Signals env man proceeds ex) :
    Truthful platform ex ↔ (proceeds → env.runtime = .ok () →
      man.interface = true ∧ env.lookup = true ∧ env.emission = true) := by
  cases h with
  | dropped hdropped man' =>
    refine iff_of_true (quiet_truthful (fun ev => ?_) man') fun hproceeds => ?_
    · simp [transmitted]
    · exact absurd hproceeds hdropped
  | @internal _ err hruntime man' =>
    refine iff_of_true (quiet_truthful (fun ev htext => ?_) man') fun _ hok => ?_
    · exact other_text_ne _ ev (Option.some.inj htext)
    · rw [hruntime] at hok
      cases hok
  | signal hproceeds hruntime signal failure hman =>
    rw [emitSignal_truthful_iff, hman]
    simp [hproceeds, hruntime]

def SignalJob (cmd : Job Value) : Prop :=
  (∃ id reason, cmd = .close id reason) ∨ (∃ id text, cmd = .actionInvoked id text) ∨
    ∃ id text, cmd = .activationToken id text

/-- The text sent back for a signal job tells the truth exactly when the job stops before its
signal, or the runtime cannot be built, or the bus takes the signal. -/
theorem signal_announced_iff (platform : Platform Value) (env : Env) (jd : JobDesc Value)
    (man : LogsManager Value) (ex : Executed Value) (hcmd : SignalJob jd.cmd)
    (hex : Job.execute platform env jd man = some ex) :
    Truthful platform ex ↔ (Proceeds env jd man → env.runtime = .ok () →
      man.interface = true ∧ env.lookup = true ∧ env.emission = true) := by
  obtain ⟨cmd, desc⟩ := jd
  obtain ⟨id, reason, rfl⟩ | ⟨id, text, rfl⟩ | ⟨id, text, rfl⟩ := hcmd
  · exact signals_truthful_iff (close_signals hex)
  · cases hex
    exact signals_truthful_iff (signalExecute_signals (.actionInvoked id text) env desc man)
  · cases hex
    exact signals_truthful_iff (signalExecute_signals (.activationToken id text) env desc man)

theorem signal_announced_iff_closing :
    Truthful Platform.bare (Close.perform 1 .dismissed 0 ⟨none, 0, .ok (), true, true⟩ oneOpen) ↔
      (Proceeds ⟨none, 0, .ok (), true, true⟩ ⟨.close 1 .dismissed, ⟨4, 0⟩⟩ oneOpen →
        (.ok () : Except String Unit) = .ok () →
          oneOpen.interface = true ∧ true = true ∧ true = true) :=
  signal_announced_iff Platform.bare ⟨none, 0, .ok (), true, true⟩ ⟨.close 1 .dismissed, ⟨4, 0⟩⟩
    oneOpen _ (Or.inl ⟨1, .dismissed, rfl⟩) rfl

/-- The emission fails, and the closing is announced all the same. -/
theorem failed_emission_announced :
    ∃ ex, Job.execute Platform.bare ⟨none, 0, .ok (), true, false⟩ ⟨.close 1 .dismissed, ⟨0, 0⟩⟩
        oneOpen = some ex ∧
      ex.attempted = [.notificationClosed 1 2] ∧ ex.emitted = [] ∧
      transmitted Platform.bare ex.fulfilled = some "ev#cls#1" ∧ ¬ Truthful Platform.bare ex := by
  refine ⟨_, rfl, rfl, rfl, by decide, fun h => ?_⟩
  have hemitted := (h.event (.close 1)).mp (by decide)
  cases hemitted

end Results

end NotifsPiper

import NotifsPiper.Daemon
import NotifsPiper.Results

/-! The end of a broadcast. Once a watcher that is not silent has a result, its text is taken for
a notification and decoded with the lock of the list held; the results of reads and queries are
texts of the same type and are no notifications, and of a notification with a hint that has no
text of its own (a number that is not finite) the text need not be one either. -/

namespace NotifsPiper.Broadcasts

open Runs

variable {Value : Type}

/-- A watcher that is not silent takes the write. -/
def Reached (d : Daemon Value) (broken : List Pid) : Prop :=
  ∃ entry ∈ d.listeningProcesses.entries, entry.1 ∉ broken ∧ Flags.silent.is entry.2.2 = false

/-- After the broadcast the task goes on to acknowledge what it takes `text` for. -/
def Acknowledges (d : Daemon Value) (broken : List Pid) (data text : String) : Prop :=
  (d.broadcast data broken).tasks = .acknowledging text :: d.tasks

/-- If the broadcast acknowledges, then a notification, and the lock of the list stays sound. -/
def Completes (platform : Platform Value) (d : Daemon Value) (broken : List Pid) (data : String) :
    Prop :=
  ∀ text, Acknowledges d broken data text →
    (∃ event, platform.eventFromStr text = .ok event) ∧
      ∀ e e' : Daemon Value, e.poisoned = false →
        (ListenerTask.acknowledging text).step platform true [] e = some e' → e'.poisoned = false

/-- What the decoder of notifications makes of the other texts. -/
structure Json (platform : Platform Value) : Prop where
  written : Results.Written platform
  log : ∀ log, ∃ err, platform.eventFromStr (platform.logToString log) = .error err
  bool : ∀ closed : Bool, ∃ err,
    platform.eventFromStr (if closed then "true" else "false") = .error err

theorem acknowledges_iff {d : Daemon Value} {broken : List Pid} {data text : String} :
    Acknowledges d broken data text ↔
      Reached d broken ∧ FulfilledJob.fromStr data = .ok ⟨.ok (some text), .results⟩ := by
  have hself : ∀ task : ListenerTask Value, d.tasks ≠ task :: d.tasks := by
    intro task h
    have hlen := congrArg List.length h
    simp at hlen
  have hreached : ((d.listeningProcesses.entries.partition fun entry => entry.1 ∈ broken).2.any
      fun entry => !Flags.silent.is entry.2.2) = true ↔ Reached d broken := by
    simp [Reached, List.partition_eq_filter_filter, List.any_filter]
  unfold Acknowledges Daemon.broadcast
  dsimp only
  split_ifs with hany
  · rw [and_iff_right (hreached.mp hany)]
    split
    next found hdecode =>
      simp [hdecode, Daemon.spawn]
    next hdecode =>
      refine iff_of_false (hself _) fun h => ?_
      exact hdecode text h
  · exact iff_of_false (hself _) fun h => hany (hreached.mpr h.1)

theorem acknowledging_sound {platform : Platform Value} {text : String}
    {event : NotificationEvent Value} (hevent : platform.eventFromStr text = .ok event)
    {e e' : Daemon Value} (he : e.poisoned = false)
    (h : (ListenerTask.acknowledging text).step platform true [] e = some e') :
    e'.poisoned = false := by
  simp only [ListenerTask.step, hevent, he, Bool.false_eq_true, if_false] at h
  split_ifs at h
  cases h
  exact he

theorem completes_iff {platform : Platform Value} {d : Daemon Value} {broken : List Pid}
    {data : String} :
    Completes platform d broken data ↔
      (Reached d broken → ∀ text, FulfilledJob.fromStr data = .ok ⟨.ok (some text), .results⟩ →
        ∃ event, platform.eventFromStr text = .ok event) := by
  constructor
  · intro h hreached text hdecode
    exact (h text (acknowledges_iff.mpr ⟨hreached, hdecode⟩)).1
  · intro h text hack
    obtain ⟨hreached, hdecode⟩ := acknowledges_iff.mp hack
    obtain ⟨event, hevent⟩ := h hreached text hdecode
    exact ⟨⟨event, hevent⟩, fun e e' he hstep => acknowledging_sound hevent he hstep⟩

/-- The jobs whose results are texts of the type that notifications have. -/
def Answering (cmd : Job Value) : Prop :=
  (∃ start stop, cmd = .read start stop) ∨ ∃ id, cmd = .query id

theorem answering_result {platform : Platform Value} (hjson : Json platform) {env : Env}
    {jd : JobDesc Value} {man : LogsManager Value} {ex : Executed Value}
    (hcmd : Answering jd.cmd) (hex : Job.execute platform env jd man = some ex) :
    ∃ text err, text ≠ "" ∧ ex.fulfilled = ⟨.ok (some text), .results⟩ ∧
      platform.eventFromStr text = .error err := by
  obtain ⟨cmd, desc⟩ := jd
  obtain ⟨start, stop, rfl⟩ | ⟨id, rfl⟩ := hcmd
  · obtain ⟨slice, man', -, rfl⟩ := Read.execute_some hex
    obtain ⟨err, herr⟩ := hjson.log slice
    exact ⟨platform.logToString slice, err, hjson.written.log slice, rfl, herr⟩
  · cases hex
    obtain ⟨err, herr⟩ := hjson.bool (((man.find id).map (·.closed)).getD false)
    refine ⟨_, err, ?_, rfl, herr⟩
    split_ifs <;> decide

theorem broadcast_result {platform : Platform Value} {env : Env} {jd : JobDesc Value}
    {man : LogsManager Value} {ex : Executed Value} {event : NotificationEvent Value}
    (hcmd : jd.cmd = .broadcast event) (hex : Job.execute platform env jd man = some ex) :
    ex.fulfilled = ⟨.ok (some (platform.eventToString event)), .results⟩ := by
  obtain ⟨timer, -, hexec⟩ := Broadcast.execute_eq platform event env man
  simp only [Job.execute, hcmd, hexec] at hex
  cases hex
  rfl

theorem other_result {platform : Platform Value} (hwritten : Results.Written platform) {env : Env}
    {cmd : Job Value} {fj : FulfilledJob} (hcmd : ¬ Answering cmd)
    (h : Results.Outcome platform env cmd fj) {text : String}
    (hdecode : FulfilledJob.fromStr (fj.toStr platform) = .ok ⟨.ok (some text), .results⟩) :
    ∃ event, cmd = .broadcast event ∧ text = platform.eventToString event := by
  cases h with
  | quiet cmd =>
    have hoth := FulfilledJob.fromStr_oth "Ok(None)"
    rw [show FulfilledJob.toStr platform ⟨.ok none, .other⟩ = "oth#" ++ "Ok(None)" from rfl,
      hoth] at hdecode
    cases hdecode
  | @internal cmd err _ =>
    have hoth := FulfilledJob.fromStr_oth ("Err(" ++ platform.debugStr err ++ ")")
    rw [show FulfilledJob.toStr platform ⟨.error err, .other⟩ =
      "oth#" ++ ("Err(" ++ platform.debugStr err ++ ")") from rfl, hoth] at hdecode
    cases hdecode
  | signalled cmd ev =>
    rw [show FulfilledJob.toStr platform ⟨.ok (some ""), .event ev⟩ = "ev#" ++ ev.toStr from rfl,
      FulfilledJob.fromStr_ev] at hdecode
    cases hdecode
  | unsignalled cmd ev err =>
    rw [show FulfilledJob.toStr platform ⟨.error err, .event ev⟩ = "ev#" ++ ev.toStr from rfl,
      FulfilledJob.fromStr_ev] at hdecode
    cases hdecode
  | broadcast event =>
    rw [Results.results_decode platform (hwritten.event event)] at hdecode
    cases hdecode
    exact ⟨event, rfl, rfl⟩
  | read start stop slice => exact absurd (Or.inl ⟨start, stop, rfl⟩) hcmd
  | query id closed => exact absurd (Or.inr ⟨id, rfl⟩) hcmd

/-- The jobs whose results are taken for notifications and decode as none. -/
def Unreadable (platform : Platform Value) (cmd : Job Value) : Prop :=
  Answering cmd ∨ ∃ event, cmd = .broadcast event ∧
    ∃ err, platform.eventFromStr (platform.eventToString event) = .error err

theorem unreadable_result {platform : Platform Value} (hjson : Json platform) {env : Env}
    {jd : JobDesc Value} {man : LogsManager Value} {ex : Executed Value}
    (hcmd : Unreadable platform jd.cmd) (hex : Job.execute platform env jd man = some ex) :
    ∃ text err, text ≠ "" ∧ ex.fulfilled = ⟨.ok (some text), .results⟩ ∧
      platform.eventFromStr text = .error err := by
  rcases hcmd with hcmd | ⟨event, hcmd, err, herr⟩
  · exact answering_result hjson hcmd hex
  · exact ⟨_, err, hjson.written.event event, broadcast_result hcmd hex, herr⟩

/-- Whoever watches: the broadcast of a job's result completes exactly when the job is neither a
read nor a query, nor the broadcast of a notification whose text does not decode, or no watcher
takes it that is not silent. -/
theorem broadcast_completes_iff (platform : Platform Value) (hjson : Json platform) (env : Env)
    (jd : JobDesc Value) (man : LogsManager Value) (ex : Executed Value)
    (hex : Job.execute platform env jd man = some ex) (d : Daemon Value) (broken : List Pid) :
    Completes platform d broken (Transmission.fromFulfilled platform ex.fulfilled 0).data ↔
      ¬ (Unreadable platform jd.cmd ∧ Reached d broken) := by
  rw [completes_iff, not_and, Transmission.fromFulfilled]
  have houtcome := Results.execute_outcome hex
  constructor
  · intro h hcmd hreached
    obtain ⟨text, err, htext, hfj, herr⟩ := unreadable_result hjson hcmd hex
    have hdecode : FulfilledJob.fromStr (ex.fulfilled.toStr platform) =
        .ok ⟨.ok (some text), .results⟩ := by
      rw [hfj]
      exact Results.results_decode platform htext
    obtain ⟨event, hdecoded⟩ := h hreached text hdecode
    rw [herr] at hdecoded
    cases hdecoded
  · intro h hreached text hdecode
    have hreadable : ¬ Unreadable platform jd.cmd := fun hcmd => h hcmd hreached
    obtain ⟨hanswering, hbroadcast⟩ := not_or.mp hreadable
    obtain ⟨event, hcmd, rfl⟩ := other_result hjson.written hanswering houtcome hdecode
    cases hdecoded : platform.eventFromStr (platform.eventToString event) with
    | ok event' => exact ⟨event', rfl⟩
    | error err => exact absurd ⟨event, hcmd, err, hdecoded⟩ hbroadcast

theorem bare_json : Json Platform.bare :=
  ⟨Results.bare_written, fun _ => ⟨_, rfl⟩, fun _ => ⟨_, rfl⟩⟩

def watched (flags : FlagsRepr) : Daemon Unit :=
  { Daemon.start (.empty 10) none with
    accepted := [⟨.incoming 7, "7#0##watch##watch"⟩]
    listeningProcesses := (∅ : AList fun _ : Pid => Conn × FlagsRepr).insert 7 (0, flags) }

theorem broadcast_completes_iff_query :
    Completes Platform.bare (watched Flags.silent.repr) []
        (Transmission.fromFulfilled Platform.bare (Query.execute 1 (.empty 10)).fulfilled 0).data ↔
      ¬ (Unreadable Platform.bare (.query 1) ∧ Reached (watched Flags.silent.repr) []) :=
  broadcast_completes_iff Platform.bare bare_json ⟨none, 0, .ok (), true, true⟩
    ⟨.query 1, ⟨0, 0⟩⟩ (.empty 10) _ rfl _ _

def queryingAll : List (Label Unit) :=
  [.connect ⟨.incoming 7, "7#0##watch##watch"⟩, .listen 0 true [],
    .connect ⟨.incoming 5, "0#0##query##1"⟩, .listen 0 true [], .listen 0 true [],
    .listen 0 true [], .listen 0 true [], .recv, .pop,
    .execute ⟨some ⟨0, 0⟩, 0, .ok (), true, true⟩ (.ok ()), .reply true false]

theorem query_poisons_list :
    (run (Daemon.step Platform.bare) (Daemon.start (.empty 10) none)
        (queryingAll ++ [.listen 0 true [], .listen 0 true []])).map
        (fun d => (d.poisoned, d.alive)) = some (true, true) ∧
      ¬ Completes Platform.bare (watched Flags.none.repr) [] "res#false" := by
  refine ⟨by decide +kernel, fun h => ?_⟩
  have hreached : Reached (watched Flags.none.repr) [] :=
    ⟨⟨7, 0, Flags.none.repr⟩, List.mem_cons_self, by simp, rfl⟩
  obtain ⟨event, hevent⟩ := completes_iff.mp h hreached "false" (FulfilledJob.fromStr_res "false")
  cases hevent

end NotifsPiper.Broadcasts

import NotifsPiper.LogsManager
import NotifsPiper.Parallel
import Mathlib.Data.List.Forall2

/-! What executing a job can do to the log, said once for each job. Only a broadcast
changes which notifications stand in the log and where; every other job sets flags in
place. -/

namespace NotifsPiper

variable {Value : Type}

/-- `after` is `before` with its two flags kept or set. -/
structure Marked (before after : NotificationEvent Value) : Prop where
  sent : after.sent = before.sent
  closed : before.closed = true → after.closed = true
  read : before.read = true → after.read = true

namespace Marked

theorem refl (ne : NotificationEvent Value) : Marked ne ne := ⟨rfl, id, id⟩

theorem setClosed (ne : NotificationEvent Value) : Marked ne ne.setClosed :=
  ⟨rfl, fun _ => rfl, id⟩

theorem setRead (ne : NotificationEvent Value) : Marked ne ne.setRead :=
  ⟨rfl, id, fun _ => rfl⟩

theorem id_eq {before after : NotificationEvent Value} (h : Marked before after) :
    after.id = before.id := by
  have hid := congrArg NotificationEvent.id h.sent
  exact hid

theorem all_refl (log : List (NotificationEvent Value)) : List.Forall₂ Marked log log :=
  List.forall₂_same.mpr fun ne _ => refl ne

theorem all_map {f : NotificationEvent Value → NotificationEvent Value}
    (hf : ∀ ne, Marked ne (f ne)) (log : List (NotificationEvent Value)) :
    List.Forall₂ Marked log (log.map f) :=
  List.forall₂_map_right_iff.mpr (List.forall₂_same.mpr fun ne _ => hf ne)

theorem all_modify {f : NotificationEvent Value → NotificationEvent Value}
    (hf : ∀ ne, Marked ne (f ne)) (log : List (NotificationEvent Value)) (pos : Nat) :
    List.Forall₂ Marked log (log.modify pos f) := by
  induction log generalizing pos with
  | nil => simp
  | cons ne log ih =>
    cases pos with
    | zero => exact .cons (hf ne) (all_refl log)
    | succ pos => exact .cons (refl ne) (ih pos)

theorem all_slice {f : NotificationEvent Value → NotificationEvent Value}
    (hf : ∀ ne, Marked ne (f ne)) (log : List (NotificationEvent Value)) {first last : Nat}
    (h : first ≤ last) :
    List.Forall₂ Marked log
      (log.take first ++ ((log.drop first).take (last - first)).map f ++ log.drop last) := by
  conv_lhs => rw [← Parallel.slice_parts log h]
  exact List.rel_append (List.rel_append (all_refl _) (all_map hf _)) (all_refl _)

theorem ids_eq {before after : List (NotificationEvent Value)}
    (h : List.Forall₂ Marked before after) :
    after.map NotificationEvent.id = before.map NotificationEvent.id := by
  induction h with
  | nil => rfl
  | cons hhead _ ih => rw [List.map_cons, List.map_cons, hhead.id_eq, ih]

theorem transfer {α : Type} {r : NotificationEvent Value → α → Prop}
    (hr : ∀ before after a, Marked before after → r before a → r after a)
    {before after : List (NotificationEvent Value)} (h : List.Forall₂ Marked before after)
    {as : List α} (has : List.Forall₂ r before as) : List.Forall₂ r after as := by
  induction h generalizing as with
  | nil => exact has
  | cons hhead _ ih =>
    cases has with
    | cons ha has => exact .cons (hr _ _ _ hhead ha) (ih has)

end Marked

namespace LogsManager

theorem position_some {man : LogsManager Value} {nid : Nid} {pos : Nat} :
    man.position nid = some pos ↔ ∃ h : pos < man.logsBuffer.length,
      man.logsBuffer[pos].id = nid ∧ ∀ j, (hj : j < pos) → man.logsBuffer[j].id ≠ nid := by
  simp [position, List.findIdx?_eq_some_iff_getElem]

theorem position_lt {man : LogsManager Value} {nid : Nid} {pos : Nat}
    (h : man.position nid = some pos) : pos < man.logsBuffer.length :=
  (position_some.mp h).1

theorem position_none {man : LogsManager Value} {nid : Nid} :
    man.position nid = none ↔ ∀ ne ∈ man.logsBuffer, ne.id ≠ nid := by
  simp [position, List.findIdx?_eq_none_iff]

theorem find_eq_getElem {man : LogsManager Value} {nid : Nid} :
    man.find nid = (man.position nid).bind fun pos => man.logsBuffer[pos]? := by
  rw [find, List.find?_eq_bind_findIdx?_getElem?]
  rfl

/-- The position a broadcast empties. -/
def victim (man : LogsManager Value) (event : NotificationEvent Value) : Option Nat :=
  if event.replacesId = 0 then none else man.position event.replacesId

theorem victim_lt {man : LogsManager Value} {event : NotificationEvent Value} :
    ∀ i ∈ man.victim event, i < man.logsBuffer.length := by
  intro i hi
  unfold victim at hi
  split at hi
  · cases hi
  · exact position_lt hi

theorem removeNotification_eq (man : LogsManager Value) (nid : Nid) :
    (man.removeNotification nid).2.logsBuffer =
      Deque.withdraw (man.position nid) man.logsBuffer := by
  unfold removeNotification
  cases man.position nid <;> rfl

theorem readNotification_marks (man : LogsManager Value) (nid : Nid) :
    List.Forall₂ Marked man.logsBuffer (man.readNotification nid).logsBuffer := by
  unfold readNotification
  split
  · exact Marked.all_refl _
  · exact Marked.all_modify Marked.setRead _ _

theorem readLogs_marks {man man' : LogsManager Value} {start stop : LogCountType}
    {updateRead : Bool} {slice : List (NotificationEvent Value)}
    (h : man.readLogs start stop updateRead = some (slice, man')) :
    List.Forall₂ Marked man.logsBuffer man'.logsBuffer := by
  unfold readLogs at h
  dsimp only at h
  split at h
  · cases h
  split at h
  · cases h
    exact Marked.all_slice Marked.setRead _ (by omega)
  · cases h
    exact Marked.all_refl _

theorem readLogs_slice {man man' : LogsManager Value} {start stop : LogCountType}
    {updateRead : Bool} {slice : List (NotificationEvent Value)}
    (h : man.readLogs start stop updateRead = some (slice, man')) :
    ∃ first n, List.Forall₂ Marked ((man.logsBuffer.drop first).take n) slice := by
  unfold readLogs at h
  dsimp only at h
  split at h
  · cases h
  refine ⟨min man.logsBuffer.length start.toNat,
    min man.logsBuffer.length stop.toNat - min man.logsBuffer.length start.toNat, ?_⟩
  split at h
  · cases h
    exact Marked.all_map Marked.setRead _
  · cases h
    exact Marked.all_refl _

end LogsManager

@[simp] theorem emitSignal_manager (env : Env) (man : LogsManager Value) (signal : Signal)
    (failure : String) (event : EventType) :
    (emitSignal env man signal failure event).manager = man := by
  unfold emitSignal
  split_ifs <;> rfl

def BusAnswers (env : Env) (man : LogsManager Value) : Prop :=
  env.runtime = .ok () ∧ man.interface = true ∧ env.lookup = true ∧ env.emission = true

theorem emitSignal_emitted {env : Env} {man : LogsManager Value} {signal : Signal}
    {failure : String} {event : EventType} (hruntime : env.runtime = .ok ()) {s : Signal}
    (hs : s ∈ (emitSignal env man signal failure event).emitted) :
    s = signal ∧ BusAnswers env man := by
  unfold emitSignal at hs
  split_ifs at hs with hint hlook hemit
  · exact ⟨List.mem_singleton.mp hs, hruntime, hint, hlook, hemit⟩
  all_goals cases hs

@[simp] theorem signalExecute_manager (signal : Signal) (event : EventType) (env : Env)
    (desc : Desc) (man : LogsManager Value) :
    (signalExecute signal event env desc man).manager = man := by
  unfold signalExecute
  split_ifs
  · rfl
  · split
    · rfl
    · simp

@[simp] theorem close_perform_manager (id : Nid) (reason : NotificationClosed) (pos : Nat)
    (env : Env) (man : LogsManager Value) :
    (Close.perform id reason pos env man).manager = { man.setDirty with
      logsBuffer := man.logsBuffer.modify pos NotificationEvent.setClosed } := by
  unfold Close.perform
  dsimp only
  split
  · rfl
  · simp

theorem signalExecute_emitted {signal : Signal} {event : EventType} {env : Env} {desc : Desc}
    {man : LogsManager Value} {s : Signal}
    (hs : s ∈ (signalExecute signal event env desc man).emitted) :
    s = signal ∧
      (Flags.force.is desc.flags = false →
        ∃ ne, man.find signal.id = some ne ∧ ne.closed = false) := by
  unfold signalExecute at hs
  split_ifs at hs with hsilent
  · cases hs
  · split at hs
    · cases hs
    next hruntime =>
      refine ⟨(emitSignal_emitted hruntime hs).1, fun hforce => ?_⟩
      cases hfind : man.find signal.id with
      | none => simp [hfind, hforce] at hsilent
      | some ne => exact ⟨ne, rfl, by simpa [hfind, hforce] using hsilent⟩

theorem close_perform_emitted {id : Nid} {reason : NotificationClosed} {pos : Nat} {env : Env}
    {man : LogsManager Value} {s : Signal}
    (hs : s ∈ (Close.perform id reason pos env man).emitted) :
    s = .notificationClosed id reason.repr ∧ BusAnswers env man := by
  unfold Close.perform at hs
  dsimp only at hs
  split at hs
  · cases hs
  next hruntime =>
    have hemitted := emitSignal_emitted hruntime hs
    exact hemitted

/-- A close gets through its checks, to the notification `ne` in place `pos`: the first with
the id, open unless the job is forced, and due when it is to expire. -/
structure Close.Passes (id : Nid) (reason : NotificationClosed) (env : Env) (desc : Desc)
    (man : LogsManager Value) (pos : Nat) (ne : NotificationEvent Value) : Prop where
  first : man.position id = some pos
  found : man.logsBuffer[pos]? = some ne
  allowed : ne.closed = true → Flags.force.is desc.flags = true
  due : Close.dropped reason env man.logsConfig ne = some false

/-- A close either leaves everything as it was and says nothing, or gets through. -/
theorem Close.execute_cases {id : Nid} {reason : NotificationClosed} {env : Env} {desc : Desc}
    {man : LogsManager Value} {ex : Executed Value}
    (h : Close.execute id reason env desc man = some ex) :
    ex = .quiet ⟨.ok none, .other⟩ man ∨
      ∃ pos ne, Close.Passes id reason env desc man pos ne ∧
        ex = Close.perform id reason pos env man := by
  unfold Close.execute at h
  dsimp only at h
  split at h
  · left
    exact (Option.some.inj h).symm
  next hopen =>
    obtain ⟨ne, hne, h⟩ := Option.bind_eq_some_iff.mp h
    obtain ⟨dropped, hdropped, h⟩ := Option.bind_eq_some_iff.mp h
    split at h
    · left
      exact (Option.some.inj h).symm
    next hdue =>
      right
      obtain ⟨pos, hpos, h⟩ := Option.bind_eq_some_iff.mp h
      rw [hpos] at hne
      refine ⟨pos, ne, ⟨hpos, hne, ?_, ?_⟩, (Option.some.inj h).symm⟩
      · intro hclosed
        simpa [hpos, show man.logsBuffer[pos]? = some ne from hne, hclosed] using hopen
      · simpa [hdue] using hdropped

theorem Close.execute_passes {id : Nid} {reason : NotificationClosed} {env : Env} {desc : Desc}
    {man : LogsManager Value} {pos : Nat} {ne : NotificationEvent Value}
    (h : Close.Passes id reason env desc man pos ne) :
    Close.execute id reason env desc man = some (Close.perform id reason pos env man) := by
  have hallowed : (ne.closed && !Flags.force.is desc.flags) = false := by
    cases hclosed : ne.closed with
    | false => rfl
    | true => simp [h.allowed hclosed]
  simp [execute, h.first, h.found, hallowed, h.due]

/-- A close that panics: it is forced, for an id that is not in the log, or it reads a clock
before the epoch. -/
def Close.Panics (id : Nid) (reason : NotificationClosed) (env : Env) (desc : Desc)
    (man : LogsManager Value) : Prop :=
  man.find id = none ∧ Flags.force.is desc.flags = true ∨
    ∃ ne, man.find id = some ne ∧ (ne.closed = true → Flags.force.is desc.flags = true) ∧
      reason = .expired ∧ man.logsConfig.autoClose = true ∧ ne.timeout ≠ 0 ∧ -1 ≤ ne.timeout ∧
      env.systemTime = none

def Job.Panics (env : Env) (jd : JobDesc Value) (man : LogsManager Value) : Prop :=
  match jd.cmd with
  | .close id reason => Close.Panics id reason env jd.desc man
  | .read start stop =>
    min man.logsBuffer.length stop.toNat < min man.logsBuffer.length start.toNat
  | _ => False

theorem positive_timeout {timeout : Int32} (h : 0 < timeout.toInt) :
    timeout ≠ -1 ∧ timeout ≠ 0 ∧ -1 ≤ timeout := by
  refine ⟨?_, ?_, Int32.le_iff_toInt_le.mpr (le_trans (by decide) h.le)⟩
  · rintro rfl
    exact absurd h (by decide)
  · rintro rfl
    exact absurd h (by decide)

theorem LogsManager.mapTimeout_pos (config : LogsConfig) {timeout : Int32}
    (h : 0 < timeout.toInt) :
    mapTimeout config timeout = .ok (some timeout.toUInt32.toUInt16) := by
  obtain ⟨hneg, hzero, -⟩ := positive_timeout h
  have hone : 1 ≤ timeout := Int32.le_iff_toInt_le.mpr h
  rw [mapTimeout, if_neg hneg, if_neg hzero, if_pos hone]

theorem LogsManager.mapTimeout_set (config : LogsConfig) {timeout : Int32}
    (hzero : timeout ≠ 0) (hle : -1 ≤ timeout) :
    ∃ val, mapTimeout config timeout = .ok (some val) := by
  by_cases hneg : timeout = -1
  · exact ⟨config.defaultTimeout, by rw [mapTimeout, if_pos hneg]⟩
  · refine ⟨_, mapTimeout_pos config ?_⟩
    have hle : -1 ≤ timeout.toInt := Int32.le_iff_toInt_le.mp hle
    have hzero : timeout.toInt ≠ 0 := fun h => hzero (Int32.toInt_inj.mp h)
    have hneg : timeout.toInt ≠ -1 := fun h => hneg (Int32.toInt_inj.mp h)
    omega

theorem LogsManager.mapTimeout_negative (config : LogsConfig) {timeout : Int32}
    (h : ¬ -1 ≤ timeout) : ∃ err, mapTimeout config timeout = .error err := by
  have hneg : timeout ≠ -1 := by
    rintro rfl
    exact h (by decide)
  have hzero : timeout ≠ 0 := by
    rintro rfl
    exact h (by decide)
  have hone : ¬ 1 ≤ timeout := fun hone => h (Int32.le_trans (by decide) hone)
  exact ⟨_, by rw [mapTimeout, if_neg hneg, if_neg hzero, if_neg hone]⟩

theorem Broadcast.timer_armed {config : LogsConfig} (env : Env) {event : NotificationEvent Value}
    (hauto : config.autoClose = true) (hzero : event.timeout ≠ 0) (hle : -1 ≤ event.timeout) :
    ∃ ms, LogsManager.mapTimeout config event.timeout = .ok (some ms) ∧
      timer config env event = some (some ⟨env.instant + ms.toNat * 1000000, event.id⟩) := by
  obtain ⟨ms, hms⟩ := LogsManager.mapTimeout_set config hzero hle
  exact ⟨ms, hms, by simp [timer, hauto, hzero, hle, hms]⟩

theorem Broadcast.timer_isSome (config : LogsConfig) (env : Env)
    (event : NotificationEvent Value) : ∃ timer, Broadcast.timer config env event = some timer := by
  by_cases hset : config.autoClose = true ∧ event.timeout ≠ 0 ∧ -1 ≤ event.timeout
  · obtain ⟨ms, -, htimer⟩ := timer_armed env hset.1 hset.2.1 hset.2.2
    exact ⟨_, htimer⟩
  · exact ⟨none, if_neg (by simpa [and_assoc] using hset)⟩

def LogsManager.broadcasted (man : LogsManager Value) (event : NotificationEvent Value) :
    LogsManager Value :=
  { man.setDirty with
    logsBuffer :=
      Deque.enqueue (man.victim event) man.logsConfig.maxLogs.toNat event man.logsBuffer }

theorem Broadcast.execute_eq (platform : Platform Value) (event : NotificationEvent Value)
    (env : Env) (man : LogsManager Value) :
    ∃ timer, Broadcast.timer man.logsConfig env event = some timer ∧
      Broadcast.execute platform event env man = some
        ⟨⟨.ok (some (platform.eventToString event)), .results⟩, man.broadcasted event,
          [], [], timer⟩ := by
  obtain ⟨timer, htimer⟩ := timer_isSome man.logsConfig env event
  refine ⟨timer, htimer, ?_⟩
  by_cases hrep : event.replacesId = 0
  · simp [execute, hrep, htimer, LogsManager.broadcasted, LogsManager.victim,
      LogsManager.appendNotification, LogsManager.setDirty, Deque.enqueue]
  · cases hpos : man.position event.replacesId with
    | none =>
      simp [execute, hrep, htimer, LogsManager.broadcasted, LogsManager.victim,
        LogsManager.removeNotification, hpos, LogsManager.appendNotification,
        LogsManager.setDirty, Deque.enqueue]
    | some pos =>
      simp [execute, hrep, htimer, LogsManager.broadcasted, LogsManager.victim,
        LogsManager.removeNotification, hpos, LogsManager.appendNotification,
        LogsManager.setDirty, Deque.enqueue]

theorem Read.execute_some {platform : Platform Value} {start stop : LogCountType} {desc : Desc}
    {man : LogsManager Value} {ex : Executed Value}
    (h : Read.execute platform start stop desc man = some ex) :
    ∃ slice man', man.readLogs start stop (!Flags.silent.is desc.flags) = some (slice, man') ∧
      ex = .quiet ⟨.ok (some (platform.logToString slice)), .results⟩ man' := by
  obtain ⟨⟨slice, man'⟩, hread, h⟩ := Option.bind_eq_some_iff.mp h
  exact ⟨slice, man', hread, (Option.some.inj h).symm⟩

theorem Close.premature_none_iff (env : Env) (config : LogsConfig)
    (ne : NotificationEvent Value) :
    Close.premature env config ne = none ↔
      ne.timeout ≠ 0 ∧ -1 ≤ ne.timeout ∧ env.systemTime = none := by
  unfold premature
  by_cases hzero : ne.timeout = 0
  · simp [hzero]
  · by_cases hle : -1 ≤ ne.timeout
    · obtain ⟨val, hval⟩ := LogsManager.mapTimeout_set config hzero hle
      cases env.systemTime <;> simp [hzero, hle, hval]
    · obtain ⟨err, herr⟩ := LogsManager.mapTimeout_negative config hle
      simp [hzero, hle, herr]

theorem Close.execute_none_iff {id : Nid} {reason : NotificationClosed} {env : Env} {desc : Desc}
    {man : LogsManager Value} :
    Close.execute id reason env desc man = none ↔ Close.Panics id reason env desc man := by
  unfold execute Panics
  rw [LogsManager.find_eq_getElem]
  cases hpos : man.position id with
  | none => cases Flags.force.is desc.flags <;> simp
  | some pos =>
    have hlt := LogsManager.position_lt hpos
    have hne : man.logsBuffer[pos]? = some man.logsBuffer[pos] := List.getElem?_eq_getElem hlt
    generalize man.logsBuffer[pos] = ne at hne
    have hdropped : Close.dropped reason env man.logsConfig ne = none ↔ reason = .expired ∧
        man.logsConfig.autoClose = true ∧ ne.timeout ≠ 0 ∧ -1 ≤ ne.timeout ∧
          env.systemTime = none := by
      rw [← Close.premature_none_iff env man.logsConfig, dropped]
      by_cases hcheck : reason = .expired ∧ man.logsConfig.autoClose = true
      · simp [hcheck.1, hcheck.2]
      · have hskip : (reason == .expired && man.logsConfig.autoClose) = false := by
          simpa using hcheck
        simp [hskip, ← and_assoc, hcheck]
    by_cases hopen : ne.closed = true → Flags.force.is desc.flags = true
    · have hpass : (ne.closed && !Flags.force.is desc.flags) = false := by
        simpa using hopen
      have hbody : (Close.dropped reason env man.logsConfig ne).bind (fun dropped =>
          if dropped then some (Executed.quiet ⟨.ok none, .other⟩ man)
          else some (Close.perform id reason pos env man)) = none ↔
            Close.dropped reason env man.logsConfig ne = none := by
        rw [Option.bind_eq_none_iff]
        refine ⟨fun h => Option.eq_none_iff_forall_ne_some.mpr fun a ha => ?_, by simp +contextual⟩
        have hsome := h a ha
        split_ifs at hsome
      simpa [hne, hpass, ← hdropped, and_iff_right hopen] using hbody
    · have hstop : (ne.closed && !Flags.force.is desc.flags) = true := by
        simpa using hopen
      simp [hne, hstop, hopen]

theorem LogsManager.readLogs_none_iff (man : LogsManager Value) (start stop : LogCountType)
    (updateRead : Bool) :
    man.readLogs start stop updateRead = none ↔
      min man.logsBuffer.length stop.toNat < min man.logsBuffer.length start.toNat := by
  unfold readLogs
  dsimp only
  split_ifs with hpanics <;> simp [hpanics]

theorem Job.execute_none_iff {platform : Platform Value} {env : Env} {jd : JobDesc Value}
    {man : LogsManager Value} :
    Job.execute platform env jd man = none ↔ Job.Panics env jd man := by
  unfold execute Panics
  cases jd.cmd with
  | broadcast event =>
    obtain ⟨timer, -, hexec⟩ := Broadcast.execute_eq platform event env man
    simp [hexec]
  | close id reason => exact Close.execute_none_iff
  | read start stop =>
    refine Iff.trans ?_ (man.readLogs_none_iff start stop (!Flags.silent.is jd.desc.flags))
    cases hread : man.readLogs start stop (!Flags.silent.is jd.desc.flags) with
    | none => simp [Read.execute, hread]
    | some result => simp [Read.execute, hread]
  | _ => simp

/-- Every job other than a broadcast only sets flags. -/
theorem Job.execute_marks {platform : Platform Value} {env : Env} {jd : JobDesc Value}
    {man : LogsManager Value} {ex : Executed Value}
    (h : Job.execute platform env jd man = some ex) (hcmd : ∀ event, jd.cmd ≠ .broadcast event) :
    List.Forall₂ Marked man.logsBuffer ex.manager.logsBuffer := by
  unfold Job.execute at h
  split at h
  next event heq => exact absurd heq (hcmd event)
  next =>
    rcases Close.execute_cases h with rfl | ⟨pos, ne, -, rfl⟩
    · exact Marked.all_refl _
    · rw [close_perform_manager]
      exact Marked.all_modify Marked.setClosed _ _
  next =>
    obtain ⟨slice, man', hread, rfl⟩ := Read.execute_some h
    exact LogsManager.readLogs_marks hread
  all_goals cases h
  · exact Marked.all_refl _
  · exact Marked.all_refl _
  · rw [ActionInvoked.execute, signalExecute_manager]
    exact Marked.all_refl _
  · rw [ActivationToken.execute, signalExecute_manager]
    exact Marked.all_refl _
  · exact LogsManager.readNotification_marks man _

theorem Job.execute_broadcast {platform : Platform Value} {env : Env} {jd : JobDesc Value}
    {man : LogsManager Value} {ex : Executed Value} {event : NotificationEvent Value}
    (h : Job.execute platform env jd man = some ex) (hcmd : jd.cmd = .broadcast event) :
    ex.manager = man.broadcasted event ∧ ex.emitted = [] ∧
      Broadcast.timer man.logsConfig env event = some ex.timer := by
  obtain ⟨timer, htimer, hexec⟩ := Broadcast.execute_eq platform event env man
  simp only [Job.execute, hcmd, hexec] at h
  cases h
  exact ⟨rfl, rfl, htimer⟩

theorem Job.broadcast_log {platform : Platform Value} {env : Env} {jd : JobDesc Value}
    {man : LogsManager Value} {ex : Executed Value} {event : NotificationEvent Value}
    (h : Job.execute platform env jd man = some ex) (hcmd : jd.cmd = .broadcast event) :
    ∃ rest, ex.manager.logsBuffer = event :: rest ∧ rest ⊆ man.logsBuffer := by
  rw [(Job.execute_broadcast h hcmd).1]
  refine ⟨_, rfl, fun ne hne => ?_⟩
  exact Deque.mem_of_mem_withdraw LogsManager.victim_lt ((Deque.evict_sublist _ _).subset hne)

/-- Who emits a signal: a close that gets through, or one of the two client signals, which
without force find the first notification with the id open. -/
theorem Job.execute_emitted {platform : Platform Value} {env : Env} {jd : JobDesc Value}
    {man : LogsManager Value} {ex : Executed Value}
    (h : Job.execute platform env jd man = some ex) {s : Signal} (hs : s ∈ ex.emitted) :
    (∃ id reason pos ne, jd.cmd = .close id reason ∧ s = .notificationClosed id reason.repr ∧
        BusAnswers env man ∧ Close.Passes id reason env jd.desc man pos ne ∧
        ex = Close.perform id reason pos env man) ∨
      ((∃ id text, jd.cmd = .actionInvoked id text ∧ s = .actionInvoked id text ∨
          jd.cmd = .activationToken id text ∧ s = .activationToken id text) ∧
        (Flags.force.is jd.desc.flags = false →
          ∃ ne, man.find s.id = some ne ∧ ne.closed = false)) := by
  unfold Job.execute at h
  split at h
  next =>
    obtain ⟨timer, -, hexec⟩ := Broadcast.execute_eq platform _ env man
    rw [hexec] at h
    cases h
    cases hs
  next id reason hcmd =>
    left
    rcases Close.execute_cases h with rfl | ⟨pos, ne, hpasses, rfl⟩
    · cases hs
    · obtain ⟨hsig, hbus⟩ := close_perform_emitted hs
      exact ⟨id, reason, pos, ne, hcmd, hsig, hbus, hpasses, rfl⟩
  next =>
    obtain ⟨slice, man', -, rfl⟩ := Read.execute_some h
    cases hs
  next => cases h; cases hs
  next => cases h; cases hs
  next id actionKey hcmd =>
    right
    cases h
    obtain ⟨rfl, hfind⟩ := signalExecute_emitted hs
    exact ⟨⟨id, actionKey, Or.inl ⟨hcmd, rfl⟩⟩, hfind⟩
  next id token hcmd =>
    right
    cases h
    obtain ⟨rfl, hfind⟩ := signalExecute_emitted hs
    exact ⟨⟨id, token, Or.inr ⟨hcmd, rfl⟩⟩, hfind⟩
  next => cases h; cases hs

theorem emitSignal_unarmed (env : Env) (man : LogsManager Value) (signal : Signal)
    (failure : String) (event : EventType) :
    (emitSignal env man signal failure event).timer = none := by
  unfold emitSignal
  split_ifs <;> rfl

theorem signalExecute_unarmed (signal : Signal) (event : EventType) (env : Env) (desc : Desc)
    (man : LogsManager Value) : (signalExecute signal event env desc man).timer = none := by
  unfold signalExecute
  split_ifs
  · rfl
  · split
    · rfl
    · exact emitSignal_unarmed env man signal _ event

theorem Close.perform_unarmed (id : Nid) (reason : NotificationClosed) (pos : Nat) (env : Env)
    (man : LogsManager Value) : (Close.perform id reason pos env man).timer = none := by
  unfold Close.perform
  dsimp only
  split
  · rfl
  · exact emitSignal_unarmed _ _ _ _ _

def LogsManager.setup (man : LogsManager Value) : LogsConfig × Bool × Bool :=
  (man.logsConfig, man.interface, man.notifyer)

theorem LogsManager.readLogs_setup {man man' : LogsManager Value} {start stop : LogCountType}
    {updateRead : Bool} {slice : List (NotificationEvent Value)}
    (h : man.readLogs start stop updateRead = some (slice, man')) : man'.setup = man.setup := by
  unfold readLogs at h
  dsimp only at h
  split at h
  · cases h
  split at h <;> cases h <;> rfl

theorem Job.execute_setup {platform : Platform Value} {env : Env} {jd : JobDesc Value}
    {man : LogsManager Value} {ex : Executed Value}
    (h : Job.execute platform env jd man = some ex) : ex.manager.setup = man.setup := by
  unfold Job.execute at h
  split at h
  next event _ =>
    obtain ⟨timer, -, hexec⟩ := Broadcast.execute_eq platform event env man
    rw [hexec] at h
    cases h
    rfl
  next =>
    rcases Close.execute_cases h with rfl | ⟨pos, ne, -, rfl⟩
    · rfl
    · rw [close_perform_manager]
      rfl
  next =>
    obtain ⟨slice, man', hread, rfl⟩ := Read.execute_some h
    exact LogsManager.readLogs_setup hread
  all_goals cases h
  · rfl
  · rfl
  · rw [ActionInvoked.execute, signalExecute_manager]
  · rw [ActivationToken.execute, signalExecute_manager]
  · rw [Acknowledge.execute, LogsManager.readNotification]
    split <;> rfl

/-- The two things a step does to the log. -/
theorem LogsManager.step_cases {platform : Platform Value} {man man' : LogsManager Value}
    {task : Task Value} (h : man.step platform task = some man') :
    (∃ event, task.2.cmd = .broadcast event ∧ man' = man.broadcasted event) ∨
      ((∀ event, task.2.cmd ≠ .broadcast event) ∧ man'.logsConfig = man.logsConfig ∧
        List.Forall₂ Marked man.logsBuffer man'.logsBuffer) := by
  obtain ⟨ex, hex, rfl⟩ := Option.map_eq_some_iff.mp h
  by_cases hcmd : ∃ event, task.2.cmd = .broadcast event
  · obtain ⟨event, hcmd⟩ := hcmd
    exact Or.inl ⟨event, hcmd, (Job.execute_broadcast hex hcmd).1⟩
  · right
    have hcmd : ∀ event, task.2.cmd ≠ .broadcast event := fun event he => hcmd ⟨event, he⟩
    exact ⟨hcmd, congrArg Prod.fst (Job.execute_setup hex), Job.execute_marks hex hcmd⟩

theorem LogsManager.step_broadcast (platform : Platform Value) (man : LogsManager Value)
    {task : Task Value} {event : NotificationEvent Value} (hcmd : task.2.cmd = .broadcast event) :
    man.step platform task = some (man.broadcasted event) := by
  obtain ⟨timer, -, hexec⟩ := Broadcast.execute_eq platform event task.1 man
  simp [step, Job.execute, hcmd, hexec]

/-! A job that makes a change marks it. -/

theorem LogsManager.readLogs_unmarked {man man' : LogsManager Value} {start stop : LogCountType}
    {updateRead : Bool} {slice : List (NotificationEvent Value)}
    (h : man.readLogs start stop updateRead = some (slice, man')) (hclean : man'.dirty = false) :
    man' = man := by
  unfold readLogs at h
  dsimp only at h
  split_ifs at h
  · cases h
    cases hclean
  · cases h
    rfl

theorem Job.execute_unmarked {platform : Platform Value} {env : Env} {jd : JobDesc Value}
    {man : LogsManager Value} {ex : Executed Value}
    (h : Job.execute platform env jd man = some ex) (hclean : ex.manager.dirty = false) :
    ex.manager = man := by
  unfold Job.execute at h
  split at h
  next event _ =>
    obtain ⟨timer, -, hexec⟩ := Broadcast.execute_eq platform event env man
    rw [hexec] at h
    cases h
    cases hclean
  next =>
    rcases Close.execute_cases h with rfl | ⟨pos, ne, -, rfl⟩
    · rfl
    · rw [close_perform_manager] at hclean
      cases hclean
  next =>
    obtain ⟨slice, man', hread, rfl⟩ := Read.execute_some h
    exact LogsManager.readLogs_unmarked hread hclean
  all_goals cases h
  · rfl
  · rfl
  · rw [ActionInvoked.execute, signalExecute_manager]
  · rw [ActivationToken.execute, signalExecute_manager]
  · simp only [Acknowledge.execute, Executed.quiet, LogsManager.readNotification] at hclean
    split at hclean <;> cases hclean

theorem Job.execute_unarmed {platform : Platform Value} {env : Env} {jd : JobDesc Value}
    {man : LogsManager Value} {ex : Executed Value}
    (h : Job.execute platform env jd man = some ex) (hcmd : ∀ event, jd.cmd ≠ .broadcast event) :
    ex.timer = none := by
  unfold Job.execute at h
  split at h
  next event he => exact absurd he (hcmd event)
  next =>
    rcases Close.execute_cases h with rfl | ⟨pos, ne, -, rfl⟩
    · rfl
    · exact Close.perform_unarmed _ _ _ _ _
  next =>
    obtain ⟨slice, man', -, rfl⟩ := Read.execute_some h
    rfl
  all_goals cases h
  · rfl
  · rfl
  · exact signalExecute_unarmed _ _ _ _ _
  · exact signalExecute_unarmed _ _ _ _ _
  · rfl

/-! Jobs do not look at `dirty`. -/

def LogsManager.saved (man : LogsManager Value) : LogsManager Value := { man with dirty := false }

theorem LogsManager.saved_eq {man man' : LogsManager Value}
    (hlog : man'.logsBuffer = man.logsBuffer) (hsetup : man'.setup = man.setup) :
    man'.saved = man.saved := by
  cases man
  cases man'
  simp_all [saved, setup]

theorem LogsManager.readLogs_saved (man : LogsManager Value) (start stop : LogCountType)
    (updateRead : Bool) :
    (man.saved.readLogs start stop updateRead).map (fun result => result.2.saved) =
      (man.readLogs start stop updateRead).map (fun result => result.2.saved) := by
  unfold readLogs
  dsimp only [saved]
  split_ifs <;> rfl

theorem Close.execute_quiet {id : Nid} {reason : NotificationClosed} {env : Env} {desc : Desc}
    {man : LogsManager Value} (hpass : ¬ ∃ pos ne, Passes id reason env desc man pos ne)
    (hpanics : ¬ Panics id reason env desc man) :
    Close.execute id reason env desc man = some (.quiet ⟨.ok none, .other⟩ man) := by
  cases h : Close.execute id reason env desc man with
  | none => exact absurd (execute_none_iff.mp h) hpanics
  | some ex =>
    rcases execute_cases h with rfl | ⟨pos, ne, hpasses, -⟩
    · rfl
    · exact absurd ⟨pos, ne, hpasses⟩ hpass

theorem Close.execute_saved (id : Nid) (reason : NotificationClosed) (env : Env) (desc : Desc)
    (man : LogsManager Value) :
    (Close.execute id reason env desc man.saved).map (·.manager.saved) =
      (Close.execute id reason env desc man).map (·.manager.saved) := by
  by_cases hpass : ∃ pos ne, Passes id reason env desc man pos ne
  · obtain ⟨pos, ne, hpass⟩ := hpass
    have hsaved : Passes id reason env desc man.saved pos ne :=
      ⟨hpass.first, hpass.found, hpass.allowed, hpass.due⟩
    rw [execute_passes hpass, execute_passes hsaved]
    simp [LogsManager.saved, LogsManager.setDirty]
  · by_cases hpanics : Panics id reason env desc man
    · have hsaved : Panics id reason env desc man.saved := hpanics
      rw [execute_none_iff.mpr hpanics, execute_none_iff.mpr hsaved]
    · rw [execute_quiet hpass hpanics]
      have hsaved : ¬ Panics id reason env desc man.saved := hpanics
      rw [execute_quiet _ hsaved]
      · rfl
      · rintro ⟨pos, ne, h⟩
        exact hpass ⟨pos, ne, h.first, h.found, h.allowed, h.due⟩

theorem LogsManager.step_saved (platform : Platform Value) (man : LogsManager Value)
    (task : Task Value) :
    (man.saved.step platform task).map saved = (man.step platform task).map saved := by
  obtain ⟨env, cmd, desc⟩ := task
  cases cmd with
  | broadcast event =>
    rw [step_broadcast platform man rfl, step_broadcast platform man.saved rfl]
    rfl
  | close id reason =>
    simp only [step, Job.execute, Option.map_map]
    exact Close.execute_saved id reason env desc man
  | read start stop =>
    have hread := man.readLogs_saved start stop (!Flags.silent.is desc.flags)
    simp only [step, Job.execute, Read.execute]
    cases h : man.readLogs start stop (!Flags.silent.is desc.flags) <;>
      cases h' : man.saved.readLogs start stop (!Flags.silent.is desc.flags) <;>
      simp_all [Executed.quiet]
  | actionInvoked id text =>
    simp [step, Job.execute, ActionInvoked.execute]
    rfl
  | activationToken id text =>
    simp [step, Job.execute, ActivationToken.execute]
    rfl
  | acknowledge id =>
    simp only [step, Job.execute, Option.map_some, Acknowledge.execute, Executed.quiet,
      readNotification]
    have hpos : man.saved.position id = man.position id := rfl
    rw [hpos]
    cases man.position id <;> rfl
  | query id => rfl
  | watch => rfl

def Executed.saved (ex : Executed Value) : Executed Value := { ex with manager := ex.manager.saved }

theorem emitSignal_saved (env : Env) (man : LogsManager Value) (signal : Signal)
    (failure : String) (event : EventType) :
    emitSignal env man.saved signal failure event =
      (emitSignal env man signal failure event).saved := by
  have hinterface : man.saved.interface = man.interface := rfl
  simp only [emitSignal, hinterface]
  split_ifs <;> rfl

theorem signalExecute_saved (signal : Signal) (event : EventType) (env : Env) (desc : Desc)
    (man : LogsManager Value) :
    signalExecute signal event env desc man.saved =
      (signalExecute signal event env desc man).saved := by
  have hfind : man.saved.find signal.id = man.find signal.id := rfl
  unfold signalExecute
  rw [hfind]
  split_ifs
  · rfl
  · split
    · rfl
    · exact emitSignal_saved env man signal _ event

theorem Close.perform_saved (id : Nid) (reason : NotificationClosed) (pos : Nat) (env : Env)
    (man : LogsManager Value) :
    Close.perform id reason pos env man.saved = Close.perform id reason pos env man := rfl

theorem Close.execute_outcome (id : Nid) (reason : NotificationClosed) (env : Env) (desc : Desc)
    (man : LogsManager Value) :
    (Close.execute id reason env desc man.saved).map Executed.saved =
      (Close.execute id reason env desc man).map Executed.saved := by
  by_cases hpass : ∃ pos ne, Passes id reason env desc man pos ne
  · obtain ⟨pos, ne, hpass⟩ := hpass
    have hsaved : Passes id reason env desc man.saved pos ne :=
      ⟨hpass.first, hpass.found, hpass.allowed, hpass.due⟩
    rw [execute_passes hpass, execute_passes hsaved, perform_saved]
  · have hsavedPass : ¬ ∃ pos ne, Passes id reason env desc man.saved pos ne := by
      rintro ⟨pos, ne, h⟩
      exact hpass ⟨pos, ne, h.first, h.found, h.allowed, h.due⟩
    by_cases hpanics : Panics id reason env desc man
    · have hsaved : Panics id reason env desc man.saved := hpanics
      rw [execute_none_iff.mpr hpanics, execute_none_iff.mpr hsaved]
    · have hsaved : ¬ Panics id reason env desc man.saved := hpanics
      rw [execute_quiet hpass hpanics, execute_quiet hsavedPass hsaved]
      rfl

theorem Read.execute_outcome (platform : Platform Value) (start stop : LogCountType)
    (desc : Desc) (man : LogsManager Value) :
    (Read.execute platform start stop desc man.saved).map Executed.saved =
      (Read.execute platform start stop desc man).map Executed.saved := by
  have hlog : man.saved.logsBuffer = man.logsBuffer := rfl
  simp only [Read.execute, LogsManager.readLogs, hlog]
  split_ifs <;> rfl

theorem Job.execute_outcome (platform : Platform Value) (env : Env) (jd : JobDesc Value)
    (man : LogsManager Value) :
    (Job.execute platform env jd man.saved).map Executed.saved =
      (Job.execute platform env jd man).map Executed.saved := by
  obtain ⟨cmd, desc⟩ := jd
  cases cmd with
  | broadcast event =>
    obtain ⟨timer, htimer, hexec⟩ := Broadcast.execute_eq platform event env man
    obtain ⟨timer', htimer', hexec'⟩ := Broadcast.execute_eq platform event env man.saved
    obtain rfl : timer' = timer := Option.some.inj (htimer'.symm.trans htimer)
    simp only [execute, hexec, hexec']
    rfl
  | close id reason => exact Close.execute_outcome id reason env desc man
  | read start stop => exact Read.execute_outcome platform start stop desc man
  | actionInvoked id text =>
    simp only [execute, ActionInvoked.execute, signalExecute_saved]
    rfl
  | activationToken id text =>
    simp only [execute, ActivationToken.execute, signalExecute_saved]
    rfl
  | acknowledge id =>
    have hpos : man.saved.position id = man.position id := rfl
    simp only [execute, Acknowledge.execute, LogsManager.readNotification, hpos]
    cases man.position id <;> rfl
  | query id => rfl
  | watch => rfl

theorem Job.execute_alike {platform : Platform Value} {env : Env} {jd : JobDesc Value}
    {man man' : LogsManager Value} (hsaved : man'.saved = man.saved) {ex : Executed Value}
    (h : Job.execute platform env jd man = some ex) :
    ∃ ex', Job.execute platform env jd man' = some ex' ∧ ex'.saved = ex.saved := by
  have houtcome : (Job.execute platform env jd man').map Executed.saved = some ex.saved := by
    rw [← execute_outcome, hsaved, execute_outcome, h, Option.map_some]
  exact Option.map_eq_some_iff.mp houtcome

end NotifsPiper

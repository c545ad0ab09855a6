import NotifsPiper.Execution
import NotifsPiper.Parallel

/-! What a job leaves alone. Every entry of the log after a job is told where it came from,
so that what is lost, added, moved or marked is told too. -/

namespace NotifsPiper.Frames

variable {Value : Type}

/-- A read that marks what it returns covers place `i`. -/
def Covers (jd : JobDesc Value) (i : Nat) : Prop :=
  Flags.silent.is jd.desc.flags = false ∧
    ∃ start stop, jd.cmd = .read start stop ∧ start.toNat ≤ i ∧ i < stop.toNat

/-- What a job may make of the entry `before` in place `i`: a close of its id closes it, an
acknowledgement of its id or a read that covers it marks it as read. -/
structure Kept (jd : JobDesc Value) (i : Nat) (before after : NotificationEvent Value) : Prop where
  sent : after.sent = before.sent
  closed : after.closed = before.closed ∨
    before.closed = false ∧ after.closed = true ∧ ∃ reason, jd.cmd = .close before.id reason
  read : after.read = before.read ∨
    before.read = false ∧ after.read = true ∧ (jd.cmd = .acknowledge before.id ∨ Covers jd i)

/-- The entry `after` was in the given place of the log, or the job brought it. -/
def Came (jd : JobDesc Value) (log : List (NotificationEvent Value))
    (after : NotificationEvent Value) : Option Nat → Prop
  | none => jd.cmd = .broadcast after
  | some i => ∃ before, log[i]? = some before ∧ Kept jd i before after

def rest (man : LogsManager Value) (event : NotificationEvent Value) : List Nat :=
  Deque.withdraw (man.victim event) (List.range man.logsBuffer.length)

/-- The entry in place `i` leaves: it is the first with the id that a broadcast replaces, or the
back entry of a log that holds exactly `max_logs` when the broadcast appends to it. -/
def Leaves (jd : JobDesc Value) (man : LogsManager Value) (i : Nat) : Prop :=
  ∃ event, jd.cmd = .broadcast event ∧
    (event.replacesId ≠ 0 ∧ man.position event.replacesId = some i ∨
      (rest man event).length = man.logsConfig.maxLogs.toNat ∧ (rest man event).getLast? = some i)

/-- The frame of a job: where each entry of the log after it came from. -/
structure Framed (jd : JobDesc Value) (man man' : LogsManager Value)
    (origins : List (Option Nat)) : Prop where
  entries : List.Forall₂ (Came jd man.logsBuffer) man'.logsBuffer origins
  distinct : (origins.filterMap id).Nodup
  added : (∃ event, jd.cmd = .broadcast event) ∧ origins.count none = 1 ∨
    (∀ event, jd.cmd ≠ .broadcast event) ∧ none ∉ origins
  lost : ∀ i < man.logsBuffer.length, some i ∉ origins → Leaves jd man i
  dirty : man'.dirty = true ∨
    man' = man ∧ origins = (List.range man.logsBuffer.length).map some

/-! Marking in place. -/

theorem Kept.refl (jd : JobDesc Value) (i : Nat) (ne : NotificationEvent Value) : Kept jd i ne ne :=
  ⟨rfl, Or.inl rfl, Or.inl rfl⟩

theorem Kept.setClosed {jd : JobDesc Value} {i : Nat} {before after : NotificationEvent Value}
    (h : Kept jd i before after) {reason : NotificationClosed}
    (hcmd : jd.cmd = .close before.id reason) : Kept jd i before after.setClosed := by
  refine ⟨h.sent, ?_, h.read⟩
  cases hclosed : before.closed with
  | true => exact Or.inl rfl
  | false => exact Or.inr ⟨rfl, rfl, reason, hcmd⟩

theorem Kept.setRead {jd : JobDesc Value} {i : Nat} {before after : NotificationEvent Value}
    (h : Kept jd i before after) (hcmd : jd.cmd = .acknowledge before.id ∨ Covers jd i) :
    Kept jd i before after.setRead := by
  refine ⟨h.sent, h.closed, ?_⟩
  cases hread : before.read with
  | true => exact Or.inl rfl
  | false => exact Or.inr ⟨rfl, rfl, hcmd⟩

def places (log : List (NotificationEvent Value)) : List (Option Nat) :=
  (List.range log.length).map some

theorem places_getElem? {log : List (NotificationEvent Value)} {i : Nat} {origin : Option Nat}
    (h : (places log)[i]? = some origin) : origin = some i := by
  obtain ⟨hi, rfl⟩ := List.getElem?_eq_some_iff.mp h
  simp [places]

theorem came_places (jd : JobDesc Value) (log : List (NotificationEvent Value)) :
    List.Forall₂ (Came jd log) log (places log) := by
  refine List.forall₂_iff_get.mpr ⟨by simp [places], fun i hi hi' => ?_⟩
  simp [places, Came, hi, Kept.refl]

/-- A job that marks entries in place, or leaves the manager as it was. -/
theorem framed_marks {jd : JobDesc Value} {man man' : LogsManager Value}
    (hcmd : ∀ event, jd.cmd ≠ .broadcast event)
    (hentries : List.Forall₂ (Came jd man.logsBuffer) man'.logsBuffer (places man.logsBuffer))
    (hdirty : man'.dirty = true ∨ man' = man) : Framed jd man man' (places man.logsBuffer) := by
  refine ⟨hentries, ?_, Or.inr ⟨hcmd, by simp [places]⟩, fun i hi hlost => ?_, ?_⟩
  · simpa [places] using List.nodup_range
  · exact absurd (List.mem_map_of_mem (List.mem_range.mpr hi)) hlost
  · exact hdirty.imp_right fun h => ⟨h, rfl⟩

theorem framed_same {jd : JobDesc Value} {man : LogsManager Value}
    (hcmd : ∀ event, jd.cmd ≠ .broadcast event) :
    Framed jd man man (places man.logsBuffer) :=
  framed_marks hcmd (came_places jd man.logsBuffer) (Or.inr rfl)

theorem came_modify {jd : JobDesc Value} {man : LogsManager Value} {id : Nid} {pos : Nat}
    {f : NotificationEvent Value → NotificationEvent Value} (hpos : man.position id = some pos)
    (hf : ∀ before after, before.id = id → Kept jd pos before after →
      Kept jd pos before (f after)) :
    List.Forall₂ (Came jd man.logsBuffer) (man.logsBuffer.modify pos f)
      (places man.logsBuffer) := by
  refine Parallel.forall₂_modify (came_places jd man.logsBuffer) fun x y _ hy hcame => ?_
  obtain rfl := places_getElem? hy
  obtain ⟨before, hbefore, hkept⟩ := hcame
  obtain ⟨hlt, hid, -⟩ := LogsManager.position_some.mp hpos
  rw [List.getElem?_eq_getElem hlt] at hbefore
  exact ⟨before, by rw [List.getElem?_eq_getElem hlt, hbefore],
    hf before x (by rw [← Option.some.inj hbefore, hid]) hkept⟩

theorem close_framed {jd : JobDesc Value} {man : LogsManager Value} {id : Nid}
    {reason : NotificationClosed} {pos : Nat} (env : Env)
    (hcmd : jd.cmd = .close id reason) (hpos : man.position id = some pos) :
    Framed jd man (Close.perform id reason pos env man).manager (places man.logsBuffer) := by
  rw [close_perform_manager]
  refine framed_marks (by simp [hcmd]) (came_modify hpos ?_) (Or.inl rfl)
  rintro before after rfl hkept
  exact hkept.setClosed hcmd

theorem acknowledge_framed {jd : JobDesc Value} {man : LogsManager Value} {id : Nid}
    (hcmd : jd.cmd = .acknowledge id) :
    Framed jd man (man.readNotification id) (places man.logsBuffer) := by
  unfold LogsManager.readNotification
  split
  next => exact framed_marks (by simp [hcmd]) (came_places jd man.logsBuffer) (Or.inl rfl)
  next pos hpos =>
    refine framed_marks (by simp [hcmd]) (came_modify hpos ?_) (Or.inl rfl)
    rintro before after rfl hkept
    exact hkept.setRead (Or.inl hcmd)

theorem mem_places_slice {log : List (NotificationEvent Value)} {first n : Nat}
    {origin : Option Nat} (h : origin ∈ ((places log).drop first).take n) :
    ∃ i, origin = some i ∧ first ≤ i ∧ i < first + n ∧ i < log.length := by
  obtain ⟨k, hk⟩ := List.mem_iff_getElem?.mp h
  rw [List.getElem?_take] at hk
  split_ifs at hk with hlt
  rw [List.getElem?_drop] at hk
  obtain ⟨hin, -⟩ := List.getElem?_eq_some_iff.mp hk
  have hlen : (places log).length = log.length := by simp [places]
  exact ⟨first + k, places_getElem? hk, by omega, by omega, by omega⟩

theorem read_framed {jd : JobDesc Value} {man man' : LogsManager Value}
    {start stop : LogCountType} {slice : List (NotificationEvent Value)}
    (hcmd : jd.cmd = .read start stop)
    (hread : man.readLogs start stop (!Flags.silent.is jd.desc.flags) = some (slice, man')) :
    Framed jd man man' (places man.logsBuffer) := by
  unfold LogsManager.readLogs at hread
  dsimp only at hread
  split_ifs at hread with hslice hupdate
  · cases hread
    refine framed_marks (by simp [hcmd]) ?_ (Or.inl rfl)
    refine Parallel.forall₂_slice (came_places jd man.logsBuffer) (by omega) fun x y hy hcame => ?_
    obtain ⟨i, rfl, hfirst, hlast, hlen⟩ := mem_places_slice hy
    obtain ⟨before, hbefore, hkept⟩ := hcame
    -- A place below the length is clipped by neither bound.
    have hcovers : Covers jd i := by
      simp only [Bool.and_eq_true, Bool.not_eq_true'] at hupdate
      exact ⟨hupdate.1, start, stop, hcmd, by omega, by omega⟩
    exact ⟨before, hbefore, hkept.setRead (Or.inr hcovers)⟩
  · cases hread
    exact framed_same (by simp [hcmd])

/-- What a broadcast leaves of the places: the new entry has none. -/
def broadcastOrigins (man : LogsManager Value) (event : NotificationEvent Value) :
    List (Option Nat) :=
  none :: (Deque.evict man.logsConfig.maxLogs.toNat (rest man event)).map some

theorem victim_lt_range {man : LogsManager Value} {event : NotificationEvent Value} :
    ∀ i ∈ man.victim event, i < (List.range man.logsBuffer.length).length := by
  simpa using @LogsManager.victim_lt _ man event

theorem broadcastOrigins_eq (man : LogsManager Value) (event : NotificationEvent Value) :
    broadcastOrigins man event = Deque.enqueue (man.victim event) man.logsConfig.maxLogs.toNat none
      (places man.logsBuffer) := by
  rw [Deque.enqueue, places, Deque.withdraw_map, Deque.evict_map]
  rfl

theorem broadcast_framed {jd : JobDesc Value} {man : LogsManager Value}
    {event : NotificationEvent Value} (hcmd : jd.cmd = .broadcast event) :
    Framed jd man (man.broadcasted event) (broadcastOrigins man event) := by
  refine ⟨?_, ?_, Or.inl ⟨⟨event, hcmd⟩, ?_⟩, fun i hi hlost => ⟨event, hcmd, ?_⟩, Or.inl rfl⟩
  · rw [broadcastOrigins_eq]
    have hevent : Came jd man.logsBuffer event none := hcmd
    exact Deque.forall₂_enqueue (came_places jd man.logsBuffer) hevent LogsManager.victim_lt _
  · have hnodup := (Deque.nodup_withdraw victim_lt_range List.nodup_range).sublist
      (Deque.evict_sublist man.logsConfig.maxLogs.toNat (rest man event))
    simpa [broadcastOrigins] using hnodup
  · rw [broadcastOrigins, List.count_cons_self, List.count_eq_zero.mpr (by simp)]
  · have hrange : i ∈ List.range man.logsBuffer.length := List.mem_range.mpr hi
    rcases Deque.mem_withdraw_or victim_lt_range hrange with ⟨j, hj, hji⟩ | hrest
    · left
      obtain rfl : j = i := by
        obtain ⟨hlt, hji⟩ := List.getElem?_eq_some_iff.mp hji
        rwa [List.getElem_range hlt] at hji
      rw [LogsManager.victim] at hj
      split_ifs at hj with hrep
      · cases hj
      · exact ⟨hrep, hj⟩
    · right
      rcases Deque.mem_evict_or hrest with hkept | hback
      · exact absurd (List.mem_cons_of_mem _ (List.mem_map_of_mem hkept)) hlost
      · exact hback

/-- Every job that completes, from every log and with every flags, keeps the frame: each entry
of the log after it is an entry of the log before it with the marks that this job may set, or
the notification it broadcasts, and what is lost is replaced or evicted. -/
theorem execute_framed (platform : Platform Value) (env : Env) (jd : JobDesc Value)
    (man : LogsManager Value) (ex : Executed Value)
    (h : Job.execute platform env jd man = some ex) :
    ∃ origins, Framed jd man ex.manager origins := by
  have hexec := h
  unfold Job.execute at h
  split at h
  next event hcmd =>
    rw [(Job.execute_broadcast hexec hcmd).1]
    exact ⟨_, broadcast_framed hcmd⟩
  next id reason hcmd =>
    rcases Close.execute_cases h with rfl | ⟨pos, ne, hpasses, rfl⟩
    · exact ⟨_, framed_same (by simp [hcmd])⟩
    · exact ⟨_, close_framed env hcmd hpasses.first⟩
  next start stop hcmd =>
    obtain ⟨slice, man', hread, rfl⟩ := Read.execute_some h
    exact ⟨_, read_framed hcmd hread⟩
  next id hcmd =>
    cases h
    exact ⟨_, framed_same (by simp [hcmd])⟩
  next hcmd =>
    cases h
    exact ⟨_, framed_same (by simp [hcmd])⟩
  next id actionKey hcmd =>
    cases h
    rw [ActionInvoked.execute, signalExecute_manager]
    exact ⟨_, framed_same (by simp [hcmd])⟩
  next id token hcmd =>
    cases h
    rw [ActivationToken.execute, signalExecute_manager]
    exact ⟨_, framed_same (by simp [hcmd])⟩
  next id hcmd =>
    cases h
    exact ⟨_, acknowledge_framed hcmd⟩

def replacing : JobDesc Unit := ⟨.broadcast (.bare 3 3 0), ⟨0, 0⟩⟩

def overfull : LogsManager Unit :=
  { LogsManager.empty 3 with logsBuffer := [.bare 4 0 0, .bare 3 0 0, .bare 2 0 0, .bare 1 0 0] }

theorem execute_framed_replacing :
    ∃ ex, Job.execute Platform.bare (Task.at 0 replacing.cmd).1 replacing overfull = some ex ∧
      ∃ origins, Framed replacing overfull ex.manager origins :=
  ⟨_, rfl, execute_framed Platform.bare (Task.at 0 replacing.cmd).1 replacing overfull _ rfl⟩

example : (overfull.broadcasted (.bare 3 3 0)).logsBuffer.map NotificationEvent.id = [3, 4, 1] := by
  decide

end NotifsPiper.Frames

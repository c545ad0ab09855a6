import NotifsPiper.Daemon
import NotifsPiper.Runs

/-! The ids of the log. They come from a counter and from the callers, and the counter is
brought in line with the ids in use at the start only. -/

namespace NotifsPiper.Identity

open Runs

variable {Value : Type}

def DistinctIds (d : Daemon Value) : Prop :=
  (d.manager.logsBuffer.map NotificationEvent.id).Nodup

/-- A broadcast about to be executed has the id it replaces, or one that no notification it
leaves in the log has. -/
def AddsFresh (d : Daemon Value) (l : Label Value) : Prop :=
  ∀ env disk jd empty event, l = .execute env disk → d.phase = .executing jd empty →
    jd.cmd = .broadcast event →
      event.replacesId ≠ 0 ∧ event.id = event.replacesId ∨
        ∀ ne ∈ Deque.evict d.manager.logsConfig.maxLogs.toNat
          (Deque.withdraw (d.manager.victim event) d.manager.logsBuffer), ne.id ≠ event.id

theorem withdraw_nodup {log : List (NotificationEvent Value)} {victim : Option Nat}
    (hv : ∀ i ∈ victim, i < log.length) (h : (log.map NotificationEvent.id).Nodup) :
    ((Deque.withdraw victim log).map NotificationEvent.id).Nodup := by
  rw [← Deque.withdraw_map]
  exact Deque.nodup_withdraw (by simpa using hv) h

theorem replaced_gone {man : LogsManager Value} {event : NotificationEvent Value}
    (hrep : event.replacesId ≠ 0) (h : (man.logsBuffer.map NotificationEvent.id).Nodup) :
    ∀ ne ∈ Deque.withdraw (man.victim event) man.logsBuffer, ne.id ≠ event.replacesId := by
  intro ne hne
  have hvic : man.victim event = man.position event.replacesId := if_neg hrep
  rw [hvic] at hne
  cases hpos : man.position event.replacesId with
  | none =>
    rw [hpos] at hne
    exact LogsManager.position_none.mp hpos ne hne
  | some pos =>
    rw [hpos, Deque.withdraw_some] at hne
    obtain ⟨hlt, hid, -⟩ := LogsManager.position_some.mp hpos
    have hperm := (Deque.swapRemoveBack_perm hlt).map NotificationEvent.id
    rw [List.map_cons, hid] at hperm
    have hout := (List.nodup_cons.mp (hperm.nodup_iff.mpr h)).1
    rintro hne'
    exact hout (List.mem_map.mpr ⟨ne, hne, hne'⟩)

theorem broadcasted_distinct_iff {man : LogsManager Value} {event : NotificationEvent Value}
    (h : (man.logsBuffer.map NotificationEvent.id).Nodup) :
    ((man.broadcasted event).logsBuffer.map NotificationEvent.id).Nodup ↔
      (event.replacesId ≠ 0 ∧ event.id = event.replacesId ∨
        ∀ ne ∈ Deque.evict man.logsConfig.maxLogs.toNat
          (Deque.withdraw (man.victim event) man.logsBuffer), ne.id ≠ event.id) := by
  have hsub := Deque.evict_sublist man.logsConfig.maxLogs.toNat
    (Deque.withdraw (man.victim event) man.logsBuffer)
  have hrest := (withdraw_nodup (@LogsManager.victim_lt _ man event) h).sublist
    (hsub.map NotificationEvent.id)
  have hnodup : ((man.broadcasted event).logsBuffer.map NotificationEvent.id).Nodup ↔
      ∀ ne ∈ Deque.evict man.logsConfig.maxLogs.toNat
        (Deque.withdraw (man.victim event) man.logsBuffer), ne.id ≠ event.id := by
    simp only [LogsManager.broadcasted, Deque.enqueue, List.map_cons, List.nodup_cons, hrest,
      and_true, List.mem_map, not_exists, not_and]
  rw [hnodup]
  constructor
  · exact Or.inr
  · rintro (⟨hrep, hid⟩ | hfresh)
    · intro ne hne
      rw [hid]
      exact replaced_gone hrep h ne (hsub.subset hne)
    · exact hfresh

theorem executes_ids {platform : Platform Value} {d d' : Daemon Value} {env : Env}
    {jd : JobDesc Value} (h : d.Executes platform env jd d')
    (hcmd : ∀ event, jd.cmd ≠ .broadcast event) :
    d'.manager.logsBuffer.map NotificationEvent.id =
      d.manager.logsBuffer.map NotificationEvent.id := by
  obtain ⟨ex, hex, hlog, -⟩ := h.done
  rw [hlog]
  exact Marked.ids_eq (Job.execute_marks hex hcmd)

theorem step_distinct_iff {platform : Platform Value} {d d' : Daemon Value} {l : Label Value}
    (h : DistinctIds d) (hstep : d.step platform l = some d') :
    DistinctIds d' ↔ AddsFresh d l := by
  by_cases hbroadcast : ∃ env disk jd empty event, l = .execute env disk ∧
      d.phase = .executing jd empty ∧ jd.cmd = .broadcast event
  · obtain ⟨env, disk, jd, empty, event, rfl, hphase, hcmd⟩ := hbroadcast
    rw [DistinctIds, Daemon.execute_broadcast hphase hcmd hstep, broadcasted_distinct_iff h]
    constructor
    · intro hfresh env' disk' jd' empty' event' _ hphase' hcmd'
      rw [hphase] at hphase'
      cases hphase'
      rw [hcmd] at hcmd'
      cases hcmd'
      exact hfresh
    · intro hfresh
      exact hfresh env disk jd empty event rfl hphase hcmd
  · refine iff_of_true ?_ fun env disk jd empty event hl hphase hcmd =>
      absurd ⟨env, disk, jd, empty, event, hl, hphase, hcmd⟩ hbroadcast
    rcases Daemon.step_manager hstep with ⟨hman, -⟩ | ⟨env, disk, jd, rfl, hexec⟩
    · rwa [DistinctIds, hman]
    · obtain ⟨empty, hphase⟩ := hexec.phase
      rw [DistinctIds, executes_ids hexec fun event hcmd =>
        hbroadcast ⟨env, disk, jd, empty, event, rfl, hphase, hcmd⟩]
      exact h

/-- From a log of distinct ids, the ids stay distinct over a run of the daemon exactly when
every broadcast it executes adds an id that is not in use. -/
theorem distinct_ids_iff (platform : Platform Value) (man : LogsManager Value)
    (h : (man.logsBuffer.map NotificationEvent.id).Nodup) (logsFile : Option (List UInt8))
    (labels : List (Label Value)) :
    Always (Daemon.step platform) DistinctIds (Daemon.start man logsFile) labels ↔
      Along (Daemon.step platform) AddsFresh (Daemon.start man logsFile) labels := by
  have hstart : DistinctIds (Daemon.start man logsFile) := h
  exact always_iff_along (fun _ _ _ (_ : True) _ => trivial)
    (fun _ _ _ _ hP hstep => step_distinct_iff hP hstep) trivial hstart labels

def notified (replacesId : Nid) : List (Label Unit) :=
  [.notify ⟨"", replacesId, "", "", "", [], [], 0⟩ (some ⟨0, 0⟩), .busSend, .recv, .pop,
    .execute ⟨some ⟨0, 0⟩, 0, .ok (), true, true⟩ (.ok ()), .reply true false]

theorem distinct_ids_iff_notified :
    Always (Daemon.step Platform.bare) DistinctIds (Daemon.start (.empty 10) none)
        (notified 0 ++ notified 0) ↔
      Along (Daemon.step Platform.bare) AddsFresh (Daemon.start (.empty 10) none)
        (notified 0 ++ notified 0) :=
  distinct_ids_iff Platform.bare (.empty 10) List.nodup_nil none _

/-- A caller names an id that the counter reaches afterwards. -/
theorem chosen_id_collides :
    ¬ Always (Daemon.step Platform.bare) DistinctIds (Daemon.start (.empty 10) none)
      (notified 1 ++ notified 0) := by
  intro h
  have hrun : (run (Daemon.step Platform.bare) (Daemon.start (.empty 10) none)
      (notified 1 ++ notified 0)).map (fun d => d.manager.logsBuffer.map NotificationEvent.id) =
        some [1, 1] := by decide
  obtain ⟨d, hd, hids⟩ := Option.map_eq_some_iff.mp hrun
  have hdistinct : DistinctIds d := always_iff.mp h _ (List.prefix_refl _) d hd
  rw [DistinctIds, hids] at hdistinct
  exact absurd hdistinct (by decide)

end NotifsPiper.Identity

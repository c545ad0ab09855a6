import NotifsPiper.Closing
import NotifsPiper.Frames
import NotifsPiper.Reading

/-! Why a notification of the log is closed, or read. The executed jobs tell it exactly: since
the broadcast that brought it, a close of its id got through, it was acknowledged, or it stood
in the range of a read that was not silent. -/

namespace NotifsPiper.Causes

open Runs

variable {Value : Type}

/-- The executed job was a close of the id, and got through. -/
def Closes (e : LogsManager Value × Task Value) (id : Nid) : Prop :=
  ∃ reason pos ne, e.2.2.cmd = .close id reason ∧
    Close.Passes id reason e.2.1 e.2.2.desc e.1 pos ne

/-- The executed job acknowledged the id, or marked a range in which the id stood. -/
def Reads (e : LogsManager Value × Task Value) (id : Nid) : Prop :=
  e.2.2.cmd = .acknowledge id ∨
    ∃ i, (e.1.logsBuffer.map NotificationEvent.id)[i]? = some id ∧ Frames.Covers e.2.2 i

/-- What the executed job `e` made of the entry `before`, told by its two flags. -/
structure Shown (e : LogsManager Value × Task Value) (before after : NotificationEvent Value) :
    Prop where
  sent : after.sent = before.sent
  closed : after.closed = true ↔ before.closed = true ∨ Closes e before.id
  read : after.read = true ↔ before.read = true ∨ Reads e before.id

theorem Shown.id_eq {e : LogsManager Value × Task Value} {before after : NotificationEvent Value}
    (h : Shown e before after) : after.id = before.id := by
  have hid := congrArg NotificationEvent.id h.sent
  exact hid

theorem shown_same {e : LogsManager Value × Task Value} {ne : NotificationEvent Value}
    (hcloses : ¬ Closes e ne.id) (hreads : ¬ Reads e ne.id) : Shown e ne ne :=
  ⟨rfl, (or_iff_left hcloses).symm, (or_iff_left hreads).symm⟩

section Jobs

variable {platform : Platform Value} {man : LogsManager Value} {env : Env} {jd : JobDesc Value}

theorem not_closes (hcmd : ∀ id reason, jd.cmd ≠ .close id reason) (id : Nid) :
    ¬ Closes (man, env, jd) id := by
  rintro ⟨reason, -, -, hclose, -⟩
  exact hcmd id reason hclose

theorem not_reads (hack : ∀ id, jd.cmd ≠ .acknowledge id)
    (hread : ∀ start stop, jd.cmd ≠ .read start stop) (id : Nid) :
    ¬ Reads (man, env, jd) id := by
  rintro (hcmd | ⟨-, -, -, start, stop, hcmd, -⟩)
  · exact hack id hcmd
  · exact hread start stop hcmd

theorem shown_modify {id : Nid} {pos : Nat}
    {f : NotificationEvent Value → NotificationEvent Value}
    (hids : (man.logsBuffer.map NotificationEvent.id).Nodup) (hpos : man.position id = some pos)
    (hf : ∀ ne, ne.id = id → Shown (man, env, jd) ne (f ne))
    (hother : ∀ ne : NotificationEvent Value, ne.id ≠ id → Shown (man, env, jd) ne ne) :
    List.Forall₂ (Shown (man, env, jd)) man.logsBuffer (man.logsBuffer.modify pos f) := by
  obtain ⟨hlt, hid, -⟩ := LogsManager.position_some.mp hpos
  refine List.forall₂_iff_get.mpr ⟨by simp, fun i hi hi' => ?_⟩
  simp only [List.get_eq_getElem, List.getElem_modify]
  split_ifs with hplace
  · subst hplace
    exact hf _ hid
  · refine hother _ fun hsame => hplace ?_
    have hnodup := List.nodup_iff_injective_getElem.mp hids
    have hfin := @hnodup ⟨pos, by simpa using hlt⟩ ⟨i, by simpa using hi⟩
      (by simpa using hid.trans hsame.symm)
    exact Fin.mk.inj hfin

theorem close_shown {id : Nid} {reason : NotificationClosed} {ex : Executed Value}
    (hcmd : jd.cmd = .close id reason) (hex : Close.execute id reason env jd.desc man = some ex)
    (hids : (man.logsBuffer.map NotificationEvent.id).Nodup) :
    List.Forall₂ (Shown (man, env, jd)) man.logsBuffer ex.manager.logsBuffer := by
  have hreads : ∀ id, ¬ Reads (man, env, jd) id := not_reads (by simp [hcmd]) (by simp [hcmd])
  by_cases hpasses : ∃ pos ne, Close.Passes id reason env jd.desc man pos ne
  · obtain ⟨pos, ne, hpasses⟩ := hpasses
    obtain rfl := Option.some.inj (hex.symm.trans (Close.execute_passes hpasses))
    rw [close_perform_manager]
    refine shown_modify hids hpasses.first (fun ne' hid => ?_) fun ne' hid => ?_
    · have hcloses : Closes (man, env, jd) ne'.id := ⟨reason, pos, ne, hid ▸ hcmd, hid ▸ hpasses⟩
      exact ⟨rfl, iff_of_true rfl (Or.inr hcloses), (or_iff_left (hreads _)).symm⟩
    · refine shown_same ?_ (hreads _)
      rintro ⟨reason', -, -, hclose, -⟩
      exact hid (Job.close.inj (hclose.symm.trans hcmd)).1
  · rcases Close.execute_cases hex with rfl | ⟨pos, ne, hgets, -⟩
    · refine List.forall₂_same.mpr fun ne' _ => shown_same ?_ (hreads _)
      rintro ⟨reason', pos, ne, hclose, hgets⟩
      obtain ⟨hid, rfl⟩ := Job.close.inj (hclose.symm.trans hcmd)
      exact hpasses ⟨pos, ne, hid ▸ hgets⟩
    · exact absurd ⟨pos, ne, hgets⟩ hpasses

theorem acknowledge_shown {id : Nid} (hcmd : jd.cmd = .acknowledge id)
    (hids : (man.logsBuffer.map NotificationEvent.id).Nodup) :
    List.Forall₂ (Shown (man, env, jd)) man.logsBuffer (man.readNotification id).logsBuffer := by
  have hcloses : ∀ id, ¬ Closes (man, env, jd) id := not_closes (by simp [hcmd])
  have hother : ∀ ne : NotificationEvent Value, ne.id ≠ id → Shown (man, env, jd) ne ne := by
    intro ne hne
    refine shown_same (hcloses _) ?_
    rintro (hack | ⟨i, -, -, start, stop, hread, -⟩)
    · exact hne (Job.acknowledge.inj (hack.symm.trans hcmd))
    · rw [hcmd] at hread
      cases hread
  unfold LogsManager.readNotification
  split
  next hpos =>
    exact List.forall₂_same.mpr fun ne hne => hother ne (LogsManager.position_none.mp hpos ne hne)
  next pos hpos =>
    refine shown_modify hids hpos (fun ne hid => ?_) hother
    have hreads : Reads (man, env, jd) ne.id := Or.inl (hid ▸ hcmd)
    exact ⟨rfl, (or_iff_left (hcloses _)).symm, iff_of_true rfl (Or.inr hreads)⟩

theorem reads_iff_covers (hids : (man.logsBuffer.map NotificationEvent.id).Nodup)
    (hack : ∀ id, jd.cmd ≠ .acknowledge id) {i : Nat} (hi : i < man.logsBuffer.length) :
    Reads (man, env, jd) man.logsBuffer[i].id ↔ Frames.Covers jd i := by
  have hplace : (man.logsBuffer.map NotificationEvent.id)[i]? = some man.logsBuffer[i].id := by
    simp [hi]
  constructor
  · rintro (hcmd | ⟨j, hj, hcovers⟩)
    · exact absurd hcmd (hack _)
    · have hsame : i = j :=
        (List.getElem?_inj (by simpa using hi) hids).mp (hplace.trans hj.symm)
      rwa [hsame]
  · exact fun hcovers => Or.inr ⟨i, hplace, hcovers⟩

theorem read_shown {start stop : LogCountType} {man' : LogsManager Value}
    {slice : List (NotificationEvent Value)} (hcmd : jd.cmd = .read start stop)
    (hread : man.readLogs start stop (!Flags.silent.is jd.desc.flags) = some (slice, man'))
    (hids : (man.logsBuffer.map NotificationEvent.id).Nodup) :
    List.Forall₂ (Shown (man, env, jd)) man.logsBuffer man'.logsBuffer := by
  have hcloses : ∀ id, ¬ Closes (man, env, jd) id := not_closes (by simp [hcmd])
  have hordered : ¬ min man.logsBuffer.length stop.toNat < min man.logsBuffer.length start.toNat := by
    rw [← man.readLogs_none_iff start stop (!Flags.silent.is jd.desc.flags), hread]
    exact Option.some_ne_none _
  obtain ⟨man'', hlog, heq⟩ := Reading.readLogs_eq man start stop
    (!Flags.silent.is jd.desc.flags) (Nat.le_of_not_lt hordered)
  obtain ⟨-, rfl⟩ := Prod.mk.inj (Option.some.inj (hread.symm.trans heq))
  have hcovers : ∀ i, Frames.Covers jd i ↔
      Flags.silent.is jd.desc.flags = false ∧ start.toNat ≤ i ∧ i < stop.toNat := by
    intro i
    simp [Frames.Covers, hcmd]
  have hreads : ∀ i, (hi : i < man.logsBuffer.length) →
      (Reads (man, env, jd) man.logsBuffer[i].id ↔
        Flags.silent.is jd.desc.flags = false ∧ start.toNat ≤ i ∧ i < stop.toNat) :=
    fun i hi => (reads_iff_covers hids (by simp [hcmd]) hi).trans (hcovers i)
  cases hsilent : Flags.silent.is jd.desc.flags with
  | true =>
    rw [hlog, hsilent]
    refine List.forall₂_iff_get.mpr ⟨rfl, fun i hi _ => shown_same (hcloses _) ?_⟩
    rw [List.get_eq_getElem, hreads i hi]
    simp [hsilent]
  | false =>
    have hmarked : man'.logsBuffer =
        Reading.markRange man.logsBuffer start.toNat stop.toNat := by
      rw [hlog, hsilent]
      rfl
    rw [hmarked]
    refine List.forall₂_iff_get.mpr ⟨by simp [Reading.markRange], fun i hi hi' => ?_⟩
    have hread := hreads i hi
    rw [hsilent] at hread
    simp only [List.get_eq_getElem, Reading.markRange, List.getElem_mapIdx]
    split_ifs with hin
    · refine ⟨rfl, (or_iff_left (hcloses _)).symm, iff_of_true rfl (Or.inr ?_)⟩
      exact hread.mpr ⟨rfl, hin⟩
    · exact shown_same (hcloses _) fun h => hin (hread.mp h).2

theorem execute_shown {ex : Executed Value} (h : Job.execute platform env jd man = some ex)
    (hids : (man.logsBuffer.map NotificationEvent.id).Nodup)
    (hcmd : ∀ event, jd.cmd ≠ .broadcast event) :
    List.Forall₂ (Shown (man, env, jd)) man.logsBuffer ex.manager.logsBuffer := by
  have hquiet : (∀ id reason, jd.cmd ≠ .close id reason) → (∀ id, jd.cmd ≠ .acknowledge id) →
      (∀ start stop, jd.cmd ≠ .read start stop) → ex.manager = man →
      List.Forall₂ (Shown (man, env, jd)) man.logsBuffer ex.manager.logsBuffer := by
    intro hclose hack hread hman
    rw [hman]
    exact List.forall₂_same.mpr fun ne _ =>
      shown_same (not_closes hclose ne.id) (not_reads hack hread ne.id)
  unfold Job.execute at h
  split at h
  next event heq => exact absurd heq (hcmd event)
  next id reason heq => exact close_shown heq h hids
  next start stop heq =>
    obtain ⟨slice, man', hread, rfl⟩ := Read.execute_some h
    exact read_shown heq hread hids
  next id heq =>
    cases h
    exact hquiet (by simp [heq]) (by simp [heq]) (by simp [heq]) rfl
  next heq =>
    cases h
    exact hquiet (by simp [heq]) (by simp [heq]) (by simp [heq]) rfl
  next id actionKey heq =>
    cases h
    exact hquiet (by simp [heq]) (by simp [heq]) (by simp [heq]) (signalExecute_manager ..)
  next id token heq =>
    cases h
    exact hquiet (by simp [heq]) (by simp [heq]) (by simp [heq]) (signalExecute_manager ..)
  next id heq =>
    cases h
    exact acknowledge_shown heq hids

end Jobs

/-- The notification `event` came into the log, and the jobs `later` were done since: it was in
the log from the start, or a broadcast brought it. -/
def Entered (man : LogsManager Value) (executed : List (LogsManager Value × Task Value))
    (event : NotificationEvent Value) (later : List (LogsManager Value × Task Value)) : Prop :=
  executed = later ∧ event ∈ man.logsBuffer ∨
    ∃ earlier man' env desc, executed = earlier ++ (man', env, ⟨.broadcast event, desc⟩) :: later

/-- The entry `ne` is the notification `event` with the flags that the jobs `later`, which were
done since it came and broadcast nothing else with its id, have set. -/
structure Explained (man : LogsManager Value)
    (executed : List (LogsManager Value × Task Value)) (ne event : NotificationEvent Value)
    (later : List (LogsManager Value × Task Value)) : Prop where
  entered : Entered man executed event later
  latest : ∀ e ∈ later, ∀ other, e.2.2.cmd = .broadcast other → other.id ≠ ne.id
  sent : ne.sent = event.sent
  closed : ne.closed = true ↔ event.closed = true ∨ ∃ e ∈ later, Closes e ne.id
  read : ne.read = true ↔ event.read = true ∨ ∃ e ∈ later, Reads e ne.id

def Told (man : LogsManager Value) (d : Daemon Value) : Prop :=
  ∀ ne ∈ d.manager.logsBuffer, ∃ event later, Explained man d.executed ne event later

section Steps

variable {platform : Platform Value} {man : LogsManager Value} {d d' : Daemon Value}
  {executed : List (LogsManager Value × Task Value)}

theorem explained_broadcast (man' : LogsManager Value) (env : Env) {jd : JobDesc Value}
    {event : NotificationEvent Value} (hcmd : jd.cmd = .broadcast event) :
    Explained man (executed ++ [(man', env, jd)]) event event [] := by
  obtain ⟨cmd, desc⟩ := jd
  obtain rfl : cmd = .broadcast event := hcmd
  exact ⟨Or.inr ⟨executed, man', env, desc, rfl⟩, by simp, rfl, by simp, by simp⟩

theorem Explained.next {before after event : NotificationEvent Value}
    {later : List (LogsManager Value × Task Value)} {e : LogsManager Value × Task Value}
    (h : Explained man executed before event later) (hshown : Shown e before after)
    (hother : ∀ other, e.2.2.cmd = .broadcast other → other.id ≠ after.id) :
    Explained man (executed ++ [e]) after event (later ++ [e]) := by
  have hid := hshown.id_eq
  refine ⟨?_, ?_, hshown.sent.trans h.sent, ?_, ?_⟩
  · rcases h.entered with ⟨rfl, hmem⟩ | ⟨earlier, man', env, desc, rfl⟩
    · exact Or.inl ⟨rfl, hmem⟩
    · exact Or.inr ⟨earlier, man', env, desc, by rw [List.append_assoc, List.cons_append]⟩
  · intro e' he'
    rcases List.mem_append.mp he' with he' | he'
    · rw [hid]
      exact h.latest e' he'
    · rw [List.mem_singleton.mp he']
      exact hother
  · rw [hshown.closed, h.closed, hid]
    simp [or_and_right, exists_or, or_assoc]
  · rw [hshown.read, h.read, hid]
    simp [or_and_right, exists_or, or_assoc]

theorem execute_told {env : Env} {jd : JobDesc Value}
    (hexec : Daemon.Executes platform d env jd d') (hbefore : Identity.DistinctIds d)
    (hafter : Identity.DistinctIds d') (hd : Told man d) : Told man d' := by
  obtain ⟨ex, hex, hlog, -⟩ := hexec.done
  intro ne hne
  rw [hexec.executed]
  by_cases hbroadcast : ∃ event, jd.cmd = .broadcast event
  · obtain ⟨event, hcmd⟩ := hbroadcast
    obtain ⟨rest, hnew, hkept⟩ := Job.broadcast_log hex hcmd
    rw [← hlog] at hnew
    rw [Identity.DistinctIds, hnew, List.map_cons, List.nodup_cons] at hafter
    rw [hnew] at hne
    rcases List.mem_cons.mp hne with rfl | hrest
    · exact ⟨ne, [], explained_broadcast d.manager env hcmd⟩
    · have hold := hkept hrest
      obtain ⟨origin, later, hexplained⟩ := hd ne hold
      refine ⟨origin, later ++ [(d.manager, env, jd)], hexplained.next (shown_same
        (not_closes (by simp [hcmd]) _) (not_reads (by simp [hcmd]) (by simp [hcmd]) _)) ?_⟩
      intro other hother hsame
      obtain rfl := Job.broadcast.inj (hcmd.symm.trans hother)
      exact hafter.1 (List.mem_map.mpr ⟨ne, hrest, hsame.symm⟩)
  · have hcmd : ∀ event, jd.cmd ≠ .broadcast event := fun event h => hbroadcast ⟨event, h⟩
    have hshown := execute_shown hex hbefore hcmd
    rw [← hlog] at hshown
    obtain ⟨i, hi, rfl⟩ := List.getElem_of_mem hne
    obtain ⟨hlen, hplaces⟩ := List.forall₂_iff_get.mp hshown
    obtain ⟨origin, later, hexplained⟩ :=
      hd d.manager.logsBuffer[i] (List.getElem_mem (by omega))
    exact ⟨origin, later ++ [(d.manager, env, jd)], hexplained.next (hplaces i (by omega) hi)
      fun other h => absurd h (hcmd other)⟩

theorem step_told {l : Label Value} (h : d.step platform l = some d')
    (hbefore : Identity.DistinctIds d) (hafter : Identity.DistinctIds d') (hd : Told man d) :
    Told man d' := by
  rcases Daemon.step_manager h with ⟨hman, hexecuted⟩ | ⟨env, disk, jd, -, hexec⟩
  · rwa [Told, hman, hexecuted]
  · exact execute_told hexec hbefore hafter hd

end Steps

/-- In every run that keeps the ids of the log distinct, the flags of the log tell exactly what
was done: a notification is closed if it came closed or a close of its id got through since, and
read if it came read or was acknowledged or returned by a read that was not silent since; and it
is the last that was broadcast with its id. -/
theorem flags_tell_jobs (platform : Platform Value) (man : LogsManager Value)
    (logsFile : Option (List UInt8)) (labels : List (Label Value)) (d : Daemon Value)
    (hrun : run (Daemon.step platform) (Daemon.start man logsFile) labels = some d)
    (hdistinct : Always (Daemon.step platform) Identity.DistinctIds (Daemon.start man logsFile)
      labels) :
    ∀ ne ∈ d.manager.logsBuffer, ∃ event later, Explained man d.executed ne event later := by
  have hstart : Told man (Daemon.start man logsFile) := fun ne hne =>
    ⟨ne, [], Or.inl ⟨rfl, hne⟩, by simp, rfl, by simp, by simp⟩
  have hstep : ∀ (s : Daemon Value) l s', Identity.DistinctIds s → Identity.DistinctIds s' →
      Told man s → s.step platform l = some s' → Told man s' :=
    fun s l s' hbefore hafter hs hstep => step_told hstep hbefore hafter hs
  exact hdistinct.carries hstep hrun hstart

def closed : List (Label Unit) :=
  Identity.notified 0 ++ [.closeNotification 1, .busSend, .recv, .pop,
    .execute ⟨some ⟨0, 0⟩, 0, .ok (), true, true⟩ (.ok ())]

theorem flags_tell_jobs_closed :
    ∃ d ne event later,
      run (Daemon.step Platform.bare) (Daemon.start (.empty 10) none) closed = some d ∧
        ne ∈ d.manager.logsBuffer ∧ Explained (.empty 10) d.executed ne event later := by
  have hids : Always (Daemon.step Platform.bare)
      (fun t => (t.manager.logsBuffer.map NotificationEvent.id).Nodup)
      (Daemon.start (.empty 10) none) closed := by decide +kernel
  have hlen : (run (Daemon.step Platform.bare) (Daemon.start (.empty 10) none) closed).map
      (fun d => d.manager.logsBuffer.length) = some 1 := by decide +kernel
  obtain ⟨d, hd, hlen⟩ := Option.map_eq_some_iff.mp hlen
  obtain ⟨ne, hne⟩ := List.exists_mem_of_length_pos (l := d.manager.logsBuffer) (by omega)
  obtain ⟨event, later, hexplained⟩ :=
    flags_tell_jobs Platform.bare (.empty 10) none closed d hd hids ne hne
  exact ⟨d, ne, event, later, hd, hne, hexplained⟩

end NotifsPiper.Causes

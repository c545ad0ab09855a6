import NotifsPiper.Watchers

/-! What the watchers get of the results with the pid 0. The records are read against the order in
which the tasks had the lock: who was registered and not yet removed is to get a result once. -/

namespace NotifsPiper

open Runs

def Event.stream : Event → Conn
  | .registered stream .. => stream
  | .handled result _ => result.stream

def Event.pid : Event → Option Pid
  | .registered _ pid _ => some pid
  | .handled .. => none

def Waiting.stream : Waiting → Conn
  | .registering stream .. => stream
  | .broadcasting result => result.stream

def Waiting.pid : Waiting → Option Pid
  | .registering _ pid _ => some pid
  | .broadcasting _ => none

def Holder.stream : Holder → Option Conn
  | .writing loop => some loop.result.stream
  | .acknowledging _ => none

structure Named (history : List Event) : Prop where
  streams : (history.map Event.stream).Nodup
  pids : (history.filterMap Event.pid).Nodup

def Watching (history : List Event) (e : Watcher) : Prop :=
  ∃ before after, history = before ++ .registered e.stream e.1 e.2.2 :: after ∧
    ∀ result old, .handled result old ∈ after → e.1 ∉ old

/-- A result is handled while the process is registered. -/
def Handled (history : List Event) (result : Result) (e : Watcher) : Prop :=
  ∃ before old after, history = before ++ .handled result old :: after ∧ Watching before e

/-! What the order of the tasks says about the map and the records. -/

theorem split_concat {history before after : List Event} {x y : Event} :
    history ++ [x] = before ++ y :: after ↔
      after = [] ∧ history = before ∧ x = y ∨
        ∃ after', after = after' ++ [x] ∧ history = before ++ y :: after' := by
  constructor
  · intro h
    rcases List.eq_nil_or_concat after with rfl | ⟨after', z, rfl⟩
    · left
      have hinj := List.append_inj' h rfl
      exact ⟨rfl, hinj.1, (List.cons.inj hinj.2).1⟩
    · right
      rw [List.concat_eq_append, ← List.cons_append, ← List.append_assoc] at h
      obtain ⟨rfl, hz⟩ := List.append_inj' h rfl
      rw [List.concat_eq_append, (List.cons.inj hz).1]
      exact ⟨after', rfl, rfl⟩
  · rintro (⟨rfl, rfl, rfl⟩ | ⟨after', rfl, rfl⟩)
    · rfl
    · rw [List.append_assoc, List.cons_append]

theorem Named.left {before after : List Event} (h : Named (before ++ after)) : Named before := by
  have hstreams := h.streams
  have hpids := h.pids
  rw [List.map_append] at hstreams
  rw [List.filterMap_append] at hpids
  exact ⟨hstreams.of_append_left, hpids.of_append_left⟩

theorem watching_registered {history : List Event} {e : Watcher} {stream : Conn} {pid : Pid}
    {flags : FlagsRepr} :
    Watching (history ++ [.registered stream pid flags]) e ↔
      e = ⟨pid, (stream, flags)⟩ ∨ Watching history e := by
  constructor
  · rintro ⟨before, after, h, hafter⟩
    rcases split_concat.mp h with ⟨rfl, rfl, heq⟩ | ⟨after', rfl, rfl⟩
    · cases heq
      exact Or.inl rfl
    · refine Or.inr ⟨before, after', rfl, fun result old hmem => hafter result old ?_⟩
      exact List.mem_append_left _ hmem
  · rintro (rfl | ⟨before, after, rfl, hafter⟩)
    · exact ⟨history, [], rfl, fun _ _ hmem => (nomatch hmem)⟩
    · refine ⟨before, after ++ [_], split_concat.mpr (Or.inr ⟨after, rfl, rfl⟩), ?_⟩
      intro result old hmem
      rcases List.mem_append.mp hmem with hmem | hmem
      · exact hafter result old hmem
      · cases List.mem_singleton.mp hmem

theorem watching_handled {history : List Event} {e : Watcher} {result : Result} {old : List Pid} :
    Watching (history ++ [.handled result old]) e ↔ Watching history e ∧ e.1 ∉ old := by
  constructor
  · rintro ⟨before, after, h, hafter⟩
    rcases split_concat.mp h with ⟨-, -, heq⟩ | ⟨after', rfl, rfl⟩
    · cases heq
    · refine ⟨⟨before, after', rfl, fun result old hmem => hafter result old ?_⟩, ?_⟩
      · exact List.mem_append_left _ hmem
      · exact hafter result old (List.mem_append_right _ (List.mem_singleton.mpr rfl))
  · rintro ⟨⟨before, after, rfl, hafter⟩, hold⟩
    refine ⟨before, after ++ [_], split_concat.mpr (Or.inr ⟨after, rfl, rfl⟩), ?_⟩
    intro result' old' hmem
    rcases List.mem_append.mp hmem with hmem | hmem
    · exact hafter result' old' hmem
    · cases List.mem_singleton.mp hmem
      exact hold

theorem Watching.registered {history : List Event} {e : Watcher} (h : Watching history e) :
    .registered e.stream e.1 e.2.2 ∈ history := by
  obtain ⟨before, after, rfl, -⟩ := h
  exact List.mem_append_right _ List.mem_cons_self

theorem mem_insert {lp : AList fun _ : Pid => Conn × FlagsRepr} {e : Watcher} {pid : Pid}
    {val : Conn × FlagsRepr} :
    e ∈ (lp.insert pid val).entries ↔ e = ⟨pid, val⟩ ∨ e ∈ lp.entries ∧ e.1 ≠ pid := by
  rw [AList.entries_insert, List.mem_cons, kerase_filter pid lp.nodupKeys,
    List.mem_filter, decide_eq_true_eq]

theorem mem_replay {history : List Event} (h : Named history) (e : Watcher) :
    e ∈ (Service.replay history).listening.entries ↔ Watching history e := by
  induction history using List.reverseRecOn with
  | nil =>
    refine iff_of_false (List.not_mem_nil) ?_
    rintro ⟨before, after, heq, -⟩
    simp at heq
  | append_singleton history event ih =>
    have ih := ih h.left
    rw [Service.replay_append]
    cases event with
    | registered stream pid flags =>
      have hother : e ∈ (Service.replay history).listening.entries → e.1 ≠ pid := by
        intro hmem heq
        have hregistered := (ih.mp hmem).registered
        have hpids := h.pids
        rw [List.filterMap_append, List.nodup_append] at hpids
        exact hpids.2.2 e.1 (List.mem_filterMap.mpr ⟨_, hregistered, rfl⟩) pid
          List.mem_cons_self heq
      rw [watching_registered, ← ih]
      simp only [List.foldl_cons, List.foldl_nil, Service.serve, mem_insert]
      exact or_congr_right (and_iff_left_of_imp hother)
    | handled result old =>
      rw [watching_handled, ← ih]
      simp only [List.foldl_cons, List.foldl_nil, Service.serve, foldl_erase_entries]
      rw [List.mem_filter, decide_eq_true_eq]

theorem replay_registered {history : List Event} {e : Watcher}
    (h : e ∈ (Service.replay history).listening.entries) :
    .registered e.stream e.1 e.2.2 ∈ history := by
  induction history using List.reverseRecOn with
  | nil => cases h
  | append_singleton history event ih =>
    rw [Service.replay_append] at h
    cases event with
    | registered stream pid flags =>
      rcases mem_insert.mp h with rfl | ⟨h, -⟩
      · exact List.mem_append_right _ List.mem_cons_self
      · exact List.mem_append_left _ (ih h)
    | handled result old =>
      simp only [List.foldl_cons, List.foldl_nil, Service.serve, foldl_erase_entries] at h
      exact List.mem_append_left _ (ih (List.mem_filter.mp h).1)

theorem replay_streams {history : List Event} (h : (history.map Event.stream).Nodup) :
    ((Service.replay history).listening.entries.map Watcher.stream).Nodup := by
  refine List.Nodup.map_on ?_ (Service.replay history).listening.nodupKeys.nodup
  intro e he e' he' heq
  have hsame := List.inj_on_of_nodup_map h (replay_registered he) (replay_registered he') heq
  injection hsame with hstream hpid hflags
  exact Sigma.ext hpid (heq_of_eq (Prod.ext hstream hflags))

theorem Handled.event {history : List Event} {result : Result} {e : Watcher}
    (h : Handled history result e) : ∃ old, .handled result old ∈ history := by
  obtain ⟨before, old, after, rfl, -⟩ := h
  exact ⟨old, List.mem_append_right _ List.mem_cons_self⟩

theorem Handled.mono {history : List Event} {result : Result} {e : Watcher}
    (h : Handled history result e) (x : Event) : Handled (history ++ [x]) result e := by
  obtain ⟨before, old, after, rfl, hwatching⟩ := h
  exact ⟨before, old, after ++ [x], split_concat.mpr (Or.inr ⟨after, rfl, rfl⟩), hwatching⟩

theorem replay_recorded {history : List Event} (h : Named history) {stream : Conn}
    {result : Result} (hmem : (stream, result) ∈ (Service.replay history).delivered ∨
      (stream, result) ∈ (Service.replay history).failed) :
    ∃ e : Watcher, e.stream = stream ∧ Handled history result e := by
  induction history using List.reverseRecOn with
  | nil => exact (List.not_mem_nil (hmem.elim id id)).elim
  | append_singleton history event ih =>
    have hbefore : (stream, result) ∈ (Service.replay history).delivered ∨
        (stream, result) ∈ (Service.replay history).failed →
        ∃ e : Watcher, e.stream = stream ∧ Handled (history ++ [event]) result e := by
      intro hmem
      obtain ⟨e, hstream, hhandled⟩ := ih h.left hmem
      exact ⟨e, hstream, hhandled.mono event⟩
    rw [Service.replay_append] at hmem
    cases event with
    | registered stream' pid flags => exact hbefore hmem
    | handled result' old =>
      have hnew : ∀ e ∈ (Service.replay history).listening.entries,
          Watcher.tag result' e = (stream, result) →
          ∃ e : Watcher, e.stream = stream ∧
            Handled (history ++ [.handled result' old]) result e := by
        intro e he htag
        cases htag
        exact ⟨e, rfl, history, old, [], rfl, (mem_replay h.left e).mp he⟩
      simp only [List.foldl_cons, List.foldl_nil, Service.serve, List.mem_append, List.mem_map]
        at hmem
      rcases hmem with (hmem | ⟨e, he, htag⟩) | (hmem | ⟨e, he, htag⟩)
      · exact hbefore (Or.inl hmem)
      · exact hnew e (List.mem_filter.mp he).1 htag
      · exact hbefore (Or.inr hmem)
      · exact hnew e (List.mem_filter.mp he).1 htag

theorem replay_failed {history : List Event} {stream : Conn} {result : Result}
    (h : (stream, result) ∈ (Service.replay history).failed) :
    ∃ pid flags, .registered stream pid flags ∈ history := by
  induction history using List.reverseRecOn with
  | nil => cases h
  | append_singleton history event ih =>
    have hbefore : (stream, result) ∈ (Service.replay history).failed →
        ∃ pid flags, .registered stream pid flags ∈ history ++ [event] := by
      intro hmem
      obtain ⟨pid, flags, hregistered⟩ := ih hmem
      exact ⟨pid, flags, List.mem_append_left _ hregistered⟩
    rw [Service.replay_append] at h
    cases event with
    | registered stream' pid flags => exact hbefore h
    | handled result' old =>
      rcases List.mem_append.mp h with h | h
      · exact hbefore h
      · obtain ⟨e, he, htag⟩ := List.mem_map.mp h
        cases htag
        have hregistered := replay_registered (List.mem_filter.mp he).1
        exact ⟨e.1, e.2.2, List.mem_append_left _ hregistered⟩

theorem replay_unfailed {history : List Event} (h : (history.map Event.stream).Nodup) {e : Watcher}
    (he : e ∈ (Service.replay history).listening.entries) (result : Result) :
    (e.stream, result) ∉ (Service.replay history).failed := by
  induction history using List.reverseRecOn with
  | nil => cases he
  | append_singleton history event ih =>
    rw [List.map_append, List.nodup_append] at h
    obtain ⟨hstreams, -, happart⟩ := h
    rw [Service.replay_append] at he ⊢
    cases event with
    | registered stream pid flags =>
      intro hfailed
      rcases mem_insert.mp he with rfl | ⟨he, -⟩
      · obtain ⟨pid', flags', hregistered⟩ := replay_failed hfailed
        exact happart _ (List.mem_map_of_mem hregistered) _ List.mem_cons_self rfl
      · exact ih hstreams he hfailed
    | handled result' old =>
      simp only [List.foldl_cons, List.foldl_nil, Service.serve, foldl_erase_entries] at he ⊢
      obtain ⟨he, hold⟩ := List.mem_filter.mp he
      intro hfailed
      rcases List.mem_append.mp hfailed with hfailed | hfailed
      · exact ih hstreams he hfailed
      · obtain ⟨e', he', htag⟩ := List.mem_map.mp hfailed
        obtain ⟨he', hold'⟩ := List.mem_filter.mp he'
        have hstream : e'.stream = e.stream := (Prod.ext_iff.mp htag).1
        have hsame : e' = e := List.inj_on_of_nodup_map (replay_streams hstreams) he' he hstream
        rw [hsame, decide_eq_true_eq] at hold'
        rw [decide_eq_true_eq] at hold
        exact hold hold'

theorem count_tag_other {entries : List Watcher} {stream : Conn} {result other : Result}
    (hne : other ≠ result) : (entries.map (Watcher.tag other)).count (stream, result) = 0 := by
  refine List.count_eq_zero.mpr fun hmem => ?_
  obtain ⟨e, -, htag⟩ := List.mem_map.mp hmem
  exact hne (congrArg Prod.snd htag)

theorem nodup_tag {entries : List Watcher} (h : (entries.map Watcher.stream).Nodup)
    (result : Result) : (entries.map (Watcher.tag result)).Nodup := by
  have hmap : entries.map (Watcher.tag result) =
      (entries.map Watcher.stream).map fun stream => (stream, result) := by
    rw [List.map_map]
    rfl
  rw [hmap]
  exact h.map fun _ _ heq => congrArg Prod.fst heq

theorem serve_count {s : Service} {event : Event} {result : Result}
    (hne : ∀ old, event ≠ .handled result old) (stream : Conn) :
    (s.serve event).delivered.count (stream, result) = s.delivered.count (stream, result) ∧
      (s.serve event).failed.count (stream, result) = s.failed.count (stream, result) := by
  cases event with
  | registered stream' pid flags => exact ⟨rfl, rfl⟩
  | handled other old =>
    have hother : other ≠ result := by
      rintro rfl
      exact hne old rfl
    simp [Service.serve, count_tag_other hother]

theorem Named.handled_once {before after : List Event} {result : Result} {old : List Pid}
    (h : Named (before ++ .handled result old :: after)) (old' : List Pid) :
    .handled result old' ∉ before ∧ .handled result old' ∉ after := by
  have hstreams := h.streams
  rw [List.map_append, List.map_cons, List.nodup_append, List.nodup_cons] at hstreams
  obtain ⟨-, ⟨hlater, -⟩, hearlier⟩ := hstreams
  constructor
  · intro hmem
    exact hearlier _ (List.mem_map_of_mem hmem) _ List.mem_cons_self rfl
  · intro hmem
    have hstream : result.stream ∈ after.map Event.stream := List.mem_map.mpr ⟨_, hmem, rfl⟩
    exact hlater hstream

theorem replay_unhandled {history : List Event} (h : Named history) {result : Result}
    (hnone : ∀ old, .handled result old ∉ history) (stream : Conn) :
    (Service.replay history).delivered.count (stream, result) = 0 ∧
      (Service.replay history).failed.count (stream, result) = 0 := by
  have hno : ¬ ((stream, result) ∈ (Service.replay history).delivered ∨
      (stream, result) ∈ (Service.replay history).failed) := by
    intro hmem
    obtain ⟨e, -, hhandled⟩ := replay_recorded h hmem
    obtain ⟨old, hevent⟩ := hhandled.event
    exact hnone old hevent
  rw [not_or] at hno
  exact ⟨List.count_eq_zero.mpr hno.1, List.count_eq_zero.mpr hno.2⟩

theorem replay_once {history : List Event} (h : Named history) {result : Result} {e : Watcher}
    (hhandled : Handled history result e) :
    (Service.replay history).delivered.count (e.stream, result) +
      (Service.replay history).failed.count (e.stream, result) = 1 := by
  obtain ⟨before, old, after, rfl, hwatching⟩ := hhandled
  induction after using List.reverseRecOn with
  | nil =>
    obtain ⟨hdelivered, hfailed⟩ :=
      replay_unhandled h.left (fun old' => (h.handled_once old').1) e.stream
    have hall := List.filter_append_perm (fun e' : Watcher => decide (e'.1 ∉ old))
      (Service.replay before).listening.entries
    have hsplit := (hall.map (Watcher.tag result)).count_eq (e.stream, result)
    have hone : ((Service.replay before).listening.entries.map (Watcher.tag result)).count
        (e.stream, result) = 1 := by
      refine List.count_eq_one_of_mem (nodup_tag (replay_streams h.left.streams) result) ?_
      exact List.mem_map.mpr ⟨e, (mem_replay h.left e).mpr hwatching, rfl⟩
    rw [List.map_append, List.count_append, hone] at hsplit
    rw [Service.replay_append]
    simp only [List.foldl_cons, List.foldl_nil, Service.serve, List.count_append, hdelivered,
      hfailed, Nat.zero_add]
    simpa using hsplit
  | append_singleton after x ih =>
    have hother : ∀ old', x ≠ .handled result old' := by
      rintro old' rfl
      exact (h.handled_once old').2 (List.mem_append_right _ List.mem_cons_self)
    rw [← List.cons_append, ← List.append_assoc] at h ⊢
    rw [Service.replay_append]
    obtain ⟨hdelivered, hfailed⟩ := serve_count
      (s := Service.replay (before ++ .handled result old :: after)) hother e.stream
    simp only [List.foldl_cons, List.foldl_nil, hdelivered, hfailed]
    exact ih h.left

theorem replay_never_twice {history : List Event} (h : Named history) (stream : Conn)
    (result : Result) : (Service.replay history).delivered.count (stream, result) ≤ 1 := by
  by_cases hmem : (stream, result) ∈ (Service.replay history).delivered
  · obtain ⟨e, rfl, hhandled⟩ := replay_recorded h (Or.inl hmem)
    have honce := replay_once h hhandled
    omega
  · rw [List.count_eq_zero.mpr hmem]
    exact Nat.zero_le 1

theorem replay_removed {history : List Event} (h : Named history) {e : Watcher}
    (hregistered : .registered e.stream e.1 e.2.2 ∈ history)
    (hgone : e ∉ (Service.replay history).listening.entries) :
    ∃ result, (e.stream, result) ∈ (Service.replay history).failed := by
  induction history using List.reverseRecOn with
  | nil => cases hregistered
  | append_singleton history event ih =>
    have hbefore : ¬ Watching history e → .registered e.stream e.1 e.2.2 ∈ history →
        ∃ result, (e.stream, result) ∈ (Service.replay history).failed := fun hnot hmem =>
      ih h.left hmem ((mem_replay h.left e).not.mpr hnot)
    rw [mem_replay h] at hgone
    rw [Service.replay_append]
    cases event with
    | registered stream pid flags =>
      rw [watching_registered, not_or] at hgone
      rcases List.mem_append.mp hregistered with hmem | hmem
      · exact hbefore hgone.2 hmem
      · cases List.mem_singleton.mp hmem
        exact absurd rfl hgone.1
    | handled result old =>
      rw [watching_handled, not_and_not_right] at hgone
      rcases List.mem_append.mp hregistered with hmem | hmem
      · by_cases hwatching : Watching history e
        · refine ⟨result, List.mem_append_right _ (List.mem_map.mpr ⟨e, ?_, rfl⟩)⟩
          rw [List.mem_filter, decide_eq_true_eq]
          exact ⟨(mem_replay h.left e).mpr hwatching, hgone hwatching⟩
        · obtain ⟨result', hfailed⟩ := hbefore hwatching hmem
          exact ⟨result', List.mem_append_left _ hfailed⟩
      · cases List.mem_singleton.mp hmem

/-- The bytes of the result as it is sent to a watcher. -/
def Result.encoded (result : Result) : List UInt8 :=
  Utf8.utf8 (⟨.outgoing 0, result.data⟩ : Transmission).toStr

namespace Watchers

/-- The results whose writes to the stream completed. -/
def received (w : Watchers) (stream : Conn) : List Result :=
  (w.delivered.filter fun write => write.1 = stream).map Prod.snd

/-- The result that is being written to the stream, with what is left of it. -/
def writing (w : Watchers) (stream : Conn) : Option (Result × List UInt8) :=
  match w.lock with
  | some (.writing loop) => loop.current.bind fun current =>
      if current.1.stream = stream then some (loop.result, current.2) else none
  | _ => none

/-- What a stream has of a result whose write has not completed: what is missing of it is still to
be written, or the write has failed. -/
inductive Unfinished (w : Watchers) (stream : Conn) : List UInt8 → Prop
  | none (hidle : w.writing stream = none) : Unfinished w stream []
  | writing {result : Result} {tail left : List UInt8}
      (hwriting : w.writing stream = some (result, left))
      (hbytes : tail ++ left = result.encoded) : Unfinished w stream tail
  | failed {result : Result} {tail : List UInt8} (hfailed : (stream, result) ∈ w.failed)
      (hpart : tail <+: result.encoded) : Unfinished w stream tail

/-- The socket has taken the results one after the other, byte by byte as they are sent. -/
def Carried (w : Watchers) (stream : Conn) : Prop :=
  ∃ tail, w.taken stream = (w.received stream).flatMap Result.encoded ++ tail ∧
    Unfinished w stream tail

/-- Each watcher registered when a result is handled gets it once, unless the write to that
watcher fails; nobody else gets it, nobody twice; what its socket takes are the bytes of these
results, whole and in the order of their writes; and only who could not be written to is removed.
The number in the debug message is never negative. -/
structure Faithful (w : Watchers) : Prop where
  once : ∀ result e, Handled w.history result e →
    w.delivered.count (e.stream, result) + w.failed.count (e.stream, result) = 1
  only : ∀ stream result, (stream, result) ∈ w.delivered ∨ (stream, result) ∈ w.failed →
    ∃ e : Watcher, e.stream = stream ∧ (Handled w.history result e ∨
      ∃ loop, w.lock = some (.writing loop) ∧ loop.result = result ∧ Watching w.history e)
  watched : ∀ loop e left, w.lock = some (.writing loop) → loop.current = some (e, left) →
    Watching w.history e
  carried : ∀ stream, Carried w stream
  never_twice : ∀ stream result, w.delivered.count (stream, result) ≤ 1
  removed : ∀ stream pid flags, .registered stream pid flags ∈ w.history →
    ⟨pid, (stream, flags)⟩ ∉ w.listeningProcesses.entries →
    ∃ result, (stream, result) ∈ w.failed
  left : ∀ loop, w.lock = some (.writing loop) → loop.old.length ≤ loop.prevl

def pids (w : Watchers) : List Pid :=
  w.history.filterMap Event.pid ++ w.queue.filterMap Waiting.pid

def streams (w : Watchers) : List Conn :=
  w.history.map Event.stream ++ (w.lock.bind Holder.stream).toList ++ w.queue.map Waiting.stream

/-- A process that comes to watch has a pid of its own. -/
def FreshPid (w : Watchers) : Move → Prop
  | .watch pid _ => pid ∉ w.pids
  | _ => True

instance decidableFreshPid (w : Watchers) : ∀ m, Decidable (FreshPid w m)
  | .watch pid _ => inferInstanceAs (Decidable (pid ∉ w.pids))
  | .transmit _ | .drain .. | .close _ | .register | .lock | .next _ | .tryWrite _ | .finish
  | .acknowledge => isTrue trivial

/-! Names. -/

structure Numbered (w : Watchers) : Prop where
  streams : w.streams.Nodup
  accepted : ∀ stream ∈ w.streams, stream < w.accepted

structure Distinct (w : Watchers) : Prop where
  numbered : Numbered w
  pids : w.pids.Nodup

theorem Numbered.named {w : Watchers} (h : Numbered w) : (w.history.map Event.stream).Nodup := by
  have hstreams := h.streams
  rw [Watchers.streams, List.append_assoc] at hstreams
  exact hstreams.of_append_left

theorem Distinct.named {w : Watchers} (h : Distinct w) : Named w.history := by
  have hpids := h.pids
  rw [Watchers.pids] at hpids
  exact ⟨h.numbered.named, hpids.of_append_left⟩

theorem start_numbered (sockets : Conn → Socket) : Numbered (start sockets) :=
  ⟨List.nodup_nil, fun _ h => (nomatch h)⟩

theorem step_streams {w w' : Watchers} {m : Move} (h : w.step m = some w') :
    w'.streams = w.streams ∧ w'.accepted = w.accepted ∨
      w'.streams = w.streams ++ [w.accepted] ∧ w'.accepted = w.accepted + 1 := by
  cases step_moves h with
  | watch pid flags => exact Or.inr ⟨by simp [streams, Waiting.stream], rfl⟩
  | transmit data => exact Or.inr ⟨by simp [streams, Waiting.stream], rfl⟩
  | drain stream n => exact Or.inl ⟨rfl, rfl⟩
  | close stream => exact Or.inl ⟨rfl, rfl⟩
  | register hlock hqueue =>
    exact Or.inl ⟨by simp [streams, hlock, hqueue, Event.stream, Waiting.stream], rfl⟩
  | lock hlock hqueue =>
    exact Or.inl ⟨by simp [streams, hlock, hqueue, Holder.stream, Loop.begin, Waiting.stream], rfl⟩
  | next hlock hcurrent he => exact Or.inl ⟨by simp [streams, hlock, Holder.stream], rfl⟩
  | blocked hlock hcurrent hbuf hfull => exact Or.inl ⟨rfl, rfl⟩
  | broken hlock hcurrent hclosed => exact Or.inl ⟨by simp [streams, hlock, Holder.stream], rfl⟩
  | written hlock hcurrent => exact Or.inl ⟨by simp [streams, hlock, Holder.stream], rfl⟩
  | taken hlock hcurrent hbuf hn hroom hlen =>
    exact Or.inl ⟨by simp [streams, take, setSocket, hlock, Holder.stream], rfl⟩
  | @finish loop hlock hrest hcurrent =>
    have hgiven : (loop.text.map Holder.acknowledging).bind Holder.stream = none := by
      cases loop.text <;> rfl
    exact Or.inl ⟨by simp [streams, hlock, hgiven, Holder.stream, Event.stream], rfl⟩
  | acknowledge hlock => exact Or.inl ⟨by simp [streams, hlock, Holder.stream], rfl⟩

theorem step_numbered {w w' : Watchers} {m : Move} (hw : Numbered w) (h : w.step m = some w') :
    Numbered w' := by
  rcases step_streams h with ⟨hstreams, haccepted⟩ | ⟨hstreams, haccepted⟩
  · exact ⟨hstreams ▸ hw.streams, by rw [hstreams, haccepted]; exact hw.accepted⟩
  · refine ⟨?_, ?_⟩
    · rw [hstreams, ← List.concat_eq_append]
      refine hw.streams.concat fun hmem => ?_
      exact Nat.lt_irrefl _ (hw.accepted _ hmem)
    · rw [hstreams, haccepted]
      intro stream hmem
      rcases List.mem_append.mp hmem with hmem | hmem
      · exact Nat.lt_succ_of_lt (hw.accepted stream hmem)
      · rw [List.mem_singleton.mp hmem]
        exact Nat.lt_succ_self _

theorem step_pids {w w' : Watchers} {m : Move} (hfresh : FreshPid w m) (h : w.step m = some w') :
    w'.pids = w.pids ∨ ∃ pid ∉ w.pids, w'.pids = w.pids ++ [pid] := by
  cases step_moves h with
  | watch pid flags => exact Or.inr ⟨pid, hfresh, by simp [pids, Waiting.pid]⟩
  | transmit data => exact Or.inl (by simp [pids, Waiting.pid])
  | register hlock hqueue => exact Or.inl (by simp [pids, hqueue, Event.pid, Waiting.pid])
  | lock hlock hqueue =>
    left
    rw [pids, pids, hqueue]
    rfl
  | finish hlock hrest hcurrent => exact Or.inl (by simp [pids, Event.pid])
  | _ => exact Or.inl rfl

theorem step_distinct {w w' : Watchers} {m : Move} (hw : Distinct w) (hfresh : FreshPid w m)
    (h : w.step m = some w') : Distinct w' := by
  refine ⟨step_numbered hw.numbered h, ?_⟩
  rcases step_pids hfresh h with hpids | ⟨pid, hpid, hpids⟩
  · rw [hpids]
    exact hw.pids
  · rw [hpids, ← List.concat_eq_append]
    exact hw.pids.concat hpid

theorem Matches.standing {w : Watchers} (hw : Matches w) :
    ∃ result, ∃ written gone rest : List Watcher,
      Standing w.history w.listeningProcesses w.delivered w.failed
        (written.map (Watcher.tag result)) (gone.map (Watcher.tag result)) ∧
      (written ++ (gone ++ rest)).Perm w.listeningProcesses.entries ∧
      (written = [] ∧ gone = [] ∨
        ∃ loop, w.lock = some (.writing loop) ∧ loop.result = result) := by
  by_cases hlock : ∃ loop, w.lock = some (.writing loop)
  · obtain ⟨loop, hlock⟩ := hlock
    obtain ⟨written, gone, hhalf, hstanding⟩ := hw.writing hlock
    have hsplit := hhalf.split
    rw [List.append_assoc, List.append_assoc] at hsplit
    exact ⟨loop.result, written, gone, _, hstanding, hsplit, Or.inr ⟨loop, hlock, rfl⟩⟩
  · have hstanding := hw.resting (fun loop h => hlock ⟨loop, h⟩)
    exact ⟨⟨0, ""⟩, [], [], _, hstanding, List.Perm.refl _, Or.inl ⟨rfl, rfl⟩⟩

theorem Numbered.unhandled {w : Watchers} (h : Numbered w) {loop : Loop}
    (hlock : w.lock = some (.writing loop)) (old : List Pid) :
    .handled loop.result old ∉ w.history := by
  intro hmem
  have hstreams := h.streams
  rw [Watchers.streams, List.append_assoc, List.nodup_append] at hstreams
  refine hstreams.2.2 loop.result.stream (List.mem_map.mpr ⟨_, hmem, rfl⟩) loop.result.stream ?_ rfl
  simp [hlock, Holder.stream]

theorem Numbered.apart {w : Watchers} (h : Numbered w) {current : Result} {entries : List Watcher}
    (hloop : entries = [] ∨ ∃ loop, w.lock = some (.writing loop) ∧ loop.result = current)
    {result : Result} {e : Watcher} (hhandled : Handled w.history result e) (stream : Conn) :
    (entries.map (Watcher.tag current)).count (stream, result) = 0 := by
  rcases hloop with rfl | ⟨loop, hlock, rfl⟩
  · rfl
  · refine count_tag_other ?_
    rintro rfl
    obtain ⟨old, hevent⟩ := hhandled.event
    exact h.unhandled hlock old hevent

theorem Matches.once {w : Watchers} (hw : Matches w) (hdistinct : Distinct w) {result : Result}
    {e : Watcher} (hhandled : Handled w.history result e) :
    w.delivered.count (e.stream, result) + w.failed.count (e.stream, result) = 1 := by
  obtain ⟨current, written, gone, rest, hstanding, -, hloop⟩ := hw.standing
  have hwritten := hdistinct.numbered.apart (hloop.imp_left And.left) hhandled e.stream
  have hgone := hdistinct.numbered.apart (hloop.imp_left And.right) hhandled e.stream
  rw [hstanding.delivered.count_eq, hstanding.failed.count_eq, List.count_append,
    List.count_append, hwritten, hgone]
  exact replay_once hdistinct.named hhandled

theorem Matches.only {w : Watchers} (hw : Matches w) (hnamed : Named w.history) {stream : Conn}
    {result : Result} (hmem : (stream, result) ∈ w.delivered ∨ (stream, result) ∈ w.failed) :
    ∃ e : Watcher, e.stream = stream ∧ (Handled w.history result e ∨
      ∃ loop, w.lock = some (.writing loop) ∧ loop.result = result ∧ Watching w.history e) := by
  obtain ⟨current, written, gone, rest, hstanding, hsplit, hloop⟩ := hw.standing
  have hrunning : ∀ entries : List Watcher, (∀ e ∈ entries, e ∈ w.listeningProcesses.entries) →
      (entries = [] ∨ ∃ loop, w.lock = some (.writing loop) ∧ loop.result = current) →
      (stream, result) ∈ entries.map (Watcher.tag current) →
      ∃ e : Watcher, e.stream = stream ∧ (Handled w.history result e ∨
        ∃ loop, w.lock = some (.writing loop) ∧ loop.result = result ∧ Watching w.history e) := by
    rintro entries hlisted hentries hmem
    obtain ⟨e, he, htag⟩ := List.mem_map.mp hmem
    cases htag
    rcases hentries with rfl | ⟨loop, hlock, rfl⟩
    · cases he
    · have hwatching : Watching w.history e := by
        rw [← mem_replay hnamed, ← hstanding.listening]
        exact hlisted e he
      exact ⟨e, rfl, Or.inr ⟨loop, hlock, rfl, hwatching⟩⟩
  have hrecorded : (stream, result) ∈ (Service.replay w.history).delivered ∨
      (stream, result) ∈ (Service.replay w.history).failed →
      ∃ e : Watcher, e.stream = stream ∧ (Handled w.history result e ∨
        ∃ loop, w.lock = some (.writing loop) ∧ loop.result = result ∧ Watching w.history e) := by
    intro hmem
    obtain ⟨e, hstream, hhandled⟩ := replay_recorded hnamed hmem
    exact ⟨e, hstream, Or.inl hhandled⟩
  rw [hstanding.delivered.mem_iff, hstanding.failed.mem_iff, List.mem_append, List.mem_append]
    at hmem
  rcases hmem with (hmem | hmem) | (hmem | hmem)
  · exact hrecorded (Or.inl hmem)
  · refine hrunning written (fun e he => hsplit.mem_iff.mp (List.mem_append_left _ he)) ?_ hmem
    exact hloop.imp_left And.left
  · exact hrecorded (Or.inr hmem)
  · refine hrunning gone (fun e he => hsplit.mem_iff.mp ?_) ?_ hmem
    · exact List.mem_append_right _ (List.mem_append_left _ he)
    · exact hloop.imp_left And.right

theorem Matches.never_twice {w : Watchers} (hw : Matches w) (hdistinct : Distinct w)
    (stream : Conn) (result : Result) : w.delivered.count (stream, result) ≤ 1 := by
  obtain ⟨current, written, gone, rest, hstanding, hsplit, hloop⟩ := hw.standing
  have hnamed := hdistinct.named
  rw [hstanding.delivered.count_eq, List.count_append]
  by_cases hhandled : ∃ e, Handled w.history result e
  · obtain ⟨e, hhandled⟩ := hhandled
    rw [hdistinct.numbered.apart (hloop.imp_left And.left) hhandled stream, Nat.add_zero]
    exact replay_never_twice hnamed stream result
  · have hnone : (Service.replay w.history).delivered.count (stream, result) = 0 := by
      refine List.count_eq_zero.mpr fun hmem => ?_
      obtain ⟨e, -, he⟩ := replay_recorded hnamed (Or.inl hmem)
      exact hhandled ⟨e, he⟩
    have hstreams := replay_streams hnamed.streams
    rw [← hstanding.listening, ← (hsplit.map Watcher.stream).nodup_iff, List.map_append]
      at hstreams
    rw [hnone, Nat.zero_add]
    by_cases hcurrent : current = result
    · rw [hcurrent]
      exact List.nodup_iff_count_le_one.mp (nodup_tag hstreams.of_append_left result) _
    · rw [count_tag_other hcurrent]
      exact Nat.zero_le 1

theorem Matches.removed {w : Watchers} (hw : Matches w) (hnamed : Named w.history) {e : Watcher}
    (hregistered : .registered e.stream e.1 e.2.2 ∈ w.history)
    (hgone : e ∉ w.listeningProcesses.entries) : ∃ result, (e.stream, result) ∈ w.failed := by
  obtain ⟨current, written, gone, rest, hstanding, -, -⟩ := hw.standing
  rw [hstanding.listening] at hgone
  obtain ⟨result, hmem⟩ := replay_removed hnamed hregistered hgone
  exact ⟨result, hstanding.failed.mem_iff.mpr (List.mem_append_left _ hmem)⟩

theorem Matches.streams {w : Watchers} (hw : Matches w) (hnumbered : Numbered w) :
    (w.listeningProcesses.entries.map Watcher.stream).Nodup := by
  obtain ⟨_, _, _, _, hstanding, -, -⟩ := hw.standing
  rw [hstanding.listening]
  exact replay_streams hnumbered.named

theorem Matches.listed {w : Watchers} (hw : Matches w) {loop : Loop}
    (hlock : w.lock = some (.writing loop)) {e : Watcher}
    (he : e ∈ loop.rest ∨ ∃ buf, loop.current = some (e, buf)) :
    e ∈ w.listeningProcesses.entries := by
  obtain ⟨written, gone, hhalf, -⟩ := hw.writing hlock
  refine hhalf.split.mem_iff.mp ?_
  rcases he with he | ⟨buf, hcurrent⟩
  · exact List.mem_append_right _ he
  · refine List.mem_append_left _ (List.mem_append_right _ ?_)
    rw [hcurrent]
    exact List.mem_cons_self

/-! The bytes on their way. -/

theorem Matches.unfailed {w : Watchers} (hw : Matches w) (hnumbered : Numbered w) {loop : Loop}
    (hlock : w.lock = some (.writing loop)) {e : Watcher}
    (he : e ∈ loop.rest ∨ ∃ buf, loop.current = some (e, buf)) (result : Result) :
    (e.stream, result) ∉ w.failed := by
  have hlisted := hw.listed hlock he
  have hstreams := hw.streams hnumbered
  obtain ⟨written, gone, hhalf, hstanding⟩ := hw.writing hlock
  rw [hstanding.failed.mem_iff, List.mem_append, not_or]
  constructor
  · rw [hstanding.listening] at hlisted
    exact replay_unfailed hnumbered.named hlisted result
  · intro hgone
    obtain ⟨e', he', htag⟩ := List.mem_map.mp hgone
    have hstream : e'.stream = e.stream := (Prod.ext_iff.mp htag).1
    have hbefore : e' ∈ written ++ gone := List.mem_append_right _ he'
    have hlater : e ∈ (loop.current.map Prod.fst).toList ++ loop.rest := by
      rcases he with he | ⟨buf, hcurrent⟩
      · exact List.mem_append_right _ he
      · simp [hcurrent]
    rw [← (hhalf.split.map Watcher.stream).nodup_iff, List.append_assoc, List.map_append,
      List.nodup_append] at hstreams
    exact hstreams.2.2 _ (List.mem_map_of_mem hbefore) _ (List.mem_map_of_mem hlater) hstream

theorem Carried.same {w w' : Watchers} {stream : Conn} (h : Carried w stream)
    (htaken : w'.taken stream = w.taken stream) (hreceived : w'.received stream = w.received stream)
    (hwriting : w'.writing stream = w.writing stream) (hfailed : w.failed ⊆ w'.failed) :
    Carried w' stream := by
  obtain ⟨tail, hbytes, htail⟩ := h
  refine ⟨tail, by rw [htaken, hreceived, hbytes], ?_⟩
  cases htail with
  | none hidle => exact .none (hwriting.trans hidle)
  | writing hleft hwhole => exact .writing (hwriting.trans hleft) hwhole
  | failed hmem hpart => exact .failed (hfailed hmem) hpart

theorem writing_current {w : Watchers} {loop : Loop} {e : Watcher} {left : List UInt8}
    (hlock : w.lock = some (.writing loop)) (hcurrent : loop.current = some (e, left))
    (stream : Conn) :
    w.writing stream = if e.stream = stream then some (loop.result, left) else none := by
  simp [writing, hlock, hcurrent]

theorem writing_between {w : Watchers} {loop : Loop} (hlock : w.lock = some (.writing loop))
    (hcurrent : loop.current = none) (stream : Conn) : w.writing stream = none := by
  simp [writing, hlock, hcurrent]

theorem writing_resting {w : Watchers} (hlock : ∀ loop, w.lock ≠ some (.writing loop))
    (stream : Conn) : w.writing stream = none := by
  unfold writing
  split
  next loop hwriting => exact absurd hwriting (hlock loop)
  · rfl

theorem Carried.current {w : Watchers} (hw : Matches w) (hnumbered : Numbered w) {loop : Loop}
    {e : Watcher} {left : List UInt8} (hlock : w.lock = some (.writing loop))
    (hcurrent : loop.current = some (e, left)) (h : Carried w e.stream) :
    ∃ tail, w.taken e.stream = (w.received e.stream).flatMap Result.encoded ++ tail ∧
      tail ++ left = loop.result.encoded := by
  obtain ⟨tail, htaken, htail⟩ := h
  have hwriting := writing_current hlock hcurrent e.stream
  rw [if_pos rfl] at hwriting
  refine ⟨tail, htaken, ?_⟩
  cases htail with
  | none hidle => cases hidle.symm.trans hwriting
  | writing hleft hbytes =>
    cases hleft.symm.trans hwriting
    exact hbytes
  | failed hfailed => exact absurd hfailed (hw.unfailed hnumbered hlock (Or.inr ⟨left, hcurrent⟩) _)

theorem Carried.fresh {w : Watchers} (hw : Matches w) (hnumbered : Numbered w) {loop : Loop}
    {e : Watcher} (hlock : w.lock = some (.writing loop)) (hcurrent : loop.current = none)
    (he : e ∈ loop.rest) (h : Carried w e.stream) :
    w.taken e.stream = (w.received e.stream).flatMap Result.encoded := by
  obtain ⟨tail, htaken, htail⟩ := h
  cases htail with
  | none hidle => rw [htaken, List.append_nil]
  | writing hleft => cases hleft.symm.trans (writing_between hlock hcurrent e.stream)
  | failed hfailed => exact absurd hfailed (hw.unfailed hnumbered hlock (Or.inl he) _)

theorem step_carried {w w' : Watchers} {m : Move} (hw : Matches w) (hnumbered : Numbered w)
    {stream : Conn} (hcarried : Carried w stream) (h : w.step m = some w') :
    Carried w' stream := by
  cases step_moves h with
  | watch pid flags => exact hcarried.same rfl rfl rfl (List.Subset.refl _)
  | transmit data => exact hcarried.same rfl rfl rfl (List.Subset.refl _)
  | drain stream' n => exact hcarried.same rfl rfl rfl (List.Subset.refl _)
  | close stream' => exact hcarried.same rfl rfl rfl (List.Subset.refl _)
  | register hlock hqueue => exact hcarried.same rfl rfl rfl (List.Subset.refl _)
  | lock hlock hqueue =>
    refine hcarried.same rfl rfl ?_ (List.Subset.refl _)
    rw [writing_resting (w := w) (by simp [hlock])]
    exact writing_between rfl rfl stream
  | @next i loop e hlock hcurrent he =>
    by_cases hstream : e.stream = stream
    · subst hstream
      have hwhole := hcarried.fresh hw hnumbered hlock hcurrent (List.mem_of_getElem? he)
      have hwriting : ({ w with lock := some (.writing { loop with
          rest := loop.rest.eraseIdx i, current := some (e, Loop.bytes loop.result) }) } :
          Watchers).writing e.stream = some (loop.result, Loop.bytes loop.result) := by
        simp [writing]
      exact ⟨[], hwhole.trans (List.append_nil _).symm, .writing hwriting rfl⟩
    · refine hcarried.same rfl rfl ?_ (List.Subset.refl _)
      rw [writing_between hlock hcurrent]
      exact (writing_current rfl rfl stream).trans (if_neg hstream)
  | blocked hlock hcurrent hbuf hfull => exact hcarried
  | @broken loop e left err hlock hcurrent hclosed =>
    by_cases hstream : e.stream = stream
    · subst hstream
      obtain ⟨tail, htaken, hbytes⟩ := hcarried.current hw hnumbered hlock hcurrent
      have hfailed : (e.stream, loop.result) ∈ w.failed ++ [(e.stream, loop.result)] :=
        List.mem_append_right _ List.mem_cons_self
      exact ⟨tail, htaken, .failed hfailed ⟨left, hbytes⟩⟩
    · refine hcarried.same rfl rfl ?_ (List.subset_append_left _ _)
      rw [writing_current hlock hcurrent, if_neg hstream]
      exact writing_between rfl rfl stream
  | @written loop e hlock hcurrent =>
    have hidle := writing_between (w := { w with
      lock := some (.writing { loop with current := none, read := loop.read || !e.silent })
      delivered := w.delivered ++ [(e.stream, loop.result)] }) rfl rfl stream
    by_cases hstream : e.stream = stream
    · subst hstream
      obtain ⟨tail, htaken, hbytes⟩ := hcarried.current hw hnumbered hlock hcurrent
      rw [List.append_nil] at hbytes
      refine ⟨[], ?_, .none hidle⟩
      simp [received, htaken, hbytes]
    · refine hcarried.same rfl ?_ ?_ (List.Subset.refl _)
      · simp [received, hstream]
      · rw [hidle, writing_current hlock hcurrent, if_neg hstream]
  | @taken loop e left n hlock hcurrent hbuf hn hroom hlen =>
    by_cases hstream : e.stream = stream
    · subst hstream
      obtain ⟨tail, htaken, hbytes⟩ := hcarried.current hw hnumbered hlock hcurrent
      have hwriting : ({ w.take e.stream left n with
          lock := some (.writing { loop with current := some (e, left.drop n) }) } :
          Watchers).writing e.stream = some (loop.result, left.drop n) := by
        simp [writing]
      refine ⟨tail ++ left.take n, ?_, .writing hwriting ?_⟩
      · simp [take, received, htaken, setSocket]
      · rw [List.append_assoc, List.take_append_drop, hbytes]
    · refine hcarried.same ?_ rfl ?_ (List.Subset.refl _)
      · simp [take, Ne.symm hstream]
      · rw [writing_current hlock hcurrent, if_neg hstream]
        exact (writing_current rfl rfl stream).trans (if_neg hstream)
  | @finish loop hlock hrest hcurrent =>
    refine hcarried.same rfl rfl ?_ (List.Subset.refl _)
    rw [writing_between hlock hcurrent]
    exact writing_resting (fun loop' => by cases loop.text <;> simp) stream
  | acknowledge hlock =>
    refine hcarried.same rfl rfl ?_ (List.Subset.refl _)
    rw [writing_resting (w := w) (by simp [hlock])]
    rfl

theorem start_carried (sockets : Conn → Socket) (stream : Conn) : Carried (start sockets) stream :=
  ⟨[], rfl, .none rfl⟩

structure Kept (w : Watchers) : Prop where
  matched : Matches w
  numbered : Numbered w
  carried : ∀ stream, Carried w stream

theorem start_kept (sockets : Conn → Socket) : Kept (start sockets) :=
  ⟨start_matches sockets, start_numbered sockets, start_carried sockets⟩

theorem step_kept {w w' : Watchers} {m : Move} (hw : Kept w) (h : w.step m = some w') : Kept w' :=
  ⟨step_matches hw.matched h, step_numbered hw.numbered h,
    fun stream => step_carried hw.matched hw.numbered (hw.carried stream) h⟩

theorem Kept.faithful {w : Watchers} (hw : Kept w) (hdistinct : Distinct w) : Faithful w := by
  have hmatched := hw.matched
  refine ⟨?_, ?_, ?_, hw.carried, ?_, ?_, ?_⟩
  · intro result e hhandled
    exact hmatched.once hdistinct hhandled
  · intro stream result hmem
    exact hmatched.only hdistinct.named hmem
  · intro loop e left hlock hcurrent
    obtain ⟨_, _, _, _, hstanding, -, -⟩ := hmatched.standing
    rw [← mem_replay hdistinct.named, ← hstanding.listening]
    exact hmatched.listed hlock (Or.inr ⟨left, hcurrent⟩)
  · exact hmatched.never_twice hdistinct
  · intro stream pid flags hregistered hgone
    exact hmatched.removed hdistinct.named hregistered hgone
  · intro loop hlock
    obtain ⟨written, gone, hhalf, -⟩ := hmatched.writing hlock
    exact hhalf.old_length

/-- However registrations, disconnections and broadcasts come between each other: as long as the
processes that watch have pids of their own, each gets each result once, byte by byte. -/
theorem each_watcher_once (sockets : Conn → Socket) (moves : List Move)
    (hpids : Along step FreshPid (start sockets) moves) :
    Always step Faithful (start sockets) moves := by
  have hkept : Always step Kept (start sockets) moves :=
    always_of_invariant (fun _ _ _ => step_kept) (start_kept sockets) moves
  have hdistinct : Always step Distinct (start sockets) moves :=
    along_invariant (fun _ _ _ => step_distinct) ⟨start_numbered sockets, List.nodup_nil⟩ hpids
  exact (hkept.and hdistinct).mono fun w hw => hw.1.faithful hw.2

def leaving : List Move :=
  [.watch 7 0, .watch 8 0, .register, .register, .transmit "ev#cls#3", .lock, .next 1,
    .tryWrite (.ok 15), .close 0, .tryWrite (.failed "Broken pipe"), .watch 9 0, .next 0,
    .tryWrite (.ok 5), .tryWrite (.ok 10), .tryWrite (.ok 0), .finish, .register]

theorem each_watcher_once_leaving :
    (run step (start fun _ => ⟨4096, false⟩) leaving).map (fun w =>
        (w.delivered.map Prod.fst, w.failed.map Prod.fst, w.listeningProcesses.keys,
          [0, 1, 3].map w.taken)) =
      some ([1], [0], [9, 8],
        [Utf8.utf8 "out#0##ev#cls#3", Utf8.utf8 "out#0##ev#cls#3", []]) ∧
    Always step Faithful (start fun _ => ⟨4096, false⟩) leaving :=
  ⟨by decide, each_watcher_once _ _ (by decide)⟩

end Watchers

end NotifsPiper

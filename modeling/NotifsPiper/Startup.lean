import NotifsPiper.Storage
import NotifsPiper.Wakeups

/-! The start of the daemon. The bus serves the name before anything else runs; the listener is
spawned on threads of its own and binds its socket whenever it comes to it, and the manager
thread does not wait for that. What happens in between is what these states are about. -/

namespace NotifsPiper

variable {Value : Type}

/-- Where the main thread stands in `start`: `blocked` on the task of the listener, or `gone`
with the process. -/
inductive MainThread
  | serving
  | removing
  | listening
  | managing
  | blocked
  | gone
  deriving DecidableEq, Repr

/-- How far the task of the listener is, which is spawned by the step from `listening`. -/
inductive ListenerJob
  | waiting
  | bound
  | failed
  deriving DecidableEq, Repr

/-- The daemon while it starts. The last field counts the connections of `exec` that came before
the socket was bound: the old one is removed by then, so they are refused. -/
structure Startup (Value : Type) where
  main : MainThread
  job : ListenerJob
  daemon : Daemon Value
  refused : Nat

inductive StartLabel (Value : Type)
  | serve (served : Bool)
  | removeFile (res : Except ErrorKind Unit)
  | spawnListener
  | bind (free : Bool)
  | spawnManager
  | join
  | daemon (l : Label Value)

namespace Startup

open Runs Wakeups

def start (man : LogsManager Value) (logsFile : Option (List UInt8)) : Startup Value :=
  ⟨.serving, .waiting, Daemon.start man logsFile, 0⟩

/-- Who can move: the bus serves calls from the moment it has the name, the listener accepts
once it has bound its socket, and the manager loop runs on the thread spawned last. -/
def moves (s : Startup Value) : Label Value → Bool
  | .notify .. | .closeNotification _ => s.main != .serving
  | .connect _ | .listen .. => s.job == .bound
  | .recv | .pop | .execute .. => s.main == .blocked
  | .reply arrived failed => s.main == .blocked && (s.job == .bound || (!arrived && failed))
  | .busSend | .wake .. | .timerSend _ => true

def refusal (s : Startup Value) : Label Value → Nat
  | .reply .. => if s.job = .bound then 0 else 1
  | _ => 0

def step (platform : Platform Value) (s : Startup Value) : StartLabel Value → Option (Startup Value)
  | .serve served =>
    if s.main = .serving then some { s with main := if served then .removing else .gone }
    else none
  | .removeFile res =>
    if s.main = .removing then
      match res with
      | .ok () => some { s with main := .listening }
      | .error .notFound => some { s with main := .listening }
      | .error _ => some { s with main := .gone }
    else none
  | .spawnListener =>
    if s.main = .listening then some { s with main := .managing } else none
  | .bind free =>
    if (s.main = .managing ∨ s.main = .blocked) ∧ s.job = .waiting then
      some { s with job := if free then .bound else .failed }
    else none
  | .spawnManager => if s.main = .managing then some { s with main := .blocked } else none
  | .join => if s.main = .blocked ∧ s.job = .failed then some { s with main := .gone } else none
  | .daemon l =>
    if s.main ≠ .gone ∧ s.moves l = true then
      (s.daemon.step platform l).map fun d =>
        { s with daemon := d, refused := s.refused + s.refusal l }
    else none

def Starting (s : Startup Value) : Prop := s.job ≠ .bound ∨ s.main = .managing

/-- No connection of `exec` came too early, and the manager thread outlives the start. -/
def Punctual (s : Startup Value) : Prop :=
  s.refused = 0 ∧ (Starting s → s.daemon.alive = true)

def answers (man : LogsManager Value) (jd : JobDesc Value) : Bool :=
  match jd.cmd with
  | .close nid _ => (man.find nid).any fun ne => !ne.closed
  | _ => true

/-- As long as the socket is not bound, the manager takes no job that it answers. -/
def Waits (s : Startup Value) : StartLabel Value → Prop
  | .daemon .pop => s.job = .bound ∨ s.daemon.list.head?.any (answers s.daemon.manager) = false
  | _ => True

/-! The jobs of the bus. -/

inductive OfBus : JobDesc Value → Prop
  | broadcast (event : NotificationEvent Value) : OfBus ⟨.broadcast event, ⟨0, 0⟩⟩
  | close (nid : Nid) : OfBus ⟨.close nid .callCloseNotification, ⟨0, 0⟩⟩

theorem emitSignal_answered (env : Env) (man : LogsManager Value) (signal : Signal)
    (failure : String) (event : EventType) :
    (emitSignal env man signal failure event).fulfilled.result ≠ .ok none := by
  unfold emitSignal
  split_ifs <;> simp [Executed.quiet]

theorem perform_answered (id : Nid) (reason : NotificationClosed) (pos : Nat) (env : Env)
    (man : LogsManager Value) :
    (Close.perform id reason pos env man).fulfilled.result ≠ .ok none := by
  unfold Close.perform
  dsimp only
  split
  · simp [Executed.quiet]
  · exact emitSignal_answered _ _ _ _ _

theorem execute_unanswered (platform : Platform Value) (env : Env) {man : LogsManager Value}
    {jd : JobDesc Value} (hbus : OfBus jd) (hanswers : answers man jd = false) :
    Job.execute platform env jd man = some (.quiet ⟨.ok none, .other⟩ man) := by
  cases hbus with
  | broadcast event => cases hanswers
  | close nid =>
    have hclosed : (man.find nid).all (·.closed) = true := by
      cases hfind : man.find nid with
      | none => rfl
      | some ne => simpa [answers, hfind] using hanswers
    rw [LogsManager.find_eq_getElem] at hclosed
    have hforce : Flags.force.is 0 = false := by decide
    simp [Job.execute, Close.execute, hclosed, hforce]

theorem execute_answered (platform : Platform Value) (env : Env) {man : LogsManager Value}
    {jd : JobDesc Value} (hbus : OfBus jd) (hanswers : answers man jd = true) :
    ∃ ex, Job.execute platform env jd man = some ex ∧ ex.fulfilled.result ≠ .ok none := by
  cases hbus with
  | broadcast event =>
    obtain ⟨timer, -, hexec⟩ := Broadcast.execute_eq platform event env man
    exact ⟨_, hexec, by simp⟩
  | close nid =>
    obtain ⟨ne, hne, hopen⟩ : ∃ ne, man.find nid = some ne ∧ ne.closed = false := by
      simpa [answers, Option.any_eq_true] using hanswers
    obtain ⟨pos, hpos, hfound⟩ := Option.bind_eq_some_iff.mp (LogsManager.find_eq_getElem ▸ hne)
    have hallowed : ne.closed = true → Flags.force.is 0 = true := by simp [hopen]
    have hpasses : Close.Passes nid .callCloseNotification env ⟨0, 0⟩ man pos ne :=
      ⟨hpos, hfound, hallowed, rfl⟩
    exact ⟨_, Close.execute_passes hpasses, perform_answered _ _ _ _ _⟩

/-! Before the socket is bound, and until something is answered. The manager is still the one of
the start, and the jobs it has taken are of the bus and satisfy `taken`. -/

section

variable {platform : Platform Value} {taken : JobDesc Value → Prop} {man : LogsManager Value}
  {d d' : Daemon Value}

def Fresh (taken : JobDesc Value → Prop) : Phase Value → Prop
  | .idle | .woken => True
  | .executing jd _ => OfBus jd ∧ taken jd
  | .replying _ | .dead _ => False

structure Early (taken : JobDesc Value → Prop) (man : LogsManager Value) (d : Daemon Value) :
    Prop where
  phase : Fresh taken d.phase
  manager : d.manager = man
  list : ∀ jd ∈ d.list, OfBus jd
  timers : d.timers = []
  poisoned : d.poisoned = false

theorem Early.alive (hd : Early taken man d) : d.alive = true := by
  have hphase := hd.phase
  unfold Daemon.alive
  split
  next hdead =>
    rw [hdead] at hphase
    exact absurd hphase id
  · rfl

theorem Early.not_replying (hd : Early taken man d) (tr : Transmission) :
    d.phase ≠ .replying tr := by
  intro hreplying
  have hphase := hd.phase
  rw [hreplying] at hphase
  exact hphase

theorem Early.executing (hd : Early taken man d) {jd : JobDesc Value} {empty : Bool}
    (hphase : d.phase = .executing jd empty) : OfBus jd ∧ taken jd := by
  have hfresh := hd.phase
  rw [hphase] at hfresh
  exact hfresh

theorem pushJob_early {jd : JobDesc Value} (hd : Early taken man d) (hjd : OfBus jd)
    (h : d.pushJob jd = some d') : Early taken man d' := by
  obtain ⟨-, ⟨-, rfl⟩ | ⟨-, rfl⟩⟩ := Daemon.pushJob_cases h
  · exact hd
  · refine ⟨hd.phase, hd.manager, ?_, hd.timers, hd.poisoned⟩
    intro found hmem
    rcases List.mem_append.mp hmem with hmem | hmem
    · exact hd.list found hmem
    · rw [List.mem_singleton.mp hmem]
      exact hjd

theorem busSend_early (hd : Early taken man d) (h : d.busSend = some d') :
    Early taken man d' := by
  obtain ⟨-, ⟨-, rfl⟩ | ⟨hdead, -⟩⟩ := Daemon.busSend_cases h
  · exact ⟨hd.phase, hd.manager, hd.list, hd.timers, hd.poisoned⟩
  · exact Bool.noConfusion (hd.alive.symm.trans hdead)

theorem recv_early (hd : Early taken man d) (h : d.recv = some d') : Early taken man d' := by
  obtain ⟨-, -, rfl⟩ := Daemon.recv_cases h
  exact ⟨trivial, hd.manager, hd.list, hd.timers, hd.poisoned⟩

theorem pop_early (hd : Early taken man d) (hcounted : Counted d) (h : d.pop = some d') :
    ∃ jd rest, d.list = jd :: rest ∧ OfBus jd ∧
      d' = { d with list := rest, phase := .executing jd rest.isEmpty } ∧
      (taken jd → Early taken man d') := by
  obtain ⟨hphase, -, ⟨hpoisoned, -⟩ | ⟨hlist, -⟩ | ⟨jd, rest, hlist, rfl⟩⟩ := Daemon.pop_cases h
  · exact Bool.noConfusion (hd.poisoned.symm.trans hpoisoned)
  · exact absurd hlist (pop_finds hcounted hphase)
  · have hbus : ∀ found ∈ jd :: rest, OfBus found := hlist ▸ hd.list
    have hjd := hbus jd List.mem_cons_self
    refine ⟨jd, rest, hlist, hjd, rfl, fun htaken => ⟨⟨hjd, htaken⟩, hd.manager, ?_, hd.timers,
      hd.poisoned⟩⟩
    exact fun found hmem => hbus found (List.mem_cons_of_mem _ hmem)

theorem execute_early {jd : JobDesc Value} {empty : Bool} {env : Env}
    {disk : Except (List UInt8) Unit} (hd : Early taken man d) (hclean : man.dirty = false)
    (hphase : d.phase = .executing jd empty) (hanswers : answers man jd = false)
    (h : d.execute platform env disk = some d') :
    d'.phase = .idle ∧ Early taken man d' := by
  obtain ⟨hjd, -⟩ := hd.executing hphase
  have hdirty : d.manager.dirty = false := by rw [hd.manager, hclean]
  have hexec := execute_unanswered platform env hjd hanswers
  rw [← hd.manager] at hexec
  simp only [Daemon.execute, hphase, hexec, Executed.quiet, Daemon.conclude, hdirty,
    Bool.and_false, Bool.false_eq_true, if_false] at h
  cases h
  exact ⟨rfl, trivial, hd.manager, hd.list, hd.timers, hd.poisoned⟩

theorem execute_late (platform : Platform Value) {jd : JobDesc Value} {empty : Bool}
    (hd : Early taken man d) (hphase : d.phase = .executing jd empty)
    (hanswers : answers man jd = true) (env : Env) (disk : Except (List UInt8) Unit) :
    ∃ d', d.execute platform env disk = some d' ∧
      ((∃ tr, d'.phase = .replying tr) ∨ disk ≠ .ok () ∧ d'.alive = false) := by
  obtain ⟨hjd, -⟩ := hd.executing hphase
  obtain ⟨ex, hexec, hresult⟩ := execute_answered platform env hjd hanswers
  rw [← hd.manager] at hexec
  have hsent : ∀ pid, ∃ tr, Daemon.sendBack platform pid ex.fulfilled = .replying tr := by
    intro pid
    unfold Daemon.sendBack
    split
    next hnone => exact absurd hnone hresult
    next => exact ⟨_, rfl⟩
  obtain ⟨tr, htr⟩ := hsent jd.desc.pid
  simp only [Daemon.execute, hphase, hexec]
  refine ⟨_, rfl, ?_⟩
  unfold Daemon.conclude
  dsimp only
  split_ifs
  · split
    · exact Or.inl ⟨tr, htr⟩
    · exact Or.inr ⟨by simp, rfl⟩
  · exact Or.inl ⟨tr, htr⟩

def Late : Phase Value → Prop
  | .replying _ | .dead _ => True
  | _ => False

theorem alive_late (h : d.alive = false) : Late d.phase := by
  unfold Daemon.alive at h
  split at h
  next hphase =>
    rw [hphase]
    exact trivial
  · cases h

theorem step_late {l : Label Value} (hd : Late d.phase)
    (hl : ∀ arrived, l = .reply arrived false → d.alive = false)
    (h : d.step platform l = some d') :
    Late d'.phase ∧ (d.alive = false → d'.alive = false) := by
  rcases Daemon.step_still h with hstill | ⟨-, h⟩ | ⟨-, h⟩ | ⟨env, disk, -, h⟩ |
    ⟨arrived, failed, rfl, h⟩
  · unfold Daemon.alive
    rw [hstill.phase]
    exact ⟨hd, id⟩
  · rw [(Daemon.recv_cases h).1] at hd
    exact hd.elim
  · rw [(Daemon.pop_cases h).1] at hd
    exact hd.elim
  · obtain ⟨jd, empty, hphase, -⟩ := Daemon.execute_outcome h
    rw [hphase] at hd
    exact hd.elim
  · obtain ⟨tr, hphase, ⟨rfl, -⟩ | ⟨-, rfl | rfl⟩⟩ := Daemon.reply_cases h
    · have hdead := hl arrived rfl
      simp [Daemon.alive, hphase] at hdead
    · exact ⟨trivial, fun _ => rfl⟩
    · exact ⟨trivial, fun _ => rfl⟩

theorem step_dead {l : Label Value} (hd : d.alive = false) (h : d.step platform l = some d') :
    d'.alive = false :=
  (step_late (alive_late hd) (fun _ _ => hd) h).2 hd

/-- Before the socket is bound: nothing was answered, or `late` allows that it was. -/
def Stage (taken : JobDesc Value → Prop) (late : Prop) (man : LogsManager Value)
    (d : Daemon Value) : Prop :=
  Early taken man d ∨ late ∧ Late d.phase

theorem step_early {late : Prop} {l : Label Value} (hd : Early taken man d)
    (hcounted : Counted d) (hclean : man.dirty = false)
    (hlate : ∀ jd, taken jd → answers man jd = true → late)
    (hunheard : ∀ i written broken, l ≠ .listen i written broken)
    (htaken : l = .pop → ∀ jd, d.list.head? = some jd → taken jd)
    (h : d.step platform l = some d') : Stage taken late man d' := by
  cases l with
  | notify call now =>
    have hnoted : Early taken man
        ({ d with counter := (Notifications.notify d.counter call now).1,
                  created := d.created ++ [(Notifications.notify d.counter call now).2] } :
          Daemon Value) := ⟨hd.phase, hd.manager, hd.list, hd.timers, hd.poisoned⟩
    exact Or.inl (pushJob_early hnoted (.broadcast _) h)
  | closeNotification nid => exact Or.inl (pushJob_early hd (.close nid) h)
  | busSend => exact Or.inl (busSend_early hd h)
  | connect tr =>
    cases h
    exact Or.inl ⟨hd.phase, hd.manager, hd.list, hd.timers, hd.poisoned⟩
  | listen i written broken => exact absurd rfl (hunheard i written broken)
  | wake i instant =>
    obtain ⟨timer, snd, hi, -⟩ := Daemon.wake_cases h
    simp [hd.timers] at hi
  | timerSend i =>
    obtain ⟨hi, -⟩ := Daemon.timerSend_cases h
    simp [hd.timers] at hi
  | recv => exact Or.inl (recv_early hd h)
  | pop =>
    obtain ⟨jd, rest, hlist, -, -, hearly⟩ := pop_early hd hcounted h
    exact Or.inl (hearly (htaken rfl jd (by rw [hlist]; rfl)))
  | execute env disk =>
    obtain ⟨jd, empty, hphase, -⟩ := Daemon.execute_outcome h
    cases hanswers : answers man jd with
    | false => exact Or.inl (execute_early hd hclean hphase hanswers h).2
    | true =>
      obtain ⟨found, hfound, hcases⟩ := execute_late platform hd hphase hanswers env disk
      have heq : found = d' := Option.some.inj (hfound.symm.trans h)
      subst heq
      refine Or.inr ⟨hlate jd (hd.executing hphase).2 hanswers, ?_⟩
      rcases hcases with ⟨tr, htr⟩ | ⟨-, hdead⟩
      · rw [htr]
        exact trivial
      · exact alive_late hdead
  | reply arrived failed =>
    obtain ⟨tr, hphase, -⟩ := Daemon.reply_cases h
    exact absurd hphase (hd.not_replying tr)

structure Placed (taken : JobDesc Value → Prop) (late : Prop) (man : LogsManager Value)
    (s : Startup Value) : Prop where
  counted : Counted s.daemon
  idle : s.main ≠ .blocked → s.main ≠ .gone → s.daemon.phase = .idle
  unbound : s.job ≠ .bound → Stage taken late man s.daemon
  refused : s.refused ≠ 0 → late ∧ s.daemon.alive = false

variable {late : Prop} {s s' : Startup Value}

theorem start_placed (man : LogsManager Value) (logsFile : Option (List UInt8)) :
    Placed taken late { man with interface := true, notifyer := true } (start man logsFile) := by
  refine ⟨start_counted man logsFile, fun _ _ => rfl, fun _ => Or.inl ?_, fun h => absurd rfl h⟩
  refine ⟨trivial, rfl, ?_, rfl, rfl⟩
  intro jd hmem
  cases hmem

theorem step_daemon {l : Label Value} :
    s.step platform (.daemon l) = some s' ↔ s.main ≠ .gone ∧ s.moves l = true ∧
      ∃ d, s.daemon.step platform l = some d ∧
        s' = { s with daemon := d, refused := s.refused + s.refusal l } := by
  simp only [step]
  split_ifs with hmoves
  · rw [Option.map_eq_some_iff]
    simp [hmoves, eq_comm]
  · refine iff_of_false (by simp) ?_
    rintro ⟨hgone, hmoves', -⟩
    exact hmoves ⟨hgone, hmoves'⟩

theorem moves_still {l : Label Value} {d' : Daemon Value} (hmain : s.main ≠ .blocked)
    (hmoves : s.moves l = true) (h : s.daemon.step platform l = some d') :
    Daemon.Still s.daemon d' := by
  have hoff : (s.main == .blocked) = false := by simpa using hmain
  rcases Daemon.step_still h with hstill | ⟨rfl, -⟩ | ⟨rfl, -⟩ | ⟨env, disk, rfl, -⟩ |
    ⟨arrived, failed, rfl, -⟩
  · exact hstill
  all_goals simp [moves, hoff] at hmoves

theorem moves_unbound {l : Label Value} (hjob : s.job ≠ .bound) (hmoves : s.moves l = true) :
    (∀ i written broken, l ≠ .listen i written broken) ∧
      ∀ arrived, l ≠ .reply arrived false := by
  have hoff : (s.job == .bound) = false := by simpa using hjob
  constructor
  · rintro i written broken rfl
    simp [moves, hoff] at hmoves
  · rintro arrived rfl
    simp [moves, hoff] at hmoves

theorem refusal_dead {l : Label Value} {d' : Daemon Value} (hmoves : s.moves l = true)
    (hrefusal : s.refusal l ≠ 0) (h : s.daemon.step platform l = some d') :
    s.job ≠ .bound ∧ Late s.daemon.phase ∧ d'.alive = false := by
  unfold refusal at hrefusal
  split at hrefusal
  next arrived failed =>
    have hjob : s.job ≠ .bound := by
      intro hjob
      simp [hjob] at hrefusal
    obtain ⟨tr, hphase, ⟨rfl, -⟩ | ⟨-, hdead⟩⟩ := Daemon.reply_cases h
    · exact absurd rfl ((moves_unbound hjob hmoves).2 arrived)
    · refine ⟨hjob, by rw [hphase]; exact trivial, ?_⟩
      rcases hdead with rfl | rfl <;> rfl
  · exact absurd rfl hrefusal

theorem daemon_placed {l : Label Value} {d' : Daemon Value} (hs : Placed taken late man s)
    (hclean : man.dirty = false) (hlate : ∀ jd, taken jd → answers man jd = true → late)
    (htaken : s.job ≠ .bound → l = .pop → ∀ jd, s.daemon.list.head? = some jd → taken jd)
    (hmoves : s.moves l = true) (h : s.daemon.step platform l = some d') :
    Placed taken late man { s with daemon := d', refused := s.refused + s.refusal l } := by
  refine ⟨step_counted hs.counted h, fun hmain hgone => ?_, fun hjob => ?_, fun hrefused => ?_⟩
  · have hmain : s.main ≠ .blocked := hmain
    have hstill := moves_still hmain hmoves h
    rw [hstill.phase]
    exact hs.idle hmain hgone
  · obtain ⟨hunheard, hunanswered⟩ := moves_unbound hjob hmoves
    rcases hs.unbound hjob with hearly | ⟨hallowed, hphase⟩
    · exact step_early hearly hs.counted hclean hlate hunheard (htaken hjob) h
    · have hstep := step_late hphase (fun arrived hl => absurd hl (hunanswered arrived)) h
      exact Or.inr ⟨hallowed, hstep.1⟩
  · by_cases hbefore : s.refused = 0
    · have hrefusal : s.refusal l ≠ 0 := by
        intro hzero
        exact hrefused (by simp [hbefore, hzero])
      obtain ⟨hjob, hphase, hdead⟩ := refusal_dead hmoves hrefusal h
      rcases hs.unbound hjob with hearly | ⟨hallowed, -⟩
      · have hfresh := hearly.phase
        unfold Late at hphase
        split at hphase <;> simp_all [Fresh]
      · exact ⟨hallowed, hdead⟩
    · obtain ⟨hallowed, hdead⟩ := hs.refused hbefore
      exact ⟨hallowed, step_dead hdead h⟩

theorem step_placed {l : StartLabel Value} (hs : Placed taken late man s)
    (hclean : man.dirty = false) (hlate : ∀ jd, taken jd → answers man jd = true → late)
    (htaken : s.job ≠ .bound → l = .daemon .pop →
      ∀ jd, s.daemon.list.head? = some jd → taken jd)
    (h : s.step platform l = some s') : Placed taken late man s' := by
  cases l with
  | serve served =>
    simp only [step] at h
    split_ifs at h with hmain
    all_goals
      cases h
      have hidle := hs.idle (by simp [hmain]) (by simp [hmain])
      exact ⟨hs.counted, fun _ _ => hidle, hs.unbound, hs.refused⟩
  | removeFile res =>
    simp only [step] at h
    split_ifs at h with hmain
    have hidle := hs.idle (by simp [hmain]) (by simp [hmain])
    split at h <;> cases h <;> exact ⟨hs.counted, fun _ _ => hidle, hs.unbound, hs.refused⟩
  | spawnListener =>
    simp only [step] at h
    split_ifs at h with hmain
    cases h
    have hidle := hs.idle (by simp [hmain]) (by simp [hmain])
    exact ⟨hs.counted, fun _ _ => hidle, hs.unbound, hs.refused⟩
  | bind free =>
    simp only [step] at h
    split_ifs at h with hwaiting
    all_goals
      cases h
      have hstage := hs.unbound (by simp [hwaiting.2])
      exact ⟨hs.counted, hs.idle, fun _ => hstage, hs.refused⟩
  | spawnManager =>
    simp only [step] at h
    split_ifs at h with hmain
    cases h
    exact ⟨hs.counted, fun hblocked => absurd rfl hblocked, hs.unbound, hs.refused⟩
  | join =>
    simp only [step] at h
    split_ifs at h with hmain
    cases h
    exact ⟨hs.counted, fun _ hgone => absurd rfl hgone, hs.unbound, hs.refused⟩
  | daemon l =>
    obtain ⟨-, hmoves, d', hd', rfl⟩ := step_daemon.mp h
    refine daemon_placed hs hclean hlate (fun hjob hl => htaken hjob ?_) hmoves hd'
    rw [hl]

theorem Placed.unrefused (hs : Placed taken late man s) (halive : s.daemon.alive = true) :
    s.refused = 0 := by
  by_contra hrefused
  exact Bool.noConfusion (halive.symm.trans (hs.refused hrefused).2)

theorem Placed.punctual (hs : Placed taken False man s) : Punctual s := by
  have hrefused : s.refused = 0 := by
    by_contra hrefused
    exact (hs.refused hrefused).1
  refine ⟨hrefused, fun hstarting => ?_⟩
  rcases hstarting with hjob | hmain
  · rcases hs.unbound hjob with hearly | ⟨hfalse, -⟩
    · exact hearly.alive
    · exact hfalse.elim
  · have hidle := hs.idle (by simp [hmain]) (by simp [hmain])
    simp [Daemon.alive, hidle]

theorem new_clean {platform : Platform Value} {fs : FileSystem} {config : LogsConfig}
    {files files' : Files} (hnew : LogsManager.new platform fs config files = (some man, files')) :
    man.dirty = false := by
  unfold LogsManager.new at hnew
  split at hnew
  · cases hnew; rfl
  · cases hnew; rfl
  · split_ifs at hnew
    · cases hnew
    · split at hnew <;> cases hnew
      rfl

def answering (env : Env) (disk : Except (List UInt8) Unit) : List (StartLabel Value) :=
  [.daemon (.execute env disk), .daemon (.reply false true)]

end

variable {man : LogsManager Value} {s s' : Startup Value}

theorem waits_placed {platform : Platform Value} {l : StartLabel Value}
    (hs : Placed (fun jd => answers man jd = false) False man s) (hclean : man.dirty = false)
    (hwaits : Waits s l) (h : s.step platform l = some s') :
    Placed (fun jd => answers man jd = false) False man s' := by
  refine step_placed hs hclean ?_ ?_ h
  · intro jd hquiet hanswers
    exact Bool.noConfusion (hquiet.symm.trans hanswers)
  · rintro hjob rfl jd hhead
    have hquiet := hwaits.resolve_left hjob
    rcases hs.unbound hjob with hearly | ⟨hfalse, -⟩
    · rw [hearly.manager, hhead] at hquiet
      exact hquiet
    · exact hfalse.elim

theorem refused_run {platform : Platform Value} {e : Daemon Value} {tr : Transmission} {env : Env}
    {disk : Except (List UInt8) Unit} (hmain : s.main = .blocked) (hjob : s.job ≠ .bound)
    (he : s.daemon.execute platform env disk = some e) (htr : e.phase = .replying tr) :
    run (step platform) s (answering env disk) =
      some { s with daemon := e.die .failed, refused := s.refused + 1 } := by
  have hexecute : s.step platform (.daemon (.execute env disk)) = some { s with daemon := e } :=
    step_daemon.mpr ⟨by simp [hmain], by simp [moves, hmain], e, he, rfl⟩
  have hreply : ({ s with daemon := e } : Startup Value).step platform
      (.daemon (.reply false true)) =
        some { s with daemon := e.die .failed, refused := s.refused + 1 } := by
    refine step_daemon.mpr ⟨by simp [hmain], by simp [moves, hmain], e.die .failed, ?_, ?_⟩
    · simp [Daemon.step, Daemon.reply, htr]
    · simp [refusal, hjob]
  exact run_cons_some.mpr ⟨_, hexecute, run_cons_some.mpr ⟨_, hreply, rfl⟩⟩

theorem unbound_pop_iff {platform : Platform Value} (hs : Placed (fun _ => True) True man s)
    (hclean : man.dirty = false) (hjob : s.job ≠ .bound)
    (h : s.step platform (.daemon .pop) = some s') :
    Waits s (.daemon .pop) ↔ ∀ env disk t,
      run (step platform) s' (answering env disk) = some t → Punctual t := by
  obtain ⟨hgone, hmoves, d, hd, rfl⟩ := step_daemon.mp h
  have hmain : s.main = .blocked := by simpa [moves] using hmoves
  have hphase := (Daemon.pop_cases hd).1
  have hearly : Early (fun _ => True) man s.daemon := by
    rcases hs.unbound hjob with hearly | ⟨-, hlate⟩
    · exact hearly
    · rw [hphase] at hlate
      exact hlate.elim
  obtain ⟨jd, rest, hlist, hbus, rfl, htaken⟩ := pop_early hearly hs.counted hd
  have hpopped := htaken trivial
  have hwaits : Waits s (.daemon .pop) ↔ answers man jd = false := by
    simp [Waits, hjob, hlist, hearly.manager]
  rw [hwaits]
  cases hanswers : answers man jd with
  | false =>
    refine iff_of_true rfl fun env disk t hrun => ?_
    obtain ⟨m, hm, hrun⟩ := run_cons_some.mp hrun
    obtain ⟨m', hm', -⟩ := run_cons_some.mp hrun
    obtain ⟨-, -, e, he, rfl⟩ := step_daemon.mp hm
    obtain ⟨-, -, e', he', -⟩ := step_daemon.mp hm'
    obtain ⟨hidle, -⟩ := execute_early hpopped hclean rfl hanswers he
    obtain ⟨tr, hreplying, -⟩ := Daemon.reply_cases he'
    exact absurd (hidle.symm.trans hreplying) (by simp)
  | true =>
    refine iff_of_false (by simp) fun hpunctual => ?_
    obtain ⟨e, he, hcases⟩ := execute_late platform hpopped rfl hanswers
      ⟨none, 0, .ok (), true, true⟩ (.ok ())
    obtain ⟨tr, htr⟩ : ∃ tr, e.phase = .replying tr := by
      rcases hcases with hreplying | ⟨hdisk, -⟩
      · exact hreplying
      · exact absurd rfl hdisk
    have hrefused := (hpunctual _ _ _ (refused_run hmain hjob he htr)).1
    simp at hrefused

/-- A listener that has bound its socket refuses nobody. -/
theorem bound_punctual {platform : Platform Value} {t : Startup Value} {env : Env}
    {disk : Except (List UInt8) Unit} (hs : Placed (fun _ => True) True man s)
    (hjob : s.job = .bound) (h : s.step platform (.daemon .pop) = some s')
    (hrun : run (step platform) s' (answering env disk) = some t) : Punctual t := by
  obtain ⟨-, hmoves, d, hd, rfl⟩ := step_daemon.mp h
  have hmain : s.main = .blocked := by simpa [moves] using hmoves
  have halive : s.daemon.alive = true := by simp [Daemon.alive, (Daemon.pop_cases hd).1]
  have hrefused := hs.unrefused halive
  obtain ⟨m, hm, hrun⟩ := run_cons_some.mp hrun
  obtain ⟨m', hm', hrun⟩ := run_cons_some.mp hrun
  obtain ⟨-, -, e, -, rfl⟩ := step_daemon.mp hm
  obtain ⟨-, -, e', -, rfl⟩ := step_daemon.mp hm'
  cases hrun
  refine ⟨by simp [refusal, hrefused, hjob], fun hstarting => ?_⟩
  simp [Starting, hjob, hmain] at hstarting

/-- Whatever log it starts from: while the manager waits for the listener with every job it
answers, no connection is refused and the manager thread lives; and a job taken too early is the
end of it, unless the listener comes in between. -/
theorem punctual_if_waits (platform : Platform Value) (fs : FileSystem) (config : LogsConfig)
    (files : Files) (man : LogsManager Value) (files' : Files)
    (hnew : LogsManager.new platform fs config files = (some man, files')) :
    (∀ labels, Along (step platform) Waits (start man files'.logs) labels →
      Always (step platform) Punctual (start man files'.logs) labels) ∧
    ∀ labels s s', run (step platform) (start man files'.logs) labels = some s →
      s.step platform (.daemon .pop) = some s' →
      (Waits s (.daemon .pop) ↔ ∀ env disk t,
        run (step platform) s' (answering env disk) = some t → Punctual t) := by
  have hnewClean := new_clean hnew
  have hclean : ({ man with interface := true, notifyer := true } : LogsManager Value).dirty =
      false := hnewClean
  constructor
  · intro labels hwaits
    have hplaced := along_invariant
      (fun s l s' hs hl h => waits_placed hs hclean hl h)
      (start_placed man files'.logs) hwaits
    exact hplaced.mono fun s hs => hs.punctual
  · intro labels s s' hrun hpop
    have hs := run_invariant
      (fun s l s' hs h => step_placed hs hclean (fun _ _ _ => trivial)
        (fun _ _ _ _ => trivial) h)
      (start_placed man files'.logs) hrun
    by_cases hjob : s.job = .bound
    · exact iff_of_true (Or.inl hjob) fun env disk t hrun => bound_punctual hs hjob hpop hrun
    · exact unbound_pop_iff hs hclean hjob hpop

instance decidableWaits (s : Startup Value) : ∀ l, Decidable (Waits s l)
  | .daemon .pop => inferInstanceAs (Decidable (_ ∨ _))
  | .daemon (.notify ..) | .daemon (.closeNotification _) | .daemon .busSend
  | .daemon (.connect _) | .daemon (.listen ..) | .daemon (.wake ..) | .daemon (.timerSend _)
  | .daemon .recv | .daemon (.execute ..) | .daemon (.reply ..) | .serve _ | .removeFile _
  | .spawnListener | .bind _ | .spawnManager | .join => isTrue trivial

def starting : List (StartLabel Unit) :=
  [.serve true, .removeFile (.error .notFound), .spawnListener, .spawnManager]

def notified : List (StartLabel Unit) := (Storage.flushing (.ok ())).map .daemon

theorem punctual_if_waits_bound :
    Always (step Platform.bare) Punctual (start ⟨[], ⟨10, true, 5000⟩, false, false, false⟩ none)
      (starting ++ .bind true :: notified) :=
  (punctual_if_waits Platform.bare .sound ⟨10, true, 5000⟩ ⟨none, none⟩ _ _ rfl).1 _ (by decide)

def hurried : List (StartLabel Unit) :=
  starting ++ notified ++ [.daemon (.reply false true), .bind true]

theorem early_notification_kills :
    (run (step Platform.bare) (start (.empty 10) none) hurried).map
        (fun s => (s.job, s.refused, s.daemon.phase)) = some (.bound, 1, .dead .failed) ∧
      ¬ Always (step Platform.bare) Punctual (start (.empty 10) none) hurried := by
  have hrun : (run (step Platform.bare) (start (.empty 10) none) hurried).map
      (fun s => (s.job, s.refused, s.daemon.phase)) = some (.bound, 1, .dead .failed) := by decide
  refine ⟨hrun, fun h => ?_⟩
  obtain ⟨s, hs, hview⟩ := Option.map_eq_some_iff.mp hrun
  simp only [Prod.mk.injEq] at hview
  have hpunctual : Punctual s := always_iff.mp h _ (List.prefix_refl _) s hs
  exact absurd (hpunctual.1.symm.trans hview.2.1) (by decide)

end Startup

end NotifsPiper

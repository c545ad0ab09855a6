import NotifsPiper.Broadcasts
import NotifsPiper.Daemon
import NotifsPiper.Listener
import NotifsPiper.Runs

/-! The watching processes, write by write. The lock of their map is handed on in the order in
which the tasks come to it; a task that broadcasts keeps it while it waits for one socket after
the other, in whatever order the map is iterated. -/

namespace NotifsPiper

/-- The end of a connection that the daemon writes to: the bytes the system still takes, and
whether the other end is gone. -/
structure Socket where
  room : Nat
  closed : Bool
  deriving DecidableEq, Repr

/-- A transmission with the pid 0, named by the connection it came on. -/
structure Result where
  stream : Conn
  data : String
  deriving DecidableEq, Repr

abbrev Watcher := Sigma fun _ : Pid => Conn × FlagsRepr

abbrev Watcher.stream (e : Watcher) : Conn := e.2.1

abbrev Watcher.silent (e : Watcher) : Bool := Flags.silent.is e.2.2

/-- The local variables of a broadcast, with the entry being written to and what is left of the
transmission. -/
structure Loop where
  result : Result
  rest : List Watcher
  current : Option (Watcher × List UInt8)
  old : List Pid
  read : Bool
  prevl : Nat

inductive Waiting
  | registering (stream : Conn) (pid : Pid) (flags : FlagsRepr)
  | broadcasting (result : Result)
  deriving DecidableEq, Repr

inductive Holder
  | writing (loop : Loop)
  | acknowledging (text : String)

/-- What the tasks have done to the map, whole, in the order of the lock. -/
inductive Event
  | registered (stream : Conn) (pid : Pid) (flags : FlagsRepr)
  | handled (result : Result) (old : List Pid)
  deriving DecidableEq, Repr

/-- The last four fields record what happened: the bytes each socket has taken, the writes that
completed, those that failed, and the tasks that are done with the map. -/
structure Watchers where
  listeningProcesses : AList fun _ : Pid => Conn × FlagsRepr
  lock : Option Holder
  queue : List Waiting
  sockets : Conn → Socket
  accepted : Nat
  taken : Conn → List UInt8
  delivered : List (Conn × Result)
  failed : List (Conn × Result)
  history : List Event

/-- The first four are moves of the clients. -/
inductive Move
  | watch (pid : Pid) (flags : FlagsRepr)
  | transmit (data : String)
  | drain (stream : Conn) (n : Nat)
  | close (stream : Conn)
  | register
  | lock
  | next (i : Nat)
  | tryWrite (answer : Listener.TryWrite)
  | finish
  | acknowledge
  deriving DecidableEq, Repr

def Move.own : Move → Bool
  | .watch .. | .transmit _ | .drain .. | .close _ => false
  | _ => true

/-- What a socket answers to a `try_write`: it takes some of what it has room for. Where the other
end is gone, a write of nothing may fail like any other. -/
def Socket.answers (socket : Socket) (buf : List UInt8) : Listener.TryWrite → Bool
  | .ok n => n ≤ buf.length && (buf.isEmpty || !socket.closed && 0 < n && n ≤ socket.room)
  | .wouldBlock => !buf.isEmpty && !socket.closed && socket.room == 0
  | .failed _ => socket.closed

namespace Loop

def transmission (result : Result) : Transmission := ⟨.outgoing 0, result.data⟩

def bytes (result : Result) : List UInt8 := Utf8.utf8 (transmission result).toStr

def begin (result : Result) (lp : AList fun _ : Pid => Conn × FlagsRepr) : Loop :=
  ⟨result, lp.entries, none, [], false, lp.entries.length⟩

def next (loop : Loop) (i : Nat) : Option Loop :=
  match loop.current with
  | some _ => none
  | none => loop.rest[i]?.map fun e =>
      { loop with rest := loop.rest.eraseIdx i, current := some (e, bytes loop.result) }

def left (loop : Loop) : Option Nat :=
  if loop.old.length ≤ loop.prevl then some (loop.prevl - loop.old.length) else none

/-- What the task goes on with, which is the text of a result that somebody has read. -/
def text (loop : Loop) : Option String :=
  match loop.left with
  -- The subtraction panics, which gives the lock back.
  | none => none
  | some _ =>
    if loop.read then
      match FulfilledJob.fromStr loop.result.data with
      | .ok ⟨.ok (some text), .results⟩ => some text
      | _ => none
    else none

end Loop

namespace Watchers

def start (sockets : Conn → Socket) : Watchers :=
  ⟨∅, none, [], sockets, 0, fun _ => [], [], [], []⟩

def setSocket (w : Watchers) (stream : Conn) (socket : Socket) : Watchers :=
  { w with sockets := Function.update w.sockets stream socket }

@[simp] theorem setSocket_sockets (w : Watchers) (stream stream' : Conn) (socket : Socket) :
    (w.setSocket stream socket).sockets stream' =
      if stream' = stream then socket else w.sockets stream' := by
  simp [setSocket, Function.update_apply]

def take (w : Watchers) (stream : Conn) (buf : List UInt8) (n : Nat) : Watchers :=
  { w.setSocket stream { w.sockets stream with room := (w.sockets stream).room - n } with
    taken := Function.update w.taken stream (w.taken stream ++ buf.take n) }

def tryWrite (w : Watchers) (loop : Loop) (answer : Listener.TryWrite) : Option Watchers :=
  match loop.current with
  | none => none
  | some (e, buf) =>
    let socket := w.sockets e.stream
    if socket.answers buf answer then
      match answer with
      | .wouldBlock => some w
      | .failed _ =>
        let loop := { loop with current := none, old := loop.old ++ [e.1] }
        some { w with
          lock := some (.writing loop)
          failed := w.failed ++ [(e.stream, loop.result)] }
      | .ok n =>
        if buf = [] then
          let loop := { loop with current := none, read := loop.read || !e.silent }
          some { w with
            lock := some (.writing loop)
            delivered := w.delivered ++ [(e.stream, loop.result)] }
        else
          let loop := { loop with current := some (e, buf.drop n) }
          some { w.take e.stream buf n with lock := some (.writing loop) }
    else none

def finish (w : Watchers) (loop : Loop) : Option Watchers :=
  if loop.rest = [] ∧ loop.current = none then
    some { w with
      listeningProcesses := loop.old.foldl (fun lp pid => lp.erase pid) w.listeningProcesses
      lock := loop.text.map .acknowledging
      history := w.history ++ [.handled loop.result loop.old] }
  else none

def step (w : Watchers) : Move → Option Watchers
  | .watch pid flags => some { w with
      queue := w.queue ++ [.registering w.accepted pid flags], accepted := w.accepted + 1 }
  | .transmit data => some { w with
      queue := w.queue ++ [.broadcasting ⟨w.accepted, data⟩], accepted := w.accepted + 1 }
  | .drain stream n =>
    let socket := w.sockets stream
    some (w.setSocket stream { socket with room := socket.room + n })
  | .close stream => some (w.setSocket stream { w.sockets stream with closed := true })
  | .register =>
    match w.lock, w.queue with
    | none, .registering stream pid flags :: queue => some { w with
        queue := queue
        listeningProcesses := w.listeningProcesses.insert pid (stream, flags)
        history := w.history ++ [.registered stream pid flags] }
    | _, _ => none
  | .lock =>
    match w.lock, w.queue with
    | none, .broadcasting result :: queue => some { w with
        queue := queue, lock := some (.writing (.begin result w.listeningProcesses)) }
    | _, _ => none
  | .next i =>
    match w.lock with
    | some (.writing loop) =>
      (loop.next i).map fun loop => { w with lock := some (.writing loop) }
    | _ => none
  | .tryWrite answer =>
    match w.lock with
    | some (.writing loop) => w.tryWrite loop answer
    | _ => none
  | .finish =>
    match w.lock with
    | some (.writing loop) => w.finish loop
    | _ => none
  | .acknowledge =>
    match w.lock with
    | some (.acknowledging _) => some { w with lock := none }
    | _ => none

inductive Moves (w : Watchers) : Move → Watchers → Prop
  | watch (pid : Pid) (flags : FlagsRepr) : Moves w (.watch pid flags) { w with
      queue := w.queue ++ [.registering w.accepted pid flags], accepted := w.accepted + 1 }
  | transmit (data : String) : Moves w (.transmit data) { w with
      queue := w.queue ++ [.broadcasting ⟨w.accepted, data⟩], accepted := w.accepted + 1 }
  | drain (stream : Conn) (n : Nat) : Moves w (.drain stream n)
      (w.setSocket stream { w.sockets stream with room := (w.sockets stream).room + n })
  | close (stream : Conn) : Moves w (.close stream)
      (w.setSocket stream { w.sockets stream with closed := true })
  | register {stream : Conn} {pid : Pid} {flags : FlagsRepr} {queue : List Waiting}
      (hlock : w.lock = none) (hqueue : w.queue = .registering stream pid flags :: queue) :
      Moves w .register { w with
        queue := queue
        listeningProcesses := w.listeningProcesses.insert pid (stream, flags)
        history := w.history ++ [.registered stream pid flags] }
  | lock {result : Result} {queue : List Waiting} (hlock : w.lock = none)
      (hqueue : w.queue = .broadcasting result :: queue) : Moves w .lock { w with
        queue := queue, lock := some (.writing (.begin result w.listeningProcesses)) }
  | next {i : Nat} {loop : Loop} {e : Watcher} (hlock : w.lock = some (.writing loop))
      (hcurrent : loop.current = none) (he : loop.rest[i]? = some e) :
      Moves w (.next i) { w with lock := some (.writing { loop with
        rest := loop.rest.eraseIdx i, current := some (e, Loop.bytes loop.result) }) }
  | blocked {loop : Loop} {e : Watcher} {buf : List UInt8}
      (hlock : w.lock = some (.writing loop)) (hcurrent : loop.current = some (e, buf))
      (hbuf : buf ≠ []) (hfull : (w.sockets e.stream).room = 0)
      (hopen : (w.sockets e.stream).closed = false) : Moves w (.tryWrite .wouldBlock) w
  | broken {loop : Loop} {e : Watcher} {buf : List UInt8} {err : String}
      (hlock : w.lock = some (.writing loop)) (hcurrent : loop.current = some (e, buf))
      (hclosed : (w.sockets e.stream).closed = true) :
      Moves w (.tryWrite (.failed err)) { w with
        lock := some (.writing { loop with current := none, old := loop.old ++ [e.1] })
        failed := w.failed ++ [(e.stream, loop.result)] }
  | written {loop : Loop} {e : Watcher} (hlock : w.lock = some (.writing loop))
      (hcurrent : loop.current = some (e, [])) : Moves w (.tryWrite (.ok 0)) { w with
        lock := some (.writing { loop with current := none, read := loop.read || !e.silent })
        delivered := w.delivered ++ [(e.stream, loop.result)] }
  | taken {loop : Loop} {e : Watcher} {buf : List UInt8} {n : Nat}
      (hlock : w.lock = some (.writing loop)) (hcurrent : loop.current = some (e, buf))
      (hbuf : buf ≠ []) (hn : 0 < n) (hroom : n ≤ (w.sockets e.stream).room)
      (hlen : n ≤ buf.length) (hopen : (w.sockets e.stream).closed = false) :
      Moves w (.tryWrite (.ok n)) { w.take e.stream buf n with
        lock := some (.writing { loop with current := some (e, buf.drop n) }) }
  | finish {loop : Loop} (hlock : w.lock = some (.writing loop)) (hrest : loop.rest = [])
      (hcurrent : loop.current = none) : Moves w .finish { w with
        listeningProcesses := loop.old.foldl (fun lp pid => lp.erase pid) w.listeningProcesses
        lock := loop.text.map .acknowledging
        history := w.history ++ [.handled loop.result loop.old] }
  | acknowledge {text : String} (hlock : w.lock = some (.acknowledging text)) :
      Moves w .acknowledge { w with lock := none }

theorem tryWrite_moves {w w' : Watchers} {loop : Loop} {answer : Listener.TryWrite}
    (hlock : w.lock = some (.writing loop)) (h : w.tryWrite loop answer = some w') :
    Moves w (.tryWrite answer) w' := by
  unfold tryWrite at h
  split at h
  · cases h
  next e buf hcurrent =>
    by_cases hanswers : (w.sockets e.stream).answers buf answer = true
    swap
    · simp [hanswers] at h
    simp only [hanswers, if_true] at h
    cases answer with
    | wouldBlock =>
      cases h
      simp only [Socket.answers, Bool.and_eq_true, beq_iff_eq, Bool.not_eq_true',
        List.isEmpty_eq_false_iff] at hanswers
      exact .blocked hlock hcurrent hanswers.1.1 hanswers.2 hanswers.1.2
    | failed err =>
      cases h
      exact .broken hlock hcurrent hanswers
    | ok n =>
      simp only [Socket.answers, List.isEmpty_iff, Bool.or_eq_true, Bool.and_eq_true,
        decide_eq_true_eq, Bool.not_eq_true'] at hanswers
      obtain ⟨hlen, hanswers⟩ := hanswers
      by_cases hbuf : buf = []
      · subst hbuf
        obtain rfl : n = 0 := Nat.le_zero.mp hlen
        simp only [if_true] at h
        cases h
        exact .written hlock hcurrent
      · simp only [hbuf, if_false] at h
        cases h
        obtain ⟨⟨hopen, hn⟩, hroom⟩ := hanswers.resolve_left hbuf
        exact .taken hlock hcurrent hbuf hn hroom hlen hopen

theorem step_moves {w w' : Watchers} {m : Move} (h : w.step m = some w') : Moves w m w' := by
  cases m with
  | watch pid flags => cases h; exact .watch pid flags
  | transmit data => cases h; exact .transmit data
  | drain stream n => cases h; exact .drain stream n
  | close stream => cases h; exact .close stream
  | register =>
    simp only [step] at h
    split at h
    next hlock hqueue => cases h; exact .register hlock hqueue
    · cases h
  | lock =>
    simp only [step] at h
    split at h
    next hlock hqueue => cases h; exact .lock hlock hqueue
    · cases h
  | next i =>
    simp only [step] at h
    split at h
    next loop hlock =>
      obtain ⟨loop', hnext, rfl⟩ := Option.map_eq_some_iff.mp h
      unfold Loop.next at hnext
      split at hnext
      · cases hnext
      next hcurrent =>
        obtain ⟨e, he, rfl⟩ := Option.map_eq_some_iff.mp hnext
        exact .next hlock hcurrent he
    · cases h
  | tryWrite answer =>
    simp only [step] at h
    split at h
    next loop hlock => exact tryWrite_moves hlock h
    · cases h
  | finish =>
    simp only [step] at h
    split at h
    next loop hlock =>
      unfold finish at h
      split_ifs at h with hdone
      cases h
      exact .finish hlock hdone.1 hdone.2
    · cases h
  | acknowledge =>
    simp only [step] at h
    split at h
    next text hlock => cases h; exact .acknowledge hlock
    · cases h

theorem moves_step {w w' : Watchers} {m : Move} (h : Moves w m w') : w.step m = some w' := by
  cases h with
  | watch pid flags => rfl
  | transmit data => rfl
  | drain stream n => rfl
  | close stream => rfl
  | register hlock hqueue => simp [step, hlock, hqueue]
  | lock hlock hqueue => simp [step, hlock, hqueue]
  | next hlock hcurrent he => simp [step, hlock, Loop.next, hcurrent, he]
  | blocked hlock hcurrent hbuf hfull hopen =>
    simp [step, hlock, tryWrite, hcurrent, Socket.answers, hbuf, hfull, hopen]
  | broken hlock hcurrent hclosed =>
    simp [step, hlock, tryWrite, hcurrent, Socket.answers, hclosed]
  | written hlock hcurrent => simp [step, hlock, tryWrite, hcurrent, Socket.answers]
  | taken hlock hcurrent hbuf hn hroom hlen hopen =>
    simp [step, hlock, tryWrite, hcurrent, Socket.answers, hbuf, hn, hroom, hlen, hopen]
  | finish hlock hrest hcurrent => simp [step, hlock, finish, hrest, hcurrent]
  | acknowledge hlock => simp [step, hlock]

theorem idle_writes {w w' : Watchers} {loop : Loop} {answers : List Listener.TryWrite}
    (hlock : w.lock = some (.writing loop)) (hcurrent : loop.current = none)
    (hrun : Runs.run step w (answers.map .tryWrite) = some w') : w' = w := by
  cases answers with
  | nil => exact (Option.some.inj hrun).symm
  | cons answer answers =>
    obtain ⟨m, hm, -⟩ := Runs.run_cons_some.mp hrun
    simp [step, hlock, tryWrite, hcurrent] at hm

/-- The rounds on one entry are a `write` of the listener: its socket takes the bytes that the
write puts into the stream, and the end of it is recorded. -/
theorem rounds_write {w w' : Watchers} {loop : Loop} {e : Watcher} {buf : List UInt8}
    {answers : List Listener.TryWrite} (hlock : w.lock = some (.writing loop))
    (hcurrent : loop.current = some (e, buf))
    (hrun : Runs.run step w (answers.map .tryWrite) = some w') :
    w'.taken = Function.update w.taken e.stream
        (w.taken e.stream ++ (Listener.writeFrom buf answers).1) ∧
      ((Listener.writeFrom buf answers).2 = some (.ok ()) →
        w'.delivered = w.delivered ++ [(e.stream, loop.result)] ∧ w'.failed = w.failed) ∧
      ∀ err, (Listener.writeFrom buf answers).2 = some (.error err) →
        w'.delivered = w.delivered ∧ w'.failed = w.failed ++ [(e.stream, loop.result)] := by
  induction answers generalizing w loop buf with
  | nil =>
    cases hrun
    exact ⟨by simp [Listener.writeFrom], fun h => (nomatch h), fun err h => (nomatch h)⟩
  | cons answer answers ih =>
    obtain ⟨m, hm, hrest⟩ := Runs.run_cons_some.mp hrun
    have hmoves := step_moves hm
    cases hmoves with
    | blocked hlock' hcurrent' hbuf hfull => exact ih hlock hcurrent hrest
    | broken hlock' hcurrent' hclosed =>
      cases hlock.symm.trans hlock'
      cases hcurrent.symm.trans hcurrent'
      have hend := idle_writes rfl rfl hrest
      subst hend
      refine ⟨by simp [Listener.writeFrom], fun h => ?_, fun _ _ => ⟨rfl, rfl⟩⟩
      simp [Listener.writeFrom] at h
    | written hlock' hcurrent' =>
      cases hlock.symm.trans hlock'
      cases hcurrent.symm.trans hcurrent'
      have hend := idle_writes rfl rfl hrest
      subst hend
      refine ⟨by simp [Listener.writeFrom], fun _ => ⟨rfl, rfl⟩, fun err h => ?_⟩
      simp [Listener.writeFrom] at h
    | taken hlock' hcurrent' hbuf hn hroom hlen =>
      cases hlock.symm.trans hlock'
      cases hcurrent.symm.trans hcurrent'
      obtain ⟨htaken, hended⟩ := ih rfl rfl hrest
      simp only [Listener.writeFrom, hbuf, if_false]
      refine ⟨?_, hended⟩
      rw [htaken]
      simp [take]

end Watchers

/-! The same tasks one after the other, each of them whole. -/

structure Service where
  listening : AList fun _ : Pid => Conn × FlagsRepr
  delivered : List (Conn × Result)
  failed : List (Conn × Result)

def Watcher.tag (result : Result) (e : Watcher) : Conn × Result := (e.stream, result)

namespace Service

def serve (s : Service) : Event → Service
  | .registered stream pid flags =>
    { s with listening := s.listening.insert pid (stream, flags) }
  | .handled result old =>
    { listening := old.foldl (fun lp pid => lp.erase pid) s.listening
      delivered := s.delivered ++
        (s.listening.entries.filter fun e => e.1 ∉ old).map (Watcher.tag result)
      failed := s.failed ++
        (s.listening.entries.filter fun e => e.1 ∈ old).map (Watcher.tag result) }

def replay (history : List Event) : Service := history.foldl serve ⟨∅, [], []⟩

theorem replay_append (history later : List Event) :
    replay (history ++ later) = later.foldl serve (replay history) := List.foldl_append ..

end Service

theorem kerase_filter (pid : Pid) {entries : List Watcher} (h : entries.NodupKeys) :
    entries.kerase pid = entries.filter fun e => e.1 ≠ pid := by
  induction entries with
  | nil => rfl
  | cons e entries ih =>
    obtain ⟨hkey, hrest⟩ := List.nodupKeys_cons.mp h
    by_cases he : pid = e.1
    · subst he
      rw [List.kerase_cons_eq rfl, List.filter_cons_of_neg (by simp), List.filter_eq_self.mpr]
      intro e' hmem
      have hne : e'.1 ≠ e.1 := fun heq => hkey (heq ▸ List.mem_keys_of_mem hmem)
      simpa using hne
    · rw [List.kerase_cons_ne he, ih hrest, List.filter_cons_of_pos (by simpa using Ne.symm he)]

theorem foldl_erase_entries (old : List Pid) (lp : AList fun _ : Pid => Conn × FlagsRepr) :
    (old.foldl (fun lp pid => lp.erase pid) lp).entries = lp.entries.filter fun e => e.1 ∉ old := by
  induction old generalizing lp with
  | nil => simp
  | cons pid old ih =>
    have herase : (lp.erase pid).entries = lp.entries.filter fun e => e.1 ≠ pid := by
      exact kerase_filter pid lp.nodupKeys
    rw [List.foldl_cons, ih, herase, List.filter_filter]
    congr 1
    funext e
    simp [Bool.and_comm]

/-- The loop has written to some of the entries of the map, has found others gone, and has the
rest before it. -/
structure Loop.Halfway (loop : Loop) (entries written gone : List Watcher) : Prop where
  split : (written ++ gone ++ (loop.current.map Prod.fst).toList ++ loop.rest).Perm entries
  old : loop.old = gone.map Sigma.fst
  read : loop.read = written.any fun e => !e.silent
  prevl : loop.prevl = entries.length

namespace Loop.Halfway

variable {loop : Loop} {entries written gone : List Watcher} {e : Watcher}

theorem next {i : Nat} (h : loop.Halfway entries written gone) (hcurrent : loop.current = none)
    (he : loop.rest[i]? = some e) (buf : List UInt8) :
    { loop with rest := loop.rest.eraseIdx i, current := some (e, buf) }.Halfway entries written
      gone := by
  refine ⟨?_, h.old, h.read, h.prevl⟩
  have hsplit := h.split
  rw [hcurrent, Option.map_none, Option.toList_none, List.append_nil] at hsplit
  rw [Option.map_some, Option.toList_some, List.append_assoc]
  have hrest := Daemon.perm_cons_eraseIdx he
  exact (hrest.symm.append_left _).trans hsplit

theorem taken {buf buf' : List UInt8} (h : loop.Halfway entries written gone)
    (hcurrent : loop.current = some (e, buf)) :
    { loop with current := some (e, buf') }.Halfway entries written gone := by
  have hsplit := h.split
  rw [hcurrent] at hsplit
  exact ⟨hsplit, h.old, h.read, h.prevl⟩

theorem broken {buf : List UInt8} (h : loop.Halfway entries written gone)
    (hcurrent : loop.current = some (e, buf)) :
    { loop with current := none, old := loop.old ++ [e.1] }.Halfway entries written
      (gone ++ [e]) := by
  refine ⟨?_, by simp [h.old], h.read, h.prevl⟩
  have hsplit := h.split
  rw [hcurrent] at hsplit
  simpa using hsplit

theorem reached (h : loop.Halfway entries written gone) (hcurrent : loop.current = some (e, [])) :
    { loop with current := none, read := loop.read || !e.silent }.Halfway entries
      (written ++ [e]) gone := by
  refine ⟨?_, h.old, by simp [h.read], h.prevl⟩
  have hsplit := h.split
  rw [hcurrent] at hsplit
  refine List.Perm.trans ?_ hsplit
  simp only [Option.map_none, Option.toList_none, List.append_nil, Option.map_some,
    Option.toList_some]
  refine List.Perm.append_right _ ?_
  rw [List.append_assoc, List.append_assoc]
  exact List.perm_append_comm.append_left _

theorem old_length (h : loop.Halfway entries written gone) : loop.old.length ≤ loop.prevl := by
  have hlen := h.split.length_eq
  rw [h.old, h.prevl, List.length_map]
  simp only [List.length_append] at hlen
  omega

theorem done {lp : AList fun _ : Pid => Conn × FlagsRepr}
    (h : loop.Halfway lp.entries written gone) (hrest : loop.rest = [])
    (hcurrent : loop.current = none) :
    (lp.entries.filter fun e => e.1 ∉ loop.old).Perm written ∧
      (lp.entries.filter fun e => e.1 ∈ loop.old).Perm gone := by
  have hsplit := h.split
  rw [hrest, hcurrent, Option.map_none, Option.toList_none, List.append_nil, List.append_nil]
    at hsplit
  have hkeys : (written ++ gone).NodupKeys := (List.perm_nodupKeys hsplit).mpr lp.nodupKeys
  have hapart : ∀ e ∈ written, e.1 ∉ loop.old := by
    intro e hmem hold
    rw [h.old] at hold
    obtain ⟨e', hmem', heq⟩ := List.mem_map.mp hold
    rw [List.NodupKeys, List.keys, List.map_append, List.nodup_append] at hkeys
    exact hkeys.2.2 e.1 (List.mem_map_of_mem hmem) e'.1 (List.mem_map_of_mem hmem') heq.symm
  have hgone : ∀ e ∈ gone, e.1 ∈ loop.old := by
    intro e hmem
    rw [h.old]
    exact List.mem_map_of_mem hmem
  constructor
  · refine (hsplit.symm.filter _).trans ?_
    rw [List.filter_append, List.filter_eq_self.mpr (by simpa using hapart),
      List.filter_eq_nil_iff.mpr (by simpa using hgone), List.append_nil]
  · refine (hsplit.symm.filter _).trans ?_
    rw [List.filter_append, List.filter_eq_nil_iff.mpr (by simpa using hapart),
      List.filter_eq_self.mpr (by simpa using hgone), List.nil_append]

end Loop.Halfway

/-- What the records say, beyond the tasks that are done with the map. -/
structure Standing (history : List Event) (lp : AList fun _ : Pid => Conn × FlagsRepr)
    (delivered failed written gone : List (Conn × Result)) : Prop where
  listening : lp = (Service.replay history).listening
  delivered : delivered.Perm ((Service.replay history).delivered ++ written)
  failed : failed.Perm ((Service.replay history).failed ++ gone)

namespace Standing

variable {history : List Event} {lp : AList fun _ : Pid => Conn × FlagsRepr}
  {delivered failed : List (Conn × Result)}

theorem registered (h : Standing history lp delivered failed [] []) (stream : Conn) (pid : Pid)
    (flags : FlagsRepr) :
    Standing (history ++ [.registered stream pid flags]) (lp.insert pid (stream, flags)) delivered
      failed [] [] := by
  obtain ⟨rfl, hdelivered, hfailed⟩ := h
  refine ⟨?_, ?_, ?_⟩ <;> rw [Service.replay_append]
  · rfl
  · exact hdelivered
  · exact hfailed

theorem handled {result : Result} {old : List Pid} {written gone : List Watcher}
    (h : Standing history lp delivered failed (written.map (Watcher.tag result))
      (gone.map (Watcher.tag result)))
    (hwritten : (lp.entries.filter fun e => e.1 ∉ old).Perm written)
    (hgone : (lp.entries.filter fun e => e.1 ∈ old).Perm gone) :
    Standing (history ++ [.handled result old]) (old.foldl (fun lp pid => lp.erase pid) lp)
      delivered failed [] [] := by
  obtain ⟨rfl, hdelivered, hfailed⟩ := h
  refine ⟨?_, ?_, ?_⟩ <;> rw [Service.replay_append]
  · rfl
  · rw [List.append_nil]
    exact hdelivered.trans ((hwritten.map _).symm.append_left _)
  · rw [List.append_nil]
    exact hfailed.trans ((hgone.map _).symm.append_left _)

end Standing

namespace Watchers

def Matches (w : Watchers) : Prop :=
  match w.lock with
  | some (.writing loop) => ∃ written gone : List Watcher,
      loop.Halfway w.listeningProcesses.entries written gone ∧
        Standing w.history w.listeningProcesses w.delivered w.failed
          (written.map (Watcher.tag loop.result)) (gone.map (Watcher.tag loop.result))
  | _ => Standing w.history w.listeningProcesses w.delivered w.failed [] []

theorem Matches.writing {w : Watchers} (hw : Matches w) {loop : Loop}
    (hlock : w.lock = some (.writing loop)) : ∃ written gone : List Watcher,
      loop.Halfway w.listeningProcesses.entries written gone ∧
        Standing w.history w.listeningProcesses w.delivered w.failed
          (written.map (Watcher.tag loop.result)) (gone.map (Watcher.tag loop.result)) := by
  rw [Matches, hlock] at hw
  exact hw

theorem Matches.resting {w : Watchers} (hw : Matches w)
    (hlock : ∀ loop, w.lock ≠ some (.writing loop)) :
    Standing w.history w.listeningProcesses w.delivered w.failed [] [] := by
  unfold Matches at hw
  split at hw
  next loop hwriting => exact absurd hwriting (hlock loop)
  · exact hw

theorem step_matches {w w' : Watchers} {m : Move} (hw : Matches w) (h : w.step m = some w') :
    Matches w' := by
  cases step_moves h with
  | watch pid flags => exact hw
  | transmit data => exact hw
  | drain stream n => exact hw
  | close stream => exact hw
  | register hlock hqueue =>
    have hstanding := (hw.resting (by simp [hlock])).registered
    unfold Matches
    simp only [hlock]
    exact hstanding _ _ _
  | lock hlock hqueue =>
    have hstanding := hw.resting (by simp [hlock])
    exact ⟨[], [], ⟨List.Perm.refl _, rfl, rfl, rfl⟩, hstanding⟩
  | next hlock hcurrent he =>
    obtain ⟨written, gone, hhalf, hstanding⟩ := hw.writing hlock
    exact ⟨written, gone, hhalf.next hcurrent he _, hstanding⟩
  | blocked hlock hcurrent hbuf hfull => exact hw
  | @broken loop e buf err hlock hcurrent hclosed =>
    obtain ⟨written, gone, hhalf, hstanding⟩ := hw.writing hlock
    refine ⟨written, gone ++ [e], hhalf.broken hcurrent, hstanding.listening,
      hstanding.delivered, ?_⟩
    rw [List.map_append, ← List.append_assoc]
    exact hstanding.failed.append_right _
  | @written loop e hlock hcurrent =>
    obtain ⟨written, gone, hhalf, hstanding⟩ := hw.writing hlock
    refine ⟨written ++ [e], gone, hhalf.reached hcurrent, hstanding.listening, ?_,
      hstanding.failed⟩
    rw [List.map_append, ← List.append_assoc]
    exact hstanding.delivered.append_right _
  | taken hlock hcurrent hbuf hn hroom hlen =>
    obtain ⟨written, gone, hhalf, hstanding⟩ := hw.writing hlock
    exact ⟨written, gone, hhalf.taken hcurrent, hstanding⟩
  | @finish loop hlock hrest hcurrent =>
    obtain ⟨written, gone, hhalf, hstanding⟩ := hw.writing hlock
    obtain ⟨hwritten, hgone⟩ := hhalf.done hrest hcurrent
    have hhandled := hstanding.handled hwritten hgone
    unfold Matches
    cases loop.text with
    | none => exact hhandled
    | some text => exact hhandled
  | acknowledge hlock =>
    have hstanding := hw.resting (by simp [hlock])
    exact hstanding

theorem start_matches (sockets : Conn → Socket) : Matches (start sockets) :=
  ⟨rfl, List.Perm.refl _, List.Perm.refl _⟩

end Watchers

/-! The daemon does the same, in one step for each task. -/

variable {Value : Type}

def Daemon.attend (d : Daemon Value) : Event → Daemon Value
  | .registered stream pid flags =>
    { d with listeningProcesses := d.listeningProcesses.insert pid (stream, flags) }
  | .handled result old => d.broadcast result.data old

theorem attend_registered {platform : Platform Value} {written : Bool} {broken : List Pid}
    {d : Daemon Value} {stream : Conn} {pid : Pid} {data : String} {jobd : JobDesc Value}
    (hdecode : (JobDesc.fromStr platform data).run = some (.ok jobd))
    (hwatch : jobd.cmd.canonicalName = "watch") (hfree : d.tasks.any ListenerTask.holdsLp = false) :
    (ListenerTask.received stream ⟨.incoming pid, data⟩).step platform written broken d =
      some (d.attend (.registered stream pid jobd.desc.flags)) := by
  simp [ListenerTask.step, hdecode, hwatch, hfree, Daemon.attend]

theorem attend_handled {platform : Platform Value} {written : Bool} {old : List Pid}
    {d : Daemon Value} (result : Result) (hfree : d.tasks.any ListenerTask.holdsLp = false) :
    (ListenerTask.received result.stream (Loop.transmission result)).step platform written old d =
      some (d.attend (.handled result old)) := by
  simp [ListenerTask.step, Loop.transmission, hfree, Daemon.attend]

theorem broadcast_listening (d : Daemon Value) (data : String) (old : List Pid) :
    (d.broadcast data old).listeningProcesses =
        old.foldl (fun lp pid => lp.erase pid) d.listeningProcesses ∧
      (d.broadcast data old).delivered = d.delivered ++
        (d.listeningProcesses.entries.filter fun e => e.1 ∉ old).map fun e =>
          (e.2.1, ⟨.outgoing 0, data⟩) := by
  have hsame : ((d.listeningProcesses.entries.filter fun e => e.1 ∈ old).map Sigma.fst).foldl
      (fun lp pid => lp.erase pid) d.listeningProcesses =
        old.foldl (fun lp pid => lp.erase pid) d.listeningProcesses := by
    apply AList.ext
    rw [foldl_erase_entries, foldl_erase_entries]
    refine List.filter_congr fun e he => ?_
    have hmem : e.1 ∈ (d.listeningProcesses.entries.filter fun e => e.1 ∈ old).map Sigma.fst ↔
        e.1 ∈ old := by
      refine ⟨fun h => ?_, fun h => ?_⟩
      swap
      · exact List.mem_map_of_mem (List.mem_filter.mpr ⟨he, by simpa using h⟩)
      obtain ⟨e', he', heq⟩ := List.mem_map.mp h
      rw [← heq]
      simpa using (List.mem_filter.mp he').2
    simp only [hmem]
  have hreached : d.listeningProcesses.entries.filter (not ∘ fun e => decide (e.1 ∈ old)) =
      d.listeningProcesses.entries.filter fun e => e.1 ∉ old := by
    refine List.filter_congr fun e _ => ?_
    simp
  rw [← hsame, ← hreached]
  unfold Daemon.broadcast
  rw [List.partition_eq_filter_filter]
  dsimp only
  split_ifs
  · split <;> exact ⟨rfl, rfl⟩
  · exact ⟨rfl, rfl⟩

namespace Watchers

/-- What reached a watcher, as the daemon records it. -/
def wire (write : Conn × Result) : Conn × Transmission := (write.1, Loop.transmission write.2)

theorem attend_replay (d : Daemon Value) (hd : d.listeningProcesses = ∅)
    (hdelivered : d.delivered = []) (history : List Event) :
    (history.foldl Daemon.attend d).listeningProcesses = (Service.replay history).listening ∧
      (history.foldl Daemon.attend d).delivered = (Service.replay history).delivered.map wire := by
  induction history using List.reverseRecOn with
  | nil => exact ⟨hd, hdelivered⟩
  | append_singleton history event ih =>
    obtain ⟨hlistening, hwritten⟩ := ih
    rw [List.foldl_append, Service.replay_append]
    cases event with
    | registered stream pid flags =>
      refine ⟨?_, hwritten⟩
      simp only [List.foldl_cons, List.foldl_nil, Daemon.attend, Service.serve, hlistening]
    | handled result old =>
      obtain ⟨hkept, hreached⟩ :=
        broadcast_listening (history.foldl Daemon.attend d) result.data old
      rw [hlistening] at hkept hreached
      refine ⟨hkept, hreached.trans ?_⟩
      rw [hwritten]
      simp only [List.foldl_cons, List.foldl_nil, Service.serve, List.map_append, List.map_map]
      rfl

/-- Between two tasks with the lock, the map is what the daemon makes of it when it takes the
tasks one after the other, and the watchers have what it sends them. -/
theorem watchers_refine (sockets : Conn → Socket) (moves : List Move) (w : Watchers)
    (hrun : Runs.run step (start sockets) moves = some w)
    (hlock : ∀ loop, w.lock ≠ some (.writing loop)) (man : LogsManager Value)
    (logsFile : Option (List UInt8)) :
    let d := w.history.foldl Daemon.attend (Daemon.start man logsFile)
    w.listeningProcesses = d.listeningProcesses ∧ (w.delivered.map wire).Perm d.delivered := by
  have hw := Runs.run_invariant (fun _ _ _ => step_matches) (start_matches sockets) hrun
  have hstanding := hw.resting hlock
  obtain ⟨hlistening, hdelivered⟩ :=
    attend_replay (Daemon.start man logsFile) rfl rfl w.history
  refine ⟨hstanding.listening.trans hlistening.symm, ?_⟩
  rw [hdelivered]
  have hperm := hstanding.delivered
  rw [List.append_nil] at hperm
  exact hperm.map wire

/-- The end of a loop goes on to acknowledge exactly when the broadcast of the daemon does. -/
theorem text_iff {w : Watchers} (hw : Matches w) {loop : Loop}
    (hlock : w.lock = some (.writing loop)) (hrest : loop.rest = [])
    (hcurrent : loop.current = none) (d : Daemon Value)
    (hd : d.listeningProcesses = w.listeningProcesses) (text : String) :
    loop.text = some text ↔ Broadcasts.Acknowledges d loop.old loop.result.data text := by
  obtain ⟨written, gone, hhalf, -⟩ := hw.writing hlock
  obtain ⟨hwritten, -⟩ := hhalf.done hrest hcurrent
  have hread : loop.read = true ↔ Broadcasts.Reached d loop.old := by
    rw [hhalf.read, List.any_eq_true, Broadcasts.Reached, hd]
    constructor
    · rintro ⟨e, he, hsilent⟩
      obtain ⟨hmem, hold⟩ := List.mem_filter.mp (hwritten.mem_iff.mpr he)
      exact ⟨e, hmem, by simpa using hold, by simpa using hsilent⟩
    · rintro ⟨e, hmem, hold, hsilent⟩
      have he := hwritten.mem_iff.mp (List.mem_filter.mpr ⟨hmem, by simpa using hold⟩)
      exact ⟨e, he, by simpa using hsilent⟩
  rw [Broadcasts.acknowledges_iff, ← hread]
  unfold Loop.text Loop.left
  rw [if_pos hhalf.old_length]
  by_cases hsome : loop.read = true
  · simp only [hsome, if_true, true_and]
    split
    next found hdecode => simp [hdecode]
    next hdecode => simpa using hdecode text
  · simp [hsome]

end Watchers

end NotifsPiper

import NotifsPiper.Fanout

/-! What holds up a broadcast. The task that writes to a full socket waits with the lock, and
everyone who wants the lock waits with it; where every socket has room for what comes before a
task, or its other end is gone, that task gets its turn. -/

namespace NotifsPiper

open Runs

def Loop.demand (loop : Loop) (stream : Conn) : Nat :=
  (loop.current.elim 0 fun c => if c.1.stream = stream then c.2.length else 0) +
    loop.rest.countP (fun e => e.stream = stream) * (Loop.bytes loop.result).length

def Loop.weight (loop : Loop) : Nat :=
  (loop.current.elim 0 fun c => c.2.length + 1) +
    loop.rest.length * ((Loop.bytes loop.result).length + 2)

def Holder.demand (stream : Conn) : Holder → Nat
  | .writing loop => loop.demand stream
  | .acknowledging _ => 0

def Holder.weight : Holder → Nat
  | .writing loop => loop.weight + 2
  | .acknowledging _ => 1

def Waiting.reader : Waiting → Option Conn
  | .registering stream .. => some stream
  | .broadcasting _ => none

/-- The bytes that tasks write to a stream, one task after the other, from a map on: those of a
result where the stream is in the map at its turn. -/
def need (stream : Conn) : List Waiting → (AList fun _ : Pid => Conn × FlagsRepr) → Nat
  | [], _ => 0
  | .registering stream' pid flags :: queue, lp =>
    need stream queue (lp.insert pid (stream', flags))
  | .broadcasting result :: queue, lp =>
    (if stream ∈ lp.entries.map Watcher.stream then (Loop.bytes result).length else 0) +
      need stream queue lp

/-- The tasks of a queue up to the given one, which is the last of them. -/
def upTo (task : Waiting) (queue : List Waiting) : List Waiting :=
  if task ∈ queue then queue.takeWhile (· ≠ task) ++ [task] else []

namespace Watchers

def demand (w : Watchers) (task : Waiting) (stream : Conn) : Nat :=
  w.lock.elim 0 (Holder.demand stream) + need stream (upTo task w.queue) w.listeningProcesses

def readers (w : Watchers) (task : Waiting) : List Conn :=
  w.listeningProcesses.entries.map Watcher.stream ++
    (upTo task w.queue).filterMap Waiting.reader

/-- Whoever watches is gone, or has room for what is written before the task is done. -/
def Fits (w : Watchers) (task : Waiting) : Prop :=
  ∀ stream ∈ w.readers task, (w.sockets stream).closed = true ∨
    w.demand task stream ≤ (w.sockets stream).room

/-- The task waits for the lock, or has it for a broadcast. -/
def Pending (w : Watchers) (task : Waiting) : Prop :=
  task ∈ w.queue ∨ ∃ loop, w.lock = some (.writing loop) ∧ task = .broadcasting loop.result

/-- The stream has taken the bytes of results, one after the other, and this is one of them. -/
def Written (w : Watchers) (stream : Conn) (result : Result) : Prop :=
  ∃ before after tail, w.received stream = before ++ result :: after ∧
    w.taken stream = (before ++ result :: after).flatMap Result.encoded ++ tail

/-- Wherever the daemon goes on its own, it can go on from there to a state with `P`. -/
def Reaches (w : Watchers) (P : Watchers → Prop) : Prop :=
  ∀ own, (∀ m ∈ own, m.own = true) → ∀ w', run step w own = some w' →
    ∃ own' w'', (∀ m ∈ own', m.own = true) ∧ run step w' own' = some w'' ∧ P w''

theorem Carried.written {w : Watchers} {stream : Conn} {result : Result}
    (hcarried : Carried w stream) (hdelivered : (stream, result) ∈ w.delivered) :
    Written w stream result := by
  obtain ⟨tail, htaken, -⟩ := hcarried
  have hmem : result ∈ w.received stream := by
    refine List.mem_map.mpr ⟨(stream, result), List.mem_filter.mpr ⟨hdelivered, ?_⟩, rfl⟩
    simp
  obtain ⟨before, after, hreceived⟩ := List.append_of_mem hmem
  exact ⟨before, after, tail, hreceived, hreceived ▸ htaken⟩

/-! A full socket. -/

theorem upTo_self {task : Waiting} {queue : List Waiting} (hnew : task ∉ queue) :
    upTo task (task :: queue) = [task] ∧ upTo task queue = [] := by
  simp [upTo, hnew]

theorem upTo_other {task first : Waiting} {queue : List Waiting} (hne : first ≠ task)
    (hmem : task ∈ queue) : upTo task (first :: queue) = first :: upTo task queue := by
  simp [upTo, hmem, hne]

theorem upTo_shorter {task first : Waiting} {queue : List Waiting} (hnew : first ∉ queue)
    (hmem : task ∈ first :: queue) :
    (upTo task queue).length < (upTo task (first :: queue)).length := by
  rcases List.mem_cons.mp hmem with rfl | hmem
  · rw [(upTo_self hnew).1, (upTo_self hnew).2]
    exact Nat.one_pos
  · have hne : first ≠ task := fun heq => hnew (heq ▸ hmem)
    rw [upTo_other hne hmem]
    exact Nat.lt_succ_self _

theorem need_mono (stream : Conn) (queue : List Waiting)
    {lp lp' : AList fun _ : Pid => Conn × FlagsRepr} (h : lp'.entries ⊆ lp.entries) :
    need stream queue lp' ≤ need stream queue lp := by
  induction queue generalizing lp lp' with
  | nil => exact Nat.le_refl _
  | cons task queue ih =>
    cases task with
    | registering stream' pid flags =>
      refine ih fun e he => ?_
      exact mem_insert.mpr ((mem_insert.mp he).imp_right fun hold => ⟨h hold.1, hold.2⟩)
    | broadcasting result =>
      refine Nat.add_le_add ?_ (ih h)
      by_cases hlisted : stream ∈ lp'.entries.map Watcher.stream
      · rw [if_pos hlisted, if_pos (List.map_subset _ h hlisted)]
      · rw [if_neg hlisted]
        exact Nat.zero_le _

theorem Numbered.first {w : Watchers} (h : Numbered w) {task : Waiting} {queue : List Waiting}
    (hqueue : w.queue = task :: queue) : task ∉ queue := by
  intro hmem
  have hstreams := h.streams
  rw [Watchers.streams, hqueue, List.map_cons] at hstreams
  have hlater := hstreams.of_append_right
  exact (List.nodup_cons.mp hlater).1 (List.mem_map_of_mem hmem)

theorem text_not_writing (loop loop' : Loop) :
    loop.text.map Holder.acknowledging ≠ some (.writing loop') := by
  cases loop.text <;> simp

theorem step_pending {w w' : Watchers} {task : Waiting} {m : Move} (hown : m.own = true)
    (h : w.step m = some w') (hpending : Pending w' task) : Pending w task := by
  cases step_moves h with
  | watch pid flags => cases hown
  | transmit data => cases hown
  | drain stream n => cases hown
  | close stream => cases hown
  | register hlock hqueue =>
    rcases hpending with hmem | ⟨loop, hwriting, -⟩
    · rw [Pending, hqueue]
      exact Or.inl (List.mem_cons_of_mem _ hmem)
    · cases hlock.symm.trans hwriting
  | lock hlock hqueue =>
    rw [Pending, hqueue]
    rcases hpending with hmem | ⟨loop, hwriting, rfl⟩
    · exact Or.inl (List.mem_cons_of_mem _ hmem)
    · cases hwriting
      exact Or.inl List.mem_cons_self
  | next hlock hcurrent he =>
    refine hpending.imp_right ?_
    rintro ⟨loop, hwriting, rfl⟩
    cases hwriting
    exact ⟨_, hlock, rfl⟩
  | blocked hlock hcurrent hbuf hfull => exact hpending
  | broken hlock hcurrent hclosed =>
    refine hpending.imp_right ?_
    rintro ⟨loop, hwriting, rfl⟩
    cases hwriting
    exact ⟨_, hlock, rfl⟩
  | written hlock hcurrent =>
    refine hpending.imp_right ?_
    rintro ⟨loop, hwriting, rfl⟩
    cases hwriting
    exact ⟨_, hlock, rfl⟩
  | taken hlock hcurrent hbuf hn hroom hlen =>
    refine hpending.imp_right ?_
    rintro ⟨loop, hwriting, rfl⟩
    cases hwriting
    exact ⟨_, hlock, rfl⟩
  | @finish loop hlock hrest hcurrent =>
    refine hpending.imp_right ?_
    rintro ⟨loop', hwriting, -⟩
    exact absurd hwriting (text_not_writing loop loop')
  | acknowledge hlock =>
    refine hpending.imp_right ?_
    rintro ⟨loop, hwriting, -⟩
    cases hwriting

/-! Sockets with room. -/

structure Eases (task : Waiting) (w w' : Watchers) : Prop where
  readers : w'.readers task ⊆ w.readers task
  closed : ∀ stream, (w.sockets stream).closed = true → (w'.sockets stream).closed = true
  demand : ∀ stream, w'.demand task stream + (w.sockets stream).room ≤
    w.demand task stream + (w'.sockets stream).room

theorem Eases.fits {task : Waiting} {w w' : Watchers} (h : Eases task w w') (hw : Fits w task) :
    Fits w' task := by
  intro stream hmem
  rcases hw stream (h.readers hmem) with hclosed | hroom
  · exact Or.inl (h.closed stream hclosed)
  · right
    have hless := h.demand stream
    omega

theorem setRoom_closed (w : Watchers) (stream : Conn) (room : Nat) (stream' : Conn) :
    ((w.setSocket stream { w.sockets stream with room := room }).sockets stream').closed =
      (w.sockets stream').closed := by
  rw [setSocket_sockets]
  split_ifs with hstream
  · rw [hstream]
  · rfl

theorem take_closed (w : Watchers) (stream : Conn) (buf : List UInt8) (n : Nat) (stream' : Conn) :
    ((w.take stream buf n).sockets stream').closed = (w.sockets stream').closed :=
  setRoom_closed w stream _ stream'

theorem begin_demand (result : Result) {lp : AList fun _ : Pid => Conn × FlagsRepr}
    (hstreams : (lp.entries.map Watcher.stream).Nodup) (stream : Conn) :
    (Loop.begin result lp).demand stream ≤
      if stream ∈ lp.entries.map Watcher.stream then (Loop.bytes result).length else 0 := by
  have hcount : lp.entries.countP (fun e : Watcher => e.stream = stream) =
      (lp.entries.map Watcher.stream).count stream := by
    rw [List.count, List.countP_map]
    rfl
  simp only [Loop.demand, Loop.begin, Option.elim_none, Nat.zero_add, hcount]
  split_ifs with hlisted
  · rw [List.count_eq_one_of_mem hstreams hlisted, Nat.one_mul]
  · rw [List.count_eq_zero.mpr hlisted, Nat.zero_mul]

theorem next_demand {loop : Loop} {i : Nat} {e : Watcher} (hcurrent : loop.current = none)
    (he : loop.rest[i]? = some e) (stream : Conn) :
    ({ loop with rest := loop.rest.eraseIdx i, current := some (e, Loop.bytes loop.result) } :
      Loop).demand stream = loop.demand stream := by
  have hrest := (Daemon.perm_cons_eraseIdx he).countP_eq fun e => decide (e.stream = stream)
  simp only [Loop.demand, hcurrent, Option.elim_some, Option.elim_none, hrest, List.countP_cons]
  by_cases hstream : e.stream = stream
  · simp [hstream, Nat.add_mul, Nat.add_comm]
  · simp [hstream]

theorem upTo_first {w : Watchers} (hnumbered : Numbered w) {first task : Waiting}
    {queue : List Waiting} (hqueue : w.queue = first :: queue) (hqueued : task ∈ w.queue) :
    upTo task w.queue = first :: upTo task queue := by
  have hnew := hnumbered.first hqueue
  rw [hqueue] at hqueued ⊢
  rcases List.mem_cons.mp hqueued with rfl | hmem
  · rw [(upTo_self hnew).1, (upTo_self hnew).2]
  · have hne : first ≠ task := fun heq => hnew (heq ▸ hmem)
    exact upTo_other hne hmem

theorem step_eases {w w' : Watchers} {task : Waiting} {m : Move} (hw : Matches w)
    (hnumbered : Numbered w) (hown : m.own = true) (h : w.step m = some w')
    (hpending : Pending w' task) : Eases task w w' := by
  have hbefore := step_pending hown h hpending
  cases step_moves h with
  | watch pid flags => cases hown
  | transmit data => cases hown
  | drain stream n => cases hown
  | close stream => cases hown
  | @register stream' pid flags queue hlock hqueue =>
    have hqueued : task ∈ w.queue := hbefore.resolve_right (by simp [hlock])
    have hfirst := upTo_first hnumbered hqueue hqueued
    refine ⟨?_, fun _ => id, fun stream => ?_⟩
    · intro stream hmem
      rw [readers, hfirst]
      rcases List.mem_append.mp hmem with hmem | hmem
      · obtain ⟨e, he, rfl⟩ := List.mem_map.mp hmem
        rcases mem_insert.mp he with rfl | ⟨he, -⟩
        · exact List.mem_append_right _ List.mem_cons_self
        · exact List.mem_append_left _ (List.mem_map_of_mem he)
      · exact List.mem_append_right _ (List.mem_cons_of_mem _ hmem)
    · simp [demand, hfirst, need]
  | @lock result queue hlock hqueue =>
    have hqueued : task ∈ w.queue := hbefore.resolve_right (by simp [hlock])
    have hfirst := upTo_first hnumbered hqueue hqueued
    refine ⟨?_, fun _ => id, fun stream => ?_⟩
    · rw [readers, readers, hfirst]
      exact List.Subset.refl _
    · have hbegin := begin_demand result (hw.streams hnumbered) stream
      simp only [demand, hlock, hfirst, Option.elim_some, Option.elim_none, Holder.demand, need]
      omega
  | next hlock hcurrent he =>
    refine ⟨List.Subset.refl _, fun _ => id, fun stream => ?_⟩
    simp [demand, hlock, Holder.demand, next_demand hcurrent he]
  | blocked hlock hcurrent hbuf hfull =>
    exact ⟨List.Subset.refl _, fun _ => id, fun _ => Nat.le_refl _⟩
  | broken hlock hcurrent hclosed =>
    refine ⟨List.Subset.refl _, fun _ => id, fun stream => ?_⟩
    simp [demand, hlock, Holder.demand, Loop.demand, hcurrent]
  | written hlock hcurrent =>
    refine ⟨List.Subset.refl _, fun _ => id, fun stream => ?_⟩
    simp [demand, hlock, Holder.demand, Loop.demand, hcurrent]
  | @taken loop e buf n hlock hcurrent hbuf hn hroom hlen =>
    refine ⟨List.Subset.refl _, fun stream hclosed => ?_, fun stream => ?_⟩
    · exact (take_closed w e.stream buf n stream).trans hclosed
    · simp only [take, setSocket_sockets]
      simp only [demand, setSocket, hlock, Option.elim_some, Holder.demand, Loop.demand, hcurrent]
      by_cases hstream : e.stream = stream
      · subst hstream
        simp only [if_true, List.length_drop]
        omega
      · rw [if_neg hstream, if_neg hstream, if_neg (Ne.symm hstream)]
  | @finish loop hlock hrest hcurrent =>
    have hkept : (loop.old.foldl (fun lp pid => lp.erase pid) w.listeningProcesses).entries ⊆
        w.listeningProcesses.entries := by
      rw [foldl_erase_entries]
      exact List.filter_sublist.subset
    refine ⟨?_, fun _ => id, fun stream => ?_⟩
    · intro stream hmem
      rcases List.mem_append.mp hmem with hmem | hmem
      · exact List.mem_append_left _ (List.map_subset _ hkept hmem)
      · exact List.mem_append_right _ hmem
    · have hdone : (loop.text.map Holder.acknowledging).elim 0 (Holder.demand stream) = 0 := by
        cases loop.text <;> rfl
      have hless := need_mono stream (upTo task w.queue) hkept
      simp only [demand, hdone]
      omega
  | acknowledge hlock =>
    refine ⟨List.Subset.refl _, fun _ => id, fun stream => ?_⟩
    simp [demand, hlock, Holder.demand]

/-! Who is still to be written to. -/

structure Awaits (e : Watcher) (result : Result) (w : Watchers) : Prop where
  isOpen : (w.sockets e.stream).closed = false
  listed : e ∈ w.listeningProcesses.entries
  spared : ∀ loop, w.lock = some (.writing loop) → e.1 ∉ loop.old
  unrivalled : ∀ stream flags, .registering stream e.1 flags ∉ upTo (.broadcasting result) w.queue
  due : .broadcasting result ∈ w.queue ∨ ∃ loop, w.lock = some (.writing loop) ∧
    loop.result = result ∧ (e ∈ loop.rest ∨ ∃ buf, loop.current = some (e, buf))

theorem Awaits.waits {w : Watchers} {e : Watcher} {result : Result} (hawaits : Awaits e result w)
    (hlock : ∀ loop, w.lock = some (.writing loop) → loop.rest = [] ∧ loop.current = none) :
    .broadcasting result ∈ w.queue := by
  rcases hawaits.due with hqueued | ⟨loop, hwriting, -, hmine⟩
  · exact hqueued
  · obtain ⟨hrest, hcurrent⟩ := hlock loop hwriting
    rcases hmine with hmem | ⟨buf, hat⟩
    · rw [hrest] at hmem
      cases hmem
    · cases hcurrent.symm.trans hat

def rank (task : Waiting) (w : Watchers) : Nat × Nat :=
  ((upTo task w.queue).length, w.lock.elim 0 Holder.weight)

theorem loop_move {w : Watchers} {task : Waiting} {loop : Loop} (hw : Matches w)
    (hfits : Fits w task) (hlock : w.lock = some (.writing loop)) :
    ∃ m w', m.own = true ∧ w.step m = some w' ∧ w'.queue = w.queue ∧
      w'.lock.elim 0 Holder.weight < loop.weight + 2 := by
  cases hcurrent : loop.current with
  | none =>
    cases hrest : loop.rest with
    | nil =>
      refine ⟨.finish, _, rfl, moves_step (.finish hlock hrest hcurrent), rfl, ?_⟩
      cases loop.text <;> simp [Holder.weight]
    | cons e rest =>
      have hfirst : loop.rest[0]? = some e := by simp [hrest]
      refine ⟨.next 0, _, rfl, moves_step (.next hlock hcurrent hfirst), rfl, ?_⟩
      simp only [Option.elim_some, Holder.weight, Loop.weight, hcurrent, hrest, Option.elim_none,
        List.eraseIdx_cons_zero, List.length_cons, Nat.add_mul]
      omega
  | some c =>
    obtain ⟨e, buf⟩ := c
    cases hclosed : (w.sockets e.stream).closed with
    | true =>
      refine ⟨.tryWrite (.failed "Broken pipe"), _, rfl,
        moves_step (.broken hlock hcurrent hclosed), rfl, ?_⟩
      simp [Holder.weight, Loop.weight, hcurrent]
    | false =>
      by_cases hbuf : buf = []
      · subst hbuf
        refine ⟨.tryWrite (.ok 0), _, rfl, moves_step (.written hlock hcurrent), rfl, ?_⟩
        simp [Holder.weight, Loop.weight, hcurrent]
      have hlen : 1 ≤ buf.length := List.length_pos_of_ne_nil hbuf
      have hroom : 1 ≤ (w.sockets e.stream).room := by
        have hlisted := hw.listed hlock (Or.inr ⟨buf, hcurrent⟩)
        have hreader : e.stream ∈ w.readers task :=
          List.mem_append_left _ (List.mem_map_of_mem hlisted)
        have hdemand : buf.length ≤ w.demand task e.stream := by
          simp only [demand, hlock, Option.elim_some, Holder.demand, Loop.demand, hcurrent, if_true]
          omega
        rcases hfits e.stream hreader with hgone | hroom
        · exact Bool.noConfusion (hclosed.symm.trans hgone)
        · omega
      refine ⟨.tryWrite (.ok 1), _, rfl,
        moves_step (.taken hlock hcurrent hbuf Nat.one_pos hroom hlen hclosed), rfl, ?_⟩
      simp only [Option.elim_some, Holder.weight, Loop.weight, hcurrent, List.length_drop]
      omega

/-- As long as the task waits or has the lock, some task moves towards its end. -/
theorem exists_move {w : Watchers} {task : Waiting} (hw : Kept w) (hfits : Fits w task)
    (hpending : Pending w task) :
    ∃ m w', m.own = true ∧ w.step m = some w' ∧
      Prod.Lex (· < ·) (· < ·) (rank task w') (rank task w) := by
  cases hlock : w.lock with
  | none =>
    have hqueued : task ∈ w.queue := hpending.resolve_right (by simp [hlock])
    cases hqueue : w.queue with
    | nil =>
      rw [hqueue] at hqueued
      cases hqueued
    | cons first queue =>
      have hshorter : (upTo task queue).length < (upTo task w.queue).length := by
        rw [hqueue] at hqueued ⊢
        exact upTo_shorter (hw.numbered.first hqueue) hqueued
      cases first with
      | registering stream pid flags =>
        exact ⟨.register, _, rfl, moves_step (.register hlock hqueue),
          Prod.lex_def.mpr (Or.inl hshorter)⟩
      | broadcasting result =>
        exact ⟨.lock, _, rfl, moves_step (.lock hlock hqueue), Prod.lex_def.mpr (Or.inl hshorter)⟩
  | some holder =>
    cases holder with
    | writing loop =>
      obtain ⟨m, w', hown, hstep, hqueue, hless⟩ := loop_move hw.matched hfits hlock
      refine ⟨m, w', hown, hstep, Prod.lex_def.mpr (Or.inr ?_)⟩
      simp only [rank, hqueue, hlock, Option.elim_some, Holder.weight]
      exact ⟨trivial, hless⟩
    | acknowledging text =>
      refine ⟨.acknowledge, _, rfl, moves_step (.acknowledge hlock), Prod.lex_def.mpr (Or.inr ?_)⟩
      simp [rank, hlock, Holder.weight]

/-- What the moves of the daemon keep until the task is done. -/
structure Ready (task : Waiting) (w : Watchers) : Prop where
  kept : Kept w
  fits : Pending w task → Fits w task

theorem step_ready {w w' : Watchers} {task : Waiting} {m : Move} (hw : Ready task w)
    (hown : m.own = true) (h : w.step m = some w') : Ready task w' := by
  refine ⟨step_kept hw.kept h, fun hpending => ?_⟩
  have heases := step_eases hw.kept.matched hw.kept.numbered hown h hpending
  exact heases.fits (hw.fits (step_pending hown h hpending))

theorem run_ready {w w' : Watchers} {task : Waiting} {own : List Move} (hw : Ready task w)
    (hown : ∀ m ∈ own, m.own = true) (hrun : run step w own = some w') : Ready task w' :=
  run_along (fun _ _ _ hw hm h => step_ready hw hm h) hw
    (along_of_forall (fun m hm _ => hown m hm) w) hrun

/-- The daemon comes to the end of the task wherever it goes. -/
theorem Ready.reaches {w : Watchers} {task : Waiting} (hw : Ready task w) :
    Reaches w fun w' => ¬ Pending w' task := by
  intro own hown w' hrun
  have hstep : ∀ s, Ready task s → ¬ ¬ Pending s task → ∃ m s',
      m.own = true ∧ s.step m = some s' ∧ Ready task s' ∧
        Prod.Lex (· < ·) (· < ·) (rank task s') (rank task s) := by
    intro s hs hpending
    have hpending := not_not.mp hpending
    obtain ⟨m, s', hm, hmove, hless⟩ := exists_move hs.kept (hs.fits hpending) hpending
    exact ⟨m, s', hm, hmove, step_ready hs hm hmove, hless⟩
  have hwf : WellFounded (Prod.Lex (· < · : Nat → Nat → Prop) (· < · : Nat → Nat → Prop)) :=
    WellFounded.prod_lex Nat.lt_wfRel.wf Nat.lt_wfRel.wf
  obtain ⟨own', w'', hown', hrun'', -, hdone⟩ := exists_run hwf hstep (run_ready hw hown hrun)
  exact ⟨own', w'', hown', hrun'', hdone⟩

theorem Reaches.along {w : Watchers} {P Q R : Watchers → Prop} (h : Reaches w P)
    (hkept : ∀ s m s', Q s → m.own = true → s.step m = some s' → Q s') (hw : Q w)
    (hend : ∀ s, Q s → P s → R s) : Reaches w R := by
  intro own hown w' hrun
  obtain ⟨own', w'', hown', hrun', hP⟩ := h own hown w' hrun
  have hQ : Q w' := run_along hkept hw (along_of_forall (fun m hm _ => hown m hm) w) hrun
  have hQ' : Q w'' := run_along hkept hQ (along_of_forall (fun m hm _ => hown' m hm) w') hrun'
  exact ⟨own', w'', hown', hrun', hend w'' hQ' hP⟩

def replacing : List Move := [.watch 7 0, .register, .watch 7 0, .transmit "ev#cls#3"]

structure Unread (stream : Conn) (w : Watchers) : Prop where
  unlisted : ∀ e ∈ w.listeningProcesses.entries, Watcher.stream e ≠ stream
  unqueued : ∀ pid flags, .registering stream pid flags ∉ w.queue
  unwritten : ∀ result, (stream, result) ∉ w.delivered

theorem step_unread {w w' : Watchers} {stream : Conn} {m : Move} (hw : Matches w)
    (hunread : Unread stream w) (hown : m.own = true) (h : w.step m = some w') :
    Unread stream w' := by
  have ⟨hunlisted, hunqueued, hunwritten⟩ := hunread
  cases step_moves h with
  | watch pid flags => cases hown
  | transmit data => cases hown
  | drain stream n => cases hown
  | close stream => cases hown
  | @register stream' pid flags queue hlock hqueue =>
    rw [hqueue] at hunqueued
    refine ⟨fun e he => ?_, fun pid' flags' hmem => ?_, hunwritten⟩
    · rcases mem_insert.mp he with rfl | ⟨he, -⟩
      · rintro rfl
        exact hunqueued pid flags List.mem_cons_self
      · exact hunlisted e he
    · exact hunqueued pid' flags' (List.mem_cons_of_mem _ hmem)
  | lock hlock hqueue =>
    rw [hqueue] at hunqueued
    exact ⟨hunlisted, fun pid flags hmem => hunqueued pid flags (List.mem_cons_of_mem _ hmem),
      hunwritten⟩
  | @written loop e hlock hcurrent =>
    refine ⟨hunlisted, hunqueued, fun result hmem => ?_⟩
    rcases List.mem_append.mp hmem with hmem | hmem
    · exact hunwritten result hmem
    · cases List.mem_singleton.mp hmem
      exact hunlisted e (hw.listed hlock (Or.inr ⟨[], hcurrent⟩)) rfl
  | finish hlock hrest hcurrent =>
    refine ⟨fun e he => hunlisted e ?_, hunqueued, hunwritten⟩
    rw [foldl_erase_entries] at he
    exact (List.mem_filter.mp he).1
  | _ => exact ⟨hunlisted, hunqueued, hunwritten⟩

end Watchers

end NotifsPiper

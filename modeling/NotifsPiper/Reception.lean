import NotifsPiper.Framing
import NotifsPiper.Routing

/-! The daemon with what its sockets bring. A task of the listener begins with the `read` of its
connection, and takes up what it has read, sends an error back, or waits for more. In `Daemon`
the tasks begin after their reads, and the manager's results come to the listener as they were
written: its runs are those in which every result arrives framed. -/

namespace NotifsPiper

variable {Value : Type}

/-- What a connection brings its task: the answers to its reads, and the text of the error if
the bytes are no text. -/
structure Arrival where
  reads : List Listener.TryRead
  invalid : String
  deriving DecidableEq, Repr

/-- `errors` are those sent back for what was not read, `waiting` counts the tasks that wait in
their read. -/
structure Reception (Value : Type) where
  daemon : Daemon Value
  errors : List String
  waiting : Nat

namespace Arrival

def taken (arrival : Arrival) : Option Transmission :=
  match (Listener.read arrival.reads).1 with
  | .done tr => some tr
  | _ => none

def refused (arrival : Arrival) : Option String :=
  match (Listener.read arrival.reads).1 with
  | .invalidInput => some arrival.invalid
  | .invalidData data => some data
  | .failed err => some err
  | _ => none

def waits (arrival : Arrival) : Bool := (Listener.read arrival.reads).1 = .waiting

end Arrival

namespace Reception

open Listener Utf8 Runs Routing

/-- A connection of a client, one of the manager for its result, or a step of somebody else. -/
inductive Move (Value : Type)
  | connect (arrival : Arrival)
  | reply (failed : Bool) (arrival : Option Arrival)
  | other (l : Label Value)

def Move.arrival : Move Value → Option Arrival
  | .connect arrival => some arrival
  | .reply _ arrival => arrival
  | .other _ => none

def start (man : LogsManager Value) (logsFile : Option (List UInt8)) : Reception Value :=
  ⟨Daemon.start man logsFile, [], 0⟩

def sendError (r : Reception Value) (err : String) : Reception Value :=
  { r with errors := r.errors ++ [err] }

/-- The beginning of a task: its `read`, and what it does about an error. -/
def receive (r : Reception Value) (arrival : Arrival) : Reception Value :=
  match (Listener.read arrival.reads).1 with
  | .done tr => { r with daemon := r.daemon.accept tr }
  | .invalidInput => r.sendError arrival.invalid
  | .invalidData data => r.sendError data
  | .failed err => r.sendError err
  | .waiting => { r with waiting := r.waiting + 1 }

def bytes (reads : List TryRead) : List UInt8 :=
  reads.flatMap fun
    | .ok bs => bs
    | _ => []

def replied (d : Daemon Value) (failed : Bool) : Daemon Value :=
  if failed then d.die .failed else { d with phase := .idle }

/-- The manager's connection to the listener. The reads get what the manager wrote, or the
beginning of it; a write that succeeds has come to a connection. -/
def reply (r : Reception Value) (failed : Bool) (arrival : Option Arrival) :
    Option (Reception Value) :=
  match r.daemon.phase, arrival with
  | .replying tr, some arrival =>
    if bytes arrival.reads <+: utf8 tr.toStr then
      let r := r.receive arrival
      some { r with daemon := replied r.daemon failed }
    else none
  | .replying _, none => if failed then some { r with daemon := replied r.daemon failed } else none
  | _, _ => none

def connects : Label Value → Bool
  | .connect _ => true
  | .reply _ _ => true
  | _ => false

def step (platform : Platform Value) (r : Reception Value) : Move Value → Option (Reception Value)
  | .connect arrival => some (r.receive arrival)
  | .reply failed arrival => r.reply failed arrival
  | .other l =>
    if connects l then none else (r.daemon.step platform l).map fun d => { r with daemon := d }

/-- What the daemon without its sockets sees of a move. -/
def shown : Move Value → Option (Label Value)
  | .connect arrival => arrival.taken.map .connect
  | .reply failed arrival => some (.reply arrival.isSome failed)
  | .other l => some l

/-- The reads get the text framed: some that fill the buffer and a shorter last one, each of
whole characters. -/
def Whole (text : String) (reads : List TryRead) : Prop :=
  ∃ full last, Framing.Full full ∧ last.length < bufSize ∧ Framing.Decodes (full ++ [last]) ∧
    full.flatten ++ last = utf8 text ∧
      reads.filter (· ≠ .wouldBlock) = full.map .ok ++ [.ok last]

/-- If the manager's connection brings anything, it is the whole result. -/
def Delivers (r : Reception Value) : Move Value → Prop
  | .reply _ (some arrival) => ∀ tr, r.daemon.phase = .replying tr → Whole tr.toStr arrival.reads
  | _ => True

theorem readFrom_filter (tdata : String) (reads : List TryRead) :
    (readFrom tdata (reads.filter (· ≠ .wouldBlock))).1 = (readFrom tdata reads).1 := by
  induction reads generalizing tdata with
  | nil => rfl
  | cons answer reads ih =>
    cases answer with
    | wouldBlock => exact ih tdata
    | failed err => rfl
    | ok bs =>
      have hkept : (TryRead.ok bs :: reads).filter (· ≠ .wouldBlock) =
          .ok bs :: reads.filter (· ≠ .wouldBlock) := rfl
      rw [hkept]
      unfold readFrom
      split
      · rfl
      · split
        · split <;> rfl
        · exact ih _

theorem Whole.read {text : String} {reads : List TryRead} (h : Whole text reads) :
    (Listener.read reads).1 = Framing.decoded text := by
  obtain ⟨full, last, hfull, hlast, hdec, htext, hreads⟩ := h
  rw [Listener.read, ← readFrom_filter, hreads, Framing.readFrom_text hfull hlast hdec htext.symm,
    String.empty_append]

theorem whole_of_short {text : String} (h : (utf8 text).length < bufSize) :
    Whole text [.ok (utf8 text)] := by
  have hdec : Framing.Decodes ([] ++ [utf8 text]) := by
    intro c hc
    rw [List.mem_singleton.mp hc]
    exact ⟨text, fromUtf8_utf8 text⟩
  exact ⟨[], utf8 text, fun _ hc => (nomatch hc), h, hdec, rfl, rfl⟩

def Brief (r : Reception Value) : Move Value → Prop
  | .reply _ (some arrival) =>
    match r.daemon.phase with
    | .replying tr =>
      arrival.reads = [.ok (utf8 tr.toStr)] ∧ (utf8 tr.toStr).length < bufSize
    | _ => True
  | _ => True

instance decidableBrief (r : Reception Value) : ∀ m, Decidable (Brief r m)
  | .reply _ (some arrival) =>
    match h : r.daemon.phase with
    | .replying tr =>
      decidable_of_iff (arrival.reads = [.ok (utf8 tr.toStr)] ∧ (utf8 tr.toStr).length < bufSize)
        (by simp [Brief, h])
    | .idle => isTrue (by simp [Brief, h])
    | .woken => isTrue (by simp [Brief, h])
    | .executing _ _ => isTrue (by simp [Brief, h])
    | .dead _ => isTrue (by simp [Brief, h])
  | .reply _ none => isTrue trivial
  | .connect _ => isTrue trivial
  | .other _ => isTrue trivial

theorem Brief.delivers {r : Reception Value} {m : Move Value} (h : Brief r m) : Delivers r m := by
  unfold Delivers
  split
  next failed arrival =>
    intro tr hphase
    simp only [Brief, hphase] at h
    rw [h.1]
    exact whole_of_short h.2
  · trivial

/-- A short read ends a transmission, although more of it is on its way. -/
example : (Listener.read [.ok (utf8 "out#1##res#[7,"), .ok (utf8 "8]")]).1 =
    .done ⟨.outgoing 1, "res#[7,"⟩ := by decide +kernel

/-- A text that is no transmission is refused with the error of its decoding. -/
theorem receive_refused {text : String} {err : PayloadError}
    (htext : Transmission.fromStr text = .error err) (r : Reception Value) {arrival : Arrival}
    (h : Whole text arrival.reads) : r.receive arrival = r.sendError err.data := by
  simp only [receive, h.read, Framing.decoded, htext]

/-! What a move makes of the connection that comes with it. -/

/-- Each connection has come to its end of the `read`. -/
structure Received (arrivals : List Arrival) (r r' : Reception Value) : Prop where
  accepted : r'.daemon.accepted = r.daemon.accepted ++ arrivals.filterMap Arrival.taken
  errors : r'.errors = r.errors ++ arrivals.filterMap Arrival.refused
  waiting : r'.waiting = r.waiting + arrivals.countP Arrival.waits

theorem Received.refl (r : Reception Value) : Received [] r r :=
  ⟨(List.append_nil _).symm, (List.append_nil _).symm, rfl⟩

theorem Received.trans {xs ys : List Arrival} {r s t : Reception Value} (hrs : Received xs r s)
    (hst : Received ys s t) : Received (xs ++ ys) r t := by
  refine ⟨?_, ?_, ?_⟩
  · rw [hst.accepted, hrs.accepted, List.filterMap_append, List.append_assoc]
  · rw [hst.errors, hrs.errors, List.filterMap_append, List.append_assoc]
  · rw [hst.waiting, hrs.waiting, List.countP_append, Nat.add_assoc]

theorem receive_received (r : Reception Value) (arrival : Arrival) :
    Received [arrival] r (r.receive arrival) := by
  unfold receive
  split
  next tr hread =>
    exact ⟨by simp [Daemon.accept, Arrival.taken, hread], by simp [Arrival.refused, hread],
      by simp [Arrival.waits, hread]⟩
  all_goals
    next hread =>
      exact ⟨by simp [sendError, Arrival.taken, hread],
        by simp [sendError, Arrival.refused, hread], by simp [sendError, Arrival.waits, hread]⟩

/-! What a move can be. -/

theorem reply_cases {r r' : Reception Value} {failed : Bool} {arrival : Option Arrival}
    (h : r.reply failed arrival = some r') :
    ∃ tr, r.daemon.phase = .replying tr ∧
      ((∃ a, arrival = some a ∧ bytes a.reads <+: utf8 tr.toStr ∧
        r' = { r.receive a with daemon := replied (r.receive a).daemon failed }) ∨
      arrival = none ∧ failed = true ∧ r' = { r with daemon := replied r.daemon failed }) := by
  unfold reply at h
  split at h
  next tr a hphase =>
    split_ifs at h with hbytes
    exact ⟨tr, hphase, Or.inl ⟨a, rfl, hbytes, (Option.some.inj h).symm⟩⟩
  next tr hphase =>
    split_ifs at h with hfailed
    exact ⟨tr, hphase, Or.inr ⟨rfl, hfailed, (Option.some.inj h).symm⟩⟩
  · cases h

theorem step_cases {platform : Platform Value} {r r' : Reception Value} {m : Move Value}
    (h : r.step platform m = some r') :
    (∃ a, m = .connect a ∧ r' = r.receive a) ∨
      (∃ failed arrival, m = .reply failed arrival ∧ r.reply failed arrival = some r') ∨
      ∃ l d, m = .other l ∧ connects l = false ∧ r.daemon.step platform l = some d ∧
        r' = { r with daemon := d } := by
  cases m with
  | connect a => exact Or.inl ⟨a, rfl, (Option.some.inj h).symm⟩
  | reply failed arrival => exact Or.inr (Or.inl ⟨failed, arrival, rfl, h⟩)
  | other l =>
    simp only [step] at h
    split_ifs at h with hconnects
    obtain ⟨d, hd, rfl⟩ := Option.map_eq_some_iff.mp h
    exact Or.inr (Or.inr ⟨l, d, rfl, by simpa using hconnects, hd, rfl⟩)

/-! Everything the listener holds stays in order, whatever the reads bring. -/

def Sound (platform : Platform Value) (r : Reception Value) : Prop :=
  Placed r.daemon ∧ Routed platform r.daemon

section Steps

variable {platform : Platform Value} {r r' : Reception Value}

theorem replied_aside (d : Daemon Value) (failed : Bool) : Aside d (replied d failed) := by
  unfold replied
  split_ifs <;> exact ⟨rfl, rfl, rfl, rfl, rfl⟩

theorem Sound.aside {d : Daemon Value} (hr : Sound platform r) (h : Aside r.daemon d) :
    Sound platform { r with daemon := d } :=
  ⟨hr.1.aside h, hr.2.aside h⟩

theorem Sound.receive (hr : Sound platform r) (arrival : Arrival) :
    Sound platform (r.receive arrival) := by
  unfold Reception.receive
  split
  next tr _ => exact ⟨hr.1.accept tr, hr.2.accept tr⟩
  all_goals exact hr

theorem step_sound {m : Move Value} (hr : Sound platform r) (h : r.step platform m = some r') :
    Sound platform r' := by
  rcases step_cases h with ⟨a, -, rfl⟩ | ⟨failed, arrival, -, h⟩ | ⟨l, d, -, -, hd, rfl⟩
  · exact hr.receive a
  · obtain ⟨tr, -, ⟨a, -, -, rfl⟩ | ⟨-, -, rfl⟩⟩ := reply_cases h
    · exact (hr.receive a).aside (replied_aside _ _)
    · exact hr.aside (replied_aside _ _)
  · exact step_routed hr hd

theorem step_accepts_nothing {d d' : Daemon Value} {l : Label Value} (hd : Routed platform d)
    (hconnects : connects l = false) (h : d.step platform l = some d') :
    d'.accepted = d.accepted := by
  rcases step_listener h with haside | ⟨tr, hcomes, -⟩ | ⟨i, written, broken, rfl, hlisten⟩
  · exact haside.accepted
  · rcases hcomes with rfl | ⟨⟨arrived, failed, rfl⟩, -⟩ <;> cases hconnects
  · exact (hd.listen hlisten).2

theorem step_received {m : Move Value} (hr : Sound platform r) (h : r.step platform m = some r') :
    Received m.arrival.toList r r' := by
  rcases step_cases h with ⟨a, rfl, rfl⟩ | ⟨failed, arrival, rfl, h⟩ |
    ⟨l, d, rfl, hconnects, hd, rfl⟩
  · exact receive_received r a
  · obtain ⟨tr, -, ⟨a, rfl, -, rfl⟩ | ⟨rfl, -, rfl⟩⟩ := reply_cases h
    · have hreceived := receive_received r a
      exact ⟨(replied_aside _ _).accepted.trans hreceived.accepted, hreceived.errors,
        hreceived.waiting⟩
    · exact ⟨(replied_aside _ _).accepted.trans (List.append_nil _).symm,
        (List.append_nil _).symm, rfl⟩
  · exact ⟨(step_accepts_nothing hr.2 hconnects hd).trans (List.append_nil _).symm,
      (List.append_nil _).symm, rfl⟩

theorem run_received {moves : List (Move Value)} (hr : Sound platform r)
    (hrun : run (step platform) r moves = some r') :
    Received (moves.filterMap Move.arrival) r r' := by
  induction moves generalizing r with
  | nil =>
    cases hrun
    exact Received.refl _
  | cons m moves ih =>
    obtain ⟨s, hs, hrun⟩ := run_cons_some.mp hrun
    have hsplit : (m :: moves).filterMap Move.arrival =
        m.arrival.toList ++ moves.filterMap Move.arrival := by
      cases hm : m.arrival <;> simp [hm]
    rw [hsplit]
    exact (step_received hr hs).trans (ih (step_sound hr hs) hrun)

end Steps

/-! The daemon without its sockets. -/

theorem taken_of_whole {tr : Transmission} {arrival : Arrival}
    (h : Whole tr.toStr arrival.reads) : arrival.taken = some tr := by
  rw [Arrival.taken, h.read, Framing.decoded, Transmission.fromStr_toStr]

theorem receive_daemon (r : Reception Value) (arrival : Arrival) :
    (r.receive arrival).daemon = (arrival.taken.map r.daemon.accept).getD r.daemon := by
  unfold receive Arrival.taken
  split
  next hread => simp [hread]
  all_goals
    next hread => simp [hread, sendError]

theorem step_shown {platform : Platform Value} {r r' : Reception Value} {m : Move Value}
    (hm : Delivers r m) (h : r.step platform m = some r') :
    run (Daemon.step platform) r.daemon (shown m).toList = some r'.daemon := by
  rcases step_cases h with ⟨a, rfl, rfl⟩ | ⟨failed, arrival, rfl, h⟩ | ⟨l, d, rfl, -, hd, rfl⟩
  · rw [receive_daemon]
    cases htaken : a.taken with
    | none => simp [shown, htaken]
    | some tr => simp [shown, htaken, Daemon.step]
  · obtain ⟨tr, hphase, ⟨a, rfl, -, rfl⟩ | ⟨rfl, rfl, rfl⟩⟩ := reply_cases h
    · have htaken := taken_of_whole (hm tr hphase)
      rw [receive_daemon, htaken]
      cases failed <;> simp [shown, Daemon.step, Daemon.reply, hphase, replied]
    · simp [shown, Daemon.step, Daemon.reply, hphase, replied]
  · simp [shown, hd]

/-- Whatever the sockets bring: each connection has come to its end of the `read`, its
transmission taken up, an error sent back, or its task waiting, and what was written to those
taken up is their due. Where every result of the manager arrives whole, the run is one of the
daemon on the transmissions that were read, and has what holds throughout that one. -/
theorem reads_refine (platform : Platform Value) (man : LogsManager Value)
    (logsFile : Option (List UInt8)) (moves : List (Move Value)) (r : Reception Value)
    (hrun : run (step platform) (start man logsFile) moves = some r) :
    Received (moves.filterMap Move.arrival) (start man logsFile) r ∧ Dealt platform r.daemon ∧
      (Along (step platform) Delivers (start man logsFile) moves →
        run (Daemon.step platform) (Daemon.start man logsFile) (moves.filterMap shown) =
            some r.daemon ∧
          ∀ P, Always (Daemon.step platform) P (Daemon.start man logsFile)
              (moves.filterMap shown) →
            Always (step platform) (fun r => P r.daemon) (start man logsFile) moves) := by
  have hstart : Sound platform (start man logsFile) :=
    ⟨start_placed man logsFile, start_routed platform man logsFile⟩
  obtain ⟨hplaced, hrouted⟩ := run_invariant (fun _ _ _ => step_sound) hstart hrun
  refine ⟨run_received hstart hrun, hrouted.dealt hplaced, fun hwhole => ⟨?_, fun P hP => ?_⟩⟩
  · exact hwhole.projected (fun _ _ _ => step_shown) hrun
  · exact hwhole.always P (fun _ _ _ => step_shown) hP

def mixed : List (Move Unit) :=
  [.connect ⟨[.wouldBlock, .ok (utf8 "inc#4##4#0##query##7")], ""⟩, .connect ⟨[], ""⟩,
    .connect ⟨[.ok [255]], "invalid utf-8 sequence of 1 bytes from index 0"⟩] ++
  [.listen 0 true [], .listen 0 true [], .listen 0 true [], .listen 0 true [], .recv, .pop,
    .execute ⟨some ⟨0, 0⟩, 0, .ok (), true, true⟩ (.ok ())].map .other ++
  [.reply false (some ⟨[.ok (utf8 "out#4##res#false")], ""⟩)] ++
  [.listen 0 true [], .listen 0 true []].map .other

theorem reads_refine_mixed :
    ∃ r, run (step Platform.bare) (start (.empty 10) none) mixed = some r ∧
      r.errors = ["invalid utf-8 sequence of 1 bytes from index 0"] ∧ r.waiting = 1 ∧
      r.daemon.delivered = [(0, ⟨.outgoing 4, "res#false"⟩)] ∧
      run (Daemon.step Platform.bare) (Daemon.start (.empty 10) none) (mixed.filterMap shown) =
        some r.daemon := by
  have hview : (run (step Platform.bare) (start (.empty 10) none) mixed).map
      (fun r => (r.errors, r.waiting, r.daemon.delivered)) =
        some (["invalid utf-8 sequence of 1 bytes from index 0"], 1,
          [(0, ⟨.outgoing 4, "res#false"⟩)]) := by decide +kernel
  have hbrief : Along (step Platform.bare) Brief (start (.empty 10) none) mixed := by
    decide +kernel
  obtain ⟨r, hr, hrest⟩ := Option.map_eq_some_iff.mp hview
  simp only [Prod.mk.injEq] at hrest
  have hrefines := reads_refine Platform.bare (.empty 10) none mixed r hr
  exact ⟨r, hr, hrest.1, hrest.2.1, hrest.2.2,
    (hrefines.2.2 (hbrief.mono fun _ _ => Brief.delivers)).1⟩

end Reception

end NotifsPiper

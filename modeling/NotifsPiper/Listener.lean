import NotifsPiper.Payload
import NotifsPiper.Utf8

/-! Reading and writing transmissions on a stream. A socket is the list of what its next
`try_read` or `try_write` calls answer; the end of a transmission is inferred from a read
that does not fill the buffer. -/

namespace NotifsPiper.Listener

open Utf8

def bufSize : Nat := 4096

/-- What one `try_read` answers. At the end of the stream it is no bytes at all. -/
inductive TryRead
  | ok (bytes : List UInt8)
  | wouldBlock
  | failed (err : String)
  deriving DecidableEq, Repr

/-- How a `read` ends: it still waits when the socket has nothing more to say. -/
inductive ReadResult
  | done (tr : Transmission)
  | invalidInput
  | invalidData (data : String)
  | failed (err : String)
  | waiting
  deriving DecidableEq, Repr

/-- The loop of `read`, with the text collected so far, and what it leaves in the socket. -/
def readFrom (tdata : String) : List TryRead → ReadResult × List TryRead
  | [] => (.waiting, [])
  | .wouldBlock :: reads => readFrom tdata reads
  | .failed err :: reads => (.failed err, reads)
  | .ok bytes :: reads =>
    match fromUtf8 bytes with
    | none => (.invalidInput, reads)
    | some text =>
      if bytes.length < bufSize then
        match Transmission.fromStr (tdata ++ text) with
        | .ok tr => (.done tr, reads)
        | .error err => (.invalidData err.data, reads)
      else readFrom (tdata ++ text) reads

def read (reads : List TryRead) : ReadResult × List TryRead := readFrom "" reads

theorem readFrom_done_length {tdata : String} {reads rest : List TryRead} {tr : Transmission}
    (h : readFrom tdata reads = (.done tr, rest)) : rest.length < reads.length := by
  induction reads generalizing tdata with
  | nil => cases h
  | cons r reads ih =>
    cases r with
    | wouldBlock => exact Nat.lt_succ_of_lt (ih h)
    | failed err => cases h
    | ok bytes =>
      unfold readFrom at h
      split at h
      · cases h
      · split at h
        · split at h
          · cases h
            exact Nat.lt_succ_self _
          · cases h
        · exact Nat.lt_succ_of_lt (ih h)

/-- The transmissions the loop of the watch command prints. -/
def watch (reads : List TryRead) : List Transmission :=
  match _ : read reads with
  | (.done tr, rest) => tr :: watch rest
  | _ => []
termination_by reads.length
decreasing_by exact readFrom_done_length (by assumption)

theorem watch_nil : watch [] = [] := by
  rw [watch]
  rfl

inductive TryWrite
  | ok (n : Nat)
  | wouldBlock
  | failed (err : String)
  deriving DecidableEq, Repr

/-- The bytes the socket accepts of `buf`, and how `write` ends, if it does. -/
def writeFrom (buf : List UInt8) : List TryWrite → List UInt8 × Option (Except String Unit)
  | [] => ([], none)
  | .wouldBlock :: writes => writeFrom buf writes
  | .failed err :: _ => ([], some (.error err))
  | .ok n :: writes =>
    if buf = [] then ([], some (.ok ()))
    else
      let (accepted, result) := writeFrom (buf.drop n) writes
      (buf.take n ++ accepted, result)

def write (tr : Transmission) (writes : List TryWrite) :
    List UInt8 × Option (Except String Unit) :=
  writeFrom (utf8 tr.toStr) writes

/-- A write that succeeds has put all of its bytes into the stream. -/
theorem writeFrom_ok {buf : List UInt8} {writes : List TryWrite}
    (h : (writeFrom buf writes).2 = some (.ok ())) : (writeFrom buf writes).1 = buf := by
  induction writes generalizing buf with
  | nil => cases h
  | cons w writes ih =>
    cases w with
    | wouldBlock => exact ih h
    | failed err => cases h
    | ok n =>
      by_cases hbuf : buf = []
      · simp [writeFrom, hbuf]
      · simp only [writeFrom, hbuf, if_false] at h ⊢
        rw [ih h, List.take_append_drop]

end NotifsPiper.Listener

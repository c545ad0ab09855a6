import NotifsPiper.Reading
import NotifsPiper.Requests

/-! The commands of the client, and the request each of them sends. A signal goes out under the
pid 0, so that nobody waits for its result; everything else goes out under the pid of the
client's process. -/

namespace NotifsPiper

variable {Value : Type}

inductive SignalKind
  | closed (query : Bool)
  | actionInvoked (action : String)
  | activationToken (token : String)
  deriving DecidableEq, Repr

/-- The subcommands of a client; the remaining one starts the daemon. -/
inductive Sub
  | signal (id : Nid) (force : Bool) (kind : SignalKind)
  | read (count skip : LogCountType) (silent : Bool)
  | watch (silent : Bool)
  deriving DecidableEq, Repr

namespace Sub

def job : Sub → Job Value
  | signal id _ (.closed true) => .query id
  | signal id _ (.closed false) => .close id .dismissed
  | signal id _ (.actionInvoked action) => .actionInvoked id action
  | signal id _ (.activationToken token) => .activationToken id token
  | read count skip _ => Reading.readJob skip count
  | watch _ => .watch

def flag : Sub → Flags
  | signal _ _ (.closed true) => .none
  | signal _ force _ => if force then .force else .none
  | read _ _ silent => if silent then .silent else .none
  | watch silent => if silent then .silent else .none

def pid (own : Pid) : Sub → Pid
  | signal _ _ (.closed true) => own
  | signal .. => 0
  | read .. => own
  | watch _ => own

def jobd (own : Pid) (sub : Sub) : JobDesc Value :=
  ⟨sub.job, ⟨sub.pid own, Flags.join Flags.none.repr sub.flag⟩⟩

/-- `send`; every job of a command has a text. -/
def transmission (platform : Platform Value) (own : Pid) (sub : Sub) : Transmission :=
  ⟨.incoming (sub.pid own), ((sub.jobd own).toStr platform).getD ""⟩

theorem job_ne (sub : Sub) : (∀ event, (sub.job : Job Value) ≠ .broadcast event) ∧
    ∀ id, (sub.job : Job Value) ≠ .acknowledge id := by
  cases sub with
  | signal id force kind =>
    cases kind with
    | closed query => cases query <;> simp [job]
    | actionInvoked action => simp [job]
    | activationToken token => simp [job]
  | read count skip silent => simp [job, Reading.readJob]
  | watch silent => simp [job]

theorem job_close (own : Pid) {sub : Sub} {id : Nid} {reason : NotificationClosed}
    (h : (sub.job : Job Value) = .close id reason) : reason = .dismissed ∧ sub.pid own = 0 := by
  cases sub with
  | signal id' force kind =>
    cases kind with
    | closed query =>
      cases query with
      | false =>
        cases h
        exact ⟨rfl, rfl⟩
      | true => cases h
    | actionInvoked action => cases h
    | activationToken token => cases h
  | read count skip silent => cases h
  | watch silent => cases h

/-- The command arrives as its job. -/
theorem decoded (platform : Platform Value) (own : Pid) (sub : Sub) :
    JobDesc.fromStr platform (sub.transmission platform own).data = pure (sub.jobd own) := by
  obtain ⟨hbroadcast, hacknowledge⟩ :
      (∀ event : NotificationEvent Value, sub.job ≠ .broadcast event) ∧
        ∀ id, (sub.job : Job Value) ≠ .acknowledge id := sub.job_ne
  obtain ⟨text, htext⟩ : ∃ text, (sub.job : Job Value).toStr platform = some text := by
    cases hjob : (sub.job : Job Value) with
    | acknowledge id => exact absurd hjob (hacknowledge id)
    | _ => exact ⟨_, rfl⟩
  exact JobDesc.fromStr_toStr htext
    (Requests.job_decoded platform (fun event h => absurd h (hbroadcast event)) htext)

theorem pid_eq_zero {own : Pid} {sub : Sub} (hown : own ≠ 0) (h : sub.pid own = 0) :
    (∀ start stop, (sub.job : Job Value) ≠ .read start stop) ∧
      ∀ id, (sub.job : Job Value) ≠ .query id := by
  cases sub with
  | signal id force kind =>
    cases kind with
    | closed query =>
      cases query with
      | false => simp [job]
      | true => exact absurd h hown
    | actionInvoked action => simp [job]
    | activationToken token => simp [job]
  | read count skip silent => exact absurd h hown
  | watch silent => simp [job]

end Sub

end NotifsPiper

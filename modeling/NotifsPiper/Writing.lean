import NotifsPiper.Daemon
import NotifsPiper.Listener

/-! Writing a transmission. The loop looks at whether something is left to write only after a
write of what is left has succeeded, so the last of its writes is an empty one. -/

namespace NotifsPiper.Writing

open Listener Runs Utf8

variable {Value : Type}

/-- The outcomes a socket can give to the loop with `buf` left to write: it accepts at least
one byte of a buffer that is not empty, and none of an empty one. -/
def Plausible : List UInt8 → List TryWrite → Prop
  | _, [] => True
  | buf, .wouldBlock :: writes => Plausible buf writes
  | _, .failed _ :: _ => True
  | buf, .ok n :: writes =>
    if buf = [] then n = 0 else 0 < n ∧ n ≤ buf.length ∧ Plausible (buf.drop n) writes

instance decidablePlausible : ∀ buf writes, Decidable (Plausible buf writes)
  | _, [] => .isTrue trivial
  | buf, .wouldBlock :: writes => decidablePlausible buf writes
  | _, .failed _ :: _ => .isTrue trivial
  | buf, .ok n :: writes =>
    have := decidablePlausible (buf.drop n) writes
    inferInstanceAs (Decidable (if buf = [] then _ else _))

def acceptedBytes : TryWrite → Nat
  | .ok n => n
  | _ => 0

def GoesOn (w : TryWrite) : Prop := w = .wouldBlock ∨ ∃ n, 0 < n ∧ w = .ok n

/-- All of the bytes are accepted, and then a write fails before an empty one has succeeded. -/
def LateFailure (length : Nat) (writes : List TryWrite) : Prop :=
  ∃ pre err post, writes = pre ++ .failed err :: post ∧ (∀ w ∈ pre, GoesOn w) ∧
    (pre.map acceptedBytes).sum = length

/-- If the call returns, it is with success exactly when all the bytes were accepted. -/
def Truthful (buf : List UInt8) (writes : List TryWrite) : Prop :=
  ∀ result, (writeFrom buf writes).2 = some result →
    (result = .ok () ↔ (writeFrom buf writes).1 = buf)

/-- Neither a gap nor a repeat, whatever the outcomes. -/
theorem prefix_writeFrom (buf : List UInt8) (writes : List TryWrite) :
    (writeFrom buf writes).1 <+: buf := by
  induction writes generalizing buf with
  | nil => exact List.nil_prefix
  | cons w writes ih =>
    cases w with
    | wouldBlock => exact ih buf
    | failed err => exact List.nil_prefix
    | ok n =>
      by_cases hbuf : buf = []
      · simp [writeFrom, hbuf]
      · simp only [writeFrom, hbuf, if_false]
        have hrest := List.prefix_append_right_inj (buf.take n) |>.mpr (ih (buf.drop n))
        rwa [List.take_append_drop] at hrest

theorem late_nil (length : Nat) : ¬ LateFailure length [] := by
  rintro ⟨pre, err, post, hsplit, -⟩
  simp at hsplit

theorem late_wouldBlock {length : Nat} {writes : List TryWrite} :
    LateFailure length (.wouldBlock :: writes) ↔ LateFailure length writes := by
  constructor
  · rintro ⟨pre, err, post, hsplit, hpre, hsum⟩
    cases pre with
    | nil => simp at hsplit
    | cons w pre =>
      obtain ⟨rfl, rfl⟩ := List.cons.inj hsplit
      rw [List.forall_mem_cons] at hpre
      exact ⟨pre, err, post, rfl, hpre.2, by simpa [acceptedBytes] using hsum⟩
  · rintro ⟨pre, err, post, rfl, hpre, hsum⟩
    refine ⟨.wouldBlock :: pre, err, post, rfl, ?_, by simpa [acceptedBytes] using hsum⟩
    exact List.forall_mem_cons.mpr ⟨Or.inl rfl, hpre⟩

theorem late_failed {length : Nat} {err : String} {writes : List TryWrite} :
    LateFailure length (.failed err :: writes) ↔ length = 0 := by
  constructor
  · rintro ⟨pre, err', post, hsplit, hpre, hsum⟩
    cases pre with
    | nil => exact hsum.symm
    | cons w pre =>
      obtain ⟨rfl, -⟩ := List.cons.inj hsplit
      rcases hpre _ List.mem_cons_self with hw | ⟨n, -, hw⟩ <;> cases hw
  · rintro rfl
    exact ⟨[], err, writes, rfl, fun _ hw => (nomatch hw), rfl⟩

theorem late_ok {length n : Nat} {writes : List TryWrite} (hn : 0 < n) (hle : n ≤ length) :
    LateFailure length (.ok n :: writes) ↔ LateFailure (length - n) writes := by
  constructor
  · rintro ⟨pre, err, post, hsplit, hpre, hsum⟩
    cases pre with
    | nil => simp at hsplit
    | cons w pre =>
      obtain ⟨rfl, rfl⟩ := List.cons.inj hsplit
      rw [List.forall_mem_cons] at hpre
      rw [List.map_cons, List.sum_cons, acceptedBytes] at hsum
      exact ⟨pre, err, post, rfl, hpre.2, by omega⟩
  · rintro ⟨pre, err, post, rfl, hpre, hsum⟩
    refine ⟨.ok n :: pre, err, post, rfl, ?_, ?_⟩
    · exact List.forall_mem_cons.mpr ⟨Or.inr ⟨n, hn, rfl⟩, hpre⟩
    · rw [List.map_cons, List.sum_cons, hsum, acceptedBytes]
      omega

theorem late_empty {length : Nat} {writes : List TryWrite} :
    ¬ LateFailure length (.ok 0 :: writes) := by
  rintro ⟨pre, err, post, hsplit, hpre, -⟩
  cases pre with
  | nil => simp at hsplit
  | cons w pre =>
    obtain ⟨rfl, -⟩ := List.cons.inj hsplit
    rcases hpre _ List.mem_cons_self with hw | ⟨n, hn, hw⟩
    · cases hw
    · cases hw
      exact absurd hn (Nat.lt_irrefl 0)

theorem writeFrom_completes {buf : List UInt8} {writes : List TryWrite}
    (hwaits : (writeFrom buf writes).2 = none) (hall : (writeFrom buf writes).1 = buf) :
    (writeFrom buf (writes ++ [.ok 0])).2 = some (.ok ()) := by
  induction writes generalizing buf with
  | nil =>
    obtain rfl : [] = buf := hall
    rfl
  | cons w writes ih =>
    cases w with
    | wouldBlock => exact ih hwaits hall
    | failed err => cases hwaits
    | ok n =>
      by_cases hbuf : buf = []
      · simp [writeFrom, hbuf] at hwaits
      · simp only [writeFrom, hbuf, if_false] at hwaits hall
        simp only [List.cons_append, writeFrom, hbuf, if_false]
        have hrest := hall.trans (List.take_append_drop n buf).symm
        exact ih hwaits (List.append_cancel_left hrest)

theorem truthful_failed {buf : List UInt8} {err : String} {writes : List TryWrite} :
    Truthful buf (.failed err :: writes) ↔ buf ≠ [] := by
  constructor
  · rintro h rfl
    have hok := (h (.error err) rfl).mpr rfl
    cases hok
  · intro hbuf result hresult
    obtain rfl := Option.some.inj hresult
    exact iff_of_false (fun h => nomatch h) (Ne.symm hbuf)

theorem truthful_empty {n : Nat} {writes : List TryWrite} : Truthful [] (.ok n :: writes) := by
  intro result hresult
  obtain rfl := Option.some.inj hresult
  exact iff_of_true rfl rfl

theorem truthful_ok {buf : List UInt8} {n : Nat} {writes : List TryWrite} (hbuf : buf ≠ []) :
    Truthful buf (.ok n :: writes) ↔ Truthful (buf.drop n) writes := by
  have hall : (writeFrom buf (.ok n :: writes)).1 = buf ↔
      (writeFrom (buf.drop n) writes).1 = buf.drop n := by
    simp only [writeFrom, hbuf, if_false]
    have hcancel : buf.take n ++ (writeFrom (buf.drop n) writes).1 =
        buf.take n ++ buf.drop n ↔ _ := List.append_right_inj _
    rwa [List.take_append_drop] at hcancel
  have hresult : (writeFrom buf (.ok n :: writes)).2 = (writeFrom (buf.drop n) writes).2 := by
    simp only [writeFrom, hbuf, if_false]
  rw [Truthful, hresult]
  simp only [hall]
  rfl

theorem writeFrom_truthful_iff {buf : List UInt8} {writes : List TryWrite}
    (h : Plausible buf writes) : Truthful buf writes ↔ ¬ LateFailure buf.length writes := by
  induction writes generalizing buf with
  | nil => exact iff_of_true (fun _ hresult => nomatch hresult) (late_nil _)
  | cons w writes ih =>
    cases w with
    | wouldBlock =>
      rw [late_wouldBlock]
      exact ih h
    | failed err => rw [truthful_failed, late_failed, List.length_eq_zero_iff]
    | ok n =>
      by_cases hbuf : buf = []
      · obtain rfl : n = 0 := (if_pos hbuf).mp h
        rw [hbuf]
        exact iff_of_true truthful_empty late_empty
      · obtain ⟨hn, hle, hrest⟩ := (if_neg hbuf).mp h
        rw [truthful_ok hbuf, late_ok hn hle, ih hrest, List.length_drop]

/-- The reply of `exec`, written to a socket that gives the outcomes `writes`. -/
def replyOver (d : Daemon Value) (tr : Transmission) (writes : List TryWrite) :
    Option (Daemon Value) :=
  (write tr writes).2.bind fun result =>
    d.reply (decide ((write tr writes).1 = utf8 tr.toStr)) (decide (result ≠ .ok ()))

/-- Where no write fails late, the manager thread goes on exactly when its reply is written. -/
theorem replyOver_idle_iff {d d' : Daemon Value} {tr : Transmission} {writes : List TryWrite}
    (hphase : d.phase = .replying tr) (houtcomes : Plausible (utf8 tr.toStr) writes)
    (htimely : ¬ LateFailure (utf8 tr.toStr).length writes)
    (h : replyOver d tr writes = some d') :
    d'.phase = .idle ↔ (write tr writes).1 = utf8 tr.toStr := by
  obtain ⟨result, hresult, h⟩ := Option.bind_eq_some_iff.mp h
  have htruthful := (writeFrom_truthful_iff houtcomes).mpr htimely result hresult
  refine Iff.trans ?_ htruthful
  obtain ⟨_, hphase', hcases⟩ := Daemon.reply_cases h
  cases hphase.symm.trans hphase'
  rcases hcases with ⟨hfailed, rfl⟩ | ⟨hfailed, rfl | rfl⟩
  · exact iff_of_true rfl (by simpa using hfailed)
  all_goals
    exact iff_of_false (by simp [Daemon.die]) (by simpa using hfailed)

/-- For every transmission and every sequence of outcomes: what is accepted is a prefix of the
encoding, a call that still waits with all of it accepted succeeds with the next empty write,
and a call that returns tells the truth exactly when no write fails between the last byte and
an empty write that succeeds. -/
theorem write_truthful_iff (tr : Transmission) (writes : List TryWrite)
    (h : Plausible (utf8 tr.toStr) writes) :
    (write tr writes).1 <+: utf8 tr.toStr ∧
      ((write tr writes).2 = none → (write tr writes).1 = utf8 tr.toStr →
        (write tr (writes ++ [.ok 0])).2 = some (.ok ())) ∧
      (Truthful (utf8 tr.toStr) writes ↔ ¬ LateFailure (utf8 tr.toStr).length writes) :=
  ⟨prefix_writeFrom _ _, writeFrom_completes, writeFrom_truthful_iff h⟩

def answer : Transmission := ⟨.outgoing 5, "res#false"⟩

theorem write_truthful_iff_partial :
    (write answer [.ok 1, .wouldBlock, .ok 15, .ok 0]).1 <+: utf8 answer.toStr ∧
      ((write answer [.ok 1, .wouldBlock, .ok 15, .ok 0]).2 = none →
        (write answer [.ok 1, .wouldBlock, .ok 15, .ok 0]).1 = utf8 answer.toStr →
        (write answer [.ok 1, .wouldBlock, .ok 15, .ok 0, .ok 0]).2 = some (.ok ())) ∧
      (Truthful (utf8 answer.toStr) [.ok 1, .wouldBlock, .ok 15, .ok 0] ↔
        ¬ LateFailure (utf8 answer.toStr).length [.ok 1, .wouldBlock, .ok 15, .ok 0]) :=
  write_truthful_iff answer _ (by decide)

def querying : List (Label Unit) :=
  [.connect ⟨.incoming 5, "5#0##query##1"⟩, .listen 0 true [], .listen 0 true [],
    .listen 0 true [], .listen 0 true [], .recv, .pop,
    .execute ⟨some ⟨0, 0⟩, 0, .ok (), true, true⟩ (.ok ()), .reply true true]

theorem late_failure_kills :
    Plausible (utf8 answer.toStr)
        [.ok (utf8 answer.toStr).length, .failed "Broken pipe (os error 32)"] ∧
      (write answer [.ok (utf8 answer.toStr).length, .failed "Broken pipe (os error 32)"]) =
        (utf8 answer.toStr, some (.error "Broken pipe (os error 32)")) ∧
      ¬ Truthful (utf8 answer.toStr)
        [.ok (utf8 answer.toStr).length, .failed "Broken pipe (os error 32)"] ∧
      (run (Daemon.step Platform.bare) (Daemon.start (.empty 10) none) querying).map
          (fun d => (d.accepted.drop 1, d.phase)) = some ([answer], .dead .failed) := by
  refine ⟨by decide, by decide, fun h => ?_, by decide⟩
  have hok := (h (.error "Broken pipe (os error 32)") (by decide)).mpr (by decide)
  cases hok

end NotifsPiper.Writing

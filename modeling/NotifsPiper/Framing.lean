import NotifsPiper.Listener

/-! Where transmissions end on a stream. A transmission is read back exactly when its bytes
arrive as reads that fill the buffer followed by one that does not, none of which cuts a
character. -/

namespace NotifsPiper.Framing

open Utf8 Listener

structure Chunk where
  bytes : List UInt8
  nonempty : bytes ≠ []
  fits : bytes.length ≤ bufSize

def Full (chunks : List (List UInt8)) : Prop := ∀ c ∈ chunks, c.length = bufSize

def Decodes (chunks : List (List UInt8)) : Prop := ∀ c ∈ chunks, ∃ text, fromUtf8 c = some text

/-- Every transmission comes as full reads and one shorter read that ends where it ends, and
each read is whole characters. -/
def Framed : List Transmission → List (List UInt8) → Prop
  | [], chunks => chunks = []
  | tr :: trs, chunks => ∃ full last rest, chunks = full ++ last :: rest ∧ Full full ∧
      last.length < bufSize ∧ Decodes (full ++ [last]) ∧
        full.flatten ++ last = utf8 tr.toStr ∧ Framed trs rest

theorem Decodes.flatten {chunks : List (List UInt8)} (h : Decodes chunks) :
    ∃ text, utf8 text = chunks.flatten := by
  induction chunks with
  | nil => exact ⟨"", rfl⟩
  | cons c chunks ih =>
    obtain ⟨a, ha⟩ := h c (by simp)
    obtain ⟨b, hb⟩ := ih fun d hd => h d (by simp [hd])
    exact ⟨a ++ b, by rw [utf8_append, fromUtf8_eq_some.mp ha, hb, List.flatten_cons]⟩

theorem readFrom_full {tdata : String} {full : List (List UInt8)} {text : String}
    (hfull : Full full) (hdec : Decodes full) (htext : utf8 text = full.flatten)
    (reads : List TryRead) :
    readFrom tdata (full.map .ok ++ reads) = readFrom (tdata ++ text) reads := by
  induction full generalizing tdata text with
  | nil =>
    have hempty : text = "" := utf8_inj.mp htext
    simp [hempty]
  | cons c full ih =>
    obtain ⟨a, ha⟩ := hdec c (by simp)
    rw [List.flatten_cons, ← fromUtf8_eq_some.mp ha] at htext
    obtain ⟨b, rfl, hb⟩ := utf8_split htext
    have hlen : ¬ c.length < bufSize := by
      rw [hfull c (by simp)]
      exact Nat.lt_irrefl _
    have hfull : Full full := fun d hd => hfull d (by simp [hd])
    have hdec : Decodes full := fun d hd => hdec d (by simp [hd])
    simp only [List.map_cons, List.cons_append, readFrom, ha, hlen, if_false]
    rw [ih hfull hdec hb, String.append_assoc]

def decoded (text : String) : ReadResult :=
  match Transmission.fromStr text with
  | .ok tr => .done tr
  | .error err => .invalidData err.data

/-- A text that comes framed is read to its end. -/
theorem readFrom_text {full : List (List UInt8)} {last : List UInt8} {text : String}
    (hfull : Full full) (hlast : last.length < bufSize) (hdec : Decodes (full ++ [last]))
    (htext : utf8 text = full.flatten ++ last) {tdata : String} (reads : List TryRead) :
    readFrom tdata (full.map .ok ++ .ok last :: reads) = (decoded (tdata ++ text), reads) := by
  obtain ⟨b, hb⟩ := hdec last (by simp)
  have hdec : Decodes full := fun d hd => hdec d (by simp [hd])
  obtain ⟨a, ha⟩ := hdec.flatten
  have htext : text = a ++ b := utf8_inj.mp (by rw [htext, utf8_append, ha, fromUtf8_eq_some.mp hb])
  subst htext
  rw [readFrom_full hfull hdec ha]
  simp only [readFrom, hb, hlast, if_true, decoded, String.append_assoc]
  cases Transmission.fromStr (tdata ++ (a ++ b)) <;> rfl

theorem readFrom_framed {full : List (List UInt8)} {last : List UInt8} {text : String}
    {tr : Transmission} (hfull : Full full) (hlast : last.length < bufSize)
    (hdec : Decodes (full ++ [last])) (htext : utf8 text = full.flatten ++ last)
    {tdata : String} (hparse : Transmission.fromStr (tdata ++ text) = .ok tr)
    (reads : List TryRead) :
    readFrom tdata (full.map .ok ++ .ok last :: reads) = (.done tr, reads) := by
  rw [readFrom_text hfull hlast hdec htext, decoded, hparse]

theorem readFrom_done {tdata : String} {chunks : List (List UInt8)} {tr : Transmission}
    {rest : List TryRead} (hfits : ∀ c ∈ chunks, c.length ≤ bufSize)
    (h : readFrom tdata (chunks.map .ok) = (.done tr, rest)) :
    ∃ full last text chunks', chunks = full ++ last :: chunks' ∧ rest = chunks'.map .ok ∧
      Full full ∧ last.length < bufSize ∧ Decodes (full ++ [last]) ∧
        utf8 text = full.flatten ++ last ∧ Transmission.fromStr (tdata ++ text) = .ok tr := by
  induction chunks generalizing tdata with
  | nil => cases h
  | cons c chunks ih =>
    simp only [List.map_cons, readFrom] at h
    split at h
    · cases h
    next a ha =>
      split at h
      next hshort =>
        split at h
        next hparse =>
          cases h
          refine ⟨[], c, a, chunks, rfl, rfl, by simp [Full], hshort, ?_, ?_, hparse⟩
          · simp [Decodes, ha]
          · simp [fromUtf8_eq_some.mp ha]
        next => cases h
      next hlong =>
        rw [List.forall_mem_cons] at hfits
        obtain ⟨full, last, text, chunks', rfl, hrest, hfull, hlast, hdec, htext, hparse⟩ :=
          ih hfits.2 h
        refine ⟨c :: full, last, a ++ text, chunks', rfl, hrest, ?_, hlast, ?_, ?_, ?_⟩
        · exact List.forall_mem_cons.mpr ⟨by omega, hfull⟩
        · exact List.forall_mem_cons.mpr ⟨⟨a, ha⟩, hdec⟩
        · rw [utf8_append, fromUtf8_eq_some.mp ha, htext, List.flatten_cons, List.append_assoc]
        · rw [← String.append_assoc, hparse]

theorem eq_toStr_of_stream {text : String} {tr : Transmission}
    (hparse : Transmission.fromStr text = .ok tr) {xs ys : List UInt8}
    (h : utf8 text ++ xs = utf8 tr.toStr ++ ys) : text = tr.toStr := by
  have hdata : ∀ more : String, tr.data ++ more = tr.data → more = "" := by
    intro more hmore
    have hbytes := utf8_inj.mpr hmore
    rw [utf8_append, List.append_right_eq_self] at hbytes
    exact utf8_inj.mp hbytes
  rcases List.append_eq_append_iff.mp h with ⟨more, hlong, -⟩ | ⟨more, hshort, -⟩
  · obtain ⟨b, hb, -⟩ := utf8_split hlong
    have hwhole := Transmission.fromStr_append hparse b
    rw [← hb, Transmission.fromStr_toStr] at hwhole
    have hb0 : b = "" := hdata b (congrArg Transmission.data (Except.ok.inj hwhole)).symm
    rw [hb, hb0, String.append_empty]
  · obtain ⟨b, hb, -⟩ := utf8_split hshort
    have hwhole := Transmission.fromStr_append (Transmission.fromStr_toStr tr) b
    rw [← hb, hparse] at hwhole
    have hb0 : b = "" := hdata b (congrArg Transmission.data (Except.ok.inj hwhole)).symm
    rw [hb, hb0, String.append_empty]

def stream (sent : List (Transmission × List TryWrite)) : List UInt8 :=
  sent.flatMap fun w => (write w.1 w.2).1

theorem watch_cons_iff {reads : List TryRead} {tr : Transmission} {trs : List Transmission} :
    watch reads = tr :: trs ↔ ∃ rest, Listener.read reads = (.done tr, rest) ∧ watch rest = trs := by
  rw [watch]
  split
  next tr' rest hread => simp [hread]
  next hread =>
    refine iff_of_false (by simp) ?_
    rintro ⟨rest, hdone, -⟩
    exact hread tr rest hdone

theorem watch_eq_iff_of_chunks (trs : List Transmission) (chunks : List (List UInt8))
    (hnonempty : ∀ c ∈ chunks, c ≠ []) (hfits : ∀ c ∈ chunks, c.length ≤ bufSize)
    (hchunks : chunks.flatten = trs.flatMap fun tr => utf8 tr.toStr) :
    watch (chunks.map .ok) = trs ↔ Framed trs chunks := by
  induction trs generalizing chunks with
  | nil =>
    cases chunks with
    | nil => simp [Framed, watch_nil]
    | cons c chunks =>
      rw [List.flatMap_nil, List.flatten_eq_nil_iff] at hchunks
      exact absurd (hchunks c (by simp)) (hnonempty c (by simp))
  | cons tr trs ih =>
    rw [List.flatMap_cons] at hchunks
    rw [watch_cons_iff, Framed]
    constructor
    · rintro ⟨rest, hread, hwatch⟩
      obtain ⟨full, last, text, chunks', rfl, rfl, hfull, hlast, hdec, htext, hparse⟩ :=
        readFrom_done hfits hread
      rw [String.empty_append] at hparse
      rw [show (full ++ last :: chunks').flatten = utf8 text ++ chunks'.flatten by
        rw [htext]; simp] at hchunks
      have hself := eq_toStr_of_stream hparse hchunks
      subst hself
      refine ⟨full, last, chunks', rfl, hfull, hlast, hdec, htext.symm, ?_⟩
      refine (ih chunks' (fun c hc => hnonempty c (by simp [hc]))
        (fun c hc => hfits c (by simp [hc])) (List.append_cancel_left hchunks)).mp hwatch
    · rintro ⟨full, last, chunks', rfl, hfull, hlast, hdec, htext, hrest⟩
      rw [show (full ++ last :: chunks').flatten = utf8 tr.toStr ++ chunks'.flatten by
        rw [← htext]; simp] at hchunks
      refine ⟨chunks'.map .ok, ?_, ?_⟩
      · have hparse : Transmission.fromStr ("" ++ tr.toStr) = .ok tr := by
          rw [String.empty_append, Transmission.fromStr_toStr]
        have hread := readFrom_framed hfull hlast hdec htext.symm hparse (chunks'.map .ok)
        simpa [Listener.read] using hread
      · exact (ih chunks' (fun c hc => hnonempty c (by simp [hc]))
          (fun c hc => hfits c (by simp [hc])) (List.append_cancel_left hchunks)).mpr hrest

/-- The watching client gets back what was written exactly when every transmission arrives
framed. -/
theorem watch_eq_iff_framed (sent : List (Transmission × List TryWrite))
    (hsent : ∀ w ∈ sent, (write w.1 w.2).2 = some (.ok ())) (chunks : List Chunk)
    (hchunks : (chunks.map Chunk.bytes).flatten = stream sent) :
    watch (chunks.map fun c => .ok c.bytes) = sent.map Prod.fst ↔
      Framed (sent.map Prod.fst) (chunks.map Chunk.bytes) := by
  have hstream : stream sent = (sent.map Prod.fst).flatMap fun tr => utf8 tr.toStr := by
    rw [List.flatMap_map]
    exact List.flatMap_congr fun w hw => writeFrom_ok (hsent w hw)
  have hreads : (chunks.map fun c => TryRead.ok c.bytes) = (chunks.map Chunk.bytes).map .ok := by
    rw [List.map_map]
    rfl
  rw [hreads]
  refine watch_eq_iff_of_chunks _ _ ?_ ?_ (hchunks.trans hstream)
  · intro c hc
    obtain ⟨chunk, -, rfl⟩ := List.mem_map.mp hc
    exact chunk.nonempty
  · intro c hc
    obtain ⟨chunk, -, rfl⟩ := List.mem_map.mp hc
    exact chunk.fits

def closings : List (Transmission × List TryWrite) :=
  [(⟨.outgoing 0, "ev#cls#1"⟩, [.ok 15, .ok 0]), (⟨.outgoing 0, "ev#cls#2"⟩, [.ok 15, .ok 0])]

def apart : List Chunk :=
  [⟨utf8 "out#0##ev#cls#1", by decide, by decide⟩, ⟨utf8 "out#0##ev#cls#2", by decide, by decide⟩]

def joined : List Chunk :=
  [⟨utf8 "out#0##ev#cls#1out#0##ev#cls#2", by decide, by decide⟩]

theorem watch_eq_iff_framed_closings :
    watch (apart.map fun c => .ok c.bytes) = closings.map Prod.fst ↔
      Framed (closings.map Prod.fst) (apart.map Chunk.bytes) :=
  watch_eq_iff_framed closings (by decide) apart (by decide)

theorem joined_writes_merge :
    (∀ w ∈ closings, (write w.1 w.2).2 = some (.ok ())) ∧
      (joined.map Chunk.bytes).flatten = stream closings ∧
      watch (joined.map fun c => .ok c.bytes) = [⟨.outgoing 0, "ev#cls#1out#0##ev#cls#2"⟩] ∧
      watch (joined.map fun c => .ok c.bytes) ≠ closings.map Prod.fst := by
  have hread : Listener.read (joined.map fun c => .ok c.bytes) =
      (.done ⟨.outgoing 0, "ev#cls#1out#0##ev#cls#2"⟩, []) := by
    have hparse : Transmission.fromStr "out#0##ev#cls#1out#0##ev#cls#2" =
        .ok ⟨.outgoing 0, "ev#cls#1out#0##ev#cls#2"⟩ := by decide
    have hshort : (utf8 "out#0##ev#cls#1out#0##ev#cls#2").length < bufSize := by decide
    simp [joined, Listener.read, readFrom, fromUtf8_utf8, hshort, hparse]
  have hwatch := watch_cons_iff.mpr ⟨[], hread, watch_nil⟩
  refine ⟨by decide, by decide, hwatch, ?_⟩
  rw [hwatch]
  decide

/-! One transmission, whole in the socket. -/

/-- What `try_read` answers while `bytes` wait in the socket. -/
def tryReads (bytes : List UInt8) : List TryRead :=
  if bytes = [] then [] else .ok (bytes.take bufSize) :: tryReads (bytes.drop bufSize)
termination_by bytes.length
decreasing_by
  have hpos := List.length_pos_iff.mpr (by assumption)
  simp only [List.length_drop, bufSize]
  omega

theorem boundaries_append {a b : String} (ha : (utf8 a).length = bufSize) :
    (∀ k, bufSize * k ≤ (utf8 (a ++ b)).length → CharBoundary (a ++ b) (bufSize * k)) ↔
      ∀ k, bufSize * k ≤ (utf8 b).length → CharBoundary b (bufSize * k) := by
  have hlen : (utf8 (a ++ b)).length = bufSize + (utf8 b).length := by
    rw [utf8_append, List.length_append, ha]
  have hshift : ∀ k, CharBoundary (a ++ b) (bufSize + bufSize * k) ↔
      CharBoundary b (bufSize * k) := by
    intro k
    rw [← ha]
    exact charBoundary_append a b _
  constructor
  · intro h k hk
    have hnext := h (k + 1) (by rw [hlen, Nat.mul_succ]; omega)
    rwa [Nat.mul_succ, Nat.add_comm, hshift] at hnext
  · intro h k hk
    cases k with
    | zero => exact charBoundary_zero _
    | succ k =>
      rw [hlen, Nat.mul_succ] at hk
      rw [Nat.mul_succ, Nat.add_comm, hshift]
      exact h k (by omega)

theorem readFrom_tryReads_short {text : String} (hnonempty : utf8 text ≠ [])
    (hshort : (utf8 text).length < bufSize) (tdata : String) (tr : Transmission) :
    readFrom tdata (tryReads (utf8 text)) = (.done tr, []) ↔
      Transmission.fromStr (tdata ++ text) = .ok tr := by
  have htake : (utf8 text).take bufSize = utf8 text := List.take_of_length_le (by omega)
  have hdrop : (utf8 text).drop bufSize = [] := List.drop_of_length_le (by omega)
  rw [tryReads, if_neg hnonempty, htake, hdrop, tryReads, if_pos rfl]
  simp only [readFrom, fromUtf8_utf8, hshort, if_true]
  cases Transmission.fromStr (tdata ++ text) <;> simp

theorem readFrom_tryReads_iff (text tdata : String) (tr : Transmission) :
    readFrom tdata (tryReads (utf8 text)) = (.done tr, []) ↔
      (utf8 text).length % bufSize ≠ 0 ∧
        (∀ k, bufSize * k ≤ (utf8 text).length → CharBoundary text (bufSize * k)) ∧
        Transmission.fromStr (tdata ++ text) = .ok tr := by
  induction hn : (utf8 text).length using Nat.strong_induction_on generalizing text tdata with
  | _ n ih
  rw [← hn]
  by_cases hnonempty : utf8 text = []
  · simp [hnonempty, tryReads, readFrom]
  by_cases hshort : (utf8 text).length < bufSize
  · have hmod : (utf8 text).length % bufSize ≠ 0 := by
      rw [Nat.mod_eq_of_lt hshort]
      simpa using hnonempty
    have hbound : ∀ k, bufSize * k ≤ (utf8 text).length → CharBoundary text (bufSize * k) := by
      intro k hk
      cases k with
      | zero => exact charBoundary_zero text
      | succ k => rw [Nat.mul_succ] at hk; omega
    rw [readFrom_tryReads_short hnonempty hshort, and_iff_right hmod, and_iff_right hbound]
  · have hlen : bufSize ≤ (utf8 text).length := by omega
    have htake : ((utf8 text).take bufSize).length = bufSize := by
      rw [List.length_take, Nat.min_eq_left hlen]
    rw [tryReads, if_neg hnonempty]
    cases hdec : fromUtf8 ((utf8 text).take bufSize) with
    | none =>
      refine iff_of_false (by simp [readFrom, hdec]) ?_
      rintro ⟨-, hbound, -⟩
      have hone := hbound 1 (by rwa [Nat.mul_one])
      rw [Nat.mul_one, ← fromUtf8_take hlen, hdec] at hone
      simp at hone
    | some a =>
      have ha := fromUtf8_eq_some.mp hdec
      have hsplit : utf8 text = utf8 a ++ (utf8 text).drop bufSize := by
        rw [ha, List.take_append_drop]
      obtain ⟨b, rfl, hb⟩ := utf8_split hsplit
      have hdrop : (utf8 (a ++ b)).drop bufSize = utf8 b := hb.symm
      have halen : (utf8 a).length = bufSize := by rw [ha, htake]
      have hlt : (utf8 b).length < n := by
        rw [← hn, utf8_append, List.length_append, halen, bufSize]
        omega
      simp only [readFrom, hdec, htake, Nat.lt_irrefl, if_false, hdrop]
      rw [ih _ hlt b (tdata ++ a) rfl, boundaries_append halen, utf8_append, List.length_append,
        halen, Nat.add_mod_left, String.append_assoc]

/-- A transmission that is whole in the socket is read, to its last byte, exactly when it does
not end where a read ends and no read cuts a character. -/
theorem read_whole_iff (tr : Transmission) :
    Listener.read (tryReads (utf8 tr.toStr)) = (.done tr, []) ↔
      (utf8 tr.toStr).length % bufSize ≠ 0 ∧
        ∀ k, bufSize * k ≤ (utf8 tr.toStr).length → CharBoundary tr.toStr (bufSize * k) := by
  rw [Listener.read, readFrom_tryReads_iff, String.empty_append, Transmission.fromStr_toStr]
  simp

theorem read_full_not_done {tr : Transmission} (h : (utf8 tr.toStr).length % bufSize = 0) :
    Listener.read (tryReads (utf8 tr.toStr)) ≠ (.done tr, []) :=
  fun hdone => ((readFrom_tryReads_iff _ _ _).mp hdone).1 h

theorem length_utf8_replicate (n : Nat) :
    (utf8 (String.ofList (List.replicate n 'a'))).length = n := by
  induction n with
  | zero => rfl
  | succ n ih =>
    rw [List.replicate_succ, ← List.singleton_append, String.ofList_append, utf8_append,
      List.length_append, ih, Nat.add_comm]
    rfl

def reply (n : Nat) : Transmission := ⟨.outgoing 1, String.ofList (List.replicate n 'a')⟩

theorem length_utf8_reply (n : Nat) : (utf8 (reply n).toStr).length = 7 + n := by
  have hhead : (utf8 ((TransmissionType.outgoing 1).toStr ++ "##")).length = 7 := by decide
  rw [reply, Transmission.toStr, utf8_append, List.length_append, length_utf8_replicate, hhead]

/-- A reply of exactly 4096 bytes is waited for after its last byte. -/
theorem read_whole_waits :
    Listener.read (tryReads (utf8 (reply 4089).toStr)) ≠ (.done (reply 4089), []) :=
  read_full_not_done (by rw [length_utf8_reply, bufSize])

end NotifsPiper.Framing

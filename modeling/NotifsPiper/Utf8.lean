import Mathlib.Data.List.Basic

/-! Strings and their UTF-8 bytes. -/

namespace NotifsPiper.Utf8

def utf8 (s : String) : List UInt8 := s.toByteArray.data.toList

def fromUtf8 (bs : List UInt8) : Option String := String.fromUTF8? ⟨bs.toArray⟩

@[simp] theorem utf8_append (s t : String) : utf8 (s ++ t) = utf8 s ++ utf8 t := by
  simp [utf8]

@[simp] theorem utf8_empty : utf8 "" = [] := rfl

theorem utf8_inj {s t : String} : utf8 s = utf8 t ↔ s = t := by
  constructor
  · intro h
    have hdata : s.toByteArray.data = t.toByteArray.data := Array.toList_inj.mp h
    exact String.toByteArray_inj.mp (ByteArray.ext hdata)
  · rintro rfl
    rfl

theorem fromUtf8_eq_some {bs : List UInt8} {s : String} :
    fromUtf8 bs = some s ↔ utf8 s = bs := by
  unfold fromUtf8 String.fromUTF8?
  constructor
  · intro h
    split at h
    · cases h
      simp [utf8, String.fromUTF8]
    · cases h
  · rintro rfl
    have hvalid : (⟨(utf8 s).toArray⟩ : ByteArray).IsValidUTF8 := by
      simpa [utf8] using s.isValidUTF8
    rw [dif_pos hvalid]
    rfl

theorem fromUtf8_utf8 (s : String) : fromUtf8 (utf8 s) = some s :=
  fromUtf8_eq_some.mpr rfl

theorem utf8_split {s a : String} {rest : List UInt8} (h : utf8 s = utf8 a ++ rest) :
    ∃ b, s = a ++ b ∧ utf8 b = rest := by
  have hbytes : a.toList.utf8Encode ++ ⟨rest.toArray⟩ = s.toList.utf8Encode := by
    rw [String.utf8Encode_toList, String.utf8Encode_toList]
    apply ByteArray.ext
    apply Array.toList_inj.mp
    simpa [utf8] using h.symm
  obtain ⟨cs, hcs⟩ := List.isPrefix_of_utf8Encode_append_eq_utf8Encode _ hbytes
  have hs : s = a ++ String.ofList cs := by
    rw [← String.ofList_toList (s := s), ← hcs, String.ofList_append, String.ofList_toList]
  refine ⟨String.ofList cs, hs, ?_⟩
  rw [hs, utf8_append] at h
  exact List.append_cancel_left h

/-- The first `n` bytes of `s` are whole characters. -/
def CharBoundary (s : String) (n : Nat) : Prop :=
  ∃ a b, s = a ++ b ∧ (utf8 a).length = n

theorem charBoundary_zero (s : String) : CharBoundary s 0 := ⟨"", s, by simp, rfl⟩

/-- A prefix decodes exactly when it ends at a character boundary. -/
theorem fromUtf8_take {s : String} {n : Nat} (hn : n ≤ (utf8 s).length) :
    (∃ a, fromUtf8 ((utf8 s).take n) = some a) ↔ CharBoundary s n := by
  constructor
  · rintro ⟨a, ha⟩
    have hsplit : utf8 s = utf8 a ++ (utf8 s).drop n := by
      rw [fromUtf8_eq_some.mp ha, List.take_append_drop]
    obtain ⟨b, hs, -⟩ := utf8_split hsplit
    exact ⟨a, b, hs, by rw [fromUtf8_eq_some.mp ha, List.length_take, Nat.min_eq_left hn]⟩
  · rintro ⟨a, b, rfl, rfl⟩
    exact ⟨a, fromUtf8_eq_some.mpr (by simp)⟩

theorem charBoundary_append (a b : String) (n : Nat) :
    CharBoundary (a ++ b) ((utf8 a).length + n) ↔ CharBoundary b n := by
  constructor
  · rintro ⟨c, d, hcd, hc⟩
    have hbytes : utf8 a ++ utf8 b = utf8 c ++ utf8 d := by
      rw [← utf8_append, ← utf8_append, hcd]
    have hsplit : utf8 c = utf8 a ++ (utf8 c).drop (utf8 a).length := by
      have htake := congrArg (List.take (utf8 a).length) hbytes
      rw [List.take_left, List.take_append_of_le_length (by omega)] at htake
      conv_lhs => rw [← List.take_append_drop (utf8 a).length (utf8 c), ← htake]
    obtain ⟨e, rfl, -⟩ := utf8_split hsplit
    refine ⟨e, d, ?_, ?_⟩
    · rw [utf8_append, List.append_assoc] at hbytes
      exact utf8_inj.mp (by rw [utf8_append]; exact List.append_cancel_left hbytes)
    · simpa using hc
  · rintro ⟨c, d, rfl, rfl⟩
    exact ⟨a ++ c, d, by rw [String.append_assoc], by simp⟩

end NotifsPiper.Utf8

import Mathlib.Data.List.Basic
import Mathlib.Data.List.Infix
import Mathlib.Tactic.Linarith

/-! Delimited text and unsigned decimal numbers, as the parsers of strings and
integers in a standard library treat them: a split at the first occurrence of a
delimiter, a number with an optional plus sign that must fit its type. -/

namespace NotifsPiper.Delimited

variable {α : Type*}

/-- Every `c` of the text is followed, inside the text, by something else. -/
def Separated (c : α) : List α → Prop
  | [] => True
  | [x] => x ≠ c
  | x :: y :: xs => (x = c → y ≠ c) ∧ Separated c (y :: xs)

theorem separated_of_not_mem {c : α} {a : List α} (h : c ∉ a) : Separated c a := by
  induction a with
  | nil => trivial
  | cons x a ih =>
    have hx : x ≠ c := fun hxc => h (hxc ▸ List.mem_cons_self)
    have ha := ih fun hc => h (List.mem_cons_of_mem _ hc)
    cases a with
    | nil => exact hx
    | cons y a => exact ⟨fun hxc => absurd hxc hx, ha⟩

theorem separated_join {c : α} {a b : List α} (ha : c ∉ a) (hb : Separated c b) (hne : b ≠ [])
    (hhead : b.head? ≠ some c) : Separated c (a ++ c :: b) := by
  induction a with
  | nil =>
    cases b with
    | nil => exact absurd rfl hne
    | cons y b => exact ⟨fun _ hy => hhead (by simp [hy]), hb⟩
  | cons x a ih =>
    have hx : x ≠ c := fun hxc => ha (hxc ▸ List.mem_cons_self)
    have ih := ih fun hc => ha (List.mem_cons_of_mem _ hc)
    cases a with
    | nil => exact ⟨fun hxc => absurd hxc hx, ih⟩
    | cons y a => exact ⟨fun hxc => absurd hxc hx, ih⟩

variable [DecidableEq α]

/-- The texts before and after the first occurrence of `d`. -/
def splitOnce (d : List α) : List α → Option (List α × List α)
  | [] => if d = [] then some ([], []) else none
  | x :: xs =>
    if d.isPrefixOf (x :: xs) then some ([], (x :: xs).drop d.length)
    else (splitOnce d xs).map fun ab => (x :: ab.1, ab.2)

theorem splitOnce_prefix (d rest : List α) : splitOnce d (d ++ rest) = some ([], rest) := by
  cases h : d ++ rest with
  | nil =>
    obtain ⟨rfl, rfl⟩ := List.append_eq_nil_iff.mp h
    rfl
  | cons x xs =>
    have hpre : d.isPrefixOf (x :: xs) = true := by rw [← h]; simp
    rw [splitOnce, if_pos hpre, ← h, List.drop_left]

theorem splitOnce_cons {d : List α} {x : α} {xs : List α} (h : ¬ d <+: x :: xs) :
    splitOnce d (x :: xs) = (splitOnce d xs).map fun ab => (x :: ab.1, ab.2) := by
  rw [splitOnce, if_neg (by simpa using h)]

theorem splitOnce_char {c : α} {a : List α} (h : c ∉ a) (b : List α) :
    splitOnce [c] (a ++ c :: b) = some (a, b) := by
  induction a with
  | nil => exact splitOnce_prefix [c] b
  | cons x a ih =>
    have hx : ¬ [c] <+: x :: (a ++ c :: b) := by
      intro hpre
      obtain ⟨rfl, -⟩ := List.cons_prefix_cons.mp hpre
      exact h List.mem_cons_self
    rw [List.cons_append, splitOnce_cons hx, ih fun hc => h (List.mem_cons_of_mem _ hc)]
    rfl

theorem splitOnce_eq_append {d xs a b : List α} (h : splitOnce d xs = some (a, b)) :
    xs = a ++ (d ++ b) := by
  induction xs generalizing a with
  | nil =>
    unfold splitOnce at h
    split_ifs at h with hd
    cases h
    simp [hd]
  | cons x xs ih =>
    unfold splitOnce at h
    split_ifs at h with hpre
    · cases h
      obtain ⟨rest, hrest⟩ := List.isPrefixOf_iff_prefix.mp hpre
      rw [← hrest, List.drop_left, List.nil_append]
    · obtain ⟨⟨a', b'⟩, hxs, heq⟩ := Option.map_eq_some_iff.mp h
      cases heq
      rw [ih hxs, List.cons_append]

theorem splitOnce_append {d xs a b : List α} (h : splitOnce d xs = some (a, b)) (more : List α) :
    splitOnce d (xs ++ more) = some (a, b ++ more) := by
  induction xs generalizing a with
  | nil =>
    unfold splitOnce at h
    split_ifs at h with hd
    cases h
    subst hd
    exact splitOnce_prefix [] more
  | cons x xs ih =>
    by_cases hpre : d <+: x :: xs
    · obtain ⟨rest, hrest⟩ := hpre
      rw [← hrest, splitOnce_prefix] at h
      cases h
      rw [← hrest, List.append_assoc, splitOnce_prefix]
    · rw [splitOnce_cons hpre] at h
      obtain ⟨⟨a', b'⟩, hxs, heq⟩ := Option.map_eq_some_iff.mp h
      cases heq
      have hlen : d.length ≤ (x :: xs).length := by
        rw [splitOnce_eq_append hxs]
        simp only [List.length_cons, List.length_append]
        omega
      have hpre' : ¬ d <+: x :: (xs ++ more) := fun h' =>
        hpre (List.prefix_of_prefix_length_le h' (List.prefix_append (x :: xs) more) hlen)
      rw [List.cons_append, splitOnce_cons hpre', ih hxs]
      rfl

theorem splitOnce_double {c : α} {a : List α} (h : Separated c a) (b : List α) :
    splitOnce [c, c] (a ++ c :: c :: b) = some (a, b) := by
  induction a with
  | nil => exact splitOnce_prefix [c, c] b
  | cons x a ih =>
    have hx : ¬ [c, c] <+: x :: (a ++ c :: c :: b) := by
      intro hpre
      obtain ⟨hcx, htail⟩ := List.cons_prefix_cons.mp hpre
      cases a with
      | nil => exact h hcx.symm
      | cons y a => exact h.1 hcx.symm (List.cons_prefix_cons.mp htail).1.symm
    have ha : Separated c a := by
      cases a with
      | nil => trivial
      | cons y a => exact h.2
    rw [List.cons_append, splitOnce_cons hx, ih ha]
    rfl

/-! Unsigned decimal numbers. -/

inductive IntError
  | empty
  | invalidDigit
  | posOverflow
  deriving DecidableEq, Repr

def parseDigits (bound : Nat) : List Char → Nat → Except IntError Nat
  | [], acc => .ok acc
  | c :: cs, acc =>
    if c.isDigit then
      if 10 * acc + (c.toNat - '0'.toNat) < bound then
        parseDigits bound cs (10 * acc + (c.toNat - '0'.toNat))
      else .error .posOverflow
    else .error .invalidDigit

def parseUnsigned (bound : Nat) : List Char → Except IntError Nat
  | [] => .error .empty
  | [c] => if c = '+' ∨ c = '-' then .error .invalidDigit else parseDigits bound [c] 0
  | c :: d :: cs =>
    if c = '+' then parseDigits bound (d :: cs) 0 else parseDigits bound (c :: d :: cs) 0

theorem le_ofDigitChars (cs : List Char) (acc : Nat) : acc ≤ Nat.ofDigitChars 10 cs acc := by
  induction cs generalizing acc with
  | nil => simp
  | cons c cs ih =>
    rw [Nat.ofDigitChars_cons]
    exact le_trans (by omega) (ih _)

theorem parseDigits_eq {bound : Nat} {cs : List Char} {acc : Nat}
    (hdigits : ∀ c ∈ cs, c.isDigit = true) (hbound : Nat.ofDigitChars 10 cs acc < bound) :
    parseDigits bound cs acc = .ok (Nat.ofDigitChars 10 cs acc) := by
  induction cs generalizing acc with
  | nil => simp [parseDigits]
  | cons c cs ih =>
    rw [Nat.ofDigitChars_cons] at hbound ⊢
    have hfits := lt_of_le_of_lt (le_ofDigitChars cs _) hbound
    rw [parseDigits, if_pos (hdigits c List.mem_cons_self), if_pos hfits]
    exact ih (fun d hd => hdigits d (List.mem_cons_of_mem _ hd)) hbound

theorem parseUnsigned_eq_parseDigits {bound : Nat} {cs : List Char} (hne : cs ≠ [])
    (hdigits : ∀ c ∈ cs, c.isDigit = true) : parseUnsigned bound cs = parseDigits bound cs 0 := by
  cases cs with
  | nil => exact absurd rfl hne
  | cons c cs =>
    have hc := hdigits c List.mem_cons_self
    have hplus : c ≠ '+' := by rintro rfl; exact absurd hc (by decide)
    have hminus : c ≠ '-' := by rintro rfl; exact absurd hc (by decide)
    cases cs <;> simp [parseUnsigned, hplus, hminus]

/-- A number that fits its type is read back from its decimal digits. -/
theorem parseUnsigned_toDigits {bound n : Nat} (hn : n < bound) :
    parseUnsigned bound (Nat.toDigits 10 n) = .ok n := by
  have hdigits : ∀ c ∈ Nat.toDigits 10 n, c.isDigit = true := fun c hc =>
    Nat.isDigit_of_mem_toDigits (by decide) (by decide) hc
  rw [parseUnsigned_eq_parseDigits Nat.toDigits_ne_nil hdigits,
    parseDigits_eq hdigits (by simpa using hn), Nat.ofDigitChars_ten_toDigits]

theorem not_mem_toDigits {c : Char} (hc : c.isDigit = false) (n : Nat) :
    c ∉ Nat.toDigits 10 n := fun h => by
  have hdigit := Nat.isDigit_of_mem_toDigits (by decide) (by decide) h
  rw [hc] at hdigit
  cases hdigit

/-! What the parsers accept, said without running them. -/

/-- The text is the decimal digits of `n`, with zeros in front or without. -/
structure Digits (bound n : Nat) (cs : List Char) : Prop where
  ne_nil : cs ≠ []
  digit : ∀ c ∈ cs, c.isDigit = true
  value : Nat.ofDigitChars 10 cs 0 = n
  fits : n < bound

inductive Numeral (bound n : Nat) : List Char → Prop
  | plain {cs : List Char} (h : Digits bound n cs) : Numeral bound n cs
  | signed {cs : List Char} (h : Digits bound n cs) : Numeral bound n ('+' :: cs)

theorem digits_of_parseDigits {bound n : Nat} {cs : List Char} {acc : Nat}
    (h : parseDigits bound cs acc = .ok n) :
    (∀ c ∈ cs, c.isDigit = true) ∧ Nat.ofDigitChars 10 cs acc = n := by
  induction cs generalizing acc with
  | nil =>
    cases h
    simp
  | cons c cs ih =>
    rw [parseDigits] at h
    split_ifs at h with hdigit hfits
    obtain ⟨hdigits, hvalue⟩ := ih h
    rw [Nat.ofDigitChars_cons]
    exact ⟨List.forall_mem_cons.mpr ⟨hdigit, hdigits⟩, hvalue⟩

theorem lt_of_parseDigits {bound n : Nat} {cs : List Char} {acc : Nat} (hne : cs ≠ [])
    (h : parseDigits bound cs acc = .ok n) : n < bound := by
  induction cs generalizing acc with
  | nil => exact absurd rfl hne
  | cons c cs ih =>
    rw [parseDigits] at h
    split_ifs at h with hdigit hfits
    cases cs with
    | nil =>
      cases h
      exact hfits
    | cons d cs => exact ih (List.cons_ne_nil d cs) h

theorem parseDigits_iff {bound n : Nat} {cs : List Char} (hne : cs ≠ []) :
    parseDigits bound cs 0 = .ok n ↔ Digits bound n cs := by
  constructor
  · intro h
    obtain ⟨hdigit, hvalue⟩ := digits_of_parseDigits h
    exact ⟨hne, hdigit, hvalue, lt_of_parseDigits hne h⟩
  · rintro ⟨-, hdigit, rfl, hfits⟩
    exact parseDigits_eq hdigit hfits

/-- A number is read from exactly its numerals: the overflow check at each digit refuses no
number that fits, and zeros in front do no harm. -/
theorem parseUnsigned_iff {bound n : Nat} {cs : List Char} :
    parseUnsigned bound cs = .ok n ↔ Numeral bound n cs := by
  constructor
  · intro h
    match cs with
    | [] => cases h
    | [c] =>
      rw [parseUnsigned] at h
      split_ifs at h with hsign
      exact .plain ((parseDigits_iff (List.cons_ne_nil c [])).mp h)
    | c :: d :: cs =>
      rw [parseUnsigned] at h
      split_ifs at h with hplus
      · subst hplus
        exact .signed ((parseDigits_iff (List.cons_ne_nil d cs)).mp h)
      · exact .plain ((parseDigits_iff (List.cons_ne_nil c (d :: cs))).mp h)
  · intro h
    cases h with
    | plain h =>
      rw [parseUnsigned_eq_parseDigits h.ne_nil h.digit]
      exact (parseDigits_iff h.ne_nil).mpr h
    | @signed cs h =>
      cases cs with
      | nil => exact absurd rfl h.ne_nil
      | cons d cs =>
        rw [parseUnsigned, if_pos rfl]
        exact (parseDigits_iff h.ne_nil).mpr h

theorem Numeral.lt {bound n : Nat} {cs : List Char} (h : Numeral bound n cs) : n < bound := by
  cases h with
  | plain h => exact h.fits
  | signed h => exact h.fits

theorem Numeral.ne_nil {bound n : Nat} {cs : List Char} (h : Numeral bound n cs) : cs ≠ [] := by
  cases h with
  | plain h => exact h.ne_nil
  | signed h => exact List.cons_ne_nil _ _

theorem Numeral.not_mem {bound n : Nat} {cs : List Char} {c : Char} (h : Numeral bound n cs)
    (hdigit : c.isDigit = false) (hplus : c ≠ '+') : c ∉ cs := by
  intro hmem
  cases h with
  | plain h =>
    rw [h.digit c hmem] at hdigit
    cases hdigit
  | signed h =>
    cases hmem with
    | head => exact hplus rfl
    | tail _ hmem =>
      rw [h.digit c hmem] at hdigit
      cases hdigit

theorem not_mem_of_splitOnce {c : α} {xs a b : List α} (h : splitOnce [c] xs = some (a, b)) :
    c ∉ a := by
  induction xs generalizing a with
  | nil => cases h
  | cons x xs ih =>
    by_cases hpre : [c] <+: x :: xs
    · obtain ⟨rest, hrest⟩ := hpre
      rw [← hrest, splitOnce_prefix] at h
      cases h
      exact List.not_mem_nil
    · rw [splitOnce_cons hpre] at h
      obtain ⟨⟨a', b'⟩, hxs, heq⟩ := Option.map_eq_some_iff.mp h
      cases heq
      have hx : c ≠ x := fun hcx => hpre ⟨xs, by rw [hcx]; rfl⟩
      exact List.not_mem_cons_of_ne_of_not_mem hx (ih hxs)

/-- A split at one delimiter says where the first of them stands. -/
theorem splitOnce_char_iff {c : α} {xs a b : List α} :
    splitOnce [c] xs = some (a, b) ↔ xs = a ++ c :: b ∧ c ∉ a := by
  constructor
  · intro h
    exact ⟨splitOnce_eq_append h, not_mem_of_splitOnce h⟩
  · rintro ⟨rfl, hc⟩
    exact splitOnce_char hc b

end NotifsPiper.Delimited

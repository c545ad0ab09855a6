import Mathlib.Data.List.Basic
import Mathlib.Data.List.Nodup
import Mathlib.Data.List.Perm.Basic
import Mathlib.Data.List.Pairwise
import Mathlib.Data.List.Forall2
import Mathlib.Data.List.Zip
import Mathlib.Order.Basic

/-! Double-ended queues as lists, front first. An element is taken out by moving
the back element into its place, and a queue that holds exactly its capacity
drops its back element before a new one enters at the front. -/

namespace NotifsPiper.Deque

variable {α β : Type*}

/-- Take the element at `i` out and move the back element into its place. -/
def swapRemoveBack (xs : List α) (i : Nat) : List α :=
  match xs.getLast? with
  | none => []
  | some back => if i < xs.length then (xs.set i back).dropLast else xs

/-- Drop the back element of a queue that holds exactly `cap` elements. -/
def evict (cap : Nat) (xs : List α) : List α :=
  if xs.length = cap then xs.dropLast else xs

def withdraw (victim : Option Nat) (xs : List α) : List α :=
  match victim with
  | none => xs
  | some i => swapRemoveBack xs i

/-- Withdraw the victim, make room, and let `x` in at the front. -/
def enqueue (victim : Option Nat) (cap : Nat) (x : α) (xs : List α) : List α :=
  x :: evict cap (withdraw victim xs)

theorem split_at {xs : List α} {i : Nat} (hi : i < xs.length) :
    (∃ l y, xs = l ++ [y] ∧ l.length = i) ∨
      ∃ l y r b, xs = l ++ y :: (r ++ [b]) ∧ l.length = i := by
  have hsplit : xs = xs.take i ++ xs[i] :: xs.drop (i + 1) := by simp
  have hlen : (xs.take i).length = i := by simp; omega
  rcases List.eq_nil_or_concat (xs.drop (i + 1)) with hr | ⟨r, b, hr⟩
  · left
    exact ⟨xs.take i, xs[i], by rw [← hr]; exact hsplit, hlen⟩
  · right
    exact ⟨xs.take i, xs[i], r, b, by rw [← List.concat_eq_append, ← hr]; exact hsplit, hlen⟩

theorem swapRemoveBack_last (l : List α) (y : α) :
    swapRemoveBack (l ++ [y]) l.length = l := by
  simp [swapRemoveBack]

theorem swapRemoveBack_mid (l r : List α) (y b : α) :
    swapRemoveBack (l ++ y :: (r ++ [b])) l.length = l ++ b :: r := by
  have hback : (l ++ y :: (r ++ [b])).getLast? = some b := by
    rw [show l ++ y :: (r ++ [b]) = (l ++ y :: r) ++ [b] by simp, List.getLast?_concat]
  have hset : (l ++ y :: (r ++ [b])).set l.length b = (l ++ b :: r) ++ [b] := by simp
  simp only [swapRemoveBack, hback, hset, List.dropLast_concat]
  rw [if_pos (by simp)]

theorem length_swapRemoveBack {xs : List α} {i : Nat} (hi : i < xs.length) :
    (swapRemoveBack xs i).length = xs.length - 1 := by
  rcases split_at hi with ⟨l, y, rfl, rfl⟩ | ⟨l, y, r, b, rfl, rfl⟩
  · rw [swapRemoveBack_last]; simp
  · rw [swapRemoveBack_mid]; simp

/-- Nothing is lost or duplicated besides the element taken out. -/
theorem swapRemoveBack_perm {xs : List α} {i : Nat} (hi : i < xs.length) :
    (xs[i] :: swapRemoveBack xs i).Perm xs := by
  rcases split_at hi with ⟨l, y, rfl, rfl⟩ | ⟨l, y, r, b, rfl, rfl⟩
  · rw [swapRemoveBack_last]
    simpa using (List.perm_append_singleton y l).symm
  · rw [swapRemoveBack_mid]
    have hmid : (b :: r).Perm (r ++ [b]) := (List.perm_append_singleton b r).symm
    calc
      _ = y :: (l ++ b :: r) := by simp
      _ |>.Perm (l ++ y :: b :: r) := List.perm_middle.symm
      _ |>.Perm (l ++ y :: (r ++ [b])) := (hmid.cons y).append_left l

theorem mem_of_mem_swapRemoveBack {xs : List α} {i : Nat} (hi : i < xs.length) {x : α}
    (hx : x ∈ swapRemoveBack xs i) : x ∈ xs :=
  (swapRemoveBack_perm hi).mem_iff.mp (List.mem_cons_of_mem _ hx)

theorem evict_sublist (cap : Nat) (xs : List α) : (evict cap xs).Sublist xs := by
  unfold evict
  split
  · exact List.dropLast_sublist xs
  · exact List.Sublist.refl xs

@[simp] theorem withdraw_none (xs : List α) : withdraw none xs = xs := rfl

@[simp] theorem withdraw_some (i : Nat) (xs : List α) :
    withdraw (some i) xs = swapRemoveBack xs i := rfl

theorem mem_of_mem_withdraw {victim : Option Nat} {xs : List α} {y : α}
    (hv : ∀ i ∈ victim, i < xs.length) (hy : y ∈ withdraw victim xs) : y ∈ xs := by
  cases victim with
  | none => exact hy
  | some i => exact mem_of_mem_swapRemoveBack (hv i rfl) hy

theorem mem_of_mem_enqueue {victim : Option Nat} {cap : Nat} {x y : α} {xs : List α}
    (hv : ∀ i ∈ victim, i < xs.length) (hy : y ∈ enqueue victim cap x xs) : y = x ∨ y ∈ xs := by
  rcases List.mem_cons.mp hy with rfl | hy
  · exact Or.inl rfl
  · exact Or.inr (mem_of_mem_withdraw hv ((evict_sublist _ _).subset hy))

theorem mem_withdraw_or {victim : Option Nat} {xs : List α} {x : α}
    (hv : ∀ i ∈ victim, i < xs.length) (hx : x ∈ xs) :
    (∃ i ∈ victim, xs[i]? = some x) ∨ x ∈ withdraw victim xs := by
  cases victim with
  | none => exact Or.inr hx
  | some i =>
    have hi := hv i rfl
    rcases List.mem_cons.mp ((swapRemoveBack_perm hi).mem_iff.mpr hx) with rfl | hrest
    · exact Or.inl ⟨i, rfl, List.getElem?_eq_getElem hi⟩
    · exact Or.inr hrest

theorem mem_evict_or {cap : Nat} {xs : List α} {x : α} (hx : x ∈ xs) :
    x ∈ evict cap xs ∨ xs.length = cap ∧ xs.getLast? = some x := by
  by_cases hfull : xs.length = cap
  · rw [evict, if_pos hfull]
    rcases List.eq_nil_or_concat xs with rfl | ⟨l, b, rfl⟩
    · cases hx
    · rw [List.concat_eq_append] at hx hfull ⊢
      rw [List.dropLast_concat, List.getLast?_concat]
      rcases List.mem_append.mp hx with hx | hx
      · exact Or.inl hx
      · exact Or.inr ⟨hfull, by rw [List.mem_singleton.mp hx]⟩
  · rw [evict, if_neg hfull]
    exact Or.inl hx

theorem nodup_withdraw {victim : Option Nat} {xs : List α} (hv : ∀ i ∈ victim, i < xs.length)
    (h : xs.Nodup) : (withdraw victim xs).Nodup := by
  cases victim with
  | none => exact h
  | some i => exact (List.nodup_cons.mp ((swapRemoveBack_perm (hv i rfl)).nodup_iff.mpr h)).2

theorem length_withdraw {victim : Option Nat} {xs : List α} (hv : ∀ i ∈ victim, i < xs.length) :
    (withdraw victim xs).length = xs.length - (if victim.isSome then 1 else 0) := by
  cases victim with
  | none => rfl
  | some i => exact length_swapRemoveBack (hv i rfl)

/-- The equality test is met only by a queue of exactly `cap` elements: a longer
one grows, and so does an empty one of capacity zero. -/
theorem length_enqueue (victim : Option Nat) (cap : Nat) (x : α) (xs : List α) :
    (enqueue victim cap x xs).length =
      if (withdraw victim xs).length = cap ∧ 0 < cap then cap
      else (withdraw victim xs).length + 1 := by
  simp only [enqueue, evict, List.length_cons]
  split_ifs with hfull hcap hcap
  · simp only [List.length_dropLast]; omega
  · simp only [List.length_dropLast]; omega
  · exact absurd hcap.1 hfull
  · rfl

theorem swapRemoveBack_map (f : α → β) (xs : List α) (i : Nat) :
    swapRemoveBack (xs.map f) i = (swapRemoveBack xs i).map f := by
  unfold swapRemoveBack
  rw [List.getLast?_map]
  cases xs.getLast? with
  | none => rfl
  | some back =>
    by_cases hi : i < xs.length <;> simp [hi, List.map_set, List.map_dropLast]

theorem evict_map (f : α → β) (cap : Nat) (xs : List α) :
    evict cap (xs.map f) = (evict cap xs).map f := by
  by_cases hfull : xs.length = cap <;> simp [evict, hfull, List.map_dropLast]

theorem withdraw_map (f : α → β) (victim : Option Nat) (xs : List α) :
    withdraw victim (xs.map f) = (withdraw victim xs).map f := by
  cases victim with
  | none => rfl
  | some i => exact swapRemoveBack_map f xs i

theorem enqueue_map (f : α → β) (victim : Option Nat) (cap : Nat) (x : α) (xs : List α) :
    enqueue victim cap (f x) (xs.map f) = (enqueue victim cap x xs).map f := by
  rw [enqueue, withdraw_map, evict_map, enqueue, List.map_cons]

theorem forall₂_enqueue {r : α → β → Prop} {xs : List α} {ys : List β}
    (h : List.Forall₂ r xs ys) {x : α} {y : β} (hxy : r x y) {victim : Option Nat}
    (hv : ∀ i ∈ victim, i < xs.length) (cap : Nat) :
    List.Forall₂ r (enqueue victim cap x xs) (enqueue victim cap y ys) := by
  have hlen := h.length_eq
  have hzip : (xs.zip ys).length = xs.length := by simp [hlen]
  have hpairs : List.Forall₂ r
      (enqueue victim cap (Prod.fst (x, y)) ((xs.zip ys).map Prod.fst))
      (enqueue victim cap (Prod.snd (x, y)) ((xs.zip ys).map Prod.snd)) := by
    rw [enqueue_map, enqueue_map, List.forall₂_map_left_iff, List.forall₂_map_right_iff,
      List.forall₂_same]
    intro z hz
    rcases mem_of_mem_enqueue (by rwa [hzip]) hz with rfl | hz
    · exact hxy
    · exact (List.forall₂_iff_zip.mp h).2 hz
  rwa [List.map_fst_zip hlen.le, List.map_snd_zip hlen.ge] at hpairs

theorem find?_evict_iff {p : α → Bool} {cap : Nat} {xs : List α} {x : α} :
    (evict cap xs).find? p = some x ↔
      ∃ l r, xs = l ++ x :: r ∧ (∀ y ∈ l, p y = false) ∧ p x = true ∧ (xs.length = cap → r ≠ []) := by
  unfold evict
  by_cases hfull : xs.length = cap
  · rw [if_pos hfull, List.find?_eq_some_iff_append]
    constructor
    · rintro ⟨hx, l, r, hdrop, hl⟩
      have hne : xs ≠ [] := by
        rintro rfl
        simp at hdrop
      have hback : xs = l ++ x :: (r ++ [xs.getLast hne]) := by
        simpa [hdrop] using (List.dropLast_concat_getLast hne).symm
      exact ⟨l, r ++ [xs.getLast hne], hback, by simpa using hl, hx, by simp⟩
    · rintro ⟨l, r, rfl, hl, hx, hr⟩
      obtain ⟨r, b, rfl⟩ := List.eq_nil_or_concat r |>.resolve_left (hr hfull)
      refine ⟨hx, l, r, ?_, by simpa using hl⟩
      rw [List.concat_eq_append, show l ++ x :: (r ++ [b]) = (l ++ x :: r) ++ [b] by simp,
        List.dropLast_concat]
  · rw [if_neg hfull, List.find?_eq_some_iff_append]
    simp only [hfull, false_implies, and_true]
    constructor
    · rintro ⟨hx, l, r, hsplit, hl⟩
      exact ⟨l, r, hsplit, by simpa using hl, hx⟩
    · rintro ⟨l, r, hsplit, hl, hx⟩
      exact ⟨hx, l, r, hsplit, by simpa using hl⟩

/-! Recency: the queue in decreasing order of insertion. -/

theorem swapRemoveBack_eq_eraseIdx {xs : List α} {i : Nat} (hi : i < xs.length)
    (hback : xs.length ≤ i + 2) : swapRemoveBack xs i = xs.eraseIdx i := by
  rcases split_at hi with ⟨l, y, rfl, rfl⟩ | ⟨l, y, r, b, rfl, rfl⟩
  · rw [swapRemoveBack_last]
    simp [List.eraseIdx_append_of_length_le]
  · have hr : r = [] := by
      simp only [List.length_append, List.length_cons, List.length_nil] at hback
      exact List.eq_nil_of_length_eq_zero (by omega)
    subst hr
    rw [swapRemoveBack_mid]
    simp [List.eraseIdx_append_of_length_le]

theorem swapRemoveBack_pairwise_iff [Preorder α] {xs : List α} {i : Nat} (hi : i < xs.length)
    (hxs : xs.Pairwise (· > ·)) :
    (swapRemoveBack xs i).Pairwise (· > ·) ↔ xs.length ≤ i + 2 := by
  constructor
  · intro hrest
    by_contra hlong
    rcases split_at hi with ⟨l, y, rfl, rfl⟩ | ⟨l, y, r, b, rfl, rfl⟩
    · simp at hlong
    · cases r with
      | nil => simp at hlong
      | cons z r =>
        rw [swapRemoveBack_mid] at hrest
        have hb : b > z := by
          have := (List.pairwise_append.mp hrest).2.1
          exact List.rel_of_pairwise_cons this (by simp)
        have hz : z > b := by
          have hyr := List.Pairwise.of_cons (List.pairwise_append.mp hxs).2.1
          exact List.rel_of_pairwise_cons hyr (by simp)
        exact lt_asymm hb hz
  · intro hback
    rw [swapRemoveBack_eq_eraseIdx hi hback]
    exact hxs.sublist (List.eraseIdx_sublist xs i)

/-- A queue in order of recency stays so exactly when the withdrawn element
stood in one of its last two places. -/
theorem enqueue_pairwise_iff [Preorder α] {victim : Option Nat} {cap : Nat} {x : α} {xs : List α}
    (hv : ∀ i ∈ victim, i < xs.length) (hcap : xs.length ≤ cap)
    (hxs : xs.Pairwise (· > ·)) (hx : ∀ y ∈ xs, x > y) :
    (enqueue victim cap x xs).Pairwise (· > ·) ↔ ∀ i ∈ victim, xs.length ≤ i + 2 := by
  have hfresh : ∀ y ∈ evict cap (withdraw victim xs), x > y := fun y hy =>
    hx y (mem_of_mem_withdraw hv ((evict_sublist _ _).subset hy))
  rw [enqueue, List.pairwise_cons, and_iff_right hfresh]
  cases victim with
  | none => simpa using hxs.sublist (evict_sublist cap xs)
  | some i =>
    have hi := hv i rfl
    have hroom : evict cap (swapRemoveBack xs i) = swapRemoveBack xs i := by
      have hlen := length_swapRemoveBack hi
      rw [evict, if_neg (by omega)]
    rw [withdraw_some, hroom, swapRemoveBack_pairwise_iff hi hxs]
    simp

end NotifsPiper.Deque

import Mathlib.Data.List.Basic
import Mathlib.Data.List.Forall2

/-! Two lists followed side by side: what happens to the one happens to the other, and a
relation between their elements is kept. -/

namespace NotifsPiper.Parallel

open List

variable {α β : Type*} {r : α → β → Prop} {xs : List α} {ys : List β}

theorem slice_parts (xs : List α) {first last : Nat} (hle : first ≤ last) :
    xs.take first ++ (xs.drop first).take (last - first) ++ xs.drop last = xs := by
  have hrest := take_append_drop (last - first) (xs.drop first)
  rw [drop_drop, Nat.add_sub_cancel' hle] at hrest
  rw [append_assoc, hrest, take_append_drop]

theorem forall₂_const {y : β} (h : ∀ x ∈ xs, r x y) : Forall₂ r xs (replicate xs.length y) := by
  induction xs with
  | nil => exact .nil
  | cons x xs ih =>
    rw [forall_mem_cons] at h
    exact .cons h.1 (ih h.2)

theorem forall₂_extend (h : Forall₂ r xs ys) {xs' : List α} (hgrows : xs <+: xs') {y : β}
    (hnew : ∀ x ∈ xs'.drop xs.length, r x y) :
    Forall₂ r xs' (ys ++ replicate (xs'.length - xs.length) y) := by
  obtain ⟨new, rfl⟩ := hgrows
  rw [drop_left] at hnew
  have hlen : (xs ++ new).length - xs.length = new.length := by simp
  rw [hlen]
  exact rel_append h (forall₂_const hnew)

theorem forall₂_prepend (h : Forall₂ r xs ys) {new : List α} {n : Nat} (hlen : new.length = n)
    {y : β} (hnew : ∀ x ∈ new, r x y) : Forall₂ r (new ++ xs) (replicate n y ++ ys) := by
  rw [← hlen]
  exact rel_append (forall₂_const hnew) h

theorem forall₂_eraseIdx (h : Forall₂ r xs ys) (i : Nat) :
    Forall₂ r (xs.eraseIdx i) (ys.eraseIdx i) := by
  induction h generalizing i with
  | nil => exact .nil
  | cons hhead htail ih =>
    cases i with
    | zero => exact htail
    | succ i => exact .cons hhead (ih i)

theorem forall₂_getElem? (h : Forall₂ r xs ys) {i : Nat} {x : α} (hx : xs[i]? = some x) :
    ∃ y, ys[i]? = some y ∧ r x y := by
  induction h generalizing i with
  | nil => cases hx
  | cons hhead _ ih =>
    cases i with
    | zero =>
      cases hx
      exact ⟨_, rfl, hhead⟩
    | succ i => exact ih hx

theorem forall₂_modify (h : Forall₂ r xs ys) {i : Nat} {f : α → α}
    (hf : ∀ x y, xs[i]? = some x → ys[i]? = some y → r x y → r (f x) y) :
    Forall₂ r (xs.modify i f) ys := by
  induction h generalizing i with
  | nil =>
    rw [modify_nil]
    exact .nil
  | @cons x y xs ys hhead htail ih =>
    cases i with
    | zero => exact .cons (hf x y rfl rfl hhead) htail
    | succ i => exact .cons hhead (ih hf)

theorem forall₂_map (h : Forall₂ r xs ys) {f : α → α}
    (hf : ∀ x, ∀ y ∈ ys, r x y → r (f x) y) : Forall₂ r (xs.map f) ys := by
  induction h with
  | nil => exact .nil
  | @cons x y _ _ hhead _ ih =>
    refine .cons (hf x y mem_cons_self hhead) (ih fun x' y' hy => ?_)
    exact hf x' y' (mem_cons_of_mem _ hy)

theorem forall₂_slice (h : Forall₂ r xs ys) {first last : Nat} (hle : first ≤ last) {f : α → α}
    (hf : ∀ x, ∀ y ∈ (ys.drop first).take (last - first), r x y → r (f x) y) :
    Forall₂ r (xs.take first ++ ((xs.drop first).take (last - first)).map f ++ xs.drop last)
      ys := by
  have hslice := forall₂_take (last - first) (forall₂_drop first h)
  rw [← slice_parts ys hle]
  exact rel_append (rel_append (forall₂_take first h) (forall₂_map hslice hf)) (forall₂_drop last h)

end NotifsPiper.Parallel

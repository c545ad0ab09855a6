import Mathlib.Data.Finset.Basic

/-! A place where everyone who comes leaves an entry in a registry, waits, and takes the
entry away when leaving. What has to hold is that the registry lists exactly those who
wait; then an entry is always found, and none is left behind. -/

namespace NotifsPiper.Rendezvous

variable {κ : Type*}

structure Desk (κ : Type*) where
  came : Multiset κ
  arriving : Multiset κ
  waiting : Multiset κ
  leaving : Multiset κ
  registry : Finset κ

inductive Move [DecidableEq κ] (d d' : Desk κ) : Prop
  | stay (h : d' = d)
  | come (k : κ) (hnew : k ∉ d.came) (hcame : d'.came = k ::ₘ d.came)
      (harriving : d'.arriving = k ::ₘ d.arriving) (hwaiting : d'.waiting = d.waiting)
      (hleaving : d'.leaving = d.leaving) (hregistry : d'.registry = d.registry)
  | enter (k : κ) (hcame : d'.came = d.came) (harriving : d.arriving = k ::ₘ d'.arriving)
      (hwaiting : d'.waiting = k ::ₘ d.waiting) (hleaving : d'.leaving = d.leaving)
      (hregistry : d'.registry = insert k d.registry)
  | leave (k : κ) (hcame : d'.came = d.came) (harriving : d'.arriving = d.arriving)
      (hwaiting : d.waiting = k ::ₘ d'.waiting) (hleaving : d'.leaving = k ::ₘ d.leaving)
      (hregistry : d'.registry = d.registry.erase k)

/-- Nobody came twice, nobody is lost, and the registry lists who waits. -/
structure Kept (d : Desk κ) : Prop where
  nodup : d.came.Nodup
  all : d.came = d.arriving + d.waiting + d.leaving
  registered : d.registry.val = d.waiting

theorem Kept.parts {d : Desk κ} (hd : Kept d) : (d.arriving + d.waiting + d.leaving).Nodup :=
  hd.all ▸ hd.nodup

theorem Kept.move [DecidableEq κ] {d d' : Desk κ} (hd : Kept d) (h : Move d d') : Kept d' := by
  cases h with
  | stay h => exact h ▸ hd
  | come k hnew hcame harriving hwaiting hleaving hregistry =>
    refine ⟨?_, ?_, ?_⟩
    · rw [hcame]
      exact Multiset.nodup_cons.mpr ⟨hnew, hd.nodup⟩
    · rw [hcame, harriving, hwaiting, hleaving, hd.all, Multiset.cons_add, Multiset.cons_add]
    · rw [hregistry, hwaiting, hd.registered]
  | enter k hcame harriving hwaiting hleaving hregistry =>
    have hparts := hd.parts
    rw [harriving, Multiset.cons_add, Multiset.cons_add, Multiset.nodup_cons] at hparts
    have hk : k ∉ d.registry := by
      intro hk
      have hwait : k ∈ d.waiting := hd.registered ▸ hk
      exact hparts.1 (by simp [hwait])
    refine ⟨hcame ▸ hd.nodup, ?_, ?_⟩
    · rw [hcame, hwaiting, hleaving, hd.all, harriving, Multiset.cons_add, Multiset.add_cons]
    · rw [hregistry, hwaiting, Finset.insert_val_of_notMem hk, hd.registered]
  | leave k hcame harriving hwaiting hleaving hregistry =>
    refine ⟨hcame ▸ hd.nodup, ?_, ?_⟩
    · rw [hcame, harriving, hleaving, hd.all, hwaiting, Multiset.add_cons, Multiset.cons_add,
        Multiset.add_cons]
    · rw [hregistry, Finset.erase_val, hd.registered, hwaiting, Multiset.erase_cons_head]

theorem Kept.found {d : Desk κ} (hd : Kept d) {k : κ} (h : k ∈ d.waiting) : k ∈ d.registry := by
  rw [← hd.registered] at h
  exact h

theorem Kept.cleared {d : Desk κ} (hd : Kept d) {k : κ} (h : k ∈ d.leaving) :
    k ∉ d.registry := by
  intro hk
  have hwait : k ∈ d.arriving + d.waiting := by
    rw [Multiset.mem_add, ← hd.registered]
    exact Or.inr hk
  exact Multiset.disjoint_left.mp (Multiset.nodup_add.mp hd.parts).2.2 hwait h

theorem Kept.leaving_nodup {d : Desk κ} (hd : Kept d) : d.leaving.Nodup :=
  (Multiset.nodup_add.mp hd.parts).2.1

/-- When nobody is on the way in or waits, all are on the way out and the registry is
empty. -/
theorem Kept.rest {d : Desk κ} (hd : Kept d) (harriving : d.arriving = 0)
    (hwaiting : d.waiting = 0) : d.leaving = d.came ∧ d.registry = ∅ := by
  refine ⟨?_, ?_⟩
  · rw [hd.all, harriving, hwaiting, Multiset.zero_add, Multiset.zero_add]
  · rw [← Finset.val_eq_zero, hd.registered, hwaiting]

end NotifsPiper.Rendezvous

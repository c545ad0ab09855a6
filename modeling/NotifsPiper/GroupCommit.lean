import NotifsPiper.Runs

/-! A store that performs its jobs in memory and commits them in groups. A crash takes it back to
what was committed last, and undoes the jobs since. -/

namespace NotifsPiper.GroupCommit

open Runs

variable {σ ι : Type*}

structure Store (σ : Type*) where
  volatile : σ
  durable : σ

inductive Event (ι : Type*)
  | perform (job : ι)
  | commit
  | crash
  deriving DecidableEq

def step (apply : σ → ι → Option σ) (s : Store σ) : Event ι → Option (Store σ)
  | .perform job => (apply s.volatile job).map fun state => { s with volatile := state }
  | .commit => some { s with durable := s.volatile }
  | .crash => some { s with volatile := s.durable }

/-- The jobs that last, and those that a crash would still undo. -/
structure Kept (ι : Type*) where
  committed : List ι
  pending : List ι
  deriving DecidableEq

def Kept.after (k : Kept ι) : Event ι → Kept ι
  | .perform job => { k with pending := k.pending ++ [job] }
  | .commit => ⟨k.committed ++ k.pending, []⟩
  | .crash => ⟨k.committed, []⟩

def kept (events : List (Event ι)) : Kept ι := events.foldl Kept.after ⟨[], []⟩

/-- The store holds what its jobs lead to from the state `s`, one after the other. -/
structure Reflects (apply : σ → ι → Option σ) (s : σ) (k : Kept ι) (t : Store σ) : Prop where
  durable : run apply s k.committed = some t.durable
  volatile : run apply t.durable k.pending = some t.volatile

section Runs

variable {apply : σ → ι → Option σ} {s : σ} {k : Kept ι} {t t' : Store σ}

theorem step_reflects {e : Event ι} (ht : Reflects apply s k t) (h : step apply t e = some t') :
    Reflects apply s (k.after e) t' := by
  cases e with
  | perform job =>
    obtain ⟨state, hstate, rfl⟩ := Option.map_eq_some_iff.mp h
    refine ⟨ht.durable, run_append_some.mpr ⟨t.volatile, ht.volatile, ?_⟩⟩
    exact run_cons_some.mpr ⟨state, hstate, rfl⟩
  | commit =>
    cases h
    exact ⟨run_append_some.mpr ⟨t.durable, ht.durable, ht.volatile⟩, rfl⟩
  | crash =>
    cases h
    exact ⟨ht.durable, rfl⟩

theorem run_reflects {events : List (Event ι)} (ht : Reflects apply s k t)
    (hrun : run (step apply) t events = some t') :
    Reflects apply s (events.foldl Kept.after k) t' := by
  induction events generalizing k t with
  | nil =>
    cases hrun
    exact ht
  | cons e events ih =>
    obtain ⟨m, hm, hrun⟩ := run_cons_some.mp hrun
    exact ih (step_reflects ht hm) hrun

theorem run_kept {events : List (Event ι)} (hrun : run (step apply) ⟨s, s⟩ events = some t) :
    Reflects apply s (kept events) t :=
  run_reflects ⟨rfl, rfl⟩ hrun

end Runs

end NotifsPiper.GroupCommit

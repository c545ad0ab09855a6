import Mathlib.Data.List.Basic

/-! Runs of a system whose next state is determined by a label, when there is one.
An interleaving is a list of labels: the label says who moves and what the
surroundings answer. -/

namespace NotifsPiper.Runs

variable {σ ℓ : Type*} {step : σ → ℓ → Option σ}

def run (step : σ → ℓ → Option σ) : σ → List ℓ → Option σ
  | s, [] => some s
  | s, l :: ls => (step s l).bind fun s' => run step s' ls

/-- `P` holds of every state a run comes to, the first and the last included. -/
def Always (step : σ → ℓ → Option σ) (P : σ → Prop) : σ → List ℓ → Prop
  | s, [] => P s
  | s, l :: ls => P s ∧ ∀ s', step s l = some s' → Always step P s' ls

/-- Every step a run takes meets the condition `C` on the state before it and its label. -/
def Along (step : σ → ℓ → Option σ) (C : σ → ℓ → Prop) : σ → List ℓ → Prop
  | _, [] => True
  | s, l :: ls => ∀ s', step s l = some s' → C s l ∧ Along step C s' ls

@[simp] theorem run_nil (s : σ) : run step s [] = some s := rfl

@[simp] theorem run_cons (s : σ) (l : ℓ) (ls : List ℓ) :
    run step s (l :: ls) = (step s l).bind fun s' => run step s' ls := rfl

theorem run_append (s : σ) (xs ys : List ℓ) :
    run step s (xs ++ ys) = (run step s xs).bind fun s' => run step s' ys := by
  induction xs generalizing s with
  | nil => rfl
  | cons l xs ih =>
    simp only [List.cons_append, run_cons, Option.bind_assoc]
    exact congrArg _ (funext ih)

theorem run_append_some {s t : σ} {xs ys : List ℓ} :
    run step s (xs ++ ys) = some t ↔
      ∃ m, run step s xs = some m ∧ run step m ys = some t := by
  rw [run_append, Option.bind_eq_some_iff]

theorem run_cons_some {s t : σ} {l : ℓ} {ls : List ℓ} :
    run step s (l :: ls) = some t ↔ ∃ m, step s l = some m ∧ run step m ls = some t := by
  rw [run_cons, Option.bind_eq_some_iff]

/-- Both are computed along the run, where the property is computed at each of its states. -/
instance decidableAlways {P : σ → Prop} [∀ s, Decidable (P s)] :
    ∀ (s : σ) (ls : List ℓ), Decidable (Always step P s ls)
  | s, [] => inferInstanceAs (Decidable (P s))
  | s, l :: ls =>
    match h : step s l with
    | none => decidable_of_iff (P s) (by simp [Always, h])
    | some s' =>
      have := decidableAlways (P := P) s' ls
      decidable_of_iff (P s ∧ Always step P s' ls) (by simp [Always, h])

instance decidableAlong {C : σ → ℓ → Prop} [∀ s l, Decidable (C s l)] :
    ∀ (s : σ) (ls : List ℓ), Decidable (Along step C s ls)
  | _, [] => isTrue trivial
  | s, l :: ls =>
    match h : step s l with
    | none => isTrue (by simp [Along, h])
    | some s' =>
      have := decidableAlong (C := C) s' ls
      decidable_of_iff (C s l ∧ Along step C s' ls) (by simp [Along, h])

/-- The rule of invariants: what every step preserves, every run preserves. -/
theorem run_invariant {P : σ → Prop}
    (hstep : ∀ s l s', P s → step s l = some s' → P s')
    {s t : σ} {ls : List ℓ} (hs : P s) (hrun : run step s ls = some t) : P t := by
  induction ls generalizing s with
  | nil => cases hrun; exact hs
  | cons l ls ih =>
    obtain ⟨m, hm, hrun⟩ := run_cons_some.mp hrun
    exact ih (hstep s l m hs hm) hrun

theorem along_append {C : σ → ℓ → Prop} {s : σ} {xs ys : List ℓ}
    (h : Along step C s (xs ++ ys)) {t : σ} (hrun : run step s xs = some t) :
    Along step C t ys := by
  induction xs generalizing s with
  | nil => cases hrun; exact h
  | cons l xs ih =>
    obtain ⟨m, hm, hrun⟩ := run_cons_some.mp hrun
    exact ih (h m hm).2 hrun

/-- The rule of invariants for the runs whose steps meet a condition. -/
theorem along_invariant {P : σ → Prop} {C : σ → ℓ → Prop}
    (hstep : ∀ s l s', P s → C s l → step s l = some s' → P s')
    {s : σ} {ls : List ℓ} (hs : P s) (hC : Along step C s ls) : Always step P s ls := by
  induction ls generalizing s with
  | nil => exact hs
  | cons l ls ih =>
    refine ⟨hs, fun s' hs' => ?_⟩
    obtain ⟨hl, hrest⟩ := hC s' hs'
    exact ih (hstep s l s' hs hl hs') hrest

theorem always_iff {P : σ → Prop} {s : σ} {ls : List ℓ} :
    Always step P s ls ↔ ∀ pre, pre <+: ls → ∀ t, run step s pre = some t → P t := by
  induction ls generalizing s with
  | nil =>
    constructor
    · intro h pre hpre t ht
      rw [List.prefix_nil.mp hpre] at ht
      cases ht
      exact h
    · intro h
      exact h [] (List.prefix_refl _) s rfl
  | cons l ls ih =>
    constructor
    · rintro ⟨hs, hrest⟩ pre hpre t ht
      cases pre with
      | nil => cases ht; exact hs
      | cons k pre =>
        obtain ⟨rfl, htail⟩ := List.cons_prefix_cons.mp hpre
        obtain ⟨m, hm, ht⟩ := run_cons_some.mp ht
        exact ih.mp (hrest m hm) pre htail t ht
    · intro h
      refine ⟨h [] (List.nil_prefix) s rfl, fun m hm => ih.mpr ?_⟩
      intro pre hpre t ht
      exact h (l :: pre) (List.cons_prefix_cons.mpr ⟨rfl, hpre⟩) t (run_cons_some.mpr ⟨m, hm, ht⟩)

/-- Where one step keeps `P` exactly when it meets `C`, a run keeps `P` throughout
exactly when all its steps meet `C`. The invariant `I` holds of every run. -/
theorem always_iff_along {I P : σ → Prop} {C : σ → ℓ → Prop}
    (hinv : ∀ s l s', I s → step s l = some s' → I s')
    (hstep : ∀ s l s', I s → P s → step s l = some s' → (P s' ↔ C s l))
    {s : σ} (hI : I s) (hP : P s) (ls : List ℓ) :
    Always step P s ls ↔ Along step C s ls := by
  induction ls generalizing s with
  | nil => exact iff_of_true hP trivial
  | cons l ls ih =>
    simp only [Always, Along, and_iff_right hP]
    refine forall₂_congr fun s' hs' => ?_
    constructor
    · intro h
      have hP' : P s' := always_iff.mp h [] List.nil_prefix s' rfl
      exact ⟨(hstep s l s' hI hP hs').mp hP', (ih (hinv s l s' hI hs') hP').mp h⟩
    · rintro ⟨hC, h⟩
      exact (ih (hinv s l s' hI hs') ((hstep s l s' hI hP hs').mpr hC)).mpr h

theorem Always.along {P : σ → Prop} {C : σ → ℓ → Prop} (hC : ∀ s l, P s → C s l) {s : σ}
    {ls : List ℓ} (h : Always step P s ls) : Along step C s ls := by
  induction ls generalizing s with
  | nil => trivial
  | cons l ls ih => exact fun s' hs' => ⟨hC s l h.1, ih (h.2 s' hs')⟩

theorem Along.mono {C D : σ → ℓ → Prop} (hCD : ∀ s l, C s l → D s l) {s : σ} {ls : List ℓ}
    (h : Along step C s ls) : Along step D s ls := by
  induction ls generalizing s with
  | nil => trivial
  | cons l ls ih =>
    intro s' hs'
    obtain ⟨hl, hrest⟩ := h s' hs'
    exact ⟨hCD s l hl, ih hrest⟩

theorem Always.mono {P Q : σ → Prop} (hPQ : ∀ s, P s → Q s) {s : σ} {ls : List ℓ}
    (h : Always step P s ls) : Always step Q s ls :=
  always_iff.mpr fun pre hpre t ht => hPQ t (always_iff.mp h pre hpre t ht)

theorem Always.and {P Q : σ → Prop} {s : σ} {ls : List ℓ} (hP : Always step P s ls)
    (hQ : Always step Q s ls) : Always step (fun t => P t ∧ Q t) s ls :=
  always_iff.mpr fun pre hpre t ht =>
    ⟨always_iff.mp hP pre hpre t ht, always_iff.mp hQ pre hpre t ht⟩

theorem always_of_invariant {P : σ → Prop}
    (hstep : ∀ s l s', P s → step s l = some s' → P s') {s : σ} (hs : P s) (ls : List ℓ) :
    Always step P s ls :=
  always_iff.mpr fun _ _ _ ht => run_invariant hstep hs ht

theorem along_of_forall {C : σ → ℓ → Prop} {ls : List ℓ} (h : ∀ l ∈ ls, ∀ s, C s l) (s : σ) :
    Along step C s ls := by
  induction ls generalizing s with
  | nil => trivial
  | cons l ls ih =>
    obtain ⟨hl, hrest⟩ := List.forall_mem_cons.mp h
    exact fun s' _ => ⟨hl s, ih hrest s'⟩

theorem Along.and {C D : σ → ℓ → Prop} {s : σ} {ls : List ℓ} (hC : Along step C s ls)
    (hD : Along step D s ls) : Along step (fun s l => C s l ∧ D s l) s ls := by
  induction ls generalizing s with
  | nil => trivial
  | cons l ls ih =>
    intro s' hs'
    obtain ⟨hl, hrest⟩ := hC s' hs'
    obtain ⟨hl', hrest'⟩ := hD s' hs'
    exact ⟨⟨hl, hl'⟩, ih hrest hrest'⟩

/-- The rule of invariants beside a property `P` and a condition on the steps. -/
theorem Always.invariant {P Q : σ → Prop} {C : σ → ℓ → Prop}
    (hstep : ∀ s l s', Q s → C s l → P s' → step s l = some s' → Q s')
    {s : σ} {ls : List ℓ} (hP : Always step P s ls) (hC : Along step C s ls) (hs : Q s) :
    Always step Q s ls := by
  induction ls generalizing s with
  | nil => exact hs
  | cons l ls ih =>
    refine ⟨hs, fun s' hs' => ?_⟩
    obtain ⟨hl, hrest⟩ := hC s' hs'
    have hP' := hP.2 s' hs'
    have hhere : P s' := always_iff.mp hP' [] List.nil_prefix s' rfl
    exact ih hP' hrest (hstep s l s' hs hl hhere hs')

theorem Always.carries {P Q : σ → Prop}
    (hstep : ∀ s l s', P s → P s' → Q s → step s l = some s' → Q s')
    {s t : σ} {ls : List ℓ} (hP : Always step P s ls) (hrun : run step s ls = some t)
    (hs : Q s) : Q t := by
  induction ls generalizing s with
  | nil =>
    cases hrun
    exact hs
  | cons l ls ih =>
    obtain ⟨m, hm, hrun⟩ := run_cons_some.mp hrun
    have hrest := hP.2 m hm
    have hhere : P m := always_iff.mp hrest [] List.nil_prefix m rfl
    exact ih hrest hrun (hstep s l m hP.1 hhere hs hm)

/-- The rule of measures: the steps that meet a condition all make `μ` smaller, so there are
at most as many of them. -/
theorem length_add_le {P : σ → Prop} {C : σ → ℓ → Prop} {μ : σ → Nat}
    (hstep : ∀ s l s', P s → C s l → step s l = some s' → P s' ∧ μ s' < μ s)
    {s t : σ} {ls : List ℓ} (hs : P s) (hC : Along step C s ls)
    (hrun : run step s ls = some t) : ls.length + μ t ≤ μ s := by
  induction ls generalizing s with
  | nil =>
    cases hrun
    simp
  | cons l ls ih =>
    obtain ⟨m, hm, hrun⟩ := run_cons_some.mp hrun
    obtain ⟨hl, hrest⟩ := hC m hm
    obtain ⟨hP, hless⟩ := hstep s l m hs hl hm
    have hlen := ih hP hrest hrun
    rw [List.length_cons]
    omega

theorem run_along {P : σ → Prop} {C : σ → ℓ → Prop}
    (hstep : ∀ s l s', P s → C s l → step s l = some s' → P s')
    {s t : σ} {ls : List ℓ} (hs : P s) (hC : Along step C s ls)
    (hrun : run step s ls = some t) : P t :=
  always_iff.mp (along_invariant hstep hs hC) ls (List.prefix_refl _) t hrun

theorem Along.initial {C : σ → ℓ → Prop} {s : σ} {pre ls : List ℓ} (h : Along step C s ls)
    (hpre : pre <+: ls) : Along step C s pre := by
  induction pre generalizing s ls with
  | nil => trivial
  | cons l pre ih =>
    obtain ⟨rest, rfl⟩ := hpre
    intro s' hs'
    obtain ⟨hl, hrest⟩ := h s' hs'
    exact ⟨hl, ih hrest (List.prefix_append pre rest)⟩

section Projections

variable {τ ℓ' : Type*} {step' : τ → ℓ' → Option τ} {view : σ → τ} {own : ℓ → Option ℓ'}

/-- The rule of projections: where every step that meets a condition is one step of another
system, or none of it, a run of such steps is a run of the other system. -/
theorem Along.projected {C : σ → ℓ → Prop}
    (hstep : ∀ s l s', C s l → step s l = some s' →
      run step' (view s) (own l).toList = some (view s'))
    {s t : σ} {ls : List ℓ} (hC : Along step C s ls) (hrun : run step s ls = some t) :
    run step' (view s) (ls.filterMap own) = some (view t) := by
  induction ls generalizing s with
  | nil =>
    cases hrun
    rfl
  | cons l ls ih =>
    obtain ⟨m, hm, hrun⟩ := run_cons_some.mp hrun
    obtain ⟨hl, hrest⟩ := hC m hm
    have hsplit : (l :: ls).filterMap own = (own l).toList ++ ls.filterMap own := by
      cases hown : own l <;> simp [hown]
    rw [hsplit]
    exact run_append_some.mpr ⟨view m, hstep s l m hl hm, ih hrest hrun⟩

theorem Along.always {C : σ → ℓ → Prop} (P : τ → Prop)
    (hstep : ∀ s l s', C s l → step s l = some s' →
      run step' (view s) (own l).toList = some (view s'))
    {s : σ} {ls : List ℓ} (hC : Along step C s ls)
    (h : Always step' P (view s) (ls.filterMap own)) : Always step (fun t => P (view t)) s ls :=
  always_iff.mpr fun _ hpre t ht =>
    always_iff.mp h _ (hpre.filterMap own) (view t)
      (Along.projected hstep (hC.initial hpre) ht)

theorem run_projected
    (hstep : ∀ s l s', step s l = some s' → run step' (view s) (own l).toList = some (view s'))
    {s t : σ} {ls : List ℓ} (hrun : run step s ls = some t) :
    run step' (view s) (ls.filterMap own) = some (view t) :=
  Along.projected (fun s l s' _ => hstep s l s') (along_of_forall (fun _ _ _ => trivial) s) hrun

theorem always_projected (view : σ → τ) (P : τ → Prop)
    (hstep : ∀ s l s', step s l = some s' → run step' (view s) (own l).toList = some (view s'))
    {s : σ} {ls : List ℓ} (h : Always step' P (view s) (ls.filterMap own)) :
    Always step (fun t => P (view t)) s ls :=
  Along.always P (fun s l s' _ => hstep s l s') (along_of_forall (fun _ _ _ => trivial) s) h

end Projections

/-- The rule of ranks: where every state short of the goal has a step to a lower one, some run
comes to the goal. -/
theorem exists_run {α : Type*} {r : α → α → Prop} (hr : WellFounded r) {μ : σ → α}
    {P Q : σ → Prop} {C : ℓ → Prop}
    (hstep : ∀ s, P s → ¬ Q s → ∃ l s', C l ∧ step s l = some s' ∧ P s' ∧ r (μ s') (μ s))
    {s : σ} (hs : P s) : ∃ ls t, (∀ l ∈ ls, C l) ∧ run step s ls = some t ∧ P t ∧ Q t := by
  induction s using (InvImage.wf μ hr).induction with
  | _ s ih =>
    by_cases hQ : Q s
    · exact ⟨[], s, fun _ h => (nomatch h), rfl, hs, hQ⟩
    · obtain ⟨l, s', hl, hs', hP, hless⟩ := hstep s hs hQ
      obtain ⟨ls, t, hls, hrun, hPt, hQt⟩ := ih s' hless hP
      exact ⟨l :: ls, t, List.forall_mem_cons.mpr ⟨hl, hls⟩,
        run_cons_some.mpr ⟨s', hs', hrun⟩, hPt, hQt⟩

end NotifsPiper.Runs

import NotifsPiper.Runs

/-! A service that answers requests one at a time, first come first served, and what it
means that another system behaves as it does: what is seen of the one is seen of the
other. -/

namespace NotifsPiper.Queueing

open Runs

/-! What is seen of a run, and the rule of simulations. -/

section Trace

variable {σ τ ℓ ℓ' β : Type*} {step : σ → ℓ → Option σ} {step' : τ → ℓ' → Option τ}
  {see : σ → ℓ → List β} {see' : τ → ℓ' → List β}

def trace (step : σ → ℓ → Option σ) (see : σ → ℓ → List β) : σ → List ℓ → List β
  | _, [] => []
  | s, l :: ls =>
    match step s l with
    | none => []
    | some s' => see s l ++ trace step see s' ls

theorem trace_cons {s s' : σ} {l : ℓ} (h : step s l = some s') (ls : List ℓ) :
    trace step see s (l :: ls) = see s l ++ trace step see s' ls := by
  rw [trace, h]

theorem trace_append {s t : σ} {xs : List ℓ} (h : run step s xs = some t) (ys : List ℓ) :
    trace step see s (xs ++ ys) = trace step see s xs ++ trace step see t ys := by
  induction xs generalizing s with
  | nil =>
    cases h
    rfl
  | cons l xs ih =>
    obtain ⟨m, hm, h⟩ := run_cons_some.mp h
    rw [List.cons_append, trace_cons hm, trace_cons hm, ih h, List.append_assoc]

/-- What every step pays for, out of a balance or with its label, every run pays for. -/
theorem trace_countP_le {p : β → Bool} {q : ℓ → Bool} {m : σ → Nat} {P : σ → Prop} {C : ℓ → Prop}
    (hstep : ∀ s l s', P s → C l → step s l = some s' →
      P s' ∧ (see s l).countP p + m s ≤ m s' + [l].countP q)
    {s t : σ} {ls : List ℓ} (hs : P s) (hC : ∀ l ∈ ls, C l) (hrun : run step s ls = some t) :
    (trace step see s ls).countP p + m s ≤ m t + ls.countP q := by
  induction ls generalizing s with
  | nil =>
    cases hrun
    simp [trace]
  | cons l ls ih =>
    obtain ⟨hl, hrest⟩ := List.forall_mem_cons.mp hC
    obtain ⟨s', hs', hrun⟩ := run_cons_some.mp hrun
    obtain ⟨hP, hhere⟩ := hstep s l s' hs hl hs'
    have hlater := ih hP hrest hrun
    have hsplit : (l :: ls).countP q = [l].countP q + ls.countP q := by
      rw [← List.singleton_append, List.countP_append]
    rw [trace_cons hs', List.countP_append, hsplit]
    omega

theorem trace_grows {γ : Type*} {f : β → Option γ} {m : σ → List γ} {C : ℓ → Prop}
    (hstep : ∀ s l s', C l → step s l = some s' → m s' = m s ++ (see s l).filterMap f)
    {s t : σ} {ls : List ℓ} (hC : ∀ l ∈ ls, C l) (hrun : run step s ls = some t) :
    m t = m s ++ (trace step see s ls).filterMap f := by
  induction ls generalizing s with
  | nil =>
    cases hrun
    simp [trace]
  | cons l ls ih =>
    obtain ⟨hl, hrest⟩ := List.forall_mem_cons.mp hC
    obtain ⟨s', hs', hrun⟩ := run_cons_some.mp hrun
    rw [ih hrest hrun, hstep s l s' hl hs', trace_cons hs', List.filterMap_append,
      List.append_assoc]

/-- Where every step is matched by a run of the other system that shows the same, so is every
run. -/
theorem run_simulated {R : σ → τ → Prop}
    (hstep : ∀ s l s' a, R s a → step s l = some s' →
      ∃ ms a', run step' a ms = some a' ∧ R s' a' ∧ trace step' see' a ms = see s l)
    {s t : σ} {a : τ} {ls : List ℓ} (hs : R s a) (hrun : run step s ls = some t) :
    ∃ ms b, run step' a ms = some b ∧ R t b ∧
      trace step' see' a ms = trace step see s ls := by
  induction ls generalizing s a with
  | nil =>
    cases hrun
    exact ⟨[], a, rfl, hs, rfl⟩
  | cons l ls ih =>
    obtain ⟨m, hm, hrun⟩ := run_cons_some.mp hrun
    obtain ⟨ms, a', hms, hm', hsee⟩ := hstep s l m a hs hm
    obtain ⟨ns, b, hns, ht, htrace⟩ := ih hm' hrun
    refine ⟨ms ++ ns, b, run_append_some.mpr ⟨a', hms, hns⟩, ht, ?_⟩
    rw [trace_append hms, hsee, htrace, trace_cons hm]

theorem run_followed {see' : σ → ℓ → List ℓ'} {R : σ → τ → Prop} {P : σ → Prop}
    {C : σ → ℓ → Prop}
    (hstep : ∀ s l s' a, R s a → C s l → P s' → step s l = some s' →
      ∃ a', run step' a (see' s l) = some a' ∧ R s' a')
    {s t : σ} {a : τ} {ls : List ℓ} (hP : Always step P s ls) (hC : Along step C s ls)
    (hs : R s a) (hrun : run step s ls = some t) :
    ∃ b, run step' a (trace step see' s ls) = some b ∧ R t b := by
  induction ls generalizing s a with
  | nil =>
    cases hrun
    exact ⟨a, rfl, hs⟩
  | cons l ls ih =>
    obtain ⟨m, hm, hrun⟩ := run_cons_some.mp hrun
    obtain ⟨hl, hrest⟩ := hC m hm
    have hPm := hP.2 m hm
    have hhere : P m := always_iff.mp hPm [] List.nil_prefix m rfl
    obtain ⟨a', ha', hR⟩ := hstep s l m a hs hl hhere hm
    obtain ⟨b, hb, ht⟩ := ih hPm hrest hR hrun
    rw [trace_cons hm]
    exact ⟨b, run_append_some.mpr ⟨a', ha', hb⟩, ht⟩

end Trace

/-! The service. -/

variable {ι σ ε ο : Type*}

/-- The requests that wait, the state they act on, and the answers not yet given out. -/
structure Server (ι σ ο : Type*) where
  queue : List ι
  state : σ
  outbox : List ο

inductive Event (ι ε : Type*)
  | put (request : ι)
  | serve (env : ε)
  | answer

inductive Sight (ι ο : Type*)
  | put (request : ι)
  | answer (reply : ο)
  deriving DecidableEq

def Sight.putOf : Sight ι ο → Option ι
  | put request => some request
  | answer _ => none

def Sight.answerOf : Sight ι ο → Option ο
  | put _ => none
  | answer reply => some reply

variable {perform : σ → ε × ι → Option (σ × List ο)}

/-- `perform` says what one request does to the state in given surroundings, and what is
answered. -/
def step (perform : σ → ε × ι → Option (σ × List ο)) (s : Server ι σ ο) :
    Event ι ε → Option (Server ι σ ο)
  | .put request => some { s with queue := s.queue ++ [request] }
  | .serve env =>
    match s.queue with
    | [] => none
    | request :: rest =>
      (perform s.state (env, request)).map fun done => ⟨rest, done.1, s.outbox ++ done.2⟩
  | .answer =>
    match s.outbox with
    | [] => none
    | _ :: rest => some { s with outbox := rest }

def see (s : Server ι σ ο) : Event ι ε → List (Sight ι ο)
  | .put request => [.put request]
  | .serve _ => []
  | .answer => (s.outbox.head?.map Sight.answer).toList

def performAll (perform : σ → ε × ι → Option (σ × List ο)) : σ → List (ε × ι) →
    Option (σ × List ο)
  | s, [] => some (s, [])
  | s, task :: tasks => do
    let (s', replies) ← perform s task
    let (t, more) ← performAll perform s' tasks
    return (t, replies ++ more)

theorem performAll_cons {s s' t : σ} {task : ε × ι} {tasks : List (ε × ι)}
    {replies more : List ο} (h : perform s task = some (s', replies))
    (hrest : performAll perform s' tasks = some (t, more)) :
    performAll perform s (task :: tasks) = some (t, replies ++ more) := by
  rw [performAll, h]
  simp [hrest]

theorem serve_cases {s s' : Server ι σ ο} {env : ε}
    (h : step perform s (.serve env) = some s') :
    ∃ request rest state replies, s.queue = request :: rest ∧
      perform s.state (env, request) = some (state, replies) ∧
      s' = ⟨rest, state, s.outbox ++ replies⟩ := by
  simp only [step] at h
  split at h
  · cases h
  next request rest hqueue =>
    obtain ⟨⟨state, replies⟩, hperform, rfl⟩ := Option.map_eq_some_iff.mp h
    exact ⟨request, rest, state, replies, hqueue, hperform, rfl⟩

theorem answer_cases {s s' : Server ι σ ο}
    (h : step perform s .answer = some s') :
    ∃ reply rest, s.outbox = reply :: rest ∧ s' = { s with outbox := rest } := by
  simp only [step] at h
  split at h
  · cases h
  next reply rest houtbox => exact ⟨reply, rest, houtbox, (Option.some.inj h).symm⟩

theorem run_puts (s : Server ι σ ο) (requests : List ι) :
    run (step perform) s (requests.map .put) =
        some { s with queue := s.queue ++ requests } ∧
      trace (step perform) see s (requests.map .put) = requests.map .put := by
  induction requests generalizing s with
  | nil =>
    rw [List.append_nil]
    exact ⟨rfl, rfl⟩
  | cons request requests ih =>
    obtain ⟨hrun, htrace⟩ := ih { s with queue := s.queue ++ [request] }
    have hput : step perform s (.put request) =
        some { s with queue := s.queue ++ [request] } := rfl
    rw [List.map_cons, List.map_cons, run_cons, trace_cons hput, hput, Option.bind_some, hrun,
      htrace, List.append_assoc]
    exact ⟨rfl, rfl⟩

theorem run_serve {s : Server ι σ ο} {env : ε} {request : ι} {rest : List ι} {state : σ}
    {replies : List ο} (hqueue : s.queue = request :: rest)
    (hperform : perform s.state (env, request) = some (state, replies)) :
    run (step perform) s [.serve env] = some ⟨rest, state, s.outbox ++ replies⟩ ∧
      trace (step perform) see s [.serve env] = [] := by
  have hserve : step perform s (.serve env) = some ⟨rest, state, s.outbox ++ replies⟩ := by
    simp [step, hqueue, hperform]
  rw [trace_cons hserve, run_cons, hserve]
  exact ⟨rfl, rfl⟩

theorem run_answer {s : Server ι σ ο} {reply : ο} {rest : List ο}
    (houtbox : s.outbox = reply :: rest) :
    run (step perform) s [.answer] = some { s with outbox := rest } ∧
      trace (step perform) see s [.answer] = [.answer reply] := by
  have hanswer : step perform s .answer = some { s with outbox := rest } := by
    simp [step, houtbox]
  rw [trace_cons hanswer, run_cons, hanswer]
  simp [see, houtbox, trace]

/-- First come, first served: what comes is what has been served and then what waits, in
order; the state is where the served requests lead one after another; and the answers given
are the first of theirs. -/
theorem run_served {s t : Server ι σ ο} {events : List (Event ι ε)}
    (hrun : run (step perform) s events = some t) :
    ∃ tasks replies, performAll perform s.state tasks = some (t.state, replies) ∧
      s.queue ++ (trace (step perform) see s events).filterMap Sight.putOf =
        tasks.map Prod.snd ++ t.queue ∧
      s.outbox ++ replies =
        (trace (step perform) see s events).filterMap Sight.answerOf ++ t.outbox := by
  induction events generalizing s with
  | nil =>
    cases hrun
    exact ⟨[], [], rfl, by simp [trace], by simp [trace]⟩
  | cons event events ih =>
    obtain ⟨m, hm, hrun⟩ := run_cons_some.mp hrun
    obtain ⟨tasks, replies, hperform, hqueue, houtbox⟩ := ih hrun
    rw [trace_cons hm]
    cases event with
    | put request =>
      cases hm
      refine ⟨tasks, replies, hperform, ?_, ?_⟩
      · simpa [see, Sight.putOf] using hqueue
      · simpa [see, Sight.answerOf, List.filterMap_cons] using houtbox
    | serve env =>
      obtain ⟨request, rest, state, first, hwaits, hdone, rfl⟩ := serve_cases hm
      refine ⟨(env, request) :: tasks, first ++ replies, performAll_cons hdone hperform, ?_, ?_⟩
      · rw [hwaits, List.cons_append, List.map_cons, List.cons_append]
        exact congrArg _ hqueue
      · rw [← List.append_assoc]
        exact houtbox
    | answer =>
      obtain ⟨reply, rest, hwaits, rfl⟩ := answer_cases hm
      refine ⟨tasks, replies, hperform, ?_, ?_⟩
      · simpa [see, hwaits, Sight.putOf, List.filterMap_cons] using hqueue
      · simpa [see, hwaits, Sight.answerOf] using houtbox

end NotifsPiper.Queueing

import NotifsPiper.Piping

/-! What an answer means to the client that gets it. The jobs are done one after the other, and
the answer to a command is what the log, as the jobs before have left it, says at a moment after
the command was sent and before the answer came: clients that do not overlap see the log change
in their own order. -/

namespace NotifsPiper.Linear

open Runs Clients

variable {Value : Type}

def Foreign (pid : Pid) : Label Value → Prop
  | .connect tr => tr.typ ≠ .incoming pid
  | _ => True

/-- A client's transmission is that of a command, and of those under the pid it is this one. -/
def Only (platform : Platform Value) (pid : Pid) (P : Transmission → Prop) (tr : Transmission) :
    Prop :=
  ∀ pid', tr.typ = .incoming pid' →
    (∃ own sub, own ≠ 0 ∧ tr = Sub.transmission platform own sub) ∧ (pid' = pid → P tr)

/-- Each executed job found the log as the ones before it had left it. -/
def Chained (platform : Platform Value) (man : LogsManager Value) (d : Daemon Value) : Prop :=
  ∀ before e after, d.executed = before ++ e :: after →
    (run (LogsManager.step platform) man (before.map Prod.snd)).map LogsManager.saved =
      some e.1.saved

section Steps

variable {platform : Platform Value} {man : LogsManager Value} {d d' : Daemon Value}
  {l : Label Value}

theorem step_accepted (hd : Origins.Sends d) (hrouted : Routing.Routed platform d)
    (h : d.step platform l = some d') :
    d'.accepted = d.accepted ∨ ∃ tr, d'.accepted = d.accepted ++ [tr] ∧
      (l = .connect tr ∨ ∃ pid, tr.typ = .outgoing pid) := by
  rcases Routing.step_listener h with haside | ⟨tr, hcomes, haside⟩ |
    ⟨i, written, broken, rfl, hlisten⟩
  · exact Or.inl haside.accepted
  · refine Or.inr ⟨tr, haside.accepted, ?_⟩
    rcases hcomes with hl | ⟨-, hphase⟩
    · exact Or.inl hl
    · exact Or.inr (hd tr hphase)
  · exact Or.inl (hrouted.listen hlisten).2

theorem step_chained (hd : Daemon.Led platform man d ∧ Chained platform man d)
    (h : d.step platform l = some d') : Daemon.Led platform man d' ∧ Chained platform man d' := by
  refine ⟨Daemon.step_led hd.1 h, fun before e after hsplit => ?_⟩
  rcases Daemon.step_manager h with ⟨-, hexecuted⟩ | ⟨env, disk, jd, -, hexec⟩
  · exact hd.2 before e after (hexecuted ▸ hsplit)
  · rw [hexec.executed] at hsplit
    rcases List.eq_nil_or_concat after with rfl | ⟨after, last, rfl⟩
    · obtain ⟨rfl, hlast⟩ := List.append_inj' hsplit rfl
      cases hlast
      exact hd.1
    · rw [List.concat_eq_append, ← List.cons_append, ← List.append_assoc] at hsplit
      exact hd.2 before e after (List.append_inj' hsplit rfl).1

end Steps

section Runs

variable {platform : Platform Value} {man : LogsManager Value} {logsFile : Option (List UInt8)}
  {labels : List (Label Value)} {m d : Daemon Value}

theorem only_foreign {P : Transmission → Prop} {pid : Pid} {tr : Transmission}
    (hown : Own platform (.connect tr)) (hforeign : Foreign pid (.connect tr : Label Value)) :
    Only platform pid P tr := by
  intro pid' htyp
  refine ⟨hown, ?_⟩
  rintro rfl
  exact absurd htyp hforeign

theorem run_only {P : Transmission → Prop} {pid : Pid}
    (hm : Origins.Sends m ∧ Routing.Placed m ∧ Routing.Routed platform m)
    (hall : ∀ tr ∈ m.accepted, Only platform pid P tr)
    (hclients : ∀ tr, .connect tr ∈ labels → Only platform pid P tr)
    (hrun : run (Daemon.step platform) m labels = some d) :
    ∀ tr ∈ d.accepted, Only platform pid P tr := by
  have hstep : ∀ (s : Daemon Value) l s', ((Origins.Sends s ∧ Routing.Placed s ∧
      Routing.Routed platform s) ∧ ∀ tr ∈ s.accepted, Only platform pid P tr) → l ∈ labels →
      s.step platform l = some s' → (Origins.Sends s' ∧ Routing.Placed s' ∧
        Routing.Routed platform s') ∧ ∀ tr ∈ s'.accepted, Only platform pid P tr := by
    intro s l s' ⟨⟨hsends, hrouted⟩, hall⟩ hl h
    refine ⟨⟨Origins.step_sends hsends h, Routing.step_routed hrouted h⟩, ?_⟩
    rcases step_accepted hsends hrouted.2 h with haccepted | ⟨tr, haccepted, hcame⟩
    · rw [haccepted]
      exact hall
    · rw [haccepted]
      refine List.forall_mem_append.mpr ⟨hall, List.forall_mem_singleton.mpr ?_⟩
      rcases hcame with rfl | ⟨pid', htyp⟩
      · exact hclients tr hl
      · intro pid'' htyp'
        rw [htyp] at htyp'
        cases htyp'
  exact (run_along hstep ⟨hm, hall⟩ (along_of_forall (fun l hl _ => hl) m) hrun).2

theorem start_only {pid : Pid} (hown : ∀ l ∈ labels, Own platform l)
    (halone : ∀ l ∈ labels, Foreign pid l)
    (hrun : run (Daemon.step platform) (Daemon.start man logsFile) labels = some m) :
    ∀ tr ∈ m.accepted, Only platform pid (fun _ => False) tr :=
  run_only ⟨Origins.start_sends man logsFile, Routing.start_placed man logsFile,
    Routing.start_routed platform man logsFile⟩ (fun _ h => nomatch h)
    (fun _ htr => only_foreign (hown _ htr) (halone _ htr)) hrun

theorem run_chained
    (hrun : run (Daemon.step platform) (Daemon.start man logsFile) labels = some d) :
    Chained platform (Daemon.start man logsFile).manager d := by
  have hled : Daemon.Led platform (Daemon.start man logsFile).manager
      (Daemon.start man logsFile) := rfl
  have hstart : Chained platform (Daemon.start man logsFile).manager
      (Daemon.start man logsFile) := by
    intro before e after hsplit
    cases before <;> cases hsplit
  have hstep : ∀ (s : Daemon Value) l s',
      (Daemon.Led platform (Daemon.start man logsFile).manager s ∧
        Chained platform (Daemon.start man logsFile).manager s) → s.step platform l = some s' →
      Daemon.Led platform (Daemon.start man logsFile).manager s' ∧
        Chained platform (Daemon.start man logsFile).manager s' := fun _ _ _ => step_chained
  exact (run_invariant hstep ⟨hled, hstart⟩ hrun).2

theorem asked_under {accepted : List Transmission} {jd : JobDesc Value} {pid : Pid}
    {P : Transmission → Prop} (hpid : jd.desc.pid = pid) (hown : pid ≠ 0)
    (honly : ∀ tr ∈ accepted, Only platform pid P tr)
    (hknown : Waiting.Known platform accepted jd) :
    ∃ sub, jd = Sub.jobd pid sub ∧ P (Sub.transmission platform pid sub) := by
  rcases hknown with hdesc | ⟨c, pid', text, hsent, hdecoded, -⟩
  · rw [hdesc] at hpid
    exact absurd hpid.symm hown
  · obtain ⟨⟨own, sub, hself, htr⟩, honce⟩ := honly _ (List.mem_of_getElem? hsent) pid' rfl
    obtain ⟨htyp, rfl⟩ := Transmission.mk.inj htr
    have hjd : jd = sub.jobd own := by
      have hdecoded' := congrArg ExceptT.run (sub.decoded platform own)
      exact Except.ok.inj (Option.some.inj (hdecoded.symm.trans hdecoded'))
    subst hjd
    have hsub : sub.pid own = pid := hpid
    -- A signal goes out under no pid, so the command names its process.
    have hpid : own = pid := by
      cases sub with
      | signal id force kind =>
        cases kind with
        | closed query =>
          cases query with
          | true => exact hsub
          | false => exact absurd hsub.symm hown
        | actionInvoked action => exact absurd hsub.symm hown
        | activationToken token => exact absurd hsub.symm hown
      | read count skip silent => exact hsub
      | watch silent => exact hsub
    subst hpid
    have hP := honce ((TransmissionType.incoming.inj htyp).trans hsub)
    rw [htr] at hP
    exact ⟨sub, rfl, hP⟩

end Runs

/-- Among the daemon's own clients, of which no two ask under one pid: what a command gets as its
answer is the result of its own job, which was executed after the command had connected, on the
log as the jobs executed before had left it one after the other. -/
theorem answers_linear (platform : Platform Value) (man : LogsManager Value)
    (logsFile : Option (List UInt8)) (own : Pid) (sub : Sub) (hself : own ≠ 0)
    (pre post : List (Label Value)) (m d : Daemon Value)
    (hpre : run (Daemon.step platform) (Daemon.start man logsFile) pre = some m)
    (hpost : run (Daemon.step platform) m (.connect (sub.transmission platform own) :: post) =
      some d)
    (hown : ∀ l ∈ pre ++ post, Own platform l) (halone : ∀ l ∈ pre ++ post, Foreign own l)
    (data : String) (hanswer : (m.accepted.length, ⟨.outgoing own, data⟩) ∈ d.delivered) :
    ∃ before found env after ex,
      d.executed = m.executed ++ before ++ (found, env, sub.jobd own) :: after ∧
      (run (LogsManager.step platform) (Daemon.start man logsFile).manager
        ((m.executed ++ before).map Prod.snd)).map LogsManager.saved = some found.saved ∧
      Job.execute platform env (sub.jobd own) found = some ex ∧
      data = ex.fulfilled.toStr platform := by
  have hrun := run_append_some.mpr ⟨m, hpre, hpost⟩
  obtain ⟨hownPre, hownPost⟩ := List.forall_mem_append.mp hown
  obtain ⟨halonePre, halonePost⟩ := List.forall_mem_append.mp halone
  have hsub : Own platform (.connect (sub.transmission platform own)) := ⟨own, sub, hself, rfl⟩
  have hhonestPre : ∀ l ∈ pre, Waiting.Honest l := fun l hl => (hownPre l hl).honest
  have hhonest : ∀ l ∈ pre ++ .connect (sub.transmission platform own) :: post,
      Waiting.Honest l :=
    List.forall_mem_append.mpr ⟨hhonestPre,
      List.forall_mem_cons.mpr ⟨hsub.honest, fun l hl => (hownPost l hl).honest⟩⟩
  -- Before the command connects nobody has asked under its pid, and later nobody else does.
  have hbefore := start_only hownPre halonePre hpre
  have hafter : ∀ tr ∈ d.accepted,
      Only platform own (fun tr => tr = sub.transmission platform own) tr := by
    have hm : Origins.Sends m ∧ Routing.Placed m ∧ Routing.Routed platform m :=
      ⟨run_invariant (fun _ _ _ => Origins.step_sends) (Origins.start_sends man logsFile) hpre,
        Routing.run_routed hpre⟩
    refine run_only hm (fun tr htr pid htyp => ?_) (fun tr htr => ?_) hpost
    · obtain ⟨hcommand, hnone⟩ := hbefore tr htr pid htyp
      exact ⟨hcommand, fun hpid => (hnone hpid).elim⟩
    · rcases List.mem_cons.mp htr with hsame | htr
      · cases hsame
        exact fun _ _ => ⟨hsub, fun _ => rfl⟩
      · exact only_foreign (hownPost _ htr) (halonePost _ htr)
  have hsourced := Waiting.run_sourced hhonest hrun
  have hcame : (⟨.outgoing own, data⟩ : Transmission) ∈ d.accepted := by
    cases (Routing.run_routed hrun).2.delivered _ hanswer with
    | answer hpid hasks hcame => exact hcame
    | broadcast hwatches hcame => exact hcame
  obtain ⟨found, env, jd, ex, hmem, hex, -, htr⟩ := hsourced.came _ hcame own rfl
  obtain ⟨htyp, rfl⟩ := Transmission.mk.inj htr
  have hpid : jd.desc.pid = own := (TransmissionType.outgoing.inj htyp).symm
  obtain ⟨sub', rfl, hsame⟩ := asked_under hpid hself hafter (hsourced.done _ hmem)
  have hjobd : (sub'.jobd own : JobDesc Value) = sub.jobd own := by
    have hdecoded := sub'.decoded platform own
    rw [hsame] at hdecoded
    exact Except.ok.inj (Option.some.inj
      (congrArg ExceptT.run (hdecoded.symm.trans (sub.decoded platform own))))
  rw [hjobd] at hmem hex
  obtain ⟨since, hsince⟩ := Piping.run_executed hpost
  have hlate : (found, env, sub.jobd own) ∈ since := by
    rw [← hsince] at hmem
    rcases List.mem_append.mp hmem with hearly | hlate
    · have hknown := (Waiting.run_sourced hhonestPre hpre).done _ hearly
      obtain ⟨_, -, hfalse⟩ := asked_under (hjobd ▸ hpid) hself hbefore hknown
      exact hfalse.elim
    · exact hlate
  obtain ⟨before, after, rfl⟩ := List.append_of_mem hlate
  have hexecuted : d.executed =
      m.executed ++ before ++ (found, env, sub.jobd own) :: after := by
    rw [← hsince, List.append_assoc]
  exact ⟨before, found, env, after, ex, hexecuted, run_chained hrun _ _ _ hexecuted, hex, rfl⟩

def asked : List (Label Unit) := Identity.notified 0 ++ [.listen 0 true []]

def answered : List (Label Unit) :=
  [.listen 0 true [], .listen 0 true [], .listen 0 true [], .listen 0 true [], .recv, .pop,
    .execute ⟨some ⟨0, 0⟩, 0, .ok (), true, true⟩ (.ok ()), .reply true false, .listen 0 true [],
    .listen 0 true []]

theorem answers_linear_answered :
    ∃ m d, run (Daemon.step Platform.bare) (Daemon.start (.empty 10) none) asked = some m ∧
      run (Daemon.step Platform.bare) m
        (.connect (Sub.transmission Platform.bare 4 (.signal 1 false (.closed true))) ::
          answered) = some d ∧
      (m.accepted.length, ⟨.outgoing 4, "res#false"⟩) ∈ d.delivered ∧
      ∃ before found env after ex,
        d.executed = m.executed ++ before ++
          (found, env, Sub.jobd 4 (.signal 1 false (.closed true))) :: after ∧
        (run (LogsManager.step Platform.bare) (Daemon.start (.empty 10) none).manager
          ((m.executed ++ before).map Prod.snd)).map LogsManager.saved = some found.saved ∧
        Job.execute Platform.bare env (Sub.jobd 4 (.signal 1 false (.closed true))) found =
          some ex ∧ "res#false" = ex.fulfilled.toStr Platform.bare := by
  have hfirst : (run (Daemon.step Platform.bare) (Daemon.start (.empty 10) none) asked).map
      (fun m => m.accepted.length) = some 1 := by decide +kernel
  have hsecond : (run (Daemon.step Platform.bare) (Daemon.start (.empty 10) none) (asked ++
      .connect (Sub.transmission Platform.bare 4 (.signal 1 false (.closed true))) ::
        answered)).map Daemon.delivered = some [(1, ⟨.outgoing 4, "res#false"⟩)] := by
    decide +kernel
  obtain ⟨m, hm, hlength⟩ := Option.map_eq_some_iff.mp hfirst
  obtain ⟨d, hd, hdelivered⟩ := Option.map_eq_some_iff.mp hsecond
  obtain ⟨m', hm', hpost⟩ := run_append_some.mp hd
  obtain rfl : m = m' := Option.some.inj (hm.symm.trans hm')
  have hanswer : (m.accepted.length, ⟨.outgoing 4, "res#false"⟩) ∈ d.delivered := by
    simp [hdelivered, hlength]
  have hown : ∀ l ∈ asked ++ answered, Own Platform.bare l := by
    simp [asked, answered, Identity.notified, Own]
  have halone : ∀ l ∈ asked ++ answered, Foreign 4 l := by
    simp [asked, answered, Identity.notified, Foreign]
  exact ⟨m, d, hm, hpost, hanswer, answers_linear Platform.bare (.empty 10) none 4
    (.signal 1 false (.closed true)) (by decide) asked answered m d hm hpost hown halone _
    hanswer⟩

end NotifsPiper.Linear

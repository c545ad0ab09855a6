import NotifsPiper.Sessions
import NotifsPiper.Storage

/-! What a stop of the daemon costs. The file of the log is always that of some moment between
two jobs, and no earlier one than the last at which the manager thread was left without jobs:
what was done by then survives a stop at any later moment. -/

namespace NotifsPiper.Recovery

open Runs Storage

variable {Value : Type}

/-- A start finds the log as these jobs have left it, one after the other. -/
def Recovers (platform : Platform Value) (man : LogsManager Value) (file : Option (List UInt8))
    (jobs : List (LogsManager Value × Task Value)) : Prop :=
  ∃ t, run (LogsManager.step platform) man (jobs.map Prod.snd) = some t ∧
    Loads platform file t.logsBuffer

/-- The file is that of a moment after the first jobs. -/
def Durable (platform : Platform Value) (man : LogsManager Value)
    (first : List (LogsManager Value × Task Value)) (d : Daemon Value) : Prop :=
  ∃ before after, d.executed = before ++ after ∧ first <+: before ∧
    Recovers platform man d.logsFile before

section Steps

variable {platform : Platform Value} {man : LogsManager Value}
  {first : List (LogsManager Value × Task Value)} {d d' : Daemon Value} {l : Label Value}

/-- Where the file is that of the log, it is that of all jobs done so far. -/
theorem recovers_all (hled : Daemon.Led platform man d)
    (hloads : Loads platform d.logsFile d.manager.logsBuffer) :
    Recovers platform man d.logsFile d.executed := by
  obtain ⟨t, hrun, hsaved⟩ := Option.map_eq_some_iff.mp hled
  have hlog : t.saved.logsBuffer = d.manager.saved.logsBuffer := by rw [hsaved]
  have hlog : t.logsBuffer = d.manager.logsBuffer := hlog
  exact ⟨t, hrun, hlog ▸ hloads⟩

theorem Durable.idle (hd : Durable platform man first d) (hexecuted : d'.executed = d.executed)
    (hfile : d'.logsFile = d.logsFile) : Durable platform man first d' := by
  rw [Durable, hexecuted, hfile]
  exact hd

theorem execute_durable {env : Env} (hd : Durable platform man first d)
    (hled : Daemon.Led platform man d') (hserde : Decodes platform d'.manager.logsBuffer)
    (h : d.execute platform env (.ok ()) = some d') : Durable platform man first d' := by
  obtain ⟨jd, empty, -, ⟨-, rfl⟩ | ⟨ex, -, rfl⟩⟩ := Daemon.execute_outcome h
  · exact hd.idle rfl rfl
  · obtain ⟨before, after, hexecuted, hfirst, hrecovers⟩ := hd
    unfold Daemon.conclude at hserde hled ⊢
    split_ifs at hserde hled ⊢
    · refine ⟨_, [], (List.append_nil _).symm, ?_, recovers_all hled (loads_written hserde)⟩
      rw [hexecuted, List.append_assoc]
      exact hfirst.trans (List.prefix_append _ _)
    · refine ⟨before, after ++ [(d.manager, env, jd)], ?_, hfirst, hrecovers⟩
      rw [← List.append_assoc, ← hexecuted]

theorem step_durable (hd : Durable platform man first d) (hled : Daemon.Led platform man d')
    (hwritten : Written l) (hserde : Decodes platform d'.manager.logsBuffer)
    (h : d.step platform l = some d') : Durable platform man first d' := by
  by_cases hexecute : ∃ env disk, l = .execute env disk
  · obtain ⟨env, disk, rfl⟩ := hexecute
    cases hwritten
    exact execute_durable hd hled hserde h
  · have hfile := (Sessions.step_unexecuted h fun env disk hl => hexecute ⟨env, disk, hl⟩).2
    rcases Daemon.step_manager h with ⟨-, hexecuted⟩ | ⟨env, disk, jd, hl, -⟩
    · exact hd.idle hexecuted hfile
    · exact absurd ⟨env, disk, hl⟩ hexecute

end Steps

/-- As long as the file system works: whenever the daemon stops, between two steps, its next start
finds the log as the first jobs of the run have left it, and among them are all that were done
when the manager thread was last left without jobs. -/
theorem stop_recovers (platform : Platform Value) (config : LogsConfig) (files : Files)
    (man : LogsManager Value) (files' : Files)
    (hnew : LogsManager.new platform .sound config files = (some man, files'))
    (hempty : platform.logFromStr "[]" = .ok []) (pre post : List (Label Value))
    (hwritten : ∀ l ∈ pre ++ post, Written l)
    (hserde : Always (Daemon.step platform) (fun d => Decodes platform d.manager.logsBuffer)
      (Daemon.start man files'.logs) (pre ++ post))
    (m d : Daemon Value)
    (hpre : run (Daemon.step platform) (Daemon.start man files'.logs) pre = some m)
    (hpost : run (Daemon.step platform) m post = some d)
    (hresting : resting m.phase = true) (hlist : m.list = []) :
    ∃ before after, d.executed = before ++ after ∧ m.executed <+: before ∧
      Recovers platform (Daemon.start man files'.logs).manager d.logsFile before := by
  obtain ⟨hclean, hloads⟩ := loads_new hempty hnew
  have hdisk : Along (Daemon.step platform) (fun _ l => Written l) (Daemon.start man files'.logs)
      (pre ++ post) := along_of_forall (fun l hl _ => hwritten l hl) _
  have hstored : Always (Daemon.step platform) (Stored platform) (Daemon.start man files'.logs)
      (pre ++ post) :=
    hserde.invariant (fun _ _ _ hd hl hdec hstep => step_stored hd hl hdec hstep) hdisk
      (start_stored hclean hloads)
  have hm : Stored platform m := always_iff.mp hstored pre (List.prefix_append _ _) m hpre
  have hled := Daemon.run_led hpre
  have hdurable : Durable platform (Daemon.start man files'.logs).manager m.executed m :=
    ⟨m.executed, [], (List.append_nil _).symm, List.prefix_refl _,
      recovers_all hled (hm.clean (hm.written hresting hlist))⟩
  have hlater : Always (Daemon.step platform) (fun d => Decodes platform d.manager.logsBuffer) m
      post := by
    refine always_iff.mpr fun ls hls t ht => ?_
    exact always_iff.mp hserde (pre ++ ls) ((List.prefix_append_right_inj pre).mpr hls) t
      (run_append_some.mpr ⟨m, hpre, ht⟩)
  have hkept : Always (Daemon.step platform) (fun d =>
      Daemon.Led platform (Daemon.start man files'.logs).manager d ∧
        Durable platform (Daemon.start man files'.logs).manager m.executed d) m post :=
    hlater.invariant (fun _ _ _ hd hl hdec hstep =>
      ⟨Daemon.step_led hd.1 hstep, step_durable hd.2 (Daemon.step_led hd.1 hstep) hl hdec hstep⟩)
      (along_append hdisk hpre) ⟨hled, hdurable⟩
  exact (always_iff.mp hkept post (List.prefix_refl _) d hpost).2

def interrupted : List (Label Unit) := [.reply true false, .notify blankCall none, .busSend]

theorem stop_recovers_interrupted :
    ∃ m d, run (Daemon.step (Platform.knowing [.bare 1 0 0]))
        (Daemon.start ⟨[], ⟨10, true, 5000⟩, false, false, false⟩ (some (Utf8.utf8 "[]")))
        (flushing (.ok ())) = some m ∧
      run (Daemon.step (Platform.knowing [.bare 1 0 0])) m interrupted = some d ∧
      m.executed.length = 1 ∧
      ∃ before after, d.executed = before ++ after ∧ m.executed <+: before ∧
        Recovers (Platform.knowing [.bare 1 0 0])
          (Daemon.start ⟨[], ⟨10, true, 5000⟩, false, false, false⟩
            (some (Utf8.utf8 "[]"))).manager d.logsFile before := by
  have hserde : Always (Daemon.step (Platform.knowing [.bare 1 0 0]))
      (fun d => Decodes (Platform.knowing [.bare 1 0 0]) d.manager.logsBuffer)
      (Daemon.start ⟨[], ⟨10, true, 5000⟩, false, false, false⟩ (some (Utf8.utf8 "[]")))
      (flushing (.ok ()) ++ interrupted) := by
    have hblank : Decodes (Platform.knowing [.bare 1 0 0]) [] := rfl
    have hone := knowing_decodes [.bare 1 0 0]
    refine ⟨hblank, fun d hd => ?_⟩
    cases hd
    refine ⟨hblank, fun d hd => ?_⟩
    cases hd
    refine ⟨hblank, fun d hd => ?_⟩
    cases hd
    refine ⟨hblank, fun d hd => ?_⟩
    cases hd
    refine ⟨hblank, fun d hd => ?_⟩
    cases hd
    refine ⟨hone, fun d hd => ?_⟩
    cases hd
    refine ⟨hone, fun d hd => ?_⟩
    cases hd
    refine ⟨hone, fun d hd => ?_⟩
    cases hd
    exact hone
  have hwritten : ∀ l ∈ flushing (.ok ()) ++ interrupted, Written (l : Label Unit) := by
    simp [flushing, interrupted, Written]
  exact ⟨_, _, rfl, rfl, rfl, stop_recovers _ ⟨10, true, 5000⟩ ⟨some (Utf8.utf8 "?"), none⟩ _
    ⟨_, some (Utf8.utf8 "?")⟩ (by decide) (by decide) _ interrupted hwritten hserde _ _ rfl rfl rfl
    rfl⟩

end NotifsPiper.Recovery

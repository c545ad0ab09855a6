import NotifsPiper.Jobs

/-! What a client asks for, through the four layers of text it travels in: the job, its
description, the transmission and its type. None of them escapes its delimiter; each splits at
the first one, and no part in front of it ends in or contains one. -/

namespace NotifsPiper

variable {Value : Type}

namespace Job

theorem fromStr_broadcast (platform : Platform Value) {event : NotificationEvent Value}
    (hevent : platform.eventFromStr (platform.eventToString event) = .ok event) :
    fromStr platform ("broadcast" ++ "##" ++ platform.eventToString event) =
      pure (.broadcast event) := by
  rw [fromStr_named platform "broadcast" _ (by decide)]
  change Broadcast.fromStr platform (platform.eventToString event) = _
  rw [Broadcast.fromStr, hevent]

theorem ofRepr_repr (reason : NotificationClosed) :
    NotificationClosed.ofRepr reason.repr = some reason := by
  cases reason <;> decide

theorem fromStr_close (platform : Platform Value) (id : Nid) (reason : NotificationClosed) :
    fromStr platform ("close" ++ "##" ++ (id.toNat.repr ++ "#" ++ reason.repr.toNat.repr)) =
      pure (.close id reason) := by
  rw [fromStr_named platform "close" _ (by decide)]
  change Close.fromStr (id.toNat.repr ++ "#" ++ reason.repr.toNat.repr) = _
  rw [Close.fromStr, splitHash_join (hash_not_mem_repr _), Decoded.liftM_ok_bind]
  dsimp only
  rw [parseNid_repr, Decoded.liftM_ok_bind, parse_repr _ _ _ reason.repr.toNat_lt_size,
    UInt32.ofNat_toNat, Decoded.liftM_ok_bind, ofRepr_repr]

theorem fromStr_watch (platform : Platform Value) :
    fromStr platform ("watch" ++ "##" ++ "watch") = pure .watch := by
  rw [fromStr_named platform "watch" _ (by decide)]
  rfl

theorem signalFromStr_text (signal : Nid → String → Job Value) (id : Nid) (text : String) :
    signalFromStr signal (id.toNat.repr ++ "#" ++ text) = pure (signal id text) := by
  rw [signalFromStr, splitHash_join (hash_not_mem_repr _), Decoded.liftM_ok_bind]
  dsimp only
  rw [parseNid_repr, Decoded.liftM_ok_bind]

theorem fromStr_action (platform : Platform Value) (id : Nid) (actionKey : String) :
    fromStr platform ("action" ++ "##" ++ (id.toNat.repr ++ "#" ++ actionKey)) =
      pure (.actionInvoked id actionKey) := by
  rw [fromStr_named platform "action" _ (by decide)]
  exact signalFromStr_text .actionInvoked id actionKey

theorem fromStr_activation (platform : Platform Value) (id : Nid) (token : String) :
    fromStr platform ("activation" ++ "##" ++ (id.toNat.repr ++ "#" ++ token)) =
      pure (.activationToken id token) := by
  rw [fromStr_named platform "activation" _ (by decide)]
  exact signalFromStr_text .activationToken id token

end Job

namespace Requests

/-- A job a client can build: an acknowledgement has no text form. -/
theorem job_decoded (platform : Platform Value) {cmd : Job Value} {text : String}
    (hevent : ∀ event, cmd = .broadcast event →
      platform.eventFromStr (platform.eventToString event) = .ok event)
    (htext : cmd.toStr platform = some text) :
    Job.fromStr platform (cmd.canonicalName ++ "##" ++ text) = pure cmd := by
  cases cmd with
  | broadcast event =>
    cases htext
    exact Job.fromStr_broadcast platform (hevent event rfl)
  | close id reason =>
    cases htext
    exact Job.fromStr_close platform id reason
  | read start stop =>
    cases htext
    exact Job.fromStr_read platform start stop
  | query id =>
    cases htext
    exact Job.fromStr_query platform id
  | watch =>
    cases htext
    exact Job.fromStr_watch platform
  | actionInvoked id actionKey =>
    cases htext
    exact Job.fromStr_action platform id actionKey
  | activationToken id token =>
    cases htext
    exact Job.fromStr_activation platform id token
  | acknowledge id => cases htext

/-- Every job a client can build, under any description and any pid, arrives as it was sent. -/
theorem request_round_trip (platform : Platform Value) (pid : Pid) (jd : JobDesc Value)
    (hclient : ∀ id, jd.cmd ≠ .acknowledge id)
    (hevent : ∀ event, jd.cmd = .broadcast event →
      platform.eventFromStr (platform.eventToString event) = .ok event) :
    ∃ text, jd.toStr platform = some text ∧
      ∃ tr, Transmission.fromStr (Transmission.toStr ⟨.incoming pid, text⟩) = .ok tr ∧
        tr.typ = .incoming pid ∧ JobDesc.fromStr platform tr.data = pure jd := by
  obtain ⟨text, htext⟩ : ∃ text, jd.cmd.toStr platform = some text := by
    cases hcmd : jd.cmd with
    | acknowledge id => exact absurd hcmd (hclient id)
    | _ => exact ⟨_, rfl⟩
  have hwhole : jd.toStr platform =
      some (jd.desc.toStr ++ "##" ++ jd.cmd.canonicalName ++ "##" ++ text) := by
    rw [JobDesc.toStr, htext, Option.map_some]
  have hdecoded := JobDesc.fromStr_toStr htext (job_decoded platform hevent htext)
  rw [hwhole, Option.getD_some] at hdecoded
  exact ⟨_, hwhole, _, Transmission.fromStr_toStr _, rfl, hdecoded⟩

/-- A text that starts with the delimiter, right behind the delimiter in front of it. -/
theorem request_round_trip_hashes :
    ∃ text, JobDesc.toStr Platform.bare ⟨.actionInvoked 7 "##a#", ⟨3, 1⟩⟩ = some text ∧
      ∃ tr, Transmission.fromStr (Transmission.toStr ⟨.incoming 3, text⟩) = .ok tr ∧
        tr.typ = .incoming 3 ∧
          JobDesc.fromStr Platform.bare tr.data = pure ⟨.actionInvoked 7 "##a#", ⟨3, 1⟩⟩ :=
  request_round_trip Platform.bare 3 ⟨.actionInvoked 7 "##a#", ⟨3, 1⟩⟩
    (fun _ hcmd => (nomatch hcmd)) (fun _ hcmd => (nomatch hcmd))

end Requests

end NotifsPiper

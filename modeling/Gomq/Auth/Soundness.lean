import Gomq.Auth.Handshake
import Gomq.Wire.Reads

/-!
# Who gets through the handshake

A user gets through with PLAIN if the authenticator accepts the credentials, with EXTERNAL if the
certificate has that name, and with AMQPLAIN if user and password are both `guest`, whatever the
authenticator says. So the handshake is sound for a client unless it completes an AMQPLAIN handshake
as `guest` and the authenticator would not have accepted that (`sound_iff`).
-/

namespace Gomq.Auth

open Wire Broker

/-! ## A completed handshake -/

/-- The frames of a handshake that runs to its end. -/
structure Completes (peer : Peer) (startOk : Frame) : Prop where
  header : 8 ≤ peer.stream.length ∧ peer.stream.headD 0 = 0x41
  sends : peer.startSent = true ∧ peer.tuneSent = true ∧ peer.openSent = true
  method : startOk.type = frameMethod ∧ idsOf startOk.payload = (10, 11)
  frames : ∃ tuneOk openOk r₁ r₂ r₃,
    nextFrame defaultBufSize frameMaxDefault (peer.stream.drop 8) = .ok (startOk, r₁) ∧
      nextFrame defaultBufSize frameMaxDefault r₁ = .ok (tuneOk, r₂) ∧
      idsOf tuneOk.payload = (10, 31) ∧
      nextFrame defaultBufSize frameMaxDefault r₂ = .ok (openOk, r₃) ∧
      idsOf openOk.payload = (10, 41)

/-- The frame that `readTuneOk` reads: the second one behind the protocol header. -/
def TuneOkOf (peer : Peer) (tuneOk : Frame) : Prop :=
  ∃ startOk r₁ r₂,
    nextFrame defaultBufSize frameMaxDefault (peer.stream.drop 8) = .ok (startOk, r₁) ∧
      nextFrame defaultBufSize frameMaxDefault r₁ = .ok (tuneOk, r₂)

theorem wrap_eq_ok {α : Type} {f : StepError → HandshakeError} {x : Except StepError α} {a : α} :
    wrap f x = .ok a ↔ x = .ok a := by
  cases x with
  | error e => exact ⟨nofun, nofun⟩
  | ok b => exact ⟨fun h => by cases h; rfl, fun h => by cases h; rfl⟩

theorem wrap_bind_eq_ok {α β : Type} {f : StepError → HandshakeError} {x : Except StepError α}
    {g : α → Except HandshakeError β} {b : β} :
    (wrap f x >>= g) = .ok b ↔ ∃ a, x = .ok a ∧ g a = .ok b := by
  cases x with
  | error e => exact ⟨nofun, nofun⟩
  | ok a => exact ⟨fun h => ⟨a, rfl, h⟩, fun ⟨_, ha, hg⟩ => by cases ha; exact hg⟩

namespace Handshaker

variable {h h' : Handshaker}

theorem readProtocolHeader_eq_ok :
    h.readProtocolHeader = .ok h' ↔
      (8 ≤ h.input.length ∧ h.input.headD 0 = 0x41) ∧ h' = { h with input := h.input.drop 8 } := by
  unfold readProtocolHeader
  by_cases hlen : 8 ≤ h.input.length
  · have hhead : (h.input.take 8).headD 0 = h.input.headD 0 := by
      cases h.input <;> rfl
    rw [readFull_of_le hlen]
    dsimp only
    rw [hhead]
    by_cases hA : h.input.headD 0 = 0x41
    · rw [if_neg (not_not.mpr hA)]
      exact ⟨fun he => ⟨⟨hlen, hA⟩, (Except.ok.inj he).symm⟩, fun he => by rw [he.2]⟩
    · rw [if_pos hA]
      exact ⟨nofun, fun he => absurd he.1.2 hA⟩
  · obtain ⟨e, he⟩ := readFull_err_of_lt (Nat.lt_of_not_le hlen)
    dsimp only
    rw [he]
    refine ⟨fun hok => ?_, fun hok => absurd hok.1.1 hlen⟩
    cases e <;> cases hok

theorem sendMethodFrame_eq_ok {ok : Bool} {payload : Bytes} :
    h.sendMethodFrame ok payload = .ok h' ↔
      ok = true ∧ h' = { h with sent := h.sent ++ [⟨frameMethod, 0, payload⟩] } := by
  unfold sendMethodFrame
  cases ok with
  | false => exact ⟨nofun, nofun⟩
  | true => exact ⟨fun he => ⟨rfl, (Except.ok.inj he).symm⟩, fun he => by rw [he.2]; rfl⟩

theorem readFrame_eq_ok {f : Frame} :
    h.readFrame = .ok (f, h') ↔
      ∃ rest, nextFrame defaultBufSize frameMaxDefault h.input = .ok (f, rest) ∧
        h' = { h with input := rest } := by
  unfold readFrame
  cases nextFrame defaultBufSize frameMaxDefault h.input with
  | error e => exact ⟨nofun, nofun⟩
  | ok p =>
    constructor
    · intro he
      cases he
      exact ⟨p.2, rfl, rfl⟩
    · rintro ⟨rest, hp, rfl⟩
      cases hp
      rfl

theorem readStartOk_eq_ok {auth : Authenticator} {certificate : Option GoString} :
    h.readStartOk auth certificate = .ok h' ↔
      ∃ f rest user, nextFrame defaultBufSize frameMaxDefault h.input = .ok (f, rest) ∧
        (f.type = frameMethod ∧ idsOf f.payload = (10, 11)) ∧
        authenticate auth certificate (startOkOf f.payload).1 (startOkOf f.payload).2 = .ok user ∧
        h' = { h with input := rest, username := user } := by
  unfold readStartOk
  cases hf : h.readFrame with
  | error e =>
    refine ⟨nofun, ?_⟩
    rintro ⟨f, rest, user, hnext, -⟩
    rw [readFrame_eq_ok.mpr ⟨rest, hnext, rfl⟩] at hf
    cases hf
  | ok p =>
    obtain ⟨f, k⟩ := p
    obtain ⟨rest, hnext, rfl⟩ := readFrame_eq_ok.mp hf
    dsimp only
    by_cases hty : f.type = frameMethod
    · rw [if_neg (not_not.mpr hty)]
      by_cases hid : idsOf f.payload = (10, 11)
      · rw [if_neg (not_not.mpr hid)]
        cases ha : authenticate auth certificate (startOkOf f.payload).1
            (startOkOf f.payload).2 with
        | error e =>
          refine ⟨nofun, ?_⟩
          rintro ⟨f', rest', user, hnext', -, ha', -⟩
          cases hnext.symm.trans hnext'
          cases ha.symm.trans ha'
        | ok user =>
          constructor
          · intro he
            exact ⟨f, rest, user, hnext, ⟨hty, hid⟩, ha, (Except.ok.inj he).symm⟩
          · rintro ⟨f', rest', user', hnext', -, ha', rfl⟩
            cases hnext.symm.trans hnext'
            cases ha.symm.trans ha'
            rfl
      · rw [if_pos hid]
        refine ⟨nofun, ?_⟩
        rintro ⟨f', rest', user, hnext', hm, -⟩
        cases hnext.symm.trans hnext'
        exact absurd hm.2 hid
    · rw [if_pos hty]
      refine ⟨nofun, ?_⟩
      rintro ⟨f', rest', user, hnext', hm, -⟩
      cases hnext.symm.trans hnext'
      exact absurd hm.1 hty

theorem readIds_eq_ok {ids : UInt16 × UInt16} {e : Frame → StepError}
    {g : Frame → Handshaker → Handshaker} :
    ((match h.readFrame with
      | .error e => .error e
      | .ok (f, h) => if idsOf f.payload ≠ ids then .error (e f) else .ok (g f h) :
        Except StepError Handshaker)) = .ok h' ↔
      ∃ f rest, nextFrame defaultBufSize frameMaxDefault h.input = .ok (f, rest) ∧
        idsOf f.payload = ids ∧ h' = g f { h with input := rest } := by
  unfold readFrame
  cases nextFrame defaultBufSize frameMaxDefault h.input with
  | error e => exact ⟨nofun, nofun⟩
  | ok p =>
    dsimp only
    by_cases hid : idsOf p.1.payload = ids
    · rw [if_neg (not_not.mpr hid)]
      constructor
      · intro he
        exact ⟨p.1, p.2, rfl, hid, (Except.ok.inj he).symm⟩
      · rintro ⟨f, rest, hp, -, rfl⟩
        cases hp
        rfl
    · rw [if_pos hid]
      refine ⟨nofun, ?_⟩
      rintro ⟨f, rest, hp, hid', -⟩
      cases hp
      exact absurd hid' hid

theorem readTuneOk_eq_ok :
    h.readTuneOk = .ok h' ↔
      ∃ f rest, nextFrame defaultBufSize frameMaxDefault h.input = .ok (f, rest) ∧
        idsOf f.payload = (10, 31) ∧
        h' = { h with input := rest, tune := h.tune.lower (argsOf f.payload) } := readIds_eq_ok

theorem readOpenOk_eq_ok :
    h.readOpenOk = .ok h' ↔
      ∃ f rest, nextFrame defaultBufSize frameMaxDefault h.input = .ok (f, rest) ∧
        idsOf f.payload = (10, 41) ∧ h' = { h with input := rest } := readIds_eq_ok

end Handshaker

open Handshaker

theorem negotiate_ok {env : Env} {auth : Authenticator} {peer : Peer} {h : Handshaker}
    (hneg : negotiate env auth peer = .ok h) :
    ∃ f tuneOk, Completes peer f ∧
      authenticate auth peer.certificate (startOkOf f.payload).1 (startOkOf f.payload).2 =
        .ok h.username ∧
      TuneOkOf peer tuneOk ∧
      h.tune = (newHandshaker []).tune.lower (argsOf tuneOk.payload) := by
  unfold negotiate sendStart sendTune sendOpen at hneg
  simp only [wrap_bind_eq_ok, wrap_eq_ok, readProtocolHeader_eq_ok, sendMethodFrame_eq_ok,
    readStartOk_eq_ok, readTuneOk_eq_ok, readOpenOk_eq_ok] at hneg
  obtain ⟨_, ⟨hhead, rfl⟩, _, ⟨hs, rfl⟩, _, ⟨f, r₁, user, hf, hm, ha, rfl⟩, _, ⟨ht, rfl⟩, _,
    ⟨tuneOk, r₂, htune, hti, rfl⟩, _, ⟨ho, rfl⟩, openOk, r₃, hopen, hoi, rfl⟩ := hneg
  exact ⟨f, tuneOk,
    ⟨hhead, ⟨hs, ht, ho⟩, hm, tuneOk, openOk, r₁, r₂, r₃, hf, htune, hti, hopen, hoi⟩, ha,
    ⟨f, r₁, r₂, hf, htune⟩, rfl⟩

theorem negotiate_username (env : Env) (auth : Authenticator) (peer : Peer) (u : GoString) :
    (∃ h, negotiate env auth peer = .ok h ∧ h.username = u) ↔
      ∃ f, Completes peer f ∧
        authenticate auth peer.certificate (startOkOf f.payload).1 (startOkOf f.payload).2 =
          .ok u := by
  constructor
  · rintro ⟨h, hneg, rfl⟩
    obtain ⟨f, tuneOk, hc, ha, -⟩ := negotiate_ok hneg
    exact ⟨f, hc, ha⟩
  · rintro ⟨f, ⟨hhead, ⟨hs, ht, ho⟩, hm, tuneOk, openOk, r₁, r₂, r₃, hf, htune, hti, hopen, hoi⟩,
      ha⟩
    unfold negotiate sendStart sendTune sendOpen
    simp only [wrap_bind_eq_ok, wrap_eq_ok, readProtocolHeader_eq_ok, sendMethodFrame_eq_ok,
      readStartOk_eq_ok, readTuneOk_eq_ok, readOpenOk_eq_ok]
    exact ⟨_, ⟨_, ⟨hhead, rfl⟩, _, ⟨hs, rfl⟩, _, ⟨f, r₁, u, hf, hm, ha, rfl⟩, _, ⟨ht, rfl⟩, _,
      ⟨tuneOk, r₂, htune, hti, rfl⟩, _, ⟨ho, rfl⟩, openOk, r₃, hopen, hoi, rfl⟩, rfl⟩

/-! ## Authentication -/

theorem sasl_get (mechanism : GoString) :
    sasl.get mechanism =
      if mechanism = str "EXTERNAL" then some .external
      else if mechanism = str "AMQPLAIN" then some (.amqplain guestUsers) else none := by
  show (((∅ : GoMap GoString Mechanism).set (str "AMQPLAIN") (.amqplain guestUsers)).set
    (str "EXTERNAL") .external).get mechanism = _
  rw [GoMap.get_set, GoMap.get_set, GoMap.get_empty]

theorem guestUsers_accepts {user password : GoString} :
    guestUsers.accepts user password = true ↔ user = str "guest" ∧ password = str "guest" := by
  unfold Users.accepts guestUsers
  rw [GoMap.get_set, GoMap.get_empty]
  by_cases hu : user = str "guest"
  · rw [if_pos hu, beq_iff_eq, Option.some_inj]
    exact ⟨fun hp => ⟨hu, hp.symm⟩, fun hp => hp.2.symm⟩
  · rw [if_neg hu]
    exact ⟨nofun, fun hp => absurd hp.1 hu⟩

theorem authenticate_eq_ok {auth : Authenticator} {certificate : Option GoString}
    {mechanism response u : GoString}
    (h : authenticate auth certificate mechanism response = .ok u) :
    (∃ password, credentials response = some (u, password) ∧ auth u password = true) ∨
      (mechanism = str "EXTERNAL" ∧ certificate = some u) ∨
      (mechanism = str "AMQPLAIN" ∧ credentials response = some (str "guest", str "guest") ∧
        u = str "guest") := by
  unfold authenticate at h
  by_cases hplain : mechanism = str "PLAIN"
  · rw [if_pos hplain] at h
    cases hc : credentials response with
    | none => rw [hc] at h; cases h
    | some p =>
      rw [hc] at h
      dsimp only at h
      split at h
      · cases h
        exact Or.inl ⟨p.2, rfl, by assumption⟩
      · cases h
  · rw [if_neg hplain, sasl_get] at h
    by_cases hext : mechanism = str "EXTERNAL"
    · rw [if_pos hext] at h
      unfold Mechanism.response at h
      cases certificate with
      | none => cases h
      | some cn =>
        dsimp only at h
        by_cases hcn : cn = []
        · rw [if_pos hcn] at h; cases h
        · rw [if_neg hcn] at h
          cases h
          exact Or.inr (Or.inl ⟨hext, rfl⟩)
    · rw [if_neg hext] at h
      by_cases hamq : mechanism = str "AMQPLAIN"
      · rw [if_pos hamq] at h
        unfold Mechanism.response at h
        cases hc : credentials response with
        | none => rw [hc] at h; cases h
        | some p =>
          rw [hc] at h
          dsimp only at h
          by_cases hg : guestUsers.accepts p.1 p.2 = true
          · rw [if_pos hg] at h
            cases h
            obtain ⟨hu, hp⟩ := guestUsers_accepts.mp hg
            exact Or.inr (Or.inr ⟨hamq, congrArg some (Prod.ext hu hp), hu⟩)
          · rw [if_neg hg] at h; cases h
      · rw [if_neg hamq] at h; cases h

theorem authenticate_amqplain (auth : Authenticator) (certificate : Option GoString)
    {response : GoString} (h : credentials response = some (str "guest", str "guest")) :
    authenticate auth certificate (str "AMQPLAIN") response = .ok (str "guest") := by
  unfold authenticate Mechanism.response
  rw [if_neg (by decide), sasl_get, if_neg (by decide), if_pos rfl]
  dsimp only
  rw [h]
  dsimp only
  rw [if_pos (guestUsers_accepts.mpr ⟨rfl, rfl⟩)]

/-! ## Soundness -/

/-- Whoever gets through was accepted by the authenticator with the password of the Start-Ok, or
chose EXTERNAL and has a certificate for the name. -/
def Sound (env : Env) (auth : Authenticator) (peer : Peer) : Prop :=
  ∀ h, negotiate env auth peer = .ok h → ∃ startOk rest,
    nextFrame defaultBufSize frameMaxDefault (peer.stream.drop 8) = .ok (startOk, rest) ∧
      ((∃ password, credentials (startOkOf startOk.payload).2 = some (h.username, password) ∧
          auth h.username password = true) ∨
        ((startOkOf startOk.payload).1 = str "EXTERNAL" ∧ peer.certificate = some h.username))

def AmqplainGuest (peer : Peer) : Prop :=
  ∃ startOk, Completes peer startOk ∧ (startOkOf startOk.payload).1 = str "AMQPLAIN" ∧
    credentials (startOkOf startOk.payload).2 = some (str "guest", str "guest")

/-- The handshake is sound except for AMQPLAIN clients that are `guest` in its own table only. -/
theorem sound_iff (env : Env) (auth : Authenticator) (peer : Peer) :
    Sound env auth peer ↔ (auth (str "guest") (str "guest") = true ∨ ¬ AmqplainGuest peer) := by
  constructor
  · intro hsound
    by_contra hno
    obtain ⟨hauth, hamq⟩ := not_or.mp hno
    obtain ⟨f, hc, hmech, hcred⟩ := not_not.mp hamq
    have hok := authenticate_amqplain auth peer.certificate hcred
    rw [← hmech] at hok
    obtain ⟨h, hneg, hu⟩ := (negotiate_username env auth peer (str "guest")).mpr ⟨f, hc, hok⟩
    obtain ⟨f', rest, hf', hcase⟩ := hsound h hneg
    obtain ⟨-, -, r₁, -, -, hf, -⟩ := hc.frames
    cases hf.symm.trans hf'
    rcases hcase with ⟨p, hp, hacc⟩ | ⟨hext, -⟩
    · rw [hcred, hu] at hp
      cases hp
      rw [hu] at hacc
      exact hauth hacc
    · rw [hmech] at hext
      exact absurd hext (by decide)
  · intro hcond h hneg
    obtain ⟨f, hc, hok⟩ := (negotiate_username env auth peer h.username).mp ⟨h, hneg, rfl⟩
    obtain ⟨-, -, r₁, -, -, hf, -⟩ := hc.frames
    refine ⟨f, r₁, hf, ?_⟩
    rcases authenticate_eq_ok hok with hplain | hext | ⟨hmech, hcred, hu⟩
    · exact Or.inl hplain
    · exact Or.inr hext
    · rcases hcond with hauth | hnot
      · exact Or.inl ⟨str "guest", by rw [hu]; exact hcred, by rw [hu]; exact hauth⟩
      · exact absurd ⟨f, hc, hmech, hcred⟩ hnot

/-! ## A client that the authenticator does not know -/

def frameBytes (payload : Bytes) : Bytes :=
  [frameMethod, 0, 0] ++ writeUint32 (UInt32.ofNat payload.length) ++ payload ++ [frameEnd]

def amqplainGuest : Peer where
  stream := str "AMQP" ++ [0, 0, 9, 1] ++
    frameBytes (Server.methodPayload 10 11 (writeUint32 0 ++ writeString (str "AMQPLAIN") ++
      writeString ([0] ++ str "guest" ++ [0] ++ str "guest"))) ++
    frameBytes (Server.methodPayload 10 31 [0, 0, 0, 0, 0, 0, 0, 0]) ++
    frameBytes (Server.methodPayload 10 41 [])
  startSent := true
  tuneSent := true
  openSent := true
  certificate := none

/-- It gets through although the authenticator accepts nobody. -/
theorem amqplainGuest_not_sound :
    (negotiate default (fun _ _ => false) amqplainGuest).toOption.map (·.username) =
        some (str "guest") ∧
      ¬ Sound default (fun _ _ => false) amqplainGuest := by
  have huser : (negotiate default (fun _ _ => false) amqplainGuest).toOption.map (·.username) =
      some (str "guest") := by decide
  refine ⟨huser, fun hsound => ?_⟩
  cases hneg : negotiate default (fun _ _ => false) amqplainGuest with
  | error e => rw [hneg] at huser; cases huser
  | ok h =>
    obtain ⟨f, rest, -, ⟨p, -, hacc⟩ | ⟨-, hcert⟩⟩ := hsound h hneg
    · cases hacc
    · cases hcert

end Gomq.Auth

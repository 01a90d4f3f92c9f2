import Gomq.Auth.Soundness
import Gomq.Broker.ChannelLimit
import Gomq.Wire.Framing

/-!
# The limits of the handshake

The Tune-Ok of a client can lower the greatest frame and the highest channel number, and the
handshake computes the lower values (`negotiate_ok`). Nobody reads them afterwards: the frame loop
makes its framer with the default limit, and the channel manager keeps the one it was made with.
What bounds a frame in effect is the buffer of the reader, so the limits are honoured exactly if the
client asks for none that is below the 4088 bytes of payload that fit in the buffer, and for none
below 2048 channels (`limits_honoured_iff`).
-/

namespace Gomq.Auth

open Wire Broker

/-! ## What was agreed -/

def offered : TuneParams := (newHandshaker []).tune

def clientChannelMax (tuneOk : Frame) : UInt16 := (readUint16 (argsOf tuneOk.payload)).val

def clientFrameMax (tuneOk : Frame) : UInt32 :=
  (readUint32 (readUint16 (argsOf tuneOk.payload)).rest).val

/-- The smaller of the two limits, where 0 is no limit of the client. -/
def agreed (server client : ℕ) : ℕ := if client = 0 then server else min server client

theorem TuneParams.channelMax_lower (t : TuneParams) (tuneOk : Frame) :
    (t.lower (argsOf tuneOk.payload)).channelMax.toNat =
      agreed t.channelMax.toNat (clientChannelMax tuneOk).toNat := by
  show UInt16.toNat (if 0 < clientChannelMax tuneOk ∧ clientChannelMax tuneOk < t.channelMax
    then clientChannelMax tuneOk else t.channelMax) = _
  simp only [UInt16.lt_iff_toNat_lt, UInt16.toNat_zero, agreed]
  split_ifs <;> omega

theorem TuneParams.frameMax_lower (t : TuneParams) (tuneOk : Frame) :
    (t.lower (argsOf tuneOk.payload)).frameMax.toNat =
      agreed t.frameMax.toNat (clientFrameMax tuneOk).toNat := by
  show UInt32.toNat (if 0 < clientFrameMax tuneOk ∧ clientFrameMax tuneOk < t.frameMax
    then clientFrameMax tuneOk else t.frameMax) = _
  simp only [UInt32.lt_iff_toNat_lt, UInt32.toNat_zero, agreed]
  split_ifs <;> omega

/-! ## What is enforced -/

/-- The connection that is accepted after the events `before`. -/
def acceptedAt (before : List ManagedEvent) : ConnRef :=
  (before.foldl managedStep newServer).conns.next

/-- The broker when a connection was accepted between the events `before` and `after`. -/
def brokerAfter (h : Handshaker) (before after : List ManagedEvent) : Server :=
  after.foldl managedStep
    (managedStep (before.foldl managedStep newServer) (.system (.accept h.username h.vhost)))

/-- On the connection that the handshake is for, the frame loop takes no frame with a greater
payload, whatever it is sent, and at no point of a run can a channel with a higher number be
created. -/
structure Honoured (h : Handshaker) (frameMax channelMax : ℕ) : Prop where
  frames : ∀ n bs, ∀ f ∈ (readFrames n bs).1, f.payload.length ≤ frameMax
  channels : ∀ before after id s',
    (brokerAfter h before after).createChannel (acceptedAt before) id = .ok s' →
      id.toNat ≤ channelMax

theorem frames_le_iff (limit : ℕ) :
    (∀ n bs, ∀ f ∈ (readFrames n bs).1, f.payload.length ≤ limit) ↔
      defaultBufSize ≤ 7 + limit + 1 := by
  constructor
  · intro hle
    by_contra hsmall
    let f : Frame := ⟨frameBody, 1, List.replicate (limit + 1) 0⟩
    have hlen : f.payload.length = limit + 1 := List.length_replicate
    have hbuf : defaultBufSize ≤ frameMaxDefault := by decide
    have hvalid : ∀ g ∈ [f], g.Valid := by
      simp only [List.mem_singleton, forall_eq]
      exact ⟨rfl, by rw [hlen]; omega⟩
    have hfits : f.fits = true := by
      simp only [Frame.fits, hlen, decide_eq_true_eq]
      omega
    obtain ⟨bs, henc⟩ := encodeFrames_valid hvalid
    have hread := readFrames_encodeFrames hvalid henc
    rw [List.takeWhile_cons, hfits] at hread
    have hmem : f ∈ (readFrames 2 bs).1 := by
      rw [show readFrames 2 bs = _ from hread]
      exact List.mem_cons_self
    have := hle 2 bs f hmem
    omega
  · intro hlimit n bs f hf
    have hfits : 7 + f.payload.length + 1 ≤ defaultBufSize := by
      simpa [Frame.fits] using readFrames_fits n bs f hf
    omega

theorem allows2048_newServer : Allows2048 newServer := fun _ => rfl

theorem channels_le_iff (h : Handshaker) (limit : ℕ) :
    (∀ before after id s',
      (brokerAfter h before after).createChannel (acceptedAt before) id = .ok s' →
        id.toNat ≤ limit) ↔ 2048 ≤ limit := by
  constructor
  · intro hle
    -- the highest number, on a connection that was just accepted
    have hnew : (brokerAfter h [] []).conns.read (acceptedAt []) =
        negotiated h.username h.vhost := Heap.read_alloc_self _ _
    have hmax : 2048 ≤ ((brokerAfter h [] []).conns.read (acceptedAt [])).maxCh := by
      rw [hnew]; exact UInt16.le_refl _
    have hfree : ((brokerAfter h [] []).conns.read (acceptedAt [])).channels.get 2048 = none := by
      rw [hnew]; rfl
    obtain ⟨s', ch, hcreate, -⟩ := Server.createChannel_free (by decide) hmax hfree
    exact hle [] [] 2048 s' hcreate
  · intro hlimit before after id s' hcreate
    have hrun := (run_allows2048 allows2048_newServer before).managedStep
      (.system (.accept h.username h.vhost))
    have hmax := createChannel_le hcreate
    rw [brokerAfter, run_allows2048 hrun after] at hmax
    exact (UInt16.le_iff_toNat_le.mp hmax).trans hlimit

theorem honoured_iff (h : Handshaker) (frameMax channelMax : ℕ) :
    Honoured h frameMax channelMax ↔
      defaultBufSize ≤ 7 + frameMax + 1 ∧ 2048 ≤ channelMax := by
  rw [← frames_le_iff, ← channels_le_iff h]
  exact ⟨fun ⟨hf, hc⟩ => ⟨hf, hc⟩, fun ⟨hf, hc⟩ => ⟨hf, hc⟩⟩

theorem le_agreed_iff {bound server client : ℕ} (h : bound ≤ server) :
    bound ≤ agreed server client ↔ client = 0 ∨ bound ≤ client := by
  unfold agreed
  split <;> omega

/-- The agreed limits hold on the connection exactly if the client's frame-max is 0 or leaves the
whole buffer, and its channel-max is 0 or does not lower the limit of 2048. -/
theorem limits_honoured_iff {env : Env} {auth : Authenticator} {peer : Peer} {h : Handshaker}
    (hneg : negotiate env auth peer = .ok h) :
    ∃ tuneOk, TuneOkOf peer tuneOk ∧
      h.tune.frameMax.toNat =
        agreed offered.frameMax.toNat (clientFrameMax tuneOk).toNat ∧
      h.tune.channelMax.toNat =
        agreed offered.channelMax.toNat (clientChannelMax tuneOk).toNat ∧
      (Honoured h (agreed offered.frameMax.toNat (clientFrameMax tuneOk).toNat)
          (agreed offered.channelMax.toNat (clientChannelMax tuneOk).toNat) ↔
        ((clientFrameMax tuneOk).toNat = 0 ∨
          defaultBufSize ≤ 7 + (clientFrameMax tuneOk).toNat + 1) ∧
        ((clientChannelMax tuneOk).toNat = 0 ∨ 2048 ≤ (clientChannelMax tuneOk).toNat)) := by
  obtain ⟨f, tuneOk, -, -, hof, htune⟩ := negotiate_ok hneg
  rw [show (newHandshaker []).tune = offered from rfl] at htune
  refine ⟨tuneOk, hof, ?_, ?_, ?_⟩
  · rw [htune, TuneParams.frameMax_lower]
  · rw [htune, TuneParams.channelMax_lower]
  · have hframe : offered.frameMax.toNat = 131072 := rfl
    have hbuf : defaultBufSize = 4096 := rfl
    rw [honoured_iff, le_agreed_iff (show 2048 ≤ offered.channelMax.toNat from le_refl _),
      hframe, hbuf]
    refine and_congr_left' ?_
    unfold agreed
    split <;> omega

/-! ## A client with low limits -/

def lowLimits : Peer :=
  { amqplainGuest with
    stream := str "AMQP" ++ [0, 0, 9, 1] ++
      frameBytes (Server.methodPayload 10 11 (writeUint32 0 ++ writeString (str "PLAIN") ++
        writeString ([0] ++ str "guest" ++ [0] ++ str "guest"))) ++
      frameBytes (Server.methodPayload 10 31 (writeUint16 1 ++ writeUint32 1000 ++
        writeUint16 0)) ++
      frameBytes (Server.methodPayload 10 41 []) }

theorem negotiate_lowLimits :
    ∃ h, negotiate default newMemoryAuthenticator lowLimits = .ok h ∧ h.tune = ⟨1, 1000, 60⟩ := by
  have htune : (negotiate default newMemoryAuthenticator lowLimits).toOption.map (·.tune) =
      some ⟨1, 1000, 60⟩ := by decide
  cases hneg : negotiate default newMemoryAuthenticator lowLimits with
  | error e => rw [hneg] at htune; cases htune
  | ok h =>
    rw [hneg] at htune
    exact ⟨h, rfl, Option.some.inj htune⟩

theorem limits_honoured_iff_lowLimits :
    ∃ h, negotiate default newMemoryAuthenticator lowLimits = .ok h ∧
      ∃ tuneOk, TuneOkOf lowLimits tuneOk ∧
        h.tune.frameMax.toNat =
          agreed offered.frameMax.toNat (clientFrameMax tuneOk).toNat ∧
        h.tune.channelMax.toNat =
          agreed offered.channelMax.toNat (clientChannelMax tuneOk).toNat ∧
        (Honoured h (agreed offered.frameMax.toNat (clientFrameMax tuneOk).toNat)
            (agreed offered.channelMax.toNat (clientChannelMax tuneOk).toNat) ↔
          ((clientFrameMax tuneOk).toNat = 0 ∨
            defaultBufSize ≤ 7 + (clientFrameMax tuneOk).toNat + 1) ∧
          ((clientChannelMax tuneOk).toNat = 0 ∨ 2048 ≤ (clientChannelMax tuneOk).toNat)) := by
  obtain ⟨h, hneg, -⟩ := negotiate_lowLimits
  exact ⟨h, hneg, limits_honoured_iff hneg⟩

/-- The handshake agrees on 1000 bytes and one channel, and the connection takes longer frames and
more channels all the same. -/
theorem lowLimits_not_honoured :
    ∃ h, negotiate default newMemoryAuthenticator lowLimits = .ok h ∧ h.tune = ⟨1, 1000, 60⟩ ∧
      ¬ Honoured h 1000 1 := by
  obtain ⟨h, hneg, htune⟩ := negotiate_lowLimits
  refine ⟨h, hneg, htune, fun hon => ?_⟩
  obtain ⟨-, hchannels⟩ := (honoured_iff h 1000 1).mp hon
  omega

end Gomq.Auth

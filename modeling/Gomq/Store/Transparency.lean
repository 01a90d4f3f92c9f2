import Gomq.Store.Extended

/-!
# What compression changes

`DequeueExt` takes every stored payload for a compressed one and keeps the result if it is longer.
A payload that was stored as it is and happens to be a zlib stream of something longer comes back
decompressed (`payload_kept_iff`). Each time a message is wrapped anew, everything but its payload
and its properties is lost (`metadata_kept_iff`).
-/

namespace Gomq.Store

open Wire Broker ExtendedMessageStore

def StoreOptions.PagingOff (opts : StoreOptions) : Prop :=
  opts.maxInMemoryMessages ≤ 0 ∨ opts.pageDir = []

def Compresses (z : Zlib) (opts : StoreOptions) (payload : Bytes) : Prop :=
  opts.compressionThreshold ≤ payload.length ∧ (z.compress payload).length < payload.length

/-- The payload is a stream of something longer than itself. -/
def Inflates (z : Zlib) (payload : Bytes) : Prop :=
  ∃ data, z.decompress payload = some data ∧ payload.length < data.length

/-- `EnqueueExt` of a message, then `DequeueExt`, on a new store with these options. -/
def throughStore (z : Zlib) (base : GoMap GoString (List Message)) (disk : Disk)
    (opts : StoreOptions) (queueName : GoString) (msg : Message) : Option Message :=
  let es := newExtendedMessageStore base disk opts
  (((es.enqueueExt z none queueName msg).2).dequeueExt z queueName).1

section ThroughStore

variable {z : Zlib} {base : GoMap GoString (List Message)} {disk : Disk} {opts : StoreOptions}
  {queueName : GoString}

theorem throughStore_eq (hpage : opts.PagingOff) (hempty : base.getD queueName [] = [])
    (msg : Message) :
    throughStore z base disk opts queueName msg =
      some ((newExtendedMessageStore base disk opts).unpacked z
        ((newExtendedMessageStore base disk opts).packed z msg)) := by
  have hpager : (newExtendedMessageStore base disk opts).pager = none := by
    refine if_neg ?_
    rintro ⟨hmax, hdir⟩
    rcases hpage with h | h
    · omega
    · exact hdir h
  have hmem : (newExtendedMessageStore base disk opts).inMemory queueName = [] := hempty
  unfold throughStore
  dsimp only
  rw [enqueueExt_of_noPager hpager,
    dequeueExt_of_cons (by
      rw [inMemory_enqueue_self, hmem, List.nil_append])]
  rfl

variable (z base disk opts) in
theorem packed_eq (msg : Message) :
    (newExtendedMessageStore base disk opts).packed z msg =
      if 0 < opts.compressionThreshold ∧ opts.compressionThreshold ≤ msg.payload.length ∧
          (z.compress msg.payload).length < msg.payload.length
      then rewrap (z.compress msg.payload) msg else msg := by
  unfold packed newExtendedMessageStore
  by_cases hon : 0 < opts.compressionThreshold
  · by_cases hlong : opts.compressionThreshold ≤ msg.payload.length
    · have hc : (newCompressor opts.compressionThreshold).compress z msg.payload =
          z.compress msg.payload := by
        refine if_neg ?_
        simp only [newCompressor]
        omega
      simp [hon, hlong, hc]
    · simp [hon, hlong]
  · simp [hon]

variable (z base disk opts) in
theorem unpacked_eq_self (msg : Message)
    (h : opts.compressionThreshold ≤ 0 ∨ ¬Inflates z msg.payload) :
    (newExtendedMessageStore base disk opts).unpacked z msg = msg := by
  unfold unpacked newExtendedMessageStore
  by_cases hon : 0 < opts.compressionThreshold
  · have hstream : ¬Inflates z msg.payload := h.resolve_left (by omega)
    simp only [hon, if_true, Compressor.decompress]
    cases hd : z.decompress msg.payload with
    | none => rfl
    | some data =>
      have hshort : ¬msg.payload.length < data.length := fun hlt => hstream ⟨data, hd, hlt⟩
      simp [hshort]
  · simp [hon]

variable (base disk) in
theorem unpacked_of_inflates (hon : 0 < opts.compressionThreshold) {msg : Message} {data : Bytes}
    (hd : z.decompress msg.payload = some data) (hlong : msg.payload.length < data.length) :
    (newExtendedMessageStore base disk opts).unpacked z msg = rewrap data msg := by
  unfold unpacked newExtendedMessageStore
  simp [hon, Compressor.decompress, hd, hlong]

theorem throughStore_of_compresses (hpage : opts.PagingOff) (hempty : base.getD queueName [] = [])
    {msg : Message} (hon : 0 < opts.compressionThreshold) (h : Compresses z opts msg.payload) :
    throughStore z base disk opts queueName msg =
      some (newMessage msg.payload msg.properties) := by
  rw [throughStore_eq hpage hempty, packed_eq, if_pos ⟨hon, h⟩,
    unpacked_of_inflates base disk hon (z.decompress_compress msg.payload) h.2]
  rfl

theorem throughStore_of_inflates (hpage : opts.PagingOff) (hempty : base.getD queueName [] = [])
    {msg : Message} (hon : 0 < opts.compressionThreshold) (h : ¬Compresses z opts msg.payload)
    {data : Bytes} (hd : z.decompress msg.payload = some data)
    (hlong : msg.payload.length < data.length) :
    throughStore z base disk opts queueName msg = some (newMessage data msg.properties) := by
  rw [throughStore_eq hpage hempty, packed_eq, if_neg (fun hc => h hc.2),
    unpacked_of_inflates base disk hon hd hlong]
  rfl

theorem throughStore_of_plain (hpage : opts.PagingOff) (hempty : base.getD queueName [] = [])
    {msg : Message}
    (h : opts.compressionThreshold ≤ 0 ∨
      ¬Compresses z opts msg.payload ∧ ¬Inflates z msg.payload) :
    throughStore z base disk opts queueName msg = some msg := by
  have hpacked : (newExtendedMessageStore base disk opts).packed z msg = msg := by
    rw [packed_eq]
    refine if_neg ?_
    rintro ⟨hon, hc⟩
    rcases h with h | h
    · omega
    · exact h.1 hc
  rw [throughStore_eq hpage hempty, hpacked, unpacked_eq_self z base disk opts msg]
  exact h.imp_right And.right

theorem throughStore_cases (hpage : opts.PagingOff) (hempty : base.getD queueName [] = [])
    (msg : Message) :
    ((opts.compressionThreshold ≤ 0 ∨ ¬Compresses z opts msg.payload ∧ ¬Inflates z msg.payload) ∧
        throughStore z base disk opts queueName msg = some msg) ∨
      ((0 < opts.compressionThreshold ∧ Compresses z opts msg.payload) ∧
        throughStore z base disk opts queueName msg =
          some (newMessage msg.payload msg.properties)) ∨
      ((0 < opts.compressionThreshold ∧ ¬Compresses z opts msg.payload ∧ Inflates z msg.payload) ∧
        ∃ data, msg.payload.length < data.length ∧
          throughStore z base disk opts queueName msg = some (newMessage data msg.properties)) := by
  by_cases hoff : opts.compressionThreshold ≤ 0
  · exact .inl ⟨.inl hoff, throughStore_of_plain hpage hempty (.inl hoff)⟩
  · have hon : 0 < opts.compressionThreshold := not_le.mp hoff
    by_cases hc : Compresses z opts msg.payload
    · exact .inr (.inl ⟨⟨hon, hc⟩, throughStore_of_compresses hpage hempty hon hc⟩)
    · by_cases hi : Inflates z msg.payload
      · obtain ⟨data, hd, hlong⟩ := id hi
        exact .inr (.inr ⟨⟨hon, hc, hi⟩, data, hlong,
          throughStore_of_inflates hpage hempty hon hc hd hlong⟩)
      · exact .inl ⟨.inr ⟨hc, hi⟩, throughStore_of_plain hpage hempty (.inr ⟨hc, hi⟩)⟩

end ThroughStore

/-! ## Payloads -/

/-- A payload comes back as it was enqueued if and only if compression is off, it is stored
compressed, or it is not itself a stream of something longer. -/
theorem payload_kept_iff (z : Zlib) (base : GoMap GoString (List Message)) (disk : Disk)
    (opts : StoreOptions) (hpage : opts.PagingOff) (queueName : GoString)
    (hempty : base.getD queueName [] = []) (msg : Message) :
    (∃ out, throughStore z base disk opts queueName msg = some out ∧
        out.payload = msg.payload) ↔
      opts.compressionThreshold ≤ 0 ∨ Compresses z opts msg.payload ∨
        ¬Inflates z msg.payload := by
  rcases throughStore_cases hpage hempty msg with
    ⟨h, heq⟩ | ⟨⟨-, hc⟩, heq⟩ | ⟨⟨hon, hc, hi⟩, data, hlong, heq⟩
  · rw [heq]
    exact iff_of_true ⟨_, rfl, rfl⟩ (h.imp_right fun h => .inr h.2)
  · rw [heq]
    exact iff_of_true ⟨_, rfl, rfl⟩ (.inr (.inl hc))
  · rw [heq]
    constructor
    · -- something longer is not what was enqueued
      rintro ⟨out, hout, hpayload⟩
      obtain rfl := Option.some.inj hout
      have : data.length = msg.payload.length := congrArg List.length hpayload
      omega
    · rintro (h | h | h)
      · omega
      · exact absurd h hc
      · exact absurd hi h

/-- Two bytes that are no stream, below the threshold. -/
theorem payload_kept_short :
    (StoreOptions.mk 1024 0 []).PagingOff ∧
      (∅ : GoMap GoString (List Message)).getD (str "q") [] = [] ∧
      zerosCodec.decompress [1, 9] = none ∧
      ∃ out, throughStore zerosCodec ∅ ∅ ⟨1024, 0, []⟩ (str "q") (newMessage [1, 9] {}) =
          some out ∧ out.payload = [1, 9] := by
  refine ⟨.inl (le_refl 0), rfl, rfl, ?_⟩
  refine (payload_kept_iff zerosCodec ∅ ∅ ⟨1024, 0, []⟩ (.inl (le_refl 0)) (str "q") rfl
    (newMessage [1, 9] {})).mpr (.inr (.inr ?_))
  rintro ⟨data, hd, -⟩
  cases hd

/-- Whatever a codec makes shorter is lost when its compressed form is itself a payload below the
threshold; so the stream of a hundred zeros. -/
theorem stream_returned_inflated :
    (∀ (z : Zlib) (data : Bytes), (z.compress data).length < data.length →
      throughStore z ∅ ∅ ⟨(z.compress data).length + 1, 0, []⟩ (str "q")
          (newMessage (z.compress data) {}) = some (newMessage data {}) ∧
        data ≠ z.compress data) ∧
      throughStore zerosCodec ∅ ∅ ⟨1024, 0, []⟩ (str "q") (newMessage zerosStream {}) =
        some (newMessage hundredZeros {}) ∧
      hundredZeros ≠ zerosStream := by
  refine ⟨fun z data hlen => ⟨?_, ?_⟩, ?_, by decide⟩
  · refine throughStore_of_inflates (.inl (le_refl 0)) rfl (by simp) ?_
      (z.decompress_compress data) hlen
    intro hc
    have hlong := hc.1
    simp only [newMessage] at hlong
    omega
  · intro heq
    rw [← heq] at hlen
    omega
  · refine throughStore_of_inflates (.inl (le_refl 0)) rfl (by decide) ?_ rfl (by decide)
    intro hc
    exact absurd hc.1 (by decide)

/-! ## Metadata -/

def SameMetadata (m m' : Message) : Prop :=
  m.properties = m'.properties ∧ m.deliveryTag = m'.deliveryTag ∧ m.enqueuedAt = m'.enqueuedAt ∧
    m.exchange = m'.exchange ∧ m.routingKey = m'.routingKey

/-- The fields that `NewMessage` leaves at their zero values have these values. -/
def Unmarked (msg : Message) : Prop :=
  msg.deliveryTag = 0 ∧ msg.enqueuedAt = none ∧ msg.exchange = [] ∧ msg.routingKey = []

theorem sameMetadata_newMessage_iff (payload : Bytes) (msg : Message) :
    SameMetadata (newMessage payload msg.properties) msg ↔ Unmarked msg := by
  simp only [SameMetadata, Unmarked, newMessage, true_and]
  constructor
  · rintro ⟨htag, htime, hex, hkey⟩
    exact ⟨htag.symm, htime.symm, hex.symm, hkey.symm⟩
  · rintro ⟨htag, htime, hex, hkey⟩
    exact ⟨htag.symm, htime.symm, hex.symm, hkey.symm⟩

/-- A message comes back with its properties, delivery tag, enqueue time, exchange and routing key
if and only if compression is off, its payload is neither compressed nor itself a stream of
something longer, or there is nothing in these fields to lose. -/
theorem metadata_kept_iff (z : Zlib) (base : GoMap GoString (List Message)) (disk : Disk)
    (opts : StoreOptions) (hpage : opts.PagingOff) (queueName : GoString)
    (hempty : base.getD queueName [] = []) (msg : Message) :
    (∃ out, throughStore z base disk opts queueName msg = some out ∧ SameMetadata out msg) ↔
      opts.compressionThreshold ≤ 0 ∨
        (¬Compresses z opts msg.payload ∧ ¬Inflates z msg.payload) ∨ Unmarked msg := by
  have hwrapped : ∀ payload, (∃ out, some (newMessage payload msg.properties) = some out ∧
      SameMetadata out msg) ↔ Unmarked msg := by
    intro payload
    rw [← sameMetadata_newMessage_iff payload msg]
    constructor
    · rintro ⟨out, hout, hsame⟩
      obtain rfl := Option.some.inj hout
      exact hsame
    · exact fun hsame => ⟨_, rfl, hsame⟩
  rcases throughStore_cases hpage hempty msg with
    ⟨h, heq⟩ | ⟨⟨hon, hc⟩, heq⟩ | ⟨⟨hon, hc, hi⟩, data, -, heq⟩
  · rw [heq]
    exact iff_of_true ⟨msg, rfl, rfl, rfl, rfl, rfl, rfl⟩ (h.imp_right .inl)
  · rw [heq, hwrapped]
    simp [not_le.mpr hon, hc]
  · rw [heq, hwrapped]
    simp [not_le.mpr hon, hi]

/-- A message with a tag, a time, an exchange and a routing key. -/
def marked (payload : Bytes) : Message where
  payload := payload
  properties := {}
  exchange := str "ex"
  routingKey := str "rk"
  deliveryTag := 7
  enqueuedAt := some 5

theorem metadata_kept_short :
    (StoreOptions.mk 1024 0 []).PagingOff ∧
      (∅ : GoMap GoString (List Message)).getD (str "q") [] = [] ∧
      zerosCodec.decompress [1, 9] = none ∧
      ∃ out, throughStore zerosCodec ∅ ∅ ⟨1024, 0, []⟩ (str "q") (marked [1, 9]) = some out ∧
        SameMetadata out (marked [1, 9]) := by
  refine ⟨.inl (le_refl 0), rfl, rfl, ?_⟩
  refine (metadata_kept_iff zerosCodec ∅ ∅ ⟨1024, 0, []⟩ (.inl (le_refl 0)) (str "q") rfl
    (marked [1, 9])).mpr (.inr (.inl ⟨fun hc => absurd hc.1 (by decide), ?_⟩))
  rintro ⟨data, hd, -⟩
  cases hd

/-- A message whose payload is compressed, by whatever codec, comes back without delivery tag,
enqueue time, exchange and routing key. So does one whose payload is a stream below the threshold,
which is not compressed but inflated. -/
theorem metadata_lost :
    (∀ (z : Zlib) (msg : Message) (threshold : ℤ), 0 < threshold →
      threshold ≤ msg.payload.length → (z.compress msg.payload).length < msg.payload.length →
      ¬Unmarked msg →
        throughStore z ∅ ∅ ⟨threshold, 0, []⟩ (str "q") msg =
            some (newMessage msg.payload msg.properties) ∧
          ¬SameMetadata (newMessage msg.payload msg.properties) msg) ∧
      throughStore zerosCodec ∅ ∅ ⟨1024, 0, []⟩ (str "q") (marked zerosStream) =
        some (newMessage hundredZeros {}) ∧
      ¬SameMetadata (newMessage hundredZeros {}) (marked zerosStream) := by
  refine ⟨fun z msg threshold hon hlong hlen hmarked => ⟨?_, ?_⟩, ?_, ?_⟩
  · exact throughStore_of_compresses (.inl (le_refl 0)) rfl hon ⟨hlong, hlen⟩
  · rwa [sameMetadata_newMessage_iff]
  · refine throughStore_of_inflates (.inl (le_refl 0)) rfl (by decide) ?_ rfl (by decide)
    exact fun hc => absurd hc.1 (by decide)
  · exact fun hsame => absurd hsame.2.1 (by decide)

end Gomq.Store

import Gomq.Store.PageFile

/-!
# The extended message store

`ExtendedMessageStore` puts compression and paging around the message store. Zlib is not part of
the repository: `Zlib` is any pair of functions of which the second undoes the first. The store
keeps no note of which payloads it has compressed.
-/

namespace Gomq.Store

open Wire Broker

/-! ## Compressor -/

/-- `compress/zlib`: a writer on a buffer does not fail, a reader fails on what is no stream. -/
structure Zlib where
  compress : Bytes → Bytes
  decompress : Bytes → Option Bytes
  decompress_compress : ∀ data, decompress (compress data) = some data

def hundredZeros : Bytes := List.replicate 100 0

/-- A zlib stream of a hundred zeros: header, one deflate block, checksum. -/
def zerosStream : Bytes :=
  [0x78, 0x9c, 0x63, 0x60, 0xa0, 0x3d, 0x00, 0x00, 0x00, 0x64, 0x00, 0x01]

/-- A codec for fixed inputs. It inflates this stream, as zlib does, and like zlib it refuses what
has no header; any other data it marks with a byte that begins no stream. -/
def zerosCodec : Zlib where
  compress data := if data = hundredZeros then zerosStream else 0 :: data
  decompress data :=
    if data = zerosStream then some hundredZeros
    else match data with
      | 0 :: data => some data
      | _ => none
  decompress_compress := by
    intro data
    by_cases hzeros : data = hundredZeros
    · rw [if_pos hzeros, if_pos rfl, hzeros]
    · rw [if_neg hzeros, if_neg (by simp [zerosStream])]
      rfl

structure Compressor where
  threshold : ℤ

def newCompressor (threshold : ℤ) : Compressor := ⟨threshold⟩

def Compressor.compress (z : Zlib) (c : Compressor) (data : Bytes) : Bytes :=
  if c.threshold ≤ 0 ∨ (data.length : ℤ) < c.threshold then data else z.compress data

def Compressor.decompress (z : Zlib) (_ : Compressor) (data : Bytes) : Option Bytes :=
  z.decompress data

/-! ## Store -/

structure StoreOptions where
  compressionThreshold : ℤ
  maxInMemoryMessages : ℤ
  pageDir : GoString

structure ExtendedMessageStore where
  queues : GoMap GoString (List Message)
  compressor : Option Compressor
  pager : Option PageManager
  opts : StoreOptions
  disk : Disk

def newExtendedMessageStore (base : GoMap GoString (List Message)) (disk : Disk)
    (opts : StoreOptions) : ExtendedMessageStore where
  queues := base
  compressor :=
    if 0 < opts.compressionThreshold then some (newCompressor opts.compressionThreshold) else none
  pager :=
    if 0 < opts.maxInMemoryMessages ∧ opts.pageDir ≠ [] then some (newPageManager opts.pageDir)
    else none
  opts := opts
  disk := disk

/-- `NewMessage` and the setters after it, as both directions have them: the variable has been
assigned the new message when its fields are read. -/
def rewrap (payload : Bytes) (msg : Message) : Message :=
  let msg := newMessage payload msg.properties
  let msg := msg.setDeliveryTag msg.deliveryTag
  let msg := msg.setEnqueuedAt msg.enqueuedAt
  msg.setRoutingMeta msg.exchange msg.routingKey

namespace ExtendedMessageStore

def inMemory (es : ExtendedMessageStore) (queueName : GoString) : List Message :=
  es.queues.getD queueName []

def enqueue (es : ExtendedMessageStore) (queueName : GoString) (msg : Message) :
    ExtendedMessageStore :=
  { es with queues := es.queues.set queueName (es.inMemory queueName ++ [msg]) }

def dequeue (es : ExtendedMessageStore) (queueName : GoString) :
    Option Message × ExtendedMessageStore :=
  match es.inMemory queueName with
  | [] => (none, es)
  | msg :: q => (some msg, { es with queues := es.queues.set queueName q })

def packed (z : Zlib) (es : ExtendedMessageStore) (msg : Message) : Message :=
  match es.compressor with
  | none => msg
  | some c =>
    if es.opts.compressionThreshold ≤ msg.payload.length then
      let compressed := c.compress z msg.payload
      if compressed.length < msg.payload.length then rewrap compressed msg else msg
    else msg

def unpacked (z : Zlib) (es : ExtendedMessageStore) (msg : Message) : Message :=
  match es.compressor with
  | none => msg
  | some c =>
    match c.decompress z msg.payload with
    | none => msg
    | some decompressed =>
      if msg.payload.length < decompressed.length then rewrap decompressed msg else msg

/-- `pageOldest`: the queue is cut before the page is written. -/
def pageOldest (fault : Option Fault) (es : ExtendedMessageStore) (pm : PageManager)
    (queueName : GoString) : Option StoreError × ExtendedMessageStore :=
  let q := es.inMemory queueName
  if (q.length : ℤ) ≤ es.opts.maxInMemoryMessages then (none, es)
  else
    let split := q.length / 2
    let es := { es with queues := es.queues.set queueName (q.drop split) }
    match pm.flush fault queueName (q.take split) es.disk with
    | (.error e, pm, disk) => (some e, { es with pager := some pm, disk := disk })
    | (.ok _, pm, disk) => (none, { es with pager := some pm, disk := disk })

def enqueueExt (z : Zlib) (fault : Option Fault) (es : ExtendedMessageStore)
    (queueName : GoString) (msg : Message) : Option StoreError × ExtendedMessageStore :=
  let es := es.enqueue queueName (es.packed z msg)
  match es.pager with
  | none => (none, es)
  | some pm =>
    if es.opts.maxInMemoryMessages < (es.inMemory queueName).length then
      es.pageOldest fault pm queueName
    else (none, es)

def dequeueExt (z : Zlib) (es : ExtendedMessageStore) (queueName : GoString) :
    Option Message × ExtendedMessageStore :=
  match es.dequeue queueName with
  | (none, es) => (none, es)
  | (some msg, es) => (some (es.unpacked z msg), es)

def loadPage (fault : Option Fault) (es : ExtendedMessageStore) (queueName : GoString)
    (pagePath : PagePath) : Option StoreError × ExtendedMessageStore :=
  match es.pager with
  | none => (some .pagingNotEnabled, es)
  | some _ =>
    match load fault pagePath es.disk with
    | (.error e, disk) => (some e, { es with disk := disk })
    | (.ok msgs, disk) =>
      (none, msgs.foldl (fun es m => es.enqueue queueName m) { es with disk := disk })

section Memory

variable {es : ExtendedMessageStore} {queueName : GoString}

@[simp] theorem inMemory_enqueue_self (msg : Message) :
    (es.enqueue queueName msg).inMemory queueName = es.inMemory queueName ++ [msg] :=
  GoMap.getD_set_self _ _ _ _

@[simp] theorem inMemory_enqueue_ne {other : GoString} (h : other ≠ queueName) (msg : Message) :
    (es.enqueue queueName msg).inMemory other = es.inMemory other :=
  GoMap.getD_set_ne h

theorem enqueueExt_of_noPager (h : es.pager = none) (z : Zlib) (fault : Option Fault)
    (msg : Message) :
    es.enqueueExt z fault queueName msg = (none, es.enqueue queueName (es.packed z msg)) := by
  unfold enqueueExt
  have hpager : (es.enqueue queueName (es.packed z msg)).pager = none := h
  dsimp only
  rw [hpager]

theorem dequeueExt_of_cons {msg : Message} {q : List Message}
    (h : es.inMemory queueName = msg :: q) (z : Zlib) :
    es.dequeueExt z queueName =
      (some (es.unpacked z msg), { es with queues := es.queues.set queueName q }) := by
  unfold dequeueExt dequeue
  rw [h]
  rfl

end Memory

end ExtendedMessageStore

end Gomq.Store

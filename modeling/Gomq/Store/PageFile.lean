import Gomq.Broker.Message
import Gomq.Wire.Reads
import Gomq.Lib.GoMap

/-!
# Page files

A page file is a sequence of records. A record has the payload, the content type, the delivery tag
and the enqueue time of a message, each text with its length in four bytes before it; nothing else
of the message is written. The file system is a map from paths to contents, and `Fault` is what may
go wrong with it during one call.
-/

namespace Gomq.Store

open Wire Broker

/-! ## Records -/

/-- `UnixNano`; the zero time lies outside of what 64 bits hold and comes out wrapped. -/
def unixNano : Time → Int64
  | some t => Int64.ofNat t
  | none => -6795364578871345152

/-- `time.Unix(0, ns)`. The clock has no instants before 1970, they are all read as that one. -/
def unixTime (ns : Int64) : Time := some ns.toNatClampNeg

def writeMessage (m : Message) : Bytes :=
  writeUint32 (UInt32.ofNat m.payload.length) ++ (m.payload ++
    (writeUint32 (UInt32.ofNat m.properties.contentType.length) ++
      (m.properties.contentType ++
        (writeUint64 m.deliveryTag ++ writeUint64 (unixNano m.enqueuedAt).toUInt64))))

def readMessage (r : Bytes) : Except ReadError (Message × Bytes) := do
  let (payloadLen, r) ← (readUint32 r).orFail
  let (payload, r) ← (readFull payloadLen.toNat r).orFail
  let (propsLen, r) ← (readUint32 r).orFail
  let (propsBytes, r) ← (readFull propsLen.toNat r).orFail
  let (deliveryTag, r) ← (readUint64 r).orFail
  let (enqueuedAtNS, r) ← (readUint64 r).orFail
  let msg := newMessage payload { contentType := propsBytes }
  let msg := msg.setDeliveryTag deliveryTag
  return (msg.setEnqueuedAt (unixTime enqueuedAtNS.toInt64), r)

/-- The loop of `Load`: it ends at the first `io.EOF`, wherever in a record that stands. A record
takes up at least a byte, so one round more than bytes is enough. -/
def readMessages : ℕ → Bytes → Except ReadError (List Message)
  | 0, _ => .ok []
  | n + 1, r =>
    match readMessage r with
    | .error .eof => .ok []
    | .error e => .error e
    | .ok (m, r) => (readMessages n r).map (m :: ·)

def readPage (content : Bytes) : Except ReadError (List Message) :=
  readMessages (content.length + 1) content

def writePage (msgs : List Message) : Bytes := msgs.flatMap writeMessage

/-- The lengths in a record of this message are not cut. -/
def Fits (m : Message) : Prop :=
  m.payload.length < 2 ^ 32 ∧ m.properties.contentType.length < 2 ^ 32

instance (m : Message) : Decidable (Fits m) :=
  inferInstanceAs (Decidable (_ ∧ _))

def restored (m : Message) : Message :=
  { payload := m.payload
    properties := { contentType := m.properties.contentType }
    deliveryTag := m.deliveryTag
    enqueuedAt := unixTime (unixNano m.enqueuedAt) }

theorem readMessage_writeMessage {m : Message} (h : Fits m) (rest : Bytes) :
    readMessage (writeMessage m ++ rest) = .ok (restored m, rest) := by
  have hpayload : (UInt32.ofNat m.payload.length).toNat = m.payload.length :=
    UInt32.toNat_ofNat_of_lt h.1
  have hprops : (UInt32.ofNat m.properties.contentType.length).toNat =
      m.properties.contentType.length := UInt32.toNat_ofNat_of_lt h.2
  unfold readMessage writeMessage
  simp only [List.append_assoc, readUint32_write, readUint64_write, readFull_append,
    Read.orFail_mk, hpayload, hprops, bind, Except.bind, pure, Except.pure]
  simp [restored, newMessage, Message.setDeliveryTag, Message.setEnqueuedAt]

theorem writeMessage_ne_nil (m : Message) : writeMessage m ≠ [] := by
  intro h
  have := congrArg List.length h
  simp [writeMessage, writeUint32, writeUint64] at this

theorem readMessages_writePage {msgs : List Message} (h : ∀ m ∈ msgs, Fits m) {n : ℕ}
    (hn : msgs.length < n) : readMessages n (writePage msgs) = .ok (msgs.map restored) := by
  induction msgs generalizing n with
  | nil =>
    obtain ⟨n, rfl⟩ : ∃ k, n = k + 1 := ⟨n - 1, by simp at hn; omega⟩
    rfl
  | cons m msgs ih =>
    obtain ⟨n, rfl⟩ : ∃ k, n = k + 1 := ⟨n - 1, by simp at hn; omega⟩
    rw [writePage, List.flatMap_cons, readMessages,
      readMessage_writeMessage (h m (List.mem_cons_self ..))]
    have hrest := ih (fun x hx => h x (List.mem_cons_of_mem m hx)) (n := n) (by simp at hn; omega)
    rw [writePage] at hrest
    simp [hrest, Except.map]

theorem length_le_writePage (msgs : List Message) : msgs.length ≤ (writePage msgs).length := by
  induction msgs with
  | nil => simp
  | cons m msgs ih =>
    have hm := List.length_pos_of_ne_nil (writeMessage_ne_nil m)
    rw [writePage, List.flatMap_cons, List.length_append, List.length_cons]
    rw [writePage] at ih
    omega

theorem readPage_writePage {msgs : List Message} (h : ∀ m ∈ msgs, Fits m) :
    readPage (writePage msgs) = .ok (msgs.map restored) :=
  readMessages_writePage h (Nat.lt_succ_of_le (length_le_writePage msgs))

theorem Fits.restored {m : Message} (h : Fits m) : Fits (restored m) := h

/-! ## Page manager -/

/-- `filepath.Join(dir, fmt.Sprintf("%s_%d.page", queueName, seq))`: the number stands between the
last underscore and the suffix, so that pages of different numbers have different paths. -/
structure PagePath where
  dir : GoString
  queueName : GoString
  seq : ℕ
  deriving DecidableEq

abbrev Disk := GoMap PagePath Bytes

/-- The file operation of a call that fails. -/
inductive Fault where
  | mkdir
  | create
  /-- only so many bytes got into the file -/
  | write (written : ℕ)
  | openFile
  | read
  | remove
  deriving DecidableEq

inductive StoreError where
  /-- `mkdir: %w` -/
  | mkdir
  /-- `create page: %w` -/
  | createPage
  /-- the error of a write, or `flush page: %w` -/
  | writePage
  /-- `open page: %w` -/
  | openPage
  /-- the error of a read -/
  | readPage (e : Option ReadError)
  /-- `paging not enabled` -/
  | pagingNotEnabled
  deriving DecidableEq

/-- The sequence number has 64 bits, which no run uses up. -/
structure PageManager where
  dir : GoString
  seq : ℕ

def newPageManager (dir : GoString) : PageManager := ⟨dir, 0⟩

def PageManager.nextPath (pm : PageManager) (queueName : GoString) : PagePath :=
  ⟨pm.dir, queueName, pm.seq + 1⟩

def PageManager.flush (fault : Option Fault) (pm : PageManager) (queueName : GoString)
    (msgs : List Message) (disk : Disk) : Except StoreError PagePath × PageManager × Disk :=
  let path := pm.nextPath queueName
  let pm := { pm with seq := pm.seq + 1 }
  match fault with
  | some .mkdir => (.error .mkdir, pm, disk)
  | some .create => (.error .createPage, pm, disk)
  | some (.write n) => (.error .writePage, pm, disk.set path ((writePage msgs).take n))
  | _ => (.ok path, pm, disk.set path (writePage msgs))

def load (fault : Option Fault) (path : PagePath) (disk : Disk) :
    Except StoreError (List Message) × Disk :=
  match disk.get path with
  | none => (.error .openPage, disk)
  | some content =>
    if fault = some .openFile then (.error .openPage, disk)
    else if fault = some .read then (.error (.readPage none), disk)
    else
      match readPage content with
      | .error e => (.error (.readPage (some e)), disk)
      -- the error of `os.Remove` is dropped
      | .ok msgs => (.ok msgs, if fault = some .remove then disk else disk.del path)

end Gomq.Store

import Gomq.Broker.Wiring

/-!
# Complete mediation

Twelve handlers ask the access manager. Each reads two reserved octets and the name of a resource,
at most one name more, and then makes the check, before it reads the rest and acts. So a request
that the rules refuse fails while it is decoded, and nothing has happened by then.
-/

namespace Gomq.Broker

open Wire

/-! ## Decoders that fail -/

namespace Decoder

variable {α β : Type}

def Fails (d : Decoder α) (bs : Bytes) : Prop := ∃ e, d bs = .error e

theorem fails_bind {d : Decoder α} {f : α → Decoder β} {bs : Bytes}
    (h : ∀ a rest, d bs = .ok (a, rest) → Fails (f a) rest) : Fails (d >>= f) bs := by
  cases hd : d bs with
  | error e => exact ⟨e, bind_of_error hd⟩
  | ok p =>
    obtain ⟨a, rest⟩ := p
    obtain ⟨e, he⟩ := h a rest hd
    exact ⟨e, by rw [bind_of_ok hd, he]⟩

theorem fails_check {chk : Check} {a : Access} {e : GoError} (h : chk a = .error e)
    (d : Decoder α) (bs : Bytes) : Fails (do chk a; d : Decoder α) bs := by
  refine ⟨e, ?_⟩
  show ((liftM (chk a) : Decoder Unit) >>= fun _ => d) bs = _
  apply bind_of_error
  rw [h]
  rfl

def name : Decoder GoString := do
  skipUint16
  shortString

section Refused

variable {chk : Check} {a : GoString → Access} {bs : Bytes}
  (h : ∀ n rest, name bs = .ok (n, rest) → ∃ e, chk (a n) = .error e)

include h

theorem fails_name (d : GoString → Decoder Request) :
    Fails (do skipUint16; let n ← shortString; chk (a n); d n) bs := by
  apply fails_bind
  intro u mid hskip
  apply fails_bind
  intro n rest hread
  obtain ⟨e, he⟩ := h n rest ((bind_of_ok hskip).trans hread)
  exact fails_check he _ _

theorem fails_names (d : GoString → GoString → Decoder Request) :
    Fails (do skipUint16; let n ← shortString; let n' ← shortString; chk (a n); d n n') bs := by
  apply fails_bind
  intro u mid hskip
  apply fails_bind
  intro n rest hread
  apply fails_bind
  intro n' rest' _
  obtain ⟨e, he⟩ := h n rest ((bind_of_ok hskip).trans hread)
  exact fails_check he _ _

end Refused

end Decoder

/-! ## The guarded methods -/

inductive GuardedMethod where
  | publish
  | consume
  | get
  | queueDeclare
  | queueBind
  | queueUnbind
  | queueDelete
  | queuePurge
  | exchangeDeclare
  | exchangeDelete
  | exchangeBind
  | exchangeUnbind
  deriving DecidableEq

namespace GuardedMethod

def handler : GuardedMethod → MethodHandler
  | publish => handlePublish
  | consume => handleConsume
  | get => handleGet
  | queueDeclare => handleQueueDeclare
  | queueBind => handleQueueBind
  | queueUnbind => handleQueueUnbind
  | queueDelete => handleQueueDelete
  | queuePurge => handleQueuePurge
  | exchangeDeclare => handleExchangeDeclare
  | exchangeDelete => handleExchangeDelete
  | exchangeBind => handleExchangeBind
  | exchangeUnbind => handleExchangeUnbind

/-- The access a method needs to the resource it names first: to the exchange of a publish, to the
destination of an exchange binding. -/
def access : GuardedMethod → GoString → Access
  | publish, exchange => ⟨resExchange, exchange, permWrite⟩
  | consume, queue => ⟨resQueue, queue, permRead⟩
  | get, queue => ⟨resQueue, queue, permRead⟩
  | queueDeclare, queue => ⟨resQueue, queue, permConfigure⟩
  | queueBind, queue => ⟨resQueue, queue, permConfigure⟩
  | queueUnbind, queue => ⟨resQueue, queue, permConfigure⟩
  | queueDelete, queue => ⟨resQueue, queue, permConfigure⟩
  | queuePurge, queue => ⟨resQueue, queue, permConfigure⟩
  | exchangeDeclare, exchange => ⟨resExchange, exchange, permConfigure⟩
  | exchangeDelete, exchange => ⟨resExchange, exchange, permConfigure⟩
  | exchangeBind, destination => ⟨resExchange, destination, permConfigure⟩
  | exchangeUnbind, destination => ⟨resExchange, destination, permConfigure⟩

end GuardedMethod

def Refused (rules : List Rule) (user vhost : GoString) (a : Access) : Prop :=
  ∀ r, (rules.find? fun r => r.matchesAccess user vhost a) = some r → r.allow = false

theorem checkRules_refused {rules : List Rule} {user vhost : GoString} {a : Access}
    (h : Refused rules user vhost a) : checkRules rules user vhost a = .error .accessDenied := by
  unfold checkRules
  cases hfind : rules.find? fun r => r.matchesAccess user vhost a with
  | none => rfl
  | some r => simp [h r hfind]

theorem handleWith_fails {decode : Check → Decoder Request} {env : Env} {ch : ChanRef}
    {payload : Bytes} {s : Server} (h : Decoder.Fails (decode (s.check ch)) payload) :
    ∃ e, handleWith decode env ch payload s = (some e, s) := by
  obtain ⟨e, he⟩ := h
  exact ⟨e, by unfold handleWith; rw [he]⟩

/-- Whatever the payload: if the rules refuse the access to the resource it names, or it names none,
the handler returns an error, and the broker is as it was. -/
theorem refused_unchanged (m : GuardedMethod) (env : Env) (ch : ChanRef) (payload : Bytes)
    (s : Server) (rules : List Rule) (hacl : s.aclMgr = some rules)
    (hrefused : ∀ n rest, Decoder.name payload = .ok (n, rest) →
      Refused rules (s.conns.read (s.chans.read ch).conn).username
        (s.conns.read (s.chans.read ch).conn).vhost (m.access n)) :
    ∃ e, m.handler env ch payload s = (some e, s) := by
  have hcheck : ∀ n rest, Decoder.name payload = .ok (n, rest) →
      ∃ e, s.check ch (m.access n) = .error e := by
    intro n rest hn
    refine ⟨.accessDenied, ?_⟩
    unfold Server.check
    rw [hacl]
    exact checkRules_refused (hrefused n rest hn)
  cases m with
  | queueBind => exact handleWith_fails (Decoder.fails_names hcheck _)
  | exchangeBind => exact handleWith_fails (Decoder.fails_names hcheck _)
  | exchangeUnbind => exact handleWith_fails (Decoder.fails_names hcheck _)
  | _ => exact handleWith_fails (Decoder.fails_name hcheck _)

def sparesQ : List Rule :=
  [⟨str "*", str "*", resQueue, str "q", permConfigure, false⟩,
    ⟨str "*", str "*", str "*", str "*", str "*", true⟩]

def guardedServer : Server :=
  { newServer with
    queues := GoMap.set ∅ (str "q") ⟨str "q", false, false, false, [], none⟩
    conns := Heap.empty.alloc (newConnection .up)
    chans := Heap.empty.alloc (newChannel 1 0)
    aclMgr := some sparesQ }

/-- `Queue.Delete` of `q` is refused. -/
theorem guardedServer_refuses :
    Decoder.name [0, 0, 1, 0x71, 0] = .ok (str "q", [0]) ∧
      Refused sparesQ [] [] (GuardedMethod.queueDelete.access (str "q")) ∧
      ∃ e, handleQueueDelete default 0 [0, 0, 1, 0x71, 0] guardedServer =
        (some e, guardedServer) := by
  have hname : Decoder.name [0, 0, 1, 0x71, 0] = .ok (str "q", [0]) := rfl
  have hrefused : Refused sparesQ [] [] (GuardedMethod.queueDelete.access (str "q")) := by
    intro r hr
    obtain rfl : _ = r := Option.some.inj hr
    rfl
  refine ⟨hname, hrefused, refused_unchanged .queueDelete default 0 _ guardedServer sparesQ rfl ?_⟩
  intro n rest hn
  obtain ⟨rfl, -⟩ := Prod.mk.inj (Except.ok.inj (hname.symm.trans hn))
  exact hrefused

end Gomq.Broker

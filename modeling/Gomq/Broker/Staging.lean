import Gomq.Broker.Connection
import Gomq.Broker.QueueRuns
import Gomq.Broker.Transactions

/-!
# Staged messages

A message that is staged in a transaction is known to its channel only, until the commit. `Spared`
is what every step that does not publish the message does to it: it does not bring the message into
circulation, and it changes no headers of a message that does not circulate. A message that was
staged once stays so along every run (`Unpublished.run`).
-/

namespace Gomq.Broker

open Wire Server List

namespace Server

def Circulates (s : Server) (m : MsgRef) : Prop :=
  (∃ q, m ∈ s.ready q) ∨ ∃ t c d, s.getDelivery t c = some d ∧ d.msg = m

/-- What a step that does not publish `m` does to it. -/
structure Spared (m : MsgRef) (s s' : Server) : Prop where
  next : s.msgs.next ≤ s'.msgs.next
  staged : ∀ ch, ((s'.chans.read ch).txPending).Sublist (s.chans.read ch).txPending
  circulates : s'.Circulates m → s.Circulates m
  headers : ¬ s.Circulates m → s'.headersOf m = s.headersOf m

namespace Spared

variable {m : MsgRef} {s s' s'' : Server}

theorem refl (m : MsgRef) (s : Server) : Spared m s s :=
  ⟨le_rfl, fun _ => List.Sublist.refl _, id, fun _ => rfl⟩

theorem trans (h : Spared m s s') (h' : Spared m s' s'') : Spared m s s'' where
  next := h.next.trans h'.next
  staged := fun ch => (h'.staged ch).trans (h.staged ch)
  circulates := fun hc => h.circulates (h'.circulates hc)
  headers := fun hc => (h'.headers fun hc' => hc (h.circulates hc')).trans (h.headers hc)

theorem of_eq (hmsgs : s'.msgs = s.msgs) (hstore : s'.store = s.store)
    (htracker : s'.tracker = s.tracker) (hchans : s'.chans = s.chans) : Spared m s s' where
  next := by rw [hmsgs]
  staged := fun ch => by rw [hchans]
  circulates := by
    unfold Circulates ready getDelivery
    rw [hstore, htracker]
    exact id
  headers := fun _ => by rw [headersOf, hmsgs]; rfl

theorem reply (h : Spared m s s') (ch : ChanRef) (payload : Bytes) :
    Spared m s (s'.reply ch payload) := by
  obtain ⟨k, hk⟩ := s'.reply_eq ch payload
  rw [hk]
  exact h.trans (of_eq rfl rfl rfl rfl)

theorem replyUnless (h : Spared m s s') (noWait : Bool) (ch : ChanRef) (payload : Bytes) :
    Spared m s (s'.replyUnless noWait ch payload) := by
  unfold Server.replyUnless
  split
  · exact h
  · exact h.reply ch payload

theorem modifyChan (h : Spared m s s') (ch : ChanRef) {f : Channel → Channel}
    (hf : ∀ c, ((f c).txPending).Sublist c.txPending) : Spared m s (s'.modifyChan ch f) := by
  refine h.trans ⟨le_rfl, fun ch' => ?_, id, fun _ => rfl⟩
  unfold Server.modifyChan
  rw [Heap.read_modify]
  split
  · rename_i heq
    rw [heq]
    exact hf _
  · exact List.Sublist.refl _

theorem of_moved (hmsgs : s'.msgs.next = s.msgs.next) (hchans : s'.chans = s.chans)
    (hheaders : Keeps (fun x => x.properties.headers) s s')
    (hcirc : s'.Circulates m → s.Circulates m) : Spared m s s' :=
  ⟨hmsgs.ge, fun ch => by rw [hchans], hcirc, fun _ => hheaders m⟩

theorem of_circulates (hnext : s'.msgs.next = s.msgs.next) (hchans : s'.chans = s.chans)
    (h : s.Circulates m) : Spared m s s' :=
  ⟨hnext.ge, fun ch => by rw [hchans], fun _ => h, fun hn => absurd h hn⟩

end Spared

/-! ## Publishes of other messages -/

def TracksAlso (p : MsgRef) (s u : Server) : Prop :=
  ∀ t c d, u.getDelivery t c = some d → s.getDelivery t c = some d ∨ d.msg = p

section Publish

variable (env : Env) {m p : MsgRef} (c : UInt16) {s u : Server}

theorem TracksAlso.deliverTo (h : TracksAlso p s u) (k : Consumer) (q : GoString) :
    TracksAlso p s (u.deliverTo p k q c) := by
  intro t c' d hd
  by_cases hslot : t = 0 ∧ c' = c
  · obtain ⟨rfl, rfl⟩ := hslot
    rw [(deliverTo_spec c' u p k q).1] at hd
    obtain rfl := Option.some.inj hd
    exact Or.inr rfl
  · rw [(delivers_deliverTo c u p k q).tracker t c' hslot] at hd
    exact h t c' d hd

theorem TracksAlso.deliverGroup (h : TracksAlso p s u) (list : List Consumer) (q gid : GoString) :
    TracksAlso p s (deliverGroup list p q c u gid) := by
  have hsel : TracksAlso p s (u.selectMember list gid (u.msgs.read p).routingKey).2 := by
    unfold selectMember
    split <;> exact h
  unfold Server.deliverGroup
  rcases hs : u.selectMember list gid (u.msgs.read p).routingKey with ⟨_ | k, v⟩ <;>
    rw [hs] at hsel
  · exact hsel
  · exact hsel.deliverTo c k q

theorem tracksAlso_deliver (s : Server) (q : GoString) :
    TracksAlso p s (s.deliver env p q c) := by
  rw [deliver_eq]
  refine foldlRecOn _ _ ?_ fun u hu k _ => TracksAlso.deliverTo c hu k q
  exact foldlRecOn _ _ (fun t c d hd => Or.inl hd)
    fun u hu gid _ => TracksAlso.deliverGroup c hu _ q gid

variable (hp : p ≠ m)

include hp

theorem spared_storeAndDeliver (qn : GoString) (args : Table) (s : Server) :
    Spared m s (storeAndDeliver env p c qn args s) := by
  have hframe := (grows_storeAndDeliver env p c qn args s).toFramed
  refine .of_moved hframe.next hframe.chans
    (keeps_storeAndDeliver stampless_headers env p c qn args s) ?_
  rintro (⟨q, hq⟩ | ⟨t, c', d, hd, rfl⟩)
  · rcases (mem_ready_storeAndDeliver env p c).mp hq with ⟨-, rfl⟩ | hq
    · exact absurd rfl hp
    · exact Or.inl ⟨q, hq⟩
  · have htracks : TracksAlso p s (storeAndDeliver env p c qn args s) := by
      have hstore : TracksAlso p s
          ((s.modifyMsg p fun x => x.setEnqueuedAt (some env.now)).storeIn qn args p) := by
        unfold storeIn
        split <;> exact fun t c d hd => Or.inl hd
      unfold storeAndDeliver
      dsimp only
      split
      · exact hstore
      · intro t c' d hd
        exact (tracksAlso_deliver env c _ qn t c' d hd).elim (hstore t c' d) Or.inr
    rcases htracks t c' d hd with hd | hmsg
    · exact Or.inr ⟨t, c', d, hd, rfl⟩
    · exact absurd hmsg.symm hp

omit hp in
theorem spared_evictOldest {dl : MsgRef → Table → Server → Server}
    (hdl : ∀ o args u, o ≠ m → Spared m u (dl o args u))
    (hframe : ∀ o args u, Framed u (dl o args u)) (s : Server) (qn : GoString) (args : Table) :
    Spared m s (s.evictOldest dl qn args) := by
  by_cases hcirc : s.Circulates m
  · have hevict := framed_evictOldest hframe s qn args
    exact .of_circulates hevict.next hevict.chans hcirc
  obtain ⟨st, hready, heq⟩ := evictOldest_eq dl s qn args
  have hroom : Spared m s { s with store := st } := by
    refine .of_moved rfl rfl (.of_msgs rfl) ?_
    rintro (⟨q, hq⟩ | hd)
    · refine Or.inl ⟨q, ?_⟩
      by_contra hnot
      rw [hready] at hq
      split at hq
      · exact not_mem_makeRoom args m hnot hq
      · exact hnot hq
    · exact Or.inr hd
  rw [heq]
  cases hover : s.overflowing qn args with
  | none => exact hroom
  | some o =>
    have ho : o ≠ m := by
      rintro rfl
      exact hcirc (Or.inl ⟨qn, (of_overflowing hover).2⟩)
    exact hroom.trans (hdl o args _ ho)

theorem spared_publishTo {dl : MsgRef → Table → Server → Server}
    (hdl : ∀ o args u, o ≠ m → Spared m u (dl o args u))
    (hframe : ∀ o args u, Framed u (dl o args u)) (chk : Bool) (s : Server) (qn : GoString) :
    Spared m s (publishTo env dl chk p c s qn) :=
  publishTo_inv (.refl m s) (fun x _ _ => spared_evictOldest hdl hframe s qn x.args)
    fun x _ u hu => hu.trans (spared_storeAndDeliver env c hp qn x.args u)

theorem spared_deadLetter (args : Table) (s : Server) :
    Spared m s (deadLetter env p args s) := by
  cases hdlx : getDeadLetterConfig args with
  | none =>
    rw [deadLetter_of_none env p hdlx]
    exact .refl m s
  | some dlx =>
    rw [deadLetter_of_some env p hdlx]
    have hmark : Spared m s (s.markLetter p) := by
      refine ⟨le_rfl, fun _ => List.Sublist.refl _, id, fun _ => ?_⟩
      rw [headersOf, markLetter, modifyMsg, Heap.read_modify_ne hp.symm]
      rfl
    exact foldlRecOn _ _ hmark fun u hu qn _ => hu.trans
      (spared_publishTo env 0 hp (fun _ _ u _ => .refl m u) (fun _ _ u => .refl u) false u qn)

theorem spared_publish (ex key : GoString) (s : Server) :
    Spared m s (s.publish env ex key p c).2 :=
  publish_inv (.refl m s)
    (fun u qn hu => hu.trans (spared_publishTo env c hp
      (fun _ args u ho => spared_deadLetter env ho args u) (framed_deadLetter env) true u qn))
    fun _ _ hu => hu.trans (.of_eq rfl rfl rfl rfl)

end Publish

/-! ## Requests -/

section Requests

variable (m : MsgRef) (env : Env) (ch : ChanRef) (s : Server)

theorem spared_ack (tag : UInt64) (c : UInt16) : Spared m s (s.ack tag c).2 := by
  cases hd : s.getDelivery tag c with
  | none => rw [ack_of_none hd]; exact .refl m s
  | some d =>
    rw [ack_of_some hd]
    refine .of_moved rfl rfl (.of_msgs rfl) ?_
    rintro (hq | ⟨t', c', d', hd', hmsg⟩)
    · exact Or.inl hq
    · rw [getDelivery_untrack] at hd'
      split at hd'
      · cases hd'
      · exact Or.inr ⟨t', c', d', hd', hmsg⟩

theorem spared_nack (tag : UInt64) (c : UInt16) (requeue : Bool) :
    Spared m s (s.nack tag c requeue).2 := by
  have hcirc : (s.nack tag c requeue).2.Circulates m → s.Circulates m := by
    rintro (⟨q, hq⟩ | ⟨t', c', d', hd', hmsg⟩)
    · cases requeue with
      | true =>
        rw [ready_nack_requeue] at hq
        rcases mem_append.mp hq with hq | hq
        · exact Or.inl ⟨q, hq⟩
        · unfold requeuedInto at hq
          cases hd : s.getDelivery tag c with
          | none => rw [hd] at hq; cases hq
          | some d =>
            rw [hd] at hq
            refine Or.inr ⟨tag, c, d, hd, ?_⟩
            dsimp only at hq
            split at hq
            · exact (mem_singleton.mp hq).symm
            · cases hq
      | false => exact Or.inl ⟨q, by rwa [ready_nack_discard] at hq⟩
    · rw [getDelivery_nack] at hd'
      split at hd'
      · cases hd'
      · exact Or.inr ⟨t', c', d', hd', hmsg⟩
  obtain ⟨st, tr, heq⟩ := s.nack_eq tag c requeue
  rw [heq] at hcirc ⊢
  exact .of_moved rfl rfl (.of_msgs rfl) hcirc

theorem spared_recoverAll (c : UInt16) (requeue : Bool) :
    Spared m s (s.recoverAll env c requeue).2 := by
  have hcirc : (s.recoverAll env c requeue).2.Circulates m → s.Circulates m := by
    rintro (⟨q, hq⟩ | ⟨t', c', d', hd', hmsg⟩)
    · cases requeue with
      | true =>
        rw [ready_recoverAll] at hq
        rcases mem_append.mp hq with hq | hq
        · exact Or.inl ⟨q, hq⟩
        · unfold recoveredInto at hq
          obtain ⟨d, hd, hmsg⟩ := mem_map.mp hq
          have hval := ((rangeDeliveries_perm env _).mem_iff).mp (mem_of_mem_filter hd)
          obtain ⟨t, ht⟩ := GoMap.mem_vals_iff.mp hval
          exact Or.inr ⟨t, c, d, by rw [getDelivery_eq]; exact ht, hmsg⟩
      | false => exact Or.inl ⟨q, by rwa [ready_recoverAll_discard] at hq⟩
    · rw [getDelivery_recoverAll] at hd'
      split at hd'
      · cases hd'
      · exact Or.inr ⟨t', c', d', hd', hmsg⟩
  obtain ⟨st, tr, heq⟩ := s.recoverAll_eq env c requeue
  rw [heq] at hcirc ⊢
  exact .of_moved rfl rfl (.of_msgs rfl) hcirc

theorem spared_performNack (tag : UInt64) (requeue : Bool) :
    Spared m s (s.performNack env ch tag requeue).2 := by
  have hnack := s.spared_nack m tag (s.chans.read ch).id requeue
  obtain ⟨st, tr, heq⟩ := s.nack_eq tag (s.chans.read ch).id requeue
  unfold performNack deadLetterRefused
  dsimp only
  split
  · rename_i d hd
    split
    · rename_i x hx
      by_cases hmsg : d.msg = m
      · have hframe := framed_deadLetter env d.msg x.args (s.nack tag (s.chans.read ch).id false).2
        rw [heq] at hframe ⊢
        exact .of_circulates hframe.next hframe.chans (Or.inr ⟨tag, _, d, hd, hmsg⟩)
      · exact hnack.trans (spared_deadLetter env hmsg x.args _)
    · exact hnack
  · exact hnack

theorem spared_performGet (queue : GoString) (noAck : Bool) :
    Spared m s (s.performGet env ch queue noAck).2 := by
  obtain ⟨st, hst⟩ := getLoop_store env queue (s.queueArgs queue) ((s.ready queue).length + 1) s
  have hhead := (s.fetch_ready env queue).1
  have hsub := s.ready_fetch_sublist env queue
  have hst' : (s.fetch env queue).2 = { s with store := st } := hst
  rw [hst'] at hsub
  have hfetch : Spared m s { s with store := st } := by
    refine .of_moved rfl rfl (.of_msgs rfl) ?_
    rintro (⟨q, hq⟩ | hd)
    · exact Or.inl ⟨q, (hsub q).subset hq⟩
    · exact Or.inr hd
  rcases h : s.fetch env queue with ⟨_ | p, u⟩ <;> rw [h] at hhead hst' <;>
    obtain rfl : u = { s with store := st } := hst'
  · obtain ⟨payload, hp⟩ := performGet_empty ch h noAck
    rw [hp]
    exact hfetch.reply ch payload
  cases noAck with
  | true =>
    obtain ⟨payload, hp⟩ := performGet_noAck ch h
    rw [hp]
    exact hfetch.reply ch payload
  | false =>
    obtain ⟨payload, hp⟩ := performGet_ack ch h
    rw [hp]
    refine Spared.reply ?_ ch payload
    by_cases hmsg : p = m
    · subst hmsg
      have hready : p ∈ s.ready queue :=
        (dropWhile_sublist _).subset (mem_of_head? hhead.symm)
      exact .of_circulates rfl rfl (Or.inl ⟨queue, hready⟩)
    · have hkeeps : Keeps (fun x => x.properties.headers) { s with store := st }
          (({ s with store := st } : Server).modifyMsg p fun x => x.setDeliveryTag 1) :=
        keeps_modifyMsg _ p fun _ => rfl
      refine hfetch.trans (.of_moved rfl rfl hkeeps ?_)
      rintro (hq | ⟨t, c, d, hd, rfl⟩)
      · exact Or.inl hq
      · rw [getDelivery_record] at hd
        split at hd
        · obtain rfl := Option.some.inj hd
          exact absurd rfl hmsg
        · exact Or.inr ⟨t, c, d, hd, rfl⟩

end Requests

end Server

/-! ## Steps -/

namespace Server

variable (m : MsgRef) (env : Env) (ch : ChanRef) (s : Server)

theorem spared_performPublish (ex key : GoString) (mandatory : Bool)
    (htx : (s.chans.read ch).txMode = false) (hm : m ≠ s.msgs.next) :
    Spared m { s with msgs := s.msgs.alloc (publishedMessage ex key) }
      (s.performPublish env ch ex key mandatory).2 := by
  refine performPublish_inv (P := Spared m { s with
    msgs := s.msgs.alloc (publishedMessage ex key) }) env mandatory ?_ ?_ ?_ ?_
  · intro hstage
    rw [htx] at hstage
    cases hstage
  · intro _
    refine Spared.trans ?_ (spared_publish env (s.chans.read ch).id hm.symm ex key _)
    exact (Spared.refl m _).modifyChan ch fun _ => List.Sublist.refl _
  · exact fun _ => spared_publish env (s.chans.read ch).id hm.symm ex key _
  · exact fun u payload hu => hu.reply ch payload

theorem spared_alloc (x : Message) (hm : m ≠ s.msgs.next) :
    Spared m s { s with msgs := s.msgs.alloc x } := by
  refine ⟨Nat.le_succ _, fun _ => List.Sublist.refl _, id, fun _ => ?_⟩
  show ((s.msgs.alloc x).read m).properties.headers = _
  rw [Heap.read_alloc_ne hm]
  rfl

theorem spared_performConsume (q tag : GoString) (noAck exclusive noWait : Bool) (args : Table) :
    Spared m s (s.performConsume ch q tag noAck exclusive noWait args).2 := by
  have hsub : Spared m s (s.subscribe tag q (some ch) noAck exclusive args).2 := by
    unfold subscribe
    split
    · exact .refl m s
    · split
      · exact .refl m s
      · exact .of_eq rfl rfl rfl rfl
  exact performConsume_inv hsub fun _ payload hu => hu.replyUnless noWait ch payload

theorem spared_performQueueDeclare (q : GoString)
    (passive durable exclusive autoDelete noWait : Bool) (args : Table) :
    Spared m s (s.performQueueDeclare env ch q passive durable exclusive autoDelete noWait
      args).2 := by
  refine performQueueDeclare_inv env (fun _ => .refl m s) (fun _ => ?_) fun _ payload hu =>
    hu.replyUnless noWait ch payload
  unfold declareQueue
  split
  · split <;> exact .refl m s
  · exact .of_eq rfl rfl rfl rfl

theorem spared_performExchangeDeclare (e exType : GoString) (passive noWait : Bool)
    (args : Table) : Spared m s (s.performExchangeDeclare ch e exType passive noWait args).2 := by
  refine performExchangeDeclare_inv (fun _ => .refl m s) (fun _ => ?_) fun _ payload hu =>
    hu.replyUnless noWait ch payload
  unfold declareExchange
  split
  · split <;> exact .refl m s
  · exact .of_eq rfl rfl rfl rfl

theorem spared_purge (q : GoString) : Spared m s (s.purge q) := by
  refine .of_moved rfl rfl (.of_msgs rfl) ?_
  rintro (⟨q', hq⟩ | hd)
  · refine Or.inl ⟨q', ?_⟩
    by_cases h : q' = q
    · subst h
      simp [purge, ready, GoMap.getD] at hq
    · simpa [purge, ready, GoMap.getD, h] using hq
  · exact Or.inr hd

theorem spared_perform (req : Request) (hreq : ∀ ex key mandatory immediate,
      req = .publish ex key mandatory immediate →
        (s.chans.read ch).txMode = false ∧ m ≠ s.msgs.next) :
    Spared m s (perform env ch req s).2 := by
  cases req with
  | publish ex key mandatory immediate =>
    obtain ⟨htx, hm⟩ := hreq ex key mandatory immediate rfl
    exact (s.spared_alloc m _ hm).trans
      (s.spared_performPublish m env ch ex key mandatory htx hm)
  | get queue noAck => exact s.spared_performGet m env ch queue noAck
  | ack tag => exact s.spared_ack m tag _
  | nack tag requeue | reject tag requeue => exact s.spared_performNack m env ch tag requeue
  | recover requeue => exact (s.spared_recoverAll m env _ requeue).reply ch _
  | qos | queueUnbind =>
    refine Spared.reply ?_ ch _
    exact .of_eq rfl rfl rfl rfl
  | consume q tag nl na ex nw args => exact s.spared_performConsume m ch q tag na ex nw args
  | cancel tag nw =>
    refine Spared.replyUnless ?_ nw ch _
    unfold unsubscribe
    split
    · exact .refl m s
    · exact .of_eq rfl rfl rfl rfl
  | queueDeclare q p d e a n args => exact s.spared_performQueueDeclare m env ch q p d e a n args
  | queueBind _ _ _ nw | queueDelete _ _ _ nw | exchangeDelete _ _ nw =>
    refine Spared.replyUnless ?_ nw ch _
    exact .of_eq rfl rfl rfl rfl
  | queuePurge q nw => exact (s.spared_purge m q).replyUnless nw ch _
  | exchangeDeclare e ty p d a i n args =>
    exact s.spared_performExchangeDeclare m ch e ty p n args
  | exchangeBind dst src key nw args =>
    show Spared m s (s.performExchangeBind ch dst src key nw args).2
    unfold performExchangeBind
    split
    · exact .refl m s
    · refine Spared.replyUnless ?_ nw ch _
      exact .of_eq rfl rfl rfl rfl
  | exchangeUnbind dst src key nw =>
    refine Spared.replyUnless ?_ nw ch _
    exact .of_eq rfl rfl rfl rfl
  | confirmSelect nw =>
    refine Spared.replyUnless ?_ nw ch _
    exact (Spared.refl m s).modifyChan ch fun _ => List.Sublist.refl _

theorem spared_closeConnection (c : ConnRef) : Spared m s (s.closeConnection c) := by
  refine closeConnection_inv (P := Spared m s) (fun u f hu => ?_) (fun u ch hu => ?_) (.refl m s)
  · exact hu.trans (.of_eq rfl rfl rfl rfl)
  · exact hu.modifyChan ch fun _ => List.Sublist.refl _

theorem spared_publishEntries (c : UInt16) (es : List TxEntry) (hes : ∀ e ∈ es, e.msg ≠ m) :
    Spared m s (publishEntries env c es s).2 :=
  publishEntries_inv (P := Spared m s)
    (fun e he u hu => hu.trans (spared_publish env c (hes e he) e.exchange e.routingKey u))
    (.refl m s)

theorem spared_control (method : ControlMethod) (payload : Bytes)
    (hm : method = .txCommit → ∀ e ∈ (s.chans.read ch).txPending, e.msg ≠ m) :
    Spared m s (method.handler env ch payload s).2 := by
  have hsame := Spared.refl m s
  cases method with
  | channelOpen =>
    refine Spared.reply ?_ ch _
    exact hsame.modifyChan ch fun _ => List.Sublist.refl _
  | channelRecover =>
    show Spared m s (handleChannelRecover env ch payload s).2
    unfold handleChannelRecover
    split
    · exact hsame
    · exact (s.spared_recoverAll m env _ _).reply ch _
  | channelFlow =>
    show Spared m s (handleChannelFlow env ch payload s).2
    unfold handleChannelFlow
    split
    · exact hsame
    · rename_i bits _ _
      refine Spared.reply ?_ ch _
      have hflow := hsame.modifyChan ch (f := fun c => { c with flowOn := bit bits 0x01 })
        fun _ => List.Sublist.refl _
      exact hflow.trans (.of_eq rfl rfl rfl rfl)
  | channelClose =>
    refine Spared.modifyChan ?_ ch fun _ => List.Sublist.refl _
    exact hsame.reply ch _
  | channelCloseOk => exact hsame
  | connectionClose => exact (hsame.reply ch _).trans (spared_closeConnection m _ _)
  | connectionCloseOk => exact hsame
  | txSelect =>
    show Spared m s (handleTxSelect env ch payload s).2
    unfold handleTxSelect
    split
    · refine Spared.modifyChan ?_ ch fun _ => List.Sublist.refl _
      exact hsame.reply ch _
    · refine Spared.reply ?_ ch _
      exact hsame.modifyChan ch fun _ => List.Sublist.refl _
  | txCommit =>
    refine txCommit_inv (P := Spared m s) env payload ?_ fun u hu => hu.reply ch _
    exact (hsame.modifyChan ch fun c => nil_sublist _).trans
      (spared_publishEntries m env _ (s.chans.read ch).id (s.chans.read ch).txPending (hm rfl))
  | txRollback =>
    refine Spared.reply ?_ ch _
    exact hsame.modifyChan ch fun _ => nil_sublist _

theorem spared_scanAll : Spared m s (s.scanAll env) := by
  by_cases hcirc : s.Circulates m
  · have hframe := framed_scanAll env s
    exact .of_circulates hframe.next hframe.chans hcirc
  have hscan : Spared m s (s.scanAll env) ∧ ¬ (s.scanAll env).Circulates m := by
    refine scanAll_inv (P := fun u => Spared m s u ∧ ¬ u.Circulates m) ?_ ?_ ⟨.refl m s, hcirc⟩
    · rintro u q l ⟨hu, hidle⟩ hsub
      have hcut : Spared m u { u with store := u.store.set q l } := by
        refine .of_moved rfl rfl (.of_msgs rfl) ?_
        rintro (⟨q', hq⟩ | hd)
        · refine Or.inl ⟨q', ?_⟩
          by_cases h : q' = q
          · subst h
            exact hsub.subset (by simpa [ready] using hq)
          · simpa [ready, h] using hq
        · exact Or.inr hd
      exact ⟨hu.trans hcut, fun h => hidle (hcut.circulates h)⟩
    · rintro v u o q ho ⟨-, hv⟩ ⟨hu, hidle⟩
      have hne : o ≠ m := by
        rintro rfl
        exact hv (Or.inl ⟨q, ho⟩)
      have hletter := spared_deadLetter env hne (v.queueArgs q) u
      exact ⟨hu.trans hletter, fun h => hidle (hletter.circulates h)⟩
  exact hscan.1

end Server

/-! ## Runs -/

/-- What can happen between a publish and the commit: connections and channels come and go,
methods arrive on any channel, and queues are scanned for expired messages. -/
inductive BrokerEvent where
  | accept (username vhost : GoString)
  | createChannel (c : ConnRef) (id : UInt16)
  | closeConnection (c : ConnRef)
  | protocol (ev : ProtocolEvent)
  | scan (env : Env)

def brokerStep (s : Server) : BrokerEvent → Server
  | .accept username vhost => systemStep s (.accept username vhost)
  | .createChannel c id =>
    match s.createChannel c id with
    | .ok s' => s'
    | .error _ => s
  | .closeConnection c => s.closeConnection c
  | .protocol ev => protocolStep s ev
  | .scan env => s.scanAll env

theorem Server.spared_createChannel (m : MsgRef) (s : Server) (c : ConnRef) (id : UInt16) :
    Spared m s (brokerStep s (.createChannel c id)) := by
  unfold brokerStep createChannel
  dsimp only
  split <;> rename_i hok
  · split_ifs at hok
    obtain rfl := Except.ok.inj hok
    refine ⟨le_rfl, fun ch => ?_, fun hc => hc, fun _ => rfl⟩
    dsimp only
    by_cases hch : ch = s.chans.next
    · rw [hch, Heap.read_alloc_self]
      exact nil_sublist _
    · rw [Heap.read_alloc_ne hch]
  · exact .refl m s

def Server.staged (s : Server) (ch : ChanRef) : List MsgRef :=
  (s.chans.read ch).txPending.map TxEntry.msg

namespace Server

/-- What a publish in a transaction does, apart from what it may send. -/
structure Stages (ch : ChanRef) (ex key : GoString) (s s' : Server) : Prop where
  msgs : s'.msgs = s.msgs.alloc (publishedMessage ex key)
  store : s'.store = s.store
  tracker : s'.tracker = s.tracker
  staged : ∀ ch', s'.staged ch' =
    if ch' = ch then s.staged ch' ++ [s.msgs.next] else s.staged ch'

theorem stages_performPublish {s : Server} {ch : ChanRef} (env : Env) (ex key : GoString)
    (mandatory : Bool) (htx : (s.chans.read ch).txMode = true) :
    Stages ch ex key s (s.performPublish env ch ex key mandatory).2 := by
  have hnot : (s.chans.read ch).txMode ≠ false := by simp [htx]
  refine performPublish_inv (P := Stages ch ex key s) env mandatory ?_ (absurd · hnot)
    (absurd · hnot) ?_
  · refine fun _ => ⟨rfl, rfl, rfl, fun ch' => ?_⟩
    unfold staged stageTxPublish modifyChan
    rw [Heap.read_modify]
    split
    · rename_i heq
      rw [heq]
      simp
    · rfl
  · intro u payload hu
    obtain ⟨k, hk⟩ := u.reply_eq ch payload
    rw [hk]
    exact ⟨hu.msgs, hu.store, hu.tracker, hu.staged⟩

theorem frame_commit (s : Server) (env : Env) (ch : ChanRef) (payload : Bytes) :
    (handleTxCommit env ch payload s).2.msgs.next = s.msgs.next ∧
      (handleTxCommit env ch payload s).2.chans =
        s.chans.modify ch fun c => { c with txPending := [] } := by
  refine txCommit_inv (P := fun u => u.msgs.next = s.msgs.next ∧
    u.chans = s.chans.modify ch fun c => { c with txPending := [] }) env payload ?_ fun u hu => ?_
  · have hframe := framed_publishEntries env (s.chans.read ch).id (s.chans.read ch).txPending
      (s.modifyChan ch fun c => { c with txPending := [] })
    exact ⟨hframe.next, hframe.chans⟩
  · rw [msgs_reply, chans_reply]
    exact hu

theorem Stages.circulates_iff {ch : ChanRef} {ex key : GoString} {s s' : Server}
    (h : Stages ch ex key s s') (m : MsgRef) : s'.Circulates m ↔ s.Circulates m := by
  unfold Circulates ready getDelivery
  rw [h.store, h.tracker]

end Server

def Server.Known (s : Server) : Prop :=
  ∀ m, s.Circulates m ∨ (∃ ch, m ∈ s.staged ch) → m < s.msgs.next

/-- While the message is staged, it is staged once, by one channel, and nothing else knows it. -/
structure Unpublished (m : MsgRef) (s : Server) : Prop where
  known : m < s.msgs.next
  apart : ∀ ch, m ∈ s.staged ch → ¬ s.Circulates m ∧ s.headersOf m = []
  once : ∀ ch, (s.staged ch).count m ≤ 1
  only : ∀ ch ch', m ∈ s.staged ch → m ∈ s.staged ch' → ch = ch'

namespace Unpublished

variable {m : MsgRef} {s s' : Server}

theorem of_spared (h : Unpublished m s) (hs : Spared m s s') : Unpublished m s' := by
  have hsub : ∀ ch, (s'.staged ch).Sublist (s.staged ch) := fun ch => (hs.staged ch).map _
  refine ⟨h.known.trans_le hs.next, fun ch hm => ?_, fun ch => ?_, fun ch ch' hm hm' => ?_⟩
  · obtain ⟨hidle, hheaders⟩ := h.apart ch ((hsub ch).subset hm)
    exact ⟨fun hc => hidle (hs.circulates hc), (hs.headers hidle).trans hheaders⟩
  · exact ((hsub ch).count_le m).trans (h.once ch)
  · exact h.only ch ch' ((hsub ch).subset hm) ((hsub ch').subset hm')

theorem commit (h : Unpublished m s) (env : Env) (ch : ChanRef) (payload : Bytes)
    (hm : m ∈ s.staged ch) : Unpublished m (handleTxCommit env ch payload s).2 := by
  have hframe := s.frame_commit env ch payload
  have hgone : ∀ ch', m ∉ (handleTxCommit env ch payload s).2.staged ch' := by
    intro ch' hm'
    unfold staged at hm'
    rw [hframe.2, Heap.read_modify] at hm'
    split at hm'
    · cases hm'
    · rename_i hne
      exact hne (h.only ch' ch hm' hm)
  refine ⟨hframe.1.symm ▸ h.known, fun ch' hm' => absurd hm' (hgone ch'), fun ch' => ?_,
    fun ch' _ hm' => absurd hm' (hgone ch')⟩
  rw [count_eq_zero.mpr (hgone ch')]
  exact Nat.zero_le 1

theorem stage (h : Unpublished m s) (env : Env) (ch : ChanRef) (ex key : GoString)
    (mandatory : Bool) (htx : (s.chans.read ch).txMode = true) :
    Unpublished m (s.performPublish env ch ex key mandatory).2 := by
  have hstages := stages_performPublish env ex key mandatory htx
  have hne : m ≠ s.msgs.next := h.known.ne
  have hcount : ∀ ch', ((s.performPublish env ch ex key mandatory).2.staged ch').count m =
      (s.staged ch').count m := by
    intro ch'
    rw [hstages.staged]
    split
    · rw [count_append, count_singleton, if_neg (by simpa using hne.symm), Nat.add_zero]
    · rfl
  have hmem : ∀ ch', m ∈ (s.performPublish env ch ex key mandatory).2.staged ch' →
      m ∈ s.staged ch' := by
    intro ch' hm
    rwa [← count_pos_iff, hcount, count_pos_iff] at hm
  refine ⟨?_, fun ch' hm => ?_, fun ch' => (hcount ch').le.trans (h.once ch'),
    fun ch' ch'' hm hm' => h.only ch' ch'' (hmem ch' hm) (hmem ch'' hm')⟩
  · rw [hstages.msgs]
    exact h.known.trans (Nat.lt_succ_self _)
  · obtain ⟨hidle, hheaders⟩ := h.apart ch' (hmem ch' hm)
    rw [hstages.circulates_iff, headersOf, hstages.msgs, Heap.read_alloc_ne hne]
    exact ⟨hidle, hheaders⟩

theorem of_publish (hknown : s.Known) (env : Env) (ch : ChanRef) (ex key : GoString)
    (mandatory : Bool) (htx : (s.chans.read ch).txMode = true) :
    Unpublished s.msgs.next (s.performPublish env ch ex key mandatory).2 := by
  have hstages := stages_performPublish env ex key mandatory htx
  have hidle : ¬ s.Circulates s.msgs.next := fun h => (hknown _ (Or.inl h)).false
  have hnew : ∀ ch', s.msgs.next ∉ s.staged ch' := fun ch' h => (hknown _ (Or.inr ⟨ch', h⟩)).false
  have honly : ∀ ch', s.msgs.next ∈ (s.performPublish env ch ex key mandatory).2.staged ch' →
      ch' = ch := by
    intro ch' hm
    by_contra hne
    rw [hstages.staged, if_neg hne] at hm
    exact hnew ch' hm
  refine ⟨?_, fun ch' _ => ?_, fun ch' => ?_, fun ch' ch'' hm hm' =>
    (honly ch' hm).trans (honly ch'' hm').symm⟩
  · rw [hstages.msgs]
    exact Nat.lt_succ_self _
  · rw [hstages.circulates_iff, headersOf, hstages.msgs, Heap.read_alloc_self]
    exact ⟨hidle, rfl⟩
  · rw [hstages.staged]
    split
    · rw [count_append, count_eq_zero.mpr (hnew ch')]
      simp
    · rw [count_eq_zero.mpr (hnew ch')]
      exact Nat.zero_le 1

/-- When the commit comes to the message, it is still new to the rest of the broker. -/
theorem at_commit (h : Unpublished m s) (env : Env) (ch : ChanRef) {e : TxEntry}
    {before after : List TxEntry} (hmsg : e.msg = m)
    (hpending : (s.chans.read ch).txPending = before ++ e :: after) :
    let u := (publishEntries env (s.chans.read ch).id before
      (s.modifyChan ch fun c => { c with txPending := [] })).2
    ¬ u.Circulates m ∧ u.headersOf m = [] := by
  have hstaged : s.staged ch = before.map TxEntry.msg ++ m :: after.map TxEntry.msg := by
    rw [staged, hpending, map_append, map_cons, hmsg]
  have hnot : ∀ e' ∈ before, e'.msg ≠ m := by
    intro e' he' heq
    have hcount := h.once ch
    have hpos : 0 < (before.map TxEntry.msg).count m :=
      count_pos_iff.mpr (mem_map.mpr ⟨e', he', heq⟩)
    rw [hstaged, count_append, count_cons_self] at hcount
    omega
  obtain ⟨hidle, hheaders⟩ := h.apart ch (by rw [hstaged]; simp)
  have hspared := ((Spared.refl m s).modifyChan ch
    (f := fun c => { c with txPending := [] }) fun _ => nil_sublist _).trans
      (spared_publishEntries m env _ (s.chans.read ch).id before hnot)
  exact ⟨fun hc => hidle (hspared.circulates hc), (hspared.headers hidle).trans hheaders⟩

theorem step (h : Unpublished m s) (ev : BrokerEvent) : Unpublished m (brokerStep s ev) := by
  have hm : m ≠ s.msgs.next := h.known.ne
  cases ev with
  | accept username vhost => exact h.of_spared (.of_eq rfl rfl rfl rfl)
  | createChannel c id => exact h.of_spared (s.spared_createChannel m c id)
  | closeConnection c => exact h.of_spared (s.spared_closeConnection m c)
  | scan env => exact h.of_spared (s.spared_scanAll m env)
  | protocol ev =>
    cases ev with
    | request env ch req =>
      show Unpublished m (exec env ch req s).2
      unfold exec
      split
      · exact h
      · cases htx : (s.chans.read ch).txMode with
        | false =>
          exact h.of_spared (s.spared_perform m env ch req fun _ _ _ _ _ => ⟨htx, hm⟩)
        | true =>
          cases req with
          | publish ex key mandatory immediate => exact h.stage env ch ex key mandatory htx
          | _ => exact h.of_spared (s.spared_perform m env ch _ (by simp))
    | control env ch method payload =>
      by_cases hcommit : method = .txCommit ∧ m ∈ s.staged ch
      · obtain ⟨rfl, hstaged⟩ := hcommit
        exact h.commit env ch payload hstaged
      · refine h.of_spared (s.spared_control m env ch method payload fun hmethod e he heq => ?_)
        exact hcommit ⟨hmethod, mem_map.mpr ⟨e, he, heq⟩⟩

theorem run (h : Unpublished m s) (evs : List BrokerEvent) :
    Unpublished m (evs.foldl brokerStep s) :=
  foldlRecOn evs brokerStep h fun _ hu ev _ => hu.step ev

end Unpublished

namespace Server.Known

variable {s s' : Server}

theorem of_spared (h : s.Known) (hs : ∀ m, Spared m s s') : s'.Known := by
  rintro m (hcirc | ⟨ch, hm⟩)
  · exact (h m (Or.inl ((hs m).circulates hcirc))).trans_le (hs m).next
  · exact (h m (Or.inr ⟨ch, (((hs m).staged ch).map _).subset hm⟩)).trans_le (hs m).next

theorem publish (h : s.Known) (env : Env) (ch : ChanRef) (ex key : GoString) (mandatory : Bool) :
    (s.performPublish env ch ex key mandatory).2.Known := by
  cases htx : (s.chans.read ch).txMode with
  | false =>
    have hspared := fun m hm => s.spared_performPublish m env ch ex key mandatory htx hm
    have hnext : s.msgs.next < (s.performPublish env ch ex key mandatory).2.msgs.next :=
      (hspared (s.msgs.next + 1) (Nat.succ_ne_self _)).next
    intro m hm
    by_cases hnew : m = s.msgs.next
    · exact hnew.trans_lt hnext
    · have hs := (s.spared_alloc m _ hnew).trans (hspared m hnew)
      refine (h m (hm.imp hs.circulates ?_)).trans_le hs.next
      rintro ⟨ch', hstaged⟩
      exact ⟨ch', ((hs.staged ch').map _).subset hstaged⟩
  | true =>
    have hstages := stages_performPublish env ex key mandatory htx
    have hnext : (s.performPublish env ch ex key mandatory).2.msgs.next = s.msgs.next + 1 := by
      rw [hstages.msgs]
      rfl
    rw [Known, hnext]
    rintro m (hcirc | ⟨ch', hm⟩)
    · exact (h m (Or.inl ((hstages.circulates_iff m).mp hcirc))).trans (Nat.lt_succ_self _)
    · rw [hstages.staged] at hm
      split at hm
      · rcases mem_append.mp hm with hm | hm
        · exact (h m (Or.inr ⟨ch', hm⟩)).trans (Nat.lt_succ_self _)
        · rw [mem_singleton.mp hm]
          exact Nat.lt_succ_self _
      · exact (h m (Or.inr ⟨ch', hm⟩)).trans (Nat.lt_succ_self _)

theorem commit (h : s.Known) (env : Env) (ch : ChanRef) (payload : Bytes) :
    (handleTxCommit env ch payload s).2.Known := by
  obtain ⟨hnext, hchans⟩ := s.frame_commit env ch payload
  have hstaged : ∀ m ch', m ∈ (handleTxCommit env ch payload s).2.staged ch' →
      m ∈ s.staged ch' := by
    intro m ch' hm
    unfold staged at hm
    rw [hchans, Heap.read_modify] at hm
    split at hm
    · cases hm
    · exact hm
  intro m hm
  rw [hnext]
  by_cases hin : m ∈ s.staged ch
  · exact h m (Or.inr ⟨ch, hin⟩)
  · have hs := s.spared_control m env ch .txCommit payload fun _ e he heq =>
      hin (mem_map.mpr ⟨e, he, heq⟩)
    exact h m (hm.imp hs.circulates fun ⟨ch', hm'⟩ => ⟨ch', hstaged m ch' hm'⟩)

theorem step (h : s.Known) (ev : BrokerEvent) : (brokerStep s ev).Known := by
  cases ev with
  | accept username vhost => exact h.of_spared fun m => .of_eq rfl rfl rfl rfl
  | createChannel c id => exact h.of_spared fun m => s.spared_createChannel m c id
  | closeConnection c => exact h.of_spared fun m => s.spared_closeConnection m c
  | scan env => exact h.of_spared fun m => s.spared_scanAll m env
  | protocol ev =>
    cases ev with
    | request env ch req =>
      show (exec env ch req s).2.Known
      unfold exec
      split
      · exact h
      · cases req with
        | publish ex key mandatory immediate => exact h.publish env ch ex key mandatory
        | _ => exact h.of_spared fun m => s.spared_perform m env ch _ (by simp)
    | control env ch method payload =>
      by_cases hcommit : method = .txCommit
      · subst hcommit
        exact h.commit env ch payload
      · exact h.of_spared fun m => s.spared_control m env ch method payload (absurd · hcommit)

theorem run (h : s.Known) (evs : List BrokerEvent) : (evs.foldl brokerStep s).Known :=
  foldlRecOn evs brokerStep h fun _ hu ev _ => hu.step ev

end Server.Known

theorem known_newServer : newServer.Known := by
  rintro m (hcirc | ⟨ch, hm⟩)
  · rcases hcirc with ⟨q, hq⟩ | ⟨t, c, d, hd, -⟩
    · cases hq
    · cases hd
  · cases hm

end Gomq.Broker

import Gomq.Broker.Settle
import Gomq.Broker.Wiring

/-!
# What an operation shows of its arguments

Two requests agree when their operations have the same outcome in every state without access
control. For each method, agreeing requests have the same arguments, as far as the operation uses
them: some state, some queue, or the reply tells them apart.
-/

namespace Gomq.Broker

open Wire Server

def Agree (r r' : Request) : Prop :=
  ∀ env ch s, s.aclMgr = none → perform env ch r s = perform env ch r' s

/-- What the operation leaves behind on a connected channel in transaction mode. -/
abbrev onTx (r : Request) : Server := (perform default 0 r (txChannel none)).2

theorem Agree.onTx {r r' : Request} (h : Agree r r') : onTx r = onTx r' :=
  congrArg Prod.snd (h default 0 (txChannel none) rfl)

abbrev sentOnTx (r : Request) : List Frame := ((onTx r).conns.read 0).out

theorem Agree.sentOnTx {r r' : Request} (h : Agree r r') : sentOnTx r = sentOnTx r' := by
  unfold Broker.sentOnTx
  rw [h.onTx]

/-! ## Replies -/

theorem flag_inj {α : Type} {b b' : Bool} {a a' : α}
    (h : (if b then [] else [a]) = if b' then [] else [a']) : b = b' := by
  cases b <;> cases b'
  · rfl
  · cases h
  · cases h
  · rfl

theorem noWait_of_sent {r r' : Request} {noWait noWait' : Bool} {f f' : Frame}
    (hr : sentOnTx r = if noWait then [] else [f])
    (hr' : sentOnTx r' = if noWait' then [] else [f']) (h : Agree r r') : noWait = noWait' := by
  have hsent := h.sentOnTx
  rw [hr, hr'] at hsent
  exact flag_inj hsent

theorem methodPayload_inj {classID methodID : UInt16} {a b : Bytes}
    (h : methodPayload classID methodID a = methodPayload classID methodID b) :
    a = b := List.append_cancel_left h

/-! ## Basic -/

theorem agree_qos {size size' : UInt32} {count count' : UInt16} {global global' : Bool}
    (h : Agree (.qos size count global) (.qos size' count' global')) :
    size.toUInt16 = size'.toUInt16 ∧ count = count' ∧ global = global' := by
  have hp : newServer.prefetch.setChannelPrefetch 1 count size.toUInt16 global =
      newServer.prefetch.setChannelPrefetch 1 count' size'.toUInt16 global' :=
    congrArg prefetch h.onTx
  have hsize : ∀ {a b : UInt16}, a.toUInt32 = b.toUInt32 → a = b := by
    intro a b hab
    have := congrArg UInt32.toUInt16 hab
    simpa using this
  cases global <;> cases global'
  · have hl : (⟨count, size.toUInt16.toUInt32, false⟩ : PrefetchLimit) =
        ⟨count', size'.toUInt16.toUInt32, false⟩ :=
      Option.some.inj (congrArg (fun p => Prefetch.limits p |>.get 1) hp)
    exact ⟨hsize (congrArg PrefetchLimit.size hl), congrArg PrefetchLimit.count hl, rfl⟩
  · cases congrArg Prefetch.globalLimit hp
  · cases congrArg Prefetch.globalLimit hp
  · have hl : (⟨count, size.toUInt16.toUInt32, true⟩ : PrefetchLimit) =
        ⟨count', size'.toUInt16.toUInt32, true⟩ :=
      Option.some.inj (congrArg Prefetch.globalLimit hp)
    exact ⟨hsize (congrArg PrefetchLimit.size hl), congrArg PrefetchLimit.count hl, rfl⟩

theorem agree_consume {q q' tag tag' : GoString} {nl na ex nw nl' na' ex' nw' : Bool}
    {args args' : Table}
    (h : Agree (.consume q tag nl na ex nw args) (.consume q' tag' nl' na' ex' nw' args')) :
    tag = tag' := by
  have htags : ∀ q t nl na ex nw a, ((onTx (.consume q t nl na ex nw a)).consumers.byTag.get tag) =
      if tag = t then some ⟨t, q, some 0, na, ex, a, stringArg a (str "x-group-id")⟩ else none := by
    intro q t nl na ex nw a
    have hsub : ((txChannel none).subscribe t q (some 0) na ex a) =
        (none, ((txChannel none).subscribe t q (some 0) na ex a).2) ∧
        ((txChannel none).subscribe t q (some 0) na ex a).2.consumers.byTag =
          (∅ : GoMap GoString Consumer).set t
            ⟨t, q, some 0, na, ex, a, stringArg a (str "x-group-id")⟩ := by
      unfold subscribe
      rw [if_neg (by exact nofun), if_neg (by cases ex <;> exact nofun)]
      exact ⟨rfl, rfl⟩
    unfold onTx perform
    dsimp only
    unfold performConsume
    rw [hsub.1]
    dsimp only
    unfold replyUnless
    split
    · rw [hsub.2, GoMap.get_set, GoMap.get_empty]
    · obtain ⟨k, hk⟩ := reply_eq
        ((txChannel none).subscribe t q (some 0) na ex a).2 0
        (methodPayload 60 21 (writeShortString t))
      rw [hk]
      dsimp only
      rw [hsub.2, GoMap.get_set, GoMap.get_empty]
  have hget := congrArg (fun s => s.consumers.byTag.get tag) h.onTx
  rw [htags, htags, if_pos rfl] at hget
  by_contra hne
  rw [if_neg hne] at hget
  cases hget

theorem agree_cancel {tag tag' : GoString} {noWait noWait' : Bool}
    (h : Agree (.cancel tag noWait) (.cancel tag' noWait')) :
    noWait = noWait' ∧ (noWait = false → tag = tag') := by
  have hsent : ∀ t n, sentOnTx (.cancel t n) = if n then [] else
      [⟨frameMethod, 1, methodPayload 60 31 (writeShortString t)⟩] := by
    intro t n
    cases n <;> rfl
  obtain rfl : noWait = noWait' := noWait_of_sent (hsent _ _) (hsent _ _) h
  refine ⟨rfl, fun hn => ?_⟩
  have hframes := h.sentOnTx
  rw [hsent, hsent, hn] at hframes
  have hpay := congrArg Frame.payload (List.cons.inj hframes).1
  exact (List.cons.inj (methodPayload_inj hpay)).2

theorem agree_publish {x x' key key' : GoString} {m m' i i' : Bool}
    (h : Agree (.publish x key m i) (.publish x' key' m' i')) : key = key' ∧ m = m' := by
  have hstaged : ∀ x key m i, ((onTx (.publish x key m i)).chans.read 0).txPending =
      [⟨x, key, 0⟩] := by
    intro x key m i
    cases m <;> rfl
  have hsent : ∀ x key m i, sentOnTx (.publish x key m i) = if !m then [] else
      [⟨frameMethod, 1, methodPayload 60 50 (writeUint16 312 ++
        writeShortString (str "NO_ROUTE") ++ writeShortString x ++ writeShortString key)⟩] := by
    intro x key m i
    cases m <;> rfl
  constructor
  · have hpend := congrArg (fun s => (s.chans.read 0).txPending) h.onTx
    rw [hstaged, hstaged] at hpend
    exact congrArg TxEntry.routingKey (List.cons.inj hpend).1
  · have hm := noWait_of_sent (hsent _ _ _ _) (hsent _ _ _ _) h
    exact Bool.not_inj hm

def oneReady : Server :=
  { txChannel none with
    msgs := Heap.empty.alloc (newMessage [] {})
    store := (∅ : GoMap GoString (List MsgRef)).set [] [0] }

theorem agree_get {noAck noAck' : Bool} (h : Agree (.get [] noAck) (.get [] noAck')) :
    noAck = noAck' := by
  have htrack : ∀ n, ((perform default 0 (.get [] n) oneReady).2.getDelivery 1 1).isSome = !n := by
    intro n
    cases n <;> rfl
  have hs := congrArg (fun o : Outcome => (o.2.getDelivery 1 1).isSome) (h default 0 oneReady rfl)
  rw [htrack, htrack] at hs
  exact Bool.not_inj hs

def oneWaiting (tag : UInt64) : Server :=
  { txChannel none with msgs := Heap.empty.alloc (newMessage [] {}) }.record tag 0 [] 1

theorem getDelivery_oneWaiting (tag : UInt64) :
    (oneWaiting tag).getDelivery tag 1 = some ⟨tag, 0, [], 1⟩ := by
  unfold oneWaiting
  rw [getDelivery_record, if_pos ⟨rfl, rfl⟩]

theorem agree_ack {tag tag' : UInt64} (h : Agree (.ack tag) (.ack tag')) : tag = tag' := by
  have hget : ∀ t, (perform default 0 (.ack t) (oneWaiting tag)).2.getDelivery tag 1 =
      if tag = t ∧ (1 : UInt16) = 1 then none else (oneWaiting tag).getDelivery tag 1 :=
    fun t => getDelivery_ack _ _ _ _ _
  have hs := congrArg (fun o : Outcome => o.2.getDelivery tag 1) (h default 0 (oneWaiting tag) rfl)
  rw [hget, hget, if_pos ⟨rfl, rfl⟩] at hs
  by_contra hne
  rw [if_neg (fun hc => hne hc.1), getDelivery_oneWaiting] at hs
  cases hs

theorem agree_refuse {refuse : UInt64 → Bool → Request}
    (hr : ∀ env ch t q s, perform env ch (refuse t q) s = s.performNack env ch t q)
    {tag tag' : UInt64} {requeue requeue' : Bool}
    (h : Agree (refuse tag requeue) (refuse tag' requeue')) :
    tag = tag' ∧ requeue = requeue' := by
  have heq := h default 0 (oneWaiting tag) rfl
  rw [hr, hr] at heq
  have hget : ∀ t q, ((oneWaiting tag).performNack default 0 t q).2.getDelivery tag 1 =
      if tag = t ∧ (1 : UInt16) = 1 then none else (oneWaiting tag).getDelivery tag 1 := by
    intro t q
    show (deadLetterRefused default _ q ((oneWaiting tag).nack t 1 q).2).getDelivery tag 1 =
      _
    rw [getDelivery_deadLetterRefused _ _ _ _ _ _ (fun hc => absurd hc.2 (by decide)),
      getDelivery_nack]
  have htag : tag = tag' := by
    have hs := congrArg (fun o : Outcome => o.2.getDelivery tag 1) heq
    rw [hget, hget, if_pos ⟨rfl, rfl⟩] at hs
    by_contra hne
    rw [if_neg (fun hc => hne hc.1), getDelivery_oneWaiting] at hs
    cases hs
  subst htag
  refine ⟨rfl, ?_⟩
  have hready : ∀ q, ((oneWaiting tag).performNack default 0 tag q).2.ready [] =
      if !q then [] else [0] := by
    intro q
    show (deadLetterRefused default ((oneWaiting tag).getDelivery tag 1) q
      ((oneWaiting tag).nack tag 1 q).2).ready [] = _
    rw [nack_of_some (getDelivery_oneWaiting tag), getDelivery_oneWaiting]
    cases q <;> rfl
  have hs := congrArg (fun o : Outcome => o.2.ready []) heq
  rw [hready, hready] at hs
  exact Bool.not_inj (flag_inj hs)

theorem agree_recover {requeue requeue' : Bool} (h : Agree (.recover requeue) (.recover requeue')) :
    requeue = requeue' := by
  have hready : ∀ q, (perform default 0 (.recover q) (oneWaiting 1)).2.ready [] =
      if !q then [] else [0] := by
    intro q
    cases q <;> rfl
  have hs := congrArg (fun o : Outcome => o.2.ready []) (h default 0 (oneWaiting 1) rfl)
  rw [hready, hready] at hs
  exact Bool.not_inj (flag_inj hs)

/-! ## Queues -/

theorem agree_queueDeclare {p d e a n p' d' e' a' n' : Bool} {args args' : Table}
    (h : Agree (.queueDeclare [] p d e a n args) (.queueDeclare [] p' d' e' a' n' args')) :
    p = p' ∧ (p = false → d = d') := by
  have hget : ∀ p d e a n args, (onTx (.queueDeclare [] p d e a n args)).queues.get [] =
      if p then none else some ⟨[], d, e, a, args, none⟩ := by
    intro p d e a n args
    cases p <;> cases n <;> rfl
  have hq := congrArg (fun s => s.queues.get []) h.onTx
  rw [hget, hget] at hq
  cases p <;> cases p'
  · exact ⟨rfl, fun _ => congrArg Queue.durable (Option.some.inj hq)⟩
  · cases hq
  · cases hq
  · exact ⟨rfl, nofun⟩

theorem agree_queueBind {q q' x x' key key' : GoString} {n n' : Bool} {args args' : Table}
    (h : Agree (.queueBind q x key n args) (.queueBind q' x' key' n' args')) :
    x = x' ∧ key = key' := by
  have hget : ∀ q x₁ key n args, (onTx (.queueBind q x₁ key n args)).bindings.getBindings x =
      if x = x₁ then [⟨x₁, q, key, args⟩] else [] := by
    intro q x₁ key n args
    have hb : (onTx (.queueBind q x₁ key n args)).bindings =
        (⟨∅, ∅⟩ : BindingManager).bind x₁ q key args := by cases n <;> rfl
    rw [hb]
    unfold BindingManager.getBindings BindingManager.bind
    dsimp only
    rw [GoMap.getD_set]
    rfl
  have hb := congrArg (fun s => s.bindings.getBindings x) h.onTx
  rw [hget, hget, if_pos rfl] at hb
  by_cases hx : x = x'
  · rw [if_pos hx] at hb
    exact ⟨hx, congrArg Binding.routingKey (List.cons.inj hb).1⟩
  · rw [if_neg hx] at hb
    cases hb

theorem agree_queuePurge {n n' : Bool} (h : Agree (.queuePurge [] n) (.queuePurge [] n')) :
    n = n' := by
  have hsent : ∀ n, sentOnTx (.queuePurge [] n) = if n then [] else
      [⟨frameMethod, 1, methodPayload 50 31 (writeUint32 0)⟩] := by
    intro n
    cases n <;> rfl
  exact noWait_of_sent (hsent n) (hsent n') h

theorem agree_queueDelete {u e n u' e' n' : Bool}
    (h : Agree (.queueDelete [] u e n) (.queueDelete [] u' e' n')) : n = n' := by
  have hsent : ∀ u e n, sentOnTx (.queueDelete [] u e n) = if n then [] else
      [⟨frameMethod, 1, methodPayload 50 41 (writeUint32 0)⟩] := by
    intro u e n
    cases n <;> rfl
  exact noWait_of_sent (hsent u e n) (hsent u' e' n') h

def oneBinding (x key : GoString) : Server :=
  { txChannel none with bindings := (⟨∅, ∅⟩ : BindingManager).bind x [] key [] }

theorem agree_queueUnbind {x x' key key' : GoString} {args args' : Table}
    (h : Agree (.queueUnbind [] x key args) (.queueUnbind [] x' key' args')) :
    x = x' ∧ key = key' := by
  have hget : ∀ x₁ k₁ a, (perform default 0 (.queueUnbind [] x₁ k₁ a)
        (oneBinding x key)).2.bindings.getBindings x =
      if x₁ = x ∧ key = k₁ then [] else [⟨x, [], key, []⟩] := by
    intro x₁ k₁ a
    show (BindingManager.unbind ((⟨∅, ∅⟩ : BindingManager).bind x [] key []) x₁ [] k₁).getBindings x
      = _
    unfold BindingManager.unbind BindingManager.getBindings BindingManager.removeFrom
      BindingManager.bind
    dsimp only
    by_cases hx : x₁ = x
    · subst hx
      by_cases hk : key = k₁ <;> simp [GoMap.getD, hk]
    · simp [GoMap.getD, hx]
  have hb := congrArg (fun o : Outcome => o.2.bindings.getBindings x)
    (h default 0 (oneBinding x key) rfl)
  rw [hget, hget, if_pos ⟨rfl, rfl⟩] at hb
  by_cases hx : x' = x ∧ key = key'
  · exact ⟨hx.1.symm, hx.2⟩
  · rw [if_neg hx] at hb
    cases hb

/-! ## Exchanges -/

def noExchange : Server := { txChannel none with exchanges := ∅ }

theorem agree_exchangeDeclare {ty ty' : GoString} {p d a i n p' d' a' i' n' : Bool}
    {args args' : Table}
    (h : Agree (.exchangeDeclare [] ty p d a i n args)
      (.exchangeDeclare [] ty' p' d' a' i' n' args')) :
    p = p' ∧ n = n' ∧
      (p = false → exchangeTypeOf ty = exchangeTypeOf ty' ∧ args = args') := by
  have hget : ∀ ty p d a i n args,
      (perform default 0 (.exchangeDeclare [] ty p d a i n args) noExchange).2.exchanges.get [] =
        if p then none
        else some ⟨[], exchangeTypeOf ty, false, false, false, args⟩ := by
    intro ty p d a i n args
    cases p <;> cases n <;> rfl
  have hx := congrArg (fun o : Outcome => o.2.exchanges.get []) (h default 0 noExchange rfl)
  rw [hget, hget] at hx
  cases p <;> cases p'
  · have hsent : ∀ ty d a i n args,
        ((perform default 0 (.exchangeDeclare [] ty false d a i n args) noExchange).2.conns.read
          0).out = if n then [] else [⟨frameMethod, 1, methodPayload 40 11 []⟩] := by
      intro ty d a i n args
      cases n <;> rfl
    have hout := congrArg (fun o : Outcome => (o.2.conns.read 0).out) (h default 0 noExchange rfl)
    rw [hsent, hsent] at hout
    exact ⟨rfl, flag_inj hout, fun _ => ⟨congrArg Exchange.type (Option.some.inj hx),
      congrArg Exchange.args (Option.some.inj hx)⟩⟩
  · cases hx
  · cases hx
  · -- a passive declare replies when the exchange exists
    have hsent : ∀ ty d a i n args, sentOnTx (.exchangeDeclare [] ty true d a i n args) =
        if n then [] else [⟨frameMethod, 1, methodPayload 40 11 []⟩] := by
      intro ty d a i n args
      cases n <;> rfl
    exact ⟨rfl, noWait_of_sent (hsent ..) (hsent ..) h, nofun⟩

theorem agree_exchangeDelete {u n u' n' : Bool}
    (h : Agree (.exchangeDelete [] u n) (.exchangeDelete [] u' n')) : n = n' := by
  have hsent : ∀ u n, sentOnTx (.exchangeDelete [] u n) = if n then [] else
      [⟨frameMethod, 1, methodPayload 40 21 []⟩] := by
    intro u n
    cases n <;> rfl
  exact noWait_of_sent (hsent u n) (hsent u' n') h

theorem onTx_exchangeBind {src : GoString} (hsrc : src ≠ []) (key : GoString) (n : Bool)
    (args : Table) :
    (onTx (.exchangeBind [] src key n args)).e2eBindings =
        (∅ : GoMap GoString (List E2EBinding)).set src [⟨src, [], key, args⟩] ∧
      sentOnTx (.exchangeBind [] src key n args) =
        if n then [] else [⟨frameMethod, 1, methodPayload 40 31 []⟩] := by
  have hcycle : E2EBindingManager.hasCycle (txChannel none).e2eBindings src [] = false := by
    show (if [] = src then (true, ([] : List GoString)) else _).1 = false
    rw [if_neg (Ne.symm hsrc)]
    rfl
  unfold sentOnTx onTx perform
  dsimp only
  unfold performExchangeBind
  rw [if_neg (by rw [hcycle]; exact nofun)]
  cases n <;> exact ⟨rfl, rfl⟩

theorem agree_exchangeBind {src src' key key' : GoString} {n n' : Bool} {args args' : Table}
    (hsrc : src ≠ [])
    (h : Agree (.exchangeBind [] src key n args) (.exchangeBind [] src' key' n' args')) :
    src = src' ∧ key = key' ∧ n = n' ∧ args = args' := by
  obtain ⟨hb, hs⟩ := onTx_exchangeBind hsrc key n args
  have he2e := congrArg e2eBindings h.onTx
  have hsrc' : src' ≠ [] := by
    rintro rfl
    have hnone : (onTx (.exchangeBind [] [] key' n' args')).e2eBindings = ∅ := rfl
    rw [hb, hnone] at he2e
    have hget := congrArg (fun m : GoMap GoString (List E2EBinding) => m.get src) he2e
    rw [GoMap.get_set_self, GoMap.get_empty] at hget
    cases hget
  obtain ⟨hb', hs'⟩ := onTx_exchangeBind hsrc' key' n' args'
  rw [hb, hb'] at he2e
  have hget := congrArg (fun m : GoMap GoString (List E2EBinding) => m.get src) he2e
  rw [GoMap.get_set_self, GoMap.get_set] at hget
  by_cases hx : src = src'
  · rw [if_pos hx] at hget
    have hbind := (List.cons.inj (Option.some.inj hget)).1
    exact ⟨hx, congrArg E2EBinding.routingKey hbind, noWait_of_sent hs hs' h,
      congrArg E2EBinding.args hbind⟩
  · rw [if_neg hx] at hget
    cases hget

def oneRoute (src key : GoString) : Server :=
  { txChannel none with
    e2eBindings := (∅ : GoMap GoString (List E2EBinding)).set src [⟨src, [], key, []⟩] }

theorem agree_exchangeUnbind {src src' key key' : GoString} {n n' : Bool}
    (h : Agree (.exchangeUnbind [] src key n) (.exchangeUnbind [] src' key' n')) :
    src = src' ∧ key = key' ∧ n = n' := by
  have hget : ∀ x₁ k₁ n, GoMap.getD (perform default 0 (.exchangeUnbind [] x₁ k₁ n)
        (oneRoute src key)).2.e2eBindings src [] =
      if x₁ = src ∧ key = k₁ then [] else [⟨src, [], key, []⟩] := by
    intro x₁ k₁ n
    have he : (perform default 0 (.exchangeUnbind [] x₁ k₁ n) (oneRoute src key)).2.e2eBindings =
        E2EBindingManager.unbind (oneRoute src key).e2eBindings x₁ [] k₁ := by cases n <;> rfl
    rw [he]
    unfold E2EBindingManager.unbind oneRoute
    by_cases hx : x₁ = src
    · subst hx
      by_cases hk : key = k₁ <;> simp [GoMap.getD, hk]
    · simp [GoMap.getD, hx]
  have hb := congrArg (fun o : Outcome => GoMap.getD o.2.e2eBindings src [])
    (h default 0 (oneRoute src key) rfl)
  rw [hget, hget, if_pos ⟨rfl, rfl⟩] at hb
  have hsent : ∀ x k n, sentOnTx (.exchangeUnbind [] x k n) = if n then [] else
      [⟨frameMethod, 1, methodPayload 40 51 []⟩] := by
    intro x k n
    cases n <;> rfl
  by_cases hx : src' = src ∧ key = key'
  · exact ⟨hx.1.symm, hx.2, noWait_of_sent (hsent ..) (hsent ..) h⟩
  · rw [if_neg hx] at hb
    cases hb

/-! ## Confirm -/

theorem agree_confirmSelect {n n' : Bool} (h : Agree (.confirmSelect n) (.confirmSelect n')) :
    n = n' := by
  have hsent : ∀ n, sentOnTx (.confirmSelect n) = if n then [] else
      [⟨frameMethod, 1, methodPayload 85 11 []⟩] := by
    intro n
    cases n <;> rfl
  exact noWait_of_sent (hsent n) (hsent n') h

end Gomq.Broker

import Gomq.Web.Server

/-!
# Who gets through to a handler

Every session in the store goes back to a login, was not logged out since, and was last used when
the store says (`Backed`); every request and the passing of time keep that. A handler inside `wrap`
therefore runs for authorised requests only. The WebSocket route is not wrapped.
-/

namespace Gomq.Web

open List

/-- The event ends what was known of a session: a logout, or a login that reuses the id. -/
def SessionEvent.Ends (id : GoString) : SessionEvent → Prop
  | created id' _ _ => id' = id
  | accessed _ _ => False
  | loggedOut id' => id' = id

/-- In the order of the log, the session was created with the token, was not logged out since, and
was used at the time. -/
def UsedAt (log : List SessionEvent) (id csrfToken : GoString) (time : ℕ) : Prop :=
  ∃ before created after, log = before ++ .created id csrfToken created :: after ∧
    (∀ e ∈ after, ¬ e.Ends id) ∧ (time = created ∨ .accessed id time ∈ after)

/-- The session cookie of the request names a session that was created by a login, was not logged
out, and was used within the last 24 hours; and unless the method is safe, the request carries the
token of that session. -/
def Authorised (s : Server) (r : Request) : Prop :=
  ∃ id csrfToken time, r.sessionCookie = some id ∧ UsedAt s.log id csrfToken time ∧
    s.now - time ≤ sessionTTL ∧
    (isSafeMethod r.method = false → carriedToken r = csrfToken ∧ csrfToken ≠ [])

/-! ## The store and the log -/

/-- A server with or without a hub, and every stored session is accounted for in the log. -/
structure Backed (hub : Bool) (s : Server) : Prop where
  webSocket : s.webSocket = hub
  used : ∀ id data, s.sessions.get id = some data → UsedAt s.log id data.csrfToken data.accessedAt

theorem UsedAt.append {log : List SessionEvent} {id csrfToken : GoString} {time : ℕ}
    (h : UsedAt log id csrfToken time) {e : SessionEvent} (he : ¬ e.Ends id) :
    UsedAt (log ++ [e]) id csrfToken time := by
  obtain ⟨before, created, after, rfl, hafter, htime⟩ := h
  refine ⟨before, created, after ++ [e], by simp, fun e' he' => ?_, ?_⟩
  · rcases mem_append.mp he' with he' | he'
    · exact hafter e' he'
    · rwa [mem_singleton.mp he']
  · exact htime.imp_right fun hmem => mem_append_left _ hmem

theorem UsedAt.access {log : List SessionEvent} {id csrfToken : GoString} {time : ℕ}
    (h : UsedAt log id csrfToken time) (now : ℕ) :
    UsedAt (log ++ [.accessed id now]) id csrfToken now := by
  obtain ⟨before, created, after, rfl, hafter, -⟩ := h
  refine ⟨before, created, after ++ [.accessed id now], by simp, fun e he => ?_, .inr (by simp)⟩
  rcases mem_append.mp he with he | he
  · exact hafter e he
  · rw [mem_singleton.mp he]
    exact fun hends => hends

variable {hub : Bool} {s : Server}

theorem Backed.create (h : Backed hub s) (username id csrfToken : GoString) :
    Backed hub (s.create username id csrfToken) := by
  refine ⟨h.webSocket, fun id' data hget => ?_⟩
  have hget' : (s.sessions.set id ⟨username, csrfToken, s.now, s.now⟩).get id' = some data := hget
  rw [GoMap.get_set] at hget'
  split at hget'
  · rename_i hid
    cases hget'
    rw [hid]
    exact ⟨s.log, s.now, [], rfl, by simp, .inl rfl⟩
  · rename_i hid
    exact (h.used id' data hget').append (Ne.symm hid)

theorem Backed.delete (h : Backed hub s) (id : GoString) : Backed hub (s.delete id) := by
  refine ⟨h.webSocket, fun id' data hget => ?_⟩
  have hget' : (s.sessions.del id).get id' = some data := hget
  rw [GoMap.get_del] at hget'
  split at hget'
  · cases hget'
  · rename_i hid
    exact (h.used id' data hget').append (Ne.symm hid)

theorem get_cases (s : Server) (id : GoString) :
    s.get id = (none, s) ∨
      ∃ data, s.sessions.get id = some data ∧ s.now - data.accessedAt ≤ sessionTTL ∧
        s.get id = (some { data with accessedAt := s.now },
          { s with
            sessions := s.sessions.set id { data with accessedAt := s.now }
            log := s.log ++ [.accessed id s.now] }) := by
  unfold Server.get
  split
  · exact .inl rfl
  · rename_i data hdata
    by_cases hold : sessionTTL < s.now - data.accessedAt
    · rw [if_pos hold]
      exact .inl rfl
    · rw [if_neg hold]
      exact .inr ⟨data, hdata, not_lt.mp hold, rfl⟩

theorem Backed.get (h : Backed hub s) (id : GoString) : Backed hub (s.get id).2 := by
  rcases get_cases s id with hnone | ⟨data, hdata, -, hsome⟩
  · rwa [hnone]
  · rw [hsome]
    refine ⟨h.webSocket, fun id' data' hget => ?_⟩
    have hget' : (s.sessions.set id { data with accessedAt := s.now }).get id' = some data' := hget
    rw [GoMap.get_set] at hget'
    split at hget'
    · rename_i hid
      cases hget'
      rw [hid]
      exact (h.used id data hdata).access s.now
    · exact (h.used id' data' hget').append fun hends => hends

theorem Backed.of_get (h : Backed hub s) {id : GoString} {found : Option SessionData} {s' : Server}
    (heq : s.get id = (found, s')) : Backed hub s' := by
  have hget := h.get id
  rwa [heq] at hget

theorem Backed.evictExpired (h : Backed hub s) : Backed hub s.evictExpired := by
  have hsub : ∀ id data, s.evictExpired.sessions.get id = some data →
      s.sessions.get id = some data := by
    intro id data
    refine foldlRecOn (motive := fun sessions : GoMap GoString SessionData =>
      sessions.get id = some data → s.sessions.get id = some data) _ _ (fun hget => hget) ?_
    intro sessions ih id' _ hget
    have hdel : (sessions.del id').get id = some data → sessions.get id = some data := by
      rw [GoMap.get_del]
      split
      · intro hnone
        cases hnone
      · exact fun hget => hget
    split at hget
    · split at hget
      · exact ih (hdel hget)
      · exact ih hget
    · exact ih hget
  exact ⟨h.webSocket, fun id data hget => h.used id data (hsub id data hget)⟩

/-! ## The middlewares -/

def Keeps (h : HandlerFunc) : Prop := ∀ hub s r, Backed hub s → Backed hub (h s r).1

theorem Keeps.require {next : HandlerFunc} (h : Keeps next) : Keeps (require next) := by
  intro hub s r hs
  unfold Web.require
  split
  · exact h hub s r hs
  · dsimp only
    split
    · exact hs
    · split
      · next heq => exact hs.of_get heq
      · next heq => exact h hub _ r (hs.of_get heq)

theorem Keeps.protect {next : HandlerFunc} (h : Keeps next) : Keeps (protect next) := by
  intro hub s r hs
  unfold Web.protect
  split
  · exact h hub s r hs
  · split
    · exact h hub s r hs
    · dsimp only
      split
      · exact hs
      · split
        · next heq => exact hs.of_get heq
        · next heq =>
          split
          · exact hs.of_get heq
          · exact h hub _ r (hs.of_get heq)

theorem Keeps.wrap {next : HandlerFunc} (h : Keeps next) : Keeps (wrap next) := h.protect.require

theorem keeps_handleIndex : Keeps handleIndex := by
  intro hub s r hs
  unfold handleIndex csrfTokenForRequest
  split
  · exact hs
  · dsimp only
    split
    · exact hs
    · split
      · next heq => exact hs.of_get heq
      · next heq => exact hs.of_get heq

theorem keeps_handleLoginPage : Keeps handleLoginPage := by
  intro hub s r hs
  unfold handleLoginPage
  split
  · exact hs
  · exact hs

theorem keeps_handleLogin : Keeps handleLogin := by
  intro hub s r hs
  unfold handleLogin
  split
  · exact hs
  · split
    · exact hs
    · exact hs.create _ _ _

theorem keeps_handleLogout : Keeps handleLogout := by
  intro hub s r hs
  unfold handleLogout
  dsimp only
  split
  · exact hs.delete _
  · exact hs

theorem registerRoutes_wrapped :
    ∀ p ∈ registerRoutes, ∃ next, p.2 = wrap next ∧ Keeps next := by
  have hpage : ∀ h, Keeps (handlePage h) := fun _ _ _ _ hs => hs
  simp only [registerRoutes, forall_mem_cons, not_mem_nil, false_imp_iff, implies_true,
    and_true]
  exact ⟨⟨_, rfl, keeps_handleIndex⟩, ⟨_, rfl, keeps_handleLoginPage⟩, ⟨_, rfl, keeps_handleLogin⟩,
    ⟨_, rfl, keeps_handleLogout⟩, ⟨_, rfl, hpage _⟩, ⟨_, rfl, hpage _⟩, ⟨_, rfl, hpage _⟩,
    ⟨_, rfl, hpage _⟩, ⟨_, rfl, hpage _⟩, ⟨_, rfl, hpage _⟩, ⟨_, rfl, hpage _⟩, ⟨_, rfl, hpage _⟩,
    ⟨_, rfl, hpage _⟩, ⟨_, rfl, hpage _⟩, ⟨_, rfl, hpage _⟩⟩

theorem serveHTTP_cases (s : Server) (r : Request) :
    (∃ next, Keeps next ∧ s.serveHTTP r = wrap next s r) ∨
      (s.webSocket = true ∧ r.path = str "/ws" ∧ s.serveHTTP r = serveWebSocket s r) := by
  unfold Server.serveHTTP
  split
  · rename_i h hlookup
    obtain ⟨l₁, l₂, hroutes, -⟩ := lookup_eq_some_iff.mp hlookup
    have hmem : (r.path, h) ∈ s.routes := by rw [hroutes]; simp
    rcases mem_append.mp hmem with hmem | hmem
    · obtain ⟨next, hwrap, hkeeps⟩ := registerRoutes_wrapped _ hmem
      exact .inl ⟨next, hkeeps, by rw [← hwrap]⟩
    · split at hmem
      · rename_i hws
        obtain ⟨hpath, hh⟩ := Prod.mk.inj (mem_singleton.mp hmem)
        exact .inr ⟨hws, hpath, by rw [hh]⟩
      · cases hmem
  · exact .inl ⟨_, keeps_handleIndex, rfl⟩

theorem serveHTTP_ws {r : Request} (hws : s.webSocket = true) (hpath : r.path = str "/ws") :
    s.serveHTTP r = serveWebSocket s r := by
  have hlookup : s.routes.lookup (str "/ws") = some serveWebSocket := by
    unfold Server.routes
    rw [if_pos hws]
    rfl
  unfold Server.serveHTTP
  rw [hpath, hlookup]

/-! ## Histories -/

theorem Backed.step (h : Backed hub s) (a : Action) : Backed hub (step s a) := by
  cases a with
  | request r =>
    rcases serveHTTP_cases s r with ⟨next, hkeeps, heq⟩ | ⟨-, -, heq⟩
    · rw [Web.step, heq]
      exact hkeeps.wrap hub s r h
    · rw [Web.step, heq]
      exact h
  | elapse d => exact ⟨h.webSocket, h.used⟩
  | cleanup => exact h.evictExpired

theorem require_ran {next : HandlerFunc} {r : Request} (hpath : isLoginPath r.path = false)
    (hran : (require next s r).2.Ran) :
    ∃ data s', r.sessionCookie = some (readSessionID r) ∧
      s.sessions.get (readSessionID r) = some data ∧ s.now - data.accessedAt ≤ sessionTTL ∧
      s'.sessions.get (readSessionID r) = some { data with accessedAt := s.now } ∧
      (next s' r).2.Ran := by
  unfold Web.require at hran
  rw [if_neg (by simp [hpath])] at hran
  dsimp only at hran
  by_cases hid : readSessionID r = []
  · rw [if_pos hid] at hran
    exact hran.elim
  · have hcookie : r.sessionCookie = some (readSessionID r) := by
      unfold readSessionID at hid ⊢
      cases hc : r.sessionCookie with
      | none => rw [hc] at hid; exact absurd rfl hid
      | some id => rfl
    rw [if_neg hid] at hran
    rcases get_cases s (readSessionID r) with hnone | ⟨data, hdata, htime, hsome⟩
    · rw [hnone] at hran
      exact hran.elim
    · rw [hsome] at hran
      exact ⟨data, _, hcookie, hdata, htime, GoMap.get_set_self .., hran⟩

theorem protect_ran {next : HandlerFunc} {r : Request} (hpath : isLoginPath r.path = false)
    (hmethod : isSafeMethod r.method = false) (hran : (protect next s r).2.Ran) {data : SessionData}
    (hdata : s.sessions.get (readSessionID r) = some data) :
    carriedToken r = data.csrfToken ∧ data.csrfToken ≠ [] := by
  unfold Web.protect at hran
  rw [if_neg (by simp [hpath]), if_neg (by simp [hmethod])] at hran
  dsimp only at hran
  split at hran
  · exact hran.elim
  · rcases get_cases s (readSessionID r) with hnone | ⟨data', hdata', -, hsome⟩
    · rw [hnone] at hran
      exact hran.elim
    · rw [hdata] at hdata'
      cases hdata'
      rw [hsome] at hran
      dsimp only at hran
      split at hran
      · exact hran.elim
      · rename_i htoken
        obtain ⟨hne, heq⟩ := not_or.mp htoken
        rw [not_ne_iff] at heq
        exact ⟨heq, heq ▸ hne⟩

theorem Backed.authorised (h : Backed hub s) {next : HandlerFunc} {r : Request}
    (hpath : isLoginPath r.path = false) (hran : (wrap next s r).2.Ran) : Authorised s r := by
  obtain ⟨data, s', hcookie, hdata, htime, hdata', hran'⟩ := require_ran hpath hran
  refine ⟨readSessionID r, data.csrfToken, data.accessedAt, hcookie, h.used _ data hdata, htime, ?_⟩
  intro hmethod
  have htoken := protect_ran hpath hmethod hran' hdata'
  exact htoken

/-- For every server, history and request that is not for the login: that the inner handler runs
for authorised requests only comes down to the route of the hub, which is open to all. -/
theorem runs_only_if_authorised_iff (authCfg : AuthConfig) (start : ℕ) (hub : Bool)
    (history : List Action) (r : Request)
    (hpath : r.path ≠ str "/login" ∧ r.path ≠ str "/api/login") :
    let s₀ := if hub then newServerWithWebSocket authCfg start else newServer authCfg start
    let s := history.foldl step s₀
    ((s.serveHTTP r).2.Ran → Authorised s r) ↔
      (hub = true → r.path = str "/ws" → Authorised s r) := by
  intro s₀ s
  have hstart : Backed hub s₀ := by
    cases hub with
    | false => exact ⟨rfl, fun id data hget => by cases hget⟩
    | true => exact ⟨rfl, fun id data hget => by cases hget⟩
  have hs : Backed hub s :=
    foldlRecOn (motive := Backed hub) history step hstart fun _ h a _ => h.step a
  have hlogin : isLoginPath r.path = false := by simpa [isLoginPath] using hpath
  constructor
  · intro honly hhub hws
    refine honly ?_
    rw [serveHTTP_ws (hs.webSocket.trans hhub) hws]
    exact True.intro
  · intro hopen hran
    rcases serveHTTP_cases s r with ⟨next, -, heq⟩ | ⟨hhub, hws, -⟩
    · rw [heq] at hran
      exact hs.authorised hlogin hran
    · exact hopen (hs.webSocket.symm.trans hhub) hws

def getRequest (path : GoString) (sessionCookie : Option GoString) : Request where
  method := str "GET"
  path := path
  sessionCookie := sessionCookie
  csrfHeader := []
  csrfForm := []
  username := []
  password := []
  htmx := false
  newID := []
  newToken := []

def adminLogin : Request :=
  { getRequest (str "/api/login") none with
    method := str "POST"
    username := str "admin"
    password := str "secret"
    newID := str "5e55"
    newToken := str "70ce" }

theorem runs_only_if_authorised_iff_after_login :
    let s := [Action.request adminLogin, .elapse sessionTTL].foldl step
      (newServer ⟨str "admin", str "secret"⟩ 0)
    let r := getRequest (str "/api/queues") (some (str "5e55"))
    (s.serveHTTP r).2 = .inner .queues .page ∧
      (((s.serveHTTP r).2.Ran → Authorised s r) ↔
        (false = true → r.path = str "/ws" → Authorised s r)) :=
  ⟨by decide, runs_only_if_authorised_iff ⟨str "admin", str "secret"⟩ 0 false
    [.request adminLogin, .elapse sessionTTL] (getRequest (str "/api/queues") (some (str "5e55")))
    (by decide)⟩

/-- On a server with a hub, a request without a cookie is upgraded. -/
theorem ws_open_to_all :
    let s := newServerWithWebSocket ⟨str "admin", str "secret"⟩ 0
    (s.serveHTTP (getRequest (str "/ws") none)).2 = .inner .webSocket .upgrade ∧
      ¬ Authorised s (getRequest (str "/ws") none) := by
  refine ⟨rfl, ?_⟩
  rintro ⟨id, csrfToken, time, hcookie, -⟩
  cases hcookie

end Gomq.Web

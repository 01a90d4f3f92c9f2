import Gomq.Lib.GoMap
import Gomq.Lib.Bytes

/-!
# The management UI

Sessions, the two middlewares and the routes. A handler is a function on the server and a request;
its reply says whether the handler inside the middlewares ran. What `generateSessionID` returns is
part of the request, and time passes between requests. `log` is not in the code: it lists what
happened to sessions, in order.
-/

namespace Gomq.Web

/-! ## Sessions -/

/-- 24 hours, in nanoseconds. -/
def sessionTTL : ℕ := 24 * 60 * 60 * 1000000000

structure SessionData where
  username : GoString
  csrfToken : GoString
  createdAt : ℕ
  accessedAt : ℕ

inductive SessionEvent where
  | created (id csrfToken : GoString) (time : ℕ)
  | accessed (id : GoString) (time : ℕ)
  | loggedOut (id : GoString)
  deriving DecidableEq

structure AuthConfig where
  username : GoString
  password : GoString

structure Server where
  sessions : GoMap GoString SessionData
  config : AuthConfig
  /-- The server was built with a WebSocket hub. -/
  webSocket : Bool
  now : ℕ
  log : List SessionEvent

namespace Server

def create (s : Server) (username id csrfToken : GoString) : Server :=
  { s with
    sessions := s.sessions.set id ⟨username, csrfToken, s.now, s.now⟩
    log := s.log ++ [.created id csrfToken s.now] }

/-- `SessionStore.Get`: a session that was not used for too long counts as absent, any other is
used now. -/
def get (s : Server) (id : GoString) : Option SessionData × Server :=
  match s.sessions.get id with
  | none => (none, s)
  | some data =>
    if sessionTTL < s.now - data.accessedAt then (none, s)
    else
      let data := { data with accessedAt := s.now }
      (some data, { s with
        sessions := s.sessions.set id data
        log := s.log ++ [.accessed id s.now] })

def delete (s : Server) (id : GoString) : Server :=
  { s with sessions := s.sessions.del id, log := s.log ++ [.loggedOut id] }

def evictExpired (s : Server) : Server :=
  { s with
    sessions := s.sessions.keys.foldl (fun sessions id =>
      match s.sessions.get id with
      | some d => if d.accessedAt + sessionTTL < s.now then sessions.del id else sessions
      | none => sessions) s.sessions }

end Server

/-! ## Requests and replies -/

/-- A request with its session cookie, its CSRF header, its form values and its `HX-Request`
header; `newID` and `newToken` are what `generateSessionID` returns while it is handled. -/
structure Request where
  method : GoString
  path : GoString
  sessionCookie : Option GoString
  csrfHeader : GoString
  csrfForm : GoString
  username : GoString
  password : GoString
  htmx : Bool
  newID : GoString
  newToken : GoString

/-- The handlers inside the middlewares. -/
inductive Handler where
  | index | loginPage | login | logout | overview | admin | exchanges | queues | bindings
  | connections | channels | messages | cluster | vhosts | setLang | webSocket
  deriving DecidableEq

/-- What an inner handler answers; the data of the API pages is left out. -/
inductive Answer where
  | page
  | index (csrfToken : GoString)
  | notFound
  | methodNotAllowed
  | invalidCredentials
  | loggedIn (id : GoString) (htmx : Bool)
  | loggedOut (htmx : Bool)
  | upgrade
  deriving DecidableEq

inductive Reply where
  /-- To the login page, for htmx by a header. -/
  | redirectLogin (htmx : Bool)
  /-- Status 403. -/
  | forbidden (message : GoString)
  | inner (h : Handler) (a : Answer)
  deriving DecidableEq

def Reply.Ran : Reply → Prop
  | inner _ _ => True
  | _ => False

abbrev HandlerFunc := Server → Request → Server × Reply

def readSessionID (r : Request) : GoString := r.sessionCookie.getD []

/-! ## Middlewares -/

def isSafeMethod (m : GoString) : Bool :=
  m == str "GET" || m == str "HEAD" || m == str "OPTIONS" || m == str "TRACE"

def isLoginPath (path : GoString) : Bool := path == str "/login" || path == str "/api/login"

def require (next : HandlerFunc) : HandlerFunc := fun s r =>
  if isLoginPath r.path then next s r
  else
    let id := readSessionID r
    if id = [] then (s, .redirectLogin r.htmx)
    else
      match s.get id with
      | (none, s) => (s, .redirectLogin r.htmx)
      | (some _, s) => next s r

/-- The token a request carries: the header, or else the form value. -/
def carriedToken (r : Request) : GoString := if r.csrfHeader = [] then r.csrfForm else r.csrfHeader

def protect (next : HandlerFunc) : HandlerFunc := fun s r =>
  if isLoginPath r.path then next s r
  else if isSafeMethod r.method then next s r
  else
    let id := readSessionID r
    if id = [] then (s, .forbidden (str "session required"))
    else
      match s.get id with
      | (none, s) => (s, .forbidden (str "session expired"))
      | (some data, s) =>
        let token := carriedToken r
        if token = [] ∨ token ≠ data.csrfToken then (s, .forbidden (str "invalid csrf token"))
        else next s r

def wrap (h : HandlerFunc) : HandlerFunc := require (protect h)

/-! ## Handlers -/

/-- `CSRFTokenForRequest`, which uses the session once more. -/
def csrfTokenForRequest (s : Server) (r : Request) : Server × GoString :=
  let id := readSessionID r
  if id = [] then (s, [])
  else
    match s.get id with
    | (none, s) => (s, [])
    | (some data, s) => (s, data.csrfToken)

def handleIndex : HandlerFunc := fun s r =>
  if r.path ≠ str "/" then (s, .inner .index .notFound)
  else
    let t := csrfTokenForRequest s r
    (t.1, .inner .index (.index t.2))

def handleLoginPage : HandlerFunc := fun s r =>
  if r.method ≠ str "GET" then (s, .inner .loginPage .methodNotAllowed)
  else (s, .inner .loginPage .page)

def handleLogin : HandlerFunc := fun s r =>
  if r.method ≠ str "POST" then (s, .inner .login .methodNotAllowed)
  else if r.username ≠ s.config.username ∨ r.password ≠ s.config.password then
    (s, .inner .login .invalidCredentials)
  else (s.create r.username r.newID r.newToken, .inner .login (.loggedIn r.newID r.htmx))

def handleLogout : HandlerFunc := fun s r =>
  let id := readSessionID r
  let s := if id ≠ [] then s.delete id else s
  (s, .inner .logout (.loggedOut r.htmx))

def handlePage (h : Handler) : HandlerFunc := fun s _ => (s, .inner h .page)

def serveWebSocket : HandlerFunc := fun s _ => (s, .inner .webSocket .upgrade)

/-! ## Routes -/

def registerRoutes : List (GoString × HandlerFunc) :=
  [(str "/", wrap handleIndex),
    (str "/login", wrap handleLoginPage),
    (str "/api/login", wrap handleLogin),
    (str "/api/logout", wrap handleLogout),
    (str "/api/overview", wrap (handlePage .overview)),
    (str "/api/admin", wrap (handlePage .admin)),
    (str "/api/exchanges", wrap (handlePage .exchanges)),
    (str "/api/queues", wrap (handlePage .queues)),
    (str "/api/bindings", wrap (handlePage .bindings)),
    (str "/api/connections", wrap (handlePage .connections)),
    (str "/api/channels", wrap (handlePage .channels)),
    (str "/api/messages", wrap (handlePage .messages)),
    (str "/api/cluster", wrap (handlePage .cluster)),
    (str "/api/vhosts", wrap (handlePage .vhosts)),
    (str "/api/lang", wrap (handlePage .setLang))]

/-- The route of the hub is registered as it is, without `wrap`. -/
def registerWebSocket : List (GoString × HandlerFunc) := [(str "/ws", serveWebSocket)]

def Server.routes (s : Server) : List (GoString × HandlerFunc) :=
  registerRoutes ++ if s.webSocket then registerWebSocket else []

/-- `ServeMux`: the handler registered for the path; the pattern `/` takes every other path. -/
def Server.serveHTTP (s : Server) (r : Request) : Server × Reply :=
  match s.routes.lookup r.path with
  | some h => h s r
  | none => wrap handleIndex s r

/-! ## Histories -/

def newServer (authCfg : AuthConfig) (now : ℕ) : Server := ⟨∅, authCfg, false, now, []⟩

def newServerWithWebSocket (authCfg : AuthConfig) (now : ℕ) : Server :=
  ⟨∅, authCfg, true, now, []⟩

inductive Action where
  | request (r : Request)
  | elapse (d : ℕ)
  | cleanup

def step (s : Server) : Action → Server
  | .request r => (s.serveHTTP r).1
  | .elapse d => { s with now := s.now + d }
  | .cleanup => s.evictExpired

end Gomq.Web

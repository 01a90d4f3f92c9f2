import Gomq.Broker.Logs
import Gomq.Broker.Server
import Gomq.Reload.Config

/-!
# Applying a configuration

`applyConfig` changes the settings of the server first and looks at the TLS files last. If those
cannot be loaded it returns an error, and the new settings stay. So it applies a configuration as a
whole or not at all exactly if TLS is off, the files can be loaded, or the settings were there
before (`allOrNothing_iff`).
-/

namespace Gomq.Reload

open Broker (Rule AuditLog MessageTracer Time)

/-! ## The settings of a server -/

structure RateLimiter (F : Type) where
  tokens : F
  max : F
  refill : F
  last : Time

structure BackPressure (F : Type) where
  thresholdPercent : F
  enabled : Bool
  paused : Bool
  memoryUsage : ℤ

/-- The server: the broker, with its access rules, and what else a configuration sets. -/
structure Server (F : Type) where
  broker : Broker.Server
  rateLimiter : Option (RateLimiter F)
  backPressure : Option (BackPressure F)
  auditLog : AuditLog
  messageTracer : MessageTracer
  cfg : Config F
  tlsCertFile : GoString
  tlsKeyFile : GoString
  tlsCAFile : GoString
  tlsVerify : Bool

section

variable {F : Type} [GoFloat F]

def newRateLimiter (now : ℕ) (maxBurst : ℤ) (refillRate : F) : RateLimiter F :=
  ⟨GoFloat.ofInt maxBurst, GoFloat.ofInt maxBurst, refillRate, some now⟩

def newBackPressure (thresholdPercent : F) : BackPressure F :=
  ⟨thresholdPercent, GoFloat.pos thresholdPercent, false, 0⟩

def ruleOf (r : ACLRule) : Rule :=
  ⟨r.user, r.vhost, r.resourceType, r.resourceName, r.permission, r.allow⟩

/-- The access rules of a configuration; without any there is no check. -/
def aclOf (cfg : Config F) : Option (List Rule) :=
  if 0 < cfg.acl.rules.length then some (cfg.acl.rules.map ruleOf) else none

def rateLimiterOf (now : ℕ) (cfg : Config F) : Option (RateLimiter F) :=
  let rate := cfg.limits.maxConnectionsPerSecond
  if GoFloat.pos rate then
    let burst := GoFloat.toInt rate
    some (newRateLimiter now (if burst < 1 then 1 else burst) rate)
  else none

def backPressureOf (cfg : Config F) : Option (BackPressure F) :=
  if cfg.limits.backPressureEnabled then some (newBackPressure cfg.limits.memoryThresholdPercent)
  else none

namespace Server

/-- `ReloadConfig`. It never fails. -/
def reloadConfig (s : Server F) (now : ℕ) (cfg : Config F) : Server F :=
  { s with
    broker := { s.broker with aclMgr := aclOf cfg }
    rateLimiter := rateLimiterOf now cfg
    backPressure := backPressureOf cfg
    auditLog := (s.auditLog.setEnabled cfg.audit.enabled).setMaxSize cfg.audit.maxEvents
    messageTracer :=
      (s.messageTracer.setEnabled cfg.audit.traceEnabled).setMaxSize cfg.audit.traceMaxEvents
    cfg := cfg }

def setTLSCertPaths (s : Server F) (certFile keyFile caFile : GoString) (verify : Bool) :
    Server F :=
  { s with
    tlsCertFile := certFile
    tlsKeyFile := keyFile
    tlsCAFile := caFile
    tlsVerify := verify }

end Server

/-! ## TLS -/

/-- The files that TLS needs, with the errors of the functions that read them. -/
structure Files where
  loadX509KeyPair : GoString → GoString → Except GoString Bytes
  readFile : GoString → Except GoString Bytes
  appendCertsFromPEM : Bytes → Bool

inductive TLSError where
  /-- `load cert/key: %w` -/
  | certKey (e : GoString)
  /-- `load CA: read CA file: %w` -/
  | readCA (e : GoString)
  /-- `load CA: invalid CA PEM: %s` -/
  | invalidPEM (path : GoString)
  /-- `verify_client requires ca_file` -/
  | requiresCA
  deriving DecidableEq

structure TLSConfig where
  certificate : Bytes
  clientCAs : Option Bytes
  verifyClient : Bool

def loadCertPool (files : Files) (path : GoString) : Except TLSError Bytes :=
  match files.readFile path with
  | .error e => .error (.readCA e)
  | .ok pem => if files.appendCertsFromPEM pem then .ok pem else .error (.invalidPEM path)

def newTLSConfig (files : Files) (certFile keyFile caFile : GoString) (verifyClient : Bool) :
    Except TLSError TLSConfig :=
  match files.loadX509KeyPair certFile keyFile with
  | .error e => .error (.certKey e)
  | .ok cert =>
    if caFile ≠ [] then
      match loadCertPool files caFile with
      | .error e => .error e
      | .ok pool => .ok ⟨cert, some pool, verifyClient⟩
    else if verifyClient then .error .requiresCA
    else .ok ⟨cert, none, false⟩

def tlsOf (files : Files) (cfg : Config F) : Except TLSError TLSConfig :=
  newTLSConfig files cfg.tls.certFile cfg.tls.keyFile cfg.tls.caFile cfg.tls.verifyClient

/-- `ReloadTLS`; the error is wrapped as `reload tls: %w`. -/
def Server.reloadTLS (s : Server F) (files : Files) (cfg : Config F) :
    Option TLSError × Server F :=
  if cfg.tls.enabled = false then (none, s)
  else
    match tlsOf files cfg with
    | .error e => (some e, s)
    | .ok _ =>
      (none, s.setTLSCertPaths cfg.tls.certFile cfg.tls.keyFile cfg.tls.caFile cfg.tls.verifyClient)

/-! ## The whole -/

inductive LogLine where
  /-- `config reload: ignoring non-reloadable key %q (restart required)` -/
  | ignoring (key : GoString)
  /-- `config reload: log level changed %q -> %q` -/
  | levelChanged (old new : GoString)
  /-- `config reload: tls certificates updated` -/
  | tlsUpdated

structure Applied (F : Type) where
  err : Option TLSError
  server : Server F
  log : List LogLine

def applyConfig (files : Files) (now : ℕ) (s : Server F) (oldCfg newCfg : Config F) : Applied F :=
  let reloadable := isReloadable oldCfg newCfg
  let log := if reloadable.1 then [] else reloadable.2.map LogLine.ignoring
  let s := s.reloadConfig now newCfg
  let log := if oldCfg.log.level ≠ newCfg.log.level then
      log ++ [.levelChanged oldCfg.log.level newCfg.log.level] else log
  if newCfg.tls.enabled then
    match s.reloadTLS files newCfg with
    | (some e, s) => ⟨some e, s, log⟩
    | (none, s) => ⟨none, s, log ++ [.tlsUpdated]⟩
  else ⟨none, s, log⟩

structure SameSettings (s s' : Server F) : Prop where
  aclMgr : s'.broker.aclMgr = s.broker.aclMgr
  rateLimiter : s'.rateLimiter = s.rateLimiter
  backPressure : s'.backPressure = s.backPressure
  auditEnabled : s'.auditLog.enabled = s.auditLog.enabled
  auditMaxSize : s'.auditLog.maxSize = s.auditLog.maxSize
  traceEnabled : s'.messageTracer.enabled = s.messageTracer.enabled
  traceMaxSize : s'.messageTracer.maxSize = s.messageTracer.maxSize
  cfg : s'.cfg = s.cfg
  tlsCertFile : s'.tlsCertFile = s.tlsCertFile
  tlsKeyFile : s'.tlsKeyFile = s.tlsKeyFile
  tlsCAFile : s'.tlsCAFile = s.tlsCAFile
  tlsVerify : s'.tlsVerify = s.tlsVerify

def limitOf (n : ℤ) : ℤ := if n < 0 then 0 else n

/-- The server has the settings of a configuration, with a rate limiter as it is when it is new. -/
structure HasSettings (now : ℕ) (cfg : Config F) (s : Server F) : Prop where
  aclMgr : s.broker.aclMgr = aclOf cfg
  rateLimiter : s.rateLimiter = rateLimiterOf now cfg
  backPressure : s.backPressure = backPressureOf cfg
  auditEnabled : s.auditLog.enabled = cfg.audit.enabled
  auditMaxSize : s.auditLog.maxSize = limitOf cfg.audit.maxEvents
  traceEnabled : s.messageTracer.enabled = cfg.audit.traceEnabled
  traceMaxSize : s.messageTracer.maxSize = limitOf cfg.audit.traceMaxEvents
  cfg : s.cfg = cfg

theorem sameSettings_reloadConfig_iff (now : ℕ) (cfg : Config F) (s : Server F) :
    SameSettings s (s.reloadConfig now cfg) ↔ HasSettings now cfg s := by
  constructor
  · intro h
    exact ⟨h.aclMgr.symm, h.rateLimiter.symm, h.backPressure.symm, h.auditEnabled.symm,
      h.auditMaxSize.symm, h.traceEnabled.symm, h.traceMaxSize.symm, h.cfg.symm⟩
  · intro h
    exact ⟨h.aclMgr.symm, h.rateLimiter.symm, h.backPressure.symm, h.auditEnabled.symm,
      h.auditMaxSize.symm, h.traceEnabled.symm, h.traceMaxSize.symm, h.cfg.symm, rfl, rfl, rfl, rfl⟩

theorem applyConfig_error_iff (files : Files) (now : ℕ) (s : Server F) (oldCfg newCfg : Config F)
    (e : TLSError) :
    (applyConfig files now s oldCfg newCfg).err = some e ↔
      newCfg.tls.enabled = true ∧ tlsOf files newCfg = .error e := by
  unfold applyConfig Server.reloadTLS
  cases newCfg.tls.enabled with
  | false => simp
  | true =>
    cases tlsOf files newCfg with
    | error e' => simp
    | ok c => simp

theorem applyConfig_server_of_error {files : Files} {now : ℕ} {s : Server F}
    {oldCfg newCfg : Config F} (h : (applyConfig files now s oldCfg newCfg).err ≠ none) :
    (applyConfig files now s oldCfg newCfg).server = s.reloadConfig now newCfg := by
  obtain ⟨e, he⟩ := Option.ne_none_iff_exists'.mp h
  obtain ⟨hon, htls⟩ := (applyConfig_error_iff files now s oldCfg newCfg e).mp he
  unfold applyConfig Server.reloadTLS
  simp [hon, htls]

/-- A configuration that is refused leaves the settings as they were exactly if TLS is off, the TLS
files can be loaded, or the server had the settings of that configuration already. -/
theorem allOrNothing_iff (files : Files) (now : ℕ) (s : Server F) (oldCfg newCfg : Config F) :
    ((applyConfig files now s oldCfg newCfg).err ≠ none →
        SameSettings s (applyConfig files now s oldCfg newCfg).server) ↔
      newCfg.tls.enabled = false ∨ (∃ c, tlsOf files newCfg = .ok c) ∨
        HasSettings now newCfg s := by
  constructor
  · intro h
    cases hon : newCfg.tls.enabled with
    | false => exact .inl rfl
    | true =>
      refine .inr ?_
      cases htls : tlsOf files newCfg with
      | ok c => exact .inl ⟨c, rfl⟩
      | error e =>
        have herr : (applyConfig files now s oldCfg newCfg).err ≠ none := by
          rw [(applyConfig_error_iff files now s oldCfg newCfg e).mpr ⟨hon, htls⟩]
          exact nofun
        have hsame := h herr
        rw [applyConfig_server_of_error herr] at hsame
        exact .inr ((sameSettings_reloadConfig_iff now newCfg s).mp hsame)
  · intro h herr
    obtain ⟨e, he⟩ := Option.ne_none_iff_exists'.mp herr
    obtain ⟨hon, htls⟩ := (applyConfig_error_iff files now s oldCfg newCfg e).mp he
    rcases h with hoff | ⟨c, hok⟩ | hset
    · rw [hon] at hoff
      cases hoff
    · rw [htls] at hok
      cases hok
    · rw [applyConfig_server_of_error herr]
      exact (sameSettings_reloadConfig_iff now newCfg s).mpr hset

theorem applyConfig_frame (files : Files) (now : ℕ) (s : Server F) (oldCfg newCfg : Config F) :
    let after := (applyConfig files now s oldCfg newCfg).server
    after.broker = { s.broker with aclMgr := aclOf newCfg } ∧
      after.auditLog.records = s.auditLog.records ∧
      after.messageTracer.records = s.messageTracer.records := by
  unfold applyConfig Server.reloadTLS
  cases newCfg.tls.enabled with
  | false => exact ⟨rfl, rfl, rfl⟩
  | true => cases tlsOf files newCfg <;> exact ⟨rfl, rfl, rfl⟩

end

/-! ## A configuration that is half applied -/

def noFiles : Files where
  loadX509KeyPair _ _ := .error (str "no such file or directory")
  readFile _ := .error (str "no such file or directory")
  appendCertsFromPEM _ := false

def runningServer : Server ℚ where
  broker := Broker.newServer
  rateLimiter := none
  backPressure := none
  auditLog := Broker.newAuditLog false 10000
  messageTracer := Broker.newMessageTracer false 10000
  cfg := defaultConfig
  tlsCertFile := []
  tlsKeyFile := []
  tlsCAFile := []
  tlsVerify := false

/-- The defaults with a rule that denies everything, and TLS with a certificate that does not
exist. -/
def denyAll : Config ℚ :=
  { defaultConfig with
    acl := ⟨[⟨str "*", str "*", str "*", str "*", str "*", false⟩]⟩
    tls := ⟨true, str "cert.pem", str "key.pem", [], false, []⟩ }

/-- The configuration is refused for its certificate, and its rule is in force. -/
theorem applyConfig_half_applied :
    (applyConfig noFiles 0 runningServer defaultConfig denyAll).err =
        some (.certKey (str "no such file or directory")) ∧
      (applyConfig noFiles 0 runningServer defaultConfig denyAll).server.broker.aclMgr =
        some [⟨str "*", str "*", str "*", str "*", str "*", false⟩] ∧
      ¬ SameSettings runningServer
        (applyConfig noFiles 0 runningServer defaultConfig denyAll).server := by
  refine ⟨rfl, rfl, fun h => ?_⟩
  cases h.aclMgr

end Gomq.Reload

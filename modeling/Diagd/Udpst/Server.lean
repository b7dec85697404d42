import Diagd.Lib.Resumption
import Diagd.Udpst.Session

/-!
# Setup handling (`server.go`)

`handleSetup` as a program over the server's shared state. Every
lock-protected section, atomic counter, socket call and clock reading of
the source is one operation (`SetupOp`), so other goroutines can run
between any two of them; what the operation does to the shared state is
`SetupOp.exec`.

The order of the checks is the source's: the digest and the clock skew
first, then version, multi-connection parameters and the two table
settings, then the bandwidth reservation, then the authentication mode
(`modeVerdict`), then the session socket.
-/

namespace Diagd.Udpst

open GoSlice GoStd Resumption

/-! ## Shared state and operations -/

/-- The mutable fields of a `Server`. The two lists record what was handed
to the control socket and to session sockets, oldest first. -/
structure Shared where
  usedUS : Int := 0
  usedDS : Int := 0
  sessions : Int := 0
  nextPort : Int := 0
  closed : Bool := false
  wg : Int := 0
  setupAccepts : Nat := 0
  setupRejects : Nat := 0
  responses : List (Bytes × AddrPort) := []
  nulls : List (Bytes × AddrPort) := []
  deriving DecidableEq, Repr

/-- What the world answers to one operation: the clock, and the local port
a `ListenUDP` on a given port would be bound to. -/
structure Env where
  now : Time := 0
  listen : Int → Option UInt16 := fun _ => none

inductive SetupOp where
  /-- `time.Now()` -/
  | now
  | reserveBandwidth (upstream : Bool) (mbw : Int)
  | releaseBandwidth (upstream : Bool) (mbw : Int)
  /-- the first critical section of `newSessionSocket`; an answer `some`
  is its error -/
  | countSession
  /-- `start := s.nextPort` under the lock -/
  | readNextPort
  /-- `net.ListenUDP` on a port, 0 for an ephemeral one -/
  | listenUDP (port : Int)
  /-- the critical section that moves `nextPort` behind `port` -/
  | advanceNextPort (port : Int)
  | sessionDone
  /-- `setupAccepts.Add(1)` or `setupRejects.Add(1)` -/
  | countResponse (code : UInt8)
  /-- a write on the control socket -/
  | sendResponse (pdu : Bytes) (peer : AddrPort)
  /-- a write on the new session socket -/
  | sendNull (pdu : Bytes) (peer : AddrPort)
  /-- `s.wg.Add(1)` -/
  | wgAdd
  /-- `go sess.run()` -/
  | start (sess : Session)

/-- The type of an operation's answer. -/
abbrev SetupOp.Res : SetupOp → Type
  | .now => Time
  | .reserveBandwidth _ _ => Bool
  | .countSession => Option String
  | .readNextPort => Int
  | .listenUDP _ => Option UInt16
  | .releaseBandwidth _ _ | .advanceNextPort _ | .sessionDone | .countResponse _
  | .sendResponse _ _ | .sendNull _ _ | .wgAdd | .start _ => Unit

abbrev setupSig : Sig := ⟨SetupOp, SetupOp.Res⟩

abbrev SetupProg := Prog setupSig Panic

namespace Shared

/-- `reserveBandwidth`. -/
def reserve (sh : Shared) (limit : Int) (upstream : Bool) (mbw : Int) : Bool × Shared :=
  let used := if upstream then sh.usedUS else sh.usedDS
  if limit < used + mbw then (false, sh)
  else (true, if upstream then { sh with usedUS := sh.usedUS + mbw }
    else { sh with usedDS := sh.usedDS + mbw })

/-- `releaseBandwidth`. -/
def release (sh : Shared) (upstream : Bool) (mbw : Int) : Shared :=
  if upstream then { sh with usedUS := sh.usedUS - mbw }
  else { sh with usedDS := sh.usedDS - mbw }

/-- The session count of `newSessionSocket`. -/
def countSession (sh : Shared) (maxSessions : Int) : Option String × Shared :=
  if sh.closed then (some "server closed", sh)
  else if maxSessions ≤ sh.sessions then (some "session limit reached", sh)
  else (none, { sh with sessions := sh.sessions + 1 })

/-- `nextPort` after `port` was bound. -/
def advancePort (sh : Shared) (cfg : Config) (port : Int) : Shared :=
  { sh with nextPort := if cfg.testPortMax < port + 1 then cfg.testPortMin else port + 1 }

/-- `sessionDone`. -/
def uncountSession (sh : Shared) : Shared := { sh with sessions := sh.sessions - 1 }

end Shared

/-- The answer to an operation and the shared state after it. -/
def SetupOp.exec (cfg : Config) : (o : SetupOp) → Env → Shared → o.Res × Shared
  | .now, env, sh => (env.now, sh)
  | .reserveBandwidth upstream mbw, _, sh => sh.reserve cfg.maxBandwidthMbps upstream mbw
  | .releaseBandwidth upstream mbw, _, sh => ((), sh.release upstream mbw)
  | .countSession, _, sh => sh.countSession cfg.maxSessions
  | .readNextPort, _, sh => (sh.nextPort, sh)
  | .listenUDP port, env, sh => (env.listen port, sh)
  | .advanceNextPort port, _, sh => ((), sh.advancePort cfg port)
  | .sessionDone, _, sh => ((), sh.uncountSession)
  | .countResponse code, _, sh =>
      ((), if code = setupRespACKOK then { sh with setupAccepts := sh.setupAccepts + 1 }
        else { sh with setupRejects := sh.setupRejects + 1 })
  | .sendResponse pdu peer, _, sh => ((), { sh with responses := sh.responses ++ [(pdu, peer)] })
  | .sendNull pdu peer, _, sh => ((), { sh with nulls := sh.nulls ++ [(pdu, peer)] })
  | .wgAdd, _, sh => ((), { sh with wg := sh.wg + 1 })
  | .start _, _, sh => ((), sh)

/-- The goroutine an operation starts. -/
def SetupOp.spawned : SetupOp → Option Session
  | .start sess => some sess
  | _ => none

/-! ### The operations as the handler calls them -/

abbrev timeNow : SetupProg Time := Prog.perform (S := setupSig) .now

abbrev reserveBandwidth (upstream : Bool) (mbw : Int) : SetupProg Bool :=
  Prog.perform (S := setupSig) (.reserveBandwidth upstream mbw)

abbrev releaseBandwidth (upstream : Bool) (mbw : Int) : SetupProg Unit :=
  Prog.perform (S := setupSig) (.releaseBandwidth upstream mbw)

abbrev countSession : SetupProg (Option String) := Prog.perform (S := setupSig) .countSession

abbrev readNextPort : SetupProg Int := Prog.perform (S := setupSig) .readNextPort

abbrev listenUDP (port : Int) : SetupProg (Option UInt16) :=
  Prog.perform (S := setupSig) (.listenUDP port)

abbrev advanceNextPort (port : Int) : SetupProg Unit :=
  Prog.perform (S := setupSig) (.advanceNextPort port)

abbrev sessionDone : SetupProg Unit := Prog.perform (S := setupSig) .sessionDone

abbrev countResponse (code : UInt8) : SetupProg Unit :=
  Prog.perform (S := setupSig) (.countResponse code)

abbrev sendResponse (pdu : Bytes) (peer : AddrPort) : SetupProg Unit :=
  Prog.perform (S := setupSig) (.sendResponse pdu peer)

abbrev sendNull (pdu : Bytes) (peer : AddrPort) : SetupProg Unit :=
  Prog.perform (S := setupSig) (.sendNull pdu peer)

abbrev wgAdd : SetupProg Unit := Prog.perform (S := setupSig) .wgAdd

abbrev start (sess : Session) : SetupProg Unit := Prog.perform (S := setupSig) (.start sess)

/-! ## The handler -/

/-- The keys a request authenticated with, if any. -/
structure Credentials where
  keys : Option SessionKeys := none
  legacyKey : Option Bytes := none
  deriving DecidableEq, Repr

/-- The response bytes: stamped and signed with the server key in an
authenticated version 20 exchange, signed with the shared secret in an
older one. -/
def sealSetupResponse (hmac : HMAC) (resp req : SetupPDU) (cred : Credentials) :
    SetupProg Bytes := do
  let pdu ← Prog.lift resp.marshal
  match cred.keys, cred.legacyKey with
  | some keys, legacyKey =>
      if protocolVer ≤ req.protocolVer then do
        let now ← timeNow
        let stamped := { resp with
          auth := { resp.auth with authUnixTime := UInt32.ofInt (Time.unix now) } }
        let pdu ← Prog.lift stamped.marshal
        Prog.lift (signPDU hmac keys.server.toList pdu setupAuthDigestOff)
      else match legacyKey with
        | some key => Prog.lift (signPDU hmac key pdu setupAuthDigestOff)
        | none => return pdu
  | none, some key => Prog.lift (signPDU hmac key pdu setupAuthDigestOff)
  | none, none => return pdu

def sendSetupResponse (hmac : HMAC) (resp req : SetupPDU) (cred : Credentials)
    (peer : AddrPort) : SetupProg Unit := do
  countResponse resp.cmdResponse
  let pdu ← sealSetupResponse hmac resp req cred
  sendResponse pdu peer

/-- The closure `reject` of `handleSetup`. -/
def reject (hmac : HMAC) (resp req : SetupPDU) (cred : Credentials) (peer : AddrPort)
    (code : UInt8) : SetupProg Unit :=
  sendSetupResponse hmac { resp with cmdResponse := code } req cred peer

/-- The key a request is signed with: the derived client key in version 20,
the shared secret itself before. -/
def requestKey (hmac : HMAC) (req : SetupPDU) (secret : Bytes) : Bytes :=
  if protocolVer ≤ req.protocolVer then
    (deriveSessionKeys hmac secret req.auth.authUnixTime).client.toList
  else secret

/-- What `keys` and `legacyKey` hold once the digest was verified. -/
def requestCredentials (hmac : HMAC) (req : SetupPDU) (secret : Bytes) : Credentials :=
  if protocolVer ≤ req.protocolVer then
    { keys := some (deriveSessionKeys hmac secret req.auth.authUnixTime) }
  else { legacyKey := some secret }

/-- The early authentication block: a rejection code or none, and the
credentials the answer is signed with. -/
def authenticate (hmac : HMAC) (cfg : Config) (req : SetupPDU) (raw : Bytes) :
    SetupProg (Option UInt8 × Credentials) := do
  if req.auth.authMode = authModeControl ∧ cfg.keys ≠ [] then
    match cfg.keys.lookup req.auth.keyID with
    | none => return (some setupRespAuthFail, {})
    | some secret =>
        let valid ← Prog.lift (verifyDigest hmac (requestKey hmac req secret) raw
          setupAuthDigestOff req.auth.authDigest)
        if !valid then
          return (some setupRespAuthFail, {})
        let now ← timeNow
        let skew : Duration := now - req.auth.authUnixTime.toNat * second
        if skew < -authTimeWindow * second ∨ authTimeWindow * second < skew then
          return (some setupRespAuthTime, requestCredentials hmac req secret)
        return (none, requestCredentials hmac req secret)
  else
    return (none, {})

/-- The checks between authentication and admission: version,
multi-connection parameters, and the two table settings. -/
def screenRequest (cfg : Config) (req : SetupPDU) : Option UInt8 :=
  if req.protocolVer < protocolMin ∨ protocolVer < req.protocolVer then
    some setupRespBadVersion
  else if req.mcCount = 0 ∨ 24 < req.mcCount ∨ req.mcCount ≤ req.mcIndex then
    some setupRespMCInvPar
  else if decide (req.modifiers &&& modJumbo ≠ 0) ≠ cfg.jumbo then
    some setupRespBadJumbo
  else if decide (req.modifiers &&& modTraditionalMTU ≠ 0) ≠ cfg.traditionalMTU then
    some setupRespBadTMTU
  else none

/-- The `switch` on the authentication mode. -/
def modeVerdict (cfg : Config) (req : SetupPDU) : Option UInt8 :=
  if req.auth.authMode = authModeControl ∧ cfg.keys = [] then some setupRespAuthNC
  else if req.auth.authMode = authModeNone ∧ cfg.keys ≠ [] then some setupRespAuthReq
  else if authModeControl < req.auth.authMode then some setupRespAuthInv
  else none

/-- The port loop of `newSessionSocket`, `n` iterations from index `i`. -/
def tryPorts (cfg : Config) (start span : Int) : Nat → Int → SetupProg (Except String UInt16)
  | 0, _ => do
      sessionDone
      return .error ("no free port in test range " ++ toString cfg.testPortMin ++ "-" ++
        toString cfg.testPortMax)
  | n + 1, i => do
      let port := cfg.testPortMin + (start - cfg.testPortMin + i).tmod span
      match ← listenUDP port with
      | some c => do
          advanceNextPort port
          return .ok c
      | none => tryPorts cfg start span n (i + 1)

/-- `newSessionSocket`, with the local port of the new socket as its result. -/
def newSessionSocket (cfg : Config) : SetupProg (Except String UInt16) := do
  match ← countSession with
  | some err => return .error err
  | none =>
      if 0 < cfg.testPortMin ∧ cfg.testPortMin ≤ cfg.testPortMax then do
        let span := cfg.testPortMax - cfg.testPortMin + 1
        let start ← readNextPort
        tryPorts cfg start span span.toNat 0
      else do
        match ← listenUDP 0 with
        | some c => return .ok c
        | none => do
            sessionDone
            return .error "listen failed"

/-- The closure `releaseOnErr` of `handleSetup`. -/
def releaseOnErr (upstream : Bool) (mbw : Int) : SetupProg Unit :=
  if 0 < mbw then releaseBandwidth upstream mbw else return ()

def nullRequest (req : SetupPDU) (now : Time) : NullPDU where
  protocolVer := req.protocolVer
  auth := {
    authMode := req.auth.authMode
    authUnixTime := UInt32.ofInt (Time.unix now)
    keyID := req.auth.keyID }

def sealNullRequest (hmac : HMAC) (null : NullPDU) (cred : Credentials) :
    Except Panic Bytes := do
  let pdu ← null.marshal
  match cred.keys with
  | some keys => signPDU hmac keys.server.toList pdu nullAuthDigestOff
  | none => return pdu

/-- The Null Request from the new socket (version 20). -/
def sendNullRequest (hmac : HMAC) (req : SetupPDU) (cred : Credentials) (peer : AddrPort) :
    SetupProg Unit := do
  if protocolVer ≤ req.protocolVer then do
    let now ← timeNow
    let pdu ← Prog.lift (sealNullRequest hmac (nullRequest req now) cred)
    sendNull pdu peer

/-- The session a request with these credentials gets. -/
def newSession (req : SetupPDU) (cred : Credentials) (peer : AddrPort) (port : UInt16)
    (upstream : Bool) (mbw : Int) : Session where
  port := port
  setupPeer := peer
  pver := req.protocolVer
  authMode := req.auth.authMode
  keys := cred.keys
  legacyKey := cred.legacyKey
  bwMbps := mbw
  bwUpstream := upstream

/-- `handleSetup` from the authentication mode switch on, with `mbw`
already reserved. -/
def admitSession (hmac : HMAC) (cfg : Config) (resp req : SetupPDU) (cred : Credentials)
    (peer : AddrPort) (upstream : Bool) (mbw : Int) : SetupProg Unit := do
  match modeVerdict cfg req with
  | some code => do
      releaseOnErr upstream mbw
      reject hmac resp req cred peer code
  | none => do
      match ← newSessionSocket cfg with
      | .error _ => do
          releaseOnErr upstream mbw
          reject hmac resp req cred peer setupRespConnFail
      | .ok port => do
          sendNullRequest hmac req cred peer
          sendSetupResponse hmac { resp with cmdResponse := setupRespACKOK, testPort := port }
            req cred peer
          wgAdd
          start (newSession req cred peer port upstream mbw)

/-- `upstream := req.MaxBandwidth&bwUpstreamBit != 0`. -/
def SetupPDU.wantsUpstream (req : SetupPDU) : Bool :=
  decide (req.maxBandwidth &&& bwUpstreamBit ≠ 0)

/-- `mbw := int(req.MaxBandwidth &^ bwUpstreamBit)`. -/
def SetupPDU.mbw (req : SetupPDU) : Int := (req.maxBandwidth &&& ~~~bwUpstreamBit).toNat

/-- The admission control step. -/
def reserveAndAdmit (hmac : HMAC) (cfg : Config) (resp req : SetupPDU) (cred : Credentials)
    (peer : AddrPort) : SetupProg Unit := do
  if 0 < cfg.maxBandwidthMbps then
    if req.mbw = 0 then
      reject hmac resp req cred peer setupRespNoMaxBW
    else do
      if ← reserveBandwidth req.wantsUpstream req.mbw then
        admitSession hmac cfg resp req cred peer req.wantsUpstream req.mbw
      else
        reject hmac resp req cred peer setupRespCapExc
  else
    admitSession hmac cfg resp req cred peer req.wantsUpstream 0

def handleSetup (hmac : HMAC) (cfg : Config) (req : SetupPDU) (raw : Bytes) (peer : AddrPort) :
    SetupProg Unit := do
  let resp := { req with cmdRequest := cmdSetupResponse }
  let (verdict, cred) ← authenticate hmac cfg req raw
  match verdict with
  | some code => reject hmac resp req cred peer code
  | none =>
      match screenRequest cfg req with
      | some code =>
          -- a refused version is answered with the one we expect
          let resp := if code = setupRespBadVersion then
              { resp with protocolVer := protocolVer } else resp
          reject hmac resp req cred peer code
      | none => reserveAndAdmit hmac cfg resp req cred peer

/-- One turn of the `Serve` loop: the handler a datagram on the control
socket starts, `none` when it is ignored. -/
def serveDatagram (hmac : HMAC) (cfg : Config) (peer : AddrPort) (data : Bytes) :
    Option (SetupProg Unit) :=
  let buf := data.take 512
  match cfg.allow with
  | some allow =>
      if allow peer.addr.unmap then serveParsed buf else none
  | none => serveParsed buf
where
  serveParsed (buf : Bytes) : Option (SetupProg Unit) :=
    match parseSetup buf with
    | .error p => some (.crash p)
    | .ok (.error _) => none
    | .ok (.ok req) =>
        if req.cmdRequest = cmdSetupRequest then some (handleSetup hmac cfg req buf peer)
        else none

end Diagd.Udpst

import Diagd.Udpst.Handler

/-!
# What an unauthenticated peer learns

A two-run property of `handleSetup`: two servers with the same keys, and
settings, load and free ports of their own, get the same request. An
authenticated answer may of course differ; the question is whether the
answer to a request WITHOUT a valid digest does.

A request in control mode is answered by the early authentication block,
before anything else is looked at. A request in any other mode skips that
block, and is refused for its mode only after the version, the
multi-connection parameters, the two table settings and the bandwidth have
been checked. So it is told apart from the answers whether the server has
jumbo frames and a traditional MTU enabled, unless one of the checks that do
not depend on the configuration refuses it first (`RefusedBlindly`).
-/

namespace Diagd.Udpst

open GoSlice GoStd Resumption

/-! ## The question -/

/-- The request carries a valid digest under a configured key. -/
def Signed (hmac : HMAC) (keys : List (UInt8 × Bytes)) (req : SetupPDU) (raw : Bytes) : Prop :=
  req.auth.authMode = authModeControl ∧ ∃ secret, keys.lookup req.auth.keyID = some secret ∧
    hmac (requestKey hmac req secret) (masked raw setupAuthDigestOff) = req.auth.authDigest

/-- The responses `handleSetup` hands to the control socket when it is run
from the state `sh` under the environments `env`. -/
def setupAnswers (hmac : HMAC) (cfg : Config) (env : Nat → Env) (req : SetupPDU) (raw : Bytes)
    (peer : AddrPort) (sh : Shared) : List (Bytes × AddrPort) :=
  (Prog.run (SetupOp.exec cfg) env 0 (handleSetup hmac cfg req raw peer) sh).2.responses.drop
    sh.responses.length

/-- Two configurations that differ in the table settings, the admission
limit and the session limit at most. -/
def SameButSettings (cfg cfg' : Config) : Prop :=
  cfg' = { cfg with
    jumbo := cfg'.jumbo
    traditionalMTU := cfg'.traditionalMTU
    maxBandwidthMbps := cfg'.maxBandwidthMbps
    maxSessions := cfg'.maxSessions }

theorem SameButSettings.keys {cfg cfg' : Config} (h : SameButSettings cfg cfg') :
    cfg'.keys = cfg.keys := by
  unfold SameButSettings at h
  rw [h]

/-- Nothing is revealed: whatever their settings, their state and their free
ports, servers that handle the request at the same clock answer it alike. -/
def RevealsNothing (hmac : HMAC) (cfg : Config) (req : SetupPDU) (raw : Bytes)
    (peer : AddrPort) : Prop :=
  ∀ cfg₁ cfg₂ sh₁ sh₂ env₁ env₂ now, SameButSettings cfg cfg₁ → SameButSettings cfg cfg₂ →
    (∀ n, (env₁ n).now = now) → (∀ n, (env₂ n).now = now) →
    setupAnswers hmac cfg₁ env₁ req raw peer sh₁ = setupAnswers hmac cfg₂ env₂ req raw peer sh₂

/-- The checks before the mode switch that know nothing of the
configuration refuse the request: its authentication, version, or
multi-connection parameters. -/
def RefusedBlindly (req : SetupPDU) : Prop :=
  req.auth.authMode = authModeControl ∨
    (req.protocolVer < protocolMin ∨ protocolVer < req.protocolVer) ∨
    (req.mcCount = 0 ∨ 24 < req.mcCount ∨ req.mcCount ≤ req.mcIndex)

/-! ## Runs of the handler -/

section Runs

variable {hmac : HMAC} {cfg : Config} {req resp : SetupPDU} {raw : Bytes} {peer : AddrPort}
variable {env : Nat → Env} {sh : Shared}

/-- An unsigned refusal: one count, one answer. -/
theorem reject_unsigned (code : UInt8) :
    reject hmac resp req {} peer code
      = Prog.op (S := setupSig) (.countResponse code) fun _ =>
          Prog.op (S := setupSig)
            (.sendResponse { resp with cmdResponse := code }.layout peer) Prog.ret := by
  unfold reject sendSetupResponse sealSetupResponse
  rw [setupPDU_marshal_eq]
  rfl

/-- What a handler that refuses unsigned answers. -/
theorem setupAnswers_of_reject {code : UInt8}
    (h : handleSetup hmac cfg req raw peer = reject hmac resp req {} peer code) :
    setupAnswers hmac cfg env req raw peer sh
      = [({ resp with cmdResponse := code }.layout, peer)] := by
  have hrun : (Prog.run (SetupOp.exec cfg) env 0 (handleSetup hmac cfg req raw peer) sh).2.responses
      = sh.responses ++ [({ resp with cmdResponse := code }.layout, peer)] := by
    rw [h, reject_unsigned]
    simp only [Prog.run, SetupOp.exec]
    split <;> rfl
  rw [setupAnswers, hrun, List.drop_left]

/-- In control mode a request without a valid digest fails at once. -/
theorem handleSetup_unsigned (hkeys : cfg.keys ≠ []) (hraw : raw.length = setupSize)
    (hmode : req.auth.authMode = authModeControl) (h : ¬ Signed hmac cfg.keys req raw) :
    handleSetup hmac cfg req raw peer
      = reject hmac { req with cmdRequest := cmdSetupResponse } req {} peer setupRespAuthFail := by
  have hauth : authenticate hmac cfg req raw = Prog.ret (some setupRespAuthFail, {}) := by
    unfold authenticate
    rw [if_pos ⟨hmode, hkeys⟩]
    cases hkey : cfg.keys.lookup req.auth.keyID with
    | none => rfl
    | some secret =>
        have hoff : setupAuthDigestOff + 32 ≤ raw.length := by
          rw [hraw]
          decide
        have hdig : ¬ hmac (requestKey hmac req secret) (masked raw setupAuthDigestOff)
            = req.auth.authDigest := fun hd => h ⟨hmode, secret, hkey, hd⟩
        simp only [verifyDigest_ok hoff, Prog.lift_ok, Prog.ret_bind, hdig, decide_false,
          Bool.not_false, if_true]
        rfl
  rw [handleSetup, hauth, Prog.ret_bind]

/-- In any other mode the early block does nothing, and the screening
answers first. -/
theorem handleSetup_screened {code : UInt8} (hmode : req.auth.authMode ≠ authModeControl)
    (h : screenRequest cfg req = some code) :
    handleSetup hmac cfg req raw peer
      = reject hmac (if code = setupRespBadVersion then
            { req with cmdRequest := cmdSetupResponse, protocolVer := protocolVer }
          else { req with cmdRequest := cmdSetupResponse }) req {} peer code := by
  have hauth : authenticate hmac cfg req raw = Prog.ret (none, {}) := by
    unfold authenticate
    rw [if_neg (fun hc => hmode hc.1)]
    rfl
  rw [handleSetup, hauth, Prog.ret_bind]
  simp only [h]

end Runs

/-! ## The answer -/

section Secrecy

variable {hmac : HMAC} {cfg : Config} {req : SetupPDU} {raw : Bytes} {peer : AddrPort}

/-- A request that is refused blindly gets one and the same answer from
every configuration with the keys `keys`. -/
theorem setupAnswers_blind (peer : AddrPort) (hblind : RefusedBlindly req) (hraw : raw.length = setupSize)
    {keys : List (UInt8 × Bytes)} (hkeys : keys ≠ []) (hunsigned : ¬ Signed hmac keys req raw) :
    ∃ pdu, ∀ cfg env sh, cfg.keys = keys →
      setupAnswers hmac cfg env req raw peer sh = [(pdu, peer)] := by
  by_cases hmode : req.auth.authMode = authModeControl
  · exact ⟨_, fun cfg env sh hcfg => setupAnswers_of_reject
      (handleSetup_unsigned (by rwa [hcfg]) hraw hmode (by rwa [hcfg]))⟩
  · by_cases hver : req.protocolVer < protocolMin ∨ protocolVer < req.protocolVer
    · exact ⟨_, fun cfg env sh _ =>
        setupAnswers_of_reject (handleSetup_screened hmode (if_pos hver))⟩
    · have hmc := (hblind.resolve_left hmode).resolve_left hver
      exact ⟨_, fun cfg env sh _ => setupAnswers_of_reject
        (handleSetup_screened hmode ((if_neg hver).trans (if_pos hmc)))⟩

/-- A request that is not refused blindly is told by the answer whether the
server has jumbo frames enabled. -/
theorem not_revealsNothing (hblind : ¬ RefusedBlindly req) :
    ¬ RevealsNothing hmac cfg req raw peer := by
  obtain ⟨hmode, hrest⟩ := not_or.mp hblind
  obtain ⟨hver, hmc⟩ := not_or.mp hrest
  intro h
  -- one server refuses the jumbo setting, the other one the traditional MTU
  let jumbo := decide (req.modifiers &&& modJumbo ≠ 0)
  let tmtu := decide (req.modifiers &&& modTraditionalMTU ≠ 0)
  have hscreen₁ : screenRequest { cfg with jumbo := !jumbo } req = some setupRespBadJumbo := by
    rw [screenRequest, if_neg hver, if_neg hmc, if_pos (by simp [jumbo])]
  have hscreen₂ : screenRequest { cfg with jumbo := jumbo, traditionalMTU := !tmtu } req
      = some setupRespBadTMTU := by
    rw [screenRequest, if_neg hver, if_neg hmc, if_neg (by simp [jumbo]), if_pos (by simp [tmtu])]
  have heq := h { cfg with jumbo := !jumbo } { cfg with jumbo := jumbo, traditionalMTU := !tmtu }
    {} {} (fun _ => {}) (fun _ => {}) 0 rfl rfl (fun _ => rfl) (fun _ => rfl)
  rw [setupAnswers_of_reject (handleSetup_screened hmode hscreen₁),
    setupAnswers_of_reject (handleSetup_screened hmode hscreen₂)] at heq
  have hcode := congrArg (fun answers => (answers.map fun a => a.1.getD 9 0)) heq
  simp only [List.map_cons, List.map_nil, setupPDU_layout_cmdResponse] at hcode
  cases hcode

/-- **What is revealed to an unauthenticated peer**: nothing, exactly when
its request is refused blindly. -/
theorem revealsNothing_iff (hkeys : cfg.keys ≠ []) (hraw : raw.length = setupSize)
    (hunsigned : ¬ Signed hmac cfg.keys req raw) :
    RevealsNothing hmac cfg req raw peer ↔ RefusedBlindly req := by
  constructor
  · intro h
    by_contra hblind
    exact not_revealsNothing hblind h
  · intro hblind cfg₁ cfg₂ sh₁ sh₂ env₁ env₂ now h₁ h₂ _ _
    obtain ⟨pdu, hpdu⟩ := setupAnswers_blind peer hblind hraw hkeys hunsigned
    rw [hpdu cfg₁ env₁ sh₁ h₁.keys, hpdu cfg₂ env₂ sh₂ h₂.keys]

end Secrecy

/-! ### A request without authentication -/

def openRequest : SetupPDU where
  protocolVer := protocolVer
  mcCount := 1
  cmdRequest := cmdSetupRequest

def secretConfig : Config := { keys := [(1, [])] }

theorem revealsNothing_openRequest :
    (RevealsNothing (fun _ _ => Digest.zero) secretConfig openRequest openRequest.layout
      { addr := .v4 0, port := 40000 } ↔ RefusedBlindly openRequest) :=
  revealsNothing_iff (by decide) (by simp) (fun h => absurd h.1 (by decide))

/-- The answers of two servers that differ in the jumbo setting: code 3
(jumbo mismatch) from one, code 5 (authentication required) from the other. -/
theorem openRequest_reveals_jumbo :
    let answer := fun jumbo => (setupAnswers (fun _ _ => Digest.zero)
      { secretConfig with jumbo := jumbo } (fun _ => {}) openRequest openRequest.layout
      { addr := .v4 0, port := 40000 } {}).map fun a => a.1.getD 9 0
    answer true = [setupRespBadJumbo] ∧ answer false = [setupRespAuthReq] := by
  decide +kernel

end Diagd.Udpst

import Diagd.Udpst.RoundTrip
import Diagd.Udpst.Signing

/-!
# Policing (`police`) and its answer

What every policed parameter satisfies, whatever was requested: each `police…`
function has its range as one lemma, and `TestParams.Policed` collects them.

The answer is a PDU. `TestActPDU.params` reads the parameters back from it,
the way a client does, and every narrowing conversion on the way is exact.
Policing the answer once more changes nothing, with ONE exception: the CE
threshold is derived from the requested marking, but the marking is dropped
when the kernel refuses the traffic class, and the threshold is not.
-/

namespace Diagd.Udpst

open GoSlice GoStd

/-! ## The ranges -/

section Ranges

variable (cfg : Config) (table : RateTable) (pver : UInt16) (req : TestActPDU)

theorem policeThresholds_range : 1 ≤ (policeThresholds req).1 ∧
    (policeThresholds req).1 ≤ (policeThresholds req).2 ∧ (policeThresholds req).2 ≤ 10000 := by
  simp only [policeThresholds]
  generalize hlt : (if (req.lowThresh.toNat : Int) < 1 ∨ 10000 < (req.lowThresh.toNat : Int) then
    30 else (req.lowThresh.toNat : Int)) = lt
  generalize hut : (if (req.upperThresh.toNat : Int) < 1 ∨ 10000 < (req.upperThresh.toNat : Int) then
    90 else (req.upperThresh.toNat : Int)) = ut
  have hlow : 1 ≤ lt ∧ lt ≤ 10000 := by
    split at hlt <;> omega
  have hupper : 1 ≤ ut ∧ ut ≤ 10000 := by
    split at hut <;> omega
  split
  · decide
  · exact ⟨hlow.1, by omega, hupper.2⟩

theorem policeTrialInt_range : 5 ≤ policeTrialInt req ∧ policeTrialInt req ≤ 250 := by
  simp only [policeTrialInt]
  split <;> omega

theorem policeSubInt_range {dur : Int} (hdur : 1 ≤ dur) : 100 ≤ policeSubInt pver req dur ∧
    policeSubInt pver req dur ≤ 10000 ∧ policeSubInt pver req dur ≤ dur * 1000 := by
  simp only [policeSubInt]
  split_ifs <;> omega

/-- Before version 20 the period is a number of seconds. -/
theorem policeSubInt_seconds {dur : Int} (hver : ¬ protocolVer ≤ pver) :
    1000 ∣ policeSubInt pver req dur := by
  simp only [policeSubInt, if_neg hver]
  split_ifs <;> omega

/-- A test that is too short has been cut by the configuration. -/
theorem policeDuration_short (h : policeDuration cfg req < 5) :
    policeDuration cfg req = cfg.maxTestSeconds := by
  revert h
  simp only [policeDuration]
  split_ifs <;> omega

/-- Suppression ends within the test. -/
theorem policeAdjSupp_cases {dur subMs : Int} (hsub : 0 < subMs) (hdur : 0 ≤ dur) (old : UInt16) :
    policeAdjSupp pver req dur subMs old = old ∨
      protocolVer ≤ pver ∧ policeAdjSupp pver req dur subMs old = req.srAdjSuppCount ∧
        (req.srAdjSuppCount.toNat + 1) * subMs ≤ dur * 1000 := by
  simp only [policeAdjSupp]
  split_ifs with hver hlt
  · refine .inr ⟨hver, rfl, ?_⟩
    rw [Int.tdiv_eq_ediv_of_nonneg (by omega)] at hlt
    exact (Int.le_ediv_iff_mul_le hsub).mp hlt
  · exact .inl rfl
  · exact .inl rfl

theorem policeCEThresh_range : 0 ≤ policeCEThresh req ∧ policeCEThresh req ≤ 255 := by
  have hbyte := req.ecnCEThresh.toNat_lt
  simp only [policeCEThresh]
  split <;> omega

end Ranges

/-- What policing guarantees of the parameters of a test. -/
structure TestParams.Policed (maxTestSeconds : Int) (table : RateTable) (p : TestParams) :
    Prop where
  low_pos : 1 ≤ p.lowThresh
  low_le : p.lowThresh ≤ p.upperThresh
  upper_le : p.upperThresh ≤ 10000
  trial_ge : 5 * millisecond ≤ p.trialInt
  trial_le : p.trialInt ≤ 250 * millisecond
  duration_ge : second ≤ p.duration
  duration_le : p.duration ≤ 3600 * second
  duration_max : 0 < maxTestSeconds → p.duration ≤ maxTestSeconds * second
  sub_ge : 100 * millisecond ≤ p.subInt
  sub_le : p.subInt ≤ 10 * second
  sub_duration : p.subInt ≤ p.duration
  conf_ge : -1 ≤ p.srIndexConf
  conf_lt : p.srIndexConf < table.rows.length
  delta_pos : 1 ≤ p.highSpeedDelta
  slow_pos : 1 ≤ p.slowAdjThresh
  algo_le : p.algo ≤ 1
  supp : p.srAdjSupp = 0 ∨ p.srAdjSupp.toNat * p.subInt < p.duration

/-- The session has not been policed before. -/
def Session.Fresh (s : Session) : Prop := s.p = {}

section Police

variable {s : Session} (srv : Server) (req : TestActPDU) (d : Rx)

/-- The divisor of `numSub`. -/
theorem policeSubInt_pos (cfg : Config) (pver : UInt16) (req : TestActPDU) :
    0 < policeSubInt pver req (policeDuration cfg req) := by
  have hdur := policeDuration_range cfg req
  have hsub := policeSubInt_range pver req hdur.1
  omega

/-- The suppression count of an activated session is 0, or the one requested
with a whole sub-interval to spare. -/
theorem activate_srAdjSupp (hs : s.Fresh) : (s.activate srv req d).p.srAdjSupp = 0 ∨
    protocolVer ≤ s.pver ∧ (s.activate srv req d).p.srAdjSupp = req.srAdjSuppCount ∧
      (req.srAdjSuppCount.toNat + 1) * policeSubInt s.pver req (policeDuration srv.cfg req) ≤
        policeDuration srv.cfg req * 1000 := by
  have hdur := policeDuration_range srv.cfg req
  have hold : s.p.srAdjSupp = 0 := by rw [hs]
  have hcases := policeAdjSupp_cases s.pver req (policeSubInt_pos srv.cfg s.pver req)
    (by omega : 0 ≤ policeDuration srv.cfg req) s.p.srAdjSupp
  rw [hold] at hcases
  show policeAdjSupp s.pver req _ _ s.p.srAdjSupp = 0 ∨
    _ ∧ policeAdjSupp s.pver req _ _ s.p.srAdjSupp = _ ∧ _
  rw [hold]
  exact hcases

theorem activate_policed (hs : s.Fresh) :
    (s.activate srv req d).p.Policed srv.cfg.maxTestSeconds srv.table := by
  obtain ⟨hlow, hle, hupper⟩ := policeThresholds_range req
  have htrial := policeTrialInt_range req
  obtain ⟨hdur, hdur', hmax⟩ := policeDuration_range srv.cfg req
  obtain ⟨hsub, hsub', hsubdur⟩ := policeSubInt_range s.pver req hdur
  have hconf := policeIndexConf_bounds srv.table req
  have hsupp := activate_srAdjSupp srv req d hs
  refine {
    low_pos := hlow, low_le := hle, upper_le := hupper
    conf_ge := hconf.1, conf_lt := hconf.2
    trial_ge := ?_, trial_le := ?_, duration_ge := ?_, duration_le := ?_, duration_max := ?_
    sub_ge := ?_, sub_le := ?_, sub_duration := ?_, delta_pos := ?_, slow_pos := ?_
    algo_le := ?_, supp := ?_ }
  · show 5 * 1000000 ≤ policeTrialInt req * 1000000
    omega
  · show policeTrialInt req * 1000000 ≤ 250 * 1000000
    omega
  · show 1000000000 ≤ policeDuration srv.cfg req * 1000000000
    omega
  · show policeDuration srv.cfg req * 1000000000 ≤ 3600 * 1000000000
    omega
  · intro hpos
    show policeDuration srv.cfg req * 1000000000 ≤ srv.cfg.maxTestSeconds * 1000000000
    have := hmax hpos
    omega
  · show 100 * 1000000 ≤ policeSubInt s.pver req (policeDuration srv.cfg req) * 1000000
    omega
  · show policeSubInt s.pver req (policeDuration srv.cfg req) * 1000000 ≤ 10 * 1000000000
    omega
  · show policeSubInt s.pver req (policeDuration srv.cfg req) * 1000000
      ≤ policeDuration srv.cfg req * 1000000000
    omega
  · show 1 ≤ (if req.highSpeedDelta.toNat < 1 then 10 else (req.highSpeedDelta.toNat : Int))
    split <;> omega
  · show 1 ≤ (if req.slowAdjThresh.toNat < 1 then 3 else (req.slowAdjThresh.toNat : Int))
    split <;> omega
  · show (if 1 < req.rateAdjAlgo then 0 else req.rateAdjAlgo) ≤ 1
    split
    · decide
    · exact UInt8.not_lt.mp ‹_›
  · rcases hsupp with hzero | ⟨-, heq, hroom⟩
    · exact .inl hzero
    · right
      rw [heq]
      show (req.srAdjSuppCount.toNat : Int) *
          (policeSubInt s.pver req (policeDuration srv.cfg req) * 1000000)
        < policeDuration srv.cfg req * 1000000000
      generalize policeSubInt s.pver req (policeDuration srv.cfg req) = sub at *
      rw [← mul_assoc]
      rw [add_mul] at hroom
      omega

end Police

/-! ## The answer -/

attribute [ext] TestParams

/-- The parameters a PDU states, as a party of version `pver` reads them. -/
def TestActPDU.params (pver : UInt16) (r : TestActPDU) : TestParams where
  lowThresh := r.lowThresh.toNat
  upperThresh := r.upperThresh.toNat
  trialInt := r.trialInt.toNat * millisecond
  duration := r.testIntTime.toNat * second
  subInt := if Udpst.protocolVer ≤ pver then r.subIntPeriod.toNat * millisecond
    else r.legacySubIntSec.toNat * second
  dscpEcn := r.dscpEcn
  srIndexConf := if r.srIndexConf = srIndexAuto then -1 else r.srIndexConf.toNat
  indexIsStart := decide (r.modifiers &&& taModStartIndex ≠ 0)
  useOwDelVar := decide (r.useOwDelVar = 1)
  highSpeedDelta := r.highSpeedDelta.toNat
  slowAdjThresh := r.slowAdjThresh.toNat
  seqErrThresh := r.seqErrThresh.toNat
  ignoreOooDup := decide (r.ignoreOooDup ≠ 0)
  randPayload := decide (r.modifiers &&& taModRandomPayload ≠ 0)
  algo := r.rateAdjAlgo
  ecnCEThresh := r.ecnCEThresh.toNat
  srAdjSupp := r.srAdjSuppCount

/-- The response before its rate row is filled in. -/
def Session.respond (s : Session) (req : TestActPDU) : TestActPDU :=
  { req with
    cmdResponse := testActRespACKOK
    lowThresh := UInt16.ofInt s.p.lowThresh
    upperThresh := UInt16.ofInt s.p.upperThresh
    trialInt := UInt16.ofInt (s.p.trialInt.tdiv millisecond)
    testIntTime := UInt16.ofInt (s.p.duration.tdiv second)
    dscpEcn := s.p.dscpEcn
    srIndexConf := if s.p.srIndexConf < 0 then srIndexAuto else UInt16.ofInt s.p.srIndexConf
    useOwDelVar := boolByte s.p.useOwDelVar
    highSpeedDelta := UInt8.ofInt s.p.highSpeedDelta
    slowAdjThresh := UInt16.ofInt s.p.slowAdjThresh
    seqErrThresh := UInt16.ofInt s.p.seqErrThresh
    ignoreOooDup := boolByte s.p.ignoreOooDup
    rateAdjAlgo := s.p.algo
    ecnCEThresh := UInt8.ofInt s.p.ecnCEThresh
    srAdjSuppCount := s.p.srAdjSupp
    subIntPeriod := if protocolVer ≤ s.pver then UInt16.ofInt (s.p.subInt.tdiv millisecond)
      else req.subIntPeriod
    legacySubIntSec := if protocolVer ≤ s.pver then req.legacySubIntSec
      else UInt8.ofInt (s.p.subInt.tdiv second) }

section Answer

variable {s : Session} {req : TestActPDU} {d : Rx} (srv : Server)

theorem activationResponse_eq (s : Session) (req : TestActPDU) (d : Rx) : ∃ row,
    (s.activate srv req d).activationResponse srv req =
      .ok { (s.activate srv req d).respond req with sr := row } := by
  obtain ⟨hlow, hhigh⟩ : 0 ≤ (s.activate srv req d).initialIndex ∧
      (s.activate srv req d).initialIndex < srv.table.rows.length :=
    initialIndex_activate_bounds req
  generalize s.activate srv req d = t at hlow hhigh ⊢
  obtain ⟨row, -, hrow⟩ := element_ok hlow hhigh
  unfold Session.activationResponse Session.respond
  by_cases hver : protocolVer ≤ t.pver
  all_goals
    simp only [hver, if_true, if_false]
    by_cases hdown : t.downstream
    · rw [if_pos hdown]
      exact ⟨{}, rfl⟩
    · rw [if_neg hdown, hrow]
      exact ⟨row, rfl⟩

@[simp] theorem boolByte_eq_one (b : Bool) : decide (boolByte b = 1) = b := by
  cases b <;> rfl

@[simp] theorem boolByte_ne_zero (b : Bool) : decide (boolByte b ≠ 0) = b := by
  cases b <;> rfl

/-- A whole number of units survives the division and the conversion. -/
theorem units_uint16 {n unit : Int} (hunit : 0 < unit) (hpos : 0 ≤ n) (hlt : n < 65536) :
    ((UInt16.ofInt ((n * unit).tdiv unit)).toNat : Int) * unit = n * unit := by
  rw [Int.mul_tdiv_cancel _ hunit.ne', toNat_uint16_ofInt hpos hlt]

/-- The sub-interval, in the unit of the version. -/
theorem subInt_respond {pver : UInt16} (req : TestActPDU) {dur : Int}
    (hmin : 100 ≤ policeSubInt pver req dur) (hmax : policeSubInt pver req dur ≤ 10000) :
    (if protocolVer ≤ pver then
      ((if protocolVer ≤ pver then
        UInt16.ofInt ((policeSubInt pver req dur * millisecond).tdiv millisecond)
        else req.subIntPeriod).toNat : Int) * millisecond
      else ((if protocolVer ≤ pver then req.legacySubIntSec
        else UInt8.ofInt ((policeSubInt pver req dur * millisecond).tdiv second)).toNat : Int)
          * second) = policeSubInt pver req dur * millisecond := by
  by_cases hver : protocolVer ≤ pver
  · rw [if_pos hver, if_pos hver]
    exact units_uint16 (by decide) (by omega) (by omega)
  · rw [if_neg hver, if_neg hver]
    obtain ⟨n, hn⟩ : 1000 ∣ policeSubInt pver req dur := policeSubInt_seconds pver req hver
    have hsec : policeSubInt pver req dur * millisecond = n * second := by
      rw [hn]
      show 1000 * n * 1000000 = n * 1000000000
      ring
    rw [hsec, Int.mul_tdiv_cancel _ (by decide), toNat_uint8_ofInt (by omega) (by omega)]

/-- The row index, -1 for the automatic search. -/
theorem indexConf_respond {k : Int} (hmin : -1 ≤ k) (hmax : k < 65535) :
    (if (if k < 0 then srIndexAuto else UInt16.ofInt k) = srIndexAuto then -1
      else ((if k < 0 then srIndexAuto else UInt16.ofInt k).toNat : Int)) = k := by
  by_cases hauto : k < 0
  · rw [if_pos hauto, if_pos rfl]
    omega
  · have hword := toNat_uint16_ofInt (by omega : 0 ≤ k) (by omega)
    have hne : UInt16.ofInt k ≠ srIndexAuto := by
      intro heq
      rw [heq] at hword
      have hlast : ((srIndexAuto.toNat : Nat) : Int) = 65535 := rfl
      omega
    rw [if_neg hauto, if_neg hne, hword]

/-- **The answer states the parameters in use**: no conversion to 8 or 16
bits changes a value, and milliseconds and seconds come out even. -/
theorem params_respond (req : TestActPDU) (d : Rx) (hs : s.Fresh) (row : Rate) :
    TestActPDU.params s.pver { (s.activate srv req d).respond req with sr := row } =
      (s.activate srv req d).p := by
  have hpol : (s.activate srv req d).p.Policed srv.cfg.maxTestSeconds srv.table :=
    activate_policed srv req d hs
  have hdur := policeDuration_range srv.cfg req
  have hsub := policeSubInt_range s.pver req hdur.1
  have htrial := policeTrialInt_range req
  have hlow := hpol.low_pos
  have hmid := hpol.low_le
  have hupper := hpol.upper_le
  have hdelta := req.highSpeedDelta.toNat_lt
  have hslow := req.slowAdjThresh.toNat_lt
  have hseq := req.seqErrThresh.toNat_lt
  apply TestParams.ext
  case lowThresh => exact toNat_uint16_ofInt (by omega) (by omega)
  case upperThresh => exact toNat_uint16_ofInt (by omega) (by omega)
  case trialInt => exact units_uint16 (by decide) (by omega) (by omega)
  case duration => exact units_uint16 (by decide) (by omega) (by omega)
  case subInt => exact subInt_respond req hsub.1 hsub.2.1
  case dscpEcn => rfl
  case srIndexConf =>
    have hconf := policeIndexConf_bounds srv.table req
    rw [srv.rows_length] at hconf
    exact indexConf_respond hconf.1 (hconf.2.trans (by decide))
  case indexIsStart => rfl
  case useOwDelVar => exact boolByte_eq_one _
  case highSpeedDelta =>
    refine toNat_uint8_ofInt (by have := hpol.delta_pos; omega) ?_
    show (if req.highSpeedDelta.toNat < 1 then 10 else (req.highSpeedDelta.toNat : Int)) < 256
    split <;> omega
  case slowAdjThresh =>
    refine toNat_uint16_ofInt (by have := hpol.slow_pos; omega) ?_
    show (if req.slowAdjThresh.toNat < 1 then 3 else (req.slowAdjThresh.toNat : Int)) < 65536
    split <;> omega
  case seqErrThresh =>
    have hword : (req.seqErrThresh.toNat : Int) < 65536 := by exact_mod_cast hseq
    exact toNat_uint16_ofInt (Int.natCast_nonneg _) hword
  case ignoreOooDup => exact boolByte_ne_zero _
  case randPayload => rfl
  case algo => rfl
  case ecnCEThresh =>
    have hce := policeCEThresh_range req
    exact toNat_uint8_ofInt hce.1 (Int.lt_add_one_of_le hce.2)
  case srAdjSupp => rfl

/-! ### On the wire -/

/-- The response to a request that was parsed decodes to itself, in the
layout of the request. -/
theorem respond_decodes (hs : s.Fresh) (hreq : parseTestAct d.bytes = .ok (.ok req)) (row : Rate)
    (auth : AuthTrailer) (hauth : req.legacy = true → auth = req.auth) :
    ∃ pdu, TestActPDU.marshal
        { (s.activate srv req d).respond req with sr := row, auth := auth } = .ok pdu ∧
      parseTestAct pdu =
        .ok (.ok { (s.activate srv req d).respond req with sr := row, auth := auth }) := by
  obtain ⟨hshape, rfl⟩ := parseTestAct_eq_ok.mp hreq
  set resp : TestActPDU := { (s.activate srv (TestActPDU.ofBytes d.bytes) d).respond
    (TestActPDU.ofBytes d.bytes) with sr := row, auth := auth } with hresp
  have hcmd : resp.HasCommand := hshape.cmd
  have hinverse : (resp.marshal >>= parseTestAct) = .ok (.ok resp) := by
    by_cases hshort : d.bytes.length < testActSize
    · have hlegacy : (TestActPDU.ofBytes d.bytes).legacy = true := decide_eq_true hshort
      have hcount : (TestActPDU.ofBytes d.bytes).srAdjSuppCount = 0 := if_pos hshort
      have hsupp : resp.srAdjSuppCount = 0 := by
        rcases activate_srAdjSupp srv (TestActPDU.ofBytes d.bytes) d hs with
          hzero | ⟨-, heq, -⟩
        · exact hzero
        · exact heq.trans hcount
      exact testAct_legacy_inverse.decode_encode resp
        ⟨hcmd, hlegacy, hsupp, (hauth hlegacy).trans (if_pos hshort)⟩
    · exact testAct_inverse.decode_encode resp ⟨hcmd, decide_eq_false hshort⟩
  obtain ⟨pdu, hpdu, hparse⟩ := bind_eq_ok.mp hinverse
  exact ⟨pdu, hpdu, hparse⟩

/-- The digest is not a parameter. -/
theorem params_signed {hmac : HMAC} {key b : Bytes} (hlen : b.length = testActSize)
    (pver : UInt16) :
    (TestActPDU.ofBytes (signed hmac key b testActAuthDigestOff)).params pver =
      (TestActPDU.ofBytes b).params pver := by
  have hroom : testActAuthDigestOff + 32 ≤ b.length := by
    rw [hlen]
    decide
  have hword : ∀ i, i + 2 ≤ testActAuthDigestOff →
      u16At (signed hmac key b testActAuthDigestOff) i = u16At b i :=
    fun i hi => u16At_signed hroom hi
  have hbyte : ∀ i, i < testActAuthDigestOff →
      (signed hmac key b testActAuthDigestOff).getD i 0 = b.getD i 0 :=
    fun i hi => signed_getD_ne hroom (.inl hi)
  have hsame : (signed hmac key b testActAuthDigestOff).length = b.length := signed_length
  generalize signed hmac key b testActAuthDigestOff = c at hword hbyte hsame
  have hfields : TestActPDU.ofBytes c =
      { TestActPDU.ofBytes b with
        sr := (TestActPDU.ofBytes c).sr, auth := (TestActPDU.ofBytes c).auth } := by
    simp (disch := decide) only [TestActPDU.ofBytes, hsame, hword, hbyte]
  rw [hfields]
  rfl

/-- What is sent, signed or not, states the parameters in use. -/
theorem sealResponse_params {hmac : HMAC} {now : Time} {pdu : Bytes} {row : Rate} (hs : s.Fresh)
    (hreq : parseTestAct d.bytes = .ok (.ok req))
    (h : (s.activate srv req d).sealResponse hmac
      { (s.activate srv req d).respond req with sr := row } now = .ok pdu) :
    ∃ r, parseTestAct pdu = .ok (.ok r) ∧ r.params s.pver = (s.activate srv req d).p := by
  obtain ⟨plain, hplain, hparse⟩ :=
    respond_decodes srv hs hreq row req.auth fun _ => rfl
  have hparams := params_respond srv req d hs row
  unfold Session.sealResponse at h
  obtain ⟨_, hmarshal, h⟩ := bind_eq_ok.mp h
  cases hplain.symm.trans hmarshal
  cases hkeys : (s.activate srv req d).keys with
  | none =>
      rw [hkeys] at h
      cases h
      exact ⟨_, hparse, hparams⟩
  | some keys =>
      by_cases hver : protocolVer ≤ (s.activate srv req d).pver
      · simp only [hkeys, if_pos hver] at h
        obtain ⟨stamped, hstamped, hsign⟩ := bind_eq_ok.mp h
        obtain ⟨_, hok, hlen⟩ := testActPDU_marshal_ok { (s.activate srv req d).respond req with
          sr := row, auth := { req.auth with authUnixTime := UInt32.ofInt (Time.unix now) } }
        cases hstamped.symm.trans hok
        cases hleg : req.legacy with
        | true =>
            -- the legacy layout has no room for a digest
            have hshort : stamped.length < testActAuthDigestOff + 32 := by
              rw [hlen]
              show (if req.legacy then testActMinSize else testActSize) < _
              rw [hleg]
              decide
            obtain ⟨p, hp⟩ : ∃ p, signPDU hmac keys.server.toList stamped testActAuthDigestOff
              = .error p := signPDU_panic hshort
            cases hp.symm.trans hsign
        | false =>
            have hfull : stamped.length = testActSize := by
              rw [hlen]
              show (if req.legacy then testActMinSize else testActSize) = _
              rw [hleg]
              rfl
            obtain ⟨_, hmarshal', hparse'⟩ := respond_decodes srv hs hreq row
              { req.auth with authUnixTime := UInt32.ofInt (Time.unix now) }
              (fun h => by rw [hleg] at h; cases h)
            cases hstamped.symm.trans hmarshal'
            obtain ⟨hshape, hfields⟩ := parseTestAct_eq_ok.mp hparse'
            have hroom : testActAuthDigestOff + 32 ≤ stamped.length := by
              rw [hfull]
              decide
            cases (signPDU_ok hroom).symm.trans hsign
            refine ⟨_, parseTestAct_ok (hshape.signed hfull), ?_⟩
            rw [params_signed hfull, ← hfields]
            exact hparams
      · simp only [hkeys, if_neg hver] at h
        cases h
        exact ⟨_, hparse, hparams⟩

/-- **Policing is sound and its answer faithful.** For every request the
parser accepts, in either layout, every version, every configured limit and
either outcome of `setTrafficClass`, the policed parameters are in their
ranges and no division is by zero; and parsing what the server answers,
signed or not, gives back the parameters it then uses. -/
theorem policing_sound_faithful (hmac : HMAC) (cfg : Config) (s : Session) (d : Rx)
    (req : TestActPDU) (hs : s.Fresh) (hreq : parseTestAct d.bytes = .ok (.ok req)) :
    let srv := newServer cfg
    let s' := s.activate srv req d
    s'.p.Policed cfg.maxTestSeconds srv.table ∧
      policeSubInt s.pver req (policeDuration srv.cfg req) ≠ 0 ∧
      ∃ resp, s'.activationResponse srv req = .ok resp ∧
        (∃ pdu r, resp.marshal = .ok pdu ∧ parseTestAct pdu = .ok (.ok r) ∧
          r.params s.pver = s'.p) ∧
        ∀ now pdu, s'.sealResponse hmac resp now = .ok pdu →
          ∃ r, parseTestAct pdu = .ok (.ok r) ∧ r.params s.pver = s'.p := by
  intro srv s'
  obtain ⟨row, hresp⟩ := activationResponse_eq srv s req d
  obtain ⟨pdu, hpdu, hparse⟩ :=
    respond_decodes srv hs hreq row req.auth fun _ => rfl
  refine ⟨activate_policed srv req d hs, (policeSubInt_pos srv.cfg s.pver req).ne', _, hresp,
    ⟨pdu, _, hpdu, hparse, params_respond srv req d hs row⟩, ?_⟩
  intro now pdu hseal
  exact sealResponse_params srv hs hreq hseal

end Answer

/-! ### A request without keys -/

def awaitingSession : Session where
  port := 5000
  setupPeer := { addr := .v4 0, port := 40000 }
  pver := protocolVer
  authMode := 0
  keys := none
  legacyKey := none
  bwMbps := 0
  bwUpstream := false

/-- An activation request for a downstream test: the two marking fields, and
zero for everything else but the row index. -/
def activationOf (dscpEcn ecnCEThresh : UInt8) : Bytes :=
  encodeBE 2 pduIDTestAct.toNat ++ encodeBE 2 protocolVer.toNat ++ [cmdTestActDownstream] ++
    List.replicate 10 0 ++ [dscpEcn, 0xFF, 0xFF] ++ List.replicate 9 0 ++ [ecnCEThresh] ++
    List.replicate 76 0

theorem policing_sound_faithful_plain : (awaitingSession.activate (newServer {})
    (TestActPDU.ofBytes (activationOf 0 0)) { peer := awaitingSession.setupPeer
                                              data := activationOf 0 0 }).p.Policed 0
      (newServer {}).table :=
  (policing_sound_faithful (fun _ _ => Digest.zero) {} awaitingSession
    { peer := awaitingSession.setupPeer, data := activationOf 0 0 }
    (TestActPDU.ofBytes (activationOf 0 0)) rfl (by decide +kernel)).1

/-! ## Policing the answer -/

/-- ECT(0) or ECT(1). -/
def EcnCapable (dscpEcn : UInt8) : Prop := dscpEcn &&& 0x03 = 1 ∨ dscpEcn &&& 0x03 = 2

instance (dscpEcn : UInt8) : Decidable (EcnCapable dscpEcn) :=
  inferInstanceAs (Decidable (_ ∨ _))

theorem policeCEThresh_eq (req : TestActPDU) : policeCEThresh req =
    if EcnCapable req.dscpEcn then (req.ecnCEThresh.toNat : Int) else 0 := by
  by_cases h : EcnCapable req.dscpEcn
  · rw [if_pos h]
    exact if_neg fun hne => h.elim hne.1 hne.2
  · rw [if_neg h]
    exact if_pos (not_or.mp h)

section Fixed

variable {s : Session} {srv : Server} {r : TestActPDU} {tcFails : Bool}

theorem policeDuration_fixed {cfg : Config} (hpos : 1 ≤ (r.testIntTime.toNat : Int))
    (hle : (r.testIntTime.toNat : Int) ≤ 3600)
    (hmax : 0 < cfg.maxTestSeconds → (r.testIntTime.toNat : Int) ≤ cfg.maxTestSeconds)
    (hshort : (r.testIntTime.toNat : Int) < 5 → (r.testIntTime.toNat : Int) = cfg.maxTestSeconds) :
    policeDuration cfg r = r.testIntTime.toNat := by
  simp only [policeDuration]
  split_ifs <;> omega

theorem policeThresholds_fixed (hlow : 1 ≤ (r.lowThresh.toNat : Int))
    (hle : (r.lowThresh.toNat : Int) ≤ r.upperThresh.toNat)
    (hupper : (r.upperThresh.toNat : Int) ≤ 10000) :
    policeThresholds r = (↑r.lowThresh.toNat, ↑r.upperThresh.toNat) := by
  have hlow' : ¬ ((r.lowThresh.toNat : Int) < 1 ∨ 10000 < (r.lowThresh.toNat : Int)) := by omega
  have hupper' : ¬ ((r.upperThresh.toNat : Int) < 1 ∨ 10000 < (r.upperThresh.toNat : Int)) := by
    omega
  simp only [policeThresholds, if_neg hlow', if_neg hupper', if_neg (Int.not_lt.mpr hle)]

theorem policeSubInt_fixed {pver : UInt16} {dur : Int}
    (hmin : 100 * millisecond ≤ (r.params pver).subInt)
    (hmax : (r.params pver).subInt ≤ 10 * second) (hdur : (r.params pver).subInt ≤ dur * second) :
    policeSubInt pver r dur * millisecond = (r.params pver).subInt := by
  change (100 : Int) * 1000000 ≤ _ at hmin
  change _ ≤ (10 : Int) * 1000000000 at hmax
  change _ ≤ dur * 1000000000 at hdur
  show _ * 1000000 = _
  by_cases hver : Udpst.protocolVer ≤ pver
  · have hsub : (r.params pver).subInt = r.subIntPeriod.toNat * 1000000 := if_pos hver
    rw [hsub] at hmin hmax hdur ⊢
    simp only [policeSubInt, if_pos hver]
    split_ifs <;> omega
  · have hsub : (r.params pver).subInt = r.legacySubIntSec.toNat * 1000000000 := if_neg hver
    rw [hsub] at hmin hmax hdur ⊢
    simp only [policeSubInt, if_neg hver]
    split_ifs <;> omega

theorem policeIndexConf_fixed {pver : UInt16} {table : RateTable}
    (h : (r.params pver).srIndexConf < table.rows.length) :
    policeIndexConf table r = (r.params pver).srIndexConf := by
  simp only [TestActPDU.params, policeIndexConf] at *
  by_cases hauto : r.srIndexConf = srIndexAuto
  · rw [if_pos hauto]
    exact if_neg fun hne => hne.1 hauto
  · rw [if_neg hauto] at h ⊢
    exact if_pos ⟨hauto, by exact_mod_cast h⟩

theorem policeAdjSupp_fixed {pver : UInt16} {dur subMs : Int} (hsub : 0 < subMs) (hdur : 0 ≤ dur)
    (hroom : r.srAdjSuppCount = 0 ∨ protocolVer ≤ pver ∧
      (r.srAdjSuppCount.toNat + 1) * subMs ≤ dur * 1000) :
    policeAdjSupp pver r dur subMs 0 = r.srAdjSuppCount := by
  rcases hroom with hzero | ⟨hver, hroom⟩
  · simp only [policeAdjSupp, hzero, ite_self]
  · have hlt : (r.srAdjSuppCount.toNat : Int) < (dur * 1000).tdiv subMs := by
      rw [Int.tdiv_eq_ediv_of_nonneg (by omega)]
      exact (Int.le_ediv_iff_mul_le hsub).mpr hroom
    simp only [policeAdjSupp, if_pos hver, if_pos hlt]

/-- Parameters that are in their ranges, and that leave room for their
suppression count, are left alone by policing, but for the CE threshold. -/
theorem police_fixed (hs : s.Fresh)
    (hpol : (r.params s.pver).Policed srv.cfg.maxTestSeconds srv.table)
    (hshort : (r.params s.pver).duration < 5 * second →
      (r.params s.pver).duration = srv.cfg.maxTestSeconds * second)
    (hroom : r.srAdjSuppCount = 0 ∨ protocolVer ≤ s.pver ∧
      (r.srAdjSuppCount.toNat + 1) * (r.params s.pver).subInt ≤ (r.params s.pver).duration)
    (hmark : tcFails = true → r.dscpEcn = 0) :
    (s.police srv r tcFails).p = { r.params s.pver with ecnCEThresh := policeCEThresh r } := by
  have hthresh := policeThresholds_fixed hpol.low_pos hpol.low_le hpol.upper_le
  have hdur : policeDuration srv.cfg r = r.testIntTime.toNat := by
    have hge : 1000000000 ≤ (r.testIntTime.toNat : Int) * 1000000000 := hpol.duration_ge
    have hle : (r.testIntTime.toNat : Int) * 1000000000 ≤ 3600 * 1000000000 := hpol.duration_le
    refine policeDuration_fixed (by omega) (by omega) (fun hpos => ?_) (fun hlt => ?_)
    · have hmax : (r.testIntTime.toNat : Int) * 1000000000 ≤ srv.cfg.maxTestSeconds * 1000000000 :=
        hpol.duration_max hpos
      omega
    · have heq : (r.testIntTime.toNat : Int) * 1000000000 = srv.cfg.maxTestSeconds * 1000000000 :=
        hshort (show (r.testIntTime.toNat : Int) * 1000000000 < 5 * 1000000000 by omega)
      omega
  have hsub : policeSubInt s.pver r (policeDuration srv.cfg r) * millisecond =
      (r.params s.pver).subInt := by
    refine policeSubInt_fixed hpol.sub_ge hpol.sub_le ?_
    rw [hdur]
    exact hpol.sub_duration
  have hold : s.p.srAdjSupp = 0 := by rw [hs]
  have hsubpos := policeSubInt_pos srv.cfg s.pver r
  have htrial : 5 * 1000000 ≤ (r.trialInt.toNat : Int) * 1000000 := hpol.trial_ge
  have htrial' : (r.trialInt.toNat : Int) * 1000000 ≤ 250 * 1000000 := hpol.trial_le
  have hdelta : 1 ≤ (r.highSpeedDelta.toNat : Int) := hpol.delta_pos
  have hslow : 1 ≤ (r.slowAdjThresh.toNat : Int) := hpol.slow_pos
  apply TestParams.ext
  case lowThresh => exact congrArg Prod.fst hthresh
  case upperThresh => exact congrArg Prod.snd hthresh
  case trialInt =>
    show policeTrialInt r * 1000000 = (r.trialInt.toNat : Int) * 1000000
    rw [policeTrialInt, if_neg (by omega)]
  case duration => exact congrArg (· * second) hdur
  case subInt => exact hsub
  case dscpEcn =>
    show (if r.dscpEcn ≠ 0 ∧ tcFails = true then 0 else r.dscpEcn) = r.dscpEcn
    exact if_neg fun h => h.1 (hmark h.2)
  case srIndexConf => exact policeIndexConf_fixed hpol.conf_lt
  case indexIsStart => rfl
  case useOwDelVar => rfl
  case highSpeedDelta => exact if_neg (by omega)
  case slowAdjThresh => exact if_neg (by omega)
  case seqErrThresh => rfl
  case ignoreOooDup => rfl
  case randPayload => rfl
  case algo => exact if_neg (UInt8.not_lt.mpr hpol.algo_le)
  case ecnCEThresh => rfl
  case srAdjSupp =>
    show policeAdjSupp s.pver r (policeDuration srv.cfg r) _ s.p.srAdjSupp = r.srAdjSuppCount
    rw [hold]
    refine policeAdjSupp_fixed hsubpos (by rw [hdur]; exact Int.natCast_nonneg _) ?_
    rcases hroom with hzero | ⟨hver, hle⟩
    · exact .inl hzero
    · refine .inr ⟨hver, ?_⟩
      have hright : (r.params s.pver).duration = policeDuration srv.cfg r * 1000 * 1000000 := by
        rw [hdur, mul_assoc]
        rfl
      rw [← hsub, hright, ← mul_assoc] at hle
      exact le_of_mul_le_mul_right hle (by decide)

/-- A response never asks for CE thresholding without ECT marking. -/
def TestActPDU.MarksConsistently (r : TestActPDU) : Prop :=
  r.ecnCEThresh ≠ 0 → EcnCapable r.dscpEcn

instance (r : TestActPDU) : Decidable r.MarksConsistently :=
  inferInstanceAs (Decidable (_ → _))

theorem marksConsistently_iff (r : TestActPDU) :
    r.MarksConsistently ↔ policeCEThresh r = r.ecnCEThresh.toNat := by
  rw [policeCEThresh_eq]
  unfold TestActPDU.MarksConsistently
  by_cases h : EcnCapable r.dscpEcn
  · simp [h]
  · have hzero : (r.ecnCEThresh = 0) ↔ ((0 : Int) = r.ecnCEThresh.toNat) := by
      rw [← UInt8.toNat_inj, eq_comm]
      exact Nat.cast_inj.symm
    rw [if_neg h, ← hzero]
    exact ⟨fun hr => not_not.mp fun hne => h (hr hne), fun heq hne => absurd heq hne⟩

/-- Policing the stated parameters of an activated session once more. -/
theorem police_answer (hs : s.Fresh) {req : TestActPDU} {d : Rx}
    (hr : r.params s.pver = (s.activate srv req d).p) :
    (s.activate srv r d).p =
      { (s.activate srv req d).p with ecnCEThresh := policeCEThresh r } := by
  have hpol := activate_policed srv req d hs
  have hdscp : r.dscpEcn = if req.dscpEcn ≠ 0 ∧ d.tcFails = true then 0 else req.dscpEcn :=
    congrArg TestParams.dscpEcn hr
  have hcount : r.srAdjSuppCount = (s.activate srv req d).p.srAdjSupp :=
    congrArg TestParams.srAdjSupp hr
  rw [← hr] at hpol ⊢
  refine police_fixed hs hpol ?_ ?_ ?_
  · rw [hr]
    intro hlt
    have hshort : policeDuration srv.cfg req * 1000000000 < 5 * 1000000000 := hlt
    exact congrArg (· * second) (policeDuration_short srv.cfg req (by omega))
  · rw [hr, hcount]
    rcases activate_srAdjSupp srv req d hs with hzero | ⟨hver, heq, hroom⟩
    · exact .inl hzero
    · refine .inr ⟨hver, ?_⟩
      rw [heq]
      have hscaled := mul_le_mul_of_nonneg_right hroom (by decide : (0 : Int) ≤ 1000000)
      rw [mul_assoc, mul_assoc] at hscaled
      exact hscaled
  · intro htc
    rw [hdscp]
    by_cases hzero : req.dscpEcn = 0
    · rw [if_neg fun h => h.1 hzero, hzero]
    · exact if_pos ⟨hzero, htc⟩

/-- When the kernel refuses the traffic class, a threshold loses its marking. -/
theorem answer_marksConsistently_iff {req : TestActPDU} {d : Rx}
    (hr : r.params s.pver = (s.activate srv req d).p) :
    r.MarksConsistently ↔
      ¬ (d.tcFails = true ∧ EcnCapable req.dscpEcn ∧ req.ecnCEThresh ≠ 0) := by
  have hdscp : r.dscpEcn = if req.dscpEcn ≠ 0 ∧ d.tcFails = true then 0 else req.dscpEcn :=
    congrArg TestParams.dscpEcn hr
  have hce : (r.ecnCEThresh.toNat : Int) = policeCEThresh req := congrArg TestParams.ecnCEThresh hr
  rw [policeCEThresh_eq] at hce
  have hplain : ¬ EcnCapable 0 := by decide
  unfold TestActPDU.MarksConsistently
  by_cases hect : EcnCapable req.dscpEcn
  · have hne : req.dscpEcn ≠ 0 := fun h => hplain (h ▸ hect)
    rw [if_pos hect] at hce
    have hsame : r.ecnCEThresh = req.ecnCEThresh := UInt8.toNat_inj.mp (by exact_mod_cast hce)
    rw [hsame, hdscp]
    cases htc : d.tcFails with
    | true =>
        rw [if_pos ⟨hne, rfl⟩]
        exact ⟨fun h hbad => hplain (h hbad.2.2), fun h hce => absurd ⟨rfl, hect, hce⟩ h⟩
    | false =>
        rw [if_neg fun h => nomatch h.2]
        exact ⟨fun _ h => (nomatch h.1), fun _ _ => hect⟩
  · rw [if_neg hect] at hce
    have hzero : r.ecnCEThresh = 0 := UInt8.toNat_inj.mp (by exact_mod_cast hce)
    exact ⟨fun _ h => hect h.2.1, fun _ h => absurd hzero h⟩

theorem answer_fixed_iff (hs : s.Fresh) {req : TestActPDU} {d : Rx}
    (hr : r.params s.pver = (s.activate srv req d).p) :
    (s.activate srv r d).p = (s.activate srv req d).p ∧ r.MarksConsistently ↔
      ¬ (d.tcFails = true ∧ EcnCapable req.dscpEcn ∧ req.ecnCEThresh ≠ 0) := by
  rw [← answer_marksConsistently_iff hr]
  refine ⟨fun h => h.2, fun h => ⟨?_, h⟩⟩
  rw [police_answer hs hr, (marksConsistently_iff r).mp h, ← hr]
  rfl

end Fixed

/-- **Policing is a fixed point of its own answer exactly if the kernel
accepts the traffic class of a request with a CE threshold.** The answer is
policed as it is parsed, with the same outcome of `setTrafficClass`. -/
theorem policing_fixed_iff (cfg : Config) (s : Session) (d : Rx) (req : TestActPDU)
    (hs : s.Fresh) (hreq : parseTestAct d.bytes = .ok (.ok req)) :
    let srv := newServer cfg
    let s' := s.activate srv req d
    ∃ resp pdu r, s'.activationResponse srv req = .ok resp ∧ resp.marshal = .ok pdu ∧
      parseTestAct pdu = .ok (.ok r) ∧
      ((s.activate srv r d).p = s'.p ∧ r.MarksConsistently ↔
        ¬ (d.tcFails = true ∧ EcnCapable req.dscpEcn ∧ req.ecnCEThresh ≠ 0)) := by
  intro srv s'
  obtain ⟨row, hresp⟩ := activationResponse_eq srv s req d
  obtain ⟨pdu, hpdu, hparse⟩ := respond_decodes srv hs hreq row req.auth fun _ => rfl
  exact ⟨_, pdu, _, hresp, hpdu, hparse, answer_fixed_iff hs (params_respond srv req d hs row)⟩

/-- The activation datagram, with the traffic class accepted or refused. -/
def activationRx (dscpEcn ecnCEThresh : UInt8) (tcFails : Bool) : Rx where
  peer := awaitingSession.setupPeer
  data := activationOf dscpEcn ecnCEThresh
  tcFails := tcFails

theorem policing_fixed_iff_accepted :
    ∃ resp pdu r, (awaitingSession.activate (newServer {}) (TestActPDU.ofBytes (activationOf 1 10))
        (activationRx 1 10 false)).activationResponse (newServer {})
        (TestActPDU.ofBytes (activationOf 1 10)) = .ok resp ∧ resp.marshal = .ok pdu ∧
      parseTestAct pdu = .ok (.ok r) ∧ r.MarksConsistently := by
  obtain ⟨resp, pdu, r, hresp, hpdu, hparse, hiff⟩ := policing_fixed_iff {} awaitingSession
    (activationRx 1 10 false) (TestActPDU.ofBytes (activationOf 1 10)) rfl (by decide +kernel)
  exact ⟨resp, pdu, r, hresp, hpdu, hparse, (hiff.mpr (by decide +kernel)).2⟩

/-- With the traffic class refused, the answer states a CE threshold of 10
and no marking; policing it again drops the threshold. -/
theorem policing_not_fixed :
    let req := TestActPDU.ofBytes (activationOf 1 10)
    let s' := awaitingSession.activate (newServer {}) req (activationRx 1 10 true)
    let r := s'.respond req
    s'.activationResponse (newServer {}) req = .ok { r with sr := {} } ∧
      r.ecnCEThresh = 10 ∧ r.dscpEcn = 0 ∧ s'.p.ecnCEThresh = 10 ∧
      (awaitingSession.activate (newServer {}) r (activationRx 1 10 true)).p.ecnCEThresh = 0 := by
  refine ⟨rfl, ?_⟩
  decide +kernel

end Diagd.Udpst

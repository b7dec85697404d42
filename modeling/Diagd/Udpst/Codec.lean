import Diagd.Lib.Patches
import Diagd.Udpst.Protocol

/-!
# What the parsers and marshallers do

One specification lemma for each codec function of `Protocol`. No parser
panics, on any input; what a parser accepts is a decidable shape of the
bytes (`IsSetup`, `IsTestAct`, ...) and what it then returns is the total
decoding of these bytes (`SetupPDU.ofBytes`, ...). A marshaller never
panics and its result has the size of the layout.
-/

namespace Diagd.Udpst

open GoSlice

/-! ## Nested structures -/

def Rate.ofBytes (b : Bytes) : Rate where
  txInterval1 := u32At b 0
  udpPayload1 := u32At b 4
  burstSize1 := u32At b 8
  txInterval2 := u32At b 12
  udpPayload2 := u32At b 16
  burstSize2 := u32At b 20
  udpAddon2 := u32At b 24

theorem parseRate_ok {b : Bytes} (h : 28 ≤ b.length) : parseRate b = .ok (Rate.ofBytes b) := by
  simp (disch := omega) only [parseRate, getU32_ok]
  rfl

def AuthTrailer.ofBytes (b : Bytes) : AuthTrailer where
  authMode := b.getD 0 0
  authUnixTime := u32At b 1
  authDigest := Digest.ofBytes (sub b 5 37)
  keyID := b.getD 37 0

theorem authTrailer_parse_ok {b : Bytes} (h : 38 ≤ b.length) :
    AuthTrailer.parse b = .ok (AuthTrailer.ofBytes b) := by
  simp (disch := omega) only [AuthTrailer.parse, getU32_ok, index_ok, slice_ok]
  rfl

def SubIntStats.ofBytes (b : Bytes) : SubIntStats where
  rxDatagrams := u32At b 0
  rxBytes := u64At b 4
  deltaTime := u32At b 12
  seqErrLoss := u32At b 16
  seqErrOoo := u32At b 20
  seqErrDup := u32At b 24
  delayVarMin := u32At b 28
  delayVarMax := u32At b 32
  delayVarSum := u32At b 36
  delayVarCnt := u32At b 40
  rttVarMin := u32At b 44
  rttVarMax := u32At b 48
  accumTime := u32At b 52

theorem parseSubIntStats_ok {b : Bytes} (h : 56 ≤ b.length) :
    parseSubIntStats b = .ok (SubIntStats.ofBytes b) := by
  simp (disch := omega) only [parseSubIntStats, getU32_ok, getU64_ok]
  rfl

/-! ## Setup -/

def SetupPDU.ofBytes (b : Bytes) : SetupPDU where
  protocolVer := u16At b 2
  mcIndex := b.getD 4 0
  mcCount := b.getD 5 0
  mcIdent := u16At b 6
  cmdRequest := b.getD 8 0
  cmdResponse := b.getD 9 0
  maxBandwidth := u16At b 10
  testPort := u16At b 12
  modifiers := b.getD 14 0
  auth := AuthTrailer.ofBytes (sub b 15 b.length)

/-- The shape `parseSetup` accepts. -/
structure IsSetup (b : Bytes) : Prop where
  size : b.length = setupSize
  id : u16At b 0 = pduIDSetup
  cmd : b.getD 8 0 = cmdSetupRequest ∨ b.getD 8 0 = cmdSetupResponse

theorem setupFields_ok {b : Bytes} (h : b.length = setupSize) :
    setupFields b = .ok { SetupPDU.ofBytes b with auth := {} } := by
  have hlen : b.length = 56 := h
  simp (disch := omega) only [setupFields, getU16_ok, index_ok]
  rfl

theorem parseSetup_ok {b : Bytes} (h : IsSetup b) :
    parseSetup b = .ok (.ok (SetupPDU.ofBytes b)) := by
  have hlen : b.length = 56 := h.size
  have htail : 38 ≤ (sub b 15 b.length).length := by
    rw [sub_length (Nat.le_refl _)]
    omega
  have hcmd : ¬ (b.getD 8 0 ≠ cmdSetupRequest ∧ b.getD 8 0 ≠ cmdSetupResponse) :=
    fun hc => h.cmd.elim hc.1 hc.2
  rw [parseSetup, if_neg (not_not.mpr h.size), getU16_ok (by omega), ok_bind,
    if_neg (not_not.mpr h.id), setupFields_ok h.size, ok_bind]
  refine (if_neg hcmd).trans ?_
  rw [sliceFrom_ok (by omega), ok_bind, authTrailer_parse_ok htail]
  rfl

/-- `parseSetup` never panics, and accepts exactly the setup shape. -/
theorem parseSetup_cases (b : Bytes) :
    (IsSetup b ∧ parseSetup b = .ok (.ok (SetupPDU.ofBytes b))) ∨
      (¬ IsSetup b ∧ ∃ msg, parseSetup b = .ok (.error msg)) := by
  by_cases h : IsSetup b
  · exact .inl ⟨h, parseSetup_ok h⟩
  refine .inr ⟨h, ?_⟩
  by_cases hsize : b.length = setupSize
  · have hlen : b.length = 56 := hsize
    rw [parseSetup, if_neg (not_not.mpr hsize), getU16_ok (by omega), ok_bind]
    by_cases hid : u16At b 0 = pduIDSetup
    · rw [if_neg (not_not.mpr hid), setupFields_ok hsize, ok_bind]
      have hcmd : b.getD 8 0 ≠ cmdSetupRequest ∧ b.getD 8 0 ≠ cmdSetupResponse :=
        ⟨fun hc => h ⟨hsize, hid, .inl hc⟩, fun hc => h ⟨hsize, hid, .inr hc⟩⟩
      exact ⟨_, if_pos hcmd⟩
    · exact ⟨_, if_pos hid⟩
  · exact ⟨_, if_pos hsize⟩

/-- Acceptance, as callers see it. -/
theorem parseSetup_eq_ok {b : Bytes} {p : SetupPDU} :
    parseSetup b = .ok (.ok p) ↔ IsSetup b ∧ p = SetupPDU.ofBytes b := by
  rcases parseSetup_cases b with ⟨h, hp⟩ | ⟨h, msg, hp⟩
  · simp [hp, h, eq_comm]
  · simp [hp, h]

/-! ## Test Activation -/

def TestActPDU.ofBytes (b : Bytes) : TestActPDU where
  protocolVer := u16At b 2
  cmdRequest := b.getD 4 0
  cmdResponse := b.getD 5 0
  lowThresh := u16At b 6
  upperThresh := u16At b 8
  trialInt := u16At b 10
  testIntTime := u16At b 12
  legacySubIntSec := b.getD 14 0
  dscpEcn := b.getD 15 0
  srIndexConf := u16At b 16
  useOwDelVar := b.getD 18 0
  highSpeedDelta := b.getD 19 0
  slowAdjThresh := u16At b 20
  seqErrThresh := u16At b 22
  ignoreOooDup := b.getD 24 0
  modifiers := b.getD 25 0
  rateAdjAlgo := b.getD 26 0
  ecnCEThresh := b.getD 27 0
  sr := Rate.ofBytes (sub b 28 56)
  subIntPeriod := u16At b 56
  srAdjSuppCount := if b.length < testActSize then 0 else u16At b 60
  auth := if b.length < testActSize then {} else AuthTrailer.ofBytes (sub b 63 b.length)
  legacy := decide (b.length < testActSize)

/-- The shape `parseTestAct` accepts. -/
structure IsTestAct (b : Bytes) : Prop where
  minSize : testActMinSize ≤ b.length
  maxSize : b.length ≤ testActSize
  id : u16At b 0 = pduIDTestAct
  cmd : b.getD 4 0 = cmdTestActUpstream ∨ b.getD 4 0 = cmdTestActDownstream

theorem isTestAct_iff (b : Bytes) : IsTestAct b ↔
    testActMinSize ≤ b.length ∧ b.length ≤ testActSize ∧ u16At b 0 = pduIDTestAct ∧
      (b.getD 4 0 = cmdTestActUpstream ∨ b.getD 4 0 = cmdTestActDownstream) :=
  ⟨fun h => ⟨h.minSize, h.maxSize, h.id, h.cmd⟩, fun h => ⟨h.1, h.2.1, h.2.2.1, h.2.2.2⟩⟩

instance (b : Bytes) : Decidable (IsTestAct b) := decidable_of_iff _ (isTestAct_iff b).symm

theorem testActFields_ok {b : Bytes} (h : testActMinSize ≤ b.length) :
    testActFields b
      = .ok { TestActPDU.ofBytes b with srAdjSuppCount := 0, auth := {} } := by
  have hlen : 60 ≤ b.length := h
  have hrate : 28 ≤ (sub b 28 56).length := by rw [sub_length (by omega)]
  simp (disch := omega) only [testActFields, getU16_ok, index_ok, slice_ok, ok_bind,
    parseRate_ok hrate]
  rfl

theorem parseTestAct_ok {b : Bytes} (h : IsTestAct b) :
    parseTestAct b = .ok (.ok (TestActPDU.ofBytes b)) := by
  have hmin : 60 ≤ b.length := h.minSize
  have hmax : b.length ≤ 104 := h.maxSize
  have hsize : ¬ (b.length < testActMinSize ∨ testActSize < b.length) :=
    fun hc => hc.elim (Nat.not_lt.mpr h.minSize) (Nat.not_lt.mpr h.maxSize)
  have hcmd : ¬ (b.getD 4 0 ≠ cmdTestActUpstream ∧ b.getD 4 0 ≠ cmdTestActDownstream) :=
    fun hc => h.cmd.elim hc.1 hc.2
  rw [parseTestAct, if_neg hsize, getU16_ok (by omega), ok_bind, if_neg (not_not.mpr h.id),
    testActFields_ok h.minSize, ok_bind]
  refine (if_neg hcmd).trans ?_
  by_cases hleg : b.length < testActSize
  · refine (if_pos (decide_eq_true hleg)).trans ?_
    simp only [TestActPDU.ofBytes, if_pos hleg]
    rfl
  · have hfull : b.length = 104 := Nat.le_antisymm hmax (Nat.not_lt.mp hleg)
    have htail : 38 ≤ (sub b 63 b.length).length := by
      rw [sub_length (Nat.le_refl _)]
      omega
    refine (if_neg (by simp [TestActPDU.ofBytes, hleg])).trans ?_
    rw [getU16_ok (by omega), ok_bind, sliceFrom_ok (by omega), ok_bind,
      authTrailer_parse_ok htail]
    simp only [TestActPDU.ofBytes, if_neg hleg]
    rfl

/-- `parseTestAct` never panics, and accepts exactly the activation shape. -/
theorem parseTestAct_cases (b : Bytes) :
    (IsTestAct b ∧ parseTestAct b = .ok (.ok (TestActPDU.ofBytes b))) ∨
      (¬ IsTestAct b ∧ ∃ msg, parseTestAct b = .ok (.error msg)) := by
  by_cases h : IsTestAct b
  · exact .inl ⟨h, parseTestAct_ok h⟩
  refine .inr ⟨h, ?_⟩
  by_cases hsize : b.length < testActMinSize ∨ testActSize < b.length
  · exact ⟨_, if_pos hsize⟩
  · obtain ⟨hmin, hmax⟩ := not_or.mp hsize
    have hmin' : testActMinSize ≤ b.length := Nat.not_lt.mp hmin
    have hlen : 60 ≤ b.length := hmin'
    rw [parseTestAct, if_neg hsize, getU16_ok (by omega), ok_bind]
    by_cases hid : u16At b 0 = pduIDTestAct
    · rw [if_neg (not_not.mpr hid), testActFields_ok hmin', ok_bind]
      have hcmd : b.getD 4 0 ≠ cmdTestActUpstream ∧ b.getD 4 0 ≠ cmdTestActDownstream :=
        ⟨fun hc => h ⟨hmin', Nat.not_lt.mp hmax, hid, .inl hc⟩,
          fun hc => h ⟨hmin', Nat.not_lt.mp hmax, hid, .inr hc⟩⟩
      exact ⟨_, if_pos hcmd⟩
    · exact ⟨_, if_pos hid⟩

/-! ## Load header -/

def LoadPDU.ofBytes (b : Bytes) : LoadPDU where
  testAction := b.getD 2 0
  rxStopped := b.getD 3 0
  seqNo := u32At b 4
  udpPayload := u16At b 8
  spduSeqErr := u16At b 10
  spduTimeSec := u32At b 12
  spduTimeNsec := u32At b 16
  timeSec := u32At b 20
  timeNsec := u32At b 24
  rttRespDelay := u16At b 28

/-- The shape `parseLoadHdr` accepts. -/
structure IsLoad (b : Bytes) : Prop where
  size : loadHdrSize ≤ b.length
  id : u16At b 0 = pduIDLoad
  action : b.getD 2 0 ≤ testActionStop2
  stopped : b.getD 3 0 ≤ 1

theorem loadFields_ok {b : Bytes} (h : loadHdrSize ≤ b.length) :
    loadFields b = .ok (LoadPDU.ofBytes b) := by
  have hlen : 32 ≤ b.length := h
  simp (disch := omega) only [loadFields, getU16_ok, getU32_ok, index_ok, ok_bind]
  rfl

/-- `parseLoadHdr` never panics, and accepts exactly the load shape. -/
theorem parseLoadHdr_cases (b : Bytes) :
    (IsLoad b ∧ parseLoadHdr b = .ok (.ok (LoadPDU.ofBytes b))) ∨
      (¬ IsLoad b ∧ ∃ msg, parseLoadHdr b = .ok (.error msg)) := by
  by_cases hsize : b.length < loadHdrSize
  · exact .inr ⟨fun h => Nat.not_lt.mpr h.size hsize, _, if_pos hsize⟩
  have hlen : loadHdrSize ≤ b.length := Nat.not_lt.mp hsize
  have hlen' : 32 ≤ b.length := hlen
  rw [parseLoadHdr, if_neg hsize, getU16_ok (by omega), ok_bind]
  by_cases hid : u16At b 0 = pduIDLoad
  · rw [if_neg (not_not.mpr hid), loadFields_ok hlen, ok_bind]
    by_cases hf : testActionStop2 < b.getD 2 0 ∨ 1 < b.getD 3 0
    · refine .inr ⟨fun h => ?_, _, if_pos hf⟩
      exact hf.elim (UInt8.not_lt.mpr h.action) (UInt8.not_lt.mpr h.stopped)
    · obtain ⟨ha, hs⟩ := not_or.mp hf
      exact .inl ⟨⟨hlen, hid, UInt8.not_lt.mp ha, UInt8.not_lt.mp hs⟩, if_neg hf⟩
  · exact .inr ⟨fun h => hid h.id, _, if_pos hid⟩

theorem parseLoadHdr_total (b : Bytes) : ∃ r, parseLoadHdr b = .ok r := by
  rcases parseLoadHdr_cases b with ⟨-, h⟩ | ⟨-, msg, h⟩ <;> exact ⟨_, h⟩

/-- Acceptance, as callers see it. -/
theorem parseLoadHdr_eq_ok {b : Bytes} {p : LoadPDU} :
    parseLoadHdr b = .ok (.ok p) ↔ IsLoad b ∧ p = LoadPDU.ofBytes b := by
  rcases parseLoadHdr_cases b with ⟨h, hp⟩ | ⟨h, msg, hp⟩
  · simp [hp, h, eq_comm]
  · simp [hp, h]

/-! ## Status -/

/-- The saved sub-interval of the legacy layout, packed as `parseStatus`
packs it before decoding. -/
def packedSubInt (b : Bytes) : Bytes :=
  wr (wr (List.replicate 56 0) 0 (encodeBE 4 (u32At b 40).toNat)) 4 (sub b 48 100)

/-- The 204-byte layout. -/
def StatusPDU.ofBytes (b : Bytes) : StatusPDU where
  testAction := b.getD 2 0
  rxStopped := b.getD 3 0
  seqNo := u32At b 4
  sr := Rate.ofBytes (sub b 8 36)
  subIntSeqNo := u32At b 36
  subIntSaved := SubIntStats.ofBytes (sub b 40 96)
  seqErrLoss := u32At b 96
  seqErrOoo := u32At b 100
  seqErrDup := u32At b 104
  clockDeltaMin := u32At b 108
  delayVarMin := u32At b 112
  delayVarMax := u32At b 116
  delayVarSum := u32At b 120
  delayVarCnt := u32At b 124
  rttMinimum := u32At b 128
  rttVarSample := u32At b 132
  delayMinUpd := b.getD 136 0
  tiDeltaTime := u32At b 140
  tiRxDatagrams := u32At b 144
  tiRxBytes := u32At b 148
  timeSec := u32At b 152
  timeNsec := u32At b 156
  authMode := b.getD 163 0
  tiRxCECount := u32At b 176
  savedCECount := u32At b 180
  modifiers := b.getD 185 0
  legacy := false

/-- The 168-byte layout. -/
def StatusPDU.ofLegacyBytes (b : Bytes) : StatusPDU where
  testAction := b.getD 2 0
  rxStopped := b.getD 3 0
  seqNo := u32At b 4
  sr := Rate.ofBytes (sub b 8 36)
  subIntSeqNo := u32At b 36
  subIntSaved := SubIntStats.ofBytes (packedSubInt b)
  seqErrLoss := u32At b 104
  seqErrOoo := u32At b 108
  seqErrDup := u32At b 112
  clockDeltaMin := u32At b 116
  delayVarMin := u32At b 120
  delayVarMax := u32At b 124
  delayVarSum := u32At b 128
  delayVarCnt := u32At b 132
  rttMinimum := u32At b 136
  rttVarSample := u32At b 140
  delayMinUpd := b.getD 144 0
  tiDeltaTime := u32At b 148
  tiRxDatagrams := u32At b 152
  tiRxBytes := u32At b 156
  timeSec := u32At b 160
  timeNsec := u32At b 164
  legacy := true

/-- The shape `parseStatus` accepts, in a layout of `n` bytes. -/
structure IsStatus (n : Nat) (b : Bytes) : Prop where
  size : b.length = n
  id : u16At b 0 = pduIDStatus
  action : b.getD 2 0 ≤ testActionStop2
  stopped : b.getD 3 0 ≤ 1

/-- What both branches start from. -/
theorem statusFields_ok {b : Bytes} (h : 168 ≤ b.length) :
    statusFields b = .ok {
      testAction := b.getD 2 0
      rxStopped := b.getD 3 0
      seqNo := u32At b 4
      sr := Rate.ofBytes (sub b 8 36)
      subIntSeqNo := u32At b 36
      legacy := decide (b.length = statusLegacySize) } := by
  have hrate : 28 ≤ (sub b 8 36).length := by rw [sub_length (by omega)]
  simp (disch := omega) only [statusFields, getU32_ok, index_ok, slice_ok,
    parseRate_ok hrate, ok_bind]
  rfl

theorem parseStatusLegacy_ok {b : Bytes} (h : b.length = statusLegacySize) (p : StatusPDU) :
    parseStatusLegacy b p = .ok { StatusPDU.ofLegacyBytes b with
      testAction := p.testAction
      rxStopped := p.rxStopped
      seqNo := p.seqNo
      sr := p.sr
      subIntSeqNo := p.subIntSeqNo
      authMode := p.authMode
      tiRxCECount := p.tiRxCECount
      savedCECount := p.savedCECount
      modifiers := p.modifiers
      legacy := p.legacy } := by
  have hlen : b.length = 168 := h
  have htmp : (List.replicate 56 (0 : UInt8)).length = 56 := List.length_replicate
  have hsub : (sub b 48 100).length = 100 - 48 := sub_length (by omega)
  have hpacked : (packedSubInt b).length = 56 := by rw [packedSubInt, wr_length, wr_length, htmp]
  unfold parseStatusLegacy
  rw [getU32_ok (by omega), ok_bind, putU32_ok (by omega), ok_bind,
    slice_ok (by omega) (by omega), ok_bind,
    copyInto_ok (by omega) (by rw [wr_length]; omega), ok_bind, List.take_of_length_le (by omega)]
  change (parseSubIntStats (packedSubInt b) >>= _) = _
  rw [parseSubIntStats_ok (Nat.le_of_eq hpacked.symm), ok_bind]
  simp (disch := omega) only [legacyWords, getWords, getU32_ok, index_ok, ok_bind]
  rfl

theorem parseStatusCurrent_ok {b : Bytes} (h : b.length = statusSize) (p : StatusPDU) :
    parseStatusCurrent b p = .ok { StatusPDU.ofBytes b with
      testAction := p.testAction
      rxStopped := p.rxStopped
      seqNo := p.seqNo
      sr := p.sr
      subIntSeqNo := p.subIntSeqNo
      legacy := p.legacy } := by
  have hlen : b.length = 204 := h
  have hsub : 56 ≤ (sub b 40 96).length := by rw [sub_length (by omega)]
  simp (disch := omega) only [parseStatusCurrent, slice_ok, parseSubIntStats_ok hsub, getU32_ok,
    index_ok, ok_bind]
  rfl

/-- `parseStatus` never panics, and accepts exactly the status shape in one
of its two layouts. -/
theorem parseStatus_cases (b : Bytes) :
    (IsStatus statusSize b ∧ parseStatus b = .ok (.ok (StatusPDU.ofBytes b))) ∨
      (IsStatus statusLegacySize b ∧ parseStatus b = .ok (.ok (StatusPDU.ofLegacyBytes b))) ∨
      (¬ IsStatus statusSize b ∧ ¬ IsStatus statusLegacySize b ∧
        ∃ msg, parseStatus b = .ok (.error msg)) := by
  by_cases hsize : b.length ≠ statusSize ∧ b.length ≠ statusLegacySize
  · exact .inr (.inr ⟨fun h => hsize.1 h.size, fun h => hsize.2 h.size, _, if_pos hsize⟩)
  have hsize' : b.length = statusSize ∨ b.length = statusLegacySize := by
    by_contra hc
    exact hsize (not_or.mp hc)
  have hlen : 168 ≤ b.length := by
    rcases hsize' with h | h
    · exact Nat.le_trans (by decide) (Nat.le_of_eq h.symm)
    · exact Nat.le_of_eq h.symm
  rw [parseStatus, if_neg hsize, getU16_ok (by omega), ok_bind]
  by_cases hid : u16At b 0 = pduIDStatus
  swap
  · exact .inr (.inr ⟨fun h => hid h.id, fun h => hid h.id, _, if_pos hid⟩)
  rw [if_neg (not_not.mpr hid), statusFields_ok hlen, ok_bind]
  by_cases hf : testActionStop2 < b.getD 2 0 ∨ 1 < b.getD 3 0
  · have hbad : ∀ n, ¬ IsStatus n b := fun n h =>
      hf.elim (UInt8.not_lt.mpr h.action) (UInt8.not_lt.mpr h.stopped)
    exact .inr (.inr ⟨hbad _, hbad _, _, if_pos hf⟩)
  obtain ⟨ha, hs⟩ := not_or.mp hf
  have hshape : ∀ n, b.length = n → IsStatus n b := fun n hn =>
    ⟨hn, hid, UInt8.not_lt.mp ha, UInt8.not_lt.mp hs⟩
  by_cases hleg : b.length = statusLegacySize
  · refine .inr (.inl ⟨hshape _ hleg, ?_⟩)
    refine (if_neg hf).trans ((if_pos (decide_eq_true hleg)).trans ?_)
    rw [parseStatusLegacy_ok hleg, ok_bind]
    simp only [hleg, decide_true]
    rfl
  · have hcur : b.length = statusSize := hsize'.resolve_right hleg
    refine .inl ⟨hshape _ hcur, ?_⟩
    refine (if_neg hf).trans ((if_neg (by simpa using hleg)).trans ?_)
    rw [parseStatusCurrent_ok hcur, ok_bind]
    simp only [hleg, decide_false]
    rfl

theorem parseStatus_total (b : Bytes) : ∃ r, parseStatus b = .ok r := by
  rcases parseStatus_cases b with ⟨-, h⟩ | ⟨-, h⟩ | ⟨-, -, msg, h⟩ <;> exact ⟨_, h⟩

/-! ## Marshalling

`blocks` lists the fields of a structure, each with its place on the wire;
what a marshaller writes is this list, and zeros over the reserved bytes at
the end of an authentication trailer. -/

def Rate.blocks (r : Rate) : List Patch :=
  [⟨0, encodeBE 4 r.txInterval1.toNat⟩, ⟨4, encodeBE 4 r.udpPayload1.toNat⟩,
    ⟨8, encodeBE 4 r.burstSize1.toNat⟩, ⟨12, encodeBE 4 r.txInterval2.toNat⟩,
    ⟨16, encodeBE 4 r.udpPayload2.toNat⟩, ⟨20, encodeBE 4 r.burstSize2.toNat⟩,
    ⟨24, encodeBE 4 r.udpAddon2.toNat⟩]

theorem rate_spans (r : Rate) :
    r.blocks.map Patch.span = [(0, 4), (4, 4), (8, 4), (12, 4), (16, 4), (20, 4), (24, 4)] := by
  simp [Rate.blocks, Patch.span]

theorem rate_within (r : Rate) : ∀ s ∈ r.blocks.map Patch.span, s.1 + s.2 ≤ 28 := by
  rw [rate_spans]
  decide

theorem writes_rate (r : Rate) {n : Nat} (h : 28 ≤ n) : Writes n r.marshal r.blocks := by
  refine (writes_putU32 ?_).step ((writes_putU32 ?_).step ((writes_putU32 ?_).step
    ((writes_putU32 ?_).step ((writes_putU32 ?_).step ((writes_putU32 ?_).step
    (writes_putU32 ?_)))))) <;> omega

def AuthTrailer.blocks (a : AuthTrailer) : List Patch :=
  [⟨0, [a.authMode]⟩, ⟨1, encodeBE 4 a.authUnixTime.toNat⟩, ⟨5, a.authDigest.toList⟩,
    ⟨37, [a.keyID]⟩]

theorem authTrailer_spans (a : AuthTrailer) :
    a.blocks.map Patch.span = [(0, 1), (1, 4), (5, 32), (37, 1)] := by
  simp [AuthTrailer.blocks, Patch.span]

/-- The fields, then the reserved byte behind the key id. -/
def AuthTrailer.writes (a : AuthTrailer) : List Patch := a.blocks ++ [⟨38, [0]⟩]

theorem authTrailer_within (a : AuthTrailer) {n : Nat} (h : 39 ≤ n) :
    ∀ s ∈ a.writes.map Patch.span, s.1 + s.2 ≤ n := by
  intro s hs
  rw [AuthTrailer.writes, List.map_append, authTrailer_spans] at hs
  simp only [List.map_cons, List.map_nil, Patch.span, List.cons_append, List.nil_append,
    List.length_singleton, List.mem_cons, List.not_mem_nil, or_false] at hs
  rcases hs with rfl | rfl | rfl | rfl | rfl <;> simp only <;> omega

theorem writes_authTrailer (a : AuthTrailer) {n : Nat} (h : 39 ≤ n) :
    Writes n a.marshal a.writes := by
  have hdig : 37 = 5 + a.authDigest.toList.length := by simp
  refine (writes_store ?_).step ((writes_putU32 ?_).step ((writes_copyInto hdig ?_).step
    ((writes_store ?_).step (writes_store ?_)))) <;> omega

/-- The sub-interval statistics behind `rxDatagrams`, which the two status
layouts place differently. -/
def SubIntStats.tailBlocks (s : SubIntStats) : List Patch :=
  [⟨0, encodeBE 8 s.rxBytes.toNat⟩, ⟨8, encodeBE 4 s.deltaTime.toNat⟩,
    ⟨12, encodeBE 4 s.seqErrLoss.toNat⟩, ⟨16, encodeBE 4 s.seqErrOoo.toNat⟩,
    ⟨20, encodeBE 4 s.seqErrDup.toNat⟩, ⟨24, encodeBE 4 s.delayVarMin.toNat⟩,
    ⟨28, encodeBE 4 s.delayVarMax.toNat⟩, ⟨32, encodeBE 4 s.delayVarSum.toNat⟩,
    ⟨36, encodeBE 4 s.delayVarCnt.toNat⟩, ⟨40, encodeBE 4 s.rttVarMin.toNat⟩,
    ⟨44, encodeBE 4 s.rttVarMax.toNat⟩, ⟨48, encodeBE 4 s.accumTime.toNat⟩]

def SubIntStats.blocks (s : SubIntStats) : List Patch :=
  ⟨0, encodeBE 4 s.rxDatagrams.toNat⟩ :: s.tailBlocks.map (Patch.shift 4)

theorem subIntStats_tailSpans (s : SubIntStats) :
    s.tailBlocks.map Patch.span = [(0, 8), (8, 4), (12, 4), (16, 4), (20, 4), (24, 4), (28, 4),
      (32, 4), (36, 4), (40, 4), (44, 4), (48, 4)] := by
  simp [SubIntStats.tailBlocks, Patch.span]

theorem subIntStats_spans (s : SubIntStats) :
    s.blocks.map Patch.span = [(0, 4), (4, 8), (12, 4), (16, 4), (20, 4), (24, 4), (28, 4),
      (32, 4), (36, 4), (40, 4), (44, 4), (48, 4), (52, 4)] := by
  simp [SubIntStats.blocks, SubIntStats.tailBlocks, Patch.span, Patch.shift]

theorem subIntStats_within (s : SubIntStats) : ∀ t ∈ s.blocks.map Patch.span, t.1 + t.2 ≤ 56 := by
  rw [subIntStats_spans]
  decide

theorem writes_subIntStats (s : SubIntStats) {n : Nat} (h : 56 ≤ n) :
    Writes n s.marshal s.blocks := by
  refine (writes_putU32 ?_).step ((writes_putU64 ?_).step ((writes_putU32 ?_).step
    ((writes_putU32 ?_).step ((writes_putU32 ?_).step ((writes_putU32 ?_).step
    ((writes_putU32 ?_).step ((writes_putU32 ?_).step ((writes_putU32 ?_).step
    ((writes_putU32 ?_).step ((writes_putU32 ?_).step ((writes_putU32 ?_).step
    (writes_putU32 ?_)))))))))))) <;> omega

/-- The bytes of the authentication trailer, up to the two checksum bytes. -/
def AuthTrailer.layout (a : AuthTrailer) : Bytes :=
  [a.authMode] ++ encodeBE 4 a.authUnixTime.toNat ++ a.authDigest.toList ++ [a.keyID] ++ [0]

@[simp] theorem authTrailer_layout_length (a : AuthTrailer) : a.layout.length = 39 := by
  simp [AuthTrailer.layout]

theorem authTrailer_marshal_eq (a : AuthTrailer) {m : Nat} (h : 39 ≤ m) :
    a.marshal (List.replicate m 0) = .ok (a.layout ++ List.replicate (m - 39) 0) := by
  have hfill : a.marshal ([] ++ List.replicate m 0)
      = .ok (a.layout ++ List.replicate (m - 39) 0) := by
    have hdig : a.authDigest.toList.length = 32 := Vector.length_toList
    unfold AuthTrailer.marshal
    rw [store_fill (by simp) (by omega), ok_bind, putU32_fill (by simp) (by omega), ok_bind,
      copyInto_fill (by simp) (by rw [hdig]) (by omega), ok_bind,
      store_fill (by simp) (by omega), ok_bind, store_fill (by simp) (by omega), hdig]
    simp only [List.nil_append, AuthTrailer.layout]
    congr 3
  exact hfill

/-- The 56 bytes of a Setup PDU. -/
def SetupPDU.layout (p : SetupPDU) : Bytes :=
  encodeBE 2 pduIDSetup.toNat ++ encodeBE 2 p.protocolVer.toNat ++ [p.mcIndex] ++ [p.mcCount] ++
    encodeBE 2 p.mcIdent.toNat ++ [p.cmdRequest] ++ [p.cmdResponse] ++
    encodeBE 2 p.maxBandwidth.toNat ++ encodeBE 2 p.testPort.toNat ++ [p.modifiers] ++
    (p.auth.layout ++ List.replicate 2 0)

/-- **`SetupPDU.marshal` emits the layout**: fifteen bytes of fields, the
trailer, two checksum bytes. -/
theorem setupPDU_marshal_eq (p : SetupPDU) : p.marshal = .ok p.layout := by
  have hfill : p.marshal = (do
      let b ← putU16 ([] ++ List.replicate setupSize 0) 0 pduIDSetup
      let b ← putU16 b 2 p.protocolVer
      let b ← store b 4 p.mcIndex
      let b ← store b 5 p.mcCount
      let b ← putU16 b 6 p.mcIdent
      let b ← store b 8 p.cmdRequest
      let b ← store b 9 p.cmdResponse
      let b ← putU16 b 10 p.maxBandwidth
      let b ← putU16 b 12 p.testPort
      let b ← store b 14 p.modifiers
      onSliceFrom b 15 p.auth.marshal) := rfl
  rw [hfill, putU16_fill (by simp) (by decide), ok_bind, putU16_fill (by simp) (by decide), ok_bind,
    store_fill (by simp) (by decide), ok_bind, store_fill (by simp) (by decide), ok_bind,
    putU16_fill (by simp) (by decide), ok_bind, store_fill (by simp) (by decide), ok_bind,
    store_fill (by simp) (by decide), ok_bind, putU16_fill (by simp) (by decide), ok_bind,
    putU16_fill (by simp) (by decide), ok_bind, store_fill (by simp) (by decide), ok_bind,
    onSliceFrom_fill (by simp) (authTrailer_marshal_eq p.auth (by decide))
      (by simp [setupSize])]
  rfl

@[simp] theorem setupPDU_layout_length (p : SetupPDU) : p.layout.length = 56 := by
  simp [SetupPDU.layout]

theorem setupPDU_layout_cmdResponse (p : SetupPDU) : p.layout.getD 9 0 = p.cmdResponse := by
  rfl

/-! ### The layouts -/

def SetupPDU.blocks (p : SetupPDU) : List Patch :=
  [⟨0, encodeBE 2 pduIDSetup.toNat⟩, ⟨2, encodeBE 2 p.protocolVer.toNat⟩, ⟨4, [p.mcIndex]⟩,
    ⟨5, [p.mcCount]⟩, ⟨6, encodeBE 2 p.mcIdent.toNat⟩, ⟨8, [p.cmdRequest]⟩,
    ⟨9, [p.cmdResponse]⟩, ⟨10, encodeBE 2 p.maxBandwidth.toNat⟩,
    ⟨12, encodeBE 2 p.testPort.toNat⟩, ⟨14, [p.modifiers]⟩] ++
  p.auth.blocks.map (Patch.shift 15)

theorem setupPDU_marshal_writes (p : SetupPDU) :
    p.marshal = .ok (patch (List.replicate setupSize 0) (p.blocks ++ [⟨53, [0]⟩])) := by
  refine (writes_putU16 ?_).step ((writes_putU16 ?_).step ((writes_store ?_).step
    ((writes_store ?_).step ((writes_putU16 ?_).step ((writes_store ?_).step
    ((writes_store ?_).step ((writes_putU16 ?_).step ((writes_putU16 ?_).step
    ((writes_store ?_).step (writes_onSliceFrom ?_ (writes_authTrailer p.auth ?_)
    (authTrailer_within p.auth ?_)))))))))))
    (List.replicate setupSize 0) List.length_replicate <;> decide

/-- A Null Request: id, version, the command byte, two zero bytes, the
trailer. -/
def NullPDU.writes (p : NullPDU) : List Patch :=
  [⟨0, encodeBE 2 pduIDNull.toNat⟩, ⟨2, encodeBE 2 p.protocolVer.toNat⟩, ⟨4, [1]⟩, ⟨5, [0]⟩,
    ⟨6, [0]⟩] ++ p.auth.writes.map (Patch.shift 7)

theorem nullPDU_marshal_writes (p : NullPDU) :
    p.marshal = .ok (patch (List.replicate nullSize 0) p.writes) := by
  refine (writes_putU16 ?_).step ((writes_putU16 ?_).step ((writes_store ?_).step
    ((writes_store ?_).step ((writes_store ?_).step (writes_onSliceFrom ?_
    (writes_authTrailer p.auth ?_) (authTrailer_within p.auth ?_))))))
    (List.replicate nullSize 0) List.length_replicate <;> decide

/-- `NullPDU.marshal` never panics and fills the 48-byte layout. -/
theorem nullPDU_marshal_ok (p : NullPDU) :
    ∃ b, p.marshal = .ok b ∧ b.length = nullSize :=
  ⟨_, nullPDU_marshal_writes p, by simp⟩

/-- The fields both activation layouts have. -/
def TestActPDU.legacyBlocks (p : TestActPDU) : List Patch :=
  [⟨0, encodeBE 2 pduIDTestAct.toNat⟩, ⟨2, encodeBE 2 p.protocolVer.toNat⟩, ⟨4, [p.cmdRequest]⟩,
    ⟨5, [p.cmdResponse]⟩, ⟨6, encodeBE 2 p.lowThresh.toNat⟩,
    ⟨8, encodeBE 2 p.upperThresh.toNat⟩, ⟨10, encodeBE 2 p.trialInt.toNat⟩,
    ⟨12, encodeBE 2 p.testIntTime.toNat⟩, ⟨14, [p.legacySubIntSec]⟩, ⟨15, [p.dscpEcn]⟩,
    ⟨16, encodeBE 2 p.srIndexConf.toNat⟩, ⟨18, [p.useOwDelVar]⟩, ⟨19, [p.highSpeedDelta]⟩,
    ⟨20, encodeBE 2 p.slowAdjThresh.toNat⟩, ⟨22, encodeBE 2 p.seqErrThresh.toNat⟩,
    ⟨24, [p.ignoreOooDup]⟩, ⟨25, [p.modifiers]⟩, ⟨26, [p.rateAdjAlgo]⟩,
    ⟨27, [p.ecnCEThresh]⟩] ++
  p.sr.blocks.map (Patch.shift 28) ++ [⟨56, encodeBE 2 p.subIntPeriod.toNat⟩]

/-- The fields of the 104-byte layout. -/
def TestActPDU.blocks (p : TestActPDU) : List Patch :=
  p.legacyBlocks ++ [⟨60, encodeBE 2 p.srAdjSuppCount.toNat⟩] ++ p.auth.blocks.map (Patch.shift 63)

/-- The head of `TestActPDU.marshal`, common to the two layouts. -/
theorem writes_testActHead (p : TestActPDU) {n : Nat} (h : 60 ≤ n)
    {g : Bytes → Except Panic Bytes} {ws : List Patch} (hg : Writes n g ws) :
    Writes n (fun b => do
      let b ← putU16 b 0 pduIDTestAct
      let b ← putU16 b 2 p.protocolVer
      let b ← store b 4 p.cmdRequest
      let b ← store b 5 p.cmdResponse
      let b ← putU16 b 6 p.lowThresh
      let b ← putU16 b 8 p.upperThresh
      let b ← putU16 b 10 p.trialInt
      let b ← putU16 b 12 p.testIntTime
      let b ← store b 14 p.legacySubIntSec
      let b ← store b 15 p.dscpEcn
      let b ← putU16 b 16 p.srIndexConf
      let b ← store b 18 p.useOwDelVar
      let b ← store b 19 p.highSpeedDelta
      let b ← putU16 b 20 p.slowAdjThresh
      let b ← putU16 b 22 p.seqErrThresh
      let b ← store b 24 p.ignoreOooDup
      let b ← store b 25 p.modifiers
      let b ← store b 26 p.rateAdjAlgo
      let b ← store b 27 p.ecnCEThresh
      let b ← onSlice b 28 56 p.sr.marshal
      let b ← putU16 b 56 p.subIntPeriod
      g b) (p.legacyBlocks ++ ws) := by
  refine (writes_putU16 ?_).step ((writes_putU16 ?_).step ((writes_store ?_).step
    ((writes_store ?_).step ((writes_putU16 ?_).step ((writes_putU16 ?_).step
    ((writes_putU16 ?_).step ((writes_putU16 ?_).step ((writes_store ?_).step
    ((writes_store ?_).step ((writes_putU16 ?_).step ((writes_store ?_).step
    ((writes_store ?_).step ((writes_putU16 ?_).step ((writes_putU16 ?_).step
    ((writes_store ?_).step ((writes_store ?_).step ((writes_store ?_).step
    ((writes_store ?_).step ((writes_onSlice ?_ ?_ (writes_rate p.sr ?_) (rate_within p.sr)).andThen
    ((writes_putU16 ?_).step hg)))))))))))))))))))) <;> omega

theorem testActPDU_marshal_legacy {p : TestActPDU} (h : p.legacy = true) :
    p.marshal = .ok (patch (List.replicate testActMinSize 0) p.legacyBlocks) := by
  have hw := writes_testActHead p (Nat.le_refl 60) Writes.pure
    (List.replicate testActMinSize 0) List.length_replicate
  rw [List.append_nil] at hw
  rw [← hw, TestActPDU.marshal]
  simp only [h, if_true]

theorem testActPDU_marshal_writes {p : TestActPDU} (h : p.legacy = false) :
    p.marshal = .ok (patch (List.replicate testActSize 0) (p.blocks ++ [⟨101, [0]⟩])) := by
  have htail : Writes testActSize
      (fun b => putU16 b 60 p.srAdjSuppCount >>= fun b => onSliceFrom b 63 p.auth.marshal)
      (⟨60, encodeBE 2 p.srAdjSuppCount.toNat⟩ :: p.auth.writes.map (Patch.shift 63)) :=
    (writes_putU16 (by decide)).step (writes_onSliceFrom (by decide)
      (writes_authTrailer p.auth (by decide)) (authTrailer_within p.auth (by decide)))
  have hw := writes_testActHead p (by decide) htail (List.replicate testActSize 0)
    List.length_replicate
  refine Eq.trans ?_ hw
  rw [TestActPDU.marshal]
  simp only [h, Bool.false_eq_true, if_false]

/-- `TestActPDU.marshal` never panics; the size is that of the layout the
request came in. -/
theorem testActPDU_marshal_ok (p : TestActPDU) :
    ∃ b, p.marshal = .ok b ∧
      b.length = if p.legacy then testActMinSize else testActSize := by
  cases h : p.legacy with
  | true => exact ⟨_, testActPDU_marshal_legacy h, by simp⟩
  | false => exact ⟨_, testActPDU_marshal_writes h, by simp⟩

def LoadPDU.blocks (p : LoadPDU) : List Patch :=
  [⟨0, encodeBE 2 pduIDLoad.toNat⟩, ⟨2, [p.testAction]⟩, ⟨3, [p.rxStopped]⟩,
    ⟨4, encodeBE 4 p.seqNo.toNat⟩, ⟨8, encodeBE 2 p.udpPayload.toNat⟩,
    ⟨10, encodeBE 2 p.spduSeqErr.toNat⟩, ⟨12, encodeBE 4 p.spduTimeSec.toNat⟩,
    ⟨16, encodeBE 4 p.spduTimeNsec.toNat⟩, ⟨20, encodeBE 4 p.timeSec.toNat⟩,
    ⟨24, encodeBE 4 p.timeNsec.toNat⟩, ⟨28, encodeBE 2 p.rttRespDelay.toNat⟩]

theorem loadPDU_spans (p : LoadPDU) : p.blocks.map Patch.span = [(0, 2), (2, 1), (3, 1), (4, 4),
    (8, 2), (10, 2), (12, 4), (16, 4), (20, 4), (24, 4), (28, 2)] := by
  simp [LoadPDU.blocks, Patch.span]

/-- The header is written over the start of any buffer that can hold it. -/
theorem writes_loadPDU (p : LoadPDU) {n : Nat} (h : loadHdrSize ≤ n) :
    Writes n p.marshalInto (p.blocks ++ [⟨30, [0, 0]⟩]) := by
  have h' : 32 ≤ n := h
  refine (writes_putU16 ?_).step ((writes_store ?_).step ((writes_store ?_).step
    ((writes_putU32 ?_).step ((writes_putU16 ?_).step ((writes_putU16 ?_).step
    ((writes_putU32 ?_).step ((writes_putU32 ?_).step ((writes_putU32 ?_).step
    ((writes_putU32 ?_).step ((writes_putU16 ?_).step (writes_putU16 ?_))))))))))) <;> omega

/-- The fields in front of the saved sub-interval, in both status layouts. -/
def StatusPDU.headBlocks (p : StatusPDU) : List Patch :=
  [⟨0, encodeBE 2 pduIDStatus.toNat⟩, ⟨2, [p.testAction]⟩, ⟨3, [p.rxStopped]⟩,
    ⟨4, encodeBE 4 p.seqNo.toNat⟩] ++
  p.sr.blocks.map (Patch.shift 8) ++ [⟨36, encodeBE 4 p.subIntSeqNo.toNat⟩]

/-- The fields behind it up to the timestamp, which the layouts place at
different offsets. -/
def StatusPDU.trialBlocks (p : StatusPDU) : List Patch :=
  [⟨0, encodeBE 4 p.seqErrLoss.toNat⟩, ⟨4, encodeBE 4 p.seqErrOoo.toNat⟩,
    ⟨8, encodeBE 4 p.seqErrDup.toNat⟩, ⟨12, encodeBE 4 p.clockDeltaMin.toNat⟩,
    ⟨16, encodeBE 4 p.delayVarMin.toNat⟩, ⟨20, encodeBE 4 p.delayVarMax.toNat⟩,
    ⟨24, encodeBE 4 p.delayVarSum.toNat⟩, ⟨28, encodeBE 4 p.delayVarCnt.toNat⟩,
    ⟨32, encodeBE 4 p.rttMinimum.toNat⟩, ⟨36, encodeBE 4 p.rttVarSample.toNat⟩,
    ⟨40, [p.delayMinUpd]⟩, ⟨44, encodeBE 4 p.tiDeltaTime.toNat⟩,
    ⟨48, encodeBE 4 p.tiRxDatagrams.toNat⟩, ⟨52, encodeBE 4 p.tiRxBytes.toNat⟩,
    ⟨56, encodeBE 4 p.timeSec.toNat⟩, ⟨60, encodeBE 4 p.timeNsec.toNat⟩]

/-- The 204-byte layout: packed statistics, and the version 20 fields. -/
def StatusPDU.blocks (p : StatusPDU) : List Patch :=
  p.headBlocks ++ p.subIntSaved.blocks.map (Patch.shift 40) ++
  p.trialBlocks.map (Patch.shift 96) ++
  [⟨163, [p.authMode]⟩, ⟨176, encodeBE 4 p.tiRxCECount.toNat⟩,
    ⟨180, encodeBE 4 p.savedCECount.toNat⟩, ⟨185, [p.modifiers]⟩]

/-- The 168-byte layout: the statistics unpacked to 64 bytes. -/
def StatusPDU.legacyBlocks (p : StatusPDU) : List Patch :=
  p.headBlocks ++ [⟨40, encodeBE 4 p.subIntSaved.rxDatagrams.toNat⟩] ++
  p.subIntSaved.tailBlocks.map (Patch.shift 48) ++ p.trialBlocks.map (Patch.shift 104)


theorem statusPDU_marshal_writes {p : StatusPDU} (h : p.legacy = false) :
    p.marshal = .ok (patch (List.replicate statusSize 0) p.blocks) := by
  rw [StatusPDU.marshal, if_neg (by simp [h])]
  refine (writes_putU16 ?_).step ((writes_store ?_).step ((writes_store ?_).step
    ((writes_putU32 ?_).step ((writes_onSlice ?_ ?_ (writes_rate p.sr ?_) (rate_within p.sr)).andThen
    ((writes_putU32 ?_).step ((writes_onSlice ?_ ?_ (writes_subIntStats p.subIntSaved ?_)
      (subIntStats_within p.subIntSaved)).andThen
    ((writes_putU32 ?_).step ((writes_putU32 ?_).step ((writes_putU32 ?_).step
    ((writes_putU32 ?_).step ((writes_putU32 ?_).step ((writes_putU32 ?_).step
    ((writes_putU32 ?_).step ((writes_putU32 ?_).step ((writes_putU32 ?_).step
    ((writes_putU32 ?_).step ((writes_store ?_).step ((writes_putU32 ?_).step
    ((writes_putU32 ?_).step ((writes_putU32 ?_).step ((writes_putU32 ?_).step
    ((writes_putU32 ?_).step ((writes_store ?_).step ((writes_putU32 ?_).step
    ((writes_putU32 ?_).step (writes_store ?_))))))))))))))))))))))))))
    (List.replicate statusSize 0) List.length_replicate <;> decide

/-- Consecutive words from `off` on. -/
def wordBlocks (off : Nat) : List UInt32 → List Patch
  | [] => []
  | v :: vs => ⟨off, encodeBE 4 v.toNat⟩ :: wordBlocks (off + 4) vs

theorem writes_putWords (vs : List UInt32) {n off : Nat} (h : off + 4 * vs.length ≤ n) :
    Writes n (fun b => putWords b off vs) (wordBlocks off vs) := by
  induction vs generalizing off with
  | nil => exact Writes.pure
  | cons v vs ih =>
      rw [List.length_cons] at h
      exact (writes_putU32 (by omega)).step (ih (by omega))

/-- The statistics are marshalled packed into a buffer of their own, and all
but the first word copied: the same writes, eight bytes further on. -/
theorem writes_unpacked (st : SubIntStats) :
    Writes statusLegacySize
      (fun b => copyInto b 48 100 (sub (patch (List.replicate 56 0) st.blocks) 4 56))
      (st.tailBlocks.map (Patch.shift 48)) := by
  intro b hb
  set tmp := patch (List.replicate 56 0) st.blocks with htmp
  have hlen : (sub tmp 4 56).length = 52 := sub_length (by rw [htmp, patch_length]; simp)
  have hcopy : copyInto b 48 100 (sub tmp 4 56) = .ok (wr b 48 (sub tmp 4 56)) := by
    rw [copyInto_ok (by decide) (by rw [hb]; decide), List.take_of_length_le (by rw [hlen])]
  have hshow : Shows tmp (st.tailBlocks.map (Patch.shift 4)) := by
    have ht : Tiled (List.replicate 56 (0 : UInt8)).length (st.blocks.map Patch.span) := by
      rw [subIntStats_spans]
      decide
    exact ((shows_cons _ _ _).mp (shows_patch ht)).2
  have htail : Shows (sub tmp 4 56) st.tailBlocks :=
    (shows_shift 56 (by rw [subIntStats_tailSpans]; decide)).mp hshow
  show copyInto b 48 100 (sub tmp 4 56) = _
  rw [hcopy, wr_eq_patch htail]
  · rw [hlen, subIntStats_tailSpans]
    decide
  · rw [hlen, subIntStats_tailSpans]
    decide
  · rw [hlen, hb]
    decide

theorem statusPDU_marshalLegacy_writes (p : StatusPDU) :
    p.marshalLegacy = .ok (patch (List.replicate statusLegacySize 0) p.legacyBlocks) := by
  have htmp : p.subIntSaved.marshal (List.replicate 56 0)
      = .ok (patch (List.replicate 56 0) p.subIntSaved.blocks) :=
    writes_subIntStats p.subIntSaved (Nat.le_refl 56) _ List.length_replicate
  have hslice : slice (patch (List.replicate 56 0) p.subIntSaved.blocks) 4 56
      = .ok (sub (patch (List.replicate 56 0) p.subIntSaved.blocks) 4 56) :=
    slice_ok (by decide) (by simp)
  simp only [StatusPDU.marshalLegacy, htmp, hslice, ok_bind]
  refine (writes_putU16 ?_).step ((writes_store ?_).step ((writes_store ?_).step
    ((writes_putU32 ?_).step ((writes_onSlice ?_ ?_ (writes_rate p.sr ?_) (rate_within p.sr)).andThen
    ((writes_putU32 ?_).step ((writes_putU32 ?_).step ((writes_unpacked p.subIntSaved).andThen
    ((writes_putWords _ ?_).andThen ((writes_store ?_).step ((writes_putU32 ?_).step
    ((writes_putU32 ?_).step ((writes_putU32 ?_).step ((writes_putU32 ?_).step
    (writes_putU32 ?_))))))))))))))
    (List.replicate statusLegacySize 0) List.length_replicate
  all_goals first | decide | (show 104 + 4 * 10 ≤ 168; decide)

theorem statusPDU_marshal_legacy {p : StatusPDU} (h : p.legacy = true) :
    p.marshal = .ok (patch (List.replicate statusLegacySize 0) p.legacyBlocks) := by
  rw [StatusPDU.marshal, if_pos h, statusPDU_marshalLegacy_writes]

/-- `StatusPDU.marshal` never panics; `legacy` chooses the layout. -/
theorem statusPDU_marshal_ok (p : StatusPDU) :
    ∃ b, p.marshal = .ok b ∧
      b.length = if p.legacy then statusLegacySize else statusSize := by
  cases h : p.legacy with
  | true => exact ⟨_, statusPDU_marshal_legacy h, by simp⟩
  | false => exact ⟨_, statusPDU_marshal_writes h, by simp⟩

end Diagd.Udpst

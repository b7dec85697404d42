import Diagd.Udpst.Codec

/-!
# Wire codecs are mutually inverse

For each layout the fields a marshaller writes (`blocks`) are exactly the
fields its parser reads: a buffer shows the blocks of `p` if and only if it
decodes to `p` (`shows_setupPDU`, ...). Together with the geometry of the
layout, a closed computation on offsets and lengths, this makes the two
functions inverse up to the bytes that carry no field.
-/

namespace Diagd.Udpst

open GoSlice

/-! ## Nested structures -/

theorem shows_rate {b : Bytes} (h : 28 ≤ b.length) (r : Rate) :
    Shows b r.blocks ↔ Rate.ofBytes b = r := by
  obtain ⟨i1, p1, b1, i2, p2, b2, a2⟩ := r
  simp (disch := omega) only [Rate.blocks, shows_cons, shows_nil, encodeBE_length,
    rd_eq_encodeU32, and_true]
  simp only [Rate.ofBytes, Rate.mk.injEq]

theorem eq_digest_iff {l : Bytes} (h : l.length = 32) (d : Digest) :
    l = d.toList ↔ Digest.ofBytes l = d := by
  constructor
  · rintro rfl
    apply Vector.ext
    intro i hi
    simp [Digest.ofBytes]
  · rintro rfl
    apply List.ext_getElem
    · simp [h]
    · intro i hi hi'
      simp [Digest.ofBytes, hi]

theorem shows_authTrailer {b : Bytes} (h : 38 ≤ b.length) (a : AuthTrailer) :
    Shows b a.blocks ↔ AuthTrailer.ofBytes b = a := by
  obtain ⟨mode, time, digest, key⟩ := a
  have hdig : rd b 5 32 = digest.toList ↔ Digest.ofBytes (sub b 5 37) = digest :=
    eq_digest_iff (rd_length (by omega)) digest
  simp (disch := omega) only [AuthTrailer.blocks, shows_cons, shows_nil, encodeBE_length,
    List.length_singleton, Vector.length_toList, rd_eq_encodeU32, rd_eq_singleton, hdig, and_true]
  simp only [AuthTrailer.ofBytes, AuthTrailer.mk.injEq]

theorem shows_subIntStats {b : Bytes} (h : 56 ≤ b.length) (s : SubIntStats) :
    Shows b s.blocks ↔ SubIntStats.ofBytes b = s := by
  obtain ⟨rd', rb, dt, sl, so, sd, mn, mx, sm, ct, rn, rx, ac⟩ := s
  simp (disch := omega) only [SubIntStats.blocks, SubIntStats.tailBlocks, List.map_cons,
    List.map_nil, Patch.shift, Nat.reduceAdd, shows_cons, shows_nil, encodeBE_length,
    rd_eq_encodeU32, rd_eq_encodeU64, and_true]
  simp only [SubIntStats.ofBytes, SubIntStats.mk.injEq]

/-! ## Setup -/

theorem shows_setupPDU {b : Bytes} (h : b.length = setupSize) (p : SetupPDU) :
    Shows b p.blocks ↔ u16At b 0 = pduIDSetup ∧ SetupPDU.ofBytes b = p := by
  have hlen : b.length = 56 := h
  have hauth : Shows b (p.auth.blocks.map (Patch.shift 15)) ↔
      AuthTrailer.ofBytes (sub b 15 b.length) = p.auth := by
    rw [shows_shift b.length (by rw [authTrailer_spans, hlen]; decide), shows_authTrailer]
    rw [sub_length (Nat.le_refl _)]
    omega
  simp (disch := omega) only [SetupPDU.blocks, shows_append, shows_cons, shows_nil,
    encodeBE_length, List.length_singleton, rd_eq_encodeU16, rd_eq_singleton, hauth, and_true]
  obtain ⟨v, i, c, m, q, r, w, t, f, a⟩ := p
  simp only [SetupPDU.ofBytes, SetupPDU.mk.injEq, and_assoc]

/-- The commands a setup PDU can carry. -/
def SetupPDU.Valid (p : SetupPDU) : Prop :=
  p.cmdRequest = cmdSetupRequest ∨ p.cmdRequest = cmdSetupResponse

theorem parseSetup_iff_shows {b : Bytes} {p : SetupPDU} (h : b.length = setupSize) :
    parseSetup b = .ok (.ok p) ↔ p.Valid ∧ Shows b p.blocks := by
  rw [parseSetup_eq_ok, shows_setupPDU h]
  constructor
  · rintro ⟨hb, rfl⟩
    exact ⟨hb.cmd, hb.id, rfl⟩
  · rintro ⟨hv, hid, rfl⟩
    exact ⟨⟨h, hid, hv⟩, rfl⟩

/-- The reserved byte of the trailer and the checksum. -/
def setupReserved : List Nat := [53, 54, 55]

theorem setup_inverse :
    Inverse setupSize (· ∈ setupReserved) SetupPDU.Valid SetupPDU.marshal parseSetup := by
  have h := Inverse.of_blocks (List.replicate setupSize 0) (· ∈ setupReserved)
    SetupPDU.blocks [⟨53, [0]⟩]
    [(0, 2), (2, 2), (4, 1), (5, 1), (6, 2), (8, 1), (9, 1), (10, 2), (12, 2), (14, 1), (15, 1),
      (16, 4), (20, 32), (52, 1)]
    (fun p => by simp [SetupPDU.blocks, AuthTrailer.blocks, Patch.span, Patch.shift])
    (by decide) (by decide) (fun p _ => setupPDU_marshal_writes p)
    (fun b p hb => parseSetup_iff_shows (by simpa using hb))
  rwa [List.length_replicate] at h

/-! ## Test Activation -/

/-- What the two activation layouts share. -/
theorem shows_testActHead {b : Bytes} (h : 60 ≤ b.length) (p : TestActPDU) :
    Shows b p.legacyBlocks ↔ u16At b 0 = pduIDTestAct ∧
      { TestActPDU.ofBytes b with
        srAdjSuppCount := p.srAdjSuppCount, auth := p.auth, legacy := p.legacy } = p := by
  have hrate : Shows b (p.sr.blocks.map (Patch.shift 28)) ↔ Rate.ofBytes (sub b 28 56) = p.sr := by
    rw [shows_shift 56 (rate_within p.sr), shows_rate]
    rw [sub_length (by omega)]
  simp (disch := omega) only [TestActPDU.legacyBlocks, shows_append, shows_cons, shows_nil,
    encodeBE_length, List.length_singleton, rd_eq_encodeU16, rd_eq_singleton, hrate, and_true]
  obtain ⟨⟩ := p
  simp only [TestActPDU.ofBytes, TestActPDU.mk.injEq, and_assoc, and_true]

def TestActPDU.HasCommand (p : TestActPDU) : Prop :=
  p.cmdRequest = cmdTestActUpstream ∨ p.cmdRequest = cmdTestActDownstream

/-- The values of the 104-byte layout. -/
def TestActPDU.Valid (p : TestActPDU) : Prop := p.HasCommand ∧ p.legacy = false

/-- The values of the 60-byte layout, which has no room for the rest. -/
def TestActPDU.LegacyValid (p : TestActPDU) : Prop :=
  p.HasCommand ∧ p.legacy = true ∧ p.srAdjSuppCount = 0 ∧ p.auth = {}

theorem parseTestAct_eq_ok {b : Bytes} {p : TestActPDU} :
    parseTestAct b = .ok (.ok p) ↔ IsTestAct b ∧ p = TestActPDU.ofBytes b := by
  rcases parseTestAct_cases b with ⟨h, hp⟩ | ⟨h, msg, hp⟩
  · simp [hp, h, eq_comm]
  · simp [hp, h]

theorem parseTestAct_iff_shows {b : Bytes} {p : TestActPDU} (h : b.length = testActSize) :
    parseTestAct b = .ok (.ok p) ↔ p.Valid ∧ Shows b p.blocks := by
  have hlen : b.length = 104 := h
  have hfull : ¬ b.length < testActSize := Nat.not_lt.mpr (Nat.le_of_eq h.symm)
  have hauth : Shows b (p.auth.blocks.map (Patch.shift 63)) ↔
      AuthTrailer.ofBytes (sub b 63 b.length) = p.auth := by
    rw [shows_shift b.length (by rw [authTrailer_spans, hlen]; decide), shows_authTrailer]
    rw [sub_length (Nat.le_refl _)]
    omega
  rw [parseTestAct_eq_ok, TestActPDU.blocks]
  simp (disch := omega) only [shows_append, shows_testActHead, shows_cons, shows_nil,
    encodeBE_length, rd_eq_encodeU16, hauth, and_true]
  constructor
  · rintro ⟨hb, rfl⟩
    refine ⟨⟨hb.cmd, ?_⟩, ⟨⟨hb.id, rfl⟩, ?_⟩, ?_⟩
    · simp [TestActPDU.ofBytes, hfull]
    · simp [TestActPDU.ofBytes, hfull]
    · simp [TestActPDU.ofBytes, hfull]
  · rintro ⟨⟨hcmd, hleg⟩, ⟨⟨hid, hhead⟩, hsupp⟩, hau⟩
    have hp : p = TestActPDU.ofBytes b := by
      rw [← hhead, ← hsupp, ← hau, hleg]
      simp [TestActPDU.ofBytes, hfull]
    subst hp
    exact ⟨⟨by rw [h]; decide, Nat.le_of_eq h, hid, hcmd⟩, rfl⟩

theorem parseTestAct_iff_shows_legacy {b : Bytes} {p : TestActPDU} (h : b.length = testActMinSize) :
    parseTestAct b = .ok (.ok p) ↔ p.LegacyValid ∧ Shows b p.legacyBlocks := by
  have hlen : b.length = 60 := h
  have hshort : b.length < testActSize := by rw [h]; decide
  rw [parseTestAct_eq_ok, shows_testActHead (Nat.le_of_eq hlen.symm)]
  constructor
  · rintro ⟨hb, rfl⟩
    refine ⟨⟨hb.cmd, ?_, ?_, ?_⟩, hb.id, rfl⟩
    · simp [TestActPDU.ofBytes, hshort]
    · simp [TestActPDU.ofBytes, hshort]
    · simp [TestActPDU.ofBytes, hshort]
  · rintro ⟨⟨hcmd, hleg, hsupp, hau⟩, hid, hhead⟩
    have hp : p = TestActPDU.ofBytes b := by
      rw [← hhead, hsupp, hau, hleg]
      simp [TestActPDU.ofBytes, hshort]
    subst hp
    exact ⟨⟨Nat.le_of_eq h.symm, Nat.le_of_lt hshort, hid, hcmd⟩, rfl⟩

/-- Two bytes behind the sub-interval period, one in front of the trailer,
then the reserved byte of the trailer and the checksum. -/
def testActReserved : List Nat := [58, 59, 62, 101, 102, 103]

theorem testAct_inverse :
    Inverse testActSize (· ∈ testActReserved) TestActPDU.Valid TestActPDU.marshal parseTestAct := by
  have h := Inverse.of_blocks (List.replicate testActSize 0) (· ∈ testActReserved)
    TestActPDU.blocks [⟨101, [0]⟩]
    [(0, 2), (2, 2), (4, 1), (5, 1), (6, 2), (8, 2), (10, 2), (12, 2), (14, 1), (15, 1), (16, 2),
      (18, 1), (19, 1), (20, 2), (22, 2), (24, 1), (25, 1), (26, 1), (27, 1), (28, 4), (32, 4),
      (36, 4), (40, 4), (44, 4), (48, 4), (52, 4), (56, 2), (60, 2), (63, 1), (64, 4), (68, 32),
      (100, 1)]
    (fun p => by simp [TestActPDU.blocks, TestActPDU.legacyBlocks, Rate.blocks,
      AuthTrailer.blocks, Patch.span, Patch.shift])
    (by decide) (by decide) (fun p hp => testActPDU_marshal_writes hp.2)
    (fun b p hb => parseTestAct_iff_shows (by simpa using hb))
  rwa [List.length_replicate] at h

/-- The two bytes behind the sub-interval period. -/
def testActLegacyReserved : List Nat := [58, 59]

theorem testAct_legacy_inverse :
    Inverse testActMinSize (· ∈ testActLegacyReserved) TestActPDU.LegacyValid TestActPDU.marshal
      parseTestAct := by
  have h := Inverse.of_blocks (List.replicate testActMinSize 0) (· ∈ testActLegacyReserved)
    TestActPDU.legacyBlocks []
    [(0, 2), (2, 2), (4, 1), (5, 1), (6, 2), (8, 2), (10, 2), (12, 2), (14, 1), (15, 1), (16, 2),
      (18, 1), (19, 1), (20, 2), (22, 2), (24, 1), (25, 1), (26, 1), (27, 1), (28, 4), (32, 4),
      (36, 4), (40, 4), (44, 4), (48, 4), (52, 4), (56, 2)]
    (fun p => by simp [TestActPDU.legacyBlocks, Rate.blocks, Patch.span, Patch.shift])
    (by decide) (by decide)
    (fun p (hp : p.LegacyValid) =>
      (testActPDU_marshal_legacy hp.2.1).trans (by rw [List.append_nil]))
    (fun b p hb => parseTestAct_iff_shows_legacy (by simpa using hb))
  rwa [List.length_replicate] at h

/-! ## Load header -/

theorem shows_loadPDU {b : Bytes} (h : 32 ≤ b.length) (p : LoadPDU) :
    Shows b p.blocks ↔ u16At b 0 = pduIDLoad ∧ LoadPDU.ofBytes b = p := by
  simp (disch := omega) only [LoadPDU.blocks, shows_cons, shows_nil, encodeBE_length,
    List.length_singleton, rd_eq_encodeU16, rd_eq_encodeU32, rd_eq_singleton, and_true]
  obtain ⟨⟩ := p
  simp only [LoadPDU.ofBytes, LoadPDU.mk.injEq]

def LoadPDU.Valid (p : LoadPDU) : Prop := p.testAction ≤ testActionStop2 ∧ p.rxStopped ≤ 1

theorem parseLoadHdr_iff_shows {b : Bytes} {p : LoadPDU} (h : loadHdrSize ≤ b.length) :
    parseLoadHdr b = .ok (.ok p) ↔ p.Valid ∧ Shows b p.blocks := by
  rw [parseLoadHdr_eq_ok, shows_loadPDU h]
  constructor
  · rintro ⟨hb, rfl⟩
    exact ⟨⟨hb.action, hb.stopped⟩, hb.id, rfl⟩
  · rintro ⟨⟨ha, hs⟩, hid, rfl⟩
    exact ⟨⟨h, hid, ha, hs⟩, rfl⟩

/-- The checksum, and everything behind the header. -/
def LoadReserved (i : Nat) : Prop := i = 30 ∨ i = 31 ∨ loadHdrSize ≤ i

theorem load_inverse {b₀ : Bytes} (h : loadHdrSize ≤ b₀.length) :
    Inverse b₀.length LoadReserved LoadPDU.Valid (fun p => p.marshalInto b₀) parseLoadHdr := by
  have hlen : 32 ≤ b₀.length := h
  have hhead : ∀ i, i < 32 → ¬ (i = 30 ∨ i = 31) →
      Covered [(0, 2), (2, 1), (3, 1), (4, 4), (8, 2), (10, 2), (12, 4), (16, 4), (20, 4), (24, 4),
        (28, 2)] i := by decide
  apply Inverse.of_blocks b₀ LoadReserved LoadPDU.blocks [⟨30, [0, 0]⟩]
    [(0, 2), (2, 1), (3, 1), (4, 4), (8, 2), (10, 2), (12, 4), (16, 4), (20, 4), (24, 4), (28, 2)]
  · exact loadPDU_spans
  · have ht : Tiled 32 ([(0, 2), (2, 1), (3, 1), (4, 4), (8, 2), (10, 2), (12, 4), (16, 4), (20, 4),
        (24, 4), (28, 2)] ++ [(30, 2)]) := by decide
    exact ⟨fun s hs => Nat.le_trans (ht.within s hs) hlen, ht.apart⟩
  · intro i _ hi
    have hi32 : ¬ 32 ≤ i := fun hc => hi (.inr (.inr hc))
    exact hhead i (by omega) fun hc => hi (hc.elim .inl fun h => .inr (.inl h))
  · intro p _
    exact writes_loadPDU p h b₀ rfl
  · intro b p hb
    exact parseLoadHdr_iff_shows (hb ▸ h)

/-! ## Status -/

theorem shows_statusHead {b : Bytes} (h : 40 ≤ b.length) (p : StatusPDU) :
    Shows b p.headBlocks ↔ u16At b 0 = pduIDStatus ∧ b.getD 2 0 = p.testAction ∧
      b.getD 3 0 = p.rxStopped ∧ u32At b 4 = p.seqNo ∧ Rate.ofBytes (sub b 8 36) = p.sr ∧
      u32At b 36 = p.subIntSeqNo := by
  have hrate : Shows b (p.sr.blocks.map (Patch.shift 8)) ↔ Rate.ofBytes (sub b 8 36) = p.sr := by
    rw [shows_shift 36 (rate_within p.sr), shows_rate]
    rw [sub_length (by omega)]
  simp (disch := omega) only [StatusPDU.headBlocks, shows_append, shows_cons, shows_nil,
    encodeBE_length, List.length_singleton, rd_eq_encodeU16, rd_eq_encodeU32, rd_eq_singleton,
    hrate, and_true, and_assoc]

theorem shows_statusPDU {b : Bytes} (h : b.length = statusSize) {p : StatusPDU}
    (hl : p.legacy = false) :
    Shows b p.blocks ↔ u16At b 0 = pduIDStatus ∧ StatusPDU.ofBytes b = p := by
  have hlen : b.length = 204 := h
  have hsub : Shows b (p.subIntSaved.blocks.map (Patch.shift 40)) ↔
      SubIntStats.ofBytes (sub b 40 96) = p.subIntSaved := by
    rw [shows_shift 96 (subIntStats_within p.subIntSaved), shows_subIntStats]
    rw [sub_length (by omega)]
  simp (disch := omega) only [StatusPDU.blocks, StatusPDU.trialBlocks, List.map_cons, List.map_nil,
    Patch.shift, Nat.reduceAdd, shows_append, shows_statusHead, hsub, shows_cons, shows_nil,
    encodeBE_length, List.length_singleton, rd_eq_encodeU32, rd_eq_singleton, and_true, and_assoc]
  obtain ⟨⟩ := p
  subst hl
  simp only [StatusPDU.ofBytes, StatusPDU.mk.injEq, and_true]

/-- The packed copy of the legacy statistics decodes to `s` exactly when the
buffer shows them unpacked. -/
theorem shows_unpacked {b : Bytes} (h : b.length = statusLegacySize) (s : SubIntStats) :
    (rd b 40 4 = encodeBE 4 s.rxDatagrams.toNat ∧ Shows b (s.tailBlocks.map (Patch.shift 48))) ↔
      SubIntStats.ofBytes (packedSubInt b) = s := by
  have hlen : b.length = 168 := h
  have hz : (List.replicate 56 (0 : UInt8)).length = 56 := List.length_replicate
  have henc : (encodeBE 4 (u32At b 40).toNat).length = 4 := encodeBE_length _ _
  have hcopied : (sub b 48 100).length = 52 := sub_length (by omega)
  have hpacked : (packedSubInt b).length = 56 := by rw [packedSubInt, wr_length, wr_length, hz]
  have hfirst : rd (packedSubInt b) 0 4 = encodeBE 4 (u32At b 40).toNat := by
    rw [packedSubInt, rd_wr_disjoint (by rw [wr_length, hz, hcopied]) (by omega)]
    exact henc ▸ rd_wr_self (by rw [henc, hz]; omega)
  have hrest : sub (packedSubInt b) 4 56 = sub b 48 100 :=
    (congrArg (rd (packedSubInt b) 4) hcopied.symm).trans
      (rd_wr_self (by rw [wr_length, hz, hcopied]))
  rw [← shows_subIntStats (Nat.le_of_eq hpacked.symm), SubIntStats.blocks, shows_cons,
    shows_shift 100 (by rw [subIntStats_tailSpans]; decide),
    shows_shift 56 (by rw [subIntStats_tailSpans]; decide), hrest]
  simp only [encodeBE_length, hfirst, encodeU32_inj, rd_eq_encodeU32 (v := s.rxDatagrams)
    (show 40 + 4 ≤ b.length by omega)]

theorem shows_statusPDU_legacy {b : Bytes} (h : b.length = statusLegacySize) (p : StatusPDU) :
    Shows b p.legacyBlocks ↔ u16At b 0 = pduIDStatus ∧ StatusPDU.ofLegacyBytes b =
      { p with authMode := 0, tiRxCECount := 0, savedCECount := 0, modifiers := 0,
               legacy := true } := by
  have hlen : b.length = 168 := h
  simp (disch := omega) only [StatusPDU.legacyBlocks, shows_append, shows_statusHead, shows_cons,
    shows_nil, encodeBE_length, and_true, and_assoc]
  rw [← and_assoc (a := rd b 40 4 = _), shows_unpacked h]
  simp (disch := omega) only [StatusPDU.trialBlocks, List.map_cons, List.map_nil, Patch.shift,
    Nat.reduceAdd, shows_cons, shows_nil, encodeBE_length, List.length_singleton, rd_eq_encodeU32,
    rd_eq_singleton, and_true]
  obtain ⟨⟩ := p
  simp only [StatusPDU.ofLegacyBytes, StatusPDU.mk.injEq, and_true]

def StatusPDU.InRange (p : StatusPDU) : Prop := p.testAction ≤ testActionStop2 ∧ p.rxStopped ≤ 1

/-- The values of the 204-byte layout. -/
def StatusPDU.Valid (p : StatusPDU) : Prop := p.InRange ∧ p.legacy = false

/-- The values of the 168-byte layout, which has no room for the rest. -/
def StatusPDU.LegacyValid (p : StatusPDU) : Prop :=
  p.InRange ∧ p.legacy = true ∧ p.authMode = 0 ∧ p.tiRxCECount = 0 ∧ p.savedCECount = 0 ∧
    p.modifiers = 0

/-- What the legacy layout keeps of a status PDU. -/
def StatusPDU.toLegacy (p : StatusPDU) : StatusPDU :=
  { p with authMode := 0, tiRxCECount := 0, savedCECount := 0, modifiers := 0, legacy := true }

theorem StatusPDU.LegacyValid.toLegacy {p : StatusPDU} (h : p.LegacyValid) : p.toLegacy = p := by
  obtain ⟨-, hl, ha, ht, hs, hm⟩ := h
  obtain ⟨⟩ := p
  subst hl ha ht hs hm
  rfl

theorem parseStatus_iff_shows {b : Bytes} {p : StatusPDU} (h : b.length = statusSize) :
    parseStatus b = .ok (.ok p) ↔ p.Valid ∧ Shows b p.blocks := by
  have hne : ¬ IsStatus statusLegacySize b := fun hc => absurd (hc.size.symm.trans h) (by decide)
  constructor
  · intro hp
    rcases parseStatus_cases b with ⟨hb, hp'⟩ | ⟨hb, -⟩ | ⟨-, -, msg, hp'⟩
    · cases hp'.symm.trans hp
      exact ⟨⟨⟨hb.action, hb.stopped⟩, rfl⟩, (shows_statusPDU h rfl).mpr ⟨hb.id, rfl⟩⟩
    · exact absurd hb hne
    · cases hp'.symm.trans hp
  · rintro ⟨⟨hv, hl⟩, hshow⟩
    obtain ⟨hid, rfl⟩ := (shows_statusPDU h hl).mp hshow
    rcases parseStatus_cases b with ⟨-, hp'⟩ | ⟨hb, -⟩ | ⟨hb, -⟩
    · exact hp'
    · exact absurd hb hne
    · exact absurd ⟨h, hid, hv.1, hv.2⟩ hb

theorem parseStatus_iff_shows_legacy {b : Bytes} {p : StatusPDU} (h : b.length = statusLegacySize) :
    parseStatus b = .ok (.ok p) ↔ p.LegacyValid ∧ Shows b p.legacyBlocks := by
  have hne : ¬ IsStatus statusSize b := fun hc => absurd (hc.size.symm.trans h) (by decide)
  constructor
  · intro hp
    rcases parseStatus_cases b with ⟨hb, -⟩ | ⟨hb, hp'⟩ | ⟨-, -, msg, hp'⟩
    · exact absurd hb hne
    · cases hp'.symm.trans hp
      exact ⟨⟨⟨hb.action, hb.stopped⟩, rfl, rfl, rfl, rfl, rfl⟩,
        (shows_statusPDU_legacy h _).mpr ⟨hb.id, rfl⟩⟩
    · cases hp'.symm.trans hp
  · rintro ⟨hv, hshow⟩
    obtain ⟨hid, hdec⟩ := (shows_statusPDU_legacy h p).mp hshow
    have hp : StatusPDU.ofLegacyBytes b = p := hdec.trans hv.toLegacy
    subst hp
    rcases parseStatus_cases b with ⟨hb, -⟩ | ⟨-, hp'⟩ | ⟨-, hb, -⟩
    · exact absurd hb hne
    · exact hp'
    · exact absurd ⟨h, hid, hv.1.1, hv.1.2⟩ hb

/-- Three bytes behind `delayMinUpd`, and the bytes of the version 20 tail
that carry no field of `StatusPDU`. -/
def statusReserved : List Nat :=
  List.range' 137 3 ++ List.range' 160 3 ++ List.range' 164 12 ++ [184] ++ List.range' 186 18

theorem status_inverse :
    Inverse statusSize (· ∈ statusReserved) StatusPDU.Valid StatusPDU.marshal parseStatus := by
  have h := Inverse.of_blocks (List.replicate statusSize 0) (· ∈ statusReserved)
    StatusPDU.blocks []
    [(0, 2), (2, 1), (3, 1), (4, 4), (8, 4), (12, 4), (16, 4), (20, 4), (24, 4), (28, 4), (32, 4),
      (36, 4), (40, 4), (44, 8), (52, 4), (56, 4), (60, 4), (64, 4), (68, 4), (72, 4), (76, 4),
      (80, 4), (84, 4), (88, 4), (92, 4), (96, 4), (100, 4), (104, 4), (108, 4), (112, 4), (116, 4),
      (120, 4), (124, 4), (128, 4), (132, 4), (136, 1), (140, 4), (144, 4), (148, 4), (152, 4),
      (156, 4), (163, 1), (176, 4), (180, 4), (185, 1)]
    (fun p => by simp [StatusPDU.blocks, StatusPDU.headBlocks, StatusPDU.trialBlocks, Rate.blocks,
      SubIntStats.blocks, SubIntStats.tailBlocks, Patch.span, Patch.shift])
    (by decide +kernel) (by decide +kernel)
    (fun p (hp : p.Valid) => (statusPDU_marshal_writes hp.2).trans (by rw [List.append_nil]))
    (fun b p hb => parseStatus_iff_shows (by simpa using hb))
  rwa [List.length_replicate] at h

/-- The padding of the unpacked statistics, and three bytes behind
`delayMinUpd`. -/
def statusLegacyReserved : List Nat := [44, 45, 46, 47, 100, 101, 102, 103, 145, 146, 147]

theorem statusLegacy_spans (p : StatusPDU) : p.legacyBlocks.map Patch.span =
    [(0, 2), (2, 1), (3, 1), (4, 4), (8, 4), (12, 4), (16, 4), (20, 4), (24, 4), (28, 4), (32, 4),
      (36, 4), (40, 4), (48, 8), (56, 4), (60, 4), (64, 4), (68, 4), (72, 4), (76, 4), (80, 4),
      (84, 4), (88, 4), (92, 4), (96, 4), (104, 4), (108, 4), (112, 4), (116, 4), (120, 4),
      (124, 4), (128, 4), (132, 4), (136, 4), (140, 4), (144, 1), (148, 4), (152, 4), (156, 4),
      (160, 4), (164, 4)] := by
  simp [StatusPDU.legacyBlocks, StatusPDU.headBlocks, StatusPDU.trialBlocks, Rate.blocks,
    SubIntStats.tailBlocks, Patch.span, Patch.shift]

theorem status_legacy_inverse :
    Inverse statusLegacySize (· ∈ statusLegacyReserved) StatusPDU.LegacyValid StatusPDU.marshal
      parseStatus := by
  have h := Inverse.of_blocks (List.replicate statusLegacySize 0) (· ∈ statusLegacyReserved)
    StatusPDU.legacyBlocks [] _ statusLegacy_spans
    (by decide +kernel) (by decide +kernel)
    (fun p (hp : p.LegacyValid) =>
      (statusPDU_marshal_legacy hp.2.1).trans (by rw [List.append_nil]))
    (fun b p hb => parseStatus_iff_shows_legacy (by simpa using hb))
  rwa [List.length_replicate] at h

/-- A status PDU sent in the legacy layout arrives without its version 20
fields and is otherwise unchanged. -/
theorem legacy_status_decodes {p : StatusPDU} (h : p.InRange) :
    ({ p with legacy := true }.marshal >>= parseStatus) = .ok (.ok p.toLegacy) := by
  have hblocks : { p with legacy := true }.legacyBlocks = p.toLegacy.legacyBlocks := rfl
  have hsame : { p with legacy := true }.marshal = p.toLegacy.marshal := by
    rw [statusPDU_marshal_legacy rfl, statusPDU_marshal_legacy rfl, hblocks]
  rw [hsame]
  exact status_legacy_inverse.decode_encode p.toLegacy ⟨h, rfl, rfl, rfl, rfl, rfl⟩

/-- **The wire codecs are mutually inverse**, over every layout; and the two
status layouts decode to the same shared fields. -/
theorem codecs_inverse :
    Inverse setupSize (· ∈ setupReserved) SetupPDU.Valid SetupPDU.marshal parseSetup ∧
    Inverse testActSize (· ∈ testActReserved) TestActPDU.Valid TestActPDU.marshal parseTestAct ∧
    Inverse testActMinSize (· ∈ testActLegacyReserved) TestActPDU.LegacyValid TestActPDU.marshal
      parseTestAct ∧
    (∀ b₀ : Bytes, loadHdrSize ≤ b₀.length → Inverse b₀.length LoadReserved LoadPDU.Valid
      (fun p => p.marshalInto b₀) parseLoadHdr) ∧
    Inverse statusSize (· ∈ statusReserved) StatusPDU.Valid StatusPDU.marshal parseStatus ∧
    Inverse statusLegacySize (· ∈ statusLegacyReserved) StatusPDU.LegacyValid StatusPDU.marshal
      parseStatus ∧
    (∀ p : StatusPDU, p.InRange →
      ({ p with legacy := false }.marshal >>= parseStatus) = .ok (.ok { p with legacy := false }) ∧
      ({ p with legacy := true }.marshal >>= parseStatus) = .ok (.ok p.toLegacy)) :=
  ⟨setup_inverse, testAct_inverse, testAct_legacy_inverse, fun _ h => load_inverse h,
    status_inverse, status_legacy_inverse, fun _ h =>
      ⟨status_inverse.decode_encode _ ⟨h, rfl⟩, legacy_status_decodes h⟩⟩

end Diagd.Udpst

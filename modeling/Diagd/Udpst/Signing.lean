import Diagd.Udpst.Activation
import Diagd.Udpst.Handler
import Diagd.Udpst.RoundTrip

/-!
# Signed control PDUs

A signature covers every byte but its own: the message fed to HMAC is the
PDU with the digest field zeroed, so two PDUs of one size give the same
message exactly when they agree outside that field (`masked_eq_iff`), and
signing, which writes there only, leaves the message as it was
(`masked_signed`). What is signed therefore verifies, whether the digest is
read back from the bytes or taken from the parsed PDU.

The three kinds of PDU the server signs are built by copying a request that
may already carry a digest and stamping the time again; `sealing` is the
protocol that follows them through `handleSetup`.
-/

namespace Diagd.Udpst

open GoSlice GoStd Resumption

/-! ## One PDU -/

/-- `b` verifies under `key` with the digest it carries at `off`. -/
def Verifies (hmac : HMAC) (key : Bytes) (off : Nat) (b : Bytes) : Prop :=
  verifyDigest hmac key b off (Digest.ofBytes (sub b off (off + 32))) = .ok true

section Masking

variable {hmac : HMAC} {key a b pdu : Bytes} {off : Nat}

theorem getElem?_masked (h : off + 32 ≤ b.length) (i : Nat) :
    (masked b off)[i]? = if off ≤ i ∧ i < off + 32 then some 0 else b[i]? := by
  have hlen : (List.replicate 32 (0 : UInt8)).length = 32 := List.length_replicate
  rw [masked, getElem?_wr (by rw [hlen]; exact h), hlen]
  split
  · rw [List.getElem?_replicate_of_lt (by omega)]
  · rfl

/-- The message determines, and is determined by, every byte outside the
digest field. -/
theorem masked_eq_iff (ha : off + 32 ≤ a.length) (hb : off + 32 ≤ b.length) :
    masked a off = masked b off ↔ ∀ i, i < off ∨ off + 32 ≤ i → a[i]? = b[i]? := by
  constructor
  · intro h i hi
    have hget := congrArg (fun l => l[i]?) h
    simpa only [getElem?_masked ha, getElem?_masked hb, if_neg (show ¬ (off ≤ i ∧ i < off + 32) by
      omega)] using hget
  · intro h
    apply List.ext_getElem?
    intro i
    rw [getElem?_masked ha, getElem?_masked hb]
    by_cases hi : off ≤ i ∧ i < off + 32
    · rw [if_pos hi, if_pos hi]
    · rw [if_neg hi, if_neg hi]
      exact h i (by omega)

theorem zeroRange_eq_iff (ha : off + 32 ≤ a.length) (hb : off + 32 ≤ b.length) :
    zeroRange a off 32 = zeroRange b off 32 ↔ ∀ i, i < off ∨ off + 32 ≤ i → a[i]? = b[i]? := by
  rw [zeroRange_ok ha, zeroRange_ok hb, ← masked_eq_iff ha hb]
  exact ⟨fun h => Except.ok.inj h, fun h => congrArg Except.ok h⟩

/-- Verification depends on the message and on nothing else: whatever the MAC,
two PDUs give the same verdicts exactly when they agree outside the digest
field. -/
theorem verifyDigest_eq_iff (ha : off + 32 ≤ a.length) (hb : off + 32 ≤ b.length) :
    (∀ (mac : HMAC) (k : Bytes) (received : Digest),
        verifyDigest mac k a off received = verifyDigest mac k b off received) ↔
      ∀ i, i < off ∨ off + 32 ≤ i → a[i]? = b[i]? := by
  rw [← masked_eq_iff ha hb]
  constructor
  · intro h
    by_contra hne
    -- a MAC that tells the two messages apart
    have hverdict := h (fun _ m => if m = masked a off then Digest.zero else Vector.replicate 32 1)
      [] Digest.zero
    rw [verifyDigest_ok ha, verifyDigest_ok hb, if_pos rfl, if_neg (Ne.symm hne)] at hverdict
    exact absurd (Except.ok.inj hverdict) (by decide)
  · intro h mac k received
    rw [verifyDigest_ok ha, verifyDigest_ok hb, h]

@[simp] theorem signed_length : (signed hmac key pdu off).length = pdu.length := wr_length _ _ _

theorem getElem?_signed (h : off + 32 ≤ pdu.length) {i : Nat} (hi : i < off ∨ off + 32 ≤ i) :
    (signed hmac key pdu off)[i]? = pdu[i]? := by
  have hd : (hmac key (masked pdu off)).toList.length = 32 := Vector.length_toList
  rw [signed, getElem?_wr (by rw [hd]; exact h), hd, if_neg (by omega)]

theorem masked_signed (h : off + 32 ≤ pdu.length) :
    masked (signed hmac key pdu off) off = masked pdu off :=
  (masked_eq_iff (by rwa [signed_length]) h).mpr fun _ hi => getElem?_signed h hi

/-- The digest read back from a signed PDU. -/
theorem digest_signed (h : off + 32 ≤ pdu.length) :
    Digest.ofBytes (sub (signed hmac key pdu off) off (off + 32)) = hmac key (masked pdu off) := by
  have hd : (hmac key (masked pdu off)).toList.length = 32 := Vector.length_toList
  have hroom : off + (hmac key (masked pdu off)).toList.length ≤ pdu.length := by rwa [hd]
  have hself : rd (signed hmac key pdu off) off 32 = (hmac key (masked pdu off)).toList := by
    have hrd := rd_wr_self hroom
    rwa [hd] at hrd
  rw [sub, Nat.add_sub_cancel_left]
  exact (eq_digest_iff (by rw [hself, hd]) _).mp hself

theorem verifyDigest_signed (h : off + 32 ≤ pdu.length) :
    verifyDigest hmac key (signed hmac key pdu off) off (hmac key (masked pdu off)) = .ok true := by
  rw [verifyDigest_ok (by rwa [signed_length]), masked_signed h, decide_eq_true rfl]

theorem signed_verifies (h : off + 32 ≤ pdu.length) :
    Verifies hmac key off (signed hmac key pdu off) := by
  rw [Verifies, digest_signed h]
  exact verifyDigest_signed h

theorem u16At_signed (h : off + 32 ≤ pdu.length) {i : Nat} (hi : i + 2 ≤ off) :
    u16At (signed hmac key pdu off) i = u16At pdu i := by
  rw [u16At, u16At, signed, rd_wr_disjoint (by simpa using h) (.inr hi)]

theorem sub_sub {lo hi l r : Nat} (h : lo + r ≤ hi) :
    sub (sub b lo hi) l r = sub b (lo + l) (lo + r) := by
  apply List.ext_getElem?
  intro i
  rw [sub, sub, sub, getElem?_rd, getElem?_rd, getElem?_rd]
  by_cases hi' : i < r - l
  · rw [if_pos hi', if_pos (by omega), if_pos (by omega), Nat.add_assoc]
  · rw [if_neg hi', if_neg (by omega)]

end Masking

/-! ## The three kinds -/

section Kinds

variable {hmac : HMAC} {key : Bytes}

/-- The digest `parseSetup` returns is the one at `setupAuthDigestOff`. -/
theorem setup_parsed_digest {b : Bytes} {q : SetupPDU} (h : parseSetup b = .ok (.ok q)) :
    q.auth.authDigest = Digest.ofBytes (sub b setupAuthDigestOff (setupAuthDigestOff + 32)) := by
  obtain ⟨hb, rfl⟩ := parseSetup_eq_ok.mp h
  show Digest.ofBytes (sub (sub b 15 b.length) 5 37) = _
  rw [sub_sub (by rw [hb.size]; decide)]

theorem testAct_parsed_digest {b : Bytes} {q : TestActPDU} (hlen : b.length = testActSize)
    (h : parseTestAct b = .ok (.ok q)) :
    q.auth.authDigest
      = Digest.ofBytes (sub b testActAuthDigestOff (testActAuthDigestOff + 32)) := by
  obtain ⟨-, rfl⟩ := parseTestAct_eq_ok.mp h
  have hfull : ¬ b.length < testActSize := Nat.not_lt.mpr (Nat.le_of_eq hlen.symm)
  simp only [TestActPDU.ofBytes, if_neg hfull]
  show Digest.ofBytes (sub (sub b 63 b.length) 5 37) = _
  rw [sub_sub (by rw [hlen]; decide)]

/-- What signing a marshalled PDU gives: `b` has the bytes of `pdu` but for
the digest field, and verifies. -/
structure SignsTo (hmac : HMAC) (key : Bytes) (off : Nat) (pdu b : Bytes) : Prop where
  signs : signPDU hmac key pdu off = .ok b
  length : b.length = pdu.length
  keeps : ∀ i, i < off ∨ off + 32 ≤ i → b[i]? = pdu[i]?
  verifies : Verifies hmac key off b

theorem signsTo_signed {pdu : Bytes} {off : Nat} (h : off + 32 ≤ pdu.length) :
    SignsTo hmac key off pdu (signed hmac key pdu off) :=
  ⟨signPDU_ok h, signed_length, fun _ hi => getElem?_signed h hi, signed_verifies h⟩

/-- Signing touches nothing the parser decides on. -/
theorem IsSetup.signed {b : Bytes} (h : IsSetup b) :
    IsSetup (signed hmac key b setupAuthDigestOff) := by
  have hroom : setupAuthDigestOff + 32 ≤ b.length := by
    rw [h.size]
    decide
  refine ⟨signed_length.trans h.size, ?_, ?_⟩
  · rw [u16At_signed hroom (by decide), h.id]
  · rw [signed_getD_ne hroom (.inl (by decide))]
    exact h.cmd

theorem IsTestAct.signed {b : Bytes} (h : IsTestAct b) (hlen : b.length = testActSize) :
    IsTestAct (signed hmac key b testActAuthDigestOff) := by
  have hroom : testActAuthDigestOff + 32 ≤ b.length := by
    rw [hlen]
    decide
  refine ⟨h.minSize.trans_eq signed_length.symm, signed_length.trans_le h.maxSize, ?_, ?_⟩
  · rw [u16At_signed hroom (by decide), h.id]
  · rw [signed_getD_ne hroom (.inl (by decide))]
    exact h.cmd

/-- A Setup PDU, signed, is accepted by the parser when it was before, and
verifies with the digest the parser returns. -/
theorem setup_signs (p : SetupPDU) : ∃ pdu b, p.marshal = .ok pdu ∧
    SignsTo hmac key setupAuthDigestOff pdu b ∧
    (p.Valid → ∃ q, parseSetup b = .ok (.ok q)) ∧
    ∀ q, parseSetup b = .ok (.ok q) →
      verifyDigest hmac key b setupAuthDigestOff q.auth.authDigest = .ok true := by
  set pdu := patch (List.replicate setupSize 0) (p.blocks ++ [⟨53, [0]⟩]) with hpdu
  have hlen : pdu.length = setupSize := by rw [hpdu, patch_length, List.length_replicate]
  have hsign : SignsTo hmac key setupAuthDigestOff pdu (signed hmac key pdu setupAuthDigestOff) :=
    signsTo_signed (by rw [hlen]; decide)
  have hmarshal : p.marshal = .ok pdu := setupPDU_marshal_writes p
  refine ⟨pdu, _, hmarshal, hsign, fun hv => ?_, fun q hq => ?_⟩
  · have hparse := setup_inverse.decode_encode p hv
    rw [hmarshal, ok_bind] at hparse
    exact ⟨_, parseSetup_ok (parseSetup_eq_ok.mp hparse).1.signed⟩
  · rw [setup_parsed_digest hq]
    exact hsign.verifies

theorem null_signs (p : NullPDU) : ∃ pdu b, p.marshal = .ok pdu ∧
    SignsTo hmac key nullAuthDigestOff pdu b := by
  obtain ⟨pdu, hpdu, hlen⟩ := nullPDU_marshal_ok p
  refine ⟨pdu, _, hpdu, signsTo_signed ?_⟩
  rw [hlen]
  decide

theorem testAct_signs {p : TestActPDU} (hl : p.legacy = false) : ∃ pdu b, p.marshal = .ok pdu ∧
    SignsTo hmac key testActAuthDigestOff pdu b ∧
    (p.HasCommand → ∃ q, parseTestAct b = .ok (.ok q)) ∧
    ∀ q, parseTestAct b = .ok (.ok q) →
      verifyDigest hmac key b testActAuthDigestOff q.auth.authDigest = .ok true := by
  set pdu := patch (List.replicate testActSize 0) (p.blocks ++ [⟨101, [0]⟩]) with hpdu
  have hlen : pdu.length = testActSize := by rw [hpdu, patch_length, List.length_replicate]
  have hsign : SignsTo hmac key testActAuthDigestOff pdu
      (signed hmac key pdu testActAuthDigestOff) := signsTo_signed (by rw [hlen]; decide)
  have hmarshal : p.marshal = .ok pdu := testActPDU_marshal_writes hl
  refine ⟨pdu, _, hmarshal, hsign, fun hv => ?_, fun q hq => ?_⟩
  · have hparse := testAct_inverse.decode_encode p ⟨hv, hl⟩
    rw [hmarshal, ok_bind] at hparse
    exact ⟨_, parseTestAct_ok ((parseTestAct_eq_ok.mp hparse).1.signed hlen)⟩
  · rw [testAct_parsed_digest (by rw [signed_length, hlen]) hq]
    exact hsign.verifies

end Kinds

/-! ## What the server sends -/

/-- The control PDUs sent so far for one request, and whether its session
has been started. -/
structure Sent where
  nulls : List Bytes := []
  responses : List Bytes := []
  started : Bool := false

/-- Every control PDU sent for a version 20 session with keys verifies under
the session's server key. -/
def Sent.Sealed (hmac : HMAC) (st : Sent) (sess : Session) : Prop :=
  ∀ keys, sess.keys = some keys → protocolVer ≤ sess.pver →
    (∀ b ∈ st.nulls, Verifies hmac keys.server.toList nullAuthDigestOff b) ∧
    ∀ b ∈ st.responses, Verifies hmac keys.server.toList setupAuthDigestOff b

/-- A session is started only behind PDUs sealed for it, as the last
operation. -/
def sealing (hmac : HMAC) : Protocol setupSig Sent where
  Allowed st o := st.started = false ∧ match o with
    | .start sess => st.Sealed hmac sess
    | _ => True
  next st o _ := match o with
    | .sendNull pdu _ => { st with nulls := st.nulls ++ [pdu] }
    | .sendResponse pdu _ => { st with responses := st.responses ++ [pdu] }
    | .start _ => { st with started := true }
    | _ => st

section Sealing

variable {hmac : HMAC} {cfg : Config} {req : SetupPDU} {raw : Bytes} {peer : AddrPort}

/-- An answer is sealed when the credentials have keys. -/
def SealedUnder (hmac : HMAC) (off : Nat) (req : SetupPDU) (cred : Credentials) (b : Bytes) :
    Prop :=
  ∀ keys, cred.keys = some keys → protocolVer ≤ req.protocolVer →
    Verifies hmac keys.server.toList off b

theorem signed_layout_verifies (r : SetupPDU) (key : Bytes) :
    Verifies hmac key setupAuthDigestOff (signed hmac key r.layout setupAuthDigestOff) :=
  signed_verifies (by rw [setupPDU_layout_length]; decide)

theorem Seals.sealed {resp : SetupPDU} {cred : Credentials} {pdu : Bytes}
    (h : Seals hmac resp req cred pdu) : SealedUnder hmac setupAuthDigestOff req cred pdu := by
  intro keys hkeys hver
  obtain ⟨now, rfl⟩ := h
  simp only [responseBytes, hkeys, if_pos hver]
  exact signed_layout_verifies _ _

theorem SealsNull.sealed {cred : Credentials} {pdu : Bytes} (h : SealsNull hmac req cred pdu) :
    SealedUnder hmac nullAuthDigestOff req cred pdu := by
  intro keys hkeys _
  obtain ⟨now, hpdu⟩ := h
  obtain ⟨b, hb, hlen⟩ := nullPDU_marshal_ok (nullRequest req now)
  have hroom : nullAuthDigestOff + 32 ≤ b.length := by
    rw [hlen]
    decide
  rw [sealNullRequest, hb, ok_bind, hkeys] at hpdu
  cases hpdu.symm.trans (signPDU_ok hroom)
  exact signed_verifies hroom

/-- What the course of a request says about the PDUs sent. -/
def Course.sent (st : Course) : Sent where
  nulls := st.null.toList
  responses := st.answer.toList
  started := st.session.isSome

theorem Course.sent_of_open {st : Course} (hsess : st.session = none) :
    st.sent.started = false := by
  rw [Course.sent, hsess]
  rfl

/-- The session has the version of the request and the keys of its
credentials. -/
theorem Course.MayStart.sealed {st : Course} {sess : Session}
    (h : st.MayStart hmac cfg req raw peer sess) : st.sent.Sealed hmac sess := by
  obtain ⟨-, -, cred, port, pdu, rfl, -, -, hanswer, hpdu, -, hnull⟩ := h
  intro keys hkeys hver
  refine ⟨fun b hb => ?_, fun b hb => ?_⟩
  · exact (hnull b (Option.mem_toList.mp hb)).sealed keys hkeys hver
  · cases hanswer.symm.trans (Option.mem_toList.mp hb)
    exact hpdu.sealed keys hkeys hver

/-- The protocol sees of the course the PDUs sent. -/
theorem sealing_views :
    Views (setupCourse hmac cfg req raw peer) (sealing hmac) fun st s => s = st.sent := by
  rintro st _ o rfl h
  cases o with
  | now => exact ⟨⟨Course.sent_of_open h, trivial⟩, fun _ => rfl⟩
  | reserveBandwidth upstream mbw =>
      refine ⟨⟨Course.sent_of_open h.1.session, trivial⟩, fun granted => ?_⟩
      cases granted <;> rfl
  | countSession =>
      refine ⟨⟨Course.sent_of_open h.1.session, trivial⟩, fun err => ?_⟩
      cases err <;> rfl
  | sendNull pdu dst =>
      obtain ⟨hst, -, hnull⟩ := h
      refine ⟨⟨Course.sent_of_open hst.session, trivial⟩, fun _ => ?_⟩
      simp [sealing, setupCourse, Course.next, Course.sent, hnull]
  | sendResponse pdu dst =>
      obtain ⟨-, hanswer, -, hsess, -⟩ := h
      refine ⟨⟨Course.sent_of_open hsess, trivial⟩, fun _ => ?_⟩
      simp [sealing, setupCourse, Course.next, Course.sent, hanswer]
  | wgAdd => exact ⟨⟨Course.sent_of_open h.2.2.2, trivial⟩, fun _ => rfl⟩
  | start sess =>
      obtain ⟨-, hsess, -, hstart⟩ := h
      exact ⟨⟨Course.sent_of_open hsess, hstart.sealed⟩, fun _ => rfl⟩
  | _ => exact ⟨⟨Course.sent_of_open h.1.session, trivial⟩, fun _ => rfl⟩

/-- **Whatever `handleSetup` sends for a version 20 session with keys is
sealed under the session's server key.** -/
theorem handleSetup_sealed (hraw : raw.length = setupSize) :
    Conforms (sealing hmac) {} (handleSetup hmac cfg req raw peer) fun _ _ => True :=
  ((handleSetup_course hraw).view sealing_views rfl).mono fun _ _ _ => trivial

/-! ### Executions of the handler -/

/-- The Null Requests and the Setup Responses among the operations. -/
def nullOf : SetupOp → List Bytes
  | .sendNull pdu _ => [pdu]
  | _ => []

def responseOf : SetupOp → List Bytes
  | .sendResponse pdu _ => [pdu]
  | _ => []

theorem sealing_next (hmac : HMAC) (st : Sent) (o : SetupOp) (r : o.Res) :
    ((sealing hmac).next st o r).nulls = st.nulls ++ nullOf o ∧
      ((sealing hmac).next st o r).responses = st.responses ++ responseOf o := by
  cases o <;> exact ⟨by first | rfl | exact (List.append_nil _).symm,
    by first | rfl | exact (List.append_nil _).symm⟩

/-- What an execution has sent. -/
theorem sealing_after (hmac : HMAC) (tr : List (Σ o : SetupOp, o.Res)) (st : Sent) :
    (tr.foldl (fun st e => (sealing hmac).next st e.1 e.2) st).nulls
        = st.nulls ++ (Prog.performed (S := setupSig) tr).flatMap nullOf ∧
      (tr.foldl (fun st e => (sealing hmac).next st e.1 e.2) st).responses
        = st.responses ++ (Prog.performed (S := setupSig) tr).flatMap responseOf := by
  induction tr generalizing st with
  | nil => simp [Prog.performed]
  | cons e tr ih =>
      obtain ⟨hn, hr⟩ := sealing_next hmac st e.1 e.2
      obtain ⟨ihn, ihr⟩ := ih ((sealing hmac).next st e.1 e.2)
      constructor
      · rw [List.foldl_cons, ihn, hn, List.append_assoc]
        rfl
      · rw [List.foldl_cons, ihr, hr, List.append_assoc]
        rfl

/-- In every execution of `handleSetup` that starts a version 20 session
with keys, every Null Request and Setup Response sent verifies. -/
theorem handleSetup_sends_sealed (hraw : raw.length = setupSize)
    {tr : List (Σ o : SetupOp, o.Res)} {q : SetupProg Unit}
    (he : (handleSetup hmac cfg req raw peer).Executes tr q) {sess : Session} {keys : SessionKeys}
    (hstart : .start sess ∈ Prog.performed (S := setupSig) tr) (hkeys : sess.keys = some keys)
    (hver : protocolVer ≤ sess.pver) :
    (∀ pdu dst, .sendNull pdu dst ∈ Prog.performed (S := setupSig) tr →
      Verifies hmac keys.server.toList nullAuthDigestOff pdu) ∧
    ∀ pdu dst, .sendResponse pdu dst ∈ Prog.performed (S := setupSig) tr →
      Verifies hmac keys.server.toList setupAuthDigestOff pdu := by
  obtain ⟨⟨o, r⟩, hmem, ho⟩ := List.mem_map.mp hstart
  obtain rfl : o = .start sess := ho
  obtain ⟨before, after, rfl⟩ := List.append_of_mem hmem
  have hconf : Conforms (sealing hmac) {} (handleSetup hmac cfg req raw peer) fun _ _ => True :=
    handleSetup_sealed hraw
  have hallowed : _ ∧ Sent.Sealed hmac _ sess := hconf.allowed he
  -- the start is the last operation: nothing is allowed behind it
  have hlast : after = [] := by
    cases after with
    | nil => rfl
    | cons e after =>
        have hsplit : before ++ ⟨.start sess, r⟩ :: e :: after
            = (before ++ [⟨.start sess, r⟩]) ++ e :: after := by simp
        rw [hsplit] at he
        have hnext := (hconf.allowed he).1
        simp [sealing] at hnext
  subst hlast
  obtain ⟨hnulls, hresponses⟩ := sealing_after hmac before {}
  obtain ⟨hsealN, hsealR⟩ := hallowed.2 keys hkeys hver
  have hperf : ∀ o, o ≠ .start sess → o ∈ Prog.performed (S := setupSig)
      (before ++ [⟨.start sess, r⟩]) → o ∈ Prog.performed (S := setupSig) before := by
    intro o hne ho
    rw [Prog.performed, List.map_append, List.mem_append] at ho
    exact ho.resolve_right fun h => hne (List.mem_singleton.mp h)
  constructor
  · intro pdu dst hsend
    apply hsealN
    rw [hnulls]
    exact List.mem_append_right _ (List.mem_flatMap.mpr
      ⟨_, hperf _ (by simp) hsend, List.mem_singleton.mpr rfl⟩)
  · intro pdu dst hsend
    apply hsealR
    rw [hresponses]
    exact List.mem_append_right _ (List.mem_flatMap.mpr
      ⟨_, hperf _ (by simp) hsend, List.mem_singleton.mpr rfl⟩)

/-- Whatever answer the handler seals with session keys in hand, a refusal
included. -/
theorem sealSetupResponse_verifies {resp : SetupPDU} {cred : Credentials} {keys : SessionKeys}
    (hkeys : cred.keys = some keys) (hver : protocolVer ≤ req.protocolVer)
    {tr : List (Σ o : SetupOp, o.Res)} {pdu : Bytes}
    (he : (sealSetupResponse hmac resp req cred).Executes tr (.ret pdu)) :
    Verifies hmac keys.server.toList setupAuthDigestOff pdu := by
  -- whose request it is does not matter
  let peer : AddrPort := { addr := .v4 0, port := 0 }
  have hconf : Conforms (setupCourse hmac {} req [] peer) {} (sealSetupResponse hmac resp req cred)
      fun pdu st' => Seals hmac resp req cred pdu ∧ ∃ more, st' = { clocks := [] ++ more } :=
    sealSetupResponse_conforms resp cred rfl
  exact (Conforms.ret_iff.mp (hconf.executes he)).1.sealed keys hkeys hver

end Sealing

/-! ### The activation response -/

section Activation

variable {hmac : HMAC} {srv : Server} {s s' : Session} {d : Rx} {pdu : Bytes} {keys : SessionKeys}

theorem sealResponse_sealed {resp : TestActPDU} {now : Time}
    (h : s.sealResponse hmac resp now = .ok pdu) (hkeys : s.keys = some keys)
    (hver : protocolVer ≤ s.pver) :
    Verifies hmac keys.server.toList testActAuthDigestOff pdu ∧ pdu.length = testActSize := by
  unfold Session.sealResponse at h
  obtain ⟨_, -, h⟩ := bind_eq_ok.mp h
  simp only [hkeys, if_pos hver] at h
  obtain ⟨stamped, hstamped, hsign⟩ := bind_eq_ok.mp h
  obtain ⟨_, hok, hlen⟩ := testActPDU_marshal_ok
    { resp with auth := { resp.auth with authUnixTime := UInt32.ofInt (Time.unix now) } }
  cases hstamped.symm.trans hok
  by_cases hroom : testActAuthDigestOff + 32 ≤ stamped.length
  · cases (signPDU_ok hroom).symm.trans hsign
    refine ⟨signed_verifies hroom, signed_length.trans ?_⟩
    -- the legacy layout has no room for a digest
    split at hlen
    · rw [hlen] at hroom
      exact absurd hroom (by decide)
    · exact hlen
  · obtain ⟨p, hp⟩ : ∃ p, signPDU hmac keys.server.toList stamped testActAuthDigestOff = .error p :=
      signPDU_panic (Nat.not_le.mp hroom)
    cases hp.symm.trans hsign

/-- The response that activates a version 20 session with keys verifies, and
with the digest its parser returns as well. -/
theorem activationStep_sealed (h : activationStep hmac srv s d = .ok (s', some pdu))
    (hkeys : s.keys = some keys) (hver : protocolVer ≤ s.pver) :
    Verifies hmac keys.server.toList testActAuthDigestOff pdu ∧ pdu.length = testActSize := by
  by_cases haddr : s.Addressed d
  · rw [activationStep_of_addressed haddr] at h
    obtain ⟨authentic, -, h⟩ := bind_eq_ok.mp h
    cases authentic with
    | false => cases h
    | true =>
        obtain ⟨resp, -, h⟩ := bind_eq_ok.mp h
        obtain ⟨sealed, hseal, h⟩ := bind_eq_ok.mp h
        cases h
        exact sealResponse_sealed hseal hkeys hver
  · rw [activationStep_of_not_addressed haddr] at h
    cases h

end Activation

/-- The PDU kinds that carry a digest, with its offset. -/
def digestOffsets : List (Nat × Nat) :=
  [(setupSize, setupAuthDigestOff), (nullSize, nullAuthDigestOff),
    (testActSize, testActAuthDigestOff)]

theorem digestOffsets_room : ∀ kind ∈ digestOffsets, kind.2 + 32 ≤ kind.1 := by decide

/-- **Signed control PDUs verify and bind every other byte.** For each kind,
what is marshalled and signed verifies, with the digest in the bytes and with
the one the parser returns; the message is the PDU outside the digest field,
no less and no more; and what is sent in a version 20 session with keys
verifies under the session's server key. -/
theorem signed_pdus_verify (hmac : HMAC) :
    (∀ (key : Bytes) (p : SetupPDU), ∃ pdu b, p.marshal = .ok pdu ∧
      SignsTo hmac key setupAuthDigestOff pdu b ∧
      (p.Valid → ∃ q, parseSetup b = .ok (.ok q)) ∧
      ∀ q, parseSetup b = .ok (.ok q) →
        verifyDigest hmac key b setupAuthDigestOff q.auth.authDigest = .ok true) ∧
    (∀ (key : Bytes) (p : NullPDU), ∃ pdu b, p.marshal = .ok pdu ∧
      SignsTo hmac key nullAuthDigestOff pdu b) ∧
    (∀ (key : Bytes) (p : TestActPDU), p.legacy = false → ∃ pdu b, p.marshal = .ok pdu ∧
      SignsTo hmac key testActAuthDigestOff pdu b ∧
      (p.HasCommand → ∃ q, parseTestAct b = .ok (.ok q)) ∧
      ∀ q, parseTestAct b = .ok (.ok q) →
        verifyDigest hmac key b testActAuthDigestOff q.auth.authDigest = .ok true) ∧
    (∀ kind ∈ digestOffsets, ∀ a b : Bytes, a.length = kind.1 → b.length = kind.1 →
      (zeroRange a kind.2 32 = zeroRange b kind.2 32 ↔
        ∀ i, i < kind.2 ∨ kind.2 + 32 ≤ i → a[i]? = b[i]?) ∧
      ((∀ (mac : HMAC) (k : Bytes) (received : Digest),
          verifyDigest mac k a kind.2 received = verifyDigest mac k b kind.2 received) ↔
        ∀ i, i < kind.2 ∨ kind.2 + 32 ≤ i → a[i]? = b[i]?)) ∧
    (∀ (cfg : Config) (req : SetupPDU) (raw : Bytes) (peer : AddrPort)
      (tr : List (Σ o : SetupOp, o.Res)) (q : SetupProg Unit) (sess : Session)
      (keys : SessionKeys), raw.length = setupSize →
      (handleSetup hmac cfg req raw peer).Executes tr q →
      .start sess ∈ Prog.performed (S := setupSig) tr → sess.keys = some keys →
      protocolVer ≤ sess.pver →
      (∀ pdu dst, .sendNull pdu dst ∈ Prog.performed (S := setupSig) tr →
        Verifies hmac keys.server.toList nullAuthDigestOff pdu) ∧
      ∀ pdu dst, .sendResponse pdu dst ∈ Prog.performed (S := setupSig) tr →
        Verifies hmac keys.server.toList setupAuthDigestOff pdu) ∧
    (∀ (resp req : SetupPDU) (cred : Credentials) (keys : SessionKeys)
      (tr : List (Σ o : SetupOp, o.Res)) (pdu : Bytes), cred.keys = some keys →
      protocolVer ≤ req.protocolVer →
      (sealSetupResponse hmac resp req cred).Executes tr (.ret pdu) →
      Verifies hmac keys.server.toList setupAuthDigestOff pdu) ∧
    ∀ (srv : Server) (s s' : Session) (d : Rx) (pdu : Bytes) (keys : SessionKeys),
      activationStep hmac srv s d = .ok (s', some pdu) → s.keys = some keys →
      protocolVer ≤ s.pver →
      Verifies hmac keys.server.toList testActAuthDigestOff pdu ∧ pdu.length = testActSize := by
  refine ⟨fun _ p => setup_signs p, fun _ p => null_signs p, fun _ _ hl => testAct_signs hl,
    fun kind hkind a b ha hb => ?_, fun _ _ _ _ _ _ _ _ hraw he hstart hkeys hver =>
      handleSetup_sends_sealed hraw he hstart hkeys hver,
    fun _ _ _ _ _ _ hkeys hver he => sealSetupResponse_verifies hkeys hver he,
    fun _ _ _ _ _ _ h hkeys hver => activationStep_sealed h hkeys hver⟩
  have hroom := digestOffsets_room kind hkind
  exact ⟨zeroRange_eq_iff (ha ▸ hroom) (hb ▸ hroom), verifyDigest_eq_iff (ha ▸ hroom) (hb ▸ hroom)⟩

end Diagd.Udpst

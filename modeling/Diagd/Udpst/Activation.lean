import Diagd.Udpst.Session

/-!
# Awaiting activation, case by case

What `awaitActivation` does with a datagram is one of three things, and
which one is a matter of the session and the bytes alone:

* it is skipped: the wrong source, a shape `parseTestAct` refuses, a
  response rather than a request, or a digest that does not verify;
* it is accepted (`Session.Accepts`), the session polices it and answers;
* it OVERRUNS: in a session that checks digests, the digest field of the
  104-byte layout is read from or written to a PDU that is too short for it.

`parseTestAct` takes 60 to 104 bytes and treats everything below 104 as the
legacy layout, but the version that decides whether the digest at offset 68
is checked is the one remembered from setup. So a datagram of 60 to 99 bytes
overruns in `verifyDigest`; one of 100 to 103 bytes has a digest field to
mask but a parsed digest of zero, and if that happens to be its HMAC the
60-byte response overruns in `signPDU`.
-/

namespace Diagd.Udpst

open GoSlice GoStd

/-! ## The verdict on a datagram -/

namespace Session

/-- The keys the session checks activation requests with, if it does. -/
def digestKeys (s : Session) : Option SessionKeys :=
  if protocolVer ≤ s.pver ∧ s.authMode = authModeControl then s.keys else none

/-- A request from the setup peer that `parseTestAct` accepts. -/
def Addressed (s : Session) (d : Rx) : Prop :=
  d.peer.addr.unmap = s.setupPeer.addr.unmap ∧ IsTestAct d.bytes ∧
    d.bytes.getD 5 0 = testActRespNone

/-- What the digest of an activation request has to be. -/
def requestDigest (hmac : HMAC) (keys : SessionKeys) (d : Rx) : Digest :=
  hmac keys.client.toList (masked d.bytes testActAuthDigestOff)

/-- The datagram activates the session. -/
def Accepts (hmac : HMAC) (s : Session) (d : Rx) : Prop :=
  s.Addressed d ∧ ∀ keys ∈ s.digestKeys, testActAuthDigestOff + 32 ≤ d.bytes.length ∧
    requestDigest hmac keys d = (TestActPDU.ofBytes d.bytes).auth.authDigest

/-- The datagram is too short for the digest field of a session that checks
digests: already in the request, or, when its parsed digest of zero
verifies, in the legacy response. -/
def Overruns (hmac : HMAC) (s : Session) (d : Rx) : Prop :=
  s.Addressed d ∧ ∃ keys ∈ s.digestKeys, d.bytes.length < testActAuthDigestOff + 32 ∨
    (d.bytes.length < testActSize ∧ requestDigest hmac keys d = Digest.zero)

instance (s : Session) (d : Rx) : Decidable (s.Addressed d) :=
  inferInstanceAs (Decidable (_ ∧ _ ∧ _))

instance (hmac : HMAC) (s : Session) : DecidablePred (s.Accepts hmac) :=
  fun _ => inferInstanceAs (Decidable (_ ∧ ∀ keys ∈ s.digestKeys, _ ∧ _))

/-- Keys are held only by sessions that check digests. -/
def Keyed (s : Session) : Prop :=
  s.keys.isSome → protocolVer ≤ s.pver ∧ s.authMode = authModeControl

theorem Keyed.digestKeys {s : Session} (h : s.Keyed) : s.digestKeys = s.keys := by
  unfold Session.digestKeys
  cases hk : s.keys with
  | none => exact ite_self _
  | some keys => exact if_pos (h (by rw [hk]; rfl))

end Session

/-! ## The digest check -/

section Step

variable {hmac : HMAC} {srv : Server} {s : Session} {d : Rx}

theorem activationAuthentic_eq (buf : Bytes) (req : TestActPDU) :
    s.activationAuthentic hmac buf req = match s.digestKeys with
      | some keys => verifyDigest hmac keys.client.toList buf testActAuthDigestOff
          req.auth.authDigest
      | none => .ok true := by
  unfold Session.activationAuthentic Session.digestKeys
  generalize s.keys = ks
  by_cases hc : protocolVer ≤ s.pver ∧ s.authMode = authModeControl
  · rw [if_pos hc]
    cases ks with
    | none => rfl
    | some keys => exact if_pos hc
  · rw [if_neg hc]
    cases ks with
    | none => rfl
    | some keys => exact if_neg hc

/-! ## The answer -/

theorem policeIndexConf_bounds (table : RateTable) (req : TestActPDU) :
    -1 ≤ policeIndexConf table req ∧ policeIndexConf table req < table.rows.length := by
  unfold policeIndexConf
  split
  · rename_i h
    exact ⟨by omega, by exact_mod_cast h.2⟩
  · exact ⟨le_refl _, by omega⟩

theorem initialIndex_activate_bounds (req : TestActPDU) :
    0 ≤ (s.activate srv req d).initialIndex ∧
      (s.activate srv req d).initialIndex < srv.table.rows.length := by
  have hconf := policeIndexConf_bounds srv.table req
  have hlen := srv.rows_length
  have hp : (s.activate srv req d).p.srIndexConf = policeIndexConf srv.table req := rfl
  unfold Session.initialIndex
  rw [hp]
  split
  · exact ⟨by assumption, hconf.2⟩
  · rw [hlen]
    decide

/-- The response is always built, in the layout of the request. -/
theorem activationResponse_ok (req : TestActPDU) :
    ∃ resp, (s.activate srv req d).activationResponse srv req = .ok resp ∧
      resp.legacy = req.legacy := by
  obtain ⟨hlow, hhigh⟩ : 0 ≤ (s.activate srv req d).initialIndex ∧
      (s.activate srv req d).initialIndex < srv.table.rows.length :=
    initialIndex_activate_bounds req
  generalize s.activate srv req d = t at hlow hhigh ⊢
  obtain ⟨row, -, hrow⟩ := element_ok hlow hhigh
  unfold Session.activationResponse
  by_cases hdown : t.downstream
  · rw [if_pos hdown]
    refine ⟨_, rfl, ?_⟩
    show TestActPDU.legacy (if protocolVer ≤ t.pver then _ else _) = _
    split <;> rfl
  · rw [if_neg hdown, hrow]
    refine ⟨_, rfl, ?_⟩
    show TestActPDU.legacy (if protocolVer ≤ t.pver then _ else _) = _
    split <;> rfl

/-- Sealing succeeds unless the session signs and the layout is the legacy
one. -/
theorem sealResponse_ok {resp : TestActPDU} (now : Time) (hk : s.Keyed)
    (h : s.digestKeys = none ∨ resp.legacy = false) :
    ∃ pdu, s.sealResponse hmac resp now = .ok pdu := by
  obtain ⟨pdu, hpdu, -⟩ := testActPDU_marshal_ok resp
  rw [hk.digestKeys] at h
  unfold Session.sealResponse
  rw [hpdu, ok_bind]
  cases hkeys : s.keys with
  | none => exact ⟨pdu, rfl⟩
  | some keys =>
      have hver := (hk (by rw [hkeys]; rfl)).1
      have hleg : resp.legacy = false := h.resolve_left (by rw [hkeys]; simp)
      obtain ⟨pdu', hpdu', hlen⟩ := testActPDU_marshal_ok
        { resp with auth := { resp.auth with authUnixTime := UInt32.ofInt (Time.unix now) } }
      rw [hleg] at hlen
      have hoff : testActAuthDigestOff + 32 ≤ pdu'.length := by
        rw [hlen]
        decide
      simp only [if_pos hver, hpdu', ok_bind]
      exact ⟨_, signPDU_ok hoff⟩

theorem sealResponse_panic {resp : TestActPDU} {keys : SessionKeys} (now : Time) (hk : s.Keyed)
    (hkeys : s.keys = some keys) (hleg : resp.legacy = true) :
    ∃ p, s.sealResponse hmac resp now = .error p := by
  obtain ⟨pdu, hpdu, -⟩ := testActPDU_marshal_ok resp
  have hver := (hk (by rw [hkeys]; rfl)).1
  obtain ⟨pdu', hpdu', hlen⟩ := testActPDU_marshal_ok
    { resp with auth := { resp.auth with authUnixTime := UInt32.ofInt (Time.unix now) } }
  rw [hleg] at hlen
  have hoff : pdu'.length < testActAuthDigestOff + 32 := by
    rw [hlen]
    decide
  unfold Session.sealResponse
  rw [hpdu, ok_bind, hkeys]
  simp only [if_pos hver, hpdu', ok_bind]
  exact signPDU_panic hoff

/-! ## One datagram -/

/-- The answer to an authentic request. -/
def Session.answer (hmac : HMAC) (srv : Server) (s : Session) (req : TestActPDU) (d : Rx) :
    Except Panic (Session × Option Bytes) := do
  let resp ← (s.activate srv req d).activationResponse srv req
  let pdu ← (s.activate srv req d).sealResponse hmac resp d.now
  return (s.activate srv req d, some pdu)

theorem activationStep_of_addressed (h : s.Addressed d) :
    activationStep hmac srv s d = (do
      if !(← s.activationAuthentic hmac d.bytes (TestActPDU.ofBytes d.bytes)) then
        return (s, none)
      s.answer hmac srv (TestActPDU.ofBytes d.bytes) d) := by
  obtain ⟨hpeer, hshape, hresp⟩ := h
  have hcmd : ¬ (TestActPDU.ofBytes d.bytes).cmdResponse ≠ testActRespNone := not_not.mpr hresp
  rw [activationStep, if_neg (not_not.mpr hpeer), parseTestAct_ok hshape, ok_bind]
  exact if_neg hcmd

theorem activationStep_of_not_addressed (h : ¬ s.Addressed d) :
    activationStep hmac srv s d = .ok (s, none) := by
  unfold activationStep
  by_cases hpeer : d.peer.addr.unmap = s.setupPeer.addr.unmap
  · rw [if_neg (not_not.mpr hpeer)]
    rcases parseTestAct_cases d.bytes with ⟨hshape, hparse⟩ | ⟨-, msg, hparse⟩
    · have hcmd : (TestActPDU.ofBytes d.bytes).cmdResponse ≠ testActRespNone :=
        fun hc => h ⟨hpeer, hshape, hc⟩
      rw [hparse, ok_bind]
      exact if_pos hcmd
    · rw [hparse, ok_bind]
      rfl
  · rw [if_pos hpeer]
    rfl

theorem Session.Keyed.activate (hk : s.Keyed) (req : TestActPDU) : (s.activate srv req d).Keyed :=
  hk

theorem answer_ok {req : TestActPDU} (hk : s.Keyed)
    (h : s.digestKeys = none ∨ req.legacy = false) :
    ∃ pdu, s.answer hmac srv req d = .ok (s.activate srv req d, some pdu) := by
  obtain ⟨resp, hresp, hleg⟩ : ∃ resp, (s.activate srv req d).activationResponse srv req = .ok resp ∧
      resp.legacy = req.legacy := activationResponse_ok req
  rw [← hleg] at h
  obtain ⟨pdu, hpdu⟩ : ∃ pdu, (s.activate srv req d).sealResponse hmac resp d.now = .ok pdu :=
    sealResponse_ok d.now (hk.activate req) h
  exact ⟨pdu, by rw [Session.answer, hresp, ok_bind, hpdu]; rfl⟩

theorem answer_panic {req : TestActPDU} {keys : SessionKeys} (hk : s.Keyed)
    (hkeys : s.keys = some keys) (hlegacy : req.legacy = true) :
    ∃ p, s.answer hmac srv req d = .error p := by
  obtain ⟨resp, hresp, hleg⟩ : ∃ resp, (s.activate srv req d).activationResponse srv req = .ok resp ∧
      resp.legacy = req.legacy := activationResponse_ok req
  obtain ⟨p, hp⟩ : ∃ p, (s.activate srv req d).sealResponse hmac resp d.now = .error p :=
    sealResponse_panic d.now (hk.activate req) hkeys (hleg.trans hlegacy)
  exact ⟨p, by rw [Session.answer, hresp, ok_bind, hp]; rfl⟩

/-- The digest of a parsed legacy request is zero. -/
theorem ofBytes_legacy_digest {b : Bytes} (h : b.length < testActSize) :
    (TestActPDU.ofBytes b).auth.authDigest = Digest.zero := by
  simp only [TestActPDU.ofBytes, if_pos h]

/-- The three things that can become of a datagram. -/
inductive Verdict (hmac : HMAC) (srv : Server) (s : Session) (d : Rx) : Prop where
  | skipped (hacc : ¬ s.Accepts hmac d) (hover : ¬ s.Overruns hmac d)
      (hstep : activationStep hmac srv s d = .ok (s, none))
  | accepted (pdu : Bytes) (hacc : s.Accepts hmac d) (hover : ¬ s.Overruns hmac d)
      (hstep : activationStep hmac srv s d
        = .ok (s.activate srv (TestActPDU.ofBytes d.bytes) d, some pdu))
  | overrun (p : Panic) (hover : s.Overruns hmac d)
      (hstep : activationStep hmac srv s d = .error p)

/-- **One datagram is skipped, accepted, or overruns**, and which one it is
is decided by the two predicates. -/
theorem activationStep_verdict (hk : s.Keyed) (d : Rx) : Verdict hmac srv s d := by
  by_cases haddr : s.Addressed d
  swap
  · exact .skipped (fun h => haddr h.1) (fun h => haddr h.1) (activationStep_of_not_addressed haddr)
  have hstep : activationStep hmac srv s d = _ := activationStep_of_addressed haddr
  rw [activationAuthentic_eq] at hstep
  cases hkeys : s.digestKeys with
  | none =>
      -- no digest is checked, and none is put on the answer
      simp only [hkeys, ok_bind, Bool.not_true, Bool.false_eq_true, if_false] at hstep
      obtain ⟨pdu, hpdu⟩ := answer_ok hk (.inl hkeys)
      refine .accepted pdu ⟨haddr, ?_⟩ ?_ (hstep.trans hpdu)
      · simp [hkeys]
      · rintro ⟨-, keys, hmem, -⟩
        simp [hkeys] at hmem
  | some keys =>
      have hkeys' : s.keys = some keys := hk.digestKeys ▸ hkeys
      simp only [hkeys] at hstep
      by_cases hshort : d.bytes.length < testActAuthDigestOff + 32
      · obtain ⟨p, hp⟩ : ∃ p, verifyDigest hmac keys.client.toList d.bytes testActAuthDigestOff
            (TestActPDU.ofBytes d.bytes).auth.authDigest = .error p := verifyDigest_panic hshort _
        rw [hp] at hstep
        exact .overrun p ⟨haddr, keys, hkeys, .inl hshort⟩ hstep
      have hlong := Nat.not_lt.mp hshort
      have hverify : verifyDigest hmac keys.client.toList d.bytes testActAuthDigestOff
          (TestActPDU.ofBytes d.bytes).auth.authDigest = .ok (decide
            (Session.requestDigest hmac keys d = (TestActPDU.ofBytes d.bytes).auth.authDigest)) :=
        verifyDigest_ok hlong _
      rw [hverify, ok_bind] at hstep
      by_cases hdig : Session.requestDigest hmac keys d
          = (TestActPDU.ofBytes d.bytes).auth.authDigest
      · have hacc : s.Accepts hmac d := by
          refine ⟨haddr, fun keys' hmem => ?_⟩
          obtain rfl : keys = keys' := by simpa [hkeys] using hmem
          exact ⟨hlong, hdig⟩
        simp only [hdig, decide_true, Bool.not_true, Bool.false_eq_true, if_false] at hstep
        by_cases hleg : d.bytes.length < testActSize
        · -- a zero HMAC verifies against the zero digest of the legacy layout
          have hlegacy : (TestActPDU.ofBytes d.bytes).legacy = true := decide_eq_true hleg
          obtain ⟨p, hp⟩ := answer_panic hk hkeys' hlegacy
          exact .overrun p ⟨haddr, keys, hkeys,
            .inr ⟨hleg, hdig.trans (ofBytes_legacy_digest hleg)⟩⟩ (hstep.trans hp)
        · have hlegacy : (TestActPDU.ofBytes d.bytes).legacy = false := decide_eq_false hleg
          obtain ⟨pdu, hpdu⟩ := answer_ok hk (.inr hlegacy)
          refine .accepted pdu hacc ?_ (hstep.trans hpdu)
          rintro ⟨-, _, -, h | h⟩
          · exact hshort h
          · exact hleg h.1
      · simp only [hdig, decide_false, Bool.not_false, if_true] at hstep
        refine .skipped (fun h => hdig (h.2 keys hkeys).2) ?_ hstep
        rintro ⟨-, keys', hmem, h | ⟨hleg, hzero⟩⟩
        · exact hshort h
        · obtain rfl : keys = keys' := by simpa [hkeys] using hmem
          exact hdig (hzero.trans (ofBytes_legacy_digest hleg).symm)

end Step

/-! ## The whole wait -/

section Wait

variable {hmac : HMAC} {srv : Server} {s : Session}

/-- How waiting has to go: nothing panics, the first datagram that is
accepted activates the session, and all before it leave the session as it
was. -/
def WaitsSafely (hmac : HMAC) (srv : Server) (s : Session) (ds : List Rx) : Prop :=
  match ds.find? fun d => s.Accepts hmac d with
  | none => awaitActivation hmac srv s ds = .ok (s, none)
  | some d => ∃ pdu, awaitActivation hmac srv s ds
      = .ok (s.activate srv (TestActPDU.ofBytes d.bytes) d, some pdu)

/-- No datagram that is read overruns; those behind the first accepted one
are not read. -/
def NoneOverruns (hmac : HMAC) (s : Session) (ds : List Rx) : Prop :=
  ∀ before d behind, ds = before ++ d :: behind →
    (∀ x ∈ before, ¬ s.Accepts hmac x) → ¬ s.Overruns hmac d

theorem noneOverruns_cons {d : Rx} {ds : List Rx} :
    NoneOverruns hmac s (d :: ds) ↔
      ¬ s.Overruns hmac d ∧ (¬ s.Accepts hmac d → NoneOverruns hmac s ds) := by
  constructor
  · intro h
    refine ⟨h [] d ds rfl (by simp), fun hacc before x behind hds hbefore => ?_⟩
    refine h (d :: before) x behind (by rw [hds]; rfl) ?_
    rintro y (_ | ⟨_, hy⟩)
    · exact hacc
    · exact hbefore y hy
  · rintro ⟨hd, hds⟩ before x behind heq hbefore
    cases before with
    | nil =>
        obtain ⟨rfl, -⟩ := List.cons.inj heq
        exact hd
    | cons y before =>
        obtain ⟨rfl, hrest⟩ := List.cons.inj heq
        exact hds (hbefore d (by simp)) before x behind hrest
          fun z hz => hbefore z (List.mem_cons_of_mem _ hz)

/-- **Waiting is safe exactly when no datagram that is read overruns.** -/
theorem waitsSafely_iff (hk : s.Keyed) (ds : List Rx) :
    WaitsSafely hmac srv s ds ↔ NoneOverruns hmac s ds := by
  induction ds with
  | nil => exact iff_of_true rfl (by rintro (_ | _) _ _ h <;> cases h)
  | cons d ds ih =>
      rw [noneOverruns_cons]
      cases (activationStep_verdict hk d : Verdict hmac srv s d) with
      | skipped hacc hover hstep =>
          have htail : WaitsSafely hmac srv s (d :: ds) ↔ WaitsSafely hmac srv s ds := by
            unfold WaitsSafely
            rw [List.find?_cons_of_neg (by simpa using hacc), awaitActivation, hstep, ok_bind]
          rw [htail, ih]
          exact ⟨fun h => ⟨hover, fun _ => h⟩, fun h => h.2 hacc⟩
      | accepted pdu hacc hover hstep =>
          refine iff_of_true ?_ ⟨hover, fun h => absurd hacc h⟩
          unfold WaitsSafely
          rw [List.find?_cons_of_pos (by simpa using hacc), awaitActivation, hstep, ok_bind]
          exact ⟨pdu, rfl⟩
      | overrun p hover hstep =>
          refine iff_of_false ?_ fun h => h.1 hover
          unfold WaitsSafely
          rw [awaitActivation, hstep, error_bind]
          split <;> simp

end Wait

end Diagd.Udpst

import Diagd.Lib.Cyclic
import Diagd.Udpst.Admission

/-!
# Test ports

`newSessionSocket` tries the ports of the configured range in cyclic order
from `nextPort` and keeps the first that can be bound. One call by itself is
a search through `portsFrom`, whatever each attempt meets (`SearchesPorts`).

That no port is given out twice is NOT up to the server, which keeps no
record of its ports: it rests on the system refusing to bind a port that is
open (`bindRefusing`).
-/

namespace Diagd.Udpst

open GoSlice GoStd Resumption

/-! ## The range -/

namespace Config

/-- The ports of the range, in cyclic order. -/
def portsFrom (cfg : Config) (start : Int) : List Int :=
  Cyclic.order cfg.testPortMin cfg.portSpan start

def HasPort (cfg : Config) (port : Int) : Prop :=
  cfg.testPortMin ≤ port ∧ port ≤ cfg.testPortMax

/-- What `cmdServe` accepts as a range. -/
structure PortRange (cfg : Config) : Prop where
  pos : 1 ≤ cfg.testPortMin
  le : cfg.testPortMin ≤ cfg.testPortMax
  max_le : cfg.testPortMax ≤ 65535

end Config

section Range

variable {cfg : Config} {start port : Int}

theorem portSpan_pos (hr : cfg.PortRange) : 0 < cfg.portSpan := by
  have hle := hr.le
  unfold Config.portSpan
  omega

theorem portSpan_cast (hr : cfg.PortRange) :
    (cfg.portSpan : Int) = cfg.testPortMax - cfg.testPortMin + 1 := by
  have hle := hr.le
  unfold Config.portSpan
  omega

/-- From a start within the range the remainder is not negative. -/
theorem portAt_eq (hr : cfg.PortRange) (hs : cfg.HasPort start) (j : Nat) :
    cfg.portAt start j = Cyclic.elem cfg.testPortMin cfg.portSpan start j := by
  have hlow := hs.1
  rw [Config.portAt, Cyclic.elem, portSpan_cast hr, Int.tmod_eq_emod_of_nonneg (by omega)]

theorem portAt_hasPort (hr : cfg.PortRange) (hs : cfg.HasPort start) (j : Nat) :
    cfg.HasPort (cfg.portAt start j) := by
  obtain ⟨hlow, hhigh⟩ : cfg.testPortMin ≤ Cyclic.elem cfg.testPortMin cfg.portSpan start j ∧
      Cyclic.elem cfg.testPortMin cfg.portSpan start j < cfg.testPortMin + cfg.portSpan :=
    Cyclic.elem_bounds (portSpan_pos hr) j
  have hspan := portSpan_cast hr
  rw [portAt_eq hr hs]
  exact ⟨hlow, by omega⟩

theorem portsFrom_eq (hr : cfg.PortRange) (hs : cfg.HasPort start) :
    cfg.portsFrom start = (List.range' 0 cfg.portSpan).map (cfg.portAt start) := by
  rw [Config.portsFrom, Cyclic.order, List.range_eq_range']
  exact List.map_congr_left fun j _ => (portAt_eq hr hs j).symm

theorem mem_portsFrom (hr : cfg.PortRange) : port ∈ cfg.portsFrom start ↔ cfg.HasPort port := by
  have hspan := portSpan_cast hr
  rw [Config.portsFrom, Cyclic.mem_order (portSpan_pos hr)]
  unfold Config.HasPort
  omega

theorem advancePort_hasPort (hr : cfg.PortRange) (hp : cfg.HasPort port) (sh : Shared) :
    cfg.HasPort (sh.advancePort cfg port).nextPort := by
  obtain ⟨hlow, hhigh⟩ := hp
  have hle := hr.le
  show cfg.HasPort (if cfg.testPortMax < port + 1 then cfg.testPortMin else port + 1)
  unfold Config.HasPort
  split <;> omega

/-- A port is not changed by its type on the wire. -/
theorem portWord_inj (hr : cfg.PortRange) {p q : Int} (hp : cfg.HasPort p) (hq : cfg.HasPort q)
    (h : UInt16.ofInt p = UInt16.ofInt q) : p = q := by
  have hpos := hr.pos
  have hmax := hr.max_le
  obtain ⟨hp₁, hp₂⟩ := hp
  obtain ⟨hq₁, hq₂⟩ := hq
  have hpw := toNat_uint16_ofInt (z := p) (by omega) (by omega)
  have hqw := toNat_uint16_ofInt (z := q) (by omega) (by omega)
  rw [h] at hpw
  omega

/-- The whole range does not fit into fewer ports. -/
theorem portSpan_le_of_subset (hr : cfg.PortRange) {held : List UInt16}
    (h : ∀ p ∈ cfg.portsFrom start, UInt16.ofInt p ∈ held) : cfg.portSpan ≤ held.length := by
  have hnodup : ((cfg.portsFrom start).map UInt16.ofInt).Nodup := by
    refine List.Nodup.map_on ?_ Cyclic.order_nodup
    intro p hp q hq heq
    exact portWord_inj hr ((mem_portsFrom hr).mp hp) ((mem_portsFrom hr).mp hq) heq
  have hsub : (cfg.portsFrom start).map UInt16.ofInt ⊆ held := by
    intro c hc
    obtain ⟨p, hp, rfl⟩ := List.mem_map.mp hc
    exact h p hp
  have hlen := (List.subperm_of_subset hnodup hsub).length_le
  rwa [List.length_map, Config.portsFrom, Cyclic.order_length] at hlen

end Range

/-! ## One call -/

/-- `SetupOp.exec`, with a record of the ports that were tried. -/
def loggedExec (cfg : Config) (o : SetupOp) (env : Env) (x : Shared × List Int) :
    o.Res × Shared × List Int :=
  ((SetupOp.exec cfg o env x.1).1, (SetupOp.exec cfg o env x.1).2,
    match o with
    | .listenUDP port => x.2 ++ [port]
    | _ => x.2)

/-- A call of `newSessionSocket` that nothing interrupts; its operation `n`
meets `env n`, and the ports are tried from operation 2 on. -/
def socketCall (cfg : Config) (env : Nat → Env) (sh : Shared) :
    Except Panic (Except String UInt16) × Shared × List Int :=
  Prog.run (S := setupSig) (loggedExec cfg) env 0 (newSessionSocket cfg) (sh, [])

def noFreePort (cfg : Config) : String :=
  "no free port in test range " ++ toString cfg.testPortMin ++ "-" ++ toString cfg.testPortMax

section Call

variable {cfg : Config} {env : Nat → Env} {sh : Shared} {start : Int}

/-- `n` iterations of the loop from `i`, the first one operation `m`. -/
def runPorts (cfg : Config) (env : Nat → Env) (start : Int) (n i m : Nat)
    (x : Shared × List Int) : Except Panic (Except String UInt16) × Shared × List Int :=
  Prog.run (S := setupSig) (loggedExec cfg) env m
    (tryPorts cfg start (cfg.testPortMax - cfg.testPortMin + 1) n i) x

theorem runPorts_zero (i m : Nat) (log : List Int) :
    runPorts cfg env start 0 i m (sh, log) =
      (.ok (.error (noFreePort cfg)), sh.uncountSession, log) := rfl

theorem runPorts_succ (n i m : Nat) (log : List Int) :
    runPorts cfg env start (n + 1) i m (sh, log) =
      match (env m).listen (cfg.portAt start i) with
      | some c => (.ok (.ok c), sh.advancePort cfg (cfg.portAt start i),
          log ++ [cfg.portAt start i])
      | none => runPorts cfg env start n (i + 1) (m + 1) (sh, log ++ [cfg.portAt start i]) := by
  have hnext : ((i + 1 : Nat) : Int) = (i : Int) + 1 := Int.natCast_succ i
  unfold runPorts
  rw [tryPorts, Prog.perform_bind, Prog.run, hnext]
  dsimp only [loggedExec, SetupOp.exec]
  change Prog.run _ _ _ (match (env m).listen (cfg.portAt start i) with
    | some c => _
    | none => _) _ = _
  cases (env m).listen (cfg.portAt start i) <;> rfl

/-- Every port is refused: all are tried and the session is uncounted. -/
theorem runPorts_fails {n i m : Nat} (log : List Int)
    (h : ∀ j < n, (env (m + j)).listen (cfg.portAt start (i + j)) = none) :
    runPorts cfg env start n i m (sh, log) =
      (.ok (.error (noFreePort cfg)), sh.uncountSession,
        log ++ (List.range' i n).map (cfg.portAt start)) := by
  induction n generalizing i m log with
  | zero =>
      rw [runPorts_zero, List.range'_zero, List.map_nil, List.append_nil]
  | succ n ih =>
      have hhead : (env m).listen (cfg.portAt start i) = none := h 0 (Nat.succ_pos n)
      have htail : ∀ j < n, (env (m + 1 + j)).listen (cfg.portAt start (i + 1 + j)) = none := by
        intro j hj
        have hj' := h (j + 1) (Nat.succ_lt_succ hj)
        rwa [← Nat.add_assoc, Nat.add_right_comm, ← Nat.add_assoc, Nat.add_right_comm i] at hj'
      rw [runPorts_succ, hhead]
      dsimp only
      rw [ih _ htail, List.range'_succ, List.map_cons, List.append_assoc, List.singleton_append]

/-- The first port that is not refused is kept. -/
theorem runPorts_binds {n i m j : Nat} (log : List Int) {c : UInt16} (hj : j < n)
    (hfirst : ∀ j' < j, (env (m + j')).listen (cfg.portAt start (i + j')) = none)
    (hbind : (env (m + j)).listen (cfg.portAt start (i + j)) = some c) :
    runPorts cfg env start n i m (sh, log) =
      (.ok (.ok c), sh.advancePort cfg (cfg.portAt start (i + j)),
        log ++ (List.range' i (j + 1)).map (cfg.portAt start)) := by
  induction n generalizing i m j log with
  | zero => exact absurd hj (Nat.not_lt_zero j)
  | succ n ih =>
      cases j with
      | zero =>
          have hhead : (env m).listen (cfg.portAt start i) = some c := hbind
          rw [runPorts_succ, hhead]
          rfl
      | succ j =>
          have hhead : (env m).listen (cfg.portAt start i) = none := hfirst 0 (Nat.succ_pos j)
          have hshift : ∀ j', m + 1 + j' = m + (j' + 1) ∧ i + 1 + j' = i + (j' + 1) := by
            omega
          have htail : ∀ j' < j,
              (env (m + 1 + j')).listen (cfg.portAt start (i + 1 + j')) = none := by
            intro j' hj'
            rw [(hshift j').1, (hshift j').2]
            exact hfirst (j' + 1) (Nat.succ_lt_succ hj')
          have hbind' : (env (m + 1 + j)).listen (cfg.portAt start (i + 1 + j)) = some c := by
            rw [(hshift j).1, (hshift j).2]
            exact hbind
          have hrange : List.range' i (j + 1 + 1) = i :: List.range' (i + 1) (j + 1) :=
            List.range'_succ
          rw [runPorts_succ, hhead]
          dsimp only
          rw [ih _ (Nat.lt_of_succ_lt_succ hj) htail hbind', (hshift j).2, hrange, List.map_cons,
            List.append_assoc, List.singleton_append]

/-- A call that passes the session limit is the loop from `nextPort`. -/
theorem socketCall_eq (hr : cfg.PortRange) (hopen : sh.closed = false)
    (hlimit : sh.sessions < cfg.maxSessions) :
    socketCall cfg env sh = runPorts cfg env sh.nextPort cfg.portSpan 0 2
      ({ sh with sessions := sh.sessions + 1 }, []) := by
  have hcount : sh.countSession cfg.maxSessions =
      (none, { sh with sessions := sh.sessions + 1 }) := by
    rw [Shared.countSession, hopen, if_neg (by decide), if_neg (Int.not_le.mpr hlimit)]
  have hrange : 0 < cfg.testPortMin ∧ cfg.testPortMin ≤ cfg.testPortMax :=
    ⟨Int.lt_of_lt_of_le Int.one_pos hr.pos, hr.le⟩
  unfold socketCall newSessionSocket
  rw [Prog.perform_bind, Prog.run]
  dsimp only [loggedExec, SetupOp.exec]
  rw [hcount]
  dsimp only
  rw [if_pos hrange]
  rfl

theorem getElem?_portsFrom (hr : cfg.PortRange) (hs : cfg.HasPort start) {j : Nat}
    (hj : j < cfg.portSpan) : (cfg.portsFrom start)[j]? = some (cfg.portAt start j) := by
  rw [portsFrom_eq hr hs, List.getElem?_map, List.getElem?_range' hj]
  simp

/-- **No port can be bound**: each was tried once, and the call leaves nothing
behind. -/
theorem socketCall_fails (hr : cfg.PortRange) (hs : cfg.HasPort sh.nextPort)
    (hopen : sh.closed = false) (hlimit : sh.sessions < cfg.maxSessions)
    (h : ∀ j p, (cfg.portsFrom sh.nextPort)[j]? = some p → (env (2 + j)).listen p = none) :
    socketCall cfg env sh =
      (.ok (.error (noFreePort cfg)), sh, cfg.portsFrom sh.nextPort) := by
  have hback : ({ sh with sessions := sh.sessions + 1 } : Shared).uncountSession = sh := by
    rw [Shared.uncountSession, add_sub_cancel_right]
  rw [socketCall_eq hr hopen hlimit, runPorts_fails [], hback, List.nil_append,
    ← portsFrom_eq hr hs]
  intro j hj
  rw [Nat.zero_add]
  exact h j _ (getElem?_portsFrom hr hs hj)

/-- **The first port that can be bound is taken**, and none is tried after it. -/
theorem socketCall_binds (hr : cfg.PortRange) (hs : cfg.HasPort sh.nextPort)
    (hopen : sh.closed = false) (hlimit : sh.sessions < cfg.maxSessions) {j : Nat} {p : Int}
    {c : UInt16} (hp : (cfg.portsFrom sh.nextPort)[j]? = some p)
    (hbind : (env (2 + j)).listen p = some c)
    (hfirst : ∀ j' p', j' < j → (cfg.portsFrom sh.nextPort)[j']? = some p' →
      (env (2 + j')).listen p' = none) :
    socketCall cfg env sh =
      (.ok (.ok c), ({ sh with sessions := sh.sessions + 1 } : Shared).advancePort cfg p,
        (cfg.portsFrom sh.nextPort).take (j + 1)) := by
  have hj : j < cfg.portSpan := by
    have hlt := (List.getElem?_eq_some_iff.mp hp).1
    rwa [Config.portsFrom, Cyclic.order_length] at hlt
  obtain rfl : cfg.portAt sh.nextPort j = p :=
    Option.some.inj ((getElem?_portsFrom hr hs hj).symm.trans hp)
  have hfirst' : ∀ j' < j, (env (2 + j')).listen (cfg.portAt sh.nextPort (0 + j')) = none := by
    intro j' hj'
    rw [Nat.zero_add]
    exact hfirst j' _ hj' (getElem?_portsFrom hr hs (hj'.trans hj))
  have hbind' : (env (2 + j)).listen (cfg.portAt sh.nextPort (0 + j)) = some c := by
    rwa [Nat.zero_add]
  rw [socketCall_eq hr hopen hlimit, runPorts_binds [] hj hfirst' hbind', Nat.zero_add,
    List.nil_append, portsFrom_eq hr hs, ← List.map_take, List.take_range'_of_length_ge hj]

/-- Either every port is refused, or one is the first that is not. -/
theorem refused_or_first (ports : List Int) (env : Nat → Env) :
    (∀ j p, ports[j]? = some p → (env (2 + j)).listen p = none) ∨
      ∃ j p c, ports[j]? = some p ∧ (env (2 + j)).listen p = some c ∧
        ∀ j' p', j' < j → ports[j']? = some p' → (env (2 + j')).listen p' = none := by
  classical
  by_cases h : ∃ j p c, ports[j]? = some p ∧ (env (2 + j)).listen p = some c
  · obtain ⟨p, c, hp, hc⟩ := Nat.find_spec h
    refine .inr ⟨Nat.find h, p, c, hp, hc, fun j' p' hj' hp' => ?_⟩
    refine Option.eq_none_iff_forall_ne_some.mpr fun c' hc' => ?_
    exact Nat.find_min h hj' ⟨p', c', hp', hc'⟩
  · refine .inl fun j p hp => Option.eq_none_iff_forall_ne_some.mpr fun c hc => ?_
    exact h ⟨j, p, c, hp, hc⟩

/-- What a call does that has passed the session limit. -/
structure SearchesPorts (cfg : Config) (env : Nat → Env) (sh : Shared) : Prop where
  /-- The ports are tried in cyclic order, … -/
  cyclic : (socketCall cfg env sh).2.2 <+: cfg.portsFrom sh.nextPort
  /-- … which has each port of the range once. -/
  once : (cfg.portsFrom sh.nextPort).Nodup ∧
    ∀ port, port ∈ cfg.portsFrom sh.nextPort ↔ cfg.HasPort port
  /-- The first that can be bound is returned, and the next call starts behind it. -/
  first : ∀ j p c, (cfg.portsFrom sh.nextPort)[j]? = some p → (env (2 + j)).listen p = some c →
    (∀ j' p', j' < j → (cfg.portsFrom sh.nextPort)[j']? = some p' →
      (env (2 + j')).listen p' = none) →
    socketCall cfg env sh =
      (.ok (.ok c), ({ sh with sessions := sh.sessions + 1 } : Shared).advancePort cfg p,
        (cfg.portsFrom sh.nextPort).take (j + 1))
  fails_iff : (∃ err, (socketCall cfg env sh).1 = .ok (.error err)) ↔
    ∀ j p, (cfg.portsFrom sh.nextPort)[j]? = some p → (env (2 + j)).listen p = none
  /-- A call that fails leaves nothing behind. -/
  unchanged : ∀ err, (socketCall cfg env sh).1 = .ok (.error err) →
    err = noFreePort cfg ∧ (socketCall cfg env sh).2.1 = sh

theorem searchesPorts (hr : cfg.PortRange) (hs : cfg.HasPort sh.nextPort)
    (hopen : sh.closed = false) (hlimit : sh.sessions < cfg.maxSessions) :
    SearchesPorts cfg env sh := by
  have hbinds := fun j p c (hp : (cfg.portsFrom sh.nextPort)[j]? = some p)
      (hc : (env (2 + j)).listen p = some c) => socketCall_binds hr hs hopen hlimit hp hc
  have honce : (cfg.portsFrom sh.nextPort).Nodup ∧
      ∀ port, port ∈ cfg.portsFrom sh.nextPort ↔ cfg.HasPort port :=
    ⟨Cyclic.order_nodup, fun port => mem_portsFrom hr⟩
  rcases refused_or_first (cfg.portsFrom sh.nextPort) env with hnone | ⟨j, p, c, hp, hc, hfirst⟩
  · have hcall := socketCall_fails hr hs hopen hlimit hnone
    refine ⟨?_, honce, hbinds, ⟨fun _ => hnone, fun _ => ⟨noFreePort cfg, ?_⟩⟩, fun err herr => ?_⟩
    · rw [hcall]
    · rw [hcall]
    · rw [hcall] at herr ⊢
      cases herr
      exact ⟨rfl, rfl⟩
  · have hcall := hbinds j p c hp hc hfirst
    refine ⟨?_, honce, hbinds, ⟨?_, fun hnone => ?_⟩, fun err herr => ?_⟩
    · rw [hcall]
      exact List.take_prefix _ _
    · rintro ⟨err, herr⟩
      rw [hcall] at herr
      cases herr
    · cases hc.symm.trans (hnone j p hp)
    · rw [hcall] at herr
      cases herr

/-- What `net.ListenUDP` answers when exactly the ports of `held` are in use. -/
def bindRefusing (held : List UInt16) (port : Int) : Option UInt16 :=
  if UInt16.ofInt port ∈ held then none else some (UInt16.ofInt port)

theorem bindRefusing_eq_none {held : List UInt16} {port : Int} :
    bindRefusing held port = none ↔ UInt16.ofInt port ∈ held := by
  unfold bindRefusing
  split <;> simp [*]

theorem bindRefusing_eq_some {held : List UInt16} {port : Int} {c : UInt16} :
    bindRefusing held port = some c ↔ UInt16.ofInt port ∉ held ∧ UInt16.ofInt port = c := by
  rw [bindRefusing, Option.ite_none_left_eq_some, Option.some.injEq]

/-- **A call succeeds while a port is free**: the ports open at operation `n`
are `held n`, at most those of `live`. -/
theorem socketCall_succeeds (hr : cfg.PortRange) (hs : cfg.HasPort sh.nextPort)
    (hopen : sh.closed = false) (hlimit : sh.sessions < cfg.maxSessions) {live : List UInt16}
    {held : Nat → List UInt16} (hheld : ∀ n, held n ⊆ live)
    (hlisten : ∀ n p, cfg.HasPort p → (env n).listen p = bindRefusing (held n) p)
    (hfree : live.length < cfg.portSpan) :
    ∃ j p, (cfg.portsFrom sh.nextPort)[j]? = some p ∧ UInt16.ofInt p ∉ held (2 + j) ∧
      (socketCall cfg env sh).1 = .ok (.ok (UInt16.ofInt p)) := by
  have hanswer : ∀ {j p}, (cfg.portsFrom sh.nextPort)[j]? = some p →
      (env (2 + j)).listen p = bindRefusing (held (2 + j)) p :=
    fun hp => hlisten _ _ ((mem_portsFrom hr).mp (List.mem_of_getElem? hp))
  rcases refused_or_first (cfg.portsFrom sh.nextPort) env with hnone | ⟨j, p, c, hp, hc, hfirst⟩
  · -- then every port of the range is open
    have hall : ∀ p ∈ cfg.portsFrom sh.nextPort, UInt16.ofInt p ∈ live := by
      intro p hp
      obtain ⟨j, hj⟩ := List.mem_iff_getElem?.mp hp
      exact hheld _ (bindRefusing_eq_none.mp ((hanswer hj).symm.trans (hnone j p hj)))
    exact absurd (portSpan_le_of_subset hr hall) (Nat.not_le.mpr hfree)
  · obtain ⟨hout, rfl⟩ := bindRefusing_eq_some.mp ((hanswer hp).symm.trans hc)
    refine ⟨j, p, hp, hout, ?_⟩
    rw [socketCall_binds hr hs hopen hlimit hp hc hfirst]

end Call

end Diagd.Udpst

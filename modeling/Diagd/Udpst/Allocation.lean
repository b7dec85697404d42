import Diagd.Udpst.Ports
import Diagd.Udpst.Shutdown

/-!
# Test ports in the running server

The search of one request, cut into its operations: `portProtocol` allows an
attempt only at the next port of the cyclic order, an advance of `nextPort`
only behind the port that was bound, and a session only on that port. It is
what the course of a request says about its search.

Sessions close their sockets while a search is on. What the server does over
whole runs follows from the protocol: a step is one of five port moves
(`PortMoves`), and only a request's own session opens a socket.
-/

namespace Diagd.Udpst

open GoSlice GoStd Resumption

/-! ## The protocol -/

/-- How far a request's search has come: the `nextPort` it has read, the
ports it has tried, the port it has bound with the local port of the socket,
and whether a session has taken the socket over. -/
structure Allocation where
  start : Option Int := none
  tried : Nat := 0
  bound : Option (Int × UInt16) := none
  done : Bool := false

namespace Allocation

def Allowed (cfg : Config) (st : Allocation) : SetupOp → Prop
  | .countSession | .readNextPort => st = {}
  | .listenUDP port => st.done = false ∧ st.bound = none ∧ st.tried < cfg.portSpan ∧
      ∃ start, st.start = some start ∧ port = cfg.portAt start st.tried
  | .advanceNextPort port => ∃ c, st.bound = some (port, c)
  | .sessionDone => st.done = false ∧ st.bound = none ∧ st.tried = cfg.portSpan ∧
      st.start.isSome = true
  | .start sess => ∃ port, st.bound = some (port, sess.port)
  | .now | .reserveBandwidth _ _ | .releaseBandwidth _ _ | .countResponse _ | .sendResponse _ _
  | .sendNull _ _ | .wgAdd => True

def next (st : Allocation) : (o : SetupOp) → o.Res → Allocation
  | .readNextPort, start => { st with start := some start }
  | .listenUDP port, r => { st with tried := st.tried + 1, bound := r.map fun c => (port, c) }
  | .start _, _ => { st with bound := none, done := true }
  | .now, _ | .reserveBandwidth _ _, _ | .releaseBandwidth _ _, _ | .countSession, _
  | .advanceNextPort _, _ | .sessionDone, _ | .countResponse _, _ | .sendResponse _ _, _
  | .sendNull _ _, _ | .wgAdd, _ => st

end Allocation

def portProtocol (cfg : Config) : Protocol setupSig Allocation where
  Allowed := Allocation.Allowed cfg
  next := Allocation.next

/-! ## The handler follows it -/

/-- What the course of a request says about its search. -/
def Course.allocation (st : Course) : Allocation where
  start := st.start
  tried := st.tried
  bound := if st.session.isSome then none else st.bound
  done := st.session.isSome

section Handler

variable {hmac : HMAC} {cfg : Config} {req : SetupPDU} {raw : Bytes} {peer : AddrPort}
variable {st : Course}

theorem Config.PortRange.hasRange (hr : cfg.PortRange) : cfg.HasRange :=
  ⟨Int.lt_of_lt_of_le Int.one_pos hr.pos, hr.le⟩

theorem Course.allocation_of_open (hsess : st.session = none) :
    st.allocation = { start := st.start, tried := st.tried, bound := st.bound } := by
  simp only [Course.allocation, hsess]
  rfl

theorem Course.Unsought.allocation (h : st.Unsought) (hsess : st.session = none) :
    st.allocation = {} := by
  rw [Course.allocation_of_open hsess, h.start, h.tried, h.bound]

/-- The protocol sees of the course how far the search has come. -/
theorem portProtocol_views (hr : cfg.PortRange) :
    Views (setupCourse hmac cfg req raw peer) (portProtocol cfg)
      fun st a => a = st.allocation := by
  rintro st _ o rfl h
  cases o with
  | reserveBandwidth upstream mbw =>
      refine ⟨trivial, fun granted => ?_⟩
      cases granted <;> rfl
  | countSession =>
      refine ⟨h.2.2.allocation h.1.session, fun err => ?_⟩
      cases err <;> rfl
  | readNextPort => exact ⟨h.2.allocation h.1.session, fun _ => rfl⟩
  | listenUDP port =>
      obtain ⟨hst, hbound, -, hseeks⟩ := h
      rw [Course.Seeks, if_pos hr.hasRange] at hseeks
      obtain ⟨start, hstart, htried, hport⟩ := hseeks
      rw [Course.allocation_of_open hst.session]
      refine ⟨⟨rfl, hbound, htried, start, hstart, hport⟩, fun _ => ?_⟩
      simp only [setupCourse, Course.next, Course.allocation, hst.session]
      rfl
  | advanceNextPort port =>
      obtain ⟨hst, -, hbound⟩ := h
      rw [Course.allocation_of_open hst.session]
      exact ⟨hbound, fun _ => (Course.allocation_of_open hst.session).symm⟩
  | sessionDone =>
      obtain ⟨hst, -, -, hbound, hend⟩ := h
      obtain ⟨hstart, htried⟩ := hend hr.hasRange
      rw [Course.allocation_of_open hst.session]
      exact ⟨⟨rfl, hbound, htried, hstart⟩, fun _ => (Course.allocation_of_open hst.session).symm⟩
  | start sess =>
      obtain ⟨-, hsess, -, -, -, cred, port, pdu, rfl, -, -, -, -, hsay, -⟩ := h
      obtain ⟨⟨p, c⟩, hbound, rfl⟩ := Option.map_eq_some_iff.mp (hsay.accepts rfl).1
      rw [Course.allocation_of_open hsess]
      exact ⟨⟨p, hbound⟩, fun _ => rfl⟩
  | _ => exact ⟨trivial, fun _ => rfl⟩

theorem Course.Done.allocation (h : st.Done hmac req) : st.allocation.bound = none := by
  obtain ⟨code, port, cred, pdu, -, -, -, -, hend⟩ := h
  split_ifs at hend
  · simp only [Course.allocation, hend.1]
    rfl
  · rw [Course.allocation_of_open hend.1]
    exact hend.2.2.bound

/-- **`handleSetup` follows the port protocol.** -/
theorem handleSetup_searches (hr : cfg.PortRange) (hraw : raw.length = setupSize) :
    Conforms (portProtocol cfg) {} (handleSetup hmac cfg req raw peer)
      fun _ st' => st'.bound = none := by
  refine ((handleSetup_course hraw).view (portProtocol_views hr) rfl).mono ?_
  rintro _ _ ⟨st, rfl, hdone⟩
  exact hdone.allocation

end Handler

/-! ## Steps of the server, as far as ports go -/

/-- The local ports of the open session sockets. -/
def System.livePorts (s : System) : List UInt16 :=
  (s.threads.filter fun th => th.phase.live).map fun th => th.sess.port

/-- The handler follows the protocol from `st` on. -/
def InSearch (cfg : Config) : Option Handling → Allocation → Prop
  | none, st => st.bound = none
  | some h, st => Conforms (portProtocol cfg) st h.prog fun _ st' => st'.bound = none

/-- Every port the server is about to use is one of the range. -/
structure Allocates (cfg : Config) (s : System) (st : Allocation) : Prop where
  search : InSearch cfg s.handling st
  nextPort : cfg.HasPort s.shared.nextPort
  start : ∀ port, st.start = some port → cfg.HasPort port
  bound : ∀ port c, st.bound = some (port, c) → cfg.HasPort port

/-- What a step does to the search and to the open sockets. -/
inductive PortMoves (cfg : Config) (s : System) (l : Label) (st : Allocation) (s' : System) :
    Allocation → Prop where
  | other (hlive : s'.livePorts.Sublist s.livePorts) : PortMoves cfg s l st s' st
  | request (hserves : l.serves = true) (hlive : s'.livePorts.Sublist s.livePorts) :
      PortMoves cfg s l st s' {}
  | read (start : Int) (hst : st = {}) (hlive : s'.livePorts = s.livePorts) :
      PortMoves cfg s l st s' { start := some start }
  | attempt {env : Env} {origin : Origin} {port : Int} {k : Option UInt16 → SetupProg Unit}
      (hl : l = .setup env)
      (hprog : s.handling = some { origin := origin, prog := .op (.listenUDP port) k })
      (ha : st.Allowed cfg (.listenUDP port)) (hlive : s'.livePorts = s.livePorts) :
      PortMoves cfg s l st s' (st.next (.listenUDP port) (env.listen port))
  | session {port : Int} {sess : Session} (hbound : st.bound = some (port, sess.port))
      (hlive : s'.livePorts = s.livePorts ++ [sess.port]) :
      PortMoves cfg s l st s' { st with bound := none, done := true }

section Steps

variable {hmac : HMAC} {srv : Server} {s s' : System} {l : Label} {st : Allocation}

theorem activationStep_port {sess sess' : Session} {d : Rx} {r : Option Bytes}
    (h : activationStep hmac srv sess d = .ok (sess', r)) : sess'.port = sess.port := by
  by_cases haddr : sess.Addressed d
  · rw [activationStep_of_addressed haddr] at h
    obtain ⟨valid, -, h⟩ := bind_eq_ok.mp h
    split at h
    · cases h
      rfl
    · obtain ⟨resp, -, h⟩ := bind_eq_ok.mp h
      obtain ⟨pdu, -, h⟩ := bind_eq_ok.mp h
      cases h
      rfl
  · rw [activationStep_of_not_addressed haddr] at h
    cases h
    rfl

/-- A session goroutine keeps its port, and a closed socket stays closed. -/
theorem ThreadMoves.port {th th' : Thread} {sh sh' : Shared} {ev : ThreadEvent}
    (h : ThreadMoves hmac srv th sh ev th' sh') :
    th'.sess.port = th.sess.port ∧ (th'.phase.live = true → th.phase.live = true) ∧
      sh'.nextPort = sh.nextPort := by
  cases h with
  | skip hphase hstep => exact ⟨activationStep_port hstep, id, rfl⟩
  | activate hphase hstep =>
      refine ⟨activationStep_port hstep, fun _ => ?_, rfl⟩
      rw [hphase]
      rfl
  | exit hphase => exact ⟨rfl, (fun h => nomatch h), rfl⟩
  | release hphase =>
      refine ⟨rfl, (fun h => nomatch h), ?_⟩
      split_ifs
      · exact Shared.release_nextPort _ _ _
      · rfl
  | uncount hphase => exact ⟨rfl, (fun h => nomatch h), rfl⟩
  | done hphase => exact ⟨rfl, (fun h => nomatch h), rfl⟩

theorem livePorts_set {threads : List Thread} {i : Nat} {th th' : Thread}
    (hth : threads[i]? = some th) (hport : th'.sess.port = th.sess.port)
    (hlive : th'.phase.live = true → th.phase.live = true) :
    (((threads.set i th').filter fun th => th.phase.live).map fun th => th.sess.port).Sublist
      ((threads.filter fun th => th.phase.live).map fun th => th.sess.port) := by
  induction threads generalizing i with
  | nil => cases hth
  | cons x xs ih =>
      cases i with
      | zero =>
          cases hth
          rw [List.set_cons_zero, List.filter_cons, List.filter_cons]
          by_cases hl : th'.phase.live = true
          · rw [if_pos hl, if_pos (hlive hl), List.map_cons, List.map_cons, hport]
          · rw [if_neg hl]
            split
            · exact List.sublist_cons_self _ _
            · exact List.Sublist.refl _
      | succ i =>
          have hrest := ih (i := i) hth
          rw [List.set_cons_succ, List.filter_cons, List.filter_cons]
          split
          · exact hrest.cons_cons _
          · exact hrest

theorem Closer.nextPort {c c' : Closer} {sh sh' : Shared}
    (h : Closer.step sh c = some (c', sh')) : sh'.nextPort = sh.nextPort := by
  cases c with
  | idle => cases h; rfl
  | flagged => cases h; rfl
  | socketClosed => cases (Option.ite_none_right_eq_some.mp h).2; rfl
  | returned => cases h

/-- An operation leaves `nextPort` within the range. -/
theorem exec_nextPort {cfg : Config} {o : SetupOp} (hr : cfg.PortRange)
    (ha : st.Allowed cfg o) (hbound : ∀ port c, st.bound = some (port, c) → cfg.HasPort port)
    (env : Env) {sh : Shared} (h : cfg.HasPort sh.nextPort) :
    cfg.HasPort (SetupOp.exec cfg o env sh).2.nextPort := by
  cases o with
  | advanceNextPort port =>
      obtain ⟨c, hc⟩ := ha
      exact advancePort_hasPort hr (hbound port c hc) sh
  | reserveBandwidth upstream mbw =>
      simp only [SetupOp.exec, Shared.reserve]
      split_ifs <;> exact h
  | releaseBandwidth upstream mbw =>
      simp only [SetupOp.exec, Shared.release_nextPort]
      exact h
  | countSession =>
      simp only [SetupOp.exec, Shared.countSession]
      split_ifs <;> exact h
  | countResponse code =>
      simp only [SetupOp.exec]
      split_ifs <;> exact h
  | _ => exact h

/-- And so are the ports the request has in hand. -/
theorem next_hasPort {cfg : Config} {o : SetupOp} (hr : cfg.PortRange)
    (h : Allocates cfg s st) (ha : st.Allowed cfg o) (env : Env) :
    (∀ port, (st.next o (SetupOp.exec cfg o env s.shared).1).start = some port →
        cfg.HasPort port) ∧
      ∀ port c, (st.next o (SetupOp.exec cfg o env s.shared).1).bound = some (port, c) →
        cfg.HasPort port := by
  cases o with
  | readNextPort =>
      refine ⟨fun port hp => ?_, h.bound⟩
      cases hp
      exact h.nextPort
  | listenUDP port =>
      refine ⟨h.start, fun p c hp => ?_⟩
      obtain ⟨-, -, -, start, hstart, rfl⟩ := ha
      obtain ⟨c', -, hpair⟩ := Option.map_eq_some_iff.mp hp
      cases hpair
      exact portAt_hasPort hr (h.start start hstart) _
  | start sess => exact ⟨h.start, fun p c hp => nomatch hp⟩
  | _ => exact ⟨h.start, h.bound⟩

/-- **Every step of the server is one of the port moves.** -/
theorem portMoves_of_step (hr : srv.cfg.PortRange) (h : Allocates srv.cfg s st)
    (hstep : s.step hmac srv l = some s') :
    ∃ st', Allocates srv.cfg s' st' ∧ PortMoves srv.cfg s l st s' st' := by
  have hsearch := h.search
  cases (moves_of_step hstep).2 with
  | ignore hidle =>
      refine ⟨{}, ⟨?_, h.nextPort, (fun _ hp => nomatch hp), (fun _ _ hp => nomatch hp)⟩,
        .request rfl (List.Sublist.refl _)⟩
      rw [hidle]
      rfl
  | arrive hidle hraw =>
      exact ⟨{}, ⟨handleSetup_searches hr hraw.size, h.nextPort, (fun _ hp => nomatch hp),
        (fun _ _ hp => nomatch hp)⟩, .request rfl (List.Sublist.refl _)⟩
  | @op env origin o k hprog =>
      rw [hprog] at hsearch
      obtain ⟨ha, hfollows⟩ := Conforms.op_iff.mp hsearch
      obtain ⟨hstart, hbound⟩ := next_hasPort hr h ha env
      refine ⟨st.next o (SetupOp.exec srv.cfg o env s.shared).1,
        ⟨hfollows _, exec_nextPort hr ha h.bound env h.nextPort, hstart, hbound⟩, ?_⟩
      have hsame : SetupOp.spawned o = none →
          (s.threads ++ (SetupOp.spawned o).toList.map fun sess =>
            ({ origin := origin.record o env, sess := sess } : Thread)) = s.threads := by
        intro hnone
        rw [hnone]
        exact List.append_nil _
      cases o with
      | readNextPort =>
          have hst : st = {} := ha
          subst hst
          refine .read _ rfl ?_
          rw [System.livePorts, hsame rfl]
          rfl
      | listenUDP port =>
          refine .attempt rfl hprog ha ?_
          rw [System.livePorts, hsame rfl]
          rfl
      | start sess =>
          obtain ⟨port, hport⟩ := ha
          refine .session hport ?_
          show ((s.threads ++ [_]).filter _).map _ = _
          rw [List.filter_append, List.map_append]
          rfl
      | _ =>
          refine .other ?_
          rw [System.livePorts, hsame rfl]
          exact List.Sublist.refl _
  | crash hprog =>
      exact ⟨st, ⟨h.search, h.nextPort, h.start, h.bound⟩, .other (List.Sublist.refl _)⟩
  | finish hprog =>
      rw [hprog] at hsearch
      have hnone : st.bound = none :=
        Conforms.ret_iff (Q := fun _ st' => Allocation.bound st' = none).mp hsearch
      exact ⟨st, ⟨hnone, h.nextPort, h.start, h.bound⟩, .other (List.Sublist.refl _)⟩
  | @thread i ev th th' sh hth hmove =>
      obtain ⟨hport, hlive, hnext⟩ := hmove.port
      refine ⟨st, ⟨h.search, ?_, h.start, h.bound⟩, .other (livePorts_set hth hport hlive)⟩
      show srv.cfg.HasPort sh.nextPort
      rw [hnext]
      exact h.nextPort
  | panic _ _ _ =>
      exact ⟨st, ⟨h.search, h.nextPort, h.start, h.bound⟩, .other (List.Sublist.refl _)⟩
  | @close c sh hclose =>
      refine ⟨st, ⟨h.search, ?_, h.start, h.bound⟩, .other (List.Sublist.refl _)⟩
      show srv.cfg.HasPort sh.nextPort
      rw [Closer.nextPort hclose]
      exact h.nextPort

theorem allocates_init (hr : srv.cfg.PortRange) : Allocates srv.cfg (System.init srv) {} where
  search := rfl
  nextPort := ⟨Int.le_refl _, hr.le⟩
  start := fun _ hp => nomatch hp
  bound := fun _ _ hp => nomatch hp

/-- In every reachable state, `nextPort` is a port of the range. -/
theorem Reachable.allocates (hr : srv.cfg.PortRange) (h : Reachable hmac srv s) :
    ∃ st, Allocates srv.cfg s st := by
  refine Transition.Reachable.invariant (I := fun s => ∃ st, Allocates srv.cfg s st) h
    ⟨{}, allocates_init hr⟩ ?_
  rintro s l s' ⟨st, hst⟩ hstep
  obtain ⟨st', hst', -⟩ := portMoves_of_step hr hst hstep
  exact ⟨st', hst'⟩

end Steps

/-! ## When the system refuses open ports -/

/-- The port the handler is about to bind. -/
def System.binding (s : System) : Option Int :=
  match s.handling with
  | some { origin := _, prog := .op (.listenUDP port) _ } => some port
  | _ => none

/-- Binding is refused exactly for the ports of open session sockets. -/
def Binds (s : System) : Label → Prop
  | .setup env => ∀ port ∈ s.binding, env.listen port = bindRefusing s.livePorts port
  | .recv _ _ | .finish | .thread _ _ | .close => True

instance (s : System) (l : Label) : Decidable (Binds s l) :=
  match l with
  | .setup env => inferInstanceAs
      (Decidable (∀ port ∈ s.binding, env.listen port = bindRefusing s.livePorts port))
  | .recv _ _ | .finish | .thread _ _ | .close => .isTrue trivial

section Binding

variable {hmac : HMAC} {srv : Server} {s s' : System} {l : Label} {st st' : Allocation}
variable {cfg : Config} {held : List UInt16}

theorem Binds.attempt {env : Env} {origin : Origin} {port : Int}
    {k : Option UInt16 → SetupProg Unit} (h : Binds s (.setup env))
    (hprog : s.handling = some { origin := origin, prog := .op (.listenUDP port) k }) :
    env.listen port = bindRefusing s.livePorts port := by
  refine h port ?_
  rw [System.binding, hprog]
  rfl

/-- No two open sockets have one port, and neither has the one in hand. -/
structure Separate (s : System) (st : Allocation) : Prop where
  nodup : s.livePorts.Nodup
  fresh : ∀ port c, st.bound = some (port, c) → c ∉ s.livePorts

theorem Separate.moves (h : Separate s st) (hbinds : Binds s l)
    (hmove : PortMoves cfg s l st s' st') : Separate s' st' := by
  cases hmove with
  | other hlive =>
      exact ⟨h.nodup.sublist hlive, fun port c hb hc => h.fresh port c hb (hlive.subset hc)⟩
  | request _ hlive => exact ⟨h.nodup.sublist hlive, (fun _ _ hb => nomatch hb)⟩
  | read start _ hlive =>
      refine ⟨?_, (fun _ _ hb => nomatch hb)⟩
      rw [hlive]
      exact h.nodup
  | @attempt env origin port k hl hprog ha hlive =>
      subst hl
      refine ⟨by rw [hlive]; exact h.nodup, fun p c hb => ?_⟩
      obtain ⟨c', hc', hpair⟩ := Option.map_eq_some_iff.mp hb
      cases hpair
      -- the port was bound, so it was not open
      obtain ⟨hfree, rfl⟩ := bindRefusing_eq_some.mp ((hbinds.attempt hprog).symm.trans hc')
      rw [hlive]
      exact hfree
  | session hbound hlive =>
      refine ⟨?_, (fun _ _ hb => nomatch hb)⟩
      rw [hlive, List.nodup_append]
      refine ⟨h.nodup, List.nodup_singleton _, ?_⟩
      intro c hc c' hc' heq
      rw [List.mem_singleton.mp hc'] at heq
      exact h.fresh _ _ hbound (heq ▸ hc)

/-- In every state of a run in which the system refuses open ports, no two
live sessions share one. -/
theorem livePorts_nodup (hr : srv.cfg.PortRange) {ls : List Label}
    (hmeets : Transition.Meets (System.step hmac srv) Binds (System.init srv) ls)
    (hrun : Transition.run (System.step hmac srv) (System.init srv) ls = some s) :
    s.livePorts.Nodup := by
  have hinv : ∃ st, Allocates srv.cfg s st ∧ Separate s st := by
    refine Transition.run_preserves_of_meets
      (I := fun s => ∃ st, Allocates srv.cfg s st ∧ Separate s st) ?_
      ⟨{}, allocates_init hr, List.nodup_nil, (fun _ _ hb => nomatch hb)⟩ hmeets hrun
    rintro s l s' ⟨st, halloc, hsep⟩ hbinds hstep
    obtain ⟨st', halloc', hmove⟩ := portMoves_of_step hr halloc hstep
    exact ⟨st', halloc', hsep.moves hbinds hmove⟩
  obtain ⟨st, -, hsep⟩ := hinv
  exact hsep.nodup

/-- A search that began with the ports `held` open: none has been opened
since, and what was refused is among them. -/
def Searching (cfg : Config) (held : List UInt16) (s : System) (st : Allocation) : Prop :=
  st.done = true ∨
    s.livePorts ⊆ held ∧
      ∀ start j, st.start = some start → st.bound = none → j < st.tried →
        UInt16.ofInt (cfg.portAt start j) ∈ held

theorem Searching.moves (h : Searching cfg held s st) (hl : l.serves = false)
    (hbinds : Binds s l) (hmove : PortMoves cfg s l st s' st') :
    Searching cfg held s' st' := by
  cases hmove with
  | other hlive =>
      exact h.imp_right fun ⟨hsub, htried⟩ => ⟨List.Subset.trans hlive.subset hsub, htried⟩
  | request hserves _ => cases hl.symm.trans hserves
  | read start hst hlive =>
      subst hst
      refine .inr ⟨?_, fun _ j _ _ hj => absurd hj (Nat.not_lt_zero j)⟩
      rw [hlive]
      exact (h.resolve_left (by decide)).1
  | @attempt env origin port k henv hprog ha hlive =>
      subst henv
      obtain ⟨hdone, hnone, -, start, hstart, hport⟩ := ha
      obtain ⟨hsub, htried⟩ := h.resolve_left (by rw [hdone]; decide)
      refine .inr ⟨by rw [hlive]; exact hsub, fun start' j hs hb hj => ?_⟩
      obtain rfl : start = start' := Option.some.inj (hstart.symm.trans hs)
      rcases Nat.lt_succ_iff_lt_or_eq.mp hj with hj | rfl
      · exact htried start j hstart hnone hj
      · -- this attempt was refused, so the port was open
        have hrefused : env.listen port = none := Option.map_eq_none_iff.mp hb
        rw [← hport]
        exact hsub (bindRefusing_eq_none.mp ((hbinds.attempt hprog).symm.trans hrefused))
  | session hbound hlive => exact .inl rfl

/-- **A request is refused for want of a port only if all were in use** when
it was counted. -/
theorem portSpan_le_of_refused (hr : srv.cfg.PortRange) (hs : Reachable hmac srv s)
    {origin origin' : Origin} {k : Option String → SetupProg Unit} {k' : Unit → SetupProg Unit}
    (hbegin : s.handling = some { origin := origin, prog := .op .countSession k })
    {mid : List Label} (hmid : ∀ l ∈ mid, l.serves = false)
    (hmeets : Transition.Meets (System.step hmac srv) Binds s mid)
    (hrun : Transition.run (System.step hmac srv) s mid = some s')
    (hend : s'.handling = some { origin := origin', prog := .op .sessionDone k' }) :
    srv.cfg.portSpan ≤ s.livePorts.length := by
  obtain ⟨st, halloc⟩ := hs.allocates hr
  have hsearch := halloc.search
  rw [hbegin] at hsearch
  obtain rfl : st = {} := (Conforms.op_iff.mp hsearch).1
  have hboth : Transition.Meets (System.step hmac srv)
      (fun s l => Binds s l ∧ l.serves = false) s mid :=
    hmeets.and (Transition.meets_of_forall (fun l hl _ => hmid l hl) s)
  obtain ⟨st', halloc', hsearching⟩ := Transition.run_preserves_of_meets
    (I := fun x => ∃ st, Allocates srv.cfg x st ∧ Searching srv.cfg s.livePorts x st)
    (fun x l x' ⟨st, ha, hx⟩ hp hstep => by
      obtain ⟨st', ha', hmove⟩ := portMoves_of_step hr ha hstep
      exact ⟨st', ha', hx.moves hp.2 hp.1 hmove⟩)
    ⟨{}, halloc, .inr ⟨List.Subset.refl _, fun _ j _ _ hj => absurd hj (Nat.not_lt_zero j)⟩⟩
    hboth hrun
  have hsearch' := halloc'.search
  rw [hend] at hsearch'
  obtain ⟨hdone, hnone, htried, hstart⟩ := (Conforms.op_iff.mp hsearch').1
  obtain ⟨start, hstart⟩ := Option.isSome_iff_exists.mp hstart
  obtain ⟨-, hrefused⟩ := hsearching.resolve_left (by rw [hdone]; decide)
  have hall : ∀ p ∈ srv.cfg.portsFrom start, UInt16.ofInt p ∈ s.livePorts := by
    intro p hp
    rw [portsFrom_eq hr (halloc'.start start hstart)] at hp
    obtain ⟨j, hj, rfl⟩ := List.mem_map.mp hp
    obtain ⟨i, hi, rfl⟩ := List.mem_range'.mp hj
    exact hrefused start _ hstart hnone (by omega)
  exact portSpan_le_of_subset hr hall

end Binding

/-- **Port allocation is complete and fair.** `nextPort` stays within the
range; a call that passes the session limit is a cyclic search from it. If the
system refuses exactly the open ports, no two live sessions share one, a
request that was counted while a port was free never comes to the point of
giving up, whatever the sessions do meanwhile, and the call returns a port. -/
theorem port_allocation (hmac : HMAC) (cfg : Config) (hr : cfg.PortRange) :
    (∀ s, Reachable hmac (newServer cfg) s → cfg.HasPort s.shared.nextPort) ∧
    (∀ s, Reachable hmac (newServer cfg) s → s.shared.closed = false →
      s.shared.sessions < (newServer cfg).cfg.maxSessions →
      ∀ env, SearchesPorts (newServer cfg).cfg env s.shared) ∧
    (∀ ls s, Transition.Meets (System.step hmac (newServer cfg)) Binds
        (System.init (newServer cfg)) ls →
      Transition.run (System.step hmac (newServer cfg)) (System.init (newServer cfg)) ls = some s →
      s.livePorts.Nodup) ∧
    (∀ s, Reachable hmac (newServer cfg) s → s.livePorts.length < cfg.portSpan →
      ∀ origin k, s.handling = some { origin := origin, prog := .op .countSession k } →
      ∀ mid s', (∀ l ∈ mid, l.serves = false) →
      Transition.Meets (System.step hmac (newServer cfg)) Binds s mid →
      Transition.run (System.step hmac (newServer cfg)) s mid = some s' →
      ∀ origin' k', s'.handling ≠ some { origin := origin', prog := .op .sessionDone k' }) ∧
    (∀ s, Reachable hmac (newServer cfg) s → s.shared.closed = false →
      s.shared.sessions < (newServer cfg).cfg.maxSessions →
      s.livePorts.length < cfg.portSpan →
      ∀ (env : Nat → Env) (held : Nat → List UInt16), (∀ n, held n ⊆ s.livePorts) →
      (∀ n p, cfg.HasPort p → (env n).listen p = bindRefusing (held n) p) →
      ∃ j p, (cfg.portsFrom s.shared.nextPort)[j]? = some p ∧ UInt16.ofInt p ∉ held (2 + j) ∧
        (socketCall (newServer cfg).cfg env s.shared).1 = .ok (.ok (UInt16.ofInt p))) := by
  -- the server's own configuration has the same range
  have hr' : (newServer cfg).cfg.PortRange := ⟨hr.pos, hr.le, hr.max_le⟩
  have hport : ∀ s, Reachable hmac (newServer cfg) s → cfg.HasPort s.shared.nextPort := by
    intro s hs
    obtain ⟨st, halloc⟩ := hs.allocates hr'
    exact halloc.nextPort
  refine ⟨hport, ?_, ?_, ?_, ?_⟩
  · intro s hs hopen hlimit env
    exact searchesPorts hr' (hport s hs) hopen hlimit
  · intro ls s hmeets hrun
    exact livePorts_nodup hr' hmeets hrun
  · intro s hs hfree origin k hbegin mid s' hmid hmeets hrun origin' k' hend
    have hfull : cfg.portSpan ≤ s.livePorts.length :=
      portSpan_le_of_refused hr' hs hbegin hmid hmeets hrun hend
    exact absurd hfull (Nat.not_le.mpr hfree)
  · intro s hs hopen hlimit hfree env held hheld hlisten
    exact socketCall_succeeds hr' (hport s hs) hopen hlimit hheld hlisten hfree

/-! ### A server with two test ports -/

def twoPorts : Config := { testPortMin := 5000, testPortMax := 5001 }

/-- A request whose handler finds the port it asks for free. -/
def portSetup : List Label :=
  .recv clientAddr plainRequest.layout ::
    (List.replicate 10 (.setup { listen := fun port => some (UInt16.ofInt port) }) ++ [.finish])

/-- With one session a call finds the other port; two sessions have one each. -/
theorem port_allocation_twoPorts :
    (∃ s, Reachable zeroHMAC (newServer twoPorts) s ∧ s.livePorts = [5000] ∧
      twoPorts.HasPort s.shared.nextPort ∧
      ∃ p, UInt16.ofInt p ∉ s.livePorts ∧
        (socketCall (newServer twoPorts).cfg (fun _ => { listen := bindRefusing s.livePorts })
          s.shared).1 = .ok (.ok (UInt16.ofInt p))) ∧
    ∃ s, Reachable zeroHMAC (newServer twoPorts) s ∧ s.livePorts = [5000, 5001] ∧
      s.livePorts.Nodup := by
  have hr : twoPorts.PortRange := ⟨by decide, by decide, by decide⟩
  obtain ⟨hport, -, hnodup, -, hsucceeds⟩ := port_allocation zeroHMAC twoPorts hr
  have hone : (Transition.run (System.step zeroHMAC (newServer twoPorts))
      (System.init (newServer twoPorts)) portSetup).map
        (fun s => (s.livePorts, s.shared.closed, s.shared.sessions)) =
          some ([5000], false, 1) := by
    decide +kernel
  have htwo : (Transition.run (System.step zeroHMAC (newServer twoPorts))
      (System.init (newServer twoPorts)) (portSetup ++ portSetup)).map System.livePorts =
        some [5000, 5001] := by
    decide +kernel
  have hmeets : Transition.Meets (System.step zeroHMAC (newServer twoPorts)) Binds
      (System.init (newServer twoPorts)) (portSetup ++ portSetup) := by
    decide +kernel
  obtain ⟨s, hs, hfacts⟩ := Option.map_eq_some_iff.mp hone
  obtain ⟨hlive, hopen, hsessions⟩ : s.livePorts = [5000] ∧ s.shared.closed = false ∧
      s.shared.sessions = 1 := by
    simpa only [Prod.mk.injEq] using hfacts
  obtain ⟨s₂, hs₂, hlive₂⟩ := Option.map_eq_some_iff.mp htwo
  refine ⟨⟨s, ⟨_, hs⟩, hlive, hport s ⟨_, hs⟩, ?_⟩,
    s₂, ⟨_, hs₂⟩, hlive₂, hnodup _ s₂ hmeets hs₂⟩
  obtain ⟨j, p, -, hout, hcall⟩ := hsucceeds s ⟨_, hs⟩ hopen (by rw [hsessions]; decide)
    (by rw [hlive]; decide) (fun _ => { listen := bindRefusing s.livePorts })
    (fun _ => s.livePorts) (fun _ => List.Subset.refl _) (fun _ _ _ => rfl)
  exact ⟨p, hout, hcall⟩

end Diagd.Udpst

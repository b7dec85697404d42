import Diagd.Lib.Ownership
import Diagd.Tr143.Polling
import Diagd.Tr143.Slots

/-!
# What the handler tells about its requests

A request shows outside in two places: in the live registry while it
transfers and for the grace window after, and in the log when it is over.
Both are written by the requests themselves, with no lock around the two. In
every interleaving the entries ever made are those of the requests
(`Thread.sighting`), one each, with the bytes their calls have moved so far;
what the requests do to the registry is a run of the registry's own
operations, so everything known about those holds of the handler. The lines
of the log are those of the requests that are through (`Thread.logged`).
-/

namespace Diagd.Tr143

open GoStd Account Ownership

/-! ## Sightings -/

/-- A transfer as the registry has it, without the time of its end. -/
structure Sighting where
  id : UInt64
  test : String
  ref : String
  peer : String
  start : Time
  bytes : Int64
  done : Bool
  deriving DecidableEq, Repr

def sighting (x : UInt64 × LiveEntry) : Sighting where
  id := x.1
  test := x.2.test
  ref := x.2.ref
  peer := x.2.peer
  start := x.2.start
  bytes := x.2.bytes
  done := x.2.done

/-- The transfer of a request that has begun one, and whether its hook has
run. -/
def Stage.transfer? : Stage → Option (Transfer × Bool)
  | .looping _ _ xfer | .writing _ _ _ xfer | .copying _ _ xfer => some (xfer, false)
  | .counting r | .adding r | .closing r => some (r.xfer, false)
  | .releasing (some r) | .ended (.served (some r)) => some (r.xfer, true)
  | .called | .admitted _ | .releasing none | .ended (.served none) | .ended (.answered _)
  | .ended (.rejected _) => none

/-- What its calls of `Write` or `Read` have moved. -/
def Thread.moved (t : Thread) : Int64 := (bytesOf (t.writes ++ t.reads)).toInt64

/-- What the registry is to have of a request. -/
def Thread.sighting (t : Thread) : Option Sighting :=
  t.stage.transfer?.map fun x =>
    { id := x.1.lt, test := x.1.test.name, ref := t.req.ref, peer := t.req.remoteAddr,
      start := x.1.start, bytes := t.moved, done := x.2 }

/-- `io.Copy` and the counting reader count the same. -/
def Stage.Level : Stage → Prop
  | .copying written counted _ => written = counted
  | _ => True

section Thread

variable {cfg : HTTPConfig} {h h' : HTTPHandler} {t t' : Thread} {now : Time}

theorem moves_level (hlevel : t.stage.Level) (hmove : Moves cfg h t now h' t') :
    t'.stage.Level := by
  cases hmove with
  | upload => exact rfl
  | read n hstage =>
      rw [hstage] at hlevel
      exact congrArg (· + n) hlevel
  | answered | admitted | rejected | headed | download | continued | left | wrote | writeFailed
  | readLast | counted | added | closed | released => exact trivial

/-- The bytes of a download, and of an upload. -/
theorem moved_writes {sent : Int64} (hsent : sent.toUInt64 = bytesOf t.writes)
    (hreads : t.reads = []) : t.moved = sent := by
  rw [Thread.moved, hreads, List.append_nil, ← hsent]
  rfl

theorem moved_reads {counted : Int64} (hcounted : counted.toUInt64 = bytesOf t.reads)
    (hwrites : t.writes = []) : t.moved = counted := by
  rw [Thread.moved, hwrites, List.nil_append, ← hcounted]
  rfl

/-- What a step does to the registry and to the sighting. -/
inductive Shows (r : LiveRegistry) (t : Thread) (now : Time) : LiveRegistry → Thread → Prop where
  | nothing {t' : Thread} (h : t'.sighting = t.sighting) : Shows r t now r t'
  | begins {t' : Thread} {test ref peer : String} (hnone : t.sighting = none)
      (h : t'.sighting = some ⟨r.seq + 1, test, ref, peer, now, 0, false⟩) :
      Shows r t now (r.begin now test ref peer).1 t'
  | stores {t' : Thread} {g : Sighting} (n : Int64) (hold : t.sighting = some g)
      (hopen : g.done = false) (h : t'.sighting = some { g with bytes := n }) :
      Shows r t now (r.store g.id n) t'
  | completes {t' : Thread} {g : Sighting} (hold : t.sighting = some g) (hopen : g.done = false)
      (h : t'.sighting = some { g with done := true }) : Shows r t now (r.complete now g.id) t'

theorem acquire_liveReg {r : Request} {got : Bool} (hacquire : h.acquire cfg r = (h', got)) :
    h'.liveReg = h.liveReg := by
  unfold HTTPHandler.acquire at hacquire
  split at hacquire
  · cases hacquire
    rfl
  · split at hacquire <;> cases hacquire <;> rfl

theorem release_liveReg (hrelease : h.release = some h') : h'.liveReg = h.liveReg := by
  unfold HTTPHandler.release at hrelease
  split at hrelease <;> cases hrelease <;> rfl

theorem count_liveReg (test : Test) : (h.count test).liveReg = h.liveReg := by
  unfold HTTPHandler.count
  split <;> rfl

theorem addBytes_liveReg (test : Test) (n : Int64) :
    (h.addBytes test n).liveReg = h.liveReg := by
  unfold HTTPHandler.addBytes
  split <;> rfl

theorem sighting_eq {xfer : Transfer} {done : Bool} {n : Int64}
    (hstage : t.stage.transfer? = some (xfer, done)) (hmoved : t.moved = n) :
    t.sighting = some ⟨xfer.lt, xfer.test.name, t.req.ref, t.req.remoteAddr, xfer.start, n, done⟩ := by
  rw [Thread.sighting, hstage, hmoved]
  rfl

/-- A step that stays in its transfer and moves nothing. -/
theorem sighting_congr (hstage : t'.stage.transfer? = t.stage.transfer?) (hreq : t'.req = t.req)
    (hwrites : t'.writes = t.writes) (hreads : t'.reads = t.reads) :
    t'.sighting = t.sighting := by
  rw [Thread.sighting, Thread.sighting, Thread.moved, Thread.moved, hstage, hreq, hwrites, hreads]

theorem moves_shows (hagrees : t.Agrees cfg) (hlevel : t.stage.Level)
    (hmove : Moves cfg h t now h' t') : Shows h.liveReg t now h'.liveReg t' := by
  unfold Thread.Agrees at hagrees
  cases hmove with
  | answered hstage _ =>
      exact .nothing (sighting_congr (by rw [hstage]; rfl) rfl rfl rfl)
  | admitted hstage _ hacquire =>
      rw [acquire_liveReg hacquire]
      exact .nothing (sighting_congr (by rw [hstage]; rfl) rfl rfl rfl)
  | rejected hstage _ hacquire =>
      rw [acquire_liveReg hacquire]
      exact .nothing (sighting_congr (by rw [hstage]; rfl) rfl rfl rfl)
  | headed hstage _ | continued hstage | left hstage =>
      exact .nothing (sighting_congr (by rw [hstage]; rfl) rfl rfl rfl)
  | download hstage _ _ _ | upload hstage =>
      rw [hstage] at hagrees
      obtain ⟨-, hwrites, hreads⟩ := hagrees
      refine .begins (by rw [Thread.sighting, hstage]; rfl) ?_
      rw [Thread.sighting, Thread.moved, Thread.register, hwrites, hreads]
      rfl
  | wrote n hstage | writeFailed n hstage =>
      rw [hstage] at hagrees
      obtain ⟨-, -, hsent, hreads⟩ := hagrees
      refine .stores _ (sighting_eq (by rw [hstage]; rfl) rfl) rfl (sighting_eq rfl ?_)
      exact moved_writes (by rw [bytesOf_snoc, Int64.toUInt64_add, hsent]) hreads
  | read n hstage | readLast n hstage =>
      rw [hstage] at hagrees hlevel
      obtain ⟨-, -, hread, hwrites⟩ := hagrees
      obtain rfl := hlevel
      refine .stores _ (sighting_eq (by rw [hstage]; rfl) rfl) rfl (sighting_eq rfl ?_)
      exact moved_reads (by rw [bytesOf_snoc, Int64.toUInt64_add, hread]) hwrites
  | counted hstage =>
      rw [count_liveReg]
      exact .nothing (sighting_congr (by rw [hstage]; rfl) rfl rfl rfl)
  | added hstage =>
      rw [HTTPHandler.event, addBytes_liveReg]
      exact .nothing (sighting_congr (by rw [hstage]; rfl) rfl rfl rfl)
  | closed hstage =>
      exact .completes (sighting_eq (by rw [hstage]; rfl) rfl) rfl (sighting_eq rfl rfl)
  | @released result _ hstage hrelease =>
      rw [release_liveReg hrelease]
      refine .nothing (sighting_congr ?_ rfl rfl rfl)
      rw [hstage]
      cases result <;> rfl

end Thread

/-! ## The registry of the handler -/

theorem map_sighting_modify {id : UInt64} {f : LiveEntry → LiveEntry} {u : Sighting → Sighting}
    (hu : ∀ x : UInt64 × LiveEntry, sighting (x.1, f x.2) = u (sighting x))
    (all : List (UInt64 × LiveEntry)) :
    (all.map (modifyEntry id f)).map sighting =
      (all.map sighting).map (update Sighting.id id u) := by
  rw [List.map_map, List.map_map]
  refine List.map_congr_left fun x _ => ?_
  show sighting (modifyEntry id f x) = update Sighting.id id u (sighting x)
  unfold modifyEntry update
  by_cases hid : x.1 = id
  · rw [if_pos hid, if_pos (show (sighting x).id = id from hid), hu]
  · rw [if_neg hid, if_neg (show (sighting x).id ≠ id from hid)]

/-- An unfinished transfer on record is in the registry. -/
theorem Tracks.inFlight_of_mem {all : List (UInt64 × LiveEntry)} {s : LiveState} (h : Tracks all s)
    {g : Sighting} (hg : g ∈ all.map sighting) (hopen : g.done = false) :
    s.reg.inFlight g.id = true := by
  obtain ⟨x, hx, rfl⟩ := List.mem_map.mp hg
  have hundone : x.2.done = false := hopen
  have hheld : x ∈ s.reg.live := by
    by_contra hnot
    have hstale := h.retains.missing x hx hnot
    simp [LiveEntry.stale, hundone] at hstale
  exact List.any_eq_true.mpr ⟨x, hheld, by simp [sighting, hundone]⟩

theorem Tracks.nodup_sightings {all : List (UInt64 × LiveEntry)} {s : LiveState} (h : Tracks all s) :
    ((all.map sighting).map Sighting.id).Nodup := by
  rw [List.map_map]
  exact h.nodup_ids

/-- The times of the record are in order. -/
def InOrder (all : List (UInt64 × LiveEntry)) (clock : Time) : Prop :=
  ∀ x ∈ all, x.2.start ≤ clock ∧ (x.2.done = true → x.2.start ≤ x.2.ended ∧ x.2.ended ≤ clock)

theorem InOrder.later {all : List (UInt64 × LiveEntry)} {clock now : Time} (h : InOrder all clock)
    (hle : clock ≤ now) : InOrder all now := by
  intro x hx
  obtain ⟨hstart, hended⟩ := h x hx
  exact ⟨hstart.trans hle, fun hdone => ⟨(hended hdone).1, (hended hdone).2.trans hle⟩⟩

theorem InOrder.modify {all : List (UInt64 × LiveEntry)} {clock : Time} (h : InOrder all clock)
    {id : UInt64} {f : LiveEntry → LiveEntry}
    (hf : ∀ e : LiveEntry, e.start ≤ clock ∧ (e.done = true → e.start ≤ e.ended ∧ e.ended ≤ clock) →
      (f e).start ≤ clock ∧
        ((f e).done = true → (f e).start ≤ (f e).ended ∧ (f e).ended ≤ clock)) :
    InOrder (all.map (modifyEntry id f)) clock := by
  intro y hy
  obtain ⟨x, hx, rfl⟩ := List.mem_map.mp hy
  unfold modifyEntry
  split
  · exact hf x.2 (h x hx)
  · exact h x hx

theorem inOrder_of_run {t₀ : Time} {ops : List LiveOp} {s : LiveState}
    (hrun : Transition.run LiveState.step { clock := t₀ } ops = some s) :
    InOrder (history ops) s.clock := by
  refine Transition.run_induction (P := fun ops s => InOrder (history ops) s.clock) ?_ ?_ hrun
  · simp [InOrder]
  · intro ops s o s' _ h hstep
    obtain ⟨htime, hclock, hmove⟩ := liveMoves_of_step hstep
    rw [history_snoc, hclock]
    have hlater := h.later htime
    generalize s'.reg = reg' at hmove
    cases hmove with
    | begin now test ref peer =>
        intro x hx
        rcases List.mem_append.mp hx with hold | hnew
        · exact hlater x hold
        · obtain rfl := List.mem_singleton.mp hnew
          exact ⟨le_refl _, nofun⟩
    | complete now _ => exact hlater.modify fun e he => ⟨he.1, fun _ => ⟨he.1, le_refl _⟩⟩
    | store now n _ => exact hlater.modify fun e he => he
    | snapshot now order => exact hlater

/-- The handler's registry is what a run of its operations makes it, and the
record of that run is owned by the requests. -/
structure Observed (t₀ : Time) (ops : List LiveOp) (s : HTTPServer) : Prop where
  run : ∃ c, c ≤ s.clock ∧ Transition.run LiveState.step { clock := t₀ } ops =
    some { clock := c, reg := s.h.liveReg }
  owned : Owned Thread.sighting s.threads ((history ops).map sighting)
  level : ∀ t ∈ s.threads, t.stage.Level

section Server

variable {cfg : HTTPConfig} {t₀ : Time} {ops : List LiveOp} {s s' : HTTPServer}

/-- One more operation. -/
theorem run_snoc {c now : Time} {r r' : LiveRegistry} {o : LiveOp}
    (hrun : Transition.run LiveState.step { clock := t₀ } ops = some { clock := c, reg := r })
    (hstep : LiveState.step { clock := c, reg := r } o = some { clock := now, reg := r' }) :
    Transition.run LiveState.step { clock := t₀ } (ops ++ [o]) = some { clock := now, reg := r' } :=
  Transition.run_append.mpr ⟨_, hrun, Transition.run_cons.mpr ⟨_, hstep, rfl⟩⟩

/-- A request that is still to begin its transfer finds an id: those before
it are on record once each. -/
theorem Observed.room (hobs : Observed t₀ ops s) {i : Nat} {t : Thread}
    (ht : s.threads[i]? = some t) (hnone : t.sighting = none)
    (hsmall : s.threads.length < 2 ^ 64) : s.h.liveReg.seq.toNat + 1 < 2 ^ 64 := by
  obtain ⟨⟨c, -, hrun⟩, howned, -⟩ := hobs
  have hseq : s.h.liveReg.seq.toNat = (history ops).length := (tracks_of_run hrun).seq
  have hrecords : (history ops).length = s.threads.countP fun t => t.sighting.isSome := by
    rw [← List.length_filterMap_eq_countP, ← howned.length_eq, List.length_map]
  have hless : s.threads.countP (fun t => t.sighting.isSome) < s.threads.length := by
    refine lt_of_le_of_ne List.countP_le_length fun hall => ?_
    have hsome := List.countP_eq_length.mp hall t (List.mem_of_getElem? ht)
    rw [hnone] at hsome
    cases hsome
  omega

theorem Observed.act (hobs : Observed t₀ ops s) {i : Nat} {t t' : Thread} {h' : HTTPHandler}
    {now : Time} (hsmall : s.threads.length < 2 ^ 64) (ht : s.threads[i]? = some t)
    (hnow : s.clock ≤ now)
    (hshows : Shows s.h.liveReg t now h'.liveReg t') (hlevel : t'.stage.Level) :
    ∃ ops', Observed t₀ ops' { clock := now, h := h', threads := s.threads.set i t' } := by
  have hroom := hobs.room ht
  obtain ⟨⟨c, hc, hrun⟩, howned, hlevels⟩ := hobs
  have htracks := tracks_of_run hrun
  have hlevels' : ∀ u ∈ s.threads.set i t', u.stage.Level := by
    intro u hu
    rcases List.mem_or_eq_of_mem_set hu with hold | rfl
    · exact hlevels u hold
    · exact hlevel
  have htime : c ≤ now := hc.trans hnow
  generalize hreg : h'.liveReg = reg' at hshows
  cases hshows with
  | nothing hsame =>
      exact ⟨ops, ⟨c, htime, by rw [hrun, hreg]⟩, howned.keep ht hsame, hlevels'⟩
  | @begins _ test ref peer hnone hnew =>
      refine ⟨ops ++ [.begin now test ref peer], ⟨now, le_refl _, ?_⟩, ?_, hlevels'⟩
      · exact run_snoc hrun
          (by rw [hreg]; exact (if_pos htime).trans (if_pos (hroom hnone hsmall)))
      · rw [history_snoc, record, List.map_append]
        refine howned.create ht hnone ?_
        rw [hnew, show s.h.liveReg.seq + 1 = _ from htracks.seq_succ]
        rfl
  | @stores _ g n hold hopen hnew =>
      have hfl := htracks.inFlight_of_mem (howned.mem ht hold) hopen
      refine ⟨ops ++ [.store now g.id n], ⟨now, le_refl _, ?_⟩, ?_, hlevels'⟩
      · exact run_snoc hrun (by rw [hreg]; exact (if_pos htime).trans (if_pos hfl))
      · rw [history_snoc, record, map_sighting_modify (u := fun g => { g with bytes := n })]
        · exact howned.modify htracks.nodup_sightings ht hold hnew
        · exact fun _ => rfl
  | @completes _ g hold hopen hnew =>
      have hfl := htracks.inFlight_of_mem (howned.mem ht hold) hopen
      refine ⟨ops ++ [.complete now g.id], ⟨now, le_refl _, ?_⟩, ?_, hlevels'⟩
      · exact run_snoc hrun (by rw [hreg]; exact (if_pos htime).trans (if_pos hfl))
      · rw [history_snoc, record, map_sighting_modify (u := fun g => { g with done := true })]
        · exact howned.modify htracks.nodup_sightings ht hold hnew
        · exact fun _ => rfl

theorem threads_length_le {e : HTTPEvent} (hstep : s.step cfg e = some s') :
    s.threads.length ≤ s'.threads.length := by
  cases e with
  | arrive r =>
      cases hstep
      simp
  | act i now a =>
      obtain ⟨-, hbody⟩ := Option.ite_none_right_eq_some.mp hstep
      obtain ⟨t, -, hmap⟩ := Option.bind_eq_some_iff.mp hbody
      obtain ⟨⟨h', t'⟩, -, rfl⟩ := Option.map_eq_some_iff.mp hmap
      simp
  | live now order =>
      obtain ⟨-, hsome⟩ := Option.ite_none_right_eq_some.mp hstep
      cases hsome
      exact le_refl _

theorem Observed.step {e : HTTPEvent} (hobs : Observed t₀ ops s) (hinv : Conserved cfg s)
    (hsmall : s.threads.length < 2 ^ 64) (hstep : s.step cfg e = some s') : ∃ ops', Observed t₀ ops' s' := by
  cases e with
  | arrive r =>
      cases hstep
      refine ⟨ops, hobs.run, hobs.owned.join rfl, ?_⟩
      intro t ht
      rcases List.mem_append.mp ht with hold | hnew
      · exact hobs.level t hold
      · rw [List.mem_singleton.mp hnew]
        exact trivial
  | act i now a =>
      obtain ⟨hnow, hbody⟩ := Option.ite_none_right_eq_some.mp hstep
      obtain ⟨t, ht, hmap⟩ := Option.bind_eq_some_iff.mp hbody
      obtain ⟨⟨h', t'⟩, hact, rfl⟩ := Option.map_eq_some_iff.mp hmap
      have hmove := moves_of_act hact
      have hin := List.mem_of_getElem? ht
      exact hobs.act hsmall ht hnow (moves_shows (hinv.wf t hin).agrees (hobs.level t hin) hmove)
        (moves_level (hobs.level t hin) hmove)
  | live now order =>
      obtain ⟨hnow, hsome⟩ := Option.ite_none_right_eq_some.mp hstep
      cases hsome
      obtain ⟨⟨c, hc, hrun⟩, howned, hlevels⟩ := hobs
      refine ⟨ops ++ [.snapshot now order], ⟨now, le_refl _, ?_⟩, ?_, hlevels⟩
      · exact run_snoc hrun (if_pos (hc.trans hnow))
      · rw [history_snoc]
        exact howned

theorem observed_of_reachable
    (hreach : Transition.Reachable (HTTPServer.step cfg) (HTTPServer.init cfg t₀) s)
    (hsmall : s.threads.length < 2 ^ 64) : ∃ ops, Observed t₀ ops s := by
  refine (hreach.invariant (I := fun s => Conserved cfg s ∧
    (s.threads.length < 2 ^ 64 → ∃ ops, Observed t₀ ops s)) ?_ ?_).2 hsmall
  · refine ⟨conserved_init cfg t₀, fun _ => ⟨[], ⟨t₀, le_refl _, rfl⟩, owned_nil, ?_⟩⟩
    simp [HTTPServer.init]
  · rintro s e s' ⟨hinv, hobserved⟩ hstep
    refine ⟨conserved_step hinv hstep, fun hsmall => ?_⟩
    have hbefore := (threads_length_le hstep).trans_lt hsmall
    obtain ⟨ops, hobs⟩ := hobserved hbefore
    exact hobs.step hinv hbefore hstep

end Server

/-- **`/live` shows the transfers.** In every state of every interleaving of
requests and polls, the handler's registry is what some run of the registry's
operations made it. Its record is that of the requests: one entry for each
that has begun its transfer, with its test, reference and peer, the bytes its
calls have moved so far, and done exactly if its hook has run. A snapshot
reports each of them that is in flight or ended within the window, and
nothing else: one sample each, with what the record says. The ids last for
2^64 requests. -/
theorem live_shows_transfers (cfg : HTTPConfig) (t₀ : Time) {s : HTTPServer}
    (hreach : Transition.Reachable (HTTPServer.step cfg) (HTTPServer.init cfg t₀) s)
    (hsmall : s.threads.length < 2 ^ 64) :
    ∃ ops c, c ≤ s.clock ∧ Transition.run LiveState.step { clock := t₀ } ops =
        some { clock := c, reg := s.h.liveReg } ∧
      ((history ops).map sighting).Perm (s.threads.filterMap Thread.sighting) ∧
      (∀ x ∈ history ops, x.2.start ≤ s.clock ∧
        (x.2.done = true → x.2.start ≤ x.2.ended ∧ x.2.ended ≤ s.clock)) ∧
      ∀ now order, s.clock ≤ now → Reported
        ((history ops).filter fun x => !x.2.done || decide (now - x.2.ended ≤ liveGrace)) now
        (s.h.liveReg.snapshot now order).2 := by
  obtain ⟨ops, ⟨c, hc, hrun⟩, howned, -⟩ := observed_of_reachable hreach hsmall
  refine ⟨ops, c, hc, hrun, howned, (inOrder_of_run hrun).later hc, fun now order hnow => ?_⟩
  exact (tracks_of_run hrun).snapshot_reported (hc.trans hnow) order

/-- The download of `oneSlotRun`, after its `Write`, polled a second later. -/
theorem live_shows_transfers_oneSlot : ∃ s ops,
    Transition.run (HTTPServer.step { maxConcurrent := 1 })
        (HTTPServer.init { maxConcurrent := 1 } 0) (oneSlotRun.take 7) = some s ∧
      (∃ c, Transition.run LiveState.step { clock := 0 } ops =
        some { clock := c, reg := s.h.liveReg }) ∧
      (history ops).map sighting = [⟨1, "http_download", "", "", 0, 5, false⟩] ∧
      Reported ((history ops).filter fun x =>
          !x.2.done || decide (second - x.2.ended ≤ liveGrace)) second
        (s.h.liveReg.snapshot second .inOrder).2 ∧
      (s.h.liveReg.snapshot second .inOrder).2 =
        [⟨"http_download", "", "", 5, 1000, false⟩] := by
  have hrun := Option.eq_some_of_isSome (o := Transition.run
    (HTTPServer.step { maxConcurrent := 1 }) (HTTPServer.init { maxConcurrent := 1 } 0)
    (oneSlotRun.take 7)) (by decide +kernel)
  obtain ⟨ops, c, -, hops, howned, -, hreported⟩ :=
    live_shows_transfers { maxConcurrent := 1 } 0 ⟨oneSlotRun.take 7, hrun⟩ (by decide +kernel)
  refine ⟨_, ops, hrun, ⟨c, hops⟩, List.perm_singleton.mp (howned.trans (List.Perm.of_eq ?_)),
    hreported second .inOrder (by decide +kernel), ?_⟩ <;> decide +kernel

/-! ## The log -/

/-- A line without its duration. -/
def LogLine.untimed : LogLine → LogLine
  | .rejected reason peer ref => .rejected reason peer ref
  | .event msg test peer ref bytes _ => .event msg test peer ref bytes 0

/-- The line of a finished transfer. -/
def Thread.eventLine (t : Thread) (r : Result) : LogLine :=
  .event (if r.complete then "test complete" else "test ended by client") r.xfer.test.name
    t.req.remoteAddr t.req.ref t.moved 0

/-- What the log is to have of a request. -/
def Thread.logged (t : Thread) : Option LogLine :=
  match t.stage with
  | .closing r | .releasing (some r) | .ended (.served (some r)) => some (t.eventLine r)
  | .ended (.rejected _) => some (.rejected "capacity" t.req.remoteAddr t.req.ref)
  | .called | .admitted _ | .looping _ _ _ | .writing _ _ _ _ | .copying _ _ _ | .counting _
  | .adding _ | .releasing none | .ended (.served none) | .ended (.answered _) => none

section Log

variable {cfg : HTTPConfig} {h h' : HTTPHandler} {t t' : Thread} {now : Time}

theorem Result.Of.moved {r : Result} (hof : r.Of t) : t.moved = r.bytes := by
  have hbytes : bytesOf (t.writes ++ t.reads) = r.bytes.toUInt64 := by
    rw [bytesOf, total_append, show total Int64.toUInt64 t.writes = _ from hof.sent.symm,
      show total Int64.toUInt64 t.reads = _ from hof.received.symm]
    cases htest : r.xfer.test.isDownload <;> simp [Result.volume, htest]
  rw [Thread.moved, hbytes]
  rfl

theorem acquire_log {r : Request} {got : Bool} (hacquire : h.acquire cfg r = (h', got)) :
    h'.log = h.log ++ if got then [] else [.rejected "capacity" r.remoteAddr r.ref] := by
  unfold HTTPHandler.acquire at hacquire
  split at hacquire
  · cases hacquire
    exact (List.append_nil _).symm
  · split at hacquire <;> cases hacquire
    · exact (List.append_nil _).symm
    · rfl

theorem release_log (hrelease : h.release = some h') : h'.log = h.log := by
  unfold HTTPHandler.release at hrelease
  split at hrelease <;> cases hrelease <;> rfl

theorem count_log (test : Test) : (h.count test).log = h.log := by
  unfold HTTPHandler.count
  split <;> rfl

theorem addBytes_log (test : Test) (n : Int64) : (h.addBytes test n).log = h.log := by
  unfold HTTPHandler.addBytes
  split <;> rfl

/-- A step writes the line of its request, or none. -/
inductive Logs (log : List LogLine) (t : Thread) : List LogLine → Thread → Prop where
  | nothing {t' : Thread} (h : t'.logged = t.logged) : Logs log t log t'
  | line {t' : Thread} {l : LogLine} (hnone : t.logged = none) (h : t'.logged = some l.untimed) :
      Logs log t (log ++ [l]) t'

theorem moves_logs (hagrees : t.Agrees cfg) (hmove : Moves cfg h t now h' t') :
    Logs h.log t h'.log t' := by
  unfold Thread.Agrees at hagrees
  cases hmove with
  | answered hstage _ | headed hstage _ | continued hstage | left hstage | wrote _ hstage
  | writeFailed _ hstage | read _ hstage | readLast _ hstage =>
      exact .nothing (by rw [Thread.logged, Thread.logged, hstage])
  | download hstage _ _ _ | upload hstage =>
      exact .nothing (by rw [Thread.logged, Thread.logged, hstage]; rfl)
  | admitted hstage _ hacquire =>
      rw [acquire_log hacquire, if_pos rfl, List.append_nil]
      exact .nothing (by rw [Thread.logged, Thread.logged, hstage])
  | rejected hstage _ hacquire =>
      rw [acquire_log hacquire, if_neg Bool.false_ne_true]
      exact .line (by rw [Thread.logged, hstage]) rfl
  | counted hstage =>
      rw [count_log]
      exact .nothing (by rw [Thread.logged, Thread.logged, hstage])
  | @added r hstage =>
      rw [hstage] at hagrees
      rw [HTTPHandler.event, addBytes_log]
      refine .line (by rw [Thread.logged, hstage]) ?_
      show some (t.eventLine r) = _
      rw [Thread.eventLine, Result.Of.moved hagrees]
      rfl
  | closed hstage => exact .nothing (by rw [Thread.logged, Thread.logged, hstage]; rfl)
  | @released result _ hstage hrelease =>
      rw [release_log hrelease]
      refine .nothing ?_
      rw [Thread.logged, Thread.logged, hstage]
      cases result <;> rfl

theorem Logs.owned {log log' : List LogLine} {threads : List Thread} {i : Nat}
    (h : Logs log t log' t') (ht : threads[i]? = some t)
    (howned : Owned Thread.logged threads (log.map LogLine.untimed)) :
    Owned Thread.logged (threads.set i t') (log'.map LogLine.untimed) := by
  cases h with
  | nothing hsame => exact howned.keep ht hsame
  | line hnone hnew =>
      rw [List.map_append]
      exact howned.create ht hnone hnew

end Log

/-- **The log has one line for each request that is through.** In every state
of every interleaving, its lines are, in some order, those of the requests
that were refused for capacity and of the transfers past their bookkeeping,
each with the bytes its calls moved; no other request leaves a line. -/
theorem log_has_each_once (cfg : HTTPConfig) (t₀ : Time) {s : HTTPServer}
    (hreach : Transition.Reachable (HTTPServer.step cfg) (HTTPServer.init cfg t₀) s) :
    (s.h.log.map LogLine.untimed).Perm (s.threads.filterMap Thread.logged) := by
  refine (hreach.invariant (I := fun s => Conserved cfg s ∧
    Owned Thread.logged s.threads (s.h.log.map LogLine.untimed)) ?_ ?_).2
  · exact ⟨conserved_init cfg t₀, owned_nil⟩
  · rintro s e s' ⟨hinv, howned⟩ hstep
    refine ⟨conserved_step hinv hstep, ?_⟩
    cases e with
    | arrive r =>
        cases hstep
        exact howned.join rfl
    | act i now a =>
        obtain ⟨-, hbody⟩ := Option.ite_none_right_eq_some.mp hstep
        obtain ⟨t, ht, hmap⟩ := Option.bind_eq_some_iff.mp hbody
        obtain ⟨⟨h', t'⟩, hact, rfl⟩ := Option.map_eq_some_iff.mp hmap
        have hlogs := moves_logs (hinv.wf t (List.mem_of_getElem? ht)).agrees (moves_of_act hact)
        exact hlogs.owned ht howned
    | live now order =>
        obtain ⟨-, hsome⟩ := Option.ite_none_right_eq_some.mp hstep
        cases hsome
        exact howned

/-- Both requests of `oneSlotRun` are in the log: the upload was refused first. -/
theorem log_has_each_once_oneSlot : ∃ s,
    Transition.run (HTTPServer.step { maxConcurrent := 1 })
        (HTTPServer.init { maxConcurrent := 1 } 0) oneSlotRun = some s ∧
      (s.h.log.map LogLine.untimed).Perm
        [.event "test complete" "http_download" "" "" 5 0, .rejected "capacity" "" ""] := by
  have hrun := Option.eq_some_of_isSome (o := Transition.run
    (HTTPServer.step { maxConcurrent := 1 }) (HTTPServer.init { maxConcurrent := 1 } 0) oneSlotRun)
    (by decide +kernel)
  refine ⟨_, hrun, (log_has_each_once { maxConcurrent := 1 } 0 ⟨oneSlotRun, hrun⟩).trans ?_⟩
  exact List.Perm.of_eq (by decide +kernel)

end Diagd.Tr143
